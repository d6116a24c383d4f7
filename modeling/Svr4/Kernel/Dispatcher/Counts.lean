import Mathlib.Algebra.BigOperators.Group.Finset.Piecewise
import Mathlib.Algebra.Order.BigOperators.Group.Finset
import Svr4.Kernel.Dispatcher

/-! The counts of eligible processes: for each priority, in total, as bits of the active
map, and the highest priority that has any.
-/

namespace Svr4.Dispatcher

open Bitmap
open Function (update update_self update_of_ne)
open Finset (range mem_range)

/-- `maxrunpri` is the highest priority with a count, or -1. -/
def Highest (count : Nat → Nat) (maxrunpri : Int) : Prop :=
  (maxrunpri = -1 ∧ ∀ pri, count pri = 0) ∨
    ∃ top : Nat, maxrunpri = top ∧ 0 < count top ∧ ∀ pri, 0 < count pri → pri ≤ top

/-- The dispatcher has the counts. -/
structure Counted (nglobpris : Nat) (d : Disp) (count : Nat → Nat) : Prop where
  each : ∀ pri, (d.dispq pri).dqSruncnt = count pri
  total : d.srunprocs = (∑ pri ∈ range nglobpris, count pri : Nat)
  inside : ∀ pri, nglobpris ≤ pri → count pri = 0
  words : ∀ wx, d.dqactmap wx < 2 ^ 32
  bits : ∀ pri, btTest d.dqactmap pri ↔ 0 < count pri
  highest : Highest count d.maxrunpri

section
variable {nglobpris pri : Nat} {d : Disp} {count : Nat → Nat}

theorem total_update (inside : pri < nglobpris) (value : Nat) :
    ∑ i ∈ range nglobpris, update count pri value i + count pri =
      ∑ i ∈ range nglobpris, count i + value := by
  have member : pri ∈ range nglobpris := mem_range.mpr inside
  rw [Finset.sum_update_of_mem member, ← Finset.add_sum_erase _ count member, Finset.sdiff_singleton_eq_erase]
  omega

/-- What `dq_sruninc` does, in one piece. -/
theorem dqSruninc_eq : dqSruninc pri d = { d with
    srunprocs := d.srunprocs + 1
    dispq := update d.dispq pri { d.dispq pri with dqSruncnt := (d.dispq pri).dqSruncnt + 1 }
    dqactmap := if (d.dispq pri).dqSruncnt = 0 then btSet d.dqactmap pri else d.dqactmap
    maxrunpri := if (d.dispq pri).dqSruncnt = 0 ∧ d.maxrunpri < pri then (pri : Int) else d.maxrunpri } := by
  have first : (d.dispq pri).dqSruncnt + 1 = 1 ↔ (d.dispq pri).dqSruncnt = 0 := by omega
  simp only [dqSruninc, Disp.setDispq, update_self, first]
  by_cases zero : (d.dispq pri).dqSruncnt = 0
  · by_cases higher : d.maxrunpri < pri
    · simp [zero, higher]
    · simp [zero, higher]
  · simp [zero]

theorem dqSrundec_eq : dqSrundec pri d = { d with
    srunprocs := d.srunprocs - 1
    dispq := update d.dispq pri { d.dispq pri with dqSruncnt := (d.dispq pri).dqSruncnt - 1 }
    dqactmap := if (d.dispq pri).dqSruncnt = 1 then btClear d.dqactmap pri else d.dqactmap
    maxrunpri :=
      if (d.dispq pri).dqSruncnt = 1 then
        if d.srunprocs = 1 then -1
        else if (pri : Int) = d.maxrunpri then btGethighbit (btClear d.dqactmap pri) (pri >>> btUlshift)
        else d.maxrunpri
      else d.maxrunpri } := by
  have last : (d.dispq pri).dqSruncnt - 1 = 0 ↔ (d.dispq pri).dqSruncnt = 1 := by omega
  have none : d.srunprocs - 1 = 0 ↔ d.srunprocs = 1 := by omega
  simp only [dqSrundec, Disp.setDispq, update_self, last, none]
  by_cases one : (d.dispq pri).dqSruncnt = 1
  · by_cases only : d.srunprocs = 1
    · simp [one, only]
    · by_cases top : (pri : Int) = d.maxrunpri
      · simp [one, only, top]
      · simp [one, only, top]
  · simp [one]

theorem dqSruninc_lists : (dqSruninc pri d).proc = d.proc ∧
    ∀ i, ((dqSruninc pri d).dispq i).dqFirst = (d.dispq i).dqFirst ∧
      ((dqSruninc pri d).dispq i).dqLast = (d.dispq i).dqLast := by
  rw [dqSruninc_eq]
  refine ⟨rfl, fun i => ?_⟩
  by_cases same : i = pri
  · subst same
    simp
  · simp [same]

theorem dqSrundec_lists : (dqSrundec pri d).proc = d.proc ∧
    ∀ i, ((dqSrundec pri d).dispq i).dqFirst = (d.dispq i).dqFirst ∧
      ((dqSrundec pri d).dispq i).dqLast = (d.dispq i).dqLast := by
  rw [dqSrundec_eq]
  refine ⟨rfl, fun i => ?_⟩
  by_cases same : i = pri
  · subst same
    simp
  · simp [same]

theorem Counted.inc (counted : Counted nglobpris d count) (inside : pri < nglobpris) :
    Counted nglobpris (dqSruninc pri d) (update count pri (count pri + 1)) := by
  have each := counted.each pri
  have zero : (d.dispq pri).dqSruncnt = 0 ↔ count pri = 0 := by omega
  rw [dqSruninc_eq]
  constructor
  · intro i
    by_cases same : i = pri
    · subst same
      simp [each]
    · simp [same, counted.each i]
  · have total := counted.total
    have moved := (@total_update _ _ count) inside (count pri + 1)
    simp only
    omega
  · intro i outside
    rw [update_of_ne (by omega)]
    exact counted.inside i outside
  · intro wx
    split
    · exact btSet_lt counted.words wx
    · exact counted.words wx
  · intro i
    split
    · rw [btTest_set, counted.bits i]
      by_cases same : i = pri
      · simp [same]
      · simp [same]
    · next some =>
      rw [counted.bits i]
      by_cases same : i = pri
      · subst same
        simp only [update_self]
        omega
      · simp [same]
  · -- A new highest priority is one that had no count.
    simp only
    rcases counted.highest with ⟨none, empty⟩ | ⟨top, found, some, most⟩
    · refine .inr ⟨pri, ?_, by simp, fun i positive => ?_⟩
      · rw [if_pos ⟨zero.mpr (empty pri), by omega⟩]
      · by_contra more
        rw [update_of_ne (by omega), empty i] at positive
        omega
    · by_cases higher : top < pri
      · have none : count pri = 0 := by
          by_contra positive
          have bound := most pri (by omega)
          omega
        refine .inr ⟨pri, ?_, by simp, fun i positive => ?_⟩
        · rw [if_pos ⟨zero.mpr none, by omega⟩]
        · by_contra more
          rw [update_of_ne (by omega)] at positive
          have bound := most i positive
          omega
      · refine .inr ⟨top, ?_, ?_, fun i positive => ?_⟩
        · rw [if_neg fun new => higher (by omega)]
          exact found
        · by_cases same : top = pri
          · subst same
            simp
          · rw [update_of_ne same]
            exact some
        · by_cases same : i = pri
          · omega
          · rw [update_of_ne same] at positive
            exact most i positive

theorem Counted.dec (counted : Counted nglobpris d count) {rest : Nat} (some : count pri = rest + 1) :
    Counted nglobpris (dqSrundec pri d) (update count pri rest) := by
  have each := counted.each pri
  have one : (d.dispq pri).dqSruncnt = 1 ↔ rest = 0 := by omega
  have inside : pri < nglobpris := by
    by_contra outside
    have none := counted.inside pri (by omega)
    omega
  have moved := (@total_update _ _ count) inside rest
  have total := counted.total
  have bits (i : Nat) (zero : rest = 0) :
      btTest (btClear d.dqactmap pri) i ↔ 0 < update count pri rest i := by
    rw [btTest_clear, counted.bits i]
    by_cases same : i = pri
    · simp [same, zero]
    · simp [same]
  rw [dqSrundec_eq]
  constructor
  · intro i
    by_cases same : i = pri
    · subst same
      simp only [update_self]
      omega
    · simp [same, counted.each i]
  · simp only
    omega
  · intro i outside
    rw [update_of_ne (by omega)]
    exact counted.inside i outside
  · intro wx
    split
    · exact btClear_lt counted.words wx
    · exact counted.words wx
  · intro i
    split
    · next last => exact bits i (one.mp last)
    · next more =>
      rw [counted.bits i]
      by_cases same : i = pri
      · subst same
        simp only [update_self]
        omega
      · simp [same]
  · simp only
    rcases counted.highest with ⟨none, empty⟩ | ⟨top, found, _, most⟩
    · have zero := empty pri
      omega
    · have least {i : Nat} (positive : 0 < update count pri rest i) : i ≤ top := by
        by_cases same : i = pri
        · subst same
          exact most i (by omega)
        · rw [update_of_ne same] at positive
          exact most i positive
      by_cases last : rest = 0
      · rw [if_pos (one.mpr last)]
        by_cases only : d.srunprocs = 1
        · -- Nothing is left at all.
          rw [if_pos only]
          refine .inl ⟨rfl, fun i => ?_⟩
          have sum : ∑ i ∈ range nglobpris, update count pri rest i = 0 := by omega
          by_cases outside : i < nglobpris
          · exact Finset.sum_eq_zero_iff.mp sum i (mem_range.mpr outside)
          · rw [update_of_ne (by omega)]
            exact counted.inside i (by omega)
        · rw [if_neg only]
          by_cases here : (pri : Int) = d.maxrunpri
          · -- The highest priority ran out: the next one is below it.
            rw [if_pos here]
            have row : pri >>> btUlshift = pri / 32 := Nat.shiftRight_eq_div_pow pri 5
            have below {i : Nat} (positive : 0 < update count pri rest i) : i / 32 ≤ pri / 32 := by
              have bound := least positive
              exact Nat.div_le_div_right (by omega)
            rw [row]
            rcases btGethighbit_highest (btClear_lt (i := pri) counted.words) (pri / 32) with
              ⟨none, off⟩ | ⟨high, result, on, highest⟩
            · refine .inl ⟨none, fun i => ?_⟩
              by_contra positive
              exact off i (below (Nat.pos_of_ne_zero positive)) ((bits i last).mpr (Nat.pos_of_ne_zero positive))
            · exact .inr ⟨high, result, (bits high last).mp on,
                fun i positive => highest i (below positive) ((bits i last).mpr positive)⟩
          · rw [if_neg here]
            refine .inr ⟨top, found, ?_, fun i positive => least positive⟩
            have other : top ≠ pri := fun same => here (by rw [found, same])
            rw [update_of_ne other]
            omega
      · rw [if_neg fun single => last (one.mp single)]
        refine .inr ⟨top, found, ?_, fun i positive => least positive⟩
        by_cases same : top = pri
        · subst same
          rw [update_self]
          omega
        · rw [update_of_ne same]
          omega

theorem Counted.congr {d' : Disp} (counted : Counted nglobpris d count)
    (each : ∀ pri, (d'.dispq pri).dqSruncnt = (d.dispq pri).dqSruncnt) (srunprocs : d'.srunprocs = d.srunprocs)
    (dqactmap : d'.dqactmap = d.dqactmap) (maxrunpri : d'.maxrunpri = d.maxrunpri) : Counted nglobpris d' count where
  each pri := (each pri).trans (counted.each pri)
  total := srunprocs.trans counted.total
  inside := counted.inside
  words := by rw [dqactmap]; exact counted.words
  bits := by rw [dqactmap]; exact counted.bits
  highest := by rw [maxrunpri]; exact counted.highest

end

end Svr4.Dispatcher
