import Svr4.Foundation.Keyed
import Svr4.Kernel.Inpcb

/-! The look-up finds a control block with the fewest wildcards, and the search for a port ends when one is free. -/

namespace Svr4.Inpcb

section
variable {head : Head} {inp other : Pcb} {faddr laddr : Addr} {fport lport : Nat} {wild : Bool} {last : Nat}

/-! ## Look-up -/

/-- Two addresses that are equal, or one of which is a wildcard. -/
def Agree (first second : Addr) : Prop := first = inaddrAny ∨ second = inaddrAny ∨ first = second

/-- A control block that a look-up for these names may find. -/
structure Fits (faddr : Addr) (fport : Nat) (laddr : Addr) (lport : Nat) (inp : Pcb) : Prop where
  lport : inp.lport = lport
  laddr : Agree inp.laddr laddr
  faddr : inp.faddr = inaddrAny ∨ faddr = inaddrAny ∨ inp.faddr = faddr ∧ inp.fport = fport

/-- Whether exactly one of two addresses is a wildcard. -/
def wildOne (first second : Addr) : Nat := if first = inaddrAny ↔ second = inaddrAny then 0 else 1

/-- The positions at which one side has a wildcard and the other has not. -/
def wilds (faddr laddr : Addr) (inp : Pcb) : Nat := wildOne inp.laddr laddr + wildOne inp.faddr faddr

theorem wildOne_zero {first second : Addr} (agree : Agree first second) : wildOne first second = 0 ↔ first = second := by
  unfold Agree wildOne at *
  split <;> grind

theorem wilds_lt : wilds faddr laddr inp < 3 := by
  unfold wilds wildOne
  split <;> split <;> omega

theorem wildPart_eq (first second : Addr) (agree : Prop) [Decidable agree] :
    (if first ≠ inaddrAny then (if second = inaddrAny then some 1 else if agree then none else some 0)
      else if second ≠ inaddrAny then some 1 else some 0) =
    if first = inaddrAny ∨ second = inaddrAny ∨ ¬ agree then some (wildOne first second) else none := by
  unfold wildOne
  by_cases mine : first = inaddrAny <;> by_cases yours : second = inaddrAny <;> by_cases equal : agree <;>
    simp [mine, yours, equal]

theorem wildcard_some {count : Nat} :
    wildcard faddr fport laddr lport inp = some count ↔ Fits faddr fport laddr lport inp ∧ count = wilds faddr laddr inp := by
  have fits : Fits faddr fport laddr lport inp ↔ inp.lport = lport ∧ Agree inp.laddr laddr ∧
      (inp.faddr = inaddrAny ∨ faddr = inaddrAny ∨ ¬ (inp.faddr ≠ faddr ∨ inp.fport ≠ fport)) := by
    rw [not_or, not_not, not_not]
    exact ⟨fun fits => ⟨fits.lport, fits.laddr, fits.faddr⟩, fun fits => ⟨fits.1, fits.2.1, fits.2.2⟩⟩
  rw [fits, wildcard, wilds]
  by_cases port : inp.lport = lport
  · simp only [wildPart_eq, if_neg (not_not.mpr port)]
    by_cases near : Agree inp.laddr laddr
    · have near' := near
      rw [Agree, ← not_not (a := inp.laddr = laddr)] at near'
      rw [if_pos near']
      by_cases far : inp.faddr = inaddrAny ∨ faddr = inaddrAny ∨ ¬ (inp.faddr ≠ faddr ∨ inp.fport ≠ fport)
      · rw [if_pos far]
        simp only [Option.bind_some, Option.map_some, Option.some.injEq]
        exact ⟨fun same => ⟨⟨port, near, far⟩, same.symm⟩, fun both => both.2.symm⟩
      · rw [if_neg far]
        exact ⟨fun none => (by cases none), fun both => absurd both.1.2.2 far⟩
    · have near' := near
      rw [Agree, ← not_not (a := inp.laddr = laddr)] at near'
      rw [if_neg near']
      exact ⟨fun none => (by cases none), fun both => absurd both.1.2.1 near⟩
  · rw [if_pos port]
    exact ⟨fun none => (by cases none), fun both => absurd both.1.1 port⟩

theorem matches_some {count : Nat} :
    matches' faddr fport laddr lport wild inp = some count ↔
      Fits faddr fport laddr lport inp ∧ count = wilds faddr laddr inp ∧ (count = 0 ∨ wild = true) := by
  rw [matches', Option.filter_eq_some_iff, wildcard_some, and_assoc, decide_eq_true_iff]

/-- The loop keeps its best match, or ends with one that is better and that no other one beats. -/
theorem lookupFrom_best (count : Pcb → Option Nat) (found : Option Pcb) (best : Nat) (list : List Pcb) :
    (lookupFrom count found best list = found ∧ ∀ inp ∈ list, ∀ n, count inp = some n → best ≤ n) ∨
    ∃ inp ∈ list, ∃ n, count inp = some n ∧ n < best ∧ lookupFrom count found best list = some inp ∧
      ∀ other ∈ list, ∀ m, count other = some m → n ≤ m := by
  induction list generalizing found best with
  | nil => exact .inl ⟨rfl, fun inp there => by cases there⟩
  | cons first rest ih =>
    rw [lookupFrom]
    cases counted : count first with
    | none =>
      have skipped (bound : Nat) : ∀ n, count first = some n → bound ≤ n := fun n some => by cases counted.symm.trans some
      rcases ih found best with ⟨same, none⟩ | ⟨inp, there, n, some, less, result, least⟩
      · exact .inl ⟨same, List.forall_mem_cons.mpr ⟨skipped best, none⟩⟩
      · exact .inr ⟨inp, .tail _ there, n, some, less, result, List.forall_mem_cons.mpr ⟨skipped n, least⟩⟩
    | some k =>
      have above {bound : Nat} (le : bound ≤ k) : ∀ n, count first = some n → bound ≤ n := fun n some =>
        le.trans (Option.some.inj (counted.symm.trans some)).le
      by_cases better : k < best
      · simp only [if_pos better]
        right
        by_cases zero : k = 0
        · rw [if_pos zero]
          exact ⟨first, (.head _), k, counted, better, rfl, fun _ _ m _ => by omega⟩
        · rw [if_neg zero]
          rcases ih (some first) k with ⟨same, none⟩ | ⟨inp, there, n, some, less, result, least⟩
          · exact ⟨first, (.head _), k, counted, better, same, List.forall_mem_cons.mpr ⟨above le_rfl, none⟩⟩
          · exact ⟨inp, .tail _ there, n, some, less.trans better, result, List.forall_mem_cons.mpr ⟨above less.le, least⟩⟩
      · simp only [if_neg better]
        rcases ih found best with ⟨same, none⟩ | ⟨inp, there, n, some, less, result, least⟩
        · exact .inl ⟨same, List.forall_mem_cons.mpr ⟨above (not_lt.mp better), none⟩⟩
        · exact .inr ⟨inp, .tail _ there, n, some, less, result,
            List.forall_mem_cons.mpr ⟨above (less.le.trans (not_lt.mp better)), least⟩⟩

/-- A member that fits with as few wildcards as any; without wildcards only if it needs none. -/
structure Best (head : Head) (faddr : Addr) (fport : Nat) (laddr : Addr) (lport : Nat) (wild : Bool) (inp : Pcb) : Prop where
  member : inp ∈ head.pcbs
  fits : Fits faddr fport laddr lport inp
  allowed : wilds faddr laddr inp = 0 ∨ wild = true
  fewest : ∀ other ∈ head.pcbs, Fits faddr fport laddr lport other → wilds faddr laddr inp ≤ wilds faddr laddr other

theorem inPcblookup_cases (head : Head) (faddr : Addr) (fport : Nat) (laddr : Addr) (lport : Nat) (wild : Bool) :
    (inPcblookup head faddr fport laddr lport wild = none ∧
      ∀ inp ∈ head.pcbs, ¬ (Fits faddr fport laddr lport inp ∧ (wilds faddr laddr inp = 0 ∨ wild = true))) ∨
    ∃ inp, inPcblookup head faddr fport laddr lport wild = some inp ∧ Best head faddr fport laddr lport wild inp := by
  rcases lookupFrom_best (matches' faddr fport laddr lport wild) none 3 head.pcbs with
    ⟨result, none⟩ | ⟨inp, there, n, counted, -, result, least⟩
  · left
    refine ⟨result, fun inp there found => ?_⟩
    have few := none inp there _ (matches_some.mpr ⟨found.1, rfl, found.2⟩)
    have small : wilds faddr laddr inp < 3 := wilds_lt
    omega
  · right
    obtain ⟨fits, rfl, allowed⟩ := matches_some.mp counted
    refine ⟨inp, result, there, fits, allowed, fun other member fitting => ?_⟩
    by_cases counts : wilds faddr laddr other = 0 ∨ wild = true
    · exact least other member _ (matches_some.mpr ⟨fitting, rfl, counts⟩)
    · rcases allowed with zero | set
      · omega
      · exact absurd (.inr set) counts

theorem inPcblookup_some (result : inPcblookup head faddr fport laddr lport wild = some inp) :
    Best head faddr fport laddr lport wild inp := by
  rcases inPcblookup_cases head faddr fport laddr lport wild with
    ⟨none, -⟩ | ⟨found, some, best⟩
  · cases none.symm.trans result
  · cases Option.some.inj (some.symm.trans result)
    exact best

theorem inPcblookup_none : inPcblookup head faddr fport laddr lport wild = none ↔
    ∀ inp ∈ head.pcbs, ¬ (Fits faddr fport laddr lport inp ∧ (wilds faddr laddr inp = 0 ∨ wild = true)) := by
  rcases inPcblookup_cases head faddr fport laddr lport wild with
    ⟨none, nothing⟩ | ⟨found, some, best⟩
  · exact ⟨fun _ => nothing, fun _ => none⟩
  · refine ⟨fun none => ?_, fun nothing => absurd ⟨best.fits, best.allowed⟩ (nothing found best.member)⟩
    cases none.symm.trans some

/-! ## The search for a port -/

def InRange (lport : Nat) : Prop := ipportReserved ≤ lport ∧ lport ≤ ipportUserreserved

/-- A control block that has a port, for a local address that may be the same. -/
def Uses (laddr : Addr) (lport : Nat) (inp : Pcb) : Prop := inp.lport = lport ∧ Agree inp.laddr laddr

theorem freePort_iff : freePort head laddr lport = true ↔ ∀ inp ∈ head.pcbs, ¬ Uses laddr lport inp := by
  rw [freePort, Option.isNone_iff_eq_none, inPcblookup_none]
  refine forall₂_congr fun inp _ => not_congr ⟨fun found => ⟨found.1.lport, found.1.laddr⟩, fun uses => ?_⟩
  exact ⟨⟨uses.1, uses.2, .inr (.inl rfl)⟩, .inr rfl⟩

section
variable (small : last ≤ ipportUserreserved)
include small

theorem nextPort_range : InRange (nextPort last) := by
  unfold nextPort InRange ipportReserved ipportUserreserved at *
  split <;> omega

theorem nextPort_turns (count : Nat) :
    nextPort^[count] (nextPort last) = ipportReserved + (nextPort last - ipportReserved + count) % turns := by
  have range := nextPort_range small
  generalize nextPort last = first at *
  induction count with
  | zero =>
    unfold InRange turns ipportReserved ipportUserreserved at *
    rw [Function.iterate_zero_apply]
    omega
  | succ count ih =>
    rw [Function.iterate_succ_apply', ih, nextPort]
    unfold InRange turns ipportReserved ipportUserreserved at *
    split <;> omega

theorem nextPort_reaches (range : InRange lport) :
    ∃ count < turns, nextPort^[count] (nextPort last) = lport := by
  have first := nextPort_range small
  refine ⟨(lport + turns - nextPort last) % turns, Nat.mod_lt _ (by decide), ?_⟩
  rw [nextPort_turns small]
  unfold InRange turns ipportReserved ipportUserreserved at *
  omega

end

theorem searchPort_none (fuel last : Nat) : searchPort head laddr fuel last = none ↔
    ∀ count < fuel, freePort head laddr (nextPort^[count] (nextPort last)) = false := by
  induction fuel generalizing last with
  | zero => exact ⟨fun _ count less => absurd less (Nat.not_lt_zero count), fun _ => rfl⟩
  | succ fuel ih =>
    rw [searchPort]
    by_cases free : freePort head laddr (nextPort last) = true
    · rw [if_pos free]
      refine ⟨fun none => (by cases none), fun used => ?_⟩
      cases free.symm.trans (used 0 fuel.succ_pos)
    · rw [if_neg free, ih]
      refine ⟨fun used count less => ?_, fun used count less => ?_⟩
      · cases count with
        | zero => exact Bool.eq_false_iff.mpr free
        | succ count => exact used count (Nat.lt_of_succ_lt_succ less)
      · exact used (count + 1) (Nat.succ_lt_succ less)

section
variable (small : last ≤ ipportUserreserved)
include small

theorem searchPort_some {fuel : Nat}
    (result : searchPort head laddr fuel last = some lport) : InRange lport ∧ freePort head laddr lport = true := by
  induction fuel generalizing last with
  | zero => cases result
  | succ fuel ih =>
    rw [searchPort] at result
    by_cases free : freePort head laddr (nextPort last) = true
    · rw [if_pos free] at result
      cases result
      exact ⟨nextPort_range small, free⟩
    · rw [if_neg free] at result
      exact ih (nextPort_range small).2 result

theorem searchPort_isSome :
    (searchPort head laddr turns last).isSome = true ↔ ∃ lport, InRange lport ∧ freePort head laddr lport = true := by
  constructor
  · intro some
    obtain ⟨lport, result⟩ := Option.isSome_iff_exists.mp some
    exact ⟨lport, searchPort_some small result⟩
  · intro ⟨lport, range, free⟩
    rw [Option.isSome_iff_ne_none]
    intro none
    obtain ⟨count, less, here⟩ := nextPort_reaches small range
    have used := (searchPort_none turns last).mp none count less
    rw [here] at used
    cases free.symm.trans used

theorem searchPort_never
    (none : searchPort head laddr turns last = .none) (fuel : Nat) :
    searchPort head laddr fuel last = .none := by
  by_contra found
  obtain ⟨lport, result⟩ := Option.ne_none_iff_exists'.mp found
  have ends := (searchPort_isSome small).mpr ⟨lport, searchPort_some small result⟩
  rw [none] at ends
  cases ends

end

end

end Svr4.Inpcb
