import Svr4.Foundation.Execution
import Svr4.Kernel.Rmap.Units

/-! A resource map is a set of free units.

The set is what the calls say: units freed and not allocated since, without the
ranges that `rmfree` reported lost. The table holds it as ranges.
-/

namespace Svr4.Rmap

/-- The units of a range. -/
def range (size a : Nat) : Set Nat := { unit | a ≤ unit ∧ unit < a + size }

/-- A map with the units that are free by the calls so far. -/
structure State where
  map : Map
  units : Set Nat

inductive Call where
  | rmalloc (size : Nat)
  | rmfree (size a : Nat)

inductive Step : State → Call → State → Prop where
  | rmalloc {s : State} {size base : Nat} {map : Map} : rmalloc s.map size = some (base, map) →
      Step s (.rmalloc size) ⟨map, if base = 0 then s.units else s.units \ range size base⟩
  | rmfree {s : State} {size a : Nat} {map : Map} {woken : Bool} : rmfree s.map size a = some (map, woken) →
      Step s (.rmfree size a) ⟨map, if s.map.overflows size a then s.units else s.units ∪ range size a⟩

/-- A freed range has no free unit and no unit 0, and it ends in the address space. -/
def Proper (s : State) : Call → Prop
  | .rmalloc _ => True
  | .rmfree size a => 0 < a ∧ a + size ≤ 4294967296 ∧ Disjoint (range size a) s.units

/-- After `mapinit` of a zeroed table of `size` entries. -/
def Start (size : Nat) (s : State) : Prop := s = ⟨mapinit size, ∅⟩

/-- A run of free units: a range that is not empty. -/
def Run (units : Set Nat) (size base : Nat) : Prop := 0 < size ∧ range size base ⊆ units

/-- The table holds the set, with `total` entries in use or to be used. -/
structure Refines (total : Nat) (s : State) (live : List Entry) : Prop where
  table : Table s.map live
  count : s.map.mapsize + live.length = total
  units : ∀ unit, unit ∈ s.units ↔ Free live unit

section
variable {total size a : Nat} {s t : State} {call : Call} {live : List Entry}

theorem start_refines (enough : 2 ≤ size) (start : Start size s) : Refines (size - 2) s [] := by
  obtain rfl := start
  exact ⟨mapinit_table enough, rfl, fun unit => by simp⟩

theorem range_zero : range 0 a = ∅ := by
  ext unit
  simp only [range, Set.mem_ofPred_eq, Set.mem_empty_iff_false, iff_false]
  omega

theorem Refines.rmalloc (refines : Refines total s live) (size : Nat) :
    ∃ base map live', rmalloc s.map size = some (base, map) ∧
      Refines total ⟨map, if base = 0 then s.units else s.units \ range size base⟩ live' ∧
      (base ≠ 0 → Run s.units size base) ∧ (base = 0 ↔ ∀ base, ¬ Run s.units size base) := by
  by_cases zero : size = 0
  · subst zero
    refine ⟨0, s.map, live, rfl, ?_, by simp, by simp [Run]⟩
    simpa using refines
  · have positive := Nat.pos_of_ne_zero zero
    rcases rmalloc_units refines.table positive with
      ⟨small, result⟩ | ⟨base, map, live', result, table, start, count, was, units⟩
    · refine ⟨0, s.map, live, result, by simpa using refines, by simp, fun _ base run => ?_, fun _ => rfl⟩
      -- A run would be inside one entry, and all entries are too small.
      obtain ⟨entry, member, low, high⟩ := refines.table.separated.run positive
        fun unit first last => (refines.units unit).mp (run.2 ⟨first, last⟩)
      have short := small entry member
      simp only [Entry.stop] at high
      omega
    · have run : Run s.units size base :=
        ⟨positive, fun unit inside => (refines.units unit).mpr (was unit inside.1 inside.2)⟩
      refine ⟨base, map, live', result, ⟨table, count.trans refines.count, fun unit => ?_⟩, fun _ => run,
        fun none => by omega, fun none => absurd run (none base)⟩
      rw [if_neg (by omega), units unit, ← refines.units unit]
      rfl

theorem Refines.rmfree (refines : Refines total s live) (proper : Proper s (.rmfree size a)) :
    ∃ map woken live', rmfree s.map size a = some (map, woken) ∧
      Refines total ⟨map, if s.map.overflows size a then s.units else s.units ∪ range size a⟩ live' := by
  obtain ⟨place, _, apart⟩ := proper
  by_cases zero : size = 0
  · subst zero
    refine ⟨s.map, false, live, rfl, ?_⟩
    simpa [Map.overflows, range_zero] using refines
  · have away (unit : Nat) (low : a ≤ unit) (high : unit < a + size) : ¬ Free live unit := fun free =>
      Set.disjoint_left.mp apart ⟨low, high⟩ ((refines.units unit).mpr free)
    rcases rmfree_units refines.table (Nat.pos_of_ne_zero zero) place away with
      ⟨report, result⟩ | ⟨report, map, woken, live', result, table, count, units⟩
    · refine ⟨s.map, false, live, result, ?_⟩
      simpa [report] using refines
    · refine ⟨map, woken, live', result, table, count.trans refines.count, fun unit => ?_⟩
      rw [if_neg report, units unit, ← refines.units unit]
      rfl

theorem step_refines (refines : Refines total s live) (step : Step s call t) (proper : Proper s call) :
    ∃ live', Refines total t live' := by
  cases step with
  | @rmalloc size base map result =>
    obtain ⟨base', map', live', same, after, _⟩ := refines.rmalloc size
    cases same.symm.trans result
    exact ⟨live', after⟩
  | rmfree result =>
    obtain ⟨map', woken', live', same, after⟩ := refines.rmfree proper
    cases same.symm.trans result
    exact ⟨live', after⟩

theorem reaches_refines (enough : 2 ≤ size) (reached : Reaches (Start size) Step Proper s) :
    ∃ live, Refines (size - 2) s live := by
  induction reached with
  | start start => exact ⟨[], start_refines enough start⟩
  | next _ step proper ih =>
    obtain ⟨live, refines⟩ := ih
    exact step_refines refines step proper

/-- Every map that is reached holds the free units as ranges in order that do not
touch, with zero entries behind them, and the calls return and do what they say. -/
theorem map_refines (enough : 2 ≤ size) (reached : Reaches (Start size) Step Proper s) :
    ∃ live : List Entry, s.map.entries = live ++ List.replicate (s.map.mapsize + 1) ⟨0, 0⟩ ∧
      (∀ entry ∈ live, 0 < entry.mSize) ∧ live.Pairwise (fun entry next => entry.mAddr + entry.mSize < next.mAddr) ∧
      s.map.mapsize + live.length = size - 2 ∧
      (∀ unit, unit ∈ s.units ↔ ∃ entry ∈ live, unit ∈ range entry.mSize entry.mAddr) ∧
      (∀ count, ∃ base map, rmalloc s.map count = some (base, map) ∧ (base ≠ 0 → Run s.units count base) ∧
        (base = 0 ↔ ∀ base, ¬ Run s.units count base)) ∧
      ∀ count a, Proper s (.rmfree count a) → ∃ map woken, rmfree s.map count a = some (map, woken) := by
  obtain ⟨live, refines⟩ := reaches_refines enough reached
  refine ⟨live, refines.table.entries, fun entry member => (refines.table.positive entry member).1,
    refines.table.separated, refines.count, refines.units, fun count => ?_, fun count a proper => ?_⟩
  · obtain ⟨base, map, _, result, _, taken, none⟩ := refines.rmalloc count
    exact ⟨base, map, result, taken, none⟩
  · obtain ⟨map, woken, _, result, _⟩ := refines.rmfree proper
    exact ⟨map, woken, result⟩

/-- A table of four entries after two frees and an allocation between them. -/
theorem map_refines_four : ∃ s, Reaches (Start 4) Step Proper s ∧
    s.map.entries = [⟨3, 7⟩, ⟨2, 20⟩, ⟨0, 0⟩] ∧
    ∃ base map, rmalloc s.map 4 = some (base, map) ∧ (base = 0 ↔ ∀ base, ¬ Run s.units 4 base) := by
  have start : Reaches (Start 4) Step Proper ⟨mapinit 4, ∅⟩ := .start rfl
  have first := start.next ((@Step.rmfree _ 5 5) rfl) ⟨by decide, by decide, by simp⟩
  have second := first.next ((@Step.rmalloc _ 2) rfl) trivial
  have third := second.next ((@Step.rmfree _ 2 20) rfl) ⟨by decide, by decide, by
    refine Set.disjoint_left.mpr fun unit inside other => ?_
    simp only [range, Set.mem_ofPred_eq] at inside
    have member : unit ∈ range 5 5 := by
      have away := other.1
      rw [if_neg (by decide)] at away
      simpa using away
    simp only [range, Set.mem_ofPred_eq] at member
    omega⟩
  obtain ⟨_, _, _, _, _, _, allocates, _⟩ := map_refines (by decide) third
  obtain ⟨base, map, result, _, none⟩ := allocates 4
  exact ⟨_, third, rfl, base, map, result, none⟩

end

end Svr4.Rmap
