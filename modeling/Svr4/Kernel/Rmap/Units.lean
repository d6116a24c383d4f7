import Svr4.Foundation.Ranges
import Svr4.Kernel.Rmap

/-! The free units of a resource map.

The table is a list of ranges in order, with gaps between them, and behind it zero
entries only. `rmalloc` takes a range out of the free units and `rmfree` puts one
back, or loses it when the table is full.
-/

namespace Svr4.Rmap

open List (replicate cons_append mem_cons mem_append pairwise_cons pairwise_append)

/-- The unit behind the last one of the entry. -/
def Entry.stop (entry : Entry) : Nat := entry.mAddr + entry.mSize

/-- The table holds the ranges of `live`. -/
structure Table (map : Map) (live : List Entry) : Prop where
  entries : map.entries = live ++ replicate (map.mapsize + 1) ⟨0, 0⟩
  positive : ∀ entry ∈ live, 0 < entry.mSize ∧ 0 < entry.mAddr
  separated : Separated Entry.mAddr Entry.stop live

/-- The free units. -/
abbrev Free (live : List Entry) (unit : Nat) : Prop := Covers Entry.mAddr Entry.stop live unit

section
variable {map map' : Map} {live left right : List Entry} {entry : Entry} {n size a : Nat} {room : Bool}

theorem mapinit_table (enough : 2 ≤ size) : Table (mapinit size) [] where
  entries := by
    have rounds : size - 1 = size - 2 + 1 := by omega
    simp [mapinit, rounds]
  positive := by simp
  separated := .nil

theorem close_live (positive : ∀ entry ∈ live, 0 < entry.mSize) :
    close (live ++ replicate (n + 1) ⟨0, 0⟩) = some (live ++ replicate (n + 2) ⟨0, 0⟩) := by
  induction live with
  | nil => rfl
  | cons entry live ih =>
    have here := positive entry (by simp)
    rw [cons_append, close, if_neg (by omega), ih fun other member => positive other (by simp [member])]
    rfl

theorem shove_live (positive : ∀ entry ∈ live, 0 < entry.mSize) :
    shove entry (live ++ replicate (n + 1) ⟨0, 0⟩) = some (entry :: live ++ replicate n ⟨0, 0⟩) := by
  induction live generalizing entry with
  | nil => rfl
  | cons first live ih =>
    have here := positive first (by simp)
    rw [cons_append, shove, if_neg (by omega), ih fun other member => positive other (by simp [member])]
    rfl

/-! ## `rmalloc` -/

theorem rmallocFrom_live (positive : ∀ entry ∈ live, 0 < entry.mSize) :
    ((∀ entry ∈ live, entry.mSize < size) ∧
      rmallocFrom size (live ++ replicate (n + 1) ⟨0, 0⟩) =
        some (0, live ++ replicate (n + 1) ⟨0, 0⟩, false)) ∨
    ∃ left entry right, live = left ++ entry :: right ∧ size ≤ entry.mSize ∧
      rmallocFrom size (live ++ replicate (n + 1) ⟨0, 0⟩) =
        if entry.mSize = size then some (entry.mAddr, left ++ right ++ replicate (n + 2) ⟨0, 0⟩, true)
        else some (entry.mAddr, left ++ ⟨entry.mSize - size, entry.mAddr + size⟩ :: right ++
          replicate (n + 1) ⟨0, 0⟩, false) := by
  induction live with
  | nil => exact .inl ⟨by simp, rfl⟩
  | cons first live ih =>
    have here := positive first (by simp)
    have rest : ∀ entry ∈ live, 0 < entry.mSize := fun other member => positive other (by simp [member])
    by_cases enough : size ≤ first.mSize
    · refine .inr ⟨[], first, live, rfl, enough, ?_⟩
      rw [cons_append, rmallocFrom, if_neg (by omega), if_pos enough, close_live rest]
      by_cases whole : first.mSize = size
      · rw [if_pos whole, if_pos (by omega)]
        rfl
      · rw [if_neg whole, if_neg (by omega)]
        rfl
    · rw [cons_append, rmallocFrom, if_neg (by omega), if_neg enough]
      rcases ih rest with ⟨small, same⟩ | ⟨left, entry, right, rfl, large, result⟩
      · refine .inl ⟨?_, by rw [same]; rfl⟩
        intro entry member
        rcases mem_cons.mp member with rfl | member
        · omega
        · exact small entry member
      · refine .inr ⟨first :: left, entry, right, rfl, large, ?_⟩
        rw [result]
        split
        · rfl
        · rfl

/-- `rmalloc` returns the base of a range of free units and takes it out of them, or
zero and changes nothing when no entry is large enough. -/
theorem rmalloc_units (table : Table map live) (positive : 0 < size) :
    ((∀ entry ∈ live, entry.mSize < size) ∧ rmalloc map size = some (0, map)) ∨
    ∃ base map' live', rmalloc map size = some (base, map') ∧ Table map' live' ∧ 0 < base ∧
      map'.mapsize + live'.length = map.mapsize + live.length ∧
      (∀ unit, base ≤ unit → unit < base + size → Free live unit) ∧
      ∀ unit, Free live' unit ↔ Free live unit ∧ ¬ (base ≤ unit ∧ unit < base + size) := by
  have sizes : ∀ entry ∈ live, 0 < entry.mSize := fun entry member => (table.positive entry member).1
  unfold rmalloc
  rw [if_neg (by omega), table.entries]
  rcases (@rmallocFrom_live _ map.mapsize size) sizes with ⟨small, same⟩ | ⟨left, entry, right, rfl, large, result⟩
  · refine .inl ⟨small, ?_⟩
    rw [same]
    simp only [Option.bind_eq_bind, Option.bind_some, Bool.false_eq_true, if_false]
    rw [← table.entries]
    rfl
  · have place := table.positive entry (by simp)
    obtain ⟨before, behind, others⟩ := table.separated.around
    have stop : entry.stop = entry.mAddr + entry.mSize := rfl
    have free (unit : Nat) (low : entry.mAddr ≤ unit) (high : unit < entry.mAddr + size) :
        Free (left ++ entry :: right) unit := by
      simp only [covers_append, covers_cons]
      exact .inr (.inl ⟨low, by omega⟩)
    -- The units of the entry are in no other one.
    have alone (unit : Nat) (low : entry.mAddr ≤ unit) (high : unit < entry.stop) : ¬ Free (left ++ right) unit :=
      table.separated.alone ⟨low, high⟩
    rw [result]
    by_cases whole : entry.mSize = size
    · rw [if_pos whole]
      refine .inr ⟨entry.mAddr, _, left ++ right, rfl, ⟨rfl, ?_, others⟩, place.2, ?_, free, fun unit => ?_⟩
      · intro other member
        refine table.positive other ?_
        rcases mem_append.mp member with member | member
        · simp [member]
        · simp [member]
      · simp
        omega
      · have apart := alone unit
        simp only [covers_append, covers_cons] at apart ⊢
        constructor
        · intro inside
          refine ⟨by tauto, fun range => apart range.1 (by omega) inside⟩
        · rintro ⟨first | ⟨low, high⟩ | last, away⟩
          · exact .inl first
          · exact absurd ⟨low, by omega⟩ away
          · exact .inr last
    · rw [if_neg whole]
      refine .inr ⟨entry.mAddr, _, left ++ ⟨entry.mSize - size, entry.mAddr + size⟩ :: right, rfl, ⟨rfl, ?_, ?_⟩,
        place.2, ?_, free, fun unit => ?_⟩
      · intro other member
        simp only [mem_append, mem_cons] at member
        rcases member with member | rfl | member
        · exact table.positive other (by simp [member])
        · exact ⟨by simp only; omega, by simp only; omega⟩
        · exact table.positive other (by simp [member])
      · refine others.insert (fun other member => ?_) fun other member => ?_
        · have gap := before other member
          simp only
          omega
        · have gap := behind other member
          simp only [Entry.stop] at gap ⊢
          omega
      · simp
      · have apart := alone unit
        have rest : Entry.stop ⟨entry.mSize - size, entry.mAddr + size⟩ = entry.stop := by
          simp only [Entry.stop]
          omega
        simp only [covers_append, covers_cons, rest] at apart ⊢
        constructor
        · rintro (first | ⟨low, high⟩ | last)
          · exact ⟨.inl first, fun range => apart range.1 (by omega) (.inl first)⟩
          · exact ⟨.inr (.inl ⟨by omega, high⟩), by omega⟩
          · exact ⟨.inr (.inr last), fun range => apart range.1 (by omega) (.inr last)⟩
        · rintro ⟨first | ⟨low, high⟩ | last, away⟩
          · exact .inl first
          · exact .inr (.inl ⟨by omega, high⟩)
          · exact .inr (.inr last)

/-! ## `rmfree` -/

/-- `merged` has the units of `right` and the freed ones, and begins at `bound` or
behind it. -/
structure Merged (bound size a : Nat) (right merged : List Entry) : Prop where
  positive : ∀ entry ∈ merged, 0 < entry.mSize ∧ 0 < entry.mAddr
  above : ∀ entry ∈ merged, bound ≤ entry.mAddr
  separated : Separated Entry.mAddr Entry.stop merged
  units : ∀ unit, Free merged unit ↔ Free right unit ∨ (a ≤ unit ∧ unit < a + size)

/-- What an effect does to the number of entries and of zero entries behind them. -/
def Effect.counts (room : Bool) (entries zeros entries' zeros' : Nat) : Effect → Prop
  | .same => entries' = entries ∧ zeros' = zeros
  | .fewer => entries' + 1 = entries ∧ zeros' = zeros + 1
  | .more => entries' = entries + 1 ∧ zeros' + 1 = zeros ∧ room = true
  | .lost => False

theorem rmfreeAt_units (table : ∀ entry ∈ right, 0 < entry.mSize ∧ 0 < entry.mAddr)
    (separated : Separated Entry.mAddr Entry.stop right) (ahead : ∀ entry ∈ right, a + size ≤ entry.mAddr)
    (positive : 0 < size) (unit : 0 < a) :
    (room = false ∧ rmfreeAt room size a (right ++ replicate (n + 1) ⟨0, 0⟩) =
      some (right ++ replicate (n + 1) ⟨0, 0⟩, .lost)) ∨
    ∃ merged zeros effect, rmfreeAt room size a (right ++ replicate (n + 1) ⟨0, 0⟩) =
        some (merged ++ replicate zeros ⟨0, 0⟩, effect) ∧ Merged a size a right merged ∧
      effect.counts room right.length (n + 1) merged.length zeros := by
  have sizes : ∀ entry ∈ right, 0 < entry.mSize := fun entry member => (table entry member).1
  have insert (gap : ∀ entry ∈ right, a + size < entry.mAddr) : Merged a size a right (⟨size, a⟩ :: right) := by
    refine ⟨?_, ?_, pairwise_cons.mpr ⟨gap, separated⟩, fun x => ?_⟩
    · intro entry member
      rcases mem_cons.mp member with rfl | member
      · exact ⟨positive, unit⟩
      · exact table entry member
    · intro entry member
      rcases mem_cons.mp member with rfl | member
      · exact Nat.le_refl a
      · have far := ahead entry member
        omega
    · simp only [covers_cons, Entry.stop]
      exact Or.comm
  cases right with
  | nil =>
    cases room with
    | false => exact .inl ⟨rfl, by simp [rmfreeAt, List.replicate_succ]⟩
    | true =>
      refine .inr ⟨[⟨size, a⟩], n, .more, ?_, insert (by simp), rfl, rfl, rfl⟩
      simp [rmfreeAt, List.replicate_succ, shove]
  | cons next rest =>
    have here := table next (by simp)
    rw [cons_append, rmfreeAt]
    by_cases touch : a + size = next.mAddr
    · rw [if_pos ⟨touch, by omega⟩]
      refine .inr ⟨⟨next.mSize + size, next.mAddr - size⟩ :: rest, n + 1, .same, rfl, ⟨?_, ?_, ?_, fun x => ?_⟩, ?_⟩
      · intro entry member
        rcases mem_cons.mp member with rfl | member
        · exact ⟨by simp only; omega, by simp only; omega⟩
        · exact table entry (by simp [member])
      · intro entry member
        rcases mem_cons.mp member with rfl | member
        · simp only
          omega
        · have far := ahead entry (by simp [member])
          omega
      · obtain ⟨first, others⟩ := pairwise_cons.mp separated
        refine pairwise_cons.mpr ⟨fun entry member => ?_, others⟩
        have gap := first entry member
        simp only [Entry.stop] at gap ⊢
        omega
      · simp only [covers_cons, Entry.stop]
        constructor
        · rintro (⟨low, high⟩ | others)
          · by_cases freed : x < a + size
            · exact .inr ⟨by omega, freed⟩
            · exact .inl (.inl ⟨by omega, by omega⟩)
          · exact .inl (.inr others)
        · rintro ((⟨low, high⟩ | others) | ⟨low, high⟩)
          · exact .inl ⟨by omega, by omega⟩
          · exact .inr others
          · exact .inl ⟨by omega, by omega⟩
      · exact ⟨rfl, rfl⟩
    · rw [if_neg fun both => touch both.1]
      have far : ∀ entry ∈ next :: rest, a + size < entry.mAddr := by
        intro entry member
        have first := ahead next (by simp)
        rcases mem_cons.mp member with rfl | member
        · omega
        · have gap := (pairwise_cons.mp separated).1 entry member
          simp only [Entry.stop] at gap
          omega
      cases room with
      | false => exact .inl ⟨rfl, by simp⟩
      | true =>
        refine .inr ⟨⟨size, a⟩ :: next :: rest, n, .more, ?_, insert far, rfl, rfl, rfl⟩
        rw [if_pos rfl, ← cons_append, shove_live sizes]
        rfl

theorem rmfreeJoin_units {before : Entry} (table : ∀ entry ∈ before :: right, 0 < entry.mSize ∧ 0 < entry.mAddr)
    (separated : Separated Entry.mAddr Entry.stop (before :: right)) (ahead : ∀ entry ∈ right, a + size ≤ entry.mAddr)
    (touch : before.stop = a) (positive : 0 < size) :
    ∃ merged zeros effect, rmfreeJoin size a before (right ++ replicate (n + 1) ⟨0, 0⟩) =
        some (merged ++ replicate zeros ⟨0, 0⟩, effect) ∧ Merged before.mAddr size a (before :: right) merged ∧
      effect.counts room (before :: right).length (n + 1) merged.length zeros := by
  have place := table before (by simp)
  have joint : before.mAddr + before.mSize = a := touch
  obtain ⟨first, others⟩ := pairwise_cons.mp separated
  have grown (gap : ∀ entry ∈ right, a + size < entry.mAddr) :
      Merged before.mAddr size a (before :: right) (⟨before.mSize + size, before.mAddr⟩ :: right) := by
    refine ⟨?_, ?_, pairwise_cons.mpr ⟨fun entry member => ?_, others⟩, fun x => ?_⟩
    · intro entry member
      rcases mem_cons.mp member with rfl | member
      · exact ⟨by simp only; omega, place.2⟩
      · exact table entry (by simp [member])
    · intro entry member
      rcases mem_cons.mp member with rfl | member
      · exact le_rfl
      · have behind := first entry member
        omega
    · have far := gap entry member
      simp only [Entry.stop]
      omega
    · simp only [covers_cons, Entry.stop]
      constructor
      · rintro (⟨low, high⟩ | others)
        · by_cases old : x < a
          · exact .inl (.inl ⟨low, by omega⟩)
          · exact .inr ⟨by omega, by omega⟩
        · exact .inl (.inr others)
      · rintro ((⟨low, high⟩ | others) | ⟨low, high⟩)
        · exact .inl ⟨low, by omega⟩
        · exact .inr others
        · exact .inl ⟨by omega, by omega⟩
  cases right with
  | nil =>
    refine ⟨[⟨before.mSize + size, before.mAddr⟩], n + 1, .same, ?_, grown (by simp), rfl, rfl⟩
    simp [rmfreeJoin, List.replicate_succ]
  | cons next rest =>
    have here := table next (by simp)
    rw [cons_append, rmfreeJoin]
    by_cases meet : a + size = next.mAddr
    · -- Both neighbours touch the range: three become one.
      have sizes : ∀ entry ∈ rest, 0 < entry.mSize := fun entry member => (table entry (by simp [member])).1
      rw [if_pos ⟨by omega, meet⟩]
      rw [if_neg (by omega), close_live sizes]
      refine ⟨⟨before.mSize + size + next.mSize, before.mAddr⟩ :: rest, n + 2, .fewer, rfl, ⟨?_, ?_, ?_, fun x => ?_⟩, ?_⟩
      · intro entry member
        rcases mem_cons.mp member with rfl | member
        · exact ⟨by simp only; omega, place.2⟩
        · exact table entry (by simp [member])
      · intro entry member
        rcases mem_cons.mp member with rfl | member
        · exact le_rfl
        · have behind := first entry (by simp [member])
          omega
      · obtain ⟨second, tail⟩ := pairwise_cons.mp others
        refine pairwise_cons.mpr ⟨fun entry member => ?_, tail⟩
        have gap := second entry member
        simp only [Entry.stop] at gap ⊢
        omega
      · simp only [covers_cons, Entry.stop]
        constructor
        · rintro (⟨low, high⟩ | others)
          · by_cases old : x < a
            · exact .inl (.inl ⟨low, by omega⟩)
            · by_cases freed : x < a + size
              · exact .inr ⟨by omega, freed⟩
              · exact .inl (.inr (.inl ⟨by omega, by omega⟩))
          · exact .inl (.inr (.inr others))
        · rintro ((⟨low, high⟩ | ⟨low, high⟩ | others) | ⟨low, high⟩)
          · exact .inl ⟨low, by omega⟩
          · exact .inl ⟨by omega, by omega⟩
          · exact .inr others
          · exact .inl ⟨by omega, by omega⟩
      · exact ⟨by simp, by omega⟩
    · rw [if_neg fun both => meet both.2]
      have far : ∀ entry ∈ next :: rest, a + size < entry.mAddr := by
        intro entry member
        have near := ahead next (by simp)
        rcases mem_cons.mp member with rfl | member
        · omega
        · have gap := (pairwise_cons.mp others).1 entry member
          simp only [Entry.stop] at gap
          omega
      exact ⟨⟨before.mSize + size, before.mAddr⟩ :: next :: rest, n + 1, .same, rfl, grown far, rfl, rfl⟩

theorem rmfreeFrom_left {last : Entry} {stop : List Entry} (before : Option Entry)
    (passed : ∀ entry ∈ left ++ [last], entry.mAddr ≤ a ∧ entry.mSize ≠ 0)
    (stops : ∀ entry ∈ stop.head?, ¬ (entry.mAddr ≤ a ∧ entry.mSize ≠ 0)) :
    rmfreeFrom room size a before (left ++ last :: stop) =
      (if last.stop = a then rmfreeJoin size a last stop
        else (rmfreeAt room size a stop).map fun (list, effect) => (last :: list, effect)).map
        fun (list, effect) => (before.toList ++ left ++ list, effect) := by
  induction left generalizing before with
  | nil =>
    have here := passed last (by simp)
    have finish : rmfreeFrom room size a (some last) stop = if last.stop = a then rmfreeJoin size a last stop
        else (rmfreeAt room size a stop).map fun (list, effect) => (last :: list, effect) := by
      cases stop with
      | nil =>
        rw [rmfreeFrom]
        split
        · rfl
        · rfl
      | cons entry rest =>
        rw [rmfreeFrom, if_neg (stops entry (by simp))]
        rfl
    rw [List.nil_append]
    unfold rmfreeFrom
    rw [if_pos here, finish]
    generalize (if last.stop = a then rmfreeJoin size a last stop
      else (rmfreeAt room size a stop).map fun (list, effect) => (last :: list, effect)) = found
    cases found with
    | none => rfl
    | some found =>
      cases before with
      | none => rfl
      | some before => rfl
  | cons entry left ih =>
    have here := passed entry (by simp)
    rw [cons_append]
    unfold rmfreeFrom
    rw [if_pos here, ih (some entry) fun other member => passed other (by
      simp only [mem_append, mem_cons] at member ⊢
      tauto)]
    generalize (if last.stop = a then rmfreeJoin size a last stop
      else (rmfreeAt room size a stop).map fun (list, effect) => (last :: list, effect)) = found
    cases found with
    | none => rfl
    | some found =>
      cases before with
      | none => rfl
      | some before => rfl

/-- The entries in order, cut at the freed range. -/
theorem cut_live (separated : Separated Entry.mAddr Entry.stop live) (a : Nat) :
    ∃ left right, live = left ++ right ∧ (∀ entry ∈ left, entry.mAddr ≤ a) ∧ ∀ entry ∈ right, a < entry.mAddr := by
  induction live with
  | nil => exact ⟨[], [], rfl, by simp, by simp⟩
  | cons entry live ih =>
    obtain ⟨first, rest⟩ := pairwise_cons.mp separated
    by_cases here : entry.mAddr ≤ a
    · obtain ⟨left, right, rfl, before, behind⟩ := ih rest
      refine ⟨entry :: left, right, rfl, ?_, behind⟩
      intro other member
      rcases mem_cons.mp member with rfl | member
      · exact here
      · exact before other member
    · refine ⟨[], entry :: live, rfl, by simp, ?_⟩
      intro other member
      rcases mem_cons.mp member with rfl | member
      · omega
      · have gap := first other member
        simp only [Entry.stop] at gap
        omega

/-- The table after an effect. -/
theorem rmfree_table {merged : List Entry} {zeros : Nat} {effect : Effect} (table : Table map (left ++ right))
    (positive : 0 < size) (result : rmfreeFrom (map.mapsize ≠ 0) size a none map.entries =
      some (left ++ merged ++ replicate zeros ⟨0, 0⟩, effect))
    (counts : effect.counts (map.mapsize ≠ 0) right.length (map.mapsize + 1) merged.length zeros) {bound : Nat}
    (before : ∀ entry ∈ left, entry.stop < bound) (done : Merged bound size a right merged) :
    ¬ map.overflows size a ∧ ∃ map' woken, rmfree map size a = some (map', woken) ∧ Table map' (left ++ merged) ∧
      map'.mapsize + (left ++ merged).length = map.mapsize + (left ++ right).length ∧
      ∀ unit, Free (left ++ merged) unit ↔ Free (left ++ right) unit ∨ (a ≤ unit ∧ unit < a + size) := by
  have units (unit : Nat) : Free (left ++ merged) unit ↔ Free (left ++ right) unit ∨ (a ≤ unit ∧ unit < a + size) := by
    have joined := done.units unit
    simp only [covers_append, joined, or_assoc]
  have filled : (∀ entry ∈ left ++ merged, 0 < entry.mSize ∧ 0 < entry.mAddr) := by
    intro entry member
    rcases mem_append.mp member with member | member
    · exact table.positive entry (by simp [member])
    · exact done.positive entry member
  have separated : Separated Entry.mAddr Entry.stop (left ++ merged) := by
    refine pairwise_append.mpr ⟨(pairwise_append.mp table.separated).1, done.separated, ?_⟩
    intro entry member other place
    exact Nat.lt_of_lt_of_le (before entry member) (done.above other place)
  have report : ¬ map.overflows size a := by
    rintro ⟨_, lost⟩
    rw [result] at lost
    obtain rfl : effect = .lost := Option.some.inj lost
    exact counts
  refine ⟨report, ?_⟩
  unfold rmfree
  rw [if_neg (by omega), result]
  cases effect with
  | same =>
    obtain ⟨length, rfl⟩ := counts
    exact ⟨_, _, rfl, ⟨rfl, filled, separated⟩, by simp [length], units⟩
  | fewer =>
    obtain ⟨length, rfl⟩ := counts
    exact ⟨_, _, rfl, ⟨rfl, filled, separated⟩, by simp only [List.length_append]; omega, units⟩
  | more =>
    obtain ⟨length, behind, room⟩ := counts
    have room : map.mapsize ≠ 0 := by simpa using room
    refine ⟨_, _, rfl, ⟨?_, filled, separated⟩, ?_, units⟩
    · have rounds : zeros = map.mapsize - 1 + 1 := by omega
      simp only [rounds]
    · simp only [List.length_append]
      omega
  | lost => exact counts.elim

/-- `rmfree` puts the range among the free units, or loses it when there is no room
for another entry. -/
theorem rmfree_units (table : Table map live) (positive : 0 < size) (place : 0 < a)
    (apart : ∀ unit, a ≤ unit → unit < a + size → ¬ Free live unit) :
    (map.overflows size a ∧ rmfree map size a = some (map, false)) ∨
    ¬ map.overflows size a ∧ ∃ map' woken live', rmfree map size a = some (map', woken) ∧ Table map' live' ∧
      map'.mapsize + live'.length = map.mapsize + live.length ∧
      ∀ unit, Free live' unit ↔ Free live unit ∨ (a ≤ unit ∧ unit < a + size) := by
  obtain ⟨left, right, rfl, before, behind⟩ := cut_live table.separated a
  obtain ⟨_, separated, across⟩ := pairwise_append.mp table.separated
  have inRight : ∀ entry ∈ right, 0 < entry.mSize ∧ 0 < entry.mAddr := fun entry member =>
    table.positive entry (by simp [member])
  have ends (entry : Entry) (member : entry ∈ left) : entry.stop ≤ a := by
    by_contra beyond
    exact apart a (Nat.le_refl a) (by omega) ⟨entry, by simp [member], before entry member, by omega⟩
  have ahead (entry : Entry) (member : entry ∈ right) : a + size ≤ entry.mAddr := by
    by_contra beyond
    have far := behind entry member
    have size := inRight entry member
    exact apart entry.mAddr (by omega) (by omega) ⟨entry, by simp [member], le_rfl, by
      simp only [Entry.stop]
      omega⟩
  have stops (entry : Entry) (first : entry ∈ (right ++ replicate (map.mapsize + 1) (⟨0, 0⟩ : Entry)).head?) :
      ¬ (entry.mAddr ≤ a ∧ entry.mSize ≠ 0) := by
    cases right with
    | nil =>
      obtain rfl : entry = ⟨0, 0⟩ := by simpa [List.replicate_succ, eq_comm] using first
      simp
    | cons next rest =>
      obtain rfl : next = entry := by simpa using first
      have far := behind next (by simp)
      omega
  have full {result : List Entry} (lost : rmfreeFrom (map.mapsize ≠ 0) size a none map.entries = some (result, .lost)) :
      map.overflows size a ∧ rmfree map size a = some (map, false) := by
    refine ⟨⟨by omega, by rw [lost]; rfl⟩, ?_⟩
    unfold rmfree
    rw [if_neg (by omega), lost]
    rfl
  have entries := table.entries
  cases left using List.reverseRecOn with
  | nil =>
    have start : rmfreeFrom (map.mapsize ≠ 0) size a none map.entries =
        rmfreeAt (map.mapsize ≠ 0) size a (right ++ replicate (map.mapsize + 1) ⟨0, 0⟩) := by
      rw [entries, List.nil_append]
      cases shape : right ++ replicate (map.mapsize + 1) (⟨0, 0⟩ : Entry) with
      | nil => rfl
      | cons entry rest =>
        rw [rmfreeFrom, if_neg (stops entry (by rw [shape]; rfl))]
    rcases rmfreeAt_units (n := map.mapsize) inRight separated ahead positive place with
      ⟨_, lost⟩ | ⟨merged, zeros, effect, result, done, counts⟩
    · exact .inl (full (start.trans lost))
    · obtain ⟨report, map', woken, freed⟩ := rmfree_table table positive (start.trans result) counts (by simp) done
      exact .inr ⟨report, map', woken, _, freed⟩
  | append_singleton init last _ =>
    have passed : ∀ entry ∈ init ++ [last], entry.mAddr ≤ a ∧ entry.mSize ≠ 0 := by
      intro entry member
      have filled := table.positive entry (List.mem_append_left _ member)
      exact ⟨before entry member, by omega⟩
    have start : rmfreeFrom (map.mapsize ≠ 0) size a none map.entries = _ :=
      (congrArg _ (entries.trans (by simp))).trans
        (rmfreeFrom_left none passed stops)
    have inner : ∀ entry ∈ init, entry.stop < last.mAddr := by
      intro entry member
      obtain ⟨first, _, _⟩ := pairwise_append.mp table.separated
      exact (pairwise_append.mp first).2.2 entry member last (by simp)
    by_cases touch : last.stop = a
    · obtain ⟨merged, zeros, effect, result, done, counts⟩ := rmfreeJoin_units
        (n := map.mapsize) (fun entry member => table.positive entry (by simpa using Or.inr member))
        (by
          have joined := table.separated
          rw [List.append_assoc] at joined
          exact (pairwise_append.mp joined).2.1) ahead touch positive
      rw [if_pos touch, result] at start
      have table' : Table map (init ++ last :: right) := by
        have same : init ++ [last] ++ right = init ++ last :: right := by simp
        exact same ▸ table
      obtain ⟨report, map', woken, freed⟩ := rmfree_table table' positive (start.trans (by simp)) counts inner done
      rw [List.append_cons] at freed
      exact .inr ⟨report, map', woken, _, freed⟩
    · rw [if_neg touch] at start
      have clear (entry : Entry) (member : entry ∈ init ++ [last]) : entry.stop < a := by
        rcases mem_append.mp member with member | member
        · have gap := inner entry member
          have low := before last (by simp)
          omega
        · obtain rfl := List.mem_singleton.mp member
          have low := ends entry (by simp)
          omega
      rcases rmfreeAt_units (n := map.mapsize) inRight separated ahead positive place with
        ⟨_, lost⟩ | ⟨merged, zeros, effect, result, done, counts⟩
      · rw [lost] at start
        exact .inl (full start)
      · rw [result] at start
        obtain ⟨report, map', woken, freed⟩ := rmfree_table table positive (start.trans (by simp)) counts clear done
        exact .inr ⟨report, map', woken, _, freed⟩

end

end Svr4.Rmap
