import Svr4.Kernel.AddressSpace.Operations

/-! Address spaces over whole runs: made, mapped into, unmapped from, copied, searched and
locked, with any answers of the segment drivers. -/

namespace Svr4.As

/-- The spaces of a run. A step whose driver panics has no result and ends the run. -/
inductive Reached : Space → Prop where
  | alloc : Reached asAlloc
  | map {s t : Space} {limit : Nat} {created : Created} {lock error : Option Errno} {ok : Nat → Bool} {addr size : Nat} :
      Reached s → asMap s limit created lock ok addr size = some (error, t) → Reached t
  | unmap {s t : Space} {ok : Nat → Bool} {addr size : Nat} {result : Bool} :
      Reached s → asUnmap s ok addr size = some (result, t) → Reached t
  | dup {s t : Space} {ok : Nat → Bool} {hat : Bool} : Reached s → asDup s ok hat = some (some t) → Reached t
  | segat {s t : Space} {addr : Nat} {found : Option Nat} : Reached s → asSegat s addr = some (found, t) → Reached t
  | ctl {s : Space} (paglck : Bool) : Reached s → Reached { s with paglck := paglck }

theorem Reached.counted {s : Space} (reached : Reached s) : ∃ list, Counted s list := by
  induction reached with
  | alloc => exact ⟨[], asAlloc_counted⟩
  | map _ step ih =>
    obtain ⟨list, counted⟩ := ih
    obtain ⟨error, t, after, result, counted'⟩ := counted.asMap _ _ _ _ _ _
    cases step.symm.trans result
    exact ⟨after, counted'⟩
  | unmap _ step ih =>
    obtain ⟨list, counted⟩ := ih
    obtain ⟨after, unmapped⟩ := counted.asUnmap step
    exact ⟨after, unmapped.listed, unmapped.size⟩
  | dup _ step ih =>
    obtain ⟨list, counted⟩ := ih
    rcases counted.asDup _ _ with result | ⟨t, after, result, copied⟩
    · cases step.symm.trans result
    · cases step.symm.trans result
      exact ⟨after, copied.counted⟩
  | segat _ step ih =>
    obtain ⟨list, counted⟩ := ih
    obtain ⟨found, t, result, counted', -⟩ := counted.asSegat _
    cases step.symm.trans result
    exact ⟨list, counted'⟩
  | ctl paglck _ ih =>
    obtain ⟨list, listed, size⟩ := ih
    exact ⟨list, ⟨listed.circle, listed.segs, listed.seglast, listed.sorted, listed.valid, listed.fresh⟩, size⟩

/-- In every run the segments are a sorted circle with its first segment, its hint and its number of
bytes; an address is found in its segment; an unmapping that succeeds takes its range of pages and
no other page; and the operations come to an end. -/
theorem segments_kept {s : Space} (reached : Reached s) : ∃ list, Counted s list ∧
    (∀ addr, ∃ found t, asSegat s addr = some (found, t) ∧ ∀ p, found = some p ↔ p ∈ list ∧ Within s addr p) ∧
    (∀ ok addr size t, asUnmap s ok addr size = some (true, t) → ∃ after, Counted t after ∧
      ∀ x, Covers t after x ↔ Covers s list x ∧ ¬ (pageBase addr ≤ x ∧ x < pageEnd addr size)) ∧
    (∀ ok addr size, pageBase addr ≤ pageEnd addr size → asUnmap s ok addr size ≠ none) ∧
    (∀ limit created lock ok addr size, asMap s limit created lock ok addr size ≠ none) ∧
    ∀ ok hat, asDup s ok hat ≠ none := by
  obtain ⟨list, counted⟩ := reached.counted
  refine ⟨list, counted, fun addr => ?_, fun ok addr size t success => ?_, fun ok addr size ordered => ?_,
    fun limit created lock ok addr size => ?_, fun ok hat => ?_⟩
  · obtain ⟨found, t, result, -, -, exact'⟩ := counted.asSegat addr
    exact ⟨found, t, result, exact'⟩
  · obtain ⟨after, unmapped⟩ := counted.asUnmap success
    exact ⟨after, ⟨unmapped.listed, unmapped.size⟩, unmapped.covers rfl⟩
  · obtain ⟨result, t, ends⟩ := counted.asUnmap_ends ok ordered
    rw [ends]
    exact Option.some_ne_none _
  · obtain ⟨error, t, after, ends, -⟩ := counted.asMap limit created lock ok addr size
    rw [ends]
    exact Option.some_ne_none _
  · rcases counted.asDup ok hat with ends | ⟨t, after, ends, -⟩
    · rw [ends]
      exact Option.some_ne_none _
    · rw [ends]
      exact Option.some_ne_none _

theorem three_mapped : ∃ s, asMap asAlloc 4294967295 .stays none (fun _ => true) 0x80000000 6144 = some (none, s) := by
  obtain ⟨error, s, -, step, -⟩ := asAlloc_counted.asMap 4294967295 .stays none (fun _ => true) 0x80000000 6144
  have success : (asMap asAlloc 4294967295 .stays none (fun _ => true) 0x80000000 6144).map Prod.fst = some none := by
    decide +kernel
  rw [step] at success
  cases success
  exact ⟨s, step⟩

/-- Three pages are mapped, and any unmapping from them is exact. -/
theorem segments_kept_three : ∃ s, asMap asAlloc 4294967295 .stays none (fun _ => true) 0x80000000 6144 = some (none, s) ∧
    ∃ list, Counted s list ∧
      ∀ ok addr size t, asUnmap s ok addr size = some (true, t) → ∃ after, Counted t after ∧
        ∀ x, Covers t after x ↔ Covers s list x ∧ ¬ (pageBase addr ≤ x ∧ x < pageEnd addr size) := by
  obtain ⟨s, step⟩ := three_mapped
  obtain ⟨list, counted, -, unmap, -⟩ := segments_kept (.map .alloc step)
  exact ⟨s, step, list, counted, unmap⟩

/-- The middle one of three pages goes; the first and the third stay. -/
example : ((asMap asAlloc 4294967295 .stays none (fun _ => true) 0x80000000 6144).bind fun mapped =>
    (asUnmap mapped.2 (fun _ => true) 0x80000800 2048).bind fun cut => (asSegat cut.2 0x80001000).map fun found =>
      (cut.1, cut.2.size, found.1)) = some (true, 4096, some 1) := by
  decide +kernel

end Svr4.As
