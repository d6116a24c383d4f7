import Svr4.Kernel.Streams.BlockLife

/-! How many duplicates of a message block the reference count of its data block can tell. -/

namespace Svr4.StreamBlocks

/-- The data block is in use, and so is its buffer. -/
structure Held (s : Blocks) (d : Nat) : Prop where
  valid : (s.dblk d).dbIswhat ≠ .notD
  listed : d ∉ s.mdbfreelist
  buffer : ∀ n, (s.dblk d).dbBase.serial = some n → n ∉ s.released

/-- Calls of `dupb` on a block that all succeed, with the blocks they give. -/
inductive Duplicated (bp : Nat) (s : Blocks) : List Nat → Blocks → Prop where
  | none : Duplicated bp s [] s
  | next {dups : List Nat} {t u : Blocks} {answer : Bool} {nbp : Nat} : Duplicated bp s dups t →
      Blocks.dupb answer bp t = (some nbp, u) → Duplicated bp s (nbp :: dups) u

/-- Blocks are freed one after the other. -/
def Blocks.freeAll (s : Blocks) (frees : List Nat) : Blocks := frees.foldl (fun s bp => Blocks.freeb bp s) s

section
variable {s t : Blocks} {bp nbp d k n : Nat} {answer : Bool} {dups frees : List Nat}

theorem Sound.held (sound : Sound s) (member : bp ∈ s.live) : Held s (s.datap bp) := by
  have counted := sound.counted
  have used : 0 < refs s.datap s.live (s.datap bp) := refs_pos.mpr ⟨bp, member, rfl⟩
  refine ⟨fun dead => ?_, fun free => ?_, fun n serial gone => ?_⟩
  · have none := (counted.datablk (counted.data member) (Option.some_ne_none _) (.inr used)).mp dead
    omega
  · have none := (counted.mdbFree.mp free).2.2.2
    omega
  · exact (sound.buffered.gone.mp gone).2.2 _ used serial

/-! ## Duplicates -/

theorem dupb_some (sound : Sound s) (call : Blocks.dupb answer bp s = (some nbp, t)) :
    nbp ∉ s.live ∧ t.live = insert nbp s.live ∧ t.datap nbp = s.datap bp ∧ ∀ h ∈ s.live, t.datap h = s.datap h := by
  rw [Blocks.dupb] at call
  split at call
  · cases call
  · next got =>
    have pooled := sound.counted.takePool got
    obtain ⟨same, rfl⟩ := Prod.mk.inj call
    obtain rfl := Option.some.inj same
    refine ⟨pooled.unused, congrArg (insert _) pooled.live, ?_, fun h member => ?_⟩
    · simp [Blocks.datap, Blocks.hold, pooled.mblk]
    · have other : h ≠ _ := ne_of_mem_of_not_mem member pooled.unused
      simp [Blocks.datap, Blocks.hold, pooled.mblk, other]

/-- What duplicates do to a data block with `r` references: there are `n` more. -/
structure Shared (s : Blocks) (bp r : Nat) (dups : List Nat) (t : Blocks) : Prop where
  sound : Sound t
  live : bp ∈ t.live
  target : t.datap bp = s.datap bp
  same : ∀ h ∈ dups, t.datap h = s.datap bp
  count : refs t.datap t.live (s.datap bp) = r + dups.length

theorem Duplicated.shared (sound : Sound s) (member : bp ∈ s.live) (duplicated : Duplicated bp s dups t) :
    Shared s bp (refs s.datap s.live (s.datap bp)) dups t ∧ ∀ h ∈ dups, h ∈ t.live := by
  induction duplicated with
  | none => exact ⟨⟨sound, member, rfl, fun h none => absurd none List.not_mem_nil, rfl⟩, fun h none => absurd none List.not_mem_nil⟩
  | next _ call ih =>
    obtain ⟨shared, old⟩ := ih
    obtain ⟨unused, live, target, datap⟩ := dupb_some shared.sound call
    have made := dupb_made shared.sound shared.live call
    refine ⟨⟨made.sound, ?_, ?_, fun h dup => ?_, ?_⟩, fun h dup => ?_⟩
    · rw [live]
      exact Finset.mem_insert_of_mem shared.live
    · rw [datap bp shared.live, shared.target]
    · rcases List.mem_cons.mp dup with rfl | dup
      · rw [target, shared.target]
      · rw [datap h (old h dup), shared.same h dup]
    · rw [live, refs_insert unused, refs_congr datap, shared.count, target, if_pos shared.target]
      rfl
    · rw [live]
      rcases List.mem_cons.mp dup with rfl | dup
      · exact Finset.mem_insert_self ..
      · exact Finset.mem_insert_of_mem (old h dup)

/-! ## Frees -/

theorem freeb_datap (s : Blocks) (bp : Nat) : (Blocks.freeb bp s).datap = s.datap := by
  funext h
  rw [Blocks.datap, (freeb_frame s bp).1, Blocks.datap]

theorem freeb_ref (s : Blocks) (bp : Nat) :
    ((Blocks.freeb bp s).dblk (s.datap bp)).dbRef = ((s.dblk (s.datap bp)).dbRef + 255) % 256 := by
  rw [freeb_dblk]
  exact if_pos rfl

theorem Held.freeb (held : Held s (s.datap bp)) (more : ¬ s.ultimate bp) : Held (Blocks.freeb bp s) (s.datap bp) := by
  obtain ⟨valid, listed, buffer⟩ := held
  refine ⟨?_, ?_, fun n serial => ?_⟩
  · rw [freeb_iswhat, if_neg fun all => more all.2.1, Blocks.marked]
    split
    · exact Status.noConfusion
    · exact valid
  · rw [freeb_mdbfreelist, if_neg fun both => more both.1, List.nil_append]
    split
    · next both =>
      refine fun member => (List.mem_append.mp member).elim (fun own => ?_) listed
      rw [List.mem_singleton.mp own] at valid
      exact valid both.2
    · exact listed
  · rw [Blocks.released, freeb_log, if_neg more]
    refine buffer n ?_
    rw [freeb_dblk] at serial
    exact serial

theorem ultimate_not_held (last : s.ultimate bp) : ¬ Held (Blocks.freeb bp s) (s.datap bp) := by
  rintro ⟨valid, listed, _⟩
  rw [freeb_iswhat] at valid
  rw [freeb_mdbfreelist] at listed
  by_cases header : s.marked bp (s.datap bp) = .notM
  · rw [if_pos ⟨last, header⟩] at listed
    exact listed (List.mem_append_left _ (List.mem_singleton_self _))
  · exact valid (if_pos ⟨rfl, last, header⟩)

/-- Frees do not bring a data block back. -/
theorem freeb_not_held (gone : ¬ Held s d) : ¬ Held (Blocks.freeb bp s) d := by
  rintro ⟨valid, listed, buffer⟩
  refine gone ⟨fun dead => ?_, fun free => ?_, fun n serial released => ?_⟩
  · rw [freeb_iswhat] at valid
    split at valid
    · exact valid rfl
    · rw [Blocks.marked] at valid
      split at valid
      · next marks =>
        rw [marks.1] at dead
        exact marks.2.2 dead
      · exact valid dead
  · rw [freeb_mdbfreelist] at listed
    exact listed (List.mem_append_right _ (List.mem_append_right _ free))
  · refine buffer n (by rw [freeb_dblk]; exact serial) ?_
    rw [Blocks.released, freeb_log]
    split
    · rw [List.filterMap_append]
      exact List.mem_append_right _ released
    · exact released

/-- The count after `k` frees. -/
theorem freeAll_ref (same : ∀ h ∈ frees, s.datap h = d) :
    ((s.freeAll frees).dblk d).dbRef % 256 = ((s.dblk d).dbRef + 255 * frees.length) % 256 ∧ (s.freeAll frees).datap = s.datap := by
  induction frees using List.reverseRecOn with
  | nil => exact ⟨rfl, rfl⟩
  | append_singleton frees last ih =>
    obtain ⟨ref, datap⟩ := ih fun h member => same h (List.mem_append_left _ member)
    have target : (s.freeAll frees).datap last = d := by
      rw [datap]
      exact same last (List.mem_append_right _ (List.mem_singleton_self _))
    have next : s.freeAll (frees ++ [last]) = Blocks.freeb last (s.freeAll frees) := by simp [Blocks.freeAll]
    have less := freeb_ref (s.freeAll frees) last
    rw [target] at less
    rw [next, less, freeb_datap, List.length_append, List.length_singleton]
    exact ⟨by omega, datap⟩

theorem freeAll_held_iff (held : Held s d) (same : ∀ h ∈ frees, s.datap h = d) :
    Held (s.freeAll frees) d ↔ ∀ j < frees.length, ((s.dblk d).dbRef + 255 * (j + 1)) % 256 ≠ 0 := by
  induction frees using List.reverseRecOn with
  | nil => exact ⟨fun _ j none => absurd none (Nat.not_lt_zero j), fun _ => held⟩
  | append_singleton frees last ih =>
    have before (h : Nat) (member : h ∈ frees) : s.datap h = d := same h (List.mem_append_left _ member)
    obtain ⟨ref, datap⟩ := freeAll_ref before
    have target : (s.freeAll frees).datap last = d := by
      rw [datap]
      exact same last (List.mem_append_right _ (List.mem_singleton_self _))
    have next : s.freeAll (frees ++ [last]) = Blocks.freeb last (s.freeAll frees) := by simp [Blocks.freeAll]
    have ultimate : (s.freeAll frees).ultimate last ↔ ((s.dblk d).dbRef + 255 * (frees.length + 1)) % 256 = 0 := by
      change (((s.freeAll frees).dblk ((s.freeAll frees).datap last)).dbRef + 255) % 256 = 0 ↔ _
      rw [target]
      omega
    rw [next, List.length_append, List.length_singleton]
    constructor
    · intro kept j inside
      rcases Nat.lt_succ_iff_lt_or_eq.mp inside with earlier | rfl
      · refine (ih before).mp ?_ j earlier
        by_contra gone
        exact freeb_not_held gone kept
      · intro zero
        exact ultimate_not_held (ultimate.mpr zero) (target.symm ▸ kept)
    · intro never
      have kept := (ih before).mpr fun j inside => never j (Nat.lt_succ_of_lt inside)
      have more : ¬ (s.freeAll frees).ultimate last := fun last =>
        never _ (Nat.lt_succ_self _) (ultimate.mp last)
      rw [← target] at kept ⊢
      exact kept.freeb more

theorem passes_iff {count : Nat} (more : k < count) :
    (∀ j < k, (count % 256 + 255 * (j + 1)) % 256 ≠ 0) ↔ (count - 1) / 256 = (count - 1 - k) / 256 := by
  constructor
  · intro never
    by_contra differ
    refine never (count - 1 - (count - 1) / 256 * 256) ?_ ?_
    · omega
    · omega
  · intro same j inside zero
    omega

theorem duplicates_held (sound : Sound s) (member : bp ∈ s.live) (duplicated : Duplicated bp s dups t)
    (some' : ∀ h ∈ frees, h ∈ bp :: dups) (few : frees.length ≤ dups.length) :
    Held (t.freeAll frees) (s.datap bp) ↔
      (refs s.datap s.live (s.datap bp) + dups.length - 1) / 256 =
        (refs s.datap s.live (s.datap bp) + dups.length - 1 - frees.length) / 256 := by
  obtain ⟨⟨sound', live, target, same, count⟩, _⟩ := duplicated.shared sound member
  have used : 0 < refs s.datap s.live (s.datap bp) := refs_pos.mpr ⟨bp, member, rfl⟩
  have held := sound'.held live
  have ref := sound'.counted.count live
  rw [target] at held ref
  have all (h : Nat) (freed : h ∈ frees) : t.datap h = s.datap bp := by
    rcases List.mem_cons.mp (some' h freed) with rfl | dup
    · exact target
    · exact same h dup
  rw [freeAll_held_iff held all, ref, count, passes_iff (by omega)]

/-- After `n` duplicates of a block and `k` frees of these and the block, the data block is
still in use if and only if the number of references passes no multiple of 256 on the way. -/
theorem duplicates_held_iff (reached : Reaches Initial Step Full s) (member : bp ∈ s.live)
    (duplicated : Duplicated bp s dups t) (some' : ∀ h ∈ frees, h ∈ bp :: dups)
    (few : frees.length ≤ dups.length) :
    Held (t.freeAll frees) (s.datap bp) ↔
      (refs s.datap s.live (s.datap bp) + dups.length - 1) / 256 =
        (refs s.datap s.live (s.datap bp) + dups.length - 1 - frees.length) / 256 :=
  duplicates_held (blocks_sane reached).1.toSound member duplicated some' few

theorem duplicated_many (bp : Nat) (s : Blocks) (n : Nat) : ∃ dups t, Duplicated bp s dups t ∧ dups.length = n := by
  induction n with
  | zero => exact ⟨[], s, .none, rfl⟩
  | succ n ih =>
    obtain ⟨dups, t, duplicated, length⟩ := ih
    have given : ∃ nbp u, Blocks.dupb true bp t = (some nbp, u) := by
      rw [Blocks.dupb, Blocks.takeMsgblock]
      cases t.msgfreelist with
      | nil => exact ⟨_, _, rfl⟩
      | cons nbp rest => exact ⟨_, _, rfl⟩
    obtain ⟨nbp, u, call⟩ := given
    exact ⟨nbp :: dups, u, duplicated.next call, by simp [length]⟩

/-- A new block. -/
def single : Blocks := after (.allocb plenty 10) booted

theorem single_reached : Reaches Initial Step Full single :=
  .next (.start booted_initial) (step_after trivial (by simp [booted]) rfl (by decide)) trivial

theorem single_refs : refs single.datap single.live (single.datap 0) = 1 := by decide

theorem duplicates_held_iff_one : ∃ nbp t, Duplicated 0 single [nbp] t ∧ Held (t.freeAll [0]) (single.datap 0) := by
  have duplicated : Duplicated 0 single [1] (Blocks.dupb true 0 single).2 :=
    @Duplicated.next 0 single [] single _ true 1 .none rfl
  refine ⟨1, _, duplicated, ?_⟩
  exact (duplicates_held_iff single_reached (by decide) duplicated
    (fun h member => List.mem_cons.mpr (.inl (List.mem_singleton.mp member))) (by decide)).mpr (by rw [single_refs]; rfl)

/-- With 256 duplicates the first free releases the data block that 256 blocks refer to. -/
theorem duplicates_wrap : ∃ dups t, Duplicated 0 single dups t ∧ dups.length = 256 ∧
    ¬ Held (t.freeAll [0]) (single.datap 0) := by
  obtain ⟨dups, t, duplicated, length⟩ := duplicated_many 0 single 256
  refine ⟨dups, t, duplicated, length, fun held => ?_⟩
  have same := (@duplicates_held _ _ _ _ [0] (blocks_sane single_reached).1.toSound (by decide) duplicated
    (fun h member => List.mem_cons.mpr (.inl (List.mem_singleton.mp member))) (by rw [length]; decide)).mp held
  rw [single_refs, length] at same
  revert same
  decide

end

end Svr4.StreamBlocks
