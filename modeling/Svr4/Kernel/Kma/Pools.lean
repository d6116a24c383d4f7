import Svr4.Kernel.Kma

/-! What a failed allocation of a pool gives back. -/

namespace Svr4.Kma

/-- The pages of one call. -/
def pages (sp size : Nat) : Multiset Nat := (Multiset.range size).map (sp + ·)

/-- The pages that calls of `sptalloc` gave. -/
def pagesObtained (calls : List Spt) : Multiset Nat :=
  (calls.map fun
    | .alloc sp size => pages sp size
    | .free _ _ => 0).sum

/-- The pages that calls of `sptfree` released. -/
def pagesReleased (calls : List Spt) : Multiset Nat :=
  (calls.map fun
    | .alloc _ _ => 0
    | .free sp size => pages sp size).sum

/-- The accounts of pages are as before: what a call obtained it has released, and the
counts have their values from before it. -/
def Restored (k k' : Kmem) : Prop :=
  k'.availrmem = k.availrmem ∧ k'.availsmem = k.availsmem ∧ k'.pagesPpKernel = k.pagesPpKernel ∧
    ∃ calls, k'.calls = calls ++ k.calls ∧ pagesReleased calls = pagesObtained calls

/-- The counts and the calls are the same. -/
def Untouched (k k' : Kmem) : Prop :=
  k'.availrmem = k.availrmem ∧ k'.availsmem = k.availsmem ∧ k'.pagesPpKernel = k.pagesPpKernel ∧ k'.calls = k.calls

/-- `kmem_allocbpool` obtains the pages at `sp` and `kmem_alloc` has no memory for the
headers. -/
def HeadersFail (sptalloc : Sptalloc) (noSleep : Bool) (k : Kmem) (sp : Nat) : Prop :=
  k.bgAllocOn = false ∧ ¬ k.Tight bigclicks ∧ sptalloc k.calls bigclicks noSleep = some sp ∧
    (smallAlloc sptalloc noSleep headers ({ k.take bigclicks with bgAllocOn := true }.obtained sp bigclicks)).1 = .null

section
variable {sptalloc : Sptalloc} {noSleep : Bool} {k k' : Kmem} {size sp start other : Nat}

theorem Untouched.restored (same : Untouched k k') : Restored k k' := by
  obtain ⟨rmem, smem, kernel, calls⟩ := same
  exact ⟨rmem, smem, kernel, [], calls, rfl⟩

theorem pages_inj (some' : 0 < size) (same : pages start size = pages other size) : start = other := by
  have first (a : Nat) : a ∈ pages a size :=
    Multiset.mem_map.mpr ⟨0, Multiset.mem_range.mpr some', Nat.add_zero a⟩
  obtain ⟨i, _, here⟩ := Multiset.mem_map.mp (same ▸ first start : start ∈ pages other size)
  obtain ⟨j, _, there⟩ := Multiset.mem_map.mp (same.symm ▸ first other : other ∈ pages start size)
  omega

theorem give_take (k : Kmem) (clicks : Nat) : (k.take clicks).give clicks = k := by
  simp [Kmem.give, Kmem.take]

theorem allocspool_untouched (failed : (kmemAllocspool sptalloc noSleep k).1 ≠ .success) :
    Untouched k (kmemAllocspool sptalloc noSleep k).2 := by
  unfold kmemAllocspool at failed ⊢
  split at failed
  · next on =>
    rw [if_pos on]
    exact ⟨rfl, rfl, rfl, rfl⟩
  · next off =>
    rw [if_neg off]
    split at failed
    · next tight =>
      rw [if_pos tight]
      exact ⟨rfl, rfl, rfl, rfl⟩
    · next loose =>
      rw [if_neg loose]
      simp only at failed ⊢
      cases answer : sptalloc (k.take smallclicks).calls smallclicks noSleep with
      | none =>
        simp only
        rw [give_take]
        exact ⟨rfl, rfl, rfl, rfl⟩
      | some sp =>
        rw [answer] at failed
        exact absurd rfl failed

theorem smallAlloc_untouched (failed : (smallAlloc sptalloc noSleep size k).1 = .null) :
    Untouched k (smallAlloc sptalloc noSleep size k).2 := by
  unfold smallAlloc fromPool at failed ⊢
  simp only at failed ⊢
  split at failed
  · cases failed
  · have untouched := @allocspool_untouched sptalloc noSleep k
    split at failed
    · split at failed
      · cases failed
      · cases failed
    · cases failed
    · next again =>
      rw [again] at untouched
      cases noSleep with
      | true => exact untouched Pool.noConfusion
      | false => cases failed
    · next again =>
      rw [again] at untouched
      cases noSleep with
      | true => exact untouched Pool.noConfusion
      | false => cases failed

theorem smallAlloc_dry (empty : ∀ list, k.freeLists list = []) (tight : k.Tight smallclicks) :
    (smallAlloc sptalloc true size k).1 = .null := by
  have none (i : Nat) : (List.range' i (smaxoffset + 1 - i)).findSome? (unlinkhead k i) = none :=
    List.findSome?_eq_none_iff.mpr fun list _ => by simp [unlinkhead, empty list]
  unfold smallAlloc fromPool
  simp only
  rw [none, kmemAllocspool]
  by_cases on : k.smAllocOn = true
  · rw [if_pos on]
    rfl
  · rw [if_neg on, if_pos tight]
    rfl

theorem setUp_null (null : (smallAlloc sptalloc noSleep headers k).1 = .null) :
    (setUp sptalloc noSleep sp k).1 = .failure ∧
    (setUp sptalloc noSleep sp k).2.availrmem = k.availrmem + BitVec.ofNat 32 bigclicks ∧
    (setUp sptalloc noSleep sp k).2.availsmem = k.availsmem + BitVec.ofNat 32 bigclicks ∧
    (setUp sptalloc noSleep sp k).2.pagesPpKernel = k.pagesPpKernel ∧
    (setUp sptalloc noSleep sp k).2.calls = .free (btoc (alignUp maxabig (ctob sp))) bigclicks :: k.calls := by
  obtain ⟨rmem, smem, kernel, calls⟩ := smallAlloc_untouched null
  unfold setUp
  generalize smallAlloc sptalloc noSleep headers k = result at null rmem smem kernel calls
  obtain ⟨_, k'⟩ := result
  cases null
  exact ⟨rfl, congrArg (· + _) rmem, congrArg (· + _) smem, kernel, congrArg (_ :: ·) calls⟩

theorem allocbpool_headers (fails : HeadersFail sptalloc noSleep k sp) :
    (kmemAllocbpool sptalloc noSleep k).1 = .failure ∧
    (kmemAllocbpool sptalloc noSleep k).2.availrmem = k.availrmem ∧
    (kmemAllocbpool sptalloc noSleep k).2.availsmem = k.availsmem ∧
    (kmemAllocbpool sptalloc noSleep k).2.pagesPpKernel = k.pagesPpKernel ∧
    (kmemAllocbpool sptalloc noSleep k).2.calls =
      [.free (btoc (alignUp maxabig (ctob sp))) bigclicks, .alloc sp bigclicks] ++ k.calls := by
  obtain ⟨off, loose, answer, null⟩ := fails
  obtain ⟨failure, rmem, smem, kernel, calls⟩ := @setUp_null _ _ _ sp null
  have same : kmemAllocbpool sptalloc noSleep k =
      setUp sptalloc noSleep sp ({ k.take bigclicks with bgAllocOn := true }.obtained sp bigclicks) := by
    unfold kmemAllocbpool
    rw [if_neg (by rw [off]; decide), if_neg loose]
    simp only
    rw [show (k.take bigclicks).calls = k.calls from rfl, answer]
  rw [same]
  exact ⟨failure, rmem.trans (BitVec.sub_add_cancel ..), smem.trans (BitVec.sub_add_cancel ..), kernel, calls⟩

theorem aligned_iff (fits : sp < 2097152) : btoc (alignUp maxabig (ctob sp)) = sp ↔ maxabig ∣ ctob sp := by
  unfold btoc alignUp ctob maxabig nbpc word
  omega

/-- A pool allocation that fails, a big one for its headers or a small one, restores the
accounts of pages if and only if the big pool's pages began at a multiple of `MAXABIG`. -/
theorem pools_restored_iff (fits : sp < 2097152) (fails : HeadersFail sptalloc noSleep k sp) :
    (Restored k (kmemAllocbpool sptalloc noSleep k).2 ∧
      ∀ k', (kmemAllocspool sptalloc noSleep k').1 = .failure → Restored k' (kmemAllocspool sptalloc noSleep k').2) ↔
    maxabig ∣ ctob sp := by
  obtain ⟨_, rmem, smem, kernel, calls⟩ := allocbpool_headers fails
  rw [← aligned_iff fits]
  constructor
  · rintro ⟨⟨_, _, _, own, before, same⟩, _⟩
    rw [calls] at before
    rw [← List.append_cancel_right before] at same
    exact pages_inj (show 0 < bigclicks by decide)
      (by simpa [pagesReleased, pagesObtained] using same)
  · intro aligned
    refine ⟨⟨rmem, smem, kernel, _, calls, ?_⟩, fun k' failed => (allocspool_untouched (by simp [failed])).restored⟩
    simp [pagesReleased, pagesObtained, aligned]

/-- No buffers, and pages for one big pool only. -/
def Kmem.dry : Kmem where
  availrmem := 33
  availsmem := 33
  pagesPpKernel := 0
  tune := ⟨25, 25⟩
  freeLists _ := []
  smAllocOn := false
  bgAllocOn := false
  kmMem _ := 0
  kmAlloc _ := 0
  kmFail _ := 0
  calls := []

theorem dry_headers (sp : Nat) : HeadersFail (fun _ _ _ => some sp) true .dry sp :=
  have tight : (33 : BitVec 32) - BitVec.ofNat 32 bigclicks - BitVec.ofNat 32 smallclicks < 25 := by decide
  ⟨rfl, by decide, rfl, smallAlloc_dry (fun _ => rfl) (.inl tight)⟩

theorem pools_restored_iff_two : Restored .dry (kmemAllocbpool (fun _ _ _ => some 2) true .dry).2 :=
  ((pools_restored_iff (by decide) (dry_headers 2)).mpr (by decide)).1

/-- Pages at an odd page number: one that was not obtained is released, and the first one is
not. -/
theorem misaligned_not_restored : ¬ Restored .dry (kmemAllocbpool (fun _ _ _ => some 1) true .dry).2 := by
  rintro ⟨_, _, _, own, calls, same⟩
  obtain ⟨_, _, _, _, made⟩ := allocbpool_headers (dry_headers 1)
  rw [made] at calls
  rw [← List.append_cancel_right calls] at same
  revert same
  decide

end

end Svr4.Kma
