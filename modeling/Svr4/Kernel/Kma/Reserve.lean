import Svr4.Kernel.Kma

/-! The reserve of pages that `kmem_alloc` is to leave. -/

namespace Svr4.Kma

open BitVec (ofNat toNat_sub lt_def)

/-- The counts of available pages are not below their minimums. -/
def Reserve (k : Kmem) : Prop :=
  k.tune.tMinarmem.toInt ≤ k.availrmem.toInt ∧ k.tune.tMinasmem.toInt ≤ k.availsmem.toInt

instance (k : Kmem) : Decidable (Reserve k) :=
  inferInstanceAs (Decidable (_ ∧ _))

section
variable {avail minimum : BitVec 32} {clicks size : Nat} {k : Kmem} {sptalloc : Sptalloc} {noSleep : Bool}

theorem btoc_lt (size : Nat) : btoc size < 2097152 := by
  unfold btoc nbpc word
  omega

theorem toInt_nonneg {value : BitVec 32} (nonneg : 0 ≤ value.toInt) :
    value.toInt = value.toNat ∧ value.toNat < 2147483648 := by
  rw [BitVec.toInt_eq_toNat_cond] at nonneg ⊢
  split at nonneg
  · next low =>
    rw [if_pos low]
    exact ⟨rfl, by omega⟩
  · omega

theorem enough (few : clicks < 2097152) (available : 0 ≤ avail.toInt) (there : clicks ≤ avail.toNat) :
    (avail - ofNat 32 clicks < minimum ↔ avail.toNat - clicks < minimum.toNat) ∧
      (avail - ofNat 32 clicks).toInt = avail.toNat - clicks := by
  obtain ⟨_, small⟩ := toInt_nonneg available
  have clicksNat : (ofNat 32 clicks).toNat = clicks := by
    rw [BitVec.toNat_ofNat]
    omega
  have difference : (avail - ofNat 32 clicks).toNat = avail.toNat - clicks := by
    rw [toNat_sub, clicksNat]
    omega
  refine ⟨by rw [lt_def, difference], ?_⟩
  rw [BitVec.toInt_eq_toNat_of_lt (by omega), difference]
  omega

/-- When they are not there the difference wraps: the test does not see it and the count is
negative. -/
theorem wraps (few : clicks < 2097152) (least : 0 ≤ minimum.toInt) (short : avail.toNat < clicks) :
    ¬ avail - ofNat 32 clicks < minimum ∧ (avail - ofNat 32 clicks).toInt < minimum.toInt := by
  obtain ⟨minimumInt, small⟩ := toInt_nonneg least
  have clicksNat : (ofNat 32 clicks).toNat = clicks := by
    rw [BitVec.toNat_ofNat]
    omega
  have difference : (avail - ofNat 32 clicks).toNat = 4294967296 + avail.toNat - clicks := by
    rw [toNat_sub, clicksNat]
    omega
  constructor
  · rw [lt_def, difference]
    omega
  · rw [BitVec.toInt_eq_toNat_cond, difference, if_neg (by omega)]
    omega

theorem kmemAlloc_osize (large : maxabig < size) :
    kmemAlloc sptalloc noSleep size k = osizeAlloc sptalloc noSleep size k := by
  unfold maxabig at large
  unfold kmemAlloc maxasmall maxabig
  rw [if_neg (by omega), if_neg (by omega), if_neg (by omega)]

theorem osizeAlloc_buf {bufp : Nat} (large : maxabig < size)
    (result : (kmemAlloc sptalloc noSleep size k).1 = .buf bufp) :
    ¬ k.Tight (btoc size) ∧
      (kmemAlloc sptalloc noSleep size k).2.availrmem = k.availrmem - ofNat 32 (btoc size) ∧
      (kmemAlloc sptalloc noSleep size k).2.availsmem = k.availsmem - ofNat 32 (btoc size) ∧
      (kmemAlloc sptalloc noSleep size k).2.tune = k.tune := by
  rw [kmemAlloc_osize large] at result ⊢
  unfold osizeAlloc at result ⊢
  by_cases tight : k.Tight (btoc size)
  · rw [if_pos tight] at result
    cases noSleep <;> cases result
  · rw [if_neg tight] at result ⊢
    simp only at result ⊢
    split at result
    · cases noSleep <;> cases result
    · exact ⟨tight, rfl, rfl, rfl⟩

theorem osizeAlloc_given (large : maxabig < size) (loose : ¬ k.Tight (btoc size)) :
    (kmemAlloc (fun _ _ _ => some 1) noSleep size k).1 = .buf nbpc := by
  rw [kmemAlloc_osize large, osizeAlloc, if_neg loose]
  rfl

/-- A request beyond the big pools leaves the reserve, whatever the page allocator answers,
if and only if the pages it takes are there, or only one of the counts has them and not
enough of them. -/
theorem reserve_iff (large : maxabig < size) (rmem : 0 ≤ k.availrmem.toInt) (smem : 0 ≤ k.availsmem.toInt)
    (minrmem : 0 ≤ k.tune.tMinarmem.toInt) (minsmem : 0 ≤ k.tune.tMinasmem.toInt) :
    (∀ sptalloc noSleep bufp, (kmemAlloc sptalloc noSleep size k).1 = .buf bufp →
      Reserve (kmemAlloc sptalloc noSleep size k).2) ↔
    (btoc size ≤ k.availrmem.toNat ∧ btoc size ≤ k.availsmem.toNat) ∨
    (btoc size ≤ k.availrmem.toNat ∧ k.availrmem.toNat - btoc size < k.tune.tMinarmem.toNat) ∨
    (btoc size ≤ k.availsmem.toNat ∧ k.availsmem.toNat - btoc size < k.tune.tMinasmem.toNat) := by
  have few := btoc_lt size
  have rwhole := toInt_nonneg minrmem
  have swhole := toInt_nonneg minsmem
  constructor
  · intro kept
    by_contra neither
    obtain ⟨notBoth, notR, notS⟩ : ¬ _ ∧ ¬ _ ∧ ¬ _ := by
      rw [not_or, not_or] at neither
      exact neither
    have loose : ¬ k.Tight (btoc size) := by
      rintro (tight | tight)
      · by_cases there : btoc size ≤ k.availrmem.toNat
        · exact notR ⟨there, (enough few rmem there).1.mp tight⟩
        · exact (wraps few minrmem (by omega)).1 tight
      · by_cases there : btoc size ≤ k.availsmem.toNat
        · exact notS ⟨there, (enough few smem there).1.mp tight⟩
        · exact (wraps few minsmem (by omega)).1 tight
    have given := @osizeAlloc_given size k true large loose
    obtain ⟨_, rafter, safter, tune⟩ := osizeAlloc_buf large given
    have reserve := kept _ true _ given
    unfold Reserve at reserve
    rw [rafter, safter, tune] at reserve
    by_cases there : btoc size ≤ k.availrmem.toNat
    · have short : k.availsmem.toNat < btoc size := by
        by_contra more
        exact notBoth ⟨there, by omega⟩
      exact absurd reserve.2 (not_le.mpr (wraps few minsmem short).2)
    · exact absurd reserve.1 (not_le.mpr (wraps few minrmem (by omega)).2)
  · intro condition sptalloc noSleep bufp result
    obtain ⟨loose, rafter, safter, tune⟩ := osizeAlloc_buf large result
    obtain ⟨rloose, sloose⟩ := not_or.mp loose
    rcases condition with ⟨rthere, sthere⟩ | ⟨there, tight⟩ | ⟨there, tight⟩
    · have r := @enough k.availrmem k.tune.tMinarmem (btoc size) few rmem rthere
      have s := @enough k.availsmem k.tune.tMinasmem (btoc size) few smem sthere
      have rleft := mt r.1.mpr rloose
      have sleft := mt s.1.mpr sloose
      unfold Reserve
      rw [rafter, safter, tune, r.2, s.2]
      omega
    · exact absurd ((enough few rmem there).1.mpr tight) rloose
    · exact absurd ((enough few smem there).1.mpr tight) sloose

/-- A system with pages to spare and without buffers. -/
def Kmem.plain (availrmem availsmem : BitVec 32) : Kmem where
  availrmem
  availsmem
  pagesPpKernel := 0
  tune := ⟨25, 25⟩
  freeLists _ := []
  smAllocOn := false
  bgAllocOn := false
  kmMem _ := 0
  kmAlloc _ := 0
  kmFail _ := 0
  calls := []

theorem reserve_iff_plain : Reserve (kmemAlloc (fun _ _ _ => some 1) true 8192 (.plain 100 100)).2 :=
  (reserve_iff (by decide) (by decide) (by decide) (by decide) (by decide)).mpr (Or.inl (by decide)) _ true nbpc
    (osizeAlloc_given (by decide) (by decide))

/-- Four pages are taken from three. -/
theorem reserve_overdrawn :
    (kmemAlloc (fun _ _ _ => some 1) true 8192 (.plain 100 3)).1 = .buf nbpc ∧
    (kmemAlloc (fun _ _ _ => some 1) true 8192 (.plain 100 3)).2.availsmem.toInt = -1 ∧
    ¬ Reserve (kmemAlloc (fun _ _ _ => some 1) true 8192 (.plain 100 3)).2 := by
  decide

end

end Svr4.Kma
