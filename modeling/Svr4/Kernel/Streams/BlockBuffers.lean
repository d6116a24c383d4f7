import Svr4.Kernel.Streams.BlockCounts

/-! Every separate buffer belongs to one data block in use, or it has been released. -/

namespace Svr4.StreamBlocks

attribute [local simp] Base.serial

def Base.isExternal : Base → Bool
  | .external _ _ => true
  | .own | .kmem _ => false

/-- `kmem_free` is for the buffers of `kmem_alloc`, and free routines for those of others. -/
def Release.Fits : Release → Prop
  | .kmemFree base _ => base.isExternal = false
  | .freeFunc base _ _ => base.isExternal = true
  | .nothing base => base.isExternal = true

def Blocks.released (s : Blocks) : List Nat := s.log.filterMap (·.base.serial)

/-- `inUse` says which data blocks are in use, and the buffer `loose` belongs to none yet. -/
structure Buffered (inUse : Nat → Prop) (loose : Option Nat) (s : Blocks) : Prop where
  fit : ∀ {d}, inUse d → (s.dblk d).dbFrtnp.isSome = (s.dblk d).dbBase.isExternal
  held : ∀ {d n}, inUse d → (s.dblk d).dbBase.serial = some n → n < s.buffers ∧ some n ≠ loose
  single : ∀ {d e n}, inUse d → inUse e → (s.dblk d).dbBase.serial = some n → (s.dblk e).dbBase.serial = some n → d = e
  taken : ∀ {n}, some n = loose → n < s.buffers
  once : s.released.Nodup
  gone : ∀ {n}, n ∈ s.released ↔
    n < s.buffers ∧ some n ≠ loose ∧ ∀ d, inUse d → (s.dblk d).dbBase.serial ≠ some n
  fits : ∀ r ∈ s.log, r.Fits

section
variable {inUse inUse' : Nat → Prop} {loose : Option Nat} {s s' : Blocks} {t : Nat}

theorem release_serial (d : Datab) : d.release.filterMap (·.base.serial) = d.dbBase.serial.toList := by
  rw [Datab.release]
  cases base : d.dbBase with
  | own => simp
  | kmem n => cases d.dbFrtnp with
    | none => simp [Release.base]
    | some frtnp => cases func : frtnp.freeFunc <;> simp [Release.base, func]
  | external n a => cases d.dbFrtnp with
    | none => simp [Release.base]
    | some frtnp => cases func : frtnp.freeFunc <;> simp [Release.base, func]

theorem release_fits {d : Datab} (fit : d.dbFrtnp.isSome = d.dbBase.isExternal) : ∀ r ∈ d.release, r.Fits := by
  rw [Datab.release]
  intro r member
  split at member
  · split at member <;> rename_i frtnp
    · obtain rfl := List.mem_singleton.mp member
      simpa [Release.Fits, frtnp] using fit.symm
    · split at member <;> obtain rfl := List.mem_singleton.mp member <;> simpa [Release.Fits, frtnp] using fit.symm
  · simp at member

theorem Buffered.frame (buffered : Buffered inUse loose s) (same : ∀ d, inUse' d ↔ inUse d)
    (buffers : s'.buffers = s.buffers) (log : s'.log = s.log)
    (dblk : ∀ d, inUse d → (s'.dblk d).dbBase = (s.dblk d).dbBase ∧ (s'.dblk d).dbFrtnp = (s.dblk d).dbFrtnp) :
    Buffered inUse' loose s' := by
  obtain rfl : inUse' = inUse := funext fun d => propext (same d)
  have released : s'.released = s.released := by rw [Blocks.released, Blocks.released, log]
  refine ⟨fun used => ?_, fun used => ?_, fun used used' => ?_, ?_, ?_, fun {n} => ?_, ?_⟩
  · rw [(dblk _ used).1, (dblk _ used).2]
    exact buffered.fit used
  · rw [(dblk _ used).1, buffers]
    exact buffered.held used
  · rw [(dblk _ used).1, (dblk _ used').1]
    exact buffered.single used used'
  · simpa only [buffers] using @buffered.taken
  · exact released ▸ buffered.once
  · rw [released, buffered.gone, buffers]
    refine and_congr_right fun _ => and_congr_right fun _ => forall₂_congr fun d used => ?_
    rw [(dblk d used).1]
  · exact log ▸ buffered.fits

theorem Buffered.release (buffered : Buffered inUse loose s) (member : inUse t) (same : ∀ d, inUse' d ↔ inUse d ∧ d ≠ t)
    (buffers : s'.buffers = s.buffers) (log : s'.log = (s.dblk t).release ++ s.log)
    (dblk : ∀ d, (s'.dblk d).dbBase = (s.dblk d).dbBase ∧ (s'.dblk d).dbFrtnp = (s.dblk d).dbFrtnp) :
    Buffered inUse' loose s' := by
  have released : s'.released = (s.dblk t).dbBase.serial.toList ++ s.released := by
    rw [Blocks.released, log, List.filterMap_append, release_serial, Blocks.released]
  have absent {n : Nat} (serial : (s.dblk t).dbBase.serial = some n) : n ∉ s.released :=
    fun gone => (buffered.gone.mp gone).2.2 t member serial
  refine ⟨fun used => ?_, fun used => ?_, fun used used' => ?_, ?_, ?_, fun {n} => ?_, fun r logged => ?_⟩
  · rw [(dblk _).1, (dblk _).2]
    exact buffered.fit ((same _).mp used).1
  · rw [(dblk _).1, buffers]
    exact buffered.held ((same _).mp used).1
  · rw [(dblk _).1, (dblk _).1]
    exact buffered.single ((same _).mp used).1 ((same _).mp used').1
  · simpa only [buffers] using @buffered.taken
  · rw [released]
    cases serial : (s.dblk t).dbBase.serial with
    | none => exact buffered.once
    | some n => exact List.nodup_cons.mpr ⟨absent serial, buffered.once⟩
  · rw [released, List.mem_append, Option.mem_toList, buffered.gone, buffers]
    constructor
    · rintro (serial | ⟨below, settled, free⟩)
      · obtain ⟨below, settled⟩ := buffered.held member serial
        refine ⟨below, settled, fun d used again => ?_⟩
        rw [(dblk d).1] at again
        exact ((same d).mp used).2 (buffered.single ((same d).mp used).1 member again serial)
      · refine ⟨below, settled, fun d used => ?_⟩
        rw [(dblk d).1]
        exact free d ((same d).mp used).1
    · rintro ⟨below, settled, free⟩
      by_cases here : (s.dblk t).dbBase.serial = some n
      · exact .inl here
      · refine .inr ⟨below, settled, fun d used serial => ?_⟩
        have other : d ≠ t := by
          rintro rfl
          exact here serial
        exact free d ((same d).mpr ⟨used, other⟩) ((dblk d).1 ▸ serial)
  · rw [log, List.mem_append] at logged
    exact logged.elim (release_fits (buffered.fit member) r) (buffered.fits r)

theorem Buffered.acquire (buffered : Buffered inUse none s) (unused : ¬ inUse t) (same : ∀ d, inUse' d ↔ inUse d ∨ d = t)
    (log : s'.log = s.log) (dblk : ∀ d, d ≠ t → s'.dblk d = s.dblk d)
    (fit : (s'.dblk t).dbFrtnp.isSome = (s'.dblk t).dbBase.isExternal)
    (base : ((s'.dblk t).dbBase = .own ∧ s'.buffers = s.buffers) ∨
      ((s'.dblk t).dbBase.serial = some s.buffers ∧ s'.buffers = s.buffers + 1)) :
    Buffered inUse' none s' := by
  have released : s'.released = s.released := by rw [Blocks.released, Blocks.released, log]
  have grows : s.buffers ≤ s'.buffers := by omega
  have old {d : Nat} (used : inUse' d) (other : d ≠ t) : inUse d := ((same d).mp used).resolve_right other
  have mine {n : Nat} (serial : (s'.dblk t).dbBase.serial = some n) : n = s.buffers ∧ s'.buffers = s.buffers + 1 := by
    rcases base with ⟨own, _⟩ | ⟨new, more⟩
    · simp [own] at serial
    · exact ⟨Option.some.inj (serial.symm.trans new), more⟩
  have below {d n : Nat} (used : inUse d) (serial : (s.dblk d).dbBase.serial = some n) : n < s.buffers :=
    (buffered.held used serial).1
  refine ⟨fun {d} used => ?_, fun {d n} used serial => ?_, fun {d e n} used used' serial serial' => ?_, by simp, ?_,
    fun {n} => ?_, log ▸ buffered.fits⟩
  · by_cases here : d = t
    · exact here ▸ fit
    · rw [dblk d here]
      exact buffered.fit (old used here)
  · refine ⟨?_, by simp⟩
    by_cases here : d = t
    · obtain ⟨rfl, more⟩ := mine (here ▸ serial)
      omega
    · rw [dblk d here] at serial
      exact Nat.lt_of_lt_of_le (below (old used here) serial) grows
  · by_cases here : d = t <;> by_cases there : e = t
    · rw [here, there]
    · rw [dblk e there] at serial'
      have := below (old used' there) serial'
      have := (mine (here ▸ serial)).1
      omega
    · rw [dblk d here] at serial
      have := below (old used here) serial
      have := (mine (there ▸ serial')).1
      omega
    · rw [dblk d here] at serial
      rw [dblk e there] at serial'
      exact buffered.single (old used here) (old used' there) serial serial'
  · exact released ▸ buffered.once
  · rw [released, buffered.gone]
    constructor
    · rintro ⟨less, settled, free⟩
      refine ⟨by omega, settled, fun d used serial => ?_⟩
      by_cases here : d = t
      · have := (mine (here ▸ serial)).1
        omega
      · rw [dblk d here] at serial
        exact free d (old used here) serial
    · rintro ⟨less, settled, free⟩
      have other : n < s.buffers := by
        rcases base with ⟨_, equal⟩ | ⟨new, more⟩
        · omega
        · have differ : n ≠ s.buffers := by
            rintro rfl
            exact free t ((same t).mpr (.inr rfl)) new
          omega
      refine ⟨other, settled, fun d used serial => ?_⟩
      have away : d ≠ t := by
        rintro rfl
        exact unused used
      exact free d ((same d).mpr (.inl used)) (dblk d away ▸ serial)

/-- A buffer is obtained before its data block is known. -/
theorem Buffered.loosen (buffered : Buffered inUse none s) (buffers : s'.buffers = s.buffers + 1) (log : s'.log = s.log)
    (dblk : s'.dblk = s.dblk) : Buffered inUse (some s.buffers) s' := by
  have released : s'.released = s.released := by rw [Blocks.released, Blocks.released, log]
  refine ⟨?_, fun used serial => ?_, ?_, fun {n} same => ?_, released ▸ buffered.once, fun {n} => ?_, log ▸ buffered.fits⟩
  · simpa only [dblk] using @buffered.fit
  · rw [dblk] at serial
    have below := (buffered.held used serial).1
    refine ⟨by omega, fun same => ?_⟩
    have := Option.some.inj same
    omega
  · simpa only [dblk] using @buffered.single
  · have := Option.some.inj same
    omega
  · rw [released, buffered.gone, dblk, buffers]
    constructor
    · rintro ⟨below, _, free⟩
      refine ⟨by omega, fun same => ?_, free⟩
      have := Option.some.inj same
      omega
    · rintro ⟨below, other, free⟩
      have differ : n ≠ s.buffers := fun same => other (congrArg some same)
      exact ⟨by omega, by simp, free⟩

/-- The loose buffer takes the place of the one of a data block in use. -/
theorem Buffered.swap {n : Nat} (buffered : Buffered inUse (some n) s) (member : inUse t) (buffers : s'.buffers = s.buffers)
    (log : s'.log = (s.dblk t).release ++ s.log) (dblk : ∀ d, d ≠ t → s'.dblk d = s.dblk d)
    (fit : (s'.dblk t).dbFrtnp = none) (base : (s'.dblk t).dbBase = .kmem n) : Buffered inUse none s' := by
  have released : s'.released = (s.dblk t).dbBase.serial.toList ++ s.released := by
    rw [Blocks.released, log, List.filterMap_append, release_serial, Blocks.released]
  have mine : (s'.dblk t).dbBase.serial = some n := by rw [base]; rfl
  have below := buffered.taken (n := n) rfl
  refine ⟨fun {d} used => ?_, fun {d m} used serial => ?_, fun {d e m} used used' serial serial' => ?_, by simp, ?_,
    fun {m} => ?_, fun r logged => ?_⟩
  · by_cases here : d = t
    · rw [here, fit, base]
      rfl
    · rw [dblk d here]
      exact buffered.fit used
  · refine ⟨?_, by simp⟩
    by_cases here : d = t
    · rw [here, mine] at serial
      rw [buffers, ← Option.some.inj serial]
      exact below
    · rw [dblk d here] at serial
      rw [buffers]
      exact (buffered.held used serial).1
  · by_cases here : d = t <;> by_cases there : e = t
    · rw [here, there]
    · rw [here, mine] at serial
      rw [dblk e there] at serial'
      exact absurd serial.symm (buffered.held used' serial').2
    · rw [there, mine] at serial'
      rw [dblk d here] at serial
      exact absurd serial'.symm (buffered.held used serial).2
    · rw [dblk d here] at serial
      rw [dblk e there] at serial'
      exact buffered.single used used' serial serial'
  · rw [released]
    cases serial : (s.dblk t).dbBase.serial with
    | none => exact buffered.once
    | some m => exact List.nodup_cons.mpr ⟨fun gone => (buffered.gone.mp gone).2.2 t member serial, buffered.once⟩
  · rw [released, List.mem_append, Option.mem_toList, buffered.gone, buffers]
    constructor
    · rintro (serial | ⟨less, settled, free⟩)
      · obtain ⟨less, settled⟩ := buffered.held member serial
        refine ⟨less, by simp, fun d used again => ?_⟩
        by_cases here : d = t
        · rw [here, mine] at again
          exact settled again.symm
        · rw [dblk d here] at again
          exact here (buffered.single used member again serial)
      · refine ⟨less, by simp, fun d used again => ?_⟩
        by_cases here : d = t
        · rw [here, mine] at again
          exact settled again.symm
        · rw [dblk d here] at again
          exact free d used again
    · rintro ⟨less, _, free⟩
      by_cases here : (s.dblk t).dbBase.serial = some m
      · exact .inl here
      · refine .inr ⟨less, fun same => free t member (mine.trans same.symm), fun d used serial => ?_⟩
        have other : d ≠ t := by
          rintro rfl
          exact here serial
        exact free d used (dblk d other ▸ serial)
  · rw [log, List.mem_append] at logged
    exact logged.elim (release_fits (buffered.fit member) r) (buffered.fits r)

end

end Svr4.StreamBlocks
