import Svr4.Foundation.Counting
import Svr4.Kernel.S5.IlistScan

/-! The free inodes over runs of `ialloc` and `ifree`. -/

namespace Svr4.S5.Ilist

open Function

/-- An inode on the i-list with mode zero. -/
def Free (inoshift : Nat) (s : System) (ino : Nat) : Prop := (1 ≤ ino ∧ ino ≤ inodes inoshift s.fp) ∧ s.disk ino = 0

/-- The superblock remembers the inode. -/
def Covered (fp : Filsys) (ino : Nat) : Prop := fp.sInode 0 ≤ ino ∨ ∃ k < fp.sNinode, fp.sInode k = ino

def freeCount (inoshift : Nat) (s : System) : Nat := Nat.count (fun i => s.disk (i + 1) = 0) (inodes inoshift s.fp)

/-- A zero behind the first number comes from a scan that has not filled `s_inode`. -/
structure Cache (inoshift : Nat) (fp : Filsys) : Prop where
  zero : ∀ k, 0 < k → k < fp.sNinode → fp.sInode k = 0 → fp.sInode 0 = 0
  inside : ∀ k, k < fp.sNinode → (∀ j, k ≤ j → j < fp.sNinode → fp.sInode j ≠ 0) → fp.sInode k ≤ inodes inoshift fp

/-- The process has set `s_ilock`. -/
def Phase.locks : Phase → Bool
  | .allocIget _ _ | .allocScan _ => true
  | .idle | .allocWait _ | .freeWait _ => false

def Phase.mode : Phase → Option Nat
  | .allocWait mode | .allocIget _ mode | .allocScan mode => some mode
  | .idle | .freeWait _ => none

structure Sound (inoshift : Nat) (s : System) : Prop where
  bound : s.fp.sNinode ≤ nicinod
  cache : (∀ p mode, s.phase p ≠ .allocScan mode) → Cache inoshift s.fp
  covered : ∀ ino, Free inoshift s ino → Covered s.fp ino ∨ ∃ p mode, s.phase p = .allocIget ino mode
  count : s.fp.sTinode = freeCount inoshift s
  single : ∀ p q, (s.phase p).locks = true → (s.phase q).locks = true → p = q
  locked : ∀ p, (s.phase p).locks = true → s.fp.sIlock ≠ 0
  scanning : ∀ p mode, s.phase p = .allocScan mode → s.fp.sNinode = nicinod ∧ ∀ ino, Free inoshift s ino → s.fp.sInode 0 ≤ ino
  taken : ∀ p ino mode, s.phase p = .allocIget ino mode → 1 ≤ ino ∧ ino ≤ inodes inoshift s.fp
  modes : ∀ p, (s.phase p).mode ≠ some 0
  cores : ∀ ino mode, s.core ino = some mode → (mode = 0 ↔ s.disk ino = 0)
  users : ∀ ino, s.lock ino ≠ .none → 1 ≤ ino ∧ ino ≤ inodes inoshift s.fp
  freeing : ∀ p ino, s.phase p = .freeWait ino → s.lock ino = .ifree ∧ s.disk ino ≠ 0
  apart : ∀ p q ino, s.phase p = .freeWait ino → s.phase q = .freeWait ino → p = q

section
variable {inoshift p ino mode : Nat} {s t : System} {phase : Phase}

theorem sleepIn_phase (q : Nat) : (sleepIn p phase s).phase q = if q = p then phase else s.phase q := by
  rw [sleepIn]
  split <;> rename_i same
  · subst same
    exact update_self ..
  · exact update_of_ne same ..

theorem Sound.unlocked (sound : Sound inoshift s) (free : s.fp.sIlock = 0) (q : Nat) : (s.phase q).locks = false := by
  cases lock : (s.phase q).locks with
  | false => rfl
  | true => exact absurd free (sound.locked q lock)

theorem Sound.others (sound : Sound inoshift s) (own : (s.phase p).locks = true) (q : Nat) (differ : q ≠ p) :
    (s.phase q).locks = false := by
  cases lock : (s.phase q).locks with
  | false => rfl
  | true => exact absurd (sound.single q p lock own) differ

/-- A process begins to wait for `s_ilock`. -/
theorem Sound.wait (sound : Sound inoshift s) (before : (s.phase p).locks = false) (after : phase.locks = false)
    (modes : phase.mode ≠ some 0) (freeing : ∀ ino, phase = .freeWait ino →
      s.lock ino = .ifree ∧ s.disk ino ≠ 0 ∧ ∀ q, q ≠ p → s.phase q ≠ .freeWait ino) : Sound inoshift (sleepIn p phase s) := by
  have lockers (q : Nat) (own : ((sleepIn p phase s).phase q).locks = true) : q ≠ p ∧ (sleepIn p phase s).phase q = s.phase q := by
    rw [sleepIn_phase] at own ⊢
    split at own <;> rename_i same
    · rw [after] at own
      cases own
    · exact ⟨same, if_neg same⟩
  have lock (q : Nat) (own : ((sleepIn p phase s).phase q).locks = true) : (s.phase q).locks = true := (lockers q own).2 ▸ own
  have back (q : Nat) (own : (s.phase q).locks = true) : (sleepIn p phase s).phase q = s.phase q := by
    rw [sleepIn_phase, if_neg]
    rintro rfl
    rw [before] at own
    cases own
  refine ⟨sound.bound, fun none => sound.cache fun q mode scan => none q mode ?_, fun ino free => ?_, sound.count,
    fun q r here there => sound.single q r (lock q here) (lock r there), fun q own => sound.locked q (lock q own), fun q mode own => ?_,
    fun q ino mode own => ?_, fun q => ?_, sound.cores, sound.users, fun q ino own => ?_, fun q r ino here there => ?_⟩
  · rw [back q (by rw [scan]; rfl), scan]
  · refine (sound.covered ino free).imp_right fun ⟨q, mode, own⟩ => ⟨q, mode, ?_⟩
    rw [back q (by rw [own]; rfl), own]
  · exact sound.scanning q mode ((lockers q (by rw [own]; rfl)).2 ▸ own)
  · exact sound.taken q ino mode ((lockers q (by rw [own]; rfl)).2 ▸ own)
  · rw [sleepIn_phase]
    split
    · exact modes
    · exact sound.modes q
  · rw [sleepIn_phase] at own
    split at own
    · exact ⟨(freeing ino own).1, (freeing ino own).2.1⟩
    · exact sound.freeing q ino own
  · rw [sleepIn_phase] at here there
    split at here <;> split at there <;> rename_i first second
    · rw [first, second]
    · exact absurd there ((freeing ino here).2.2 r second)
    · exact absurd here ((freeing ino there).2.2 q first)
    · exact sound.apart q r ino here there

/-- The only process that had set `s_ilock`, or found it clear, leaves it clear. -/
theorem Sound.leave (sound : Sound inoshift s) (others : ∀ q, q ≠ p → (s.phase q).locks = false)
    (moved : t.phase = (sleepIn p phase s).phase) (after : phase.locks = false) (idle : ∀ ino, phase ≠ .freeWait ino)
    (modes : phase.mode ≠ some 0) (size : t.fp.sIsize = s.fp.sIsize) (bound : t.fp.sNinode ≤ nicinod) (cache : Cache inoshift t.fp)
    (covered : ∀ ino, Free inoshift t ino → Covered t.fp ino) (count : t.fp.sTinode = freeCount inoshift t)
    (cores : ∀ ino mode, t.core ino = some mode → (mode = 0 ↔ t.disk ino = 0))
    (users : ∀ ino, t.lock ino ≠ .none → 1 ≤ ino ∧ ino ≤ inodes inoshift s.fp)
    (freeing : ∀ q, q ≠ p → ∀ ino, s.phase q = .freeWait ino → t.lock ino = .ifree ∧ t.disk ino ≠ 0) : Sound inoshift t := by
  have phases (q : Nat) : t.phase q = if q = p then phase else s.phase q := by rw [moved, sleepIn_phase]
  have nobody (q : Nat) : (t.phase q).locks = false := by
    rw [phases]
    split <;> rename_i same
    · exact after
    · exact others q same
  have contradiction {q : Nat} (lock : (t.phase q).locks = true) : False := by
    rw [nobody q] at lock
    cases lock
  have waiting {q ino : Nat} (own : t.phase q = .freeWait ino) : q ≠ p ∧ s.phase q = .freeWait ino := by
    rw [phases] at own
    split at own <;> rename_i same
    · exact absurd own (idle ino)
    · exact ⟨same, own⟩
  have last : inodes inoshift t.fp = inodes inoshift s.fp := by rw [inodes, inodes, size]
  refine ⟨bound, fun _ => cache, fun ino free => .inl (covered ino free), count, fun q r lock => (contradiction lock).elim,
    fun q lock => (contradiction lock).elim, fun q mode own => (contradiction (by rw [own]; rfl)).elim,
    fun q ino mode own => (contradiction (by rw [own]; rfl)).elim, fun q => ?_, cores, last ▸ users, fun q ino own => ?_,
    fun q r ino here there => sound.apart q r ino (waiting here).2 (waiting there).2⟩
  · rw [phases]
    split
    · exact modes
    · exact sound.modes q
  · exact freeing q (waiting own).1 ino (waiting own).2

/-- The only process that has set `s_ilock` sleeps with it. -/
theorem Sound.hold (sound : Sound inoshift s) (fp : Filsys) (others : ∀ q, q ≠ p → (s.phase q).locks = false)
    (locks : phase.locks = true) (mine : phase = .allocIget ino mode ∨ phase = .allocScan mode) (nonzero : mode ≠ 0)
    (size : fp.sIsize = s.fp.sIsize) (tinode : fp.sTinode = s.fp.sTinode) (held : fp.sIlock ≠ 0) (bound : fp.sNinode ≤ nicinod)
    (cache : phase = .allocIget ino mode → Cache inoshift fp ∧ 1 ≤ ino ∧ ino ≤ inodes inoshift s.fp)
    (covered : ∀ i, Free inoshift s i → Covered fp i ∨ phase = .allocIget i mode)
    (scanning : phase = .allocScan mode → fp.sNinode = nicinod ∧ ∀ i, Free inoshift s i → fp.sInode 0 ≤ i) :
    Sound inoshift (sleepIn p phase { s with fp := fp }) := by
  have last : inodes inoshift fp = inodes inoshift s.fp := by rw [inodes, inodes, size]
  have free {i : Nat} (own : Free inoshift (sleepIn p phase { s with fp := fp }) i) : Free inoshift s i :=
    ⟨⟨own.1.1, last ▸ own.1.2⟩, own.2⟩
  have only (q : Nat) (own : ((sleepIn p phase s).phase q).locks = true) : q = p := by
    by_contra differ
    rw [sleepIn_phase, if_neg differ, others q differ] at own
    cases own
  have phases (q : Nat) (other : Phase) (lock : other.locks = true) (own : (sleepIn p phase s).phase q = other) : phase = other := by
    have same := only q (own ▸ lock)
    rwa [same, sleepIn_phase, if_pos rfl] at own
  refine ⟨bound, fun none => ?_, fun i own => ?_, ?_, fun q r here there => (only q here).trans (only r there).symm, fun q _ => held,
    fun q m own => ?_, fun q i m own => ?_, fun q => ?_, sound.cores, fun i => last ▸ sound.users i, fun q i own => ?_, fun q r i here there => ?_⟩
  · rcases mine with iget | scan
    · exact (cache iget).1
    · refine absurd ?_ (none p mode)
      exact (sleepIn_phase p).trans (by rw [if_pos rfl, scan])
  · refine (covered i (free own)).imp_right fun iget => ⟨p, mode, (sleepIn_phase p).trans (by rw [if_pos rfl, iget])⟩
  · refine tinode.trans (sound.count.trans ?_)
    rw [freeCount, freeCount, sleepIn, last]
  · have scan := phases q _ rfl own
    have same : mode = m := by
      rcases mine with iget | scan'
      · rw [iget] at scan
        cases scan
      · rw [scan'] at scan
        exact Phase.allocScan.inj scan
    obtain ⟨full, hint⟩ := scanning (same ▸ scan)
    exact ⟨full, fun i own => hint i (free own)⟩
  · have iget := phases q _ rfl own
    rcases mine with iget' | scan
    · rw [iget'] at iget
      obtain ⟨rfl, rfl⟩ := Phase.allocIget.inj iget
      exact last ▸ (cache iget').2
    · rw [scan] at iget
      cases iget
  · refine ne_of_eq_of_ne (congrArg Phase.mode (sleepIn_phase q)) ?_
    split
    · rcases mine with rfl | rfl <;> exact fun same => nonzero (Option.some.inj same)
    · exact sound.modes q
  · have there : (sleepIn p phase s).phase q = .freeWait i := own
    rw [sleepIn_phase] at there
    split at there
    · rw [there] at locks
      cases locks
    · exact sound.freeing q i there
  · have first : (sleepIn p phase s).phase q = .freeWait i := here
    have second : (sleepIn p phase s).phase r = .freeWait i := there
    rw [sleepIn_phase] at first second
    split at first
    · rw [first] at locks
      cases locks
    · split at second
      · rw [second] at locks
        cases locks
      · exact sound.apart q r i first second

/-! ## Counting -/

theorem free_index {i : Nat} : Free inoshift s (i + 1) ↔ i < inodes inoshift s.fp ∧ s.disk (i + 1) = 0 := by
  rw [Free]
  constructor
  · exact fun ⟨inside, zero⟩ => ⟨inside.2, zero⟩
  · exact fun ⟨inside, zero⟩ => ⟨⟨Nat.succ_pos i, inside⟩, zero⟩

theorem freeCount_zero : freeCount inoshift s = 0 ↔ ∀ ino, ¬ Free inoshift s ino := by
  rw [freeCount]
  constructor
  · intro none ino free
    obtain ⟨i, rfl⟩ := Nat.exists_eq_add_one.mpr free.1.1
    obtain ⟨inside, zero⟩ := free_index.mp free
    have positive := (@count_pos (fun i => s.disk (i + 1) = 0)) inside zero
    omega
  · intro none
    by_contra some
    obtain ⟨i, inside, zero⟩ := exists_of_count_pos (Nat.pos_of_ne_zero some)
    exact none (i + 1) (free_index.mpr ⟨inside, zero⟩)

section
variable (size : t.fp.sIsize = s.fp.sIsize)
include size

theorem freeCount_more (inside : 1 ≤ ino ∧ ino ≤ inodes inoshift s.fp) (used : s.disk ino ≠ 0)
    (disk : t.disk = update s.disk ino 0) : freeCount inoshift t = freeCount inoshift s + 1 := by
  obtain ⟨i, rfl⟩ := Nat.exists_eq_add_one.mpr inside.1
  rw [freeCount, freeCount, inodes, inodes, size]
  refine count_insert inside.2 used fun j _ => ?_
  rw [disk]
  by_cases same : j = i
  · subst same
    simp
  · rw [update_of_ne (by omega)]
    simp [same]

theorem freeCount_less {value : Nat} (inside : 1 ≤ ino ∧ ino ≤ inodes inoshift s.fp)
    (free : s.disk ino = 0) (nonzero : value ≠ 0) (disk : t.disk = update s.disk ino value) :
    freeCount inoshift s = freeCount inoshift t + 1 := by
  have last : inodes inoshift t.fp = inodes inoshift s.fp := by rw [inodes, inodes, size]
  refine freeCount_more size.symm (last ▸ inside) ?_ ?_
  · rw [disk, update_self]
    exact nonzero
  · rw [disk, update_idem, ← free, update_eq_self]

theorem freeCount_same (same : ∀ ino, t.disk ino = 0 ↔ s.disk ino = 0) :
    freeCount inoshift t = freeCount inoshift s := by
  rw [freeCount, freeCount, inodes, inodes, size]
  exact count_same fun j _ => same (j + 1)

end

theorem free_congr (size : t.fp.sIsize = s.fp.sIsize) (same : ∀ ino, t.disk ino = 0 ↔ s.disk ino = 0) :
    Free inoshift t ino ↔ Free inoshift s ino := by
  rw [Free, Free, same, inodes, inodes, size]

/-! ## Allocating -/

theorem Sound.out (sound : Sound inoshift s) (fp : Filsys) (others : ∀ q, q ≠ p → (s.phase q).locks = false)
    (size : fp.sIsize = s.fp.sIsize) (none : ∀ ino, ¬ Free inoshift s ino) :
    Sound inoshift (outOfInodes p { s with fp := fp }).2 := by
  have none' (ino : Nat) : ¬ Free inoshift (outOfInodes p { s with fp := fp }).2 ino := by
    rw [@free_congr inoshift ino s (outOfInodes p { s with fp := fp }).2 size fun _ => Iff.rfl]
    exact none ino
  refine sound.leave others rfl rfl nofun nofun size (Nat.zero_le _) ⟨nofun, nofun⟩ (fun ino free => absurd free (none' ino))
    (freeCount_zero.mpr none').symm sound.cores sound.users fun q _ ino own => sound.freeing q ino own

theorem Sound.loop1 (sound : Sound inoshift s) (fp : Filsys) (others : ∀ q, q ≠ p → (s.phase q).locks = false) (nonzero : mode ≠ 0)
    (size : fp.sIsize = s.fp.sIsize) (tinode : fp.sTinode = s.fp.sTinode) (held : fp.sIlock ≠ 0) (bound : fp.sNinode ≤ nicinod)
    (cache : Cache inoshift fp) (covered : ∀ ino, Free inoshift s ino → Covered fp ino) :
    Sound inoshift (loop1 p mode { s with fp := fp }).2 ∧
      ∀ result, (loop1 p mode { s with fp := fp }).1 = some result → result = .enospc ∧ ∀ ino, ¬ Free inoshift s ino := by
  have last : inodes inoshift fp = inodes inoshift s.fp := by rw [inodes, inodes, size]
  rw [Ilist.loop1]
  dsimp only
  split <;> rename_i pop
  · obtain ⟨positive, some⟩ := pop
    refine ⟨sound.hold { fp with sNinode := fp.sNinode - 1 } others rfl (.inl rfl) nonzero size tinode held ?_
      (fun _ => ⟨⟨?_, ?_⟩, Nat.pos_of_ne_zero some, ?_⟩) (fun i free => ?_) (by rintro ⟨⟩), fun result same => by cases same⟩
    · exact Nat.le_trans (Nat.sub_le ..) bound
    · exact fun k above less => cache.zero k above (less.trans_le (Nat.sub_le ..))
    · intro k less nonzeros
      dsimp only at less nonzeros
      refine cache.inside k (by omega) fun j above below => ?_
      by_cases top : j = fp.sNinode - 1
      · exact top ▸ some
      · exact nonzeros j above (by omega)
    · rw [← last]
      refine cache.inside _ (by omega) fun j above below => ?_
      have top : j = fp.sNinode - 1 := by omega
      exact top ▸ some
    · rcases covered i free with hint | ⟨k, less, same⟩
      · exact .inl (.inl hint)
      · by_cases top : k = fp.sNinode - 1
        · subst top
          exact .inr (same ▸ rfl)
        · exact .inl (.inr ⟨k, show k < fp.sNinode - 1 by omega, same⟩)
  · -- Nothing is left in front of a zero.
    have hint (i : Nat) (free : Free inoshift s i) : fp.sInode 0 ≤ i := by
      rcases covered i free with hint | ⟨k, less, _⟩
      · exact hint
      · have zero : fp.sInode (fp.sNinode - 1) = 0 := by
          by_contra some
          exact pop ⟨by omega, some⟩
        have first : fp.sInode 0 = 0 := by
          by_cases one : fp.sNinode - 1 = 0
          · rwa [one] at zero
          · exact cache.zero _ (by omega) (by omega) zero
        rw [first]
        exact Nat.zero_le i
    split <;> rename_i some
    · exact ⟨sound.hold { fp with sNinode := nicinod } others rfl (show Phase.allocScan mode = .allocIget 0 mode ∨ Phase.allocScan mode = .allocScan mode from .inr rfl) nonzero size tinode held
        le_rfl (by rintro ⟨⟩) (fun i free => .inl (.inl (hint i free))) fun _ => ⟨rfl, hint⟩, fun result same => by cases same⟩
    · have none : ∀ ino, ¬ Free inoshift s ino := by
        rw [← freeCount_zero, ← sound.count, ← tinode]
        omega
      exact ⟨sound.out fp others size none, fun result same => ⟨(Option.some.inj same).symm, none⟩⟩

theorem Sound.ialloc (sound : Sound inoshift s) (idle : (s.phase p).locks = false) (nonzero : mode ≠ 0) :
    Sound inoshift (ialloc p mode s).2 ∧
      ∀ result, (ialloc p mode s).1 = some result → result = .enospc ∧ ∀ ino, ¬ Free inoshift s ino := by
  rw [Ilist.ialloc]
  split <;> rename_i held
  · exact ⟨sound.wait idle rfl (fun same => nonzero (Option.some.inj same)) nofun, nofun⟩
  · have nobody := sound.unlocked (not_not.mp held)
    refine sound.loop1 { s.fp with sIlock := 1 } (fun q _ => nobody q) nonzero rfl rfl (Nat.succ_ne_zero 0) sound.bound ?_ fun ino free => ?_
    · obtain ⟨zero, inside⟩ := sound.cache fun q m scan => by
        have lock := nobody q
        rw [scan] at lock
        cases lock
      exact ⟨zero, inside⟩
    · refine (sound.covered ino free).resolve_right fun ⟨q, m, iget⟩ => ?_
      have lock := nobody q
      rw [iget] at lock
      cases lock

/-- The scan begins at a number that leaves out no free inode. -/
def Aligned (inoshift : Nat) (s : System) : Prop :=
  fsInos inoshift (s.fp.sInode 0) ≤ s.fp.sInode 0 ∨ ¬ Free inoshift s (s.fp.sInode 0)

theorem Sound.scanResume (sound : Sound inoshift s) (phase : s.phase p = .allocScan mode) (aligned : Aligned inoshift s) :
    Sound inoshift (scanResume inoshift p mode s).2 ∧
      ∀ result, (scanResume inoshift p mode s).1 = some result → result = .enospc ∧ ∀ ino, ¬ Free inoshift s ino := by
  have lock : (s.phase p).locks = true := by rw [phase]; rfl
  have others := sound.others lock
  obtain ⟨size, hint⟩ := sound.scanning p mode phase
  have nonzero : mode ≠ 0 := by
    have modes := sound.modes p
    rw [phase] at modes
    exact fun zero => modes (zero ▸ rfl)
  generalize scanned : List.range' (fsInos inoshift (s.fp.sInode 0))
    ((s.fp.sIsize - fsItod inoshift (fsInos inoshift (s.fp.sInode 0))) * vfsInopb inoshift) = list
  have filled : Filled s.disk list s.fp (scanList s.disk list s.fp) :=
    scanList_filled (scanned ▸ List.pairwise_lt_range' ..)
  have member {ino : Nat} : ino ∈ list ↔ fsInos inoshift (s.fp.sInode 0) ≤ ino ∧ ino ≤ inodes inoshift s.fp := by
    rw [← scanned]
    exact mem_scanned _
  have nonzeros {ino : Nat} (there : ino ∈ list) : ino ≠ 0 := by
    have first := (member.mp there).1
    rw [fsInos_eq] at first
    omega
  have looked (ino : Nat) (free : Free inoshift s ino) : ino ∈ list := by
    refine member.mpr ⟨?_, free.1.2⟩
    have atLeast := hint ino free
    rcases aligned with before | used
    · exact before.trans atLeast
    · have differ : s.fp.sInode 0 ≠ ino := fun same => used (same ▸ free)
      have next := (@fsInos_le inoshift) (s.fp.sInode 0)
      omega
  rw [Ilist.scanResume, scanIlist, scanBlocks_eq, scanned]
  generalize scanList s.disk list s.fp = fp at filled
  obtain ⟨less, _, found, all, isize, ilock, tinode⟩ := filled
  rw [size] at less found all
  have last : inodes inoshift fp = inodes inoshift s.fp := by rw [inodes, inodes, isize]
  have held : fp.sIlock ≠ 0 := ilock ▸ sound.locked p lock
  split <;> rename_i some
  · -- Not all of `s_inode` is filled.
    dsimp only
    split <;> rename_i part
    · have first : update (update fp.sInode (fp.sNinode - 1) 0) 0 0 0 = 0 := update_self ..
      refine sound.loop1 { fp with sInode := update (update fp.sInode (fp.sNinode - 1) 0) 0 0, sNinode := nicinod } others
        nonzero isize tinode held le_rfl ⟨fun _ _ _ _ => first, fun k below nonzero => ?_⟩
        fun ino _ => .inl (first.symm ▸ Nat.zero_le ino)
      have behind : fp.sNinode ≤ k := by
        by_contra before
        refine nonzero (fp.sNinode - 1) (by omega) (by dsimp only; omega) ?_
        dsimp only
        by_cases first : fp.sNinode - 1 = 0
        · rw [first, update_self]
        · rw [update_of_ne first, update_self]
      dsimp only
      rw [update_of_ne (by omega), update_of_ne (by omega)]
      exact last ▸ (member.mp (found k behind below).1).2
    · have none (ino : Nat) : ¬ Free inoshift s ino := fun free => by
        rcases all ino (looked ino free) free.2 with ⟨k, above, below, _⟩ | ⟨zero, _⟩ <;> omega
      exact ⟨sound.out { fp with sInode := update (update fp.sInode (fp.sNinode - 1) 0) 0 0 } others isize none,
        fun result same => ⟨(Option.some.inj same).symm, none⟩⟩
  · have zero : fp.sNinode = 0 := by omega
    rw [if_pos (by rw [zero]; decide)]
    refine sound.loop1 { fp with sNinode := nicinod } others nonzero isize tinode held le_rfl
      ⟨fun k _ below empty => ?_, fun k below _ => ?_⟩ fun ino free => ?_
    · exact absurd empty (nonzeros (found k (by omega) below).1)
    · exact last ▸ (member.mp (found k (by omega) below).1).2
    · rcases all ino (looked ino free) free.2 with ⟨k, _, below, same⟩ | ⟨_, none | before⟩
      · exact .inr ⟨k, below, same⟩
      · cases none
      · exact .inl before

theorem Sound.igetResume {full : Bool} (sound : Sound inoshift s) (phase : s.phase p = .allocIget ino mode)
    (remembered : s.core ino = none → full = true → Free inoshift s ino → Covered s.fp ino) :
    Sound inoshift (igetResume p ino mode full s).2 ∧
      ∀ result, (igetResume p ino mode full s).1 = some result → result = .enfile ∨ result = .inode ino ∧ s.disk ino = 0 := by
  have lock : (s.phase p).locks = true := by rw [phase]; rfl
  have others := sound.others lock
  have inside := sound.taken p ino mode phase
  have nonzero : mode ≠ 0 := by
    have modes := sound.modes p
    rw [phase] at modes
    exact fun zero => modes (zero ▸ rfl)
  have cache : Cache inoshift s.fp := sound.cache fun q m scan => by
    by_cases same : q = p
    · rw [same, phase] at scan
      cases scan
    · have none := others q same
      rw [scan] at none
      cases none
  -- Only this inode is neither remembered nor in use.
  have covered (i : Nat) (free : Free inoshift s i) : Covered s.fp i ∨ i = ino := by
    refine (sound.covered i free).imp_right fun ⟨q, m, iget⟩ => ?_
    have same : q = p := by
      by_contra differ
      have none := others q differ
      rw [iget] at none
      cases none
    rw [same, phase] at iget
    exact (Phase.allocIget.inj iget).1.symm
  rw [Ilist.igetResume]
  split <;> rename_i fails
  · refine ⟨sound.leave others rfl rfl nofun nofun rfl sound.bound ⟨cache.zero, cache.inside⟩ (fun i free => ?_) sound.count sound.cores
      sound.users fun q _ i own => sound.freeing q i own, fun result same => .inl (Option.some.inj same).symm⟩
    have free' : Free inoshift s i := free
    rcases covered i free' with here | rfl
    · exact here
    · exact remembered fails.1 fails.2 free'
  · split <;> rename_i locked
    · exact ⟨sound, nofun⟩
    · have unlocked : s.lock ino = .none := not_not.mp locked
      have waits (q i : Nat) (own : s.phase q = .freeWait i) : i ≠ ino ∧ s.lock i = .ifree ∧ s.disk i ≠ 0 := by
        obtain ⟨held, used⟩ := sound.freeing q i own
        refine ⟨?_, held, used⟩
        rintro rfl
        rw [unlocked] at held
        cases held
      have iMode : (s.core ino).getD (s.disk ino) = 0 ↔ s.disk ino = 0 := by
        cases loaded : s.core ino with
        | none => exact Iff.rfl
        | some m => exact sound.cores ino m loaded
      dsimp only
      split <;> rename_i empty
      · have free := iMode.mp empty
        refine ⟨sound.leave others rfl rfl nofun nofun rfl sound.bound ⟨cache.zero, cache.inside⟩ (fun i own => ?_) ?_
          (fun i m loaded => ?_) (fun i held => ?_) (fun q _ i own => ?_), fun result same => .inr ⟨(Option.some.inj same).symm, free⟩⟩
        · obtain ⟨range, zero⟩ := own
          have zero' : update s.disk ino mode i = 0 := zero
          have differ : i ≠ ino := by
            rintro rfl
            rw [update_self] at zero'
            exact nonzero zero'
          rw [update_of_ne differ] at zero'
          exact (covered i ⟨range, zero'⟩).resolve_right differ
        · refine Nat.sub_eq_of_eq_add (sound.count.trans ?_)
          exact freeCount_less rfl inside free nonzero rfl
        · have loaded' : update s.core ino (some mode) i = some m := loaded
          show m = 0 ↔ update s.disk ino mode i = 0
          by_cases same : i = ino
          · rw [same, update_self] at loaded'
            rw [same, update_self, Option.some.inj loaded']
          · rw [update_of_ne same] at loaded' ⊢
            exact sound.cores i m loaded'
        · simp only [sleepIn] at held
          by_cases same : i = ino
          · exact same ▸ inside
          · rw [update_of_ne same] at held
            exact sound.users i held
        · obtain ⟨differ, held, used⟩ := waits q i own
          simp only [sleepIn]
          rw [update_of_ne differ, update_of_ne differ]
          exact ⟨held, used⟩
      · have used := fun zero => empty (iMode.mpr zero)
        have zeros (i : Nat) : update s.disk ino ((s.core ino).getD (s.disk ino)) i = 0 ↔ s.disk i = 0 := by
          by_cases same : i = ino
          · rw [same, update_self]
            exact iMode
          · rw [update_of_ne same]
        refine ⟨sound.leave others rfl rfl nofun (fun same => nonzero (Option.some.inj same)) rfl sound.bound ⟨cache.zero, cache.inside⟩
          (fun i own => ?_) ?_ (fun i m loaded => ?_) sound.users (fun q _ i own => ?_), nofun⟩
        · obtain ⟨range, zero⟩ := own
          have zero' : s.disk i = 0 := (zeros i).mp zero
          refine (covered i ⟨range, zero'⟩).resolve_right ?_
          rintro rfl
          exact used zero'
        · refine sound.count.trans (Eq.symm ?_)
          exact freeCount_same rfl zeros
        · show m = 0 ↔ update s.disk ino ((s.core ino).getD (s.disk ino)) i = 0
          rw [zeros]
          have loaded' : update s.core ino (some ((s.core ino).getD (s.disk ino))) i = some m := loaded
          by_cases same : i = ino
          · rw [same, update_self] at loaded'
            rw [same, ← Option.some.inj loaded']
            exact iMode
          · rw [update_of_ne same] at loaded'
            exact sound.cores i m loaded'
        · obtain ⟨differ, held, busy⟩ := waits q i own
          exact ⟨held, fun zero => busy ((zeros i).mp zero)⟩

/-! ## Freeing -/

theorem remembered {fp : Filsys} (bound : fp.sNinode ≤ nicinod) (cache : Cache inoshift fp) (inside : 1 ≤ ino ∧ ino ≤ inodes inoshift fp) :
    (remember ino fp).sNinode ≤ nicinod ∧ Cache inoshift (remember ino fp) ∧
      (∀ i, Covered fp i ∨ i = ino → Covered (remember ino fp) i) ∧ (remember ino fp).sIsize = fp.sIsize ∧
      (remember ino fp).sIlock = fp.sIlock ∧ (remember ino fp).sTinode = fp.sTinode := by
  rw [remember]
  split <;> rename_i full
  · split <;> rename_i below
    · -- No number is zero, as the first is not.
      refine ⟨bound, ⟨fun k above less zero => ?_, fun k less nonzeros => ?_⟩, fun i here => ?_, rfl, rfl, rfl⟩
      · simp only [update_of_ne above.ne'] at zero
        have first := cache.zero k above less zero
        omega
      · dsimp only at less nonzeros ⊢
        by_cases first : k = 0
        · rw [first, update_self]
          exact inside.2
        · rw [update_of_ne first]
          refine cache.inside k less fun j above small => ?_
          have differ : j ≠ 0 := by omega
          have nonzero := nonzeros j above small
          rwa [update_of_ne differ] at nonzero
      · have hint : update fp.sInode 0 ino 0 = ino := update_self ..
        rcases here with (atLeast | ⟨k, less, rfl⟩) | rfl
        · exact .inl (Nat.le_trans (Nat.le_of_eq hint) (below.le.trans atLeast))
        · by_cases first : k = 0
          · subst first
            exact .inl (Nat.le_trans (Nat.le_of_eq hint) below.le)
          · exact .inr ⟨k, less, update_of_ne first ..⟩
        · exact .inl (Nat.le_of_eq hint)
    · refine ⟨bound, cache, fun i here => ?_, rfl, rfl, rfl⟩
      rcases here with here | rfl
      · exact here
      · exact .inl (not_lt.mp below)
  · have first : fp.sNinode ≠ 0 := fun zero => full (.inr zero)
    have same {k : Nat} (less : k < fp.sNinode) : update fp.sInode fp.sNinode ino k = fp.sInode k :=
      update_of_ne less.ne ..
    have own : update fp.sInode fp.sNinode ino fp.sNinode = ino := update_self ..
    refine ⟨by dsimp only; omega, ⟨fun k above less zero => ?_, fun k less nonzeros => ?_⟩, fun i here => ?_, rfl, rfl, rfl⟩
    · dsimp only at less zero ⊢
      rw [same (Nat.pos_of_ne_zero first)]
      by_cases last : k = fp.sNinode
      · rw [last, own] at zero
        omega
      · rw [same (by omega)] at zero
        exact cache.zero k above (by omega) zero
    · dsimp only at less nonzeros ⊢
      by_cases last : k = fp.sNinode
      · rw [last, own]
        exact inside.2
      · rw [same (by omega)]
        refine cache.inside k (by omega) fun j above small => ?_
        have nonzero := nonzeros j above (Nat.lt_succ_of_lt small)
        rwa [same small] at nonzero
    · rcases here with (atLeast | ⟨k, less, equal⟩) | rfl
      · refine .inl ?_
        dsimp only
        rw [same (Nat.pos_of_ne_zero first)]
        exact atLeast
      · exact .inr ⟨k, Nat.lt_succ_of_lt less, (same less).trans equal⟩
      · exact .inr ⟨fp.sNinode, Nat.lt_succ_self _, own⟩

theorem Sound.ifreeLocked (sound : Sound inoshift s) (idle : (s.phase p).locks = false) (held : s.lock ino = .ifree)
    (used : s.disk ino ≠ 0) (alone : ∀ q, q ≠ p → s.phase q ≠ .freeWait ino) : Sound inoshift (ifreeLocked p ino s) := by
  rw [Ilist.ifreeLocked]
  split <;> rename_i busy
  · refine sound.wait idle rfl (by rintro ⟨⟩) fun i same => ?_
    cases same
    exact ⟨held, used, alone⟩
  · have nobody := sound.unlocked (not_not.mp busy)
    have inside := sound.users ino (by simp [held])
    obtain ⟨zero, within⟩ := sound.cache fun q m scan => by
      have lock := nobody q
      rw [scan] at lock
      cases lock
    obtain ⟨bound, cache, covers, isize, ilock, tinode⟩ :=
      (@remembered inoshift ino { s.fp with sTinode := s.fp.sTinode + 1 }) sound.bound ⟨zero, within⟩ inside
    refine sound.leave (fun q _ => nobody q) rfl rfl (by rintro _ ⟨⟩) (by rintro ⟨⟩) isize bound cache (fun i own => covers i ?_) ?_ (fun i m loaded => ?_)
      (fun i locked => ?_) fun q other i own => ?_
    · obtain ⟨range, empty⟩ := own
      have empty' : update s.disk ino 0 i = 0 := empty
      by_cases same : i = ino
      · exact .inr same
      · rw [update_of_ne same] at empty'
        have range' : 1 ≤ i ∧ i ≤ inodes inoshift s.fp := ⟨range.1, by
          have most := range.2
          rwa [show inodes inoshift _ = inodes inoshift s.fp by rw [inodes, inodes]; exact congrArg (fun n => (n - 2) * _) isize] at most⟩
        refine .inl ((sound.covered i ⟨range', empty'⟩).resolve_right fun loading => ?_)
        obtain ⟨q, m, iget⟩ := loading
        have lock := nobody q
        rw [iget] at lock
        cases lock
    · refine tinode.trans ((congrArg (· + 1) sound.count).trans (Eq.symm ?_))
      exact freeCount_more isize inside used rfl
    · have loaded' : update s.core ino (some 0) i = some m := loaded
      show m = 0 ↔ update s.disk ino 0 i = 0
      by_cases same : i = ino
      · rw [same, update_self] at loaded'
        rw [same, update_self, ← Option.some.inj loaded']
      · rw [update_of_ne same] at loaded' ⊢
        exact sound.cores i m loaded'
    · have locked' : update s.lock ino .user i ≠ .none := locked
      by_cases same : i = ino
      · exact same ▸ inside
      · rw [update_of_ne same] at locked'
        exact sound.users i locked'
    · have differ : i ≠ ino := by
        rintro rfl
        exact alone q other own
      show update s.lock ino .user i = .ifree ∧ update s.disk ino 0 i ≠ 0
      rw [update_of_ne differ, update_of_ne differ]
      exact sound.freeing q i own

/-! ## Other processes -/

/-- A change that is not about the free inodes. -/
theorem Sound.frame (sound : Sound inoshift s) (same : t.fp = s.fp ∧ t.phase = s.phase) (zeros : ∀ i, t.disk i = 0 ↔ s.disk i = 0)
    (cores : ∀ i mode, t.core i = some mode → (mode = 0 ↔ s.disk i = 0))
    (users : ∀ i, t.lock i ≠ .none → 1 ≤ i ∧ i ≤ inodes inoshift s.fp) (waits : ∀ i, s.lock i = .ifree → t.lock i = .ifree) :
    Sound inoshift t := by
  obtain ⟨fp, phase⟩ := same
  have free (i : Nat) : Free inoshift t i ↔ Free inoshift s i := free_congr (congrArg Filsys.sIsize fp) zeros
  refine ⟨fp ▸ sound.bound, ?_, fun i own => ?_, ?_, phase ▸ sound.single, fp ▸ phase ▸ sound.locked, fun p m own => ?_, fp ▸ phase ▸ sound.taken,
    phase ▸ sound.modes, fun i m own => (cores i m own).trans (zeros i).symm, fp ▸ users, fun p i own => ?_, phase ▸ sound.apart⟩
  · rw [fp, phase]
    exact sound.cache
  · rw [fp, phase]
    exact sound.covered i ((free i).mp own)
  · rw [fp, sound.count]
    exact (freeCount_same (congrArg Filsys.sIsize fp) zeros).symm
  · rw [phase] at own
    rw [fp]
    obtain ⟨full, hint⟩ := sound.scanning p m own
    exact ⟨full, fun i there => hint i ((free i).mp there)⟩
  · rw [phase] at own
    obtain ⟨held, used⟩ := sound.freeing p i own
    exact ⟨waits i held, fun zero => used ((zeros i).mp zero)⟩

/-! ## Runs -/

/-- What `iget` takes away is remembered still, and no scan leaves out a free inode. -/
def Remembered (inoshift : Nat) (s : System) (event : Event) : Prop :=
  ∀ p full, event = .resume p full →
    (∀ ino mode, s.phase p = .allocIget ino mode → s.core ino = none → full = true → Free inoshift s ino → Covered s.fp ino) ∧
      ∀ mode, s.phase p = .allocScan mode → Aligned inoshift s

/-- What a call returns is right. -/
def Right (inoshift : Nat) (s : System) : Result → Prop
  | .inode ino => s.disk ino = 0
  | .enospc => ∀ ino, ¬ Free inoshift s ino
  | .enfile => True

theorem Sound.step {event : Event} {answer : Option Result} (sound : Sound inoshift s) (step : run inoshift event s = some (answer, t))
    (allowed : Remembered inoshift s event) : Sound inoshift t ∧ ∀ result, answer = some result → Right inoshift s result := by
  have users {value : Lock} {i : Nat} (inside : 1 ≤ i ∧ i ≤ inodes inoshift s.fp) (j : Nat)
      (held : update s.lock i value j ≠ .none) : 1 ≤ j ∧ j ≤ inodes inoshift s.fp := by
    by_cases same : j = i
    · exact same ▸ inside
    · rw [update_of_ne same] at held
      exact sound.users j held
  have waits {value : Lock} {i : Nat} (other : s.lock i ≠ .ifree) (j : Nat) (held : s.lock j = .ifree) :
      update s.lock i value j = .ifree := by
    have differ : j ≠ i := by
      rintro rfl
      exact other held
    rwa [update_of_ne differ]
  have cores {i mode : Nat} (right : mode = 0 ↔ s.disk i = 0) (j m : Nat) (own : update s.core i (some mode) j = some m) :
      m = 0 ↔ s.disk j = 0 := by
    by_cases same : j = i
    · rw [same, update_self] at own
      rw [same, ← Option.some.inj own]
      exact right
    · rw [update_of_ne same] at own
      exact sound.cores j m own
  have enospc {u : Option Result × System} (facts : Sound inoshift u.2 ∧
      ∀ result, u.1 = some result → result = .enospc ∧ ∀ ino, ¬ Free inoshift s ino) (same : u = (answer, t)) :
      Sound inoshift t ∧ ∀ result, answer = some result → Right inoshift s result := by
    subst same
    refine ⟨facts.1, fun result own => ?_⟩
    obtain ⟨rfl, none⟩ := facts.2 result own
    exact none
  cases event with
  | alloc p mode =>
    simp only [run] at step
    split at step <;> rename_i given
    · exact enospc (sound.ialloc (by rw [given.1]; rfl) given.2) (Option.some.inj step)
    · cases step
  | free p ino =>
    simp only [run] at step
    split at step <;> rename_i given
    · obtain ⟨idle, held⟩ := given
      obtain ⟨iMode, loaded, result⟩ := Option.map_eq_some_iff.mp step
      cases result
      refine ⟨?_, nofun⟩
      have inside := sound.users ino (by simp [held])
      rw [ifree]
      split <;> rename_i empty
      · exact sound
      · have used : s.disk ino ≠ 0 := fun zero => empty ((sound.cores ino iMode loaded).mpr zero)
        have locked : Sound inoshift { s with lock := update s.lock ino .ifree } :=
          sound.frame ⟨rfl, rfl⟩ (fun _ => Iff.rfl) sound.cores (users inside) (waits (by simp [held]))
        refine locked.ifreeLocked (show (s.phase p).locks = false by rw [idle]; rfl) (update_self ..) used fun q _ own => ?_
        rw [(sound.freeing q ino own).1] at held
        cases held
    · cases step
  | resume p full =>
    simp only [run] at step
    cases phase : s.phase p with
    | idle =>
      rw [phase] at step
      cases step
    | allocWait mode =>
      rw [phase] at step
      have modes := sound.modes p
      rw [phase] at modes
      exact enospc (sound.ialloc (by rw [phase]; rfl) fun zero => modes (zero ▸ rfl)) (Option.some.inj step)
    | allocIget ino mode =>
      rw [phase] at step
      obtain ⟨after, answers⟩ := (@Sound.igetResume _ _ _ _ _ full) sound phase ((allowed p full rfl).1 ino mode phase)
      rw [Option.some.inj step] at after answers
      refine ⟨after, fun result own => ?_⟩
      rcases answers result own with rfl | ⟨rfl, zero⟩
      · trivial
      · exact zero
    | allocScan mode =>
      rw [phase] at step
      exact enospc (sound.scanResume phase ((allowed p full rfl).2 mode phase)) (Option.some.inj step)
    | freeWait ino =>
      rw [phase] at step
      cases step
      obtain ⟨held, used⟩ := sound.freeing p ino phase
      refine ⟨sound.ifreeLocked (by rw [phase]; rfl) held used fun q differ own => ?_, nofun⟩
      exact differ (sound.apart q p ino own phase)
  | lock ino =>
    simp only [run] at step
    split at step <;> rename_i given
    · cases step
      refine ⟨sound.frame ⟨rfl, rfl⟩ (fun _ => Iff.rfl) (cores ?_) (users given.2) (waits (by simp [given.1])), nofun⟩
      cases loaded : s.core ino with
      | none => exact Iff.rfl
      | some m => exact sound.cores ino m loaded
    · cases step
  | chmod ino mode =>
    simp only [run] at step
    split at step <;> rename_i given
    · obtain ⟨held, nonzero, used⟩ := given
      cases step
      have busy : s.disk ino ≠ 0 := by
        cases loaded : s.core ino with
        | none =>
          rw [loaded] at used
          exact absurd rfl used
        | some m =>
          rw [loaded] at used
          exact fun zero => used ((sound.cores ino m loaded).mpr zero)
      refine ⟨sound.frame ⟨rfl, rfl⟩ (fun _ => Iff.rfl) (cores ?_) sound.users fun _ own => own, nofun⟩
      exact ⟨fun zero => absurd zero nonzero, fun zero => absurd zero busy⟩
    · cases step
  | update ino =>
    simp only [run] at step
    split at step <;> rename_i held
    · obtain ⟨iMode, loaded, result⟩ := Option.map_eq_some_iff.mp step
      cases result
      refine ⟨sound.frame ⟨rfl, rfl⟩ (fun i => ?_) sound.cores sound.users fun _ own => own, nofun⟩
      by_cases same : i = ino
      · rw [same]
        exact (iff_of_eq (congrArg (· = 0) (update_self ..))).trans (sound.cores ino iMode loaded)
      · exact iff_of_eq (congrArg (· = 0) (update_of_ne same ..))
    · cases step
  | unlock ino =>
    simp only [run] at step
    split at step <;> rename_i held
    · cases step
      exact ⟨sound.frame ⟨rfl, rfl⟩ (fun _ => Iff.rfl) sound.cores (users (sound.users ino (by simp [held]))) (waits (by simp [held])),
        nofun⟩
    · cases step
  | evict ino =>
    simp only [run] at step
    split at step <;> rename_i given
    · cases step
      refine ⟨sound.frame ⟨rfl, rfl⟩ (fun _ => Iff.rfl) (fun i m own => ?_) sound.users fun _ own => own, nofun⟩
      have own' : update s.core ino none i = some m := own
      by_cases same : i = ino
      · rw [same, update_self] at own'
        cases own'
      · rw [update_of_ne same] at own'
        exact sound.cores i m own'
    · cases step

end

/-- A file system that has been mounted. -/
structure Start (inoshift : Nat) (s : System) : Prop where
  idle : ∀ p, s.phase p = .idle
  clear : s.fp.sIlock = 0
  unloaded : ∀ ino, s.core ino = none ∧ s.lock ino = .none
  bound : s.fp.sNinode ≤ nicinod
  cache : Cache inoshift s.fp
  covered : ∀ ino, Free inoshift s ino → Covered s.fp ino
  count : s.fp.sTinode = freeCount inoshift s

def Step (inoshift : Nat) (s : System) (event : Event) (t : System) : Prop :=
  ∃ answer, run inoshift event s = some (answer, t)

theorem Start.sound {inoshift : Nat} {s : System} (start : Start inoshift s) : Sound inoshift s := by
  have locks (p : Nat) : (s.phase p).locks = false := by rw [start.idle p]; rfl
  refine ⟨start.bound, fun _ => start.cache, fun ino free => .inl (start.covered ino free), start.count, fun p q own => ?_,
    fun p own => ?_, fun p mode own => ?_, fun p ino mode own => ?_, fun p => ?_, fun ino mode own => ?_, fun ino own => ?_,
    fun p ino own => ?_, fun p q ino own => ?_⟩
  · rw [locks] at own; cases own
  · rw [locks] at own; cases own
  · rw [start.idle] at own; cases own
  · rw [start.idle] at own; cases own
  · rw [start.idle p]; exact nofun
  · rw [(start.unloaded ino).1] at own; cases own
  · exact absurd (start.unloaded ino).2 own
  · rw [start.idle] at own; cases own
  · rw [start.idle] at own; cases own

/-- Where no `iget` fails for a free inode that is remembered nowhere else, and no scan begins behind
a free inode, the free inodes are remembered, and `ialloc` returns what it should. -/
theorem inodes_exact (inoshift : Nat) (s₀ : System) (start : Start inoshift s₀) (s : System)
    (reached : Reaches (· = s₀) (Step inoshift) (Remembered inoshift) s) :
    (∀ ino, Free inoshift s ino → Covered s.fp ino ∨ ∃ p mode, s.phase p = .allocIget ino mode) ∧
      ∀ event result t, run inoshift event s = some (some result, t) → Remembered inoshift s event → Right inoshift s result := by
  have sound : Sound inoshift s := by
    induction reached with
    | start first => exact first ▸ start.sound
    | next _ step allowed ih =>
      obtain ⟨answer, result⟩ := step
      exact (ih.step result allowed).1
  exact ⟨sound.covered, fun event result t step allowed => (sound.step step allowed).2 result rfl⟩

/-- A file system with 32 inodes in two blocks. -/
def volume (free cached : List Nat) : System where
  fp := ⟨4, cached.length, fun k => cached[k]?.getD 0, 0, free.length⟩
  disk ino := if ino ∈ free then 0 else 1
  core _ := none
  lock _ := .none
  phase _ := .idle

theorem volume_start (free cached : List Nat) (few : cached.length ≤ nicinod) (nonzero : ∀ ino ∈ cached, 1 ≤ ino ∧ ino ≤ 32)
    (all : ∀ ino ∈ free, ino ∈ cached) (count : free.length = freeCount 4 (volume free cached)) :
    Start 4 (volume free cached) := by
  have get {k : Nat} (less : k < cached.length) : cached[k]?.getD 0 ∈ cached := by
    rw [List.getElem?_eq_getElem less]
    exact List.getElem_mem less
  refine ⟨fun _ => rfl, rfl, fun _ => ⟨rfl, rfl⟩, few, ⟨fun k _ less zero => ?_, fun k less _ => (nonzero _ (get less)).2⟩,
    fun ino ⟨_, zero⟩ => .inr ?_, count⟩
  · have positive := (nonzero _ (get less)).1
    have zero' : cached[k]?.getD 0 = 0 := zero
    omega
  · have member : ino ∈ free := by
      by_contra other
      simp [volume, other] at zero
    obtain ⟨k, less, same⟩ := List.getElem_of_mem (all ino member)
    exact ⟨k, less, (congrArg (Option.getD · 0) (List.getElem?_eq_getElem less)).trans same⟩

/-- An inode is allocated. -/
theorem inodes_exact_alloc : ∃ s t, Start 4 (volume [5, 20] [20, 5]) ∧
    Reaches (· = volume [5, 20] [20, 5]) (Step 4) (Remembered 4) s ∧
    run 4 (.resume 1 false) s = some (some (.inode 5), t) ∧ s.disk 5 = 0 := by
  have start : Start 4 (volume [5, 20] [20, 5]) := volume_start _ _ (by decide) (by decide) (by decide) (by decide)
  have reached : Reaches (· = volume [5, 20] [20, 5]) (Step 4) (Remembered 4) (ialloc 1 7 (volume [5, 20] [20, 5])).2 :=
    .next (.start rfl) (show Step 4 (volume [5, 20] [20, 5]) (.alloc 1 7) _ from ⟨none, rfl⟩) nofun
  have right := (inodes_exact 4 _ start _ reached).2 (.resume 1 false) (.inode 5) _ rfl
  refine ⟨_, _, start, reached, rfl, right ?_⟩
  rintro p full ⟨⟩
  exact ⟨fun _ _ _ _ full => (by cases full), fun mode scan => by cases scan⟩

theorem events_reach {s₀ t : System} {events : List Event}
    (result : events.foldlM (fun s event => (run 4 event s).map Prod.snd) s₀ = some t) :
    Reaches (· = s₀) (Step 4) (fun _ _ => True) t := by
  refine Reaches.events (fun s event t first => ?_) (fun _ _ => trivial) (.start rfl) result
  obtain ⟨⟨answer, _⟩, step, rfl⟩ := Option.map_eq_some_iff.mp first
  exact ⟨answer, step⟩

/-- Inode 5 is lost when `iget` fails for it. Inode 16 is freed when it is the only number left, and is the
last of its block. -/
theorem free_lost :
    (∃ s t, Start 4 (volume [5, 20] [20, 5]) ∧ Reaches (· = volume [5, 20] [20, 5]) (Step 4) (fun _ _ => True) s ∧
      run 4 (.resume 2 false) s = some (some .enospc, t) ∧ ¬ Right 4 s .enospc) ∧
    ∃ s t, Start 4 (volume [16] [16]) ∧ Reaches (· = volume [16] [16]) (Step 4) (fun _ _ => True) s ∧
      run 4 (.resume 2 false) s = some (some .enospc, t) ∧ ¬ Right 4 s .enospc := by
  constructor
  · have result : ∃ s t, [.alloc 1 7, .resume 1 true, .alloc 1 7, .resume 1 false, .alloc 2 7].foldlM
        (fun s event => (run 4 event s).map Prod.snd) (volume [5, 20] [20, 5]) = some s ∧
        run 4 (.resume 2 false) s = some (some .enospc, t) ∧ s.fp.sIsize = 4 ∧ s.disk 5 = 0 := ⟨_, _, rfl, rfl, rfl, rfl⟩
    obtain ⟨s, t, last, step, size, zero⟩ := result
    refine ⟨s, t, volume_start _ _ (by decide) (by decide) (by decide) (by decide), events_reach last, step, fun none => ?_⟩
    refine none 5 ⟨⟨by decide, ?_⟩, zero⟩
    rw [inodes, size]
    decide
  · have result : ∃ s t, [.alloc 1 7, .resume 1 false, .free 1 16, .alloc 2 7].foldlM
        (fun s event => (run 4 event s).map Prod.snd) (volume [16] [16]) = some s ∧
        run 4 (.resume 2 false) s = some (some .enospc, t) ∧ s.fp.sIsize = 4 ∧ s.disk 16 = 0 := ⟨_, _, rfl, rfl, rfl, rfl⟩
    obtain ⟨s, t, last, step, size, zero⟩ := result
    refine ⟨s, t, volume_start _ _ (by decide) (by decide) (by decide) (by decide), events_reach last, step, fun none => ?_⟩
    refine none 16 ⟨⟨by decide, ?_⟩, zero⟩
    rw [inodes, size]
    decide

end Svr4.S5.Ilist
