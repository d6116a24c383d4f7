import Mathlib.Data.List.Nodup
import Mathlib.Data.List.Perm.Basic
import Svr4.Kernel.S5.FreeBlocks

/-! The chain of free blocks over runs of `blkalloc` and `blkfree`. -/

namespace Svr4.S5.Blocks

open Function

/-- The blocks on the chain that begins with `n` numbers. The first number is the next chain block. -/
inductive Linked (fblk : Nat → Fblk) : Nat → (Nat → Nat) → List Nat → Prop where
  | none {f : Nat → Nat} : Linked fblk 0 f []
  | last {n : Nat} {f : Nat → Nat} : f 0 = 0 → Linked fblk (n + 1) f ((List.range n).map fun i => f (i + 1))
  | link {n : Nat} {f : Nat → Nat} {rest : List Nat} : f 0 ≠ 0 → 0 < (fblk (f 0)).dfNfree → (fblk (f 0)).dfNfree ≤ nicfree →
      Linked fblk (fblk (f 0)).dfNfree (fblk (f 0)).dfFree rest →
      Linked fblk (n + 1) f ((List.range n).map (fun i => f (i + 1)) ++ f 0 :: rest)

/-- The numbers in the superblock. While `blkalloc` reads a chain block this block is the only one. -/
def front (s : System) : Nat := if s.fp.sFlock ≠ 0 ∧ s.fp.sNfree = 0 then 1 else s.fp.sNfree

abbrev FreeList (s : System) (list : List Nat) : Prop := Linked s.fblk (front s) s.fp.sFree list

section
variable {fblk fblk' : Nat → Fblk} {n b : Nat} {f f' : Nat → Nat} {list list' : List Nat}

/-! ## The chain -/

theorem Linked.unique (linked : Linked fblk n f list) (other : Linked fblk n f list') : list = list' := by
  induction linked generalizing list' with
  | none =>
    cases other
    rfl
  | last zero =>
    cases other with
    | last _ => rfl
    | link more _ _ _ => exact absurd zero more
  | link more _ _ _ ih =>
    cases other with
    | last zero => exact absurd zero more
    | link _ _ _ rest => rw [ih rest]

theorem Linked.write (linked : Linked fblk n f list) (same : ∀ b ∈ list, fblk' b = fblk b) : Linked fblk' n f list := by
  induction linked with
  | none => exact .none
  | last zero => exact .last zero
  | @link n f rest more positive most _ ih =>
    have own : fblk' (f 0) = fblk (f 0) := same _ (by simp)
    refine .link more (own ▸ positive) (own ▸ most) ?_
    rw [own]
    exact ih fun b member => same b (by simp [member])

theorem map_congr (same : ∀ i < n + 1, f' i = f i) :
    (List.range n).map (fun i => f' (i + 1)) = (List.range n).map fun i => f (i + 1) :=
  List.map_congr_left fun i member => same _ (Nat.succ_lt_succ (List.mem_range.mp member))

theorem Linked.numbers (linked : Linked fblk n f list) (same : ∀ i < n, f' i = f i) : Linked fblk n f' list := by
  cases linked with
  | none => exact .none
  | last zero =>
    rw [← map_congr same]
    exact .last ((same 0 (Nat.succ_pos _)).trans zero)
  | link more positive most rest =>
    have first := same 0 (Nat.succ_pos _)
    rw [← map_congr same, ← first]
    rw [← first] at more positive most rest
    exact .link more positive most rest

theorem Linked.push (linked : Linked fblk (n + 1) f list) :
    ∃ list', Linked fblk (n + 2) (update f (n + 1) b) list' ∧ list'.Perm (b :: list) := by
  have same (i : Nat) (less : i < n + 1) : update f (n + 1) b i = f i := update_of_ne (Nat.ne_of_lt less) ..
  have numbers : (List.range (n + 1)).map (fun i => update f (n + 1) b (i + 1)) =
      (List.range n).map (fun i => f (i + 1)) ++ [b] := by
    rw [List.range_succ, List.map_append, map_congr same]
    simp
  cases linked with
  | last zero =>
    refine ⟨_, .last ((same 0 (Nat.succ_pos n)).trans zero), ?_⟩
    rw [numbers]
    exact List.perm_append_singleton b _
  | @link _ _ rest more positive most linked =>
    have first := same 0 (Nat.succ_pos n)
    rw [← first] at more positive most linked
    refine ⟨_, .link more positive most linked, ?_⟩
    rw [numbers, first, List.append_assoc]
    exact List.perm_middle

theorem Linked.pop (linked : Linked fblk (n + 2) f list) :
    ∃ list', Linked fblk (n + 1) f list' ∧ list.Perm (f (n + 1) :: list') := by
  have numbers : (List.range (n + 1)).map (fun i => f (i + 1)) = (List.range n).map (fun i => f (i + 1)) ++ [f (n + 1)] := by
    rw [List.range_succ, List.map_append]
    rfl
  cases linked with
  | last zero =>
    refine ⟨_, .last zero, ?_⟩
    rw [numbers]
    exact List.perm_append_singleton ..
  | link more positive most linked =>
    refine ⟨_, .link more positive most linked, ?_⟩
    rw [numbers, List.append_assoc]
    exact List.perm_middle

theorem Linked.follow (linked : Linked fblk 1 f list) (more : f 0 ≠ 0) :
    ∃ rest, list = f 0 :: rest ∧ 0 < (fblk (f 0)).dfNfree ∧ (fblk (f 0)).dfNfree ≤ nicfree ∧
      Linked fblk (fblk (f 0)).dfNfree (fblk (f 0)).dfFree rest := by
  cases linked with
  | last zero => exact absurd zero more
  | link _ positive most linked => exact ⟨_, rfl, positive, most, linked⟩

end

/-! ## The invariant -/

/-- The block that a process is about to free. -/
def Phase.hand : Phase → Option Nat
  | .freeWait bno | .freeLink bno | .freeStale bno => some bno
  | .idle | .allocWait | .allocRead _ => none

/-- The process has locked the list. -/
def Phase.locks : Phase → Bool
  | .allocRead _ | .freeLink _ => true
  | .idle | .allocWait | .freeWait _ | .freeStale _ => false

structure Sound (initial : List Nat) (s : System) (list : List Nat) : Prop where
  chain : FreeList s list
  nodup : list.Nodup
  bound : s.fp.sNfree ≤ nicfree
  first : 0 < s.fp.sIsize
  range : ∀ b ∈ list, badblock s.fp b = false
  owned : ∀ b, s.owned b = true → badblock s.fp b = false ∧ b ∉ list
  hand : ∀ p b, (s.phase p).hand = some b → badblock s.fp b = false ∧ b ∉ list ∧ s.owned b = false
  apart : ∀ p q b, (s.phase p).hand = some b → (s.phase q).hand = some b → p = q
  single : ∀ p q, (s.phase p).locks = true → (s.phase q).locks = true → p = q
  locked : ∀ p, (s.phase p).locks = true → s.fp.sFlock ≠ 0
  reading : ∀ p b, s.phase p = .allocRead b → s.fp.sNfree = 0 ∧ s.fp.sFree 0 = b ∧ b ≠ 0
  full : s.fp.sFlock ≠ 0 → s.fp.sNfree = 0 ∨ s.fp.sNfree = nicfree
  linking : ∀ p b, s.phase p = .freeLink b → s.fp.sNfree = nicfree
  count : ∀ b, list.count b + s.returned.count b = initial.count b + s.freed.count b

/-- Where `blkfree` goes on after a leftover buffer, the superblock has room for a number that is not
the first. -/
def Room (s : System) (event : Event) : Prop :=
  ∀ p incore disk bno, event = .resume p incore disk → s.phase p = .freeStale bno → 0 < s.fp.sNfree ∧ s.fp.sNfree < nicfree

section
variable {initial list : List Nat} {s t : System} {p bno n : Nat} {incore : Bool} {disk : Fblk} {phase : Phase}
  {fp : Filsys}

theorem badblock_zero (first : 0 < fp.sIsize) : badblock fp 0 = true := by simp [badblock, first]

theorem sleepIn_self : (sleepIn p phase s).phase p = phase := update_self ..

theorem sleepIn_other {q : Nat} (differ : q ≠ p) : (sleepIn p phase s).phase q = s.phase q :=
  update_of_ne differ ..

/-- The block is nowhere but in the hands of the process. -/
structure Apart (s : System) (list : List Nat) (p bno : Nat) : Prop where
  good : badblock s.fp bno = false
  off : bno ∉ list
  unowned : s.owned bno = false
  others : ∀ q, q ≠ p → (s.phase q).hand ≠ some bno

theorem Sound.inHand (sound : Sound initial s list) (own : (s.phase p).hand = some bno) : Apart s list p bno := by
  obtain ⟨good, off, unowned⟩ := sound.hand p bno own
  exact ⟨good, off, unowned, fun q differ there => differ (sound.apart q p bno there own)⟩

theorem Sound.phases {q r b : Nat} (sound : Sound initial s list)
    (hand : ∀ b, phase.hand = some b → Apart s list p b) :
    (((sleepIn p phase s).phase q).hand = some b → badblock s.fp b = false ∧ b ∉ list ∧ s.owned b = false) ∧
      (((sleepIn p phase s).phase q).hand = some b → ((sleepIn p phase s).phase r).hand = some b → q = r) := by
  by_cases first : q = p
  · subst first
    rw [sleepIn_self]
    refine ⟨fun own => ⟨(hand b own).good, (hand b own).off, (hand b own).unowned⟩, fun own there => ?_⟩
    by_contra differ
    rw [sleepIn_other (Ne.symm differ)] at there
    exact (hand b own).others r (Ne.symm differ) there
  · rw [sleepIn_other first]
    refine ⟨sound.hand q b, fun here there => ?_⟩
    by_cases second : r = p
    · subst second
      rw [sleepIn_self] at there
      exact absurd here ((hand b there).others q first)
    · rw [sleepIn_other second] at there
      exact sound.apart q r b here there

theorem Sound.sleep {phase : Phase} (sound : Sound initial s list) (hand : ∀ b, phase.hand = some b → Apart s list p b)
    (locks : phase.locks = false) : Sound initial (sleepIn p phase s) list := by
  have lockers (q : Nat) (own : ((sleepIn p phase s).phase q).locks = true) : (sleepIn p phase s).phase q = s.phase q := by
    have differ : q ≠ p := by
      rintro rfl
      rw [sleepIn_self, locks] at own
      cases own
    exact sleepIn_other differ
  have lock (q : Nat) (own : ((sleepIn p phase s).phase q).locks = true) : (s.phase q).locks = true := lockers q own ▸ own
  refine ⟨sound.chain, sound.nodup, sound.bound, sound.first, sound.range, sound.owned, fun q b => (sound.phases (r := 0) hand).1,
    fun q r b => (sound.phases hand).2,
    fun q r here there => sound.single q r (lock q here) (lock r there), fun q own => sound.locked q (lock q own),
    fun q b own => ?_, sound.full, fun q b own => ?_, sound.count⟩
  · exact sound.reading q b (lockers q (by rw [own]; rfl) ▸ own)
  · exact sound.linking q b (lockers q (by rw [own]; rfl) ▸ own)

theorem Sound.unlocked (sound : Sound initial s list) (free : s.fp.sFlock = 0) (q : Nat) : (s.phase q).locks = false := by
  cases lock : (s.phase q).locks with
  | false => rfl
  | true => exact absurd free (sound.locked q lock)

theorem front_free (free : s.fp.sFlock = 0) : front s = s.fp.sNfree := by simp [front, free]

theorem Sound.leave (sound : Sound initial s list) (others : ∀ q, q ≠ p → (s.phase q).locks = false) {list' : List Nat}
    (idle : t.phase = (sleepIn p .idle s).phase) (size : t.fp.sIsize = s.fp.sIsize ∧ t.fp.sFsize = s.fp.sFsize)
    (free : t.fp.sFlock = 0) (chain : Linked t.fblk t.fp.sNfree t.fp.sFree list') (nodup : list'.Nodup) (bound : t.fp.sNfree ≤ nicfree)
    (range : ∀ b ∈ list', badblock s.fp b = false) (owned : ∀ b, t.owned b = true → badblock s.fp b = false ∧ b ∉ list')
    (hand : ∀ q, q ≠ p → ∀ b, (s.phase q).hand = some b → b ∉ list' ∧ t.owned b = false)
    (count : ∀ b, list'.count b + t.returned.count b = initial.count b + t.freed.count b) : Sound initial t list' := by
  have bad : badblock t.fp = badblock s.fp := by
    funext b
    simp only [badblock, size]
  have nobody (q : Nat) : (t.phase q).locks = false := by
    rw [idle]
    by_cases same : q = p
    · rw [same, sleepIn_self]
      rfl
    · rw [sleepIn_other same]
      exact others q same
  have phase (q : Nat) : t.phase q = if q = p then .idle else s.phase q := by
    rw [idle]
    split <;> rename_i same
    · rw [same, sleepIn_self]
    · rw [sleepIn_other same]
  have hands (q b : Nat) (own : (t.phase q).hand = some b) : q ≠ p ∧ (s.phase q).hand = some b := by
    rw [phase] at own
    split at own <;> rename_i same
    · cases own
    · exact ⟨same, own⟩
  have contradiction {q : Nat} (lock : (t.phase q).locks = true) : False := by
    rw [nobody q] at lock
    cases lock
  refine ⟨?_, nodup, bound, size.1 ▸ sound.first, bad ▸ range, bad ▸ owned, fun q b own => ?_, fun q r b here there => ?_,
    fun q r lock => (contradiction lock).elim, fun q lock => (contradiction lock).elim,
    fun q b own => (contradiction (by rw [own]; rfl)).elim, fun held => absurd free held,
    fun q b own => (contradiction (by rw [own]; rfl)).elim, count⟩
  · rw [FreeList, front_free free]
    exact chain
  · obtain ⟨differ, there⟩ := hands q b own
    obtain ⟨off, unowned⟩ := hand q differ b there
    exact ⟨bad ▸ (sound.hand q b there).1, off, unowned⟩
  · exact sound.apart q r b (hands q b here).2 (hands r b there).2

theorem Sound.lock {phase : Phase} (sound : Sound initial s list) (free : s.fp.sFlock = 0)
    (hand : ∀ b, phase.hand = some b → Apart s list p b) (chain : Linked s.fblk (if n = 0 then 1 else n) s.fp.sFree list)
    (full : n = 0 ∨ n = nicfree) (reading : ∀ b, phase = .allocRead b → n = 0 ∧ s.fp.sFree 0 = b ∧ b ≠ 0)
    (linking : ∀ b, phase = .freeLink b → n = nicfree) :
    Sound initial (sleepIn p phase { s with fp := { s.fp with sNfree := n, sFlock := s.fp.sFlock + 1 } }) list := by
  have only (q : Nat) (own : ((sleepIn p phase s).phase q).locks = true) : q = p := by
    by_contra differ
    rw [sleepIn_other differ, sound.unlocked free] at own
    cases own
  have mine (q : Nat) (own : ((sleepIn p phase s).phase q).locks = true) : (sleepIn p phase s).phase q = phase := by
    rw [only q own, sleepIn_self]
  refine ⟨?_, sound.nodup, ?_, sound.first, sound.range, sound.owned, fun q b => (sound.phases (r := 0) hand).1,
    fun q r b => (sound.phases hand).2, fun q r here there => (only q here).trans (only r there).symm,
    fun q _ => Nat.succ_ne_zero _, fun q b own => ?_, fun _ => full, fun q b own => ?_, sound.count⟩
  · have same : front (sleepIn p phase { s with fp := { s.fp with sNfree := n, sFlock := s.fp.sFlock + 1 } }) = if n = 0 then 1 else n := by
      simp [front, sleepIn]
    rw [FreeList, same]
    exact chain
  · rcases full with rfl | rfl
    · exact Nat.zero_le _
    · exact Nat.le_refl _
  · have same := mine q (show ((sleepIn p phase s).phase q).locks = true by rw [show (sleepIn p phase s).phase q = .allocRead b from own]; rfl)
    exact reading b (same.symm.trans own)
  · have same := mine q (show ((sleepIn p phase s).phase q).locks = true by rw [show (sleepIn p phase s).phase q = .freeLink b from own]; rfl)
    exact linking b (same.symm.trans own)

/-! ## Allocating -/

theorem takeFree_eq {fblk : Nat → Fblk} (linked : Linked fblk n fp.sFree list) (first : 0 < fp.sIsize)
    (range : ∀ b ∈ list, badblock fp b = false) :
    (takeFree fp n = none ∧ list = []) ∨
      ∃ m, n = m + 1 ∧ takeFree fp n = some (fp.sFree m, m) ∧ fp.sFree m ∈ list ∧ fp.sFree m ≠ 0 := by
  have nonzero {b : Nat} (member : b ∈ list) : b ≠ 0 := by
    rintro rfl
    have good := range 0 member
    rw [badblock_zero first] at good
    cases good
  match n, linked with
  | 0, .none => exact .inl ⟨rfl, rfl⟩
  | 1, linked =>
    by_cases zero : fp.sFree 0 = 0
    · cases linked with
      | last _ => exact .inl ⟨by simp [takeFree, zero], rfl⟩
      | link more _ _ _ => exact absurd zero more
    · obtain ⟨rest, rfl, _, _, _⟩ := linked.follow zero
      have good := range (fp.sFree 0) (by simp)
      exact .inr ⟨0, rfl, by simp [takeFree, zero, good], by simp, zero⟩
  | n + 2, linked =>
    obtain ⟨list', _, perm⟩ := linked.pop
    have member : fp.sFree (n + 1) ∈ list := perm.mem_iff.mpr (by simp)
    exact .inr ⟨n + 1, rfl, by simp [takeFree, nonzero member, range _ member], member, nonzero member⟩

/-- `blkalloc` returns a block of the chain. -/
theorem Sound.give (sound : Sound initial s list) (others : ∀ q, q ≠ p → (s.phase q).locks = false) {list' : List Nat}
    (perm : list.Perm (bno :: list')) (size : t.fp.sIsize = s.fp.sIsize ∧ t.fp.sFsize = s.fp.sFsize) (free : t.fp.sFlock = 0)
    (chain : Linked t.fblk t.fp.sNfree t.fp.sFree list') (positive : 0 < t.fp.sNfree) (bound : t.fp.sNfree ≤ nicfree)
    (same : t.phase = s.phase ∧ t.owned = s.owned ∧ t.returned = s.returned ∧ t.freed = s.freed) :
    Sound initial (allocEnd p bno t) list' := by
  obtain ⟨phases, owns, log, done⟩ := same
  have nodup : (bno :: list').Nodup := perm.nodup_iff.mp sound.nodup
  have off : bno ∉ list' := (List.nodup_cons.mp nodup).1
  have member : bno ∈ list := perm.mem_iff.mpr (.head _)
  have sub (b : Nat) (there : b ∈ list') : b ∈ list := perm.mem_iff.mpr (.tail _ there)
  rw [allocEnd, if_neg (by omega)]
  refine sound.leave others (by simp only [sleepIn, phases]) size free chain (List.nodup_cons.mp nodup).2 bound
    (fun b there => sound.range b (sub b there)) (fun b own => ?_) (fun q differ b own => ?_) fun b => ?_
  · simp only [sleepIn] at own
    by_cases equal : b = bno
    · subst equal
      exact ⟨sound.range b member, off⟩
    · rw [update_of_ne equal, owns] at own
      obtain ⟨good, away⟩ := sound.owned b own
      exact ⟨good, fun there => away (sub b there)⟩
  · obtain ⟨_, away, unowned⟩ := sound.hand q b own
    have differ : b ≠ bno := fun equal => away (equal ▸ member)
    simp only [sleepIn]
    rw [update_of_ne differ, owns]
    exact ⟨fun there => away (sub b there), unowned⟩
  · have count := sound.count b
    rw [perm.count_eq, List.count_cons] at count
    simp only [sleepIn, log, done, List.count_cons]
    omega

theorem Sound.blkalloc (sound : Sound initial s list) (phase : (s.phase p).hand = none) (lock : (s.phase p).locks = false) :
    ∃ list', Sound initial (blkalloc p s) list' := by
  rw [Blocks.blkalloc]
  split <;> rename_i flock
  · exact ⟨list, sound.sleep nofun rfl⟩
  · have free : s.fp.sFlock = 0 := not_not.mp flock
    have nobody := sound.unlocked free
    have chain := sound.chain
    rw [FreeList, front_free free] at chain
    rcases takeFree_eq chain sound.first sound.range with ⟨none, rfl⟩ | ⟨m, size, some, member, nonzero⟩
    · rw [none]
      refine ⟨[], sound.leave (fun q _ => nobody q) rfl ⟨rfl, rfl⟩ free .none List.nodup_nil (Nat.zero_le _) nofun
        (fun b own => sound.owned b own) (fun q _ b own => (sound.hand q b own).2) sound.count⟩
    · rw [some]
      dsimp only
      split <;> rename_i zero
      · -- The number was the first: its block is read.
        subst zero
        rw [size] at chain
        exact ⟨list, (@Sound.lock _ _ _ _ 0 _) sound free nofun chain (.inl rfl)
          (fun b equal => ⟨rfl, by cases equal; rfl, by cases equal; exact nonzero⟩) nofun⟩
      · obtain ⟨k, rfl⟩ := Nat.exists_eq_succ_of_ne_zero zero
        rw [size] at chain
        obtain ⟨list', popped, perm⟩ := chain.pop
        have bound := sound.bound
        refine ⟨list', sound.give (fun q _ => nobody q) perm ⟨rfl, rfl⟩ free popped (Nat.succ_pos k) ?_ ⟨rfl, rfl, rfl, rfl⟩⟩
        dsimp only
        omega

theorem Sound.allocResume (sound : Sound initial s list) (phase : s.phase p = .allocRead bno) :
    ∃ list', Sound initial (allocResume p bno disk s) list' := by
  have locks : (s.phase p).locks = true := by rw [phase]; rfl
  have others (q : Nat) (differ : q ≠ p) : (s.phase q).locks = false := by
    cases lock : (s.phase q).locks with
    | false => rfl
    | true => exact absurd (sound.single q p lock locks) differ
  obtain ⟨zero, first, nonzero⟩ := sound.reading p bno phase
  have chain := sound.chain
  have one : front s = 1 := by simp [front, zero, sound.locked p locks]
  rw [FreeList, one] at chain
  obtain ⟨rest, rfl, positive, most, linked⟩ := chain.follow (first ▸ nonzero)
  rw [first] at positive most linked
  have off : bno ∉ rest := by
    have nodup := sound.nodup
    rw [first] at nodup
    exact (List.nodup_cons.mp nodup).1
  refine ⟨rest, sound.give others (first ▸ List.Perm.refl _) ⟨rfl, rfl⟩ rfl ?_ positive most ⟨rfl, rfl, rfl, rfl⟩⟩
  refine (linked.write fun b member => ?_).numbers fun i less => ?_
  · have differ : b ≠ bno := fun same => off (same ▸ member)
    exact update_of_ne differ ..
  · exact if_pos (Nat.lt_of_lt_of_le less most)

/-! ## Freeing -/

/-- The end of `blkfree`, with the list free. -/
theorem Sound.push (sound : Sound initial s list) (others : ∀ q, q ≠ p → (s.phase q).locks = false) (apart : Apart s list p bno)
    {list' : List Nat} (perm : list'.Perm (bno :: list)) (size : t.fp.sIsize = s.fp.sIsize ∧ t.fp.sFsize = s.fp.sFsize)
    (free : t.fp.sFlock = 0) (bound : t.fp.sNfree < nicfree)
    (chain : Linked t.fblk (t.fp.sNfree + 1) (update t.fp.sFree t.fp.sNfree bno) list')
    (same : t.phase = s.phase ∧ t.owned = s.owned ∧ t.returned = s.returned ∧ t.freed = s.freed) :
    Sound initial (pushFree p bno t) list' := by
  obtain ⟨phases, owns, log, done⟩ := same
  have differ {b : Nat} (away : b ∉ list) (other : b ≠ bno) : b ∉ list' := fun there => by
    rcases List.mem_cons.mp (perm.mem_iff.mp there) with equal | member
    · exact other equal
    · exact away member
  rw [pushFree]
  refine sound.leave others (by simp only [sleepIn, phases]) size free chain
    (perm.nodup_iff.mpr (List.nodup_cons.mpr ⟨apart.off, sound.nodup⟩)) bound (fun b there => ?_) (fun b own => ?_)
    (fun q other b own => ?_) fun b => ?_
  · rcases List.mem_cons.mp (perm.mem_iff.mp there) with rfl | member
    · exact apart.good
    · exact sound.range b member
  · simp only [sleepIn, owns] at own
    obtain ⟨good, away⟩ := sound.owned b own
    refine ⟨good, differ away ?_⟩
    rintro rfl
    rw [apart.unowned] at own
    cases own
  · obtain ⟨_, away, unowned⟩ := sound.hand q b own
    simp only [sleepIn, owns]
    exact ⟨differ away fun equal => apart.others q other (equal ▸ own), unowned⟩
  · have count := sound.count b
    simp only [sleepIn, log, done, perm.count_eq, List.count_cons]
    omega

section
variable (sound : Sound initial s list)
include sound

theorem Sound.begin (free : s.fp.sFlock = 0) (empty : s.fp.sNfree = 0) :
    Sound initial { s with fp := { s.fp with sNfree := 1, sFree := update s.fp.sFree 0 0 } } list := by
  have chain := sound.chain
  rw [FreeList, front_free free, empty] at chain
  have contradiction {q : Nat} (lock : (s.phase q).locks = true) : False := by
    rw [sound.unlocked free] at lock
    cases lock
  cases chain
  refine ⟨?_, sound.nodup, (by decide : 1 ≤ nicfree), sound.first, sound.range, sound.owned, sound.hand, sound.apart, sound.single,
    sound.locked, fun q b own => (contradiction (by rw [show s.phase q = _ from own]; rfl)).elim, fun held => absurd free held,
    fun q b own => (contradiction (by rw [show s.phase q = _ from own]; rfl)).elim, sound.count⟩
  have one : front { s with fp := { s.fp with sNfree := 1, sFree := update s.fp.sFree 0 0 } } = 1 := by
    simp [front]
  rw [FreeList, one]
  exact .last (show update s.fp.sFree 0 0 0 = 0 from update_self ..)

theorem Sound.blkfree (lock : (s.phase p).locks = false) (apart : Apart s list p bno) :
    ∃ list', Sound initial (blkfree p bno incore s) list' := by
  rw [Blocks.blkfree]
  have mine (b : Nat) (own : some bno = some b) : Apart s list p b := Option.some.inj own ▸ apart
  split <;> rename_i flock
  · exact ⟨list, sound.sleep mine rfl⟩
  have free : s.fp.sFlock = 0 := not_not.mp flock
  simp only [apart.good, Bool.false_eq_true, if_false]
  generalize first : (if s.fp.sNfree = 0 then
    { s with fp := { s.fp with sNfree := 1, sFree := update s.fp.sFree 0 0 } } else s) = t
  have facts : Sound initial t list ∧ Apart t list p bno ∧ 0 < t.fp.sNfree ∧ t.fp.sFlock = 0 := by
    rw [← first]
    split <;> rename_i empty
    · exact ⟨sound.begin free empty, ⟨apart.good, apart.off, apart.unowned, apart.others⟩, Nat.one_pos, free⟩
    · exact ⟨sound, apart, Nat.pos_of_ne_zero empty, free⟩
  obtain ⟨sound, apart, positive, free⟩ := facts
  have mine (b : Nat) (own : some bno = some b) : Apart t list p b := Option.some.inj own ▸ apart
  have chain := sound.chain
  rw [FreeList, front_free free] at chain
  split <;> rename_i full
  · have size : t.fp.sNfree = nicfree := Nat.le_antisymm sound.bound full
    have locked := (@Sound.lock _ _ _ p nicfree (.freeLink bno)) sound free mine
      (by rw [if_neg (by decide), ← size]; exact chain) (.inr rfl) nofun fun _ _ => rfl
    rw [← size] at locked
    exact ⟨list, locked⟩
  · split
    · exact ⟨list, sound.sleep mine rfl⟩
    · obtain ⟨k, size⟩ := Nat.exists_eq_add_one.mpr positive
      rw [size] at chain
      obtain ⟨list', pushed, perm⟩ := (@Linked.push _ _ bno _ _) chain
      refine ⟨list', sound.push (fun q _ => sound.unlocked free q) apart perm ⟨rfl, rfl⟩ free (Nat.lt_of_not_le full) ?_ ⟨rfl, rfl, rfl, rfl⟩⟩
      rw [size]
      exact pushed

theorem Sound.linkResume (phase : s.phase p = .freeLink bno) :
    Sound initial (linkResume p bno s) (bno :: list) := by
  have locks : (s.phase p).locks = true := by rw [phase]; rfl
  have others (q : Nat) (differ : q ≠ p) : (s.phase q).locks = false := by
    cases lock : (s.phase q).locks with
    | false => rfl
    | true => exact absurd (sound.single q p lock locks) differ
  have apart : Apart s list p bno := sound.inHand (by rw [phase]; rfl)
  have full := sound.linking p bno phase
  have chain := sound.chain
  rw [FreeList, front, if_neg (by simp [full, nicfree]), full] at chain
  have nonzero : bno ≠ 0 := by
    rintro rfl
    have good := apart.good
    rw [badblock_zero sound.first] at good
    cases good
  have content : update s.fblk bno ⟨s.fp.sNfree, bcopy s.fp.sFree (s.fblk bno).dfFree⟩ bno =
      ⟨nicfree, bcopy s.fp.sFree (s.fblk bno).dfFree⟩ := by
    rw [update_self, full]
  refine sound.push others apart (List.Perm.refl _) ⟨rfl, rfl⟩ rfl (by decide : 0 < nicfree) ?_ ⟨rfl, rfl, rfl, rfl⟩
  -- The block links to what was in the superblock.
  have rest : Linked (update s.fblk bno ⟨s.fp.sNfree, bcopy s.fp.sFree (s.fblk bno).dfFree⟩) nicfree
      (bcopy s.fp.sFree (s.fblk bno).dfFree) list := by
    refine (chain.write fun b member => ?_).numbers fun i less => if_pos less
    have differ : b ≠ bno := fun same => apart.off (same ▸ member)
    exact update_of_ne differ ..
  have first : update s.fp.sFree 0 bno 0 = bno := update_self ..
  have link := (@Linked.link (update s.fblk bno ⟨s.fp.sNfree, bcopy s.fp.sFree (s.fblk bno).dfFree⟩) 0
    (update s.fp.sFree 0 bno) list)
  rw [first, content] at link
  exact link nonzero (show 0 < nicfree by decide) (Nat.le_refl _) rest

theorem Sound.staleResume (phase : s.phase p = .freeStale bno) (positive : 0 < s.fp.sNfree)
    (less : s.fp.sNfree < nicfree) : ∃ list', Sound initial (staleResume p bno disk s) list' := by
  have apart : Apart s list p bno := sound.inHand (by rw [phase]; rfl)
  have free : s.fp.sFlock = 0 := by
    by_contra held
    rcases sound.full held with zero | full <;> omega
  have chain := sound.chain
  obtain ⟨k, size⟩ := Nat.exists_eq_add_one.mpr positive
  rw [FreeList, front_free free, size] at chain
  have written : Linked (update s.fblk bno disk) (k + 1) s.fp.sFree list := chain.write fun b member => by
    have differ : b ≠ bno := fun same => apart.off (same ▸ member)
    exact update_of_ne differ ..
  obtain ⟨list', pushed, perm⟩ := (@Linked.push _ _ bno _ _) written
  refine ⟨list', sound.push (fun q _ => sound.unlocked free q) apart perm ⟨rfl, rfl⟩ free less ?_ ⟨rfl, rfl, rfl, rfl⟩⟩
  rw [size]
  exact pushed

end

/-! ## Runs -/

def Step (s : System) (event : Event) (t : System) : Prop := run event s = some t

theorem Sound.step {event : Event} (sound : Sound initial s list) (step : Step s event t) (room : Room s event) :
    ∃ list', Sound initial t list' := by
  cases event with
  | alloc p =>
    simp only [Step, run] at step
    split at step <;> rename_i idle
    · cases step
      exact sound.blkalloc (by rw [idle]; rfl) (by rw [idle]; rfl)
    · cases step
  | free p bno incore =>
    simp only [Step, run] at step
    split at step <;> rename_i given
    · obtain ⟨idle, own⟩ := given
      cases step
      obtain ⟨good, off⟩ := sound.owned bno own
      have free (b : Nat) (there : update s.owned bno false b = true) : s.owned b = true := by
        by_cases same : b = bno
        · rw [same, update_self] at there
          cases there
        · rwa [update_of_ne same] at there
      have sound' : Sound initial { s with owned := update s.owned bno false } list :=
        ⟨sound.chain, sound.nodup, sound.bound, sound.first, sound.range, fun b there => sound.owned b (free b there),
          fun q b there => ⟨(sound.hand q b there).1, (sound.hand q b there).2.1, Bool.eq_false_iff.mpr fun held =>
            Bool.eq_false_iff.mp (sound.hand q b there).2.2 (free b held)⟩,
          sound.apart, sound.single, sound.locked, sound.reading, sound.full, sound.linking, sound.count⟩
      refine sound'.blkfree (by rw [show s.phase p = _ from idle]; rfl) ⟨good, off, update_self .., fun q _ there => ?_⟩
      have unowned := (sound.hand q bno there).2.2
      rw [own] at unowned
      cases unowned
    · cases step
  | resume p incore disk =>
    simp only [Step, run] at step
    cases phase : s.phase p with
    | idle =>
      rw [phase] at step
      cases step
    | allocWait =>
      rw [phase] at step
      cases step
      exact sound.blkalloc (by rw [phase]; rfl) (by rw [phase]; rfl)
    | allocRead bno =>
      rw [phase] at step
      cases step
      exact sound.allocResume phase
    | freeWait bno =>
      rw [phase] at step
      cases step
      exact sound.blkfree (by rw [phase]; rfl) (sound.inHand (by rw [phase]; rfl))
    | freeLink bno =>
      rw [phase] at step
      cases step
      exact ⟨_, sound.linkResume phase⟩
    | freeStale bno =>
      rw [phase] at step
      cases step
      obtain ⟨positive, less⟩ := room p incore disk bno rfl phase
      exact sound.staleResume phase positive less
  | write bno content =>
    simp only [Step, run] at step
    split at step <;> rename_i own
    · cases step
      refine ⟨list, ?_, sound.nodup, sound.bound, sound.first, sound.range, sound.owned, sound.hand, sound.apart, sound.single,
        sound.locked, sound.reading, sound.full, sound.linking, sound.count⟩
      refine sound.chain.write fun b member => ?_
      have differ : b ≠ bno := fun same => (sound.owned bno own).2 (same ▸ member)
      exact update_of_ne differ ..
    · cases step

theorem blkalloc_freed : (blkalloc p s).freed = s.freed := by
  have finish (bno : Nat) (t : System) : (allocEnd p bno t).freed = t.freed := by
    rw [allocEnd]
    split <;> rfl
  rw [blkalloc]
  split
  · rfl
  · split
    · rfl
    · dsimp only
      split
      · rfl
      · rw [finish]

theorem blkfree_returned : (blkfree p bno incore s).returned = s.returned := by
  rw [blkfree]
  split
  · rfl
  · split
    · rfl
    · dsimp only
      repeat' split
      all_goals rfl

/-- A step does not both free and return a block. -/
theorem Step.log {event : Event} (step : Step s event t) : t.freed = s.freed ∨ t.returned = s.returned := by
  simp only [Step, run] at step
  split at step
  · split at step <;> cases step
    exact .inl blkalloc_freed
  · split at step <;> cases step
    exact .inr blkfree_returned
  · split at step <;> cases step
    · exact .inl blkalloc_freed
    · refine .inl ?_
      rw [allocResume, allocEnd]
      split <;> rfl
    · exact .inr blkfree_returned
    · exact .inr rfl
    · exact .inr rfl
  · split at step <;> cases step
    exact .inl rfl

end

/-- A file system in which no call is under way; its free blocks. -/
structure Start (s : System) (list : List Nat) : Prop where
  idle : ∀ p, s.phase p = .idle
  unlocked : s.fp.sFlock = 0
  chain : FreeList s list
  nodup : list.Nodup
  bound : s.fp.sNfree ≤ nicfree
  first : 0 < s.fp.sIsize
  range : ∀ b ∈ list, badblock s.fp b = false
  owned : ∀ b, s.owned b = true → badblock s.fp b = false ∧ b ∉ list
  fresh : s.returned = [] ∧ s.freed = []

theorem Start.sound {s : System} {list : List Nat} (start : Start s list) : Sound list s list := by
  have hand (p : Nat) : (s.phase p).hand = none := by rw [start.idle p]; rfl
  have locks (p : Nat) : (s.phase p).locks = false := by rw [start.idle p]; rfl
  refine ⟨start.chain, start.nodup, start.bound, start.first, start.range, start.owned, fun p b own => ?_, fun p q b own => ?_,
    fun p q own => ?_, fun p own => ?_, fun p b own => ?_, fun held => absurd start.unlocked held, fun p b own => ?_, fun b => ?_⟩
  · rw [hand] at own; cases own
  · rw [hand] at own; cases own
  · rw [locks] at own; cases own
  · rw [locks] at own; cases own
  · rw [start.idle] at own; cases own
  · rw [start.idle] at own; cases own
  · rw [start.fresh.1, start.fresh.2]

/-- Where each `blkfree` that has waited for a leftover buffer finds room behind the first number, the
free blocks are at any time those of the start without the ones returned and with the ones freed. -/
theorem blocks_conserved (s₀ : System) (initial : List Nat) (start : Start s₀ initial) (s : System)
    (reached : Reaches (· = s₀) Step Room s) :
    s.fp.sNfree ≤ nicfree ∧ ∃ list, FreeList s list ∧ (∀ list', FreeList s list' → list' = list) ∧ list.Nodup ∧
      (∀ b, list.count b + s.returned.count b = initial.count b + s.freed.count b) ∧
      ∀ event t b, Step s event t → Room s event → t.returned = b :: s.returned → b ∈ list := by
  have sound : ∃ list, Sound initial s list := by
    induction reached with
    | start first => exact ⟨initial, first ▸ start.sound⟩
    | next _ step room ih =>
      obtain ⟨list, sound⟩ := ih
      exact sound.step step room
  obtain ⟨list, sound⟩ := sound
  refine ⟨sound.bound, list, sound.chain, fun _ other => other.unique sound.chain, sound.nodup, sound.count,
    fun event t b step room returned => ?_⟩
  have freed : t.freed = s.freed := by
    refine step.log.resolve_right fun same => ?_
    rw [returned] at same
    exact List.cons_ne_self _ _ same
  obtain ⟨list', after⟩ := sound.step step room
  have before := sound.count b
  have count := after.count b
  rw [returned, freed, List.count_cons_self] at count
  exact List.count_pos_iff.mp (by omega)

/-- A file system with `n` free blocks, all of them in the superblock, and two blocks in files. -/
def volume (n : Nat) : System where
  fp := ⟨2, 1000, n + 1, fun i => if i = 0 then 0 else i + 10, 0, n⟩
  fblk _ := ⟨0, fun _ => 0⟩
  phase _ := .idle
  owned b := b = 500 || b = 501
  returned := []
  freed := []

theorem volume_start (n : Nat) (few : n < nicfree) :
    Start (volume n) ((List.range n).map fun i => (volume n).fp.sFree (i + 1)) := by
  have number (i : Nat) : (volume n).fp.sFree (i + 1) = i + 11 := by simp [volume]
  have bounds (b : Nat) (member : b ∈ (List.range n).map fun i => (volume n).fp.sFree (i + 1)) : 2 ≤ b ∧ b < 500 := by
    obtain ⟨i, below, rfl⟩ := List.mem_map.mp member
    have less := List.mem_range.mp below
    simp only [number, nicfree] at few ⊢
    omega
  refine ⟨fun _ => rfl, rfl, .last rfl, ?_, few, (by decide : 0 < 2), fun b member => ?_, fun b own => ?_, rfl, rfl⟩
  · refine List.Nodup.map (fun i j same => ?_) List.nodup_range
    simpa [number] using same
  · have inside := bounds b member
    show (decide (b < 2) || decide (1000 ≤ b)) = false
    simp only [Bool.or_eq_false_iff, decide_eq_false_iff_not]
    omega
  · have places : b = 500 ∨ b = 501 := by simpa [volume] using own
    refine ⟨?_, fun member => ?_⟩
    · rcases places with rfl | rfl <;> rfl
    · have inside := bounds b member
      omega

/-- A block is allocated. -/
theorem blocks_conserved_alloc : ∃ s list, Start (volume 3) [11, 12, 13] ∧ Reaches (· = volume 3) Step Room s ∧
    FreeList s list ∧ s.returned = [13] ∧ list.count 13 + s.returned.count 13 = 1 := by
  have start : Start (volume 3) [11, 12, 13] := volume_start 3 (by decide)
  have reached : Reaches (· = volume 3) Step Room (blkalloc 1 (volume 3)) :=
    .next (.start rfl) (show Step (volume 3) (.alloc 1) _ from rfl) nofun
  obtain ⟨_, list, chain, _, _, count, _⟩ := blocks_conserved (volume 3) [11, 12, 13] start _ reached
  exact ⟨_, list, start, reached, chain, rfl, count 13⟩

/-- Two processes free a block each, and the first one waits for a buffer after its test of `s_nfree`. -/
theorem free_overflows : ∃ s list, Start (volume 48) list ∧ Reaches (· = volume 48) Step (fun _ _ => True) s ∧
    ¬ s.fp.sNfree ≤ nicfree := by
  have result : ∃ t, [.free 1 500 true, .free 2 501 false, .resume 1 false ⟨0, fun _ => 0⟩].foldlM (fun s event => run event s)
      (volume 48) = some t ∧ t.fp.sNfree = 51 := ⟨_, rfl, rfl⟩
  obtain ⟨t, last, many⟩ := result
  refine ⟨t, _, volume_start 48 (by decide), Reaches.events (fun _ _ _ => id) (fun _ _ => trivial) (.start rfl) last, ?_⟩
  rw [many]
  decide

end Svr4.S5.Blocks
