import Svr4.Kernel.Bfs.Compaction

/-! A crash at any point of a shift, and of the repairs that follow. -/

namespace Svr4.Bfs.Compaction

section
variable {Block : Type} {sw : Sanityw} {done' : Bool} {fromblock b a : Int} {j : Nat}

/-- File i has blocks, the gap before it is free, and no other file has a block in either. -/
structure Start (disk : Disk Block) (i : Nat) (old : Dirent) (gapsize : Int) : Prop where
  own : disk.dirents[i]? = some old
  gap : 0 < gapsize
  low : 0 < old.sblock - gapsize
  blocks : old.sblock ≤ old.eblock
  apart : ∀ j dir, j ≠ i → disk.dirents[j]? = some dir → dir.ino ≠ 0 → ∀ b, dir.sblock ≤ b → b ≤ dir.eblock →
    b < old.sblock - gapsize ∨ old.eblock < b
  sanity : disk.sanityw = .none

/-- File i has its bytes and its size, perhaps at another place, and nothing else has changed. -/
structure Preserved (disk₀ disk : Disk Block) (i : Nat) (old : Dirent) : Prop where
  file : ∃ dir, disk.dirents[i]? = some dir ∧ dir.ino = old.ino ∧ dir.eblock - dir.sblock = old.eblock - old.sblock ∧
    dir.eoffset - dir.sblock * 512 = old.eoffset - old.sblock * 512 ∧
    ∀ k, 0 ≤ k → k ≤ old.eblock - old.sblock → disk.blocks (dir.sblock + k) = disk₀.blocks (old.sblock + k)
  dirents : ∀ j, j ≠ i → disk.dirents[j]? = disk₀.dirents[j]?
  bytes : ∀ j dir, j ≠ i → disk₀.dirents[j]? = some dir → dir.ino ≠ 0 → ∀ b, dir.sblock ≤ b → b ≤ dir.eblock →
    disk.blocks b = disk₀.blocks b
  sanity : disk.sanityw = .none

/-- The states in which `fsck` may begin. The file is found by its block, by no unused dirent and not by the last
block; it is not found when its dirent is new, or while its old place is whole. A dirent that `fsck` itself
writes is not in the first block, or the old place stays whole. -/
def Repairs (i : Nat) (old : Dirent) (gapsize : Int) (s : State Block) : Event → Prop
  | .fsck =>
    s.disk.sanityw.bfromblock ≠ -1 →
      (∀ j dir, s.disk.dirents[j]? = some dir → dir.ino = 0 → dir.sblock ≤ s.disk.sanityw.bfromblock →
        s.disk.sanityw.bfromblock < dir.eblock →
        s.disk.dirents[i]? = some old ∧ i < j ∧ s.disk.sanityw.bfromblock < old.eblock) ∧
      (s.disk.dirents[i]? = some old →
        if s.disk.sanityw.bfromblock < old.eblock then inSuper i = false ∨ old.eblock - old.sblock < gapsize
        else s.written ≤ old.sblock)
  | _ => True

/-! ## The invariant -/

/-- How far the shift is: the blocks that have been copied, whether the new dirent is written, and the block
of the file in the sanity words. -/
structure Progress where
  copied : Int
  done : Bool
  mark : Option Int

/-- The dirent with the new place. -/
def Dirent.moved (dir : Dirent) (gapsize : Int) : Dirent :=
  ⟨dir.ino, dir.sblock - gapsize, dir.eblock - gapsize, dir.eoffset - gapsize * 512⟩

def marked (old : Dirent) (gapsize : Int) (sw : Sanityw) : Option Int → Prop
  | none => sw = .none
  | some a => sw = .both (old.sblock + a) (old.sblock - gapsize + a) ∨
      sw = ⟨-1, -1, old.sblock + a, old.sblock - gapsize + a⟩

/-- The dirents are as before, but for the one of the file. -/
structure Listed (dirents₀ : List Dirent) (i : Nat) (dir : Dirent) (dirents : List Dirent) : Prop where
  own : dirents[i]? = some dir
  others : ∀ j, j ≠ i → dirents[j]? = dirents₀[j]?

def place (old : Dirent) (gapsize : Int) (done : Bool) : Dirent := if done then old.moved gapsize else old

structure Holds (disk₀ : Disk Block) (i : Nat) (old : Dirent) (gapsize : Int) (p : Progress) (disk : Disk Block) : Prop where
  listed : Listed disk₀.dirents i (place old gapsize p.done) disk.dirents
  marks : marked old gapsize disk.sanityw p.mark
  new : ∀ k, 0 ≤ k → k < p.copied → disk.blocks (old.sblock - gapsize + k) = disk₀.blocks (old.sblock + k)
  whole : ∀ k, 0 ≤ k → k ≤ old.eblock - old.sblock → p.copied ≤ k + gapsize →
    disk.blocks (old.sblock + k) = disk₀.blocks (old.sblock + k)
  rest : ∀ b, b < old.sblock - gapsize ∨ old.eblock < b → disk.blocks b = disk₀.blocks b

/-- The block in the sanity words is neither behind what has been copied nor so far before it that it is overwritten. -/
structure Fair (old : Dirent) (gapsize : Int) (p : Progress) : Prop where
  bounds : 0 ≤ p.copied ∧ p.copied ≤ old.eblock - old.sblock + 1
  finished : p.done = true → p.copied = old.eblock - old.sblock + 1
  open_ : ∀ a, p.mark = some a → 0 ≤ a ∧ a ≤ old.eblock - old.sblock ∧ a ≤ p.copied ∧ p.copied ≤ a + gapsize
  closed : p.mark = none → p.done = true ∨ p.copied ≤ gapsize

/-- A write of the sanity words, with the dirent of the file as it is in the first block. -/
def Sets (dirents₀ : List Dirent) (i : Nat) (old : Dirent) (gapsize : Int) (done : Bool) (sw : Sanityw) (done' : Bool) (w : Write) : Prop :=
  w = .sanity sw ∧ done' = done ∨
    ∃ superblk before, w = .super sw superblk ∧ Listed dirents₀ i (place old gapsize before) superblk ∧
      done' = if inSuper i then before else done

/-- What a write does to the progress. -/
inductive Admits (dirents₀ : List Dirent) (i : Nat) (old : Dirent) (gapsize : Int) (p : Progress) : Write → Progress → Prop where
  | put {w : Write} {a : Int} : Sets dirents₀ i old gapsize p.done (.both (old.sblock + a) (old.sblock - gapsize + a)) p.done w →
      0 ≤ a → a ≤ old.eblock - old.sblock → a ≤ p.copied → p.copied ≤ a + gapsize → Admits dirents₀ i old gapsize p w ⟨p.copied, p.done, some a⟩
  | clear {a : Int} : p.mark = some a → Admits dirents₀ i old gapsize p .clear p
  | clearSuper {w : Write} {a : Int} : p.mark = some a →
      Sets dirents₀ i old gapsize p.done ⟨-1, -1, old.sblock + a, old.sblock - gapsize + a⟩ p.done w → Admits dirents₀ i old gapsize p w p
  | data {a m : Int} : p.done = false → 0 ≤ a → 0 < m → a + m ≤ old.eblock - old.sblock + 1 → m ≤ gapsize →
      a ≤ p.copied → p.copied ≤ a + gapsize → (∀ b, p.mark = some b → a + m ≤ b + gapsize) → p.mark ≠ none →
      Admits dirents₀ i old gapsize p (.data (old.sblock + a) (old.sblock - gapsize + a) (m * 512)) ⟨max p.copied (a + m), false, p.mark⟩
  | inode : p.mark ≠ none → p.copied = old.eblock - old.sblock + 1 →
      Admits dirents₀ i old gapsize p (.inode i (old.moved gapsize)) ⟨p.copied, true, p.mark⟩
  | done {w : Write} {done' : Bool} : Sets dirents₀ i old gapsize p.done .none done' w →
      (done' = true → p.copied = old.eblock - old.sblock + 1) → (done' = true ∨ p.copied ≤ gapsize) →
      Admits dirents₀ i old gapsize p w ⟨p.copied, done', none⟩

/-- A program that goes on from the progress to an end with the sanity words cleared. -/
inductive Good (dirents₀ : List Dirent) (i : Nat) (old : Dirent) (gapsize : Int) : Progress → List Write → Prop where
  | nil {p : Progress} : p.mark = none → Good dirents₀ i old gapsize p []
  | cons {p q : Progress} {w : Write} {writes : List Write} : Admits dirents₀ i old gapsize p w q →
      Good dirents₀ i old gapsize q writes → Good dirents₀ i old gapsize p (w :: writes)

variable {disk₀ disk : Disk Block} {dirents₀ dirents : List Dirent} {i : Nat} {old dir : Dirent} {gapsize : Int} {p q : Progress} {w : Write}

/-! ## Dirents -/

theorem overlay_get (j : Nat) (first : Nat) (superblk dirents : List Dirent) (same : superblk.length = dirents.length) :
    (overlay first superblk dirents)[j]? = if inSuper (first + j) then superblk[j]? else dirents[j]? := by
  induction superblk generalizing first dirents j with
  | nil =>
    cases dirents with
    | nil => simp [overlay]
    | cons => cases same
  | cons old superblk ih =>
    cases dirents with
    | nil => cases same
    | cons dir dirents =>
      cases j with
      | zero =>
        simp only [overlay, List.getElem?_cons_zero, Nat.add_zero]
        split <;> rfl
      | succ j =>
        simp only [overlay, List.getElem?_cons_succ]
        rw [ih j (first + 1) dirents (Nat.succ.inj same), Nat.add_assoc, Nat.add_comm 1 j]

section
variable (listed : Listed dirents₀ i dir dirents)
include listed

theorem Listed.length (inside : i < dirents₀.length) : dirents.length = dirents₀.length := by
  have present : i < dirents.length := (List.getElem?_eq_some_iff.mp listed.own).1
  refine le_antisymm ?_ ?_
  · by_contra longer
    have other := listed.others dirents₀.length (by omega)
    rw [List.getElem?_eq_none (le_refl _), List.getElem?_eq_none_iff] at other
    omega
  · by_contra shorter
    have other := listed.others dirents.length (by omega)
    rw [List.getElem?_eq_none (le_refl _)] at other
    have none := List.getElem?_eq_none_iff.mp other.symm
    omega

theorem Listed.set (next : Dirent) : Listed dirents₀ i next (dirents.set i next) := by
  have present : i < dirents.length := (List.getElem?_eq_some_iff.mp listed.own).1
  refine ⟨by simp [present], fun j differ => ?_⟩
  rw [List.getElem?_set_ne differ.symm]
  exact listed.others j differ

theorem Listed.overlay {superblk : List Dirent} {next : Dirent} (read : Listed dirents₀ i next superblk)
    (inside : i < dirents₀.length) :
    Listed dirents₀ i (if inSuper i then next else dir) (Compaction.overlay 0 superblk dirents) := by
  have same : superblk.length = dirents.length := (read.length inside).trans (listed.length inside).symm
  constructor
  · rw [overlay_get i 0 superblk dirents same, Nat.zero_add]
    split
    · exact read.own
    · exact listed.own
  · intro j differ
    rw [overlay_get j 0 superblk dirents same, Nat.zero_add]
    split
    · exact read.others j differ
    · exact listed.others j differ

end

/-! ## One write -/

theorem Holds.sets {mark : Option Int} (holds : Holds disk₀ i old gapsize p disk)
    (sets : Sets disk₀.dirents i old gapsize p.done sw done' w) (inside : i < disk₀.dirents.length)
    (marks : marked old gapsize sw mark) : Holds disk₀ i old gapsize ⟨p.copied, done', mark⟩ (disk.write w) := by
  obtain ⟨rfl, rfl⟩ | ⟨superblk, before, rfl, read, rfl⟩ := sets
  · exact ⟨holds.listed, marks, holds.new, holds.whole, holds.rest⟩
  · refine ⟨?_, marks, holds.new, holds.whole, holds.rest⟩
    have both := holds.listed.overlay read inside
    show Listed _ i (place old gapsize (if inSuper i then before else p.done)) _
    split at both
    · next super => rwa [if_pos super]
    · next super => rwa [if_neg super]

theorem Holds.data {a m : Int} (holds : Holds disk₀ i old gapsize p disk) (positive : 0 < gapsize) (low : 0 ≤ a) (_nonempty : 0 < m)
    (within : a + m ≤ old.eblock - old.sblock + 1) (behind : a ≤ p.copied) (before : p.copied ≤ a + gapsize) :
    Holds disk₀ i old gapsize ⟨max p.copied (a + m), p.done, p.mark⟩
      (disk.write (.data (old.sblock + a) (old.sblock - gapsize + a) (m * 512))) := by
  have len : m * 512 / 512 = m := Int.mul_ediv_cancel m (by decide)
  have inside : ∀ b, old.sblock - gapsize + a ≤ b → b < old.sblock - gapsize + a + m →
      (disk.write (.data (old.sblock + a) (old.sblock - gapsize + a) (m * 512))).blocks b = disk.blocks (b + gapsize) := by
    intro b first last
    simp only [Disk.write, len]
    rw [if_pos ⟨first, last⟩]
    congr 1
    omega
  have outside : ∀ b, b < old.sblock - gapsize + a ∨ old.sblock - gapsize + a + m ≤ b →
      (disk.write (.data (old.sblock + a) (old.sblock - gapsize + a) (m * 512))).blocks b = disk.blocks b := by
    intro b out
    exact if_neg (by omega)
  constructor
  case listed => exact holds.listed
  case marks => exact holds.marks
  case new =>
    intro k first last
    have last : k < max p.copied (a + m) := last
    by_cases chunk : a ≤ k ∧ k < a + m
    · rw [inside _ (by omega) (by omega)]
      have source : old.sblock - gapsize + k + gapsize = old.sblock + k := by omega
      rw [source]
      exact holds.whole k first (by omega) (by omega)
    · rw [outside _ (by omega)]
      exact holds.new k first (by omega)
  case whole =>
    intro k first last ahead
    have ahead : max p.copied (a + m) ≤ k + gapsize := ahead
    rw [outside _ (by omega)]
    exact holds.whole k first last (by omega)
  case rest =>
    intro b out
    rw [outside b (by omega)]
    exact holds.rest b out

theorem Holds.write (holds : Holds disk₀ i old gapsize p disk) (start : Start disk₀ i old gapsize)
    (admits : Admits disk₀.dirents i old gapsize p w q) : Holds disk₀ i old gapsize q (disk.write w) := by
  have inside : i < disk₀.dirents.length := (List.getElem?_eq_some_iff.mp start.own).1
  cases admits with
  | put sets => exact holds.sets sets inside (.inl rfl)
  | @clear a mark =>
    refine ⟨holds.listed, ?_, holds.new, holds.whole, holds.rest⟩
    have marks := holds.marks
    rw [mark] at marks ⊢
    rcases marks with both | clear
    · exact .inr (by simp [Disk.write, both, Sanityw.both])
    · exact .inr (by simp [Disk.write, clear])
  | clearSuper mark sets => exact holds.sets sets inside (by rw [mark]; exact .inr rfl)
  | data open_ low some within _ behind before _ _ =>
    have next := holds.data start.gap low some within behind before
    rwa [open_] at next
  | inode =>
    refine ⟨?_, holds.marks, holds.new, holds.whole, holds.rest⟩
    exact holds.listed.set (old.moved gapsize)
  | done sets => exact holds.sets sets inside rfl

theorem Fair.write (fair : Fair old gapsize p) (admits : Admits dirents₀ i old gapsize p w q) : Fair old gapsize q := by
  have bounds := fair.bounds
  cases admits with
  | put _ low high behind before =>
    refine ⟨bounds, fair.finished, ?_, nofun⟩
    rintro b ⟨⟩
    exact ⟨low, high, behind, before⟩
  | clear => exact fair
  | clearSuper => exact fair
  | @data a m _ low some within _ behind before mark marked =>
    refine ⟨?_, nofun, fun b same => ?_, fun none => absurd none marked⟩
    · show 0 ≤ max p.copied (a + m) ∧ max p.copied (a + m) ≤ _
      omega
    · have earlier := fair.open_ b same
      have later := mark b same
      show 0 ≤ b ∧ b ≤ _ ∧ b ≤ max p.copied (a + m) ∧ max p.copied (a + m) ≤ b + gapsize
      omega
  | inode marked all => exact ⟨bounds, fun _ => all, fair.open_, fun none => absurd none marked⟩
  | done _ finished closed => exact ⟨bounds, finished, nofun, fun _ => closed⟩

/-! ## Programs -/

/-- The loop copies what is left of the file, from a block that is in reach. -/
theorem shiftloop_good {put clear : Int → Int → Write} {words : Bool} {rest : List Write}
    (puts : ∀ a, Sets dirents₀ i old gapsize false (.both (old.sblock + a) (old.sblock - gapsize + a)) false
      (put (old.sblock + a) (old.sblock - gapsize + a)))
    (clears : ∀ a p, p.done = false → p.mark = some a →
      Admits dirents₀ i old gapsize p (clear (old.sblock + a) (old.sblock - gapsize + a)) p)
    (small : words = false → old.eblock - old.sblock < gapsize)
    (ends : ∀ q, q.done = false → q.copied = old.eblock - old.sblock + 1 → q.mark ≠ none → Good dirents₀ i old gapsize q rest)
    (fuel : Nat) (a ms : Int) (p : Progress) {toblock : Int} (source : fromblock = old.sblock + a)
    (target : toblock = old.sblock - gapsize + a) (low : 0 ≤ a) (high : a ≤ old.eblock - old.sblock + 1)
    (enough : old.eblock - old.sblock + 1 - a ≤ fuel) (nonempty : 0 < ms) (most : ms ≤ gapsize) (open_ : p.done = false)
    (marked : p.mark ≠ none) (place : ∀ b, p.mark = some b → 0 ≤ b) (behind : a ≤ p.copied) (before : p.copied ≤ a + gapsize)
    (within : p.copied ≤ old.eblock - old.sblock + 1) :
    Good dirents₀ i old gapsize p (shiftloop put clear words old.eblock fuel fromblock toblock (ms * 512) ++ rest) := by
  induction fuel generalizing a ms p fromblock toblock with
  | zero => exact ends p open_ (by omega) marked
  | succ fuel ih =>
    subst source target
    unfold shiftloop
    split
    case isTrue last => exact ends p open_ (by omega) marked
    case isFalse more =>
      obtain ⟨m, least⟩ : ∃ m, m = min ms (old.eblock - old.sblock + 1 - a) := ⟨_, rfl⟩
      have shift : min (ms * 512) ((old.eblock - (old.sblock + a) + 1) * 512) = m * 512 := by omega
      have blocks : m * 512 / 512 = m := Int.mul_ediv_cancel m (by decide)
      simp only [shift, blocks]
      cases words with
      | true =>
        refine .cons (.put (by rw [open_]; exact puts a) low (by omega) behind before) (.cons (.data (by exact open_) low (by omega)
          (by omega) (by omega) behind before ?_ nofun) (.cons (clears a _ rfl rfl) ?_))
        · rintro b ⟨⟩
          omega
        · refine ih (a + m) m _ (by omega) (by omega) (by omega) (by omega) (by omega) (by omega) (by omega) rfl nofun ?_ ?_ ?_ ?_
          · rintro b ⟨⟩
            exact low
          · show a + m ≤ max p.copied (a + m)
            exact Int.le_max_right _ _
          · show max p.copied (a + m) ≤ _
            omega
          · show max p.copied (a + m) ≤ _
            omega
      | false =>
        have gap := small rfl
        refine .cons (.data open_ low (by omega) (by omega) (by omega) behind before (fun b same => ?_) marked) ?_
        · have first := place b same
          omega
        · refine ih (a + m) m _ (by omega) (by omega) (by omega) (by omega) (by omega) (by omega) (by omega) rfl marked place ?_ ?_ ?_
          · show a + m ≤ max p.copied (a + m)
            exact Int.le_max_right _ _
          · show max p.copied (a + m) ≤ _
            omega
          · show max p.copied (a + m) ≤ _
            omega

theorem shifted_eq (aligned : old.eoffset / 512 = old.eblock) (inside : fromblock ≤ old.eblock) :
    old.shifted fromblock gapsize = old.moved gapsize := by
  unfold Dirent.shifted Dirent.moved
  rw [if_pos ⟨aligned, inside⟩]
  congr 1
  omega

theorem ending_good (sets : Sets dirents₀ i old gapsize true .none done' w)
    (safe : done' = true ∨ old.eblock - old.sblock < gapsize) (marked : p.mark ≠ none) (all : p.copied = old.eblock - old.sblock + 1) :
    Good dirents₀ i old gapsize p [.inode i (old.moved gapsize), w] := by
  refine .cons (.inode marked all) (.cons (.done sets (fun _ => all) ?_) (.nil rfl))
  exact safe.imp_right fun short => by show p.copied ≤ gapsize; omega

theorem shiftfile_good (start : Start disk₀ i old gapsize) (aligned : old.eoffset / 512 = old.eblock) :
    Good disk₀.dirents i old gapsize ⟨0, false, none⟩ (shiftfile i old gapsize) := by
  have gap := start.gap
  have blocks := start.blocks
  simp only [shiftfile]
  rw [shifted_eq aligned blocks]
  have first : Admits disk₀.dirents i old gapsize ⟨0, false, none⟩ (.sanity (.both (old.sblock + 0) (old.sblock - gapsize + 0)))
      ⟨0, false, some 0⟩ := .put (.inl ⟨rfl, rfl⟩) (Int.le_refl 0) (by omega) (Int.le_refl 0) (by show (0 : Int) ≤ 0 + gapsize; omega)
  rw [Int.add_zero, Int.add_zero] at first
  refine .cons first ?_
  have most : min bfsbufsize (gapsize * 512) = min 16 gapsize * 512 := by
    unfold bfsbufsize
    omega
  rw [most]
  refine shiftloop_good (fun a => .inl ⟨rfl, rfl⟩) (fun a p _ mark => .clear mark) (fun no => ?_)
    (fun q _ all marked => ending_good (.inl ⟨rfl, rfl⟩) (.inl rfl) marked all) _ 0 _ ⟨0, false, some 0⟩ (Int.add_zero _).symm
    (Int.add_zero _).symm (Int.le_refl 0) (by omega) (by omega) (by omega) (by omega) rfl nofun ?_ (Int.le_refl 0) ?_ ?_
  · have := of_decide_eq_false no
    omega
  · rintro b ⟨⟩
    exact Int.le_refl 0
  · show (0 : Int) ≤ 0 + gapsize
    omega
  · show (0 : Int) ≤ _
    omega

/-! ## The repair -/

theorem finddirent_some (first : Nat) (found : finddirent b first dirents = some (j, dir)) :
    ∃ n, j = first + n ∧ dirents[n]? = some dir ∧ dir.sblock ≤ b ∧ b < dir.eblock ∧
      ∀ m, m < n → ∀ other, dirents[m]? = some other → ¬ (other.sblock ≤ b ∧ b < other.eblock) := by
  induction dirents generalizing first with
  | nil => cases found
  | cons head dirents ih =>
    unfold finddirent at found
    split at found
    case isTrue covers =>
      cases found
      exact ⟨0, rfl, rfl, covers.1, covers.2, fun m before => absurd before (Nat.not_lt_zero m)⟩
    case isFalse misses =>
      obtain ⟨n, rfl, present, low, high, earlier⟩ := ih (first + 1) found
      refine ⟨n + 1, by omega, present, low, high, fun m before other at_ => ?_⟩
      cases m with
      | zero =>
        cases at_
        exact misses
      | succ m => exact earlier m (by omega) other at_

theorem finddirent_none (first n : Nat) (missing : finddirent b first dirents = none) (present : dirents[n]? = some dir) :
    ¬ (dir.sblock ≤ b ∧ b < dir.eblock) := by
  induction dirents generalizing first n with
  | nil => cases present
  | cons head dirents ih =>
    unfold finddirent at missing
    split at missing
    case isTrue => cases missing
    case isFalse misses =>
      cases n with
      | zero =>
        cases present
        exact misses
      | succ n => exact ih (first + 1) n missing present

theorem Listed.rereads {done : Bool} (listed : Listed dirents₀ i (place old gapsize done) dirents) :
    Sets dirents₀ i old gapsize done sw done (.super sw dirents) :=
  .inr ⟨dirents, done, rfl, listed, by split <;> rfl⟩

theorem fsckShiftfile_good (listed : Listed dirents₀ i old dirents) (gap : 0 < gapsize)
    (aligned : old.eoffset / 512 = old.eblock) (safe : inSuper i = false ∨ old.eblock - old.sblock < gapsize)
    (bounds : 0 ≤ p.copied ∧ p.copied ≤ old.eblock - old.sblock + 1) (open_ : p.done = false) (low : 0 ≤ a) (high : old.sblock + a < old.eblock)
    (behind : a ≤ p.copied) (before : p.copied ≤ a + gapsize) :
    Good dirents₀ i old gapsize p (fsckShiftfile dirents i old (old.sblock + a) (old.sblock - gapsize + a)) := by
  have same : old.sblock + a - (old.sblock - gapsize + a) = gapsize := by omega
  simp only [fsckShiftfile, same]
  rw [shifted_eq aligned (Int.le_of_lt high)]
  have read : Listed dirents₀ i (place old gapsize false) dirents := listed
  refine .cons (.put (by rw [open_]; exact read.rereads) low (by omega) behind before) ?_
  have most : min bfsbufsize (gapsize * 512) = min 16 gapsize * 512 := by
    unfold bfsbufsize
    omega
  rw [most]
  refine shiftloop_good (fun a => read.rereads) (fun a p done mark => .clearSuper mark (by rw [done]; exact read.rereads)) ?_ ?_ _ a _
    ⟨p.copied, p.done, some a⟩ rfl rfl low (by omega) (by omega) (by omega) (by omega) open_ nofun ?_ behind before bounds.2
  · intro no
    have := of_decide_eq_false no
    omega
  · intro q _ all marked
    refine ending_good (.inr ⟨dirents, false, rfl, read, rfl⟩) ?_ marked all
    refine safe.imp_left fun outside => ?_
    rw [outside]
    rfl
  · rintro b ⟨⟩
    exact low

theorem Holds.covers (holds : Holds disk₀ i old gapsize p disk) (start : Start disk₀ i old gapsize)
    (differ : j ≠ i) (present : disk.dirents[j]? = some dir) (low : 0 ≤ a) (high : a ≤ old.eblock - old.sblock)
    (covers : dir.sblock ≤ old.sblock + a ∧ old.sblock + a < dir.eblock) : dir.ino = 0 := by
  by_contra used
  rw [holds.listed.others j differ] at present
  have gap := start.gap
  have clear := start.apart j dir differ present used (old.sblock + a) covers.1 (Int.le_of_lt covers.2)
  omega

theorem checkCompaction_good {written : Int} (start : Start disk₀ i old gapsize) (aligned : old.eoffset / 512 = old.eblock)
    (holds : Holds disk₀ i old gapsize p disk) (fair : Fair old gapsize p) (copied : p.copied = written - (old.sblock - gapsize))
    (repairs : Repairs i old gapsize ⟨disk, .down, written⟩ .fsck) :
    Good disk₀.dirents i old gapsize p (checkCompaction disk.sanityw disk.dirents) := by
  have gap := start.gap
  have lowest := start.low
  have bounds := fair.bounds
  have marks := holds.marks
  cases mark : p.mark with
  | none =>
    rw [mark] at marks
    have marks : disk.sanityw = .none := marks
    rw [marks]
    exact .nil mark
  | some a =>
    have ⟨low, high, behind, before⟩ := fair.open_ a mark
    rw [mark] at marks
    have words : disk.sanityw.bfromblock = old.sblock + a ∧ disk.sanityw.btoblock = old.sblock - gapsize + a := by
      rcases marks with both | clear
      · rw [both]
        exact ⟨rfl, rfl⟩
      · rw [clear]
        exact ⟨rfl, rfl⟩
    have inside : (if (disk.sanityw.fromblock = -1 ∨ disk.sanityw.toblock = -1 : Bool) then disk.sanityw.bfromblock else disk.sanityw.fromblock)
        = old.sblock + a ∧ (if (disk.sanityw.fromblock = -1 ∨ disk.sanityw.toblock = -1 : Bool) then disk.sanityw.btoblock else disk.sanityw.toblock)
        = old.sblock - gapsize + a := by
      rcases marks with both | clear
      · rw [both]
        exact ⟨ite_self _, ite_self _⟩
      · rw [clear]
        exact ⟨rfl, rfl⟩
    obtain ⟨unused, found⟩ := repairs (by show disk.sanityw.bfromblock ≠ -1; omega)
    unfold checkCompaction
    rw [if_neg (by omega)]
    simp only [inside.1, inside.2]
    have kept : p = ⟨p.copied, p.done, some a⟩ := by rw [← mark]
    -- The words are completed from their backup, and name the same block.
    have again : ∀ {backup : Bool} {tail : List Write}, Good disk₀.dirents i old gapsize p tail →
        Good disk₀.dirents i old gapsize p
          ((if backup then [.super (.both (old.sblock + a) (old.sblock - gapsize + a)) disk.dirents] else []) ++ tail) := by
      intro backup tail good
      cases backup with
      | false => exact good
      | true =>
        refine .cons (.put holds.listed.rereads low high behind before) ?_
        rwa [← kept]
    refine again ?_
    split
    case h_1 missing =>
      have own := finddirent_none 0 i missing holds.listed.own
      refine .cons (.done holds.listed.rereads fair.finished ?_) (.nil rfl)
      cases done : p.done with
      | true => exact .inl rfl
      | false =>
        have listed := holds.listed.own
        rw [done] at own listed
        have last : ¬ (old.sblock ≤ old.sblock + a ∧ old.sblock + a < old.eblock) := own
        have early := found listed
        rw [if_neg (by show ¬ disk.sanityw.bfromblock < old.eblock; omega)] at early
        have early : written ≤ old.sblock := early
        exact .inr (by omega)
    case h_2 j dir at_ =>
      obtain ⟨n, rfl, present, first, last, earlier⟩ := finddirent_some 0 at_
      rw [Nat.zero_add]
      have same : n = i := by
        by_contra differ
        have free := holds.covers start differ present low high ⟨first, last⟩
        have ⟨own, after, short⟩ := unused n dir present free (by show dir.sblock ≤ disk.sanityw.bfromblock; omega)
          (by show disk.sanityw.bfromblock < dir.eblock; omega)
        have short : disk.sanityw.bfromblock < old.eblock := short
        exact earlier i after old own (by omega)
      subst same
      have open_ : p.done = false := by
        by_contra done
        have done := eq_true_of_ne_false done
        have all := fair.finished done
        have own := holds.listed.own
        rw [done, present] at own
        have moved : dir = old.moved gapsize := Option.some.inj own
        have last : old.sblock + a < old.eblock - gapsize := by rwa [moved] at last
        omega
      have own := holds.listed.own
      have listed := holds.listed
      rw [open_] at own listed
      have dir_eq : dir = old := Option.some.inj (present.symm.trans own)
      subst dir_eq
      have safe := found present
      rw [if_pos (by show disk.sanityw.bfromblock < dir.eblock; omega)] at safe
      exact fsckShiftfile_good listed gap aligned safe bounds open_ low last behind before

/-! ## Runs -/

/-- What the progress says of a state. -/
structure Follows (disk₀ : Disk Block) (i : Nat) (old : Dirent) (gapsize : Int) (p : Progress) (s : State Block) : Prop where
  holds : Holds disk₀ i old gapsize p s.disk
  fair : Fair old gapsize p
  written : p.copied = s.written - (old.sblock - gapsize)
  left : ∀ writes, s.mode = .running writes → Good disk₀.dirents i old gapsize p writes
  ended : s.mode = .up → p.mark = none

theorem begun_follows (start : Start disk₀ i old gapsize) (aligned : old.eoffset / 512 = old.eblock) :
    Follows disk₀ i old gapsize ⟨0, false, none⟩ (begun disk₀ i old gapsize) := by
  have blocks := start.blocks
  have gap := start.gap
  constructor
  case holds =>
    refine ⟨⟨start.own, fun _ _ => rfl⟩, start.sanity, ?_, fun _ _ _ _ => rfl, fun _ _ => rfl⟩
    intro k low high
    have high : k < 0 := high
    omega
  case fair =>
    refine ⟨?_, nofun, nofun, fun _ => .inr ?_⟩
    · show (0 : Int) ≤ 0 ∧ (0 : Int) ≤ _
      omega
    · show (0 : Int) ≤ gapsize
      omega
  case written =>
    show (0 : Int) = old.sblock - gapsize - (old.sblock - gapsize)
    omega
  case left =>
    rintro writes ⟨⟩
    exact shiftfile_good start aligned
  case ended => exact nofun

theorem Admits.copied {written : Int} (same : p.copied = written - (old.sblock - gapsize)) : Admits dirents₀ i old gapsize p w q →
    q.copied = (match w with | .data _ toblock len => max written (toblock + len / 512) | _ => written) - (old.sblock - gapsize) := by
  intro admits
  cases admits with
  | put sets | clearSuper _ sets | done sets =>
    obtain ⟨rfl, -⟩ | ⟨_, _, rfl, -⟩ := sets <;> exact same
  | clear => exact same
  | inode => exact same
  | @data a m =>
    have len : m * 512 / 512 = m := Int.mul_ediv_cancel m (by decide)
    simp only [len]
    omega

theorem Follows.step {s t : State Block} {event : Event} (follows : Follows disk₀ i old gapsize p s) (start : Start disk₀ i old gapsize)
    (aligned : old.eoffset / 512 = old.eblock) (repairs : Repairs i old gapsize s event) (step : Step s event t) :
    ∃ q, Follows disk₀ i old gapsize q t := by
  obtain ⟨disk, mode, written⟩ := s
  unfold Step State.run at step
  split at step
  case h_1 w writes running =>
    have running : mode = .running (w :: writes) := running
    cases follows.left _ running with
    | @cons _ q _ _ admits good =>
      cases step
      refine ⟨q, follows.holds.write start admits, follows.fair.write admits, ?_, ?_, nofun⟩
      · exact Admits.copied follows.written admits
      · rintro _ ⟨⟩
        exact good
  case h_2 running =>
    have running : mode = .running [] := running
    cases follows.left _ running with
    | nil mark =>
      cases step
      exact ⟨p, follows.holds, follows.fair, follows.written, nofun, fun _ => mark⟩
  case h_3 =>
    cases step
    exact ⟨p, follows.holds, follows.fair, follows.written, nofun, nofun⟩
  case h_4 down =>
    have down : mode = .down := down
    subst down
    cases step
    refine ⟨p, follows.holds, follows.fair, follows.written, ?_, nofun⟩
    rintro _ ⟨⟩
    exact checkCompaction_good start aligned follows.holds follows.fair follows.written repairs
  case h_5 => cases step

theorem Follows.preserved {s : State Block} (follows : Follows disk₀ i old gapsize p s) (start : Start disk₀ i old gapsize)
    (up : s.mode = .up) : Preserved disk₀ s.disk i old := by
  have mark := follows.ended up
  have marks := follows.holds.marks
  rw [mark] at marks
  constructor
  case file =>
    cases done : p.done with
    | true =>
      have own := follows.holds.listed.own
      rw [done] at own
      have all := follows.fair.finished done
      refine ⟨old.moved gapsize, own, rfl, ?_, ?_, fun k low high => ?_⟩
      · show old.eblock - gapsize - (old.sblock - gapsize) = _
        omega
      · show old.eoffset - gapsize * 512 - (old.sblock - gapsize) * 512 = _
        omega
      · exact follows.holds.new k low (by omega)
    | false =>
      have own := follows.holds.listed.own
      rw [done] at own
      have short : p.copied ≤ gapsize := by
        rcases follows.fair.closed mark with new | short
        · rw [done] at new
          cases new
        · exact short
      exact ⟨old, own, rfl, rfl, rfl, fun k low high => follows.holds.whole k low high (by omega)⟩
  case dirents => exact follows.holds.listed.others
  case bytes =>
    intro j dir differ present used b low high
    exact follows.holds.rest b (start.apart j dir differ present used b low high)
  case sanity => exact marks

/-- Whenever the kernel or `fsck` has come to its end, nothing is lost. -/
theorem file_kept {s : State Block} (start : Start disk₀ i old gapsize) (aligned : old.eoffset / 512 = old.eblock)
    (reached : Reaches (· = begun disk₀ i old gapsize) Step (Repairs i old gapsize) s) (up : s.mode = .up) :
    Preserved disk₀ s.disk i old := by
  have follows : ∃ p, Follows disk₀ i old gapsize p s := by
    clear up
    induction reached with
    | start first =>
      subst first
      exact ⟨_, begun_follows start aligned⟩
    | next _ step kept ih =>
      obtain ⟨p, follows⟩ := ih
      exact follows.step start aligned kept step
  obtain ⟨p, follows⟩ := follows
  exact follows.preserved start up

end

/-- A disk with one file. -/
def single (dir : Dirent) : Disk Int := ⟨.none, [dir], id⟩

variable {dir : Dirent} {gapsize : Int}

theorem single_start (gap : 0 < gapsize) (low : 0 < dir.sblock - gapsize) (blocks : dir.sblock ≤ dir.eblock) :
    Start (single dir) 0 dir gapsize := by
  refine ⟨rfl, gap, low, blocks, fun j other differ present => ?_, rfl⟩
  cases j with
  | zero => exact absurd rfl differ
  | succ j => cases present

/-- The condition is about `fsck` only. -/
theorem plain_reach {events : List Event} {s t : State Int} (plain : Event.fsck ∉ events)
    (reached : Reaches (· = begun (single dir) 0 dir gapsize) Step (Repairs 0 dir gapsize) s)
    (result : events.foldlM (fun s event => State.run event s) s = some t) :
    Reaches (· = begun (single dir) 0 dir gapsize) Step (Repairs 0 dir gapsize) t := by
  induction events generalizing s with
  | nil =>
    cases result
    exact reached
  | cons event events ih =>
    obtain ⟨u, first, rest⟩ := Option.bind_eq_some_iff.mp result
    have other : event ≠ .fsck := fun same => plain (by rw [same]; exact (.head _))
    refine ih (fun later => plain (.tail _ later)) (reached.next first ?_) rest
    cases event with
    | write | stop | crash => trivial
    | fsck => exact absurd rfl other

/-- A crash after the first write, and a repair. -/
theorem file_kept_repair : ∃ s : State Int, s.mode = .up ∧ Preserved (single ⟨3, 14, 15, 7680⟩) s.disk 0 ⟨3, 14, 15, 7680⟩ := by
  obtain ⟨s, cut, here⟩ : ∃ s, [Event.write, .crash].foldlM (fun s event => State.run event s) (begun (single ⟨3, 14, 15, 7680⟩) 0 ⟨3, 14, 15, 7680⟩ 4)
      = some s ∧ s = ⟨⟨.both 14 10, [⟨3, 14, 15, 7680⟩], id⟩, .down, 10⟩ := ⟨_, rfl, rfl⟩
  have reached := plain_reach (by decide) (.start rfl) cut
  subst here
  have guard : Repairs 0 ⟨3, 14, 15, 7680⟩ 4 (⟨⟨.both 14 10, [⟨3, 14, 15, 7680⟩], id⟩, .down, 10⟩ : State Int) .fsck := by
    intro _
    refine ⟨fun j dir present free => ?_, fun _ => ?_⟩
    · cases j with
      | zero =>
        cases present
        cases free
      | succ j => cases present
    · rw [if_pos (by decide)]
      exact .inr (by decide)
  have repair : Step (⟨⟨.both 14 10, [⟨3, 14, 15, 7680⟩], id⟩, .down, 10⟩ : State Int) .fsck _ := rfl
  obtain ⟨t, rest, up⟩ : ∃ t, [Event.write, .write, .write, .write, .stop].foldlM (fun s event => State.run event s)
      (⟨⟨.both 14 10, [⟨3, 14, 15, 7680⟩], id⟩, .running (checkCompaction (.both 14 10) [⟨3, 14, 15, 7680⟩]), 10⟩ : State Int) = some t ∧
      t.mode = .up := ⟨_, rfl, rfl⟩
  have ended := plain_reach (by decide) (reached.next repair guard) rest
  exact ⟨t, up, file_kept (single_start (by decide) (by decide) (by decide)) (by decide) ended up⟩

/-- The last block of a file of three is in the sanity words when the kernel is cut off. -/
theorem file_lost : ∃ s : State Int, Start (single ⟨3, 11, 13, 6656⟩) 0 ⟨3, 11, 13, 6656⟩ 1 ∧
    Reaches (· = begun (single ⟨3, 11, 13, 6656⟩) 0 ⟨3, 11, 13, 6656⟩ 1) Step (fun _ _ => True) s ∧ s.mode = .up ∧
    ¬ Preserved (single ⟨3, 11, 13, 6656⟩) s.disk 0 ⟨3, 11, 13, 6656⟩ := by
  obtain ⟨s, last, up, dirents, moved⟩ : ∃ s : State Int,
      (List.replicate 8 Event.write ++ [Event.crash, .fsck, .write, .stop]).foldlM
        (fun s event => State.run event s) (begun (single ⟨3, 11, 13, 6656⟩) 0 ⟨3, 11, 13, 6656⟩ 1) = some s ∧ s.mode = .up ∧
      s.disk.dirents = [⟨3, 11, 13, 6656⟩] ∧ s.disk.blocks 11 = 12 := ⟨_, rfl, rfl, rfl, rfl⟩
  refine ⟨s, single_start (by decide) (by decide) (by decide), ?_, up, fun preserved => ?_⟩
  · exact Reaches.events (fun _ _ _ taken => taken) (fun _ _ => trivial) (.start rfl) last
  · obtain ⟨dir, present, -, -, -, bytes⟩ := preserved.file
    rw [dirents] at present
    cases present
    have first : s.disk.blocks 11 = 11 := bytes 0 (Int.le_refl 0) (by decide)
    rw [moved] at first
    cases first

end Svr4.Bfs.Compaction
