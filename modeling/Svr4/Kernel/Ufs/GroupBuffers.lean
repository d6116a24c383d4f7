import Svr4.Kernel.Ufs.Inodes

/-! The buffer of a cylinder group: what `free`, `ufs_ifree`, `fragextend`, `alloccg` and `ialloccg` do with it.

`bread` gives a buffer with any group, or with an error. A panic gives no result, and a call that returns before `bread`
gives no buffer. `fragacct`, `alloccgblk` and `mapsearch` get the group and not its buffer: they do with it what they like.
What is stored into the super block, which is not in the buffer, and the assertions are left out.
-/

namespace Svr4.Ufs.Buffers

open Function (update)

def cgMagic : Nat := 0x090255

def nrpos : Nat := 8

/-- The part of `struct fs` that is looked at. -/
structure Super where
  fsBsize : Nat
  fsFsize : Nat
  fsFrag : Nat
  fsIpg : Nat
  fsNcg : Nat
  fsFpg : Nat
  fsSize : Nat
  fsNspf : Nat
  fsSpc : Nat
  fsNsect : Nat
  csNbfree : Nat → Int
  csNffree : Nat → Int
  csNifree : Nat → Int

/-- `struct cg`, as it is in its block. -/
structure Group extends Cg where
  cgTime : Nat
  cgMagic : Nat
  csNbfree : Int
  csNffree : Int
  cgRotor : Nat
  cgFrotor : Nat
  cgFrsum : Nat → Int
  cgBtot : Nat → Int
  cgB : Nat → Nat → Int
  cgFree : Bytes

/-- What is done with a buffer. -/
inductive Use where
  | store
  | brelse
  | bdwrite
  | bwrite
  deriving DecidableEq, Repr

/-- A buffer, with what was done with it since `bread`. -/
structure Buf where
  cgp : Group
  uses : List Use

def Buf.store (bp : Buf) (change : Group → Group) : Buf := ⟨change bp.cgp, bp.uses ++ [.store]⟩

def Buf.pass (bp : Buf) (use : Use) : Buf := { bp with uses := bp.uses ++ [use] }

/-- One store after the other. -/
def Buf.stores (bp : Buf) (list : List Nat) (change : Nat → Group → Group) : Buf := list.foldl (fun bp i => bp.store (change i)) bp

/-- The first number from `i` on for which the test holds, or the one behind the last. -/
def first (test : Nat → Bool) : Nat → Nat → Nat
  | 0, i => i
  | n + 1, i => if test i then i else first test n (i + 1)

section
variable (fs : Super) (error : Bool) (disk : Group) (time : Nat) (fragacct : Nat → (Nat → Int) → Int → Nat → Int)
  (alloccgblk : Group → Nat → Option (Int × Group)) (mapsearch : Group → Nat → Nat → Option (Int × Group))

/-- The test behind `bread`. -/
def unusable : Bool := error || disk.cgMagic ≠ cgMagic

def bread : Buf := ⟨disk, []⟩

/-- `cg_time` is the first field to be stored. -/
def stamped : Buf := (bread disk).store fun cgp => { cgp with cgTime := time }

/-! ## `free` -/

def blkmap (map : Bytes) (loc : Nat) : Nat := ((map (loc / nbby)).toNat >>> (loc % nbby)) &&& (0xff >>> (nbby - fs.fsFrag))

/-- All fragments of a block are free. -/
def isblock (map : Bytes) (h : Nat) : Bool := (List.range fs.fsFrag).all fun i => ¬ isclr map (h * fs.fsFrag + i)

def setblock (map : Bytes) (h : Nat) : Bytes := (List.range fs.fsFrag).foldl (fun map i => setbit map (h * fs.fsFrag + i)) map

def cbtocylno (bno : Nat) : Nat := bno * fs.fsNspf / fs.fsSpc

def cbtorpos (bno : Nat) : Nat := bno * fs.fsNspf % fs.fsSpc % fs.fsNsect * nrpos / fs.fsNsect

/-- One more free block. -/
def countBlock (bno : Nat) (cgp : Group) : Group :=
  let i := cbtocylno fs bno
  { cgp with
    csNbfree := cgp.csNbfree + 1
    cgB := update cgp.cgB i (update (cgp.cgB i) (cbtorpos fs bno) (cgp.cgB i (cbtorpos fs bno) + 1))
    cgBtot := update cgp.cgBtot i (cgp.cgBtot i + 1) }

/-- The loop over the fragments, which panics at a free one. -/
def freeFrags (bno : Nat) : Nat → Nat → Buf → Option Buf
  | 0, _, bp => some bp
  | n + 1, i, bp =>
    if ¬ isclr bp.cgp.cgFree (bno + i) then none
    else freeFrags bno n (i + 1) (bp.store fun cgp => { cgp with cgFree := setbit cgp.cgFree (bno + i) })

def free (bno size : Nat) : Option (Option Buf) :=
  if fs.fsBsize < size ∨ size % fs.fsFsize ≠ 0 then none
  else if fs.fsSize ≤ bno then some none
  else if unusable error disk then some (some ((bread disk).pass .brelse))
  else
    let bp := stamped disk time
    let bno := bno % fs.fsFpg
    if size = fs.fsBsize then
      if isblock fs bp.cgp.cgFree (bno / fs.fsFrag) then none
      else
        let bp := bp.store fun cgp => { cgp with cgFree := setblock fs cgp.cgFree (bno / fs.fsFrag) }
        some (some ((bp.store (countBlock fs bno)).pass .bdwrite))
    else
      let bbase := bno - bno % fs.fsFrag
      let account (cnt : Int) (cgp : Group) : Group := { cgp with cgFrsum := fragacct (blkmap fs cgp.cgFree bbase) cgp.cgFrsum cnt }
      let frags := size / fs.fsFsize
      (freeFrags bno frags 0 (bp.store (account (-1)))).map fun bp =>
        let bp := (bp.store fun cgp => { cgp with csNffree := cgp.csNffree + frags }).store (account 1)
        let bp := if isblock fs bp.cgp.cgFree (bbase / fs.fsFrag)
          then (bp.store fun cgp => { cgp with csNffree := cgp.csNffree - fs.fsFrag }).store (countBlock fs bbase) else bp
        some (bp.pass .bdwrite)

/-! ## `ufs_ifree` -/

def ufsIfree (ino mode : Nat) : Option Buf :=
  if ino ≥ fs.fsIpg * fs.fsNcg then none
  else if unusable error disk then some ((bread disk).pass .brelse)
  else
    let bp := stamped disk time
    let inot := ino % fs.fsIpg
    if isclr bp.cgp.cgIused inot then some bp
    else
      let bp := bp.store fun cgp =>
        { cgp with
          cgIused := clrbit cgp.cgIused inot
          cgIrotor := if inot < cgp.cgIrotor then inot else cgp.cgIrotor
          cgCs := ⟨if isDirectory mode then cgp.cgCs.csNdir - 1 else cgp.cgCs.csNdir, cgp.cgCs.csNifree + 1⟩ }
      some (bp.pass .bdwrite)

/-! ## `fragextend` and `alloccg` -/

def fragextend (cg bprev osize nsize : Nat) : Nat × Option Buf :=
  if fs.csNffree cg < (nsize - osize) / fs.fsFsize then (0, none)
  else
    let old := osize / fs.fsFsize
    let frags := nsize / fs.fsFsize
    let bbase := bprev % fs.fsFrag
    if (bprev + frags - 1) % fs.fsFrag < bbase then (0, none)
    else if unusable error disk then (0, some ((bread disk).pass .brelse))
    else
      let bp := stamped disk time
      let bno := bprev % fs.fsFpg
      let taken (i : Nat) : Bool := isclr bp.cgp.cgFree (bno + i)
      if (List.range' old (frags - old)).any taken then (0, some (bp.pass .brelse))
      else
        let i := first taken (fs.fsFrag - bbase - frags) frags
        let bp := bp.store fun cgp => { cgp with cgFrsum := update cgp.cgFrsum (i - old) (cgp.cgFrsum (i - old) - 1) }
        let bp := if i ≠ frags
          then bp.store fun cgp => { cgp with cgFrsum := update cgp.cgFrsum (i - frags) (cgp.cgFrsum (i - frags) + 1) } else bp
        let bp := bp.stores (List.range' old (frags - old)) fun i cgp =>
          { cgp with cgFree := clrbit cgp.cgFree (bno + i), csNffree := cgp.csNffree - 1 }
        (bprev, some (bp.pass .bdwrite))

def alloccg (cg bpref size : Nat) : Option (Int × Option Buf) :=
  if fs.csNbfree cg = 0 ∧ size = fs.fsBsize then some (0, none)
  else if error = true ∨ disk.csNbfree = 0 ∧ size = fs.fsBsize then some (0, some ((bread disk).pass .brelse))
  else
    let bp := stamped disk time
    let frags := size / fs.fsFsize
    let allocsiz := first (fun i => bp.cgp.cgFrsum i ≠ 0) (fs.fsFrag - frags) frags
    if size = fs.fsBsize then
      (alloccgblk bp.cgp bpref).map fun (bno, cgp) => (bno, some ((bp.store fun _ => cgp).pass .bdwrite))
    else if allocsiz = fs.fsFrag then
      if bp.cgp.csNbfree = 0 then some (0, some (bp.pass .brelse))
      else
        (alloccgblk bp.cgp bpref).map fun (bno, cgp) =>
          let bpref := (bno % fs.fsFpg).toNat
          let i := fs.fsFrag - frags
          let bp := (bp.store fun _ => cgp).stores (List.range' frags i) fun i cgp => { cgp with cgFree := setbit cgp.cgFree (bpref + i) }
          let bp := bp.store fun cgp =>
            { cgp with csNffree := cgp.csNffree + i, cgFrsum := update cgp.cgFrsum i (cgp.cgFrsum i + 1) }
          (bno, some (bp.pass .bdwrite))
    else
      (mapsearch bp.cgp bpref allocsiz).map fun (bno, cgp) =>
        let bp := bp.store fun _ => cgp
        if bno < 0 then (0, some (bp.pass .brelse))
        else
          let bp := bp.stores (List.range frags) fun i cgp => { cgp with cgFree := clrbit cgp.cgFree (bno.toNat + i) }
          let bp := bp.store fun cgp =>
            { cgp with
              csNffree := cgp.csNffree - frags
              cgFrsum := update cgp.cgFrsum allocsiz (cgp.cgFrsum allocsiz - 1) }
          let bp := if frags ≠ allocsiz then bp.store fun cgp =>
            { cgp with cgFrsum := update cgp.cgFrsum (allocsiz - frags) (cgp.cgFrsum (allocsiz - frags) + 1) } else bp
          (cg * fs.fsFpg + bno, some (bp.pass .bdwrite))

/-! ## `ialloccg` -/

def ialloccg (cg ipref mode : Nat) : Option (Nat × Option Buf) :=
  if fs.csNifree cg = 0 then some (0, none)
  else if unusable error disk = true ∨ disk.cgCs.csNifree = 0 then some (0, some ((bread disk).pass .brelse))
  else
    let bp := stamped disk time
    let gotit (bp : Buf) (ipref : Nat) : Nat × Option Buf :=
      let bp := bp.store fun cgp =>
        { cgp with
          cgIused := setbit cgp.cgIused ipref
          cgCs := ⟨if isDirectory mode then cgp.cgCs.csNdir + 1 else cgp.cgCs.csNdir, cgp.cgCs.csNifree - 1⟩ }
      (cg * fs.fsIpg + ipref, some (bp.pass .bdwrite))
    if ipref ≠ 0 ∧ isclr bp.cgp.cgIused (ipref % fs.fsIpg) then some (gotit bp (ipref % fs.fsIpg))
    else (scanInodes fs.fsIpg bp.cgp.toCg).map fun ipref =>
      gotit (bp.store fun cgp => { cgp with cgIrotor := ipref }) ipref

end

/-! ## Released once -/

/-- The buffer is still held. -/
def Held (bp : Buf) : Prop := ∀ use ∈ bp.uses, use = .store

/-- The buffer was handed on once, and nothing was done with it behind that. -/
def Released (bp : Buf) : Prop := ∃ held use, Held held ∧ use ≠ .store ∧ bp.uses = (held.pass use).uses

section
variable {fs : Super} {error : Bool} {disk : Group} {time : Nat} {fragacct : Nat → (Nat → Int) → Int → Nat → Int}
  {alloccgblk : Group → Nat → Option (Int × Group)} {mapsearch : Group → Nat → Nat → Option (Int × Group)}
  {bp bp' : Buf} {change : Group → Group} {cg bprev bpref osize nsize size ipref mode ino bno n i : Nat}

theorem bread_held : Held (bread disk) := nofun

theorem Held.store (held : Held bp) : Held (bp.store change) := by
  intro use member
  rcases List.mem_append.mp member with member | member
  · exact held use member
  · exact List.mem_singleton.mp member

theorem Held.stores (held : Held bp) (list : List Nat) (change : Nat → Group → Group) : Held (bp.stores list change) := by
  induction list generalizing bp with
  | nil => exact held
  | cons i list ih => exact ih held.store

theorem Held.brelse (held : Held bp) : Released (bp.pass .brelse) := ⟨bp, .brelse, held, by decide, rfl⟩

theorem Held.bdwrite (held : Held bp) : Released (bp.pass .bdwrite) := ⟨bp, .bdwrite, held, by decide, rfl⟩

theorem Held.not_released (held : Held bp) : ¬ Released bp := by
  rintro ⟨before, use, _, other, uses⟩
  refine other (held use ?_)
  rw [uses]
  exact List.mem_append_right _ (List.mem_singleton_self _)

theorem stamped_held : Held (stamped disk time) := bread_held.store

theorem freeFrags_held (held : Held bp) (freed : freeFrags bno n i bp = some bp') : Held bp' := by
  induction n generalizing i bp with
  | zero =>
    obtain rfl := Option.some.inj freed
    exact held
  | succ n ih =>
    rw [freeFrags, Option.ite_none_left_eq_some] at freed
    exact ih held.store freed.2

theorem free_released (call : free fs error disk time fragacct bno size = some (some bp)) : Released bp := by
  unfold free at call
  dsimp only at call
  split at call
  · cases call
  split at call
  · cases call
  split at call
  · cases call
    exact bread_held.brelse
  split at call
  · split at call
    · cases call
    · cases call
      exact stamped_held.store.store.bdwrite
  · obtain ⟨freed, frees, same⟩ := Option.map_eq_some_iff.mp call
    have held := freeFrags_held stamped_held.store frees
    cases same
    split
    · exact held.store.store.store.store.bdwrite
    · exact held.store.store.bdwrite

theorem fragextend_released (call : (fragextend fs error disk time cg bprev osize nsize).2 = some bp) : Released bp := by
  unfold fragextend at call
  dsimp only at call
  split at call
  · cases call
  split at call
  · cases call
  split at call
  · cases call
    exact bread_held.brelse
  split at call
  · cases call
    exact stamped_held.brelse
  · cases call
    split
    · exact (Held.stores stamped_held.store.store _ _).bdwrite
    · exact (Held.stores stamped_held.store _ _).bdwrite

theorem alloccg_released {result : Int}
    (call : alloccg fs error disk time alloccgblk mapsearch cg bpref size = some (result, some bp)) : Released bp := by
  unfold alloccg at call
  dsimp only at call
  split at call
  · cases call
  split at call
  · cases call
    exact bread_held.brelse
  split at call
  · obtain ⟨found, -, same⟩ := Option.map_eq_some_iff.mp call
    cases same
    exact stamped_held.store.bdwrite
  split at call
  · split at call
    · cases call
      exact stamped_held.brelse
    · obtain ⟨found, -, same⟩ := Option.map_eq_some_iff.mp call
      cases same
      exact (Held.stores stamped_held.store _ _).store.bdwrite
  · obtain ⟨⟨bno, cgp⟩, -, same⟩ := Option.map_eq_some_iff.mp call
    split at same
    · cases same
      exact stamped_held.store.brelse
    · cases same
      split
      · exact (Held.stores stamped_held.store _ _).store.store.bdwrite
      · exact (Held.stores stamped_held.store _ _).store.bdwrite

theorem ialloccg_released (call : ialloccg fs error disk time cg ipref mode = some (ino, some bp)) : Released bp := by
  unfold ialloccg at call
  dsimp only at call
  split at call
  · cases call
  split at call
  · cases call
    exact bread_held.brelse
  split at call
  · cases call
    exact stamped_held.store.bdwrite
  · obtain ⟨found, -, same⟩ := Option.map_eq_some_iff.mp call
    cases same
    exact stamped_held.store.store.bdwrite

theorem ifree_released_iff (call : ufsIfree fs error disk time ino mode = some bp) :
    Released bp ↔ unusable error disk = true ∨ ¬ isclr disk.cgIused (ino % fs.fsIpg) := by
  unfold ufsIfree at call
  dsimp only at call
  split at call
  · cases call
  split at call
  · next none =>
    cases call
    exact iff_of_true bread_held.brelse (.inl none)
  · next usable =>
    split at call
    · next clear =>
      cases call
      exact iff_of_false stamped_held.not_released (by rintro (none | used); exacts [usable none, used clear])
    · next used =>
      cases call
      exact iff_of_true stamped_held.store.bdwrite (.inr used)

/-- The five routines release the buffer of the group exactly once, but for `ufs_ifree` at an inode that is free already. -/
theorem buffers_released :
    (∀ bno size, free fs error disk time fragacct bno size = some (some bp) → Released bp) ∧
    (∀ cg bprev osize nsize, (fragextend fs error disk time cg bprev osize nsize).2 = some bp → Released bp) ∧
    (∀ cg bpref size bno, alloccg fs error disk time alloccgblk mapsearch cg bpref size = some (bno, some bp) → Released bp) ∧
    (∀ cg ipref mode ino, ialloccg fs error disk time cg ipref mode = some (ino, some bp) → Released bp) ∧
    ∀ ino mode, ufsIfree fs error disk time ino mode = some bp →
      (Released bp ↔ unusable error disk = true ∨ ¬ isclr disk.cgIused (ino % fs.fsIpg)) :=
  ⟨fun _ _ => free_released, fun _ _ _ _ => fragextend_released, fun _ _ _ _ => alloccg_released,
    fun _ _ _ _ => ialloccg_released, fun _ _ => ifree_released_iff⟩

end

/-- A file system of one group, in which no inode is used. -/
def small : Super := ⟨8192, 1024, 8, 16, 1, 64, 64, 2, 64, 16, fun _ => 4, fun _ => 4, fun _ => 16⟩

def group : Group := ⟨⟨⟨0, 16⟩, 0, fun _ => 0⟩, 0, cgMagic, 4, 4, 0, 0, fun _ => 0, fun _ => 0, fun _ _ => 0, fun _ => 0⟩

/-- An inode is allocated, and the buffer is written. -/
theorem buffers_released_inode : ∃ ino bp, ialloccg small false group 1 0 5 0 = some (ino, some bp) ∧ Released bp := by
  obtain ⟨-, -, -, allocates, -⟩ := @buffers_released small false group 1 (fun _ list _ => list) (fun _ _ => none) (fun _ _ _ => none) _
  exact ⟨5, _, rfl, allocates 0 5 0 5 rfl⟩

/-- The inode is free already, and nothing is done with the buffer behind the store of the time. -/
theorem buffer_kept : ∃ bp, ufsIfree small false group 1 5 0 = some bp ∧ bp.uses = [.store] ∧ ¬ Released bp :=
  ⟨stamped group 1, rfl, rfl, stamped_held.not_released⟩

end Svr4.Ufs.Buffers
