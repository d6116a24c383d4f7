import Mathlib
import Svr4.Foundation.Execution

/-! The free inodes of an S5 file system.

A process sleeps while `s_ilock` is set, in `iget`, and in `bread` when it looks through the
i-list. Between the sleeps `i_mode` and `di_mode` are changed together. An inode number has
16 bits, which are enough for the i-list.
-/

namespace Svr4.S5.Ilist

open Function

def nicinod : Nat := 100

/-- `struct filsys`, as far as it is about inodes. -/
structure Filsys where
  sIsize : Nat
  sNinode : Nat
  sInode : Nat → Nat
  sIlock : Nat
  sTinode : Nat

/-- Where a process sleeps. -/
inductive Phase where
  | idle
  | allocWait (mode : Nat)
  | allocIget (ino mode : Nat)
  | allocScan (mode : Nat)
  | freeWait (ino : Nat)
  deriving DecidableEq, Repr

/-- Who has locked an inode. -/
inductive Lock where
  | none
  | user
  | ifree
  deriving DecidableEq, Repr

/-- `core` is the mode of an inode that is in core, `disk` is that of the inode on the disk. -/
structure System where
  fp : Filsys
  disk : Nat → Nat
  core : Nat → Option Nat
  lock : Nat → Lock
  phase : Nat → Phase

/-- What `ialloc` returns. -/
inductive Result where
  | inode (ino : Nat)
  | enospc
  | enfile
  deriving DecidableEq, Repr

inductive Event where
  | alloc (p mode : Nat)
  | free (p ino : Nat)
  /-- `full` says whether the inode table is full. -/
  | resume (p : Nat) (full : Bool)
  | lock (ino : Nat)
  | chmod (ino mode : Nat)
  | update (ino : Nat)
  | unlock (ino : Nat)
  | evict (ino : Nat)
  deriving DecidableEq, Repr

def sleepIn (p : Nat) (phase : Phase) (s : System) : System := { s with phase := update s.phase p phase }

section
variable (inoshift : Nat) -- `vfs_inoshift`

def vfsInopb : Nat := 2 ^ inoshift

/-- `FsITOD`. -/
def fsItod (x : Nat) : Nat := (x + (2 * vfsInopb inoshift - 1)) >>> inoshift

/-- `FsINOS`. -/
def fsInos (x : Nat) : Nat := (x >>> inoshift) <<< inoshift + 1

/-- The last inode of the i-list. -/
def inodes (fp : Filsys) : Nat := (fp.sIsize - 2) * vfsInopb inoshift

/-! ## Looking through the i-list -/

/-- The inodes of one block. -/
def scanBlock (disk : Nat → Nat) : Nat → Nat → Filsys → Filsys
  | 0, _, fp => fp
  | i + 1, ino, fp =>
    if fp.sNinode = 0 then fp
    else if disk ino = 0 then
      scanBlock disk i (ino + 1)
        { fp with sNinode := fp.sNinode - 1, sInode := update fp.sInode (fp.sNinode - 1) ino }
    else scanBlock disk i (ino + 1) fp

def scanBlocks (disk : Nat → Nat) : Nat → Nat → Filsys → Filsys
  | 0, _, fp => fp
  | adr + 1, ino, fp =>
    let fp := scanBlock disk (vfsInopb inoshift) ino fp
    if fp.sNinode = 0 then fp else scanBlocks disk adr (ino + vfsInopb inoshift) fp

/-- From the first `bread` to the test that something has been found. -/
def scanIlist (disk : Nat → Nat) (fp : Filsys) : Filsys :=
  let ino := fsInos inoshift (fp.sInode 0)
  let fp := scanBlocks inoshift disk (fp.sIsize - fsItod inoshift ino) ino fp
  if 0 < fp.sNinode then { fp with sInode := update (update fp.sInode (fp.sNinode - 1) 0) 0 0 } else fp

/-! ## Allocating -/

def outOfInodes (p : Nat) (s : System) : Option Result × System :=
  (some .enospc, sleepIn p .idle { s with fp := { s.fp with sNinode := 0, sTinode := 0, sIlock := 0 } })

/-- From `loop1`, to `iget` or to the first `bread`. -/
def loop1 (p mode : Nat) (s : System) : Option Result × System :=
  let n := s.fp.sNinode - 1
  let ino := s.fp.sInode n
  let s' := { s with fp := { s.fp with sNinode := n } }
  if 0 < s.fp.sNinode ∧ ino ≠ 0 then (none, sleepIn p (.allocIget ino mode) s')
  else if 0 < s.fp.sTinode then (none, sleepIn p (.allocScan mode) { s with fp := { s.fp with sNinode := nicinod } })
  else outOfInodes p s'

def ialloc (p mode : Nat) (s : System) : Option Result × System :=
  if s.fp.sIlock ≠ 0 then (none, sleepIn p (.allocWait mode) s)
  else loop1 p mode { s with fp := { s.fp with sIlock := 1 } }

def scanResume (p mode : Nat) (s : System) : Option Result × System :=
  let s := { s with fp := scanIlist inoshift s.disk s.fp }
  if s.fp.sNinode ≠ nicinod then loop1 p mode { s with fp := { s.fp with sNinode := nicinod } }
  else outOfInodes p s

/-- From the end of `iget`; it goes on sleeping while the inode is locked. -/
def igetResume (p ino mode : Nat) (full : Bool) (s : System) : Option Result × System :=
  if s.core ino = none ∧ full then (some .enfile, sleepIn p .idle { s with fp := { s.fp with sIlock := 0 } })
  else if s.lock ino ≠ .none then (none, s)
  else
    let iMode := (s.core ino).getD (s.disk ino)
    if iMode = 0 then
      (some (.inode ino), sleepIn p .idle { s with
        core := update s.core ino (some mode)
        disk := update s.disk ino mode
        lock := update s.lock ino .user
        fp := { s.fp with sTinode := s.fp.sTinode - 1, sIlock := 0 } })
    else
      -- Inode was allocated after all.
      (none, sleepIn p (.allocWait mode) { s with
        core := update s.core ino (some iMode)
        disk := update s.disk ino iMode
        fp := { s.fp with sIlock := 0 } })

/-! ## Freeing -/

def remember (ino : Nat) (fp : Filsys) : Filsys :=
  if nicinod ≤ fp.sNinode ∨ fp.sNinode = 0 then
    if ino < fp.sInode 0 then { fp with sInode := update fp.sInode 0 ino } else fp
  else { fp with sInode := update fp.sInode fp.sNinode ino, sNinode := fp.sNinode + 1 }

/-- From the test of `s_ilock`. -/
def ifreeLocked (p ino : Nat) (s : System) : System :=
  if s.fp.sIlock ≠ 0 then sleepIn p (.freeWait ino) s
  else
    sleepIn p .idle { s with
      core := update s.core ino (some 0)
      disk := update s.disk ino 0
      lock := update s.lock ino .user
      fp := remember ino { s.fp with sTinode := s.fp.sTinode + 1 } }

def ifree (p ino iMode : Nat) (s : System) : System :=
  if iMode = 0 then s else ifreeLocked p ino { s with lock := update s.lock ino .ifree }

/-! ## Systems -/

/-- `ialloc` is called with a mode that says what is made, and `ifree` with an inode that the process
has locked. Other processes lock an inode, change its mode, write it to the disk, and let it go. -/
def run (event : Event) (s : System) : Option (Option Result × System) :=
  match event with
  | .alloc p mode => if s.phase p = .idle ∧ mode ≠ 0 then some (ialloc p mode s) else none
  | .free p ino =>
    if s.phase p = .idle ∧ s.lock ino = .user then (s.core ino).map fun iMode => (none, ifree p ino iMode s) else none
  | .resume p full =>
    match s.phase p with
    | .idle => none
    | .allocWait mode => some (ialloc p mode s)
    | .allocIget ino mode => some (igetResume p ino mode full s)
    | .allocScan mode => some (scanResume inoshift p mode s)
    | .freeWait ino => some (none, ifreeLocked p ino s)
  | .lock ino =>
    if s.lock ino = .none ∧ 1 ≤ ino ∧ ino ≤ inodes inoshift s.fp then
      some (none, { s with
        lock := update s.lock ino .user
        core := update s.core ino (some ((s.core ino).getD (s.disk ino))) })
    else none
  | .chmod ino mode =>
    if s.lock ino = .user ∧ mode ≠ 0 ∧ (s.core ino).getD 0 ≠ 0 then
      some (none, { s with core := update s.core ino (some mode) })
    else none
  | .update ino =>
    if s.lock ino = .user then (s.core ino).map fun iMode => (none, { s with disk := update s.disk ino iMode }) else none
  | .unlock ino => if s.lock ino = .user then some (none, { s with lock := update s.lock ino .none }) else none
  | .evict ino =>
    if s.lock ino = .none ∧ s.core ino = some (s.disk ino) then some (none, { s with core := update s.core ino none })
    else none

end

end Svr4.S5.Ilist
