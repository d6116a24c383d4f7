import Mathlib.Logic.Function.Basic
import Svr4.Foundation.Execution

/-! The free blocks of an S5 file system.

A process sleeps while the list is locked, in `bread` and in `getblk`. Only whether a count is
positive matters where it is not, so it is a natural number.
-/

namespace Svr4.S5.Blocks

open Function

def nicfree : Nat := 50

/-- `struct fblk`: the head of a chain block. -/
structure Fblk where
  dfNfree : Nat
  dfFree : Nat → Nat

/-- `struct filsys`, as far as it is about blocks. -/
structure Filsys where
  sIsize : Nat
  sFsize : Nat
  sNfree : Nat
  sFree : Nat → Nat
  sFlock : Nat
  sTfree : Nat

/-- Where a process sleeps. -/
inductive Phase where
  | idle
  | allocWait
  | allocRead (bno : Nat)
  | freeWait (bno : Nat)
  | freeLink (bno : Nat)
  | freeStale (bno : Nat)
  deriving DecidableEq, Repr

/-- The blocks that files own, and those that calls have returned and freed, are for the
statements only. -/
structure System where
  fp : Filsys
  fblk : Nat → Fblk
  phase : Nat → Phase
  owned : Nat → Bool
  returned : List Nat
  freed : List Nat

inductive Event where
  | alloc (p : Nat)
  /-- `incore` says whether there is a leftover buffer for the block. -/
  | free (p bno : Nat) (incore : Bool)
  /-- `disk` is what the disk has of a block whose buffer is thrown away. -/
  | resume (p : Nat) (incore : Bool) (disk : Fblk)
  | write (bno : Nat) (content : Fblk)

/-- `bcopy` of NICFREE numbers. -/
def bcopy (source target : Nat → Nat) (i : Nat) : Nat := if i < nicfree then source i else target i

def badblock (fp : Filsys) (bn : Nat) : Bool := bn < fp.sIsize || fp.sFsize ≤ bn

def sleepIn (p : Nat) (phase : Phase) (s : System) : System := { s with phase := update s.phase p phase }

/-! ## Allocating -/

/-- The loop that takes a number off `s_free`: the number, and what remains. -/
def takeFree (fp : Filsys) : Nat → Option (Nat × Nat)
  | 0 => none
  | n + 1 =>
    let bno := fp.sFree n
    if bno = 0 then none else if badblock fp bno then takeFree fp n else some (bno, n)

/-- The delay comes before ENOSPC is returned. -/
def nospace (p : Nat) (s : System) : System := sleepIn p .idle { s with fp := { s.fp with sNfree := 0, sTfree := 0 } }

/-- `blkalloc` after the chain block has been read, if it had to be. -/
def allocEnd (p bno : Nat) (s : System) : System :=
  if s.fp.sNfree = 0 ∨ nicfree < s.fp.sNfree then nospace p s
  else
    sleepIn p .idle { s with
      fp := { s.fp with sTfree := s.fp.sTfree - 1 }
      owned := update s.owned bno true
      returned := bno :: s.returned }

/-- From the test of `s_flock`. -/
def blkalloc (p : Nat) (s : System) : System :=
  if s.fp.sFlock ≠ 0 then sleepIn p .allocWait s
  else
    match takeFree s.fp s.fp.sNfree with
    | none => nospace p s
    | some (bno, n) =>
      let s := { s with fp := { s.fp with sNfree := n } }
      if n = 0 then sleepIn p (.allocRead bno) { s with fp := { s.fp with sFlock := s.fp.sFlock + 1 } }
      else allocEnd p bno s

/-- From the end of `bread`; the buffer is stale then. -/
def allocResume (p bno : Nat) (disk : Fblk) (s : System) : System :=
  let b := s.fblk bno
  allocEnd p bno { s with
    fp := { s.fp with sNfree := b.dfNfree, sFree := bcopy b.dfFree s.fp.sFree, sFlock := 0 }
    fblk := update s.fblk bno disk }

/-! ## Freeing -/

def pushFree (p bno : Nat) (s : System) : System :=
  sleepIn p .idle { s with
    fp := { s.fp with
      sFree := update s.fp.sFree s.fp.sNfree bno
      sNfree := s.fp.sNfree + 1
      sTfree := s.fp.sTfree + 1 }
    freed := bno :: s.freed }

/-- From the test of `s_flock`. -/
def blkfree (p bno : Nat) (incore : Bool) (s : System) : System :=
  if s.fp.sFlock ≠ 0 then sleepIn p (.freeWait bno) s
  else if badblock s.fp bno then sleepIn p .idle s
  else
    let s := if s.fp.sNfree = 0 then { s with fp := { s.fp with sNfree := 1, sFree := update s.fp.sFree 0 0 } } else s
    if nicfree ≤ s.fp.sNfree then
      sleepIn p (.freeLink bno) { s with fp := { s.fp with sFlock := s.fp.sFlock + 1 } }
    else if incore then sleepIn p (.freeStale bno) s
    else pushFree p bno s

/-- From the end of the `getblk` that makes the block a chain block. -/
def linkResume (p bno : Nat) (s : System) : System :=
  let b := s.fblk bno
  pushFree p bno { s with
    fblk := update s.fblk bno ⟨s.fp.sNfree, bcopy s.fp.sFree b.dfFree⟩
    fp := { s.fp with sNfree := 0, sFlock := 0 } }

/-- From the end of the `getblk` that is for a leftover buffer. -/
def staleResume (p bno : Nat) (disk : Fblk) (s : System) : System :=
  pushFree p bno { s with fblk := update s.fblk bno disk }

/-! ## Systems -/

/-- A process calls `blkfree` for a block that a file owns, and writes only there. -/
def run (event : Event) (s : System) : Option System :=
  match event with
  | .alloc p => if s.phase p = .idle then some (blkalloc p s) else none
  | .free p bno incore =>
    if s.phase p = .idle ∧ s.owned bno then some (blkfree p bno incore { s with owned := update s.owned bno false })
    else none
  | .resume p incore disk =>
    match s.phase p with
    | .idle => none
    | .allocWait => some (blkalloc p s)
    | .allocRead bno => some (allocResume p bno disk s)
    | .freeWait bno => some (blkfree p bno incore s)
    | .freeLink bno => some (linkResume p bno s)
    | .freeStale bno => some (staleResume p bno disk s)
  | .write bno content => if s.owned bno then some { s with fblk := update s.fblk bno content } else none

end Svr4.S5.Blocks
