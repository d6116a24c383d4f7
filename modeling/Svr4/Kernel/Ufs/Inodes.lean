import Mathlib.Data.Nat.Count
import Svr4.Foundation.Execution

/-! The inode maps of a UFS file system: `ialloccg`, `ufs_ialloc` and `ufs_ifree`.

The block of a cylinder group is read with `bread`, which can fail; a group that cannot be
read is `bad` for the call. A panic gives no result. The mode of every inode is part of the
file system: the caller of `ufs_ialloc` stores it, and the caller of `ufs_ifree` clears it.
-/

namespace Svr4.Ufs

open Function (update)

def nbby : Nat := 8

def ifmt : Nat := 0o170000
def ifdir : Nat := 0o040000

def enospc : Nat := 28

def isDirectory (mode : Nat) : Prop := mode &&& ifmt = ifdir

instance (mode : Nat) : Decidable (isDirectory mode) := inferInstanceAs (Decidable (_ = _))

def howmany (x y : Nat) : Nat := (x + (y - 1)) / y

/-! ## Maps of bits -/

abbrev Bytes := Nat → BitVec 8

def isclr (a : Bytes) (i : Nat) : Prop := a (i / nbby) &&& (1#8 <<< (i % nbby)) = 0

instance (a : Bytes) (i : Nat) : Decidable (isclr a i) := inferInstanceAs (Decidable (_ = _))

def setbit (a : Bytes) (i : Nat) : Bytes := update a (i / nbby) (a (i / nbby) ||| (1#8 <<< (i % nbby)))

def clrbit (a : Bytes) (i : Nat) : Bytes := update a (i / nbby) (a (i / nbby) &&& ~~~(1#8 <<< (i % nbby)))

/-- Skip the bytes that are `c`: how many of the `len` bytes from `cp` on are left. -/
def skpc (c : BitVec 8) (a : Bytes) : Nat → Nat → Nat
  | 0, _ => 0
  | len + 1, cp => if a cp = c then skpc c a len (cp + 1) else len + 1

/-- The loop over the bits of a byte, from bit `k` on: the first clear one. -/
def clearBit (map : BitVec 8) : Nat → Nat → Option Nat
  | 0, _ => none
  | n + 1, k => if map &&& (1#8 <<< k) = 0 then some k else clearBit map n (k + 1)

/-! ## Groups -/

/-- The inode counts of `struct csum`. -/
structure Csum where
  csNdir : Int
  csNifree : Int
  deriving DecidableEq, Repr

structure Cg where
  cgCs : Csum
  cgIrotor : Nat
  cgIused : Bytes

structure Fs where
  fsNcg : Nat
  fsIpg : Nat
  fsCstotal : Csum
  fsCs : Nat → Csum
  cg : Nat → Cg
  iMode : Nat → Nat

namespace Fs

def setCg (fs : Fs) (cg : Nat) (value : Cg → Cg) : Fs :=
  { fs with cg := update fs.cg cg (value (fs.cg cg)) }

/-- The same change to the three places that have the counts of a group. -/
def addCs (fs : Fs) (cg : Nat) (value : Csum → Csum) : Fs :=
  { fs.setCg cg fun cgp => { cgp with cgCs := value cgp.cgCs } with
    fsCstotal := value fs.fsCstotal
    fsCs := update fs.fsCs cg (value (fs.fsCs cg)) }

end Fs

/-! ## `hashalloc` -/

section
variable {σ : Type} (allocator : Nat → Nat → σ → Option (Nat × σ))

/-- The allocator on one group after the other, with the preference for it. -/
def tryAll : List (Nat × Nat) → σ → Option (Nat × σ)
  | [], s => some (0, s)
  | (cg, pref) :: rest, s => do
    let (result, s) ← allocator cg pref s
    if result ≠ 0 then return (result, s) else tryAll rest s

/-- The groups of the quadratic rehash. -/
def rehash (ncg : Nat) : Nat → Nat → Nat → List Nat
  | 0, _, _ => []
  | fuel + 1, i, cg =>
    if i < ncg then
      let cg := if cg + i ≥ ncg then cg + i - ncg else cg + i
      cg :: rehash ncg fuel (i * 2) cg
    else []

/-- The groups of the brute force search. -/
def bruteForce (ncg : Nat) : Nat → Nat → List Nat
  | 0, _ => []
  | n + 1, cg => cg :: bruteForce ncg n (if cg + 1 = ncg then 0 else cg + 1)

def hashalloc (ncg cg pref : Nat) (s : σ) : Option (Nat × σ) :=
  tryAll allocator
    ((cg, pref) :: (rehash ncg ncg 1 cg ++ bruteForce ncg (ncg - 2) ((cg + 2) % ncg)).map fun cg => (cg, 0)) s

end

/-! ## Allocating an inode -/

/-- The inode of the group that is found from the rotor on. -/
def scanInodes (ipg : Nat) (cgp : Cg) : Option Nat :=
  let found (start len loc : Nat) : Option Nat :=
    let i := start + len - loc
    (clearBit (cgp.cgIused i) nbby 0).map (i * nbby + ·)
  let start := cgp.cgIrotor / nbby
  let len := howmany (ipg - cgp.cgIrotor) nbby
  let loc := skpc 0xff cgp.cgIused len start
  if loc = 0 then
    let len := start + 1
    let loc := skpc 0xff cgp.cgIused len 0
    if loc = 0 then none else found 0 len loc
  else found start len loc

/-- What `ialloccg` does at the label `gotit`. -/
def gotInode (mode cg ipref : Nat) (fs : Fs) : Nat × Fs :=
  let fs := fs.setCg cg fun cgp => { cgp with cgIused := setbit cgp.cgIused ipref }
  let fs := fs.addCs cg fun cs => { cs with csNifree := cs.csNifree - 1 }
  let fs := if isDirectory mode then fs.addCs cg fun cs => { cs with csNdir := cs.csNdir + 1 } else fs
  (cg * fs.fsIpg + ipref, fs)

def ialloccg (bad : Nat → Bool) (mode cg ipref : Nat) (fs : Fs) : Option (Nat × Fs) :=
  if (fs.fsCs cg).csNifree = 0 then some (0, fs)
  else if bad cg ∨ (fs.cg cg).cgCs.csNifree = 0 then some (0, fs)
  else if ipref ≠ 0 ∧ isclr (fs.cg cg).cgIused (ipref % fs.fsIpg) then
    some (gotInode mode cg (ipref % fs.fsIpg) fs)
  else do
    let ipref ← scanInodes fs.fsIpg (fs.cg cg)
    return gotInode mode cg ipref (fs.setCg cg fun cgp => { cgp with cgIrotor := ipref })

def itog (fs : Fs) (ino : Nat) : Nat := ino / fs.fsIpg

def ufsIfree (bad : Nat → Bool) (ino mode : Nat) (fs : Fs) : Option Fs :=
  if ino ≥ fs.fsIpg * fs.fsNcg then none
  else
    let cg := itog fs ino
    let inot := ino % fs.fsIpg
    if bad cg then some fs
    else if isclr (fs.cg cg).cgIused inot then some fs
    else
      let fs := fs.setCg cg fun cgp =>
        { cgp with
          cgIused := clrbit cgp.cgIused inot
          cgIrotor := if inot < cgp.cgIrotor then inot else cgp.cgIrotor }
      let fs := fs.addCs cg fun cs => { cs with csNifree := cs.csNifree + 1 }
      some (if isDirectory mode then fs.addCs cg fun cs => { cs with csNdir := cs.csNdir - 1 } else fs)

/-- What the calls that `ufs_ialloc` makes give: the groups that cannot be read by
`ialloccg` and by `ufs_ifree`, the error of `chkiq` in each round of its loop, and the error of
`ufs_iget` for each inode; zero is no error. -/
structure World where
  bad : Nat → Bool
  badFree : Nat → Bool
  chkiq : Nat → Nat
  iget : Nat → Nat

/-- The result of `ufs_ialloc`: an error or an inode. -/
inductive Ialloc where
  | error (err : Nat)
  | inode (ino : Nat)
  deriving DecidableEq, Repr

/-- The loop of `ufs_ialloc`, from round `k` on. -/
def ufsIallocFrom (w : World) (mode : Nat) : Nat → Nat → Nat → Fs → Option (Ialloc × Fs)
  | 0, _, _, _ => none
  | fuel + 1, k, ipref, fs =>
    if fs.fsCstotal.csNifree = 0 then some (.error enospc, fs)
    else if w.chkiq k ≠ 0 then some (.error (w.chkiq k), fs)
    else do
      let ipref := if ipref ≥ fs.fsNcg * fs.fsIpg then 0 else ipref
      let (ino, fs) ← hashalloc (ialloccg w.bad mode) fs.fsNcg (itog fs ipref) ipref fs
      if ino = 0 then return (.error enospc, fs)
      else if w.iget ino ≠ 0 then
        let fs ← ufsIfree w.badFree ino 0 fs
        return (.error (w.iget ino), fs)
      else if fs.iMode ino ≠ 0 then ufsIallocFrom w mode fuel (k + 1) ipref fs
      else return (.inode ino, fs)

def ufsIalloc (fuel : Nat) (w : World) (ipref mode : Nat) (fs : Fs) : Option (Ialloc × Fs) :=
  ufsIallocFrom w mode fuel 0 ipref fs

/-! ## Runs -/

inductive Event where
  | ialloc (fuel : Nat) (w : World) (ipref mode : Nat)
  | ifree (bad : Nat → Bool) (ino : Nat)

/-- The bit of an inode. -/
def Fs.used (fs : Fs) (ino : Nat) : Prop := ¬ isclr (fs.cg (itog fs ino)).cgIused (ino % fs.fsIpg)

instance (fs : Fs) (ino : Nat) : Decidable (fs.used ino) := inferInstanceAs (Decidable (¬ _))

def Fs.setMode (fs : Fs) (ino mode : Nat) : Fs := { fs with iMode := update fs.iMode ino mode }

/-- The callers: a new inode gets its mode, and `ufs_ifree` is for allocated inodes with
their mode. Inode 0 is not one of them. -/
def apply (event : Event) (fs : Fs) : Option Fs :=
  match event with
  | .ialloc fuel w ipref mode => do
    let (result, fs) ← ufsIalloc fuel w ipref mode fs
    match result with
    | .error _ => return fs
    | .inode ino => return fs.setMode ino mode
  | .ifree bad ino =>
    if 0 < ino ∧ ino < fs.fsNcg * fs.fsIpg ∧ fs.used ino then ufsIfree bad ino (fs.iMode ino) (fs.setMode ino 0)
    else none

def Step (fs : Fs) (event : Event) (next : Fs) : Prop := apply event fs = some next

end Svr4.Ufs
