import Mathlib
import Svr4.Kernel.Ufs.Inodes

/-! Disk quotas: `chkdq`, `chkiq` and the allocators that charge them.

A dquot is named by its user. The block maps are a parameter, with the allocators of one
cylinder group that work on them; the inode maps are those of `Svr4.Ufs`. A panic gives no
result.
-/

namespace Svr4.Ufs.Quota

def dqMod : Nat := 0x04
def dqBlks : Nat := 0x10
def dqFiles : Nat := 0x20

/-- `struct dquot`, without its lock and its references. -/
structure Dquot where
  dqFlags : Nat
  dqBhardlimit : Nat
  dqBsoftlimit : Nat
  dqCurblocks : Nat
  dqFhardlimit : Nat
  dqFsoftlimit : Nat
  dqCurfiles : Nat
  dqBtimelimit : Nat
  dqFtimelimit : Nat
  deriving DecidableEq, Repr

structure Inode where
  iUid : Nat
  iBlocks : Nat
  iDquot : Option Nat
  deriving DecidableEq, Repr

structure Cred where
  crUid : Nat
  crRuid : Nat
  deriving DecidableEq, Repr

/-- What the allocators read of the super block, beside the inode maps. -/
structure Super where
  fsBsize : Nat
  fsFsize : Nat
  fsFrag : Nat
  fsSize : Nat
  fsFpg : Nat
  fsDsize : Nat
  fsMinfree : Int
  fsOptim : Nat
  csNbfree : Int
  csNffree : Int
  deriving DecidableEq, Repr

/-- A mounted file system with quotas; `record` are the users with a record in the quota
file, and `vfsQinod` is the inode of that file. -/
structure Mount (Blocks : Type) where
  dquot : Nat → Dquot
  inode : Nat → Inode
  mqEnabled : Bool
  record : Nat → Bool
  vfsQinod : Nat
  hrestime : Nat
  vfsBtimelimit : Nat
  vfsFtimelimit : Nat
  fs : Fs
  blocks : Blocks

section
variable {Blocks : Type}

def Mount.setDquot (m : Mount Blocks) (uid : Nat) (dq : Dquot) : Mount Blocks :=
  { m with dquot := Function.update m.dquot uid dq }

def Mount.setInode (m : Mount Blocks) (ip : Nat) (value : Inode) : Mount Blocks :=
  { m with inode := Function.update m.inode ip value }

def clear (mask flags : Nat) : Nat := flags ^^^ (flags &&& mask)

def btodb (bytes : Int) : Nat := (bytes % 4294967296).toNat / 512

/-- An `u_long` read as an `int`. -/
def toInt (value : Nat) : Int := if value < 2147483648 then value else value - 4294967296

/-! ## Charging -/

/-- The part of `chkdq` that gives blocks back. -/
def lowerBlocks (change : Int) (dq : Dquot) : Dquot :=
  let dq := { dq with dqFlags := dq.dqFlags ||| dqMod }
  let dq := { dq with dqCurblocks := if toInt dq.dqCurblocks + change ≥ 0 then (dq.dqCurblocks + change).toNat else 0 }
  let dq := { dq with dqBtimelimit := if dq.dqCurblocks < dq.dqBsoftlimit then 0 else dq.dqBtimelimit }
  { dq with dqFlags := clear dqBlks dq.dqFlags }

/-- The limits of `chkdq`: an error, and the dquot with another warning or time limit. -/
def blockLimits (m : Mount Blocks) (cred : Cred) (uid : Nat) (ncurblocks : Nat) (force : Bool) (dq : Dquot) : Nat × Dquot :=
  let warn (dq : Dquot) : Dquot :=
    if dq.dqFlags &&& dqBlks = 0 ∧ uid = cred.crRuid then { dq with dqFlags := dq.dqFlags ||| dqBlks } else dq
  let (error, dq) :=
    if ncurblocks ≥ dq.dqBhardlimit ∧ dq.dqBhardlimit ≠ 0 ∧ ¬ force then (enospc, warn dq) else (0, dq)
  if ncurblocks ≥ dq.dqBsoftlimit ∧ dq.dqBsoftlimit ≠ 0 then
    if dq.dqCurblocks < dq.dqBsoftlimit ∨ dq.dqBtimelimit = 0 then
      (error, { dq with dqBtimelimit := m.hrestime + m.vfsBtimelimit })
    else if m.hrestime > dq.dqBtimelimit ∧ ¬ force then (enospc, warn dq)
    else (error, dq)
  else (error, dq)

/-- The part of `chkdq` that takes blocks. -/
def raiseBlocks (m : Mount Blocks) (cred : Cred) (uid : Nat) (change : Nat) (force : Bool) (dq : Dquot) : Nat × Dquot :=
  let dq := { dq with dqFlags := dq.dqFlags ||| dqMod }
  let ncurblocks := (dq.dqCurblocks + change) % 4294967296
  let (error, dq) := if cred.crUid = 0 then (0, dq) else blockLimits m cred uid ncurblocks force dq
  (error, if error = 0 then { dq with dqCurblocks := ncurblocks } else dq)

def chkdq (cred : Cred) (ip : Nat) (change : Int) (force : Bool) (m : Mount Blocks) : Nat × Mount Blocks :=
  if change = 0 then (0, m)
  else
    match (m.inode ip).iDquot with
    | none => (0, m)
    | some uid =>
      if change < 0 then (0, m.setDquot uid (lowerBlocks change (m.dquot uid)))
      else
        let (error, dq) := raiseBlocks m cred (m.inode ip).iUid change.toNat force (m.dquot uid)
        (error, m.setDquot uid dq)

/-- `chkiq` of an inode that is freed. -/
def lowerFiles (dq : Dquot) : Dquot :=
  let dq := { dq with dqFlags := dq.dqFlags ||| dqMod }
  let dq := { dq with dqCurfiles := if dq.dqCurfiles ≠ 0 then dq.dqCurfiles - 1 else dq.dqCurfiles }
  let dq := { dq with dqFtimelimit := if dq.dqCurfiles < dq.dqFsoftlimit then 0 else dq.dqFtimelimit }
  { dq with dqFlags := clear dqFiles dq.dqFlags }

def chkiqFree (ip : Nat) (m : Mount Blocks) : Mount Blocks :=
  match (m.inode ip).iDquot with
  | none => m
  | some uid => m.setDquot uid (lowerFiles (m.dquot uid))

/-- The limits of `chkiq`. -/
def fileLimits (m : Mount Blocks) (cred : Cred) (uid : Nat) (force : Bool) (dq : Dquot) : Nat × Dquot :=
  let ncurfiles := (dq.dqCurfiles + 1) % 4294967296
  let warn (dq : Dquot) : Dquot :=
    if dq.dqFlags &&& dqFiles = 0 ∧ uid = cred.crRuid then { dq with dqFlags := dq.dqFlags ||| dqFiles } else dq
  if ncurfiles ≥ dq.dqFhardlimit ∧ dq.dqFhardlimit ≠ 0 ∧ ¬ force then (enospc, warn dq)
  else if ncurfiles ≥ dq.dqFsoftlimit ∧ dq.dqFsoftlimit ≠ 0 then
    if ncurfiles = dq.dqFsoftlimit ∨ dq.dqFtimelimit = 0 then
      (0, { dq with dqFtimelimit := m.hrestime + m.vfsFtimelimit })
    else if m.hrestime > dq.dqFtimelimit ∧ ¬ force then (enospc, warn dq)
    else (0, dq)
  else (0, dq)

/-- `chkiq` of an inode that is allocated. -/
def chkiq (cred : Cred) (uid : Nat) (force : Bool) (m : Mount Blocks) : Nat × Mount Blocks :=
  if ¬ m.mqEnabled then (0, m)
  else if ¬ m.record uid then (0, m)
  else
    let dq := m.dquot uid
    if dq.dqFsoftlimit = 0 ∧ dq.dqFhardlimit = 0 then (0, m)
    else
      let dq := { dq with dqFlags := dq.dqFlags ||| dqMod }
      let (error, dq) := if cred.crUid = 0 then (0, dq) else fileLimits m cred uid force dq
      let dq := if error = 0 then { dq with dqCurfiles := (dq.dqCurfiles + 1) % 4294967296 } else dq
      (error, m.setDquot uid dq)

/-- The dquot that an inode is charged to. -/
def getinoquota (ip uid : Nat) (m : Mount Blocks) : Option Nat :=
  if ¬ m.mqEnabled then none
  else if ip = m.vfsQinod then none
  else if ¬ m.record uid then none
  else
    let dq := m.dquot uid
    if dq.dqFhardlimit = 0 ∧ dq.dqFsoftlimit = 0 ∧ dq.dqBhardlimit = 0 ∧ dq.dqBsoftlimit = 0 then none else some uid

/-! ## Allocating -/

def fsOpttime : Nat := 0
def fsOptspace : Nat := 1

def freespace (fs : Super) : Int := fs.csNbfree * fs.fsFrag + fs.csNffree - (fs.fsDsize * fs.fsMinfree).tdiv 100

/-- The block maps of a file system: what the super block says, and the allocators of one
cylinder group. -/
structure Allocators (Blocks : Type) where
  fs : Blocks → Super
  setOptim : Nat → Blocks → Blocks
  alloccg : Nat → Nat → Nat → Blocks → Option (Nat × Blocks)
  fragextend : Nat → Nat → Nat → Nat → Blocks → Nat × Blocks
  free : Nat → Nat → Blocks → Blocks

variable (maps : Allocators Blocks)

/-- The search for a piece, from the preferred group on. -/
def search (cg bpref size : Nat) (m : Mount Blocks) : Option (Nat × Blocks) :=
  hashalloc (maps.alloccg size) m.fs.fsNcg cg bpref m.blocks

/-- The preference, and the group that it is in. -/
def preferred (ip bpref : Nat) (m : Mount Blocks) : Nat × Nat :=
  let fs := maps.fs m.blocks
  let bpref := if bpref ≥ fs.fsSize then 0 else bpref
  (if bpref = 0 then itog m.fs ip else bpref / fs.fsFpg, bpref)

def badSize (fs : Super) (size : Nat) : Prop := size > fs.fsBsize ∨ size % fs.fsFsize ≠ 0

instance (fs : Super) (size : Nat) : Decidable (badSize fs size) := inferInstanceAs (Decidable (_ ∨ _))

def alloc (cred : Cred) (ip bpref size : Nat) (m : Mount Blocks) : Option (Except Nat Nat × Mount Blocks) :=
  let fs := maps.fs m.blocks
  if badSize fs size then none
  else if size = fs.fsBsize ∧ fs.csNbfree = 0 then some (.error enospc, m)
  else if cred.crUid ≠ 0 ∧ freespace fs ≤ 0 then some (.error enospc, m)
  else
    let (err, m) := chkdq cred ip (btodb size) false m
    if err ≠ 0 then some (.error err, m)
    else do
      let (cg, bpref) := preferred maps ip bpref m
      let (bno, blocks) ← search maps cg bpref size m
      let m := { m with blocks := blocks }
      if bno > 0 then return (.ok bno, m) else return (.error enospc, m)

/-- The size that `realloccg` asks for, with what it does to `fs_optim`. -/
def request (nsize : Nat) (blocks : Blocks) : Nat × Blocks :=
  let fs := maps.fs blocks
  if fs.fsOptim = fsOptspace then
    if fs.fsMinfree < 5 ∨ fs.csNffree > (fs.fsDsize * fs.fsMinfree).tdiv (2 * 100) then (nsize, blocks)
    else (nsize, maps.setOptim fsOpttime blocks)
  else
    let blocks := if fs.fsOptim = fsOpttime then blocks else maps.setOptim fsOpttime blocks
    if fs.csNffree < (fs.fsDsize * (fs.fsMinfree - 2)).tdiv 100 then (fs.fsBsize, blocks)
    else (fs.fsBsize, maps.setOptim fsOptspace blocks)

def realloccg (cred : Cred) (ip bprev bpref osize nsize : Nat) (m : Mount Blocks) :
    Option (Except Nat Nat × Mount Blocks) :=
  let fs := maps.fs m.blocks
  if badSize fs osize ∨ badSize fs nsize then none
  else if cred.crUid ≠ 0 ∧ freespace fs ≤ 0 then some (.error enospc, m)
  else if bprev = 0 then none
  else
    let (err, m) := chkdq cred ip (btodb (nsize - osize)) false m
    if err ≠ 0 then some (.error err, m)
    else
      let cg := bprev / fs.fsFpg
      let (bno, blocks) := maps.fragextend cg bprev osize nsize m.blocks
      let m := { m with blocks := blocks }
      if bno ≠ 0 then some (.ok bno, m)
      else do
        let bpref := if bpref ≥ fs.fsSize then 0 else bpref
        let (size, blocks) := request maps nsize m.blocks
        let m := { m with blocks := blocks }
        let (bno, blocks) ← search maps cg bpref size m
        if bno > 0 then
          let blocks := if nsize < size then maps.free (bno + nsize / fs.fsFsize) (size - nsize) blocks else blocks
          return (.ok bno, { m with blocks := blocks })
        else return (.error enospc, { m with blocks := blocks })

/-- The groups that cannot be read by `ialloccg` and by `ufs_ifree`, and the error of
`ufs_iget` for each inode; zero is no error. -/
structure Disk where
  bad : Nat → Bool
  badFree : Nat → Bool
  iget : Nat → Nat

/-- The search for an inode. -/
def searchInode (disk : Disk) (ipref mode : Nat) (fs : Fs) : Option (Nat × Fs) :=
  let ipref := if ipref ≥ fs.fsNcg * fs.fsIpg then 0 else ipref
  hashalloc (ialloccg disk.bad mode) fs.fsNcg (itog fs ipref) ipref fs

def ufsIalloc (disk : Disk) (cred : Cred) (mode : Nat) : Nat → Nat → Mount Blocks → Option (Except Nat Nat × Mount Blocks)
  | 0, _, _ => none
  | fuel + 1, ipref, m =>
    if m.fs.fsCstotal.csNifree = 0 then some (.error enospc, m)
    else
      let (err, m) := chkiq cred cred.crUid false m
      if err ≠ 0 then some (.error err, m)
      else do
        let (ino, fs) ← searchInode disk ipref mode m.fs
        let m := { m with fs := fs }
        if ino = 0 then return (.error enospc, m)
        else if disk.iget ino ≠ 0 then
          let fs ← ufsIfree disk.badFree ino 0 fs
          return (.error (disk.iget ino), { m with fs := fs })
        else if fs.iMode ino ≠ 0 then
          ufsIalloc disk cred mode fuel (if ipref ≥ fs.fsNcg * fs.fsIpg then 0 else ipref) m
        else return (.ok ino, m)

end

end Svr4.Ufs.Quota
