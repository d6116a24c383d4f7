import Mathlib.Data.Int.Basic
import Svr4.Foundation.Execution

/-! The shift of a file by `bfs_compact`, crashes, and the repair by `fsck`.

A program is the list of its writes to the device, each of which is atomic. A data write reads its
blocks when it is done. Block numbers are `daddr_t`.
-/

namespace Svr4.Bfs.Compaction

structure Dirent where
  ino : Nat
  sblock : Int
  eblock : Int
  eoffset : Int
  deriving DecidableEq, Repr

/-- The four sanity words of the superblock. -/
structure Sanityw where
  fromblock : Int
  toblock : Int
  bfromblock : Int
  btoblock : Int
  deriving DecidableEq, Repr

def Sanityw.none : Sanityw := ⟨-1, -1, -1, -1⟩

def Sanityw.both (fromblock toblock : Int) : Sanityw := ⟨fromblock, toblock, fromblock, toblock⟩

structure Disk (Block : Type) where
  sanityw : Sanityw
  dirents : List Dirent
  blocks : Int → Block

inductive Write where
  /-- `BFS_CCT_WRITE` of the four words. -/
  | sanity (sw : Sanityw)
  /-- `BFS_CCT_WRITE` of the first two words. -/
  | clear
  | data (fromblock toblock len : Int)
  | inode (i : Nat) (dir : Dirent)
  /-- `wr_sanityw`: the block of the superblock, with the dirents in it as they were read. -/
  | super (sw : Sanityw) (superblk : List Dirent)
  deriving DecidableEq, Repr

/-- 16 bytes and the attributes. -/
def direntSize : Nat := 104

/-- The dirent lies in the block of the superblock. -/
def inSuper (i : Nat) : Bool := 28 + direntSize * i < 512

/-- `superblk` is written over the dirents in the first block. -/
def overlay : Nat → List Dirent → List Dirent → List Dirent
  | i, old :: superblk, dir :: dirents => (if inSuper i then old else dir) :: overlay (i + 1) superblk dirents
  | _, _, dirents => dirents

section
variable {Block : Type}

def Disk.write (disk : Disk Block) : Write → Disk Block
  | .sanity sw => { disk with sanityw := sw }
  | .clear => { disk with sanityw := { disk.sanityw with fromblock := -1, toblock := -1 } }
  | .data fromblock toblock len =>
    { disk with blocks := fun b =>
        if toblock ≤ b ∧ b < toblock + len / 512 then disk.blocks (b - toblock + fromblock) else disk.blocks b }
  | .inode i dir => { disk with dirents := disk.dirents.set i dir }
  | .super sw superblk => { disk with sanityw := sw, dirents := overlay 0 superblk disk.dirents }

end

def bfsbufsize : Int := 8192

/-- The loop of `bfs_shiftfile`. `words` is the test that the gap is smaller than the file. -/
def shiftloop (put clear : Int → Int → Write) (words : Bool) (eblock : Int) : Nat → Int → Int → Int → List Write
  | 0, _, _, _ => []
  | fuel + 1, fromblock, toblock, maxshift =>
    if fromblock = eblock + 1 then []
    else
      -- Must recalculate "maxshift" each time.
      let maxshift := min maxshift ((eblock - fromblock + 1) * 512)
      (if words then [put fromblock toblock] else []) ++ .data fromblock toblock maxshift ::
        ((if words then [clear fromblock toblock] else []) ++
          shiftloop put clear words eblock fuel (fromblock + maxshift / 512) (toblock + maxshift / 512) maxshift)

/-- The new dirent. -/
def Dirent.shifted (dir : Dirent) (fromblock gapsize : Int) : Dirent :=
  { dir with
    sblock := dir.sblock - gapsize
    eblock := dir.eblock - gapsize
    eoffset :=
      if dir.eoffset / 512 = dir.eblock ∧ fromblock ≤ dir.eblock then
        dir.eoffset - dir.sblock * 512 + (dir.sblock - gapsize) * 512
      else dir.eoffset }

/-- `bfs_shiftfile` of the kernel. -/
def shiftfile (i : Nat) (dir : Dirent) (gapsize : Int) : List Write :=
  let fromblock := dir.sblock
  let toblock := dir.sblock - gapsize
  let words : Bool := gapsize * 512 < (dir.eblock - dir.sblock + 1) * 512
  .sanity (.both fromblock toblock) ::
    (shiftloop (fun fromblock toblock => .sanity (.both fromblock toblock)) (fun _ _ => .clear) words dir.eblock
      (dir.eblock + 1 - fromblock).toNat fromblock toblock (min bfsbufsize (gapsize * 512)) ++
      [.inode i (dir.shifted fromblock gapsize), .sanity .none])

/-- `bfs_shiftfile` of `fsck`. `superblk` keeps the last two words that were written. -/
def fsckShiftfile (superblk : List Dirent) (i : Nat) (dir : Dirent) (fromblock toblock : Int) : List Write :=
  let gapsize := fromblock - toblock
  let words : Bool := gapsize * 512 < (dir.eblock - dir.sblock + 1) * 512
  .super (.both fromblock toblock) superblk ::
    (shiftloop (fun fromblock toblock => .super (.both fromblock toblock) superblk)
      (fun fromblock toblock => .super ⟨-1, -1, fromblock, toblock⟩ superblk) words dir.eblock
      (dir.eblock + 1 - fromblock).toNat fromblock toblock (min bfsbufsize (gapsize * 512)) ++
      [.inode i (dir.shifted fromblock gapsize), .super .none superblk])

/-- The first dirent with the block, which is not its last one. -/
def finddirent (fromblock : Int) : Nat → List Dirent → Option (Nat × Dirent)
  | _, [] => none
  | i, dir :: dirents =>
    if dir.sblock ≤ fromblock ∧ fromblock < dir.eblock then some (i, dir) else finddirent fromblock (i + 1) dirents

/-- `check_compaction` with -y. -/
def checkCompaction (sw : Sanityw) (dirents : List Dirent) : List Write :=
  if sw.bfromblock = -1 ∨ sw.btoblock = -1 then []
  else
    let backup : Bool := sw.fromblock = -1 ∨ sw.toblock = -1
    let fromblock := if backup then sw.bfromblock else sw.fromblock
    let toblock := if backup then sw.btoblock else sw.toblock
    (if backup then [.super (.both fromblock toblock) dirents] else []) ++
      match finddirent fromblock 0 dirents with
      -- Data blocks of file were already shifted and the inode of the file was updated.
      | none => [.super .none dirents]
      | some (i, dir) => fsckShiftfile dirents i dir fromblock toblock

/-! ## Runs -/

inductive Mode where
  /-- The writes that are left. -/
  | running (writes : List Write)
  /-- Cut off. -/
  | down
  /-- The program has ended. -/
  | up
  deriving DecidableEq, Repr

structure State (Block : Type) where
  disk : Disk Block
  mode : Mode
  /-- The end of the data blocks that have been written. -/
  written : Int

inductive Event where
  | write
  | stop
  | crash
  | fsck
  deriving DecidableEq, Repr

section
variable {Block : Type}

def State.run (event : Event) (s : State Block) : Option (State Block) :=
  match event, s.mode with
  | .write, .running (w :: writes) =>
    some { disk := s.disk.write w
           mode := .running writes
           written := match w with | .data _ toblock len => max s.written (toblock + len / 512) | _ => s.written }
  | .stop, .running [] => some { s with mode := .up }
  | .crash, .running _ => some { s with mode := .down }
  | .fsck, .down => some { s with mode := .running (checkCompaction s.disk.sanityw s.disk.dirents) }
  | _, _ => none

def Step (s : State Block) (event : Event) (t : State Block) : Prop := s.run event = some t

/-- The kernel begins to shift file i. -/
def begun (disk : Disk Block) (i : Nat) (dir : Dirent) (gapsize : Int) : State Block :=
  ⟨disk, .running (shiftfile i dir gapsize), dir.sblock - gapsize⟩

end

end Svr4.Bfs.Compaction
