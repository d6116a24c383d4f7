import Svr4.Foundation.Bytes

/-! UFS directories: the search for a name and a slot, and the changes to entries.

A directory is its bytes. The buffers are not modelled: an entry of a buffer is the entry at
the same offset of the directory. An operation that fails gives no result.
-/

namespace Svr4.Ufs.Directory

/-! ## Entries -/

def dIno (m : Memory) (ep : Nat) : Nat := m.fetch ep 4

def dReclen (m : Memory) (ep : Nat) : Nat := m.fetch (ep + 4) 2

def dNamlen (m : Memory) (ep : Nat) : Nat := m.fetch (ep + 6) 2

def dName (m : Memory) (ep : Nat) : List UInt8 := m.bytes (ep + 8) (dNamlen m ep)

def setIno (ep ino : Nat) (m : Memory) : Memory := m.store ep 4 ino

def setReclen (ep reclen : Nat) (m : Memory) : Memory := m.store (ep + 4) 2 reclen

def setNamlen (ep namlen : Nat) (m : Memory) : Memory := m.store (ep + 6) 2 namlen

/-- `LDIRSIZ`: the name with its null byte, rounded up. -/
def ldirsiz (len : Nat) : Nat := 8 + (len + 4) / 4 * 4

def dirsiz (m : Memory) (ep : Nat) : Nat := ldirsiz (dNamlen m ep)

def dirchk : Bool := false

def dirbadname (m : Memory) (ep : Nat) : Bool := (dName m ep).contains 0 || m (ep + 8 + dNamlen m ep) ≠ 0

def dirmangled (m : Memory) (ep : Nat) : Bool :=
  dReclen m ep % 4 ≠ 0 || 512 - ep % 512 < dReclen m ep || dReclen m ep < dirsiz m ep || 255 < dNamlen m ep ||
    dirchk && dirbadname m ep

/-- `roundup(n, DIRBLKSIZ)`. -/
def roundup (n : Nat) : Nat := (n + 511) / 512 * 512

/-! ## The search -/

inductive Status where
  | none
  | found
  | compact
  | exist
  deriving DecidableEq, Repr

/-- `struct slot`; the offset -1 is `none`. -/
structure Slot where
  status : Status
  offset : Option Nat
  size : Nat
  endoff : Nat
  deriving DecidableEq, Repr

/-- The variables of the loop of `ufs_dircheckforname`. -/
structure Scan where
  offset : Nat
  lastOffset : Nat
  slotfreespace : Nat
  enduseful : Nat
  slot : Slot
  deriving DecidableEq, Repr

def skipped (m : Memory) (ep : Nat) : Bool := dReclen m ep = 0 || dirmangled m ep

/-- The space that an entry could do without. -/
def spare (m : Memory) (ep : Nat) : Nat := dReclen m ep - if dIno m ep ≠ 0 then dirsiz m ep else 0

/-- At the start of a block the space is counted anew. -/
def enterBlock (s : Scan) : Scan :=
  if s.slot.status = .none ∧ s.offset % 512 = 0 then
    { s with slot := { s.slot with offset := none }, slotfreespace := 0 }
  else s

def lookForSlot (m : Memory) (needed : Nat) (s : Scan) : Scan :=
  if s.slot.status ≠ .found then
    let size := spare m s.offset
    if 0 < size then
      if needed ≤ size then
        { s with slot := { s.slot with status := .found, offset := some s.offset, size := dReclen m s.offset } }
      else if s.slot.status = .none then
        let start := s.slot.offset.getD s.offset
        let free := s.slotfreespace + size
        if needed ≤ free then
          { s with
            slotfreespace := free
            slot := { s.slot with
              status := .compact, offset := some start, size := s.offset + dReclen m s.offset - start } }
        else { s with slotfreespace := free, slot := { s.slot with offset := some start } }
      else s
    else s
  else s

/-- One round of the loop, at an entry without the name. -/
def advance (m : Memory) (needed : Nat) (s : Scan) : Scan :=
  let s := enterBlock s
  let ep := s.offset
  if skipped m ep then { s with offset := ep + (512 - ep % 512) }
  else
    let s := lookForSlot m needed s
    { s with
      lastOffset := ep
      offset := ep + dReclen m ep
      enduseful := if dIno m ep ≠ 0 then ep + dReclen m ep else s.enduseful }

def matching (m : Memory) (name : List UInt8) (ep : Nat) : Bool :=
  dIno m ep ≠ 0 && dNamlen m ep = name.length && dName m ep = name

/-- The loop; every round moves the offset, so that `fuel` is enough. -/
def search (m : Memory) (name : List UInt8) (dirsize : Nat) : Nat → Scan → Option Nat × Scan
  | 0, s => (none, s)
  | fuel + 1, s =>
    if dirsize ≤ s.offset then (none, s)
    else if ¬ skipped m s.offset ∧ matching m name s.offset then (some s.offset, s)
    else search m name dirsize fuel (advance m (ldirsiz name.length) s)

def startScan (slot : Slot) : Scan := ⟨0, 0, 0, 0, slot⟩

def newSlot : Slot := ⟨.none, none, 0, 0⟩

structure Dir where
  memory : Memory
  iSize : Nat
  iNumber : Nat

/-- The offset of the entry, if there is one, and the slot. -/
def dircheckforname (d : Dir) (name : List UInt8) (slot : Slot) : Option Nat × Slot :=
  let dirsize := roundup d.iSize
  match search d.memory name dirsize dirsize (startScan slot) with
  | (some ep, s) => (some ep, ⟨.exist, some ep, ep - s.lastOffset, 0⟩)
  | (none, s) =>
    if s.slot.status = .none then (none, ⟨.none, some dirsize, 512, 0⟩)
    else
      let stop := s.slot.offset.getD 0 + s.slot.size
      (none, { s.slot with endoff := roundup (if s.enduseful < stop then stop else s.enduseful) })

/-! ## Compaction -/

/-- The variables of the loop of `dirprepareentry`. -/
structure Squeeze where
  memory : Memory
  ep : Nat
  loc : Nat
  dsize : Nat
  slotfreespace : Nat

/-- One entry is copied towards the beginning of the block. -/
def squeezeNext (offset : Nat) (s : Squeeze) : Squeeze :=
  let nep := offset + s.loc
  let s :=
    if dIno s.memory s.ep ≠ 0 then { s with memory := setReclen s.ep s.dsize s.memory, ep := s.ep + s.dsize }
    else { s with slotfreespace := s.slotfreespace + s.dsize }
  let dsize := dirsiz s.memory nep
  { memory := s.memory.copy nep s.ep dsize
    ep := s.ep
    loc := s.loc + dReclen s.memory nep
    dsize := dsize
    slotfreespace := s.slotfreespace + (dReclen s.memory nep - dsize) }

def squeeze (offset size : Nat) : Nat → Squeeze → Squeeze
  | 0, s => s
  | fuel + 1, s => if s.loc < size then squeeze offset size fuel (squeezeNext offset s) else s

/-- After the loop: the free space gets an entry of its own, unless the last one is free. -/
def lastEntry (s : Squeeze) : Memory × Nat :=
  if dIno s.memory s.ep = 0 then (setReclen s.ep (s.slotfreespace + s.dsize) s.memory, s.ep)
  else
    let ep := s.ep + s.dsize
    (setReclen ep s.slotfreespace (setReclen s.ep s.dsize s.memory), ep)

/-- The new entry's offset; `block` is what is in a block that is new. -/
def dirprepareentry (d : Dir) (slot : Slot) (block : Memory) : Option (Dir × Nat) := do
  let offset ← slot.offset
  let entryend := offset + slot.size
  match slot.status with
  | .none =>
    if offset % 512 ≠ 0 then none
    else
      let memory : Memory := fun i => if offset ≤ i ∧ i < entryend then block i else d.memory i
      return ({ d with memory := setReclen offset 512 memory, iSize := entryend }, offset)
  | .found | .compact =>
    let iSize := if d.iSize < entryend then roundup entryend else d.iSize
    let dsize := dirsiz d.memory offset
    let reclen := dReclen d.memory offset
    let s := squeeze offset slot.size slot.size ⟨d.memory, offset, reclen, dsize, reclen - dsize⟩
    let (memory, ep) := lastEntry s
    return ({ d with memory := memory, iSize := iSize }, ep)
  | .exist => none

/-! ## Operations -/

/-- The directory becomes its own parent. -/
def dirfixdotdot (d : Dir) : Option Dir :=
  let m := d.memory
  if d.iSize < 24 then some d
  else if m.fetch 12 4 = d.iNumber then some d
  else if m.fetch 18 2 ≠ 2 ∨ m 20 ≠ 46 ∨ m 21 ≠ 46 then none
  else some { d with memory := m.store 12 4 d.iNumber }

/-- Fill in entry data. -/
def fillEntry (ep : Nat) (name : List UInt8) (ino : Nat) (m : Memory) : Memory :=
  setIno ep ino ((setNamlen ep name.length m).put (ep + 8) name ((name.length + 4) / 4 * 4))

/-- Chop off blocks of empty entries. -/
def chop (endoff : Nat) (d : Dir) : Dir := if endoff ≠ 0 ∧ endoff < d.iSize then { d with iSize := endoff } else d

/-- Of all directories only this one is modelled, so that the `..` of another one is not. -/
def diraddentry (d : Dir) (name : List UInt8) (ino : Nat) (slot : Slot) (block : Memory) : Option Dir := do
  let (d, ep) ← dirprepareentry d slot block
  let d ← if ino = d.iNumber then dirfixdotdot d else some d
  return chop slot.endoff { d with memory := fillEntry ep name ino d.memory }

/-- Slashes, `.` and `..` are refused. -/
def refused (name : List UInt8) : Bool := name.contains 47 || name = [46] || name = [46, 46]

/-- `ufs_direnter`, for DE_RENAME if `rename`. -/
def direnter (d : Dir) (rename : Bool) (name : List UInt8) (ino : Nat) (block : Memory) : Option Dir :=
  if refused name ∨ rename ∧ ino = d.iNumber then none
  else
    match dircheckforname d name newSlot with
    | (some ep, _) =>
      -- `ufs_dirrename`; the same file is no success.
      if rename ∧ ino ≠ dIno d.memory ep then some { d with memory := setIno ep ino d.memory } else none
    | (none, slot) => diraddentry d name ino slot block

/-- `ufs_dirremove`; no empty slot is looked for. -/
def dirremove (d : Dir) (name : List UInt8) : Option Dir :=
  if name = [46] ∨ name = [46, 46] then none
  else
    match dircheckforname d name ⟨.found, none, 0, 0⟩ with
    | (some ep, slot) =>
      if ep % 512 = 0 then some { d with memory := setIno ep 0 d.memory }
      else
        let pep := ep - slot.size
        some { d with memory := setReclen pep (dReclen d.memory pep + dReclen d.memory ep) d.memory }
    | (none, _) => none

/-- `ufs_dirmakedirect`: the directory of `mkdir`, from the template. -/
def dirmakedirect (ip dp : Nat) (block : Memory) : Dir where
  memory := fillEntry 12 [46, 46] dp (setReclen 12 500 (fillEntry 0 [46] ip (setReclen 0 12 block)))
  iSize := 512
  iNumber := ip

/-! ## Runs -/

/-- A component of a path name. -/
structure Name where
  chars : List UInt8
  nonempty : chars ≠ []
  short : chars.length ≤ 255
  text : 0 ∉ chars

inductive Op where
  | enter (name : Name) (ino : Nat) (block : Memory)
  | rename (name : Name) (ino : Nat) (block : Memory)
  | remove (name : Name)

def apply : Op → Dir → Option Dir
  | .enter name ino block, d => direnter d false name.chars ino block
  | .rename name ino block, d => direnter d true name.chars ino block
  | .remove name, d => dirremove d name.chars

end Svr4.Ufs.Directory
