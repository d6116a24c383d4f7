import Mathlib.Data.Finset.Card
import Svr4.Foundation.Execution

/-! Message blocks, data blocks and buffers of `stream.c`.
A triplet and the two headers in it have one address, which stands for the message header, for the
data block and for the whole; `xmdballoc` and `xmsgalloc` take memory that no block uses. -/

namespace Svr4.StreamBlocks

/-- Status flags for triplets. -/
inductive Status where
  | mdbblk
  | notM
  | notD
  | xconn
  deriving DecidableEq

structure Frtn where
  freeFunc : Option Nat
  freeArg : Nat
  deriving DecidableEq

/-- What `db_base` points at: the buffer inside the triplet, or a separate one. Separate buffers
are numbered in the order they come, and an external one has the address its owner gave. -/
inductive Base where
  | own
  | kmem (n : Nat)
  | external (n address : Nat)
  deriving DecidableEq

def Base.serial : Base → Option Nat
  | .own => none
  | .kmem n => some n
  | .external n _ => some n

/-- The address of a buffer, up to the words the other two kinds are aligned to. -/
def Base.address : Base → Nat
  | .own => 0
  | .kmem _ => 0
  | .external _ address => address

/-- `b_rptr` and `b_wptr` count from `db_base`. -/
structure Msgb where
  bCont : Option Nat
  bRptr : Nat
  bWptr : Nat
  bDatap : Nat

/-- `db_lim` counts from `db_base`. -/
structure Datab where
  dbFrtnp : Option Frtn
  dbBase : Base
  dbLim : Nat
  dbRef : Nat
  dbType : Nat
  dbIswhat : Status
  dbMsgaddr : Nat

/-- What is done with a separate buffer when its data block goes. -/
inductive Release where
  | kmemFree (base : Base) (size : Nat)
  | freeFunc (base : Base) (func arg : Nat)
  | nothing (base : Base)
  deriving DecidableEq

def Release.base : Release → Base
  | .kmemFree base _ => base
  | .freeFunc base _ _ => base
  | .nothing base => base

/-- The buffer of a data block that nothing refers to any more. -/
def Datab.release (d : Datab) : List Release :=
  if d.dbBase ≠ .own then
    match d.dbFrtnp with
    | none => [.kmemFree d.dbBase d.dbLim]
    | some frtnp =>
      match frtnp.freeFunc with
      | some func => [.freeFunc d.dbBase func frtnp.freeArg]
      | none => [.nothing d.dbBase]
  else []

/-- The fields after `msgfreelist` are no variables of the kernel: the next address that was
never used, the triplets and the pool headers made so far, the message blocks in use, the number
of separate buffers so far and what was done with them. `freeing` is the variable `bp` of
`freemsg` while it runs. -/
structure Blocks where
  mblk : Nat → Msgb
  dblk : Nat → Datab
  mdbfreelist : List Nat
  msgfreelist : List Nat
  fresh : Nat
  triplets : Finset Nat
  pool : Finset Nat
  live : Finset Nat
  buffers : Nat
  log : List Release
  freeing : Option Nat

def mData : Nat := 0

def fastbuf : Nat := 128 - 32 - 36

namespace Blocks

def setMblk (s : Blocks) (bp : Nat) (f : Msgb → Msgb) : Blocks :=
  { s with mblk := Function.update s.mblk bp (f (s.mblk bp)) }

def setDblk (s : Blocks) (dbp : Nat) (f : Datab → Datab) : Blocks :=
  { s with dblk := Function.update s.dblk dbp (f (s.dblk dbp)) }

def setCont (s : Blocks) (bp : Nat) (cont : Option Nat) : Blocks :=
  s.setMblk bp fun m => { m with bCont := cont }

def freemdbblock (s : Blocks) (mdbp : Nat) : Blocks := { s with mdbfreelist := mdbp :: s.mdbfreelist }

def freemsgblock (s : Blocks) (mesgp : Nat) : Blocks := { s with msgfreelist := mesgp :: s.msgfreelist }

/-- The message block is in use from now on. -/
def hold (s : Blocks) (bp : Nat) : Blocks := { s with live := insert bp s.live }

def drop (s : Blocks) (bp : Nat) : Blocks := { s with live := s.live.erase bp }

/-! ## Allocation -/

/-- What the kernel memory allocator answers: to `xmdballoc` or `xmsgalloc`, and to a request
for a buffer. -/
structure Supply where
  block : Bool
  buffer : Bool

def kmemAlloc (answer : Bool) (size : Nat) (s : Blocks) : Option (Base × Blocks) :=
  if size = 0 then none
  else if answer then some (.kmem s.buffers, { s with buffers := s.buffers + 1 })
  else none

def xmdballoc (answer : Bool) (s : Blocks) : Option (Nat × Blocks) :=
  if answer then some (s.fresh, { s with fresh := s.fresh + 1, triplets := insert s.fresh s.triplets }) else none

def xmsgalloc (answer : Bool) (s : Blocks) : Option (Nat × Blocks) :=
  if answer then some (s.fresh, { s with fresh := s.fresh + 1, pool := insert s.fresh s.pool }) else none

def takeMdbblock (answer : Bool) (s : Blocks) : Option (Nat × Blocks) :=
  match s.mdbfreelist with
  | mdbptr :: rest => some (mdbptr, { s with mdbfreelist := rest })
  | [] => xmdballoc answer s

def takeMsgblock (answer : Bool) (s : Blocks) : Option (Nat × Blocks) :=
  match s.msgfreelist with
  | mesgp :: rest => some (mesgp, { s with msgfreelist := rest })
  | [] => xmsgalloc answer s

/-- The two headers of a triplet, all but the buffer. -/
def initTriplet (mdbptr : Nat) (s : Blocks) : Blocks :=
  (s.setMblk mdbptr fun m => { m with bDatap := mdbptr, bCont := none }).setDblk mdbptr fun d =>
    { d with dbFrtnp := none, dbType := mData, dbRef := 1, dbMsgaddr := mdbptr, dbIswhat := .mdbblk }

def setBuffer (mdbptr : Nat) (base : Base) (lim : Nat) (s : Blocks) : Blocks :=
  (s.setMblk mdbptr fun m => { m with bRptr := 0, bWptr := 0 }).setDblk mdbptr fun d =>
    { d with dbBase := base, dbLim := lim }

def allocb (supply : Supply) (size : Int) (s : Blocks) : Option Nat × Blocks :=
  match takeMdbblock supply.block s with
  | none => (none, s)
  | some (mdbptr, s) =>
    let s := initTriplet mdbptr s
    if size > fastbuf then
      match kmemAlloc supply.buffer size.toNat s with
      | none => (none, s.freemdbblock mdbptr)
      | some (buf, s) => (some mdbptr, setBuffer mdbptr buf size.toNat s)
    else (some mdbptr, setBuffer mdbptr .own fastbuf s)

/-- Address 0 is the null pointer. -/
def esballoc (supply : Supply) (base size : Nat) (frRtn : Option Frtn) (s : Blocks) : Option Nat × Blocks :=
  if base = 0 ∨ frRtn = none then (none, s)
  else
    match allocb supply (-1) s with
    | (none, s) => (none, s)
    | (some mp, s) =>
      let s := setBuffer mp (.external s.buffers base) size { s with buffers := s.buffers + 1 }
      (some mp, s.setDblk mp fun d => { d with dbFrtnp := frRtn })

/-! ## Freeing -/

def releaseBuffer (dbp : Nat) (s : Blocks) : Blocks := { s with log := (s.dblk dbp).release ++ s.log }

/-- The header of a block that is freed goes back to the pool, or it is marked in its triplet,
or it was the last of its triplet. -/
def freeHeader (bp : Nat) (s : Blocks) : Blocks :=
  let dbp := (s.mblk bp).bDatap
  if (s.dblk dbp).dbMsgaddr ≠ bp then (s.drop bp).freemsgblock bp
  else if (s.dblk bp).dbIswhat = .notD then (s.drop bp).freemdbblock bp
  else (s.drop bp).setDblk bp fun d => { d with dbIswhat := .notM }

def lessRef (dbp : Nat) (s : Blocks) : Blocks :=
  s.setDblk dbp fun d => { d with dbRef := (d.dbRef + 255) % 256 }

def freeData (dbp : Nat) (s : Blocks) : Blocks :=
  let s := releaseBuffer dbp s
  if (s.dblk dbp).dbIswhat = .notM then s.freemdbblock dbp
  else s.setDblk dbp fun d => { d with dbIswhat := .notD }

def freeb (bp : Nat) (s : Blocks) : Blocks :=
  let dbp := (s.mblk bp).bDatap
  let s := lessRef dbp (freeHeader bp s)
  if (s.dblk dbp).dbRef > 0 then s else freeData dbp s

/-- The macro `_FREEB`. -/
def freebMacro (msgp : Nat) (s : Blocks) : Blocks :=
  let dbp := (s.mblk msgp).bDatap
  let s := lessRef dbp (freeHeader msgp s)
  if (s.dblk dbp).dbRef = 0 then freeData dbp s else s

/-- One round of the loop of `freemsg`. -/
def freemsgRound (bp : Nat) (s : Blocks) : Blocks :=
  let tp := (s.mblk bp).bCont
  { freebMacro bp s with freeing := tp }

/-! ## Duplicates and copies -/

def dupb (answer : Bool) (bp : Nat) (s : Blocks) : Option Nat × Blocks :=
  match takeMsgblock answer s with
  | none => (none, s)
  | some (nbp, s) =>
    let dbp := (s.mblk bp).bDatap
    let s := s.setDblk dbp fun d => { d with dbRef := (d.dbRef + 1) % 256 }
    (some nbp, (s.setMblk nbp fun _ => { s.mblk bp with bCont := none }).hold nbp)

/-- The macro `_DUPB`. -/
def dupbMacro (answer : Bool) (oldbp : Nat) (s : Blocks) : Option Nat × Blocks :=
  match s.msgfreelist with
  | [] => dupb answer oldbp s
  | newbp :: rest =>
    let s := { s with msgfreelist := rest }
    let dbp := (s.mblk oldbp).bDatap
    let s := s.setDblk dbp fun d => { d with dbRef := (d.dbRef + 1) % 256 }
    (some newbp, (s.setMblk newbp fun _ => { s.mblk oldbp with bCont := none }).hold newbp)

def copyb (supply : Supply) (bp : Nat) (s : Blocks) : Option Nat × Blocks :=
  let m := s.mblk bp
  let dp := s.dblk m.bDatap
  match allocb supply dp.dbLim s with
  | (none, s) => (none, s)
  | (some nbp, s) =>
    let s := s.setDblk nbp fun d => { d with dbType := dp.dbType }
    (some nbp, (s.setMblk nbp fun n => { n with bRptr := m.bRptr, bWptr := m.bWptr }).hold nbp)

/-- The loop of `dupmsg` and `copymsg`: `one` makes the next block, and a failure frees what
was made. `head` is the first new block, `nbp` the last, and `k` counts the calls. -/
def rest (one : Nat → Nat → Blocks → Option Nat × Blocks) (head : Nat) :
    Nat → Nat → Nat → Nat → Blocks → Option Blocks
  | fuel, k, nbp, bp, s =>
    match (s.mblk bp).bCont with
    | none => some s
    | some next =>
      match fuel with
      | 0 => none
      | fuel + 1 =>
        match one k next s with
        | (none, s) => some { s.setCont nbp none with freeing := some head }
        | (some new, s) => rest one head fuel (k + 1) new next (s.setCont nbp (some new))

def dupmsg (answers : Nat → Bool) (fuel bp : Nat) (s : Blocks) : Option Blocks :=
  match dupbMacro (answers 0) bp s with
  | (none, s) => some s
  | (some nbp, s) => rest (fun k => dupbMacro (answers k)) nbp fuel 1 nbp bp s

def copymsg (supplies : Nat → Supply) (fuel bp : Nat) (s : Blocks) : Option Blocks :=
  match copyb (supplies 0) bp s with
  | (none, s) => some s
  | (some nbp, s) => rest (fun k => copyb (supplies k)) nbp fuel 1 nbp bp s

/-! ## Messages -/

def size (s : Blocks) (bp : Nat) : Nat := (s.mblk bp).bWptr - (s.mblk bp).bRptr

def strAligned (s : Blocks) (bp : Nat) : Bool :=
  ((s.dblk (s.mblk bp).bDatap).dbBase.address + (s.mblk bp).bRptr) % 4 = 0

def blockType (s : Blocks) (bp : Nat) : Nat := (s.dblk (s.mblk bp).bDatap).dbType

def sizeFrom (s : Blocks) (type : Nat) : Nat → Option Nat → Option Nat
  | _, none => some 0
  | 0, some _ => none
  | fuel + 1, some bp =>
    if type ≠ s.blockType bp then some 0
    else (sizeFrom s type fuel (s.mblk bp).bCont).map (s.size bp + ·)

def xmsgsize (s : Blocks) (fuel bp : Nat) : Option Nat := sizeFrom s (s.blockType bp) fuel (some bp)

/-- The special cases of `pullupmsg`: it returns at once, or it goes on with a number of bytes. -/
def pullSize (s : Blocks) (fuel mp : Nat) (len : Int) : Option (Except Bool Nat) :=
  if len = -1 then
    if (s.mblk mp).bCont = none then
      if s.strAligned mp then some (.error true) else some (.ok (s.size mp))
    else (s.xmsgsize fuel mp).map .ok
  else if (s.size mp : Int) ≥ len then
    if s.strAligned mp then some (.error true) else some (.ok (s.size mp))
  else (s.xmsgsize fuel mp).map fun count => if (count : Int) < len then .error false else .ok len.toNat

/-- The read pointer of a block moves. -/
def advance (s : Blocks) (bp n : Nat) : Blocks := s.setMblk bp fun m => { m with bRptr := m.bRptr + n }

/-- The loop that copies `len` bytes from `bp` on: the bytes copied and the block it stops at. -/
def pullLoop (mp : Nat) : Nat → Nat → Option Nat → Blocks → Option (Nat × Option Nat × Blocks)
  | _, 0, bp, s => some (0, bp, s)
  | _, _ + 1, none, s => some (0, none, s)
  | 0, _ + 1, some _, _ => none
  | fuel + 1, len + 1, some bp, s =>
    let n := min (s.size bp) (len + 1)
    let s := s.advance bp n
    if (s.mblk bp).bWptr ≠ (s.mblk bp).bRptr then some (n, some bp, s)
    else
      let bcont := (s.mblk bp).bCont
      let s := if bp ≠ mp then freeb bp s else s
      (pullLoop mp fuel (len + 1 - n) bcont s).map fun (copied, stop, s) => (n + copied, stop, s)

/-- The end of `pullupmsg` on a shared data block: the header `mp` leaves `dbp` for the data
block of `newmp`, whose own header is never used. -/
def crossConnect (mp dbp newmp copied : Nat) (bp : Option Nat) (s : Blocks) : Blocks :=
  let s :=
    if (s.dblk dbp).dbMsgaddr = mp then
      let s := s.setDblk newmp fun d => { d with dbMsgaddr := mp }
      if (s.dblk mp).dbIswhat ≠ .notD then s.setDblk mp fun d => { d with dbIswhat := .xconn } else s
    else s
  let s := s.setDblk newmp fun d => { d with dbIswhat := .notM }
  s.setMblk mp fun _ => ⟨bp, 0, copied, newmp⟩

/-- The end of `pullupmsg` on a data block of its own: the buffer is replaced. -/
def replaceBuffer (mp dbp len copied : Nat) (newbuf : Base) (bp : Option Nat) (s : Blocks) : Blocks :=
  let s := s.setCont mp bp
  let s := releaseBuffer dbp s
  let s := if (s.dblk dbp).dbBase ≠ .own then s.setDblk dbp fun d => { d with dbFrtnp := none } else s
  let s := s.setMblk mp fun m => { m with bRptr := 0, bWptr := copied }
  s.setDblk dbp fun d => { d with dbBase := newbuf, dbLim := len }

def pullupmsg (supply : Supply) (fuel mp : Nat) (len : Int) (s : Blocks) : Option Blocks :=
  match s.pullSize fuel mp len with
  | none => none
  | some (.error _) => some s
  | some (.ok len) =>
    let dbp := (s.mblk mp).bDatap
    if (s.dblk dbp).dbRef > 1 then
      let type := (s.dblk dbp).dbType
      match allocb supply len s with
      | (none, s) => some s
      | (some newmp, s) =>
        let s := s.setDblk newmp fun d => { d with dbType := type }
        let s := lessRef dbp s
        (pullLoop mp fuel len (some mp) s).map fun (copied, bp, s) => crossConnect mp dbp newmp copied bp s
    else
      match kmemAlloc supply.buffer len s with
      | none => some s
      | some (newbuf, s) =>
        (pullLoop mp fuel len (some mp) s).map fun (copied, bp, s) => replaceBuffer mp dbp len copied newbuf bp s

def lastBlock (s : Blocks) : Nat → Nat → Option Nat
  | fuel, mp =>
    match (s.mblk mp).bCont with
    | none => some mp
    | some next =>
      match fuel with
      | 0 => none
      | fuel + 1 => lastBlock s fuel next

def linkb (fuel mp bp : Nat) (s : Blocks) : Option Blocks :=
  (s.lastBlock fuel mp).map fun last => s.setCont last (some bp)

def unlinkb (bp : Nat) (s : Blocks) : Blocks := s.setCont bp none

end Blocks

end Svr4.StreamBlocks
