import Mathlib.Logic.Function.Basic
import Svr4.Foundation.Execution

/-! The cache of UFS inodes: `ihinit`, `ufs_iget`, `idrop` and `ufs_iinactive`.

A call runs from one place where it can sleep to the next. What the functions that sleep
give back is part of the event. A panic, a null pointer that is followed, or a variable
that is read before it is assigned, gives no result.
-/

namespace Svr4.Ufs.Cache

open Function (update)

/-- The address of a pointer to an inode: `&ifreeh`, or `&ip->i_freef`. -/
inductive Link where
  | ifreeh
  | freef (ip : Nat)
  deriving DecidableEq, Repr

/-- What is on a hash chain: a head of `ihead`, or an inode. -/
inductive Node where
  | head (h : Nat)
  | inode (ip : Nat)
  deriving DecidableEq, Repr

/-- `struct inode` with its vnode. The flags are IREF, ILOCKED, IWANT and IRWLOCKED; of
`i_fs`, `i_dquot` and `v_pages` it matters whether they are null, and of `v_type` whether it
is VCHR. -/
structure Inode where
  iref : Bool
  ilocked : Bool
  iwant : Bool
  irwlocked : Bool
  iOwner : Nat
  iCount : Nat
  iDev : Nat
  iNumber : Nat
  iMode : Nat
  iNlink : Int
  iFreef : Option Nat
  iFreeb : Option Link
  iFs : Bool
  fsRonly : Bool
  iDquot : Bool
  vCount : Nat
  vPages : Bool
  vChr : Bool
  deriving DecidableEq, Repr

structure Table where
  inode : Nat → Inode
  forw : Node → Node
  back : Node → Node
  ifreeh : Option Nat
  ifreet : Link

namespace Table

def set (c : Table) (ip : Nat) (value : Inode → Inode) : Table :=
  { c with inode := update c.inode ip (value (c.inode ip)) }

/-- `*link = value`. -/
def store (c : Table) (link : Link) (value : Option Nat) : Table :=
  match link with
  | .ifreeh => { c with ifreeh := value }
  | .freef p => c.set p fun i => { i with iFreef := value }

end Table

/-! ## The free list -/

/-- Take an inode off the free list; `iq` is the variable of `ufs_iget`. -/
def unfree (ip : Nat) (iq : Option Nat) (c : Table) : Option Table := do
  let freeb := (c.inode ip).iFreeb
  let link ← freeb
  let c := match iq with
    | some q => c.set q fun i => { i with iFreeb := freeb }
    | none => { c with ifreet := link }
  let c := c.store link iq
  return c.set ip fun i => { i with iFreef := none, iFreeb := none }

def putFront (ip : Nat) (c : Table) : Table :=
  let c := match c.ifreeh with
    | some q => c.set q fun i => { i with iFreeb := some (.freef ip) }
    | none => { c with ifreet := .freef ip }
  let c := c.set ip fun i => { i with iFreeb := some .ifreeh, iFreef := c.ifreeh }
  { c with ifreeh := some ip }

def putRear (ip : Nat) (c : Table) : Table :=
  let c := match c.ifreeh with
    | some _ => (c.store c.ifreet (some ip)).set ip fun i => { i with iFreeb := some c.ifreet }
    | none => { c with ifreeh := some ip }.set ip fun i => { i with iFreeb := some .ifreeh }
  let c := c.set ip fun i => { i with iFreef := none }
  { c with ifreet := .freef ip }

/-- Put an inode on the free list: in front if it is invalid or has no pages. -/
def putFree (ip : Nat) (c : Table) : Table :=
  if ¬ (c.inode ip).vPages ∨ (c.inode ip).iMode = 0 then putFront ip c else putRear ip c

/-! ## Locks and flags -/

/-- `ILOCK`, of an inode that no other process has locked. -/
def lock (p ip : Nat) (c : Table) : Table :=
  c.set ip fun i => { i with iOwner := p, iCount := i.iCount + 1, ilocked := true }

def iunlock (ip : Nat) (c : Table) : Table :=
  c.set ip fun i =>
    let i := { i with iCount := i.iCount - 1 }
    if i.iCount = 0 then { i with ilocked := false, iwant := false } else i

/-- `ip->i_flag = 0`. -/
def clearFlag (ip : Nat) (c : Table) : Table :=
  c.set ip fun i => { i with iref := false, ilocked := false, iwant := false, irwlocked := false }

def idrop (ip : Nat) (c : Table) : Table :=
  let c := iunlock ip c
  let c := c.set ip fun i => { i with vCount := i.vCount - 1 }
  if (c.inode ip).vCount = 0 then putFree ip (clearFlag ip c) else c

/-! ## The hash chains -/

def remque (ip : Nat) (c : Table) : Table :=
  let c := { c with forw := update c.forw (c.back (.inode ip)) (c.forw (.inode ip)) }
  { c with back := update c.back (c.forw (.inode ip)) (c.back (.inode ip)) }

def insque (ip h : Nat) (c : Table) : Table :=
  let c := { c with back := update c.back (c.forw (.head h)) (.inode ip) }
  let c := { c with forw := update c.forw (.inode ip) (c.forw (.head h)) }
  let c := { c with forw := update c.forw (.head h) (.inode ip) }
  { c with back := update c.back (.inode ip) (.head h) }

/-- The inode is on no chain. -/
def selfque (ip : Nat) (c : Table) : Table :=
  { c with
    forw := update c.forw (.inode ip) (.inode ip)
    back := update c.back (.inode ip) (.inode ip) }

/-- `INOHASH`. -/
def inohash (dev ino : Nat) : Nat := (dev + ino) % 512

/-- The loop over a chain; `fuel` is more than there are inodes. -/
def scan (c : Table) (h dev ino : Nat) : Nat → Node → Option Nat
  | 0, _ => none
  | fuel + 1, node =>
    if node = .head h then none
    else
      match node with
      | .head _ => none
      | .inode ip =>
        if ino = (c.inode ip).iNumber ∧ dev = (c.inode ip).iDev then some ip else scan c h dev ino fuel (c.forw node)

section
variable (nInode : Nat) (hash : Nat → Nat → Nat)

def search (dev ino : Nat) (c : Table) : Option Nat :=
  scan c (hash dev ino) dev ino (nInode + 1) (c.forw (.head (hash dev ino)))

/-! ## Calls -/

/-- Where a call is: at the label `loop` of `ufs_iget`, or in a function that can sleep,
called by `ufs_iget` or by `ufs_iinactive`. -/
inductive Pc where
  | idle
  | lookup (dev ino : Nat)
  | purge (dev ino : Nat)
  | putpage (dev ino ip : Nat)
  | dqrele (dev ino ip : Nat)
  | bread (dev ino ip : Nat)
  | inactive (ip : Nat)
  deriving DecidableEq, Repr

/-- `ufs_iinactive` up to `ufs_itrunc` or `ufs_syncip`. -/
def iinactive (p ip : Nat) (c : Table) : Option (Pc × Table) :=
  let i := c.inode ip
  if ¬ (i.iref ∧ ¬ i.ilocked) ∨ i.iFreeb ≠ none ∨ i.iFreef ≠ none then none
  else if ¬ i.fsRonly then some (.inactive ip, lock p ip c)
  else some (.idle, putFree ip (clearFlag ip c))

/-- The rest of it. -/
def iinactiveEnd (ip : Nat) (c : Table) : Pc × Table :=
  let c := if (c.inode ip).iNlink ≤ 0 then c.set ip fun i => { i with iMode := 0, iDquot := false } else c
  (.idle, putFree ip (clearFlag ip (iunlock ip c)))

/-- The inode is read in under its new name. -/
def identify (dev ino ip : Nat) (c : Table) : Pc × Table :=
  (.bread dev ino ip, c.set ip fun i => { i with iDev := dev, iNumber := ino, iFs := true })

/-- Move the inode on the chain for its new pair. -/
def move (dev ino ip : Nat) (c : Table) : Pc × Table :=
  let c := insque ip (hash dev ino) (remque ip c)
  if (c.inode ip).iDquot then (.dqrele dev ino ip, c) else identify dev ino ip c

/-- The inode that was taken is given up, and the search is made again. -/
def giveUp (dev ino ip : Nat) (c : Table) : Pc × Table :=
  (.lookup dev ino, idrop ip (c.set ip fun i => { i with vCount := i.vCount + 1 }))

def checkHash (dev ino ip : Nat) (checkhash : Bool) (c : Table) : Pc × Table :=
  if checkhash ∧ search nInode hash dev ino c ≠ none then giveUp dev ino ip c else move hash dev ino ip c

/-- Take the first inode of the free list. -/
def take (p dev ino ip : Nat) (checkhash : Bool) (c : Table) : Option (Pc × Table) := do
  let i := c.inode ip
  let iq : Option (Option Nat) := if i.iMode ≠ 0 ∧ i.vPages then some i.iFreef else none
  let iq ← iq
  let c ← unfree ip iq c
  let c := c.set ip fun i => { i with iref := true, ilocked := false, iwant := false, irwlocked := false }
  let c := lock p ip c
  if i.iFs ∧ i.vPages ∧ ¬ i.vChr then return (.putpage dev ino ip, c)
  else return checkHash nInode hash dev ino ip checkhash c

/-- `ufs_iget` from the label `loop` on. -/
def lookup (p dev ino : Nat) (c : Table) : Option (Pc × Table) :=
  match search nInode hash dev ino c with
  | some ip =>
    let i := c.inode ip
    if (i.irwlocked ∨ i.ilocked) ∧ i.iOwner ≠ p then
      some (.lookup dev ino, c.set ip fun i => { i with iwant := true })
    else do
      let c ← if ¬ i.iref then unfree ip i.iFreef c else some c
      let c := c.set ip fun i => { i with iref := true }
      let c := lock p ip c
      return (.idle, c.set ip fun i => { i with vCount := i.vCount + 1 })
  | none =>
    match c.ifreeh with
    | none => some (.purge dev ino, c)
    | some ip => take nInode hash p dev ino ip false c

/-- After `dnlc_purge1`; `more` says whether there was an entry to purge. -/
def purged (p dev ino : Nat) (more : Bool) (c : Table) : Option (Pc × Table) :=
  match c.ifreeh with
  | none => some (if more then .purge dev ino else .idle, c)
  | some ip => take nInode hash p dev ino ip true c

/-- After `VOP_PUTPAGE`. -/
def paged (dev ino ip : Nat) (err : Bool) (c : Table) : Pc × Table :=
  if err ∨ (c.inode ip).iwant then giveUp dev ino ip c else checkHash nInode hash dev ino ip true c

/-- What is on the disk. -/
structure Dinode where
  mode : Nat
  nlink : Int
  chr : Bool
  dquot : Bool
  deriving DecidableEq, Repr

/-- After `bread`. -/
def readIn (p ip : Nat) (error : Bool) (dp : Dinode) (c : Table) : Option (Pc × Table) :=
  if error then
    let c := selfque ip (remque ip c)
    let c := c.set ip fun i => { i with iNumber := 0 }
    iinactive p ip (iunlock ip c)
  else
    some (.idle, c.set ip fun i =>
      { i with
        iMode := dp.mode
        iNlink := dp.nlink
        vCount := 1
        vPages := false
        vChr := dp.chr
        iDquot := dp.dquot })

/-- The last reference goes: `VN_RELE`. -/
def vnRele (p ip : Nat) (c : Table) : Option (Pc × Table) :=
  let c := c.set ip fun i => { i with vCount := i.vCount - 1 }
  if (c.inode ip).vCount = 0 then iinactive p ip c else some (.idle, c)

/-! ## Systems -/

/-- The calls in progress. A call that `dnlc_purge1` makes is one of its own. -/
structure System where
  table : Table
  pc : Nat → Pc

inductive Event where
  | iget (p dev ino : Nat)
  | lookup (p : Nat)
  | purged (p : Nat) (more : Bool)
  | paged (p : Nat) (err : Bool)
  | released (p : Nat)
  | read (p : Nat) (error : Bool) (dp : Dinode)
  | inactivated (p : Nat)
  | iput (p ip : Nat)
  | irele (p ip : Nat)
  | idrop (p ip : Nat)
  deriving DecidableEq, Repr

/-- The caller has the inode locked once, or has it not locked. -/
def holds (c : Table) (p ip : Nat) : Prop :=
  ip < nInode ∧ 0 < (c.inode ip).vCount ∧ (c.inode ip).ilocked = true ∧ (c.inode ip).iOwner = p ∧ (c.inode ip).iCount = 1

instance (c : Table) (p ip : Nat) : Decidable (holds nInode c p ip) := inferInstanceAs (Decidable (_ ∧ _))

/-- The call and what the table is after it; `none` where the call is not in that place. -/
def run (event : Event) (s : System) : Option (Nat × Option (Pc × Table)) :=
  let c := s.table
  match event with
  | .iget p dev ino => if s.pc p = .idle then some (p, some (.lookup dev ino, c)) else none
  | .lookup p =>
    match s.pc p with
    | .lookup dev ino => some (p, lookup nInode hash p dev ino c)
    | _ => none
  | .purged p more =>
    match s.pc p with
    | .purge dev ino => some (p, purged nInode hash p dev ino more c)
    | _ => none
  | .paged p err =>
    match s.pc p with
    -- The pages are gone unless there was an error.
    | .putpage dev ino ip =>
      some (p, some (paged nInode hash dev ino ip err (c.set ip fun i => { i with vPages := i.vPages && err })))
    | _ => none
  | .released p =>
    match s.pc p with
    | .dqrele dev ino ip => some (p, some (identify dev ino ip (c.set ip fun i => { i with iDquot := false })))
    | _ => none
  | .read p error dp =>
    match s.pc p with
    | .bread _ _ ip => some (p, readIn p ip error dp c)
    | _ => none
  | .inactivated p =>
    match s.pc p with
    | .inactive ip => some (p, some (iinactiveEnd ip c))
    | _ => none
  | .iput p ip =>
    if s.pc p = .idle ∧ holds nInode c p ip then some (p, vnRele p ip (iunlock ip c)) else none
  | .irele p ip =>
    if s.pc p = .idle ∧ ip < nInode ∧ 0 < (c.inode ip).vCount ∧ (c.inode ip).ilocked = false ∧ (c.inode ip).iCount = 0 then
      some (p, vnRele p ip c)
    else none
  | .idrop p ip => if s.pc p = .idle ∧ holds nInode c p ip then some (p, some (.idle, idrop ip c)) else none

end

/-! ## Initialisation -/

def zeroed : Inode := ⟨false, false, false, false, 0, 0, 0, 0, 0, 0, none, none, false, false, false, 0, false, false⟩

/-- The loop of `ihinit`: an inode more at the end of the free list. -/
def ihinitNext (c : Table) (ip : Nat) : Table :=
  let c := c.store c.ifreet (some ip)
  let c := c.set ip fun i => { i with iFreeb := some c.ifreet }
  { c with ifreet := .freef ip }

/-- The memory is zeroed, and the first inode is the free list. -/
def ihinitFirst : Table where
  inode ip := if ip = 0 then { zeroed with iFreeb := some .ifreeh } else zeroed
  forw node := node
  back node := node
  ifreeh := some 0
  ifreet := .freef 0

def ihinit (nInode : Nat) : Table := (List.range' 1 (nInode - 1)).foldl ihinitNext ihinitFirst

end Svr4.Ufs.Cache
