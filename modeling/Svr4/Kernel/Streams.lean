import Svr4.Foundation.Chain
import Svr4.Foundation.Execution

/-! The message queues of STREAMS: `putq`, `putbq`, `getq`, `rmvq` and `flushq`.

Messages and queues are named by their addresses. A message is its first block with
the sizes of the blocks behind it, and the band records of a queue are a list, as is
the list of enabled queues. A null pointer that is followed, or a variable that is read
before it is assigned, gives no result.
-/

namespace Svr4.Streams

def qenab : Nat := 0x001
def qwantr : Nat := 0x002
def qwantw : Nat := 0x004
def qfull : Nat := 0x008
def qreadr : Nat := 0x010
def qnoenb : Nat := 0x040
def qback : Nat := 0x100

def qbFull : Nat := 0x01
def qbWantw : Nat := 0x02
def qbBack : Nat := 0x04

def qnorm : Nat := 0x00
def qpctl : Nat := 0x80

def mData : Nat := 0x00
def mProto : Nat := 0x01
def mDelay : Nat := 0x0c
def mPcproto : Nat := 0x83

/-- `struct msgb`, with `b_wptr - b_rptr` of each block of the message. -/
structure Msgb where
  bNext : Option Nat
  bPrev : Option Nat
  bBand : Nat
  dbType : Nat
  blocks : List Int
  deriving DecidableEq, Repr

def Msgb.queclass (bp : Msgb) : Nat := if qpctl ≤ bp.dbType then qpctl else qnorm

def datamsg (type : Nat) : Prop := type = mData ∨ type = mProto ∨ type = mPcproto ∨ type = mDelay

instance (type : Nat) : Decidable (datamsg type) := inferInstanceAs (Decidable (_ ∨ _))

/-- `struct qband`. -/
structure Qband where
  qbCount : Int
  qbFirst : Option Nat
  qbLast : Option Nat
  qbHiwat : Int
  qbLowat : Int
  qbFlag : Nat
  deriving DecidableEq, Repr

/-- `struct queue`; `q_nband` is the length of the list of bands. -/
structure Queue where
  qFirst : Option Nat
  qLast : Option Nat
  qNext : Option Nat
  qCount : Int
  qFlag : Nat
  qHiwat : Int
  qLowat : Int
  qBandp : List Qband
  qiSrvp : Bool
  deriving DecidableEq, Repr

/-- `qrun` is the list from `qhead` to `qtail`, and `zalloc` the number of band records
there is memory for. -/
structure Kernel where
  msg : Nat → Msgb
  queue : Nat → Queue
  qrun : List Nat
  qrunflag : Bool
  zalloc : Nat

namespace Kernel

def setMsg (k : Kernel) (bp : Nat) (value : Msgb → Msgb) : Kernel :=
  { k with msg := Function.update k.msg bp (value (k.msg bp)) }

def setQueue (k : Kernel) (q : Nat) (value : Queue → Queue) : Kernel :=
  { k with queue := Function.update k.queue q (value (k.queue q)) }

/-- Change the record of band `i + 1`. -/
def setBand (k : Kernel) (q i : Nat) (value : Qband → Qband) : Kernel :=
  k.setQueue q fun qp => { qp with qBandp := qp.qBandp.modify i value }

abbrev next (k : Kernel) (bp : Nat) : Option Nat := (k.msg bp).bNext

abbrev prev (k : Kernel) (bp : Nat) : Option Nat := (k.msg bp).bPrev

end Kernel

/-- Store into an `ulong`. -/
def toUlong (value : Int) : Int := value % 4294967296

/-- The flags without some. -/
def clear (mask flags : Nat) : Nat := flags ^^^ (flags &&& mask)

def addBlocks (count : Int) (blocks : List Int) : Int := blocks.foldl (fun count size => toUlong (count + size)) count

def subBlocks (count : Int) (blocks : List Int) : Int := blocks.foldl (fun count size => toUlong (count - size)) count

/-! ## Enabling queues -/

def otherq (k : Kernel) (q : Nat) : Nat := if (k.queue q).qFlag &&& qreadr ≠ 0 then q + 1 else q - 1

def backq (k : Kernel) (q : Nat) : Option Nat := (k.queue (otherq k q)).qNext.map (otherq k)

/-- The nearest back queue with a service procedure. No stream is a ring: `fuel` is more
than there are queues. -/
def nearest (k : Kernel) : Nat → Nat → Option Nat
  | 0, _ => none
  | fuel + 1, q => do
    let q ← backq k q
    if (k.queue q).qiSrvp then some q else nearest k fuel q

def qenable (q : Nat) (k : Kernel) : Kernel :=
  if ¬ (k.queue q).qiSrvp then k
  else if (k.queue q).qFlag &&& qenab ≠ 0 then k
  else
    let k := k.setQueue q fun qp => { qp with qFlag := qp.qFlag ||| qenab }
    { k with qrun := k.qrun ++ [q], qrunflag := true }

/-- What `allocband` gives, with the marks of the queue. -/
def Queue.newband (qp : Queue) : Qband := ⟨0, none, none, qp.qHiwat, qp.qLowat, 0⟩

/-- `n` more band records, or as many as there is memory for. -/
def addBands (q : Nat) : Nat → Kernel → Kernel × Bool
  | 0, k => (k, true)
  | n + 1, k =>
    if k.zalloc = 0 then (k, false)
    else
      let k := { k with zalloc := k.zalloc - 1 }
      addBands q n (k.setQueue q fun qp => { qp with qBandp := qp.qBandp ++ [qp.newband] })

/-- The band records up to that of band `pri`. -/
def needBand (q pri : Nat) (k : Kernel) : Kernel × Bool := addBands q (pri - (k.queue q).qBandp.length) k

def setqback (q pri : Nat) (k : Kernel) : Kernel :=
  if pri ≠ 0 then
    let (k, found) := needBand q pri k
    if found then k.setBand q (pri - 1) fun qbp => { qbp with qbFlag := qbp.qbFlag ||| qbBack } else k
  else k.setQueue q fun qp => { qp with qFlag := qp.qFlag ||| qback }

section
variable (nQueue : Nat)

/-- Enable the nearest back queue for the band. -/
def backenable (q pri : Nat) (k : Kernel) : Kernel :=
  match nearest k nQueue q with
  | none => k
  | some q => setqback q pri (qenable q k)

/-! ## Putting -/

/-- The stores that insert a message between two others, or at the ends of the queue. -/
def splice (q bp : Nat) (before after : Option Nat) (k : Kernel) : Kernel :=
  let k := k.setMsg bp fun m => { m with bNext := after, bPrev := before }
  let k := match before with
    | none => k.setQueue q fun qp => { qp with qFirst := some bp }
    | some p => k.setMsg p fun m => { m with bNext := some bp }
  match after with
  | none => k.setQueue q fun qp => { qp with qLast := some bp }
  | some p => k.setMsg p fun m => { m with bPrev := some bp }

/-- The first message from `tmp` on that fails the test. -/
def skip (k : Kernel) (test : Msgb → Bool) : Nat → Option Nat → Option Nat
  | 0, _ => none
  | _ + 1, none => none
  | fuel + 1, some tmp => if test (k.msg tmp) then skip k test fuel (k.next tmp) else some tmp

/-- Where to insert: the messages before and after. -/
abbrev Place := Option Nat × Option Nat

/-- Before a message. -/
def beforeMsg (k : Kernel) (tmp : Nat) : Place := (k.prev tmp, some tmp)

/-- For a band without messages: at the end, or before the first message that is neither
of high priority nor of a band `above`. -/
def behind (nMsg q bp : Nat) (above : Nat → Bool) (first : Nat) (k : Kernel) : Option Place := do
  let tmp ← (k.queue q).qLast
  if (k.msg bp).queclass < (k.msg tmp).queclass ∨ above (k.msg tmp).bBand then return (some tmp, none)
  else
    let tmp ← skip k (fun tmp => qpctl ≤ tmp.dbType) nMsg (some first)
    let tmp ← skip k (fun tmp => above tmp.bBand) nMsg (some tmp)
    return beforeMsg k tmp

/-- Where `putq` inserts; `qbp` is the record of the message's band. -/
def putqPlace (nMsg q bp : Nat) (qbp : Option Qband) (k : Kernel) : Option Place :=
  let qp := k.queue q
  let m := k.msg bp
  match qp.qFirst with
  | none => some (none, none)
  | some first =>
    match qbp with
    | none => do
      let tmp ← qp.qLast
      if m.queclass ≤ (k.msg tmp).queclass then return (some tmp, none)
      else
        let tmp ← skip k (fun tmp => m.queclass ≤ tmp.queclass) nMsg (some first)
        return beforeMsg k tmp
    | some qbp =>
      match qbp.qbFirst with
      | some _ => do
        let tmp ← qbp.qbLast
        return (some tmp, k.next tmp)
      | none => behind nMsg q bp (m.bBand ≤ ·) first k

/-- Where `putbq` inserts. -/
def putbqPlace (nMsg q bp : Nat) (qbp : Option Qband) (k : Kernel) : Option Place :=
  let qp := k.queue q
  let m := k.msg bp
  match qp.qFirst with
  | none => some (none, none)
  | some first =>
    if m.queclass = qpctl then some (none, some first)
    else
      match qbp with
      | none => behind nMsg q bp (m.bBand < ·) first k
      | some qbp =>
        match qbp.qbFirst with
        | some tmp => some (beforeMsg k tmp)
        | none => behind nMsg q bp (m.bBand < ·) first k

/-- The ends of the band after `putq`. -/
def putqEnds (bp : Nat) (empty : Bool) (qbp : Qband) : Qband :=
  { qbp with qbFirst := if empty ∨ qbp.qbFirst = none then some bp else qbp.qbFirst, qbLast := some bp }

def putbqEnds (bp : Nat) (empty : Bool) (qbp : Qband) : Qband :=
  { qbp with qbLast := if empty ∨ qbp.qbFirst = none then some bp else qbp.qbLast, qbFirst := some bp }

/-- A message of band `pri`, which has a record. -/
def putBand (find : Nat → Nat → Option Qband → Kernel → Option Place) (ends : Nat → Bool → Qband → Qband) (q bp pri : Nat)
    (k : Kernel) : Option Kernel := do
  let empty : Bool := (k.queue q).qFirst = none
  let qbp ← (k.queue q).qBandp[pri - 1]?
  let (before, after) ← find q bp (some qbp) k
  let k := splice q bp before after k
  let count := addBlocks qbp.qbCount (k.msg bp).blocks
  return k.setBand q (pri - 1) fun qbp =>
    { ends bp empty qbp with
      qbCount := count
      qbFlag := if count ≥ qbp.qbHiwat then qbp.qbFlag ||| qbFull else qbp.qbFlag }

/-- A message of band 0 or of high priority. -/
def putZero (find : Nat → Nat → Option Qband → Kernel → Option Place) (q bp : Nat) (k : Kernel) : Option Kernel := do
  let (before, after) ← find q bp none k
  let k := splice q bp before after k
  let count := addBlocks (k.queue q).qCount (k.msg bp).blocks
  return k.setQueue q fun qp =>
    { qp with qCount := count, qFlag := if count ≥ qp.qHiwat then qp.qFlag ||| qfull else qp.qFlag }

/-- `putq` and `putbq` differ in the place and in the ends of the band. The result says
whether the message is on the queue. -/
def put (find : Nat → Nat → Option Qband → Kernel → Option Place) (ends : Nat → Bool → Qband → Qband) (q bp : Nat)
    (k : Kernel) : Option (Kernel × Bool) := do
  let mcls := (k.msg bp).queclass
  let pri := (k.msg bp).bBand
  let k := if mcls = qpctl then k.setMsg bp fun m => { m with bBand := 0 } else k
  let banded := mcls ≠ qpctl ∧ pri ≠ 0
  let (k, found) := if banded then needBand q pri k else (k, true)
  if ¬ found then return (k, false)
  let inserted := if banded then putBand find ends q bp pri k else putZero find q bp k
  let k ← inserted
  let canenable := (k.queue q).qFlag &&& qnoenb = 0
  return (if mcls > qnorm ∨ (canenable ∧ (k.queue q).qFlag &&& qwantr ≠ 0) then qenable q k else k, true)

def putq (nMsg q bp : Nat) (k : Kernel) : Option (Kernel × Bool) := put (putqPlace nMsg) putqEnds q bp k

def putbq (nMsg q bp : Nat) (k : Kernel) : Option (Kernel × Bool) := put (putbqPlace nMsg) putbqEnds q bp k

/-! ## Taking off -/

/-- The count of the queue goes down; whether it falls below the low water mark. -/
def lowerQueue (q : Nat) (blocks : List Int) (k : Kernel) : Kernel × Bool :=
  let qp := k.queue q
  let count := subBlocks qp.qCount blocks
  (k.setQueue q fun qp =>
    { qp with qCount := count, qFlag := if count < qp.qHiwat then clear qfull qp.qFlag else qp.qFlag },
    qp.qCount ≥ qp.qLowat ∧ ¬ count ≥ qp.qLowat)

def lowerBand (q i : Nat) (qbp : Qband) (blocks : List Int) (k : Kernel) : Kernel × Bool :=
  let count := subBlocks qbp.qbCount blocks
  (k.setBand q i fun qbp =>
    { qbp with qbCount := count, qbFlag := if count < qbp.qbHiwat then clear qbFull qbp.qbFlag else qbp.qbFlag },
    qbp.qbCount ≥ qbp.qbLowat ∧ ¬ count ≥ qbp.qbLowat)

/-- The first message, if there is one. -/
def getq (q : Nat) (k : Kernel) : Option (Option Nat × Kernel) :=
  let qp := k.queue q
  -- The variable of the whole function; the block for other bands has one of its own.
  let qbp : Option Nat := none
  match qp.qFirst with
  | none =>
    let k := k.setQueue q fun qp => { qp with qFlag := qp.qFlag ||| qwantr }
    if qp.qCount < qp.qLowat ∧ (k.queue q).qFlag &&& qwantw ≠ 0 then
      let k := k.setQueue q fun qp => { qp with qFlag := clear qwantw qp.qFlag }
      match nearest k nQueue q with
      | none => some (none, k)
      | some _ => none -- the band of a null message
    else some (none, k)
  | some bp => do
    let m := k.msg bp
    let k := k.setQueue q fun qp =>
      { qp with qFirst := m.bNext, qLast := if m.bNext = none then none else qp.qLast }
    let k := match m.bNext with
      | none => k
      | some p => k.setMsg p fun m => { m with bPrev := none }
    let rest (k : Kernel) : Kernel :=
      (k.setQueue q fun qp => { qp with qFlag := clear qwantr qp.qFlag }).setMsg bp fun m =>
        { m with bNext := none, bPrev := none }
    if m.bBand = 0 then
      let wantw := (k.queue q).qFlag &&& qwantw ≠ 0
      let (k, low) := lowerQueue q m.blocks k
      let k := rest k
      if low ∧ wantw then
        let k := k.setQueue q fun qp => { qp with qFlag := clear qwantw qp.qFlag }
        return (some bp, backenable nQueue q m.bBand k)
      else return (some bp, k)
    else
      let i := m.bBand - 1
      let record ← (k.queue q).qBandp[i]?
      let k := k.setBand q i fun qbp =>
        if qbp.qbFirst = qbp.qbLast then { qbp with qbFirst := none, qbLast := none }
        else { qbp with qbFirst := m.bNext }
      let wantw := record.qbFlag &&& qbWantw ≠ 0
      let (k, low) := lowerBand q i record m.blocks k
      let k := rest k
      if low ∧ wantw then
        let i ← qbp
        let k := k.setBand q i fun qbp => { qbp with qbFlag := clear qbWantw qbp.qbFlag }
        return (some bp, backenable nQueue q m.bBand k)
      else return (some bp, k)

/-- Take a message of the queue out of the list. -/
def unlink (q mp : Nat) (k : Kernel) : Kernel :=
  let m := k.msg mp
  let k := match m.bPrev with
    | none => k.setQueue q fun qp => { qp with qFirst := m.bNext }
    | some p => k.setMsg p fun p => { p with bNext := m.bNext }
  let k := match m.bNext with
    | none => k.setQueue q fun qp => { qp with qLast := m.bPrev }
    | some p => k.setMsg p fun p => { p with bPrev := m.bPrev }
  k.setMsg mp fun m => { m with bNext := none, bPrev := none }

/-- The ends of the band of a message that leaves. -/
def rmvqEnds (k : Kernel) (mp : Nat) (qbp : Qband) : Qband :=
  let m := k.msg mp
  let sameBand (p : Option Nat) : Option Nat := p.bind fun p => if m.bBand = (k.msg p).bBand then some p else none
  { qbp with
    qbFirst := if qbp.qbFirst = some mp then sameBand m.bNext else qbp.qbFirst
    qbLast := if qbp.qbLast = some mp then sameBand m.bPrev else qbp.qbLast }

def rmvq (q mp : Nat) (k : Kernel) : Option Kernel :=
  let m := k.msg mp
  if m.bBand ≠ 0 then do
    let i := m.bBand - 1
    let record ← (k.queue q).qBandp[i]?
    let k := k.setBand q i (rmvqEnds k mp)
    let k := unlink q mp k
    let wantw := record.qbFlag &&& qbWantw ≠ 0
    let (k, low) := lowerBand q i record m.blocks k
    if low ∧ wantw then
      let k := k.setBand q i fun qbp => { qbp with qbFlag := clear qbWantw qbp.qbFlag }
      return backenable nQueue q m.bBand k
    else return k
  else
    let k := unlink q mp k
    let wantw := (k.queue q).qFlag &&& qwantw ≠ 0
    let (k, low) := lowerQueue q m.blocks k
    if low ∧ wantw then
      let k := k.setQueue q fun qp => { qp with qFlag := clear qwantw qp.qFlag }
      some (backenable nQueue q m.bBand k)
    else some k

/-! ## Flushing -/

/-- The messages from `mp` on go back on the queue, or are freed. -/
def requeue (nMsg q : Nat) (flag : Bool) : Nat → Option Nat → Kernel → Option Kernel
  | 0, _, _ => none
  | _ + 1, none, k => some k
  | fuel + 1, some mp, k =>
    let nmp := k.next mp
    if flag ∨ datamsg (k.msg mp).dbType then requeue nMsg q flag fuel nmp k
    else do
      let (k, _) ← putq nMsg q mp k
      requeue nMsg q flag fuel nmp k

/-- The bands that are wanted and below their low water mark. -/
def Qband.writable (qbp : Qband) : Prop := qbp.qbFlag &&& qbWantw ≠ 0 ∧ qbp.qbCount < qbp.qbLowat

instance (qbp : Qband) : Decidable qbp.writable := inferInstanceAs (Decidable (_ ∧ _))

def flushq (nMsg q : Nat) (flag : Bool) (k : Kernel) : Option Kernel := do
  let mp := (k.queue q).qFirst
  let k := k.setQueue q fun qp =>
    { qp with
      qFirst := none
      qLast := none
      qCount := 0
      qBandp := qp.qBandp.map fun qbp =>
        { qbp with qbFirst := none, qbLast := none, qbCount := 0, qbFlag := clear qbFull qbp.qbFlag }
      qFlag := clear qfull qp.qFlag }
  let k ← requeue nMsg q flag (nMsg + 1) mp k
  let qp := k.queue q
  let qbf (pri : Nat) : Bool := 0 < pri ∧ ((qp.qBandp[pri - 1]?).any fun qbp => qbp.writable)
  let zero := qp.qFlag &&& qwantw ≠ 0 ∧ qp.qCount < qp.qLowat
  let k := k.setQueue q fun qp =>
    { qp with
      qBandp := qp.qBandp.map fun qbp =>
        if qbp.writable then { qbp with qbFlag := clear qbWantw qbp.qbFlag } else qbp
      qFlag := if zero then clear qwantw qp.qFlag else qp.qFlag }
  if zero ∨ (qp.qBandp.any fun qbp => qbp.writable) then
    match nearest k nQueue q with
    | none => return k
    | some back =>
      let k := qenable back k
      let pris := (List.range' 1 (k.queue back).qBandp.length).reverse.filter qbf
      let k := pris.foldl (fun k pri => setqback back pri k) k
      return if zero then setqback back 0 k else k
  else return k

end

end Svr4.Streams
