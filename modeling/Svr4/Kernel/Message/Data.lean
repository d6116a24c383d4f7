import Svr4.Foundation.Chain
import Svr4.Foundation.Words
import Svr4.Kernel.Ipc
import Svr4.Kernel.Rmap

/-! Message queues, message headers and the map of text segments.

Queues and headers live in tables and are named by their index; a null pointer is
`none`. The text itself is not modelled, only the segments that hold it.
-/

namespace Svr4.Message

open Words Ipc

/-- The tunables. A `msg_ts` is an ushort and a `msg_spot` a short, which bounds the
size of a message and the number of segments. -/
structure Msginfo where
  msgmap : Nat
  msgmax : Nat
  msgmnb : Nat
  msgmni : Nat
  msgssz : Nat
  msgtql : Nat
  msgseg : Nat
  msgmap_table : 2 ≤ msgmap
  msgmax_fits : msgmax ≤ 65535
  msgmni_pos : 0 < msgmni
  msgssz_pos : 0 < msgssz
  msgtql_pos : 0 < msgtql
  msgtql_fits : msgtql < 2147483648
  msgseg_fits : msgseg ≤ 32767

/-- The values of `master.d/msg`. -/
def Msginfo.shipped : Msginfo where
  msgmap := 100
  msgmax := 2048
  msgmnb := 4096
  msgmni := 50
  msgssz := 8
  msgtql := 40
  msgseg := 1024
  msgmap_table := by decide
  msgmax_fits := by decide
  msgmni_pos := by decide
  msgssz_pos := by decide
  msgtql_pos := by decide
  msgtql_fits := by decide
  msgseg_fits := by decide

/-- Convert bytes to segments. -/
def btoq (info : Msginfo) (bytes : Nat) : Nat := (bytes + info.msgssz - 1) / info.msgssz

/-- `struct msg`. -/
structure Msg where
  msgNext : Option Nat
  msgType : Int
  msgTs : Nat
  msgSpot : Int
  deriving DecidableEq, Repr

/-- `struct msqid_ds`, without the times. -/
structure MsqidDs where
  perm : IpcPerm
  msgFirst : Option Nat
  msgLast : Option Nat
  msgCbytes : Nat
  msgQnum : Nat
  msgQbytes : Nat
  msgLspid : Int
  msgLrpid : Int
  deriving DecidableEq, Repr

/-- Store into an `ulong`. -/
def toUlong (value : Nat) : Nat := value % 4294967296

def msgRwait : Nat := 0x200
def msgWwait : Nat := 0x400
def msgR : Nat := 0x100
def msgW : Nat := 0x80

def IpcPerm.waiting (p : IpcPerm) (bit : Nat) : Prop := p.mode &&& bit ≠ 0

instance (p : IpcPerm) (bit : Nat) : Decidable (IpcPerm.waiting p bit) := inferInstanceAs (Decidable (_ ≠ _))

/-- Clear a bit of `mode`. -/
def clearBit (mode bit : Nat) : Nat := mode ^^^ (mode &&& bit)

structure Kernel where
  msgh : Nat → Msg
  msgque : Nat → MsqidDs
  msglock : Nat → Bool
  msgfp : Option Nat
  msgmap : Rmap.Map

/-- A sleep channel: the lock of a queue, the queue itself, its `msg_qnum`, `msgfp`
or `msgmap`. -/
inductive Chan where
  | lock (q : Nat)
  | queue (q : Nat)
  | qnum (q : Nat)
  | msgfp
  | msgmap
  deriving DecidableEq, Repr

namespace Kernel

/-- The links that thread the free list and the queues. -/
abbrev next (k : Kernel) (h : Nat) : Option Nat := (k.msgh h).msgNext

def setMsg (k : Kernel) (h : Nat) (value : Msg → Msg) : Kernel :=
  { k with msgh := Function.update k.msgh h (value (k.msgh h)) }

def setQueue (k : Kernel) (q : Nat) (value : MsqidDs → MsqidDs) : Kernel :=
  { k with msgque := Function.update k.msgque q (value (k.msgque q)) }

/-- Unlink the message `mp` behind `pmp` from the queue. -/
def unlink (k : Kernel) (q : Nat) (pmp : Option Nat) (mp : Nat) : Kernel :=
  let next := k.next mp
  let k := match pmp with
    | none => k.setQueue q fun qp => { qp with msgFirst := next }
    | some pmp => k.setMsg pmp fun m => { m with msgNext := next }
  let k := if next = none then k.setQueue q fun qp => { qp with msgLast := pmp } else k
  k.setQueue q fun qp => { qp with msgQnum := toUlong (qp.msgQnum + 4294967295) }

/-- Put the message `mp` at the end of the queue. -/
def enqueue (k : Kernel) (q mp : Nat) (message : Msg) (pid : Int) (cnt : Nat) : Kernel :=
  let k := k.setQueue q fun qp => { qp with
    msgQnum := toUlong (qp.msgQnum + 1)
    msgCbytes := toUlong (qp.msgCbytes + cnt)
    msgLspid := pid }
  let k := k.setMsg mp fun _ => message
  match (k.msgque q).msgLast with
  | none => k.setQueue q fun qp => { qp with msgFirst := some mp, msgLast := some mp }
  | some last =>
      (k.setMsg last fun m => { m with msgNext := some mp }).setQueue q fun qp => { qp with msgLast := some mp }

end Kernel

/-- The kernel and the channels woken so far. -/
structure Work where
  k : Kernel
  woken : List Chan

namespace Work

def wakeup (w : Work) (chan : Chan) : Work := { w with woken := w.woken ++ [chan] }

/-- `*lockp = 0; wakeup(lockp)`. -/
def unlock (w : Work) (q : Nat) : Work :=
  ({ w with k := { w.k with msglock := Function.update w.k.msglock q false } } : Work).wakeup (.lock q)

/-- Clear a wait bit of the queue and wake its channel if it was set. -/
def release (w : Work) (q bit : Nat) (chan : Chan) : Work :=
  if IpcPerm.waiting (w.k.msgque q).perm bit then
    ({ w with k := w.k.setQueue q fun qp =>
      { qp with perm := { qp.perm with mode := clearBit qp.perm.mode bit } } } : Work).wakeup chan
  else w

/-- Put a header on the free list. -/
def putHeader (w : Work) (h : Nat) : Work :=
  let k := w.k.setMsg h fun mp => { mp with msgNext := w.k.msgfp }
  let w' : Work := if w.k.msgfp = none then ({ w with k } : Work).wakeup .msgfp else { w with k }
  { w' with k := { w'.k with msgfp := some h } }

/-- `rmfree` of the segments of a text. -/
def freeText (w : Work) (size a : Nat) : Option Work := do
  let (msgmap, woken) ← Rmap.rmfree w.k.msgmap size a
  let w := { w with k := { w.k with msgmap } }
  return if woken then w.wakeup .msgmap else w

end Work

variable (info : Msginfo)

/-- Take the message `mp` behind `pmp` off the queue and free what it has. -/
def msgfree (q : Nat) (pmp : Option Nat) (mp : Nat) (w : Work) : Option Work := do
  let w := Work.release { w with k := w.k.unlink q pmp mp } q msgWwait (.queue q)
  let ts := (w.k.msgh mp).msgTs
  let w ← if ts ≠ 0 then w.freeText (btoq info ts) ((w.k.msgh mp).msgSpot + 1).toNat else some w
  return w.putHeader mp

/-- The loop of `IPC_RMID`, with at most one round for each header. -/
def msgfreeAll (q : Nat) : Nat → Work → Option Work
  | 0, _ => none
  | fuel + 1, w =>
      match (w.k.msgque q).msgFirst with
      | none => some w
      | some mp => do msgfreeAll q fuel (← msgfree info q none mp w)

end Svr4.Message
