import Svr4.Foundation.Execution
import Svr4.Kernel.Message.Data

/-! The message system calls as a system of processes.

A call runs without interruption up to `sleep`, or up to a `copyin` or `copyout`,
which can sleep with the queue locked. `sleep` on a lock does not catch signals:
one that comes ends the call.
-/

namespace Svr4.Message

open Words Ipc

/-! ## Calls and where they stop -/

/-- `IPC_STAT` and `IPC_SET` have a variant for the old structure. -/
inductive Cmd where
  | rmid
  | set
  | ostat
  | stat
  | other
  deriving DecidableEq, Repr

inductive Call where
  | ctl (msgid : Int) (cmd : Cmd)
  | rcv (msqid msgsz msgtyp : Int) (noerror nowait : Bool)
  | snd (msqid msgsz : Int) (nowait : Bool)
  deriving DecidableEq, Repr

def Call.id : Call → Int
  | .ctl msgid _ => msgid
  | .rcv msqid _ _ _ _ => msqid
  | .snd msqid _ _ => msqid

structure Caller where
  cr : Cred
  pid : Int
  deriving DecidableEq, Repr

/-- Where a call is when it calls `msgconv`. `getres` has the type of the message with
it; `unroom` and `unsleep` are the returns from `sleep` with a signal. -/
inductive Point where
  | entry
  | findmsg
  | getres (type : Int)
  | unroom
  | unsleep
  deriving DecidableEq, Repr

/-- Where a call is when it copies, the queue locked. A sender has a header and, since
it has text to copy, segments. -/
inductive Copy where
  | set
  | stat
  | rcvType (smp : Nat) (spmp : Option Nat) (sz : Nat)
  | rcvText (smp : Nat) (spmp : Option Nat) (sz : Nat)
  | sndType
  | sndText (type : Int) (mp spot : Nat)
  deriving DecidableEq, Repr

/-- How a part of a call that is not interrupted ends. -/
inductive Next where
  | ret (result : Except Errno Int)
  | lock (point : Point)
  | copy (q : Nat) (copy : Copy)
  | sleep (chan : Chan) (type : Int)

/-- What `copyin` brings: the type of a message, or what `IPC_SET` sets. -/
structure Settings where
  uid : Int
  gid : Int
  mode : Nat
  msgQbytes : Nat
  deriving DecidableEq, Repr

section
variable (info : Msginfo)

/-! ## `msgconv` -/

inductive Conv where
  | invalid (w : Work)
  | busy
  | locked (q : Nat) (w : Work)

def msgconv (id : Int) (w : Work) : Conv :=
  if id < 0 then .invalid w
  else
    let q := (id % info.msgmni).toNat
    if w.k.msglock q then .busy
    else
      let w : Work := { w with k := { w.k with msglock := Function.update w.k.msglock q true } }
      if (w.k.msgque q).perm.allocated ∧ id / info.msgmni = (w.k.msgque q).perm.seq then .locked q w
      else .invalid (w.unlock q)

/-! ## `msgctl` -/

/-- `IPC_RMID` once it is allowed. -/
def rmid (msgid : Int) (q : Nat) (w : Work) : Option Work := do
  let w ← msgfreeAll info q (info.msgtql + 1) w
  let perm := (w.k.msgque q).perm
  let w := if IpcPerm.waiting perm msgRwait then w.wakeup (.qnum q) else w
  let w := if IpcPerm.waiting perm msgWwait then w.wakeup (.queue q) else w
  return { w with k := w.k.setQueue q fun qp => { qp with
    msgCbytes := 0
    perm := { qp.perm with
      seq := if toInt (msgid + info.msgmni) < 0 then 0 else qp.perm.seq + 1
      mode := 0 } } }

/-- `msgctl` with the queue locked. -/
def msgctl (c : Caller) (msgid : Int) (cmd : Cmd) (q : Nat) (w : Work) : Option (Work × Next) :=
  let qp := w.k.msgque q
  let out (result : Except Errno Int) : Option (Work × Next) := some (w.unlock q, .ret result)
  match cmd with
  | .rmid =>
      if ¬ owns qp.perm c.cr then out (.error .eperm)
      else do
        let w ← rmid info msgid q w
        return (w.unlock q, .ret (.ok 0))
  | .set => if ¬ owns qp.perm c.cr then out (.error .eperm) else some (w, .copy q .set)
  | .ostat =>
      match ipcaccess qp.perm msgR c.cr with
      | some error => out (.error error)
      | none =>
          if 65535 < qp.perm.uid ∨ 65535 < qp.perm.gid ∨ 65535 < qp.perm.cuid ∨ 65535 < qp.perm.cgid ∨
              65535 < qp.perm.seq ∨ 65535 < qp.msgCbytes ∨ 65535 < qp.msgQnum ∨ 65535 < qp.msgQbytes ∨
              32767 < qp.msgLspid ∨ 32767 < qp.msgLrpid then out (.error .eoverflow)
          else some (w, .copy q .stat)
  | .stat =>
      match ipcaccess qp.perm msgR c.cr with
      | some error => out (.error error)
      | none => some (w, .copy q .stat)
  | .other => out (.error .einval)

/-! ## `msgrcv` -/

/-- The loop over the queue: the best message so far and its predecessor. At most one
round for each header and one for the end. -/
def search (k : Kernel) (msgtyp : Int) : Nat → Option Nat → Option Nat → Option (Nat × Option Nat) →
    Option (Option (Nat × Option Nat))
  | 0, _, _, _ => none
  | _ + 1, _, none, best => some best
  | fuel + 1, pmp, some mp, best =>
      let type := (k.msgh mp).msgType
      if 0 < msgtyp then
        if msgtyp = type then some (some (mp, pmp)) else search k msgtyp fuel (some mp) (k.next mp) best
      else if type ≤ toInt (-msgtyp) then
        let better := match best with
          | none => true
          | some (smp, _) => ¬ (k.msgh smp).msgType ≤ type
        search k msgtyp fuel (some mp) (k.next mp) (if better then some (mp, pmp) else best)
      else search k msgtyp fuel (some mp) (k.next mp) best

/-- The message to receive. -/
def choose (k : Kernel) (q : Nat) (msgtyp : Int) : Option (Option (Nat × Option Nat)) :=
  let first := (k.msgque q).msgFirst
  if msgtyp = 0 then some (first.map fun mp => (mp, none))
  else search k msgtyp (info.msgtql + 1) none first none

/-- From the label `findmsg`. -/
def findmsg (msqid msgsz msgtyp : Int) (noerror nowait : Bool) (w : Work) : Option (Work × Next) :=
  match msgconv info msqid w with
  | .invalid w => some (w, .ret (.error .eidrm))
  | .busy => some (w, .lock .findmsg)
  | .locked q w => do
      match ← choose info w.k q msgtyp with
      | some (smp, spmp) =>
          let ts := (w.k.msgh smp).msgTs
          if msgsz < ts then
            if noerror then some (w, .copy q (.rcvType smp spmp msgsz.toNat))
            else some (w.unlock q, .ret (.error .e2big))
          else some (w, .copy q (.rcvType smp spmp ts))
      | none =>
          if nowait then some (w.unlock q, .ret (.error .enomsg))
          else
            let w : Work := { w with k := w.k.setQueue q fun qp =>
              { qp with perm := { qp.perm with mode := qp.perm.mode ||| msgRwait } } }
            some (w.unlock q, .sleep (.qnum q) 0)

/-- `msgrcv` with the queue locked for the first time. -/
def msgrcv (c : Caller) (msqid msgsz msgtyp : Int) (noerror nowait : Bool) (q : Nat) (w : Work) :
    Option (Work × Next) :=
  match ipcaccess (w.k.msgque q).perm msgR c.cr with
  | some error => some (w.unlock q, .ret (.error error))
  | none =>
      if msgsz < 0 then some (w.unlock q, .ret (.error .einval))
      else findmsg info msqid msgsz msgtyp noerror nowait (w.unlock q)

/-- The message has been copied out. -/
def received (c : Caller) (q smp : Nat) (spmp : Option Nat) (sz : Nat) (w : Work) : Option (Work × Next) := do
  let k := w.k.setQueue q fun qp => { qp with
    msgCbytes := toUlong (qp.msgCbytes + 4294967296 - (w.k.msgh smp).msgTs)
    msgLrpid := c.pid }
  let w ← msgfree info q spmp smp { w with k }
  return (w.unlock q, .ret (.ok sz))

/-! ## `msgsnd` -/

/-- Everything is there: the message goes to the end of the queue. -/
def queued (c : Caller) (q : Nat) (type : Int) (cnt mp : Nat) (spot : Int) (w : Work) : Work × Next :=
  let k := w.k.enqueue q mp ⟨none, type, cnt % 65536, toShort spot⟩ c.pid cnt
  let w := Work.release { w with k } q msgRwait (.qnum q)
  (w.unlock q, .ret (.ok 0))

/-- From the label `getres`. -/
def getres (c : Caller) (msqid : Int) (cnt : Nat) (nowait : Bool) (type : Int) (w : Work) : Option (Work × Next) :=
  match msgconv info msqid w with
  | .invalid w => some (w, .ret (.error .eidrm))
  | .busy => some (w, .lock (.getres type))
  | .locked q w =>
      let qp := w.k.msgque q
      if qp.msgQbytes < toUlong (cnt + qp.msgCbytes) then
        if nowait then some (w.unlock q, .ret (.error .eagain))
        else
          let w : Work := { w with k := w.k.setQueue q fun qp =>
            { qp with perm := { qp.perm with mode := qp.perm.mode ||| msgWwait } } }
          some (w.unlock q, .sleep (.queue q) type)
      else
        match w.k.msgfp with
        | none =>
            if nowait then some (w.unlock q, .ret (.error .eagain))
            else some (w.unlock q, .sleep .msgfp type)
        | some mp =>
            let taken : Work := { w with k := { w.k with msgfp := w.k.next mp } }
            if cnt = 0 then some (queued c q type cnt mp (-1) taken)
            else do
              let (spot, msgmap) ← Rmap.rmalloc taken.k.msgmap (btoq info cnt)
              if spot = 0 then
                if nowait then return ((taken.putHeader mp).unlock q, .ret (.error .eagain))
                else
                  let w : Work := { taken with k := { taken.k with msgmap := { taken.k.msgmap with mapwant := true } } }
                  return ((w.putHeader mp).unlock q, .sleep .msgmap type)
              else return ({ taken with k := { taken.k with msgmap } }, .copy q (.sndText type mp (spot - 1)))

/-- `msgsnd` with the queue locked for the first time. -/
def msgsnd (c : Caller) (msgsz : Int) (q : Nat) (w : Work) : Work × Next :=
  match ipcaccess (w.k.msgque q).perm msgW c.cr with
  | some error => (w.unlock q, .ret (.error error))
  | none =>
      if msgsz < 0 ∨ info.msgmax < msgsz then (w.unlock q, .ret (.error .einval))
      else (w, .copy q .sndType)

/-! ## Turns -/

/-- A part of a call that begins with `msgconv`. -/
def convert (c : Caller) (call : Call) (point : Point) (w : Work) : Option (Work × Next) :=
  match point, call with
  | .findmsg, .rcv msqid msgsz msgtyp noerror nowait => findmsg info msqid msgsz msgtyp noerror nowait w
  | .getres type, .snd msqid msgsz nowait => getres info c msqid msgsz.toNat nowait type w
  | .entry, call =>
      match msgconv info call.id w with
      | .invalid w => some (w, .ret (.error .einval))
      | .busy => some (w, .lock .entry)
      | .locked q w =>
          match call with
          | .ctl msgid cmd => msgctl info c msgid cmd q w
          | .rcv msqid msgsz msgtyp noerror nowait => msgrcv info c msqid msgsz msgtyp noerror nowait q w
          | .snd _ msgsz _ => some (msgsnd info c msgsz q w)
  | .unroom, call =>
      match msgconv info call.id w with
      | .invalid w => some (w, .ret (.error .einval))
      | .busy => some (w, .lock .unroom)
      | .locked q w =>
          let k := w.k.setQueue q fun qp =>
            { qp with perm := { qp.perm with mode := clearBit qp.perm.mode msgWwait } }
          some ((({ w with k } : Work).wakeup (.queue q)).unlock q, .ret (.error .eintr))
  | .unsleep, call =>
      match msgconv info call.id w with
      | .invalid w => some (w, .ret (.error .einval))
      | .busy => some (w, .lock .unsleep)
      | .locked q w => some (w.unlock q, .ret (.error .eintr))
  | _, _ => none

/-- A part of a call that begins after a copy. `fault` is its failure. -/
def copied (c : Caller) (call : Call) (q : Nat) (copy : Copy) (fault : Bool) (type : Int) (ds : Settings) (w : Work) :
    Option (Work × Next) :=
  let out (result : Except Errno Int) : Option (Work × Next) := some (w.unlock q, .ret result)
  match copy, call with
  | .set, _ =>
      if fault then out (.error .efault)
      else if (w.k.msgque q).msgQbytes < ds.msgQbytes ∧ c.cr.uid ≠ 0 then out (.error .eperm)
      else
        let k := w.k.setQueue q fun qp => { qp with
          perm := { qp.perm with
            uid := ds.uid
            gid := ds.gid
            mode := clearBit qp.perm.mode access ||| (ds.mode &&& access) }
          msgQbytes := ds.msgQbytes }
        some (({ w with k } : Work).unlock q, .ret (.ok 0))
  | .stat, _ => out (if fault then .error .efault else .ok 0)
  | .rcvType smp spmp sz, _ =>
      if fault then out (.error .efault)
      else if sz ≠ 0 then some (w, .copy q (.rcvText smp spmp sz))
      else received info c q smp spmp sz w
  | .rcvText smp spmp sz, _ => if fault then out (.error .efault) else received info c q smp spmp sz w
  | .sndType, .snd msqid msgsz nowait =>
      if fault then out (.error .efault)
      else if type < 1 then out (.error .einval)
      else getres info c msqid msgsz.toNat nowait type (w.unlock q)
  | .sndText type mp spot, .snd _ msgsz _ =>
      if fault then do
        let w ← w.freeText (btoq info msgsz.toNat) (spot + 1)
        return ((w.putHeader mp).unlock q, .ret (.error .efault))
      else some (queued c q type msgsz.toNat mp spot w)
  | _, _ => none

end

/-! ## The system -/

/-- A process outside of the message calls, one that is about to call `msgconv` or
sleeps on a lock there, one that copies, and one that sleeps for a resource or is
on its way out of that sleep. -/
inductive Proc where
  | user
  | ready (c : Caller) (call : Call) (point : Point)
  | locked (c : Caller) (call : Call) (point : Point) (q : Nat)
  | copying (c : Caller) (call : Call) (q : Nat) (copy : Copy)
  | asleep (c : Caller) (call : Call) (chan : Chan) (type : Int)
  | woken (c : Caller) (call : Call) (chan : Chan) (type : Int)
  deriving DecidableEq, Repr

abbrev Slot := Nat

structure System where
  k : Kernel
  proc : Slot → Proc

def Proc.wake (woken : List Chan) : Proc → Proc
  | .locked c call point q => if .lock q ∈ woken then .ready c call point else .locked c call point q
  | .asleep c call chan type => if chan ∈ woken then .woken c call chan type else .asleep c call chan type
  | p => p

/-- The process after a part of its call. -/
def Next.proc (info : Msginfo) (c : Caller) (call : Call) : Next → Proc
  | .ret _ => .user
  | .lock point => .locked c call point (call.id % info.msgmni).toNat
  | .copy q part => .copying c call q part
  | .sleep chan type => .asleep c call chan type

/-- Where a call goes on when its sleep is over. -/
def resume (chan : Chan) (type : Int) : Point :=
  match chan with
  | .qnum _ => .findmsg
  | _ => .getres type

def System.put (s : System) (slot : Slot) (p : Proc) : System := { s with proc := Function.update s.proc slot p }

/-- The kernel changes, the sleepers on `woken` are woken, and the process of the slot
goes on as `p`. -/
def System.store (s : System) (w : Work) (slot : Slot) (p : Proc) : System :=
  { s with k := w.k, proc := Function.update (fun slot => (s.proc slot).wake w.woken) slot p }

section
variable (info : Msginfo)

/-- `msgget` on a new or an existing queue. -/
def msgget (k : Kernel) (cr : Cred) (key : Int) (flag : Nat) : Kernel × Except Errno Int :=
  let id (k : Kernel) (q : Nat) : Int := (k.msgque q).perm.seq * info.msgmni + q
  match ipcget key flag (fun q => (k.msgque q).perm) info.msgmni with
  | .error error => (k, .error error)
  | .ok (.existing q) => (k, .ok (id k q))
  | .ok (.new q) =>
      let k := k.setQueue q fun qp => { qp with
        perm := qp.perm.init key flag cr
        msgFirst := none
        msgLast := none
        msgQnum := 0
        msgQbytes := info.msgmnb % 65536
        msgLspid := 0
        msgLrpid := 0 }
      (k, .ok (id k q))

inductive Event where
  | msgget (slot : Slot)
  | call (slot : Slot) (c : Caller) (call : Call)
  | turn (slot : Slot)
  | copied (slot : Slot)
  | signal (slot : Slot)
  | abort (slot : Slot)

inductive Step : System → Event → System → Prop where
  | msgget {s : System} {slot : Slot} (cr : Cred) (key : Int) (flag : Nat) : s.proc slot = .user →
      Step s (.msgget slot) { s with k := (msgget info s.k cr key flag).1 }
  | call {s : System} {slot : Slot} (c : Caller) (call : Call) : s.proc slot = .user →
      Step s (.call slot c call) (s.put slot (.ready c call .entry))
  | turn {s : System} {slot : Slot} {c : Caller} {call : Call} {point : Point} {w : Work} {next : Next} :
      s.proc slot = .ready c call point → convert info c call point ⟨s.k, []⟩ = some (w, next) →
      Step s (.turn slot) (s.store w slot (next.proc info c call))
  | copied {s : System} {slot : Slot} {c : Caller} {call : Call} {q : Nat} {copy : Copy} {w : Work} {next : Next}
      (fault : Bool) (type : Int) (ds : Settings) : s.proc slot = .copying c call q copy →
      copied info c call q copy fault type ds ⟨s.k, []⟩ = some (w, next) →
      Step s (.copied slot) (s.store w slot (next.proc info c call))
  /-- `sleep` returns zero. -/
  | resume {s : System} {slot : Slot} {c : Caller} {call : Call} {chan : Chan} {type : Int} :
      s.proc slot = .woken c call chan type →
      Step s (.turn slot) (s.put slot (.ready c call (resume chan type)))
  /-- `sleep` returns non-zero to a sender, which converts the identifier once more. -/
  | interrupt {s : System} {slot : Slot} {c : Caller} {msqid msgsz : Int} {nowait : Bool} {chan : Chan} {type : Int} :
      s.proc slot = .asleep c (.snd msqid msgsz nowait) chan type ∨
        s.proc slot = .woken c (.snd msqid msgsz nowait) chan type →
      Step s (.signal slot) (s.put slot (.ready c (.snd msqid msgsz nowait) (match chan with
        | .queue _ => .unroom
        | _ => .unsleep)))
  /-- A receiver returns at once. -/
  | leave {s : System} {slot : Slot} {c : Caller} {msqid msgsz msgtyp : Int} {noerror nowait : Bool} {chan : Chan}
      {type : Int} : s.proc slot = .asleep c (.rcv msqid msgsz msgtyp noerror nowait) chan type ∨
        s.proc slot = .woken c (.rcv msqid msgsz msgtyp noerror nowait) chan type →
      Step s (.signal slot) (s.put slot .user)
  /-- A signal during the sleep on a lock ends the call. -/
  | abort {s : System} {slot : Slot} {c : Caller} {call : Call} {point : Point} {q : Nat} :
      s.proc slot = .locked c call point q → Step s (.abort slot) (s.put slot .user)

/-- After `msginit`: the headers in one list, the segments in the map. -/
def System.Boot (s : System) : Prop :=
  s.k.msgfp = some 0 ∧ (∀ h, s.k.next h = if h + 1 < info.msgtql then some (h + 1) else none) ∧
    (∀ q, ¬ (s.k.msgque q).perm.allocated ∧ (s.k.msgque q).msgFirst = none ∧ (s.k.msgque q).msgLast = none ∧
      (s.k.msgque q).msgCbytes = 0 ∧ (s.k.msgque q).msgQnum = 0) ∧ (∀ q, s.k.msglock q = false) ∧
    (∃ woken, Rmap.rmfree (Rmap.mapinit info.msgmap) info.msgseg 1 = some (s.k.msgmap, woken)) ∧
    ∀ slot, s.proc slot = .user

end

end Svr4.Message
