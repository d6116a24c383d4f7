import Svr4.Kernel.Tcp

/-! The TLI states of TCP endpoints: `tcp_state`, and what the network does to them. -/

namespace Svr4.Tcp.Tli

open Option (bind_some some map_eq_some_iff all_some)
open Function (update update_apply)

/-! ## The table -/

inductive Event where
  | bindReq | unbindReq | optmgmtReq | bindAck | optmgmtAck | errorAck | okAck1 | okAck2 | okAck3 | okAck4
  | connReq | connRes | disconReq | dataReq | exdataReq | ordrelReq | connInd | connCon | dataInd | exdataInd
  | ordrelInd | disconInd1 | disconInd2 | disconInd3 | passConn | unitdataReq | unitdataInd | uderrorInd
  -- `TE_NOEVENTS` and the row behind it.
  | nonevent | badevent
  deriving DecidableEq, Repr

def Event.number : Event → Nat
  | bindReq => 0 | unbindReq => 1 | optmgmtReq => 2 | bindAck => 3 | optmgmtAck => 4
  | errorAck => 5 | okAck1 => 6 | okAck2 => 7 | okAck3 => 8 | okAck4 => 9
  | connReq => 10 | connRes => 11 | disconReq => 12 | dataReq => 13 | exdataReq => 14
  | ordrelReq => 15 | connInd => 16 | connCon => 17 | dataInd => 18 | exdataInd => 19
  | ordrelInd => 20 | disconInd1 => 21 | disconInd2 => 22 | disconInd3 => 23 | passConn => 24
  | unitdataReq => 25 | unitdataInd => 26 | uderrorInd => 27
  | nonevent => 28 | badevent => 29

/-- `TS_NOSTATES`. -/
def nostates : Nat := 17

abbrev nr : Nat := nostates

def tsUnbnd : Nat := 0
def tsIdle : Nat := 3
def tsWconCreq : Nat := 6
def tsDataXfer : Nat := 9
def tsWackDreq7 : Nat := 13

/-- `BADSTATE`. -/
def badstate : Nat := 127

/-- `ti_statetbl`, a row for each event. -/
def tiStatetbl : List (List Nat) :=
  [[1, nr, nr, nr, nr, nr, nr, nr, nr, nr, nr, nr, nr, nr, nr, nr, nr],
    [nr, nr, nr, 2, nr, nr, nr, nr, nr, nr, nr, nr, nr, nr, nr, nr, nr],
    [nr, nr, nr, 4, nr, nr, nr, nr, nr, nr, nr, nr, nr, nr, nr, nr, nr],
    [nr, 3, nr, nr, nr, nr, nr, nr, nr, nr, nr, nr, nr, nr, nr, nr, nr],
    [nr, nr, nr, nr, 3, nr, nr, nr, nr, nr, nr, nr, nr, nr, nr, nr, nr],
    [nr, 0, 3, nr, 3, 3, nr, nr, 7, nr, nr, nr, 6, 7, 9, 10, 11],
    [nr, nr, 0, nr, nr, 6, nr, nr, nr, nr, nr, nr, 3, nr, 3, 3, 3],
    [nr, nr, nr, nr, nr, nr, nr, nr, 9, nr, nr, nr, nr, 3, nr, nr, nr],
    [nr, nr, nr, nr, nr, nr, nr, nr, 3, nr, nr, nr, nr, 3, nr, nr, nr],
    [nr, nr, nr, nr, nr, nr, nr, nr, 7, nr, nr, nr, nr, 7, nr, nr, nr],
    [nr, nr, nr, 5, nr, nr, nr, nr, nr, nr, nr, nr, nr, nr, nr, nr, nr],
    [nr, nr, nr, nr, nr, nr, nr, 8, nr, nr, nr, nr, nr, nr, nr, nr, nr],
    [nr, nr, nr, nr, nr, nr, 12, 13, nr, 14, 15, 16, nr, nr, nr, nr, nr],
    [nr, nr, nr, nr, nr, nr, nr, nr, nr, 9, nr, 11, nr, nr, nr, nr, nr],
    [nr, nr, nr, nr, nr, nr, nr, nr, nr, 9, nr, 11, nr, nr, nr, nr, nr],
    [nr, nr, nr, nr, nr, nr, nr, nr, nr, 10, nr, 3, nr, nr, nr, nr, nr],
    [nr, nr, nr, 7, nr, nr, nr, 7, nr, nr, nr, nr, nr, nr, nr, nr, nr],
    [nr, nr, nr, nr, nr, nr, 9, nr, nr, nr, nr, nr, nr, nr, nr, nr, nr],
    [nr, nr, nr, nr, nr, nr, nr, nr, nr, 9, 10, nr, nr, nr, nr, nr, nr],
    [nr, nr, nr, nr, nr, nr, nr, nr, nr, 9, 10, nr, nr, nr, nr, nr, nr],
    [nr, nr, nr, nr, nr, nr, nr, nr, nr, 11, 3, nr, nr, nr, nr, nr, nr],
    [nr, nr, nr, nr, nr, nr, 3, nr, nr, 3, 3, 3, nr, nr, nr, nr, nr],
    [nr, nr, nr, nr, nr, nr, nr, 3, nr, nr, nr, nr, nr, nr, nr, nr, nr],
    [nr, nr, nr, nr, nr, nr, nr, 7, nr, nr, nr, nr, nr, nr, nr, nr, nr],
    [nr, nr, nr, 9, nr, nr, nr, nr, nr, nr, nr, nr, nr, nr, nr, nr, nr],
    [nr, nr, nr, 3, nr, nr, nr, nr, nr, nr, nr, nr, nr, nr, nr, nr, nr],
    [nr, nr, nr, 3, nr, nr, nr, nr, nr, nr, nr, nr, nr, nr, nr, nr, nr],
    [nr, nr, nr, 3, nr, nr, nr, nr, nr, nr, nr, nr, nr, nr, nr, nr, nr],
    [0, 1, 3, 3, 4, 5, 6, 7, 8, 9, 10, 11, 12, 13, 14, 15, 16],
    [nr, nr, nr, nr, nr, nr, nr, nr, nr, nr, nr, nr, nr, nr, nr, nr, nr]]

/-- `NEXTSTATE`. From a state that is none, the next row is read. -/
def nextState (e : Event) (s : Nat) : Nat := tiStatetbl.flatten.getD (e.number * nostates + s) 0

theorem nextState_le (e : Event) (s : Nat) : nextState e s ≤ nr := by
  have least : ∀ row ∈ tiStatetbl, ∀ n ∈ row, n ≤ nr := by decide
  unfold nextState
  rw [List.getD_eq_getElem?_getD]
  cases entry : tiStatetbl.flatten[e.number * nostates + s]? with
  | none => exact Nat.zero_le nr
  | some n =>
    obtain ⟨row, member, inside⟩ := List.mem_flatten.mp (List.mem_of_getElem? entry)
    exact least row member n inside

/-- The test that the code makes never succeeds. -/
theorem nextState_ne_badstate (e : Event) (s : Nat) : nextState e s ≠ badstate := by
  have least := nextState_le e s
  have less : nr < badstate := by decide
  omega

theorem nextState_lt {e : Event} {s : Nat} (reachable : nextState e s ≠ nr) : nextState e s < nr :=
  lt_of_le_of_ne (nextState_le e s) reachable

/-! ## Endpoints -/

/-- What the states depend on of an `inpcb` and its `tcpcb`. -/
structure Pcb where
  tstate : Nat
  tState : TState
  error : Nat
  nofdref : Bool
  acceptconn : Bool
  /-- `SO_LINGER` with a linger time of zero. -/
  nolinger : Bool
  tQsize : Nat
  /-- The sizes of the messages of the write queue. -/
  wq : List Nat
  tQlimit : Nat
  head : Option Nat
  q0 : List Nat
  q : List Nat
  deriving DecidableEq, Repr

structure Net where
  pcb : Nat → Option Pcb
  /-- The endpoint of a queue. -/
  ptr : Nat → Nat

namespace Net

def set (p : Nat) (b : Pcb) (n : Net) : Net := { n with pcb := update n.pcb p (some b) }

def modify (p : Nat) (f : Pcb → Pcb) (n : Net) : Net :=
  match n.pcb p with
  | none => n
  | some b => n.set p (f b)

end Net

def newPcb (tstate : Nat) (tState : TState) : Pcb :=
  ⟨tstate, tState, 0, false, false, false, 0, [], 0, none, [], []⟩

/-- `tpqremque` from the queue of completed connections. A head that has been released is not followed. -/
def tpqremque (p : Nat) (n : Net) : Option Net :=
  match n.pcb p with
  | none => none
  | some b =>
    match b.head with
    | none => none
    | some h =>
      match n.pcb h with
      | none => some (n.set p { b with head := none })
      | some head =>
        if p ∈ head.q then
          some ((n.modify h fun head => { head with q := head.q.erase p }).modify p fun b => { b with head := none })
        else none

def tcpFreespc (p : Nat) (n : Net) : Net :=
  match n.pcb p with
  | none => n
  | some b =>
    let n := match b.head with
      | none => n
      | some h => n.modify h fun head => { head with q0 := head.q0.erase p, q := head.q.erase p }
    { n with pcb := update n.pcb p none }

def inpisdisconnected (p : Nat) (n : Net) : Net :=
  n.modify p fun b =>
    if nextState .disconInd1 b.tstate = badstate then b else { b with tstate := nextState .disconInd1 b.tstate }

def tcpClose (p : Nat) (n : Net) : Net :=
  let n := inpisdisconnected p n
  match n.pcb p with
  | none => n
  | some b => if b.nofdref then tcpFreespc p n else n

def tcpDrop (p errno : Nat) (n : Net) : Net :=
  tcpClose p (n.modify p fun b =>
    { b with tState := if b.tState.havercvdsyn then .closed else b.tState, error := errno })

def tcpUsrclosed (p : Nat) (n : Net) : Net :=
  match n.pcb p with
  | none => n
  | some b =>
    match b.tState with
    | .closed | .listen | .synSent => tcpClose p (n.set p { b with tState := .closed })
    | .synReceived | .established => n.set p { b with tState := .finWait1 }
    | .closeWait => n.set p { b with tState := .lastAck }
    | _ => n

def tcpDisconnect (p : Nat) (n : Net) : Net :=
  match n.pcb p with
  | none => n
  | some b =>
    if b.tState.number < TState.established.number then tcpClose p n
    else if b.nolinger then tcpDrop p 0 n
    else tcpUsrclosed p n

def inpordrelind (p : Nat) (alloc : Bool) (n : Net) : Net :=
  if alloc = false then n
  else n.modify p fun b =>
    if nextState .ordrelInd b.tstate = badstate then b else { b with tstate := nextState .ordrelInd b.tstate }

/-- `inpisconnected`. -/
def inpisconnected (p : Nat) (alloc : Bool) (n : Net) : Net :=
  if alloc = false then n
  else
    match n.pcb p with
    | none => n
    | some b =>
      match b.head with
      | some h =>
        (n.modify h fun head => { head with
          tstate := nextState .connInd head.tstate
          q0 := head.q0.erase p
          q := p :: head.q }).modify p fun b => { b with tstate := tsDataXfer }
      | none => n.set p { b with tstate := nextState .connCon b.tstate }

/-! ## Requests of the user -/

inductive TliError where
  | toutstate
  | tsyserr (errno : Nat)
  | tbadaddr
  | tacces
  | tbadf
  | tbadseq
  | tnotsupport
  deriving DecidableEq, Repr

inductive Reply where
  /-- No message. -/
  | silent
  /-- A `T_OK_ACK`, `T_INFO_ACK`, `T_BIND_ACK` or `T_OPTMGMT_ACK`. -/
  | ack
  | errorAck (e : TliError)
  deriving DecidableEq, Repr

/-- What `in_pcbbind` and the test of the address come to. -/
inductive Bound where
  | ok
  | badaddr
  | eacces
  | failed (errno : Nat)
  deriving DecidableEq, Repr

inductive Prim where
  /-- `M_DATA`. -/
  | data (len : Nat)
  | connReq (error : Option Nat)
  | connRes (newq seq : Nat)
  | disconReq (seq : Nat)
  /-- The size of the data, unless there are none. -/
  | dataReq (len : Option Nat)
  | exdataReq (len : Option Nat)
  | infoReq
  | bindReq (result : Bound) (conind : Nat)
  | unbindReq
  | unitdataReq
  | optmgmtReq
  | ordrelReq
  /-- Any other type. -/
  | unknown
  deriving DecidableEq, Repr

/-- `prim_to_event`. -/
def Prim.event : Prim → Event
  | data _ | dataReq _ => .dataReq
  | connReq _ => .connReq
  | connRes _ _ => .connRes
  | disconReq _ => .disconReq
  | exdataReq _ => .exdataReq
  | infoReq => .nonevent
  | bindReq _ _ => .bindReq
  | unbindReq => .unbindReq
  | unitdataReq => .badevent
  | optmgmtReq => .optmgmtReq
  | ordrelReq => .ordrelReq
  | unknown => .nonevent

/-- Data are put on the write queue. -/
def putData (len : Nat) (b : Pcb) : Pcb := { b with tQsize := b.tQsize + len, wq := b.wq ++ [len] }

def bindTo (conind : Nat) (b : Pcb) : Pcb :=
  if 0 < conind then { b with tstate := tsIdle, tQlimit := conind, tState := .listen, acceptconn := true }
  else { b with tstate := tsIdle }

/-- The state after a `T_CONN_RES`. -/
def ackState (own : Bool) (qlen tstate : Nat) : Nat :=
  if qlen = 1 then
    if own then nextState .okAck2 tstate else nextState .okAck3 tstate
  else nextState .okAck4 tstate

/-- The acceptance of a connection, after the checks. -/
def accept (q p newq newp ctp tstate : Nat) (b : Pcb) (n : Net) : Net :=
  -- The temporary endpoint or the old listener.
  let n := tcpClose newp (n.modify newp fun b => { b with nofdref := true })
  let n := { n with ptr := update n.ptr newq ctp }
  -- The block of an old listener is read after its release.
  let qlen := ((n.pcb p).getD b).q.length
  let n := n.modify (n.ptr q) fun b => { b with tstate := ackState (newq = q) qlen tstate }
  ((tpqremque ctp n).getD n).modify ctp fun b => { b with nofdref := false }

/-- The queue that is named can take the connection. -/
def fits (q newq : Nat) (b : Pcb) (n : Net) : Bool :=
  if newq = q then b.q.length = 1 else (n.pcb (n.ptr newq)).any fun b => b.tstate = tsIdle

/-- `T_CONN_RES`. -/
def connRes (q p newq seq : Nat) (b : Pcb) (n : Net) : Net × Reply :=
  if nextState .connRes b.tstate = badstate then
    (n.set p { b with tstate := nextState .errorAck b.tstate }, .errorAck .toutstate)
  else
    let tstate := nextState .connRes b.tstate
    let n := n.set p { b with tstate := tstate }
    let refused := n.set p { b with tstate := nextState .errorAck tstate }
    if !fits q newq b n then (refused, .errorAck .tbadf)
    else if seq ∉ b.q then (refused, .errorAck .tbadseq)
    else (accept q p newq (n.ptr newq) seq tstate b n, .ack)

/-- `T_DISCON_REQ`. A sequence number that is no control block is treated as one that is not queued. -/
def disconReq (p seq : Nat) (b : Pcb) (n : Net) : Net × Reply :=
  let tstate := nextState .disconReq b.tstate
  if tstate = badstate then
    (n.set p { b with tstate := nextState .errorAck tstate }, .errorAck .toutstate)
  else
    let n := n.set p { b with tstate := tstate }
    if tstate = tsWackDreq7 then
      match tpqremque seq n with
      | none => (n.modify p fun b => { b with tstate := nextState .errorAck b.tstate }, .errorAck .tbadseq)
      | some n =>
        ((tcpDrop seq 0 n).modify p fun b => { b with
          tstate := if b.q = [] then nextState .okAck2 b.tstate else nextState .okAck4 b.tstate }, .ack)
    else ((tcpDrop p 0 n).modify p fun b => { b with tstate := nextState .okAck1 b.tstate }, .ack)

/-- The switch of `tcp_state`. -/
def serve (q p : Nat) (prim : Prim) (b : Pcb) (n : Net) : Net × Reply :=
  match prim with
  | .data len =>
    if nextState .dataReq b.tstate ≠ badstate then (n.set p (putData len b), .silent)
    else (n, .errorAck .toutstate)
  | .infoReq => (n, .ack)
  | .bindReq result conind =>
    if b.tstate ≠ tsUnbnd then (n, .errorAck .toutstate)
    else
      match result with
      | .badaddr => (n, .errorAck .tbadaddr)
      | .eacces => (n, .errorAck .tacces)
      | .failed errno => (n, .errorAck (.tsyserr errno))
      | .ok => (n.set p (bindTo conind b), .ack)
  | .unbindReq =>
    if b.tstate ≠ tsIdle then (n, .errorAck .toutstate)
    else (n.set p { b with tState := .closed, tQlimit := 0, tstate := tsUnbnd }, .ack)
  | .connReq error =>
    if b.tstate ≠ tsIdle then (n, .errorAck .toutstate)
    else
      match error with
      | some errno => (n, .errorAck (.tsyserr errno))
      | none => (n.set p { b with tState := .synSent, acceptconn := false, tstate := tsWconCreq }, .ack)
  | .connRes newq seq => connRes q p newq seq b n
  | .ordrelReq =>
    let tstate := nextState .ordrelReq b.tstate
    if tstate = badstate then
      (n.set p { b with tstate := nextState .errorAck tstate }, .errorAck .toutstate)
    else (tcpDisconnect p (n.set p { b with tstate := tstate }), .silent)
  | .disconReq seq => disconReq p seq b n
  -- The state does not matter here.
  | .optmgmtReq => (n, .ack)
  | .dataReq len =>
    if nextState .dataReq b.tstate = badstate then (n, .silent)
    else
      match len with
      | none => (n, .silent)
      | some len => (n.set p (putData len b), .silent)
  | .exdataReq len =>
    if nextState .exdataReq b.tstate = badstate then (n, .errorAck .toutstate)
    else
      match len with
      | none => (n, .errorAck .toutstate)
      | some len => (n.set p (putData len b), .silent)
  | .unitdataReq | .unknown => (n, .errorAck .tnotsupport)

/-- `tcp_state`. -/
def tcpState (q : Nat) (prim : Prim) (n : Net) : Net × Reply :=
  match n.pcb (n.ptr q) with
  | none => (n, .silent)
  | some b =>
    if b.error ≠ 0 then (n, .errorAck (.tsyserr b.error))
    else if b.tstate = badstate then (n, .errorAck .toutstate)
    else serve q (n.ptr q) prim b n

/-! ## Events of the network -/

inductive Action where
  | request (q : Nat) (prim : Prim)
  /-- A SYN for a listener, and the block of the new connection. -/
  | newconn (p child : Nat)
  /-- The acknowledgement of a SYN. -/
  | connected (p : Nat) (alloc : Bool)
  | fin (p : Nat)
  | finAcked (p : Nat)
  /-- The service procedure finds the input queue empty. -/
  | deqdata (p : Nat) (alloc : Bool)
  | drop (p errno : Nat)
  /-- An RST. -/
  | reset (p : Nat)
  /-- The end of the 2MSL time, or data for an endpoint that is closed. -/
  | close (p : Nat)
  /-- `in_pcbnotify`. -/
  | notify (p errno : Nat)
  deriving DecidableEq, Repr

def newconn (p child : Nat) (n : Net) : Net :=
  match n.pcb p with
  | none => n
  | some b =>
    if b.acceptconn ∧ b.tState ≠ .closed ∧ b.q.length + b.q0.length ≤ 3 * b.tQlimit / 2 ∧ n.pcb child = none then
      (n.set p { b with q0 := child :: b.q0 }).set child
        { newPcb tsDataXfer .synReceived with nofdref := true, nolinger := b.nolinger, head := some p }
    else n

def connected (p : Nat) (alloc : Bool) (n : Net) : Net :=
  match n.pcb p with
  | none => n
  | some b =>
    if b.tState = .synSent ∨ b.tState = .synReceived then
      (inpisconnected p alloc n).modify p fun b => { b with tState := .established }
    else n

def TState.finished : TState → TState
  | .synReceived | .established => .closeWait
  | .finWait1 => .closing
  | .finWait2 => .timeWait
  | s => s

def finAcked (p : Nat) (n : Net) : Net :=
  match n.pcb p with
  | none => n
  | some b =>
    match b.tState with
    | .finWait1 => n.set p { b with tState := .finWait2 }
    | .closing => n.set p { b with tState := .timeWait }
    | .lastAck => tcpClose p (n.set p { b with tState := .closed })
    | _ => n

def deqdata (p : Nat) (alloc : Bool) (n : Net) : Net :=
  match n.pcb p with
  | none => n
  | some b => if b.tState.havercvdfin then inpordrelind p alloc n else n

def step (n : Net) : Action → Net × Reply
  | .request q prim => tcpState q prim n
  | .newconn p child => (newconn p child n, .silent)
  | .connected p alloc => (connected p alloc n, .silent)
  | .fin p => (n.modify p fun b => { b with tState := TState.finished b.tState }, .silent)
  | .finAcked p => (finAcked p n, .silent)
  | .deqdata p alloc => (deqdata p alloc n, .silent)
  | .drop p errno => (tcpDrop p errno n, .silent)
  | .reset p => (tcpClose p (n.modify p fun b => { b with tState := .closed }), .silent)
  | .close p => (tcpClose p n, .silent)
  | .notify p errno =>
    (inpisdisconnected p (n.modify p fun b => { b with error := if errno = 0 then b.error else errno }), .silent)

/-! ## The states are kept -/

def Net.state (n : Net) (p : Nat) : Option Nat := (n.pcb p).map Pcb.tstate

def Net.Valid (n : Net) : Prop := ∀ p s, n.state p = some s → s < nostates

def Prim.carriesData : Prim → Bool
  | data _ | dataReq _ | exdataReq _ => true
  | _ => false

/-- The table marks the primitive as not reachable. -/
def marked (n : Net) (q : Nat) (prim : Prim) : Bool :=
  (n.state (n.ptr q)).any fun s => nextState prim.event s = nr

/-- Nothing changes, and the answer is `TOUTSTATE` unless data are dropped. -/
def Refused (n : Net) (prim : Prim) (result : Net × Reply) : Prop :=
  result.1 = n ∧ (result.2 = .errorAck .toutstate ∨ prim.carriesData)

/-- A step leads to states of the table, and refuses what the table marks. -/
def Kept (n : Net) (a : Action) : Prop :=
  (step n a).1.Valid ∧ ∀ q prim, a = .request q prim → marked n q prim → Refused n prim (step n a)

/-- An endpoint that can be closed: it is released, or the table has its disconnection. -/
def closable (b : Pcb) : Bool := b.nofdref || nextState .disconInd1 b.tstate ≠ nr

/-- Primitives that are tested against the state itself, or have no data. -/
def Prim.tested : Prim → Bool
  | bindReq _ _ | unbindReq | connReq _ | dataReq none | exdataReq none => true
  | _ => false

/-- What the table has for a primitive, and for the endpoints that it closes. -/
def lawfulPrim (n : Net) (p : Nat) (b : Pcb) (prim : Prim) : Bool :=
  let entered : Pcb := { b with tstate := nextState prim.event b.tstate }
  if b.error ≠ 0 then entered.tstate ≠ nr || prim.carriesData
  else if entered.tstate = nr then prim.tested
  else
    match prim with
    | .disconReq seq =>
      if entered.tstate = tsWackDreq7 then
        (tpqremque seq (n.set p entered)).all fun n => (n.pcb seq).all closable
      else closable entered
    | .ordrelReq =>
      if b.tState.number < TState.established.number ∨ b.nolinger then closable entered else true
    | _ => true

/-- The table has the indication at the head, or the confirmation. -/
def confirmable (n : Net) (p : Nat) (b : Pcb) : Bool :=
  match b.head with
  | some h => h = p || (n.state h).all fun s => nextState .connInd s ≠ nr
  | none => nextState .connCon b.tstate ≠ nr

/-- What the table has for an action. -/
def lawful (n : Net) : Action → Bool
  | .request q prim => (n.pcb (n.ptr q)).all fun b => lawfulPrim n (n.ptr q) b prim
  | .connected p alloc =>
    (n.pcb p).all fun b =>
      if alloc ∧ (b.tState = .synSent ∨ b.tState = .synReceived) then confirmable n p b else true
  | .finAcked p => (n.pcb p).all fun b => if b.tState = .lastAck then closable b else true
  | .deqdata p alloc =>
    (n.pcb p).all fun b =>
      if alloc ∧ b.tState.havercvdfin then nextState .ordrelInd b.tstate ≠ nr else true
  | .drop p _ | .reset p | .close p => (n.pcb p).all closable
  | .notify p _ => (n.state p).all fun s => nextState .disconInd1 s ≠ nr
  | .newconn _ _ | .fin _ => true

/-! ## What the functions do to the states -/

theorem reachable_iff (e : Event) (s : Nat) : nextState e s < nostates ↔ nextState e s ≠ nr :=
  ⟨Nat.ne_of_lt, nextState_lt⟩

section

variable {n : Net} {p : Nat} {b : Pcb} {m : Net} {f : Pcb → Pcb} {seq : Nat} {q : Nat}

theorem Net.Valid.change_iff {s : Option Nat} (valid : n.Valid)
    (change : ∀ r, m.state r = if r = p then s else n.state r) : m.Valid ↔ s.all fun s => s < nostates := by
  have here := change p
  rw [if_pos rfl] at here
  constructor
  · intro kept
    cases s with
    | none => rfl
    | some s => exact decide_eq_true (kept p s here)
  · intro least r t found
    rw [change] at found
    split at found
    · rw [found] at least
      exact of_decide_eq_true least
    · exact valid r t found

theorem Net.Valid.congr {m : Net} (valid : n.Valid) (same : ∀ r, m.state r = n.state r) : m.Valid := by
  intro r t found
  rw [same] at found
  exact valid r t found

theorem Net.set_pcb (n : Net) (p r : Nat) (b : Pcb) : (n.set p b).pcb r = if r = p then some b else n.pcb r :=
  update_apply n.pcb p (some b) r

theorem Net.set_state (n : Net) (p r : Nat) (b : Pcb) :
    (n.set p b).state r = if r = p then some b.tstate else n.state r := by
  unfold state
  rw [set_pcb]
  split <;> rfl

theorem Net.set_state_self (here : n.pcb p = some b) (r : Nat) {c : Pcb} (same : c.tstate = b.tstate) :
    (n.set p c).state r = n.state r := by
  rw [set_state]
  split
  · next eq => rw [eq, same, state, here]; rfl
  · rfl

theorem Net.modify_of_none (f : Pcb → Pcb) (gone : n.pcb p = none) : n.modify p f = n := by
  unfold modify
  rw [gone]

theorem Net.modify_of_some (f : Pcb → Pcb) (here : n.pcb p = some b) : n.modify p f = n.set p (f b) := by
  unfold modify
  rw [here]

theorem Net.modify_pcb (n : Net) (p r : Nat) (f : Pcb → Pcb) :
    (n.modify p f).pcb r = if r = p then (n.pcb p).map f else n.pcb r := by
  cases here : n.pcb p with
  | none =>
    rw [modify_of_none f here]
    split
    · next eq => rw [eq, here]; rfl
    · rfl
  | some b =>
    rw [modify_of_some f here, set_pcb]
    rfl

theorem Net.modify_state (n : Net) (p r : Nat) (f : Pcb → Pcb) :
    (n.modify p f).state r = if r = p then (n.pcb p).map fun b => (f b).tstate else n.state r := by
  unfold state
  rw [modify_pcb]
  split
  · rw [Option.map_map]; rfl
  · rfl

theorem Net.modify_state_same (n : Net) (p r : Nat) (same : ∀ b, (f b).tstate = b.tstate) :
    (n.modify p f).state r = n.state r := by
  rw [modify_state]
  split
  · next eq =>
    rw [eq, state]
    exact congrArg (fun g => (n.pcb p).map g) (funext same)
  · rfl

theorem tpqremque_state {n' : Net} (removed : tpqremque p n = some n') (r : Nat) : n'.state r = n.state r := by
  unfold tpqremque at removed
  cases here : n.pcb p with
  | none => simp only [here] at removed; cases removed
  | some b =>
    simp only [here] at removed
    cases above : b.head with
    | none => simp only [above] at removed; cases removed
    | some h =>
      simp only [above] at removed
      cases head : n.pcb h with
      | none =>
        simp only [head] at removed
        cases removed
        exact Net.set_state_self here r rfl
      | some head =>
        simp only [head] at removed
        split at removed
        · cases removed
          rw [Net.modify_state_same, Net.modify_state_same]
          · exact fun _ => rfl
          · exact fun _ => rfl
        · cases removed

theorem tcpFreespc_state (p : Nat) (n : Net) (r : Nat) : (tcpFreespc p n).state r = if r = p then none else n.state r := by
  have gone (m : Net) (same : ∀ r, m.state r = n.state r) :
      Net.state { m with pcb := update m.pcb p none } r = if r = p then none else n.state r := by
    unfold Net.state
    rw [show ({ m with pcb := update m.pcb p none } : Net).pcb r = _ from update_apply m.pcb p none r]
    split
    · rfl
    · exact same r
  unfold tcpFreespc
  cases here : n.pcb p with
  | none =>
    simp only []
    split
    · next eq => rw [eq, Net.state, here]; rfl
    · rfl
  | some b =>
    cases above : b.head with
    | none =>
      simp only [above]
      exact gone n fun _ => rfl
    | some h =>
      simp only [above]
      exact gone _ fun r => Net.modify_state_same n h r fun _ => rfl

theorem inpisdisconnected_eq (p : Nat) (n : Net) :
    inpisdisconnected p n = n.modify p fun b => { b with tstate := nextState .disconInd1 b.tstate } := by
  unfold inpisdisconnected
  congr
  funext b
  rw [if_neg (nextState_ne_badstate .disconInd1 b.tstate)]

/-- The state of an endpoint that is closed, unless it is released. -/
def afterClose (b : Pcb) : Option Nat := if b.nofdref then none else some (nextState .disconInd1 b.tstate)

theorem closable_iff (b : Pcb) : ((afterClose b).all fun s => s < nostates) ↔ closable b := by
  unfold afterClose closable
  cases b.nofdref with
  | true => simp
  | false => simp [reachable_iff]

theorem tcpClose_state (p : Nat) (n : Net) (r : Nat) :
    (tcpClose p n).state r = if r = p then (n.pcb p).bind afterClose else n.state r := by
  unfold tcpClose
  rw [inpisdisconnected_eq]
  cases here : n.pcb p with
  | none =>
    rw [Net.modify_of_none _ here]
    simp only [here]
    split
    · next eq => rw [eq, Net.state, here]; rfl
    · rfl
  | some b =>
    rw [Net.modify_of_some _ here]
    simp only [Net.set_pcb, if_true, bind_some]
    unfold afterClose
    cases b.nofdref with
    | true =>
      rw [if_pos rfl, if_pos rfl, tcpFreespc_state, Net.set_state]
      split <;> rfl
    | false => rw [if_neg Bool.false_ne_true, if_neg Bool.false_ne_true, Net.set_state]

theorem tcpDrop_state (p errno : Nat) (n : Net) (r : Nat) :
    (tcpDrop p errno n).state r = if r = p then (n.pcb p).bind afterClose else n.state r := by
  unfold tcpDrop
  rw [tcpClose_state, Net.modify_pcb, if_pos rfl, Net.modify_state_same, Option.bind_map]
  · rfl
  · exact fun _ => rfl

theorem Net.Valid.close_iff (valid : n.Valid)
    (closed : ∀ r, m.state r = if r = p then (n.pcb p).bind afterClose else n.state r) :
    m.Valid ↔ (n.pcb p).all closable := by
  rw [valid.change_iff closed]
  cases n.pcb p with
  | none => rfl
  | some b => exact closable_iff b

/-! ## Entries of the table -/

theorem table_tested : ∀ s < nostates,
    (nextState .bindReq s = nr ↔ s ≠ tsUnbnd) ∧ (nextState .unbindReq s = nr ↔ s ≠ tsIdle) ∧
      (nextState .connReq s = nr ↔ s ≠ tsIdle) ∧ nextState .nonevent s ≠ nr := by
  decide +kernel

theorem table_connRes : ∀ s < nostates, nextState .connRes s ≠ nr →
    nextState .errorAck (nextState .connRes s) ≠ nr ∧ nextState .okAck2 (nextState .connRes s) ≠ nr ∧
      nextState .okAck3 (nextState .connRes s) ≠ nr ∧ nextState .okAck4 (nextState .connRes s) ≠ nr := by
  decide +kernel

theorem table_disconReq : ∀ s < nostates, nextState .disconReq s ≠ nr → nextState .disconReq s ≠ tsWackDreq7 →
    nextState .disconInd1 (nextState .disconReq s) = nr := by
  decide +kernel

theorem table_wackDreq7 : nextState .errorAck tsWackDreq7 ≠ nr ∧ nextState .okAck2 tsWackDreq7 ≠ nr ∧
    nextState .okAck4 tsWackDreq7 ≠ nr ∧ nextState .disconInd1 tsWackDreq7 = nr := by
  decide +kernel

theorem table_nr : nextState .okAck1 nr = nr ∧ nextState .okAck2 nr = nr ∧ nextState .okAck4 nr = nr := by
  decide +kernel

/-! ## Requests -/

theorem state_of_pcb (here : n.pcb p = some b) : n.state p = some b.tstate := by
  rw [Net.state, here]
  rfl

theorem kept_request_iff {prim : Prim} (here : n.pcb (n.ptr q) = some b) :
    Kept n (.request q prim) ↔
      (tcpState q prim n).1.Valid ∧ (nextState prim.event b.tstate = nr → Refused n prim (tcpState q prim n)) := by
  have mark : marked n q prim ↔ nextState prim.event b.tstate = nr := by
    unfold marked
    rw [state_of_pcb here]
    exact decide_eq_true_iff
  refine and_congr_right fun _ => ⟨fun kept unreachable => kept q prim rfl (mark.mpr unreachable), ?_⟩
  rintro kept _ _ ⟨⟩ unreachable
  exact kept (mark.mp unreachable)

theorem putData_ne (len : Nat) (here : n.pcb p = some b) : n.set p (putData len b) ≠ n := by
  intro same
  have found := Net.set_pcb n p p (putData len b)
  rw [same, here, if_pos rfl] at found
  have queues : b.wq = b.wq ++ [len] := congrArg Pcb.wq (some.inj found)
  have lengths := congrArg List.length queues
  rw [List.length_append, List.length_singleton] at lengths
  omega

theorem connRes_reply (q newq seq : Nat) (b : Pcb) (n : Net) : (connRes q p newq seq b n).2 ≠ .errorAck .toutstate := by
  unfold connRes
  rw [if_neg (nextState_ne_badstate .connRes b.tstate)]
  simp only []
  split
  · simp
  · split <;> simp

theorem disconReq_reply (seq : Nat) (b : Pcb) (n : Net) : (disconReq p seq b n).2 ≠ .errorAck .toutstate := by
  unfold disconReq
  simp only []
  rw [if_neg (nextState_ne_badstate .disconReq b.tstate)]
  split
  · split <;> simp
  · simp

theorem Net.Valid.modify (valid : n.Valid) (least : ∀ b, n.pcb p = some b → (f b).tstate < nostates) :
    (n.modify p f).Valid := by
  rw [valid.change_iff fun r => Net.modify_state n p r f]
  cases here : n.pcb p with
  | none => rfl
  | some b => exact decide_eq_true (least b here)

theorem Net.Valid.modify_same (valid : n.Valid) (same : ∀ b, (f b).tstate = b.tstate) : (n.modify p f).Valid :=
  valid.congr fun r => Net.modify_state_same n p r same

theorem Net.Valid.set (valid : n.Valid) {b : Pcb} (least : b.tstate < nostates) : (n.set p b).Valid := by
  rw [valid.change_iff fun r => Net.set_state n p r b]
  exact decide_eq_true least

theorem ackState_lt {own : Bool} {qlen tstate : Nat} (two : nextState .okAck2 tstate ≠ nr)
    (three : nextState .okAck3 tstate ≠ nr) (four : nextState .okAck4 tstate ≠ nr) : ackState own qlen tstate < nostates := by
  unfold ackState
  split
  · split
    · exact nextState_lt two
    · exact nextState_lt three
  · exact nextState_lt four

theorem Net.Valid.taken (valid : n.Valid) (ctp : Nat) : ((tpqremque ctp n).getD n).Valid := by
  cases removed : tpqremque ctp n with
  | none => exact valid
  | some m => exact valid.congr (tpqremque_state removed)

theorem accept_valid {newq newp ctp tstate : Nat} (valid : n.Valid)
    (two : nextState .okAck2 tstate ≠ nr) (three : nextState .okAck3 tstate ≠ nr) (four : nextState .okAck4 tstate ≠ nr) :
    (accept q p newq newp ctp tstate b n).Valid := by
  have closed : (tcpClose newp (n.modify newp fun b => { b with nofdref := true })).Valid := by
    have marked : (n.modify newp fun b => { b with nofdref := true }).Valid := valid.modify_same fun _ => rfl
    rw [marked.close_iff (tcpClose_state newp _), Net.modify_pcb, if_pos rfl]
    cases n.pcb newp with
    | none => rfl
    | some c => simp [closable]
  refine Net.Valid.modify_same (Net.Valid.taken ?_ ctp) fun _ => rfl
  refine Net.Valid.modify ?_ fun _ _ => ackState_lt two three four
  exact closed

theorem connRes_valid {newq : Nat} (valid : n.Valid) (least : b.tstate < nostates)
    (reachable : nextState .connRes b.tstate ≠ nr) : (connRes q p newq seq b n).1.Valid := by
  have ⟨error, two, three, four⟩ := table_connRes b.tstate least reachable
  have entered : (n.set p { b with tstate := nextState .connRes b.tstate }).Valid := valid.set (nextState_lt reachable)
  unfold connRes
  rw [if_neg (nextState_ne_badstate .connRes b.tstate)]
  simp only []
  split
  · exact entered.set (nextState_lt error)
  · split
    · exact entered.set (nextState_lt error)
    · exact accept_valid entered two three four

theorem Net.set_self (n : Net) (p : Nat) (b : Pcb) : (n.set p b).pcb p = some b := by
  rw [set_pcb, if_pos rfl]

theorem Net.valid_iff_of_same (here : ∀ s, n.state p = some s → s < nostates) (there : ∀ s, m.state p = some s → s < nostates)
    (same : ∀ r, r ≠ p → m.state r = n.state r) : m.Valid ↔ n.Valid := by
  constructor
  · intro valid r s found
    by_cases eq : r = p
    · exact here s (eq ▸ found)
    · exact valid r s ((same r eq).trans found)
  · intro valid r s found
    by_cases eq : r = p
    · exact there s (eq ▸ found)
    · exact valid r s ((same r eq).symm.trans found)

theorem refusal_valid_iff (valid : n.Valid) (waiting : n.state p = some tsWackDreq7) :
    ((tcpDrop seq 0 n).modify p fun b => { b with
        tstate := if b.q = [] then nextState .okAck2 b.tstate else nextState .okAck4 b.tstate }).Valid ↔
      (n.pcb seq).all closable := by
  rw [← valid.close_iff (tcpDrop_state seq 0 n)]
  have ⟨_, two, four, final⟩ := table_wackDreq7
  have ⟨_, two', four'⟩ := table_nr
  have dropped := tcpDrop_state seq 0 n p
  cases here : (tcpDrop seq 0 n).pcb p with
  | none => rw [Net.modify_of_none _ here]
  | some c =>
    rw [state_of_pcb here] at dropped
    have found := Net.modify_state (tcpDrop seq 0 n) p p fun b => { b with
      tstate := if b.q = [] then nextState .okAck2 b.tstate else nextState .okAck4 b.tstate }
    rw [if_pos rfl, here, Option.map_some] at found
    by_cases own : p = seq
    · -- The endpoint that refuses is the one that is dropped.
      have marker : c.tstate = nr := by
        subst own
        rw [if_pos rfl] at dropped
        cases before : n.pcb p with
        | none => rw [before] at dropped; cases dropped
        | some d =>
          have state : d.tstate = tsWackDreq7 := some.inj ((state_of_pcb before).symm.trans waiting)
          rw [before, bind_some, afterClose, state, final] at dropped
          split at dropped
          · cases dropped
          · exact some.inj dropped
      rw [marker, two', four', ite_self] at found
      constructor
      · intro kept
        exact absurd (kept p nr found) (lt_irrefl nr)
      · intro kept
        exact absurd (kept p nr (marker ▸ state_of_pcb here)) (lt_irrefl nr)
    · rw [if_neg own, waiting] at dropped
      have state : c.tstate = tsWackDreq7 := some.inj dropped
      rw [state] at found
      refine Net.valid_iff_of_same (p := p) (fun s now => ?_) (fun s now => ?_) fun r other => ?_
      · rw [state_of_pcb here, state] at now
        cases now
        decide
      · rw [found] at now
        cases now
        split
        · exact nextState_lt two
        · exact nextState_lt four
      · rw [Net.modify_state, if_neg other]

theorem abort_valid_iff (valid : n.Valid) (here : n.pcb p = some b) (final : nextState .disconInd1 b.tstate = nr) :
    ((tcpDrop p 0 n).modify p fun b => { b with tstate := nextState .okAck1 b.tstate }).Valid ↔ closable b := by
  have dropped := tcpDrop_state p 0 n p
  rw [if_pos rfl, here, bind_some] at dropped
  by_cases referenced : b.nofdref = true
  · rw [afterClose, if_pos referenced] at dropped
    have gone := Option.map_eq_none_iff.mp dropped
    rw [Net.modify_of_none _ gone, valid.close_iff (tcpDrop_state p 0 n), here]
    rfl
  · have refused : closable b = false := by
      unfold closable
      simp [referenced, final]
    rw [refused]
    rw [afterClose, if_neg referenced, final] at dropped
    refine iff_of_false (fun kept => ?_) Bool.false_ne_true
    obtain ⟨c, found, marker⟩ := map_eq_some_iff.mp dropped
    have now := Net.modify_state (tcpDrop p 0 n) p p fun b => { b with tstate := nextState .okAck1 b.tstate }
    rw [if_pos rfl, found, Option.map_some, marker, table_nr.1] at now
    exact absurd (kept p nr now) (lt_irrefl nr)

theorem disconReq_valid_iff (valid : n.Valid) (least : b.tstate < nostates)
    (reachable : nextState .disconReq b.tstate ≠ nr) :
    (disconReq p seq b n).1.Valid ↔
      if nextState .disconReq b.tstate = tsWackDreq7 then
        (tpqremque seq (n.set p { b with tstate := nextState .disconReq b.tstate })).all fun n => (n.pcb seq).all closable
      else closable { b with tstate := nextState .disconReq b.tstate } := by
  have entered : (n.set p { b with tstate := nextState .disconReq b.tstate }).Valid := valid.set (nextState_lt reachable)
  have found := Net.set_self n p { b with tstate := nextState .disconReq b.tstate }
  unfold disconReq
  simp only []
  rw [if_neg (nextState_ne_badstate .disconReq b.tstate)]
  split
  · next seven =>
    cases removed : tpqremque seq (n.set p { b with tstate := nextState .disconReq b.tstate }) with
    | none =>
      refine iff_of_true (entered.modify fun c here => ?_) rfl
      have same := some.inj (found.symm.trans here)
      rw [← same]
      simp only [seven]
      exact nextState_lt table_wackDreq7.1
    | some m =>
      have waiting : m.state p = some tsWackDreq7 := by
        rw [tpqremque_state removed, state_of_pcb found, ← seven]
      exact refusal_valid_iff (entered.congr (tpqremque_state removed)) waiting
  · next other =>
    exact abort_valid_iff entered found (table_disconReq b.tstate least reachable other)

theorem tcpDisconnect_valid_iff (valid : n.Valid) (here : n.pcb p = some b) :
    (tcpDisconnect p n).Valid ↔ if b.tState.number < TState.established.number ∨ b.nolinger then closable b else true := by
  unfold tcpDisconnect
  simp only [here]
  by_cases early : b.tState.number < TState.established.number
  · rw [if_pos early, if_pos (.inl early), valid.close_iff (tcpClose_state p n), here]
    rfl
  · rw [if_neg early]
    by_cases hard : b.nolinger = true
    · rw [if_pos hard, if_pos (.inr hard), valid.close_iff (tcpDrop_state p 0 n), here]
      rfl
    · rw [if_neg hard, if_neg (by simp [early, hard])]
      refine iff_of_true ?_ rfl
      have kept (s : TState) : (n.set p { b with tState := s }).Valid := valid.set (valid p b.tstate (state_of_pcb here))
      unfold tcpUsrclosed
      simp only [here]
      cases state : b.tState with
      | closed | listen | synSent => exact absurd (by rw [state]; decide) early
      | synReceived | established | closeWait => exact kept _
      | finWait1 | closing | lastAck | finWait2 | timeWait => exact valid

section

variable {q : Nat}

theorem tcpState_error (prim : Prim) (here : n.pcb (n.ptr q) = some b) (pending : b.error ≠ 0) :
    tcpState q prim n = (n, .errorAck (.tsyserr b.error)) := by
  unfold tcpState
  simp only [here, if_pos pending]

theorem tcpState_serve (prim : Prim) (valid : n.Valid) (here : n.pcb (n.ptr q) = some b) (none : ¬ b.error ≠ 0) :
    tcpState q prim n = serve q (n.ptr q) prim b n := by
  have good : b.tstate ≠ badstate := Nat.ne_of_lt ((valid _ _ (state_of_pcb here)).trans (by decide))
  unfold tcpState
  simp only [here, if_neg none, if_neg good]

theorem marked_refused_iff {prim : Prim} (valid : n.Valid) (here : n.pcb (n.ptr q) = some b) (none : ¬ b.error ≠ 0)
    (unreachable : nextState prim.event b.tstate = nr) :
    (tcpState q prim n).1.Valid ∧ Refused n prim (tcpState q prim n) ↔ prim.tested := by
  have least := valid _ _ (state_of_pcb here)
  have ⟨bind, unbind, conn, other⟩ := table_tested b.tstate least
  have answered (result : Net × Reply) (silent : result.2 ≠ .errorAck .toutstate) (none : prim.carriesData = false) :
      ¬ Refused n prim result := fun refused => by
    obtain same | absurd := refused.2
    · exact silent same
    · rw [none] at absurd
      cases absurd
  rw [tcpState_serve prim valid here none]
  unfold serve
  cases prim with
  | data len =>
    simp only [if_pos (nextState_ne_badstate .dataReq b.tstate)]
    exact iff_of_false (fun ⟨_, same, _⟩ => putData_ne len here same) Bool.false_ne_true
  | infoReq | unknown => exact absurd unreachable other
  | bindReq result conind =>
    simp only [if_pos (bind.mp unreachable)]
    exact iff_of_true ⟨valid, rfl, .inl rfl⟩ rfl
  | unbindReq =>
    simp only [if_pos (unbind.mp unreachable)]
    exact iff_of_true ⟨valid, rfl, .inl rfl⟩ rfl
  | connReq error =>
    simp only [if_pos (conn.mp unreachable)]
    exact iff_of_true ⟨valid, rfl, .inl rfl⟩ rfl
  | connRes newq seq => exact iff_of_false (fun ⟨_, refused⟩ => answered _ (connRes_reply q newq seq b n) rfl refused) Bool.false_ne_true
  | disconReq seq => exact iff_of_false (fun ⟨_, refused⟩ => answered _ (disconReq_reply seq b n) rfl refused) Bool.false_ne_true
  | ordrelReq =>
    simp only [if_neg (nextState_ne_badstate .ordrelReq b.tstate)]
    exact iff_of_false (fun ⟨_, refused⟩ => answered _ Reply.noConfusion rfl refused) Bool.false_ne_true
  | optmgmtReq => exact iff_of_false (fun ⟨_, refused⟩ => answered _ Reply.noConfusion rfl refused) Bool.false_ne_true
  | unitdataReq => exact iff_of_false (fun ⟨_, refused⟩ => answered _ (by simp) rfl refused) Bool.false_ne_true
  | dataReq len =>
    simp only [if_neg (nextState_ne_badstate .dataReq b.tstate)]
    cases len with
    | none => exact iff_of_true ⟨valid, rfl, .inr rfl⟩ rfl
    | some len => exact iff_of_false (fun ⟨_, same, _⟩ => putData_ne len here same) Bool.false_ne_true
  | exdataReq len =>
    simp only [if_neg (nextState_ne_badstate .exdataReq b.tstate)]
    cases len with
    | none => exact iff_of_true ⟨valid, rfl, .inl rfl⟩ rfl
    | some len => exact iff_of_false (fun ⟨_, same, _⟩ => putData_ne len here same) Bool.false_ne_true

theorem bindTo_tstate (conind : Nat) (b : Pcb) : (bindTo conind b).tstate = tsIdle := by
  unfold bindTo
  split <;> rfl

/-- What the table has leads to a state of the table, unless it closes an endpoint for which the table has none. -/
theorem reachable_valid_iff {prim : Prim} (valid : n.Valid) (here : n.pcb (n.ptr q) = some b) (none : ¬ b.error ≠ 0)
    (reachable : nextState prim.event b.tstate ≠ nr) :
    (tcpState q prim n).1.Valid ↔ lawfulPrim n (n.ptr q) b prim := by
  have least := valid _ _ (state_of_pcb here)
  have put (len : Nat) : (n.set (n.ptr q) (putData len b)).Valid := valid.set least
  rw [tcpState_serve prim valid here none]
  unfold serve lawfulPrim
  simp only [if_neg none, if_neg reachable]
  cases prim with
  | data len =>
    simp only [if_pos (nextState_ne_badstate .dataReq b.tstate)]
    exact iff_of_true (put len) trivial
  | infoReq | unknown | optmgmtReq | unitdataReq => exact iff_of_true valid rfl
  | bindReq result conind =>
    simp only []
    refine iff_of_true ?_ trivial
    split
    · exact valid
    · cases result with
      | ok => exact valid.set (by rw [bindTo_tstate]; decide)
      | badaddr | eacces | failed => exact valid
  | unbindReq =>
    simp only []
    refine iff_of_true ?_ trivial
    split
    · exact valid
    · exact valid.set (show tsUnbnd < nostates by decide)
  | connReq error =>
    simp only []
    refine iff_of_true ?_ trivial
    split
    · exact valid
    · cases error with
      | none => exact valid.set (show tsWconCreq < nostates by decide)
      | some errno => exact valid
  | connRes newq seq => exact iff_of_true (connRes_valid valid least reachable) rfl
  | disconReq seq => exact disconReq_valid_iff valid least reachable
  | ordrelReq =>
    simp only [if_neg (nextState_ne_badstate .ordrelReq b.tstate)]
    have entered : (n.set (n.ptr q) { b with tstate := nextState .ordrelReq b.tstate }).Valid := valid.set (nextState_lt reachable)
    exact tcpDisconnect_valid_iff entered (Net.set_self n (n.ptr q) _)
  | dataReq len =>
    simp only [if_neg (nextState_ne_badstate .dataReq b.tstate)]
    cases len with
    | none => exact iff_of_true valid trivial
    | some len => exact iff_of_true (put len) trivial
  | exdataReq len =>
    simp only [if_neg (nextState_ne_badstate .exdataReq b.tstate)]
    cases len with
    | none => exact iff_of_true valid trivial
    | some len => exact iff_of_true (put len) trivial

theorem request_kept_iff (valid : n.Valid) (prim : Prim) : Kept n (.request q prim) ↔ lawful n (.request q prim) := by
  cases here : n.pcb (n.ptr q) with
  | none =>
    have result : tcpState q prim n = (n, .silent) := by
      unfold tcpState
      simp only [here]
    have free : lawful n (.request q prim) := by simp only [lawful, here, Option.all_none]
    refine iff_of_true ⟨?_, ?_⟩ free
    · rw [step, result]
      exact valid
    · rintro _ _ ⟨⟩ mark
      rw [marked, Net.state, here] at mark
      cases mark
  | some b =>
    have allowed : lawful n (.request q prim) ↔ lawfulPrim n (n.ptr q) b prim := by
      simp only [lawful, here, all_some]
    rw [kept_request_iff here, allowed]
    by_cases pending : b.error ≠ 0
    · rw [tcpState_error prim here pending]
      unfold lawfulPrim
      simp only [if_pos pending, Bool.or_eq_true, decide_eq_true_eq]
      constructor
      · intro kept
        by_cases unreachable : nextState prim.event b.tstate = nr
        · obtain absurd | data := (kept.2 unreachable).2
          · cases absurd
          · exact .inr data
        · exact .inl unreachable
      · rintro (reachable | data)
        · exact ⟨valid, fun unreachable => absurd unreachable reachable⟩
        · exact ⟨valid, fun _ => ⟨rfl, .inr data⟩⟩
    · by_cases unreachable : nextState prim.event b.tstate = nr
      · rw [← and_congr_right fun _ => (forall_prop_of_true unreachable).symm, marked_refused_iff valid here pending unreachable]
        unfold lawfulPrim
        simp only [if_neg pending, if_pos unreachable]
      · rw [← reachable_valid_iff valid here pending unreachable]
        exact and_iff_left fun marked => absurd marked unreachable

end

/-! ## Events of the network -/

section
variable (valid : n.Valid)
include valid

theorem newconn_valid (child : Nat) : (newconn p child n).Valid := by
  unfold newconn
  cases here : n.pcb p with
  | none => exact valid
  | some b =>
    simp only []
    split
    · refine Net.Valid.set (valid.set ?_) (show tsDataXfer < nostates by decide)
      exact valid p b.tstate (state_of_pcb here)
    · exact valid

theorem inpisconnected_valid_iff (here : n.pcb p = some b) :
    (inpisconnected p true n).Valid ↔ confirmable n p b := by
  unfold inpisconnected confirmable
  rw [if_neg Bool.noConfusion]
  simp only [here]
  cases above : b.head with
  | none =>
    refine (valid.change_iff fun r => Net.set_state n p r _).trans ?_
    simp only [all_some, reachable_iff]
  | some h =>
    simp only []
    -- The state of the connection itself is set last.
    have data : tsDataXfer < nostates := by decide
    by_cases own : h = p
    · subst own
      refine iff_of_true ?_ (by simp)
      intro r s found
      rw [Net.modify_state] at found
      split at found
      · obtain ⟨c, _, eq⟩ := map_eq_some_iff.mp found
        rw [← eq]
        exact data
      · next other =>
        rw [Net.modify_state, if_neg other] at found
        exact valid r s found
    · have indicated := valid.change_iff fun r => Net.modify_state n h r fun head => { head with
        tstate := nextState .connInd head.tstate
        q0 := head.q0.erase p
        q := p :: head.q }
      refine Iff.trans (Net.valid_iff_of_same (p := p) ?_ ?_ fun r other => ?_) (indicated.trans ?_)
      · intro s found
        rw [Net.modify_state, if_neg (Ne.symm own)] at found
        exact valid p s found
      · intro s found
        rw [Net.modify_state, if_pos rfl] at found
        obtain ⟨c, _, eq⟩ := map_eq_some_iff.mp found
        rw [← eq]
        exact data
      · rw [Net.modify_state, if_neg other]
      · rw [Net.state]
        cases n.pcb h with
        | none => simp
        | some c => simp [own, reachable_iff]

theorem connected_valid_iff (alloc : Bool) : (connected p alloc n).Valid ↔ lawful n (.connected p alloc) := by
  unfold connected
  simp only [lawful]
  cases here : n.pcb p with
  | none => exact iff_of_true valid rfl
  | some b =>
    have settled (m : Net) : (m.modify p fun b => { b with tState := .established }).Valid ↔ m.Valid := by
      have same (r : Nat) : (m.modify p fun b => { b with tState := .established }).state r = m.state r :=
        Net.modify_state_same m p r fun _ => rfl
      exact ⟨fun kept => kept.congr fun r => (same r).symm, fun kept => kept.congr same⟩
    simp only [all_some]
    by_cases syn : b.tState = .synSent ∨ b.tState = .synReceived
    · rw [if_pos syn, settled]
      cases alloc with
      | true => rw [if_pos ⟨rfl, syn⟩, inpisconnected_valid_iff valid here]
      | false =>
        rw [if_neg (fun granted => Bool.false_ne_true granted.1)]
        exact iff_of_true valid rfl
    · rw [if_neg syn, if_neg fun granted => syn granted.2]
      exact iff_of_true valid rfl

theorem finAcked_valid_iff : (finAcked p n).Valid ↔ lawful n (.finAcked p) := by
  unfold finAcked
  simp only [lawful]
  cases here : n.pcb p with
  | none => exact iff_of_true valid rfl
  | some b =>
    have kept (s : TState) : (n.set p { b with tState := s }).Valid := valid.set (valid p b.tstate (state_of_pcb here))
    simp only [all_some]
    cases state : b.tState with
    | lastAck =>
      rw [if_pos rfl, (kept .closed).close_iff (tcpClose_state p _), Net.set_self]
      rfl
    | finWait1 | closing => exact iff_of_true (kept _) rfl
    | closed | listen | synSent | synReceived | established | closeWait | finWait2 | timeWait => exact iff_of_true valid rfl

theorem deqdata_valid_iff (alloc : Bool) : (deqdata p alloc n).Valid ↔ lawful n (.deqdata p alloc) := by
  unfold deqdata inpordrelind
  simp only [lawful]
  cases here : n.pcb p with
  | none => exact iff_of_true valid rfl
  | some b =>
    simp only [all_some]
    by_cases finished : b.tState.havercvdfin = true
    · rw [if_pos finished]
      cases alloc with
      | false =>
        rw [if_pos rfl, if_neg (c := false = true ∧ _) (fun granted => Bool.false_ne_true granted.1)]
        exact iff_of_true valid rfl
      | true =>
        rw [if_neg Bool.noConfusion, if_pos ⟨rfl, finished⟩, Net.modify_of_some _ here, if_neg (nextState_ne_badstate .ordrelInd b.tstate)]
        refine (valid.change_iff fun r => Net.set_state n p r _).trans ?_
        simp only [all_some, reachable_iff]
    · rw [if_neg finished, if_neg fun granted => finished granted.2]
      exact iff_of_true valid rfl

theorem reset_valid_iff :
    (tcpClose p (n.modify p fun b => { b with tState := .closed })).Valid ↔ (n.pcb p).all closable := by
  have closed : (n.modify p fun b => { b with tState := .closed }).Valid := valid.modify_same fun _ => rfl
  rw [closed.close_iff (tcpClose_state p _), Net.modify_pcb, if_pos rfl]
  cases n.pcb p <;> rfl

theorem notify_valid_iff (errno : Nat) :
    (inpisdisconnected p (n.modify p fun b => { b with error := if errno = 0 then b.error else errno })).Valid ↔
      (n.state p).all fun s => nextState .disconInd1 s ≠ nr := by
  have told : (n.modify p fun b => { b with error := if errno = 0 then b.error else errno }).Valid :=
    valid.modify_same fun _ => rfl
  rw [inpisdisconnected_eq, told.change_iff fun r => Net.modify_state _ p r _, Net.modify_pcb, if_pos rfl, Net.state]
  cases n.pcb p with
  | none => rfl
  | some b => simp [reachable_iff]

end

/-! ## Runs -/

/-- The step lemma. -/
theorem step_kept_iff (valid : n.Valid) (a : Action) : Kept n a ↔ lawful n a := by
  cases a with
  | request q prim => exact request_kept_iff valid prim
  | newconn p child => exact (and_iff_left nofun).trans (iff_of_true (newconn_valid valid child) rfl)
  | connected p alloc => exact (and_iff_left nofun).trans (connected_valid_iff valid alloc)
  | fin p => exact (and_iff_left nofun).trans (iff_of_true (valid.modify_same fun _ => rfl) rfl)
  | finAcked p => exact (and_iff_left nofun).trans (finAcked_valid_iff valid)
  | deqdata p alloc => exact (and_iff_left nofun).trans (deqdata_valid_iff valid alloc)
  | drop p errno => exact (and_iff_left nofun).trans (valid.close_iff (tcpDrop_state p errno n))
  | reset p => exact (and_iff_left nofun).trans (reset_valid_iff valid)
  | close p => exact (and_iff_left nofun).trans (valid.close_iff (tcpClose_state p n))
  | notify p errno => exact (and_iff_left nofun).trans (notify_valid_iff valid errno)

end

/-- Every action of a run meets `holds` in the net before it. -/
def Along (holds : Net → Action → Prop) : Net → List Action → Prop
  | _, [] => True
  | n, a :: actions => holds n a ∧ Along holds (step n a).1 actions

instance (holds : Net → Action → Prop) [∀ n a, Decidable (holds n a)] (n : Net) (actions : List Action) :
    Decidable (Along holds n actions) :=
  match actions with
  | [] => .isTrue trivial
  | a :: actions =>
    have := instDecidableAlong holds (step n a).1 actions
    inferInstanceAs (Decidable (holds n a ∧ Along holds (step n a).1 actions))

/-- The endpoints stay in the table, and what the table marks is refused, exactly when every action is lawful. -/
theorem states_kept (n : Net) (valid : n.Valid) (actions : List Action) :
    Along Kept n actions ↔ Along (fun n a => lawful n a) n actions := by
  induction actions generalizing n with
  | nil => exact Iff.rfl
  | cons a actions ih =>
    have first := step_kept_iff valid a
    constructor
    · rintro ⟨kept, rest⟩
      exact ⟨first.mp kept, (ih _ kept.1).mp rest⟩
    · rintro ⟨allowed, rest⟩
      have kept := first.mpr allowed
      exact ⟨kept, (ih _ kept.1).mpr rest⟩

/-- One endpoint that has been opened. -/
def opened : Net := ⟨fun p => if p = 0 then some (newPcb tsUnbnd .closed) else none, fun _ => 0⟩

theorem opened_valid : opened.Valid := by
  intro p s found
  obtain ⟨b, here, state⟩ := map_eq_some_iff.mp found
  have here : (if p = 0 then some (newPcb tsUnbnd .closed) else none) = some b := here
  split at here
  · cases here
    rw [← state]
    decide
  · cases here

theorem states_kept_opened :
    Along Kept opened [.request 0 (.bindReq .ok 0), .request 0 (.connReq none), .connected 0 true] :=
  (states_kept opened opened_valid _).mpr (by decide +kernel)

/-- A connection that its user drops. -/
theorem states_lost : ¬ ∀ (n : Net) (actions : List Action), n.Valid → Along Kept n actions := by
  intro kept
  have run := (states_kept opened opened_valid _).mp (kept opened
    [.request 0 (.bindReq .ok 0), .request 0 (.connReq none), .connected 0 true, .request 0 (.disconReq 0)] opened_valid)
  exact absurd run (by decide +kernel)

end Svr4.Tcp.Tli
