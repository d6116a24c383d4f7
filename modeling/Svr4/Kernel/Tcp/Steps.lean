import Svr4.Foundation.Execution
import Svr4.Kernel.Tcp.Input

/-! The events of a connection: segments, requests of the user, timers and calls of `tcp_output`. -/

namespace Svr4.Tcp

open Words

inductive Timer where
  | rexmt
  | persist
  | keep
  | msl2
  deriving DecidableEq, Repr

inductive Event where
  /-- A segment at the front of `t_inq`. -/
  | segment (env : Env) (ti : Tcpiphdr)
  /-- `tcp_io` with `TF_NEEDOUT`. -/
  | output
  /-- `T_CONN_REQ`. -/
  | connect (iss : Seq)
  | data (m : List Block)
  | exdata (m : List Block)
  /-- `M_FLUSH` of the write queue. -/
  | flush
  /-- `T_ORDREL_REQ`. -/
  | ordrel
  /-- `T_CONN_RES`, for the connection that is accepted. -/
  | accept (qHiwat : Nat)
  /-- `tcpclose`, to its call of `tcp_disconnect`. -/
  | close
  /-- The rest of `tcpclose`. -/
  | detach (linger : Bool)
  /-- `lingertimer`. -/
  | lingertimer
  /-- A timer is counted down. -/
  | tick (t : Timer)
  /-- The rest of `tcp_slowtimo`. -/
  | slowtimo
  | fasttimo
  | deqdata (ups : List Upstream)
  /-- `tcp_quench`. -/
  | quench

/-- `tcp_drop`, while `tcp_io` is not at work. -/
def tcpDropNow (c : Tcpcb) : Tcpcb × After :=
  if c.tState.havercvdsyn then (c.sending toClosed, .close) else (tcpClose c, .moreinput)

/-- `tcp_usrclosed` from `ESTABLISHED` on. -/
def tcpUsrclosed (s : Sender) : Sender :=
  match s.tState with
  | .established => { s with tState := .finWait1 }
  | .closeWait => { s with tState := .lastAck }
  | _ => s

/-- `tcp_disconnect`. -/
def tcpDisconnect (c : Tcpcb) : Tcpcb × After :=
  if c.tState.number < TState.established.number then (tcpClose c, .moreinput)
  else if c.nolinger then tcpDropNow c
  else (c.sending tcpUsrclosed, .output)

def msgsize (m : List Block) : Nat := m.flatten.length

def putq (m : List Block) (s : Sender) : Sender := { s with tQsize := s.tQsize + msgsize m, wq := s.wq ++ [m] }

/-- The urgent pointer goes behind the data. -/
def putUrgent (m : List Block) (s : Sender) : Sender :=
  let s := putq m s
  { s with sndUp := s.sndUna + BitVec.ofNat 32 s.tQsize, tForce := true }

/-- The retransmit timer is backed off. -/
def backOff (s : Sender) : Sender :=
  let s := { s with tRxtshift := s.tRxtshift + 1 }
  let s := { s with
    tRxtcur := rangeset ((s.tSrtt / 4 + s.tRttvar) / 2 * backoff s.tRxtshift) tcptvMin tcptvRexmtmax }
  let s := { s with rexmt := s.tRxtcur }
  -- The estimate is probably bogus.
  if tcpMaxrxtshift / 4 < s.tRxtshift then { s with tRttvar := toShort (s.tRttvar + s.tSrtt / 4), tSrtt := 0 } else s

/-- Everything from `snd_una` on is to be sent again. -/
def resendAll (win : Nat) (s : Sender) : Sender :=
  { s with
    sndNxt := s.sndUna
    tRtt := 0
    sndCwnd := s.tMaxseg
    sndSsthresh := win * s.tMaxseg }

/-- `tcp_timers` for `TCPT_REXMT`. -/
def rexmtTimer (c : Tcpcb) : Tcpcb × After :=
  if tcpMaxrxtshift < c.tRxtshift + 1 then tcpDropNow { c with tRxtshift := tcpMaxrxtshift }
  else
    match halfWindow c.toSender with
    | none => (c.sending backOff, .crashed .divide)
    | some win => (c.sending fun s => resendAll win (backOff s), .output)

/-- `tcp_timers` for `TCPT_KEEP`. The probe is not sent through `tcp_output`. -/
def keepTimer (c : Tcpcb) : Tcpcb × After :=
  if c.tState.number < TState.established.number then tcpDropNow c
  else if c.keepalive ∧ c.tState.number ≤ TState.closeWait.number then
    if (tcpKeepidle : Int) + tcpMaxidle ≤ c.tIdle then tcpDropNow c
    else ({ c with keep := tcpKeepintvl }, .moreinput)
  else ({ c with keep := tcpKeepidle }, .moreinput)

/-- `tcp_timers` for `TCPT_2MSL`. -/
def msl2Timer (c : Tcpcb) : Tcpcb × After :=
  if c.tState ≠ .timeWait ∧ c.tIdle ≤ tcpMaxidle then ({ c with msl2 := tcpKeepintvl }, .moreinput)
  else (tcpClose { c with tState := .closed }, .moreinput)

/-- The end of a timer's time. -/
def tcpTimers (t : Timer) (c : Tcpcb) : Tcpcb × After :=
  match t with
  | .rexmt => rexmtTimer c
  | .persist => if c.rexmt ≠ 0 then (c, .crashed .panic) else (c.sending fun s => { tcpSetpersist s with tForce := true }, .output)
  | .keep => keepTimer c
  | .msl2 => msl2Timer c

def timer (t : Timer) (s : Sender) : Nat :=
  match t with
  | .rexmt => s.rexmt
  | .persist => s.persist
  | .keep => s.keep
  | .msl2 => s.msl2

def setTimer (t : Timer) (n : Nat) (s : Sender) : Sender :=
  match t with
  | .rexmt => { s with rexmt := n }
  | .persist => { s with persist := n }
  | .keep => { s with keep := n }
  | .msl2 => { s with msl2 := n }

def tick (t : Timer) (c : Tcpcb) : Tcpcb × After :=
  if timer t c.toSender = 0 then (c, .moreinput)
  else if timer t c.toSender = 1 then tcpTimers t (c.sending (setTimer t 0))
  else (c.sending (setTimer t (timer t c.toSender - 1)), .moreinput)

/-- `tcpclose`, to its call of `tcp_disconnect`. -/
def tcpclose (c : Tcpcb) : Tcpcb × After :=
  let c := { c with nofdref := true, cantrcvmore := true }
  if TState.listen.number < c.tState.number then tcpDisconnect c else (tcpClose c, .moreinput)

/-- The rest of `tcpclose`. A process that lingers sleeps until `t_ltidp` is null. -/
def detach (linger : Bool) (s : Sender) : Sender :=
  if s.tQsize ≠ 0 ∧ linger then { s with lingering := true } else { s with tQsize := 0, inpQ := false }

/-- T_CONN_REQ, for a block in the state `CLOSED`. -/
def connect (iss : Seq) (s : Sender) : Sender :=
  tcpSendseqinit { s with tState := .synSent, keep := tcptvKeepInit, iss := iss }

/-- What an event does before `tcp_output` is called. -/
def handle (e : Event) (c : Tcpcb) : Tcpcb × After :=
  if c.gone then (c, .moreinput)
  else
    match e with
    | .segment env ti => tcpUinput env ti c
    | .output => (c, .output)
    | .connect iss =>
      if c.tState = .closed then (c.sending (connect iss), .output) else (c, .moreinput)
    | .data m => (c.sending (putq m), .moreinput)
    | .exdata m => (c.sending (putUrgent m), .moreinput)
    | .flush => ({ c with tQsize := 0, wq := [] }, .moreinput)
    | .ordrel => tcpDisconnect c
    | .accept qHiwat => ({ c with inpQ := true, nofdref := false, qHiwat := qHiwat }, .moreinput)
    | .close => tcpclose c
    | .detach linger => (if c.nofdref then c.sending (detach linger) else c, .moreinput)
    | .lingertimer =>
      if c.lingering then ({ c with tQsize := 0, lingering := false, inpQ := false }, .output) else (c, .moreinput)
    | .tick t => tick t c
    | .slowtimo =>
      ({ c with tIdle := toShort (c.tIdle + 1), tRtt := if c.tRtt ≠ 0 then toShort (c.tRtt + 1) else 0 }, .moreinput)
    | .fasttimo => if c.delack then ({ c with delack := false, acknow := true }, .output) else (c, .moreinput)
    | .deqdata ups =>
      match tcpDeqdata ups c.inq with
      | none => (c, .crashed .null)
      | some i => ({ c with inq := i }, .moreinput)
    | .quench => ({ c with sndCwnd := c.tMaxseg }, .moreinput)

/-- The options of an endpoint, and whether it listens. -/
structure Endpoint where
  listening : Bool
  nodelay : Bool
  noopt : Bool
  keepalive : Bool
  nolinger : Bool
  inpQ : Bool
  nofdref : Bool
  qHiwat : Nat

/-- `tcp_newtcpcb`. -/
def tcpNewtcpcb (e : Endpoint) : Tcpcb where
  tState := if e.listening then .listen else .closed
  rexmt := 0
  persist := 0
  keep := 0
  msl2 := 0
  tRxtshift := 0
  tRxtcur := 12
  tDupacks := 0
  tMaxseg := ipMaxpacket
  tForce := false
  nodelay := e.nodelay
  noopt := e.noopt
  sentfin := false
  sndUna := 0
  sndNxt := 0
  sndUp := 0
  sndWl1 := 0
  sndWl2 := 0
  iss := 0
  sndWnd := 0
  sndMax := 0
  sndCwnd := 65535
  sndSsthresh := 65535
  tRtt := 0
  tRtseq := 0
  tSrtt := 0
  tRttvar := 24
  maxSndwnd := 0
  tQsize := 0
  wq := []
  inpQ := e.inpQ
  lingering := false
  sent := []
  rcvWnd := 0
  rcvNxt := 0
  rcvUp := 0
  irs := 0
  rcvAdv := 0
  maxRcvd := 0
  segs := []
  inq := ⟨[], 0, -1, [], [], 0⟩
  cantrcvmore := false
  acknow := false
  delack := false
  tIdle := 0
  nofdref := e.nofdref
  keepalive := e.keepalive
  nolinger := e.nolinger
  qHiwat := e.qHiwat
  gone := false

/-- A block that has been made for an endpoint. -/
def Made (c : Tcpcb) : Prop := ∃ e, c = tcpNewtcpcb e

/-- Whether the processing ends with a call of `tcp_output`. -/
def After.callsOutput : After → Bool
  | .output | .resend _ | .close => true
  | .moreinput | .crashed _ => false

/-- What a call of `tcp_output` finds. -/
structure Call where
  alloc : List Bool
  route : Option Route
  deriving DecidableEq

/-- The call of `tcp_output` with which an event ends. -/
def Ends (call : Call) (c : Tcpcb) (a : After) (c' : Tcpcb) : Prop :=
  match a with
  | .moreinput => c' = c
  | .output => ∃ failed, Outputs call.alloc call.route c (.returned c' failed)
  | .resend onxt => ∃ failed c₁, Outputs call.alloc call.route c (.returned c₁ failed) ∧
      c' = if 0 < Seq.ahead onxt c₁.sndNxt then { c₁ with sndNxt := onxt } else c₁
  | .close => ∃ failed c₁, Outputs call.alloc call.route c (.returned c₁ failed) ∧ c' = tcpClose c₁
  | .crashed _ => False

def Step (c : Tcpcb) (e : Event × Call) (c' : Tcpcb) : Prop := Ends e.2 (handle e.1 c).1 (handle e.1 c).2 c'

/-- A step that is computed, with so many passes at most. -/
def perform (fuel : Nat) (c : Tcpcb) (e : Event × Call) : Option Tcpcb :=
  let (c, after) := handle e.1 c
  let output :=
    match tcpOutput fuel e.2.alloc e.2.route c with
    | some (.returned c _) => some c
    | _ => none
  match after with
  | .moreinput => some c
  | .output => output
  | .resend onxt => output.map fun c => if 0 < Seq.ahead onxt c.sndNxt then { c with sndNxt := onxt } else c
  | .close => output.map tcpClose
  | .crashed _ => none

theorem perform_step {fuel : Nat} {c c' : Tcpcb} {e : Event × Call} (done : perform fuel c e = some c') : Step c e c' := by
  unfold perform at done
  change Ends e.2 (handle e.1 c).1 (handle e.1 c).2 c'
  generalize handle e.1 c = result at done ⊢
  obtain ⟨c₁, after⟩ := result
  have outputs {c₂ : Tcpcb} (found : (match tcpOutput fuel e.2.alloc e.2.route c₁ with
      | some (.returned c _) => some c
      | _ => none) = some c₂) : ∃ failed, Outputs e.2.alloc e.2.route c₁ (.returned c₂ failed) := by
    split at found
    · next c₃ failed returned =>
      cases found
      exact ⟨failed, fuel, returned⟩
    · cases found
  cases after with
  | moreinput =>
    cases done
    rfl
  | output => exact outputs done
  | resend onxt =>
    obtain ⟨c₂, found, same⟩ := Option.map_eq_some_iff.mp done
    obtain ⟨failed, returned⟩ := outputs found
    exact ⟨failed, c₂, returned, same.symm⟩
  | close =>
    obtain ⟨c₂, found, same⟩ := Option.map_eq_some_iff.mp done
    obtain ⟨failed, returned⟩ := outputs found
    exact ⟨failed, c₂, returned, same.symm⟩
  | crashed fault => cases done

end Svr4.Tcp
