import Svr4.Kernel.Tcp.WriteQueue

/-! `tcp_output`: what should be sent, and its sending.

The allocations and the route are found anew by each call.
-/

namespace Svr4.Tcp

/-- The largest unit of the interface on the route, and whether the peer is on a local net. -/
structure Route where
  ifMaxtu : Int
  isLocal : Bool
  deriving DecidableEq, Repr

/-- `tcp_mss`. -/
def mssOf (route : Option Route) (s : Sender) : Int × Sender :=
  match route with
  | none => (tcpMss, s)
  | some r =>
    let mss := r.ifMaxtu - 40
    if r.isLocal then (mss, s)
    else
      let mss := min mss tcpMss
      (mss, { s with sndCwnd := (mss % 4294967296).toNat })

/-- `MIN(tp->snd_wnd, tp->snd_cwnd)`. -/
def window (s : Sender) : Nat := min s.sndWnd.toNat s.sndCwnd

/-- `tcp_setpersist` after the test that the retransmit timer does not run. -/
def tcpSetpersist (s : Sender) : Sender :=
  let t := (s.tSrtt / 4 + s.tRttvar) / 2
  { s with
    persist := rangeset (t * backoff s.tRxtshift) tcptvPersmin tcptvPersmax
    tRxtshift := if s.tRxtshift < tcpMaxrxtshift then s.tRxtshift + 1 else s.tRxtshift }

/-! ## What should be sent -/

/-- The window, and a persist timer that has served its turn. -/
def force (s : Sender) : Sender × Nat :=
  if s.tForce then
    if window s = 0 then (s, 1) else ({ s with persist := 0, tRxtshift := 0 }, window s)
  else (s, window s)

/-- The data that may be sent, less than none when the window shrank or the FIN is out. -/
def usable (s : Sender) (win : Nat) : Int :=
  if s.inpQ then ((min s.tQsize win : Nat) : Int) - Seq.ahead s.sndNxt s.sndUna else 0

/-- If the window shrank to 0, cancel the retransmit and pull `snd_nxt` back. -/
def shrink (s : Sender) (win : Nat) : Sender :=
  if usable s win < 0 ∧ win = 0 then { s with rexmt := 0, sndNxt := s.sndUna } else s

/-- Offset, length and flags of the segment to be sent. -/
structure Plan where
  off : Int
  len : Nat
  flags : Flags
  sendalot : Bool
  deriving DecidableEq

def plan (s : Sender) : Sender × Plan :=
  let off := Seq.ahead s.sndNxt s.sndUna
  let (s, win) := force s
  let most := (usable s win).toNat
  let s := shrink s win
  let len := min most s.tMaxseg
  let flags := s.tState.outflags
  -- FIN only when everything queued is in the segment.
  let fin := flags.fin &&
    !decide (Seq.ahead (s.sndNxt + BitVec.ofNat 32 len) (s.sndUna + BitVec.ofNat 32 s.tQsize) < 0)
  (s, ⟨off, len, { flags with fin := fin }, s.tMaxseg < most⟩)

/-- The receive window. -/
def recvwin (c : Tcpcb) : Int := max 0 (c.qHiwat - c.inq.iqsize)

/-- By how much the window update opens the window. `100 * adv / recvspace` is unsigned. -/
def windowDue (c : Tcpcb) : Bool :=
  let adv := recvwin c - Seq.ahead c.rcvAdv c.rcvNxt
  0 < recvwin c ∧ (c.inq.iqsize = 0 ∧ 2 * (c.tMaxseg : Int) ≤ adv ∨ 35 ≤ 100 * adv % 4294967296 / c.qHiwat)

/-- Sender silly window avoidance. -/
def worthSending (idle : Bool) (c : Tcpcb) (p : Plan) : Bool :=
  p.len ≠ 0 ∧ (p.len = c.tMaxseg ∨ (idle ∨ c.nodelay) ∧ (c.tQsize : Int) ≤ p.len + p.off ∨ c.tForce ∨
    c.maxSndwnd / 2 ≤ p.len ∨ Seq.ahead c.sndNxt c.sndMax < 0)

/-- The tests that go to `send` whatever the data are. -/
def ctlDue (c : Tcpcb) (p : Plan) : Bool :=
  p.flags.fin ∧ (¬ c.sentfin ∨ c.sndNxt = c.sndUna) ∨ c.acknow ∨ p.flags.syn ∨ p.flags.rst ∨ 0 < Seq.ahead c.sndUp c.sndUna

def sendDue (idle : Bool) (c : Tcpcb) (p : Plan) : Bool :=
  ctlDue c p || worthSending idle c p || windowDue c

/-! ## Its sending -/

/-- How many numbers a segment takes. -/
def numbers (flags : Flags) (len : Nat) : Nat := (if flags.syn then 1 else 0) + (if flags.fin then 1 else 0) + len

/-- `snd_nxt` goes over the segment and the retransmit timer is started; in persist state only `snd_max` is set. -/
def transmit (flags : Flags) (len : Nat) (s : Sender) : Sender :=
  if s.tForce = false ∨ s.persist = 0 then
    let nxt := s.sndNxt + BitVec.ofNat 32 (numbers flags len)
    let further : Bool := 0 < Seq.ahead nxt s.sndMax
    let s := { s with
      sentfin := s.sentfin || flags.fin
      sndMax := if further then nxt else s.sndMax
      -- Time this transmission if not timing anything.
      tRtt := if further ∧ s.tRtt = 0 then 1 else s.tRtt
      tRtseq := if further ∧ s.tRtt = 0 then s.sndNxt else s.tRtseq
      sndNxt := nxt }
    if s.rexmt = 0 ∧ s.sndNxt ≠ s.sndUna then
      { s with
        rexmt := s.tRxtcur
        persist := 0
        tRxtshift := if s.persist ≠ 0 then 0 else s.tRxtshift }
    else s
  else if 0 < Seq.ahead (s.sndNxt + BitVec.ofNat 32 len) s.sndMax then
    { s with sndMax := s.sndNxt + BitVec.ofNat 32 len }
  else s

/-- A FIN that is sent again does not use a new number. -/
def retreat (flags : Flags) (s : Sender) : Sender :=
  if flags.fin ∧ s.sentfin ∧ s.sndNxt = s.sndMax then { s with sndNxt := s.sndNxt - 1 } else s

/-- The urgent pointer is sent, or dragged along. -/
def dragUp (s : Sender) : Sender := if 0 < Seq.ahead s.sndUp s.sndNxt then s else { s with sndUp := s.sndUna }

/-- The window that is advertised: not shrunk, and no silly one. -/
def advertised (c : Tcpcb) : Int :=
  let win := recvwin c
  let win := if win < (c.qHiwat / 4 : Nat) ∧ win < c.tMaxseg then 0 else win
  min (max win (Seq.ahead c.rcvAdv c.rcvNxt)) ipMaxpacket

inductive Pass where
  /-- Nothing to send. -/
  | idle (c : Tcpcb)
  /-- An allocation has failed, and the buffer is waited for. -/
  | failed (c : Tcpcb)
  /-- `tcp_dupblks` has not found its data. -/
  | panicked
  | sent (c : Tcpcb) (again : Bool)

/-- The segment for a plan and its data. -/
def segmentOf (p : Plan) (data : List UInt8) (c : Tcpcb) : Sent :=
  let urg : Bool := 0 < Seq.ahead c.sndUp c.sndNxt
  { seq := c.sndNxt
    ack := c.rcvNxt
    flags := { p.flags with
      urg := urg
      push := data ≠ [] ∧ p.off + data.length = c.tQsize }
    win := (advertised c).toNat
    urp := if urg then (c.sndUp - c.sndNxt).toNat % 65536 else 0
    data := data }

/-- `tcp_mss` for the option of a SYN opens the congestion window. -/
def opens (route : Option Route) (flags : Flags) (s : Sender) : Sender :=
  if flags.syn ∧ ¬ s.noopt then (mssOf route s).2 else s

/-- Whether the option is sent. -/
def hasOption (route : Option Route) (flags : Flags) (c : Tcpcb) : Bool :=
  flags.syn ∧ ¬ c.noopt ∧ ipMss < min (c.qHiwat / 2) ((mssOf route c.toSender).1 % 4294967296).toNat % 65536

/-- The segment is with IP. -/
def finish (p : Plan) (segment : Sent) (win : Int) (c : Tcpcb) : Tcpcb :=
  { c with
    sent := segment :: c.sent
    rcvAdv :=
      if 0 < win ∧ 0 < Seq.ahead (c.rcvNxt + BitVec.ofInt 32 win) c.rcvAdv then c.rcvNxt + BitVec.ofInt 32 win
      else c.rcvAdv
    acknow := false
    delack := false
    tForce := p.sendalot && c.tForce }

/-- From the copy of the data on. -/
def emit (alloc : List Bool) (route : Option Route) (p : Plan) (data : List UInt8) (c : Tcpcb) : Pass × List Bool :=
  let c := c.sending fun s => opens route p.flags (retreat p.flags s)
  let (ok, alloc) := if hasOption route p.flags c then grant alloc else (true, alloc)
  if !ok then (.failed c, alloc)
  else
    let sent := c.sending fun s => transmit p.flags data.length (dragUp s)
    let (ok, alloc) := grant alloc
    if !ok then (.failed sent, alloc)
    else (.sent (finish p (segmentOf p data c) (advertised c) sent) p.sendalot, alloc)

/-- The end of a pass that has nothing to send. -/
def startPersist (s : Sender) : Sender :=
  if s.tQsize ≠ 0 ∧ s.rexmt = 0 ∧ s.persist = 0 then tcpSetpersist { s with tRxtshift := 0 } else s

/-- One pass, from `again:` on. -/
def pass (alloc : List Bool) (route : Option Route) (idle : Bool) (c : Tcpcb) : Pass × List Bool :=
  let (s, p) := plan c.toSender
  let c := { c with toSender := s }
  if sendDue idle c p then
    match grant alloc with
    | (false, alloc) => (.failed c, alloc)
    | (true, alloc) =>
      if p.len = 0 then emit alloc route p [] c
      else
        match tcpDupblks alloc c.wq p.off.toNat p.len with
        | (.panicked, alloc) => (.panicked, alloc)
        -- The length is reduced to zero.
        | (.failed, alloc) => emit alloc route p [] c
        | (.blocks bs, alloc) => emit alloc route p bs.flatten c
  else (.idle (c.sending startPersist), alloc)

inductive Outcome where
  | returned (c : Tcpcb) (failed : Bool)
  | panicked

/-- The passes of a call. -/
def outputLoop (route : Option Route) (idle : Bool) : Nat → List Bool → Tcpcb → Option Outcome
  | 0, _, _ => none
  | fuel + 1, alloc, c =>
    match pass alloc route idle c with
    | (.idle c, _) => some (.returned c false)
    | (.failed c, _) => some (.returned c true)
    | (.panicked, _) => some .panicked
    | (.sent c false, _) => some (.returned c false)
    | (.sent c true, alloc) => outputLoop route idle fuel alloc c

/-- `tcp_output`. -/
def tcpOutput (fuel : Nat) (alloc : List Bool) (route : Option Route) (c : Tcpcb) : Option Outcome :=
  outputLoop route (c.sndMax = c.sndUna) fuel alloc c

/-- The call comes to an end with an outcome. -/
def Outputs (alloc : List Bool) (route : Option Route) (c : Tcpcb) (outcome : Outcome) : Prop :=
  ∃ fuel, tcpOutput fuel alloc route c = some outcome

end Svr4.Tcp
