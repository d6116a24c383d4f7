import Svr4.Kernel.Tcp.Output
import Svr4.Kernel.Tcp.Reassembly

/-! `tcp_uinput`: a segment that has arrived for a connection. -/

namespace Svr4.Tcp

open Words

/-! ## Options -/

/-- The memory from the first byte of the option area on, and the length of the area. -/
structure Options where
  mem : Nat → UInt8
  cnt : Nat

/-- `t_maxseg = MIN(t_maxseg, tcp_mss(tp))`. -/
def clipMaxseg (route : Option Route) (s : Sender) : Sender :=
  let (mss, s) := mssOf route s
  { s with tMaxseg := ((min (s.tMaxseg : Int) mss) % 65536).toNat }

/-- The loop of `tcp_dooptions`, with the places that it reads. -/
def scanOptions (route : Option Route) (syn : Bool) (mem : Nat → UInt8) : Nat → Nat → Nat → Sender → Option (Sender × List Nat)
  | _, 0, _, s => some (s, [])
  | 0, _ + 1, _, _ => none
  | fuel + 1, cnt, cp, s =>
    let opt := (mem cp).toNat
    if opt = 0 then some (s, [cp])
    else if opt = 1 then
      (scanOptions route syn mem fuel (cnt - 1) (cp + 1) s).map fun (s, reads) => (s, cp :: reads)
    else
      let optlen := (mem (cp + 1)).toNat
      if optlen = 0 then some (s, [cp, cp + 1])
      else if opt = 2 ∧ optlen = 4 ∧ syn then
        let value := (mem (cp + 2)).toNat * 256 + (mem (cp + 3)).toNat
        (scanOptions route syn mem fuel (cnt - optlen) (cp + optlen) (clipMaxseg route { s with tMaxseg := value })).map
          fun (s, reads) => (s, [cp, cp + 1, cp + 2, cp + 3] ++ reads)
      else
        (scanOptions route syn mem fuel (cnt - optlen) (cp + optlen) s).map fun (s, reads) => (s, [cp, cp + 1] ++ reads)

/-- `tcp_dooptions`. Each option takes a byte at least. -/
def tcpDooptions (route : Option Route) (syn : Bool) (o : Options) (s : Sender) : Option (Sender × List Nat) :=
  scanOptions route syn o.mem o.cnt o.cnt 0 s

/-! ## The segment -/

/-- What a segment finds. -/
structure Env where
  route : Option Route
  options : Options
  /-- The buffer for the options. -/
  optbuf : Bool
  /-- `tcp_iss`. -/
  iss : Seq
  /-- The connection, its template and an address for it. -/
  template : Bool
  broadcast : Bool
  ups : List Upstream

inductive Fault where
  /-- A null pointer is followed. -/
  | null
  /-- A division by zero. -/
  | divide
  /-- The panic of `tcp_setpersist`. -/
  | panic
  deriving DecidableEq, Repr

/-- How the processing of a segment ends. -/
inductive After where
  | moreinput
  /-- With a call of `tcp_output`. -/
  | output
  /-- With a call of `tcp_output` that sends one segment again, after which `snd_nxt` is restored. -/
  | resend (onxt : Seq)
  /-- With a call of `tcp_output`, after which the connection is closed. -/
  | close
  | crashed (fault : Fault)
  deriving DecidableEq, Repr

structure Work where
  ti : Tcpiphdr
  tiflags : Flags
  needoutput : Bool

/-- A stage ends the processing or hands on to the next. -/
abbrev Stage := Except (Tcpcb × After) (Work × Tcpcb)

/-- What a stage hands on, and how it ends. -/
def Stage.Gives (next : Work → Tcpcb → Prop) (ended : Tcpcb → After → Prop) : Stage → Prop
  | .ok (w, c) => next w c
  | .error (c, after) => ended c after

variable {next next' : Work → Tcpcb → Prop} {x : Stage}

theorem Stage.Gives.bind {ended : Tcpcb → After → Prop} {f : Work × Tcpcb → Stage}
    (first : Stage.Gives next ended x) (second : ∀ w c, next w c → Stage.Gives next' ended (f (w, c))) :
    Stage.Gives next' ended (x >>= f) := by
  cases x with
  | error result => exact first
  | ok handed => exact second handed.1 handed.2 first

theorem Stage.Gives.imp {ended ended' : Tcpcb → After → Prop}
    (gives : Stage.Gives next ended x) (handed : ∀ w c, next w c → next' w c) (stopped : ∀ c after, ended c after → ended' c after) :
    Stage.Gives next' ended' x := by
  cases x with
  | error result => exact stopped result.1 result.2 gives
  | ok result => exact handed result.1 result.2 gives

/-- `tcp_cancelinger`. -/
def tcpCancelinger (s : Sender) : Sender := if s.lingering then { s with lingering := false, inpQ := false } else s

/-- `tcp_canceltimers`. -/
def tcpCanceltimers (s : Sender) : Sender := { s with rexmt := 0, persist := 0, keep := 0, msl2 := 0 }

/-- `tcp_close`. -/
def tcpClose (c : Tcpcb) : Tcpcb :=
  { c with
    segs := []
    inq := freemsg (c.segs.flatMap Tcpiphdr.msg) c.inq
    gone := c.gone || c.nofdref }

/-- The state becomes `CLOSED` and no process lingers any more. -/
def toClosed (s : Sender) : Sender := { tcpCancelinger s with tState := .closed }

/-- `tcp_drop`, while the lock of `tcp_io` is held. -/
def tcpDrop (c : Tcpcb) : Tcpcb := if c.tState.havercvdsyn then tcpClose (c.sending toClosed) else tcpClose c

def dropSegment (w : Work) (c : Tcpcb) : Tcpcb × After := ({ c with inq := freemsg w.ti.msg c.inq }, .moreinput)

/-- `dropwithreset`. The RST is not sent through `tcp_output`. -/
def dropWithReset (w : Work) (c : Tcpcb) : Tcpcb × After := dropSegment w c

def dropAfterAck (w : Work) (c : Tcpcb) : Tcpcb × After :=
  if w.tiflags.rst then dropSegment w c
  else ({ c with inq := freemsg w.ti.msg c.inq, acknow := true }, .output)

/-- `tcp_sendseqinit`. -/
def tcpSendseqinit (s : Sender) : Sender := { s with sndUna := s.iss, sndNxt := s.iss, sndMax := s.iss, sndUp := s.iss }

/-- `tcp_rcvseqinit`. -/
def tcpRcvseqinit (irs : Seq) (c : Tcpcb) : Tcpcb := { c with irs := irs, rcvAdv := irs + 1, rcvNxt := irs + 1 }

/-- `TCPT_RANGESET` of `t_rxtcur` from the smoothed times. -/
def setRxtcur (s : Sender) : Sender :=
  { s with tRxtcur := rangeset ((s.tSrtt / 4 + s.tRttvar) / 2) tcptvMin tcptvRexmtmax }

/-! ## States before the SYN -/

def dropFin (w : Work) : Work := { w with tiflags := { w.tiflags with fin := false } }

/-- From `trimthenstep6:` on. -/
def trimThenStep6 (w : Work) (c : Tcpcb) : Stage :=
  let w := { w with ti := { w.ti with seq := w.ti.seq + 1 } }
  let w' :=
    if c.rcvWnd < w.ti.len then dropFin { w with ti := { w.ti with msg := adjmsg w.ti.msg (c.rcvWnd - w.ti.len) } } else w
  .ok (w', { c with sndWl1 := w.ti.seq - 1, rcvUp := w.ti.seq })

/-- `TCPS_LISTEN`, for the block that has been made for the segment. It is dropped with the segment. -/
def listenStage (env : Env) (w : Work) (c : Tcpcb) : Stage :=
  if w.tiflags.rst ∨ w.tiflags.ack ∨ !w.tiflags.syn ∨ env.broadcast ∨ !env.template then
    .error (dropSegment w (tcpDrop c))
  else
    match tcpDooptions env.route w.ti.flags.syn env.options c.toSender with
    | none => .error (c, .crashed .null)
    | some (s, _) =>
      let s := tcpSendseqinit { s with iss := env.iss }
      trimThenStep6 w { tcpRcvseqinit w.ti.seq { c with
        toSender := { s with tState := .synReceived, keep := tcptvKeepInit } } with acknow := true }

/-- The ACK of a SYN that has been sent. -/
def synAcked (ack : Seq) (s : Sender) : Sender :=
  { s with
    sndUna := ack
    sndNxt := if Seq.ahead s.sndNxt ack < 0 then ack else s.sndNxt
    rexmt := 0
    tState := .established }

/-- The round trip time of the SYN is the first estimate. -/
def synTimed (s : Sender) : Sender :=
  if s.tRtt ≠ 0 then { setRxtcur { s with tSrtt := toShort (s.tRtt * 8), tRttvar := toShort (s.tRtt * 2) } with tRtt := 0 }
  else s

def synSentStage (env : Env) (w : Work) (c : Tcpcb) : Stage :=
  if w.tiflags.ack ∧ (Seq.ahead w.ti.ack c.iss ≤ 0 ∨ 0 < Seq.ahead w.ti.ack c.sndMax) then
    .error (dropWithReset w c)
  else if w.tiflags.rst then .error (dropSegment w (if w.tiflags.ack then tcpDrop c else c))
  else if !w.tiflags.syn then .error (dropSegment w c)
  else
    let c := { tcpRcvseqinit w.ti.seq c with acknow := true }
    -- An ACK that has come so far is behind `iss`.
    if w.tiflags.ack then
      match present env.ups (c.sending fun s => clipMaxseg env.route (synAcked w.ti.ack s)) with
      | none => .error (c, .crashed .null)
      | some (_, c) => trimThenStep6 w (c.sending synTimed)
    else trimThenStep6 w { c with rexmt := 0, tState := .synReceived }

/-! ## The window -/

/-- The SYN takes the first number. -/
def dropSyn (w : Work) : Work :=
  { w with
    ti := { w.ti with seq := w.ti.seq + 1, urp := if 1 < w.ti.urp then w.ti.urp - 1 else w.ti.urp }
    tiflags := { w.tiflags with syn := false, urg := w.tiflags.urg && 1 < w.ti.urp } }

def dropFront (todrop : Int) (w : Work) : Work :=
  { w with
    ti := { w.ti with
      msg := adjmsg w.ti.msg todrop
      seq := w.ti.seq + BitVec.ofInt 32 todrop
      urp := if todrop < w.ti.urp then w.ti.urp - todrop else 0 }
    tiflags := { w.tiflags with urg := w.tiflags.urg && todrop < w.ti.urp } }

/-- What was received before is dropped from the front. -/
def trimSome (todrop : Int) (w : Work) (c : Tcpcb) : Stage :=
  if (w.ti.len : Int) < todrop ∨ todrop = w.ti.len ∧ ¬ w.tiflags.fin then
    -- Only a FIN that was received before is left: its ACK is looked at.
    if w.tiflags.fin ∧ todrop = w.ti.len + 1 then .ok (dropFront w.ti.len (dropFin w), { c with acknow := true })
    else .error (dropAfterAck w c)
  else .ok (dropFront todrop w, c)

def trimLeft (w : Work) (c : Tcpcb) : Stage :=
  let todrop := Seq.ahead c.rcvNxt w.ti.seq
  if todrop ≤ 0 then .ok (w, c)
  else if w.tiflags.syn then trimSome (todrop - 1) (dropSyn w) c
  else trimSome todrop w c

/-- Data for user processes that are gone. -/
def afterClose (w : Work) (c : Tcpcb) : Stage :=
  if c.nofdref ∧ TState.closeWait.number < c.tState.number ∧ w.ti.len ≠ 0 then .error (dropWithReset w (tcpClose c))
  else .ok (w, c)

/-- The FIN is dropped from the flags alone. -/
def dropBack (todrop : Int) (w : Work) : Work :=
  { w with
    ti := { w.ti with msg := adjmsg w.ti.msg (-todrop) }
    tiflags := { w.tiflags with push := false, fin := false } }

/-- What is beyond the window is dropped, and the FIN. -/
def trimRight (w : Work) (c : Tcpcb) : Stage :=
  let todrop := Seq.ahead (w.ti.seq + BitVec.ofNat 32 w.ti.len) (c.rcvNxt + BitVec.ofInt 32 c.rcvWnd)
  if todrop ≤ 0 then .ok (w, c)
  else if (w.ti.len : Int) ≤ todrop then
    -- A closed window takes a segment at its edge, without its data.
    if c.rcvWnd = 0 ∧ w.ti.seq = c.rcvNxt then .ok (dropBack todrop w, { c with acknow := true })
    else .error (dropAfterAck w c)
  else .ok (dropBack todrop w, c)

def rstStage (w : Work) (c : Tcpcb) : Stage :=
  if w.tiflags.rst then
    match c.tState with
    | .synReceived | .established | .finWait1 | .finWait2 | .closeWait | .closing | .lastAck | .timeWait =>
      .error (dropSegment w (tcpClose (c.sending toClosed)))
    | _ => .ok (w, c)
  else .ok (w, c)

def synStage (w : Work) (c : Tcpcb) : Stage :=
  if w.tiflags.syn then .error (dropWithReset w (tcpDrop c))
  else if !w.tiflags.ack then .error (dropSegment w c)
  else .ok (w, c)

/-! ## The acknowledgement -/

/-- The ACK of our SYN. -/
def synReceivedStage (env : Env) (w : Work) (c : Tcpcb) : Stage :=
  if c.tState = .synReceived then
    if Seq.ahead c.sndMax c.iss ≤ 0 then .error (dropSegment w c)
    else if 0 < Seq.ahead c.sndUna w.ti.ack ∨ 0 < Seq.ahead w.ti.ack c.sndMax then .error (dropWithReset w c)
    else
      match present env.ups (c.sending fun s => clipMaxseg env.route { s with tState := .established }) with
      | none => .error (c, .crashed .null)
      | some (_, c) => .ok (w, { c with sndWl1 := w.ti.seq - 1 })
  else .ok (w, c)

/-- Half the window in segments, two at least, or nothing where that divides by zero. -/
def halfWindow (s : Sender) : Option Nat := if s.tMaxseg = 0 then none else some (max 2 (window s / 2 / s.tMaxseg))

/-- One segment is to be sent again, and the congestion window is closed to one. -/
def lossFound (ack : Seq) (win : Nat) (s : Sender) : Sender :=
  { s with
    tDupacks := s.tDupacks + 1
    sndSsthresh := win * s.tMaxseg
    rexmt := 0
    tRtt := 0
    sndNxt := ack
    sndCwnd := s.tMaxseg }

/-- An ACK of nothing new. -/
def dupAck (w : Work) (c : Tcpcb) : Stage :=
  if w.ti.len = 0 ∧ w.ti.win = c.sndWnd.toNat then
    if c.rexmt = 0 ∨ w.ti.ack ≠ c.sndUna then .ok (w, { c with tDupacks := 0 })
    else if c.tDupacks + 1 = 3 then
      match halfWindow c.toSender with
      | none => .error (c, .crashed .divide)
      | some win =>
        .error ({ c.sending (lossFound w.ti.ack win) with inq := freemsg w.ti.msg c.inq }, .resend c.sndNxt)
    else .ok (w, { c with tDupacks := c.tDupacks + 1 })
  else .ok (w, { c with tDupacks := 0 })

/-- The round trip time of the timed segment. -/
def rttUpdate (ack : Seq) (s : Sender) : Sender :=
  if s.tRtt ≠ 0 ∧ 0 < Seq.ahead ack s.tRtseq then
    let s :=
      if s.tSrtt ≠ 0 then
        let delta := toShort (s.tRtt - 1 - s.tSrtt / 8)
        let srtt := toShort (s.tSrtt + delta)
        let delta := toShort (toShort (if delta < 0 then -delta else delta) - s.tRttvar / 4)
        let rttvar := toShort (s.tRttvar + delta)
        { s with
          tSrtt := if srtt ≤ 0 then 1 else srtt
          tRttvar := if rttvar ≤ 0 then 1 else rttvar }
      else { s with tSrtt := toShort (s.tRtt * 8), tRttvar := toShort (s.tRtt * 2) }
    setRxtcur { s with tRtt := 0, tRxtshift := 0 }
  else s

/-- Stop or restart the retransmit timer. -/
def ackTimer (ack : Seq) (s : Sender) : Sender :=
  if ack = s.sndMax then { s with rexmt := 0 }
  else if s.persist = 0 then { s with rexmt := s.tRxtcur }
  else s

/-- Open the congestion window. `snd_cwnd` is not zero where it divides. -/
def openCwnd (s : Sender) : Sender :=
  let incr := if s.sndSsthresh < s.sndCwnd then max (s.tMaxseg * s.tMaxseg / s.sndCwnd) 1 else s.tMaxseg
  { s with sndCwnd := min ((s.sndCwnd + incr) % 4294967296) ipMaxpacket }

/-- What is acknowledged is dropped from the write queue. -/
def ackDrop (ack : Seq) (s : Sender) : Sender :=
  let n := min (Seq.ahead ack s.sndUna).toNat s.tQsize
  { s with
    sndWnd := s.sndWnd - BitVec.ofNat 32 n
    tQsize := s.tQsize - n
    wq := if s.inpQ then tcpQdrop n s.wq else s.wq
    sndUna := ack
    sndNxt := if Seq.ahead s.sndNxt ack < 0 then ack else s.sndNxt }

/-- An ACK of something new. -/
def newAck (ack : Seq) (s : Sender) : Sender :=
  ackDrop ack (openCwnd (ackTimer ack (rttUpdate ack { s with tDupacks := 0 })))

/-- What follows when our FIN is acknowledged, in the states that wait for it. -/
def finDone (cantrcvmore : Bool) (s : Sender) : Sender :=
  match s.tState with
  | .finWait1 => { tcpCancelinger s with tState := .finWait2, msl2 := if cantrcvmore then tcpMaxidle.toNat else s.msl2 }
  | .closing => { tcpCancelinger (tcpCanceltimers s) with tState := .timeWait, msl2 := 2 * tcptvMsl }
  | .lastAck => toClosed s
  | _ => s

/-- An ACK, in the states from `ESTABLISHED` on. -/
def ackStage (w : Work) (c : Tcpcb) : Stage :=
  if Seq.ahead w.ti.ack c.sndUna ≤ 0 then dupAck w c
  else if 0 < Seq.ahead w.ti.ack c.sndMax then .error (dropAfterAck w { c with tDupacks := 0 })
  else
    let ourfinisacked : Bool := c.sentfin ∧ w.ti.ack = c.sndMax
    let w := { w with needoutput := w.needoutput || w.ti.ack = c.sndMax }
    let c := c.sending (newAck w.ti.ack)
    if c.tState = .timeWait then .error (dropAfterAck w { c with msl2 := 2 * tcptvMsl })
    else if ourfinisacked then
      if c.tState = .lastAck then .error (dropSegment w (tcpClose (c.sending (finDone c.cantrcvmore))))
      else .ok (w, c.sending (finDone c.cantrcvmore))
    else .ok (w, c)

/-! ## From `step6:` on -/

/-- Whether the window of the segment is newer. -/
def windowNewer (w : Work) (s : Sender) : Bool :=
  w.tiflags.ack ∧ (Seq.ahead s.sndWl1 w.ti.seq < 0 ∨ s.sndWl1 = w.ti.seq ∧
    (Seq.ahead s.sndWl2 w.ti.ack < 0 ∨ s.sndWl2 = w.ti.ack ∧ s.sndWnd.toNat < w.ti.win))

def takeWindow (ti : Tcpiphdr) (s : Sender) : Sender :=
  { s with
    sndWnd := BitVec.ofNat 32 ti.win
    sndWl1 := ti.seq
    sndWl2 := ti.ack
    maxSndwnd := max s.maxSndwnd ti.win }

def windowUpdate (w : Work) (c : Tcpcb) : Work × Tcpcb :=
  if windowNewer w c.toSender then ({ w with needoutput := true }, c.sending (takeWindow w.ti)) else (w, c)

def urgent (w : Work) (c : Tcpcb) : Work × Tcpcb :=
  if w.ti.flags.urg ∧ w.ti.urp ≠ 0 ∧ !c.tState.havercvdfin then
    let up := w.ti.seq + BitVec.ofInt 32 w.ti.urp
    ({ w with ti := { w.ti with urp := w.ti.urp - 1 } },
      { c with rcvUp := if 0 < Seq.ahead up c.rcvUp then up else c.rcvUp })
  else (w, { c with rcvUp := if 0 < Seq.ahead c.rcvNxt c.rcvUp then c.rcvNxt else c.rcvUp })

/-- The text of the segment, and the FIN that has come up with it. -/
def textStage (env : Env) (w : Work) (c : Tcpcb) : Stage :=
  if (w.ti.len ≠ 0 ∨ w.tiflags.fin) ∧ !c.tState.havercvdfin then
    match reass env.ups w.tiflags.urg w.ti c with
    | none => .error (c, .crashed .null)
    | some (fin, c) =>
      let len := (c.qHiwat : Int) - Seq.ahead c.rcvAdv c.rcvNxt
      .ok ({ w with tiflags := { w.tiflags with fin := fin } },
        { c with delack := true, maxRcvd := if c.maxRcvd < len then (len % 65536).toNat else c.maxRcvd })
  else
    .ok ({ w with tiflags := { w.tiflags with fin := false } }, { c with inq := freemsg w.ti.msg c.inq })

/-- The state that a FIN leads to. -/
def finReceived (s : Sender) : Sender :=
  match s.tState with
  | .synReceived | .established => { s with tState := .closeWait }
  | .finWait1 => { s with tState := .closing }
  | .finWait2 => { tcpCanceltimers s with tState := .timeWait, msl2 := 2 * tcptvMsl }
  | .timeWait => { s with msl2 := 2 * tcptvMsl }
  | _ => s

def finStage (w : Work) (c : Tcpcb) : Tcpcb :=
  if w.tiflags.fin then
    let c := if !c.tState.havercvdfin then { c with cantrcvmore := true, acknow := true, rcvNxt := c.rcvNxt + 1 } else c
    c.sending finReceived
  else c

def step6 (env : Env) (w : Work) (c : Tcpcb) : Stage :=
  let (w, c) := windowUpdate w c
  let (w, c) := urgent w c
  do
    let (w, c) ← textStage env w c
    .ok (w, finStage w c)

/-! ## The whole -/

/-- What is received in the states from `SYN_RECEIVED` on, up to the processing of its ACK. -/
def beforeAck (env : Env) (w : Work) (c : Tcpcb) : Stage := do
  let (w, c) ← trimLeft w c
  let (w, c) ← afterClose w c
  let (w, c) ← trimRight w c
  let (w, c) ← rstStage w c
  let (w, c) ← synStage w c
  synReceivedStage env w c

def synchronized (env : Env) (w : Work) (c : Tcpcb) : Stage := do
  let (w, c) ← beforeAck env w c
  if TState.established.number ≤ c.tState.number then ackStage w c else .ok (w, c)

/-- The segment makes the connection busy, and its room is found. -/
def arrive (c : Tcpcb) : Tcpcb :=
  { c with
    tIdle := 0
    keep := tcpKeepidle
    rcvWnd := max (recvwin c) (Seq.ahead c.rcvAdv c.rcvNxt) }

/-- The processing by the state, up to `step6:`. -/
def byState (env : Env) (w : Work) (c : Tcpcb) : Stage :=
  match c.tState with
  | .listen => listenStage env w (arrive c)
  | s =>
    match tcpDooptions env.route w.ti.flags.syn env.options c.toSender with
    | none => .error (c, .crashed .null)
    | some (opened, _) =>
      let c := arrive { c with toSender := opened }
      if s = .synSent then synSentStage env w c else synchronized env w c

def stages (env : Env) (w : Work) (c : Tcpcb) : Stage := do
  let (w, c) ← byState env w c
  step6 env w c

/-- The length of the options is in words, and that of the segment in a short. -/
def wellFormed (env : Env) (ti : Tcpiphdr) : Bool := ti.len + 20 + env.options.cnt < 32768

/-- `tcp_uinput`. -/
def tcpUinput (env : Env) (ti : Tcpiphdr) (c : Tcpcb) : Tcpcb × After :=
  let w : Work := ⟨ti, ti.flags, false⟩
  if !wellFormed env ti ∨ env.options.cnt ≠ 0 ∧ !env.optbuf then dropSegment w c
  else if c.tState = .closed then dropWithReset w c
  else
    match stages env w c with
    | .error ended => ended
    | .ok (w, c) => (c, if w.needoutput ∨ c.acknow then .output else .moreinput)

end Svr4.Tcp
