import Svr4.Kernel.Tcp.Deliver

/-! The sequencing queue: `tcp_reass` and the macro `TCP_REASS`. -/

namespace Svr4.Tcp

/-- What a segment before has already is trimmed. -/
def trimFront (i : Int) (ti : Tcpiphdr) : Tcpiphdr :=
  { ti with
    seq := ti.seq + BitVec.ofInt 32 i
    msg := adjmsg ti.msg i
    urp := if ti.flags.urg ∧ i ≤ ti.urp then ti.urp - i else ti.urp
    flags := if ti.flags.urg ∧ ti.urp < i then { ti.flags with urg := false } else ti.flags }

/-- By how much `ti` reaches into `q`. -/
def overlap (ti q : Tcpiphdr) : Int := Seq.ahead (ti.seq + BitVec.ofNat 32 ti.len) q.seq

/-- The segments behind `ti`: one is trimmed, and those that it covers are freed. -/
def trimNext (ti : Tcpiphdr) : List Tcpiphdr → List Nat × List Tcpiphdr
  | [] => ([], [])
  | q :: rest =>
    if overlap ti q ≤ 0 then ([], q :: rest)
    else if overlap ti q < q.len then ([], trimFront (overlap ti q) q :: rest)
    else
      let (freed, rest) := trimNext ti rest
      (ids q.msg ++ freed, rest)

/-- The place of a segment: it begins behind those before it. -/
def isAfter (ti q : Tcpiphdr) : Bool := 0 < Seq.ahead q.seq ti.seq

/-- Trimmed by the segment in front, or nothing when that has all of it. -/
def trimPrev (before : List Tcpiphdr) (ti : Tcpiphdr) : Option Tcpiphdr :=
  match before.getLast? with
  | none => some ti
  | some prev =>
    if overlap prev ti ≤ 0 then some ti
    else if (ti.len : Int) ≤ overlap prev ti then none
    else some (trimFront (overlap prev ti) ti)

/-- A message of the queue, for the user. -/
def deliver (up : Upstream) (ti : Tcpiphdr) (c : Tcpcb) : Option Tcpcb :=
  let c := { c with rcvNxt := c.rcvNxt + BitVec.ofNat 32 ti.len }
  if c.cantrcvmore then some { c with inq := freemsg ti.msg c.inq }
  else
    let (empty, m) := stripEmpty ti.msg
    let i := { c.inq with freed := c.inq.freed ++ empty }
    if m = [] then some { c with inq := i }
    else (sendup { up with canput := c.inpQ && up.canput } ti.flags.urg ti.urp m i).map fun i => { c with inq := i }

/-- The next of the flow control upstream, which takes everything after the last. -/
def nextUp : List Upstream → Upstream × List Upstream
  | [] => (⟨true, []⟩, [])
  | up :: ups => (up, ups)

/-- The loop at `present`. The FIN is that of the last segment. -/
def presentLoop (fin : Bool) : List Upstream → List Tcpiphdr → Tcpcb → Option (Bool × Tcpcb)
  | _, [], c => some (fin, { c with segs := [] })
  | ups, ti :: rest, c =>
    if ti.seq = c.rcvNxt then
      (deliver (nextUp ups).1 ti c).bind fun c => presentLoop ti.flags.fin (nextUp ups).2 rest c
    else some (fin, { c with segs := ti :: rest })

def present (ups : List Upstream) (c : Tcpcb) : Option (Bool × Tcpcb) :=
  if !c.tState.havercvdsyn then some (false, c)
  else if c.tState = .synReceived ∧ (c.segs.head?.any fun ti => ti.seq = c.rcvNxt ∧ ti.len ≠ 0) then some (false, c)
  else presentLoop false ups c.segs c

/-- `tcp_reass` of a segment that is not null. -/
def tcpReass (ups : List Upstream) (ti : Tcpiphdr) (c : Tcpcb) : Option (Bool × Tcpcb) :=
  let before := c.segs.takeWhile fun q => !isAfter ti q
  let behind := c.segs.dropWhile fun q => !isAfter ti q
  match trimPrev before ti with
  | none => some (false, { c with inq := freemsg ti.msg c.inq })
  | some ti =>
    let (freed, behind) := trimNext ti behind
    present ups { c with
      segs := before ++ ti :: behind
      inq := { c.inq with freed := c.inq.freed ++ freed } }

/-- `TCP_REASS`. The segment that comes next goes up at once. -/
def reass (ups : List Upstream) (urg : Bool) (ti : Tcpiphdr) (c : Tcpcb) : Option (Bool × Tcpcb) :=
  if ti.seq = c.rcvNxt ∧ c.segs = [] ∧ c.tState = .established ∧ ¬ urg then
    let (empty, m) := stripEmpty ti.msg
    let i := { c.inq with freed := c.inq.freed ++ empty }
    let up := (nextUp ups).1
    let c := { c with rcvNxt := c.rcvNxt + BitVec.ofNat 32 ti.len }
    if m = [] then some (ti.flags.fin, { c with inq := i })
    else (sendup { up with canput := c.inpQ && up.canput } false 0 m i).map fun i => (ti.flags.fin, { c with inq := i })
  else tcpReass ups ti c

end Svr4.Tcp
