import Svr4.Foundation.Sequence
import Svr4.Foundation.Words

/-! The control block of a TCP connection.

Sizes and counts that stay small are `Nat` or `Int`. Statistics, traces, templates, addresses and checksums
are left out.
-/

namespace Svr4.Tcp

open Words

inductive TState where
  | closed
  | listen
  | synSent
  | synReceived
  | established
  | closeWait
  | finWait1
  | closing
  | lastAck
  | finWait2
  | timeWait
  deriving DecidableEq, Repr

namespace TState

def number : TState → Nat
  | closed => 0
  | listen => 1
  | synSent => 2
  | synReceived => 3
  | established => 4
  | closeWait => 5
  | finWait1 => 6
  | closing => 7
  | lastAck => 8
  | finWait2 => 9
  | timeWait => 10

def havercvdsyn (s : TState) : Bool := synReceived.number ≤ s.number

def havercvdfin : TState → Bool
  | closeWait | closing | lastAck | timeWait => true
  | _ => false

end TState

structure Flags where
  fin : Bool
  syn : Bool
  rst : Bool
  push : Bool
  ack : Bool
  urg : Bool
  deriving DecidableEq, Repr

def Flags.none : Flags := ⟨false, false, false, false, false, false⟩

/-- `tcp_outflags`. -/
def TState.outflags : TState → Flags
  | closed => { Flags.none with rst := true, ack := true }
  | listen => .none
  | synSent => { Flags.none with syn := true }
  | synReceived => { Flags.none with syn := true, ack := true }
  | finWait1 | closing | lastAck => { Flags.none with fin := true, ack := true }
  | established | closeWait | finWait2 | timeWait => { Flags.none with ack := true }

/-! ## Messages -/

/-- The data of a block of the write queue. -/
abbrev Block := List UInt8

/-- A block of a received message. -/
structure Mblk where
  id : Nat
  bytes : List UInt8
  deriving DecidableEq, Repr

abbrev Msg := List Mblk

def Msg.bytes (m : Msg) : List UInt8 := m.flatMap Mblk.bytes

def msgdsize (m : Msg) : Nat := m.bytes.length

/-- A received segment, from its header to its data. `urp` is an `int` as it is counted down. -/
structure Tcpiphdr where
  seq : Seq
  ack : Seq
  flags : Flags
  win : Nat
  urp : Int
  msg : Msg
  deriving DecidableEq, Repr

namespace Tcpiphdr

def len (ti : Tcpiphdr) : Nat := msgdsize ti.msg

end Tcpiphdr

/-- What is passed upstream: data under a `T_DATA_IND` header, or a `T_EXDATA_IND` with its byte. -/
inductive Passed where
  | data (m : Msg)
  | exdata (byte : UInt8)
  deriving DecidableEq, Repr

/-- A segment that `tcp_output` sends. -/
structure Sent where
  seq : Seq
  ack : Seq
  flags : Flags
  win : Nat
  urp : Nat
  data : List UInt8
  deriving DecidableEq, Repr

/-! ## The control block -/

/-- The queue of data that wait to be passed upstream. -/
structure Inq where
  qfirst : List Msg
  iqsize : Int
  /-- -1 when there is no urgent byte. -/
  iqurp : Int
  /-- What has been passed upstream, the first first. -/
  passed : List Passed
  /-- The blocks that have been freed. -/
  freed : List Nat
  /-- The number of the next block that is allocated. -/
  fresh : Nat
  deriving DecidableEq, Repr

/-- The half of the control block that sends. -/
structure Sender where
  tState : TState
  -- `t_timer`.
  rexmt : Nat
  persist : Nat
  keep : Nat
  msl2 : Nat
  tRxtshift : Nat
  tRxtcur : Nat
  tDupacks : Nat
  tMaxseg : Nat
  tForce : Bool
  nodelay : Bool
  noopt : Bool
  sentfin : Bool
  sndUna : Seq
  sndNxt : Seq
  sndUp : Seq
  sndWl1 : Seq
  sndWl2 : Seq
  iss : Seq
  sndWnd : BitVec 32
  sndMax : Seq
  sndCwnd : Nat
  sndSsthresh : Nat
  -- Transmit timing.
  tRtt : Int
  tRtseq : Seq
  tSrtt : Int
  tRttvar : Int
  maxSndwnd : Nat
  tQsize : Nat
  /-- The messages of the write queue. -/
  wq : List (List Block)
  /-- `inp_q` is not null. -/
  inpQ : Bool
  /-- `t_ltidp` is not null. -/
  lingering : Bool
  /-- The segments that have been sent, the last first. -/
  sent : List Sent
  deriving DecidableEq

/-- The half that receives. -/
structure Receiver where
  rcvWnd : Int
  rcvNxt : Seq
  rcvUp : Seq
  irs : Seq
  rcvAdv : Seq
  maxRcvd : Nat
  /-- The sequencing queue. -/
  segs : List Tcpiphdr
  inq : Inq
  /-- `SS_CANTRCVMORE`. -/
  cantrcvmore : Bool
  deriving DecidableEq

structure Tcpcb extends Sender, Receiver where
  acknow : Bool
  delack : Bool
  tIdle : Int
  /-- `SS_NOFDREF`. -/
  nofdref : Bool
  keepalive : Bool
  /-- `SO_LINGER` with a linger time of zero. -/
  nolinger : Bool
  qHiwat : Nat
  /-- The block has been released. -/
  gone : Bool
  deriving DecidableEq

/-- A change of the half that sends. -/
def Tcpcb.sending (f : Sender → Sender) (c : Tcpcb) : Tcpcb := { c with toSender := f c.toSender }

@[simp] theorem Tcpcb.sending_toSender (f : Sender → Sender) (c : Tcpcb) : (c.sending f).toSender = f c.toSender := rfl

@[simp] theorem Tcpcb.sending_toReceiver (f : Sender → Sender) (c : Tcpcb) : (c.sending f).toReceiver = c.toReceiver := rfl

/-! ## Constants, with two ticks a second -/

def tcptvMsl : Nat := 60
def tcptvPersmin : Nat := 10
def tcptvPersmax : Nat := 120
def tcptvKeepInit : Nat := 150
def tcpKeepidle : Nat := 14400
def tcpKeepintvl : Nat := 150
def tcpMaxidle : Int := 8 * 150
def tcptvMin : Nat := 2
def tcptvRexmtmax : Nat := 128
def tcpMaxrxtshift : Nat := 12
def ipMaxpacket : Nat := 65535
/-- `IP_MSS - sizeof (struct tcpiphdr)`. -/
def ipMss : Nat := 536
def tcpMss : Nat := min 512 ipMss

/-- `TCPT_RANGESET` of a short. -/
def rangeset (value : Int) (least most : Nat) : Nat :=
  if toShort value < least then least else if most < toShort value then most else (toShort value).toNat

theorem rangeset_low (value : Int) (least most : Nat) (order : least ≤ most) : least ≤ rangeset value least most := by
  unfold rangeset
  split
  · exact le_refl _
  · split
    · exact order
    · omega

/-- `tcp_backoff`. -/
def backoff (shift : Nat) : Nat := min 64 (2 ^ shift)

/-- Outcomes of allocations that are asked for in turn; all succeed after the last. -/
def grant : List Bool → Bool × List Bool
  | [] => (true, [])
  | ok :: alloc => (ok, alloc)

end Svr4.Tcp
