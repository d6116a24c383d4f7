import Svr4.Foundation.Words
import Svr4.Kernel.Ip

/-! Reassembly of datagrams: the part of `ipintr` for datagrams to this host, and `ip_reass`.

A fragment has been checked by `ipintr`: its header is in the first block, and its blocks have as many
bytes as the header says. The header is kept beside the blocks.
-/

namespace Svr4.Ip

open Svr4.Words

/-- A message block, and whether its type is `M_DATA`. -/
structure Mblk where
  isData : Bool
  bytes : List UInt8
  deriving DecidableEq, Repr

abbrev Msg := List Mblk

/-- The datagram that a fragment belongs to. -/
structure Key where
  id : BitVec 16
  src : BitVec 32
  dst : BitVec 32
  p : UInt8
  deriving DecidableEq, Repr

/-- A datagram as `ipintr` has it, with the message behind the header. -/
structure Packet where
  key : Key
  hl : Nat
  len : Int
  off : BitVec 16
  msg : Msg
  deriving DecidableEq, Repr

/-- `struct ipasfrag`, with its message. `skipped` is how far `b_rptr` of the first block is behind the header. -/
structure Ipasfrag where
  key : Key
  hl : Nat
  mff : Bool
  len : Int
  off : Int
  skipped : Nat
  msg : Msg
  deriving DecidableEq, Repr

/-- `struct ipq`. -/
structure Ipq where
  key : Key
  ttl : Nat
  frags : List Ipasfrag
  deriving DecidableEq, Repr

/-- What is handed to the protocol; `ip_len` does not count the header. -/
structure Received where
  key : Key
  hl : Nat
  len : Int
  skipped : Nat
  msg : Msg
  deriving DecidableEq, Repr

def Msg.bytes (m : Msg) : List UInt8 := (m.map Mblk.bytes).flatten

/-! ## `adjmsg` -/

/-- `xmsgsize`: the bytes of the blocks that have the type of the first. -/
def xmsgsize (m : Msg) : Nat :=
  (Msg.bytes (m.takeWhile fun bp => bp.isData = ((m.map Mblk.isData).headD true))).length

def trimHead : Nat → Msg → Msg
  | _, [] => []
  | n, bp :: rest => { bp with bytes := bp.bytes.drop n } :: trimHead (n - bp.bytes.length) rest

/-- `adjmsg`, from the head. -/
def adjmsg (m : Msg) (n : Nat) : Msg := if xmsgsize m < n then m else trimHead n m

def firstLength (m : Msg) : Nat := ((m.map Mblk.bytes).headD []).length

/-- The first `i` bytes are trimmed off a fragment. -/
def trim (i : Int) (q : Ipasfrag) : Ipasfrag :=
  { q with
    len := toShort (q.len - i)
    off := toShort (q.off + i)
    skipped := q.skipped + (firstLength q.msg - firstLength (adjmsg q.msg i.toNat))
    msg := adjmsg q.msg i.toNat }

/-! ## `ip_reass` -/

/-- The fragment without what the one in front of it has; nothing is left when that has all of it. -/
def trimPrev (before : List Ipasfrag) (ip : Ipasfrag) : Option Ipasfrag :=
  match before.getLast? with
  | none => some ip
  | some qprev =>
    let i := qprev.off + qprev.len - ip.off
    if i ≤ 0 then some ip
    else if ip.len ≤ i then none
    else some (trim i ip)

/-- The fragments behind: those that are covered are freed, and one is trimmed. -/
def trimNext (ip : Ipasfrag) : List Ipasfrag → List Ipasfrag
  | [] => []
  | q :: rest =>
    if ip.off + ip.len ≤ q.off then q :: rest
    else
      let i := ip.off + ip.len - q.off
      if i < q.len then trim i q :: rest else trimNext ip rest

/-- `next` behind the last fragment, when each begins where the one before it ends. -/
def walk : Int → List Ipasfrag → Option Int
  | next, [] => some next
  | next, q :: rest => if q.off = next then walk (next + q.len) rest else none

/-- The datagram of fragments without a gap, the last of which has no more behind it. -/
def assemble (fp : Ipq) : Option Received :=
  match walk 0 fp.frags, fp.frags.getLast?, fp.frags with
  | some next, some last, first :: _ =>
    if last.mff then none
    else some
      { key := ⟨first.key.id, fp.key.src, fp.key.dst, first.key.p⟩
        hl := first.hl
        len := toShort next
        skipped := first.skipped
        msg := (fp.frags.map Ipasfrag.msg).flatten }
  | _, _, _ => none

/-- `IPFRAGTTL`. -/
def ipfragttl : Nat := 60

/-- From `insert` on. -/
def insertFrag (fp : Ipq) : Option Received × Option Ipq :=
  match assemble fp with
  | some d => (some d, none)
  | none => (none, some fp)

/-- `ip_reass`: the datagram, if it is complete, and the queue that is left. -/
def ipReass (alloc : Bool) (ip : Ipasfrag) : Option Ipq → Option Received × Option Ipq
  | none => if alloc then insertFrag ⟨ip.key, ipfragttl, [ip]⟩ else (none, none)
  | some fp =>
    let before := fp.frags.takeWhile fun q => q.off ≤ ip.off
    let after := fp.frags.dropWhile fun q => q.off ≤ ip.off
    match trimPrev before ip with
    | none => (none, some fp)
    | some ip => insertFrag { fp with frags := before ++ ip :: trimNext ip after }

/-! ## `ipintr` -/

/-- The queue of a datagram is changed, or goes. -/
def setQueue (key : Key) (fp : Option Ipq) : List Ipq → List Ipq
  | [] => fp.toList
  | q :: rest => if q.key = key then fp.toList ++ rest else q :: setQueue key fp rest

/-- A new queue is put in front of the others. -/
def putQueue (key : Key) (fp : Option Ipq) (ipq : List Ipq) : List Ipq :=
  if (ipq.find? fun q => q.key = key).isSome then setQueue key fp ipq else fp.toList ++ ipq

/-- The type of the first block. -/
def asData : Msg → Msg
  | [] => []
  | bp :: rest => { bp with isData := true } :: rest

/-- The fragment of a packet, with offset and length in bytes. -/
def asFrag (pkt : Packet) : Ipasfrag :=
  { key := pkt.key
    hl := pkt.hl
    mff := pkt.off &&& ipMf ≠ 0
    len := toShort (pkt.len - 4 * pkt.hl)
    off := (pkt.off <<< 3).toInt
    skipped := 0
    msg := asData pkt.msg }

def asReceived (pkt : Packet) : Received := ⟨pkt.key, pkt.hl, toShort (pkt.len - 4 * pkt.hl), 0, pkt.msg⟩

/-- `ipintr` from `ours` on: what is handed to the protocol, and the queues that are left. -/
def ipintr (alloc : Bool) (pkt : Packet) (ipq : List Ipq) : Option Received × List Ipq :=
  let fp := ipq.find? fun q => q.key = pkt.key
  if pkt.off &&& ~~~ ipDf = 0 then (some (asReceived pkt), ipq)
  else if (asFrag pkt).mff ∨ (asFrag pkt).off ≠ 0 then
    let result := ipReass alloc (asFrag pkt) fp
    (result.1, putQueue pkt.key result.2 ipq)
  else (some (asReceived pkt), setQueue pkt.key none ipq)

/-- `ip_slowtimo`: the queues whose time is over are freed. -/
def ipSlowtimo (ipq : List Ipq) : List Ipq := (ipq.map fun fp => { fp with ttl := fp.ttl - 1 }).filter fun fp => fp.ttl ≠ 0

end Svr4.Ip
