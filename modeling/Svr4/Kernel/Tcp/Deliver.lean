import Svr4.Kernel.Tcp

/-! The way upstream: `tcp_enqdata`, `tcp_deqdata`, `sendup` and `tcp_passoobup`. -/

namespace Svr4.Tcp

/-! ## Messages -/

def trimHead : Nat → Msg → Msg
  | _, [] => []
  | n, b :: rest => { b with bytes := b.bytes.drop n } :: trimHead (n - b.bytes.length) rest

/-- The bytes that are left to trim, and the message. -/
def trimTail (n : Nat) : Msg → Nat × Msg
  | [] => (n, [])
  | b :: rest =>
    let (left, rest) := trimTail n rest
    (left - b.bytes.length, { b with bytes := b.bytes.take (b.bytes.length - left) } :: rest)

def adjmsg (m : Msg) (len : Int) : Msg :=
  if msgdsize m < len.natAbs then m
  else if 0 ≤ len then trimHead len.natAbs m
  else (trimTail len.natAbs m).2

def ids (m : Msg) : List Nat := m.map Mblk.id

/-- The empty blocks in front, which are freed, and the others. -/
def stripEmpty (m : Msg) : List Nat × Msg :=
  (ids (m.takeWhile fun b => b.bytes.isEmpty), m.dropWhile fun b => b.bytes.isEmpty)

/-- `freemsg`. -/
def freemsg (m : Msg) (i : Inq) : Inq := { i with freed := i.freed ++ ids m }

/-- `dupmsg`. The copies so far are freed when one fails. -/
def dupmsg (alloc : List Bool) (m : Msg) (i : Inq) : Option Msg × List Bool × Inq :=
  match m with
  | [] => (some [], alloc, i)
  | b :: rest =>
    match grant alloc with
    | (false, alloc) => (none, alloc, i)
    | (true, alloc) =>
      let copy : Mblk := ⟨i.fresh, b.bytes⟩
      match dupmsg alloc rest { i with fresh := i.fresh + 1 } with
      | (none, alloc, i) => (none, alloc, freemsg [copy] i)
      | (some copies, alloc, i) => (some (copy :: copies), alloc, i)

/-- The blocks before the one with the byte at `urp`, that block with the offset in it, and the blocks behind. -/
def findUrgent : Nat → Msg → Option (Msg × Mblk × Nat × Msg)
  | _, [] => none
  | urp, b :: rest =>
    if b.bytes.length ≤ urp then
      (findUrgent (urp - b.bytes.length) rest).map fun (before, found) => (b :: before, found)
    else some ([], b, urp, rest)

/-! ## The input queue -/

def tcpEnqdata (m : Msg) (urp : Int) (i : Inq) : Inq :=
  if m = [] then i
  else { i with
    qfirst := i.qfirst ++ [m]
    iqurp := if urp ≠ -1 then i.iqsize + urp else i.iqurp
    iqsize := i.iqsize + msgdsize m }

def putnext (p : Passed) (i : Inq) : Inq := { i with passed := i.passed ++ [p] }

/-- `putnext` of a message that is not null. -/
def putdata (m : Msg) (i : Inq) : Inq := if m = [] then i else putnext (.data m) i

/-- The four allocations that follow in `tcp_passoobup`. What has been taken apart is freed if one fails. -/
def finishoob (alloc : List Bool) (before after : Msg) (byte : UInt8) (i : Inq) : Bool × Inq :=
  let (header, alloc) := if before = [] then (true, alloc) else grant alloc
  if !header then (false, freemsg after (freemsg before i))
  else
    let (ind, alloc) := grant alloc
    if !ind then (false, freemsg after (freemsg before i))
    else
      let (one, alloc) := grant alloc
      if !one then (false, freemsg after (freemsg before i))
      else
        let (empty, rest) := stripEmpty after
        let i := { i with freed := i.freed ++ empty }
        let (trailer, _) := if rest = [] then (true, alloc) else grant alloc
        if !trailer then (false, freemsg rest (freemsg before i))
        else (true, putdata rest (putnext (.exdata byte) (putdata before i)))

/-- `tcp_passoobup`, or nothing where it follows a null pointer. On success the message itself is left alone. -/
def tcpPassoobup (alloc : List Bool) (m : Msg) (urp : Nat) (i : Inq) : Option (Bool × Inq) :=
  match dupmsg alloc m i with
  | (none, _, i) => some (false, i)
  | (some copy, alloc, i) =>
    match findUrgent urp copy with
    | none => none
    | some (before, b, urp, behind) =>
      let (empty, before') := stripEmpty (before ++ [{ b with bytes := b.bytes.take urp }])
      if urp + 1 < b.bytes.length then
        -- The blocks behind are duplicated once more, and cut off.
        match dupmsg alloc ({ b with bytes := b.bytes } :: behind) i with
        | (none, _, _) => none
        | (some after, alloc, i) =>
          some (finishoob alloc before' (trimHead (urp + 1) after) (b.bytes.getD urp 0) { i with freed := i.freed ++ empty })
      else some (finishoob alloc before' behind (b.bytes.getD urp 0) { i with freed := i.freed ++ empty })

/-- Whether the stream head can take a message, and the outcomes of the allocations. -/
structure Upstream where
  canput : Bool
  alloc : List Bool
  deriving Repr

/-- `sendup` of a message of `len` bytes that is not null. -/
def sendup (up : Upstream) (urg : Bool) (urp : Int) (m : Msg) (i : Inq) : Option Inq :=
  if i.iqsize = 0 ∧ up.canput then
    if urg ∧ urp < msgdsize m then
      match tcpPassoobup up.alloc m urp.toNat i with
      | none => none
      | some (true, i) => some i
      | some (false, i) => some (tcpEnqdata m urp i)
    else if (grant up.alloc).1 then some (putnext (.data m) i)
    else some (tcpEnqdata m (-1) i)
  else some (tcpEnqdata m (-1) i)

/-- The loop of `tcp_deqdata`. -/
def tcpDeqdata : List Upstream → Inq → Option Inq
  | [], i => some i
  | up :: ups, i =>
    match i.qfirst with
    | [] => some i
    | m :: rest =>
      if !up.canput then some i
      else if 0 ≤ i.iqurp ∧ i.iqurp < msgdsize m then
        match tcpPassoobup up.alloc m i.iqurp.toNat i with
        | none => none
        -- The message stays on the queue.
        | some (true, i) => tcpDeqdata ups { i with iqsize := i.iqsize - msgdsize m, iqurp := -1 }
        | some (false, i) => some i
      else if (grant up.alloc).1 then
        tcpDeqdata ups (putnext (.data m) { i with
          qfirst := rest
          iqsize := i.iqsize - msgdsize m
          iqurp := if 0 ≤ i.iqurp then i.iqurp - msgdsize m else i.iqurp })
      else some i

end Svr4.Tcp
