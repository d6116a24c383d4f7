import Mathlib.Data.BitVec

/-! The record streams of the XDR library: records go out in fragments, each
behind a header with its length, and come in again from any pieces that readit
delivers. Positions in the_buffer are offsets from out_base; a long is the four
bytes that stand for it. -/

namespace Svr4.Record

abbrev Byte := BitVec 8

def BYTES_PER_XDR_UNIT : Nat := 4
def LAST_FRAG : Nat := 2 ^ 31

def RNDUP (x : Nat) : Nat := (x + (BYTES_PER_XDR_UNIT - 1)) % 2 ^ 32 / BYTES_PER_XDR_UNIT * BYTES_PER_XDR_UNIT

def fixBufSize (s : Nat) : Nat := RNDUP (if s < 100 then 4000 else s)

def htonl (n : Nat) : List Byte :=
  [BitVec.ofNat 8 (n / 2 ^ 24), BitVec.ofNat 8 (n / 2 ^ 16), BitVec.ofNat 8 (n / 2 ^ 8), BitVec.ofNat 8 n]

def ntohl (bytes : List Byte) : Nat := bytes.foldl (fun n b => n * 2 ^ 8 + b.toNat) 0

/-- A fragment's length with the bit LAST_FRAG. -/
def headerWord (len : Nat) (eor : Bool) : Nat := if eor then len % LAST_FRAG + LAST_FRAG else len

/-- The out-going bits. The bytes from out_base to out_finger are kept, those of
a header that is not yet known as zeros; room is what the_buffer has from
out_base on. -/
structure Out where
  sendsize : Nat
  room : Nat
  bytes : List Byte
  frag_header : Nat
  frag_sent : Bool
  written : List Byte
  deriving DecidableEq, Repr

namespace Out

def out_finger (o : Out) : Nat := o.bytes.length

/-- Bytes stored at out_finger; none when they would lie behind the_buffer. -/
def store (data : List Byte) (o : Out) : Option Out :=
  if o.room < o.out_finger + data.length then none else some { o with bytes := o.bytes ++ data }

def putHeader (word : Nat) (o : Out) : Out :=
  { o with bytes := o.bytes.take o.frag_header ++ htonl word ++ o.bytes.drop (o.frag_header + 4) }

/-- flush_out with a writeit that accepts everything. -/
def flush_out (eor : Bool) (o : Out) : Out :=
  let o := o.putHeader (headerWord (o.out_finger - o.frag_header - 4) eor)
  { o with written := o.written ++ o.bytes, frag_header := 0, bytes := htonl 0 }

def putlong (data : List Byte) (o : Out) : Option Out :=
  if o.sendsize < o.out_finger + 4 then store data (flush_out false { o with frag_sent := true })
  else store data o

/-- Each turn stores a byte or empties a full buffer, which bounds the loop. -/
def putLoop : Nat → List Byte → Out → Option Out
  | 0, _, _ => none
  | fuel + 1, data, o =>
    if data = [] then some o
    else
      let current := min data.length (o.sendsize - o.out_finger)
      match store (data.take current) o with
      | none => none
      | some o =>
        if o.out_finger = o.sendsize then
          putLoop fuel (data.drop current) (flush_out false { o with frag_sent := true })
        else putLoop fuel (data.drop current) o

def putbytes (data : List Byte) (o : Out) : Option Out := putLoop (2 * data.length + 2) data o

/-- xdrrec_inline on the way out, with the bytes that its caller stores. -/
def inline (data : List Byte) (o : Out) : Option (Out × Bool) :=
  if o.out_finger + data.length ≤ o.sendsize then (store data o).map (·, true) else some (o, false)

def endofrecord (sendnow : Bool) (o : Out) : Option Out :=
  if sendnow ∨ o.frag_sent ∨ o.sendsize ≤ o.out_finger + 4 then
    some (flush_out true { o with frag_sent := false })
  else
    let sealed := o.putHeader (headerWord (o.out_finger - o.frag_header - 4) true)
    store (htonl 0) { sealed with frag_header := o.out_finger }

end Out

/-- The in-coming bits, and the line: what readit has still to deliver, and how
much it would like to deliver at each call. The room is what the_buffer has from
in_base on. -/
structure In where
  in_size : Nat
  room : Nat
  window : List Byte
  in_boundry : Nat
  fbtbc : Nat
  last_frag : Bool
  line : List Byte
  pieces : Nat → Nat
  reads : Nat

namespace In

/-- readit delivers at least a byte and at most len, and then -1. A buffer that
the_buffer does not hold keeps nothing. -/
def fill_input_buf (i : In) : Option In :=
  if i.line = [] ∨ i.room < i.in_size then none
  else
    let offset := i.in_boundry % BYTES_PER_XDR_UNIT
    let len := max 1 (min (i.pieces i.reads) (i.in_size - offset))
    some { i with
      window := i.line.take len
      line := i.line.drop len
      in_boundry := offset + (i.line.take len).length
      reads := i.reads + 1 }

/-- Each turn takes a byte or fills an empty buffer. What was read before the
input ended is gone. -/
def inputLoop : Nat → Nat → List Byte → In → In × Option (List Byte)
  | 0, _, _, i => (i, none)
  | fuel + 1, len, got, i =>
    if len = 0 then (i, some got)
    else if i.window = [] then
      match fill_input_buf i with
      | none => (i, none)
      | some i => inputLoop fuel len got i
    else
      let current := min len i.window.length
      inputLoop fuel (len - current) (got ++ i.window.take current) { i with window := i.window.drop current }

def get_input_bytes (len : Nat) (i : In) : In × Option (List Byte) := inputLoop (2 * len + 1) len [] i

/-- The loop of skip_input_bytes is that of get_input_bytes without the copy. -/
def skip_input_bytes (cnt : Nat) (i : In) : In × Bool :=
  let (i, got) := inputLoop (2 * cnt + 1) cnt [] i
  (i, got.isSome)

def set_input_fragment (i : In) : In × Bool :=
  match get_input_bytes 4 i with
  | (i, none) => (i, false)
  | (i, some header) =>
    ({ i with last_frag := decide (LAST_FRAG ≤ ntohl header), fbtbc := ntohl header % LAST_FRAG }, true)

/-- Each turn takes a byte of the record or a header of the line. -/
def getLoop : Nat → Nat → List Byte → In → In × Option (List Byte)
  | 0, _, _, i => (i, none)
  | fuel + 1, len, got, i =>
    if len = 0 then (i, some got)
    else if i.fbtbc = 0 then
      if i.last_frag then (i, none)
      else
        match set_input_fragment i with
        | (i, false) => (i, none)
        | (i, true) => getLoop fuel len got i
    else
      let current := min len i.fbtbc
      match get_input_bytes current i with
      | (i, none) => (i, none)
      | (i, some data) => getLoop fuel (len - current) (got ++ data) { i with fbtbc := i.fbtbc - current }

def getbytes (len : Nat) (i : In) : In × Option (List Byte) :=
  getLoop (len + i.window.length + i.line.length + 1) len [] i

def getlong (i : In) : In × Option (List Byte) :=
  if 4 ≤ i.fbtbc ∧ 4 ≤ i.window.length then
    ({ i with fbtbc := i.fbtbc - 4, window := i.window.drop 4 }, some (i.window.take 4))
  else getbytes 4 i

/-- xdrrec_inline on the way in, with the bytes that its caller finds. -/
def inline (len : Nat) (i : In) : In × Option (List Byte) :=
  if len ≤ i.fbtbc ∧ len ≤ i.window.length then
    ({ i with fbtbc := i.fbtbc - len, window := i.window.drop len }, some (i.window.take len))
  else (i, none)

/-- Each turn but the last takes a header of the line. -/
def skipLoop : Nat → In → In × Bool
  | 0, i => (i, false)
  | fuel + 1, i =>
    if 0 < i.fbtbc ∨ i.last_frag = false then
      match skip_input_bytes i.fbtbc i with
      | (i, false) => (i, false)
      | (i, true) =>
        let i := { i with fbtbc := 0 }
        if i.last_frag then skipLoop fuel i
        else
          match set_input_fragment i with
          | (i, false) => (i, false)
          | (i, true) => skipLoop fuel i
    else ({ i with last_frag := false }, true)

def skiprecord (i : In) : In × Bool := skipLoop (i.window.length + i.line.length + 3) i

end In

/-- The bytes of the_buffer. -/
def bufferSize (sendsize recvsize : Nat) : Nat :=
  (fixBufSize sendsize + fixBufSize recvsize + BYTES_PER_XDR_UNIT) % 2 ^ 32

/-- What xdrrec_create sets for sending. -/
def createOut (sendsize recvsize : Nat) : Out where
  sendsize := fixBufSize sendsize
  room := bufferSize sendsize recvsize
  bytes := htonl 0
  frag_header := 0
  frag_sent := false
  written := []

/-- What xdrrec_create sets for receiving, where in_base is behind the buffer for sending. -/
def createIn (sendsize recvsize : Nat) (line : List Byte) (pieces : Nat → Nat) : In where
  in_size := fixBufSize recvsize
  room := bufferSize sendsize recvsize - fixBufSize sendsize
  window := []
  in_boundry := fixBufSize recvsize
  fbtbc := 0
  last_frag := true
  line := line
  pieces := pieces
  reads := 0

end Svr4.Record
