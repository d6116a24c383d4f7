import Svr4.Library.Xdr

/-! The decoding filters over a memory stream, x_op being XDR_DECODE
throughout, and the client programs that call them. The elproc of xdr_array is
such a program again, so decodes nest. -/

namespace Svr4.Xdr

variable (memory : Int → BitVec 8) (memAlloc : Nat → BitVec 32 → Bool)

def xdrLong (s : State) : State × Option (BitVec 32) := xdrmemGetlong memory s

/-- An unsigned int is a long here: both are 32 bits wide. -/
def xdrUInt (s : State) : State × Option (BitVec 32) := xdrmemGetlong memory s

def BYTES_PER_XDR_UNIT : BitVec 32 := 4

def rndup (cnt : BitVec 32) : BitVec 32 :=
  if 0 < (cnt % BYTES_PER_XDR_UNIT).toInt then BYTES_PER_XDR_UNIT - cnt % BYTES_PER_XDR_UNIT
  else cnt % BYTES_PER_XDR_UNIT

/-- The padding goes to a static array of the library. -/
def xdrOpaque (cp : Pointer) (cnt : BitVec 32) (s : State) : State × Bool :=
  if cnt = 0 then (s, true)
  else
    match xdrmemGetbytes cp cnt s with
    | (s', false) => (s', false)
    | (s', true) => if rndup cnt = 0 then (s', true) else xdrmemGetbytes .own (rndup cnt) s'

/-- The pointer a filter fills: what the client's variable holds, or else what
mem_alloc returns, which it may refuse. The first size is what the data takes,
the second what mem_alloc is asked for. -/
def target (cpp : Nat) (needed : Nat) (nodesize : BitVec 32) (s : State) :
    State × Option Pointer :=
  match s.pointers cpp with
  | some .own => (s, some .own)
  | some (.allocated asked) => (s.note (.kept asked needed), some (.allocated asked))
  | none =>
    let s' := { s with requests := nodesize :: s.requests }
    if memAlloc s.requests.length nodesize then
      (s'.point cpp (some (.allocated nodesize)), some (.allocated nodesize))
    else (s', none)

def xdrBytes (cpp : Nat) (maxsize : BitVec 32) (s : State) : State × Bool :=
  match xdrUInt memory s with
  | (s', none) => (s', false)
  | (s', some nodesize) =>
    if maxsize < nodesize then (s', false)
    else if nodesize = 0 then (s', true)
    else
      match target memAlloc cpp nodesize.toNat nodesize s' with
      | (s', none) => (s', false)
      | (s', some sp) => xdrOpaque sp nodesize s'

def xdrString (cpp : Nat) (maxsize : BitVec 32) (s : State) : State × Bool :=
  match xdrUInt memory s with
  | (s', none) => (s', false)
  | (s', some size) =>
    if maxsize < size then (s', false)
    else if size + 1 = 0 then (s', true)
    else
      match target memAlloc cpp (size.toNat + 1) (size + 1) s' with
      | (s', none) => (s', false)
      | (s', some sp) => xdrOpaque sp size (s'.store sp size.toNat 1)

/-- The element loop: i elements are behind, the first argument counts those to
come. A call of elproc may write the elsize bytes of its element. -/
def elements (elproc : Nat → State → State × Bool) (addr : Pointer) (elsize : BitVec 32) :
    Nat → Nat → State → State × Bool
  | 0, _, s => (s, true)
  | left + 1, i, s =>
    match elproc i (s.store addr (i * elsize.toNat) elsize.toNat) with
    | (s', false) => (s', false)
    | (s', true) => elements elproc addr elsize left (i + 1) s'

/-- The array xdr_array fills: one it allocates is cleared by bzero first, and
for no elements none is allocated. -/
def arrayTarget (addrp : Nat) (c elsize : BitVec 32) (s : State) : State × Option Pointer :=
  match target memAlloc addrp (c.toNat * elsize.toNat) (c * elsize) s with
  | (s', some addr) =>
    if s.pointers addrp = none then
      ((s'.note (.counted c elsize)).store addr 0 (c * elsize).toNat, some addr)
    else (s', some addr)
  | (s', none) => (s', none)

def xdrArray (addrp : Nat) (maxsize elsize : BitVec 32) (elproc : Nat → State → State × Bool)
    (s : State) : State × Bool :=
  match xdrUInt memory s with
  | (s', none) => (s', false)
  | (s', some c) =>
    if maxsize < c then (s', false)
    else if s'.pointers addrp = none ∧ c = 0 then (s', true)
    else
      match arrayTarget memAlloc addrp c elsize s' with
      | (s', none) => (s', false)
      | (s', some addr) => elements elproc addr elsize c.toNat 0 s'

/-- What a client puts into one of its pointer variables between calls. -/
inductive Source where
  | null
  | own
  | copy (variable_ : Nat)
  deriving DecidableEq, Repr

def Source.value (pointers : Nat → Option Pointer) : Source → Option Pointer
  | null => none
  | own => some .own
  | copy variable_ => pointers variable_

/-- A client of one stream. What it does next may depend on every result, and
it may go on after a failed call. -/
inductive Program where
  | done (stat : Bool)
  | long (next : Option (BitVec 32) → Program)
  | opaqueBytes (cnt : BitVec 32) (next : Bool → Program)
  | bytes (cpp : Nat) (maxsize : BitVec 32) (next : Bool → Program)
  | string (cpp : Nat) (maxsize : BitVec 32) (next : Bool → Program)
  | array (addrp : Nat) (maxsize elsize : BitVec 32) (elproc : Nat → Program)
      (next : Bool → Program)
  | inline (len : BitVec 32) (next : Bool → Program)
  | assign (variable_ : Nat) (source : Source) (next : Program)

def run : Program → State → State × Bool
  | .done stat, s => (s, stat)
  | .long next, s =>
    match xdrLong memory s with
    | (s', value) => run (next value) s'
  | .opaqueBytes cnt next, s =>
    match xdrOpaque .own cnt s with
    | (s', stat) => run (next stat) s'
  | .bytes cpp maxsize next, s =>
    match xdrBytes memory memAlloc cpp maxsize s with
    | (s', stat) => run (next stat) s'
  | .string cpp maxsize next, s =>
    match xdrString memory memAlloc cpp maxsize s with
    | (s', stat) => run (next stat) s'
  | .array addrp maxsize elsize elproc next, s =>
    match xdrArray memory memAlloc addrp maxsize elsize (fun i => run (elproc i)) s with
    | (s', stat) => run (next stat) s'
  | .inline len next, s =>
    match xdrmemInline len s with
    | (s', stat) => run (next stat) s'
  | .assign variable_ source next, s =>
    run next (s.point variable_ (source.value s.pointers))

end Svr4.Xdr
