import Mathlib.Data.BitVec

/-! The memory streams of the XDR library: the counter of bytes left and the
routines that decode from the buffer. x_handy is a C int and every length a
32-bit unsigned, so a subtraction wraps. Positions in the buffer are integers;
the bytes outside it are memory like any other. -/

namespace Svr4.Xdr

/-- Where a client's pointer leads: to storage of its own, or to what mem_alloc
returned for the number of bytes asked. -/
inductive Pointer where
  | own
  | allocated (asked : BitVec 32)
  deriving DecidableEq, Repr

/-- What the routines do to the buffer and through pointers, and the numbers
they decide by before they do it. -/
inductive Event where
  | subtracted (handy len : BitVec 32)
  | inlined (position : Int) (len : BitVec 32)
  | counted (c elsize : BitVec 32)
  | kept (asked : BitVec 32) (needed : Nat)
  | read (position : Int) (len : Nat)
  | written (asked : BitVec 32) (offset len : Nat)
  deriving DecidableEq, Repr

structure State where
  x_base : Int
  x_private : Int
  x_handy : BitVec 32
  pointers : Nat → Option Pointer
  /-- The sizes mem_alloc was asked for, latest first. -/
  requests : List (BitVec 32)
  /-- What was done, latest first. -/
  log : List Event

namespace State

def note (e : Event) (s : State) : State := { s with log := e :: s.log }

/-- A store of len bytes at an offset; only what mem_alloc returned is noted. -/
def store (target : Pointer) (offset len : Nat) (s : State) : State :=
  match target with
  | .own => s
  | .allocated asked => s.note (.written asked offset len)

def point (variable_ : Nat) (target : Option Pointer) (s : State) : State :=
  { s with pointers := Function.update s.pointers variable_ target }

end State

def xdrmemCreate (addr : Int) (size : BitVec 32) (pointers : Nat → Option Pointer) : State where
  x_base := addr
  x_private := addr
  x_handy := size
  pointers := pointers
  requests := []
  log := []

/-- The test that guards every read: x_handy loses len, and must not be negative. -/
def subtractHandy (len : BitVec 32) (s : State) : State × Bool :=
  let s' := { s.note (.subtracted s.x_handy len) with x_handy := s.x_handy - len }
  (s', decide (0 ≤ s'.x_handy.toInt))

/-- The bytes at x_private are read and passed over. -/
def consume (len : BitVec 32) (s : State) : State :=
  { s.note (.read s.x_private len.toNat) with x_private := s.x_private + len.toNat }

/-- The long at an address; ntohl changes nothing on a big-endian machine. -/
def longAt (memory : Int → BitVec 8) (position : Int) : BitVec 32 :=
  memory position ++ memory (position + 1) ++ memory (position + 2) ++ memory (position + 3)

def xdrmemGetlong (memory : Int → BitVec 8) (s : State) : State × Option (BitVec 32) :=
  match subtractHandy 4 s with
  | (s', false) => (s', none)
  | (s', true) => (consume 4 s', some (longAt memory s'.x_private))

def xdrmemGetbytes (addr : Pointer) (len : BitVec 32) (s : State) : State × Bool :=
  match subtractHandy len s with
  | (s', false) => (s', false)
  | (s', true) => ((consume len s').store addr 0 len.toNat, true)

/-- The client of a pointer that inline returns reads the len bytes there. -/
def xdrmemInline (len : BitVec 32) (s : State) : State × Bool :=
  if len.toInt ≤ s.x_handy.toInt then
    ({ (s.note (.inlined s.x_private len)).note (.read s.x_private len.toInt.toNat) with
        x_handy := s.x_handy - len
        x_private := s.x_private + len.toInt }, true)
  else (s, false)

end Svr4.Xdr
