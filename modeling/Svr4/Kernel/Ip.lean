import Mathlib.Data.Nat.Notation
import Svr4.Kernel.Errno

/-! Internet datagrams: the header, the blocks of a message and the allocations of a call. -/

namespace Svr4.Ip

/-- `struct ip`, without version and checksum. A length is at most 32767. -/
structure Header where
  hl : Nat
  tos : UInt8
  len : Nat
  id : BitVec 16
  off : BitVec 16
  ttl : UInt8
  p : UInt8
  src : BitVec 32
  dst : BitVec 32
  deriving DecidableEq, Repr

/-- The bytes of a message block. -/
abbrev Block := List UInt8

def ipDf : BitVec 16 := 0x4000

def ipMf : BitVec 16 := 0x2000

def Header.mf (ip : Header) : Bool := ip.off &&& ipMf ≠ 0

/-- The offset, in units of eight bytes. -/
def Header.units (ip : Header) : Nat := (ip.off &&& 0x1fff).toNat

/-- `hlen`. -/
def Header.bytes (ip : Header) : Nat := 4 * ip.hl

/-- `sizeof (struct ip)`. -/
def sizeofIp : Nat := 20

/-- The answer to the next allocation; those that are not listed are granted. -/
def allocated : List Bool → Bool × List Bool
  | [] => (true, [])
  | answer :: rest => (answer, rest)

end Svr4.Ip
