import Svr4.Kernel.Ip

/-! The part of `ip_output` that sends a datagram, in fragments when it is too large.

The header lies in the first block of the datagram, as `ipintr` and `ip_insertoptions` leave it.
-/

namespace Svr4.Ip

/-- A datagram: its header, and the blocks of what follows the twenty bytes of `struct ip`. -/
structure Datagram where
  ip : Header
  chain : List Block
  deriving DecidableEq, Repr

/-- What is put in front of a fragment, and the blocks of its data. -/
structure Fragment where
  ip : Header
  options : List UInt8
  blocks : List Block
  deriving DecidableEq, Repr

/-! ## `ip_optcopy` -/

/-- The loop of `ip_optcopy`. An option of length zero keeps it where it is, so it gives nothing. -/
def optcopyFrom (off : Nat) : Nat → List UInt8 → Nat → Option (List UInt8)
  | _, _, 0 => some []
  | 0, _, _ + 1 => none
  | fuel + 1, cp, left + 1 =>
    let cnt := left + 1
    let opt := cp.headD 0
    if opt = 0 then some []
    else
      let optlen := if opt = 1 then 1 else (cp.getD 1 0).toNat
      let optlen := if cnt < optlen then cnt else optlen
      let copied := if off = 0 ∨ opt &&& 0x80 ≠ 0 then cp.take optlen else []
      (optcopyFrom off fuel (cp.drop optlen) (cnt - optlen)).map (copied ++ ·)

/-- Options end on a multiple of four bytes. -/
def padded (options : List UInt8) : List UInt8 := options ++ List.replicate ((4 - options.length % 4) % 4) 0

def ipOptcopy (ip : Header) (cp : Block) (off : Nat) : Option (List UInt8) :=
  let cnt := ip.bytes - sizeofIp
  (optcopyFrom off cnt cp cnt).map padded

/-! ## `dup_range` -/

/-- The first loop of `dup_range`: it panics where the blocks end. -/
def skipBlocks : Nat → List Block → Option (Nat × List Block)
  | _, [] => none
  | off, bp :: rest =>
    if 0 < off ∧ bp.length ≤ off then skipBlocks (off - bp.length) rest else some (off, bp :: rest)

/-- The second loop of `dup_range`, which panics where the blocks end; without memory it gives no blocks. -/
def dupBlocks : List Bool → Nat → Nat → List Block → Option (Option (List Block) × List Bool)
  | alloc, _, 0, _ => some (some [], alloc)
  | _, _, _ + 1, [] => none
  | alloc, off, len + 1, bp :: rest =>
    let size := min (len + 1) (bp.length - off)
    let (given, alloc) := allocated alloc
    if given then
      (dupBlocks alloc 0 (len + 1 - size) rest).map fun result =>
        (result.1.map fun blocks => (bp.drop off).take size :: blocks, result.2)
    else some (none, alloc)

def dupRange (alloc : List Bool) (off len : Nat) (blocks : List Block) : Option (Option (List Block) × List Bool) :=
  match skipBlocks off blocks with
  | none => none
  | some (off, blocks) => dupBlocks alloc off len blocks

/-! ## `ip_output` -/

/-- The options of a fragment; the header is copied without them when it has none. -/
def optionsFor (d : Datagram) (off : Nat) : Option (List UInt8) :=
  if sizeofIp < d.ip.bytes then ipOptcopy d.ip (d.chain.headD []) off else some []

/-- `mhip`, for the `len` bytes at `off`; `total` is the length of the data. -/
def fragHeader (ip : Header) (options : List UInt8) (total off len : Nat) : Header :=
  let word := BitVec.ofNat 16 (off / 8) + (ip.off &&& ~~~ ipMf)
  let word := if ip.mf then word ||| ipMf else word
  let fhlen := sizeofIp + options.length
  { ip with
    hl := if sizeofIp < ip.bytes then fhlen / 4 else ip.hl
    len := (if total ≤ off + len then total - off else len) + fhlen
    off := if total ≤ off + len then word else word ||| ipMf }

/-- The loop of `ip_output`: the fragments sent, and the error it stops with. -/
def sendFragments (d : Datagram) (total len : Nat) : Nat → Nat → List Bool → Option (List Fragment × Option Errno)
  | 0, _, _ => none
  | fuel + 1, off, alloc =>
    if total ≤ off then some ([], none)
    else
      let (given, alloc) := allocated alloc
      if given then
        match optionsFor d off with
        | none => none
        | some options =>
          let size := if total ≤ off + len then total - off else len
          match dupRange alloc off size d.chain with
          | none => none
          | some (none, _) => some ([], some .enosr)
          | some (some blocks, alloc) =>
            let (given, alloc) := allocated alloc
            if given then
              (sendFragments d total len fuel (off + size) alloc).map fun result =>
                (⟨fragHeader d.ip options total off len, options, blocks⟩ :: result.1, result.2)
            else some ([], some .enosr)
      else some ([], some .enosr)

/-- A datagram that is small enough is sent as it is. -/
def whole (d : Datagram) : Fragment := ⟨d.ip, [], d.chain⟩

def ipOutput (maxtu : Nat) (d : Datagram) (alloc : List Bool) : Option (List Fragment × Option Errno) :=
  if d.ip.len ≤ maxtu then some ([whole d], none)
  else if d.ip.off &&& ipDf ≠ 0 then some ([], some .emsgsize)
  else
    let len := (maxtu - d.ip.bytes) / 8 * 8
    if len < 8 then some ([], some .emsgsize)
    else
      let total := d.ip.len - d.ip.bytes
      sendFragments d total len (total + 1) 0 alloc

end Svr4.Ip
