import Mathlib.Logic.Function.Basic
import Svr4.Kernel.Errno

/-! Address spaces of processes: the list of their segments.

Addresses and sizes are numbers below 2 ^ 32. A loop that does not end, and a panic, give no
result. Calls of the segment drivers give their answers; what they do to the list is done here.
-/

namespace Svr4.As

/-- The value of an `unsigned int`. -/
def word (n : Nat) : Nat := n % 4294967296

def pagesize : Nat := 2048

/-- The end of the addresses of processes. -/
def uvend : Nat := 0xf1000000

/-- `struct seg`; a segment is known by its number. -/
structure Seg where
  base : Nat
  size : Nat
  next : Nat
  prev : Nat
  deriving DecidableEq, Repr

/-- `struct as`, with the segments that were ever made for it. -/
structure Space where
  seg : Nat → Seg
  segs : Option Nat
  seglast : Option Nat
  size : Nat
  paglck : Bool
  nextSeg : Nat

/-- `as_alloc`. -/
def asAlloc : Space := ⟨fun _ => ⟨0, 0, 0, 0⟩, none, none, 0, false, 0⟩

/-! ## Ranges of pages -/

/-- An address rounded down. -/
def pageBase (addr : Nat) : Nat := addr / pagesize * pagesize

/-- The end of a range, rounded up. -/
def pageEnd (addr size : Nat) : Nat := word (word (addr + size) + (pagesize - 1)) / pagesize * pagesize

def pageSize (addr size : Nat) : Nat := word (pageEnd addr size + 4294967296 - pageBase addr)

def validVaRange (base len minlen : Nat) : Bool :=
  if word (base + len) < base then false else if word (base + len) - base < minlen then false else true

def secnum (addr : Nat) : Nat := addr / 1073741824 % 4

def segnum (addr : Nat) : Nat := addr / 131072 % 8192

def validUsrRange (addr len : Nat) : Bool :=
  if word (addr + len) ≤ addr ∨ uvend < word (addr + len) then false
  else if secnum addr < 2 ∨ secnum addr ≠ secnum (word (addr + len)) then false
  else if secnum addr = 2 then true
  else segnum addr ≠ 0

section
variable (s : Space)

def Space.end (seg : Nat) : Nat := word ((s.seg seg).base + (s.seg seg).size)

def Space.set (seg : Nat) (change : Seg → Seg) : Space := { s with seg := Function.update s.seg seg (change (s.seg seg)) }

/-! ## `as_segat` -/

/-- The loop of `as_segat` from a segment on. -/
def segatFrom (addr sseg : Nat) : Nat → Nat → Option (Option Nat)
  | 0, _ => none
  | fuel + 1, seg =>
    if (s.seg seg).base ≤ addr ∧ addr < s.end seg then some (some seg)
    else if (s.seg seg).next = sseg then some none
    else segatFrom addr sseg fuel (s.seg seg).next

def asSegat (addr : Nat) : Option (Option Nat × Space) :=
  let s := if s.seglast = none then { s with seglast := s.segs } else s
  match s.seglast with
  | none => some (none, s)
  | some seg =>
    (segatFrom s addr seg s.nextSeg seg).map fun
      | none => (none, s)
      | some hit => (some hit, { s with seglast := some hit })

/-! ## `as_addseg`, `seg_alloc` and `seg_free` -/

/-- The loop of `as_addseg`: the segment before which the new one comes, if it fits. -/
def addsegFrom (first base eaddr : Nat) : Nat → Nat → Option (Option Nat)
  | 0, _ => none
  | fuel + 1, seg =>
    if base < (s.seg seg).base then some (if (s.seg seg).base < eaddr then none else some seg)
    else if base < s.end seg then some none
    else if (s.seg seg).next = first then some (some first)
    else addsegFrom first base eaddr fuel (s.seg seg).next

/-- The new segment comes before `seg`. -/
def linkBefore (seg newseg : Nat) : Space :=
  let s := s.set newseg fun new => { new with next := seg, prev := (s.seg seg).prev }
  let s := s.set seg fun old => { old with prev := newseg }
  s.set (s.seg newseg).prev fun before => { before with next := newseg }

def asAddseg (newseg : Nat) : Option (Bool × Space) :=
  match s.segs with
  | none => some (true, { s.set newseg fun new => { new with next := newseg, prev := newseg } with segs := some newseg })
  | some first =>
    let base := (s.seg newseg).base
    (addsegFrom s first base (word (base + (s.seg newseg).size)) s.nextSeg first).map fun
      | none => (false, s)
      | some seg =>
        let linked := linkBefore s seg newseg
        (true, if base < (linked.seg first).base then { linked with segs := some newseg } else linked)

/-- `seg_attach` of a new segment. -/
def segAttach (base size : Nat) : Option (Bool × Space) :=
  asAddseg { s.set s.nextSeg fun new => { new with base := base, size := size } with nextSeg := s.nextSeg + 1 } s.nextSeg

def segAlloc (base size : Nat) : Option (Option Nat × Space) :=
  let segbase := pageBase base
  let segsize := pageSize base size
  if ¬ validVaRange segbase segsize segsize then some (none, s)
  else if ¬ validUsrRange segbase segsize then some (none, s)
  else (segAttach s segbase segsize).map fun result => (if result.1 then some s.nextSeg else none, result.2)

def segFree (seg : Nat) : Space :=
  let s := if s.segs = some seg then { s with segs := some (s.seg seg).next } else s
  let s :=
    if s.segs = some seg then { s with segs := none }
    else
      let s := s.set (s.seg seg).prev fun before => { before with next := (s.seg seg).next }
      s.set (s.seg seg).next fun after => { after with prev := (s.seg seg).prev }
  if s.seglast = some seg then { s with seglast := s.segs } else s

/-! ## `as_unmap` -/

/-- What a segment driver does to unmap a part of its segment: the segment goes, shrinks or is split. -/
def segUnmap (seg addr len : Nat) : Option Space :=
  let base := (s.seg seg).base
  let size := (s.seg seg).size
  if addr < base ∨ s.end seg < word (addr + len) then none
  else if addr = base ∧ len = size then some (segFree s seg)
  else if addr = base then some (s.set seg fun old => { old with base := word (base + len), size := word (size + 4294967296 - len) })
  else if word (addr + len) = s.end seg then some (s.set seg fun old => { old with size := word (size + 4294967296 - len) })
  else
    (segAlloc (s.set seg fun old => { old with size := addr - base }) (word (addr + len))
      (word (s.end seg + 4294967296 - word (addr + len)))).bind fun result =>
      if result.1 = none then none else some result.2

/-- The loop of `as_unmap`; `ok` says which segments' drivers succeed. -/
def unmapFrom (ok : Nat → Bool) (eaddr : Nat) : Nat → Space → Nat → Nat → Option (Bool × Space)
  | 0, _, _, _ => none
  | fuel + 1, s, raddr, seg =>
    let segNext := (s.seg seg).next
    let obase := (s.seg seg).base
    let again (s : Space) (raddr : Nat) : Option (Bool × Space) :=
      if s.segs ≠ none ∧ obase < (s.seg segNext).base then unmapFrom ok eaddr fuel s raddr segNext else some (true, s)
    if s.end seg ≤ raddr then again s raddr
    else if eaddr ≤ obase then some (true, s)
    else
      let raddr := if raddr < obase then obase else raddr
      let ssize := if s.end seg < eaddr then word (s.end seg + 4294967296 - raddr) else word (eaddr + 4294967296 - raddr)
      if ¬ ok seg then some (false, s)
      else (segUnmap s seg raddr ssize).bind fun s =>
        again { s with size := word (s.size + 4294967296 - ssize) } (word (raddr + ssize))

def asUnmap (ok : Nat → Bool) (addr size : Nat) : Option (Bool × Space) :=
  match s.segs with
  | none => some (true, s)
  | some first => unmapFrom ok (pageEnd addr size) (s.nextSeg + 1) s (pageBase addr) first

/-! ## `as_map` -/

/-- What the create routine does: it fails, keeps the segment, or makes a neighbour longer instead. -/
inductive Created where
  | fails (error : Errno)
  | stays
  | extendsPrev
  | extendsNext
  deriving DecidableEq, Repr

/-- The create routine; a neighbour that does not touch the segment is not made longer. -/
def create (seg : Nat) (created : Created) : Option Errno × Space :=
  let base := (s.seg seg).base
  let size := (s.seg seg).size
  match created with
  | .fails error => (some error, s)
  | .stays => (none, s)
  | .extendsPrev =>
    let prev := (s.seg seg).prev
    if prev ≠ seg ∧ s.end prev = base then
      (none, (segFree s seg).set prev fun old => { old with size := word (old.size + size) })
    else (none, s)
  | .extendsNext =>
    let next := (s.seg seg).next
    if next ≠ seg ∧ s.end seg = (s.seg next).base then
      (none, (segFree s seg).set next fun old =>
        { old with base := word (old.base + 4294967296 - size), size := word (old.size + size) })
    else (none, s)

/-- `as_map`; `limit` is the limit of the process, `lock` the answer of `as_ctl`. -/
def asMap (limit : Nat) (created : Created) (lock : Option Errno) (ok : Nat → Bool) (addr size : Nat) :
    Option (Option Errno × Space) :=
  let rsize := pageSize addr size
  if limit < word (s.size + rsize) then some (some .enomem, s)
  else
    (segAlloc s addr size).bind fun result =>
      match result.1 with
      | none => some (some .enomem, result.2)
      | some seg =>
        let made := create { result.2 with seglast := some seg } seg created
        match made.1 with
        | some error => some (some error, segFree made.2 seg)
        | none =>
          let s := { made.2 with size := word (made.2.size + rsize) }
          if s.paglck ∧ lock ≠ none then (asUnmap s ok addr size).map fun result => (lock, result.2) else some (none, s)

/-! ## `as_dup` -/

/-- The loop of `as_dup`; nothing is the null pointer of a failure. -/
def dupFrom (ok : Nat → Bool) (sseg : Nat) : Nat → Nat → Space → Option (Option Space)
  | 0, _, _ => none
  | fuel + 1, seg, newas =>
    (segAlloc newas (s.seg seg).base (s.seg seg).size).bind fun result =>
      if result.1 = none ∨ ¬ ok seg then some none
      else
        let newas := { result.2 with size := word (result.2.size + (s.seg seg).size) }
        if (s.seg seg).next = sseg then some (some newas) else dupFrom ok sseg fuel (s.seg seg).next newas

def asDup (ok : Nat → Bool) (hat : Bool) : Option (Option Space) :=
  (match s.segs with
    | none => some (some asAlloc)
    | some first => dupFrom s ok first s.nextSeg first asAlloc).map fun newas => if hat then newas else none

end

end Svr4.As
