import Mathlib.Data.BitVec

/-! The kernel memory allocator: `kmem_alloc` and the pools it takes buffers from.

The counts of pages are machine words: the number of clicks is unsigned, so the
differences are compared as unsigned numbers. The free lists hold addresses; the bitmaps
and the hash chains of the pools are left out. A call that goes to sleep is followed up to
there, and begins again when it wakes.
-/

namespace Svr4.Kma

open BitVec (ofNat)
open Function (update)

def nbpc : Nat := 2048

/-- Addresses and sizes are words of 32 bits. -/
def word : Nat := 4294967296

def btoc (x : Nat) : Nat := (x + (nbpc - 1)) % word / nbpc

def ctob (x : Nat) : Nat := x * nbpc % word

def minsmall : Nat := 8
def maxasmall : Nat := 256
def minbig : Nat := 512
def maxabig : Nat := 4096
def smallbytes : Nat := 4096
def bigbytes : Nat := 16384
def smallclicks : Nat := btoc smallbytes
def bigclicks : Nat := btoc bigbytes

/-- The free lists of the smallest and the largest buffers of a pool. -/
def sminoffset : Nat := 1
def smaxoffset : Nat := 5
def bminoffset : Nat := 6
def bmaxoffset : Nat := 9

/-- `sizeof(bufpool) + 2 * sizeof(hashpool)` and the bitmap of a big pool. -/
def headers : Nat := 24 + 2 * 20 + bigbytes / (minbig * 8)

inductive Class where
  | small
  | large
  | osize
  deriving DecidableEq, Repr

/-- The calls of `sptalloc` that gave pages and those of `sptfree`. -/
inductive Spt where
  | alloc (sp size : Nat)
  | free (sp size : Nat)
  deriving DecidableEq, Repr

/-- `struct tune`, as far as it is read. -/
structure Tune where
  tMinarmem : BitVec 32
  tMinasmem : BitVec 32

structure Kmem where
  availrmem : BitVec 32
  availsmem : BitVec 32
  pagesPpKernel : BitVec 32
  tune : Tune
  freeLists : Nat → List Nat
  smAllocOn : Bool
  bgAllocOn : Bool
  kmMem : Class → BitVec 32
  kmAlloc : Class → BitVec 32
  kmFail : Class → BitVec 32
  calls : List Spt

/-- What the page allocator answers after the calls so far: where the pages begin. -/
abbrev Sptalloc := List Spt → Nat → Bool → Option Nat

/-- What `kmem_allocspool` and `kmem_allocbpool` come to. -/
inductive Pool where
  | success
  | tryagain
  | failure
  | sleeps
  deriving DecidableEq, Repr

/-- What `kmem_alloc` comes to. -/
inductive Result where
  | buf (bufp : Nat)
  | null
  | sleeps
  deriving DecidableEq, Repr

namespace Kmem

/-- The test before pages are taken. Its operands are unsigned. -/
def Tight (k : Kmem) (clicks : Nat) : Prop :=
  k.availrmem - ofNat 32 clicks < k.tune.tMinarmem ∨ k.availsmem - ofNat 32 clicks < k.tune.tMinasmem

instance (k : Kmem) (clicks : Nat) : Decidable (k.Tight clicks) :=
  inferInstanceAs (Decidable (_ ∨ _))

/-- The counts of available pages go down. -/
def take (k : Kmem) (clicks : Nat) : Kmem :=
  { k with
    availrmem := k.availrmem - ofNat 32 clicks
    availsmem := k.availsmem - ofNat 32 clicks }

/-- The counts of available pages go up. -/
def give (k : Kmem) (clicks : Nat) : Kmem :=
  { k with
    availrmem := k.availrmem + ofNat 32 clicks
    availsmem := k.availsmem + ofNat 32 clicks }

def obtained (k : Kmem) (sp size : Nat) : Kmem := { k with calls := .alloc sp size :: k.calls }

def sptfree (k : Kmem) (vaddr size : Nat) : Kmem := { k with calls := .free (btoc vaddr) size :: k.calls }

/-- `HEADFREE`. -/
def headfree (k : Kmem) (list bufhdr : Nat) : Kmem :=
  { k with freeLists := update k.freeLists list (bufhdr :: k.freeLists list) }

/-- The buffers of `size` bytes from `memp` up to `endp` go on a free list. -/
def fill (k : Kmem) (list size memp endp : Nat) : Kmem :=
  (List.range' memp ((endp - memp + size - 1) / size) size).foldl (fun k memp => k.headfree list memp) k

def addMem (k : Kmem) (kind : Class) (bytes : Nat) : Kmem :=
  { k with kmMem := update k.kmMem kind (k.kmMem kind + ofNat 32 bytes) }

def addAlloc (k : Kmem) (kind : Class) (bytes : Nat) : Kmem :=
  { k with kmAlloc := update k.kmAlloc kind (k.kmAlloc kind + ofNat 32 bytes) }

def addFail (k : Kmem) (kind : Class) : Kmem :=
  { k with kmFail := update k.kmFail kind (k.kmFail kind + 1) }

end Kmem

/-- Round up, and truncate, to a multiple of `unit`. -/
def alignUp (unit addr : Nat) : Nat := (addr + unit - 1) % word / unit * unit

def alignDown (unit addr : Nat) : Nat := addr % word / unit * unit

section
variable (sptalloc : Sptalloc) (noSleep : Bool)

def kmemAllocspool (k : Kmem) : Pool × Kmem :=
  if k.smAllocOn then (.tryagain, k)
  else if k.Tight smallclicks then (.failure, k)
  else
    let k := k.take smallclicks
    match sptalloc k.calls smallclicks noSleep with
    | none => (.failure, k.give smallclicks)
    | some sp =>
        let k := { k.obtained sp smallclicks with pagesPpKernel := k.pagesPpKernel + ofNat 32 smallclicks }
        let endp := alignDown maxasmall (ctob sp + smallbytes)
        let memp := alignUp maxasmall (ctob sp)
        let k := k.fill smaxoffset maxasmall (memp + 2 * maxasmall) endp
        (.success, k.addMem .small (endp - memp - 2 * maxasmall))

/-- The free list of the smallest buffers that hold `size` bytes, from the list at `i`. -/
def fit (size i : Nat) : Nat := if minsmall * 2 ^ i < size then fit size (i + 1) else i
termination_by size - minsmall * 2 ^ i
decreasing_by
  rw [Nat.pow_succ]
  have positive := Nat.two_pow_pos i
  unfold minsmall at *
  omega

/-- Split a buffer of the list at `j` until it is one of the list at `i`. Its buddies are
freed. -/
def split (k : Kmem) (i : Nat) : Nat → Nat → Nat × Kmem
  | 0, bufp => (bufp, k)
  | j + 1, bufp => if j + 1 ≤ i then (bufp, k) else split (k.headfree j bufp) i j (bufp + minsmall * 2 ^ j)

/-- Take the first buffer of the list at `j` and split it. -/
def unlinkhead (k : Kmem) (i j : Nat) : Option (Nat × Kmem) :=
  match k.freeLists j with
  | [] => none
  | bufp :: rest => some (split { k with freeLists := update k.freeLists j rest } i j bufp)

/-- `kmem_alloc` from the pools of a class, of which the lists end at `last`. -/
def fromPool (kind : Class) (allocpool : Kmem → Pool × Kmem) (first last size : Nat) (k : Kmem) : Result × Kmem :=
  let i := fit size first
  match (List.range' i (last + 1 - i)).findSome? (unlinkhead k i) with
  | some (bufp, k) => (.buf bufp, k.addAlloc kind (minsmall * 2 ^ i))
  | none =>
      match allocpool k with
      | (.success, k) =>
          match unlinkhead k i last with
          | some (bufp, k) => (.buf bufp, k.addAlloc kind (minsmall * 2 ^ i))
          -- A new pool has buffers.
          | none => (.sleeps, k)
      | (.sleeps, k) => (.sleeps, k)
      | (.tryagain, k) | (.failure, k) => if noSleep then (.null, k.addFail kind) else (.sleeps, k)

def smallAlloc (size : Nat) (k : Kmem) : Result × Kmem :=
  fromPool noSleep .small (kmemAllocspool sptalloc noSleep) sminoffset smaxoffset size k

/-- The rest of `kmem_allocbpool` when it has its pages. -/
def setUp (sp : Nat) (k : Kmem) : Pool × Kmem :=
  let endp := alignDown maxabig (ctob sp + bigbytes)
  let memp := alignUp maxabig (ctob sp)
  match smallAlloc sptalloc noSleep headers k with
  | (.sleeps, k) => (.sleeps, k)
  | (.null, k) => (.failure, { (k.sptfree memp bigclicks).give bigclicks with bgAllocOn := false })
  | (.buf _, k) =>
      let k := { k with pagesPpKernel := k.pagesPpKernel + ofNat 32 bigclicks }
      let k := k.fill bmaxoffset maxabig memp endp
      (.success, { k.addMem .large (endp - memp) with bgAllocOn := false })

def kmemAllocbpool (k : Kmem) : Pool × Kmem :=
  if k.bgAllocOn then (.tryagain, k)
  else if k.Tight bigclicks then (.failure, k)
  else
    let k := { k.take bigclicks with bgAllocOn := true }
    match sptalloc k.calls bigclicks noSleep with
    | none => (.failure, { k.give bigclicks with bgAllocOn := false })
    | some sp => setUp sptalloc noSleep sp (k.obtained sp bigclicks)

/-- Requests beyond the big pools. -/
def osizeAlloc (size : Nat) (k : Kmem) : Result × Kmem :=
  let clicks := btoc size
  if k.Tight clicks then (if noSleep then .null else .sleeps, k)
  else
    let k := k.take clicks
    match sptalloc k.calls clicks noSleep with
    | none => if noSleep then (.null, (k.give clicks).addFail .osize) else (.sleeps, k.give clicks)
    | some sp =>
        let k := { k.obtained sp clicks with pagesPpKernel := k.pagesPpKernel + ofNat 32 clicks }
        (.buf (ctob sp), k.addAlloc .osize (ctob clicks))

def kmemAlloc (size : Nat) (k : Kmem) : Result × Kmem :=
  if size = 0 then (.null, k)
  else if size ≤ maxasmall then smallAlloc sptalloc noSleep size k
  else if size ≤ maxabig then fromPool noSleep .large (kmemAllocbpool sptalloc noSleep) bminoffset bmaxoffset size k
  else osizeAlloc sptalloc noSleep size k

end

/-- An estimate of the memory that is left, for `bufcall`. -/
def kmemAvail (k : Kmem) : BitVec 32 :=
  (k.availrmem - k.tune.tMinarmem) * ofNat 32 nbpc + (k.kmMem .small - k.kmAlloc .small) +
    (k.kmMem .large - k.kmAlloc .large)

end Svr4.Kma
