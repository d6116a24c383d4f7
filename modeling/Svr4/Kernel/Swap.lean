import Mathlib
import Svr4.Kernel.Errno

/-! Swap areas, their anon slots and the counters of reserved and free swap pages.

A slot is named by the area it lies in and its place in the area's array. The
calls run one after the other. A call that panics, or that sleeps for memory
that cannot come, gives no result.
-/

namespace Svr4.Swap

open BitVec (ofNat)

abbrev Word := BitVec 32

structure Slot where
  area : Nat
  index : Nat
  deriving DecidableEq, Repr

/-- `struct anon`: the free link is kept in the area's free list. -/
structure Anon where
  refcnt : Nat
  bap : Option Slot
  deriving DecidableEq, Repr

/-- `struct swapinfo`, with the address of its anon array as `id`. -/
structure Swapinfo where
  id : Nat
  vp : Nat
  svp : Nat
  soff : Word
  eoff : Word
  pname : String
  anon : List Anon
  free : List Nat
  npgs : Nat
  nfpgs : Nat
  allocs : Nat
  inDel : Bool
  doingDel : Bool
  deleted : Bool
  deriving DecidableEq, Repr

structure Device where
  swapinfo : List Swapinfo
  silast : Option Nat
  nextId : Nat
  nswapfiles : Nat
  aniMax : Word
  aniFree : Word
  aniResv : Word
  availsmem : Word
  deriving DecidableEq, Repr

def btopr (size : Word) : Word := (size + 2047) >>> 11

def btoc (bytes : Word) : Word := (bytes + 2047) >>> 11

def btoct (bytes : Word) : Word := bytes >>> 11

def ctob (clicks : Word) : Word := clicks <<< 11

/-- `swap_maxcontig`, a megabyte of pages. -/
def swapMaxcontig : Nat := 512

/-- `sizeof (struct anon)`. -/
def sizeofAnon : Nat := 12

section
variable (s : Device)

def Device.find (id : Nat) : Option Swapinfo := s.swapinfo.find? fun sip => sip.id = id

def Device.modify (id : Nat) (change : Swapinfo → Swapinfo) : Device :=
  { s with swapinfo := s.swapinfo.map fun sip => if sip.id = id then change sip else sip }

def Device.anon (ap : Slot) : Option Anon := (s.find ap.area).bind fun sip => sip.anon[ap.index]?

def Device.setAnon (ap : Slot) (change : Anon → Anon) : Device :=
  s.modify ap.area fun sip => { sip with anon := sip.anon.modify ap.index change }

def setBap (bap : Option Slot) (ap : Anon) : Anon := { ap with bap := bap }

def setRefcnt (refcnt : Nat) (ap : Anon) : Anon := { ap with refcnt := refcnt }

/-- `si_next`, or the first area after the last one. -/
def Device.after (id : Nat) : Option Nat :=
  match (s.swapinfo.map Swapinfo.id).dropWhile (· ≠ id) with
  | _ :: next :: _ => some next
  | _ => (s.swapinfo.map Swapinfo.id).head?

/-! ## Reservations -/

/-- `anon_resv`: page counts are unsigned, and so are the comparisons. -/
def anonResv (minasmem size : Word) : Bool × Device :=
  let pages := btopr size
  if s.availsmem - pages < minasmem then (false, s)
  else if s.aniMax < s.aniResv + pages then (false, { s with aniResv := s.aniResv + pages - pages })
  else (true, { s with aniResv := s.aniResv + pages, availsmem := s.availsmem - pages })

def anonUnresv (size : Word) : Device :=
  { s with availsmem := s.availsmem + btopr size, aniResv := s.aniResv - btopr size }

/-! ## Slots -/

def taken (others : List Nat) (sip : Swapinfo) : Swapinfo :=
  { sip with
    free := others
    nfpgs := sip.nfpgs - 1
    allocs := if swapMaxcontig ≤ sip.allocs + 1 then 0 else sip.allocs + 1 }

/-- The loop of `swap_alloc` over the areas left to look at. -/
def swapAllocFrom : Device → List Nat → Option Slot × Device
  | s, [] => (none, s)
  | s, id :: rest =>
    match s.find id with
    | none => swapAllocFrom s rest
    | some sip =>
      if sip.inDel then swapAllocFrom s rest
      else
        match sip.free with
        | [] => swapAllocFrom (s.modify id fun sip => { sip with allocs := 0 }) rest
        | index :: others =>
          let silast := if swapMaxcontig ≤ sip.allocs + 1 then s.after id else s.silast
          (some ⟨id, index⟩, { s.modify id (taken others) with silast := silast })

/-- The areas in the order `swap_alloc` looks at them, from `silast` round to it. -/
def Device.round : List Nat :=
  let ids := s.swapinfo.map Swapinfo.id
  match s.silast with
  | none => []
  | some last => ids.dropWhile (· ≠ last) ++ ids.takeWhile (· ≠ last)

def swapAlloc : Option Slot × Device := swapAllocFrom s s.round

def anonAlloc : Bool × Device :=
  match swapAlloc s with
  | (none, t) => (false, t)
  | (some ap, t) => (true, { t.setAnon ap (setRefcnt 1) with aniFree := t.aniFree - 1 })

/-- `swapinfo_free`: the head of the list is read before the area leaves it. -/
def swapinfoFree (id : Nat) : Option Device :=
  if (s.find id).isSome then
    some { s with
      swapinfo := s.swapinfo.filter fun sip => sip.id ≠ id
      silast := if s.silast = some id then s.after id else s.silast }
  else none

def pushed (index : Nat) (sip : Swapinfo) : Swapinfo :=
  { sip with free := index :: sip.free, nfpgs := sip.nfpgs + 1 }

/-- The loop of `swap_free`, for a slot without a back end. -/
def swapFreeOne (ap : Slot) : Option Device :=
  match s.find ap.area with
  | none => none
  | some sip =>
    if ap.index < sip.anon.length then
      let t := s.modify ap.area (pushed ap.index)
      if sip.deleted ∧ sip.nfpgs + 1 = sip.npgs then swapinfoFree t ap.area else some t
    else none

/-- `swap_free`: an indirect slot gives up its back end first. -/
def swapFree (ap : Slot) : Option Device :=
  match (s.anon ap).bind Anon.bap with
  | none => swapFreeOne s ap
  | some bap => do
    let t ← swapFreeOne ((s.setAnon ap (setBap none)).setAnon bap (setBap none)) bap
    swapFreeOne t ap

/-- `anon_decref`; the slot is in use. -/
def anonDecref (ap : Slot) : Option Device :=
  match s.anon ap with
  | none => none
  | some anon =>
    if anon.refcnt = 1 then do
      let t ← swapFree (s.setAnon ap (setRefcnt 0)) ap
      some { t with aniFree := t.aniFree + 1 }
    else some (s.setAnon ap (setRefcnt (anon.refcnt - 1)))

/-! ## Deleting an area -/

/-- `delswap_done`. -/
def delswapDone (sip : Swapinfo) : Bool := sip.nfpgs = sip.npgs ∨ ¬ sip.inDel

/-- The slot `delswap` gives a new back end when it comes to `cur`. -/
def relocates (cur : Slot) : Option Slot :=
  match s.anon cur with
  | none => none
  | some anon =>
    match anon.bap with
    | some bap => if anon.refcnt = 0 then some bap else none
    | none => if anon.refcnt = 0 then none else some cur

/-- One turn of the loop of `delswap`; a slot whose page is not in memory waits for the second pass. -/
def delswapSlot (resident : Slot → Bool) (pass : Nat) (cur : Slot) : Option Device :=
  match s.find cur.area with
  | none => none
  | some sip =>
    if delswapDone sip then some s
    else
      match relocates s cur with
      | none => some s
      | some old =>
        if pass = 0 ∧ ¬ resident old then some s
        else if ((s.anon old).map Anon.refcnt).getD 0 = 0 then some s
        else
          match swapAlloc s with
          | (none, _) => none  -- panic: out of anon
          | (some fresh, t) =>
            let linked := (t.setAnon old (setBap (some fresh))).setAnon fresh (setBap (some old))
            if cur = old then some linked
            else some ((linked.setAnon cur (setBap none)).modify cur.area (pushed cur.index))

def overSlots (turn : Nat → Slot → Device → Option Device) (id : Nat) (sip : Swapinfo) : Option Device := do
  let slots := (List.range sip.anon.length).map (Slot.mk id)
  let t ← slots.foldlM (fun t cur => turn 0 cur t) s
  slots.foldlM (fun t cur => turn 1 cur t) t

def delswap (resident : Slot → Bool) (id : Nat) : Option Device :=
  match s.find id with
  | none => none
  | some sip => overSlots s (fun pass cur t => delswapSlot t resident pass cur) id sip

/-- One turn of the loop of `undelswap`. -/
def undelswapSlot (resident : Slot → Bool) (pass : Nat) (dir : Slot) : Option Device :=
  match s.find dir.area with
  | none => none
  | some sip =>
    if delswapDone sip then some s
    else
      match s.anon dir with
      | none => none
      | some anon =>
        match anon.bap with
        | none => some s
        | some ind =>
          if anon.refcnt = 0 ∨ (pass = 0 ∧ ¬ resident dir) then some s
          else swapFree ((s.setAnon dir (setBap none)).setAnon ind (setBap none)) ind

def undelswap (resident : Slot → Bool) (id : Nat) : Option Device :=
  match s.find id with
  | none => none
  | some sip => overSlots s (fun pass dir t => undelswapSlot t resident pass dir) id sip

/-! ## `swapadd` and `swapdel` -/

/-- What a call is given, and what the file system answers it. -/
structure Request where
  vp : Nat
  cvp : Nat
  lowblk : Word
  nblks : Word
  swapname : String
  opens : Errno ⊕ Unit
  size : Errno ⊕ Word
  resident : Slot → Bool

/-- What the loop of `swapadd` over the areas comes to. -/
inductive Match where
  | undelete (id : Nat)
  | interrupt (id : Nat)
  | overlaps
  | absent
  deriving DecidableEq

def addMatch (cvp : Nat) (soff eoff : Word) (pages : Nat) (swapname : String) : List Swapinfo → Match
  | [] => .absent
  | sip :: rest =>
    if sip.deleted then
      if sip.soff = soff ∧ sip.npgs = pages ∧ sip.pname = swapname then .undelete sip.id
      else addMatch cvp soff eoff pages swapname rest
    else if sip.vp = cvp then
      if sip.soff = soff ∧ sip.npgs = pages ∧ sip.doingDel then .interrupt sip.id
      else if soff < sip.eoff ∧ sip.soff < eoff then .overlaps
      else addMatch cvp soff eoff pages swapname rest
    else addMatch cvp soff eoff pages swapname rest

/-- The page-aligned range of an area to be added. -/
def addRange (req : Request) (size : Word) : Errno ⊕ (Word × Word) :=
  let soff := req.lowblk <<< 9
  if size = 0 ∨ size ≤ soff then .inl .einval
  else
    let eoff := soff + req.nblks <<< 9
    if size < eoff ∧ s.swapinfo ≠ [] then .inl .einval
    else
      let eoff := if size < eoff then size else eoff
      if ctob (btoct eoff) ≤ ctob (btoc soff) then .inl .einval
      else .inr (ctob (btoc soff), ctob (btoct eoff))

/-- The anon arrays of all areas lie in one address space: `kmem_zalloc` waits while one does not fit. -/
def roomFor (pages : Nat) : Bool := sizeofAnon * ((s.swapinfo.map Swapinfo.npgs).sum + pages) < 2 ^ 32

def newArea (req : Request) (soff eoff : Word) (pages : Nat) : Swapinfo :=
  { id := s.nextId, vp := req.cvp, svp := req.vp, soff := soff, eoff := eoff, pname := req.swapname
    anon := List.replicate pages ⟨0, none⟩, free := List.range pages, npgs := pages, nfpgs := pages, allocs := 0
    inDel := false, doingDel := false, deleted := false }

/-- The end of `swapadd`, for an area that is not there yet. -/
def addArea (req : Request) (soff eoff pages : Word) : Option Device :=
  if roomFor s pages.toNat then
    some { s with
      swapinfo := s.swapinfo ++ [newArea s req soff eoff pages.toNat]
      silast := some (s.silast.getD s.nextId)
      nextId := s.nextId + 1
      nswapfiles := s.nswapfiles + 1
      aniFree := s.aniFree + pages
      aniMax := s.aniMax + pages
      availsmem := s.availsmem + pages }
  else none

/-- `swapadd` of an area whose slots are not all free since it was deleted. -/
def undelete (req : Request) (id : Nat) : Option Device :=
  let back := s.modify id fun sip => { sip with svp := req.vp, vp := req.cvp, deleted := false }
  (undelswap back req.resident id).bind fun t =>
    (t.find id).map fun sip =>
      { t.modify id (fun sip => { sip with inDel := false }) with
        aniMax := t.aniMax + ofNat 32 sip.npgs
        availsmem := t.availsmem + ofNat 32 sip.npgs
        nswapfiles := t.nswapfiles + 1 }

def swapadd (req : Request) : Option (Except Errno Unit × Device) :=
  match req.opens, req.size with
  | .inl error, _ => some (.error error, s)
  | .inr (), .inl error => some (.error error, s)
  | .inr (), .inr size =>
    match addRange s req size with
    | .inl error => some (.error error, s)
    | .inr (soff, eoff) =>
      let pages := btoc (eoff - soff)
      match addMatch req.cvp soff eoff pages.toNat req.swapname s.swapinfo with
      | .undelete id => (undelete s req id).map fun t => (.ok (), t)
      | .interrupt id => some (.ok (), s.modify id fun sip => { sip with inDel := false })
      | .overlaps => some (.error .eexist, s)
      | .absent => (addArea s req soff eoff pages).map fun t => (.ok (), t)

/-- The area `swapdel` is asked to delete. -/
def isAsked (cvp : Nat) (soff : Word) (sip : Swapinfo) : Bool :=
  sip.vp = cvp ∧ sip.soff = soff ∧ ¬ sip.inDel ∧ ¬ sip.doingDel ∧ ¬ sip.deleted

/-- The tests of `swapdel`: the area it deletes, or the error. -/
def delMatch (minasmem : Word) (cvp : Nat) (lowblk : Word) : Errno ⊕ Swapinfo :=
  let soff := ctob (btoc (lowblk <<< 9))
  match (s.swapinfo.filter fun sip => isAsked cvp soff sip).getLast? with
  | none => .inl .einval
  | some osip =>
    if (s.swapinfo.filter fun sip => ¬ isAsked cvp soff sip ∧ ¬ sip.inDel).isEmpty then .inl .enomem
    else if s.aniMax - s.aniResv - ofNat 32 osip.npgs < minasmem then .inl .enomem
    else .inr osip

/-- `swapdel` takes the area off the counts, and no slot is taken from it any more. -/
def beginDelete (osip : Swapinfo) : Device :=
  { s.modify osip.id fun sip => { sip with inDel := true, doingDel := true } with
    aniMax := s.aniMax - ofNat 32 osip.npgs
    availsmem := s.availsmem - ofNat 32 osip.npgs }

def emptyArea (resident : Slot → Bool) (osip : Swapinfo) : Option Device :=
  if osip.nfpgs < osip.npgs then delswap s resident osip.id else some s

/-- The structures of an area go now or, with slots in use, when the last one is freed. -/
def releaseArea (sip : Swapinfo) : Option Device :=
  if sip.nfpgs = sip.npgs then swapinfoFree s sip.id
  else some (s.modify sip.id fun sip => { sip with deleted := true })

/-- The end of `swapdel`: the area may have been added again while it was emptied. -/
def finishDelete (resident : Slot → Bool) (osip : Swapinfo) : Option Device :=
  match s.find osip.id with
  | none => none
  | some sip =>
    if sip.inDel then (releaseArea s sip).map fun t => { t with nswapfiles := t.nswapfiles - 1 }
    else (undelswap s resident osip.id).map fun t =>
      { t with
        aniMax := t.aniMax + ofNat 32 osip.npgs
        availsmem := t.availsmem + ofNat 32 osip.npgs }

/-- The rest of `swapdel`, for the area found. -/
def deleteArea (resident : Slot → Bool) (osip : Swapinfo) : Option Device :=
  (emptyArea (beginDelete s osip) resident osip).bind fun t =>
    finishDelete (t.modify osip.id fun sip => { sip with doingDel := false }) resident osip

def swapdel (minasmem : Word) (req : Request) : Option (Except Errno Unit × Device) :=
  match delMatch s minasmem req.cvp req.lowblk with
  | .inl error => some (.error error, s)
  | .inr osip => (deleteArea s req.resident osip).map fun t => (.ok (), t)

end

/-! ## Runs -/

inductive Event where
  | resv (size : Word)
  | unresv (size : Word)
  | add (req : Request)
  | del (req : Request)
  | alloc
  | decref (ap : Slot)

def succeeds {α : Type} : Except Errno α → Bool
  | .ok _ => true
  | .error _ => false

/-- What a call comes to: whether it succeeds, and the state it leaves. -/
def run (minasmem : Word) : Event → Device → Option (Bool × Device)
  | .resv size, s => some (anonResv s minasmem size)
  | .unresv size, s => some (true, anonUnresv s size)
  | .add req, s => (swapadd s req).map fun result => (succeeds result.1, result.2)
  | .del req, s => (swapdel s minasmem req).map fun result => (succeeds result.1, result.2)
  | .alloc, s => some (anonAlloc s)
  | .decref ap, s => (anonDecref s ap).map fun t => (true, t)

end Svr4.Swap
