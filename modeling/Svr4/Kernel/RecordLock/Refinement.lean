import Mathlib.Data.List.TakeWhile
import Svr4.Kernel.RecordLock.Order

/-! `flckadj` refines an assignment to the byte map of the requester.

During the walk the request is mutated, so the invariant compares the map of
the current list overlaid with the current request with the same overlay of
the list and request the call began with.
-/

namespace Svr4.RecordLock

open Option (map_some bind_eq_bind bind_some)
open List (takeWhile_append_dropWhile mem_cons mem_append append_assoc)

attribute [local simp] insflck

/-! ## Insertion behind a run of nodes -/

theorem scanBefore_eq (start : Int) (node : Filock) (rest : List Filock) :
    scanBefore start node.addr rest =
      ((node :: rest.takeWhile fun f => f.set.lStart < start).getLast (by simp)).addr := by
  induction rest generalizing node with
  | nil => simp [scanBefore]
  | cons head rest ih =>
    by_cases early : head.set.lStart < start
    · simp [scanBefore, early, ih head]
    · simp [scanBefore, early]

theorem insertAfter_getLast (new node : Filock) (before run rest : List Filock)
    (distinct : (addrs (before ++ node :: (run ++ rest))).Nodup) :
    insertAfter ((node :: run).getLast (by simp)).addr new (before ++ node :: (run ++ rest)) =
      some (before ++ node :: (run ++ new :: rest)) := by
  induction run generalizing before node with
  | nil =>
    refine insertAfter_append new fun member => ?_
    simp only [addrs, List.map_append, List.map_cons, List.nodup_append] at distinct
    exact distinct.2.2 _ member _ (by simp) rfl
  | cons head run ih =>
    have step := ih head (before ++ [node]) (by simpa using distinct)
    simpa using step

variable {before rest : List Filock} {node f : Filock} {start : Int}

/-- The nodes of a sorted list after `node` that start before `start` come first. -/
theorem link_scan (new : Filock)
    (ordered : Ordered (before ++ node :: rest)) (early : node.set.lStart ≤ start) :
    insertAfter (scanBefore start node.addr (node :: rest)) new (before ++ node :: rest) =
      some (before ++ node :: (rest.takeWhile (fun f => f.set.lStart < start) ++
        new :: rest.dropWhile fun f => f.set.lStart < start)) := by
  have place : scanBefore start node.addr (node :: rest) = scanBefore start node.addr rest := by
    by_cases strict : node.set.lStart < start
    · simp [scanBefore, strict]
    · -- The scan stops at `node`, and by order nothing behind it starts earlier.
      cases rest with
      | nil => simp [scanBefore]
      | cons head rest =>
        have order := ordered.fits.above head (by simp)
        simp [scanBefore, show ¬ node.set.lStart < start by omega,
          show ¬ head.set.lStart < start by omega]
  have split := takeWhile_append_dropWhile (p := fun f : Filock => f.set.lStart < start) (l := rest)
  rw [place, scanBefore_eq]
  have distinct := ordered.distinct
  rw [← split] at distinct
  have linked := insertAfter_getLast new node before _ _ distinct
  rwa [split] at linked

variable {list : List Filock}

theorem Ordered.dropWhile_start (start : Int)
    (sorted : list.Pairwise fun a b => a.set.lStart ≤ b.set.lStart)
    (member : f ∈ list.dropWhile fun f => f.set.lStart < start) : start ≤ f.set.lStart := by
  induction list with
  | nil => simp at member
  | cons head rest ih =>
    obtain ⟨first, tail⟩ := List.pairwise_cons.mp sorted
    by_cases early : head.set.lStart < start
    · exact ih tail (by simpa [early] using member)
    · have member : f ∈ head :: rest := by simpa [early] using member
      rcases mem_cons.mp member with rfl | member
      · omega
      · have := first f member
        omega

theorem takeWhile_start
    (member : f ∈ list.takeWhile fun f => f.set.lStart < start) : f.set.lStart < start := by
  simpa using List.mem_takeWhile_imp member

/-! ## Overlaying a request -/

/-- The map of a list once the bytes of `ld` are set to its type. -/
def Overlaid (list : List Filock) (ld : Flock) (o : Owner) (b : Int) (t : LockType) : Prop :=
  if o = ld.owner ∧ ld.lStart ≤ b ∧ b ≤ ld.lEnd then ld.lType = t ∧ t ≠ .unlck
  else Holds list o b t

/-- A node inside the new request can go; the request may have grown over the
node when both have one type. -/
theorem overlaid_drop {ld ld' : Flock}
    (ordered : Ordered (before ++ node :: rest)) (mine : node.set.owner = ld.owner)
    (owner : ld'.owner = ld.owner) (type : ld'.lType = ld.lType)
    (inside : ld'.lStart ≤ node.set.lStart ∧ node.set.lEnd ≤ ld'.lEnd)
    (grown : ld'.lStart ≤ ld.lStart ∧ ld.lEnd ≤ ld'.lEnd)
    (only : ∀ b, ld'.lStart ≤ b → b ≤ ld'.lEnd → (ld.lStart ≤ b ∧ b ≤ ld.lEnd) ∨
      (node.set.lStart ≤ b ∧ b ≤ node.set.lEnd ∧ node.set.lType = ld.lType))
    (o : Owner) (b : Int) (t : LockType) :
    Overlaid (before ++ rest) ld' o b t ↔ Overlaid (before ++ node :: rest) ld o b t := by
  have split := holds_split before rest node o b t
  unfold Overlaid
  rw [owner, type]
  by_cases new : o = ld.owner ∧ ld'.lStart ≤ b ∧ b ≤ ld'.lEnd
  · rw [if_pos new]
    by_cases old : o = ld.owner ∧ ld.lStart ≤ b ∧ b ≤ ld.lEnd
    · rw [if_pos old]
    · rw [if_neg old]
      obtain ⟨rfl, low, high⟩ := new
      rcases only b low high with outside | ⟨low, high, same⟩
      · exact absurd ⟨rfl, outside⟩ old
      -- The byte is one of the node's, which no other lock of the owner holds.
      have covered : node.set.Covers ld.owner b node.set.lType := ⟨mine, low, high, rfl⟩
      constructor
      · rintro ⟨rfl, _⟩
        exact split.mpr (.inl ⟨mine, low, high, same⟩)
      · intro holds
        have kind := ordered.kind node (by simp)
        have type := ordered.holds_unique ((holds_split _ _ _ _ _ _).mpr (.inl covered)) holds
        rw [← type, same]
        refine ⟨rfl, ?_⟩
        rcases kind with kind | kind <;> simp [← same, kind]
  · have old : ¬ (o = ld.owner ∧ ld.lStart ≤ b ∧ b ≤ ld.lEnd) := by
      rintro ⟨rfl, low, high⟩
      exact new ⟨rfl, by omega, by omega⟩
    rw [if_neg new, if_neg old, split]
    refine ⟨.inr, fun holds => holds.resolve_left ?_⟩
    rintro ⟨owner', low, high, _⟩
    exact new ⟨owner'.symm.trans mine, by omega, by omega⟩

theorem overlaid_congr {list' : List Filock} {ld : Flock}
    (outside : ∀ o b t, ¬ (o = ld.owner ∧ ld.lStart ≤ b ∧ b ≤ ld.lEnd) →
      (Holds list' o b t ↔ Holds list o b t)) (o : Owner) (b : Int) (t : LockType) :
    Overlaid list' ld o b t ↔ Overlaid list ld o b t := by
  unfold Overlaid
  split
  · rfl
  · next away => exact outside o b t away

/-! ## Regions -/

/-- The order of the four ends in each region pair; the other pairs do not occur. -/
def RegionOrder (ld flp : Flock) : Region × Region → Prop
  | (.before, .before) => ld.lEnd < flp.lStart - 1
  | (.before, .start) => ld.lStart < flp.lStart ∧ ld.lEnd = flp.lStart - 1
  | (.before, .middle) => ld.lStart < flp.lStart ∧ flp.lStart ≤ ld.lEnd ∧ ld.lEnd < flp.lEnd
  | (.before, .end) => ld.lStart < flp.lStart ∧ ld.lEnd = flp.lEnd
  | (.before, .after) => ld.lStart < flp.lStart ∧ flp.lEnd < ld.lEnd
  | (.start, .middle) => ld.lStart = flp.lStart ∧ ld.lEnd < flp.lEnd
  | (.start, .end) => ld.lStart = flp.lStart ∧ ld.lEnd = flp.lEnd
  | (.start, .after) => ld.lStart = flp.lStart ∧ flp.lEnd < ld.lEnd
  | (.middle, .middle) => flp.lStart < ld.lStart ∧ ld.lEnd < flp.lEnd
  | (.middle, .end) => flp.lStart < ld.lStart ∧ ld.lStart ≤ flp.lEnd ∧ ld.lEnd = flp.lEnd
  | (.middle, .after) => flp.lStart < ld.lStart ∧ ld.lStart ≤ flp.lEnd ∧ flp.lEnd < ld.lEnd
  | (.end, .after) => flp.lStart < ld.lStart ∧ flp.lEnd = ld.lStart - 1
  | (.after, .after) => flp.lStart < ld.lStart ∧ flp.lEnd < ld.lStart - 1
  | _ => False

theorem regflck_order {ld flp : Flock} (range : ld.lStart ≤ ld.lEnd) (held : flp.lStart ≤ flp.lEnd) :
    RegionOrder ld flp (regflck ld flp) := by
  unfold regflck
  split_ifs <;> simp only [RegionOrder] <;> omega

/-! ## The invariant of the walk -/

/-- Where the new lock may go: behind the node at `insrtp`, or first. -/
def Place (list : List Filock) (start : Int) : Option Addr → Prop
  | none => ∀ f ∈ list, start ≤ f.set.lStart
  | some addr => ∃ f ∈ list, f.addr = addr ∧ f.set.lStart ≤ start

/-- Holds of the list at every point of the call: locks are only given up, and a
node that changes or goes is woken. -/
structure Kept (list₀ : List Filock) (list : List Filock) (woken : List Addr) : Prop where
  ordered : Ordered list
  shrinks : ∀ o b t, Holds list o b t → Holds list₀ o b t
  wakes : ∀ f ∈ list₀, f ∈ list ∨ (f.stat.wakeflg ≠ 0 → f.addr ∈ woken)

structure Working (list₀ : List Filock) (ld₀ : Flock) (s : Adj) : Prop where
  kept : Kept list₀ s.list s.woken
  owner : s.ld.owner = ld₀.owner
  type : s.ld.lType = ld₀.lType
  range : s.ld.lStart ≤ s.ld.lEnd
  place : s.ld.lType ≠ .unlck → Place s.list s.ld.lStart s.insrtp
  overlay : ∀ o b t, Overlaid s.list s.ld o b t ↔ Overlaid list₀ ld₀ o b t

/-- Before a round: the requester's locks already passed end before the request. -/
structure Progress (list₀ : List Filock) (ld₀ : Flock) (before rest : List Filock) (s : Adj) : Prop
    extends Working list₀ ld₀ s where
  shape : s.list = before ++ rest
  passed : ∀ f ∈ before, f.set.owner = s.ld.owner → f.set.lEnd < s.ld.lStart

/-- After the loop: no lock of the requester meets the request. -/
structure Settled (list₀ : List Filock) (ld₀ : Flock) (s : Adj) : Prop
    extends Working list₀ ld₀ s where
  clear : ∀ f ∈ s.list, f.set.owner = s.ld.owner → f.set.Apart s.ld

def WalkOk (list₀ : List Filock) (ld₀ : Flock) (rest : List Filock) : Walk → Prop
  | .next s => ∃ before, Progress list₀ ld₀ before rest s
  | .stop s => Settled list₀ ld₀ s
  | .ret none s => Kept list₀ s.list s.woken ∧
      ∀ o b t, Holds s.list o b t ↔ Overlaid list₀ ld₀ o b t
  | .ret (some error) s => error = .enolck ∧ Kept list₀ s.list s.woken

section
variable {list₀ : List Filock} {ld₀ : Flock} {before rest : List Filock} {flp : Filock} {s : Adj} {list : List Filock}
  {insrtp : Option Addr} {start last : Int} {addr : Addr} {woken : List Addr} {used : Addr → Prop}

theorem wakes_drop
    (wakes : ∀ f ∈ list₀, f ∈ before ++ flp :: rest ∨ (f.stat.wakeflg ≠ 0 → f.addr ∈ woken))
    (sub : ∀ f ∈ before ++ rest, f ∈ list) :
    ∀ f ∈ list₀, f ∈ list ∨ (f.stat.wakeflg ≠ 0 → f.addr ∈ woken ++ wakeup flp) := by
  intro f member
  rcases wakes f member with kept | woken
  · by_cases same : f = flp
    · subst same
      exact .inr fun marked => by simp [wakeup, marked]
    · refine .inl (sub f ?_)
      simp only [mem_append, mem_cons] at kept ⊢
      tauto
  · exact .inr fun marked => List.mem_append_left _ (woken marked)

/-- `flp` goes and the request becomes `ld`. -/
theorem Working.drop (work : Working list₀ ld₀ s) (shape : s.list = before ++ flp :: rest)
    (mine : flp.set.owner = s.ld.owner) {ld : Flock}
    (owner : ld.owner = s.ld.owner) (type : ld.lType = s.ld.lType)
    (inside : ld.lStart ≤ flp.set.lStart ∧ flp.set.lEnd ≤ ld.lEnd)
    (grown : ld.lStart ≤ s.ld.lStart ∧ s.ld.lEnd ≤ ld.lEnd)
    (only : ∀ b, ld.lStart ≤ b → b ≤ ld.lEnd → (s.ld.lStart ≤ b ∧ b ≤ s.ld.lEnd) ∨
      (flp.set.lStart ≤ b ∧ b ≤ flp.set.lEnd ∧ flp.set.lType = s.ld.lType))
    (place : s.ld.lType ≠ .unlck → Place (before ++ rest) ld.lStart insrtp) :
    Working list₀ ld₀ ⟨before ++ rest, insrtp, ld, s.woken ++ wakeup flp⟩ where
  kept := by
    have kept := work.kept
    rw [shape] at kept
    exact {
      ordered := kept.ordered.drop
      shrinks := fun o b t holds => kept.shrinks o b t ((holds_split _ _ _ _ _ _).mpr (.inr holds))
      wakes := wakes_drop kept.wakes fun _ member => member }
  owner := owner.trans work.owner
  type := type.trans work.type
  range := by
    have := work.range
    change ld.lStart ≤ ld.lEnd
    omega
  place typed := place (by rwa [type] at typed)
  overlay o b t := by
    have ordered := work.kept.ordered
    rw [shape] at ordered
    rw [← work.overlay, shape]
    exact overlaid_drop ordered mine owner type inside grown only o b t

theorem Place.drop (place : Place (before ++ flp :: rest) start insrtp)
    (late : start < flp.set.lStart) : Place (before ++ rest) start insrtp := by
  cases insrtp with
  | none => exact fun f member => place f (by simp at member ⊢; tauto)
  | some addr =>
    obtain ⟨f, member, same, early⟩ := place
    refine ⟨f, ?_, same, early⟩
    simp only [mem_append, mem_cons] at member ⊢
    rcases member with member | rfl | member
    · exact .inl member
    · omega
    · exact .inr member

/-- Behind `flp->prev` a lock that starts where `flp` did finds its place. -/
theorem place_prev (ordered : Ordered (before ++ flp :: rest)) :
    Place (before ++ rest) flp.set.lStart (before.getLast?.map Filock.addr) := by
  cases before using List.reverseRecOn with
  | nil => exact fun f member => ordered.fits.above f member
  | append_singleton init last =>
    simp only [List.getLast?_append, List.getLast?_singleton, Option.some_or, map_some]
    exact ⟨last, by simp, rfl, ordered.fits.below last (by simp)⟩

/-- `flp` without the bytes from `start` on, as `truncate` leaves it. -/
def Filock.cut (flp : Filock) (start : Int) : Filock :=
  { flp with set := { flp.set with lEnd := start - 1 }, stat := { flp.stat with word := 0 } }

/-- The node `splitOff` makes for the bytes of `flp` behind `last`. -/
def Filock.tail (flp : Filock) (last : Int) (addr : Addr) : Filock :=
  ⟨addr, { flp.set with lStart := last + 1 }, ⟨0, 0⟩⟩

section
variable {insrtp : Option Addr} {ld : Flock} {woken : List Addr}

section
variable (absent : flp.addr ∉ addrs before)
include absent

theorem Adj.delete_eq :
    Adj.delete ⟨before ++ flp :: rest, insrtp, ld, woken⟩ flp =
      some ⟨before ++ rest, insrtp, ld, woken ++ wakeup flp⟩ := by
  simp [Adj.delete, delflck_append absent]

theorem Adj.deleteBehind_eq :
    Adj.deleteBehind ⟨before ++ flp :: rest, insrtp, ld, woken⟩ flp =
      some ⟨before ++ rest, before.getLast?.map Filock.addr, ld, woken ++ wakeup flp⟩ := by
  simp only [Adj.deleteBehind, prev_append absent]
  exact Adj.delete_eq absent

theorem Adj.truncate_eq :
    Adj.truncate ⟨before ++ flp :: rest, insrtp, ld, woken⟩ flp =
      some ⟨before ++ flp.cut ld.lStart :: rest, some flp.addr, ld, woken ++ wakeup flp⟩ := by
  simp [Adj.truncate, assign_append _ absent, Filock.cut]

end

theorem Adj.splitOff_eq {used : Addr → Prop} (kmem : Kmem used)
    (ordered : Ordered (before ++ flp :: rest)) (early : flp.set.lStart ≤ ld.lEnd + 1) :
    Adj.splitOff kmem ⟨before ++ flp :: rest, insrtp, ld, woken⟩ flp =
      some ((kmem.zalloc (before ++ flp :: rest)).map fun addr =>
        ⟨before ++ flp :: (rest.takeWhile (fun f => f.set.lStart < ld.lEnd + 1) ++
          flp.tail ld.lEnd addr :: rest.dropWhile fun f => f.set.lStart < ld.lEnd + 1),
        insrtp, ld, woken⟩) := by
  cases found : kmem.zalloc (before ++ flp :: rest) with
  | none => simp [Adj.splitOff, suffixAt_append ordered.absent, found]
  | some addr =>
    have linked := link_scan (flp.tail ld.lEnd addr) ordered early
    simp only [Filock.tail] at linked
    simp [Adj.splitOff, suffixAt_append ordered.absent, found, link, linked, Filock.tail]

end

/-- The requester's lock `flp` loses its bytes inside the request; `front` says
whether it keeps those before, `tail` those behind. -/
theorem Working.fragment (work : Working list₀ ld₀ s) (shape : s.list = before ++ flp :: rest)
    (ordered : Ordered list)
    (holds : ∀ o b t, Holds list o b t ↔ Holds (before ++ rest) o b t ∨
      (flp.set.Covers o b t ∧ ¬ (s.ld.lStart ≤ b ∧ b ≤ s.ld.lEnd)))
    (mine : flp.set.owner = s.ld.owner) (sub : ∀ f ∈ before ++ rest, f ∈ list)
    (place : s.ld.lType ≠ .unlck → Place list s.ld.lStart insrtp) :
    Working list₀ ld₀ ⟨list, insrtp, s.ld, s.woken ++ wakeup flp⟩ where
  kept := by
    have kept := work.kept
    rw [shape] at kept
    refine ⟨ordered, fun o b t held => kept.shrinks o b t ?_, wakes_drop kept.wakes sub⟩
    rw [holds_split]
    rcases (holds o b t).mp held with held | held
    · exact .inr held
    · exact .inl held.1
  owner := work.owner
  type := work.type
  range := work.range
  place := place
  overlay o b t := by
    rw [← work.overlay, shape]
    refine overlaid_congr (fun o b t away => ?_) o b t
    rw [holds, holds_split]
    constructor
    · rintro (held | held)
      · exact .inr held
      · exact .inl held.1
    · rintro (covers | held)
      · refine .inr ⟨covers, fun inside => away ⟨covers.1.symm.trans mine, inside⟩⟩
      · exact .inl held

theorem Fits.cut (fits : Fits flp before rest) (front : flp.set.lStart < start)
    (meets : start ≤ flp.set.lEnd + 1) : Fits (flp.cut start) before rest where
  below := fits.below
  above := fits.above
  apart f member same := by
    have apart := fits.apart f member same
    simp only [Flock.Apart, Filock.cut] at apart ⊢
    omega
  range := by
    simp only [Filock.cut]
    omega
  kind := fits.kind
  fresh := fits.fresh

theorem covers_cut (ends : flp.set.lEnd ≤ last)
    (meets : start ≤ flp.set.lEnd + 1) (o : Owner) (b : Int) (t : LockType) :
    (flp.cut start).set.Covers o b t ↔ flp.set.Covers o b t ∧ ¬ (start ≤ b ∧ b ≤ last) := by
  simp only [Flock.Covers, Filock.cut, Flock.owner]
  constructor
  · rintro ⟨owner, low, high, type⟩
    exact ⟨⟨owner, low, by omega, type⟩, by omega⟩
  · rintro ⟨⟨owner, low, high, type⟩, outside⟩
    exact ⟨owner, low, by omega, type⟩

/-- The nodes behind `flp`, split where the piece behind the request goes. -/
theorem Ordered.tail_fits (ordered : Ordered (before ++ flp :: rest))
    (early : flp.set.lStart ≤ last + 1) (ends : last < flp.set.lEnd)
    (fresh : addr ∉ addrs (before ++ flp :: rest)) :
    Fits (flp.tail last addr) (before ++ rest.takeWhile fun f => f.set.lStart < last + 1)
      (rest.dropWhile fun f => f.set.lStart < last + 1) where
  below f member := by
    rcases mem_append.mp member with member | member
    · have := ordered.fits.below f member
      simp only [Filock.tail]
      omega
    · have := takeWhile_start member
      simp only [Filock.tail]
      omega
  above f member :=
    Ordered.dropWhile_start (last + 1)
      (List.pairwise_cons.mp (List.pairwise_append.mp ordered.sorted).2.1).2 member
  apart f member same := by
    rw [append_assoc, takeWhile_append_dropWhile] at member
    have apart := ordered.fits.apart f member same
    simp only [Flock.Apart, Filock.tail] at apart ⊢
    omega
  range := by
    simp only [Filock.tail]
    omega
  kind := ordered.fits.kind
  fresh := by
    rw [append_assoc, takeWhile_append_dropWhile]
    simp only [addrs, List.map_append, List.map_cons, mem_append, mem_cons, not_or] at fresh ⊢
    exact ⟨fresh.1, fresh.2.2⟩

theorem holds_tail (last : Int) (addr : Addr) (o : Owner) (b : Int) (t : LockType) :
    Holds (before ++ (rest.takeWhile (fun f => f.set.lStart < last + 1) ++
        flp.tail last addr :: rest.dropWhile fun f => f.set.lStart < last + 1)) o b t ↔
      (flp.tail last addr).set.Covers o b t ∨ Holds (before ++ rest) o b t := by
  rw [← append_assoc, holds_split, append_assoc, takeWhile_append_dropWhile]

theorem Ordered.tail (ordered : Ordered (before ++ flp :: rest))
    (early : flp.set.lStart ≤ last + 1) (ends : last < flp.set.lEnd)
    (fresh : addr ∉ addrs (before ++ flp :: rest)) :
    Ordered (before ++ (rest.takeWhile (fun f => f.set.lStart < last + 1) ++
      flp.tail last addr :: rest.dropWhile fun f => f.set.lStart < last + 1)) := by
  rw [← append_assoc]
  refine Ordered.insert ?_ (ordered.tail_fits early ends fresh)
  rw [append_assoc, takeWhile_append_dropWhile]
  exact ordered.drop

theorem mem_tail {last : Int} {addr : Addr} {f : Filock} :
    f ∈ before ++ (rest.takeWhile (fun f => f.set.lStart < last + 1) ++
        flp.tail last addr :: rest.dropWhile fun f => f.set.lStart < last + 1) ↔
      f ∈ before ++ rest ∨ f = flp.tail last addr := by
  have split := takeWhile_append_dropWhile (p := fun f : Filock => f.set.lStart < last + 1) (l := rest)
  constructor
  · intro member
    simp only [mem_append, mem_cons] at member
    rw [← split]
    simp only [mem_append]
    tauto
  · intro member
    rw [← split] at member
    simp only [mem_append, mem_cons] at member ⊢
    tauto

/-! ## One round -/

/-- When `flp` ends behind the request, so do all later locks of the requester. -/
theorem Progress.clear (progress : Progress list₀ ld₀ before (flp :: rest) s)
    (mine : flp.set.owner = s.ld.owner) {last : Int} (ends : last ≤ flp.set.lEnd) {f : Filock}
    (member : f ∈ before ++ rest) (same : f.set.owner = s.ld.owner) :
    f.set.lEnd < s.ld.lStart ∨ last < f.set.lStart := by
  have ordered := progress.kept.ordered
  rw [progress.shape] at ordered
  rcases mem_append.mp member with member | member
  · exact .inl (progress.passed f member same)
  · have := ordered.ahead member (same.trans mine.symm)
    omega

section
variable (progress : Progress list₀ ld₀ before (flp :: rest) s)
include progress

section
variable (mine : flp.set.owner = s.ld.owner)
include mine

theorem Progress.already
    (same : s.ld.lType = flp.set.lType)
    (inside : flp.set.lStart ≤ s.ld.lStart ∧ s.ld.lEnd ≤ flp.set.lEnd) (o : Owner) (b : Int)
    (t : LockType) : Holds s.list o b t ↔ Overlaid list₀ ld₀ o b t := by
  have ordered := progress.kept.ordered
  rw [← progress.overlay]
  unfold Overlaid
  split
  · next here =>
    have member : flp ∈ s.list := by simp [progress.shape]
    have covered : Holds s.list o b flp.set.lType :=
      ⟨flp, member, mine.trans here.1.symm, by omega, by omega, rfl⟩
    have kind := ordered.kind flp member
    constructor
    · intro holds
      have type := ordered.holds_unique covered holds
      subst type
      refine ⟨same, ?_⟩
      rcases kind with kind | kind <;> simp [kind]
    · rintro ⟨rfl, _⟩
      rw [same]
      exact covered
  · rfl

/-- Delete `flp` under a request that does not start behind it, and leave the loop. -/
theorem Progress.stop_delete
    (late : s.ld.lStart < flp.set.lStart)
    (meets : flp.set.lStart ≤ s.ld.lEnd + 1) (ends : s.ld.lEnd ≤ flp.set.lEnd)
    (same : s.ld.lType = flp.set.lType) :
    Settled list₀ ld₀ ⟨before ++ rest, s.insrtp, { s.ld with lEnd := flp.set.lEnd },
      s.woken ++ wakeup flp⟩ := by
  have ordered := progress.kept.ordered
  rw [progress.shape] at ordered
  refine ⟨progress.toWorking.drop progress.shape mine rfl rfl ⟨Int.le_of_lt late, Int.le_refl _⟩
    ⟨Int.le_refl _, ends⟩ ?_ ?_, ?_⟩
  · intro b low high
    by_cases inside : b ≤ s.ld.lEnd
    · exact .inl ⟨low, inside⟩
    · exact .inr ⟨by omega, high, same.symm⟩
  · intro typed
    have place := progress.place typed
    rw [progress.shape] at place
    exact place.drop late
  · intro f member owner
    exact progress.clear mine (Int.le_refl _) member owner

/-- Delete `flp` inside the request and go on. -/
theorem Progress.next_delete

    (inside : s.ld.lStart ≤ flp.set.lStart ∧ flp.set.lEnd ≤ s.ld.lEnd)
    (place : s.ld.lType ≠ .unlck → Place (before ++ rest) s.ld.lStart insrtp) :
    Progress list₀ ld₀ before rest ⟨before ++ rest, insrtp, s.ld, s.woken ++ wakeup flp⟩ where
  toWorking := progress.toWorking.drop progress.shape mine rfl rfl inside
    ⟨Int.le_refl _, Int.le_refl _⟩
    (fun _ low high => .inl ⟨low, high⟩) place
  shape := rfl
  passed := progress.passed

/-- Take over the lock `flp` that the request continues, and go on. -/
theorem Progress.next_join
    (early : flp.set.lStart < s.ld.lStart)
    (meets : s.ld.lStart ≤ flp.set.lEnd + 1) (ends : flp.set.lEnd ≤ s.ld.lEnd)
    (same : s.ld.lType = flp.set.lType) :
    Progress list₀ ld₀ before rest ⟨before ++ rest, before.getLast?.map Filock.addr,
      { s.ld with lStart := flp.set.lStart }, s.woken ++ wakeup flp⟩ := by
  have ordered := progress.kept.ordered
  rw [progress.shape] at ordered
  refine ⟨progress.toWorking.drop progress.shape mine rfl rfl ⟨Int.le_refl _, ends⟩
    ⟨Int.le_of_lt early, Int.le_refl _⟩ ?_ ?_, rfl, ?_⟩
  · intro b low high
    by_cases inside : s.ld.lStart ≤ b
    · exact .inl ⟨inside, high⟩
    · exact .inr ⟨low, by omega, same.symm⟩
  · exact fun _ => place_prev ordered
  · intro f member owner
    exact ordered.passed member (owner.trans mine.symm)

/-- Cut the end of `flp` off and go on. -/
theorem Progress.next_cut
    (early : flp.set.lStart < s.ld.lStart)
    (meets : s.ld.lStart ≤ flp.set.lEnd) (ends : flp.set.lEnd ≤ s.ld.lEnd) :
    Progress list₀ ld₀ (before ++ [flp.cut s.ld.lStart]) rest
      ⟨before ++ flp.cut s.ld.lStart :: rest, some flp.addr, s.ld, s.woken ++ wakeup flp⟩ := by
  have ordered := progress.kept.ordered
  rw [progress.shape] at ordered
  have fits := ordered.fits.cut early (by omega)
  refine ⟨progress.toWorking.fragment progress.shape (ordered.drop.insert fits) ?_ mine ?_ ?_, by simp, ?_⟩
  · intro o b t
    rw [holds_split, covers_cut ends (by omega), or_comm]
  · intro f member
    simp only [mem_append, mem_cons] at member ⊢
    tauto
  · exact fun _ => ⟨flp.cut s.ld.lStart, by simp, rfl, Int.le_of_lt early⟩
  · intro f member owner
    rcases mem_append.mp member with member | member
    · exact progress.passed f member owner
    · rw [List.mem_singleton.mp member]
      simp only [Filock.cut]
      omega

/-- Keep only the piece of `flp` behind the request. -/
theorem Progress.stop_tail
    (late : s.ld.lStart ≤ flp.set.lStart)
    (meets : flp.set.lStart ≤ s.ld.lEnd) (ends : s.ld.lEnd < flp.set.lEnd)
    (fresh : addr ∉ addrs s.list)
    (place : s.ld.lType ≠ .unlck → Place (before ++ rest) s.ld.lStart insrtp) :
    Settled list₀ ld₀ ⟨before ++ (rest.takeWhile (fun f => f.set.lStart < s.ld.lEnd + 1) ++
        flp.tail s.ld.lEnd addr :: rest.dropWhile fun f => f.set.lStart < s.ld.lEnd + 1),
      insrtp, s.ld, s.woken ++ wakeup flp⟩ := by
  have ordered := progress.kept.ordered
  rw [progress.shape] at ordered fresh
  refine ⟨progress.toWorking.fragment progress.shape
    (ordered.tail (by omega) ends fresh) ?_ mine ?_ ?_, ?_⟩
  · intro o b t
    rw [holds_tail, or_comm]
    refine or_congr_right ?_
    simp only [Flock.Covers, Filock.tail, Flock.owner]
    constructor
    · rintro ⟨owner, low, high, type⟩
      exact ⟨⟨owner, by omega, high, type⟩, by omega⟩
    · rintro ⟨⟨owner, low, high, type⟩, outside⟩
      exact ⟨owner, by omega, high, type⟩
  · exact fun f member => mem_tail.mpr (.inl member)
  · intro typed
    have place := place typed
    cases insrtp with
    | none =>
      intro f member
      rcases mem_tail.mp member with member | rfl
      · exact place f member
      · simp only [Filock.tail]
        have := progress.range
        omega
    | some a =>
      obtain ⟨f, member, same, early⟩ := place
      exact ⟨f, mem_tail.mpr (.inl member), same, early⟩
  · intro f member owner
    rcases mem_tail.mp member with member | rfl
    · exact progress.clear mine (Int.le_of_lt ends) member owner
    · exact .inr (by simp only [Filock.tail]; omega)

/-- Keep the two pieces of `flp` around the request. -/
theorem Progress.stop_split
    (early : flp.set.lStart < s.ld.lStart)
    (ends : s.ld.lEnd < flp.set.lEnd) (fresh : addr ∉ addrs s.list) :
    Settled list₀ ld₀ ⟨before ++ flp.cut s.ld.lStart ::
        (rest.takeWhile (fun f => f.set.lStart < s.ld.lEnd + 1) ++
          flp.tail s.ld.lEnd addr :: rest.dropWhile fun f => f.set.lStart < s.ld.lEnd + 1),
      some flp.addr, s.ld, s.woken ++ wakeup flp⟩ := by
  have ordered := progress.kept.ordered
  have range := progress.range
  rw [progress.shape] at ordered fresh
  have tailed := ordered.tail (by omega) ends fresh
  have cut := ordered.fits.cut early (by omega)
  have fits : Fits (flp.cut s.ld.lStart) before
      (rest.takeWhile (fun f => f.set.lStart < s.ld.lEnd + 1) ++
        flp.tail s.ld.lEnd addr :: rest.dropWhile fun f => f.set.lStart < s.ld.lEnd + 1) := by
    refine ⟨cut.below, ?_, ?_, cut.range, cut.kind, ?_⟩
    · intro f member
      rcases ((@mem_tail [])).mp member with member | rfl
      · exact cut.above f member
      · simp only [Filock.tail, Filock.cut]
        omega
    · intro f member owner
      rcases mem_tail.mp member with member | rfl
      · exact cut.apart f member owner
      · simp only [Flock.Apart, Filock.tail, Filock.cut]
        omega
    · intro member
      obtain ⟨f, member, same⟩ := List.mem_map.mp member
      rcases mem_tail.mp member with member | rfl
      · exact cut.fresh (List.mem_map.mpr ⟨f, member, same⟩)
      · refine fresh ?_
        simp only [Filock.tail, Filock.cut] at same
        simp [addrs, same]
  refine ⟨progress.toWorking.fragment progress.shape (tailed.insert fits) ?_ mine ?_ ?_, ?_⟩
  · intro o b t
    rw [holds_split, holds_tail, ← or_assoc, or_comm]
    refine or_congr_right ?_
    simp only [Flock.Covers, Filock.tail, Filock.cut, Flock.owner]
    constructor
    · rintro (⟨owner, low, high, type⟩ | ⟨owner, low, high, type⟩)
      · exact ⟨⟨owner, low, by omega, type⟩, by omega⟩
      · exact ⟨⟨owner, by omega, high, type⟩, by omega⟩
    · rintro ⟨⟨owner, low, high, type⟩, outside⟩
      by_cases below : b < s.ld.lStart
      · exact .inl ⟨owner, low, by omega, type⟩
      · exact .inr ⟨owner, by omega, high, type⟩
  · intro f member
    have tailed := ((@mem_tail _ _ flp s.ld.lEnd addr)).mpr (.inl member)
    simp only [mem_append, mem_cons] at tailed ⊢
    tauto
  · exact fun _ => ⟨flp.cut s.ld.lStart, by simp, rfl, Int.le_of_lt early⟩
  · intro f member owner
    have cases : f = flp.cut s.ld.lStart ∨ f ∈ before ++ rest ∨ f = flp.tail s.ld.lEnd addr := by
      rw [← mem_tail]
      simp only [mem_append, mem_cons] at member ⊢
      tauto
    rcases cases with rfl | member | rfl
    · exact .inl (by simp only [Filock.cut]; omega)
    · exact progress.clear mine (Int.le_of_lt ends) member owner
    · exact .inr (by simp only [Filock.tail]; omega)

theorem Progress.stop_here
    (late : s.ld.lEnd < flp.set.lStart) : Settled list₀ ld₀ s := by
  have ordered := progress.kept.ordered
  rw [progress.shape] at ordered
  have range := ordered.fits.range
  refine ⟨progress.toWorking, fun f member owner => ?_⟩
  rw [progress.shape] at member
  by_cases same : f = flp
  · exact .inr (same ▸ late)
  · refine progress.clear mine (by omega) ?_ owner
    simp only [mem_append, mem_cons] at member ⊢
    tauto

end

theorem Progress.next_skip
    (early : flp.set.lEnd < s.ld.lStart)
    (place : s.ld.lType ≠ .unlck → Place s.list s.ld.lStart insrtp) :
    Progress list₀ ld₀ (before ++ [flp]) rest { s with insrtp } where
  toWorking := ⟨progress.kept, progress.owner, progress.type, progress.range, place, progress.overlay⟩
  shape := by simp [progress.shape]
  passed f member owner := by
    rcases mem_append.mp member with member | member
    · exact progress.passed f member owner
    · rwa [List.mem_singleton.mp member]

end

theorem adjust_ok (kmem : Kmem used)
    (progress : Progress list₀ ld₀ before (flp :: rest) s) (mine : flp.set.owner = s.ld.owner) :
    ∃ walk, adjust kmem flp s = some walk ∧ WalkOk list₀ ld₀ rest walk := by
  obtain ⟨list, insrtp, ld, woken⟩ := s
  obtain rfl : list = before ++ flp :: rest := progress.shape
  have ordered : Ordered (before ++ flp :: rest) := progress.kept.ordered
  have absent := ordered.absent
  have range : ld.lStart ≤ ld.lEnd := progress.range
  have held := ordered.fits.range
  have order := regflck_order range held
  have place (late : ld.lStart < flp.set.lStart) (typed : ld.lType ≠ .unlck) :
      Place (before ++ rest) ld.lStart insrtp :=
    (progress.place typed).drop late
  have prior (start : ld.lStart = flp.set.lStart) (_ : ld.lType ≠ .unlck) :
      Place (before ++ rest) ld.lStart (before.getLast?.map Filock.addr) :=
    start ▸ place_prev ordered
  have fresh {addr : Addr} (found : kmem.zalloc (before ++ flp :: rest) = some addr) :=
    (kmem.fresh found).1
  unfold adjust
  dsimp only
  generalize region : regflck ld flp.set = pair at order
  obtain ⟨first, last⟩ := pair
  cases first <;> cases last <;> simp only [RegionOrder] at order <;> dsimp only
  case before.before => exact ⟨_, rfl, progress.stop_here mine (by simp only; omega)⟩
  case before.start =>
    by_cases same : ld.lType = flp.set.lType
    · rw [if_pos same, Adj.delete_eq absent]
      exact ⟨_, rfl, progress.stop_delete mine (by simp only; omega) (by simp only; omega)
        (by simp only; omega) same⟩
    · rw [if_neg same]
      exact ⟨_, rfl, progress.stop_here mine (by simp only; omega)⟩
  case before.middle =>
    by_cases same : ld.lType = flp.set.lType
    · rw [if_pos same, Adj.delete_eq absent]
      exact ⟨_, rfl, progress.stop_delete mine (by simp only; omega) (by simp only; omega)
        (by simp only; omega) same⟩
    · rw [if_neg same, Adj.splitOff_eq kmem ordered (by omega)]
      cases found : kmem.zalloc (before ++ flp :: rest) with
      | none => exact ⟨_, rfl, rfl, progress.kept⟩
      | some addr =>
        simp only [map_some, bind_eq_bind, bind_some, Adj.delete_eq absent]
        exact ⟨_, rfl, progress.stop_tail mine (by simp only; omega) (by simp only; omega)
          (by simp only; omega) (fresh found) (place order.1)⟩
  case before.end =>
    rw [Adj.delete_eq absent]
    by_cases same : ld.lType = flp.set.lType
    · have settled := progress.stop_delete mine (by simp only; omega) (by simp only; omega)
        (by simp only; omega) same
      simp only [if_pos same]
      rw [← order.2] at settled
      exact ⟨_, rfl, settled⟩
    · simp only [if_neg same]
      exact ⟨_, rfl, before, progress.next_delete mine ⟨by simp only; omega, by simp only; omega⟩
        (place order.1)⟩
  case before.after =>
    rw [Adj.delete_eq absent]
    exact ⟨_, rfl, before, progress.next_delete mine ⟨by simp only; omega, by simp only; omega⟩
      (place order.1)⟩
  case start.middle =>
    by_cases same : ld.lType = flp.set.lType
    · rw [if_pos same]
      exact ⟨_, rfl, progress.kept, progress.already mine same ⟨by simp only; omega, by simp only; omega⟩⟩
    · rw [if_neg same, Adj.splitOff_eq kmem ordered (by omega), prev_append absent]
      cases found : kmem.zalloc (before ++ flp :: rest) with
      | none => exact ⟨_, rfl, rfl, progress.kept⟩
      | some addr =>
        simp only [map_some, bind_eq_bind, bind_some, Adj.delete_eq absent]
        exact ⟨_, rfl, progress.stop_tail mine (by simp only; omega) (by simp only; omega)
          (by simp only; omega) (fresh found) (prior order.1)⟩
  case start.end =>
    by_cases same : ld.lType = flp.set.lType
    · rw [if_pos same]
      exact ⟨_, rfl, progress.kept, progress.already mine same ⟨by simp only; omega, by simp only; omega⟩⟩
    · rw [if_neg same, Adj.deleteBehind_eq absent]
      exact ⟨_, rfl, before, progress.next_delete mine ⟨by simp only; omega, by simp only; omega⟩
        (prior order.1)⟩
  case start.after =>
    rw [Adj.deleteBehind_eq absent]
    exact ⟨_, rfl, before, progress.next_delete mine ⟨by simp only; omega, by simp only; omega⟩
      (prior order.1)⟩
  case middle.middle =>
    by_cases same : ld.lType = flp.set.lType
    · rw [if_pos same]
      exact ⟨_, rfl, progress.kept, progress.already mine same ⟨by simp only; omega, by simp only; omega⟩⟩
    · rw [if_neg same, Adj.splitOff_eq kmem ordered (by omega)]
      cases found : kmem.zalloc (before ++ flp :: rest) with
      | none => exact ⟨_, rfl, rfl, progress.kept⟩
      | some addr =>
        simp only [map_some, bind_eq_bind, bind_some, Adj.truncate_eq absent]
        exact ⟨_, rfl, progress.stop_split mine order.1 order.2 (fresh found)⟩
  case middle.end =>
    by_cases same : ld.lType = flp.set.lType
    · rw [if_pos same]
      exact ⟨_, rfl, progress.kept, progress.already mine same ⟨by simp only; omega, by simp only; omega⟩⟩
    · rw [if_neg same, Adj.truncate_eq absent]
      exact ⟨_, rfl, _, progress.next_cut mine order.1 order.2.1 (by simp only; omega)⟩
  case middle.after =>
    by_cases same : ld.lType = flp.set.lType
    · rw [if_pos same, Adj.deleteBehind_eq absent]
      exact ⟨_, rfl, before, progress.next_join mine order.1 (by simp only; omega) (by simp only; omega) same⟩
    · rw [if_neg same, Adj.truncate_eq absent]
      exact ⟨_, rfl, _, progress.next_cut mine order.1 order.2.1 (by simp only; omega)⟩
  case end.after =>
    by_cases same : ld.lType = flp.set.lType
    · rw [if_pos same, Adj.deleteBehind_eq absent]
      exact ⟨_, rfl, before, progress.next_join mine order.1 (by simp only; omega) (by simp only; omega) same⟩
    · rw [if_neg same]
      exact ⟨_, rfl, _, progress.next_skip (by simp only; omega) progress.place⟩
  case after.after =>
    exact ⟨_, rfl, _, progress.next_skip (by simp only; omega)
      fun _ => ⟨flp, by simp, rfl, by simp only; omega⟩⟩

/-! ## The whole walk -/

/-- What the loop hands to the rest of `flckadj`. -/
def LoopOk (list₀ : List Filock) (ld₀ : Flock) : Walk → Prop
  | .ret retval s => WalkOk list₀ ld₀ [] (.ret retval s)
  | .next _ => False
  | .stop s => Settled list₀ ld₀ s

theorem Progress.next_other (progress : Progress list₀ ld₀ before (flp :: rest) s)
    (other : flp.set.owner ≠ s.ld.owner) : Progress list₀ ld₀ (before ++ [flp]) rest s where
  toWorking := progress.toWorking
  shape := by simp [progress.shape]
  passed f member owner := by
    rcases mem_append.mp member with member | member
    · exact progress.passed f member owner
    · exact absurd (List.mem_singleton.mp member ▸ owner) other

theorem adjustFrom_ok (kmem : Kmem used) (nodes : List Filock)
    (progress : Progress list₀ ld₀ before nodes s) :
    ∃ walk, adjustFrom kmem nodes s = some walk ∧ LoopOk list₀ ld₀ walk := by
  induction nodes generalizing before s with
  | nil =>
    refine ⟨_, rfl, progress.toWorking, fun f member owner => ?_⟩
    exact Or.inl (progress.passed f (by simpa [progress.shape] using member) owner)
  | cons flp rest ih =>
    by_cases mine : sameowner flp.set s.ld
    · obtain ⟨walk, adjusted, ok⟩ := adjust_ok kmem progress ((sameowner_iff _ _).mp mine)
      simp only [adjustFrom, if_pos mine, adjusted, bind_eq_bind, bind_some]
      match walk, ok with
      | .next s, ⟨_, progress⟩ => exact ih progress
      | .stop s, settled => exact ⟨_, rfl, settled⟩
      | .ret none s, ok => exact ⟨_, rfl, ok⟩
      | .ret (some error) s, ok => exact ⟨_, rfl, ok⟩
    · simp only [adjustFrom, if_neg mine]
      exact ih (progress.next_other fun owner => mine ((sameowner_iff _ _).mpr owner))

/-- What `flckadj` has done when it returns. -/
structure AdjustedOk (list₀ : List Filock) (ld₀ : Flock) (result : Adjusted) : Prop where
  ordered : Ordered result.list
  wakes : ∀ f ∈ list₀, f ∈ result.list ∨ (f.stat.wakeflg ≠ 0 → f.addr ∈ result.woken)
  done : result.retval = none → ∀ o b t, Holds result.list o b t ↔ Overlaid list₀ ld₀ o b t
  failed : result.retval ≠ none → ∀ o b t, Holds result.list o b t → Holds list₀ o b t
  error : result.retval = none ∨ result.retval = some .enolck

theorem Kept.failed (kept : Kept list₀ list woken)
    (ld : Flock) : AdjustedOk list₀ ld₀ ⟨some .enolck, list, ld, woken⟩ :=
  ⟨kept.ordered, kept.wakes, nofun, fun _ => kept.shrinks, .inr rfl⟩

/-- Link the request between `before` and `rest`. -/
theorem Settled.insert (settled : Settled list₀ ld₀ s) (shape : s.list = before ++ rest)
    (below : ∀ f ∈ before, f.set.lStart ≤ s.ld.lStart) (above : ∀ f ∈ rest, s.ld.lStart ≤ f.set.lStart)
    (kind : s.ld.lType = .rdlck ∨ s.ld.lType = .wrlck) {addr : Addr} (fresh : addr ∉ addrs s.list) :
    AdjustedOk list₀ ld₀ ⟨none, before ++ ⟨addr, s.ld, ⟨0, 0⟩⟩ :: rest, s.ld, s.woken⟩ where
  ordered := by
    have ordered := settled.kept.ordered
    have clear := settled.clear
    rw [shape] at ordered clear fresh
    exact ordered.insert ⟨below, above, clear, settled.range, kind, fresh⟩
  wakes f member := by
    rcases settled.kept.wakes f member with kept | woken
    · rw [shape] at kept
      simp only [mem_append, mem_cons] at kept ⊢
      tauto
    · exact .inr woken
  done _ o b t := by
    rw [holds_split, ← shape, ← settled.overlay]
    unfold Overlaid
    split
    · next here =>
      constructor
      · rintro (⟨_, _, _, rfl⟩ | ⟨f, member, owner, low, high, _⟩)
        · exact ⟨rfl, by rcases kind with kind | kind <;> simp [kind]⟩
        · have apart := settled.clear f member (owner.trans here.1)
          unfold Flock.Apart at apart
          omega
      · rintro ⟨rfl, _⟩
        exact .inl ⟨here.1.symm, here.2.1, here.2.2, rfl⟩
    · next away =>
      refine ⟨fun holds => holds.resolve_left ?_, .inr⟩
      rintro ⟨owner, low, high, _⟩
      exact away ⟨owner.symm, low, high⟩
  failed := by simp
  error := .inl rfl

theorem Settled.finish {used : Addr → Prop} (kmem : Kmem used) (settled : Settled list₀ ld₀ s)
    (kind : ld₀.lType = .rdlck ∨ ld₀.lType = .wrlck ∨ ld₀.lType = .unlck) :
    ∃ result, s.finish kmem = some result ∧ AdjustedOk list₀ ld₀ result := by
  have ordered := settled.kept.ordered
  by_cases unlock : s.ld.lType = .unlck
  · refine ⟨⟨none, s.list, s.ld, s.woken⟩, by simp [Adj.finish, unlock], ordered,
      settled.kept.wakes, ?_, by simp, .inl rfl⟩
    -- An unlock only clears: no lock of the requester is left inside the request.
    intro _ o b t
    rw [← settled.overlay]
    unfold Overlaid
    split
    · next here =>
      constructor
      · rintro ⟨f, member, owner, low, high, _⟩
        have apart := settled.clear f member (owner.trans here.1)
        unfold Flock.Apart at apart
        omega
      · rintro ⟨rfl, typed⟩
        exact absurd unlock typed
    · rfl
  · have typed : s.ld.lType = .rdlck ∨ s.ld.lType = .wrlck := by
      rw [settled.type] at unlock ⊢
      tauto
    have place := settled.place unlock
    simp only [Adj.finish, if_neg unlock]
    cases where_ : s.insrtp with
    | none =>
      rw [where_] at place
      cases found : kmem.zalloc s.list with
      | none => exact ⟨⟨some .enolck, s.list, s.ld, s.woken⟩, by simp [found], settled.kept.failed _⟩
      | some addr =>
        refine ⟨⟨none, ⟨addr, s.ld, ⟨0, 0⟩⟩ :: s.list, s.ld, s.woken⟩, by simp [found, link], ?_⟩
        exact (@Settled.insert _ _ []) settled rfl (by simp) place typed (kmem.fresh found).1
    | some addr =>
      rw [where_] at place
      obtain ⟨node, member, rfl, early⟩ := place
      obtain ⟨before, rest, shape⟩ := List.append_of_mem member
      rw [shape] at ordered
      simp only [shape, suffixAt_append ordered.absent, bind_eq_bind, bind_some,
        Option.pure_def]
      cases found : kmem.zalloc (before ++ node :: rest) with
      | none =>
        refine ⟨⟨some .enolck, before ++ node :: rest, s.ld, s.woken⟩, by simp [found], ?_⟩
        rw [← shape]
        exact settled.kept.failed _
      | some new =>
        refine ⟨⟨none, _, s.ld, s.woken⟩, by simp [found, link, link_scan _ ordered early]; rfl, ?_⟩
        have linked := (@Settled.insert _ _ (before ++ node :: rest.takeWhile fun f => f.set.lStart < s.ld.lStart) (rest.dropWhile fun f => f.set.lStart < s.ld.lStart)) settled
          (by simp [shape, takeWhile_append_dropWhile]) ?_ ?_ typed (shape ▸ (kmem.fresh found).1)
        · simpa using linked
        · intro f member
          rcases mem_append.mp member with member | member
          · have := ordered.fits.below f member
            omega
          · rcases mem_cons.mp member with rfl | member
            · exact early
            · exact Int.le_of_lt (takeWhile_start member)
        · intro f member
          exact Ordered.dropWhile_start _
            (List.pairwise_cons.mp (List.pairwise_append.mp ordered.sorted).2.1).2 member

end

/-- The walk of `flckadj` may begin at any node before which no lock of the
requester reaches the request. -/
theorem flckadj_ok {used : Addr → Prop} (kmem : Kmem used) {list before nodes : List Filock} {ld : Flock}
    {insrtp : Option Addr} (ordered : Ordered list) (range : ld.lStart ≤ ld.lEnd)
    (kind : ld.lType = .rdlck ∨ ld.lType = .wrlck ∨ ld.lType = .unlck)
    (shape : list = before ++ nodes) (begins : visited list insrtp = some nodes)
    (passed : ∀ f ∈ before, f.set.owner = ld.owner → f.set.lEnd < ld.lStart)
    (place : ld.lType ≠ .unlck → Place list ld.lStart insrtp) :
    ∃ result, flckadj kmem list insrtp ld = some result ∧ AdjustedOk list ld result := by
  have progress : Progress list ld before nodes ⟨list, insrtp, ld, []⟩ :=
    ⟨⟨⟨ordered, fun _ _ _ holds => holds, fun f member => .inl member⟩, rfl, rfl, range, place,
      fun _ _ _ => Iff.rfl⟩, shape, passed⟩
  obtain ⟨walk, adjusted, ok⟩ := adjustFrom_ok kmem nodes progress
  simp only [flckadj, begins, adjusted, bind_eq_bind, bind_some]
  cases walk with
  | next s => cases ok
  | stop s =>
    have settled : Settled list ld s := ok
    exact settled.finish kmem kind
  | ret error s =>
    cases error with
    | none =>
      obtain ⟨kept, same⟩ := ok
      exact ⟨_, rfl, kept.ordered, kept.wakes, fun _ => same, by simp, .inl rfl⟩
    | some _ =>
      obtain ⟨rfl, kept⟩ := ok
      exact ⟨_, rfl, kept.failed _⟩

end Svr4.RecordLock
