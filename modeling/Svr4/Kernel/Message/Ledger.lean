import Svr4.Foundation.Placement
import Svr4.Kernel.Message.System
import Svr4.Kernel.Rmap.Units

/-! Where the headers and the segments are.

A ledger has the free list, the queues and what the senders have in hand. `Sound`
says that the tables hold it; the parts of the calls move one header at a time from
one place to another and give or take its text.
-/

namespace Svr4.Message

open Words Ipc
open Function (update update_self update_of_ne)

attribute [local simp] Kernel.next

/-- Units of the map: `size` of them from `base` on. -/
structure Span where
  base : Nat
  size : Nat
  deriving DecidableEq, Repr

def Span.Has (span : Span) (unit : Nat) : Prop := span.base ≤ unit ∧ unit < span.base + span.size

theorem Span.Has.size_pos {span : Span} {unit : Nat} (has : span.Has unit) : 0 < span.size := by
  unfold Has at has
  omega

/-- A header that a sender has taken, with its text. -/
structure Draft where
  mp : Nat
  text : Span
  deriving DecidableEq, Repr

inductive Place where
  | free
  | queue (q : Nat)
  | hand (slot : Slot)
  deriving DecidableEq, Repr

structure Ledger where
  free : List Nat
  queue : Nat → List Nat
  hand : Slot → Option Draft
  place : Nat → Place
  text : Nat → Span
  live : List Rmap.Entry

def Ledger.Holds (l : Ledger) : Place → Nat → Prop
  | .free, h => h ∈ l.free
  | .queue q, h => h ∈ l.queue q
  | .hand slot, h => ∃ draft, l.hand slot = some draft ∧ draft.mp = h

attribute [local simp] Ledger.Holds

/-- The segments of a message on a queue. -/
def Msg.text (info : Msginfo) (m : Msg) : Span := ⟨(m.msgSpot + 1).toNat, btoq info m.msgTs⟩

/-- The queue is the list. -/
structure Listed (next : Nat → Option Nat) (qp : MsqidDs) (list : List Nat) : Prop
    extends Fifo next qp.msgFirst qp.msgLast list where
  qnum : qp.msgQnum = toUlong list.length

structure Sound (info : Msginfo) (k : Kernel) (l : Ledger) : Prop where
  freeChain : Chain k.next k.msgfp l.free
  queues : ∀ q, Listed k.next (k.msgque q) (l.queue q)
  placed : Placed (· < info.msgtql) l.Holds l.place
  bare : ∀ h, l.place h = .free → (l.text h).size = 0
  queueText : ∀ q, ∀ h ∈ l.queue q, (k.msgh h).msgTs ≤ 65535 ∧ l.text h = (k.msgh h).text info
  handText : ∀ slot draft, l.hand slot = some draft → l.text draft.mp = draft.text
  apart : ∀ h h' unit, (l.text h).Has unit → (l.text h').Has unit → h = h'
  room : ∀ h unit, (l.text h).Has unit → 0 < unit ∧ unit ≤ info.msgseg ∧ ¬ Rmap.Free l.live unit
  table : Rmap.Table k.msgmap l.live
  within : ∀ unit, Rmap.Free l.live unit → unit ≤ info.msgseg

/-! ## Changes that are not about headers or segments -/

section
variable {info : Msginfo} {k k' : Kernel} {l : Ledger} {q : Nat}

/-- At most queue `q` and its lock, and `mapwant`, differ, and the messages on the
queue are the same. -/
structure Frame (q : Nat) (k k' : Kernel) : Prop where
  msgh : k'.msgh = k.msgh
  msgfp : k'.msgfp = k.msgfp
  entries : k'.msgmap.entries = k.msgmap.entries
  mapsize : k'.msgmap.mapsize = k.msgmap.mapsize
  others : ∀ q', q' ≠ q → k'.msgque q' = k.msgque q' ∧ k'.msglock q' = k.msglock q'
  msgFirst : (k'.msgque q).msgFirst = (k.msgque q).msgFirst
  msgLast : (k'.msgque q).msgLast = (k.msgque q).msgLast
  msgQnum : (k'.msgque q).msgQnum = (k.msgque q).msgQnum

/-- Also the bytes on the queue are the same, and it is in use or not as before. -/
structure Quiet (q : Nat) (k k' : Kernel) : Prop extends Frame q k k' where
  msgCbytes : (k'.msgque q).msgCbytes = (k.msgque q).msgCbytes
  allocated : (k'.msgque q).perm.allocated ↔ (k.msgque q).perm.allocated

theorem Quiet.refl (q : Nat) (k : Kernel) : Quiet q k k :=
  ⟨⟨rfl, rfl, rfl, rfl, fun _ _ => ⟨rfl, rfl⟩, rfl, rfl, rfl⟩, rfl, Iff.rfl⟩

theorem Quiet.trans {k'' : Kernel} (first : Quiet q k k') (second : Quiet q k' k'') : Quiet q k k'' where
  msgh := second.msgh.trans first.msgh
  msgfp := second.msgfp.trans first.msgfp
  entries := second.entries.trans first.entries
  mapsize := second.mapsize.trans first.mapsize
  others q' other := ⟨(second.others q' other).1.trans (first.others q' other).1,
    (second.others q' other).2.trans (first.others q' other).2⟩
  msgFirst := second.msgFirst.trans first.msgFirst
  msgLast := second.msgLast.trans first.msgLast
  msgQnum := second.msgQnum.trans first.msgQnum
  msgCbytes := second.msgCbytes.trans first.msgCbytes
  allocated := second.allocated.trans first.allocated

theorem Frame.sound (frame : Frame q k k') (sound : Sound info k l) : Sound info k' l where
  freeChain := by
    rw [frame.msgfp]
    exact sound.freeChain.congr fun a _ => by rw [Kernel.next, frame.msgh]
  queues q' := by
    have listed : Listed k'.next (k.msgque q') (l.queue q') := by
      obtain ⟨fifo, qnum⟩ := sound.queues q'
      exact ⟨fifo.congr fun a _ => by rw [Kernel.next, frame.msgh], qnum⟩
    by_cases same : q' = q
    · subst same
      exact ⟨⟨frame.msgFirst ▸ listed.chain, frame.msgLast.trans listed.last⟩, frame.msgQnum.trans listed.qnum⟩
    · rw [(frame.others q' same).1]
      exact listed
  placed := sound.placed
  bare := sound.bare
  queueText q' h member := by
    rw [frame.msgh]
    exact sound.queueText q' h member
  handText := sound.handText
  apart := sound.apart
  room := sound.room
  table := by
    obtain ⟨entries, positive, separated⟩ := sound.table
    exact ⟨by rw [frame.entries, frame.mapsize, entries], positive, separated⟩
  within := sound.within

end

/-! ## Moves -/

section
variable {info : Msginfo} {k : Kernel} {l : Ledger} {slot : Slot} {mp q : Nat} {span : Span} {p : Place}

theorem Ledger.placed_hand {l l' : Ledger} (placed : Placed (· < info.msgtql) l.Holds l.place)
    (here : l.Holds p mp) (outside : ∀ slot, p ≠ .hand slot) (empty : l.hand slot = none)
    (hand : l'.hand = update l.hand slot (some ⟨mp, span⟩))
    (gone : ∀ h, l'.Holds p h ↔ l.Holds p h ∧ h ≠ mp)
    (same : ∀ r, r ≠ p → (∀ slot, r ≠ .hand slot) → ∀ h, l'.Holds r h ↔ l.Holds r h) :
    Placed (· < info.msgtql) l'.Holds (update l.place mp (.hand slot)) := by
  refine placed.move here (outside slot) gone ?_ ?_
  · intro h
    simp [Holds, hand, empty, eq_comm]
  · intro r notHere notThere h
    cases r with
    | hand slot' =>
      have differ : slot' ≠ slot := fun same => notThere (by rw [same])
      simp [Holds, hand, differ]
    | free => exact same .free notHere (by simp) h
    | queue q => exact same (.queue q) notHere (by simp) h

theorem Ledger.placed_from {l l' : Ledger} (placed : Placed (· < info.msgtql) l.Holds l.place)
    (mine : l.hand slot = some ⟨mp, span⟩) (outside : ∀ slot, p ≠ .hand slot)
    (hand : l'.hand = update l.hand slot none)
    (come : ∀ h, l'.Holds p h ↔ l.Holds p h ∨ h = mp)
    (same : ∀ r, r ≠ p → (∀ slot, r ≠ .hand slot) → ∀ h, l'.Holds r h ↔ l.Holds r h) :
    Placed (· < info.msgtql) l'.Holds (update l.place mp p) := by
  have here : l.Holds (.hand slot) mp := ⟨_, mine, rfl⟩
  refine placed.move here (outside slot).symm ?_ come ?_
  · intro h
    simp [Holds, hand, mine, eq_comm]
  · intro r notHere notThere h
    cases r with
    | hand slot' =>
      have differ : slot' ≠ slot := fun same => notHere (by rw [same])
      simp [Holds, hand, differ]
    | free => exact same .free notThere (by simp) h
    | queue q => exact same (.queue q) notThere (by simp) h

theorem hand_update {hand : Slot → Option Draft} {value : Option Draft} {fact : Draft → Prop}
    (here : ∀ draft, value = some draft → fact draft)
    (others : ∀ slot', slot' ≠ slot → ∀ draft, hand slot' = some draft → fact draft) (slot' : Slot) (draft : Draft)
    (held : update hand slot value slot' = some draft) : fact draft := by
  by_cases same : slot' = slot
  · subst same
    rw [update_self] at held
    exact here draft held
  · rw [update_of_ne same] at held
    exact others slot' same draft held

theorem free_update {place : Nat → Place} {fact : Nat → Prop} (here : p = .free → fact mp)
    (others : ∀ h, h ≠ mp → place h = .free → fact h) (h : Nat) (free : update place mp p h = .free) :
    fact h := by
  by_cases same : h = mp
  · subst same
    rw [update_self] at free
    exact here free
  · rw [update_of_ne same] at free
    exact others h same free

/-! What unlinking and appending do to the tables. -/

namespace Kernel
variable {pmp : Option Nat} {message : Msg} {pid : Int} {cnt h : Nat}

theorem unlink_msgque : (k.unlink q pmp mp).msgque = update k.msgque q { k.msgque q with
    msgFirst := if pmp = none then k.next mp else (k.msgque q).msgFirst
    msgLast := if k.next mp = none then pmp else (k.msgque q).msgLast
    msgQnum := toUlong ((k.msgque q).msgQnum + 4294967295) } := by
  cases pmp with
  | none => by_cases final : k.next mp = none <;> simp [unlink, setQueue, final]
  | some p => by_cases final : k.next mp = none <;> simp [unlink, setQueue, setMsg, final]

theorem unlink_msgh : (k.unlink q pmp mp).msgh = match pmp with
    | none => k.msgh
    | some p => update k.msgh p { k.msgh p with msgNext := k.next mp } := by
  cases pmp with
  | none => by_cases final : k.next mp = none <;> simp [unlink, setQueue, final]
  | some p => by_cases final : k.next mp = none <;> simp [unlink, setQueue, setMsg, final]

theorem unlink_rest : (k.unlink q pmp mp).msglock = k.msglock ∧ (k.unlink q pmp mp).msgfp = k.msgfp ∧
    (k.unlink q pmp mp).msgmap = k.msgmap := by
  cases pmp with
  | none => by_cases final : k.next mp = none <;> simp [unlink, setQueue, final]
  | some p => by_cases final : k.next mp = none <;> simp [unlink, setQueue, setMsg, final]

theorem unlink_others (differ : pmp ≠ some h) : (k.unlink q pmp mp).msgh h = k.msgh h := by
  rw [unlink_msgh]
  cases pmp with
  | none => rfl
  | some p => exact update_of_ne (fun same => differ (by rw [same])) ..

theorem unlink_msgTs : ((k.unlink q pmp mp).msgh h).msgTs = (k.msgh h).msgTs := by
  rw [unlink_msgh]
  cases pmp with
  | none => rfl
  | some p =>
    by_cases same : h = p
    · subst same
      simp
    · simp [same]

theorem unlink_text {info : Msginfo} : ((k.unlink q pmp mp).msgh h).text info = (k.msgh h).text info := by
  rw [unlink_msgh]
  cases pmp with
  | none => rfl
  | some p =>
    by_cases same : h = p
    · subst same
      simp [Msg.text]
    · simp [same]

theorem enqueue_msgque : (k.enqueue q mp message pid cnt).msgque = update k.msgque q { k.msgque q with
    msgFirst := if (k.msgque q).msgLast = none then some mp else (k.msgque q).msgFirst
    msgLast := some mp
    msgQnum := toUlong ((k.msgque q).msgQnum + 1)
    msgCbytes := toUlong ((k.msgque q).msgCbytes + cnt)
    msgLspid := pid } := by
  cases tail : (k.msgque q).msgLast with
  | none => simp [enqueue, setQueue, setMsg, tail]
  | some last => simp [enqueue, setQueue, setMsg, tail]

theorem enqueue_msgh : (k.enqueue q mp message pid cnt).msgh = match (k.msgque q).msgLast with
    | none => update k.msgh mp message
    | some last =>
        update (update k.msgh mp message) last
          { update k.msgh mp message last with msgNext := some mp } := by
  cases tail : (k.msgque q).msgLast with
  | none => simp [enqueue, setQueue, setMsg, tail]
  | some last => simp [enqueue, setQueue, setMsg, tail]

theorem enqueue_stored {info : Msginfo} : ((k.enqueue q mp message pid cnt).msgh mp).msgTs = message.msgTs ∧
    ((k.enqueue q mp message pid cnt).msgh mp).text info = message.text info := by
  rw [enqueue_msgh]
  cases tail : (k.msgque q).msgLast with
  | none => simp
  | some last =>
    by_cases same : mp = last
    · subst same
      simp [Msg.text]
    · simp [same]

theorem enqueue_text {info : Msginfo} (differ : h ≠ mp) :
    ((k.enqueue q mp message pid cnt).msgh h).msgTs = (k.msgh h).msgTs ∧
    ((k.enqueue q mp message pid cnt).msgh h).text info = (k.msgh h).text info := by
  rw [enqueue_msgh]
  cases tail : (k.msgque q).msgLast with
  | none => simp [differ]
  | some last =>
    by_cases same : h = last
    · subst same
      simp [Msg.text, differ]
    · simp [same, differ]

theorem enqueue_rest : (k.enqueue q mp message pid cnt).msglock = k.msglock ∧
    (k.enqueue q mp message pid cnt).msgfp = k.msgfp ∧ (k.enqueue q mp message pid cnt).msgmap = k.msgmap := by
  cases tail : (k.msgque q).msgLast with
  | none => simp [enqueue, setQueue, setMsg, tail]
  | some last => simp [enqueue, setQueue, setMsg, tail]

theorem enqueue_others (differ : h ≠ mp) (last : (k.msgque q).msgLast ≠ some h) :
    (k.enqueue q mp message pid cnt).msgh h = k.msgh h := by
  rw [enqueue_msgh]
  cases tail : (k.msgque q).msgLast with
  | none => exact update_of_ne differ ..
  | some p =>
    rw [tail] at last
    simp only
    rw [update_of_ne fun same => last (by rw [same]), update_of_ne differ]

end Kernel

namespace Listed
variable {next next' : Nat → Option Nat} {qp : MsqidDs} {list left right : List Nat} {message : Msg} {pid : Int}
  {cnt : Nat}

theorem congr (listed : Listed next qp list) (same : ∀ h ∈ list, next' h = next h) : Listed next' qp list :=
  ⟨listed.toFifo.congr same, listed.qnum⟩

theorem unlink (listed : Listed k.next (k.msgque q) (left ++ mp :: right)) :
    Listed (k.unlink q left.getLast? mp).next ((k.unlink q left.getLast? mp).msgque q) (left ++ right) := by
  rw [Kernel.unlink_msgque, update_self]
  constructor
  · refine listed.toFifo.remove (fun p last => ?_) fun h _ other => by rw [Kernel.next, Kernel.unlink_others other]
    simp [Kernel.unlink_msgh, last]
  · simp only [listed.qnum, toUlong, List.length_append, List.length_cons]
    omega

theorem enqueue (listed : Listed k.next (k.msgque q) list) (fresh : mp ∉ list) (final : message.msgNext = none) :
    Listed (k.enqueue q mp message pid cnt).next ((k.enqueue q mp message pid cnt).msgque q) (list ++ [mp]) := by
  rw [Kernel.enqueue_msgque, update_self]
  constructor
  · refine listed.toFifo.append fresh ?_ (fun p last => ?_) fun h member other => ?_
    · cases tail : (k.msgque q).msgLast with
      | none => simp [Kernel.enqueue_msgh, tail, final]
      | some p =>
        have differ : mp ≠ p := by
          rintro rfl
          rw [listed.last] at tail
          exact fresh (List.mem_of_getLast? tail)
        simp [Kernel.enqueue_msgh, tail, differ, final]
    · simp [Kernel.enqueue_msgh, last]
    · have differ : h ≠ mp := fun same => fresh (same ▸ member)
      rw [Kernel.next, Kernel.enqueue_others differ other]
  · simp only [listed.qnum, toUlong, List.length_append, List.length_cons, List.length_nil]
    omega

end Listed

namespace Sound

section
variable (sound : Sound info k l)
include sound

theorem place_of_mem (member : mp ∈ l.queue q) : l.place mp = .queue q :=
  ((sound.placed (.queue q) mp).mp member).2

section
variable (mine : l.hand slot = some ⟨mp, span⟩)
include mine

theorem place_of_hand : l.place mp = .hand slot :=
  ((sound.placed (.hand slot) mp).mp ⟨_, mine, rfl⟩).2

theorem not_free_of_hand : mp ∉ l.free := by
  intro member
  have free := ((sound.placed .free mp).mp member).2
  rw [sound.place_of_hand mine] at free
  cases free

theorem not_queue_of_hand : mp ∉ l.queue q := by
  intro member
  have queued := sound.place_of_mem member
  rw [sound.place_of_hand mine] at queued
  cases queued

theorem hand_apart {slot' : Slot} {draft : Draft}
    (other : l.hand slot' = some draft) (differ : slot' ≠ slot) : draft.mp ≠ mp := by
  intro same
  have here : l.place draft.mp = .hand slot' := ((sound.placed (.hand slot') draft.mp).mp ⟨draft, other, rfl⟩).2
  rw [same, sound.place_of_hand mine] at here
  exact differ (Place.hand.inj here).symm

end

theorem take (first : k.msgfp = some mp) (empty : l.hand slot = none) :
    ∃ l', Sound info { k with msgfp := k.next mp } l' ∧ l'.queue = l.queue ∧
      ∃ span : Span, span.size = 0 ∧ l'.hand = update l.hand slot (some ⟨mp, span⟩) := by
  have chain := sound.freeChain
  rw [first] at chain
  obtain ⟨rest, free, tail⟩ := Chain.cons_iff.mp chain
  have fresh : mp ∉ rest := by
    have nodup := chain.nodup
    rw [free] at nodup
    exact (List.nodup_cons.mp nodup).1
  have here : l.Holds .free mp := by simp [free]
  have bare := sound.bare mp ((sound.placed .free mp).mp here).2
  let l' : Ledger := { l with
    free := rest
    hand := update l.hand slot (some ⟨mp, l.text mp⟩)
    place := update l.place mp (.hand slot) }
  have gone (h : Nat) : l'.Holds .free h ↔ l.Holds .free h ∧ h ≠ mp := by
    simp only [Ledger.Holds, l', free, List.mem_cons]
    constructor
    · exact fun member => ⟨.inr member, fun same => fresh (same ▸ member)⟩
    · exact fun ⟨member, differ⟩ => member.resolve_left differ
  have same (r : Place) (notFree : r ≠ .free) (notHand : ∀ slot, r ≠ .hand slot) (h : Nat) :
      l'.Holds r h ↔ l.Holds r h := by
    cases r with
    | free => exact absurd rfl notFree
    | queue q => exact Iff.rfl
    | hand slot' => exact absurd rfl (notHand slot')
  refine ⟨l', ?_, rfl, l.text mp, bare, rfl⟩
  exact {
    freeChain := tail
    queues := sound.queues
    placed := Ledger.placed_hand sound.placed here (by simp) empty rfl gone same
    bare := free_update (by simp) fun h _ => sound.bare h
    queueText := sound.queueText
    handText := hand_update (by rintro _ ⟨⟩; rfl) fun slot' _ => sound.handText slot'
    apart := sound.apart
    room := sound.room
    table := sound.table
    within := sound.within }

end

theorem put (sound : Sound info k l) (mine : l.hand slot = some ⟨mp, span⟩) (empty : span.size = 0) :
    ∃ l', Sound info { k.setMsg mp fun m => { m with msgNext := k.msgfp } with msgfp := some mp } l' ∧
      l'.queue = l.queue ∧ l'.hand = update l.hand slot none := by
  have notFree := sound.not_free_of_hand mine
  let k' : Kernel := { k.setMsg mp fun m => { m with msgNext := k.msgfp } with msgfp := some mp }
  have others {h : Nat} (differ : h ≠ mp) : k'.msgh h = k.msgh h := by simp [k', Kernel.setMsg, differ]
  have link : k'.next mp = k.msgfp := by simp [k', Kernel.setMsg]
  let l' : Ledger := { l with
    free := mp :: l.free
    hand := update l.hand slot none
    place := update l.place mp .free }
  have same (r : Place) (notFree : r ≠ .free) (notHand : ∀ slot, r ≠ .hand slot) (h : Nat) :
      l'.Holds r h ↔ l.Holds r h := by
    cases r with
    | free => exact absurd rfl notFree
    | queue q => exact Iff.rfl
    | hand slot' => exact absurd rfl (notHand slot')
  have away {q h : Nat} (member : h ∈ l.queue q) : h ≠ mp := fun same => sound.not_queue_of_hand mine (same ▸ member)
  refine ⟨l', ?_, rfl, rfl⟩
  exact {
    freeChain := by
      apply Chain.cons
      rw [link]
      exact sound.freeChain.congr fun a member => by rw [Kernel.next, others fun same => notFree (same ▸ member)]
    queues := fun q => (sound.queues q).congr fun a member => by rw [Kernel.next, others (away member)]
    placed := Ledger.placed_from sound.placed mine (by simp) rfl (fun h => by simp [l', or_comm]) same
    bare := free_update (fun _ => by rw [sound.handText slot _ mine, empty]) fun h _ => sound.bare h
    queueText := by
      intro q h member
      rw [others (away member)]
      exact sound.queueText q h member
    handText := hand_update (by simp) fun slot' _ => sound.handText slot'
    apart := sound.apart
    room := sound.room
    table := sound.table
    within := sound.within }

theorem retext (sound : Sound info k l) (mine : l.hand slot = some ⟨mp, span⟩) {text : Span} {map : Rmap.Map}
    {live : List Rmap.Entry} (table : Rmap.Table map live)
    (within : ∀ unit, Rmap.Free live unit → unit ≤ info.msgseg)
    (room : ∀ unit, text.Has unit → 0 < unit ∧ unit ≤ info.msgseg ∧ ¬ Rmap.Free live unit ∧
      ∀ h, h ≠ mp → ¬ (l.text h).Has unit)
    (others : ∀ h unit, h ≠ mp → (l.text h).Has unit → ¬ Rmap.Free live unit) :
    ∃ l', Sound info { k with msgmap := map } l' ∧ l'.queue = l.queue ∧
      l'.hand = update l.hand slot (some ⟨mp, text⟩) := by
  let l' : Ledger := { l with
    hand := update l.hand slot (some ⟨mp, text⟩)
    text := update l.text mp text
    live }
  have here : l'.text mp = text := update_self ..
  have away {h : Nat} (differ : h ≠ mp) : l'.text h = l.text h := update_of_ne differ ..
  have holds (r : Place) (h : Nat) : l'.Holds r h ↔ l.Holds r h := by
    cases r with
    | free => exact Iff.rfl
    | queue q => exact Iff.rfl
    | hand slot' =>
      by_cases same : slot' = slot
      · subst same
        simp [l', mine]
      · simp [l', same]
  refine ⟨l', ?_, rfl, rfl⟩
  exact {
    freeChain := sound.freeChain
    queues := sound.queues
    placed := fun r h => (holds r h).trans (sound.placed r h)
    bare := by
      intro h free
      rw [away fun same => by simp [l', same, sound.place_of_hand mine] at free]
      exact sound.bare h free
    queueText := by
      intro q h member
      rw [away fun same => sound.not_queue_of_hand mine (same ▸ member)]
      exact sound.queueText q h member
    handText := by
      refine hand_update (fun draft held => ?_) fun slot' differ draft held => ?_
      · obtain rfl := Option.some.inj held
        exact here
      · rw [away (sound.hand_apart mine held differ)]
        exact sound.handText slot' draft held
    apart := by
      intro h h' unit has has'
      by_cases same : h = mp
      · by_cases same' : h' = mp
        · rw [same, same']
        · rw [same, here] at has
          rw [away same'] at has'
          exact absurd has' ((room unit has).2.2.2 h' same')
      · rw [away same] at has
        by_cases same' : h' = mp
        · rw [same', here] at has'
          exact absurd has ((room unit has').2.2.2 h same)
        · rw [away same'] at has'
          exact sound.apart h h' unit has has'
    room := by
      intro h unit has
      by_cases same : h = mp
      · rw [same, here] at has
        obtain ⟨positive, bound, used, _⟩ := room unit has
        exact ⟨positive, bound, used⟩
      · rw [away same] at has
        obtain ⟨positive, bound, _⟩ := sound.room h unit has
        exact ⟨positive, bound, others h unit same has⟩
    table := table
    within := within }

theorem fill (sound : Sound info k l) (mine : l.hand slot = some ⟨mp, span⟩) {size : Nat} (positive : 0 < size) :
    Rmap.rmalloc k.msgmap size = some (0, k.msgmap) ∨
    ∃ base map l', Rmap.rmalloc k.msgmap size = some (base, map) ∧ 0 < base ∧ base + size ≤ info.msgseg + 1 ∧
      Sound info { k with msgmap := map } l' ∧ l'.queue = l.queue ∧
      l'.hand = update l.hand slot (some ⟨mp, ⟨base, size⟩⟩) := by
  rcases Rmap.rmalloc_units sound.table positive with ⟨_, result⟩ | ⟨base, map, live, result, table, start, _, was, units⟩
  · exact .inl result
  · have bound := sound.within _ (was (base + size - 1) (by omega) (by omega))
    have least {unit : Nat} (free : Rmap.Free live unit) : Rmap.Free l.live unit := ((units unit).mp free).1
    obtain ⟨l', sound', queue, hand⟩ := (@Sound.retext _ _ _ _ _ _ sound mine ⟨base, size⟩) table
      (fun unit free => sound.within unit (least free))
      (by
        intro unit has
        have free := was unit has.1 has.2
        have limit := sound.within unit free
        refine ⟨by have := has.1; simp only at this; omega, limit, ?_, ?_⟩
        · exact fun still => ((units unit).mp still).2 has
        · exact fun h _ other => (sound.room h unit other).2.2 free)
      (fun h unit _ has free => (sound.room h unit has).2.2 (least free))
    exact .inr ⟨base, map, l', result, start, by omega, sound', queue, hand⟩

/-- `rmfree` of the text of a header in hand. The units may get lost. -/
theorem clear (sound : Sound info k l) {base size : Nat} (mine : l.hand slot = some ⟨mp, ⟨base, size⟩⟩)
    (positive : 0 < size) :
    ∃ map woken l', Rmap.rmfree k.msgmap size base = some (map, woken) ∧ Sound info { k with msgmap := map } l' ∧
      l'.queue = l.queue ∧ l'.hand = update l.hand slot (some ⟨mp, ⟨base, 0⟩⟩) := by
  have text := sound.handText slot _ mine
  have used (unit : Nat) (has : (⟨base, size⟩ : Span).Has unit) :
      0 < unit ∧ unit ≤ info.msgseg ∧ ¬ Rmap.Free l.live unit := sound.room mp unit (by rw [text]; exact has)
  have start : 0 < base := (used base ⟨le_rfl, by simp only; omega⟩).1
  have empty (unit : Nat) : ¬ (⟨base, 0⟩ : Span).Has unit := fun has => absurd has.size_pos (Nat.lt_irrefl 0)
  rcases Rmap.rmfree_units sound.table positive start fun unit low high => (used unit ⟨low, high⟩).2.2 with
    ⟨_, result⟩ | ⟨_, map, woken, live, result, table, _, units⟩
  · obtain ⟨l', sound', queue, hand⟩ := sound.retext mine sound.table sound.within
      (fun unit has => absurd has (empty unit)) fun h unit _ has => (sound.room h unit has).2.2
    exact ⟨k.msgmap, false, l', result, sound', queue, hand⟩
  · obtain ⟨l', sound', queue, hand⟩ := sound.retext mine table
      (by
        intro unit free
        rcases (units unit).mp free with free | ⟨low, high⟩
        · exact sound.within unit free
        · exact (used unit ⟨low, high⟩).2.1)
      (fun unit has => absurd has (empty unit))
      (by
        intro h unit differ has free
        rcases (units unit).mp free with free | ⟨low, high⟩
        · exact (sound.room h unit has).2.2 free
        · exact differ (sound.apart h mp unit has (by rw [text]; exact ⟨low, high⟩)))
    exact ⟨map, woken, l', result, sound', queue, hand⟩

theorem queue_apart (sound : Sound info k l) {q' h : Nat} (member : h ∈ l.queue q') (differ : q' ≠ q) :
    h ∉ l.queue q := by
  intro other
  have same := (sound.place_of_mem member).symm.trans (sound.place_of_mem other)
  exact differ (Place.queue.inj same)

theorem free_apart (sound : Sound info k l) {h : Nat} (member : h ∈ l.free) : h ∉ l.queue q := by
  intro other
  have same := ((sound.placed .free h).mp member).2.symm.trans (sound.place_of_mem other)
  cases same

theorem unlink (sound : Sound info k l) {left right : List Nat} (queue : l.queue q = left ++ mp :: right)
    (empty : l.hand slot = none) :
    ∃ l', Sound info (k.unlink q left.getLast? mp) l' ∧ l'.queue = update l.queue q (left ++ right) ∧
      l'.hand = update l.hand slot (some ⟨mp, (k.msgh mp).text info⟩) := by
  have listed := sound.queues q
  rw [queue] at listed
  have member : mp ∈ l.queue q := by simp [queue]
  obtain ⟨_, text⟩ := sound.queueText q mp member
  let k' := k.unlink q left.getLast? mp
  obtain ⟨_, msgfp, msgmap⟩ := @Kernel.unlink_rest k mp q left.getLast?
  -- Only the pointer of the message before it changes.
  have elsewhere {h : Nat} (away : h ∉ l.queue q) : k'.msgh h = k.msgh h := by
    refine Kernel.unlink_others fun last => away ?_
    rw [queue]
    exact List.mem_append_left _ (List.mem_of_getLast? last)
  let l' : Ledger := { l with
    queue := update l.queue q (left ++ right)
    hand := update l.hand slot (some ⟨mp, (k.msgh mp).text info⟩)
    place := update l.place mp (.hand slot) }
  have gone (h : Nat) : l'.Holds (.queue q) h ↔ l.Holds (.queue q) h ∧ h ≠ mp := by
    have away : mp ∉ left ++ right := (List.nodup_middle.mp listed.chain.nodup).notMem
    simp only [Ledger.Holds, l', update_self, queue]
    constructor
    · intro member
      refine ⟨?_, fun same => away (same ▸ member)⟩
      simp only [List.mem_append, List.mem_cons] at member ⊢
      exact member.imp_right .inr
    · rintro ⟨member, differ⟩
      simpa [differ] using member
  have same (r : Place) (notHere : r ≠ .queue q) (notHand : ∀ slot, r ≠ .hand slot) (h : Nat) :
      l'.Holds r h ↔ l.Holds r h := by
    cases r with
    | free => exact Iff.rfl
    | queue q' =>
      have differ : q' ≠ q := fun same => notHere (by rw [same])
      simp [l', differ]
    | hand slot' => exact absurd rfl (notHand slot')
  have sub {q' h : Nat} (member : h ∈ l'.queue q') : h ∈ l.queue q' := by
    by_cases here : q' = q
    · subst here
      exact ((gone h).mp member).1
    · simpa [l', here] using member
  refine ⟨l', ?_, rfl, rfl⟩
  exact {
    freeChain := by
      rw [msgfp]
      exact sound.freeChain.congr fun a member => by rw [Kernel.next, elsewhere (sound.free_apart member)]
    queues := by
      intro q'
      by_cases here : q' = q
      · subst here
        simpa [l'] using listed.unlink
      · have other := (@Listed.congr _ k'.next) (sound.queues q') fun a member => by
          rw [Kernel.next, elsewhere (sound.queue_apart member here)]
        simpa [l', k', Kernel.unlink_msgque, here] using other
    placed := Ledger.placed_hand sound.placed (p := .queue q) member (by simp) empty rfl gone same
    bare := free_update (by simp) fun h _ => sound.bare h
    queueText := by
      intro q' h member
      rw [Kernel.unlink_msgTs, Kernel.unlink_text]
      exact sound.queueText q' h (sub member)
    handText := hand_update (by rintro _ ⟨⟩; exact text) fun slot' _ => sound.handText slot'
    apart := sound.apart
    room := sound.room
    table := by
      rw [msgmap]
      exact sound.table
    within := sound.within }

theorem enqueue (sound : Sound info k l) (mine : l.hand slot = some ⟨mp, span⟩) {message : Msg} {pid : Int} {cnt : Nat}
    (final : message.msgNext = none) (size : message.msgTs ≤ 65535)
    (units : ∀ unit, (message.text info).Has unit ↔ span.Has unit) :
    ∃ l', Sound info (k.enqueue q mp message pid cnt) l' ∧
      l'.queue = update l.queue q (l.queue q ++ [mp]) ∧ l'.hand = update l.hand slot none := by
  have listed := sound.queues q
  have fresh (q' : Nat) : mp ∉ l.queue q' := sound.not_queue_of_hand mine
  let k' := k.enqueue q mp message pid cnt
  obtain ⟨_, msgfp, msgmap⟩ := k.enqueue_rest (q := q)
  have elsewhere {h : Nat} (differ : h ≠ mp) (away : h ∉ l.queue q) : k'.msgh h = k.msgh h := by
    refine Kernel.enqueue_others differ fun last => away ?_
    rw [listed.last] at last
    exact List.mem_of_getLast? last
  have texts {h : Nat} (differ : h ≠ mp) :
      (k'.msgh h).msgTs = (k.msgh h).msgTs ∧ (k'.msgh h).text info = (k.msgh h).text info :=
    Kernel.enqueue_text differ
  have stored : (k'.msgh mp).msgTs = message.msgTs ∧ (k'.msgh mp).text info = message.text info :=
    Kernel.enqueue_stored
  let l' : Ledger := { l with
    queue := update l.queue q (l.queue q ++ [mp])
    hand := update l.hand slot none
    place := update l.place mp (.queue q)
    text := update l.text mp (message.text info) }
  have come (h : Nat) : l'.Holds (.queue q) h ↔ l.Holds (.queue q) h ∨ h = mp := by
    simp [l']
  have same (r : Place) (notHere : r ≠ .queue q) (notHand : ∀ slot, r ≠ .hand slot) (h : Nat) :
      l'.Holds r h ↔ l.Holds r h := by
    cases r with
    | free => exact Iff.rfl
    | queue q' =>
      have differ : q' ≠ q := fun same => notHere (by rw [same])
      simp [l', differ]
    | hand slot' => exact absurd rfl (notHand slot')
  have here : l'.text mp = message.text info := update_self ..
  have away {h : Nat} (differ : h ≠ mp) : l'.text h = l.text h := update_of_ne differ ..
  -- No header has other units than before.
  have has {h unit : Nat} : (l'.text h).Has unit ↔ (l.text h).Has unit := by
    by_cases same : h = mp
    · rw [same, here, units, sound.handText slot _ mine]
    · rw [away same]
  refine ⟨l', ?_, rfl, rfl⟩
  exact {
    freeChain := by
      rw [msgfp]
      refine sound.freeChain.congr fun a member => ?_
      have differ : a ≠ mp := fun same => sound.not_free_of_hand mine (same ▸ member)
      rw [Kernel.next, elsewhere differ (sound.free_apart member)]
    queues := by
      intro q'
      by_cases same : q' = q
      · subst same
        simpa [l'] using listed.enqueue (fresh q') final
      · have other := (@Listed.congr _ k'.next) (sound.queues q') fun a member => by
          have differ : a ≠ mp := fun same => fresh q' (same ▸ member)
          rw [Kernel.next, elsewhere differ (sound.queue_apart member same)]
        simpa [l', k', Kernel.enqueue_msgque, same] using other
    placed := Ledger.placed_from sound.placed mine (by simp) rfl come same
    bare := by
      refine free_update (by simp) fun h differ free => ?_
      rw [away differ]
      exact sound.bare h free
    queueText := by
      intro q' h member
      by_cases itself : h = mp
      · rw [itself, here, stored.1, stored.2]
        exact ⟨size, rfl⟩
      · have before : h ∈ l.queue q' := by
          by_cases queue : q' = q
          · subst queue
            exact ((come h).mp member).resolve_right itself
          · simpa [l', queue] using member
        rw [away itself, (texts itself).1, (texts itself).2]
        exact sound.queueText q' h before
    handText := by
      refine hand_update (by simp) fun slot' differ draft held => ?_
      rw [away (sound.hand_apart mine held differ)]
      exact sound.handText slot' draft held
    apart := fun h h' unit first second => sound.apart h h' unit (has.mp first) (has.mp second)
    room := fun h unit first => sound.room h unit (has.mp first)
    table := by
      rw [msgmap]
      exact sound.table
    within := sound.within }

end Sound

end

end Svr4.Message
