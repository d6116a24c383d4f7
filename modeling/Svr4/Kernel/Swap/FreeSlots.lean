import Svr4.Kernel.Swap.Reservations

/-! The count of free slots, as long as no area is deleted, and the runs of the swap device. -/

namespace Svr4.Swap

open Option (bind_eq_some_iff map_eq_some_iff)

/-- The slots on the free list of an area that has not been deleted. -/
def openSlots (sip : Swapinfo) : Nat := if sip.deleted then 0 else sip.free.length

def freeSlots (s : Device) : Nat := (s.swapinfo.map openSlots).sum

/-- No deletion is under way, and the free slots and those in use are no more than the area has. -/
structure Intact (sip : Swapinfo) : Prop where
  flags : sip.inDel = false ∧ sip.doingDel = false ∧ sip.deleted = false
  direct : ∀ ap ∈ sip.anon, ap.bap = none
  slots : sip.free.length + sip.anon.countP (fun ap => 0 < ap.refcnt) ≤ sip.npgs

structure Counted (s : Device) : Prop where
  intact : ∀ sip ∈ s.swapinfo, Intact sip
  free : s.aniFree.toNat = freeSlots s

section
variable {s t : Device} {minasmem size : Word} {ap : Slot} {sip : Swapinfo} {id : Nat} {index : Nat} {anon : Anon}
  {req : Request} {outcome : Except Errno Unit} {event : Event} {ok : Bool}

theorem Distinct.ids (distinct : Distinct s) : (s.swapinfo.map Swapinfo.id).Nodup := by
  have both : s.shapes.map Shape.id = s.swapinfo.map Swapinfo.id := by
    simp only [Device.shapes, List.map_map]
    rfl
  exact both ▸ distinct

theorem modify_freeSlots (change : Swapinfo → Swapinfo) (distinct : Distinct s) (there : sip ∈ s.swapinfo) :
    freeSlots (s.modify sip.id change) + openSlots sip = freeSlots s + openSlots (change sip) :=
  changeAt_sum openSlots change distinct.ids there

theorem modify_intact (change : Swapinfo → Swapinfo) (intact : ∀ sip ∈ s.swapinfo, Intact sip)
    (keeps : ∀ sip ∈ s.swapinfo, sip.id = id → Intact (change sip)) : ∀ sip ∈ (s.modify id change).swapinfo, Intact sip := by
  intro sip there
  rcases mem_changeAt there with ⟨old, member, same, rfl⟩ | ⟨before, -⟩
  · exact keeps old member same
  · exact intact sip before

theorem openSlots_intact (intact : Intact sip) : openSlots sip = sip.free.length := by
  rw [openSlots, intact.flags.2.2, if_neg Bool.false_ne_true]

theorem freeSlots_le (intact : ∀ sip ∈ s.swapinfo, Intact sip) : freeSlots s ≤ totalOf s.shapes := by
  rw [freeSlots, totalOf, Device.shapes, List.map_map]
  apply List.sum_le_sum
  intro sip there
  have sound := intact sip there
  have few := sound.slots
  rw [openSlots_intact sound]
  exact (Nat.le_add_right _ _).trans few

theorem modify_anon {change : Anon → Anon} (keeps : ∀ a, (change a).bap = a.bap)
    (direct : ∀ ap ∈ sip.anon, ap.bap = none) :
    ∀ ap ∈ sip.anon.modify index change, ap.bap = none := by
  intro ap there
  rcases mem_modify there with same | ⟨old, member, rfl⟩
  · exact direct ap same
  · exact (keeps old).trans (direct old member)

theorem modify_modify (first second : Swapinfo → Swapinfo) (keeps : ∀ sip, (first sip).id = sip.id) :
    ((s.modify id first).modify id second).swapinfo = (s.modify id fun sip => second (first sip)).swapinfo := by
  simp only [Device.modify, List.map_map]
  apply List.map_congr_left
  intro sip _
  simp only [Function.comp_apply]
  by_cases here : sip.id = id
  · rw [if_pos here, if_pos ((keeps sip).trans here), if_pos here]
  · rw [if_neg here, if_neg here, if_neg here]

/-! ## Taking a slot -/

/-- What taking a slot for use, and giving it a reference, does to its area. -/
def used (index : Nat) (others : List Nat) (sip : Swapinfo) : Swapinfo :=
  { taken others sip with anon := sip.anon.modify index (setRefcnt 1) }

theorem used_intact {others : List Nat} (intact : Intact sip) (open' : sip.free = index :: others) :
    Intact (used index others sip) := by
  refine ⟨intact.flags, modify_anon (fun _ => rfl) intact.direct, ?_⟩
  have room := intact.slots
  rw [open', List.length_cons] at room
  change others.length + (sip.anon.modify index (setRefcnt 1)).countP _ ≤ sip.npgs
  cases there : sip.anon[index]? with
  | none =>
    rw [List.modify_eq_self (List.getElem?_eq_none_iff.mp there)]
    omega
  | some anon =>
    have one := countP_modify (fun ap : Anon => 0 < ap.refcnt) (setRefcnt 1) there
    simp only [setRefcnt, Nat.zero_lt_one, decide_true, if_true] at one
    omega

/-- The areas are as they were but for the slot taken. -/
def Took (s : Device) : Option Slot × Device → Prop
  | (none, t) => (∀ sip ∈ t.swapinfo, Intact sip) ∧ freeSlots t = freeSlots s ∧ t.aniFree = s.aniFree
  | (some ap, t) => (∀ sip ∈ (t.setAnon ap (setRefcnt 1)).swapinfo, Intact sip) ∧
      freeSlots (t.setAnon ap (setRefcnt 1)) + 1 = freeSlots s ∧ t.aniFree = s.aniFree

theorem Took.of {u : Device} {result : Option Slot × Device} (slots : freeSlots u = freeSlots s)
    (free : u.aniFree = s.aniFree) (took : Took u result) : Took s result := by
  unfold Took at *
  rw [slots, free] at took
  exact took

theorem swapAllocFrom_took (distinct : Distinct s) (intact : ∀ sip ∈ s.swapinfo, Intact sip) (ids : List Nat) :
    Took s (swapAllocFrom s ids) := by
  induction ids generalizing s with
  | nil => exact ⟨intact, rfl, rfl⟩
  | cons id rest ih =>
    cases found : s.find id with
    | none =>
      rw [swapAllocFrom, found]
      exact ih distinct intact
    | some sip =>
      obtain ⟨there, same⟩ := find_mem found
      subst same
      rw [swapAllocFrom, found]
      simp only [(intact sip there).flags.1, Bool.false_eq_true, if_false]
      cases open' : sip.free with
      | nil =>
          -- an area without a free slot only has its count of allocations reset
          have idle : Same s (s.modify sip.id fun sip => { sip with allocs := 0 }) := modify_same fun _ => rfl
          have still : freeSlots (s.modify sip.id fun sip => { sip with allocs := 0 }) = freeSlots s :=
            Nat.add_right_cancel (modify_freeSlots (fun sip => { sip with allocs := 0 }) distinct there)
          have next := ih (idle.frame.distinct distinct) (modify_intact (fun sip => { sip with allocs := 0 }) intact
            fun sip there _ => ⟨(intact sip there).flags, (intact sip there).direct, (intact sip there).slots⟩)
          exact next.of still rfl
      | cons index others =>
          have both : ((s.modify sip.id (taken others)).modify sip.id
              fun sip => { sip with anon := sip.anon.modify index (setRefcnt 1) }).swapinfo =
                (s.modify sip.id (used index others)).swapinfo := modify_modify _ _ fun _ => rfl
          have shrinks := modify_freeSlots (used index others) distinct there
          have sound := used_intact (intact sip there) open'
          rw [openSlots_intact sound, openSlots_intact (intact sip there), open', List.length_cons] at shrinks
          refine ⟨fun sip' member => ?_, ?_, rfl⟩
          · refine modify_intact (used index others) intact (fun old member same => ?_) sip' (both ▸ member)
            rw [distinct.eq member there same]
            exact sound
          · have slots : freeSlots (s.modify sip.id (used index others)) + 1 = freeSlots s := by
              simp only [used, taken] at shrinks ⊢
              omega
            rw [← slots]
            exact congrArg (fun areas => (areas.map openSlots).sum + 1) both

theorem anonAlloc_counted (distinct : Distinct s) (counted : Counted s) : Counted (anonAlloc s).2 := by
  have took : Took s (swapAlloc s) := swapAllocFrom_took distinct counted.intact s.round
  have free := counted.free
  unfold anonAlloc
  rcases result : swapAlloc s with ⟨_ | ap, t⟩
  · rw [result] at took
    obtain ⟨intact, same, aniFree⟩ := took
    exact ⟨intact, by rw [aniFree, same, free]⟩
  · rw [result] at took
    obtain ⟨intact, less, aniFree⟩ := took
    refine ⟨intact, ?_⟩
    change (t.aniFree - 1 : Word).toNat = freeSlots (t.setAnon ap (setRefcnt 1))
    have one : (1 : Word).toNat = 1 := rfl
    rw [aniFree, BitVec.toNat_sub, one]
    omega

/-! ## Giving a slot back -/

/-- What the last reference to a slot does to its area when it goes. -/
def freed (index : Nat) (sip : Swapinfo) : Swapinfo :=
  pushed index { sip with anon := sip.anon.modify index (setRefcnt 0) }

theorem freed_intact (intact : Intact sip) (there : sip.anon[index]? = some anon)
    (last : anon.refcnt = 1) : Intact (freed index sip) := by
  refine ⟨intact.flags, modify_anon (fun _ => rfl) intact.direct, ?_⟩
  have room := intact.slots
  have one := countP_modify (fun ap : Anon => 0 < ap.refcnt) (setRefcnt 0) there
  simp only [setRefcnt, last, Nat.zero_lt_one, decide_true, if_true, Nat.lt_irrefl, decide_false, Bool.false_eq_true,
    if_false] at one
  change (index :: sip.free).length + (sip.anon.modify index (setRefcnt 0)).countP _ ≤ sip.npgs
  rw [List.length_cons]
  omega

theorem lowered_intact {n : Nat} (intact : Intact sip) (there : sip.anon[index]? = some anon)
    (few : n ≤ anon.refcnt) : Intact { sip with anon := sip.anon.modify index (setRefcnt n) } := by
  refine ⟨intact.flags, modify_anon (fun _ => rfl) intact.direct, ?_⟩
  have room := intact.slots
  have one := countP_modify (fun ap : Anon => 0 < ap.refcnt) (setRefcnt n) there
  change sip.free.length + (sip.anon.modify index (setRefcnt n)).countP _ ≤ sip.npgs
  rcases Nat.eq_zero_or_pos n with rfl | some
  · simp only [setRefcnt, Nat.lt_irrefl, decide_false, Bool.false_eq_true, if_false] at one
    omega
  · have held : 0 < anon.refcnt := some.trans_le few
    simp only [setRefcnt, some, held, decide_true, if_true] at one
    omega

theorem anon_mem (found : s.anon ap = some anon) :
    ∃ sip, s.find ap.area = some sip ∧ sip ∈ s.swapinfo ∧ sip.id = ap.area ∧ sip.anon[ap.index]? = some anon := by
  obtain ⟨sip, area, there⟩ := bind_eq_some_iff.mp found
  have ⟨member, same⟩ := find_mem area
  exact ⟨sip, area, member, same, there⟩

theorem anonDecref_counted (distinct : Distinct s) (room : totalOf s.shapes < 2 ^ 29) (counted : Counted s)
    (result : anonDecref s ap = some t) : Counted t := by
  unfold anonDecref at result
  split at result
  · cases result
  · rename_i anon found
    obtain ⟨sip, area, member, same, there⟩ := anon_mem found
    have intact := counted.intact sip member
    split at result <;> rename_i last
    · obtain ⟨u, released, counts⟩ := bind_eq_some_iff.mp result
      cases counts
      -- the slot has no back end, and its area is not deleted
      have kept := find_modify (fun sip => { sip with anon := sip.anon.modify ap.index (setRefcnt 0) })
        (fun _ => rfl) area
      have slot : (s.setAnon ap (setRefcnt 0)).anon ap = some (setRefcnt 0 anon) := by
        rw [Device.anon, Device.setAnon, kept, Option.bind_some, List.getElem?_modify_eq, there]
        rfl
      have direct : anon.bap = none := intact.direct anon (List.mem_of_getElem? there)
      have inside : ap.index < sip.anon.length := (List.getElem?_eq_some_iff.mp there).1
      rw [swapFree, slot, Option.bind_some, setRefcnt, direct] at released
      simp only [swapFreeOne] at released
      rw [Device.setAnon, kept] at released
      simp only [List.length_modify, if_pos inside, intact.flags.2.2, Bool.false_eq_true, false_and, if_false,
        Option.some.injEq] at released
      have both : ((s.modify ap.area fun sip => { sip with anon := sip.anon.modify ap.index (setRefcnt 0) }).modify ap.area
          (pushed ap.index)).swapinfo = (s.modify ap.area (freed ap.index)).swapinfo := modify_modify _ _ fun _ => rfl
      have sound := freed_intact intact there last
      have grows := modify_freeSlots (freed ap.index) distinct member
      have whole : ∀ sip ∈ (s.modify ap.area (freed ap.index)).swapinfo, Intact sip :=
        modify_intact _ counted.intact fun old before name => by
          rw [distinct.eq before member (name.trans same.symm)]
          exact sound
      rw [openSlots_intact sound, openSlots_intact intact, same] at grows
      have more : freeSlots (s.modify ap.area (freed ap.index)) = freeSlots s + 1 := by
        simp only [freed, pushed, List.length_cons] at grows ⊢
        omega
      have areas : u.swapinfo = (s.modify ap.area (freed ap.index)).swapinfo := by
        rw [← released]
        exact both
      have sizes : Same s (s.modify ap.area (freed ap.index)) := modify_same fun _ => rfl
      have few : freeSlots (s.modify ap.area (freed ap.index)) < 2 ^ 29 :=
        lt_of_le_of_lt (freeSlots_le whole) (lt_of_le_of_lt sizes.frame.totalOf room)
      refine ⟨fun sip' here => whole sip' (areas ▸ here), ?_⟩
      change (u.aniFree + 1 : Word).toNat = (u.swapinfo.map openSlots).sum
      have free : u.aniFree = s.aniFree := by
        rw [← released]
        rfl
      have one : (1 : Word).toNat = 1 := rfl
      have before := counted.free
      rw [areas, free, BitVec.toNat_add, one]
      change _ = freeSlots (s.modify ap.area (freed ap.index))
      omega
    · cases result
      have sound := lowered_intact intact there (Nat.sub_le anon.refcnt 1)
      have same' := modify_freeSlots (fun sip => { sip with anon := sip.anon.modify ap.index (setRefcnt (anon.refcnt - 1)) })
        distinct member
      rw [same] at same'
      refine ⟨modify_intact _ counted.intact fun old before name => ?_, ?_⟩
      · rw [distinct.eq before member (name.trans same.symm)]
        exact sound
      · exact counted.free.trans (Nat.add_right_cancel same').symm

/-! ## Adding an area -/

theorem addMatch_intact {cvp pages : Nat} {soff eoff : Word} {name : String} {areas : List Swapinfo}
    (intact : ∀ sip ∈ areas, Intact sip) :
    addMatch cvp soff eoff pages name areas = .overlaps ∨ addMatch cvp soff eoff pages name areas = .absent := by
  induction areas with
  | nil => exact .inr rfl
  | cons sip rest ih =>
    have later := ih fun other there => intact other (.tail _ there)
    have flags := (intact sip (.head _)).flags
    rw [addMatch]
    simp only [flags, Bool.false_eq_true, and_false, if_false]
    split
    · split
      · exact .inl rfl
      · exact later
    · exact later

theorem newArea_intact (s : Device) (req : Request) (soff eoff : Word) (pages : Nat) :
    Intact (newArea s req soff eoff pages) := by
  refine ⟨⟨rfl, rfl, rfl⟩, fun ap there => ?_, ?_⟩
  · rw [List.eq_of_mem_replicate there]
  · have none : (List.replicate pages (⟨0, none⟩ : Anon)).countP (fun ap => 0 < ap.refcnt) = 0 :=
      List.countP_eq_zero.mpr fun ap there => by
        rw [List.eq_of_mem_replicate there]
        decide
    change (List.range pages).length + (List.replicate pages (⟨0, _⟩ : Anon)).countP _ ≤ pages
    rw [none, List.length_range, Nat.add_zero]

theorem addArea_counted {soff eoff pages : Word} (bounded : Bounded s) (counted : Counted s)
    (few : pages.toNat < 2 ^ 21) (result : addArea s req soff eoff pages = some t) : Counted t := by
  unfold addArea at result
  split at result
  · cases result
    have new := newArea_intact s req soff eoff pages.toNat
    have room := bounded.room
    have below := freeSlots_le counted.intact
    have free := counted.free
    refine ⟨fun sip there => ?_, ?_⟩
    · rcases List.mem_append.mp there with before | here
      · exact counted.intact sip before
      · exact List.mem_singleton.mp here ▸ new
    · have slots : openSlots (newArea s req soff eoff pages.toNat) = pages.toNat := by
        rw [openSlots_intact new]
        exact List.length_range
      simp only [freeSlots, List.map_append, List.sum_append, List.map_cons, List.map_nil, List.sum_cons, List.sum_nil, slots,
        BitVec.toNat_add] at free below ⊢
      rw [sizeofAnon] at room
      omega
  · cases result

theorem swapadd_counted (bounded : Bounded s) (counted : Counted s)
    (result : swapadd s req = some (outcome, t)) : Counted t := by
  unfold swapadd at result
  split at result
  · cases result
    exact counted
  · cases result
    exact counted
  · split at result
    · cases result
      exact counted
    · simp only at result
      split at result <;> rename_i matched
      · rcases addMatch_intact counted.intact with other | other <;> rw [matched] at other <;> cases other
      · rcases addMatch_intact counted.intact with other | other <;> rw [matched] at other <;> cases other
      · cases result
        exact counted
      · obtain ⟨u, done, pair⟩ := map_eq_some_iff.mp result
        cases pair
        exact addArea_counted bounded counted (btoc_lt _) done

/-! ## Runs -/

section
variable (bounded : Bounded s)
include bounded

theorem anonAlloc_bounded : Bounded (anonAlloc s).2 := by
  have same := swapAlloc_same s
  unfold anonAlloc
  rcases result : swapAlloc s with ⟨_ | ap, t⟩
  · rw [result] at same
    exact bounded.frame same.frame
  · rw [result] at same
    have slot : Bounded (t.setAnon ap (setRefcnt 1)) := bounded.frame (same.trans (setAnon_same ap _)).frame
    exact ⟨slot.distinct, slot.fresh, slot.max, slot.room, slot.memory, slot.small, slot.resv⟩

theorem anonDecref_bounded (result : anonDecref s ap = some t) : Bounded t := by
  unfold anonDecref at result
  split at result
  · cases result
  · split at result
    · obtain ⟨u, released, counts⟩ := bind_eq_some_iff.mp result
      cases counts
      have cleared : Same s (s.setAnon ap (setRefcnt 0)) := setAnon_same ap _
      have frame := cleared.frame.trans (swapFree_frame (cleared.frame.distinct bounded.distinct) released)
      have slot := bounded.frame frame
      exact ⟨slot.distinct, slot.fresh, slot.max, slot.room, slot.memory, slot.small, slot.resv⟩
    · cases result
      exact bounded.frame (setAnon_same ap _).frame

theorem swapdel_gives
    (spares : Spares minasmem s (.del req)) (result : swapdel s minasmem req = some (outcome, t)) :
    Bounded t ∧ (succeeds outcome = false → t = s) ∧
      (succeeds outcome = true → minasmem.toNat ≤ t.availsmem.toNat) := by
  unfold swapdel at result
  split at result <;> rename_i asked
  · cases result
    exact ⟨bounded, fun _ => rfl, fun done => by cases done⟩
  · rename_i osip
    obtain ⟨u, done, pair⟩ := map_eq_some_iff.mp result
    cases pair
    obtain ⟨there, live, enough⟩ := delMatch_gives asked
    have spare := spares osip asked
    obtain ⟨after, counters⟩ := deleteArea_gives bounded there live spare done
    refine ⟨after, (fun failed => by cases failed), fun _ => ?_⟩
    simp only [Device.counters, Prod.mk.injEq] at counters
    obtain ⟨_, _, _, _, low, high, under⟩ := bounded
    have small : (BitVec.ofNat 32 osip.npgs).toNat = osip.npgs := by
      rw [BitVec.toNat_ofNat]
      omega
    simp only [BitVec.lt_def, BitVec.toNat_sub, small] at enough
    rw [counters.2.2, BitVec.toNat_sub, small]
    omega

theorem run_bounded (given : GivesBack s event)
    (spares : Spares minasmem s event) (result : run minasmem event s = some (ok, t)) : Bounded t := by
  cases event with
  | resv size =>
    obtain rfl : (anonResv s minasmem size).2 = t := congrArg Prod.snd (Option.some.inj result)
    cases done : (anonResv s minasmem size).1
    · rw [anonResv_failed done]
      exact bounded
    · exact (anonResv_gives bounded done).1
  | unresv size =>
    cases result
    exact anonUnresv_bounded bounded given
  | add req =>
    obtain ⟨⟨outcome, u⟩, done, pair⟩ := map_eq_some_iff.mp result
    cases pair
    exact (swapadd_gives bounded done).1
  | del req =>
    obtain ⟨⟨outcome, u⟩, done, pair⟩ := map_eq_some_iff.mp result
    cases pair
    exact (swapdel_gives bounded spares done).1
  | alloc =>
    obtain rfl : (anonAlloc s).2 = t := congrArg Prod.snd (Option.some.inj result)
    exact anonAlloc_bounded bounded
  | decref ap =>
    obtain ⟨u, done, pair⟩ := map_eq_some_iff.mp result
    cases pair
    exact anonDecref_bounded bounded done

theorem run_counted (counted : Counted s)
    (refused : Refused minasmem s event) (result : run minasmem event s = some (ok, t)) : Counted t := by
  cases event with
  | resv size =>
    obtain rfl : (anonResv s minasmem size).2 = t := congrArg Prod.snd (Option.some.inj result)
    unfold anonResv
    simp only
    split
    · exact counted
    · split <;> exact ⟨counted.intact, counted.free⟩
  | unresv size =>
    cases result
    exact ⟨counted.intact, counted.free⟩
  | add req =>
    obtain ⟨⟨outcome, u⟩, done, pair⟩ := map_eq_some_iff.mp result
    cases pair
    exact swapadd_counted bounded counted done
  | del req =>
    obtain ⟨⟨outcome, u⟩, done, pair⟩ := map_eq_some_iff.mp result
    cases pair
    unfold swapdel at done
    split at done <;> rename_i asked
    · cases done
      exact counted
    · exact absurd asked (refused _)
  | alloc =>
    obtain rfl : (anonAlloc s).2 = t := congrArg Prod.snd (Option.some.inj result)
    exact anonAlloc_counted bounded.distinct counted
  | decref ap =>
    obtain ⟨u, done, pair⟩ := map_eq_some_iff.mp result
    cases pair
    have few : totalOf s.shapes < 2 ^ 29 := by
      have room := bounded.room
      rw [sizeofAnon] at room
      omega
    exact anonDecref_counted bounded.distinct few counted done

end

theorem boot_bounded (boot : Boot s) : Bounded s ∧ Counted s := by
  obtain ⟨areas, _, max, free, resv, memory⟩ := boot
  have none : s.shapes = [] := by rw [Device.shapes, areas, List.map_nil]
  have zero : (0 : Word).toNat = 0 := rfl
  refine ⟨⟨?_, ?_, ?_, ?_, ?_, ?_, ?_⟩, ?_, ?_⟩
  · rw [Distinct, none]
    exact List.nodup_nil
  · rw [none]
    exact fun _ there => by cases there
  · rw [none, max]
    rfl
  · rw [none]
    decide
  · rw [max]
    exact Nat.zero_le _
  · rw [max, resv, zero]
    omega
  · rw [max, resv]
  · rw [areas]
    exact fun _ there => by cases there
  · rw [freeSlots, areas, free]
    rfl

end

/-- The calls that have to leave enough behind when they succeed. -/
def claims : Event → Bool
  | .resv _ => true
  | .del _ => true
  | _ => false

section
variable {s t : Device} {minasmem : Word}

theorem reaches_bounded (reached : Reaches Boot (Step minasmem) (fun s event => GivesBack s event ∧ Spares minasmem s event) s) :
    Bounded s :=
  reached.invariant (fun _ boot => (boot_bounded boot).1) fun _ _ _ bounded ⟨_, result⟩ allowed =>
    run_bounded bounded allowed.1 allowed.2 result

theorem refused_spares {event : Event} (refused : Refused minasmem s event) : Spares minasmem s event := by
  cases event with
  | del req => exact fun osip asked => absurd asked (refused osip)
  | _ => trivial

theorem reaches_counted (reached : Reaches Boot (Step minasmem) (fun s event => GivesBack s event ∧ Refused minasmem s event) s) :
    Bounded s ∧ Counted s :=
  reached.invariant (fun _ boot => boot_bounded boot) fun _ _ _ held ⟨_, result⟩ allowed =>
    ⟨run_bounded held.1 allowed.1 (refused_spares allowed.2) result, run_counted held.1 held.2 allowed.2 result⟩

theorem swapAllocFrom_aniFree (s : Device) (ids : List Nat) : (swapAllocFrom s ids).2.aniFree = s.aniFree := by
  induction ids generalizing s with
  | nil => rfl
  | cons id rest ih =>
    rw [swapAllocFrom]
    split
    · exact ih s
    · split
      · exact ih s
      · split
        · exact ih _
        · rfl

theorem anonAlloc_failed (failed : (anonAlloc s).1 = false) :
    (anonAlloc s).2.counters = s.counters ∧ (anonAlloc s).2.aniFree = s.aniFree := by
  have same := (swapAlloc_same s).counters
  have free := swapAllocFrom_aniFree s s.round
  unfold anonAlloc at failed ⊢
  rcases result : swapAlloc s with ⟨_ | ap, t⟩
  · rw [swapAlloc] at result
    rw [swapAlloc, result] at same
    rw [result] at free
    exact ⟨same, free⟩
  · rw [result] at failed
    cases failed

/-- What a call leaves behind, as long as no deletion has taken away reserved pages. -/
theorem run_leaves {event : Event} {ok : Bool} (tunable : 0 ≤ minasmem.toInt) (bounded : Bounded s)
    (given : GivesBack s event) (spares : Spares minasmem s event) (result : run minasmem event s = some (ok, t)) :
    (ok = true → claims event = true → t.aniResv ≤ t.aniMax ∧ minasmem.toInt ≤ t.availsmem.toInt) ∧
      (ok = false → t.counters = s.counters ∧ t.aniFree = s.aniFree) := by
  have after := run_bounded bounded given spares result
  have top := after.max_lt
  have ⟨_, _, _, _, low, high, under⟩ := after
  have memory : t.availsmem.toInt = t.availsmem.toNat := toInt_of_lt (by omega)
  have least : minasmem.toInt = minasmem.toNat := by
    have cases' := BitVec.toInt_eq_toNat_cond minasmem
    have below := minasmem.isLt
    split at cases' <;> omega
  have enough : minasmem.toNat ≤ t.availsmem.toNat → t.aniResv ≤ t.aniMax ∧ minasmem.toInt ≤ t.availsmem.toInt :=
    fun least' => ⟨BitVec.le_def.mpr under, by omega⟩
  cases event with
  | resv size =>
    have both : anonResv s minasmem size = (ok, t) := Option.some.inj result
    refine ⟨fun done _ => enough ?_, fun failed => ?_⟩
    · have granted : (anonResv s minasmem size).1 = true := by rw [both, done]
      have gives := (anonResv_gives bounded granted).2
      rwa [both] at gives
    · have refused : (anonResv s minasmem size).1 = false := by rw [both, failed]
      have same := anonResv_failed refused
      rw [both] at same
      exact same ▸ ⟨rfl, rfl⟩
  | unresv size =>
    cases result
    exact ⟨fun _ claim => by (cases claim), fun failed => by cases failed⟩
  | add req =>
    obtain ⟨⟨outcome, u⟩, done, pair⟩ := map_eq_some_iff.mp result
    cases pair
    exact ⟨fun _ claim => by (cases claim), fun failed => (swapadd_gives bounded done).2 failed ▸ ⟨rfl, rfl⟩⟩
  | del req =>
    obtain ⟨⟨outcome, u⟩, done, pair⟩ := map_eq_some_iff.mp result
    cases pair
    have ⟨_, failed, done⟩ := swapdel_gives bounded spares done
    exact ⟨fun ok _ => enough (done ok), fun fails => failed fails ▸ ⟨rfl, rfl⟩⟩
  | alloc =>
    refine ⟨fun _ claim => by (cases claim), fun failed => ?_⟩
    have both : anonAlloc s = (ok, t) := Option.some.inj result
    have same := anonAlloc_failed (s := s) (by rw [both, failed])
    rwa [both] at same
  | decref ap =>
    obtain ⟨u, done, pair⟩ := map_eq_some_iff.mp result
    cases pair
    exact ⟨fun _ claim => by (cases claim), fun failed => by cases failed⟩

end

/-- As long as no deletion takes away reserved pages, every call that succeeds leaves enough of swap and
memory and one that fails leaves the counts alone; and until an area is deleted, the free slots are
those that are counted. -/
theorem reservations_kept (minasmem : Word) (tunable : 0 ≤ minasmem.toInt) :
    (∀ s, Reaches Boot (Step minasmem) (fun s event => GivesBack s event ∧ Spares minasmem s event) s →
      ∀ event ok t, GivesBack s event → Spares minasmem s event → run minasmem event s = some (ok, t) →
        (ok = true → claims event = true → t.aniResv ≤ t.aniMax ∧ minasmem.toInt ≤ t.availsmem.toInt) ∧
          (ok = false → t.counters = s.counters ∧ t.aniFree = s.aniFree)) ∧
      ∀ s, Reaches Boot (Step minasmem) (fun s event => GivesBack s event ∧ Refused minasmem s event) s →
        s.aniFree.toNat = freeSlots s := by
  constructor
  · intro s reached event ok t given spares result
    exact run_leaves tunable (reaches_bounded reached) given spares result
  · intro s reached
    exact (reaches_counted reached).2.free

/-! ## Two disks of four pages each -/

/-- A machine of four pages of memory, without swap. -/
def booted : Device :=
  { swapinfo := [], silast := none, nextId := 0, nswapfiles := 0, aniMax := 0, aniFree := 0, aniResv := 0, availsmem := 4 }

/-- A disk of sixteen blocks. -/
def disk (vp : Nat) : Request :=
  { vp := vp, cvp := vp, lowblk := 0, nblks := 16, swapname := "disk", opens := .inr (), size := .inr 8192,
    resident := fun _ => false }

def playEvents (minasmem : Word) : List Event → Device → Option Device
  | [], s => some s
  | event :: events, s => (run minasmem event s).bind fun result => playEvents minasmem events result.2

theorem booted_boot : Boot booted := ⟨rfl, rfl, rfl, rfl, rfl, by decide⟩

variable {guard : Device → Event → Prop}

theorem playEvents_reaches {minasmem : Word} {events : List Event} {s t : Device}
    (allowed : ∀ s, ∀ event ∈ events, guard s event) (reached : Reaches Boot (Step minasmem) guard s)
    (result : playEvents minasmem events s = some t) : Reaches Boot (Step minasmem) guard t := by
  induction events generalizing s with
  | nil =>
    cases result
    exact reached
  | cons event events ih =>
    obtain ⟨⟨ok, u⟩, first, rest⟩ := bind_eq_some_iff.mp result
    have next := Reaches.next reached ⟨ok, first⟩ (allowed s event (.head _))
    exact ih (fun s other there => allowed s other (.tail _ there)) next rest

/-- Both disks are added, and six pages are reserved. -/
def reserving : List Event := [.add (disk 1), .add (disk 2), .resv 12288]

def reserved : Device := ((playEvents 1 reserving booted).getD booted)

theorem reserving_plays : playEvents 1 reserving booted = some reserved := by decide +kernel

theorem reserved_reaches (free : ∀ s, ∀ event ∈ reserving, guard s event) :
    Reaches Boot (Step 1) guard reserved := playEvents_reaches free (.start booted_boot) reserving_plays

theorem reserving_allowed (minasmem : Word) : ∀ s, ∀ event ∈ reserving,
    GivesBack s event ∧ Spares minasmem s event ∧ Refused minasmem s event := by
  intro s event there
  simp only [reserving, List.mem_cons, List.not_mem_nil, or_false] at there
  rcases there with rfl | rfl | rfl <;> exact ⟨trivial, trivial, trivial⟩

/-- Two more pages are reserved, and no free slot has got lost. -/
theorem reservations_kept_reserved :
    (anonResv reserved 1 4096).1 = true ∧ (anonResv reserved 1 4096).2.aniResv ≤ (anonResv reserved 1 4096).2.aniMax ∧
      reserved.aniFree.toNat = freeSlots reserved := by
  have kept := reservations_kept 1 (by decide)
  have granted : (anonResv reserved 1 4096).1 = true := by decide +kernel
  have first := kept.1 reserved (reserved_reaches fun s event there => ⟨(reserving_allowed 1 s event there).1,
    (reserving_allowed 1 s event there).2.1⟩) (.resv 4096) true (anonResv reserved 1 4096).2 trivial trivial
    (congrArg some (Prod.ext granted rfl))
  exact ⟨granted, (first.1 rfl rfl).1, kept.2 reserved (reserved_reaches fun s event there =>
    ⟨(reserving_allowed 1 s event there).1, (reserving_allowed 1 s event there).2.2⟩)⟩

/-- With six of eight pages reserved, a disk of four pages is deleted all the same. -/
theorem reservations_exceed :
    Reaches Boot (Step 1) GivesBack reserved ∧
      ∃ t, run 1 (.del (disk 2)) reserved = some (true, t) ∧ ¬ t.aniResv ≤ t.aniMax ∧ t.aniFree.toNat ≠ freeSlots t := by
  refine ⟨reserved_reaches fun s event there => (reserving_allowed 1 s event there).1,
    ((run 1 (.del (disk 2)) reserved).getD (true, reserved)).2, ?_⟩
  decide +kernel

end Svr4.Swap
