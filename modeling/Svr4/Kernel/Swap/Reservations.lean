import Svr4.Foundation.Execution
import Svr4.Foundation.Keyed
import Svr4.Kernel.Swap.Frame

/-! Swap reservations against what there is of swap and memory. -/

namespace Svr4.Swap

open List (map_map map_cons sum_cons mem_map_of_mem mem_map map_append map_nil)
open BitVec (toNat_add toNat_sub ofNat)

/-- Nothing is swapped yet; the memory of the machine is counted in pages of a 32-bit address space. -/
def Boot (s : Device) : Prop :=
  s.swapinfo = [] ∧ s.silast = none ∧ s.aniMax = 0 ∧ s.aniFree = 0 ∧ s.aniResv = 0 ∧ s.availsmem.toNat ≤ 2 ^ 21

def Step (minasmem : Word) (s : Device) (event : Event) (t : Device) : Prop :=
  ∃ ok, run minasmem event s = some (ok, t)

/-- Amounts given back have been reserved before. -/
def GivesBack (s : Device) : Event → Prop
  | .unresv size => btopr size ≤ s.aniResv
  | _ => True

/-- An area that is deleted leaves as many pages as are reserved. -/
def Spares (minasmem : Word) (s : Device) : Event → Prop
  | .del req => ∀ osip, delMatch s minasmem req.cvp req.lowblk = .inr osip → s.aniResv.toNat + osip.npgs ≤ s.aniMax.toNat
  | _ => True

/-- No area is deleted. -/
def Refused (minasmem : Word) (s : Device) : Event → Prop
  | .del req => ∀ osip, delMatch s minasmem req.cvp req.lowblk ≠ .inr osip
  | _ => True

/-- The page counts are true numbers, and no more is reserved than there is. -/
structure Bounded (s : Device) : Prop where
  distinct : Distinct s
  fresh : ∀ area ∈ s.shapes, area.id < s.nextId
  max : s.aniMax.toNat = liveOf s.shapes
  room : sizeofAnon * totalOf s.shapes < 2 ^ 32
  memory : s.aniMax.toNat ≤ s.availsmem.toNat + s.aniResv.toNat
  small : s.availsmem.toNat + s.aniResv.toNat ≤ s.aniMax.toNat + 2 ^ 21
  resv : s.aniResv.toNat ≤ s.aniMax.toNat

section
variable {s t : Device} {minasmem size : Word} {id cvp : Nat} {change : Swapinfo → Swapinfo} {osip sip : Swapinfo}
  {resident : Slot → Bool} {req : Request}

theorem liveOf_le_totalOf (areas : List Shape) : liveOf areas ≤ totalOf areas :=
  List.Sublist.sum_le_sum (List.filter_sublist.map Shape.npgs) fun _ _ => Nat.zero_le _

theorem Bounded.max_lt (bounded : Bounded s) : s.aniMax.toNat < 2 ^ 29 := by
  have live := liveOf_le_totalOf s.shapes
  have room := bounded.room
  rw [sizeofAnon] at room
  rw [bounded.max]
  omega

theorem btopr_lt (size : Word) : (btopr size).toNat < 2 ^ 21 := by
  rw [btopr, BitVec.toNat_ushiftRight, Nat.shiftRight_eq_div_pow]
  omega

theorem btoc_lt (size : Word) : (btoc size).toNat < 2 ^ 21 := btopr_lt size

theorem toInt_of_lt {x : Word} (small : x.toNat < 2 ^ 31) : x.toInt = x.toNat :=
  BitVec.toInt_eq_toNat_of_lt (by omega)

theorem Bounded.frame (bounded : Bounded s) (frame : Frame s t) : Bounded t := by
  have counters := frame.counters
  simp only [Device.counters, Prod.mk.injEq] at counters
  obtain ⟨max, resv, memory⟩ := counters
  refine ⟨frame.distinct bounded.distinct, fun area there => ?_, ?_, ?_, ?_, ?_, ?_⟩
  · rw [frame.nextId]
    exact bounded.fresh area (frame.areas.subset there)
  · rw [max, frame.liveOf, bounded.max]
  · exact lt_of_le_of_lt (Nat.mul_le_mul_left _ frame.totalOf) bounded.room
  · rw [max, resv, memory]
    exact bounded.memory
  · rw [max, resv, memory]
    exact bounded.small
  · rw [max, resv]
    exact bounded.resv

/-! ## Reserving -/

theorem anonResv_failed (failed : (anonResv s minasmem size).1 = false) : (anonResv s minasmem size).2 = s := by
  unfold anonResv at *
  simp only at *
  split at failed <;> rename_i low
  · rw [if_pos low]
  · split at failed <;> rename_i many
    · rw [if_neg low, if_pos many, BitVec.add_sub_cancel]
    · cases failed

theorem anonResv_gives (bounded : Bounded s) (done : (anonResv s minasmem size).1 = true) :
    Bounded (anonResv s minasmem size).2 ∧ minasmem.toNat ≤ (anonResv s minasmem size).2.availsmem.toNat := by
  have ⟨_, _, max, _, memory, small, resv⟩ := bounded
  have top := bounded.max_lt
  unfold anonResv at *
  simp only at *
  split at done <;> rename_i low
  · cases done
  · split at done <;> rename_i many
    · cases done
    · rw [if_neg low, if_neg many]
      simp only [BitVec.lt_def, toNat_add, toNat_sub] at low many
      refine ⟨⟨bounded.distinct, bounded.fresh, max, bounded.room, ?_, ?_, ?_⟩, ?_⟩
      all_goals simp only [toNat_add, toNat_sub]
      all_goals omega

theorem anonUnresv_bounded (bounded : Bounded s) (given : btopr size ≤ s.aniResv) : Bounded (anonUnresv s size) := by
  have ⟨_, _, max, _, memory, small, resv⟩ := bounded
  have top := bounded.max_lt
  rw [BitVec.le_def] at given
  refine ⟨bounded.distinct, bounded.fresh, max, bounded.room, ?_, ?_, ?_⟩
  all_goals simp only [anonUnresv, toNat_add, toNat_sub]
  all_goals omega

/-! ## Areas that change their flags -/

/-- The change of one area, told by its id. -/
def onArea (id : Nat) (change : Shape → Shape) (area : Shape) : Shape := if area.id = id then change area else area

theorem modify_shapes {flags : Shape → Shape}
    (told : ∀ sip, shape (change sip) = flags (shape sip)) :
    (s.modify id change).shapes = s.shapes.map (onArea id flags) := by
  simp only [Device.shapes, Device.modify, map_map]
  apply List.map_congr_left
  intro sip _
  simp only [Function.comp_apply, onArea]
  by_cases here : sip.id = id
  · rw [if_pos here, if_pos (by exact here), told]
  · rw [if_neg here, if_neg (by exact here)]

theorem onArea_ids {flags : Shape → Shape} (keeps : ∀ area, (flags area).id = area.id) (id : Nat) (areas : List Shape) :
    (areas.map (onArea id flags)).map Shape.id = areas.map Shape.id := by
  rw [map_map]
  apply List.map_congr_left
  intro area _
  simp only [Function.comp_apply, onArea]
  split
  · exact keeps area
  · rfl

theorem onArea_totalOf {flags : Shape → Shape} (keeps : ∀ area, (flags area).npgs = area.npgs) (id : Nat)
    (areas : List Shape) : totalOf (areas.map (onArea id flags)) = totalOf areas := by
  unfold totalOf
  rw [map_map]
  congr 1
  apply List.map_congr_left
  intro area _
  simp only [Function.comp_apply, onArea]
  split
  · exact keeps area
  · rfl

/-- What an area adds to the live pages. -/
def worth (area : Shape) : Nat := if area.deleted then 0 else area.npgs

theorem liveOf_eq (areas : List Shape) : liveOf areas = (areas.map worth).sum := by
  induction areas with
  | nil => rfl
  | cons area areas ih =>
    rw [map_cons, sum_cons, ← ih, liveOf, liveOf, worth]
    cases gone : area.deleted <;> simp [gone]

theorem liveOf_cons (area : Shape) (areas : List Shape) : liveOf (area :: areas) = worth area + liveOf areas := by
  rw [liveOf_eq, liveOf_eq, map_cons, sum_cons]

theorem onArea_liveOf (flags : Shape → Shape) {area : Shape} {areas : List Shape} (nodup : (areas.map Shape.id).Nodup)
    (there : area ∈ areas) :
    liveOf (areas.map (onArea area.id flags)) + worth area = liveOf areas + worth (flags area) := by
  rw [liveOf_eq, liveOf_eq]
  exact changeAt_sum worth flags nodup there

theorem filter_liveOf (id : Nat) (areas : List Shape) :
    liveOf (areas.filter fun area => area.id ≠ id) = liveOf (areas.map (onArea id fun area => { area with deleted := true })) := by
  induction areas with
  | nil => rfl
  | cons head tail ih =>
    rw [map_cons, liveOf_cons, ← ih]
    by_cases here : head.id = id
    · rw [List.filter_cons_of_neg (by simpa using here), onArea, if_pos here, worth, if_pos rfl, Nat.zero_add]
    · rw [List.filter_cons_of_pos (by simpa using here), onArea, if_neg here, liveOf_cons]

/-! ## Deleting an area -/

theorem delMatch_gives {lowblk : Word} (asked : delMatch s minasmem cvp lowblk = .inr osip) :
    osip ∈ s.swapinfo ∧ osip.deleted = false ∧
      ¬ s.aniMax - s.aniResv - ofNat 32 osip.npgs < minasmem := by
  unfold delMatch at asked
  simp only at asked
  split at asked
  · cases asked
  · rename_i found
    have ⟨there, what⟩ := List.mem_filter.mp (List.mem_of_getLast? found)
    split at asked
    · cases asked
    · split at asked <;> rename_i low
      · cases asked
      · cases asked
        simp only [isAsked, decide_eq_true_eq, Bool.not_eq_true] at what
        exact ⟨there, what.2.2.2.2, low⟩

theorem find_shape (found : s.find id = some sip) : shape sip ∈ s.shapes ∧ (shape sip).id = id :=
  have ⟨member, same⟩ := find_mem found
  ⟨mem_map_of_mem member, same⟩

theorem Distinct.shape_eq (distinct : Distinct s) {area other : Shape} (here : area ∈ s.shapes) (there : other ∈ s.shapes)
    (same : area.id = other.id) : area = other := List.inj_on_of_nodup_map distinct here there same

def marked (area : Shape) : Shape := { area with deleted := true }

def entered (area : Shape) : Shape := { area with inDel := true }

/-- What `releaseArea` does to the areas. -/
structure Released (s : Device) (area : Shape) (t : Device) : Prop where
  distinct : Distinct t
  old : ∀ other ∈ t.shapes, ∃ before ∈ s.shapes, other.id = before.id
  live : liveOf t.shapes + area.npgs = liveOf s.shapes
  total : totalOf t.shapes ≤ totalOf s.shapes
  counters : t.counters = s.counters
  nextId : t.nextId = s.nextId

theorem releaseArea_gives (distinct : Distinct s) (there : shape sip ∈ s.shapes)
    (live : sip.deleted = false) (result : releaseArea s sip = some t) : Released s (shape sip) t := by
  have less : liveOf (s.shapes.map (onArea sip.id marked)) + sip.npgs = liveOf s.shapes := by
    have whole := onArea_liveOf marked distinct there
    simpa only [worth, marked, shape, live, Bool.false_eq_true, if_false, if_true, Nat.add_zero] using whole
  unfold releaseArea at result
  split at result
  · unfold swapinfoFree at result
    split at result
    · cases result
      have left : (s.swapinfo.filter fun other => other.id ≠ sip.id).map shape = s.shapes.filter fun area => area.id ≠ sip.id := by
        simp only [Device.shapes, List.filter_map]
        rfl
      refine ⟨((List.filter_sublist.map shape).map Shape.id).nodup distinct, fun other here => ?_, ?_, ?_, rfl, rfl⟩
      · have kept : other ∈ (s.swapinfo.filter fun other => other.id ≠ sip.id).map shape := here
        rw [left] at kept
        exact ⟨other, (List.mem_filter.mp kept).1, rfl⟩
      · simp only [Device.shapes, left, filter_liveOf]
        exact less
      · exact List.Sublist.sum_le_sum ((List.filter_sublist.map shape).map Shape.npgs) fun _ _ => Nat.zero_le _
    · cases result
  · cases result
    have told : (s.modify sip.id fun sip => { sip with deleted := true }).shapes = s.shapes.map (onArea sip.id marked) :=
      modify_shapes fun _ => rfl
    refine ⟨?_, fun other here => ?_, ?_, ?_, rfl, rfl⟩
    · rw [Distinct, told, onArea_ids (by exact fun _ => rfl)]
      exact distinct
    · rw [told] at here
      obtain ⟨old, before, rfl⟩ := mem_map.mp here
      exact ⟨old, before, by unfold onArea; split <;> rfl⟩
    · rw [told]
      exact less
    · rw [told, onArea_totalOf (by exact fun _ => rfl)]

theorem emptyArea_same (result : emptyArea s resident osip = some t) : Same s t := by
  unfold emptyArea at result
  split at result
  · exact delswap_same result
  · cases result
    exact .refl s

theorem deleteArea_gives (bounded : Bounded s) (there : osip ∈ s.swapinfo)
    (live : osip.deleted = false) (spares : s.aniResv.toNat + osip.npgs ≤ s.aniMax.toNat)
    (result : deleteArea s resident osip = some t) :
    Bounded t ∧ t.counters = (s.aniMax - ofNat 32 osip.npgs, s.aniResv, s.availsmem - ofNat 32 osip.npgs) := by
  obtain ⟨t₁, emptied, rest⟩ := Option.bind_eq_some_iff.mp result
  have kept : Same (beginDelete s osip) (t₁.modify osip.id fun sip => { sip with doingDel := false }) :=
    (emptyArea_same emptied).trans (modify_same fun _ => rfl)
  have began : (beginDelete s osip).shapes = s.shapes.map (onArea osip.id entered) := modify_shapes fun _ => rfl
  have ids : Distinct (beginDelete s osip) := by
    rw [Distinct, began, onArea_ids (by exact fun _ => rfl)]
    exact bounded.distinct
  unfold finishDelete at rest
  split at rest
  · cases rest
  · rename_i sip found
    -- the area found is the one asked for, and no one turned its flag off
    obtain ⟨here, same⟩ := find_shape found
    have mine : entered (shape osip) ∈ (beginDelete s osip).shapes := by
      rw [began]
      exact mem_map.mpr ⟨shape osip, mem_map_of_mem there, if_pos rfl⟩
    have which : shape sip = entered (shape osip) := ids.shape_eq (kept.shapes ▸ here) mine same
    have inDel : sip.inDel = true := congrArg Shape.inDel which
    have standing : sip.deleted = false := (congrArg Shape.deleted which).trans live
    have size : sip.npgs = osip.npgs := congrArg Shape.npgs which
    rw [if_pos inDel] at rest
    obtain ⟨u, released, rfl⟩ := Option.map_eq_some_iff.mp rest
    have gives := releaseArea_gives (kept.frame.distinct ids) here standing released
    have counters := gives.counters.trans kept.counters
    simp only [Device.counters, Prod.mk.injEq] at counters
    obtain ⟨max, resv, memory⟩ := counters
    have pages : liveOf u.shapes + osip.npgs = liveOf s.shapes := by
      have alike := gives.live
      rw [kept.shapes, began] at alike
      have whole := onArea_liveOf entered bounded.distinct (mem_map_of_mem there)
      have worthless : worth (entered (shape osip)) = worth (shape osip) := rfl
      simp only [shape] at alike whole worthless
      omega
    have total : totalOf u.shapes ≤ totalOf s.shapes := by
      have below := gives.total
      rwa [kept.shapes, began, onArea_totalOf (by exact fun _ => rfl)] at below
    have room := bounded.room
    have top := bounded.max_lt
    have live' := bounded.max
    have low := bounded.memory
    have high := bounded.small
    have small : (ofNat 32 osip.npgs).toNat = osip.npgs := by
      rw [BitVec.toNat_ofNat]
      omega
    refine ⟨⟨gives.distinct, fun area member => ?_, ?_, ?_, ?_, ?_, ?_⟩, ?_⟩
    · obtain ⟨old, before, name⟩ := gives.old area member
      rw [kept.shapes, began] at before
      obtain ⟨first, start, rfl⟩ := mem_map.mp before
      have below := bounded.fresh first start
      have unnamed : (onArea osip.id entered first).id = first.id := by
        unfold onArea
        split <;> rfl
      have next : u.nextId = s.nextId := gives.nextId.trans kept.nextId
      simp only [next]
      omega
    · simp only [max, beginDelete, toNat_sub, small]
      change _ = liveOf u.shapes
      omega
    · exact lt_of_le_of_lt (Nat.mul_le_mul_left _ total) room
    · simp only [max, resv, memory, beginDelete, Device.modify, toNat_sub, small]
      omega
    · simp only [max, resv, memory, beginDelete, Device.modify, toNat_sub, small]
      omega
    · simp only [max, resv, beginDelete, Device.modify, toNat_sub, small]
      omega
    · simp only [Device.counters, max, resv, memory]
      rfl

/-! ## Adding an area -/

theorem Bounded.flags (flags : Shape → Shape) (bounded : Bounded s)
    (told : ∀ sip, shape (change sip) = flags (shape sip))
    (keeps : ∀ area, (flags area).id = area.id ∧ (flags area).npgs = area.npgs ∧ (flags area).deleted = area.deleted) :
    Bounded (s.modify id change) := by
  have shapes : (s.modify id change).shapes = s.shapes.map (onArea id flags) := modify_shapes told
  have ids : ((s.modify id change).shapes).map Shape.id = s.shapes.map Shape.id := by
    rw [shapes, onArea_ids fun area => (keeps area).1]
  refine ⟨?_, fun area there => ?_, ?_, ?_, bounded.memory, bounded.small, bounded.resv⟩
  · rw [Distinct, ids]
    exact bounded.distinct
  · have name : area.id ∈ s.shapes.map Shape.id := ids ▸ mem_map_of_mem there
    obtain ⟨old, before, same⟩ := mem_map.mp name
    exact same ▸ bounded.fresh old before
  · refine bounded.max.trans ?_
    rw [shapes]
    clear shapes ids
    induction s.shapes with
    | nil => rfl
    | cons head tail ih =>
      rw [map_cons, liveOf_cons, liveOf_cons, ← ih]
      congr 1
      by_cases here : head.id = id
      · rw [onArea, if_pos here, worth, worth, (keeps head).2.1, (keeps head).2.2]
      · rw [onArea, if_neg here]
  · rw [shapes, onArea_totalOf fun area => (keeps area).2.1]
    exact bounded.room

theorem addMatch_undelete {pages : Nat} {soff eoff : Word} {name : String} {areas : List Swapinfo}
    (found : addMatch cvp soff eoff pages name areas = .undelete id) : ∃ sip ∈ areas, sip.id = id ∧ sip.deleted = true := by
  induction areas with
  | nil => cases found
  | cons sip rest ih =>
    have later : addMatch cvp soff eoff pages name rest = .undelete id →
        ∃ sip' ∈ sip :: rest, sip'.id = id ∧ sip'.deleted = true := fun found =>
      have ⟨other, there, facts⟩ := ih found
      ⟨other, .tail _ there, facts⟩
    rw [addMatch] at found
    split at found <;> rename_i gone
    · split at found
      · cases found
        exact ⟨sip, (.head _), rfl, gone⟩
      · exact later found
    · split at found
      · split at found
        · cases found
        · split at found
          · cases found
          · exact later found
      · exact later found

def unmarked (area : Shape) : Shape := { area with deleted := false }

theorem undelete_bounded (bounded : Bounded s) (there : sip ∈ s.swapinfo)
    (gone : sip.deleted = true) (result : undelete s req sip.id = some t) : Bounded t := by
  obtain ⟨u, relocated, rest⟩ := Option.bind_eq_some_iff.mp result
  obtain ⟨back, found, rfl⟩ := Option.map_eq_some_iff.mp rest
  have told : (s.modify sip.id fun sip => { sip with svp := req.vp, vp := req.cvp, deleted := false }).shapes =
      s.shapes.map (onArea sip.id unmarked) := modify_shapes fun _ => rfl
  have ids : Distinct (s.modify sip.id fun sip => { sip with svp := req.vp, vp := req.cvp, deleted := false }) := by
    rw [Distinct, told, onArea_ids (by exact fun _ => rfl)]
    exact bounded.distinct
  have frame := undelswap_frame ids relocated
  have mine : unmarked (shape sip) ∈ s.shapes.map (onArea sip.id unmarked) :=
    mem_map.mpr ⟨shape sip, mem_map_of_mem there, if_pos rfl⟩
  obtain ⟨here, same⟩ := find_shape found
  have which : shape back = unmarked (shape sip) := ids.shape_eq (frame.areas.subset here) (told ▸ mine) same
  have size : back.npgs = sip.npgs := congrArg Shape.npgs which
  have live : liveOf u.shapes = liveOf s.shapes + sip.npgs := by
    have alike := frame.liveOf
    rw [told] at alike
    have whole := onArea_liveOf unmarked bounded.distinct (mem_map_of_mem there)
    simp only [worth, unmarked, shape, gone, if_true, Bool.false_eq_true, if_false] at whole
    exact alike.trans whole
  have total : totalOf u.shapes ≤ totalOf s.shapes := by
    have below := frame.totalOf
    rwa [told, onArea_totalOf (by exact fun _ => rfl)] at below
  have counters := frame.counters
  simp only [Device.counters, Device.modify, Prod.mk.injEq] at counters
  obtain ⟨max, resv, memory⟩ := counters
  obtain ⟨distinct, fresh, max', room, low, high, under⟩ := bounded
  have few : totalOf u.shapes < 2 ^ 29 := by
    rw [sizeofAnon] at room
    omega
  have within := liveOf_le_totalOf u.shapes
  have small : (ofNat 32 back.npgs).toNat = sip.npgs := by
    rw [BitVec.toNat_ofNat, size]
    omega
  have counted : Bounded { u with
      aniMax := u.aniMax + ofNat 32 back.npgs
      availsmem := u.availsmem + ofNat 32 back.npgs
      nswapfiles := u.nswapfiles + 1 } := by
    refine ⟨frame.distinct ids, fun area member => ?_, ?_, ?_, ?_, ?_, ?_⟩
    · have before := frame.areas.subset member
      rw [told] at before
      obtain ⟨old, start, rfl⟩ := mem_map.mp before
      have name : (onArea sip.id unmarked old).id = old.id := by
        unfold onArea
        split <;> rfl
      have next : u.nextId = s.nextId := frame.nextId
      simp only [name, next]
      exact fresh old start
    · change (u.aniMax + _).toNat = liveOf u.shapes
      simp only [max, toNat_add, small]
      omega
    · exact lt_of_le_of_lt (Nat.mul_le_mul_left _ total) room
    all_goals simp only [max, resv, memory, toNat_add, small]
    all_goals omega
  exact counted.flags (fun area => { area with inDel := false }) (fun _ => rfl) fun _ => ⟨rfl, rfl, rfl⟩

theorem addArea_bounded {soff eoff pages : Word} (bounded : Bounded s) (few : pages.toNat < 2 ^ 21)
    (result : addArea s req soff eoff pages = some t) : Bounded t := by
  unfold addArea at result
  split at result <;> rename_i roomy
  · cases result
    have ⟨distinct, fresh, max, room, low, high, under⟩ := bounded
    have top := bounded.max_lt
    have shapes : (s.swapinfo ++ [newArea s req soff eoff pages.toNat]).map shape =
        s.shapes ++ [⟨s.nextId, pages.toNat, false, false⟩] := by
      simp only [map_append, Device.shapes]
      rfl
    have wide : sizeofAnon * (totalOf s.shapes + pages.toNat) < 2 ^ 32 := by
      have sizes : s.swapinfo.map Swapinfo.npgs = s.shapes.map Shape.npgs := by
        simp only [Device.shapes, map_map]
        rfl
      simpa only [roomFor, decide_eq_true_eq, sizes, totalOf] using roomy
    refine ⟨?_, fun area member => ?_, ?_, ?_, ?_, ?_, ?_⟩
    · simp only [Distinct, Device.shapes, shapes, map_append, map_cons, map_nil]
      refine List.nodup_append.mpr ⟨distinct, List.nodup_singleton _, ?_⟩
      intro name before other there
      obtain ⟨old, start, rfl⟩ := mem_map.mp before
      cases List.mem_singleton.mp there
      exact Nat.ne_of_lt (fresh old start)
    · simp only [Device.shapes, shapes] at member
      rcases List.mem_append.mp member with before | new
      · exact Nat.lt_succ_of_lt (fresh area before)
      · cases List.mem_singleton.mp new
        exact Nat.lt_succ_self _
    · simp only [Device.shapes, shapes, liveOf, List.filter_append, map_append, List.sum_append, toNat_add]
      simp only [liveOf, Device.shapes] at max
      simp only [Bool.not_false, List.filter_cons_of_pos, List.filter_nil, map_cons, map_nil, sum_cons, List.sum_nil]
      omega
    · simp only [Device.shapes, shapes, totalOf, map_append, List.sum_append]
      simpa only [totalOf, Device.shapes, map_cons, map_nil, sum_cons, List.sum_nil, Nat.add_zero] using wide
    all_goals simp only [toNat_add]
    all_goals omega
  · cases result

theorem swapadd_gives {outcome : Except Errno Unit} (bounded : Bounded s)
    (result : swapadd s req = some (outcome, t)) : Bounded t ∧ (succeeds outcome = false → t = s) := by
  unfold swapadd at result
  split at result
  · cases result
    exact ⟨bounded, fun _ => rfl⟩
  · cases result
    exact ⟨bounded, fun _ => rfl⟩
  · split at result
    · cases result
      exact ⟨bounded, fun _ => rfl⟩
    · simp only at result
      split at result <;> rename_i matched
      · obtain ⟨u, done, pair⟩ := Option.map_eq_some_iff.mp result
        cases pair
        obtain ⟨sip, there, rfl, gone⟩ := addMatch_undelete matched
        exact ⟨undelete_bounded bounded there gone done, fun failed => by cases failed⟩
      · cases result
        exact ⟨bounded.flags (fun area => { area with inDel := false }) (fun _ => rfl) fun _ => ⟨rfl, rfl, rfl⟩,
          fun failed => by cases failed⟩
      · cases result
        exact ⟨bounded, fun _ => rfl⟩
      · obtain ⟨u, done, pair⟩ := Option.map_eq_some_iff.mp result
        cases pair
        exact ⟨addArea_bounded bounded (btoc_lt _) done, fun failed => by cases failed⟩

end

end Svr4.Swap
