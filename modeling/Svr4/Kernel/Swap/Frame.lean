import Svr4.Kernel.Swap

/-! What moving slots about leaves alone: the areas, their sizes and the counters. -/

namespace Svr4.Swap

/-- What an area counts for. -/
structure Shape where
  id : Nat
  npgs : Nat
  inDel : Bool
  deleted : Bool

def shape (sip : Swapinfo) : Shape := ⟨sip.id, sip.npgs, sip.inDel, sip.deleted⟩

def Device.shapes (s : Device) : List Shape := s.swapinfo.map shape

/-- The pages of the areas that have not been deleted. -/
def liveOf (areas : List Shape) : Nat := ((areas.filter fun area => !area.deleted).map Shape.npgs).sum

def totalOf (areas : List Shape) : Nat := (areas.map Shape.npgs).sum

def Device.counters (s : Device) : Word × Word × Word := (s.aniMax, s.aniResv, s.availsmem)

/-- No area comes or goes. -/
structure Same (s t : Device) : Prop where
  shapes : t.shapes = s.shapes
  counters : t.counters = s.counters
  nextId : t.nextId = s.nextId

/-- Only deleted areas go. -/
structure Frame (s t : Device) : Prop where
  areas : t.shapes.Sublist s.shapes
  live : (t.shapes.filter fun area => !area.deleted) = s.shapes.filter fun area => !area.deleted
  counters : t.counters = s.counters
  nextId : t.nextId = s.nextId

def Distinct (s : Device) : Prop := (s.shapes.map Shape.id).Nodup

section
variable {s t u : Device} {id : Nat} {sip : Swapinfo} {change : Swapinfo → Swapinfo} {resident : Slot → Bool}
  {ap : Slot} {pass : Nat}

theorem Same.refl (s : Device) : Same s s := ⟨rfl, rfl, rfl⟩

theorem Same.trans (first : Same s t) (second : Same t u) : Same s u :=
  ⟨second.shapes.trans first.shapes, second.counters.trans first.counters, second.nextId.trans first.nextId⟩

theorem Same.frame (same : Same s t) : Frame s t where
  areas := same.shapes ▸ List.Sublist.refl _
  live := by rw [same.shapes]
  counters := same.counters
  nextId := same.nextId

theorem Frame.trans (first : Frame s t) (second : Frame t u) : Frame s u :=
  ⟨second.areas.trans first.areas, second.live.trans first.live, second.counters.trans first.counters,
    second.nextId.trans first.nextId⟩

theorem Frame.liveOf (frame : Frame s t) : liveOf t.shapes = liveOf s.shapes := by
  unfold Swap.liveOf
  rw [frame.live]

theorem Frame.totalOf (frame : Frame s t) : totalOf t.shapes ≤ totalOf s.shapes :=
  List.Sublist.sum_le_sum (frame.areas.map Shape.npgs) fun _ _ => Nat.zero_le _

theorem Frame.distinct (frame : Frame s t) (distinct : Distinct s) : Distinct t :=
  (frame.areas.map Shape.id).nodup distinct

theorem modify_same (keeps : ∀ sip, shape (change sip) = shape sip) : Same s (s.modify id change) := by
  refine ⟨?_, rfl, rfl⟩
  simp only [Device.shapes, Device.modify, List.map_map]
  apply List.map_congr_left
  intro sip _
  simp only [Function.comp_apply]
  split
  · exact keeps sip
  · rfl

theorem setAnon_same (ap : Slot) (change : Anon → Anon) : Same s (s.setAnon ap change) := modify_same fun _ => rfl

theorem find_mem (found : s.find id = some sip) : sip ∈ s.swapinfo ∧ sip.id = id :=
  ⟨List.mem_of_find?_eq_some found, by simpa using List.find?_some found⟩

theorem find_modify (change : Swapinfo → Swapinfo) (keeps : ∀ sip, (change sip).id = sip.id) (found : s.find id = some sip) :
    (s.modify id change).find id = some (change sip) := by
  have ⟨_, here⟩ := find_mem found
  have alike : ((fun other : Swapinfo => decide (other.id = id)) ∘ fun other => if other.id = id then change other else other) =
      fun other => decide (other.id = id) := by
    funext other
    simp only [Function.comp_apply]
    split
    · rw [keeps other]
    · rfl
  unfold Device.find at found ⊢
  rw [Device.modify, List.find?_map, alike, found, Option.map_some, if_pos here]

theorem Distinct.eq (distinct : Distinct s) {other : Swapinfo} (here : sip ∈ s.swapinfo) (there : other ∈ s.swapinfo)
    (same : sip.id = other.id) : sip = other := by
  have nodup : (s.swapinfo.map Swapinfo.id).Nodup := by
    have both : s.shapes.map Shape.id = s.swapinfo.map Swapinfo.id := by
      simp only [Device.shapes, List.map_map]
      rfl
    exact both ▸ distinct
  exact List.inj_on_of_nodup_map nodup here there same

/-! ## Taking and giving back slots -/

theorem swapAllocFrom_same (s : Device) (ids : List Nat) : Same s (swapAllocFrom s ids).2 := by
  induction ids generalizing s with
  | nil => exact .refl s
  | cons id rest ih =>
    rw [swapAllocFrom]
    split
    · exact ih s
    · split
      · exact ih s
      · split
        · have idle : Same s (s.modify id fun sip => { sip with allocs := 0 }) := modify_same fun _ => rfl
          exact idle.trans (ih _)
        · rename_i others _
          have same : Same s (s.modify id (taken others)) := modify_same fun _ => rfl
          exact ⟨same.shapes, same.counters, same.nextId⟩

theorem swapAlloc_same (s : Device) : Same s (swapAlloc s).2 := swapAllocFrom_same s _

theorem swapinfoFree_frame (distinct : Distinct s) (found : s.find id = some sip) (gone : sip.deleted)
    (result : swapinfoFree s id = some t) : Frame s t := by
  unfold swapinfoFree at result
  rw [found] at result
  cases result
  have ⟨member, same⟩ := find_mem found
  refine ⟨(List.filter_sublist).map shape, ?_, rfl, rfl⟩
  simp only [Device.shapes, List.filter_map, List.filter_filter]
  congr 1
  apply List.filter_congr
  intro other there
  simp only [Function.comp_apply, shape, Bool.and_eq_left_iff_imp, Bool.not_eq_true', decide_eq_true_eq]
  rintro kept rfl
  rw [distinct.eq there member same.symm, gone] at kept
  cases kept

theorem swapFreeOne_frame (distinct : Distinct s) (result : swapFreeOne s ap = some t) : Frame s t := by
  unfold swapFreeOne at result
  split at result
  · cases result
  · rename_i sip found
    split at result
    · have same : Same s (s.modify ap.area (pushed ap.index)) := modify_same fun _ => rfl
      split at result <;> rename_i last
      · have kept := find_modify (pushed ap.index) (fun _ => rfl) found
        exact same.frame.trans (swapinfoFree_frame (same.frame.distinct distinct) kept last.1 result)
      · cases result
        exact same.frame
    · cases result

theorem swapFree_frame (distinct : Distinct s) (result : swapFree s ap = some t) : Frame s t := by
  unfold swapFree at result
  split at result
  · exact swapFreeOne_frame distinct result
  · rename_i bap _
    obtain ⟨u, first, second⟩ := Option.bind_eq_some_iff.mp result
    have cleared : Same s ((s.setAnon ap (setBap none)).setAnon bap (setBap none)) :=
      (setAnon_same ap _).trans (setAnon_same bap _)
    have frame := cleared.frame.trans (swapFreeOne_frame (cleared.frame.distinct distinct) first)
    exact frame.trans (swapFreeOne_frame (frame.distinct distinct) second)

/-! ## Relocating slots -/

theorem delswapSlot_same {cur : Slot}
    (result : delswapSlot s resident pass cur = some t) : Same s t := by
  unfold delswapSlot at result
  split at result
  · cases result
  · split at result
    · cases result
      exact .refl s
    · split at result
      · cases result
        exact .refl s
      · rename_i old _
        split at result
        · cases result
          exact .refl s
        · split at result
          · cases result
            exact .refl s
          · split at result <;> rename_i taking
            · cases result
            · rename_i fresh u
              have found : Same s u := by simpa only [taking] using swapAlloc_same s
              have linked := (found.trans (setAnon_same old (setBap (some fresh)))).trans
                (setAnon_same fresh (setBap (some old)))
              split at result
              · cases result
                exact linked
              · cases result
                exact (linked.trans (setAnon_same cur _)).trans (modify_same fun _ => rfl)

theorem undelswapSlot_frame (distinct : Distinct s) {dir : Slot}
    (result : undelswapSlot s resident pass dir = some t) : Frame s t := by
  unfold undelswapSlot at result
  split at result
  · cases result
  · split at result
    · cases result
      exact (Same.refl s).frame
    · split at result
      · cases result
      · split at result
        · cases result
          exact (Same.refl s).frame
        · split at result
          · cases result
            exact (Same.refl s).frame
          · rename_i ind _ _
            have cleared := (setAnon_same (s := s) dir (setBap none)).trans (setAnon_same ind (setBap none))
            exact cleared.frame.trans (swapFree_frame (cleared.frame.distinct distinct) result)

theorem foldlM_keeps {holds : Device → Prop} {turn : Device → Slot → Option Device}
    (keeps : ∀ s cur t, holds s → turn s cur = some t → holds t) {slots : List Slot} (first : holds s)
    (result : slots.foldlM turn s = some t) : holds t := by
  induction slots generalizing s with
  | nil =>
    cases result
    exact first
  | cons cur slots ih =>
    obtain ⟨u, step, rest⟩ := Option.bind_eq_some_iff.mp result
    exact ih (keeps s cur u first step) rest

theorem overSlots_keeps (holds : Device → Prop) {turn : Nat → Slot → Device → Option Device}
    (keeps : ∀ pass cur s t, holds s → turn pass cur s = some t → holds t) (first : holds s)
    (result : overSlots s turn id sip = some t) : holds t := by
  obtain ⟨u, one, two⟩ := Option.bind_eq_some_iff.mp result
  exact foldlM_keeps (fun s cur t => keeps 1 cur s t) (foldlM_keeps (fun s cur t => keeps 0 cur s t) first one) two

theorem delswap_same (result : delswap s resident id = some t) : Same s t := by
  unfold delswap at result
  split at result
  · cases result
  · exact overSlots_keeps (fun u => Same s u)
      (fun _ _ _ _ same turn => same.trans (delswapSlot_same turn)) (.refl s) result

theorem undelswap_frame (distinct : Distinct s)
    (result : undelswap s resident id = some t) : Frame s t := by
  unfold undelswap at result
  split at result
  · cases result
  · exact overSlots_keeps (fun u => Frame s u)
      (fun _ _ _ _ frame turn => frame.trans (undelswapSlot_frame (frame.distinct distinct) turn)) (Same.refl s).frame result

end

end Svr4.Swap
