import Mathlib.Data.Finset.Card

/-! References counted over the holders in use, and holders threaded into lists. -/

namespace Svr4

open Function (update update_apply)
open Finset (mem_filter ne_of_mem_erase mem_of_mem_erase mem_erase)

section
variable {α β : Type} [DecidableEq β] {points other : α → β} {live : Finset α} {h : α} {d e : β}

/-- The number of holders that point at `d`. -/
def refs (points : α → β) (live : Finset α) (d : β) : Nat := (live.filter fun h => points h = d).card

theorem refs_pos : 0 < refs points live d ↔ ∃ h ∈ live, points h = d := by
  rw [refs, Finset.card_pos]
  constructor
  · rintro ⟨h, member⟩
    exact ⟨h, (mem_filter.mp member).1, (mem_filter.mp member).2⟩
  · rintro ⟨h, member, target⟩
    exact ⟨h, mem_filter.mpr ⟨member, target⟩⟩

theorem refs_zero : refs points live d = 0 ↔ ∀ h ∈ live, points h ≠ d := by
  have positive := (@refs_pos α β _ points live d)
  rw [Nat.pos_iff_ne_zero] at positive
  rw [← not_iff_not, ← ne_eq, positive]
  simp

theorem refs_congr (same : ∀ h ∈ live, points h = other h) : refs points live d = refs other live d := by
  rw [refs, refs]
  congr 1
  apply Finset.filter_congr
  intro h member
  rw [same h member]

variable [DecidableEq α]

theorem refs_insert (absent : h ∉ live) :
    refs points (insert h live) d = refs points live d + if points h = d then 1 else 0 := by
  rw [refs, refs, Finset.filter_insert]
  split
  · apply Finset.card_insert_of_notMem
    simp [absent]
  · rfl

theorem refs_erase (member : h ∈ live) :
    refs points live d = refs points (live.erase h) d + if points h = d then 1 else 0 := by
  rw [← refs_insert (Finset.notMem_erase h live), Finset.insert_erase member]

/-- One holder is turned to another target. -/
theorem refs_update (member : h ∈ live) :
    refs (update points h e) live d + (if points h = d then 1 else 0) =
      refs points live d + if e = d then 1 else 0 := by
  have rest : refs (update points h e) (live.erase h) d = refs points (live.erase h) d := by
    apply refs_congr
    intro k other
    rw [Function.update_of_ne (ne_of_mem_erase other)]
  rw [refs_erase member, rest, refs_erase member, Function.update_self]
  omega

end

section
variable {α : Type} {cont : α → Option α} {live : Finset α} {x y h k : α}

/-- The holders in use form lists that share nothing and come to an end. -/
structure Threaded (cont : α → Option α) (live : Finset α) : Prop where
  closed : ∀ {h k}, h ∈ live → cont h = some k → k ∈ live
  single : ∀ {h h' k}, h ∈ live → h' ∈ live → cont h = some k → cont h' = some k → h = h'
  ranked : ∃ rank : α → Nat, ∀ h ∈ live, ∀ k, cont h = some k → rank k < rank h

/-- No other holder in use is before `h` in its list. -/
def Leads (cont : α → Option α) (live : Finset α) (h : α) : Prop := ∀ k ∈ live, k ≠ h → cont k ≠ some h

instance [DecidableEq α] : Decidable (Leads cont live h) :=
  inferInstanceAs (Decidable (∀ k ∈ live, k ≠ h → cont k ≠ some h))

/-- The list from `x` on goes through `y`. -/
def Passes (cont : α → Option α) : α → α → Prop := Relation.ReflTransGen fun h k => cont h = some k

theorem Passes.stops (ends : cont x = none) (passes : Passes cont x y) : y = x := by
  induction passes with
  | refl => rfl
  | tail _ link ih =>
    subst ih
    rw [ends] at link
    exact absurd link (by simp)

namespace Threaded

theorem empty : Threaded cont ∅ := ⟨by simp, by simp, fun _ => 0, by simp⟩

theorem congr {other : α → Option α} (threaded : Threaded cont live) (same : ∀ h ∈ live, other h = cont h) :
    Threaded other live := by
  obtain ⟨rank, decreases⟩ := threaded.ranked
  refine ⟨fun member link => ?_, fun first second link link' => ?_, rank, fun h member k link => ?_⟩
  · exact threaded.closed member (same _ member ▸ link)
  · exact threaded.single first second (same _ first ▸ link) (same _ second ▸ link')
  · exact decreases h member k (same _ member ▸ link)

variable [DecidableEq α]

/-- A new holder is a list of its own. -/
theorem add (threaded : Threaded cont live) (alone : cont h = none) : Threaded cont (insert h live) := by
  have old {k k' : α} (member : k ∈ insert h live) (link : cont k = some k') : k ∈ live := by
    rcases Finset.mem_insert.mp member with rfl | member
    · simp [alone] at link
    · exact member
  obtain ⟨rank, decreases⟩ := threaded.ranked
  refine ⟨fun member link => ?_, fun first second link link' => ?_, rank, fun k member k' link => ?_⟩
  · exact Finset.mem_insert_of_mem (threaded.closed (old member link) link)
  · exact threaded.single (old first link) (old second link') link link'
  · exact decreases k (old member link) k' link

theorem unlink (threaded : Threaded cont live) : Threaded (update cont x none) live := by
  have old {k k' : α} (link : update cont x none k = some k') : cont k = some k' := by
    rw [update_apply] at link
    split at link
    · simp at link
    · exact link
  obtain ⟨rank, decreases⟩ := threaded.ranked
  refine ⟨fun member link => ?_, fun first second link link' => ?_, rank, fun k member k' link => ?_⟩
  · exact threaded.closed member (old link)
  · exact threaded.single first second (old link) (old link')
  · exact decreases k member k' (old link)

/-- The first of a list goes. -/
theorem remove (threaded : Threaded cont live) (leads : Leads cont live h) : Threaded cont (live.erase h) := by
  obtain ⟨rank, decreases⟩ := threaded.ranked
  refine ⟨fun {k k'} member link => ?_, fun first second link link' => ?_, rank, fun k member k' link => ?_⟩
  · have before := mem_of_mem_erase member
    refine mem_erase.mpr ⟨?_, threaded.closed before link⟩
    rintro rfl
    exact leads k before (ne_of_mem_erase member) link
  · exact threaded.single (mem_of_mem_erase first) (mem_of_mem_erase second) link link'
  · exact decreases k (mem_of_mem_erase member) k' link

/-- The list that ends with `x` goes on with the one that `y` leads. -/
theorem link (threaded : Threaded cont live) (member : x ∈ live) (next : y ∈ live) (leads : Leads cont live y)
    (apart : ¬ Passes cont y x) : Threaded (update cont x (some y)) live := by
  classical
  obtain ⟨rank, decreases⟩ := threaded.ranked
  have alone {l : α} (held : l ∈ live) (link : cont l = some y) : False := by
    refine leads l held ?_ link
    rintro rfl
    exact lt_irrefl _ (decreases l held l link)
  refine ⟨fun {k k'} held link => ?_, fun {k l k'} first second link link' => ?_,
    fun k => rank k + if Passes cont k x then rank y + 1 else 0, fun k held k' link => ?_⟩
  · rw [update_apply] at link
    split at link
    · exact Option.some.inj link ▸ next
    · exact threaded.closed held link
  · rw [update_apply] at link link'
    split at link <;> split at link'
    · simp [*]
    · exact (alone second (link.symm ▸ link')).elim
    · exact (alone first (link'.symm ▸ link)).elim
    · exact threaded.single first second link link'
  · rw [update_apply] at link
    split at link
    · rename_i here
      obtain rfl := Option.some.inj link
      subst here
      have here : Passes cont k k := Relation.ReflTransGen.refl
      simp only [if_pos here, if_neg apart]
      omega
    · have lower := decreases k held k' link
      by_cases passes : Passes cont k' x
      · have through : Passes cont k x := Relation.ReflTransGen.head link passes
        simp only [if_pos passes, if_pos through]
        omega
      · simp only [if_neg passes]
        omega

/-- The second of a list goes, and the first is linked past it. -/
theorem skip (threaded : Threaded cont live) (member : x ∈ live) (link : cont x = some y) :
    Threaded (update cont x (cont y)) (live.erase y) ∧ x ≠ y := by
  obtain ⟨rank, decreases⟩ := threaded.ranked
  have second := threaded.closed member link
  have other {z : α} (after : cont y = some z) : z ≠ y := by
    rintro rfl
    exact lt_irrefl _ (decreases z second z after)
  have differ : x ≠ y := by
    rintro rfl
    exact lt_irrefl _ (decreases x member x link)
  refine ⟨⟨fun {k k'} held step => ?_, fun {k l k'} first third step step' => ?_, rank, fun k held k' step => ?_⟩, differ⟩
  · have before := mem_of_mem_erase held
    rw [update_apply] at step
    split at step
    · exact mem_erase.mpr ⟨other step, threaded.closed second step⟩
    · rename_i away
      refine mem_erase.mpr ⟨?_, threaded.closed before step⟩
      rintro rfl
      exact away (threaded.single before member step link)
  · have before := mem_of_mem_erase first
    have before' := mem_of_mem_erase third
    rw [update_apply] at step step'
    split at step <;> split at step'
    · simp [*]
    · exact absurd (threaded.single second before' step step') (ne_of_mem_erase third).symm
    · exact absurd (threaded.single second before step' step) (ne_of_mem_erase first).symm
    · exact threaded.single before before' step step'
  · have before := mem_of_mem_erase held
    rw [update_apply] at step
    split at step
    · rename_i here
      subst here
      exact Nat.lt_trans (decreases y second k' step) (decreases k before y link)
    · exact decreases k before k' step

end Threaded

end

end Svr4
