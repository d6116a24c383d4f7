import Mathlib

/-! Weights of the members of a list, when the member of one key changes. -/

namespace Svr4

open List (map_cons sum_cons countP_cons)

section
variable {α κ : Type} [DecidableEq κ] {key : α → κ} {k : κ} {x : α} {l : List α}

/-- The member of a key is changed. -/
def changeAt (key : α → κ) (k : κ) (change : α → α) (l : List α) : List α :=
  l.map fun a => if key a = k then change a else a

theorem changeAt_other (change : α → α) (apart : k ∉ l.map key) : changeAt key k change l = l := by
  have alike : ∀ a ∈ l, (fun a => if key a = k then change a else a) a = (fun a => a) a := fun a there =>
    if_neg fun same : key a = k => apart (same ▸ List.mem_map_of_mem there)
  rw [changeAt, List.map_congr_left alike, List.map_id']

theorem changeAt_sum (weight : α → Nat) (change : α → α) (nodup : (l.map key).Nodup) (there : x ∈ l) :
    ((changeAt key (key x) change l).map weight).sum + weight x = (l.map weight).sum + weight (change x) := by
  induction l with
  | nil => cases there
  | cons head tail ih =>
    rw [map_cons, List.nodup_cons] at nodup
    rcases List.mem_cons.mp there with rfl | later
    · have rest := changeAt_other change nodup.1
      rw [changeAt] at rest ⊢
      rw [map_cons, if_pos rfl, rest, map_cons, map_cons, sum_cons, sum_cons]
      omega
    · have apart : key head ≠ key x := fun same => nodup.1 (same ▸ List.mem_map_of_mem later)
      have rest := ih nodup.2 later
      rw [changeAt] at rest ⊢
      rw [map_cons, if_neg apart, map_cons, map_cons, sum_cons, sum_cons]
      omega

theorem changeAt_keys {change : α → α} (keeps : ∀ a, key (change a) = key a) :
    (changeAt key k change l).map key = l.map key := by
  rw [changeAt, List.map_map]
  apply List.map_congr_left
  intro a _
  simp only [Function.comp_apply]
  split
  · exact keeps a
  · rfl

theorem mem_changeAt {change : α → α} {y : α} (there : y ∈ changeAt key k change l) :
    (∃ a ∈ l, key a = k ∧ y = change a) ∨ y ∈ l ∧ key y ≠ k := by
  obtain ⟨a, member, rfl⟩ := List.mem_map.mp there
  by_cases here : key a = k
  · exact .inl ⟨a, member, here, if_pos here⟩
  · right
    rw [if_neg here]
    exact ⟨member, here⟩

end

/-- How many members of a list have a property, when one of them changes. -/
theorem countP_modify {α : Type} (p : α → Bool) (change : α → α) {l : List α} {i : Nat} {a : α} (there : l[i]? = some a) :
    (l.modify i change).countP p + (if p a then 1 else 0) = l.countP p + (if p (change a) then 1 else 0) := by
  induction l generalizing i with
  | nil => cases there
  | cons head tail ih =>
    cases i with
    | zero =>
      cases there
      rw [List.modify_zero_cons, countP_cons, countP_cons]
      omega
    | succ i =>
      have rest := ih there
      rw [List.modify_succ_cons, countP_cons, countP_cons]
      omega

theorem mem_modify {α : Type} {change : α → α} {l : List α} {i : Nat} {y : α} (there : y ∈ l.modify i change) :
    y ∈ l ∨ ∃ a ∈ l, y = change a := by
  induction l generalizing i with
  | nil =>
    rw [List.modify_nil] at there
    exact .inl there
  | cons head tail ih =>
    cases i with
    | zero =>
      rw [List.modify_zero_cons] at there
      rcases List.mem_cons.mp there with rfl | later
      · exact .inr ⟨head, (.head _), rfl⟩
      · exact .inl (.tail _ later)
    | succ i =>
      rw [List.modify_succ_cons] at there
      rcases List.mem_cons.mp there with rfl | later
      · exact .inl (.head _)
      · rcases ih later with same | ⟨a, member, changed⟩
        · exact .inl (.tail _ same)
        · exact .inr ⟨a, .tail _ member, changed⟩

end Svr4
