import Mathlib.Data.Finset.Card

/-! Relations without cycles: adding an edge, and following edges to an end. -/

namespace Svr4

open Relation

variable {α : Type}

def Acyclic (edge : α → α → Prop) : Prop := ∀ a, ¬ TransGen edge a a

namespace Acyclic
variable {edge : α → α → Prop} {other : α → α → Prop}

theorem mono (acyclic : Acyclic edge) (sub : ∀ a b, other a b → edge a b) :
    Acyclic other :=
  fun a cycle => acyclic a (TransGen.mono sub a a cycle)

/-- A path of the larger relation avoids the new edge or passes through it. -/
theorem path_insert {x y : α}
    (split : ∀ a b, other a b → edge a b ∨ (a = x ∧ b = y)) {a b : α} (path : TransGen other a b) :
    TransGen edge a b ∨ (ReflTransGen edge a x ∧ ReflTransGen edge y b) := by
  induction path with
  | single step =>
    rcases split _ _ step with step | ⟨rfl, rfl⟩
    · exact .inl (.single step)
    · exact .inr ⟨.refl, .refl⟩
  | tail _ step ih =>
    rcases split _ _ step with step | ⟨rfl, rfl⟩
    · rcases ih with path | ⟨left, right⟩
      · exact .inl (path.tail step)
      · exact .inr ⟨left, right.tail step⟩
    · rcases ih with path | ⟨left, _⟩
      · exact .inr ⟨path.to_reflTransGen, .refl⟩
      · exact .inr ⟨left, .refl⟩

theorem insert {other : α → α → Prop} (acyclic : Acyclic edge) {x y : α}
    (split : ∀ a b, other a b → edge a b ∨ (a = x ∧ b = y)) (apart : ¬ ReflTransGen edge y x) :
    Acyclic other := by
  intro a cycle
  rcases path_insert split cycle with path | ⟨left, right⟩
  · exact acyclic a path
  · exact apart (right.trans left)

/-- With finitely many sources every walk ends. -/
theorem wellFounded [DecidableEq α] (acyclic : Acyclic edge) (sources : Finset α)
    (finite : ∀ a b, edge a b → a ∈ sources) : WellFounded fun b a => edge a b := by
  classical
  -- The sources that can still be visited become fewer with each edge.
  let rank (a : α) : Nat := (sources.filter fun x => ReflTransGen edge a x).card
  refine Subrelation.wf (r := InvImage (· < ·) rank) (fun {b a} step => ?_) (InvImage.wf rank Nat.lt_wfRel.wf)
  refine Finset.card_lt_card (Finset.ssubset_iff_subset_ne.mpr ⟨?_, ?_⟩)
  · intro x member
    obtain ⟨source, path⟩ := Finset.mem_filter.mp member
    exact Finset.mem_filter.mpr ⟨source, path.head step⟩
  · intro same
    have here : a ∈ sources.filter fun x => ReflTransGen edge a x :=
      Finset.mem_filter.mpr ⟨finite a b step, .refl⟩
    rw [← same] at here
    exact acyclic a (.head' step (Finset.mem_filter.mp here).2)

end Acyclic

end Svr4
