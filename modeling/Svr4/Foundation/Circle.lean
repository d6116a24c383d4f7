import Mathlib.Data.List.Chain
import Mathlib.Data.List.Nodup

/-! Circular doubly linked lists without a head of their own: any member can come first. -/

namespace Svr4

variable {α : Type}

def Linked (next prev : α → α) (a b : α) : Prop := next a = b ∧ prev b = a

/-- Each object is linked with the one after it, and the last one with the first. -/
structure Circle (next prev : α → α) (list : List α) : Prop where
  nodup : list.Nodup
  links : List.IsChain (Linked next prev) (list ++ list.head?.toList)

namespace Circle
variable {next prev next' prev' : α → α} {left right front rest : List α} {a b p s : α}

theorem nil : Circle next prev ([] : List α) := ⟨List.nodup_nil, .nil⟩

theorem single (forward : next a = a) (backward : prev a = a) : Circle next prev [a] :=
  ⟨List.nodup_singleton a, List.isChain_pair.mpr ⟨forward, backward⟩⟩

theorem rotate (circle : Circle next prev (left ++ right)) : Circle next prev (right ++ left) := by
  refine ⟨List.nodup_append_comm.mp circle.nodup, ?_⟩
  cases left with
  | nil => simpa using circle.links
  | cons x left =>
    cases right with
    | nil => simpa using circle.links
    | cons y right =>
      have links : List.IsChain (Linked next prev) (x :: left ++ y :: (right ++ [x])) := by
        simpa using circle.links
      have halves := List.isChain_split.mp links
      have joined : List.IsChain (Linked next prev) (y :: right ++ x :: (left ++ [y])) :=
        List.isChain_split.mpr ⟨halves.2, halves.1⟩
      simpa using joined

section
variable (circle : Circle next prev (left ++ a :: b :: right))
include circle

theorem next_eq : next a = b := by
  have links := circle.links
  rw [List.append_assoc] at links
  exact (List.isChain_append_cons_cons.mp links).2.1.1

theorem prev_eq : prev b = a := by
  have links := circle.links
  rw [List.append_assoc] at links
  exact (List.isChain_append_cons_cons.mp links).2.1.2

/-- What comes after an object that is not the last one is not the first one. -/
theorem next_ne_head (head : (left ++ a :: b :: right).head? = some s) :
    next a ≠ s := by
  rw [circle.next_eq]
  rintro rfl
  have nodup := circle.nodup
  cases left with
  | nil =>
    cases head
    exact (List.nodup_cons.mp nodup).1 (.head _)
  | cons c left =>
    cases head
    exact (List.nodup_cons.mp nodup).1 (by simp)

end

/-- The last object is linked with the first one. -/
theorem closed (circle : Circle next prev (s :: rest)) (last : (s :: rest).getLast? = some p) : Linked next prev p s := by
  obtain ⟨front, whole⟩ := List.getLast?_eq_some_iff.mp last
  have links := circle.links
  rw [List.head?_cons, Option.toList_some, whole, List.append_assoc, List.singleton_append] at links
  exact (List.isChain_append_cons_cons.mp links).2.1

/-- What comes after the first object: the second one, or the first one itself. -/
theorem second (circle : Circle next prev (a :: rest)) : some (next a) = (rest ++ [a]).head? := by
  cases rest with
  | nil =>
    have self : Linked next prev a a := circle.closed rfl
    exact congrArg some self.1
  | cons b rest =>
    have split : Circle next prev ([] ++ a :: b :: rest) := circle
    exact congrArg some split.next_eq

/-- The links between the first object and the last one stay. -/
theorem inner (links : List.IsChain (Linked next prev) (s :: rest)) (nodup : (s :: rest).Nodup) (last : (s :: rest).getLast? = some p)
    (nexts : ∀ b ∈ s :: rest, b ≠ p → next' b = next b) (prevs : ∀ b ∈ s :: rest, b ≠ s → prev' b = prev b) :
    List.IsChain (Linked next' prev') (s :: rest) := by
  rw [List.isChain_iff_forall_rel_of_append_cons_cons] at links ⊢
  intro a b before after split
  have old := links split
  have inside : a ∈ s :: rest ∧ b ∈ s :: rest := by
    rw [split]
    simp
  have behind : a ≠ p := by
    rintro rfl
    rw [split] at last nodup
    rw [List.getLast?_append_cons, List.getLast?_cons_cons] at last
    exact (List.nodup_cons.mp (List.nodup_append.mp nodup).2.1).1 (List.mem_of_getLast? last)
  have ahead : b ≠ s := by
    rintro rfl
    rw [split] at nodup
    cases before with
    | nil =>
      cases split
      exact (List.nodup_cons.mp nodup).1 (.head _)
    | cons c before =>
      cases split
      exact (List.nodup_cons.mp nodup).1 (by simp)
  exact ⟨(nexts a inside.1 behind).trans old.1, (prevs b inside.2 ahead).trans old.2⟩

/-- A chain is closed by a link from its last object to its first. -/
theorem joined (last : (s :: rest).getLast? = some p) (links : List.IsChain (Linked next prev) (s :: rest))
    (link : Linked next prev p s) : List.IsChain (Linked next prev) (s :: rest ++ (s :: rest).head?.toList) := by
  refine List.isChain_append.mpr ⟨links, .singleton s, ?_⟩
  intro x here y there
  cases last.symm.trans here
  cases there
  exact link

/-- `a` comes before the first object, that is, behind the last one. -/
theorem insert (circle : Circle next prev (s :: rest)) (fresh : a ∉ s :: rest) (forward : next' a = s)
    (backward : prev' a = prev s) (before : next' (prev s) = a) (after : prev' s = a)
    (nexts : ∀ b, b ≠ a → b ≠ prev s → next' b = next b) (prevs : ∀ b, b ≠ a → b ≠ s → prev' b = prev b) :
    Circle next' prev' (s :: rest ++ [a]) := by
  obtain ⟨p, last⟩ := Option.ne_none_iff_exists'.mp (show (s :: rest).getLast? ≠ none by simp)
  have link := circle.closed last
  have kept : List.IsChain (Linked next' prev') (s :: rest) := inner (List.isChain_append.mp circle.links).1 circle.nodup last
    (fun b member other => nexts b (fun same => fresh (same ▸ member)) (link.2 ▸ other))
    fun b member other => prevs b (fun same => fresh (same ▸ member)) other
  refine ⟨List.nodup_append.mpr ⟨circle.nodup, List.nodup_singleton a, ?_⟩, ?_⟩
  · intro b member c here
    rw [List.mem_singleton.mp here]
    exact fun same => fresh (same ▸ member)
  · rw [link.2] at before backward
    have longer : List.IsChain (Linked next' prev') (s :: (rest ++ [a])) := by
      refine List.isChain_append.mpr ⟨kept, .singleton a, ?_⟩
      intro x here y there
      cases last.symm.trans here
      cases there
      exact ⟨before, backward⟩
    exact joined (show (s :: rest ++ [a]).getLast? = some a from List.getLast?_concat) longer ⟨forward, after⟩

/-- The first object leaves. -/
theorem delete (circle : Circle next prev (a :: s :: rest)) (before : next' (prev a) = next a) (after : prev' (next a) = prev a)
    (nexts : ∀ b, b ≠ prev a → next' b = next b) (prevs : ∀ b, b ≠ next a → prev' b = prev b) :
    Circle next' prev' (s :: rest) := by
  obtain ⟨p, last⟩ := Option.ne_none_iff_exists'.mp (show (s :: rest).getLast? ≠ none by simp)
  have link : Linked next prev p a := circle.closed (List.getLast?_cons_cons.trans last)
  have first : next a = s := (show Circle next prev ([] ++ a :: s :: rest) from circle).next_eq
  rw [first] at before after prevs
  rw [link.2] at before after nexts
  have nodup := (List.nodup_cons.mp circle.nodup).2
  have links := (List.isChain_append.mp circle.links).1
  have kept := inner (List.isChain_cons_cons.mp links).2 nodup last
    (fun b _ other => nexts b other) fun b _ other => prevs b other
  exact ⟨nodup, joined last kept ⟨before, after⟩⟩

end Circle

end Svr4
