import Svr4.Foundation.Chain

/-! Doubly linked lists: a chain of next pointers and, read from the other end, a chain
of previous pointers through the same objects.
-/

namespace Svr4

variable {α : Type}

namespace Chain
variable {next next' : α → Option α} {head : Option α} {left right : List α} {a : α}

/-- `a` comes between two parts of the chain. -/
theorem insert (chain : Chain next head (left ++ right)) (fresh : a ∉ left ++ right) (forward : next' a = right.head?)
    (link : ∀ p, left.getLast? = some p → next' p = some a)
    (same : ∀ b ∈ left ++ right, left.getLast? ≠ some b → next' b = next b) :
    Chain next' (if left.getLast? = none then some a else head) (left ++ a :: right) := by
  have nodup := chain.nodup
  rcases left.eq_nil_or_concat with rfl | ⟨front, p, rfl⟩
  · have chain : Chain next head right := chain
    have behind : Chain next' (next' a) right := by
      rw [forward, ← chain.head_eq]
      exact chain.congr fun b member => same b member (by simp)
    exact .cons behind
  · simp only [List.concat_eq_append, List.append_assoc, List.singleton_append] at chain nodup fresh same link ⊢
    have last : (front ++ [p]).getLast? = some p := by simp
    have single : p ∉ front ++ right := (List.nodup_middle.mp nodup).notMem
    have behind : Chain next' (next' a) right := by
      rw [forward, ← chain.next_eq]
      refine chain.suffix.congr fun b member => same b (by simp [member]) ?_
      rw [last]
      rintro ⟨⟩
      exact single (by simp [member])
    have joined := chain.splice
      (by
        rw [link p last]
        exact .cons behind)
      fun b member => same b (by simp [member]) (by
        rw [last]
        rintro ⟨⟩
        exact single (by simp [member]))
    simpa using joined

/-- `a` leaves the chain. -/
theorem delete (chain : Chain next head (left ++ a :: right)) (link : ∀ p, left.getLast? = some p → next' p = next a)
    (same : ∀ b ∈ left ++ right, left.getLast? ≠ some b → next' b = next b) :
    Chain next' (if left.getLast? = none then next a else head) (left ++ right) :=
  ((Fifo.mk chain rfl).remove link same).chain

end Chain

/-- The objects of the list, by the pointers of both directions. -/
structure Doubly (next prev : α → Option α) (first last : Option α) (list : List α) : Prop where
  forward : Chain next first list
  backward : Chain prev last list.reverse

namespace Doubly
variable {next prev next' prev' : α → Option α} {first last : Option α} {list left right : List α} {a : α}

theorem nil : Doubly next prev none none [] := ⟨.nil, .nil⟩

theorem single (forward : next a = none) (backward : prev a = none) : Doubly next prev (some a) (some a) [a] :=
  ⟨.cons (by rw [forward]; exact .nil), .cons (by rw [backward]; exact .nil)⟩

section
variable (doubly : Doubly next prev first last list)
include doubly

theorem first_eq : first = list.head? := doubly.forward.head_eq

theorem last_eq : last = list.getLast? := by
  rw [doubly.backward.head_eq, List.head?_reverse]

theorem nodup : list.Nodup := doubly.forward.nodup

end

theorem next_eq (doubly : Doubly next prev first last (left ++ a :: right)) : next a = right.head? :=
  doubly.forward.next_eq

theorem prev_eq (doubly : Doubly next prev first last (left ++ a :: right)) : prev a = left.getLast? := by
  have backward := doubly.backward
  rw [List.reverse_append, List.reverse_cons, List.append_assoc, List.singleton_append] at backward
  rw [backward.next_eq, List.head?_reverse]

theorem congr (doubly : Doubly next prev first last list) (forward : ∀ b ∈ list, next' b = next b)
    (backward : ∀ b ∈ list, prev' b = prev b) : Doubly next' prev' first last list :=
  ⟨doubly.forward.congr forward, doubly.backward.congr fun b member => backward b (List.mem_reverse.mp member)⟩

theorem insert (doubly : Doubly next prev first last (left ++ right)) (fresh : a ∉ left ++ right)
    (forward : next' a = right.head?) (backward : prev' a = left.getLast?)
    (before : ∀ p, left.getLast? = some p → next' p = some a) (after : ∀ p, right.head? = some p → prev' p = some a)
    (nexts : ∀ b ∈ left ++ right, left.getLast? ≠ some b → next' b = next b)
    (prevs : ∀ b ∈ left ++ right, right.head? ≠ some b → prev' b = prev b) :
    Doubly next' prev' (if left.getLast? = none then some a else first) (if right.head? = none then some a else last)
      (left ++ a :: right) := by
  have back := doubly.backward
  rw [List.reverse_append] at back
  refine ⟨doubly.forward.insert fresh forward before nexts, ?_⟩
  have inserted := (@Chain.insert _ _ prev' _ _ _ a) back (by
      rw [← List.reverse_append, List.mem_reverse]
      exact fresh)
    (by rw [List.head?_reverse]; exact backward) (by rw [List.getLast?_reverse]; exact after)
    (by
      intro b member
      rw [List.getLast?_reverse]
      rw [← List.reverse_append, List.mem_reverse] at member
      exact prevs b member)
  simpa using inserted

theorem delete (doubly : Doubly next prev first last (left ++ a :: right))
    (before : ∀ p, left.getLast? = some p → next' p = next a) (after : ∀ p, right.head? = some p → prev' p = prev a)
    (nexts : ∀ b ∈ left ++ right, left.getLast? ≠ some b → next' b = next b)
    (prevs : ∀ b ∈ left ++ right, right.head? ≠ some b → prev' b = prev b) :
    Doubly next' prev' (if left.getLast? = none then next a else first) (if right.head? = none then prev a else last)
      (left ++ right) := by
  have back := doubly.backward
  rw [List.reverse_append, List.reverse_cons, List.append_assoc, List.singleton_append] at back
  refine ⟨doubly.forward.delete before nexts, ?_⟩
  have deleted := back.delete (by rw [List.getLast?_reverse]; exact after)
    (by
      intro b member
      rw [List.getLast?_reverse]
      rw [← List.reverse_append, List.mem_reverse] at member
      exact prevs b member)
  simpa using deleted

end Doubly

end Svr4
