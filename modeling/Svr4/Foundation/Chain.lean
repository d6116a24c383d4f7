import Mathlib.Data.List.Nodup

/-! Singly linked chains: objects that hold the address of the next one.

`Chain next head list` reads the memory `next` from `head` to a null pointer.
A chain that ends cannot visit an object twice, so the chain is determined by
its head and every operation is a change of the list.
-/

namespace Svr4

variable {α : Type}

inductive Chain (next : α → Option α) : Option α → List α → Prop where
  | nil : Chain next none []
  | cons {a : α} {list : List α} : Chain next (next a) list → Chain next (some a) (a :: list)

namespace Chain
variable {next next' : α → Option α} {head : Option α} {list left right : List α} {a b : α}

theorem nil_iff : Chain next none list ↔ list = [] := by
  constructor
  · intro chain
    cases chain
    rfl
  · rintro rfl
    exact .nil

theorem cons_iff : Chain next (some a) list ↔ ∃ rest, list = a :: rest ∧ Chain next (next a) rest := by
  constructor
  · intro chain
    cases chain with
    | cons chain => exact ⟨_, rfl, chain⟩
  · rintro ⟨rest, rfl, chain⟩
    exact .cons chain

theorem unique (chain : Chain next head list) (other : Chain next head left) : list = left := by
  induction chain generalizing left with
  | nil => exact (nil_iff.mp other).symm
  | cons _ ih =>
    obtain ⟨rest, rfl, tail⟩ := cons_iff.mp other
    rw [ih tail]

theorem suffix (chain : Chain next head (left ++ a :: right)) : Chain next (next a) right := by
  induction left generalizing head with
  | nil =>
    cases chain with
    | cons chain => exact chain
  | cons b left ih =>
    cases chain with
    | cons chain => exact ih chain

theorem tail (chain : Chain next head (a :: list)) : Chain next (next a) list := by
  cases chain with
  | cons chain => exact chain

/-- A second visit would make the chain its own proper tail. -/
theorem nodup (chain : Chain next head list) : list.Nodup := by
  induction chain with
  | nil => exact .nil
  | @cons a rest chain ih =>
    refine List.nodup_cons.mpr ⟨fun member => ?_, ih⟩
    obtain ⟨left, right, rfl⟩ := List.append_of_mem member
    have same := congrArg List.length (unique chain chain.suffix)
    simp at same
    omega

theorem congr (chain : Chain next head list) (same : ∀ a ∈ list, next' a = next a) : Chain next' head list := by
  induction chain with
  | nil => exact .nil
  | @cons a rest chain ih =>
    apply Chain.cons
    rw [same a (by simp)]
    exact ih fun b member => same b (by simp [member])

theorem head_eq (chain : Chain next head list) : head = list.head? := by
  cases chain with
  | nil => rfl
  | cons => rfl

/-- The object after `a` on the chain is the next one in the list. -/
theorem next_eq (chain : Chain next head (left ++ a :: right)) : next a = right.head? :=
  chain.suffix.head_eq

/-- The objects of a chain whose last pointer is redirected to another chain. -/
theorem splice (chain : Chain next head (left ++ a :: right)) {tail : List α}
    (rest : Chain next' (next' a) tail) (same : ∀ b ∈ left, next' b = next b) :
    Chain next' head (left ++ a :: tail) := by
  induction left generalizing head with
  | nil =>
    cases chain with
    | cons _ => exact .cons rest
  | cons b left ih =>
    cases chain with
    | cons chain =>
      apply Chain.cons
      rw [same b (by simp)]
      exact ih chain fun c member => same c (by simp [member])

/-- `target` leaves the chain when its predecessor takes over its pointer. -/
theorem remove {target : α} (chain : Chain next head (left ++ a :: target :: right))
    (redirect : next' a = next target) (same : ∀ b ∈ left ++ right, next' b = next b) :
    Chain next' head (left ++ a :: right) := by
  apply chain.splice
  · rw [redirect]
    have rest : Chain next (next target) right := by
      have split : left ++ a :: target :: right = (left ++ [a]) ++ target :: right := by simp
      rw [split] at chain
      exact chain.suffix
    exact rest.congr fun b member => same b (by simp [member])
  · exact fun b member => same b (by simp [member])

end Chain

/-! ## Chains with a pointer to the last object -/

/-- The objects from `first` on are the list, and `last` is the last one. -/
structure Fifo (next : α → Option α) (first last : Option α) (list : List α) : Prop where
  chain : Chain next first list
  last : last = list.getLast?

namespace Fifo
variable {next next' : α → Option α} {first last : Option α} {list left right : List α} {a : α}

theorem congr (fifo : Fifo next first last list) (same : ∀ b ∈ list, next' b = next b) : Fifo next' first last list :=
  ⟨fifo.chain.congr same, fifo.last⟩

/-- `a` goes to the end. -/
theorem append (fifo : Fifo next first last list) (fresh : a ∉ list) (stop : next' a = none)
    (link : ∀ p, last = some p → next' p = some a)
    (same : ∀ b ∈ list, last ≠ some b → next' b = next b) :
    Fifo next' (if last = none then some a else first) (some a) (list ++ [a]) := by
  have single : Chain next' (some a) [a] := by
    apply Chain.cons
    rw [stop]
    exact .nil
  refine ⟨?_, by simp⟩
  rcases list.eq_nil_or_concat with rfl | ⟨front, p, rfl⟩
  · have empty : last = none := fifo.last
    rw [if_pos empty]
    exact single
  · have tail : last = some p := by simp [fifo.last]
    have chain := fifo.chain
    have nodup := chain.nodup
    simp only [List.concat_eq_append] at chain nodup same ⊢
    have joined := chain.splice
      (by
        rw [link p tail]
        exact single)
      fun b member => same b (by simp [member]) (by
        rw [tail]
        rintro ⟨⟩
        exact (List.nodup_append.mp nodup).2.2 p member p (by simp) rfl)
    rw [if_neg (by simp [tail])]
    simpa using joined

/-- `a` goes to the front. -/
theorem push (fifo : Fifo next first last list) (link : next' a = first)
    (same : ∀ b ∈ list, next' b = next b) :
    Fifo next' (some a) (if first = none then some a else last) (a :: list) := by
  constructor
  · apply Chain.cons
    rw [link]
    exact fifo.chain.congr same
  · have head := fifo.chain.head_eq
    cases list with
    | nil => simp [head]
    | cons b rest =>
      rw [if_neg (by simp [head]), List.getLast?_cons_cons]
      exact fifo.last

/-- `a` leaves, the one before it taking over its pointer. -/
theorem remove (fifo : Fifo next first last (left ++ a :: right))
    (link : ∀ p, left.getLast? = some p → next' p = next a)
    (same : ∀ b ∈ left ++ right, left.getLast? ≠ some b → next' b = next b) :
    Fifo next' (if left.getLast? = none then next a else first) (if next a = none then left.getLast? else last)
      (left ++ right) := by
  have chain := fifo.chain
  have nodup := chain.nodup
  have behind : next a = right.head? := chain.next_eq
  constructor
  · rcases left.eq_nil_or_concat with rfl | ⟨front, p, rfl⟩
    · have rest := chain.suffix
      exact rest.congr fun b member => same b member (by simp)
    · have tail : (front.concat p).getLast? = some p := by simp
      have split : front.concat p ++ a :: right = front ++ p :: a :: right := by simp
      rw [split] at chain nodup
      have single : p ∉ front ++ right := by
        have away := (List.nodup_middle.mp nodup).notMem
        simp only [List.mem_append, List.mem_cons, not_or] at away ⊢
        exact ⟨away.1, away.2.2⟩
      have removed := chain.remove (link p tail) fun b member => same b (by
          simp only [List.concat_eq_append, List.mem_append] at member ⊢
          exact member.imp_left .inl) (by
          rw [tail]
          rintro ⟨⟩
          exact single member)
      rw [if_neg (by simp)]
      simpa using removed
  · rw [behind]
    simp only [List.head?_eq_none_iff]
    split
    · next empty => simp [empty]
    · next rest =>
      rw [fifo.last, List.getLast?_append_of_ne_nil _ (by simp), List.getLast?_append_of_ne_nil _ rest]
      obtain ⟨b, tail, rfl⟩ := List.exists_cons_of_ne_nil rest
      rw [List.getLast?_cons_cons]

end Fifo

/-! ## Reading a chain -/

/-- The objects from `head` on, at most `fuel` of them. -/
def follow (next : α → Option α) : Nat → Option α → List α
  | 0, _ => []
  | _ + 1, none => []
  | fuel + 1, some a => a :: follow next fuel (next a)

theorem follow_eq {next : α → Option α} {head : Option α} {list : List α} {fuel : Nat}
    (chain : Chain next head list) (enough : list.length ≤ fuel) : follow next fuel head = list := by
  induction chain generalizing fuel with
  | nil => cases fuel <;> rfl
  | cons _ ih =>
    obtain ⟨fuel, rfl⟩ := Nat.exists_eq_succ_of_ne_zero (Nat.ne_of_gt (Nat.lt_of_lt_of_le (Nat.succ_pos _) enough))
    rw [follow, ih (by simpa using enough)]

/-! ## Looking for the predecessor of an object -/

section
variable [DecidableEq α]

/-- The first object from `head` on whose pointer is `target`, in at most `fuel`
rounds; `some none` when the chain ends first. -/
def predecessor (next : α → Option α) (target : α) : Nat → Option α → Option (Option α)
  | 0, _ => none
  | _ + 1, none => some none
  | fuel + 1, some a => if next a = some target then some (some a) else predecessor next target fuel (next a)

variable {next : α → Option α} {head : Option α} {list : List α} {target a : α} {fuel : Nat}

theorem predecessor_some (chain : Chain next head list)
    (found : predecessor next target fuel head = some (some a)) :
    ∃ left right, list = left ++ a :: target :: right := by
  induction chain generalizing fuel with
  | nil =>
    cases fuel with
    | zero => cases found
    | succ => cases found
  | @cons b rest chain ih =>
    cases fuel with
    | zero => cases found
    | succ fuel =>
      unfold predecessor at found
      split at found
      · next here =>
        obtain rfl := Option.some.inj (Option.some.inj found)
        rw [here] at chain
        obtain ⟨right, rfl, _⟩ := Chain.cons_iff.mp chain
        exact ⟨[], right, rfl⟩
      · obtain ⟨left, right, rfl⟩ := ih found
        exact ⟨b :: left, right, rfl⟩

theorem predecessor_none (chain : Chain next head list) (other : head ≠ some target)
    (absent : predecessor next target fuel head = some none) : target ∉ list := by
  induction chain generalizing fuel with
  | nil => simp
  | @cons b rest chain ih =>
    cases fuel with
    | zero => cases absent
    | succ fuel =>
      unfold predecessor at absent
      split at absent
      · cases absent
      · next differs =>
        have tail := ih differs absent
        simp only [List.mem_cons, not_or]
        exact ⟨fun same => other (by rw [same]), tail⟩

end

end Svr4
