import Svr4.Foundation.Doubly

/-! Circular doubly linked lists: the objects between a head and itself. -/

namespace Svr4

open Function (update update_self update_of_ne)
open Option (getD_some ne_none_iff_exists')
open List (perm_middle mem_of_head? mem_cons)

variable {α : Type} [DecidableEq α]

/-- A pointer on the ring, where the head is the end. -/
def upto (head : α) (f : α → α) (a : α) : Option α := if f a = head then none else some (f a)

structure Ring (forw back : α → α) (head : α) (list : List α) : Prop where
  doubly : Doubly (upto head forw) (upto head back) (upto head forw head) (upto head back head) list
  apart : head ∉ list

namespace Ring
variable {forw back forw' back' f : α → α} {head a : α} {list left right : List α}

theorem upto_eq {next : Option α} (same : upto head f a = next) : f a = next.getD head := by
  rw [upto] at same
  split at same <;> rename_i stop
  · rw [← same, stop]
    rfl
  · rw [← same]
    rfl

theorem upto_congr (same : forw' a = forw a) : upto head forw' a = upto head forw a := by rw [upto, upto, same]

theorem empty (next : forw head = head) (prev : back head = head) : Ring forw back head [] := by
  refine ⟨?_, by simp⟩
  rw [upto, upto, if_pos next, if_pos prev]
  exact .nil

theorem forw_eq (ring : Ring forw back head (left ++ a :: right)) : forw a = right.head?.getD head :=
  upto_eq ring.doubly.next_eq

theorem back_eq (ring : Ring forw back head (left ++ a :: right)) : back a = left.getLast?.getD head :=
  upto_eq ring.doubly.prev_eq

section
variable (ring : Ring forw back head list)
include ring

theorem first_eq : forw head = list.head?.getD head := upto_eq ring.doubly.first_eq

theorem last_eq : back head = list.getLast?.getD head := upto_eq ring.doubly.last_eq

theorem nodup : list.Nodup := ring.doubly.nodup

end

theorem congr (ring : Ring forw back head list) (next : ∀ b ∈ head :: list, forw' b = forw b)
    (prev : ∀ b ∈ head :: list, back' b = back b) : Ring forw' back' head list := by
  refine ⟨?_, ring.apart⟩
  rw [upto_congr (next head (by simp)), upto_congr (prev head (by simp))]
  exact ring.doubly.congr (fun b member => upto_congr (next b (by simp [member])))
    fun b member => upto_congr (prev b (by simp [member]))

/-- The neighbours of `a` are linked with each other. -/
theorem delete (ring : Ring forw back head (left ++ a :: right)) (before : forw' (back a) = forw a)
    (after : back' (forw a) = back a) (nexts : ∀ b, b ≠ back a → forw' b = forw b)
    (prevs : ∀ b, b ≠ forw a → back' b = back b) : Ring forw' back' head (left ++ right) := by
  have apart : head ∉ left ++ right := fun member =>
    ring.apart (perm_middle.mem_iff.mpr (.tail _ member))
  have other {b : α} (member : b ∈ left ++ right) : b ≠ head := fun same => apart (same ▸ member)
  have pred := ring.back_eq
  have succ := ring.forw_eq
  have deleted := (@Doubly.delete _ _ _ (upto head forw') (upto head back')) ring.doubly
    (fun p last => by
      rw [last, getD_some] at pred
      rw [upto, upto, ← pred, before])
    (fun p first => by
      rw [first, getD_some] at succ
      rw [upto, upto, ← succ, after])
    (fun b member differ => upto_congr (nexts b fun same => by
      rw [pred] at same
      cases last : left.getLast? with
      | none =>
        rw [last] at same
        exact other member same
      | some p =>
        rw [last] at same differ
        exact differ (by rw [same]; rfl)))
    fun b member differ => upto_congr (prevs b fun same => by
      rw [succ] at same
      cases first : right.head? with
      | none =>
        rw [first] at same
        exact other member same
      | some p =>
        rw [first] at same differ
        exact differ (by rw [same]; rfl))
  -- The head is a neighbour where there is no other.
  have first : (if left.getLast? = none then upto head forw a else upto head forw head) = upto head forw' head := by
    split <;> rename_i none
    · rw [none] at pred
      rw [upto, upto, ← show back a = head from pred, before]
    · refine (upto_congr (nexts head fun same => ?_)).symm
      obtain ⟨p, last⟩ := ne_none_iff_exists'.mp none
      rw [pred, last] at same
      exact other (List.mem_append_left _ (List.mem_of_getLast? last)) same.symm
  have last : (if right.head? = none then upto head back a else upto head back head) = upto head back' head := by
    split <;> rename_i none
    · rw [none] at succ
      rw [upto, upto, ← show forw a = head from succ, after]
    · refine (upto_congr (prevs head fun same => ?_)).symm
      obtain ⟨p, first⟩ := ne_none_iff_exists'.mp none
      rw [succ, first] at same
      exact other (List.mem_append_right _ (mem_of_head? first)) same.symm
  rw [first, last] at deleted
  exact ⟨deleted, apart⟩

/-- `a` comes between two neighbours. -/
theorem insert (ring : Ring forw back head (left ++ right)) (fresh : a ∉ left ++ right) (differ : a ≠ head)
    (next : forw' a = right.head?.getD head) (prev : back' a = left.getLast?.getD head)
    (before : forw' (left.getLast?.getD head) = a) (after : back' (right.head?.getD head) = a)
    (nexts : ∀ b, b ≠ a → b ≠ left.getLast?.getD head → forw' b = forw b)
    (prevs : ∀ b, b ≠ a → b ≠ right.head?.getD head → back' b = back b) : Ring forw' back' head (left ++ a :: right) := by
  have other {b : α} (member : b ∈ left ++ right) : b ≠ head := fun same => ring.apart (same ▸ member)
  have away {b : α} (member : b ∈ left ++ right) : b ≠ a := fun same => fresh (same ▸ member)
  have at_end {x : Option α} {b : α} (known : ∀ c, x = some c → c ∈ left ++ right) (here : x.getD head = b) (there : b ≠ head) :
      x = some b := by
    cases x with
    | none => exact absurd here.symm there
    | some c => rw [show c = b from here]
  have lasts (c : α) (there : left.getLast? = some c) : c ∈ left ++ right :=
    List.mem_append_left _ (List.mem_of_getLast? there)
  have firsts (c : α) (there : right.head? = some c) : c ∈ left ++ right :=
    List.mem_append_right _ (mem_of_head? there)
  have inserted := (@Doubly.insert _ _ _ (upto head forw') (upto head back') _ _ left right a) ring.doubly fresh
    (by
      rw [upto, next]
      cases first : right.head? with
      | none => exact if_pos rfl
      | some s => exact if_neg (other (firsts s first)))
    (by
      rw [upto, prev]
      cases last : left.getLast? with
      | none => exact if_pos rfl
      | some p => exact if_neg (other (lasts p last)))
    (fun p last => by
      rw [last, getD_some] at before
      rw [upto, before, if_neg differ])
    (fun s first => by
      rw [first, getD_some] at after
      rw [upto, after, if_neg differ])
    (fun b member distinct => upto_congr (nexts b (away member) fun same => distinct (at_end lasts same.symm (other member))))
    fun b member distinct => upto_congr (prevs b (away member) fun same => distinct (at_end firsts same.symm (other member)))
  -- The head is a neighbour where there is no other.
  have first : (if left.getLast? = none then some a else upto head forw head) = upto head forw' head := by
    split <;> rename_i none
    · rw [none, Option.getD_none] at before
      rw [upto, before, if_neg differ]
    · refine (upto_congr (nexts head differ.symm fun same => ?_)).symm
      obtain ⟨p, last⟩ := ne_none_iff_exists'.mp none
      rw [last, getD_some] at same
      exact other (lasts p last) same.symm
  have last : (if right.head? = none then some a else upto head back head) = upto head back' head := by
    split <;> rename_i none
    · rw [none, Option.getD_none] at after
      rw [upto, after, if_neg differ]
    · refine (upto_congr (prevs head differ.symm fun same => ?_)).symm
      obtain ⟨s, first⟩ := ne_none_iff_exists'.mp none
      rw [first, getD_some] at same
      exact other (firsts s first) same.symm
  constructor
  · rw [← first, ← last]
    exact inserted
  · rw [perm_middle.mem_iff, mem_cons, not_or]
    exact ⟨differ.symm, ring.apart⟩

/-- `a` comes behind the head. -/
theorem push (ring : Ring forw back head list) (fresh : a ∉ list) (differ : a ≠ head) (next : forw' a = forw head)
    (prev : back' a = head) (front : forw' head = a) (behind : back' (forw head) = a)
    (nexts : ∀ b, b ≠ a → b ≠ head → forw' b = forw b) (prevs : ∀ b, b ≠ a → b ≠ forw head → back' b = back b) :
    Ring forw' back' head (a :: list) := by
  have succ := ring.first_eq
  rw [succ] at next behind prevs
  exact (@insert _ _ _ _ _ _ _ _ [] list) ring fresh differ next prev front behind nexts prevs

theorem back_mem (ring : Ring forw back head (left ++ a :: right)) : back a ∈ head :: (left ++ a :: right) := by
  rw [ring.back_eq]
  cases last : left.getLast? with
  | none => exact .head _
  | some p => exact .tail _ (List.mem_append_left _ (List.mem_of_getLast? last))

theorem forw_mem (ring : Ring forw back head (left ++ a :: right)) : forw a ∈ head :: (left ++ a :: right) := by
  rw [ring.forw_eq]
  cases first : right.head? with
  | none => exact .head _
  | some s => exact .tail _ (List.mem_append_right _ (.tail _ (mem_of_head? first)))

end Ring

/-! ## Several rings -/

/-- Rings with different heads have no object in common. -/
structure Rings {κ : Type} (forw back : α → α) (head : κ → α) (chain : κ → List α) : Prop where
  ring : ∀ h, Ring forw back (head h) (chain h)
  apart : ∀ h h', h ≠ h' → ∀ a ∈ head h :: chain h, a ∉ head h' :: chain h'

namespace Rings
variable {κ : Type} [DecidableEq κ] {forw back forw' back' : α → α} {head : κ → α} {chain : κ → List α} {h : κ} {a : α}
  {left right : List α}

omit [DecidableEq κ] in
theorem congr (rings : Rings forw back head chain) (next : ∀ h, ∀ b ∈ head h :: chain h, forw' b = forw b)
    (prev : ∀ h, ∀ b ∈ head h :: chain h, back' b = back b) : Rings forw' back' head chain :=
  ⟨fun h => (rings.ring h).congr (next h) (prev h), rings.apart⟩

theorem unique (rings : Rings forw back head chain) {h' : κ} (here : a ∈ chain h) (there : a ∈ chain h') : h = h' := by
  by_cases same : h = h'
  · exact same
  · exact absurd (.tail _ there) (rings.apart h h' same a (.tail _ here))

/-- An object leaves its ring. -/
theorem delete (rings : Rings forw back head chain) (split : chain h = left ++ a :: right) (before : forw' (back a) = forw a)
    (after : back' (forw a) = back a) (nexts : ∀ b, b ≠ back a → forw' b = forw b)
    (prevs : ∀ b, b ≠ forw a → back' b = back b) : Rings forw' back' head (update chain h (left ++ right)) := by
  have ring := rings.ring h
  rw [split] at ring
  have sub (k : κ) : ∀ b ∈ head k :: update chain h (left ++ right) k, b ∈ head k :: chain k := by
    intro b member
    by_cases same : k = h
    · subst same
      rw [update_self] at member
      rw [split]
      rcases mem_cons.mp member with rfl | member
      · exact .head _
      · exact .tail _ (perm_middle.mem_iff.mpr (.tail _ member))
    · rw [update_of_ne same] at member
      exact member
  refine ⟨fun k => ?_, fun k k' differ b member there => rings.apart k k' differ b (sub k b member) (sub k' b there)⟩
  by_cases same : k = h
  · subst same
    rw [update_self]
    exact ring.delete before after nexts prevs
  · rw [update_of_ne same]
    have mine {b : α} (near : b ∈ head h :: (left ++ a :: right)) : b ∉ head k :: chain k := by
      rw [← split] at near
      exact fun there => rings.apart k h same b there near
    refine (rings.ring k).congr (fun b member => nexts b ?_) fun b member => prevs b ?_
    · rintro rfl
      exact mine ring.back_mem member
    · rintro rfl
      exact mine ring.forw_mem member

/-- An object comes on a ring. -/
theorem insert (rings : Rings forw back head chain) (split : chain h = left ++ right) (fresh : ∀ k, a ∉ head k :: chain k)
    (next : forw' a = right.head?.getD (head h)) (prev : back' a = left.getLast?.getD (head h))
    (before : forw' (left.getLast?.getD (head h)) = a) (after : back' (right.head?.getD (head h)) = a)
    (nexts : ∀ b, b ≠ a → b ≠ left.getLast?.getD (head h) → forw' b = forw b)
    (prevs : ∀ b, b ≠ a → b ≠ right.head?.getD (head h) → back' b = back b) :
    Rings forw' back' head (update chain h (left ++ a :: right)) := by
  have ring := rings.ring h
  rw [split] at ring
  have absent := fresh h
  rw [split, mem_cons, not_or] at absent
  have pred : left.getLast?.getD (head h) ∈ head h :: chain h := by
    rw [split]
    cases last : left.getLast? with
    | none => exact .head _
    | some p => exact .tail _ (List.mem_append_left _ (List.mem_of_getLast? last))
  have succ : right.head?.getD (head h) ∈ head h :: chain h := by
    rw [split]
    cases first : right.head? with
    | none => exact .head _
    | some s => exact .tail _ (List.mem_append_right _ (mem_of_head? first))
  have members (k : κ) : ∀ b ∈ head k :: update chain h (left ++ a :: right) k, (b = a ∧ k = h) ∨ b ∈ head k :: chain k := by
    intro b member
    by_cases same : k = h
    · subst same
      rw [update_self] at member
      rcases mem_cons.mp member with rfl | member
      · exact .inr (.head _)
      · rcases mem_cons.mp (perm_middle.mem_iff.mp member) with rfl | member
        · exact .inl ⟨rfl, rfl⟩
        · rw [split]
          exact .inr (.tail _ member)
    · rw [update_of_ne same] at member
      exact .inr member
  refine ⟨fun k => ?_, fun k k' differ b member there => ?_⟩
  · by_cases same : k = h
    · subst same
      rw [update_self]
      exact ring.insert absent.2 absent.1 next prev before after nexts prevs
    · rw [update_of_ne same]
      refine (rings.ring k).congr (fun b member => nexts b ?_ ?_) fun b member => prevs b ?_ ?_
      · rintro rfl
        exact fresh k member
      · rintro rfl
        exact rings.apart k h same _ member pred
      · rintro rfl
        exact fresh k member
      · rintro rfl
        exact rings.apart k h same _ member succ
  · rcases members k b member with ⟨rfl, rfl⟩ | here
    · rcases members k' b there with ⟨_, rfl⟩ | there
      · exact differ rfl
      · exact fresh k' there
    · rcases members k' b there with ⟨rfl, rfl⟩ | there
      · exact fresh k here
      · exact rings.apart k k' differ b here there

end Rings

end Svr4
