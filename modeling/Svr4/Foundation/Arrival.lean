import Mathlib.Data.List.Nodup
import Mathlib.Data.List.Pairwise

/-! Queues of several kinds of members, each kind served in the order of arrival.

A journal stamps the members when they arrive and keeps the stamps of those that
have left. The kind of a member may be read anew when it comes back.
-/

namespace Svr4

open List (mem_map mem_map_of_mem mem_append filter_eq_nil_iff)
open Prod (fst)

variable {α κ : Type}

/-- One change of a queue. Only the first member of its kind leaves alone. -/
inductive Served (kind : α → κ) : List α → List α → Prop where
  | stay (list : List α) : Served kind list list
  | arrive (list : List α) (a : α) : a ∉ list → Served kind list (list ++ [a])
  | leave (left : List α) (a : α) (right : List α) : (∀ b ∈ left, kind b ≠ kind a) →
      Served kind (left ++ a :: right) (left ++ right)
  | clear (list : List α) : Served kind list []

/-- `book` has the members with the time of their arrival, `gone` the kinds and times
of those that have left, in the order of leaving. -/
structure Journal (α κ : Type) where
  book : List (α × Nat)
  clock : Nat
  gone : List (κ × Nat)

/-- The journal when the queue has become `list`. -/
def Journal.record [DecidableEq α] (kind : α → κ) (list : List α) (j : Journal α κ) : Journal α κ where
  book := j.book.filter (fun e => e.1 ∈ list) ++
    (list.filter fun a => a ∉ j.book.map fst).map fun a => (a, j.clock)
  clock := j.clock + 1
  gone := j.gone ++ (j.book.filter fun e => e.1 ∉ list).map fun e => (kind e.1, e.2)

/-- Of each kind, those that left came before those that left later, and before those
that are still there. -/
structure Journal.InOrder (kind : α → κ) (list : List α) (j : Journal α κ) : Prop where
  members : j.book.map fst = list
  nodup : list.Nodup
  rising : j.book.Pairwise fun a b => a.2 < b.2
  past : ∀ e ∈ j.book, e.2 < j.clock
  served : j.gone.Pairwise fun a b => a.1 = b.1 → a.2 < b.2
  ahead : ∀ g ∈ j.gone, ∀ e ∈ j.book, g.1 = kind e.1 → g.2 < e.2
  earlier : ∀ g ∈ j.gone, g.2 < j.clock

namespace Journal
variable {kind kind' : α → κ} {list list' : List α} {j : Journal α κ}

theorem InOrder.start (kind : α → κ) : InOrder kind [] ⟨[], 0, []⟩ :=
  ⟨rfl, .nil, .nil, by simp, .nil, by simp, by simp⟩

/-- What leaves comes after what left before, of its kind. -/
theorem InOrder.leaving (ordered : j.InOrder kind list) {out : List (α × Nat)} (sub : out.Sublist j.book) :
    (j.gone ++ out.map fun e => (kind e.1, e.2)).Pairwise fun a b => a.1 = b.1 → a.2 < b.2 := by
  refine List.pairwise_append.mpr ⟨ordered.served, ?_, ?_⟩
  · rw [List.pairwise_map]
    refine (ordered.rising.sublist sub).imp ?_
    intro a b before _
    exact before
  · intro g left e member
    obtain ⟨f, there, rfl⟩ := mem_map.mp member
    exact ordered.ahead g left f (sub.subset there)

/-- A journal whose queue lost `out`: what stays of a kind came after what left of it. -/
theorem InOrder.shrink (ordered : j.InOrder kind list) {kept out : List (α × Nat)} (keeps : kept.Sublist j.book)
    (leaves : out.Sublist j.book) (members : kept.map fst = list')
    (behind : ∀ e ∈ out, ∀ f ∈ kept, kind e.1 = kind f.1 → e.2 < f.2)
    (same : ∀ a ∈ list, a ∈ list' → kind' a = kind a) :
    InOrder kind' list' ⟨kept, j.clock + 1, j.gone ++ out.map fun e => (kind e.1, e.2)⟩ where
  members := members
  nodup := by
    rw [← members]
    exact (ordered.members ▸ ordered.nodup).sublist (keeps.map _)
  rising := ordered.rising.sublist keeps
  past e member := Nat.lt_succ_of_lt (ordered.past e (keeps.subset member))
  served := ordered.leaving leaves
  ahead g left e member alike := by
    have inside : e ∈ j.book := keeps.subset member
    have stays : kind' e.1 = kind e.1 := same e.1 (ordered.members ▸ mem_map_of_mem inside)
      (members ▸ mem_map_of_mem member)
    rw [stays] at alike
    rcases mem_append.mp left with left | left
    · exact ordered.ahead g left e inside alike
    · obtain ⟨f, gone, rfl⟩ := mem_map.mp left
      exact behind f gone e member alike
  earlier g left := by
    rcases mem_append.mp left with left | left
    · exact Nat.lt_succ_of_lt (ordered.earlier g left)
    · obtain ⟨f, gone, rfl⟩ := mem_map.mp left
      exact Nat.lt_succ_of_lt (ordered.past f (leaves.subset gone))

/-- Every change of the queue keeps the journal in order. -/
theorem InOrder.record [DecidableEq α] (ordered : j.InOrder kind list) (served : Served kind list list')
    (same : ∀ a ∈ list, a ∈ list' → kind' a = kind a) : InOrder kind' list' (j.record kind list') := by
  have inside {e : α × Nat} (member : e ∈ j.book) : e.1 ∈ list := ordered.members ▸ mem_map_of_mem member
  unfold Journal.record
  rw [ordered.members]
  cases served with
  | stay =>
    have kept : j.book.filter (fun e => e.1 ∈ list) = j.book :=
      List.filter_eq_self.mpr fun e member => decide_eq_true (inside member)
    have out : j.book.filter (fun e => e.1 ∉ list) = [] :=
      filter_eq_nil_iff.mpr fun e member => by simpa using inside member
    have fresh : list.filter (fun a => a ∉ list) = [] :=
      filter_eq_nil_iff.mpr fun a member => by simpa using member
    rw [kept, out, fresh, List.map_nil, List.append_nil]
    exact ordered.shrink (.refl _) (List.nil_sublist _) ordered.members (by simp) same
  | arrive _ a absent =>
    have kept : j.book.filter (fun e => e.1 ∈ list ++ [a]) = j.book :=
      List.filter_eq_self.mpr fun e member => decide_eq_true (List.mem_append_left _ (inside member))
    have out : j.book.filter (fun e => e.1 ∉ list ++ [a]) = [] :=
      filter_eq_nil_iff.mpr fun e member => by simpa using fun other => absurd (inside member) other
    have fresh : (list ++ [a]).filter (fun b => b ∉ list) = [a] := by
      rw [List.filter_append, filter_eq_nil_iff.mpr fun b member => by simpa using member]
      simp [absent]
    have same' : ∀ b ∈ list, b ∈ list → kind' b = kind b :=
      fun b member _ => same b member (List.mem_append_left _ member)
    have before := ordered.shrink (.refl _) (List.nil_sublist _) ordered.members (by simp) same'
    rw [kept, out, fresh]
    refine ⟨by simp [ordered.members], ?_, ?_, ?_, before.served, ?_, before.earlier⟩
    · exact List.nodup_append.mpr ⟨ordered.nodup, by simp, fun b member c last => by
        rintro rfl
        exact absent (List.mem_singleton.mp last ▸ member)⟩
    · exact List.pairwise_append.mpr ⟨ordered.rising, by simp, fun e member f last => by
        obtain rfl : f = (a, j.clock) := by simpa using last
        exact ordered.past e member⟩
    · intro e member
      rcases mem_append.mp member with member | last
      · exact before.past e member
      · obtain rfl : e = (a, j.clock) := by simpa using last
        exact Nat.lt_succ_self _
    · intro g left e member alike
      rcases mem_append.mp member with member | last
      · exact before.ahead g left e member alike
      · obtain rfl : e = (a, j.clock) := by simpa using last
        exact ordered.earlier g (by simpa using left)
  | leave left a right first =>
    obtain ⟨before, tail, shape, rfl, rest⟩ := List.map_eq_append_iff.mp ordered.members
    obtain ⟨entry, behind, rfl, rfl, rfl⟩ := List.map_eq_cons_iff.mp rest
    have away : entry.1 ∉ before.map fst ++ behind.map fst :=
      (List.nodup_middle.mp ordered.nodup).notMem
    have present {e : α × Nat} (member : e ∈ before ++ behind) :
        e.1 ∈ before.map fst ++ behind.map fst := by
      rw [← List.map_append]
      exact mem_map_of_mem member
    have kept : j.book.filter (fun e => e.1 ∈ before.map fst ++ behind.map fst) = before ++ behind := by
      rw [shape, List.filter_append, List.filter_cons_of_neg (by simpa using away),
        ← List.filter_append, List.filter_eq_self]
      exact fun e member => decide_eq_true (present member)
    have out : j.book.filter (fun e => e.1 ∉ before.map fst ++ behind.map fst) = [entry] := by
      have none {part : List (α × Nat)} (sub : part ⊆ before ++ behind) :
          part.filter (fun e => e.1 ∉ before.map fst ++ behind.map fst) = [] := by
        refine filter_eq_nil_iff.mpr fun e member => ?_
        rw [decide_eq_true_eq, not_not]
        exact present (sub member)
      rw [shape, List.filter_append, none (List.subset_append_left ..), List.filter_cons,
        if_pos (decide_eq_true away), none (List.subset_append_right ..), List.nil_append]
    have fresh : (before.map fst ++ behind.map fst).filter
        (fun b => b ∉ before.map fst ++ entry.1 :: behind.map fst) = [] := by
      refine filter_eq_nil_iff.mpr fun b member => ?_
      simp only [mem_append, List.mem_cons] at member ⊢
      simp only [decide_eq_true_eq, not_not]
      tauto
    rw [kept, out, fresh, List.map_nil, List.append_nil]
    refine ordered.shrink ?_ ?_ (List.map_append ..) ?_ same
    · rw [shape]
      exact List.Sublist.append_left (List.sublist_cons_self ..) _
    · rw [shape]
      exact List.singleton_sublist.mpr (by simp)
    · intro e last f member alike
      obtain rfl := List.mem_singleton.mp last
      have rising := ordered.rising
      rw [shape] at rising
      rcases mem_append.mp member with member | member
      · exact absurd alike.symm (first f.1 (mem_map_of_mem member))
      · exact (List.pairwise_cons.mp (List.pairwise_append.mp rising).2.1).1 f member
  | clear =>
    have kept : j.book.filter (fun e => e.1 ∈ ([] : List α)) = [] := by simp
    have out : j.book.filter (fun e => e.1 ∉ ([] : List α)) = j.book := by simp
    rw [kept, out]
    exact ordered.shrink (List.nil_sublist _) (.refl _) rfl (by simp) same

end Journal

end Svr4
