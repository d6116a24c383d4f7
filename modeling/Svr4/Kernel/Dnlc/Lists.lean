import Mathlib.Data.List.Perm.Subperm
import Svr4.Foundation.Ring
import Svr4.Kernel.Dnlc

/-! The lists of the name cache: the LRU list and the hash chains. -/

namespace Svr4.Dnlc

open Function
open List (map_append map_cons)

abbrev Lru (c : Cache) (list : List Nat) : Prop := Ring c.lruNext c.lruPrev .lru (list.map .entry)

abbrev Chains (c : Cache) (chain : Nat → List Nat) : Prop :=
  Rings c.hashNext c.hashPrev HashNode.bucket fun h => (chain h).map .entry

section
variable {c : Cache} {ncp h : Nat} {list left right : List Nat} {chain : Nat → List Nat} {node : LruNode}
  {hp : HashNode}

theorem entries_nodup {Node : Type} {f : Nat → Node} (inj : ∀ i j, f i = f j → i = j) : (list.map f).Nodup ↔ list.Nodup :=
  List.nodup_map_iff fun i j same => inj i j same

theorem Lru.nodup (lru : Lru c list) : list.Nodup := (entries_nodup fun _ _ => LruNode.entry.inj).mp (Ring.nodup lru)

theorem Chains.nodup (chains : Chains c chain) : (chain h).Nodup :=
  (entries_nodup fun _ _ => HashNode.entry.inj).mp (chains.ring h).nodup

theorem Chains.unique {h' : Nat} (chains : Chains c chain) (here : ncp ∈ chain h) (there : ncp ∈ chain h') : h = h' :=
  Rings.unique chains (List.mem_map_of_mem here) (List.mem_map_of_mem there)

/-! ## The LRU list -/

theorem ncRmlru_next : (ncRmlru ncp c).lruNext = update c.lruNext (c.lruPrev (.entry ncp)) (c.lruNext (.entry ncp)) := rfl

theorem ncRmlru_prev : (ncRmlru ncp c).lruPrev = update c.lruPrev (c.lruNext (.entry ncp)) (c.lruPrev (.entry ncp)) := by
  simp only [ncRmlru]
  congr 1
  by_cases same : LruNode.entry ncp = c.lruPrev (.entry ncp)
  · rw [← same, update_self]
  · rw [update_of_ne same]

theorem ncRmlru_lru (lru : Lru c (left ++ ncp :: right)) : Lru (ncRmlru ncp c) (left ++ right) := by
  rw [Lru, map_append, map_cons] at lru
  rw [Lru, map_append, ncRmlru_next, ncRmlru_prev]
  exact lru.delete (update_self ..) (update_self ..) (fun b differ => update_of_ne differ ..)
    fun b differ => update_of_ne differ ..

theorem ncInslru_next : (ncInslru ncp node c).lruNext =
    update (update c.lruNext node (.entry ncp)) (.entry ncp) (c.lruNext node) := rfl

theorem ncInslru_prev : (ncInslru ncp node c).lruPrev =
    update (update c.lruPrev (c.lruNext node) (.entry ncp)) (.entry ncp) node := rfl

theorem ncInslru_front (lru : Lru c list) (fresh : ncp ∉ list) : Lru (ncInslru ncp .lru c) (ncp :: list) := by
  have away : LruNode.entry ncp ∉ list.map .entry := by simpa using fresh
  have first : c.lruNext .lru ≠ .entry ncp := by
    rw [Ring.first_eq lru]
    cases start : (list.map LruNode.entry).head? with
    | none => exact nofun
    | some node =>
      rintro rfl
      exact away (List.mem_of_head? start)
  rw [Lru, map_cons, ncInslru_next, ncInslru_prev]
  refine Ring.push lru away (by simp) (update_self ..) (update_self ..) ?_ ?_ (fun b notNew notHead => ?_)
    fun b notNew notFirst => ?_
  · rw [update_of_ne (by simp), update_self]
  · rw [update_of_ne first, update_self]
  · rw [update_of_ne notNew, update_of_ne notHead]
  · rw [update_of_ne notNew, update_of_ne notFirst]

theorem ncInslru_back (lru : Lru c list) (fresh : ncp ∉ list) : Lru (ncInslru ncp (c.lruPrev .lru) c) (list ++ [ncp]) := by
  have away : LruNode.entry ncp ∉ list.map .entry := by simpa using fresh
  have last := Ring.last_eq lru
  -- The node in front is the last one, and the head comes after it.
  have notNew : c.lruPrev .lru ≠ .entry ncp := by
    rw [last]
    cases stop : (list.map LruNode.entry).getLast? with
    | none => exact nofun
    | some node =>
      rintro rfl
      exact away (List.mem_of_getLast? stop)
  have behind : c.lruNext (c.lruPrev .lru) = .lru := by
    rcases list.eq_nil_or_concat with rfl | ⟨front, p, rfl⟩
    · rw [last]
      exact Ring.first_eq lru
    · have split : (front.concat p).map LruNode.entry = front.map .entry ++ [.entry p] := by simp
      rw [Lru, split] at lru
      rw [last, split, List.getLast?_concat]
      exact lru.forw_eq
  rw [Lru, map_append, map_cons, List.map_nil, ncInslru_next, ncInslru_prev]
  refine (@Ring.insert _ _ _ _ _ _ _ _ (list.map LruNode.entry) []) (by simpa using lru) (by simpa using away) (by simp) ?_ ?_ ?_ ?_
    (fun b differ notLast => ?_) fun b differ notHead => ?_
  · rw [update_self]
    exact behind
  · rw [update_self]
    exact last
  · rw [← last, update_of_ne notNew, update_self]
  · show update (update c.lruPrev _ _) _ _ LruNode.lru = _
    rw [behind, update_of_ne (by simp), update_self]
  · rw [← last] at notLast
    rw [update_of_ne differ, update_of_ne notLast]
  · have notHead : b ≠ .lru := notHead
    rw [update_of_ne differ, behind, update_of_ne notHead]

/-! ## The hash chains -/

theorem ncRmhash_next : (ncRmhash ncp c).hashNext =
    update c.hashNext (c.hashPrev (.entry ncp)) (c.hashNext (.entry ncp)) := rfl

theorem ncRmhash_prev : (ncRmhash ncp c).hashPrev =
    update c.hashPrev (c.hashNext (.entry ncp)) (c.hashPrev (.entry ncp)) := by
  simp only [ncRmhash]
  congr 1
  by_cases same : HashNode.entry ncp = c.hashPrev (.entry ncp)
  · rw [← same, update_self]
  · rw [update_of_ne same]

theorem ncInshash_next : (ncInshash ncp hp c).hashNext =
    update (update c.hashNext (.entry ncp) (c.hashNext hp)) hp (.entry ncp) := rfl

theorem ncInshash_prev (differ : hp ≠ .entry ncp) : (ncInshash ncp hp c).hashPrev =
    update (update c.hashPrev (.entry ncp) hp) (c.hashNext hp) (.entry ncp) := by
  simp only [ncInshash]
  rw [update_of_ne differ]

theorem map_update (list : List Nat) : (fun k => (update chain h list k).map HashNode.entry) =
    update (fun k => (chain k).map HashNode.entry) h (list.map .entry) :=
  Function.comp_update (fun list : List Nat => list.map HashNode.entry) chain h list

theorem ncRmhash_chains (chains : Chains c chain) (split : chain h = left ++ ncp :: right) :
    Chains (ncRmhash ncp c) (update chain h (left ++ right)) := by
  rw [Chains, map_update, map_append, ncRmhash_next, ncRmhash_prev]
  exact Rings.delete chains (by simp [split]) (update_self ..) (update_self ..)
    (fun b differ => update_of_ne differ ..) fun b differ => update_of_ne differ ..

/-- An entry comes behind `left`. -/
theorem ncInshash_chains {hp : HashNode} (chains : Chains c chain) (split : chain h = left ++ right)
    (fresh : ∀ k, ncp ∉ chain k) (before : hp = (left.map HashNode.entry).getLast?.getD (.bucket h)) :
    Chains (ncInshash ncp hp c) (update chain h (left ++ ncp :: right)) := by
  have absent (k : Nat) : HashNode.entry ncp ∉ HashNode.bucket k :: (chain k).map .entry := by simpa using fresh k
  have ring := chains.ring h
  rw [split, map_append] at ring
  have mine : hp ∈ HashNode.bucket h :: (chain h).map .entry := by
    rw [before, split, map_append]
    cases last : (left.map HashNode.entry).getLast? with
    | none => exact .head _
    | some node => exact .tail _ (List.mem_append_left _ (List.mem_of_getLast? last))
  have notNew : hp ≠ .entry ncp := fun same => absent h (same ▸ mine)
  have behind : c.hashNext hp = (right.map HashNode.entry).head?.getD (.bucket h) := by
    rw [before]
    rcases left.eq_nil_or_concat with rfl | ⟨front, p, rfl⟩
    · exact ring.first_eq
    · have parts : (front.concat p).map HashNode.entry = front.map .entry ++ [.entry p] := by simp
      rw [parts, List.append_assoc] at ring
      rw [parts, List.getLast?_concat]
      exact ring.forw_eq
  have notNext : c.hashNext hp ≠ .entry ncp := by
    rw [behind]
    cases first : (right.map HashNode.entry).head? with
    | none => exact nofun
    | some node =>
      rintro rfl
      refine absent h (.tail _ ?_)
      rw [split, map_append]
      exact List.mem_append_right _ (List.mem_of_head? first)
  rw [Chains, map_update, map_append, map_cons, ncInshash_next, ncInshash_prev notNew]
  refine Rings.insert chains (by simp [split]) absent ?_ ?_ ?_ ?_ (fun b differ notPrev => ?_) fun b differ notFirst => ?_
  · rw [update_of_ne notNew.symm, update_self, behind]
  · rw [update_of_ne notNext.symm, update_self, before]
  · rw [← before, update_self]
  · rw [← behind, update_self]
  · rw [← before] at notPrev
    rw [update_of_ne notPrev, update_of_ne differ]
  · rw [← behind] at notFirst
    rw [update_of_ne notFirst, update_of_ne differ]

/-- The chain of an entry on none. -/
def Dummy (c : Cache) (ncp : Nat) : Prop := c.hashNext (.entry ncp) = .entry ncp ∧ c.hashPrev (.entry ncp) = .entry ncp

theorem ncRmhash_dummy (dummy : Dummy c ncp) : ncRmhash ncp c = c := by
  obtain ⟨next, prev⟩ := dummy
  simp only [ncRmhash, next, prev]
  rw [update_eq_self_iff.mpr next.symm, next, update_eq_self_iff.mpr prev.symm]

/-! ## Looking through a list -/

theorem scan_eq {Node : Type} [DecidableEq Node] {entry : Node → Option Nat} {next prev : Node → Node} {head : Node}
    {mk : Nat → Node} {test : Nat → Bool} {fuel : Nat} (stop : entry head = none) (made : ∀ i, entry (mk i) = some i)
    (ring : Ring next prev head ((left ++ right).map mk)) (enough : right.length < fuel) :
    scan entry next test fuel ((right.map mk).head?.getD head) = right.find? test := by
  induction right generalizing left fuel with
  | nil =>
    obtain ⟨fuel, rfl⟩ := Nat.exists_eq_add_one.mpr enough
    simp [scan, stop]
  | cons i right ih =>
    obtain ⟨fuel, rfl⟩ := Nat.exists_eq_succ_of_ne_zero (Nat.ne_zero_of_lt enough)
    simp only [map_cons, List.head?_cons, Option.getD_some, scan, made, List.find?_cons]
    cases found : test i with
    | true => simp
    | false =>
      have behind : next (mk i) = (right.map mk).head?.getD head := by
        rw [map_append, map_cons] at ring
        exact ring.forw_eq
      simp only [Bool.false_eq_true, if_false, behind]
      exact (@ih (left ++ [i])) (by simpa using ring) (by simpa using enough)

theorem scan_ring {Node : Type} [DecidableEq Node] {entry : Node → Option Nat} {next prev : Node → Node} {head : Node}
    {mk : Nat → Node} {test : Nat → Bool} {fuel : Nat} (stop : entry head = none) (made : ∀ i, entry (mk i) = some i)
    (ring : Ring next prev head (list.map mk)) (enough : list.length < fuel) :
    scan entry next test fuel (next head) = list.find? test := by
  rw [ring.first_eq]
  exact (@scan_eq [] _ _ _ _ _ _ _ _ _ _) stop made ring enough

end

end Svr4.Dnlc
