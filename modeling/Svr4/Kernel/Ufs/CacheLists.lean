import Mathlib.Data.List.Perm.Subperm
import Svr4.Foundation.Ring
import Svr4.Kernel.Ufs.Cache

/-! The lists of the inode cache: the free list with its pointers to links, and the hash
chains.
-/

namespace Svr4.Ufs.Cache

open Function (update update_self update_of_ne)
open List (mem_of_getLast? mem_of_head? mem_cons map_cons mem_map)

attribute [local simp] Table.set Table.store

/-- The inode that the link is in. -/
def Link.owner : Link → Option Nat
  | .ifreeh => none
  | .freef ip => some ip

/-- The inode in front, by the pointer back. -/
def Table.before (c : Table) (ip : Nat) : Option Nat := (c.inode ip).iFreeb.bind Link.owner

abbrev Table.after (c : Table) (ip : Nat) : Option Nat := (c.inode ip).iFreef

/-- The inodes of the list are on the free list: each pointer back is to the link that
names the inode, and `ifreet` is the last link. -/
structure FreeList (c : Table) (list : List Nat) : Prop where
  doubly : Doubly c.after c.before c.ifreeh c.ifreet.owner list
  named : ∀ ip ∈ list, (c.inode ip).iFreeb ≠ none

/-- Nothing but the links of the free list has changed. -/
structure Relinked (c c' : Table) : Prop where
  forw : c'.forw = c.forw
  back : c'.back = c.back
  inode : ∀ j, c'.inode j = { c.inode j with iFreef := (c'.inode j).iFreef, iFreeb := (c'.inode j).iFreeb }

section
variable {c c' : Table} {ip : Nat} {link : Link} {list left right : List Nat}

theorem owner_some {p : Nat} : link.owner = some p ↔ link = .freef p := by
  cases link with
  | ifreeh => simp [Link.owner]
  | freef q => simp [Link.owner]

theorem owner_none : link.owner = none ↔ link = .ifreeh := by
  cases link with
  | ifreeh => simp [Link.owner]
  | freef q => simp [Link.owner]

theorem FreeList.nodup (free : FreeList c list) : list.Nodup := free.doubly.nodup

theorem FreeList.congr (free : FreeList c list) (first : c'.ifreeh = c.ifreeh) (last : c'.ifreet = c.ifreet)
    (links : ∀ j ∈ list, (c'.inode j).iFreef = (c.inode j).iFreef ∧ (c'.inode j).iFreeb = (c.inode j).iFreeb) :
    FreeList c' list := by
  refine ⟨?_, fun j member => ?_⟩
  · rw [first, last]
    exact free.doubly.congr (fun j member => (links j member).1) fun j member => by
      rw [Table.before, Table.before, (links j member).2]
  · rw [(links j member).2]
    exact free.named j member

/-! ## Taking off -/

theorem unfree_eq {iq : Option Nat} (named : (c.inode ip).iFreeb = some link) (notLink : link ≠ .freef ip)
    (notNext : iq ≠ some ip) : ∃ c', unfree ip iq c = some c' ∧ c'.forw = c.forw ∧ c'.back = c.back ∧
      c'.ifreeh = (if link = .ifreeh then iq else c.ifreeh) ∧ c'.ifreet = (if iq = none then link else c.ifreet) ∧
      ∀ j, c'.inode j = { c.inode j with
        iFreef := if j = ip then none else if link = .freef j then iq else (c.inode j).iFreef
        iFreeb := if j = ip then none else if iq = some j then some link else (c.inode j).iFreeb } := by
  simp only [unfree, named, Option.bind_eq_bind, Option.bind_some]
  refine ⟨_, rfl, ?_, ?_, ?_, ?_, fun j => ?_⟩
  · cases iq <;> cases link <;> rfl
  · cases iq <;> cases link <;> rfl
  · cases iq <;> cases link <;> rfl
  · cases iq <;> cases link <;> rfl
  · by_cases here : j = ip
    · subst here
      cases iq with
      | none =>
        cases link with
        | ifreeh => simp
        | freef p => simp [show ¬ j = p from fun same => notLink (by rw [same])]
      | some q =>
        have differ : ¬ j = q := fun same => notNext (by rw [same])
        cases link with
        | ifreeh => simp [differ]
        | freef p => simp [differ, show ¬ j = p from fun same => notLink (by rw [same])]
    · cases iq with
      | none =>
        cases link with
        | ifreeh => simp [here]
        | freef p =>
          by_cases same : j = p
          · subst same
            simp [here]
          · simp [here, same, Ne.symm same]
      | some q =>
        cases link with
        | ifreeh =>
          by_cases next : j = q
          · subst next
            simp [here]
          · simp [here, next, Ne.symm next]
        | freef p =>
          by_cases same : j = p
          · subst same
            by_cases next : j = q
            · subst next
              simp [here]
            · simp [here, next, Ne.symm next]
          · by_cases next : j = q
            · subst next
              simp [here, same, Ne.symm same]
            · simp [here, same, next, Ne.symm same, Ne.symm next]

theorem unfree_list (free : FreeList c (left ++ ip :: right)) :
    ∃ c', unfree ip (c.inode ip).iFreef c = some c' ∧ FreeList c' (left ++ right) ∧ Relinked c c' ∧
      (c'.inode ip).iFreef = none ∧ (c'.inode ip).iFreeb = none ∧
      ∀ j, j ∉ left ++ ip :: right → (c'.inode j).iFreef = (c.inode j).iFreef ∧ (c'.inode j).iFreeb = (c.inode j).iFreeb := by
  obtain ⟨link, named⟩ := Option.ne_none_iff_exists'.mp (free.named ip (by simp))
  have next : (c.inode ip).iFreef = right.head? := free.doubly.next_eq
  have prev : link.owner = left.getLast? := by
    have back := free.doubly.prev_eq
    rw [Table.before, named] at back
    exact back
  have absent : ip ∉ left ++ right := (List.nodup_middle.mp free.nodup).notMem
  have notLink : link ≠ .freef ip := fun same => absent (List.mem_append_left _
    (mem_of_getLast? (prev.symm.trans (owner_some.mpr same))))
  have notNext : (c.inode ip).iFreef ≠ some ip := fun same => absent (List.mem_append_right _
    (mem_of_head? (next.symm.trans same)))
  obtain ⟨c', result, forw, back, first, last, inode⟩ := unfree_eq named notLink notNext
  have away {j : Nat} (member : j ∈ left ++ right) : j ≠ ip := fun same => absent (same ▸ member)
  have link_iff {j : Nat} : link = .freef j ↔ left.getLast? = some j := by rw [← prev, owner_some]
  refine ⟨c', result, ⟨?_, fun j member => ?_⟩, ⟨forw, back, fun j => by rw [inode]⟩, by rw [inode]; simp,
    by rw [inode]; simp, fun j outside => ?_⟩
  · have deleted := (@Doubly.delete _ _ _ c'.after c'.before) free.doubly
      (fun p there => by
        have differ : p ≠ ip := away (List.mem_append_left _ (mem_of_getLast? there))
        simp only [Table.after, inode, if_neg differ, if_pos (link_iff.mpr there)])
      (fun p there => by
        have differ : p ≠ ip := away (List.mem_append_right _ (mem_of_head? there))
        simp only [Table.before, inode, if_neg differ, if_pos (next.trans there), named])
      (fun j member other => by
        simp only [Table.after, inode, if_neg (away member), if_neg fun same => other (link_iff.mp same)])
      fun j member other => by
        simp only [Table.before, inode, if_neg (away member), if_neg fun same => other (next.symm.trans same)]
    have head : (if left.getLast? = none then c.after ip else c.ifreeh) = c'.ifreeh := by
      rw [first, ← prev]
      simp only [owner_none]
    have tail : (if right.head? = none then c.before ip else c.ifreet.owner) = c'.ifreet.owner := by
      rw [last, ← next, Table.before, named]
      split <;> rfl
    rw [head, tail] at deleted
    exact deleted
  · rw [inode]
    simp only [if_neg (away member)]
    split
    · simp
    · exact free.named j (by
        rcases List.mem_append.mp member with member | member
        · simp [member]
        · simp [member])
  · have differ : j ≠ ip := fun same => outside (by simp [same])
    have notBefore : ¬ link = .freef j := fun same =>
      outside (List.mem_append_left _ (mem_of_getLast? (link_iff.mp same)))
    have notAfter : ¬ (c.inode ip).iFreef = some j := fun same =>
      outside (List.mem_append_right _ (.tail _ (mem_of_head? (next.symm.trans same))))
    rw [inode]
    simp [differ, notBefore, notAfter]

/-! ## Putting on -/

theorem front_list (free : FreeList c list) (fresh : ip ∉ list)
    (first : c'.ifreeh = some ip) (last : c'.ifreet = if c.ifreeh = none then .freef ip else c.ifreet)
    (inode : ∀ j, c'.inode j = { c.inode j with
      iFreef := if j = ip then c.ifreeh else (c.inode j).iFreef
      iFreeb := if j = ip then some .ifreeh else if c.ifreeh = some j then some (.freef ip) else (c.inode j).iFreeb }) :
    FreeList c' (ip :: list) := by
  have head : c.ifreeh = list.head? := free.doubly.first_eq
  have away {j : Nat} (member : j ∈ list) : j ≠ ip := fun same => fresh (same ▸ member)
  refine ⟨?_, fun j member => ?_⟩
  · have inserted := (@Doubly.insert _ _ _ c'.after c'.before _ _ [] list ip) free.doubly fresh
      (by simp only [Table.after, inode, if_true, head])
      (by simp only [Table.before, inode, if_true]; rfl)
      (by simp)
      (fun p there => by
        have differ : p ≠ ip := away (mem_of_head? there)
        simp only [Table.before, inode, if_neg differ, if_pos (head.trans there)]
        rfl)
      (fun j member _ => by simp only [Table.after, inode, if_neg (away member)])
      fun j member other => by
        simp only [Table.before, inode, if_neg (away member), if_neg fun same => other (head.symm.trans same)]
    have tail : (if list.head? = none then some ip else c.ifreet.owner) = c'.ifreet.owner := by
      rw [last, ← head]
      split <;> rfl
    rw [tail] at inserted
    rw [first]
    exact inserted
  · rw [inode]
    split
    · simp
    · split
      · simp
      · exact free.named j ((mem_cons.mp member).resolve_left ‹_›)

theorem back_list (free : FreeList c list) (fresh : ip ∉ list)
    (first : c'.ifreeh = if c.ifreet = .ifreeh then some ip else c.ifreeh) (last : c'.ifreet = .freef ip)
    (inode : ∀ j, c'.inode j = { c.inode j with
      iFreef := if j = ip then none else if c.ifreet = .freef j then some ip else (c.inode j).iFreef
      iFreeb := if j = ip then some c.ifreet else (c.inode j).iFreeb }) : FreeList c' (list ++ [ip]) := by
  have tail : c.ifreet.owner = list.getLast? := free.doubly.last_eq
  have link_iff {j : Nat} : c.ifreet = .freef j ↔ list.getLast? = some j := by rw [← tail, owner_some]
  have away {j : Nat} (member : j ∈ list) : j ≠ ip := fun same => fresh (same ▸ member)
  refine ⟨?_, fun j member => ?_⟩
  · have inserted := (@Doubly.insert _ _ _ c'.after c'.before _ _ list [] ip) (by simpa using free.doubly) (by simpa using fresh)
      (by simp only [Table.after, inode, if_true]; rfl)
      (by simp only [Table.before, inode, if_true]; exact tail)
      (fun p there => by
        have differ : p ≠ ip := away (mem_of_getLast? there)
        simp only [Table.after, inode, if_neg differ, if_pos (link_iff.mpr there)])
      (by simp)
      (fun j member other => by
        have here : j ∈ list := by simpa using member
        simp only [Table.after, inode, if_neg (away here), if_neg fun same => other (link_iff.mp same)])
      fun j member _ => by
        have here : j ∈ list := by simpa using member
        simp only [Table.before, inode, if_neg (away here)]
    have head : (if list.getLast? = none then some ip else c.ifreeh) = c'.ifreeh := by
      rw [first, ← tail]
      simp only [owner_none]
    rw [head] at inserted
    rw [last]
    exact inserted
  · rw [inode]
    split
    · simp
    · exact free.named j ((List.mem_append.mp member).resolve_right (by simpa using ‹_›))

/-- What `putFree` does to the list. -/
theorem putFree_list (free : FreeList c list) (fresh : ip ∉ list) :
    ∃ list', FreeList (putFree ip c) list' ∧ (∀ j, j ∈ list' ↔ j = ip ∨ j ∈ list) ∧ Relinked c (putFree ip c) ∧
      ∀ j, j ∉ ip :: list → ((putFree ip c).inode j).iFreef = (c.inode j).iFreef ∧
        ((putFree ip c).inode j).iFreeb = (c.inode j).iFreeb := by
  rw [putFree]
  split
  · -- In front.
    have head : c.ifreeh = list.head? := free.doubly.first_eq
    have notHead : c.ifreeh ≠ some ip := fun same => fresh (mem_of_head? (head.symm.trans same))
    generalize result : putFront ip c = c'
    have forw : c'.forw = c.forw := by
      rw [← result, putFront]
      cases c.ifreeh <;> rfl
    have back : c'.back = c.back := by
      rw [← result, putFront]
      cases c.ifreeh <;> rfl
    have first : c'.ifreeh = some ip := by
      rw [← result, putFront]
    have last : c'.ifreet = if c.ifreeh = none then .freef ip else c.ifreet := by
      rw [← result, putFront]
      cases c.ifreeh <;> rfl
    have inode : ∀ j, c'.inode j = { c.inode j with
        iFreef := if j = ip then c.ifreeh else (c.inode j).iFreef
        iFreeb := if j = ip then some .ifreeh else if c.ifreeh = some j then some (.freef ip) else (c.inode j).iFreeb } := by
      intro j
      rw [← result, putFront]
      cases here : c.ifreeh with
      | none => by_cases same : j = ip <;> simp [same]
      | some q =>
        have differ : q ≠ ip := fun same => notHead (by rw [here, same])
        by_cases same : j = ip
        · subst same
          simp [Ne.symm differ, here]
        · by_cases next : j = q
          · subst next
            simp [same]
          · simp [same, next, Ne.symm next]
    refine ⟨ip :: list, front_list free fresh first last inode, fun j => mem_cons,
      ⟨forw, back, fun j => by rw [inode]⟩, fun j outside => ?_⟩
    have differ : j ≠ ip := fun same => outside (by simp [same])
    have other : ¬ c.ifreeh = some j := fun same => outside (.tail _ (mem_of_head? (head.symm.trans same)))
    rw [inode]
    simp [differ, other]
  · -- At the end; an empty list has `&ifreeh` for its last link.
    have tail : c.ifreet.owner = list.getLast? := free.doubly.last_eq
    have head : c.ifreeh = list.head? := free.doubly.first_eq
    have notTail : c.ifreet ≠ .freef ip := fun same =>
      fresh (mem_of_getLast? (tail.symm.trans (owner_some.mpr same)))
    generalize result : putRear ip c = c'
    have empty (none : c.ifreeh = none) : c.ifreet = .ifreeh := by
      have nil : list = [] := List.head?_eq_none_iff.mp (head.symm.trans none)
      rw [nil] at tail
      exact owner_none.mp tail
    have forw : c'.forw = c.forw := by
      rw [← result, putRear]
      cases c.ifreeh <;> cases c.ifreet <;> rfl
    have back : c'.back = c.back := by
      rw [← result, putRear]
      cases c.ifreeh <;> cases c.ifreet <;> rfl
    have last : c'.ifreet = .freef ip := by
      rw [← result, putRear]
    have first : c'.ifreeh = if c.ifreet = .ifreeh then some ip else c.ifreeh := by
      rw [← result, putRear]
      cases here : c.ifreeh with
      | none => simp [empty here]
      | some q => cases link : c.ifreet <;> simp [here]
    have inode : ∀ j, c'.inode j = { c.inode j with
        iFreef := if j = ip then none else if c.ifreet = .freef j then some ip else (c.inode j).iFreef
        iFreeb := if j = ip then some c.ifreet else (c.inode j).iFreeb } := by
      intro j
      rw [← result, putRear]
      cases here : c.ifreeh with
      | none => by_cases same : j = ip <;> simp [same, empty here]
      | some q =>
        cases link : c.ifreet with
        | ifreeh => by_cases same : j = ip <;> simp [same]
        | freef p =>
          have differ : p ≠ ip := fun same => notTail (by rw [link, same])
          by_cases same : j = ip
          · subst same
            simp [Ne.symm differ]
          · by_cases next : j = p
            · subst next
              simp [same]
            · simp [same, next, Ne.symm next]
    refine ⟨list ++ [ip], back_list free fresh first last inode, fun j => by simp [or_comm],
      ⟨forw, back, fun j => by rw [inode]⟩, fun j outside => ?_⟩
    have differ : j ≠ ip := fun same => outside (by simp [same])
    have other : ¬ c.ifreet = .freef j := fun same =>
      outside (.tail _ (mem_of_getLast? (tail.symm.trans (owner_some.mpr same))))
    rw [inode]
    simp [differ, other]

end

/-! ## Hash chains -/

/-- The chains, but for inode `loose`, which is on none and points anywhere. -/
structure Chained (nInode : Nat) (hash : Nat → Nat → Nat) (loose : Option Nat) (c : Table) (chain : Nat → List Nat) : Prop where
  ring : ∀ h, Ring c.forw c.back (.head h) ((chain h).map .inode)
  known : ∀ h, ∀ ip ∈ chain h, ip < nInode
  place : ∀ h, ∀ ip ∈ chain h, hash (c.inode ip).iDev (c.inode ip).iNumber = h
  single : ∀ h, ∀ ip ∈ chain h, ∀ jp ∈ chain h, (c.inode ip).iDev = (c.inode jp).iDev →
    (c.inode ip).iNumber = (c.inode jp).iNumber → ip = jp
  off : ∀ ip, (∀ h, ip ∉ chain h) → loose ≠ some ip → c.forw (.inode ip) = .inode ip ∧ c.back (.inode ip) = .inode ip
  away : ∀ ip, loose = some ip → ∀ h, ip ∉ chain h

section
variable {nInode dev ino ip h : Nat} {hash : Nat → Nat → Nat} {loose : Option Nat} {c c' : Table} {chain : Nat → List Nat}

theorem Chained.congr (chained : Chained nInode hash loose c chain) (forw : c'.forw = c.forw) (back : c'.back = c.back)
    (same : ∀ h, ∀ j ∈ chain h, (c'.inode j).iDev = (c.inode j).iDev ∧ (c'.inode j).iNumber = (c.inode j).iNumber) :
    Chained nInode hash loose c' chain := by
  refine ⟨fun h => ?_, chained.known, fun h j member => ?_, fun h j member k other => ?_, ?_, chained.away⟩
  · rw [forw, back]
    exact chained.ring h
  · rw [(same h j member).1, (same h j member).2]
    exact chained.place h j member
  · rw [(same h j member).1, (same h j member).2, (same h k other).1, (same h k other).2]
    exact chained.single h j member k other
  · rw [forw, back]
    exact chained.off

theorem Chained.unique {h' : Nat} (chained : Chained nInode hash loose c chain) (here : ip ∈ chain h) (there : ip ∈ chain h') :
    h = h' := (chained.place h ip here).symm.trans (chained.place h' ip there)

theorem Chained.length_le (chained : Chained nInode hash loose c chain) (h : Nat) : (chain h).length ≤ nInode := by
  have nodup : (chain h).Nodup := (List.nodup_map_iff fun _ _ same => Node.inode.inj same).mp (chained.ring h).nodup
  have sub : chain h ⊆ List.range nInode := fun ip member => List.mem_range.mpr (chained.known h ip member)
  simpa using (List.subperm_of_subset nodup sub).length_le

theorem scan_eq {left right : List Nat} {fuel : Nat} (ring : Ring c.forw c.back (.head h) ((left ++ right).map .inode))
    (enough : right.length < fuel) :
    scan c h dev ino fuel ((right.map Node.inode).head?.getD (.head h)) =
      right.find? fun ip => ino = (c.inode ip).iNumber ∧ dev = (c.inode ip).iDev := by
  induction right generalizing left fuel with
  | nil =>
    obtain ⟨fuel, rfl⟩ := Nat.exists_eq_add_one.mpr enough
    simp [scan]
  | cons ip right ih =>
    obtain ⟨fuel, rfl⟩ := Nat.exists_eq_succ_of_ne_zero (Nat.ne_zero_of_lt enough)
    simp only [map_cons, List.head?_cons, Option.getD_some, scan, reduceCtorEq, if_false, List.find?_cons]
    by_cases found : ino = (c.inode ip).iNumber ∧ dev = (c.inode ip).iDev
    · simp [found]
    · have next : c.forw (.inode ip) = (right.map Node.inode).head?.getD (.head h) := by
        rw [List.map_append, map_cons] at ring
        exact ring.forw_eq
      simp only [found, if_false, decide_false, next]
      exact (@ih (left ++ [ip])) (by simpa using ring) (by simpa using enough)

theorem search_eq (chained : Chained nInode hash loose c chain) : search nInode hash dev ino c =
    (chain (hash dev ino)).find? fun ip => ino = (c.inode ip).iNumber ∧ dev = (c.inode ip).iDev := by
  have ring := chained.ring (hash dev ino)
  rw [search, ring.first_eq]
  exact (@scan_eq _ _ _ _ [] _ _) ring (Nat.lt_succ_of_le (chained.length_le _))

theorem scan_congr (forw : c'.forw = c.forw)
    (same : ∀ j, (c'.inode j).iDev = (c.inode j).iDev ∧ (c'.inode j).iNumber = (c.inode j).iNumber) (fuel : Nat) (node : Node) :
    scan c' h dev ino fuel node = scan c h dev ino fuel node := by
  induction fuel generalizing node with
  | zero => rfl
  | succ fuel ih =>
    cases node with
    | head _ => rfl
    | inode j => simp only [scan, forw, (same j).1, (same j).2, ih]

theorem search_congr (forw : c'.forw = c.forw)
    (same : ∀ j, (c'.inode j).iDev = (c.inode j).iDev ∧ (c'.inode j).iNumber = (c.inode j).iNumber) :
    search nInode hash dev ino c' = search nInode hash dev ino c := by
  rw [search, search, scan_congr forw same, forw]

theorem search_some (chained : Chained nInode hash loose c chain) (found : search nInode hash dev ino c = some ip) :
    ip ∈ chain (hash dev ino) := by
  rw [search_eq chained] at found
  exact List.mem_of_find?_eq_some found

theorem search_none (chained : Chained nInode hash loose c chain) (found : search nInode hash dev ino c = none) :
    ∀ jp ∈ chain (hash dev ino), ¬ ((c.inode jp).iDev = dev ∧ (c.inode jp).iNumber = ino) := by
  rw [search_eq chained, List.find?_eq_none] at found
  intro jp member ⟨device, number⟩
  exact found jp member (by simp [device, number])

/-! ## Moving on the chains -/

theorem remque_forw : (remque ip c).forw = update c.forw (c.back (.inode ip)) (c.forw (.inode ip)) := rfl

theorem remque_back : (remque ip c).back = update c.back (c.forw (.inode ip)) (c.back (.inode ip)) := by
  simp only [remque]
  congr 1
  by_cases same : Node.inode ip = c.back (.inode ip)
  · rw [← same, update_self]
  · rw [update_of_ne same]

theorem remque_chained (chained : Chained nInode hash none c chain) :
    ∃ chain', Chained nInode hash (some ip) (remque ip c) chain' ∧ ∀ h j, j ∈ chain' h → j ∈ chain h := by
  by_cases on : ∃ h, ip ∈ chain h
  · obtain ⟨h, member⟩ := on
    obtain ⟨left, right, split⟩ := List.append_of_mem member
    have ring := chained.ring h
    rw [split, List.map_append, map_cons] at ring
    have nodup : (chain h).Nodup := (List.nodup_map_iff fun _ _ same => Node.inode.inj same).mp (chained.ring h).nodup
    rw [split] at nodup
    have absent : ip ∉ left ++ right := (List.nodup_middle.mp nodup).notMem
    have sub {j : Nat} (there : j ∈ left ++ right) : j ∈ chain h := by
      rw [split]
      exact List.perm_middle.mem_iff.mpr (.tail _ there)
    -- The neighbours are the head of this chain or inodes on it.
    have mine {node : Node} (near : node = c.back (.inode ip) ∨ node = c.forw (.inode ip)) {h' : Nat} (other : h' ≠ h) :
        node ∉ Node.head h' :: (chain h').map .inode := by
      have shape : node = .head h ∨ ∃ j, node = .inode j ∧ j ∈ chain h := by
        rcases near with rfl | rfl
        · rw [ring.back_eq]
          cases last : (left.map Node.inode).getLast? with
          | none => exact .inl rfl
          | some p =>
            obtain ⟨j, there, rfl⟩ := mem_map.mp (mem_of_getLast? last)
            exact .inr ⟨j, rfl, sub (by simp [there])⟩
        · rw [ring.forw_eq]
          cases first : (right.map Node.inode).head? with
          | none => exact .inl rfl
          | some p =>
            obtain ⟨j, there, rfl⟩ := mem_map.mp (mem_of_head? first)
            exact .inr ⟨j, rfl, sub (by simp [there])⟩
      rcases shape with rfl | ⟨j, rfl, there⟩
      · simp [Ne.symm other]
      · simp only [mem_cons, reduceCtorEq, false_or, mem_map, Node.inode.injEq, exists_eq_right]
        exact fun here => other (chained.unique here there)
    have chains (h' : Nat) : update chain h (left ++ right) h' ⊆ chain h' := by
      intro j there
      by_cases same : h' = h
      · subst same
        rw [update_self] at there
        exact sub there
      · rw [update_of_ne same] at there
        exact there
    refine ⟨update chain h (left ++ right), ⟨fun h' => ?_, fun h' j there => chained.known h' j (chains h' there),
      fun h' j there => chained.place h' j (chains h' there),
      fun h' j there k other => chained.single h' j (chains h' there) k (chains h' other), fun j none distinct => ?_, ?_⟩,
      fun h' j there => chains h' there⟩
    · by_cases same : h' = h
      · subst same
        rw [update_self, List.map_append, remque_forw, remque_back]
        exact ring.delete (update_self ..) (update_self ..) (fun b differ => update_of_ne differ ..)
          fun b differ => update_of_ne differ ..
      · rw [update_of_ne same]
        refine (chained.ring h').congr (fun node there => ?_) fun node there => ?_
        · rw [remque_forw, update_of_ne fun near => mine (.inl near) same there]
        · rw [remque_back, update_of_ne fun near => mine (.inr near) same there]
    · -- An inode on no chain is no neighbour.
      have differ : j ≠ ip := fun equal => distinct (by rw [equal])
      have before (h' : Nat) : j ∉ chain h' := by
        intro there
        refine none h' ?_
        by_cases same : h' = h
        · subst same
          rw [update_self]
          rw [split] at there
          exact (mem_cons.mp (List.perm_middle.mem_iff.mp there)).resolve_left differ
        · rw [update_of_ne same]
          exact there
      obtain ⟨next, prev⟩ := chained.off j before nofun
      have apart {near : Node} (shape : near = .head h ∨ ∃ i, near = .inode i ∧ i ∈ left ++ right) : Node.inode j ≠ near := by
        rcases shape with rfl | ⟨i, rfl, there⟩
        · simp
        · intro equal
          exact before h (sub (Node.inode.inj equal ▸ there))
      have back : Node.inode j ≠ c.back (.inode ip) := by
        rw [ring.back_eq]
        cases last : (left.map Node.inode).getLast? with
        | none => exact apart (.inl rfl)
        | some p =>
          obtain ⟨i, there, rfl⟩ := mem_map.mp (mem_of_getLast? last)
          exact apart (.inr ⟨i, rfl, by simp [there]⟩)
      have forw : Node.inode j ≠ c.forw (.inode ip) := by
        rw [ring.forw_eq]
        cases first : (right.map Node.inode).head? with
        | none => exact apart (.inl rfl)
        | some p =>
          obtain ⟨i, there, rfl⟩ := mem_map.mp (mem_of_head? first)
          exact apart (.inr ⟨i, rfl, by simp [there]⟩)
      rw [remque_forw, remque_back, update_of_ne back, update_of_ne forw]
      exact ⟨next, prev⟩
    · rintro j ⟨⟩ h' there
      by_cases same : h' = h
      · subst same
        rw [update_self] at there
        exact absent there
      · exact same (chained.unique (chains h' there) member)
  · have none : ∀ h, ip ∉ chain h := fun h member => on ⟨h, member⟩
    obtain ⟨next, prev⟩ := chained.off ip none nofun
    have same : remque ip c = c := by
      simp only [remque, next, prev]
      rw [Function.update_eq_self_iff.mpr next.symm, next, Function.update_eq_self_iff.mpr prev.symm]
    rw [same]
    refine ⟨chain, ⟨chained.ring, chained.known, chained.place, chained.single, fun j off _ => chained.off j off nofun, ?_⟩,
      fun _ _ => id⟩
    rintro j ⟨⟩
    exact none

theorem selfque_chained (chained : Chained nInode hash (some ip) c chain) : Chained nInode hash none (selfque ip c) chain := by
  have away {h : Nat} {node : Node} (member : node ∈ Node.head h :: (chain h).map .inode) : node ≠ .inode ip := by
    rintro rfl
    simp only [mem_cons, reduceCtorEq, false_or, mem_map, Node.inode.injEq, exists_eq_right] at member
    exact chained.away ip rfl h member
  refine ⟨fun h => ?_, chained.known, chained.place, chained.single, fun j off _ => ?_, nofun⟩
  · exact (chained.ring h).congr (fun node member => update_of_ne (away member) ..)
      fun node member => update_of_ne (away member) ..
  · by_cases same : j = ip
    · subst same
      exact ⟨update_self .., update_self ..⟩
    · have differ : Node.inode j ≠ .inode ip := fun equal => same (Node.inode.inj equal)
      have others := chained.off j off fun equal => same (Option.some.inj equal).symm
      simp only [selfque, update_of_ne differ]
      exact others

theorem insque_forw : (insque ip h c).forw =
    update (update c.forw (.inode ip) (c.forw (.head h))) (.head h) (.inode ip) := rfl

theorem insque_back : (insque ip h c).back =
    update (update c.back (c.forw (.head h)) (.inode ip)) (.inode ip) (.head h) := rfl

theorem insque_chained (chained : Chained nInode hash (some ip) c chain) (known : ip < nInode)
    (fresh : ∀ j ∈ chain (hash dev ino), ¬ ((c.inode j).iDev = dev ∧ (c.inode j).iNumber = ino)) :
    Chained nInode hash none (identify dev ino ip (insque ip (hash dev ino) c)).2
      (update chain (hash dev ino) (ip :: chain (hash dev ino))) := by
  generalize place : hash dev ino = h at *
  have absent := chained.away ip rfl
  have named {j : Nat} (differ : j ≠ ip) : (identify dev ino ip (insque ip h c)).2.inode j = c.inode j :=
    update_of_ne differ ..
  have own : ((identify dev ino ip (insque ip h c)).2.inode ip).iDev = dev ∧
      ((identify dev ino ip (insque ip h c)).2.inode ip).iNumber = ino := by
    simp [identify]
  have old {h' j : Nat} (member : j ∈ chain h') : j ≠ ip := fun same => absent h' (same ▸ member)
  -- The inode next to the head is on this chain, or is the head.
  have first : c.forw (.head h) = .head h ∨ ∃ j, c.forw (.head h) = .inode j ∧ j ∈ chain h := by
    rw [(chained.ring h).first_eq]
    cases start : (((chain h).map Node.inode).head?) with
    | none => exact .inl rfl
    | some node =>
      obtain ⟨j, there, rfl⟩ := mem_map.mp (mem_of_head? start)
      exact .inr ⟨j, rfl, there⟩
  have split {h' j : Nat} (member : j ∈ update chain h (ip :: chain h) h') : j = ip ∧ h' = h ∨ j ≠ ip ∧ j ∈ chain h' := by
    by_cases same : h' = h
    · subst same
      rw [update_self] at member
      rcases mem_cons.mp member with rfl | member
      · exact .inl ⟨rfl, rfl⟩
      · exact .inr ⟨old member, member⟩
    · rw [update_of_ne same] at member
      exact .inr ⟨old member, member⟩
  refine ⟨fun h' => ?_, fun h' j member => ?_, fun h' j member => ?_, fun h' j member k other device number => ?_,
    fun j off _ => ?_, nofun⟩
  · show Ring (insque ip h c).forw (insque ip h c).back (.head h') _
    rw [insque_forw, insque_back]
    by_cases same : h' = h
    · subst same
      rw [update_self, map_cons]
      refine (chained.ring h').push ?_ (by simp) ?_ (update_self ..) (update_self ..) ?_
        (fun b notIp notHead => ?_) fun b notIp notFirst => ?_
      · simpa using absent h'
      · rw [update_of_ne (by simp), update_self]
      · rcases first with stop | ⟨j, next, there⟩
        · rw [stop, update_of_ne (by simp), update_self]
        · rw [next, update_of_ne (by simpa using old there), update_self]
      · rw [update_of_ne notHead, update_of_ne notIp]
      · rw [update_of_ne notIp, update_of_ne notFirst]
    · rw [update_of_ne same]
      have apart {node : Node} (member : node ∈ Node.head h' :: (chain h').map .inode) :
          node ≠ .inode ip ∧ node ≠ .head h ∧ node ≠ c.forw (.head h) := by
        rcases mem_cons.mp member with rfl | member
        · refine ⟨by simp, by simpa using same, ?_⟩
          rcases first with stop | ⟨j, next, there⟩
          · rw [stop]
            simpa using same
          · simp [next]
        · obtain ⟨j, here, rfl⟩ := mem_map.mp member
          refine ⟨by simpa using old here, by simp, ?_⟩
          rcases first with stop | ⟨i, next, there⟩
          · simp [stop]
          · rw [next]
            intro equal
            exact same (chained.unique here (Node.inode.inj equal ▸ there))
      refine (chained.ring h').congr (fun node member => ?_) fun node member => ?_
      · obtain ⟨notIp, notHead, _⟩ := apart member
        rw [update_of_ne notHead, update_of_ne notIp]
      · obtain ⟨notIp, _, notFirst⟩ := apart member
        rw [update_of_ne notIp, update_of_ne notFirst]
  · rcases split member with ⟨rfl, _⟩ | ⟨_, member⟩
    · exact known
    · exact chained.known h' j member
  · rcases split member with ⟨rfl, rfl⟩ | ⟨differ, member⟩
    · rw [own.1, own.2, place]
    · rw [named differ]
      exact chained.place h' j member
  · rcases split member with ⟨rfl, rfl⟩ | ⟨differ, member⟩
    · rcases split other with ⟨rfl, _⟩ | ⟨away, other⟩
      · rfl
      · rw [named away, own.1] at device
        rw [named away, own.2] at number
        exact absurd ⟨device.symm, number.symm⟩ (fresh k other)
    · rcases split other with ⟨rfl, rfl⟩ | ⟨away, other⟩
      · rw [named differ, own.1] at device
        rw [named differ, own.2] at number
        exact absurd ⟨device, number⟩ (fresh j ‹j ∈ chain h'›)
      · rw [named differ, named away] at device number
        exact chained.single h' j member k other device number
  · show (insque ip h c).forw (.inode j) = .inode j ∧ (insque ip h c).back (.inode j) = .inode j
    have differ : j ≠ ip := by
      rintro rfl
      exact off h (by simp)
    have off' (h' : Nat) : j ∉ chain h' := by
      intro there
      refine off h' ?_
      by_cases same : h' = h
      · subst same
        rw [update_self]
        exact .tail _ there
      · rwa [update_of_ne same]
    have notIp : Node.inode j ≠ .inode ip := fun equal => differ (Node.inode.inj equal)
    have notFirst : Node.inode j ≠ c.forw (.head h) := by
      rcases first with stop | ⟨i, next, there⟩
      · simp [stop]
      · rw [next]
        intro equal
        exact off' h (Node.inode.inj equal ▸ there)
    rw [insque_forw, insque_back, update_of_ne (by simp), update_of_ne notIp, update_of_ne notIp,
      update_of_ne notFirst]
    exact chained.off j off' fun equal => differ (Option.some.inj equal).symm

end

end Svr4.Ufs.Cache
