import Svr4.Kernel.Semaphore.Steps

/-! Undo structures are free or belong to one process, and those with entries are
on the undo chain.

One link field threads the free chain and the undo chain. `semexit` frees the
structure of a process and leaves the pointer in `sem_undo[]`, so the statement
holds as long as no new process is given a slot with such a pointer.
-/

namespace Svr4.Semaphore

open Words
open Option (some)
open List (nodup_cons mem_cons mem_append)

attribute [local simp] System.live Proc.live Tables.setUndo System.put

/-- Each structure is free or belongs to one slot that has a process. -/
structure Owners (info : Seminfo) (semUndo : Slot → Option Nat) (live : Slot → Prop) (free : List Nat) : Prop where
  inside : ∀ up ∈ free, up < info.semmnu
  bound : ∀ slot up, live slot → semUndo slot = some up → up < info.semmnu
  apart : ∀ slot up, live slot → semUndo slot = some up → up ∉ free
  single : ∀ slot slot' up, live slot → live slot' → semUndo slot = some up → semUndo slot' = some up →
    slot = slot'
  cover : ∀ up < info.semmnu, up ∈ free ∨ ∃ slot, live slot ∧ semUndo slot = some up

/-- The chains: the free structures have no entries, the undo chain has exactly
the owned structures with entries. -/
structure Linked (info : Seminfo) (k : Tables) (live : Slot → Prop) (free active : List Nat) : Prop where
  owners : Owners info k.semUndo live free
  freeChain : Chain k.next k.semfup free
  activeChain : Chain k.next k.semunp active
  member : ∀ up, up ∈ active ↔ (∃ slot, live slot ∧ k.semUndo slot = some up) ∧ (k.semu up).unEnt ≠ []
  empty : ∀ up ∈ free, (k.semu up).unEnt = []

section
variable {info : Seminfo} {k k' k₁ : Tables} {live : Slot → Prop} {free active : List Nat} {slot : Slot}
  {up : Nat} {semUndo : Slot → Option Nat} {id : Int} {low high : Nat}

theorem setUndo_next (k : Tables) (up other : Nat) (value : SemUndo → SemUndo) :
    (k.setUndo up value).next other = if other = up then (value (k.semu up)).unNp else k.next other := by
  by_cases here : other = up
  · subst here
    simp [Tables.next]
  · simp [Tables.next, here]

theorem setUndo_entries (k : Tables) (up other : Nat) (value : SemUndo → SemUndo) :
    ((k.setUndo up value).semu other).unEnt =
      if other = up then (value (k.semu up)).unEnt else (k.semu other).unEnt := by
  by_cases here : other = up
  · subst here
    simp
  · simp [here]

theorem update_points {slot other : Slot} {up new : Nat}
    (points : Function.update semUndo slot (some new) other = some up) :
    (other = slot ∧ up = new) ∨ (other ≠ slot ∧ semUndo other = some up) := by
  by_cases here : other = slot
  · subst here
    exact .inl ⟨rfl, by simpa using points.symm⟩
  · exact .inr ⟨here, by simpa [here] using points⟩

theorem Owners.take (owners : Owners info semUndo live (up :: free)) (nodup : (up :: free).Nodup)
    (alive : live slot) (none : semUndo slot = none) :
    Owners info (Function.update semUndo slot (some up)) live free := by
  have fresh : up ∉ free := (nodup_cons.mp nodup).1
  have alone (other : Slot) (alive : live other) (points : semUndo other = some up) : False :=
    owners.apart other up alive points (by simp)
  constructor
  · exact fun other member => owners.inside other (by simp [member])
  · intro other up' alive points
    rcases update_points points with ⟨_, rfl⟩ | ⟨_, points⟩
    · exact owners.inside up' (by simp)
    · exact owners.bound other up' alive points
  · intro other up' alive points member
    rcases update_points points with ⟨_, rfl⟩ | ⟨_, points⟩
    · exact fresh member
    · exact owners.apart other up' alive points (by simp [member])
  · intro a b up' alive alive' points points'
    rcases update_points points with ⟨here, rfl⟩ | ⟨_, points⟩
    · rcases update_points points' with ⟨there, _⟩ | ⟨_, points'⟩
      · exact here.trans there.symm
      · exact (alone b alive' points').elim
    · rcases update_points points' with ⟨_, same⟩ | ⟨_, points'⟩
      · exact (alone a alive (same ▸ points)).elim
      · exact owners.single a b up' alive alive' points points'
  · intro up' inside
    rcases owners.cover up' inside with member | ⟨other, alive', points⟩
    · rcases mem_cons.mp member with rfl | member
      · exact .inr ⟨slot, alive, by simp⟩
      · exact .inl member
    · refine .inr ⟨other, alive', ?_⟩
      have differs : other ≠ slot := by
        rintro rfl
        rw [none] at points
        cases points
      simpa [differs] using points

theorem Linked.disjoint (linked : Linked info k live free active) (inFree : up ∈ free) : up ∉ active := by
  intro inActive
  obtain ⟨⟨slot, alive, owned⟩, _⟩ := (linked.member up).mp inActive
  exact linked.owners.apart slot up alive owned inFree

theorem Linked.acquire (linked : Linked info k live free active) (alive : live slot)
    (taken : k.acquire slot = some (up, k₁)) :
    ∃ free', Linked info k₁ live free' active ∧ k₁.semUndo slot = some up := by
  unfold Tables.acquire at taken
  cases owned : k.semUndo slot with
  | some up' =>
    rw [owned] at taken
    obtain ⟨rfl, rfl⟩ := Prod.mk.inj (some.inj taken)
    exact ⟨free, linked, owned⟩
  | none =>
    rw [owned] at taken
    cases first : k.semfup with
    | none => simp [first] at taken
    | some new =>
      rw [first] at taken
      obtain ⟨rfl, rfl⟩ := Prod.mk.inj (some.inj taken)
      have chain := linked.freeChain
      rw [first] at chain
      obtain ⟨free', rfl, rest⟩ := Chain.cons_iff.mp chain
      have nodup := chain.nodup
      have off : new ∉ active := linked.disjoint (by simp)
      have none : (k.semu new).unEnt = [] := linked.empty new (by simp)
      have entries (other : Nat) : (({ k with semfup := k.next new }.setUndo new fun un =>
          { un with unNp := Option.none }).semu other).unEnt = (k.semu other).unEnt :=
        (setUndo_link { k with semfup := k.next new } new Option.none).unEnt other
      have links (other : Nat) (differs : other ≠ new) : ({ k with semfup := k.next new }.setUndo new fun un =>
          { un with unNp := Option.none }).next other = k.next other := by
        rw [setUndo_next, if_neg differs]
      refine ⟨free', ⟨linked.owners.take nodup alive owned, ?_, ?_, ?_, ?_⟩, by simp⟩
      · refine rest.congr fun other member => links other ?_
        rintro rfl
        exact (nodup_cons.mp nodup).1 member
      · refine linked.activeChain.congr fun other member => links other ?_
        rintro rfl
        exact off member
      · intro up
        rw [linked.member, entries]
        refine and_congr_left fun some_ => ?_
        have differs : up ≠ new := by
          rintro rfl
          exact some_ none
        constructor
        · rintro ⟨other, alive', points⟩
          refine ⟨other, alive', ?_⟩
          have apart : other ≠ slot := by
            rintro rfl
            rw [owned] at points
            cases points
          simpa [apart] using points
        · rintro ⟨other, alive', points⟩
          rcases update_points points with ⟨_, same⟩ | ⟨_, points⟩
          · exact absurd same differs
          · exact ⟨other, alive', points⟩
      · intro other member
        rw [entries]
        exact linked.empty other (by simp [member])

theorem unchain_chain (chain : Chain k.next k.semunp active) (present : up ∈ active)
    (result : k.unchain info up = some k') :
    ∃ active', Chain k'.next k'.semunp active' ∧ (∀ other, other ∈ active' ↔ other ∈ active ∧ other ≠ up) ∧
      ∀ other, other ∉ active ∨ other = up → k'.next other = k.next other := by
  have nodup := chain.nodup
  unfold Tables.unchain at result
  split at result
  · next first =>
    cases result
    rw [first] at chain
    obtain ⟨rest, rfl, tail⟩ := Chain.cons_iff.mp chain
    refine ⟨rest, tail, fun other => ?_, fun _ _ => rfl⟩
    have fresh := (nodup_cons.mp nodup).1
    simp only [mem_cons]
    constructor
    · intro member
      refine ⟨.inr member, ?_⟩
      rintro rfl
      exact fresh member
    · rintro ⟨rfl | member, differs⟩
      · exact absurd rfl differs
      · exact member
  · next elsewhere =>
    obtain ⟨found, walked, result⟩ := Option.bind_eq_some_iff.mp result
    cases found with
    | none => exact absurd present (predecessor_none chain elsewhere walked)
    | some p =>
      cases result
      obtain ⟨left, right, rfl⟩ := predecessor_some chain walked
      simp only [List.nodup_append, nodup_cons, mem_cons, not_or] at nodup
      obtain ⟨_, ⟨⟨differs, pRight⟩, upRight, _⟩, across⟩ := nodup
      have links (other : Nat) (away : other ≠ p) :
          (k.setUndo p fun un => { un with unNp := k.next up }).next other = k.next other := by
        rw [setUndo_next, if_neg away]
      refine ⟨left ++ p :: right, ?_, ?_, ?_⟩
      · refine chain.remove ?_ fun other member => links other ?_
        · rw [setUndo_next, if_pos rfl]
        · rintro rfl
          rcases mem_append.mp member with member | member
          · exact across other member other (.inl rfl) rfl
          · exact pRight member
      · intro other
        simp only [mem_append, mem_cons]
        constructor
        · rintro (member | rfl | member)
          · exact ⟨.inl member, fun same => across other member up (.inr (.inl rfl)) same⟩
          · exact ⟨.inr (.inl rfl), differs⟩
          · refine ⟨.inr (.inr (.inr member)), ?_⟩
            rintro rfl
            exact upRight member
        · tauto
      · rintro other (away | rfl)
        · refine links other ?_
          rintro rfl
          exact away (by simp)
        · exact links other (Ne.symm differs)

theorem Linked.setEntries (linked : Linked info k live free active) (owned : ∃ slot, live slot ∧ k.semUndo slot = some up)
    {entries : List Undo} (same : entries = [] ↔ (k.semu up).unEnt = []) :
    Linked info (k.setUndo up fun un => { un with unEnt := entries }) live free active := by
  have links (other : Nat) : (k.setUndo up fun un => { un with unEnt := entries }).next other = k.next other := by
    rw [setUndo_next]
    split
    · next here => rw [here]
    · rfl
  refine ⟨linked.owners, linked.freeChain.congr fun other _ => links other,
    linked.activeChain.congr fun other _ => links other, fun other => ?_, fun other member => ?_⟩
  · rw [linked.member, setUndo_entries]
    refine and_congr_right fun _ => ?_
    split
    · next here => rw [here, ne_eq, ne_eq, same]
    · rfl
  · rw [setUndo_entries]
    split
    · next here =>
      obtain ⟨slot, alive, points⟩ := owned
      exact absurd (here ▸ member) (linked.owners.apart slot up alive points)
    · exact linked.empty other member

/-- When a change makes the entries empty, and when it does not. -/
def Change.Shape (before : List Undo) : Change → Prop
  | .failed _ entries => entries = [] ↔ before = []
  | .inserted entries => entries ≠ []
  | .updated entries => entries ≠ [] ∧ before ≠ []
  | .deleted _ => before ≠ []

theorem change_shape (info : Seminfo) (val id : Int) (num : Nat) (entries : List Undo) :
    (change info val id num entries).Shape entries := by
  rcases change_cases entries id num with
    ⟨passed, entry, rest, rfl, rfl, rfl, stops⟩ | ⟨passed, rest, rfl, stops, absent⟩
  · rw [change_found stops]
    unfold changeEntry
    split
    · simp [Change.Shape]
    · split
      · simp [Change.Shape]
      · simp [Change.Shape]
  · rw [change_absent stops absent]
    split
    · simp [Change.Shape]
    · simp [Change.Shape]

section
variable (linked : Linked info k live free active)
include linked

theorem Linked.chain (alive : live slot)
    (owned : k.semUndo slot = some up) (none : (k.semu up).unEnt = []) {entries : List Undo} (some_ : entries ≠ []) :
    Linked info ((k.setUndo up fun un => { un with unEnt := entries }).chain up) live free (up :: active) := by
  have off : up ∉ active := fun member => ((linked.member up).mp member).2 none
  have notFree := linked.owners.apart slot up alive owned
  have links (other : Nat) (differs : other ≠ up) :
      ((k.setUndo up fun un => { un with unEnt := entries }).chain up).next other = k.next other := by
    simp [Tables.chain, Tables.next, differs]
  have entries' (other : Nat) : (((k.setUndo up fun un => { un with unEnt := entries }).chain up).semu other).unEnt =
      if other = up then entries else (k.semu other).unEnt := by
    rw [(chain_same _ up).unEnt, setUndo_entries]
  refine ⟨linked.owners, ?_, ?_, fun other => ?_, fun other member => ?_⟩
  · refine linked.freeChain.congr fun other member => links other ?_
    rintro rfl
    exact notFree member
  · apply Chain.cons
    have link : ((k.setUndo up fun un => { un with unEnt := entries }).chain up).next up = k.semunp := by
      simp [Tables.chain, Tables.next]
    rw [link]
    refine linked.activeChain.congr fun other member => links other ?_
    rintro rfl
    exact off member
  · rw [mem_cons, linked.member, entries']
    by_cases here : other = up
    · subst here
      simpa [some_] using ⟨slot, alive, owned⟩
    · simp only [here, false_or, if_false]
      rfl
  · rw [entries', if_neg]
    · exact linked.empty other member
    · rintro rfl
      exact notFree member

/-- The last entry takes it off. What its own link holds then does not matter. -/
theorem Linked.unchain (alive : live slot)
    (owned : k.semUndo slot = some up) (some_ : (k.semu up).unEnt ≠ [])
    (result : (k.setUndo up fun un => { un with unEnt := [] }).unchain info up = some k') (link : Option Nat) :
    ∃ active', Linked info (k'.setUndo up fun un => { un with unNp := link }) live free active' := by
  have notFree := linked.owners.apart slot up alive owned
  have present : up ∈ active := (linked.member up).mpr ⟨⟨slot, alive, owned⟩, some_⟩
  have stored (other : Nat) : (k.setUndo up fun un => { un with unEnt := [] }).next other = k.next other := by
    rw [setUndo_next]
    split
    · next here => rw [here]
    · rfl
  have chain : Chain (k.setUndo up fun un => { un with unEnt := [] }).next k.semunp active :=
    linked.activeChain.congr fun other _ => stored other
  obtain ⟨active', chain', members, links⟩ := unchain_chain chain present result
  have same := (unchain_same result).trans (setUndo_link k' up link)
  have entries (other : Nat) : ((k'.setUndo up fun un => { un with unNp := link }).semu other).unEnt =
      if other = up then [] else (k.semu other).unEnt := by
    rw [same.unEnt, setUndo_entries]
  have links' (other : Nat) (differs : other ≠ up) :
      (k'.setUndo up fun un => { un with unNp := link }).next other = k'.next other := by
    rw [setUndo_next, if_neg differs]
  refine ⟨active', ?_, ?_, ?_, fun other => ?_, fun other member => ?_⟩
  · rw [same.semUndo]
    exact linked.owners
  · rw [same.semfup]
    refine linked.freeChain.congr fun other member => ?_
    have differs : other ≠ up := by
      rintro rfl
      exact notFree member
    rw [links' other differs, links other (.inl (linked.disjoint member)), stored]
  · refine chain'.congr fun other member => links' other ?_
    exact ((members other).mp member).2
  · rw [members, linked.member, entries, same.semUndo]
    by_cases here : other = up
    · simp [here]
    · simp only [here, not_false_eq_true, and_true, if_false, ne_eq]
      rfl
  · rw [entries]
    split
    · rfl
    · exact linked.empty other member

theorem Linked.record (alive : live slot)
    (owned : k.semUndo slot = some up) {change : Change} (shape : change.Shape (k.semu up).unEnt)
    (result : k.record info up change = some k') : ∃ active', Linked info k' live free active' := by
  unfold Tables.record at result
  cases change with
  | failed error entries =>
    cases result
    exact ⟨active, linked.setEntries ⟨slot, alive, owned⟩ shape⟩
  | inserted entries =>
    simp only at result
    split at result
    · next none =>
      cases result
      exact ⟨_, linked.chain alive owned none shape⟩
    · next some_ =>
      cases result
      have grown : entries ≠ [] := shape
      exact ⟨active, linked.setEntries ⟨slot, alive, owned⟩ (by simp [Change.entries, grown, some_])⟩
  | updated entries =>
    cases result
    exact ⟨active, linked.setEntries ⟨slot, alive, owned⟩ (by simp [Change.entries, shape.1, shape.2])⟩
  | deleted entries =>
    simp only at result
    split at result
    · next gone =>
      subst gone
      obtain ⟨k₂, unchained, result⟩ := Option.bind_eq_some_iff.mp result
      cases result
      exact linked.unchain alive owned shape unchained none
    · next left =>
      cases result
      have filled : (k.semu up).unEnt ≠ [] := shape
      exact ⟨active, linked.setEntries ⟨slot, alive, owned⟩ (by simp [Change.entries, left, filled])⟩

theorem Linked.semaoe {val : Int} {num : Nat} {error : Option Errno}
    (alive : live slot) (result : semaoe info slot val id num k = some (k', error)) :
    ∃ free' active', Linked info k' live free' active' := by
  cases semaoe_aoe result with
  | zero => exact ⟨free, active, linked⟩
  | range => exact ⟨free, active, linked⟩
  | nospace => exact ⟨free, active, linked⟩
  | record up k₁ k' accepted taken recorded =>
    obtain ⟨free', linked, owned⟩ := linked.acquire alive taken
    exact ⟨free', linked.record alive owned (change_shape _ _ _ _ _) recorded⟩

end

/-! ## `semunrm` -/

/-- What the loop of `semunrm` has done when it ends, with the structures of `left`
behind it and those of `right` still to come. -/
structure Purged (id : Int) (low high : Nat) (left right : List Nat) (k k' : Tables) : Prop where
  sem : k'.sem = k.sem
  semUndo : k'.semUndo = k.semUndo
  semfup : k'.semfup = k.semfup
  chain : Chain k'.next k'.semunp (left ++ right.filter fun up => purge id low high (k.semu up).unEnt ≠ [])
  entries : ∀ up, (k'.semu up).unEnt =
    if up ∈ right then purge id low high (k.semu up).unEnt else (k.semu up).unEnt
  links : ∀ up, up ∉ left ++ right → k'.next up = k.next up

theorem Purged.step {id : Int} {low high a : Nat} {left left' rest : List Nat}
    (purged : Purged id low high left' rest k₁ k') (fresh : a ∉ rest)
    (shape : left' = left ++ if purge id low high (k.semu a).unEnt ≠ [] then [a] else [])
    (sem : k₁.sem = k.sem) (semUndo : k₁.semUndo = k.semUndo) (semfup : k₁.semfup = k.semfup)
    (entries : ∀ up, (k₁.semu up).unEnt =
      if up = a then purge id low high (k.semu a).unEnt else (k.semu up).unEnt)
    (links : ∀ up, up ∉ left ++ a :: rest → k₁.next up = k.next up) :
    Purged id low high left (a :: rest) k k' where
  sem := purged.sem.trans sem
  semUndo := purged.semUndo.trans semUndo
  semfup := purged.semfup.trans semfup
  chain := by
    have same : rest.filter (fun up => purge id low high (k₁.semu up).unEnt ≠ []) =
        rest.filter fun up => purge id low high (k.semu up).unEnt ≠ [] := by
      apply List.filter_congr
      intro up member
      rw [entries, if_neg]
      rintro rfl
      exact fresh member
    have chain := purged.chain
    rw [same, shape, List.append_assoc] at chain
    rw [List.filter_cons]
    split at chain
    · next kept => simpa [kept] using chain
    · next gone => simpa [gone] using chain
  entries up := by
    rw [purged.entries, entries]
    by_cases here : up = a
    · subst here
      simp [fresh]
    · simp [here]
  links up away := by
    rw [purged.links, links up away]
    intro member
    apply away
    rw [shape] at member
    simp only [mem_append, mem_cons] at member ⊢
    rcases member with (member | member) | member
    · exact .inl member
    · split at member
      · exact Or.inr (Or.inl (by simpa using member))
      · cases member
    · exact .inr (.inr member)

theorem semunrmFrom_purged {fuel : Nat} {left right : List Nat} {pp p : Option Nat}
    (chain : Chain k.next k.semunp (left ++ right)) (here : p = right.head?) (last : pp = left.getLast?)
    (result : semunrmFrom id low high fuel pp p k = some k') : Purged id low high left right k k' := by
  induction right generalizing left k pp p fuel with
  | nil =>
    subst here
    cases fuel with
    | zero => cases result
    | succ fuel =>
      cases result
      exact ⟨rfl, rfl, rfl, by simpa using chain, fun up => by simp, fun up _ => rfl⟩
  | cons a rest ih =>
    subst here
    cases fuel with
    | zero => cases result
    | succ fuel =>
      have after : k.next a = rest.head? := chain.next_eq
      have nodup := chain.nodup
      simp only [List.nodup_append, nodup_cons, mem_cons] at nodup
      obtain ⟨leftNodup, ⟨fresh, _⟩, across⟩ := nodup
      have notLeft : a ∉ left := fun member => across a member a (.inl rfl) rfl
      have stored (up : Nat) : (k.setUndo a fun un =>
          { un with unEnt := purge id low high (k.semu a).unEnt }).next up = k.next up := by
        rw [setUndo_next]
        split
        · next same => rw [same]
        · rfl
      simp only [List.head?_cons, semunrmFrom] at result
      split at result
      · next gone =>
        -- The structure leaves the chain: its predecessor, or the head, skips it.
        cases left using List.reverseRecOn with
        | nil =>
          subst last
          have links (up : Nat) (differs : up ≠ a) : ({ k.setUndo a fun un =>
              { un with unEnt := purge id low high (k.semu a).unEnt } with semunp := k.next a }.setUndo a
              fun un => { un with unNp := none }).next up = k.next up := by
            rw [setUndo_next, if_neg differs]
            exact stored up
          have tail : Chain k.next (k.next a) rest := chain.suffix
          have purged := ih (tail.congr fun up member => links up fun same =>
            fresh (same ▸ member)) after rfl result
          refine purged.step fresh (by simp [gone]) rfl rfl rfl (fun up => ?_) fun up away => links up ?_
          · rw [(setUndo_link _ a none).unEnt]
            exact setUndo_entries k a up fun un => { un with unEnt := purge id low high (k.semu a).unEnt }
          · rintro rfl
            exact away (by simp)
        | append_singleton init q _ =>
          simp only [List.getLast?_append, List.getLast?_singleton, Option.some_or] at last
          subst last
          have differs : q ≠ a := fun same => across q (by simp) a (.inl rfl) same
          have links (up : Nat) (notA : up ≠ a) (notQ : up ≠ q) : (((k.setUndo a fun un =>
              { un with unEnt := purge id low high (k.semu a).unEnt }).setUndo q fun un =>
              { un with unNp := k.next a }).setUndo a fun un => { un with unNp := none }).next up = k.next up := by
            rw [setUndo_next, if_neg notA, setUndo_next, if_neg notQ]
            exact stored up
          have skip : Chain (((k.setUndo a fun un =>
              { un with unEnt := purge id low high (k.semu a).unEnt }).setUndo q fun un =>
              { un with unNp := k.next a }).setUndo a fun un => { un with unNp := none }).next k.semunp
              (init ++ q :: rest) := by
            have split : init ++ [q] ++ a :: rest = init ++ q :: a :: rest := by simp
            rw [split] at chain
            refine chain.remove ?_ fun up member => links up ?_ ?_
            · rw [setUndo_next, if_neg differs, setUndo_next, if_pos rfl]
            · rintro rfl
              rcases mem_append.mp member with member | member
              · exact notLeft (by simp [member])
              · exact fresh member
            · rintro rfl
              rcases mem_append.mp member with member | member
              · rw [List.nodup_append] at leftNodup
                exact leftNodup.2.2 up member up (by simp) rfl
              · exact across up (by simp) up (.inr member) rfl
          have purged := (@ih _ _ (init ++ [q])) (by rw [List.append_assoc]; exact skip) after (by simp) result
          refine purged.step fresh (by simp [gone]) rfl rfl rfl (fun up => ?_) fun up away => links up ?_ ?_
          · rw [(setUndo_link _ a none).unEnt, (setUndo_link _ q (k.next a)).unEnt]
            exact setUndo_entries k a up _
          · rintro rfl
            exact away (by simp)
          · rintro rfl
            exact away (by simp)
      · next kept =>
        have moved : Chain (k.setUndo a fun un =>
            { un with unEnt := purge id low high (k.semu a).unEnt }).next k.semunp (left ++ [a] ++ rest) := by
          rw [List.append_assoc]
          exact chain.congr fun up _ => stored up
        have purged := ih moved after (by simp) result
        exact purged.step fresh (by simp [kept]) rfl rfl rfl (fun up => setUndo_entries k a up _)
          fun up _ => stored up

/-- `semunrm` purges every structure with entries; the emptied ones leave the chain. -/
theorem semunrm_purged (chain : Chain k.next k.semunp active)
    (result : semunrm info id low high k = some k') : Purged id low high [] active k k' :=
  semunrmFrom_purged chain chain.head_eq rfl result

theorem Linked.semunrm (linked : Linked info k live free active)
    (result : semunrm info id low high k = some k') : ∃ active', Linked info k' live free active' := by
  have purged := semunrm_purged linked.activeChain result
  refine ⟨_, ?_, ?_, purged.chain, fun up => ?_, fun up member => ?_⟩
  · rw [purged.semUndo]
    exact linked.owners
  · rw [purged.semfup]
    refine linked.freeChain.congr fun up member => purged.links up ?_
    simpa using linked.disjoint member
  · rw [purged.entries, purged.semUndo]
    simp only [List.nil_append, List.mem_filter, decide_eq_true_eq]
    by_cases present : up ∈ active
    · rw [if_pos present]
      refine and_congr_left fun _ => ⟨fun _ => ((linked.member up).mp present).1, fun _ => present⟩
    · rw [if_neg present, ← linked.member]
      simp [present]
  · rw [purged.entries, if_neg (linked.disjoint member)]
    exact linked.empty up member

/-! ## The end of a process -/

theorem Linked.same (linked : Linked info k live free active) (same : SameUndo k k') :
    Linked info k' live free active := by
  have next : k'.next = k.next := by
    funext up
    rw [Tables.next, Tables.next, same.semu]
  constructor
  · rw [same.semUndo]
    exact linked.owners
  · rw [next, same.semfup]
    exact linked.freeChain
  · rw [next, same.semunp]
    exact linked.activeChain
  · rw [same.semUndo, same.semu]
    exact linked.member
  · rw [same.semu]
    exact linked.empty

theorem Linked.congr {live' : Slot → Prop} (linked : Linked info k live free active)
    (same : ∀ slot up, k.semUndo slot = some up → (live' slot ↔ live slot)) : Linked info k live' free active := by
  have owned (up : Nat) : (∃ slot, live' slot ∧ k.semUndo slot = some up) ↔ ∃ slot, live slot ∧ k.semUndo slot = some up := by
    refine exists_congr fun slot => and_congr_left fun points => same slot up points
  have owners := linked.owners
  refine ⟨⟨owners.inside, ?_, ?_, ?_, ?_⟩, linked.freeChain, linked.activeChain, fun up => ?_, linked.empty⟩
  · exact fun slot up alive points => owners.bound slot up ((same slot up points).mp alive) points
  · exact fun slot up alive points => owners.apart slot up ((same slot up points).mp alive) points
  · intro slot slot' up alive alive' points points'
    exact owners.single slot slot' up ((same slot up points).mp alive) ((same slot' up points').mp alive') points points'
  · intro up inside
    rw [owned]
    exact owners.cover up inside
  · rw [owned]
    exact linked.member up

theorem Linked.relink (linked : Linked info k live free active) (alive : live slot) (owned : k.semUndo slot = some up)
    (none : (k.semu up).unEnt = []) (link : Option Nat) :
    Linked info (k.setUndo up fun un => { un with unNp := link }) live free active := by
  have same := setUndo_link k up link
  have links (other : Nat) (differs : other ≠ up) :
      (k.setUndo up fun un => { un with unNp := link }).next other = k.next other := by
    rw [setUndo_next, if_neg differs]
  refine ⟨linked.owners, ?_, ?_, fun other => ?_, fun other member => ?_⟩
  · refine linked.freeChain.congr fun other member => links other ?_
    rintro rfl
    exact linked.owners.apart slot other alive owned member
  · refine linked.activeChain.congr fun other member => links other ?_
    rintro rfl
    exact ((linked.member other).mp member).2 none
  · rw [same.unEnt]
    exact linked.member other
  · rw [same.unEnt]
    exact linked.empty other member

theorem Linked.release (linked : Linked info k live free active) (alive : live slot)
    (owned : k.semUndo slot = some up) (none : (k.semu up).unEnt = []) (link : k.next up = k.semfup) :
    Linked info { k with semfup := some up } (fun other => live other ∧ other ≠ slot) (up :: free) active := by
  have owners := linked.owners
  refine ⟨⟨?_, ?_, ?_, ?_, ?_⟩, ?_, linked.activeChain, fun other => ?_, ?_⟩
  · intro other member
    rcases mem_cons.mp member with rfl | member
    · exact owners.bound slot other alive owned
    · exact owners.inside other member
  · exact fun other up' alive' points => owners.bound other up' alive'.1 points
  · intro other up' alive' points member
    rcases mem_cons.mp member with rfl | member
    · exact alive'.2 (owners.single other slot up' alive'.1 alive points owned)
    · exact owners.apart other up' alive'.1 points member
  · exact fun a b up' left right points points' => owners.single a b up' left.1 right.1 points points'
  · intro up' inside
    rcases owners.cover up' inside with member | ⟨other, alive', points⟩
    · exact .inl (by simp [member])
    · by_cases here : other = slot
      · subst here
        exact .inl (by simp [some.inj (points.symm.trans owned)])
      · exact .inr ⟨other, ⟨alive', here⟩, points⟩
  · apply Chain.cons
    rw [show Tables.next { k with semfup := some up } up = k.semfup from link]
    exact linked.freeChain
  · rw [linked.member]
    refine and_congr_left fun some_ => exists_congr fun other' => ?_
    constructor
    · rintro ⟨alive', points⟩
      refine ⟨⟨alive', ?_⟩, points⟩
      rintro rfl
      cases owned.symm.trans points
      exact some_ none
    · rintro ⟨⟨alive', _⟩, points⟩
      exact ⟨alive', points⟩
  · intro other member
    rcases mem_cons.mp member with rfl | member
    · exact none
    · exact linked.empty other member

/-- The two chains are in order for some lists. -/
def Placed (info : Seminfo) (k : Tables) (live : Slot → Prop) : Prop :=
  ∃ free active, Linked info k live free active

theorem Placed.kept {semid : Int} (alive : live slot) : Kept info slot semid fun k => Placed info k live where
  same := by
    rintro k k' same ⟨free, active, linked⟩
    exact ⟨free, active, linked.same same⟩
  semaoe := by
    rintro val num k k' error made ⟨free, active, linked⟩
    exact linked.semaoe alive made

theorem Placed.semunrm (placed : Placed info k live)
    (result : semunrm info id low high k = some k') : Placed info k' live := by
  obtain ⟨free, active, linked⟩ := placed
  exact ⟨free, linked.semunrm result⟩

theorem Placed.same (placed : Placed info k live) (same : SameUndo k k') : Placed info k' live := by
  obtain ⟨free, active, linked⟩ := placed
  exact ⟨free, active, linked.same same⟩

theorem Placed.semexit {sema : Nat → SemidDs} {w : Work} (placed : Placed info k live) (alive : live slot)
    (result : semexit info sema slot k = some w) : Placed info w.k fun other => live other ∧ other ≠ slot := by
  obtain ⟨free, active, linked⟩ := placed
  unfold Semaphore.semexit at result
  cases owned : k.semUndo slot with
  | none =>
    rw [owned] at result
    cases result
    refine ⟨free, active, linked.congr fun other up points => ?_⟩
    have differs : other ≠ slot := by
      rintro rfl
      rw [owned] at points
      cases points
    simp [differs]
  | some up =>
    rw [owned] at result
    obtain ⟨k₁, cleared, result⟩ := Option.bind_eq_some_iff.mp result
    cases result
    have loop := foldl_undo (w := ⟨k, [], []⟩) (fun w entry => (@semexitEntry_undo info w sema entry)) (k.semu up).unEnt.reverse
    have linked := linked.same loop
    have owned' := congrFun loop.semUndo slot
    rw [owned] at owned'
    -- The pointer in `sem_undo[]` is stored again as it was.
    have stored (k' : Tables) (points : k'.semUndo slot = some up) (link : Option Nat) :
        { { k'.setUndo up fun un => { un with unNp := link } with semfup := some up } with
          semUndo := Function.update k'.semUndo slot (some up) } =
        { k'.setUndo up fun un => { un with unNp := link } with semfup := some up } := by
      rw [← points, Function.update_eq_self]
      rfl
    have after (points : k₁.semUndo slot = some up) (active' : List Nat) (none : (k₁.semu up).unEnt = [])
        (linked : Linked info (k₁.setUndo up fun un => { un with unNp := k₁.semfup }) live free active') :
        Placed info { { k₁.setUndo up fun un => { un with unNp := k₁.semfup } with semfup := some up } with
          semUndo := Function.update k₁.semUndo slot (some up) } fun other => live other ∧ other ≠ slot := by
      rw [stored k₁ points]
      refine ⟨up :: free, active', linked.release alive points ?_ ?_⟩
      · rw [(setUndo_link k₁ up k₁.semfup).unEnt, none]
      · rw [setUndo_next, if_pos rfl]
        rfl
    unfold discard at cleared
    split at cleared
    · next none =>
      cases cleared
      exact after owned' active none (linked.relink alive owned' none _)
    · next some_ =>
      have same := unchain_same cleared
      obtain ⟨active', linked⟩ := linked.unchain alive owned' some_ cleared k₁.semfup
      refine after ?_ active' ?_ linked
      · rw [same.semUndo]
        exact owned'
      · rw [same.unEnt, setUndo_entries, if_pos rfl]

end

/-! ## Every run -/

section
variable {info : Seminfo} {s t : System} {event : Event}

/-- A new process does not get a slot that `semexit` left a pointer in. -/
def Fresh (s : System) (event : Event) : Prop :=
  ∀ slot, event = .start slot → s.k.semUndo slot = none

theorem Step.placed (step : Step info s event t) (fresh : Fresh s event) (placed : Placed info s.k s.live) :
    Placed info t.k t.live := by
  cases step with
  | @start slot _ free =>
    obtain ⟨free, active, linked⟩ := placed
    refine ⟨free, active, linked.congr fun other up points => ?_⟩
    have differs : other ≠ slot := by
      rintro rfl
      rw [fresh other rfl] at points
      cases points
    simp [differs]
  | @exit slot w running ended =>
    have alive : s.live slot := by simp [running]
    obtain ⟨free, active, linked⟩ := placed.semexit alive ended
    refine ⟨free, active, linked.congr fun other up _ => ?_⟩
    by_cases here : other = slot
    · subst here
      simp
    · simp only [System.live, System.put, System.store, Function.update_of_ne here, ne_eq, here, not_false_eq_true,
        and_true]
      exact wake_live
  | semget cr key flag running done =>
    obtain ⟨tables, procs⟩ := semget_frame done
    have live : t.live = s.live := by
      funext slot
      rw [System.live, procs, System.live]
    rw [tables, live]
    exact placed
  | semctl cr pid running done =>
    cases semctl_control done with
    | quiet tables procs =>
      have live : t.live = s.live := by
        funext slot
        rw [System.live, procs, System.live]
      rw [tables, live]
      exact placed
    | rmid k woken _ _ purged tables _ procs =>
      rw [wake_all_live procs, tables]
      exact (placed.semunrm purged).same (clear_undo (w := ⟨k, [], []⟩))
    | setval semnum arg k woken _ _ _ _ tables _ purged procs =>
      rw [wake_all_live procs]
      have stored : SameUndo s.k k := by
        rw [tables]
        exact setval_undo (w := ⟨s.k, [], []⟩)
      exact (placed.same stored).semunrm purged
    | setall semvals k woken _ _ purged tables _ procs =>
      rw [wake_all_live procs, tables]
      exact (placed.semunrm purged).same (setall_undo (w := ⟨k, [], []⟩))
  | refuse => exact placed
  | @semop slot _ ops _ _ _ cr pid running entered passed =>
    have alive : s.live slot := by simp [running]
    rw [store_put_live alive (outcome_live _ _)]
    exact (Placed.kept alive).semopPass placed passed
  | @signal slot wait nsops asleep =>
    have alive : s.live slot := by
      rcases asleep with asleep | woken
      · simp [asleep]
      · simp [woken]
    rw [put_live alive (by simp)]
    exact placed
  | @gone slot wait nsops _ _ woken =>
    have alive : s.live slot := by simp [woken]
    rw [put_live alive (by simp)]
    exact placed
  | @again slot wait ops _ _ pid woken found passed =>
    have alive : s.live slot := by simp [woken]
    rw [store_put_live alive (outcome_live _ _)]
    exact (Placed.kept alive).semopPass placed passed
  | @eintr slot wait nsops interrupted =>
    have alive : s.live slot := by simp [interrupted]
    rw [store_put_live alive (by simp)]
    exact placed.same (uncount_undo (w := ⟨s.k, [], []⟩))

theorem seminit_chain (n i : Nat) (last : i + n + 1 = info.semmnu) :
    Chain (seminit info).next (some i) (List.range' i (n + 1)) := by
  induction n generalizing i with
  | zero =>
    apply Chain.cons
    have link : (seminit info).next i = none := by
      simp only [Tables.next, seminit]
      rw [if_neg (by omega)]
    rw [link]
    exact .nil
  | succ n ih =>
    apply Chain.cons
    have link : (seminit info).next i = some (i + 1) := by
      simp only [Tables.next, seminit]
      rw [if_pos (by omega)]
    rw [link]
    exact ih (i + 1) (by omega)

theorem System.Boot.placed (boot : s.Boot info) : Placed info s.k s.live := by
  obtain ⟨tables, _, _, free⟩ := boot
  have dead (slot : Slot) : ¬ s.live slot := by simp [free]
  have positive := info.semmnu_pos
  have chain := (@seminit_chain info) (info.semmnu - 1) 0 (by omega)
  rw [Nat.sub_add_cancel positive] at chain
  rw [tables]
  refine ⟨List.range' 0 info.semmnu, [], ⟨?_, ?_, ?_, ?_, ?_⟩, chain, .nil, ?_, fun _ _ => rfl⟩
  · intro up member
    simpa using member
  · exact fun slot up alive => absurd alive (dead slot)
  · exact fun slot up alive => absurd alive (dead slot)
  · exact fun slot slot' up alive => absurd alive (dead slot)
  · intro up inside
    exact Or.inl (by simpa using inside)
  · intro up
    simp [seminit]

/-- Every undo structure is on the free chain, once, or belongs to exactly one
process, and the undo chain has the owned structures with entries, each once. -/
structure Settled (info : Seminfo) (s : System) (free active : List Nat) : Prop where
  freeChain : Chain s.k.next s.k.semfup free
  freeOnce : free.Nodup
  inside : ∀ up ∈ free, up < info.semmnu
  activeChain : Chain s.k.next s.k.semunp active
  activeOnce : active.Nodup
  either : ∀ up < info.semmnu, (up ∈ free ∧ ∀ slot, s.live slot → s.k.semUndo slot ≠ some up) ∨
    (up ∉ free ∧ ∃! slot, s.live slot ∧ s.k.semUndo slot = some up)
  owned : ∀ slot up, s.live slot → s.k.semUndo slot = some up → up < info.semmnu
  active : ∀ up, up ∈ active ↔ (∃ slot, s.live slot ∧ s.k.semUndo slot = some up) ∧ (s.k.semu up).unEnt ≠ []

/-- In a run in which no process gets a slot with a stale pointer, no undo
structure is shared or lost. -/
theorem undo_structures_settled (reached : Reaches (System.Boot info) (Step info) Fresh s) :
    ∃ free active, Settled info s free active := by
  have placed : Placed info s.k s.live := by
    apply reached.invariant
    · exact fun s boot => boot.placed
    · exact fun s event t placed step fresh => step.placed fresh placed
  obtain ⟨free, active, linked⟩ := placed
  refine ⟨free, active, linked.freeChain, linked.freeChain.nodup, linked.owners.inside, linked.activeChain,
    linked.activeChain.nodup, fun up inside => ?_, linked.owners.bound, linked.member⟩
  rcases linked.owners.cover up inside with member | ⟨slot, alive, points⟩
  · exact .inl ⟨member, fun slot alive points => linked.owners.apart slot up alive points member⟩
  · refine .inr ⟨linked.owners.apart slot up alive points, slot, ⟨alive, points⟩, ?_⟩
    exact fun other owned => linked.owners.single other slot up owned.1 alive owned.2 points

end

/-- One to the semaphore, to be undone. -/
def oneUp : List Sembuf := [⟨0, 1, true, false, zeroth_fits, one_fits⟩]

theorem oneUp_step : ∃ s, Step .shipped oneSet (.semop 0 0 false oneUp [0, 0] .success) s ∧
    s.sema = oneSet.sema ∧ s.proc 0 = .running ∧
    (semexit .shipped s.sema 0 s.k).map (fun w => (w.k.semfup, w.k.semUndo 0)) = some (some 0, some 0) ∧
    s.k.semUndo 0 = some 0 ∧ s.k.semu 0 = ⟨none, [⟨-1, 0, 0⟩]⟩ := by
  have pass : (semopPass .shipped 0 5 0 0 oneUp oneSet.k).map (fun r => (r.1.touched, r.2, r.1.k.semUndo 0,
      r.1.k.semu 0, (semexit .shipped oneSet.sema 0 r.1.k).map fun w => (w.k.semfup, w.k.semUndo 0))) =
      some ([0, 0], .success, some 0, ⟨none, [⟨-1, 0, 0⟩]⟩, some (some 0, some 0)) := rfl
  obtain ⟨⟨w, outcome⟩, pass, same⟩ := Option.map_eq_some_iff.mp pass
  simp only [Prod.mk.injEq] at same
  obtain ⟨touched, rfl, owned, entries, ended⟩ := same
  rw [← touched]
  refine ⟨_, .semop root 5 rfl rfl pass, rfl, ?_, ended, owned, entries⟩
  simp [Outcome.proc]

theorem undo_structures_settled_used : ∃ s free active, Settled .shipped s free active ∧ 0 ∉ free ∧ 0 ∈ active ∧
    s.live 0 ∧ s.k.semUndo 0 = some 0 := by
  have runs := (@oneSet_runs 16384 (by decide) Fresh) (by
    simp [prologue, Fresh, started, booted, seminit])
  obtain ⟨s, step, _, running, _, owned, entries⟩ := oneUp_step
  have reached : Reaches (System.Boot .shipped) (Step .shipped) Fresh s :=
    .next runs.reaches step (by simp [Fresh])
  obtain ⟨free, active, settled⟩ := undo_structures_settled reached
  have alive : s.live 0 := by simp [running]
  refine ⟨s, free, active, settled, ?_, ?_, alive, owned⟩
  · rcases settled.either 0 (by decide) with ⟨_, other⟩ | ⟨away, _⟩
    · exact absurd owned (other 0 alive)
    · exact away
  · rw [settled.active, entries]
    exact ⟨⟨0, alive, owned⟩, by simp⟩

/-- The next process in the slot of one that ended finds the structure that
`semexit` has put on the free chain. -/
theorem undo_structures_settled_shared : ∃ s, Reaches (System.Boot .shipped) (Step .shipped) (fun _ _ => True) s ∧
    ¬ ∃ free active, Settled .shipped s free active := by
  have runs := (@oneSet_runs 16384 (by decide) (fun _ _ => True)) (by simp)
  obtain ⟨s, step, _, running, ended, _⟩ := oneUp_step
  obtain ⟨w, ended, same⟩ := Option.map_eq_some_iff.mp ended
  obtain ⟨first, stale⟩ := Prod.mk.inj same
  let t := ((s.store w.k w.woken).put 0 .free).put 0 .running
  have reached : Reaches (System.Boot .shipped) (Step .shipped) (fun _ _ => True) t := by
    refine .next (.next (.next runs.reaches step trivial) (.exit running ended) trivial) (.start ?_ ?_) trivial
    · decide
    · simp
  refine ⟨t, reached, ?_⟩
  rintro ⟨free, active, settled⟩
  have alive : t.live 0 := by simp [t]
  have owned : t.k.semUndo 0 = some 0 := stale
  have chain := settled.freeChain
  rw [show t.k.semfup = some 0 from first] at chain
  obtain ⟨rest, rfl, _⟩ := Chain.cons_iff.mp chain
  rcases settled.either 0 (by decide) with ⟨_, other⟩ | ⟨away, _⟩
  · exact other 0 alive owned
  · exact away (by simp)

end Svr4.Semaphore
