import Svr4.Kernel.Dnlc.Lists

/-! The entries of the name cache and the lists they are on.

An entry that no call has in its hands is on the LRU list, and on the hash chain of its key if
it has one.
-/

namespace Svr4.Dnlc

open Function (update_self update_of_ne update)
open List (map_append mem_map nodup_middle mem_cons mem_append map_cons append_of_mem not_mem_nil)

/-- The entry has a key, which hashes to `h`. -/
def Placed (e : Ncache) (h : Nat) : Prop := ∃ dp vp, e.dp = some dp ∧ e.vp = some vp ∧ ncHash e.name dp = h

structure Listed (ncsize : Nat) (held : Nat → Prop) (c : Cache) (list : List Nat) (chain : Nat → List Nat) : Prop where
  lru : Lru c list
  chains : Chains c chain
  members : ∀ i, i ∈ list ↔ i < ncsize ∧ ¬ held i
  known : ∀ h, ∀ i ∈ chain h, i < ncsize ∧ ¬ held i ∧ Placed (c.ncache i) h
  keyed : ∀ i < ncsize, ¬ held i → (c.ncache i).dp ≠ none → ∃ h, i ∈ chain h
  blank : ∀ i < ncsize, ¬ held i → (c.ncache i).dp = none → (c.ncache i).vp = none ∧ Dummy c i

section
variable {ncsize ncp h : Nat} {held held' : Nat → Prop} {c c' : Cache} {list left right : List Nat} {chain : Nat → List Nat}
  {name : List Nat} {value : Ncache → Ncache} {dp : Nat} {cred : Option Nat}

theorem set_self : (set ncp value c).ncache ncp = value (c.ncache ncp) := update_self ..

theorem set_other {i : Nat} (differ : i ≠ ncp) : (set ncp value c).ncache i = c.ncache i :=
  update_of_ne differ ..

theorem Listed.congr (listed : Listed ncsize held c list chain) (ncache : ∀ i, ¬ held i → c'.ncache i = c.ncache i)
    (hashNext : c'.hashNext = c.hashNext) (hashPrev : c'.hashPrev = c.hashPrev) (lruNext : c'.lruNext = c.lruNext)
    (lruPrev : c'.lruPrev = c.lruPrev) : Listed ncsize held c' list chain := by
  obtain ⟨lru, chains, members, known, keyed, blank⟩ := listed
  refine ⟨?_, ?_, members, fun h i member => ?_, fun i less idle => ?_, fun i less idle => ?_⟩
  · rw [Lru, lruNext, lruPrev]
    exact lru
  · rw [Chains, hashNext, hashPrev]
    exact chains
  · rw [ncache i (known h i member).2.1]
    exact known h i member
  · rw [ncache i idle]
    exact keyed i less idle
  · rw [ncache i idle, Dummy, hashNext, hashPrev]
    exact blank i less idle

theorem Listed.blank_off (listed : Listed ncsize held c list chain) (none : (c.ncache ncp).dp = none) : ncp ∉ chain h := by
  intro member
  obtain ⟨_, _, dp, _, some, _⟩ := listed.known h ncp member
  rw [none] at some
  cases some

theorem Listed.held_off (listed : Listed ncsize held c list chain) (busy : held ncp) : ncp ∉ list ∧ ∀ h, ncp ∉ chain h :=
  ⟨fun member => ((listed.members ncp).mp member).2 busy, fun h member => (listed.known h ncp member).2.1 busy⟩

theorem Listed.length_le (listed : Listed ncsize held c list chain) : list.length ≤ ncsize ∧ (chain h).length ≤ ncsize := by
  have bound {l : List Nat} (nodup : l.Nodup) (less : ∀ i ∈ l, i < ncsize) : l.length ≤ ncsize := by
    have sub : l ⊆ List.range ncsize := fun i member => List.mem_range.mpr (less i member)
    simpa using (List.subperm_of_subset nodup sub).length_le
  exact ⟨bound listed.lru.nodup fun i member => ((listed.members i).mp member).1,
    bound listed.chains.nodup fun i member => (listed.known h i member).1⟩

/-! ## What a change of a chain leaves -/

theorem ncRmhash_keeps {i : Nat} (chains : Chains c chain) (split : chain h = left ++ ncp :: right) (off : i ∉ chain h) :
    (ncRmhash ncp c).hashNext (.entry i) = c.hashNext (.entry i) ∧ (ncRmhash ncp c).hashPrev (.entry i) = c.hashPrev (.entry i) := by
  have ring := chains.ring h
  rw [split, map_append, map_cons] at ring
  have away : HashNode.entry i ∉ HashNode.bucket h :: (left.map .entry ++ .entry ncp :: right.map .entry) := by
    rw [split] at off
    simpa using off
  have notPrev : HashNode.entry i ≠ c.hashPrev (.entry ncp) := fun same => away (same ▸ ring.back_mem)
  have notNext : HashNode.entry i ≠ c.hashNext (.entry ncp) := fun same => away (same ▸ ring.forw_mem)
  rw [ncRmhash_next, ncRmhash_prev, update_of_ne notPrev, update_of_ne notNext]
  exact ⟨rfl, rfl⟩

theorem ncInshash_keeps {i : Nat} {hp : HashNode} (notNew : i ≠ ncp) (chains : Chains c chain) (split : chain h = left ++ right)
    (off : i ∉ chain h) (before : hp = (left.map HashNode.entry).getLast?.getD (.bucket h)) (fresh : hp ≠ .entry ncp) :
    (ncInshash ncp hp c).hashNext (.entry i) = c.hashNext (.entry i) ∧
      (ncInshash ncp hp c).hashPrev (.entry i) = c.hashPrev (.entry i) := by
  have ring := chains.ring h
  rw [split, map_append] at ring
  have differ : HashNode.entry i ≠ .entry ncp := by simpa using notNew
  have notPrev : HashNode.entry i ≠ hp := by
    rw [before]
    cases last : (left.map HashNode.entry).getLast? with
    | none => exact nofun
    | some node =>
      obtain ⟨j, member, rfl⟩ := mem_map.mp (List.mem_of_getLast? last)
      rintro ⟨⟩
      exact off (by rw [split]; exact List.mem_append_left _ member)
  have notNext : HashNode.entry i ≠ c.hashNext hp := by
    have behind : c.hashNext hp = (right.map HashNode.entry).head?.getD (.bucket h) := by
      rw [before]
      rcases left.eq_nil_or_concat with rfl | ⟨front, p, rfl⟩
      · exact ring.first_eq
      · have parts : (front.concat p).map HashNode.entry = front.map .entry ++ [.entry p] := by simp
        rw [parts, List.append_assoc] at ring
        rw [parts, List.getLast?_concat]
        exact ring.forw_eq
    rw [behind]
    cases first : (right.map HashNode.entry).head? with
    | none => exact nofun
    | some node =>
      obtain ⟨j, member, rfl⟩ := mem_map.mp (List.mem_of_head? first)
      rintro ⟨⟩
      exact off (by rw [split]; exact List.mem_append_right _ member)
  rw [ncInshash_next, ncInshash_prev fresh, update_of_ne notPrev, update_of_ne differ,
    update_of_ne notNext, update_of_ne differ]
  exact ⟨rfl, rfl⟩

/-! ## Into the hands of a call -/

theorem Listed.take (listed : Listed ncsize held c list chain) (less : ncp < ncsize) (idle : ¬ held ncp) :
    ∃ list' chain', Listed ncsize (fun i => held i ∨ i = ncp) (ncRmhash ncp (ncRmlru ncp c)) list' chain' := by
  obtain ⟨left, right, split⟩ := append_of_mem ((listed.members ncp).mpr ⟨less, idle⟩)
  have lru := listed.lru
  have nodup := lru.nodup
  rw [split] at lru nodup
  have apart : ncp ∉ left ++ right := (nodup_middle.mp nodup).notMem
  have lru' : Lru (ncRmlru ncp c) (left ++ right) := ncRmlru_lru lru
  have members (i : Nat) : i ∈ left ++ right ↔ i < ncsize ∧ ¬ (held i ∨ i = ncp) := by
    have member := listed.members i
    rw [split, List.perm_middle.mem_iff, mem_cons] at member
    constructor
    · intro there
      obtain ⟨less, idle⟩ := member.mp (.inr there)
      exact ⟨less, not_or.mpr ⟨idle, fun same => apart (same ▸ there)⟩⟩
    · rintro ⟨less, busy⟩
      exact (member.mpr ⟨less, fun held => busy (.inl held)⟩).resolve_left fun same => busy (.inr same)
  have chains : Chains (ncRmlru ncp c) chain := listed.chains
  by_cases keyed : (c.ncache ncp).dp = none
  · have dummy : Dummy (ncRmlru ncp c) ncp := (listed.blank ncp less idle keyed).2
    rw [ncRmhash_dummy dummy]
    refine ⟨left ++ right, chain, lru', chains, members, fun h i member => ?_, fun i small busy => ?_, fun i small busy => ?_⟩
    · obtain ⟨small, free, placed⟩ := listed.known h i member
      exact ⟨small, not_or.mpr ⟨free, fun same => listed.blank_off keyed (same ▸ member)⟩, placed⟩
    · exact listed.keyed i small fun held => busy (.inl held)
    · exact listed.blank i small fun held => busy (.inl held)
  · obtain ⟨h, on⟩ := listed.keyed ncp less idle keyed
    obtain ⟨front, back, parts⟩ := append_of_mem on
    have chainNodup : (chain h).Nodup := chains.nodup
    rw [parts] at chainNodup
    have off : ncp ∉ front ++ back := (nodup_middle.mp chainNodup).notMem
    have kept (k i : Nat) : i ∈ update chain h (front ++ back) k ↔ i ∈ chain k ∧ i ≠ ncp := by
      by_cases same : k = h
      · subst same
        rw [update_self, parts, List.perm_middle.mem_iff, mem_cons]
        constructor
        · exact fun there => ⟨.inr there, fun equal => off (equal ▸ there)⟩
        · exact fun ⟨there, differ⟩ => there.resolve_left differ
      · rw [update_of_ne same]
        exact ⟨fun there => ⟨there, fun equal => same (chains.unique (equal ▸ there) on)⟩, And.left⟩
    refine ⟨left ++ right, update chain h (front ++ back), lru', ncRmhash_chains chains parts, members,
      fun k i member => ?_, fun i small busy some => ?_, fun i small busy none => ?_⟩
    · obtain ⟨there, differ⟩ := (kept k i).mp member
      obtain ⟨small, free, placed⟩ := listed.known k i there
      exact ⟨small, not_or.mpr ⟨free, differ⟩, placed⟩
    · obtain ⟨k, there⟩ := listed.keyed i small (fun held => busy (.inl held)) some
      exact ⟨k, (kept k i).mpr ⟨there, fun same => busy (.inr same)⟩⟩
    · obtain ⟨empty, next, prev⟩ := listed.blank i small (fun held => busy (.inl held)) none
      obtain ⟨sameNext, samePrev⟩ := (@ncRmhash_keeps ncp h (ncRmlru ncp c) _ _ _ i) chains parts (listed.blank_off none)
      exact ⟨empty, sameNext.trans next, samePrev.trans prev⟩

/-! ## Out of the hands of a call -/

theorem Listed.fill {vp : Nat} (listed : Listed ncsize held c list chain)
    (less : ncp < ncsize) (busy : held ncp) (still : ∀ i, held' i ↔ held i ∧ i ≠ ncp) :
    Listed ncsize held' (enterFill dp name vp cred ncp c) (list ++ [ncp])
      (update chain (ncHash name dp) (ncp :: chain (ncHash name dp))) := by
  obtain ⟨offList, offChain⟩ := listed.held_off busy
  generalize place : ncHash name dp = h
  generalize counted : cred.elim (vnHold vp (vnHold dp (set ncp (fun _ => ⟨some dp, some vp, name, cred⟩) c)))
    (fun cr => crhold cr (vnHold vp (vnHold dp (set ncp (fun _ => ⟨some dp, some vp, name, cred⟩) c)))) = c1
  have fields : c1.ncache = (set ncp (fun _ => ⟨some dp, some vp, name, cred⟩) c).ncache ∧ c1.hashNext = c.hashNext ∧
      c1.hashPrev = c.hashPrev ∧ c1.lruNext = c.lruNext ∧ c1.lruPrev = c.lruPrev := by
    rw [← counted]
    cases cred <;> exact ⟨rfl, rfl, rfl, rfl, rfl⟩
  obtain ⟨ncache, hashNext, hashPrev, lruNext, lruPrev⟩ := fields
  have listed1 : Listed ncsize held c1 list chain := by
    refine listed.congr (fun i idle => ?_) hashNext hashPrev lruNext lruPrev
    have differ : i ≠ ncp := fun same => idle (same ▸ busy)
    rw [ncache, set_other differ]
  have own : c1.ncache ncp = ⟨some dp, some vp, name, cred⟩ := by rw [ncache, set_self]
  have result : enterFill dp name vp cred ncp c = ncInshash ncp (.bucket h) (ncInslru ncp (c1.lruPrev .lru) c1) := by
    rw [← counted, ← place]
    cases cred <;> rfl
  have chains : Chains (ncInslru ncp (c1.lruPrev .lru) c1) chain := listed1.chains
  have kept (k i : Nat) : i ∈ update chain h (ncp :: chain h) k ↔ (i = ncp ∧ k = h) ∨ i ∈ chain k := by
    by_cases same : k = h
    · subst same
      simp [update_self]
    · simp [same]
  have idle {i : Nat} (free : ¬ held' i) (differ : i ≠ ncp) : ¬ held i := fun busy => free ((still i).mpr ⟨busy, differ⟩)
  rw [result]
  refine ⟨ncInslru_back listed1.lru offList, (@ncInshash_chains _ ncp h [] _ _ _) chains rfl offChain rfl, fun i => ?_, fun k i member => ?_,
    fun i small free some => ?_, fun i small free none => ?_⟩
  · rw [mem_append, listed.members, List.mem_singleton, still]
    constructor
    · rintro (⟨small, free⟩ | rfl)
      · exact ⟨small, fun both => free both.1⟩
      · exact ⟨less, fun both => both.2 rfl⟩
    · rintro ⟨small, free⟩
      by_cases same : i = ncp
      · exact .inr same
      · exact .inl ⟨small, fun busy => free ⟨busy, same⟩⟩
  · rw [still]
    rcases (kept k i).mp member with ⟨rfl, rfl⟩ | there
    · refine ⟨less, fun both => both.2 rfl, dp, vp, ?_⟩
      show (c1.ncache i).dp = _ ∧ (c1.ncache i).vp = _ ∧ ncHash (c1.ncache i).name dp = _
      rw [own]
      exact ⟨rfl, rfl, place⟩
    · obtain ⟨small, free, placed⟩ := listed1.known k i there
      exact ⟨small, fun both => free both.1, placed⟩
  · by_cases same : i = ncp
    · exact ⟨h, (kept h i).mpr (.inl ⟨same, rfl⟩)⟩
    · obtain ⟨k, there⟩ := listed1.keyed i small (idle free same) some
      exact ⟨k, (kept k i).mpr (.inr there)⟩
  · have none' : (c1.ncache i).dp = .none := none
    have differ : i ≠ ncp := by
      rintro rfl
      rw [own] at none'
      cases none'
    obtain ⟨empty, next, prev⟩ := listed1.blank i small (idle free differ) none'
    obtain ⟨sameNext, samePrev⟩ := (@ncInshash_keeps ncp h _ [] (chain h) _ i (.bucket h)) differ chains rfl
      (listed1.blank_off none') rfl (by simp)
    exact ⟨empty, sameNext.trans next, samePrev.trans prev⟩

theorem Listed.front (listed : Listed ncsize held c list chain) (less : ncp < ncsize) (busy : held ncp)
    (empty : (c.ncache ncp).dp = none ∧ (c.ncache ncp).vp = none) (still : ∀ i, held' i ↔ held i ∧ i ≠ ncp) :
    Listed ncsize held' (nullHash ncp (ncInslru ncp .lru c)) (ncp :: list) chain := by
  obtain ⟨offList, offChain⟩ := listed.held_off busy
  have apart {k : Nat} {node : HashNode} (member : node ∈ HashNode.bucket k :: (chain k).map .entry) : node ≠ .entry ncp := by
    rintro rfl
    exact offChain k (by simpa using member)
  have idle {i : Nat} (free : ¬ held' i) (differ : i ≠ ncp) : ¬ held i := fun busy => free ((still i).mpr ⟨busy, differ⟩)
  refine ⟨ncInslru_front listed.lru offList, ?_, fun i => ?_, fun k i member => ?_, fun i small free some => ?_,
    fun i small free none => ?_⟩
  · exact Rings.congr listed.chains (fun k node member => update_of_ne (apart member) ..)
      fun k node member => update_of_ne (apart member) ..
  · rw [mem_cons, listed.members, still]
    constructor
    · rintro (rfl | ⟨small, free⟩)
      · exact ⟨less, fun both => both.2 rfl⟩
      · exact ⟨small, fun both => free both.1⟩
    · rintro ⟨small, free⟩
      by_cases same : i = ncp
      · exact .inl same
      · exact .inr ⟨small, fun busy => free ⟨busy, same⟩⟩
  · rw [still]
    obtain ⟨small, free, placed⟩ := listed.known k i member
    exact ⟨small, fun both => free both.1, placed⟩
  · have some' : (c.ncache i).dp ≠ none := some
    have differ : i ≠ ncp := by
      rintro rfl
      exact some' empty.1
    exact listed.keyed i small (idle free differ) some'
  · by_cases same : i = ncp
    · subst same
      exact ⟨empty.2, update_self .., update_self ..⟩
    · obtain ⟨empty, next, prev⟩ := listed.blank i small (idle free same) none
      have differ : HashNode.entry i ≠ .entry ncp := by simpa using same
      refine ⟨empty, ?_, ?_⟩
      · exact (update_of_ne differ ..).trans next
      · exact (update_of_ne differ ..).trans prev

theorem Listed.rmEnd (listed : Listed ncsize held c list chain) (less : ncp < ncsize) (busy : held ncp)
    (gone : (c.ncache ncp).dp = none) (still : ∀ i, held' i ↔ held i ∧ i ≠ ncp) :
    Listed ncsize held' (dnlcRmEnd ncp c) (ncp :: list) chain := by
  generalize counted : (c.ncache ncp).cred.elim (set ncp (fun e => { e with vp := none, cred := none }) c)
    (fun cr => crfree cr (set ncp (fun e => { e with vp := none, cred := none }) c)) = c1
  have fields : c1.ncache = (set ncp (fun e => { e with vp := none, cred := none }) c).ncache ∧ c1.hashNext = c.hashNext ∧
      c1.hashPrev = c.hashPrev ∧ c1.lruNext = c.lruNext ∧ c1.lruPrev = c.lruPrev := by
    rw [← counted]
    cases (c.ncache ncp).cred <;> exact ⟨rfl, rfl, rfl, rfl, rfl⟩
  obtain ⟨ncache, hashNext, hashPrev, lruNext, lruPrev⟩ := fields
  have listed1 : Listed ncsize held c1 list chain := by
    refine listed.congr (fun i idle => ?_) hashNext hashPrev lruNext lruPrev
    have differ : i ≠ ncp := fun same => idle (same ▸ busy)
    rw [ncache, set_other differ]
  have own : (c1.ncache ncp).dp = none ∧ (c1.ncache ncp).vp = none := by
    rw [ncache, set_self]
    exact ⟨gone, rfl⟩
  have result : dnlcRmEnd ncp c = nullHash ncp (ncInslru ncp .lru c1) := by
    subst counted
    unfold dnlcRmEnd
    cases (c.ncache ncp).cred <;> rfl
  rw [result]
  exact listed1.front less busy own still

/-! ## Looking up -/

section
variable (listed : Listed ncsize held c list chain)
include listed

theorem Listed.search_eq {cred : Option (Option Nat)} :
    dnlcSearch ncsize c dp name cred = (chain (ncHash name dp)).find? (named c dp name cred) :=
  scan_ring rfl (fun _ => rfl) (listed.chains.ring _) (Nat.lt_succ_of_le listed.length_le.2)

theorem Listed.lru_find {test : Nat → Bool} :
    scan LruNode.ncp c.lruNext test (ncsize + 1) (c.lruNext .lru) = list.find? test :=
  scan_ring rfl (fun _ => rfl) listed.lru (Nat.lt_succ_of_le (@Listed.length_le _ 0 _ _ _ _ listed).1)

theorem Listed.first_eq :
    scan HashNode.ncp c.hashNext (fun _ => true) 1 (c.hashNext (.bucket h)) = (chain h).head? := by
  rw [(listed.chains.ring h).first_eq]
  cases chain h <;> rfl

end

theorem Listed.lookup {dp : Nat} {name : List Nat} {cred : Option Nat} (listed : Listed ncsize held c list chain) :
    ∃ list' chain', Listed ncsize held (dnlcLookup ncsize dp name cred c).2 list' chain' := by
  rw [dnlcLookup]
  split
  · exact ⟨list, chain, listed⟩
  · rw [listed.search_eq]
    generalize place : ncHash name dp = h
    cases found : (chain h).find? (named c dp name (some cred)) with
    | none => exact ⟨list, chain, listed⟩
    | some ncp =>
      have on : ncp ∈ chain h := List.mem_of_find?_eq_some found
      obtain ⟨less, idle, _⟩ := listed.known h ncp on
      obtain ⟨left, right, split⟩ := append_of_mem ((listed.members ncp).mpr ⟨less, idle⟩)
      have lru := listed.lru
      have nodup := lru.nodup
      rw [split] at lru nodup
      have apart : ncp ∉ left ++ right := (nodup_middle.mp nodup).notMem
      have lru' : Lru (ncInslru ncp ((ncRmlru ncp c).lruPrev .lru) (ncRmlru ncp c)) (left ++ right ++ [ncp]) :=
        ncInslru_back (ncRmlru_lru lru) apart
      have members (i : Nat) : i ∈ left ++ right ++ [ncp] ↔ i < ncsize ∧ ¬ held i := by
        rw [← listed.members i, split]
        simp only [mem_append, mem_cons, not_mem_nil, or_false]
        tauto
      generalize moved : ncInslru ncp ((ncRmlru ncp c).lruPrev .lru) (ncRmlru ncp c) = c1 at lru'
      have fields : c1.ncache = c.ncache ∧ c1.hashNext = c.hashNext ∧ c1.hashPrev = c.hashPrev := by
        rw [← moved]
        exact ⟨rfl, rfl, rfl⟩
      obtain ⟨ncache, hashNext, hashPrev⟩ := fields
      have chains : Chains c1 chain := by
        rw [Chains, hashNext, hashPrev]
        exact listed.chains
      have listed1 : Listed ncsize held c1 (left ++ right ++ [ncp]) chain := by
        refine ⟨lru', chains, members, ?_, ?_, ?_⟩
        · rw [ncache]
          exact listed.known
        · rw [ncache]
          exact listed.keyed
        · intro i
          rw [ncache, Dummy, hashNext, hashPrev]
          exact listed.blank i
      simp only [moved]
      split <;> rename_i front
      · -- Not at the head of the chain: it moves forward by one.
        obtain ⟨before, after, parts⟩ := append_of_mem on
        have ring := chains.ring h
        rw [parts, map_append, map_cons] at ring
        rcases before.eq_nil_or_concat with rfl | ⟨start, p, rfl⟩
        · exact absurd ring.back_eq front
        · have chainNodup : (chain h).Nodup := chains.nodup
          rw [List.concat_eq_append] at parts ring
          rw [parts] at chainNodup
          have off : ncp ∉ (start ++ [p]) ++ after := (nodup_middle.mp chainNodup).notMem
          have prev : c1.hashPrev (.entry ncp) = .entry p := by
            rw [ring.back_eq]
            simp
          have ownNext : HashNode.entry ncp ≠ c1.hashNext (.entry ncp) := by
            rw [ring.forw_eq]
            cases first : (after.map HashNode.entry).head? with
            | none => rintro ⟨⟩
            | some node =>
              obtain ⟨j, there, rfl⟩ := mem_map.mp (List.mem_of_head? first)
              rintro ⟨⟩
              exact off (List.mem_append_right _ there)
          have prev' : (ncRmhash ncp c1).hashPrev (.entry ncp) = .entry p := by
            rw [ncRmhash_prev, update_of_ne ownNext, prev]
          have removed := ncRmhash_chains chains parts
          have rest : update chain h (start ++ [p] ++ after) h = start ++ p :: after := by simp
          have removedRing := removed.ring h
          rw [rest, map_append, map_cons] at removedRing
          have before' : (ncRmhash ncp c1).hashPrev (.entry p) = (start.map HashNode.entry).getLast?.getD (.bucket h) :=
            removedRing.back_eq
          have fresh (k : Nat) : ncp ∉ update chain h (start ++ [p] ++ after) k := by
            by_cases same : k = h
            · subst same
              rw [update_self]
              exact off
            · rw [update_of_ne same]
              exact fun there => same (chains.unique there on)
          have inserted := (@ncInshash_chains _ _ h start (p :: after) _ _) removed rest fresh before'
          rw [Function.update_idem] at inserted
          rw [prev']
          have same (k i : Nat) : i ∈ update chain h (start ++ ncp :: p :: after) k ↔ i ∈ chain k := by
            by_cases equal : k = h
            · subst equal
              rw [update_self, parts]
              simp only [mem_append, mem_cons, not_mem_nil, or_false]
              tauto
            · rw [update_of_ne equal]
          have notNew : (ncRmhash ncp c1).hashPrev (.entry p) ≠ .entry ncp := by
            rw [before']
            cases last : (start.map HashNode.entry).getLast? with
            | none => rintro ⟨⟩
            | some node =>
              obtain ⟨j, there, rfl⟩ := mem_map.mp (List.mem_of_getLast? last)
              rintro ⟨⟩
              exact off (List.mem_append_left _ (List.mem_append_left _ there))
          refine ⟨left ++ right ++ [ncp], update chain h (start ++ ncp :: p :: after), lru', inserted, members,
            fun k i member => ?_, fun i small free some => ?_, fun i small free none => ?_⟩
          · exact listed1.known k i ((same k i).mp member)
          · obtain ⟨k, there⟩ := listed1.keyed i small free some
            exact ⟨k, (same k i).mpr there⟩
          · obtain ⟨empty, next, prev⟩ := listed1.blank i small free none
            have away : i ∉ chain h := listed1.blank_off none
            have differ : i ≠ ncp := fun equal => away (equal ▸ on)
            obtain ⟨next1, prev1⟩ := (@ncRmhash_keeps ncp h c1 _ _ _ i) chains parts away
            have away' : i ∉ update chain h (start ++ [p] ++ after) h := by
              rw [rest]
              rw [parts] at away
              simp only [mem_append, mem_cons, not_mem_nil, or_false, not_or] at away ⊢
              exact ⟨away.1.1, away.1.2, away.2.2⟩
            obtain ⟨next2, prev2⟩ := ncInshash_keeps differ removed rest away' before' notNew
            exact ⟨empty, next2.trans (next1.trans next), prev2.trans (prev1.trans prev)⟩
      · exact ⟨left ++ right ++ [ncp], chain, listed1⟩

theorem lookup_answer {vp : Nat} (listed : Listed ncsize held c list chain)
    (answer : (dnlcLookup ncsize dp name cred c).1 = some vp) :
    ∃ ncp, ∃ h, ncp ∈ chain h ∧ c.ncache ncp = ⟨some dp, some vp, name, cred⟩ := by
  rw [dnlcLookup] at answer
  split at answer
  · cases answer
  · rw [listed.search_eq] at answer
    cases found : (chain (ncHash name dp)).find? (named c dp name (some cred)) with
    | none =>
      rw [found] at answer
      cases answer
    | some ncp =>
      rw [found] at answer
      have key : named c dp name (some cred) ncp = true := List.find?_some found
      have same : (c.ncache ncp).vp = some vp := by
        rw [← answer]
        dsimp only
        split <;> rfl
      simp only [named, reduceCtorEq, decide_false, Bool.false_or, Bool.and_eq_true, decide_eq_true_eq, Option.some.injEq] at key
      obtain ⟨⟨device, text⟩, credential⟩ := key
      refine ⟨ncp, _, List.mem_of_find?_eq_some found, ?_⟩
      rw [← device, ← same, ← text, credential]

end

end Svr4.Dnlc
