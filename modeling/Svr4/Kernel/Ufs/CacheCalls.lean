import Svr4.Kernel.Ufs.CacheLists

/-! The calls of the inode cache, from sleep to sleep.

The calls that have taken an inode hold its lock while they sleep. A call works on one
inode; the others keep all but their links on the free list.
-/

namespace Svr4.Ufs.Cache

open Function

/-- The inode that a sleeping call has taken. -/
def Pc.held : Pc → Option Nat
  | .putpage _ _ ip | .dqrele _ _ ip | .bread _ _ ip | .inactive ip => some ip
  | .idle | .lookup _ _ | .purge _ _ => none

/-- The pages are invalidated before the inode is used again. -/
def paging (i : Inode) : Bool := i.iFs ∧ i.vPages ∧ ¬ i.vChr

section
variable (nInode : Nat) (hash : Nat → Nat → Nat)

/-- The free list and the chains; a free inode is not locked and not referred to. -/
structure Cached (c : Table) : Prop where
  free : ∃ list, FreeList c list ∧ ∀ ip, ip ∈ list ↔ ip < nInode ∧ (c.inode ip).iref = false
  chains : ∃ chain, Chained nInode hash none c chain
  unlinked : ∀ ip, (c.inode ip).iref = true → (c.inode ip).iFreef = none ∧ (c.inode ip).iFreeb = none
  resting : ∀ ip, (c.inode ip).iref = false → (c.inode ip).vCount = 0 ∧ (c.inode ip).iCount = 0

/-- Process `p` has taken the inode, which nobody refers to. -/
structure Holding (c : Table) (p ip : Nat) : Prop where
  known : ip < nInode
  iref : (c.inode ip).iref = true
  ilocked : (c.inode ip).ilocked = true
  iOwner : (c.inode ip).iOwner = p
  iCount : (c.inode ip).iCount = 1
  vCount : (c.inode ip).vCount = 0

structure Sound (s : System) : Prop where
  cached : Cached nInode hash s.table
  held : ∀ p ip, (s.pc p).held = some ip → Holding nInode s.table p ip
  prompt : ∀ p dev ino ip, s.pc p ≠ .dqrele dev ino ip

end

/-- The inodes other than `ip` have changed in their links only. -/
def Untouched (ip : Nat) (c c' : Table) : Prop :=
  ∀ j, j ≠ ip → c'.inode j = { c.inode j with iFreef := (c'.inode j).iFreef, iFreeb := (c'.inode j).iFreeb }

section
variable {nInode p ip : Nat} {hash : Nat → Nat → Nat} {c c' c'' : Table} {value : Inode → Inode} {q : Nat} {j : Nat}
  {result : Pc × Table} {pc : Pc}

theorem Untouched.refl : Untouched ip c c := fun _ _ => rfl

theorem Untouched.trans (first : Untouched ip c c') (second : Untouched ip c' c'') : Untouched ip c c'' := by
  intro j differ
  rw [second j differ, first j differ]

theorem Relinked.untouched (relinked : Relinked c c') : Untouched ip c c' := fun j _ => relinked.inode j

theorem set_self : (c.set ip value).inode ip = value (c.inode ip) := update_self ..

theorem set_other (differ : j ≠ ip) : (c.set ip value).inode j = c.inode j := update_of_ne differ ..

theorem set_names (keeps : ∀ i : Inode, (value i).iDev = i.iDev ∧ (value i).iNumber = i.iNumber) (j : Nat) :
    ((c.set ip value).inode j).iDev = (c.inode j).iDev ∧ ((c.set ip value).inode j).iNumber = (c.inode j).iNumber := by
  by_cases same : j = ip
  · subst same
    rw [set_self]
    exact keeps (c.inode j)
  · rw [set_other same]
    exact ⟨rfl, rfl⟩

theorem set_untouched : Untouched ip c (c.set ip value) := by
  intro j differ
  rw [set_other differ]

theorem Untouched.holding (untouched : Untouched ip c c') (differ : j ≠ ip) (holding : Holding nInode c q j) :
    Holding nInode c' q j := by
  obtain ⟨known, iref, ilocked, iOwner, iCount, vCount⟩ := holding
  have same := untouched j differ
  refine ⟨known, ?_, ?_, ?_, ?_, ?_⟩
  all_goals
    rw [same]
    assumption

theorem search_set {dev ino : Nat} (keeps : ∀ i : Inode, (value i).iDev = i.iDev ∧ (value i).iNumber = i.iNumber) :
    search nInode hash dev ino (c.set ip value) = search nInode hash dev ino c := search_congr rfl (set_names keeps)

/-! ## Changes to one inode -/

theorem Cached.change (cached : Cached nInode hash c)
    (rests : (c.inode ip).iref = false → (c'.inode ip).vCount = 0 ∧ (c'.inode ip).iCount = 0)
    (own : (c'.inode ip).iref = (c.inode ip).iref ∧ (c'.inode ip).iFreef = (c.inode ip).iFreef ∧
      (c'.inode ip).iFreeb = (c.inode ip).iFreeb)
    (others : ∀ j, j ≠ ip → c'.inode j = c.inode j) (ifreeh : c'.ifreeh = c.ifreeh) (ifreet : c'.ifreet = c.ifreet)
    (chains : ∃ chain, Chained nInode hash none c' chain) : Cached nInode hash c' := by
  have fields (j : Nat) : (c'.inode j).iref = (c.inode j).iref ∧ (c'.inode j).iFreef = (c.inode j).iFreef ∧
      (c'.inode j).iFreeb = (c.inode j).iFreeb := by
    by_cases same : j = ip
    · subst same
      exact own
    · rw [others j same]
      exact ⟨rfl, rfl, rfl⟩
  refine ⟨?_, chains, fun j used => ?_, fun j unused => ?_⟩
  · obtain ⟨list, free, members⟩ := cached.free
    refine ⟨list, free.congr ifreeh ifreet fun j _ => (fields j).2, fun j => ?_⟩
    rw [members, (fields j).1]
  · rw [(fields j).2.1, (fields j).2.2]
    exact cached.unlinked j ((fields j).1.symm.trans used)
  · rw [(fields j).1] at unused
    by_cases same : j = ip
    · subst same
      exact rests unused
    · rw [others j same]
      exact cached.resting j unused

theorem used (iref : (c.inode ip).iref = true) {goal : Prop} (unused : (c.inode ip).iref = false) : goal := by
  rw [iref] at unused
  exact Bool.noConfusion unused

theorem Cached.set (cached : Cached nInode hash c) (iref : (c.inode ip).iref = true)
    (keeps : ∀ i : Inode, (value i).iref = i.iref ∧ (value i).iFreef = i.iFreef ∧ (value i).iFreeb = i.iFreeb)
    (names : ∀ i : Inode, (value i).iDev = i.iDev ∧ (value i).iNumber = i.iNumber) : Cached nInode hash (c.set ip value) := by
  refine cached.change (used iref) (by rw [set_self]; exact keeps _) (fun j differ => set_other differ) rfl rfl ?_
  obtain ⟨chain, chained⟩ := cached.chains
  exact ⟨chain, chained.congr rfl rfl fun _ j _ => set_names names j⟩

theorem Cached.first_free (cached : Cached nInode hash c) (first : c.ifreeh = some ip) :
    ip < nInode ∧ (c.inode ip).iref = false := by
  obtain ⟨list, free, members⟩ := cached.free
  have head : list.head? = some ip := free.doubly.first_eq.symm.trans first
  exact (members ip).mp (List.mem_of_head? head)

theorem Cached.putFree (cached : Cached nInode hash c) (known : ip < nInode) (iref : (c.inode ip).iref = true)
    (vCount : (c.inode ip).vCount = 0) (iCount : (c.inode ip).iCount = 0) :
    Cached nInode hash (putFree ip (clearFlag ip c)) ∧ Untouched ip c (putFree ip (clearFlag ip c)) := by
  obtain ⟨list, free, members⟩ := cached.free
  have absent : ip ∉ list := by simp [members, iref]
  have cleared : FreeList (clearFlag ip c) list := free.congr rfl rfl fun j member => by
    have differ : j ≠ ip := fun same => absent (same ▸ member)
    rw [clearFlag, set_other differ]
    exact ⟨rfl, rfl⟩
  obtain ⟨list', free', members', relinked, others⟩ := putFree_list cleared absent
  have fields (j : Nat) := congrArg (fun i : Inode => (i.iref, i.vCount, i.iCount, i.iDev, i.iNumber)) (relinked.inode j)
  simp only [Prod.mk.injEq] at fields
  have own : ((clearFlag ip c).inode ip).iref = false := by rw [clearFlag, set_self]
  refine ⟨⟨⟨list', free', fun j => ?_⟩, ?_, fun j used => ?_, fun j unused => ?_⟩, set_untouched.trans relinked.untouched⟩
  · rw [members', members, (fields j).1]
    by_cases same : j = ip
    · subst same
      simp [own, known]
    · rw [clearFlag, set_other same]
      simp [same]
  · obtain ⟨chain, chained⟩ := cached.chains
    refine ⟨chain, chained.congr (by rw [relinked.forw]; rfl) (by rw [relinked.back]; rfl) fun _ j _ => ?_⟩
    rw [(fields j).2.2.2.1, (fields j).2.2.2.2, clearFlag]
    exact set_names (by intro i; exact ⟨rfl, rfl⟩) j
  · rw [(fields j).1] at used
    have differ : j ≠ ip := fun same => by
      rw [same, own] at used
      exact Bool.noConfusion used
    rw [clearFlag, set_other differ] at used
    have outside : j ∉ ip :: list := by simp [differ, members, used]
    rw [(others j outside).1, (others j outside).2, clearFlag, set_other differ]
    exact cached.unlinked j used
  · rw [(fields j).2.1, (fields j).2.2.1]
    by_cases same : j = ip
    · subst same
      rw [clearFlag, set_self]
      exact ⟨vCount, iCount⟩
    · rw [(fields j).1, clearFlag, set_other same] at unused
      rw [clearFlag, set_other same]
      exact cached.resting j unused

theorem Cached.unfree (cached : Cached nInode hash c) (known : ip < nInode) (unused : (c.inode ip).iref = false)
    (keeps : ∀ i : Inode, (value i).iref = true ∧ (value i).iFreef = i.iFreef ∧ (value i).iFreeb = i.iFreeb ∧
      (value i).iDev = i.iDev ∧ (value i).iNumber = i.iNumber) :
    ∃ c', Cache.unfree ip (c.inode ip).iFreef c = some c' ∧ Relinked c c' ∧ Cached nInode hash (c'.set ip value) := by
  obtain ⟨list, free, members⟩ := cached.free
  obtain ⟨left, right, split⟩ := List.append_of_mem ((members ip).mpr ⟨known, unused⟩)
  rw [split] at free
  obtain ⟨c', result, free', relinked, freef, freeb, others⟩ := unfree_list free
  have absent : ip ∉ left ++ right := (List.nodup_middle.mp free.nodup).notMem
  have fields (j : Nat) := congrArg (fun i : Inode => (i.iref, i.vCount, i.iCount, i.iDev, i.iNumber)) (relinked.inode j)
  simp only [Prod.mk.injEq] at fields
  refine ⟨c', result, relinked, ⟨⟨left ++ right, ?_, fun j => ?_⟩, ?_, fun j used => ?_, fun j rests => ?_⟩⟩
  · refine free'.congr rfl rfl fun j member => ?_
    have differ : j ≠ ip := fun same => absent (same ▸ member)
    rw [set_other differ]
    exact ⟨rfl, rfl⟩
  · by_cases same : j = ip
    · subst same
      rw [set_self]
      simp [absent, (keeps (c'.inode j)).1]
    · rw [set_other same, (fields j).1, ← members, split, List.perm_middle.mem_iff, List.mem_cons, or_iff_right same]
  · obtain ⟨chain, chained⟩ := cached.chains
    refine ⟨chain, chained.congr relinked.forw relinked.back fun _ j _ => ?_⟩
    by_cases same : j = ip
    · subst same
      rw [set_self, (keeps _).2.2.2.1, (keeps _).2.2.2.2]
      exact (fields j).2.2.2
    · rw [set_other same]
      exact (fields j).2.2.2
  · by_cases same : j = ip
    · subst same
      rw [set_self, (keeps _).2.1, (keeps _).2.2.1]
      exact ⟨freef, freeb⟩
    · rw [set_other same] at used ⊢
      rw [(fields j).1] at used
      have outside : j ∉ left ++ ip :: right := by rw [← split, members, used]; simp
      rw [(others j outside).1, (others j outside).2]
      exact cached.unlinked j used
  · have differ : j ≠ ip := fun same => by
      rw [same, set_self, (keeps _).1] at rests
      exact Bool.noConfusion rests
    rw [set_other differ] at rests ⊢
    rw [(fields j).2.1, (fields j).2.2.1]
    exact cached.resting j ((fields j).1.symm.trans rests)

/-! ## Calls -/

/-- What a call of process `p` that works on inode `ip` leaves. -/
structure Settled (nInode : Nat) (hash : Nat → Nat → Nat) (p ip : Nat) (c : Table) (result : Pc × Table) : Prop where
  cached : Cached nInode hash result.2
  untouched : Untouched ip c result.2
  held : ∀ j, result.1.held = some j → j = ip ∧ Holding nInode result.2 p ip
  prompt : ∀ dev ino j, result.1 ≠ .dqrele dev ino j

variable {dev ino : Nat}

theorem Settled.after (settled : Settled nInode hash p ip c' result) (untouched : Untouched ip c c') :
    Settled nInode hash p ip c result :=
  ⟨settled.cached, untouched.trans settled.untouched, settled.held, settled.prompt⟩

theorem lock_untouched : Untouched ip c (lock p ip c) := set_untouched

theorem iunlock_untouched : Untouched ip c (iunlock ip c) := set_untouched

theorem Cached.settle (cached : Cached nInode hash c) (known : ip < nInode) (iref : (c.inode ip).iref = true)
    (vCount : (c.inode ip).vCount = 0) (iCount : (c.inode ip).iCount = 0) (free : pc.held = none) :
    Settled nInode hash p ip c (pc, Cache.putFree ip (clearFlag ip c)) := by
  obtain ⟨cached', untouched⟩ := cached.putFree known iref vCount iCount
  refine ⟨cached', untouched, fun j held => ?_, fun dev ino j busy => ?_⟩
  · rw [free] at held
    cases held
  · rw [show pc = _ from busy] at free
    cases free

theorem Cached.lock {pc : Pc} (cached : Cached nInode hash c) (known : ip < nInode) (iref : (c.inode ip).iref = true)
    (vCount : (c.inode ip).vCount = 0) (iCount : (c.inode ip).iCount = 0) (held : pc.held = some ip)
    (prompt : ∀ dev ino j, pc ≠ .dqrele dev ino j) : Settled nInode hash p ip c (pc, Cache.lock p ip c) := by
  have locked : Cached nInode hash (Cache.lock p ip c) := by
    rw [Cache.lock]
    exact cached.set iref (fun _ => ⟨rfl, rfl, rfl⟩) fun _ => ⟨rfl, rfl⟩
  refine ⟨locked, lock_untouched, fun j here => ?_, prompt⟩
  refine ⟨Option.some.inj (here.symm.trans held), known, ?_, ?_, ?_, ?_, ?_⟩
  all_goals rw [Cache.lock, set_self]
  · exact iref
  · simp [iCount]
  · exact vCount

theorem Holding.iunlock (cached : Cached nInode hash c) (holding : Holding nInode c p ip) :
    Cached nInode hash (iunlock ip c) ∧ ((Cache.iunlock ip c).inode ip).iref = true ∧
      ((Cache.iunlock ip c).inode ip).vCount = 0 ∧ ((Cache.iunlock ip c).inode ip).iCount = 0 ∧
      ((Cache.iunlock ip c).inode ip).ilocked = false := by
  refine ⟨cached.set holding.iref (fun i => ?_) fun i => ?_, ?_⟩
  · dsimp only
    split <;> exact ⟨rfl, rfl, rfl⟩
  · dsimp only
    split <;> exact ⟨rfl, rfl⟩
  · rw [Cache.iunlock, set_self]
    simp [holding.iCount, holding.iref, holding.vCount]

theorem settled_iinactive (cached : Cached nInode hash c) (known : ip < nInode) (iref : (c.inode ip).iref = true)
    (vCount : (c.inode ip).vCount = 0) (iCount : (c.inode ip).iCount = 0) (ilocked : (c.inode ip).ilocked = false) :
    ∃ result, iinactive p ip c = some result ∧ Settled nInode hash p ip c result := by
  obtain ⟨freef, freeb⟩ := cached.unlinked ip iref
  simp only [iinactive, iref, ilocked, freef, freeb]
  simp only [Bool.false_eq_true, not_false_eq_true, and_self, not_true_eq_false, ne_eq, or_self, if_false]
  split
  · exact ⟨_, rfl, cached.lock known iref vCount iCount rfl nofun⟩
  · exact ⟨_, rfl, cached.settle known iref vCount iCount rfl⟩

section
variable (cached : Cached nInode hash c)
include cached

section
variable (holding : Holding nInode c p ip)
include holding

theorem settled_iinactiveEnd :
    Settled nInode hash p ip c (iinactiveEnd ip c) := by
  generalize changed : (if (c.inode ip).iNlink ≤ 0 then c.set ip fun i => { i with iMode := 0, iDquot := false } else c) = c'
  have facts : Cached nInode hash c' ∧ Holding nInode c' p ip ∧ Untouched ip c c' := by
    split at changed
    · subst changed
      refine ⟨cached.set holding.iref (fun _ => ⟨rfl, rfl, rfl⟩) fun _ => ⟨rfl, rfl⟩, ?_, set_untouched⟩
      obtain ⟨known, iref, ilocked, iOwner, iCount, vCount⟩ := holding
      refine ⟨known, ?_, ?_, ?_, ?_, ?_⟩
      all_goals
        rw [set_self]
        assumption
    · subst changed
      exact ⟨cached, holding, Untouched.refl⟩
  obtain ⟨cached', holding', untouched⟩ := facts
  obtain ⟨unlocked, iref, vCount, iCount, _⟩ := holding'.iunlock cached'
  have settled : Settled nInode hash p ip (iunlock ip c') (.idle, putFree ip (clearFlag ip (iunlock ip c'))) :=
    unlocked.settle holding.known iref vCount iCount rfl
  rw [iinactiveEnd, changed]
  exact settled.after (untouched.trans iunlock_untouched)

theorem settled_giveUp :
    Settled nInode hash p ip c (giveUp dev ino ip c) := by
  obtain ⟨unlocked, iref, vCount, iCount, _⟩ := holding.iunlock cached
  -- The count goes up and down again around the unlocking.
  generalize back : ((iunlock ip (c.set ip fun i => { i with vCount := i.vCount + 1 })).set ip fun i =>
    { i with vCount := i.vCount - 1 }) = c'
  have same : c' = iunlock ip c := by
    rw [← back]
    simp only [iunlock, Table.set, update_self, update_idem]
    congr 2
    split <;> rfl
  have settled : Settled nInode hash p ip (iunlock ip c) (.lookup dev ino, putFree ip (clearFlag ip (iunlock ip c))) :=
    unlocked.settle holding.known iref vCount iCount rfl
  rw [giveUp, idrop, back, same, if_pos vCount]
  exact settled.after iunlock_untouched

theorem settled_move
    (fresh : search nInode hash dev ino c = none) (dquot : (c.inode ip).iDquot = false) :
    Settled nInode hash p ip c (move hash dev ino ip c) := by
  have same : move hash dev ino ip c = identify dev ino ip (insque ip (hash dev ino) (remque ip c)) := by
    simp only [move]
    exact if_neg (by rw [show (insque ip (hash dev ino) (remque ip c)).inode = c.inode from rfl, dquot]; exact Bool.false_ne_true)
  have chains : ∃ chain, Chained nInode hash none (identify dev ino ip (insque ip (hash dev ino) (remque ip c))).2 chain := by
    obtain ⟨chain, chained⟩ := cached.chains
    obtain ⟨chain', removed, sub⟩ := (@remque_chained _ ip _ _ _) chained
    exact ⟨_, insque_chained removed holding.known fun j there => search_none chained fresh j (sub _ j there)⟩
  rw [same]
  refine ⟨?_, ?_, fun j held => ?_, nofun⟩
  · refine cached.change (used holding.iref) ?_ (fun j differ => ?_) rfl rfl chains
    · rw [identify, set_self]
      exact ⟨rfl, rfl, rfl⟩
    · rw [identify, set_other differ]
      rfl
  · intro j differ
    rw [identify, set_other differ]
    rfl
  · refine ⟨(Option.some.inj held).symm, ?_⟩
    obtain ⟨known, iref, ilocked, iOwner, iCount, vCount⟩ := holding
    refine ⟨known, ?_, ?_, ?_, ?_, ?_⟩
    all_goals
      rw [identify, set_self]
      assumption

theorem settled_checkHash {checkhash : Bool}
    (fresh : checkhash = false → search nInode hash dev ino c = none)
    (dquot : search nInode hash dev ino c = none → (c.inode ip).iDquot = false) :
    Settled nInode hash p ip c (checkHash nInode hash dev ino ip checkhash c) := by
  rw [checkHash]
  split <;> rename_i found
  · exact settled_giveUp cached holding
  · have none : search nInode hash dev ino c = none := by
      cases checkhash with
      | false => exact fresh rfl
      | true => simpa using found
    exact settled_move cached holding none (dquot none)

end

end

theorem settled_paged {err : Bool} (cached : Cached nInode hash c) (holding : Holding nInode c p ip)
    (dquot : ¬ (err = true ∨ (c.inode ip).iwant = true) → search nInode hash dev ino c = none → (c.inode ip).iDquot = false) :
    Settled nInode hash p ip c (paged nInode hash dev ino ip err c) := by
  rw [paged]
  split <;> rename_i failed
  · exact settled_giveUp cached holding
  · exact settled_checkHash cached holding nofun (dquot failed)

theorem settled_readIn {error : Bool} {dp : Dinode} (cached : Cached nInode hash c) (holding : Holding nInode c p ip) :
    ∃ result, readIn p ip error dp c = some result ∧ Settled nInode hash p ip c result := by
  rw [readIn]
  cases error with
  | true =>
    simp only [if_true]
    generalize gone : ((selfque ip (remque ip c)).set ip fun i => { i with iNumber := 0 }) = c'
    have chains : ∃ chain, Chained nInode hash none c' chain := by
      obtain ⟨chain, chained⟩ := cached.chains
      obtain ⟨chain', removed, _⟩ := (@remque_chained _ ip _ _ _) chained
      have renamed : Chained nInode hash (some ip) ((remque ip c).set ip fun i => { i with iNumber := 0 }) chain' := by
        refine removed.congr rfl rfl fun h j member => ?_
        have differ : j ≠ ip := fun same => removed.away ip rfl h (same ▸ member)
        rw [set_other differ]
        exact ⟨rfl, rfl⟩
      rw [← gone]
      exact ⟨chain', selfque_chained renamed⟩
    subst gone
    have cached' : Cached nInode hash ((selfque ip (remque ip c)).set ip fun i => { i with iNumber := 0 }) := by
      refine cached.change (used holding.iref) ?_ (fun j differ => set_other differ) rfl rfl chains
      rw [set_self]
      exact ⟨rfl, rfl, rfl⟩
    have holding' : Holding nInode ((selfque ip (remque ip c)).set ip fun i => { i with iNumber := 0 }) p ip := by
      obtain ⟨known, iref, ilocked, iOwner, iCount, vCount⟩ := holding
      refine ⟨known, ?_, ?_, ?_, ?_, ?_⟩
      all_goals
        rw [set_self]
        assumption
    obtain ⟨unlocked, iref, vCount, iCount, ilocked⟩ := holding'.iunlock cached'
    obtain ⟨result, returns, settled⟩ := (@settled_iinactive _ p _ _ _) unlocked holding.known iref vCount iCount ilocked
    have untouched : Untouched ip c ((selfque ip (remque ip c)).set ip fun i => { i with iNumber := 0 }) := set_untouched
    exact ⟨result, returns, settled.after (untouched.trans iunlock_untouched)⟩
  | false =>
    refine ⟨_, rfl, ?_, ?_, nofun, nofun⟩
    · dsimp only
      exact cached.set holding.iref (fun _ => ⟨rfl, rfl, rfl⟩) fun _ => ⟨rfl, rfl⟩
    · dsimp only
      exact set_untouched

theorem settled_take {checkhash : Bool} (cached : Cached nInode hash c) (first : c.ifreeh = some ip)
    (assigned : (c.inode ip).iMode ≠ 0 ∧ (c.inode ip).vPages = true)
    (fresh : checkhash = false → search nInode hash dev ino c = none)
    (dquot : paging (c.inode ip) = false → search nInode hash dev ino c = none → (c.inode ip).iDquot = false) :
    ∃ result, take nInode hash p dev ino ip checkhash c = some result ∧ Settled nInode hash p ip c result := by
  obtain ⟨known, unused⟩ := cached.first_free first
  obtain ⟨vCount, iCount⟩ := cached.resting ip unused
  obtain ⟨c', result, relinked, cached'⟩ := (@Cached.unfree _ _ _ _
    fun i => { i with iref := true, ilocked := false, iwant := false, irwlocked := false }) cached known unused
    fun _ => ⟨rfl, rfl, rfl, rfl, rfl⟩
  have fields := congrArg (fun i : Inode => (i.vCount, i.iCount, i.iDquot)) (relinked.inode ip)
  simp only [Prod.mk.injEq] at fields
  generalize taken : (c'.set ip fun i => { i with iref := true, ilocked := false, iwant := false, irwlocked := false }) = c1 at cached'
  have untouched : Untouched ip c c1 := by
    rw [← taken]
    exact relinked.untouched.trans set_untouched
  have own : (c1.inode ip).iref = true ∧ (c1.inode ip).vCount = 0 ∧ (c1.inode ip).iCount = 0 ∧
      (c1.inode ip).iDquot = (c.inode ip).iDquot := by
    rw [← taken, set_self]
    exact ⟨rfl, fields.1.trans vCount, fields.2.1.trans iCount, fields.2.2⟩
  have locked := (@Cached.lock _ p ip _ _ (.putpage dev ino ip)) cached' known own.1 own.2.1 own.2.2.1 rfl nofun
  have searched : search nInode hash dev ino (lock p ip c1) = search nInode hash dev ino c := by
    refine search_congr (by rw [← taken]; exact relinked.forw) fun j => ?_
    have names := congrArg (fun i : Inode => (i.iDev, i.iNumber)) (relinked.inode j)
    simp only [Prod.mk.injEq] at names
    rw [← taken]
    by_cases same : j = ip
    · subst same
      rw [lock, set_self, set_self]
      exact names
    · rw [lock, set_other same, set_other same]
      exact names
  simp only [take, if_pos assigned, Option.bind_eq_bind, Option.bind_some, result, taken]
  split <;> rename_i pages
  · exact ⟨_, rfl, locked.after untouched⟩
  · refine ⟨_, rfl, ?_⟩
    have settled : Settled nInode hash p ip (lock p ip c1) (checkHash nInode hash dev ino ip checkhash (lock p ip c1)) :=
      settled_checkHash locked.cached (locked.held ip rfl).2 (fun off => searched.trans (fresh off)) fun none => by
        rw [lock, set_self]
        exact own.2.2.2.trans (dquot (by simpa [paging] using pages) (searched.symm.trans none))
    exact settled.after (untouched.trans lock_untouched)

/-- What a call of process `p` leaves, and the other calls have what they had. -/
structure Outcome (nInode : Nat) (hash : Nat → Nat → Nat) (p : Nat) (c : Table) (result : Pc × Table) : Prop where
  cached : Cached nInode hash result.2
  kept : ∀ q j, q ≠ p → Holding nInode c q j → Holding nInode result.2 q j
  held : ∀ j, result.1.held = some j → Holding nInode result.2 p j
  prompt : ∀ dev ino j, result.1 ≠ .dqrele dev ino j

theorem Settled.outcome (settled : Settled nInode hash p ip c result)
    (mine : ∀ q, q ≠ p → ¬ Holding nInode c q ip) : Outcome nInode hash p c result := by
  refine ⟨settled.cached, fun q j other holding => ?_, fun j held => ?_, settled.prompt⟩
  · have differ : j ≠ ip := fun same => mine q other (same ▸ holding)
    exact settled.untouched.holding differ holding
  · obtain ⟨rfl, holding⟩ := settled.held j held
    exact holding

theorem Holding.mine (holding : Holding nInode c p ip) (other : q ≠ p) : ¬ Holding nInode c q ip := fun also =>
  other (also.iOwner.symm.trans holding.iOwner)

theorem free_mine (unused : (c.inode ip).iref = false) : ¬ Holding nInode c q ip := fun also => used also.iref unused

theorem referred_mine (some : 0 < (c.inode ip).vCount) : ¬ Holding nInode c q ip := fun also =>
  Nat.ne_of_gt some also.vCount

theorem Cached.referred (cached : Cached nInode hash c) (some : 0 < (c.inode ip).vCount) : (c.inode ip).iref = true := by
  cases iref : (c.inode ip).iref with
  | true => rfl
  | false => exact absurd (cached.resting ip iref).1 (Nat.ne_of_gt some)

theorem Cached.stay (cached : Cached nInode hash c) (free : pc.held = none) : Outcome nInode hash p c (pc, c) := by
  refine ⟨cached, fun _ _ _ holding => holding, fun j held => ?_, fun dev ino j busy => ?_⟩
  · rw [free] at held
    cases held
  · rw [show pc = _ from busy] at free
    cases free

theorem Cached.hold (cached : Cached nInode hash c) (iref : (c.inode ip).iref = true) :
    Settled nInode hash p ip c (.idle, (Cache.lock p ip c).set ip fun i => { i with vCount := i.vCount + 1 }) := by
  have locked : Cached nInode hash (Cache.lock p ip c) := by
    rw [Cache.lock]
    exact cached.set iref (fun _ => ⟨rfl, rfl, rfl⟩) fun _ => ⟨rfl, rfl⟩
  have still : ((Cache.lock p ip c).inode ip).iref = true := by
    rw [Cache.lock, set_self]
    exact iref
  refine ⟨?_, ?_, nofun, nofun⟩
  · dsimp only
    exact locked.set still (fun _ => ⟨rfl, rfl, rfl⟩) fun _ => ⟨rfl, rfl⟩
  · dsimp only
    exact lock_untouched.trans set_untouched

theorem outcome_lookup (cached : Cached nInode hash c)
    (ready : ∀ ip, search nInode hash dev ino c = none → c.ifreeh = some ip →
      ((c.inode ip).iMode ≠ 0 ∧ (c.inode ip).vPages = true) ∧ (paging (c.inode ip) = false → (c.inode ip).iDquot = false)) :
    ∃ result, lookup nInode hash p dev ino c = some result ∧ Outcome nInode hash p c result := by
  rw [lookup]
  cases found : search nInode hash dev ino c with
  | none =>
    cases first : c.ifreeh with
    | none => exact ⟨_, rfl, cached.stay rfl⟩
    | some ip =>
      obtain ⟨assigned, dquot⟩ := ready ip found first
      obtain ⟨result, returns, settled⟩ := (@settled_take _ p _ _ _ dev ino false) cached first assigned (fun _ => found)
        fun off _ => dquot off
      exact ⟨result, returns, settled.outcome fun q _ => free_mine (cached.first_free first).2⟩
  | some ip =>
    dsimp only
    obtain ⟨chain, chained⟩ := cached.chains
    have known := chained.known _ ip (search_some chained found)
    split <;> rename_i locked
    · -- Another process has it, and this one sleeps.
      refine ⟨_, rfl, ?_, fun q j _ holding => ?_, nofun, nofun⟩
      · dsimp only
        refine cached.change (fun unused => ?_) ?_ (fun j differ => set_other differ) rfl rfl
          ⟨chain, chained.congr rfl rfl fun _ j _ => set_names (by intro i; exact ⟨rfl, rfl⟩) j⟩
        · rw [set_self]
          exact cached.resting ip unused
        · rw [set_self]
          exact ⟨rfl, rfl, rfl⟩
      · dsimp only
        by_cases same : j = ip
        · subst same
          obtain ⟨known, iref, ilocked, iOwner, iCount, vCount⟩ := holding
          refine ⟨known, ?_, ?_, ?_, ?_, ?_⟩
          all_goals
            rw [set_self]
            assumption
        · exact set_untouched.holding same holding
    · have mine (q : Nat) (other : q ≠ p) : ¬ Holding nInode c q ip := fun holding =>
        locked ⟨.inr holding.ilocked, fun owner => other (holding.iOwner.symm.trans owner)⟩
      cases iref : (c.inode ip).iref with
      | true =>
        have same : (c.set ip fun i => { i with iref := true }) = c := by
          have here : ({ c.inode ip with iref := true } : Inode) = c.inode ip := by rw [← iref]
          simp only [Table.set, here, update_eq_self]
        simp only [not_true_eq_false, if_false, Option.bind_eq_bind, Option.bind_some, same]
        exact ⟨_, rfl, (cached.hold iref).outcome mine⟩
      | false =>
        obtain ⟨c', result, relinked, cached'⟩ := (@Cached.unfree _ _ _ _ fun i => { i with iref := true }) cached known iref
          fun _ => ⟨rfl, rfl, rfl, rfl, rfl⟩
        simp only [Bool.false_eq_true, not_false_eq_true, if_true, Option.bind_eq_bind, result, Option.bind_some]
        have settled := (@Cached.hold _ p ip _ _) cached' (by rw [set_self])
        have untouched : Untouched ip c (c'.set ip fun i => { i with iref := true }) := relinked.untouched.trans set_untouched
        exact ⟨_, rfl, (settled.after untouched).outcome mine⟩

theorem outcome_purged {more : Bool} (cached : Cached nInode hash c)
    (ready : ∀ ip, c.ifreeh = some ip → ((c.inode ip).iMode ≠ 0 ∧ (c.inode ip).vPages = true) ∧
      (paging (c.inode ip) = false → search nInode hash dev ino c = none → (c.inode ip).iDquot = false)) :
    ∃ result, purged nInode hash p dev ino more c = some result ∧ Outcome nInode hash p c result := by
  rw [purged]
  cases first : c.ifreeh with
  | none =>
    refine ⟨_, rfl, cached.stay ?_⟩
    cases more <;> rfl
  | some ip =>
    obtain ⟨assigned, dquot⟩ := ready ip first
    obtain ⟨result, returns, settled⟩ := (@settled_take _ p _ _ _ dev ino true) cached first assigned nofun dquot
    exact ⟨result, returns, settled.outcome fun q _ => free_mine (cached.first_free first).2⟩

theorem settled_vnRele (cached : Cached nInode hash c) (known : ip < nInode) (referred : 0 < (c.inode ip).vCount)
    (iCount : (c.inode ip).iCount = 0) (ilocked : (c.inode ip).ilocked = false) :
    ∃ result, vnRele p ip c = some result ∧ Settled nInode hash p ip c result := by
  have iref := cached.referred referred
  have lower : Cached nInode hash (c.set ip fun i => { i with vCount := i.vCount - 1 }) :=
    cached.set iref (fun _ => ⟨rfl, rfl, rfl⟩) fun _ => ⟨rfl, rfl⟩
  have untouched : Untouched ip c (c.set ip fun i => { i with vCount := i.vCount - 1 }) := set_untouched
  rw [vnRele]
  split <;> rename_i last
  · obtain ⟨result, returns, settled⟩ := (@settled_iinactive _ p ip _ _) lower known (by rw [set_self]; exact iref) last
      (by rw [set_self]; exact iCount) (by rw [set_self]; exact ilocked)
    exact ⟨result, returns, settled.after untouched⟩
  · exact ⟨_, rfl, lower, untouched, nofun, nofun⟩

theorem holds_iunlock (cached : Cached nInode hash c) (held : holds nInode c p ip) :
    Cached nInode hash (iunlock ip c) ∧ 0 < ((iunlock ip c).inode ip).vCount ∧ ((iunlock ip c).inode ip).iCount = 0 ∧
      ((iunlock ip c).inode ip).ilocked = false := by
  obtain ⟨_, referred, _, _, once⟩ := held
  refine ⟨cached.set (cached.referred referred) (fun i => ?_) fun i => ?_, ?_⟩
  · dsimp only
    split <;> exact ⟨rfl, rfl, rfl⟩
  · dsimp only
    split <;> exact ⟨rfl, rfl⟩
  · rw [iunlock, set_self]
    simp [once, referred]

theorem settled_idrop (cached : Cached nInode hash c) (held : holds nInode c p ip) :
    Settled nInode hash p ip c (.idle, idrop ip c) := by
  obtain ⟨unlocked, referred, iCount, _⟩ := holds_iunlock cached held
  have iref := unlocked.referred referred
  have lower : Cached nInode hash ((iunlock ip c).set ip fun i => { i with vCount := i.vCount - 1 }) :=
    unlocked.set iref (fun _ => ⟨rfl, rfl, rfl⟩) fun _ => ⟨rfl, rfl⟩
  have untouched : Untouched ip c ((iunlock ip c).set ip fun i => { i with vCount := i.vCount - 1 }) :=
    iunlock_untouched.trans set_untouched
  rw [idrop]
  split <;> rename_i last
  · exact (lower.settle held.1 (by rw [set_self]; exact iref) last (by rw [set_self]; exact iCount) rfl).after untouched
  · exact ⟨lower, untouched, nofun, nofun⟩

end

end Svr4.Ufs.Cache
