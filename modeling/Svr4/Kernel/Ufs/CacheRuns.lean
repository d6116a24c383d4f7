import Svr4.Kernel.Ufs.CacheCalls

/-! Runs of the inode cache, from `ihinit` or from any cache in order. -/

namespace Svr4.Ufs.Cache

open Function

attribute [local simp] ihinitFirst Table.store

section
variable (nInode : Nat) (hash : Nat → Nat → Nat)

/-- What the rest of the kernel does to inodes: only the holders of references lock them, and
nobody takes the first reference or gives up the last. -/
structure Elsewhere (c c' : Table) : Prop where
  forw : c'.forw = c.forw
  back : c'.back = c.back
  ifreeh : c'.ifreeh = c.ifreeh
  ifreet : c'.ifreet = c.ifreet
  links : ∀ ip, (c'.inode ip).iref = (c.inode ip).iref ∧ (c'.inode ip).iFreef = (c.inode ip).iFreef ∧
    (c'.inode ip).iFreeb = (c.inode ip).iFreeb
  names : ∀ ip, (c'.inode ip).iDev = (c.inode ip).iDev ∧ (c'.inode ip).iNumber = (c.inode ip).iNumber
  referred : ∀ ip, 0 < (c.inode ip).vCount → 0 < (c'.inode ip).vCount
  resting : ∀ ip, (c.inode ip).vCount = 0 → (c'.inode ip).vCount = 0 ∧ (c'.inode ip).ilocked = (c.inode ip).ilocked ∧
    (c'.inode ip).iOwner = (c.inode ip).iOwner ∧ (c'.inode ip).iCount = (c.inode ip).iCount

/-- A call goes on, or something happens elsewhere. Where a call gives no result, anything can
come of it. -/
def Step (s : System) (event : Option Event) (t : System) : Prop :=
  match event with
  | none => t.pc = s.pc ∧ Elsewhere s.table t.table
  | some event => ∃ p result, run nInode hash event s = some (p, result) ∧
      ∀ pc c, result = some (pc, c) → t = ⟨c, update s.pc p pc⟩

/-- An inode that `ufs_iget` takes off the free list has a mode and pages, and one that it moves
to another chain has no quota to release. -/
def Assigned (s : System) : Option Event → Prop
  | some (.lookup p) => ∀ dev ino ip, s.pc p = .lookup dev ino → search nInode hash dev ino s.table = none →
      s.table.ifreeh = some ip → ((s.table.inode ip).iMode ≠ 0 ∧ (s.table.inode ip).vPages = true) ∧
        (paging (s.table.inode ip) = false → (s.table.inode ip).iDquot = false)
  | some (.purged p _) => ∀ dev ino ip, s.pc p = .purge dev ino → s.table.ifreeh = some ip →
      ((s.table.inode ip).iMode ≠ 0 ∧ (s.table.inode ip).vPages = true) ∧ (paging (s.table.inode ip) = false →
        search nInode hash dev ino s.table = none → (s.table.inode ip).iDquot = false)
  | some (.paged p err) => ∀ dev ino ip, s.pc p = .putpage dev ino ip → ¬ (err = true ∨ (s.table.inode ip).iwant = true) →
      search nInode hash dev ino s.table = none → (s.table.inode ip).iDquot = false
  | _ => True

/-- No call is in progress, and the lists are in order. -/
def Started (s : System) : Prop := (∀ p, s.pc p = .idle) ∧ Cached nInode hash s.table

/-- The free list is of the inodes without IREF. Every inode is on at most one chain, where
its name hashes to, and no two inodes on the chains have the same name. -/
structure Tidy (c : Table) : Prop where
  free : ∃ list, FreeList c list ∧ list.Nodup ∧ ∀ ip, ip ∈ list ↔ ip < nInode ∧ (c.inode ip).iref = false
  chains : ∃ chain, Chained nInode hash none c chain ∧ (∀ h h' ip, ip ∈ chain h → ip ∈ chain h' → h = h') ∧
    ∀ h h' ip jp, ip ∈ chain h → jp ∈ chain h' → (c.inode ip).iDev = (c.inode jp).iDev →
      (c.inode ip).iNumber = (c.inode jp).iNumber → ip = jp

end

section
variable {nInode : Nat} {hash : Nat → Nat → Nat} {c c' : Table} {s t : System}

theorem Cached.tidy (cached : Cached nInode hash c) : Tidy nInode hash c := by
  obtain ⟨list, free, members⟩ := cached.free
  obtain ⟨chain, chained⟩ := cached.chains
  refine ⟨⟨list, free, free.nodup, members⟩, chain, chained, fun h h' ip here there => chained.unique here there, ?_⟩
  intro h h' ip jp here there device number
  -- Equal names are on one chain.
  have same : h = h' := by rw [← chained.place h ip here, ← chained.place h' jp there, device, number]
  subst same
  exact chained.single h ip here jp there device number

theorem Elsewhere.cached (elsewhere : Elsewhere c c') (cached : Cached nInode hash c) : Cached nInode hash c' := by
  refine ⟨?_, ?_, fun ip used => ?_, fun ip unused => ?_⟩
  · obtain ⟨list, free, members⟩ := cached.free
    refine ⟨list, free.congr elsewhere.ifreeh elsewhere.ifreet fun ip _ => (elsewhere.links ip).2, fun ip => ?_⟩
    rw [members, (elsewhere.links ip).1]
  · obtain ⟨chain, chained⟩ := cached.chains
    exact ⟨chain, chained.congr elsewhere.forw elsewhere.back fun _ ip _ => elsewhere.names ip⟩
  · rw [(elsewhere.links ip).2.1, (elsewhere.links ip).2.2]
    exact cached.unlinked ip ((elsewhere.links ip).1.symm.trans used)
  · obtain ⟨vCount, iCount⟩ := cached.resting ip ((elsewhere.links ip).1.symm.trans unused)
    obtain ⟨still, _, _, same⟩ := elsewhere.resting ip vCount
    exact ⟨still, same.trans iCount⟩

theorem Elsewhere.holding {p ip : Nat} (elsewhere : Elsewhere c c') (holding : Holding nInode c p ip) :
    Holding nInode c' p ip := by
  obtain ⟨vCount, ilocked, iOwner, iCount⟩ := elsewhere.resting ip holding.vCount
  exact ⟨holding.known, (elsewhere.links ip).1.trans holding.iref, ilocked.trans holding.ilocked, iOwner.trans holding.iOwner,
    iCount.trans holding.iCount, vCount⟩

theorem Outcome.sound {p : Nat} {result : Pc × Table} (outcome : Outcome nInode hash p s.table result)
    (sound : Sound nInode hash s) : Sound nInode hash ⟨result.2, update s.pc p result.1⟩ := by
  refine ⟨outcome.cached, fun q ip held => ?_, fun q dev ino ip => ?_⟩
  · dsimp only at held ⊢
    by_cases same : q = p
    · subst same
      rw [update_self] at held
      exact outcome.held ip held
    · rw [update_of_ne same] at held
      exact outcome.kept q ip same (sound.held q ip held)
  · dsimp only
    by_cases same : q = p
    · subst same
      rw [update_self]
      exact outcome.prompt dev ino ip
    · rw [update_of_ne same]
      exact sound.prompt q dev ino ip

/-- Every call gives a result. -/
theorem Sound.outcome {event : Event} {p : Nat} {result : Option (Pc × Table)} (sound : Sound nInode hash s)
    (assigned : Assigned nInode hash s (some event)) (called : run nInode hash event s = some (p, result)) :
    ∃ found, result = some found ∧ Outcome nInode hash p s.table found := by
  have cached := sound.cached
  cases event with
  | iget p dev ino =>
    simp only [run] at called
    split at called
    · cases called
      exact ⟨_, rfl, cached.stay rfl⟩
    · cases called
  | lookup p =>
    simp only [run] at called
    split at called
    · rename_i here
      cases called
      exact outcome_lookup cached fun ip missing first => assigned _ _ ip here missing first
    · cases called
  | purged p more =>
    simp only [run] at called
    split at called
    · rename_i here
      cases called
      exact outcome_purged cached fun ip first => assigned _ _ ip here first
    · cases called
  | paged p err =>
    simp only [run] at called
    split at called
    · rename_i dev ino ip here
      cases called
      have holding := sound.held p ip (by rw [here]; rfl)
      refine ⟨_, rfl, ?_⟩
      have pages : Cached nInode hash (s.table.set ip fun i => { i with vPages := i.vPages && err }) :=
        cached.set holding.iref (fun _ => ⟨rfl, rfl, rfl⟩) fun _ => ⟨rfl, rfl⟩
      have still : Holding nInode (s.table.set ip fun i => { i with vPages := i.vPages && err }) p ip := by
        obtain ⟨known, iref, ilocked, iOwner, iCount, vCount⟩ := holding
        refine ⟨known, ?_, ?_, ?_, ?_, ?_⟩
        all_goals
          rw [set_self]
          assumption
      have settled := (@settled_paged _ _ _ _ _ dev ino err) pages still fun working missing => by
        rw [set_self] at working ⊢
        rw [search_set] at missing
        · exact assigned dev ino ip here working missing
        · exact fun _ => ⟨rfl, rfl⟩
      exact (settled.after set_untouched).outcome fun q other => holding.mine other
    · cases called
  | released p =>
    simp only [run] at called
    split at called
    · rename_i here
      exact absurd here (sound.prompt p _ _ _)
    · cases called
  | read p error dp =>
    simp only [run] at called
    split at called
    · rename_i ip here
      cases called
      have holding := sound.held p ip (by rw [here]; rfl)
      obtain ⟨found, returns, settled⟩ := (@settled_readIn _ _ _ _ _ error dp) cached holding
      exact ⟨found, returns, settled.outcome fun q other => holding.mine other⟩
    · cases called
  | inactivated p =>
    simp only [run] at called
    split at called
    · rename_i ip here
      cases called
      have holding := sound.held p ip (by rw [here]; rfl)
      exact ⟨_, rfl, (settled_iinactiveEnd cached holding).outcome fun q other => holding.mine other⟩
    · cases called
  | iput p ip =>
    simp only [run] at called
    split at called <;> rename_i given
    · cases called
      obtain ⟨unlocked, referred, iCount, ilocked⟩ := holds_iunlock cached given.2
      obtain ⟨found, returns, settled⟩ := (@settled_vnRele _ p _ _ _) unlocked given.2.1 referred iCount ilocked
      exact ⟨found, returns, (settled.after iunlock_untouched).outcome fun q _ => referred_mine given.2.2.1⟩
    · cases called
  | irele p ip =>
    simp only [run] at called
    split at called <;> rename_i given
    · cases called
      obtain ⟨_, known, referred, ilocked, iCount⟩ := given
      obtain ⟨found, returns, settled⟩ := (@settled_vnRele _ p _ _ _) cached known referred iCount ilocked
      exact ⟨found, returns, settled.outcome fun q _ => referred_mine referred⟩
    · cases called
  | idrop p ip =>
    simp only [run] at called
    split at called <;> rename_i given
    · cases called
      exact ⟨_, rfl, (settled_idrop cached given.2).outcome fun q _ => referred_mine given.2.2.1⟩
    · cases called

theorem Sound.step {event : Option Event} (sound : Sound nInode hash s) (assigned : Assigned nInode hash s event)
    (step : Step nInode hash s event t) : Sound nInode hash t := by
  cases event with
  | none =>
    obtain ⟨pc, elsewhere⟩ := step
    refine ⟨elsewhere.cached sound.cached, fun p ip held => ?_, fun p => ?_⟩
    · rw [pc] at held
      exact elsewhere.holding (sound.held p ip held)
    · rw [pc]
      exact sound.prompt p
  | some event =>
    obtain ⟨p, result, called, next⟩ := step
    obtain ⟨found, rfl, outcome⟩ := sound.outcome assigned called
    rw [next found.1 found.2 rfl]
    exact outcome.sound sound

theorem Started.sound (started : Started nInode hash s) : Sound nInode hash s := by
  obtain ⟨idle, cached⟩ := started
  refine ⟨cached, fun p ip held => ?_, fun p => ?_⟩
  · rw [idle p] at held
    cases held
  · rw [idle p]
    exact nofun

/-! ## Initialisation -/

/-- The loop of `ihinit` has come to inode `k`. -/
structure Fresh (k : Nat) (c : Table) : Prop where
  free : FreeList c (List.range k)
  forw : ∀ node, c.forw node = node
  back : ∀ node, c.back node = node
  unused : ∀ ip, (c.inode ip).iref = false ∧ (c.inode ip).vCount = 0 ∧ (c.inode ip).iCount = 0
  zeroed : ∀ ip, k ≤ ip → (c.inode ip).iFreef = none

theorem Fresh.next {k : Nat} (fresh : Fresh k c) : Fresh (k + 1) (ihinitNext c k) := by
  have absent : k ∉ List.range k := by simp
  have tail : c.ifreet.owner = (List.range k).getLast? := fresh.free.doubly.last_eq
  have notTail : c.ifreet ≠ .freef k := fun same => absent (List.mem_of_getLast? (tail.symm.trans (owner_some.mpr same)))
  have first : (ihinitNext c k).ifreeh = if c.ifreet = .ifreeh then some k else c.ifreeh := by
    rw [ihinitNext]
    cases c.ifreet <;> simp [Table.set]
  have inode (j : Nat) : (ihinitNext c k).inode j = { c.inode j with
      iFreef := if j = k then none else if c.ifreet = .freef j then some k else (c.inode j).iFreef
      iFreeb := if j = k then some c.ifreet else (c.inode j).iFreeb } := by
    have none := fresh.zeroed k (Nat.le_refl k)
    rw [ihinitNext]
    cases link : c.ifreet with
    | ifreeh => by_cases same : j = k <;> simp [Table.set, same, none, link]
    | freef p =>
      have differ : p ≠ k := fun same => notTail (by rw [link, same])
      by_cases same : j = k
      · subst same
        simp [Table.set, Ne.symm differ, none, link]
      · by_cases next : j = p
        · subst next
          simp [Table.set, same]
        · simp [Table.set, same, next, Ne.symm next]
  refine ⟨?_, fun node => ?_, fun node => ?_, fun ip => ?_, fun ip later => ?_⟩
  · rw [List.range_succ]
    exact back_list fresh.free absent first rfl inode
  · rw [ihinitNext]
    cases c.ifreet <;> exact fresh.forw node
  · rw [ihinitNext]
    cases c.ifreet <;> exact fresh.back node
  · rw [inode]
    exact fresh.unused ip
  · have notLast : c.ifreet ≠ .freef ip := fun same => by
      have member : ip ∈ List.range k := List.mem_of_getLast? (tail.symm.trans (owner_some.mpr same))
      rw [List.mem_range] at member
      omega
    rw [inode]
    simp [notLast, show ip ≠ k by omega, fresh.zeroed ip (by omega)]

theorem fresh_first : Fresh 1 ihinitFirst := by
  refine ⟨⟨?_, fun ip member => ?_⟩, fun _ => rfl, fun _ => rfl, fun ip => ?_, fun ip later => ?_⟩
  · exact .single rfl rfl
  · simp only [List.range_one, List.mem_singleton] at member
    subst member
    simp
  · simp only [ihinitFirst]
    split <;> exact ⟨rfl, rfl, rfl⟩
  · rw [ihinitFirst]
    simp [show ip ≠ 0 by omega, Cache.zeroed]

theorem fresh_loop (m : Nat) : Fresh (m + 1) ((List.range' 1 m).foldl ihinitNext ihinitFirst) := by
  induction m with
  | zero => exact fresh_first
  | succ m ih =>
    rw [List.range'_1_concat, List.foldl_append, Nat.add_comm 1 m]
    exact ih.next

theorem ihinit_cached (positive : 0 < nInode) : Cached nInode hash (ihinit nInode) := by
  obtain ⟨m, rfl⟩ := Nat.exists_eq_add_one.mpr positive
  have fresh : Fresh (m + 1) (ihinit (m + 1)) := fresh_loop m
  refine ⟨⟨_, fresh.free, fun ip => ?_⟩, ⟨fun _ => [], ?_⟩, fun ip iref => used iref (fresh.unused ip).1, fun ip _ =>
    (fresh.unused ip).2⟩
  · simp [(fresh.unused ip).1]
  · exact ⟨fun h => Ring.empty (fresh.forw _) (fresh.back _), nofun, nofun, nofun,
      fun ip _ _ => ⟨fresh.forw _, fresh.back _⟩, nofun⟩

end

/-! ## Runs -/

/-- After `ihinit`, before any call. -/
def booted (nInode : Nat) : System := ⟨ihinit nInode, fun _ => .idle⟩

/-- In every run from `ihinit`, or from any cache in order, whose steps meet the condition, the
lists are in order and every call gives a result. -/
theorem cache_tidy (nInode : Nat) (hash : Nat → Nat → Nat) (positive : 0 < nInode) : Started nInode hash (booted nInode) ∧
    ∀ s, Reaches (Started nInode hash) (Step nInode hash) (Assigned nInode hash) s → Tidy nInode hash s.table ∧
      ∀ event p, Assigned nInode hash s (some event) → run nInode hash event s ≠ some (p, none) := by
  refine ⟨⟨fun _ => rfl, ihinit_cached positive⟩, fun s reached => ?_⟩
  have sound : Sound nInode hash s := by
    induction reached with
    | start started => exact started.sound
    | next _ step assigned ih => exact ih.step assigned step
  refine ⟨sound.cached.tidy, fun event p assigned called => ?_⟩
  obtain ⟨_, found, _⟩ := sound.outcome assigned called
  cases found

/-- The first `ufs_iget` after `ihinit` reads `iq` before it is assigned. -/
theorem iget_unassigned : ∃ s, Reaches (· = booted 1) (Step 1 inohash) (fun _ _ => True) s ∧
    run 1 inohash (.lookup 0) s = some (0, none) := by
  refine ⟨⟨ihinit 1, update (booted 1).pc 0 (.lookup 1 2)⟩, ?_, rfl⟩
  have step : Step 1 inohash (booted 1) (some (.iget 0 1 2)) ⟨ihinit 1, update (booted 1).pc 0 (.lookup 1 2)⟩ := by
    refine ⟨0, _, rfl, ?_⟩
    rintro pc c ⟨⟩
    rfl
  exact .next (.start rfl) step trivial

/-- A cache of one inode that is free, and still has the pages of a file. -/
def warmed : System where
  table :=
    { ihinitFirst with inode := fun ip => { ihinitFirst.inode ip with iMode := 32768, iNlink := 1, iFs := true, vPages := true } }
  pc _ := .idle

def goOn (event : Event) (s : System) : System :=
  match run 1 inohash event s with
  | some (p, some (pc, c)) => ⟨c, update s.pc p pc⟩
  | _ => s

/-- The inode is used again for another file. -/
theorem cache_tidy_reused : 0 < 1 ∧ Tidy 1 inohash
    (goOn (.read 0 false ⟨32768, 1, false, false⟩) (goOn (.paged 0 false) (goOn (.lookup 0) (goOn (.iget 0 1 2) warmed)))).table := by
  refine ⟨by decide, ((cache_tidy 1 inohash (by decide)).2 _ ?_).1⟩
  have started : Started 1 inohash warmed := by
    refine ⟨fun _ => rfl, ⟨[0], ⟨.single rfl rfl, by simp [warmed]⟩, fun ip => ?_⟩, ⟨fun _ => [], ?_⟩,
      fun ip iref => ?_, fun ip _ => ?_⟩
    · by_cases same : ip = 0 <;> simp [warmed, zeroed, same]
    · exact ⟨fun h => Ring.empty rfl rfl, nofun, nofun, nofun, fun ip _ _ => ⟨rfl, rfl⟩, nofun⟩
    · by_cases same : ip = 0 <;> simp [warmed, zeroed, same] at iref
    · by_cases same : ip = 0 <;> simp [warmed, zeroed, same]
  have found : Step 1 inohash warmed (some (.iget 0 1 2)) (goOn (.iget 0 1 2) warmed) :=
    ⟨0, _, rfl, by rintro _ _ ⟨⟩; rfl⟩
  have taken : Step 1 inohash (goOn (.iget 0 1 2) warmed) (some (.lookup 0)) (goOn (.lookup 0) (goOn (.iget 0 1 2) warmed)) :=
    ⟨0, _, rfl, by rintro _ _ ⟨⟩; rfl⟩
  have cleaned : Step 1 inohash (goOn (.lookup 0) (goOn (.iget 0 1 2) warmed)) (some (.paged 0 false))
      (goOn (.paged 0 false) (goOn (.lookup 0) (goOn (.iget 0 1 2) warmed))) :=
    ⟨0, _, rfl, by rintro _ _ ⟨⟩; rfl⟩
  have filled : Step 1 inohash (goOn (.paged 0 false) (goOn (.lookup 0) (goOn (.iget 0 1 2) warmed)))
      (some (.read 0 false ⟨32768, 1, false, false⟩)) (goOn (.read 0 false ⟨32768, 1, false, false⟩)
        (goOn (.paged 0 false) (goOn (.lookup 0) (goOn (.iget 0 1 2) warmed)))) :=
    ⟨0, _, rfl, by rintro _ _ ⟨⟩; rfl⟩
  refine .next (.next (.next (.next (.start started) found trivial) taken ?_) cleaned ?_) filled trivial
  · rintro dev ino ip ⟨⟩ _ ⟨⟩
    exact ⟨⟨by decide, rfl⟩, fun _ => rfl⟩
  · rintro dev ino ip ⟨⟩ _ _
    rfl

end Svr4.Ufs.Cache
