import Svr4.Kernel.Dnlc.Moves

/-! Runs of the name cache: its answers, and the lists of its entries. -/

namespace Svr4.Dnlc

def Step (ncsize : Nat) (s : System) (event : Event) (t : System) : Prop :=
  ∃ answer, run ncsize event s = some (answer, t)

/-- The entry is in the cache. -/
def Cached (ncsize : Nat) (s : System) (i dp : Nat) (name : List Nat) (vp : Nat) (cred : Option Nat) : Prop :=
  i < ncsize ∧ s.hand i = .free ∧ s.cache.ncache i = ⟨some dp, some vp, name, cred⟩

/-- What a call removes. -/
def Task.Covers (dp : Nat) (name : List Nat) (vp : Nat) : Task → Prop
  | .remove device text => device = dp ∧ text = name
  | .purge => True
  | .purgeVp node => node = dp ∨ node = vp
  | .purge1 => False

/-- What is in the cache has been entered, and not removed since. -/
structure Recent (ncsize : Nat) (s : System) : Prop where
  past : ∀ done ∈ s.done, done.2 ≤ s.clock
  entered : ∀ i dp name vp cred, Cached ncsize s i dp name vp cred →
    ⟨dp, name, vp, cred, s.time i⟩ ∈ s.entered ∧ ∀ done ∈ s.done, done.1.Covers dp name vp → done.2 ≤ s.time i

def Single (ncsize : Nat) (s : System) : Prop :=
  ∀ i j dp name vp vp' cred, Cached ncsize s i dp name vp cred → Cached ncsize s j dp name vp' cred → i = j

section
variable {ncsize i ncp dp vp : Nat} {name : List Nat} {cred : Option Nat} {distinct bare : Prop} {s t : System}
  {c : Cache} {memory : Nat → Ncache}

theorem Sound.cached (sound : Sound ncsize s) : ∃ list chain, Listed ncsize (fun i => s.hand i ≠ .free) s.cache list chain ∧
    ∀ i dp name vp cred, Cached ncsize s i dp name vp cred → i ∈ chain (ncHash name dp) ∧ i ∈ list := by
  obtain ⟨list, chain, listed⟩ := sound.listed
  refine ⟨list, chain, listed, fun i dp name vp cred ⟨less, free, entry⟩ => ?_⟩
  have idle : ¬ s.hand i ≠ .free := not_not.mpr free
  obtain ⟨h, on⟩ := listed.keyed i less idle (by simp [entry])
  obtain ⟨_, _, dp', _, device, _, place⟩ := listed.known h i on
  rw [entry] at device place
  cases device
  exact ⟨place ▸ on, (listed.members i).mpr ⟨less, idle⟩⟩

theorem Sound.absent (sound : Sound ncsize s) (search : dnlcSearch ncsize s.cache dp name (some cred) = none) :
    ¬ Cached ncsize s i dp name vp cred := by
  intro cached
  obtain ⟨list, chain, listed, on⟩ := sound.cached
  rw [listed.search_eq, List.find?_eq_none] at search
  have differ := search i (on _ _ _ _ _ cached).1
  simp [named, cached.2.2] at differ

/-- A call that finds nothing more has removed what it is to remove. -/
theorem Sound.found (sound : Sound ncsize s) {task : Task}
    (find : s.cache.doingcache = true → task.find ncsize s.cache = none) (cached : Cached ncsize s i dp name vp cred) :
    ¬ task.Covers dp name vp := by
  intro covers
  obtain ⟨list, chain, listed, on⟩ := sound.cached
  obtain ⟨onChain, onList⟩ := on _ _ _ _ _ cached
  obtain ⟨less, free, entry⟩ := cached
  have search := find (by simp [sound.active, Nat.zero_lt_of_lt less])
  cases task with
  | remove device text =>
    obtain ⟨rfl, rfl⟩ := covers
    have short := sound.phase i
    rw [free, entry] at short
    rw [Task.find, if_neg (Nat.not_lt.mpr (short (by simp))), listed.search_eq, List.find?_eq_none] at search
    have differ := search i onChain
    simp [named, entry] at differ
  | purge =>
    rw [Task.find, List.findSome?_eq_none_iff] at search
    have empty := search (ncHash name dp) (List.mem_range.mpr (Nat.mod_lt _ (by decide)))
    rw [listed.first_eq, List.head?_eq_none_iff] at empty
    rw [empty] at onChain
    cases onChain
  | purgeVp node =>
    rw [Task.find, listed.lru_find, List.find?_eq_none] at search
    have differ := search i onList
    rw [entry] at differ
    rcases covers with rfl | rfl <;> simp at differ
  | purge1 => exact covers

/-! ## What a move does to the entries in the cache -/

/-- Nothing new is in the cache. -/
structure Quiet (ncsize : Nat) (s t : System) : Prop where
  cached : ∀ i dp name vp cred, Cached ncsize t i dp name vp cred → Cached ncsize s i dp name vp cred
  clock : s.clock ≤ t.clock
  time : t.time = s.time
  entered : t.entered = s.entered
  done : t.done = s.done

theorem Quiet.busy {hand : Hand} (busy : hand ≠ .free) (ncache : ∀ i, i ≠ ncp → c.ncache i = s.cache.ncache i) :
    Quiet ncsize s (setHand ncp hand c s) := by
  refine ⟨fun i dp name vp cred ⟨less, free, entry⟩ => ?_, Nat.le_refl _, rfl, rfl, rfl⟩
  have differ : i ≠ ncp := by
    rintro rfl
    simp only [setHand, Function.update_self] at free
    exact busy free
  simp only [setHand, Function.update_of_ne differ] at free entry
  exact ⟨less, free, ncache i differ ▸ entry⟩

/-- The entry comes into the cache. -/
structure Filled (ncsize : Nat) (distinct : Prop) (s : System) (ncp dp : Nat) (name : List Nat) (vp : Nat) (cred : Option Nat)
    (t : System) : Prop where
  search : distinct → dnlcSearch ncsize s.cache dp name (some cred) = none
  other : ∀ i, i ≠ ncp → ∀ dp name vp cred, Cached ncsize t i dp name vp cred → Cached ncsize s i dp name vp cred
  own : t.cache.ncache ncp = ⟨some dp, some vp, name, cred⟩
  clock : t.clock = s.clock
  time : t.time = Function.update s.time ncp s.clock
  entered : t.entered = ⟨dp, name, vp, cred, s.clock⟩ :: s.entered
  done : t.done = s.done

theorem filled (ncache : c.ncache = s.cache.ncache)
    (search : distinct → dnlcSearch ncsize s.cache dp name (some cred) = none) :
    Filled ncsize distinct s ncp dp name vp cred (fill dp name vp cred ncp c s) := by
  refine ⟨search, fun i differ device text node credential ⟨less, free, entry⟩ => ?_, ?_, rfl, rfl, rfl, rfl⟩
  · simp only [fill, setHand, enterFill_ncache, Function.update_of_ne differ, ncache] at free entry
    exact ⟨less, free, entry⟩
  · simp [fill, setHand, enterFill_ncache]

theorem Move.cached (move : Move ncsize distinct bare s t) : Quiet ncsize s t ∨
    (∃ task begun, t = { s with done := (task, begun) :: s.done } ∧ begun ≤ s.clock ∧
      (task ≠ .purge1 → s.cache.doingcache = true → task.find ncsize s.cache = none)) ∨
    ∃ ncp dp name vp cred, Filled ncsize distinct s ncp dp name vp cred t := by
  cases move with
  | lookup dp name cred =>
    refine .inl ⟨fun i dp name vp cred ⟨less, free, entry⟩ => ⟨less, free, ?_⟩, Nat.le_refl _, rfl, rfl, rfl⟩
    exact lookup_keeps.2.1 ▸ entry
  | done before find => exact .inr (.inl ⟨_, _, rfl, before, find⟩)
  | takeEnter => exact .inl (.busy (by simp) fun _ _ => rfl)
  | takeRm => exact .inl (.busy (by simp) fun _ _ => rfl)
  | enterNext => exact .inl (.busy (by simp) fun _ _ => rfl)
  | fillLate _ search => exact .inr (.inr ⟨_, _, _, _, _, filled rfl search⟩)
  | fillNow _ _ _ _ search => exact .inr (.inr ⟨_, _, _, _, _, filled rfl fun _ => search⟩)
  | rmNext => exact .inl (.busy (by simp) fun i differ => by rw [vnRele_ncache, set_other differ])
  | @rmEnd ncp task begun hand =>
    refine .inl ⟨fun i dp name vp cred ⟨less, free, entry⟩ => ?_, Nat.le_refl _, rfl, rfl, rfl⟩
    have differ : i ≠ ncp := by
      rintro rfl
      simp [setHand, dnlcRmEnd_ncache] at entry
    simp only [setHand, dnlcRmEnd_ncache, Function.update_of_ne differ] at free entry
    exact ⟨less, free, entry⟩
  | tick => exact .inl ⟨fun _ _ _ _ _ cached => cached, Nat.le_succ _, rfl, rfl, rfl⟩

theorem Move.recent (move : Move ncsize distinct bare s t) (sound : Sound ncsize s) (recent : Recent ncsize s) :
    Recent ncsize t := by
  obtain ⟨past, entered⟩ := recent
  rcases move.cached with quiet | ⟨task, begun, rfl, before, find⟩ | ⟨ncp, dp, name, vp, cred, fill⟩
  · refine ⟨fun done member => ?_, fun i dp name vp cred cached => ?_⟩
    · rw [quiet.done] at member
      exact Nat.le_trans (past done member) quiet.clock
    · rw [quiet.entered, quiet.done, quiet.time]
      exact entered i dp name vp cred (quiet.cached _ _ _ _ _ cached)
  · refine ⟨fun done member => ?_, fun i dp name vp cred cached => ?_⟩
    · rcases List.mem_cons.mp member with rfl | there
      · exact before
      · exact past done there
    · have known : Cached ncsize s i dp name vp cred := cached
      obtain ⟨logged, kept⟩ := entered i dp name vp cred known
      refine ⟨logged, fun done member covers => ?_⟩
      rcases List.mem_cons.mp member with rfl | there
      · have other : task ≠ .purge1 := by
          rintro rfl
          exact covers
        exact absurd covers (sound.found (find other) known)
      · exact kept done there covers
  · refine ⟨fun done member => ?_, fun i device text node credential cached => ?_⟩
    · rw [fill.done] at member
      rw [fill.clock]
      exact past done member
    · rw [fill.entered, fill.done, fill.time]
      by_cases same : i = ncp
      · subst same
        rw [Function.update_self]
        have entry := cached.2.2
        rw [fill.own] at entry
        cases entry
        exact ⟨(.head _), fun done member _ => past done member⟩
      · rw [Function.update_of_ne same]
        obtain ⟨logged, kept⟩ := entered i device text node credential (fill.other i same _ _ _ _ cached)
        exact ⟨.tail _ logged, kept⟩

theorem Move.single (move : Move ncsize True bare s t) (sound : Sound ncsize s) (single : Single ncsize s) : Single ncsize t := by
  intro i j dp name vp vp' cred here there
  rcases move.cached with quiet | ⟨task, begun, rfl, before, find⟩ | ⟨ncp, device, text, node, credential, fill⟩
  · exact single i j dp name vp vp' cred (quiet.cached _ _ _ _ _ here) (quiet.cached _ _ _ _ _ there)
  · exact single i j dp name vp vp' cred here there
  · have absent {k node' : Nat} : ¬ Cached ncsize s k device text node' credential := sound.absent (fill.search trivial)
    by_cases first : i = ncp <;> by_cases second : j = ncp
    · rw [first, second]
    · subst first
      have entry := here.2.2
      rw [fill.own] at entry
      cases entry
      exact absurd (fill.other j second _ _ _ _ there) absent
    · subst second
      have entry := there.2.2
      rw [fill.own] at entry
      cases entry
      exact absurd (fill.other i first _ _ _ _ here) absent
    · exact single i j dp name vp vp' cred (fill.other i first _ _ _ _ here) (fill.other j second _ _ _ _ there)

/-! ## Runs -/

/-- The cache after the first `n` entries have been put on the LRU list. -/
def initTo (ncsize n : Nat) (memory : Nat → Ncache) : Cache :=
  (List.range n).foldl (fun c i => nullHash i (ncInslru i .lru c)) (emptyCache ncsize memory)

theorem initTo_succ (n : Nat) (memory : Nat → Ncache) :
    initTo ncsize (n + 1) memory = nullHash n (ncInslru n .lru (initTo ncsize n memory)) := by
  rw [initTo, List.range_succ, List.foldl_append]
  rfl

theorem initTo_keeps (n : Nat) (memory : Nat → Ncache) :
    (initTo ncsize n memory).doingcache = decide (0 < ncsize) ∧
      (initTo ncsize n memory).ncache = (emptyCache ncsize memory).ncache ∧
      (initTo ncsize n memory).vnHolds = (fun _ => 0) ∧ (initTo ncsize n memory).crHolds = (fun _ => 0) := by
  induction n with
  | zero => exact ⟨rfl, rfl, rfl, rfl⟩
  | succ n ih =>
    rw [initTo_succ]
    exact ih

theorem initTo_listed (n : Nat) (memory : Nat → Ncache) (most : n ≤ ncsize) :
    ∃ list, Listed ncsize (fun i => n ≤ i) (initTo ncsize n memory) list fun _ => [] := by
  induction n with
  | zero =>
    refine ⟨[], Ring.empty rfl rfl, ⟨fun h => Ring.empty rfl rfl, fun h h' differ a => ?_⟩, fun i => ?_, nofun, fun i _ idle => ?_,
      fun i _ idle => ?_⟩
    · simp only [List.map_nil, List.mem_singleton]
      rintro rfl same
      exact differ (HashNode.bucket.inj same)
    · simp
    · exact absurd (Nat.zero_le i) idle
    · exact absurd (Nat.zero_le i) idle
  | succ n ih =>
    obtain ⟨list, listed⟩ := ih (Nat.le_of_succ_le most)
    rw [initTo_succ]
    have empty : ((initTo ncsize n memory).ncache n).dp = none ∧ ((initTo ncsize n memory).ncache n).vp = none := by
      rw [(initTo_keeps n memory).2.1]
      exact ⟨rfl, rfl⟩
    refine ⟨n :: list, listed.front most (Nat.le_refl n) empty fun i => ?_⟩
    omega

theorem init_sound (ncsize : Nat) (memory : Nat → Ncache) : Sound ncsize (dnlcInit ncsize memory) := by
  obtain ⟨list, listed⟩ := initTo_listed ncsize memory (Nat.le_refl ncsize)
  obtain ⟨lru, chains, members, known, keyed, blank⟩ := listed
  have keeps := (@initTo_keeps ncsize) ncsize memory
  refine ⟨keeps.1, ⟨list, fun _ => [], lru, chains, fun i => ?_, nofun, fun i less _ => ?_, fun i less _ => ?_⟩, fun i busy => ?_, fun i => ?_⟩
  · rw [members]
    simp [dnlcInit]
  · exact keyed i less (Nat.not_le.mpr less)
  · exact blank i less (Nat.not_le.mpr less)
  · exact absurd rfl busy
  · intro live
    refine absurd ?_ live
    show ((initTo ncsize ncsize memory).ncache i).dp = none
    rw [keeps.2.1]
    rfl

theorem init_empty (memory : Nat → Ncache) : ¬ Cached ncsize (dnlcInit ncsize memory) i dp name vp cred := by
  rintro ⟨_, _, entry⟩
  have blank : (initTo ncsize ncsize memory).ncache i = { memory i with dp := none, vp := none } := by
    rw [(initTo_keeps ncsize memory).2.1]
    rfl
  have same : (initTo ncsize ncsize memory).ncache i = ⟨some dp, some vp, name, cred⟩ := entry
  rw [blank] at same
  cases same

theorem Step.moves {event : Event} (step : Step ncsize s event t) (sound : Sound ncsize s)
    (clear : distinct → Clear ncsize s event) (owned : bare → Bare ncsize s event) : Moves ncsize distinct bare s t := by
  obtain ⟨answer, result⟩ := step
  obtain ⟨answer', t', result', moves⟩ := run_moves sound event clear owned
  rw [result] at result'
  cases result'
  exact moves

theorem reached_sound
    (reached : Reaches (· = dnlcInit ncsize memory) (Step ncsize) (fun _ _ => True) s) : Sound ncsize s ∧ Recent ncsize s := by
  induction reached with
  | start first =>
    subst first
    exact ⟨init_sound ncsize memory, nofun, fun _ _ _ _ _ cached => absurd cached (init_empty memory)⟩
  | next _ step _ ih =>
    obtain ⟨sound, recent⟩ := ih
    have moves := (@Step.moves _ False False _ _ _) step sound nofun nofun
    clear step
    induction moves with
    | refl => exact ⟨sound, recent⟩
    | tail _ move ih => exact ⟨move.sound ih.1, move.recent ih.1 ih.2⟩

theorem reached_single
    (reached : Reaches (· = dnlcInit ncsize memory) (Step ncsize) (Clear ncsize) s) : Single ncsize s := by
  induction reached with
  | start first =>
    subst first
    exact fun _ _ _ _ _ _ _ here => absurd here (init_empty memory)
  | next before step allowed ih =>
    have sound := (reached_sound (before.weaken fun _ _ _ => trivial)).1
    have moves := (@Step.moves _ True False _ _ _) step sound (fun _ => allowed) nofun
    clear step
    induction moves with
    | refl => exact ih
    | tail earlier move single => exact move.single (Moves.sound earlier sound) single

/-- The entries are on their lists. -/
structure Lists (ncsize : Nat) (s : System) (list : List Nat) (chain : Nat → List Nat) : Prop where
  lru : Lru s.cache list
  chains : Chains s.cache chain
  once : ∀ i < ncsize, s.hand i = .free → list.count i = 1
  keyed : ∀ i < ncsize, s.hand i = .free → ∀ dp, (s.cache.ncache i).dp = some dp →
    ∀ h, (chain h).count i = if h = ncHash (s.cache.ncache i).name dp then 1 else 0

theorem Sound.lists (sound : Sound ncsize s) : ∃ list chain, Lists ncsize s list chain := by
  obtain ⟨list, chain, listed⟩ := sound.listed
  refine ⟨list, chain, listed.lru, listed.chains, fun i less free => ?_, fun i less free dp device h => ?_⟩
  · exact List.count_eq_one_of_mem listed.lru.nodup ((listed.members i).mpr ⟨less, not_not.mpr free⟩)
  · obtain ⟨k, on⟩ := listed.keyed i less (not_not.mpr free) (by simp [device])
    obtain ⟨_, _, dp', _, device', _, place⟩ := listed.known k i on
    rw [device] at device'
    cases device'
    rw [place]
    split <;> rename_i same
    · rw [same]
      exact List.count_eq_one_of_mem listed.chains.nodup on
    · exact List.count_eq_zero_of_not_mem fun there => same (listed.chains.unique there on)

end

/-- Where each call that goes on with `dnlc_enter` finds its key still absent, the cache gives no
stale answer, has each key once, and has its entries on their lists. -/
theorem cache_answers (ncsize : Nat) (memory : Nat → Ncache) (s : System)
    (reached : Reaches (· = dnlcInit ncsize memory) (Step ncsize) (Clear ncsize) s) :
    (∀ event, run ncsize event s ≠ none) ∧
      (∀ dp name cred vp t, run ncsize (.lookup dp name cred) s = some (some vp, t) →
        ∃ time, ⟨dp, name, vp, cred, time⟩ ∈ s.entered ∧ ∀ done ∈ s.done, done.1.Covers dp name vp → done.2 ≤ time) ∧
      (∀ i j dp name vp vp' cred, Cached ncsize s i dp name vp cred → Cached ncsize s j dp name vp' cred → i = j) ∧
      ∃ list chain, Lists ncsize s list chain := by
  obtain ⟨sound, recent⟩ := reached_sound (reached.weaken fun _ _ _ => trivial)
  refine ⟨fun event none => ?_, fun dp name cred vp t answer => ?_, reached_single reached, sound.lists⟩
  · obtain ⟨answer, t, result, _⟩ := (@run_moves _ False False _) sound event nofun nofun
    rw [none] at result
    cases result
  · obtain ⟨list, chain, listed⟩ := sound.listed
    have given : (dnlcLookup ncsize dp name cred s.cache).1 = some vp := by
      have pair : some ((dnlcLookup ncsize dp name cred s.cache).1, _) = some (some vp, t) := answer
      exact (Prod.mk.inj (Option.some.inj pair)).1
    obtain ⟨i, h, on, entry⟩ := lookup_answer listed given
    obtain ⟨less, idle, _⟩ := listed.known h i on
    exact ⟨s.time i, recent.entered i dp name vp cred ⟨less, not_not.mp idle, entry⟩⟩

/-- The state after an event. -/
def next (ncsize : Nat) (s : System) (event : Event) : System := ((run ncsize event s).map Prod.snd).getD s

theorem next_reaches {ncsize : Nat} {memory : Nat → Ncache} {s : System} {guard : System → Event → Prop} (event : Event)
    (reached : Reaches (· = dnlcInit ncsize memory) (Step ncsize) guard s) (allowed : guard s event) :
    Reaches (· = dnlcInit ncsize memory) (Step ncsize) guard (next ncsize s event) := by
  have sound := (reached_sound (reached.weaken fun _ _ _ => trivial)).1
  obtain ⟨answer, t, result, _⟩ := (@run_moves _ False False _) sound event nofun nofun
  rw [next, result]
  exact .next reached ⟨answer, result⟩ allowed

theorem nexts_reach {ncsize : Nat} {memory : Nat → Ncache} {s : System} {events : List Event}
    (reached : Reaches (· = dnlcInit ncsize memory) (Step ncsize) (fun _ _ => True) s) :
    Reaches (· = dnlcInit ncsize memory) (Step ncsize) (fun _ _ => True) (events.foldl (next ncsize) s) := by
  induction events generalizing s with
  | nil => exact reached
  | cons event events ih => exact ih (next_reaches event reached trivial)

/-- A cache of two entries. -/
def small : System := dnlcInit 2 fun _ => ⟨none, none, [], none⟩

/-- A name that has been entered is found. -/
theorem cache_answers_found : ∃ s t, Reaches (· = small) (Step 2) (Clear 2) s ∧
    run 2 (.lookup 1 [97] none) s = some (some 5, t) ∧ ∃ time, ⟨1, [97], 5, none, time⟩ ∈ s.entered := by
  have reached : Reaches (· = small) (Step 2) (Clear 2) (next 2 small (.enter 1 [97] 5 none)) :=
    next_reaches _ (.start rfl) nofun
  have found := (cache_answers 2 _ _ reached).2.1 1 [97] none 5 _ rfl
  exact ⟨_, _, reached, rfl, found.imp fun _ both => both.1⟩

/-- Two calls enter one name, both of which sleep before they put their entry on the chain. -/
theorem entered_twice : ∃ s, Reaches (· = small) (Step 2) (fun _ _ => True) s ∧
    ¬ ∀ i j dp name vp vp' cred, Cached 2 s i dp name vp cred → Cached 2 s j dp name vp' cred → i = j := by
  refine ⟨_, (@nexts_reach _ _ _ [.enter 1 [97] 5 none, .enter 1 [98] 6 none, .enter 1 [99] 7 none, .enter 1 [99] 7 none,
    .resume 1, .resume 1, .resume 0, .resume 0]) (.start rfl), fun single => ?_⟩
  cases single 0 1 1 [99] 7 7 none ⟨by decide, rfl, rfl⟩ ⟨by decide, rfl, rfl⟩

end Svr4.Dnlc
