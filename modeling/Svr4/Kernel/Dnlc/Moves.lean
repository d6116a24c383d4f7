import Svr4.Kernel.Dnlc.Entries

/-! What a call on the name cache does between two sleeps.

An event is a sequence of moves, each of which changes one entry. The invariants are kept by
the moves.
-/

namespace Svr4.Dnlc

open Function (update update_of_ne update_self)

/-- What a call that sleeps with the entry in its hands goes on with. -/
def Phase (clock : Nat) (e : Ncache) : Hand → Prop
  | .free => e.dp ≠ none → e.name.length ≤ ncNamlen
  | .enterDp _ name _ _ => name.length ≤ ncNamlen ∧ e.vp ≠ none
  | .enterVp _ name _ _ => name.length ≤ ncNamlen
  | .rmDp _ begun => begun ≤ clock ∧ e.vp ≠ none
  | .rmVp _ begun => begun ≤ clock ∧ e.dp = none

structure Sound (ncsize : Nat) (s : System) : Prop where
  active : s.cache.doingcache = decide (0 < ncsize)
  listed : ∃ list chain, Listed ncsize (fun i => s.hand i ≠ .free) s.cache list chain
  hands : ∀ i, s.hand i ≠ .free → i < ncsize
  phase : ∀ i, Phase s.clock (s.cache.ncache i) (s.hand i)

/-- A move of a call. Where `distinct` is asked for, a call that has slept does not enter a key
that has come in meanwhile; where `bare` is, `dnlc_enter` takes entries with NOCRED only. -/
inductive Move (ncsize : Nat) (distinct bare : Prop) (s : System) : System → Prop where
  | lookup (dp : Nat) (name : List Nat) (cred : Option Nat) :
      Move ncsize distinct bare s { s with cache := (dnlcLookup ncsize dp name cred s.cache).2 }
  | done {task : Task} {begun : Nat} : begun ≤ s.clock →
      (task ≠ .purge1 → s.cache.doingcache = true → task.find ncsize s.cache = none) →
      Move ncsize distinct bare s { s with done := (task, begun) :: s.done }
  | takeEnter {ncp old : Nat} {dp : Nat} {name : List Nat} {vp : Nat} {cred : Option Nat} : ncp < ncsize → s.hand ncp = .free →
      (s.cache.ncache ncp).dp = some old → name.length ≤ ncNamlen → (bare → (s.cache.ncache ncp).cred = none) →
      Move ncsize distinct bare s (setHand ncp (.enterDp dp name vp cred) (vnRele old (ncRmhash ncp (ncRmlru ncp s.cache))) s)
  | takeRm {ncp old : Nat} {task : Task} {begun : Nat} : ncp < ncsize → s.hand ncp = .free →
      (s.cache.ncache ncp).dp = some old → begun ≤ s.clock →
      Move ncsize distinct bare s (setHand ncp (.rmDp task begun) (vnRele old (ncRmhash ncp (ncRmlru ncp s.cache))) s)
  | enterNext {ncp old : Nat} {dp : Nat} {name : List Nat} {vp : Nat} {cred : Option Nat} :
      s.hand ncp = .enterDp dp name vp cred → (s.cache.ncache ncp).vp = some old →
      Move ncsize distinct bare s (setHand ncp (.enterVp dp name vp cred) (vnRele old s.cache) s)
  | fillLate {ncp : Nat} {dp : Nat} {name : List Nat} {vp : Nat} {cred : Option Nat} : s.hand ncp = .enterVp dp name vp cred →
      (distinct → dnlcSearch ncsize s.cache dp name (some cred) = none) →
      Move ncsize distinct bare s (fill dp name vp cred ncp s.cache s)
  | fillNow {ncp : Nat} {dp : Nat} {name : List Nat} {vp : Nat} {cred : Option Nat} : ncp < ncsize → s.hand ncp = .free →
      (s.cache.ncache ncp).dp = none → name.length ≤ ncNamlen → dnlcSearch ncsize s.cache dp name (some cred) = none →
      Move ncsize distinct bare s (fill dp name vp cred ncp (ncRmhash ncp (ncRmlru ncp s.cache)) s)
  | rmNext {ncp old : Nat} {task : Task} {begun : Nat} : s.hand ncp = .rmDp task begun → (s.cache.ncache ncp).vp = some old →
      Move ncsize distinct bare s
        (setHand ncp (.rmVp task begun) (vnRele old (set ncp (fun e => { e with dp := none }) s.cache)) s)
  | rmEnd {ncp : Nat} {task : Task} {begun : Nat} : s.hand ncp = .rmVp task begun →
      Move ncsize distinct bare s (setHand ncp .free (dnlcRmEnd ncp s.cache) s)
  | tick : Move ncsize distinct bare s { s with clock := s.clock + 1 }

section
variable {ncsize ncp : Nat} {distinct bare : Prop} {s t : System} {vp dp : Nat} {c : Cache} {name : List Nat}
  {cred : Option Nat} {hand : Hand}

/-! ## What the moves leave -/

theorem vnRele_ncache : (vnRele vp c).ncache = c.ncache := rfl

theorem lookup_keeps :
    (dnlcLookup ncsize dp name cred c).2.doingcache = c.doingcache ∧
      (dnlcLookup ncsize dp name cred c).2.ncache = c.ncache ∧
      (dnlcLookup ncsize dp name cred c).2.vnHolds = c.vnHolds ∧
      (dnlcLookup ncsize dp name cred c).2.crHolds = c.crHolds := by
  rw [dnlcLookup]
  split
  · exact ⟨rfl, rfl, rfl, rfl⟩
  · cases dnlcSearch ncsize c dp name (some cred) with
    | none => exact ⟨rfl, rfl, rfl, rfl⟩
    | some ncp =>
      dsimp only
      split <;> exact ⟨rfl, rfl, rfl, rfl⟩

theorem enterFill_doingcache :
    (enterFill dp name vp cred ncp c).doingcache = c.doingcache := by
  cases cred <;> rfl

theorem enterFill_ncache :
    (enterFill dp name vp cred ncp c).ncache = update c.ncache ncp ⟨some dp, some vp, name, cred⟩ := by
  cases cred <;> rfl

theorem dnlcRmEnd_doingcache : (dnlcRmEnd ncp c).doingcache = c.doingcache := by
  rw [dnlcRmEnd]
  cases (c.ncache ncp).cred <;> rfl

theorem dnlcRmEnd_ncache :
    (dnlcRmEnd ncp c).ncache = update c.ncache ncp { c.ncache ncp with vp := none, cred := none } := by
  rw [dnlcRmEnd]
  cases (c.ncache ncp).cred <;> rfl

/-! ## The invariant -/

theorem Sound.keyed (sound : Sound ncsize s) (less : ncp < ncsize) (free : s.hand ncp = .free)
    (keyed : (s.cache.ncache ncp).dp = some dp) : (s.cache.ncache ncp).vp ≠ none := by
  obtain ⟨list, chain, listed⟩ := sound.listed
  obtain ⟨h, on⟩ := listed.keyed ncp less (not_not.mpr free) (by simp [keyed])
  obtain ⟨_, _, _, vp, _, some, _⟩ := listed.known h ncp on
  simp [some]

theorem Sound.take (sound : Sound ncsize s) (less : ncp < ncsize) (free : s.hand ncp = .free)
    (busy : hand ≠ .free) (phase : Phase s.clock (s.cache.ncache ncp) hand)
    (same : c.doingcache = s.cache.doingcache ∧ c.ncache = s.cache.ncache ∧
      c.hashNext = (ncRmhash ncp (ncRmlru ncp s.cache)).hashNext ∧ c.hashPrev = (ncRmhash ncp (ncRmlru ncp s.cache)).hashPrev ∧
      c.lruNext = (ncRmlru ncp s.cache).lruNext ∧ c.lruPrev = (ncRmlru ncp s.cache).lruPrev) :
    Sound ncsize (setHand ncp hand c s) := by
  obtain ⟨active, ⟨list, chain, listed⟩, hands, phases⟩ := sound
  obtain ⟨doing, ncache, hashNext, hashPrev, lruNext, lruPrev⟩ := same
  obtain ⟨list', chain', taken⟩ := listed.take less (not_not.mpr free)
  have held : (fun i => update s.hand ncp hand i ≠ .free) = fun i => s.hand i ≠ .free ∨ i = ncp := by
    funext i
    by_cases equal : i = ncp
    · subst equal
      simp [busy]
    · simp [equal]
  refine ⟨doing.trans active, ⟨list', chain', ?_⟩, fun i other => ?_, fun i => ?_⟩
  · show Listed ncsize (fun i => update s.hand ncp hand i ≠ .free) c list' chain'
    rw [held]
    exact taken.congr (fun i _ => congrFun ncache i) hashNext hashPrev lruNext lruPrev
  · by_cases equal : i = ncp
    · exact equal ▸ less
    · simp only [setHand, update_of_ne equal] at other
      exact hands i other
  · show Phase s.clock (c.ncache i) (update s.hand ncp hand i)
    rw [ncache]
    by_cases equal : i = ncp
    · subst equal
      rw [update_self]
      exact phase
    · rw [update_of_ne equal]
      exact phases i

theorem Sound.keep (sound : Sound ncsize s) (holding : s.hand ncp ≠ .free) (busy : hand ≠ .free)
    (phase : Phase s.clock (c.ncache ncp) hand) (ncache : ∀ i, i ≠ ncp → c.ncache i = s.cache.ncache i)
    (same : c.doingcache = s.cache.doingcache ∧ c.hashNext = s.cache.hashNext ∧ c.hashPrev = s.cache.hashPrev ∧
      c.lruNext = s.cache.lruNext ∧ c.lruPrev = s.cache.lruPrev) : Sound ncsize (setHand ncp hand c s) := by
  obtain ⟨active, ⟨list, chain, listed⟩, hands, phases⟩ := sound
  obtain ⟨doing, hashNext, hashPrev, lruNext, lruPrev⟩ := same
  have held : (fun i => update s.hand ncp hand i ≠ .free) = fun i => s.hand i ≠ .free := by
    funext i
    by_cases equal : i = ncp
    · subst equal
      simp [busy, holding]
    · simp [equal]
  refine ⟨doing.trans active, ⟨list, chain, ?_⟩, fun i other => ?_, fun i => ?_⟩
  · show Listed ncsize (fun i => update s.hand ncp hand i ≠ .free) c list chain
    rw [held]
    refine listed.congr (fun i idle => ncache i fun equal => idle (equal ▸ holding)) hashNext hashPrev lruNext lruPrev
  · exact hands i (iff_of_eq (congrFun held i) |>.mp other)
  · show Phase s.clock (c.ncache i) (update s.hand ncp hand i)
    by_cases equal : i = ncp
    · subst equal
      rw [update_self]
      exact phase
    · rw [update_of_ne equal, ncache i equal]
      exact phases i

theorem released (holding : s.hand ncp ≠ .free) (i : Nat) :
    update s.hand ncp .free i ≠ .free ↔ s.hand i ≠ .free ∧ i ≠ ncp := by
  by_cases equal : i = ncp
  · subst equal
    simp
  · simp [equal]

theorem Sound.put {c : Cache} (sound : Sound ncsize s) (holding : s.hand ncp ≠ .free)
    (ncache : ∀ i, i ≠ ncp → c.ncache i = s.cache.ncache i) (short : Phase s.clock (c.ncache ncp) .free)
    (doing : c.doingcache = s.cache.doingcache)
    (listed : ∃ list chain, Listed ncsize (fun i => update s.hand ncp .free i ≠ .free) c list chain) :
    Sound ncsize (setHand ncp .free c s) := by
  refine ⟨doing.trans sound.active, listed, fun i other => ?_, fun i => ?_⟩
  · exact sound.hands i ((released holding i).mp other).1
  · show Phase s.clock (c.ncache i) (update s.hand ncp .free i)
    by_cases equal : i = ncp
    · subst equal
      rw [update_self]
      exact short
    · rw [update_of_ne equal, ncache i equal]
      exact sound.phase i

theorem Sound.fill (sound : Sound ncsize s)
    (holding : s.hand ncp ≠ .free) (short : name.length ≤ ncNamlen) : Sound ncsize (fill dp name vp cred ncp s.cache s) := by
  obtain ⟨list, chain, listed⟩ := sound.listed
  have back : Sound ncsize (setHand ncp .free (enterFill dp name vp cred ncp s.cache) s) := by
    refine sound.put holding (fun i differ => ?_) ?_ enterFill_doingcache
      ⟨_, _, listed.fill (sound.hands ncp holding) holding (released holding)⟩
    · rw [enterFill_ncache, update_of_ne differ]
    · rw [enterFill_ncache, update_self]
      exact fun _ => short
  exact ⟨back.active, back.listed, back.hands, back.phase⟩

theorem fill_taken :
    fill dp name vp cred ncp c (setHand ncp hand c s) = fill dp name vp cred ncp c s := by
  simp only [Dnlc.fill, setHand, Function.update_idem]

theorem Move.sound (move : Move ncsize distinct bare s t) (sound : Sound ncsize s) : Sound ncsize t := by
  cases move with
  | lookup dp name cred =>
    obtain ⟨list, chain, listed⟩ := sound.listed
    obtain ⟨list', chain', listed'⟩ := (@Listed.lookup _ _ _ _ _ dp name cred) listed
    refine ⟨lookup_keeps.1.trans sound.active, ⟨list', chain', listed'⟩, sound.hands, fun i => ?_⟩
    rw [lookup_keeps.2.1]
    exact sound.phase i
  | done _ _ => exact ⟨sound.active, sound.listed, sound.hands, sound.phase⟩
  | takeEnter less free keyed short _ =>
    exact sound.take less free (by simp) ⟨short, sound.keyed less free keyed⟩ ⟨rfl, rfl, rfl, rfl, rfl, rfl⟩
  | takeRm less free keyed begun =>
    exact sound.take less free (by simp) ⟨begun, sound.keyed less free keyed⟩ ⟨rfl, rfl, rfl, rfl, rfl, rfl⟩
  | @enterNext ncp old dp name vp cred hand _ =>
    have phase := sound.phase ncp
    rw [hand] at phase
    exact sound.keep (by simp [hand]) (by simp) phase.1 (fun _ _ => rfl) ⟨rfl, rfl, rfl, rfl, rfl⟩
  | @fillLate ncp dp name vp cred hand _ =>
    have phase := sound.phase ncp
    rw [hand] at phase
    exact sound.fill (by simp [hand]) phase
  | @fillNow ncp dp name vp cred less free _ short _ =>
    have taken : Sound ncsize (setHand ncp (.enterVp dp name vp cred) (ncRmhash ncp (ncRmlru ncp s.cache)) s) :=
      sound.take less free (by simp) short ⟨rfl, rfl, rfl, rfl, rfl, rfl⟩
    rw [← fill_taken]
    exact taken.fill (by simp [setHand]) short
  | @rmNext ncp old task begun hand _ =>
    have phase := sound.phase ncp
    rw [hand] at phase
    refine sound.keep (by simp [hand]) (by simp) ⟨phase.1, ?_⟩ (fun i differ => ?_) ⟨rfl, rfl, rfl, rfl, rfl⟩
    · rw [vnRele_ncache, set_self]
    · rw [vnRele_ncache, set_other differ]
  | @rmEnd ncp task begun hand =>
    have phase := sound.phase ncp
    rw [hand] at phase
    obtain ⟨list, chain, listed⟩ := sound.listed
    have holding : s.hand ncp ≠ .free := by simp [hand]
    refine sound.put holding (fun i differ => ?_) ?_ dnlcRmEnd_doingcache
      ⟨_, _, listed.rmEnd (sound.hands ncp holding) holding phase.2 (released holding)⟩
    · rw [dnlcRmEnd_ncache, update_of_ne differ]
    · rw [dnlcRmEnd_ncache, update_self]
      exact fun keyed => absurd phase.2 keyed
  | tick =>
    refine ⟨sound.active, sound.listed, sound.hands, fun i => ?_⟩
    have phase := sound.phase i
    show Phase (s.clock + 1) (s.cache.ncache i) (s.hand i)
    cases hand : s.hand i with
    | rmDp _ _ =>
      rw [hand] at phase
      exact ⟨Nat.le_succ_of_le phase.1, phase.2⟩
    | rmVp _ _ =>
      rw [hand] at phase
      exact ⟨Nat.le_succ_of_le phase.1, phase.2⟩
    | free => rw [hand] at phase; exact phase
    | enterDp _ _ _ _ => rw [hand] at phase; exact phase
    | enterVp _ _ _ _ => rw [hand] at phase; exact phase

/-! ## The moves of an event -/

abbrev Moves (ncsize : Nat) (distinct bare : Prop) : System → System → Prop :=
  Relation.ReflTransGen (Move ncsize distinct bare)

theorem Moves.sound (moves : Moves ncsize distinct bare s t) (sound : Sound ncsize s) : Sound ncsize t := by
  induction moves with
  | refl => exact sound
  | tail _ move ih => exact move.sound ih

theorem find_keyed {task : Task} (sound : Sound ncsize s) (found : task.find ncsize s.cache = some ncp) :
    ncp < ncsize ∧ s.hand ncp = .free ∧ (s.cache.ncache ncp).dp ≠ none := by
  obtain ⟨list, chain, listed⟩ := sound.listed
  have onChain {h : Nat} (member : ncp ∈ chain h) : ncp < ncsize ∧ s.hand ncp = .free ∧ (s.cache.ncache ncp).dp ≠ none := by
    obtain ⟨less, idle, dp, _, keyed, _⟩ := listed.known h ncp member
    exact ⟨less, not_not.mp idle, by simp [keyed]⟩
  have onList {test : Nat → Bool} (here : scan LruNode.ncp s.cache.lruNext test (ncsize + 1) (s.cache.lruNext .lru) = some ncp) :
      (ncp < ncsize ∧ s.hand ncp = .free) ∧ test ncp = true := by
    rw [listed.lru_find] at here
    obtain ⟨less, idle⟩ := (listed.members ncp).mp (List.mem_of_find?_eq_some here)
    exact ⟨⟨less, not_not.mp idle⟩, List.find?_some here⟩
  cases task with
  | remove dp name =>
    simp only [Task.find] at found
    split at found
    · cases found
    · rw [listed.search_eq] at found
      exact onChain (List.mem_of_find?_eq_some found)
  | purge =>
    obtain ⟨h, _, here⟩ := List.exists_of_findSome?_eq_some found
    rw [listed.first_eq] at here
    exact onChain (List.mem_of_head? here)
  | purgeVp vp =>
    obtain ⟨⟨less, free⟩, test⟩ := onList found
    refine ⟨less, free, fun none => ?_⟩
    obtain ⟨empty, _⟩ := listed.blank ncp less (not_not.mpr free) none
    simp [none, empty] at test
  | purge1 =>
    obtain ⟨⟨less, free⟩, test⟩ := onList found
    exact ⟨less, free, by simpa using test⟩

theorem goOn_moves {task : Task} {begun : Nat} (sound : Sound ncsize s) (before : begun ≤ s.clock) :
    ∃ t, goOn ncsize task begun s = some t ∧ Moves ncsize distinct bare s t ∧ t.clock = s.clock := by
  rw [goOn]
  cases found : (if s.cache.doingcache = true then task.find ncsize s.cache else none) with
  | none =>
    refine ⟨_, rfl, .single (.done before fun _ doing => ?_), rfl⟩
    rw [if_pos doing] at found
    exact found
  | some ncp =>
    split at found
    · obtain ⟨less, free, keyed⟩ := find_keyed sound found
      obtain ⟨dp, device⟩ := Option.ne_none_iff_exists'.mp keyed
      have vnode := sound.keyed less free device
      refine ⟨setHand ncp (.rmDp task begun) (vnRele dp (ncRmhash ncp (ncRmlru ncp s.cache))) s, ?_,
        .single (.takeRm less free device before), rfl⟩
      simp [vnode, dnlcRm, device]
    · cases found

theorem enterTake_some (sound : Sound ncsize s)
    (taken : enterTake ncsize dp name cred s.cache = some (ncp, c)) :
    ncp < ncsize ∧ s.hand ncp = .free ∧ name.length ≤ ncNamlen ∧ dnlcSearch ncsize s.cache dp name (some cred) = none ∧
      c = ncRmhash ncp (ncRmlru ncp s.cache) := by
  obtain ⟨list, chain, listed⟩ := sound.listed
  rw [enterTake] at taken
  split at taken
  · cases taken
  rename_i short
  split at taken
  · cases taken
  rename_i search
  have fits : name.length ≤ ncNamlen := Nat.le_of_not_lt fun long => short (.inr long)
  have first := Ring.first_eq listed.lru
  cases start : list.head? with
  | none =>
    rw [List.head?_map, start] at first
    rw [first] at taken
    cases taken
  | some i =>
    rw [List.head?_map, start] at first
    rw [first] at taken
    cases taken
    obtain ⟨less, idle⟩ := (listed.members ncp).mp (List.mem_of_head? start)
    exact ⟨less, not_not.mp idle, fits, not_not.mp search, rfl⟩

theorem enter_moves {dp : Nat} {name : List Nat} {vp : Nat} {cred : Option Nat} (sound : Sound ncsize s)
    (owned : bare → ∀ ncp c, enterTake ncsize dp name cred s.cache = some (ncp, c) → (c.ncache ncp).dp ≠ none →
      (c.ncache ncp).cred = none) :
    Moves ncsize distinct bare s (enter ncsize dp name vp cred s) ∧ (enter ncsize dp name vp cred s).clock = s.clock := by
  cases taken : enterTake ncsize dp name cred s.cache with
  | none =>
    rw [enter, taken]
    exact ⟨.refl, rfl⟩
  | some pair =>
    obtain ⟨ncp, c⟩ := pair
    obtain ⟨less, free, short, absent, rfl⟩ := enterTake_some sound taken
    have same : (ncRmhash ncp (ncRmlru ncp s.cache)).ncache = s.cache.ncache := rfl
    rw [enter, taken]
    dsimp only
    rw [same]
    cases device : (s.cache.ncache ncp).dp with
    | some old =>
      refine ⟨.single (.takeEnter less free device short fun holds => ?_), rfl⟩
      exact owned holds ncp (ncRmhash ncp (ncRmlru ncp s.cache)) taken (by simp [same, device])
    | none =>
      obtain ⟨list, chain, listed⟩ := sound.listed
      have vnode : (s.cache.ncache ncp).vp = none := (listed.blank ncp less (not_not.mpr free) device).1
      rw [dropVp, same, vnode]
      exact ⟨.single (.fillNow less free device short absent), rfl⟩

/-- The condition for the keys: when a call goes on with `dnlc_enter`, its key is not in the cache. -/
def Clear (ncsize : Nat) (s : System) (event : Event) : Prop :=
  ∀ ncp dp name vp cred, event = .resume ncp → s.hand ncp = .enterVp dp name vp cred →
    dnlcSearch ncsize s.cache dp name (some cred) = none

/-- The condition for the credentials: an entry with a key that `dnlc_enter` takes has NOCRED. -/
def Bare (ncsize : Nat) (s : System) (event : Event) : Prop :=
  ∀ dp name vp cred ncp c, event = .enter dp name vp cred → enterTake ncsize dp name cred s.cache = some (ncp, c) →
    (c.ncache ncp).dp ≠ none → (c.ncache ncp).cred = none

/-- No call panics or follows a null pointer. -/
theorem run_moves (sound : Sound ncsize s) (event : Event) (clear : distinct → Clear ncsize s event)
    (owned : bare → Bare ncsize s event) :
    ∃ answer t, run ncsize event s = some (answer, t) ∧ Moves ncsize distinct bare s t := by
  have ticked {u : System} (moves : Moves ncsize distinct bare s u) (clock : u.clock = s.clock) :
      Moves ncsize distinct bare s { u with clock := s.clock + 1 } := by
    rw [← clock]
    exact moves.tail .tick
  cases event with
  | enter dp name vp cred =>
    obtain ⟨moves, clock⟩ := (@enter_moves _ distinct bare _ dp name vp cred) sound fun holds ncp c taken =>
      owned holds dp name vp cred ncp c rfl taken
    exact ⟨_, _, rfl, ticked moves clock⟩
  | lookup dp name cred => exact ⟨_, _, rfl, ticked (.single (.lookup dp name cred)) rfl⟩
  | call task =>
    obtain ⟨t, result, moves, clock⟩ := (@goOn_moves _ distinct bare _ task _) sound (Nat.le_refl _)
    exact ⟨none, _, by simp only [run, result]; rfl, ticked moves clock⟩
  | resume ncp =>
    have phase := sound.phase ncp
    cases hand : s.hand ncp with
    | free => exact ⟨none, _, by simp only [run, hand]; rfl, ticked .refl rfl⟩
    | enterDp dp name vp cred =>
      rw [hand] at phase
      obtain ⟨old, vnode⟩ := Option.ne_none_iff_exists'.mp phase.2
      refine ⟨none, _, by simp only [run, hand, dropVp, vnode]; rfl, ticked (.single (.enterNext hand vnode)) rfl⟩
    | enterVp dp name vp cred =>
      exact ⟨none, _, by simp only [run, hand]; rfl,
        ticked (.single (.fillLate hand fun holds => clear holds ncp dp name vp cred rfl hand)) rfl⟩
    | rmDp task begun =>
      rw [hand] at phase
      obtain ⟨old, vnode⟩ := Option.ne_none_iff_exists'.mp phase.2
      exact ⟨none, _, by simp only [run, hand, dnlcRmNext, vnode]; rfl, ticked (.single (.rmNext hand vnode)) rfl⟩
    | rmVp task begun =>
      rw [hand] at phase
      have last : Move ncsize distinct bare s (setHand ncp .free (dnlcRmEnd ncp s.cache) s) := .rmEnd hand
      by_cases one : task = .purge1
      · refine ⟨none, _, by simp only [run, hand, if_pos one]; rfl, ticked (.tail (.single last) (.done phase.1 ?_)) rfl⟩
        exact fun other => absurd one other
      · obtain ⟨t, result, moves, clock⟩ := (@goOn_moves _ distinct bare _ task begun) (last.sound sound) phase.1
        exact ⟨none, _, by simp only [run, hand, if_neg one, result]; rfl, ticked (.head last moves) clock⟩

end

end Svr4.Dnlc
