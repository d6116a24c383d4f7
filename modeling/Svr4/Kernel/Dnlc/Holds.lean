import Mathlib.Tactic.Ring
import Svr4.Foundation.Counting
import Svr4.Kernel.Dnlc.Runs

/-! What the name cache holds of vnodes and credentials. -/

namespace Svr4.Dnlc

open Function
open Finset (range sum_congr)

/-- What is held of a vnode for an entry. -/
def owedVnode (e : Ncache) (v : Nat) : Hand → Int
  | .free => (if e.dp = some v then 1 else 0) + if e.dp ≠ none ∧ e.vp = some v then 1 else 0
  | .enterDp .. | .rmDp .. => if e.vp = some v then 1 else 0
  | .enterVp .. | .rmVp .. => 0

def owedCred (e : Ncache) (cr : Nat) : Hand → Int
  | .free => if e.dp ≠ none ∧ e.cred = some cr then 1 else 0
  | .rmDp .. | .rmVp .. => if e.cred = some cr then 1 else 0
  | .enterDp .. | .enterVp .. => 0

def VnodesHeld (ncsize : Nat) (s : System) : Prop :=
  ∀ v, s.cache.vnHolds v = ∑ i ∈ range ncsize, owedVnode (s.cache.ncache i) v (s.hand i)

def CredsHeld (ncsize : Nat) (s : System) : Prop :=
  ∀ cr, s.cache.crHolds cr = ∑ i ∈ range ncsize, owedCred (s.cache.ncache i) cr (s.hand i)

section
variable {ncsize ncp dp vp : Nat} {name : List Nat} {cred : Option Nat} {distinct bare : Prop} {c : Cache} {s t : System}
  {hand : Hand} {c : Cache} {memory : Nat → Ncache}

/-! ## What the calls count -/

theorem vnRele_vnHolds (v : Nat) : (vnRele vp c).vnHolds v = c.vnHolds v - if vp = v then 1 else 0 := by
  by_cases same : vp = v
  · subst same
    simp [vnRele]
  · simp [vnRele, update_of_ne (Ne.symm same), same]

theorem vnHold_vnHolds (v : Nat) : (vnHold vp c).vnHolds v = c.vnHolds v + if vp = v then 1 else 0 := by
  by_cases same : vp = v
  · subst same
    simp [vnHold]
  · simp [vnHold, update_of_ne (Ne.symm same), same]

theorem enterFill_vnHolds (v : Nat) : (enterFill dp name vp cred ncp c).vnHolds v =
    c.vnHolds v + (if dp = v then 1 else 0) + if vp = v then 1 else 0 := by
  have held : (enterFill dp name vp cred ncp c).vnHolds = (vnHold vp (vnHold dp c)).vnHolds := by
    cases cred <;> rfl
  rw [held, vnHold_vnHolds, vnHold_vnHolds]

theorem enterFill_crHolds (cr : Nat) :
    (enterFill dp name vp cred ncp c).crHolds cr = c.crHolds cr + if cred = some cr then 1 else 0 := by
  cases cred with
  | none => exact (add_zero _).symm
  | some cr' =>
    show (crhold cr' c).crHolds cr = _
    by_cases same : cr' = cr
    · subst same
      simp [crhold]
    · simp [crhold, update_of_ne (Ne.symm same), same]

theorem dnlcRmEnd_vnHolds : (dnlcRmEnd ncp c).vnHolds = c.vnHolds := by
  rw [dnlcRmEnd]
  cases (c.ncache ncp).cred <;> rfl

theorem dnlcRmEnd_crHolds (cr : Nat) :
    (dnlcRmEnd ncp c).crHolds cr = c.crHolds cr - if (c.ncache ncp).cred = some cr then 1 else 0 := by
  rw [dnlcRmEnd]
  cases (c.ncache ncp).cred with
  | none => exact (sub_zero _).symm
  | some cr' =>
    show (crfree cr' c).crHolds cr = _
    by_cases same : cr' = cr
    · subst same
      simp [crfree]
    · simp [crfree, update_of_ne (Ne.symm same), same]

/-! ## The balance -/

theorem owed_change {hand : Hand} {ncache : Nat → Ncache} {held held' : Int} (owed : Ncache → Hand → Int)
    (balance : held = ∑ i ∈ range ncsize, owed (s.cache.ncache i) (s.hand i)) (less : ncp < ncsize)
    (same : ∀ i, i ≠ ncp → ncache i = s.cache.ncache i)
    (change : held' = held + (owed (ncache ncp) hand - owed (s.cache.ncache ncp) (s.hand ncp))) :
    held' = ∑ i ∈ range ncsize, owed (ncache i) (update s.hand ncp hand i) := by
  have sum := (@sum_change ncsize ncp (fun i => owed (s.cache.ncache i) (s.hand i))
    fun i => owed (ncache i) (update s.hand ncp hand i)) less fun j _ differ => by
      rw [same j differ, update_of_ne differ]
  rw [sum, update_self, ← balance, change]

theorem set_id : set ncp id c = c := by
  rw [set, id, update_eq_self]

theorem Sound.less (sound : Sound ncsize s) (holding : s.hand ncp = hand) (busy : hand ≠ .free) : ncp < ncsize :=
  sound.hands ncp (holding ▸ busy)

theorem fill_vnodes (held : VnodesHeld ncsize s) (less : ncp < ncsize) (ncache : c.ncache = s.cache.ncache)
    (holds : c.vnHolds = s.cache.vnHolds) (nothing : ∀ v, owedVnode (s.cache.ncache ncp) v (s.hand ncp) = 0) :
    VnodesHeld ncsize (fill dp name vp cred ncp c s) := by
  intro v
  refine owed_change (owedVnode · v) (held v) less (fun i differ => ?_) ?_
  · show (enterFill dp name vp cred ncp c).ncache i = _
    rw [enterFill_ncache, update_of_ne differ, ncache]
  · show (enterFill dp name vp cred ncp c).vnHolds v =
      s.cache.vnHolds v + (owedVnode ((enterFill dp name vp cred ncp c).ncache ncp) v .free - _)
    rw [enterFill_vnHolds, enterFill_ncache, update_self, nothing, holds]
    simp only [owedVnode, Option.some.injEq, ne_eq, reduceCtorEq, not_false_eq_true, true_and]
    ring

theorem fill_creds (held : CredsHeld ncsize s) (less : ncp < ncsize) (ncache : c.ncache = s.cache.ncache)
    (holds : c.crHolds = s.cache.crHolds) (nothing : ∀ cr, owedCred (s.cache.ncache ncp) cr (s.hand ncp) = 0) :
    CredsHeld ncsize (fill dp name vp cred ncp c s) := by
  intro cr
  refine owed_change (owedCred · cr) (held cr) less (fun i differ => ?_) ?_
  · show (enterFill dp name vp cred ncp c).ncache i = _
    rw [enterFill_ncache, update_of_ne differ, ncache]
  · show (enterFill dp name vp cred ncp c).crHolds cr =
      s.cache.crHolds cr + (owedCred ((enterFill dp name vp cred ncp c).ncache ncp) cr .free - _)
    rw [enterFill_crHolds, enterFill_ncache, update_self, nothing, holds]
    simp only [owedCred, ne_eq, reduceCtorEq, not_false_eq_true, true_and]
    ring

theorem take_vnodes {old : Nat} (held : VnodesHeld ncsize s) (less : ncp < ncsize) (free : s.hand ncp = .free)
    (keyed : (s.cache.ncache ncp).dp = some old)
    (one : ∀ v, owedVnode (s.cache.ncache ncp) v hand = if (s.cache.ncache ncp).vp = some v then 1 else 0) :
    VnodesHeld ncsize (setHand ncp hand (vnRele old (ncRmhash ncp (ncRmlru ncp s.cache))) s) := by
  intro v
  have both : owedVnode (s.cache.ncache ncp) v .free =
      (if old = v then 1 else 0) + if (s.cache.ncache ncp).vp = some v then 1 else 0 := by
    simp [owedVnode, keyed]
  refine owed_change (owedVnode · v) (held v) less (fun _ _ => rfl) ?_
  show (vnRele old (ncRmhash ncp (ncRmlru ncp s.cache))).vnHolds v = s.cache.vnHolds v + (owedVnode (s.cache.ncache ncp) v hand - _)
  rw [vnRele_vnHolds, one, free, both]
  show s.cache.vnHolds v - _ = _
  ring

theorem next_vnodes {hand : Hand} {old : Nat} {ncache : Ncache → Ncache} (held : VnodesHeld ncsize s) (less : ncp < ncsize)
    (keyed : (s.cache.ncache ncp).vp = some old)
    (before : ∀ e v, owedVnode e v (s.hand ncp) = if e.vp = some v then 1 else 0) (after : ∀ e v, owedVnode e v hand = 0) :
    VnodesHeld ncsize (setHand ncp hand (vnRele old (set ncp ncache s.cache)) s) := by
  intro v
  have one : owedVnode (s.cache.ncache ncp) v (s.hand ncp) = if old = v then 1 else 0 := by
    rw [before, keyed]
    simp
  refine owed_change (owedVnode · v) (held v) less (fun i differ => ?_) ?_
  · show (set ncp ncache s.cache).ncache i = _
    rw [set_other differ]
  · show (vnRele old (set ncp ncache s.cache)).vnHolds v = _
    rw [vnRele_vnHolds, one, after]
    show s.cache.vnHolds v - _ = _
    ring

theorem Move.vnodes (move : Move ncsize distinct bare s t) (sound : Sound ncsize s) (held : VnodesHeld ncsize s) :
    VnodesHeld ncsize t := by
  cases move with
  | lookup dp name cred =>
    intro v
    rw [lookup_keeps.2.1, lookup_keeps.2.2.1]
    exact held v
  | done _ _ => exact held
  | takeEnter less free keyed _ _ => exact take_vnodes held less free keyed (fun _ => rfl)
  | takeRm less free keyed _ => exact take_vnodes held less free keyed (fun _ => rfl)
  | @enterNext ncp old dp name vp cred hand keyed =>
    have next := (@next_vnodes _ ncp _ (.enterVp dp name vp cred) old id) held (sound.less hand (by simp)) keyed
      (fun _ _ => by rw [hand]; rfl) (fun _ _ => rfl)
    rwa [set_id] at next
  | fillLate hand _ => exact fill_vnodes held (sound.less hand (by simp)) rfl rfl (fun _ => by rw [hand]; rfl)
  | fillNow less free empty _ _ =>
    refine fill_vnodes held less rfl rfl fun _ => ?_
    rw [free]
    simp [owedVnode, empty]
  | rmNext hand keyed =>
    exact next_vnodes held (sound.less hand (by simp)) keyed (fun _ _ => by rw [hand]; rfl) (fun _ _ => rfl)
  | @rmEnd ncp _ _ hand =>
    intro v
    have phase := sound.phase ncp
    rw [hand] at phase
    refine (@owed_change ncsize ncp s .free (dnlcRmEnd ncp s.cache).ncache _ ((dnlcRmEnd ncp s.cache).vnHolds v) (owedVnode · v))
      (held v) (sound.less hand (by simp)) (fun i differ => ?_) ?_
    · rw [dnlcRmEnd_ncache, update_of_ne differ]
    · rw [dnlcRmEnd_vnHolds, dnlcRmEnd_ncache, update_self]
      simp [owedVnode, hand, phase.2]
  | tick => exact held

theorem Move.creds (move : Move ncsize distinct True s t) (sound : Sound ncsize s) (held : CredsHeld ncsize s) :
    CredsHeld ncsize t := by
  cases move with
  | lookup dp name cred =>
    intro cr
    rw [lookup_keeps.2.1, lookup_keeps.2.2.2]
    exact held cr
  | done _ _ => exact held
  | takeEnter less free keyed _ owned =>
    -- The entry loses its credential without a `crfree`, so it has none.
    intro cr
    refine owed_change (owedCred · cr) (held cr) less (fun _ _ => rfl) ?_
    simp [setHand, vnRele, ncRmhash, ncRmlru, owedCred, free, owned trivial]
  | @takeRm ncp _ _ _ less free keyed _ =>
    intro cr
    refine owed_change (owedCred · cr) (held cr) less (fun _ _ => rfl) ?_
    have same : owedCred (s.cache.ncache ncp) cr .free = if (s.cache.ncache ncp).cred = some cr then 1 else 0 := by
      simp [owedCred, keyed]
    show s.cache.crHolds cr = s.cache.crHolds cr + ((if (s.cache.ncache ncp).cred = some cr then 1 else 0) - _)
    rw [free, same]
    ring
  | enterNext hand keyed =>
    intro cr
    refine owed_change (owedCred · cr) (held cr) (sound.less hand (by simp)) (fun _ _ => rfl) ?_
    simp [setHand, vnRele, owedCred, hand]
  | fillLate hand _ => exact fill_creds held (sound.less hand (by simp)) rfl rfl (fun _ => by rw [hand]; rfl)
  | fillNow less free empty _ _ =>
    refine fill_creds held less rfl rfl fun _ => ?_
    rw [free]
    simp [owedCred, empty]
  | @rmNext ncp _ _ _ hand keyed =>
    intro cr
    refine owed_change (owedCred · cr) (held cr) (sound.less hand (by simp)) (fun i differ => ?_) ?_
    · simp only [setHand, vnRele_ncache, set_other differ]
    · simp [setHand, vnRele, set, owedCred, hand]
  | @rmEnd ncp _ _ hand =>
    intro cr
    have phase := sound.phase ncp
    rw [hand] at phase
    refine (@owed_change ncsize ncp s .free (dnlcRmEnd ncp s.cache).ncache _ ((dnlcRmEnd ncp s.cache).crHolds cr) (owedCred · cr))
      (held cr) (sound.less hand (by simp)) (fun i differ => ?_) ?_
    · rw [dnlcRmEnd_ncache, update_of_ne differ]
    · rw [dnlcRmEnd_crHolds, dnlcRmEnd_ncache, update_self]
      simp only [owedCred, hand, phase.2, ne_eq, not_true_eq_false, false_and, if_false]
      ring
  | tick => exact held

/-! ## Runs -/

theorem init_held (memory : Nat → Ncache) :
    VnodesHeld ncsize (dnlcInit ncsize memory) ∧ CredsHeld ncsize (dnlcInit ncsize memory) := by
  obtain ⟨_, ncache, vnodes, creds⟩ := (@initTo_keeps ncsize) ncsize memory
  have blank (i : Nat) : ((dnlcInit ncsize memory).cache.ncache i).dp = none := congrArg Ncache.dp (congrFun ncache i)
  refine ⟨fun v => ?_, fun cr => ?_⟩
  · refine (congrFun vnodes v).trans (Finset.sum_eq_zero fun i _ => ?_).symm
    show owedVnode _ v .free = 0
    simp [owedVnode, blank]
  · refine (congrFun creds cr).trans (Finset.sum_eq_zero fun i _ => ?_).symm
    show owedCred _ cr .free = 0
    simp [owedCred, blank]

theorem reached_vnodes
    (reached : Reaches (· = dnlcInit ncsize memory) (Step ncsize) (fun _ _ => True) s) : VnodesHeld ncsize s := by
  induction reached with
  | start first => exact first ▸ (init_held memory).1
  | next before step _ ih =>
    have sound := (reached_sound before).1
    have moves := (@Step.moves _ False False _ _ _) step sound nofun nofun
    clear step
    induction moves with
    | refl => exact ih
    | tail earlier move held => exact move.vnodes (Moves.sound earlier sound) held

theorem reached_creds
    (reached : Reaches (· = dnlcInit ncsize memory) (Step ncsize) (Bare ncsize) s) : CredsHeld ncsize s := by
  induction reached with
  | start first => exact first ▸ (init_held memory).2
  | next before step allowed ih =>
    have sound := (reached_sound (before.weaken fun _ _ _ => trivial)).1
    have moves := (@Step.moves _ False True _ _ _) step sound nofun fun _ => allowed
    clear step
    induction moves with
    | refl => exact ih
    | tail earlier move held => exact move.creds (Moves.sound earlier sound) held

/-! ## Between the calls -/

theorem Sound.idle_of (sound : Sound ncsize s) (idle : ∀ i < ncsize, s.hand i = .free) (i : Nat) : s.hand i = .free := by
  by_contra busy
  exact busy (idle i (sound.hands i busy))

/-- The live entries for which `test` holds. -/
def liveWith (ncsize : Nat) (c : Cache) (test : Ncache → Bool) : Nat :=
  (List.range ncsize).countP fun i => (c.ncache i).dp ≠ none && test (c.ncache i)

theorem sum_live {test : Ncache → Bool} {owed : Nat → Int}
    (same : ∀ i < ncsize, owed i = if ((c.ncache i).dp ≠ none && test (c.ncache i)) = true then 1 else 0) :
    ∑ i ∈ range ncsize, owed i = liveWith ncsize c test := by
  rw [sum_congr rfl fun i member => same i (Finset.mem_range.mp member), liveWith]
  induction ncsize with
  | zero => rfl
  | succ n ih =>
    rw [Finset.sum_range_succ, ih fun i less => same i (Nat.lt_succ_of_lt less), List.range_succ, List.countP_append]
    simp [List.countP_cons]

/-- The holds are those of the live entries. -/
structure Balanced (ncsize : Nat) (c : Cache) : Prop where
  vnodes : ∀ v, c.vnHolds v = liveWith ncsize c (fun e => e.dp = some v) + liveWith ncsize c fun e => e.vp = some v
  creds : ∀ cr, c.crHolds cr = liveWith ncsize c fun e => e.cred = some cr

theorem vnodes_live (held : VnodesHeld ncsize s) (idle : ∀ i, s.hand i = .free) (v : Nat) :
    s.cache.vnHolds v = liveWith ncsize s.cache (fun e => e.dp = some v) + liveWith ncsize s.cache fun e => e.vp = some v := by
  have asDp : ∑ i ∈ range ncsize, (if (s.cache.ncache i).dp = some v then 1 else 0 : Int) =
      liveWith ncsize s.cache fun e => e.dp = some v := by
    refine sum_live fun i _ => ?_
    by_cases same : (s.cache.ncache i).dp = some v <;> simp [same]
  have asVp : ∑ i ∈ range ncsize, (if (s.cache.ncache i).dp ≠ none ∧ (s.cache.ncache i).vp = some v then 1 else 0 : Int) =
      liveWith ncsize s.cache fun e => e.vp = some v := by
    refine sum_live fun i _ => ?_
    simp
  rw [held v, ← asDp, ← asVp, ← Finset.sum_add_distrib]
  exact sum_congr rfl fun i _ => by rw [idle i]; rfl

theorem creds_live (held : CredsHeld ncsize s) (idle : ∀ i, s.hand i = .free) (cr : Nat) :
    s.cache.crHolds cr = liveWith ncsize s.cache fun e => e.cred = some cr := by
  rw [held cr]
  refine sum_live fun i _ => ?_
  rw [idle i]
  simp [owedCred]

/-! ## Purging -/

theorem goOn_done {task : Task} {begun begun' : Nat} {done : Task} (result : goOn ncsize task begun s = some t)
    (finished : t.done = (done, begun') :: s.done) :
    done = task ∧ t.cache = s.cache ∧ (s.cache.doingcache = true → task.find ncsize s.cache = none) := by
  rw [goOn] at result
  cases found : (if s.cache.doingcache = true then task.find ncsize s.cache else none) with
  | none =>
    rw [found] at result
    cases result
    refine ⟨?_, rfl, fun doing => ?_⟩
    · have heads := (List.cons.inj finished).1
      exact (Prod.mk.inj heads).1.symm
    · rw [if_pos doing] at found
      exact found
  | some ncp =>
    rw [found] at result
    dsimp only at result
    split at result
    · cases result
    · obtain ⟨c, _, rest⟩ := Option.bind_eq_some_iff.mp result
      cases rest
      exact absurd finished (List.cons_ne_self _ _).symm

theorem enter_done {dp : Nat} {name : List Nat} {vp : Nat} {cred : Option Nat} :
    (enter ncsize dp name vp cred s).done = s.done := by
  rw [enter]
  cases enterTake ncsize dp name cred s.cache with
  | none => rfl
  | some pair =>
    obtain ⟨ncp, c⟩ := pair
    dsimp only
    cases (c.ncache ncp).dp with
    | some old => rfl
    | none =>
      rw [dropVp]
      cases (c.ncache ncp).vp <;> rfl

theorem purge_ends {event : Event} {begun : Nat} (step : Step ncsize s event t)
    (finished : t.done = (.purge, begun) :: s.done) : t.cache.doingcache = true → Task.purge.find ncsize t.cache = none := by
  obtain ⟨answer, result⟩ := step
  have same {u : System} (equal : u.done = s.done) : u.done ≠ (.purge, begun) :: s.done := by
    rw [equal]
    exact (List.cons_ne_self _ _).symm
  cases event with
  | enter dp name vp cred =>
    cases result
    exact absurd finished (same enter_done)
  | lookup dp name cred =>
    cases result
    exact absurd finished (same rfl)
  | call task =>
    cases going : goOn ncsize task s.clock s with
    | none =>
      simp only [run, going] at result
      cases result
    | some u =>
      simp only [run, going] at result
      cases result
      obtain ⟨rfl, cache, find⟩ := goOn_done going finished
      rw [cache]
      exact find
  | resume ncp =>
    cases hand : s.hand ncp with
    | free =>
      simp only [run, hand] at result
      cases result
      exact absurd finished (same rfl)
    | enterDp dp name vp cred =>
      simp only [run, hand] at result
      cases result
      refine absurd finished (same ?_)
      rw [dropVp]
      cases (s.cache.ncache ncp).vp <;> rfl
    | enterVp dp name vp cred =>
      simp only [run, hand] at result
      cases result
      exact absurd finished (same rfl)
    | rmDp task begun' =>
      simp only [run, hand] at result
      cases next : dnlcRmNext ncp s.cache with
      | none =>
        rw [next] at result
        cases result
      | some c =>
        rw [next] at result
        cases result
        exact absurd finished (same rfl)
    | rmVp task begun' =>
      simp only [run, hand] at result
      split at result <;> rename_i one
      · cases result
        have heads := (List.cons.inj finished).1
        rw [one] at heads
        cases heads
      · cases going : goOn ncsize task begun' (setHand ncp .free (dnlcRmEnd ncp s.cache) s) with
        | none =>
          rw [going] at result
          cases result
        | some u =>
          rw [going] at result
          cases result
          obtain ⟨rfl, cache, find⟩ := goOn_done going finished
          rw [cache]
          exact find

theorem purged_live (sound : Sound ncsize t) (idle : ∀ i, t.hand i = .free)
    (find : t.cache.doingcache = true → Task.purge.find ncsize t.cache = none) (test : Ncache → Bool) :
    liveWith ncsize t.cache test = 0 := by
  rw [liveWith, List.countP_eq_zero]
  intro i member
  have less := List.mem_range.mp member
  cases device : (t.cache.ncache i).dp with
  | none => simp
  | some dp =>
    obtain ⟨vp, vnode⟩ := Option.ne_none_iff_exists'.mp (sound.keyed less (idle i) device)
    have cached : Cached ncsize t i dp (t.cache.ncache i).name vp (t.cache.ncache i).cred := by
      refine ⟨less, idle i, ?_⟩
      rw [← device, ← vnode]
    exact absurd trivial (sound.found find cached)

end

/-- Where `dnlc_enter` takes no entry that has a credential, the holds between the calls are those of
the live entries, and none is left when `dnlc_purge` has ended. -/
theorem holds_balanced (ncsize : Nat) (memory : Nat → Ncache) (t : System)
    (reached : Reaches (· = dnlcInit ncsize memory) (Step ncsize) (Bare ncsize) t) (idle : ∀ i, t.hand i = .free) :
    Balanced ncsize t.cache ∧
      ∀ s event begun, Reaches (· = dnlcInit ncsize memory) (Step ncsize) (Bare ncsize) s → Step ncsize s event t →
        t.done = (.purge, begun) :: s.done → (∀ v, t.cache.vnHolds v = 0) ∧ ∀ cr, t.cache.crHolds cr = 0 := by
  have vnodes := reached_vnodes (reached.weaken fun _ _ _ => trivial)
  have creds := reached_creds reached
  have sound := (reached_sound (reached.weaken fun _ _ _ => trivial)).1
  refine ⟨⟨vnodes_live vnodes idle, creds_live creds idle⟩, fun s event begun before step finished => ?_⟩
  have find := purge_ends step finished
  have nothing := purged_live sound idle find
  refine ⟨fun v => ?_, fun cr => ?_⟩
  · rw [vnodes_live vnodes idle, nothing, nothing]
    rfl
  · rw [creds_live creds idle, nothing]
    rfl

/-- A cache that is purged after a name has been entered. -/
theorem holds_balanced_purged : ∃ t, Reaches (· = small) (Step 2) (Bare 2) t ∧ (∀ i, t.hand i = .free) ∧
    t.cache.vnHolds 1 = 0 ∧ t.cache.crHolds 8 = 0 := by
  have entered : Reaches (· = small) (Step 2) (Bare 2) (next 2 small (.enter 1 [97] 5 (some 8))) := by
    refine next_reaches _ (.start rfl) ?_
    rintro _ _ _ _ ncp c ⟨⟩ taken keyed
    cases taken
    exact absurd rfl keyed
  have before := next_reaches (.resume 1) (next_reaches (.call .purge) entered nofun) nofun
  have reached := next_reaches (.resume 1) before nofun
  have idle := (reached_sound (reached.weaken fun _ _ _ => trivial)).1.idle_of fun i less => match i, less with
    | 0, _ => rfl
    | 1, _ => rfl
  obtain ⟨vnodes, creds⟩ := (holds_balanced 2 _ _ reached idle).2 _ (.resume 1) 1 before ⟨none, rfl⟩ rfl
  exact ⟨_, reached, idle, vnodes 1, creds 8⟩

/-- The credential of an entry that is taken for another name stays held. -/
theorem cred_kept : ∃ t, Reaches (· = dnlcInit 1 fun _ => ⟨none, none, [], none⟩) (Step 1) (fun _ _ => True) t ∧
    (∀ i, t.hand i = .free) ∧ ¬ Balanced 1 t.cache := by
  have reached := (@nexts_reach 1 (fun _ => ⟨none, none, [], none⟩) _ [.enter 1 [97] 5 (some 8), .enter 1 [98] 6 none, .resume 0,
    .resume 0]) (.start rfl)
  refine ⟨_, reached, (reached_sound reached).1.idle_of fun i less => ?_, fun balanced => ?_⟩
  · obtain rfl : i = 0 := by omega
    rfl
  · cases balanced.creds 8

end Svr4.Dnlc
