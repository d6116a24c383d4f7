import Svr4.Kernel.RecordLock.Deadlock

/-! When `EDEADLK` reports a deadlock.

An entry on `sleeplcks` names the holder of the lock its process went to sleep
on. That is a wait as long as the process is asleep. Between its wakeup and its
cleanup the entry is out of date, and `deadflck` follows it all the same.
-/

namespace Svr4.RecordLock

open Relation Words

/-- `a` is asleep with a request that conflicts with a lock of `b`. -/
def System.BlockedBy (s : System) (a b : Owner) : Prop :=
  ∃ call sf chan, s.proc a = .asleep call sf chan ∧
    ∃ f ∈ s.filocks call.vp, f.set.owner = b ∧ Conflicts call.lckdat f.set

/-- The entry of a sleeper names the owner of the lock on which it sleeps. -/
def Blamed (s : System) : Prop :=
  ∀ o call sf chan, s.proc o = .asleep call sf chan → ∀ e ∈ s.sleeplcks, e.addr = sf →
    s.Marked call.vp chan fun lock => Conflicts call.lckdat lock ∧ lock.owner = e.stat.blk

/-- When a call fails with `EDEADLK`, each process that the chase passed on the
way back to the caller is still asleep. -/
def Fresh (s : System) (event : Event) : Prop :=
  ∀ o call lckdat, event = .turn o call (.ret (some .edeadlk) lckdat) →
    ∀ found, (blocked (s.filocks call.vp) call.lckdat).1 = some found →
      ∀ a b, ReflTransGen (fun a b => a ≠ o ∧ Recorded s.sleeplcks a b) found.set.owner a →
        a ≠ o → Recorded s.sleeplcks a b → s.Asleep a

structure Prompt (s : System) (event : Event) : Prop where
  shorts : Shorts s event
  counted : Unsaturated s event
  fresh : Fresh s event

section
variable {s t u : System} {vp : Vnode} {list : List Filock} {woken : List Addr} {o : Owner} {p : Proc}
  {call : Call} {turn : Turn} {lckdat : Flock}

theorem Blamed.store (blamed : Blamed s) (wakes : Wakes (s.filocks vp) list woken) :
    Blamed (s.store vp list woken) := by
  intro o call sf chan asleep e member at_
  obtain ⟨before, quiet⟩ := Proc.wake_asleep asleep
  exact (blamed o call sf chan before e member at_).store wakes quiet

theorem Blamed.put (blamed : Blamed s) (awake : ∀ call sf chan, p ≠ .asleep call sf chan) :
    Blamed (s.put o p) := by
  intro o' call sf chan asleep
  by_cases here : o' = o
  · subst here
    exact absurd (by simpa [System.put] using asleep) (awake call sf chan)
  · exact blamed o' call sf chan (by simpa [System.put, here] using asleep)

theorem Blamed.entries {sleeplcks : List Filock} (blamed : Blamed s) (sub : ∀ e ∈ sleeplcks, e ∈ s.sleeplcks) :
    Blamed { s with sleeplcks } :=
  fun o call sf chan asleep e member => blamed o call sf chan asleep e (sub e member)

/-- A process goes to sleep with the entry `new`. -/
theorem Blamed.join (blamed : Blamed s) (registered : Registered (s.put o .idle)) {new : Filock} {chan : Addr}
    (fresh : new.addr ∉ addrs s.sleeplcks)
    (marked : s.Marked call.vp chan fun lock => Conflicts call.lckdat lock ∧ lock.owner = new.stat.blk) :
    Blamed ({ s with sleeplcks := new :: s.sleeplcks }.put o (.asleep call new.addr chan)) := by
  intro o' call' sf' chan' asleep e member at_
  by_cases here : o' = o
  · subst here
    simp only [System.put, Function.update_self, Proc.asleep.injEq] at asleep
    obtain ⟨rfl, rfl, rfl⟩ := asleep
    rcases List.mem_cons.mp member with rfl | member
    · exact marked
    · exact absurd (at_ ▸ mem_addrs member) fresh
  · have before : s.proc o' = .asleep call' sf' chan' := by simpa [System.put, here] using asleep
    rcases List.mem_cons.mp member with rfl | member
    · obtain ⟨e', present, same, _⟩ := registered.process o' sf' (by simp [System.put, here, before, Proc.entry])
      have shared := mem_addrs present
      rw [same, ← at_] at shared
      exact absurd shared fresh
    · exact blamed o' call' sf' chan' before e member at_

theorem Blamed.round {used used' : Addr → Prop} {kmem : Kmem used} {sleepmem : Kmem used'} {fuel : Nat}
    (blamed : Blamed s) (registered : Registered (s.put o .idle)) (locked : Locked s)
    (range : call.lckdat.lStart ≤ call.lckdat.lEnd) (round : Round kmem sleepmem fuel s call t turn)
    (counted : ∀ sf chan, turn = .sleep sf chan →
      ∀ f ∈ s.filocks call.vp, f.addr = chan → toInt f.stat.wakeflg ≠ -1) :
    Blamed (t.put o (turn.proc call)) := by
  have ordered := locked.ordered call.vp
  cases round with
  | quiet => exact blamed.put fun _ _ _ => by simp [Turn.proc]
  | deadlock => exact blamed.put fun _ _ _ => by simp [Turn.proc]
  | adjust insrt result starts adjusted =>
    obtain ⟨result', again, ok⟩ := flckadj_starts kmem ordered range starts
    obtain rfl := Option.some.inj (adjusted.symm.trans again)
    exact (blamed.store ok.wakes_all).put fun _ _ _ => by simp [Turn.proc]
  | sleep found sf list first _ memory marked =>
    obtain ⟨present, conflict⟩ := blocked_some range ordered first
    obtain ⟨before, rest, shape, rfl⟩ := assign_mark ordered present marked
    have counted := counted _ _ rfl found present rfl
    apply Blamed.join (blamed.store (shape ▸ wakes_mark counted)) (registered.mark shape) (sleepmem.fresh memory).1
    exact ⟨found.mark, by simp [System.store], rfl, ⟨conflict, rfl⟩, mark_nonzero counted⟩

theorem Blamed.step {event : Event} (blamed : Blamed s) (registered : Registered s) (locked : Locked s)
    (step : Step s event t) (counted : Unsaturated s event) : Blamed t := by
  cases step with
  | reject => exact blamed
  | call vattr vattr' lckdat flag fuel kmem sleepmem idle owner whence entry round =>
    have registered : Registered (s.put _ .idle) := registered.put (by rw [idle])
    exact blamed.round registered locked (reclockEntry_ok entry).2 (reclockTurn_round round)
      (Unsaturated.marks counted)
  | unsleep asleep => exact blamed.put fun _ _ _ => by simp
  | interrupt vattr ready left =>
    obtain ⟨before, node, rest, shape, _, _, rfl⟩ := leave_some left
    have sub : (before ++ rest).Sublist s.sleeplcks := by simp [shape]
    exact (blamed.entries fun e member => sub.subset member).put fun _ _ _ => by simp
  | resume vattr fuel kmem sleepmem ready left round =>
    have range := locked.range _ _ (by rw [ready]; rfl)
    have registered := registered.leave (by rw [ready]; rfl) left
    obtain ⟨before, node, rest, shape, _, _, rfl⟩ := leave_some left
    have sub : (before ++ rest).Sublist s.sleeplcks := by simp [shape]
    exact (blamed.entries fun e member => sub.subset member).round registered (locked.entries _) range
      (reclockTurn_round round) (Unsaturated.marks counted)
  | clean vp pid sysid =>
    apply blamed.store
    intro f member marked
    exact (cleanlocks_wakes member marked).imp id fun kept => ⟨f, kept, rfl, rfl, marked⟩

/-- What `EDEADLK` says about the step that returns it. -/
structure Refused (s : System) (o : Owner) (call : Call) (u : System) : Prop where
  owner : call.lckdat.owner = o
  range : call.lckdat.lStart ≤ call.lckdat.lEnd
  lists : u.filocks = s.filocks
  procs : ∀ a, a ≠ o → u.proc a = s.proc a
  chased : ∃ sleeplcks found fuel, sleeplcks.Sublist s.sleeplcks ∧
    (blocked (s.filocks call.vp) call.lckdat).1 = some found ∧
    deadflck fuel sleeplcks found call.lckdat = some true

theorem Turn.restore_edeadlk {vattr : Except Errno Int}
    (refused : turn.restore vattr call = .ret (some .edeadlk) lckdat) :
    ∃ lckdat', turn = .ret (some .edeadlk) lckdat' := by
  cases turn with
  | ret retval lckdat' =>
    simp only [Turn.restore, Turn.ret.injEq] at refused
    exact ⟨lckdat', by rw [refused.1]⟩
  | sleep => cases refused

theorem Round.refused {used used' : Addr → Prop} {kmem : Kmem used} {sleepmem : Kmem used'} {fuel : Nat}
    (locked : Locked s) (range : call.lckdat.lStart ≤ call.lckdat.lEnd)
    (round : Round kmem sleepmem fuel s call t (.ret (some .edeadlk) lckdat)) :
    t = s ∧ ∃ found, (blocked (s.filocks call.vp) call.lckdat).1 = some found ∧
      deadflck fuel s.sleeplcks found call.lckdat = some true := by
  generalize same : Turn.ret (some .edeadlk) lckdat = turn at round
  cases round with
  | quiet retval lckdat' other =>
    simp only [Turn.ret.injEq] at same
    exact absurd same.1.symm other
  | adjust insrt result starts adjusted =>
    obtain ⟨result', again, ok⟩ := flckadj_starts kmem (locked.ordered call.vp) range starts
    obtain rfl := Option.some.inj (adjusted.symm.trans again)
    rcases ok.error with error | error
    · simp [error] at same
    · simp [error] at same
  | deadlock found first chased => exact ⟨rfl, found, first, chased⟩
  | sleep => cases same

theorem step_refused (locked : Locked s)
    (step : Step s (.turn o call (.ret (some .edeadlk) lckdat)) u) : Refused s o call u := by
  generalize same : Event.turn o call (.ret (some .edeadlk) lckdat) = event at step
  cases step with
  | reject => cases same
  | call vattr vattr' lckdat' flag fuel kmem sleepmem idle owner whence entry round =>
    simp only [Event.turn.injEq] at same
    obtain ⟨rfl, rfl, same⟩ := same
    obtain ⟨_, rfl⟩ := Turn.restore_edeadlk same.symm
    obtain ⟨mine, range⟩ := reclockEntry_ok entry
    obtain ⟨rfl, found, first, chased⟩ := (reclockTurn_round round).refused locked range
    exact ⟨mine.trans owner, range, rfl, fun a other => by simp [System.put, other],
      _, found, fuel, .refl _, first, chased⟩
  | unsleep => cases same
  | interrupt vattr ready left => simp [Turn.restore] at same
  | resume vattr fuel kmem sleepmem ready left round =>
    simp only [Event.turn.injEq] at same
    obtain ⟨rfl, rfl, same⟩ := same
    obtain ⟨_, rfl⟩ := Turn.restore_edeadlk same.symm
    have owner := locked.owner _ _ (by rw [ready]; rfl)
    have range := locked.range _ _ (by rw [ready]; rfl)
    obtain ⟨before, node, rest, shape, _, _, rfl⟩ := leave_some left
    obtain ⟨rfl, found, first, chased⟩ := (reclockTurn_round round).refused (locked.entries _) range
    exact ⟨owner, range, rfl, fun a other => by simp [System.put, other],
      _, found, fuel, by simp [shape], first, chased⟩
  | clean => cases same

/-- `EDEADLK` means a circle of sleepers when no owner is longer than a short, no
`wakeflg` has wrapped and nobody on the chain has been woken. -/
theorem edeadlk_sound {lckdat : Flock} (reached : Reaches System.Boot Step Prompt s)
    (step : Step s (.turn o call (.ret (some .edeadlk) lckdat)) u)
    (prompt : Prompt s (.turn o call (.ret (some .edeadlk) lckdat))) :
    ∃ first, (∃ f ∈ u.filocks call.vp, f.set.owner = first ∧ Conflicts call.lckdat f.set) ∧
      TransGen u.BlockedBy first o := by
  have invariant : Locked s ∧ Registered s ∧ Blamed s := by
    apply reached.invariant
    · intro s boot
      refine ⟨.boot boot, .boot boot, ?_⟩
      intro o call sf chan asleep
      simp [boot.2.2 o] at asleep
    · rintro s event t ⟨locked, registered, blamed⟩ step prompt
      exact ⟨locked.step step, registered.step locked step prompt.shorts,
        blamed.step registered locked step prompt.counted⟩
  obtain ⟨locked, registered, blamed⟩ := invariant
  have refused := step_refused locked step
  obtain ⟨sleeplcks, found, fuel, sub, first, chased⟩ := refused.chased
  obtain ⟨present, conflict⟩ := blocked_some refused.range (locked.ordered call.vp) first
  have entries : Entries sleeplcks :=
    ⟨fun e member e' member' => registered.entries.single e (sub.subset member) e' (sub.subset member'),
      fun e member => registered.blk e (sub.subset member)⟩
  rw [deadflck_eq (registered.held call.vp found present)] at chased
  have chain := chase_true entries chased
  rw [refused.owner] at chain
  -- An edge of the chain is a wait, since its process is still asleep.
  have wait {a b : Owner} (path : ReflTransGen (fun a b => a ≠ o ∧ Recorded s.sleeplcks a b) found.set.owner a)
      (edge : a ≠ o ∧ Recorded sleeplcks a b) : u.BlockedBy a b := by
    obtain ⟨other, e, member, rfl, rfl⟩ := edge
    have member := sub.subset member
    obtain ⟨call', sf, chan, asleep⟩ := prompt.fresh o call lckdat rfl found first _ _ path other
      ⟨e, member, rfl, rfl⟩
    have entry := registered.entry e member
    rw [asleep] at entry
    obtain ⟨f, held, _, ⟨conflict, owner⟩, _⟩ := blamed _ _ _ _ asleep e member (Option.some.inj entry).symm
    refine ⟨call', sf, chan, (refused.procs _ other).trans asleep, f, ?_, owner, conflict⟩
    rw [refused.lists]
    exact held
  have walk {b : Owner} (path : ReflTransGen (fun a b => a ≠ o ∧ Recorded sleeplcks a b) found.set.owner b) :
      ReflTransGen (fun a b => a ≠ o ∧ Recorded s.sleeplcks a b) found.set.owner b ∧
        ReflTransGen u.BlockedBy found.set.owner b := by
    induction path with
    | refl => exact ⟨.refl, .refl⟩
    | tail _ edge ih =>
      obtain ⟨other, e, member, recorded⟩ := edge
      exact ⟨ih.1.tail ⟨other, e, sub.subset member, recorded⟩,
        ih.2.tail (wait ih.1 ⟨other, e, member, recorded⟩)⟩
  refine ⟨found.set.owner, ⟨found, by rwa [refused.lists], rfl, conflict⟩, ?_⟩
  rcases reflTransGen_iff_eq_or_transGen.mp (walk chain).2 with same | path
  · exact absurd (same.symm.trans refused.owner.symm) conflict.1
  · exact path

end

/-! ## Two processes that want each other's lock -/

/-- Process 1 has vnode 0, process 2 has vnode 1 and sleeps on vnode 0. -/
structure Crossed (s : System) : Prop where
  queued : Queued s 1
  held : s.filocks 1 = [⟨3, (writer 1 2).lckdat, ⟨0, 0⟩⟩]
  idle : s.proc ⟨1, 0⟩ = .idle

section
variable {s : System}

theorem Prompt.returns {o : Owner} {call : Call} {retval : Option Errno} {lckdat : Flock} (fits : o.Fits)
    (other : retval ≠ some .edeadlk) : Prompt s (.turn o call (.ret retval lckdat)) := by
  constructor
  · intro _ _ _ same
    cases same
    exact fits
  · intro _ _ _ _ same
    cases same
  · intro _ _ _ same
    cases same
    exact absurd rfl other

theorem crossed_reached : ∃ s, Reaches System.Boot Step Prompt s ∧ Crossed s := by
  obtain ⟨s, first, contended, alone, idle⟩ := contended_granted
  have below (addr : Addr) (used : s.elsewhere 1 addr) : addr < 2 := by
    rcases used with used | ⟨vp, _, used⟩
    · simp [contended.sleeplcks] at used
    · by_cases here : vp = 0
      · subst here
        simp [contended.held] at used
        subst used
        decide
      · simp [alone vp here] at used
  have second := writer_granted 2 (alone 1 (by decide)) contended.idle below
  generalize same : (s.store 1 [⟨2 + 1, (writer 1 2).lckdat, ⟨0, 0⟩⟩] []).put ⟨2, 0⟩ .idle = t at second
  have awake (p : Proc) : p.wake [] = p := by cases p <;> simp [Proc.wake]
  have contended : Contended t 0 := by
    subst same
    constructor
    · simpa [System.put, System.store] using contended.held
    · simpa [System.put, System.store] using contended.sleeplcks
    · simp [System.put]
    · rintro addr ⟨vp, member⟩
      by_cases here : vp = 1
      · subst here
        simp [System.put, System.store] at member
        subst member
        decide
      · exact contended.below addr ⟨vp, by simpa [System.put, System.store, here] using member⟩
  obtain ⟨u, third, queued, others, proc⟩ := contended.sleep
  have allowed : Prompt t (.turn ⟨2, 0⟩ (writer 0 2) (.sleep 10 1)) := by
    constructor
    · intro _ _ _ same
      cases same
      decide
    · intro _ _ _ _ same f member _
      cases same
      have member : f ∈ t.filocks 0 := member
      rw [contended.held, List.mem_singleton] at member
      rw [member]
      decide
    · intro _ _ _ same
      cases same
  refine ⟨u, .next (.next (.next (.start ⟨fun _ => rfl, rfl, fun _ => rfl⟩) first
    (.returns (by decide) (by decide))) second (.returns (by decide) (by decide))) third allowed, ?_⟩
  constructor
  · exact queued
  · rw [others 1 (by decide), ← same]
    simp [System.put, System.store]
  · rw [proc, ← same]
    simp [System.put, System.store, awake, idle]

theorem crossed_refused (held : s.filocks 1 = [⟨3, (writer 1 2).lckdat, ⟨0, 0⟩⟩])
    (sleeplcks : s.sleeplcks = [⟨10, (writer 0 2).lckdat, ⟨0, 1⟩⟩]) (idle : s.proc ⟨1, 0⟩ = .idle) :
    Step s (.turn ⟨1, 0⟩ (writer 1 1) (.ret (some .edeadlk) ⟨.wrlck, 0, 0, 10, 0, 1⟩)) (s.put ⟨1, 0⟩ .idle) := by
  let found : Filock := ⟨3, (writer 1 2).lckdat, ⟨0, 0⟩⟩
  have list : s.filocks (writer 1 1).vp = [found] := held
  have first : blocked [found] (writer 1 1).lckdat = (some found, none) := rfl
  have dead : deadflck 2 [⟨10, (writer 0 2).lckdat, ⟨0, 1⟩⟩] found (writer 1 1).lckdat = some true := rfl
  have round : (@reclockTurn (s.elsewhere (writer 1 1).vp) s.onVnode) ⟨fun _ => none, by simp⟩
      ⟨fun _ => none, by simp⟩ 2 s (writer 1 1) = some (s, .ret (some .edeadlk) (writer 1 1).lckdat) := by
    unfold reclockTurn
    rw [list, first]
    simp only [sleepOn, sleeplcks, dead]
    rfl
  exact .call (.ok 0) (.ok 0) ⟨.wrlck, 0, 0, 10, 0, 1⟩ ⟨true, true⟩ 2 _ _ idle rfl rfl
    (writer_entry 1 1) round

/-- The call with which process 1 gives up its lock. -/
def unlocker : Call := ⟨0, ⟨.unlck, 0, 0, 9, 0, 1⟩, ⟨true, true⟩, 0, 0⟩

theorem Crossed.unlocked (crossed : Crossed s) :
    Step s (.turn ⟨1, 0⟩ unlocker (.ret none ⟨.unlck, 0, 0, 10, 0, 1⟩))
      ((s.store 0 [] [1]).put ⟨1, 0⟩ .idle) := by
  have list : s.filocks unlocker.vp = [⟨1, (writer 0 1).lckdat, ⟨1, 0⟩⟩] := crossed.queued.held
  have round : (@reclockTurn (s.elsewhere unlocker.vp) s.onVnode) ⟨fun _ => none, by simp⟩
      ⟨fun _ => none, by simp⟩ 2 s unlocker = some (s.store 0 [] [1], .ret none unlocker.lckdat) := by
    unfold reclockTurn
    rw [list]
    rw [adjustLocks, list]
    rfl
  exact .call (.ok 0) (.ok 0) ⟨.unlck, 0, 0, 10, 0, 1⟩ ⟨true, true⟩ 2 _ _ crossed.idle rfl rfl rfl round

end

/-- Process 2 sleeps for process 1, which asks for its lock: a real deadlock. -/
theorem edeadlk_sound_crossed : ∃ s u, Reaches System.Boot Step Prompt s ∧
    Step s (.turn ⟨1, 0⟩ (writer 1 1) (.ret (some .edeadlk) ⟨.wrlck, 0, 0, 10, 0, 1⟩)) u ∧
    TransGen u.BlockedBy ⟨2, 0⟩ ⟨1, 0⟩ := by
  obtain ⟨s, reached, crossed⟩ := crossed_reached
  have step := crossed_refused crossed.held crossed.queued.sleeplcks crossed.idle
  have prompt : Prompt s (.turn ⟨1, 0⟩ (writer 1 1) (.ret (some .edeadlk) ⟨.wrlck, 0, 0, 10, 0, 1⟩)) := by
    constructor
    · intro _ _ _ same
      cases same
      decide
    · intro _ _ _ _ same
      cases same
    · intro o call lckdat same found first a b path other edge
      obtain ⟨e, member, rfl, _⟩ := edge
      rw [crossed.queued.sleeplcks, List.mem_singleton] at member
      subst member
      exact ⟨_, _, _, crossed.queued.asleep⟩
  obtain ⟨first, ⟨f, member, rfl, _⟩, circle⟩ := edeadlk_sound reached step prompt
  have member : f ∈ s.filocks 1 := member
  rw [crossed.held, List.mem_singleton] at member
  subst member
  exact ⟨s, _, reached, step, circle⟩

/-- Process 1 unlocks, which wakes process 2, and asks for its lock before
process 2 runs: `EDEADLK`, though nobody is asleep. -/
theorem edeadlk_sound_stale : ∃ s u, Reaches System.Boot Step (fun _ _ => True) s ∧
    Step s (.turn ⟨1, 0⟩ (writer 1 1) (.ret (some .edeadlk) ⟨.wrlck, 0, 0, 10, 0, 1⟩)) u ∧
    ¬ ∃ first, (∃ f ∈ u.filocks 1, f.set.owner = first ∧ Conflicts (writer 1 1).lckdat f.set) ∧
      TransGen u.BlockedBy first ⟨1, 0⟩ := by
  obtain ⟨s, reached, crossed⟩ := crossed_reached
  have reached : Reaches System.Boot Step (fun _ _ => True) s := reached.weaken fun _ _ _ => trivial
  have held : ((s.store 0 [] [1]).put ⟨1, 0⟩ .idle).filocks 1 = [⟨3, (writer 1 2).lckdat, ⟨0, 0⟩⟩] := by
    simpa [System.put, System.store] using crossed.held
  refine ⟨_, _, .next reached crossed.unlocked trivial,
    crossed_refused held crossed.queued.sleeplcks (by simp [System.put]), ?_⟩
  rintro ⟨first, ⟨f, member, rfl, _⟩, circle⟩
  have member : f ∈ ((s.store 0 [] [1]).put ⟨1, 0⟩ .idle).filocks 1 := member
  rw [held, List.mem_singleton] at member
  subst member
  obtain ⟨b, ⟨call, sf, chan, asleep, _⟩, _⟩ := TransGen.head'_iff.mp circle
  simp [System.put, System.store, crossed.queued.asleep, Proc.wake, Flock.owner, writer] at asleep

end Svr4.RecordLock
