import Svr4.Kernel.RecordLock.Blocking
import Svr4.Kernel.RecordLock.Reclock

/-! Locks exclude each other in every reachable state, and a process asleep in
`reclock` waits for a lock that will wake it.

Both rest on `wakeflg` being non-zero while somebody sleeps on the lock. It is
an `int` that counts sleeps and is never counted down, so it can wrap.
-/

namespace Svr4.RecordLock

open Words
open Option (bind_eq_some_iff some pure_def)

/-! ## What a round can do -/

/-- The ways a round of `reclock` ends. -/
inductive Round {used used' : Addr → Prop} (kmem : Kmem used) (sleepmem : Kmem used') (fuel : Nat)
    (s : System) (call : Call) : System → Turn → Prop where
  | quiet (retval : Option Errno) (lckdat : Flock) : retval ≠ some .edeadlk →
      Round kmem sleepmem fuel s call s (.ret retval lckdat)
  | adjust (insrt : Option Addr) (result : Adjusted) :
      Starts (s.filocks call.vp) call.lckdat insrt →
      flckadj kmem (s.filocks call.vp) insrt call.lckdat = some result →
      Round kmem sleepmem fuel s call (s.store call.vp result.list result.woken)
        (.ret result.retval result.ld)
  | deadlock (found : Filock) : (blocked (s.filocks call.vp) call.lckdat).1 = some found →
      deadflck fuel s.sleeplcks found call.lckdat = some true →
      Round kmem sleepmem fuel s call s (.ret (some .edeadlk) call.lckdat)
  | sleep (found : Filock) (sf : Addr) (list : List Filock) :
      (blocked (s.filocks call.vp) call.lckdat).1 = some found →
      deadflck fuel s.sleeplcks found call.lckdat = some false →
      sleepmem.zalloc s.sleeplcks = some sf →
      assign found.addr Filock.mark (s.filocks call.vp) = some list →
      Round kmem sleepmem fuel s call
        { s.store call.vp list [] with
          sleeplcks := ⟨sf, call.lckdat, ⟨found.set.lSysid, found.set.lPid⟩⟩ :: s.sleeplcks }
        (.sleep sf found.addr)

section
variable {used used' : Addr → Prop} {kmem : Kmem used} {sleepmem : Kmem used'} {fuel : Nat}
  {s t : System} {call : Call} {turn : Turn} {vattr : Except Errno Int} {ld : Flock}

theorem adjustLocks_round {insrt : Option Addr} (starts : Starts (s.filocks call.vp) call.lckdat insrt)
    (round : adjustLocks kmem s call insrt = some (t, turn)) :
    Round kmem sleepmem fuel s call t turn := by
  obtain ⟨result, adjusted, same⟩ := bind_eq_some_iff.mp round
  cases same
  exact .adjust insrt result starts adjusted

theorem sleepOn_round {found : Filock} (first : (blocked (s.filocks call.vp) call.lckdat).1 = some found)
    (round : sleepOn sleepmem fuel s call found = some (t, turn)) :
    Round kmem sleepmem fuel s call t turn := by
  obtain ⟨dead, chased, round⟩ := bind_eq_some_iff.mp round
  cases dead with
  | true =>
    simp only [if_true, pure_def, some.injEq, Prod.mk.injEq] at round
    obtain ⟨rfl, rfl⟩ := round
    exact .deadlock found first chased
  | false =>
    simp only [Bool.false_eq_true, if_false] at round
    obtain ⟨made, inserted, round⟩ := bind_eq_some_iff.mp round
    unfold insflck at inserted
    cases memory : sleepmem.zalloc s.sleeplcks with
    | none =>
      rw [memory] at inserted
      cases inserted
      simp only [pure_def, some.injEq, Prod.mk.injEq] at round
      obtain ⟨rfl, rfl⟩ := round
      exact .quiet _ _ (by simp)
    | some sf =>
      rw [memory] at inserted
      cases inserted
      obtain ⟨list, marked, round⟩ := bind_eq_some_iff.mp round
      simp only [assign, if_true, Option.bind_eq_bind, Option.bind_some, pure_def,
        some.injEq, Prod.mk.injEq] at round
      obtain ⟨rfl, rfl⟩ := round
      exact .sleep found sf list first chased memory marked

theorem reclockTurn_round (round : reclockTurn kmem sleepmem fuel s call = some (t, turn)) :
    Round kmem sleepmem fuel s call t turn := by
  have quiet {retval : Option Errno} {lckdat : Flock} (other : retval ≠ some .edeadlk)
      (round : some (s, Turn.ret retval lckdat) = some (t, turn)) :
      Round kmem sleepmem fuel s call t turn := by
    cases round
    exact .quiet _ _ other
  unfold reclockTurn at round
  split at round
  case h_3 kind =>
    split at round
    · exact adjustLocks_round (by simp only [Starts, kind]) round
    · exact quiet (by simp) round
  case h_4 => exact quiet (by simp) round
  all_goals next kind =>
    split at round
    · next free =>
      split at round
      · exact adjustLocks_round (by simp only [Starts, kind, free]) round
      · exact quiet (by simp) round
    · next first =>
      split at round
      · exact sleepOn_round (by rw [first]) round
      · split at round
        · exact quiet (by simp) round
        · exact quiet (by simp) round

/-- The sleeper's cleanup takes its entry off `sleeplcks` and wakes nobody. -/
theorem leave_some {sf : Addr} (left : s.leave sf = some t) :
    ∃ before node rest, s.sleeplcks = before ++ node :: rest ∧ node.addr = sf ∧ sf ∉ addrs before ∧
      t = { s with sleeplcks := before ++ rest } := by
  obtain ⟨cleared, assigned, left⟩ := bind_eq_some_iff.mp left
  obtain ⟨before, node, rest, shape, rfl, absent, rfl⟩ := assign_some assigned
  have deleted := (@delflck_append _ rest ({ node with stat := ⟨0, 0⟩ })) absent
  simp only [deleted, Option.bind_eq_bind, Option.bind_some, pure_def, some.injEq] at left
  subst left
  refine ⟨before, node, rest, shape, rfl, absent, ?_⟩
  have quiet (o : Owner) : (s.proc o).wake (wakeup { node with stat := ⟨0, 0⟩ }) = s.proc o := by
    cases same : s.proc o <;> simp [Proc.wake, wakeup]
  simp only [quiet]

theorem convoff_ok {lckdat : Flock} {whence offset : Int}
    (converted : convoff vattr lckdat whence offset = .ok ld) :
    ∃ start, ld = { lckdat with lStart := start, lWhence := whence } := by
  cases vattr with
  | error => cases converted
  | ok size =>
    simp only [convoff, bind, Except.bind, pure, Except.pure, throw, throwThe,
      MonadExceptOf.throw] at converted
    split_ifs at converted
    all_goals cases converted
    all_goals exact ⟨_, rfl⟩

theorem reclockEntry_ok {lckdat : Flock} {cmd : Cmd} {flag : Flag}
    {offset : Int} (accepted : reclockEntry vattr lckdat cmd flag offset = .ok ld) :
    ld.owner = lckdat.owner ∧ ld.lStart ≤ ld.lEnd := by
  simp only [reclockEntry, bind, Except.bind, pure, Except.pure, throw, throwThe,
    MonadExceptOf.throw] at accepted
  cases converted : convoff vattr lckdat 0 offset with
  | error =>
    split_ifs at accepted
    simp [converted] at accepted
  | ok given =>
    obtain ⟨start, rfl⟩ := convoff_ok converted
    simp only [converted] at accepted
    split_ifs at accepted with _ _ _ range range
    all_goals
      cases accepted
      exact ⟨rfl, by simpa using range⟩

end

theorem mark_nonzero {f : Filock} (counted : toInt f.stat.wakeflg ≠ -1) : f.mark.stat.wakeflg ≠ 0 :=
  fun wrapped => counted (toInt_succ_zero wrapped)

section
variable {pid sysid : Int} {list : List Filock}

theorem cleanlocks_fst : (cleanlocks pid sysid list).1 = list.filter fun f => ¬ cleaned pid sysid f := by
  induction list with
  | nil => rfl
  | cons flp rest ih =>
    simp only [cleanlocks, List.filter_cons]
    split
    · next mine => simp [mine, ih]
    · next other => simp [other, ih]

theorem cleanlocks_wakes {f : Filock} (member : f ∈ list) (marked : f.stat.wakeflg ≠ 0) :
    f.addr ∈ (cleanlocks pid sysid list).2 ∨ f ∈ (cleanlocks pid sysid list).1 := by
  induction list with
  | nil => cases member
  | cons flp rest ih =>
    simp only [cleanlocks]
    rcases List.mem_cons.mp member with rfl | member
    · split
      · exact .inl (by simp [wakeup, marked])
      · exact .inr (by simp)
    · split
      · exact (ih member).imp (List.mem_append_right _) id
      · exact (ih member).imp id (List.mem_cons_of_mem _)

end

/-- `found->stat.wakeflg++` as a change of the list. -/
theorem assign_mark {list list' : List Filock} {found : Filock} (ordered : Ordered list) (present : found ∈ list)
    (marked : assign found.addr Filock.mark list = some list') :
    ∃ before rest, list = before ++ found :: rest ∧ list' = before ++ found.mark :: rest := by
  obtain ⟨before, rest, rfl⟩ := List.append_of_mem present
  rw [assign_append _ ordered.absent] at marked
  exact ⟨before, rest, rfl, (some.inj marked).symm⟩

theorem Ordered.mark {before rest : List Filock} {found : Filock} (ordered : Ordered (before ++ found :: rest)) :
    Ordered (before ++ found.mark :: rest) :=
  have fits := ordered.fits
  ordered.drop.insert ⟨fits.below, fits.above, fits.apart, fits.range, fits.kind, fits.fresh⟩

/-! ## Exclusion -/

/-- The call a process is in. -/
def Proc.call : Proc → Option Call
  | .idle => none
  | .asleep call _ _ => some call
  | .ready call _ => some call

/-- What the lists and the calls satisfy whatever becomes of `wakeflg`. -/
structure Locked (s : System) : Prop where
  ordered : ∀ vp, Ordered (s.filocks vp)
  compatible : ∀ vp, Compatible (s.filocks vp)
  owner : ∀ o call, (s.proc o).call = some call → call.lckdat.owner = o
  range : ∀ o call, (s.proc o).call = some call → call.lckdat.lStart ≤ call.lckdat.lEnd

section
variable {s t : System} {vp : Vnode} {list : List Filock} {woken : List Addr} {o : Owner} {p : Proc}
  {call : Call} {turn : Turn}

theorem Proc.wake_call : (p.wake woken).call = p.call := by
  cases p with
  | idle => rfl
  | asleep call sf chan =>
    simp only [Proc.wake]
    split
    · rfl
    · rfl
  | ready => rfl

theorem Proc.wake_asleep {sf chan : Addr} (asleep : p.wake woken = .asleep call sf chan) :
    p = .asleep call sf chan ∧ chan ∉ woken := by
  cases p with
  | idle => cases asleep
  | asleep call' sf' chan' =>
    simp only [Proc.wake] at asleep
    split at asleep
    · cases asleep
    · next quiet =>
      cases asleep
      exact ⟨rfl, quiet⟩
  | ready => cases asleep

theorem Turn.proc_call {call' : Call} (running : (turn.proc call).call = some call') : call' = call := by
  cases turn with
  | ret => cases running
  | sleep => exact (some.inj running).symm

theorem Locked.store (locked : Locked s) (ordered : Ordered list) (compatible : Compatible list) :
    Locked (s.store vp list woken) where
  ordered v := by
    by_cases here : v = vp
    · subst here
      simpa [System.store] using ordered
    · simpa [System.store, here] using locked.ordered v
  compatible v := by
    by_cases here : v = vp
    · subst here
      simpa [System.store] using compatible
    · simpa [System.store, here] using locked.compatible v
  owner o call running := locked.owner o call (by rwa [← Proc.wake_call])
  range o call running := locked.range o call (by rwa [← Proc.wake_call])

theorem Locked.put (locked : Locked s) (owner : ∀ call, p.call = some call → call.lckdat.owner = o)
    (range : ∀ call, p.call = some call → call.lckdat.lStart ≤ call.lckdat.lEnd) : Locked (s.put o p) where
  ordered := locked.ordered
  compatible := locked.compatible
  owner o' call running := by
    by_cases here : o' = o
    · subst here
      exact owner call (by simpa [System.put] using running)
    · exact locked.owner o' call (by simpa [System.put, here] using running)
  range o' call running := by
    by_cases here : o' = o
    · subst here
      exact range call (by simpa [System.put] using running)
    · exact locked.range o' call (by simpa [System.put, here] using running)

theorem Locked.turned (locked : Locked t) (owner : call.lckdat.owner = o)
    (range : call.lckdat.lStart ≤ call.lckdat.lEnd) : Locked (t.put o (turn.proc call)) := by
  apply locked.put
  · intro call' running
    rw [Turn.proc_call running]
    exact owner
  · intro call' running
    rw [Turn.proc_call running]
    exact range

theorem Locked.entries (locked : Locked s) (sleeplcks : List Filock) : Locked { s with sleeplcks } :=
  ⟨locked.ordered, locked.compatible, locked.owner, locked.range⟩

theorem Locked.idle (locked : Locked s) : Locked (s.put o .idle) := by
  apply locked.put
  · intro _ running
    cases running
  · intro _ running
    cases running

theorem Locked.round {used used' : Addr → Prop} {kmem : Kmem used} {sleepmem : Kmem used'} {fuel : Nat}
    (locked : Locked s) (range : call.lckdat.lStart ≤ call.lckdat.lEnd)
    (round : Round kmem sleepmem fuel s call t turn) : Locked t := by
  have ordered := locked.ordered call.vp
  have compatible := locked.compatible call.vp
  cases round with
  | quiet => exact locked
  | deadlock => exact locked
  | adjust insrt result starts adjusted =>
    obtain ⟨result', again, ok⟩ := flckadj_starts kmem ordered range starts
    cases adjusted.symm.trans again
    exact locked.store ok.ordered (ok.compatible ordered compatible (starts.free ordered range))
  | sleep found sf list first _ _ marked =>
    obtain ⟨present, _⟩ := blocked_some range ordered first
    obtain ⟨before, rest, shape, rfl⟩ := assign_mark ordered present marked
    apply Locked.entries
    apply locked.store (shape ▸ ordered).mark
    apply compatible.of_sets
    intro f member
    rw [shape]
    rcases List.mem_append.mp member with member | member
    · exact ⟨f, by simp [member], rfl⟩
    · rcases List.mem_cons.mp member with rfl | member
      · exact ⟨found, by simp, rfl⟩
      · exact ⟨f, by simp [member], rfl⟩

theorem cleanlocks_sublist (pid sysid : Int) : (cleanlocks pid sysid list).1.Sublist list := by
  rw [cleanlocks_fst]
  exact List.filter_sublist

theorem Locked.step {event : Event} (locked : Locked s) (step : Step s event t) : Locked t := by
  cases step with
  | reject => exact locked
  | call vattr vattr' lckdat flag fuel kmem sleepmem idle owner whence entry round =>
    obtain ⟨same, range⟩ := reclockEntry_ok entry
    exact (locked.round range (reclockTurn_round round)).turned (same.trans owner) range
  | unsleep asleep =>
    apply locked.put
    · intro call' same
      exact locked.owner _ call' (by rw [asleep]; exact same)
    · intro call' same
      exact locked.range _ call' (by rw [asleep]; exact same)
  | interrupt vattr ready left =>
    obtain ⟨before, node, rest, _, _, _, rfl⟩ := leave_some left
    exact (locked.entries _).idle
  | resume vattr fuel kmem sleepmem ready left round =>
    have owner := locked.owner _ _ (by rw [ready]; rfl)
    have range := locked.range _ _ (by rw [ready]; rfl)
    obtain ⟨before, node, rest, _, _, _, rfl⟩ := leave_some left
    exact ((locked.entries _).round range (reclockTurn_round round)).turned owner range
  | clean vp pid sysid =>
    have sub := (@cleanlocks_sublist (s.filocks vp)) pid sysid
    apply locked.store ((locked.ordered vp).sublist sub)
    exact (locked.compatible vp).of_sets fun f member => ⟨f, sub.subset member, rfl⟩

theorem Locked.boot (boot : System.Boot s) : Locked s := by
  obtain ⟨empty, _, idle⟩ := boot
  constructor
  · intro vp
    simpa [empty vp] using Ordered.nil
  · intro vp
    simp [empty vp, Compatible]
  · intro o call running
    simp [idle o, Proc.call] at running
  · intro o call running
    simp [idle o, Proc.call] at running

end

/-! ## Sleepers -/

/-- A marked lock at `chan` for which `lock` holds. -/
def System.Marked (s : System) (vp : Vnode) (chan : Addr) (lock : Flock → Prop) : Prop :=
  ∃ f ∈ s.filocks vp, f.addr = chan ∧ lock f.set ∧ f.stat.wakeflg ≠ 0

/-- The lock at `chan` still stands in the way of the call and will wake it. -/
def System.Waits (s : System) (call : Call) (chan : Addr) : Prop :=
  ∃ f ∈ s.filocks call.vp, f.addr = chan ∧ Conflicts call.lckdat f.set ∧ f.stat.wakeflg ≠ 0

def Alert (s : System) : Prop :=
  ∀ o call sf chan, s.proc o = .asleep call sf chan → s.Waits call chan

/-- No request goes to sleep on a lock whose `wakeflg` is about to wrap to zero. -/
def Unsaturated (s : System) (event : Event) : Prop :=
  ∀ o call sf chan, event = .turn o call (.sleep sf chan) →
    ∀ f ∈ s.filocks call.vp, f.addr = chan → toInt f.stat.wakeflg ≠ -1

section
variable {s t : System} {vp : Vnode} {list list' : List Filock} {woken : List Addr} {o : Owner} {p : Proc}
  {call : Call} {turn : Turn}

/-- Each marked lock stays as it is, still marked, or its sleepers are woken. -/
def Wakes (list list' : List Filock) (woken : List Addr) : Prop :=
  ∀ f ∈ list, f.stat.wakeflg ≠ 0 → f.addr ∈ woken ∨
    ∃ g ∈ list', g.addr = f.addr ∧ g.set = f.set ∧ g.stat.wakeflg ≠ 0

theorem wakes_mark {before rest : List Filock} {found : Filock} (counted : toInt found.stat.wakeflg ≠ -1) :
    Wakes (before ++ found :: rest) (before ++ found.mark :: rest) [] := by
  intro f member marked
  refine .inr ?_
  rcases List.mem_append.mp member with member | member
  · exact ⟨f, by simp [member], rfl, rfl, marked⟩
  · rcases List.mem_cons.mp member with rfl | member
    · exact ⟨f.mark, by simp, rfl, rfl, mark_nonzero counted⟩
    · exact ⟨f, by simp [member], rfl, rfl, marked⟩

theorem AdjustedOk.wakes_all {ld : Flock} {result : Adjusted} (ok : AdjustedOk list ld result) :
    Wakes list result.list result.woken := by
  intro f member marked
  rcases ok.wakes f member with kept | woken
  · exact .inr ⟨f, kept, rfl, rfl, marked⟩
  · exact .inl (woken marked)

theorem System.Marked.store {at_ : Vnode} {chan : Addr} {lock : Flock → Prop} (marked : s.Marked at_ chan lock)
    (wakes : Wakes (s.filocks vp) list woken) (quiet : chan ∉ woken) :
    (s.store vp list woken).Marked at_ chan lock := by
  obtain ⟨f, member, rfl, holds, marked⟩ := marked
  by_cases here : at_ = vp
  · subst here
    rcases wakes f member marked with woken | ⟨g, present, same, set, marked'⟩
    · exact absurd woken quiet
    · exact ⟨g, by simpa [System.store] using present, same, set ▸ holds, marked'⟩
  · exact ⟨f, by simpa [System.store, here] using member, rfl, holds, marked⟩

theorem Alert.store (alert : Alert s) (wakes : Wakes (s.filocks vp) list woken) :
    Alert (s.store vp list woken) := by
  intro o call sf chan asleep
  obtain ⟨before, quiet⟩ := Proc.wake_asleep asleep
  have marked : s.Marked call.vp chan (Conflicts call.lckdat) := alert o call sf chan before
  exact marked.store wakes quiet

theorem Alert.put (alert : Alert s) (waits : ∀ call sf chan, p = .asleep call sf chan → s.Waits call chan) :
    Alert (s.put o p) := by
  intro o' call sf chan asleep
  by_cases here : o' = o
  · subst here
    exact waits call sf chan (by simpa [System.put] using asleep)
  · exact alert o' call sf chan (by simpa [System.put, here] using asleep)

theorem Alert.idle (alert : Alert s) : Alert (s.put o .idle) := by
  apply alert.put
  intro _ _ _ same
  cases same

theorem Alert.turned (alert : Alert t) (waits : ∀ sf chan, turn = .sleep sf chan → t.Waits call chan) :
    Alert (t.put o (turn.proc call)) := by
  cases turn with
  | ret => exact alert.idle
  | sleep sf chan =>
    apply alert.put
    intro _ _ _ same
    cases same
    exact waits sf chan rfl

theorem Alert.round {used used' : Addr → Prop} {kmem : Kmem used} {sleepmem : Kmem used'} {fuel : Nat}
    (alert : Alert s) (locked : Locked s) (range : call.lckdat.lStart ≤ call.lckdat.lEnd)
    (round : Round kmem sleepmem fuel s call t turn)
    (counted : ∀ sf chan, turn = .sleep sf chan →
      ∀ f ∈ s.filocks call.vp, f.addr = chan → toInt f.stat.wakeflg ≠ -1) :
    Alert t ∧ ∀ sf chan, turn = .sleep sf chan → t.Waits call chan := by
  have ordered := locked.ordered call.vp
  cases round with
  | quiet => exact ⟨alert, nofun⟩
  | deadlock => exact ⟨alert, nofun⟩
  | adjust insrt result starts adjusted =>
    obtain ⟨result', again, ok⟩ := flckadj_starts kmem ordered range starts
    cases adjusted.symm.trans again
    exact ⟨alert.store ok.wakes_all, nofun⟩
  | sleep found sf list first _ _ marked =>
    obtain ⟨present, conflict⟩ := blocked_some range ordered first
    obtain ⟨before, rest, shape, rfl⟩ := assign_mark ordered present marked
    have counted := counted _ _ rfl found present rfl
    constructor
    · exact alert.store (shape ▸ wakes_mark counted)
    · intro _ chan same
      cases same
      exact ⟨found.mark, by simp [System.store], rfl, conflict, mark_nonzero counted⟩

theorem Unsaturated.marks {vattr : Except Errno Int}
    (counted : Unsaturated s (.turn o call (turn.restore vattr call))) (sf chan : Addr)
    (same : turn = .sleep sf chan) :
    ∀ f ∈ s.filocks call.vp, f.addr = chan → toInt f.stat.wakeflg ≠ -1 :=
  counted o call sf chan (by rw [same]; rfl)

theorem Alert.step {event : Event} (alert : Alert s) (locked : Locked s) (step : Step s event t)
    (counted : Unsaturated s event) : Alert t := by
  cases step with
  | reject => exact alert
  | call vattr vattr' lckdat flag fuel kmem sleepmem idle owner whence entry round =>
    obtain ⟨alert, waits⟩ := alert.round locked (reclockEntry_ok entry).2 (reclockTurn_round round)
      (Unsaturated.marks counted)
    exact alert.turned waits
  | unsleep asleep =>
    apply alert.put
    intro _ _ _ same
    cases same
  | interrupt vattr ready left =>
    obtain ⟨before, node, rest, _, _, _, rfl⟩ := leave_some left
    exact Alert.idle alert
  | resume vattr fuel kmem sleepmem ready left round =>
    have range := locked.range _ _ (by rw [ready]; rfl)
    obtain ⟨before, node, rest, _, _, _, rfl⟩ := leave_some left
    have alert : Alert { s with sleeplcks := before ++ rest } := alert
    obtain ⟨alert, waits⟩ := alert.round (locked.entries _) range (reclockTurn_round round)
      (Unsaturated.marks counted)
    exact alert.turned waits
  | clean vp pid sysid =>
    apply alert.store
    intro f member marked
    exact (cleanlocks_wakes member marked).imp id fun kept => ⟨f, kept, rfl, rfl, marked⟩

/-- While no `wakeflg` wraps, locks exclude each other and no wakeup is lost. -/
theorem reclock_waits (reached : Reaches System.Boot Step Unsaturated s) :
    (∀ vp, Compatible (s.filocks vp)) ∧
      ∀ o call sf chan, s.proc o = .asleep call sf chan → s.Waits call chan := by
  have sound : Locked s ∧ Alert s := by
    apply reached.invariant
    · intro s boot
      refine ⟨.boot boot, ?_⟩
      intro o call sf chan asleep
      simp [boot.2.2 o] at asleep
    · rintro s event t ⟨locked, alert⟩ step counted
      exact ⟨locked.step step, alert.step locked step counted⟩
  exact ⟨sound.1.compatible, sound.2⟩

end

/-! ## A lock on which many sleeps were interrupted -/

/-- A write request for the first ten bytes of a file. -/
def writer (vp : Vnode) (pid : Int) : Call := ⟨vp, ⟨.wrlck, 0, 0, 9, 0, pid⟩, ⟨true, true⟩, 0, 0⟩

theorem writer_entry (vp : Vnode) (pid : Int) :
    reclockEntry (.ok 0) ⟨.wrlck, 0, 0, 10, 0, pid⟩ (writer vp pid).cmd ⟨true, true⟩ (writer vp pid).offset =
      .ok (writer vp pid).lckdat :=
  rfl

def boot : System := ⟨fun _ => [], [], fun _ => .idle⟩

theorem writer_granted {s : System} {vp : Vnode} (pid : Int) {bound : Addr} (empty : s.filocks vp = [])
    (idle : s.proc ⟨pid, 0⟩ = .idle) (below : ∀ addr, s.elsewhere vp addr → addr < bound) :
    Step s (.turn ⟨pid, 0⟩ (writer vp pid) (.ret none ⟨.wrlck, 0, 0, 10, 0, pid⟩))
      ((s.store vp [⟨bound + 1, (writer vp pid).lckdat, ⟨0, 0⟩⟩] []).put ⟨pid, 0⟩ .idle) := by
  have list : s.filocks (writer vp pid).vp = [] := empty
  have round : (@reclockTurn _ s.onVnode) (.above bound below) ⟨fun _ => none, nofun⟩ 0 s
      (writer vp pid) = some (s.store vp [⟨bound + 1, (writer vp pid).lckdat, ⟨0, 0⟩⟩] [],
        .ret none (writer vp pid).lckdat) := by
    unfold reclockTurn
    rw [list]
    change adjustLocks _ s (writer vp pid) none = _
    rw [adjustLocks, list]
    rfl
  exact .call (.ok 0) (.ok 0) ⟨.wrlck, 0, 0, 10, 0, pid⟩ ⟨true, true⟩ 0 _ _ idle rfl rfl
    (writer_entry vp pid) round

/-- Process 1 has the lock of vnode 0, and `count` is its `wakeflg`. -/
structure Contended (s : System) (count : Int) : Prop where
  held : s.filocks 0 = [⟨1, (writer 0 1).lckdat, ⟨count, 0⟩⟩]
  sleeplcks : s.sleeplcks = []
  idle : s.proc ⟨2, 0⟩ = .idle
  below : ∀ addr, s.onVnode addr → addr < 9

/-- Process 2 is asleep on it. -/
structure Queued (s : System) (count : Int) : Prop where
  held : s.filocks 0 = [⟨1, (writer 0 1).lckdat, ⟨count, 0⟩⟩]
  sleeplcks : s.sleeplcks = [⟨10, (writer 0 2).lckdat, ⟨0, 1⟩⟩]
  asleep : s.proc ⟨2, 0⟩ = .asleep (writer 0 2) 10 1
  below : ∀ addr, s.onVnode addr → addr < 9

section
variable {s : System} {count : Int}

theorem contended_granted : ∃ t,
    Step boot (.turn ⟨1, 0⟩ (writer 0 1) (.ret none ⟨.wrlck, 0, 0, 10, 0, 1⟩)) t ∧ Contended t 0 ∧
      (∀ vp, vp ≠ 0 → t.filocks vp = []) ∧ t.proc ⟨1, 0⟩ = .idle := by
  have below (addr : Addr) : boot.elsewhere 0 addr → addr < 0 := by
    simp [System.elsewhere, boot]
  have alone (vp : Vnode) (other : vp ≠ 0) : Function.update boot.filocks 0
      [⟨0 + 1, (writer 0 1).lckdat, ⟨0, 0⟩⟩] vp = [] := by
    simp [other, boot]
  refine ⟨_, writer_granted 1 rfl rfl below, ?_, alone, ?_⟩
  · constructor
    · simp [System.put, System.store]
    · simp [System.put, System.store, boot]
    · simp [System.put, System.store, boot, Proc.wake]
    · rintro addr ⟨vp, member⟩
      by_cases here : vp = 0
      · subst here
        simp [System.put, System.store] at member
        subst member
        decide
      · simp [System.put, System.store, alone vp here] at member
  · simp [System.put]

theorem Contended.sleep (contended : Contended s count) :
    ∃ t, Step s (.turn ⟨2, 0⟩ (writer 0 2) (.sleep 10 1)) t ∧ Queued t (toInt (count + 1)) ∧
      (∀ vp, vp ≠ 0 → t.filocks vp = s.filocks vp) ∧ t.proc ⟨1, 0⟩ = s.proc ⟨1, 0⟩ := by
  let held : Filock := ⟨1, (writer 0 1).lckdat, ⟨count, 0⟩⟩
  have list : s.filocks (writer 0 2).vp = [held] := contended.held
  have found : blocked [held] (writer 0 2).lckdat = (some held, none) := rfl
  have alive : deadflck 2 [] held (writer 0 2).lckdat = some false := rfl
  have round : (@reclockTurn (s.elsewhere (writer 0 2).vp)) ⟨fun _ => none, nofun⟩
      (.above 9 contended.below) 2 s (writer 0 2) = some ({ s.store 0 [held.mark] [] with
        sleeplcks := [⟨10, (writer 0 2).lckdat, ⟨0, 1⟩⟩] }, .sleep 10 1) := by
    unfold reclockTurn
    rw [list, found]
    simp only [sleepOn, list, contended.sleeplcks, alive]
    rfl
  have awake (p : Proc) : p.wake [] = p := by cases p <;> simp [Proc.wake]
  refine ⟨_, .call (.ok 0) (.ok 0) ⟨.wrlck, 0, 0, 10, 0, 2⟩ ⟨true, true⟩ 2 _ _ contended.idle rfl rfl
    (writer_entry 0 2) round, ?_, ?_, ?_⟩
  · constructor
    · simp [System.put, System.store, held, Filock.mark]
    · simp [System.put]
    · simp [System.put, Turn.proc]
    · rintro addr ⟨vp, member⟩
      apply contended.below
      refine ⟨vp, ?_⟩
      by_cases here : vp = 0
      · subst here
        simpa [System.put, System.store, contended.held, held, Filock.mark] using member
      · simpa [System.put, System.store, here] using member
  · intro vp other
    simp [System.put, System.store, other]
  · simp [System.put, System.store, awake]

theorem Queued.interrupted (queued : Queued s count) :
    ∃ t u, Step s (.unsleep ⟨2, 0⟩) t ∧
      Step t (.turn ⟨2, 0⟩ (writer 0 2) (.ret (some .eintr) ⟨.wrlck, 0, 0, 10, 0, 2⟩)) u ∧
      Contended u count := by
  have ready : (s.put ⟨2, 0⟩ (.ready (writer 0 2) 10)).proc ⟨2, 0⟩ = .ready (writer 0 2) 10 := by
    simp [System.put]
  have left : (s.put ⟨2, 0⟩ (.ready (writer 0 2) 10)).leave 10 =
      some { s.put ⟨2, 0⟩ (.ready (writer 0 2) 10) with sleeplcks := [] } := by
    have awake (p : Proc) : p.wake [] = p := by cases p <;> simp [Proc.wake]
    simp [System.leave, System.put, queued.sleeplcks, assign, delflck, wakeup, awake]
  refine ⟨_, _, .unsleep queued.asleep, .interrupt (.ok 0) ready left, ?_⟩
  constructor
  · simpa [System.put] using queued.held
  · simp [System.put]
  · simp [System.put]
  · exact queued.below

theorem contended_reached (n : Nat) :
    ∃ s, Reaches System.Boot Step (fun _ _ => True) s ∧ Contended s (toInt n) := by
  induction n with
  | zero =>
    obtain ⟨t, granted, contended, _⟩ := contended_granted
    exact ⟨t, .next (.start ⟨fun _ => rfl, rfl, fun _ => rfl⟩) granted trivial, contended⟩
  | succ n ih =>
    obtain ⟨s, reached, contended⟩ := ih
    obtain ⟨t, slept, queued, _⟩ := contended.sleep
    obtain ⟨u, v, woken, interrupted, contended⟩ := queued.interrupted
    have count : toInt (toInt n + 1) = toInt (n + 1 : Nat) := by
      simp [toInt]
    rw [count] at contended
    exact ⟨v, .next (.next (.next reached slept trivial) woken trivial) interrupted trivial, contended⟩

end

theorem reclock_waits_queued : ∃ s, Reaches System.Boot Step Unsaturated s ∧
    s.proc ⟨2, 0⟩ = .asleep (writer 0 2) 10 1 ∧ s.Waits (writer 0 2) 1 := by
  obtain ⟨t, granted, contended, _⟩ := contended_granted
  obtain ⟨u, slept, queued, _⟩ := contended.sleep
  have reached : Reaches System.Boot Step Unsaturated u := by
    apply Reaches.next (.next (.start ⟨fun _ => rfl, rfl, fun _ => rfl⟩) granted ?_) slept
    · intro o call sf chan same f member at_
      cases same
      have member : f ∈ t.filocks 0 := member
      rw [contended.held, List.mem_singleton] at member
      rw [member]
      decide
    · intro o call sf chan same
      cases same
  exact ⟨u, reached, queued.asleep, (reclock_waits reached).2 _ _ _ _ queued.asleep⟩

/-- After 2^32 - 1 interrupted sleeps the next one wraps `wakeflg` to zero, and
nothing will wake the sleeper. -/
theorem reclock_waits_wrapped : ∃ s, Reaches System.Boot Step (fun _ _ => True) s ∧
    ¬ ∀ o call sf chan, s.proc o = .asleep call sf chan → s.Waits call chan := by
  obtain ⟨s, reached, contended⟩ := contended_reached 4294967295
  obtain ⟨t, slept, queued, _⟩ := contended.sleep
  refine ⟨t, .next reached slept trivial, fun waits => ?_⟩
  obtain ⟨f, member, _, _, marked⟩ := waits _ _ _ _ queued.asleep
  have member : f ∈ t.filocks 0 := member
  rw [queued.held, List.mem_singleton] at member
  rw [member] at marked
  exact marked (by decide)

end Svr4.RecordLock
