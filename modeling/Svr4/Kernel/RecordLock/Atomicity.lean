import Svr4.Kernel.RecordLock.Failure
import Svr4.Kernel.RecordLock.Waiting

/-! A call of `reclock` that returns an error, with everything that other
processes do while it sleeps.

The parts of the call in which its own process runs leave the maps of the vnodes
alone, except where `flckadj` has given up locks before it ran out of memory.
-/

namespace Svr4.RecordLock

attribute [local simp] System.store

/-- A part of a call in which the process runs without interruption. `round` has
the request and the memory for record locks of a round of the loop; a part
without one only cleans up behind `SLEEP`. -/
structure Part where
  entered : System
  left : System
  round : Option (Call × (List Filock → Option Addr))

/-- Every byte of every vnode is locked as it was before. -/
def Part.Keeps (p : Part) : Prop :=
  ∀ vp o b, lockMap (p.left.filocks vp) o b = lockMap (p.entered.filocks vp) o b

/-- The round reaches `flckadj`. -/
def Admitted (list : List Filock) (call : Call) : Prop :=
  call.cmd.setflck ∧ (call.lckdat.lType = .unlck ∨
    (call.lckdat.lType = .rdlck ∨ call.lckdat.lType = .wrlck) ∧ ∀ f ∈ list, ¬ Conflicts call.lckdat f.set)

/-- A round that reaches `flckadj` has nothing to change, or fails at the first change. -/
def Part.Harmless (p : Part) : Prop :=
  ∀ call zalloc, p.round = some (call, zalloc) → Admitted (p.entered.filocks call.vp) call →
    Spared zalloc (p.entered.filocks call.vp) call.lckdat

/-- A step that the process itself does not take. -/
def Elsewhere (o : Owner) (_ : System) : Event → Prop
  | .turn o' _ _ => o' ≠ o
  | _ => True

/-- The parts of the loop of `reclock`, from its first round to its return. -/
inductive Loop (o : Owner) (call : Call) : System → List Part → Option Errno → Prop where
  | ret {s t : System} {retval : Option Errno} {lckdat : Flock} (fuel : Nat)
      (kmem : Kmem (s.elsewhere call.vp)) (sleepmem : Kmem s.onVnode) :
      reclockTurn kmem sleepmem fuel s call = some (t, .ret retval lckdat) →
      Loop o call s [⟨s, t, some (call, kmem.zalloc)⟩] retval
  /-- `SLEEP` returns non-zero. -/
  | interrupt {s t u v : System} {sf chan : Addr} (fuel : Nat)
      (kmem : Kmem (s.elsewhere call.vp)) (sleepmem : Kmem s.onVnode) :
      reclockTurn kmem sleepmem fuel s call = some (t, .sleep sf chan) →
      Reaches (· = t.put o (.asleep call sf chan)) Step (Elsewhere o) u →
      u.proc o = .ready call sf → u.leave sf = some v →
      Loop o call s [⟨s, t, some (call, kmem.zalloc)⟩, ⟨u, v, none⟩] (some .eintr)
  /-- `SLEEP` returns zero: the next round. -/
  | again {s t u v : System} {sf chan : Addr} {parts : List Part} {retval : Option Errno} (fuel : Nat)
      (kmem : Kmem (s.elsewhere call.vp)) (sleepmem : Kmem s.onVnode) :
      reclockTurn kmem sleepmem fuel s call = some (t, .sleep sf chan) →
      Reaches (· = t.put o (.asleep call sf chan)) Step (Elsewhere o) u →
      u.proc o = .ready call sf → u.leave sf = some v → Loop o call v parts retval →
      Loop o call s (⟨s, t, some (call, kmem.zalloc)⟩ :: ⟨u, v, none⟩ :: parts) retval

/-- A whole call of `reclock`. -/
inductive Reclock (o : Owner) (vattr : Except Errno Int) (vp : Vnode) (lckdat : Flock) (cmd : Cmd) (flag : Flag)
    (offset : Int) : System → List Part → Option Errno → Prop where
  | reject {s : System} {error : Errno} : reclockEntry vattr lckdat cmd flag offset = .error error →
      Reclock o vattr vp lckdat cmd flag offset s [⟨s, s, none⟩] (some error)
  | enter {s : System} {converted : Flock} {parts : List Part} {retval : Option Errno} :
      reclockEntry vattr lckdat cmd flag offset = .ok converted →
      Loop o ⟨vp, converted, cmd, lckdat.lWhence, offset⟩ s parts retval →
      Reclock o vattr vp lckdat cmd flag offset s parts retval

section
variable {used used' : Addr → Prop} {kmem : Kmem used} {sleepmem : Kmem used'} {fuel : Nat}
  {s t : System} {call : Call} {turn : Turn} {list list' : List Filock}

theorem lockMap_congr (same : list'.map Filock.set = list.map Filock.set) (o : Owner) (b : Int) :
    lockMap list' o b = lockMap list o b := by
  have sets (list : List Filock) : lockMap list o b =
      ((list.map Filock.set).find? fun f => f.owner = o ∧ f.lStart ≤ b ∧ b ≤ f.lEnd).map (·.lType) := by
    simp [lockMap, List.find?_map, Function.comp_def]
  rw [sets, sets, same]

theorem Lost.changed (lost : Lost list list') (ordered : Ordered list) (ordered' : Ordered list') :
    ∃ o b, lockMap list' o b ≠ lockMap list o b := by
  obtain ⟨o, b, t, held, gone⟩ := lost
  refine ⟨o, b, fun same => gone ?_⟩
  rwa [← lockMap_eq_some_iff ordered', same, lockMap_eq_some_iff ordered]

theorem Fate.keeps_iff {zalloc : List Filock → Option Addr} {ld : Flock} (fate : Fate zalloc list ld list')
    (ordered : Ordered list) (ordered' : Ordered list') :
    (∀ o b, lockMap list' o b = lockMap list o b) ↔ Spared zalloc list ld := by
  rcases fate with ⟨rfl, spared⟩ | ⟨lost, harmed⟩
  · exact iff_of_true (fun _ _ => rfl) spared
  · refine iff_of_false (fun same => ?_) harmed
    obtain ⟨o, b, changed⟩ := lost.changed ordered ordered'
    exact changed (same o b)

theorem Starts.admitted {insrt : Option Addr} (starts : Starts (s.filocks call.vp) call.lckdat insrt)
    (ordered : Ordered (s.filocks call.vp)) (range : call.lckdat.lStart ≤ call.lckdat.lEnd)
    (set : call.cmd.setflck) : Admitted (s.filocks call.vp) call := by
  refine ⟨set, ?_⟩
  by_cases unlock : call.lckdat.lType = .unlck
  · exact .inl unlock
  · refine .inr ⟨?_, starts.free ordered range unlock⟩
    unfold Starts at starts
    split at starts
    · next kind => exact absurd kind unlock
    · next kind => exact .inl kind
    · next kind => exact .inr kind
    · exact starts.elim

theorem Admitted.starts (admitted : Admitted (s.filocks call.vp) call) (ordered : Ordered (s.filocks call.vp))
    (range : call.lckdat.lStart ≤ call.lckdat.lEnd) :
    ∃ insrt, Starts (s.filocks call.vp) call.lckdat insrt ∧
      reclockTurn kmem sleepmem fuel s call = adjustLocks kmem s call insrt := by
  obtain ⟨set, unlock | ⟨kind, free⟩⟩ := admitted
  · exact ⟨(s.filocks call.vp).head?.map Filock.addr, by simp [Starts, unlock], by simp [reclockTurn, unlock, set]⟩
  · have answer : (blocked (s.filocks call.vp) call.lckdat).1 = none := by
      rw [blocked_fst range ordered, List.find?_eq_none]
      simpa using free
    generalize scan : blocked (s.filocks call.vp) call.lckdat = result at answer
    obtain ⟨found, insrt⟩ := result
    obtain rfl : found = none := answer
    rcases kind with kind | kind
    · exact ⟨insrt, by simp [Starts, kind, scan], by simp [reclockTurn, kind, scan, set]⟩
    · exact ⟨insrt, by simp [Starts, kind, scan], by simp [reclockTurn, kind, scan, set]⟩

theorem reclockTurn_refused (ordered : Ordered (s.filocks call.vp))
    (range : call.lckdat.lStart ≤ call.lckdat.lEnd) (refused : ¬ Admitted (s.filocks call.vp) call)
    (round : reclockTurn kmem sleepmem fuel s call = some (t, turn)) (vp : Vnode) (o : Owner) (b : Int) :
    lockMap (t.filocks vp) o b = lockMap (s.filocks vp) o b := by
  cases reclockTurn_round round with
  | quiet => rfl
  | deadlock => rfl
  | adjust insrt result starts adjusted =>
    have query : ¬ call.cmd.setflck := fun set => refused (starts.admitted ordered range set)
    have same : (reclockTurn kmem sleepmem fuel s call).map Prod.fst = some s := by
      unfold Starts at starts
      unfold reclockTurn
      split at starts
      · next kind => simp [kind, query]
      · next kind => simp [kind, starts, query]
      · next kind => simp [kind, starts, query]
      · exact starts.elim
    rw [round] at same
    have quiet : s.store call.vp result.list result.woken = s := Option.some.inj same
    rw [quiet]
  | sleep found sf list first _ _ marked =>
    obtain ⟨present, _⟩ := blocked_some range ordered first
    obtain ⟨before, rest, shape, rfl⟩ := assign_mark ordered present marked
    apply lockMap_congr
    by_cases here : vp = call.vp
    · subst here
      simp [shape, Filock.mark]
    · simp [here]

theorem reclockTurn_keeps (locked : Locked s) (range : call.lckdat.lStart ≤ call.lckdat.lEnd)
    (round : reclockTurn kmem sleepmem fuel s call = some (t, turn))
    (unfinished : ∀ lckdat, turn ≠ .ret none lckdat) :
    Part.Keeps ⟨s, t, some (call, kmem.zalloc)⟩ ↔ Part.Harmless ⟨s, t, some (call, kmem.zalloc)⟩ := by
  have ordered := locked.ordered call.vp
  by_cases admitted : Admitted (s.filocks call.vp) call
  · obtain ⟨insrt, starts, same⟩ := (@Admitted.starts _ _ kmem sleepmem fuel) admitted ordered range
    rw [same] at round
    obtain ⟨result, returned, stored⟩ := Option.bind_eq_some_iff.mp round
    cases stored
    have failed : result.retval ≠ none := fun done => unfinished result.ld (by rw [done])
    have fate := flckadj_fate ordered range starts returned failed
    obtain ⟨result', again, ok⟩ := flckadj_starts kmem ordered range starts
    cases returned.symm.trans again
    have iff := fate.keeps_iff ordered ok.ordered
    have harmless : Part.Harmless ⟨s, s.store call.vp result.list result.woken, some (call, kmem.zalloc)⟩ ↔
        Spared kmem.zalloc (s.filocks call.vp) call.lckdat := by
      refine ⟨fun harmless => harmless call kmem.zalloc rfl admitted, ?_⟩
      rintro spared _ _ ⟨⟩ _
      exact spared
    rw [harmless, ← iff]
    constructor
    · intro keeps o b
      simpa using keeps call.vp o b
    · intro same vp o b
      by_cases here : vp = call.vp
      · subst here
        simpa using same o b
      · simp [here]
  · refine iff_of_true (reclockTurn_refused ordered range admitted round) ?_
    rintro _ _ ⟨⟩ reached
    exact absurd reached admitted

end

section
variable {o : Owner} {s : System} {call : Call} {parts : List Part} {error : Errno}

theorem Part.cleanup {u v : System} {sf : Addr} (left : u.leave sf = some v) :
    Part.Keeps ⟨u, v, none⟩ ↔ Part.Harmless ⟨u, v, none⟩ := by
  obtain ⟨_, _, _, _, _, _, rfl⟩ := leave_some left
  exact iff_of_true (fun _ _ _ => rfl) (by simp [Part.Harmless])

theorem Locked.slept {t u : System} {sf chan : Addr} {fuel : Nat} {kmem : Kmem (s.elsewhere call.vp)}
    {sleepmem : Kmem s.onVnode} (locked : Locked s) (owner : call.lckdat.owner = o)
    (range : call.lckdat.lStart ≤ call.lckdat.lEnd)
    (round : reclockTurn kmem sleepmem fuel s call = some (t, .sleep sf chan))
    (others : Reaches (· = t.put o (.asleep call sf chan)) Step (Elsewhere o) u) : Locked u := by
  apply others.invariant
  · rintro _ rfl
    have asleep : Locked (t.put o ((Turn.sleep sf chan).proc call)) :=
      (locked.round range (reclockTurn_round round)).turned owner range
    exact asleep
  · intro _ _ _ locked step _
    exact locked.step step

theorem Loop.keeps (loop : Loop o call s parts (some error)) (locked : Locked s)
    (owner : call.lckdat.owner = o) (range : call.lckdat.lStart ≤ call.lckdat.lEnd) :
    ∀ p ∈ parts, p.Keeps ↔ p.Harmless := by
  generalize same : some error = retval at loop
  induction loop with
  | ret fuel kmem sleepmem round =>
    subst same
    simpa using reclockTurn_keeps locked range round (by simp)
  | interrupt fuel kmem sleepmem round others ready left =>
    have first := reclockTurn_keeps locked range round (by simp)
    simpa using ⟨first, Part.cleanup left⟩
  | again fuel kmem sleepmem round others ready left _ ih =>
    have first := reclockTurn_keeps locked range round (by simp)
    have slept := locked.slept owner range round others
    obtain ⟨before, _, rest, _, _, _, shape⟩ := leave_some left
    have later := ih (shape ▸ slept.entries (before ++ rest)) same
    simpa using ⟨first, Part.cleanup left, later⟩

/-- Each part of a call that returns an error leaves all locks as they were if
and only if it is harmless. -/
theorem reclock_atomic {vattr : Except Errno Int} {vp : Vnode} {lckdat : Flock} {cmd : Cmd} {flag : Flag}
    {offset : Int} (locked : Locked s) (owner : lckdat.owner = o)
    (failed : Reclock o vattr vp lckdat cmd flag offset s parts (some error)) :
    ∀ p ∈ parts, p.Keeps ↔ p.Harmless := by
  generalize same : some error = retval at failed
  cases failed with
  | reject =>
    have quiet : Part.Keeps ⟨s, s, none⟩ ↔ Part.Harmless ⟨s, s, none⟩ :=
      iff_of_true (fun _ _ _ => rfl) (by simp [Part.Harmless])
    simpa using quiet
  | enter entry loop =>
    subst same
    obtain ⟨kept, range⟩ := reclockEntry_ok entry
    exact loop.keeps locked (kept.trans owner) range

end

/-! ## One lock and no memory -/

/-- The write lock of process 1 on the first ten bytes of vnode 0. -/
def owned : Filock := ⟨1, (writer 0 1).lckdat, ⟨0, 0⟩⟩

def ownedOnly : System := { boot with filocks := fun vp => if vp = 0 then [owned] else [] }

attribute [local simp] ownedOnly

def Kmem.empty (used : Addr → Prop) : Kmem used := ⟨fun _ => none, nofun⟩

theorem ownedOnly_locked : Locked ownedOnly where
  ordered vp := by
    by_cases here : vp = 0
    · exact ⟨by simp [here], by simp [here], by simp [here, owned, writer],
        by simp [here, owned, writer], by simp [here, addrs]⟩
    · simpa [here] using Ordered.nil
  compatible vp := by
    by_cases here : vp = 0 <;> simp [here, Compatible]
  owner := by simp [boot, Proc.call]
  range := by simp [boot, Proc.call]

/-- An unlock of the bytes 3 to 5 that cannot make the piece behind them. -/
theorem reclock_atomic_unlock : ∃ p, Reclock ⟨1, 0⟩ (.ok 0) 0 ⟨.unlck, 0, 3, 3, 0, 1⟩ ⟨true, true⟩ ⟨true, true⟩ 0
    ownedOnly [p] (some .enolck) ∧ p.Keeps := by
  let call : Call := ⟨0, ⟨.unlck, 0, 3, 5, 0, 1⟩, ⟨true, true⟩, 0, 0⟩
  let p : Part := ⟨ownedOnly, ownedOnly.store 0 [owned] [], some (call, (Kmem.empty (ownedOnly.elsewhere 0)).zalloc)⟩
  have entry : reclockEntry (.ok 0) ⟨.unlck, 0, 3, 3, 0, 1⟩ ⟨true, true⟩ ⟨true, true⟩ 0 = .ok call.lckdat := rfl
  have list : ownedOnly.filocks call.vp = [owned] := rfl
  have round : reclockTurn (Kmem.empty (ownedOnly.elsewhere call.vp)) (Kmem.empty ownedOnly.onVnode) 0 ownedOnly call =
      some (ownedOnly.store 0 [owned] [], .ret (some .enolck) call.lckdat) := by
    unfold reclockTurn
    rw [list]
    rw [adjustLocks, list]
    rfl
  have failed : Reclock ⟨1, 0⟩ (.ok 0) 0 ⟨.unlck, 0, 3, 3, 0, 1⟩ ⟨true, true⟩ ⟨true, true⟩ 0 ownedOnly [p]
      (some .enolck) := .enter entry (.ret 0 _ _ round)
  have owner : (⟨.unlck, 0, 3, 3, 0, 1⟩ : Flock).owner = ⟨1, 0⟩ := rfl
  refine ⟨p, failed, (reclock_atomic ownedOnly_locked owner failed p (.head _)).mpr ?_⟩
  rintro _ _ ⟨⟩ _
  refine .inr ⟨owned, (.head _), ⟨by decide, by decide, rfl⟩, fun g member _ => ?_⟩
  obtain rfl : g = owned := List.mem_singleton.mp member
  exact iff_of_true (.inl (by decide)) rfl

/-- A read lock on the same bytes: the old lock is gone and the new one is not made. -/
theorem reclock_loses : ¬ ∀ s parts error, Locked s →
    Reclock ⟨1, 0⟩ (.ok 0) 0 ⟨.rdlck, 0, 0, 10, 0, 1⟩ ⟨true, true⟩ ⟨true, true⟩ 0 s parts (some error) →
    ∀ p ∈ parts, p.Keeps := by
  intro atomic
  let call : Call := ⟨0, ⟨.rdlck, 0, 0, 9, 0, 1⟩, ⟨true, true⟩, 0, 0⟩
  let p : Part := ⟨ownedOnly, ownedOnly.store 0 [] [], some (call, (Kmem.empty (ownedOnly.elsewhere 0)).zalloc)⟩
  have entry : reclockEntry (.ok 0) ⟨.rdlck, 0, 0, 10, 0, 1⟩ ⟨true, true⟩ ⟨true, true⟩ 0 = .ok call.lckdat := rfl
  have list : ownedOnly.filocks call.vp = [owned] := rfl
  have round : reclockTurn (Kmem.empty (ownedOnly.elsewhere call.vp)) (Kmem.empty ownedOnly.onVnode) 0 ownedOnly call =
      some (ownedOnly.store 0 [] [], .ret (some .enolck) call.lckdat) := by
    unfold reclockTurn
    rw [list]
    rw [adjustLocks, list]
    rfl
  have failed : Reclock ⟨1, 0⟩ (.ok 0) 0 ⟨.rdlck, 0, 0, 10, 0, 1⟩ ⟨true, true⟩ ⟨true, true⟩ 0 ownedOnly [p]
      (some .enolck) := .enter entry (.ret 0 _ _ round)
  have kept : lockMap [] ⟨1, 0⟩ 4 = lockMap [owned] ⟨1, 0⟩ 4 :=
    atomic _ _ _ ownedOnly_locked failed p (.head _) 0 ⟨1, 0⟩ 4
  cases kept

end Svr4.RecordLock
