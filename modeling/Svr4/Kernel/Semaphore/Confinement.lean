import Svr4.Kernel.Semaphore.Steps

/-! The semaphores that `semop` uses belong to its set.

The numbers are compared with `sem_nsems` before the first pass. After a sleep the
operations are fetched again and are not compared, and an interrupted process
goes back to the semaphore it slept on without a look at the set.
-/

namespace Svr4.Semaphore

open Words Ipc Function
open Option (bind_eq_some_iff some)

attribute [local simp] System.setDs

/-! ## A pass uses the semaphores of its operations -/

section
variable {info : Seminfo} {slot : Slot} {pid semid : Int} {base num : Nat} {op : Sembuf}
  {ops done rest : List Sembuf} {w w' : Work} {error : Option Errno} {i : Nat} {verdict : Verdict} {outcome : Outcome}

theorem adjustUndo_touched {undo : Bool} {val : Int}
    (result : adjustUndo info slot semid undo val num w = some (w', error)) : w'.touched = w.touched := by
  unfold adjustUndo at result
  split at result
  · obtain ⟨⟨k, error'⟩, _, same⟩ := bind_eq_some_iff.mp result
    cases same
    rfl
  · cases result
    rfl

theorem wakeN_touched : (w.wakeN i).touched = w.touched := by
  unfold Work.wakeN
  split
  · rfl
  · rfl

theorem wakeZ_touched : (w.wakeZ i).touched = w.touched := by
  unfold Work.wakeZ
  split
  · rfl
  · rfl

theorem perform_touched {wake : Work → Work} (silent : ∀ w, (wake w).touched = w.touched)
    (result : perform info slot semid base op wake w = some (w', verdict)) : w'.touched = w.touched := by
  obtain ⟨⟨w₁, error⟩, made, result⟩ := bind_eq_some_iff.mp result
  have touched := adjustUndo_touched made
  cases error with
  | some error =>
    cases result
    exact touched
  | none =>
    cases result
    rw [silent]
    exact touched

theorem attempt_touched (result : attempt info slot semid base op w = some (w', verdict)) :
    w'.touched = w.touched ++ [op.semNum] := by
  have still {verdict' : Verdict} (result : some (w.touch op.semNum, verdict') = some (w', verdict)) :
      w'.touched = w.touched ++ [op.semNum] := by
    cases result
    rfl
  simp only [attempt] at result
  split at result
  · split at result
    · exact still result
    · exact perform_touched (fun w => by rw [wakeZ_touched, wakeN_touched]) result
  · split at result
    · split at result
      · exact perform_touched (fun w => wakeZ_touched) result
      · exact still result
    · split at result
      · exact still result
      · exact still result

theorem semundo_touched (result : semundo info slot semid base done w = some w') (used : num ∈ w'.touched) :
    num ∈ w.touched ∨ ∃ op ∈ done, op.semNum = num := by
  induction done generalizing w with
  | nil =>
    cases result
    exact .inl used
  | cons op done ih =>
    unfold semundo at result
    split at result
    · rcases ih result with before | ⟨other, member, same⟩
      · exact .inl before
      · exact .inr ⟨other, by simp [member], same⟩
    · obtain ⟨⟨w₁, error⟩, made, result⟩ := bind_eq_some_iff.mp result
      rcases ih result with before | ⟨other, member, same⟩
      · rw [adjustUndo_touched made] at before
        rcases List.mem_append.mp before with before | here
        · exact .inl before
        · exact .inr ⟨op, by simp, (List.mem_singleton.mp here).symm⟩
      · exact .inr ⟨other, by simp [member], same⟩

theorem stamp_touched (used : num ∈ (stamp pid base ops w).touched) :
    num ∈ w.touched ∨ ∃ op ∈ ops, op.semNum = num := by
  induction ops generalizing w with
  | nil => exact .inl used
  | cons op ops ih =>
    rcases ih used with before | ⟨other, member, same⟩
    · rcases List.mem_append.mp before with before | here
      · exact .inl before
      · exact .inr ⟨op, by simp, (List.mem_singleton.mp here).symm⟩
    · exact .inr ⟨other, by simp [member], same⟩

/-- The operation that a pass sleeps on. -/
def Outcome.waitsFor (semid : Int) (ops : List Sembuf) : Outcome → Prop
  | .sleep _ wait => wait.semid = semid ∧ wait.op ∈ ops
  | _ => True

theorem semopFrom_touched (behind : ∀ op ∈ done, op ∈ ops) (ahead : ∀ op ∈ rest, op ∈ ops)
    (result : semopFrom info slot pid semid base ops done rest w = some (w', outcome)) :
    (∀ num ∈ w'.touched, num ∈ w.touched ∨ ∃ op ∈ ops, op.semNum = num) ∧ outcome.waitsFor semid ops := by
  induction rest generalizing done w with
  | nil =>
    cases result
    exact ⟨fun num used => stamp_touched used, trivial⟩
  | cons op rest ih =>
    obtain ⟨⟨w₁, verdict⟩, tried, result⟩ := bind_eq_some_iff.mp result
    have touched := attempt_touched tried
    have here : op ∈ ops := ahead op (by simp)
    have first (num : Nat) (used : num ∈ w₁.touched) : num ∈ w.touched ∨ ∃ op ∈ ops, op.semNum = num := by
      rw [touched] at used
      rcases List.mem_append.mp used with before | used
      · exact .inl before
      · exact .inr ⟨op, here, (List.mem_singleton.mp used).symm⟩
    -- The rollback goes through operations that the pass has behind it.
    have undone {w₂ : Work} (undone : semundo info slot semid base done w₁ = some w₂) (num : Nat)
        (used : num ∈ w₂.touched) : num ∈ w.touched ∨ ∃ op ∈ ops, op.semNum = num := by
      rcases semundo_touched undone used with before | ⟨other, member, same⟩
      · exact first num before
      · exact .inr ⟨other, behind other member, same⟩
    cases verdict with
    | ok =>
      obtain ⟨later, waits⟩ := ih (fun other member => by
        rcases List.mem_cons.mp member with rfl | member
        · exact here
        · exact behind other member) (fun other member => ahead other (by simp [member])) result
      refine ⟨fun num used => ?_, waits⟩
      rcases later num used with before | inside
      · exact first num before
      · exact .inr inside
    | fail error =>
      obtain ⟨w₂, back, result⟩ := bind_eq_some_iff.mp result
      cases result
      exact ⟨undone back, trivial⟩
    | block chan =>
      obtain ⟨w₂, back, result⟩ := bind_eq_some_iff.mp result
      split at result
      · cases result
        exact ⟨undone back, trivial⟩
      · cases result
        have counted : (w₂.count chan).touched = w₂.touched := by cases chan <;> rfl
        rw [counted]
        exact ⟨undone back, rfl, here⟩

theorem semopPass_touched {k : Tables}
    (result : semopPass info slot pid semid base ops k = some (w, outcome)) :
    (∀ num ∈ w.touched, ∃ op ∈ ops, op.semNum = num) ∧ outcome.waitsFor semid ops := by
  obtain ⟨touched, waits⟩ := semopFrom_touched (w := ⟨k, [], []⟩) (by simp) (fun op member => member) result
  refine ⟨fun num used => ?_, waits⟩
  rcases touched num used with before | inside
  · cases before
  · exact inside

end

/-! ## Every run -/

/-- The numbers used in a step are below `sem_nsems` of the header. -/
def Confined (info : Seminfo) (s : System) : Event → Prop
  | .semop _ semid _ _ touched _ => ∀ num ∈ touched, num < (s.header info semid).semNsems
  | .eintr _ wait touched => ∀ num ∈ touched, num < (s.header info wait.semid).semNsems
  | _ => True

/-- What a process that is not back from `sleep` waits or waited for. -/
def Proc.wait : Proc → Option Wait
  | .asleep wait _ => some wait
  | .woken wait _ => some wait
  | .interrupted wait _ => some wait
  | _ => none

/-- A header is not given to a set that is too small for a process that slept in the
set before and is not back yet. -/
def Spacious (info : Seminfo) (s : System) (event : Event) : Prop :=
  ∀ slot nsems id, event = .semget slot nsems (.ok id) → ¬ (s.header info id).perm.allocated →
    ∀ other wait, (s.proc other).wait = some wait → (wait.semid % info.semmni).toNat = (id % info.semmni).toNat →
      (wait.op.semNum : Int) < nsems

section
variable {info : Seminfo} {s t : System} {event : Event} {history : List (System × Event)}

theorem semget_nsems {cr : Cred} {key nsems : Int} {flag : Nat} {result : Except Errno Int}
    (done : semget info s cr key nsems flag = some (t, result)) (sp : Nat) :
    (t.sema sp).semNsems = (s.sema sp).semNsems ∨ ∃ id, result = .ok id ∧ ¬ (s.header info id).perm.allocated ∧
      sp = (id % info.semmni).toNat ∧ (t.sema sp).semNsems = nsems.toNat := by
  unfold semget at done
  split at done
  · cases done
    exact .inl rfl
  · split at done
    · cases done
      exact .inl rfl
    · cases done
      exact .inl rfl
  · next new found =>
    obtain ⟨inside, free⟩ := ipcget_new found
    split at done
    · cases done
      by_cases here : sp = new
      · subst here
        exact .inl (by simp)
      · exact .inl (by simp [here])
    · obtain ⟨⟨i, semmap⟩, _, done⟩ := bind_eq_some_iff.mp done
      simp only at done
      split at done
      · cases done
        by_cases here : sp = new
        · subst here
          exact .inl (by simp)
        · exact .inl (by simp [here])
      · cases done
        by_cases here : sp = new
        · subst here
          have place (seq : Nat) : (((seq : Int) * info.semmni + sp) % info.semmni).toNat = sp := by
            rw [Int.add_comm, Int.add_mul_emod_self_right, Int.emod_eq_of_lt (by omega) (by omega)]
            rfl
          refine .inr ⟨_, rfl, ?_, (place _).symm, by simp⟩
          rw [System.header, place]
          exact free
        · exact .inl (by simp [here])

/-- Every process that is not back from `sleep` slept on a semaphore of its set. -/
def Waiting (info : Seminfo) (s : System) : Prop :=
  ∀ slot wait, (s.proc slot).wait = some wait → wait.op.semNum < (s.header info wait.semid).semNsems

theorem wake_wait {p : Proc} {woken : List Chan} : (p.wake woken).wait = p.wait := by
  cases p with
  | asleep wait nsops =>
    rw [Proc.wake]
    split
    · rfl
    · rfl
  | _ => rfl

theorem Waiting.put (waiting : Waiting info s) {slot : Slot} {p : Proc}
    (others : ∀ other, other ≠ slot → (t.proc other).wait = (s.proc other).wait)
    (sizes : ∀ sp, (t.sema sp).semNsems = (s.sema sp).semNsems) (here : (t.proc slot).wait = p.wait)
    (inside : ∀ wait, p.wait = some wait → wait.op.semNum < (s.header info wait.semid).semNsems) : Waiting info t := by
  intro other wait slept
  rw [System.header, sizes]
  by_cases same : other = slot
  · rw [same, here] at slept
    exact inside wait slept
  · rw [others other same] at slept
    exact waiting other wait slept

theorem Waiting.pass (waiting : Waiting info s) {slot : Slot} {pid semid : Int} {base : Nat} {ops : List Sembuf}
    {w : Work} {outcome : Outcome} {nsops : Nat} {again : Bool}
    (inside : ∀ op ∈ ops, op.semNum < (s.header info semid).semNsems)
    (made : semopPass info slot pid semid base ops s.k = some (w, outcome)) :
    Confined info s (.semop slot semid again ops w.touched outcome) ∧
      Waiting info ((s.store w.k w.woken).put slot (outcome.proc nsops)) := by
  obtain ⟨touched, waits⟩ := semopPass_touched made
  constructor
  · intro num used
    obtain ⟨op, member, rfl⟩ := touched num used
    exact inside op member
  · refine (@Waiting.put _ _ _ waiting slot (outcome.proc nsops)) (fun other differs => ?_) (fun _ => rfl) ?_ ?_
    · simp only [System.put, System.store, update_of_ne differs]
      exact wake_wait
    · simp [System.put]
    · intro wait slept
      cases outcome with
      | sleep chan wait' =>
        obtain rfl : wait' = wait := by simpa [Outcome.proc, Proc.wait] using slept
        rw [waits.1]
        exact inside _ waits.2
      | success => cases slept
      | error => cases slept

theorem Step.confined (step : Step info s event t) (refetched : Refetched info s event)
    (spacious : Spacious info s event) (waiting : Waiting info s) : Confined info s event ∧ Waiting info t := by
  have sleeper {slot : Slot} {wait : Wait} (slept : (s.proc slot).wait = some wait) :
      wait.op.semNum < (s.header info wait.semid).semNsems := waiting slot wait slept
  cases step with
  | @start slot =>
    refine ⟨trivial, (@Waiting.put _ _ _ waiting slot .running) (fun other differs => ?_) (fun _ => rfl) ?_
      (by simp [Proc.wait])⟩
    · simp [System.put, differs]
    · simp [System.put]
  | @exit slot w =>
    refine ⟨trivial, (@Waiting.put _ _ _ waiting slot .free) (fun other differs => ?_) (fun _ => rfl) ?_
      (by simp [Proc.wait])⟩
    · simp only [System.put, System.store, update_of_ne differs]
      exact wake_wait
    · simp [System.put]
  | @semget _ slot nsems result cr key flag running done =>
    refine ⟨trivial, fun other wait slept => ?_⟩
    rw [(semget_frame done).2] at slept
    rcases semget_nsems done (wait.semid % info.semmni).toNat with same | ⟨id, rfl, free, place, size⟩
    · rw [System.header, same]
      exact sleeper slept
    · have fits := spacious slot nsems id rfl free other wait slept place
      rw [System.header, size]
      omega
  | @semctl _ slot semid cmd result cr pid running done =>
    have moved (sizes : ∀ sp, (t.sema sp).semNsems = (s.sema sp).semNsems)
        (procs : ∀ other, (t.proc other).wait = (s.proc other).wait) : Waiting info t := by
      intro other wait slept
      rw [procs] at slept
      rw [System.header, sizes]
      exact sleeper slept
    refine ⟨trivial, ?_⟩
    cases semctl_control done with
    | quiet _ procs _ _ sizes => exact moved sizes fun other => by rw [procs]
    | rmid k woken _ sizes _ _ _ procs => exact moved sizes fun other => by rw [procs]; exact wake_wait
    | setval semnum arg k woken _ _ _ sema _ _ _ procs =>
      exact moved (fun sp => by rw [sema]) fun other => by rw [procs]; exact wake_wait
    | setall semvals k woken sema _ _ _ _ procs =>
      exact moved (fun sp => by rw [sema]) fun other => by rw [procs]; exact wake_wait
  | refuse => exact ⟨trivial, waiting⟩
  | @semop slot semid ops w outcome sp cr pid running entered made =>
    obtain ⟨found, checked⟩ := semopEntry_names entered
    have header : s.header info semid = s.sema sp := by rw [System.header, (semconv_iff.mp found).1]
    rw [← header] at checked
    exact waiting.pass checked made
  | @signal slot wait nsops asleep =>
    refine ⟨trivial, (@Waiting.put _ _ _ waiting slot (.interrupted wait nsops)) (fun other differs => ?_)
      (fun _ => rfl) ?_ fun wait' same => (@sleeper slot _) ?_⟩
    · simp [System.put, differs]
    · simp [System.put]
    · rw [← same]
      rcases asleep with asleep | woken
      · rw [asleep]
        rfl
      · rw [woken]
        rfl
  | @gone slot wait nsops _ _ woken =>
    refine ⟨trivial, (@Waiting.put _ _ _ waiting slot .running) (fun other differs => ?_) (fun _ => rfl) ?_
      (by simp [Proc.wait])⟩
    · simp [System.put, differs]
    · simp [System.put]
  | @again slot wait ops w outcome pid woken entered made =>
    exact waiting.pass (refetched slot wait.semid ops w.touched outcome rfl) made
  | @eintr slot wait nsops interrupted =>
    have inside : wait.op.semNum < (s.header info wait.semid).semNsems :=
      sleeper (by rw [interrupted]; rfl)
    refine ⟨fun num used => ?_, (@Waiting.put _ _ _ waiting slot .running) (fun other differs => ?_) (fun _ => rfl)
      ?_ (by simp [Proc.wait])⟩
    · rw [List.mem_singleton.mp used]
      exact inside
    · simp only [System.put, System.store, update_of_ne differs]
      exact wake_wait
    · simp [System.put]

/-- `semop` stays inside its set in every run in which operations fetched again name
semaphores of the set and no header goes to a set too small for those who are still
on their way out of the one before. -/
theorem semop_confined (runs : Runs (System.Boot info) (Step info)
    (fun s event => Refetched info s event ∧ Spacious info s event) history s) :
    ∀ step ∈ history, Confined info step.1 step.2 := by
  have confined : (∀ step ∈ history, Confined info step.1 step.2) ∧ Waiting info s := by
    induction runs with
    | start boot =>
      refine ⟨by simp, fun slot wait slept => ?_⟩
      rw [boot.2.2.2 slot] at slept
      cases slept
    | next runs step allowed ih =>
      obtain ⟨before, waiting⟩ := ih
      obtain ⟨here, waiting⟩ := step.confined allowed.1 allowed.2 waiting
      exact ⟨List.forall_mem_cons.mpr ⟨here, before⟩, waiting⟩
  exact confined.1

end

def oneDown : List Sembuf := [⟨0, -1, false, false, zeroth_fits, minusOne_fits⟩]

def oneMore : List Sembuf := [⟨0, 1, false, false, zeroth_fits, one_fits⟩]

/-- The same for a semaphore that the set does not have. -/
def outside : List Sembuf := [⟨7, 1, false, false, by decide, one_fits⟩]

theorem oneDown_again {guard : System → Event → Prop} (first : ∀ step ∈ prologue, guard step.1 step.2)
    (calls : ∀ s slot ops touched outcome, guard s (.semop slot 0 false ops touched outcome)) :
    ∃ history s, Runs (System.Boot .shipped) (Step .shipped) guard history s ∧
      (s.header .shipped 0).semNsems = 1 ∧
      (∃ t, Step .shipped s (.semop 0 0 true oneDown [0, 0] .success) t) ∧
      ∃ t, Step .shipped s (.semop 0 0 true outside [7, 7] .success) t := by
  have runs := (@oneSet_runs 16384 (by decide)) first
  have passes : (semopPass .shipped 0 5 0 0 oneDown oneSet.k).bind (fun r₁ =>
      (semopPass .shipped 1 6 0 0 oneMore r₁.1.k).map fun r₂ => ([r₁.2, r₂.2], r₂.1.woken,
        (semopPass .shipped 0 5 0 0 oneDown r₂.1.k).map fun r => (r.2, r.1.touched),
        (semopPass .shipped 0 5 0 0 outside r₂.1.k).map fun r => (r.2, r.1.touched))) =
      some ([.sleep (.ncnt 0) ⟨0, 0, [], ⟨0, -1, false, false, by decide, by decide⟩⟩, .success], [.ncnt 0],
        some (.success, [0, 0]), some (.success, [7, 7])) := rfl
  obtain ⟨⟨w₁, outcome₁⟩, pass₁, passes⟩ := bind_eq_some_iff.mp passes
  obtain ⟨⟨w₂, outcome₂⟩, pass₂, same⟩ := Option.map_eq_some_iff.mp passes
  simp only [Prod.mk.injEq, List.cons.injEq, and_true] at same
  obtain ⟨⟨rfl, rfl⟩, woken, again, wide⟩ := same
  let wait : Wait := ⟨0, 0, [], ⟨0, -1, false, false, by decide, by decide⟩⟩
  let s₁ := (oneSet.store w₁.k w₁.woken).put 0 (.asleep wait 1)
  let s₂ := (s₁.store w₂.k w₂.woken).put 1 .running
  have step₁ := oneSet_semop (s := oneSet) 5 rfl rfl rfl pass₁
  have step₂ := oneSet_semop (s := s₁) 6 rfl rfl rfl pass₂
  have asleep : s₂.proc 0 = .woken wait 1 := by
    change (Proc.asleep wait 1).wake w₂.woken = .woken wait 1
    rw [woken]
    rfl
  have refetch {ops : List Sembuf} {touched : List Nat} (length : ops.length = 1)
      (made : (semopPass .shipped 0 5 0 0 ops w₂.k).map (fun r => (r.2, r.1.touched)) = some (.success, touched)) :
      ∃ t, Step .shipped s₂ (.semop 0 0 true ops touched .success) t := by
    obtain ⟨⟨w, outcome⟩, pass, same⟩ := Option.map_eq_some_iff.mp made
    cases same
    have found : semopAgain .shipped oneSet.sema 0 (some ops) = .ok ops := by
      rw [semopAgain, show semconv .shipped oneSet.sema 0 = .ok 0 from rfl]
    exact ⟨_, .again 5 (by rw [length]; exact asleep) found pass⟩
  exact ⟨_, s₂, .next (.next runs step₁ (calls ..)) step₂ (calls ..), rfl, refetch rfl again, refetch rfl wide⟩

theorem semop_confined_again : ∃ (history : List (System × Event)) (s : System),
    Confined .shipped s (.semop 0 0 true oneDown [0, 0] .success) ∧
      ∀ step ∈ history, Confined .shipped step.1 step.2 := by
  have idle (other : Slot) : (started.proc other).wait = none := by
    simp only [started, booted, System.put, update_apply]
    split
    · rfl
    · split
      · rfl
      · rfl
  obtain ⟨history, s, runs, size, ⟨t, step⟩, _⟩ := (@oneDown_again (fun s event =>
    Refetched .shipped s event ∧ Spacious .shipped s event)) (by simp [prologue, Refetched, Spacious, idle])
    (by simp [Refetched, Spacious])
  have allowed : Refetched .shipped s (.semop 0 0 true oneDown [0, 0] .success) ∧
      Spacious .shipped s (.semop 0 0 true oneDown [0, 0] .success) := by
    refine ⟨?_, by simp [Spacious]⟩
    intro slot semid ops touched outcome same op member
    cases same
    rw [size]
    simp [oneDown] at member
    simp [member]
  have confined := semop_confined (.next runs step allowed)
  rw [List.forall_mem_cons] at confined
  exact ⟨history, s, confined⟩

/-- The array that is fetched after the sleep names the eighth semaphore of a set that
has one, and the pass uses it. -/
theorem semop_confined_outside : ∃ history s,
    Runs (System.Boot .shipped) (Step .shipped) (fun _ _ => True) history s ∧
      ¬ ∀ step ∈ history, Confined .shipped step.1 step.2 := by
  obtain ⟨history, s, runs, size, _, ⟨t, step⟩⟩ := (@oneDown_again (fun _ _ => True)) (by simp) (by simp)
  refine ⟨_, t, .next runs step trivial, fun confined => ?_⟩
  have inside := confined _ ((.head _)) 7 (by simp)
  simp only [size] at inside
  omega

end Svr4.Semaphore
