import Svr4.Kernel.Semaphore.Atomic
import Svr4.Kernel.Semaphore.System

/-! What the steps of the system can do to the tables.

A pass changes the undo tables by `semaoe` alone, `semctl` by `semunrm` alone,
and every other change of a semaphore leaves them as they are.
-/

namespace Svr4.Semaphore

open Words Ipc
open Option (bind_eq_some_iff some)

attribute [local simp] System.setDs

/-! ## A pass -/

section
variable {info : Seminfo} {slot : Slot} {pid semid : Int} {base : Nat} {ops done rest : List Sembuf} {op : Sembuf}
  {w w' : Work} {holds : Tables → Prop}

/-- `holds` is kept by `semaoe` for the process and by changes of semaphores. -/
structure Kept (info : Seminfo) (slot : Slot) (semid : Int) (holds : Tables → Prop) : Prop where
  same : ∀ k k', SameUndo k k' → holds k → holds k'
  semaoe : ∀ val num k k' error, semaoe info slot val semid num k = some (k', error) → holds k → holds k'

namespace Kept

section
variable (kept : Kept info slot semid holds) {verdict : Verdict} {outcome : Outcome}
include kept

section
variable (before : holds w.k)
include before

theorem adjustUndo {undo : Bool} {val : Int} {num : Nat} {error : Option Errno}

    (result : adjustUndo info slot semid undo val num w = some (w', error)) : holds w'.k := by
  unfold Semaphore.adjustUndo at result
  split at result
  · obtain ⟨⟨k, error'⟩, made, same⟩ := bind_eq_some_iff.mp result
    cases same
    exact kept.semaoe _ _ _ _ _ made before
  · cases result
    exact before

theorem perform {wake : Work → Work}
    (undo : ∀ w, SameUndo w.k (wake w).k)
    (result : perform info slot semid base op wake w = some (w', verdict)) : holds w'.k := by
  obtain ⟨⟨w₁, error⟩, made, result⟩ := bind_eq_some_iff.mp result
  have after := kept.adjustUndo before made
  cases error with
  | some error =>
    cases result
    exact after
  | none =>
    cases result
    exact kept.same _ _ (add_undo.trans (undo _)) after

theorem attempt
    (result : attempt info slot semid base op w = some (w', verdict)) : holds w'.k := by
  have before : holds (w.touch op.semNum).k := before
  have still {verdict' : Verdict} (result : some (w.touch op.semNum, verdict') = some (w', verdict)) : holds w'.k := by
    cases result
    exact before
  simp only [Semaphore.attempt] at result
  split at result
  · split at result
    · exact still result
    · exact kept.perform before (fun _ => wakeN_undo.trans wakeZ_undo) result
  · split at result
    · split at result
      · exact kept.perform before (fun _ => wakeZ_undo) result
      · exact still result
    · split at result
      · exact still result
      · exact still result

theorem semundo
    (result : semundo info slot semid base done w = some w') : holds w'.k := by
  induction done generalizing w with
  | nil =>
    cases result
    exact before
  | cons op done ih =>
    unfold Semaphore.semundo at result
    split at result
    · exact ih before result
    · obtain ⟨⟨w₁, error⟩, made, result⟩ := bind_eq_some_iff.mp result
      have added : holds ((w.touch op.semNum).add (base + op.semNum) (-op.semOp)).k :=
        kept.same _ _ add_undo before
      exact ih (kept.adjustUndo added made) result

theorem semopFrom
    (result : semopFrom info slot pid semid base ops done rest w = some (w', outcome)) : holds w'.k := by
  induction rest generalizing done w with
  | nil =>
    cases result
    exact kept.same _ _ (stamp_undo ops) before
  | cons op rest ih =>
    obtain ⟨⟨w₁, verdict⟩, tried, result⟩ := bind_eq_some_iff.mp result
    have after := kept.attempt before tried
    cases verdict with
    | ok => exact ih after result
    | fail error =>
      obtain ⟨w₂, undone, result⟩ := bind_eq_some_iff.mp result
      cases result
      exact kept.semundo after undone
    | block chan =>
      obtain ⟨w₂, undone, result⟩ := bind_eq_some_iff.mp result
      have back := kept.semundo after undone
      split at result
      · cases result
        exact back
      · cases result
        exact kept.same _ _ count_undo back

end

theorem semopPass {k : Tables} (before : holds k)
    (result : semopPass info slot pid semid base ops k = some (w, outcome)) : holds w.k :=
  kept.semopFrom (w := ⟨k, [], []⟩) before result

end

end Kept

end

/-! ## The other calls -/

section
variable {info : Seminfo} {w : Work} {i n base : Nat} {value pid : Int} {chan : Chan}

theorem SameUndo.refl (k : Tables) : SameUndo k k := ⟨rfl, rfl, rfl, rfl⟩

theorem foldl_undo {α : Type} {body : Work → α → Work} (same : ∀ w a, SameUndo w.k (body w a).k) (list : List α) :
    SameUndo w.k (list.foldl body w).k := by
  induction list generalizing w with
  | nil => exact .refl _
  | cons a list ih => exact (same w a).trans ih

theorem uncount_undo : SameUndo w.k (uncount w chan).k := by
  cases chan with
  | ncnt =>
    rw [uncount]
    split
    · exact ⟨rfl, rfl, rfl, rfl⟩
    · exact ⟨rfl, rfl, rfl, rfl⟩
  | zcnt =>
    rw [uncount]
    split
    · exact ⟨rfl, rfl, rfl, rfl⟩
    · exact ⟨rfl, rfl, rfl, rfl⟩

theorem setval_undo : SameUndo w.k (setval i value pid w).k := by
  have stored : SameUndo w.k (w.k.setSem i fun s => { s with semval := value }) := ⟨rfl, rfl, rfl, rfl⟩
  unfold setval
  split
  · exact (stored.trans (wakeN_undo (w := ⟨_, w.woken, w.touched⟩))).trans ⟨rfl, rfl, rfl, rfl⟩
  · exact (stored.trans (wakeZ_undo (w := ⟨_, w.woken, w.touched⟩))).trans ⟨rfl, rfl, rfl, rfl⟩

theorem setall_undo {semvals : Nat → Nat} : SameUndo w.k (setall base semvals pid n w).k :=
  foldl_undo (fun _ _ => setval_undo) _

theorem clear_undo : SameUndo w.k (clear base n w).k := by
  refine foldl_undo (fun w i => ?_) _
  have stored : SameUndo w.k (w.k.setSem (base + i) fun s => { s with semval := 0, sempid := 0 }) :=
    ⟨rfl, rfl, rfl, rfl⟩
  exact (stored.trans (wakeN_undo (w := ⟨_, w.woken, w.touched⟩))).trans wakeZ_undo

theorem semexitEntry_undo {sema : Nat → SemidDs} {entry : Undo} :
    SameUndo w.k (semexitEntry info sema entry w).k := by
  unfold semexitEntry
  split
  · exact .refl _
  · next sp _ =>
    simp only
    split
    · exact .refl _
    · have stored (i : Nat) (v : Int) : SameUndo w.k (w.k.setSem i fun s => { s with semval := toUshort v }) :=
        ⟨rfl, rfl, rfl, rfl⟩
      split
      · exact ((stored _ _).trans (wakeZ_undo (w := ⟨_, w.woken, w.touched⟩))).trans wakeN_undo
      · exact (stored _ _).trans (wakeZ_undo (w := ⟨_, w.woken, w.touched⟩))

end

/-- The commands that drop the adjustments of a semaphore. -/
def Cmd.resets (cmd : Cmd) (num : Nat) : Except Errno Int → Bool
  | .error _ => false
  | .ok _ =>
      match cmd with
      | .rmid => true
      | .setall _ => true
      | .setval semnum _ => semnum = num
      | _ => false

section
variable {info : Seminfo} {s t : System} {cr : Cred} {pid semid : Int} {cmd : Cmd} {result : Except Errno Int}
  {sp : Nat} {id : Int} {ops : List Sembuf} {sema : Nat → SemidDs} {num flag : Nat} {key nsems : Int}
  {sops : Option (List Sembuf)}

theorem semconv_iff : semconv info sema semid = .ok sp ↔
    sp = (semid % info.semmni).toNat ∧ 0 ≤ semid ∧ (sema sp).perm.allocated ∧
      semid / info.semmni = (sema sp).perm.seq := by
  unfold semconv
  split
  · next negative =>
    constructor
    · nofun
    · intro found
      omega
  · next positive =>
    simp only
    split
    · next found =>
      constructor
      · intro same
        cases same
        exact ⟨rfl, by omega, found⟩
      · rintro ⟨rfl, _⟩
        rfl
    · next missing =>
      constructor
      · nofun
      · rintro ⟨rfl, _, found⟩
        exact absurd found missing

theorem semconv_unique (found : semconv info sema semid = .ok sp)
    (found' : semconv info sema id = .ok sp) : semid = id := by
  obtain ⟨place, _, _, quotient⟩ := semconv_iff.mp found
  obtain ⟨place', _, _, quotient'⟩ := semconv_iff.mp found'
  have positive : (0 : Int) < info.semmni := Int.natCast_pos.mpr info.semmni_pos
  have low := Int.emod_nonneg semid (Int.ne_of_gt positive)
  have low' := Int.emod_nonneg id (Int.ne_of_gt positive)
  have residue : semid % info.semmni = id % info.semmni := by omega
  rw [← Int.mul_ediv_add_emod semid info.semmni, ← Int.mul_ediv_add_emod id info.semmni, quotient, quotient', residue]

/-- `num` is a semaphore of the set with the identifier `id`. -/
def System.Names (info : Seminfo) (s : System) (id : Int) (num : Nat) : Prop :=
  ∃ sp, semconv info s.sema id = .ok sp ∧ num < (s.sema sp).semNsems

theorem System.Names.keep (names : s.Names info id num)
    (same : ∀ sp, semconv info s.sema id = .ok sp → (s.sema sp).perm.allocated →
      (t.sema sp).perm.allocated ∧ (t.sema sp).perm.seq = (s.sema sp).perm.seq ∧
        (t.sema sp).semNsems = (s.sema sp).semNsems) : t.Names info id num := by
  obtain ⟨sp, found, inside⟩ := names
  obtain ⟨place, positive, allocated, quotient⟩ := semconv_iff.mp found
  obtain ⟨allocated', seq, nsems⟩ := same sp found allocated
  refine ⟨sp, semconv_iff.mpr ⟨place, positive, allocated', ?_⟩, ?_⟩
  · rw [seq]
    exact quotient
  · rw [nsems]
    exact inside

/-- What `semctl` can do to the tables and the processes. -/
inductive Control (info : Seminfo) (s : System) (semid pid : Int) : Cmd → Except Errno Int → System → Prop where
  | quiet {t : System} {cmd : Cmd} {result : Except Errno Int} : t.k = s.k → t.proc = s.proc →
      (∀ num, cmd.resets num result = false) → (∀ id num, s.Names info id num → t.Names info id num) →
      (∀ sp, (t.sema sp).semNsems = (s.sema sp).semNsems) → Control info s semid pid cmd result t
  | rmid {t : System} (k : Tables) (woken : List Chan) :
      (∀ id num, id ≠ semid → s.Names info id num → t.Names info id num) →
      (∀ sp, (t.sema sp).semNsems = (s.sema sp).semNsems) →
      semunrm info semid 0 (s.header info semid).semNsems s.k = some k →
      t.k = (clear (s.header info semid).semBase (s.header info semid).semNsems ⟨k, [], []⟩).k →
      woken = (clear (s.header info semid).semBase (s.header info semid).semNsems ⟨k, [], []⟩).woken →
      (t.proc = fun slot => (s.proc slot).wake woken) → Control info s semid pid .rmid (.ok 0) t
  | setval {t : System} (semnum : Nat) (arg : Int) (k : Tables) (woken : List Chan) : 0 ≤ arg → arg ≤ info.semvmx →
      s.Names info semid semnum → t.sema = s.sema →
      k = (setval ((s.header info semid).semBase + semnum) arg pid ⟨s.k, [], []⟩).k →
      woken = (setval ((s.header info semid).semBase + semnum) arg pid ⟨s.k, [], []⟩).woken →
      semunrm info semid semnum semnum k = some t.k →
      (t.proc = fun slot => (s.proc slot).wake woken) → Control info s semid pid (.setval semnum arg) (.ok 0) t
  | setall {t : System} (semvals : Nat → Nat) (k : Tables) (woken : List Chan) : t.sema = s.sema →
      (∀ i < (s.header info semid).semNsems, (semvals i : Int) ≤ info.semvmx) →
      semunrm info semid 0 (s.header info semid).semNsems s.k = some k →
      t.k = (setall (s.header info semid).semBase semvals pid (s.header info semid).semNsems ⟨k, [], []⟩).k →
      woken = (setall (s.header info semid).semBase semvals pid (s.header info semid).semNsems ⟨k, [], []⟩).woken →
      (t.proc = fun slot => (s.proc slot).wake woken) → Control info s semid pid (.setall (some semvals)) (.ok 0) t

theorem semctl_control (done : semctl info s cr pid semid cmd = some (t, result)) :
    Control info s semid pid cmd result t := by
  have same {result' : Except Errno Int} (quiet : ∀ num, cmd.resets num result' = false)
      (done : some (s, result') = some (t, result)) : Control info s semid pid cmd result t := by
    cases done
    exact .quiet rfl rfl quiet (fun _ _ names => names) fun _ => rfl
  have fails {error : Errno} (done : some (s, .error error) = some (t, result)) :
      Control info s semid pid cmd result t := same (fun _ => rfl) done
  unfold semctl at done
  cases found : semconv info s.sema semid with
  | error error =>
    rw [found] at done
    exact fails done
  | ok sp =>
    have header : s.header info semid = s.sema sp := by rw [System.header, (semconv_iff.mp found).1]
    rw [found] at done
    cases cmd with
    | rmid =>
      simp only at done
      split at done
      · exact fails done
      · obtain ⟨t', removed, done⟩ := bind_eq_some_iff.mp done
        cases done
        obtain ⟨k, purged, removed⟩ := bind_eq_some_iff.mp removed
        obtain ⟨⟨semmap, effect⟩, _, removed⟩ := bind_eq_some_iff.mp removed
        cases removed
        rw [← header] at purged
        refine .rmid k _ ?_ (fun sp' => ?_) purged ?_ rfl ?_
        · intro id num differs names
          refine names.keep fun sp' found' allocated => ?_
          have away : sp' ≠ sp := by
            rintro rfl
            exact differs (semconv_unique found' found)
          simp [System.store, away, allocated]
        · by_cases here : sp' = sp
          · subst here
            simp [System.store]
          · simp [System.store, here]
        · rw [header]
          rfl
        · rw [header]
          rfl
    | set value =>
      simp only at done
      split at done
      · exact fails done
      · cases value with
        | none => exact fails done
        | some value =>
          cases done
          refine .quiet rfl rfl (fun _ => rfl) (fun id num names => ?_) fun sp' => ?_
          · refine names.keep fun sp' found' allocated => ?_
            by_cases here : sp' = sp
            · subst here
              simp only [System.setDs, Function.update_self]
              exact ⟨allocated_set _ _ _ _, rfl, trivial⟩
            · simp [here, allocated]
          · by_cases here : sp' = sp
            · subst here
              simp
            · simp [here]
    | ostat copied =>
      simp only at done
      split at done
      · exact fails done
      · split at done
        · exact fails done
        · exact same (fun _ => by split <;> rfl) done
    | stat copied =>
      simp only at done
      split at done
      · exact fails done
      · exact same (fun _ => by split <;> rfl) done
    | getall copied =>
      simp only at done
      split at done
      · exact fails done
      · exact same (fun _ => by split <;> rfl) done
    | getncnt semnum => exact same (fun _ => by cases readSem s sp cr semnum _ <;> rfl) done
    | getpid semnum => exact same (fun _ => by cases readSem s sp cr semnum _ <;> rfl) done
    | getval semnum => exact same (fun _ => by cases readSem s sp cr semnum _ <;> rfl) done
    | getzcnt semnum => exact same (fun _ => by cases readSem s sp cr semnum _ <;> rfl) done
    | setval semnum arg =>
      simp only at done
      split at done
      · exact fails done
      · split at done
        · exact fails done
        · next inside =>
          split at done
          · exact fails done
          · next range =>
            obtain ⟨k, purged, done⟩ := bind_eq_some_iff.mp done
            cases done
            rw [← header] at purged
            refine .setval semnum arg _ _ (by omega) (by omega) ⟨sp, found, by omega⟩ rfl rfl rfl purged ?_
            rw [header]
            rfl
    | setall semvals =>
      simp only at done
      split at done
      · exact fails done
      · cases semvals with
        | none => exact fails done
        | some semvals =>
          simp only at done
          split at done
          · exact fails done
          · next range =>
            obtain ⟨k, purged, done⟩ := bind_eq_some_iff.mp done
            cases done
            rw [← header] at purged
            refine .setall semvals k _ rfl ?_ purged ?_ rfl ?_
            · intro i inside
              rw [header] at inside
              by_contra large
              exact range ⟨i, by simpa using inside, by omega⟩
            · rw [header]
              rfl
            · rw [header]
              rfl
    | other => exact fails done

theorem semget_frame (done : semget info s cr key nsems flag = some (t, result)) :
    t.k = s.k ∧ t.proc = s.proc := by
  unfold semget at done
  split at done
  · cases done
    exact ⟨rfl, rfl⟩
  · split at done
    · cases done
      exact ⟨rfl, rfl⟩
    · cases done
      exact ⟨rfl, rfl⟩
  · split at done
    · cases done
      exact ⟨rfl, rfl⟩
    · obtain ⟨⟨i, semmap⟩, _, done⟩ := bind_eq_some_iff.mp done
      simp only at done
      split at done
      · cases done
        exact ⟨rfl, rfl⟩
      · cases done
        exact ⟨rfl, rfl⟩

theorem semget_names (done : semget info s cr key nsems flag = some (t, result))
    (names : s.Names info id num) : t.Names info id num := by
  unfold semget at done
  split at done
  · cases done
    exact names
  · split at done
    · cases done
      exact names
    · cases done
      exact names
  · next sp found =>
    -- Only the header that was not in use changes.
    have free := (ipcget_new found).2
    have others {t : System} (same : ∀ sp', sp' ≠ sp → t.sema sp' = s.sema sp') : t.Names info id num := by
      refine names.keep fun sp' _ allocated => ?_
      have away : sp' ≠ sp := by
        rintro rfl
        exact free allocated
      rw [same sp' away]
      exact ⟨allocated, rfl, rfl⟩
    split at done
    · cases done
      exact others fun sp' away => by simp [away]
    · obtain ⟨⟨i, semmap⟩, _, done⟩ := bind_eq_some_iff.mp done
      simp only at done
      split at done
      · cases done
        exact others fun sp' away => by simp [away]
      · cases done
        exact others fun sp' away => by simp [away]

theorem semopCheck_inside {sp : SemidDs} (passed : semopCheck sp cr ops = none) :
    ∀ op ∈ ops, op.semNum < sp.semNsems := by
  induction ops with
  | nil => simp
  | cons op ops ih =>
    unfold semopCheck at passed
    split at passed
    · cases passed
    · split at passed
      · cases passed
      · next inside =>
        intro other member
        rcases List.mem_cons.mp member with rfl | member
        · omega
        · exact ih passed other member

theorem semopEntry_names {nsops : Nat}
    (entered : semopEntry info s.sema semid nsops sops cr = .ok (sp, ops)) :
    semconv info s.sema semid = .ok sp ∧ ∀ op ∈ ops, op.semNum < (s.sema sp).semNsems := by
  unfold semopEntry at entered
  cases found : semconv info s.sema semid with
  | error error =>
    rw [found] at entered
    cases entered
  | ok sp' =>
    rw [found] at entered
    simp only [bind, Except.bind] at entered
    split at entered
    · cases entered
    · cases sops with
      | none => cases entered
      | some ops' =>
        simp only at entered
        split at entered
        · cases entered
        · next passed =>
          cases entered
          exact ⟨rfl, semopCheck_inside passed⟩

theorem semopAgain_ok
    (entered : semopAgain info s.sema semid sops = .ok ops) :
    ∃ sp, semconv info s.sema semid = .ok sp ∧ s.header info semid = s.sema sp := by
  unfold semopAgain at entered
  cases found : semconv info s.sema semid with
  | error error =>
    rw [found] at entered
    cases entered
  | ok sp => exact ⟨sp, rfl, by rw [System.header, (semconv_iff.mp found).1]⟩

/-- Operations that are fetched again after a sleep name semaphores of the set. -/
def Refetched (info : Seminfo) (s : System) (event : Event) : Prop :=
  ∀ slot semid ops touched outcome, event = .semop slot semid true ops touched outcome →
    ∀ op ∈ ops, op.semNum < (s.header info semid).semNsems

/-! ## Processes -/

variable {slot : Slot} {p : Proc} {woken : List Chan} {k : Tables}

theorem wake_live : (p.wake woken).live ↔ p.live := by
  cases p with
  | asleep wait nsops =>
    rw [Proc.wake]
    split
    · simp [Proc.live]
    · simp [Proc.live]
  | _ => rfl

theorem wake_all_live (woke : t.proc = fun slot => (s.proc slot).wake woken) : t.live = s.live := by
  funext slot
  rw [System.live, woke]
  exact propext wake_live

theorem put_live (alive : s.live slot) (stays : p.live) : (s.put slot p).live = s.live := by
  funext other
  by_cases here : other = slot
  · subst here
    simp only [System.live, System.put, Function.update_self]
    exact propext ⟨fun _ => alive, fun _ => stays⟩
  · simp only [System.live, System.put, Function.update_of_ne here]

theorem store_put_live (alive : s.live slot) (stays : p.live) : ((s.store k woken).put slot p).live = s.live := by
  have woke : (s.store k woken).live = s.live := wake_all_live rfl
  rw [put_live (woke ▸ alive) stays, woke]

theorem outcome_live (outcome : Outcome) (nsops : Nat) : (outcome.proc nsops).live := by
  cases outcome with
  | sleep => simp [Outcome.proc, Proc.live]
  | _ => simp [Outcome.proc, Proc.live]

end

/-! ## Two processes and a set of one semaphore -/

/-- The tunables as shipped, with another limit on adjustments. -/
def Seminfo.limited (semaem : Int) (fits : 0 ≤ semaem ∧ semaem < 32768) : Seminfo :=
  { Seminfo.shipped with semaem, semaem_fits := fits }

def root : Cred := ⟨0, 0, []⟩

section
variable {semaem : Int} {fits : 0 ≤ semaem ∧ semaem < 32768}

/-- The system as `seminit` leaves it. -/
def booted : System where
  k := seminit .shipped
  sema _ := ⟨⟨0, 0, 0, 0, 0, 0, 0⟩, 0, 0⟩
  semmap := ⟨7, false, ⟨60, 1⟩ :: List.replicate 8 ⟨0, 0⟩⟩
  proc _ := .free

/-- The processes 0 and 1 run. -/
def started : System := (booted.put 0 .running).put 1 .running

/-- A set with one semaphore and the identifier 0. -/
def oneSet : System :=
  { (started.setDs 0 fun ds => { ds with perm := ds.perm.init 0 access root }).setDs 0 fun ds =>
      { ds with semBase := 0, semNsems := 1 } with
    semmap := ⟨7, false, ⟨59, 2⟩ :: List.replicate 8 ⟨0, 0⟩⟩ }

/-- The steps that lead there, the last one first. -/
def prologue : List (System × Event) :=
  [(started, .semget 0 1 (.ok 0)), (booted.put 0 .running, .start 1), (booted, .start 0)]

theorem oneSet_runs {guard : System → Event → Prop} (allowed : ∀ step ∈ prologue, guard step.1 step.2) :
    Runs (System.Boot (.limited semaem fits)) (Step (.limited semaem fits)) guard prologue oneSet := by
  simp only [prologue, List.forall_mem_cons] at allowed
  obtain ⟨made, second, first, _⟩ := allowed
  have boot : System.Boot (.limited semaem fits) booted :=
    ⟨rfl, fun _ => by simp [booted, IpcPerm.allocated], ⟨false, rfl⟩, fun _ => rfl⟩
  refine .next (.next (.next (.start boot) (.start ?_ rfl) first) (.start ?_ ?_) second)
    (.semget root 0 access ?_ ?_) made
  · simp [Seminfo.limited, Seminfo.shipped]
  · simp [Seminfo.limited, Seminfo.shipped]
  · rfl
  · rfl
  · rfl

theorem oneSet_semop {info : Seminfo} {s : System} {slot : Slot} {ops : List Sembuf} {w : Work} {outcome : Outcome}
    (pid : Int) (sema : s.sema = oneSet.sema) (running : s.proc slot = .running)
    (entered : semopEntry info oneSet.sema 0 ops.length (some ops) root = .ok (0, ops))
    (pass : semopPass info slot pid 0 0 ops s.k = some (w, outcome)) :
    Step info s (.semop slot 0 false ops w.touched outcome)
      ((s.store w.k w.woken).put slot (outcome.proc ops.length)) := by
  rw [← sema] at entered
  refine .semop root pid running entered ?_
  rw [sema]
  exact pass

end

/-! ## Keys -/

section
variable {info : Seminfo} {s t : System} {cr : Cred} {pid semid key nsems id : Int} {flag : Nat} {cmd : Cmd}
  {result : Except Errno Int}

theorem semctl_keys (done : semctl info s cr pid semid cmd = some (t, result)) {sp : Nat}
    (used : (t.sema sp).perm.allocated) : (s.sema sp).perm.allocated ∧ (t.sema sp).perm.key = (s.sema sp).perm.key := by
  have same (sema : t.sema = s.sema) : (s.sema sp).perm.allocated ∧ (t.sema sp).perm.key = (s.sema sp).perm.key := by
    rw [sema] at used ⊢
    exact ⟨used, rfl⟩
  unfold semctl at done
  cases found : semconv info s.sema semid with
  | error error =>
    rw [found] at done
    cases done
    exact ⟨used, rfl⟩
  | ok mine =>
    rw [found] at done
    cases cmd with
    | rmid =>
      simp only at done
      split at done
      · cases done
        exact ⟨used, rfl⟩
      · obtain ⟨t', removed, done⟩ := bind_eq_some_iff.mp done
        cases done
        obtain ⟨k, _, removed⟩ := bind_eq_some_iff.mp removed
        obtain ⟨⟨semmap, effect⟩, _, removed⟩ := bind_eq_some_iff.mp removed
        cases removed
        by_cases here : sp = mine
        · subst here
          simp [IpcPerm.allocated] at used
        · simp only [System.setDs, System.store, Function.update_of_ne here] at used ⊢
          exact ⟨used, trivial⟩
    | set value =>
      simp only at done
      split at done
      · cases done
        exact ⟨used, rfl⟩
      · cases value with
        | none =>
          cases done
          exact ⟨used, rfl⟩
        | some value =>
          cases done
          by_cases here : sp = mine
          · subst here
            exact ⟨(semconv_iff.mp found).2.2.1, by simp [IpcPerm.set]⟩
          · simp only [System.setDs, Function.update_of_ne here] at used ⊢
            exact ⟨used, trivial⟩
    | setall semvals =>
      refine same ?_
      simp only at done
      split at done
      · cases done
        rfl
      · split at done
        · cases done
          rfl
        · split at done
          · cases done
            rfl
          · obtain ⟨k, _, done⟩ := bind_eq_some_iff.mp done
            cases done
            rfl
    | _ =>
      -- The other commands leave the headers.
      refine same ?_
      simp only at done
      grind [System.store, bind_eq_some_iff]

theorem semget_keyed (keyed : Keyed (fun sp => (s.sema sp).perm) info.semmni)
    (done : semget info s cr key nsems flag = some (t, result)) : Keyed (fun sp => (t.sema sp).perm) info.semmni ∧
      ∀ id, result = .ok id → ∃ sp, semconv info t.sema id = .ok sp ∧ (t.sema sp).perm.key = key := by
  have numbered {sp : Nat} (used : (t.sema sp).perm.allocated) (inside : sp < info.semmni) :
      semconv info t.sema ((t.sema sp).perm.seq * info.semmni + sp) = .ok sp := by
    have positive := info.semmni_pos
    refine semconv_iff.mpr ⟨?_, by positivity, used, ?_⟩
    · rw [Int.add_comm, Int.add_mul_emod_self_right, Int.emod_eq_of_lt (by omega) (by omega)]
      rfl
    · rw [Int.add_comm, Int.add_mul_ediv_right _ _ (by omega), Int.ediv_eq_zero_of_lt (by omega) (by omega), Int.zero_add]
  unfold semget at done
  split at done
  · cases done
    exact ⟨keyed, by simp⟩
  · next sp found =>
    obtain ⟨used, here⟩ := ipcget_existing found
    split at done
    · cases done
      exact ⟨keyed, by simp⟩
    · cases done
      refine ⟨keyed, fun id same => ?_⟩
      cases same
      exact ⟨sp, numbered used (keyed sp used).1, here⟩
  · next sp found =>
    have keyed' {t : System} (made : (t.sema sp).perm.key = key) (others : ∀ j, j ≠ sp → t.sema j = s.sema j) :
        Keyed (fun sp => (t.sema sp).perm) info.semmni := keyed.new found made fun j other => by rw [others j other]
    split at done
    · cases done
      exact ⟨keyed' (by simp [IpcPerm.init]) fun j other => by simp [other], by simp⟩
    · obtain ⟨⟨i, semmap⟩, _, done⟩ := bind_eq_some_iff.mp done
      simp only at done
      split at done
      · cases done
        exact ⟨keyed' (by simp [IpcPerm.init]) fun j other => by simp [other], by simp⟩
      · cases done
        refine ⟨keyed' (by simp [IpcPerm.init]) fun j other => by simp [other], fun id same => ?_⟩
        cases same
        exact ⟨sp, numbered (by simp [allocated_init]) (ipcget_new found).1, by simp [IpcPerm.init]⟩

theorem reaches_keyed (reached : Reaches (System.Boot info) (Step info) (fun _ _ => True) s) :
    Keyed (fun sp => (s.sema sp).perm) info.semmni := by
  apply reached.invariant
  · exact fun s boot sp used => absurd used (boot.2.1 sp)
  · intro s event t keyed step _
    cases step with
    | semget cr key flag _ done => exact (semget_keyed keyed done).1
    | semctl cr pid _ done => exact keyed.keep fun sp used => semctl_keys done used
    | _ => exact keyed

/-- The identifier that `semget` returns names a set in use that has the key, and only this one when the key
is not `IPC_PRIVATE`. -/
theorem semget_identifies (reached : Reaches (System.Boot info) (Step info) (fun _ _ => True) s)
    (done : semget info s cr key nsems flag = some (t, .ok id)) : ∃ sp, semconv info t.sema id = .ok sp ∧
      (t.sema sp).perm.key = key ∧
      (key ≠ 0 → ∀ sp', (t.sema sp').perm.allocated → (t.sema sp').perm.key = key → sp' = sp) := by
  obtain ⟨keyed, named⟩ := semget_keyed (reaches_keyed reached) done
  obtain ⟨sp, found, here⟩ := named id rfl
  have only := (keyed sp (semconv_iff.mp found).2.2.1).2
  rw [here] at only
  exact ⟨sp, found, here, only⟩

end

theorem semget_identifies_second : ∃ t, semget .shipped oneSet root 5 1 ipcCreat = some (t, .ok 1) ∧
    ∀ sp, (t.sema sp).perm.allocated → (t.sema sp).perm.key = 5 → semconv .shipped t.sema 1 = .ok sp := by
  have reached : Reaches (System.Boot .shipped) (Step .shipped) (fun _ _ => True) oneSet :=
    (oneSet_runs fun _ _ => trivial).reaches
  have done : semget .shipped oneSet root 5 1 ipcCreat = some (_, .ok 1) := rfl
  obtain ⟨sp, found, _, only⟩ := semget_identifies reached done
  exact ⟨_, done, fun sp' used same => by rw [found, only (by decide) sp' used same]⟩

end Svr4.Semaphore
