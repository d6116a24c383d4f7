import Mathlib.Algebra.Order.BigOperators.Group.Finset
import Svr4.Kernel.Bfs.Lock

/-! The lock of a BFS file system over interleaved operations. -/

namespace Svr4.Bfs.Lock

open Finset (range sum_congr)

/-- What the processes have added to `bsup_ioinprog`. -/
def total (n : Nat) (s : System) : Nat := ∑ p ∈ range n, (s.proc p).raised

/-- No operation leaves anything behind, and nobody sleeps for ever. -/
structure Sane (n : Nat) (s : System) : Prop where
  counted : s.bsupIoinprog = total n s % 65536
  returned : ∀ p, (s.proc p).prog = none → (s.proc p).raised = 0 ∧ (s.proc p).locks = false
  awaits : ∀ p, (s.proc p).asleep = some .ioinprog → ∃ q, q ≠ p ∧ (s.proc q).prog ≠ none ∧ 0 < (s.proc q).raised
  checks : ∀ p, (s.proc p).asleep = some .fslocked → ∃ q, (s.proc q).prog ≠ none ∧ (s.proc q).locks = true

/-- The steps that keep the lock and the count. -/
def Kept (s : System) : Event → Prop
  | .call _ op => op ≠ .readdir true
  | .run p first =>
    match (s.proc p).prog with
    | some (.alloc _ _) => first = false
    | some (.ioEnd _) => s.bsupIoinprog = 2 → ∀ q, (s.proc q).asleep ≠ some .ioinprog
    | _ => True

/-! ## Programs -/

/-- The count at a label. -/
def Label.raised : Label → Nat
  | .write => 0
  | .newblock | .filetoend => 1

/-- On every path the count and the lock are given back, where no allocation fails. -/
def Prog.fits (raised : Nat) (locks : Bool) : Prog → Bool
  | .ret => raised = 0 && !locks
  | .ioBegin next => next.fits (raised + 1) locks
  | .ioEnd next => 0 < raised && next.fits (raised - 1) locks
  | .checkLock next => next.fits raised locks
  | .lock next => next.fits raised true
  | .unlock next => next.fits raised false
  | .await next => raised = 1 && next.fits raised locks
  | .either first second => first.fits raised locks && second.fits raised locks
  | .alloc _ next => next.fits raised locks
  | .jump label => raised = label.raised && !locks

theorem Label.fits (label : Label) : label.body.fits label.raised false = true := by
  cases label <;> decide

theorem Op.fits {op : Op} (kept : op ≠ .readdir true) : op.prog.fits 0 false = true := by
  cases op with
  | readdir valid =>
    cases valid with
    | true => exact absurd rfl kept
    | false => decide
  | _ => decide

/-! ## The invariant -/

/-- What is left of an operation gives back what it has. -/
def Proc.Fit (proc : Proc) : Prop :=
  match proc.prog with
  | none => proc.raised = 0 ∧ proc.locks = false
  | some prog => prog.fits proc.raised proc.locks = true

structure Sound (n : Nat) (s : System) : Prop where
  fit : ∀ p, (s.proc p).Fit
  counted : s.bsupIoinprog = total n s % 65536
  held : s.bsupFslocked = true → ∃ q, (s.proc q).locks = true
  awaits : ∀ p, (s.proc p).asleep = some .ioinprog → (s.proc p).raised = 1 ∧ 2 ≤ total n s
  checks : ∀ p, (s.proc p).asleep = some .fslocked → s.bsupFslocked = true

section
variable {n p : Nat} {s t : System} {proc : Proc} {channel : Channel} {prog : Prog}

@[simp] theorem setProc_same : (s.setProc p proc).proc p = proc := Function.update_self ..

theorem setProc_other {q : Nat} (differ : q ≠ p) : (s.setProc p proc).proc q = s.proc q := Function.update_of_ne differ ..

theorem every_proc {P : Proc → Prop} (own : P proc) (others : ∀ q, q ≠ p → P (s.proc q)) (q : Nat) :
    P ((s.setProc p proc).proc q) := by
  by_cases same : q = p
  · subst same
    rwa [setProc_same]
  · rw [setProc_other same]
    exact others q same

theorem total_set (inside : p < n) : total n (s.setProc p proc) + (s.proc p).raised = total n s + proc.raised := by
  have member : p ∈ range n := Finset.mem_range.mpr inside
  have rest : ∑ q ∈ (range n).erase p, ((s.setProc p proc).proc q).raised =
      ∑ q ∈ (range n).erase p, (s.proc q).raised := by
    apply sum_congr rfl
    intro q other
    rw [setProc_other (Finset.ne_of_mem_erase other)]
  unfold total
  rw [← Finset.add_sum_erase _ _ member, ← Finset.add_sum_erase _ (fun q => (s.proc q).raised) member, rest, setProc_same]
  omega

theorem exists_other (raised : (s.proc p).raised = 1) (many : 2 ≤ total n s) : ∃ q, q ≠ p ∧ 0 < (s.proc q).raised := by
  by_contra none
  push Not at none
  have zero : ∀ q ∈ range n, q ≠ p → (s.proc q).raised = 0 := fun q _ differ => Nat.le_zero.mp (none q differ)
  have single : total n s ≤ 1 := by
    unfold total
    by_cases member : p ∈ range n
    · rw [Finset.sum_eq_single_of_mem p member zero, raised]
    · rw [Finset.sum_eq_zero fun q inside => zero q inside fun same => member (same ▸ inside)]
      exact Nat.zero_le 1
  omega

theorem Sound.returned (sound : Sound n s) (idle : (s.proc p).prog = none) : (s.proc p).raised = 0 ∧ (s.proc p).locks = false := by
  have fit := sound.fit p
  rwa [Proc.Fit, idle] at fit

theorem Sound.sane (sound : Sound n s) : Sane n s where
  counted := sound.counted
  returned p idle := sound.returned idle
  awaits p asleep := by
    obtain ⟨raised, many⟩ := sound.awaits p asleep
    obtain ⟨q, differ, positive⟩ := exists_other raised many
    exact ⟨q, differ, fun idle => Nat.ne_of_gt positive (sound.returned idle).1, positive⟩
  checks p asleep := by
    obtain ⟨q, locks⟩ := sound.held (sound.checks p asleep)
    refine ⟨q, fun idle => ?_, locks⟩
    rw [(sound.returned idle).2] at locks
    cases locks

/-! ## Steps -/

theorem count_proc (io : Nat) : ({ s with bsupIoinprog := io }.setProc p proc).proc = (s.setProc p proc).proc := rfl

theorem total_count (io : Nat) : total n ({ s with bsupIoinprog := io }.setProc p proc) = total n (s.setProc p proc) := rfl

/-- One process changes. The lock may be set, but is not cleared. -/
theorem Sound.change (sound : Sound n s) (procs : t.proc = (s.setProc p proc).proc) (fit : proc.Fit)
    (counted : t.bsupIoinprog = total n t % 65536) (held : t.bsupFslocked = true → ∃ q, (t.proc q).locks = true)
    (awaits : proc.asleep = some .ioinprog → proc.raised = 1 ∧ 2 ≤ total n t)
    (others : ∀ q, q ≠ p → (s.proc q).asleep = some .ioinprog → 2 ≤ total n t)
    (checks : proc.asleep = some .fslocked → t.bsupFslocked = true) (kept : s.bsupFslocked = true → t.bsupFslocked = true) :
    Sound n t := by
  constructor
  case counted => exact counted
  case held => exact held
  case fit =>
    rw [procs]
    exact every_proc fit fun q _ => sound.fit q
  case awaits =>
    rw [procs]
    exact every_proc (P := fun proc => proc.asleep = some .ioinprog → proc.raised = 1 ∧ 2 ≤ total n t) awaits
      fun q differ asleep => ⟨(sound.awaits q asleep).1, others q differ asleep⟩
  case checks =>
    rw [procs]
    exact every_proc (P := fun proc => proc.asleep = some .fslocked → t.bsupFslocked = true) checks
      fun q _ asleep => kept (sound.checks q asleep)

theorem holder_kept (locks : proc.locks = (s.proc p).locks) (held : ∃ q, (s.proc q).locks = true) :
    ∃ q, ((s.setProc p proc).proc q).locks = true := by
  obtain ⟨q, holds⟩ := held
  refine ⟨q, ?_⟩
  by_cases own : q = p
  · subst own
    rw [setProc_same, locks, holds]
  · rw [setProc_other own, holds]

theorem Sound.goes (sound : Sound n s) (inside : p < n) (fit : proc.Fit) (raised : proc.raised = (s.proc p).raised)
    (locks : proc.locks = (s.proc p).locks) (awaits : proc.asleep = some .ioinprog → proc.raised = 1 ∧ 2 ≤ total n s)
    (checks : proc.asleep = some .fslocked → s.bsupFslocked = true) : Sound n (s.setProc p proc) := by
  have same : total n (s.setProc p proc) = total n s := by
    have change : total n (s.setProc p proc) + (s.proc p).raised = total n s + proc.raised := total_set inside
    omega
  refine sound.change rfl fit ?_ (fun locked => holder_kept locks (sound.held locked)) ?_ (fun q _ asleep => ?_) checks id
  · rw [same]
    exact sound.counted
  · rwa [same]
  · rw [same]
    exact (sound.awaits q asleep).2

theorem Sound.ioBegin (sound : Sound n s) (inside : p < n) {io : Nat} (raise : io = (s.bsupIoinprog + 1) % 65536)
    (raised : proc.raised = (s.proc p).raised + 1) (locks : proc.locks = (s.proc p).locks) (awake : proc.asleep = none)
    (fit : proc.Fit) : Sound n ({ s with bsupIoinprog := io }.setProc p proc) := by
  have more : total n ({ s with bsupIoinprog := io }.setProc p proc) = total n s + 1 := by
    have change : total n (s.setProc p proc) + (s.proc p).raised = total n s + proc.raised := total_set inside
    rw [total_count]
    omega
  refine sound.change (count_proc _) fit ?_ (fun locked => holder_kept locks (sound.held locked)) (by simp [awake])
    (fun q _ asleep => ?_) (by simp [awake]) id
  · rw [more]
    have counted := sound.counted
    show io = _
    omega
  · rw [more]
    exact Nat.le_succ_of_le (sound.awaits q asleep).2

/-- The sleepers do not sleep for nothing: two processes are left, or the count that is lowered is two. -/
theorem Sound.ioEnd (sound : Sound n s) (inside : p < n) {io : Nat} (lower : io = (s.bsupIoinprog + 65535) % 65536)
    (positive : 0 < (s.proc p).raised) (raised : proc.raised = (s.proc p).raised - 1)
    (locks : proc.locks = (s.proc p).locks) (awake : proc.asleep = none) (fit : proc.Fit)
    (calm : s.bsupIoinprog = 2 → ∀ q, (s.proc q).asleep ≠ some .ioinprog) :
    Sound n ({ s with bsupIoinprog := io }.setProc p proc) := by
  have less : total n ({ s with bsupIoinprog := io }.setProc p proc) + 1 = total n s := by
    have change : total n (s.setProc p proc) + (s.proc p).raised = total n s + proc.raised := total_set inside
    rw [total_count]
    omega
  refine sound.change (count_proc _) fit ?_ (fun locked => holder_kept locks (sound.held locked)) (by simp [awake])
    (fun q _ asleep => ?_) (by simp [awake]) id
  · have counted := sound.counted
    show io = _
    omega
  · have many := (sound.awaits q asleep).2
    have two : total n s ≠ 2 := by
      intro two
      refine calm ?_ q asleep
      rw [sound.counted, two]
    omega

theorem total_wakeup : total n (s.wakeup channel) = total n s := by
  refine sum_congr rfl fun q _ => ?_
  simp only [System.wakeup]
  split <;> rfl

theorem wakeup_proc (s : System) (channel : Channel) (q : Nat) : ∃ asleep, (s.wakeup channel).proc q = { s.proc q with asleep := asleep } ∧
    ∀ other, asleep = some other → (s.proc q).asleep = some other ∧ other ≠ channel := by
  simp only [System.wakeup]
  split
  · exact ⟨none, rfl, nofun⟩
  · next awake =>
    refine ⟨(s.proc q).asleep, rfl, fun other asleep => ⟨asleep, fun same => awake ?_⟩⟩
    rw [asleep, same]


theorem Sound.wakeup (sound : Sound n s) : Sound n (s.wakeup channel) := by
  have same : total n (s.wakeup channel) = total n s := total_wakeup
  constructor
  case counted =>
    rw [same]
    exact sound.counted
  case held =>
    intro locked
    obtain ⟨q, holds⟩ := sound.held locked
    obtain ⟨asleep, proc, -⟩ := wakeup_proc s channel q
    exact ⟨q, by rw [proc]; exact holds⟩
  all_goals
    intro q
    obtain ⟨asleep, proc, still⟩ := wakeup_proc s channel q
    rw [proc]
  · exact sound.fit q
  · rw [same]
    exact fun waits => sound.awaits q (still _ waits).1
  · exact fun waits => sound.checks q (still _ waits).1

theorem total_locked (flag : Bool) (raised : proc.raised = (s.proc p).raised) (inside : p < n) :
    total n ({ s with bsupFslocked := flag }.setProc p proc) = total n s := by
  have change : total n (s.setProc p proc) + (s.proc p).raised = total n s + proc.raised := total_set inside
  have same : total n ({ s with bsupFslocked := flag }.setProc p proc) = total n (s.setProc p proc) := rfl
  omega

theorem Sound.lock (sound : Sound n s) (inside : p < n) (raised : proc.raised = (s.proc p).raised) (locks : proc.locks = true)
    (awake : proc.asleep = none) (fit : proc.Fit) : Sound n ({ s with bsupFslocked := true }.setProc p proc) := by
  have same := total_locked (s := s) true raised inside
  refine sound.change rfl fit ?_ (fun _ => ⟨p, by rw [setProc_same, locks]⟩) (by simp [awake]) (fun q _ asleep => ?_)
    (by simp [awake]) fun _ => rfl
  · rw [same]
    exact sound.counted
  · rw [same]
    exact (sound.awaits q asleep).2

/-- Nobody sleeps for the lock when it is given up. -/
theorem Sound.unlock (sound : Sound n s) (inside : p < n) (raised : proc.raised = (s.proc p).raised)
    (awake : proc.asleep = none) (fit : proc.Fit) :
    Sound n (({ s with bsupFslocked := false }.setProc p proc).wakeup .fslocked) := by
  have same : total n (({ s with bsupFslocked := false }.setProc p proc).wakeup .fslocked) = total n s :=
    total_wakeup.trans (total_locked false raised inside)
  constructor
  case counted =>
    rw [same]
    exact sound.counted
  case held => nofun
  all_goals
    intro q
    obtain ⟨asleep, woken, still⟩ := wakeup_proc ({ s with bsupFslocked := false }.setProc p proc) .fslocked q
    rw [woken]
  · exact every_proc (s := { s with bsupFslocked := false }) fit (fun q _ => sound.fit q) q
  · rw [same]
    intro waits
    exact every_proc (s := { s with bsupFslocked := false }) (P := fun proc => proc.asleep = some .ioinprog → proc.raised = 1 ∧ 2 ≤ total n s)
      (by simp [awake]) (fun q _ => sound.awaits q) q (still _ waits).1
  · exact fun waits => absurd rfl (still _ waits).2

theorem Sound.node (sound : Sound n s) {first : Bool} (inside : p < n) (own : (s.proc p).prog = some prog)
    (awake : (s.proc p).asleep = none) (kept : Kept s (.run p first)) : Sound n (node p first prog s) := by
  have fit : prog.fits (s.proc p).raised (s.proc p).locks = true := by
    have fit := sound.fit p
    rwa [Proc.Fit, own] at fit
  simp only [Kept, own] at kept
  cases prog with
  | ret =>
    have done : (s.proc p).raised = 0 ∧ (s.proc p).locks = false := by simpa [Prog.fits] using fit
    exact sound.goes inside done rfl rfl (by simp [awake]) (by simp [awake])
  | ioBegin next => exact sound.ioBegin inside rfl rfl rfl awake fit
  | ioEnd next =>
    have both : 0 < (s.proc p).raised ∧ next.fits ((s.proc p).raised - 1) (s.proc p).locks = true := by simpa [Prog.fits] using fit
    have ended : Sound n ({ s with bsupIoinprog := _ }.setProc p { s.proc p with prog := some next, raised := (s.proc p).raised - 1 }) :=
      sound.ioEnd inside rfl both.1 rfl rfl awake both.2 kept
    simp only [Lock.node]
    split
    · exact ended.wakeup
    · exact ended
  | checkLock next =>
    simp only [Lock.node]
    split
    case isTrue locked => exact sound.goes inside (by rw [Proc.Fit, own]; exact fit) rfl rfl (by rintro ⟨⟩) fun _ => locked
    case isFalse => exact sound.goes inside fit rfl rfl (by simp [awake]) (by simp [awake])
  | lock next => exact sound.lock inside rfl rfl awake fit
  | unlock next => exact sound.unlock inside rfl awake fit
  | await next =>
    have both : (s.proc p).raised = 1 ∧ next.fits (s.proc p).raised (s.proc p).locks = true := by simpa [Prog.fits] using fit
    simp only [Lock.node]
    split
    case isTrue many =>
      refine sound.goes inside (by rw [Proc.Fit, own]; exact fit) rfl rfl (fun _ => ⟨both.1, ?_⟩) (by rintro ⟨⟩)
      have counted := sound.counted
      omega
    case isFalse => exact sound.goes inside both.2 rfl rfl (by simp [awake]) (by simp [awake])
  | either a b =>
    have both : a.fits (s.proc p).raised (s.proc p).locks = true ∧ b.fits (s.proc p).raised (s.proc p).locks = true := by
      simpa [Prog.fits] using fit
    refine sound.goes inside ?_ rfl rfl (by simp [awake]) (by simp [awake])
    cases first with
    | true => exact both.1
    | false => exact both.2
  | alloc failed next =>
    subst kept
    exact sound.goes inside fit rfl rfl (by simp [awake]) (by simp [awake])
  | jump label =>
    have both : (s.proc p).raised = label.raised ∧ (s.proc p).locks = false := by simpa [Prog.fits] using fit
    refine sound.goes inside ?_ rfl rfl (by simp [awake]) (by simp [awake])
    show label.body.fits (s.proc p).raised (s.proc p).locks = true
    rw [both.1, both.2]
    exact label.fits

theorem Sound.step {event : Event} (sound : Sound n s) (step : Step n s event t) (kept : Kept s event) : Sound n t := by
  obtain ⟨inside, result⟩ := step
  cases event with
  | call p op =>
    simp only [run] at result
    split at result
    case isTrue idle =>
      cases result
      have fit := sound.fit p
      rw [Proc.Fit, idle] at fit
      refine sound.goes inside ?_ rfl rfl (sound.awaits p) (sound.checks p)
      show op.prog.fits (s.proc p).raised (s.proc p).locks = true
      rw [fit.1, fit.2]
      exact Op.fits kept
    case isFalse => cases result
  | run p first =>
    simp only [run] at result
    split at result
    case isTrue => cases result
    case isFalse awake =>
      obtain ⟨prog, own, rfl⟩ := Option.map_eq_some_iff.mp result
      exact sound.node inside own (not_not.mp awake) kept

theorem start_sound : Sound n start where
  fit _ := ⟨rfl, rfl⟩
  counted := by simp [total, start, Proc.idle]
  held := nofun
  awaits _ := nofun
  checks _ := nofun

end

/-- Every interleaving of any number of operations whose steps are `Kept`. -/
theorem lock_sane (n : Nat) (s : System) (reached : Reaches (· = start) (Step n) Kept s) : Sane n s := by
  have sound : Sound n s := by
    induction reached with
    | start first =>
      subst first
      exact start_sound
    | next _ step kept ih => exact ih.step step kept
  exact sound.sane

/-- The attributes of a file are read. -/
theorem lock_sane_getattr : ∃ s, Reaches (· = start) (Step 1) Kept s ∧ (s.proc 0).prog = none ∧ Sane 1 s := by
  have reached : Reaches (· = start) (Step 1) Kept
      (node 0 false .ret (node 0 false (.ioEnd .ret) (node 0 false (.checkLock (.ioEnd .ret)) (node 0 false .getattr
        (start.setProc 0 { Proc.idle with prog := some .getattr }))))) := by
    have called : Reaches (· = start) (Step 1) Kept (start.setProc 0 { Proc.idle with prog := some .getattr }) :=
      .next (.start rfl) (show Step 1 start (.call 0 .getattr) _ from ⟨by decide, rfl⟩) nofun
    have raised := called.next (show Step 1 _ (.run 0 false) _ from ⟨by decide, rfl⟩) trivial
    have checked := raised.next (show Step 1 _ (.run 0 false) _ from ⟨by decide, rfl⟩) trivial
    have lowered := checked.next (show Step 1 _ (.run 0 false) _ from ⟨by decide, rfl⟩) nofun
    exact lowered.next (show Step 1 _ (.run 0 false) _ from ⟨by decide, rfl⟩) trivial
  exact ⟨_, reached, rfl, lock_sane 1 _ reached⟩

theorem runs_reach {n : Nat} {events : List Event} {s : System}
    (result : events.foldlM (fun s event => if event.proc < n then run event s else none) start = some s) :
    Reaches (· = start) (Step n) (fun _ _ => True) s := by
  refine Reaches.events (fun s event t taken => ?_) (fun _ _ => trivial) (.start rfl) result
  split at taken
  · next inside => exact ⟨inside, taken⟩
  · cases taken

/-- The run of a process along the given branches. -/
def along (p : Nat) (branches : List Bool) : List Event := branches.map (.run p)

/-- A directory is read. An allocation fails while a file is moved, and another process sleeps. An operation ends
for which a process waits that moves a file. -/
theorem lock_left :
    (∃ s, Reaches (· = start) (Step 2) (fun _ _ => True) s ∧ (s.proc 0).prog = none ∧ (s.proc 1).prog = none ∧ s.bsupIoinprog = 1) ∧
    (∃ s, Reaches (· = start) (Step 2) (fun _ _ => True) s ∧ (s.proc 0).prog = none ∧ (s.proc 1).asleep = some .fslocked) ∧
    ∃ s, Reaches (· = start) (Step 2) (fun _ _ => True) s ∧ (s.proc 0).asleep = some .ioinprog ∧ (s.proc 1).prog = none := by
  refine ⟨?_, ?_, ?_⟩
  · obtain ⟨s, last, holds⟩ : ∃ s, (.call 0 (.readdir true) :: along 0 [false, false, false, false, false, false, false]).foldlM
        (fun s event => if event.proc < 2 then run event s else none) start = some s ∧
        (s.proc 0).prog = none ∧ (s.proc 1).prog = none ∧ s.bsupIoinprog = 1 := ⟨_, rfl, rfl, rfl, rfl⟩
    exact ⟨s, runs_reach last, holds⟩
  · obtain ⟨s, last, holds⟩ : ∃ s, (.call 0 .write :: along 0 [false, false, false, false, false, false, true, false, false, false,
        false, true, false, false] ++ .call 1 .getattr :: along 1 [false, false]).foldlM
        (fun s event => if event.proc < 2 then run event s else none) start = some s ∧
        (s.proc 0).prog = none ∧ (s.proc 1).asleep = some .fslocked := ⟨_, rfl, rfl, rfl⟩
    exact ⟨s, runs_reach last, holds⟩
  · obtain ⟨s, last, holds⟩ : ∃ s, (.call 1 .read :: along 1 [false, false, false] ++ .call 0 .write ::
        along 0 [false, false, false, false, false, false, true, false, false, false] ++ along 1 [false, false, false, false]).foldlM
        (fun s event => if event.proc < 2 then run event s else none) start = some s ∧
        (s.proc 0).asleep = some .ioinprog ∧ (s.proc 1).prog = none := ⟨_, rfl, rfl, rfl⟩
    exact ⟨s, runs_reach last, holds⟩

end Svr4.Bfs.Lock
