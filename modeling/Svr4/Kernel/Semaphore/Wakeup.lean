import Svr4.Kernel.Semaphore.Steps

/-! A sleeper is counted, and what it waits for has not come.

The counters are set to zero when the channel is woken. A value that goes up
wakes those on `semncnt`, one that becomes zero wakes those on `semzcnt`; the
values a pass takes back are those it started from. What a pass does to the
values does not depend on the undo tables.
-/

namespace Svr4.Semaphore

open Words Ipc
open Function (update_self update update_of_ne)
open Option (some bind_eq_some_iff)
open List (mem_append mem_singleton map_cons sum_cons)

attribute [local simp] Tables.setSem Proc.live

/-- The counter at the address of the channel. -/
def Chan.counter (k : Tables) : Chan → Int
  | .ncnt i => (k.sem i).semncnt
  | .zcnt i => (k.sem i).semzcnt

section
variable {k : Tables} {chan : Chan} {i : Nat}

theorem counter_setSem {write : Sem → Sem}
    (writes : ∀ s, (write s).semncnt = s.semncnt ∧ (write s).semzcnt = s.semzcnt) :
    chan.counter (k.setSem i write) = chan.counter k := by
  cases chan with
  | ncnt j => exact field_update Sem.semncnt (writes _).1
  | zcnt j => exact field_update Sem.semzcnt (writes _).2

theorem counter_semncnt {count : Sem → Int} :
    chan.counter (k.setSem i fun s => { s with semncnt := count s }) =
      if chan = .ncnt i then count (k.sem i) else chan.counter k := by
  cases chan with
  | ncnt j =>
    by_cases here : j = i
    · subst here
      simp [Chan.counter]
    · simp [Chan.counter, here]
  | zcnt j =>
    rw [if_neg nofun]
    exact field_update Sem.semzcnt rfl

theorem counter_semzcnt {count : Sem → Int} :
    chan.counter (k.setSem i fun s => { s with semzcnt := count s }) =
      if chan = .zcnt i then count (k.sem i) else chan.counter k := by
  cases chan with
  | ncnt j =>
    rw [if_neg nofun]
    exact field_update Sem.semncnt rfl
  | zcnt j =>
    by_cases here : j = i
    · subst here
      simp [Chan.counter]
    · simp [Chan.counter, here]

end

/-- What a call has done since it started in `k₀`. A semaphore that went up or
became zero without the wakeup so far is in `raised` or in `zeroed`. -/
structure Wakes (info : Seminfo) (k₀ : Tables) (w : Work) (raised zeroed : Option Nat) : Prop where
  counters : ∀ chan : Chan, chan.counter w.k = if chan ∈ w.woken then 0 else chan.counter k₀
  ranged : ∀ i, 0 ≤ (w.k.sem i).semval ∧ (w.k.sem i).semval ≤ info.semvmx
  raised : ∀ i, raised ≠ some i → .ncnt i ∉ w.woken → (k₀.sem i).semncnt ≠ 0 →
    (w.k.sem i).semval ≤ (k₀.sem i).semval
  zeroed : ∀ i, zeroed ≠ some i → .zcnt i ∉ w.woken → (k₀.sem i).semzcnt ≠ 0 → (k₀.sem i).semval ≠ 0 →
    (w.k.sem i).semval ≠ 0

/-- Values and counters are the same. -/
structure SameValues (k k' : Tables) : Prop where
  semval : ∀ i, (k'.sem i).semval = (k.sem i).semval
  counter : ∀ chan : Chan, chan.counter k' = chan.counter k

variable {k : Tables} {pid : Int} {chan : Chan}

theorem SameValues.of_sem {k' : Tables} (same : k'.sem = k.sem) : SameValues k k' where
  semval i := by rw [same]
  counter chan := by
    cases chan with
    | ncnt i => rw [Chan.counter, same, Chan.counter]
    | zcnt i => rw [Chan.counter, same, Chan.counter]

theorem SameValues.trans {k' k'' : Tables} (first : SameValues k k') (second : SameValues k' k'') :
    SameValues k k'' where
  semval i := (second.semval i).trans (first.semval i)
  counter chan := (second.counter chan).trans (first.counter chan)

theorem stamp_same {i : Nat} : SameValues k (k.setSem i fun s => { s with sempid := pid }) where
  semval _ := field_update Sem.semval rfl
  counter _ := counter_setSem fun _ => ⟨rfl, rfl⟩

variable {w : Work}

theorem stamp_values {base : Nat} (ops : List Sembuf) :
    SameValues w.k (stamp pid base ops w).k ∧ (stamp pid base ops w).woken = w.woken := by
  induction ops generalizing w with
  | nil => exact ⟨.of_sem rfl, rfl⟩
  | cons op ops ih =>
    obtain ⟨values, woken⟩ := ih (w := { w.touch op.semNum with
      k := w.k.setSem (base + op.semNum) fun s => { s with sempid := pid } })
    exact ⟨stamp_same.trans values, woken⟩

namespace Wakes
variable {info : Seminfo} {k₀ : Tables} {w w' : Work} {i : Nat} {raised zeroed : Option Nat}

theorem start (ranged : ∀ i, 0 ≤ (k₀.sem i).semval ∧ (k₀.sem i).semval ≤ info.semvmx) :
    Wakes info k₀ ⟨k₀, [], []⟩ none none where
  counters chan := by simp
  ranged := ranged
  raised i _ _ _ := le_rfl
  zeroed i _ _ _ nonzero := nonzero

theorem same (wakes : Wakes info k₀ w raised zeroed) (values : SameValues w.k w'.k) (woken : w'.woken = w.woken) :
    Wakes info k₀ w' raised zeroed where
  counters chan := by
    rw [values.counter, woken]
    exact wakes.counters chan
  ranged i := by
    rw [values.semval]
    exact wakes.ranged i
  raised i := by
    rw [values.semval, woken]
    exact wakes.raised i
  zeroed i := by
    rw [values.semval, woken]
    exact wakes.zeroed i

theorem store {value : Int} {write : Sem → Sem} (wakes : Wakes info k₀ w none none)
    (writes : ∀ s, (write s).semncnt = s.semncnt ∧ (write s).semzcnt = s.semzcnt)
    (stored : (write (w.k.sem i)).semval = value) (range : 0 ≤ value ∧ value ≤ info.semvmx)
    (up : value ≤ (w.k.sem i).semval ∨ raised = some i) (zero : value ≠ 0 ∨ zeroed = some i) :
    Wakes info k₀ { w with k := w.k.setSem i write } raised zeroed where
  counters chan := by
    rw [← wakes.counters chan]
    exact counter_setSem writes
  ranged j := by
    by_cases here : j = i
    · subst here
      simpa [stored] using range
    · simpa [here] using wakes.ranged j
  raised j pending awake counted := by
    by_cases here : j = i
    · subst here
      have before := wakes.raised j (by simp) awake counted
      simp only [Tables.setSem, update_self, stored]
      rcases up with up | up
      · omega
      · exact absurd up pending
    · simpa [here] using wakes.raised j (by simp) awake counted
  zeroed j pending awake counted nonzero := by
    by_cases here : j = i
    · subst here
      simp only [Tables.setSem, update_self, stored]
      rcases zero with zero | zero
      · exact zero
      · exact absurd zero pending
    · simpa [here] using wakes.zeroed j (by simp) awake counted nonzero

theorem wakeN (wakes : Wakes info k₀ w raised zeroed) (pending : raised = none ∨ raised = some i) :
    Wakes info k₀ (w.wakeN i) none zeroed := by
  have semval (j : Nat) : ((w.wakeN i).k.sem j).semval = (w.k.sem j).semval := wakeN_semval
  have others (j : Nat) (differs : j ≠ i) : raised ≠ some j := by
    rcases pending with pending | pending
    · simp [pending]
    · simp [pending, Ne.symm differs]
  unfold Work.wakeN at semval ⊢
  split
  · next counted =>
    rw [if_pos counted] at semval
    constructor
    · intro chan
      rw [counter_semncnt, wakes.counters]
      by_cases here : chan = .ncnt i
      · simp [here]
      · simp [here]
    · intro j
      rw [semval]
      exact wakes.ranged j
    · intro j _ awake
      simp only [mem_append, mem_singleton, Chan.ncnt.injEq, not_or] at awake
      rw [semval]
      exact wakes.raised j (others j awake.2) awake.1
    · intro j pending awake
      simp only [mem_append, mem_singleton, reduceCtorEq, or_false] at awake
      rw [semval]
      exact wakes.zeroed j pending awake
  · next none =>
    refine ⟨wakes.counters, wakes.ranged, fun j _ awake counted => ?_, wakes.zeroed⟩
    by_cases here : j = i
    · -- Nobody is counted now, so nobody was when the call started.
      subst here
      have same := wakes.counters (.ncnt j)
      rw [if_neg awake] at same
      rw [ne_eq, not_not] at none
      exact absurd (same.symm.trans none) counted
    · exact wakes.raised j (others j here) awake counted

theorem wakeZ (wakes : Wakes info k₀ w raised zeroed) (pending : zeroed = none ∨ zeroed = some i) :
    Wakes info k₀ (w.wakeZ i) raised none := by
  have semval (j : Nat) : ((w.wakeZ i).k.sem j).semval = (w.k.sem j).semval := wakeZ_semval
  have others (j : Nat) (differs : j ≠ i) : zeroed ≠ some j := by
    rcases pending with pending | pending
    · simp [pending]
    · simp [pending, Ne.symm differs]
  unfold Work.wakeZ at semval ⊢
  split
  · next counted =>
    rw [if_pos counted] at semval
    constructor
    · intro chan
      rw [counter_semzcnt, wakes.counters]
      by_cases here : chan = .zcnt i
      · simp [here]
      · simp [here]
    · intro j
      rw [semval]
      exact wakes.ranged j
    · intro j pending awake
      simp only [mem_append, mem_singleton, reduceCtorEq, or_false] at awake
      rw [semval]
      exact wakes.raised j pending awake
    · intro j _ awake
      simp only [mem_append, mem_singleton, Chan.zcnt.injEq, not_or] at awake
      rw [semval]
      exact wakes.zeroed j (others j awake.2) awake.1
  · next none =>
    refine ⟨wakes.counters, wakes.ranged, wakes.raised, fun j _ awake counted nonzero => ?_⟩
    by_cases here : j = i
    · subst here
      have same := wakes.counters (.zcnt j)
      rw [if_neg awake] at same
      intro zero
      exact none ⟨fun gone => counted (same.symm.trans gone), zero⟩
    · exact wakes.zeroed j (others j here) awake counted nonzero

end Wakes

theorem count_counter (fits : toUshort (chan.counter w.k + 1) = chan.counter w.k + 1)
    (other : Chan) :
    other.counter (w.count chan).k = if other = chan then chan.counter w.k + 1 else other.counter w.k := by
  cases chan with
  | ncnt i =>
    rw [← fits]
    exact (@counter_semncnt w.k _ _ (fun s => toUshort (s.semncnt + 1)))
  | zcnt i =>
    rw [← fits]
    exact (@counter_semzcnt w.k _ _ (fun s => toUshort (s.semzcnt + 1)))

theorem uncount_counter (w : Work) (chan other : Chan) :
    other.counter (uncount w chan).k = (if other = chan then if chan.counter w.k ≤ 1 then 0 else chan.counter w.k - 1
      else other.counter w.k) ∧
    (uncount w chan).woken = if chan.counter w.k ≤ 1 then w.woken ++ [chan] else w.woken := by
  cases chan with
  | ncnt i =>
    rw [uncount]
    change _ ∧ (if (w.k.sem i).semncnt ≤ 1 then _ else _ : Work).woken = if (w.k.sem i).semncnt ≤ 1 then _ else _
    split
    · next few =>
      refine ⟨?_, rfl⟩
      rw [counter_semncnt]
      simp [Chan.counter, few]
    · next many =>
      refine ⟨?_, rfl⟩
      rw [counter_semncnt]
      simp [Chan.counter, many]
  | zcnt i =>
    rw [uncount]
    change _ ∧ (if (w.k.sem i).semzcnt ≤ 1 then _ else _ : Work).woken = if (w.k.sem i).semzcnt ≤ 1 then _ else _
    split
    · next few =>
      refine ⟨?_, rfl⟩
      rw [counter_semzcnt]
      simp [Chan.counter, few]
    · next many =>
      refine ⟨?_, rfl⟩
      rw [counter_semzcnt]
      simp [Chan.counter, many]

theorem uncount_semval {j : Nat} :
    ((uncount w chan).k.sem j).semval = (w.k.sem j).semval := by
  cases chan with
  | ncnt i =>
    rw [uncount]
    split
    · exact field_update Sem.semval rfl
    · exact field_update Sem.semval rfl
  | zcnt i =>
    rw [uncount]
    split
    · exact field_update Sem.semval rfl
    · exact field_update Sem.semval rfl

/-! ## A pass -/

section
variable {info : Seminfo} {slot : Slot} {pid semid val id : Int} {base num up : Nat} {op : Sembuf}
  {done rest ops : List Sembuf} {k k' k₁ k₀ : Tables} {w w' : Work} {error : Option Errno} {verdict : Verdict}
  {outcome : Outcome}

theorem semaoe_sem (result : semaoe info slot val id num k = some (k', error)) : k'.sem = k.sem := by
  cases semaoe_aoe result with
  | zero => rfl
  | range => rfl
  | nospace => rfl
  | record up k₁ k' accepted taken recorded =>
    rw [(record_same recorded).sem]
    unfold Tables.acquire at taken
    split at taken
    · cases taken
      rfl
    · split at taken
      · cases taken
      · cases taken
        rfl

theorem adjustUndo_sem {undo : Bool} (result : adjustUndo info slot semid undo val num w = some (w', error)) :
    w'.k.sem = w.k.sem ∧ w'.woken = w.woken := by
  unfold adjustUndo at result
  split at result
  · obtain ⟨⟨k, error'⟩, made, same⟩ := bind_eq_some_iff.mp result
    cases same
    exact ⟨semaoe_sem made, rfl⟩
  · cases result
    exact ⟨rfl, rfl⟩

/-- What one operation does to the values. -/
inductive Tried (info : Seminfo) (base : Nat) (op : Sembuf) (k₀ : Tables) (w w' : Work) : Verdict → Prop where
  | ok : Wakes info k₀ w' none none → (∀ i, (w'.k.sem i).semval = (w.k.sem i).semval + op.on base i) →
      Tried info base op k₀ w w' .ok
  | fail (error : Errno) : SameValues w.k w'.k → w'.woken = w.woken → Tried info base op k₀ w w' (.fail error)
  | less : SameValues w.k w'.k → w'.woken = w.woken → op.semOp < 0 →
      (w.k.sem (base + op.semNum)).semval < -op.semOp → Tried info base op k₀ w w' (.block (.ncnt (base + op.semNum)))
  | nonzero : SameValues w.k w'.k → w'.woken = w.woken → op.semOp = 0 →
      (w.k.sem (base + op.semNum)).semval ≠ 0 → Tried info base op k₀ w w' (.block (.zcnt (base + op.semNum)))

theorem perform_tried {wake : Work → Work} {raised zeroed : Option Nat}
    (wakes : Wakes info k₀ w none none)
    (fits : 0 ≤ (w.k.sem (base + op.semNum)).semval + op.semOp ∧
      (w.k.sem (base + op.semNum)).semval + op.semOp ≤ info.semvmx)
    (up : op.semOp ≤ 0 ∨ raised = some (base + op.semNum))
    (zero : (w.k.sem (base + op.semNum)).semval + op.semOp ≠ 0 ∨ zeroed = some (base + op.semNum))
    (woken : ∀ w, Wakes info k₀ w raised zeroed → Wakes info k₀ (wake w) none none)
    (values : ∀ w i, ((wake w).k.sem i).semval = (w.k.sem i).semval)
    (result : perform info slot semid base op wake w = some (w', verdict)) :
    Tried info base op k₀ w w' verdict := by
  obtain ⟨⟨w₁, error⟩, made, result⟩ := bind_eq_some_iff.mp result
  obtain ⟨sem, silent⟩ := adjustUndo_sem made
  have limit := info.semvmx_fits
  cases error with
  | some error =>
    cases result
    exact .fail error (.of_sem sem) silent
  | none =>
    cases result
    have wakes₁ : Wakes info k₀ w₁ none none := wakes.same (.of_sem sem) silent
    have value : toUshort ((w₁.k.sem (base + op.semNum)).semval + op.semOp) =
        (w.k.sem (base + op.semNum)).semval + op.semOp := by
      rw [sem]
      exact toUshort_of_range fits.1 (by omega)
    refine .ok (woken _ ?_) fun i => ?_
    · refine wakes₁.store (i := base + op.semNum) (fun _ => ⟨rfl, rfl⟩) value fits ?_ zero
      rw [sem]
      rcases up with up | up
      · exact .inl (by omega)
      · exact .inr up
    · rw [values, add_semval, value, sem]
      unfold Sembuf.on
      by_cases here : i = base + op.semNum
      · rw [if_pos here, if_pos here.symm, here]
      · rw [if_neg here, if_neg fun same => here same.symm, Int.add_zero]

theorem attempt_tried (wakes : Wakes info k₀ w none none)
    (result : attempt info slot semid base op w = some (w', verdict)) : Tried info base op k₀ w w' verdict := by
  have range := wakes.ranged (base + op.semNum)
  have wakes' : Wakes info k₀ (w.touch op.semNum) none none := wakes.same (.of_sem rfl) rfl
  have touched : (w.touch op.semNum).k = w.k := rfl
  have still : SameValues w.k (w.touch op.semNum).k := .of_sem rfl
  simp only [attempt] at result
  split at result
  · next positive =>
    split at result
    · cases result
      exact .fail _ still rfl
    · next room =>
      rw [touched] at room
      have tried := perform_tried wakes' (by rw [touched]; omega)
        (.inr rfl) (.inl (by rw [touched]; omega))
        (fun w wakes => (wakes.wakeN (.inr rfl)).wakeZ (i := base + op.semNum) (.inl rfl))
        (fun w i => by rw [wakeZ_semval, wakeN_semval]) result
      cases tried with
      | ok wakes values => exact .ok wakes values
      | fail error same woken => exact .fail error same woken
      | less _ _ negative => omega
      | nonzero _ _ zero => omega
  · split at result
    · next negative =>
      split at result
      · next enough =>
        rw [touched] at enough
        have tried := perform_tried wakes'
          (by rw [touched]; omega) (.inl (by omega)) (.inr rfl)
          (fun w wakes => wakes.wakeZ (.inr rfl)) (fun w i => wakeZ_semval) result
        cases tried with
        | ok wakes values => exact .ok wakes values
        | fail error same woken => exact .fail error same woken
        | less same woken negative low => exact .less same woken negative low
        | nonzero _ _ zero => omega
      · next few =>
        cases result
        rw [touched] at few
        exact .less still rfl negative (by omega)
    · next notNegative =>
      have zero : op.semOp = 0 := by omega
      split at result
      · next nonzero =>
        cases result
        exact .nonzero still rfl zero nonzero
      · cases result
        refine .ok wakes' fun i => ?_
        simp [Sembuf.on, zero, Work.touch]

theorem semundo_values (range : ∀ i, 0 ≤ (w.k.sem i).semval ∧ (w.k.sem i).semval < 65536)
    (result : semundo info slot semid base done w = some w') :
    (∀ i, (w'.k.sem i).semval = toUshort ((w.k.sem i).semval - net base i done)) ∧
      (∀ chan : Chan, chan.counter w'.k = chan.counter w.k) ∧ w'.woken = w.woken := by
  induction done generalizing w with
  | nil =>
    cases result
    refine ⟨fun i => ?_, fun _ => rfl, rfl⟩
    simp only [net, List.map_nil, List.sum_nil, Int.sub_zero]
    exact (toUshort_of_range (range i).1 (range i).2).symm
  | cons op done ih =>
    unfold semundo at result
    split at result
    · next zero =>
      obtain ⟨values, rest⟩ := ih range result
      refine ⟨fun i => ?_, rest⟩
      rw [values, net, net, map_cons, sum_cons]
      simp [Sembuf.on, zero]
    · obtain ⟨⟨w₁, error⟩, made, result⟩ := bind_eq_some_iff.mp result
      obtain ⟨sem, silent⟩ := adjustUndo_sem made
      have value (i : Nat) : (w₁.k.sem i).semval = toUshort ((w.k.sem i).semval - op.on base i) := by
        rw [sem, add_semval]
        unfold Sembuf.on
        by_cases here : i = base + op.semNum
        · rw [if_pos here, if_pos here.symm, here, Int.sub_eq_add_neg]
          rfl
        · rw [if_neg here, if_neg fun same => here same.symm, Int.sub_zero]
          exact (toUshort_of_range (range i).1 (range i).2).symm
      have counter (chan : Chan) : chan.counter w₁.k = chan.counter w.k := by
        have same := (SameValues.of_sem sem).counter chan
        rw [same]
        exact (@counter_setSem w.k _ _ (fun s => { s with semval := toUshort (s.semval + -op.semOp) }))
          fun _ => ⟨rfl, rfl⟩
      have range₁ (i : Nat) : 0 ≤ (w₁.k.sem i).semval ∧ (w₁.k.sem i).semval < 65536 := by
        rw [value]
        exact ⟨Int.emod_nonneg _ (by decide), Int.emod_lt_of_pos _ (by decide)⟩
      obtain ⟨values, counters, woken⟩ := ih range₁ result
      refine ⟨fun i => ?_, fun chan => (counters chan).trans (counter chan), woken.trans silent⟩
      rw [values, value, net, net, map_cons, sum_cons, toUshort, toUshort, toUshort, Int.emod_sub_emod]
      congr 1
      omega

/-- What the process waits for has not come, as far as its array goes: the
operations in front of it on the same semaphore count. -/
def Wait.Pending (wait : Wait) (k : Tables) : Prop :=
  (wait.op.semOp < 0 → (k.sem wait.index).semval + net wait.base wait.index wait.done < -wait.op.semOp) ∧
    (0 ≤ wait.op.semOp → net wait.base wait.index wait.done ≤ 0 → (k.sem wait.index).semval ≠ 0)

/-- How a pass ends that started in `k₀`. -/
inductive Passed (info : Seminfo) (k₀ : Tables) : Work → Outcome → Prop where
  | success {w : Work} : Wakes info k₀ w none none → Passed info k₀ w .success
  | error {w : Work} (error : Errno) : Wakes info k₀ w none none → Passed info k₀ w (.error error)
  | sleep {w : Work} (wait : Wait) : Wakes info k₀ w none none → (∀ i, (w.k.sem i).semval = (k₀.sem i).semval) →
      wait.Pending k₀ → Passed info k₀ (w.count wait.chan) (.sleep wait.chan wait)

section
variable (ranged : ∀ i, 0 ≤ (k₀.sem i).semval ∧ (k₀.sem i).semval ≤ info.semvmx)
include ranged

theorem semundo_wakes {w₁ : Work}
    (wakes : Wakes info k₀ w none none) (sums : ∀ i, (w.k.sem i).semval = (k₀.sem i).semval + net base i done)
    (same : SameValues w.k w₁.k) (silent : w₁.woken = w.woken)
    (result : semundo info slot semid base done w₁ = some w') :
    Wakes info k₀ w' none none ∧ ∀ i, (w'.k.sem i).semval = (k₀.sem i).semval := by
  have limit := info.semvmx_fits
  have wakes₁ := wakes.same same silent
  have range₁ (i : Nat) : 0 ≤ (w₁.k.sem i).semval ∧ (w₁.k.sem i).semval < 65536 := by
    have range := wakes₁.ranged i
    omega
  obtain ⟨values, counters, woken⟩ := semundo_values range₁ result
  have back (i : Nat) : (w'.k.sem i).semval = (k₀.sem i).semval := by
    have range := ranged i
    rw [values, same.semval, sums, Int.add_sub_cancel]
    exact toUshort_of_range range.1 (by omega)
  refine ⟨⟨fun chan => ?_, fun i => ?_, fun i _ _ _ => ?_, fun i _ _ _ nonzero => ?_⟩, back⟩
  · rw [counters, woken]
    exact wakes₁.counters chan
  · rw [back]
    exact ranged i
  · rw [back]
  · rw [back]
    exact nonzero

theorem semopFrom_passed
    (wakes : Wakes info k₀ w none none) (sums : ∀ i, (w.k.sem i).semval = (k₀.sem i).semval + net base i done)
    (result : semopFrom info slot pid semid base ops done rest w = some (w', outcome)) :
    Passed info k₀ w' outcome := by
  induction rest generalizing done w with
  | nil =>
    cases result
    have stamped : SameValues w.k (stamp pid base ops w).k ∧ (stamp pid base ops w).woken = w.woken := stamp_values ops
    exact .success (wakes.same stamped.1 stamped.2)
  | cons op rest ih =>
    obtain ⟨⟨w₁, verdict⟩, tried, result⟩ := bind_eq_some_iff.mp result
    have tried := attempt_tried wakes tried
    have waits {chan : Chan} (same : SameValues w.k w₁.k) (silent : w₁.woken = w.woken)
        (here : chan = (Wait.mk semid base done op).chan) (pending : (Wait.mk semid base done op).Pending k₀)
        (result : (semundo info slot semid base done w₁ >>= fun w => if op.nowait then some (w, Outcome.error .eagain)
          else some (w.count chan, Outcome.sleep chan ⟨semid, base, done, op⟩)) = some (w', outcome)) :
        Passed info k₀ w' outcome := by
      obtain ⟨w₂, undone, result⟩ := bind_eq_some_iff.mp result
      obtain ⟨wakes₂, back⟩ := semundo_wakes ranged wakes sums same silent undone
      split at result
      · cases result
        exact .error _ wakes₂
      · cases result
        subst here
        exact .sleep _ wakes₂ back pending
    cases tried with
    | ok wakes₁ values =>
      refine ih wakes₁ (fun i => ?_) result
      rw [values, sums, net, net, map_cons, sum_cons]
      omega
    | fail error same silent =>
      obtain ⟨w₂, undone, result⟩ := bind_eq_some_iff.mp result
      cases result
      exact .error _ (semundo_wakes ranged wakes sums same silent undone).1
    | less same silent negative low =>
      refine waits same silent ?_ ⟨fun _ => ?_, fun zero => ?_⟩ result
      · simp [Wait.chan, negative, Wait.index]
      · simp only [Wait.index]
        rw [← sums]
        exact low
      · have zero : 0 ≤ op.semOp := zero
        omega
    | nonzero same silent zero nonzero =>
      refine waits same silent ?_ ⟨fun negative => ?_, fun _ below => ?_⟩ result
      · simp [Wait.chan, zero, Wait.index]
      · have negative : op.semOp < 0 := negative
        omega
      · -- The value was positive and the operations before it took something from it.
        simp only [Wait.index] at below ⊢
        have range := wakes.ranged (base + op.semNum)
        have sum := sums (base + op.semNum)
        omega

end

theorem semopPass_passed (ranged : ∀ i, 0 ≤ (k.sem i).semval ∧ (k.sem i).semval ≤ info.semvmx)
    (result : semopPass info slot pid semid base ops k = some (w, outcome)) : Passed info k w outcome :=
  semopFrom_passed ranged (.start ranged) (fun i => by simp [net]) result

end

/-! ## The other calls -/

section
variable {info : Seminfo} {k₀ k k' : Tables} {w : Work} {i base n : Nat} {value pid id : Int} {low high fuel : Nat}
  {sema : Nat → SemidDs}

theorem foldl_wakes {α : Type} {body : Work → α → Work} (list : List α)
    (step : ∀ w, ∀ a ∈ list, Wakes info k₀ w none none → Wakes info k₀ (body w a) none none)
    (wakes : Wakes info k₀ w none none) : Wakes info k₀ (list.foldl body w) none none := by
  induction list generalizing w with
  | nil => exact wakes
  | cons a list ih =>
    exact ih (fun w b member => step w b (by simp [member])) (step w a (by simp) wakes)

theorem setval_wakes (range : 0 ≤ value ∧ value ≤ info.semvmx) (wakes : Wakes info k₀ w none none) :
    Wakes info k₀ (setval i value pid w) none none := by
  have stamped (w : Work) : SameValues w.k (w.k.setSem i fun s => { s with sempid := pid }) := stamp_same
  have before := wakes.ranged i
  unfold setval
  split
  · next nonzero =>
    have stored := (@Wakes.store _ _ _ i _ none _ (fun s => { s with semval := value })) wakes (fun _ => ⟨rfl, rfl⟩) rfl range (.inr rfl) (.inl nonzero)
    exact (stored.wakeN (.inr rfl)).same (stamped _) rfl
  · next zero =>
    have stored := (@Wakes.store _ _ _ i none _ value (fun s => { s with semval := value })) wakes
      (fun _ => ⟨rfl, rfl⟩) rfl range (.inl (by omega)) (.inr rfl)
    exact (stored.wakeZ (.inr rfl)).same (stamped _) rfl

theorem setall_wakes {semvals : Nat → Nat} (range : ∀ i < n, (semvals i : Int) ≤ info.semvmx)
    (wakes : Wakes info k₀ w none none) : Wakes info k₀ (setall base semvals pid n w) none none := by
  refine foldl_wakes _ (fun w i member wakes => ?_) wakes
  exact setval_wakes ⟨by omega, range i (List.mem_range.mp member)⟩ wakes

theorem clear_wakes (wakes : Wakes info k₀ w none none) : Wakes info k₀ (clear base n w) none none := by
  refine foldl_wakes _ (fun w i _ wakes => ?_) wakes
  have before := wakes.ranged (base + i)
  have limit := info.semvmx_fits
  have stored := (@Wakes.store _ _ _ (base + i) none _ 0 (fun s => { s with semval := 0, sempid := 0 })) wakes
    (fun _ => ⟨rfl, rfl⟩) rfl (by omega) (.inl (by omega)) (.inr rfl)
  exact (stored.wakeN (.inl rfl)).wakeZ (.inr rfl)

theorem semexitEntry_wakes {entry : Undo} (wakes : Wakes info k₀ w none none) :
    Wakes info k₀ (semexitEntry info sema entry w) none none := by
  unfold semexitEntry
  split
  · exact wakes
  · next sp _ =>
    simp only
    split
    · exact wakes
    · next inside =>
      have limit := info.semvmx_fits
      have value : toUshort ((w.k.sem ((sema sp).semBase + entry.unNum)).semval + entry.unAoe) =
          (w.k.sem ((sema sp).semBase + entry.unNum)).semval + entry.unAoe :=
        toUshort_of_range (by omega) (by omega)
      rw [value]
      split
      · next positive =>
        have stored := (@Wakes.store _ _ _ ((sema sp).semBase + entry.unNum) _ _ ((w.k.sem ((sema sp).semBase + entry.unNum)).semval + entry.unAoe) (fun s => { s with
            semval := (w.k.sem ((sema sp).semBase + entry.unNum)).semval + entry.unAoe })) wakes
         
          (fun _ => ⟨rfl, rfl⟩) rfl (by omega) (.inr rfl) (.inr rfl)
        exact (stored.wakeZ (.inr rfl)).wakeN (.inr rfl)
      · next negative =>
        have stored := (@Wakes.store _ _ _ ((sema sp).semBase + entry.unNum) none _ ((w.k.sem ((sema sp).semBase + entry.unNum)).semval + entry.unAoe) (fun s => { s with
            semval := (w.k.sem ((sema sp).semBase + entry.unNum)).semval + entry.unAoe })) wakes
          (fun _ => ⟨rfl, rfl⟩) rfl (by omega) (.inl (by omega)) (.inr rfl)
        exact stored.wakeZ (.inr rfl)

theorem semunrmFrom_sem {pp p : Option Nat} (result : semunrmFrom id low high fuel pp p k = some k') :
    k'.sem = k.sem ∧ k'.semUndo = k.semUndo := by
  induction fuel generalizing pp p k with
  | zero => cases result
  | succ fuel ih =>
    cases p with
    | none =>
      cases result
      exact ⟨rfl, rfl⟩
    | some p =>
      simp only [semunrmFrom] at result
      split at result
      · obtain ⟨sem, semUndo⟩ := ih result
        rw [sem, semUndo]
        cases pp with
        | none => exact ⟨rfl, rfl⟩
        | some pp => exact ⟨rfl, rfl⟩
      · obtain ⟨sem, semUndo⟩ := ih result
        rw [sem, semUndo]
        exact ⟨rfl, rfl⟩

theorem semexit_wakes {slot : Slot}
    (ranged : ∀ i, 0 ≤ (k.sem i).semval ∧ (k.sem i).semval ≤ info.semvmx)
    (result : semexit info sema slot k = some w) : Wakes info k w none none := by
  unfold semexit at result
  split at result
  · cases result
    exact .start ranged
  · next up _ =>
    obtain ⟨k₁, cleared, result⟩ := bind_eq_some_iff.mp result
    cases result
    have loop := (@foldl_wakes _ _ _ _ (fun w entry => semexitEntry info sema entry w)) (k.semu up).unEnt.reverse
      (fun w entry _ wakes => semexitEntry_wakes wakes) (Wakes.start ranged)
    refine loop.same (.of_sem ?_) rfl
    unfold discard at cleared
    split at cleared
    · cases cleared
      rfl
    · exact (unchain_same cleared).sem

end

/-! ## Every run -/

/-- The process counts in the counter of `chan`, or did until a signal came. -/
def Proc.counts (chan : Chan) : Proc → Bool
  | .asleep wait _ => wait.chan = chan
  | .interrupted wait _ => wait.chan = chan
  | _ => false

/-- The slots of the processes that count in the counter of `chan`. -/
def waiters (info : Seminfo) (proc : Slot → Proc) (chan : Chan) : Finset Slot :=
  (Finset.range info.nproc).filter fun slot => (proc slot).counts chan

/-- The state as far as waiting goes. A counter is at most the number of those who
count in it, so it does not wrap. -/
structure Awaited (info : Seminfo) (k : Tables) (proc : Slot → Proc) : Prop where
  ranged : ∀ i, 0 ≤ (k.sem i).semval ∧ (k.sem i).semval ≤ info.semvmx
  slots : ∀ slot, (proc slot).live → slot < info.nproc
  counted : ∀ chan : Chan, 0 ≤ chan.counter k ∧ chan.counter k ≤ (waiters info proc chan).card
  waits : ∀ slot wait nsops, proc slot = .asleep wait nsops → 0 < wait.chan.counter k ∧ wait.Pending k

section
variable {info : Seminfo} {k k' : Tables} {proc : Slot → Proc} {w : Work} {slot : Slot} {p : Proc} {wait : Wait}
  {nsops : Nat} {chan : Chan} {woken : List Chan}

theorem mem_waiters : slot ∈ waiters info proc chan ↔ slot < info.nproc ∧ (proc slot).counts chan := by
  simp [waiters]

theorem Wait.chan_eq (wait : Wait) : (wait.op.semOp < 0 ∧ wait.chan = .ncnt wait.index) ∨
    (0 ≤ wait.op.semOp ∧ wait.chan = .zcnt wait.index) := by
  unfold Wait.chan
  split
  · exact .inl ⟨by assumption, rfl⟩
  · exact .inr ⟨by omega, rfl⟩

theorem wake_counts (silent : chan ∉ woken) : (p.wake woken).counts chan = p.counts chan := by
  cases p with
  | asleep wait nsops =>
    rw [Proc.wake]
    split
    · next here =>
      have differs : wait.chan ≠ chan := fun same => silent (same ▸ here)
      simp [Proc.counts, differs]
    · rfl
  | _ => rfl

theorem wake_asleep (asleep : p.wake woken = .asleep wait nsops) :
    p = .asleep wait nsops ∧ wait.chan ∉ woken := by
  cases p with
  | asleep wait' nsops' =>
    rw [Proc.wake] at asleep
    split at asleep
    · cases asleep
    · next silent =>
      cases asleep
      exact ⟨rfl, silent⟩
  | _ => cases asleep

namespace Awaited

theorem same (awaited : Awaited info k proc) (values : SameValues k k') : Awaited info k' proc where
  ranged i := by
    rw [values.semval]
    exact awaited.ranged i
  slots := awaited.slots
  counted chan := by
    rw [values.counter]
    exact awaited.counted chan
  waits slot wait nsops asleep := by
    rw [values.counter]
    unfold Wait.Pending
    rw [values.semval]
    exact awaited.waits slot wait nsops asleep

theorem store (awaited : Awaited info k proc) (wakes : Wakes info k w none none) :
    Awaited info w.k fun slot => (proc slot).wake w.woken where
  ranged := wakes.ranged
  slots slot alive := awaited.slots slot (wake_live.mp alive)
  counted chan := by
    rw [wakes.counters]
    split
    · exact ⟨Int.le_refl 0, by omega⟩
    · next silent =>
      obtain ⟨low, high⟩ := awaited.counted chan
      refine ⟨low, high.trans (Int.ofNat_le.mpr (Finset.card_le_card fun slot member => ?_))⟩
      rw [mem_waiters] at member ⊢
      exact ⟨member.1, (wake_counts silent).trans member.2⟩
  waits slot wait nsops asleep := by
    obtain ⟨asleep, silent⟩ := wake_asleep asleep
    obtain ⟨counted, less, nonzero⟩ := awaited.waits slot wait nsops asleep
    refine ⟨by rw [wakes.counters, if_neg silent]; exact counted, fun negative => ?_, fun zero below => ?_⟩
    · rcases wait.chan_eq with ⟨_, here⟩ | ⟨positive, _⟩
      · rw [here] at silent counted
        have steady := wakes.raised wait.index (by simp) silent (Int.ne_of_gt counted)
        have before := less negative
        omega
      · omega
    · rcases wait.chan_eq with ⟨negative, _⟩ | ⟨_, here⟩
      · omega
      · rw [here] at silent counted
        exact wakes.zeroed wait.index (by simp) silent (Int.ne_of_gt counted) (nonzero zero below)

theorem put (awaited : Awaited info k proc) (before : ∀ chan, (proc slot).counts chan = false)
    (after : ∀ chan, p.counts chan = false) (inside : p.live → slot < info.nproc) :
    Awaited info k (update proc slot p) where
  ranged := awaited.ranged
  slots other alive := by
    by_cases here : other = slot
    · subst here
      rw [update_self] at alive
      exact inside alive
    · rw [update_of_ne here] at alive
      exact awaited.slots other alive
  counted chan := by
    have same : waiters info (update proc slot p) chan = waiters info proc chan := by
      ext other
      rw [mem_waiters, mem_waiters]
      by_cases here : other = slot
      · subst here
        rw [update_self, before, after]
      · rw [update_of_ne here]
    rw [same]
    exact awaited.counted chan
  waits other wait nsops asleep := by
    by_cases here : other = slot
    · subst here
      rw [update_self] at asleep
      have counts := after wait.chan
      simp [asleep, Proc.counts] at counts
    · rw [update_of_ne here] at asleep
      exact awaited.waits other wait nsops asleep

theorem sleep (awaited : Awaited info w.k proc) (before : ∀ chan, (proc slot).counts chan = false)
    (inside : slot < info.nproc) (pending : wait.Pending w.k) :
    Awaited info (w.count wait.chan).k (update proc slot (.asleep wait nsops)) := by
  have absent (chan : Chan) : slot ∉ waiters info proc chan := by
    rw [mem_waiters, before]
    simp
  have grown : waiters info (update proc slot (.asleep wait nsops)) wait.chan =
      insert slot (waiters info proc wait.chan) := by
    ext other
    rw [Finset.mem_insert, mem_waiters, mem_waiters]
    by_cases here : other = slot
    · subst here
      simp [Proc.counts, inside]
    · simp [here]
  have others (chan : Chan) (differs : chan ≠ wait.chan) :
      waiters info (update proc slot (.asleep wait nsops)) chan = waiters info proc chan := by
    ext other
    rw [mem_waiters, mem_waiters]
    by_cases here : other = slot
    · subst here
      rw [update_self, before]
      simp [Proc.counts, Ne.symm differs]
    · simp [here]
  have room : (waiters info proc wait.chan).card < info.nproc := by
    have fewer : (waiters info proc wait.chan).card < (Finset.range info.nproc).card :=
      Finset.card_lt_card ⟨Finset.filter_subset _ _, fun all => absent wait.chan (all (Finset.mem_range.mpr inside))⟩
    rwa [Finset.card_range] at fewer
  have limit := info.nproc_fits
  have counter (chan : Chan) : chan.counter (w.count wait.chan).k =
      if chan = wait.chan then wait.chan.counter w.k + 1 else chan.counter w.k := by
    obtain ⟨low, high⟩ := awaited.counted wait.chan
    have fits : toUshort (wait.chan.counter w.k + 1) = wait.chan.counter w.k + 1 :=
      toUshort_of_range (by omega) (by omega)
    exact count_counter fits chan
  have semval (i : Nat) : ((w.count wait.chan).k.sem i).semval = (w.k.sem i).semval := count_semval
  constructor
  · intro i
    rw [semval]
    exact awaited.ranged i
  · intro other alive
    by_cases here : other = slot
    · rw [here]
      exact inside
    · rw [update_of_ne here] at alive
      exact awaited.slots other alive
  · intro chan
    obtain ⟨low, high⟩ := awaited.counted chan
    rw [counter]
    by_cases here : chan = wait.chan
    · rw [here] at low high ⊢
      rw [if_pos rfl, grown, Finset.card_insert_of_notMem (absent _)]
      omega
    · rw [if_neg here, others chan here]
      exact ⟨low, high⟩
  · intro other wait' nsops' asleep
    unfold Wait.Pending
    rw [semval, counter]
    by_cases here : other = slot
    · subst here
      rw [update_self] at asleep
      cases asleep
      obtain ⟨low, _⟩ := awaited.counted wait.chan
      rw [if_pos rfl]
      exact ⟨by omega, pending⟩
    · rw [update_of_ne here] at asleep
      obtain ⟨counted, pending'⟩ := awaited.waits other wait' nsops' asleep
      refine ⟨?_, pending'⟩
      split
      · next same =>
        rw [same] at counted
        omega
      · exact counted

theorem signal (awaited : Awaited info k proc)
    (asleep : proc slot = .asleep wait nsops ∨ proc slot = .woken wait nsops) :
    Awaited info k (update proc slot (.interrupted wait nsops)) where
  ranged := awaited.ranged
  slots other alive := by
    by_cases here : other = slot
    · subst here
      apply awaited.slots
      rcases asleep with asleep | woken
      · simp [asleep]
      · simp [woken]
    · rw [update_of_ne here] at alive
      exact awaited.slots other alive
  counted chan := by
    obtain ⟨low, high⟩ := awaited.counted chan
    refine ⟨low, high.trans (Int.ofNat_le.mpr (Finset.card_le_card fun other member => ?_))⟩
    rw [mem_waiters] at member ⊢
    refine ⟨member.1, ?_⟩
    have counts := member.2
    by_cases here : other = slot
    · subst here
      rw [update_self]
      rcases asleep with asleep | woken
      · rw [asleep] at counts
        exact counts
      · simp [woken, Proc.counts] at counts
    · rw [update_of_ne here]
      exact counts
  waits other wait' nsops' asleep' := by
    by_cases here : other = slot
    · subst here
      simp at asleep'
    · rw [update_of_ne here] at asleep'
      exact awaited.waits other wait' nsops' asleep'

/-- An interrupted sleeper takes itself out of the count, or wakes the channel when
the count is at most one. -/
theorem eintr (awaited : Awaited info k proc) (interrupted : proc slot = .interrupted wait nsops) :
    Awaited info (uncount ⟨k, [], []⟩ wait.chan).k (update
      (fun slot => (proc slot).wake (uncount ⟨k, [], []⟩ wait.chan).woken) slot .running) := by
  have inside : slot < info.nproc := awaited.slots slot (by simp [interrupted])
  have counter (chan : Chan) := (uncount_counter ⟨k, [], []⟩ wait.chan chan).1
  have woken := (uncount_counter ⟨k, [], []⟩ wait.chan wait.chan).2
  have semval (i : Nat) : ((uncount ⟨k, [], []⟩ wait.chan).k.sem i).semval = (k.sem i).semval := uncount_semval
  have present : slot ∈ waiters info proc wait.chan := by
    rw [mem_waiters, interrupted]
    simp [inside, Proc.counts]
  simp only [List.nil_append] at woken counter
  -- Whoever is counted on a channel that is not woken still is, this process apart.
  have stays (chan : Chan) (silent : chan ∉ (uncount ⟨k, [], []⟩ wait.chan).woken) :
      (waiters info proc chan).erase slot ⊆ waiters info (update
        (fun slot => (proc slot).wake (uncount ⟨k, [], []⟩ wait.chan).woken) slot .running) chan := by
    intro other member
    obtain ⟨differs, member⟩ := Finset.mem_erase.mp member
    rw [mem_waiters] at member ⊢
    refine ⟨member.1, ?_⟩
    rw [update_of_ne differs]
    exact (wake_counts silent).trans member.2
  constructor
  · intro i
    rw [semval]
    exact awaited.ranged i
  · intro other alive
    by_cases here : other = slot
    · rw [here]
      exact inside
    · rw [update_of_ne here] at alive
      exact awaited.slots other (wake_live.mp alive)
  · intro chan
    obtain ⟨low, high⟩ := awaited.counted chan
    rw [counter]
    by_cases here : chan = wait.chan
    · subst here
      rw [if_pos rfl]
      split
      · exact ⟨Int.le_refl 0, by omega⟩
      · next many =>
        have fewer := Finset.card_le_card (stays wait.chan (by rw [woken, if_neg many]; simp))
        rw [Finset.card_erase_of_mem present] at fewer
        omega
    · rw [if_neg here]
      have silent : chan ∉ (uncount ⟨k, [], []⟩ wait.chan).woken := by
        rw [woken]
        split
        · simpa using here
        · simp
      have fewer := Finset.card_le_card (stays chan silent)
      have absent : slot ∉ waiters info proc chan := by
        rw [mem_waiters, interrupted]
        simp [Proc.counts, Ne.symm here]
      rw [Finset.erase_eq_of_notMem absent] at fewer
      omega
  · intro other wait' nsops' asleep
    by_cases here : other = slot
    · subst here
      simp at asleep
    · rw [update_of_ne here] at asleep
      obtain ⟨asleep, silent⟩ := wake_asleep asleep
      obtain ⟨counted, pending⟩ := awaited.waits other wait' nsops' asleep
      unfold Wait.Pending
      rw [semval, counter]
      refine ⟨?_, pending⟩
      split
      · next same =>
        rw [same] at silent
        rw [woken] at silent
        split
        · next few => simp [few] at silent
        · omega
      · exact counted

end Awaited

variable {s t : System} {event : Event}

theorem Step.awaited (step : Step info s event t) (awaited : Awaited info s.k s.proc) : Awaited info t.k t.proc := by
  have passed {w : Work} {outcome : Outcome} {slot : Slot} {nsops : Nat} (passed : Passed info s.k w outcome)
      (alive : s.live slot) (idle : ∀ chan, ((s.proc slot).wake w.woken).counts chan = false) :
      Awaited info w.k (update (fun slot => (s.proc slot).wake w.woken) slot (outcome.proc nsops)) := by
    have inside := awaited.slots slot alive
    cases passed with
    | success wakes => exact (awaited.store wakes).put idle (fun _ => rfl) fun _ => inside
    | error error wakes => exact (awaited.store wakes).put idle (fun _ => rfl) fun _ => inside
    | @sleep w wait wakes values pending =>
      have silent : (w.count wait.chan).woken = w.woken := by cases wait.chan <;> rfl
      rw [silent] at idle ⊢
      refine (awaited.store wakes).sleep idle inside ?_
      unfold Wait.Pending
      rw [values]
      exact pending
  cases step with
  | @start slot inside free =>
    exact awaited.put (fun chan => by rw [free]; rfl) (fun _ => rfl) fun _ => inside
  | @exit slot w running ended =>
    refine (awaited.store (semexit_wakes awaited.ranged ended)).put (fun chan => ?_) (fun _ => rfl) fun alive => ?_
    · rw [running]
      rfl
    · exact absurd rfl alive
  | semget cr key flag running done =>
    obtain ⟨tables, procs⟩ := semget_frame done
    rw [tables, procs]
    exact awaited
  | semctl cr pid running done =>
    cases semctl_control done with
    | quiet tables procs =>
      rw [tables, procs]
      exact awaited
    | rmid k woken _ _ purged tables woke procs =>
      have sem : SameValues s.k k := .of_sem (semunrmFrom_sem purged).1
      rw [tables, procs, woke]
      exact (awaited.same sem).store (clear_wakes (.start (awaited.same sem).ranged))
    | setval semnum arg k woken low high _ _ tables woke purged procs =>
      have sem : SameValues k t.k := .of_sem (semunrmFrom_sem purged).1
      rw [tables] at sem
      rw [procs, woke]
      exact (awaited.store (setval_wakes ⟨low, high⟩ (.start awaited.ranged))).same sem
    | setall semvals k woken _ range purged tables woke procs =>
      have sem : SameValues s.k k := .of_sem (semunrmFrom_sem purged).1
      rw [tables, procs, woke]
      exact (awaited.same sem).store (setall_wakes range (.start (awaited.same sem).ranged))
  | refuse => exact awaited
  | @semop slot _ ops w _ _ cr pid running entered made =>
    have alive : s.live slot := by simp [System.live, running]
    exact passed (semopPass_passed awaited.ranged made) alive fun chan => by rw [running]; rfl
  | signal asleep => exact awaited.signal asleep
  | @gone slot wait nsops _ _ woken =>
    refine awaited.put (fun chan => by rw [woken]; rfl) (fun _ => rfl) fun _ => ?_
    exact awaited.slots slot (by simp [woken])
  | @again slot wait ops _ _ pid woken found made =>
    have alive : s.live slot := by simp [System.live, woken]
    exact passed (semopPass_passed awaited.ranged made) alive fun chan => by rw [woken]; rfl
  | eintr interrupted => exact awaited.eintr interrupted

theorem System.Boot.awaited (boot : s.Boot info) : Awaited info s.k s.proc := by
  obtain ⟨tables, _, _, free⟩ := boot
  have limit := info.semvmx_fits
  have zero (chan : Chan) : chan.counter s.k = 0 := by
    rw [tables]
    cases chan with
    | ncnt => rfl
    | zcnt => rfl
  refine ⟨fun i => ?_, fun slot alive => ?_, fun chan => ?_, fun slot wait nsops asleep => ?_⟩
  · rw [tables]
    exact ⟨Int.le_refl 0, limit.1⟩
  · exact absurd (free slot) alive
  · rw [zero]
    exact ⟨Int.le_refl 0, by omega⟩
  · rw [free] at asleep
    cases asleep

theorem Reaches.awaited {guard : System → Event → Prop} (reached : Reaches (System.Boot info) (Step info) guard s) :
    Awaited info s.k s.proc := by
  apply reached.invariant
  · exact fun s boot => boot.awaited
  · exact fun s event t awaited step _ => step.awaited awaited

/-- Every value is one that a semaphore may have, and no counter counts more processes than wait there. -/
theorem values_ranged (reached : Reaches (System.Boot info) (Step info) (fun _ _ => True) s) :
    (∀ i, 0 ≤ (s.k.sem i).semval ∧ (s.k.sem i).semval ≤ info.semvmx) ∧
      ∀ chan : Chan, 0 ≤ chan.counter s.k ∧ chan.counter s.k ≤ (waiters info s.proc chan).card :=
  ⟨(Reaches.awaited reached).ranged, (Reaches.awaited reached).counted⟩

/-- A process asleep on `semncnt` is counted there, and the value, after the
operations in front of the one it is at, is less than what it needs. One asleep on
`semzcnt` is counted there, and the value is not zero unless those operations
would raise it. -/
theorem sleepers_wait (reached : Reaches (System.Boot info) (Step info) (fun _ _ => True) s) {i : Nat}
    (asleep : s.proc slot = .asleep wait nsops) :
    (wait.chan = .ncnt i → 0 < (s.k.sem i).semncnt ∧
      (s.k.sem i).semval + net wait.base i wait.done < -wait.op.semOp) ∧
    (wait.chan = .zcnt i → 0 < (s.k.sem i).semzcnt ∧
      (net wait.base i wait.done ≤ 0 → (s.k.sem i).semval ≠ 0)) := by
  obtain ⟨counted, less, nonzero⟩ := (Reaches.awaited reached).waits slot wait nsops asleep
  constructor
  · intro here
    rcases wait.chan_eq with ⟨negative, same⟩ | ⟨_, same⟩
    · obtain rfl : i = wait.index := by simpa [same] using here.symm
      rw [here] at counted
      exact ⟨counted, less negative⟩
    · rw [same] at here
      cases here
  · intro here
    rcases wait.chan_eq with ⟨_, same⟩ | ⟨zero, same⟩
    · rw [same] at here
      cases here
    · obtain rfl : i = wait.index := by simpa [same] using here.symm
      rw [here] at counted
      exact ⟨counted, nonzero zero⟩

end

def fiveUp : List Sembuf := [⟨0, 5, false, false, zeroth_fits, five_fits⟩]

/-- Three from the semaphore, twice. -/
def threeDownTwice : List Sembuf :=
  [⟨0, -3, false, false, zeroth_fits, minusThree_fits⟩, ⟨0, -3, false, false, zeroth_fits, minusThree_fits⟩]

theorem threeDownTwice_sleeps : ∃ s wait, Reaches (System.Boot .shipped) (Step .shipped) (fun _ _ => True) s ∧
    s.proc 0 = .asleep wait 2 ∧ wait.chan = .ncnt 0 ∧ wait.op.semOp = -3 ∧ (s.k.sem 0).semval = 5 := by
  have runs := (@oneSet_runs 16384 (by decide) (fun _ _ => True)) (by simp)
  have passes : (semopPass .shipped 1 6 0 0 fiveUp oneSet.k).bind (fun r =>
      (semopPass .shipped 0 5 0 0 threeDownTwice r.1.k).map fun r' => (r.2, r'.2, (r'.1.k.sem 0).semval)) =
      some (.success, .sleep (.ncnt 0) ⟨0, 0, threeDownTwice.take 1, ⟨0, -3, false, false, by decide, by decide⟩⟩, 5) := rfl
  obtain ⟨⟨w, outcome⟩, up, passes⟩ := bind_eq_some_iff.mp passes
  obtain ⟨⟨w', outcome'⟩, down, same⟩ := Option.map_eq_some_iff.mp passes
  simp only [Prod.mk.injEq] at same
  obtain ⟨rfl, rfl, five⟩ := same
  have first := oneSet_semop 6 rfl (s := oneSet) rfl rfl up
  have second := oneSet_semop (s := (oneSet.store w.k w.woken).put 1 (Outcome.success.proc 1))
    5 rfl rfl rfl down
  refine ⟨_, ⟨0, 0, threeDownTwice.take 1, ⟨0, -3, false, false, by decide, by decide⟩⟩,
    .next (.next runs.reaches first trivial) second trivial, ?_, rfl, rfl, five⟩
  simp [System.put, Outcome.proc, threeDownTwice]

theorem values_ranged_five : ∃ s : System, (s.k.sem 0).semval = 5 ∧
    ∀ chan : Chan, chan.counter s.k ≤ (waiters .shipped s.proc chan).card := by
  obtain ⟨s, _, reached, _, _, _, five⟩ := threeDownTwice_sleeps
  exact ⟨s, five, fun chan => ((values_ranged reached).2 chan).2⟩

theorem sleepers_wait_twice : ∃ (s : System) (wait : Wait), s.proc 0 = .asleep wait 2 ∧ 0 < (s.k.sem 0).semncnt ∧
    (s.k.sem 0).semval + net wait.base 0 wait.done < 3 := by
  obtain ⟨s, wait, reached, asleep, here, amount, _⟩ := threeDownTwice_sleeps
  have waits := (sleepers_wait reached (i := 0) asleep).1 here
  rw [amount] at waits
  exact ⟨s, wait, asleep, waits⟩

/-- One to the semaphore, and then a wait for zero. -/
def oneUpZero : List Sembuf := [⟨0, 1, false, false, zeroth_fits, one_fits⟩, ⟨0, 0, false, false, zeroth_fits, zero_fits⟩]

theorem oneUpZero_sleeps : ∃ s wait, Reaches (System.Boot .shipped) (Step .shipped) (fun _ _ => True) s ∧
    s.proc 0 = .asleep wait 2 ∧ wait.chan = .zcnt 0 ∧ (s.k.sem 0).semval = 0 := by
  have runs := (@oneSet_runs 16384 (by decide) (fun _ _ => True)) (by simp)
  have pass : (semopPass .shipped 0 5 0 0 oneUpZero oneSet.k).map (fun r => (r.2, (r.1.k.sem 0).semval)) =
      some (.sleep (.zcnt 0) ⟨0, 0, oneUpZero.take 1, ⟨0, 0, false, false, by decide, by decide⟩⟩, 0) := rfl
  obtain ⟨⟨w, outcome⟩, made, same⟩ := Option.map_eq_some_iff.mp pass
  simp only [Prod.mk.injEq] at same
  obtain ⟨rfl, zero⟩ := same
  have step := oneSet_semop 5 rfl (s := oneSet) rfl rfl made
  refine ⟨_, ⟨0, 0, oneUpZero.take 1, ⟨0, 0, false, false, by decide, by decide⟩⟩, .next runs.reaches step trivial, ?_,
    rfl, zero⟩
  simp [System.put, Outcome.proc, oneUpZero]

/-- A process waits for three with the value at five, and one waits for zero with
the value at zero. -/
theorem sleepers_wait_enough :
    (∃ s slot wait nsops, Reaches (System.Boot .shipped) (Step .shipped) (fun _ _ => True) s ∧
      s.proc slot = .asleep wait nsops ∧ wait.chan = .ncnt 0 ∧ ¬ (s.k.sem 0).semval < -wait.op.semOp) ∧
    ∃ s slot wait nsops, Reaches (System.Boot .shipped) (Step .shipped) (fun _ _ => True) s ∧
      s.proc slot = .asleep wait nsops ∧ wait.chan = .zcnt 0 ∧ ¬ (s.k.sem 0).semval ≠ 0 := by
  constructor
  · obtain ⟨s, wait, reached, asleep, here, amount, value⟩ := threeDownTwice_sleeps
    refine ⟨s, 0, wait, 2, reached, asleep, here, ?_⟩
    rw [amount, value]
    decide
  · obtain ⟨s, wait, reached, asleep, here, value⟩ := oneUpZero_sleeps
    exact ⟨s, 0, wait, 2, reached, asleep, here, not_not.mpr value⟩

end Svr4.Semaphore
