import Svr4.Kernel.Callout.Conservation

/-! When an entry of the callout table is called.

The table compares absolute times, which wrap. A time beyond the largest `int` is in the
past, so the entry is due at once.
-/

namespace Svr4.Callout

open Words Heap Function

/-- The number of clock ticks. -/
def ticks (history : List (Callouts × Event)) : Nat :=
  history.countP fun
    | (_, .clock) => true
    | _ => false

/-- In no run from `s` is the entry called before `tim` clock ticks. -/
def NotEarly (vCall : Nat) (s : Callouts) (entry : Callo) (tim : Int) : Prop :=
  ∀ history t, Runs (fun first => first = s) (Step vCall) (fun _ _ => True) history t → (ticks history : Int) < tim →
    entry ∉ (history.map fired).sum

section
variable {vCall fn arg : Nat} {tim id : Int} {history : List (Callouts × Event)} {s t first : Callouts} {event : Event}
  {entry svcall : Callo}

/-! ## Ticks -/

theorem ticks_clock : ticks ((s, .clock) :: history) = ticks history + 1 := by simp [ticks]

theorem ticks_timein : ticks ((s, .timein) :: history) = ticks history := by simp [ticks]

theorem ticks_le : ticks history ≤ ticks ((s, event) :: history) := by
  exact List.Sublist.countP_le (List.sublist_cons_self ..)

/-- What `timein` calls is due. -/
theorem timein_due (result : timein s = some (svcall, t)) : svcall.cTime ≤ s.lbolt ∧ t.lbolt = s.lbolt := by
  unfold timein at result
  split at result
  · next due =>
    simp only at result
    split at result
    · cases result
      exact ⟨due.1, rfl⟩
    · cases result
      exact ⟨due.1, rfl⟩
  · cases result

theorem timeout_lbolt (result : timeout vCall fn arg tim s = some (t, id)) : t.lbolt = s.lbolt := by
  simp only [timeout] at result
  split at result
  · cases result
  · cases result
    rfl

theorem untimeout_lbolt : (untimeout id s).1.lbolt = s.lbolt := by
  unfold untimeout
  split
  · rfl
  · simp only
    split
    · rfl
    · split
      · rfl
      · rfl

theorem step_lbolt (step : Step vCall s event t) (still : event ≠ .clock) : t.lbolt = s.lbolt := by
  cases step with
  | timeout result => exact timeout_lbolt result
  | untimeout id => exact untimeout_lbolt
  | timein result => exact (timein_due result).2
  | clock => exact absurd rfl still

/-- Until the clock wraps it counts the ticks. -/
theorem runs_lbolt (runs : Runs (fun start => start = first) (Step vCall) (fun _ _ => True) history t)
    (low : -2147483648 ≤ first.lbolt) (fits : first.lbolt + ticks history < 2147483648) :
    t.lbolt = first.lbolt + ticks history := by
  induction runs with
  | start same =>
    subst same
    simp [ticks]
  | @next history s t event _ step _ ih =>
    have fewer := @ticks_le history s event
    have before := ih (by omega)
    by_cases tick : event = .clock
    · subst tick
      cases step
      rw [ticks_clock] at fits ⊢
      change toInt (s.lbolt + 1) = _
      rw [before, toInt, Int.bmod_eq_of_le (by omega) (by omega)]
      omega
    · rw [step_lbolt step tick, before]
      have same : ticks ((s, event) :: history) = ticks history := by
        cases event with
        | clock => exact absurd rfl tick
        | timeout | untimeout | timein => simp [ticks]
      rw [same]

theorem later_not_early (low : -2147483648 ≤ s.lbolt) (time : entry.cTime = s.lbolt + tim)
    (fits : s.lbolt + tim < 2147483648) : NotEarly vCall s entry tim := by
  intro history t runs few called
  induction runs with
  | start same => simp at called
  | @next history u t event runs step _ ih =>
    have fewer := @ticks_le history u event
    rw [List.map_cons, List.sum_cons, Multiset.mem_add] at called
    rcases called with now | before
    · have clock := runs_lbolt runs low (by omega)
      cases step with
      | timein result =>
        simp only [fired, result, Multiset.mem_singleton] at now
        have due := (timein_due result).1
        rw [← now, time] at due
        omega
      | timeout | untimeout | clock => simp [fired] at now
    · exact ih (by omega) before

/-! ## An entry that is due -/

theorem step_heaped (heaped : Heaped s) (step : Step vCall s event t) : Heaped t := by
  cases step with
  | timeout result => exact (timeout_entries heaped result).1
  | untimeout id =>
    rcases untimeout_entries heaped id with ⟨_, none⟩ | ⟨_, _, _, _, after, _⟩
    · rw [none]
      exact heaped
    · exact after
  | timein result => exact (timein_entries heaped result).1
  | clock => exact ⟨heaped.limit, heaped.ordered⟩

theorem reaches_heaped (reached : Reaches Start (Step vCall) (fun _ _ => True) s) : Heaped s := by
  refine reached.invariant (fun s start => ?_) fun s event t heaped step _ => step_heaped heaped step
  obtain ⟨limit, _⟩ := start
  refine ⟨by omega, fun i _ last => ?_⟩
  unfold Callouts.size at last
  omega

/-- While an entry is due `timein` goes on. -/
theorem timein_some (heaped : Heaped s) (member : entry ∈ s.entries) (due : entry.cTime ≤ s.lbolt) :
    ∃ svcall t, timein s = some (svcall, t) := by
  obtain ⟨i, inside, rfl⟩ := mem_contents.mp member
  have root := heaped.ordered.root_le inside
  have used : 0 ≤ s.calllimit := by
    unfold Callouts.size at inside
    omega
  unfold timein
  rw [if_pos ⟨root.trans due, used⟩]
  simp only
  split
  · exact ⟨_, _, rfl⟩
  · exact ⟨_, _, rfl⟩

/-- An entry that is due is called before the next tick: the rounds of `timein` empty the
table down to it. -/
theorem due_called (runs : Runs (fun start => start = first) (Step vCall) (fun _ _ => True) history s) (heaped : Heaped s)
    (member : entry ∈ s.entries) (due : entry.cTime ≤ s.lbolt) :
    ∃ later t, Runs (fun start => start = first) (Step vCall) (fun _ _ => True) later t ∧ ticks later = ticks history ∧
      entry ∈ (later.map fired).sum := by
  induction size : s.entries.card generalizing s history with
  | zero =>
    rw [Multiset.card_eq_zero.mp size] at member
    cases member
  | succ n ih =>
    obtain ⟨svcall, t, result⟩ := timein_some heaped member due
    obtain ⟨after, entries, _, _⟩ := timein_entries heaped result
    have next := runs.next (.timein result) trivial
    rw [entries] at member size
    rcases Multiset.mem_cons.mp member with rfl | rest
    · refine ⟨_, t, next, ticks_timein, ?_⟩
      simp only [List.map_cons, List.sum_cons, fired, result]
      exact Multiset.mem_add.mpr (.inl (Multiset.mem_singleton_self _))
    · have shorter : t.entries.card = n := by simpa using size
      obtain ⟨later, u, reached, count, called⟩ := ih next after rest ((timein_due result).2 ▸ due) shorter
      exact ⟨later, u, reached, count.trans ticks_timein, called⟩

/-- The entry that `timeout` makes is never called early if and only if its time does not
wrap. -/
theorem not_early_iff (reached : Reaches Start (Step vCall) (fun _ _ => True) s)
    (word : -2147483648 ≤ s.lbolt ∧ s.lbolt < 2147483648) (later : 0 < tim ∧ tim < 2147483648)
    (result : timeout vCall fn arg tim s = some (t, id)) :
    NotEarly vCall t ⟨toInt (s.lbolt + tim), id, arg, fn⟩ tim ↔ s.lbolt + tim < 2147483648 := by
  have clock := timeout_lbolt result
  obtain ⟨heaped, entries, _, _⟩ := timeout_entries (reaches_heaped reached) result
  constructor
  · intro never
    by_contra wraps
    have past : toInt (s.lbolt + tim) = s.lbolt + tim - 4294967296 := by
      have same := Int.sub_bmod_right (s.lbolt + tim) 4294967296
      rw [toInt, ← same, Int.bmod_eq_of_le (by omega) (by omega)]
      rfl
    have member : (⟨toInt (s.lbolt + tim), id, arg, fn⟩ : Callo) ∈ t.entries := by
      rw [entries]
      exact Multiset.mem_cons_self ..
    obtain ⟨history, u, runs, count, called⟩ := @due_called vCall _ _ _ _ (.start rfl) heaped member
      (by change toInt (s.lbolt + tim) ≤ t.lbolt; omega)
    exact never history u runs (by rw [count]; exact later.1) called
  · intro fits
    have time : toInt (s.lbolt + tim) = s.lbolt + tim := Int.bmod_eq_of_le (by omega) (by omega)
    exact later_not_early (clock ▸ word.1) (clock ▸ time) (clock ▸ fits)

/-! ## A pass of `timein` -/

/-- The rounds of `timein` with functions that leave the table alone: what is called, and the table then. -/
def timeinPass : Nat → Callouts → List Callo × Callouts
  | 0, s => ([], s)
  | rounds + 1, s =>
    match timein s with
    | none => ([], s)
    | some (svcall, t) => (svcall :: (timeinPass rounds t).1, (timeinPass rounds t).2)

/-- What is due is called, each entry once and the earlier ones first, and the rest stays. -/
theorem pass_calls_due {rounds : Nat} (reached : Reaches Start (Step vCall) (fun _ _ => True) s) (enough : s.entries.card ≤ rounds) :
    ((timeinPass rounds s).1 : Multiset Callo) = s.entries.filter (fun entry => entry.cTime ≤ s.lbolt) ∧
      (timeinPass rounds s).1.Pairwise (fun entry later => entry.cTime ≤ later.cTime) ∧
      (timeinPass rounds s).2.entries = s.entries.filter (fun entry => ¬ entry.cTime ≤ s.lbolt) := by
  have heaped := reaches_heaped reached
  clear reached
  induction rounds generalizing s with
  | zero =>
    rw [Nat.le_zero, Multiset.card_eq_zero] at enough
    simp [timeinPass, enough]
  | succ rounds ih =>
    rw [timeinPass]
    cases result : timein s with
    | none =>
      have early : ∀ entry ∈ s.entries, ¬ entry.cTime ≤ s.lbolt := by
        intro entry member due
        obtain ⟨svcall, t, called⟩ := timein_some heaped member due
        rw [result] at called
        cases called
      exact ⟨(Multiset.filter_eq_nil.mpr early).symm, .nil, (Multiset.filter_eq_self.mpr early).symm⟩
    | some round =>
      obtain ⟨svcall, t⟩ := round
      obtain ⟨after, entries, due, first⟩ := timein_entries heaped result
      have clock := (timein_due result).2
      obtain ⟨calls, order, left⟩ := ih (by rw [entries, Multiset.card_cons] at enough; omega) after
      rw [clock] at calls left
      rw [entries, Multiset.filter_cons_of_pos (p := fun entry : Callo => entry.cTime ≤ s.lbolt) _ due,
        Multiset.filter_cons_of_neg (p := fun entry : Callo => ¬ entry.cTime ≤ s.lbolt) _ (not_not.mpr due), ← calls]
      refine ⟨rfl, List.pairwise_cons.mpr ⟨fun entry member => first entry ?_, order⟩, left⟩
      rw [entries]
      exact Multiset.mem_cons_of_mem (Multiset.mem_of_le (Multiset.filter_le _ _) (calls ▸ Multiset.mem_coe.mpr member))

/-- A table without entries at some time. -/
def Callouts.emptyAt (lbolt : Int) : Callouts := ⟨fun _ => ⟨0, 0, 0, 0⟩, -1, 0, lbolt⟩

theorem emptyAt_timeout (lbolt tim : Int) : timeout 10 1 0 tim (.emptyAt lbolt) =
    some (⟨update (fun _ => ⟨0, 0, 0, 0⟩) 0 ⟨toInt (lbolt + tim), 1, 0, 1⟩, 0, 1, lbolt⟩, 1) := by
  simp only [timeout, Callouts.emptyAt]
  rw [heapUp]
  rfl

theorem not_early_iff_five : NotEarly 10 ⟨update (fun _ => ⟨0, 0, 0, 0⟩) 0 ⟨12, 1, 0, 1⟩, 0, 1, 7⟩ ⟨12, 1, 0, 1⟩ 5 :=
  (not_early_iff (.start ⟨rfl, rfl⟩) (by decide) (by decide) (emptyAt_timeout 7 5)).mpr (by decide)

/-- One tick before the clock wraps: an entry for the next tick is due at once. -/
theorem early_at_wrap :
    timeout 10 1 0 1 (.emptyAt 2147483647) =
      some (⟨update (fun _ => ⟨0, 0, 0, 0⟩) 0 ⟨-2147483648, 1, 0, 1⟩, 0, 1, 2147483647⟩, 1) ∧
    ¬ NotEarly 10 ⟨update (fun _ => ⟨0, 0, 0, 0⟩) 0 ⟨-2147483648, 1, 0, 1⟩, 0, 1, 2147483647⟩
      ⟨-2147483648, 1, 0, 1⟩ 1 := by
  refine ⟨emptyAt_timeout 2147483647 1, fun never => ?_⟩
  have called : timein ⟨update (fun _ => ⟨0, 0, 0, 0⟩) 0 ⟨-2147483648, 1, 0, 1⟩, 0, 1, 2147483647⟩ =
      some (⟨-2147483648, 1, 0, 1⟩, ⟨update (fun _ => ⟨0, 0, 0, 0⟩) 0 ⟨-2147483648, 1, 0, 1⟩, -1, 1, 2147483647⟩) :=
    rfl
  refine never _ _ (.next (.start rfl) (.timein called) trivial) (by decide) ?_
  simp [fired, called]

/-- One entry, which is due at once. -/
theorem pass_calls_due_seven : ∃ s : Callouts, s.lbolt = 7 ∧ s.entries.card = 1 ∧
    ((timeinPass 1 s).1 : Multiset Callo) = s.entries.filter (fun entry => entry.cTime ≤ 7) := by
  have reached : Reaches Start (Step 10) (fun _ _ => True) ⟨update (fun _ => ⟨0, 0, 0, 0⟩) 0 ⟨7, 1, 0, 1⟩, 0, 1, 7⟩ :=
    .next (.start (⟨rfl, rfl⟩ : Start (.emptyAt 7))) (.timeout (emptyAt_timeout 7 0)) trivial
  exact ⟨_, rfl, rfl, ((@pass_calls_due 10 _ 1) reached le_rfl).1⟩

end

end Svr4.Callout
