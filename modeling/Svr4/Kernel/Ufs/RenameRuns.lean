import Mathlib.Tactic.IntervalCases
import Svr4.Kernel.Ufs.Renames

/-! The tree of directories over interleaved renames. -/

namespace Svr4.Ufs.Renames

open Function (update update_of_ne)

/-- A rename that is about to write the entry of its source in the target directory. -/
def Phase.Writes (c : Call) : Phase → Prop
  | .search c' | .add c' => c' = c
  | _ => False

/-- Every directory is below the root, and no directory is entered in itself or below itself. -/
structure Tree (s : State) : Prop where
  rooted : Rooted s.dotdot ufsrootino
  entered : ∀ k c, (s.phase k).Writes c → ¬ Above s.dotdot c.tdp c.sip

/-- The source of each call is an ancestor of the target of the other one, or the target itself. -/
def Opposed (s : State) (c other : Call) : Prop := Above s.dotdot other.tdp c.sip ∧ Above s.dotdot c.tdp other.sip

/-- The check of the process does not see that the source of `c` is moved, and it has an entry to write. -/
def Phase.Misses (s : State) (c : Call) : Phase → Prop
  | .idle | .remove _ => False
  | .entered other | .serialize other => other.sdp = other.tdp ∧ Opposed s c other
  | .walk other ip | .fetch other ip =>
    Opposed s c other ∧ ¬ (Above s.dotdot other.tdp ip ∧ Above s.dotdot ip c.sip)
  | .relock other | .search other | .fix other _ | .add other => Opposed s c other

/-- A rename within a directory is of a directory that is not above it, and ".." is not written
while another rename in the opposite direction has done its check. -/
def Kept (s : State) : Event → Prop
  | .enter _ c => c.sdp = c.tdp → ¬ Above s.dotdot c.tdp c.sip
  | .go k => ∀ c found, s.phase k = .fix c found → s.dotdot c.sip ≠ c.tdp → ∀ k', k' ≠ k → ¬ (s.phase k').Misses s c
  | .fail _ => True

/-! ## The invariant -/

/-- What the check of a process has established. -/
def Phase.Checked (dotdot : Nat → Nat) : Phase → Prop
  | .idle | .remove _ => True
  | .entered c | .serialize c => c.sdp = c.tdp → ¬ Above dotdot c.tdp c.sip
  | .walk c ip | .fetch c ip => ip ≠ c.sip ∧ (Above dotdot c.tdp c.sip → Above dotdot c.tdp ip ∧ Above dotdot ip c.sip)
  | .relock c | .search c | .fix c _ | .add c => ¬ Above dotdot c.tdp c.sip

structure Sound (s : State) : Prop where
  rooted : Rooted s.dotdot ufsrootino
  checked : ∀ k, (s.phase k).Checked s.dotdot

section
variable {s t : State} {k : Nat} {c other : Call} {ip : Nat} {phase : Phase}

theorem Sound.tree (sound : Sound s) : Tree s := by
  refine ⟨sound.rooted, fun k c writes => ?_⟩
  have checked := sound.checked k
  cases phase : s.phase k with
  | search c' | add c' =>
    rw [phase] at writes checked
    cases writes
    exact checked
  | _ =>
    rw [phase] at writes
    exact writes.elim

theorem Sound.goes (sound : Sound s) (dotdot : t.dotdot = s.dotdot) (moved : t.phase = update s.phase k phase)
    (checked : phase.Checked s.dotdot) : Sound t := by
  refine ⟨by rw [dotdot]; exact sound.rooted, fun k' => ?_⟩
  rw [dotdot, moved]
  by_cases same : k' = k
  · subst same
    rwa [Function.update_self]
  · rw [update_of_ne same]
    exact sound.checked k'

/-! ## The walk -/

theorem walk_up (differ : ip ≠ c.sip) (on : Above s.dotdot c.tdp c.sip → Above s.dotdot c.tdp ip ∧ Above s.dotdot ip c.sip)
    (above : Above s.dotdot c.tdp c.sip) : Above s.dotdot c.tdp (s.dotdot ip) ∧ Above s.dotdot (s.dotdot ip) c.sip := by
  obtain ⟨below, higher⟩ := on above
  exact ⟨below.trans .one, higher.split.resolve_left differ⟩

theorem walk_end (rooted : Rooted s.dotdot ufsrootino) (differ : ip ≠ c.sip)
    (on : Above s.dotdot c.tdp c.sip → Above s.dotdot c.tdp ip ∧ Above s.dotdot ip c.sip)
    (top : s.dotdot ip = ufsrootino) (other : s.dotdot ip ≠ c.sip) : ¬ Above s.dotdot c.tdp c.sip := by
  intro above
  have higher := (walk_up differ on above).2
  exact other (top.trans (rooted.root_above higher top).symm)

/-! ## ".." is written -/

theorem checked_apart (apart : ¬ Above s.dotdot c.tdp c.sip)
    (checked : ¬ Above s.dotdot other.tdp other.sip) (calm : ¬ Opposed s c other) :
    ¬ Above (update s.dotdot c.sip c.tdp) other.tdp other.sip := by
  intro above
  rcases above.of_update apart with clear | ⟨below, further⟩
  · exact checked clear.above
  · exact calm ⟨below, further.above⟩

theorem walk_kept (rooted : Rooted s.dotdot ufsrootino) (apart : ¬ Above s.dotdot c.tdp c.sip)
    (on : Above s.dotdot other.tdp other.sip → Above s.dotdot other.tdp ip ∧ Above s.dotdot ip other.sip)
    (calm : ¬ (Opposed s c other ∧ ¬ (Above s.dotdot other.tdp ip ∧ Above s.dotdot ip c.sip)))
    (above : Above (update s.dotdot c.sip c.tdp) other.tdp other.sip) :
    Above (update s.dotdot c.sip c.tdp) other.tdp ip ∧ Above (update s.dotdot c.sip c.tdp) ip other.sip := by
  rcases above.of_update apart with clear | ⟨below, further⟩
  · -- The path from the target to the source is as before, and ip is on it.
    obtain ⟨lower, higher⟩ := on clear.above
    rcases clear.split lower with ⟨first, second⟩ | back
    · exact ⟨first.update, second.update⟩
    · have same := rooted.antisymm back higher
      subst same
      exact ⟨clear.update, .refl⟩
  · -- The path leads through the directory that is moved, which is still ahead of ip.
    obtain ⟨lower, ahead⟩ : Above s.dotdot other.tdp ip ∧ Above s.dotdot ip c.sip := by
      by_contra passed
      exact calm ⟨⟨below, further.above⟩, passed⟩
    refine ⟨?_, ahead.update further⟩
    rcases lower.clear (u := c.sip) with clear | ⟨through, back⟩
    · exact clear.update
    · have same := rooted.antisymm back ahead
      rw [← same]
      exact through.clear_self.update

theorem Sound.fixed (sound : Sound s) (fix : ∃ found, s.phase k = .fix c found)
    (calm : ∀ k', k' ≠ k → ¬ (s.phase k').Misses s c) (dotdot : t.dotdot = update s.dotdot c.sip c.tdp)
    (moved : t.phase = update s.phase k phase) (next : phase = .add c ∨ phase = .remove c) : Sound t := by
  obtain ⟨found, own⟩ := fix
  have apart : ¬ Above s.dotdot c.tdp c.sip := by
    have checked := sound.checked k
    rwa [own] at checked
  refine ⟨by rw [dotdot]; exact sound.rooted.update apart, fun k' => ?_⟩
  rw [dotdot, moved]
  by_cases same : k' = k
  · subst same
    rw [Function.update_self]
    rcases next with rfl | rfl
    · intro above
      rcases above.of_update apart with clear | ⟨below, _⟩
      · exact apart clear.above
      · exact apart below
    · trivial
  · rw [update_of_ne same]
    have quiet := calm k' same
    have checked := sound.checked k'
    cases there : s.phase k' with
    | idle | remove => trivial
    | entered other | serialize other =>
      rw [there] at quiet checked
      exact fun within => checked_apart apart (checked within) fun opposed => quiet ⟨within, opposed⟩
    | walk other ip | fetch other ip =>
      rw [there] at quiet checked
      exact ⟨checked.1, walk_kept sound.rooted apart checked.2 quiet⟩
    | relock other | search other | fix other | add other =>
      rw [there] at quiet checked
      exact checked_apart apart checked quiet

/-! ## Steps -/

section
variable (sound : Sound s)
include sound

theorem Sound.unserialize (checked : ¬ Above s.dotdot c.tdp c.sip) : Sound (s.unserialize k c ip) := by
  unfold State.unserialize
  split
  · exact sound.goes rfl rfl checked
  · exact sound.goes rfl rfl checked

theorem Sound.walks (own : s.phase k = .walk c ip) (result : go k s = some t) : Sound t := by
  obtain ⟨differ, on⟩ : (Phase.walk c ip).Checked s.dotdot := own ▸ sound.checked k
  simp only [go, own] at result
  split at result
  case isTrue =>
    cases result
    exact sound.goes rfl rfl trivial
  case isFalse other =>
    split at result
    case isTrue top =>
      cases result
      exact sound.unserialize (walk_end sound.rooted differ on top other)
    case isFalse =>
      cases result
      exact sound.goes rfl rfl ⟨other, walk_up differ on⟩

theorem Sound.searches (own : s.phase k = .search c) (result : go k s = some t) : Sound t := by
  have apart : (Phase.search c).Checked s.dotdot := own ▸ sound.checked k
  simp only [go, own] at result
  split at result
  case h_1 =>
    cases result
    exact sound.goes rfl rfl apart
  case h_2 tip found =>
    split at result
    case isTrue =>
      cases result
      exact sound.goes rfl rfl trivial
    split at result
    case isTrue => cases result
    split at result
    case isTrue =>
      cases result
      exact sound.goes rfl rfl trivial
    split at result
    case isTrue =>
      cases result
      exact sound.goes rfl rfl apart
    case isFalse =>
      cases result
      exact sound.goes rfl rfl trivial

theorem Sound.fixes {found : Bool} (own : s.phase k = .fix c found)
    (calm : s.dotdot c.sip ≠ c.tdp → ∀ k', k' ≠ k → ¬ (s.phase k').Misses s c) (result : go k s = some t) : Sound t := by
  have apart : (Phase.fix c found).Checked s.dotdot := own ▸ sound.checked k
  simp only [go, own] at result
  split at result
  case isTrue => cases result
  by_cases same : s.dotdot c.sip = c.tdp
  · simp only [same, if_true] at result
    cases found with
    | true =>
      cases result
      exact sound.goes rfl rfl trivial
    | false =>
      cases result
      exact sound.goes rfl rfl apart
  · simp only [same, if_false] at result
    cases found with
    | true =>
      cases result
      exact sound.fixed ⟨_, own⟩ (calm same) rfl rfl (.inr rfl)
    | false =>
      cases result
      exact sound.fixed ⟨_, own⟩ (calm same) rfl rfl (.inl rfl)

theorem Sound.go (kept : Kept s (.go k)) (result : go k s = some t) : Sound t := by
  have checked := sound.checked k
  cases own : s.phase k with
  | idle => simp [Renames.go, own] at result
  | walk c ip => exact sound.walks own result
  | search c => exact sound.searches own result
  | fix c found => exact sound.fixes own (kept c found own) result
  | entered c =>
    rw [own] at checked
    simp only [Renames.go, own] at result
    split at result
    case isTrue => cases result
    cases result
    split
    · exact sound.goes rfl rfl checked
    · next same => exact sound.goes rfl rfl (checked (not_not.mp same))
  | serialize c =>
    simp only [Renames.go, own] at result
    split at result
    case isTrue => cases result
    split at result
    case isTrue =>
      cases result
      exact sound.goes rfl rfl trivial
    case isFalse differ =>
      split at result
      case isTrue top =>
        cases result
        refine sound.goes rfl rfl fun above => differ ?_
        exact top.trans (sound.rooted.root_above above top).symm
      case isFalse =>
        cases result
        exact sound.goes rfl rfl ⟨differ, fun above => ⟨.refl, above⟩⟩
  | fetch c dotdotino =>
    rw [own] at checked
    simp only [Renames.go, own] at result
    split at result
    case isTrue => cases result
    cases result
    exact sound.goes rfl rfl checked
  | relock c =>
    rw [own] at checked
    simp only [Renames.go, own] at result
    split at result
    case isTrue => cases result
    cases result
    exact sound.goes rfl rfl checked
  | add c =>
    simp only [Renames.go, own] at result
    cases result
    exact sound.goes rfl rfl trivial
  | remove c =>
    simp only [Renames.go, own] at result
    split at result
    case isTrue => cases result
    cases result
    split
    · exact sound.goes rfl rfl trivial
    · exact sound.goes rfl rfl trivial

theorem Sound.fail (result : fail k s = some t) : Sound t := by
  unfold Renames.fail at result
  split at result
  all_goals cases result
  all_goals exact sound.goes rfl rfl trivial

end

theorem Sound.step {event : Event} (sound : Sound s) (step : Step s event t) (kept : Kept s event) : Sound t := by
  cases event with
  | go k => exact sound.go kept step
  | fail k => exact sound.fail step
  | enter k c =>
    simp only [Step, run] at step
    split at step
    case isTrue =>
      cases step
      exact sound.goes rfl rfl kept
    case isFalse => cases step

theorem Start.sound (start : Start s) : Sound s :=
  ⟨start.tree, fun k => by rw [start.idle k]; trivial⟩

end

/-- The root holds a (3) and b (4), a holds d (6) and b holds c (5). -/
def volume : State where
  dotdot
    | 5 => 4
    | 6 => 3
    | _ => 2
  entries
    | 2 => [([97], 3), ([98], 4)]
    | 3 => [([100], 6)]
    | 4 => [([99], 5)]
    | _ => []
  locked _ := none
  serializeFlag := false
  phase _ := .idle

theorem volume_start : Start volume := by
  have two : ∀ x, volume.dotdot (volume.dotdot x) = 2 := by
    intro x
    have first : volume.dotdot x = 4 ∨ volume.dotdot x = 3 ∨ volume.dotdot x = 2 := by
      simp only [volume]
      split <;> simp
    rcases first with parent | parent | parent <;> rw [parent] <;> rfl
  refine ⟨⟨fun x => .up (.up ?_), rfl⟩, fun _ => rfl, fun _ => rfl, rfl⟩
  rw [two]
  exact .refl

/-- Directory a is moved below c. -/
def down : Call := ⟨2, [97], 5, [120], 3⟩

/-- Directory b is moved below d. -/
def across : Call := ⟨2, [98], 6, [121], 4⟩

variable {t s : State}

theorem run_reaches {events : List Event} (result : events.foldlM (fun s event => run event s) volume = some t) :
    Reaches (· = volume) Step (fun _ _ => True) t :=
  Reaches.events (fun _ _ _ => id) (fun _ _ => trivial) (.start rfl) result

theorem unserialize_moves {k ip : Nat} {c : Call} :
    ∃ phase, (s.unserialize k c ip).phase = update s.phase k phase := by
  unfold State.unserialize
  split
  · exact ⟨.search c, rfl⟩
  · exact ⟨.relock c, rfl⟩

theorem go_moves {k : Nat} (result : go k s = some t) : ∃ phase, t.phase = update s.phase k phase := by
  simp only [go] at result
  repeat' split at result
  all_goals cases result
  all_goals first | exact unserialize_moves | exact ⟨_, rfl⟩

/-- One rename alone is `Kept`. -/
theorem alone_reaches {n : Nat} (reached : Reaches (· = volume) Step Kept s) (others : ∀ k ≠ 0, s.phase k = .idle)
    (result : (List.replicate n (Event.go 0)).foldlM (fun s event => run event s) s = some t) :
    Reaches (· = volume) Step Kept t := by
  induction n generalizing s with
  | zero =>
    cases result
    exact reached
  | succ n ih =>
    obtain ⟨u, first, rest⟩ := Option.bind_eq_some_iff.mp result
    obtain ⟨phase, moved⟩ := go_moves first
    refine ih (.next reached first fun c found _ _ k differ => ?_) (fun k differ => ?_) rest
    · rw [others k differ]
      exact id
    · rw [moved, update_of_ne differ]
      exact others k differ

theorem Above.inside {P : Nat → Prop} {parent : Nat → Nat} {x y : Nat} (closed : ∀ x, P x → P (parent x))
    (above : Above parent x y) (start : P x) : P y := by
  induction above with
  | refl => exact start
  | up _ ih => exact ih (closed _ start)

end Svr4.Ufs.Renames
