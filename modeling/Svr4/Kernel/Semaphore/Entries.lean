import Mathlib
import Svr4.Kernel.Semaphore.Undo

/-! The entries of one undo structure: `semaoe` and its inverse.

An operation and the rollback of that operation leave the same entries, also
where an entry goes at zero and comes back.
-/

namespace Svr4.Semaphore

open Words
open List (pairwise_append pairwise_cons mem_cons)

/-- Sorted by semaphore, no zero adjustments, and inside the limits. -/
structure EntriesOk (info : Seminfo) (entries : List Undo) : Prop where
  sorted : entries.Pairwise fun a b => a.before b.unId b.unNum
  nonzero : ∀ entry ∈ entries, entry.unAoe ≠ 0
  bounded : ∀ entry ∈ entries, -info.semaem ≤ entry.unAoe ∧ entry.unAoe ≤ info.semaem
  few : entries.length ≤ info.semume

section
variable {info : Seminfo} {passed rest : List Undo} {entry : Undo} {id val : Int} {num : Nat}

theorem Undo.before_trans {a b : Undo} (first : a.before b.unId b.unNum) (second : b.before id num) :
    a.before id num := by
  unfold Undo.before at *
  omega

/-- Where the search stops: `passed` is before the semaphore, the rest is not. -/
structure Stops (passed rest : List Undo) (id : Int) (num : Nat) : Prop where
  before : ∀ entry ∈ passed, entry.before id num
  ahead : ∀ entry ∈ rest.head?, ¬ entry.before id num

theorem Stops.takeWhile (stops : Stops passed rest id num) :
    (passed ++ rest).takeWhile (fun entry => entry.before id num) = passed := by
  rw [List.takeWhile_append_of_pos (by simpa using stops.before)]
  cases rest with
  | nil => simp
  | cons entry rest => simp [stops.ahead entry (by simp)]

theorem Stops.dropWhile (stops : Stops passed rest id num) :
    (passed ++ rest).dropWhile (fun entry => entry.before id num) = rest := by
  rw [List.dropWhile_append_of_pos (by simpa using stops.before)]
  cases rest with
  | nil => simp
  | cons entry rest => simp [stops.ahead entry (by simp)]

theorem stops_exists (entries : List Undo) (id : Int) (num : Nat) :
    ∃ passed rest, entries = passed ++ rest ∧ Stops passed rest id num := by
  refine ⟨entries.takeWhile fun entry => entry.before id num,
    entries.dropWhile fun entry => entry.before id num, List.takeWhile_append_dropWhile.symm, ?_, ?_⟩
  · intro entry member
    simpa using List.mem_takeWhile_imp member
  · intro entry first
    have stop := List.head?_dropWhile_not (fun entry : Undo => entry.before id num) entries
    rw [Option.mem_def.mp first] at stop
    simpa using stop

section
variable (sorted : (passed ++ entry :: rest).Pairwise fun a b => a.before b.unId b.unNum)
include sorted

theorem Stops.of_sorted :
    Stops passed (entry :: rest) entry.unId entry.unNum where
  before other member := (pairwise_append.mp sorted).2.2 other member entry (by simp)
  ahead other first := by
    obtain rfl : entry = other := by simpa using first
    unfold Undo.before
    omega

theorem Stops.of_deleted :
    Stops passed rest entry.unId entry.unNum where
  before other member := (pairwise_append.mp sorted).2.2 other member entry (by simp)
  ahead other first := by
    have behind := (pairwise_cons.mp (pairwise_append.mp sorted).2.1).1 other
      (List.mem_of_mem_head? first)
    unfold Undo.before at *
    omega

end

variable (info) in
/-- What happens to an entry that is there. -/
def changeEntry (val : Int) (passed : List Undo) (entry : Undo) (rest : List Undo) : Change :=
  if info.semaem < toShort (entry.unAoe - val) ∨ toShort (entry.unAoe - val) < -info.semaem then
    .failed .erange (passed ++ { entry with unAoe := toShort (toShort (entry.unAoe - val) + val) } :: rest)
  else if toShort (entry.unAoe - val) = 0 then .deleted (passed ++ rest)
  else .updated (passed ++ { entry with unAoe := toShort (entry.unAoe - val) } :: rest)

theorem change_found (stops : Stops passed (entry :: rest) entry.unId entry.unNum) :
    change info val entry.unId entry.unNum (passed ++ entry :: rest) =
      changeEntry info val passed entry rest := by
  simp [change, stops.takeWhile, stops.dropWhile, and_self, changeEntry]

theorem change_absent (stops : Stops passed rest id num)
    (absent : ∀ entry ∈ rest.head?, ¬ (entry.unId = id ∧ entry.unNum = num)) :
    change info val id num (passed ++ rest) =
      if info.semume ≤ (passed ++ rest).length then .failed .einval (passed ++ rest)
      else .inserted (passed ++ ⟨toShort (-val), num, id⟩ :: rest) := by
  simp only [change, stops.takeWhile, stops.dropWhile]
  cases rest with
  | nil => rfl
  | cons entry rest => simp [absent entry (by simp)]

theorem change_cases (entries : List Undo) (id : Int) (num : Nat) :
    (∃ passed entry rest, entries = passed ++ entry :: rest ∧ entry.unId = id ∧ entry.unNum = num ∧
      Stops passed (entry :: rest) id num) ∨
    ∃ passed rest, entries = passed ++ rest ∧ Stops passed rest id num ∧
      ∀ entry ∈ rest.head?, ¬ (entry.unId = id ∧ entry.unNum = num) := by
  obtain ⟨passed, rest, rfl, stops⟩ := stops_exists entries id num
  cases rest with
  | nil => exact .inr ⟨passed, [], rfl, stops, by simp⟩
  | cons entry rest =>
    by_cases same : entry.unId = id ∧ entry.unNum = num
    · exact .inl ⟨passed, entry, rest, rfl, same.1, same.2, stops⟩
    · exact .inr ⟨passed, entry :: rest, rfl, stops, by simpa using same⟩

theorem toShort_of_bound {value : Int} (bound : -info.semaem ≤ value ∧ value ≤ info.semaem) :
    toShort value = value := by
  have fits := info.semaem_fits
  apply toShort_of_fits
  unfold FitsShort
  omega

theorem EntriesOk.delete (ok : EntriesOk info (passed ++ entry :: rest)) : EntriesOk info (passed ++ rest) where
  sorted := ok.sorted.sublist (by simp)
  nonzero other member := ok.nonzero other (by simp at member ⊢; tauto)
  bounded other member := ok.bounded other (by simp at member ⊢; tauto)
  few := by
    have few := ok.few
    simp at few ⊢
    omega

theorem EntriesOk.insert (ok : EntriesOk info (passed ++ rest)) (stops : Stops passed rest id num)
    (absent : ∀ entry ∈ rest.head?, ¬ (entry.unId = id ∧ entry.unNum = num)) {aoe : Int} (nonzero : aoe ≠ 0)
    (bounded : -info.semaem ≤ aoe ∧ aoe ≤ info.semaem) (room : (passed ++ rest).length < info.semume) :
    EntriesOk info (passed ++ ⟨aoe, num, id⟩ :: rest) where
  sorted := by
    obtain ⟨left, right, across⟩ := pairwise_append.mp ok.sorted
    refine pairwise_append.mpr ⟨left, pairwise_cons.mpr ⟨?_, right⟩, ?_⟩
    · cases rest with
      | nil => simp
      | cons head rest =>
        have first : Undo.before ⟨aoe, num, id⟩ head.unId head.unNum := by
          have here := stops.ahead head (by simp)
          have other := absent head (by simp)
          change id < head.unId ∨ (id = head.unId ∧ num < head.unNum)
          unfold Undo.before at here
          omega
        intro other member
        rcases mem_cons.mp member with rfl | member
        · exact first
        · exact Undo.before_trans first ((pairwise_cons.mp right).1 other member)
    · intro other member target place
      rcases mem_cons.mp place with rfl | place
      · exact stops.before other member
      · exact across other member target place
  nonzero other member := by
    simp only [List.mem_append, mem_cons] at member
    rcases member with member | rfl | member
    · exact ok.nonzero other (by simp [member])
    · exact nonzero
    · exact ok.nonzero other (by simp [member])
  bounded other member := by
    simp only [List.mem_append, mem_cons] at member
    rcases member with member | rfl | member
    · exact ok.bounded other (by simp [member])
    · exact bounded
    · exact ok.bounded other (by simp [member])
  few := by
    simp at room ⊢
    omega

theorem EntriesOk.update (ok : EntriesOk info (passed ++ entry :: rest)) {aoe : Int} (nonzero : aoe ≠ 0)
    (bounded : -info.semaem ≤ aoe ∧ aoe ≤ info.semaem) :
    EntriesOk info (passed ++ { entry with unAoe := aoe } :: rest) := by
  have stops := Stops.of_deleted ok.sorted
  apply ok.delete.insert stops
  · intro other first same
    have behind := (pairwise_cons.mp (pairwise_append.mp ok.sorted).2.1).1 other
      (List.mem_of_mem_head? first)
    unfold Undo.before at behind
    omega
  · exact nonzero
  · exact bounded
  · have few := ok.few
    simp at few ⊢
    omega

/-- A successful update keeps the entries in order, and the same update with the
opposite value takes it back. -/
structure Reverts (info : Seminfo) (val id : Int) (num : Nat) (entries entries' : List Undo) : Prop where
  ok : EntriesOk info entries'
  error : (change info (-val) id num entries').error = none
  entries : (change info (-val) id num entries').entries = entries

theorem change_inserted (ok : EntriesOk info (passed ++ rest)) (stops : Stops passed rest id num)
    (absent : ∀ entry ∈ rest.head?, ¬ (entry.unId = id ∧ entry.unNum = num)) (nonzero : val ≠ 0)
    (small : -info.semaem ≤ val ∧ val ≤ info.semaem) (room : (passed ++ rest).length < info.semume) :
    Reverts info val id num (passed ++ rest) (passed ++ ⟨toShort (-val), num, id⟩ :: rest) := by
  have value : toShort (-val) = -val := (@toShort_of_bound info) (by omega)
  rw [value]
  have inserted := (@EntriesOk.insert _ _ _ _ _ ok stops absent (-val)) (by omega) (by omega) room
  have found := (@change_found info _ _ _ (-val)) (Stops.of_sorted inserted.sorted)
  have gone : toShort (-val - -val) = 0 := by
    rw [Int.sub_self]
    rfl
  have none : ¬ (info.semaem < (0 : Int) ∨ (0 : Int) < -info.semaem) := by
    omega
  simp only [changeEntry, gone, if_neg none, if_true] at found
  exact ⟨inserted, by rw [found]; rfl, by rw [found]; rfl⟩

theorem change_entry (ok : EntriesOk info (passed ++ entry :: rest))
    (small : -info.semaem ≤ val ∧ val ≤ info.semaem)
    (done : (changeEntry info val passed entry rest).error = none) :
    Reverts info val entry.unId entry.unNum (passed ++ entry :: rest)
      (changeEntry info val passed entry rest).entries := by
  have bounded := ok.bounded entry (by simp)
  have fits := info.semaem_fits
  unfold changeEntry at done ⊢
  split at done
  · cases done
  · next inside =>
    rw [if_neg inside]
    split at done
    · next zero =>
      rw [if_pos zero]
      -- The entry held exactly the value and goes; the rollback makes it again.
      have same : entry.unAoe = val := by
        have multiple := Int.dvd_of_bmod_eq_zero zero
        omega
      have back : toShort (- -val) = entry.unAoe := by
        rw [Int.neg_neg, same]
        exact toShort_of_bound small
      have room : (passed ++ rest).length < info.semume := by
        have few := ok.few
        simp at few ⊢
        omega
      have again := (@change_absent info _ _ _ (-val)) (Stops.of_deleted ok.sorted) (by
        intro other first same
        have behind := (pairwise_cons.mp (pairwise_append.mp ok.sorted).2.1).1 other
          (List.mem_of_mem_head? first)
        unfold Undo.before at behind
        omega)
      rw [if_neg (by omega), back] at again
      exact ⟨ok.delete, by simp only [Change.entries, again]; rfl, by simp only [Change.entries, again]⟩
    · next nonzero =>
      rw [if_neg nonzero]
      have changed := ok.update nonzero (by omega)
      have found := (@change_found info _ _ _ (-val)) (Stops.of_sorted changed.sorted)
      have back : toShort (toShort (entry.unAoe - val) - -val) = entry.unAoe := by
        have sum : toShort (toShort (entry.unAoe - val) - -val) = toShort (entry.unAoe - val - -val) :=
          Int.bmod_sub_bmod
        rw [sum, Int.sub_sub, Int.add_right_neg, Int.sub_zero]
        exact toShort_of_bound bounded
      have inside' : ¬ (info.semaem < entry.unAoe ∨ entry.unAoe < -info.semaem) := by omega
      simp only [changeEntry, back, if_neg inside', if_neg (ok.nonzero entry (by simp))] at found
      exact ⟨changed, by simp only [Change.entries, found]; rfl, by simp only [Change.entries, found]⟩

/-- The spec of an update: it fails and changes nothing, or it can be taken back. -/
theorem change_spec {entries : List Undo} (ok : EntriesOk info entries) (nonzero : val ≠ 0)
    (small : -info.semaem ≤ val ∧ val ≤ info.semaem) :
    ((change info val id num entries).error ≠ none → (change info val id num entries).entries = entries) ∧
      ((change info val id num entries).error = none →
        Reverts info val id num entries (change info val id num entries).entries) := by
  rcases change_cases entries id num with
    ⟨passed, entry, rest, rfl, rfl, rfl, stops⟩ | ⟨passed, rest, rfl, stops, absent⟩
  · rw [change_found stops]
    refine ⟨?_, change_entry ok small⟩
    intro failed
    unfold changeEntry at failed ⊢
    split at failed
    · next outside =>
      have back : toShort (toShort (entry.unAoe - val) + val) = entry.unAoe := by
        have sum : toShort (toShort (entry.unAoe - val) + val) = toShort (entry.unAoe - val + val) :=
          Int.bmod_add_bmod
        rw [sum, Int.sub_add_cancel]
        exact toShort_of_bound (ok.bounded entry (by simp))
      rw [if_pos outside, back]
      rfl
    · split at failed
      · exact absurd rfl failed
      · exact absurd rfl failed
  · rw [change_absent stops absent]
    split
    · exact ⟨fun _ => rfl, nofun⟩
    · next room => exact ⟨fun failed => absurd rfl failed, fun _ =>
        change_inserted ok stops absent nonzero small (by omega)⟩

end

end Svr4.Semaphore
