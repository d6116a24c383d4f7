import Svr4.Foundation.Words
import Svr4.Kernel.Kma

/-! Functions that wait for memory: `bufcall` and the loop of `queuerun` that calls them. -/

namespace Svr4.Bufcall

open Words Kma

/-- `struct strevent`, for `bufcall`. Identifiers, functions and arguments are addresses. -/
structure Strevent where
  id : Nat
  seFunc : Nat
  seArg : Nat
  seSize : Int
  deriving DecidableEq, Repr

/-- Calls of `bufcall` and `esbbcall`, with the event that `sealloc` gave them, if any. -/
inductive Request where
  | bufcall (sep : Option Nat) (size func arg : Nat)
  | esbbcall (sep : Option Nat) (func arg : Nat)
  deriving DecidableEq, Repr

/-- An event goes to the end of the list. Without memory for it, 0 is returned. -/
def add (sep : Option Nat) (func arg : Nat) (size : Int) (strbcalls : List Strevent) : List Strevent × Nat :=
  match sep with
  | none => (strbcalls, 0)
  | some sep => (strbcalls ++ [⟨sep, func, arg, size⟩], sep)

/-- The size is an unsigned number and becomes an `int`. -/
def bufcall (sep : Option Nat) (size func arg : Nat) : List Strevent → List Strevent × Nat := add sep func arg (toInt size)

def esbbcall (sep : Option Nat) (func arg : Nat) : List Strevent → List Strevent × Nat := add sep func arg (-1)

def Request.run (strbcalls : List Strevent) : Request → List Strevent
  | .bufcall sep size func arg => (Bufcall.bufcall sep size func arg strbcalls).1
  | .esbbcall sep func arg => (Bufcall.esbbcall sep func arg strbcalls).1

/-- The events from `bc_head` to `bc_tail`; what the functions still to be called will
request, a list for each call; and the events that were called and those that were ever on
the list. -/
structure Waiting where
  strbcalls : List Strevent
  requests : List (List Request)
  called : List Strevent
  came : List Strevent
  deriving DecidableEq, Repr

/-- An iteration of the loop. When the first event asks for more than there is it stays, and
the loop goes on. -/
def round (count : Int) (w : Waiting) : Waiting :=
  match w.strbcalls with
  | [] => w
  | sep :: rest =>
      if sep.seSize ≤ count then
        let requests := w.requests.headD []
        { strbcalls := requests.foldl Request.run rest
          requests := w.requests.tail
          called := w.called ++ [sep]
          came := requests.foldl Request.run w.came }
      else w

/-- The loop ends with an empty list. -/
def Ended (w : Waiting) : Prop := w.strbcalls = []

/-- The estimate of `kmem_avail`, as an `int`. -/
def estimate (k : Kmem) : Int := (kmemAvail k).toInt

/-- The loop begins. -/
def Waiting.begin (pending : List Strevent) (requests : List (List Request)) : Waiting := ⟨pending, requests, [], pending⟩

/-- The loop ends; each event that fits was called once and the others are kept in order. -/
def Served (count : Int) (w : Waiting) : Prop :=
  ∃ n, Ended ((round count)^[n] w) ∧
    ((round count)^[n] w).called = ((round count)^[n] w).came.filter (fun sep => sep.seSize ≤ count) ∧
    ((round count)^[n] w).strbcalls = ((round count)^[n] w).came.filter (fun sep => ¬ sep.seSize ≤ count)

/-- The events that are pending and those that the functions add when all are called. -/
def arriving : List Strevent → List (List Request) → List Strevent
  | [], _ => []
  | sep :: rest, [] => sep :: rest
  | sep :: rest, new :: requests => sep :: arriving (new.foldl Request.run rest) requests

/-- The events that requests add. -/
def events (requests : List Request) : List Strevent := requests.foldl Request.run []

section
variable {count : Int} {w : Waiting} {sep : Strevent} {rest pending : List Strevent} {requests : List Request}
  {all : List (List Request)}

theorem run_events : requests.foldl Request.run pending = pending ++ events requests := by
  have single (request : Request) (list : List Strevent) : request.run list = list ++ request.run [] := by
    cases request with
    | bufcall sep => cases sep <;> simp [Request.run, bufcall, add]
    | esbbcall sep => cases sep <;> simp [Request.run, esbbcall, add]
  unfold events
  induction requests using List.reverseRecOn with
  | nil => simp
  | append_singleton requests last ih =>
    simp only [List.foldl_append, List.foldl_cons, List.foldl_nil]
    rw [ih, single, single last (List.foldl _ _ _), List.append_assoc]

theorem events_few : (events requests).length ≤ requests.length := by
  unfold events
  induction requests using List.reverseRecOn with
  | nil => simp
  | append_singleton requests last ih =>
    simp only [List.foldl_append, List.foldl_cons, List.foldl_nil, List.length_append, List.length_singleton]
    cases last with
    | bufcall sep => cases sep <;> simp [Request.run, bufcall, add] <;> omega
    | esbbcall sep => cases sep <;> simp [Request.run, esbbcall, add] <;> omega

theorem arriving_none : arriving [] all = [] := by
  rw [arriving]

theorem arriving_nil : arriving pending [] = pending := by
  cases pending with
  | nil => rfl
  | cons sep rest => rfl

theorem arriving_cons :
    arriving (sep :: rest) all = sep :: arriving ((all.headD []).foldl Request.run rest) all.tail := by
  cases all with
  | nil => rw [List.headD_nil, List.foldl_nil, List.tail_nil, arriving_nil, arriving_nil]
  | cons new all => rfl

theorem round_fits (list : w.strbcalls = sep :: rest) (fits : sep.seSize ≤ count) :
    round count w = ⟨(w.requests.headD []).foldl Request.run rest, w.requests.tail, w.called ++ [sep],
      (w.requests.headD []).foldl Request.run w.came⟩ := by
  simp only [round, list]
  rw [if_pos fits]

theorem round_large (list : w.strbcalls = sep :: rest) (large : ¬ sep.seSize ≤ count) : round count w = w := by
  simp only [round, list]
  rw [if_neg large]

section
variable (large : ∃ sep ∈ arriving w.strbcalls w.requests, ¬ sep.seSize ≤ count)
include large

/-- An event that does not fit stays before the loop, which does not end. -/
theorem large_stays :
    ∃ sep ∈ arriving (round count w).strbcalls (round count w).requests, ¬ sep.seSize ≤ count := by
  obtain ⟨big, member, beyond⟩ := large
  cases list : w.strbcalls with
  | nil =>
    rw [list, arriving_none] at member
    cases member
  | cons sep rest =>
    by_cases fits : sep.seSize ≤ count
    · rw [round_fits list fits]
      rw [list, arriving_cons] at member
      rcases List.mem_cons.mp member with rfl | later
      · exact absurd fits beyond
      · exact ⟨big, later, beyond⟩
    · rw [round_large list fits]
      exact ⟨big, member, beyond⟩

theorem large_never_ends (n : Nat) :
    ¬ Ended ((round count)^[n] w) := by
  induction n generalizing w with
  | zero =>
    rintro ended
    obtain ⟨_, member, _⟩ := large
    rw [show w.strbcalls = [] from ended, arriving_none] at member
    cases member
  | succ n ih => exact ih (large_stays large)

end

/-- When all events fit each iteration calls one. -/
theorem all_called (fit : ∀ sep ∈ arriving w.strbcalls w.requests, sep.seSize ≤ count)
    (order : w.came = w.called ++ w.strbcalls) :
    ∃ n, Ended ((round count)^[n] w) ∧ ((round count)^[n] w).came = ((round count)^[n] w).called ∧
      ((round count)^[n] w).called = w.called ++ arriving w.strbcalls w.requests := by
  induction bound : w.strbcalls.length + w.requests.flatten.length using Nat.strong_induction_on generalizing w with
  | _ size ih =>
    cases list : w.strbcalls with
    | nil =>
      refine ⟨0, list, ?_, ?_⟩
      · change w.came = w.called
        rw [order, list, List.append_nil]
      · change w.called = _
        rw [arriving_none, List.append_nil]
    | cons sep rest =>
      rw [list, arriving_cons] at fit
      have next := round_fits list (fit sep (.head _))
      have shorter : (round count w).strbcalls.length + (round count w).requests.flatten.length < size := by
        rw [next, run_events]
        rw [list] at bound
        cases requests : w.requests with
        | nil =>
          simp [requests, events] at bound ⊢
          omega
        | cons new all =>
          have few := @events_few new
          simp [requests] at bound ⊢
          omega
      have order' : (round count w).came = (round count w).called ++ (round count w).strbcalls := by
        rw [next]
        rw [run_events, run_events, order, list]
        simp
      obtain ⟨n, ended, all, calls⟩ := ih _ shorter
        (by rw [next]; exact fun later member => fit later (.tail _ member)) order' rfl
      refine ⟨n + 1, ended, all, calls.trans ?_⟩
      rw [next, arriving_cons, List.append_assoc]
      rfl

/-- The loop serves what waits if and only if every event that is pending, or is added while
it runs, fits the estimate. -/
theorem served_iff (k : Kmem) (pending : List Strevent) (requests : List (List Request)) :
    Served (estimate k) (.begin pending requests) ↔ ∀ sep ∈ arriving pending requests, sep.seSize ≤ estimate k := by
  constructor
  · rintro ⟨n, ended, _⟩
    by_contra large
    push Not at large
    obtain ⟨sep, member, beyond⟩ := large
    exact large_never_ends ⟨sep, member, not_le.mpr beyond⟩ n ended
  · intro fit
    obtain ⟨n, ended, all, calls⟩ := @all_called (estimate k) (.begin pending requests) fit rfl
    have called : ((round (estimate k))^[n] (.begin pending requests)).called = arriving pending requests := calls
    refine ⟨n, ended, ?_, ?_⟩
    · rw [all, called, List.filter_eq_self.mpr (by simpa using fit)]
    · rw [all, called, show _ = [] from ended, List.filter_eq_nil_iff.mpr (by simpa using fit)]

end

/-- A request of 5000 bytes when there are none: the loop goes round without end. -/
theorem large_spins : ¬ Served 0 (.begin [⟨1, 2, 3, 5000⟩] []) := fun ⟨n, ended, _⟩ =>
  large_never_ends ⟨⟨1, 2, 3, 5000⟩, List.mem_singleton_self _, by decide⟩ n ended

end Svr4.Bufcall
