import Svr4.Foundation.Execution
import Svr4.Library.Domain.Expansion

/-! Names compressed one after another into a message. The search of dn_comp
takes a dot inside an earlier label for a dot between labels, dn_expand leaves
a backslash inside a label as it is, and a call that fails may leave pointers
to labels it has not finished. Short of that every name stays readable. -/

namespace Svr4.Domain

structure Message where
  msg : Nat → Byte
  used : Nat
  dnptrs : List Nat
  /-- Where each name stands, its labels and what dn_comp answered. -/
  names : List (Nat × List Label × Nat)

inductive Event where
  | compress (labels : List Label) (length : Nat)
  | append (bytes : List Byte)
  deriving DecidableEq, Repr

/-- A name is compressed behind what is used, or the client writes bytes there.
There is no next state when the call does not return. -/
def act (lastdnptr : Option Nat) (s : Message) : Event → Option Message
  | .compress labels length =>
    match dnComp (text labels) s.used length lastdnptr s.msg s.dnptrs with
    | none => none
    | some (w, none) => some { s with msg := w.msg, dnptrs := w.dnptrs }
    | some (w, some n) => some
        { msg := w.msg, used := s.used + n, dnptrs := w.dnptrs, names := (s.used, labels, n) :: s.names }
  | .append bytes => some { s with
      msg := fun q => if s.used ≤ q then (bytes[q - s.used]?).getD (s.msg q) else s.msg q
      used := s.used + bytes.length }

def Start (size : Nat) (s : Message) : Prop := s.used ≤ size ∧ s.dnptrs = [] ∧ s.names = []

def Step (lastdnptr : Option Nat) (s : Message) (e : Event) (t : Message) : Prop :=
  act lastdnptr s e = some t

/-- The client gives proper labels and stays within the message. -/
def Legal (size : Nat) (s : Message) : Event → Prop
  | .compress labels length => (∀ l ∈ labels, l.Proper) ∧ s.used + length ≤ size
  | .append bytes => s.used + bytes.length ≤ size

/-- The call takes none of the branches that go wrong. -/
def Meets (lastdnptr : Option Nat) (s : Message) : Event → Prop
  | .compress labels length =>
      (∀ l ∈ labels, Plain l) ∧ Unlike s.msg s.dnptrs labels ∧
      ∀ w, dnComp (text labels) s.used length lastdnptr s.msg s.dnptrs = some (w, none) →
        w.dnptrs = s.dnptrs
  | .append _ => True

def RoundTrips (s : Message) : Prop :=
  ∀ p labels n, (p, labels, n) ∈ s.names → ∀ eom, s.used ≤ eom →
    ∀ length, (text labels).length + 1 < length →
      (∃ dn, dnExpand s.msg eom p length = some (n, dn) ∧ labelsOf dn = labels) ∧
        dnSkipname s.msg p eom = some n

structure Good (size : Nat) (s : Message) : Prop where
  room : s.used ≤ size
  saved : ∀ p ∈ s.dnptrs, Saved s.msg s.used p
  spelled : ∀ p labels n, (p, labels, n) ∈ s.names →
    Spells s.msg p p labels (p + n) ∧ p + n ≤ s.used ∧ ∀ l ∈ labels, Plain l ∧ l.Proper

theorem text_length (labels : List Label) (proper : ∀ l ∈ labels, l.Proper) :
    labels.length ≤ (text labels).length := by
  induction labels with
  | nil => exact le_rfl
  | cons l labels ih =>
    have := ih fun l h => proper l (.tail _ h)
    have escaped := length_le_escape l
    have := List.length_pos_iff.2 (proper l (.head _)).nonempty
    cases labels with
    | nil =>
      simp only [text, List.length_cons, List.length_nil]
      omega
    | cons l' labels =>
      simp only [text, List.length_cons, List.length_append] at *
      omega

section Run

variable {size : Nat} {lastdnptr : Option Nat} {s t : Message}

theorem Good.frame (good : Good size s) (msg : Nat → Byte) (used : Nat)
    (same : ∀ q < s.used, msg q = s.msg q) (room : used ≤ size) (more : s.used ≤ used) :
    Good size { s with msg := msg, used := used } where
  room := room
  saved := fun p h => by
    obtain ⟨base, labels, stop, spells, low⟩ := good.saved p h
    exact ⟨base, labels, stop, spells.frame fun q h => same q (h.trans_le low), low.trans more⟩
  spelled := fun p labels n h => by
    obtain ⟨spells, low, proper⟩ := good.spelled p labels n h
    exact ⟨spells.frame fun q h => same q (h.trans_le low), low.trans more, proper⟩

/-- A legal call comes back: with the name spelled behind the used bytes and
every saved pointer leading to a name, or with -1 and the used bytes as they were. -/
theorem dnComp_spells (small : size ≤ 16383) (good : Good size s) {labels : List Label}
    {length : Nat} (proper : ∀ l ∈ labels, l.Proper) (inside : s.used + length ≤ size)
    (unlike : Unlike s.msg s.dnptrs labels) :
    ∃ w answer, dnComp (text labels) s.used length lastdnptr s.msg s.dnptrs = some (w, answer) ∧
      (∀ q < s.used, w.msg q = s.msg q) ∧
      ∀ n, answer = some n → Spells w.msg s.used s.used labels (s.used + n) ∧ s.used + n ≤ size ∧
        ∀ p ∈ w.dnptrs, p ∈ s.dnptrs ∨ Saved w.msg (s.used + n) p := by
  have enough := text_length labels proper
  obtain ⟨w, stat, result, frame, spells⟩ := @compLoop_spells (s.used + length) s.used lastdnptr
    s.dnptrs (by omega) labels ((text labels).length + 1) ⟨s.msg, s.used, s.dnptrs⟩ (by omega)
    le_rfl proper good.saved unlike
  refine ⟨w, if stat then some (w.cp - s.used) else none, ?_, frame, fun n answered => ?_⟩
  · unfold dnComp
    rw [result]
    rfl
  · cases stat with
    | false => cases answered
    | true =>
      cases answered
      obtain ⟨whole, fits, saves⟩ := spells rfl
      have := whole.place
      have stop : s.used + (w.cp - s.used) = w.cp := by
        omega
      rw [stop]
      exact ⟨whole, fits.trans inside, saves⟩

theorem act_good (small : size ≤ 16383) (good : Good size s) {e : Event} (step : Step lastdnptr s e t)
    (legal : Legal size s e) (meets : Meets lastdnptr s e) : Good size t := by
  cases e with
  | append bytes =>
    cases step
    refine good.frame _ _ (fun q h => ?_) legal (Nat.le_add_right _ _)
    exact if_neg (Nat.not_le.2 h)
  | compress labels length =>
    obtain ⟨proper, inside⟩ := legal
    obtain ⟨plain, unlike, tidy⟩ := meets
    obtain ⟨w, answer, result, frame, spells⟩ :=
      @dnComp_spells size lastdnptr s small good labels length proper inside unlike
    have next := step
    unfold Step act at next
    simp only [result] at next
    cases answer with
    | none =>
      cases next
      have kept := good.frame w.msg s.used frame good.room le_rfl
      exact ⟨kept.room, fun p h => kept.saved p (tidy w result ▸ h), kept.spelled⟩
    | some n =>
      cases next
      obtain ⟨whole, room, saves⟩ := spells n rfl
      have kept := good.frame w.msg (s.used + n) frame room (Nat.le_add_right _ _)
      refine ⟨room, fun p h => ?_, fun p labels' n' h => ?_⟩
      · rcases saves p h with old | fresh
        · exact kept.saved p old
        · exact fresh
      · rcases List.mem_cons.1 h with new | old
        · obtain ⟨rfl, rfl, rfl⟩ := new
          exact ⟨whole, le_rfl, fun l h => ⟨plain l h, proper l h⟩⟩
        · exact kept.spelled p labels' n' old

theorem Good.roundTrips (good : Good size s) : RoundTrips s := by
  intro p labels n named eom inside length room
  obtain ⟨spells, low, proper⟩ := good.spelled p labels n named
  have whole : p + n - p = n := Nat.add_sub_cancel_left p n
  refine ⟨⟨text labels, ?_, labelsOf_text labels fun l h => (proper l h).2.nonempty⟩, ?_⟩
  · rw [dnExpand_spells spells (fun l h => (proper l h).1) (low.trans inside) room, whole]
  · rw [dnSkipname_spells spells (low.trans inside), whole]

end Run

/-- An empty message with a header of 12 bytes. -/
def blank : Message := ⟨fun _ => 0, 12, [], []⟩

end Svr4.Domain
