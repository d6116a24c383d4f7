import Svr4.Library.Domain

/-! The labels of a name and its expanded form, and what the comparison of a
text with raw labels makes of the dots between labels. -/

namespace Svr4.Domain

abbrev Label := List Byte

/-- A label of 1 to 63 bytes, none of them NUL. -/
structure Label.Proper (l : Label) : Prop where
  nonempty : l ≠ []
  short : l.length ≤ MAXLABEL
  nul : 0 ∉ l

instance (l : Label) : Decidable l.Proper :=
  decidable_of_iff (l ≠ [] ∧ l.length ≤ MAXLABEL ∧ 0 ∉ l)
    ⟨fun ⟨h, h', h''⟩ => ⟨h, h', h''⟩, fun ⟨h, h', h''⟩ => ⟨h, h', h''⟩⟩

def escapeByte (c : Byte) : List Byte := if c = dot ∨ c = backslash then [backslash, c] else [c]

/-- The expanded form: dots between the labels, and a backslash before every
dot or backslash in one. -/
def text : List Label → List Byte
  | [] => []
  | [l] => l.flatMap escapeByte
  | l :: l' :: labels => l.flatMap escapeByte ++ dot :: text (l' :: labels)

/-- The labels of an expanded form, the first of which is begun. -/
def labelsAfter : Label → List Byte → List Label
  | l, [] => [l]
  | l, [c] => if c = dot then [l, []] else [l ++ [c]]
  | l, c :: c' :: dn =>
    if c = dot then l :: labelsAfter [] (c' :: dn)
    else if c = backslash then labelsAfter (l ++ [c']) dn
    else labelsAfter (l ++ [c]) (c' :: dn)

def labelsOf (dn : List Byte) : List Label := if dn = [] then [] else labelsAfter [] dn

@[simp] theorem text_nil_cons (l : Label) (labels : List Label) :
    text ([] :: l :: labels) = dot :: text (l :: labels) := rfl

@[simp] theorem text_cons (c : Byte) (l : Label) (labels : List Label) :
    text ((c :: l) :: labels) = escapeByte c ++ text (l :: labels) := by
  cases labels with
  | nil => rfl
  | cons l' labels => simp [text, List.append_assoc]

theorem labelsAfter_escape (c : Byte) (l : Label) (dn : List Byte) :
    labelsAfter l (escapeByte c ++ dn) = labelsAfter (l ++ [c]) dn := by
  unfold escapeByte
  split
  · rfl
  · rename_i plain
    have : c ≠ dot ∧ c ≠ backslash := by simpa only [not_or] using plain
    cases dn with
    | nil => simp [labelsAfter, this.1]
    | cons c' dn => simp [labelsAfter, this.1, this.2]

theorem labelsAfter_dot (l : Label) (dn : List Byte) :
    labelsAfter l (dot :: dn) = l :: labelsAfter [] dn := by
  cases dn <;> simp [labelsAfter]

theorem labelsAfter_text (l r : Label) (labels : List Label) :
    labelsAfter l (text (r :: labels)) = (l ++ r) :: labels := by
  induction labels generalizing l r with
  | nil =>
    induction r generalizing l with
    | nil => simp [text, labelsAfter]
    | cons c r ih => rw [text_cons, labelsAfter_escape, ih, List.append_assoc, List.singleton_append]
  | cons l' labels ih =>
    induction r generalizing l with
    | nil => rw [text_nil_cons, labelsAfter_dot, ih, List.append_nil, List.nil_append]
    | cons c r ihr => rw [text_cons, labelsAfter_escape, ihr, List.append_assoc, List.singleton_append]

theorem escapeByte_ne_nil (c : Byte) : escapeByte c ≠ [] := by
  unfold escapeByte
  split <;> exact List.cons_ne_nil _ _

variable {l : Label} {labels : List Label} {rest : List Label}

theorem text_eq_nil (empty : text (l :: labels) = []) :
    l = [] ∧ labels = [] := by
  cases l with
  | nil =>
    cases labels with
    | nil => exact ⟨rfl, rfl⟩
    | cons l' labels => cases empty
  | cons c l =>
    rw [text_cons] at empty
    exact absurd (List.append_eq_nil_iff.1 empty).1 (escapeByte_ne_nil c)

theorem labelsOf_text (labels : List Label) (nonempty : ∀ l ∈ labels, l ≠ []) :
    labelsOf (text labels) = labels := by
  cases labels with
  | nil => rfl
  | cons l labels =>
    have some : text (l :: labels) ≠ [] :=
      fun empty => nonempty l (.head _) (text_eq_nil empty).1
    rw [labelsOf, if_neg some, labelsAfter_text, List.nil_append]

/-- Dots between the first labels of a name are taken into its first label. -/
inductive Joins : List Label → List Label → Prop where
  | refl (labels : List Label) : Joins labels labels
  | join {l l' : Label} {labels labels' : List Label} :
      Joins ((l ++ dot :: l') :: labels) labels' → Joins (l :: l' :: labels) labels'

/-- What the search takes for the same name: the second is the first with some
of the dots between its labels taken into a label. -/
inductive Merged : List Label → List Label → Prop where
  | nil : Merged [] []
  | cons {l : Label} {labels rest found : List Label} :
      Joins labels (l :: rest) → Merged rest found → Merged labels (l :: found)

theorem Joins.prepend (c : Byte) {l' : Label} {labels' : List Label}
    (joins : Joins (l :: labels) (l' :: labels')) :
    Joins ((c :: l) :: labels) ((c :: l') :: labels') := by
  generalize first : l :: labels = before at joins
  generalize last : l' :: labels' = after at joins
  induction joins generalizing l labels with
  | refl =>
    obtain ⟨rfl, rfl⟩ := List.cons.inj (first.trans last.symm)
    exact .refl _
  | join _ ih =>
    obtain ⟨rfl, rfl⟩ := List.cons.inj first
    exact .join (ih rfl last)

theorem Joins.suffix (joins : Joins labels (l :: rest)) :
    rest <:+ labels.tail := by
  generalize last : l :: rest = after at joins
  induction joins with
  | refl =>
    subst last
    exact List.suffix_refl _
  | join _ ih => exact (ih last).trans (List.suffix_cons _ _)

theorem Joins.eq_of_no_dot (joins : Joins labels (l :: rest))
    (plain : dot ∉ l) : labels = l :: rest := by
  have keeps : ∀ {a b : List Label}, Joins a b → ∀ l rest, a = l :: rest → dot ∈ l →
      ∃ l' rest', b = l' :: rest' ∧ dot ∈ l' := by
    intro a b joins
    induction joins with
    | refl => exact fun l rest h dotted => ⟨l, rest, h, dotted⟩
    | join _ ih =>
      intro l rest h dotted
      obtain ⟨rfl, rfl⟩ := List.cons.inj h
      exact ih _ _ rfl (List.mem_append_left _ dotted)
  cases joins with
  | refl => rfl
  | join joins =>
    obtain ⟨l', rest', same, dotted⟩ := keeps joins _ _ rfl
      (List.mem_append_right _ (.head _))
    obtain ⟨rfl, rfl⟩ := List.cons.inj same
    exact absurd dotted plain

theorem Merged.eq_of_no_dot {found : List Label} (merged : Merged labels found)
    (plain : ∀ l ∈ found, dot ∉ l) : labels = found := by
  induction merged with
  | nil => rfl
  | cons joins _ ih =>
    rw [joins.eq_of_no_dot (plain _ (.head _)), ih fun l h => plain l (.tail _ h)]

/-- The bytes of a label that match take the text on, by escaped bytes and by
dots between labels. -/
theorem matchLabel_joins {msg : Nat → Byte} (k : Label) (nul : 0 ∉ k) :
    ∀ (l : Label) (labels : List Label) (cp : Nat) (dn : List Byte) (cp' : Nat),
      (∀ i (h : i < k.length), msg (cp + i) = k[i]) →
      matchLabel msg k.length (text (l :: labels)) cp = some (dn, cp') →
      cp' = cp + k.length ∧
        ∃ l' labels', dn = text (l' :: labels') ∧ Joins (l :: labels) ((k ++ l') :: labels') := by
  induction k with
  | nil =>
    intro l labels cp dn cp' _ result
    cases result
    exact ⟨rfl, l, labels, rfl, .refl _⟩
  | cons c k ih =>
    intro l labels cp dn cp' holds result
    have here : msg cp = c := holds 0 (Nat.succ_pos _)
    have rest : ∀ i (h : i < k.length), msg (cp + 1 + i) = k[i] := by
      intro i h
      have next : msg (cp + (i + 1)) = k[i] := holds (i + 1) (Nat.succ_lt_succ h)
      rwa [Nat.add_comm i, ← Nat.add_assoc] at next
    have nul' : 0 ∉ k := fun h => nul (.tail _ h)
    have nonzero : c ≠ 0 := fun h => nul (h ▸ (.head _))
    cases l with
    | cons d l =>
      have skip : (if (text ((d :: l) :: labels)).head? = some backslash
          then (text ((d :: l) :: labels)).tail else text ((d :: l) :: labels)) =
          d :: text (l :: labels) := by
        rw [text_cons]
        unfold escapeByte
        split
        · rfl
        · rename_i plain
          have : d ≠ backslash := fun h => plain (.inr h)
          simp [this]
      simp only [List.length_cons, matchLabel, skip, List.headD_cons, List.tail_cons] at result
      split at result
      · rename_i same
        obtain ⟨place, l', labels', left, joins⟩ := ih nul' l labels (cp + 1) dn cp' rest result
        refine ⟨by simp only [place, List.length_cons]; omega, l', labels', left, ?_⟩
        rw [same, here]
        exact joins.prepend c
      · cases result
    | nil =>
      cases labels with
      | nil =>
        simp [text, matchLabel, here] at result
        exact absurd result.1.symm nonzero
      | cons b labels =>
        have differ : dot ≠ backslash := by decide
        simp only [List.length_cons, text_nil_cons, matchLabel, List.head?_cons, Option.some.injEq,
          differ, ↓reduceIte, List.headD_cons, List.tail_cons] at result
        split at result
        · rename_i same
          obtain ⟨place, l', labels', left, joins⟩ := ih nul' b labels (cp + 1) dn cp' rest result
          refine ⟨by simp only [place, List.length_cons]; omega, l', labels', left, .join ?_⟩
          rw [← here, ← same]
          exact joins.prepend dot
        · cases result

end Svr4.Domain
