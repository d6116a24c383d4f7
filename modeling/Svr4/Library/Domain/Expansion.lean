import Svr4.Library.Domain.Compression

/-! What dn_expand and dn_skipname make of a spelled name. -/

namespace Svr4.Domain

variable {msg : Nat → Byte} {stop : Nat} {labels : List Label} {eom p : Nat}

/-- dn_expand puts a backslash before a dot only. -/
def Plain (l : Label) : Prop := backslash ∉ l

instance (l : Label) : Decidable (Plain l) := inferInstanceAs (Decidable (backslash ∉ l))

theorem escapeByte_plain {c : Byte} (plain : c ≠ backslash) :
    (if c = dot then [backslash, dot] else [c]) = escapeByte c := by
  by_cases h : c = dot
  · simp [escapeByte, h]
  · simp [escapeByte, h, plain]

theorem length_le_escape (l : Label) : l.length ≤ (l.flatMap escapeByte).length := by
  induction l with
  | nil => exact le_rfl
  | cons c l ih =>
    have : 0 < (escapeByte c).length := List.length_pos_iff.2 (escapeByte_ne_nil c)
    rw [List.flatMap_cons, List.length_append, List.length_cons]
    omega

theorem expandLabel_eq {eomorig eom : Nat} (l : Label) (plain : Plain l) :
    ∀ (cp : Nat) (dn : List Byte), (∀ i (h : i < l.length), msg (cp + i) = l[i]) →
      cp + l.length < eomorig → dn.length + (l.flatMap escapeByte).length < eom →
      expandLabel msg eomorig eom l.length cp dn =
        some (cp + l.length, dn ++ l.flatMap escapeByte) := by
  induction l with
  | nil =>
    intro cp dn _ _ _
    simp [expandLabel]
  | cons c l ih =>
    intro cp dn holds inside room
    have here : msg cp = c := holds 0 (Nat.succ_pos _)
    have rest : ∀ i (h : i < l.length), msg (cp + 1 + i) = l[i] := by
      intro i h
      have next : msg (cp + (i + 1)) = l[i] := holds (i + 1) (Nat.succ_lt_succ h)
      rwa [Nat.add_comm i, ← Nat.add_assoc] at next
    have first : c ≠ backslash := fun h => plain (h ▸ (.head _))
    have length := length_le_escape l
    rw [List.flatMap_cons, List.length_append, List.length_cons] at *
    have fits : ¬(c = dot ∧ eom ≤ dn.length + l.length + 1) := by
      rintro ⟨rfl, full⟩
      have : (escapeByte dot).length = 2 := rfl
      omega
    unfold expandLabel
    rw [here, if_neg fits, if_neg (by omega), escapeByte_plain first]
    rw [ih (fun h => plain (.tail _ h)) (cp + 1) (dn ++ escapeByte c) rest (by omega)
      (by rw [List.length_append]; omega)]
    rw [List.append_assoc, Nat.add_assoc, Nat.add_comm 1]

/-- The text with the rest of the labels, behind a dot if it has begun. -/
def joined (dn : List Byte) (labels : List Label) : List Byte :=
  if labels = [] then dn else if dn = [] then text labels else dn ++ dot :: text labels

theorem joined_cons {dn dn' : List Byte} {l : Label} (labels : List Label) (nonempty : l ≠ [])
    (begun : dn' = if dn = [] then [] else dn ++ [dot]) :
    joined dn (l :: labels) = joined (dn' ++ l.flatMap escapeByte) labels := by
  have some : l.flatMap escapeByte ≠ [] := by
    intro empty
    have := length_le_escape l
    rw [empty] at this
    exact nonempty (List.length_eq_zero_iff.1 (Nat.le_zero.1 this))
  subst begun
  cases labels with
  | nil => by_cases h : dn = [] <;> simp [joined, text, h]
  | cons l' labels => by_cases h : dn = [] <;> simp [joined, text, h, some]

theorem joined_length (dn : List Byte) (labels : List Label) :
    dn.length ≤ (joined dn labels).length := by
  unfold joined
  split
  · exact le_rfl
  split
  · rename_i empty
    simp [empty]
  · simp

/-- dn_expand follows a spelled name to its end: the message has more bytes
than it counts in checked, for a name never comes back to a byte. -/
theorem expandLoop_spells {eomorig comp_dn base : Nat}
    (spells : Spells msg base p labels stop) :
    ∀ (fuel checked : Nat) (dn : List Byte) (len : Option Nat), (∀ l ∈ labels, Plain l) →
      stop ≤ eomorig → checked + (stop - p) + base ≤ eomorig → stop - p + base ≤ fuel →
      (joined dn labels).length < eom → (len = none → comp_dn ≤ p) →
      expandLoop msg eomorig eom comp_dn fuel p dn checked len =
        some (len.getD (stop - comp_dn), joined dn labels) := by
  induction spells with
  | root low zero =>
    intro fuel checked dn len _ _ _ enough _ _
    obtain ⟨fuel, rfl⟩ : ∃ k, fuel = k + 1 := ⟨fuel - 1, by omega⟩
    simp [expandLoop, zero, joined]
  | @label base p stop l labels low holds rest ih =>
    intro fuel checked dn len plain inside count enough room behind
    have place := rest.place
    have positive := holds.positive
    obtain ⟨fuel, rfl⟩ : ∃ k, fuel = k + 1 := ⟨fuel - 1, by omega⟩
    obtain ⟨nonzero, unmasked, length⟩ := lengthByte _ positive holds.proper.short
    rw [← holds.length] at nonzero unmasked length
    obtain ⟨dn', begun⟩ : ∃ dn', dn' = if dn = [] then [] else dn ++ [dot] := ⟨_, rfl⟩
    rw [joined_cons labels holds.proper.nonempty begun] at room ⊢
    have whole := joined_length (dn' ++ l.flatMap escapeByte) labels
    rw [List.length_append] at whole
    have short := length_le_escape l
    have separated : expandDot eom dn = some dn' := by
      unfold expandDot
      split
      · rename_i empty
        rw [begun, if_pos empty, empty]
      · rename_i some
        have separate : dn' = dn ++ [dot] := by rw [begun, if_neg some]
        have : dn'.length = dn.length + 1 := by rw [separate, List.length_append, List.length_singleton]
        rw [if_neg (by omega), separate]
    have copied := @expandLabel_eq msg eomorig eom l (plain l (.head _)) (p + 1) dn'
      holds.bytes (by omega) (by omega)
    unfold expandLoop
    simp only [nonzero, unmasked, length, ↓reduceIte, separated, copied, Option.bind_eq_bind,
      Option.bind_some]
    rw [if_neg (by omega)]
    exact ih fuel (checked + l.length + 1) _ len (fun l h => plain l (.tail _ h))
      inside (by omega) (by omega) room fun h => (behind h).trans (by omega)
  | @indirect base p before stop labels low masked target earlier ih =>
    intro fuel checked dn len plain inside count enough room behind
    have place := target.place
    obtain ⟨fuel, rfl⟩ : ∃ k, fuel = k + 1 := ⟨fuel - 1, by omega⟩
    obtain ⟨nonzero, high⟩ := mask_ne_zero masked
    unfold expandLoop
    simp only [nonzero, masked, ↓reduceIte]
    rw [if_neg (by decide), if_neg (by omega), if_neg (by omega)]
    have there := ih fuel (checked + 2) dn (some (len.getD (p + 1 - comp_dn + 1))) plain (by omega)
      (by omega) (by omega) room fun h => nomatch h
    rw [there]
    cases len with
    | none =>
      have := behind rfl
      simp only [Option.getD_none, Option.getD_some]
      congr 2
      omega
    | some len => rfl

theorem dnExpand_spells {eomorig length : Nat}
    (spells : Spells msg p p labels stop) (plain : ∀ l ∈ labels, Plain l) (inside : stop ≤ eomorig)
    (room : (text labels).length + 1 < length) :
    dnExpand msg eomorig p length = some (stop - p, text labels) := by
  have place := spells.place
  have start : joined [] labels = text labels := by
    cases labels <;> rfl
  unfold dnExpand
  rw [expandLoop_spells spells _ _ _ _ plain inside (by omega) (by omega) (by rw [start]; omega)
    fun _ => le_rfl, start]
  rfl

theorem skipLoop_spells {base : Nat}
    (spells : Spells msg base p labels stop) :
    ∀ fuel, stop - p ≤ fuel → stop ≤ eom → skipLoop msg eom fuel p = some stop := by
  induction spells with
  | root low zero =>
    intro fuel enough inside
    obtain ⟨fuel, rfl⟩ : ∃ k, fuel = k + 1 := ⟨fuel - 1, by omega⟩
    rw [skipLoop, if_neg (by omega), if_pos zero]
  | @label base p stop l labels low holds rest ih =>
    intro fuel enough inside
    have place := rest.place
    obtain ⟨fuel, rfl⟩ : ∃ k, fuel = k + 1 := ⟨fuel - 1, by omega⟩
    obtain ⟨nonzero, unmasked, length⟩ := lengthByte _ holds.positive holds.proper.short
    rw [← holds.length] at nonzero unmasked length
    rw [skipLoop, if_neg (by omega), if_neg nonzero, if_pos unmasked, length]
    exact ih fuel (by omega) inside
  | indirect low masked target earlier ih =>
    intro fuel enough inside
    obtain ⟨fuel, rfl⟩ : ∃ k, fuel = k + 1 := ⟨fuel - 1, by omega⟩
    obtain ⟨nonzero, high⟩ := mask_ne_zero masked
    rw [skipLoop, if_neg (by omega), if_neg nonzero, if_neg high, if_pos masked]

theorem dnSkipname_spells
    (spells : Spells msg p p labels stop) (inside : stop ≤ eom) :
    dnSkipname msg p eom = some (stop - p) := by
  rw [dnSkipname, skipLoop_spells spells eom (by omega) inside, Option.map_some]

end Svr4.Domain
