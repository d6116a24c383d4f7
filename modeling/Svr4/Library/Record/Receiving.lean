import Svr4.Library.Record.Fragments

/-! The receiving side: whatever pieces the line delivers, the buffer and the
line together are what is left of the current fragment and whole fragments. -/

namespace Svr4.Record

open List (length_drop length_append)

/-- What is still to be had: the buffer and what the line has behind it. -/
def In.rest (i : In) : List Byte := i.window ++ i.line

/-- The bytes left of the current record and the records behind it. -/
def Holds (i : In) (current : List Byte) (behind : List (List Byte)) : Prop :=
  i.in_size ≤ i.room ∧ ∃ data fs, i.rest = data ++ frames fs ∧ Short fs ∧ i.fbtbc = data.length ∧
    if i.last_frag then current = data ∧ records [] fs = (behind, [])
    else ∃ tail, current = data ++ tail ∧ records [] fs = (tail :: behind, [])

/-- Bytes were taken from the input, and nothing else was touched. -/
structure Took (i : In) (len : Nat) (i' : In) : Prop where
  rest : i'.rest = i.rest.drop len
  fbtbc : i'.fbtbc = i.fbtbc
  last_frag : i'.last_frag = i.last_frag
  buffer : i.in_size ≤ i.room → i'.in_size ≤ i'.room

variable {i : In} {len : Nat} {current : List Byte} {behind : List (List Byte)}

theorem fill_took {i' : In} (filled : i.fill_input_buf = some i') (empty : i.window = []) :
    Took i 0 i' ∧ i'.window ≠ [] := by
  unfold In.fill_input_buf at filled
  split at filled
  · cases filled
  · rename_i more
    obtain rfl := Option.some.inj filled
    simp only [not_or] at more
    refine ⟨⟨?_, rfl, rfl, id⟩, ?_⟩
    · simp [In.rest, empty]
    · intro nothing
      have : (i.line.take _).length = 0 := congrArg List.length nothing
      have positive := List.length_pos_iff.2 more.1
      rw [List.length_take] at this
      omega

theorem fill_none (buffer : i.in_size ≤ i.room) (failed : i.fill_input_buf = none) :
    i.line = [] := by
  unfold In.fill_input_buf at failed
  split at failed
  · rename_i stopped
    exact stopped.resolve_right (Nat.not_lt.2 buffer)
  · cases failed

theorem inputLoop_eq (fuel : Nat) : ∀ (len : Nat) (got : List Byte) (i : In),
    2 * len + (if i.window = [] then 1 else 0) ≤ fuel → 0 < fuel →
    i.in_size ≤ i.room → len ≤ i.rest.length →
    ∃ i', In.inputLoop fuel len got i = (i', some (got ++ i.rest.take len)) ∧ Took i len i' := by
  induction fuel with
  | zero =>
    intro len got i _ positive
    omega
  | succ fuel ih =>
    intro len got i enough _ buffer has
    unfold In.inputLoop
    split
    · rename_i none_
      subst none_
      exact ⟨i, by simp, by simp, rfl, rfl, id⟩
    split
    · rename_i some_ empty
      cases filled : i.fill_input_buf with
      | none =>
        have : i.rest = [] := by rw [In.rest, empty, fill_none buffer filled, List.append_nil]
        rw [this, List.length_nil] at has
        omega
      | some i₁ =>
        obtain ⟨took, full⟩ := fill_took filled empty
        have same : i₁.rest = i.rest := took.rest
        obtain ⟨i', result, took'⟩ := ih len got i₁ (by
          rw [if_pos empty] at enough
          rw [if_neg full]
          omega) (by omega) (took.buffer buffer) (by rw [same]; exact has)
        refine ⟨i', by rw [← same]; exact result, ?_, took'.fbtbc.trans took.fbtbc,
          took'.last_frag.trans took.last_frag, fun _ => took'.buffer (took.buffer buffer)⟩
        rw [took'.rest, same]
    · rename_i some_ full
      have positive := List.length_pos_iff.2 full
      dsimp only
      generalize count : min len i.window.length = k
      have inside : k ≤ i.window.length := by omega
      have dropped : i.window.drop k ++ i.line = i.rest.drop k := by
        rw [In.rest, List.drop_append_of_le_length inside]
      have taken : i.window.take k = i.rest.take k := by
        rw [In.rest, List.take_append_of_le_length inside]
      obtain ⟨i', result, took⟩ := ih (len - k) (got ++ i.window.take k)
        { i with window := i.window.drop k } (by split <;> split at enough <;> omega) (by
          rw [if_neg full] at enough
          omega) buffer (by
          change len - k ≤ (i.window.drop k ++ i.line).length
          rw [dropped, length_drop]
          omega)
      have rest : In.rest { i with window := i.window.drop k } = i.rest.drop k := dropped
      refine ⟨i', ?_, ?_, took.fbtbc, took.last_frag, took.buffer⟩
      · rw [result, rest, taken, List.append_assoc]
        congr 3
        rw [← List.take_add]
        congr 1
        omega
      · rw [took.rest, rest, List.drop_drop]
        congr 1
        omega

theorem get_input_bytes_eq {i : In} {len : Nat} (buffer : i.in_size ≤ i.room)
    (has : len ≤ i.rest.length) :
    ∃ i', i.get_input_bytes len = (i', some (i.rest.take len)) ∧ Took i len i' :=
  inputLoop_eq _ len [] i (by split <;> omega) (by omega) buffer has

theorem skip_input_bytes_eq (buffer : i.in_size ≤ i.room)
    (has : len ≤ i.rest.length) :
    ∃ i', i.skip_input_bytes len = (i', true) ∧ Took i len i' := by
  obtain ⟨i', result, took⟩ := get_input_bytes_eq buffer has
  unfold In.get_input_bytes at result
  refine ⟨i', ?_, took⟩
  unfold In.skip_input_bytes
  rw [result]
  rfl

theorem headerWord_bounds (eor : Bool) (short : len < LAST_FRAG) :
    headerWord len eor < 2 ^ 32 ∧ decide (LAST_FRAG ≤ headerWord len eor) = eor ∧
      headerWord len eor % LAST_FRAG = len := by
  unfold headerWord LAST_FRAG at *
  cases eor with
  | false =>
    simp only [Bool.false_eq_true, ↓reduceIte, decide_eq_false_iff_not]
    omega
  | true =>
    simp only [↓reduceIte, decide_eq_true_eq]
    omega

theorem set_input_fragment_eq {f : Fragment} {fs : List Fragment} (short : f.2.length < LAST_FRAG)
    (buffer : i.in_size ≤ i.room) (rest : i.rest = frames (f :: fs)) :
    ∃ i', i.set_input_fragment = (i', true) ∧ i'.in_size ≤ i'.room ∧ i'.rest = f.2 ++ frames fs ∧
      i'.fbtbc = f.2.length ∧ i'.last_frag = f.1 := by
  obtain ⟨word, last, length⟩ := headerWord_bounds f.1 short
  have whole : i.rest = htonl (headerWord f.2.length f.1) ++ (f.2 ++ frames fs) := by
    rw [rest, frames_cons, Fragment.frame, List.append_assoc]
  have four : (htonl (headerWord f.2.length f.1)).length = 4 := htonl_length _
  obtain ⟨i', result, took⟩ := @get_input_bytes_eq i 4 buffer (by rw [whole, length_append, four]; omega)
  have header : i.rest.take 4 = htonl (headerWord f.2.length f.1) := by
    rw [whole, List.take_append_of_le_length four.ge, ← four, List.take_length]
  refine ⟨{ i' with last_frag := f.1, fbtbc := f.2.length }, ?_, took.buffer buffer, ?_, rfl, rfl⟩
  · unfold In.set_input_fragment
    rw [result, header]
    dsimp only
    rw [ntohl_htonl word, last, length]
  · change i'.rest = _
    rw [took.rest, whole, ← four, List.drop_left]

/-- Between the fragments of a record: the next one is begun, and the record is
what it was. -/
theorem next_fragment
    (holds : Holds i current behind) (empty : i.fbtbc = 0) (more : i.last_frag = false) :
    ∃ i', i.set_input_fragment = (i', true) ∧ Holds i' current behind ∧
      i'.rest.length + 4 = i.rest.length := by
  obtain ⟨buffer, data, fs, rest, short, length, split⟩ := holds
  obtain rfl : data = [] := List.length_eq_zero_iff.1 (length.symm.trans empty)
  rw [more, if_neg (by decide)] at split
  obtain ⟨tail, rfl, ended⟩ := split
  rw [List.nil_append] at rest
  cases fs with
  | nil => cases ended
  | cons f fs =>
    obtain ⟨i', result, buffer', rest', fbtbc, last⟩ :=
      set_input_fragment_eq (short f (.head _)) buffer rest
    have short' : Short fs := fun g h => short g (.tail _ h)
    refine ⟨i', result, ⟨buffer', f.2, fs, rest', short', fbtbc, ?_⟩, ?_⟩
    · obtain ⟨eor, bytes⟩ := f
      cases eor with
      | true =>
        simp only [records, Prod.mk.injEq, List.cons.injEq] at ended
        obtain ⟨⟨rfl, rfl⟩, left⟩ := ended
        rw [last, if_pos rfl]
        exact ⟨rfl, Prod.ext rfl left⟩
      | false =>
        obtain ⟨tail', rfl, inner⟩ := @records_begun fs bytes _ _ _ ended
        rw [last, if_neg Bool.false_ne_true]
        exact ⟨tail', rfl, inner⟩
    · rw [rest, rest', frames_cons, Fragment.frame]
      simp only [length_append, htonl_length]
      omega

theorem Holds.take {i' : In}
    (holds : Holds i current behind) (inside : len ≤ i.fbtbc) (took : Took i len i') :
    Holds { i' with fbtbc := i.fbtbc - len } (current.drop len) behind ∧
      i.rest.take len = current.take len ∧ len ≤ current.length := by
  obtain ⟨buffer, data, fs, rest, short, length, split⟩ := holds
  have fits : len ≤ data.length := by omega
  have front : i.rest.take len = data.take len := by rw [rest, List.take_append_of_le_length fits]
  have rest' : In.rest { i' with fbtbc := i.fbtbc - len } = data.drop len ++ frames fs := by
    change i'.rest = _
    rw [took.rest, rest, List.drop_append_of_le_length fits]
  have left : i.fbtbc - len = (data.drop len).length := by rw [length_drop, length]
  split at split
  · rename_i last
    obtain ⟨rfl, ended⟩ := split
    refine ⟨⟨took.buffer buffer, _, fs, rest', short, left, ?_⟩, front, fits⟩
    rw [if_pos (took.last_frag.trans last)]
    exact ⟨rfl, ended⟩
  · rename_i last
    obtain ⟨tail, rfl, ended⟩ := split
    refine ⟨⟨took.buffer buffer, _, fs, rest', short, left, ?_⟩, ?_, ?_⟩
    · rw [if_neg (by rw [took.last_frag]; exact last)]
      exact ⟨tail, List.drop_append_of_le_length fits, ended⟩
    · rw [front, List.take_append_of_le_length fits]
    · rw [length_append]
      omega

theorem Holds.room
    (holds : Holds i current behind) : i.fbtbc ≤ i.rest.length := by
  obtain ⟨-, data, fs, rest, -, length, -⟩ := holds
  rw [rest, length, length_append]
  exact Nat.le_add_right _ _

/-- A read within the record gets its bytes; one past its end fails and leaves
nothing of it. -/
theorem getLoop_holds (fuel : Nat) : ∀ (len : Nat) (got : List Byte) (i : In) (current : List Byte)
    (behind : List (List Byte)), Holds i current behind → len + i.rest.length < fuel →
    if len ≤ current.length then
      ∃ i', In.getLoop fuel len got i = (i', some (got ++ current.take len)) ∧
        Holds i' (current.drop len) behind
    else ∃ i', In.getLoop fuel len got i = (i', none) ∧ Holds i' [] behind := by
  induction fuel with
  | zero =>
    intro len got i current behind _ enough
    omega
  | succ fuel ih =>
    intro len got i current behind holds enough
    unfold In.getLoop
    by_cases zero : len = 0
    · subst zero
      rw [if_pos (Nat.zero_le _), if_pos rfl]
      exact ⟨i, by simp, by simpa using holds⟩
    rw [if_neg zero]
    by_cases empty : i.fbtbc = 0
    · rw [if_pos empty]
      cases last : i.last_frag with
      | true =>
        have ended : current = [] := by
          obtain ⟨-, data, fs, -, -, length, split⟩ := holds
          rw [if_pos last] at split
          exact split.1.trans (List.length_eq_zero_iff.1 (length.symm.trans empty))
        subst ended
        rw [if_neg (by simpa using zero), if_pos rfl]
        exact ⟨i, rfl, holds⟩
      | false =>
        obtain ⟨i₁, begun, holds₁, shorter⟩ := next_fragment holds empty last
        rw [begun]
        exact ih len got i₁ current behind holds₁ (by omega)
    · rw [if_neg empty]
      dsimp only
      generalize count : min len i.fbtbc = k
      have room := holds.room
      obtain ⟨i₁, result, took⟩ := @get_input_bytes_eq i k holds.1 (by omega)
      obtain ⟨holds₁, front, fits⟩ := holds.take (by omega) took
      have fewer : In.rest { i₁ with fbtbc := i₁.fbtbc - k } = i.rest.drop k := took.rest
      rw [← took.fbtbc] at holds₁
      have step := ih (len - k) (got ++ i.rest.take k) _ _ _ holds₁ (by
        rw [fewer, length_drop]
        omega)
      rw [result]
      dsimp only
      rw [length_drop] at step
      by_cases within : len ≤ current.length
      · rw [if_pos (by omega)] at step
        rw [if_pos within]
        obtain ⟨i', more, holds'⟩ := step
        refine ⟨i', ?_, ?_⟩
        · rw [more, front, List.append_assoc]
          congr 3
          rw [← List.take_add]
          congr 1
          omega
        · rw [List.drop_drop] at holds'
          rwa [show k + (len - k) = len by omega] at holds'
      · rw [if_neg (by omega)] at step
        rw [if_neg within]
        exact step

theorem getbytes_holds
    (holds : Holds i current behind) (len : Nat) :
    if len ≤ current.length then
      ∃ i', i.getbytes len = (i', some (current.take len)) ∧ Holds i' (current.drop len) behind
    else ∃ i', i.getbytes len = (i', none) ∧ Holds i' [] behind :=
  getLoop_holds _ len [] i current behind holds (by
    rw [In.rest, length_append]
    omega)

theorem inline_holds
    (holds : Holds i current behind) (len : Nat) (inside : len ≤ i.fbtbc) (here : len ≤ i.window.length) :
    Holds { i with fbtbc := i.fbtbc - len, window := i.window.drop len } (current.drop len) behind ∧
      i.window.take len = current.take len ∧ len ≤ current.length := by
  have took : Took i len { i with window := i.window.drop len } :=
    ⟨(List.drop_append_of_le_length here).symm, rfl, rfl, id⟩
  obtain ⟨holds', front, fits⟩ := holds.take inside took
  refine ⟨holds', ?_, fits⟩
  rw [← front, In.rest, List.take_append_of_le_length here]

theorem getlong_holds
    (holds : Holds i current behind) :
    if 4 ≤ current.length then
      ∃ i', i.getlong = (i', some (current.take 4)) ∧ Holds i' (current.drop 4) behind
    else ∃ i', i.getlong = (i', none) ∧ Holds i' [] behind := by
  unfold In.getlong
  by_cases fast : 4 ≤ i.fbtbc ∧ 4 ≤ i.window.length
  · obtain ⟨holds', front, fits⟩ := inline_holds holds 4 fast.1 fast.2
    rw [if_pos fits, if_pos fast, front]
    exact ⟨_, rfl, holds'⟩
  · rw [if_neg fast]
    exact getbytes_holds holds 4

theorem skipLoop_holds (fuel : Nat) : ∀ (i : In) (current record : List Byte)
    (behind : List (List Byte)), Holds i current (record :: behind) → i.rest.length + 2 ≤ fuel →
    ∃ i', In.skipLoop fuel i = (i', true) ∧ Holds i' record behind := by
  induction fuel with
  | zero =>
    intro i current record behind _ enough
    omega
  | succ fuel ih =>
    intro i current record behind holds enough
    unfold In.skipLoop
    split
    · rename_i more
      obtain ⟨i₁, skipped, took⟩ := skip_input_bytes_eq holds.1 holds.room
      obtain ⟨holds₁, -, -⟩ := holds.take le_rfl took
      rw [Nat.sub_self] at holds₁
      have fewer : In.rest { i₁ with fbtbc := 0 } = i.rest.drop i.fbtbc := took.rest
      have length : (In.rest { i₁ with fbtbc := 0 }).length + i.fbtbc = i.rest.length := by
        rw [fewer, length_drop]
        have := holds.room
        omega
      rw [skipped]
      dsimp only
      by_cases last : i₁.last_frag = true
      · have ended : i.last_frag = true := took.last_frag.symm.trans last
        rw [if_pos last]
        simp only [ended, Bool.true_eq_false, or_false] at more
        exact ih _ _ record behind holds₁ (by omega)
      · obtain ⟨i₂, begun, holds₂, shorter⟩ := next_fragment holds₁ rfl (Bool.not_eq_true _ ▸ last)
        rw [if_neg last, begun]
        exact ih i₂ _ record behind holds₂ (by omega)
    · rename_i done
      obtain ⟨buffer, data, fs, rest, short, length, split⟩ := holds
      have ended : i.last_frag = true := by
        cases last : i.last_frag with
        | true => rfl
        | false => exact absurd (.inr last) done
      have empty : i.fbtbc = 0 := by
        by_contra other
        exact done (.inl (Nat.pos_of_ne_zero other))
      obtain rfl : data = [] := List.length_eq_zero_iff.1 (length.symm.trans empty)
      rw [if_pos ended] at split
      refine ⟨_, rfl, buffer, [], fs, rest, short, empty, ?_⟩
      rw [if_neg Bool.false_ne_true]
      exact ⟨record, rfl, split.2⟩

theorem skiprecord_holds {record : List Byte}
    (holds : Holds i current (record :: behind)) :
    ∃ i', i.skiprecord = (i', true) ∧ Holds i' record behind :=
  skipLoop_holds _ i current record behind holds (by
    rw [In.rest, length_append]
    omega)

end Svr4.Record
