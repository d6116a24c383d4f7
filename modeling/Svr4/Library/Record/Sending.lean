import Svr4.Library.Record.Fragments

/-! The sending side: whatever calls are made, what has been written and what is
in the buffer are whole fragments and one that is open. -/

namespace Svr4.Record

/-- The records that have ended and the bytes of the current one, as they stand
in what was written and in the buffer. -/
structure Sends (o : Out) (done : List (List Byte)) (current : List Byte) : Prop where
  header : o.frag_header + 4 ≤ o.out_finger
  inside : o.out_finger ≤ o.sendsize
  large : 4 < o.sendsize
  small : o.sendsize ≤ LAST_FRAG
  room : o.sendsize ≤ o.room
  fragments : ∃ fs begun, Short fs ∧ o.written ++ o.bytes.take o.frag_header = frames fs ∧
    records [] fs = (done, begun) ∧ current = begun ++ o.bytes.drop (o.frag_header + 4)

variable {o : Out} {done : List (List Byte)} {current : List Byte}

namespace Sends

theorem store (sends : Sends o done current) {data : List Byte}
    (fits : o.out_finger + data.length ≤ o.sendsize) :
    ∃ o', o.store data = some o' ∧ Sends o' done (current ++ data) ∧
      o'.out_finger = o.out_finger + data.length ∧ o'.sendsize = o.sendsize := by
  have room := sends.room
  have header := sends.header
  have length : (o.bytes ++ data).length = o.out_finger + data.length := List.length_append
  refine ⟨{ o with bytes := o.bytes ++ data }, if_neg (by omega), ?_, length, rfl⟩
  obtain ⟨fs, begun, short, stream, ended, same⟩ := sends.fragments
  refine ⟨?_, ?_, sends.large, sends.small, sends.room, fs, begun, short, ?_, ended, ?_⟩
  · change o.frag_header + 4 ≤ (o.bytes ++ data).length
    omega
  · change (o.bytes ++ data).length ≤ o.sendsize
    omega
  · dsimp only
    rw [List.take_append_of_le_length (by unfold Out.out_finger at header; omega), stream]
  · dsimp only
    rw [List.drop_append_of_le_length (by unfold Out.out_finger at header; omega), same,
      List.append_assoc]

theorem fragment_whole (sends : Sends o done current) (eor : Bool) :
    ∃ fs, Short fs ∧
      o.written ++ (o.putHeader (headerWord (o.out_finger - o.frag_header - 4) eor)).bytes = frames fs ∧
      records [] fs = if eor then (done ++ [current], []) else (done, current) := by
  obtain ⟨fs, begun, short, stream, ended, same⟩ := sends.fragments
  have header := sends.header
  have inside := sends.inside
  have small := sends.small
  have length : (o.bytes.drop (o.frag_header + 4)).length = o.out_finger - o.frag_header - 4 := by
    rw [List.length_drop]
    unfold Out.out_finger
    omega
  refine ⟨fs ++ [(eor, o.bytes.drop (o.frag_header + 4))], ?_, ?_, ?_⟩
  · intro f member
    rcases List.mem_append.1 member with old | new
    · exact short f old
    · rw [List.mem_singleton.1 new, length]
      omega
  · rw [frames_snoc, ← stream]
    simp only [Out.putHeader, Fragment.frame, length, List.append_assoc]
  · rw [records_snoc, ended, same]

theorem flush_out (sends : Sends o done current) (eor : Bool) :
    (o.flush_out eor).sendsize = o.sendsize ∧ (o.flush_out eor).out_finger = 4 ∧
      Sends (o.flush_out eor) (if eor then done ++ [current] else done) (if eor then [] else current) := by
  obtain ⟨fs, short, stream, ended⟩ := sends.fragment_whole eor
  have large := sends.large
  refine ⟨rfl, rfl, le_rfl, ?_, sends.large, sends.small, sends.room, fs, if eor then [] else current,
    short, ?_, ?_, ?_⟩
  · change 4 ≤ o.sendsize
    omega
  · rw [← stream]
    simp [Out.flush_out, Out.putHeader]
  · rw [ended]
    split <;> rfl
  · cases eor <;> simp [Out.flush_out, htonl]

theorem flushed (sends : Sends o done current) :
    ∃ fs, Short fs ∧ (o.flush_out true).written = frames fs ∧ records [] fs = (done ++ [current], []) := by
  obtain ⟨fs, short, stream, ended⟩ := sends.fragment_whole true
  exact ⟨fs, short, stream, ended⟩

theorem sent (sends : Sends o done current) (sent : Bool) :
    Sends { o with frag_sent := sent } done current :=
  ⟨sends.header, sends.inside, sends.large, sends.small, sends.room, sends.fragments⟩

theorem putlong (sends : Sends o done current) {data : List Byte} (four : data.length = 4)
    (roomy : 8 ≤ o.sendsize) :
    ∃ o', o.putlong data = some o' ∧ Sends o' done (current ++ data) ∧ o'.sendsize = o.sendsize := by
  unfold Out.putlong
  split
  · obtain ⟨size, finger, flushed⟩ := (sends.sent true).flush_out false
    have size' : (Out.flush_out false { o with frag_sent := true }).sendsize = o.sendsize := size
    obtain ⟨o', stored, sends', -, same⟩ := @store _ _ _ flushed data (by omega)
    exact ⟨o', stored, sends', same.trans size⟩
  · obtain ⟨o', stored, sends', -, same⟩ := @store _ _ _ sends data (by omega)
    exact ⟨o', stored, sends', same⟩

theorem putLoop (fuel : Nat) : ∀ (o : Out) (current data : List Byte), Sends o done current →
    2 * data.length + (if o.out_finger = o.sendsize then 1 else 0) < fuel →
    ∃ o', Out.putLoop fuel data o = some o' ∧ Sends o' done (current ++ data) ∧
      o'.sendsize = o.sendsize := by
  induction fuel with
  | zero =>
    intro o current data sends enough
    omega
  | succ fuel ih =>
    intro o current data sends enough
    unfold Out.putLoop
    split
    · rename_i empty
      exact ⟨o, rfl, by rwa [empty, List.append_nil], rfl⟩
    · rename_i more
      have positive := List.length_pos_iff.2 more
      have inside := sends.inside
      have large := sends.large
      dsimp only
      generalize count : min data.length (o.sendsize - o.out_finger) = k
      have taken : (data.take k).length = k := by
        rw [List.length_take]
        omega
      have left : (data.drop k).length = data.length - k := List.length_drop
      obtain ⟨o₁, stored, sends₁, finger, size⟩ := @store _ _ _ sends (data.take k) (by omega)
      have whole : current ++ data = current ++ data.take k ++ data.drop k := by
        rw [List.append_assoc, List.take_append_drop]
      rw [stored, whole]
      dsimp only
      split
      · rename_i full
        obtain ⟨size₂, finger₂, sends₂⟩ := (sends₁.sent true).flush_out false
        have size₂' : (Out.flush_out false { o₁ with frag_sent := true }).sendsize = o₁.sendsize := size₂
        obtain ⟨o', result, sends', same⟩ := ih _ _ (data.drop k) sends₂ (by
          rw [if_neg (by omega)]
          split at enough <;> omega)
        exact ⟨o', result, sends', by omega⟩
      · rename_i free
        obtain ⟨o', result, sends', same⟩ := ih _ _ (data.drop k) sends₁ (by
          rw [if_neg free]
          split at enough <;> omega)
        exact ⟨o', result, sends', by omega⟩

theorem putbytes (sends : Sends o done current) (data : List Byte) :
    ∃ o', o.putbytes data = some o' ∧ Sends o' done (current ++ data) ∧ o'.sendsize = o.sendsize :=
  putLoop _ o current data sends (by split <;> omega)

theorem inline (sends : Sends o done current) (data : List Byte) :
    ∃ o' given, o.inline data = some (o', given) ∧
      Sends o' done (current ++ if given then data else []) ∧ o'.sendsize = o.sendsize := by
  unfold Out.inline
  split
  · rename_i fits
    obtain ⟨o', stored, sends', -, same⟩ := sends.store fits
    exact ⟨o', true, by rw [stored]; rfl, sends', same⟩
  · exact ⟨o, false, rfl, by simpa using sends, rfl⟩

theorem endofrecord (sends : Sends o done current) (sendnow : Bool) :
    ∃ o', o.endofrecord sendnow = some o' ∧ Sends o' (done ++ [current]) [] ∧
      o'.sendsize = o.sendsize ∧
      (sendnow = true → ∃ fs, Short fs ∧ o'.written = frames fs ∧ records [] fs = (done ++ [current], [])) := by
  unfold Out.endofrecord
  split
  · obtain ⟨size, -, flushed⟩ := (sends.sent false).flush_out true
    exact ⟨_, rfl, flushed, size, fun _ => (sends.sent false).flushed⟩
  · rename_i stay
    obtain ⟨fs, short, stream, ended⟩ := sends.fragment_whole true
    have header := sends.header
    have room := sends.room
    have free : o.out_finger + 4 < o.sendsize := by
      simp only [not_or] at stay
      omega
    have length : (o.putHeader (headerWord (o.out_finger - o.frag_header - 4) true)).bytes.length =
        o.out_finger := by
      unfold Out.out_finger at header ⊢
      simp only [Out.putHeader, List.length_append, List.length_take, List.length_drop, htonl_length]
      omega
    generalize sealed : o.putHeader (headerWord (o.out_finger - o.frag_header - 4) true) = p at stream length
    have fields : p.sendsize = o.sendsize ∧ p.room = o.room ∧ p.written = o.written :=
      sealed ▸ ⟨rfl, rfl, rfl⟩
    obtain ⟨size, wide, written⟩ := fields
    rw [← written] at stream
    have stored : Out.store (htonl 0) { p with frag_header := o.out_finger } =
        some { p with frag_header := o.out_finger, bytes := p.bytes ++ htonl 0 } := by
      unfold Out.store
      rw [if_neg]
      change ¬p.room < p.bytes.length + 4
      omega
    rw [stored]
    refine ⟨_, rfl, ⟨?_, ?_, ?_, ?_, ?_, fs, [], short, ?_, ended, ?_⟩, size, ?_⟩
    · simp [Out.out_finger, htonl_length, length]
    · simp only [Out.out_finger, List.length_append, htonl_length, length, size]
      exact free.le
    · dsimp only
      rw [size]
      exact sends.large
    · dsimp only
      rw [size]
      exact sends.small
    · dsimp only
      rw [size, wide]
      exact room
    · dsimp only
      rw [← length, List.take_left, stream]
    · dsimp only
      rw [← length]
      simp [List.drop_append, htonl_length]
    · intro now
      exact absurd (.inl now) stay

end Sends

end Svr4.Record
