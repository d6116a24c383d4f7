import Svr4.Library.Record.Sending
import Svr4.Library.Record.Receiving

/-! Records sent and received. What comes out is what went in, for any calls on
both sides and any pieces in between, as long as the_buffer is as large as both
buffers: xdrrec_create adds their sizes in 32 bits. -/

namespace Svr4.Record

/-- A call on the sending side: a long, some bytes, or an inline that its caller fills. -/
inductive Put where
  | long (l : Nat)
  | bytes (data : List Byte)
  | inline (data : List Byte)
  deriving DecidableEq, Repr

/-- The item that a call adds to the record; a refused inline adds none. -/
def Put.run : Put → Out → Option (Out × List Byte)
  | .long l, o => (o.putlong (htonl l)).map (·, htonl l)
  | .bytes data, o => (o.putbytes data).map (·, data)
  | .inline data, o => (o.inline data).map fun (o, given) => (o, if given then data else [])

def putAll : List Put → Out → Option (Out × List Byte)
  | [], o => some (o, [])
  | put :: puts, o => do
    let (o, item) ← put.run o
    let (o, items) ← putAll puts o
    some (o, item ++ items)

/-- The records one after the other, each with its sendnow, and what they hold. -/
def sendAll : List (List Put × Bool) → Out → Option (Out × List (List Byte))
  | [], o => some (o, [])
  | (puts, sendnow) :: rest, o => do
    let (o, content) ← putAll puts o
    let o ← o.endofrecord sendnow
    let (o, contents) ← sendAll rest o
    some (o, content :: contents)

/-- A call on the receiving side. -/
inductive Get where
  | skip
  | long
  | bytes (len : Nat)
  | inline (len : Nat)
  deriving DecidableEq, Repr

/-- The answer is none for FALSE or NULL. -/
def Get.run : Get → In → In × Option (List Byte)
  | .skip, i => (i.skiprecord.1, if i.skiprecord.2 then some [] else none)
  | .long, i => i.getlong
  | .bytes len, i => i.getbytes len
  | .inline len, i => i.inline len

def readAll : List Get → In → List (Get × Option (List Byte))
  | [], _ => []
  | get :: gets, i => (get, (get.run i).2) :: readAll gets (get.run i).1

/-- The answer to a read of len bytes of the current record. -/
def Reads (current : List Byte) (len : Nat) (answer : Option (List Byte)) : Prop :=
  answer = if len ≤ current.length then some (current.take len) else none

/-- What a reader of records is to see, given what is left of the current record
and the records behind it. A skip leads to the next record; a read past the end
fails and leaves nothing of the record; an inline may be refused. -/
def Allowed : List Byte → List (List Byte) → List (Get × Option (List Byte)) → Prop
  | _, _, [] => True
  | _, [], (.skip, _) :: _ => True
  | _, record :: behind, (.skip, answer) :: trace => answer = some [] ∧ Allowed record behind trace
  | current, behind, (.long, answer) :: trace => Reads current 4 answer ∧
      Allowed (if 4 ≤ current.length then current.drop 4 else []) behind trace
  | current, behind, (.bytes len, answer) :: trace => Reads current len answer ∧
      Allowed (if len ≤ current.length then current.drop len else []) behind trace
  | current, behind, (.inline len, answer) :: trace =>
      (answer = none ∧ Allowed current behind trace) ∨
      (len ≤ current.length ∧ answer = some (current.take len) ∧ Allowed (current.drop len) behind trace)

/-- The buffers lie in the_buffer, and a fragment leaves the top bit of its header. -/
def Fits (sendsize recvsize : Nat) : Prop :=
  sendsize < 2 ^ 31 ∧ recvsize < 2 ^ 31 ∧
    fixBufSize sendsize + fixBufSize recvsize + BYTES_PER_XDR_UNIT < 2 ^ 32

section Send

variable {o : Out} {done : List (List Byte)} {current : List Byte}

theorem Put.run_sends (sends : Sends o done current) (roomy : 8 ≤ o.sendsize) (put : Put) :
    ∃ o' item, put.run o = some (o', item) ∧ Sends o' done (current ++ item) ∧
      o'.sendsize = o.sendsize := by
  cases put with
  | long l =>
    obtain ⟨o', result, sends', size⟩ := sends.putlong (htonl_length l) roomy
    exact ⟨o', htonl l, by simp [Put.run, result], sends', size⟩
  | bytes data =>
    obtain ⟨o', result, sends', size⟩ := sends.putbytes data
    exact ⟨o', data, by simp [Put.run, result], sends', size⟩
  | inline data =>
    obtain ⟨o', given, result, sends', size⟩ := sends.inline data
    exact ⟨o', _, by simp [Put.run, result], sends', size⟩

theorem putAll_sends (puts : List Put) : ∀ (o : Out) (current : List Byte), Sends o done current →
    8 ≤ o.sendsize → ∃ o' content, putAll puts o = some (o', content) ∧
      Sends o' done (current ++ content) ∧ o'.sendsize = o.sendsize := by
  induction puts with
  | nil =>
    intro o current sends _
    exact ⟨o, [], rfl, by rwa [List.append_nil], rfl⟩
  | cons put puts ih =>
    intro o current sends roomy
    obtain ⟨o₁, item, first, sends₁, size₁⟩ := put.run_sends sends roomy
    obtain ⟨o', items, rest, sends', size'⟩ := ih o₁ (current ++ item) sends₁ (by omega)
    refine ⟨o', item ++ items, ?_, by rwa [← List.append_assoc], by omega⟩
    simp [putAll, first, rest]

/-- Everything so far is on the line. -/
def Sent (o : Out) (done : List (List Byte)) : Prop :=
  ∃ fs, Short fs ∧ o.written = frames fs ∧ records [] fs = (done, [])

theorem sendAll_sends (rest : List (List Put × Bool)) : ∀ (o : Out) (done : List (List Byte)),
    Sends o done [] → 8 ≤ o.sendsize → (rest = [] → Sent o done) →
    (∀ r, rest.getLast? = some r → r.2 = true) →
    ∃ o' contents, sendAll rest o = some (o', contents) ∧ Sent o' (done ++ contents) := by
  induction rest with
  | nil =>
    intro o done sends _ sent _
    exact ⟨o, [], rfl, by rw [List.append_nil]; exact sent rfl⟩
  | cons first rest ih =>
    intro o done sends roomy _ last
    obtain ⟨puts, sendnow⟩ := first
    obtain ⟨o₁, content, put, sends₁, size₁⟩ := putAll_sends puts o [] sends roomy
    obtain ⟨o₂, ended, sends₂, size₂, sent⟩ := sends₁.endofrecord sendnow
    rw [List.nil_append] at sends₂ sent
    have only : rest = [] → Sent o₂ (done ++ [content]) := by
      rintro rfl
      exact sent (last _ rfl)
    have last' : ∀ r, rest.getLast? = some r → r.2 = true := by
      intro r is
      refine last r ?_
      rw [List.getLast?_cons, is]
      rfl
    obtain ⟨o', contents, more, sent'⟩ := ih o₂ (done ++ [content]) sends₂ (by omega) only last'
    refine ⟨o', content :: contents, ?_, by rwa [List.append_cons]⟩
    simp [sendAll, put, ended, more]

end Send

theorem fixBufSize_bounds {s : Nat} (small : s < 2 ^ 31) :
    100 ≤ fixBufSize s ∧ fixBufSize s ≤ LAST_FRAG := by
  unfold fixBufSize RNDUP BYTES_PER_XDR_UNIT LAST_FRAG
  split <;> omega

variable {sendsize recvsize : Nat}

theorem create_sends (fits : Fits sendsize recvsize) :
    Sends (createOut sendsize recvsize) [] [] := by
  obtain ⟨small, -, whole⟩ := fits
  have bounds := fixBufSize_bounds small
  have room : bufferSize sendsize recvsize = fixBufSize sendsize + fixBufSize recvsize + BYTES_PER_XDR_UNIT :=
    Nat.mod_eq_of_lt whole
  refine ⟨le_rfl, ?_, ?_, bounds.2, ?_, [], [], fun f h => absurd h List.not_mem_nil, rfl, rfl, rfl⟩
  · change 4 ≤ fixBufSize sendsize
    omega
  · change 4 < fixBufSize sendsize
    omega
  · change fixBufSize sendsize ≤ bufferSize sendsize recvsize
    omega

theorem reads_on {current : List Byte} {behind : List (List Byte)} {len : Nat} {read : In × Option (List Byte)}
    (step : if len ≤ current.length then
        ∃ i', read = (i', some (current.take len)) ∧ Holds i' (current.drop len) behind
      else ∃ i', read = (i', none) ∧ Holds i' [] behind) :
    Reads current len read.2 ∧
      Holds read.1 (if len ≤ current.length then current.drop len else []) behind := by
  unfold Reads
  split at step
  · rename_i within
    obtain ⟨i', rfl, holds⟩ := step
    rw [if_pos within, if_pos within]
    exact ⟨rfl, holds⟩
  · rename_i beyond
    obtain ⟨i', rfl, holds⟩ := step
    rw [if_neg beyond, if_neg beyond]
    exact ⟨rfl, holds⟩

theorem readAll_allowed (gets : List Get) : ∀ (i : In) (current : List Byte) (behind : List (List Byte)),
    Holds i current behind → Allowed current behind (readAll gets i) := by
  induction gets with
  | nil =>
    intro i current behind _
    trivial
  | cons get gets ih =>
    intro i current behind holds
    cases get with
    | skip =>
      cases behind with
      | nil =>
        trivial
      | cons record behind =>
        obtain ⟨i', result, holds'⟩ := skiprecord_holds holds
        simp only [readAll, Get.run, result, Allowed, ↓reduceIte, true_and]
        exact ih i' record behind holds'
    | long =>
      obtain ⟨answered, after⟩ := reads_on (getlong_holds holds)
      simp only [readAll, Get.run, Allowed]
      exact ⟨answered, ih _ _ behind after⟩
    | bytes len =>
      obtain ⟨answered, after⟩ := reads_on (getbytes_holds holds len)
      simp only [readAll, Get.run, Allowed]
      exact ⟨answered, ih _ _ behind after⟩
    | inline len =>
      simp only [readAll, Get.run, Allowed, In.inline]
      split
      · rename_i fast
        obtain ⟨holds', front, fits⟩ := inline_holds holds len fast.1 fast.2
        exact .inr ⟨fits, congrArg some front, ih _ _ behind holds'⟩
      · exact .inl ⟨rfl, ih i current behind holds⟩

theorem create_holds (fits : Fits sendsize recvsize) {o : Out}
    {contents : List (List Byte)} (sent : Sent o contents) (pieces : Nat → Nat) :
    Holds (createIn sendsize recvsize o.written pieces) [] contents := by
  obtain ⟨fs, short, written, ended⟩ := sent
  have room : bufferSize sendsize recvsize = fixBufSize sendsize + fixBufSize recvsize + BYTES_PER_XDR_UNIT :=
    Nat.mod_eq_of_lt fits.2.2
  refine ⟨?_, [], fs, written, short, rfl, ?_⟩
  · change fixBufSize recvsize ≤ bufferSize sendsize recvsize - fixBufSize sendsize
    omega
  · simp only [createIn, ↓reduceIte]
    exact ⟨trivial, ended⟩

/-- Records sent by any calls are received as they were, by any calls and in any
pieces. -/
theorem record_round_trip {sendsize recvsize sendsize' recvsize' : Nat} (fits : Fits sendsize recvsize)
    (fits' : Fits sendsize' recvsize') (sending : List (List Put × Bool))
    (last : ∀ r, sending.getLast? = some r → r.2 = true) :
    ∃ o contents, sendAll sending (createOut sendsize recvsize) = some (o, contents) ∧
      ∀ (pieces : Nat → Nat) (gets : List Get),
        Allowed [] contents (readAll gets (createIn sendsize' recvsize' o.written pieces)) := by
  have bounds := fixBufSize_bounds fits.1
  have begun : Sent (createOut sendsize recvsize) [] :=
    ⟨[], fun f h => absurd h List.not_mem_nil, rfl, rfl⟩
  obtain ⟨o, contents, result, sent⟩ := sendAll_sends sending _ [] (create_sends fits)
    (by change 8 ≤ fixBufSize sendsize; omega) (fun _ => begun) last
  rw [List.nil_append] at sent
  exact ⟨o, contents, result, fun pieces gets => readAll_allowed gets _ [] contents (create_holds fits' sent pieces)⟩

/-- Two records through buffers of a hundred bytes. -/
theorem record_round_trip_two :
    ∃ o contents, sendAll [([.long 7, .bytes [1, 2, 3, 4]], false), ([.inline [5, 6, 7, 8]], true)]
        (createOut 100 100) = some (o, contents) ∧
      ∀ (pieces : Nat → Nat) (gets : List Get),
        Allowed [] contents (readAll gets (createIn 0 0 o.written pieces)) :=
  record_round_trip ⟨by decide, by decide, by decide⟩ ⟨by decide, by decide, by decide⟩ _
    (fun _ is => by cases is; rfl)

/-- Two sizes of 2 to the 31 ask for a buffer of four bytes, and the first long
is stored behind it. -/
theorem large_sizes_overrun :
    ¬ ∀ (sendsize recvsize sendsize' recvsize' : Nat), sendsize < 2 ^ 32 → recvsize < 2 ^ 32 →
      sendsize' < 2 ^ 32 → recvsize' < 2 ^ 32 → ∀ (sending : List (List Put × Bool)),
      (∀ r, sending.getLast? = some r → r.2 = true) →
      ∃ o contents, sendAll sending (createOut sendsize recvsize) = some (o, contents) ∧
        ∀ (pieces : Nat → Nat) (gets : List Get),
          Allowed [] contents (readAll gets (createIn sendsize' recvsize' o.written pieces)) := by
  intro all
  obtain ⟨o, contents, result, -⟩ := all (2 ^ 31) (2 ^ 31) 0 0 (by decide) (by decide) (by decide)
    (by decide) [([.long 7], true)] (fun r is => by cases is; rfl)
  have stopped : sendAll [([.long 7], true)] (createOut (2 ^ 31) (2 ^ 31)) = none := by decide
  rw [stopped] at result
  cases result

end Svr4.Record
