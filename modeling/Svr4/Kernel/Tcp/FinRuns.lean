import Svr4.Kernel.Tcp.FinPlace
import Svr4.Kernel.Tcp.Timers

/-! A FIN is taken behind the last byte of the stream, when the window cuts none off. -/

namespace Svr4.Tcp

open BitVec (ofNat)

/-! ## The stream of the peer -/

/-- The number of the first byte of a segment, behind its SYN. -/
def dataSeq (ti : Tcpiphdr) : Seq := ti.seq + if ti.flags.syn then 1 else 0

/-- What a segment carries is of the stream: its SYN in front, and its FIN behind the last byte. -/
def Consistent (irs : Seq) (stream : List UInt8) (ti : Tcpiphdr) : Prop :=
  (ti.flags.syn = true → ti.seq = irs) ∧
  (ti.len ≠ 0 ∨ ti.flags.fin = true → ∃ offset, dataSeq ti = irs + 1 + ofNat 32 offset ∧
    ti.msg.bytes <+: stream.drop offset ∧ (ti.flags.fin = true → offset + ti.len = stream.length))

/-- The number of the FIN. -/
def finSeq (irs : Seq) (stream : List UInt8) : Seq := irs + 1 + ofNat 32 stream.length

/-- The window for a segment that arrives. -/
def room (c : Tcpcb) : Int := max (recvwin c) (Seq.ahead c.rcvAdv c.rcvNxt)

/-- How much of a segment was received before. -/
def received (c : Tcpcb) (ti : Tcpiphdr) : Int := max 0 (Seq.ahead c.rcvNxt ti.seq - if ti.flags.syn then 1 else 0)

/-- How far a segment goes beyond an edge of the window. -/
def beyond (c : Tcpcb) (window : Int) (ti : Tcpiphdr) : Int :=
  Seq.ahead (dataSeq ti + ofNat 32 ti.len) (c.rcvNxt + BitVec.ofInt 32 window)

/-- The window cuts off the FIN, with a part of the data that are new. -/
def CutsFin (c : Tcpcb) (ti : Tcpiphdr) : Prop :=
  ti.flags.fin = true ∧ c.tState ≠ .closed ∧
    if c.tState = .listen ∨ c.tState = .synSent then 0 < room c ∧ room c < ti.len
    else 0 < beyond c (room c) ti ∧ beyond c (room c) ti < ti.len - received c ti

variable {stream : List UInt8} {irs : Seq} {c : Tcpcb}

theorem Consistent.ends {ti : Tcpiphdr} (consistent : Consistent irs stream ti)
    (fin : ti.flags.fin = true) : dataSeq ti + ofNat 32 ti.len = finSeq irs stream := by
  obtain ⟨offset, start, -, last⟩ := consistent.2 (.inr fin)
  rw [start, finSeq, ← last fin, BitVec.add_assoc, ← BitVec.ofNat_add]

/-! ## Stages -/

/-- The FIN of the segment that is worked on is in its place. -/
def Placed (place : Seq) (w : Work) : Prop := w.ti.len ≠ 0 ∨ w.tiflags.fin = true → EndsAt place w.ti

/-- A stage keeps the places, whether it hands on or ends. -/
def Keeps (irs place : Seq) (next : Work → Tcpcb → Prop) : Stage → Prop :=
  Stage.Gives (fun w c => Sequenced irs place c ∧ next w c) fun c _ => Sequenced irs place c

section
variable {irs place : Seq} {env : Env} {ti : Tcpiphdr} {w : Work} {c : Tcpcb} {next next' : Work → Tcpcb → Prop}
  {n : Nat}

theorem Keeps.bind {x : Stage} {f : Work × Tcpcb → Stage} (first : Keeps irs place next x)
    (second : ∀ w c, Sequenced irs place c → next w c → Keeps irs place next' (f (w, c))) : Keeps irs place next' (x >>= f) :=
  Stage.Gives.bind first fun w c kept => second w c kept.1 kept.2

theorem dropSegment_keeps (kept : Sequenced irs place c) : Keeps irs place next (.error (dropSegment w c)) :=
  kept.aside ⟨fun _ => id, rfl, rfl, id, id⟩

theorem dropAfterAck_keeps (kept : Sequenced irs place c) : Keeps irs place next (.error (dropAfterAck w c)) := by
  unfold dropAfterAck
  split
  · exact dropSegment_keeps kept
  · exact kept.aside ⟨fun _ => id, rfl, rfl, id, id⟩

theorem tcpClose_aside (c : Tcpcb) : Aside c (tcpClose c) := ⟨List.forall_mem_nil _, rfl, rfl, id, id⟩

theorem closed_aside (c : Tcpcb) : Aside c (c.sending toClosed) := .sending nofun nofun

theorem tcpDrop_aside (c : Tcpcb) : Aside c (tcpDrop c) := by
  unfold tcpDrop
  split
  · exact (closed_aside c).trans (tcpClose_aside _)
  · exact tcpClose_aside c

/-! ### The window -/

/-- What is left of a segment, once what was received before is dropped. -/
structure Trimmed (c : Tcpcb) (ti : Tcpiphdr) (w : Work) : Prop where
  fin : w.ti.flags.fin = ti.flags.fin
  last : w.ti.len ≠ 0 ∨ w.tiflags.fin = true → w.ti.seq + ofNat 32 w.ti.len = dataSeq ti + ofNat 32 ti.len
  len : w.ti.len = 0 ∨ (w.ti.len : Int) = ti.len - received c ti

theorem dropFront_len (within : n ≤ w.ti.len) : (dropFront n w).ti.len = w.ti.len - n := msgdsize_front within

theorem trimSome_keeps (kept : Sequenced irs place c) (fin : w.ti.flags.fin = ti.flags.fin) (size : w.ti.len = ti.len)
    (last : w.ti.seq + ofNat 32 w.ti.len = dataSeq ti + ofNat 32 ti.len) (before : received c ti = n) :
    Keeps irs place (fun w' c' => c'.toReceiver = c.toReceiver ∧ Trimmed c ti w') (trimSome n w c) := by
  unfold trimSome
  split
  · split
    · -- Nothing is left.
      have none : (dropFront w.ti.len (dropFin w)).ti.len = 0 := (dropFront_len (w := dropFin w) (le_refl _)).trans (Nat.sub_self _)
      refine ⟨kept.aside ⟨fun _ => id, rfl, rfl, id, id⟩, rfl, fin, fun some => ?_, .inl none⟩
      rcases some with some | some
      · exact absurd none some
      · cases some
    · exact dropAfterAck_keeps kept
  · next inside =>
    have within : n ≤ w.ti.len := by omega
    refine ⟨kept, rfl, fin, fun _ => (end_front within).trans last, .inr ?_⟩
    rw [dropFront_len within, size, before]
    omega

theorem trimLeft_keeps (kept : Sequenced irs place c) (arrived : w = ⟨ti, ti.flags, false⟩) :
    Keeps irs place (fun w' c' => c'.toReceiver = c.toReceiver ∧ (w'.tiflags.syn = false → Trimmed c ti w')) (trimLeft w c) := by
  subst arrived
  unfold trimLeft
  simp only []
  split
  · next early =>
    refine ⟨kept, rfl, fun data => ⟨rfl, fun _ => ?_, .inr ?_⟩⟩
    · have data : ti.flags.syn = false := data
      simp [dataSeq, data]
    · have data : ti.flags.syn = false := data
      simp [received, data, early]
  · next late =>
    split
    · next syn =>
      have syn : ti.flags.syn = true := syn
      obtain ⟨n, same⟩ := Int.eq_ofNat_of_zero_le (show 0 ≤ Seq.ahead c.rcvNxt ti.seq - 1 by omega)
      have last : ti.seq + 1 + ofNat 32 ti.len = dataSeq ti + ofNat 32 ti.len := by rw [dataSeq, if_pos syn]
      have before : received c ti = n := by
        rw [received, if_pos syn]
        omega
      have trims : Keeps irs place (fun w' c' => c'.toReceiver = c.toReceiver ∧ Trimmed c ti w')
          (trimSome n (dropSyn ⟨ti, ti.flags, false⟩) c) := trimSome_keeps kept rfl rfl last before
      rw [same]
      exact trims.imp (fun _ _ handed => ⟨handed.1, handed.2.1, fun _ => handed.2.2⟩) fun _ _ => id
    · next data =>
      obtain ⟨n, same⟩ := Int.eq_ofNat_of_zero_le (show 0 ≤ Seq.ahead c.rcvNxt ti.seq by omega)
      have last : ti.seq + ofNat 32 ti.len = dataSeq ti + ofNat 32 ti.len := by simp [dataSeq, data]
      have before : received c ti = n := by
        rw [received, if_neg data]
        omega
      have trims : Keeps irs place (fun w' c' => c'.toReceiver = c.toReceiver ∧ Trimmed c ti w') (trimSome n ⟨ti, ti.flags, false⟩ c) :=
        trimSome_keeps kept rfl rfl last before
      rw [same]
      exact trims.imp (fun _ _ handed => ⟨handed.1, handed.2.1, fun _ => handed.2.2⟩) fun _ _ => id

theorem afterClose_keeps {c₀ : Tcpcb} (kept : Sequenced irs place c) (same : c.toReceiver = c₀.toReceiver)
    (trimmed : w.tiflags.syn = false → Trimmed c₀ ti w) :
    Keeps irs place (fun w' c' => c'.toReceiver = c₀.toReceiver ∧ (w'.tiflags.syn = false → Trimmed c₀ ti w')) (afterClose w c) := by
  unfold afterClose
  split
  · exact dropSegment_keeps (kept.aside (tcpClose_aside c))
  · exact ⟨kept, same, trimmed⟩

theorem dropBack_len (within : n ≤ w.ti.len) (positive : 0 < n) : (dropBack n w).ti.len = w.ti.len - n :=
  msgdsize_back within positive

theorem trimRight_keeps (kept : Sequenced irs place c) (trimmed : w.tiflags.syn = false → Trimmed c ti w)
    (ends : ti.flags.fin = true → dataSeq ti + ofNat 32 ti.len = place)
    (uncut : ti.flags.fin = true → ¬ (0 < beyond c c.rcvWnd ti ∧ beyond c c.rcvWnd ti < ti.len - received c ti)) :
    Keeps irs place (fun w' _ => w'.tiflags.syn = false → Placed place w') (trimRight w c) := by
  unfold trimRight
  simp only []
  split
  · exact ⟨kept, fun data some fin => ((trimmed data).last some).trans (ends ((trimmed data).fin ▸ fin))⟩
  · next past =>
    split
    · next most =>
      split
      · next shut =>
        -- The window is closed: no data are left.
        refine ⟨kept.aside ⟨fun _ => id, rfl, rfl, id, id⟩, fun _ some => ?_⟩
        have edge : Seq.ahead (w.ti.seq + ofNat 32 w.ti.len) (c.rcvNxt + BitVec.ofInt 32 c.rcvWnd) ≤ w.ti.len := by
          have := Seq.ahead_add_le (a := w.ti.seq) (b := c.rcvNxt) w.ti.len
          rw [shut.2, Seq.ahead_self] at this
          rw [shut.1, shut.2]
          simpa using this
        have all := le_antisymm edge most
        rw [all] at some past
        have none := dropBack_len (w := w) (le_refl _) (by omega)
        rw [Nat.sub_self] at none
        rcases some with some | some
        · exact absurd none some
        · cases some
      · exact dropAfterAck_keeps kept
    · next part =>
      refine ⟨kept, fun data some fin => ?_⟩
      have left := trimmed data
      have fin : ti.flags.fin = true := left.fin ▸ fin
      have last := left.last (.inl (by omega))
      rw [last] at past part
      have size : (w.ti.len : Int) = ti.len - received c ti := left.len.resolve_left (by omega)
      refine absurd ⟨?_, ?_⟩ (uncut fin)
      · unfold beyond
        omega
      · unfold beyond
        omega

/-! ### The states -/

theorem rstStage_keeps (kept : Sequenced irs place c) (holds : w.tiflags.syn = false → Placed place w) :
    Keeps irs place (fun w' _ => w'.tiflags.syn = false → Placed place w') (rstStage w c) := by
  have closed : Keeps irs place (fun w' _ => w'.tiflags.syn = false → Placed place w') (.error (dropSegment w (tcpClose (c.sending toClosed)))) :=
    dropSegment_keeps (kept.aside ((closed_aside c).trans (tcpClose_aside _)))
  unfold rstStage
  split
  · split
    all_goals first
      | exact closed
      | exact ⟨kept, holds⟩
  · exact ⟨kept, holds⟩

theorem synStage_keeps (kept : Sequenced irs place c) (holds : w.tiflags.syn = false → Placed place w) :
    Keeps irs place (fun w' _ => Placed place w') (synStage w c) := by
  unfold synStage
  split
  · exact dropSegment_keeps (kept.aside (tcpDrop_aside c))
  · next data =>
    split
    · exact dropSegment_keeps kept
    · exact ⟨kept, holds (Bool.eq_false_iff.mpr data)⟩

theorem Sequenced.presented {c' : Tcpcb} {ups : List Upstream} {fin : Bool} (kept : Sequenced irs place c)
    (early : c.tState.havercvdfin = false) (done : present ups c = some (fin, c')) : Sequenced irs place c' := by
  have state : c'.tState = c.tState := congrArg Sender.tState (present_toSender done)
  obtain ⟨-, waiting, same, -⟩ := present_fin kept.segs done
  refine ⟨waiting, fun fin => ?_, fun syn => same.trans (kept.irs (state ▸ syn))⟩
  rw [state, early] at fin
  cases fin

theorem clipMaxseg_tState (route : Option Route) (s : Sender) : (clipMaxseg route s).tState = s.tState := by
  obtain ⟨_, _, same⟩ := clipMaxseg_eq route s
  rw [same]

theorem synReceivedStage_keeps (kept : Sequenced irs place c) (placed : Placed place w) :
    Keeps irs place (fun w' _ => Placed place w') (synReceivedStage env w c) := by
  unfold synReceivedStage
  split
  · next state =>
    split
    · exact dropSegment_keeps kept
    · split
      · exact dropSegment_keeps kept
      · have opened : Sequenced irs place (c.sending fun s => clipMaxseg env.route { s with tState := .established }) := by
          refine kept.aside (.sending ?_ fun _ => by rw [state]; rfl)
          rw [clipMaxseg_tState env.route]
          nofun
        split
        · exact kept
        · next done =>
          refine ⟨(opened.presented ?_ done).aside ⟨fun _ => id, rfl, rfl, id, id⟩, placed⟩
          rw [Tcpcb.sending_toSender, clipMaxseg_tState env.route]
          rfl
  · exact ⟨kept, placed⟩

theorem finDone_aside (c : Tcpcb) (cantrcvmore : Bool) : Aside c (c.sending (finDone cantrcvmore)) := by
  have moved (s : Sender) : ((finDone cantrcvmore s).tState.havercvdfin = true → s.tState.havercvdfin = true) ∧
      ((finDone cantrcvmore s).tState.havercvdsyn = true → s.tState.havercvdsyn = true) := by
    unfold finDone
    split <;> rename_i state
    · exact ⟨nofun, fun _ => by rw [state]; rfl⟩
    · exact ⟨fun _ => by rw [state]; rfl, fun _ => by rw [state]; rfl⟩
    · exact ⟨nofun, nofun⟩
    · exact ⟨id, id⟩
  exact .sending (moved c.toSender).1 (moved c.toSender).2

theorem dupAck_keeps (kept : Sequenced irs place c) (placed : Placed place w) : Keeps irs place (fun w' _ => Placed place w') (dupAck w c) := by
  have counted (n : Nat) : Keeps irs place (fun w' _ => Placed place w') (.ok (w, { c with tDupacks := n })) :=
    ⟨kept.aside ⟨fun _ => id, rfl, rfl, id, id⟩, placed⟩
  unfold dupAck
  split
  · split
    · exact counted 0
    · split
      · split
        · exact kept
        · exact kept.aside ⟨fun _ => id, rfl, rfl, id, id⟩
      · exact counted (c.tDupacks + 1)
  · exact counted 0

theorem ackStage_keeps (kept : Sequenced irs place c) (placed : Placed place w) : Keeps irs place (fun w' _ => Placed place w') (ackStage w c) := by
  unfold ackStage
  split
  · exact dupAck_keeps kept placed
  · split
    · exact dropAfterAck_keeps (kept.aside ⟨fun _ => id, rfl, rfl, id, id⟩)
    · have acked : Sequenced irs place (c.sending (newAck w.ti.ack)) := kept.aside (.state (newAck_tState w.ti.ack c.toSender))
      simp only []
      split
      · exact dropAfterAck_keeps (acked.aside ⟨fun _ => id, rfl, rfl, id, id⟩)
      · split
        · have done := acked.aside (finDone_aside (c.sending (newAck w.ti.ack)) c.cantrcvmore)
          split
          · exact dropSegment_keeps (done.aside (tcpClose_aside _))
          · exact ⟨done, placed⟩
        · exact ⟨acked, placed⟩

/-! ### From `step6:` on -/

theorem windowUpdate_keeps (kept : Sequenced irs place c) (placed : Placed place w) :
    Sequenced irs place (windowUpdate w c).2 ∧ Placed place (windowUpdate w c).1 := by
  unfold windowUpdate
  split
  · exact ⟨kept.aside ⟨fun _ => id, rfl, rfl, id, id⟩, placed⟩
  · exact ⟨kept, placed⟩

theorem urgent_keeps (kept : Sequenced irs place c) (placed : Placed place w) :
    Sequenced irs place (urgent w c).2 ∧ Placed place (urgent w c).1 := by
  unfold urgent
  split
  · exact ⟨kept.aside ⟨fun _ => id, rfl, rfl, id, id⟩, placed⟩
  · exact ⟨kept.aside ⟨fun _ => id, rfl, rfl, id, id⟩, placed⟩

theorem textStage_keeps (kept : Sequenced irs place c) (placed : Placed place w) :
    Keeps irs place (fun w' c' => w'.tiflags.fin = true → c'.rcvNxt = place ∧ c'.tState.havercvdfin = false) (textStage env w c) := by
  unfold textStage
  split
  · next some =>
    have early : c.tState.havercvdfin = false := by simpa using some.2
    split
    · exact kept
    · next fin c' done =>
      have state : c'.tState = c.tState := congrArg Sender.tState (reass_toSender done)
      obtain ⟨taken, waiting, same, -⟩ := reass_fin kept.segs (placed some.1) done
      refine ⟨⟨waiting, fun fin => ?_, fun syn => same.trans (kept.irs (state ▸ syn))⟩, fun fin => ⟨taken fin, state ▸ early⟩⟩
      have fin : c'.tState.havercvdfin = true := fin
      rw [state, early] at fin
      cases fin
  · exact ⟨kept.aside ⟨fun _ => id, rfl, rfl, id, id⟩, nofun⟩

theorem finReceived_syn (s : Sender) : (finReceived s).tState.havercvdsyn = true → s.tState.havercvdsyn = true := by
  unfold finReceived
  split <;> rename_i state
  all_goals first
    | exact id
    | exact fun _ => by rw [state]; rfl

theorem finStage_keeps (kept : Sequenced irs place c)
    (fin : w.tiflags.fin = true → c.rcvNxt = place ∧ c.tState.havercvdfin = false) : Sequenced irs place (finStage w c) := by
  unfold finStage
  split
  · next taken =>
    obtain ⟨next, early⟩ := fin taken
    rw [early]
    exact ⟨kept.segs, fun _ => congrArg (· + 1) next, fun syn => kept.irs (finReceived_syn c.toSender syn)⟩
  · exact kept

theorem step6_keeps (kept : Sequenced irs place c) (placed : Placed place w) : Keeps irs place (fun _ _ => True) (step6 env w c) := by
  have updated := windowUpdate_keeps kept placed
  have pointed := urgent_keeps updated.1 updated.2
  exact (textStage_keeps pointed.1 pointed.2).bind fun w c kept fin => ⟨finStage_keeps kept fin, trivial⟩

/-! ### A segment -/

theorem arrive_aside (c : Tcpcb) : Aside c (arrive c) := ⟨fun _ => id, rfl, rfl, id, id⟩

theorem beforeAck_keeps (kept : Sequenced irs place c) (arrived : w = ⟨ti, ti.flags, false⟩)
    (ends : ti.flags.fin = true → dataSeq ti + ofNat 32 ti.len = place)
    (uncut : ti.flags.fin = true → ¬ (0 < beyond c c.rcvWnd ti ∧ beyond c c.rcvWnd ti < ti.len - received c ti)) :
    Keeps irs place (fun w' _ => Placed place w') (beforeAck env w c) := by
  refine (trimLeft_keeps kept arrived).bind fun w₁ c₁ kept₁ left => ?_
  refine (afterClose_keeps kept₁ left.1 left.2).bind fun w₂ c₂ kept₂ ⟨same, left⟩ => ?_
  have window : c₂.rcvWnd = c.rcvWnd := congrArg Receiver.rcvWnd same
  have nxt : c₂.rcvNxt = c.rcvNxt := congrArg Receiver.rcvNxt same
  have before : received c₂ ti = received c ti := by rw [received, received, nxt]
  have past : beyond c₂ c₂.rcvWnd ti = beyond c c.rcvWnd ti := by rw [beyond, beyond, nxt, window]
  refine (trimRight_keeps kept₂ (fun data => ⟨(left data).fin, (left data).last, before ▸ (left data).len⟩) ends ?_).bind
    fun w₃ c₃ kept₃ right => ?_
  · rw [before, past]
    exact uncut
  · refine (rstStage_keeps kept₃ right).bind fun w₄ c₄ kept₄ right => ?_
    exact (synStage_keeps kept₄ right).bind fun w₅ c₅ kept₅ placed => synReceivedStage_keeps kept₅ placed

theorem synchronized_keeps (kept : Sequenced irs place c) (arrived : w = ⟨ti, ti.flags, false⟩)
    (ends : ti.flags.fin = true → dataSeq ti + ofNat 32 ti.len = place)
    (uncut : ti.flags.fin = true → ¬ (0 < beyond c c.rcvWnd ti ∧ beyond c c.rcvWnd ti < ti.len - received c ti)) :
    Keeps irs place (fun w' _ => Placed place w') (synchronized env w c) := by
  refine (beforeAck_keeps kept arrived ends uncut).bind fun w₁ c₁ kept₁ placed => ?_
  simp only []
  split
  · exact ackStage_keeps kept₁ placed
  · exact ⟨kept₁, placed⟩

theorem synTimed_tState (s : Sender) : (synTimed s).tState = s.tState := by
  unfold synTimed
  split
  · rfl
  · rfl

/-- A SYN: the window cuts its data, or nothing. -/
theorem trimThenStep6_keeps (kept : Sequenced irs place c) (syn : w.ti.flags.syn = true) (nonneg : 0 ≤ c.rcvWnd)
    (ends : w.ti.flags.fin = true → dataSeq w.ti + ofNat 32 w.ti.len = place)
    (uncut : w.ti.flags.fin = true → ¬ (0 < c.rcvWnd ∧ c.rcvWnd < w.ti.len)) :
    Keeps irs place (fun w' _ => Placed place w') (trimThenStep6 w c) := by
  rw [dataSeq, if_pos syn] at ends
  unfold trimThenStep6
  refine ⟨kept.aside ⟨fun _ => id, rfl, rfl, id, id⟩, ?_⟩
  split
  · next past =>
    have past : c.rcvWnd < w.ti.len := past
    intro some fin
    have shut : c.rcvWnd = 0 := by
      by_contra opened
      exact uncut fin ⟨by omega, past⟩
    have none : msgdsize (adjmsg w.ti.msg (c.rcvWnd - w.ti.len)) = 0 := by
      have size := msgdsize_back (n := w.ti.len) (m := w.ti.msg) (le_refl _) (by omega)
      rw [shut, zero_sub, size]
      exact Nat.sub_self _
    rcases some with some | some
    · exact absurd none some
    · cases some
  · exact fun _ => ends

theorem room_nonneg (c : Tcpcb) : 0 ≤ room c := le_max_of_le_left (le_max_left _ _)

theorem listenStage_keeps (kept : Sequenced irs place c) (arrived : w = ⟨ti, ti.flags, false⟩)
    (nonneg : 0 ≤ c.rcvWnd) (start : ti.flags.syn = true → ti.seq = irs)
    (ends : ti.flags.fin = true → dataSeq ti + ofNat 32 ti.len = place)
    (uncut : ti.flags.fin = true → ¬ (0 < c.rcvWnd ∧ c.rcvWnd < ti.len)) :
    Keeps irs place (fun w' _ => Placed place w') (listenStage env w c) := by
  subst arrived
  unfold listenStage
  split
  · exact dropSegment_keeps (kept.aside (tcpDrop_aside c))
  · next opened =>
    have syn : ti.flags.syn = true := by simp_all
    split
    · exact kept
    · simp only []
      rw [start syn]
      exact trimThenStep6_keeps ⟨kept.segs, nofun, fun _ => rfl⟩ syn nonneg ends uncut

theorem synSentStage_keeps (kept : Sequenced irs place c) (state : c.tState = .synSent) (arrived : w = ⟨ti, ti.flags, false⟩)
    (nonneg : 0 ≤ c.rcvWnd) (start : ti.flags.syn = true → ti.seq = irs)
    (ends : ti.flags.fin = true → dataSeq ti + ofNat 32 ti.len = place)
    (uncut : ti.flags.fin = true → ¬ (0 < c.rcvWnd ∧ c.rcvWnd < ti.len)) :
    Keeps irs place (fun w' _ => Placed place w') (synSentStage env w c) := by
  subst arrived
  have dropped : Sequenced irs place (if ti.flags.ack then tcpDrop c else c) := by
    split
    · exact kept.aside (tcpDrop_aside c)
    · exact kept
  have early : c.tState.havercvdfin = false := by rw [state]; rfl
  unfold synSentStage
  split
  · exact dropSegment_keeps kept
  · split
    · exact dropSegment_keeps dropped
    · split
      · exact dropSegment_keeps kept
      · next opened =>
        have syn : ti.flags.syn = true := by simpa using opened
        simp only []
        rw [start syn]
        split
        · split
          · exact ⟨kept.segs, fun fin => Bool.noConfusion (early.symm.trans fin), fun _ => rfl⟩
          · next c' done =>
            have settled : (clipMaxseg env.route (synAcked ti.ack c.toSender)).tState.havercvdfin = false := by
              rw [clipMaxseg_tState]
              rfl
            have acked : Sequenced irs place (({ tcpRcvseqinit irs c with acknow := true } : Tcpcb).sending fun s =>
                clipMaxseg env.route (synAcked ti.ack s)) :=
              ⟨kept.segs, fun fin => Bool.noConfusion (settled.symm.trans fin), fun _ => rfl⟩
            have up := acked.presented settled done
            have window : c'.rcvWnd = c.rcvWnd := (present_fin acked.segs done).2.2.2
            rw [← window] at nonneg uncut
            exact trimThenStep6_keeps (up.aside (.state (synTimed_tState _))) syn nonneg ends uncut
        · exact trimThenStep6_keeps ⟨kept.segs, nofun, fun _ => rfl⟩ syn nonneg ends uncut

theorem byState_keeps (kept : Sequenced irs place c) (arrived : w = ⟨ti, ti.flags, false⟩) (opened : c.tState ≠ .closed)
    (start : ti.flags.syn = true → ti.seq = irs) (ends : ti.flags.fin = true → dataSeq ti + ofNat 32 ti.len = place)
    (uncut : ¬ CutsFin c ti) : Keeps irs place (fun w' _ => Placed place w') (byState env w c) := by
  unfold byState
  split
  · next state =>
    refine listenStage_keeps (kept.aside (arrive_aside c)) arrived (room_nonneg c) start ends fun fin cut => uncut ⟨fin, opened, ?_⟩
    rw [if_pos (.inl state)]
    exact cut
  · next listens =>
    split
    · exact kept
    · next s reads scanned =>
      obtain ⟨m, v, same⟩ := tcpDooptions_eq scanned
      have state : s.tState = c.tState := by rw [same]
      have options : Aside c { c with toSender := s } := .state (f := fun _ => s) state
      have ready := kept.aside (options.trans (arrive_aside _))
      split
      · next sent =>
        refine synSentStage_keeps ready (state.trans sent) arrived (room_nonneg c) start ends fun fin cut => uncut ⟨fin, opened, ?_⟩
        rw [if_pos (.inr sent)]
        exact cut
      · next later =>
        refine synchronized_keeps ready arrived ends fun fin cut => uncut ⟨fin, opened, ?_⟩
        rw [if_neg (by rintro (listening | sent); exacts [listens listening, later sent])]
        exact cut

theorem tcpUinput_keeps {stream : List UInt8} (kept : Sequenced irs (finSeq irs stream) c) (consistent : Consistent irs stream ti)
    (uncut : ¬ CutsFin c ti) : Sequenced irs (finSeq irs stream) (tcpUinput env ti c).1 := by
  unfold tcpUinput
  simp only []
  split
  · exact kept.aside ⟨fun _ => id, rfl, rfl, id, id⟩
  · split
    · exact kept.aside ⟨fun _ => id, rfl, rfl, id, id⟩
    · next opened =>
      have staged : Keeps irs (finSeq irs stream) (fun _ _ => True) (stages env ⟨ti, ti.flags, false⟩ c) :=
        (byState_keeps kept rfl opened consistent.1 consistent.ends uncut).bind fun _ _ kept placed => step6_keeps kept placed
      split
      · next ended result =>
        rw [result] at staged
        exact staged
      · next w c result =>
        rw [result] at staged
        exact staged.1

end

/-! ## Other events -/

section
variable {c c' : Tcpcb} {route : Option Route}

theorem tcpDropNow_aside (c : Tcpcb) : Aside c (tcpDropNow c).1 := by
  unfold tcpDropNow
  split
  · exact closed_aside c
  · exact tcpClose_aside c

theorem tcpUsrclosed_aside (c : Tcpcb) : Aside c (c.sending tcpUsrclosed) := by
  have moved (s : Sender) : ((tcpUsrclosed s).tState.havercvdfin = true → s.tState.havercvdfin = true) ∧
      ((tcpUsrclosed s).tState.havercvdsyn = true → s.tState.havercvdsyn = true) := by
    unfold tcpUsrclosed
    split <;> rename_i state
    · exact ⟨nofun, fun _ => by rw [state]; rfl⟩
    · exact ⟨fun _ => by rw [state]; rfl, fun _ => by rw [state]; rfl⟩
    · exact ⟨id, id⟩
  exact .sending (moved c.toSender).1 (moved c.toSender).2

theorem tcpDisconnect_aside (c : Tcpcb) : Aside c (tcpDisconnect c).1 := by
  unfold tcpDisconnect
  split
  · exact tcpClose_aside c
  · split
    · exact tcpDropNow_aside c
    · exact tcpUsrclosed_aside c

theorem tcpclose_aside (c : Tcpcb) : Aside c (tcpclose c).1 := by
  have marked : Aside c { c with nofdref := true, cantrcvmore := true } := ⟨fun _ => id, rfl, rfl, id, id⟩
  unfold tcpclose
  simp only []
  split
  · exact marked.trans (tcpDisconnect_aside _)
  · exact marked.trans (tcpClose_aside _)

theorem tcpTimers_aside (t : Timer) (c : Tcpcb) : Aside c (tcpTimers t c).1 := by
  have backed (s : Sender) : (backOff s).tState = s.tState := by
    unfold backOff
    simp only []
    split
    · rfl
    · rfl
  cases t with
  | rexmt =>
    unfold tcpTimers rexmtTimer
    simp only []
    split
    · have counted : Aside c { c with tRxtshift := tcpMaxrxtshift } := ⟨fun _ => id, rfl, rfl, id, id⟩
      exact counted.trans (tcpDropNow_aside _)
    · split
      · exact .state (backed c.toSender)
      · exact ⟨fun _ => id, rfl, rfl, fun fin => backed c.toSender ▸ fin, fun syn => backed c.toSender ▸ syn⟩
  | persist =>
    unfold tcpTimers
    simp only []
    split
    · exact .refl c
    · exact ⟨fun _ => id, rfl, rfl, id, id⟩
  | keep =>
    unfold tcpTimers keepTimer
    simp only []
    split
    · exact tcpDropNow_aside c
    · split
      · split
        · exact tcpDropNow_aside c
        · exact ⟨fun _ => id, rfl, rfl, id, id⟩
      · exact ⟨fun _ => id, rfl, rfl, id, id⟩
  | msl2 =>
    unfold tcpTimers msl2Timer
    simp only []
    split
    · exact ⟨fun _ => id, rfl, rfl, id, id⟩
    · exact ⟨List.forall_mem_nil _, rfl, rfl, fun fin => (by cases fin), fun syn => (by cases syn)⟩

theorem tick_aside (t : Timer) (c : Tcpcb) : Aside c (tick t c).1 := by
  have set (n : Nat) : Aside c (c.sending (setTimer t n)) := by
    cases t with
    | _ => exact ⟨fun _ => id, rfl, rfl, id, id⟩
  unfold tick
  split
  · exact .refl c
  · split
    · exact (set 0).trans (tcpTimers_aside t _)
    · exact set _

theorem handle_aside (e : Event) (c : Tcpcb) (other : ∀ env ti, e ≠ .segment env ti) : Aside c (handle e c).1 := by
  unfold handle
  split
  · exact .refl c
  · cases e with
    | segment env ti => exact absurd rfl (other env ti)
    | output | data | exdata | flush | accept | slowtimo | quench => exact ⟨fun _ => id, rfl, rfl, id, id⟩
    | connect iss =>
      simp only []
      split
      · exact .sending nofun nofun
      · exact .refl c
    | ordrel => exact tcpDisconnect_aside c
    | close => exact tcpclose_aside c
    | detach linger =>
      simp only []
      split
      · refine .state ?_
        unfold detach
        split
        · rfl
        · rfl
      · exact .refl c
    | lingertimer | fasttimo =>
      simp only []
      split
      · exact ⟨fun _ => id, rfl, rfl, id, id⟩
      · exact .refl c
    | tick t => exact tick_aside t c
    | deqdata ups =>
      simp only []
      split
      · exact .refl c
      · exact ⟨fun _ => id, rfl, rfl, id, id⟩

theorem pass_aside (alloc : List Bool) (idle : Bool) (c₁ : Tcpcb) (aside : Aside c c₁) :
    (pass alloc route idle c₁).1.Leaves (fun c' _ => Aside c c') (Aside c) := by
  have worked {c₂ : Tcpcb} (works : Worked c₁.toSender c₂.toSender) (same : c₂.toReceiver = c₁.toReceiver) : Aside c c₂ := by
    refine aside.trans ⟨fun q member => ?_, congrArg Receiver.rcvNxt same, congrArg Receiver.irs same, fun fin => works.state ▸ fin,
      fun syn => works.state ▸ syn⟩
    rwa [same] at member
  have shape := pass_of alloc route idle c₁
  generalize (pass alloc route idle c₁).1 = result at shape ⊢
  cases shape with
  | idle => exact worked ((planned_worked c₁).trans (startPersist_worked _)) rfl
  | waits => exact worked (planned_worked c₁) rfl
  | panicked => trivial
  | unopened => exact worked (readied_worked route c₁) rfl
  | @unsent data => exact worked (transmitted_worked route data.length c₁) rfl
  | @sent data _ _ =>
    have last : Aside (transmitted route data.length c₁) (finished route data c₁) := ⟨fun _ => id, rfl, rfl, id, id⟩
    have moved := (worked (transmitted_worked route data.length c₁) rfl).trans last
    cases (planOf c₁).sendalot with
    | false => exact moved
    | true => exact moved

theorem outputs_aside {alloc : List Bool} {failed : Bool} (done : Outputs alloc route c (.returned c' failed)) :
    Aside c c' :=
  outputs_keeps pass_aside (.refl c) done

theorem ends_aside {call : Call} {after : After} (ended : Ends call c after c') : Aside c c' := by
  cases after with
  | moreinput =>
    cases ended
    exact .refl c
  | output =>
    obtain ⟨failed, done⟩ := ended
    exact outputs_aside done
  | resend onxt =>
    obtain ⟨failed, c₁, done, rfl⟩ := ended
    refine (outputs_aside done).trans ?_
    split
    · exact ⟨fun _ => id, rfl, rfl, id, id⟩
    · exact .refl c₁
  | close =>
    obtain ⟨failed, c₁, done, rfl⟩ := ended
    exact (outputs_aside done).trans (tcpClose_aside c₁)
  | crashed fault => exact ended.elim

end

/-! ## Runs -/

/-- The segments are of one stream. -/
def OfStream (irs : Seq) (stream : List UInt8) : Event → Prop
  | .segment _ ti => Consistent irs stream ti
  | _ => True

/-- The window cuts off no FIN. -/
def Uncut (c : Tcpcb) : Event → Prop
  | .segment _ ti => ¬ CutsFin c ti
  | _ => True

/-- A FIN that a segment has brought was the number behind the last byte of the stream. -/
def FinBehind (stream : List UInt8) (c c' : Tcpcb) : Prop :=
  c.tState.havercvdfin = false → c'.tState.havercvdfin = true → c'.rcvNxt = finSeq c'.irs stream + 1

section
variable {irs : Seq} {stream : List UInt8} {c c' : Tcpcb}

theorem havercvdsyn_of_fin {s : TState} (fin : s.havercvdfin = true) : s.havercvdsyn = true := by
  cases s <;> first
    | rfl
    | cases fin

theorem made_sequenced {place : Seq} (made : Made c) : Sequenced irs place c := by
  obtain ⟨e, rfl⟩ := made
  refine ⟨List.forall_mem_nil _, fun fin => ?_, fun syn => ?_⟩
  · have fin : (if e.listening then TState.listen else .closed).havercvdfin = true := fin
    split at fin
    · cases fin
    · cases fin
  · have syn : (if e.listening then TState.listen else .closed).havercvdsyn = true := syn
    split at syn
    · cases syn
    · cases syn

theorem handle_sequenced {e : Event} (kept : Sequenced irs (finSeq irs stream) c) (consistent : OfStream irs stream e) (uncut : Uncut c e) :
    Sequenced irs (finSeq irs stream) (handle e c).1 := by
  cases e with
  | segment env ti =>
    unfold handle
    split
    · exact kept
    · exact tcpUinput_keeps kept consistent uncut
  | _ => exact kept.aside (handle_aside _ c fun _ _ same => by cases same)

end

instance (c : Tcpcb) (ti : Tcpiphdr) : Decidable (CutsFin c ti) := inferInstanceAs (Decidable (_ ∧ _ ∧ _))

/-- Segments without data and without a FIN. -/
def bare (irs : Seq) : Event → Bool
  | .segment _ ti => !ti.flags.fin ∧ ti.len = 0 ∧ (ti.flags.syn → ti.seq = irs)
  | _ => true

theorem bare_fits {e : Event} (allowed : bare irs e = true) : OfStream irs stream e ∧ Uncut c e := by
  cases e with
  | segment env ti =>
    obtain ⟨fin, none, syn⟩ := of_decide_eq_true allowed
    have fin : ti.flags.fin = false := by simpa using fin
    refine ⟨⟨syn, fun some => ?_⟩, fun cut => ?_⟩
    · rcases some with some | some
      · exact absurd none some
      · exact Bool.noConfusion (fin.symm.trans some)
    · exact Bool.noConfusion (fin.symm.trans cut.1)
  | _ => exact ⟨trivial, trivial⟩

/-- A connection to a peer whose first number is 5000. -/
def handshake : Option Tcpcb := [(Event.connect 1000, granted), synAck 20].foldlM (fun c e => if bare 5000 e.1 then perform 4 c e else none) active

theorem handshake_reached (done : handshake = some c) :
    Reaches Made Step (fun c e => OfStream 5000 stream e.1 ∧ Uncut c e.1) c := by
  refine Reaches.replay (fun c e c' done => ?_) (.start ⟨_, rfl⟩) done
  split at done
  · next allowed => exact ⟨perform_step done, bare_fits allowed⟩
  · cases done

/-- A stream and its FIN in one segment. -/
def lastSegment (n : Nat) : Tcpiphdr := ⟨5001, 1001, { Flags.none with fin := true, ack := true }, 20, 0, [⟨1, List.replicate n 7⟩]⟩

theorem lastSegment_consistent (n : Nat) : Consistent 5000 (List.replicate n 7) (lastSegment n) := by
  have bytes : (lastSegment n).msg.bytes = List.replicate n 7 := List.append_nil _
  refine ⟨nofun, fun _ => ⟨0, rfl, ?_, fun _ => ?_⟩⟩
  · rw [bytes]
    exact List.prefix_refl _
  · rw [Tcpiphdr.len, msgdsize, bytes, Nat.zero_add]

end Svr4.Tcp
