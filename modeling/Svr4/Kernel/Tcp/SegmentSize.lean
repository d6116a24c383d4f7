import Svr4.Kernel.Tcp.Moves
import Svr4.Kernel.Tcp.Passes

/-! No option of the peer stops the sender: the sizes that it divides by, and the order of its numbers. -/

namespace Svr4.Tcp

open Relation
open BitVec (ofNat)

structure Sound (s : Sender) : Prop where
  maxseg : 1 ≤ s.tMaxseg
  maxsegMost : s.tMaxseg ≤ 65535
  cwnd : 1 ≤ s.sndCwnd
  cwndMost : s.sndCwnd ≤ 65535
  behind : 0 ≤ Seq.ahead s.sndNxt s.sndUna
  inside : Seq.ahead s.sndNxt s.sndUna ≤ Seq.ahead s.sndMax s.sndUna
  syn : s.tState = .synSent → s.sndUna = s.iss
  late : s.sentfin = true → TState.finWait1.number ≤ s.tState.number ∨ s.tState = .closed
  queue : s.tQsize ≤ (qbytes s.wq).length

/-- A FIN that waits for its acknowledgement is outstanding. -/
def Waits (s : Sender) : Prop := s.sentfin = true → s.tState.outflags.fin = true → s.sndUna ≠ s.sndMax

/-- The numbers that are outstanding are few enough to be told apart. -/
def Few (s : Sender) : Prop := Seq.ahead s.sndMax s.sndUna < 1073741824

instance (s : Sender) : Decidable (Few s) := inferInstanceAs (Decidable (_ < _))

/-! ## Segments -/

/-- The area of a SYN is harmless. -/
def SegmentOk (env : Env) (ti : Tcpiphdr) : Prop :=
  Wide env.route ∧ (ti.flags.syn = true → harmless true env.options.mem env.options.cnt env.options.cnt 0 true = true)

instance (env : Env) (ti : Tcpiphdr) : Decidable (SegmentOk env ti) := inferInstanceAs (Decidable (_ ∧ _))

section

variable {env : Env} {ti : Tcpiphdr} {s s' : Sender} {ack : Seq}

theorem dooptions_sound (ok : SegmentOk env ti) (sound : Sound s) {reads : List Nat}
    (scanned : tcpDooptions env.route ti.flags.syn env.options s = some (s', reads)) : Sound s' := by
  obtain ⟨m, w, same⟩ := tcpDooptions_eq scanned
  have sizes := scanOptions_sizes ok.1 _ _ _ sound.maxsegMost sound.cwnd sound.cwndMost scanned
  have positive : 1 ≤ s'.tMaxseg := by
    cases syn : ti.flags.syn with
    | false => exact (sizes.2.2.2 syn).symm ▸ sound.maxseg
    | true =>
      have exact := scanOptions_harmless ok.1 _ _ _ sound.maxsegMost scanned
      rw [decide_eq_true sound.maxseg, syn, ok.2 syn] at exact
      exact (exact.mpr rfl).2
  rw [same] at sizes positive ⊢
  exact { sound with
    maxseg := positive
    maxsegMost := sizes.1
    cwnd := sizes.2.1
    cwndMost := sizes.2.2.1 }

theorem clip_sound {route : Option Route} (wide : Wide route) (sound : Sound s) : Sound (clipMaxseg route s) := by
  obtain ⟨m, w, same⟩ := clipMaxseg_eq route s
  have clipped := clipMaxseg_tMaxseg wide s sound.maxsegMost
  have opened : (clipMaxseg route s).sndCwnd = (mssOf route s).2.sndCwnd := rfl
  have range := mssOf_sndCwnd wide s sound.cwnd sound.cwndMost
  rw [← opened] at range
  rw [same] at clipped range ⊢
  exact { sound with
    maxseg := clipped.1.mpr sound.maxseg
    maxsegMost := clipped.2
    cwnd := range.1
    cwndMost := range.2 }

section
variable (sound : Sound s)
include sound

theorem rttUpdate_sound (ack : Seq) : Sound (rttUpdate ack s) := by
  obtain ⟨_, _, _, _, _, same, _⟩ := rttUpdate_eq ack s
  rw [same]
  exact { sound with }

theorem ackTimer_sound (ack : Seq) : Sound (ackTimer ack s) := by
  obtain ⟨_, same, _⟩ := ackTimer_eq ack s
  rw [same]
  exact { sound with }

theorem openCwnd_sound : Sound (openCwnd s) := by
  have square : s.tMaxseg * s.tMaxseg ≤ 65535 * 65535 := Nat.mul_le_mul sound.maxsegMost sound.maxsegMost
  have quotient := Nat.div_le_self (s.tMaxseg * s.tMaxseg) s.sndCwnd
  have least := sound.cwnd
  have most := sound.cwndMost
  have short := sound.maxsegMost
  have opened : (openCwnd s).sndCwnd = min ((s.sndCwnd + if s.sndSsthresh < s.sndCwnd
      then max (s.tMaxseg * s.tMaxseg / s.sndCwnd) 1 else s.tMaxseg) % 4294967296) 65535 := rfl
  have range : 1 ≤ (openCwnd s).sndCwnd ∧ (openCwnd s).sndCwnd ≤ 65535 := by
    rw [opened]
    split
    · omega
    · omega
  exact { sound with
    cwnd := range.1
    cwndMost := range.2 }

theorem ack_order (new : 0 < Seq.ahead ack s.sndUna) (inside : Seq.ahead ack s.sndMax ≤ 0) :
    Seq.ahead s.sndMax ack = Seq.ahead s.sndMax s.sndUna - Seq.ahead ack s.sndUna ∧
      Seq.ahead s.sndNxt ack = Seq.ahead s.sndNxt s.sndUna - Seq.ahead ack s.sndUna ∧ 0 ≤ Seq.ahead s.sndMax ack := by
  have behind := sound.behind
  have order := sound.inside
  have most := (Seq.ahead_range s.sndMax s.sndUna).2
  have reach := (Seq.ahead_range ack s.sndUna).2
  have max : Seq.ahead s.sndMax ack = Seq.ahead s.sndMax s.sndUna - Seq.ahead ack s.sndUna := Seq.ahead_between (by omega) (by omega)
  have nxt : Seq.ahead s.sndNxt ack = Seq.ahead s.sndNxt s.sndUna - Seq.ahead ack s.sndUna := Seq.ahead_between (by omega) (by omega)
  have back : Seq.ahead ack s.sndMax = Seq.ahead ack s.sndUna - Seq.ahead s.sndMax s.sndUna := Seq.ahead_between (by omega) (by omega)
  exact ⟨max, nxt, by omega⟩

theorem pulled_order (new : 0 < Seq.ahead ack s.sndUna) (inside : Seq.ahead ack s.sndMax ≤ 0) :
    0 ≤ Seq.ahead (if Seq.ahead s.sndNxt ack < 0 then ack else s.sndNxt) ack ∧
      Seq.ahead (if Seq.ahead s.sndNxt ack < 0 then ack else s.sndNxt) ack ≤ Seq.ahead s.sndMax ack := by
  have ⟨max, nxt, left⟩ := ack_order sound new inside
  have order := sound.inside
  split
  · rw [Seq.ahead_self]
    exact ⟨le_refl 0, left⟩
  · omega

theorem ackDrop_sound (later : s.tState ≠ .synSent) (new : 0 < Seq.ahead ack s.sndUna)
    (inside : Seq.ahead ack s.sndMax ≤ 0) : Sound (ackDrop ack s) := by
  have order := pulled_order sound new inside
  have queue : s.tQsize - min (Seq.ahead ack s.sndUna).toNat s.tQsize ≤
      (qbytes (if s.inpQ then tcpQdrop (min (Seq.ahead ack s.sndUna).toNat s.tQsize) s.wq else s.wq)).length := by
    have := sound.queue
    split
    · rw [tcpQdrop_spec, List.length_drop]
      omega
    · omega
  exact { sound with
    behind := order.1
    inside := order.2
    syn := fun sent => absurd sent later
    queue := queue }

theorem newAck_sound (later : s.tState ≠ .synSent) (new : 0 < Seq.ahead ack s.sndUna)
    (inside : Seq.ahead ack s.sndMax ≤ 0) : Sound (newAck ack s) := by
  obtain ⟨_, _, _, _, _, updated, _⟩ := rttUpdate_eq ack { s with tDupacks := 0 }
  obtain ⟨_, timed, _⟩ := ackTimer_eq ack (rttUpdate ack { s with tDupacks := 0 })
  have first : Sound { s with tDupacks := 0 } := { sound with }
  have frame : (ackTimer ack (rttUpdate ack { s with tDupacks := 0 })).tState = s.tState ∧
      (ackTimer ack (rttUpdate ack { s with tDupacks := 0 })).sndUna = s.sndUna ∧
      (ackTimer ack (rttUpdate ack { s with tDupacks := 0 })).sndMax = s.sndMax := by
    rw [timed, updated]
    exact ⟨rfl, rfl, rfl⟩
  refine ackDrop_sound (openCwnd_sound (ackTimer_sound (rttUpdate_sound first ack) ack)) ?_ ?_ ?_
  · exact fun sent => later (frame.1.symm.trans sent)
  · exact frame.2.1.symm ▸ new
  · exact frame.2.2.symm ▸ inside

end

theorem newAck_outstanding (ack : Seq) (s : Sender) : (newAck ack s).sndUna = ack ∧ (newAck ack s).sndMax = s.sndMax ∧
    (newAck ack s).sentfin = s.sentfin := by
  obtain ⟨_, _, _, _, _, _, _, same⟩ := newAck_eq ack s
  rw [same]
  exact ⟨rfl, rfl, rfl⟩

structure Ready (s : Sender) : Prop where
  sound : Sound s
  waits : Waits s
  few : Few s

/-- No FIN has been sent up to `CLOSE_WAIT`. -/
theorem not_sentfin (sound : Sound s) (early : s.tState.number < TState.finWait1.number) (opened : s.tState ≠ .closed) : s.sentfin = false := by
  cases fin : s.sentfin with
  | false => rfl
  | true =>
    obtain high | closed := sound.late fin
    · omega
    · exact absurd closed opened

theorem finDone_ready (cantrcvmore : Bool) (sound : Sound s) (few : Few s) (sent : s.sentfin = true) : Ready (finDone cantrcvmore s) := by
  have cancelled (s : Sender) (sound : Sound s) : Sound (tcpCancelinger s) := by
    unfold tcpCancelinger
    split
    · exact { sound with }
    · exact sound
  have few' (s : Sender) (few : Few s) : Few (tcpCancelinger s) := by
    unfold tcpCancelinger
    split
    · exact few
    · exact few
  cases state : s.tState with
  | finWait1 =>
    unfold finDone
    rw [state]
    exact ⟨{ cancelled s sound with syn := nofun, late := fun _ => .inl (by decide : TState.finWait1.number ≤ TState.finWait2.number) }, nofun, few' s few⟩
  | closing =>
    have quiet : Sound (tcpCanceltimers s) := { sound with }
    unfold finDone
    rw [state]
    exact ⟨{ cancelled _ quiet with syn := nofun, late := fun _ => .inl (by decide : TState.finWait1.number ≤ TState.timeWait.number) }, nofun, few' (tcpCanceltimers s) few⟩
  | lastAck =>
    unfold finDone
    rw [state]
    exact ⟨{ cancelled s sound with syn := nofun, late := fun _ => .inr rfl }, nofun, few' s few⟩
  | closed | listen | synSent | synReceived | established | closeWait | finWait2 | timeWait =>
    have same : finDone cantrcvmore s = s := by
      unfold finDone
      rw [state]
    have quiet : s.tState.outflags.fin = false := by
      rw [state]
      rfl
    rw [same]
    exact ⟨sound, fun _ fin => absurd fin (by rw [quiet]; decide), few⟩

theorem finReceived_ready (ready : Ready s) : Ready (finReceived s) := by
  obtain ⟨sound, waits, few⟩ := ready
  have early (low : s.tState.number < TState.finWait1.number) (opened : s.tState ≠ .closed) :
      Ready { s with tState := .closeWait } :=
    ⟨{ sound with syn := nofun, late := fun sent => absurd ((not_sentfin sound low opened).symm.trans sent) Bool.false_ne_true }, nofun, few⟩
  cases state : s.tState with
  | synReceived | established =>
    unfold finReceived
    rw [state]
    exact early (by rw [state]; decide) (by rw [state]; decide)
  | finWait1 =>
    unfold finReceived
    rw [state]
    exact ⟨{ sound with syn := nofun, late := fun _ => .inl (by decide : TState.finWait1.number ≤ TState.closing.number) }, fun sent _ => waits sent (by rw [state]; rfl), few⟩
  | finWait2 =>
    unfold finReceived
    rw [state]
    exact ⟨{ sound with syn := nofun, late := fun _ => .inl (by decide : TState.finWait1.number ≤ TState.timeWait.number) }, nofun, few⟩
  | timeWait =>
    unfold finReceived
    rw [state]
    exact ⟨{ sound with syn := nofun, late := fun _ => .inl (by decide : TState.finWait1.number ≤ TState.timeWait.number) }, nofun, few⟩
  | closed | listen | synSent | closeWait | closing | lastAck =>
    unfold finReceived
    rw [state]
    exact ⟨sound, waits, few⟩

theorem toClosed_ready (ready : Ready s) : Ready (toClosed s) := by
  obtain ⟨sound, _, few⟩ := ready
  unfold toClosed tcpCancelinger
  split
  · exact ⟨{ sound with syn := nofun, late := fun _ => .inr rfl }, nofun, few⟩
  · exact ⟨{ sound with syn := nofun, late := fun _ => .inr rfl }, nofun, few⟩

theorem move_ready (ok : SegmentOk env ti) (ready : Ready s) (move : Move env ti s s') : Ready s' := by
  obtain ⟨sound, waits, few⟩ := ready
  cases move with
  | options scanned =>
    obtain ⟨m, w, same⟩ := tcpDooptions_eq scanned
    have next := dooptions_sound ok sound scanned
    rw [same] at next ⊢
    exact ⟨next, waits, few⟩
  | clip =>
    obtain ⟨m, w, same⟩ := clipMaxseg_eq env.route s
    have next := clip_sound ok.1 sound
    rw [same] at next ⊢
    exact ⟨next, waits, few⟩
  | quiet => exact ⟨{ sound with }, waits, few⟩
  | passive _ listening =>
    have unsent := not_sentfin sound (by rw [listening]; decide) (by rw [listening]; decide)
    refine ⟨{ sound with
      behind := ?_
      inside := le_refl _
      syn := nofun
      late := fun sent => absurd (unsent.symm.trans sent) Bool.false_ne_true }, nofun, ?_⟩
    · exact (Seq.ahead_self env.iss).ge
    · unfold Few
      simp only [tcpSendseqinit, Seq.ahead_self]
      decide
  | synAcked _ sent new inside =>
    have unsent := not_sentfin sound (by rw [sent]; decide) (by rw [sent]; decide)
    rw [← sound.syn sent] at new
    have order := pulled_order sound new inside
    have left := ack_order sound new inside
    have few : Seq.ahead s.sndMax s.sndUna < 1073741824 := few
    refine ⟨{ sound with
      behind := order.1
      inside := order.2
      syn := nofun
      late := fun sent => absurd (unsent.symm.trans sent) Bool.false_ne_true }, nofun, ?_⟩
    change Seq.ahead s.sndMax ti.ack < 1073741824
    omega
  | synTimed =>
    unfold synTimed
    split
    · exact ⟨{ sound with }, waits, few⟩
    · exact ⟨sound, waits, few⟩
  | syn _ sent =>
    have unsent := not_sentfin sound (by rw [sent]; decide) (by rw [sent]; decide)
    exact ⟨{ sound with
      syn := nofun
      late := fun sent => absurd (unsent.symm.trans sent) Bool.false_ne_true }, nofun, few⟩
  | established _ received =>
    have unsent := not_sentfin sound (by rw [received]; decide) (by rw [received]; decide)
    exact ⟨{ sound with
      syn := nofun
      late := fun sent => absurd (unsent.symm.trans sent) Bool.false_ne_true }, nofun, few⟩
  | closed => exact toClosed_ready ⟨sound, waits, few⟩
  | loss _ win again =>
    refine ⟨{ sound with
      cwnd := sound.maxseg
      cwndMost := sound.maxsegMost
      behind := ?_
      inside := ?_ }, waits, few⟩
    · rw [show (lossFound ti.ack win s).sndNxt = ti.ack from rfl, again]
      exact (Seq.ahead_self s.sndUna).ge
    · rw [show (lossFound ti.ack win s).sndNxt = ti.ack from rfl, again]
      exact (Seq.ahead_self s.sndUna).le.trans (sound.behind.trans sound.inside)
  | acked _ cantrcvmore late new inside =>
    have later : s.tState ≠ .synSent := by
      intro sent
      rw [sent] at late
      exact absurd late (by decide)
    have ⟨una, max, sentfin⟩ := newAck_outstanding ti.ack s
    have next := newAck_sound sound later new inside
    have left := ack_order sound new inside
    have few : Seq.ahead s.sndMax s.sndUna < 1073741824 := few
    have few' : Few (newAck ti.ack s) := by
      unfold Few
      rw [una, max]
      omega
    split
    · next done => exact finDone_ready cantrcvmore next few' (sentfin.trans done.1)
    · next open_ =>
      refine ⟨next, fun sent _ => ?_, few'⟩
      rw [una, max]
      exact fun all => open_ ⟨sentfin.symm.trans sent, all⟩
  | window => exact ⟨{ sound with }, waits, few⟩
  | fin => exact finReceived_ready ⟨sound, waits, few⟩

theorem moves_ready (ok : SegmentOk env ti) (ready : Ready s) (moves : Moves env ti s s') : Ready s' := by
  induction moves with
  | refl => exact ready
  | tail _ move ih => exact move_ready ok ih move

end

/-! ## Calls of `tcp_output` -/

theorem outflags_fin (t : TState) : t.outflags.fin = true → TState.finWait1.number ≤ t.number := by
  cases t <;> decide

section

variable {route : Option Route} {s : Sender} {c : Tcpcb} {flags : Flags} {n : Nat} {una : Seq} {least : Int}

theorem plan_ready (ready : Ready s) : Ready (plan s).1 := by
  obtain ⟨sound, waits, few⟩ := ready
  obtain ⟨persist, shift, rexmt, nxt, same, place, _⟩ := plan_eq s
  have order : 0 ≤ Seq.ahead nxt s.sndUna ∧ Seq.ahead nxt s.sndUna ≤ Seq.ahead s.sndMax s.sndUna := by
    obtain rfl | rfl := place
    · exact ⟨sound.behind, sound.inside⟩
    · rw [Seq.ahead_self]
      exact ⟨le_refl 0, sound.behind.trans sound.inside⟩
  rw [same]
  exact ⟨{ sound with behind := order.1, inside := order.2 }, waits, few⟩

theorem retreat_ready (fin : flags.fin = true → s.tState.outflags.fin = true) (ready : Ready s) :
    Ready (retreat flags s) ∧ (retreat flags s).sndUna = s.sndUna ∧ (retreat flags s).sndMax = s.sndMax ∧
      Seq.ahead s.sndNxt s.sndUna - (if flags.fin then 1 else 0) ≤ Seq.ahead (retreat flags s).sndNxt s.sndUna ∧
      Seq.ahead (retreat flags s).sndNxt s.sndUna ≤ Seq.ahead s.sndNxt s.sndUna := by
  unfold retreat
  split
  · next again =>
    have behind := ready.sound.behind
    have inside := ready.sound.inside
    have apart : Seq.ahead s.sndNxt s.sndUna ≠ 0 := fun none =>
      ready.waits again.2.1 (fin again.1) ((Seq.ahead_eq_zero.mp none).symm.trans again.2.2)
    have back : Seq.ahead (s.sndNxt - 1) s.sndUna = Seq.ahead s.sndNxt s.sndUna - 1 := Seq.ahead_pred (by omega)
    refine ⟨⟨{ ready.sound with behind := ?_, inside := ?_ }, ready.waits, ready.few⟩, rfl, rfl, ?_, ?_⟩
    · dsimp only
      rw [back]
      omega
    · dsimp only
      rw [back]
      omega
    · rw [if_pos again.1, back]
    · rw [back]
      omega
  · refine ⟨ready, rfl, rfl, ?_, le_refl _⟩
    split <;> omega

theorem opens_ready (wide : Wide route) (ready : Ready s) : Ready (opens route flags s) := by
  obtain ⟨sound, waits, few⟩ := ready
  unfold opens
  split
  · have range := mssOf_sndCwnd wide s sound.cwnd sound.cwndMost
    obtain ⟨w, same⟩ := mssOf_eq route s
    rw [same] at range ⊢
    exact ⟨{ sound with cwnd := range.1, cwndMost := range.2 }, waits, few⟩
  · exact ⟨sound, waits, few⟩

theorem readied_ready (wide : Wide route) (ready : Ready c.toSender) : Ready (readied route c).toSender ∧
    (readied route c).sndUna = c.sndUna ∧ (readied route c).sndMax = c.sndMax ∧
      Seq.ahead (planned c).sndNxt c.sndUna - (if (planOf c).flags.fin then 1 else 0) ≤ Seq.ahead (readied route c).sndNxt c.sndUna ∧
      Seq.ahead (readied route c).sndNxt c.sndUna ≤ Seq.ahead (planned c).sndNxt c.sndUna := by
  obtain ⟨_, _, _, _, same, _⟩ := plan_eq c.toSender
  obtain ⟨fin, flags, early⟩ := plan_flags c.toSender
  have frame : (planned c).sndUna = c.sndUna ∧ (planned c).sndMax = c.sndMax ∧ (planned c).tState = c.tState := by
    unfold planned
    rw [same]
    exact ⟨rfl, rfl, rfl⟩
  have allowed : (planOf c).flags.fin = true → (planned c).tState.outflags.fin = true := by
    unfold planOf
    rw [flags, frame.2.2]
    exact early
  have ⟨back, una, max, least, most⟩ := retreat_ready allowed (plan_ready ready)
  obtain ⟨w, opened, _⟩ := opens_eq route (planOf c).flags (retreat (planOf c).flags (planned c).toSender)
  have whole : (readied route c).toSender = opens route (planOf c).flags (retreat (planOf c).flags (planned c).toSender) := rfl
  refine ⟨opens_ready wide back, ?_, ?_, ?_, ?_⟩
  · rw [whole, opened]
    exact una.trans frame.1
  · rw [whole, opened]
    exact max.trans frame.2.1
  · rw [whole, opened, ← frame.1]
    exact least
  · rw [whole, opened, ← frame.1]
    exact most

theorem transmit_sound (fin : flags.fin = true → s.tState.outflags.fin = true) (ready : Ready s) (short : n ≤ 65535) :
    Sound (transmit flags n s) ∧ Waits (transmit flags n s) ∧ (transmit flags n s).sndUna = s.sndUna ∧
      Seq.ahead s.sndMax s.sndUna ≤ Seq.ahead (transmit flags n s).sndMax s.sndUna ∧
      Seq.ahead (transmit flags n s).sndMax s.sndUna ≤ max (Seq.ahead s.sndMax s.sndUna) (Seq.ahead s.sndNxt s.sndUna + n + 2) ∧
      (s.tForce = false ∨ s.persist = 0 →
        Seq.ahead (transmit flags n s).sndNxt s.sndUna = Seq.ahead s.sndNxt s.sndUna + numbers flags n) := by
  obtain ⟨sound, waits, few⟩ := ready
  have few : Seq.ahead s.sndMax s.sndUna < 1073741824 := few
  have behind := sound.behind
  have inside := sound.inside
  have ⟨least, most⟩ := numbers_range flags n
  have further (d : Nat) (small : d ≤ n + 2) : Seq.ahead (s.sndNxt + ofNat 32 d) s.sndUna = Seq.ahead s.sndNxt s.sndUna + d :=
    Seq.ahead_add_nat d (by omega)
  have raised (d : Nat) (small : d ≤ n + 2) :
      Seq.ahead (if 0 < Seq.ahead (s.sndNxt + ofNat 32 d) s.sndMax then s.sndNxt + ofNat 32 d else s.sndMax) s.sndUna =
        max (Seq.ahead s.sndMax s.sndUna) (Seq.ahead s.sndNxt s.sndUna + d) := by
    have there := further d small
    have apart : Seq.ahead (s.sndNxt + ofNat 32 d) s.sndMax =
        Seq.ahead (s.sndNxt + ofNat 32 d) s.sndUna - Seq.ahead s.sndMax s.sndUna := Seq.ahead_between (by omega) (by omega)
    rw [apart]
    split
    · rw [there]
      omega
    · omega
  obtain ⟨ordinary, _, _, _, _, _, _, same⟩ | ⟨persisting, same⟩ := transmit_cases flags n s
  · have max := raised (numbers flags n) most
    have nxt := further (numbers flags n) most
    rw [same]
    refine ⟨{ sound with behind := ?_, inside := ?_, late := ?_ }, ?_, rfl, ?_, ?_, fun _ => nxt⟩
    · dsimp only
      rw [nxt]
      omega
    · dsimp only
      rw [nxt, max]
      omega
    · intro sent
      obtain sent | sent := Bool.or_eq_true_iff.mp sent
      · exact sound.late sent
      · exact .inl (outflags_fin s.tState (fin sent))
    · intro sent wait all
      have none : Seq.ahead (if 0 < Seq.ahead (s.sndNxt + ofNat 32 (numbers flags n)) s.sndMax
          then s.sndNxt + ofNat 32 (numbers flags n) else s.sndMax) s.sndUna = 0 := Seq.ahead_eq_zero.mpr all.symm
      rw [max] at none
      obtain sent | sent := Bool.or_eq_true_iff.mp sent
      · exact waits sent wait (Seq.ahead_eq_zero.mp (by omega)).symm
      · have one : 1 ≤ numbers flags n := by
          unfold numbers
          rw [if_pos sent]
          omega
        omega
    · dsimp only
      rw [max]
      omega
    · dsimp only
      rw [max]
      omega
  · have max := raised n (by omega)
    rw [same]
    refine ⟨{ sound with inside := ?_ }, ?_, rfl, ?_, ?_, ?_⟩
    · dsimp only
      rw [max]
      omega
    · intro sent wait all
      have none : Seq.ahead (if 0 < Seq.ahead (s.sndNxt + ofNat 32 n) s.sndMax then s.sndNxt + ofNat 32 n
          else s.sndMax) s.sndUna = 0 := Seq.ahead_eq_zero.mpr all.symm
      rw [max] at none
      exact waits sent wait (Seq.ahead_eq_zero.mp (by omega)).symm
    · dsimp only
      rw [max]
      omega
    · dsimp only
      rw [max]
      omega
    · rintro (free | free)
      · exact absurd (persisting.1.symm.trans free) (by decide)
      · exact absurd free persisting.2

/-- What a call keeps of a block that is ready. -/
structure Further (una : Seq) (least : Int) (s : Sender) : Prop where
  sound : Sound s
  waits : Waits s
  same : s.sndUna = una
  max : least ≤ Seq.ahead s.sndMax una

/-- What is left of the allocations that may fail, and of the data. -/
def size (alloc : List Bool) (c : Tcpcb) : Nat := alloc.length * 70000 + (65537 - Seq.ahead c.sndNxt c.sndUna).toNat

theorem planOf_fin (c : Tcpcb) : (planOf c).flags.fin = true → (readied route c).tState.outflags.fin = true := by
  obtain ⟨fin, flags, early⟩ := plan_flags c.toSender
  obtain ⟨_, _, _, _, same, _⟩ := plan_eq c.toSender
  obtain ⟨w, opened, _⟩ := opens_eq route (planOf c).flags (retreat (planOf c).flags (planned c).toSender)
  have whole : (readied route c).toSender = opens route (planOf c).flags (retreat (planOf c).flags (planned c).toSender) := rfl
  have state : (readied route c).tState = c.tState := by
    rw [whole, opened]
    unfold retreat planned
    rw [same]
    split <;> rfl
  rw [state]
  unfold planOf
  rw [flags]
  exact early

theorem sendalot_len (sound : Sound s) (more : (plan s).2.sendalot = true) : (plan s).2.len = s.tMaxseg ∧
    Seq.ahead s.sndNxt s.sndUna + s.tMaxseg < 65535 ∧ Seq.ahead s.sndNxt s.sndUna + s.tMaxseg ≤ (qbytes s.wq).length ∧
      (s.tForce = true → window s ≠ 0) := by
  have queue := sound.queue
  have cwnd := sound.cwndMost
  have behind := sound.behind
  have maxseg := sound.maxseg
  rw [plan_sendalot, decide_eq_true_iff] at more
  have len := plan_len s
  have win : (force s).2 ≤ 65535 ∧ (s.tForce = true → window s = 0 → (force s).2 = 1) := by
    have short : window s ≤ 65535 := (min_le_right _ _).trans cwnd
    obtain ⟨_, _, one⟩ | same := force_window s
    · exact ⟨by omega, fun _ _ => one⟩
    · refine ⟨same ▸ short, fun forced shut => ?_⟩
      unfold force
      rw [if_pos forced, if_pos shut]
  have most : usable s (force s).2 ≤ (min s.tQsize (force s).2 : Nat) - Seq.ahead s.sndNxt s.sndUna := by
    unfold usable at more ⊢
    split
    · exact le_refl _
    · next closed =>
      rw [if_neg closed] at more
      omega
  refine ⟨by omega, by omega, by omega, fun forced shut => ?_⟩
  have one := win.2 forced shut
  omega

theorem readied_persist (c : Tcpcb) (persist : (planned c).persist = 0) : (readied route c).persist = 0 := by
  obtain ⟨w, opened, _⟩ := opens_eq route (planOf c).flags (retreat (planOf c).flags (planned c).toSender)
  have whole : (readied route c).toSender = opens route (planOf c).flags (retreat (planOf c).flags (planned c).toSender) := rfl
  rw [whole, opened]
  unfold retreat
  split
  · exact persist
  · exact persist

theorem readied_tForce (c : Tcpcb) : (readied route c).tForce = c.tForce := by
  obtain ⟨_, _, _, _, same, _⟩ := plan_eq c.toSender
  obtain ⟨w, opened, _⟩ := opens_eq route (planOf c).flags (retreat (planOf c).flags (planned c).toSender)
  have whole : (readied route c).toSender = opens route (planOf c).flags (retreat (planOf c).flags (planned c).toSender) := rfl
  rw [whole, opened]
  unfold retreat planned
  rw [same]
  split <;> rfl

theorem dragUp_ready (ready : Ready s) : Ready (dragUp s) ∧ (dragUp s).sndUna = s.sndUna ∧ (dragUp s).sndMax = s.sndMax ∧
    (dragUp s).sndNxt = s.sndNxt ∧ (dragUp s).tState = s.tState ∧ (dragUp s).tForce = s.tForce ∧ (dragUp s).persist = s.persist := by
  unfold dragUp
  split
  · exact ⟨ready, rfl, rfl, rfl, rfl, rfl, rfl⟩
  · exact ⟨⟨{ ready.sound with }, ready.waits, ready.few⟩, rfl, rfl, rfl, rfl, rfl, rfl⟩

theorem transmitted_further (wide : Wide route) (ready : Ready c.toSender) (short : n ≤ 65535) :
    Further c.sndUna (Seq.ahead c.sndMax c.sndUna) (transmitted route n c).toSender ∧
      Seq.ahead (transmitted route n c).sndMax c.sndUna ≤
        max (Seq.ahead c.sndMax c.sndUna) (Seq.ahead (planned c).sndNxt c.sndUna + n + 2) ∧
      (c.tForce = false ∨ (planned c).persist = 0 →
        Seq.ahead (planned c).sndNxt c.sndUna + n ≤ Seq.ahead (transmitted route n c).sndNxt c.sndUna) := by
  have ⟨ready₁, una, max, least, most⟩ := readied_ready wide ready
  have ⟨ready₂, una₂, max₂, nxt₂, state₂, forced₂, persist₂⟩ := dragUp_ready ready₁
  have fin : (planOf c).flags.fin = true → (dragUp (readied route c).toSender).tState.outflags.fin = true := by
    rw [state₂]
    exact planOf_fin c
  have ⟨sound, waits, una₃, up, bound, nxt₃⟩ := transmit_sound fin ready₂ short
  rw [una₂, una] at up bound nxt₃
  rw [max₂, max] at up
  rw [max₂, nxt₂, max] at bound
  rw [nxt₂, forced₂, persist₂, readied_tForce] at nxt₃
  have whole : (transmitted route n c).toSender = transmit (planOf c).flags n (dragUp (readied route c).toSender) := rfl
  rw [whole]
  refine ⟨⟨sound, waits, ?_, up⟩, by omega, fun free => ?_⟩
  · exact una₃.trans (una₂.trans una)
  · have free₁ : c.tForce = false ∨ (readied route c).persist = 0 := free.imp_right (readied_persist c)
    have one : (if (planOf c).flags.fin then 1 else 0) + n ≤ numbers (planOf c).flags n := by
      unfold numbers
      omega
    rw [nxt₃ free₁]
    split_ifs at least one <;> omega

theorem size_shorter {alloc alloc' : List Bool} {c c' : Tcpcb} (shorter : alloc'.length + 1 ≤ alloc.length)
    (behind : 0 ≤ Seq.ahead c'.sndNxt c'.sndUna) : size alloc' c' < size alloc c := by
  unfold size
  omega

theorem finish_further (p : Plan) (segment : Sent) (win : Int) (further : Further una least c.toSender) :
    Further una least (finish p segment win c).toSender := by
  rw [finish_toSender]
  exact ⟨{ further.sound with }, further.waits, further.same, further.max⟩

theorem pass_ready (wide : Wide route) (alloc : List Bool) (idle : Bool) (c : Tcpcb) (ready : Ready c.toSender)
    (further : Further una least c.toSender) :
    (pass alloc route idle c).1.Leaves (fun c' _ => Further una least c'.toSender)
      fun c' => (Ready c'.toSender ∧ Further una least c'.toSender) ∧ size (pass alloc route idle c).2 c' < size alloc c := by
  have shape := pass_of alloc route idle c
  have rest := pass_suffix alloc route idle c
  have widen {s : Sender} (there : Further c.sndUna (Seq.ahead c.sndMax c.sndUna) s) : Further una least s := by
    have low := further.max
    have max := there.max
    rw [further.same] at max
    exact ⟨there.sound, there.waits, there.same.trans further.same, low.trans max⟩
  have readied_further : Further una least (readied route c).toSender := by
    have ⟨ready₁, una₁, max₁, _⟩ := readied_ready wide ready
    exact ⟨ready₁.sound, ready₁.waits, una₁.trans further.same, max₁ ▸ further.max⟩
  have planned_further : Further una least (planned c).toSender := by
    have ⟨sound, waits, _⟩ := plan_ready ready
    obtain ⟨_, _, _, _, same, _⟩ := plan_eq c.toSender
    refine ⟨sound, waits, ?_, ?_⟩
    · unfold planned
      rw [same]
      exact further.same
    · unfold planned
      rw [same]
      exact further.max
  generalize pass alloc route idle c = passed at shape rest ⊢
  obtain ⟨result, alloc'⟩ := passed
  have maxseg := ready.sound.maxsegMost
  have len : (planOf c).len ≤ 65535 := by
    unfold planOf
    rw [plan_len]
    omega
  have short {data : List UInt8} (copied : Copied alloc c.wq (planOf c) data) : data.length ≤ 65535 := by
    obtain none | whole := copied.length
    · rw [none]
      exact Nat.zero_le _
    · omega
  cases shape with
  | idle =>
    change Further una least (startPersist (planned c).toSender)
    unfold startPersist
    split
    · unfold tcpSetpersist
      exact ⟨{ planned_further.sound with }, planned_further.waits, planned_further.same, planned_further.max⟩
    · exact planned_further
  | waits => exact planned_further
  | panicked => trivial
  | unopened => exact readied_further
  | unsent _ _ copied => exact widen (transmitted_further wide ready (short copied)).1
  | @sent data due copied =>
    have ⟨there, bound, moved⟩ := transmitted_further wide ready (short copied)
    have there := widen there
    have finished_further : Further una least (finished route data c).toSender := finish_further _ _ _ there
    cases more : (planOf c).sendalot with
    | false => exact finished_further
    | true =>
      have ⟨whole, inside, room, opened⟩ := sendalot_len ready.sound more
      have maxseg := ready.sound.maxseg
      have behind := ready.sound.behind
      have few : Seq.ahead c.sndMax c.sndUna < 1073741824 := ready.few
      have nxt : (planned c).sndNxt = c.sndNxt := plan_nxt c.toSender (by omega)
      have free : c.tForce = false ∨ (planned c).persist = 0 := by
        cases forced : c.tForce with
        | false => exact .inl rfl
        | true => exact .inr (plan_persist c.toSender forced (opened forced))
      have moved := moved free
      rw [nxt] at moved bound
      have whole : (planOf c).len = c.tMaxseg := whole
      have data_short : data.length ≤ c.tMaxseg := by
        obtain none | whole := copied.length
        · rw [none]
          exact Nat.zero_le _
        · omega
      have few : Few (finished route data c).toSender := by
        unfold finished
        rw [finish_toSender]
        change Seq.ahead (transmitted route data.length c).sndMax (transmitted route data.length c).sndUna < 1073741824
        rw [there.same, ← further.same]
        omega
      have ready : Ready (finished route data c).toSender := ⟨(finished_further).sound, (finished_further).waits, few⟩
      have smaller : size alloc' (finished route data c) < size alloc c := by
        have moved : Seq.ahead c.sndNxt c.sndUna + data.length ≤ Seq.ahead (finished route data c).sndNxt (finished route data c).sndUna := by
          unfold finished
          rw [finish_toSender]
          rw [there.same, ← further.same]
          exact moved
        have shorter := rest.2 (isSent_sent _ _)
        cases alloc with
        | nil =>
          have nil : alloc' = [] := List.suffix_nil.mp shorter
          have off : (planOf c).off = Seq.ahead c.sndNxt c.sndUna := rfl
          have some : data.length = (planOf c).len := copied.whole (by decide) fun _ => by omega
          unfold size
          rw [nil, List.length_nil, Nat.zero_mul, Nat.zero_add, Nat.zero_add]
          omega
        | cons ok alloc =>
          have ahead : 0 ≤ Seq.ahead (finished route data c).sndNxt (finished route data c).sndUna := by omega
          exact size_shorter (Nat.succ_le_succ shorter.length_le) ahead
      exact ⟨⟨ready, finished_further⟩, smaller⟩

theorem outputs_further (wide : Wide route) {alloc : List Bool} {c' : Tcpcb} {failed : Bool} (ready : Ready c.toSender)
    (done : Outputs alloc route c (.returned c' failed)) : Further c.sndUna (Seq.ahead c.sndMax c.sndUna) c'.toSender := by
  obtain ⟨fuel, done⟩ := done
  refine outputLoop_rule (fun _ c₁ => Ready c₁.toSender ∧ Further c.sndUna (Seq.ahead c.sndMax c.sndUna) c₁.toSender)
    (fun c₁ _ => Further c.sndUna (Seq.ahead c.sndMax c.sndUna) c₁.toSender) ?_ ⟨ready, ready.sound, ready.waits, rfl, le_refl _⟩ done
  rintro alloc c₁ ⟨ready, further⟩
  have kept := pass_ready wide alloc (c.sndMax = c.sndUna) c₁ ready further
  generalize (pass alloc route (c.sndMax = c.sndUna) c₁).1 = passed at kept
  cases passed with
  | idle | failed => exact kept
  | panicked => trivial
  | sent c₂ again =>
    cases again with
    | false => exact kept
    | true => exact kept.1

/-- The loop of `tcp_output` comes to an end. -/
theorem outputs_ends (wide : Wide route) (alloc : List Bool) (ready : Ready c.toSender) : ∃ outcome, Outputs alloc route c outcome := by
  have ended : ∃ fuel outcome, outputLoop route (c.sndMax = c.sndUna) fuel alloc c = some outcome := by
    refine outputLoop_ends (fun _ c₁ => Ready c₁.toSender ∧ Further c.sndUna (Seq.ahead c.sndMax c.sndUna) c₁.toSender) size ?_
      ⟨ready, ready.sound, ready.waits, rfl, le_refl _⟩
    rintro alloc c₁ ⟨ready, further⟩
    have kept := pass_ready wide alloc (c.sndMax = c.sndUna) c₁ ready further
    generalize pass alloc route (c.sndMax = c.sndUna) c₁ = passed at kept ⊢
    obtain ⟨result, alloc'⟩ := passed
    cases result with
    | idle | failed | panicked => trivial
    | sent c₂ again =>
      cases again with
      | false => trivial
      | true => exact kept
  obtain ⟨fuel, outcome, done⟩ := ended
  exact ⟨outcome, fuel, done⟩

end

/-! ## Events -/

section

variable {c c' : Tcpcb} {s : Sender}

/-- What the call of `tcp_output` with which an event ends finds. -/
def Handled (c : Tcpcb) : After → Prop
  | .moreinput | .output | .close => Ready c.toSender
  | .resend onxt => Ready c.toSender ∧ 0 ≤ Seq.ahead onxt c.sndUna ∧ Seq.ahead onxt c.sndUna ≤ Seq.ahead c.sndMax c.sndUna
  | .crashed fault => fault ≠ .divide

theorem segment_handled {env : Env} {ti : Tcpiphdr} (ok : SegmentOk env ti) (ready : Ready c.toSender) :
    Handled (tcpUinput env ti c).1 (tcpUinput env ti c).2 := by
  have done := tcpUinput_moves env ti c
  generalize tcpUinput env ti c = ended at done ⊢
  obtain ⟨c', after⟩ := ended
  cases after with
  | moreinput | output => exact moves_ready ok ready done
  | close => exact done.elim
  | resend onxt =>
    obtain ⟨s₁, win, moves, late, again, running, positive, rfl, last⟩ := done
    have ready₁ := moves_ready ok ready moves
    have ready₂ := move_ready ok ready₁ (.loss s₁ win again running positive)
    have last : c'.toSender = lossFound ti.ack win s₁ := last
    unfold Handled
    rw [last]
    exact ⟨ready₂, ready₁.sound.behind, ready₁.sound.inside⟩
  | crashed fault =>
    cases fault with
    | null => exact nofun
    | divide =>
      obtain ⟨s₁, moves, zero⟩ := done
      have positive := (moves_ready ok ready moves).sound.maxseg
      omega
    | panic => exact done.elim

theorem tcpDropNow_handled (ready : Ready c.toSender) : Handled (tcpDropNow c).1 (tcpDropNow c).2 := by
  unfold tcpDropNow
  split
  · exact toClosed_ready ready
  · exact ready

theorem tcpUsrclosed_ready (ready : Ready s) : Ready (tcpUsrclosed s) := by
  obtain ⟨sound, waits, few⟩ := ready
  unfold tcpUsrclosed
  split
  · next state =>
    have unsent := not_sentfin sound (by rw [state]; decide) (by rw [state]; decide)
    have sent {P : Prop} (sent : s.sentfin = true) : P := absurd (unsent.symm.trans sent) Bool.false_ne_true
    exact ⟨{ sound with syn := nofun, late := sent }, sent, few⟩
  · next state =>
    have unsent := not_sentfin sound (by rw [state]; decide) (by rw [state]; decide)
    have sent {P : Prop} (sent : s.sentfin = true) : P := absurd (unsent.symm.trans sent) Bool.false_ne_true
    exact ⟨{ sound with syn := nofun, late := sent }, sent, few⟩
  · exact ⟨sound, waits, few⟩

theorem tcpDisconnect_handled (ready : Ready c.toSender) : Handled (tcpDisconnect c).1 (tcpDisconnect c).2 := by
  unfold tcpDisconnect
  split
  · exact ready
  · split
    · exact tcpDropNow_handled ready
    · exact tcpUsrclosed_ready ready

theorem backOff_eq (s : Sender) : ∃ shift cur rexmt rttvar srtt,
    backOff s = { s with tRxtshift := shift, tRxtcur := cur, rexmt := rexmt, tRttvar := rttvar, tSrtt := srtt } := by
  unfold backOff
  simp only []
  split
  · exact ⟨_, _, _, _, _, rfl⟩
  · exact ⟨_, _, _, s.tRttvar, s.tSrtt, rfl⟩

theorem resendAll_ready (win : Nat) (ready : Ready s) : Ready (resendAll win (backOff s)) := by
  obtain ⟨sound, waits, few⟩ := ready
  obtain ⟨_, _, _, _, _, same⟩ := backOff_eq s
  have order := sound.behind.trans sound.inside
  rw [same]
  refine ⟨{ sound with
    cwnd := sound.maxseg
    cwndMost := sound.maxsegMost
    behind := ?_
    inside := ?_ }, waits, few⟩
  · exact (Seq.ahead_self s.sndUna).ge
  · exact (Seq.ahead_self s.sndUna).le.trans order

theorem rexmtTimer_handled (ready : Ready c.toSender) : Handled (rexmtTimer c).1 (rexmtTimer c).2 := by
  unfold rexmtTimer
  split
  · exact tcpDropNow_handled ⟨{ ready.sound with }, ready.waits, ready.few⟩
  · have positive := ready.sound.maxseg
    unfold halfWindow
    split
    · next none =>
      split at none
      · omega
      · cases none
    · exact resendAll_ready _ ready

theorem keepTimer_handled (ready : Ready c.toSender) : Handled (keepTimer c).1 (keepTimer c).2 := by
  have kept (keep : Nat) : Ready { c.toSender with keep := keep } := ⟨{ ready.sound with }, ready.waits, ready.few⟩
  unfold keepTimer
  split
  · exact tcpDropNow_handled ready
  · split
    · split
      · exact tcpDropNow_handled ready
      · exact kept _
    · exact kept _

theorem msl2Timer_handled (ready : Ready c.toSender) : Handled (msl2Timer c).1 (msl2Timer c).2 := by
  obtain ⟨sound, waits, few⟩ := ready
  unfold msl2Timer
  split
  · have kept : Ready { c.toSender with msl2 := tcpKeepintvl } := ⟨{ sound with }, waits, few⟩
    exact kept
  · have kept : Ready { c.toSender with tState := .closed } := ⟨{ sound with syn := nofun, late := fun _ => .inr rfl }, nofun, few⟩
    exact kept

theorem setTimer_ready (t : Timer) (n : Nat) (ready : Ready s) : Ready (setTimer t n s) := by
  obtain ⟨sound, waits, few⟩ := ready
  cases t with
  | rexmt | persist | keep | msl2 => exact ⟨{ sound with }, waits, few⟩

theorem tick_handled (t : Timer) (ready : Ready c.toSender) : Handled (tick t c).1 (tick t c).2 := by
  unfold tick
  split
  · exact ready
  · split
    · have ready₁ : Ready (c.sending (setTimer t 0)).toSender := setTimer_ready t 0 ready
      cases t with
      | rexmt => exact rexmtTimer_handled ready₁
      | persist =>
        unfold tcpTimers
        simp only []
        split
        · exact nofun
        · have kept : Ready { tcpSetpersist (setTimer .persist 0 c.toSender) with tForce := true } :=
            ⟨{ ready₁.sound with }, ready₁.waits, ready₁.few⟩
          exact kept
      | keep => exact keepTimer_handled ready₁
      | msl2 => exact msl2Timer_handled ready₁
    · exact setTimer_ready t _ ready

/-- The condition on an event. -/
def Calm (c : Tcpcb) (e : Event × Call) : Prop :=
  Few c.toSender ∧ Wide e.2.route ∧
    match e.1 with
    | .segment env ti => SegmentOk env ti
    | .connect _ => c.sentfin = false
    | _ => True

instance (c : Tcpcb) (e : Event × Call) : Decidable (Calm c e) :=
  have : Decidable (match e.1 with
    | .segment env ti => SegmentOk env ti
    | .connect _ => c.sentfin = false
    | _ => True) := by
    split <;> infer_instance
  inferInstanceAs (Decidable (_ ∧ _ ∧ _))

theorem putq_ready (m : List Block) (ready : Ready s) : Ready (putq m s) := by
  have queue : s.tQsize + msgsize m ≤ (qbytes (s.wq ++ [m])).length := by
    have := ready.sound.queue
    unfold msgsize qbytes at *
    rw [List.flatten_append, List.flatten_append, List.length_append, List.flatten_singleton]
    omega
  exact ⟨{ ready.sound with queue := queue }, ready.waits, ready.few⟩

theorem detach_ready (linger : Bool) (ready : Ready s) : Ready (detach linger s) := by
  unfold detach
  split
  · exact ⟨{ ready.sound with }, ready.waits, ready.few⟩
  · exact ⟨{ ready.sound with queue := Nat.zero_le _ }, ready.waits, ready.few⟩

theorem connect_ready (iss : Seq) (unsent : s.sentfin = false) (ready : Ready s) : Ready (connect iss s) := by
  have sent {P : Prop} (sent : s.sentfin = true) : P := absurd (unsent.symm.trans sent) Bool.false_ne_true
  have few : Few (connect iss s) := by
    change Seq.ahead iss iss < 1073741824
    rw [Seq.ahead_self]
    decide
  exact ⟨{ ready.sound with
    behind := (Seq.ahead_self iss).ge
    inside := le_refl _
    syn := fun _ => rfl
    late := sent }, nofun, few⟩

theorem handle_handled (e : Event) (call : Call) (calm : Calm c (e, call)) (ready : Ready c.toSender) :
    Handled (handle e c).1 (handle e c).2 := by
  have quiet := ready.sound
  have ⟨_, _, allowed⟩ := calm
  unfold handle
  split
  · exact ready
  · cases e with
    | segment env ti => exact segment_handled allowed ready
    | output => exact ready
    | connect iss =>
      simp only []
      split
      · exact connect_ready iss allowed ready
      · exact ready
    | data m => exact putq_ready m ready
    | exdata m =>
      have put := putq_ready m ready
      have urged : Ready (putUrgent m c.toSender) := ⟨{ put.sound with }, put.waits, put.few⟩
      exact urged
    | flush =>
      have flushed : Ready { c.toSender with tQsize := 0, wq := [] } := ⟨{ quiet with queue := Nat.zero_le _ }, ready.waits, ready.few⟩
      exact flushed
    | ordrel => exact tcpDisconnect_handled ready
    | accept qHiwat =>
      have accepted : Ready { c.toSender with inpQ := true } := ⟨{ quiet with }, ready.waits, ready.few⟩
      exact accepted
    | close =>
      simp only []
      unfold tcpclose
      simp only []
      split
      · exact tcpDisconnect_handled ready
      · exact ready
    | detach linger =>
      simp only []
      split
      · exact detach_ready linger ready
      · exact ready
    | lingertimer =>
      simp only []
      split
      · have done : Ready { c.toSender with tQsize := 0, lingering := false, inpQ := false } :=
          ⟨{ quiet with queue := Nat.zero_le _ }, ready.waits, ready.few⟩
        exact done
      · exact ready
    | tick t => exact tick_handled t ready
    | slowtimo =>
      have timed : Ready { c.toSender with tRtt := if c.tRtt ≠ 0 then Words.toShort (c.tRtt + 1) else 0 } :=
        ⟨{ quiet with }, ready.waits, ready.few⟩
      exact timed
    | fasttimo =>
      simp only []
      split
      · exact ready
      · exact ready
    | deqdata ups =>
      simp only []
      split
      · exact nofun
      · exact ready
    | quench =>
      have shut : Ready { c.toSender with sndCwnd := c.tMaxseg } :=
        ⟨{ quiet with cwnd := quiet.maxseg, cwndMost := quiet.maxsegMost }, ready.waits, ready.few⟩
      exact shut

theorem step_kept {e : Event × Call} (calm : Calm c e) (sound : Sound c.toSender) (waits : Waits c.toSender) (step : Step c e c') :
    Sound c'.toSender ∧ Waits c'.toSender := by
  obtain ⟨e, call⟩ := e
  have ready : Ready c.toSender := ⟨sound, waits, calm.1⟩
  have handled := handle_handled e call calm ready
  have step : Ends call (handle e c).1 (handle e c).2 c' := step
  generalize handle e c = result at handled step
  obtain ⟨c₁, after⟩ := result
  cases after with
  | moreinput =>
    have handled : Ready c₁.toSender := handled
    have step : c' = c₁ := step
    rw [step]
    exact ⟨handled.sound, handled.waits⟩
  | output =>
    obtain ⟨failed, done⟩ := step
    have further := outputs_further calm.2.1 handled done
    exact ⟨further.sound, further.waits⟩
  | resend onxt =>
    obtain ⟨ready₁, low, high⟩ := handled
    obtain ⟨failed, c₂, done, same⟩ := step
    have further := outputs_further calm.2.1 ready₁ done
    rw [same]
    split
    · refine ⟨{ further.sound with behind := ?_, inside := ?_ }, further.waits⟩
      · dsimp only
        rw [further.same]
        exact low
      · dsimp only
        have max := further.max
        rw [further.same]
        exact high.trans max
    · exact ⟨further.sound, further.waits⟩
  | close =>
    obtain ⟨failed, c₂, done, same⟩ := step
    have further := outputs_further calm.2.1 handled done
    rw [same]
    exact ⟨further.sound, further.waits⟩
  | crashed fault => exact step.elim

theorem made_kept (made : Made c) : Sound c.toSender ∧ Waits c.toSender := by
  obtain ⟨e, rfl⟩ := made
  refine ⟨⟨?_, ?_, ?_, ?_, ?_, ?_, ?_, ?_, ?_⟩, ?_⟩
  · exact (by decide : 1 ≤ 65535)
  · exact le_refl 65535
  · exact (by decide : 1 ≤ 65535)
  · exact le_refl 65535
  · exact (Seq.ahead_self 0).ge
  · exact le_refl _
  · exact fun _ => rfl
  · exact nofun
  · exact Nat.zero_le _
  · exact nofun

end

/-- The options of a SYN are harmless, `tcp_output` comes to an end, and nothing divides by zero. -/
structure Unbroken (c : Tcpcb) (e : Event × Call) : Prop where
  options : ∀ env ti, e.1 = .segment env ti → ti.flags.syn = true → ∀ s : Sender, s.tMaxseg = c.tMaxseg →
    ∃ s' reads, tcpDooptions env.route true env.options s = some (s', reads) ∧ (∀ r ∈ reads, r < env.options.cnt) ∧ 1 ≤ s'.tMaxseg
  cwnd : 1 ≤ c.sndCwnd
  undivided : (handle e.1 c).2 ≠ .crashed .divide
  ends : (handle e.1 c).2.callsOutput = true → ∃ outcome, Outputs e.2.alloc e.2.route (handle e.1 c).1 outcome

/-- No peer breaks the sender of a run with harmless options. -/
theorem sender_unbroken {c : Tcpcb} {e : Event × Call} (reached : Reaches Made Step Calm c) (calm : Calm c e) : Unbroken c e := by
  have kept : Sound c.toSender ∧ Waits c.toSender :=
    reached.invariant (fun _ => made_kept) fun _ _ _ kept step calm => step_kept calm kept.1 kept.2 step
  have ready : Ready c.toSender := ⟨kept.1, kept.2, calm.1⟩
  have handled := handle_handled e.1 e.2 calm ready
  refine ⟨?_, ready.sound.cwnd, ?_, ?_⟩
  · intro env ti segment syn s same
    have ok : SegmentOk env ti := by
      have allowed := calm.2.2
      rw [segment] at allowed
      exact allowed
    obtain ⟨s', reads, scanned⟩ := scanOptions_total env.options.cnt env.options.cnt 0 s (le_refl _)
    have exact := scanOptions_harmless ok.1 env.options.cnt env.options.cnt 0 (same ▸ ready.sound.maxsegMost) scanned
    rw [decide_eq_true (same ▸ ready.sound.maxseg), ok.2 syn, Nat.zero_add] at exact
    have ⟨inside, positive⟩ := exact.mpr rfl
    exact ⟨s', reads, scanned, inside, positive⟩
  · intro crashed
    rw [crashed] at handled
    exact handled rfl
  · intro calls
    have ready₁ : Ready (handle e.1 c).1.toSender := by
      generalize handle e.1 c = result at handled calls ⊢
      obtain ⟨c₁, after⟩ := result
      cases after with
      | moreinput => cases calls
      | output | close => exact handled
      | resend onxt => exact handled.1
      | crashed fault => cases calls
    exact outputs_ends calm.2.1 e.2.alloc ready₁

/-- A SYN with the option of a size of its segments. -/
def synWith (high low : UInt8) : Event × Call :=
  (.segment ⟨none, ⟨fun i => [2, 4, high, low].getD i 0, 4⟩, true, 1000, true, false, []⟩
    ⟨5000, 0, { Flags.none with syn := true }, 4096, 0, []⟩, ⟨[], none⟩)

def listener : Tcpcb := tcpNewtcpcb ⟨true, false, false, false, false, false, true, 4096⟩

theorem sender_unbroken_ordinary : Unbroken listener (synWith 5 180) :=
  sender_unbroken (.start ⟨_, rfl⟩) (by decide +kernel)

/-- An option with a size of zero. -/
theorem sender_broken : ¬ ∀ (c : Tcpcb) (e : Event × Call), Reaches Made Step (fun _ _ => True) c → Unbroken c e := by
  intro unbroken
  have options := (unbroken listener (synWith 0 0) (.start ⟨_, rfl⟩)).options _ _ rfl rfl listener.toSender rfl
  obtain ⟨s', reads, scanned, inside, positive⟩ := options
  have exact := (scanOptions_harmless (by decide : Wide none) 4 4 0 (by decide) scanned).mp ⟨inside, positive⟩
  cases exact

end Svr4.Tcp
