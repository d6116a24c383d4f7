import Svr4.Kernel.Tcp.Moves
import Svr4.Kernel.Tcp.Passes

/-! The retransmit and the persist timer: never both, and when one of them runs after a call of `tcp_output`. -/

namespace Svr4.Tcp

open Relation
open Nat (zero_le)

structure Timed (s : Sender) : Prop where
  one : s.rexmt = 0 ∨ s.persist = 0
  shift : s.tRxtshift ≤ tcpMaxrxtshift
  cur : 2 ≤ s.tRxtcur
  queue : s.tQsize ≤ (qbytes s.wq).length

/-! ## Segments -/

section

variable {env : Env} {ti : Tcpiphdr} {s s' : Sender}

theorem tcpCancelinger_timed (timed : Timed s) : Timed (tcpCancelinger s) := by
  unfold tcpCancelinger
  split
  · exact { timed with }
  · exact timed

theorem toClosed_timed (timed : Timed s) : Timed (toClosed s) := { tcpCancelinger_timed timed with }

theorem ackDrop_timed (ack : Seq) (timed : Timed s) : Timed (ackDrop ack s) := by
  have queue : s.tQsize - min (Seq.ahead ack s.sndUna).toNat s.tQsize ≤
      (qbytes (if s.inpQ then tcpQdrop (min (Seq.ahead ack s.sndUna).toNat s.tQsize) s.wq else s.wq)).length := by
    have := timed.queue
    split
    · rw [tcpQdrop_spec, List.length_drop]
      omega
    · omega
  exact { timed with queue := queue }

theorem newAck_timed (ack : Seq) (timed : Timed s) : Timed (newAck ack s) := by
  obtain ⟨rtt, shift, srtt, rttvar, cur, updated, shifted, least⟩ := rttUpdate_eq ack { s with tDupacks := 0 }
  obtain ⟨rexmt, started, running⟩ := ackTimer_eq ack (rttUpdate ack { s with tDupacks := 0 })
  rw [updated] at started running
  have most := timed.shift
  have min := timed.cur
  have one : rexmt = 0 ∨ s.persist = 0 := by
    obtain none | idle | same := running
    · exact .inl none
    · exact .inr idle
    · exact timed.one.imp_left same.trans
  have first : Timed (ackTimer ack (rttUpdate ack { s with tDupacks := 0 })) := by
    rw [updated, started]
    refine { timed with one := one, shift := ?_, cur := ?_ }
    · obtain rfl | rfl := shifted
      · exact zero_le _
      · exact most
    · obtain low | rfl := least
      · exact low
      · exact min
  have second : Timed (openCwnd (ackTimer ack (rttUpdate ack { s with tDupacks := 0 }))) := { first with }
  exact ackDrop_timed ack second

theorem finDone_timed (cantrcvmore : Bool) (timed : Timed s) : Timed (finDone cantrcvmore s) := by
  have quiet : Timed (tcpCanceltimers s) := { timed with one := .inl rfl }
  unfold finDone
  split
  · exact { tcpCancelinger_timed timed with }
  · exact { tcpCancelinger_timed quiet with }
  · exact toClosed_timed timed
  · exact timed

theorem finReceived_timed (timed : Timed s) : Timed (finReceived s) := by
  unfold finReceived
  split
  · exact { timed with }
  · exact { timed with }
  · exact { timed with }
  · exact { timed with one := .inl rfl }
  · exact { timed with }
  · exact timed

theorem synTimed_timed (timed : Timed s) : Timed (synTimed s) := by
  unfold synTimed
  split
  · exact { timed with cur := rangeset_low _ _ _ (by decide) }
  · exact timed

theorem move_timed (timed : Timed s) (move : Move env ti s s') : Timed s' := by
  cases move with
  | options scanned =>
    obtain ⟨_, _, same⟩ := tcpDooptions_eq scanned
    rw [same]
    exact { timed with }
  | clip =>
    obtain ⟨_, _, same⟩ := clipMaxseg_eq env.route s
    rw [same]
    exact { timed with }
  | quiet => exact { timed with }
  | passive => exact { timed with }
  | synAcked => exact { timed with one := .inl rfl }
  | synTimed => exact synTimed_timed timed
  | syn => exact { timed with one := .inl rfl }
  | established => exact { timed with }
  | closed => exact toClosed_timed timed
  | loss => exact { timed with one := .inl rfl }
  | acked _ cantrcvmore =>
    split
    · exact finDone_timed cantrcvmore (newAck_timed ti.ack timed)
    · exact newAck_timed ti.ack timed
  | window => exact { timed with }
  | fin => exact finReceived_timed timed

theorem moves_timed (timed : Timed s) (moves : Moves env ti s s') : Timed s' := by
  induction moves with
  | refl => exact timed
  | tail _ move ih => exact move_timed ih move

end

/-! ## Calls of `tcp_output` -/

section

variable {route : Option Route} {s : Sender} {c c' : Tcpcb} {alloc : List Bool} {flags : Flags} {n : Nat}

section
variable (timed : Timed s)
include timed

theorem plan_timed : Timed (plan s).1 := by
  obtain ⟨persist, shift, rexmt, _, same, _, persists, shifts, runs⟩ := plan_eq s
  have one := timed.one
  have most := timed.shift
  rw [same]
  refine { timed with one := ?_, shift := ?_ }
  · obtain rfl | rfl := runs
    · exact .inl rfl
    · obtain rfl | rfl := persists
      · exact .inr rfl
      · exact one
  · obtain rfl | rfl := shifts
    · exact zero_le _
    · exact most

theorem retreat_timed : Timed (retreat flags s) := by
  unfold retreat
  split
  · exact { timed with }
  · exact timed

theorem opens_timed : Timed (opens route flags s) := by
  unfold opens
  split
  · obtain ⟨_, same⟩ := mssOf_eq route s
    rw [same]
    exact { timed with }
  · exact timed

theorem dragUp_timed : Timed (dragUp s) := by
  unfold dragUp
  split
  · exact timed
  · exact { timed with }

theorem transmit_timed : Timed (transmit flags n s) := by
  have one := timed.one
  have most := timed.shift
  obtain ⟨_, _, _, _, _, _, timers, same⟩ | ⟨_, same⟩ := transmit_cases flags n s
  · rw [same]
    refine { timed with one := ?_, shift := ?_ }
    · obtain ⟨_, _, _, none, _⟩ | ⟨_, rexmt, persist, _⟩ := timers
      · exact .inr none
      · exact one.imp rexmt.trans persist.trans
    · obtain ⟨_, _, _, _, none | shift⟩ | ⟨_, _, _, shift⟩ := timers
      · exact none.le.trans (zero_le _)
      · exact shift.le.trans most
      · exact shift.le.trans most
  · rw [same]
    exact { timed with }

end

theorem tcpSetpersist_timed (idle : s.rexmt = 0) (timed : Timed s) : Timed (tcpSetpersist s) := by
  have most := timed.shift
  refine { timed with one := .inl idle, shift := ?_ }
  change (if s.tRxtshift < tcpMaxrxtshift then s.tRxtshift + 1 else s.tRxtshift) ≤ tcpMaxrxtshift
  split <;> omega

theorem startPersist_timed (timed : Timed s) : Timed (startPersist s) := by
  unfold startPersist
  split
  · next starts =>
    have quiet : Timed { s with tRxtshift := 0 } := { timed with shift := zero_le _ }
    exact tcpSetpersist_timed starts.2.1 quiet
  · exact timed

theorem readied_timed (timed : Timed c.toSender) : Timed (readied route c).toSender :=
  opens_timed (retreat_timed (plan_timed timed))

theorem transmitted_timed (timed : Timed c.toSender) : Timed (transmitted route n c).toSender :=
  transmit_timed (dragUp_timed (readied_timed timed))

theorem pass_timed (alloc : List Bool) (idle : Bool) (c : Tcpcb) (timed : Timed c.toSender) :
    (pass alloc route idle c).1.Leaves (fun c' _ => Timed c'.toSender) fun c' => Timed c'.toSender := by
  have shape := pass_of alloc route idle c
  generalize (pass alloc route idle c).1 = passed at shape ⊢
  cases shape with
  | idle => exact startPersist_timed (plan_timed timed)
  | waits => exact plan_timed timed
  | panicked => trivial
  | unopened => exact readied_timed timed
  | unsent => exact transmitted_timed timed
  | @sent data =>
    have last : Timed (finished route data c).toSender := by
      unfold finished
      rw [finish_toSender]
      exact { transmitted_timed timed with }
    cases (planOf c).sendalot with
    | false => exact last
    | true => exact last

theorem outputs_timed {failed : Bool} (timed : Timed c.toSender) (done : Outputs alloc route c (.returned c' failed)) :
    Timed c'.toSender :=
  outputs_keeps (fun alloc idle c => pass_timed alloc idle c) timed done

end

/-! ## Events -/

section

variable {s : Sender} {c c' : Tcpcb}

theorem tcpDropNow_timed (timed : Timed c.toSender) : Timed (tcpDropNow c).1.toSender := by
  unfold tcpDropNow
  split
  · exact toClosed_timed timed
  · exact timed

theorem tcpDropNow_calm (c : Tcpcb) : (tcpDropNow c).2 ≠ .crashed .panic := by
  unfold tcpDropNow
  split
  · exact nofun
  · exact nofun

theorem tcpUsrclosed_timed (timed : Timed s) : Timed (tcpUsrclosed s) := by
  unfold tcpUsrclosed
  split
  · exact { timed with }
  · exact { timed with }
  · exact timed

theorem tcpDisconnect_timed (timed : Timed c.toSender) : Timed (tcpDisconnect c).1.toSender ∧ (tcpDisconnect c).2 ≠ .crashed .panic := by
  unfold tcpDisconnect
  split
  · exact ⟨timed, nofun⟩
  · split
    · exact ⟨tcpDropNow_timed timed, tcpDropNow_calm c⟩
    · exact ⟨tcpUsrclosed_timed timed, nofun⟩

theorem backOff_timed (least : s.tRxtshift + 1 ≤ tcpMaxrxtshift) (idle : s.persist = 0) (timed : Timed s) : Timed (backOff s) := by
  have cur : 2 ≤ rangeset ((s.tSrtt / 4 + s.tRttvar) / 2 * backoff (s.tRxtshift + 1)) tcptvMin tcptvRexmtmax :=
    rangeset_low _ _ _ (by decide)
  unfold backOff
  simp only []
  split
  · exact { timed with one := .inr idle, shift := least, cur := cur }
  · exact { timed with one := .inr idle, shift := least, cur := cur }

theorem rexmtTimer_timed (idle : c.persist = 0) (timed : Timed c.toSender) :
    Timed (rexmtTimer c).1.toSender ∧ (rexmtTimer c).2 ≠ .crashed .panic := by
  unfold rexmtTimer
  split
  · have full : Timed { c with tRxtshift := tcpMaxrxtshift : Tcpcb }.toSender := { timed with shift := le_refl _ }
    exact ⟨tcpDropNow_timed full, tcpDropNow_calm _⟩
  · next room =>
    have backed := backOff_timed (not_lt.mp room) idle timed
    split
    · exact ⟨backed, nofun⟩
    · exact ⟨{ backed with }, nofun⟩

theorem keepTimer_timed (timed : Timed c.toSender) : Timed (keepTimer c).1.toSender ∧ (keepTimer c).2 ≠ .crashed .panic := by
  unfold keepTimer
  split
  · exact ⟨tcpDropNow_timed timed, tcpDropNow_calm c⟩
  · split
    · split
      · exact ⟨tcpDropNow_timed timed, tcpDropNow_calm c⟩
      · exact ⟨{ timed with }, nofun⟩
    · exact ⟨{ timed with }, nofun⟩

theorem msl2Timer_timed (timed : Timed c.toSender) : Timed (msl2Timer c).1.toSender ∧ (msl2Timer c).2 ≠ .crashed .panic := by
  unfold msl2Timer
  split
  · exact ⟨{ timed with }, nofun⟩
  · exact ⟨{ timed with }, nofun⟩

theorem tick_timed (t : Timer) (timed : Timed c.toSender) : Timed (tick t c).1.toSender ∧ (tick t c).2 ≠ .crashed .panic := by
  have one := timed.one
  unfold tick
  split
  · exact ⟨timed, nofun⟩
  · next runs =>
    split
    · cases t with
      | rexmt =>
        have idle : c.persist = 0 := one.resolve_left runs
        have stopped : Timed (c.sending (setTimer .rexmt 0)).toSender := { timed with one := .inl rfl }
        exact rexmtTimer_timed idle stopped
      | persist =>
        have idle : c.rexmt = 0 := one.resolve_right runs
        have stopped : Timed (setTimer .persist 0 c.toSender) := { timed with one := .inr rfl }
        have started := tcpSetpersist_timed (show (setTimer .persist 0 c.toSender).rexmt = 0 from idle) stopped
        unfold tcpTimers
        rw [if_neg (fun runs : (c.sending (setTimer .persist 0)).rexmt ≠ 0 => runs idle)]
        exact ⟨{ started with }, nofun⟩
      | keep =>
        have stopped : Timed (c.sending (setTimer .keep 0)).toSender := { timed with }
        exact keepTimer_timed stopped
      | msl2 =>
        have stopped : Timed (c.sending (setTimer .msl2 0)).toSender := { timed with }
        exact msl2Timer_timed stopped
    · refine ⟨?_, nofun⟩
      cases t with
      | rexmt => exact { timed with one := .inr (one.resolve_left runs) }
      | persist => exact { timed with one := .inl (one.resolve_right runs) }
      | keep => exact { timed with }
      | msl2 => exact { timed with }

/-- What an event leaves, unless it ends in a crash; never the panic of `tcp_setpersist`. -/
def Held (c : Tcpcb) : After → Prop
  | .moreinput | .output | .resend _ | .close => Timed c.toSender
  | .crashed fault => fault ≠ .panic

theorem held_of {after : After} (timed : Timed c.toSender) (calm : after ≠ .crashed .panic) : Held c after := by
  cases after with
  | moreinput | output | resend | close => exact timed
  | crashed fault => exact fun panic => calm (congrArg After.crashed panic)

theorem segment_held {env : Env} {ti : Tcpiphdr} (timed : Timed c.toSender) : Held (tcpUinput env ti c).1 (tcpUinput env ti c).2 := by
  have done := tcpUinput_moves env ti c
  generalize tcpUinput env ti c = ended at done ⊢
  obtain ⟨c', after⟩ := ended
  cases after with
  | moreinput | output => exact moves_timed timed done
  | close => exact done.elim
  | resend onxt =>
    obtain ⟨s₁, win, moves, late, again, running, positive, _, last⟩ := done
    have last : c'.toSender = lossFound ti.ack win s₁ := last
    have loss : Move env ti s₁ (lossFound ti.ack win s₁) := .loss s₁ win again running positive
    change Timed c'.toSender
    rw [last]
    exact move_timed (moves_timed timed moves) loss
  | crashed fault =>
    cases fault with
    | null | divide => exact nofun
    | panic => exact done.elim

theorem putq_timed (m : List Block) (timed : Timed s) : Timed (putq m s) := by
  have queue : s.tQsize + msgsize m ≤ (qbytes (s.wq ++ [m])).length := by
    have := timed.queue
    unfold msgsize qbytes at *
    rw [List.flatten_append, List.flatten_append, List.length_append, List.flatten_singleton]
    omega
  exact { timed with queue := queue }

theorem detach_timed (linger : Bool) (timed : Timed s) : Timed (detach linger s) := by
  unfold detach
  split
  · exact { timed with }
  · exact { timed with queue := zero_le _ }

theorem handle_held (e : Event) (timed : Timed c.toSender) : Held (handle e c).1 (handle e c).2 := by
  unfold handle
  split
  · exact timed
  · cases e with
    | segment env ti => exact segment_held timed
    | output => exact timed
    | connect iss =>
      simp only []
      split
      · have connected : Timed (connect iss c.toSender) := { timed with }
        exact connected
      · exact timed
    | data m => exact putq_timed m timed
    | exdata m =>
      have urged : Timed (putUrgent m c.toSender) := { putq_timed m timed with }
      exact urged
    | flush =>
      have flushed : Timed { c.toSender with tQsize := 0, wq := [] } := { timed with queue := zero_le _ }
      exact flushed
    | ordrel =>
      have ⟨kept, calm⟩ := tcpDisconnect_timed timed
      exact held_of kept calm
    | accept qHiwat =>
      have accepted : Timed { c.toSender with inpQ := true } := { timed with }
      exact accepted
    | close =>
      simp only []
      unfold tcpclose
      simp only []
      split
      · have same : Timed { c with nofdref := true, cantrcvmore := true : Tcpcb }.toSender := timed
        have ⟨kept, calm⟩ := tcpDisconnect_timed same
        exact held_of kept calm
      · exact timed
    | detach linger =>
      simp only []
      split
      · exact detach_timed linger timed
      · exact timed
    | lingertimer =>
      simp only []
      split
      · have done : Timed { c.toSender with tQsize := 0, lingering := false, inpQ := false } :=
          { timed with queue := zero_le _ }
        exact done
      · exact timed
    | tick t =>
      have ⟨kept, calm⟩ := tick_timed t timed
      exact held_of kept calm
    | slowtimo =>
      have counted : Timed { c.toSender with tRtt := if c.tRtt ≠ 0 then Words.toShort (c.tRtt + 1) else 0 } := { timed with }
      exact counted
    | fasttimo =>
      simp only []
      split
      · exact timed
      · exact timed
    | deqdata ups =>
      simp only []
      split
      · exact nofun
      · exact timed
    | quench =>
      have shut : Timed { c.toSender with sndCwnd := c.tMaxseg } := { timed with }
      exact shut

theorem step_timed {e : Event × Call} (timed : Timed c.toSender) (step : Step c e c') : Timed c'.toSender := by
  obtain ⟨e, call⟩ := e
  have held := handle_held e timed
  have step : Ends call (handle e c).1 (handle e c).2 c' := step
  generalize handle e c = result at held step
  obtain ⟨c₁, after⟩ := result
  cases after with
  | moreinput =>
    have step : c' = c₁ := step
    rw [step]
    exact held
  | output =>
    obtain ⟨failed, done⟩ := step
    exact outputs_timed held done
  | resend onxt =>
    obtain ⟨failed, c₂, done, same⟩ := step
    have kept := outputs_timed held done
    rw [same]
    split
    · exact { kept with }
    · exact kept
  | close =>
    obtain ⟨failed, c₂, done, same⟩ := step
    have kept := outputs_timed held done
    rw [same]
    exact kept
  | crashed fault => exact step.elim

theorem made_timed (made : Made c) : Timed c.toSender := by
  obtain ⟨e, rfl⟩ := made
  exact ⟨.inl rfl, zero_le _, (by decide : 2 ≤ 12), zero_le _⟩

theorem reached_timed {guard : Tcpcb → Event × Call → Prop} (reached : Reaches Made Step guard c) : Timed c.toSender :=
  reached.invariant (fun _ => made_timed) fun _ _ _ timed step _ => step_timed timed step

end

/-! ## A timer that runs after a call -/

/-- One of the timers runs while something is outstanding or queued. -/
def Live (s : Sender) : Prop := s.sndMax ≠ s.sndUna ∨ 0 < s.tQsize → s.rexmt ≠ 0 ∨ s.persist ≠ 0

/-- The numbers are in order, and the congestion window is one. -/
structure Orderly (s : Sender) : Prop where
  behind : 0 ≤ Seq.ahead s.sndNxt s.sndUna
  outstanding : 0 ≤ Seq.ahead s.sndMax s.sndUna
  cwnd : s.sndCwnd ≤ 65535

/-- No timer runs and no data may be sent: the segment that is still due starts no timer,
or none is due and there is nothing to persist for. -/
def Stuck (c : Tcpcb) : Prop :=
  (planOf c).sendalot = false ∧ (planOf c).len = 0 ∧ (planned c).rexmt = 0 ∧ (planned c).persist = 0 ∧
    if sendDue (c.sndMax = c.sndUna) (planned c) (planOf c) then
      (planned c).sndNxt = c.sndUna ∧ (c.sndMax ≠ c.sndUna ∨ 0 < c.tQsize)
    else c.tQsize = 0 ∧ c.sndMax ≠ c.sndUna

section

variable {route : Option Route} {s : Sender} {c c' : Tcpcb} {alloc : List Bool} {flags : Flags} {n : Nat} {data : List UInt8} {idle : Bool}

section
variable (late : c.tState = .established ∨ c.tState = .closeWait)
include late

theorem plan_plain :
    (planOf c).flags.syn = false ∧ (planOf c).flags.fin = false := by
  obtain ⟨fin, flags, early⟩ := plan_flags c.toSender
  have quiet : c.tState.outflags.fin = false ∧ c.tState.outflags.syn = false := by
    obtain state | state := late
    · rw [state]
      exact ⟨rfl, rfl⟩
    · rw [state]
      exact ⟨rfl, rfl⟩
  unfold planOf
  rw [flags]
  refine ⟨quiet.2, ?_⟩
  cases fin with
  | false => rfl
  | true => exact absurd (early rfl) (by rw [quiet.1]; decide)

theorem readied_plain : readied route c = planned c := by
  have ⟨syn, fin⟩ := plan_plain late
  have same : (fun s => opens route (planOf c).flags (retreat (planOf c).flags s)) = id := by
    funext s
    unfold opens retreat
    rw [syn, fin]
    simp
  unfold readied
  rw [same]
  rfl

theorem transmitted_plain :
    (transmitted route n c).toSender = transmit (planOf c).flags n (dragUp (planned c).toSender) := by
  unfold transmitted
  rw [readied_plain late]
  rfl

theorem numbers_plain (n : Nat) : numbers (planOf c).flags n = n := by
  have ⟨syn, fin⟩ := plan_plain late
  unfold numbers
  rw [syn, fin]
  simp

end

/-- What is behind `snd_una` starts a timer. -/
theorem transmit_live (cur : 2 ≤ s.tRxtcur) (apart : s.sndNxt + BitVec.ofNat 32 (numbers flags n) ≠ s.sndUna) :
    (transmit flags n s).rexmt ≠ 0 ∨ (transmit flags n s).persist ≠ 0 := by
  obtain ⟨_, _, _, _, _, _, timers, same⟩ | ⟨persisting, same⟩ := transmit_cases flags n s
  · rw [same]
    left
    obtain ⟨_, _, rexmt, _⟩ | ⟨idle, rexmt, _⟩ := timers
    · dsimp only
      omega
    · dsimp only
      rw [rexmt]
      exact fun none => apart (idle none)
  · rw [same]
    exact .inr persisting.2

theorem startPersist_live (queued : s.tQsize ≠ 0) : (startPersist s).rexmt ≠ 0 ∨ (startPersist s).persist ≠ 0 := by
  unfold startPersist
  split
  · right
    have least : 10 ≤ (tcpSetpersist { s with tRxtshift := 0 }).persist := rangeset_low _ _ _ (by decide)
    omega
  · next runs =>
    by_contra idle
    rw [not_or, not_not, not_not] at idle
    exact runs ⟨queued, idle.1, idle.2⟩

theorem copied_len (timed : Timed c.toSender) (behind : 0 ≤ Seq.ahead c.sndNxt c.sndUna) (granted : false ∉ alloc)
    (copied : Copied alloc c.wq (planOf c) data) : data.length = (planOf c).len := by
  refine copied.whole granted fun some => ?_
  have queue := timed.queue
  have len : (planOf c).len = min (usable c.toSender (force c.toSender).2).toNat c.tMaxseg := plan_len c.toSender
  have off : (planOf c).off = Seq.ahead c.sndNxt c.sndUna := rfl
  have most := usable_most (show 0 < usable c.toSender (force c.toSender).2 by omega)
  omega

theorem not_persisting (behind : 0 ≤ Seq.ahead s.sndNxt s.sndUna) (more : (plan s).2.sendalot = true) (some : s.tMaxseg ≠ 0) :
    s.tForce = false ∨ (plan s).1.persist = 0 := by
  rw [plan_sendalot, decide_eq_true_iff] at more
  have most := usable_most (show 0 < usable s (force s).2 by omega)
  cases forced : s.tForce with
  | false => exact .inl rfl
  | true =>
    right
    apply plan_persist s forced
    intro shut
    rw [force_snd, if_pos ⟨forced, shut⟩] at most more
    omega

/-- What a segment of a plain pass does to the numbers, and that it starts the retransmit timer. -/
theorem transmitted_numbers (late : c.tState = .established ∨ c.tState = .closeWait) (timed : Timed c.toSender)
    (behind : 0 ≤ Seq.ahead c.sndNxt c.sndUna) (inside : 0 ≤ usable c.toSender (force c.toSender).2)
    (short : Seq.ahead c.sndNxt c.sndUna + n < 2147483648) (free : n ≠ 0 → c.tForce = false ∨ (planned c).persist = 0) :
    Seq.ahead (transmitted route n c).sndNxt c.sndUna = Seq.ahead c.sndNxt c.sndUna + n ∧
      (n ≠ 0 ∨ c.rexmt ≠ 0 → (transmitted route n c).rexmt ≠ 0) := by
  have cur := timed.cur
  obtain ⟨persist, shift, rexmt, nxt, same, _⟩ := plan_eq c.toSender
  have ⟨stays, runs⟩ := plan_open c.toSender inside
  rw [same] at stays runs
  have stays : nxt = c.sndNxt := stays
  have runs : rexmt = c.rexmt := runs
  subst stays runs
  obtain ⟨up, dragged⟩ := dragUp_eq (planned c).toSender
  have whole : (planned c).toSender = (plan c.toSender).1 := rfl
  have timer : (planned c).persist = persist := congrArg Sender.persist (whole.trans same)
  have apart : Seq.ahead (c.sndNxt + BitVec.ofNat 32 n) c.sndUna = Seq.ahead c.sndNxt c.sndUna + n := Seq.ahead_add_nat n short
  have plain := numbers_plain late n
  rw [transmitted_plain late, dragged, whole, same]
  obtain ⟨_, _, _, _, _, _, timers, sent⟩ | ⟨persisting, sent⟩ := transmit_cases (planOf c).flags n
    { c.toSender with persist := persist, tRxtshift := shift, rexmt := c.rexmt, sndNxt := c.sndNxt, sndUp := up }
  · rw [sent, plain] at *
    refine ⟨apart, fun starts => ?_⟩
    obtain ⟨_, _, set, _⟩ | ⟨idle, same, _⟩ := timers
    · dsimp only at set ⊢
      omega
    · dsimp only at idle same ⊢
      rw [same]
      intro none
      have here := idle none
      rw [here, Seq.ahead_self] at apart
      obtain some | runs := starts
      · omega
      · exact runs none
  · have none : n = 0 := by
      by_contra some
      obtain forced | idle := free some
      · exact absurd (persisting.1.symm.trans forced) (by decide)
      · exact persisting.2 (timer.symm.trans idle)
    subst none
    rw [sent]
    refine ⟨by simp, fun starts => ?_⟩
    obtain some | runs := starts
    · exact absurd rfl some
    · exact runs

/-- A block in the middle of the passes of a call: more can be sent, and the retransmit timer runs. -/
structure Busy (c : Tcpcb) : Prop where
  late : c.tState = .established ∨ c.tState = .closeWait
  timed : Timed c.toSender
  behind : 0 ≤ Seq.ahead c.sndNxt c.sndUna
  cwnd : c.sndCwnd ≤ 65535
  usable : 0 < usable c.toSender (force c.toSender).2
  runs : c.tMaxseg = 0 ∨ c.rexmt ≠ 0

theorem sent_busy (late : c.tState = .established ∨ c.tState = .closeWait) (timed : Timed c.toSender)
    (behind : 0 ≤ Seq.ahead c.sndNxt c.sndUna) (cwnd : c.sndCwnd ≤ 65535) (granted : false ∉ alloc)
    (copied : Copied alloc c.wq (planOf c) data) (more : (planOf c).sendalot = true) : Busy (finished route data c) := by
  have several : c.tMaxseg < (Tcp.usable c.toSender (force c.toSender).2).toNat := by
    have more : (plan c.toSender).2.sendalot = true := more
    rwa [plan_sendalot, decide_eq_true_iff] at more
  have most := usable_most (show 0 < Tcp.usable c.toSender (force c.toSender).2 by omega)
  have win := force_le cwnd
  have len : (planOf c).len = min (Tcp.usable c.toSender (force c.toSender).2).toNat c.tMaxseg := plan_len c.toSender
  have size := copied_len timed behind granted copied
  have free : data.length ≠ 0 → c.tForce = false ∨ (planned c).persist = 0 := fun some => not_persisting behind more (by omega)
  have sent : Seq.ahead (transmitted route data.length c).sndNxt c.sndUna = Seq.ahead c.sndNxt c.sndUna + data.length ∧
      (data.length ≠ 0 ∨ c.rexmt ≠ 0 → (transmitted route data.length c).rexmt ≠ 0) :=
    transmitted_numbers late timed behind (by omega) (by omega) free
  have timed' : Timed (transmitted route data.length c).toSender := transmitted_timed timed
  obtain ⟨_, _, _, _, cwnd', _, _, _, _, _, same, opened⟩ := transmitted_eq route data.length c
  have opened : cwnd' = c.sndCwnd := opened (plan_plain late).1
  rw [same, opened] at sent timed'
  have last : (finished route data c).toSender = _ := finish_toSender _ _ _ _
  rw [more, same, opened] at last
  refine ⟨?_, ?_, ?_, ?_, ?_, ?_⟩
  · rw [last]
    exact late
  · rw [last]
    exact { timed' with }
  · rw [last]
    dsimp only at sent ⊢
    omega
  · rw [last]
    exact cwnd
  · rw [last]
    have open_ : c.inpQ = true := by
      by_contra closed
      unfold Tcp.usable at several
      rw [if_neg closed] at several
      omega
    have next : Tcp.usable c.toSender (force c.toSender).2 - data.length =
        (min c.tQsize (force c.toSender).2 : Nat) - (Seq.ahead c.sndNxt c.sndUna + data.length) := by omega
    rw [force_snd] at next several ⊢
    unfold Tcp.usable window at *
    dsimp only at sent ⊢
    rw [Bool.true_and, if_pos open_, sent.1, ← next]
    omega
  · rw [last]
    by_cases zero : c.tMaxseg = 0
    · exact .inl zero
    · exact .inr (sent.2 (.inl (by omega)))

theorem finished_live_iff (route : Option Route) (data : List UInt8) (c : Tcpcb) :
    Live (finished route data c).toSender ↔ Live (transmitted route data.length c).toSender := by
  unfold finished
  rw [finish_toSender]
  exact Iff.rfl

theorem finished_live (route : Option Route) (data : List UInt8) (c : Tcpcb)
    (live : (transmitted route data.length c).rexmt ≠ 0 ∨ (transmitted route data.length c).persist ≠ 0) :
    Live (finished route data c).toSender :=
  (finished_live_iff route data c).mpr fun _ => live

theorem sent_live (late : c.tState = .established ∨ c.tState = .closeWait) (timed : Timed c.toSender)
    (behind : 0 ≤ Seq.ahead c.sndNxt c.sndUna) (cwnd : c.sndCwnd ≤ 65535) (granted : false ∉ alloc)
    (copied : Copied alloc c.wq (planOf c) data) (some : (planOf c).len ≠ 0) : Live (finished route data c).toSender := by
  have len : (planOf c).len = min (usable c.toSender (force c.toSender).2).toNat c.tMaxseg := plan_len c.toSender
  have most := usable_most (show 0 < usable c.toSender (force c.toSender).2 by omega)
  have win := force_le cwnd
  have size := copied_len timed behind granted copied
  have stays : (planned c).sndNxt = c.sndNxt := plan_nxt c.toSender some
  obtain ⟨_, _, _, _, same, _⟩ := plan_eq c.toSender
  have una : (planned c).sndUna = c.sndUna := by
    unfold planned
    rw [same]
  have cur : 2 ≤ (planned c).tRxtcur := (plan_timed timed).cur
  have apart : Seq.ahead (c.sndNxt + BitVec.ofNat 32 data.length) c.sndUna = Seq.ahead c.sndNxt c.sndUna + data.length :=
    Seq.ahead_add_nat data.length (by omega)
  obtain ⟨up, dragged⟩ := dragUp_eq (planned c).toSender
  apply finished_live
  rw [transmitted_plain late, dragged]
  refine transmit_live cur ?_
  rw [numbers_plain late, stays, una]
  intro here
  rw [here, Seq.ahead_self] at apart
  omega

theorem idle_live (queued : c.tQsize ≠ 0) : Live ((planned c).sending startPersist).toSender := by
  obtain ⟨_, _, _, _, same, _⟩ := plan_eq c.toSender
  have some : (planned c).tQsize ≠ 0 := by
    unfold planned
    rw [same]
    exact queued
  exact fun _ => startPersist_live some

theorem busy_live {fuel : Nat} {failed : Bool} (busy : Busy c) (granted : false ∉ alloc)
    (done : outputLoop route idle fuel alloc c = some (.returned c' failed)) : Live c'.toSender := by
  refine outputLoop_rule (fun alloc c => false ∉ alloc ∧ Busy c) (fun c _ => Live c.toSender) ?_ ⟨granted, busy⟩ done
  rintro alloc c ⟨granted, busy⟩
  have shape := pass_of alloc route idle c
  have rest := (pass_suffix alloc route idle c).1
  have behind := busy.behind
  have some := busy.usable
  have most := usable_most some
  generalize pass alloc route idle c = passed at shape rest ⊢
  obtain ⟨result, alloc'⟩ := passed
  cases shape with
  | idle => exact idle_live (by omega)
  | waits _ lost => exact absurd lost granted
  | panicked => trivial
  | unopened _ lost => exact absurd lost granted
  | unsent _ lost => exact absurd lost granted
  | sent _ copied =>
    cases more : (planOf c).sendalot with
    | false =>
      have few : ¬ c.tMaxseg < (usable c.toSender (force c.toSender).2).toNat := by
        have more : (plan c.toSender).2.sendalot = false := more
        rwa [plan_sendalot, decide_eq_false_iff_not] at more
      have len : (planOf c).len = min (usable c.toSender (force c.toSender).2).toNat c.tMaxseg := plan_len c.toSender
      exact sent_live busy.late busy.timed behind busy.cwnd granted copied (by omega)
    | true =>
      exact ⟨fun lost => granted (rest.subset lost), sent_busy busy.late busy.timed behind busy.cwnd granted copied more⟩

theorem idle_live_iff (orderly : Orderly c.toSender) (due : sendDue (c.sndMax = c.sndUna) (planned c) (planOf c) = false) :
    Live ((planned c).sending startPersist).toSender ↔ ¬ Stuck c := by
  have ⟨una, max, qsize, _⟩ := planned_frame c
  have behind := orderly.behind
  by_cases queued : c.tQsize = 0
  · have same : startPersist (planned c).toSender = (planned c).toSender := by
      unfold startPersist
      rw [if_neg fun starts => starts.1 (qsize.trans queued)]
    have none : usable c.toSender (force c.toSender).2 ≤ 0 := by
      by_contra some
      have most := usable_most (not_le.mp some)
      omega
    have last : (planOf c).sendalot = false := by
      change (plan c.toSender).2.sendalot = false
      rw [plan_sendalot]
      exact decide_eq_false (by omega)
    have len : (planOf c).len = min (usable c.toSender (force c.toSender).2).toNat c.tMaxseg := plan_len c.toSender
    rw [Tcpcb.sending_toSender, same]
    unfold Live Stuck
    rw [una, max, qsize, due]
    constructor
    · rintro live ⟨_, _, rexmt, persist, ended⟩
      obtain some | some := live (.inl ended.2)
      · exact some rexmt
      · exact some persist
    · rintro moves (apart | some)
      · by_contra idle
        rw [not_or, not_not, not_not] at idle
        exact moves ⟨last, by omega, idle.1, idle.2, queued, apart⟩
      · omega
  · refine ⟨fun _ stuck => ?_, fun _ => idle_live queued⟩
    have ended := stuck.2.2.2.2
    rw [due] at ended
    exact queued ended.1

/-- A segment without data leaves the timers as they are, unless something is sent behind `snd_una`. -/
theorem empty_live_iff (late : c.tState = .established ∨ c.tState = .closeWait) (timed : Timed c.toSender) (orderly : Orderly c.toSender)
    (due : sendDue (c.sndMax = c.sndUna) (planned c) (planOf c) = true) (last : (planOf c).sendalot = false) (none : (planOf c).len = 0) :
    Live (finished route [] c).toSender ↔ ¬ Stuck c := by
  have ⟨una, max, qsize, _⟩ := planned_frame c
  obtain ⟨up, dragged⟩ := dragUp_eq (planned c).toSender
  have whole : (transmitted route 0 c).toSender = transmit (planOf c).flags 0 (dragUp (planned c).toSender) :=
    transmitted_plain late
  have plain := numbers_plain late 0
  have cur : 2 ≤ (planned c).tRxtcur := (plan_timed timed).cur
  by_cases apart : (planned c).sndNxt = c.sndUna
  · have order : Seq.ahead c.sndUna c.sndMax ≤ 0 := by
      have outstanding := orderly.outstanding
      have most := (Seq.ahead_range c.sndMax c.sndUna).2
      rw [Seq.ahead_between (c := c.sndUna) (by rw [Seq.ahead_self]; omega) (by rw [Seq.ahead_self]; omega), Seq.ahead_self]
      omega
    have timers : (transmitted route 0 c).rexmt = (planned c).rexmt ∧ (transmitted route 0 c).persist = (planned c).persist ∧
        (transmitted route 0 c).sndMax = c.sndMax ∧ (transmitted route 0 c).sndUna = c.sndUna ∧
        (transmitted route 0 c).tQsize = c.tQsize := by
      rw [whole, dragged]
      obtain ⟨_, _, _, _, _, _, timers, sent⟩ | ⟨_, sent⟩ := transmit_cases (planOf c).flags 0
        { (planned c).toSender with sndUp := up }
      · rw [sent]
        rw [plain] at *
        obtain ⟨_, behind, _⟩ | ⟨_, rexmt, persist, _⟩ := timers
        · exact absurd (by rw [apart, una]; simp) behind
        · refine ⟨rexmt, persist, ?_, una, qsize⟩
          rw [apart, max, if_neg (by simpa using order)]
      · rw [sent]
        refine ⟨rfl, rfl, ?_, una, qsize⟩
        rw [apart, max, if_neg (by simpa using order)]
    rw [finished_live_iff]
    change Live (transmitted route 0 c).toSender ↔ ¬ Stuck c
    unfold Live Stuck
    rw [timers.1, timers.2.1, timers.2.2.1, timers.2.2.2.1, timers.2.2.2.2, due]
    constructor
    · rintro live ⟨_, _, rexmt, persist, ended⟩
      obtain some | some := live ended.2
      · exact some rexmt
      · exact some persist
    · intro moves waiting
      by_contra idle
      rw [not_or, not_not, not_not] at idle
      exact moves ⟨last, none, idle.1, idle.2, apart, waiting⟩
  · have live : Live (finished route [] c).toSender := by
      apply finished_live
      change (transmitted route 0 c).rexmt ≠ 0 ∨ (transmitted route 0 c).persist ≠ 0
      rw [whole, dragged]
      refine transmit_live cur ?_
      rw [plain, una]
      simpa using apart
    refine ⟨fun _ stuck => ?_, fun _ => live⟩
    have ended := stuck.2.2.2.2
    rw [due] at ended
    exact apart ended.1

theorem output_live_iff {failed : Bool} (late : c.tState = .established ∨ c.tState = .closeWait) (timed : Timed c.toSender)
    (orderly : Orderly c.toSender) (granted : false ∉ alloc) (done : Outputs alloc route c (.returned c' failed)) :
    Live c'.toSender ↔ ¬ Stuck c := by
  obtain ⟨fuel, done⟩ := done
  have done : outputLoop route (c.sndMax = c.sndUna) fuel alloc c = some (.returned c' failed) := done
  cases fuel with
  | zero => cases done
  | succ fuel =>
    have shape := pass_of alloc route (c.sndMax = c.sndUna) c
    have rest := (pass_suffix alloc route (c.sndMax = c.sndUna) c).1
    unfold outputLoop at done
    generalize pass alloc route (c.sndMax = c.sndUna) c = passed at shape rest done
    obtain ⟨result, alloc'⟩ := passed
    cases shape with
    | idle due =>
      cases done
      exact idle_live_iff orderly due
    | waits _ lost => exact absurd lost granted
    | panicked => cases done
    | unopened _ lost => exact absurd lost granted
    | unsent _ lost => exact absurd lost granted
    | @sent data due copied =>
      cases more : (planOf c).sendalot with
      | true =>
        rw [more] at done
        have busy : Busy (finished route data c) := sent_busy late timed orderly.behind orderly.cwnd granted copied more
        have live := busy_live busy (fun lost => granted (rest.subset lost)) done
        exact ⟨fun _ stuck => absurd (more.symm.trans stuck.1) (by decide), fun _ => live⟩
      | false =>
        rw [more] at done
        cases done
        by_cases none : (planOf c).len = 0
        · have empty : data = [] := List.length_eq_zero_iff.mp ((copied_len timed orderly.behind granted copied).trans none)
          rw [empty]
          exact empty_live_iff late timed orderly due more none
        · have live : Live (finished route data c).toSender :=
            sent_live late timed orderly.behind orderly.cwnd granted copied none
          exact ⟨fun _ stuck => none stuck.2.1, fun _ => live⟩

end

/-! ## Runs -/

/-- One timer at most, its shift in bounds, and no panic. -/
structure TimersSound (c : Tcpcb) (e : Event × Call) : Prop where
  one : c.rexmt = 0 ∨ c.persist = 0
  shift : c.tRxtshift ≤ tcpMaxrxtshift
  calm : (handle e.1 c).2 ≠ .crashed .panic

/-- A call of `tcp_output` in a state that sends data, of which no allocation fails. -/
def Completes (c : Tcpcb) (call : Call) (c' : Tcpcb) : Prop :=
  (c.tState = .established ∨ c.tState = .closeWait) ∧ c.inpQ = true ∧ false ∉ call.alloc ∧
    ∃ failed, Outputs call.alloc call.route c (.returned c' failed)

def active : Tcpcb := tcpNewtcpcb ⟨false, false, false, false, false, true, false, 100⟩

/-- A segment without options, and a route that is not known. -/
def plainEnv : Env := ⟨none, ⟨fun _ => 0, 0⟩, true, 0, true, false, []⟩

def granted : Call := ⟨[], none⟩

/-- The peer's answer to a SYN with the number 1000. -/
def synAck (win : Nat) : Event × Call :=
  (.segment plainEnv ⟨5000, 1001, { Flags.none with syn := true, ack := true }, win, 0, []⟩, granted)

/-- What a call of `tcp_output` leaves of the timers, after some events. -/
def leaves (events : List (Event × Call)) (holds : Tcpcb → Tcpcb → Bool) : Bool :=
  (events.foldlM (perform 4) active).any fun c =>
    !c.gone && c.tState = .established && c.inpQ &&
      match tcpOutput 4 [] none c with
      | some (.returned c' _) => holds c c'
      | _ => false

theorem leaves_run {events : List (Event × Call)} {holds : Tcpcb → Tcpcb → Bool} (found : leaves events holds = true) :
    ∃ c c', Reaches Made Step (fun _ _ => True) c ∧ handle .output c = (c, .output) ∧ Completes c granted c' ∧ holds c c' = true := by
  obtain ⟨c, run, found⟩ := (Option.any_eq_true _ _).mp found
  rw [Bool.and_eq_true, Bool.and_eq_true, Bool.and_eq_true] at found
  obtain ⟨⟨⟨alive, state⟩, opened⟩, found⟩ := found
  split at found
  · next c' failed done =>
    refine ⟨c, c', .events (fun _ _ _ => perform_step) (fun _ _ => trivial) (.start ⟨_, rfl⟩) run, ?_,
      ⟨.inl (of_decide_eq_true state), opened, nofun, failed, 4, done⟩, found⟩
    unfold handle
    rw [if_neg (by simpa using alive)]
  · cases found

end Svr4.Tcp
