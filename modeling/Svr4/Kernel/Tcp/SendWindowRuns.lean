import Svr4.Kernel.Tcp.SendWindow
import Svr4.Kernel.Tcp.Timers

/-! The window over whole runs. -/

namespace Svr4.Tcp

open BitVec (ofNat)

/-- Where `snd_una` is, counted from `iss`, and the right edges of the windows that were received. -/
structure Watch where
  una : Int
  edges : List Int

namespace Watch

/-- No window has been received for a connection that begins. -/
def first : Watch := ⟨0, [0]⟩

/-- What is known after an event. -/
def next (e : Event) (c c' : Tcpcb) (o : Watch) : Watch :=
  if c.tState = .closed ∨ c.tState = .listen then first
  else
    { una := o.una + Seq.ahead c'.sndUna c.sndUna
      edges :=
        match e with
        | .segment _ ti => if ti.flags.ack then (o.una + Seq.ahead ti.ack c.sndUna + ti.win) :: o.edges else o.edges
        | _ => o.edges }

end Watch

/-- `snd_una + snd_wnd` is inside a window that was received. -/
def Within (c : Tcpcb) (o : Watch) : Prop :=
  TState.established.number ≤ c.tState.number → ∃ e ∈ o.edges, o.una + c.sndWnd.toNat ≤ e

/-- The data that a call of `tcp_output` sends end inside a window that was received. -/
def SendsWithin (c : Tcpcb) (o : Watch) : Prop :=
  ∀ (call : Call) (c' : Tcpcb) (failed : Bool), Outputs call.alloc call.route c (.returned c' failed) → c.tForce = false →
    TState.established.number ≤ c.tState.number → ∃ segments, c'.sent = segments ++ c.sent ∧
      ∀ segment ∈ segments, segment.data ≠ [] →
        ∃ e ∈ o.edges, o.una + Seq.ahead (segment.seq + ofNat 32 segment.data.length) c.sndUna ≤ e

/-- A window that is taken is not that of an old ACK. A segment whose window is not taken acknowledges no more than is
queued and in the window. A connection that is opened by a FIN has no window yet. -/
def Fits (c : Tcpcb) : Event → Prop
  | .segment env ti => c.tState ≠ .closed →
      (takes env ti c = true → 0 ≤ Seq.ahead ti.ack c.sndUna) ∧
      (acks env ti c = true → takes env ti c = false → Seq.ahead ti.ack c.sndUna ≤ min c.tQsize c.sndWnd.toNat) ∧
      (c.tState = .synSent → ti.flags.syn = true → ti.flags.ack = false → (ti.flags.fin = true ∨ c.segs ≠ []) → c.sndWnd = 0)
  | _ => True

/-- A step that is watched. -/
def Watched (x : Tcpcb × Watch) (e : Event × Call) (y : Tcpcb × Watch) : Prop :=
  Step x.1 e y.1 ∧ y.2 = x.2.next e.1 x.1 y.1

def Begun (x : Tcpcb × Watch) : Prop := Made x.1 ∧ x.2 = .first

/-! ## What is sent -/

section

variable {alloc : List Bool} {route : Option Route} {idle : Bool} {c c' : Tcpcb} {data : List UInt8}

variable (route) in
/-- Without `t_force`, data are sent into the window. -/
theorem segmentSent_inside (plain : c.tForce = false) (copied : Copied alloc c.wq (planOf c) data) (some : data ≠ []) :
    Seq.ahead ((segmentSent route data c).seq + ofNat 32 data.length) c.sndUna ≤ c.sndWnd.toNat := by
  have size : data.length = (planOf c).len := copied.length.resolve_left some
  have pos := List.length_pos_iff.mpr some
  have len : (planOf c).len = min (usable c.toSender (force c.toSender).2).toNat c.tMaxseg := plan_len c.toSender
  have most := usable_most (show 0 < usable c.toSender (force c.toSender).2 by omega)
  have win : (force c.toSender).2 ≤ c.sndWnd.toNat := by
    rw [force_snd, if_neg fun both => absurd (plain.symm.trans both.1) (by decide)]
    exact min_le_left _ _
  have stays : (plan c.toSender).1.sndNxt = c.sndNxt := plan_nxt c.toSender (by change (planOf c).len ≠ 0; omega)
  have seq : (segmentSent route data c).seq = c.sndNxt ∨ (segmentSent route data c).seq = c.sndNxt - 1 := by
    obtain ⟨_, opened, _⟩ := opens_eq route (planOf c).flags (retreat (planOf c).flags (plan c.toSender).1)
    have whole : (segmentSent route data c).seq = (opens route (planOf c).flags (retreat (planOf c).flags (plan c.toSender).1)).sndNxt := rfl
    rw [whole, opened]
    unfold retreat
    split
    · exact .inr (congrArg (· - 1) stays)
    · exact .inl stays
  obtain here | behind := seq
  · rw [here]
    have := Seq.ahead_add_le (a := c.sndNxt) (b := c.sndUna) data.length
    omega
  · have step : c.sndNxt - 1 + ofNat 32 data.length = c.sndNxt + ofNat 32 (data.length - 1) := by
      have one : ofNat 32 data.length = ofNat 32 (data.length - 1) + 1 := by
        rw [show (1 : BitVec 32) = ofNat 32 1 from rfl, ← BitVec.ofNat_add, Nat.sub_add_cancel pos]
      rw [one]
      ring
    rw [behind, step]
    have := Seq.ahead_add_le (a := c.sndNxt) (b := c.sndUna) (data.length - 1)
    omega

/-- What the passes of a call keep, and what they have sent. -/
structure Sends (c c' : Tcpcb) : Prop where
  una : c'.sndUna = c.sndUna
  wnd : c'.sndWnd = c.sndWnd
  state : c'.tState = c.tState
  plain : c.tForce = false → c'.tForce = false
  inside : c.tForce = false → ∃ segments, c'.sent = segments ++ c.sent ∧ ∀ segment ∈ segments, segment.data ≠ [] →
    Seq.ahead (segment.seq + ofNat 32 segment.data.length) c.sndUna ≤ c.sndWnd.toNat

theorem Sends.worked {c₁ : Tcpcb} (sends : Sends c c₁) (worked : Worked c₁.toSender c'.toSender) : Sends c c' :=
  ⟨worked.una.trans sends.una, worked.wnd.trans sends.wnd, worked.state.trans sends.state,
    fun none => worked.force.trans (sends.plain none), fun none => worked.sent ▸ sends.inside none⟩

theorem pass_sends (alloc : List Bool) (idle : Bool) (c₁ : Tcpcb) (sends : Sends c c₁) :
    (pass alloc route idle c₁).1.Leaves (fun c' _ => Sends c c') (Sends c) := by
  have shape := pass_of alloc route idle c₁
  generalize (pass alloc route idle c₁).1 = result at shape ⊢
  cases shape with
  | idle => exact sends.worked ((planned_worked c₁).trans (startPersist_worked _))
  | waits => exact sends.worked (planned_worked c₁)
  | panicked => trivial
  | unopened => exact sends.worked (readied_worked route c₁)
  | @unsent data => exact sends.worked (transmitted_worked route data.length c₁)
  | @sent data _ copied =>
    have moved := sends.worked (transmitted_worked route data.length c₁)
    have last : (finished route data c₁).toSender = _ := finish_toSender _ _ _ _
    have both : Sends c (finished route data c₁) := by
      refine ⟨(congrArg Sender.sndUna last).trans moved.una, (congrArg Sender.sndWnd last).trans moved.wnd,
        (congrArg Sender.tState last).trans moved.state, fun none => ?_, fun none => ?_⟩
      · have force : (finished route data c₁).tForce = _ := congrArg Sender.tForce last
        rw [force]
        exact Bool.and_eq_false_iff.mpr (.inr (moved.plain none))
      · obtain ⟨segments, sent, inside⟩ := moved.inside none
        have ends := segmentSent_inside route (sends.plain none) copied
        rw [sends.una, sends.wnd] at ends
        refine ⟨segmentSent route data c₁ :: segments, (congrArg Sender.sent last).trans (congrArg _ sent), fun segment mem => ?_⟩
        obtain rfl | mem := List.mem_cons.mp mem
        · exact ends
        · exact inside segment mem
    cases (planOf c₁).sendalot with
    | false => exact both
    | true => exact both

theorem outputs_sends {failed : Bool} (done : Outputs alloc route c (.returned c' failed)) : Sends c c' :=
  outputs_keeps pass_sends ⟨rfl, rfl, rfl, id, fun _ => ⟨[], rfl, List.forall_mem_nil _⟩⟩ done

end

/-! ## Events -/

/-- What the window depends on is as before, and no connection is opened. -/
structure Still (s s' : Sender) : Prop where
  una : s'.sndUna = s.sndUna
  wnd : s'.sndWnd = s.sndWnd
  late : TState.established.number ≤ s'.tState.number → TState.established.number ≤ s.tState.number
  syn : s'.tState = .synSent → s.tState = .synSent
  listens : s'.tState = .listen → s.tState = .listen

theorem Still.refl (s : Sender) : Still s s := ⟨rfl, rfl, id, id, id⟩

theorem Still.closed {s s' : Sender} (una : s'.sndUna = s.sndUna) (wnd : s'.sndWnd = s.sndWnd) (state : s'.tState = .closed) : Still s s' := by
  refine ⟨una, wnd, fun late => ?_, fun syn => ?_, fun listens => ?_⟩
  · rw [state] at late
    cases late
  · rw [state] at syn
    cases syn
  · rw [state] at listens
    cases listens

section

variable {c c' : Tcpcb} {o : Watch} {env : Env} {ti : Tcpiphdr} {s s' : Sender} {e : Event}

theorem tcpDropNow_still (c : Tcpcb) : Still c.toSender (tcpDropNow c).1.toSender := by
  unfold tcpDropNow
  split
  · have ⟨una, wnd, state⟩ := toClosed_una c.toSender
    exact .closed una wnd state
  · exact .refl _

theorem tcpUsrclosed_still (s : Sender) : Still s (tcpUsrclosed s) := by
  unfold tcpUsrclosed
  split
  · next state => exact ⟨rfl, rfl, fun _ => by rw [state], fun syn => TState.noConfusion syn, fun listens => TState.noConfusion listens⟩
  · next state => exact ⟨rfl, rfl, fun _ => by rw [state]; decide, fun syn => TState.noConfusion syn, fun listens => TState.noConfusion listens⟩
  · exact .refl s

theorem tcpDisconnect_still (c : Tcpcb) : Still c.toSender (tcpDisconnect c).1.toSender := by
  unfold tcpDisconnect
  split
  · exact .refl _
  · split
    · exact tcpDropNow_still c
    · exact tcpUsrclosed_still c.toSender

theorem tcpclose_still (c : Tcpcb) : Still c.toSender (tcpclose c).1.toSender := by
  unfold tcpclose
  simp only []
  split
  · exact tcpDisconnect_still { c with nofdref := true, cantrcvmore := true }
  · exact .refl _

theorem rexmtTimer_still (c : Tcpcb) : Still c.toSender (rexmtTimer c).1.toSender := by
  have backed (s : Sender) : Still s (backOff s) := by
    unfold backOff
    simp only []
    split
    · exact ⟨rfl, rfl, id, id, id⟩
    · exact ⟨rfl, rfl, id, id, id⟩
  unfold rexmtTimer
  split
  · have dropped := tcpDropNow_still { c with tRxtshift := tcpMaxrxtshift }
    exact ⟨dropped.una, dropped.wnd, dropped.late, dropped.syn, dropped.listens⟩
  · have ⟨una, wnd, late, syn, listens⟩ := backed c.toSender
    split
    · exact ⟨una, wnd, late, syn, listens⟩
    · exact ⟨una, wnd, late, syn, listens⟩

theorem tcpTimers_still (t : Timer) (c : Tcpcb) : Still c.toSender (tcpTimers t c).1.toSender := by
  cases t with
  | rexmt => exact rexmtTimer_still c
  | persist =>
    unfold tcpTimers
    simp only []
    split
    · exact .refl _
    · exact ⟨rfl, rfl, id, id, id⟩
  | keep =>
    unfold tcpTimers keepTimer
    simp only []
    split
    · exact tcpDropNow_still c
    · split
      · split
        · exact tcpDropNow_still c
        · exact ⟨rfl, rfl, id, id, id⟩
      · exact ⟨rfl, rfl, id, id, id⟩
  | msl2 =>
    unfold tcpTimers msl2Timer
    simp only []
    split
    · exact ⟨rfl, rfl, id, id, id⟩
    · exact .closed rfl rfl rfl

theorem tick_still (t : Timer) (c : Tcpcb) : Still c.toSender (tick t c).1.toSender := by
  have set (n : Nat) : Still c.toSender (setTimer t n c.toSender) := by
    cases t with
    | _ => exact ⟨rfl, rfl, id, id, id⟩
  unfold tick
  split
  · exact .refl _
  · split
    · have first := set 0
      have later := tcpTimers_still t (c.sending (setTimer t 0))
      exact ⟨later.una.trans first.una, later.wnd.trans first.wnd, first.late ∘ later.late, first.syn ∘ later.syn, first.listens ∘ later.listens⟩
    · exact set _

/-- An event that is neither a segment nor a request for a connection. -/
theorem handle_still (e : Event) (c : Tcpcb) : (∃ env ti, e = .segment env ti) ∨ (∃ iss, e = .connect iss) ∨
    Still c.toSender (handle e c).1.toSender := by
  unfold handle
  split
  · exact .inr (.inr (.refl _))
  · cases e with
    | segment env ti => exact .inl ⟨env, ti, rfl⟩
    | connect iss => exact .inr (.inl ⟨iss, rfl⟩)
    | output | data | exdata | flush | accept | slowtimo | quench => exact .inr (.inr ⟨rfl, rfl, id, id, id⟩)
    | ordrel => exact .inr (.inr (tcpDisconnect_still c))
    | close => exact .inr (.inr (tcpclose_still c))
    | detach linger =>
      refine .inr (.inr ?_)
      simp only []
      split
      · unfold detach
        simp only [Tcpcb.sending_toSender]
        split
        · exact ⟨rfl, rfl, id, id, id⟩
        · exact ⟨rfl, rfl, id, id, id⟩
      · exact .refl _
    | lingertimer =>
      refine .inr (.inr ?_)
      simp only []
      split
      · exact ⟨rfl, rfl, id, id, id⟩
      · exact .refl _
    | tick t => exact .inr (.inr (tick_still t c))
    | fasttimo =>
      refine .inr (.inr ?_)
      simp only []
      split
      · exact ⟨rfl, rfl, id, id, id⟩
      · exact .refl _
    | deqdata ups =>
      refine .inr (.inr ?_)
      simp only []
      split
      · exact .refl _
      · exact ⟨rfl, rfl, id, id, id⟩

/-- A SYN gives no window. -/
theorem listenStage_wnd (state : c.tState = .listen) (w : Work) : Stage.Gives
    (fun w' c' => w'.tiflags.ack = false ∧ c'.sndWnd = c.sndWnd)
    (fun c' after => (∃ fault, after = .crashed fault) ∨ c'.sndWnd = c.sndWnd) (listenStage env w c) := by
  have dropped : tcpDrop c = tcpClose c := by
    unfold tcpDrop
    rw [state]
    rfl
  unfold listenStage
  split
  · rw [dropped]
    exact .inr rfl
  · next plain =>
    rw [not_or, not_or, Bool.not_eq_true, Bool.not_eq_true] at plain
    split
    · exact .inl ⟨_, rfl⟩
    · next opened reads found =>
      obtain ⟨_, _, same⟩ := tcpDooptions_eq found
      rw [same]
      refine (trimThenStep6_gives w _).imp (fun w' c' trimmed => ?_) fun c after never => never.elim
      exact ⟨trimmed.2.2.1.trans plain.2.1, (congrArg Sender.sndWnd trimmed.2.2.2.2).trans rfl⟩

theorem tcpUinput_listen (state : c.tState = .listen) :
    (∃ fault, (tcpUinput env ti c).2 = .crashed fault) ∨ (tcpUinput env ti c).1.sndWnd = c.sndWnd := by
  unfold tcpUinput
  split
  · exact .inr rfl
  · rw [if_neg (by rw [state]; decide)]
    have whole : byState env ⟨ti, ti.flags, false⟩ c = listenStage env ⟨ti, ti.flags, false⟩ (arrive c) := by
      unfold byState
      rw [state]
    unfold stages
    rw [whole]
    have gives : Stage.Gives (fun _ c' => c'.sndWnd = c.sndWnd) (fun c' after => (∃ fault, after = .crashed fault) ∨ c'.sndWnd = c.sndWnd)
        (listenStage env ⟨ti, ti.flags, false⟩ (arrive c) >>= fun handed => step6 env handed.1 handed.2) := by
      refine (listenStage_wnd (c := arrive c) state _).bind fun w c₁ kept => ?_
      refine (step6_gives env w c₁).imp (fun w' c' given => ?_) fun c' after crashed => .inl crashed
      have older : windowNewer w c₁.toSender = false := decide_eq_false fun newer => absurd (kept.1.symm.trans newer.1) (by decide)
      have wnd := given.2.1
      rw [older] at wnd
      exact wnd.trans kept.2
    split
    · next ended found =>
      have gives := gives
      rw [show listenStage env ⟨ti, ti.flags, false⟩ (arrive c) >>= (fun handed => step6 env handed.1 handed.2) = .error ended from found] at gives
      exact gives
    · next w c₁ found =>
      rw [show listenStage env ⟨ti, ti.flags, false⟩ (arrive c) >>= (fun handed => step6 env handed.1 handed.2) = .ok (w, c₁) from found] at gives
      exact .inr gives

theorem tcpUinput_closed (state : c.tState = .closed) : (tcpUinput env ti c).1.toSender = c.toSender := by
  unfold tcpUinput
  split
  · rfl
  · rfl

/-- A state before the SYN of the peer is not entered by a segment. -/
def Early (s s' : Sender) : Prop := s'.tState = .synSent ∨ s'.tState = .listen → s.tState = s'.tState ∧ s'.sndUna = s.sndUna

theorem early_late (late : TState.synReceived.number ≤ s'.tState.number ∨ s'.tState = .closed) : Early s s' := by
  rintro (state | state)
  all_goals
    rw [state] at late
    exact absurd late (by decide)

theorem early_at (state : TState) (here : s'.tState = state)
    (late : TState.synReceived.number ≤ state.number ∨ state = .closed) : Early s s' := early_late (here ▸ late)

theorem move_early (move : Move env ti s s') : Early s s' := by
  cases move with
  | options found =>
    obtain ⟨_, _, same⟩ := tcpDooptions_eq found
    rw [same]
    exact fun _ => ⟨rfl, rfl⟩
  | clip _ =>
    obtain ⟨_, _, same⟩ := clipMaxseg_eq env.route s
    rw [same]
    exact fun _ => ⟨rfl, rfl⟩
  | quiet _ => exact fun _ => ⟨rfl, rfl⟩
  | passive _ _ => exact early_at .synReceived rfl (by decide)
  | synAcked _ _ _ _ => exact early_at .established rfl (by decide)
  | synTimed _ =>
    obtain ⟨_, _, _, _, same⟩ := synTimed_eq s
    rw [same]
    exact fun _ => ⟨rfl, rfl⟩
  | syn _ _ => exact early_at .synReceived rfl (by decide)
  | established _ _ _ _ _ => exact early_at .established rfl (by decide)
  | closed _ => exact early_at .closed rfl (by decide)
  | loss _ _ _ _ _ => exact fun _ => ⟨rfl, rfl⟩
  | acked _ cantrcvmore late new inside =>
    have acked : TState.established.number ≤ (newAck ti.ack s).tState.number := (newAck_tState ti.ack s).symm ▸ late
    have before : TState.synReceived.number ≤ (newAck ti.ack s).tState.number := le_trans (by decide) acked
    split
    · unfold finDone
      split
      · exact early_at .finWait2 rfl (by decide)
      · exact early_at .timeWait rfl (by decide)
      · exact early_at .closed rfl (by decide)
      · exact early_late (.inl before)
    · exact early_late (.inl before)
  | window _ _ _ _ _ => exact fun _ => ⟨rfl, rfl⟩
  | fin _ =>
    unfold finReceived
    split
    · exact early_at .closeWait rfl (by decide)
    · exact early_at .closeWait rfl (by decide)
    · exact early_at .closing rfl (by decide)
    · exact early_at .timeWait rfl (by decide)
    · exact fun _ => ⟨rfl, rfl⟩
    · exact fun _ => ⟨rfl, rfl⟩

theorem moves_early (moves : Moves env ti s s') : Early s s' := by
  induction moves with
  | refl => exact fun _ => ⟨rfl, rfl⟩
  | tail _ move ih =>
    intro state
    have ⟨same, una⟩ := move_early move state
    have ⟨first, una'⟩ := ih (same ▸ state)
    exact ⟨first.trans same, una.trans una'⟩

theorem tcpUinput_early :
    (∃ fault, (tcpUinput env ti c).2 = .crashed fault) ∨ Early c.toSender (tcpUinput env ti c).1.toSender := by
  have ended := tcpUinput_moves env ti c
  generalize tcpUinput env ti c = result at ended ⊢
  obtain ⟨c', after⟩ := result
  cases after with
  | moreinput | output => exact .inr (moves_early ended)
  | resend onxt =>
    obtain ⟨s₁, win, _, late, _, _, _, _, same⟩ := ended
    have same : c'.toSender = lossFound ti.ack win s₁ := same
    rw [same]
    exact .inr (early_late (.inl (le_trans (by decide) late)))
  | close => exact ended.elim
  | crashed fault => exact .inl ⟨fault, rfl⟩

/-! ## Runs -/

/-- What is known of the window in every state. -/
structure Holds (c : Tcpcb) (o : Watch) : Prop where
  within : Within c o
  syn : c.tState = .synSent → o.una = 0 ∧ 0 ∈ o.edges
  listens : c.tState = .listen → c.sndWnd = 0

theorem Watch.next_shut (shut : c.tState = .closed ∨ c.tState = .listen) : o.next e c c' = first := if_pos shut

theorem Watch.next_open (e : Event) (c' : Tcpcb) (o : Watch) (opened : c.tState ≠ .closed) (active : c.tState ≠ .listen) :
    (o.next e c c').una = o.una + Seq.ahead c'.sndUna c.sndUna ∧ (∀ edge ∈ o.edges, edge ∈ (o.next e c c').edges) ∧
      ∀ env ti, e = .segment env ti → ti.flags.ack = true → o.una + Seq.ahead ti.ack c.sndUna + ti.win ∈ (o.next e c c').edges := by
  unfold next
  rw [if_neg (not_or.mpr ⟨opened, active⟩)]
  refine ⟨rfl, fun edge mem => ?_, fun env ti same flagged => ?_⟩
  · cases e with
    | segment env ti =>
      simp only []
      split
      · exact .tail _ mem
      · exact mem
    | _ => exact mem
  · rw [same]
    simp only [if_pos flagged]
    exact .head _

theorem still_holds (still : Still c.toSender c'.toSender) (holds : Holds c o) : Holds c' (o.next e c c') := by
  by_cases shut : c.tState = .closed ∨ c.tState = .listen
  · rw [Watch.next_shut shut]
    refine ⟨fun late => ?_, fun _ => ⟨rfl, List.mem_singleton_self 0⟩, fun listens => ?_⟩
    · have late := still.late late
      obtain state | state := shut
      · rw [state] at late
        exact absurd late (by decide)
      · rw [state] at late
        exact absurd late (by decide)
    · exact still.wnd.trans (holds.listens (still.listens listens))
  · rw [not_or] at shut
    have ⟨una, more, _⟩ := Watch.next_open e c' o shut.1 shut.2
    rw [still.una, Seq.ahead_self, add_zero] at una
    refine ⟨fun late => ?_, fun syn => ?_, fun listens => absurd (still.listens listens) shut.2⟩
    · obtain ⟨edge, mem, inside⟩ := holds.within (still.late late)
      exact ⟨edge, more edge mem, by rw [una, still.wnd]; exact inside⟩
    · have ⟨first, mem⟩ := holds.syn (still.syn syn)
      exact ⟨una.trans first, more 0 mem⟩

theorem segment_holds (fits : Fits c (.segment env ti)) (holds : Holds c o)
    (calm : ∀ fault, (tcpUinput env ti c).2 ≠ .crashed fault) :
    Holds (tcpUinput env ti c).1 (o.next (.segment env ti) c (tcpUinput env ti c).1) := by
  have early := tcpUinput_early.resolve_left fun crashed => calm _ crashed.choose_spec
  by_cases opened : c.tState = .closed
  · apply still_holds _ holds
    rw [tcpUinput_closed opened]
    exact .refl _
  · by_cases active : c.tState = .listen
    · have wnd := (tcpUinput_listen active).resolve_left fun crashed => calm _ crashed.choose_spec
      rw [Watch.next_shut (.inr active)]
      have none := wnd.trans (holds.listens active)
      exact ⟨fun _ => ⟨0, List.mem_singleton_self 0, by rw [none]; decide⟩, fun _ => ⟨rfl, List.mem_singleton_self 0⟩, fun _ => none⟩
    · have ⟨old, counted, first⟩ := fits opened
      have move := (tcpUinput_window opened active).resolve_left fun crashed => calm _ crashed.choose_spec
      generalize (tcpUinput env ti c).1 = c' at early move ⊢
      have ⟨una, more, edge⟩ := Watch.next_open (.segment env ti) c' o opened active
      refine ⟨fun late => ?_, fun syn => ?_, fun listens => absurd ((early (.inr listens)).1.trans listens) active⟩
      · cases move with
        | kept kept stays =>
          rw [kept.1, Seq.ahead_self, add_zero] at una
          rw [una, kept.2]
          obtain synced | ⟨_, ack, win, flagged⟩ | ⟨syn, syns, plain, ends⟩ := stays late
          · obtain ⟨e, mem, inside⟩ := holds.within synced
            exact ⟨e, more e mem, inside⟩
          · refine ⟨_, edge env ti rfl flagged, ?_⟩
            rw [ack, Seq.ahead_self, win]
            omega
          · have ⟨start, mem⟩ := holds.syn syn
            refine ⟨0, more 0 mem, ?_⟩
            rw [start, first syn syns plain ends]
            decide
        | acked counts older synced acked =>
          have within := counted counts older
          have new := acked.new
          have size : taken ti.ack c.toSender = (Seq.ahead ti.ack c.sndUna).toNat := by
            unfold taken
            omega
          have small : (ofNat 32 (taken ti.ack c.toSender)).toNat = taken ti.ack c.toSender :=
            Nat.mod_eq_of_lt (by have := c.sndWnd.isLt; omega)
          obtain ⟨e, mem, inside⟩ := holds.within synced
          refine ⟨e, more e mem, ?_⟩
          rw [una, acked.una, acked.wnd, BitVec.toNat_sub_of_le (BitVec.le_def.mpr (by omega)), small]
          omega
        | took taken flagged wnd una' =>
          refine ⟨_, edge env ti rfl flagged, ?_⟩
          have ahead := old taken
          have small : c'.sndWnd.toNat ≤ ti.win := by
            rw [wnd]
            exact Nat.mod_le _ _
          rw [una]
          obtain ⟨here, _⟩ | ⟨here, _⟩ := una'
          · rw [here]
            omega
          · rw [here, Seq.ahead_self]
            omega
      · have ⟨before, same⟩ := early (.inl syn)
        have ⟨start, mem⟩ := holds.syn (before.trans syn)
        exact ⟨by rw [una, same, start, Seq.ahead_self, add_zero], more 0 mem⟩

/-- What an event does before `tcp_output` is called. -/
theorem handle_holds (fits : Fits c e) (holds : Holds c o) (calm : ∀ fault, (handle e c).2 ≠ .crashed fault) :
    Holds (handle e c).1 (o.next e c (handle e c).1) := by
  obtain ⟨env, ti, rfl⟩ | ⟨iss, rfl⟩ | still := handle_still e c
  · unfold handle at calm ⊢
    split
    · exact still_holds (.refl _) holds
    · next alive =>
      rw [if_neg alive] at calm
      exact segment_holds fits holds calm
  · unfold handle
    split
    · exact still_holds (.refl _) holds
    · simp only []
      split
      · next closed =>
        rw [Watch.next_shut (.inl closed)]
        exact ⟨fun late => absurd (show 4 ≤ 2 from late) (by decide), fun _ => ⟨rfl, List.mem_singleton_self 0⟩, fun listens => TState.noConfusion listens⟩
      · exact still_holds (.refl _) holds
  · exact still_holds still holds

/-- What calls of `tcp_output` keep. -/
theorem Holds.sender {c₁ : Tcpcb} (una : c'.sndUna = c₁.sndUna) (wnd : c'.sndWnd = c₁.sndWnd) (state : c'.tState = c₁.tState)
    (holds : Holds c₁ (o.next e c c₁)) : Holds c' (o.next e c c') := by
  have same : o.next e c c' = o.next e c c₁ := by
    unfold Watch.next
    rw [una]
  rw [same]
  refine ⟨?_, ?_, ?_⟩
  · unfold Within
    rw [state, wnd]
    exact holds.within
  · rw [state]
    exact holds.syn
  · rw [state, wnd]
    exact holds.listens

theorem step_holds {e : Event × Call} (fits : Fits c e.1) (step : Step c e c') (holds : Holds c o) : Holds c' (o.next e.1 c c') := by
  have handled := handle_holds fits holds
  unfold Step at step
  generalize handle e.1 c = result at step handled
  obtain ⟨c₁, after⟩ := result
  cases after with
  | moreinput =>
    have same : c' = c₁ := step
    rw [same]
    exact handled nofun
  | output =>
    obtain ⟨failed, done⟩ := step
    have sends := outputs_sends done
    exact (handled nofun).sender sends.una sends.wnd sends.state
  | resend onxt =>
    obtain ⟨failed, c₂, done, same⟩ := step
    have sends := outputs_sends done
    have kept : c'.sndUna = c₂.sndUna ∧ c'.sndWnd = c₂.sndWnd ∧ c'.tState = c₂.tState := by
      rw [same]
      split
      · exact ⟨rfl, rfl, rfl⟩
      · exact ⟨rfl, rfl, rfl⟩
    exact (handled nofun).sender (kept.1.trans sends.una) (kept.2.1.trans sends.wnd) (kept.2.2.trans sends.state)
  | close =>
    obtain ⟨failed, c₂, done, same⟩ := step
    have sends := outputs_sends done
    rw [same]
    refine Holds.sender ?_ ?_ ?_ (handled nofun)
    · exact sends.una
    · exact sends.wnd
    · exact sends.state
  | crashed fault => exact step.elim

theorem sends_within (within : Within c o) : SendsWithin c o := by
  intro call c' failed done plain late
  obtain ⟨segments, sent, inside⟩ := (outputs_sends done).inside plain
  obtain ⟨edge, mem, window⟩ := within late
  refine ⟨segments, sent, fun segment found some => ⟨edge, mem, ?_⟩⟩
  have := inside segment found some
  omega

theorem begun_holds (x : Tcpcb × Watch) (begun : Begun x) : Holds x.1 x.2 := by
  obtain ⟨c, o⟩ := x
  obtain ⟨⟨endpoint, rfl⟩, rfl⟩ := begun
  refine ⟨fun late => ?_, fun _ => ⟨rfl, List.mem_singleton_self 0⟩, fun _ => rfl⟩
  have late : TState.established.number ≤ (if endpoint.listening then TState.listen else .closed).number := late
  split at late
  · exact absurd late (by decide)
  · cases late

theorem watched_holds (x : Tcpcb × Watch) (e : Event × Call) (y : Tcpcb × Watch) (holds : Holds x.1 x.2) (watched : Watched x e y)
    (fits : Fits x.1 e.1) : Holds y.1 y.2 := by
  rw [watched.2]
  exact step_holds fits watched.1 holds

/-- In a run whose segments all fit, the window is one that the peer has given, and data are sent into it. -/
theorem window_respected {x : Tcpcb × Watch} (reached : Reaches Begun Watched (fun x e => Fits x.1 e.1) x) :
    Within x.1 x.2 ∧ ∀ e, Fits x.1 e → (handle e x.1).2.callsOutput = true →
      SendsWithin (handle e x.1).1 (x.2.next e x.1 (handle e x.1).1) := by
  have holds := reached.invariant begun_holds watched_holds
  refine ⟨holds.within, fun e fits calls => sends_within (handle_holds fits holds fun fault crashed => ?_).within⟩
  rw [crashed] at calls
  cases calls

end

instance (c : Tcpcb) (e : Event) : Decidable (Fits c e) :=
  match e with
  | .segment _ _ => inferInstanceAs (Decidable (_ → _))
  | .output | .connect _ | .data _ | .exdata _ | .flush | .ordrel | .accept _ | .close | .detach _ | .lingertimer | .tick _
  | .slowtimo | .fasttimo | .deqdata _ | .quench => .isTrue trivial

/-- A step that is computed, when it meets a condition. -/
def watch (allowed : Tcpcb → Event → Bool) (x : Tcpcb × Watch) (e : Event × Call) : Option (Tcpcb × Watch) :=
  if allowed x.1 e.1 then (perform 4 x.1 e).map fun c => (c, x.2.next e.1 x.1 c) else none

theorem watch_watched {allowed : Tcpcb → Event → Bool} (x : Tcpcb × Watch) (e : Event × Call) (y : Tcpcb × Watch)
    (done : watch allowed x e = some y) : Watched x e y ∧ allowed x.1 e.1 = true := by
  unfold watch at done
  split at done
  · next allows =>
    obtain ⟨c, performed, same⟩ := Option.map_eq_some_iff.mp done
    rw [← same]
    exact ⟨⟨perform_step performed, rfl⟩, allows⟩
  · cases done

/-- Twenty bytes into a window of twenty. -/
def filled : List (Event × Call) :=
  [(.connect 1000, granted), synAck 20, (.data [List.replicate 20 7], granted), (.output, granted)]

theorem window_respected_filled : ∃ x : Tcpcb × Watch, x.1.tState = .established ∧ x.1.sent.length = 3 ∧ Within x.1 x.2 ∧
    SendsWithin x.1 (x.2.next .output x.1 x.1) := by
  have found : (filled.foldlM (watch fun c e => decide (Fits c e)) (active, .first)).any (fun x =>
      decide (x.1.tState = .established ∧ x.1.sent.length = 3 ∧ x.1.gone = false)) = true := by
    decide +kernel
  obtain ⟨x, run, holds⟩ := (Option.any_eq_true _ _).mp found
  have ⟨state, sent, alive⟩ := of_decide_eq_true holds
  have reached : Reaches Begun Watched (fun x e => Fits x.1 e.1) x := by
    refine Reaches.replay (fun x e y done => ?_) (.start ⟨⟨_, rfl⟩, rfl⟩) run
    have ⟨watched, allowed⟩ := watch_watched x e y done
    exact ⟨watched, of_decide_eq_true allowed⟩
  have ⟨within, sends⟩ := window_respected reached
  have handled : handle .output x.1 = (x.1, .output) := by
    unfold handle
    rw [if_neg (by simp [alive])]
  have last := sends .output trivial
  rw [handled] at last
  exact ⟨x, state, sent, within, last rfl⟩

/-- The window shrinks, and an older segment acknowledges more than it. -/
def shrunk : List (Event × Call) :=
  filled ++ [(.segment plainEnv ⟨5011, 1001, { Flags.none with ack := true }, 5, 0, [⟨1, [7]⟩]⟩, granted),
    (.segment plainEnv ⟨5001, 1021, { Flags.none with ack := true }, 20, 0, [⟨2, [7]⟩]⟩, granted)]

theorem window_exceeded : ¬ ∀ x : Tcpcb × Watch, Reaches Begun Watched (fun _ _ => True) x →
    Within x.1 x.2 ∧ ∀ e, (handle e x.1).2.callsOutput = true → SendsWithin (handle e x.1).1 (x.2.next e x.1 (handle e x.1).1) := by
  intro kept
  have found : (shrunk.foldlM (watch fun _ _ => true) (active, .first)).any (fun (x : Tcpcb × Watch) =>
      decide (TState.established.number ≤ x.1.tState.number ∧ ∀ edge ∈ x.2.edges, edge < x.2.una + (x.1.sndWnd.toNat : Int))) = true := by
    decide +kernel
  obtain ⟨x, run, holds⟩ := (Option.any_eq_true _ _).mp found
  have ⟨late, outside⟩ := of_decide_eq_true holds
  have reached : Reaches Begun Watched (fun _ _ => True) x :=
    .replay (fun x e y done => ⟨(watch_watched x e y done).1, trivial⟩) (.start ⟨⟨_, rfl⟩, rfl⟩) run
  obtain ⟨edge, mem, inside⟩ := (kept x reached).1 late
  have := outside edge mem
  omega

end Svr4.Tcp
