import Svr4.Kernel.Tcp.Options
import Svr4.Kernel.Tcp.Steps

/-! What a segment does to the half that sends, as a chain of moves. -/

namespace Svr4.Tcp

open Relation

/-! ## The way upstream leaves the half alone -/

section

variable {ups : List Upstream} {up : Upstream} {ti : Tcpiphdr} {c c' : Tcpcb} {fin fin' : Bool}

theorem deliver_toSender (done : deliver up ti c = some c') : c'.toSender = c.toSender := by
  unfold deliver at done
  simp only [] at done
  split at done
  · cases done
    rfl
  · split at done
    · cases done
      rfl
    · obtain ⟨i, _, same⟩ := Option.map_eq_some_iff.mp done
      rw [← same]

theorem presentLoop_toSender (segs : List Tcpiphdr) (done : presentLoop fin ups segs c = some (fin', c')) :
    c'.toSender = c.toSender := by
  induction segs generalizing fin ups c with
  | nil =>
    cases done
    rfl
  | cons ti rest ih =>
    unfold presentLoop at done
    split at done
    · obtain ⟨c₁, delivered, later⟩ := Option.bind_eq_some_iff.mp done
      exact (ih later).trans (deliver_toSender delivered)
    · cases done
      rfl

theorem present_toSender (done : present ups c = some (fin, c')) : c'.toSender = c.toSender := by
  unfold present at done
  split at done
  · cases done
    rfl
  · split at done
    · cases done
      rfl
    · exact presentLoop_toSender c.segs done

theorem tcpReass_toSender (done : tcpReass ups ti c = some (fin, c')) : c'.toSender = c.toSender := by
  unfold tcpReass at done
  simp only [] at done
  split at done
  · cases done
    rfl
  · exact (present_toSender done).trans rfl

theorem reass_toSender {urg : Bool} (done : reass ups urg ti c = some (fin, c')) : c'.toSender = c.toSender := by
  unfold reass at done
  split at done
  · simp only [] at done
    split at done
    · cases done
      rfl
    · obtain ⟨i, _, same⟩ := Option.map_eq_some_iff.mp done
      cases same
      rfl
  · exact tcpReass_toSender done

end

/-! ## Moves -/

/-- One move of the half that sends, for a segment with its acknowledgement and its window. -/
inductive Move (env : Env) (ti : Tcpiphdr) : Sender → Sender → Prop where
  | options {reads : List Nat} {s s' : Sender} :
      tcpDooptions env.route ti.flags.syn env.options s = some (s', reads) → Move env ti s s'
  | clip (s : Sender) : Move env ti s (clipMaxseg env.route s)
  /-- What no result is about. -/
  | quiet (s : Sender) (keep msl2 tDupacks : Nat) (sndWl1 : Seq) :
      Move env ti s { s with keep := keep, msl2 := msl2, tDupacks := tDupacks, sndWl1 := sndWl1 }
  | passive (s : Sender) : s.tState = .listen →
      Move env ti s { tcpSendseqinit { s with iss := env.iss } with tState := .synReceived, keep := tcptvKeepInit }
  | synAcked (s : Sender) : s.tState = .synSent → 0 < Seq.ahead ti.ack s.iss → Seq.ahead ti.ack s.sndMax ≤ 0 →
      Move env ti s (synAcked ti.ack s)
  | synTimed (s : Sender) : Move env ti s (synTimed s)
  | syn (s : Sender) : s.tState = .synSent → Move env ti s { s with rexmt := 0, tState := .synReceived }
  | established (s : Sender) : s.tState = .synReceived → 0 < Seq.ahead s.sndMax s.iss →
      Seq.ahead s.sndUna ti.ack ≤ 0 → Seq.ahead ti.ack s.sndMax ≤ 0 → Move env ti s { s with tState := .established }
  | closed (s : Sender) : Move env ti s (toClosed s)
  | loss (s : Sender) (win : Nat) : ti.ack = s.sndUna → s.rexmt ≠ 0 → s.tMaxseg ≠ 0 → Move env ti s (lossFound ti.ack win s)
  | acked (s : Sender) (cantrcvmore : Bool) : TState.established.number ≤ s.tState.number →
      0 < Seq.ahead ti.ack s.sndUna → Seq.ahead ti.ack s.sndMax ≤ 0 →
      Move env ti s (if s.sentfin ∧ ti.ack = s.sndMax then finDone cantrcvmore (newAck ti.ack s) else newAck ti.ack s)
  | window (s : Sender) (seq : Seq) (flags : Flags) (urp : Int) (msg : Msg) :
      Move env ti s (takeWindow ⟨seq, ti.ack, flags, ti.win, urp, msg⟩ s)
  | fin (s : Sender) : Move env ti s (finReceived s)

abbrev Moves (env : Env) (ti : Tcpiphdr) : Sender → Sender → Prop := ReflTransGen (Move env ti)

/-- A segment that is sent again is the last of the moves. -/
def Resends (env : Env) (ti : Tcpiphdr) (s s' : Sender) (onxt : Seq) : Prop :=
  ∃ (s₁ : Sender) (win : Nat), Moves env ti s s₁ ∧ TState.established.number ≤ s₁.tState.number ∧
    ti.ack = s₁.sndUna ∧ s₁.rexmt ≠ 0 ∧ s₁.tMaxseg ≠ 0 ∧ onxt = s₁.sndNxt ∧ s' = lossFound ti.ack win s₁

/-- What an end of the processing has done. A division by zero is described by what comes before it. -/
def Ended (env : Env) (ti : Tcpiphdr) (s : Sender) (c : Tcpcb) : After → Prop
  | .moreinput | .output => Moves env ti s c.toSender
  | .resend onxt => Resends env ti s c.toSender onxt
  | .crashed .divide => ∃ s₁, Moves env ti s s₁ ∧ s₁.tMaxseg = 0
  | .crashed .null => True
  | .close | .crashed .panic => False

/-- A stage makes moves, keeps what the segment acknowledges, and hands on or ends. -/
def StageMoves (env : Env) (ti : Tcpiphdr) (s : Sender) : Stage → Prop :=
  Stage.Gives (fun w c => Moves env ti s c.toSender ∧ w.ti.ack = ti.ack ∧ w.ti.win = ti.win) (Ended env ti s)

section

variable {env : Env} {ti : Tcpiphdr} {s : Sender} {w : Work} {c : Tcpcb}

theorem dropSegment_moves (moves : Moves env ti s c.toSender) : StageMoves env ti s (.error (dropSegment w c)) := moves

theorem dropAfterAck_moves (moves : Moves env ti s c.toSender) : StageMoves env ti s (.error (dropAfterAck w c)) := by
  unfold dropAfterAck
  split
  · exact dropSegment_moves moves
  · exact moves

theorem StageMoves.bind {x : Stage} {f : Work × Tcpcb → Stage} (first : StageMoves env ti s x)
    (next : ∀ w c, w.ti.ack = ti.ack → w.ti.win = ti.win → Moves env ti s c.toSender → StageMoves env ti s (f (w, c))) :
    StageMoves env ti s (x >>= f) :=
  Stage.Gives.bind first fun w c kept => next w c kept.2.1 kept.2.2 kept.1

theorem trimThenStep6_moves (ack : w.ti.ack = ti.ack) (win : w.ti.win = ti.win) (moves : Moves env ti s c.toSender) :
    StageMoves env ti s (trimThenStep6 w c) := by
  have next := moves.tail (.quiet c.toSender c.keep c.msl2 c.tDupacks (w.ti.seq + 1 - 1))
  unfold trimThenStep6
  simp only []
  split
  · exact ⟨next, ack, win⟩
  · exact ⟨next, ack, win⟩

theorem tcpDrop_moves (moves : Moves env ti s c.toSender) : Moves env ti s (tcpDrop c).toSender := by
  unfold tcpDrop
  split
  · exact moves.tail (.closed c.toSender)
  · exact moves

theorem listenStage_moves (listening : c.tState = .listen) (flags : w.ti.flags = ti.flags) (ack : w.ti.ack = ti.ack) (win : w.ti.win = ti.win)
    (moves : Moves env ti s c.toSender) : StageMoves env ti s (listenStage env w c) := by
  unfold listenStage
  split
  · exact dropSegment_moves (tcpDrop_moves moves)
  · rw [flags]
    cases scanned : tcpDooptions env.route ti.flags.syn env.options c.toSender with
    | none => trivial
    | some result =>
      obtain ⟨s₁, reads⟩ := result
      obtain ⟨m, v, same⟩ := tcpDooptions_eq scanned
      refine trimThenStep6_moves ack win ((moves.tail (.options scanned)).tail (.passive s₁ ?_))
      rw [same]
      exact listening

theorem synSentStage_moves (sent : c.tState = .synSent) (ack : w.ti.ack = ti.ack) (win : w.ti.win = ti.win)
    (moves : Moves env ti s c.toSender) : StageMoves env ti s (synSentStage env w c) := by
  unfold synSentStage
  split
  · exact dropSegment_moves moves
  · next acceptable =>
    split
    · split
      · exact dropSegment_moves (tcpDrop_moves moves)
      · exact dropSegment_moves moves
    · split
      · exact dropSegment_moves moves
      · simp only []
        split
        · next acks =>
          have inside : 0 < Seq.ahead ti.ack c.iss ∧ Seq.ahead ti.ack c.sndMax ≤ 0 := by
            rw [← ack]
            constructor
            · exact not_le.mp fun low => acceptable ⟨acks, .inl low⟩
            · exact not_lt.mp fun high => acceptable ⟨acks, .inr high⟩
          have opened := (moves.tail (.synAcked c.toSender sent inside.1 inside.2)).tail (.clip _)
          split
          · trivial
          · next c₁ done =>
            have same := present_toSender done
            refine trimThenStep6_moves ack win ?_
            have timed := opened.tail (.synTimed _)
            rw [← ack] at timed
            rw [Tcpcb.sending_toSender, same]
            exact timed
        · exact trimThenStep6_moves ack win (moves.tail (.syn c.toSender sent))

theorem trimSome_moves (todrop : Int) (ack : w.ti.ack = ti.ack) (win : w.ti.win = ti.win) (moves : Moves env ti s c.toSender) :
    StageMoves env ti s (trimSome todrop w c) := by
  unfold trimSome
  split
  · split
    · exact ⟨moves, ack, win⟩
    · exact dropAfterAck_moves moves
  · exact ⟨moves, ack, win⟩

section
variable (ack : w.ti.ack = ti.ack)
include ack

section
variable (win : w.ti.win = ti.win)
include win

theorem trimLeft_moves (moves : Moves env ti s c.toSender) :
    StageMoves env ti s (trimLeft w c) := by
  unfold trimLeft
  simp only []
  split
  · exact ⟨moves, ack, win⟩
  · split
    · exact trimSome_moves _ ack win moves
    · exact trimSome_moves _ ack win moves

theorem afterClose_moves (moves : Moves env ti s c.toSender) :
    StageMoves env ti s (afterClose w c) := by
  unfold afterClose
  split
  · exact dropSegment_moves moves
  · exact ⟨moves, ack, win⟩

theorem trimRight_moves (moves : Moves env ti s c.toSender) :
    StageMoves env ti s (trimRight w c) := by
  unfold trimRight
  simp only []
  split
  · exact ⟨moves, ack, win⟩
  · split
    · split
      · exact ⟨moves, ack, win⟩
      · exact dropAfterAck_moves moves
    · exact ⟨moves, ack, win⟩

theorem rstStage_moves (moves : Moves env ti s c.toSender) :
    StageMoves env ti s (rstStage w c) := by
  have closed : StageMoves env ti s (.error (dropSegment w (tcpClose (c.sending toClosed)))) :=
    dropSegment_moves (moves.tail (.closed c.toSender))
  unfold rstStage
  split
  · split
    all_goals first
      | exact closed
      | exact ⟨moves, ack, win⟩
  · exact ⟨moves, ack, win⟩

theorem synStage_moves (moves : Moves env ti s c.toSender) :
    StageMoves env ti s (synStage w c) := by
  unfold synStage
  split
  · exact dropSegment_moves (tcpDrop_moves moves)
  · split
    · exact dropSegment_moves moves
    · exact ⟨moves, ack, win⟩

theorem synReceivedStage_moves (moves : Moves env ti s c.toSender) :
    StageMoves env ti s (synReceivedStage env w c) := by
  unfold synReceivedStage
  split
  · next received =>
    split
    · exact dropSegment_moves moves
    · next sent =>
      split
      · exact dropSegment_moves moves
      · next acceptable =>
        rw [not_or, not_lt, not_lt, ack] at acceptable
        have opened := (moves.tail (.established c.toSender received (not_le.mp sent) acceptable.1 acceptable.2)).tail (.clip _)
        split
        · trivial
        · next c₁ done =>
          have same := present_toSender done
          refine ⟨?_, ack, win⟩
          have quieted := opened.tail (.quiet _ c₁.keep c₁.msl2 c₁.tDupacks (w.ti.seq - 1))
          rw [Tcpcb.sending_toSender] at same
          rw [← same] at quieted
          exact quieted
  · exact ⟨moves, ack, win⟩

end

end

theorem rttUpdate_eq (ack : Seq) (s : Sender) : ∃ rtt shift srtt rttvar cur,
    rttUpdate ack s = { s with tRtt := rtt, tRxtshift := shift, tSrtt := srtt, tRttvar := rttvar, tRxtcur := cur } ∧
      (shift = 0 ∨ shift = s.tRxtshift) ∧ (2 ≤ cur ∨ cur = s.tRxtcur) := by
  have order : tcptvMin ≤ tcptvRexmtmax := by decide
  unfold rttUpdate
  split
  · unfold setRxtcur
    split
    · exact ⟨_, _, _, _, _, rfl, .inl rfl, .inl (rangeset_low _ _ _ order)⟩
    · exact ⟨_, _, _, _, _, rfl, .inl rfl, .inl (rangeset_low _ _ _ order)⟩
  · exact ⟨s.tRtt, s.tRxtshift, s.tSrtt, s.tRttvar, s.tRxtcur, rfl, .inr rfl, .inr rfl⟩

theorem ackTimer_eq (ack : Seq) (s : Sender) : ∃ rexmt,
    ackTimer ack s = { s with rexmt := rexmt } ∧ (rexmt = 0 ∨ s.persist = 0 ∨ rexmt = s.rexmt) := by
  unfold ackTimer
  split
  · exact ⟨0, rfl, .inl rfl⟩
  · split
    · next idle => exact ⟨s.tRxtcur, rfl, .inr (.inl idle)⟩
    · exact ⟨s.rexmt, rfl, .inr (.inr rfl)⟩

theorem newAck_eq (ack : Seq) (s : Sender) : ∃ rtt shift srtt rttvar cur rexmt cwnd,
    newAck ack s = ackDrop ack { s with
      tDupacks := 0, tRtt := rtt, tRxtshift := shift, tSrtt := srtt, tRttvar := rttvar, tRxtcur := cur, rexmt := rexmt,
      sndCwnd := cwnd } := by
  obtain ⟨rtt, shift, srtt, rttvar, cur, updated, _⟩ := rttUpdate_eq ack { s with tDupacks := 0 }
  obtain ⟨rexmt, timed, _⟩ := ackTimer_eq ack (rttUpdate ack { s with tDupacks := 0 })
  have whole : newAck ack s = ackDrop ack (openCwnd (ackTimer ack (rttUpdate ack { s with tDupacks := 0 }))) := rfl
  rw [timed, updated] at whole
  exact ⟨rtt, shift, srtt, rttvar, cur, rexmt, _, whole⟩

theorem newAck_tState (ack : Seq) (s : Sender) : (newAck ack s).tState = s.tState := by
  obtain ⟨_, _, _, _, _, _, _, same⟩ := newAck_eq ack s
  rw [same]
  rfl

theorem dupAck_moves (late : TState.established.number ≤ c.tState.number) (ack : w.ti.ack = ti.ack) (win : w.ti.win = ti.win)
    (moves : Moves env ti s c.toSender) : StageMoves env ti s (dupAck w c) := by
  have counted (n : Nat) : StageMoves env ti s (.ok (w, { c with tDupacks := n })) :=
    ⟨moves.tail (.quiet c.toSender c.keep c.msl2 n c.sndWl1), ack, win⟩
  unfold dupAck
  split
  · split
    · exact counted 0
    · next outstanding =>
      rw [not_or, not_not] at outstanding
      split
      · unfold halfWindow
        split
        · next divided =>
          split at divided
          · next zero => exact ⟨c.toSender, moves, zero⟩
          · cases divided
        · next divided =>
          split at divided
          · cases divided
          · next positive =>
            exact ⟨c.toSender, _, moves, late, ack ▸ outstanding.2, outstanding.1, positive, rfl, by rw [← ack]; rfl⟩
      · exact counted (c.tDupacks + 1)
  · exact counted 0

theorem ackStage_moves (late : TState.established.number ≤ c.tState.number) (ack : w.ti.ack = ti.ack) (win : w.ti.win = ti.win)
    (moves : Moves env ti s c.toSender) : StageMoves env ti s (ackStage w c) := by
  unfold ackStage
  split
  · exact dupAck_moves late ack win moves
  · next new =>
    split
    · exact dropAfterAck_moves (moves.tail (.quiet c.toSender c.keep c.msl2 0 c.sndWl1))
    · next inside =>
      rw [ack] at new inside
      have done := moves.tail (.acked c.toSender c.cantrcvmore late (not_le.mp new) (not_lt.mp inside))
      have waits (c : Tcpcb) (moves : Moves env ti s c.toSender) : Moves env ti s { c with msl2 := 2 * tcptvMsl : Tcpcb }.toSender :=
        moves.tail (.quiet c.toSender c.keep (2 * tcptvMsl) c.tDupacks c.sndWl1)
      have state : (c.sending (newAck ti.ack)).tState = c.tState := newAck_tState ti.ack c.toSender
      simp only [ack]
      by_cases fin : c.sentfin = true ∧ ti.ack = c.sndMax
      · rw [if_pos fin] at done
        split
        · next late =>
          -- `TIME_WAIT` has nothing to do when a FIN is acknowledged.
          have same : finDone c.cantrcvmore (newAck ti.ack c.toSender) = newAck ti.ack c.toSender := by
            unfold finDone
            rw [newAck_tState, ← state, late]
          rw [same] at done
          exact dropAfterAck_moves (waits (c.sending (newAck ti.ack)) done)
        · rw [if_pos (decide_eq_true fin)]
          split
          · exact dropSegment_moves done
          · exact ⟨done, ack, win⟩
      · rw [if_neg fin] at done
        split
        · exact dropAfterAck_moves (waits (c.sending (newAck ti.ack)) done)
        · rw [if_neg (by simpa using fin)]
          exact ⟨done, ack, win⟩

theorem windowUpdate_moves (ack : w.ti.ack = ti.ack) (win : w.ti.win = ti.win) (moves : Moves env ti s c.toSender) :
    Moves env ti s (windowUpdate w c).2.toSender ∧ (windowUpdate w c).1.ti = w.ti := by
  unfold windowUpdate
  split
  · have taken := moves.tail (.window c.toSender w.ti.seq w.ti.flags w.ti.urp w.ti.msg)
    rw [← ack, ← win] at taken
    exact ⟨taken, rfl⟩
  · exact ⟨moves, rfl⟩

theorem urgent_toSender (w : Work) (c : Tcpcb) : (urgent w c).2.toSender = c.toSender := by
  unfold urgent
  split <;> rfl

theorem urgent_same (w : Work) (c : Tcpcb) : (urgent w c).1.ti.ack = w.ti.ack ∧ (urgent w c).1.ti.win = w.ti.win := by
  unfold urgent
  split <;> exact ⟨rfl, rfl⟩

theorem textStage_moves (ack : w.ti.ack = ti.ack) (win : w.ti.win = ti.win) (moves : Moves env ti s c.toSender) :
    StageMoves env ti s (textStage env w c) := by
  unfold textStage
  split
  · split
    · trivial
    · next fin c₁ done =>
      refine ⟨?_, ack, win⟩
      rw [← reass_toSender done] at moves
      exact moves
  · exact ⟨moves, ack, win⟩

theorem finStage_moves (moves : Moves env ti s c.toSender) : Moves env ti s (finStage w c).toSender := by
  unfold finStage
  split
  · split
    · exact moves.tail (.fin c.toSender)
    · exact moves.tail (.fin c.toSender)
  · exact moves

theorem step6_moves (ack : w.ti.ack = ti.ack) (win : w.ti.win = ti.win) (moves : Moves env ti s c.toSender) :
    StageMoves env ti s (step6 env w c) := by
  have ⟨updated, same⟩ := windowUpdate_moves ack win moves
  have urged := urgent_same (windowUpdate w c).1 (windowUpdate w c).2
  rw [same, ack, win] at urged
  rw [← urgent_toSender (windowUpdate w c).1] at updated
  unfold step6
  refine (textStage_moves urged.1 urged.2 updated).bind fun w c ack win moves => ?_
  exact ⟨finStage_moves moves, ack, win⟩

theorem beforeAck_moves (ack : w.ti.ack = ti.ack) (win : w.ti.win = ti.win) (moves : Moves env ti s c.toSender) :
    StageMoves env ti s (beforeAck env w c) := by
  refine (trimLeft_moves ack win moves).bind fun w c ack win moves => ?_
  refine (afterClose_moves ack win moves).bind fun w c ack win moves => ?_
  refine (trimRight_moves ack win moves).bind fun w c ack win moves => ?_
  refine (rstStage_moves ack win moves).bind fun w c ack win moves => ?_
  refine (synStage_moves ack win moves).bind fun w c ack win moves => ?_
  exact synReceivedStage_moves ack win moves

theorem synchronized_moves (ack : w.ti.ack = ti.ack) (win : w.ti.win = ti.win) (moves : Moves env ti s c.toSender) :
    StageMoves env ti s (synchronized env w c) := by
  refine (beforeAck_moves ack win moves).bind fun w c ack win moves => ?_
  simp only []
  split
  · next late => exact ackStage_moves late ack win moves
  · exact ⟨moves, ack, win⟩

theorem arrive_moves (moves : Moves env ti s c.toSender) : Moves env ti s (arrive c).toSender :=
  moves.tail (.quiet c.toSender tcpKeepidle c.msl2 c.tDupacks c.sndWl1)

theorem byState_moves (flags : w.ti.flags = ti.flags) (ack : w.ti.ack = ti.ack) (win : w.ti.win = ti.win) : StageMoves env ti c.toSender (byState env w c) := by
  unfold byState
  split
  · next listening => exact listenStage_moves listening flags ack win (arrive_moves .refl)
  · next s other =>
    split
    · trivial
    · next opened reads scanned =>
      rw [flags] at scanned
      have moves : Moves env ti c.toSender (arrive { c with toSender := opened }).toSender :=
        arrive_moves (.single (.options scanned))
      split
      · next sent =>
        obtain ⟨m, v, same⟩ := tcpDooptions_eq scanned
        refine synSentStage_moves ?_ ack win moves
        rw [show (arrive { c with toSender := opened }).tState = opened.tState from rfl, same]
        exact sent
      · exact synchronized_moves ack win moves

theorem stages_moves (flags : w.ti.flags = ti.flags) (ack : w.ti.ack = ti.ack) (win : w.ti.win = ti.win) :
    StageMoves env ti c.toSender (stages env w c) :=
  (byState_moves flags ack win).bind fun _ _ ack win moves => step6_moves ack win moves

theorem tcpUinput_moves (env : Env) (ti : Tcpiphdr) (c : Tcpcb) :
    Ended env ti c.toSender (tcpUinput env ti c).1 (tcpUinput env ti c).2 := by
  unfold tcpUinput
  simp only []
  split
  · exact ReflTransGen.refl
  · split
    · exact ReflTransGen.refl
    · have done : StageMoves env ti c.toSender (stages env ⟨ti, ti.flags, false⟩ c) := stages_moves rfl rfl rfl
      cases result : stages env ⟨ti, ti.flags, false⟩ c with
      | error ended =>
        rw [result] at done
        exact done
      | ok handed =>
        rw [result] at done
        simp only []
        split
        · exact done.1
        · exact done.1

end

end Svr4.Tcp
