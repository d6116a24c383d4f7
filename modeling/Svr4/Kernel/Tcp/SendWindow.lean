import Svr4.Kernel.Tcp.Moves
import Svr4.Kernel.Tcp.Passes

/-! The window that the peer has given, and what is sent into it. -/

namespace Svr4.Tcp

/-! ## Segments -/

/-- The ACK of a segment is for something new, and is processed. -/
def acks (env : Env) (ti : Tcpiphdr) (c : Tcpcb) : Bool :=
  match tcpDooptions env.route ti.flags.syn env.options c.toSender with
  | none => false
  | some (opened, _) =>
    match beforeAck env ⟨ti, ti.flags, false⟩ (arrive { c with toSender := opened }) with
    | .error _ => false
    | .ok (_, c) => TState.established.number ≤ c.tState.number ∧ 0 < Seq.ahead ti.ack c.sndUna ∧ Seq.ahead ti.ack c.sndMax ≤ 0

/-- The window of a segment is taken. -/
def takes (env : Env) (ti : Tcpiphdr) (c : Tcpcb) : Bool :=
  match byState env ⟨ti, ti.flags, false⟩ c with
  | .error _ => false
  | .ok (w, c) => windowNewer w c.toSender

/-- What the window depends on is as before. -/
structure Unmoved (s s' : Sender) : Prop where
  una : s'.sndUna = s.sndUna
  wnd : s'.sndWnd = s.sndWnd
  qsize : s'.tQsize = s.tQsize
  max : s'.sndMax = s.sndMax

structure Before (ti : Tcpiphdr) (s : Sender) (w : Work) (c : Tcpcb) : Prop where
  ack : w.ti.ack = ti.ack
  win : w.ti.win = ti.win
  flag : w.tiflags.ack = ti.flags.ack
  same : Unmoved s c.toSender
  state : c.tState = s.tState
  iss : c.iss = s.iss

/-- The processing ends before the ACK. -/
def Quits (s : Sender) (c : Tcpcb) (_ : After) : Prop :=
  c.sndUna = s.sndUna ∧ c.sndWnd = s.sndWnd ∧ (TState.established.number ≤ c.tState.number → TState.established.number ≤ s.tState.number)

section

variable {env : Env} {ti : Tcpiphdr} {s : Sender} {w : Work} {c : Tcpcb}

theorem Before.quits (before : Before ti s w c) (after : After) : Quits s c after :=
  ⟨before.same.una, before.same.wnd, fun late => before.state ▸ late⟩

theorem dropSegment_quits (quits : Quits s c .moreinput) : Stage.Gives (Before ti s) (Quits s) (.error (dropSegment w c)) := quits

theorem dropAfterAck_quits (quits : Quits s c .moreinput) : Stage.Gives (Before ti s) (Quits s) (.error (dropAfterAck w c)) := by
  unfold dropAfterAck
  split
  · exact dropSegment_quits quits
  · exact quits

theorem toClosed_una (s : Sender) : (toClosed s).sndUna = s.sndUna ∧ (toClosed s).sndWnd = s.sndWnd ∧ (toClosed s).tState = .closed := by
  unfold toClosed tcpCancelinger
  split
  · exact ⟨rfl, rfl, rfl⟩
  · exact ⟨rfl, rfl, rfl⟩

theorem toClosed_quits (quits : Quits s c .moreinput) : Quits s (c.sending toClosed) .moreinput := by
  have ⟨una, wnd, state⟩ := toClosed_una c.toSender
  refine ⟨una.trans quits.1, wnd.trans quits.2.1, fun late => ?_⟩
  rw [Tcpcb.sending_toSender, state] at late
  cases late

theorem tcpDrop_quits (quits : Quits s c .moreinput) : Quits s (tcpDrop c) .moreinput := by
  unfold tcpDrop
  split
  · exact toClosed_quits quits
  · exact quits

theorem trimSome_before (todrop : Int) (before : Before ti s w c) : Stage.Gives (Before ti s) (Quits s) (trimSome todrop w c) := by
  have ⟨ack, win, flag, same, state, iss⟩ := before
  unfold trimSome
  split
  · split
    · exact ⟨ack, win, flag, ⟨same.una, same.wnd, same.qsize, same.max⟩, state, iss⟩
    · exact dropAfterAck_quits (before.quits _)
  · exact ⟨ack, win, flag, same, state, iss⟩

section
variable (before : Before ti s w c)
include before

theorem trimLeft_before : Stage.Gives (Before ti s) (Quits s) (trimLeft w c) := by
  unfold trimLeft
  simp only []
  split
  · exact before
  · split
    · exact trimSome_before _ ⟨before.ack, before.win, before.flag, before.same, before.state, before.iss⟩
    · exact trimSome_before _ before

theorem afterClose_before : Stage.Gives (Before ti s) (Quits s) (afterClose w c) := by
  unfold afterClose
  split
  · exact dropSegment_quits (before.quits .moreinput)
  · exact before

theorem trimRight_before : Stage.Gives (Before ti s) (Quits s) (trimRight w c) := by
  have ⟨ack, win, flag, same, state, iss⟩ := before
  unfold trimRight
  simp only []
  split
  · exact before
  · split
    · split
      · exact ⟨ack, win, flag, ⟨same.una, same.wnd, same.qsize, same.max⟩, state, iss⟩
      · exact dropAfterAck_quits (before.quits _)
    · exact ⟨ack, win, flag, same, state, iss⟩

theorem rstStage_before : Stage.Gives (Before ti s) (Quits s) (rstStage w c) := by
  have closed : Stage.Gives (Before ti s) (Quits s) (.error (dropSegment w (tcpClose (c.sending toClosed)))) :=
    toClosed_quits (before.quits .moreinput)
  unfold rstStage
  split
  · split
    all_goals first
      | exact closed
      | exact before
  · exact before

theorem synStage_before :
    Stage.Gives (fun w c => Before ti s w c ∧ w.tiflags.ack = true) (Quits s) (synStage w c) := by
  unfold synStage
  split
  · exact tcpDrop_quits (before.quits .moreinput)
  · split
    · exact before.quits .moreinput
    · next acks =>
      exact ⟨before, by simpa using acks⟩

end

/-- What reaches the processing of the ACK: the connection was synchronized, or the window will be taken. -/
structure Reached (ti : Tcpiphdr) (s : Sender) (w : Work) (c : Tcpcb) : Prop where
  ack : w.ti.ack = ti.ack
  win : w.ti.win = ti.win
  flag : w.tiflags.ack = ti.flags.ack
  acks : w.tiflags.ack = true
  same : Unmoved s c.toSender
  state : c.tState = s.tState ∧ c.tState ≠ .synReceived ∨
    c.tState = .established ∧ c.sndWl1 = w.ti.seq - 1 ∧ Seq.ahead s.sndUna ti.ack ≤ 0 ∧ Seq.ahead ti.ack s.sndMax ≤ 0

theorem synReceivedStage_reached (before : Before ti s w c ∧ w.tiflags.ack = true) :
    Stage.Gives (Reached ti s) (fun c after => Quits s c after ∨ after = .crashed .null) (synReceivedStage env w c) := by
  obtain ⟨⟨ack, win, flag, same, state, _⟩, acks⟩ := before
  have quits : Quits s c .moreinput := ⟨same.una, same.wnd, fun late => state ▸ late⟩
  unfold synReceivedStage
  split
  · next received =>
    split
    · exact .inl quits
    · split
      · exact .inl quits
      · next acceptable =>
        rw [not_or, not_lt, not_lt, same.una, same.max, ack] at acceptable
        split
        · exact .inr rfl
        · next c₁ done =>
          have kept := present_toSender done
          obtain ⟨_, _, clipped⟩ := clipMaxseg_eq env.route { c.toSender with tState := .established }
          rw [Tcpcb.sending_toSender, clipped] at kept
          refine ⟨ack, win, flag, acks, ⟨?_, ?_, ?_, ?_⟩, .inr ⟨?_, rfl, acceptable⟩⟩
          · exact (congrArg Sender.sndUna kept).trans same.una
          · exact (congrArg Sender.sndWnd kept).trans same.wnd
          · exact (congrArg Sender.tQsize kept).trans same.qsize
          · exact (congrArg Sender.sndMax kept).trans same.max
          · exact congrArg Sender.tState kept
  · next other => exact ⟨ack, win, flag, acks, same, .inl ⟨state, other⟩⟩

variable (env) in
theorem beforeAck_reached (before : Before ti s w c) :
    Stage.Gives (Reached ti s) (fun c after => Quits s c after ∨ after = .crashed .null) (beforeAck env w c) := by
  have left {next : Work → Tcpcb → Prop} {x : Stage} (gives : Stage.Gives next (Quits s) x) :
      Stage.Gives next (fun c after => Quits s c after ∨ after = .crashed .null) x := by
    cases x with
    | ok handed => exact gives
    | error result => exact .inl gives
  refine (left (trimLeft_before before)).bind fun w c before => ?_
  refine (left (afterClose_before before)).bind fun w c before => ?_
  refine (left (trimRight_before before)).bind fun w c before => ?_
  refine (left (rstStage_before before)).bind fun w c before => ?_
  refine (left (synStage_before before)).bind fun w c before => ?_
  exact synReceivedStage_reached before

/-! ### The acknowledgement -/

def Kept (s s' : Sender) : Prop := s'.sndUna = s.sndUna ∧ s'.sndWnd = s.sndWnd

/-- What an ACK takes from the window: no more than is on the write queue. -/
def taken (ack : Seq) (s : Sender) : Nat := min (Seq.ahead ack s.sndUna).toNat s.tQsize

structure Acked (ti : Tcpiphdr) (s s' : Sender) : Prop where
  new : 0 < Seq.ahead ti.ack s.sndUna
  inside : Seq.ahead ti.ack s.sndMax ≤ 0
  una : s'.sndUna = ti.ack
  wnd : s'.sndWnd = s.sndWnd - BitVec.ofNat 32 (taken ti.ack s)

/-- The ACK of a segment is neither ahead of `snd_una` nor behind it. -/
def Repeats (ti : Tcpiphdr) (s : Sender) : Prop := Seq.ahead ti.ack s.sndUna ≤ 0 ∧ Seq.ahead s.sndUna ti.ack ≤ 0

/-- What is handed to `step6`. -/
structure Handed (ti : Tcpiphdr) (s : Sender) (w : Work) (c : Tcpcb) : Prop where
  win : w.ti.win = ti.win
  flag : w.tiflags.ack = ti.flags.ack
  moved : Kept s c.toSender ∧ (TState.established.number ≤ s.tState.number ∨ Repeats ti s) ∨ Acked ti s c.toSender
  late : TState.established.number ≤ s.tState.number ∨ windowNewer w c.toSender = true

/-- How the processing of an ACK ends before `step6`. -/
def Stops (ti : Tcpiphdr) (s : Sender) (c : Tcpcb) (after : After) : Prop :=
  (∃ fault, after = .crashed fault) ∨
    Kept s c.toSender ∧ (TState.established.number ≤ c.tState.number →
      TState.established.number ≤ s.tState.number ∨ ti.ack = s.sndUna ∧ ti.win = s.sndWnd.toNat) ∨
    Acked ti s c.toSender ∧ TState.established.number ≤ s.tState.number

theorem newAck_frame (ack : Seq) (s : Sender) : (newAck ack s).sndUna = ack ∧
    (newAck ack s).sndWnd = s.sndWnd - BitVec.ofNat 32 (taken ack s) ∧ (newAck ack s).sndWl1 = s.sndWl1 := by
  obtain ⟨_, _, _, _, _, _, _, same⟩ := newAck_eq ack s
  rw [same]
  exact ⟨rfl, rfl, rfl⟩

theorem tcpCancelinger_frame (s : Sender) : (tcpCancelinger s).sndUna = s.sndUna ∧ (tcpCancelinger s).sndWnd = s.sndWnd ∧
    (tcpCancelinger s).sndWl1 = s.sndWl1 := by
  unfold tcpCancelinger
  split
  · exact ⟨rfl, rfl, rfl⟩
  · exact ⟨rfl, rfl, rfl⟩

theorem finDone_frame (cantrcvmore : Bool) (s : Sender) : (finDone cantrcvmore s).sndUna = s.sndUna ∧
    (finDone cantrcvmore s).sndWnd = s.sndWnd ∧ (finDone cantrcvmore s).sndWl1 = s.sndWl1 := by
  unfold finDone
  split
  · exact tcpCancelinger_frame s
  · exact tcpCancelinger_frame (tcpCanceltimers s)
  · exact tcpCancelinger_frame s
  · exact ⟨rfl, rfl, rfl⟩

theorem windowNewer_first (flag : w.tiflags.ack = true) (first : s.sndWl1 = w.ti.seq - 1) : windowNewer w s = true := by
  have behind : Seq.ahead s.sndWl1 w.ti.seq < 0 := by
    rw [first, Seq.ahead_pred (by rw [Seq.ahead_self]; decide), Seq.ahead_self]
    decide
  exact decide_eq_true ⟨flag, .inl behind⟩

theorem Reached.late (reached : Reached ti s w c) (synced : TState.established.number ≤ c.tState.number) :
    TState.established.number ≤ s.tState.number ∨ c.tState = .established ∧ c.sndWl1 = w.ti.seq - 1 ∧
      Seq.ahead s.sndUna ti.ack ≤ 0 ∧ Seq.ahead ti.ack s.sndMax ≤ 0 := by
  obtain ⟨same, _⟩ | ⟨state, first, old, inside⟩ := reached.state
  · exact .inl (same ▸ synced)
  · exact .inr ⟨state, first, old, inside⟩

theorem dupAck_handed (reached : Reached ti s w c) (synced : TState.established.number ≤ c.tState.number)
    (old : Seq.ahead ti.ack s.sndUna ≤ 0) : Stage.Gives (Handed ti s) (Stops ti s) (dupAck w c) := by
  have counted (n : Nat) : Stage.Gives (Handed ti s) (Stops ti s) (.ok (w, { c with tDupacks := n })) := by
    refine ⟨reached.win, reached.flag, .inl ⟨⟨reached.same.una, reached.same.wnd⟩, ?_⟩, ?_⟩
    · exact (reached.late synced).imp_right fun fresh => ⟨old, fresh.2.2.1⟩
    exact (reached.late synced).imp_right fun fresh => windowNewer_first reached.acks fresh.2.1
  unfold dupAck
  split
  · next same =>
    split
    · exact counted 0
    · next again =>
      rw [not_or, not_not] at again
      split
      · split
        · exact .inl ⟨_, rfl⟩
        · refine .inr (.inl ⟨⟨reached.same.una, reached.same.wnd⟩, fun _ => .inr ⟨?_, ?_⟩⟩)
          · exact reached.ack.symm.trans (again.2.trans reached.same.una)
          · exact reached.win.symm.trans (same.2.trans (congrArg BitVec.toNat reached.same.wnd))
      · exact counted (c.tDupacks + 1)
  · exact counted 0

theorem dropAfterAck_stops (stops : ∀ after, Stops ti s c after) : Stage.Gives (Handed ti s) (Stops ti s) (.error (dropAfterAck w c)) := by
  unfold dropAfterAck
  split
  · exact stops .moreinput
  · exact stops .output

theorem ackStage_handed (reached : Reached ti s w c) (synced : TState.established.number ≤ c.tState.number) :
    Stage.Gives (Handed ti s) (Stops ti s) (ackStage w c) := by
  have late := reached.late synced
  unfold ackStage
  split
  · next old =>
    rw [reached.ack, reached.same.una] at old
    exact dupAck_handed reached synced old
  · next new =>
    rw [reached.ack, reached.same.una, not_le] at new
    split
    · next outside =>
      rw [reached.ack, reached.same.max] at outside
      apply dropAfterAck_stops
      intro after
      refine .inr (.inl ⟨⟨reached.same.una, reached.same.wnd⟩, fun _ => .inl ?_⟩)
      obtain late | ⟨_, _, _, inside⟩ := late
      · exact late
      · omega
    · next inside =>
      rw [reached.ack, reached.same.max, not_lt] at inside
      have ⟨una, wnd, wl1⟩ := newAck_frame ti.ack c.toSender
      have state := newAck_tState ti.ack c.toSender
      have size : taken ti.ack c.toSender = taken ti.ack s := by
        unfold taken
        rw [reached.same.una, reached.same.qsize]
      rw [size, reached.same.wnd] at wnd
      have ⟨una', wnd', wl1'⟩ := finDone_frame c.cantrcvmore (newAck ti.ack c.toSender)
      have acked : Acked ti s (newAck ti.ack c.toSender) := ⟨new, inside, una, wnd⟩
      have done : Acked ti s (finDone c.cantrcvmore (newAck ti.ack c.toSender)) :=
        ⟨new, inside, una'.trans una, wnd'.trans wnd⟩
      have fresh (s₁ : Sender) (first : s₁.sndWl1 = c.sndWl1) (w' : Work) (ti' : w'.ti = w.ti) (flags : w'.tiflags = w.tiflags) :
          TState.established.number ≤ s.tState.number ∨ windowNewer w' s₁ = true :=
        late.imp_right fun fresh => windowNewer_first (flags ▸ reached.acks) (ti' ▸ first.trans fresh.2.1)
      simp only [reached.ack]
      split
      · next waits =>
        have earlier : TState.established.number ≤ s.tState.number := by
          obtain late | ⟨here, _⟩ := late
          · exact late
          · rw [Tcpcb.sending_toSender, state, here] at waits
            cases waits
        exact dropAfterAck_stops fun after => .inr (.inr ⟨⟨new, inside, una, wnd⟩, earlier⟩)
      · split
        · split
          · next last =>
            have earlier : TState.established.number ≤ s.tState.number := by
              obtain late | ⟨here, _⟩ := late
              · exact late
              · rw [Tcpcb.sending_toSender, state, here] at last
                cases last
            exact .inr (.inr ⟨done, earlier⟩)
          · exact ⟨reached.win, reached.flag, .inr done, fresh _ (wl1'.trans wl1) _ rfl rfl⟩
        · exact ⟨reached.win, reached.flag, .inr acked, fresh _ wl1 _ rfl rfl⟩

/-! ### The rest of a segment -/

/-- A segment without a FIN, and nothing that has waited before it, bring no FIN up. -/
theorem reass_plain {ups : List Upstream} {urg fin : Bool} {ti : Tcpiphdr} {c c' : Tcpcb} (empty : c.segs = [])
    (plain : ti.flags.fin = false) (done : reass ups urg ti c = some (fin, c')) : fin = false := by
  unfold reass at done
  split at done
  · simp only [] at done
    split at done
    · cases done
      exact plain
    · obtain ⟨i, _, same⟩ := Option.map_eq_some_iff.mp done
      cases same
      exact plain
  · unfold tcpReass at done
    simp only [empty, List.takeWhile_nil, List.dropWhile_nil, trimPrev, List.getLast?_nil, trimNext, List.nil_append] at done
    unfold present at done
    split at done
    · cases done
      rfl
    · split at done
      · cases done
        rfl
      · unfold presentLoop at done
        split at done
        · obtain ⟨c₁, _, last⟩ := Option.bind_eq_some_iff.mp done
          cases last
          exact plain
        · cases done
          rfl

theorem textStage_gives (env : Env) (w : Work) (c : Tcpcb) :
    Stage.Gives (fun w' c' => c'.toSender = c.toSender ∧ (w'.tiflags.fin = true → w.ti.flags.fin = true ∨ c.segs ≠ []))
      (fun _ after => ∃ fault, after = .crashed fault) (textStage env w c) := by
  unfold textStage
  split
  · split
    · exact ⟨_, rfl⟩
    · next fin c₁ done =>
      have kept := reass_toSender done
      refine ⟨kept, fun (ended : fin = true) => ?_⟩
      by_contra neither
      rw [not_or, not_not, Bool.not_eq_true] at neither
      have plain := reass_plain neither.2 neither.1 done
      rw [plain] at ended
      cases ended
  · exact ⟨rfl, nofun⟩

theorem finReceived_frame (s : Sender) : (finReceived s).sndUna = s.sndUna ∧ (finReceived s).sndWnd = s.sndWnd ∧
    (TState.established.number ≤ (finReceived s).tState.number → TState.established.number ≤ s.tState.number ∨ s.tState = .synReceived) := by
  have states : TState.established.number ≤ (finReceived s).tState.number →
      TState.established.number ≤ s.tState.number ∨ s.tState = .synReceived := by
    cases state : s.tState with
    | synReceived => exact fun _ => .inr rfl
    | established | closeWait | finWait1 | closing | lastAck | finWait2 | timeWait => exact fun _ => .inl (by decide)
    | closed | listen | synSent =>
      have same : finReceived s = s := by
        unfold finReceived
        rw [state]
      rw [same, state]
      exact fun late => .inl late
  refine ⟨?_, ?_, states⟩
  · unfold finReceived
    split <;> rfl
  · unfold finReceived
    split <;> rfl

theorem finStage_toSender (w : Work) (c : Tcpcb) :
    (finStage w c).toSender = if w.tiflags.fin then finReceived c.toSender else c.toSender := by
  unfold finStage
  split
  · split
    · rfl
    · rfl
  · rfl

/-- What `step6` does to the window. -/
theorem step6_gives (env : Env) (w : Work) (c : Tcpcb) :
    Stage.Gives (fun _ c' => c'.sndUna = c.sndUna ∧
        c'.sndWnd = (if windowNewer w c.toSender then BitVec.ofNat 32 w.ti.win else c.sndWnd) ∧
        (TState.established.number ≤ c'.tState.number →
          TState.established.number ≤ c.tState.number ∨ c.tState = .synReceived ∧ (w.ti.flags.fin = true ∨ c.segs ≠ [])))
      (fun _ after => ∃ fault, after = .crashed fault) (step6 env w c) := by
  have updated : (windowUpdate w c).2.sndUna = c.sndUna ∧
      (windowUpdate w c).2.sndWnd = (if windowNewer w c.toSender then BitVec.ofNat 32 w.ti.win else c.sndWnd) ∧
      (windowUpdate w c).2.tState = c.tState ∧ (windowUpdate w c).2.segs = c.segs ∧ (windowUpdate w c).1.ti = w.ti := by
    unfold windowUpdate
    split
    · exact ⟨rfl, rfl, rfl, rfl, rfl⟩
    · exact ⟨rfl, rfl, rfl, rfl, rfl⟩
  have urged : (urgent (windowUpdate w c).1 (windowUpdate w c).2).2.toSender = (windowUpdate w c).2.toSender ∧
      (urgent (windowUpdate w c).1 (windowUpdate w c).2).2.segs = c.segs ∧
      (urgent (windowUpdate w c).1 (windowUpdate w c).2).1.ti.flags = w.ti.flags := by
    have flags : (windowUpdate w c).1.ti.flags = w.ti.flags := congrArg Tcpiphdr.flags updated.2.2.2.2
    unfold urgent
    split
    · exact ⟨rfl, updated.2.2.2.1, flags⟩
    · exact ⟨rfl, updated.2.2.2.1, flags⟩
  have text := textStage_gives env (urgent (windowUpdate w c).1 (windowUpdate w c).2).1 (urgent (windowUpdate w c).1 (windowUpdate w c).2).2
  rw [urged.1, urged.2.1, urged.2.2] at text
  unfold step6
  refine text.bind fun w' c' kept => ?_
  obtain ⟨same, fin⟩ := kept
  have una : c'.sndUna = c.sndUna := (congrArg Sender.sndUna same).trans updated.1
  have wnd := (congrArg Sender.sndWnd same).trans updated.2.1
  have state : c'.tState = c.tState := (congrArg Sender.tState same).trans updated.2.2.1
  have final := finStage_toSender w' c'
  have ⟨una', wnd', states⟩ := finReceived_frame c'.toSender
  change (finStage w' c').sndUna = _ ∧ (finStage w' c').sndWnd = _ ∧ _
  rw [final]
  cases ended : w'.tiflags.fin with
  | true =>
    refine ⟨una'.trans una, wnd'.trans wnd, fun late => ?_⟩
    obtain late | received := states late
    · exact .inl (state ▸ late)
    · exact .inr ⟨state ▸ received, fin ended⟩
  | false => exact ⟨una, wnd, fun late => .inl (state ▸ late)⟩

/-! ### A segment -/

/-- Where `snd_una` is after a segment whose window is taken. -/
def Takes (ti : Tcpiphdr) (s s' : Sender) : Prop :=
  s'.sndUna = ti.ack ∧ (0 < Seq.ahead ti.ack s.sndUna ∨ s.tState = .synSent ∧ 0 < Seq.ahead ti.ack s.iss) ∨
    s'.sndUna = s.sndUna ∧ s.tState ≠ .synSent ∧ (TState.established.number ≤ s.tState.number ∨ Repeats ti s)

/-- What a segment does to the window. -/
inductive WindowMove (env : Env) (ti : Tcpiphdr) (c c' : Tcpcb) : Prop where
  | kept : Kept c.toSender c'.toSender →
      (TState.established.number ≤ c'.tState.number → TState.established.number ≤ c.tState.number ∨
        c.tState ≠ .synSent ∧ ti.ack = c.sndUna ∧ ti.win = c.sndWnd.toNat ∧ ti.flags.ack = true ∨
        c.tState = .synSent ∧ ti.flags.syn = true ∧ ti.flags.ack = false ∧ (ti.flags.fin = true ∨ c.segs ≠ [])) → WindowMove env ti c c'
  | acked : acks env ti c = true → takes env ti c = false → TState.established.number ≤ c.tState.number →
      Acked ti c.toSender c'.toSender → WindowMove env ti c c'
  | took : takes env ti c = true → ti.flags.ack = true → c'.sndWnd = BitVec.ofNat 32 ti.win →
      Takes ti c.toSender c'.toSender → WindowMove env ti c c'

variable (env) in
theorem opened_before {opened : Sender} {reads : List Nat} (found : tcpDooptions env.route ti.flags.syn env.options c.toSender = some (opened, reads)) :
    Before ti c.toSender ⟨ti, ti.flags, false⟩ (arrive { c with toSender := opened }) := by
  obtain ⟨_, _, same⟩ := tcpDooptions_eq found
  rw [same]
  exact ⟨rfl, rfl, rfl, ⟨rfl, rfl, rfl, rfl⟩, rfl, rfl⟩

variable (env ti) in
/-- From `SYN_RECEIVED` on. -/
theorem byState_late (late : TState.synReceived.number ≤ c.tState.number) : Stage.Gives
    (fun w c' => Handed ti c.toSender w c' ∧ (Acked ti c.toSender c'.toSender → acks env ti c = true))
    (fun c' after => (∃ fault, after = .crashed fault) ∨
      Kept c.toSender c'.toSender ∧ (TState.established.number ≤ c'.tState.number →
        TState.established.number ≤ c.tState.number ∨ ti.ack = c.sndUna ∧ ti.win = c.sndWnd.toNat ∧ ti.flags.ack = true) ∨
      Acked ti c.toSender c'.toSender ∧ TState.established.number ≤ c.tState.number ∧ acks env ti c = true)
    (byState env ⟨ti, ti.flags, false⟩ c) := by
  have whole : byState env ⟨ti, ti.flags, false⟩ c =
      match tcpDooptions env.route ti.flags.syn env.options c.toSender with
      | none => .error (c, .crashed .null)
      | some (opened, _) => synchronized env ⟨ti, ti.flags, false⟩ (arrive { c with toSender := opened }) := by
    unfold byState
    cases state : c.tState with
    | closed | listen | synSent =>
      rw [state] at late
      exact absurd late (by decide)
    | _ => rfl
  rw [whole]
  unfold acks
  split
  · exact .inl ⟨_, rfl⟩
  · next opened reads found =>
    have reached := beforeAck_reached env (opened_before env found)
    unfold synchronized
    generalize beforeAck env ⟨ti, ti.flags, false⟩ (arrive { c with toSender := opened }) = before at reached ⊢
    cases before with
    | error ended =>
      obtain quits | crashed := reached
      · exact .inr (.inl ⟨⟨quits.1, quits.2.1⟩, fun synced => .inl (quits.2.2 synced)⟩)
      · exact .inl ⟨_, crashed⟩
    | ok handed =>
      obtain ⟨w, c₁⟩ := handed
      have reached : Reached ti c.toSender w c₁ := reached
      have synced : TState.established.number ≤ c₁.tState.number := by
        obtain ⟨same, other⟩ | ⟨same, _⟩ := reached.state
        · rw [same] at other ⊢
          cases state : c.tState with
          | synReceived => exact absurd state other
          | closed | listen | synSent =>
            rw [state] at late
            exact absurd late (by decide)
          | _ => decide
        · rw [same]
      have counts {s' : Sender} (acked : Acked ti c.toSender s') : (decide (TState.established.number ≤ c₁.tState.number ∧
          0 < Seq.ahead ti.ack c₁.sndUna ∧ Seq.ahead ti.ack c₁.sndMax ≤ 0)) = true := by
        rw [reached.same.una, reached.same.max]
        exact decide_eq_true ⟨synced, acked.new, acked.inside⟩
      change Stage.Gives _ _ (if TState.established.number ≤ c₁.tState.number then ackStage w c₁ else .ok (w, c₁))
      rw [if_pos synced]
      refine (ackStage_handed reached synced).imp (fun w c handed => ⟨handed, counts⟩) fun c after stops => ?_
      obtain crashed | ⟨kept, stays⟩ | ⟨acked, stays⟩ := stops
      · exact .inl crashed
      · refine .inr (.inl ⟨kept, fun synced => (stays synced).imp_right fun same => ⟨same.1, same.2, ?_⟩⟩)
        exact reached.flag.symm.trans reached.acks
      · exact .inr (.inr ⟨acked, stays, counts acked⟩)

theorem synTimed_eq (s : Sender) : ∃ srtt rttvar rxtcur rtt,
    synTimed s = { s with tSrtt := srtt, tRttvar := rttvar, tRxtcur := rxtcur, tRtt := rtt } := by
  unfold synTimed setRxtcur
  split
  · exact ⟨_, _, _, _, rfl⟩
  · exact ⟨s.tSrtt, s.tRttvar, s.tRxtcur, s.tRtt, rfl⟩

/-- What `trimthenstep6` leaves of a segment. -/
theorem trimThenStep6_gives (w : Work) (c : Tcpcb) : Stage.Gives
    (fun w' c' => w'.ti.win = w.ti.win ∧ w'.ti.flags = w.ti.flags ∧ w'.tiflags.ack = w.tiflags.ack ∧ c'.segs = c.segs ∧
      c'.toSender = { c.toSender with sndWl1 := w'.ti.seq - 1 })
    (fun _ _ => False) (trimThenStep6 w c) := by
  unfold trimThenStep6
  simp only []
  split
  · exact ⟨rfl, rfl, rfl, rfl, rfl⟩
  · exact ⟨rfl, rfl, rfl, rfl, rfl⟩

variable (env) in
theorem synSentStage_gives (state : c.tState = .synSent) (w : Work) : Stage.Gives
    (fun w' c' => w'.ti.win = w.ti.win ∧ w'.tiflags.ack = w.tiflags.ack ∧
      (w.tiflags.ack = true → c'.sndUna = w.ti.ack ∧ windowNewer w' c'.toSender = true ∧ 0 < Seq.ahead w.ti.ack c.iss) ∧
      (w.tiflags.ack = false → w.tiflags.syn = true ∧ Kept c.toSender c'.toSender ∧ c'.tState = .synReceived ∧
        w'.ti.flags = w.ti.flags ∧ c'.segs = c.segs))
    (fun c' after => (∃ fault, after = .crashed fault) ∨ Kept c.toSender c'.toSender ∧ c'.tState = .synSent)
    (synSentStage env w c) := by
  have dropped : tcpDrop c = tcpClose c := by
    unfold tcpDrop
    rw [state]
    rfl
  unfold synSentStage
  split
  · exact .inr ⟨⟨rfl, rfl⟩, state⟩
  · next acceptable =>
    split
    · split
      · rw [dropped]
        exact .inr ⟨⟨rfl, rfl⟩, state⟩
      · exact .inr ⟨⟨rfl, rfl⟩, state⟩
    · split
      · exact .inr ⟨⟨rfl, rfl⟩, state⟩
      · next syn =>
        simp only []
        split
        · next flagged =>
          split
          · exact .inl ⟨_, rfl⟩
          · next c₁ done =>
            have kept := present_toSender done
            obtain ⟨_, _, clipped⟩ := clipMaxseg_eq env.route (synAcked w.ti.ack c.toSender)
            rw [Tcpcb.sending_toSender] at kept
            change c₁.toSender = clipMaxseg env.route (synAcked w.ti.ack c.toSender) at kept
            rw [clipped] at kept
            obtain ⟨_, _, _, _, timed⟩ := synTimed_eq c₁.toSender
            refine (trimThenStep6_gives w (c₁.sending synTimed)).imp (fun w' c' trimmed => ?_) fun c after never => never.elim
            obtain ⟨win, _, flag, _, same⟩ := trimmed
            refine ⟨win, flag, fun _ => ⟨?_, ?_⟩, fun plain => absurd flagged (by simp [plain])⟩
            · have una := congrArg Sender.sndUna same
              rw [Tcpcb.sending_toSender, timed, kept] at una
              exact una
            · refine ⟨windowNewer_first (flag.trans flagged) (congrArg Sender.sndWl1 same), ?_⟩
              by_contra old
              exact acceptable ⟨flagged, .inl (not_lt.mp old)⟩
        · next plain =>
          refine (trimThenStep6_gives w _).imp (fun w' c' trimmed => ?_) fun c after never => never.elim
          obtain ⟨win, flags, flag, segs, same⟩ := trimmed
          refine ⟨win, flag, fun flagged => absurd flagged plain, fun _ => ⟨by simpa using syn, ⟨?_, ?_⟩, ?_, flags, segs⟩⟩
          · exact (congrArg Sender.sndUna same).trans rfl
          · exact (congrArg Sender.sndWnd same).trans rfl
          · exact (congrArg Sender.tState same).trans rfl

variable (env ti) in
theorem byState_window (opened : c.tState ≠ .closed) (active : c.tState ≠ .listen) : Stage.Gives
    (fun w c' => w.ti.win = ti.win ∧ w.tiflags.ack = ti.flags.ack ∧
      (windowNewer w c'.toSender = true → Takes ti c.toSender c'.toSender) ∧
      (windowNewer w c'.toSender = false →
        TState.established.number ≤ c.tState.number ∧ (Kept c.toSender c'.toSender ∨ acks env ti c = true ∧ Acked ti c.toSender c'.toSender) ∨
        c.tState = .synSent ∧ ti.flags.syn = true ∧ ti.flags.ack = false ∧ Kept c.toSender c'.toSender ∧
          c'.tState = .synReceived ∧ w.ti.flags = ti.flags ∧ c'.segs = c.segs))
    (fun c' after => (∃ fault, after = .crashed fault) ∨ (takes env ti c = false → WindowMove env ti c c'))
    (byState env ⟨ti, ti.flags, false⟩ c) := by
  by_cases syn : c.tState = .synSent
  · have whole : byState env ⟨ti, ti.flags, false⟩ c =
        match tcpDooptions env.route ti.flags.syn env.options c.toSender with
        | none => .error (c, .crashed .null)
        | some (opened, _) => synSentStage env ⟨ti, ti.flags, false⟩ (arrive { c with toSender := opened }) := by
      unfold byState
      rw [syn]
      rfl
    rw [whole]
    split
    · exact .inl ⟨_, rfl⟩
    · next opened reads found =>
      have before := opened_before env found
      refine (synSentStage_gives env (before.state.trans syn) ⟨ti, ti.flags, false⟩).imp (fun w c' gives => ?_) fun c' after gives => ?_
      · obtain ⟨win, flag, acked, plain⟩ := gives
        refine ⟨win, flag, fun newer => ?_, fun older => ?_⟩
        · have flagged : ti.flags.ack = true := flag.symm.trans (of_decide_eq_true newer).1
          have ⟨una, _, new⟩ := acked flagged
          exact .inl ⟨una, .inr ⟨syn, before.iss ▸ new⟩⟩
        · have unflagged : ti.flags.ack = false := by
            by_contra flagged
            rw [Bool.not_eq_false] at flagged
            exact absurd ((acked flagged).2.1.symm.trans older) (by decide)
          obtain ⟨syns, kept, state, flags, segs⟩ := plain unflagged
          exact .inr ⟨syn, syns, unflagged, ⟨kept.1.trans before.same.una, kept.2.trans before.same.wnd⟩, state, flags, segs⟩
      · obtain crashed | ⟨kept, state⟩ := gives
        · exact .inl crashed
        · refine .inr fun _ => .kept ⟨kept.1.trans before.same.una, kept.2.trans before.same.wnd⟩ fun late => ?_
          rw [state] at late
          exact absurd late (by decide)
  · have late : TState.synReceived.number ≤ c.tState.number := by
      cases state : c.tState with
      | closed => exact absurd state opened
      | listen => exact absurd state active
      | synSent => exact absurd state syn
      | _ => decide
    refine (byState_late env ti late).imp (fun w c' gives => ?_) fun c' after gives => ?_
    · obtain ⟨handed, counts⟩ := gives
      refine ⟨handed.win, handed.flag, fun _ => ?_, fun older => .inl ⟨?_, ?_⟩⟩
      · obtain ⟨kept, stays⟩ | acked := handed.moved
        · exact .inr ⟨kept.1, syn, stays⟩
        · exact .inl ⟨acked.una, .inl acked.new⟩
      · obtain synced | newer := handed.late
        · exact synced
        · exact absurd (newer.symm.trans older) (by decide)
      · exact handed.moved.imp And.left fun acked => ⟨counts acked, acked⟩
    · obtain crashed | ⟨kept, stays⟩ | ⟨acked, synced, counts⟩ := gives
      · exact .inl crashed
      · exact .inr fun _ => .kept kept fun synced => (stays synced).imp_right fun same => .inl ⟨syn, same⟩
      · exact .inr fun older => .acked counts older synced acked

theorem tcpUinput_window (opened : c.tState ≠ .closed) (active : c.tState ≠ .listen) :
    (∃ fault, (tcpUinput env ti c).2 = .crashed fault) ∨ WindowMove env ti c (tcpUinput env ti c).1 := by
  unfold tcpUinput
  simp only []
  split
  · exact .inr (.kept ⟨rfl, rfl⟩ .inl)
  · have first := byState_window env ti opened active
    have taken : takes env ti c = match byState env ⟨ti, ti.flags, false⟩ c with
      | .error _ => false
      | .ok (w, c) => windowNewer w c.toSender := rfl
    unfold stages
    generalize byState env ⟨ti, ti.flags, false⟩ c = handed at first taken ⊢
    cases handed with
    | error ended =>
      obtain crashed | moves := first
      · exact .inl crashed
      · exact .inr (moves taken)
    | ok handed =>
      obtain ⟨w, c₁⟩ := handed
      obtain ⟨win, flag, newer, older⟩ := first
      have last := step6_gives env w c₁
      change (∃ fault, (match step6 env w c₁ with
        | .error ended => ended
        | .ok (w, c) => (c, if w.needoutput ∨ c.acknow then After.output else .moreinput)).2 = .crashed fault) ∨
          WindowMove env ti c (match step6 env w c₁ with
        | .error ended => ended
        | .ok (w, c) => (c, if w.needoutput ∨ c.acknow then After.output else .moreinput)).1
      generalize step6 env w c₁ = result at last ⊢
      cases result with
      | error ended => exact .inl last
      | ok result =>
        obtain ⟨una, wnd, states⟩ := last
        refine .inr ?_
        by_cases fresh : windowNewer w c₁.toSender = true
        · rw [if_pos fresh, win] at wnd
          have flagged : ti.flags.ack = true := flag.symm.trans (of_decide_eq_true fresh).1
          exact .took (taken.trans fresh) flagged wnd ((newer fresh).imp (And.imp_left una.trans) (And.imp_left una.trans))
        · rw [if_neg fresh] at wnd
          rw [Bool.not_eq_true] at fresh
          obtain ⟨synced, kept | ⟨counts, acked⟩⟩ | ⟨syn, syns, plain, kept, state, flags, segs⟩ := older fresh
          · exact .kept ⟨una.trans kept.1, wnd.trans kept.2⟩ fun _ => .inl synced
          · exact .acked counts (taken.trans fresh) synced ⟨acked.new, acked.inside, una.trans acked.una, wnd.trans acked.wnd⟩
          · refine .kept ⟨una.trans kept.1, wnd.trans kept.2⟩ fun synced => .inr (.inr ⟨syn, syns, plain, ?_⟩)
            obtain synced | ⟨_, ended⟩ := states synced
            · rw [state] at synced
              exact absurd synced (by decide)
            · rwa [flags, segs] at ended

end

end Svr4.Tcp
