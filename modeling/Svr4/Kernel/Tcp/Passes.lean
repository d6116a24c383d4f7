import Svr4.Kernel.Tcp.Options

/-! What a pass of `tcp_output` leaves, and the rule for the passes of a call. -/

namespace Svr4.Tcp

open BitVec (ofNat)
open List (suffix_rfl)

/-! ## Allocations -/

theorem dupRest_suffix (alloc : List Bool) (len : Int) (bs : List Block) : (dupRest alloc len bs).2 <:+ alloc := by
  induction bs generalizing alloc len with
  | nil =>
    unfold dupRest
    split
    · exact suffix_rfl
    · exact suffix_rfl
  | cons b rest ih =>
    unfold dupRest
    split
    · exact suffix_rfl
    · have first := grant_suffix alloc
      rcases granted : grant alloc with ⟨ok, alloc'⟩
      rw [granted] at first
      cases ok with
      | false => exact first
      | true =>
        have later := ih alloc' (len - b.length)
        rcases copied : dupRest alloc' (len - b.length) rest with ⟨result, alloc''⟩
        rw [copied] at later
        cases result with
        | failed =>
          simp only [copied]
          exact later.trans first
        | panicked =>
          simp only [copied]
          exact later.trans first
        | blocks bs =>
          simp only [copied]
          exact later.trans first

theorem tcpDupblks_suffix (alloc : List Bool) (q : List (List Block)) (off len : Nat) : (tcpDupblks alloc q off len).2 <:+ alloc := by
  unfold tcpDupblks
  split
  · exact suffix_rfl
  · exact suffix_rfl
  · next left b rest found =>
    have first := grant_suffix alloc
    rcases granted : grant alloc with ⟨ok, alloc'⟩
    rw [granted] at first
    cases ok with
    | false => exact first
    | true =>
      have later := dupRest_suffix alloc' ((len : Int) - (b.drop left).length) rest
      rcases copied : dupRest alloc' ((len : Int) - (b.drop left).length) rest with ⟨result, alloc''⟩
      rw [copied] at later
      have both := later.trans first
      cases result with
      | failed =>
        simp only [copied]
        exact both
      | panicked =>
        simp only [copied]
        exact both
      | blocks bs =>
        simp only [copied]
        split
        · have last := grant_suffix alloc''
          rcases pulled : grant alloc'' with ⟨ok, alloc3⟩
          rw [pulled] at last
          cases ok with
          | true => exact last.trans both
          | false => exact last.trans both
        · exact both

/-! ## A pass -/

def planOf (c : Tcpcb) : Plan := (plan c.toSender).2

/-- The block when the plan has been made. -/
def planned (c : Tcpcb) : Tcpcb := { c with toSender := (plan c.toSender).1 }

/-- The block from which the segment is filled in. -/
def readied (route : Option Route) (c : Tcpcb) : Tcpcb :=
  (planned c).sending fun s => opens route (planOf c).flags (retreat (planOf c).flags s)

def transmitted (route : Option Route) (n : Nat) (c : Tcpcb) : Tcpcb :=
  (readied route c).sending fun s => transmit (planOf c).flags n (dragUp s)

def segmentSent (route : Option Route) (data : List UInt8) (c : Tcpcb) : Sent := segmentOf (planOf c) data (readied route c)

def finished (route : Option Route) (data : List UInt8) (c : Tcpcb) : Tcpcb :=
  finish (planOf c) (segmentSent route data c) (advertised (readied route c)) (transmitted route data.length c)

/-- The data that a plan finds. -/
inductive Copied (alloc : List Bool) (q : List (List Block)) (p : Plan) : List UInt8 → Prop where
  | empty : p.len = 0 → Copied alloc q p []
  | failed : p.len ≠ 0 → (grant alloc).1 = true → (tcpDupblks (grant alloc).2 q p.off.toNat p.len).1 = .failed → Copied alloc q p []
  | blocks {bs : List Block} : p.len ≠ 0 → (tcpDupblks (grant alloc).2 q p.off.toNat p.len).1 = .blocks bs →
      Copied alloc q p bs.flatten

inductive PassOf (alloc : List Bool) (route : Option Route) (idle : Bool) (c : Tcpcb) : Pass → Prop where
  | idle : sendDue idle (planned c) (planOf c) = false → PassOf alloc route idle c (.idle ((planned c).sending startPersist))
  | waits : sendDue idle (planned c) (planOf c) = true → false ∈ alloc → PassOf alloc route idle c (.failed (planned c))
  | panicked : PassOf alloc route idle c .panicked
  | unopened : (planOf c).flags.syn = true → false ∈ alloc → PassOf alloc route idle c (.failed (readied route c))
  | unsent {data : List UInt8} : sendDue idle (planned c) (planOf c) = true → false ∈ alloc →
      Copied alloc c.wq (planOf c) data → PassOf alloc route idle c (.failed (transmitted route data.length c))
  | sent {data : List UInt8} : sendDue idle (planned c) (planOf c) = true → Copied alloc c.wq (planOf c) data →
      PassOf alloc route idle c (.sent (finished route data c) (planOf c).sendalot)

theorem Copied.whole {alloc : List Bool} {q : List (List Block)} {p : Plan} {data : List UInt8} (granted : false ∉ alloc)
    (room : p.len ≠ 0 → p.off.toNat + p.len ≤ (qbytes q).length) (copied : Copied alloc q p data) : data.length = p.len := by
  cases copied with
  | empty none => exact none.symm
  | failed some _ failed =>
    obtain ⟨_, lost⟩ | ⟨_, found, _⟩ := tcpDupblks_spec (grant alloc).2 q p.off.toNat p.len (Nat.pos_of_ne_zero some) (room some)
    · exact absurd ((grant_suffix alloc).subset lost) granted
    · rw [found] at failed
      cases failed
  | blocks _ found => exact tcpDupblks_length _ _ _ _ found

theorem Copied.length {alloc : List Bool} {q : List (List Block)} {p : Plan} {data : List UInt8} (copied : Copied alloc q p data) :
    data = [] ∨ data.length = p.len := by
  cases copied with
  | empty => exact .inl rfl
  | failed => exact .inl rfl
  | blocks _ found => exact .inr (tcpDupblks_length _ _ _ _ found)

section

variable {alloc alloc' : List Bool} {route : Option Route} {idle : Bool} {c : Tcpcb} {data : List UInt8}

theorem finish_toSender (p : Plan) (segment : Sent) (win : Int) (c : Tcpcb) : (finish p segment win c).toSender =
    { c.toSender with sent := segment :: c.sent, tForce := p.sendalot && c.tForce } := rfl

/-! ### The plan -/

section
variable (s : Sender)
include s

/-- Only timers and `snd_nxt` depend on the plan. -/
theorem plan_eq : ∃ persist shift rexmt nxt,
    (plan s).1 = { s with persist := persist, tRxtshift := shift, rexmt := rexmt, sndNxt := nxt } ∧
      (nxt = s.sndNxt ∨ nxt = s.sndUna) ∧ (persist = 0 ∨ persist = s.persist) ∧ (shift = 0 ∨ shift = s.tRxtshift) ∧
      (rexmt = 0 ∨ rexmt = s.rexmt) := by
  have forced : ∃ persist shift, (force s).1 = { s with persist := persist, tRxtshift := shift } ∧
      (persist = 0 ∨ persist = s.persist) ∧ (shift = 0 ∨ shift = s.tRxtshift) := by
    unfold force
    split
    · split
      · exact ⟨s.persist, s.tRxtshift, rfl, .inr rfl, .inr rfl⟩
      · exact ⟨0, 0, rfl, .inl rfl, .inl rfl⟩
    · exact ⟨s.persist, s.tRxtshift, rfl, .inr rfl, .inr rfl⟩
  obtain ⟨persist, shift, same, timer⟩ := forced
  have planned : (plan s).1 = shrink (force s).1 (force s).2 := rfl
  rw [planned, same]
  unfold shrink
  split
  · exact ⟨persist, shift, 0, s.sndUna, rfl, .inr rfl, timer.1, timer.2, .inl rfl⟩
  · exact ⟨persist, shift, s.rexmt, s.sndNxt, rfl, .inl rfl, timer.1, timer.2, .inr rfl⟩

theorem plan_wq : (plan s).1.wq = s.wq := by
  obtain ⟨_, _, _, _, same, _⟩ := plan_eq s
  rw [same]

theorem usable_force (win : Nat) : usable (force s).1 win = usable s win := by
  unfold force
  split
  · split <;> rfl
  · rfl

theorem plan_maxseg : (plan s).1.tMaxseg = s.tMaxseg := by
  obtain ⟨_, _, _, _, same, _⟩ := plan_eq s
  rw [same]

theorem plan_len : (plan s).2.len = min (usable s (force s).2).toNat s.tMaxseg := by
  have len : (plan s).2.len = min (usable (force s).1 (force s).2).toNat (plan s).1.tMaxseg := rfl
  rw [len, usable_force, plan_maxseg]

theorem plan_sendalot : (plan s).2.sendalot = decide (s.tMaxseg < (usable s (force s).2).toNat) := by
  have sendalot : (plan s).2.sendalot = decide ((plan s).1.tMaxseg < (usable (force s).1 (force s).2).toNat) := rfl
  rw [sendalot, usable_force, plan_maxseg]

/-- The window has not shrunk: `snd_nxt` and the retransmit timer stay. -/
theorem plan_open (inside : 0 ≤ usable s (force s).2) : (plan s).1.sndNxt = s.sndNxt ∧ (plan s).1.rexmt = s.rexmt := by
  have planned : (plan s).1 = shrink (force s).1 (force s).2 := rfl
  have forced : (force s).1.sndNxt = s.sndNxt ∧ (force s).1.rexmt = s.rexmt := by
    unfold force
    split
    · split <;> exact ⟨rfl, rfl⟩
    · exact ⟨rfl, rfl⟩
  rw [planned]
  unfold shrink
  rw [usable_force, if_neg (by omega)]
  exact forced

/-- Data are sent from where `snd_nxt` was. -/
theorem plan_nxt (some : (plan s).2.len ≠ 0) : (plan s).1.sndNxt = s.sndNxt := by
  rw [plan_len] at some
  exact (plan_open s (by omega)).1

theorem force_snd : (force s).2 = if s.tForce = true ∧ window s = 0 then 1 else window s := by
  unfold force
  by_cases forced : s.tForce = true
  · by_cases shut : window s = 0
    · rw [if_pos forced, if_pos shut, if_pos ⟨forced, shut⟩]
    · rw [if_pos forced, if_neg shut, if_neg fun both => shut both.2]
  · rw [if_neg forced, if_neg fun both => forced both.1]

end

theorem force_le {s : Sender} (cwnd : s.sndCwnd ≤ 65535) : (force s).2 ≤ 65535 := by
  have short : window s ≤ s.sndCwnd := min_le_right _ _
  rw [force_snd]
  split
  · decide
  · omega

theorem usable_most {s : Sender} (some : 0 < usable s (force s).2) : usable s (force s).2 =
    (min s.tQsize (force s).2 : Nat) - Seq.ahead s.sndNxt s.sndUna := by
  unfold usable at some ⊢
  split
  · rfl
  · next closed =>
    rw [if_neg closed] at some
    omega

theorem plan_flags (s : Sender) : ∃ fin, (plan s).2.flags = { s.tState.outflags with fin := fin } ∧ (fin = true → s.tState.outflags.fin = true) := by
  have state : (force s).1.tState = s.tState := by
    unfold force
    split
    · split <;> rfl
    · rfl
  have shrunk (win : Nat) : (shrink (force s).1 win).tState = s.tState := by
    unfold shrink
    split <;> exact state
  refine ⟨(plan s).2.flags.fin, ?_, fun fin => ?_⟩
  · rw [← shrunk (force s).2]
    rfl
  · rw [← shrunk (force s).2]
    exact (Bool.and_eq_true_iff.mp fin).1

theorem plan_persist (s : Sender) (forced : s.tForce = true) (opened : window s ≠ 0) : (plan s).1.persist = 0 := by
  have first : (force s).1.persist = 0 := by
    unfold force
    rw [if_pos forced, if_neg opened]
  have planned : (plan s).1 = shrink (force s).1 (force s).2 := rfl
  rw [planned]
  unfold shrink
  split
  · exact first
  · exact first

theorem force_window (s : Sender) : s.tForce = true ∧ window s = 0 ∧ (force s).2 = 1 ∨ (force s).2 = window s := by
  unfold force
  split
  · next forced =>
    split
    · next shut => exact .inl ⟨forced, shut, rfl⟩
    · exact .inr rfl
  · exact .inr rfl

theorem numbers_range (flags : Flags) (n : Nat) : n ≤ numbers flags n ∧ numbers flags n ≤ n + 2 := by
  unfold numbers
  split_ifs <;> omega

/-- Outside the persist state `snd_nxt` goes over the segment; inside it, `snd_max` goes over the data. -/
theorem transmit_cases (flags : Flags) (n : Nat) (s : Sender) :
    ((s.tForce = false ∨ s.persist = 0) ∧ ∃ rexmt persist shift rtt rtseq,
      (s.rexmt = 0 ∧ s.sndNxt + ofNat 32 (numbers flags n) ≠ s.sndUna ∧ rexmt = s.tRxtcur ∧ persist = 0 ∧
          (shift = 0 ∨ shift = s.tRxtshift) ∨
        (s.rexmt = 0 → s.sndNxt + ofNat 32 (numbers flags n) = s.sndUna) ∧ rexmt = s.rexmt ∧ persist = s.persist ∧
          shift = s.tRxtshift) ∧
      transmit flags n s = { s with
        rexmt := rexmt
        persist := persist
        tRxtshift := shift
        tRtt := rtt
        tRtseq := rtseq
        sentfin := s.sentfin || flags.fin
        sndNxt := s.sndNxt + ofNat 32 (numbers flags n)
        sndMax := if 0 < Seq.ahead (s.sndNxt + ofNat 32 (numbers flags n)) s.sndMax
          then s.sndNxt + ofNat 32 (numbers flags n) else s.sndMax }) ∨
    (s.tForce = true ∧ s.persist ≠ 0) ∧ transmit flags n s = { s with
      sndMax := if 0 < Seq.ahead (s.sndNxt + ofNat 32 n) s.sndMax then s.sndNxt + ofNat 32 n else s.sndMax } := by
  unfold transmit
  split
  · next ordinary =>
    refine .inl ⟨ordinary, ?_⟩
    simp only [decide_eq_true_eq]
    split
    · next starts =>
      have shift : (if s.persist ≠ 0 then 0 else s.tRxtshift) = 0 ∨ (if s.persist ≠ 0 then 0 else s.tRxtshift) = s.tRxtshift := by
        split
        · exact .inl rfl
        · exact .inr rfl
      exact ⟨_, _, _, _, _, .inl ⟨starts.1, starts.2, rfl, rfl, shift⟩, rfl⟩
    · next runs =>
      exact ⟨s.rexmt, s.persist, s.tRxtshift, _, _, .inr ⟨fun idle => not_not.mp fun apart => runs ⟨idle, apart⟩, rfl, rfl, rfl⟩, rfl⟩
  · next persisting =>
    rw [not_or, Bool.not_eq_false] at persisting
    refine .inr ⟨persisting, ?_⟩
    split
    · rfl
    · rfl

theorem planned_frame (c : Tcpcb) : (planned c).sndUna = c.sndUna ∧ (planned c).sndMax = c.sndMax ∧ (planned c).tQsize = c.tQsize ∧
    (planned c).tState = c.tState := by
  obtain ⟨_, _, _, _, same, _⟩ := plan_eq c.toSender
  unfold planned
  rw [same]
  exact ⟨rfl, rfl, rfl, rfl⟩

theorem opens_eq (route : Option Route) (flags : Flags) (s : Sender) : ∃ w,
    opens route flags s = { s with sndCwnd := w } ∧ (flags.syn = false → w = s.sndCwnd) := by
  unfold opens
  split
  · next syn =>
    obtain ⟨w, same⟩ := mssOf_eq route s
    exact ⟨w, same, fun plain => absurd syn.1 (by rw [plain]; decide)⟩
  · exact ⟨s.sndCwnd, rfl, fun _ => rfl⟩

theorem retreat_eq (flags : Flags) (s : Sender) : ∃ nxt, retreat flags s = { s with sndNxt := nxt } := by
  unfold retreat
  split
  · exact ⟨_, rfl⟩
  · exact ⟨s.sndNxt, rfl⟩

theorem dragUp_eq (s : Sender) : ∃ up, dragUp s = { s with sndUp := up } := by
  unfold dragUp
  split
  · exact ⟨s.sndUp, rfl⟩
  · exact ⟨_, rfl⟩

theorem readied_eq (route : Option Route) (c : Tcpcb) : ∃ persist shift rexmt nxt cwnd,
    (readied route c).toSender = { c.toSender with
      persist := persist, tRxtshift := shift, rexmt := rexmt, sndNxt := nxt, sndCwnd := cwnd } ∧
      ((planOf c).flags.syn = false → cwnd = c.sndCwnd) := by
  obtain ⟨persist, shift, rexmt, _, same, _⟩ := plan_eq c.toSender
  obtain ⟨nxt, back⟩ := retreat_eq (planOf c).flags (plan c.toSender).1
  obtain ⟨cwnd, opened, plain⟩ := opens_eq route (planOf c).flags (retreat (planOf c).flags (plan c.toSender).1)
  have whole : (readied route c).toSender = opens route (planOf c).flags (retreat (planOf c).flags (plan c.toSender).1) := rfl
  rw [back, same] at opened plain
  rw [back, same] at whole
  exact ⟨persist, shift, rexmt, nxt, cwnd, whole.trans opened, plain⟩

theorem transmitted_eq (route : Option Route) (n : Nat) (c : Tcpcb) :
    ∃ persist shift rexmt nxt cwnd up rtt rtseq sentfin max, (transmitted route n c).toSender = { c.toSender with
      persist := persist, tRxtshift := shift, rexmt := rexmt, sndNxt := nxt, sndCwnd := cwnd, sndUp := up,
      tRtt := rtt, tRtseq := rtseq, sentfin := sentfin, sndMax := max } ∧
      ((planOf c).flags.syn = false → cwnd = c.sndCwnd) := by
  obtain ⟨persist, shift, rexmt, nxt, cwnd, same, plain⟩ := readied_eq route c
  obtain ⟨up, dragged⟩ := dragUp_eq (readied route c).toSender
  have whole : (transmitted route n c).toSender = transmit (planOf c).flags n (dragUp (readied route c).toSender) := rfl
  obtain ⟨_, rexmt', persist', shift', rtt, rtseq, _, sent⟩ | ⟨_, sent⟩ := transmit_cases (planOf c).flags n (dragUp (readied route c).toSender)
  · rw [dragged, same] at sent
    rw [whole, dragged, same]
    exact ⟨persist', shift', rexmt', _, cwnd, up, rtt, rtseq, _, _, sent, plain⟩
  · rw [dragged, same] at sent
    rw [whole, dragged, same]
    exact ⟨persist, shift, rexmt, nxt, cwnd, up, c.tRtt, c.tRtseq, c.sentfin, _, sent, plain⟩

/-- What `tcp_output` leaves alone of the half that sends. -/
structure Alike (s s' : Sender) : Prop where
  una : s'.sndUna = s.sndUna
  wnd : s'.sndWnd = s.sndWnd
  state : s'.tState = s.tState
  iss : s'.iss = s.iss
  qsize : s'.tQsize = s.tQsize
  wq : s'.wq = s.wq
  inpQ : s'.inpQ = s.inpQ

/-- What a pass leaves alone, its segment apart. -/
structure Worked (s s' : Sender) : Prop extends Alike s s' where
  force : s'.tForce = s.tForce
  sent : s'.sent = s.sent

theorem Alike.trans {s s' s'' : Sender} (first : Alike s s') (second : Alike s' s'') : Alike s s'' :=
  ⟨second.una.trans first.una, second.wnd.trans first.wnd, second.state.trans first.state, second.iss.trans first.iss,
    second.qsize.trans first.qsize, second.wq.trans first.wq, second.inpQ.trans first.inpQ⟩

theorem Worked.trans {s s' s'' : Sender} (first : Worked s s') (second : Worked s' s'') : Worked s s'' :=
  ⟨first.toAlike.trans second.toAlike, second.force.trans first.force, second.sent.trans first.sent⟩

theorem planned_worked (c : Tcpcb) : Worked c.toSender (planned c).toSender := by
  obtain ⟨_, _, _, _, same, _⟩ := plan_eq c.toSender
  have whole : (planned c).toSender = (plan c.toSender).1 := rfl
  rw [whole, same]
  exact ⟨⟨rfl, rfl, rfl, rfl, rfl, rfl, rfl⟩, rfl, rfl⟩

theorem readied_worked (route : Option Route) (c : Tcpcb) : Worked c.toSender (readied route c).toSender := by
  obtain ⟨_, _, _, _, _, same, _⟩ := readied_eq route c
  rw [same]
  exact ⟨⟨rfl, rfl, rfl, rfl, rfl, rfl, rfl⟩, rfl, rfl⟩

theorem transmitted_worked (route : Option Route) (n : Nat) (c : Tcpcb) : Worked c.toSender (transmitted route n c).toSender := by
  obtain ⟨_, _, _, _, _, _, _, _, _, _, same, _⟩ := transmitted_eq route n c
  rw [same]
  exact ⟨⟨rfl, rfl, rfl, rfl, rfl, rfl, rfl⟩, rfl, rfl⟩

theorem startPersist_worked (s : Sender) : Worked s (startPersist s) := by
  unfold startPersist
  split
  · exact ⟨⟨rfl, rfl, rfl, rfl, rfl, rfl, rfl⟩, rfl, rfl⟩
  · exact ⟨⟨rfl, rfl, rfl, rfl, rfl, rfl, rfl⟩, rfl, rfl⟩

theorem emit_of (due : sendDue idle (planned c) (planOf c) = true) (sub : alloc' <:+ alloc) (copied : Copied alloc c.wq (planOf c) data) :
    PassOf alloc route idle c (emit alloc' route (planOf c) data (planned c)).1 := by
  change PassOf alloc route idle c
    (let got := if hasOption route (planOf c).flags (readied route c) then grant alloc' else (true, alloc')
    if !got.1 then (Pass.failed (readied route c), got.2)
    else if !(grant got.2).1 then (.failed (transmitted route data.length c), (grant got.2).2)
    else (.sent (finished route data c) (planOf c).sendalot, (grant got.2).2)).1
  rcases optioned : (if hasOption route (planOf c).flags (readied route c) then grant alloc' else (true, alloc')) with ⟨ok, alloc1⟩
  have rest : alloc1 <:+ alloc' := by
    split at optioned
    · have := grant_suffix alloc'
      rwa [optioned] at this
    · cases optioned
      exact suffix_rfl
  cases ok with
  | false =>
    split at optioned
    · next option =>
      have option : (planOf c).flags.syn = true := (of_decide_eq_true option).1
      exact .unopened option (sub.subset (grant_failed (congrArg Prod.fst optioned)))
    · cases optioned
  | true =>
    rcases granted : grant alloc1 with ⟨ok, alloc2⟩
    simp only [Bool.not_true, Bool.false_eq_true, if_false, granted]
    cases ok with
    | false => exact .unsent due ((rest.trans sub).subset (grant_failed (congrArg Prod.fst granted))) copied
    | true => exact .sent due copied

theorem pass_of (alloc : List Bool) (route : Option Route) (idle : Bool) (c : Tcpcb) :
    PassOf alloc route idle c (pass alloc route idle c).1 := by
  unfold pass
  dsimp only
  rw [plan_wq, show (plan c.toSender).2 = planOf c from rfl]
  split
  · next due =>
    rcases granted : grant alloc with ⟨ok, alloc1⟩
    have sub : alloc1 <:+ alloc := by
      have := grant_suffix alloc
      rwa [granted] at this
    cases ok with
    | false => exact .waits due (grant_failed (congrArg Prod.fst granted))
    | true =>
      simp only []
      split
      · next empty => exact emit_of due sub (.empty empty)
      · next some =>
        have rest := tcpDupblks_suffix alloc1 c.wq (planOf c).off.toNat (planOf c).len
        rcases copied : tcpDupblks alloc1 c.wq (planOf c).off.toNat (planOf c).len with ⟨result, alloc2⟩
        rw [copied] at rest
        cases result with
        | panicked => exact .panicked
        | failed => exact emit_of due (rest.trans sub) (.failed some (by rw [granted]) (by rw [granted, copied]))
        | blocks bs => exact emit_of due (rest.trans sub) (.blocks some (by rw [granted, copied]))
  · next due => exact .idle (Bool.eq_false_iff.mpr due)

theorem emit_suffix (alloc : List Bool) (route : Option Route) (p : Plan) (data : List UInt8) (c : Tcpcb) :
    (emit alloc route p data c).2 <:+ alloc := by
  unfold emit
  simp only []
  rcases optioned : (if hasOption route p.flags (c.sending fun s => opens route p.flags (retreat p.flags s)) then grant alloc
    else (true, alloc)) with ⟨ok, alloc1⟩
  have first : alloc1 <:+ alloc := by
    split at optioned
    · have := grant_suffix alloc
      rwa [optioned] at this
    · cases optioned
      exact suffix_rfl
  cases ok with
  | false => exact first
  | true =>
    have next := (grant_suffix alloc1).trans first
    split
    · contradiction
    · split
      · exact next
      · exact next

def Pass.isSent : Pass → Bool
  | .sent _ _ => true
  | _ => false

theorem isSent_sent (c : Tcpcb) (again : Bool) : (Pass.sent c again).isSent = true := rfl

theorem pass_suffix (alloc : List Bool) (route : Option Route) (idle : Bool) (c : Tcpcb) :
    (pass alloc route idle c).2 <:+ alloc ∧
      ((pass alloc route idle c).1.isSent = true → (pass alloc route idle c).2 <:+ (grant alloc).2) := by
  unfold pass
  simp only []
  split
  · have first := grant_suffix alloc
    rcases granted : grant alloc with ⟨ok, alloc1⟩
    rw [granted] at first
    cases ok with
    | false => exact ⟨first, fun sent => Bool.noConfusion sent⟩
    | true =>
      have sent {x : Pass × List Bool} (rest : x.2 <:+ alloc1) :
          x.2 <:+ alloc ∧ (x.1.isSent = true → x.2 <:+ alloc1) := ⟨rest.trans first, fun _ => rest⟩
      simp only []
      split
      · exact sent (emit_suffix alloc1 _ _ _ _)
      · rcases copied : tcpDupblks alloc1 (plan c.toSender).1.wq (plan c.toSender).2.off.toNat (plan c.toSender).2.len with ⟨result, alloc2⟩
        have rest := tcpDupblks_suffix alloc1 (plan c.toSender).1.wq (plan c.toSender).2.off.toNat (plan c.toSender).2.len
        rw [copied] at rest
        cases result with
        | panicked => exact sent rest
        | failed => exact sent ((emit_suffix alloc2 _ _ _ _).trans rest)
        | blocks bs => exact sent ((emit_suffix alloc2 _ _ _ _).trans rest)
  · exact ⟨suffix_rfl, fun sent => Bool.noConfusion sent⟩

/-! ## The passes of a call -/

/-- What a pass leaves, when it is the last and when it is not. -/
def Pass.Leaves (last : Tcpcb → Bool → Prop) (more : Tcpcb → Prop) : Pass → Prop
  | .idle c => last c false
  | .failed c => last c true
  | .panicked => True
  | .sent c false => last c false
  | .sent c true => more c

theorem outputLoop_rule (holds : List Bool → Tcpcb → Prop) (last : Tcpcb → Bool → Prop)
    (each : ∀ alloc c, holds alloc c → (pass alloc route idle c).1.Leaves last (holds (pass alloc route idle c).2))
    {fuel : Nat} {c' : Tcpcb} {failed : Bool} (start : holds alloc c)
    (done : outputLoop route idle fuel alloc c = some (.returned c' failed)) : last c' failed := by
  induction fuel generalizing alloc c with
  | zero => cases done
  | succ fuel ih =>
    have this := each alloc c start
    unfold outputLoop at done
    rcases passed : pass alloc route idle c with ⟨result, alloc'⟩
    rw [passed] at this done
    cases result with
    | idle c₁ =>
      cases done
      exact this
    | failed c₁ =>
      cases done
      exact this
    | panicked => cases done
    | sent c₁ again =>
      cases again with
      | false =>
        cases done
        exact this
      | true => exact ih this done

/-- A call comes to an end when something gets smaller with every pass. -/
theorem outputLoop_ends (holds : List Bool → Tcpcb → Prop) (size : List Bool → Tcpcb → Nat)
    (each : ∀ alloc c, holds alloc c → (pass alloc route idle c).1.Leaves (fun _ _ => True)
      fun c' => holds (pass alloc route idle c).2 c' ∧ size (pass alloc route idle c).2 c' < size alloc c)
    (start : holds alloc c) : ∃ fuel outcome, outputLoop route idle fuel alloc c = some outcome := by
  induction bound : size alloc c using Nat.strong_induction_on generalizing alloc c with
  | _ n ih =>
    have this := each alloc c start
    rcases passed : pass alloc route idle c with ⟨result, alloc'⟩
    rw [passed] at this
    have first (outcome : Outcome) (ended : outputLoop route idle 1 alloc c = some outcome) :
        ∃ fuel outcome, outputLoop route idle fuel alloc c = some outcome := ⟨1, outcome, ended⟩
    cases result with
    | idle c₁ => exact first (.returned c₁ false) (by unfold outputLoop; rw [passed])
    | failed c₁ => exact first (.returned c₁ true) (by unfold outputLoop; rw [passed])
    | panicked => exact first .panicked (by unfold outputLoop; rw [passed])
    | sent c₁ again =>
      cases again with
      | false => exact first (.returned c₁ false) (by unfold outputLoop; rw [passed])
      | true =>
        have this : holds alloc' c₁ ∧ size alloc' c₁ < size alloc c := this
        obtain ⟨fuel, outcome, ended⟩ := ih (size alloc' c₁) (bound ▸ this.2) this.1 rfl
        refine ⟨fuel + 1, outcome, ?_⟩
        unfold outputLoop
        rw [passed]
        exact ended

theorem outputs_keeps {holds : Tcpcb → Prop} {c' : Tcpcb} {failed : Bool}
    (each : ∀ alloc idle c, holds c → (pass alloc route idle c).1.Leaves (fun c _ => holds c) holds)
    (start : holds c) (outputs : Outputs alloc route c (.returned c' failed)) : holds c' := by
  obtain ⟨fuel, done⟩ := outputs
  exact outputLoop_rule (fun _ => holds) (fun c _ => holds c) (fun alloc c => each alloc _ c) start done

end

end Svr4.Tcp
