import Svr4.Kernel.Message.Freeing

/-! What the parts of the message calls do to the ledger.

A part runs from `msgconv`, or from the end of a copy, to the next place where the
call stops. It works on one queue, which nobody else has locked.
-/

namespace Svr4.Message

open Words Ipc
open Function (update update_eq_self update_self)
open Option (bind_eq_bind bind_some)

attribute [local simp] Kernel.enqueue_msgque

section
variable (info : Msginfo)

/-- The queue that the identifier of a call names. -/
def Call.home (call : Call) : Nat := (call.id % info.msgmni).toNat

/-- The size of a message that passed the check of `msgsnd`. -/
def Sized (msgsz : Int) : Prop := 0 ≤ msgsz ∧ msgsz ≤ info.msgmax

/-- A call can be at the point. -/
def Point.Fits : Point → Call → Prop
  | .entry, _ => True
  | .findmsg, .rcv _ _ _ _ _ => True
  | .getres _, .snd _ msgsz _ => Sized info msgsz
  | .unroom, .snd _ _ _ => True
  | .unsleep, .snd _ _ _ => True
  | _, _ => False

/-- A call can copy there, `list` being the messages on its queue. -/
def Copy.Fits (list : List Nat) : Copy → Call → Prop
  | .set, .ctl _ _ => True
  | .stat, .ctl _ _ => True
  | .rcvType smp spmp _, .rcv _ _ _ _ _ => Chosen list smp spmp
  | .rcvText smp spmp _, .rcv _ _ _ _ _ => Chosen list smp spmp
  | .sndType, .snd _ msgsz _ => Sized info msgsz
  | .sndText _ _ _, .snd _ msgsz _ => Sized info msgsz ∧ 0 < msgsz
  | _, _ => False

/-- What the tables and the ledger have to do with a process. -/
def Proc.Fits (k : Kernel) (l : Ledger) : Proc → Prop
  | .user => True
  | .ready _ call point => point.Fits info call
  | .locked _ call point _ => point.Fits info call
  | .asleep _ call chan type => (resume chan type).Fits info call
  | .woken _ call chan type => (resume chan type).Fits info call
  | .copying _ call q copy =>
      q = call.home info ∧ k.msglock q = true ∧ (k.msgque q).perm.allocated ∧ copy.Fits info (l.queue q) call

/-- The header in the hands of a process: from `msgfp` it goes to the queue or back
after the text has been copied. -/
def Proc.hand : Proc → Option Draft
  | .copying _ (.snd _ msgsz _) _ (.sndText _ mp spot) => some ⟨mp, ⟨spot + 1, btoq info msgsz.toNat⟩⟩
  | _ => none

/-- The queue that a process has locked while it sleeps. -/
def Proc.locks : Proc → Option Nat
  | .copying _ _ q _ => some q
  | _ => none

/-- A part of a call of the process `slot` on queue `q`: it ends in the kernel `k'`,
with the process as `p` and the ledger `l'`. -/
structure Part (slot : Slot) (q : Nat) (k : Kernel) (l : Ledger) (k' : Kernel) (p : Proc) (l' : Ledger) : Prop where
  accounted : Accounted info k' l'
  others : ∀ q', q' ≠ q → l'.queue q' = l.queue q' ∧ k'.msglock q' = k.msglock q' ∧
    ((k'.msgque q').perm.allocated ↔ (k.msgque q').perm.allocated)
  hand : l'.hand = update l.hand slot (p.hand info)
  fits : p.Fits info k' l'

/-- The code returns, and what it did is a part. -/
def Does (slot : Slot) (q : Nat) (c : Caller) (call : Call) (k : Kernel) (l : Ledger)
    (result : Option (Work × Next)) : Prop :=
  ∃ w next l', result = some (w, next) ∧ Part info slot q k l w.k (next.proc info c call) l'

/-- A part that begins with `msgconv`: the lock was free, or nothing has changed. -/
def Turns (slot : Slot) (q : Nat) (c : Caller) (call : Call) (k : Kernel) (l : Ledger)
    (result : Option (Work × Next)) : Prop :=
  ∃ w next l', result = some (w, next) ∧ Part info slot q k l w.k (next.proc info c call) l' ∧
    (k.msglock q = false ∨ (w.k = k ∧ l' = l ∧ (next.proc info c call).locks = none))

end

section
variable {info : Msginfo} {slot : Slot} {q : Nat} {c : Caller} {call : Call} {k k' : Kernel} {l l' : Ledger} {p : Proc}
  {w : Work} {k₁ : Kernel} {msqid msgsz type : Int} {nowait : Bool} {result : Option (Work × Next)} {msgtyp : Int}
  {noerror : Bool}

theorem Quiet.part (quiet : Quiet q k k') (accounted : Accounted info k l) (empty : l.hand slot = none)
    (free : p.hand info = none) (fits : p.Fits info k' l) : Part info slot q k l k' p l where
  accounted := quiet.accounted accounted
  others q' other := by
    obtain ⟨queue, lock⟩ := quiet.others q' other
    exact ⟨rfl, lock, by rw [queue]⟩
  hand := by rw [free, ← empty, update_eq_self]
  fits := fits

theorem Part.after (part : Part info slot q k₁ l k' p l') (quiet : Quiet q k k₁) :
    Part info slot q k l k' p l' where
  accounted := part.accounted
  others q' other := by
    obtain ⟨list, lock, used⟩ := part.others q' other
    obtain ⟨queue, lock'⟩ := quiet.others q' other
    exact ⟨list, lock.trans lock', by rw [used, queue]⟩
  hand := part.hand
  fits := part.fits

theorem Turns.does (turns : Turns info slot q c call k l result) :
    Does info slot q c call k l result := by
  obtain ⟨w, next, l', same, part, _⟩ := turns
  exact ⟨w, next, l', same, part⟩

theorem Does.after (does : Does info slot q c call k₁ l result)
    (quiet : Quiet q k k₁) : Does info slot q c call k l result := by
  obtain ⟨w, next, l', same, part⟩ := does
  exact ⟨w, next, l', same, part.after quiet⟩

theorem Quiet.out {w₁ : Work} (quiet : Quiet q k w₁.k) (accounted : Accounted info k l) (empty : l.hand slot = none)
    (result : Except Errno Int) : Does info slot q c call k l (some (w₁.unlock q, .ret result)) :=
  ⟨_, _, l, rfl, (quiet.trans quiet_unlock).part accounted empty rfl trivial⟩

/-! ## `msgconv` -/

theorem msgconv_cases (id : Int) (w : Work) :
    (msgconv info id w = .busy ∧ w.k.msglock (id % info.msgmni).toNat = true) ∨
    (∃ w', msgconv info id w = .invalid w' ∧ Quiet (id % info.msgmni).toNat w.k w'.k ∧
      (w.k.msglock (id % info.msgmni).toNat = false ∨ w'.k = w.k)) ∨
    ∃ w', msgconv info id w = .locked (id % info.msgmni).toNat w' ∧ Quiet (id % info.msgmni).toNat w.k w'.k ∧
      w.k.msglock (id % info.msgmni).toNat = false ∧ w'.k.msglock (id % info.msgmni).toNat = true ∧
      (w'.k.msgque (id % info.msgmni).toNat).perm.allocated := by
  unfold msgconv
  split
  · exact .inr (.inl ⟨w, rfl, .refl _ _, .inr rfl⟩)
  · simp only
    split
    · next held => exact .inl ⟨rfl, held⟩
    · next open' =>
      have unheld : w.k.msglock (id % info.msgmni).toNat = false := by simpa using open'
      split
      · next found =>
        exact .inr (.inr ⟨_, rfl, quiet_lock true, unheld, by simp, found.1⟩)
      · exact .inr (.inl ⟨_, rfl, (quiet_lock true).trans (quiet_lock false), .inl unheld⟩)

theorem msgconv_turns {next : Work → Option (Work × Next)} {busy : Option (Work × Next)}
    {locked : Nat → Work → Option (Work × Next)} {point : Point} {id : Int} {error : Errno} (named : call.id = id)
    (accounted : Accounted info w.k l) (empty : l.hand slot = none) (fits : point.Fits info call)
    (onInvalid : ∀ w', next w' = some (w', .ret (.error error))) (onBusy : busy = some (w, .lock point))
    (onLocked : ∀ w', Quiet (call.home info) w.k w'.k → w'.k.msglock (call.home info) = true →
      (w'.k.msgque (call.home info)).perm.allocated →
      Does info slot (call.home info) c call w'.k l (locked (call.home info) w')) :
    Turns info slot (call.home info) c call w.k l (match msgconv info id w with
      | .invalid w' => next w'
      | .busy => busy
      | .locked q w' => locked q w') := by
  subst named
  rcases msgconv_cases call.id w with ⟨result, held⟩ | ⟨w', result, quiet, lock⟩ |
    ⟨w', result, quiet, unheld, held, used⟩
  · rw [result]
    exact ⟨w, _, l, onBusy, (Quiet.refl (call.home info) w.k).part accounted empty rfl fits, .inr ⟨rfl, rfl, rfl⟩⟩
  · rw [result]
    exact ⟨w', _, l, onInvalid w', quiet.part accounted empty rfl trivial, lock.imp_right fun same => ⟨same, rfl, rfl⟩⟩
  · rw [result]
    obtain ⟨w₁, next, l', same, part⟩ := onLocked w' quiet held used
    exact ⟨w₁, next, l', same, part.after quiet, .inl unheld⟩

/-! ## Messages that leave their queue -/

theorem Accounted.update {list : List Nat} (accounted : Accounted info k l) (sound : Sound info k' l')
    (queue : l'.queue = update l.queue q list)
    (others : ∀ q', q' ≠ q → (k'.msgque q').msgCbytes = (k.msgque q').msgCbytes ∧
      ((k'.msgque q').perm.allocated ↔ (k.msgque q').perm.allocated) ∧
      ∀ h ∈ l.queue q', (k'.msgh h).msgTs = (k.msgh h).msgTs)
    (cbytes : (k'.msgque q).msgCbytes = toUlong (bytes k' list))
    (idle : ¬ (k'.msgque q).perm.allocated → list = []) : Accounted info k' l' where
  sound := sound
  cbytes q' := by
    rw [queue]
    by_cases same : q' = q
    · subst same
      rw [update_self, cbytes]
    · obtain ⟨equal, _, sizes⟩ := others q' same
      rw [Function.update_of_ne same, bytes_congr sizes, equal, accounted.cbytes q']
  idle q' free := by
    rw [queue]
    by_cases same : q' = q
    · subst same
      rw [update_self]
      exact idle free
    · rw [Function.update_of_ne same]
      exact accounted.idle q' fun used => free ((others q' same).2.1.mpr used)

theorem rmid_accounted (msgid : Int) (accounted : Accounted info w.k l) (empty : l.hand slot = none) :
    ∃ w' l', rmid info msgid q w = some w' ∧ Accounted info w'.k l' ∧ l'.queue = update l.queue q [] ∧
      l'.hand = l.hand ∧ w'.k.msglock = w.k.msglock ∧
      ∀ q', q' ≠ q → ((w'.k.msgque q').perm.allocated ↔ (w.k.msgque q').perm.allocated) := by
  have length := accounted.sound.queue_length (q := q)
  obtain ⟨w₁, l', freed, sound, queue, hand, steady⟩ :=
    (@msgfreeAll_sound _ _ _ q _ (info.msgtql + 1)) accounted.sound rfl empty (by omega)
  -- The two wakeups leave the kernel.
  let w₂ : Work := if IpcPerm.waiting (w₁.k.msgque q).perm msgRwait then w₁.wakeup (.qnum q) else w₁
  let w₃ : Work := if IpcPerm.waiting (w₁.k.msgque q).perm msgWwait then w₂.wakeup (.queue q) else w₂
  have same : w₃.k = w₁.k := by
    simp only [w₃, w₂]
    split <;> split <;> rfl
  let f (qp : MsqidDs) : MsqidDs := { qp with
    msgCbytes := 0
    perm := { qp.perm with
      seq := if toInt (msgid + info.msgmni) < 0 then 0 else qp.perm.seq + 1
      mode := 0 } }
  let w' : Work := { w₃ with k := w₃.k.setQueue q f }
  have frame : Frame q w₁.k w'.k := by
    simp only [w', same]
    exact frame_setQueue rfl rfl rfl
  have used {q' : Nat} (other : q' ≠ q) : (w'.k.msgque q').perm.allocated ↔ (w.k.msgque q').perm.allocated := by
    rw [(frame.others q' other).1, steady.allocated q']
  refine ⟨w', l', ?_, ?_, queue, hand, ?_, fun q' => used⟩
  · simp only [rmid, freed]
    rfl
  · refine accounted.update (frame.sound sound) queue (fun q' other => ⟨?_, used other, fun h _ => ?_⟩) ?_ fun _ => rfl
    · rw [(frame.others q' other).1, steady.msgCbytes q']
    · rw [frame.msgh, steady.msgTs h]
    · simp [w', f, Kernel.setQueue, bytes, toUlong]
  · simp only [w', same]
    exact steady.msglock

theorem received_does {smp sz : Nat} {spmp : Option Nat} (accounted : Accounted info w.k l)
    (empty : l.hand slot = none) (used : (w.k.msgque q).perm.allocated) (chosen : Chosen (l.queue q) smp spmp) :
    Does info slot q c call w.k l (received info c q smp spmp sz w) := by
  obtain ⟨left, right, split, rfl⟩ := chosen
  let f (qp : MsqidDs) : MsqidDs := { qp with
    msgCbytes := toUlong (qp.msgCbytes + 4294967296 - (w.k.msgh smp).msgTs)
    msgLrpid := c.pid }
  let w₁ : Work := { w with k := w.k.setQueue q f }
  have frame : Frame q w.k w₁.k := frame_setQueue rfl rfl rfl
  obtain ⟨w₂, l', freed, sound, queue, hand, steady⟩ := msgfree_sound (w := w₁) (frame.sound accounted.sound) split empty
  have total := accounted.cbytes q
  rw [split, bytes_middle] at total
  have bound := (accounted.sound.queueText q smp (by simp [split])).1
  have sizes (h : Nat) : (w₂.k.msgh h).msgTs = (w.k.msgh h).msgTs := by rw [steady.msgTs h, frame.msgh]
  have still : (w₂.k.msgque q).perm.allocated := by
    rw [steady.allocated q]
    simpa [w₁, f, Kernel.setQueue] using used
  have account : Accounted info w₂.k l' := by
    refine accounted.update sound queue (fun q' other => ⟨?_, ?_, fun h _ => sizes h⟩) ?_ fun free => absurd still free
    · rw [steady.msgCbytes q', (frame.others q' other).1]
    · rw [steady.allocated q', (frame.others q' other).1]
    · rw [steady.msgCbytes q, bytes_congr (k := w.k) fun h _ => sizes h]
      simp only [w₁, f, Kernel.setQueue, update_self, total, toUlong]
      omega
  refine ⟨w₂.unlock q, .ret (.ok sz), l', ?_, ?_⟩
  · simp only [received]
    rw [freed]
    rfl
  · refine ⟨quiet_unlock.accounted account, fun q' other => ⟨by simp [queue, other], ?_, ?_⟩, ?_, trivial⟩
    · rw [(quiet_unlock.others q' other).2, steady.msglock, (frame.others q' other).2]
    · rw [(quiet_unlock.others q' other).1, steady.allocated q', (frame.others q' other).1]
    · rw [hand]
      change l.hand = update l.hand slot none
      rw [← empty, update_eq_self]

/-! ## `msgctl` -/

theorem msgctl_does {msgid : Int} {cmd : Cmd} (accounted : Accounted info w.k l) (empty : l.hand slot = none)
    (held : w.k.msglock ((Call.ctl msgid cmd).home info) = true)
    (used : (w.k.msgque ((Call.ctl msgid cmd).home info)).perm.allocated) :
    Does info slot ((Call.ctl msgid cmd).home info) c (.ctl msgid cmd) w.k l
      (msgctl info c msgid cmd ((Call.ctl msgid cmd).home info) w) := by
  have out (result : Except Errno Int) : Does info slot ((Call.ctl msgid cmd).home info) c (.ctl msgid cmd) w.k l
      (some (w.unlock ((Call.ctl msgid cmd).home info), .ret result)) := (Quiet.refl _ w.k).out accounted empty result
  have copy (part : Copy) (fits : part.Fits info (l.queue ((Call.ctl msgid cmd).home info)) (.ctl msgid cmd)) :
      Does info slot ((Call.ctl msgid cmd).home info) c (.ctl msgid cmd) w.k l
        (some (w, .copy ((Call.ctl msgid cmd).home info) part)) :=
    ⟨w, _, l, rfl, (Quiet.refl _ w.k).part accounted empty rfl ⟨rfl, held, used, fits⟩⟩
  cases cmd with
  | rmid =>
    simp only [msgctl]
    split
    · exact out _
    · obtain ⟨w', l', removed, account, queue, hand, lock, allocated⟩ :=
        rmid_accounted (q := (Call.ctl msgid .rmid).home info) msgid accounted empty
      rw [removed]
      refine ⟨_, _, l', rfl, quiet_unlock.accounted account, fun q' other => ⟨by simp [queue, other], ?_, ?_⟩, ?_, trivial⟩
      · rw [(quiet_unlock.others q' other).2, lock]
      · rw [(quiet_unlock.others q' other).1, allocated q' other]
      · rw [hand]
        change l.hand = update l.hand slot none
        rw [← empty, update_eq_self]
  | set =>
    simp only [msgctl]
    split
    · exact out _
    · exact copy .set trivial
  | ostat =>
    simp only [msgctl]
    split
    · exact out _
    · split
      · exact out _
      · exact copy .stat trivial
  | stat =>
    simp only [msgctl]
    split
    · exact out _
    · exact copy .stat trivial
  | other => exact out _

/-! ## `msgrcv` -/

theorem findmsg_turns (accounted : Accounted info w.k l)
    (empty : l.hand slot = none) :
    Turns info slot ((Call.rcv msqid msgsz msgtyp noerror nowait).home info) c (.rcv msqid msgsz msgtyp noerror nowait)
      w.k l (findmsg info msqid msgsz msgtyp noerror nowait w) := by
  refine (@msgconv_turns _ _ _ _ _ _ _ _ _ .findmsg) rfl accounted empty trivial (fun _ => rfl) rfl
    fun w' quiet held used => ?_
  have accounted' := quiet.accounted accounted
  obtain ⟨found, chose, chosen⟩ :=
    choose_chosen (q := (Call.rcv msqid msgsz msgtyp noerror nowait).home info) accounted'.sound
  rw [chose]
  have out (result : Except Errno Int) : Does info slot ((Call.rcv msqid msgsz msgtyp noerror nowait).home info) c
      (.rcv msqid msgsz msgtyp noerror nowait) w'.k l (some (w'.unlock _, .ret result)) :=
    (Quiet.refl ((Call.rcv msqid msgsz msgtyp noerror nowait).home info) w'.k).out accounted' empty result
  cases found with
  | none =>
    simp only [bind_eq_bind, bind_some]
    split
    · exact out _
    · refine ⟨_, _, l, rfl, ?_⟩
      exact ((quiet_mode _ (or_alloc (by decide))).trans (quiet_lock false)).part accounted' empty rfl trivial
  | some best =>
    obtain ⟨smp, spmp⟩ := best
    have copy (sz : Nat) : Does info slot ((Call.rcv msqid msgsz msgtyp noerror nowait).home info) c
        (.rcv msqid msgsz msgtyp noerror nowait) w'.k l
        (some (w', .copy ((Call.rcv msqid msgsz msgtyp noerror nowait).home info) (.rcvType smp spmp sz))) :=
      ⟨_, _, l, rfl, (Quiet.refl _ w'.k).part accounted' empty rfl ⟨rfl, held, used, chosen smp spmp rfl⟩⟩
    simp only [bind_eq_bind, bind_some]
    split
    · split
      · exact copy _
      · exact out _
    · exact copy _

theorem msgrcv_does (accounted : Accounted info w.k l)
    (empty : l.hand slot = none) :
    Does info slot ((Call.rcv msqid msgsz msgtyp noerror nowait).home info) c (.rcv msqid msgsz msgtyp noerror nowait)
      w.k l (msgrcv info c msqid msgsz msgtyp noerror nowait
        ((Call.rcv msqid msgsz msgtyp noerror nowait).home info) w) := by
  unfold msgrcv
  split
  · exact (Quiet.refl _ w.k).out accounted empty _
  · split
    · exact (Quiet.refl _ w.k).out accounted empty _
    · exact (findmsg_turns (quiet_unlock.accounted accounted) empty).does.after quiet_unlock

/-! ## `msgsnd` -/

theorem Accounted.move (accounted : Accounted info k l) (sound : Sound info k' l') (queue : l'.queue = l.queue)
    (steady : Steady k k') : Accounted info k' l' where
  sound := sound
  cbytes q := by
    rw [queue, bytes_congr fun h _ => steady.msgTs h, steady.msgCbytes q, accounted.cbytes q]
  idle q free := by
    rw [queue]
    exact accounted.idle q fun used => free ((steady.allocated q).mpr used)

theorem Part.moved {l₁ : Ledger} {value : Option Draft} (part : Part info slot q k₁ l₁ k' p l')
    (queue : l₁.queue = l.queue) (hand : l₁.hand = update l.hand slot value) (steady : Steady k k₁) :
    Part info slot q k l k' p l' where
  accounted := part.accounted
  others q' other := by
    obtain ⟨list, lock, used⟩ := part.others q' other
    exact ⟨by rw [list, queue], by rw [lock, steady.msglock], by rw [used, steady.allocated q']⟩
  hand := by rw [part.hand, hand, Function.update_idem]
  fits := part.fits

section
variable (accounted : Accounted info w.k l) {span : Span}
include accounted

theorem queued_does {cnt mp : Nat} {spot : Int}
    (mine : l.hand slot = some ⟨mp, span⟩) (used : (w.k.msgque q).perm.allocated) (small : cnt ≤ 65535)
    (units : ∀ unit, ((⟨none, type, cnt % 65536, toShort spot⟩ : Msg).text info).Has unit ↔ span.Has unit) :
    Does info slot q c call w.k l (some (queued c q type cnt mp spot w)) := by
  let message : Msg := ⟨none, type, cnt % 65536, toShort spot⟩
  let k₁ := w.k.enqueue q mp message c.pid cnt
  have size : message.msgTs = cnt := Nat.mod_eq_of_lt (by omega)
  obtain ⟨l', sound, queue, hand⟩ := (@Sound.enqueue _ _ _ _ _ q _ accounted.sound
    mine message) rfl (by omega) units
  have quiet : Quiet q k₁ (queued c q type cnt mp spot w).1.k :=
    (quiet_release (w := { w with k := k₁ }) (by decide)).trans quiet_unlock
  have sizes {h : Nat} (differ : h ≠ mp) : (k₁.msgh h).msgTs = (w.k.msgh h).msgTs :=
    ((@Kernel.enqueue_text _ _ _ _ _ _ _ info) differ).1
  have away {q' h : Nat} (member : h ∈ l.queue q') : h ≠ mp :=
    fun same => accounted.sound.not_queue_of_hand mine (same ▸ member)
  have still : (k₁.msgque q).perm.allocated := by simpa [k₁] using used
  have account : Accounted info k₁ l' := by
    refine accounted.update sound queue (fun q' other => ⟨?_, ?_, fun h member => sizes (away member)⟩) ?_
      fun free => absurd still free
    · simp [k₁, other]
    · simp [k₁, other]
    · have appended : bytes k₁ (l.queue q ++ [mp]) = bytes w.k (l.queue q) + cnt := by
        have stored : (k₁.msgh mp).msgTs = cnt := ((@Kernel.enqueue_stored _ _ _ _ _ _ info)).1.trans size
        rw [bytes_middle, stored, List.append_nil, bytes_congr fun h member => sizes (away member)]
      have total := accounted.cbytes q
      simp only [k₁, Kernel.enqueue_msgque, update_self] at appended ⊢
      rw [appended, total]
      simp [toUlong]
  refine ⟨_, _, l', rfl, quiet.accounted account, fun q' other => ⟨by simp [queue, other], ?_, ?_⟩, hand, trivial⟩
  · exact (quiet.others q' other).2.trans (congrFun Kernel.enqueue_rest.1 q')
  · have same : k₁.msgque q' = w.k.msgque q' := by simp [k₁, other]
    rw [← same]
    exact iff_of_eq (congrArg (fun qp : MsqidDs => qp.perm.allocated) (quiet.others q' other).1)

theorem putBack_part {mp : Nat} (mine : l.hand slot = some ⟨mp, span⟩)
    (bare : span.size = 0) (free : p.hand info = none) (fits : ∀ k' l', p.Fits info k' l') :
    ∃ l', Part info slot q w.k l ((w.putHeader mp).unlock q).k p l' := by
  obtain ⟨l', sound, queue, hand⟩ := putHeader_sound accounted.sound mine bare
  refine ⟨l', quiet_unlock.accounted (accounted.move sound queue steady_putHeader), fun q' other => ⟨by rw [queue], ?_, ?_⟩,
    by rw [hand, free], fits _ _⟩
  · rw [(quiet_unlock.others q' other).2, steady_putHeader.msglock]
  · rw [(quiet_unlock.others q' other).1, steady_putHeader.allocated q']

theorem getres_turns
    (empty : l.hand slot = none) (sized : Sized info msgsz) :
    Turns info slot ((Call.snd msqid msgsz nowait).home info) c (.snd msqid msgsz nowait) w.k l
      (getres info c msqid msgsz.toNat nowait type w) := by
  refine (@msgconv_turns _ _ _ _ _ _ _ _ _ (.getres type)) rfl accounted empty sized (fun _ => rfl) rfl
    fun w' quiet held used => ?_
  have accounted' := quiet.accounted accounted
  have small : msgsz.toNat ≤ 65535 := by
    have limit := info.msgmax_fits
    have bound := sized.2
    omega
  have out (result : Except Errno Int) : Does info slot ((Call.snd msqid msgsz nowait).home info) c
      (.snd msqid msgsz nowait) w'.k l (some (w'.unlock _, .ret result)) :=
    (Quiet.refl ((Call.snd msqid msgsz nowait).home info) w'.k).out accounted' empty result
  simp only
  split
  · split
    · exact out _
    · refine ⟨_, _, l, rfl, ?_⟩
      exact ((quiet_mode _ (or_alloc (by decide))).trans (quiet_lock false)).part accounted' empty rfl sized
  · split
    · split
      · exact out _
      · exact ⟨_, _, l, rfl, quiet_unlock.part accounted' empty rfl sized⟩
    · next mp first =>
      -- The first free header is in hand now, without text.
      obtain ⟨l₁, sound₁, queue₁, span, bare, hand₁⟩ := accounted'.sound.take first empty
      have steady₁ : Steady w'.k { w'.k with msgfp := w'.k.next mp } := ⟨fun _ => rfl, fun _ => rfl, fun _ => Iff.rfl, rfl⟩
      have accounted₁ := accounted'.move sound₁ queue₁ steady₁
      have mine : l₁.hand slot = some ⟨mp, span⟩ := by simp [hand₁]
      split
      · next zero =>
        obtain ⟨w₂, next, l', result, part⟩ := queued_does (q := (Call.snd msqid msgsz nowait).home info) (c := c)
         
          (w := { w' with k := { w'.k with msgfp := w'.k.next mp } }) accounted₁ mine used small (by
            intro unit
            constructor
            · intro has
              have size := has.size_pos
              simp [Msg.text, zero, btoq_zero] at size
            · intro has
              have size := has.size_pos
              omega)
        exact ⟨w₂, next, l', result, part.moved queue₁ hand₁ steady₁⟩
      · next some =>
        have positive := btoq_pos info (Nat.pos_of_ne_zero some)
        rcases sound₁.fill mine positive with result | ⟨base, map, l₂, result, start, _, sound₂, queue₂, hand₂⟩
        · -- There are no segments: the header goes back.
          have result : Rmap.rmalloc w'.k.msgmap (btoq info msgsz.toNat) = Option.some (0, w'.k.msgmap) := result
          simp only [result, bind_eq_bind, bind_some, if_true]
          split
          · obtain ⟨l', part⟩ := putBack_part (q := (Call.snd msqid msgsz nowait).home info) (p := .user)
              (w := { w' with k := { w'.k with msgfp := w'.k.next mp } }) accounted₁ mine bare rfl fun _ _ => trivial
            exact ⟨_, _, l', rfl, part.moved queue₁ hand₁ steady₁⟩
          · have wants : Quiet ((Call.snd msqid msgsz nowait).home info) { w'.k with msgfp := w'.k.next mp }
                { w'.k with msgfp := w'.k.next mp, msgmap := { w'.k.msgmap with mapwant := true } } :=
              ⟨⟨rfl, rfl, rfl, rfl, fun _ _ => ⟨rfl, rfl⟩, rfl, rfl, rfl⟩, rfl, Iff.rfl⟩
            obtain ⟨l', part⟩ := putBack_part (q := (Call.snd msqid msgsz nowait).home info)
              (p := .asleep c (.snd msqid msgsz nowait) .msgmap type)
              (w := { w' with
                k := { w'.k with msgfp := w'.k.next mp, msgmap := { w'.k.msgmap with mapwant := true } } })
              (wants.accounted accounted₁) mine bare rfl fun _ _ => sized
            exact ⟨_, _, l', rfl, (part.after wants).moved queue₁ hand₁ steady₁⟩
        · have result : Rmap.rmalloc w'.k.msgmap (btoq info msgsz.toNat) = Option.some (base, map) := result
          simp only [result, bind_eq_bind, bind_some]
          rw [if_neg (by omega)]
          have steady₂ : Steady w'.k { w'.k with msgfp := w'.k.next mp, msgmap := map } :=
            ⟨fun _ => rfl, fun _ => rfl, fun _ => Iff.rfl, rfl⟩
          refine ⟨_, _, l₂, rfl, accounted'.move sound₂ (by rw [queue₂, queue₁]) steady₂,
            fun q' _ => ⟨by rw [queue₂, queue₁], rfl, Iff.rfl⟩, ?_, rfl, held, used, sized, by omega⟩
          rw [hand₂, hand₁, Function.update_idem]
          simp only [Next.proc, Proc.hand]
          rw [Nat.sub_add_cancel start]

theorem msgsnd_does (empty : l.hand slot = none)
    (held : w.k.msglock ((Call.snd msqid msgsz nowait).home info) = true)
    (used : (w.k.msgque ((Call.snd msqid msgsz nowait).home info)).perm.allocated) :
    Does info slot ((Call.snd msqid msgsz nowait).home info) c (.snd msqid msgsz nowait) w.k l
      (some (msgsnd info c msgsz ((Call.snd msqid msgsz nowait).home info) w)) := by
  unfold msgsnd
  split
  · exact (Quiet.refl _ w.k).out accounted empty _
  · split
    · exact (Quiet.refl _ w.k).out accounted empty _
    · next sized =>
      refine ⟨_, _, l, rfl, (Quiet.refl _ w.k).part accounted empty rfl ⟨rfl, held, used, ?_⟩⟩
      simp only [not_or, Int.not_lt] at sized
      exact sized

end

/-! ## Turns -/

theorem convert_turns {point : Point} (accounted : Accounted info w.k l) (empty : l.hand slot = none)
    (fits : point.Fits info call) : Turns info slot (call.home info) c call w.k l (convert info c call point w) := by
  cases point with
  | entry =>
    refine msgconv_turns rfl accounted empty fits (fun _ => rfl) rfl fun w' quiet held used => ?_
    have accounted' := quiet.accounted accounted
    cases call with
    | ctl msgid cmd => exact msgctl_does accounted' empty held used
    | rcv msqid msgsz msgtyp noerror nowait => exact msgrcv_does accounted' empty
    | snd msqid msgsz nowait => exact msgsnd_does accounted' empty held used
  | findmsg =>
    cases call with
    | rcv msqid msgsz msgtyp noerror nowait => exact findmsg_turns accounted empty
    | ctl msgid cmd => exact fits.elim
    | snd msqid msgsz nowait => exact fits.elim
  | getres type =>
    cases call with
    | snd msqid msgsz nowait => exact getres_turns accounted empty fits
    | ctl msgid cmd => exact fits.elim
    | rcv msqid msgsz msgtyp noerror nowait => exact fits.elim
  | unroom =>
    refine msgconv_turns rfl accounted empty fits (fun _ => rfl) rfl fun w' quiet _ _ => ?_
    exact Quiet.out (quiet_mode _ (clearBit_alloc (by decide)))
      (quiet.accounted accounted) empty _
  | unsleep =>
    refine msgconv_turns rfl accounted empty fits (fun _ => rfl) rfl fun w' quiet _ _ => ?_
    exact (Quiet.refl _ w'.k).out (quiet.accounted accounted) empty _

theorem copied_does {part : Copy} {fault : Bool} {ds : Settings} (accounted : Accounted info w.k l)
    (held : l.hand slot = (Proc.copying c call (call.home info) part).hand info)
    (fits : (Proc.copying c call (call.home info) part).Fits info w.k l) :
    Does info slot (call.home info) c call w.k l (copied info c call (call.home info) part fault type ds w) := by
  obtain ⟨_, lock, used, fits⟩ := fits
  have out (empty : l.hand slot = none) (result : Except Errno Int) :
      Does info slot (call.home info) c call w.k l (some (w.unlock (call.home info), .ret result)) :=
    (Quiet.refl (call.home info) w.k).out accounted empty result
  cases part with
  | set =>
    have empty : l.hand slot = none := held.trans (by cases call <;> rfl)
    simp only [copied]
    split
    · exact out empty _
    · split
      · exact out empty _
      · refine Quiet.out ?_ accounted empty _
        refine quiet_perm { (w.k.msgque (call.home info)).perm with
          uid := ds.uid
          gid := ds.gid
          mode := clearBit (w.k.msgque (call.home info)).perm.mode access ||| (ds.mode &&& access) } _ ?_
        have inside : (ds.mode &&& access) &&& ipcAlloc = 0 := by
          rw [Nat.and_assoc]
          exact Nat.and_zero _
        rw [or_alloc inside]
        exact clearBit_alloc (by decide)
  | stat => exact out (held.trans (by cases call <;> rfl)) _
  | rcvType smp spmp sz =>
    cases call with
    | rcv msqid msgsz msgtyp noerror nowait =>
      simp only [copied]
      split
      · exact out held _
      · split
        · exact ⟨_, _, l, rfl, (Quiet.refl _ w.k).part accounted held rfl ⟨rfl, lock, used, fits⟩⟩
        · exact received_does accounted held used fits
    | ctl msgid cmd => exact fits.elim
    | snd msqid msgsz nowait => exact fits.elim
  | rcvText smp spmp sz =>
    cases call with
    | rcv msqid msgsz msgtyp noerror nowait =>
      simp only [copied]
      split
      · exact out held _
      · exact received_does accounted held used fits
    | ctl msgid cmd => exact fits.elim
    | snd msqid msgsz nowait => exact fits.elim
  | sndType =>
    cases call with
    | snd msqid msgsz nowait =>
      simp only [copied]
      split
      · exact out held _
      · split
        · exact out held _
        · exact (getres_turns (quiet_unlock.accounted accounted) held fits).does.after quiet_unlock
    | ctl msgid cmd => exact fits.elim
    | rcv msqid msgsz msgtyp noerror nowait => exact fits.elim
  | sndText type' mp spot =>
    cases call with
    | snd msqid msgsz nowait =>
      obtain ⟨sized, some⟩ := fits
      have mine : l.hand slot = Option.some ⟨mp, ⟨spot + 1, btoq info msgsz.toNat⟩⟩ := held
      have positive := (@btoq_pos info msgsz.toNat) (by omega)
      simp only [copied]
      split
      · -- The text could not be copied: the segments and the header go back.
        obtain ⟨w₁, l₁, freed, sound₁, queue₁, hand₁, steady₁⟩ := freeText_sound accounted.sound mine positive
        rw [freed]
        have accounted₁ := accounted.move sound₁ queue₁ steady₁
        obtain ⟨l', part⟩ := putBack_part (q := (Call.snd msqid msgsz nowait).home info) (p := .user) accounted₁
          (show l₁.hand slot = Option.some ⟨mp, ⟨spot + 1, 0⟩⟩ by simp [hand₁]) rfl rfl fun _ _ => trivial
        exact ⟨_, _, l', rfl, part.moved queue₁ hand₁ steady₁⟩
      · have limit := info.msgmax_fits
        have last := sized.2
        have small : msgsz.toNat ≤ 65535 := by omega
        -- The segments are in the map, so their number is a short.
        have place : (spot : Int) + 1 ≤ info.msgseg := by
          have text := accounted.sound.handText slot _ mine
          have unit := (accounted.sound.room mp (spot + 1) (by
            rw [text]
            exact ⟨le_rfl, by simp only; omega⟩)).2.1
          omega
        have fits := info.msgseg_fits
        have short : toShort spot = spot := toShort_of_fits ⟨by omega, by omega⟩
        refine queued_does accounted mine used small fun unit => ?_
        have text : (⟨none, type', msgsz.toNat % 65536, toShort spot⟩ : Msg).text info =
            ⟨spot + 1, btoq info msgsz.toNat⟩ := by
          rw [Msg.text, short, Nat.mod_eq_of_lt (by omega)]
          simp only [Span.mk.injEq, and_true]
          omega
        rw [text]
    | ctl msgid cmd => exact fits.elim
    | rcv msqid msgsz msgtyp noerror nowait => exact fits.elim

end

end Svr4.Message
