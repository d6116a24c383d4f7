import Svr4.Foundation.Arrival
import Svr4.Kernel.Message.Selection

/-! What the parts of the message calls do to the messages on the queues.

A sender appends one message, a receiver takes the one it has selected, and
`IPC_RMID` takes all. Every other part leaves the messages and their order.
-/

namespace Svr4.Message

open Words Ipc Function
open Option (bind_eq_some_iff some)

/-- The queues have the same messages. -/
structure Calm (queue : Nat → List Nat) (k k' : Kernel) : Prop where
  msgFirst : ∀ q, (k'.msgque q).msgFirst = (k.msgque q).msgFirst
  msgh : ∀ q, ∀ h ∈ queue q, k'.msgh h = k.msgh h

/-- At most the messages of queue `q` change, by one change of the queue. -/
structure Changes (queue : Nat → List Nat) (q : Nat) (k k' : Kernel) : Prop where
  others : ∀ q', q' ≠ q → Chain k'.next (k'.msgque q').msgFirst (queue q')
  here : ∃ list, Chain k'.next (k'.msgque q).msgFirst list ∧ Served k.type (queue q) list
  types : ∀ q', ∀ h ∈ queue q', k'.type h = k.type h

section
variable {info : Msginfo} {l l' : Ledger} {q : Nat} {k k' k'' : Kernel} {w w' : Work} {c : Caller} {call : Call}
  {next : Next} {slot : Slot} {mp : Nat} {queue : Nat → List Nat} {type msgid msqid : Int} {cnt : Nat}
  {noerror nowait : Bool}

theorem Calm.refl (queue : Nat → List Nat) (k : Kernel) : Calm queue k k := ⟨fun _ => rfl, fun _ _ _ => rfl⟩

theorem Calm.trans (first : Calm queue k k') (second : Calm queue k' k'') : Calm queue k k'' :=
  ⟨fun q => (second.msgFirst q).trans (first.msgFirst q),
    fun q h member => (second.msgh q h member).trans (first.msgh q h member)⟩

theorem Quiet.calm (quiet : Quiet q k k') : Calm queue k k' where
  msgFirst q' := by
    by_cases same : q' = q
    · rw [same, quiet.msgFirst]
    · rw [(quiet.others q' same).1]
  msgh _ _ _ := by rw [quiet.msgh]

theorem Calm.chain (calm : Calm l.queue k k') (sound : Sound info k l) (q : Nat) :
    Chain k'.next (k'.msgque q).msgFirst (l.queue q) := by
  rw [calm.msgFirst]
  exact (sound.queues q).chain.congr fun h member => by rw [Kernel.next, calm.msgh q h member]

theorem Calm.changes (calm : Calm l.queue k k') (sound : Sound info k l) (q : Nat) : Changes l.queue q k k' :=
  ⟨fun q' _ => calm.chain sound q', ⟨_, calm.chain sound q, .stay _⟩,
    fun q' h member => by rw [Kernel.type, calm.msgh q' h member]⟩

theorem Changes.after (changes : Changes queue q k' k'') (calm : Calm queue k k') : Changes queue q k k'' := by
  obtain ⟨list, chain, served⟩ := changes.here
  have same : ∀ h ∈ queue q, k'.type h = k.type h := fun h member => by rw [Kernel.type, calm.msgh q h member]
  refine ⟨changes.others, ⟨list, chain, ?_⟩, fun q' h member => ?_⟩
  · generalize queue q = old at served same
    cases served with
    | stay => exact .stay _
    | arrive _ a absent => exact .arrive _ a absent
    | leave left a right first =>
      refine .leave left a right fun b member => ?_
      rw [← same b (by simp [member]), ← same a (by simp)]
      exact first b member
    | clear => exact .clear _
  · rw [changes.types q' h member, Kernel.type, calm.msgh q' h member]

theorem Changes.before (changes : Changes queue q k k') (quiet : Quiet q k' k'') : Changes queue q k k'' := by
  have first (q' : Nat) : (k''.msgque q').msgFirst = (k'.msgque q').msgFirst := ((@Quiet.calm _ _ _ queue) quiet).msgFirst q'
  obtain ⟨list, chain, served⟩ := changes.here
  have next : k''.next = k'.next := by
    funext h
    rw [Kernel.next, Kernel.next, quiet.msgh]
  refine ⟨fun q' other => ?_, ⟨list, ?_, served⟩, fun q' h member => ?_⟩
  · rw [first, next]
    exact changes.others q' other
  · rw [first, next]
    exact chain
  · rw [Kernel.type, quiet.msgh]
    exact changes.types q' h member

/-! ## Sending -/

theorem calm_putHeader (absent : ∀ q, mp ∉ queue q) : Calm queue w.k (w.putHeader mp).k := by
  rw [putHeader_k]
  refine ⟨fun _ => rfl, fun q h member => ?_⟩
  have differ : h ≠ mp := fun same => absent q (same ▸ member)
  simp [Kernel.setMsg, differ]

theorem freeText_calm {size a : Nat} (freed : w.freeText size a = some w') : Calm queue w.k w'.k := by
  obtain ⟨⟨map, woken⟩, _, result⟩ := bind_eq_some_iff.mp freed
  cases result
  split
  · exact ⟨fun _ => rfl, fun _ _ _ => rfl⟩
  · exact ⟨fun _ => rfl, fun _ _ _ => rfl⟩

theorem queued_changes {spot : Int} (sound : Sound info w.k l)
    (absent : ∀ q, mp ∉ l.queue q) : Changes l.queue q w.k (queued c q type cnt mp spot w).1.k := by
  let message : Msg := ⟨none, type, cnt % 65536, toShort spot⟩
  let k₁ := w.k.enqueue q mp message c.pid cnt
  have quiet : Quiet q k₁ (queued c q type cnt mp spot w).1.k :=
    (quiet_release (w := { w with k := k₁ }) (by decide)).trans quiet_unlock
  refine Changes.before ⟨fun q' other => ?_, ⟨l.queue q ++ [mp], ?_, .arrive _ mp (absent q)⟩, ?_⟩ quiet
  · have first : (k₁.msgque q').msgFirst = (w.k.msgque q').msgFirst := by simp [k₁, Kernel.enqueue_msgque, other]
    rw [first]
    refine (sound.queues q').chain.congr fun h member => ?_
    have differ : h ≠ mp := fun same => absent q' (same ▸ member)
    rw [Kernel.next, Kernel.enqueue_others differ]
    intro last
    rw [(sound.queues q).last] at last
    exact sound.queue_apart member other (List.mem_of_getLast? last)
  · exact ((sound.queues q).enqueue (absent q) rfl).chain
  · intro q' h member
    have differ : h ≠ mp := fun same => absent q' (same ▸ member)
    simp only [Kernel.type, k₁, Kernel.enqueue_msgh]
    cases (w.k.msgque q).msgLast with
    | none => simp [differ]
    | some last =>
      by_cases same : h = last
      · subst same
        simp [differ]
      · simp [same, differ]

/-! ## Receiving and removing -/

theorem msgfree_type {pmp : Option Nat} (freed : msgfree info q pmp mp w = some w') (h : Nat) :
    w'.k.type h = w.k.type h := by
  have unlinked : (w.k.unlink q pmp mp).type h = w.k.type h := by
    rw [Kernel.type, Kernel.unlink_msgh]
    cases pmp with
    | none => rfl
    | some p =>
      by_cases same : h = p
      · subst same
        simp
      · simp [same]
  have put (w : Work) : (w.putHeader mp).k.type h = w.k.type h := by
    rw [Kernel.type, putHeader_k]
    by_cases same : h = mp
    · subst same
      simp [Kernel.setMsg]
    · simp [Kernel.setMsg, same]
  let w₁ : Work := Work.release { w with k := w.k.unlink q pmp mp } q msgWwait (.queue q)
  have quiet : Quiet q (w.k.unlink q pmp mp) w₁.k :=
    quiet_release (w := { w with k := w.k.unlink q pmp mp }) (by decide)
  have released : w₁.k.type h = w.k.type h := by
    rw [Kernel.type, quiet.msgh]
    exact unlinked
  unfold msgfree at freed
  dsimp only at freed
  split at freed
  · obtain ⟨w₂, text, result⟩ := bind_eq_some_iff.mp freed
    cases result
    obtain ⟨⟨map, woken⟩, _, result⟩ := bind_eq_some_iff.mp text
    cases result
    rw [put]
    split
    · exact released
    · exact released
  · cases freed
    rw [put]
    exact released

theorem msgfreeAll_type {fuel : Nat} (freed : msgfreeAll info q fuel w = some w') (h : Nat) :
    w'.k.type h = w.k.type h := by
  induction fuel generalizing w with
  | zero => cases freed
  | succ fuel ih =>
    unfold msgfreeAll at freed
    split at freed
    · cases freed
      rfl
    · obtain ⟨w₁, one, rest⟩ := bind_eq_some_iff.mp freed
      rw [ih rest, msgfree_type one]

theorem Sound.changes {list : List Nat} (sound : Sound info k' l') (queue : l'.queue = update l.queue q list)
    (served : Served k.type (l.queue q) list) (types : ∀ h, k'.type h = k.type h) : Changes l.queue q k k' where
  others q' other := by
    have chain := (sound.queues q').chain
    rwa [queue, update_of_ne other] at chain
  here := by
    have chain := (sound.queues q).chain
    rw [queue, update_self] at chain
    exact ⟨list, chain, served⟩
  types _ h _ := types h

theorem rmid_changes (accounted : Accounted info w.k l) (empty : l.hand slot = none)
    (removed : rmid info msgid q w = some w') : Changes l.queue q w.k w'.k := by
  obtain ⟨again, l', removed', account, queue, _⟩ := rmid_accounted (q := q) msgid accounted empty
  cases removed.symm.trans removed'
  refine account.sound.changes queue (.clear _) fun h => ?_
  obtain ⟨w₁, freed, result⟩ := bind_eq_some_iff.mp removed
  cases result
  have types := msgfreeAll_type freed h
  simp only [Kernel.type, Kernel.setQueue] at types ⊢
  split <;> split <;> exact types

theorem received_changes {smp sz : Nat} {spmp : Option Nat} {msgtyp : Int} (sound : Sound info w.k l)
    (empty : l.hand slot = none) (chosen : Chosen (l.queue q) smp spmp)
    (selected : select w.k.type msgtyp (l.queue q) = some smp)
    (result : received info c q smp spmp sz w = some (w', next)) :
    Changes l.queue q w.k w'.k ∧ ∃ left right, l.queue q = left ++ smp :: right ∧
      Chain w'.k.next (w'.k.msgque q).msgFirst (left ++ right) := by
  obtain ⟨left, right, split, rfl⟩ := chosen
  let f (qp : MsqidDs) : MsqidDs := { qp with
    msgCbytes := toUlong (qp.msgCbytes + 4294967296 - (w.k.msgh smp).msgTs)
    msgLrpid := c.pid }
  let w₁ : Work := { w with k := w.k.setQueue q f }
  have frame : Frame q w.k w₁.k := frame_setQueue rfl rfl rfl
  obtain ⟨w₂, l', freed, sound', queue, _, _⟩ := msgfree_sound (w := w₁) (frame.sound sound) split empty
  have types (h : Nat) : w₂.k.type h = w.k.type h := msgfree_type freed h
  obtain ⟨again, freed', finished⟩ := bind_eq_some_iff.mp result
  cases freed.symm.trans freed'
  cases finished
  have nodup := (sound.queues q).chain.nodup
  rw [split] at selected nodup
  have served : Served w.k.type (l.queue q) (left ++ right) := by
    rw [split]
    exact .leave left smp right (select_first selected nodup)
  have changes : Changes l.queue q w.k w₂.k := sound'.changes queue served types
  refine ⟨changes.before quiet_unlock, left, right, split, ?_⟩
  have chain := (sound'.queues q).chain
  rwa [queue, update_self] at chain

/-! ## The parts -/

theorem msgconv_changes {onInvalid : Work → Option (Work × Next)} {onBusy : Option (Work × Next)}
    {onLocked : Nat → Work → Option (Work × Next)} {point : Point} {id : Int} {error : Errno}
    (sound : Sound info w.k l) (invalid : ∀ w₁, onInvalid w₁ = some (w₁, .ret (.error error)))
    (busy : onBusy = some (w, .lock point))
    (locked : ∀ w₁, Quiet (id % info.msgmni).toNat w.k w₁.k →
      onLocked (id % info.msgmni).toNat w₁ = some (w', next) →
      Changes l.queue (id % info.msgmni).toNat w₁.k w'.k)
    (result : (match msgconv info id w with
      | .invalid w₁ => onInvalid w₁
      | .busy => onBusy
      | .locked q w₁ => onLocked q w₁) = some (w', next)) :
    Changes l.queue (id % info.msgmni).toNat w.k w'.k ∧
      (w.k.msglock (id % info.msgmni).toNat = true → w'.k = w.k) := by
  rcases msgconv_cases id w with ⟨converted, _⟩ | ⟨w₁, converted, quiet, lock⟩ | ⟨w₁, converted, quiet, unheld, _⟩
  · rw [converted, busy] at result
    cases result
    exact ⟨(Calm.refl _ _).changes sound _, fun _ => rfl⟩
  · rw [converted] at result
    cases (invalid w₁).symm.trans result
    refine ⟨quiet.calm.changes sound _, fun held => ?_⟩
    rcases lock with unheld | same
    · rw [held] at unheld
      cases unheld
    · exact same
  · rw [converted] at result
    refine ⟨(locked w₁ quiet result).after quiet.calm, fun held => ?_⟩
    rw [held] at unheld
    cases unheld

theorem out_changes {w₁ : Work} {result : Except Errno Int} (sound : Sound info w.k l) (calm : Calm l.queue w.k w₁.k)
    (out : some (w₁.unlock q, Next.ret result) = some (w', next)) : Changes l.queue q w.k w'.k := by
  cases out
  exact (calm.trans (quiet_unlock (w := w₁)).calm).changes sound q

theorem findmsg_changes {msgsz msgtyp : Int} (sound : Sound info w.k l)
    (result : findmsg info msqid msgsz msgtyp noerror nowait w = some (w', next)) :
    Changes l.queue (msqid % info.msgmni).toNat w.k w'.k ∧
      (w.k.msglock (msqid % info.msgmni).toNat = true → w'.k = w.k) := by
  refine (@msgconv_changes _ _ _ _ _ _ _ _ .findmsg _ .eidrm) sound (fun _ => rfl) rfl
    (fun w₁ quiet result => ?_) result
  have sound₁ := quiet.toFrame.sound sound
  obtain ⟨found, _, result⟩ := bind_eq_some_iff.mp result
  cases found with
  | some best =>
    simp only at result
    split at result
    · split at result
      · cases result
        exact (Calm.refl _ _).changes sound₁ _
      · exact out_changes sound₁ (.refl _ _) result
    · cases result
      exact (Calm.refl _ _).changes sound₁ _
  | none =>
    simp only at result
    split at result
    · exact out_changes sound₁ (.refl _ _) result
    · cases result
      exact ((quiet_mode _ (or_alloc (by decide))).trans (quiet_lock false)).calm.changes sound₁ _

theorem getres_changes (sound : Sound info w.k l)
    (empty : l.hand slot = none) (result : getres info c msqid cnt nowait type w = some (w', next)) :
    Changes l.queue (msqid % info.msgmni).toNat w.k w'.k ∧
      (w.k.msglock (msqid % info.msgmni).toNat = true → w'.k = w.k) := by
  refine (@msgconv_changes _ _ _ _ _ _ _ _ (.getres type) _ .eidrm) sound (fun _ => rfl) rfl
    (fun w₁ quiet result => ?_) result
  have sound₁ := quiet.toFrame.sound sound
  simp only at result
  split at result
  · split at result
    · exact out_changes sound₁ (.refl _ _) result
    · cases result
      exact ((quiet_mode _ (or_alloc (by decide))).trans (quiet_lock false)).calm.changes sound₁ _
  · split at result
    · split at result
      · exact out_changes sound₁ (.refl _ _) result
      · cases result
        exact quiet_unlock.calm.changes sound₁ _
    · next mp first =>
      obtain ⟨l₁, sound₂, queue, span, _, hand⟩ := sound₁.take first empty
      have mine : l₁.hand slot = some ⟨mp, span⟩ := by simp [hand]
      have absent (q : Nat) : mp ∉ l.queue q := queue ▸ sound₂.not_queue_of_hand mine
      have taken : Calm l.queue w₁.k { w₁.k with msgfp := w₁.k.next mp } := ⟨fun _ => rfl, fun _ _ _ => rfl⟩
      split at result
      · let before : Work := { w₁ with k := { w₁.k with msgfp := w₁.k.next mp } }
        have added : Changes l₁.queue (msqid % info.msgmni).toNat before.k
            (queued c (msqid % info.msgmni).toNat type cnt mp (-1) before).1.k :=
          queued_changes sound₂ (queue ▸ absent)
        cases result
        rw [queue] at added
        exact added.after taken
      · obtain ⟨⟨spot, msgmap⟩, _, result⟩ := bind_eq_some_iff.mp result
        have back (map : Rmap.Map) : Calm l.queue w₁.k
            ((({ w₁ with k := { w₁.k with msgfp := w₁.k.next mp, msgmap := map } } : Work).putHeader mp).unlock
              (msqid % info.msgmni).toNat).k := by
          let held : Work := { w₁ with k := { w₁.k with msgfp := w₁.k.next mp, msgmap := map } }
          have put : Calm l.queue held.k (held.putHeader mp).k := calm_putHeader absent
          have start : Calm l.queue w₁.k held.k := ⟨fun _ => rfl, fun _ _ _ => rfl⟩
          exact (start.trans put).trans quiet_unlock.calm
        split at result
        · split at result
          · cases result
            exact (back _).changes sound₁ _
          · cases result
            exact (back _).changes sound₁ _
        · cases result
          have filled : Calm l.queue w₁.k { w₁.k with msgfp := w₁.k.next mp, msgmap } :=
            ⟨fun _ => rfl, fun _ _ _ => rfl⟩
          exact filled.changes sound₁ _

theorem msgctl_changes {cmd : Cmd} (accounted : Accounted info w.k l) (empty : l.hand slot = none)
    (result : msgctl info c msgid cmd q w = some (w', next)) : Changes l.queue q w.k w'.k := by
  have sound := accounted.sound
  have copy {part : Copy} (result : some (w, Next.copy q part) = some (w', next)) : Changes l.queue q w.k w'.k := by
    cases result
    exact (Calm.refl _ _).changes sound q
  cases cmd with
  | rmid =>
    simp only [msgctl] at result
    split at result
    · exact out_changes sound (.refl _ _) result
    · obtain ⟨w₁, removed, result⟩ := bind_eq_some_iff.mp result
      cases result
      exact (rmid_changes accounted empty removed).before quiet_unlock
  | set =>
    simp only [msgctl] at result
    split at result
    · exact out_changes sound (.refl _ _) result
    · exact copy result
  | ostat =>
    simp only [msgctl] at result
    split at result
    · exact out_changes sound (.refl _ _) result
    · split at result
      · exact out_changes sound (.refl _ _) result
      · exact copy result
  | stat =>
    simp only [msgctl] at result
    split at result
    · exact out_changes sound (.refl _ _) result
    · exact copy result
  | other => exact out_changes sound (.refl _ _) result

theorem msgrcv_changes {msgsz msgtyp : Int} (sound : Sound info w.k l)
    (result : msgrcv info c msqid msgsz msgtyp noerror nowait (msqid % info.msgmni).toNat w = some (w', next)) :
    Changes l.queue (msqid % info.msgmni).toNat w.k w'.k := by
  unfold msgrcv at result
  split at result
  · exact out_changes sound (.refl _ _) result
  · split at result
    · exact out_changes sound (.refl _ _) result
    · exact (findmsg_changes (quiet_unlock.toFrame.sound sound) result).1.after quiet_unlock.calm

theorem convert_changes {point : Point} (accounted : Accounted info w.k l) (empty : l.hand slot = none)
    (result : convert info c call point w = some (w', next)) :
    Changes l.queue (call.home info) w.k w'.k ∧ (w.k.msglock (call.home info) = true → w'.k = w.k) := by
  have sound := accounted.sound
  cases point with
  | entry =>
    refine (@msgconv_changes _ _ _ _ _ _ _ _ .entry _ .einval) sound (fun _ => rfl) rfl
      (fun w₁ quiet result => ?_) result
    cases call with
    | ctl msgid cmd => exact msgctl_changes (quiet.accounted accounted) empty result
    | rcv msqid msgsz msgtyp noerror nowait => exact msgrcv_changes (quiet.toFrame.sound sound) result
    | snd msqid msgsz nowait =>
      have sound₁ := quiet.toFrame.sound sound
      have result : msgsnd info c msgsz _ w₁ = (w', next) := some.inj result
      unfold msgsnd at result
      split at result
      · exact out_changes sound₁ (.refl _ _) (congrArg some result)
      · split at result
        · exact out_changes sound₁ (.refl _ _) (congrArg some result)
        · cases result
          exact (Calm.refl _ _).changes sound₁ _
  | findmsg =>
    cases call with
    | rcv msqid msgsz msgtyp noerror nowait => exact findmsg_changes sound result
    | ctl msgid cmd => cases result
    | snd msqid msgsz nowait => cases result
  | getres type =>
    cases call with
    | snd msqid msgsz nowait => exact getres_changes sound empty result
    | ctl msgid cmd => cases result
    | rcv msqid msgsz msgtyp noerror nowait => cases result
  | unroom =>
    refine (@msgconv_changes _ _ _ _ _ _ _ _ .unroom _ .einval) sound (fun _ => rfl) rfl
      (fun w₁ quiet result => ?_) result
    refine out_changes (quiet.toFrame.sound sound) ?_ result
    exact (quiet_mode _ (clearBit_alloc (by decide))).calm
  | unsleep =>
    refine (@msgconv_changes _ _ _ _ _ _ _ _ .unsleep _ .einval) sound (fun _ => rfl) rfl
      (fun w₁ quiet result => ?_) result
    exact out_changes (quiet.toFrame.sound sound) (.refl _ _) result

/-- The message that a receiver copies out. -/
def Copy.message : Copy → Option Nat
  | .rcvType smp _ _ => some smp
  | .rcvText smp _ _ => some smp
  | _ => none

/-- The type that a receiver asks for. -/
def Call.msgtyp : Call → Option Int
  | .rcv _ _ msgtyp _ _ => some msgtyp
  | _ => none

/-- The message that a process copies out is the one to receive. -/
def Selected (k : Kernel) (list : List Nat) (call : Call) (part : Copy) : Prop :=
  ∀ smp msgtyp, part.message = some smp → call.msgtyp = some msgtyp → -2147483648 ≤ msgtyp →
    select k.type msgtyp list = some smp

theorem copied_changes {part : Copy} {fault : Bool} {ds : Settings} (accounted : Accounted info w.k l)
    (held : l.hand slot = (Proc.copying c call q part).hand info)
    (fits : (Proc.copying c call q part).Fits info w.k l)
    (ranged : ∀ msgtyp, call.msgtyp = some msgtyp → -2147483648 ≤ msgtyp)
    (selected : Selected w.k (l.queue q) call part)
    (result : copied info c call q part fault type ds w = some (w', next)) : Changes l.queue q w.k w'.k := by
  have sound := accounted.sound
  obtain ⟨rfl, _, _, fits⟩ := fits
  have out {result : Except Errno Int} (finished : some (w.unlock (call.home info), Next.ret result) = some (w', next)) :
      Changes l.queue (call.home info) w.k w'.k := out_changes sound (.refl _ _) finished
  cases part with
  | set =>
    simp only [copied] at result
    split at result
    · exact out result
    · split at result
      · exact out result
      · refine out_changes sound ?_ result
        refine (quiet_perm { (w.k.msgque (call.home info)).perm with
          uid := ds.uid
          gid := ds.gid
          mode := clearBit (w.k.msgque (call.home info)).perm.mode access ||| (ds.mode &&& access) } _ ?_).calm
        have inside : (ds.mode &&& access) &&& ipcAlloc = 0 := by
          rw [Nat.and_assoc]
          exact Nat.and_zero _
        rw [or_alloc inside]
        exact clearBit_alloc (by decide)
  | stat => exact out result
  | rcvType smp spmp sz =>
    cases call with
    | rcv msqid msgsz msgtyp noerror nowait =>
      have chosen := selected smp msgtyp rfl rfl (ranged msgtyp rfl)
      simp only [copied] at result
      split at result
      · exact out result
      · split at result
        · cases result
          exact (Calm.refl _ _).changes sound _
        · exact (received_changes sound held fits chosen result).1
    | ctl msgid cmd => exact fits.elim
    | snd msqid msgsz nowait => exact fits.elim
  | rcvText smp spmp sz =>
    cases call with
    | rcv msqid msgsz msgtyp noerror nowait =>
      have chosen := selected smp msgtyp rfl rfl (ranged msgtyp rfl)
      simp only [copied] at result
      split at result
      · exact out result
      · exact (received_changes sound held fits chosen result).1
    | ctl msgid cmd => exact fits.elim
    | snd msqid msgsz nowait => exact fits.elim
  | sndType =>
    cases call with
    | snd msqid msgsz nowait =>
      simp only [copied] at result
      split at result
      · exact out result
      · split at result
        · exact out result
        · exact (getres_changes (quiet_unlock.toFrame.sound sound) held result).1.after quiet_unlock.calm
    | ctl msgid cmd => exact fits.elim
    | rcv msqid msgsz msgtyp noerror nowait => exact fits.elim
  | sndText type' mp spot =>
    cases call with
    | snd msqid msgsz nowait =>
      have mine : l.hand slot = some ⟨mp, ⟨spot + 1, btoq info msgsz.toNat⟩⟩ := held
      have absent (q : Nat) : mp ∉ l.queue q := sound.not_queue_of_hand mine
      simp only [copied] at result
      split at result
      · obtain ⟨w₁, freed, result⟩ := bind_eq_some_iff.mp result
        cases result
        have put : Calm l.queue w₁.k (w₁.putHeader mp).k := calm_putHeader absent
        exact ((freeText_calm freed).trans (put.trans quiet_unlock.calm)).changes sound _
      · cases result
        exact queued_changes sound absent
    | ctl msgid cmd => exact fits.elim
    | rcv msqid msgsz msgtyp noerror nowait => exact fits.elim

end

end Svr4.Message
