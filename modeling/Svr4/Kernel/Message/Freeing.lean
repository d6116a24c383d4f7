import Svr4.Kernel.Message.Ledger

/-! The bytes on the queues, and the routines that free messages or look for one. -/

namespace Svr4.Message

open Words Ipc Function

attribute [local simp] Kernel.unlink_msgque Kernel.setQueue

/-! ## The mode of a queue -/

section
variable {mode bit : Nat}

theorem clearBit_alloc (apart : bit &&& ipcAlloc = 0) : clearBit mode bit &&& ipcAlloc = mode &&& ipcAlloc := by
  unfold clearBit
  rw [Nat.and_xor_distrib_right, Nat.and_assoc, apart, Nat.and_zero, Nat.xor_zero]

theorem or_alloc (apart : bit &&& ipcAlloc = 0) : (mode ||| bit) &&& ipcAlloc = mode &&& ipcAlloc := by
  rw [Nat.and_or_distrib_right, apart, Nat.or_zero]

end

/-! ## Quiet changes -/

section
variable {k : Kernel} {w : Work} {q bit : Nat} {chan : Chan} {f : MsqidDs → MsqidDs}

theorem quiet_lock (value : Bool) : Quiet q k { k with msglock := update k.msglock q value } :=
  ⟨⟨rfl, rfl, rfl, rfl, fun _ other => ⟨rfl, update_of_ne other ..⟩, rfl, rfl, rfl⟩, rfl, Iff.rfl⟩

theorem quiet_unlock : Quiet q w.k (w.unlock q).k := quiet_lock false

theorem frame_setQueue (first : (f (k.msgque q)).msgFirst = (k.msgque q).msgFirst)
    (last : (f (k.msgque q)).msgLast = (k.msgque q).msgLast)
    (qnum : (f (k.msgque q)).msgQnum = (k.msgque q).msgQnum) : Frame q k (k.setQueue q f) where
  msgh := rfl
  msgfp := rfl
  entries := rfl
  mapsize := rfl
  others q' other := ⟨update_of_ne other .., rfl⟩
  msgFirst := by simp [first]
  msgLast := by simp [last]
  msgQnum := by simp [qnum]

theorem quiet_perm (p : IpcPerm) (msgQbytes : Nat)
    (same : p.mode &&& ipcAlloc = (k.msgque q).perm.mode &&& ipcAlloc) :
    Quiet q k (k.setQueue q fun qp => { qp with perm := p, msgQbytes }) where
  toFrame := frame_setQueue rfl rfl rfl
  msgCbytes := by simp
  allocated := by simp [IpcPerm.allocated, same]

theorem quiet_mode (mode : Nat) (same : mode &&& ipcAlloc = (k.msgque q).perm.mode &&& ipcAlloc) :
    Quiet q k (k.setQueue q fun qp => { qp with perm := { qp.perm with mode } }) :=
  quiet_perm { (k.msgque q).perm with mode } (k.msgque q).msgQbytes same

theorem quiet_release (apart : bit &&& ipcAlloc = 0) : Quiet q w.k (w.release q bit chan).k := by
  unfold Work.release
  split
  · exact quiet_mode _ (clearBit_alloc apart)
  · exact .refl q w.k

theorem release_msglock : (w.release q bit chan).k.msglock = w.k.msglock := by
  unfold Work.release
  split
  · rfl
  · rfl

end

/-! ## Bytes -/

/-- The bytes of the messages of a list. -/
def bytes (k : Kernel) (list : List Nat) : Nat := (list.map fun h => (k.msgh h).msgTs).sum

section
variable {info : Msginfo} {k k' : Kernel} {l : Ledger} {left right list : List Nat} {q mp : Nat}

theorem bytes_congr (same : ∀ h ∈ list, (k'.msgh h).msgTs = (k.msgh h).msgTs) : bytes k' list = bytes k list := by
  unfold bytes
  rw [List.map_congr_left same]

theorem bytes_middle : bytes k (left ++ mp :: right) = bytes k (left ++ right) + (k.msgh mp).msgTs := by
  simp only [bytes, List.map_append, List.map_cons, List.sum_append, List.sum_cons]
  omega

/-- The tables hold the ledger, and the queues the bytes of their messages. -/
structure Accounted (info : Msginfo) (k : Kernel) (l : Ledger) : Prop where
  sound : Sound info k l
  cbytes : ∀ q, (k.msgque q).msgCbytes = toUlong (bytes k (l.queue q))
  idle : ∀ q, ¬ (k.msgque q).perm.allocated → l.queue q = []

theorem Frame.accounted (frame : Frame q k k') (accounted : Accounted info k l)
    (cbytes : (k'.msgque q).msgCbytes = (k.msgque q).msgCbytes)
    (idle : ¬ (k'.msgque q).perm.allocated → l.queue q = []) : Accounted info k' l where
  sound := frame.sound accounted.sound
  cbytes q' := by
    have total := accounted.cbytes q'
    rw [bytes_congr (k := k) fun h _ => by rw [frame.msgh], ← total]
    by_cases same : q' = q
    · rw [same, cbytes]
    · rw [(frame.others q' same).1]
  idle q' free := by
    by_cases same : q' = q
    · subst same
      exact idle free
    · rw [(frame.others q' same).1] at free
      exact accounted.idle q' free

theorem Quiet.accounted (quiet : Quiet q k k') (accounted : Accounted info k l) : Accounted info k' l :=
  quiet.toFrame.accounted accounted quiet.msgCbytes fun free => accounted.idle q fun used => free (quiet.allocated.mpr used)

end

/-! ## Freeing messages -/

theorem btoq_zero (info : Msginfo) : btoq info 0 = 0 := by
  have positive := info.msgssz_pos
  exact Nat.div_eq_of_lt (by omega)

theorem btoq_pos (info : Msginfo) {bytes : Nat} (some : 0 < bytes) : 0 < btoq info bytes := by
  have positive := info.msgssz_pos
  exact Nat.div_pos (by omega) positive

section
variable {info : Msginfo} {k k' k'' : Kernel} {l : Ledger} {slot : Slot} {q mp : Nat} {w : Work} {left right : List Nat}
  {span : Span}

/-- What freeing messages leaves: the sizes, the bytes, which queues are in use, the locks. -/
structure Steady (k k' : Kernel) : Prop where
  msgTs : ∀ h, (k'.msgh h).msgTs = (k.msgh h).msgTs
  msgCbytes : ∀ q, (k'.msgque q).msgCbytes = (k.msgque q).msgCbytes
  allocated : ∀ q, (k'.msgque q).perm.allocated ↔ (k.msgque q).perm.allocated
  msglock : k'.msglock = k.msglock

theorem Steady.refl (k : Kernel) : Steady k k := ⟨fun _ => rfl, fun _ => rfl, fun _ => Iff.rfl, rfl⟩

theorem Steady.trans (first : Steady k k') (second : Steady k' k'') : Steady k k'' where
  msgTs h := (second.msgTs h).trans (first.msgTs h)
  msgCbytes q := (second.msgCbytes q).trans (first.msgCbytes q)
  allocated q := (second.allocated q).trans (first.allocated q)
  msglock := second.msglock.trans first.msglock

theorem Quiet.steady (quiet : Quiet q k k') (msglock : k'.msglock = k.msglock) : Steady k k' where
  msgTs h := by rw [quiet.msgh]
  msgCbytes q' := by
    by_cases same : q' = q
    · rw [same, quiet.msgCbytes]
    · rw [(quiet.others q' same).1]
  allocated q' := by
    by_cases same : q' = q
    · rw [same, quiet.allocated]
    · rw [(quiet.others q' same).1]
  msglock := msglock

theorem steady_unlink {pmp : Option Nat} : Steady k (k.unlink q pmp mp) where
  msgTs _ := Kernel.unlink_msgTs
  msgCbytes q' := by
    by_cases same : q' = q
    · subst same
      simp
    · simp [same]
  allocated q' := by
    by_cases same : q' = q
    · subst same
      simp
    · simp [same]
  msglock := Kernel.unlink_rest.1

theorem putHeader_k : (w.putHeader mp).k =
    { w.k.setMsg mp fun m => { m with msgNext := w.k.msgfp } with msgfp := some mp } := by
  simp only [Work.putHeader]
  split
  · rfl
  · rfl

theorem steady_putHeader : Steady w.k (w.putHeader mp).k where
  msgTs h := by
    rw [putHeader_k]
    by_cases same : h = mp
    · subst same
      simp [Kernel.setMsg]
    · simp [Kernel.setMsg, same]
  msgCbytes q := by rw [putHeader_k]; rfl
  allocated q := by rw [putHeader_k]; rfl
  msglock := by rw [putHeader_k]; rfl

theorem putHeader_sound (sound : Sound info w.k l) (mine : l.hand slot = some ⟨mp, span⟩) (empty : span.size = 0) :
    ∃ l', Sound info (w.putHeader mp).k l' ∧ l'.queue = l.queue ∧ l'.hand = update l.hand slot none := by
  rw [putHeader_k]
  exact sound.put mine empty

theorem freeText_sound (sound : Sound info w.k l) {base size : Nat} (mine : l.hand slot = some ⟨mp, ⟨base, size⟩⟩)
    (positive : 0 < size) :
    ∃ w' l', w.freeText size base = some w' ∧ Sound info w'.k l' ∧ l'.queue = l.queue ∧
      l'.hand = update l.hand slot (some ⟨mp, ⟨base, 0⟩⟩) ∧ Steady w.k w'.k := by
  obtain ⟨map, woken, l', result, sound', queue, hand⟩ := sound.clear mine positive
  let w' : Work := { w with k := { w.k with msgmap := map } }
  refine ⟨if woken then w'.wakeup .msgmap else w', l', ?_, ?_, queue, hand, ?_⟩
  · simp only [Work.freeText, result]
    rfl
  · split
    · exact sound'
    · exact sound'
  · split
    · exact ⟨fun _ => rfl, fun _ => rfl, fun _ => Iff.rfl, rfl⟩
    · exact ⟨fun _ => rfl, fun _ => rfl, fun _ => Iff.rfl, rfl⟩

theorem msgfree_sound (sound : Sound info w.k l) (queue : l.queue q = left ++ mp :: right) (empty : l.hand slot = none) :
    ∃ w' l', msgfree info q left.getLast? mp w = some w' ∧ Sound info w'.k l' ∧
      l'.queue = update l.queue q (left ++ right) ∧ l'.hand = l.hand ∧ Steady w.k w'.k := by
  obtain ⟨l₁, sound₁, queue₁, hand₁⟩ := sound.unlink queue empty
  let w₁ : Work := Work.release { w with k := w.k.unlink q left.getLast? mp } q msgWwait (.queue q)
  have quiet : Quiet q (w.k.unlink q left.getLast? mp) w₁.k :=
    quiet_release (w := { w with k := w.k.unlink q left.getLast? mp }) (by decide)
  have sound₂ : Sound info w₁.k l₁ := quiet.toFrame.sound sound₁
  have steady₁ : Steady w.k w₁.k := steady_unlink.trans (quiet.steady release_msglock)
  have mine : l₁.hand slot = some ⟨mp, (w.k.msgh mp).text info⟩ := by simp [hand₁]
  have text : (w₁.k.msgh mp).text info = (w.k.msgh mp).text info := by
    rw [quiet.msgh]
    exact Kernel.unlink_text
  rw [← text] at mine
  -- The way back from the hand, once there is no text.
  have back {l₂ : Ledger} (same : l₂.hand = update l₁.hand slot none) : l₂.hand = l.hand := by
    rw [same, hand₁, update_idem, ← empty, update_eq_self]
  by_cases size : (w₁.k.msgh mp).msgTs = 0
  · obtain ⟨l₂, sound₃, queue₂, hand₂⟩ := putHeader_sound sound₂ mine (by simp [Msg.text, size, btoq_zero])
    refine ⟨w₁.putHeader mp, l₂, ?_, sound₃, by rw [queue₂, queue₁], back hand₂, steady₁.trans steady_putHeader⟩
    simp [msgfree, w₁, size]
  · obtain ⟨w₂, l₂, freed, sound₃, queue₂, hand₂, steady₂⟩ := freeText_sound sound₂ mine (btoq_pos info (by omega))
    have mine₂ : l₂.hand slot = some ⟨mp, ⟨((w₁.k.msgh mp).msgSpot + 1).toNat, 0⟩⟩ := by simp [hand₂]
    obtain ⟨l₃, sound₄, queue₃, hand₃⟩ := putHeader_sound sound₃ mine₂ rfl
    refine ⟨w₂.putHeader mp, l₃, ?_, sound₄, by rw [queue₃, queue₂, queue₁], back ?_,
      steady₁.trans (steady₂.trans steady_putHeader)⟩
    · simp only [msgfree]
      rw [if_pos size]
      rw [freed]
      rfl
    · rw [hand₃, hand₂, update_idem]

theorem Sound.queue_length (sound : Sound info k l) : (l.queue q).length ≤ info.msgtql := by
  have sub : l.queue q ⊆ List.range info.msgtql := fun h member =>
    List.mem_range.mpr ((sound.placed (.queue q) h).mp member).1
  simpa using (List.subperm_of_subset (sound.queues q).chain.nodup sub).length_le

theorem msgfreeAll_sound {fuel : Nat} {list : List Nat} (sound : Sound info w.k l) (queue : l.queue q = list)
    (empty : l.hand slot = none) (enough : list.length < fuel) :
    ∃ w' l', msgfreeAll info q fuel w = some w' ∧ Sound info w'.k l' ∧ l'.queue = update l.queue q [] ∧
      l'.hand = l.hand ∧ Steady w.k w'.k := by
  induction list generalizing fuel w l with
  | nil =>
    obtain ⟨fuel, rfl⟩ := Nat.exists_eq_add_one.mpr enough
    have listed := sound.queues q
    rw [queue] at listed
    have none : (w.k.msgque q).msgFirst = none := listed.chain.head_eq
    refine ⟨w, l, by simp [msgfreeAll, none], sound, ?_, rfl, .refl _⟩
    rw [← queue, update_eq_self]
  | cons mp rest ih =>
    obtain ⟨fuel, rfl⟩ := Nat.exists_eq_succ_of_ne_zero (Nat.ne_zero_of_lt enough)
    have listed := sound.queues q
    rw [queue] at listed
    have first : (w.k.msgque q).msgFirst = some mp := listed.chain.head_eq
    obtain ⟨w₁, l₁, freed, sound₁, queue₁, hand₁, steady₁⟩ := (@msgfree_sound _ _ _ _ _ _ []) sound queue empty
    obtain ⟨w₂, l₂, done, sound₂, queue₂, hand₂, steady₂⟩ := ih sound₁ (by simp [queue₁]) (by rw [hand₁, empty])
      (by simpa using enough)
    refine ⟨w₂, l₂, ?_, sound₂, ?_, by rw [hand₂, hand₁], steady₁.trans steady₂⟩
    · have freed : msgfree info q none mp w = some w₁ := freed
      simp [msgfreeAll, first, freed, done]
    · rw [queue₂, queue₁, update_idem]

end

/-! ## Looking for a message -/

/-- A message of a list with the one before it. -/
def Chosen (list : List Nat) (smp : Nat) (spmp : Option Nat) : Prop :=
  ∃ left right, list = left ++ smp :: right ∧ spmp = left.getLast?

section
variable {info : Msginfo} {k : Kernel} {l : Ledger} {q fuel : Nat} {msgtyp : Int} {list done rest : List Nat}
  {head : Option Nat} {best : Option (Nat × Option Nat)}

theorem search_chosen (chain : Chain k.next head rest) (split : list = done ++ rest)
    (before : ∀ smp spmp, best = some (smp, spmp) → Chosen list smp spmp) (enough : rest.length < fuel) :
    ∃ found, search k msgtyp fuel done.getLast? head best = some found ∧
      ∀ smp spmp, found = some (smp, spmp) → Chosen list smp spmp := by
  induction rest generalizing fuel done head best with
  | nil =>
    obtain ⟨fuel, rfl⟩ := Nat.exists_eq_add_one.mpr enough
    obtain rfl := chain.head_eq
    exact ⟨best, rfl, before⟩
  | cons mp rest ih =>
    obtain ⟨fuel, rfl⟩ := Nat.exists_eq_succ_of_ne_zero (Nat.ne_zero_of_lt enough)
    have here : Chosen list mp done.getLast? := ⟨done, rest, split, rfl⟩
    obtain rfl : head = some mp := chain.head_eq
    have tail : Chain k.next (k.next mp) rest := chain.tail
    have next {best : Option (Nat × Option Nat)}
        (before : ∀ smp spmp, best = some (smp, spmp) → Chosen list smp spmp) :
        ∃ found, search k msgtyp fuel (some mp) (k.next mp) best = some found ∧
          ∀ smp spmp, found = some (smp, spmp) → Chosen list smp spmp := by
      have passed := (@ih _ (done ++ [mp])) tail (by simp [split]) before (by simpa using enough)
      simpa using passed
    have better (b : Bool) (smp : Nat) (spmp : Option Nat)
        (found : (if b then some (mp, done.getLast?) else best) = some (smp, spmp)) : Chosen list smp spmp := by
      cases b with
      | false => exact before smp spmp found
      | true =>
        cases found
        exact here
    unfold search
    simp only
    split
    · split
      · refine ⟨_, rfl, ?_⟩
        rintro smp spmp ⟨⟩
        exact here
      · exact next before
    · split
      · exact next (better _)
      · exact next before

theorem choose_chosen (sound : Sound info k l) : ∃ found, choose info k q msgtyp = some found ∧
    ∀ smp spmp, found = some (smp, spmp) → Chosen (l.queue q) smp spmp := by
  have chain := (sound.queues q).chain
  unfold choose
  split
  · refine ⟨_, rfl, ?_⟩
    intro smp spmp found
    obtain ⟨mp, first, same⟩ := Option.map_eq_some_iff.mp found
    cases same
    rw [first] at chain
    obtain ⟨rest, queue, _⟩ := Chain.cons_iff.mp chain
    exact ⟨[], rest, queue, rfl⟩
  · have length := sound.queue_length (q := q)
    exact (@search_chosen _ _ _ _ []) chain rfl (by simp) (by omega)

end

end Svr4.Message
