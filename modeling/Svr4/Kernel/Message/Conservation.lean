import Svr4.Kernel.Message.Parts

/-! Message queues lose nothing.

In every state of the system each header is on the free list, on one queue or in the
hands of one sender, the queues count what is on them, and no segment has two uses.
-/

namespace Svr4.Message

open Words Ipc
open Option (some)

/-- The ledger of a state of the system. -/
structure Conserved (info : Msginfo) (s : System) (l : Ledger) : Prop where
  accounted : Accounted info s.k l
  hands : ∀ slot, l.hand slot = (s.proc slot).hand info
  fits : ∀ slot, (s.proc slot).Fits info s.k l
  alone : ∀ slot slot' q, (s.proc slot).locks = some q → (s.proc slot').locks = some q → slot = slot'

section
variable {info : Msginfo} {s t : System} {l l' : Ledger} {slot : Slot} {p : Proc} {q : Nat} {w : Work} {woken : List Chan}
  {k : Kernel}

/-! ## Processes that stay where they are -/

theorem wake_hand : (p.wake woken).hand info = p.hand info := by
  cases p with
  | locked c call point q =>
    simp only [Proc.wake]
    split
    · rfl
    · rfl
  | asleep c call chan type =>
    simp only [Proc.wake]
    split
    · rfl
    · rfl
  | _ => rfl

theorem wake_locks : (p.wake woken).locks = p.locks := by
  cases p with
  | locked c call point q =>
    simp only [Proc.wake]
    split
    · rfl
    · rfl
  | asleep c call chan type =>
    simp only [Proc.wake]
    split
    · rfl
    · rfl
  | _ => rfl

theorem wake_fits (fits : p.Fits info k l) : (p.wake woken).Fits info k l := by
  cases p with
  | locked c call point q =>
    simp only [Proc.wake]
    split
    · exact fits
    · exact fits
  | asleep c call chan type =>
    simp only [Proc.wake]
    split
    · exact fits
    · exact fits
  | _ => exact fits

/-- A process that has not locked queue `q` does not see what happens to it. -/
theorem Proc.Fits.keep {k' : Kernel} (fits : p.Fits info k l) (away : p.locks ≠ some q)
    (others : ∀ q', q' ≠ q → l'.queue q' = l.queue q' ∧ k'.msglock q' = k.msglock q' ∧
      ((k'.msgque q').perm.allocated ↔ (k.msgque q').perm.allocated)) : p.Fits info k' l' := by
  cases p with
  | copying c call q' part =>
    obtain ⟨home, lock, used, chosen⟩ := fits
    obtain ⟨queue, lock', used'⟩ := others q' fun same => away (by rw [← same]; rfl)
    refine ⟨home, by rw [lock', lock], used'.mpr used, ?_⟩
    rw [queue]
    exact chosen
  | _ => exact fits

/-! ## Steps -/

theorem Conserved.put (conserved : Conserved info s l) (old : (s.proc slot).hand info = none)
    (new : p.hand info = none) (locks : p.locks = none) (fits : p.Fits info s.k l) :
    Conserved info (s.put slot p) l where
  accounted := conserved.accounted
  hands slot' := by
    by_cases same : slot' = slot
    · subst same
      simp [System.put, conserved.hands, old, new]
    · simp [System.put, conserved.hands, same]
  fits slot' := by
    by_cases same : slot' = slot
    · subst same
      simpa [System.put] using fits
    · simpa [System.put, same] using conserved.fits slot'
  alone slot₁ slot₂ q first second := by
    have stays {slot' : Slot} (holds : ((s.put slot p).proc slot').locks = some q) : (s.proc slot').locks = some q := by
      by_cases same : slot' = slot
      · subst same
        simp [System.put, locks] at holds
      · simpa [System.put, same] using holds
    exact conserved.alone slot₁ slot₂ q (stays first) (stays second)

theorem Conserved.store (conserved : Conserved info s l) (part : Part info slot q s.k l w.k p l')
    (home : ∀ q', p.locks = some q' → q' = q)
    (clear : (∀ slot', slot' ≠ slot → (s.proc slot').locks ≠ some q) ∨ (w.k = s.k ∧ l' = l ∧ p.locks = none)) :
    Conserved info (s.store w slot p) l' where
  accounted := part.accounted
  hands slot' := by
    rw [part.hand]
    by_cases same : slot' = slot
    · subst same
      simp [System.store]
    · simp [System.store, same, conserved.hands, wake_hand]
  fits slot' := by
    by_cases same : slot' = slot
    · subst same
      simpa [System.store] using part.fits
    · have before := conserved.fits slot'
      have after : (s.proc slot').Fits info w.k l' := by
        rcases clear with away | ⟨kernel, ledger, _⟩
        · exact before.keep (away slot' same) part.others
        · rw [kernel, ledger]
          exact before
      simpa [System.store, same] using wake_fits after
  alone slot₁ slot₂ q' first second := by
    have other {slot' : Slot} (differ : slot' ≠ slot) (holds : ((s.store w slot p).proc slot').locks = some q') :
        (s.proc slot').locks = some q' := by
      simpa [System.store, differ, wake_locks] using holds
    -- The process of the slot and another one cannot both have the queue.
    have excluded {slot' : Slot} (mine : ((s.store w slot p).proc slot).locks = some q') (differ : slot' ≠ slot)
        (holds : ((s.store w slot p).proc slot').locks = some q') : False := by
      have here : p.locks = some q' := by simpa [System.store] using mine
      rcases clear with away | ⟨_, _, none⟩
      · exact away slot' differ (home q' here ▸ other differ holds)
      · rw [none] at here
        cases here
    by_cases same₁ : slot₁ = slot
    · by_cases same₂ : slot₂ = slot
      · rw [same₁, same₂]
      · exact (excluded (same₁ ▸ first) same₂ second).elim
    · by_cases same₂ : slot₂ = slot
      · exact (excluded (same₂ ▸ second) same₁ first).elim
      · exact conserved.alone slot₁ slot₂ q' (other same₁ first) (other same₂ second)

theorem Proc.Fits.home {c : Caller} {call : Call} {next : Next} {q' : Nat}
    (fits : (next.proc info c call).Fits info k l) (locks : (next.proc info c call).locks = some q') :
    q' = call.home info := by
  cases next with
  | copy q part =>
    cases locks
    exact fits.1
  | ret result => cases locks
  | lock point => cases locks
  | sleep chan type => cases locks

theorem msgget_conserved {cr : Cred} {key : Int} {flag : Nat} (conserved : Conserved info s l) :
    Conserved info { s with k := (msgget info s.k cr key flag).1 } l := by
  unfold msgget
  split
  · exact conserved
  · exact conserved
  · next q found =>
    obtain ⟨_, free⟩ := ipcget_new found
    have idle := conserved.accounted.idle q free
    have listed := conserved.accounted.sound.queues q
    rw [idle] at listed
    have first : (s.k.msgque q).msgFirst = none := listed.chain.head_eq
    have last : (s.k.msgque q).msgLast = none := listed.last
    have qnum : (s.k.msgque q).msgQnum = 0 := listed.qnum
    let f (qp : MsqidDs) : MsqidDs := { qp with
      perm := qp.perm.init key flag cr
      msgFirst := none
      msgLast := none
      msgQnum := 0
      msgQbytes := info.msgmnb % 65536
      msgLspid := 0
      msgLrpid := 0 }
    have frame : Frame q s.k (s.k.setQueue q f) := frame_setQueue first.symm last.symm qnum.symm
    refine ⟨frame.accounted conserved.accounted (by simp [Kernel.setQueue, f]) fun _ => idle, conserved.hands,
      fun slot => (conserved.fits slot).keep (q := q) (fun holds => ?_) fun q' other => ?_, conserved.alone⟩
    · -- A queue that is locked is in use.
      have fits := conserved.fits slot
      cases at' : s.proc slot with
      | copying c call q' part =>
        rw [at'] at fits holds
        cases holds
        exact free fits.2.2.1
      | _ =>
        rw [at'] at holds
        cases holds
    · obtain ⟨queue, lock⟩ := frame.others q' other
      exact ⟨rfl, lock, by rw [queue]⟩

theorem step_conserved {event : Event} (conserved : Conserved info s l) (step : Step info s event t) :
    ∃ l', Conserved info t l' := by
  cases step with
  | msgget cr key flag => exact ⟨l, msgget_conserved conserved⟩
  | call c call at' => exact ⟨l, conserved.put (by rw [at']; rfl) rfl rfl trivial⟩
  | @turn slot c call point w next at' result =>
    have fits := conserved.fits slot
    have empty := conserved.hands slot
    rw [at'] at fits empty
    obtain ⟨w', next', l', same, part, clear⟩ :=
      convert_turns (w := ⟨s.k, []⟩) (c := c) conserved.accounted empty fits
    cases same.symm.trans result
    refine ⟨l', conserved.store part (fun q' locks => part.fits.home locks) ?_⟩
    refine clear.imp_left fun unheld slot' _ holds => ?_
    -- Whoever has the queue has locked it.
    have other := conserved.fits slot'
    cases there : s.proc slot' with
    | copying c' call' q' copy' =>
      rw [there] at other holds
      cases holds
      have held := other.2.1
      rw [unheld] at held
      cases held
    | _ =>
      rw [there] at holds
      cases holds
  | @copied slot c call q copy w next fault type ds at' result =>
    have fits := conserved.fits slot
    have hand := conserved.hands slot
    rw [at'] at fits hand
    obtain rfl := fits.1
    obtain ⟨w', next', l', same, part⟩ :=
      copied_does (w := ⟨s.k, []⟩) conserved.accounted hand fits
    cases same.symm.trans result
    refine ⟨l', conserved.store part (fun q' locks => part.fits.home locks) (.inl fun slot' differ holds => ?_)⟩
    exact differ (conserved.alone slot' slot _ holds (by rw [at']; rfl))
  | @resume slot c call chan type at' =>
    have fits := conserved.fits slot
    rw [at'] at fits
    exact ⟨l, conserved.put (by rw [at']; rfl) rfl rfl fits⟩
  | @interrupt slot c msqid msgsz nowait chan type at' =>
    have empty : (s.proc slot).hand info = none := by
      rcases at' with at' | at'
      · rw [at']; rfl
      · rw [at']; rfl
    refine ⟨l, conserved.put empty rfl rfl ?_⟩
    cases chan with
    | queue q => trivial
    | _ => trivial
  | @leave slot c msqid msgsz msgtyp noerror nowait chan type at' =>
    have empty : (s.proc slot).hand info = none := by
      rcases at' with at' | at'
      · rw [at']; rfl
      · rw [at']; rfl
    exact ⟨l, conserved.put empty rfl rfl trivial⟩
  | abort at' => exact ⟨l, conserved.put (by rw [at']; rfl) rfl rfl trivial⟩

/-! ## The start -/

theorem boot_free {next : Nat → Option Nat} {n : Nat}
    (linked : ∀ h, next h = if h + 1 < n then some (h + 1) else none) {i count : Nat} (rest : i + count + 1 = n) :
    Chain next (some i) (List.range' i (count + 1)) := by
  induction count generalizing i with
  | zero =>
    apply Chain.cons
    rw [linked, if_neg (by omega)]
    exact .nil
  | succ count ih =>
    rw [List.range'_succ]
    apply Chain.cons
    rw [linked, if_pos (by omega)]
    exact ih (by omega)

theorem boot_map {map : Rmap.Map} {woken : Bool}
    (freed : Rmap.rmfree (Rmap.mapinit info.msgmap) info.msgseg 1 = some (map, woken)) :
    ∃ live, Rmap.Table map live ∧ ∀ unit, Rmap.Free live unit → unit ≤ info.msgseg := by
  have table := Rmap.mapinit_table info.msgmap_table
  by_cases zero : info.msgseg = 0
  · simp only [Rmap.rmfree, zero, if_true] at freed
    cases freed
    exact ⟨[], table, fun unit free => absurd free covers_nil⟩
  · rcases Rmap.rmfree_units table (Nat.pos_of_ne_zero zero) Nat.one_pos fun unit _ _ => covers_nil with
      ⟨_, result⟩ | ⟨_, map', woken', live, result, table', _, units⟩
    · rw [result] at freed
      cases freed
      exact ⟨[], table, fun unit free => absurd free covers_nil⟩
    · rw [result] at freed
      cases freed
      refine ⟨live, table', fun unit free => ?_⟩
      rcases (units unit).mp free with none | inside
      · exact absurd none covers_nil
      · omega

theorem boot_conserved (boot : s.Boot info) : ∃ l, Conserved info s l := by
  obtain ⟨first, linked, queues, locks, ⟨woken, freed⟩, users⟩ := boot
  obtain ⟨live, table, within⟩ := boot_map freed
  have positive := info.msgtql_pos
  let l : Ledger := ⟨List.range info.msgtql, fun _ => [], fun _ => none, fun _ => .free, fun _ => ⟨0, 0⟩, live⟩
  have bare (h unit : Nat) : ¬ (l.text h).Has unit := fun has => absurd has.size_pos (Nat.lt_irrefl 0)
  have sound : Sound info s.k l := {
    freeChain := by
      rw [first]
      have chain := (@boot_free _ _ linked 0 (info.msgtql - 1)) (by omega)
      rw [Nat.sub_add_cancel positive, ← List.range_eq_range'] at chain
      exact chain
    queues := fun q => by
      obtain ⟨_, none, last, _, qnum⟩ := queues q
      have chain : Chain s.k.next (s.k.msgque q).msgFirst [] := by
        rw [none]
        exact .nil
      exact ⟨⟨chain, last⟩, qnum⟩
    placed := by
      intro place h
      cases place with
      | free => simp [Ledger.Holds, l]
      | queue q => simp [Ledger.Holds, l]
      | hand slot => simp [Ledger.Holds, l]
    bare := fun _ _ => rfl
    queueText := fun q h member => by simp [l] at member
    handText := fun slot draft held => by cases held
    apart := fun h h' unit has _ => absurd has (bare h unit)
    room := fun h unit has => absurd has (bare h unit)
    table
    within }
  refine ⟨l, ⟨sound, fun q => (queues q).2.2.2.1, fun _ _ => rfl⟩, fun slot => by rw [users slot]; rfl,
    fun slot => by rw [users slot]; trivial, fun slot slot' q holds => ?_⟩
  rw [users slot] at holds
  cases holds

theorem reaches_conserved (reached : Reaches (System.Boot info) (Step info) (fun _ _ => True) s) :
    ∃ l, Conserved info s l :=
  reached.invariant (fun _ boot => boot_conserved boot) fun _ _ _ ⟨_, conserved⟩ step _ => step_conserved conserved step

/-! ## What the tables say -/

/-- The bytes on a queue fit an `ulong`: a message with text has a segment, and no
two have the same one. -/
theorem Sound.bytes_bound (sound : Sound info k l) : bytes k (l.queue q) < 4294967296 := by
  let low (h : Nat) : Nat := (l.text h).base
  let high (h : Nat) : Nat := (l.text h).base + (l.text h).size
  have filled : ((l.queue q).map fun h => high h - low h).sum ≤ info.msgseg :=
    sum_lengths_le (sound.queues q).chain.nodup (fun h _ h' _ unit has has' => sound.apart h h' unit has has')
      fun h _ unit has => ⟨(sound.room h unit has).1, (sound.room h unit has).2.1⟩
  have each : ∀ h ∈ l.queue q, (k.msgh h).msgTs ≤ 65535 * (high h - low h) := by
    intro h member
    obtain ⟨limit, text⟩ := sound.queueText q h member
    have size : high h - low h = btoq info (k.msgh h).msgTs := by simp [high, low, text, Msg.text]
    by_cases empty : (k.msgh h).msgTs = 0
    · omega
    · have positive := btoq_pos info (Nat.pos_of_ne_zero empty)
      rw [size]
      calc (k.msgh h).msgTs ≤ 65535 * 1 := by omega
        _ ≤ 65535 * btoq info (k.msgh h).msgTs := Nat.mul_le_mul_left _ positive
  have total : bytes k (l.queue q) ≤ 65535 * ((l.queue q).map fun h => high h - low h).sum := by
    rw [← List.sum_map_mul_left (l.queue q) (fun h => high h - low h) 65535]
    exact List.sum_le_sum each
  have segments := info.msgseg_fits
  calc bytes k (l.queue q) ≤ 65535 * ((l.queue q).map fun h => high h - low h).sum := total
    _ ≤ 65535 * 32767 := Nat.mul_le_mul_left _ (by omega)
    _ < 4294967296 := by decide

end

/-- Where a header is: on the free list, on a queue in use, or in the hands of a
sender between taking it and queueing or returning it. -/
def System.At (info : Msginfo) (s : System) : Place → Nat → Prop
  | .free, h => ∃ list, Chain s.k.next s.k.msgfp list ∧ h ∈ list
  | .queue q, h => (s.k.msgque q).perm.allocated ∧ ∃ list, Chain s.k.next (s.k.msgque q).msgFirst list ∧ h ∈ list
  | .hand slot, h => ∃ draft, (s.proc slot).hand info = some draft ∧ draft.mp = h

/-- The segments of a message, counted from zero as `msg_spot` is. -/
def Msg.Has (info : Msginfo) (m : Msg) (segment : Int) : Prop :=
  m.msgSpot ≤ segment ∧ segment < m.msgSpot + btoq info m.msgTs

/-- A segment is in an entry of the map, whose units count from one. -/
def FreeSegment (map : Rmap.Map) (segment : Int) : Prop :=
  ∃ entry ∈ map.entries, entry.mAddr ≤ segment + 1 ∧ segment + 1 < entry.mAddr + entry.mSize

section
variable {info : Msginfo} {s : System} {l : Ledger} {q h : Nat} {segment : Int}

theorem Conserved.at_iff (conserved : Conserved info s l) (place : Place) :
    s.At info place h ↔ l.Holds place h := by
  cases place with
  | free =>
    constructor
    · rintro ⟨list, chain, member⟩
      rwa [chain.unique conserved.accounted.sound.freeChain] at member
    · exact fun member => ⟨_, conserved.accounted.sound.freeChain, member⟩
  | queue q =>
    have listed := conserved.accounted.sound.queues q
    constructor
    · rintro ⟨_, list, chain, member⟩
      rwa [chain.unique listed.chain] at member
    · intro member
      refine ⟨?_, _, listed.chain, member⟩
      by_contra free
      rw [Ledger.Holds, conserved.accounted.idle q free] at member
      cases member
  | hand slot =>
    simp only [System.At, Ledger.Holds, conserved.hands slot]

theorem Sound.text_of_has {k : Kernel} (sound : Sound info k l) (member : h ∈ l.queue q)
    (has : (k.msgh h).Has info segment) : (l.text h).Has (segment + 1).toNat ∧ 0 ≤ segment := by
  obtain ⟨_, text⟩ := sound.queueText q h member
  have positive : 0 < btoq info (k.msgh h).msgTs := by
    obtain ⟨low, high⟩ := has
    omega
  -- The first unit is positive, so `msg_spot` did not wrap.
  have start := (sound.room h (l.text h).base ⟨le_rfl, by rw [text]; simp only [Msg.text]; omega⟩).1
  rw [text] at start ⊢
  simp only [Msg.text, Span.Has] at start ⊢
  obtain ⟨low, high⟩ := has
  omega

theorem Sound.free_of_freeSegment {k : Kernel} (sound : Sound info k l) (free : FreeSegment k.msgmap segment)
    (positive : 0 ≤ segment) : Rmap.Free l.live (segment + 1).toNat := by
  obtain ⟨entry, member, low, high⟩ := free
  rw [sound.table.entries] at member
  rcases List.mem_append.mp member with member | member
  · refine ⟨entry, member, by omega, ?_⟩
    simp only [Rmap.Entry.stop]
    omega
  · obtain rfl := List.eq_of_mem_replicate member
    simp only at low high
    omega

/-- Message queues lose nothing: a queue counts its messages and their bytes and knows
its last one, every header is in one place, and every segment has at most one use. -/
theorem messages_conserved (reached : Reaches (System.Boot info) (Step info) (fun _ _ => True) s) :
    (∀ q, (s.k.msgque q).perm.allocated → ∃ list, Chain s.k.next (s.k.msgque q).msgFirst list ∧
      (s.k.msgque q).msgQnum = list.length ∧ (s.k.msgque q).msgLast = list.getLast? ∧
      (s.k.msgque q).msgCbytes = (list.map fun h => (s.k.msgh h).msgTs).sum) ∧
    (∀ h, h < info.msgtql → ∃! place, s.At info place h) ∧
    (∀ q q' h h', s.At info (.queue q) h → s.At info (.queue q') h' → h ≠ h' → ∀ segment,
      (s.k.msgh h).Has info segment → ¬ (s.k.msgh h').Has info segment) ∧
    ∀ q h, s.At info (.queue q) h → ∀ segment, (s.k.msgh h).Has info segment → ¬ FreeSegment s.k.msgmap segment := by
  obtain ⟨l, conserved⟩ := reaches_conserved reached
  have sound := conserved.accounted.sound
  refine ⟨fun q _ => ⟨l.queue q, (sound.queues q).chain, ?_, (sound.queues q).last, ?_⟩, fun h inside => ?_, ?_, ?_⟩
  · have length := sound.queue_length (q := q)
    have limit := info.msgtql_fits
    rw [(sound.queues q).qnum, toUlong]
    exact Nat.mod_eq_of_lt (by omega)
  · rw [conserved.accounted.cbytes q, toUlong]
    exact Nat.mod_eq_of_lt sound.bytes_bound
  · have single := sound.placed.existsUnique inside
    simpa only [conserved.at_iff] using single
  · intro q q' h h' first second differ segment has has'
    obtain ⟨unit, _⟩ := sound.text_of_has ((conserved.at_iff (.queue q)).mp first) has
    obtain ⟨unit', _⟩ := sound.text_of_has ((conserved.at_iff (.queue q')).mp second) has'
    exact differ (sound.apart h h' _ unit unit')
  · intro q h queued segment has free
    obtain ⟨unit, positive⟩ := sound.text_of_has ((conserved.at_iff (.queue q)).mp queued) has
    exact (sound.room h _ unit).2.2 (sound.free_of_freeSegment free positive)

/-- The system of `master.d/msg` after `msginit`. -/
def System.shipped : System where
  k := {
    msgh := fun h => ⟨if h + 1 < 40 then some (h + 1) else none, 0, 0, 0⟩
    msgque := fun _ => ⟨⟨0, 0, 0, 0, 0, 0, 0⟩, none, none, 0, 0, 0, 0, 0⟩
    msglock := fun _ => false
    msgfp := some 0
    msgmap := ⟨97, false, ⟨1024, 1⟩ :: List.replicate 98 ⟨0, 0⟩⟩ }
  proc := fun _ => .user

theorem shipped_boot : System.shipped.Boot Msginfo.shipped :=
  ⟨rfl, fun _ => rfl, fun _ => ⟨fun used => used (Nat.zero_and _), rfl, rfl, rfl, rfl⟩, fun _ => rfl, ⟨false, rfl⟩, fun _ => rfl⟩

def root : Caller := ⟨⟨0, 0, []⟩, 1⟩

/-- A message of twenty bytes has been sent. -/
theorem messages_conserved_sent : ∃ s, Reaches (System.Boot Msginfo.shipped) (Step Msginfo.shipped) (fun _ _ => True) s ∧
    (s.k.msgque 0).msgQnum = 1 ∧ (s.k.msgque 0).msgCbytes = 20 ∧ s.k.msgfp = some 1 ∧
    ∃! place, s.At Msginfo.shipped place 0 := by
  have booted : Reaches (System.Boot Msginfo.shipped) (Step Msginfo.shipped) (fun _ _ => True) System.shipped :=
    .start shipped_boot
  have opened := booted.next (@Step.msgget _ _ 0 root.cr 0 0 rfl) trivial
  have called := opened.next (@Step.call _ _ 0 root (.snd 0 20 false) rfl) trivial
  have typed := called.next ((@Step.turn _ _ 0) rfl rfl) trivial
  have filled := typed.next ((@Step.copied _ _ 0) false 1 ⟨0, 0, 0, 0⟩ rfl rfl) trivial
  have sent := filled.next ((@Step.copied _ _ 0) false 1 ⟨0, 0, 0, 0⟩ rfl rfl) trivial
  exact ⟨_, sent, rfl, rfl, rfl, (messages_conserved sent).2.1 0 (by decide)⟩

end

end Svr4.Message
