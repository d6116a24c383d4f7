import Svr4.Kernel.Streams.Removal

/-! `getq` beside `rmvq`: it is the removal of the first message, except where it reads a
variable that its inner block hides.
-/

namespace Svr4.Streams

attribute [local simp] Kernel.setQueue Kernel.setMsg

/-! ## Flags -/

section
variable {mask other flags : Nat}

theorem testBit_clear (i : Nat) : (clear mask flags).testBit i = (flags.testBit i && !mask.testBit i) := by
  rw [clear, Nat.testBit_xor, Nat.testBit_and]
  cases flags.testBit i <;> cases mask.testBit i <;> rfl

theorem clear_clear : clear mask (clear other flags) = clear other (clear mask flags) := by
  refine Nat.eq_of_testBit_eq fun i => ?_
  simp only [testBit_clear]
  cases flags.testBit i <;> cases mask.testBit i <;> cases other.testBit i <;> rfl

theorem testBit_apart (apart : mask &&& other = 0) (i : Nat) : (mask.testBit i && other.testBit i) = false := by
  rw [← Nat.testBit_and, apart, Nat.zero_testBit]

theorem clear_and (apart : mask &&& other = 0) : clear mask flags &&& other = flags &&& other := by
  refine Nat.eq_of_testBit_eq fun i => ?_
  have here := testBit_apart apart i
  rw [Nat.testBit_and, Nat.testBit_and, testBit_clear]
  cases first : mask.testBit i
  · simp
  · rw [first] at here
    simp [show other.testBit i = false from here]

theorem clear_or (apart : mask &&& other = 0) : clear mask (flags ||| other) = clear mask flags ||| other := by
  refine Nat.eq_of_testBit_eq fun i => ?_
  have here := testBit_apart apart i
  rw [Nat.testBit_or, testBit_clear, testBit_clear, Nat.testBit_or]
  cases first : mask.testBit i
  · simp
  · rw [first] at here
    simp [show other.testBit i = false from here]

theorem or_and (apart : other &&& mask = 0) : (flags ||| other) &&& mask = flags &&& mask := by
  refine Nat.eq_of_testBit_eq fun i => ?_
  have here := testBit_apart apart i
  rw [Nat.testBit_and, Nat.testBit_and, Nat.testBit_or, Bool.and_or_distrib_right, here, Bool.or_false]

end

/-! ## Back queues -/

/-- The streams go through the same queues. -/
def Alike (k k' : Kernel) : Prop :=
  ∀ q, (k'.queue q).qFlag &&& qreadr = (k.queue q).qFlag &&& qreadr ∧ (k'.queue q).qNext = (k.queue q).qNext ∧
    (k'.queue q).qiSrvp = (k.queue q).qiSrvp

section
variable {k k' : Kernel} (alike : Alike k k')
include alike

theorem Alike.otherq : otherq k' = otherq k := by
  funext q
  rw [Streams.otherq, Streams.otherq, (alike q).1]

theorem Alike.backq (q : Nat) : backq k' q = backq k q := by
  rw [Streams.backq, Streams.backq, alike.otherq, (alike _).2.1]

theorem Alike.nearest (fuel q : Nat) : nearest k' fuel q = nearest k fuel q := by
  induction fuel generalizing q with
  | zero => rfl
  | succ fuel ih =>
    have service (q : Nat) : (k'.queue q).qiSrvp = (k.queue q).qiSrvp := (alike q).2.2
    simp only [Streams.nearest, alike.backq, service, ih]

end

/-! ## Clearing QWANTR -/

/-- The queue is being read. -/
def Queue.read (qp : Queue) : Queue := { qp with qFlag := clear qwantr qp.qFlag }

def clearWantr (q : Nat) (k : Kernel) : Kernel := k.setQueue q Queue.read

section
variable {nQueue q p pri i : Nat} {k : Kernel}

theorem clearWantr_queue : (clearWantr q k).queue p = if p = q then (k.queue p).read else k.queue p := by
  by_cases same : p = q
  · subst same
    simp [clearWantr]
  · simp [clearWantr, same]

theorem clearWantr_same {α : Type} {value : Queue → α} (same : ∀ qp : Queue, value qp.read = value qp) :
    value ((clearWantr q k).queue p) = value (k.queue p) := by
  rw [clearWantr_queue]
  split
  · exact same _
  · rfl

theorem setQueue_clearWantr {value : Queue → Queue} (commutes : ∀ qp : Queue, value qp.read = (value qp).read) :
    (clearWantr q k).setQueue p value = clearWantr q (k.setQueue p value) := by
  by_cases same : p = q
  · subst same
    simp [clearWantr, commutes]
  · simp [clearWantr, same, Ne.symm same, Function.update_comm same]

theorem setBand_clearWantr {value : Qband → Qband} :
    (clearWantr q k).setBand p i value = clearWantr q (k.setBand p i value) :=
  setQueue_clearWantr fun _ => rfl

theorem alike_clearWantr : Alike k (clearWantr q k) := fun _ =>
  ⟨(@clearWantr_same _ _ _ _ (fun qp => qp.qFlag &&& qreadr)) fun _ => clear_and (by decide), clearWantr_same fun _ => rfl,
    clearWantr_same fun _ => rfl⟩

theorem qenable_clearWantr : qenable p (clearWantr q k) = clearWantr q (qenable p k) := by
  have service : ((clearWantr q k).queue p).qiSrvp = (k.queue p).qiSrvp := clearWantr_same fun _ => rfl
  have flag : ((clearWantr q k).queue p).qFlag &&& qenab = (k.queue p).qFlag &&& qenab :=
    (@clearWantr_same _ _ _ _ (fun qp => qp.qFlag &&& qenab)) fun _ => clear_and (by decide)
  have marked := (@setQueue_clearWantr q p k (fun qp => { qp with qFlag := qp.qFlag ||| qenab }))
    fun qp => by simp [Queue.read, clear_or (show qwantr &&& qenab = 0 by decide)]
  unfold qenable
  rw [service, flag]
  split
  · rfl
  · split
    · rfl
    · simp only [marked]
      rfl

theorem addBands_clearWantr (n : Nat) :
    addBands p n (clearWantr q k) = ((clearWantr q (addBands p n k).1), (addBands p n k).2) := by
  induction n generalizing k with
  | zero => rfl
  | succ n ih =>
    have memory : (clearWantr q k).zalloc = k.zalloc := rfl
    unfold addBands
    rw [memory]
    split
    · rfl
    · have added := (@setQueue_clearWantr q p ({ k with zalloc := k.zalloc - 1 }) (fun qp => { qp with qBandp := qp.qBandp ++ [qp.newband] })) fun qp => rfl
      rw [← ih, ← added]
      rfl

theorem needBand_clearWantr :
    needBand p pri (clearWantr q k) = ((clearWantr q (needBand p pri k).1), (needBand p pri k).2) := by
  have length : ((clearWantr q k).queue p).qBandp.length = (k.queue p).qBandp.length :=
    (@clearWantr_same _ _ _ _ (fun qp => qp.qBandp.length)) fun _ => rfl
  rw [needBand, needBand, length, addBands_clearWantr]

theorem setqback_clearWantr : setqback p pri (clearWantr q k) = clearWantr q (setqback p pri k) := by
  unfold setqback
  split
  · simp only [needBand_clearWantr]
    by_cases found : (needBand p pri k).2 = true
    · rw [if_pos found, if_pos found]
      exact setBand_clearWantr
    · rw [if_neg found, if_neg found]
  · exact setQueue_clearWantr fun qp => by simp [Queue.read, clear_or (show qwantr &&& qback = 0 by decide)]

theorem backenable_clearWantr : backenable nQueue p pri (clearWantr q k) = clearWantr q (backenable nQueue p pri k) := by
  unfold backenable
  rw [alike_clearWantr.nearest]
  cases nearest k nQueue p with
  | none => rfl
  | some back =>
    change setqback back pri (qenable back (clearWantr q k)) = clearWantr q (setqback back pri (qenable back k))
    rw [qenable_clearWantr, setqback_clearWantr]

end

/-! ## The first message -/

/-- The first message takes its band below the low water mark, and a writer waits for
that. -/
def Crossing (k : Kernel) (q mp : Nat) : Prop :=
  (k.msg mp).bBand ≠ 0 ∧ ∃ qbp, (k.queue q).qBandp[(k.msg mp).bBand - 1]? = some qbp ∧ qbp.qbFlag &&& qbWantw ≠ 0 ∧
    qbp.qbLowat ≤ qbp.qbCount ∧ subBlocks qbp.qbCount (k.msg mp).blocks < qbp.qbLowat

section
variable {nMsg nQueue q mp : Nat} {k : Kernel} {list right : List Nat} {qbp : Qband}

/-- The stores of `getq` that take the first message off. -/
def shift (q mp : Nat) (k : Kernel) : Kernel :=
  let m := k.msg mp
  let k := k.setQueue q fun qp => { qp with qFirst := m.bNext, qLast := if m.bNext = none then none else qp.qLast }
  match m.bNext with
  | none => k
  | some p => k.setMsg p fun m => { m with bPrev := none }

/-- What `rmvq` stores into the list. -/
theorem unlink_shift (front : k.prev mp = none) :
    unlink q mp k = (shift q mp k).setMsg mp fun m => { m with bNext := none, bPrev := none } := by
  simp only [unlink, shift, show (k.msg mp).bPrev = none from front]
  cases after : (k.msg mp).bNext with
  | none => simp
  | some p => simp

theorem getq_zero (head : (k.queue q).qFirst = some mp) (front : k.prev mp = none) (zero : (k.msg mp).bBand = 0) :
    ∃ k', rmvq nQueue q mp k = some k' ∧ getq nQueue q k = some (some mp, clearWantr q k') := by
  let k₁ := unlink q mp k
  let k₂ := (lowerQueue q (k.msg mp).blocks k₁).1
  let k₃ := k₂.setQueue q fun qp => { qp with qFlag := clear qwantw qp.qFlag }
  have list : k₁ = (shift q mp k).setMsg mp fun m => { m with bNext := none, bPrev := none } := unlink_shift front
  have queue : k₁.queue q = (shift q mp k).queue q := by rw [list]; rfl
  have rest : clearWantr q k₂ = (clearWantr q (lowerQueue q (k.msg mp).blocks (shift q mp k)).1).setMsg mp fun m =>
      { m with bNext := none, bPrev := none } := by
    simp only [k₂, list]
    rfl
  have same : (lowerQueue q (k.msg mp).blocks k₁).2 = (lowerQueue q (k.msg mp).blocks (shift q mp k)).2 := by
    simp only [lowerQueue, queue]
  by_cases low : (lowerQueue q (k.msg mp).blocks k₁).2 = true ∧ (k₁.queue q).qFlag &&& qwantw ≠ 0
  · refine ⟨backenable nQueue q (k.msg mp).bBand k₃, ?_, ?_⟩
    · simp only [rmvq, zero, ne_eq, not_true_eq_false, if_false]
      exact if_pos low
    · have cleared : (clearWantr q k₂).setQueue q (fun qp => { qp with qFlag := clear qwantw qp.qFlag }) =
          clearWantr q k₃ := setQueue_clearWantr fun qp => by simp [Queue.read, clear_clear]
      rw [← backenable_clearWantr, ← cleared, rest]
      rw [same, queue] at low
      simp only [getq, head, zero, if_true]
      exact if_pos low
  · refine ⟨k₂, ?_, ?_⟩
    · simp only [rmvq, zero, ne_eq, not_true_eq_false, if_false]
      exact if_neg low
    · rw [rest]
      rw [same, queue] at low
      simp only [getq, head, zero, if_true]
      exact if_neg low

theorem modify_congr {bands : List Qband} {i : Nat} {f g : Qband → Qband} (entry : bands[i]? = some qbp)
    (same : f qbp = g qbp) : bands.modify i f = bands.modify i g := by
  refine List.ext_getElem? fun j => ?_
  rw [List.getElem?_modify, List.getElem?_modify]
  by_cases here : i = j
  · subst here
    simp [entry, same]
  · simp [here]

/-- The stores of `getq` into the ends of the band. -/
def shiftEnds (next : Option Nat) (qbp : Qband) : Qband :=
  if qbp.qbFirst = qbp.qbLast then { qbp with qbFirst := none, qbLast := none } else { qbp with qbFirst := next }

theorem shiftEnds_eq (queued : Queued nMsg k q (mp :: right)) (positive : (k.msg mp).bBand ≠ 0)
    (marks : Marks k (mp :: right) (k.msg mp).bBand qbp) : shiftEnds (k.next mp) qbp = rmvqEnds k mp qbp := by
  obtain ⟨first, last⟩ := (@rmvqEnds_marks _ _ _ _ []) queued positive marks
  obtain ⟨prev, next, absent⟩ := (@neighbours _ _ _ []) queued.doubly
  have away : mp ∉ k.band (k.msg mp).bBand right := fun member => absent (List.mem_of_mem_filter member)
  obtain ⟨head, final⟩ := marks
  rw [Kernel.band, List.filter_cons_of_pos (by simp)] at head final
  have ends : rmvqEnds k mp qbp = { qbp with
      qbFirst := (k.band (k.msg mp).bBand right).head?, qbLast := (k.band (k.msg mp).bBand right).getLast? } := by
    rw [← List.nil_append right, ← first, ← last]
    rfl
  rw [ends, shiftEnds, head, final]
  rcases (k.band (k.msg mp).bBand right).eq_nil_or_concat with none | ⟨rest, m, behind⟩
  · simp [none]
  · -- The band goes on behind the message, so with the next message of the queue.
    have some : (k.band (k.msg mp).bBand right).head? = k.next mp := by
      have found : (rmvqEnds k mp qbp).qbFirst = k.ofBand (k.msg mp).bBand (k.next mp) := if_pos head
      rw [ends] at found
      change (k.band (k.msg mp).bBand right).head? = k.ofBand (k.msg mp).bBand (k.next mp) at found
      cases after : k.next mp with
      | none =>
        rw [after] at found
        exact found
      | some p =>
        rw [after] at found
        by_cases same : (k.msg mp).bBand = (k.msg p).bBand
        · rw [found]
          simp [Kernel.ofBand, same]
        · rw [behind] at found
          simp [Kernel.ofBand, same] at found
    have differ : m ≠ mp := by
      rintro rfl
      exact away (by rw [behind]; simp)
    rw [some]
    simp [behind, Ne.symm differ, List.getLast?_cons]

theorem shift_bandp : ((shift q mp k).queue q).qBandp = (k.queue q).qBandp := by
  cases after : (k.msg mp).bNext with
  | none => simp [shift, after]
  | some p => simp [shift, after]

theorem shift_setBand {i : Nat} {value : Qband → Qband} :
    shift q mp (k.setBand q i value) = (shift q mp k).setBand q i value := by
  simp only [shift, show (k.setBand q i value).msg = k.msg from rfl]
  cases (k.msg mp).bNext with
  | none => simp [Kernel.setBand]
  | some p => simp [Kernel.setBand]

/-- The first message of a band: `rmvq` after all its stores but those for the writer. -/
theorem getq_band (queued : Queued nMsg k q (mp :: right)) (positive : (k.msg mp).bBand ≠ 0)
    (entry : (k.queue q).qBandp[(k.msg mp).bBand - 1]? = some qbp) :
    ∃ k₂ low, (low = true ↔ qbp.qbLowat ≤ qbp.qbCount ∧ subBlocks qbp.qbCount (k.msg mp).blocks < qbp.qbLowat) ∧
      (¬ (low = true ∧ qbp.qbFlag &&& qbWantw ≠ 0) →
        rmvq nQueue q mp k = some k₂ ∧ getq nQueue q k = some (some mp, clearWantr q k₂)) ∧
      (low = true ∧ qbp.qbFlag &&& qbWantw ≠ 0 → getq nQueue q k = none) := by
  have head : (k.queue q).qFirst = some mp := queued.doubly.first_eq
  obtain ⟨front, _, _⟩ := (@neighbours _ _ _ []) queued.doubly
  have index : (k.msg mp).bBand - 1 + 1 = (k.msg mp).bBand := by omega
  have core := queued.tallied.bands _ qbp entry
  rw [index] at core
  have ends := shiftEnds_eq queued positive ⟨congrArg (·.2.1) core, congrArg (·.2.2) core⟩
  let i := (k.msg mp).bBand - 1
  let k₁ := unlink q mp (k.setBand q i (rmvqEnds k mp))
  let k₂ := (lowerBand q i qbp (k.msg mp).blocks k₁).1
  have bands : (shift q mp k).setBand q i (rmvqEnds k mp) = (shift q mp k).setBand q i (shiftEnds (k.next mp)) := by
    simp only [Kernel.setBand, Kernel.setQueue, shift_bandp, i, modify_congr entry ends]
  have list : k₁ = ((shift q mp k).setBand q i (shiftEnds (k.next mp))).setMsg mp fun m =>
      { m with bNext := none, bPrev := none } := by
    rw [← bands, ← shift_setBand]
    exact unlink_shift front
  have rest : clearWantr q k₂ = (clearWantr q (lowerBand q i qbp (k.msg mp).blocks
      ((shift q mp k).setBand q i (shiftEnds (k.next mp)))).1).setMsg mp fun m => { m with bNext := none, bPrev := none } := by
    simp only [k₂, list]
    rfl
  have found : ((shift q mp k).queue q).qBandp[i]? = some qbp := by rw [shift_bandp, entry]
  refine ⟨k₂, (lowerBand q i qbp (k.msg mp).blocks k₁).2, ?_, fun quiet => ⟨?_, ?_⟩, fun low => ?_⟩
  · simp [lowerBand]
  · simp only [rmvq, positive, ne_eq, not_false_eq_true, if_true, entry, Option.bind_eq_bind, Option.bind_some]
    exact if_neg quiet
  · rw [rest]
    simp only [getq, head, positive, if_false]
    exact (congrArg (fun record => record >>= _) found).trans (if_neg quiet)
  · simp only [getq, head, positive, if_false]
    exact (congrArg (fun record => record >>= _) found).trans (if_pos low)

theorem getq_first (queued : Queued nMsg k q (mp :: right)) (defined : ¬ Crossing k q mp) :
    ∃ k', rmvq nQueue q mp k = some k' ∧ getq nQueue q k = some (some mp, clearWantr q k') := by
  by_cases zero : (k.msg mp).bBand = 0
  · obtain ⟨front, _, _⟩ := (@neighbours _ _ _ []) queued.doubly
    exact getq_zero queued.doubly.first_eq front zero
  · obtain ⟨qbp, entry⟩ : ∃ qbp, (k.queue q).qBandp[(k.msg mp).bBand - 1]? = some qbp := by
      have within := queued.tallied.within mp (by simp)
      exact ⟨_, List.getElem?_eq_getElem (by omega)⟩
    obtain ⟨k₂, low, crosses, agree, _⟩ := getq_band queued zero entry
    exact ⟨k₂, agree fun both => defined ⟨zero, qbp, entry, both.2, crosses.mp both.1⟩⟩

theorem getq_crossing (queued : Queued nMsg k q (mp :: right)) (crossing : Crossing k q mp) : getq nQueue q k = none := by
  obtain ⟨positive, qbp, entry, wanted, crosses⟩ := crossing
  obtain ⟨_, low, iff, _, undefined⟩ := getq_band queued positive entry
  exact undefined ⟨iff.mpr crosses, wanted⟩

/-- An empty queue that a writer waits for, with a back queue to enable. -/
def Starved (nQueue : Nat) (k : Kernel) (q : Nat) : Prop :=
  (k.queue q).qCount < (k.queue q).qLowat ∧ (k.queue q).qFlag &&& qwantw ≠ 0 ∧ nearest k nQueue q ≠ none

theorem getq_empty (empty : (k.queue q).qFirst = none) (defined : ¬ Starved nQueue k q) :
    ∃ k', getq nQueue q k = some (none, k') ∧ Quiet k k' := by
  let k₁ := k.setQueue q fun qp => { qp with qFlag := qp.qFlag ||| qwantr }
  let k₂ := k₁.setQueue q fun qp => { qp with qFlag := clear qwantw qp.qFlag }
  have quiet₁ : Quiet k k₁ := quiet_setQueue (rep_flags _)
  have quiet₂ : Quiet k₁ k₂ := quiet_setQueue (rep_flags _)
  have flags : (k₁.queue q).qFlag &&& qwantw = (k.queue q).qFlag &&& qwantw := by
    simp only [k₁, Kernel.setQueue, Function.update_self]
    exact or_and (by decide)
  have alike : Alike k k₂ := by
    intro p
    by_cases same : p = q
    · subst same
      simp only [k₂, k₁, Kernel.setQueue, Function.update_self, and_true]
      rw [clear_and (by decide), or_and (by decide)]
    · simp [k₂, k₁, same]
  simp only [getq, empty]
  split
  · rename_i wanted
    have none : nearest k₂ nQueue q = none := by
      rw [alike.nearest]
      by_contra back
      refine defined ⟨wanted.1, ?_, back⟩
      rw [← flags]
      exact wanted.2
    rw [none]
    exact ⟨k₂, rfl, quiet₁.trans quiet₂⟩
  · exact ⟨k₁, rfl, quiet₁⟩

/-- `getq` does what `rmvq` does with the first message, and clears QWANTR, exactly if no
waiting writer's band falls below its low water mark. -/
theorem getq_agrees (queued : Queued nMsg k q list) (first : (k.queue q).qFirst = some mp) :
    (∃ k', rmvq nQueue q mp k = some k' ∧ getq nQueue q k = some (some mp, clearWantr q k')) ↔ ¬ Crossing k q mp := by
  obtain ⟨right, rfl⟩ : ∃ right, list = mp :: right := by
    rw [queued.doubly.first_eq] at first
    exact List.head?_eq_some_iff.mp first
  constructor
  · rintro ⟨k', _, got⟩ crossing
    rw [getq_crossing queued crossing] at got
    cases got
  · exact getq_first queued

/-- One message of one byte on a band of its own, with the flags given. -/
def single (flags : Nat) : Kernel where
  msg _ := ⟨none, none, 1, mData, [1]⟩
  queue q := if q = 0 then ⟨some 0, some 0, none, 0, qreadr, 1, 1, [⟨1, some 0, some 0, 1, 1, flags⟩], true⟩
    else ⟨none, none, none, 0, 0, 1, 1, [], true⟩
  qrun := []
  qrunflag := false
  zalloc := 0

theorem single_queued (flags : Nat) : Queued 1 (single flags) 0 [0] := by
  refine ⟨⟨.cons .nil, .cons .nil⟩, ⟨List.pairwise_singleton _ _, ?_, ?_, ?_, rfl, fun i qbp found => ?_⟩⟩
  · simp [single, Msgb.Valid, mData, qpctl]
  · simp [single]
  · simp
  · cases i with
    | zero =>
      obtain rfl := Option.some.inj found
      rfl
    | succ i => cases found

theorem getq_agrees_full : Queued 1 (single qbFull) 0 [0] ∧
    ∃ k', rmvq 2 0 0 (single qbFull) = some k' ∧ getq 2 0 (single qbFull) = some (some 0, clearWantr 0 k') := by
  refine ⟨single_queued qbFull, (getq_agrees (single_queued qbFull) rfl).mpr ?_⟩
  rintro ⟨_, qbp, found, wanted, _⟩
  obtain rfl := Option.some.inj found
  exact wanted (by decide)

/-- A writer waits for the band of the only message. -/
theorem getq_waiting : Queued 1 (single (qbFull ||| qbWantw)) 0 [0] ∧ getq 2 0 (single (qbFull ||| qbWantw)) = none ∧
    ¬ ∃ k', rmvq 2 0 0 (single (qbFull ||| qbWantw)) = some k' ∧
      getq 2 0 (single (qbFull ||| qbWantw)) = some (some 0, clearWantr 0 k') := by
  have undefined : getq 2 0 (single (qbFull ||| qbWantw)) = none := rfl
  refine ⟨single_queued _, undefined, ?_⟩
  rintro ⟨k', _, got⟩
  rw [undefined] at got
  cases got

end

end Svr4.Streams
