import Svr4.Kernel.Streams.Getq

/-! `flushq`: the queue is emptied, and the messages that stay are put back in order. -/

namespace Svr4.Streams

attribute [local simp] Kernel.setQueue

/-- A call on queue `q` changed no other queue and of the messages only those listed,
which keep their keys. -/
structure Moved (k k' : Kernel) (q : Nat) (touched : List Nat) : Prop where
  queues : ∀ other, other ≠ q → Rep (k.queue other) (k'.queue other)
  keys : ∀ m ∈ touched, k'.key m = k.key m
  outside : ∀ m, m ∉ touched → k'.msg m = k.msg m

/-- The messages that `flushq` puts back. -/
abbrev Kernel.stays (k : Kernel) (flag : Bool) (m : Nat) : Bool := ¬ (flag = true ∨ datamsg (k.msg m).dbType)

section
variable {nMsg nQueue q mp fuel : Nat} {k k' k'' : Kernel} {flag : Bool} {list kept rest touched : List Nat} {head : Option Nat}

theorem Moved.refl : Moved k k q touched := ⟨fun _ _ => .refl, fun _ _ => rfl, fun _ _ => rfl⟩

theorem Moved.trans (one : Moved k k' q touched) (two : Moved k' k'' q touched) : Moved k k'' q touched :=
  ⟨fun other differ => (one.queues other differ).trans (two.queues other differ),
    fun m member => (two.keys m member).trans (one.keys m member),
    fun m away => (two.outside m away).trans (one.outside m away)⟩

theorem Moved.mono {sub : List Nat} (moved : Moved k k' q sub) (within : sub ⊆ touched) : Moved k k' q touched := by
  refine ⟨moved.queues, fun m _ => ?_, fun m away => moved.outside m fun member => away (within member)⟩
  by_cases member : m ∈ sub
  · exact moved.keys m member
  · rw [Kernel.key, moved.outside m member]

theorem Quiet.moved (quiet : Quiet k k') : Moved k k' q touched := by
  refine ⟨fun other _ => quiet.rep other, fun m _ => ?_, fun m _ => ?_⟩
  · rw [Kernel.key, quiet.msg]
  · rw [quiet.msg]

theorem Framed.moved (framed : Framed k k' q mp list) (key : k'.key mp = k.key mp) (here : mp ∈ touched)
    (sub : list ⊆ touched) : Moved k k' q touched := by
  refine ⟨framed.queues, fun m _ => ?_, fun m away => ?_⟩
  · by_cases same : m = mp
    · rw [same, key]
    · by_cases member : m ∈ list
      · exact framed.loads.key member
      · rw [Kernel.key, framed.outside m same member]
  · exact framed.outside m (fun same => away (same ▸ here)) fun member => away (sub member)

/-- A message that is not above any goes to the end. -/
theorem putq_last (queued : Queued nMsg k q kept) (known : mp < nMsg) (fresh : mp ∉ kept) (valid : (k.msg mp).Valid)
    (within : (k.msg mp).bBand ≤ (k.queue q).qBandp.length) (least : ∀ m ∈ kept, k.key mp ≤ k.key m) :
    ∃ k', putq nMsg q mp k = some (k', true) ∧ Queued nMsg k' q (kept ++ [mp]) ∧ Framed k k' q mp kept ∧
      k'.key mp = k.key mp := by
  obtain ⟨k', done, result, framed, key, _, on, room⟩ := put_queued putq_putter queued known fresh valid.2
  obtain rfl := room within
  obtain ⟨left, right, fits, queued'⟩ := on rfl
  cases right with
  | nil =>
    have whole : kept = left := by rw [fits.split, List.append_nil]
    rw [← whole] at queued'
    exact ⟨k', result, queued', framed, key⟩
  | cons m right =>
    have member : m ∈ kept := by
      rw [fits.split]
      simp
    exact absurd (least m member) (fits.low m (by simp))

/-- The queue without its messages, and nothing counted. -/
def emptied (q : Nat) (k : Kernel) : Kernel := k.setQueue q fun qp =>
  { qp with
    qFirst := none
    qLast := none
    qCount := 0
    qBandp := qp.qBandp.map fun qbp =>
      { qbp with qbFirst := none, qbLast := none, qbCount := 0, qbFlag := clear qbFull qbp.qbFlag }
    qFlag := clear qfull qp.qFlag }

theorem emptied_queued : Queued nMsg (emptied q k) q [] := by
  refine ⟨?_, ⟨.nil, by simp, by simp, by simp, ?_, fun i qbp found => ?_⟩⟩
  · have first : ((emptied q k).queue q).qFirst = none := by simp [emptied]
    have last : ((emptied q k).queue q).qLast = none := by simp [emptied]
    rw [first, last]
    exact .nil
  · have count : ((emptied q k).queue q).qCount = 0 := by simp [emptied]
    rw [count]
    rfl
  · simp only [emptied, Kernel.setQueue, Function.update_self, List.getElem?_map] at found
    obtain ⟨old, _, rfl⟩ := Option.map_eq_some_iff.mp found
    rfl

section
variable {motive : Kernel → List Nat → List Nat → Prop}
  (drop : ∀ {k mp kept rest}, motive k kept (mp :: rest) → motive k kept rest)
  (keep : ∀ {k k' mp kept rest}, motive k kept (mp :: rest) → Queued nMsg k q kept → (k.msg mp).Valid →
    putq nMsg q mp k = some (k', true) → Queued nMsg k' q (kept ++ [mp]) → Framed k k' q mp kept → k'.key mp = k.key mp →
    (∀ m ∈ rest, k'.msg m = k.msg m) → motive k' (kept ++ [mp]) rest)
include drop keep

/-- The loop of `flushq`: `kept` is on the queue again and `rest` is still to be seen.
What both ways through the loop keep holds at its end. -/
theorem requeue_queued (start : motive k kept rest) (queued : Queued nMsg k q kept) (chain : Chain k.next head rest) (nodup : (kept ++ rest).Nodup)
    (sorted : k.Sorted (kept ++ rest)) (valid : ∀ m ∈ rest, (k.msg m).Valid) (known : ∀ m ∈ rest, m < nMsg)
    (within : ∀ m ∈ rest, (k.msg m).bBand ≤ (k.queue q).qBandp.length) (enough : rest.length < fuel) :
    ∃ k', requeue nMsg q flag fuel head k = some k' ∧ Queued nMsg k' q (kept ++ rest.filter (k.stays flag)) ∧
      Moved k k' q (kept ++ rest) ∧ motive k' (kept ++ rest.filter (k.stays flag)) [] := by
  induction rest generalizing k kept head fuel with
  | nil =>
    obtain ⟨fuel, rfl⟩ := Nat.exists_eq_add_one.mpr enough
    obtain rfl : head = none := chain.head_eq
    exact ⟨k, rfl, by simpa using queued, .refl, by simpa using start⟩
  | cons mp rest ih =>
    obtain ⟨fuel, rfl⟩ := Nat.exists_eq_succ_of_ne_zero (Nat.ne_zero_of_lt enough)
    obtain rfl : head = some mp := chain.head_eq
    have tail : Chain k.next (k.next mp) rest := chain.tail
    have shorter : rest.length < fuel := by simpa using enough
    have single : mp ∉ kept ++ rest := (List.nodup_middle.mp nodup).notMem
    unfold requeue
    by_cases freed : flag = true ∨ datamsg (k.msg mp).dbType
    · obtain ⟨k', result, queued', moved, final⟩ := ih (drop start) queued tail (nodup.sublist (by simp))
        (sorted.sublist (by simp)) (fun m member => valid m (by simp [member])) (fun m member => known m (by simp [member]))
        (fun m member => within m (by simp [member])) shorter
      have left : (mp :: rest).filter (k.stays flag) = rest.filter (k.stays flag) :=
        List.filter_cons_of_neg (by simpa [Kernel.stays, or_iff_not_imp_left] using freed)
      rw [left]
      refine ⟨k', ?_, queued', ?_, final⟩
      · rw [if_pos freed]
        exact result
      · exact moved.mono fun m member => List.perm_middle.mem_iff.mpr (.tail _ member)
    · have least : ∀ m ∈ kept, k.key mp ≤ k.key m := fun m member =>
        (List.pairwise_append.mp sorted).2.2 m member mp (by simp)
      obtain ⟨k₁, put, queued₁, framed, key⟩ := putq_last queued (known mp (by simp))
        (fun member => single (by simp [member])) (valid mp (by simp)) (within mp (by simp)) least
      have same {m : Nat} (member : m ∈ rest) : k₁.msg m = k.msg m := by
        refine framed.outside m ?_ ?_
        · rintro rfl
          exact single (by simp [member])
        · intro before
          have apart := (List.nodup_append.mp nodup).2.2
          exact apart m before m (by simp [member]) rfl
      have moved₁ : Moved k k₁ q (kept ++ mp :: rest) := framed.moved key (by simp) (by simp)
      have regroup : kept ++ [mp] ++ rest = kept ++ mp :: rest := by simp
      have again := keep start queued (valid mp (by simp)) put queued₁ framed key fun m member => same member
      obtain ⟨k', result, queued', moved, final⟩ := ih again queued₁
        (tail.congr fun m member => by rw [Kernel.next, same member])
        (by rw [regroup]; exact nodup)
        (by
          rw [regroup]
          refine sorted.imp_of_mem fun {a b} first second less => ?_
          rw [moved₁.keys a first, moved₁.keys b second]
          exact less)
        (fun m member => by rw [same member]; exact valid m (by simp [member]))
        (fun m member => known m (by simp [member]))
        (fun m member => by
          rw [same member]
          exact Nat.le_trans (within m (by simp [member])) framed.longer)
        shorter
      have stays : rest.filter (k₁.stays flag) = rest.filter (k.stays flag) :=
        List.filter_congr fun m member => by rw [Kernel.stays, Kernel.stays, same member]
      have joined : kept ++ (mp :: rest).filter (k.stays flag) = kept ++ [mp] ++ rest.filter (k₁.stays flag) := by
        rw [List.filter_cons_of_pos (by simpa [Kernel.stays] using freed), ← stays]
        simp
      rw [regroup] at moved
      rw [joined]
      refine ⟨k', ?_, queued', moved₁.trans moved, final⟩
      rw [if_neg freed, put]
      exact result

theorem flushq_loop (queued : Queued nMsg k q list) (start : motive (emptied q k) [] list) :
    ∃ k', requeue nMsg q flag (nMsg + 1) (k.queue q).qFirst (emptied q k) = some k' ∧
      Queued nMsg k' q (list.filter (k.stays flag)) ∧ Moved k k' q list ∧ motive k' (list.filter (k.stays flag)) [] := by
  have away : Moved k (emptied q k) q list := by
    refine ⟨fun other differ => ?_, fun _ _ => rfl, fun _ _ => rfl⟩
    have same : (emptied q k).queue other = k.queue other := by simp [emptied, differ]
    rw [same]
    exact .refl
  have length := queued.lined.length_le
  obtain ⟨k', result, queued', moved, final⟩ := (@requeue_queued _ _ (nMsg + 1)) drop keep start emptied_queued
    queued.doubly.forward queued.doubly.nodup queued.tallied.sorted queued.tallied.valid queued.tallied.known
    (fun m member => by
      simp only [emptied, Kernel.setQueue, Function.update_self, List.length_map]
      exact queued.tallied.within m member)
    (by omega)
  exact ⟨k', result, queued', away.trans moved, final⟩

end

theorem quiet_setqbacks (pris : List Nat) : Quiet k (pris.foldl (fun k pri => setqback q pri k) k) := by
  induction pris generalizing k with
  | nil => exact .refl
  | cons pri pris ih => exact quiet_setqback.trans ih

/-- No writer waits for the bands that can be written. -/
def released (q : Nat) (k : Kernel) : Kernel := k.setQueue q fun qp =>
  { qp with
    qBandp := qp.qBandp.map fun qbp => if qbp.writable then { qbp with qbFlag := clear qbWantw qbp.qbFlag } else qbp
    qFlag := if qp.qFlag &&& qwantw ≠ 0 ∧ qp.qCount < qp.qLowat then clear qwantw qp.qFlag else qp.qFlag }

theorem released_quiet : Quiet k (released q k) := by
  refine quiet_setQueue ⟨rfl, rfl, rfl, 0, ?_⟩
  simp only [List.map_map, List.replicate_zero, List.append_nil]
  refine List.map_congr_left fun qbp _ => ?_
  simp only [Function.comp_apply]
  split <;> rfl

/-- The nearest back queue is told which bands can be written. -/
def tell (nQueue q : Nat) (qbf : Nat → Bool) (zero : Bool) (k : Kernel) : Kernel :=
  match nearest k nQueue q with
  | none => k
  | some back =>
    let k := qenable back k
    let k := ((List.range' 1 (k.queue back).qBandp.length).reverse.filter qbf).foldl (fun k pri => setqback back pri k) k
    if zero then setqback back 0 k else k

theorem tell_quiet {qbf : Nat → Bool} {zero : Bool} : Quiet k (tell nQueue q qbf zero k) := by
  rw [tell]
  split
  · exact .refl
  · rename_i back _
    have enabled := (@quiet_qenable back k).trans ((@quiet_setqbacks back _)
      ((List.range' 1 ((qenable back k).queue back).qBandp.length).reverse.filter qbf))
    split
    · exact enabled.trans quiet_setqback
    · exact enabled

/-- The bands above 0 that `flushq` finds writable. -/
def Queue.qbf (qp : Queue) (pri : Nat) : Bool := 0 < pri ∧ ((qp.qBandp[pri - 1]?).any fun qbp => qbp.writable)

/-- Band 0 is wanted and below its low water mark. -/
abbrev Queue.writable (qp : Queue) : Prop := qp.qFlag &&& qwantw ≠ 0 ∧ qp.qCount < qp.qLowat

theorem flushq_tells {after : Kernel} (loop : requeue nMsg q flag (nMsg + 1) (k.queue q).qFirst (emptied q k) = some after) :
    flushq nQueue nMsg q flag k = some (
      if (after.queue q).writable ∨ ((after.queue q).qBandp.any fun qbp => qbp.writable) then
        tell nQueue q (after.queue q).qbf (after.queue q).writable (released q after)
      else released q after) := by
  rw [emptied] at loop
  simp only [flushq, loop, Option.bind_eq_bind, Option.bind_some, tell, decide_eq_true_eq]
  split
  · change (match nearest (released q after) nQueue q with
      | none => some (released q after)
      | some back =>
        let k := qenable back (released q after)
        let k := ((List.range' 1 (k.queue back).qBandp.length).reverse.filter _).foldl (fun k pri => setqback back pri k) k
        some (if _ then setqback back 0 k else k)) = _
    cases nearest (released q after) nQueue q <;> rfl
  · rfl

theorem flushq_eq {after : Kernel} (loop : requeue nMsg q flag (nMsg + 1) (k.queue q).qFirst (emptied q k) = some after) :
    ∃ (qbf : Nat → Bool) (zero : Bool), flushq nQueue nMsg q flag k = some (
      if ((after.queue q).qFlag &&& qwantw ≠ 0 ∧ (after.queue q).qCount < (after.queue q).qLowat) ∨
          ((after.queue q).qBandp.any fun qbp => qbp.writable) then tell nQueue q qbf zero (released q after)
      else released q after) :=
  ⟨_, _, flushq_tells loop⟩

theorem flushq_queued (queued : Queued nMsg k q list) :
    ∃ k', flushq nQueue nMsg q flag k = some k' ∧ Queued nMsg k' q (list.filter (k.stays flag)) ∧ Moved k k' q list := by
  obtain ⟨k₁, loop, queued₁, moved, -⟩ := (@flushq_loop _ _ _ flag _ (fun _ _ _ => True)) id
    (fun _ _ _ _ _ _ _ _ => trivial) queued trivial
  obtain ⟨qbf, zero, result⟩ := (@flushq_eq _ nQueue _ _ _ _) loop
  -- What is left only reads the marks and enables a back queue.
  obtain ⟨k', finished, quiet⟩ : ∃ k', flushq nQueue nMsg q flag k = some k' ∧ Quiet k₁ k' := by
    refine ⟨_, result, ?_⟩
    split
    · exact released_quiet.trans tell_quiet
    · exact released_quiet
  exact ⟨k', finished, queued₁.congr (quiet.rep q) fun m _ => by rw [quiet.msg], moved.trans quiet.moved⟩

end

end Svr4.Streams
