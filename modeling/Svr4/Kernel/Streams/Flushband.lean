import Svr4.Kernel.Streams.Removal

/-! `flushband`: the messages of one priority band are taken off the queue. -/

namespace Svr4.Streams

/-- The messages of a band that are flushed. -/
def Msgb.flushed (flag : Bool) (pri : Nat) (m : Msgb) : Prop := m.bBand = pri ∧ (flag = true ∨ datamsg m.dbType)

instance (flag : Bool) (pri : Nat) (m : Msgb) : Decidable (m.flushed flag pri) := inferInstanceAs (Decidable (_ ∧ _))

section
variable (nMsg nQueue q pri : Nat) (flag : Bool)

/-- The messages from `mp` on go back on the queue, but for those of band 0 that are flushed. -/
def requeueZero : Nat → Option Nat → Kernel → Option Kernel
  | 0, _, _ => none
  | _ + 1, none, k => some k
  | fuel + 1, some mp, k =>
    let nmp := k.next mp
    if (k.msg mp).flushed flag 0 ∧ (k.msg mp).dbType < qpctl then requeueZero fuel nmp k
    else do
      let (k, _) ← putq nMsg q mp k
      requeueZero fuel nmp k

/-- The messages of the band from `mp` up to `last` are removed, if they are flushed. -/
def removeBand (last : Option Nat) : Nat → Option Nat → Kernel → Option Kernel
  | 0, _, _ => none
  | fuel + 1, mp, k =>
    if mp = last then some k
    else
      match mp with
      | none => none
      | some mp =>
        let nmp := k.next mp
        if (k.msg mp).flushed flag pri then do
          let k ← rmvq nQueue q mp k
          removeBand last fuel nmp k
        else removeBand last fuel nmp k

def flushband (k : Kernel) : Option Kernel :=
  if pri > (k.queue q).qBandp.length then some k
  else if pri = 0 then do
    let mp := (k.queue q).qFirst
    let k := k.setQueue q fun qp =>
      { qp with
        qFirst := none
        qLast := none
        qCount := 0
        qBandp := qp.qBandp.map fun qbp =>
          { qbp with qbFirst := none, qbLast := none, qbCount := 0, qbFlag := clear qbFull qbp.qbFlag }
        qFlag := clear qfull qp.qFlag }
    let k ← requeueZero nMsg q flag (nMsg + 1) mp k
    if (k.queue q).qFlag &&& qwantw ≠ 0 ∧ (k.queue q).qCount < (k.queue q).qLowat then
      let k := k.setQueue q fun qp => { qp with qFlag := clear qwantw qp.qFlag }
      return backenable nQueue q pri k
    else return k
  else do
    let qbp ← (k.queue q).qBandp[pri - 1]?
    match qbp.qbFirst with
    | none => return k
    | some mp =>
      -- Only message in band.
      let last := if qbp.qbFirst = qbp.qbLast then k.next mp else qbp.qbLast
      removeBand nQueue q pri flag last (nMsg + 1) (some mp) k

end

section
variable {nMsg nQueue q pri : Nat} {flag : Bool} {k k' : Kernel} {list left run tail right : List Nat} {last : Option Nat}

/-- What the loop leaves of a part of the queue. -/
abbrev Kernel.unflushed (k : Kernel) (flag : Bool) (pri : Nat) (list : List Nat) : List Nat :=
  list.filter fun m => ¬ (k.msg m).flushed flag pri

theorem unflushed_congr (loads : Loads k k' list) : k'.unflushed flag pri list = k.unflushed flag pri list := by
  refine List.filter_congr fun m member => ?_
  obtain ⟨band, type, _⟩ := loads m member
  have same : (k'.msg m).flushed flag pri ↔ (k.msg m).flushed flag pri := by
    rw [Msgb.flushed, Msgb.flushed, band, type]
  simp only [same]

theorem unflushed_append : k.unflushed flag pri (left ++ right) = k.unflushed flag pri left ++ k.unflushed flag pri right :=
  List.filter_append ..

theorem unflushed_cons {mp : Nat} : k.unflushed flag pri (mp :: run) =
    (if (k.msg mp).flushed flag pri then [] else [mp]) ++ k.unflushed flag pri run := by
  by_cases gone : (k.msg mp).flushed flag pri
  · simp [Kernel.unflushed, gone]
  · simp [Kernel.unflushed, gone]

/-- The loop takes the flushed messages of the part that it goes through. -/
theorem removeBand_queued {fuel : Nat} (queued : Queued nMsg k q (left ++ run ++ tail)) (enough : run.length < fuel) :
    ∃ k', removeBand nQueue q pri flag tail.head? fuel (run ++ tail).head? k = some k' ∧
      Queued nMsg k' q (left ++ k.unflushed flag pri run ++ tail) := by
  induction run generalizing left k fuel with
  | nil =>
    obtain ⟨fuel, rfl⟩ := Nat.exists_eq_add_one.mpr enough
    exact ⟨k, by simp [removeBand], queued⟩
  | cons mp run ih =>
    obtain ⟨fuel, rfl⟩ := Nat.exists_eq_succ_of_ne_zero (Nat.ne_zero_of_lt enough)
    have shorter : run.length < fuel := by simpa using enough
    have regroup : left ++ mp :: run ++ tail = left ++ mp :: (run ++ tail) := by simp
    have differ : some mp ≠ tail.head? := by
      intro same
      obtain ⟨rest, split⟩ := List.head?_eq_some_iff.mp same.symm
      have nodup := queued.doubly.nodup
      rw [regroup, split] at nodup
      exact (List.nodup_middle.mp nodup).notMem (by simp)
    have next : k.next mp = (run ++ tail).head? := by
      rw [regroup] at queued
      exact queued.doubly.next_eq
    rw [show (mp :: run ++ tail).head? = some mp from rfl]
    simp only [removeBand]
    rw [if_neg differ, next]
    by_cases gone : (k.msg mp).flushed flag pri
    · rw [regroup] at queued
      obtain ⟨u, removed, queued', framed, _⟩ := @rmvq_queued nMsg nQueue q mp k left (run ++ tail) queued
      rw [← List.append_assoc] at queued'
      obtain ⟨k', result, final⟩ := ih queued' shorter
      have same := @unflushed_congr pri flag k u run fun m member => framed.loads m (by simp [member])
      refine ⟨k', ?_, ?_⟩
      · rw [if_pos gone, removed]
        exact result
      · rw [unflushed_cons, if_pos gone, List.nil_append, ← same]
        exact final
    · have kept : Queued nMsg k q (left ++ [mp] ++ run ++ tail) := by simpa using queued
      obtain ⟨k', result, final⟩ := ih kept shorter
      refine ⟨k', ?_, ?_⟩
      · rw [if_neg gone]
        exact result
      · rw [unflushed_cons, if_neg gone, ← List.append_assoc]
        exact final

/-- The messages of a band other than 0 are together. -/
theorem band_together (queued : Queued nMsg k q list) (positive : pri ≠ 0) (small : pri ≤ 255) :
    ∃ left right, list = left ++ k.band pri list ++ right ∧ k.band pri left = [] ∧ k.band pri right = [] := by
  have sorted := queued.tallied.sorted
  have valid := queued.tallied.valid
  obtain ⟨left, rest, split, high, low⟩ := (@sorted_split k list (pri < ·) _) sorted fun x y more above => Nat.lt_of_lt_of_le above more
  obtain ⟨middle, right, split', same, less⟩ := (@sorted_split k rest (pri ≤ ·) _)
    (sorted.sublist (split ▸ List.sublist_append_right left rest)) fun x y more above => Nat.le_trans above more
  subst split'
  subst split
  have iff {m : Nat} (member : m ∈ left ++ (middle ++ right)) : (k.msg m).bBand = pri ↔ k.key m = pri :=
    (valid m member).band_iff positive small
  have before : k.band pri left = [] := List.filter_eq_nil_iff.mpr fun m member => by
    have above := high m member
    simp only [decide_eq_true_eq, iff (List.mem_append_left _ member)]
    omega
  have behind : k.band pri right = [] := List.filter_eq_nil_iff.mpr fun m member => by
    have below := less m member
    simp only [decide_eq_true_eq, iff (List.mem_append_right _ (List.mem_append_right _ member))]
    omega
  have here : k.band pri middle = middle := List.filter_eq_self.mpr fun m member => by
    have above := same m member
    have below := low m (List.mem_append_left _ member)
    simp only [decide_eq_true_eq, iff (List.mem_append_right _ (List.mem_append_left _ member))]
    omega
  refine ⟨left, right, ?_, before, behind⟩
  rw [Kernel.band, List.filter_append, List.filter_append, ← Kernel.band, ← Kernel.band, ← Kernel.band, before, behind, here]
  simp

theorem unflushed_other (none : k.band pri list = []) : k.unflushed flag pri list = list := by
  refine List.filter_eq_self.mpr fun m member => ?_
  have other := List.filter_eq_nil_iff.mp none m member
  simp only [decide_eq_true_eq] at other ⊢
  exact fun flushed => other flushed.1

/-- `flushband` leaves what it should, and also the last message of a band that has more. -/
theorem flushband_queued (queued : Queued nMsg k q list) (positive : pri ≠ 0) (small : pri ≤ 255) :
    ∃ k' left right, flushband nMsg nQueue q pri flag k = some k' ∧ list = left ++ k.band pri list ++ right ∧
      k.band pri left = [] ∧ k.band pri right = [] ∧
      Queued nMsg k' q (left ++ (if (k.band pri list).length ≤ 1 then k.unflushed flag pri (k.band pri list)
        else k.unflushed flag pri (k.band pri list).dropLast ++ (k.band pri list).getLast?.toList) ++ right) := by
  obtain ⟨left, right, split, before, behind⟩ := band_together queued positive small
  have length := queued.lined.length_le
  unfold flushband
  by_cases beyond : pri > (k.queue q).qBandp.length
  · have empty : k.band pri list = [] := List.filter_eq_nil_iff.mpr fun m member => by
      have within := queued.tallied.within m member
      simp only [decide_eq_true_eq]
      omega
    rw [empty] at split ⊢
    have whole : Queued nMsg k q (left ++ [] ++ right) := split ▸ queued
    exact ⟨k, left, right, if_pos beyond, split, before, behind, by simpa using whole⟩
  · obtain ⟨i, rfl⟩ := Nat.exists_eq_succ_of_ne_zero positive
    have inside : i < (k.queue q).qBandp.length := Nat.lt_of_succ_le (Nat.le_of_not_lt beyond)
    have core := queued.tallied.bands i _ (List.getElem?_eq_getElem inside)
    have first : ((k.queue q).qBandp[i]).qbFirst = (k.band (i + 1) list).head? := congrArg (·.2.1) core
    have final : ((k.queue q).qBandp[i]).qbLast = (k.band (i + 1) list).getLast? := congrArg (·.2.2) core
    rw [if_neg beyond, if_neg positive]
    simp only [Nat.succ_sub_one, List.getElem?_eq_getElem inside, Option.bind_eq_bind, Option.bind_some, first, final,
      Nat.succ_eq_add_one]
    rw [Nat.succ_eq_add_one] at split before behind
    generalize k.band (i + 1) list = band at split
    have count : band.length ≤ nMsg := by
      rw [split] at length
      simp only [List.length_append] at length
      omega
    match band, split, count with
    | [], split, _ =>
      have whole : Queued nMsg k q (left ++ [] ++ right) := split ▸ queued
      exact ⟨k, left, right, rfl, split, before, behind, by simpa using whole⟩
    | [mp], split, count =>
      have whole : Queued nMsg k q (left ++ [mp] ++ right) := split ▸ queued
      have next : k.next mp = right.head? := by
        rw [List.append_assoc] at whole
        exact whole.doubly.next_eq
      obtain ⟨k', result, queued'⟩ := (@removeBand_queued nMsg nQueue q (i + 1) flag k left [mp] right (nMsg + 1)) whole
        (Nat.lt_succ_of_le count)
      refine ⟨k', left, right, ?_, split, before, behind, by simpa using queued'⟩
      simp only [List.head?_cons, List.getLast?_singleton, if_true, next]
      exact result
    | mp :: mp' :: rest, split, count =>
      obtain ⟨front, final, ends⟩ : ∃ front final, mp' :: rest = front ++ [final] :=
        ⟨_, _, (List.dropLast_append_getLast (List.cons_ne_nil mp' rest)).symm⟩
      have whole : Queued nMsg k q (left ++ (mp :: front) ++ final :: right) := by
        have all := split ▸ queued
        simpa [ends] using all
      have few : (mp :: front).length < nMsg + 1 := by
        rw [ends] at count
        simp only [List.length_cons, List.length_append, List.length_nil] at count ⊢
        omega
      obtain ⟨k', result, queued'⟩ := (@removeBand_queued nMsg nQueue q (i + 1) flag k left (mp :: front) (final :: right) (nMsg + 1)) whole few
      have apart : mp ≠ final := by
        rintro rfl
        have nodup := whole.doubly.nodup
        rw [List.append_assoc, List.cons_append] at nodup
        exact (List.nodup_middle.mp nodup).notMem (by simp)
      have long : ¬ (mp :: (front ++ [final])).length ≤ 1 := by simp
      have last : (mp :: (front ++ [final])).getLast? = some final := by simp [List.getLast?_cons]
      rw [ends]
      refine ⟨k', left, right, ?_, ends ▸ split, before, behind, ?_⟩
      · simp only [List.head?_cons, last, Option.some.injEq]
        rw [if_neg apart]
        exact result
      · rw [if_neg long, last, ← List.cons_append, List.dropLast_concat]
        simpa using queued'

/-- `flushband` removes the messages of a band that it should and no others if and only if
the band has one message at most, or its last one is to stay. -/
theorem flushband_exact_iff (queued : Queued nMsg k q list) (positive : pri ≠ 0) (small : pri ≤ 255) :
    (∃ k', flushband nMsg nQueue q pri flag k = some k' ∧
      Queued nMsg k' q (list.filter fun m => ¬ (k.msg m).flushed flag pri)) ↔
    (k.band pri list).length ≤ 1 ∨ ∀ last, (k.band pri list).getLast? = some last → ¬ (k.msg last).flushed flag pri := by
  obtain ⟨k', left, right, result, split, before, behind, queued'⟩ :=
    @flushband_queued nMsg nQueue q pri flag k list queued positive small
  have whole : k.unflushed flag pri list = left ++ k.unflushed flag pri (k.band pri list) ++ right := by
    conv_lhs => rw [split]
    rw [unflushed_append, unflushed_append, unflushed_other before, unflushed_other behind]
  constructor
  · rintro ⟨k'', result', queued''⟩
    cases result.symm.trans result'
    by_contra neither
    obtain ⟨many, last⟩ := not_or.mp neither
    push Not at last
    obtain ⟨last, final, flushed⟩ := last
    have same := queued'.doubly.forward.unique queued''.doubly.forward
    obtain ⟨front, ends⟩ := List.getLast?_eq_some_iff.mp final
    rw [if_neg many, ← Kernel.unflushed, whole, final, ends, List.dropLast_concat] at same
    have middle := List.append_cancel_left (List.append_cancel_right same)
    have gone : k.unflushed flag pri [last] = [] := by simp [Kernel.unflushed, flushed]
    rw [unflushed_append, gone] at middle
    simp at middle
  · intro condition
    refine ⟨k', result, ?_⟩
    rw [← Kernel.unflushed, whole]
    by_cases few : (k.band pri list).length ≤ 1
    · rw [if_pos few] at queued'
      exact queued'
    · rw [if_neg few] at queued'
      have stays := condition.resolve_left few
      obtain ⟨final, last⟩ : ∃ final, (k.band pri list).getLast? = some final := by
        cases last : (k.band pri list).getLast? with
        | none =>
          rw [List.getLast?_eq_none_iff.mp last] at few
          exact absurd (Nat.zero_le 1) few
        | some final => exact ⟨final, rfl⟩
      obtain ⟨front, ends⟩ := List.getLast?_eq_some_iff.mp last
      have kept : k.unflushed flag pri [final] = [final] := by simp [Kernel.unflushed, stays final last]
      rw [last, ends, List.dropLast_concat] at queued'
      rw [ends, unflushed_append, kept]
      exact queued'

/-- A queue with two messages of band 1, the first a data message, the second of a type. -/
def pair (type : Nat) : Kernel where
  msg
    | 0 => ⟨some 1, none, 1, mData, []⟩
    | _ => ⟨none, some 0, 1, type, []⟩
  queue _ := ⟨some 0, some 1, none, 0, 0, 2, 1, [⟨0, some 0, some 1, 2, 1, 0⟩], false⟩
  qrun := []
  qrunflag := false
  zalloc := 0

theorem pair_queued {type : Nat} (normal : ¬ qpctl ≤ type) : Queued 2 (pair type) 0 [0, 1] := by
  have small : 1 ≤ 255 := by decide
  have data : ¬ qpctl ≤ mData := by decide
  have first : ((pair type).msg 0).Valid := ⟨fun high => absurd high data, small⟩
  have second : ((pair type).msg 1).Valid := ⟨fun high => absurd high normal, small⟩
  have key : (pair type).key 1 = 1 := key_normal normal
  have key' : (pair type).key 0 = 1 := key_normal data
  refine ⟨⟨.cons (.cons .nil), .cons (.cons .nil)⟩, ⟨?_, ?_, ?_, ?_, rfl, fun i qbp entry => ?_⟩⟩
  · refine List.pairwise_pair.mpr (Nat.le_of_eq ?_)
    rw [key, key']
  · intro m member
    rcases List.mem_pair.mp member with rfl | rfl
    · exact first
    · exact second
  · intro m member
    rcases List.mem_pair.mp member with rfl | rfl
    · exact Nat.le_refl 1
    · exact Nat.le_refl 1
  · intro m member
    rcases List.mem_pair.mp member with rfl | rfl
    · exact Nat.zero_lt_two
    · exact Nat.one_lt_two
  · cases i with
    | zero =>
      cases entry
      rfl
    | succ i => cases entry

/-- The second message is none of data. -/
theorem flushband_exact_iff_pair : ∃ k', flushband 2 1 0 1 false (pair 0x0d) = some k' ∧ Queued 2 k' 0 [1] := by
  refine (flushband_exact_iff (pair_queued (by decide)) (by decide) (by decide)).mpr (.inr fun last final => ?_)
  cases final
  decide

/-- Of two data messages the second one remains. -/
theorem flushband_leaves : Queued 2 (pair mData) 0 [0, 1] ∧ ∃ k', flushband 2 1 0 1 true (pair mData) = some k' ∧
    (k'.queue 0).qFirst = some 1 ∧ (k'.msg 1).flushed true 1 :=
  ⟨pair_queued (by decide), _, rfl, rfl, rfl, .inl rfl⟩

end

end Svr4.Streams
