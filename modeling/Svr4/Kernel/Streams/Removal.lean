import Svr4.Kernel.Streams.Representation

/-! Taking messages off a queue: `rmvq`, and `getq` as the removal of the first message. -/

namespace Svr4.Streams

attribute [local simp] Kernel.setQueue Kernel.setMsg lowerQueue Kernel.setBand

section
variable {nMsg nQueue q mp i pri : Nat} {k k' : Kernel} {qp qp' : Queue} {list left right : List Nat}

/-! ## The list -/

theorem unlink_msg (notPrev : k.prev mp ≠ some mp) (notNext : k.next mp ≠ some mp) (m : Nat) :
    (unlink q mp k).msg m = { k.msg m with
      bNext := if m = mp then none else if k.prev mp = some m then k.next mp else k.next m
      bPrev := if m = mp then none else if k.next mp = some m then k.prev mp else k.prev m } := by
  unfold unlink
  by_cases gone : m = mp
  · subst gone
    cases before : (k.msg m).bPrev with
    | none =>
      cases after : (k.msg m).bNext with
      | none => simp [before, after]
      | some p =>
        have differ : ¬ m = p := fun same => notNext (by rw [Kernel.next, after, same])
        simp [before, after, differ]
    | some p =>
      have differ : ¬ m = p := fun same => notPrev (by rw [Kernel.prev, before, same])
      cases after : (k.msg m).bNext with
      | none => simp [before, after, differ]
      | some p' =>
        have differ' : ¬ m = p' := fun same => notNext (by rw [Kernel.next, after, same])
        simp [before, after, differ, differ']
  · cases before : (k.msg mp).bPrev with
    | none =>
      cases after : (k.msg mp).bNext with
      | none => simp [gone, before, after]
      | some p =>
        by_cases same : m = p
        · subst same
          simp [gone, before, after]
        · simp [gone, before, after, same, Ne.symm same]
    | some p =>
      cases after : (k.msg mp).bNext with
      | none =>
        by_cases same : m = p
        · subst same
          simp [gone, before, after]
        · simp [gone, before, after, same, Ne.symm same]
      | some p' =>
        by_cases same : m = p
        · subst same
          by_cases same' : m = p'
          · subst same'
            simp [gone, before, after]
          · simp [gone, before, after, same', Ne.symm same']
        · by_cases same' : m = p'
          · subst same'
            simp [gone, before, after, same, Ne.symm same]
          · simp [gone, before, after, same, same', Ne.symm same, Ne.symm same']

theorem unlink_queue : (unlink q mp k).queue = Function.update k.queue q
    { k.queue q with
      qFirst := if k.prev mp = none then k.next mp else (k.queue q).qFirst
      qLast := if k.next mp = none then k.prev mp else (k.queue q).qLast } := by
  unfold unlink
  cases before : (k.msg mp).bPrev with
  | none =>
    cases after : (k.msg mp).bNext with
    | none => simp [before, after]
    | some p => simp [before, after]
  | some p =>
    cases after : (k.msg mp).bNext with
    | none => simp [before, after]
    | some p' => simp [before, after]

attribute [local simp] unlink_queue

section
variable (doubly : Doubly k.next k.prev (k.queue q).qFirst (k.queue q).qLast (left ++ mp :: right))
include doubly

theorem neighbours : k.prev mp = left.getLast? ∧ k.next mp = right.head? ∧ mp ∉ left ++ right :=
  ⟨doubly.prev_eq, doubly.next_eq, (List.nodup_middle.mp doubly.nodup).notMem⟩

theorem neighbours_ne : k.prev mp ≠ some mp ∧ k.next mp ≠ some mp := by
  obtain ⟨prev, next, absent⟩ := neighbours doubly
  constructor
  · rw [prev]
    exact fun last => absent (List.mem_append_left _ (List.mem_of_getLast? last))
  · rw [next]
    exact fun first => absent (List.mem_append_right _ (List.mem_of_head? first))

theorem unlink_loads (m : Nat) : ((unlink q mp k).msg m).bBand = (k.msg m).bBand ∧
    ((unlink q mp k).msg m).dbType = (k.msg m).dbType ∧ ((unlink q mp k).msg m).blocks = (k.msg m).blocks := by
  obtain ⟨notPrev, notNext⟩ := neighbours_ne doubly
  rw [unlink_msg notPrev notNext]
  exact ⟨rfl, rfl, rfl⟩

theorem unlink_outside {m : Nat} (differ : m ≠ mp) (away : m ∉ left ++ right) : (unlink q mp k).msg m = k.msg m := by
  obtain ⟨notPrev, notNext⟩ := neighbours_ne doubly
  obtain ⟨prev, next, _⟩ := neighbours doubly
  have before : k.prev mp ≠ some m := by
    rw [prev]
    exact fun last => away (List.mem_append_left _ (List.mem_of_getLast? last))
  have after : k.next mp ≠ some m := by
    rw [next]
    exact fun first => away (List.mem_append_right _ (List.mem_of_head? first))
  rw [unlink_msg notPrev notNext, if_neg differ, if_neg differ, if_neg before, if_neg after]

theorem unlink_doubly : Doubly (unlink q mp k).next (unlink q mp k).prev ((unlink q mp k).queue q).qFirst
    ((unlink q mp k).queue q).qLast (left ++ right) := by
  obtain ⟨notPrev, notNext⟩ := neighbours_ne doubly
  obtain ⟨prev, next, absent⟩ := neighbours doubly
  have msg := unlink_msg (q := q) notPrev notNext
  have away {m : Nat} (member : m ∈ left ++ right) : m ≠ mp := fun same => absent (same ▸ member)
  have deleted := (@Doubly.delete _ _ _ ((unlink q mp k).next) ((unlink q mp k).prev)) doubly
    (fun p last => by
      have differ : p ≠ mp := fun same => notPrev (by rw [prev, last, same])
      rw [Kernel.next, msg]
      simp [differ, prev, last])
    (fun p first => by
      have differ : p ≠ mp := fun same => notNext (by rw [next, first, same])
      rw [Kernel.prev, msg]
      simp [differ, next, first])
    (fun m member other => by
      rw [Kernel.next, msg]
      simp [away member, prev, other])
    fun m member other => by
      rw [Kernel.prev, msg]
      simp [away member, next, other]
  rw [unlink_queue, Function.update_self]
  rw [← prev, ← next] at deleted
  exact deleted

end

/-! ## The counts -/

theorem sub_total (x y : Int) : toUlong (x + y - y) = toUlong x := by
  congr 1
  omega

theorem Tallied.delete (tallied : Tallied nMsg k qp (left ++ mp :: right)) (length : qp'.qBandp.length = qp.qBandp.length)
    (count : qp'.qCount = if (k.msg mp).bBand = 0 then subBlocks qp.qCount (k.msg mp).blocks else qp.qCount)
    (bands : ∀ i qbp, qp'.qBandp[i]? = some qbp → ∃ old, qp.qBandp[i]? = some old ∧ qbp.core =
      if (k.msg mp).bBand = i + 1 then
        (subBlocks old.qbCount (k.msg mp).blocks, (k.band (i + 1) (left ++ right)).head?,
          (k.band (i + 1) (left ++ right)).getLast?)
      else old.core) : Tallied nMsg k qp' (left ++ right) := by
  have rest {m : Nat} (member : m ∈ left ++ right) : m ∈ left ++ mp :: right :=
    List.perm_middle.mem_iff.mpr (.tail _ member)
  refine ⟨?_, fun m member => tallied.valid m (rest member), fun m member => ?_,
    fun m member => tallied.known m (rest member), ?_, fun i qbp found => ?_⟩
  · exact tallied.sorted.sublist (List.Sublist.append (List.Sublist.refl _) (List.sublist_cons_self _ _))
  · rw [length]
    exact tallied.within m (rest member)
  · rw [count, tallied.count]
    by_cases zero : (k.msg mp).bBand = 0
    · rw [if_pos zero, subBlocks_eq, total_band zero, sub_total]
    · rw [if_neg zero, band_other zero]
  · obtain ⟨old, was, core⟩ := bands i qbp found
    have before := tallied.bands i old was
    rw [core]
    by_cases here : (k.msg mp).bBand = i + 1
    · have counted : old.qbCount = toUlong (k.total (k.band (i + 1) (left ++ mp :: right))) := congrArg Prod.fst before
      rw [if_pos here, Kernel.tally, counted, subBlocks_eq, total_band here, sub_total]
    · rw [if_neg here, ← band_other here]
      exact before

/-! ## The ends of the bands -/

/-- The message, if it is of the band. -/
abbrev Kernel.ofBand (k : Kernel) (pri : Nat) (m : Option Nat) : Option Nat :=
  m.bind fun m => if pri = (k.msg m).bBand then some m else none

section
variable (positive : pri ≠ 0) (small : pri ≤ 255)
include positive small

theorem ofBand_head (valid : ∀ m ∈ list, (k.msg m).Valid) (sorted : k.Sorted list) (most : ∀ m ∈ list, k.key m ≤ pri) :
    k.ofBand pri list.head? = (k.band pri list).head? := by
  cases list with
  | nil => rfl
  | cons p rest =>
    by_cases here : pri = (k.msg p).bBand
    · simp [Kernel.ofBand, Kernel.band, here]
    · -- The keys go down, so none of the others is of the band.
      have none : k.band pri (p :: rest) = [] := by
        refine List.filter_eq_nil_iff.mpr fun m member => ?_
        simp only [decide_eq_true_eq]
        intro band
        have key : k.key m = pri := ((valid m member).band_iff positive small).mp band
        have top : k.key p ≠ pri := fun same => here (((valid p (by simp)).band_iff positive small).mpr same).symm
        have less := most p (by simp)
        rcases List.mem_cons.mp member with rfl | member
        · exact top key
        · have order := (List.pairwise_cons.mp sorted).1 m member
          omega
      rw [none]
      simp [Kernel.ofBand, here]

theorem ofBand_last (valid : ∀ m ∈ list, (k.msg m).Valid) (sorted : k.Sorted list) (least : ∀ m ∈ list, pri ≤ k.key m) :
    k.ofBand pri list.getLast? = (k.band pri list).getLast? := by
  rcases list.eq_nil_or_concat with rfl | ⟨front, p, rfl⟩
  · rfl
  · rw [List.concat_eq_append] at valid sorted least ⊢
    by_cases here : pri = (k.msg p).bBand
    · simp [Kernel.ofBand, Kernel.band, here]
    · have none : k.band pri (front ++ [p]) = [] := by
        refine List.filter_eq_nil_iff.mpr fun m member => ?_
        simp only [decide_eq_true_eq]
        intro band
        have key : k.key m = pri := ((valid m member).band_iff positive small).mp band
        have bottom : k.key p ≠ pri := fun same => here (((valid p (by simp)).band_iff positive small).mpr same).symm
        have more := least p (by simp)
        have order := sorted_last sorted (List.getLast?_concat) m member
        omega
      rw [none]
      simp [Kernel.ofBand, here]

end

theorem rmvqEnds_marks {qbp : Qband} (queued : Queued nMsg k q (left ++ mp :: right)) (positive : (k.msg mp).bBand ≠ 0)
    (marks : Marks k (left ++ mp :: right) (k.msg mp).bBand qbp) :
    Marks k (left ++ right) (k.msg mp).bBand (rmvqEnds k mp qbp) := by
  obtain ⟨prev, next, absent⟩ := neighbours queued.doubly
  obtain ⟨above, below⟩ := queued.lined.around rfl
  obtain ⟨front, back, across⟩ := List.pairwise_append.mp queued.tallied.sorted
  have valid := queued.tallied.valid
  have small := (valid mp (by simp)).2
  have key : k.key mp = (k.msg mp).bBand := ((valid mp (by simp)).band_iff positive small).mp rfl
  have head := ofBand_head positive small (fun m member => valid m (by simp [member])) (List.pairwise_cons.mp back).2
    fun m member => key ▸ below m member
  have last := ofBand_last positive small (fun m member => valid m (by simp [member])) front
    fun m member => key ▸ above m member
  rw [← next] at head
  rw [← prev] at last
  obtain ⟨first, final⟩ := marks
  rw [band_middle, if_pos rfl, List.append_assoc, List.singleton_append] at first final
  have joined : k.band (k.msg mp).bBand (left ++ right) = k.band (k.msg mp).bBand left ++ k.band (k.msg mp).bBand right :=
    List.filter_append ..
  rw [Marks, joined]
  have out {part : List Nat} (sub : part ⊆ left ++ right) : mp ∉ k.band (k.msg mp).bBand part :=
    fun member => absent (sub (List.mem_of_mem_filter member))
  constructor
  · change (if qbp.qbFirst = some mp then k.ofBand (k.msg mp).bBand (k.next mp) else qbp.qbFirst) = _
    rw [head, first]
    cases ahead : k.band (k.msg mp).bBand left with
    | nil => simp
    | cons m rest =>
      have differ : m ≠ mp := by
        rintro rfl
        exact out (List.subset_append_left left right) (by rw [ahead]; simp)
      simp [differ]
  · change (if qbp.qbLast = some mp then k.ofBand (k.msg mp).bBand (k.prev mp) else qbp.qbLast) = _
    rw [last, final]
    rcases (k.band (k.msg mp).bBand right).eq_nil_or_concat with behind | ⟨rest, m, behind⟩
    · simp [behind]
    · have differ : m ≠ mp := by
        rintro rfl
        exact out (List.subset_append_right left right) (by rw [behind]; simp)
      rw [behind]
      simp [differ, List.getLast?_cons]

/-! ## `rmvq` -/

theorem unlinked (queued : Queued nMsg k q (left ++ mp :: right)) (msg : k'.msg = (unlink q mp k).msg)
    (others : ∀ other, other ≠ q → k'.queue other = k.queue other)
    (first : (k'.queue q).qFirst = ((unlink q mp k).queue q).qFirst)
    (last : (k'.queue q).qLast = ((unlink q mp k).queue q).qLast)
    (longer : (k.queue q).qBandp.length ≤ (k'.queue q).qBandp.length) (tallied : Tallied nMsg k (k'.queue q) (left ++ right)) :
    Queued nMsg k' q (left ++ right) ∧ Framed k k' q mp (left ++ right) ∧ Loads k k' [mp] := by
  have loads (m : Nat) := unlink_loads queued.doubly m
  rw [← msg] at loads
  refine ⟨⟨?_, tallied.congr .refl fun m _ => loads m⟩, ⟨fun other differ => ?_, longer, fun m _ => loads m,
    fun m differ away => ?_⟩, fun m _ => loads m⟩
  · have doubly := unlink_doubly queued.doubly
    rw [first, last]
    exact doubly.congr (fun m _ => by rw [Kernel.next, msg]) fun m _ => by rw [Kernel.prev, msg]
  · rw [others other differ]
    exact .refl
  · rw [msg]
    exact unlink_outside queued.doubly differ away

theorem unlinked_quiet {k'' : Kernel}
    (removed : Queued nMsg k' q (left ++ right) ∧ Framed k k' q mp (left ++ right) ∧ Loads k k' [mp])
    (quiet : Quiet k' k'') :
    Queued nMsg k'' q (left ++ right) ∧ Framed k k'' q mp (left ++ right) ∧ Loads k k'' [mp] := by
  obtain ⟨queued, framed, loads⟩ := removed
  refine ⟨queued.congr (quiet.rep q) fun m _ => by rw [quiet.msg], framed.quiet quiet, fun m member => ?_⟩
  rw [quiet.msg]
  exact loads m member

theorem rmvq_queued (queued : Queued nMsg k q (left ++ mp :: right)) :
    ∃ k', rmvq nQueue q mp k = some k' ∧ Queued nMsg k' q (left ++ right) ∧ Framed k k' q mp (left ++ right) ∧
      Loads k k' [mp] := by
  by_cases zero : (k.msg mp).bBand = 0
  · let k₁ := unlink q mp k
    let k₂ := (lowerQueue q (k.msg mp).blocks k₁).1
    let k₃ := k₂.setQueue q fun qp => { qp with qFlag := clear qwantw qp.qFlag }
    have count : (k₁.queue q).qCount = (k.queue q).qCount := by simp [k₁]
    have removed : Queued nMsg k₂ q (left ++ right) ∧ Framed k k₂ q mp (left ++ right) ∧ Loads k k₂ [mp] := by
      refine unlinked queued rfl (fun other differ => ?_) ?_ ?_ ?_ ?_
      · simp [k₂, k₁, differ]
      · simp [k₂, k₁]
      · simp [k₂, k₁]
      · simp [k₂, k₁]
      · refine queued.tallied.delete ?_ ?_ fun i qbp there => ⟨qbp, ?_, ?_⟩
        · simp [k₂, k₁]
        · rw [if_pos zero, ← count]
          simp [k₂]
        · simpa [k₂, k₁] using there
        · rw [if_neg (by omega)]
    by_cases low : (lowerQueue q (k.msg mp).blocks k₁).2 = true ∧ (k₁.queue q).qFlag &&& qwantw ≠ 0
    · refine ⟨backenable nQueue q (k.msg mp).bBand k₃, ?_, unlinked_quiet removed ?_⟩
      · simp only [rmvq, zero, ne_eq, not_true_eq_false, if_false]
        exact if_pos low
      · exact (quiet_setQueue (rep_flags _)).trans quiet_backenable
    · refine ⟨k₂, ?_, removed⟩
      simp only [rmvq, zero, ne_eq, not_true_eq_false, if_false]
      exact if_neg low
  · obtain ⟨qbp, entry⟩ : ∃ qbp, (k.queue q).qBandp[(k.msg mp).bBand - 1]? = some qbp := by
      have within := queued.tallied.within mp (by simp)
      exact ⟨_, List.getElem?_eq_getElem (by omega)⟩
    have index : (k.msg mp).bBand - 1 + 1 = (k.msg mp).bBand := by omega
    have core := queued.tallied.bands _ qbp entry
    rw [index] at core
    obtain ⟨first, last⟩ := rmvqEnds_marks queued zero ⟨congrArg (·.2.1) core, congrArg (·.2.2) core⟩
    let k₁ := k.setBand q ((k.msg mp).bBand - 1) (rmvqEnds k mp)
    let k₂ := unlink q mp k₁
    let k₃ := (lowerBand q ((k.msg mp).bBand - 1) qbp (k.msg mp).blocks k₂).1
    let k₄ := k₃.setBand q ((k.msg mp).bBand - 1) fun qbp => { qbp with qbFlag := clear qbWantw qbp.qbFlag }
    have msg : k₂.msg = (unlink q mp k).msg := by
      obtain ⟨notPrev, notNext⟩ := neighbours_ne queued.doubly
      funext m
      rw [unlink_msg notPrev notNext, unlink_msg (k := k₁) notPrev notNext]
      rfl
    have bandp : (k₃.queue q).qBandp = ((k.queue q).qBandp.modify ((k.msg mp).bBand - 1) (rmvqEnds k mp)).modify
        ((k.msg mp).bBand - 1) fun new =>
          { new with
            qbCount := subBlocks qbp.qbCount (k.msg mp).blocks
            qbFlag := if subBlocks qbp.qbCount (k.msg mp).blocks < new.qbHiwat then clear qbFull new.qbFlag
              else new.qbFlag } := by
      simp [k₃, k₂, k₁, lowerBand]
    have removed : Queued nMsg k₃ q (left ++ right) ∧ Framed k k₃ q mp (left ++ right) ∧ Loads k k₃ [mp] := by
      refine unlinked queued msg (fun other differ => ?_) ?_ ?_ ?_ ?_
      · simp [k₃, k₂, k₁, lowerBand, differ]
      · simp [k₃, k₂, k₁, lowerBand]
      · simp [k₃, k₂, k₁, lowerBand]
      · exact Nat.le_of_eq (by rw [bandp, List.length_modify, List.length_modify])
      · refine queued.tallied.delete ?_ ?_ fun i new there => ?_
        · rw [bandp, List.length_modify, List.length_modify]
        · rw [if_neg zero]
          simp [k₃, k₂, k₁, lowerBand]
        · rw [bandp] at there
          rcases modify_entry there with ⟨rfl, mid, was, rfl⟩ | ⟨other, was⟩
          · rcases modify_entry was with ⟨_, old, found, rfl⟩ | ⟨wrong, _⟩
            · obtain rfl := Option.some.inj (entry.symm.trans found)
              refine ⟨qbp, entry, ?_⟩
              rw [index, if_pos rfl, ← first, ← last]
              rfl
            · exact absurd rfl wrong
          · rcases modify_entry was with ⟨same, _⟩ | ⟨_, found⟩
            · exact absurd same other
            · exact ⟨new, found, (if_neg (by omega)).symm⟩
    by_cases low : (lowerBand q ((k.msg mp).bBand - 1) qbp (k.msg mp).blocks k₂).2 = true ∧ qbp.qbFlag &&& qbWantw ≠ 0
    · refine ⟨backenable nQueue q (k.msg mp).bBand k₄, ?_, unlinked_quiet removed ?_⟩
      · simp only [rmvq, zero, ne_eq, not_false_eq_true, if_true, entry, Option.bind_eq_bind, Option.bind_some]
        exact if_pos low
      · have cleared : Quiet k₃ k₄ := quiet_setBand fun _ => rfl
        exact cleared.trans quiet_backenable
    · refine ⟨k₃, ?_, removed⟩
      simp only [rmvq, zero, ne_eq, not_false_eq_true, if_true, entry, Option.bind_eq_bind, Option.bind_some]
      exact if_neg low

end

end Svr4.Streams
