import Svr4.Kernel.Streams.Release

/-! Whom `flushq` tells of the bands that can be written. -/

namespace Svr4.Streams

open Option (bind_eq_bind bind_eq_some_iff)

/-- What a queue says of the writers: the low water mark and whether one waits, for the
queue and for each band. -/
def Queue.marks (qp : Queue) : (Int × Nat) × List (Int × Nat) :=
  ((qp.qLowat, qp.qFlag &&& qwantw), qp.qBandp.map fun qbp => (qbp.qbLowat, qbp.qbFlag &&& qbWantw))

/-- The writers and the streams are as before, and so are the sizes and types of messages. -/
structure Steady (k k' : Kernel) : Prop where
  marks : ∀ p, (k'.queue p).marks = (k.queue p).marks
  alike : Alike k k'
  loads : ∀ m, (k'.msg m).blocks = (k.msg m).blocks ∧ (k'.msg m).dbType = (k.msg m).dbType

/-- The queue has the back-enable flag of the band. -/
def Queue.back (qp : Queue) : Nat → Prop
  | 0 => qp.qFlag &&& qback ≠ 0
  | i + 1 => ∃ qbp, qp.qBandp[i]? = some qbp ∧ qbp.qbFlag &&& qbBack ≠ 0

/-- The writers of a band wait, and the messages that `flushq` leaves in it are below the low
water mark. -/
def Freed (k : Kernel) (q : Nat) (flag : Bool) (list : List Nat) (pri : Nat) : Prop :=
  ∃ g, (k.queue q).gauge pri = some g ∧ g.wantw = true ∧ toUlong (k.total (k.band pri (list.filter (k.stays flag)))) < g.lowat

section
variable {nMsg nQueue q bp back pri i : Nat} {k k' k'' u : Kernel} {list : List Nat} {flag : Bool} {qp : Queue}

theorem Steady.refl : Steady k k := ⟨fun _ => rfl, .refl, fun _ => ⟨rfl, rfl⟩⟩

theorem Steady.trans (one : Steady k k') (two : Steady k' k'') : Steady k k'' :=
  ⟨fun p => (two.marks p).trans (one.marks p), one.alike.trans two.alike,
    fun m => ⟨(two.loads m).1.trans (one.loads m).1, (two.loads m).2.trans (one.loads m).2⟩⟩

theorem steady_setQueue {value : Queue → Queue} (marks : (value (k.queue q)).marks = (k.queue q).marks)
    (reader : (value (k.queue q)).qFlag &&& qreadr = (k.queue q).qFlag &&& qreadr)
    (next : (value (k.queue q)).qNext = (k.queue q).qNext) (service : (value (k.queue q)).qiSrvp = (k.queue q).qiSrvp) :
    Steady k (k.setQueue q value) := by
  refine ⟨fun p => ?_, alike_setQueue reader next service, fun _ => ⟨rfl, rfl⟩⟩
  rw [setQueue_queue]
  split
  · next here => rw [here, marks]
  · rfl

theorem steady_setMsg {value : Msgb → Msgb} (blocks : ∀ m, (value m).blocks = m.blocks)
    (type : ∀ m, (value m).dbType = m.dbType) : Steady k (k.setMsg bp value) := by
  refine ⟨fun _ => rfl, .refl, fun m => ?_⟩
  simp only [Kernel.setMsg, Function.update_apply]
  split
  · next here =>
    rw [here]
    exact ⟨blocks _, type _⟩
  · exact ⟨rfl, rfl⟩

theorem steady_splice {before after : Option Nat} : Steady k (splice q bp before after k) := by
  have stored : Steady k (k.setQueue q fun qp =>
      { qp with qFirst := if before = none then some bp else qp.qFirst, qLast := if after = none then some bp else qp.qLast }) :=
    steady_setQueue rfl rfl rfl rfl
  have same := @splice_queue q bp k before after
  refine ⟨fun p => ?_, fun p => ?_, splice_kept⟩
  · rw [same]
    exact stored.marks p
  · rw [same]
    exact stored.alike p

theorem steady_qenable : Steady k (qenable q k) := by
  rw [qenable]
  split
  · exact .refl
  · split
    · exact .refl
    · have stored : Steady k (k.setQueue q fun qp => { qp with qFlag := qp.qFlag ||| qenab }) := by
        refine steady_setQueue ?_ (or_and (by decide)) rfl rfl
        simp only [Queue.marks, or_and (show qenab &&& qwantw = 0 by decide)]
      exact ⟨stored.marks, stored.alike, stored.loads⟩

theorem steady_setBand {value : Qband → Qband} (lowat : ∀ qbp, (value qbp).qbLowat = qbp.qbLowat)
    (wantw : ∀ qbp, (value qbp).qbFlag &&& qbWantw = qbp.qbFlag &&& qbWantw) : Steady k (k.setBand q i value) := by
  refine steady_setQueue ?_ rfl rfl rfl
  simp only [Queue.marks, Prod.mk.injEq, true_and]
  refine List.ext_getElem? fun j => ?_
  simp only [List.getElem?_map, List.getElem?_modify]
  cases (k.queue q).qBandp[j]? with
  | none => rfl
  | some qbp => by_cases here : i = j <;> simp [here, lowat, wantw]

section
variable {find : Nat → Nat → Option Qband → Kernel → Option Place} {ends : Nat → Bool → Qband → Qband}

theorem putZero_steady (call : putZero find q bp k = some k') : Steady k k' := by
  simp only [putZero, bind_eq_bind, bind_eq_some_iff] at call
  obtain ⟨⟨before, after⟩, -, call⟩ := call
  cases call
  refine steady_splice.trans (steady_setQueue ?_ ?_ rfl rfl)
  · simp only [Queue.marks]
    rw [(raise_full (by decide) (by decide)).2]
  · exact (raise_full (by decide) (by decide)).2

theorem putBand_steady (same : ∀ bp empty qbp, (ends bp empty qbp).gauge = qbp.gauge)
    (call : putBand find ends q bp pri k = some k') : Steady k k' := by
  simp only [putBand, bind_eq_bind, bind_eq_some_iff] at call
  obtain ⟨qbp, -, ⟨before, after⟩, -, call⟩ := call
  cases call
  refine steady_splice.trans (steady_setBand (fun old => ?_) fun old => ?_)
  · exact congrArg Gauge.lowat (same _ _ old)
  · exact (raise_full (by decide) (by decide)).2

theorem put_steady {done : Bool} (same : ∀ bp empty qbp, (ends bp empty qbp).gauge = qbp.gauge)
    (within : (k.msg bp).bBand ≤ (k.queue q).qBandp.length) (call : put find ends q bp k = some (k', done)) : Steady k k' := by
  have enables {u : Kernel} {test : Prop} [Decidable test] : Steady u (if test then qenable q u else u) := by
    split
    · exact steady_qenable
    · exact .refl
  have recorded : needBand q (k.msg bp).bBand k = (k, true) := by
    rw [needBand, Nat.sub_eq_zero_of_le within]
    rfl
  rw [put] at call
  by_cases high : (k.msg bp).queclass = qpctl
  · simp only [high, if_true, ne_eq, not_true_eq_false, false_and, if_false, bind_eq_bind,
      bind_eq_some_iff] at call
    obtain ⟨u, inserted, call⟩ := call
    cases call
    have zeroed : Steady k (k.setMsg bp fun m => { m with bBand := 0 }) := steady_setMsg (fun _ => rfl) fun _ => rfl
    exact (zeroed.trans (putZero_steady inserted)).trans enables
  · by_cases zero : (k.msg bp).bBand = 0
    · simp only [high, zero, if_false, ne_eq, not_true_eq_false, and_false, bind_eq_bind,
        bind_eq_some_iff] at call
      obtain ⟨u, inserted, call⟩ := call
      cases call
      exact (putZero_steady inserted).trans enables
    · simp only [high, zero, if_false, ne_eq, not_false_eq_true, and_true, if_true, recorded, bind_eq_bind,
        bind_eq_some_iff, not_true_eq_false] at call
      obtain ⟨u, inserted, call⟩ := call
      cases call
      exact (putBand_steady same inserted).trans enables

theorem putq_steady {done : Bool} (within : (k.msg bp).bBand ≤ (k.queue q).qBandp.length)
    (call : putq nMsg q bp k = some (k', done)) : Steady k k' := by
  refine put_steady ?_ within call
  exact fun _ _ _ => rfl

end

/-! ## The loop -/

theorem emptied_steady : Steady k (emptied q k) := by
  refine steady_setQueue ?_ (clear_and (by decide)) rfl rfl
  simp only [Queue.marks, clear_and (show qfull &&& qwantw = 0 by decide), List.map_map, Prod.mk.injEq, true_and]
  refine List.map_congr_left fun qbp _ => ?_
  simp [clear_and (show qbFull &&& qbWantw = 0 by decide)]

theorem marks_length {p : Nat} (steady : Steady k k') : (k'.queue p).qBandp.length = (k.queue p).qBandp.length := by
  have lengths := congrArg (fun marks => marks.2.length) (steady.marks p)
  simpa [Queue.marks] using lengths

theorem requeue_steady (queued : Queued nMsg k q list) :
    ∃ u, requeue nMsg q flag (nMsg + 1) (k.queue q).qFirst (emptied q k) = some u ∧
      Queued nMsg u q (list.filter (k.stays flag)) ∧ Moved k u q list ∧ Steady k u := by
  obtain ⟨u, result, queued', moved, steady, -⟩ := (@flushq_loop nMsg q k flag list
    (fun u _ rest => Steady k u ∧ ∀ m ∈ rest, (u.msg m).bBand ≤ (u.queue q).qBandp.length))
    (fun ⟨steady, within⟩ => ⟨steady, fun m member => within m (.tail _ member)⟩)
    (fun ⟨steady, within⟩ _ _ put _ _ _ same => by
      have one := putq_steady (within _ (.head _)) put
      refine ⟨steady.trans one, fun m member => ?_⟩
      rw [same m member, marks_length one]
      exact within m (.tail _ member))
    queued ⟨emptied_steady, fun m member => by
      rw [marks_length (@emptied_steady q k)]
      exact queued.tallied.within m member⟩
  exact ⟨u, result, queued', moved, steady⟩

/-! ## Telling -/

theorem steady_setqback (within : pri ≤ (k.queue q).qBandp.length) : Steady k (setqback q pri k) := by
  rw [setqback]
  split
  · have recorded : needBand q pri k = (k, true) := by
      rw [needBand, Nat.sub_eq_zero_of_le within]
      rfl
    rw [recorded]
    exact steady_setBand (fun _ => rfl) fun _ => or_and (by decide)
  · refine steady_setQueue ?_ (or_and (by decide)) rfl rfl
    simp only [Queue.marks, or_and (show qback &&& qwantw = 0 by decide)]

theorem setqback_back (within : pri ≤ (k.queue q).qBandp.length) :
    ((setqback q pri k).queue q).back pri ∧ ∀ j, (k.queue q).back j → ((setqback q pri k).queue q).back j := by
  rw [setqback]
  by_cases band : pri ≠ 0
  · have recorded : needBand q pri k = (k, true) := by
      rw [needBand, Nat.sub_eq_zero_of_le within]
      rfl
    rw [if_pos band, recorded]
    simp only [if_true, Kernel.setBand, setQueue_queue]
    obtain ⟨i, rfl⟩ := Nat.exists_eq_succ_of_ne_zero band
    have inside : i < (k.queue q).qBandp.length := within
    have set (flags : Nat) : (flags ||| qbBack) &&& qbBack ≠ 0 := by
      rw [or_self_and]
      decide
    refine ⟨⟨{ (k.queue q).qBandp[i] with qbFlag := (k.queue q).qBandp[i].qbFlag ||| qbBack },
      by simp [List.getElem?_eq_getElem inside], set _⟩, fun j before => ?_⟩
    · cases j with
      | zero => exact before
      | succ j =>
        obtain ⟨qbp, entry, flag⟩ := before
        by_cases here : i = j
        · subst here
          exact ⟨{ qbp with qbFlag := qbp.qbFlag ||| qbBack }, by simp [entry], set _⟩
        · exact ⟨qbp, by simp [entry, here], flag⟩
  · obtain rfl := not_not.mp band
    rw [if_neg band, setQueue_queue, if_pos rfl]
    have set : ((k.queue q).qFlag ||| qback) &&& qback ≠ 0 := by
      rw [or_self_and]
      decide
    refine ⟨set, fun j before => ?_⟩
    cases j with
    | zero => exact set
    | succ j => exact before

theorem steady_setqbacks (pris : List Nat) (within : ∀ pri ∈ pris, pri ≤ (k.queue q).qBandp.length) :
    Steady k (pris.foldl (fun k pri => setqback q pri k) k) ∧
    (∀ pri ∈ pris, ((pris.foldl (fun k pri => setqback q pri k) k).queue q).back pri) ∧
    ∀ j, (k.queue q).back j → ((pris.foldl (fun k pri => setqback q pri k) k).queue q).back j := by
  induction pris generalizing k with
  | nil => exact ⟨.refl, nofun, fun _ => id⟩
  | cons pri pris ih =>
    have first := within pri (.head _)
    have one := steady_setqback first
    obtain ⟨set, kept⟩ := setqback_back first
    obtain ⟨steady, sets, keeps⟩ := @ih (setqback q pri k) fun j member => by
      rw [marks_length one]
      exact within j (.tail _ member)
    refine ⟨one.trans steady, fun j member => ?_, fun j before => keeps j (kept j before)⟩
    rcases List.mem_cons.mp member with rfl | member
    · exact keeps _ set
    · exact sets j member

theorem tell_back {qbf : Nat → Bool} {zero : Bool} : Steady k (tell nQueue q qbf zero k) ∧
    ∀ back, nearest k nQueue q = some back →
      (∀ pri, 0 < pri → pri ≤ (k.queue back).qBandp.length → qbf pri = true → ((tell nQueue q qbf zero k).queue back).back pri) ∧
      (zero = true → ((tell nQueue q qbf zero k).queue back).back 0) := by
  rw [tell]
  split
  · next none => exact ⟨.refl, fun back some => absurd (none.symm.trans some) (by simp)⟩
  · next back found =>
    have enable := @steady_qenable back k
    have length := marks_length (p := back) enable
    simp only
    rw [length]
    generalize qenable back k = u at enable length
    have inside (pri : Nat) (member : pri ∈ (List.range' 1 (k.queue back).qBandp.length).reverse.filter qbf) :
        pri ≤ (u.queue back).qBandp.length := by
      rw [length]
      have range := List.mem_reverse.mp (List.mem_of_mem_filter member)
      rw [List.mem_range'_1] at range
      omega
    obtain ⟨steady, sets, _⟩ := steady_setqbacks _ inside
    generalize List.foldl _ u _ = v at steady sets
    have listed (pri : Nat) (positive : 0 < pri) (recorded : pri ≤ (k.queue back).qBandp.length) (marked : qbf pri = true) :
        (v.queue back).back pri := by
      refine sets pri (List.mem_filter.mpr ⟨List.mem_reverse.mpr ?_, marked⟩)
      rw [List.mem_range'_1]
      omega
    have none := @setqback_back back 0 v (Nat.zero_le _)
    cases zero with
    | true =>
      refine ⟨(enable.trans steady).trans (steady_setqback (Nat.zero_le _)), fun other some => ?_⟩
      cases found.symm.trans some
      exact ⟨fun pri positive recorded marked => none.2 pri (listed pri positive recorded marked), fun _ => none.1⟩
    | false =>
      refine ⟨enable.trans steady, fun other some => ?_⟩
      cases found.symm.trans some
      exact ⟨listed, fun set => by cases set⟩

/-! ## Writers -/

theorem Steady.gauge {g : Gauge} (steady : Steady k k') (found : (k.queue q).gauge pri = some g) :
    ∃ g', (k'.queue q).gauge pri = some g' ∧ g'.lowat = g.lowat ∧ g'.wantw = g.wantw := by
  have same := steady.marks q
  simp only [Queue.marks, Prod.mk.injEq] at same
  obtain ⟨⟨lowat, wantw⟩, bands⟩ := same
  cases pri with
  | zero =>
    cases found
    exact ⟨_, rfl, lowat, by simp [Queue.gauges, Queue.zero, wantw]⟩
  | succ i =>
    simp only [Queue.gauge, Queue.gauges, List.getElem?_map] at found ⊢
    obtain ⟨qbp, entry, rfl⟩ := Option.map_eq_some_iff.mp found
    have record := congrArg (·[i]?) bands
    simp only [List.getElem?_map, entry, Option.map_some] at record
    obtain ⟨qbp', entry', same⟩ := Option.map_eq_some_iff.mp record
    rw [Prod.mk.injEq] at same
    exact ⟨qbp'.gauge, by rw [entry']; rfl, same.1, by simp [Qband.gauge, same.2]⟩

theorem Steady.symm (steady : Steady k k') : Steady k' k :=
  ⟨fun p => (steady.marks p).symm, fun p => ⟨(steady.alike p).1.symm, (steady.alike p).2.1.symm, (steady.alike p).2.2.symm⟩,
    fun m => ⟨(steady.loads m).1.symm, (steady.loads m).2.symm⟩⟩

theorem Steady.wanted (steady : Steady k k') : (k'.queue q).wanted pri ↔ (k.queue q).wanted pri := by
  constructor
  · rintro ⟨g, found, wantw⟩
    obtain ⟨g', found', _, same⟩ := steady.symm.gauge found
    exact ⟨g', found', same.trans wantw⟩
  · rintro ⟨g, found, wantw⟩
    obtain ⟨g', found', _, same⟩ := steady.gauge found
    exact ⟨g', found', same.trans wantw⟩

theorem released_freed (queued : Queued nMsg k q list) (queued' : Queued nMsg u q (list.filter (k.stays flag)))
    (moved : Moved k u q list) (steady : Steady k u) (waits : (k.queue q).wanted pri) :
    (¬ ((released q u).queue q).wanted pri ↔ Freed k q flag list pri) ∧
      (Freed k q flag list pri → ∃ g, (u.queue q).gauge pri = some g ∧ g.wantw = true ∧ g.count < g.lowat) := by
  obtain ⟨g, found, wantw⟩ := waits
  obtain ⟨g', found', lowat, same⟩ := steady.gauge found
  have loads : Loads k u (list.filter (k.stays flag)) := fun m member =>
    ⟨band_of_key (queued.tallied.valid m (List.mem_of_mem_filter member)) (queued'.tallied.valid m member)
      (moved.keys m (List.mem_of_mem_filter member)) (steady.loads m).2, (steady.loads m).2, (steady.loads m).1⟩
  have count := gauge_count queued' found'
  rw [loads.band, loads.total (List.filter_subset_self _)] at count
  have freed : Freed k q flag list pri ↔ g'.count < g'.lowat := by
    rw [count, lowat]
    constructor
    · rintro ⟨other, there, _, below⟩
      cases found.symm.trans there
      exact below
    · exact fun below => ⟨g, found, wantw, below⟩
  refine ⟨?_, fun free => ⟨g', found', same.trans wantw, freed.mp free⟩⟩
  have gauge : ((released q u).queue q).gauge pri = some g'.relieved := by rw [released_gauge, found']; rfl
  rw [freed]
  constructor
  · intro gone
    by_contra most
    refine gone ⟨_, gauge, ?_⟩
    rw [Gauge.relieved, if_neg fun both => most both.2]
    exact same.trans wantw
  · rintro below ⟨other, there, still⟩
    cases gauge.symm.trans there
    rw [Gauge.relieved, if_pos ⟨same.trans wantw, below⟩] at still
    cases still

theorem released_length {p : Nat} : ((released q k).queue p).qBandp.length = (k.queue p).qBandp.length := by
  simp only [released, Kernel.setQueue, Function.update_apply]
  split
  · next here => rw [here, List.length_map]
  · rfl

theorem released_alike : Alike k (released q k) := flows_released.1.alike

/-- `flushq` marks a band that can be written. -/
theorem freed_marked (free : ∃ g, qp.gauge pri = some g ∧ g.wantw = true ∧ g.count < g.lowat) :
    (pri = 0 ∧ qp.writable) ∨ (0 < pri ∧ qp.qbf pri = true) := by
  obtain ⟨g, found, wantw, below⟩ := free
  cases pri with
  | zero =>
    cases found
    exact .inl ⟨rfl, Queue.zero_wantw.mp wantw, below⟩
  | succ i =>
    simp only [Queue.gauge, Queue.gauges, List.getElem?_map] at found
    obtain ⟨qbp, entry, rfl⟩ := Option.map_eq_some_iff.mp found
    have writable : qbp.writable := ⟨Qband.gauge_wantw.mp wantw, below⟩
    exact .inr ⟨Nat.succ_pos i, by simp [Queue.qbf, entry, writable]⟩

theorem qbf_any (marked : qp.qbf pri = true) : (qp.qBandp.any fun qbp => qbp.writable) = true := by
  simp only [Queue.qbf, Bool.decide_and, Bool.and_eq_true, decide_eq_true_eq] at marked
  obtain ⟨_, some⟩ := marked
  obtain ⟨qbp, entry, writable⟩ := (Option.any_eq_true _ _).mp some
  exact List.any_eq_true.mpr ⟨qbp, List.mem_of_getElem? entry, writable⟩

/-- The back queue is enabled and has the back-enable flag of the band. -/
def Told (k : Kernel) (back pri : Nat) : Prop := k.enabled back ∧ (k.queue back).back pri

/-- `flushq` tells the nearest back queue of every band whose writers it no longer keeps
waiting if and only if that queue has a record of each of them. -/
theorem flushq_tells_iff (queued : Queued nMsg k q list) (call : flushq nQueue nMsg q flag k = some k') :
    (∀ pri, (k.queue q).wanted pri → ¬ (k'.queue q).wanted pri → ∀ back, nearest k nQueue q = some back → Told k' back pri) ↔
    ∀ pri back, Freed k q flag list pri → nearest k nQueue q = some back → pri ≤ (k.queue back).qBandp.length := by
  obtain ⟨u, loop, queued', moved, steady⟩ := @requeue_steady nMsg q k list flag queued
  cases (flushq_tells loop).symm.trans call
  have path : nearest (released q u) nQueue q = nearest k nQueue q := (steady.alike.trans released_alike).nearest nQueue q
  have length (p : Nat) : ((released q u).queue p).qBandp.length = (k.queue p).qBandp.length :=
    released_length.trans (marks_length steady)
  obtain ⟨after, told⟩ := @tell_back nQueue q (released q u) (u.queue q).qbf (u.queue q).writable
  have enabled := (@flows_tell nQueue q (released q u) (u.queue q).qbf (u.queue q).writable).2
  have marks {pri : Nat} (free : Freed k q flag list pri) :
      (pri = 0 ∧ (u.queue q).writable) ∨ (0 < pri ∧ (u.queue q).qbf pri = true) := by
    obtain ⟨g, found, wantw, _⟩ := id free
    exact freed_marked ((released_freed queued queued' moved steady ⟨g, found, wantw⟩).2 free)
  have finds {pri : Nat} (free : Freed k q flag list pri) : (u.queue q).writable ∨
      ((u.queue q).qBandp.any fun qbp => qbp.writable) = true := by
    rcases marks free with ⟨_, zero⟩ | ⟨_, band⟩
    · exact .inl zero
    · exact .inr (qbf_any band)
  constructor
  · intro all pri back free found
    obtain ⟨g, there, wantw, _⟩ := id free
    have gone := (released_freed queued queued' moved steady ⟨g, there, wantw⟩).1.mpr free
    rw [if_pos (finds free)] at all
    obtain ⟨_, flagged⟩ := all pri ⟨g, there, wantw⟩ (mt after.wanted.mp gone) back found
    cases pri with
    | zero => exact Nat.zero_le _
    | succ i =>
      obtain ⟨qbp, entry, _⟩ := flagged
      rw [← length back, ← marks_length after]
      exact (List.getElem?_eq_some_iff.mp entry).1
  · intro recorded pri waits gone back found
    have still : ¬ ((released q u).queue q).wanted pri := by
      split at gone
      · exact mt after.wanted.mpr gone
      · exact gone
    have free := (released_freed queued queued' moved steady waits).1.mp still
    rw [if_pos (finds free)]
    rw [← path] at found
    refine ⟨enabled back found, ?_⟩
    rcases marks free with ⟨rfl, zero⟩ | ⟨positive, band⟩
    · exact (told back found).2 (decide_eq_true zero)
    · refine (told back found).1 pri positive ?_ band
      rw [length]
      exact recorded pri back free (path ▸ found)

/-- The read queue 0 has a band that a writer waits for, and 2 is the read queue behind it,
with the bands given. -/
def behind2 (bands : List Qband) : Kernel where
  msg _ := ⟨none, none, 0, 0, []⟩
  queue
    | 0 => ⟨none, none, none, 0, qreadr, 2, 1, [⟨0, none, none, 2, 1, qbWantw⟩], true⟩
    | 1 => ⟨none, none, some 3, 0, 0, 2, 1, [], true⟩
    | 2 => ⟨none, none, some 0, 0, qreadr, 2, 1, bands, true⟩
    | _ => ⟨none, none, none, 0, 0, 2, 1, [], true⟩
  qrun := []
  qrunflag := false
  zalloc := 5

theorem behind2_queued (bands : List Qband) : Queued 1 (behind2 bands) 0 [] := by
  refine ⟨.nil, ⟨.nil, nofun, nofun, nofun, rfl, fun i qbp entry => ?_⟩⟩
  cases i with
  | zero =>
    cases entry
    rfl
  | succ i => cases entry

theorem flushq_tells_iff_one : ∃ k', flushq 4 1 0 true (behind2 [⟨0, none, none, 2, 1, 0⟩]) = some k' ∧ Told k' 2 1 := by
  obtain ⟨k', call⟩ : ∃ k', flushq 4 1 0 true (behind2 [⟨0, none, none, 2, 1, 0⟩]) = some k' := ⟨_, rfl⟩
  have near : nearest (behind2 [⟨0, none, none, 2, 1, 0⟩]) 4 0 = some 2 := rfl
  have told := (flushq_tells_iff (behind2_queued _) call).mpr fun pri back free found => by
    cases near.symm.trans found
    obtain ⟨g, there, _⟩ := free
    match pri with
    | 0 | 1 => decide
    | pri + 2 => cases there
  refine ⟨k', call, told 1 ⟨_, rfl, rfl⟩ (fun ⟨g, found, wantw⟩ => ?_) 2 near⟩
  cases call
  cases found
  cases wantw

/-- The queue behind has no bands: a band is cleared there and not told of. -/
theorem flushq_forgets : ∃ k', flushq 4 1 0 true (behind2 []) = some k' ∧ ((behind2 []).queue 0).wanted 1 ∧
    ¬ (k'.queue 0).wanted 1 ∧ nearest (behind2 []) 4 0 = some 2 ∧ ¬ Told k' 2 1 := by
  refine ⟨_, rfl, ⟨_, rfl, rfl⟩, fun ⟨g, found, wantw⟩ => ?_, rfl, fun ⟨_, qbp, entry, _⟩ => ?_⟩
  · cases found
    cases wantw
  · cases entry

end

end Svr4.Streams
