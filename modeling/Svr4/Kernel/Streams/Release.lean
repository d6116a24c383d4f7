import Svr4.Kernel.Streams.Flow

/-! The calls that take messages off, and the writers that they release. -/

namespace Svr4.Streams

attribute [local simp] Gauge.release

/-- Where a writer stops waiting, the nearest back queue is to be run. -/
def Woken (nQueue : Nat) (k k' : Kernel) : Nat → Nat → Prop := fun q _ =>
  ∀ back, nearest k nQueue q = some back → k'.enabled back

section
variable {nMsg nQueue q pri mp i : Nat} {k k' k'' : Kernel} {qp : Queue} {count : Int} {blocks : List Int} {list : List Nat}
  {j : Nat} {g : Gauge}

theorem Tuned.trans {one two : Gauge → Gauge} (first : Tuned q pri one k k') (second : Tuned q pri two k' k'') :
    Tuned q pri (two ∘ one) k k'' := by
  refine ⟨fun p j => ?_, first.alike.trans second.alike, fun p enabled => second.enabled p (first.enabled p enabled),
    fun m => ⟨(second.loads m).1.trans (first.loads m).1, (second.loads m).2.trans (first.loads m).2⟩⟩
  rw [second.gauge, first.gauge]
  split
  · rw [Option.map_map]
  · rfl

/-! ## Counting down -/

theorem lower_full {flags mask other : Nat} {count hiwat : Int} (apart : mask &&& other = 0) :
    ((if count < hiwat then clear mask flags else flags) &&& mask ≠ 0 ↔ flags &&& mask ≠ 0 ∧ ¬ count < hiwat) ∧
    (if count < hiwat then clear mask flags else flags) &&& other = flags &&& other := by
  split <;> rename_i below
  · exact ⟨by simp [clear_self_and, below], clear_and apart⟩
  · exact ⟨by simp [below], rfl⟩

theorem tuned_lowerQueue :
    Tuned q 0 (Gauge.lower · (subBlocks (k.queue q).qCount blocks)) k (lowerQueue q blocks k).1 := by
  have marked (other : Nat) (apart : qfull &&& other = 0) := (@lower_full (k.queue q).qFlag qfull other
    (subBlocks (k.queue q).qCount blocks) (k.queue q).qHiwat) apart
  simp only [lowerQueue]
  refine tuned_setQueue (Gauge.eq_of_iff ⟨rfl, rfl, rfl⟩ ?_ ?_) rfl (marked qreadr (by decide)).2
    (marked qenab (by decide)).2 rfl rfl
  · rw [Gauge.lower_full, Queue.zero_full, Queue.zero_full]
    exact (marked qwantw (by decide)).1
  · rw [Gauge.lower_wantw, Queue.zero_wantw, Queue.zero_wantw, (marked qwantw (by decide)).2]

theorem tuned_lowerBand {qbp : Qband} :
    Tuned q (i + 1) (Gauge.lower · (subBlocks qbp.qbCount blocks)) k (lowerBand q i qbp blocks k).1 := by
  refine tuned_setBand fun old _ => ?_
  have full := (@lower_full old.qbFlag qbFull qbWantw (subBlocks qbp.qbCount blocks) old.qbHiwat) (by decide)
  refine Gauge.eq_of_iff ⟨rfl, rfl, rfl⟩ ?_ ?_
  · rw [Gauge.lower_full, Qband.gauge_full, Qband.gauge_full]
    exact full.1
  · rw [Gauge.lower_wantw, Qband.gauge_wantw, Qband.gauge_wantw, full.2]

theorem tuned_releaseQueue : Tuned q 0 Gauge.release k (k.setQueue q fun qp => { qp with qFlag := clear qwantw qp.qFlag }) := by
  refine tuned_setQueue (Gauge.eq_of_iff ⟨rfl, rfl, rfl⟩ ?_ ?_) rfl (clear_and (by decide)) (clear_and (by decide)) rfl rfl
  · change _ ↔ (k.queue q).zero.full = true
    rw [Queue.zero_full, Queue.zero_full, clear_and (by decide)]
  · rw [Queue.zero_wantw, clear_self_and]
    simp

theorem tuned_releaseBand :
    Tuned q (i + 1) Gauge.release k (k.setBand q i fun qbp => { qbp with qbFlag := clear qbWantw qbp.qbFlag }) := by
  refine tuned_setBand fun qbp _ => Gauge.eq_of_iff ⟨rfl, rfl, rfl⟩ ?_ ?_
  · change _ ↔ qbp.gauge.full = true
    rw [Qband.gauge_full, Qband.gauge_full, clear_and (by decide)]
  · rw [Qband.gauge_wantw, clear_self_and]
    simp

theorem Tuned.lowered (tuned : Tuned q pri (Gauge.lower · count) k k')
    (quiet : ∀ g, (k.queue q).gauge pri = some g → ¬ (g.lowat ≤ g.count ∧ count < g.lowat ∧ g.wantw = true)) :
    Flows nobody k k' :=
  tuned.flows (fun _ _ topped => topped.lower) (fun g found _ waited => waited.lower (quiet g found))
    fun _ _ wantw => .inl wantw

theorem Tuned.crossed (tuned : Tuned q pri (Gauge.lower · count) k k') (next : Tuned q pri Gauge.release k' k'') :
    Flows (Woken nQueue k (backenable nQueue q j k'')) k (backenable nQueue q j k'') := by
  have both := tuned.trans next
  obtain ⟨flows, enabled⟩ := (@flows_backenable k'' q j nQueue)
  refine (both.flows (fun _ _ topped => topped.lower.release) (fun _ _ _ _ => Gauge.Waited.release) fun _ _ _ => ?_).after flows
  refine .inr fun back found => enabled back ?_
  rw [both.alike.nearest]
  exact found

/-! ## `rmvq` -/

theorem unlink_kept (m : Nat) :
    ((unlink q mp k).msg m).blocks = (k.msg m).blocks ∧ ((unlink q mp k).msg m).dbType = (k.msg m).dbType := by
  simp only [unlink, Kernel.setQueue, Kernel.setMsg]
  cases (k.msg mp).bPrev <;> cases (k.msg mp).bNext <;> simp only [Function.update_apply] <;>
    (repeat' split) <;> simp_all

theorem flows_unlink : Flows nobody k (unlink q mp k) := flows_links unlink_queue unlink_kept

theorem Flows.woken (flows : Flows nobody k k') : Flows (Woken nQueue k k') k k' := flows.mono fun _ _ => False.elim

theorem Flows.later (flows : Flows nobody k k') (woken : Flows (Woken nQueue k' k'') k' k'') :
    Flows (Woken nQueue k k'') k k'' := by
  refine (flows.before woken).mono fun p j woken back found => woken back ?_
  rw [flows.alike.nearest]
  exact found

theorem Flows.sooner (woken : Flows (Woken nQueue k k') k k') (flows : Flows nobody k' k'') :
    Flows (Woken nQueue k k'') k k'' :=
  (woken.after flows).mono fun _ _ woken back found => flows.enabled back (woken back found)

theorem rmvq_flows (call : rmvq nQueue q mp k = some k') : Flows (Woken nQueue k k') k k' := by
  rw [rmvq] at call
  split at call <;> rename_i positive
  · simp only [Option.bind_eq_bind, Option.bind_eq_some_iff] at call
    obtain ⟨qbp, entry, call⟩ := call
    have ends : Flows nobody k (k.setBand q ((k.msg mp).bBand - 1) (rmvqEnds k mp)) := setBand_gauges fun _ => rfl
    have linked := ends.after (@flows_unlink q mp (k.setBand q ((k.msg mp).bBand - 1) (rmvqEnds k mp)))
    have gauge (g : Gauge) (found : ((unlink q mp (k.setBand q ((k.msg mp).bBand - 1) (rmvqEnds k mp))).queue q).gauge
        ((k.msg mp).bBand - 1 + 1) = some g) : g = qbp.gauge := by
      simp only [unlink_queue, Function.update_self, Queue.gauge, Queue.gauges, Kernel.setBand, Kernel.setQueue,
        List.getElem?_map, List.getElem?_modify, entry, Option.map_eq_map, Option.map_some, if_true,
        Option.some.injEq] at found
      exact found.symm
    split at call <;> rename_i low
    · cases call
      exact linked.later (tuned_lowerBand.crossed tuned_releaseBand)
    · cases call
      refine linked.later (tuned_lowerBand.lowered fun g found both => low ?_).woken
      obtain rfl := gauge g found
      obtain ⟨above, below, wantw⟩ := both
      refine ⟨?_, Qband.gauge_wantw.mp wantw⟩
      simp only [lowerBand, decide_eq_true_eq]
      exact ⟨above, not_le.mpr below⟩
  · simp only at call
    split at call <;> rename_i low
    · cases call
      exact flows_unlink.later (tuned_lowerQueue.crossed tuned_releaseQueue)
    · cases call
      refine flows_unlink.later (tuned_lowerQueue.lowered fun g found both => low ?_).woken
      cases found
      obtain ⟨above, below, wantw⟩ := both
      refine ⟨?_, Queue.zero_wantw.mp wantw⟩
      simp only [lowerQueue, decide_eq_true_eq]
      exact ⟨above, not_le.mpr below⟩

/-! ## `getq` -/

theorem flows_clearWantr : Flows nobody k (clearWantr q k) := by
  refine flows_setQueue ?_ (clear_and (by decide)) ?_ rfl rfl
  · simp only [Queue.gauges, Queue.zero, Queue.read, clear_and (show qwantr &&& qfull = 0 by decide),
      clear_and (show qwantr &&& qwantw = 0 by decide)]
  · simp only [Queue.read]
    rw [clear_and (by decide)]
    exact id

theorem flows_setWantr : Flows nobody k (k.setQueue q fun qp => { qp with qFlag := qp.qFlag ||| qwantr }) := by
  refine flows_setQueue ?_ (or_and (by decide)) ?_ rfl rfl
  · simp only [Queue.gauges, Queue.zero, or_and (show qwantr &&& qfull = 0 by decide),
      or_and (show qwantr &&& qwantw = 0 by decide)]
  · simp only [or_and (show qwantr &&& qenab = 0 by decide)]
    exact id

/-- Nobody waits for an empty queue, so `getq` does not look for a back queue. -/
theorem getq_flows {result : Option Nat × Kernel} (queued : Queued nMsg k q list) (topped : (k.queue q).Each Gauge.Topped)
    (waited : (k.queue q).Each Gauge.Waited) (defined : ∀ mp, (k.queue q).qFirst = some mp → ¬ Crossing k q mp)
    (call : getq nQueue q k = some result) : Flows (Woken nQueue k result.2) k result.2 := by
  cases first : (k.queue q).qFirst with
  | none =>
    have empty : list = [] := List.head?_eq_none_iff.mp (queued.doubly.first_eq.symm.trans first)
    have count : (k.queue q).qCount = 0 := by
      rw [queued.tallied.count, empty]
      rfl
    have unwanted : ¬ (k.queue q).qFlag &&& qwantw ≠ 0 := by
      intro wanted
      have most : (k.queue q).qLowat ≤ (k.queue q).qCount := waited 0 _ rfl (Queue.zero_wantw.mpr wanted)
      have least : 0 < (k.queue q).qLowat := (topped 0 _ rfl).positive
      omega
    have flag : ((k.setQueue q fun qp => { qp with qFlag := qp.qFlag ||| qwantr }).queue q).qFlag &&& qwantw =
        (k.queue q).qFlag &&& qwantw := by
      simp only [Kernel.setQueue, Function.update_self]
      exact or_and (by decide)
    simp only [getq, first] at call
    rw [if_neg fun both => unwanted (flag ▸ both.2)] at call
    cases call
    exact flows_setWantr.woken
  | some mp =>
    obtain ⟨right, rfl⟩ : ∃ right, list = mp :: right := by
      rw [queued.doubly.first_eq] at first
      exact List.head?_eq_some_iff.mp first
    obtain ⟨u, removed, got⟩ := getq_first queued (defined mp first)
    cases got.symm.trans call
    exact (rmvq_flows removed).sooner flows_clearWantr

/-! ## `flushq` -/

/-- The messages have no more bytes than the counts have numbers. -/
structure Light (k : Kernel) (list : List Nat) : Prop where
  positive : ∀ m ∈ list, 0 ≤ (k.msg m).blocks.sum
  total : ∀ pri, k.total (k.band pri list) < 4294967296

theorem total_nonneg (positive : ∀ m ∈ list, 0 ≤ (k.msg m).blocks.sum) : 0 ≤ k.total list :=
  List.sum_nonneg fun sum member => by
    obtain ⟨m, there, rfl⟩ := List.mem_map.mp member
    exact positive m there

theorem Light.congr (light : Light k list) (loads : Loads k k' list) : Light k' list := by
  refine ⟨fun m member => ?_, fun pri => ?_⟩
  · rw [(loads m member).2.2]
    exact light.positive m member
  · rw [loads.band, loads.total (List.filter_subset_self list)]
    exact light.total pri

theorem Light.sublist {sub : List Nat} (light : Light k list) (within : sub.Sublist list) : Light k sub := by
  refine ⟨fun m member => light.positive m (within.subset member), fun pri => ?_⟩
  have less : k.total (k.band pri sub) ≤ k.total (k.band pri list) := by
    refine List.Sublist.sum_le_sum ((within.filter _).map _) fun sum member => ?_
    obtain ⟨m, there, rfl⟩ := List.mem_map.mp member
    exact light.positive m (List.mem_of_mem_filter there)
  exact less.trans_lt (light.total pri)

theorem Msgb.Valid.onto {m : Msgb} (valid : m.Valid) : m.onto = m.bBand := by
  rw [Msgb.onto]
  split <;> rename_i high
  · refine (valid.1 ?_).symm
    by_contra low
    rw [queclass_normal low] at high
    cases high
  · rfl

theorem gauge_count (queued : Queued nMsg k q list) (found : (k.queue q).gauge pri = some g) :
    g.count = toUlong (k.total (k.band pri list)) := by
  cases pri with
  | zero =>
    rw [← Option.some.inj found]
    exact queued.tallied.count
  | succ i =>
    simp only [Queue.gauge, Queue.gauges, List.getElem?_map] at found
    obtain ⟨qbp, entry, rfl⟩ := Option.map_eq_some_iff.mp found
    exact congrArg Prod.fst (queued.tallied.bands i qbp entry)

theorem toUlong_nonneg (x : Int) : 0 ≤ toUlong x := Int.emod_nonneg x (by decide)

theorem Light.counted (light : Light k list) (queued : Queued nMsg k q list)
    (found : (k.queue q).gauge pri = some g) : g.count = k.total (k.band pri list) := by
  rw [gauge_count queued found]
  refine Int.emod_eq_of_lt (total_nonneg fun m member => ?_) (light.total pri)
  exact light.positive m (List.mem_of_mem_filter member)

theorem Light.fitting {kept rest : List Nat} (light : Light k (kept ++ mp :: rest)) (queued : Queued nMsg k q kept)
    (valid : (k.msg mp).Valid) : Fitting k q mp := by
  have front : Light k (kept ++ [mp]) := light.sublist (by simp)
  have joined := front.total (k.msg mp).bBand
  rw [total_band rfl, List.append_nil] at joined
  have before := front.sublist (List.sublist_append_left kept [mp])
  have positive : 0 ≤ k.total (k.band (k.msg mp).bBand kept) :=
    total_nonneg fun m member => before.positive m (List.mem_of_mem_filter member)
  refine ⟨light.positive mp (by simp), by omega, fun g found => ?_⟩
  rw [valid.onto] at found
  rw [before.counted queued found]
  exact joined

theorem putq_flows {done : Bool} (queued : Queued nMsg k q list) (fitting : Fitting k q mp)
    (call : putq nMsg q mp k = some (k', done)) : Flows nobody k k' := by
  refine put_flows ?_ fitting (fun j g found => ?_) call
  · exact fun _ _ _ => rfl
  · rw [gauge_count queued found]
    exact toUlong_nonneg _

theorem band_of_key {m m' : Msgb} (valid : m.Valid) (valid' : m'.Valid) (key : m'.key = m.key) (type : m'.dbType = m.dbType) :
    m'.bBand = m.bBand := by
  by_cases high : qpctl ≤ m.dbType
  · rw [valid.1 high, valid'.1 (type ▸ high)]
  · rw [key_normal high, key_normal (type ▸ high)] at key
    exact key

/-- The loop of `flushq` puts messages that were counted before. -/
theorem requeue_flows {flag : Bool} (queued : Queued nMsg k q list) (light : Light k list) :
    ∃ k', requeue nMsg q flag (nMsg + 1) (k.queue q).qFirst (emptied q k) = some k' ∧ Flows nobody (emptied q k) k' := by
  obtain ⟨k', result, -, -, flows, -⟩ := (@flushq_loop nMsg q k flag list
    (fun u kept rest => Flows nobody (emptied q k) u ∧ Light u (kept ++ rest)))
    (fun ⟨flows, light⟩ => ⟨flows, light.sublist (by simp)⟩)
    (fun ⟨flows, light⟩ queued valid put queued' framed key same => by
      have one := putq_flows queued (light.fitting queued valid) put
      refine ⟨flows.after one, ?_⟩
      rw [List.append_assoc]
      refine light.congr fun m member => ?_
      rcases List.mem_append.mp member with member | member
      · exact framed.loads m member
      · rcases List.mem_cons.mp member with rfl | member
        · have kept := one.loads m
          exact ⟨band_of_key valid (queued'.tallied.valid m (by simp)) key kept.2, kept.2, kept.1⟩
        · rw [same m member]
          exact ⟨rfl, rfl, rfl⟩)
    queued ⟨.refl, light.congr fun _ _ => ⟨rfl, rfl, rfl⟩⟩
  exact ⟨k', result, flows⟩

/-- The gauge of a band whose messages are gone. -/
def Gauge.emptied (g : Gauge) : Gauge := ⟨0, g.hiwat, g.lowat, false, g.wantw⟩

/-- The gauge of a band whose writer is released if it can be written. -/
def Gauge.relieved (g : Gauge) : Gauge := if g.wantw = true ∧ g.count < g.lowat then g.release else g

theorem Gauge.Topped.emptied (topped : g.Topped) : g.emptied.Topped := ⟨topped.positive, topped.ordered, nofun⟩

theorem Gauge.Topped.relieved (topped : g.Topped) : g.relieved.Topped := by
  rw [Gauge.relieved]
  split
  · exact topped.release
  · exact topped

theorem Gauge.relieved_waited : g.relieved.Waited := by
  rw [Gauge.relieved]
  split <;> rename_i both
  · exact Gauge.Waited.release
  · intro wantw
    by_contra below
    exact both ⟨wantw, not_le.mp below⟩

theorem setQueue_gauge {value : Queue → Queue} {change : Gauge → Gauge}
    (zero : (value (k.queue q)).zero = change (k.queue q).zero)
    (bands : (value (k.queue q)).qBandp.map Qband.gauge = ((k.queue q).qBandp.map Qband.gauge).map change) :
    ((k.setQueue q value).queue q).gauge j = ((k.queue q).gauge j).map change := by
  rw [setQueue_queue, if_pos rfl]
  cases j with
  | zero => simp only [Queue.gauge, Queue.gauges, zero, Option.map_some]
  | succ i => simp only [Queue.gauge, Queue.gauges, bands, List.getElem?_map]

theorem emptied_gauge : ((emptied q k).queue q).gauge j = ((k.queue q).gauge j).map Gauge.emptied := by
  refine setQueue_gauge (Gauge.eq_of_iff ⟨rfl, rfl, rfl⟩ ?_ ?_) ?_
  · rw [Queue.zero_full, clear_self_and]
    simp [Gauge.emptied]
  · change _ ↔ (k.queue q).zero.wantw = true
    rw [Queue.zero_wantw, Queue.zero_wantw, clear_and (by decide)]
  · rw [List.map_map, List.map_map]
    refine List.map_congr_left fun qbp _ => Gauge.eq_of_iff ⟨rfl, rfl, rfl⟩ ?_ ?_
    · change Gauge.full (Qband.gauge _) = true ↔ _
      rw [Qband.gauge_full, clear_self_and]
      simp [Gauge.emptied]
    · change Gauge.wantw (Qband.gauge _) = true ↔ qbp.gauge.wantw = true
      rw [Qband.gauge_wantw, Qband.gauge_wantw, clear_and (by decide)]

theorem released_gauge : ((released q k).queue q).gauge j = ((k.queue q).gauge j).map Gauge.relieved := by
  refine setQueue_gauge ?_ ?_
  · rw [Gauge.relieved]
    by_cases both : (k.queue q).qFlag &&& qwantw ≠ 0 ∧ (k.queue q).qCount < (k.queue q).qLowat
    · rw [if_pos both, if_pos ⟨Queue.zero_wantw.mpr both.1, both.2⟩]
      refine Gauge.eq_of_iff ⟨rfl, rfl, rfl⟩ ?_ ?_
      · change _ ↔ (k.queue q).zero.full = true
        rw [Queue.zero_full, Queue.zero_full, clear_and (by decide)]
      · rw [Queue.zero_wantw, clear_self_and]
        simp
    · rw [if_neg both, if_neg fun other => both ⟨Queue.zero_wantw.mp other.1, other.2⟩]
      rfl
  · rw [List.map_map, List.map_map]
    refine List.map_congr_left fun qbp _ => ?_
    simp only [Function.comp_apply, Gauge.relieved]
    by_cases both : qbp.writable
    · rw [if_pos both, if_pos ⟨Qband.gauge_wantw.mpr both.1, both.2⟩]
      refine Gauge.eq_of_iff ⟨rfl, rfl, rfl⟩ ?_ ?_
      · change _ ↔ qbp.gauge.full = true
        rw [Qband.gauge_full, Qband.gauge_full, clear_and (by decide)]
      · rw [Qband.gauge_wantw, clear_self_and]
        simp
    · rw [if_neg both, if_neg fun other => both ⟨Qband.gauge_wantw.mp other.1, other.2⟩]

/-- A band that a writer waits for can be written, so there is somebody to tell. -/
theorem relieved_condition (found : qp.gauge pri = some g) (wantw : g.wantw = true)
    (gone : ¬ g.relieved.wantw = true) :
    (qp.qFlag &&& qwantw ≠ 0 ∧ qp.qCount < qp.qLowat) ∨ (qp.qBandp.any fun qbp => qbp.writable) = true := by
  have below : g.count < g.lowat := by
    by_contra most
    rw [Gauge.relieved, if_neg fun both => most both.2] at gone
    exact gone wantw
  cases pri with
  | zero =>
    cases found
    exact .inl ⟨Queue.zero_wantw.mp wantw, below⟩
  | succ i =>
    simp only [Queue.gauge, Queue.gauges, List.getElem?_map] at found
    obtain ⟨qbp, entry, rfl⟩ := Option.map_eq_some_iff.mp found
    refine .inr (List.any_eq_true.mpr ⟨qbp, List.mem_of_getElem? entry, ?_⟩)
    exact decide_eq_true ⟨Qband.gauge_wantw.mp wantw, below⟩

theorem flows_setqbacks (pris : List Nat) : Flows nobody k (pris.foldl (fun k pri => setqback q pri k) k) := by
  induction pris generalizing k with
  | nil => exact .refl
  | cons pri pris ih => exact flows_setqback.after ih

theorem flows_tell {qbf : Nat → Bool} {zero : Bool} : Flows nobody k (tell nQueue q qbf zero k) ∧
    ∀ back, nearest k nQueue q = some back → (tell nQueue q qbf zero k).enabled back := by
  rw [tell]
  split <;> rename_i found
  · exact ⟨.refl, fun back some => by rw [found] at some; cases some⟩
  · rename_i back
    obtain ⟨flows, enabled⟩ := (@flows_qenable k back)
    have bands := (@flows_setqbacks back (qenable back k))
      ((List.range' 1 ((qenable back k).queue back).qBandp.length).reverse.filter qbf)
    have all : Flows nobody (qenable back k) (if zero = true then setqback back 0
        (((List.range' 1 ((qenable back k).queue back).qBandp.length).reverse.filter qbf).foldl
          (fun k pri => setqback back pri k) (qenable back k))
        else ((List.range' 1 ((qenable back k).queue back).qBandp.length).reverse.filter qbf).foldl
          (fun k pri => setqback back pri k) (qenable back k)) := by
      split
      · exact bands.after flows_setqback
      · exact bands
    refine ⟨flows.after all, fun other some => ?_⟩
    cases found.symm.trans some
    exact all.enabled _ (enabled (nearest_service found))

/-- What `flushq` does to flow control before its loop. -/
theorem flows_emptied : (∀ p, (k.queue p).Each Gauge.Topped → ((emptied q k).queue p).Each Gauge.Topped) ∧
    (∀ p, p ≠ q → (emptied q k).queue p = k.queue p) ∧
    (∀ p j, (k.queue p).wanted j → ((emptied q k).queue p).wanted j) ∧ Alike k (emptied q k) ∧
    ∀ p, k.enabled p → (emptied q k).enabled p := by
  have others (p : Nat) (differ : p ≠ q) : (emptied q k).queue p = k.queue p := by simp [emptied, Kernel.setQueue, differ]
  refine ⟨fun p topped j g found => ?_, others, fun p j wanted => ?_,
    alike_setQueue (clear_and (by decide)) rfl rfl, enabled_setQueue (by rw [clear_and (by decide)]; exact id)⟩
  · by_cases here : p = q
    · subst here
      rw [emptied_gauge] at found
      obtain ⟨old, was, rfl⟩ := Option.map_eq_some_iff.mp found
      exact (topped j old was).emptied
    · rw [others p here] at found
      exact topped j g found
  · obtain ⟨g, found, wantw⟩ := wanted
    by_cases here : p = q
    · subst here
      exact ⟨g.emptied, by rw [emptied_gauge, found]; rfl, wantw⟩
    · exact ⟨g, by rw [others p here, found], wantw⟩

theorem flows_released : Flows (fun p _ => p = q ∧ (((k.queue q).qFlag &&& qwantw ≠ 0 ∧
    (k.queue q).qCount < (k.queue q).qLowat) ∨ ((k.queue q).qBandp.any fun qbp => qbp.writable) = true)) k (released q k) ∧
    ((released q k).queue q).Each Gauge.Waited := by
  have others (p : Nat) (differ : p ≠ q) : (released q k).queue p = k.queue p := by simp [released, Kernel.setQueue, differ]
  have waits : ((released q k).queue q).Each Gauge.Waited := by
    intro j g found
    rw [released_gauge] at found
    obtain ⟨old, -, rfl⟩ := Option.map_eq_some_iff.mp found
    exact Gauge.relieved_waited
  refine ⟨⟨fun p topped j g found => ?_, fun p _ waited => ?_, fun p j ⟨g, found, wantw⟩ => ?_, alike_setQueue ?_ rfl rfl,
    enabled_setQueue ?_, fun _ => ⟨rfl, rfl⟩⟩, waits⟩
  · by_cases here : p = q
    · subst here
      rw [released_gauge] at found
      obtain ⟨old, was, rfl⟩ := Option.map_eq_some_iff.mp found
      exact (topped j old was).relieved
    · rw [others p here] at found
      exact topped j g found
  · by_cases here : p = q
    · exact here ▸ waits
    · rw [others p here]
      exact waited
  · by_cases here : p = q
    · subst here
      by_cases still : g.relieved.wantw = true
      · exact .inl ⟨g.relieved, by rw [released_gauge, found]; rfl, still⟩
      · exact .inr ⟨rfl, relieved_condition found wantw still⟩
    · exact .inl ⟨g, by rw [others p here, found], wantw⟩
  · split
    · exact clear_and (by decide)
    · rfl
  · split
    · rw [clear_and (by decide)]
      exact id
    · exact id

theorem flushq_flows {flag : Bool} (queued : Queued nMsg k q list) (light : Light k list)
    (call : flushq nQueue nMsg q flag k = some k') : Flows (Woken nQueue k k') k k' := by
  obtain ⟨u, loop, flows⟩ := (@requeue_flows _ _ _ _ flag) queued light
  obtain ⟨qbf, zero, result⟩ := (@flushq_eq _ nQueue _ _ _ _) loop
  cases result.symm.trans call
  obtain ⟨topped, others, wanted, alike, enabled⟩ := (@flows_emptied q k)
  obtain ⟨release, waits⟩ := (@flows_released q u)
  have finish : Flows nobody (released q u) (if ((u.queue q).qFlag &&& qwantw ≠ 0 ∧
      (u.queue q).qCount < (u.queue q).qLowat) ∨ ((u.queue q).qBandp.any fun qbp => qbp.writable) = true
      then tell nQueue q qbf zero (released q u) else released q u) := by
    split
    · exact flows_tell.1
    · exact .refl
  have rest := (flows.before release).after finish
  have path : Alike k (released q u) := (alike.trans flows.alike).trans release.alike
  refine ⟨fun p start => rest.topped p (topped p start), fun p start waited => ?_, fun p j waiting => ?_,
    alike.trans rest.alike, fun p runs => rest.enabled p (enabled p runs), rest.loads⟩
  · by_cases here : p = q
    · subst here
      exact finish.waited p ((flows.before release).topped p (topped p start)) waits
    · rw [← others p here] at start waited
      exact rest.waited p start waited
  · refine (rest.wanted p j (wanted p j waiting)).imp_right fun ⟨here, condition⟩ back found => ?_
    subst here
    rw [if_pos condition]
    refine flows_tell.2 back ?_
    rw [path.nearest]
    exact found

end

end Svr4.Streams
