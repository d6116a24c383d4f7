import Svr4.Kernel.Streams.Contents

/-! Flow control: the water marks, the writers that wait, and what each call does to them. -/

namespace Svr4.Streams

open Function
open Option (bind_eq_bind bind_eq_some_iff)

/-! ## Writers -/

/-- The queue that a writer is held up by. -/
def forward (k : Kernel) : Nat → Nat → Nat
  | 0, q => q
  | fuel + 1, q =>
    match (k.queue q).qNext with
    | none => q
    | some next => if (k.queue q).qiSrvp then q else forward k fuel next

def canput (nQueue q : Nat) (k : Kernel) : Bool × Kernel :=
  let q := forward k nQueue q
  if (k.queue q).qFlag &&& qfull ≠ 0 then
    (false, k.setQueue q fun qp => { qp with qFlag := qp.qFlag ||| qwantw })
  else (true, k)

def bcanput (nQueue q pri : Nat) (k : Kernel) : Bool × Kernel :=
  let q := forward k nQueue q
  if pri = 0 then
    if (k.queue q).qFlag &&& qfull ≠ 0 then
      (false, k.setQueue q fun qp => { qp with qFlag := qp.qFlag ||| qwantw })
    else (true, k)
  else
    match (k.queue q).qBandp[pri - 1]? with
    -- No band exists yet, so return success.
    | none => (true, k)
    | some qbp =>
      if qbp.qbFlag &&& qbFull ≠ 0 then
        (false, k.setBand q (pri - 1) fun qbp => { qbp with qbFlag := qbp.qbFlag ||| qbWantw })
      else (true, k)

/-! ## Gauges -/

/-- What flow control knows of a band. -/
structure Gauge where
  count : Int
  hiwat : Int
  lowat : Int
  full : Bool
  wantw : Bool

def Queue.zero (qp : Queue) : Gauge :=
  ⟨qp.qCount, qp.qHiwat, qp.qLowat, qp.qFlag &&& qfull ≠ 0, qp.qFlag &&& qwantw ≠ 0⟩

def Qband.gauge (qbp : Qband) : Gauge :=
  ⟨qbp.qbCount, qbp.qbHiwat, qbp.qbLowat, qbp.qbFlag &&& qbFull ≠ 0, qbp.qbFlag &&& qbWantw ≠ 0⟩

def Queue.gauges (qp : Queue) : Gauge × List Gauge := (qp.zero, qp.qBandp.map Qband.gauge)

def Queue.gauge (qp : Queue) : Nat → Option Gauge
  | 0 => some qp.gauges.1
  | i + 1 => qp.gauges.2[i]?

/-- A writer waits for the band. -/
def Queue.wanted (qp : Queue) (pri : Nat) : Prop := ∃ gauge, qp.gauge pri = some gauge ∧ gauge.wantw = true

def Queue.Each (holds : Gauge → Prop) (qp : Queue) : Prop := ∀ pri gauge, qp.gauge pri = some gauge → holds gauge

/-- The marks are in order, and the band is full only at its high water mark. -/
structure Gauge.Topped (g : Gauge) : Prop where
  positive : 0 < g.lowat
  ordered : g.lowat ≤ g.hiwat
  full : g.full = true → g.hiwat ≤ g.count

/-- A writer waits only while the band is at its low water mark. -/
def Gauge.Waited (g : Gauge) : Prop := g.wantw = true → g.lowat ≤ g.count

/-- The gauge of a new band. -/
def Gauge.fresh (g : Gauge) : Gauge := ⟨0, g.hiwat, g.lowat, false, false⟩

def Gauge.raise (g : Gauge) (count : Int) : Gauge := { g with count := count, full := g.full || g.hiwat ≤ count }

def Gauge.lower (g : Gauge) (count : Int) : Gauge := { g with count := count, full := g.full && ¬ count < g.hiwat }

def Gauge.release (g : Gauge) : Gauge := { g with wantw := false }

section
variable {g g' : Gauge} {count : Int} {qp : Queue} {qbp : Qband}

theorem Gauge.eq_of_iff (marks : g.count = g'.count ∧ g.hiwat = g'.hiwat ∧ g.lowat = g'.lowat)
    (full : g.full = true ↔ g'.full = true) (wantw : g.wantw = true ↔ g'.wantw = true) : g = g' := by
  cases g
  cases g'
  obtain ⟨count, hiwat, lowat⟩ := marks
  rw [Gauge.mk.injEq]
  exact ⟨count, hiwat, lowat, Bool.eq_iff_iff.mpr full, Bool.eq_iff_iff.mpr wantw⟩

theorem Gauge.raise_full : (g.raise count).full = true ↔ g.full = true ∨ g.hiwat ≤ count := by simp [Gauge.raise]

theorem Gauge.raise_wantw : (g.raise count).wantw = g.wantw := rfl

theorem Gauge.lower_wantw : (g.lower count).wantw = g.wantw := rfl

theorem Gauge.lower_full : (g.lower count).full = true ↔ g.full = true ∧ ¬ count < g.hiwat := by simp [Gauge.lower]

theorem Queue.zero_full : qp.zero.full = true ↔ qp.qFlag &&& qfull ≠ 0 := by simp [Queue.zero]

theorem Queue.zero_wantw : qp.zero.wantw = true ↔ qp.qFlag &&& qwantw ≠ 0 := by simp [Queue.zero]

theorem Qband.gauge_full : qbp.gauge.full = true ↔ qbp.qbFlag &&& qbFull ≠ 0 := by simp [Qband.gauge]

theorem Qband.gauge_wantw : qbp.gauge.wantw = true ↔ qbp.qbFlag &&& qbWantw ≠ 0 := by simp [Qband.gauge]

theorem Gauge.Topped.fresh (topped : g.Topped) : g.fresh.Topped := ⟨topped.positive, topped.ordered, by simp [Gauge.fresh]⟩

theorem Gauge.Topped.raise (topped : g.Topped) (more : g.count ≤ count) : (g.raise count).Topped := by
  refine ⟨topped.positive, topped.ordered, fun full => ?_⟩
  simp only [Gauge.raise, Bool.or_eq_true, decide_eq_true_eq] at full ⊢
  exact full.elim (fun full => Int.le_trans (topped.full full) more) id

theorem Gauge.Topped.lower (topped : g.Topped) : (g.lower count).Topped := by
  refine ⟨topped.positive, topped.ordered, fun full => ?_⟩
  simp only [Gauge.lower, Bool.and_eq_true, decide_eq_true_eq] at full ⊢
  omega

theorem Gauge.Topped.release (topped : g.Topped) : g.release.Topped := ⟨topped.positive, topped.ordered, topped.full⟩

theorem Gauge.Waited.fresh : g.fresh.Waited := by simp [Gauge.Waited, Gauge.fresh]

theorem Gauge.Waited.raise (waited : g.Waited) (more : g.count ≤ count) : (g.raise count).Waited :=
  fun wantw => Int.le_trans (waited wantw) more

theorem Gauge.Waited.lower (waited : g.Waited) (above : ¬ (g.lowat ≤ g.count ∧ count < g.lowat ∧ g.wantw = true)) :
    (g.lower count).Waited := by
  intro wantw
  have wanted : g.wantw = true := wantw
  have mark := waited wanted
  simp only [Gauge.lower]
  by_contra below
  exact above ⟨mark, by omega, wanted⟩

theorem Gauge.Waited.release : g.release.Waited := by simp [Gauge.Waited, Gauge.release]

end

/-! ## Stores -/

/-- The queue is on the list of those to be run. -/
def Kernel.enabled (k : Kernel) (q : Nat) : Prop := (k.queue q).qFlag &&& qenab ≠ 0

/-- What a call does to flow control, where `freed` are the bands whose writers no longer wait. -/
structure Flows (freed : Nat → Nat → Prop) (k k' : Kernel) : Prop where
  topped : ∀ q, (k.queue q).Each Gauge.Topped → (k'.queue q).Each Gauge.Topped
  waited : ∀ q, (k.queue q).Each Gauge.Topped → (k.queue q).Each Gauge.Waited → (k'.queue q).Each Gauge.Waited
  wanted : ∀ q pri, (k.queue q).wanted pri → (k'.queue q).wanted pri ∨ freed q pri
  alike : Alike k k'
  enabled : ∀ q, k.enabled q → k'.enabled q
  loads : ∀ m, (k'.msg m).blocks = (k.msg m).blocks ∧ (k'.msg m).dbType = (k.msg m).dbType

/-- No writer stops waiting. -/
abbrev nobody : Nat → Nat → Prop := fun _ _ => False

section
variable {freed other : Nat → Nat → Prop} {k k' k'' : Kernel} {q pri : Nat} {qp : Queue} {bp flags mask : Nat}
  {gauge : Gauge} {change : Gauge → Gauge}

theorem Alike.trans (one : Alike k k') (two : Alike k' k'') : Alike k k'' := fun q =>
  ⟨(two q).1.trans (one q).1, (two q).2.1.trans (one q).2.1, (two q).2.2.trans (one q).2.2⟩

theorem Alike.refl : Alike k k := fun _ => ⟨rfl, rfl, rfl⟩

theorem Flows.trans (one : Flows freed k k') (two : Flows other k' k'') :
    Flows (fun q pri => freed q pri ∨ other q pri) k k'' := by
  refine ⟨fun q topped => two.topped q (one.topped q topped),
    fun q topped waited => two.waited q (one.topped q topped) (one.waited q topped waited), fun q pri wanted => ?_,
    one.alike.trans two.alike, fun q enabled => two.enabled q (one.enabled q enabled), fun m => ?_⟩
  · rcases one.wanted q pri wanted with wanted | freed
    · exact (two.wanted q pri wanted).imp_right .inr
    · exact .inr (.inl freed)
  · exact ⟨(two.loads m).1.trans (one.loads m).1, (two.loads m).2.trans (one.loads m).2⟩

theorem Flows.mono (flows : Flows freed k k') (sub : ∀ q pri, freed q pri → other q pri) : Flows other k k' :=
  ⟨flows.topped, flows.waited, fun q pri wanted => (flows.wanted q pri wanted).imp_right (sub q pri), flows.alike,
    flows.enabled, flows.loads⟩

theorem Flows.after (one : Flows freed k k') (two : Flows nobody k' k'') : Flows freed k k'' :=
  (one.trans two).mono fun _ _ either => either.resolve_right id

theorem Flows.before (one : Flows nobody k k') (two : Flows freed k' k'') : Flows freed k k'' :=
  (one.trans two).mono fun _ _ either => either.resolve_left id

theorem flows_same (gauges : ∀ q, (k'.queue q).gauges = (k.queue q).gauges) (alike : Alike k k')
    (enabled : ∀ q, k.enabled q → k'.enabled q)
    (loads : ∀ m, (k'.msg m).blocks = (k.msg m).blocks ∧ (k'.msg m).dbType = (k.msg m).dbType) : Flows nobody k k' := by
  have gauge (q : Nat) : (k'.queue q).gauge = (k.queue q).gauge := by
    funext pri
    cases pri with
    | zero => simp only [Queue.gauge, gauges]
    | succ i => simp only [Queue.gauge, gauges]
  refine ⟨fun q => ?_, fun q _ => ?_, fun q pri => ?_, alike, enabled, loads⟩
  · rw [Queue.Each, Queue.Each, gauge]
    exact id
  · rw [Queue.Each, Queue.Each, gauge]
    exact id
  · rw [Queue.wanted, Queue.wanted, gauge]
    exact .inl

theorem Flows.refl : Flows nobody k k := flows_same (fun _ => rfl) .refl (fun _ => id) fun _ => ⟨rfl, rfl⟩

section
variable {value : Queue → Queue}

theorem setQueue_queue (p : Nat) : (k.setQueue q value).queue p = if p = q then value (k.queue q) else k.queue p := by
  simp [Kernel.setQueue, update_apply]

theorem alike_setQueue (reader : (value (k.queue q)).qFlag &&& qreadr = (k.queue q).qFlag &&& qreadr)
    (next : (value (k.queue q)).qNext = (k.queue q).qNext) (service : (value (k.queue q)).qiSrvp = (k.queue q).qiSrvp) :
    Alike k (k.setQueue q value) := by
  intro p
  rw [setQueue_queue]
  split <;> rename_i here
  · rw [here]
    exact ⟨reader, next, service⟩
  · exact ⟨rfl, rfl, rfl⟩

theorem enabled_setQueue (enabled : (k.queue q).qFlag &&& qenab ≠ 0 → (value (k.queue q)).qFlag &&& qenab ≠ 0) (p : Nat)
    (before : k.enabled p) : (k.setQueue q value).enabled p := by
  rw [Kernel.enabled, setQueue_queue]
  split <;> rename_i here
  · exact enabled (here ▸ before)
  · exact before

theorem flows_setQueue (gauges : (value (k.queue q)).gauges = (k.queue q).gauges)
    (reader : (value (k.queue q)).qFlag &&& qreadr = (k.queue q).qFlag &&& qreadr)
    (enabled : (k.queue q).qFlag &&& qenab ≠ 0 → (value (k.queue q)).qFlag &&& qenab ≠ 0)
    (next : (value (k.queue q)).qNext = (k.queue q).qNext) (service : (value (k.queue q)).qiSrvp = (k.queue q).qiSrvp) :
    Flows nobody k (k.setQueue q value) := by
  refine flows_same (fun p => ?_) (alike_setQueue reader next service) (enabled_setQueue enabled) fun _ => ⟨rfl, rfl⟩
  rw [setQueue_queue]
  split <;> rename_i here
  · rw [here, gauges]
  · rfl

end

theorem flows_setMsg {value : Msgb → Msgb} (blocks : ∀ m, (value m).blocks = m.blocks)
    (type : ∀ m, (value m).dbType = m.dbType) : Flows nobody k (k.setMsg bp value) := by
  refine flows_same (fun _ => rfl) .refl (fun _ => id) fun m => ?_
  simp only [Kernel.setMsg, update_apply]
  split <;> rename_i here
  · rw [here]
    exact ⟨blocks _, type _⟩
  · exact ⟨rfl, rfl⟩

/-! ## Enabling -/

theorem or_self_and : (flags ||| mask) &&& mask = mask := by
  rw [Nat.and_or_distrib_right, Nat.and_self]
  exact Nat.eq_of_testBit_eq fun i => by
    rw [Nat.testBit_or, Nat.testBit_and]
    cases flags.testBit i <;> cases mask.testBit i <;> rfl

theorem clear_self_and : clear mask flags &&& mask = 0 := by
  refine Nat.eq_of_testBit_eq fun i => ?_
  rw [Nat.testBit_and, testBit_clear, Nat.zero_testBit]
  cases flags.testBit i <;> cases mask.testBit i <;> rfl

theorem flows_qenable : Flows nobody k (qenable q k) ∧ ((k.queue q).qiSrvp = true → (qenable q k).enabled q) := by
  rw [qenable]
  split <;> rename_i service
  · exact ⟨.refl, fun has => absurd has service⟩
  · split <;> rename_i already
    · exact ⟨.refl, fun _ => already⟩
    · have stored : Flows nobody k (k.setQueue q fun qp => { qp with qFlag := qp.qFlag ||| qenab }) := by
        refine flows_setQueue ?_ (or_and (by decide)) (fun enabled => absurd enabled already) rfl rfl
        simp only [Queue.gauges, Queue.zero, or_and (show qenab &&& qfull = 0 by decide),
          or_and (show qenab &&& qwantw = 0 by decide)]
      refine ⟨⟨stored.topped, stored.waited, stored.wanted, stored.alike, stored.enabled, stored.loads⟩, fun _ => ?_⟩
      simp only [Kernel.enabled, Kernel.setQueue, update_self, or_self_and]
      decide

theorem nearest_service {fuel back : Nat} (found : nearest k fuel q = some back) : (k.queue back).qiSrvp = true := by
  induction fuel generalizing q with
  | zero => cases found
  | succ fuel ih =>
    simp only [nearest, bind_eq_bind, bind_eq_some_iff] at found
    obtain ⟨p, -, found⟩ := found
    split at found <;> rename_i service
    · exact Option.some.inj found ▸ service
    · exact ih found

theorem gauge_newband (found : Queue.gauge { qp with qBandp := qp.qBandp ++ [qp.newband] } pri = some gauge) :
    qp.gauge pri = some gauge ∨ gauge = qp.zero.fresh := by
  have fresh : qp.newband.gauge = qp.zero.fresh := by simp [Qband.gauge, Queue.newband, Gauge.fresh, Queue.zero]
  cases pri with
  | zero => exact .inl found
  | succ i =>
    simp only [Queue.gauge, Queue.gauges, List.map_append, List.getElem?_append] at found ⊢
    split at found
    · exact .inl found
    · refine .inr ((List.mem_singleton.mp ?_).trans fresh)
      exact List.mem_of_getElem? found

/-- More bands without messages. -/
theorem flows_addBands (n : Nat) : Flows nobody k (addBands q n k).1 := by
  induction n generalizing k with
  | zero => exact .refl
  | succ n ih =>
    rw [addBands]
    split
    · exact .refl
    · have memory : Flows nobody k { k with zalloc := k.zalloc - 1 } :=
        flows_same (fun _ => rfl) .refl (fun _ => id) fun _ => ⟨rfl, rfl⟩
      refine memory.before (Flows.before ?_ ih)
      generalize { k with zalloc := k.zalloc - 1 } = u
      have store (p : Nat) := (@setQueue_queue u q (fun qp => { qp with qBandp := qp.qBandp ++ [qp.newband] }) p)
      refine ⟨fun p topped pri gauge found => ?_, fun p topped waited pri gauge found => ?_, fun p pri wanted => ?_,
        alike_setQueue rfl rfl rfl, enabled_setQueue id, fun _ => ⟨rfl, rfl⟩⟩
      · rw [store] at found
        split at found <;> rename_i here
        · subst here
          rcases gauge_newband found with old | rfl
          · exact topped pri gauge old
          · exact (topped 0 _ rfl).fresh
        · exact topped pri gauge found
      · rw [store] at found
        split at found <;> rename_i here
        · subst here
          rcases gauge_newband found with old | rfl
          · exact waited pri gauge old
          · exact Gauge.Waited.fresh
        · exact waited pri gauge found
      · obtain ⟨gauge, found, wantw⟩ := wanted
        refine .inl ⟨gauge, ?_, wantw⟩
        rw [store]
        split <;> rename_i here
        · subst here
          cases pri with
          | zero => exact found
          | succ i =>
            simp only [Queue.gauge, Queue.gauges, List.map_append] at found ⊢
            exact (List.getElem?_append_left (List.getElem?_eq_some_iff.mp found).1).trans found
        · exact found

theorem addBands_gauge {n : Nat} (found : ((addBands q n k).1.queue q).gauge pri = some gauge) :
    (k.queue q).gauge pri = some gauge ∨ gauge.count = 0 := by
  induction n generalizing k with
  | zero => exact .inl found
  | succ n ih =>
    rw [addBands] at found
    split at found
    · exact .inl found
    · rcases ih found with old | none
      · simp only [Kernel.setQueue, update_self] at old
        rcases gauge_newband old with old | rfl
        · exact .inl old
        · exact .inr rfl
      · exact .inr none

theorem setBand_gauges {i : Nat} {value : Qband → Qband} (same : ∀ qbp, (value qbp).gauge = qbp.gauge) :
    Flows nobody k (k.setBand q i value) := by
  refine flows_setQueue ?_ rfl id rfl rfl
  simp only [Queue.gauges, Queue.zero, Prod.mk.injEq, true_and]
  refine List.ext_getElem? fun j => ?_
  simp only [List.getElem?_map, List.getElem?_modify]
  cases (k.queue q).qBandp[j]? with
  | none => rfl
  | some qbp => by_cases here : i = j <;> simp [here, same]

theorem flows_setqback : Flows nobody k (setqback q pri k) := by
  rw [setqback]
  split
  · have grown : Flows nobody k (needBand q pri k).1 := flows_addBands _
    simp only
    split
    · refine grown.after (setBand_gauges fun qbp => ?_)
      simp only [Qband.gauge, or_and (show qbBack &&& qbFull = 0 by decide), or_and (show qbBack &&& qbWantw = 0 by decide)]
    · exact grown
  · refine flows_setQueue ?_ (or_and (by decide)) ?_ rfl rfl
    · simp only [Queue.gauges, Queue.zero, or_and (show qback &&& qfull = 0 by decide),
        or_and (show qback &&& qwantw = 0 by decide)]
    · rw [or_and (show qback &&& qenab = 0 by decide)]
      exact id

theorem flows_backenable {nQueue : Nat} : Flows nobody k (backenable nQueue q pri k) ∧
    ∀ back, nearest k nQueue q = some back → (backenable nQueue q pri k).enabled back := by
  rw [backenable]
  split <;> rename_i found
  · exact ⟨.refl, fun back some => by rw [found] at some; cases some⟩
  · rename_i back
    obtain ⟨flows, enabled⟩ := (@flows_qenable k back)
    refine ⟨flows.after flows_setqback, fun other some => ?_⟩
    cases found.symm.trans some
    exact flows_setqback.enabled _ (enabled (nearest_service found))

/-! ## One gauge changes -/

/-- The gauge of one band of one queue changes, as `change` says. -/
structure Tuned (q pri : Nat) (change : Gauge → Gauge) (k k' : Kernel) : Prop where
  gauge : ∀ p j, (k'.queue p).gauge j = if p = q ∧ j = pri then ((k.queue p).gauge j).map change else (k.queue p).gauge j
  alike : Alike k k'
  enabled : ∀ p, k.enabled p → k'.enabled p
  loads : ∀ m, (k'.msg m).blocks = (k.msg m).blocks ∧ (k'.msg m).dbType = (k.msg m).dbType

theorem Tuned.flows (tuned : Tuned q pri change k k')
    (topped : ∀ g, (k.queue q).gauge pri = some g → g.Topped → (change g).Topped)
    (waited : ∀ g, (k.queue q).gauge pri = some g → g.Topped → g.Waited → (change g).Waited)
    (wanted : ∀ g, (k.queue q).gauge pri = some g → g.wantw = true → (change g).wantw = true ∨ freed q pri) :
    Flows freed k k' := by
  refine ⟨fun p before j g found => ?_, fun p start before j g found => ?_, fun p j ⟨g, found, wantw⟩ => ?_, tuned.alike,
    tuned.enabled, tuned.loads⟩
  · rw [tuned.gauge] at found
    split at found <;> rename_i here
    · obtain ⟨rfl, rfl⟩ := here
      obtain ⟨old, was, rfl⟩ := Option.map_eq_some_iff.mp found
      exact topped old was (before _ old was)
    · exact before j g found
  · rw [tuned.gauge] at found
    split at found <;> rename_i here
    · obtain ⟨rfl, rfl⟩ := here
      obtain ⟨old, was, rfl⟩ := Option.map_eq_some_iff.mp found
      exact waited old was (start _ old was) (before _ old was)
    · exact before j g found
  · by_cases here : p = q ∧ j = pri
    · obtain ⟨rfl, rfl⟩ := here
      refine (wanted g found wantw).imp_left fun still => ⟨change g, ?_, still⟩
      rw [tuned.gauge, if_pos ⟨rfl, rfl⟩, found]
      rfl
    · exact .inl ⟨g, by rw [tuned.gauge, if_neg here, found], wantw⟩

theorem tuned_setQueue {value : Queue → Queue}
    (zero : (value (k.queue q)).zero = change (k.queue q).zero) (bands : (value (k.queue q)).qBandp = (k.queue q).qBandp)
    (reader : (value (k.queue q)).qFlag &&& qreadr = (k.queue q).qFlag &&& qreadr)
    (enabled : (value (k.queue q)).qFlag &&& qenab = (k.queue q).qFlag &&& qenab)
    (next : (value (k.queue q)).qNext = (k.queue q).qNext) (service : (value (k.queue q)).qiSrvp = (k.queue q).qiSrvp) :
    Tuned q 0 change k (k.setQueue q value) := by
  refine ⟨fun p j => ?_, alike_setQueue reader next service, enabled_setQueue (by rw [enabled]; exact id),
    fun _ => ⟨rfl, rfl⟩⟩
  rw [setQueue_queue]
  by_cases here : p = q
  · subst here
    cases j with
    | zero => simp [Queue.gauge, Queue.gauges, zero]
    | succ i => simp [Queue.gauge, Queue.gauges, bands]
  · simp [here]

theorem tuned_setBand {i : Nat} {change : Gauge → Gauge} {value : Qband → Qband}
    (gauge : ∀ qbp, (k.queue q).qBandp[i]? = some qbp → (value qbp).gauge = change qbp.gauge) :
    Tuned q (i + 1) change k (k.setBand q i value) := by
  refine ⟨fun p j => ?_, alike_setQueue rfl rfl rfl, enabled_setQueue id, fun _ => ⟨rfl, rfl⟩⟩
  rw [Kernel.setBand, setQueue_queue]
  by_cases here : p = q
  · subst here
    cases j with
    | zero => simp [Queue.gauge, Queue.gauges, Queue.zero]
    | succ j =>
      simp only [Queue.gauge, Queue.gauges, List.getElem?_map, List.getElem?_modify, if_true, true_and, Nat.add_right_cancel_iff]
      by_cases index : j = i
      · subst index
        cases found : (k.queue p).qBandp[j]? with
        | none => simp
        | some qbp => simp [gauge qbp found]
      · simp [index, Ne.symm index]
  · simp [here]

/-! ## Putting -/

theorem flows_links {first last : Option Nat} (queue : k'.queue = update k.queue q
    { k.queue q with qFirst := first, qLast := last })
    (loads : ∀ m, (k'.msg m).blocks = (k.msg m).blocks ∧ (k'.msg m).dbType = (k.msg m).dbType) : Flows nobody k k' := by
  have same : k'.queue = (k.setQueue q fun qp => { qp with qFirst := first, qLast := last }).queue := queue
  have stored : Flows nobody k (k.setQueue q fun qp => { qp with qFirst := first, qLast := last }) :=
    flows_setQueue rfl rfl id rfl rfl
  have gauges (p : Nat) : (k'.queue p).gauges = (k.queue p).gauges := by
    rw [same, setQueue_queue]
    split <;> rename_i here
    · rw [here]
      rfl
    · rfl
  refine flows_same gauges (fun p => ?_) (fun p enabled => ?_) loads
  · rw [same]
    exact stored.alike p
  · rw [Kernel.enabled, same]
    exact stored.enabled p enabled

theorem splice_kept {before after : Option Nat} (m : Nat) :
    ((splice q bp before after k).msg m).blocks = (k.msg m).blocks ∧
      ((splice q bp before after k).msg m).dbType = (k.msg m).dbType := by
  cases before <;> cases after <;> simp only [splice, Kernel.setQueue, Kernel.setMsg, update_apply] <;>
    (repeat' split) <;> simp_all

theorem flows_splice {bp : Nat} {before after : Option Nat} : Flows nobody k (splice q bp before after k) :=
  flows_links splice_queue splice_kept

section
variable {find : Nat → Nat → Option Qband → Kernel → Option Place} {ends : Nat → Bool → Qband → Qband} {bp : Nat}
  {count : Int}

theorem raise_full {flags mask other : Nat} {count hiwat : Int} (apart : mask &&& other = 0) (bit : mask ≠ 0) :
    ((if count ≥ hiwat then flags ||| mask else flags) &&& mask ≠ 0 ↔ flags &&& mask ≠ 0 ∨ hiwat ≤ count) ∧
    (if count ≥ hiwat then flags ||| mask else flags) &&& other = flags &&& other := by
  split <;> rename_i reached
  · exact ⟨by simp [or_self_and, bit, reached], or_and apart⟩
  · exact ⟨by simp [reached], rfl⟩

/-- The stores of `putZero` and `putBand` behind the links. -/
def Queue.raise (count : Int) (qp : Queue) : Queue :=
  { qp with qCount := count, qFlag := if count ≥ qp.qHiwat then qp.qFlag ||| qfull else qp.qFlag }

theorem raise_zero : (qp.raise count).zero = qp.zero.raise count := by
  have full := (@raise_full qp.qFlag qfull qwantw count qp.qHiwat) (by decide) (by decide)
  refine Gauge.eq_of_iff ⟨rfl, rfl, rfl⟩ ?_ ?_
  · rw [Gauge.raise_full, Queue.zero_full, Queue.zero_full]
    exact full.1
  · rw [Gauge.raise_wantw, Queue.zero_wantw, Queue.zero_wantw, Queue.raise, full.2]

theorem Tuned.raised (tuned : Tuned q pri (Gauge.raise · count) k k')
    (more : ∀ g, (k.queue q).gauge pri = some g → g.count ≤ count) : Flows nobody k k' :=
  tuned.flows (fun g found topped => topped.raise (more g found)) (fun g found _ waited => waited.raise (more g found))
    fun _ _ wantw => .inl wantw

theorem putZero_flows (more : (k.queue q).qCount ≤ addBlocks (k.queue q).qCount (k.msg bp).blocks)
    (call : putZero find q bp k = some k') : Flows nobody k k' := by
  simp only [putZero, bind_eq_bind, bind_eq_some_iff] at call
  obtain ⟨⟨before, after⟩, -, call⟩ := call
  cases call
  have linked := (@flows_splice k q bp before after)
  have count : ((splice q bp before after k).queue q).qCount = (k.queue q).qCount := by simp [splice_queue]
  refine linked.after ?_
  rw [count, (linked.loads bp).1]
  generalize splice q bp before after k = u at count ⊢
  have marked (other : Nat) (apart : qfull &&& other = 0) := (@raise_full (u.queue q).qFlag qfull other
    (addBlocks (k.queue q).qCount (k.msg bp).blocks) (u.queue q).qHiwat) apart (by decide)
  have tuned : Tuned q 0 (Gauge.raise · (addBlocks (k.queue q).qCount (k.msg bp).blocks)) u
      (u.setQueue q (Queue.raise (addBlocks (k.queue q).qCount (k.msg bp).blocks))) :=
    tuned_setQueue raise_zero rfl (marked qreadr (by decide)).2 (marked qenab (by decide)).2 rfl rfl
  refine tuned.raised fun g found => ?_
  rw [← Option.some.inj found]
  exact Int.le_trans (Int.le_of_eq count) more

/-- The ends of a band are nothing to flow control. -/
theorem putBand_flows {qbp : Qband} (same : ∀ bp empty qbp, (ends bp empty qbp).gauge = qbp.gauge) (positive : pri ≠ 0)
    (entry : (k.queue q).qBandp[pri - 1]? = some qbp) (more : qbp.qbCount ≤ addBlocks qbp.qbCount (k.msg bp).blocks)
    (call : putBand find ends q bp pri k = some k') : Flows nobody k k' := by
  simp only [putBand, entry, bind_eq_bind, Option.bind_some, bind_eq_some_iff] at call
  obtain ⟨⟨before, after⟩, -, call⟩ := call
  cases call
  have linked := (@flows_splice k q bp before after)
  have bands : ((splice q bp before after k).queue q).qBandp = (k.queue q).qBandp := by simp [splice_queue]
  refine linked.after ?_
  rw [(linked.loads bp).1]
  rw [← bands] at entry
  generalize splice q bp before after k = u at entry ⊢
  obtain ⟨i, rfl⟩ := Nat.exists_eq_succ_of_ne_zero positive
  refine ((@tuned_setBand u q i (Gauge.raise · (addBlocks qbp.qbCount (k.msg bp).blocks)) _)
    fun old found => ?_).raised fun g found => ?_
  · have marks := same bp (decide ((k.queue q).qFirst = none)) old
    have full := (@raise_full old.qbFlag qbFull qbWantw (addBlocks qbp.qbCount (k.msg bp).blocks) old.qbHiwat)
      (by decide) (by decide)
    simp only [Qband.gauge, Gauge.mk.injEq] at marks
    refine Gauge.eq_of_iff ⟨rfl, marks.2.1, marks.2.2.1⟩ ?_ ?_
    · rw [Gauge.raise_full, Qband.gauge_full, Qband.gauge_full]
      exact full.1
    · rw [Gauge.raise_wantw, Qband.gauge_wantw, Qband.gauge_wantw, full.2]
  · have here : (u.queue q).qBandp[i]? = some qbp := entry
    simp only [Queue.gauge, Queue.gauges, List.getElem?_map, here, Option.map_some, Option.some.injEq] at found
    rw [← found]
    exact more

/-- The band that a message is put on. -/
def Msgb.onto (m : Msgb) : Nat := if m.queclass = qpctl then 0 else m.bBand

/-- The message has no more bytes than its band has numbers left. -/
structure Fitting (k : Kernel) (q bp : Nat) : Prop where
  positive : 0 ≤ (k.msg bp).blocks.sum
  alone : (k.msg bp).blocks.sum < 4294967296
  joined : ∀ g, (k.queue q).gauge (k.msg bp).onto = some g → g.count + (k.msg bp).blocks.sum < 4294967296

theorem addBlocks_fit {blocks : List Int} (positive : 0 ≤ count) (fits : count + blocks.sum < 4294967296)
    (more : 0 ≤ blocks.sum) : addBlocks count blocks = count + blocks.sum := by
  have small : toUlong count = count := Int.emod_eq_of_lt positive (by omega)
  rw [← small, addBlocks_eq, small]
  exact Int.emod_eq_of_lt (by omega) fits

theorem Fitting.more (fitting : Fitting k q bp) (positive : 0 ≤ count)
    (either : (∃ g, (k.queue q).gauge (k.msg bp).onto = some g ∧ g.count = count) ∨ count = 0) :
    count ≤ addBlocks count (k.msg bp).blocks := by
  have sum := fitting.positive
  have fits : count + (k.msg bp).blocks.sum < 4294967296 := by
    rcases either with ⟨g, found, rfl⟩ | rfl
    · exact fitting.joined g found
    · rw [Int.zero_add]
      exact fitting.alone
  rw [addBlocks_fit positive fits sum]
  omega

theorem put_flows {done : Bool} (same : ∀ bp empty qbp, (ends bp empty qbp).gauge = qbp.gauge) (fitting : Fitting k q bp)
    (counts : ∀ j g, (k.queue q).gauge j = some g → 0 ≤ g.count) (call : put find ends q bp k = some (k', done)) :
    Flows nobody k k' := by
  have enables {u : Kernel} {test : Prop} [Decidable test] : Flows nobody u (if test then qenable q u else u) := by
    split
    · exact flows_qenable.1
    · exact .refl
  rw [put] at call
  by_cases high : (k.msg bp).queclass = qpctl
  · have onto : (k.msg bp).onto = 0 := if_pos high
    have zeroed : Flows nobody k (k.setMsg bp fun m => { m with bBand := 0 }) := flows_setMsg (fun _ => rfl) fun _ => rfl
    simp only [high, if_true, ne_eq, not_true_eq_false, false_and, if_false, bind_eq_bind,
      bind_eq_some_iff] at call
    obtain ⟨u, inserted, call⟩ := call
    cases call
    refine (zeroed.after (putZero_flows ?_ inserted)).after enables
    rw [(zeroed.loads bp).1]
    exact fitting.more (counts 0 _ rfl) (.inl ⟨_, by rw [onto]; rfl, rfl⟩)
  · have onto : (k.msg bp).onto = (k.msg bp).bBand := if_neg high
    by_cases zero : (k.msg bp).bBand = 0
    · simp only [high, zero, if_false, ne_eq, not_true_eq_false, and_false, bind_eq_bind,
        bind_eq_some_iff] at call
      obtain ⟨u, inserted, call⟩ := call
      cases call
      exact (putZero_flows (fitting.more (counts 0 _ rfl) (.inl ⟨_, by rw [onto, zero]; rfl, rfl⟩)) inserted).after enables
    · simp only [high, zero, if_false, ne_eq, not_false_eq_true, and_true, if_true] at call
      have grown : Flows nobody k (needBand q (k.msg bp).bBand k).1 := flows_addBands _
      split at call
      · cases call
        exact grown
      · simp only [bind_eq_bind, bind_eq_some_iff] at call
        obtain ⟨u, inserted, call⟩ := call
        cases call
        refine (grown.after ?_).after enables
        cases entry : ((needBand q (k.msg bp).bBand k).1.queue q).qBandp[(k.msg bp).bBand - 1]? with
        | none => simp [putBand, entry] at inserted
        | some qbp =>
          have index : (k.msg bp).bBand - 1 + 1 = (k.msg bp).bBand := by omega
          have gauge : ((needBand q (k.msg bp).bBand k).1.queue q).gauge ((k.msg bp).bBand - 1 + 1) = some qbp.gauge := by
            simp [Queue.gauge, Queue.gauges, entry]
          rw [index] at gauge
          refine putBand_flows same zero entry ?_ inserted
          rw [(grown.loads bp).1]
          rcases addBands_gauge gauge with old | none
          · exact fitting.more (counts _ _ old) (.inl ⟨_, by rw [onto, old], rfl⟩)
          · exact fitting.more (Int.le_of_eq none.symm) (.inr none)

end

end

end Svr4.Streams
