import Svr4.Kernel.Streams.Release

/-! Whole runs: no writer waits for a band without messages, and none stops waiting
unless the queue behind is to be run.
-/

namespace Svr4.Streams

open Function

/-! ## Asking -/

/-- The gauge of a band that a writer asks for. -/
def Gauge.asked (g : Gauge) : Gauge := if g.full = true then { g with wantw := true } else g

variable {g : Gauge}

theorem Gauge.Topped.asked (topped : g.Topped) : g.asked.Topped := by
  rw [Gauge.asked]
  split
  · exact ⟨topped.positive, topped.ordered, topped.full⟩
  · exact topped

theorem Gauge.Waited.asked (topped : g.Topped) (waited : g.Waited) : g.asked.Waited := by
  rw [Gauge.asked]
  split <;> rename_i full
  · exact fun _ => topped.ordered.trans (topped.full full)
  · exact waited

theorem Gauge.asked_wantw (wantw : g.wantw = true) : g.asked.wantw = true := by
  rw [Gauge.asked]
  split
  · rfl
  · exact wantw

section
variable {nQueue q pri i : Nat} {k k' : Kernel}

theorem Tuned.asks (tuned : Tuned q pri Gauge.asked k k') : Flows nobody k k' :=
  tuned.flows (fun _ _ topped => topped.asked) (fun _ _ topped waited => waited.asked topped)
    fun _ _ wantw => .inl (Gauge.asked_wantw wantw)

theorem flows_wantQueue (full : (k.queue q).qFlag &&& qfull ≠ 0) :
    Flows nobody k (k.setQueue q fun qp => { qp with qFlag := qp.qFlag ||| qwantw }) := by
  refine Tuned.asks (tuned_setQueue ?_ rfl (or_and (by decide)) (or_and (by decide)) rfl rfl)
  rw [Gauge.asked, if_pos (Queue.zero_full.mpr full)]
  refine Gauge.eq_of_iff ⟨rfl, rfl, rfl⟩ ?_ ?_
  · change _ ↔ (k.queue q).zero.full = true
    rw [Queue.zero_full, Queue.zero_full, or_and (by decide)]
  · rw [Queue.zero_wantw, or_self_and]
    simp [qwantw]

theorem flows_wantBand {qbp : Qband} (entry : (k.queue q).qBandp[i]? = some qbp) (full : qbp.qbFlag &&& qbFull ≠ 0) :
    Flows nobody k (k.setBand q i fun qbp => { qbp with qbFlag := qbp.qbFlag ||| qbWantw }) := by
  refine Tuned.asks (tuned_setBand fun old found => ?_)
  cases entry.symm.trans found
  rw [Gauge.asked, if_pos (Qband.gauge_full.mpr full)]
  refine Gauge.eq_of_iff ⟨rfl, rfl, rfl⟩ ?_ ?_
  · change _ ↔ qbp.gauge.full = true
    rw [Qband.gauge_full, Qband.gauge_full, or_and (by decide)]
  · rw [Qband.gauge_wantw, or_self_and]
    simp [qbWantw]

theorem quiet_wantQueue : Quiet k (k.setQueue q fun qp => { qp with qFlag := qp.qFlag ||| qwantw }) :=
  quiet_setQueue (rep_flags _)

theorem canput_flows : Flows nobody k (canput nQueue q k).2 ∧ Quiet k (canput nQueue q k).2 := by
  simp only [canput]
  split <;> rename_i full
  · exact ⟨flows_wantQueue full, quiet_wantQueue⟩
  · exact ⟨.refl, .refl⟩

theorem bcanput_flows : Flows nobody k (bcanput nQueue q pri k).2 ∧ Quiet k (bcanput nQueue q pri k).2 := by
  simp only [bcanput]
  split
  · split <;> rename_i full
    · exact ⟨flows_wantQueue full, quiet_wantQueue⟩
    · exact ⟨.refl, .refl⟩
  · split <;> rename_i entry
    · exact ⟨.refl, .refl⟩
    · split <;> rename_i full
      · exact ⟨flows_wantBand entry full, quiet_setBand fun _ => rfl⟩
      · exact ⟨.refl, .refl⟩

end

/-! ## Steps -/

inductive Call where
  | queue (event : Event)
  | canput (q : Nat)
  | bcanput (q pri : Nat)
  deriving DecidableEq, Repr

/-- Other code leaves the marks and the streams as they are, and the flags of flow control. -/
structure Aside (k k' : Kernel) : Prop where
  elsewhere : Elsewhere k k'
  gauges : ∀ q, (k'.queue q).gauges = (k.queue q).gauges
  alike : Alike k k'

def Flowing (nMsg nQueue : Nat) (k : Kernel) (call : Call) (k' : Kernel) : Prop :=
  match call with
  | .queue .elsewhere => Aside k k'
  | .queue event => Step nMsg nQueue k event k'
  | .canput q => (canput nQueue q k).2 = k'
  | .bcanput q pri => (bcanput nQueue q pri k).2 = k'

/-- No queue has a message, and no band is full or waited for. -/
structure Idle (k : Kernel) : Prop where
  bare : Bare k
  calm : ∀ q, (k.queue q).Each fun g => g.full = false ∧ g.wantw = false

/-- The low water marks are positive and not above the high ones. -/
def Marked (k : Kernel) : Prop := ∀ q, (k.queue q).Each fun g => 0 < g.lowat ∧ g.lowat ≤ g.hiwat

/-- A message is put where its bytes can be counted, and `getq` is not called where it
follows a pointer that was not assigned. -/
def Bounded (k : Kernel) (call : Call) : Prop :=
  match call with
  | .queue (.putq q bp _) => Fitting k q bp
  | .queue (.putbq q bp _) => Fitting k q bp
  | .queue (.getq q) => ∀ mp, (k.queue q).qFirst = some mp → ¬ Crossing k q mp
  | _ => True

/-! ## The invariant -/

/-- The queues hold these lists, their bytes are counted, and writers wait only for bands
that are not below their low water marks. -/
structure Watched (nMsg : Nat) (k : Kernel) (lists : Nat → List Nat) : Prop where
  held : ∃ expected, Held nMsg k lists expected
  light : ∀ q, Light k (lists q)
  topped : ∀ q, (k.queue q).Each Gauge.Topped
  waited : ∀ q, (k.queue q).Each Gauge.Waited

section
variable {nMsg nQueue q pri bp : Nat} {k k' : Kernel} {lists : Nat → List Nat} {expected expected' : Nat → Nat → List Nat}
  {list touched : List Nat} {freed : Nat → Nat → Prop}

theorem Idle.watched (idle : Idle k) (marked : Marked k) : Watched nMsg k fun _ => [] := by
  refine ⟨⟨_, idle.bare.held⟩, fun _ => ⟨by simp, fun _ => by simp [Kernel.total]⟩, fun q pri g found => ?_, fun q pri g found wantw => ?_⟩
  · obtain ⟨positive, ordered⟩ := marked q pri g found
    refine ⟨positive, ordered, fun full => ?_⟩
    rw [(idle.calm q pri g found).1] at full
    cases full
  · rw [(idle.calm q pri g found).2] at wantw
    cases wantw

theorem Moved.key (moved : Moved k k' q touched) (m : Nat) : k'.key m = k.key m := by
  by_cases here : m ∈ touched
  · exact moved.keys m here
  · rw [Kernel.key, moved.outside m here]

theorem Held.loads {lists' : Nat → List Nat} {p : Nat} (held : Held nMsg k lists expected)
    (held' : Held nMsg k' lists' expected') (keys : ∀ m, k'.key m = k.key m)
    (loads : ∀ m, (k'.msg m).blocks = (k.msg m).blocks ∧ (k'.msg m).dbType = (k.msg m).dbType)
    (before : list ⊆ lists p) (after : list ⊆ lists' p) : Loads k k' list := fun m member =>
  ⟨band_of_key ((held.queued p).tallied.valid m (before member)) ((held'.queued p).tallied.valid m (after member)) (keys m)
    (loads m).2, (loads m).2, (loads m).1⟩

theorem Watched.shrink (watched : Watched nMsg k lists)
    (held : Held nMsg k lists expected) (held' : Held nMsg k' (update lists q list) expected')
    (moved : Moved k k' q touched) (sub : list.Sublist (lists q)) (flows : Flows freed k k') :
    Watched nMsg k' (update lists q list) := by
  have less (p : Nat) : (update lists q list p).Sublist (lists p) := by
    rw [update_apply]
    split <;> rename_i here
    · exact here ▸ sub
    · exact List.Sublist.refl _
  refine ⟨⟨_, held'⟩, fun p => ?_, fun p => flows.topped p (watched.topped p),
    fun p => flows.waited p (watched.topped p) (watched.waited p)⟩
  exact ((watched.light p).sublist (less p)).congr
    (held.loads held' moved.key flows.loads (less p).subset (List.Subset.refl _))

theorem Fitting.light {left right : List Nat} (fitting : Fitting k q bp) (queued : Queued nMsg k q (left ++ right))
    (light : Light k (left ++ right)) (loads : Loads k k' (left ++ right)) (onto : (k'.msg bp).bBand = (k.msg bp).onto)
    (same : (k'.msg bp).blocks = (k.msg bp).blocks) : Light k' (left ++ bp :: right) := by
  have others := light.congr loads
  refine ⟨fun m member => ?_, fun pri => ?_⟩
  · rcases List.mem_cons.mp (List.perm_middle.mem_iff.mp member) with rfl | member
    · rw [same]
      exact fitting.positive
    · exact others.positive m member
  · by_cases here : (k'.msg bp).bBand = pri
    · rw [total_band here, loads.band, loads.total (List.filter_subset_self _), same]
      rw [onto] at here
      cases found : (k.queue q).gauge pri with
      | none =>
        -- Without a record there is no message of the band yet.
        have empty : k.band pri (left ++ right) = [] := by
          refine List.filter_eq_nil_iff.mpr fun m member => ?_
          simp only [decide_eq_true_eq]
          rintro rfl
          have within := queued.tallied.within m member
          cases band : (k.msg m).bBand with
          | zero =>
            rw [band] at found
            cases found
          | succ i =>
            rw [band] at found within
            simp only [Queue.gauge, Queue.gauges, List.getElem?_eq_none_iff, List.length_map] at found
            omega
        rw [show List.filter _ _ = [] from empty]
        have alone := fitting.alone
        simpa [Kernel.total] using alone
      | some g =>
        have joined := fitting.joined g (here ▸ found)
        rw [light.counted queued found] at joined
        exact joined
    · rw [band_other here]
      exact others.total pri

theorem Watched.put {done : Bool} {find : Nat → Nat → Option Qband → Kernel → Option Place}
    {ends : Nat → Bool → Qband → Qband} {above : Nat → Nat → Prop} {join : Nat → List Nat → List Nat}
    (watched : Watched nMsg k lists) (putter : Putter nMsg find ends above join)
    (same : ∀ bp empty qbp, (ends bp empty qbp).gauge = qbp.gauge) (loose : Loose nMsg k bp) (fitting : Fitting k q bp)
    (call : ∀ result, Streams.put find ends q bp k = some result → result = (k', done)) :
    (∃ lists', Watched nMsg k' lists') ∧ Flows nobody k k' := by
  obtain ⟨expected, held⟩ := watched.held
  obtain ⟨list, held', moved, either⟩ := held.put putter loose call
  have free : bp ∉ lists q := fun member => loose.free q (held.onQueue_iff.mpr member)
  obtain ⟨u, again, result, -⟩ := put_queued putter (held.queued q) loose.known free loose.small
  obtain ⟨rfl, rfl⟩ := Prod.mk.inj (call _ result)
  have flows : Flows nobody k u := by
    refine put_flows same fitting (fun j g found => ?_) result
    rw [gauge_count (held.queued q) found]
    exact toUlong_nonneg _
  rcases either with rfl | ⟨left, right, split, rfl⟩
  · exact ⟨⟨_, watched.shrink held held' moved (List.Sublist.refl _) flows⟩, flows⟩
  · refine ⟨⟨_, ⟨⟨_, held'⟩, fun p => ?_, fun p => flows.topped p (watched.topped p),
      fun p => flows.waited p (watched.topped p) (watched.waited p)⟩⟩, flows⟩
    have stays : left ++ right ⊆ left ++ bp :: right := fun m member =>
      List.perm_middle.mem_iff.mpr (.tail _ member)
    by_cases here : p = q
    · subst here
      have mine := held'.queued p
      rw [update_self] at mine ⊢
      have loads : Loads k u (left ++ right) := by
        refine held.loads held' moved.key flows.loads (p := p) (fun m member => split ▸ member) ?_
        rw [update_self]
        exact stays
      have queued := held.queued p
      have light := watched.light p
      rw [split] at queued light
      refine fitting.light queued light loads ?_ (flows.loads bp).1
      -- A message of high priority goes to band 0.
      have valid : (u.msg bp).Valid := mine.tallied.valid bp (by simp)
      by_cases high : qpctl ≤ (k.msg bp).dbType
      · rw [valid.1 ((flows.loads bp).2 ▸ high), Msgb.onto, if_pos (queclass_high high)]
      · have key := moved.key bp
        rw [Kernel.key, Kernel.key, key_normal high, key_normal ((flows.loads bp).2 ▸ high)] at key
        rw [key, Msgb.onto, queclass_normal high]
        rfl
    · rw [update_of_ne here]
      refine (watched.light p).congr (held.loads held' moved.key flows.loads (List.Subset.refl _) ?_)
      rw [update_of_ne here]
      exact List.Subset.refl _

theorem Watched.quiet (watched : Watched nMsg k lists) (quiet : Quiet k k')
    (flows : Flows freed k k') : Watched nMsg k' lists := by
  obtain ⟨expected, held⟩ := watched.held
  refine ⟨⟨_, held.quiet quiet⟩, fun p => ?_, fun p => flows.topped p (watched.topped p),
    fun p => flows.waited p (watched.topped p) (watched.waited p)⟩
  exact (watched.light p).congr fun m _ => by rw [quiet.msg]; exact ⟨rfl, rfl, rfl⟩

theorem Watched.aside (watched : Watched nMsg k lists) (aside : Aside k k') :
    Watched nMsg k' lists ∧ ∀ q, (k'.queue q).gauge = (k.queue q).gauge := by
  obtain ⟨expected, held⟩ := watched.held
  have gauge (q : Nat) : (k'.queue q).gauge = (k.queue q).gauge := by
    funext pri
    cases pri with
    | zero => simp only [Queue.gauge, aside.gauges]
    | succ i => simp only [Queue.gauge, aside.gauges]
  refine ⟨⟨⟨_, held.elsewhere aside.elsewhere⟩, fun p => ?_, fun p => ?_, fun p => ?_⟩, gauge⟩
  · refine (watched.light p).congr fun m member => ?_
    rw [aside.elsewhere.msg m p (held.onQueue_iff.mpr member)]
    exact ⟨rfl, rfl, rfl⟩
  · rw [Queue.Each, gauge]
    exact watched.topped p
  · rw [Queue.Each, gauge]
    exact watched.waited p

/-- Every step keeps the invariant, and where a writer stops waiting the nearest back
queue is to be run. -/
theorem Watched.step {call : Call} (watched : Watched nMsg k lists) (step : Flowing nMsg nQueue k call k')
    (bounded : Bounded k call) : (∃ lists', Watched nMsg k' lists') ∧
      ∀ q pri, (k.queue q).wanted pri → (k'.queue q).wanted pri ∨ Woken nQueue k k' q pri := by
  have nobody_told (flows : Flows nobody k k') (q pri : Nat) (waiting : (k.queue q).wanted pri) :
      (k'.queue q).wanted pri ∨ Woken nQueue k k' q pri := .inl ((flows.wanted q pri waiting).resolve_right id)
  obtain ⟨expected, held⟩ := watched.held
  cases call with
  | canput q =>
    obtain ⟨flows, quiet⟩ := (@canput_flows nQueue q k)
    obtain rfl := step
    exact ⟨⟨_, watched.quiet quiet flows⟩, nobody_told flows⟩
  | bcanput q pri =>
    obtain ⟨flows, quiet⟩ := (@bcanput_flows nQueue q pri k)
    obtain rfl := step
    exact ⟨⟨_, watched.quiet quiet flows⟩, nobody_told flows⟩
  | queue event =>
    cases event with
    | putq q bp done =>
      obtain ⟨loose, call⟩ := step
      obtain ⟨watched', flows⟩ := watched.put putq_putter (fun _ _ _ => rfl) loose bounded call
      exact ⟨watched', nobody_told flows⟩
    | putbq q bp done =>
      obtain ⟨loose, call⟩ := step
      obtain ⟨watched', flows⟩ := watched.put putbq_putter (fun _ _ _ => rfl) loose bounded call
      exact ⟨watched', nobody_told flows⟩
    | getq q =>
      have fed : (k.queue q).qFirst = none → ¬ Starved nQueue k q := by
        rintro first ⟨below, wanted, -⟩
        have most : (k.queue q).qLowat ≤ (k.queue q).qCount := watched.waited q 0 _ rfl (Queue.zero_wantw.mpr wanted)
        omega
      obtain ⟨list, held', moved, sub⟩ := held.getq ⟨bounded, fed⟩ step
      obtain ⟨result, got⟩ : ∃ result, getq nQueue q k = some result := by
        cases first : (k.queue q).qFirst with
        | none =>
          obtain ⟨u, got, -⟩ := getq_empty first (fed first)
          exact ⟨_, got⟩
        | some mp =>
          obtain ⟨right, split⟩ : ∃ right, lists q = mp :: right := by
            rw [(held.queued q).doubly.first_eq] at first
            exact List.head?_eq_some_iff.mp first
          have queued := held.queued q
          rw [split] at queued
          obtain ⟨u, -, got⟩ := (@getq_first nMsg nQueue q mp k right) queued (bounded mp first)
          exact ⟨_, got⟩
      obtain rfl := step result got
      have flows := getq_flows (held.queued q) (watched.topped q) (watched.waited q) bounded got
      exact ⟨⟨_, watched.shrink held held' moved sub flows⟩, flows.wanted⟩
    | rmvq q mp =>
      obtain ⟨there, call⟩ := step
      have member := held.onQueue_iff.mp there
      obtain ⟨list, held', moved, sub⟩ := held.rmvq member call
      obtain ⟨left, right, split⟩ := List.append_of_mem member
      have queued := held.queued q
      rw [split] at queued
      obtain ⟨u, result, -⟩ := rmvq_queued queued
      obtain rfl := call u result
      have flows := rmvq_flows result
      exact ⟨⟨_, watched.shrink held held' moved sub flows⟩, flows.wanted⟩
    | flushq q flag =>
      obtain ⟨list, held', moved, sub⟩ := held.flushq step
      obtain ⟨u, result, -⟩ := (@flushq_queued nMsg nQueue q k flag (lists q)) (held.queued q)
      obtain rfl := step u result
      have flows := flushq_flows (held.queued q) (watched.light q) result
      exact ⟨⟨_, watched.shrink held held' moved sub flows⟩, flows.wanted⟩
    | elsewhere =>
      obtain ⟨watched', gauge⟩ := watched.aside step
      refine ⟨⟨_, watched'⟩, fun q pri waiting => .inl ?_⟩
      rw [Queue.wanted, gauge]
      exact waiting

/-! ## Runs -/

theorem reaches_watched (reached : Reaches (fun k => Idle k ∧ Marked k) (Flowing nMsg nQueue) Bounded k) :
    ∃ lists, Watched nMsg k lists := by
  induction reached with
  | start first => exact ⟨_, first.1.watched first.2⟩
  | next _ step bounded ih =>
    obtain ⟨lists, watched⟩ := ih
    exact (watched.step step bounded).1

/-- The band has no messages. -/
def Vacant (k : Kernel) (q pri : Nat) : Prop := ∀ m, OnQueue k q m → (k.msg m).bBand ≠ pri

theorem Watched.vacant (watched : Watched nMsg k lists) (vacant : Vacant k q pri) : ¬ (k.queue q).wanted pri := by
  rintro ⟨g, found, wantw⟩
  obtain ⟨expected, held⟩ := watched.held
  have none : k.band pri (lists q) = [] := List.filter_eq_nil_iff.mpr fun m member => by
    simpa using vacant m (held.onQueue_iff.mpr member)
  have most := watched.waited q pri g found wantw
  have least := (watched.topped q pri g found).positive
  rw [gauge_count (held.queued q) found, none] at most
  have zero : toUlong (k.total []) = 0 := rfl
  omega

/-- With low water marks that are positive and not above the high ones, in every state
reached no writer waits for a band without messages, and whatever is called next, where a
writer stops waiting the nearest back queue is to be run. -/
theorem writers_remembered (reached : Reaches (fun k => Idle k ∧ Marked k) (Flowing nMsg nQueue) Bounded k) :
    (∀ q pri, Vacant k q pri → ¬ (k.queue q).wanted pri) ∧
    ∀ call k', Flowing nMsg nQueue k call k' → Bounded k call →
      ∀ q pri, (k.queue q).wanted pri → ¬ (k'.queue q).wanted pri →
        ∀ back, nearest k nQueue q = some back → k'.enabled back := by
  obtain ⟨lists, watched⟩ := reaches_watched reached
  refine ⟨fun q pri vacant => watched.vacant vacant, fun call k' step bounded q pri waiting gone => ?_⟩
  exact ((watched.step step bounded).2 q pri waiting).resolve_left gone

end

/-- Two modules, one above the other, with high water marks of 1: queue 1 is written by way
of queue 3. The messages have one byte. -/
def duplex (lowat : Int) : Kernel where
  msg _ := ⟨none, none, 0, mData, [1]⟩
  queue q := ⟨none, none, if q = 0 then some 2 else if q = 3 then some 1 else none, 0, if q % 2 = 0 then qreadr else 0, 1,
    lowat, [], true⟩
  qrun := []
  qrunflag := false
  zalloc := 0

/-- A message is put on queue 1. -/
def filled (lowat : Int) : Kernel := ((putq 1 1 0 (duplex lowat)).getD (duplex lowat, false)).1

/-- Another one may not be put. -/
def heldUp (lowat : Int) : Kernel := (canput 4 1 (filled lowat)).2

/-- The message is taken off. -/
def drained (lowat : Int) : Kernel := ((getq 4 1 (heldUp lowat)).getD (none, heldUp lowat)).2

/-- The next call, on the empty queue. -/
def asked : Kernel := ((getq 4 1 (drained 0)).getD (none, drained 0)).2

theorem duplex_gauge {lowat : Int} {q pri : Nat} (found : ((duplex lowat).queue q).gauge pri = some g) :
    g = ⟨0, 1, lowat, false, false⟩ := by
  cases pri with
  | zero =>
    have zero : ((duplex lowat).queue q).zero = g := Option.some.inj found
    rw [← zero]
    refine Gauge.eq_of_iff ⟨rfl, rfl, rfl⟩ ?_ ?_
    · rw [Queue.zero_full]
      by_cases even : q % 2 = 0 <;> simp [duplex, even, qreadr, qfull]
    · rw [Queue.zero_wantw]
      by_cases even : q % 2 = 0 <;> simp [duplex, even, qreadr, qwantw]
  | succ i => cases found

theorem duplex_idle (lowat : Int) : Idle (duplex lowat) := by
  refine ⟨⟨fun _ => rfl, fun _ => rfl, fun _ => rfl, fun _ _ member => nomatch member⟩, fun q pri g found => ?_⟩
  rw [duplex_gauge found]
  exact ⟨rfl, rfl⟩

theorem duplex_fitting (lowat : Int) : Fitting (duplex lowat) 1 0 := by
  refine ⟨by simp [duplex], by simp [duplex], fun g found => ?_⟩
  rw [duplex_gauge found]
  simp [duplex]

theorem duplex_reaches {start : Kernel → Prop} {lowat : Int} (first : start (duplex lowat)) :
    Reaches start (Flowing 1 4) Bounded (heldUp lowat) := by
  have result : putq 1 1 0 (duplex lowat) = some (filled lowat, true) := rfl
  have put : Flowing 1 4 (duplex lowat) (.queue (.putq 1 0 true)) (filled lowat) := by
    refine ⟨⟨by decide, fun q => ?_, Nat.zero_le _⟩, fun other again => Option.some.inj (again.symm.trans result)⟩
    rintro ⟨list, chain, member⟩
    rw [Chain.nil_iff.mp chain] at member
    cases member
  have ask : Flowing 1 4 (filled lowat) (.canput 1) (heldUp lowat) := rfl
  exact .next (.next (.start first) put (duplex_fitting lowat)) ask trivial

theorem duplex_bounded {lowat : Int} (first : ((heldUp lowat).queue 1).qFirst = some 0)
    (zero : ((heldUp lowat).msg 0).bBand = 0) : Bounded (heldUp lowat) (.queue (.getq 1)) := by
  intro mp head
  cases first.symm.trans head
  exact fun crossing => crossing.1 zero

theorem writers_remembered_duplex : Bounded (heldUp 1) (.queue (.getq 1)) ∧ ((heldUp 1).queue 1).wanted 0 ∧
    ¬ ((drained 1).queue 1).wanted 0 ∧ (drained 1).enabled 3 := by
  have marked : Marked (duplex 1) := by
    intro q pri g found
    rw [duplex_gauge found]
    decide
  have result : getq 4 1 (heldUp 1) = some (some 0, drained 1) := rfl
  have step : Flowing 1 4 (heldUp 1) (.queue (.getq 1)) (drained 1) := fun other again => by
    rw [← Option.some.inj (result.symm.trans again)]
  have waiting : ((heldUp 1).queue 1).wanted 0 := ⟨_, rfl, rfl⟩
  have gone : ¬ ((drained 1).queue 1).wanted 0 := by
    rintro ⟨g, found, wantw⟩
    cases found
    cases wantw
  have reached := (@duplex_reaches (fun k => Idle k ∧ Marked k) 1) ⟨duplex_idle 1, marked⟩
  have bounded : Bounded (heldUp 1) (.queue (.getq 1)) := duplex_bounded rfl rfl
  exact ⟨bounded, waiting, gone, (writers_remembered reached).2 _ _ step bounded 1 0 waiting gone 3 rfl⟩

/-- With a low water mark of 0 the last message is taken off and the writer still waits,
also after a call on the empty queue. -/
theorem getq_forgets : ∃ k k' k'', Reaches Idle (Flowing 1 4) Bounded k ∧ nearest k 4 1 = some 3 ∧
    getq 4 1 k = some (some 0, k') ∧ Vacant k' 1 0 ∧ (k'.queue 1).wanted 0 ∧ ¬ k'.enabled 3 ∧
    getq 4 1 k' = some (none, k'') ∧ Vacant k'' 1 0 ∧ (k''.queue 1).wanted 0 ∧ ¬ k''.enabled 3 := by
  have vacant {k : Kernel} (first : (k.queue 1).qFirst = none) : Vacant k 1 0 := by
    rintro m ⟨list, chain, member⟩
    rw [first] at chain
    rw [Chain.nil_iff.mp chain] at member
    cases member
  exact ⟨heldUp 0, drained 0, asked, duplex_reaches (duplex_idle 0), rfl, rfl, vacant rfl, ⟨_, rfl, rfl⟩,
    fun enabled => enabled rfl, rfl, vacant rfl, ⟨_, rfl, rfl⟩, fun enabled => enabled rfl⟩

end Svr4.Streams
