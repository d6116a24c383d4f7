import Svr4.Kernel.Streams.Flush

/-! The queues over whole runs: what is on each, from the history of the calls alone. -/

namespace Svr4.Streams

open Function (update_self update_of_ne)

/-- The message is on the list of the queue. -/
def OnQueue (k : Kernel) (q m : Nat) : Prop := ∃ list, Chain k.next (k.queue q).qFirst list ∧ m ∈ list

/-- The calls; `done` is the result of `putq` and `putbq`. -/
inductive Event where
  | putq (q bp : Nat) (done : Bool)
  | putbq (q bp : Nat) (done : Bool)
  | getq (q : Nat)
  | rmvq (q mp : Nat)
  | flushq (q : Nat) (flag : Bool)
  | elsewhere
  deriving DecidableEq, Repr

/-- Other code: it does not modify messages while they are queued, and of the queues it
changes flags and marks, and adds bands. -/
structure Elsewhere (k k' : Kernel) : Prop where
  rep : ∀ q, Rep (k.queue q) (k'.queue q)
  msg : ∀ m q, OnQueue k q m → k'.msg m = k.msg m

/-- A message that can be put on a queue. -/
structure Loose (nMsg : Nat) (k : Kernel) (bp : Nat) : Prop where
  known : bp < nMsg
  free : ∀ q, ¬ OnQueue k q bp
  small : (k.msg bp).bBand ≤ 255

/-- One call. A call that has no result may leave any state. -/
def Step (nMsg nQueue : Nat) (k : Kernel) (event : Event) (k' : Kernel) : Prop :=
  match event with
  | .putq q bp done => Loose nMsg k bp ∧ ∀ result, putq nMsg q bp k = some result → result = (k', done)
  | .putbq q bp done => Loose nMsg k bp ∧ ∀ result, putbq nMsg q bp k = some result → result = (k', done)
  | .getq q => ∀ result, getq nQueue q k = some result → result.2 = k'
  | .rmvq q mp => OnQueue k q mp ∧ ∀ result, rmvq nQueue q mp k = some result → result = k'
  | .flushq q flag => ∀ result, flushq nQueue nMsg q flag k = some result → result = k'
  | .elsewhere => Elsewhere k k'

/-- No queue has a message. -/
structure Bare (k : Kernel) : Prop where
  first : ∀ q, (k.queue q).qFirst = none
  last : ∀ q, (k.queue q).qLast = none
  count : ∀ q, (k.queue q).qCount = 0
  bands : ∀ q, ∀ qbp ∈ (k.queue q).qBandp, qbp.core = (0, none, none)

/-- `getq` is not called where it follows a pointer that was not assigned or is null. -/
def Defined (nQueue : Nat) (k : Kernel) (event : Event) : Prop :=
  match event with
  | .getq q => (∀ mp, (k.queue q).qFirst = some mp → ¬ Crossing k q mp) ∧
      ((k.queue q).qFirst = none → ¬ Starved nQueue k q)
  | _ => True

/-! ## What should be on the queues -/

/-- The messages of each queue and key, in order: those put go to the end, those put back
to the front. -/
def classes : List (Kernel × Event) → Nat → Nat → List Nat
  | [] => fun _ _ => []
  | (k, event) :: past =>
    let lists := classes past
    match event with
    | .putq q bp true =>
      Function.update lists q (Function.update (lists q) (k.key bp) (lists q (k.key bp) ++ [bp]))
    | .putbq q bp true =>
      Function.update lists q (Function.update (lists q) (k.key bp) (bp :: lists q (k.key bp)))
    | .getq q =>
      match (k.queue q).qFirst with
      | none => lists
      | some mp => Function.update lists q fun key => (lists q key).filter (· ≠ mp)
    | .rmvq q mp => Function.update lists q fun key => (lists q key).filter (· ≠ mp)
    | .flushq q flag => Function.update lists q fun key => (lists q key).filter (k.stays flag)
    | _ => lists

abbrev Kernel.ofKey (k : Kernel) (key : Nat) (list : List Nat) : List Nat := list.filter fun m => k.key m = key

/-- The queues have these lists, and no message is on two of them. -/
structure Held (nMsg : Nat) (k : Kernel) (lists : Nat → List Nat) (expected : Nat → Nat → List Nat) : Prop where
  queued : ∀ q, Queued nMsg k q (lists q)
  apart : ∀ q q' m, m ∈ lists q → m ∈ lists q' → q = q'
  order : ∀ q key, k.ofKey key (lists q) = expected q key

section
variable {nMsg nQueue q m : Nat} {k k' : Kernel} {lists : Nat → List Nat} {expected expected' : Nat → Nat → List Nat}
  {list left right touched : List Nat} {past : List (Kernel × Event)}

theorem Held.onQueue_iff (held : Held nMsg k lists expected) : OnQueue k q m ↔ m ∈ lists q := by
  constructor
  · rintro ⟨list, chain, member⟩
    rw [(held.queued q).doubly.forward.unique chain]
    exact member
  · exact fun member => ⟨lists q, (held.queued q).doubly.forward, member⟩

theorem ofKey_congr (keys : ∀ m ∈ list, k'.key m = k.key m) (key : Nat) : k'.ofKey key list = k.ofKey key list :=
  List.filter_congr fun m member => by rw [keys m member]

section
variable (held : Held nMsg k lists expected)
include held

/-- A call on queue `q` gave it another list. -/
theorem Held.update (moved : Moved k k' q touched)
    (alone : ∀ m ∈ touched, ∀ other, other ≠ q → m ∉ lists other) (queued : Queued nMsg k' q list) (sub : list ⊆ touched)
    (mine : ∀ key, k.ofKey key list = expected' q key) (theirs : ∀ other, other ≠ q → expected' other = expected other) :
    Held nMsg k' (Function.update lists q list) expected' := by
  have outside {other m : Nat} (differ : other ≠ q) (member : m ∈ lists other) : k'.msg m = k.msg m :=
    moved.outside m fun here => alone m here other differ member
  refine ⟨fun other => ?_, fun a b m first second => ?_, fun other key => ?_⟩
  · by_cases same : other = q
    · subst same
      rw [update_self]
      exact queued
    · rw [update_of_ne same]
      exact (held.queued other).congr (moved.queues other same) fun m member => outside same member
  · by_cases one : a = q
    · by_cases two : b = q
      · rw [one, two]
      · rw [one, update_self] at first
        rw [update_of_ne two] at second
        exact absurd second (alone m (sub first) b two)
    · rw [update_of_ne one] at first
      by_cases two : b = q
      · rw [two, update_self] at second
        exact absurd first (alone m (sub second) a one)
      · rw [update_of_ne two] at second
        exact held.apart a b m first second
  · by_cases same : other = q
    · subst same
      rw [update_self, ← mine key]
      exact ofKey_congr (fun m member => moved.keys m (sub member)) key
    · rw [update_of_ne same, theirs other same, ← held.order other key]
      exact ofKey_congr (fun m member => by rw [Kernel.key, outside same member]) key

theorem Held.alone : ∀ m ∈ lists q, ∀ other, other ≠ q → m ∉ lists other :=
  fun m member other differ there => differ (held.apart other q m there member)

theorem Held.quiet (quiet : Quiet k k') : Held nMsg k' lists expected := by
  refine ⟨fun q => (held.queued q).congr (quiet.rep q) fun m _ => by rw [quiet.msg], held.apart, fun q key => ?_⟩
  rw [← held.order q key]
  exact ofKey_congr (fun m _ => by rw [Kernel.key, quiet.msg]) key

end

/-! ## One step -/

/-- A message is put: at the end or the front of its class. -/
theorem Held.put {find : Nat → Nat → Option Qband → Kernel → Option Place} {ends : Nat → Bool → Qband → Qband}
    {above : Nat → Nat → Prop} {join : Nat → List Nat → List Nat} {bp : Nat} {done : Bool}
    (held : Held nMsg k lists expected) (putter : Putter nMsg find ends above join) (loose : Loose nMsg k bp)
    (call : ∀ result, Streams.put find ends q bp k = some result → result = (k', done)) :
    ∃ list, Held nMsg k' (Function.update lists q list) (if done then Function.update expected q
      (Function.update (expected q) (k.key bp) (join bp (expected q (k.key bp)))) else expected) ∧
      Moved k k' q (bp :: lists q) ∧
      (list = lists q ∨ ∃ left right, lists q = left ++ right ∧ list = left ++ bp :: right) := by
  have free (other : Nat) : bp ∉ lists other := fun member => loose.free other (held.onQueue_iff.mpr member)
  obtain ⟨k₁, done', result, framed, key, off, on, _⟩ := put_queued putter (held.queued q) loose.known (free q) loose.small
  obtain ⟨rfl, rfl⟩ := Prod.mk.inj (call _ result)
  have moved : Moved k k₁ q (bp :: lists q) := framed.moved key (by simp) (by simp)
  have alone : ∀ m ∈ bp :: lists q, ∀ other, other ≠ q → m ∉ lists other := by
    intro m member other differ
    rcases List.mem_cons.mp member with rfl | member
    · exact free other
    · exact held.alone m member other differ
  cases done' with
  | false => exact ⟨_, held.update moved alone (off rfl) (by simp) (held.order q) fun _ _ => rfl, moved, .inl rfl⟩
  | true =>
    obtain ⟨left, right, fits, queued⟩ := on rfl
    refine ⟨_, held.update moved alone queued (fun m member => ?_) (fun c => ?_) fun other differ => ?_, moved,
      .inr ⟨left, right, fits.split, rfl⟩⟩
    · rw [fits.split]
      exact List.perm_middle.mem_iff.mp member
    · rw [if_pos rfl, update_self]
      by_cases here : c = k.key bp
      · rw [here, update_self, ← held.order]
        exact putter.joins fits
      · rw [update_of_ne here, ← held.order, fits.split, Kernel.ofKey, Kernel.ofKey, List.filter_append,
          List.filter_append, List.filter_cons_of_neg (by simpa using Ne.symm here)]
    · rw [if_pos rfl, update_of_ne differ]

theorem Held.remove {mp : Nat} (held : Held nMsg k lists expected) (split : lists q = left ++ mp :: right)
    (queued : Queued nMsg k' q (left ++ right)) (moved : Moved k k' q (lists q)) :
    Held nMsg k' (Function.update lists q (left ++ right))
      (Function.update expected q fun key => (expected q key).filter (· ≠ mp)) := by
  have nodup := (held.queued q).doubly.nodup
  rw [split] at nodup
  have absent := (List.nodup_middle.mp nodup).notMem
  refine held.update moved held.alone queued (fun m member => ?_) (fun key => ?_) fun other differ => ?_
  · rw [split]
    exact List.perm_middle.mem_iff.mpr (.tail _ member)
  · have others {part : List Nat} (sub : part ⊆ left ++ right) : part.filter (· ≠ mp) = part := by
      refine List.filter_eq_self.mpr fun m member => ?_
      have differ : m ≠ mp := fun same => absent (sub (same ▸ member))
      simpa using differ
    rw [update_self, ← held.order, split, List.filter_comm, List.filter_append, List.filter_cons_of_neg (by simp),
      others (by simp), others (by simp)]
  · rw [update_of_ne differ]

theorem Held.rmvq {mp : Nat} (held : Held nMsg k lists expected) (member : mp ∈ lists q)
    (call : ∀ result, Streams.rmvq nQueue q mp k = some result → result = k') :
    ∃ list, Held nMsg k' (Function.update lists q list)
      (Function.update expected q fun key => (expected q key).filter (· ≠ mp)) ∧
      Moved k k' q (lists q) ∧ list.Sublist (lists q) := by
  obtain ⟨left, right, split⟩ := List.append_of_mem member
  have queued := held.queued q
  rw [split] at queued
  obtain ⟨k₁, result, queued₁, framed, loads⟩ := rmvq_queued queued
  obtain rfl := call k₁ result
  have moved : Moved k k₁ q (lists q) := by
    refine framed.moved (loads.key (by simp)) member fun m there => ?_
    rw [split]
    exact List.perm_middle.mem_iff.mpr (.tail _ there)
  refine ⟨_, held.remove split queued₁ moved, moved, ?_⟩
  rw [split]
  exact List.Sublist.append (List.Sublist.refl _) (List.sublist_cons_self _ _)

theorem quiet_clearWantr : Quiet k (clearWantr q k) := quiet_setQueue (rep_flags _)

section
variable (held : Held nMsg k lists expected)
include held

theorem Held.getq (defined : Defined nQueue k (.getq q))
    (call : ∀ result, Streams.getq nQueue q k = some result → result.2 = k') :
    ∃ list, Held nMsg k' (Function.update lists q list) (match (k.queue q).qFirst with
      | none => expected
      | some mp => Function.update expected q fun key => (expected q key).filter (· ≠ mp)) ∧
      Moved k k' q (lists q) ∧ list.Sublist (lists q) := by
  cases first : (k.queue q).qFirst with
  | none =>
    obtain ⟨k₁, result, quiet⟩ := getq_empty first (defined.2 first)
    obtain rfl := call _ result
    refine ⟨lists q, ?_, quiet.moved, List.Sublist.refl _⟩
    rw [Function.update_eq_self]
    exact held.quiet quiet
  | some mp =>
    obtain ⟨right, split⟩ : ∃ right, lists q = mp :: right := by
      rw [(held.queued q).doubly.first_eq] at first
      exact List.head?_eq_some_iff.mp first
    have queued := held.queued q
    rw [split] at queued
    obtain ⟨k₁, removed, result⟩ := getq_first queued (defined.1 mp first)
    obtain rfl := call _ result
    obtain ⟨list, held', moved, sub⟩ := held.rmvq (by rw [split]; simp)
      fun k₂ again => Option.some.inj (again.symm.trans removed)
    exact ⟨list, held'.quiet quiet_clearWantr, moved.trans quiet_clearWantr.moved, sub⟩

theorem Held.flushq {flag : Bool}
    (call : ∀ result, Streams.flushq nQueue nMsg q flag k = some result → result = k') :
    ∃ list, Held nMsg k' (Function.update lists q list)
      (Function.update expected q fun key => (expected q key).filter (k.stays flag)) ∧
      Moved k k' q (lists q) ∧ list.Sublist (lists q) := by
  obtain ⟨k₁, result, queued, moved⟩ := flushq_queued (held.queued q)
  obtain rfl := call k₁ result
  refine ⟨_, held.update moved held.alone queued (List.filter_subset_self _) (fun key => ?_) fun other differ => ?_, moved,
    List.filter_sublist⟩
  · rw [update_self, ← held.order, Kernel.ofKey, Kernel.ofKey, List.filter_comm]
  · rw [update_of_ne differ]

theorem Held.elsewhere (other : Elsewhere k k') : Held nMsg k' lists expected := by
  have same {q m : Nat} (member : m ∈ lists q) : k'.msg m = k.msg m := other.msg m q (held.onQueue_iff.mpr member)
  refine ⟨fun q => (held.queued q).congr (other.rep q) fun m member => same member, held.apart, fun q key => ?_⟩
  rw [← held.order q key]
  exact ofKey_congr (fun m member => by rw [Kernel.key, same member]) key

end

theorem Held.step {event : Event} (held : Held nMsg k lists (classes past)) (step : Step nMsg nQueue k event k')
    (defined : Defined nQueue k event) : ∃ lists', Held nMsg k' lists' (classes ((k, event) :: past)) := by
  cases event with
  | putq q bp done =>
    obtain ⟨loose, call⟩ := step
    obtain ⟨list, held', -⟩ := held.put putq_putter loose call
    cases done with
    | false => exact ⟨_, held'⟩
    | true => exact ⟨_, held'⟩
  | putbq q bp done =>
    obtain ⟨loose, call⟩ := step
    obtain ⟨list, held', -⟩ := held.put putbq_putter loose call
    cases done with
    | false => exact ⟨_, held'⟩
    | true => exact ⟨_, held'⟩
  | getq q =>
    obtain ⟨list, held', -⟩ := held.getq defined step
    exact ⟨_, held'⟩
  | rmvq q mp =>
    obtain ⟨there, call⟩ := step
    obtain ⟨list, held', -⟩ := held.rmvq (held.onQueue_iff.mp there) call
    exact ⟨_, held'⟩
  | flushq q flag =>
    obtain ⟨list, held', -⟩ := held.flushq step
    exact ⟨_, held'⟩
  | elsewhere => exact ⟨lists, held.elsewhere step⟩

/-! ## Runs -/

theorem Bare.held (bare : Bare k) : Held nMsg k (fun _ => []) (classes []) := by
  refine ⟨fun q => ⟨?_, ⟨.nil, by simp, by simp, by simp, ?_, fun i qbp found => ?_⟩⟩, by simp, fun _ _ => rfl⟩
  · rw [bare.first, bare.last]
    exact .nil
  · rw [bare.count]
    rfl
  · exact bare.bands q qbp (List.mem_of_getElem? found)

theorem runs_held (run : Runs Bare (Step nMsg nQueue) (Defined nQueue) past k) : ∃ lists, Held nMsg k lists (classes past) := by
  induction run with
  | start bare => exact ⟨_, bare.held⟩
  | next _ step defined ih =>
    obtain ⟨lists, held⟩ := ih
    exact held.step step defined

/-- After every run in which `getq` is only called where it is defined, the messages of a
queue are a doubly linked list, by descending keys and within a key in the order of the
calls, and the counts and the ends of the bands are those of the list. -/
theorem queue_well_formed (run : Runs Bare (Step nMsg nQueue) (Defined nQueue) past k) (q : Nat) :
    ∃ list, Queued nMsg k q list ∧ ∀ key, k.ofKey key list = classes past q key := by
  obtain ⟨lists, held⟩ := runs_held run
  exact ⟨lists q, held.queued q, held.order q⟩

end

/-- Empty queues with low and high water marks of 1, memory for one band record, and
messages of one byte for band 1. -/
def fresh : Kernel where
  msg _ := ⟨none, none, 1, mData, [1]⟩
  queue q := ⟨none, none, none, 0, if q % 2 = 0 then qreadr else 0, 1, 1, [], true⟩
  qrun := []
  qrunflag := false
  zalloc := 1

/-- The first message is put on queue 0. -/
def loaded : Kernel := ((putq 1 0 0 fresh).getD (fresh, false)).1

/-- It is taken off again. -/
def unloaded : Kernel := ((getq 2 0 loaded).getD (none, loaded)).2

theorem fresh_bare : Bare fresh := ⟨fun _ => rfl, fun _ => rfl, fun _ => rfl, fun _ _ member => nomatch member⟩

theorem loaded_step : Step 1 2 fresh (.putq 0 0 true) loaded := by
  have result : putq 1 0 0 fresh = some (loaded, true) := rfl
  refine ⟨⟨by decide, fun q => ?_, by decide⟩, fun other again => ?_⟩
  · rintro ⟨list, chain, member⟩
    rw [Chain.nil_iff.mp chain] at member
    cases member
  · exact Option.some.inj (again.symm.trans result)

theorem queue_well_formed_unloaded : ∃ list, Queued 1 unloaded 0 list ∧ ∀ key, unloaded.ofKey key list =
    classes [(loaded, .getq 0), (fresh, .putq 0 0 true)] 0 key := by
  have first : (loaded.queue 0).qFirst = some 0 := rfl
  have result : getq 2 0 loaded = some (some 0, unloaded) := rfl
  have defined : Defined 2 loaded (.getq 0) := by
    refine ⟨fun mp head => ?_, fun none => ?_⟩
    · cases first.symm.trans head
      rintro ⟨_, qbp, found, wanted, _⟩
      cases found
      exact wanted rfl
    · rw [first] at none
      cases none
  refine queue_well_formed (.next (.next (.start fresh_bare) loaded_step trivial) ?_ defined) 0
  intro other again
  rw [← Option.some.inj (result.symm.trans again)]

/-- A writer waits for the band. -/
def awaited : Kernel := loaded.setBand 0 0 fun qbp => { qbp with qbFlag := qbp.qbFlag ||| qbWantw }

/-- One of the states that a store through an unassigned pointer can leave. -/
def overwritten : Kernel := awaited.setQueue 0 fun qp => { qp with qLast := none }

theorem getq_breaks : ∃ past, Runs Bare (Step 1 2) (fun _ _ => True) past overwritten ∧
    ¬ ∃ list, Queued 1 overwritten 0 list ∧ ∀ key, overwritten.ofKey key list = classes past 0 key := by
  have quiet : Quiet loaded awaited := quiet_setBand fun _ => rfl
  have waits : Step 1 2 loaded .elsewhere awaited := ⟨quiet.rep, fun m _ _ => by rw [quiet.msg]⟩
  have undefined : getq 2 0 awaited = none := rfl
  have broken : Step 1 2 awaited (.getq 0) overwritten := by
    intro result defined
    rw [undefined] at defined
    cases defined
  refine ⟨_, .next (.next (.next (.start fresh_bare) loaded_step trivial) waits trivial) broken trivial, ?_⟩
  rintro ⟨list, queued, _⟩
  have first : some 0 = list.head? := queued.doubly.first_eq
  have last : none = list.getLast? := queued.doubly.last_eq
  rw [List.getLast?_eq_none_iff.mp last.symm] at first
  cases first

end Svr4.Streams
