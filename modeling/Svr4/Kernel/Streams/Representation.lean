import Mathlib
import Svr4.Kernel.Streams.Order

/-! The representation of a message queue, and what each call does to it.

The messages of a queue are a doubly linked list in the order of their keys. The counts
and the ends of the bands are read off the list.
-/

namespace Svr4.Streams

attribute [local simp] Kernel.setQueue Kernel.setMsg

/-- The bytes of some messages. -/
def Kernel.total (k : Kernel) (list : List Nat) : Int := (list.map fun m => (k.msg m).blocks.sum).sum

/-- What a band record says of its messages. -/
def Qband.core (qbp : Qband) : Int × Option Nat × Option Nat := (qbp.qbCount, qbp.qbFirst, qbp.qbLast)

/-- What it should say. -/
def Kernel.tally (k : Kernel) (list : List Nat) : Int × Option Nat × Option Nat :=
  (toUlong (k.total list), list.head?, list.getLast?)

/-- The counts and the ends of the bands are those of the list. -/
structure Tallied (nMsg : Nat) (k : Kernel) (qp : Queue) (list : List Nat) : Prop where
  sorted : k.Sorted list
  valid : ∀ m ∈ list, (k.msg m).Valid
  within : ∀ m ∈ list, (k.msg m).bBand ≤ qp.qBandp.length
  known : ∀ m ∈ list, m < nMsg
  count : qp.qCount = toUlong (k.total (k.band 0 list))
  bands : ∀ i qbp, qp.qBandp[i]? = some qbp → qbp.core = k.tally (k.band (i + 1) list)

/-- The messages of the list are on the queue. -/
structure Queued (nMsg : Nat) (k : Kernel) (q : Nat) (list : List Nat) : Prop where
  doubly : Doubly k.next k.prev (k.queue q).qFirst (k.queue q).qLast list
  tallied : Tallied nMsg k (k.queue q) list

section
variable {nMsg q bp i pri : Nat} {k k' : Kernel} {qp qp' : Queue} {list left right : List Nat} {value : Qband → Qband}

theorem Queued.lined (queued : Queued nMsg k q list) : Lined nMsg k q list :=
  ⟨queued.doubly, queued.tallied.sorted, queued.tallied.valid, queued.tallied.known⟩

/-! ## Counting -/

theorem toUlong_add (x y : Int) : toUlong (toUlong x + y) = toUlong (x + y) := by
  unfold toUlong
  omega

theorem toUlong_sub (x y : Int) : toUlong (toUlong x - y) = toUlong (x - y) := by
  unfold toUlong
  omega

theorem addBlocks_eq (x : Int) (blocks : List Int) : addBlocks (toUlong x) blocks = toUlong (x + blocks.sum) := by
  induction blocks generalizing x with
  | nil => simp [addBlocks]
  | cons size blocks ih =>
    have step : addBlocks (toUlong x) (size :: blocks) = addBlocks (toUlong (toUlong x + size)) blocks := rfl
    rw [step, toUlong_add, ih, List.sum_cons, Int.add_assoc]

theorem subBlocks_eq (x : Int) (blocks : List Int) : subBlocks (toUlong x) blocks = toUlong (x - blocks.sum) := by
  induction blocks generalizing x with
  | nil => simp [subBlocks]
  | cons size blocks ih =>
    have step : subBlocks (toUlong x) (size :: blocks) = subBlocks (toUlong (toUlong x - size)) blocks := rfl
    rw [step, toUlong_sub, ih, List.sum_cons]
    congr 1
    omega

theorem total_append (first second : List Nat) : k.total (first ++ second) = k.total first + k.total second := by
  simp [Kernel.total]

theorem total_cons (m : Nat) (rest : List Nat) : k.total (m :: rest) = (k.msg m).blocks.sum + k.total rest := by
  simp [Kernel.total]

theorem total_middle : k.total (left ++ bp :: right) = k.total (left ++ right) + (k.msg bp).blocks.sum := by
  rw [total_append, total_append, total_cons]
  omega

/-! ## What the representation depends on -/

/-- The messages of the list differ in their links at most. -/
def Loads (k k' : Kernel) (list : List Nat) : Prop :=
  ∀ m ∈ list, (k'.msg m).bBand = (k.msg m).bBand ∧ (k'.msg m).dbType = (k.msg m).dbType ∧
    (k'.msg m).blocks = (k.msg m).blocks

section
variable (loads : Loads k k' list)
include loads

theorem Loads.band : k'.band pri list = k.band pri list :=
  List.filter_congr fun m member => by rw [(loads m member).1]

theorem Loads.total {sub : List Nat} (within : sub ⊆ list) : k'.total sub = k.total sub := by
  unfold Kernel.total
  rw [List.map_congr_left fun m member => by rw [(loads m (within member)).2.2]]

theorem Loads.key {m : Nat} (member : m ∈ list) : k'.key m = k.key m := by
  obtain ⟨band, type, _⟩ := loads m member
  simp only [Kernel.key, Msgb.key, band, type]

theorem Loads.valid {m : Nat} (member : m ∈ list) : (k'.msg m).Valid ↔ (k.msg m).Valid := by
  obtain ⟨band, type, _⟩ := loads m member
  rw [Msgb.Valid, Msgb.Valid, band, type]

theorem Loads.sorted (sorted : k.Sorted list) : k'.Sorted list := by
  refine sorted.imp_of_mem fun {a b} first second less => ?_
  rw [loads.key first, loads.key second]
  exact less

theorem Loads.tally : k'.tally (k'.band pri list) = k.tally (k.band pri list) := by
  rw [Kernel.tally, Kernel.tally, loads.band, loads.total (List.filter_subset_self list)]

end

/-- The representations agree, except that there may be more bands without messages. -/
structure Rep (qp qp' : Queue) : Prop where
  first : qp'.qFirst = qp.qFirst
  last : qp'.qLast = qp.qLast
  count : qp'.qCount = qp.qCount
  bands : ∃ n, qp'.qBandp.map Qband.core = qp.qBandp.map Qband.core ++ List.replicate n (0, none, none)

theorem Rep.refl : Rep qp qp := ⟨rfl, rfl, rfl, 0, by simp⟩

theorem Rep.trans {qp'' : Queue} (one : Rep qp qp') (two : Rep qp' qp'') : Rep qp qp'' := by
  obtain ⟨n, first⟩ := one.bands
  obtain ⟨n', second⟩ := two.bands
  refine ⟨two.first.trans one.first, two.last.trans one.last, two.count.trans one.count, n + n', ?_⟩
  rw [second, first, List.append_assoc, List.replicate_append_replicate]

theorem Rep.longer (rep : Rep qp qp') : qp.qBandp.length ≤ qp'.qBandp.length := by
  obtain ⟨n, bands⟩ := rep.bands
  have lengths := congrArg List.length bands
  simp only [List.length_map, List.length_append, List.length_replicate] at lengths
  omega

theorem Tallied.congr (tallied : Tallied nMsg k qp list) (rep : Rep qp qp') (loads : Loads k k' list) :
    Tallied nMsg k' qp' list := by
  obtain ⟨n, bands⟩ := rep.bands
  have length : qp'.qBandp.length = qp.qBandp.length + n := by
    have lengths := congrArg List.length bands
    simpa using lengths
  refine ⟨loads.sorted tallied.sorted, fun m member => (loads.valid member).mpr (tallied.valid m member),
    fun m member => ?_, tallied.known, ?_, fun i qbp found => ?_⟩
  · have within := tallied.within m member
    rw [(loads m member).1]
    omega
  · rw [rep.count, tallied.count, loads.band, loads.total (List.filter_subset_self list)]
  · rw [loads.tally]
    have entry : (qp'.qBandp.map Qband.core)[i]? = some qbp.core := by simp [found]
    rw [bands] at entry
    by_cases old : i < qp.qBandp.length
    · rw [List.getElem?_append_left (by simpa using old), List.getElem?_map] at entry
      obtain ⟨was, here, same⟩ := Option.map_eq_some_iff.mp entry
      rw [← same]
      exact tallied.bands i was here
    · -- No message is of a band that is new.
      have empty : k.band (i + 1) list = [] := by
        refine List.filter_eq_nil_iff.mpr fun m member => ?_
        have within := tallied.within m member
        simp only [decide_eq_true_eq]
        omega
      rw [List.getElem?_append_right (by simpa using old), List.getElem?_replicate] at entry
      split at entry
      · rw [empty, ← Option.some.inj entry]
        rfl
      · cases entry

theorem Queued.congr (queued : Queued nMsg k q list) (rep : Rep (k.queue q) (k'.queue q))
    (same : ∀ m ∈ list, k'.msg m = k.msg m) : Queued nMsg k' q list := by
  refine ⟨?_, queued.tallied.congr rep fun m member => ?_⟩
  · rw [rep.first, rep.last]
    exact queued.doubly.congr (fun m member => by rw [Kernel.next, same m member])
      fun m member => by rw [Kernel.prev, same m member]
  · rw [same m member]
    exact ⟨rfl, rfl, rfl⟩

/-! ## Calls that the representation does not see -/

/-- The messages are the same and every queue has the same representation. -/
structure Quiet (k k' : Kernel) : Prop where
  msg : k'.msg = k.msg
  rep : ∀ q, Rep (k.queue q) (k'.queue q)

theorem Quiet.refl : Quiet k k := ⟨rfl, fun _ => .refl⟩

theorem Quiet.trans {k'' : Kernel} (one : Quiet k k') (two : Quiet k' k'') : Quiet k k'' :=
  ⟨two.msg.trans one.msg, fun q => (one.rep q).trans (two.rep q)⟩

theorem quiet_setQueue {value : Queue → Queue} (rep : Rep (k.queue q) (value (k.queue q))) :
    Quiet k (k.setQueue q value) := by
  refine ⟨rfl, fun other => ?_⟩
  by_cases same : other = q
  · subst same
    simpa using rep
  · simpa [same] using Rep.refl

theorem rep_flags (flag : Nat) : Rep qp { qp with qFlag := flag } := ⟨rfl, rfl, rfl, 0, by simp⟩

theorem modify_core (bands : List Qband) (same : ∀ qbp, (value qbp).core = qbp.core) (i : Nat) :
    (bands.modify i value).map Qband.core = bands.map Qband.core := by
  refine List.ext_getElem? fun j => ?_
  rw [List.getElem?_map, List.getElem?_map, List.getElem?_modify]
  by_cases here : i = j
  · cases bands[j]? with
    | none => simp
    | some qbp => simp [here, same]
  · simp [here]

theorem modify_entry {bands : List Qband} {j : Nat} {new : Qband}
    (there : (bands.modify i value)[j]? = some new) :
    (i = j ∧ ∃ old, bands[j]? = some old ∧ value old = new) ∨ (i ≠ j ∧ bands[j]? = some new) := by
  rw [List.getElem?_modify] at there
  by_cases here : i = j
  · cases entry : bands[j]? with
    | none =>
      rw [entry] at there
      cases there
    | some old =>
      rw [entry] at there
      exact .inl ⟨here, old, rfl, by simpa [here] using there⟩
  · exact .inr ⟨here, by simpa [here] using there⟩

theorem quiet_setBand (same : ∀ qbp, (value qbp).core = qbp.core) : Quiet k (k.setBand q i value) :=
  quiet_setQueue ⟨rfl, rfl, rfl, 0, by simp [modify_core _ same]⟩

theorem quiet_qenable : Quiet k (qenable q k) := by
  unfold qenable
  split
  · exact .refl
  · split
    · exact .refl
    · have marked := (@quiet_setQueue q k (fun qp => { qp with qFlag := qp.qFlag ||| qenab }))
        (rep_flags _)
      exact ⟨marked.msg, marked.rep⟩

theorem quiet_enabled {test : Prop} [Decidable test] : Quiet k (if test then qenable q k else k) := by
  split
  · exact quiet_qenable
  · exact .refl

theorem addBands_quiet (n : Nat) : Quiet k (addBands q n k).1 ∧
    ((addBands q n k).2 = true → ((addBands q n k).1.queue q).qBandp.length = (k.queue q).qBandp.length + n) := by
  induction n generalizing k with
  | zero => exact ⟨.refl, fun _ => rfl⟩
  | succ n ih =>
    unfold addBands
    split
    · exact ⟨.refl, nofun⟩
    · let k₁ : Kernel := { k with zalloc := k.zalloc - 1 }
      let k₂ := k₁.setQueue q fun qp => { qp with qBandp := qp.qBandp ++ [qp.newband] }
      have more : Quiet k k₂ := by
        have added := (@quiet_setQueue q k₁ (fun qp => { qp with qBandp := qp.qBandp ++ [qp.newband] }))
          ⟨rfl, rfl, rfl, 1, by simp [Qband.core, Queue.newband]⟩
        exact ⟨added.msg, added.rep⟩
      obtain ⟨quiet, length⟩ := ih (k := k₂)
      refine ⟨more.trans quiet, fun found => ?_⟩
      have one : (k₂.queue q).qBandp.length = (k.queue q).qBandp.length + 1 := by simp [k₂, k₁]
      refine (length found).trans ?_
      rw [one]
      omega

theorem needBand_quiet : Quiet k (needBand q pri k).1 ∧
    ((needBand q pri k).2 = true → pri ≤ ((needBand q pri k).1.queue q).qBandp.length) := by
  obtain ⟨quiet, length⟩ := addBands_quiet (k := k) (q := q) (pri - (k.queue q).qBandp.length)
  refine ⟨quiet, fun found => ?_⟩
  have exactly := length found
  unfold needBand
  omega

theorem quiet_setqback : Quiet k (setqback q pri k) := by
  unfold setqback
  split
  · obtain ⟨quiet, _⟩ := needBand_quiet (k := k) (q := q)
    simp only
    split
    · exact quiet.trans (quiet_setBand fun _ => rfl)
    · exact quiet
  · exact quiet_setQueue (rep_flags _)

theorem quiet_backenable {nQueue : Nat} : Quiet k (backenable nQueue q pri k) := by
  unfold backenable
  split
  · exact .refl
  · exact quiet_qenable.trans quiet_setqback

/-! ## Inserting -/

variable {before after : Option Nat}

theorem splice_msg (notBefore : before ≠ some bp) (notAfter : after ≠ some bp) (m : Nat) :
    (splice q bp before after k).msg m = { k.msg m with
      bNext := if m = bp then after else if before = some m then some bp else k.next m
      bPrev := if m = bp then before else if after = some m then some bp else k.prev m } := by
  by_cases new : m = bp
  · subst new
    cases before with
    | none =>
      cases after with
      | none => simp [splice]
      | some p =>
        have differ : ¬ m = p := fun same => notAfter (by rw [same])
        simp [splice, differ]
    | some p =>
      have differ : ¬ m = p := fun same => notBefore (by rw [same])
      cases after with
      | none => simp [splice, differ]
      | some p' =>
        have differ' : ¬ m = p' := fun same => notAfter (by rw [same])
        simp [splice, differ, differ']
  · cases before with
    | none =>
      cases after with
      | none => simp [splice, new]
      | some p =>
        by_cases same : m = p
        · subst same
          simp [splice, new]
        · simp [splice, new, same, Ne.symm same]
    | some p =>
      cases after with
      | none =>
        by_cases same : m = p
        · subst same
          simp [splice, new]
        · simp [splice, new, same, Ne.symm same]
      | some p' =>
        by_cases same : m = p
        · subst same
          by_cases same' : m = p'
          · subst same'
            simp [splice, new]
          · simp [splice, new, same', Ne.symm same']
        · by_cases same' : m = p'
          · subst same'
            simp [splice, new, same, Ne.symm same]
          · simp [splice, new, same, same', Ne.symm same, Ne.symm same']

theorem splice_queue : (splice q bp before after k).queue = Function.update k.queue q
    { k.queue q with
      qFirst := if before = none then some bp else (k.queue q).qFirst
      qLast := if after = none then some bp else (k.queue q).qLast } := by
  cases before with
  | none =>
    cases after with
    | none => simp [splice]
    | some p => simp [splice]
  | some p =>
    cases after with
    | none => simp [splice]
    | some p' => simp [splice]

attribute [local simp] splice_queue

section
variable (fresh : bp ∉ left ++ right)
include fresh

theorem place_ne : left.getLast? ≠ some bp ∧ right.head? ≠ some bp := by
  constructor
  · exact fun last => fresh (List.mem_append_left _ (List.mem_of_getLast? last))
  · exact fun first => fresh (List.mem_append_right _ (List.mem_of_head? first))

theorem splice_loads (m : Nat) : ((splice q bp left.getLast? right.head? k).msg m).bBand = (k.msg m).bBand ∧
    ((splice q bp left.getLast? right.head? k).msg m).dbType = (k.msg m).dbType ∧
    ((splice q bp left.getLast? right.head? k).msg m).blocks = (k.msg m).blocks := by
  obtain ⟨notBefore, notAfter⟩ := place_ne fresh
  rw [splice_msg notBefore notAfter]
  exact ⟨rfl, rfl, rfl⟩

theorem splice_outside {m : Nat} (differ : m ≠ bp) (away : m ∉ left ++ right) :
    (splice q bp left.getLast? right.head? k).msg m = k.msg m := by
  obtain ⟨notBefore, notAfter⟩ := place_ne fresh
  have before : left.getLast? ≠ some m := fun last => away (List.mem_append_left _ (List.mem_of_getLast? last))
  have after : right.head? ≠ some m := fun first => away (List.mem_append_right _ (List.mem_of_head? first))
  rw [splice_msg notBefore notAfter, if_neg differ, if_neg differ, if_neg before, if_neg after]

theorem splice_doubly (doubly : Doubly k.next k.prev (k.queue q).qFirst (k.queue q).qLast (left ++ right)) :
    Doubly (splice q bp left.getLast? right.head? k).next (splice q bp left.getLast? right.head? k).prev
      ((splice q bp left.getLast? right.head? k).queue q).qFirst
      ((splice q bp left.getLast? right.head? k).queue q).qLast (left ++ bp :: right) := by
  obtain ⟨notBefore, notAfter⟩ := place_ne fresh
  have msg := splice_msg (k := k) (q := q) notBefore notAfter
  rw [splice_queue, Function.update_self]
  have away {m : Nat} (member : m ∈ left ++ right) : m ≠ bp := fun same => fresh (same ▸ member)
  refine doubly.insert fresh ?_ ?_ (fun p last => ?_) (fun p first => ?_) (fun m member other => ?_)
    fun m member other => ?_
  · simp [Kernel.next, msg]
  · simp [Kernel.prev, msg]
  · have differ : p ≠ bp := fun same => notBefore (same ▸ last)
    rw [Kernel.next, msg]
    simp [differ, last]
  · have differ : p ≠ bp := fun same => notAfter (same ▸ first)
    rw [Kernel.prev, msg]
    simp [differ, first]
  · simp [Kernel.next, msg, away member, other]
  · simp [Kernel.prev, msg, away member, other]

end

theorem band_middle : k.band pri (left ++ bp :: right) =
    k.band pri left ++ (if (k.msg bp).bBand = pri then [bp] else []) ++ k.band pri right := by
  rw [Kernel.band, Kernel.band, Kernel.band, List.filter_append, List.filter_cons]
  by_cases here : (k.msg bp).bBand = pri
  · simp [here]
  · simp [here]

theorem band_other (other : (k.msg bp).bBand ≠ pri) : k.band pri (left ++ bp :: right) = k.band pri (left ++ right) := by
  rw [band_middle, if_neg other, List.append_nil, Kernel.band, Kernel.band, Kernel.band, List.filter_append]

theorem total_band (here : (k.msg bp).bBand = pri) : k.total (k.band pri (left ++ bp :: right)) =
    k.total (k.band pri (left ++ right)) + (k.msg bp).blocks.sum := by
  rw [band_middle, if_pos here, List.append_assoc, List.singleton_append, total_middle, Kernel.band, Kernel.band,
    Kernel.band, List.filter_append]

theorem Tallied.insert (tallied : Tallied nMsg k qp (left ++ right)) (valid : (k.msg bp).Valid) (known : bp < nMsg)
    (high : ∀ m ∈ left, k.key bp ≤ k.key m) (low : ∀ m ∈ right, k.key m ≤ k.key bp)
    (length : qp'.qBandp.length = qp.qBandp.length) (within : (k.msg bp).bBand ≤ qp.qBandp.length)
    (count : qp'.qCount = if (k.msg bp).bBand = 0 then addBlocks qp.qCount (k.msg bp).blocks else qp.qCount)
    (bands : ∀ i qbp, qp'.qBandp[i]? = some qbp → ∃ old, qp.qBandp[i]? = some old ∧ qbp.core =
      if (k.msg bp).bBand = i + 1 then
        (addBlocks old.qbCount (k.msg bp).blocks, (k.band (i + 1) (left ++ bp :: right)).head?,
          (k.band (i + 1) (left ++ bp :: right)).getLast?)
      else old.core) : Tallied nMsg k qp' (left ++ bp :: right) := by
  have each {property : Nat → Prop} (new : property bp) (rest : ∀ m ∈ left ++ right, property m) :
      ∀ m ∈ left ++ bp :: right, property m := by
    intro m member
    rcases List.mem_cons.mp (List.perm_middle.mem_iff.mp member) with rfl | member
    · exact new
    · exact rest m member
  refine ⟨?_, each valid tallied.valid, ?_, each known tallied.known, ?_, fun i qbp found => ?_⟩
  · obtain ⟨front, back, across⟩ := List.pairwise_append.mp tallied.sorted
    refine List.pairwise_append.mpr ⟨front, List.pairwise_cons.mpr ⟨low, back⟩, fun a first b second => ?_⟩
    rcases List.mem_cons.mp second with rfl | second
    · exact high a first
    · exact across a first b second
  · rw [length]
    exact each within tallied.within
  · rw [count, tallied.count]
    by_cases zero : (k.msg bp).bBand = 0
    · rw [if_pos zero, addBlocks_eq, total_band zero]
    · rw [if_neg zero, band_other zero]
  · obtain ⟨old, was, core⟩ := bands i qbp found
    have before := tallied.bands i old was
    rw [core]
    by_cases here : (k.msg bp).bBand = i + 1
    · have counted : old.qbCount = toUlong (k.total (k.band (i + 1) (left ++ right))) := congrArg Prod.fst before
      rw [if_pos here, Kernel.tally, counted, addBlocks_eq, total_band here]
    · rw [if_neg here, band_other here]
      exact before

/-! ## Putting -/

/-- What `putq` and `putbq` have in common: a message goes to a place that fits, and the
messages of its class are then joined with it. -/
structure Putter (nMsg : Nat) (find : Nat → Nat → Option Qband → Kernel → Option Place) (ends : Nat → Bool → Qband → Qband)
    (above : Nat → Nat → Prop) (join : Nat → List Nat → List Nat) : Prop where
  fits : ∀ {k : Kernel} {q bp : Nat} {list : List Nat} {qbp : Option Qband}, Lined nMsg k q list → (k.msg bp).Valid →
    (qbp = none → (k.msg bp).bBand = 0) →
    (∀ b, qbp = some b → (k.msg bp).bBand ≠ 0 ∧ Marks k list (k.msg bp).bBand b) →
    ∃ left right, Fits k (above (k.key bp)) list left right ∧ find q bp qbp k = some (place left right)
  high : ∀ c x, above c x → c ≤ x
  low : ∀ c x, ¬ above c x → x ≤ c
  joins : ∀ {k : Kernel} {bp : Nat} {list left right : List Nat}, Fits k (above (k.key bp)) list left right →
    ((left ++ bp :: right).filter fun m => k.key m = k.key bp) = join bp (list.filter fun m => k.key m = k.key bp)
  marks : ∀ (bp : Nat) (empty : Bool) (qbp : Qband) (band : List Nat), qbp.qbFirst = band.head? →
    qbp.qbLast = band.getLast? → (empty = true → band = []) →
    (ends bp empty qbp).qbFirst = (join bp band).head? ∧ (ends bp empty qbp).qbLast = (join bp band).getLast?

theorem putq_putter : Putter nMsg (putqPlace nMsg) putqEnds (fun c x => c ≤ x) fun bp list => list ++ [bp] where
  fits lined valid zero record := putqPlace_fits lined valid zero record
  high _ _ more := more
  low _ _ less := Nat.le_of_not_le less
  joins {k bp list left right} fits := by
    have none : right.filter (fun m => k.key m = k.key bp) = [] := by
      refine List.filter_eq_nil_iff.mpr fun m member => ?_
      have less := fits.low m member
      simp only [decide_eq_true_eq]
      exact fun same => less (Nat.le_of_eq same.symm)
    rw [fits.split, List.filter_append, List.filter_append, List.filter_cons_of_pos (by simp), none, List.append_nil]
  marks bp empty qbp band first last bare := by
    refine ⟨?_, by simp [putqEnds]⟩
    cases band with
    | nil => simp [putqEnds, first]
    | cons m rest =>
      have filled : empty = false := by
        cases empty with
        | false => rfl
        | true => cases bare rfl
      simp [putqEnds, first, filled]

theorem putbq_putter : Putter nMsg (putbqPlace nMsg) putbqEnds (fun c x => c < x) fun bp list => bp :: list where
  fits lined valid zero record := putbqPlace_fits lined valid zero record
  high _ _ more := Nat.le_of_lt more
  low _ _ less := Nat.le_of_not_lt less
  joins {k bp list left right} fits := by
    have none : left.filter (fun m => k.key m = k.key bp) = [] := by
      refine List.filter_eq_nil_iff.mpr fun m member => ?_
      have more := fits.high m member
      simp only [decide_eq_true_eq]
      exact fun same => Nat.ne_of_gt more same
    rw [fits.split, List.filter_append, List.filter_append, List.filter_cons_of_pos (by simp), none]
    rfl
  marks bp empty qbp band first last bare := by
    refine ⟨by simp [putbqEnds], ?_⟩
    cases band with
    | nil => simp [putbqEnds, first]
    | cons m rest =>
      have filled : empty = false := by
        cases empty with
        | false => rfl
        | true => cases bare rfl
      simp [putbqEnds, first, filled, last]

section
variable {find : Nat → Nat → Option Qband → Kernel → Option Place} {ends : Nat → Bool → Qband → Qband}
  {above : Nat → Nat → Prop} {join : Nat → List Nat → List Nat}

/-- What a call on queue `q` leaves alone: the other queues, the messages of `q` but for
their links, and all other messages but for `bp`. -/
structure Framed (k k' : Kernel) (q bp : Nat) (list : List Nat) : Prop where
  queues : ∀ other, other ≠ q → Rep (k.queue other) (k'.queue other)
  longer : (k.queue q).qBandp.length ≤ (k'.queue q).qBandp.length
  loads : Loads k k' list
  outside : ∀ m, m ≠ bp → m ∉ list → k'.msg m = k.msg m

theorem Framed.quiet {k'' : Kernel} (framed : Framed k k' q bp list) (quiet : Quiet k' k'') : Framed k k'' q bp list := by
  refine ⟨fun other differ => (framed.queues other differ).trans (quiet.rep other),
    Nat.le_trans framed.longer (quiet.rep q).longer, fun m member => ?_, fun m differ away => ?_⟩
  · rw [quiet.msg]
    exact framed.loads m member
  · rw [quiet.msg]
    exact framed.outside m differ away

theorem Framed.trans {k'' : Kernel} (one : Framed k k' q bp list) (two : Framed k' k'' q bp list) :
    Framed k k'' q bp list := by
  refine ⟨fun other differ => (one.queues other differ).trans (two.queues other differ), Nat.le_trans one.longer two.longer,
    fun m member => ?_, fun m differ away => (two.outside m differ away).trans (one.outside m differ away)⟩
  obtain ⟨band, type, blocks⟩ := one.loads m member
  obtain ⟨band', type', blocks'⟩ := two.loads m member
  exact ⟨band'.trans band, type'.trans type, blocks'.trans blocks⟩

theorem Fits.congr {above : Nat → Prop} (fits : Fits k above list left right) (keys : ∀ m ∈ list, k'.key m = k.key m) :
    Fits k' above list left right := by
  refine ⟨fits.split, fun m member => ?_, fun m member => ?_⟩
  · rw [keys m (by rw [fits.split]; simp [member])]
    exact fits.high m member
  · rw [keys m (by rw [fits.split]; simp [member])]
    exact fits.low m member

/-- An insertion at a place that is found; where it fits the order, the representation is kept. -/
theorem putZero_at (found : find q bp none k = some (place left right)) (queued : Queued nMsg k q (left ++ right))
    (fresh : bp ∉ left ++ right) (zero : (k.msg bp).bBand = 0) :
    ∃ k', putZero find q bp k = some k' ∧ Framed k k' q bp (left ++ right) ∧ Loads k k' [bp] ∧
      (bp < nMsg → (k.msg bp).Valid → (∀ m ∈ left, k.key bp ≤ k.key m) → (∀ m ∈ right, k.key m ≤ k.key bp) →
        Queued nMsg k' q (left ++ bp :: right)) := by
  let k₁ := splice q bp left.getLast? right.head? k
  let k₂ := k₁.setQueue q fun qp =>
    { qp with
      qCount := addBlocks (k₁.queue q).qCount (k₁.msg bp).blocks
      qFlag := if addBlocks (k₁.queue q).qCount (k₁.msg bp).blocks ≥ qp.qHiwat then qp.qFlag ||| qfull else qp.qFlag }
  have doubly := splice_doubly (q := q) fresh queued.doubly
  have loads := splice_loads (k := k) (q := q) fresh
  have count : (k₁.queue q).qCount = (k.queue q).qCount := by simp [k₁]
  refine ⟨k₂, ?_, ⟨fun other differ => ?_, ?_, fun m _ => loads m, fun m differ away => ?_⟩, fun m _ => loads m,
    fun known valid high low => ⟨?_, ?_⟩⟩
  · simp [putZero, found, place, k₂, k₁]
  · have same : k₂.queue other = k.queue other := by simp [k₂, k₁, differ]
    rw [same]
    exact .refl
  · simp [k₂, k₁]
  · exact splice_outside fresh differ away
  · have first : (k₂.queue q).qFirst = (k₁.queue q).qFirst := by simp [k₂]
    have last : (k₂.queue q).qLast = (k₁.queue q).qLast := by simp [k₂]
    rw [first, last]
    exact doubly
  · have tallied := (@Tallied.insert _ _ _ _ (k₂.queue q)) queued.tallied valid known high low
      (by simp [k₂, k₁])
      (by rw [zero]; exact Nat.zero_le _)
      (by
        rw [if_pos zero, ← count, ← (loads bp).2.2]
        simp [k₂, k₁])
      (fun i qbp there => by
        refine ⟨qbp, ?_, (if_neg (by omega)).symm⟩
        simpa [k₂, k₁] using there)
    exact tallied.congr .refl fun m _ => loads m

/-- The ends of the band decide whether the representation is kept. -/
theorem putBand_at {qbp : Qband} (entry : (k.queue q).qBandp[(k.msg bp).bBand - 1]? = some qbp)
    (found : find q bp (some qbp) k = some (place left right)) (queued : Queued nMsg k q (left ++ right))
    (fresh : bp ∉ left ++ right) (positive : (k.msg bp).bBand ≠ 0) :
    ∃ k' new, putBand find ends q bp (k.msg bp).bBand k = some k' ∧ Framed k k' q bp (left ++ right) ∧ Loads k k' [bp] ∧
      (k'.queue q).qBandp[(k.msg bp).bBand - 1]? = some new ∧
      new.qbLast = (ends bp (decide ((k.queue q).qFirst = none)) qbp).qbLast ∧
      (bp < nMsg → (k.msg bp).Valid → (∀ m ∈ left, k.key bp ≤ k.key m) → (∀ m ∈ right, k.key m ≤ k.key bp) →
        (ends bp (decide ((k.queue q).qFirst = none)) qbp).qbFirst =
          (k.band (k.msg bp).bBand (left ++ bp :: right)).head? →
        (ends bp (decide ((k.queue q).qFirst = none)) qbp).qbLast =
          (k.band (k.msg bp).bBand (left ++ bp :: right)).getLast? →
        Queued nMsg k' q (left ++ bp :: right)) := by
  have index : (k.msg bp).bBand - 1 + 1 = (k.msg bp).bBand := by omega
  let empty : Bool := (k.queue q).qFirst = none
  let k₁ := splice q bp left.getLast? right.head? k
  let count := addBlocks qbp.qbCount (k₁.msg bp).blocks
  let value (qbp : Qband) : Qband :=
    { ends bp empty qbp with
      qbCount := count
      qbFlag := if count ≥ qbp.qbHiwat then qbp.qbFlag ||| qbFull else qbp.qbFlag }
  let k₂ := k₁.setBand q ((k.msg bp).bBand - 1) value
  have doubly := splice_doubly (q := q) fresh queued.doubly
  have loads := splice_loads (k := k) (q := q) fresh
  have bandp : (k₂.queue q).qBandp = (k.queue q).qBandp.modify ((k.msg bp).bBand - 1) value := by
    simp [k₂, k₁, Kernel.setBand]
  refine ⟨k₂, value qbp, ?_, ⟨fun other differ => ?_, ?_, fun m _ => loads m, fun m differ away => ?_⟩,
    fun m _ => loads m, ?_, rfl, fun known valid high low first last => ⟨?_, ?_⟩⟩
  · simp [putBand, entry, found, place, k₂, k₁, value, count, empty]
  · have same : k₂.queue other = k.queue other := by
      simp [k₂, k₁, Kernel.setBand, differ]
    rw [same]
    exact .refl
  · exact Nat.le_of_eq (by rw [bandp, List.length_modify])
  · exact splice_outside fresh differ away
  · rw [bandp, List.getElem?_modify, entry]
    simp
  · have head : (k₂.queue q).qFirst = (k₁.queue q).qFirst := by simp [k₂, Kernel.setBand]
    have tail : (k₂.queue q).qLast = (k₁.queue q).qLast := by simp [k₂, Kernel.setBand]
    rw [head, tail]
    exact doubly
  · have record : (k.msg bp).bBand ≤ (k.queue q).qBandp.length := by
      have inside := (List.getElem?_eq_some_iff.mp entry).1
      omega
    have tallied := queued.tallied.insert valid known high low (by rw [bandp, List.length_modify]) record
      (by
        rw [if_neg positive]
        simp [k₂, k₁, Kernel.setBand])
      (fun i new there => by
        rw [bandp] at there
        rcases modify_entry there with ⟨rfl, old, was, rfl⟩ | ⟨other, was⟩
        · obtain rfl := Option.some.inj (entry.symm.trans was)
          refine ⟨qbp, entry, ?_⟩
          rw [index, if_pos rfl, ← first, ← last, ← (loads bp).2.2]
          rfl
        · exact ⟨new, was, (if_neg (by omega)).symm⟩)
    exact tallied.congr .refl fun m _ => loads m

theorem putZero_queued (putter : Putter nMsg find ends above join) (queued : Queued nMsg k q list) (known : bp < nMsg)
    (fresh : bp ∉ list) (valid : (k.msg bp).Valid) (zero : (k.msg bp).bBand = 0) :
    ∃ k' left right, putZero find q bp k = some k' ∧ Fits k (above (k.key bp)) list left right ∧
      Queued nMsg k' q (left ++ bp :: right) ∧ Framed k k' q bp list ∧ Loads k k' [bp] := by
  obtain ⟨left, right, fits, found⟩ := (@Putter.fits _ _ _ _ _ putter _ _ _ _ none) queued.lined valid (fun _ => zero) (by simp)
  have split := fits.split
  subst split
  obtain ⟨k', result, framed, loads, keeps⟩ := putZero_at found queued fresh zero
  exact ⟨k', left, right, result, fits, keeps known valid (fun m member => putter.high _ _ (fits.high m member))
    (fun m member => putter.low _ _ (fits.low m member)), framed, loads⟩

theorem band_key (valid : ∀ m ∈ list, (k.msg m).Valid) (positive : pri ≠ 0) (small : pri ≤ 255) :
    k.band pri list = list.filter fun m => k.key m = pri :=
  List.filter_congr fun m member => by
    rw [decide_eq_decide]
    exact (valid m member).band_iff positive small

theorem putBand_queued (putter : Putter nMsg find ends above join) (queued : Queued nMsg k q list) (known : bp < nMsg)
    (fresh : bp ∉ list) (valid : (k.msg bp).Valid) (positive : (k.msg bp).bBand ≠ 0)
    (record : (k.msg bp).bBand ≤ (k.queue q).qBandp.length) :
    ∃ k' left right, putBand find ends q bp (k.msg bp).bBand k = some k' ∧ Fits k (above (k.key bp)) list left right ∧
      Queued nMsg k' q (left ++ bp :: right) ∧ Framed k k' q bp list ∧ Loads k k' [bp] := by
  obtain ⟨qbp, entry⟩ : ∃ qbp, (k.queue q).qBandp[(k.msg bp).bBand - 1]? = some qbp :=
    ⟨_, List.getElem?_eq_getElem (by omega)⟩
  have index : (k.msg bp).bBand - 1 + 1 = (k.msg bp).bBand := by omega
  have core := queued.tallied.bands _ qbp entry
  rw [index] at core
  have first : qbp.qbFirst = (k.band (k.msg bp).bBand list).head? := congrArg (·.2.1) core
  have last : qbp.qbLast = (k.band (k.msg bp).bBand list).getLast? := congrArg (·.2.2) core
  obtain ⟨left, right, fits, found⟩ := (@Putter.fits _ _ _ _ _ putter _ _ _ _ (some qbp)) queued.lined valid (fun none => by cases none)
    (by rintro b ⟨⟩; exact ⟨positive, first, last⟩)
  have split := fits.split
  subst split
  -- The band with the new message.
  have joined : k.band (k.msg bp).bBand (left ++ bp :: right) = join bp (k.band (k.msg bp).bBand (left ++ right)) := by
    have keyed : k.key bp = (k.msg bp).bBand := (valid.band_iff positive valid.2).mp rfl
    have all : ∀ m ∈ left ++ bp :: right, (k.msg m).Valid := by
      intro m member
      rcases List.mem_cons.mp (List.perm_middle.mem_iff.mp member) with rfl | member
      · exact valid
      · exact queued.tallied.valid m member
    rw [band_key all positive valid.2, band_key queued.tallied.valid positive valid.2, ← keyed]
    exact putter.joins fits
  have marks := putter.marks bp (decide ((k.queue q).qFirst = none)) qbp _ first last fun none => by
    have empty : left ++ right = [] := List.head?_eq_none_iff.mp (queued.doubly.first_eq.symm.trans (by simpa using none))
    rw [empty]
    rfl
  obtain ⟨k', -, result, framed, loads, -, -, keeps⟩ := (@putBand_at nMsg q bp k left right find ends qbp) entry found queued fresh positive
  refine ⟨k', left, right, result, fits, keeps known valid (fun m member => putter.high _ _ (fits.high m member))
    (fun m member => putter.low _ _ (fits.low m member)) ?_ ?_, framed, loads⟩
  · rw [joined]
    exact marks.1
  · rw [joined]
    exact marks.2

/-- The message goes on the queue, unless there is no memory for its band record. -/
theorem put_queued (putter : Putter nMsg find ends above join) (queued : Queued nMsg k q list) (known : bp < nMsg)
    (fresh : bp ∉ list) (small : (k.msg bp).bBand ≤ 255) :
    ∃ k' done, put find ends q bp k = some (k', done) ∧ Framed k k' q bp list ∧ k'.key bp = k.key bp ∧
      (done = false → Queued nMsg k' q list) ∧
      (done = true → ∃ left right, Fits k (above (k.key bp)) list left right ∧ Queued nMsg k' q (left ++ bp :: right)) ∧
      ((k.msg bp).bBand ≤ (k.queue q).qBandp.length → done = true) := by
  -- The band of a message of high priority is forced to be 0.
  let k₀ := if (k.msg bp).queclass = qpctl then k.setMsg bp fun m => { m with bBand := 0 } else k
  have others {m : Nat} (differ : m ≠ bp) : k₀.msg m = k.msg m := by
    by_cases high : (k.msg bp).queclass = qpctl
    · simp [k₀, high, differ]
    · simp [k₀, high]
  have queue : k₀.queue = k.queue := by
    by_cases high : (k.msg bp).queclass = qpctl
    · simp [k₀, high]
    · simp [k₀, high]
  have key : k₀.key bp = k.key bp := by
    by_cases high : qpctl ≤ (k.msg bp).dbType
    · have type : qpctl ≤ (k₀.msg bp).dbType := by simp [k₀, queclass_high high, high]
      exact (key_high type).trans (key_high high).symm
    · simp [k₀, queclass_normal high, show ¬ qnorm = qpctl by decide]
  have valid : (k₀.msg bp).Valid := by
    by_cases high : qpctl ≤ (k.msg bp).dbType
    · have zero : (k₀.msg bp).bBand = 0 := by simp [k₀, queclass_high high]
      exact ⟨fun _ => zero, by omega⟩
    · have same : k₀ = k := by simp [k₀, queclass_normal high, show ¬ qnorm = qpctl by decide]
      rw [same]
      exact ⟨fun wrong => absurd wrong high, small⟩
  have queued₀ : Queued nMsg k₀ q list :=
    queued.congr (by rw [queue]; exact .refl) fun m member => others fun same => fresh (same ▸ member)
  have keys {m : Nat} (member : m ∈ list) : k₀.key m = k.key m := by
    have differ : m ≠ bp := fun same => fresh (same ▸ member)
    rw [Kernel.key, others differ]
  have framed₀ : Framed k k₀ q bp list := by
    refine ⟨fun _ _ => by rw [queue]; exact .refl, Nat.le_of_eq (by rw [queue]), fun m member => ?_, fun m differ _ => others differ⟩
    rw [others fun same => fresh (same ▸ member)]
    exact ⟨rfl, rfl, rfl⟩
  -- Both kinds of insertion, followed by `qenable`.
  have finish {k₁ k₂ : Kernel} {left right : List Nat} {test : Prop} [Decidable test] (quiet : Quiet k₀ k₁)
      (fits : Fits k₁ (above (k₁.key bp)) list left right) (queued : Queued nMsg k₂ q (left ++ bp :: right))
      (framed : Framed k₁ k₂ q bp list) (loads : Loads k₁ k₂ [bp]) :
      Framed k (if test then qenable q k₂ else k₂) q bp list ∧ (if test then qenable q k₂ else k₂).key bp = k.key bp ∧
        Fits k (above (k.key bp)) list left right ∧
        Queued nMsg (if test then qenable q k₂ else k₂) q (left ++ bp :: right) := by
    have same : k₁.key bp = k.key bp := by
      rw [Kernel.key, quiet.msg]
      exact key
    refine ⟨((framed₀.quiet quiet).trans framed).quiet quiet_enabled, ?_, ?_,
      queued.congr (quiet_enabled.rep q) fun m _ => by rw [quiet_enabled.msg]⟩
    · rw [Kernel.key, quiet_enabled.msg]
      exact (loads.key (List.mem_singleton.mpr rfl)).trans same
    · rw [same] at fits
      refine fits.congr fun m member => ?_
      rw [← keys member, Kernel.key, Kernel.key, quiet.msg]
  by_cases banded : (k.msg bp).queclass ≠ qpctl ∧ (k.msg bp).bBand ≠ 0
  · have same : k₀ = k := if_neg banded.1
    obtain ⟨quiet, length⟩ := needBand_quiet (k := k₀) (q := q)
    cases found : (needBand q (k.msg bp).bBand k₀).2 with
    | false =>
      refine ⟨(needBand q (k.msg bp).bBand k₀).1, false, ?_, framed₀.quiet quiet, ?_,
        fun _ => queued₀.congr (quiet.rep q) fun m _ => by rw [quiet.msg], by rintro ⟨⟩, fun enough => ?_⟩
      · unfold put
        simp only [if_pos banded]
        rw [show (if (k.msg bp).queclass = qpctl then k.setMsg bp fun m => { m with bBand := 0 } else k) = k₀ from rfl]
        simp [found]
      · rw [Kernel.key, quiet.msg]
        exact key
      · have none : (k.msg bp).bBand - (k₀.queue q).qBandp.length = 0 := by
          rw [same]
          omega
        rw [needBand, none] at found
        cases found
    | true =>
      let k₁ := (needBand q (k.msg bp).bBand k₀).1
      have msg : k₁.msg bp = k.msg bp := by rw [quiet.msg, same]
      have queued₁ : Queued nMsg k₁ q list := queued₀.congr (quiet.rep q) fun m _ => by rw [quiet.msg]
      obtain ⟨k₂, left, right, result, fits, queued₂, framed, loads⟩ := putBand_queued putter queued₁ known fresh
        (by rw [quiet.msg]; exact valid) (by rw [msg]; exact banded.2) (by rw [msg]; exact length found)
      rw [msg] at result
      obtain ⟨framed', key', fits', queued'⟩ := (@finish _ _ _ _
        ((k.msg bp).queclass > qnorm ∨ ((k₂.queue q).qFlag &&& qnoenb = 0 ∧ (k₂.queue q).qFlag &&& qwantr ≠ 0))) quiet fits queued₂ framed loads
      refine ⟨_, true, ?_, framed', key', by rintro ⟨⟩, fun _ => ⟨left, right, fits', queued'⟩, fun _ => rfl⟩
      unfold put
      simp only [if_pos banded]
      rw [show (if (k.msg bp).queclass = qpctl then k.setMsg bp fun m => { m with bBand := 0 } else k) = k₀ from rfl]
      simp [found, result, k₁]
  · have zero : (k₀.msg bp).bBand = 0 := by
      by_cases high : (k.msg bp).queclass = qpctl
      · simp [k₀, high]
      · have same : k₀ = k := if_neg high
        rw [same]
        by_contra positive
        exact banded ⟨high, positive⟩
    obtain ⟨k₁, left, right, result, fits, queued₁, framed, loads⟩ :=
      putZero_queued putter queued₀ known fresh valid zero
    obtain ⟨framed', key', fits', queued'⟩ := (@finish _ _ _ _
      ((k.msg bp).queclass > qnorm ∨ ((k₁.queue q).qFlag &&& qnoenb = 0 ∧ (k₁.queue q).qFlag &&& qwantr ≠ 0))) .refl fits queued₁ framed loads
    refine ⟨_, true, ?_, framed', key', by rintro ⟨⟩, fun _ => ⟨left, right, fits', queued'⟩, fun _ => rfl⟩
    unfold put
    simp only [if_neg banded]
    rw [show (if (k.msg bp).queclass = qpctl then k.setMsg bp fun m => { m with bBand := 0 } else k) = k₀ from rfl]
    simp [result]

end

end

end Svr4.Streams
