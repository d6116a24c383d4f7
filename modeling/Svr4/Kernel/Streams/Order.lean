import Mathlib.Data.List.Perm.Subperm
import Svr4.Foundation.Doubly
import Svr4.Kernel.Streams

/-! The order of the messages on a queue, and the places that `putq` and `putbq` find. -/

namespace Svr4.Streams

/-- High priority messages are above all bands. -/
def Msgb.key (m : Msgb) : Nat := if qpctl ≤ m.dbType then 256 else m.bBand

/-- A message as `putq` leaves it. -/
def Msgb.Valid (m : Msgb) : Prop := (qpctl ≤ m.dbType → m.bBand = 0) ∧ m.bBand ≤ 255

abbrev Kernel.key (k : Kernel) (m : Nat) : Nat := (k.msg m).key

/-- The messages of a band, in order. -/
abbrev Kernel.band (k : Kernel) (pri : Nat) (list : List Nat) : List Nat := list.filter fun m => (k.msg m).bBand = pri

/-- The order of a queue. -/
abbrev Kernel.Sorted (k : Kernel) (list : List Nat) : Prop := list.Pairwise fun a b => k.key b ≤ k.key a

section
variable {k : Kernel} {m : Msgb} {list left right rest : List Nat} {bp tmp : Nat} {head : Option Nat}
  {test : Nat → Bool} {qbp : Option Qband}

theorem key_high (high : qpctl ≤ m.dbType) : m.key = 256 := if_pos high

theorem key_normal (normal : ¬ qpctl ≤ m.dbType) : m.key = m.bBand := if_neg normal

theorem Msgb.Valid.key_le (valid : m.Valid) : m.key ≤ 256 := by
  unfold Msgb.key
  split
  · exact Nat.le_refl _
  · have band := valid.2
    omega

theorem Msgb.Valid.high_iff (valid : m.Valid) : qpctl ≤ m.dbType ↔ m.key = 256 := by
  constructor
  · exact key_high
  · intro key
    by_contra normal
    rw [key_normal normal] at key
    have band := valid.2
    omega

theorem Msgb.Valid.band_iff (valid : m.Valid) {pri : Nat} (positive : pri ≠ 0) (small : pri ≤ 255) :
    m.bBand = pri ↔ m.key = pri := by
  by_cases high : qpctl ≤ m.dbType
  · rw [key_high high, valid.1 high]
    omega
  · rw [key_normal high]

theorem queclass_high (high : qpctl ≤ m.dbType) : m.queclass = qpctl := if_pos high

theorem queclass_normal (normal : ¬ qpctl ≤ m.dbType) : m.queclass = qnorm := if_neg normal

/-! ## Searching -/

theorem skip_finds {test : Msgb → Bool} {fuel : Nat} (chain : Chain k.next head (left ++ tmp :: right))
    (pass : ∀ m ∈ left, test (k.msg m) = true) (fail : test (k.msg tmp) = false) (enough : left.length < fuel) :
    skip k test fuel head = some tmp := by
  induction left generalizing fuel head with
  | nil =>
    obtain ⟨fuel, rfl⟩ := Nat.exists_eq_add_one.mpr enough
    obtain rfl : head = some tmp := chain.head_eq
    simp [skip, fail]
  | cons m left ih =>
    obtain ⟨fuel, rfl⟩ := Nat.exists_eq_succ_of_ne_zero (Nat.ne_zero_of_lt enough)
    obtain rfl : head = some m := chain.head_eq
    have tail : Chain k.next (k.next m) (left ++ tmp :: right) := chain.tail
    have here : test (k.msg m) = true := pass m (by simp)
    unfold skip
    rw [if_pos here]
    exact ih tail (fun m member => pass m (.tail _ member)) (by simpa using enough)

theorem sorted_split {above : Nat → Prop} [DecidablePred above] (sorted : k.Sorted list)
    (up : ∀ x y, x ≤ y → above x → above y) :
    ∃ left right, list = left ++ right ∧ (∀ m ∈ left, above (k.key m)) ∧ ∀ m ∈ right, ¬ above (k.key m) := by
  induction list with
  | nil => exact ⟨[], [], rfl, by simp, by simp⟩
  | cons first rest ih =>
    obtain ⟨least, tail⟩ := List.pairwise_cons.mp sorted
    by_cases here : above (k.key first)
    · obtain ⟨left, right, rfl, high, low⟩ := ih tail
      exact ⟨first :: left, right, rfl, by simpa [here] using high, low⟩
    · refine ⟨[], first :: rest, rfl, by simp, fun m member => ?_⟩
      rcases List.mem_cons.mp member with rfl | member
      · exact here
      · exact fun yes => here (up _ _ (least m member) yes)

theorem sorted_last (sorted : k.Sorted list) (last : list.getLast? = some tmp) : ∀ m ∈ list, k.key tmp ≤ k.key m := by
  obtain ⟨front, rfl⟩ := List.getLast?_eq_some_iff.mp last
  intro m member
  rcases List.mem_append.mp member with member | member
  · exact (List.pairwise_append.mp sorted).2.2 m member tmp (by simp)
  · exact Nat.le_of_eq (congrArg k.key (List.mem_singleton.mp member).symm)

theorem filter_last (last : (list.filter test).getLast? = some tmp) :
    ∃ left right, list = left ++ tmp :: right ∧ test tmp = true ∧ ∀ m ∈ right, test m = false := by
  rw [List.getLast?_filter, List.find?_eq_some_iff_append] at last
  obtain ⟨yes, left, right, split, no⟩ := last
  refine ⟨right.reverse, left.reverse, ?_, yes, fun m member => ?_⟩
  · have turned := congrArg List.reverse split
    simpa using turned
  · simpa using no m (List.mem_reverse.mp member)

theorem filter_first (first : (list.filter test).head? = some tmp) :
    ∃ left right, list = left ++ tmp :: right ∧ test tmp = true ∧ ∀ m ∈ left, test m = false := by
  rw [List.head?_filter, List.find?_eq_some_iff_append] at first
  obtain ⟨yes, left, right, split, no⟩ := first
  exact ⟨left, right, split, yes, fun m member => by simpa using no m member⟩

/-! ## Places -/

/-- The messages in front of the place have keys that are above, the others have not. -/
structure Fits (k : Kernel) (above : Nat → Prop) (list left right : List Nat) : Prop where
  split : list = left ++ right
  high : ∀ m ∈ left, above (k.key m)
  low : ∀ m ∈ right, ¬ above (k.key m)

theorem Fits.all {above : Nat → Prop} (high : ∀ m ∈ list, above (k.key m)) : Fits k above list list [] :=
  ⟨(List.append_nil list).symm, high, by simp⟩

/-- The place between the two parts. -/
def place (left right : List Nat) : Place := (left.getLast?, right.head?)

variable {nMsg q : Nat} {above : Nat → Prop} [DecidablePred above]

/-- The list of a queue, as far as a place is concerned. -/
structure Lined (nMsg : Nat) (k : Kernel) (q : Nat) (list : List Nat) : Prop where
  doubly : Doubly k.next k.prev (k.queue q).qFirst (k.queue q).qLast list
  sorted : k.Sorted list
  valid : ∀ m ∈ list, (k.msg m).Valid
  known : ∀ m ∈ list, m < nMsg

theorem Lined.length_le (lined : Lined nMsg k q list) : list.length ≤ nMsg := by
  have sub : list ⊆ List.range nMsg := fun m member => List.mem_range.mpr (lined.known m member)
  simpa using (List.subperm_of_subset lined.doubly.nodup sub).length_le

/-- Before the first message that fails a test that the keys decide. -/
theorem Lined.search {test : Msgb → Bool} (lined : Lined nMsg k q list) (up : ∀ x y, x ≤ y → above x → above y)
    (decides : ∀ m ∈ list, test (k.msg m) = true ↔ above (k.key m)) (stop : ∃ m ∈ list, ¬ above (k.key m)) :
    ∃ left tmp right, Fits k above list left (tmp :: right) ∧ skip k test nMsg (k.queue q).qFirst = some tmp ∧
      beforeMsg k tmp = place left (tmp :: right) := by
  obtain ⟨left, right, split, high, low⟩ := sorted_split lined.sorted up
  cases right with
  | nil =>
    obtain ⟨m, member, fails⟩ := stop
    rw [split, List.append_nil] at member
    exact absurd (high m member) fails
  | cons tmp right =>
    have length := lined.length_le
    have doubly := lined.doubly
    rw [split] at doubly length
    refine ⟨left, tmp, right, ⟨split, high, low⟩, skip_finds doubly.forward (fun m member => ?_) ?_ ?_, ?_⟩
    · exact (decides m (by simp [split, member])).mpr (high m member)
    · have fails := low tmp (by simp)
      rw [← decides tmp (by simp [split])] at fails
      simpa using fails
    · simp only [List.length_append, List.length_cons] at length
      omega
    · rw [beforeMsg, place, doubly.prev_eq]
      rfl

theorem behind_fits {first : Nat} (lined : Lined nMsg k q list) (head : (k.queue q).qFirst = some first)
    (normal : (k.msg bp).queclass = qnorm) (up : ∀ x y, x ≤ y → above x → above y) (most : above 256) :
    ∃ left right, Fits k above list left right ∧ behind nMsg q bp (fun pri => decide (above pri)) first k =
      some (place left right) := by
  have filled : list ≠ [] := by
    rintro rfl
    rw [lined.doubly.first_eq] at head
    cases head
  obtain ⟨tmp, last⟩ : ∃ tmp, list.getLast? = some tmp := ⟨_, List.getLast?_eq_some_getLast filled⟩
  have tail : (k.queue q).qLast = some tmp := lined.doubly.last_eq.trans last
  have least := sorted_last lined.sorted last
  have member : tmp ∈ list := List.mem_of_getLast? last
  unfold behind
  rw [tail]
  simp only [Option.pure_def, Option.bind_eq_bind, Option.bind_some, normal, decide_eq_true_eq]
  by_cases stop : qnorm < (k.msg tmp).queclass ∨ above (k.msg tmp).bBand
  · rw [if_pos stop]
    refine ⟨list, [], .all fun m there => up _ _ (least m there) ?_, by rw [place, last]; rfl⟩
    by_cases high : qpctl ≤ (k.msg tmp).dbType
    · rw [Kernel.key, key_high high]
      exact most
    · rw [Kernel.key, key_normal high]
      rw [queclass_normal high] at stop
      exact stop.resolve_left (Nat.lt_irrefl _)
  · rw [if_neg stop]
    obtain ⟨ordinary, below⟩ := not_or.mp stop
    have ordinary : ¬ qpctl ≤ (k.msg tmp).dbType := by
      intro high
      rw [queclass_high high] at ordinary
      exact ordinary (by decide)
    have lowest : ¬ above (k.key tmp) := by
      rw [Kernel.key, key_normal ordinary]
      exact below
    -- First over the messages of high priority, then over the bands.
    obtain ⟨left, p, right, fits, found, _⟩ := (@Lined.search _ _ _ _ _ _ (fun m => qpctl ≤ m.dbType)) lined (fun x y less more => Nat.le_trans more less)
      (fun m there => by
        rw [decide_eq_true_eq, (lined.valid m there).high_iff]
        have most := (lined.valid m there).key_le
        change (k.msg m).key = 256 ↔ 256 ≤ (k.msg m).key
        omega)
      ⟨tmp, member, by
        rw [Kernel.key, key_normal ordinary]
        have band := (lined.valid tmp member).2
        omega⟩
    rw [head] at found
    rw [found]
    simp only [Option.bind_some]
    have doubly := lined.doubly
    have sorted := lined.sorted
    have length := lined.length_le
    rw [fits.split] at doubly sorted length
    obtain ⟨front, back, split, high, low⟩ := sorted_split (List.pairwise_append.mp sorted).2.1 up
    have inside (m : Nat) (there : m ∈ p :: right) : (k.msg m).key = (k.msg m).bBand := by
      have small := fits.low m there
      refine key_normal fun high => small ?_
      exact Nat.le_of_eq (key_high high).symm
    have bands (m : Nat) (there : m ∈ p :: right) : decide (above (k.msg m).bBand) = true ↔ above (k.key m) := by
      rw [decide_eq_true_eq, Kernel.key, inside m there]
    cases back with
    | nil =>
      have there : tmp ∈ p :: right := by
        rw [fits.split] at member
        refine (List.mem_append.mp member).resolve_left fun high => ?_
        exact lowest (up _ _ (fits.high tmp high) most)
      rw [split, List.append_nil] at there
      exact absurd (high tmp there) lowest
    | cons p' right' =>
      have chain : Chain k.next (some p) (front ++ p' :: right') := by
        rw [← split]
        exact .cons doubly.forward.suffix
      have found' : skip k (fun m => decide (above m.bBand)) nMsg (some p) = some p' := by
        refine skip_finds chain (fun m there => ?_) ?_ ?_
        · exact (bands m (by rw [split]; simp [there])).mpr (high m there)
        · have fails := low p' (by simp)
          rw [← bands p' (by rw [split]; simp)] at fails
          simpa using fails
        · rw [split] at length
          simp only [List.length_append, List.length_cons] at length
          omega
      rw [found']
      rw [split, ← List.append_assoc] at doubly
      refine ⟨left ++ front, p' :: right', ⟨?_, fun m there => ?_, low⟩, ?_⟩
      · rw [fits.split, split, List.append_assoc]
      · rcases List.mem_append.mp there with there | there
        · exact up _ _ (fits.high m there) most
        · exact high m there
      · simp [beforeMsg, place, doubly.prev_eq]

/-- The record says where the messages of the band are. -/
def Marks (k : Kernel) (list : List Nat) (pri : Nat) (qbp : Qband) : Prop :=
  qbp.qbFirst = (k.band pri list).head? ∧ qbp.qbLast = (k.band pri list).getLast?

theorem Lined.around (lined : Lined nMsg k q list) (split : list = left ++ tmp :: right) :
    (∀ m ∈ left, k.key tmp ≤ k.key m) ∧ ∀ m ∈ right, k.key m ≤ k.key tmp := by
  have sorted := lined.sorted
  rw [split] at sorted
  obtain ⟨_, tail, across⟩ := List.pairwise_append.mp sorted
  exact ⟨fun m member => across m member tmp (by simp), (List.pairwise_cons.mp tail).1⟩

/-- `putq` goes behind the messages of its class and band. -/
theorem putqPlace_fits (lined : Lined nMsg k q list) (valid : (k.msg bp).Valid)
    (zero : qbp = none → (k.msg bp).bBand = 0)
    (record : ∀ b, qbp = some b → (k.msg bp).bBand ≠ 0 ∧ Marks k list (k.msg bp).bBand b) :
    ∃ left right, Fits k (k.key bp ≤ ·) list left right ∧ putqPlace nMsg q bp qbp k = some (place left right) := by
  have up (x y : Nat) (less : x ≤ y) (more : k.key bp ≤ x) : k.key bp ≤ y := Nat.le_trans more less
  cases head : (k.queue q).qFirst with
  | none =>
    have empty : list = [] := List.head?_eq_none_iff.mp (lined.doubly.first_eq.symm.trans head)
    subst empty
    exact ⟨[], [], .all (by simp), by simp [putqPlace, head, place]⟩
  | some first =>
    simp only [putqPlace, head]
    have filled : list ≠ [] := by
      rintro rfl
      rw [lined.doubly.first_eq] at head
      cases head
    cases qbp with
    | none =>
      obtain ⟨tmp, last⟩ : ∃ tmp, list.getLast? = some tmp := ⟨_, List.getLast?_eq_some_getLast filled⟩
      have tail : (k.queue q).qLast = some tmp := lined.doubly.last_eq.trans last
      have least := sorted_last lined.sorted last
      have member : tmp ∈ list := List.mem_of_getLast? last
      simp only [tail, Option.pure_def, Option.bind_eq_bind, Option.bind_some]
      by_cases behind : (k.msg bp).queclass ≤ (k.msg tmp).queclass
      · rw [if_pos behind]
        refine ⟨list, [], .all fun m there => up _ _ (least m there) ?_, by rw [place, last]; rfl⟩
        by_cases high : qpctl ≤ (k.msg bp).dbType
        · have class' : qpctl ≤ (k.msg tmp).dbType := by
            by_contra normal
            rw [queclass_high high, queclass_normal normal] at behind
            cases behind
          exact Nat.le_of_eq ((key_high high).trans (key_high class').symm)
        · rw [Kernel.key, key_normal high, zero rfl]
          exact Nat.zero_le _
      · rw [if_neg behind]
        -- Only a message of high priority can pass others here.
        have high : qpctl ≤ (k.msg bp).dbType := by
          by_contra normal
          rw [queclass_normal normal] at behind
          exact behind (Nat.zero_le _)
        have key : k.key bp = 256 := key_high high
        have normal : ¬ qpctl ≤ (k.msg tmp).dbType := by
          intro other
          rw [queclass_high high, queclass_high other] at behind
          exact behind (Nat.le_refl _)
        obtain ⟨left, p, right, fits, found, before⟩ := (@Lined.search _ _ _ _ _ _ (fun m => (k.msg bp).queclass ≤ m.queclass)) lined up
          (fun m there => by
            rw [decide_eq_true_eq, queclass_high high, key]
            by_cases class' : qpctl ≤ (k.msg m).dbType
            · rw [queclass_high class', Kernel.key, key_high class']
              simp
            · rw [queclass_normal class', Kernel.key, key_normal class']
              have band := (lined.valid m there).2
              constructor
              · intro wrong
                cases wrong
              · intro wrong
                omega)
          ⟨tmp, member, by
            rw [key, Kernel.key, key_normal normal]
            have band := (lined.valid tmp member).2
            omega⟩
        rw [head] at found
        rw [found]
        exact ⟨left, p :: right, fits, by rw [Option.bind_some, before]⟩
    | some qbp =>
      obtain ⟨positive, first', last'⟩ := record qbp rfl
      have normal : ¬ qpctl ≤ (k.msg bp).dbType := fun high => positive (valid.1 high)
      have key : k.key bp = (k.msg bp).bBand := key_normal normal
      cases begin : qbp.qbFirst with
      | some start =>
        -- Behind the last message of the band.
        have band : k.band (k.msg bp).bBand list ≠ [] := by
          intro empty
          rw [begin, empty] at first'
          cases first'
        obtain ⟨tmp, last⟩ : ∃ tmp, (k.band (k.msg bp).bBand list).getLast? = some tmp :=
          ⟨_, List.getLast?_eq_some_getLast band⟩
        obtain ⟨left, right, split, same, others⟩ := filter_last last
        have there : tmp ∈ list := by
          rw [split]
          simp
        have same : k.key tmp = k.key bp := by
          rw [key]
          exact ((lined.valid tmp there).band_iff positive valid.2).mp (by simpa using same)
        obtain ⟨before, after⟩ := lined.around split
        have doubly := lined.doubly
        rw [split] at doubly
        refine ⟨left ++ [tmp], right, ⟨?_, fun m member => ?_, fun m member => ?_⟩, ?_⟩
        · rw [split, List.append_assoc, List.singleton_append]
        · rcases List.mem_append.mp member with member | member
          · rw [← same]
            exact before m member
          · exact Nat.le_of_eq (by rw [List.mem_singleton.mp member, same])
        · have less := after m member
          have differ : (k.msg m).bBand ≠ (k.msg bp).bBand := by simpa using others m member
          have known : m ∈ list := by
            rw [split]
            simp [member]
          rw [Ne, (lined.valid m known).band_iff positive valid.2] at differ
          rw [same] at less
          intro more
          exact differ (key ▸ Nat.le_antisymm less more)
        · simp [begin, last', last, place, doubly.next_eq]
      | none =>
        have class' : (k.msg bp).queclass = qnorm := queclass_normal normal
        obtain ⟨left, right, fits, found⟩ := behind_fits lined head class' up
          (by rw [key]; exact Nat.le_trans valid.2 (by decide))
        refine ⟨left, right, fits, ?_⟩
        rw [key] at found
        simpa only [begin] using found

/-- `putbq` goes in front of them. -/
theorem putbqPlace_fits (lined : Lined nMsg k q list) (valid : (k.msg bp).Valid)
    (zero : qbp = none → (k.msg bp).bBand = 0)
    (record : ∀ b, qbp = some b → (k.msg bp).bBand ≠ 0 ∧ Marks k list (k.msg bp).bBand b) :
    ∃ left right, Fits k (k.key bp < ·) list left right ∧ putbqPlace nMsg q bp qbp k = some (place left right) := by
  have up (x y : Nat) (less : x ≤ y) (more : k.key bp < x) : k.key bp < y := Nat.lt_of_lt_of_le more less
  cases head : (k.queue q).qFirst with
  | none =>
    have empty : list = [] := List.head?_eq_none_iff.mp (lined.doubly.first_eq.symm.trans head)
    subst empty
    exact ⟨[], [], .all (by simp), by simp [putbqPlace, head, place]⟩
  | some first =>
    simp only [putbqPlace, head]
    by_cases high : qpctl ≤ (k.msg bp).dbType
    · simp only [queclass_high high, if_true]
      refine ⟨[], list, ⟨rfl, by simp, fun m member => ?_⟩, ?_⟩
      · have most := (lined.valid m member).key_le
        rw [Kernel.key, key_high high]
        exact Nat.not_lt.mpr most
      · rw [place, ← lined.doubly.first_eq, head]
        rfl
    · have class' : (k.msg bp).queclass = qnorm := queclass_normal high
      have key : k.key bp = (k.msg bp).bBand := key_normal high
      have most : k.key bp < 256 := by
        rw [key]
        exact Nat.lt_of_le_of_lt valid.2 (by decide)
      have behind := behind_fits lined head class' up most
      rw [key] at behind
      simp only [class', if_neg (show ¬ qnorm = qpctl by decide)]
      cases qbp with
      | none =>
        obtain ⟨left, right, fits, found⟩ := behind
        rw [key]
        exact ⟨left, right, fits, found⟩
      | some qbp =>
        obtain ⟨positive, first', _⟩ := record qbp rfl
        cases begin : qbp.qbFirst with
        | none =>
          obtain ⟨left, right, fits, found⟩ := behind
          rw [key]
          exact ⟨left, right, fits, by simpa only [begin] using found⟩
        | some tmp =>
          obtain ⟨left, right, split, same, others⟩ := filter_first (first'.symm.trans begin)
          have there : tmp ∈ list := by
            rw [split]
            simp
          have same : k.key tmp = k.key bp := by
            rw [key]
            exact ((lined.valid tmp there).band_iff positive valid.2).mp (by simpa using same)
          obtain ⟨before, after⟩ := lined.around split
          have doubly := lined.doubly
          rw [split] at doubly
          refine ⟨left, tmp :: right, ⟨split, fun m member => ?_, fun m member => ?_⟩, ?_⟩
          · have more := before m member
            have differ : (k.msg m).bBand ≠ (k.msg bp).bBand := by simpa using others m member
            have known : m ∈ list := by
              rw [split]
              simp [member]
            rw [Ne, (lined.valid m known).band_iff positive valid.2] at differ
            rw [same] at more
            exact Nat.lt_of_le_of_ne more fun equal => differ (key ▸ equal.symm)
          · rcases List.mem_cons.mp member with rfl | member
            · rw [same]
              exact Nat.lt_irrefl _
            · rw [← same]
              exact Nat.not_lt.mpr (after m member)
          · simp [begin, beforeMsg, place, doubly.prev_eq]

end

end Svr4.Streams
