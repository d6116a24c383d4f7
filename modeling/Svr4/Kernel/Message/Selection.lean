import Svr4.Kernel.Message.Conservation

/-! The message that `msgrcv` looks for.

The search keeps the best message so far, and replaces it only by one of a smaller
type. `-msgtyp` is an `int`: for the least `int` it is the least `int` again.
-/

namespace Svr4.Message

open Words Ipc
open Prod (fst)

/-! ## What is asked for -/

/-- The types of the messages. -/
abbrev Kernel.type (k : Kernel) (h : Nat) : Int := (k.msgh h).msgType

/-- `msgtyp` allows the message. -/
def Matches (type : Nat → Int) (msgtyp : Int) (h : Nat) : Prop :=
  msgtyp = 0 ∨ (0 < msgtyp ∧ type h = msgtyp) ∨ (msgtyp < 0 ∧ type h ≤ -msgtyp)

instance (type : Nat → Int) (msgtyp : Int) (h : Nat) : Decidable (Matches type msgtyp h) :=
  inferInstanceAs (Decidable (_ ∨ _))

/-- No message that is allowed has a smaller type, if types are compared at all. -/
def Wanted (type : Nat → Int) (msgtyp : Int) (list : List Nat) (h : Nat) : Prop :=
  Matches type msgtyp h ∧ (msgtyp < 0 → ∀ other ∈ list, Matches type msgtyp other → type h ≤ type other)

instance (type : Nat → Int) (msgtyp : Int) (list : List Nat) (h : Nat) : Decidable (Wanted type msgtyp list h) :=
  inferInstanceAs (Decidable (_ ∧ _))

/-- The message to receive: the first that is wanted. -/
def select (type : Nat → Int) (msgtyp : Int) (list : List Nat) : Option Nat :=
  list.find? fun h => Wanted type msgtyp list h

section
variable {type : Nat → Int} {msgtyp : Int} {list left right : List Nat} {h : Nat}

theorem exists_wanted (member : h ∈ list) (allowed : Matches type msgtyp h) :
    ∃ least ∈ list, Wanted type msgtyp list least := by
  by_cases negative : msgtyp < 0
  · have allowed : h ∈ list.filter fun h => Matches type msgtyp h :=
      List.mem_filter.mpr ⟨member, decide_eq_true allowed⟩
    cases minimal : (list.filter fun h => Matches type msgtyp h).argmin type with
    | none =>
      rw [List.argmin_eq_none.mp minimal] at allowed
      cases allowed
    | some least =>
      obtain ⟨here, matched⟩ := List.mem_filter.mp (List.argmin_mem minimal)
      refine ⟨least, here, of_decide_eq_true matched, fun _ other there matched => ?_⟩
      exact List.le_of_mem_argmin (List.mem_filter.mpr ⟨there, decide_eq_true matched⟩) minimal
  · exact ⟨h, member, allowed, fun less => absurd less negative⟩

theorem select_eq_none_iff : select type msgtyp list = none ↔ ∀ h ∈ list, ¬ Matches type msgtyp h := by
  rw [select, List.find?_eq_none]
  constructor
  · intro none h member allowed
    obtain ⟨least, inside, wanted⟩ := exists_wanted member allowed
    exact none least inside (decide_eq_true wanted)
  · intro none h member wanted
    exact none h member (of_decide_eq_true wanted).1

theorem select_congr {type' : Nat → Int} (same : ∀ h ∈ list, type' h = type h) :
    select type' msgtyp list = select type msgtyp list := by
  have allowed {h : Nat} (member : h ∈ list) : Matches type' msgtyp h ↔ Matches type msgtyp h := by
    simp only [Matches, same h member]
  refine List.find?_congr fun h member => decide_eq_decide.mpr ?_
  unfold Wanted
  rw [allowed member]
  refine and_congr_right fun _ => forall_congr' fun _ => forall₂_congr fun other there => ?_
  rw [allowed there, same h member, same other there]

theorem select_eq_some (wanted : Wanted type msgtyp (left ++ h :: right) h)
    (first : ∀ other ∈ left, ¬ Wanted type msgtyp (left ++ h :: right) other) :
    select type msgtyp (left ++ h :: right) = some h := by
  refine List.find?_eq_some_iff_append.mpr ⟨decide_eq_true wanted, left, right, rfl, fun other member => ?_⟩
  simpa using first other member

theorem select_first (selected : select type msgtyp (left ++ h :: right) = some h) (nodup : (left ++ h :: right).Nodup) :
    ∀ other ∈ left, type other ≠ type h := by
  obtain ⟨wanted, left', right', shape, before⟩ := List.find?_eq_some_iff_append.mp selected
  have wanted := of_decide_eq_true wanted
  have unwanted : ∀ other ∈ left', ¬ Wanted type msgtyp (left ++ h :: right) other := fun other member => by
    simpa using before other member
  have away := (List.nodup_middle.mp nodup).notMem
  obtain ⟨rfl, _, _⟩ := (List.append_cons_inj_of_notMem (fun member => away (List.mem_append_left _ member))
    fun member => away (List.mem_append_right _ member)).mp shape
  intro other member alike
  refine unwanted other member ⟨?_, fun negative => by simpa only [alike] using wanted.2 negative⟩
  simpa only [Matches, alike] using wanted.1

end

/-! ## The loop -/

/-- The best message so far of the search by least type: the first of the least type of
those passed, if that is at most `bound`. -/
def Leads (type : Nat → Int) (bound : Int) (done : List Nat) : Option Nat → Prop
  | none => ∀ h ∈ done, bound < type h
  | some smp => type smp ≤ bound ∧ (∀ h ∈ done, type smp ≤ type h) ∧
      ∃ left right, done = left ++ smp :: right ∧ ∀ h ∈ left, type smp < type h

section
variable {type : Nat → Int} {bound msgtyp : Int} {done list : List Nat} {mp : Nat} {best : Option Nat}

theorem Leads.next (leads : Leads type bound done best) :
    Leads type bound (done ++ [mp]) (if type mp ≤ bound ∧ ∀ smp ∈ best, type mp < type smp then some mp else best) := by
  cases best with
  | none =>
    have leads : ∀ h ∈ done, bound < type h := leads
    split
    · next better =>
      refine ⟨better.1, ?_, done, [], rfl, fun h member => by have := leads h member; omega⟩
      intro h member
      rcases List.mem_append.mp member with member | last
      · have := leads h member
        omega
      · rw [List.mem_singleton.mp last]
    · next worse =>
      intro h member
      rcases List.mem_append.mp member with member | last
      · exact leads h member
      · obtain rfl := List.mem_singleton.mp last
        simpa using worse
  | some smp =>
    obtain ⟨low, least, left, right, shape, first⟩ := leads
    split
    · next better =>
      have smaller : type mp < type smp := better.2 smp rfl
      refine ⟨better.1, ?_, done, [], rfl, fun h member => by have := least h member; omega⟩
      intro h member
      rcases List.mem_append.mp member with member | last
      · have := least h member
        omega
      · rw [List.mem_singleton.mp last]
    · next worse =>
      refine ⟨low, ?_, left, right ++ [mp], by simp [shape], first⟩
      intro h member
      rcases List.mem_append.mp member with member | last
      · exact least h member
      · obtain rfl := List.mem_singleton.mp last
        by_contra less
        exact worse ⟨by omega, fun other same => by cases same; omega⟩

theorem Leads.select {smp : Nat} (leads : Leads type bound list (some smp)) (negative : msgtyp < 0)
    (bounded : bound ≤ -msgtyp) : select type msgtyp list = some smp := by
  obtain ⟨low, least, left, right, rfl, first⟩ := leads
  refine select_eq_some ⟨.inr (.inr ⟨negative, by omega⟩), fun _ other member _ => least other member⟩ ?_
  intro other member wanted
  have before := first other member
  have after := wanted.2 negative smp (by simp) (.inr (.inr ⟨negative, by omega⟩))
  omega

theorem Leads.select_none (leads : Leads type bound list none) (negative : msgtyp < 0)
    (bounded : bound = -msgtyp) : Message.select type msgtyp list = none := by
  rw [select_eq_none_iff]
  rintro h member (zero | ⟨positive, _⟩ | ⟨_, low⟩)
  · omega
  · omega
  · have above := leads h member
    omega

end

section
variable {info : Msginfo} {k : Kernel} {l : Ledger} {q fuel : Nat} {msgtyp : Int} {done rest : List Nat}
  {head pmp : Option Nat} {best found : Option (Nat × Option Nat)}

theorem search_type (chain : Chain k.next head rest) (positive : 0 < msgtyp) (before : ∀ h ∈ done, k.type h ≠ msgtyp)
    (searched : search k msgtyp fuel pmp head none = some found) :
    found.map fst = select k.type msgtyp (done ++ rest) := by
  induction rest generalizing fuel done head pmp with
  | nil =>
    obtain rfl := chain.head_eq
    cases fuel with
    | zero => cases searched
    | succ fuel =>
      cases searched
      refine (select_eq_none_iff.mpr ?_).symm
      intro h member
      have other := before h (by simpa using member)
      rintro (zero | ⟨_, same⟩ | ⟨negative, _⟩)
      · omega
      · exact other same
      · omega
  | cons mp rest ih =>
    obtain rfl : head = some mp := chain.head_eq
    cases fuel with
    | zero => cases searched
    | succ fuel =>
      simp only [search, if_pos positive] at searched
      split at searched
      · next here =>
        cases searched
        refine (select_eq_some ⟨.inr (.inl ⟨positive, here.symm⟩), fun negative => by omega⟩ ?_).symm
        rintro other member ⟨zero | ⟨_, same⟩ | ⟨negative, _⟩, _⟩
        · omega
        · exact before other member same
        · omega
      · next other =>
        have more := (@ih fuel (done ++ [mp])) chain.tail
          (by simpa [or_imp, forall_and] using ⟨before, Ne.symm other⟩) searched
        simpa using more

theorem search_least (chain : Chain k.next head rest) (negative : msgtyp < 0)
    (leads : Leads k.type (toInt (-msgtyp)) done (best.map fst))
    (searched : search k msgtyp fuel pmp head best = some found) :
    Leads k.type (toInt (-msgtyp)) (done ++ rest) (found.map fst) := by
  induction rest generalizing fuel done head pmp best with
  | nil =>
    obtain rfl := chain.head_eq
    cases fuel with
    | zero => cases searched
    | succ fuel =>
      cases searched
      simpa using leads
  | cons mp rest ih =>
    obtain rfl : head = some mp := chain.head_eq
    have step : Leads k.type (toInt (-msgtyp)) (done ++ [mp]) _ := leads.next
    have nonpositive : ¬ 0 < msgtyp := by omega
    cases fuel with
    | zero => cases searched
    | succ fuel =>
      simp only [search, if_neg nonpositive] at searched
      split at searched
      · next low =>
        cases best with
        | none =>
          rw [if_pos ⟨low, by simp⟩] at step
          have leads : Leads k.type (toInt (-msgtyp)) (done ++ [mp]) ((some (mp, pmp)).map fst) := step
          simpa using (@ih fuel (done ++ [mp]) _ _ (some (mp, pmp))) chain.tail leads searched
        | some held =>
          obtain ⟨smp, spmp⟩ := held
          simp only [decide_eq_true_eq] at searched
          split at searched
          · next smaller =>
            rw [if_pos ⟨low, by simpa using smaller⟩] at step
            have leads : Leads k.type (toInt (-msgtyp)) (done ++ [mp]) ((some (mp, pmp)).map fst) := step
            simpa using (@ih fuel (done ++ [mp]) _ _ (some (mp, pmp))) chain.tail leads searched
          · next larger =>
            rw [if_neg fun better => larger (by simpa using better.2)] at step
            simpa using (@ih fuel (done ++ [mp])) chain.tail step searched
      · next high =>
        rw [if_neg fun better => high better.1] at step
        simpa using (@ih fuel (done ++ [mp])) chain.tail step searched

theorem toInt_neg (fits : -2147483648 ≤ msgtyp) (negative : msgtyp < 0) :
    toInt (-msgtyp) ≤ -msgtyp ∧ (msgtyp ≠ -2147483648 → toInt (-msgtyp) = -msgtyp) := by
  unfold toInt
  simp only [Int.bmod_def, Nat.cast_ofNat]
  split
  · omega
  · omega

/-- What the search finds is what is wanted, and it finds it, except for the least `msgtyp`. -/
theorem choose_select (sound : Sound info k l) (fits : -2147483648 ≤ msgtyp) (chose : choose info k q msgtyp = some found) :
    (∀ smp spmp, found = some (smp, spmp) → select k.type msgtyp (l.queue q) = some smp) ∧
    (found = none → msgtyp ≠ -2147483648 → ∀ h ∈ l.queue q, ¬ Matches k.type msgtyp h) := by
  have chain := (sound.queues q).chain
  unfold choose at chose
  split at chose
  · next zero =>
    subst zero
    cases chose
    rw [chain.head_eq]
    cases l.queue q with
    | nil => simp
    | cons mp rest =>
      refine ⟨?_, by simp⟩
      rintro smp spmp ⟨⟩
      exact (@select_eq_some _ _ []) ⟨.inl rfl, by simp⟩ (by simp)
  · next nonzero =>
    by_cases positive : 0 < msgtyp
    · have first : found.map fst = select k.type msgtyp ([] ++ l.queue q) :=
        search_type chain positive (by simp) chose
      rw [List.nil_append] at first
      constructor
      · rintro smp spmp rfl
        exact first.symm
      · rintro rfl _
        exact select_eq_none_iff.mp first.symm
    · have negative : msgtyp < 0 := by omega
      obtain ⟨bounded, equal⟩ := toInt_neg fits negative
      have start : Leads k.type (toInt (-msgtyp)) [] ((none : Option (Nat × Option Nat)).map fst) := by
        simp [Leads]
      have leads := search_least chain negative start chose
      rw [List.nil_append] at leads
      constructor
      · rintro smp spmp rfl
        exact leads.select negative bounded
      · rintro rfl regular
        exact select_eq_none_iff.mp (leads.select_none negative (equal regular))

end

end Svr4.Message
