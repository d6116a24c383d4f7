import Mathlib.Data.List.Perm.Subperm
import Mathlib.Order.Nat
import Svr4.Foundation.Circle
import Svr4.Kernel.AddressSpace

/-! The list of segments stays sorted and linked when a segment is added or freed. -/

namespace Svr4.As

open List (mem_append mem_of_head? mem_cons)

/-- A range that a segment can have. -/
structure Valid (base size : Nat) : Prop where
  aligned : base % pagesize = 0 ∧ size % pagesize = 0
  nonempty : 0 < size
  below : base + size ≤ uvend
  usr : validUsrRange base size = true

def next (s : Space) (p : Nat) : Nat := (s.seg p).next

def prev (s : Space) (p : Nat) : Nat := (s.seg p).prev

/-- The list of the segments of an address space. -/
structure Listed (s : Space) (list : List Nat) : Prop where
  circle : Circle (next s) (prev s) list
  segs : s.segs = list.head?
  seglast : ∀ p, s.seglast = some p → p ∈ list
  sorted : list.Pairwise fun p q => (s.seg p).base + (s.seg p).size ≤ (s.seg q).base
  valid : ∀ p ∈ list, Valid (s.seg p).base (s.seg p).size
  fresh : ∀ p ∈ list, p < s.nextSeg

/-- Segments have the same ranges. -/
def Alike (s t : Space) (list : List Nat) : Prop := ∀ p ∈ list, (t.seg p).base = (s.seg p).base ∧ (t.seg p).size = (s.seg p).size

section
variable {s t : Space} {list left right : List Nat} {p q new first : Nat} {base size : Nat}

theorem word_eq {n : Nat} (small : n < 4294967296) : word n = n := Nat.mod_eq_of_lt small

theorem Listed.end_eq (listed : Listed s list) (there : p ∈ list) : s.end p = (s.seg p).base + (s.seg p).size := by
  have below := (listed.valid p there).below
  rw [Space.end, word_eq]
  unfold uvend at below
  omega

theorem length_le (listed : Listed s list) : list.length ≤ s.nextSeg := by
  have sub : list ⊆ List.range s.nextSeg := fun p there => List.mem_range.mpr (listed.fresh p there)
  have few := (List.subperm_of_subset listed.circle.nodup sub).length_le
  rwa [List.length_range] at few

theorem Listed.next_eq (listed : Listed s (left ++ p :: right)) : some (next s p) = (right ++ left ++ [p]).head? :=
  listed.circle.rotate.second

theorem Listed.alike (listed : Listed s list) (same : Alike s t list) (nexts : ∀ p ∈ list, next t p = next s p)
    (prevs : ∀ p ∈ list, prev t p = prev s p) (segs : t.segs = s.segs) (seglast : ∀ p, t.seglast = some p → p ∈ list)
    (fresh : s.nextSeg ≤ t.nextSeg) : Listed t list := by
  refine ⟨?_, segs.trans listed.segs, seglast, ?_, ?_, fun p there => (listed.fresh p there).trans_le fresh⟩
  · refine ⟨listed.circle.nodup, listed.circle.links.imp_of_mem_imp ?_⟩
    intro a b one two linked
    have inside {c : Nat} (member : c ∈ list ++ list.head?.toList) : c ∈ list := by
      rcases mem_append.mp member with member | member
      · exact member
      · exact mem_of_head? (Option.mem_toList.mp member)
    exact ⟨(nexts a (inside one)).trans linked.1, (prevs b (inside two)).trans linked.2⟩
  · refine listed.sorted.imp_of_mem fun one two ordered => ?_
    rw [(same _ one).1, (same _ one).2, (same _ two).1]
    exact ordered
  · intro p there
    rw [(same p there).1, (same p there).2]
    exact listed.valid p there

/-! ## Where a segment goes -/

/-- One turn of the loop: a segment in the way, the place, or the next segment. -/
theorem addsegTurn {eaddr : Nat} (first fuel : Nat) (listed : Listed s (left ++ p :: right)) (positive : base < eaddr)
    (above : ∀ q ∈ left, (s.seg q).base + (s.seg q).size ≤ base) :
    (addsegFrom s first base eaddr (fuel + 1) p = some none ∧
      ∃ q ∈ left ++ p :: right, (s.seg q).base < eaddr ∧ base < (s.seg q).base + (s.seg q).size) ∨
    (∃ q front back, addsegFrom s first base eaddr (fuel + 1) p = some (some q) ∧ left ++ p :: right = front ++ back ∧
      (back ++ front).head? = some q ∧ (∀ q ∈ front, (s.seg q).base + (s.seg q).size ≤ base) ∧
      ∀ q ∈ back, eaddr ≤ (s.seg q).base) ∨
    addsegFrom s first base eaddr (fuel + 1) p =
        (if next s p = first then some (some first) else addsegFrom s first base eaddr fuel (next s p)) ∧
      ∀ q ∈ left ++ [p], (s.seg q).base + (s.seg q).size ≤ base := by
  have here : p ∈ left ++ p :: right := by simp
  have ends := listed.end_eq here
  have some' := (listed.valid p here).nonempty
  rw [addsegFrom]
  by_cases low : base < (s.seg p).base
  · rw [if_pos low]
    by_cases overlap : (s.seg p).base < eaddr
    · left
      rw [if_pos overlap]
      exact ⟨rfl, p, here, overlap, by omega⟩
    · right
      left
      rw [if_neg overlap]
      refine ⟨p, left, p :: right, rfl, rfl, rfl, above, fun q there => ?_⟩
      rcases mem_cons.mp there with rfl | later
      · omega
      · have ordered := (List.pairwise_cons.mp (List.pairwise_append.mp listed.sorted).2.1).1 q later
        omega
  · rw [if_neg low]
    by_cases inside : base < s.end p
    · left
      rw [if_pos inside]
      exact ⟨rfl, p, here, by omega, by omega⟩
    · right
      right
      rw [if_neg inside]
      refine ⟨rfl, fun q there => ?_⟩
      rcases mem_append.mp there with before | there
      · exact above q before
      · cases List.mem_singleton.mp there
        omega

theorem addsegFrom_eq {eaddr fuel : Nat} (listed : Listed s (left ++ p :: right)) (head : (left ++ p :: right).head? = some first)
    (positive : base < eaddr) (above : ∀ q ∈ left, (s.seg q).base + (s.seg q).size ≤ base) (enough : right.length < fuel) :
    (addsegFrom s first base eaddr fuel p = some none ∧
      ∃ q ∈ left ++ p :: right, (s.seg q).base < eaddr ∧ base < (s.seg q).base + (s.seg q).size) ∨
    ∃ q front back, addsegFrom s first base eaddr fuel p = some (some q) ∧ left ++ p :: right = front ++ back ∧
      (back ++ front).head? = some q ∧ (∀ q ∈ front, (s.seg q).base + (s.seg q).size ≤ base) ∧
      ∀ q ∈ back, eaddr ≤ (s.seg q).base := by
  induction right generalizing left p fuel with
  | nil =>
    obtain ⟨fuel, rfl⟩ := Nat.exists_eq_succ_of_ne_zero (Nat.ne_zero_of_lt enough)
    rcases addsegTurn first fuel listed positive above with stop | found | ⟨result, behind⟩
    · exact .inl stop
    · exact .inr found
    · right
      have back : next s p = first := Option.some.inj (listed.next_eq.trans head)
      refine ⟨first, left ++ [p], [], result.trans (if_pos back), (List.append_nil _).symm, head, behind, fun q there => by cases there⟩
  | cons r right ih =>
    obtain ⟨fuel, rfl⟩ := Nat.exists_eq_succ_of_ne_zero (Nat.ne_zero_of_lt enough)
    rcases addsegTurn first fuel listed positive above with stop | found | ⟨result, behind⟩
    · exact .inl stop
    · exact .inr found
    · have after : next s p = r := listed.circle.next_eq
      have differ : next s p ≠ first := listed.circle.next_ne_head head
      have same : left ++ p :: r :: right = left ++ [p] ++ r :: right := by simp
      rw [result.trans (if_neg differ), after]
      rw [same] at listed head ⊢
      exact ih listed head behind (Nat.lt_of_succ_lt_succ enough)

/-! ## Links -/

theorem set_seg (change : Seg → Seg) (b : Nat) : (s.set p change).seg b = if b = p then change (s.seg p) else s.seg b :=
  Function.update_apply s.seg p (change (s.seg p)) b

theorem set_own (s : Space) (p : Nat) (change : Seg → Seg) : (s.set p change).seg p = change (s.seg p) :=
  (set_seg change p).trans (if_pos rfl)

theorem linkBefore_next (differ : new ≠ p) (b : Nat) : next (linkBefore s p new) b =
    if b = prev s p then new else if b = new then p else next s b := by
  unfold next prev linkBefore
  simp only [set_seg, if_neg differ, if_true]
  grind

theorem linkBefore_prev (differ : new ≠ p) (apart : new ≠ prev s p) (b : Nat) : prev (linkBefore s p new) b =
    if b = p then new else if b = new then prev s p else prev s b := by
  unfold prev at *
  unfold linkBefore
  simp only [set_seg, if_neg differ, if_true]
  grind

theorem linkBefore_alike (differ : new ≠ p) : ∀ b, ((linkBefore s p new).seg b).base = (s.seg b).base ∧
    ((linkBefore s p new).seg b).size = (s.seg b).size := by
  intro b
  unfold linkBefore
  simp only [set_seg]
  grind

theorem linkBefore_circle (circle : Circle (next s) (prev s) (left ++ right)) (place : (right ++ left).head? = some p)
    (fresh : new ∉ left ++ right) : Circle (next (linkBefore s p new)) (prev (linkBefore s p new)) (left ++ new :: right) := by
  have turned := circle.rotate
  obtain ⟨rest, whole⟩ := List.head?_eq_some_iff.mp place
  have absent : new ∉ p :: rest := by
    rw [← whole]
    exact fun there => fresh (mem_append.mpr (mem_append.mp there).symm)
  rw [whole] at turned
  obtain ⟨last, atEnd⟩ := Option.ne_none_iff_exists'.mp (show (p :: rest).getLast? ≠ none by simp)
  have behind : prev s p = last := (turned.closed atEnd).2
  have differ : new ≠ p := fun same => absent (same ▸ (.head _))
  have apart : new ≠ prev s p := fun same => absent (same ▸ behind ▸ List.mem_of_getLast? atEnd)
  have linked : Circle (next (linkBefore s p new)) (prev (linkBefore s p new)) (p :: rest ++ [new]) := by
    apply turned.insert absent
    · rw [linkBefore_next differ, if_neg apart, if_pos rfl]
    · rw [linkBefore_prev differ apart, if_neg differ, if_pos rfl]
    · rw [linkBefore_next differ, if_pos rfl]
    · rw [linkBefore_prev differ apart, if_pos rfl]
    · intro b other distinct
      rw [linkBefore_next differ, if_neg distinct, if_neg other]
    · intro b other distinct
      rw [linkBefore_prev differ apart, if_neg distinct, if_neg other]
  rw [← whole, List.append_assoc] at linked
  have turned := linked.rotate
  rwa [List.append_assoc, List.singleton_append] at turned

theorem asAddseg_eq (listed : Listed s list) (fresh : new ∉ list) (known : new < s.nextSeg)
    (valid : Valid (s.seg new).base (s.seg new).size) :
    (asAddseg s new = some (false, s) ∧ ∃ q ∈ list,
      (s.seg q).base < (s.seg new).base + (s.seg new).size ∧ (s.seg new).base < (s.seg q).base + (s.seg q).size) ∨
    ∃ t left right, asAddseg s new = some (true, t) ∧ list = left ++ right ∧ Listed t (left ++ new :: right) ∧
      (∀ b, (t.seg b).base = (s.seg b).base ∧ (t.seg b).size = (s.seg b).size) ∧ t.size = s.size ∧ t.seglast = s.seglast ∧
      t.paglck = s.paglck ∧ t.nextSeg = s.nextSeg := by
  have below := valid.below
  have positive := valid.nonempty
  have total : word ((s.seg new).base + (s.seg new).size) = (s.seg new).base + (s.seg new).size := by
    apply word_eq
    unfold uvend at below
    omega
  cases list with
  | nil =>
    right
    have empty : s.segs = none := listed.segs
    have alone (b : Nat) := set_seg (s := s) (p := new) (fun seg => { seg with next := new, prev := new }) b
    refine ⟨{ s.set new fun seg => { seg with next := new, prev := new } with segs := some new }, [], [],
      by rw [asAddseg, empty], rfl, ⟨.single ?_ ?_, rfl, ?_, List.pairwise_singleton _ _, ?_, ?_⟩, ?_, rfl, rfl, rfl, rfl⟩
    · exact congrArg Seg.next ((alone new).trans (if_pos rfl))
    · exact congrArg Seg.prev ((alone new).trans (if_pos rfl))
    · intro q hint
      cases listed.seglast q hint
    · intro q there
      cases List.mem_singleton.mp there
      rw [show (s.set new _).seg new = _ from (alone new).trans (if_pos rfl)]
      exact valid
    · intro q there
      cases List.mem_singleton.mp there
      exact known
    · intro b
      rw [show (s.set new _).seg b = _ from alone b]
      split
      · rename_i same
        rw [same]
        exact ⟨rfl, rfl⟩
      · exact ⟨rfl, rfl⟩
  | cons first list =>
    have some' : s.segs = some first := listed.segs
    have enough := length_le listed
    have whole : Listed s ([] ++ first :: list) := listed
    rcases addsegFrom_eq whole rfl (Nat.lt_add_of_pos_right positive) (fun q there => by cases there)
      (Nat.lt_of_succ_le enough) with ⟨result, way⟩ | ⟨p, front, back, result, whole, place, before, after⟩
    · left
      refine ⟨?_, way⟩
      rw [asAddseg, some']
      dsimp only
      rw [total, result]
      rfl
    · right
      change first :: list = front ++ back at whole
      have differ : new ≠ p := by
        rintro rfl
        apply fresh
        rw [whole]
        exact mem_append.mpr (mem_append.mp (mem_of_head? place)).symm
      have alike := linkBefore_alike (s := s) differ
      have circle := linkBefore_circle (whole ▸ listed.circle) place (whole ▸ fresh)
      refine ⟨{ linkBefore s p new with segs := (front ++ new :: back).head? }, front, back, ?_, whole, ⟨circle, rfl, ?_, ?_, ?_, ?_⟩,
        alike, rfl, rfl, rfl, rfl⟩
      · rw [asAddseg, some']
        dsimp only
        rw [total, result, Option.map_some]
        dsimp only
        rw [(alike first).1]
        cases front with
        | nil =>
          cases whole
          have beyond := after first (.head _)
          rw [if_pos (by omega)]
          rfl
        | cons x front =>
          cases whole
          have beyond := before first (.head _)
          rw [if_neg (by omega)]
          rw [List.cons_append, List.head?_cons, ← some']
          rfl
      · intro q hint
        have there := listed.seglast q hint
        rw [whole] at there
        exact mem_append.mpr ((mem_append.mp there).imp_right (List.mem_cons_of_mem _))
      · have sorted := listed.sorted
        rw [whole] at sorted
        have ⟨one, two, across⟩ := List.pairwise_append.mp sorted
        have kept {q r : Nat} (ordered : (s.seg q).base + (s.seg q).size ≤ (s.seg r).base) :
            ((linkBefore s p new).seg q).base + ((linkBefore s p new).seg q).size ≤ ((linkBefore s p new).seg r).base := by
          rw [(alike q).1, (alike q).2, (alike r).1]
          exact ordered
        refine List.pairwise_append.mpr ⟨one.imp kept, List.pairwise_cons.mpr ⟨fun q there => kept (after q there), two.imp kept⟩, ?_⟩
        intro q there r also
        rcases mem_cons.mp also with rfl | also
        · exact kept (before q there)
        · exact kept (across q there r also)
      · intro q there
        rw [(alike q).1, (alike q).2]
        rcases mem_append.mp there with there | there
        · exact listed.valid q (whole ▸ List.mem_append_left _ there)
        · rcases mem_cons.mp there with rfl | there
          · exact valid
          · exact listed.valid q (whole ▸ List.mem_append_right _ there)
      · intro q there
        rcases mem_append.mp there with there | there
        · exact listed.fresh q (whole ▸ List.mem_append_left _ there)
        · rcases mem_cons.mp there with rfl | there
          · exact known
          · exact listed.fresh q (whole ▸ List.mem_append_right _ there)

/-- The fields of an address space that are not about its list. -/
structure Beside (s t : Space) : Prop where
  size : t.size = s.size
  seglast : t.seglast = s.seglast
  paglck : t.paglck = s.paglck

theorem pageSize_eq (aligned : base % pagesize = 0 ∧ size % pagesize = 0) (below : base + size ≤ uvend) :
    pageBase base = base ∧ pageEnd base size = base + size ∧ pageSize base size = size := by
  unfold pageSize pageEnd pageBase word pagesize uvend at *
  omega

theorem validVaRange_eq (valid : Valid base size) : validVaRange base size size = true := by
  have below := valid.below
  have total : word (base + size) = base + size := by
    apply word_eq
    unfold uvend at below
    omega
  rw [validVaRange, total, if_neg (by omega), if_neg (by omega)]

theorem Listed.made (listed : Listed s list) (base size : Nat) :
    Listed { s.set s.nextSeg fun new => { new with base := base, size := size } with nextSeg := s.nextSeg + 1 } list := by
  have same (p : Nat) (there : p ∈ list) : (s.set s.nextSeg fun new => { new with base := base, size := size }).seg p = s.seg p :=
    (set_seg _ p).trans (if_neg (listed.fresh p there).ne)
  refine listed.alike (fun p there => ⟨congrArg Seg.base (same p there), congrArg Seg.size (same p there)⟩)
    (fun p there => congrArg Seg.next (same p there)) (fun p there => congrArg Seg.prev (same p there)) rfl listed.seglast ?_
  exact Nat.le_succ _

theorem segAlloc_eq (listed : Listed s list) (valid : Valid (pageBase base) (pageSize base size)) :
    (∃ t, segAlloc s base size = some (none, t) ∧ Listed t list ∧ Alike s t list ∧ Beside s t ∧ ∃ q ∈ list,
      (s.seg q).base < pageBase base + pageSize base size ∧ pageBase base < (s.seg q).base + (s.seg q).size) ∨
    ∃ t left right, segAlloc s base size = some (some s.nextSeg, t) ∧ list = left ++ right ∧
      Listed t (left ++ s.nextSeg :: right) ∧ Alike s t list ∧ Beside s t ∧
      (t.seg s.nextSeg).base = pageBase base ∧ (t.seg s.nextSeg).size = pageSize base size := by
  rw [segAlloc]
  generalize pageBase base = segbase at *
  generalize pageSize base size = segsize at *
  have made := listed.made segbase segsize
  have absent : s.nextSeg ∉ list := fun there => lt_irrefl _ (listed.fresh _ there)
  have same (p : Nat) (there : p ∈ list) : (s.set s.nextSeg fun new => { new with base := segbase, size := segsize }).seg p = s.seg p :=
    (set_seg _ p).trans (if_neg (listed.fresh p there).ne)
  have own : (s.set s.nextSeg fun new => { new with base := segbase, size := segsize }).seg s.nextSeg =
      { s.seg s.nextSeg with base := segbase, size := segsize } := (set_seg _ _).trans (if_pos rfl)
  have range : Valid ((s.set s.nextSeg fun new => { new with base := segbase, size := segsize }).seg s.nextSeg).base
      ((s.set s.nextSeg fun new => { new with base := segbase, size := segsize }).seg s.nextSeg).size := by
    rw [own]
    exact valid
  rw [if_neg (not_not.mpr (validVaRange_eq valid)), if_neg (not_not.mpr valid.usr), segAttach]
  rcases asAddseg_eq made absent (Nat.lt_succ_self _) range with ⟨result, q, there, way⟩ |
    ⟨t, left, right, result, whole, after, alike, size, seglast, paglck, -⟩
  · left
    rw [same q there, own] at way
    refine ⟨_, by rw [result]; rfl, made, fun p there => ?_, ⟨rfl, rfl, rfl⟩, q, there, way⟩
    rw [same p there]
    exact ⟨rfl, rfl⟩
  · right
    refine ⟨t, left, right, by rw [result]; rfl, whole, after, fun p there => ?_, ⟨size, seglast, paglck⟩, ?_, ?_⟩
    · have kept := alike p
      rwa [same p there] at kept
    · exact (alike _).1.trans (congrArg Seg.base own)
    · exact (alike _).2.trans (congrArg Seg.size own)

/-! ## `seg_free` -/

/-- The neighbours of a segment are linked with each other. -/
def unlink (s : Space) (p : Nat) : Space :=
  (s.set (prev s p) fun before => { before with next := next s p }).set (next s p) fun after => { after with prev := prev s p }

theorem unlink_next (b : Nat) : next (unlink s p) b = if b = prev s p then next s p else next s b := by
  unfold next unlink
  simp only [set_seg, next]
  grind

theorem unlink_prev (b : Nat) : prev (unlink s p) b = if b = next s p then prev s p else prev s b := by
  unfold prev unlink
  simp only [set_seg, prev]
  grind

theorem unlink_alike (b : Nat) : ((unlink s p).seg b).base = (s.seg b).base ∧ ((unlink s p).seg b).size = (s.seg b).size := by
  unfold unlink
  simp only [set_seg]
  grind

theorem segFree_single (segs : s.segs = some p) (self : next s p = p) :
    segFree s p = { s with segs := none, seglast := if s.seglast = some p then none else s.seglast } := by
  have first : some (s.seg p).next = some p := congrArg some self
  simp only [segFree, segs, if_true, first]
  split <;> rfl

theorem segFree_many {first : Option Nat} (segs : (if s.segs = some p then some (next s p) else s.segs) = first)
    (other : first ≠ some p) :
    segFree s p = { unlink s p with segs := first, seglast := if s.seglast = some p then first else s.seglast } := by
  have own : ((s.set (prev s p) fun before => { before with next := next s p }).seg p).next = next s p ∧
      ((s.set (prev s p) fun before => { before with next := next s p }).seg p).prev = prev s p := by
    simp only [set_seg, next, prev]
    grind
  have base : (if s.segs = some p then { s with segs := some (s.seg p).next } else s) = { s with segs := first } := by
    rw [← segs]
    split <;> rfl
  unfold segFree
  simp only [base, if_neg other]
  change (if s.seglast = some p then _ else _) = _
  have pointers : (({ s with segs := first } : Space).set (prev s p) fun before => { before with next := next s p }).set
      ((s.set (prev s p) fun before => { before with next := next s p }).seg p).next
      (fun after => { after with prev := ((s.set (prev s p) fun before => { before with next := next s p }).seg p).prev }) =
      { unlink s p with segs := first } := by
    rw [own.1, own.2]
    rfl
  split <;> rename_i hint
  · exact congrArg (fun t : Space => { t with seglast := t.segs }) pointers
  · exact pointers

theorem Listed.free (listed : Listed s (left ++ p :: right)) : Listed (segFree s p) (left ++ right) ∧
    (∀ b, ((segFree s p).seg b).base = (s.seg b).base ∧ ((segFree s p).seg b).size = (s.seg b).size) ∧
    (segFree s p).size = s.size ∧ (segFree s p).paglck = s.paglck ∧ (segFree s p).nextSeg = s.nextSeg := by
  have turned := listed.circle.rotate
  have nodup := listed.circle.nodup
  have after := listed.next_eq
  cases rest : right ++ left with
  | nil =>
    obtain ⟨rfl, rfl⟩ := List.append_eq_nil_iff.mp rest
    have self : next s p = p := Option.some.inj after
    rw [segFree_single listed.segs self]
    refine ⟨⟨.nil, rfl, fun q hint => ?_, .nil, fun q there => (by cases there), fun q there => (by cases there)⟩,
      fun _ => ⟨rfl, rfl⟩, rfl, rfl, rfl⟩
    split at hint
    · cases hint
    · rename_i other
      cases List.mem_singleton.mp (listed.seglast q hint)
      exact absurd hint other
  | cons x rest' =>
    have absent : p ∉ left ++ right := by
      rw [List.nodup_middle] at nodup
      exact (List.nodup_cons.mp nodup).1
    have other : (left ++ right).head? ≠ some p := fun same => absent (mem_of_head? same)
    have segs : (if s.segs = some p then some (next s p) else s.segs) = (left ++ right).head? := by
      rw [listed.segs]
      cases left with
      | nil =>
        rw [List.append_nil] at rest
        rw [List.nil_append, List.nil_append, List.head?_cons, if_pos rfl, after, rest]
        rfl
      | cons y left =>
        refine if_neg fun same => absent ?_
        cases same
        exact .head _
    have member {q : Nat} : q ∈ left ++ right → q ∈ left ++ p :: right := fun there =>
      mem_append.mpr ((mem_append.mp there).imp_right (List.mem_cons_of_mem p))
    rw [segFree_many segs other]
    have circle : Circle (next (unlink s p)) (prev (unlink s p)) (right ++ left) := by
      rw [List.cons_append, rest] at turned
      rw [rest]
      apply turned.delete
      · rw [unlink_next, if_pos rfl]
      · rw [unlink_prev, if_pos rfl]
      · exact fun b apart => (unlink_next b).trans (if_neg apart)
      · exact fun b apart => (unlink_prev b).trans (if_neg apart)
    refine ⟨⟨circle.rotate, rfl, fun q hint => ?_, ?_, fun q there => ?_, fun q there => listed.fresh q (member there)⟩,
      unlink_alike, rfl, rfl, rfl⟩
    · dsimp only at hint
      split at hint
      · exact mem_of_head? hint
      · rename_i apart
        rcases mem_append.mp (listed.seglast q hint) with there | there
        · exact List.mem_append_left _ there
        · rcases mem_cons.mp there with rfl | there
          · exact absurd hint apart
          · exact List.mem_append_right _ there
    · have sorted := listed.sorted.sublist (List.Sublist.append_left (List.sublist_cons_self p right) left)
      refine sorted.imp fun {q r} ordered => ?_
      rw [(unlink_alike q).1, (unlink_alike q).2, (unlink_alike r).1]
      exact ordered
    · change Valid ((unlink s p).seg q).base ((unlink s p).seg q).size
      rw [(unlink_alike q).1, (unlink_alike q).2]
      exact listed.valid q (member there)

end

end Svr4.As
