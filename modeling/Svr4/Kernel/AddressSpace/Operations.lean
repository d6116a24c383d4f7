import Svr4.Kernel.AddressSpace.UnmapRuns

/-! What each operation on an address space does to its segments. -/

namespace Svr4.As

open Option (some bind_some)
open List (mem_append mem_cons)

section
variable {s t : Space} {list left right : List Nat} {p q x raddr eaddr addr size : Nat} {ok : Nat → Bool}
  {fuel base first : Nat} {newas : Space} {list : List Nat}

/-! ## `as_unmap` -/

theorem Listed.split (listed : Listed s list) (there : p ∈ list) : ∃ left right, list = left ++ p :: right ∧
    Listed s (left ++ p :: right) := by
  obtain ⟨left, right, rfl⟩ := List.append_of_mem there
  exact ⟨left, right, rfl, listed⟩

theorem Listed.next_mem (listed : Listed s list) (there : p ∈ list) : next s p ∈ list := by
  obtain ⟨left, right, rfl, listed⟩ := listed.split there
  have member := List.mem_of_head? listed.next_eq.symm
  simp only [mem_append, mem_cons, List.not_mem_nil, or_false] at member ⊢
  tauto

/-- No part of a segment ends before it begins: the driver's two halves would overlap. -/
theorem segUnmap_wraps (listed : Listed s (left ++ p :: right)) (aligned : raddr % pagesize = 0 ∧ eaddr % pagesize = 0)
    (begun : (s.seg p).base < eaddr) (wraps : eaddr < raddr) (reached : raddr < (s.seg p).base + (s.seg p).size) :
    segUnmap s p raddr (word (eaddr + 4294967296 - raddr)) = none := by
  have there : p ∈ left ++ p :: right := by simp
  have valid := listed.valid p there
  have below := valid.below
  have pages := valid.aligned
  have stop : word (raddr + word (eaddr + 4294967296 - raddr)) = eaddr := by
    unfold word uvend at *
    omega
  have length : word ((s.seg p).base + (s.seg p).size + 4294967296 - eaddr) = (s.seg p).base + (s.seg p).size - eaddr := by
    unfold word uvend at *
    omega
  rw [segUnmap, listed.end_eq there, stop, length, if_neg (by omega), if_neg (by omega), if_neg (by omega), if_neg (by omega)]
  have own := set_own s p fun old => { old with size := raddr - (s.seg p).base }
  obtain ⟨before, -⟩ := listed.resize (fun old => { old with size := raddr - (s.seg p).base }) ⟨rfl, rfl⟩ le_rfl
    (by dsimp only; omega) (valid.sub le_rfl (by dsimp only; omega) (by unfold pagesize at *; dsimp only; omega) (by dsimp only; omega))
  have lengths : eaddr % pagesize = 0 ∧ ((s.seg p).base + (s.seg p).size - eaddr) % pagesize = 0 := by
    unfold pagesize at *
    omega
  obtain ⟨base, -, rest⟩ := pageSize_eq lengths (by omega)
  have second : Valid (pageBase eaddr) (pageSize eaddr ((s.seg p).base + (s.seg p).size - eaddr)) := by
    rw [base, rest]
    exact valid.sub (by omega) (by omega) (by unfold pagesize at *; omega) (by omega)
  rcases segAlloc_eq before second with ⟨t, result, -⟩ | ⟨t, one, two, result, whole, after, same, -, newBase, newSize⟩
  · rw [result]
    rfl
  · exfalso
    rw [base] at newBase
    rw [rest] at newSize
    have kept := same p there
    rw [own] at kept
    dsimp only at kept
    change Listed t (one ++ s.nextSeg :: two) at after
    change (t.seg s.nextSeg).base = eaddr at newBase
    rcases mem_append.mp (whole ▸ there) with early | late
    · have ordered := after.before early
      omega
    · have ordered := after.behind late
      omega

/-- A range that goes around the end of the addresses leaves the segments as they are, or ends in a panic. -/
theorem unmapFrom_wraps {result : Bool × Space} (listed : Listed s list) (there : p ∈ list)
    (aligned : raddr % pagesize = 0 ∧ eaddr % pagesize = 0) (wraps : eaddr < raddr)
    (answer : unmapFrom ok eaddr fuel s raddr p = some result) : result.2 = s := by
  induction fuel generalizing p with
  | zero => cases answer
  | succ fuel ih =>
    have goes : goOn ok eaddr fuel (s.seg p).base (next s p) s raddr = some result → result.2 = s := by
      unfold goOn
      split
      · exact ih (listed.next_mem there)
      · rintro ⟨⟩
        rfl
    rw [unmapFrom_step, listed.end_eq there] at answer
    split at answer
    · exact goes answer
    rename_i reached
    split at answer
    · cases answer
      rfl
    rename_i begun
    dsimp only at answer
    rw [if_neg (show ¬ raddr < (s.seg p).base by omega), if_neg (show ¬ (s.seg p).base + (s.seg p).size < eaddr by omega)] at answer
    split at answer
    · cases answer
      rfl
    · obtain ⟨left, right, rfl, listed⟩ := listed.split there
      rw [segUnmap_wraps listed aligned (by omega) wraps (by omega)] at answer
      cases answer

theorem pages_aligned (addr size : Nat) : pageBase addr % pagesize = 0 ∧ pageEnd addr size % pagesize = 0 :=
  ⟨Nat.mul_mod_left _ _, Nat.mul_mod_left _ _⟩

/-- A segment list with the right number of bytes. -/
structure Counted (s : Space) (list : List Nat) : Prop where
  listed : Listed s list
  size : s.size = total s list

theorem Counted.asUnmap (counted : Counted s list) {result : Bool} (answer : asUnmap s ok addr size = some (result, t)) :
    ∃ left, Unmapped s list (pageBase addr) (pageEnd addr size) result t left := by
  have listed := counted.listed
  unfold As.asUnmap at answer
  cases list with
  | nil =>
    rw [listed.segs] at answer
    cases answer
    exact ⟨[], listed, counted.size, rfl, fun _ x => ⟨fun absent => absurd absent Covers.nil, And.left⟩⟩
  | cons first rest =>
    rw [listed.segs] at answer
    dsimp only [List.head?_cons] at answer
    rcases Nat.lt_or_ge (pageEnd addr size) (pageBase addr) with wraps | ordered
    · cases (unmapFrom_wraps listed (.head _) (pages_aligned addr size) wraps answer : t = s)
      exact ⟨_, listed, counted.size, rfl, fun _ x => ⟨fun inside => ⟨inside, by omega⟩, And.left⟩⟩
    · have enough : rest.length + 1 < s.nextSeg + 1 := Nat.lt_succ_of_le (length_le listed)
      have whole : Listed s ([] ++ first :: rest) := listed
      obtain ⟨result', t', left, run, unmapped⟩ := unmapFrom_eq ok whole counted.size ordered
        (pages_aligned addr size) (fun x inside => absurd inside Covers.nil) enough
      rw [run] at answer
      cases answer
      exact ⟨left, unmapped⟩

/-- `as_unmap` comes to its end. -/
theorem Counted.asUnmap_ends (counted : Counted s list) (ok : Nat → Bool) (ordered : pageBase addr ≤ pageEnd addr size) :
    ∃ result t, As.asUnmap s ok addr size = some (result, t) := by
  have listed := counted.listed
  unfold As.asUnmap
  cases list with
  | nil =>
    rw [listed.segs]
    exact ⟨true, s, rfl⟩
  | cons first rest =>
    rw [listed.segs]
    have enough : rest.length + 1 < s.nextSeg + 1 := Nat.lt_succ_of_le (length_le listed)
    have whole : Listed s ([] ++ first :: rest) := listed
    obtain ⟨result, t, left, run, -⟩ := unmapFrom_eq ok whole counted.size ordered
      (pages_aligned addr size) (fun x inside => absurd inside Covers.nil) enough
    exact ⟨result, t, run⟩

/-! ## `as_map` -/

/-- A range that passes the tests of `seg_alloc`. -/
theorem valid_of_tests {len : Nat} (aligned : base % pagesize = 0 ∧ len % pagesize = 0) (small : len < 4294967296)
    (usr : validUsrRange base len = true) : Valid base len := by
  have tests := usr
  unfold validUsrRange at tests
  split at tests
  · cases tests
  rename_i range
  unfold word uvend at range
  exact ⟨aligned, by omega, by unfold uvend; omega, usr⟩

theorem Valid.join {base size size' : Nat} (first : Valid base size) (second : Valid (base + size) size') : Valid base (size + size') := by
  have below := second.below
  have pages := first.aligned
  have pages' := second.aligned
  have positive := first.nonempty
  refine ⟨by unfold pagesize at *; omega, by omega, by omega, ?_⟩
  have usr := first.usr
  have usr' := second.usr
  have ends : word (base + size) = base + size ∧ word (base + size + size') = base + size + size' := by
    unfold word uvend at *
    omega
  unfold validUsrRange at usr usr' ⊢
  rw [ends.1] at usr
  rw [ends.2] at usr'
  rw [← Nat.add_assoc, ends.2]
  split at usr
  · cases usr
  split at usr
  · cases usr
  rename_i one
  split at usr'
  · cases usr'
  split at usr'
  · cases usr'
  rename_i two
  rw [if_neg (by omega), if_neg (by omega)]
  exact usr

/-- The new segment of `seg_alloc`, if there is one. -/
theorem segAlloc_cases (listed : Listed s list) (base size : Nat) :
    (∃ t, segAlloc s base size = some (none, t) ∧ Listed t list ∧ Alike s t list ∧ Beside s t) ∨
    ∃ t left right, segAlloc s base size = some (some s.nextSeg, t) ∧ list = left ++ right ∧
      Listed t (left ++ s.nextSeg :: right) ∧ Alike s t list ∧ Beside s t ∧ (t.seg s.nextSeg).size = pageSize base size ∧
      Valid (pageBase base) (pageSize base size) := by
  by_cases tests : validVaRange (pageBase base) (pageSize base size) (pageSize base size) = true ∧
      validUsrRange (pageBase base) (pageSize base size) = true
  · have lengths : pageBase base % pagesize = 0 ∧ pageSize base size % pagesize = 0 := by
      have pages := pages_aligned base size
      unfold pageSize word
      unfold pagesize at *
      omega
    have valid := valid_of_tests lengths (Nat.mod_lt _ (by decide)) tests.2
    rcases segAlloc_eq listed valid with ⟨t, result, after, same, beside, -⟩ |
      ⟨t, left, right, result, whole, after, same, beside, -, size⟩
    · exact .inl ⟨t, result, after, same, beside⟩
    · exact .inr ⟨t, left, right, result, whole, after, same, beside, size, valid⟩
  · left
    refine ⟨s, ?_, listed, fun p _ => ⟨rfl, rfl⟩, rfl, rfl, rfl⟩
    rw [segAlloc]
    split
    · rfl
    rename_i one
    split
    · rfl
    rename_i two
    exact absurd ⟨not_not.mp one, not_not.mp two⟩ tests

theorem Listed.merge {front back : List Nat} (listed : Listed s (left ++ p :: right)) (change : Seg → Seg)
    (whole : left ++ right = front ++ q :: back) (keeps : ∀ old, (change old).next = old.next ∧ (change old).prev = old.prev)
    (fields : (change ((segFree s p).seg q)).base = base ∧ (change ((segFree s p).seg q)).size = (s.seg q).size + (s.seg p).size)
    (low : ∀ r ∈ front, (s.seg r).base + (s.seg r).size ≤ base)
    (high : ∀ r ∈ back, base + ((s.seg q).size + (s.seg p).size) ≤ (s.seg r).base)
    (valid : Valid base ((s.seg q).size + (s.seg p).size)) :
    Listed ((segFree s p).set q change) (front ++ q :: back) ∧
      total ((segFree s p).set q change) (front ++ q :: back) = total s (left ++ p :: right) := by
  obtain ⟨freed, alike, -⟩ := listed.free
  rw [whole] at freed
  obtain ⟨after, same⟩ := freed.reshape change (keeps _) (fun r there => by rw [fields.1, (alike r).1, (alike r).2]; exact low r there)
    (fun r there => by rw [fields.1, fields.2, (alike r).1]; exact high r there) (by rw [fields.1, fields.2]; exact valid)
  refine ⟨after, ?_⟩
  have others : total ((segFree s p).set q change) (front ++ back) = total s (front ++ back) :=
    same.total.trans (Alike.total fun r _ => alike r)
  have before : total s (left ++ right) = total s (front ++ q :: back) := by rw [whole]
  rw [total_append, total_append, total_cons] at before
  rw [total_append, total_append] at others
  rw [total_append, total_cons, total_append, total_cons, set_own, fields.2]
  omega

theorem Listed.prev_first (listed : Listed s (p :: right)) : prev s p = p ∨ prev s p ∈ right := by
  obtain ⟨last, atEnd⟩ := Option.ne_none_iff_exists'.mp (show (p :: right).getLast? ≠ none by simp)
  have behind : prev s p = last := (listed.circle.closed atEnd).2
  rw [behind]
  exact mem_cons.mp (List.mem_of_getLast? atEnd)

section
variable (listed : Listed s (left ++ p :: right))
include listed

theorem Listed.prev_eq (other : prev s p ≠ p) (touch : s.end (prev s p) = (s.seg p).base) :
    ∃ front, left = front ++ [prev s p] := by
  rcases List.eq_nil_or_concat left with rfl | ⟨front, q, rfl⟩
  · exfalso
    have there := (listed.prev_first).resolve_left other
    have behind := listed.behind there
    have positive := (listed.valid p (by simp)).nonempty
    rw [listed.end_eq (by simp [there])] at touch
    omega
  · have circle : Circle (next s) (prev s) (front ++ q :: p :: right) := by
      have circle := listed.circle
      rwa [List.concat_eq_append, List.append_assoc, List.singleton_append] at circle
    exact ⟨front, by rw [circle.prev_eq, List.concat_eq_append]⟩

theorem Listed.next_touch (other : next s p ≠ p) (touch : s.end p = (s.seg (next s p)).base) :
    ∃ back, right = next s p :: back := by
  have after := listed.next_eq
  have positive := (listed.valid p (by simp)).nonempty
  rw [listed.end_eq (by simp)] at touch
  cases right with
  | nil =>
    exfalso
    cases left with
    | nil => exact other (some.inj after)
    | cons q left =>
      have first : next s p = q := some.inj after
      have before := listed.before ((.head _) : q ∈ q :: left)
      rw [first] at touch
      omega
  | cons q back =>
    have first : next s p = q := some.inj after
    exact ⟨back, by rw [first]⟩

/-- The create routine leaves one segment fewer when it makes a neighbour longer, and the same number of bytes. -/
theorem create_eq (created : Created) :
    (∃ error, create s p created = (some error, s)) ∨
    ∃ t list, create s p created = (none, t) ∧ Listed t list ∧ total t list = total s (left ++ p :: right) ∧
      t.size = s.size ∧ t.paglck = s.paglck := by
  have here : p ∈ left ++ p :: right := by simp
  have valid := listed.valid p here
  have stays : ∃ t list, ((none : Option Errno), s) = (none, t) ∧ Listed t list ∧ total t list = total s (left ++ p :: right) ∧
      t.size = s.size ∧ t.paglck = s.paglck := ⟨s, _, rfl, listed, rfl, rfl, rfl⟩
  obtain ⟨freed, alike, size, paglck, -⟩ := listed.free
  cases created with
  | fails error => exact .inl ⟨error, rfl⟩
  | stays => exact .inr stays
  | extendsPrev =>
    right
    unfold create
    dsimp only
    split
    · rename_i touch
      obtain ⟨front, rfl⟩ := listed.prev_eq touch.1 touch.2
      have member : prev s p ∈ front ++ [prev s p] ++ p :: right := by simp
      have begins := touch.2
      change s.end (prev s p) = _ at begins
      rw [listed.end_eq member] at begins
      have below := valid.below
      have grown : Valid (s.seg (prev s p)).base ((s.seg (prev s p)).size + (s.seg p).size) :=
        (listed.valid _ member).join (by rw [begins]; exact valid)
      have word' : word ((s.seg (prev s p)).size + (s.seg p).size) = (s.seg (prev s p)).size + (s.seg p).size := by
        apply word_eq
        unfold uvend at below
        omega
      have low (r : Nat) (there : r ∈ front) : (s.seg r).base + (s.seg r).size ≤ (s.seg (prev s p)).base :=
        (List.pairwise_append.mp (List.pairwise_append.mp listed.sorted).1).2.2 r there _ (List.mem_singleton_self _)
      have high (r : Nat) (there : r ∈ right) : (s.seg (prev s p)).base + ((s.seg (prev s p)).size + (s.seg p).size) ≤ (s.seg r).base := by
        have behind := listed.behind there
        omega
      obtain ⟨after, total⟩ := listed.merge (fun old => { old with size := word (old.size + (s.seg p).size) })
        (by rw [List.append_assoc, List.singleton_append]) (fun _ => ⟨rfl, rfl⟩)
        ⟨(alike _).1, by rw [(alike _).2, word']⟩ low high grown
      exact ⟨_, _, rfl, after, total, size, paglck⟩
    · exact stays
  | extendsNext =>
    right
    unfold create
    dsimp only
    split
    · rename_i touch
      obtain ⟨back, rfl⟩ := listed.next_touch touch.1 touch.2
      have member : next s p ∈ left ++ p :: next s p :: back := by simp
      have begins := touch.2
      change s.end p = (s.seg (next s p)).base at begins
      rw [listed.end_eq here] at begins
      have below := (listed.valid _ member).below
      have grown : Valid (s.seg p).base ((s.seg (next s p)).size + (s.seg p).size) := by
        rw [Nat.add_comm]
        exact valid.join (by rw [begins]; exact listed.valid _ member)
      have word' : word ((s.seg (next s p)).size + (s.seg p).size) = (s.seg (next s p)).size + (s.seg p).size := by
        apply word_eq
        unfold uvend at below
        omega
      have back' : word ((s.seg (next s p)).base + 4294967296 - (s.seg p).size) = (s.seg p).base := by
        unfold word uvend at *
        omega
      have high (r : Nat) (there : r ∈ back) : (s.seg p).base + ((s.seg (next s p)).size + (s.seg p).size) ≤ (s.seg r).base := by
        have behind := (List.pairwise_cons.mp (List.pairwise_cons.mp (List.pairwise_append.mp listed.sorted).2.1).2).1 r there
        omega
      obtain ⟨after, total⟩ := listed.merge (fun old =>
          { old with base := word (old.base + 4294967296 - (s.seg p).size), size := word (old.size + (s.seg p).size) })
        rfl (fun _ => ⟨rfl, rfl⟩) ⟨by rw [(alike _).1, back'], by rw [(alike _).2, word']⟩
        (fun r there => listed.before there) high grown
      exact ⟨_, _, rfl, after, total, size, paglck⟩
    · exact stays

end

theorem Counted.asMap (counted : Counted s list) (limit : Nat) (created : Created) (lock : Option Errno) (ok : Nat → Bool) (addr size : Nat) :
    ∃ error t list', As.asMap s limit created lock ok addr size = some (error, t) ∧ Counted t list' := by
  have listed := counted.listed
  unfold As.asMap
  dsimp only
  split
  · exact ⟨_, s, list, rfl, counted⟩
  rcases segAlloc_cases listed addr size with ⟨t, result, after, same, beside⟩ |
    ⟨t, left, right, result, whole, after, same, beside, new, valid⟩
  · rw [result]
    exact ⟨_, t, list, rfl, after, (beside.size.trans counted.size).trans same.total.symm⟩
  rw [result, bind_some]
  dsimp only
  have hinted : Listed { t with seglast := some s.nextSeg } (left ++ s.nextSeg :: right) :=
    after.hinted fun q is => by
      cases is
      simp
  have bytes : total t (left ++ s.nextSeg :: right) = s.size + pageSize addr size := by
    have others := same.total
    rw [whole, total_append, total_append] at others
    rw [total_append, total_cons, new, counted.size, whole, total_append]
    omega
  have few := total_le after
  rcases create_eq hinted created with ⟨error, made⟩ | ⟨t', list', made, after', total', size', paglck'⟩
  · rw [made]
    obtain ⟨freed, alike, size, -⟩ := hinted.free
    refine ⟨_, _, left ++ right, rfl, freed, ?_⟩
    have others : total (segFree { t with seglast := some s.nextSeg } s.nextSeg) (left ++ right) = total t (left ++ right) :=
      Alike.total fun q _ => alike q
    rw [others, size, ← whole, same.total]
    exact beside.size.trans counted.size
  · rw [made]
    dsimp only
    have sum : word (t'.size + pageSize addr size) = total t' list' := by
      have before : t'.size = s.size := size'.trans beside.size
      have there : total t' list' = total t (left ++ s.nextSeg :: right) := total'
      rw [before, there, ← bytes]
      apply word_eq
      unfold uvend at few
      omega
    rw [sum]
    have grown : Counted { t' with size := total t' list' } list' := ⟨after'.counted _, rfl⟩
    split
    · have ordered : pageBase addr ≤ pageEnd addr size := by
        have below := valid.below
        unfold pageSize word uvend at below
        omega
      obtain ⟨answer, t'', unmapped⟩ := grown.asUnmap_ends ok ordered
      obtain ⟨list'', left⟩ := grown.asUnmap unmapped
      rw [unmapped]
      exact ⟨lock, t'', list'', rfl, left.listed, left.size⟩
    · exact ⟨none, _, list', rfl, grown⟩

/-! ## `as_segat` -/

/-- An address is in a segment. -/
def Within (s : Space) (addr p : Nat) : Prop := (s.seg p).base ≤ addr ∧ addr < (s.seg p).base + (s.seg p).size

theorem segatFrom_eq (circle : Circle (next s) (prev s) (left ++ p :: right))
    (head : (left ++ p :: right).head? = some first)
    (ends : ∀ q ∈ left ++ p :: right, s.end q = (s.seg q).base + (s.seg q).size) (missed : ∀ q ∈ left, ¬ Within s addr q)
    (enough : right.length < fuel) :
    (∃ q ∈ left ++ p :: right, segatFrom s addr first fuel p = some (some q) ∧ Within s addr q) ∨
      segatFrom s addr first fuel p = some none ∧ ∀ q ∈ left ++ p :: right, ¬ Within s addr q := by
  induction right generalizing left p fuel with
  | nil =>
    obtain ⟨fuel, rfl⟩ := Nat.exists_eq_succ_of_ne_zero (Nat.ne_zero_of_lt enough)
    rw [segatFrom, ends p (by simp)]
    by_cases hit : (s.seg p).base ≤ addr ∧ addr < (s.seg p).base + (s.seg p).size
    · exact .inl ⟨p, by simp, if_pos hit, hit⟩
    · have back : (s.seg p).next = first := some.inj (circle.rotate.second.trans head)
      refine .inr ⟨by rw [if_neg hit, if_pos back], fun q there => ?_⟩
      rcases mem_append.mp there with there | there
      · exact missed q there
      · rw [List.mem_singleton.mp there]
        exact hit
  | cons r right ih =>
    obtain ⟨fuel, rfl⟩ := Nat.exists_eq_succ_of_ne_zero (Nat.ne_zero_of_lt enough)
    rw [segatFrom, ends p (by simp)]
    by_cases hit : (s.seg p).base ≤ addr ∧ addr < (s.seg p).base + (s.seg p).size
    · exact .inl ⟨p, by simp, if_pos hit, hit⟩
    · have onward : (s.seg p).next ≠ first := circle.next_ne_head head
      have after : (s.seg p).next = r := circle.next_eq
      rw [if_neg hit, if_neg onward, after]
      have split : left ++ p :: r :: right = left ++ [p] ++ r :: right := by simp
      rw [split] at circle head ends ⊢
      refine ih circle head ends (fun q there => ?_) (Nat.lt_of_succ_lt_succ enough)
      rcases mem_append.mp there with there | there
      · exact missed q there
      · rw [List.mem_singleton.mp there]
        exact hit

theorem Listed.apart (listed : Listed s list) (here : p ∈ list) (there : q ∈ list) (one : Within s addr p) (two : Within s addr q) :
    p = q := by
  unfold Within at one two
  obtain ⟨left, right, rfl, listed⟩ := listed.split here
  rcases mem_append.mp there with there | there
  · have before := listed.before there
    omega
  · rcases mem_cons.mp there with same | there
    · exact same.symm
    · have behind := listed.behind there
      omega

/-- `as_segat` finds the segment of an address. -/
theorem Counted.asSegat (counted : Counted s list) (addr : Nat) : ∃ result t, As.asSegat s addr = some (result, t) ∧ Counted t list ∧
    t.seg = s.seg ∧ ∀ p, result = some p ↔ p ∈ list ∧ Within s addr p := by
  have listed := counted.listed
  have hinted : ∃ hint, (if s.seglast = none then { s with seglast := s.segs } else s) = { s with seglast := hint } ∧
      (∀ p, hint = some p → p ∈ list) ∧ (hint = none → list = []) := by
    by_cases none : s.seglast = none
    · refine ⟨s.segs, if_pos none, fun p is => ?_, fun empty => ?_⟩
      · exact List.mem_of_head? (listed.segs.symm.trans is)
      · exact List.head?_eq_none_iff.mp (listed.segs.symm.trans empty)
    · exact ⟨s.seglast, if_neg none, listed.seglast, fun empty => absurd empty none⟩
  obtain ⟨hint, start, there, empty⟩ := hinted
  unfold As.asSegat
  rw [start]
  cases hint with
  | none =>
    have nothing := empty rfl
    refine ⟨none, _, rfl, ⟨listed.hinted there, counted.size⟩, rfl, fun p => ?_⟩
    rw [nothing]
    simp
  | some p =>
    obtain ⟨left, right, rfl, listed⟩ := listed.split (there p rfl)
    have turned : Circle (next { s with seglast := some p }) (prev { s with seglast := some p }) ([] ++ p :: (right ++ left)) :=
      listed.circle.rotate
    have same (q : Nat) : q ∈ [] ++ p :: (right ++ left) ↔ q ∈ left ++ p :: right := by
      simp only [List.nil_append, mem_cons, mem_append]
      tauto
    have enough : (right ++ left).length < s.nextSeg := by
      have few := length_le listed
      simp only [List.length_append, List.length_cons] at few ⊢
      omega
    dsimp only
    rcases segatFrom_eq turned rfl (fun q member => listed.end_eq ((same q).mp member)) (fun q absent => by cases absent) enough with
      ⟨q, member, result, within⟩ | ⟨result, missed⟩
    · rw [result]
      have member := (same q).mp member
      refine ⟨some q, _, rfl, ⟨listed.hinted fun r is => ?_, counted.size⟩, rfl, fun r => ⟨?_, fun ⟨other, found⟩ => ?_⟩⟩
      · cases is
        exact member
      · rintro ⟨⟩
        exact ⟨member, within⟩
      · exact congrArg some (listed.apart member other within found)
    · rw [result]
      refine ⟨none, _, rfl, ⟨listed.hinted there, counted.size⟩, rfl, fun r => ⟨fun absent => (by cases absent), fun ⟨other, found⟩ => ?_⟩⟩
      exact absurd found (missed r ((same r).mpr other))

/-! ## `as_dup` -/

/-- A new space that has the segments before one of the old space. -/
structure Copied (s : Space) (left : List Nat) (newas : Space) (list : List Nat) : Prop where
  counted : Counted newas list
  covers : ∀ x, Covers newas list x ↔ Covers s left x

theorem Copied.add (listed : Listed s (left ++ p :: right)) (copied : Copied s left newas list) :
    ∃ t list', segAlloc newas (s.seg p).base (s.seg p).size = some (some newas.nextSeg, t) ∧
      Copied s (left ++ [p]) { t with size := word (t.size + (s.seg p).size) } list' := by
  have valid := listed.valid p (by simp)
  obtain ⟨base, -, size⟩ := pageSize_eq valid.aligned valid.below
  have range : Valid (pageBase (s.seg p).base) (pageSize (s.seg p).base (s.seg p).size) := by
    rw [base, size]
    exact valid
  rcases segAlloc_eq copied.counted.listed range with ⟨t, -, -, -, -, q, there, way⟩ |
    ⟨t, one, two, result, whole, after, same, beside, newBase, newSize⟩
  · exfalso
    rw [base, size] at way
    have positive := (copied.counted.listed.valid q there).nonempty
    -- The first address that the two would share is in an earlier segment.
    have shared : Covers newas list (max (newas.seg q).base (s.seg p).base) := ⟨q, there, le_max_left _ _, by omega⟩
    have before := listed.covers_before ((copied.covers _).mp shared)
    omega
  · rw [base] at newBase
    rw [size] at newSize
    have bytes : total t (one ++ newas.nextSeg :: two) = t.size + (s.seg p).size := by
      have others := same.total
      rw [whole, total_append, total_append] at others
      rw [total_append, total_cons, newSize, beside.size, copied.counted.size, whole, total_append]
      omega
    have few := total_le after
    have sum : word (t.size + (s.seg p).size) = total t (one ++ newas.nextSeg :: two) := by
      rw [← bytes]
      apply word_eq
      unfold uvend at few
      omega
    refine ⟨t, _, result, ⟨after.counted _, sum⟩, fun x => ?_⟩
    have early : Covers t list x ↔ Covers s left x := same.covers.trans (copied.covers x)
    rw [whole, Covers.append] at early
    rw [Covers.append, Covers.cons, Covers.append, Covers.cons, newBase, newSize, ← early]
    have nothing : ¬ Covers s [] x := Covers.nil
    tauto

theorem dupFrom_eq (ok : Nat → Bool) (listed : Listed s (left ++ p :: right))
    (head : (left ++ p :: right).head? = some first) (copied : Copied s left newas list) (enough : right.length < fuel) :
    dupFrom s ok first fuel p newas = some none ∨
      ∃ t list', dupFrom s ok first fuel p newas = some (some t) ∧ Copied s (left ++ p :: right) t list' := by
  induction right generalizing left p fuel newas list with
  | nil =>
    obtain ⟨fuel, rfl⟩ := Nat.exists_eq_succ_of_ne_zero (Nat.ne_zero_of_lt enough)
    obtain ⟨t, list', result, more⟩ := copied.add listed
    have back : (s.seg p).next = first := some.inj (listed.next_eq.trans head)
    rw [dupFrom, result, bind_some]
    rw [if_pos back]
    split
    · exact .inl rfl
    · exact .inr ⟨_, list', rfl, more⟩
  | cons r right ih =>
    obtain ⟨fuel, rfl⟩ := Nat.exists_eq_succ_of_ne_zero (Nat.ne_zero_of_lt enough)
    obtain ⟨t, list', result, more⟩ := copied.add listed
    have onward : (s.seg p).next ≠ first := listed.circle.next_ne_head head
    have after : (s.seg p).next = r := listed.circle.next_eq
    rw [dupFrom, result, bind_some]
    rw [if_neg onward, after]
    split
    · exact .inl rfl
    · have split : left ++ p :: r :: right = left ++ [p] ++ r :: right := by simp
      rw [split] at listed head ⊢
      exact ih listed head more (Nat.lt_of_succ_lt_succ enough)

theorem asAlloc_counted : Counted asAlloc [] :=
  ⟨⟨.nil, rfl, fun p absent => (by cases absent), .nil, fun p absent => (by cases absent), fun p absent => (by cases absent)⟩, rfl⟩

/-- A copy maps the addresses of the original. -/
theorem Counted.asDup (counted : Counted s list) (ok : Nat → Bool) (hat : Bool) : As.asDup s ok hat = some none ∨
    ∃ t list', As.asDup s ok hat = some (some t) ∧ Copied s list t list' := by
  have listed := counted.listed
  have nothing (x : Nat) : Covers asAlloc [] x ↔ Covers s [] x := iff_of_false Covers.nil Covers.nil
  obtain ⟨answer, result, each⟩ : ∃ answer : Option Space,
      As.asDup s ok hat = (some answer).map (fun newas => if hat then newas else none) ∧
      ∀ t, answer = some t → ∃ list', Copied s list t list' := by
    unfold As.asDup
    cases list with
    | nil =>
      rw [listed.segs]
      refine ⟨_, rfl, ?_⟩
      rintro t ⟨⟩
      exact ⟨[], asAlloc_counted, nothing⟩
    | cons first rest =>
      rw [listed.segs]
      dsimp only [List.head?_cons]
      have whole : Listed s ([] ++ first :: rest) := listed
      have begun : Copied s [] asAlloc [] := ⟨asAlloc_counted, nothing⟩
      rcases dupFrom_eq ok whole rfl begun (Nat.lt_of_succ_le (length_le listed)) with result | ⟨t, list', result, copied⟩
      · exact ⟨none, by rw [result], fun t absent => by cases absent⟩
      · refine ⟨some t, by rw [result], ?_⟩
        rintro t ⟨⟩
        exact ⟨list', copied⟩
  rw [result, Option.map_some]
  cases hat with
  | false => exact .inl rfl
  | true =>
    cases answer with
    | none => exact .inl rfl
    | some t =>
      obtain ⟨list', copied⟩ := each t rfl
      exact .inr ⟨t, list', rfl, copied⟩

end

end Svr4.As
