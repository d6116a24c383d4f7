import Mathlib
import Svr4.Kernel.AddressSpace.Segments

/-! `as_unmap` takes exactly a range of pages out of the segments. -/

namespace Svr4.As

open List (mem_append mem_cons pairwise_append pairwise_cons)

/-- An address is in one of the segments. -/
def Covers (s : Space) (list : List Nat) (x : Nat) : Prop := ∃ p ∈ list, (s.seg p).base ≤ x ∧ x < (s.seg p).base + (s.seg p).size

def total (s : Space) (list : List Nat) : Nat := (list.map fun p => (s.seg p).size).sum

section
variable {s t : Space} {list left right mid : List Nat} {p q x : Nat}

theorem Covers.append : Covers s (left ++ right) x ↔ Covers s left x ∨ Covers s right x := by
  simp [Covers, or_and_right, exists_or]

theorem Covers.cons : Covers s (p :: right) x ↔ ((s.seg p).base ≤ x ∧ x < (s.seg p).base + (s.seg p).size) ∨ Covers s right x := by
  simp [Covers, or_and_right, exists_or]

theorem Covers.nil : ¬ Covers s [] x := fun ⟨p, absent, _⟩ => by cases absent

theorem Alike.covers (alike : Alike s t list) : Covers t list x ↔ Covers s list x := by
  refine exists_congr fun p => and_congr_right fun there => ?_
  rw [(alike p there).1, (alike p there).2]

theorem Alike.total (alike : Alike s t list) : total t list = total s list := by
  rw [As.total, As.total, List.map_congr_left fun p there => (alike p there).2]

theorem total_append : total s (left ++ right) = total s left + total s right := by
  rw [total, List.map_append, List.sum_append]
  rfl

theorem total_cons : total s (p :: right) = (s.seg p).size + total s right := by
  rw [total, List.map_cons, List.sum_cons]
  rfl

/-! ## One segment -/

theorem Valid.sub {base size base' size' : Nat} (valid : Valid base size) (low : base ≤ base') (high : base' + size' ≤ base + size)
    (aligned : base' % pagesize = 0 ∧ size' % pagesize = 0) (positive : 0 < size') : Valid base' size' := by
  have below := valid.below
  refine ⟨aligned, positive, high.trans below, ?_⟩
  have usr := valid.usr
  have ends : word (base + size) = base + size ∧ word (base' + size') = base' + size' := by
    unfold word uvend at *
    omega
  unfold validUsrRange at usr ⊢
  rw [ends.1] at usr
  rw [ends.2]
  split at usr
  · cases usr
  rw [if_neg (by omega)]
  split at usr
  · cases usr
  rename_i section'
  have same : secnum base' = secnum base ∧ secnum (base' + size') = secnum base := by
    unfold secnum uvend at *
    omega
  rw [same.1, same.2, if_neg (by omega)]
  split at usr
  · rename_i two
    rw [if_pos two]
  · rename_i two
    rw [if_neg two]
    have there : segnum base ≠ 0 := of_decide_eq_true usr
    apply decide_eq_true
    unfold segnum secnum uvend at *
    omega

theorem Listed.reshape (listed : Listed s (left ++ p :: right)) (change : Seg → Seg)
    (keeps : (change (s.seg p)).next = next s p ∧ (change (s.seg p)).prev = prev s p)
    (low : ∀ q ∈ left, (s.seg q).base + (s.seg q).size ≤ (change (s.seg p)).base)
    (high : ∀ q ∈ right, (change (s.seg p)).base + (change (s.seg p)).size ≤ (s.seg q).base)
    (valid : Valid (change (s.seg p)).base (change (s.seg p)).size) :
    Listed (s.set p change) (left ++ p :: right) ∧ Alike s (s.set p change) (left ++ right) := by
  have known (b : Nat) : (s.set p change).seg b = if b = p then change (s.seg p) else s.seg b := set_seg change b
  have nexts : next (s.set p change) = next s := by
    funext b
    rw [next, known]
    split
    · rename_i same
      rw [keeps.1, same]
    · rfl
  have prevs : prev (s.set p change) = prev s := by
    funext b
    rw [prev, known]
    split
    · rename_i same
      rw [keeps.2, same]
    · rfl
  have absent : p ∉ left ++ right := (List.nodup_cons.mp (List.nodup_middle.mp listed.circle.nodup)).1
  have other (q : Nat) (there : q ∈ left ++ right) : (s.set p change).seg q = s.seg q := by
    rw [known, if_neg]
    rintro rfl
    exact absent there
  have own : (s.set p change).seg p = change (s.seg p) := set_own s p change
  refine ⟨⟨?_, listed.segs, listed.seglast, ?_, fun q there => ?_, listed.fresh⟩, fun q there => by rw [other q there]; exact ⟨rfl, rfl⟩⟩
  · rw [nexts, prevs]
    exact listed.circle
  · obtain ⟨one, two, across⟩ := pairwise_append.mp listed.sorted
    obtain ⟨-, two⟩ := pairwise_cons.mp two
    have early (q : Nat) (there : q ∈ left) := other q (List.mem_append_left _ there)
    have late (q : Nat) (there : q ∈ right) := other q (List.mem_append_right _ there)
    refine pairwise_append.mpr ⟨one.imp_of_mem fun here there ordered => ?_, pairwise_cons.mpr ⟨fun q there => ?_,
      two.imp_of_mem fun here there ordered => ?_⟩, fun q here r there => ?_⟩
    · rw [early _ here, early _ there]
      exact ordered
    · rw [own, late q there]
      exact high q there
    · rw [late _ here, late _ there]
      exact ordered
    · rw [early q here]
      rcases mem_cons.mp there with rfl | there
      · rw [own]
        exact low q here
      · rw [late r there]
        exact across q here r (.tail _ there)
  · rw [known]
    split
    · exact valid
    · exact listed.valid q there

theorem Listed.resize (listed : Listed s (left ++ p :: right)) (change : Seg → Seg)
    (keeps : (change (s.seg p)).next = next s p ∧ (change (s.seg p)).prev = prev s p)
    (low : (s.seg p).base ≤ (change (s.seg p)).base)
    (high : (change (s.seg p)).base + (change (s.seg p)).size ≤ (s.seg p).base + (s.seg p).size)
    (valid : Valid (change (s.seg p)).base (change (s.seg p)).size) :
    Listed (s.set p change) (left ++ p :: right) ∧ Alike s (s.set p change) (left ++ right) := by
  refine listed.reshape change keeps (fun q there => ?_) (fun q there => ?_) valid
  · exact ((pairwise_append.mp listed.sorted).2.2 q there p (.head _)).trans low
  · exact high.trans ((pairwise_cons.mp (pairwise_append.mp listed.sorted).2.1).1 q there)

/-! ## The drivers -/

theorem cut_eq {front back : List Nat} (nodup : (left ++ p :: right).Nodup) (same : left ++ p :: right = front ++ back)
    (here : p ∈ front) (there : ∀ r ∈ right, r ∈ back) : front = left ++ [p] ∧ back = right := by
  have apart : ∀ r ∈ front, r ∉ back := by
    rw [same] at nodup
    exact fun r one two => (List.nodup_append.mp nodup).2.2 r one r two rfl
  rcases List.append_eq_append_iff.mp same with ⟨rest, rfl, split⟩ | ⟨rest, rfl, split⟩
  · cases rest with
    | nil =>
      cases (split : p :: right = back)
      exact absurd (.head _) (apart p here)
    | cons c rest =>
      obtain ⟨rfl, tail⟩ := List.cons.inj split
      cases rest with
      | nil => exact ⟨rfl, tail.symm⟩
      | cons r rest =>
        have early : r ∈ left ++ p :: r :: rest := by simp
        exact absurd (there r (tail ▸ (.head _))) (apart r early)
  · have late : p ∈ back := by
      rw [split]
      simp
    exact absurd late (apart p here)

/-- What is left of a segment. -/
structure Remains (s t : Space) (p addr len : Nat) (mid : List Nat) : Prop where
  covers : ∀ x, Covers t mid x ↔ ((s.seg p).base ≤ x ∧ x < (s.seg p).base + (s.seg p).size) ∧ ¬ (addr ≤ x ∧ x < addr + len)
  total : total t mid + len = (s.seg p).size
  first : mid = [] ∨ ∃ rest, mid = p :: rest ∧ ((t.seg p).base = (s.seg p).base ∨ rest = [] ∧ (t.seg p).base = addr + len)

theorem shrunk {addr len : Nat} {range : Seg} (own : t.seg p = range)
    (covers : ∀ x, (range.base ≤ x ∧ x < range.base + range.size) ↔
      ((s.seg p).base ≤ x ∧ x < (s.seg p).base + (s.seg p).size) ∧ ¬ (addr ≤ x ∧ x < addr + len))
    (size : range.size + len = (s.seg p).size) (first : range.base = (s.seg p).base ∨ range.base = addr + len) :
    Remains s t p addr len [p] := by
  refine ⟨fun x => ?_, ?_, .inr ⟨[], rfl, ?_⟩⟩
  · rw [Covers.cons, own, ← covers x]
    exact ⟨fun either => either.resolve_right Covers.nil, .inl⟩
  · rw [total_cons, own]
    exact size
  · rw [own]
    exact first.imp_right fun base => ⟨rfl, base⟩

/-- A driver unmaps exactly the part that it is given. -/
theorem segUnmap_eq {addr len : Nat} (listed : Listed s (left ++ p :: right)) (low : (s.seg p).base ≤ addr)
    (high : addr + len ≤ (s.seg p).base + (s.seg p).size) (aligned : addr % pagesize = 0 ∧ len % pagesize = 0) :
    ∃ t mid, segUnmap s p addr len = some t ∧ Listed t (left ++ mid ++ right) ∧ Alike s t (left ++ right) ∧
      Remains s t p addr len mid ∧ t.size = s.size ∧ t.paglck = s.paglck ∧ s.nextSeg ≤ t.nextSeg := by
  have there : p ∈ left ++ p :: right := by simp
  have valid := listed.valid p there
  have ends := listed.end_eq there
  have below := valid.below
  have pages := valid.aligned
  have stop : word (addr + len) = addr + len := by
    apply word_eq
    unfold uvend at below
    omega
  have small {n : Nat} (le : n ≤ (s.seg p).size) : word ((s.seg p).size + 4294967296 - n) = (s.seg p).size - n := by
    unfold word uvend at *
    omega
  rw [segUnmap, ends, stop, if_neg (by omega)]
  by_cases all : addr = (s.seg p).base ∧ len = (s.seg p).size
  · rw [if_pos all]
    obtain ⟨after, alike, size, paglck, nextSeg⟩ := listed.free
    refine ⟨_, [], rfl, by rwa [List.append_nil], fun q _ => alike q, ⟨fun x => ?_, ?_, .inl rfl⟩, size, paglck, nextSeg.ge⟩
    · refine ⟨fun absent => absurd absent Covers.nil, fun inside => absurd inside.1 ?_⟩
      omega
    · rw [all.2]
      exact Nat.zero_add _
  rw [if_neg all]
  by_cases front : addr = (s.seg p).base
  · rw [if_pos front, small (by omega), ← front, stop]
    have rest : Valid (addr + len) ((s.seg p).size - len) := valid.sub (by omega) (by omega) (by unfold pagesize at *; omega) (by omega)
    have own := set_own s p fun old => { old with base := addr + len, size := (s.seg p).size - len }
    obtain ⟨after, alike⟩ := listed.resize (fun old => { old with base := addr + len, size := (s.seg p).size - len }) ⟨rfl, rfl⟩
      (by dsimp only; omega) (by dsimp only; omega) rest
    exact ⟨_, [p], rfl, by rwa [List.append_assoc, List.singleton_append], alike,
      shrunk own (fun x => by dsimp only; omega) (by dsimp only; omega) (.inr rfl), rfl, rfl, le_rfl⟩
  rw [if_neg front]
  by_cases back : addr + len = (s.seg p).base + (s.seg p).size
  · rw [if_pos back, small (by omega)]
    have rest : Valid (s.seg p).base ((s.seg p).size - len) := valid.sub (by omega) (by omega) (by unfold pagesize at *; omega) (by omega)
    have own := set_own s p fun old => { old with size := (s.seg p).size - len }
    obtain ⟨after, alike⟩ := listed.resize (fun old => { old with size := (s.seg p).size - len }) ⟨rfl, rfl⟩ le_rfl
      (by dsimp only; omega) rest
    exact ⟨_, [p], rfl, by rwa [List.append_assoc, List.singleton_append], alike,
      shrunk own (fun x => by dsimp only; omega) (by dsimp only; omega) (.inl rfl), rfl, rfl, le_rfl⟩
  rw [if_neg back]
  have rest : Valid (s.seg p).base (addr - (s.seg p).base) := valid.sub (by omega) (by omega) (by unfold pagesize at *; omega) (by omega)
  have own := set_own s p fun old => { old with size := addr - (s.seg p).base }
  obtain ⟨before, alike⟩ := listed.resize (fun old => { old with size := addr - (s.seg p).base }) ⟨rfl, rfl⟩ le_rfl
    (by dsimp only; omega) rest
  have size : word ((s.seg p).base + (s.seg p).size + 4294967296 - (addr + len)) = (s.seg p).base + (s.seg p).size - (addr + len) := by
    unfold word uvend at *
    omega
  rw [size]
  have lengths : (addr + len) % pagesize = 0 ∧ ((s.seg p).base + (s.seg p).size - (addr + len)) % pagesize = 0 := by
    unfold pagesize at *
    omega
  obtain ⟨base, -, length⟩ := pageSize_eq lengths (by omega)
  have second : Valid (pageBase (addr + len)) (pageSize (addr + len) ((s.seg p).base + (s.seg p).size - (addr + len))) := by
    rw [base, length]
    exact valid.sub (by omega) (by omega) (by unfold pagesize at *; omega) (by omega)
  have ordered := pairwise_append.mp listed.sorted
  have earlier (q : Nat) (member : q ∈ left) : (s.seg q).base + (s.seg q).size ≤ (s.seg p).base :=
    ordered.2.2 q member p (.head _)
  have later (q : Nat) (member : q ∈ right) : (s.seg p).base + (s.seg p).size ≤ (s.seg q).base :=
    (pairwise_cons.mp ordered.2.1).1 q member
  rcases segAlloc_eq before second with ⟨t, -, -, -, -, q, member, way⟩ |
    ⟨t, one, two, result, whole, after, same, beside, newBase, newSize⟩
  · exfalso
    rw [base, length] at way
    rcases mem_append.mp member with member | member
    · have range := alike q (List.mem_append_left _ member)
      have := earlier q member
      rw [range.1, range.2] at way
      omega
    · rcases mem_cons.mp member with rfl | member
      · rw [own] at way
        dsimp only at way
        omega
      · have range := alike q (List.mem_append_right _ member)
        have := later q member
        rw [range.1] at way
        omega
  · rw [base] at newBase
    rw [length] at newSize
    change (t.seg s.nextSeg).base = addr + len at newBase
    change (t.seg s.nextSeg).size = (s.seg p).base + (s.seg p).size - (addr + len) at newSize
    change Listed t (one ++ s.nextSeg :: two) at after
    -- The new segment comes just behind the old one.
    have sorted := pairwise_append.mp after.sorted
    have ranges (q : Nat) (member : q ∈ left ++ right) : (t.seg q).base = (s.seg q).base ∧ (t.seg q).size = (s.seg q).size := by
      have kept := same q (by
        rw [mem_append, mem_cons]
        exact (mem_append.mp member).imp_right .inr)
      exact ⟨kept.1.trans (alike q member).1, kept.2.trans (alike q member).2⟩
    have mine : (t.seg p).base = (s.seg p).base ∧ (t.seg p).size = addr - (s.seg p).base := by
      have kept := same p there
      rw [own] at kept
      exact kept
    have here : p ∈ one := by
      rcases mem_append.mp (whole ▸ there) with member | member
      · exact member
      · have := (pairwise_cons.mp sorted.2.1).1 p member
        rw [mine.1] at this
        omega
    have behind (r : Nat) (member : r ∈ right) : r ∈ two := by
      rcases mem_append.mp (whole ▸ List.mem_append_right left (List.mem_cons_of_mem p member)) with early | late
      · have := sorted.2.2 r early _ (.head _)
        have range := ranges r (List.mem_append_right _ member)
        have := later r member
        omega
      · exact late
    obtain ⟨rfl, rfl⟩ := cut_eq listed.circle.nodup whole here behind
    refine ⟨t, [p, s.nextSeg], ?_, ?_, ranges, ⟨fun x => ?_, ?_, .inr ⟨[s.nextSeg], rfl, .inl mine.1⟩⟩, beside.size, beside.paglck, ?_⟩
    · rw [result]
      rfl
    · rw [List.append_assoc] at after ⊢
      exact after
    · rw [Covers.cons, Covers.cons, mine.1, mine.2, newBase, newSize]
      simp only [Covers.nil, or_false]
      omega
    · rw [total_cons, total_cons, mine.2, newSize]
      rw [show total t [] = 0 from rfl]
      omega
    · have grown := after.fresh s.nextSeg (by simp)
      exact grown.le

end

end Svr4.As
