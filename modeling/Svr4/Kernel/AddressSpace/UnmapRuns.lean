import Svr4.Kernel.AddressSpace.Unmap

/-! The loop of `as_unmap` takes a range of pages out of all segments, whatever the drivers do
to the segment that it stands on. -/

namespace Svr4.As

section
variable {s t : Space} {list left right mid : List Nat} {p q x raddr eaddr : Nat} {ok : Nat → Bool}

/-- The number of bytes says nothing about the list. -/
theorem Listed.counted (listed : Listed s list) (size : Nat) : Listed { s with size := size } list :=
  ⟨listed.circle, listed.segs, listed.seglast, listed.sorted, listed.valid, listed.fresh⟩

theorem Listed.hinted (listed : Listed s list) {hint : Option Nat} (there : ∀ p, hint = some p → p ∈ list) :
    Listed { s with seglast := hint } list :=
  ⟨listed.circle, listed.segs, there, listed.sorted, listed.valid, listed.fresh⟩

theorem Listed.before (listed : Listed s (left ++ p :: right)) (there : q ∈ left) : (s.seg q).base + (s.seg q).size ≤ (s.seg p).base :=
  (List.pairwise_append.mp listed.sorted).2.2 q there p (.head _)

theorem Listed.behind (listed : Listed s (left ++ p :: right)) (there : q ∈ right) : (s.seg p).base + (s.seg p).size ≤ (s.seg q).base :=
  (List.pairwise_cons.mp (List.pairwise_append.mp listed.sorted).2.1).1 q there

theorem total_le (listed : Listed s list) : total s list ≤ uvend := by
  suffices bound : ∀ (list : List Nat) (limit : Nat), list.Pairwise (fun p q => (s.seg p).base + (s.seg p).size ≤ (s.seg q).base) →
      limit ≤ uvend → (∀ p ∈ list, limit ≤ (s.seg p).base ∧ (s.seg p).base + (s.seg p).size ≤ uvend) → limit + total s list ≤ uvend by
    have all := bound list 0 listed.sorted (Nat.zero_le _) fun p there => ⟨Nat.zero_le _, (listed.valid p there).below⟩
    omega
  intro list
  induction list with
  | nil =>
    intro limit _ small _
    exact small
  | cons p list ih =>
    intro limit sorted _ inside
    obtain ⟨above, sorted⟩ := List.pairwise_cons.mp sorted
    have own := inside p (.head _)
    have rest := ih ((s.seg p).base + (s.seg p).size) sorted own.2 fun q there =>
      ⟨above q there, (inside q (List.mem_cons_of_mem p there)).2⟩
    rw [total_cons]
    omega

theorem Listed.last (listed : Listed s (left ++ [p])) : (s.seg (next s p)).base ≤ (s.seg p).base := by
  have after : some (next s p) = (left ++ [p]).head? := listed.next_eq
  cases left with
  | nil =>
    have self : next s p = p := Option.some.inj after
    rw [self]
  | cons q left =>
    have first : next s p = q := Option.some.inj after
    rw [first]
    exact (Nat.le_add_right _ _).trans (listed.before (.head _))

/-- What the loop leaves of the segments. -/
structure Unmapped (s : Space) (list : List Nat) (raddr eaddr : Nat) (result : Bool) (t : Space) (left : List Nat) : Prop where
  listed : Listed t left
  size : t.size = total t left
  paglck : t.paglck = s.paglck
  covers : result = true → ∀ x, Covers t left x ↔ Covers s list x ∧ ¬ (raddr ≤ x ∧ x < eaddr)

section
variable (listed : Listed s (left ++ p :: right))
include listed

theorem Unmapped.here (size : s.size = total s (left ++ p :: right))
    (done : ∀ x, Covers s left x → ¬ (raddr ≤ x ∧ x < eaddr)) (past : ∀ x, Covers s (p :: right) x → ¬ (raddr ≤ x ∧ x < eaddr)) :
    Unmapped s (left ++ p :: right) raddr eaddr true s (left ++ p :: right) := by
  refine ⟨listed, size, rfl, fun _ x => ⟨fun inside => ⟨inside, ?_⟩, And.left⟩⟩
  rcases Covers.append.mp inside with inside | inside
  · exact done x inside
  · exact past x inside

theorem Listed.covers_behind (inside : Covers s right x) : (s.seg p).base + (s.seg p).size ≤ x := by
  obtain ⟨q, there, low, -⟩ := inside
  exact (listed.behind there).trans low

theorem Listed.covers_before (inside : Covers s left x) : x < (s.seg p).base := by
  obtain ⟨q, there, -, high⟩ := inside
  exact high.trans_le (listed.before there)

theorem unmapPart (size : s.size = total s (left ++ p :: right)) (ordered : raddr ≤ eaddr)
    (aligned : raddr % pagesize = 0 ∧ eaddr % pagesize = 0) (reached : raddr < (s.seg p).base + (s.seg p).size)
    (begun : (s.seg p).base < eaddr) :
    ∃ t mid, segUnmap s p (max raddr (s.seg p).base) (min ((s.seg p).base + (s.seg p).size) eaddr - max raddr (s.seg p).base) = some t ∧
      Listed t (left ++ mid ++ right) ∧ Alike s t (left ++ right) ∧
      Remains s t p (max raddr (s.seg p).base) (min ((s.seg p).base + (s.seg p).size) eaddr - max raddr (s.seg p).base) mid ∧
      s.size = total t (left ++ mid ++ right) + (min ((s.seg p).base + (s.seg p).size) eaddr - max raddr (s.seg p).base) ∧
      t.paglck = s.paglck ∧ t.size = s.size := by
  have pages := (listed.valid p (by simp)).aligned
  have positive := (listed.valid p (by simp)).nonempty
  have low : (s.seg p).base ≤ max raddr (s.seg p).base := le_max_right _ _
  have high : max raddr (s.seg p).base + (min ((s.seg p).base + (s.seg p).size) eaddr - max raddr (s.seg p).base) ≤
      (s.seg p).base + (s.seg p).size := by omega
  obtain ⟨t, mid, result, after, alike, remains, kept, paglck, -⟩ :=
    segUnmap_eq listed low high (by unfold pagesize at *; omega)
  refine ⟨t, mid, result, after, alike, remains, ?_, paglck, kept⟩
  have around := alike.total
  have counted := remains.total
  rw [total_append, total_append] at around
  rw [total_append, total_append, size, total_append, total_cons]
  omega

end

/-- The test at the end of the loop. -/
def goOn (ok : Nat → Bool) (eaddr fuel obase segNext : Nat) (s : Space) (raddr : Nat) : Option (Bool × Space) :=
  if s.segs ≠ none ∧ obase < (s.seg segNext).base then unmapFrom ok eaddr fuel s raddr segNext else some (true, s)

theorem unmapFrom_step (fuel : Nat) : unmapFrom ok eaddr (fuel + 1) s raddr p =
    if s.end p ≤ raddr then goOn ok eaddr fuel (s.seg p).base (next s p) s raddr
    else if eaddr ≤ (s.seg p).base then some (true, s)
    else
      let start := if raddr < (s.seg p).base then (s.seg p).base else raddr
      let ssize := if s.end p < eaddr then word (s.end p + 4294967296 - start) else word (eaddr + 4294967296 - start)
      if ¬ ok p then some (false, s)
      else (segUnmap s p start ssize).bind fun t =>
        goOn ok eaddr fuel (s.seg p).base (next s p) { t with size := word (t.size + 4294967296 - ssize) } (word (start + ssize)) := rfl

/-- What the driver of one segment leaves, when it is called. -/
structure Parted (s : Space) (left : List Nat) (p : Nat) (right : List Nat) (raddr eaddr : Nat) (t : Space) (mid : List Nat) : Prop where
  listed : Listed t (left ++ mid ++ right)
  alike : Alike s t (left ++ right)
  remains : Remains s t p (max raddr (s.seg p).base) (min ((s.seg p).base + (s.seg p).size) eaddr - max raddr (s.seg p).base) mid
  size : t.size = total t (left ++ mid ++ right)
  paglck : t.paglck = s.paglck
  ordered : raddr ≤ eaddr
  reached : raddr < (s.seg p).base + (s.seg p).size
  begun : (s.seg p).base < eaddr

/-- A turn passes a segment, ends behind the range, fails, or goes on with what a driver left. -/
theorem unmapTurn (fuel : Nat) (listed : Listed s (left ++ p :: right)) (size : s.size = total s (left ++ p :: right))
    (ordered : raddr ≤ eaddr) (aligned : raddr % pagesize = 0 ∧ eaddr % pagesize = 0) :
    ((s.seg p).base + (s.seg p).size ≤ raddr ∧
      unmapFrom ok eaddr (fuel + 1) s raddr p = goOn ok eaddr fuel (s.seg p).base (next s p) s raddr) ∨
    (eaddr ≤ (s.seg p).base ∧ unmapFrom ok eaddr (fuel + 1) s raddr p = some (true, s)) ∨
    unmapFrom ok eaddr (fuel + 1) s raddr p = some (false, s) ∨
    ∃ t mid, Parted s left p right raddr eaddr t mid ∧ unmapFrom ok eaddr (fuel + 1) s raddr p =
      goOn ok eaddr fuel (s.seg p).base (next s p) t (min ((s.seg p).base + (s.seg p).size) eaddr) := by
  have there : p ∈ left ++ p :: right := by simp
  have below := (listed.valid p there).below
  have positive := (listed.valid p there).nonempty
  have few := total_le listed
  rw [unmapFrom_step, listed.end_eq there]
  by_cases before : (s.seg p).base + (s.seg p).size ≤ raddr
  · exact .inl ⟨before, if_pos before⟩
  right
  rw [if_neg before]
  by_cases behind : eaddr ≤ (s.seg p).base
  · exact .inl ⟨behind, if_pos behind⟩
  right
  rw [if_neg behind]
  have start : (if raddr < (s.seg p).base then (s.seg p).base else raddr) = max raddr (s.seg p).base := by
    split <;> omega
  have ssize : (if (s.seg p).base + (s.seg p).size < eaddr then word ((s.seg p).base + (s.seg p).size + 4294967296 - max raddr (s.seg p).base)
      else word (eaddr + 4294967296 - max raddr (s.seg p).base)) =
      min ((s.seg p).base + (s.seg p).size) eaddr - max raddr (s.seg p).base := by
    unfold word uvend at *
    split <;> omega
  dsimp only
  rw [start, ssize]
  by_cases fails : ¬ ok p
  · exact .inl (if_pos fails)
  right
  rw [if_neg fails]
  obtain ⟨t, mid, result, after, alike, remains, counted, paglck, kept⟩ :=
    unmapPart listed size ordered aligned (not_le.mp before) (not_le.mp behind)
  refine ⟨{ t with size := total t (left ++ mid ++ right) }, mid, ⟨after.counted _, alike, ⟨remains.covers, remains.total, remains.first⟩, rfl,
    paglck, ordered, not_le.mp before, not_le.mp behind⟩, ?_⟩
  rw [result, Option.bind_some]
  have rest : word (t.size + 4294967296 - (min ((s.seg p).base + (s.seg p).size) eaddr - max raddr (s.seg p).base)) =
      total t (left ++ mid ++ right) := by
    unfold word uvend at *
    omega
  have stop : word (max raddr (s.seg p).base + (min ((s.seg p).base + (s.seg p).size) eaddr - max raddr (s.seg p).base)) =
      min ((s.seg p).base + (s.seg p).size) eaddr := by
    unfold word uvend at *
    omega
  rw [rest, stop]

theorem Parted.done (parted : Parted s left p right raddr eaddr t mid) (listed : Listed s (left ++ p :: right)) :
    ∀ x, Covers t (left ++ mid) x → ¬ (min ((s.seg p).base + (s.seg p).size) eaddr ≤ x ∧ x < eaddr) := by
  intro x inside
  have early : Alike s t left := fun q there => parted.alike q (List.mem_append_left _ there)
  rcases Covers.append.mp inside with inside | inside
  · have before := listed.covers_before (early.covers.mp inside)
    omega
  · have own := (parted.remains.covers x).mp inside
    omega

/-- The part of the range up to the end of the segment is gone. -/
theorem Parted.covers (parted : Parted s left p right raddr eaddr t mid) (listed : Listed s (left ++ p :: right))
    (done : ∀ x, Covers s left x → ¬ (raddr ≤ x ∧ x < eaddr)) (x : Nat) :
    Covers t (left ++ mid ++ right) x ∧ ¬ (min ((s.seg p).base + (s.seg p).size) eaddr ≤ x ∧ x < eaddr) ↔
      Covers s (left ++ p :: right) x ∧ ¬ (raddr ≤ x ∧ x < eaddr) := by
  have reached := parted.reached
  have begun := parted.begun
  have early : Covers t left x ↔ Covers s left x :=
    Alike.covers fun q there => parted.alike q (List.mem_append_left _ there)
  have late : Covers t right x ↔ Covers s right x :=
    Alike.covers fun q there => parted.alike q (List.mem_append_right _ there)
  have own := parted.remains.covers x
  rw [Covers.append, Covers.append, Covers.append, Covers.cons, early, late, own]
  by_cases inLeft : Covers s left x
  · have before := listed.covers_before inLeft
    have outside := done x inLeft
    simp only [inLeft, true_or, true_and]
    omega
  · by_cases inRight : Covers s right x
    · have behind := listed.covers_behind inRight
      simp only [inRight, or_true, true_and]
      omega
    · simp only [inLeft, inRight, false_or, or_false]
      omega

theorem goOn_last {fuel : Nat} (listed : Listed s (left ++ [p])) (parted : Parted s left p [] raddr eaddr t mid) :
    goOn ok eaddr (fuel + 1) (s.seg p).base (next s p) t (min ((s.seg p).base + (s.seg p).size) eaddr) = some (true, t) := by
  unfold goOn
  have after : some (next s p) = (left ++ [p]).head? := listed.next_eq
  cases left with
  | cons q left =>
    have first : next s p = q := Option.some.inj after
    have range := parted.alike q (by simp)
    have ordered := listed.before ((.head _) : q ∈ q :: left)
    refine if_neg fun ⟨_, above⟩ => ?_
    rw [first, range.1] at above
    omega
  | nil =>
    have self : next s p = p := Option.some.inj after
    rw [self]
    have after := parted.listed
    rw [List.nil_append, List.append_nil] at after
    rcases parted.remains.first with rfl | ⟨rest, rfl, low | ⟨rfl, high⟩⟩
    · exact if_neg fun ⟨some', _⟩ => some' after.segs
    · refine if_neg fun ⟨_, above⟩ => ?_
      omega
    · have valid := after.valid p (List.mem_singleton_self p)
      have positive := valid.nonempty
      have inside := (parted.remains.covers (t.seg p).base).mp ⟨p, List.mem_singleton_self p, le_rfl, by omega⟩
      split
      · rw [unmapFrom_step, after.end_eq (List.mem_singleton_self p), if_neg (by omega), if_pos (by omega)]
      · rfl

/-- The whole loop, from a segment on. -/
theorem unmapFrom_eq (ok : Nat → Bool) (listed : Listed s (left ++ p :: right)) (size : s.size = total s (left ++ p :: right)) (ordered : raddr ≤ eaddr)
    (aligned : raddr % pagesize = 0 ∧ eaddr % pagesize = 0) (done : ∀ x, Covers s left x → ¬ (raddr ≤ x ∧ x < eaddr)) {fuel : Nat}
    (enough : right.length + 1 < fuel) : ∃ result t list, unmapFrom ok eaddr fuel s raddr p = some (result, t) ∧
      Unmapped s (left ++ p :: right) raddr eaddr result t list := by
  induction right generalizing s left p raddr fuel with
  | nil =>
    obtain ⟨fuel, rfl⟩ := Nat.exists_eq_add_of_le' enough
    rcases unmapTurn (fuel + 1) listed size ordered aligned with ⟨before, result⟩ | ⟨behind, result⟩ | result | ⟨t, mid, parted, result⟩
    · have stop : goOn ok eaddr (fuel + 1) (s.seg p).base (next s p) s raddr = some (true, s) :=
        if_neg fun ⟨_, above⟩ => absurd listed.last (Nat.not_le_of_lt above)
      refine ⟨true, s, _, result.trans stop, .here listed size done fun x inside => ?_⟩
      have own := (Covers.cons.mp inside).resolve_right Covers.nil
      omega
    · refine ⟨true, s, _, result, .here listed size done fun x inside => ?_⟩
      have own := (Covers.cons.mp inside).resolve_right Covers.nil
      omega
    · exact ⟨false, s, _, result, listed, size, rfl, fun success => by cases success⟩
    · refine ⟨true, t, _, result.trans (goOn_last listed parted), parted.listed, parted.size, parted.paglck, fun _ x => ?_⟩
      rw [← parted.covers listed done x]
      refine (and_iff_left_of_imp fun inside => ?_).symm
      rw [List.append_nil] at inside
      exact parted.done listed x inside
  | cons r right ih =>
    obtain ⟨fuel, rfl⟩ := Nat.exists_eq_add_of_le' (Nat.one_le_of_lt enough)
    have after : next s p = r := listed.circle.next_eq
    have ahead := listed.behind (q := r) (.head _)
    have positive := (listed.valid p (by simp)).nonempty
    rcases unmapTurn fuel listed size ordered aligned with ⟨before, result⟩ | ⟨behind, result⟩ | result | ⟨t, mid, parted, result⟩
    · have split : left ++ p :: r :: right = left ++ [p] ++ r :: right := by simp
      have onward : goOn ok eaddr fuel (s.seg p).base (next s p) s raddr = unmapFrom ok eaddr fuel s raddr r := by
        rw [goOn, after]
        refine if_pos ⟨?_, by omega⟩
        rw [listed.segs]
        simp
      rw [split] at listed size ⊢
      have done' : ∀ x, Covers s (left ++ [p]) x → ¬ (raddr ≤ x ∧ x < eaddr) := by
        intro x inside
        rcases Covers.append.mp inside with inside | inside
        · exact done x inside
        · have own := (Covers.cons.mp inside).resolve_right Covers.nil
          omega
      obtain ⟨result', t, list, whole, unmapped⟩ := ih listed size ordered aligned done' (Nat.lt_of_succ_lt_succ enough)
      exact ⟨result', t, list, (result.trans onward).trans whole, unmapped⟩
    · refine ⟨true, s, _, result, .here listed size done fun x inside => ?_⟩
      rcases Covers.cons.mp inside with own | late
      · omega
      · have above := listed.covers_behind late
        omega
    · exact ⟨false, s, _, result, listed, size, rfl, fun success => by cases success⟩
    · have range := parted.alike r (by simp)
      have onward : goOn ok eaddr fuel (s.seg p).base (next s p) t (min ((s.seg p).base + (s.seg p).size) eaddr) =
          unmapFrom ok eaddr fuel t (min ((s.seg p).base + (s.seg p).size) eaddr) r := by
        rw [goOn, after]
        refine if_pos ⟨?_, by omega⟩
        rw [parted.listed.segs]
        simp
      have pages := (listed.valid p (by simp)).aligned
      obtain ⟨result', t', list, whole, unmapped⟩ := ih parted.listed parted.size (min_le_right _ _)
        (by unfold pagesize at *; omega) (parted.done listed) (Nat.lt_of_succ_lt_succ enough)
      refine ⟨result', t', list, (result.trans onward).trans whole, unmapped.listed, unmapped.size,
        unmapped.paglck.trans parted.paglck, fun success x => ?_⟩
      rw [unmapped.covers success x]
      exact parted.covers listed done x

end

end Svr4.As
