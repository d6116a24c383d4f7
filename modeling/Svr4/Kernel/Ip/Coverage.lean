import Svr4.Kernel.Ip.Lengths
import Svr4.Kernel.Ip.Reports

/-! Reassembly of the fragments of one datagram, in any order and with any overlaps. -/

namespace Svr4.Ip

open Svr4.Words
open List (mem_cons mem_cons_self pairwise_cons mem_cons_of_mem)

/-- Where a fragment ends. -/
def Ipasfrag.stop (q : Ipasfrag) : Int := q.off + q.len

/-- A position that a fragment has. -/
def Has (q : Ipasfrag) (x : Int) : Prop := q.off ≤ x ∧ x < q.stop

def Holds (frags : List Ipasfrag) (x : Int) : Prop := ∃ q ∈ frags, Has q x

/-- The fragments are in order, and each ends before the next one begins. -/
def Apart (frags : List Ipasfrag) : Prop := frags.Pairwise fun q later => q.stop ≤ later.off

/-- A fragment lies in the `n` bytes of a datagram. -/
structure Inside (n : Int) (q : Ipasfrag) : Prop where
  off : 0 ≤ q.off
  len : 0 ≤ q.len
  stop : q.stop ≤ n

section
variable {n x : Int} {q ip : Ipasfrag} {frags : List Ipasfrag} {before : List Ipasfrag} {next : Int} {fp : Ipq}
  {received : List Packet} {pkt : Packet} {ipq : List Ipq}

theorem holds_nil : ¬ Holds [] x := fun ⟨_, there, _⟩ => by cases there

theorem holds_cons : Holds (q :: frags) x ↔ Has q x ∨ Holds frags x := by
  simp [Holds, exists_eq_or_imp]

theorem holds_append {after : List Ipasfrag} : Holds (before ++ after) x ↔ Holds before x ∨ Holds after x := by
  simp [Holds, or_and_right, exists_or]

theorem trim_fits (small : n ≤ 32767) (inside : Inside n q) {i : Int} (positive : 0 ≤ i) (less : i ≤ q.len) :
    (trim i q).off = q.off + i ∧ (trim i q).stop = q.stop ∧ Inside n (trim i q) := by
  have ⟨off, len, stop⟩ := inside
  rw [Ipasfrag.stop] at stop
  have first : (trim i q).off = q.off + i := toShort_of_fits ⟨by omega, by omega⟩
  have second : (trim i q).len = q.len - i := toShort_of_fits ⟨by omega, by omega⟩
  have same : (trim i q).stop = q.stop := by
    rw [Ipasfrag.stop, Ipasfrag.stop, first, second]
    omega
  refine ⟨first, same, ?_, ?_, ?_⟩
  · omega
  · omega
  · rw [same]
    exact stop

/-! ## The fragment in front -/

theorem Apart.last {last : Ipasfrag} (apart : Apart before) (inside : ∀ q ∈ before, Inside n q)
    (final : before.getLast? = some last) : ∀ q ∈ before, q.stop ≤ last.stop := by
  obtain ⟨front, rfl⟩ := List.getLast?_eq_some_iff.mp final
  intro q there
  rcases List.mem_append.mp there with earlier | here
  · have order := (List.pairwise_append.mp apart).2.2 q earlier last (.head _)
    have len := (inside last (List.mem_append_right _ (.head _))).len
    rw [Ipasfrag.stop] at order ⊢
    rw [Ipasfrag.stop]
    omega
  · cases List.mem_singleton.mp here
    exact le_rfl

theorem trimPrev_none (first : ∀ q ∈ before, q.off ≤ ip.off)
    (result : trimPrev before ip = none) : ∀ x, Has ip x → Holds before x := by
  unfold trimPrev at result
  split at result
  · cases result
  · rename_i qprev final
    simp only at result
    split at result
    · cases result
    · split at result <;> rename_i positive all
      · intro x here
        have there := List.mem_of_getLast? final
        have below := first qprev there
        have ⟨low, high⟩ := here
        rw [Ipasfrag.stop] at high
        refine ⟨qprev, there, ?_, ?_⟩
        · omega
        · rw [Ipasfrag.stop]
          omega
      · cases result

/-- What is left of the new fragment begins where those in front of it end, and has all that they do not have. -/
structure Fronted (n : Int) (before : List Ipasfrag) (ip ip' : Ipasfrag) : Prop where
  inside : Inside n ip'
  stop : ip'.stop = ip.stop
  later : ip.off ≤ ip'.off
  apart : ∀ q ∈ before, q.stop ≤ ip'.off
  holds : ∀ x, Holds before x ∨ Has ip x ↔ Holds before x ∨ Has ip' x
  first : ip'.off = ip.off ∨ ∃ q ∈ before, ip'.off = q.stop

theorem trimPrev_fronted {ip' : Ipasfrag} (small : n ≤ 32767) (apart : Apart before)
    (inside : ∀ q ∈ before, Inside n q) (here : Inside n ip) (first : ∀ q ∈ before, q.off ≤ ip.off)
    (result : trimPrev before ip = some ip') : Fronted n before ip ip' := by
  unfold trimPrev at result
  split at result <;> rename_i final
  · cases result
    have none : before = [] := List.getLast?_eq_none_iff.mp final
    subst none
    exact ⟨here, rfl, le_rfl, fun q there => (by cases there), fun x => Iff.rfl, .inl rfl⟩
  · rename_i qprev
    have there := List.mem_of_getLast? final
    have last := apart.last inside final
    simp only at result
    split at result
    · cases result
      refine ⟨here, rfl, le_rfl, fun q member => ?_, fun x => Iff.rfl, .inl rfl⟩
      have below := last q member
      rw [Ipasfrag.stop] at below ⊢
      rw [Ipasfrag.stop] at below
      omega
    · split at result
      · cases result
      · cases result
        have ⟨off, stop, within⟩ := trim_fits small here (i := qprev.off + qprev.len - ip.off) (by omega) (by omega)
        have starts : (trim (qprev.off + qprev.len - ip.off) ip).off = qprev.stop := by
          rw [off, Ipasfrag.stop]
          omega
        refine ⟨within, stop, by omega, fun q member => starts ▸ last q member, fun x => ?_, .inr ⟨qprev, there, starts⟩⟩
        constructor
        · rintro (held | ⟨low, high⟩)
          · exact .inl held
          · by_cases before' : x < qprev.stop
            · have below := first qprev there
              exact .inl ⟨qprev, there, by omega, before'⟩
            · exact .inr ⟨by omega, by rw [stop]; exact high⟩
        · rintro (held | ⟨low, high⟩)
          · exact .inl held
          · exact .inr ⟨by omega, by rw [stop] at high; exact high⟩

/-! ## The fragments behind -/

/-- What is left of the fragments behind begins where the new one ends, and has all that it does not have. -/
structure Backed (n : Int) (ip : Ipasfrag) (after left : List Ipasfrag) : Prop where
  inside : ∀ q ∈ left, Inside n q
  apart : Apart left
  behind : ∀ q ∈ left, ip.stop ≤ q.off
  holds : ∀ x, Has ip x ∨ Holds after x ↔ Has ip x ∨ Holds left x

theorem trimNext_backed (small : n ≤ 32767) (apart : Apart frags) (inside : ∀ q ∈ frags, Inside n q)
    (later : ∀ q ∈ frags, ip.off ≤ q.off) : Backed n ip frags (trimNext ip frags) := by
  induction frags with
  | nil => exact ⟨inside, apart, fun q there => (by cases there), fun x => Iff.rfl⟩
  | cons q rest ih =>
    obtain ⟨order, tail⟩ := pairwise_cons.mp apart
    have within := inside q mem_cons_self
    obtain ⟨_, len, stop⟩ := inside q (.head _)
    have low := later q mem_cons_self
    have others : ∀ q ∈ rest, Inside n q := fun q there => inside q (mem_cons_of_mem _ there)
    rw [trimNext]
    split <;> rename_i past
    · refine ⟨inside, apart, fun other there => ?_, fun x => Iff.rfl⟩
      rcases mem_cons.mp there with rfl | behind
      · exact past
      · have after := order other behind
        rw [Ipasfrag.stop] at after ⊢
        omega
    · simp only
      split <;> rename_i part
      · -- the fragment behind loses the bytes that the new one has
        obtain ⟨off, same, kept⟩ := trim_fits small within (i := ip.off + ip.len - q.off) (by omega) (by omega)
        have starts : (trim (ip.off + ip.len - q.off) q).off = ip.stop := by
          rw [off, Ipasfrag.stop]
          omega
        refine ⟨fun other there => ?_, pairwise_cons.mpr ⟨fun other there => same ▸ order other there, tail⟩,
          fun other there => ?_, fun x => ?_⟩
        · rcases mem_cons.mp there with rfl | behind
          · exact kept
          · exact others other behind
        · rcases mem_cons.mp there with rfl | behind
          · exact Int.le_of_eq starts.symm
          · have after := order other behind
            have grows := kept.len
            rw [← same, Ipasfrag.stop] at after
            omega
        · rw [holds_cons, holds_cons]
          have either : Has ip x ∨ Has q x ↔ Has ip x ∨ Has (trim (ip.off + ip.len - q.off) q) x := by
            unfold Has
            rw [same, starts]
            constructor
            · rintro (mine | ⟨low', high⟩)
              · exact .inl mine
              · by_cases before : x < ip.stop
                · exact .inl ⟨by omega, before⟩
                · exact .inr ⟨by omega, high⟩
            · rintro (mine | ⟨low', high⟩)
              · exact .inl mine
              · exact .inr ⟨by rw [Ipasfrag.stop] at low'; omega, high⟩
          rw [← or_assoc, either, or_assoc]
      · -- the new fragment covers the one behind it
        have next := ih tail others fun other there => later other (mem_cons_of_mem _ there)
        refine ⟨next.inside, next.apart, next.behind, fun x => ?_⟩
        rw [← next.holds x, holds_cons]
        constructor
        · rintro (mine | ⟨low', high⟩ | held)
          · exact .inl mine
          · rw [Ipasfrag.stop] at high
            refine .inl ⟨by omega, ?_⟩
            rw [Ipasfrag.stop]
            omega
          · exact .inr held
        · rintro (mine | held)
          · exact .inl mine
          · exact .inr (.inr held)

/-! ## The walk -/

theorem walk_covered (apart : Apart frags) (inside : ∀ q ∈ frags, Inside n q) (starts : ∀ q ∈ frags, next ≤ q.off)
    (below : next ≤ n) (covered : ∀ x, next ≤ x → x < n → Holds frags x) : walk next frags = some n := by
  induction frags generalizing next with
  | nil =>
    rcases Int.lt_or_eq_of_le below with less | same
    · exact absurd (covered next (Int.le_refl _) less) holds_nil
    · rw [walk, same]
  | cons q rest ih =>
    obtain ⟨order, tail⟩ := pairwise_cons.mp apart
    obtain ⟨_, len, stop⟩ := inside q mem_cons_self
    have low := starts q (.head _)
    rw [Ipasfrag.stop] at stop
    have first : q.off = next := by
      by_contra gap
      have held := covered next le_rfl (by omega)
      rcases holds_cons.mp held with ⟨before, _⟩ | ⟨other, there, before, _⟩
      · omega
      · have after := order other there
        rw [Ipasfrag.stop] at after
        omega
    rw [walk, if_pos first]
    refine ih tail (fun other there => inside other (.tail _ there)) (fun other there => ?_) (by omega)
      fun x above less => ?_
    · have after := order other there
      rw [Ipasfrag.stop] at after
      omega
    · rcases holds_cons.mp (covered x (by omega) less) with ⟨_, high⟩ | held
      · rw [Ipasfrag.stop] at high
        omega
      · exact held

theorem walk_holds {last : Int} (walked : walk next frags = some last) :
    ∀ x, next ≤ x → x < last → Holds frags x := by
  induction frags generalizing next with
  | nil =>
    cases walked
    intro x above less
    omega
  | cons q rest ih =>
    rw [walk] at walked
    split at walked <;> rename_i first
    · intro x above less
      by_cases mine : x < next + q.len
      · refine holds_cons.mpr (.inl ⟨by omega, ?_⟩)
        rw [Ipasfrag.stop]
        omega
      · exact holds_cons.mpr (.inr (ih walked x (by omega) less))
    · cases walked

/-! ## One datagram -/

/-- A fragment of a datagram with these data. -/
structure Piece (data : List UInt8) (key : Key) (pkt : Packet) : Prop where
  uniform : Uniform pkt
  key : pkt.key = key
  stop : pkt.start + (Msg.bytes pkt.msg).length ≤ data.length
  bytes : Msg.bytes pkt.msg = (data.drop pkt.start).take (Msg.bytes pkt.msg).length
  more : decide (pkt.off &&& ipMf ≠ 0) = decide (pkt.start + (Msg.bytes pkt.msg).length < data.length)
  part : isFragment pkt = true

/-- What is left of a fragment, in its place in the data. -/
structure Placed (data : List UInt8) (q : Ipasfrag) : Prop where
  inside : Inside data.length q
  bytes : q.msg.bytes = (data.drop q.off.toNat).take q.len.toNat
  more : q.mff = decide (q.stop < data.length)
  skipped : (q.skipped : Int) ≤ q.off

variable {data : List UInt8} {key : Key}

theorem Left.placed (small : data.length ≤ 32767) (left : Left (Piece data key) q) : Placed data q := by
  obtain ⟨pkt, k, piece, _, rest⟩ := left
  have stop := piece.stop
  have within := rest.within
  have skipped := rest.skipped
  have off : q.off = pkt.start + k := by
    rw [rest.off]
    exact toShort_of_fits ⟨by omega, by omega⟩
  have len := rest.len
  have ends : q.stop = pkt.start + (Msg.bytes pkt.msg).length := by
    rw [Ipasfrag.stop]
    omega
  refine ⟨⟨by omega, by omega, by omega⟩, ?_, ?_, by omega⟩
  · have first : q.off.toNat = pkt.start + k := by omega
    have count : q.len.toNat = (Msg.bytes pkt.msg).length - k := by omega
    rw [rest.bytes, piece.bytes, first, count, List.drop_take, List.drop_drop]
  · rw [rest.mff, piece.more, ends]
    congr 1
    exact propext (by omega)

theorem walk_data {last : Int} (placed : ∀ q ∈ frags, Placed data q) (positive : 0 ≤ next)
    (walked : walk next frags = some last) :
    next ≤ last ∧ Msg.bytes (frags.map Ipasfrag.msg).flatten = (data.drop next.toNat).take (last - next).toNat := by
  induction frags generalizing next with
  | nil =>
    cases walked
    refine ⟨le_rfl, ?_⟩
    rw [Int.sub_self]
    rfl
  | cons q rest ih =>
    have here := placed q (.head _)
    have len := here.inside.len
    rw [walk] at walked
    split at walked <;> rename_i first
    · obtain ⟨grows, tail⟩ := ih (fun q there => placed q (.tail _ there)) (by omega) walked
      refine ⟨by omega, ?_⟩
      rw [List.map_cons, List.flatten_cons]
      have whole : Msg.bytes (q.msg ++ (rest.map Ipasfrag.msg).flatten) = q.msg.bytes ++ Msg.bytes (rest.map Ipasfrag.msg).flatten := by
        rw [Msg.bytes, List.map_append, List.flatten_append]
        rfl
      have split' : (last - next).toNat = q.len.toNat + (last - (next + q.len)).toNat := by omega
      have start : (next + q.len).toNat = next.toNat + q.len.toNat := by omega
      rw [whole, tail, here.bytes, first, split', List.take_add, List.drop_drop, start]
    · cases walked

/-- The datagram with these data. -/
structure Whole (data : List UInt8) (key : Key) (d : Received) : Prop where
  key : d.key = key
  bytes : d.msg.bytes = data
  len : d.len = data.length
  skipped : d.skipped = 0

theorem assemble_whole {d : Received} (small : data.length ≤ 32767) (described : Described (Piece data key) fp)
    (name : fp.key = key) (result : assemble fp = some d) :
    Whole data key d ∧ ∀ x : Int, 0 ≤ x → x < data.length → Holds fp.frags x := by
  have placed : ∀ q ∈ fp.frags, Placed data q := fun q there => (described q there).1.placed small
  unfold assemble at result
  split at result
  · rename_i next last first tail walked final frags
    split at result <;> rename_i more
    · cases result
    · cases result
      have there := List.mem_of_getLast? final
      have ends := walk_last walked final
      have stop : last.stop = data.length := by
        have flag := (placed last there).more
        have below := (placed last there).inside.stop
        rw [Bool.not_eq_true] at more
        rw [more, eq_comm, decide_eq_false_iff_not] at flag
        omega
      have all : next = data.length := by
        rw [← ends, ← stop, Ipasfrag.stop]
      have ⟨_, bytes⟩ := walk_data placed (Int.le_refl 0) walked
      have member : first ∈ fp.frags := frags ▸ (.head _)
      have firstKey := (described first member).2
      refine ⟨⟨?_, ?_, ?_, ?_⟩, fun x above less => walk_holds walked x above (by omega)⟩
      · rw [firstKey, name]
      · refine bytes.trans ?_
        rw [all]
        exact List.take_of_length_le (by rw [List.length_drop]; omega)
      · exact (congrArg toShort all).trans (toShort_of_fits ⟨by omega, by omega⟩)
      · have zero : first.off = 0 := by
          rw [frags, walk] at walked
          by_contra other
          rw [if_neg other] at walked
          cases walked
        have skipped := (placed first member).skipped
        simp only
        omega
  · cases result

theorem assemble_covered (small : data.length ≤ 32767) (described : Described (Piece data key) fp)
    (apart : Apart fp.frags) (some' : fp.frags ≠ []) (covered : ∀ x : Int, 0 ≤ x → x < data.length → Holds fp.frags x) :
    ∃ d, assemble fp = some d := by
  have placed : ∀ q ∈ fp.frags, Placed data q := fun q there => (described q there).1.placed small
  have walked := walk_covered apart (fun q there => (placed q there).inside) (fun q there => (placed q there).inside.off)
    (Int.natCast_nonneg _) covered
  obtain ⟨last, final⟩ : ∃ last, fp.frags.getLast? = some last := ⟨_, List.getLast?_eq_some_getLast some'⟩
  obtain ⟨first, tail, frags⟩ := List.exists_cons_of_ne_nil some'
  have ends := walk_last walked final
  have more : last.mff = false := by
    rw [(placed last (List.mem_of_getLast? final)).more, decide_eq_false_iff_not, Ipasfrag.stop, ends]
    exact lt_irrefl _
  unfold assemble
  rw [walked, final]
  rw [frags]
  simp only [more, Bool.false_eq_true, if_false]
  exact ⟨_, rfl⟩

/-! ## The queue of the datagram -/

/-- The positions of packets. -/
def Covered (received : List Packet) (x : Int) : Prop :=
  ∃ pkt ∈ received, (pkt.start : Int) ≤ x ∧ x < pkt.start + (Msg.bytes pkt.msg).length

/-- The queue has what has been received since there is one. -/
structure Gathers (data : List UInt8) (key : Key) (received : List Packet) (fp : Ipq) : Prop where
  described : Described (Piece data key) fp
  key : fp.key = key
  apart : Apart fp.frags
  some' : fp.frags ≠ []
  holds : ∀ x, Holds fp.frags x ↔ Covered received x

/-- Every byte of a datagram of `n` bytes has been received. -/
def complete (n : Nat) (received : List Packet) : Bool :=
  (List.range n).all fun x => received.any fun pkt => pkt.start ≤ x ∧ x < pkt.start + (Msg.bytes pkt.msg).length

theorem complete_iff {n : Nat} :
    complete n received = true ↔ ∀ x : Int, 0 ≤ x → x < n → Covered received x := by
  simp only [complete, List.all_eq_true, List.mem_range, List.any_eq_true, decide_eq_true_eq, Covered]
  constructor
  · intro all x positive less
    obtain ⟨pkt, there, low, high⟩ := all x.toNat (by omega)
    exact ⟨pkt, there, by omega, by omega⟩
  · intro all x less
    obtain ⟨pkt, there, low, high⟩ := all x (by omega) (by omega)
    exact ⟨pkt, there, by omega, by omega⟩

/-- The datagram is not complete, and the queue, if there is one, has what has been received. -/
def Pending (data : List UInt8) (key : Key) (received : List Packet) : Option Ipq → Prop
  | none => received = []
  | some fp => Gathers data key received fp ∧ complete data.length received = false

theorem asFrag_has (admitted : Admitted pkt) (small : data.length ≤ 32767) (piece : Piece data key pkt) :
    Left (Piece data key) (asFrag pkt) ∧ ∀ x, Has (asFrag pkt) x ↔ (pkt.start : Int) ≤ x ∧ x < pkt.start + (Msg.bytes pkt.msg).length := by
  have rest := asFrag_rest admitted piece.uniform
  have stop := piece.stop
  have off : (asFrag pkt).off = pkt.start := by
    rw [rest.off]
    exact (toShort_of_fits ⟨by omega, by omega⟩).trans (Int.add_zero _)
  have len := rest.len
  refine ⟨⟨pkt, 0, piece, admitted, rest⟩, fun x => ?_⟩
  rw [Has, Ipasfrag.stop, off, len]
  omega

theorem covered_cons : Covered (pkt :: received) x ↔
    ((pkt.start : Int) ≤ x ∧ x < pkt.start + (Msg.bytes pkt.msg).length) ∨ Covered received x := by
  simp [Covered, exists_eq_or_imp]

theorem Apart.behind {a : Int} (apart : Apart frags) (inside : ∀ q ∈ frags, 0 ≤ q.len) :
    ∀ q ∈ frags.dropWhile (fun q => q.off ≤ a), a < q.off := by
  induction frags with
  | nil => exact fun q there => by cases there
  | cons first rest ih =>
    have ⟨order, tail⟩ := pairwise_cons.mp apart
    by_cases before : first.off ≤ a
    · rw [List.dropWhile_cons_of_pos (by simpa using before)]
      exact ih tail fun q there => inside q (mem_cons_of_mem _ there)
    · rw [List.dropWhile_cons_of_neg (by simpa using before)]
      intro q there
      rcases mem_cons.mp there with rfl | later
      · omega
      · have after := order q later
        have len := inside first mem_cons_self
        rw [Ipasfrag.stop] at after
        omega

/-- The queue with a fragment put in. -/
theorem insert_gathers {ip' : Ipasfrag} (small : data.length ≤ 32767)
    (gathers : Gathers data key received fp) (admitted : Admitted pkt) (piece : Piece data key pkt)
    (found : trimPrev (fp.frags.takeWhile fun q => q.off ≤ (asFrag pkt).off) (asFrag pkt) = some ip') :
    Gathers data key (pkt :: received) { fp with
      frags := (fp.frags.takeWhile fun q => q.off ≤ (asFrag pkt).off) ++ ip' ::
        trimNext ip' (fp.frags.dropWhile fun q => q.off ≤ (asFrag pkt).off) } := by
  have ⟨left, has⟩ := asFrag_has admitted small piece
  have ⟨trimmed, same⟩ := trimPrev_left left found
  have here := (left.placed small).inside
  have all : fp.frags = (fp.frags.takeWhile fun q => q.off ≤ (asFrag pkt).off) ++
      fp.frags.dropWhile fun q => q.off ≤ (asFrag pkt).off := (List.takeWhile_append_dropWhile).symm
  have first : ∀ q ∈ fp.frags.takeWhile (fun q => q.off ≤ (asFrag pkt).off), q.off ≤ (asFrag pkt).off := fun q there => by
    simpa using List.mem_takeWhile_imp there
  have placed : ∀ q ∈ fp.frags, Placed data q := fun q there => (gathers.described q there).1.placed small
  have behind : ∀ q ∈ fp.frags.dropWhile (fun q => q.off ≤ (asFrag pkt).off), (asFrag pkt).off < q.off :=
    gathers.apart.behind fun q there => (placed q there).inside.len
  have described := gathers.described
  have apart := gathers.apart
  have holds := gathers.holds
  have key' := gathers.key
  unfold Described at described
  generalize fp.frags.takeWhile (fun q => q.off ≤ (asFrag pkt).off) = before at *
  generalize fp.frags.dropWhile (fun q => q.off ≤ (asFrag pkt).off) = after at *
  rw [all] at apart holds described placed
  have ⟨front, back, across⟩ := List.pairwise_append.mp apart
  have small' : (data.length : Int) ≤ 32767 := by omega
  have fronted := trimPrev_fronted small' front (fun q there => (placed q (List.mem_append_left _ there)).inside) here first found
  have backed : Backed data.length ip' after (trimNext ip' after) := trimNext_backed small' back (fun q there => (placed q (List.mem_append_right _ there)).inside)
    fun q there => by
      rcases fronted.first with same | ⟨prev, member, starts⟩
      · have later := behind q there
        omega
      · exact starts ▸ across prev member q there
  refine ⟨fun q there => ?_, key', ?_, by simp, fun x => ?_⟩
  · rcases List.mem_append.mp there with earlier | rest
    · exact described q (List.mem_append_left _ earlier)
    · rcases mem_cons.mp rest with rfl | later
      · exact ⟨trimmed, (same.trans piece.key).trans key'.symm⟩
      · have tail : ∀ q ∈ after, Left (Piece data key) q := fun q there => (described q (List.mem_append_right _ there)).1
        have ⟨left', old, member, name⟩ := trimNext_left tail q later
        exact ⟨left', name.trans (described old (List.mem_append_right _ member)).2⟩
  · refine List.pairwise_append.mpr ⟨front, pairwise_cons.mpr ⟨backed.behind, backed.apart⟩, fun q earlier r rest => ?_⟩
    have before' := fronted.apart q earlier
    rcases mem_cons.mp rest with rfl | later
    · exact before'
    · have next := backed.behind r later
      have len := fronted.inside.len
      rw [Ipasfrag.stop] at next
      omega
  · have mine := fronted.holds x
    have others := backed.holds x
    have old := holds x
    rw [holds_append] at old
    rw [holds_append, holds_cons, covered_cons, ← has x, ← old]
    constructor
    · rintro (held | held | held)
      · exact .inr (.inl held)
      · rcases mine.mpr (.inr held) with earlier | new
        · exact .inr (.inl earlier)
        · exact .inl new
      · rcases others.mpr (.inr held) with new | later
        · rcases mine.mpr (.inr new) with earlier | new
          · exact .inr (.inl earlier)
          · exact .inl new
        · exact .inr (.inr later)
    · rintro (new | earlier | later)
      · rcases mine.mp (.inr new) with earlier | held
        · exact .inl earlier
        · exact .inr (.inl held)
      · exact .inl earlier
      · exact .inr (others.mp (.inr later))

theorem insertFrag_whole (small : data.length ≤ 32767)
    (gathers : Gathers data key received fp) :
    if complete data.length received then ∃ d, insertFrag fp = (some d, none) ∧ Whole data key d
    else ∃ fp', insertFrag fp = (none, some fp') ∧ Pending data key received (some fp') := by
  have holds := gathers.holds
  split <;> rename_i all
  · obtain ⟨d, result⟩ := assemble_covered small gathers.described gathers.apart gathers.some'
      fun x positive less => (holds x).mpr (complete_iff.mp all x positive less)
    exact ⟨d, by rw [insertFrag, result], (assemble_whole small gathers.described gathers.key result).1⟩
  · rw [Bool.not_eq_true] at all
    cases result : assemble fp with
    | some d =>
      have whole := (assemble_whole small gathers.described gathers.key result).2
      have covered := complete_iff.mpr fun x positive less => (holds x).mp (whole x positive less)
      rw [all] at covered
      cases covered
    | none => exact ⟨fp, by rw [insertFrag, result], gathers, all⟩

/-- One fragment of the datagram: it is complete now, or the queue waits for more. -/
theorem ipReass_pending {fp : Option Ipq} (small : data.length ≤ 32767)
    (pending : Pending data key received fp) (admitted : Admitted pkt) (piece : Piece data key pkt) :
    if complete data.length (pkt :: received) then ∃ d, ipReass true (asFrag pkt) fp = (some d, none) ∧ Whole data key d
    else ∃ fp', ipReass true (asFrag pkt) fp = (none, some fp') ∧ Pending data key (pkt :: received) (some fp') := by
  have ⟨left, has⟩ := asFrag_has admitted small piece
  cases fp with
  | none =>
    have first : received = [] := pending
    subst first
    have alone : Gathers data key [pkt] ⟨(asFrag pkt).key, ipfragttl, [asFrag pkt]⟩ := by
      refine ⟨fun q there => ?_, piece.key, List.pairwise_singleton _ _, by simp, fun x => ?_⟩
      · cases List.mem_singleton.mp there
        exact ⟨left, rfl⟩
      · rw [holds_cons, covered_cons, has x]
        exact or_congr_right ⟨fun held => absurd held holds_nil, fun ⟨_, there, _⟩ => by cases there⟩
    have next := insertFrag_whole small alone
    simpa only [ipReass, if_true] using next
  | some fp =>
    obtain ⟨gathers, open'⟩ := pending
    rw [ipReass]
    cases found : trimPrev (fp.frags.takeWhile fun q => q.off ≤ (asFrag pkt).off) (asFrag pkt) with
    | some ip' =>
      have next := insertFrag_whole small (insert_gathers small gathers admitted piece found)
      simpa only [found] using next
    | none =>
      -- all of the fragment has been received before
      have first : ∀ q ∈ fp.frags.takeWhile (fun q => q.off ≤ (asFrag pkt).off), q.off ≤ (asFrag pkt).off := fun q there => by
        simpa using List.mem_takeWhile_imp there
      have had : ∀ x, Covered (pkt :: received) x ↔ Covered received x := by
        intro x
        rw [covered_cons, ← has x]
        refine ⟨fun either => either.elim (fun mine => ?_) id, .inr⟩
        obtain ⟨q, there, held⟩ := trimPrev_none first found x mine
        exact (gathers.holds x).mp ⟨q, (List.takeWhile_sublist _).subset there, held⟩
      have same : complete data.length (pkt :: received) = complete data.length received :=
        Bool.eq_iff_iff.mpr (by simp only [complete_iff, had])
      rw [same, open']
      exact ⟨fp, rfl, ⟨gathers.described, gathers.key, gathers.apart, gathers.some', fun x => (gathers.holds x).trans (had x).symm⟩,
        same.trans open'⟩

/-! ## Sequences of fragments -/

theorem setQueue_filter {old : Ipq} {new : Option Ipq} (single : ipq.filter (fun fp => fp.key = key) = [old])
    (name : ∀ fp, new = some fp → fp.key = key) : (setQueue key new ipq).filter (fun fp => fp.key = key) = new.toList := by
  have mine : new.toList.filter (fun fp => fp.key = key) = new.toList := by
    rw [List.filter_eq_self]
    intro fp there
    simpa using name fp (Option.mem_toList.mp there)
  induction ipq with
  | nil => cases single
  | cons fp rest ih =>
    rw [setQueue]
    by_cases here : fp.key = key
    · rw [List.filter_cons_of_pos (by simpa using here)] at single
      have none := (List.cons.inj single).2
      rw [if_pos here, List.filter_append, mine, none, List.append_nil]
    · rw [List.filter_cons_of_neg (by simpa using here)] at single
      rw [if_neg here, List.filter_cons_of_neg (by simpa using here)]
      exact ih single

theorem find_filter {fp : Option Ipq} (single : ipq.filter (fun fp => fp.key = key) = fp.toList) :
    ipq.find? (fun fp => fp.key = key) = fp := by
  rw [← List.head?_filter, single]
  cases fp <;> rfl

theorem putQueue_filter {old new : Option Ipq} (single : ipq.filter (fun fp => fp.key = key) = old.toList)
    (name : ∀ fp, new = some fp → fp.key = key) : (putQueue key new ipq).filter (fun fp => fp.key = key) = new.toList := by
  rw [putQueue, find_filter single]
  cases old with
  | some old => exact setQueue_filter single name
  | none =>
    have mine : new.toList.filter (fun fp => fp.key = key) = new.toList := by
      rw [List.filter_eq_self]
      intro fp there
      simpa using name fp (Option.mem_toList.mp there)
    simp only [Option.isSome_none, Bool.false_eq_true, if_false]
    rw [List.filter_append, mine, single]
    exact List.append_nil _

/-- The packets one after the other, with all allocations granted. -/
def feed : List Ipq → List Packet → List (Option Received)
  | _, [] => []
  | ipq, pkt :: rest => (ipintr true pkt ipq).1 :: feed (ipintr true pkt ipq).2 rest

/-- When the packets since the last datagram first cover one of `n` bytes. -/
def outcomes (n : Nat) : List Packet → List Packet → List Bool
  | _, [] => []
  | received, pkt :: rest =>
    if complete n (pkt :: received) then true :: outcomes n [] rest else false :: outcomes n (pkt :: received) rest

theorem feed_pending {pkts : List Packet} {fp : Option Ipq} (small : data.length ≤ 32767)
    (single : ipq.filter (fun fp => fp.key = key) = fp.toList) (pending : Pending data key received fp)
    (pieces : ∀ pkt ∈ pkts, Admitted pkt ∧ Piece data key pkt) :
    (feed ipq pkts).map Option.isSome = outcomes data.length received pkts ∧ ∀ d, some d ∈ feed ipq pkts → Whole data key d := by
  induction pkts generalizing received ipq fp with
  | nil => exact ⟨rfl, fun d there => by cases there⟩
  | cons pkt rest ih =>
    have ⟨admitted, piece⟩ := pieces pkt (.head _)
    have others : ∀ pkt ∈ rest, Admitted pkt ∧ Piece data key pkt := fun pkt there => pieces pkt (.tail _ there)
    have result := ipReass_pending small pending admitted piece
    have part := piece.part
    simp only [isFragment, decide_eq_true_eq] at part
    have call : ipintr true pkt ipq = ((ipReass true (asFrag pkt) fp).1, putQueue pkt.key (ipReass true (asFrag pkt) fp).2 ipq) := by
      rw [ipintr]
      simp only [piece.key, find_filter single]
      rw [if_neg part.1, if_pos part.2]
    rw [feed, outcomes, call, piece.key]
    split at result <;> rename_i all
    · obtain ⟨d, done, whole⟩ := result
      rw [done, if_pos all]
      have empty : (putQueue key none ipq).filter (fun fp => fp.key = key) = (none : Option Ipq).toList :=
        putQueue_filter single fun fp same => by cases same
      have waiting : Pending data key [] none := rfl
      have next := ih empty waiting others
      refine ⟨congrArg (true :: ·) next.1, fun d' there => ?_⟩
      rcases mem_cons.mp there with same | later
      · cases same
        exact whole
      · exact next.2 d' later
    · obtain ⟨fp', waits, pending'⟩ := result
      rw [waits, if_neg all]
      have next := ih (putQueue_filter single fun fp same => by cases same; exact pending'.1.key) pending' others
      refine ⟨congrArg (false :: ·) next.1, fun d' there => ?_⟩
      rcases mem_cons.mp there with same | later
      · cases same
      · exact next.2 d' later

/-- The fragments of a datagram give it back when they first cover it, whatever their order and overlaps, and again
each time that they do. -/
theorem feed_reassembles {pkts : List Packet} {ipq : List Ipq} (small : data.length ≤ 32767)
    (fresh : ∀ fp ∈ ipq, fp.key ≠ key) (pieces : ∀ pkt ∈ pkts, Admitted pkt ∧ Piece data key pkt) :
    (feed ipq pkts).map Option.isSome = outcomes data.length [] pkts ∧ ∀ d, some d ∈ feed ipq pkts → Whole data key d := by
  have none' : ipq.filter (fun fp => fp.key = key) = (none : Option Ipq).toList := by
    rw [Option.toList_none, List.filter_eq_nil_iff]
    intro fp there
    simpa using fresh fp there
  exact feed_pending small none' rfl pieces

end

/-! ## Three fragments of twenty bytes -/

def twenty : List UInt8 := (List.range 20).map UInt8.ofNat

/-- The fragment of some bytes of `twenty`, in two blocks. -/
def slice (units n : Nat) (more : Bool) : Packet :=
  { key := oneKey, hl := 5, len := 20 + n, off := BitVec.ofNat 16 units ||| if more then ipMf else 0
    msg := [⟨true, ((twenty.drop (8 * units)).take n).take 5⟩, ⟨true, ((twenty.drop (8 * units)).take n).drop 5⟩] }

/-- The last bytes, some of the first ones, which overlap them, and the rest. -/
def slices : List Packet := [slice 1 12 false, slice 1 8 true, slice 0 16 true]

theorem slices_pieces : ∀ pkt ∈ slices, Admitted pkt ∧ Piece twenty oneKey pkt := by
  intro pkt there
  simp only [slices, mem_cons, List.not_mem_nil, or_false] at there
  rcases there with rfl | rfl | rfl
  · exact ⟨⟨by decide, by decide, by decide⟩, ⟨by unfold Uniform; decide, rfl, by decide, by decide, by decide, by decide⟩⟩
  · exact ⟨⟨by decide, by decide, by decide⟩, ⟨by unfold Uniform; decide, rfl, by decide, by decide, by decide, by decide⟩⟩
  · exact ⟨⟨by decide, by decide, by decide⟩, ⟨by unfold Uniform; decide, rfl, by decide, by decide, by decide, by decide⟩⟩

theorem feed_reassembles_slices :
    (feed [] slices).map Option.isSome = outcomes 20 [] slices ∧ ∀ d, some d ∈ feed [] slices → Whole twenty oneKey d :=
  feed_reassembles (by decide) (fun fp there => by cases there) slices_pieces

example : outcomes 20 [] slices = [false, false, true] := by decide

/-! ## From the sender to the receiver -/

def Header.key (ip : Header) : Key := ⟨ip.id, ip.src, ip.dst, ip.p⟩

/-- A packet has the header of a fragment and its bytes, in any blocks. -/
structure Arrives (f : Fragment) (pkt : Packet) : Prop where
  key : pkt.key = f.ip.key
  hl : pkt.hl = f.ip.hl
  len : pkt.len = f.ip.len
  off : pkt.off = f.ip.off
  bytes : Msg.bytes pkt.msg = f.bytes
  uniform : Uniform pkt

/-- `IPTTLDEC`. -/
def ipttldec : UInt8 := 1

/-- The header of what `ip_forward` sends on, unless its time to live is over. -/
def ipForward (ip : Header) : Option Header := if ip.ttl ≤ ipttldec then none else some { ip with ttl := ip.ttl - ipttldec }

/-- A gateway has taken in a fragment, in any blocks, and sends it on. -/
structure Forwards (f : Fragment) (d : Datagram) : Prop where
  ip : ipForward f.ip = some d.ip
  bytes : d.chain.flatten = f.bytes

/-- One of the fragments that the gateways on a way make of a fragment. -/
inductive Travels : Fragment → Fragment → Prop where
  | here {f : Fragment} : Travels f f
  | gateway {f g h : Fragment} {d : Datagram} {maxtu : Nat} {fs : List Fragment} {error : Option Errno} : Forwards f d →
      ipOutput maxtu d [] = some (fs, error) → g ∈ fs → Travels g h → Travels f h

/-- A fragment arrives, or all that a gateway makes of it. -/
inductive Delivered (pkts : List Packet) : Fragment → Prop where
  | here {f : Fragment} {pkt : Packet} : pkt ∈ pkts → Arrives f pkt → Delivered pkts f
  | gateway {f : Fragment} {d : Datagram} {maxtu : Nat} {fs : List Fragment} : Forwards f d →
      ipOutput maxtu d [] = some (fs, none) → (∀ g ∈ fs, Delivered pkts g) → Delivered pkts f

/-- A header of a datagram with these data, or of a fragment of one, in front of some of the bytes. -/
structure Slice (data : List UInt8) (key : Key) (ip : Header) (bytes : List UInt8) : Prop where
  key : ip.key = key
  hl : ip.hl = 5
  len : ip.len = 20 + bytes.length
  some' : bytes ≠ []
  rest : ∃ tail, data.drop (8 * ip.units) = bytes ++ tail ∧ ip.mf = decide (tail ≠ [])

section
variable {d : Datagram} {data bytes tail : List UInt8} {key : Key} {maxtu pos n : Nat} {fs : List Fragment} {f g : Fragment}
  {ip : Header} {pkt : Packet} {error : Option Errno} {received pkts : List Packet} {ipq : List Ipq}

theorem Slice.stop (slice : Slice data key ip bytes) : 8 * ip.units + bytes.length ≤ data.length := by
  obtain ⟨tail, rest, -⟩ := slice.rest
  have some' := List.length_pos_iff.mpr slice.some'
  have length := congrArg List.length rest
  rw [List.length_drop, List.length_append] at length
  omega

theorem Slice.piece (slice : Slice data key f.ip f.bytes) (arrives : Arrives f pkt) (part : f.bytes.length < data.length)
    (small : data.length ≤ 32747) : Admitted pkt ∧ Piece data key pkt ∧ pkt.start = 8 * f.ip.units := by
  have start : pkt.start = 8 * f.ip.units := by
    rw [Packet.start, arrives.off]
    rfl
  have stop := slice.stop
  have some' := List.length_pos_iff.mpr slice.some'
  have len := slice.len
  have hl := arrives.hl.trans slice.hl
  have size := congrArg List.length arrives.bytes
  obtain ⟨tail, rest, mf⟩ := slice.rest
  have length := congrArg List.length rest
  rw [List.length_drop, List.length_append] at length
  have more : decide (pkt.off &&& ipMf ≠ 0) = decide (pkt.start + (Msg.bytes pkt.msg).length < data.length) := by
    rw [arrives.off, start, size]
    refine mf.trans (decide_eq_decide.mpr ?_)
    rw [← List.length_pos_iff]
    omega
  have admitted : Admitted pkt := ⟨by omega, by rw [arrives.len]; omega, by rw [size, arrives.len]; omega⟩
  have off : (asFrag pkt).off = pkt.start :=
    (asFrag_rest admitted arrives.uniform).off.trans ((toShort_of_fits ⟨by omega, by omega⟩).trans (Int.add_zero _))
  refine ⟨admitted, ⟨arrives.uniform, arrives.key.trans slice.key, by omega, ?_, more, decide_eq_true ⟨fun zero => ?_, ?_⟩⟩, start⟩
  · rw [arrives.bytes, start, rest, List.take_left]
  · have masked {m : BitVec 16} (keeps : ~~~ ipDf &&& m = m) : pkt.off &&& m = 0 := by
      rw [← keeps, ← BitVec.and_assoc, zero]
      exact BitVec.zero_and
    have first : pkt.start = 0 := by rw [Packet.start, masked (by decide)]; rfl
    rw [masked (by decide)] at more
    have last := of_decide_eq_false more.symm
    omega
  · by_cases last : pkt.start + (Msg.bytes pkt.msg).length < data.length
    · exact .inl (more.trans (decide_eq_true last))
    · exact .inr (by omega)

theorem Headed.slice (headed : Headed d maxtu [] pos f) (known : d.ip.key = key) (some' : 0 < f.carries) (aligned : pos % 8 = 0)
    (rest : data.drop (8 * d.ip.units + pos) = f.bytes ++ tail) (mf : f.ip.mf = decide (tail ≠ [])) :
    8 * f.ip.units = 8 * d.ip.units + pos ∧ Slice data key f.ip f.bytes := by
  have units := headed.units
  have header : f.ip.bytes = 20 := by simp [headed.header, headed.options, optionsAt, padded, sizeofIp]
  have len := headed.len
  have place : 8 * f.ip.units = 8 * d.ip.units + pos := by omega
  rw [Fragment.carries] at some'
  refine ⟨place, ?_, ?_, by omega, List.length_pos_iff.mp (by omega), tail, place ▸ rest, mf⟩
  · rw [← known, ← headed.copied]
    rfl
  · rw [Header.bytes] at header
    omega

theorem Partition.slices (partition : Partition d maxtu [] pos bytes fs) (known : d.ip.key = key) (some' : ∀ f ∈ fs, 0 < f.carries)
    (aligned : pos % 8 = 0) (rest : data.drop (8 * d.ip.units + pos) = bytes ++ tail) (mf : d.ip.mf = decide (tail ≠ [])) :
    (∀ f ∈ fs, Slice data key f.ip f.bytes ∧ f.ip.len ≤ maxtu) ∧ ∀ x, 8 * d.ip.units + pos ≤ x →
      x < 8 * d.ip.units + pos + bytes.length → ∃ f ∈ fs, 8 * f.ip.units ≤ x ∧ x < 8 * f.ip.units + f.bytes.length := by
  induction partition with
  | last headed same =>
    obtain ⟨place, slice⟩ := headed.slice known (some' _ mem_cons_self) aligned rest (same.trans mf)
    refine ⟨by simpa using ⟨slice, headed.fits⟩, fun x low high => ⟨_, mem_cons_self, ?_⟩⟩
    omega
  | @more pos bytes f fs headed more eights partition ih =>
    have others : bytes ≠ [] := by
      intro none
      cases partition with
      | last headed' => simpa [Fragment.carries, headed'.len, none] using some' _ (.tail _ mem_cons_self)
      | more headed' => simpa [Fragment.carries, headed'.len, (List.append_eq_nil_iff.mp none).1] using some' _ (.tail _ mem_cons_self)
    rw [List.append_assoc] at rest
    obtain ⟨place, slice⟩ := headed.slice known (some' _ mem_cons_self) aligned rest (by simpa [others] using more)
    have next : data.drop (8 * d.ip.units + (pos + f.bytes.length)) = bytes ++ tail := by
      rw [← Nat.add_assoc, ← List.drop_drop, rest, List.drop_left]
    obtain ⟨pieces, covers⟩ := ih (fun f there => some' f (.tail _ there)) (by omega) next
    refine ⟨List.forall_mem_cons.mpr ⟨⟨slice, headed.fits⟩, pieces⟩, fun x low high => ?_⟩
    rw [List.length_append] at high
    by_cases here : x < 8 * d.ip.units + pos + f.bytes.length
    · exact ⟨f, mem_cons_self, by omega, by omega⟩
    · obtain ⟨f', there, within⟩ := covers x (by omega) (by omega)
      exact ⟨f', .tail _ there, within⟩

theorem Slice.sent (slice : Slice data key d.ip d.chain.flatten) (small : data.length ≤ 32747)
    (sent : ipOutput maxtu d [] = some (fs, error)) :
    (∀ f ∈ fs, Slice data key f.ip f.bytes ∧ f.ip.len ≤ d.ip.len ∧ f.ip.len ≤ maxtu) ∧ (error = none →
      ∀ x, 8 * d.ip.units ≤ x → x < 8 * d.ip.units + d.chain.flatten.length →
        ∃ f ∈ fs, 8 * f.ip.units ≤ x ∧ x < 8 * f.ip.units + f.bytes.length) := by
  have header : d.ip.bytes = 20 := by rw [Header.bytes, slice.hl]
  have all : payload d = d.chain.flatten := by rw [payload, header]; rfl
  have len := slice.len
  have stop := slice.stop
  have hl := slice.hl
  have loop := sent
  unfold ipOutput at loop
  split at loop <;> rename_i large
  · cases loop
    refine ⟨by simpa using ⟨slice, le_rfl, large⟩, fun _ x low high => ⟨_, mem_cons_self, low, high⟩⟩
  · split at loop <;> rename_i whole
    · cases loop
      exact ⟨fun f there => (by cases there), fun none => by cases none⟩
    · dsimp only at loop
      split at loop <;> rename_i room
      · cases loop
        exact ⟨fun f there => (by cases there), fun none => by cases none⟩
      · have opts : optsOf d = [] := by rw [optsOf, header]; rfl
        have well : WellFormed d [] :=
          ⟨by omega, by rw [header]; exact Nat.zero_le _, opts ▸ .nil, len, by omega, by rw [all]; omega⟩
        obtain ⟨fs', sent', partition⟩ := ipOutput_partition well (not_not.mp whole) (Nat.not_le.mp large) (by omega)
        rw [sent] at sent'
        cases sent'
        rw [all, List.take_length] at partition
        obtain ⟨tail, rest, mf⟩ := slice.rest
        obtain ⟨slices, covers⟩ := partition.slices slice.key ((sendFragments_carry well.hl.1 (Nat.zero_le _) loop).2.2 (by omega)) rfl rest mf
        exact ⟨fun f there => ⟨(slices f there).1, by have := (slices f there).2; omega, (slices f there).2⟩, fun _ => covers⟩

theorem Slice.forwarded (slice : Slice data key f.ip f.bytes) (forwards : Forwards f d) :
    Slice data key d.ip d.chain.flatten ∧ d.ip.len = f.ip.len ∧ d.ip.units = f.ip.units := by
  have taken := forwards.ip
  unfold ipForward at taken
  split at taken
  · cases taken
  · rw [forwards.bytes, ← Option.some.inj taken]
    exact ⟨⟨slice.key, slice.hl, slice.len, slice.some', slice.rest⟩, rfl, rfl⟩

theorem Travels.slice (travels : Travels f g) (small : data.length ≤ 32747) (slice : Slice data key f.ip f.bytes) :
    Slice data key g.ip g.bytes ∧ g.ip.len ≤ f.ip.len := by
  induction travels with
  | here => exact ⟨slice, le_rfl⟩
  | gateway forwards sent there _ ih =>
    obtain ⟨taken, len, -⟩ := slice.forwarded forwards
    have ⟨made, shorter, _⟩ := (taken.sent small sent).1 _ there
    exact ⟨(ih made).1, (ih made).2.trans (shorter.trans len.le)⟩

theorem Delivered.covers (delivered : Delivered pkts f) (small : data.length ≤ 32747) (slice : Slice data key f.ip f.bytes)
    (part : f.bytes.length < data.length) {x : Nat} (low : 8 * f.ip.units ≤ x) (high : x < 8 * f.ip.units + f.bytes.length) :
    ∃ pkt ∈ pkts, pkt.start ≤ x ∧ x < pkt.start + (Msg.bytes pkt.msg).length := by
  induction delivered with
  | here there arrives =>
    have start := (slice.piece arrives part small).2.2
    exact ⟨_, there, by omega, by rw [arrives.bytes]; omega⟩
  | @gateway f d maxtu fs forwards sent _ ih =>
    obtain ⟨taken, len, units⟩ := slice.forwarded forwards
    obtain ⟨made, covers⟩ := taken.sent small sent
    rw [← units] at low high
    obtain ⟨g, there, low', high'⟩ := covers rfl x low (by rw [forwards.bytes]; exact high)
    have ⟨made', shorter, _⟩ := made g there
    exact ih g there made' (by have := made'.len; have := slice.len; omega) low' high'

/-- Packets that never cover the datagram. -/
theorem outcomes_open (none : true ∉ outcomes n received pkts) (part : complete n received = false) :
    complete n (pkts.reverse ++ received) = false := by
  induction pkts generalizing received with
  | nil => exact part
  | cons pkt pkts ih =>
    rw [outcomes] at none
    split at none
    · exact absurd mem_cons_self none
    · rename_i open'
      rw [List.reverse_cons, List.append_assoc]
      exact ih (fun there => none (.tail _ there)) (Bool.eq_false_iff.mpr open')

/-- A datagram of 24 bytes that is not a fragment. -/
def unbroken : Datagram := ⟨{ someHeader 5 44 with off := 0 }, plain.chain⟩

end

end Svr4.Ip
