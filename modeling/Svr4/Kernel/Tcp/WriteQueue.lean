import Svr4.Kernel.Tcp

/-! The write queue: copies of a part of its data, and what is acknowledged is dropped. -/

namespace Svr4.Tcp

open List (flatten_cons drop_append nil_append length_append)

/-- The data of the queue. -/
def qbytes (q : List (List Block)) : List UInt8 := q.flatten.flatten

/-- The first loop of `tcp_dupblks` in one message: the block with the byte at `off`. -/
def seekBlock : Nat → List Block → Nat × List Block
  | off, [] => (off, [])
  | off, b :: rest => if b.length ≤ off then seekBlock (off - b.length) rest else (off, b :: rest)

/-- The blocks from that one on, of its message and of the messages behind it. -/
def seek : Nat → List (List Block) → Option (Nat × List Block)
  | _, [] => none
  | off, m :: q =>
    match seekBlock off m with
    | (off, []) => seek off q
    | (off, b :: rest) => some (off, (b :: rest) ++ q.flatten)

inductive Dup where
  | failed
  | panicked
  | blocks (bs : List Block)
  deriving DecidableEq, Repr

/-- The second loop. `len` counts what the blocks before have left. -/
def dupRest : List Bool → Int → List Block → Dup × List Bool
  | alloc, len, bs =>
    if len ≤ 0 then (.blocks [], alloc)
    else
      match bs with
      | [] => (.panicked, alloc)
      | b :: rest =>
        match grant alloc with
        | (false, alloc) => (.failed, alloc)
        | (true, alloc) =>
          match dupRest alloc (len - b.length) rest with
          -- The last block is cut to the right size.
          | (.blocks bs, alloc) => (.blocks (b.take len.toNat :: bs), alloc)
          | other => other

/-- `tcp_dupblks`. More than three blocks are pulled up into one, unless that fails. -/
def tcpDupblks (alloc : List Bool) (q : List (List Block)) (off len : Nat) : Dup × List Bool :=
  match seek off q with
  | none => (.failed, alloc)
  | some (_, []) => (.failed, alloc)
  | some (off, b :: rest) =>
    match grant alloc with
    | (false, alloc) => (.failed, alloc)
    | (true, alloc) =>
      match dupRest alloc ((len : Int) - (b.drop off).length) rest with
      | (.blocks bs, alloc) =>
        let all := (b.drop off).take len :: bs
        if 3 < all.length then
          match grant alloc with
          | (true, alloc) => (.blocks [all.flatten], alloc)
          | (false, alloc) => (.blocks all, alloc)
        else (.blocks all, alloc)
      | other => other

/-- The inner loop of `tcp_qdrop`: what is still to be dropped, and what is left of the message. -/
def dropBlocks : Nat → List Block → Nat × List Block
  | len, [] => (len, [])
  | len, b :: rest => if b.length ≤ len then dropBlocks (len - b.length) rest else (0, b.drop len :: rest)

/-- `tcp_qdrop`. -/
def tcpQdrop : Nat → List (List Block) → List (List Block)
  | _, [] => []
  | len, m :: q =>
    if len = 0 then m :: q
    else
      match dropBlocks len m with
      | (len, []) => tcpQdrop len q
      -- `putbq`.
      | (_, b :: rest) => (b :: rest) :: q

/-! ## What they do -/

theorem seekBlock_drop (off : Nat) (bs : List Block) :
    (seekBlock off bs).2.flatten.drop (seekBlock off bs).1 = bs.flatten.drop off ∧
      ((seekBlock off bs).2 = [] → (seekBlock off bs).1 = off - bs.flatten.length ∧ bs.flatten.length ≤ off) := by
  induction bs generalizing off with
  | nil => simp [seekBlock]
  | cons b rest ih =>
    unfold seekBlock
    split
    · next past =>
      have ⟨same, ended⟩ := ih (off - b.length)
      refine ⟨?_, fun nil => ?_⟩
      · rw [same, flatten_cons, drop_append, List.drop_eq_nil_of_le past, nil_append]
      · have ⟨left, most⟩ := ended nil
        rw [flatten_cons, length_append, left]
        omega
    · exact ⟨rfl, nofun⟩

theorem seekBlock_inside (off : Nat) (bs : List Block) {b : Block} {rest : List Block} (found : (seekBlock off bs).2 = b :: rest) :
    (seekBlock off bs).1 < b.length := by
  induction bs generalizing off with
  | nil => cases found
  | cons head tail ih =>
    unfold seekBlock at found ⊢
    split at found
    · next past =>
      rw [if_pos past]
      exact ih _ found
    · next inside =>
      rw [if_neg inside]
      cases found
      omega

theorem seek_spec (off : Nat) (q : List (List Block)) (inside : off < (qbytes q).length) :
    ∃ left b rest, seek off q = some (left, b :: rest) ∧ left < b.length ∧ (b :: rest).flatten.drop left = (qbytes q).drop off := by
  induction q generalizing off with
  | nil => simp [qbytes] at inside
  | cons m q ih =>
    have ⟨same, ended⟩ := seekBlock_drop off m
    have split : qbytes (m :: q) = m.flatten ++ qbytes q := by simp [qbytes]
    unfold seek
    cases found : (seekBlock off m).2 with
    | nil =>
      have ⟨left, most⟩ := ended found
      have pair : seekBlock off m = (off - m.flatten.length, []) := Prod.ext left found
      rw [split, length_append] at inside
      obtain ⟨left, b, rest, next, room, data⟩ := ih (off - m.flatten.length) (by omega)
      refine ⟨left, b, rest, ?_, room, ?_⟩
      · rw [pair]
        exact next
      · rw [data, split, drop_append, List.drop_eq_nil_of_le most, nil_append]
    | cons b rest =>
      have room := seekBlock_inside off m found
      have pair : seekBlock off m = ((seekBlock off m).1, b :: rest) := Prod.ext rfl found
      refine ⟨(seekBlock off m).1, b, rest ++ q.flatten, ?_, room, ?_⟩
      · rw [pair]
        rfl
      · rw [found] at same
        have shape : (b :: (rest ++ q.flatten)).flatten = (b :: rest).flatten ++ qbytes q := by simp [qbytes]
        have short : (seekBlock off m).1 ≤ (b :: rest).flatten.length := by
          rw [flatten_cons, length_append]
          omega
        have most : off ≤ m.flatten.length := by
          have lengths := congrArg List.length same
          rw [List.length_drop, List.length_drop, flatten_cons, length_append] at lengths
          omega
        rw [shape, split, List.drop_append_of_le_length short, List.drop_append_of_le_length most, same]

theorem grant_failed {alloc : List Bool} (failed : (grant alloc).1 = false) : false ∈ alloc := by
  cases alloc with
  | nil => cases failed
  | cons ok alloc =>
    have failed : ok = false := failed
    rw [failed]
    exact .head _

theorem grant_suffix (alloc : List Bool) : (grant alloc).2 <:+ alloc := by
  cases alloc with
  | nil => exact List.suffix_rfl
  | cons ok alloc => exact List.suffix_cons ok alloc

theorem dupRest_spec (alloc : List Bool) (len : Int) (bs : List Block) (room : len ≤ bs.flatten.length) :
    (dupRest alloc len bs).1 = .failed ∧ false ∈ alloc ∨
      ∃ copy, (dupRest alloc len bs).1 = .blocks copy ∧ copy.flatten = bs.flatten.take len.toNat := by
  induction bs generalizing alloc len with
  | nil =>
    unfold dupRest
    rw [List.flatten_nil, List.length_nil] at room
    rw [if_pos (by omega)]
    exact .inr ⟨[], rfl, by simp⟩
  | cons b rest ih =>
    unfold dupRest
    split
    · next none =>
      refine .inr ⟨[], rfl, ?_⟩
      rw [Int.toNat_of_nonpos none]
      rfl
    · next some =>
      rw [flatten_cons, length_append] at room
      rcases granted : grant alloc with ⟨ok, alloc'⟩
      have sub : alloc' <:+ alloc := by
        have := grant_suffix alloc
        rwa [granted] at this
      cases ok with
      | false => exact .inl ⟨rfl, grant_failed (congrArg Prod.fst granted)⟩
      | true =>
        rcases later : dupRest alloc' (len - b.length) rest with ⟨result, alloc''⟩
        have next := ih alloc' (len - b.length) (by omega)
        rw [later] at next
        obtain ⟨failed, short⟩ | ⟨copy, copied, data⟩ := next
        · have failed : result = .failed := failed
          subst failed
          left
          simp only [later, true_and]
          exact sub.subset short
        · have copied : result = .blocks copy := copied
          subst copied
          right
          refine ⟨b.take len.toNat :: copy, by simp only [later], ?_⟩
          have left : (len - b.length).toNat = len.toNat - b.length := by omega
          rw [flatten_cons, flatten_cons, data, left, List.take_append]

theorem tcpDupblks_spec (alloc : List Bool) (q : List (List Block)) (off len : Nat) (some : 0 < len) (room : off + len ≤ (qbytes q).length) :
    (tcpDupblks alloc q off len).1 = .failed ∧ false ∈ alloc ∨
      ∃ copy, (tcpDupblks alloc q off len).1 = .blocks copy ∧ copy.flatten = ((qbytes q).drop off).take len := by
  obtain ⟨left, b, rest, found, inside, data⟩ := seek_spec off q (by omega)
  unfold tcpDupblks
  rw [found]
  rcases granted : grant alloc with ⟨ok, alloc'⟩
  have sub : alloc' <:+ alloc := by
    have := grant_suffix alloc
    rwa [granted] at this
  cases ok with
  | false => exact .inl ⟨rfl, grant_failed (congrArg Prod.fst granted)⟩
  | true =>
    have tail : (b :: rest).flatten.drop left = b.drop left ++ rest.flatten := by
      rw [flatten_cons, List.drop_append_of_le_length inside.le]
    have size : len ≤ (b.drop left).length + rest.flatten.length := by
      rw [← length_append, ← tail, data, List.length_drop]
      omega
    have next := dupRest_spec alloc' ((len : Int) - (b.drop left).length) rest (by omega)
    rcases later : dupRest alloc' ((len : Int) - (b.drop left).length) rest with ⟨result, alloc''⟩
    rw [later] at next
    obtain ⟨failed, short⟩ | ⟨copy, copied, bytes⟩ := next
    · have failed : result = .failed := failed
      subst failed
      left
      simp only [later, true_and]
      exact sub.subset short
    · have copied : result = .blocks copy := copied
      subst copied
      right
      have whole : ((b.drop left).take len :: copy).flatten = ((qbytes q).drop off).take len := by
        have rem : ((len : Int) - (b.drop left).length).toNat = len - (b.drop left).length := by omega
        rw [flatten_cons, bytes, rem, ← List.take_append, ← tail, data]
      simp only [later]
      split
      · rcases pulled : grant alloc'' with ⟨ok, alloc3⟩
        cases ok with
        | true => exact ⟨_, rfl, by rw [List.flatten_singleton, whole]⟩
        | false => exact ⟨_, rfl, whole⟩
      · exact ⟨_, rfl, whole⟩

variable {copy : List Block}

theorem dupRest_length (alloc : List Bool) (len : Int) (bs : List Block)
    (copied : (dupRest alloc len bs).1 = .blocks copy) : copy.flatten.length = len.toNat := by
  induction bs generalizing alloc len copy with
  | nil =>
    unfold dupRest at copied
    split at copied
    · next none =>
      cases copied
      rw [Int.toNat_of_nonpos none]
      rfl
    · cases copied
  | cons b rest ih =>
    unfold dupRest at copied
    split at copied
    · next none =>
      cases copied
      rw [Int.toNat_of_nonpos none]
      rfl
    · next some =>
      rcases granted : grant alloc with ⟨ok, alloc'⟩
      rw [granted] at copied
      cases ok with
      | false => cases copied
      | true =>
        rcases later : dupRest alloc' (len - b.length) rest with ⟨result, alloc''⟩
        simp only [later] at copied
        cases result with
        | failed => cases copied
        | panicked => cases copied
        | blocks bs =>
          cases copied
          have size := ih alloc' (len - b.length) (congrArg Prod.fst later)
          rw [flatten_cons, length_append, List.length_take, size]
          omega

theorem tcpDupblks_length (alloc : List Bool) (q : List (List Block)) (off len : Nat)
    (copied : (tcpDupblks alloc q off len).1 = .blocks copy) : copy.flatten.length = len := by
  unfold tcpDupblks at copied
  split at copied
  · cases copied
  · cases copied
  · next left b rest found =>
    rcases granted : grant alloc with ⟨ok, alloc'⟩
    rw [granted] at copied
    cases ok with
    | false => cases copied
    | true =>
      rcases later : dupRest alloc' ((len : Int) - (b.drop left).length) rest with ⟨result, alloc''⟩
      simp only [later] at copied
      cases result with
      | failed => cases copied
      | panicked => cases copied
      | blocks bs =>
        have size := dupRest_length alloc' ((len : Int) - (b.drop left).length) rest (congrArg Prod.fst later)
        have whole : ((b.drop left).take len :: bs).flatten.length = len := by
          rw [flatten_cons, length_append, List.length_take, size]
          omega
        simp only [] at copied
        split at copied
        · rcases pulled : grant alloc'' with ⟨ok, alloc3⟩
          rw [pulled] at copied
          cases ok with
          | true =>
            cases copied
            rwa [List.flatten_singleton]
          | false =>
            cases copied
            exact whole
        · cases copied
          exact whole

theorem dropBlocks_spec (len : Nat) (bs : List Block) :
    (dropBlocks len bs).2.flatten = bs.flatten.drop len ∧
      ((dropBlocks len bs).2 = [] → (dropBlocks len bs).1 = len - bs.flatten.length ∧ bs.flatten.length ≤ len) ∧
      ((dropBlocks len bs).2 ≠ [] → len ≤ bs.flatten.length) := by
  induction bs generalizing len with
  | nil => simp [dropBlocks]
  | cons b rest ih =>
    unfold dropBlocks
    rw [flatten_cons, length_append]
    split
    · next past =>
      have ⟨same, ended, short⟩ := ih (len - b.length)
      refine ⟨?_, fun nil => ?_, fun cons => ?_⟩
      · rw [same, drop_append, List.drop_eq_nil_of_le past, nil_append]
      · have ⟨left, most⟩ := ended nil
        omega
      · have most := short cons
        omega
    · next inside =>
      refine ⟨?_, nofun, fun _ => by omega⟩
      rw [flatten_cons, List.drop_append_of_le_length (by omega)]

theorem tcpQdrop_spec (len : Nat) (q : List (List Block)) : qbytes (tcpQdrop len q) = (qbytes q).drop len := by
  induction q generalizing len with
  | nil => simp [tcpQdrop, qbytes]
  | cons m q ih =>
    have split : qbytes (m :: q) = m.flatten ++ qbytes q := by simp [qbytes]
    unfold tcpQdrop
    split_ifs with none
    · rw [none, List.drop_zero]
    · have ⟨same, ended, short⟩ := dropBlocks_spec len m
      rcases dropped : dropBlocks len m with ⟨left, rest⟩
      rw [dropped] at same ended short
      cases rest with
      | nil =>
        have ⟨less, most⟩ := ended rfl
        have less : left = len - m.flatten.length := less
        simp only [less]
        rw [ih, split, drop_append, List.drop_eq_nil_of_le most, nil_append]
      | cons b rest =>
        have most := short (List.cons_ne_nil b rest)
        have same : (b :: rest).flatten = m.flatten.drop len := same
        have shape : qbytes ((b :: rest) :: q) = (b :: rest).flatten ++ qbytes q := by simp [qbytes]
        rw [shape, split, List.drop_append_of_le_length most, same]

end Svr4.Tcp
