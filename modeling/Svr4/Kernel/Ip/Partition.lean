import Mathlib.Algebra.Order.BigOperators.Group.List
import Mathlib.Algebra.Order.Ring.Nat
import Mathlib.Data.Nat.Bitwise
import Svr4.Kernel.Ip.Output

/-! The fragments of a datagram: which bytes they carry, and what their headers say of them. -/

namespace Svr4.Ip

open List (flatten_cons length_append flatten_nil headD_cons length_drop length_cons)
open BitVec (toNat_and getElem_and getElem_not getElem_or ofNat)

/-! ## The bytes that are duplicated -/

section
variable {off len : Nat} {blocks : List Block}

theorem skipBlocks_spec (off : Nat) (blocks : List Block) (inside : off < blocks.flatten.length) :
    ∃ bp rest off', skipBlocks off blocks = some (off', bp :: rest) ∧ off' ≤ bp.length ∧
      (bp :: rest).flatten.drop off' = blocks.flatten.drop off := by
  induction blocks generalizing off with
  | nil => cases inside
  | cons bp rest ih =>
    rw [skipBlocks]
    rw [flatten_cons, length_append] at inside
    split <;> rename_i past
    · obtain ⟨bp', rest', off', skips, short, same⟩ := ih (off - bp.length) (by omega)
      refine ⟨bp', rest', off', skips, short, same.trans ?_⟩
      rw [flatten_cons, List.drop_append, List.drop_of_length_le past.2, List.nil_append]
    · refine ⟨bp, rest, off, rfl, ?_, rfl⟩
      omega

theorem dupBlocks_spec (off len : Nat) (blocks : List Block) (short : off ≤ (blocks.headD []).length) (inside : off + len ≤ blocks.flatten.length) :
    ∃ copy, dupBlocks [] off len blocks = some (some copy, []) ∧ copy.flatten = (blocks.flatten.drop off).take len := by
  induction blocks generalizing off len with
  | nil =>
    have none : len = 0 := by
      rw [flatten_nil, List.length_nil] at inside
      omega
    subst none
    exact ⟨[], by rw [dupBlocks], by rw [List.take_zero, flatten_nil]⟩
  | cons bp rest ih =>
    cases len with
    | zero => exact ⟨[], by rw [dupBlocks], by rw [List.take_zero, flatten_nil]⟩
    | succ len =>
      rw [flatten_cons, length_append] at inside
      rw [headD_cons] at short
      obtain ⟨copy, copies, bytes⟩ := ih 0 (len + 1 - min (len + 1) (bp.length - off)) (Nat.zero_le _) (by omega)
      refine ⟨(bp.drop off).take (min (len + 1) (bp.length - off)) :: copy, ?_, ?_⟩
      · simp [dupBlocks, allocated, copies]
      · rw [flatten_cons, flatten_cons, bytes, List.drop_zero, List.drop_append_of_le_length short,
          List.take_append, length_drop]
        congr 1
        · rcases Nat.le_total (len + 1) (bp.length - off) with less | more
          · rw [Nat.min_eq_left less]
          · rw [Nat.min_eq_right more, ← length_drop, List.take_length, List.take_of_length_le]
            rw [length_drop]
            exact more
        · congr 1
          omega

theorem dupRange_spec (off len : Nat) (blocks : List Block) (inside : off + len ≤ blocks.flatten.length) (some' : 0 < len) :
    ∃ copy, dupRange [] off len blocks = some (some copy, []) ∧ copy.flatten = (blocks.flatten.drop off).take len := by
  obtain ⟨bp, rest, off', skips, short, same⟩ := skipBlocks_spec off blocks (by omega)
  have lengths := congrArg List.length same
  rw [length_drop, length_drop] at lengths
  obtain ⟨copy, copies, bytes⟩ := dupBlocks_spec off' len (bp :: rest) short (by omega)
  refine ⟨copy, ?_, bytes.trans (congrArg (List.take len) same)⟩
  rw [dupRange, skips]
  exact copies

end

/-! ## The options of a fragment -/

/-- Options that are well formed, and their bytes one by one. -/
inductive Parsed : List UInt8 → List (List UInt8) → Prop where
  | nil : Parsed [] []
  | eol (rest : List UInt8) : Parsed (0 :: rest) []
  | nop {rest : List UInt8} {options : List (List UInt8)} : Parsed rest options → Parsed (1 :: rest) ([1] :: options)
  | option {kind olen : UInt8} {data rest : List UInt8} {options : List (List UInt8)} :
      kind ≠ 0 → kind ≠ 1 → olen.toNat = data.length + 2 → Parsed rest options →
      Parsed (kind :: olen :: (data ++ rest)) ((kind :: olen :: data) :: options)

/-- The first fragment has all options, the others those that are marked to be copied. -/
def carried (off : Nat) (option : List UInt8) : Bool := off = 0 ∨ option.headD 0 &&& 0x80 ≠ 0

def optionsAt (off : Nat) (options : List (List UInt8)) : List UInt8 := padded (options.filter (carried off)).flatten

theorem optcopyFrom_option (off fuel n : Nat) (option after : List UInt8) (more : option.headD 0 ≠ 0)
    (size : (if option.headD 0 = 1 then 1 else ((option ++ after).getD 1 0).toNat) = option.length) (some' : 0 < option.length) :
    optcopyFrom off (fuel + 1) (option ++ after) (option.length + n) =
      (optcopyFrom off fuel after n).map ((if carried off option then option else []) ++ ·) := by
  obtain ⟨kind, data, rfl⟩ := List.exists_cons_of_length_pos some'
  have count : (kind :: data).length + n = (data.length + n) + 1 := by
    rw [length_cons]
    omega
  have within : ¬ data.length + n + 1 < (kind :: data).length := by
    rw [length_cons]
    omega
  have some'' : ¬ ((kind :: data) ++ after).headD 0 = 0 := more
  have left : data.length + n + 1 - (kind :: data).length = n := by
    rw [length_cons]
    omega
  have first : (if ((kind :: data) ++ after).headD 0 = 1 then 1 else (((kind :: data) ++ after).getD 1 0).toNat) =
      (kind :: data).length := size
  rw [count, optcopyFrom]
  simp only [if_neg some'', first, if_neg within, left, List.drop_left, List.take_left, carried, decide_eq_true_eq]
  rfl

variable {opts : List UInt8} {options : List (List UInt8)}

theorem optcopyFrom_spec {off fuel : Nat} {after : List UInt8} (parsed : Parsed opts options)
    (enough : opts.length ≤ fuel) :
    optcopyFrom off fuel (opts ++ after) opts.length = some (options.filter (carried off)).flatten := by
  induction parsed generalizing fuel with
  | nil => cases fuel <;> rfl
  | eol rest =>
    cases fuel with
    | zero => cases enough
    | succ fuel => rfl
  | @nop rest options _ ih =>
    cases fuel with
    | zero => cases enough
    | succ fuel =>
      have next := ih (Nat.le_of_succ_le_succ enough)
      have step := optcopyFrom_option off fuel rest.length [1] (rest ++ after) (by decide) rfl Nat.zero_lt_one
      rw [next, Option.map_some] at step
      have count : (1 :: rest).length = [(1 : UInt8)].length + rest.length := Nat.add_comm _ _
      rw [count]
      refine step.trans ?_
      rw [List.filter_cons]
      cases carried off [1] <;> rfl
  | @option kind olen data rest options named other counted _ ih =>
    cases fuel with
    | zero => cases enough
    | succ fuel =>
      rw [length_cons, length_cons, length_append] at enough
      have shorter : rest.length ≤ fuel := by omega
      have next := ih shorter
      have step := optcopyFrom_option off fuel rest.length (kind :: olen :: data) (rest ++ after) named (by rw [headD_cons, if_neg other]; exact counted) (Nat.succ_pos _)
      rw [next, Option.map_some] at step
      have count : (kind :: olen :: (data ++ rest)).length = (kind :: olen :: data).length + rest.length := by
        simp only [length_cons, length_append]
        omega
      have bytes : kind :: olen :: (data ++ rest) ++ after = (kind :: olen :: data) ++ (rest ++ after) := by
        simp [List.append_assoc]
      rw [count, bytes]
      refine step.trans ?_
      rw [List.filter_cons]
      cases carried off (kind :: olen :: data) <;> rfl

theorem Parsed.length (parsed : Parsed opts options) :
    options.flatten.length ≤ opts.length := by
  induction parsed with
  | nil => exact le_rfl
  | eol rest => exact Nat.zero_le _
  | nop _ ih =>
    rw [flatten_cons, length_append, length_cons, length_cons]
    simp only [List.length_nil]
    omega
  | option _ _ _ _ ih =>
    rw [flatten_cons, length_append]
    simp only [length_cons, length_append]
    omega

theorem padded_length (options : List UInt8) :
    (padded options).length % 4 = 0 ∧ (padded options).length < options.length + 4 := by
  rw [padded, length_append, List.length_replicate]
  omega

theorem optionsAt_length (parsed : Parsed opts options)
    (words : opts.length % 4 = 0) (off : Nat) : (optionsAt off options).length ≤ opts.length := by
  have all := parsed.length
  have fewer : (options.filter (carried off)).flatten.length ≤ options.flatten.length := by
    rw [List.length_flatten, List.length_flatten]
    exact List.Sublist.sum_le_sum (List.filter_sublist.map List.length) fun _ _ => Nat.zero_le _
  have pad := padded_length (options.filter (carried off)).flatten
  rw [optionsAt]
  omega

/-! ## The word of offset and flags -/

section
variable (w : BitVec 16)

theorem units_mod : (w &&& 0x1fff).toNat = w.toNat % 8192 := by
  rw [toNat_and]
  exact Nat.and_two_pow_sub_one_eq_mod w.toNat 13

theorem mf_bit : (w &&& ipMf).toNat = 8192 * (w.toNat / 8192 % 2) := by
  rw [toNat_and, ipMf]
  change w.toNat &&& 2 ^ 13 = _
  rw [Nat.and_two_pow, Nat.testBit_eq_decide_div_mod_eq, Nat.mul_comm]
  rcases Nat.mod_two_eq_zero_or_one (w.toNat / 8192) with even | odd
  · rw [even]
    rfl
  · rw [odd]
    rfl

theorem mf_iff : w &&& ipMf ≠ 0 ↔ w.toNat / 8192 % 2 = 1 := by
  rw [ne_eq, ← BitVec.toNat_inj, mf_bit]
  have zero : (0 : BitVec 16).toNat = 0 := rfl
  rw [zero]
  omega

theorem split_mf : (w &&& ~~~ ipMf) &&& (w &&& ipMf) = 0#16 ∧ (w &&& ~~~ ipMf) ||| (w &&& ipMf) = w := by
  constructor
  · ext i
    simp only [getElem_and, getElem_not, BitVec.getElem_zero]
    cases w[i] <;> cases ipMf[i] <;> rfl
  · ext i
    simp only [getElem_or, getElem_and, getElem_not]
    cases w[i] <;> cases ipMf[i] <;> rfl

theorem clear_mf : (w &&& ~~~ ipMf).toNat + 8192 * (w.toNat / 8192 % 2) = w.toNat := by
  have ⟨apart, all⟩ := split_mf w
  have sum := BitVec.toNat_add_of_and_eq_zero apart
  rw [BitVec.add_eq_or_of_and_eq_zero _ _ apart, all, mf_bit] at sum
  exact sum.symm

theorem set_mf : (w ||| ipMf).toNat = (w &&& ~~~ ipMf).toNat + 8192 := by
  have apart : (w &&& ~~~ ipMf) &&& ipMf = 0#16 := by
    ext i
    simp only [getElem_and, getElem_not, BitVec.getElem_zero]
    cases w[i] <;> cases ipMf[i] <;> rfl
  have all : (w &&& ~~~ ipMf) ||| ipMf = w ||| ipMf := by
    ext i
    simp only [getElem_or, getElem_and, getElem_not]
    cases w[i] <;> cases ipMf[i] <;> rfl
  have sum := BitVec.toNat_add_of_and_eq_zero apart
  rw [BitVec.add_eq_or_of_and_eq_zero _ _ apart, all] at sum
  exact sum

end

/-! ## The fragments -/

/-- The options of a datagram, which lie in its first block. -/
def optsOf (d : Datagram) : List UInt8 := (d.chain.headD []).take (d.ip.bytes - sizeofIp)

def payload (d : Datagram) : List UInt8 := d.chain.flatten.drop (d.ip.bytes - sizeofIp)

/-- A datagram, or a fragment of one, that ends within the longest one there is. -/
structure WellFormed (d : Datagram) (options : List (List UInt8)) : Prop where
  hl : 5 ≤ d.ip.hl ∧ d.ip.hl ≤ 15
  head : d.ip.bytes - sizeofIp ≤ (d.chain.headD []).length
  parsed : Parsed (optsOf d) options
  len : d.ip.len = sizeofIp + d.chain.flatten.length
  short : d.ip.len ≤ 32767
  ends : 8 * d.ip.units + (payload d).length ≤ 65535

/-- The bytes that a fragment carries. -/
def Fragment.bytes (f : Fragment) : List UInt8 := f.blocks.flatten

/-- What the header of a fragment says, whose bytes begin at `pos`. -/
structure Headed (d : Datagram) (maxtu : Nat) (options : List (List UInt8)) (pos : Nat) (f : Fragment) : Prop where
  units : f.ip.units = d.ip.units + pos / 8
  options : f.options = optionsAt pos options
  header : f.ip.bytes = sizeofIp + f.options.length
  len : f.ip.len = f.ip.bytes + f.bytes.length
  fits : f.ip.len ≤ maxtu
  copied : { f.ip with hl := d.ip.hl, len := d.ip.len, off := d.ip.off } = d.ip

/-- The fragments carry the bytes from `pos` on, one after the other. -/
inductive Partition (d : Datagram) (maxtu : Nat) (options : List (List UInt8)) : Nat → List UInt8 → List Fragment → Prop where
  | last {pos : Nat} {f : Fragment} : Headed d maxtu options pos f → f.ip.mf = d.ip.mf →
      Partition d maxtu options pos f.bytes [f]
  | more {pos : Nat} {bytes : List UInt8} {f : Fragment} {rest : List Fragment} : Headed d maxtu options pos f →
      f.ip.mf = true → f.bytes.length % 8 = 0 → Partition d maxtu options (pos + f.bytes.length) bytes rest →
      Partition d maxtu options pos (f.bytes ++ bytes) (f :: rest)

section
variable {d : Datagram} {maxtu pos off len total : Nat} {options : List (List UInt8)} {bytes : List UInt8} {fs : List Fragment}

theorem Partition.bytes_eq (partition : Partition d maxtu options pos bytes fs) : bytes = (fs.map Fragment.bytes).flatten := by
  induction partition with
  | last _ _ => exact (List.append_nil _).symm
  | more _ _ _ _ ih => rw [List.map_cons, flatten_cons, ← ih]

theorem WellFormed.opts_length (well : WellFormed d options) : (optsOf d).length = d.ip.bytes - sizeofIp := by
  rw [optsOf, List.length_take]
  have head := well.head
  omega

theorem WellFormed.optionsFor (well : WellFormed d options) (off : Nat) :
    optionsFor d off = some (optionsAt off options) := by
  have count := well.opts_length
  have parsed := well.parsed
  unfold Ip.optionsFor
  split <;> rename_i with'
  · rw [ipOptcopy]
    have whole : d.chain.headD [] = optsOf d ++ (d.chain.headD []).drop (d.ip.bytes - sizeofIp) :=
      (List.take_append_drop _ _).symm
    rw [whole, ← count, optcopyFrom_spec parsed le_rfl]
    rfl
  · have none : optsOf d = [] := List.eq_nil_of_length_eq_zero (by omega)
    rw [none] at parsed
    cases parsed
    simp [optionsAt, padded]

/-- The word a fragment is sent with: the offset, and the flag that there is more. -/
def fragWord (ip : Header) (off : Nat) : BitVec 16 :=
  if ip.mf then ofNat 16 (off / 8) + (ip.off &&& ~~~ ipMf) ||| ipMf else ofNat 16 (off / 8) + (ip.off &&& ~~~ ipMf)

theorem fragWord_spec (ip : Header) (inside : 8 * ip.units + off < 65536) :
    (fragWord ip off).toNat % 8192 = ip.units + off / 8 ∧ (fragWord ip off).toNat / 8192 % 2 = if ip.mf then 1 else 0 := by
  have clear := clear_mf ip.off
  have units : ip.units = ip.off.toNat % 8192 := units_mod ip.off
  have plain : (ofNat 16 (off / 8) + (ip.off &&& ~~~ ipMf)).toNat = off / 8 + (ip.off &&& ~~~ ipMf).toNat := by
    rw [BitVec.toNat_add, BitVec.toNat_ofNat]
    omega
  unfold fragWord
  cases ip.mf with
  | false =>
    simp only [Bool.false_eq_true, if_false]
    rw [plain]
    omega
  | true =>
    have set := set_mf (ofNat 16 (off / 8) + (ip.off &&& ~~~ ipMf))
    have cleared := clear_mf (ofNat 16 (off / 8) + (ip.off &&& ~~~ ipMf))
    simp only [if_true]
    omega

theorem mf_eq (w : BitVec 16) : decide (w &&& ipMf ≠ 0) = decide (w.toNat / 8192 % 2 = 1) := by
  rw [decide_eq_decide]
  exact mf_iff w

theorem fragHeader_headed (well : WellFormed d options) {blocks : List Block}
    (size : blocks.flatten.length = if total ≤ off + len then total - off else len) (room : d.ip.bytes + len ≤ maxtu)
    (inside : 8 * d.ip.units + off < 65536) :
    Headed d maxtu options off ⟨fragHeader d.ip (optionsAt off options) total off len, optionsAt off options, blocks⟩ := by
  have ⟨spec, _⟩ := fragWord_spec d.ip inside
  have words := (padded_length (options.filter (carried off)).flatten).1
  have count := well.opts_length
  have hl := well.hl
  have hlen : d.ip.bytes = 4 * d.ip.hl := rfl
  have base : sizeofIp = 20 := rfl
  have fewer := optionsAt_length well.parsed (by omega) off
  have header : (fragHeader d.ip (optionsAt off options) total off len).bytes = sizeofIp + (optionsAt off options).length := by
    have words' : (optionsAt off options).length % 4 = 0 := words
    have hl' : (fragHeader d.ip (optionsAt off options) total off len).hl =
        if sizeofIp < d.ip.bytes then (sizeofIp + (optionsAt off options).length) / 4 else d.ip.hl := rfl
    rw [Header.bytes, hl']
    by_cases with' : sizeofIp < d.ip.bytes
    · rw [if_pos with']
      omega
    · rw [if_neg with']
      omega
  have bytes : (fragHeader d.ip (optionsAt off options) total off len).len =
      (fragHeader d.ip (optionsAt off options) total off len).bytes + blocks.flatten.length := by
    rw [header, size]
    exact Nat.add_comm _ _
  refine ⟨?_, rfl, header, bytes, ?_, rfl⟩
  · rw [Header.units, units_mod]
    change (if total ≤ off + len then fragWord d.ip off else fragWord d.ip off ||| ipMf).toNat % 8192 = _
    split
    · exact spec
    · have set := set_mf (fragWord d.ip off)
      have cleared := clear_mf (fragWord d.ip off)
      omega
  · rw [bytes, header, size]
    split <;> omega

theorem fragHeader_mf (d : Datagram) (opts : List UInt8) (total off len : Nat) (inside : 8 * d.ip.units + off < 65536) :
    (fragHeader d.ip opts total off len).mf = if total ≤ off + len then d.ip.mf else true := by
  have ⟨_, spec⟩ := fragWord_spec d.ip inside
  rw [Header.mf, mf_eq]
  change decide ((if total ≤ off + len then fragWord d.ip off else fragWord d.ip off ||| ipMf).toNat / 8192 % 2 = 1) = _
  split
  · rw [spec]
    cases d.ip.mf <;> rfl
  · have set := set_mf (fragWord d.ip off)
    have cleared := clear_mf (fragWord d.ip off)
    rw [decide_eq_true_eq]
    omega

theorem sendFragments_partition (len total : Nat) (well : WellFormed d options) (room : d.ip.bytes + len ≤ maxtu) (eight : 8 ≤ len)
    (eights : len % 8 = 0) (ends : 8 * d.ip.units + total < 65536) (covers : total ≤ d.chain.flatten.length) (fuel : Nat) :
    ∀ off, off % 8 = 0 → off < total → total - off < fuel → ∃ fs, sendFragments d total len fuel off [] = some (fs, none) ∧
      Partition d maxtu options off ((d.chain.flatten.drop off).take (total - off)) fs := by
  induction fuel with
  | zero => exact nofun
  | succ fuel ih =>
    intro off aligned inside enough
    have more : ¬ total ≤ off := by omega
    have within : 8 * d.ip.units + off < 65536 := by omega
    have positive : 0 < if total ≤ off + len then total - off else len := by
      split <;> omega
    obtain ⟨blocks, copies, bytes⟩ := dupRange_spec off (if total ≤ off + len then total - off else len) d.chain
      (by split <;> omega) positive
    have size : blocks.flatten.length = if total ≤ off + len then total - off else len := by
      rw [bytes, List.length_take, length_drop]
      split <;> omega
    have headed := fragHeader_headed well size room within
    have flag := fragHeader_mf d (optionsAt off options) total off len within
    have turn : sendFragments d total len (fuel + 1) off [] =
        (sendFragments d total len fuel (off + if total ≤ off + len then total - off else len) []).map fun result =>
          (⟨fragHeader d.ip (optionsAt off options) total off len, optionsAt off options, blocks⟩ :: result.1, result.2) := by
      rw [sendFragments]
      simp [if_neg more, allocated, well.optionsFor off, copies]
    rw [turn]
    by_cases last : total ≤ off + len
    · rw [if_pos last] at size bytes flag ⊢
      obtain ⟨fuel, rfl⟩ : ∃ fuel', fuel = fuel' + 1 := ⟨fuel - 1, by omega⟩
      have stops : sendFragments d total len (fuel + 1) (off + (total - off)) [] = some ([], none) := by
        rw [sendFragments, if_pos (by omega)]
      refine ⟨_, by rw [stops]; rfl, ?_⟩
      rw [← bytes]
      exact .last headed flag
    · rw [if_neg last] at size bytes flag ⊢
      obtain ⟨fs, rest, partition⟩ := ih (off + len) (by omega) (by omega) (by omega)
      refine ⟨_, by rw [rest]; rfl, ?_⟩
      have split' : (d.chain.flatten.drop off).take (total - off) =
          blocks.flatten ++ (d.chain.flatten.drop (off + len)).take (total - (off + len)) := by
        rw [bytes, ← List.drop_drop, show total - off = len + (total - (off + len)) by omega, List.take_add]
      rw [split']
      exact .more headed flag (by rw [Fragment.bytes, size]; exact eights) (by rw [Fragment.bytes, size]; exact partition)

/-- Every datagram that may be fragmented, and every interface with room for eight bytes of data: the fragments
carry the bytes behind the twenty of the fixed header, as many as there are data. -/
theorem ipOutput_partition (well : WellFormed d options) (whole : d.ip.off &&& ipDf = 0) (large : maxtu < d.ip.len)
    (room : d.ip.bytes + 8 ≤ maxtu) :
    ∃ fs, ipOutput maxtu d [] = some (fs, none) ∧
      Partition d maxtu options 0 (d.chain.flatten.take (payload d).length) fs := by
  have hl := well.hl
  have hlen : d.ip.bytes = 4 * d.ip.hl := rfl
  have base : sizeofIp = 20 := rfl
  have lengths := well.len
  have ends := well.ends
  have size : (payload d).length = d.chain.flatten.length - (d.ip.bytes - sizeofIp) := length_drop
  have total : d.ip.len - d.ip.bytes = (payload d).length := by omega
  have eight : ¬ (maxtu - d.ip.bytes) / 8 * 8 < 8 := by omega
  have some' : 0 < (payload d).length := by omega
  obtain ⟨fs, sent, partition⟩ := sendFragments_partition ((maxtu - d.ip.bytes) / 8 * 8) (payload d).length well
    (show _ ≤ maxtu by omega) (by omega) (by omega) (by omega) (by omega) ((payload d).length + 1) 0 rfl some'
    (by omega)
  refine ⟨fs, ?_, by simpa using partition⟩
  unfold ipOutput
  rw [if_neg (by omega), if_neg (by simpa using whole)]
  simp only [if_neg eight, total]
  exact sent

/-- The fragments are a partition of the data, if and only if the options and the data behind them begin with the data:
as they do where there are no options. -/
theorem ipOutput_partition_iff (well : WellFormed d options) (whole : d.ip.off &&& ipDf = 0) (large : maxtu < d.ip.len)
    (room : d.ip.bytes + 8 ≤ maxtu) :
    ∃ fs, ipOutput maxtu d [] = some (fs, none) ∧
      (Partition d maxtu options 0 (payload d) fs ↔ (optsOf d ++ payload d).take (payload d).length = payload d) := by
  obtain ⟨fs, sent, partition⟩ := ipOutput_partition well whole large room
  have chain : optsOf d ++ payload d = d.chain.flatten := by
    have head := well.head
    rw [payload, optsOf]
    cases blocks : d.chain with
    | nil => rw [List.headD_nil, List.take_nil, flatten_nil, List.drop_nil, List.append_nil]
    | cons bp rest =>
      rw [blocks, headD_cons] at head
      rw [headD_cons, flatten_cons, List.drop_append, Nat.sub_eq_zero_of_le head, List.drop_zero,
        ← List.append_assoc, List.take_append_drop]
  refine ⟨fs, sent, ?_⟩
  rw [chain]
  constructor
  · intro data
    exact partition.bytes_eq.trans data.bytes_eq.symm
  · intro same
    rwa [same] at partition

end

/-! ## Datagrams of 24 bytes of data -/

def dataBytes : List UInt8 := (List.range 24).map UInt8.ofNat

/-- The header of a first fragment, at offset 8. -/
def someHeader (hl len : Nat) : Header :=
  { hl := hl, tos := 0, len := len, id := 77, off := 0x2001, ttl := 30, p := 17, src := 1, dst := 2 }

/-- A datagram without options, in two blocks. -/
def plain : Datagram := ⟨someHeader 5 44, [dataBytes.take 11, dataBytes.drop 11]⟩

theorem plain_well : WellFormed plain [] := ⟨by decide, by decide, .nil, by decide, by decide, by decide⟩

/-- Two fragments, of 16 and of 8 bytes. -/
theorem ipOutput_partition_iff_plain :
    ∃ fs, ipOutput 36 plain [] = some (fs, none) ∧
      (Partition plain 36 [] 0 (payload plain) fs ↔ (optsOf plain ++ payload plain).take (payload plain).length = payload plain) :=
  ipOutput_partition_iff plain_well (by decide) (by decide) (by decide)

/-- A datagram with the options no operation, three times, and end of list. -/
def optioned : Datagram := ⟨someHeader 6 48, [[1, 1, 1, 0] ++ dataBytes.take 11, dataBytes.drop 11]⟩

theorem optioned_well : WellFormed optioned [[1], [1], [1]] :=
  ⟨by decide, by decide, .nop (.nop (.nop (.eol []))), by decide, by decide, by decide⟩

/-- The fragments carry the options in front of the data, and the last four bytes of the data are lost. -/
theorem optioned_shifted :
    WellFormed optioned [[1], [1], [1]] ∧ optioned.ip.off &&& ipDf = 0 ∧ optioned.ip.bytes + 8 ≤ 40 ∧
      ∃ fs, ipOutput 40 optioned [] = some (fs, none) ∧ (fs.map Fragment.bytes).flatten = [1, 1, 1, 0] ++ dataBytes.take 20 ∧
        ¬ Partition optioned 40 [[1], [1], [1]] 0 (payload optioned) fs := by
  refine ⟨optioned_well, by decide, by decide, ((ipOutput 40 optioned []).getD ([], none)).1, by decide +kernel, by decide +kernel, ?_⟩
  intro partition
  exact absurd partition.bytes_eq (by decide +kernel)

end Svr4.Ip
