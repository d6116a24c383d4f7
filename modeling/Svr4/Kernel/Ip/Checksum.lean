import Svr4.Kernel.Ip

/-! `in_cksum`: the sum of a chain of blocks whose bytes begin anywhere and come in any number. -/

namespace Svr4.Ip.Checksum

/-- A message block: where its bytes begin, and the bytes up to `b_wptr`. -/
structure Mblk where
  bRptr : Nat
  bytes : Block
  deriving DecidableEq

/-- An addition to the 32-bit accumulator. Where it wraps there is no result. -/
def plus (sum w : Nat) : Option Nat := if sum + w < 4294967296 then some (sum + w) else none

/-- The carries above sixteen bits are added at the bottom. -/
def carried (sum : Nat) : Nat := sum % 65536 + sum / 65536

/-- The loop that runs until there is no carry. -/
def fold (sum : Nat) : Nat := if sum < 65536 then sum else fold (carried sum)
termination_by sum
decreasing_by
  unfold carried
  omega

def swapped (sum : Nat) : Nat := ((sum &&& 0xff) <<< 8) ||| (sum >>> 8)

/-- A byte outside the words of its block turns the byte order around. -/
def single (sum : Nat) (byte : UInt8) : Option Nat := (plus (swapped sum) byte.toNat).map carried

/-- The loop over the words of a block; it leaves one byte of an odd number. -/
def addWords : Nat → List UInt8 → Option (Nat × List UInt8)
  | sum, high :: low :: w => (plus sum (high.toNat * 256 + low.toNat)).bind fun sum => addWords sum w
  | sum, w => some (sum, w)

/-- The bytes of a block that begin at an even address. -/
def addEven (sum : Nat) (fswap : Bool) (w : List UInt8) : Option (Nat × Bool) := do
  let (sum, left) ← addWords sum w
  match left with
  | [] => some (fold sum, fswap)
  | byte :: _ => (single (fold sum) byte).map (·, !fswap)

/-- The bytes of a block; the first of them may be at an odd address. -/
def addBlock (sum : Nat) (fswap : Bool) (bRptr : Nat) (w : List UInt8) : Option (Nat × Bool) :=
  match bRptr % 2, w with
  | 1, byte :: w => (single sum byte).bind fun sum => addEven sum (!fswap) w
  | _, w => addEven sum fswap w

/-- The loop over the blocks. One that ends before `len` does is a panic. -/
def inCksumFrom : Nat → Bool → List Mblk → Nat → Option Nat
  | sum, fswap, _, 0 =>
    let sum := if fswap then swapped sum else sum
    some ((4294967295 - sum) % 65536)
  | _, _, [], _ + 1 => none
  | sum, fswap, mp :: rest, len + 1 => do
    let w := mp.bytes.take (len + 1)
    let (sum, fswap) ← addBlock sum fswap mp.bRptr w
    inCksumFrom sum fswap rest (len + 1 - w.length)

def inCksum (mp : List Mblk) (len : Nat) : Option Nat := inCksumFrom 0 false mp len

/-- The 16-bit words of a string, which a zero byte fills up. -/
def words : List UInt8 → List Nat
  | high :: low :: rest => (high.toNat * 256 + low.toNat) :: words rest
  | [high] => [high.toNat * 256]
  | [] => []

/-- The one's complement sum. -/
def onesSum (ws : List Nat) : Nat := ws.foldl (fun sum w => carried (sum + w)) 0

/-! ## The sum and the number that the bytes write -/

/-- The number that bytes go on with. -/
def number (v : Nat) (bytes : List UInt8) : Nat := bytes.foldl (fun v byte => 256 * v + byte.toNat) v

/-- A sum stands for a number: they agree but for multiples of 65535, and zero stands for zero alone. -/
structure Stands (sum v : Nat) : Prop where
  residue : sum % 65535 = v % 65535
  zero : sum = 0 ↔ v = 0

section
variable {sum v n len : Nat} {fswap : Bool} {w : List UInt8} {byte : UInt8}

theorem Stands.unique {other : Nat} (stands : Stands sum v) (stands' : Stands other v) (small : sum < 65536) (small' : other < 65536) :
    sum = other := by
  obtain ⟨residue, zero⟩ := stands
  obtain ⟨residue', zero'⟩ := stands'
  omega

theorem Stands.carried (stands : Stands sum v) : Stands (carried sum) v := by
  obtain ⟨residue, zero⟩ := stands
  unfold Checksum.carried
  constructor
  · omega
  · omega

theorem Stands.word {high low : UInt8} (stands : Stands sum v) :
    Stands (sum + (high.toNat * 256 + low.toNat)) (256 * (256 * v + high.toNat) + low.toNat) := by
  obtain ⟨residue, zero⟩ := stands
  constructor
  · omega
  · omega

theorem fold_stands (stands : Stands sum v) : Stands (fold sum) v ∧ fold sum < 65536 := by
  induction sum using fold.induct with
  | case1 sum small =>
    rw [fold, if_pos small]
    exact ⟨stands, small⟩
  | case2 sum large ih =>
    rw [fold, if_neg large]
    exact ih stands.carried

theorem swapped_eq (small : sum < 65536) : swapped sum = sum % 256 * 256 + sum / 256 := by
  have high : sum >>> 8 < 2 ^ 8 := by
    rw [Nat.shiftRight_eq_div_pow]
    omega
  rw [swapped, ← Nat.shiftLeft_add_eq_or_of_lt high, Nat.shiftLeft_eq, Nat.shiftRight_eq_div_pow]
  exact congrArg (· * 256 + sum / 256) (Nat.and_two_pow_sub_one_eq_mod sum 8)

/-- Other byte order is a byte more. -/
theorem Stands.swapped (stands : Stands sum v) (small : sum < 65536) : Stands (swapped sum) (256 * v) ∧ swapped sum < 65536 := by
  obtain ⟨residue, zero⟩ := stands
  rw [swapped_eq small]
  refine ⟨⟨?_, ?_⟩, ?_⟩
  · omega
  · omega
  · omega

theorem single_stands (stands : Stands sum v) (small : sum < 65536) :
    ∃ sum', single sum byte = some sum' ∧ Stands sum' (256 * v + byte.toNat) ∧ sum' < 65536 := by
  obtain ⟨⟨residue, zero⟩, below⟩ := stands.swapped small
  have own := byte.toNat_lt
  have added : Stands (Checksum.swapped sum + byte.toNat) (256 * v + byte.toNat) := ⟨by omega, by omega⟩
  refine ⟨carried (Checksum.swapped sum + byte.toNat), ?_, added.carried, ?_⟩
  · rw [single, plus, if_pos (by omega), Option.map_some]
  · unfold carried
    omega

theorem addWords_stands (stands : Stands sum v) (fits : sum + 32768 * w.length < 4294967296) :
    ∃ sum' left v', addWords sum w = some (sum', left) ∧ Stands sum' v' ∧ number v w = number v' left ∧
      left.length = w.length % 2 := by
  induction w using words.induct generalizing sum v with
  | case1 high low w ih =>
    have own := high.toNat_lt
    have own' := low.toNat_lt
    simp only [List.length_cons] at fits ⊢
    obtain ⟨sum', left, v', result, more⟩ := ih (@Stands.word _ _ high low stands) (by omega)
    refine ⟨sum', left, v', ?_, ?_⟩
    · rw [addWords, plus, if_pos (by omega), Option.bind_some, result]
    · rwa [Nat.add_assoc, Nat.add_mod_right]
  | case2 high => exact ⟨sum, [high], v, rfl, stands, rfl, rfl⟩
  | case3 => exact ⟨sum, [], v, rfl, stands, rfl, rfl⟩

/-- After `n` bytes the sum stands for their number, in the other byte order when there was an odd number of them. -/
structure Sums (sum : Nat) (fswap : Bool) (v n : Nat) : Prop where
  stands : Stands sum v
  small : sum < 65536
  order : fswap = decide (n % 2 = 1)

theorem turned (order : fswap = decide (n % 2 = 1)) : (!fswap) = decide ((n + 1) % 2 = 1) := by
  rw [order, ← decide_not, decide_eq_decide]
  omega

theorem addEven_sums (sums : Sums sum fswap v n) (short : w.length ≤ 65535) :
    ∃ sum' fswap', addEven sum fswap w = some (sum', fswap') ∧ Sums sum' fswap' (number v w) (n + w.length) := by
  obtain ⟨stands, small, order⟩ := sums
  obtain ⟨sum', left, v', result, stands', rest, length⟩ := addWords_stands (w := w) stands (by omega)
  obtain ⟨stands', small'⟩ := fold_stands stands'
  simp only [addEven, result, Option.bind_eq_bind, Option.bind_some, rest]
  cases left with
  | nil =>
    refine ⟨_, _, rfl, stands', small', order.trans (decide_eq_decide.mpr ?_)⟩
    have even : 0 = w.length % 2 := length
    omega
  | cons byte left =>
    have odd : left.length + 1 = w.length % 2 := length
    obtain rfl : left = [] := List.eq_nil_of_length_eq_zero (by omega)
    obtain ⟨last, added, stands'', small''⟩ := @single_stands _ _ byte stands' small'
    refine ⟨last, !fswap, congrArg (Option.map _) added, stands'', small'', (turned order).trans (decide_eq_decide.mpr ?_)⟩
    omega

theorem addBlock_sums (sums : Sums sum fswap v n) (bRptr : Nat) (short : w.length ≤ 65535) :
    ∃ sum' fswap', addBlock sum fswap bRptr w = some (sum', fswap') ∧ Sums sum' fswap' (number v w) (n + w.length) := by
  unfold addBlock
  split
  · next byte w _ =>
    obtain ⟨sum', added, stands, small⟩ := @single_stands _ _ byte sums.stands sums.small
    rw [added, Option.bind_some, List.length_cons, Nat.add_comm w.length, ← Nat.add_assoc]
    exact addEven_sums ⟨stands, small, turned sums.order⟩ (Nat.le_of_succ_le short)
  · exact addEven_sums sums short

/-- The words of a string and the bytes of it, with a zero byte behind an odd number, stand for the same. -/
theorem words_stand (stands : Stands sum v) (small : sum < 65536) :
    Stands ((words w).foldl (fun sum w => carried (sum + w)) sum) (if w.length % 2 = 1 then 256 * number v w else number v w) ∧
      (words w).foldl (fun sum w => carried (sum + w)) sum < 65536 := by
  induction w using words.induct generalizing sum v with
  | case1 high low w ih =>
    have own := high.toNat_lt
    have own' := low.toNat_lt
    rw [List.length_cons, List.length_cons, Nat.add_assoc, Nat.add_mod_right]
    refine ih (@Stands.word _ _ high low stands).carried ?_
    dsimp only [carried]
    omega
  | case2 high =>
    have own := high.toNat_lt
    have padded : Stands (sum + high.toNat * 256) (256 * (256 * v + high.toNat)) := by
      simpa using @Stands.word _ _ high 0 stands
    refine ⟨padded.carried, ?_⟩
    simp only [words, List.foldl_cons, List.foldl_nil, carried]
    omega
  | case3 => exact ⟨stands, small⟩

theorem ended {bytes : List UInt8} (sums : Sums sum fswap (number 0 bytes) bytes.length) :
    (4294967295 - if fswap then swapped sum else sum) % 65536 = 65535 - onesSum (words bytes) := by
  obtain ⟨stands, small, rfl⟩ := sums
  obtain ⟨whole, below⟩ := @words_stand 0 0 bytes ⟨rfl, Iff.rfl⟩ (by decide)
  have last : (if decide (bytes.length % 2 = 1) then swapped sum else sum) = onesSum (words bytes) := by
    by_cases odd : bytes.length % 2 = 1
    · rw [if_pos (decide_eq_true odd)]
      rw [if_pos odd] at whole
      exact (stands.swapped small).1.unique whole (stands.swapped small).2 below
    · rw [if_neg (by simpa using odd)]
      rw [if_neg odd] at whole
      exact stands.unique whole small below
  rw [last]
  unfold onesSum
  omega

theorem inCksumFrom_eq {bytes : List UInt8} {blocks : List Mblk} (sums : Sums sum fswap (number 0 bytes) bytes.length)
    (short : len ≤ 65535) (enough : len ≤ (blocks.flatMap Mblk.bytes).length) :
    inCksumFrom sum fswap blocks len = some (65535 - onesSum (words (bytes ++ (blocks.flatMap Mblk.bytes).take len))) := by
  induction blocks generalizing sum fswap bytes len with
  | nil =>
    obtain rfl : len = 0 := Nat.le_zero.mp enough
    rw [List.take_zero, List.append_nil, inCksumFrom, ended sums]
  | cons mp rest ih =>
    cases len with
    | zero => rw [List.take_zero, List.append_nil, inCksumFrom, ended sums]
    | succ len =>
      have taken : (mp.bytes.take (len + 1)).length = min (len + 1) mp.bytes.length := List.length_take
      obtain ⟨sum', fswap', added, sums'⟩ := addBlock_sums (w := mp.bytes.take (len + 1)) sums mp.bRptr (by omega)
      rw [List.flatMap_cons, List.length_append] at enough
      rw [← List.length_append, number, number, ← List.foldl_append] at sums'
      simp only [inCksumFrom, added, Option.bind_eq_bind, Option.bind_some]
      have same : len + 1 - (mp.bytes.take (len + 1)).length = len + 1 - mp.bytes.length := by omega
      rw [ih sums' (by omega) (by omega), List.flatMap_cons, List.take_append, List.append_assoc, same]

end

/-- For every chain of blocks, wherever their bytes begin. -/
theorem inCksum_eq (mp : List Mblk) {len : Nat} (short : len ≤ 65535) (enough : len ≤ (mp.flatMap Mblk.bytes).length) :
    inCksum mp len = some (65535 - onesSum (words ((mp.flatMap Mblk.bytes).take len))) :=
  @inCksumFrom_eq 0 len false [] mp ⟨⟨rfl, Iff.rfl⟩, by decide, rfl⟩ short enough

theorem inCksum_odd : inCksum [⟨1, [0x12]⟩, ⟨4, []⟩, ⟨7, [0x34, 0x56]⟩] 3 = some 0x97cb :=
  (inCksum_eq _ (by decide) (by decide)).trans (by decide)

end Svr4.Ip.Checksum
