import Mathlib.Tactic.Ring

/-! Memory of bytes: numbers, the most significant byte first, and copies. -/

namespace Svr4

abbrev Memory := Nat → UInt8

namespace Memory

/-- The number in `k` bytes. -/
def fetch (m : Memory) (o : Nat) : Nat → Nat
  | 0 => 0
  | k + 1 => fetch m o k * 256 + (m (o + k)).toNat

def store (m : Memory) (o k v : Nat) : Memory := fun i =>
  if o ≤ i ∧ i < o + k then UInt8.ofNat (v / 256 ^ (o + k - 1 - i)) else m i

def bytes (m : Memory) (o n : Nat) : List UInt8 := (List.range n).map fun i => m (o + i)

/-- `n` bytes from a list, which is followed by zeros. -/
def put (m : Memory) (o : Nat) (list : List UInt8) (n : Nat) : Memory := fun i =>
  if o ≤ i ∧ i < o + n then list.getD (i - o) 0 else m i

def copy (m : Memory) (src dst n : Nat) : Memory := fun i =>
  if dst ≤ i ∧ i < dst + n then m (src + (i - dst)) else m i

variable {m m' : Memory} {o o' k n v : Nat} {i : Nat} {list : List UInt8}

theorem fetch_congr (same : ∀ i < k, m' (o' + i) = m (o + i)) : m'.fetch o' k = m.fetch o k := by
  induction k with
  | zero => rfl
  | succ k ih =>
    rw [fetch, fetch, ih fun i less => same i (Nat.lt_succ_of_lt less), same k (Nat.lt_succ_self k)]

theorem store_of_lt (less : i < o) : m.store o k v i = m i := if_neg fun inside => by omega

theorem store_of_le (above : o + k ≤ i) : m.store o k v i = m i := if_neg fun inside => by omega

/-- The first `j` bytes that are stored. -/
theorem fetch_store_part {j : Nat} (part : j ≤ k) : (m.store o k v).fetch o j % 256 ^ j = v / 256 ^ (k - j) % 256 ^ j := by
  induction j with
  | zero => simp [fetch, Nat.mod_one]
  | succ j ih =>
    have before := ih (Nat.le_of_succ_le part)
    have byte : (m.store o k v (o + j)).toNat = v / 256 ^ (k - (j + 1)) % 256 := by
      rw [store, if_pos ⟨Nat.le_add_right o j, by omega⟩, UInt8.toNat_ofNat']
      rw [show o + k - 1 - (o + j) = k - (j + 1) by omega]
    rw [fetch, byte]
    have power : 256 ^ (k - j) = 256 ^ (k - (j + 1)) * 256 := by rw [← pow_succ]; congr 1; omega
    rw [power, ← Nat.div_div_eq_div_mul] at before
    generalize v / 256 ^ (k - (j + 1)) = w at before ⊢
    rw [pow_succ, Nat.mul_comm (256 ^ j) 256, Nat.mod_mul, Nat.mod_mul]
    have low : ((m.store o k v).fetch o j * 256 + w % 256) % 256 = w % 256 := by omega
    have high : ((m.store o k v).fetch o j * 256 + w % 256) / 256 = (m.store o k v).fetch o j := by omega
    rw [low, high, before]

theorem fetch_lt : m.fetch o k < 256 ^ k := by
  induction k with
  | zero => simp [fetch]
  | succ k ih =>
    have byte := (m (o + k)).toNat_lt
    rw [fetch, pow_succ]
    omega

theorem fetch_store (small : v < 256 ^ k) : (m.store o k v).fetch o k = v := by
  have whole := (@fetch_store_part m o k v k) (Nat.le_refl k)
  rw [Nat.mod_eq_of_lt fetch_lt, Nat.sub_self, pow_zero, Nat.div_one, Nat.mod_eq_of_lt small] at whole
  exact whole

theorem bytes_congr (same : ∀ i < n, m' (o' + i) = m (o + i)) : m'.bytes o' n = m.bytes o n :=
  List.map_congr_left fun i member => same i (List.mem_range.mp member)

@[simp] theorem bytes_length : (m.bytes o n).length = n := by simp [bytes]

theorem bytes_put (room : list.length ≤ n) : (m.put o list n).bytes o list.length = list := by
  refine List.ext_getElem bytes_length fun i _ less => ?_
  simp only [bytes, List.getElem_map, List.getElem_range, put]
  rw [if_pos ⟨Nat.le_add_right o i, by omega⟩, Nat.add_sub_cancel_left]
  exact (List.getElem_eq_getD 0).symm

theorem put_of_lt (less : i < o) : m.put o list n i = m i := if_neg fun inside => by omega

theorem put_of_le (above : o + n ≤ i) : m.put o list n i = m i := if_neg fun inside => by omega

end Memory

end Svr4
