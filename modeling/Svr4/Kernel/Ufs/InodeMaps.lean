import Svr4.Foundation.Counting
import Svr4.Kernel.Ufs.Inodes

/-! The inode maps and their counts over whole runs.

`ialloccg` always finds a clear bit when the counts say there is one. The counts of free inodes
are exact; the counts of directories are as long as what `ialloccg` counts is what the
inode becomes.
-/

namespace Svr4.Ufs

/-! ## Bits -/

theorem getLsbD_bit (k l : Nat) : (1#8 <<< k).getLsbD l = (decide (k < 8) && decide (k = l)) := by
  rw [← BitVec.twoPow_eq, BitVec.getLsbD_twoPow]

theorem and_bit_eq_zero {x : BitVec 8} {k : Nat} (small : k < 8) : x &&& (1#8 <<< k) = 0 ↔ x.getLsbD k = false := by
  constructor
  · intro zero
    have bit := congrArg (BitVec.getLsbD · k) zero
    simpa [getLsbD_bit, small] using bit
  · intro clear
    apply BitVec.eq_of_getLsbD_eq
    intro l _
    by_cases same : k = l
    · subst same
      simp [clear]
    · rw [BitVec.getLsbD_and, getLsbD_bit]
      simp [same]

section
variable {a : Bytes} {i j : Nat}

theorem isclr_iff : isclr a i ↔ (a (i / 8)).getLsbD (i % 8) = false := and_bit_eq_zero (Nat.mod_lt _ (by decide))

theorem isclr_setbit : isclr (setbit a i) j ↔ j ≠ i ∧ isclr a j := by
  have small : i % 8 < 8 := Nat.mod_lt _ (by decide)
  rw [isclr_iff, isclr_iff, setbit, nbby, Function.update_apply]
  split
  · next same =>
    rw [BitVec.getLsbD_or, getLsbD_bit, same]
    by_cases bit : i % 8 = j % 8
    · have here : j = i := by omega
      simp [here, small]
    · have other : j ≠ i := fun same => bit (by rw [same])
      simp [bit, other]
  · next apart =>
    have other : j ≠ i := fun same => apart (by rw [same])
    simp [other]

theorem isclr_clrbit : isclr (clrbit a i) j ↔ j = i ∨ isclr a j := by
  have small : i % 8 < 8 := Nat.mod_lt _ (by decide)
  rw [isclr_iff, isclr_iff, clrbit, nbby, Function.update_apply]
  split
  · next same =>
    rw [BitVec.getLsbD_and, BitVec.getLsbD_not, getLsbD_bit, same]
    by_cases bit : i % 8 = j % 8
    · have here : j = i := by omega
      simp [here, small]
    · have other : j ≠ i := fun same => bit (by rw [same])
      simp [bit, other, Nat.mod_lt]
  · next apart =>
    have other : j ≠ i := fun same => apart (by rw [same])
    simp [other]

theorem ne_ones_of_isclr (clear : isclr a i) : a (i / 8) ≠ 0xff := by
  intro ones
  rw [isclr_iff, ones] at clear
  have small : i % 8 < 8 := Nat.mod_lt _ (by decide)
  generalize i % 8 = k at clear small
  revert clear
  revert k
  decide

end

/-! ## Scanning -/

section
variable {a : Bytes} {c map : BitVec 8} {len cp n k : Nat}

theorem skpc_zero (zero : skpc c a len cp = 0) : ∀ i, cp ≤ i → i < cp + len → a i = c := by
  induction len generalizing cp with
  | zero =>
    intro i low high
    omega
  | succ len ih =>
    unfold skpc at zero
    split at zero
    · next same =>
      intro i low high
      by_cases first : i = cp
      · rw [first]
        exact same
      · exact ih zero i (by omega) (by omega)
    · cases zero

theorem skpc_found (found : skpc c a len cp ≠ 0) : a (cp + len - skpc c a len cp) ≠ c := by
  induction len generalizing cp with
  | zero => exact absurd rfl found
  | succ len ih =>
    unfold skpc at found ⊢
    split at found
    · next same =>
      rw [if_pos same]
      have rest := ih found
      rwa [Nat.add_assoc, Nat.add_comm 1] at rest
    · next differ =>
      rw [if_neg differ, Nat.add_sub_cancel]
      exact differ

theorem clearBit_some {j : Nat} (found : clearBit map n k = some j) : k ≤ j ∧ j < k + n ∧ map &&& (1#8 <<< j) = 0 := by
  induction n generalizing k with
  | zero => cases found
  | succ n ih =>
    unfold clearBit at found
    split at found
    · next zero =>
      obtain rfl := Option.some.inj found
      exact ⟨Nat.le_refl k, by omega, zero⟩
    · obtain ⟨low, high, zero⟩ := ih found
      exact ⟨by omega, by omega, zero⟩

theorem clearBit_none (absent : clearBit map n k = none) : ∀ j, k ≤ j → j < k + n → map &&& (1#8 <<< j) ≠ 0 := by
  induction n generalizing k with
  | zero =>
    intro j low high
    omega
  | succ n ih =>
    unfold clearBit at absent
    split at absent
    · cases absent
    · next here =>
      intro j low high
      by_cases first : j = k
      · rw [first]
        exact here
      · exact ih absent j (by omega) (by omega)

theorem clearBit_found (other : map ≠ 0xff) : ∃ j, clearBit map nbby 0 = some j ∧ j < 8 ∧ map &&& (1#8 <<< j) = 0 := by
  cases search : clearBit map nbby 0 with
  | none =>
    exfalso
    apply other
    apply BitVec.eq_of_getLsbD_eq
    intro l below
    have set := clearBit_none search l (Nat.zero_le l) below
    rw [Ne, and_bit_eq_zero below, Bool.not_eq_false] at set
    rw [set]
    clear set
    revert l
    decide
  | some j =>
    obtain ⟨_, high, zero⟩ := clearBit_some search
    exact ⟨j, rfl, by simpa [nbby] using high, zero⟩

end

theorem scanInodes_found {ipg i : Nat} {cgp : Cg} (whole : 8 ∣ ipg) (rotor : cgp.cgIrotor < ipg) (inside : i < ipg)
    (clear : isclr cgp.cgIused i) : ∃ ino, scanInodes ipg cgp = some ino ∧ ino < ipg ∧ isclr cgp.cgIused ino := by
  have other := ne_ones_of_isclr clear
  obtain ⟨n, rfl⟩ := whole
  have length : howmany (8 * n - cgp.cgIrotor) nbby = n - cgp.cgIrotor / 8 := by
    unfold howmany nbby
    omega
  -- What is done with the byte that a scan of `[start, start + len)` stops at.
  have finish (start len : Nat) (bound : start + len ≤ n) (found : skpc 0xff cgp.cgIused len start ≠ 0) :
      ∃ ino, ((clearBit (cgp.cgIused (start + len - skpc 0xff cgp.cgIused len start)) nbby 0).map
          ((start + len - skpc 0xff cgp.cgIused len start) * nbby + ·)) = some ino ∧
        ino < 8 * n ∧ isclr cgp.cgIused ino := by
    obtain ⟨k, search, small, zero⟩ := clearBit_found (skpc_found found)
    generalize place : start + len - skpc 0xff cgp.cgIused len start = byte at search zero ⊢
    refine ⟨byte * 8 + k, by rw [search]; rfl, by omega, ?_⟩
    unfold isclr nbby
    have quotient : (byte * 8 + k) / 8 = byte := by omega
    have remainder : (byte * 8 + k) % 8 = k := by omega
    rw [quotient, remainder]
    exact zero
  simp only [scanInodes, length]
  split
  · next none =>
    have before : i / 8 < cgp.cgIrotor / 8 := by
      by_contra late
      exact other (skpc_zero none (i / 8) (by unfold nbby; omega) (by unfold nbby; omega))
    rw [if_neg (fun zero => other (skpc_zero zero (i / 8) (Nat.zero_le _) (by unfold nbby; omega)))]
    exact finish 0 (cgp.cgIrotor / nbby + 1) (by unfold nbby; omega)
      fun zero => other (skpc_zero zero (i / 8) (Nat.zero_le _) (by unfold nbby; omega))
  · next found => exact finish (cgp.cgIrotor / nbby) (n - cgp.cgIrotor / 8) (by unfold nbby; omega) found

end Svr4.Ufs
