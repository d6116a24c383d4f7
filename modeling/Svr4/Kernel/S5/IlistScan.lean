import Svr4.Kernel.S5.FreeInodes

/-! What `ialloc` finds on the i-list. -/

namespace Svr4.S5.Ilist

open Function

/-- The inodes are looked at one after another. -/
def scanList (disk : Nat → Nat) : List Nat → Filsys → Filsys
  | [], fp => fp
  | ino :: rest, fp =>
    if fp.sNinode = 0 then fp
    else if disk ino = 0 then
      scanList disk rest { fp with sNinode := fp.sNinode - 1, sInode := update fp.sInode (fp.sNinode - 1) ino }
    else scanList disk rest fp

section
variable {inoshift ino : Nat} {disk : Nat → Nat} {fp fp' : Filsys} {list : List Nat}

theorem scanList_stop (empty : fp.sNinode = 0) : scanList disk list fp = fp := by
  cases list with
  | nil => rfl
  | cons ino rest => rw [scanList, if_pos empty]

theorem scanList_append (left right : List Nat) : scanList disk (left ++ right) fp = scanList disk right (scanList disk left fp) := by
  induction left generalizing fp with
  | nil => rfl
  | cons ino rest ih =>
    rw [List.cons_append, scanList, scanList]
    split <;> rename_i empty
    · rw [scanList_stop empty]
    · split
      · exact ih
      · exact ih

theorem scanBlock_eq (i : Nat) : scanBlock disk i ino fp = scanList disk (List.range' ino i) fp := by
  induction i generalizing ino fp with
  | zero => rfl
  | succ i ih =>
    rw [scanBlock, List.range'_succ, scanList]
    simp only [ih]

theorem scanBlocks_eq (adr : Nat) :
    scanBlocks inoshift disk adr ino fp = scanList disk (List.range' ino (adr * vfsInopb inoshift)) fp := by
  induction adr generalizing ino fp with
  | zero =>
    rw [Nat.zero_mul]
    rfl
  | succ adr ih =>
    have split : List.range' ino ((adr + 1) * vfsInopb inoshift) =
        List.range' ino (vfsInopb inoshift) ++ List.range' (ino + vfsInopb inoshift) (adr * vfsInopb inoshift) := by
      rw [Nat.succ_mul, Nat.add_comm, ← List.range'_append_1]
    rw [scanBlocks, split, scanList_append, scanBlock_eq]
    split <;> rename_i empty
    · rw [scanList_stop empty]
    · exact ih

/-- What the scan has put into `s_inode`. -/
structure Filled (disk : Nat → Nat) (list : List Nat) (fp fp' : Filsys) : Prop where
  less : fp'.sNinode ≤ fp.sNinode
  keep : ∀ k, fp.sNinode ≤ k → fp'.sInode k = fp.sInode k
  found : ∀ k, fp'.sNinode ≤ k → k < fp.sNinode → fp'.sInode k ∈ list ∧ disk (fp'.sInode k) = 0
  all : ∀ ino ∈ list, disk ino = 0 → (∃ k, fp'.sNinode ≤ k ∧ k < fp.sNinode ∧ fp'.sInode k = ino) ∨
    fp'.sNinode = 0 ∧ (fp.sNinode = 0 ∨ fp'.sInode 0 ≤ ino)
  rest : fp'.sIsize = fp.sIsize ∧ fp'.sIlock = fp.sIlock ∧ fp'.sTinode = fp.sTinode

theorem scanList_filled (sorted : list.Pairwise (· < ·)) : Filled disk list fp (scanList disk list fp) := by
  induction list generalizing fp with
  | nil => exact ⟨le_rfl, fun _ _ => rfl, fun k high low => absurd low (not_lt.mpr high), nofun, rfl, rfl, rfl⟩
  | cons ino rest ih =>
    obtain ⟨first, sorted⟩ := List.pairwise_cons.mp sorted
    rw [scanList]
    split <;> rename_i empty
    · exact ⟨le_rfl, fun _ _ => rfl, fun k high low => absurd low (not_lt.mpr high), fun _ _ _ => .inr ⟨empty, .inl empty⟩,
        rfl, rfl, rfl⟩
    · split <;> rename_i free
      · have filled := (@ih { fp with sNinode := fp.sNinode - 1, sInode := update fp.sInode (fp.sNinode - 1) ino }) sorted
        generalize scanList disk rest _ = fp' at filled
        obtain ⟨less, keep, found, all, other⟩ := filled
        have own : fp'.sInode (fp.sNinode - 1) = ino := (keep _ le_rfl).trans (update_self ..)
        dsimp only at less keep found all
        refine ⟨by omega, fun k high => ?_, fun k high low => ?_, fun i member empty => ?_, other⟩
        · rw [keep k (by omega), update_of_ne (by omega)]
        · by_cases last : k = fp.sNinode - 1
          · rw [last, own]
            exact ⟨(.head _), free⟩
          · obtain ⟨member, zero⟩ := found k high (by omega)
            exact ⟨.tail _ member, zero⟩
        · rcases List.mem_cons.mp member with rfl | there
          · exact .inl ⟨fp.sNinode - 1, less, by omega, own⟩
          · rcases all i there empty with ⟨k, high, low, same⟩ | ⟨zero, one | before⟩
            · exact .inl ⟨k, high, by omega, same⟩
            · -- The inode before was the last one that fits.
              rw [one] at own
              refine .inr ⟨zero, .inr ?_⟩
              rw [own]
              exact Nat.le_of_lt (first i there)
            · exact .inr ⟨zero, .inr before⟩
      · obtain ⟨less, keep, found, all, other⟩ := (@ih fp) sorted
        refine ⟨less, keep, fun k high low => ?_, fun i member empty => ?_, other⟩
        · obtain ⟨member, zero⟩ := found k high low
          exact ⟨.tail _ member, zero⟩
        · rcases List.mem_cons.mp member with rfl | there
          · exact absurd empty free
          · exact all i there empty

/-! ## The inodes that are looked at -/

theorem inopb_pos : 0 < vfsInopb inoshift := Nat.two_pow_pos inoshift

theorem fsInos_eq (x : Nat) : fsInos inoshift x = x / vfsInopb inoshift * vfsInopb inoshift + 1 := by
  rw [fsInos, Nat.shiftLeft_eq, Nat.shiftRight_eq_div_pow]
  rfl

theorem fsItod_eq (x : Nat) : fsItod inoshift (fsInos inoshift x) = x / vfsInopb inoshift + 2 := by
  have positive := @inopb_pos inoshift
  rw [fsItod, fsInos_eq, Nat.shiftRight_eq_div_pow]
  show (_ / vfsInopb inoshift) = _
  have sum : x / vfsInopb inoshift * vfsInopb inoshift + 1 + (2 * vfsInopb inoshift - 1) =
      (x / vfsInopb inoshift + 2) * vfsInopb inoshift := by
    rw [Nat.add_mul]
    omega
  rw [sum, Nat.mul_div_cancel _ positive]

/-- The scan goes to the end of the i-list. -/
theorem mem_scanned (h : Nat) :
    ino ∈ List.range' (fsInos inoshift h) ((fp.sIsize - fsItod inoshift (fsInos inoshift h)) * vfsInopb inoshift) ↔
      fsInos inoshift h ≤ ino ∧ ino ≤ inodes inoshift fp := by
  rw [List.mem_range'_1, fsItod_eq, fsInos_eq, inodes]
  generalize vfsInopb inoshift = b
  generalize h / b = q
  by_cases inside : q + 2 ≤ fp.sIsize
  · obtain ⟨m, size⟩ := Nat.exists_eq_add_of_le inside
    have first : fp.sIsize - (q + 2) = m := by omega
    have second : fp.sIsize - 2 = q + m := by omega
    rw [first, second, Nat.add_mul]
    omega
  · have first : fp.sIsize - (q + 2) = 0 := by omega
    have second : (fp.sIsize - 2) * b ≤ q * b := Nat.mul_le_mul_right b (by omega)
    rw [first, Nat.zero_mul]
    omega

theorem fsInos_le (h : Nat) : fsInos inoshift h ≤ h + 1 := by
  rw [fsInos_eq]
  exact Nat.succ_le_succ (Nat.div_mul_le_self h _)

end

end Svr4.S5.Ilist
