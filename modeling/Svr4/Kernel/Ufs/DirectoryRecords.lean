import Svr4.Kernel.Ufs.Directory

/-! The records of a directory.

A record is what its bytes say, and depends on no bytes but the header and the name. The
records of a directory lie one after the other, and none goes over the end of a block.
-/

namespace Svr4.Ufs.Directory

structure Direct where
  ino : Nat
  reclen : Nat
  name : List UInt8
  deriving DecidableEq, Repr

def view (m : Memory) (o : Nat) : Direct := ⟨dIno m o, dReclen m o, dName m o⟩

/-- `DIRSIZ` of the record. -/
def Direct.dirsiz (r : Direct) : Nat := ldirsiz r.name.length

def Direct.spare (r : Direct) : Nat := r.reclen - if r.ino ≠ 0 then r.dirsiz else 0

/-- A record at offset `o` that is not mangled. -/
structure Sized (o : Nat) (r : Direct) : Prop where
  aligned : r.reclen % 4 = 0
  inside : r.reclen ≤ 512 - o % 512
  holds : r.dirsiz ≤ r.reclen
  short : r.name.length ≤ 255

/-- The records lie between two offsets. -/
def Tiles (m : Memory) : Nat → List Direct → Nat → Prop
  | o, [], stop => o = stop
  | o, r :: rs, stop => view m o = r ∧ Sized o r ∧ Tiles m (o + r.reclen) rs stop

def extent (rs : List Direct) : Nat := (rs.map Direct.reclen).sum

section
variable {m m' : Memory} {o o' stop v : Nat} {r : Direct} {rs left right : List Direct} {i : Nat}
  {name : List UInt8}

@[simp] theorem view_name_length : (view m o).name.length = dNamlen m o := by simp [view, dName]

theorem ldirsiz_mod (len : Nat) : ldirsiz len % 4 = 0 := by
  rw [ldirsiz]
  omega

theorem header_lt (len : Nat) : 8 + len < ldirsiz len := by
  rw [ldirsiz]
  omega

theorem view_dirsiz : (view m o).dirsiz = dirsiz m o := by rw [Direct.dirsiz, view_name_length, dirsiz]

theorem view_spare : (view m o).spare = spare m o := by
  rw [Direct.spare, view_dirsiz]
  rfl

/-! ## What a record depends on -/

theorem namlen_congr (same : ∀ i < 8, m' (o' + i) = m (o + i)) : dNamlen m' o' = dNamlen m o := by
  refine Memory.fetch_congr fun i less => ?_
  rw [Nat.add_assoc, Nat.add_assoc]
  exact same (6 + i) (by omega)

theorem view_congr (same : ∀ i < 8 + dNamlen m o, m' (o' + i) = m (o + i)) : view m' o' = view m o := by
  have namlen : dNamlen m' o' = dNamlen m o := namlen_congr fun i less => same i (by omega)
  have ino : dIno m' o' = dIno m o := Memory.fetch_congr fun i less => same i (by omega)
  have reclen : dReclen m' o' = dReclen m o := by
    refine Memory.fetch_congr fun i less => ?_
    rw [Nat.add_assoc, Nat.add_assoc]
    exact same (4 + i) (by omega)
  have name : dName m' o' = dName m o := by
    rw [dName, dName, namlen]
    refine Memory.bytes_congr fun i less => ?_
    rw [Nat.add_assoc, Nat.add_assoc]
    exact same (8 + i) (by omega)
  rw [view, view, ino, reclen, name]

theorem view_outside (same : ∀ i, o ≤ i → i < o + dirsiz m o → m' i = m i) : view m' o = view m o := by
  refine view_congr fun i less => same (o + i) (Nat.le_add_right o i) ?_
  have header := header_lt (dNamlen m o)
  rw [dirsiz]
  omega

theorem view_setReclen (small : v < 65536) : view (setReclen o v m) o = { view m o with reclen := v } := by
  have ino : dIno (setReclen o v m) o = dIno m o :=
    Memory.fetch_congr fun i less => Memory.store_of_lt (by omega)
  have namlen : dNamlen (setReclen o v m) o = dNamlen m o :=
    Memory.fetch_congr fun i less => Memory.store_of_le (by omega)
  have name : dName (setReclen o v m) o = dName m o := by
    rw [dName, dName, namlen]
    exact Memory.bytes_congr fun i less => Memory.store_of_le (by omega)
  have reclen : dReclen (setReclen o v m) o = v := Memory.fetch_store small
  rw [view, view, ino, name, reclen]

theorem view_setIno (small : v < 2 ^ 32) : view (setIno o v m) o = { view m o with ino := v } := by
  have ino : dIno (setIno o v m) o = v := Memory.fetch_store small
  have reclen : dReclen (setIno o v m) o = dReclen m o :=
    Memory.fetch_congr fun i less => Memory.store_of_le (by omega)
  have namlen : dNamlen (setIno o v m) o = dNamlen m o :=
    Memory.fetch_congr fun i less => Memory.store_of_le (by omega)
  have name : dName (setIno o v m) o = dName m o := by
    rw [dName, dName, namlen]
    exact Memory.bytes_congr fun i less => Memory.store_of_le (by omega)
  rw [view, view, ino, name, reclen]

theorem view_fillEntry (small : v < 2 ^ 32) (short : name.length ≤ 255) :
    view (fillEntry o name v m) o = ⟨v, dReclen m o, name⟩ := by
  generalize filled : (setNamlen o name.length m).put (o + 8) name ((name.length + 4) / 4 * 4) = m'
  have namlen : dNamlen m' o = name.length := by
    have written : dNamlen (setNamlen o name.length m) o = name.length := Memory.fetch_store (by omega)
    rw [← filled]
    refine Eq.trans (Memory.fetch_congr fun i less => ?_) written
    exact Memory.put_of_lt (by omega)
  have reclen : dReclen m' o = dReclen m o := by
    rw [← filled]
    refine Memory.fetch_congr fun i less => ?_
    rw [Memory.put_of_lt (by omega)]
    exact Memory.store_of_lt (by omega)
  have bytes : dName m' o = name := by
    rw [dName, namlen, ← filled]
    exact Memory.bytes_put (by omega)
  rw [fillEntry, filled, view_setIno small, view, reclen, bytes]

theorem fillEntry_outside (away : i < o ∨ o + ldirsiz name.length ≤ i) :
    fillEntry o name v m i = m i := by
  rw [ldirsiz] at away
  rw [fillEntry, setIno, setNamlen]
  rcases away with below | above
  · rw [Memory.store_of_lt below, Memory.put_of_lt (by omega), Memory.store_of_lt (by omega)]
  · rw [Memory.store_of_le (by omega), Memory.put_of_le (by omega), Memory.store_of_le (by omega)]

theorem setReclen_outside (away : i < o ∨ o + 8 ≤ i) : setReclen o v m i = m i := by
  rw [setReclen]
  rcases away with below | above
  · exact Memory.store_of_lt (by omega)
  · exact Memory.store_of_le (by omega)

theorem setIno_outside (away : i < o ∨ o + 8 ≤ i) : setIno o v m i = m i := by
  rw [setIno]
  rcases away with below | above
  · exact Memory.store_of_lt below
  · exact Memory.store_of_le (by omega)

/-! ## Records one after the other -/

theorem Sized.large (sized : Sized o r) : 12 ≤ r.reclen := by
  have holds := sized.holds
  rw [Direct.dirsiz, ldirsiz] at holds
  omega

@[simp] theorem extent_nil : extent [] = 0 := rfl

@[simp] theorem extent_cons : extent (r :: rs) = r.reclen + extent rs := by simp [extent]

@[simp] theorem extent_append : extent (left ++ right) = extent left + extent right := by simp [extent]

theorem Tiles.stop_eq (tiles : Tiles m o rs stop) : stop = o + extent rs := by
  induction rs generalizing o with
  | nil => exact tiles.symm
  | cons r rs ih =>
    obtain ⟨_, _, rest⟩ := tiles
    rw [ih rest, extent_cons, Nat.add_assoc]

theorem tiles_append : Tiles m o (left ++ right) stop ↔ Tiles m o left (o + extent left) ∧ Tiles m (o + extent left) right stop := by
  induction left generalizing o with
  | nil => simp [Tiles]
  | cons r left ih =>
    simp only [List.cons_append, Tiles, extent_cons, ← Nat.add_assoc]
    rw [ih, and_assoc, and_assoc]

theorem Tiles.congr (tiles : Tiles m o rs stop) (same : ∀ i, o ≤ i → i < stop → m' i = m i) : Tiles m' o rs stop := by
  induction rs generalizing o with
  | nil => exact tiles
  | cons r rs ih =>
    obtain ⟨rfl, sized, rest⟩ := tiles
    have reach := rest.stop_eq
    have holds := sized.holds
    rw [view_dirsiz] at holds
    refine ⟨view_outside fun i low high => same i low (by omega), sized, ih rest fun i low high => ?_⟩
    exact same i (by omega) high

theorem Tiles.boundary (tiles : Tiles m o rs stop) {e : Nat} (low : o ≤ e) (high : e ≤ stop) (block : e % 512 = 0) :
    ∃ left right, rs = left ++ right ∧ o + extent left = e := by
  induction rs generalizing o with
  | nil =>
    have same : o = stop := tiles
    exact ⟨[], [], rfl, by simp; omega⟩
  | cons r rs ih =>
    obtain ⟨_, sized, rest⟩ := tiles
    by_cases here : o = e
    · exact ⟨[], r :: rs, rfl, here⟩
    · have inside := sized.inside
      obtain ⟨left, right, split, reach⟩ := ih rest (by omega)
      refine ⟨r :: left, right, by rw [split, List.cons_append], ?_⟩
      rw [extent_cons, ← Nat.add_assoc, reach]

theorem Sized.read (sized : Sized o (view m o)) : skipped m o = false := by
  obtain ⟨aligned, inside, holds, short⟩ := sized
  have large := Sized.large ⟨aligned, inside, holds, short⟩
  rw [view_dirsiz] at holds
  rw [view_name_length] at short
  simp only [view] at aligned inside holds large
  simp only [skipped, dirmangled, dirchk, Bool.false_and, Bool.or_false, Bool.or_eq_false_iff, decide_eq_false_iff_not]
  refine ⟨by omega, ⟨⟨?_, ?_⟩, ?_⟩, ?_⟩ <;> omega

/-! ## Entries -/

/-- The names and inode numbers of the entries in use. -/
def entries (rs : List Direct) : List (List UInt8 × Nat) :=
  rs.filterMap fun r => if r.ino = 0 then none else some (r.name, r.ino)

@[simp] theorem entries_append : entries (left ++ right) = entries left ++ entries right := List.filterMap_append

@[simp] theorem entries_nil : entries [] = [] := rfl

theorem entries_free (free : r.ino = 0) : entries (r :: rs) = entries rs := by
  rw [entries, List.filterMap_cons_none]
  · rfl
  · rw [if_pos free]

theorem entries_used (used : r.ino ≠ 0) : entries (r :: rs) = (r.name, r.ino) :: entries rs := by
  rw [entries, List.filterMap_cons_some]
  · rfl
  · rw [if_neg used]

theorem entries_cons_congr {r' : Direct} (ino : r'.ino = r.ino) (name : r'.name = r.name) : entries (r' :: rs) = entries (r :: rs) := by
  by_cases free : r.ino = 0
  · rw [entries_free free, entries_free (ino.trans free)]
  · rw [entries_used free, entries_used (by rw [ino]; exact free), ino, name]

theorem entries_all_free (free : ∀ r ∈ rs, r.ino = 0) : entries rs = [] := by
  rw [entries, List.filterMap_eq_nil_iff]
  intro r member
  rw [if_pos (free r member)]

end

end Svr4.Ufs.Directory
