import Svr4.Kernel.Ufs.DirectoryCompaction

/-! A directory as a map from names to inode numbers, the slot that the search leaves, and what
each change to the bytes does to the records. -/

namespace Svr4.Ufs.Directory

open Function
open Prod (fst)

/-- The records from `o` on, one after the other. -/
def recordsFrom (m : Memory) (stop : Nat) : Nat → Nat → List Direct
  | 0, _ => []
  | fuel + 1, o => if stop ≤ o then [] else view m o :: recordsFrom m stop fuel (o + dReclen m o)

def Dir.records (d : Dir) : List Direct := recordsFrom d.memory (roundup d.iSize) (roundup d.iSize) 0

/-- A directory is for its users a finite map from names to inode numbers. -/
def Dir.map (d : Dir) (name : List UInt8) : Option Nat := (entries d.records).lookup name

/-- The blocks are tiled by records, and no name is there twice. -/
structure Tiled (d : Dir) : Prop where
  tiles : Tiles d.memory 0 d.records (roundup d.iSize)
  unique : ((entries d.records).map fst).Nodup

section
variable {m m' : Memory} {o stop fuel v ino : Nat} {d : Dir} {rs left area right new : List Direct} {r : Direct} {name : List UInt8}

theorem recordsFrom_eq (tiles : Tiles m o rs stop) (enough : rs.length ≤ fuel) : recordsFrom m stop fuel o = rs := by
  induction rs generalizing o fuel with
  | nil =>
    have same : o = stop := tiles
    cases fuel with
    | zero => rfl
    | succ fuel => rw [recordsFrom, if_pos (Nat.le_of_eq same.symm)]
  | cons r rs ih =>
    obtain ⟨rfl, sized, rest⟩ := tiles
    obtain ⟨fuel, rfl⟩ : ∃ more, fuel = more + 1 := ⟨fuel - 1, by simp only [List.length_cons] at enough; omega⟩
    have large := sized.large
    have reach := rest.stop_eq
    rw [recordsFrom, if_neg (by omega)]
    exact congrArg _ (ih rest (Nat.le_of_succ_le_succ enough))

theorem records_eq (tiles : Tiles d.memory 0 rs (roundup d.iSize)) : d.records = rs := by
  refine recordsFrom_eq tiles ?_
  have length := tiles.length_le
  have reach := tiles.stop_eq
  omega

theorem tiled_iff : Tiled d ↔ ∃ rs, Tiles d.memory 0 rs (roundup d.iSize) ∧ ((entries rs).map fst).Nodup := by
  constructor
  · exact fun tiled => ⟨d.records, tiled.tiles, tiled.unique⟩
  · rintro ⟨rs, tiles, unique⟩
    obtain rfl := records_eq tiles
    exact ⟨tiles, unique⟩

theorem Tiles.splice (tiles : Tiles m o (left ++ (area ++ right)) stop) (fresh : Tiles m' (o + extent left) new (o + extent left + extent area))
    (outside : ∀ i, i < o + extent left ∨ o + extent left + extent area ≤ i → m' i = m i) :
    Tiles m' o (left ++ (new ++ right)) stop := by
  obtain ⟨before, rest⟩ := tiles_append.mp tiles
  obtain ⟨-, behind⟩ := tiles_append.mp rest
  have same : extent new = extent area := by
    have reach := fresh.stop_eq
    omega
  refine tiles_append.mpr ⟨before.congr fun i _ less => outside i (.inl less), tiles_append.mpr ⟨?_, ?_⟩⟩
  · rw [same]
    exact fresh
  · rw [same]
    exact behind.congr fun i above _ => outside i (.inr above)

/-! ## The map -/

theorem lookup_iff {list : List (List UInt8 × Nat)} (unique : (list.map fst).Nodup) :
    list.lookup name = some ino ↔ (name, ino) ∈ list := by
  induction list with
  | nil => simp
  | cons p list ih =>
    obtain ⟨key, value⟩ := p
    rw [List.map_cons, List.nodup_cons] at unique
    rw [List.lookup_cons]
    by_cases here : name = key
    · subst here
      have absent : (name, ino) ∉ list := fun member => unique.1 (List.mem_map.mpr ⟨(name, ino), member, rfl⟩)
      simp [absent, eq_comm]
    · have differ : (name == key) = false := beq_false_of_ne here
      simp [differ, here, ih unique.2]

theorem lookup_insert {list list' : List (List UInt8 × Nat)} (unique : (list.map fst).Nodup)
    (perm : list'.Perm ((name, ino) :: list)) (absent : name ∉ list.map fst) :
    (list'.map fst).Nodup ∧ (fun key => list'.lookup key) = update (fun key => list.lookup key) name (some ino) := by
  have unique' : (list'.map fst).Nodup := (perm.map fst).nodup_iff.mpr (List.nodup_cons.mpr ⟨absent, unique⟩)
  refine ⟨unique', funext fun key => Option.ext fun value => ?_⟩
  rw [lookup_iff unique', perm.mem_iff, List.mem_cons, Prod.mk.injEq, update_apply]
  by_cases here : key = name
  · have none : (key, value) ∉ list := fun member => absent (List.mem_map.mpr ⟨(key, value), member, here⟩)
    rw [if_pos here]
    simp only [here, true_and, Option.some.injEq]
    rw [here] at none
    simp [none, eq_comm]
  · rw [if_neg here, lookup_iff unique]
    simp [here]

theorem lookup_remove {front back : List (List UInt8 × Nat)} (unique : ((front ++ (name, ino) :: back).map fst).Nodup) :
    ((front ++ back).map fst).Nodup ∧ name ∉ (front ++ back).map fst ∧
      (fun key => (front ++ back).lookup key) =
        update (fun key => (front ++ (name, ino) :: back).lookup key) name none := by
  have perm : (front ++ (name, ino) :: back).Perm ((name, ino) :: (front ++ back)) := List.perm_middle
  obtain ⟨absent, unique'⟩ := List.nodup_cons.mp ((perm.map fst).nodup_iff.mp unique)
  obtain ⟨-, same⟩ := lookup_insert unique' perm absent
  refine ⟨unique', absent, ?_⟩
  rw [same, update_idem]
  symm
  refine update_eq_self_iff.mpr ?_
  cases found : (front ++ back).lookup name with
  | none => rfl
  | some value => exact absurd (List.mem_map.mpr ⟨_, (lookup_iff unique').mp found, rfl⟩) absent

theorem lookup_change {front back : List (List UInt8 × Nat)} (unique : ((front ++ (name, ino) :: back).map fst).Nodup) :
    ((front ++ (name, v) :: back).map fst).Nodup ∧ (fun key => (front ++ (name, v) :: back).lookup key) =
      update (fun key => (front ++ (name, ino) :: back).lookup key) name (some v) := by
  obtain ⟨unique', absent, less⟩ := lookup_remove unique
  obtain ⟨after, same⟩ := (@lookup_insert v name _ (front ++ (name, v) :: back)) unique' List.perm_middle absent
  exact ⟨after, by rw [same, less, update_idem]⟩

theorem entries_iff : (name, ino) ∈ entries rs ↔ ∃ r ∈ rs, r.ino ≠ 0 ∧ r.name = name ∧ r.ino = ino := by
  simp only [entries, List.mem_filterMap]
  constructor
  · rintro ⟨r, member, same⟩
    split at same
    · cases same
    · rename_i used
      cases same
      exact ⟨r, member, used, rfl, rfl⟩
  · rintro ⟨r, member, used, rfl, rfl⟩
    exact ⟨r, member, if_neg used⟩

theorem names_iff : name ∉ (entries rs).map fst ↔ ∀ r ∈ rs, ¬ r.Has name := by
  constructor
  · intro absent r member has
    refine absent (List.mem_map.mpr ⟨(name, r.ino), ?_, rfl⟩)
    exact entries_iff.mpr ⟨r, member, has.1, has.2, rfl⟩
  · rintro none member
    obtain ⟨⟨key, value⟩, inside, rfl⟩ := List.mem_map.mp member
    obtain ⟨r, there, used, same, -⟩ := entries_iff.mp inside
    exact none r there ⟨used, same⟩

end

/-! ## The slot -/

/-- The area of some records in which the new entry is to be. -/
structure Area (d : Dir) (name : List UInt8) (slot : Slot) (left area right : List Direct) : Prop where
  split : d.records = left ++ (area ++ right)
  offset : slot.offset = some (extent left)
  size : slot.size = extent area
  room : ldirsiz name.length ≤ free area
  block : extent left % 512 + extent area ≤ 512
  aligned : slot.endoff % 512 = 0
  before : extent left + extent area ≤ slot.endoff
  useful : ∃ used rest, d.records = used ++ rest ∧ extent used ≤ slot.endoff ∧ ∀ r ∈ rest, r.ino = 0

/-- The slot that the search leaves for a new name. -/
def Chosen (d : Dir) (name : List UInt8) (slot : Slot) : Prop :=
  slot = ⟨.none, some (roundup d.iSize), 512, 0⟩ ∨ slot.status ≠ .none ∧ ∃ left area right, Area d name slot left area right

section
variable {n : Nat} {d : Dir} {left area right : List Direct} {r : Direct} {name : List UInt8}
  {slot slot' : Slot} {block : Memory}

theorem roundup_le : n ≤ roundup n := by
  rw [roundup]
  omega

theorem roundup_self (block : n % 512 = 0) : roundup n = n := by
  rw [roundup]
  omega

theorem roundup_between {k : Nat} (low : k < n) (high : n ≤ roundup k) : roundup n = roundup k := by
  unfold roundup at high ⊢
  omega

theorem roundup_mod : roundup n % 512 = 0 := Nat.mul_mod_left _ _

theorem dircheckforname_spec (tiled : Tiled d) :
    (∃ left r right slot', d.records = left ++ r :: right ∧ r.Has name ∧
      dircheckforname d name slot = (some (extent left), slot') ∧ ∀ front p, left = front ++ [p] → extent left - slot'.size = extent front) ∨
    (∀ r ∈ d.records, ¬ r.Has name) ∧ ∃ slot', dircheckforname d name slot = (none, slot') ∧ (slot = newSlot → Chosen d name slot') := by
  have reach := tiled.tiles.stop_eq
  have start : Scanned [] (startScan slot) := by
    refine ⟨rfl, fun front r wrong => ?_, [], [], rfl, rfl, nofun⟩
    cases front <;> cases wrong
  have enough : d.records.length ≤ roundup d.iSize := by
    have length := tiled.tiles.length_le
    omega
  rcases (@search_spec d.memory (roundup d.iSize) (roundup d.iSize) (startScan slot) [] d.records name) tiled.tiles enough start with
    ⟨left, r, right, t, split, before, has, result, scanned⟩ | ⟨t, before, result, scanned, slotted⟩
  · refine .inl ⟨left, r, right, ⟨.exist, some (extent left), extent left - t.lastOffset, 0⟩, split, has, ?_, fun front p same => ?_⟩
    · rw [dircheckforname]
      simp [result]
    · have last := scanned.last front p same
      subst same
      rw [extent_append]
      dsimp only
      omega
  · rw [List.nil_append] at scanned slotted
    refine .inr ⟨before, ?_⟩
    by_cases none : t.slot.status = .none
    · refine ⟨⟨.none, some (roundup d.iSize), 512, 0⟩, ?_, fun _ => .inl rfl⟩
      rw [dircheckforname]
      simp only [result, if_pos none]
    · have run : dircheckforname d name slot = (Option.none, { t.slot with
          endoff := roundup (if t.enduseful < t.slot.offset.getD 0 + t.slot.size then t.slot.offset.getD 0 + t.slot.size
            else t.enduseful) }) := by
        rw [dircheckforname]
        simp only [result, if_neg none]
      refine ⟨_, run, fun fresh => .inr ⟨none, ?_⟩⟩
      have area := slotted (by
        subst fresh
        exact ⟨fun _ => .inl ⟨rfl, rfl⟩, fun wrong => absurd rfl wrong⟩)
      obtain ⟨left, area, right, split, offset, size, room, block⟩ := area.room none
      obtain ⟨used, rest, split', useful, free⟩ := scanned.useful
      rw [offset, Option.getD_some, size]
      have least : extent left + extent area ≤ (if t.enduseful < extent left + extent area then extent left + extent area
          else t.enduseful) ∧ t.enduseful ≤ (if t.enduseful < extent left + extent area then extent left + extent area
          else t.enduseful) := by
        split <;> omega
      generalize (if t.enduseful < extent left + extent area then extent left + extent area else t.enduseful) = useful' at least ⊢
      have up := (@roundup_le useful')
      exact ⟨left, area, right, split, offset, size, room, block, roundup_mod, least.1.trans up, used, rest, split',
        useful ▸ least.2.trans up, free⟩

end

/-! ## The operations on the records -/

section
variable {m m' : Memory} {o stop v ino ep : Nat} {d d₁ : Dir} {left area right front new : List Direct} {r p : Direct} {name : List UInt8}
  {slot : Slot} {block : Memory}

theorem setIno_tiles (tiles : Tiles m o (left ++ r :: right) stop) (small : v < 2 ^ 32) :
    Tiles (setIno (o + extent left) v m) o (left ++ { r with ino := v } :: right) stop := by
  obtain ⟨-, same, sized, -⟩ := tiles_append.mp tiles
  have large := sized.large
  have only : extent [r] = r.reclen := by simp
  refine (@Tiles.splice m _ o stop left [r] right [{ r with ino := v }]) tiles ⟨?_, ?_, ?_⟩ fun i away => setIno_outside (by omega)
  · rw [view_setIno small, same]
  · exact ⟨sized.aligned, sized.inside, sized.holds, sized.short⟩
  · exact congrArg (o + extent left + ·) only.symm

theorem merge_tiles (tiles : Tiles m o (front ++ p :: r :: right) stop) (inside : (o + extent front + p.reclen) % 512 ≠ 0) :
    Tiles (setReclen (o + extent front) (p.reclen + r.reclen) m) o
      (front ++ { p with reclen := p.reclen + r.reclen } :: right) stop := by
  obtain ⟨-, same, sized, -, sized', -⟩ := tiles_append.mp tiles
  have large := sized.large
  have holds := sized.holds
  have aligned := sized.aligned
  have aligned' := sized'.aligned
  have within := sized.inside
  have within' := sized'.inside
  have both : extent [p, r] = p.reclen + r.reclen := by simp
  refine (@Tiles.splice m _ o stop front [p, r] right [{ p with reclen := p.reclen + r.reclen }]) tiles ⟨?_, ?_, ?_⟩
    fun i away => setReclen_outside (by omega)
  · rw [view_setReclen (by omega), same]
  · refine ⟨?_, ?_, ?_, sized.short⟩
    · dsimp only
      omega
    · dsimp only
      omega
    · exact holds.trans (Nat.le_add_right _ _)
  · exact congrArg (o + extent front + ·) both.symm

theorem fill_tiles (tiles : Tiles m o area stop) (gathered : Gathered m o area m' ep) (reclen : dReclen m' ep = free area)
    (room : ldirsiz name.length ≤ free area) (within : o % 512 + extent area ≤ 512) (aligned : o % 4 = 0)
    (small : ino < 2 ^ 32) (short : name.length ≤ 255) :
    ∃ kept, Tiles (fillEntry ep name ino m') o (kept ++ [⟨ino, free area, name⟩]) (o + extent area) ∧ entries kept = entries area ∧
      ∀ i, i < o ∨ o + extent area ≤ i → fillEntry ep name ino m' i = m i := by
  obtain ⟨⟨kept, tiles', same, -⟩, sum, outside⟩ := gathered
  have reach := tiles'.stop_eq
  have whole := tiles.aligned
  have part := tiles'.aligned
  refine ⟨kept, tiles_append.mpr ⟨?_, ?_⟩, same, fun i away => ?_⟩
  · rw [← reach]
    exact tiles'.congr fun i _ less => fillEntry_outside (.inl less)
  · rw [← reach]
    refine ⟨?_, ⟨?_, ?_, ?_, ?_⟩, ?_⟩
    · rw [view_fillEntry small short, reclen]
    · dsimp only
      omega
    · dsimp only
      omega
    · exact room
    · exact short
    · exact sum
  · rw [fillEntry_outside (by omega)]
    exact outside i away

theorem prepare_area (tiled : Tiled d) (chosen : Area d name slot left area right) (some' : slot.status ≠ .none)
    (prepared : dirprepareentry d slot block = some (d₁, ep)) : d₁.iNumber = d.iNumber ∧ roundup d₁.iSize = roundup d.iSize ∧
      Gathered d.memory (extent left) area d₁.memory ep ∧ dReclen d₁.memory ep = free area := by
  have tiles := tiled.tiles
  have reach := tiles.stop_eq
  have room := chosen.room
  have large := header_lt name.length
  rw [chosen.split] at tiles reach
  simp only [extent_append] at reach
  obtain ⟨-, rest⟩ := tiles_append.mp tiles
  obtain ⟨middle, -⟩ := tiles_append.mp rest
  rw [Nat.zero_add] at middle
  have moved := compacted middle (Nat.le_trans (by omega) room) chosen.block
  have size : roundup (if d.iSize < extent left + extent area then roundup (extent left + extent area) else d.iSize) =
      roundup d.iSize := by
    split <;> rename_i low
    · rw [roundup_self roundup_mod, roundup_between low (by omega)]
    · rfl
  simp only [dirprepareentry, chosen.offset, Option.bind_eq_bind, Option.bind_some, chosen.size] at prepared
  cases status : slot.status with
  | none => exact absurd status some'
  | exist => simp [status] at prepared
  | found =>
    simp only [status] at prepared
    cases prepared
    exact ⟨rfl, size, moved⟩
  | compact =>
    simp only [status] at prepared
    cases prepared
    exact ⟨rfl, size, moved⟩

end

end Svr4.Ufs.Directory
