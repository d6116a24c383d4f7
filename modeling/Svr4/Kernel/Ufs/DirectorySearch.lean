import Svr4.Kernel.Ufs.DirectoryRecords

/-! The search in a directory: the entry that it finds, and the slot for a new one. -/

namespace Svr4.Ufs.Directory

open List (append_assoc append_nil)

/-- The space that some records could do without. -/
def free (rs : List Direct) : Nat := (rs.map Direct.spare).sum

/-- The loop is behind some of the records. -/
structure Scanned (done : List Direct) (s : Scan) : Prop where
  offset : s.offset = extent done
  last : ∀ front r, done = front ++ [r] → s.lastOffset = extent front
  useful : ∃ used rest, done = used ++ rest ∧ s.enduseful = extent used ∧ ∀ r ∈ rest, r.ino = 0

/-- The area that the slot is in, once there is one; before that the area that has been found so far.
No area goes over the end of a block. -/
structure Slotted (needed : Nat) (done : List Direct) (s : Scan) : Prop where
  pending : s.slot.status = .none → (s.slot.offset = none ∧ s.slotfreespace = 0) ∨
    ∃ left area, done = left ++ area ∧ s.slot.offset = some (extent left) ∧ s.slotfreespace = free area ∧
      extent left % 512 + extent area ≤ 512
  room : s.slot.status ≠ .none → ∃ left area right, done = left ++ (area ++ right) ∧ s.slot.offset = some (extent left) ∧
    s.slot.size = extent area ∧ needed ≤ free area ∧ extent left % 512 + extent area ≤ 512

/-- The record is in use for the name. -/
def Direct.Has (name : List UInt8) (r : Direct) : Prop := r.ino ≠ 0 ∧ r.name = name

section
variable {m : Memory} {needed fuel stop : Nat} {s : Scan} {done rs left right : List Direct} {r : Direct} {name : List UInt8}

@[simp] theorem free_nil : free [] = 0 := rfl

@[simp] theorem free_cons : free (r :: rs) = r.spare + free rs := by simp [free]

@[simp] theorem free_append : free (left ++ right) = free left + free right := by simp [free]

@[simp] theorem enterBlock_offset : (enterBlock s).offset = s.offset := by
  rw [enterBlock]
  split
  · rfl
  · rfl

@[simp] theorem enterBlock_enduseful : (enterBlock s).enduseful = s.enduseful := by
  rw [enterBlock]
  split
  · rfl
  · rfl

@[simp] theorem lookForSlot_enduseful : (lookForSlot m needed s).enduseful = s.enduseful := by
  unfold lookForSlot
  split_ifs <;> first | rfl | (dsimp only; split_ifs <;> rfl)

theorem advance_eq (sized : Sized s.offset (view m s.offset)) : advance m needed s =
    { lookForSlot m needed (enterBlock s) with
      lastOffset := s.offset
      offset := s.offset + dReclen m s.offset
      enduseful := if dIno m s.offset ≠ 0 then s.offset + dReclen m s.offset else s.enduseful } := by
  rw [advance]
  simp only [enterBlock_offset, sized.read, Bool.false_eq_true, if_false, lookForSlot_enduseful, enterBlock_enduseful]

theorem Scanned.advance (scanned : Scanned done s) (same : view m s.offset = r) (sized : Sized s.offset r) :
    Scanned (done ++ [r]) (advance m needed s) := by
  subst same
  rw [advance_eq sized]
  obtain ⟨used, rest, split, useful, free⟩ := scanned.useful
  refine ⟨?_, fun front last same => ?_, ?_⟩
  · rw [extent_append, scanned.offset]
    simp [extent, view]
  · obtain ⟨rfl, -⟩ := List.append_inj' same rfl
    exact scanned.offset
  · by_cases used' : dIno m s.offset = 0
    · refine ⟨used, rest ++ [view m s.offset], by rw [split, append_assoc], ?_, fun r member => ?_⟩
      · simp only [used', ne_eq, not_true_eq_false, if_false]
        exact useful
      · rcases List.mem_append.mp member with old | new
        · exact free r old
        · rw [List.mem_singleton.mp new]
          exact used'
    · refine ⟨done ++ [view m s.offset], [], (append_nil _).symm, ?_, fun r there => by cases there⟩
      simp only [ne_eq, used', not_false_eq_true, if_true]
      rw [extent_append, scanned.offset]
      simp [extent, view]

theorem Slotted.enterBlock (slotted : Slotted needed done s) (offset : s.offset = extent done) :
    Slotted needed done (enterBlock s) ∧
      ((enterBlock s).slot.status = .none → ∀ o, (enterBlock s).slot.offset = some o → s.offset % 512 ≠ 0) := by
  rw [Directory.enterBlock]
  split <;> rename_i start
  · exact ⟨⟨fun _ => .inl ⟨rfl, rfl⟩, fun wrong => absurd start.1 wrong⟩, nofun⟩
  · exact ⟨slotted, fun none _ _ wrong => start ⟨none, wrong⟩⟩

theorem Slotted.more (slotted : Slotted needed done s) (found : s.slot.status ≠ .none) : Slotted needed (done ++ [r]) s := by
  refine ⟨fun none => absurd none found, fun _ => ?_⟩
  obtain ⟨left, area, right, split, offset, size, room, block⟩ := slotted.room found
  exact ⟨left, area, right ++ [r], by rw [split, append_assoc, append_assoc], offset, size, room, block⟩

/-- The record joins the area that is pending, or starts one. -/
theorem Slotted.join (slotted : Slotted needed done s) (none : s.slot.status = .none) (offset : s.offset = extent done)
    (apart : ∀ o, s.slot.offset = some o → s.offset % 512 ≠ 0) (sized : Sized s.offset r) :
    ∃ left area, done ++ [r] = left ++ area ∧ s.slot.offset.getD s.offset = extent left ∧
      s.slotfreespace + r.spare = free area ∧ extent left % 512 + extent area ≤ 512 ∧ extent left + extent area = s.offset + r.reclen := by
  have inside := sized.inside
  rcases slotted.pending none with ⟨fresh, empty⟩ | ⟨left, area, split, start, free, block⟩
  · refine ⟨done, [r], rfl, ?_, ?_, ?_, ?_⟩
    · rw [fresh, Option.getD_none, offset]
    · rw [empty]
      simp
    · rw [← offset]
      simp only [extent_cons, extent_nil]
      have := Nat.mod_lt s.offset (show 0 < 512 by decide)
      omega
    · rw [← offset]
      simp
  · have within := apart _ start
    rw [split, extent_append] at offset
    refine ⟨left, area ++ [r], by rw [split, append_assoc], by rw [start, Option.getD_some], ?_, ?_, ?_⟩
    · rw [free]
      simp
    · simp only [extent_append, extent_cons, extent_nil]
      omega
    · simp only [extent_append, extent_cons, extent_nil]
      omega

theorem Slotted.advance (slotted : Slotted needed done s) (offset : s.offset = extent done) (same : view m s.offset = r)
    (sized : Sized s.offset r) : Slotted needed (done ++ [r]) (advance m needed s) := by
  subst same
  rw [advance_eq sized]
  obtain ⟨entered, apart⟩ := slotted.enterBlock offset
  have place : (Directory.enterBlock s).offset = s.offset := enterBlock_offset
  generalize Directory.enterBlock s = t at entered apart place ⊢
  rw [← place] at offset sized apart ⊢
  have inside := sized.inside
  -- What counts of the state is its slot and the free space.
  suffices after : Slotted needed (done ++ [view m t.offset]) (lookForSlot m needed t) from ⟨after.pending, after.room⟩
  rw [lookForSlot]
  dsimp only
  split <;> rename_i found
  · by_cases none : t.slot.status = .none
    · obtain ⟨left, area, split, start, free, block, reach⟩ := (@Slotted.join needed t done (view m t.offset)) entered none offset
        (apart none) sized
      rw [view_spare] at free
      have reclen : (view m t.offset).reclen = dReclen m t.offset := rfl
      split_ifs with some enough gathered
      · refine ⟨nofun, fun _ => ⟨done, [view m t.offset], [], by rw [append_nil], ?_, ?_, ?_, ?_⟩⟩
        · rw [← offset]
        · simp [reclen]
        · rw [free_cons, view_spare]
          simpa using enough
        · have := Nat.mod_lt t.offset (show 0 < 512 by decide)
          rw [← offset, extent_cons, extent_nil]
          omega
      · refine ⟨nofun, fun _ => ⟨left, area, [], by rw [append_nil, split], ?_, ?_, ?_, block⟩⟩
        · exact congrArg Option.some start
        · change t.offset + dReclen m t.offset - t.slot.offset.getD t.offset = _
          rw [start]
          omega
        · rw [← free]
          exact gathered
      · exact ⟨fun _ => .inr ⟨left, area, split, congrArg Option.some start, free, block⟩, fun wrong => absurd none wrong⟩
      · refine ⟨fun _ => ?_, fun wrong => absurd none wrong⟩
        rcases entered.pending none with fresh | ⟨left', area', split', start', free', block'⟩
        · exact .inl fresh
        · rw [start', Option.getD_some] at start
          refine .inr ⟨left, area, split, start'.trans (congrArg Option.some start), ?_, block⟩
          omega
    · split_ifs with some enough
      · refine ⟨nofun, fun _ => ⟨done, [view m t.offset], [], by rw [append_nil], ?_, ?_, ?_, ?_⟩⟩
        · rw [← offset]
        · simp [view]
        · rw [free_cons, view_spare]
          simpa using enough
        · have := Nat.mod_lt t.offset (show 0 < 512 by decide)
          rw [← offset, extent_cons, extent_nil]
          omega
      · exact entered.more none
      · exact entered.more none
  · exact entered.more fun wrong => found (wrong.trans_ne (by decide))

theorem matching_iff {o : Nat} : matching m name o = true ↔ (view m o).Has name := by
  have length (same : dName m o = name) : dNamlen m o = name.length := by
    rw [← same, dName, Memory.bytes_length]
  simp only [matching, Bool.and_eq_true, decide_eq_true_iff, Direct.Has, view]
  constructor
  · rintro ⟨⟨used, -⟩, same⟩
    exact ⟨used, same⟩
  · rintro ⟨used, same⟩
    exact ⟨⟨used, length same⟩, same⟩

/-- The search stops at the first record of the name. Where there is none, it goes through the whole
directory and has an area for the new entry if there is room. -/
theorem search_spec (tiles : Tiles m s.offset rs stop) (enough : rs.length ≤ fuel) (scanned : Scanned done s) :
    (∃ left r right t, rs = left ++ r :: right ∧ (∀ x ∈ left, ¬ x.Has name) ∧ r.Has name ∧
      search m name stop fuel s = (some (extent (done ++ left)), t) ∧ Scanned (done ++ left) t) ∨
    ∃ t, (∀ x ∈ rs, ¬ x.Has name) ∧ search m name stop fuel s = (none, t) ∧ Scanned (done ++ rs) t ∧
      (Slotted (ldirsiz name.length) done s → Slotted (ldirsiz name.length) (done ++ rs) t) := by
  induction rs generalizing s done fuel with
  | nil =>
    have same : s.offset = stop := tiles
    refine .inr ⟨s, nofun, ?_, by rwa [append_nil], fun slotted => by rwa [append_nil]⟩
    cases fuel with
    | zero => rfl
    | succ fuel => rw [search, if_pos (Nat.le_of_eq same.symm)]
  | cons r rs ih =>
    obtain ⟨same, sized, rest⟩ := tiles
    obtain ⟨fuel, rfl⟩ : ∃ more, fuel = more + 1 := ⟨fuel - 1, by simp only [List.length_cons] at enough; omega⟩
    have large := sized.large
    have reach := rest.stop_eq
    have read : skipped m s.offset = false := Sized.read (same.symm ▸ sized)
    rw [search, if_neg (by omega), read]
    by_cases has : r.Has name
    · have found : matching m name s.offset = true := matching_iff.mpr (same.symm ▸ has)
      rw [found, if_pos ⟨by decide, rfl⟩]
      exact .inl ⟨[], r, rs, s, rfl, nofun, has, by rw [append_nil, scanned.offset], by rwa [append_nil]⟩
    · have missed : ¬ matching m name s.offset = true := fun found => has (same ▸ matching_iff.mp found)
      rw [if_neg fun both => missed both.2]
      have next : (advance m (ldirsiz name.length) s).offset = s.offset + r.reclen := by
        rw [advance_eq (same.symm ▸ sized), ← same]
        rfl
      have after := (@Scanned.advance m (ldirsiz name.length) s done r) scanned same sized
      rcases ih (next.symm ▸ rest) (Nat.le_of_succ_le_succ enough) after with
        ⟨left, r', right, t, split, before, has', result, scanned'⟩ | ⟨t, before, result, scanned', slotted'⟩
      · refine .inl ⟨r :: left, r', right, t, by rw [split, List.cons_append], fun x member => ?_, has', ?_, ?_⟩
        · rcases List.mem_cons.mp member with rfl | member
          · exact has
          · exact before x member
        · rw [result, append_assoc, List.singleton_append]
        · rwa [append_assoc] at scanned'
      · refine .inr ⟨t, fun x member => ?_, result, ?_, fun slotted => ?_⟩
        · rcases List.mem_cons.mp member with rfl | member
          · exact has
          · exact before x member
        · rwa [append_assoc] at scanned'
        · have moved := slotted' ((@Slotted.advance m _ s done r) slotted scanned.offset same sized)
          rwa [append_assoc] at moved

end

end Svr4.Ufs.Directory
