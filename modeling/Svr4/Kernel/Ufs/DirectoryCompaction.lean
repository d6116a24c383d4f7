import Svr4.Kernel.Ufs.DirectorySearch

/-! Compaction: the entries of an area move together, and its free space comes behind them. -/

namespace Svr4.Ufs.Directory

/-- An entry in use that has no space to spare. -/
def Direct.Tight (r : Direct) : Prop := r.ino ≠ 0 ∧ r.reclen = r.dirsiz

/-- The loop has copied the records `done` that start at `offset`; the last of them is at `ep` and may be free. -/
structure Squeezed (m : Memory) (offset : Nat) (done : List Direct) (s : Squeeze) : Prop where
  loc : s.loc = extent done
  kept : ∃ kept, Tiles s.memory offset kept s.ep ∧ entries done = entries (kept ++ [view s.memory s.ep]) ∧ ∀ r ∈ kept, r.Tight
  dsize : s.dsize = dirsiz s.memory s.ep
  short : (view s.memory s.ep).name.length ≤ 255
  sum : s.ep + s.dsize + s.slotfreespace = offset + extent done
  gathered : s.slotfreespace + (if dIno s.memory s.ep = 0 then s.dsize else 0) = free done
  outside : ∀ i, i < offset ∨ offset + extent done ≤ i → s.memory i = m i

/-- All entries in use of `done` are before `ep`, and its free space is behind it. -/
structure Gathered (m : Memory) (offset : Nat) (done : List Direct) (m' : Memory) (ep : Nat) : Prop where
  kept : ∃ kept, Tiles m' offset kept ep ∧ entries kept = entries done ∧ ∀ r ∈ kept, r.Tight
  sum : ep + free done = offset + extent done
  outside : ∀ i, i < offset ∨ offset + extent done ≤ i → m' i = m i

/-- An entry that is in use is cut to its size; one that is not is given up. -/
def trim (s : Squeeze) : Squeeze :=
  if dIno s.memory s.ep ≠ 0 then { s with memory := setReclen s.ep s.dsize s.memory, ep := s.ep + s.dsize }
  else { s with slotfreespace := s.slotfreespace + s.dsize }

section
variable {m m' : Memory} {offset stop ep fuel : Nat} {s : Squeeze} {done rest rs kept : List Direct} {r : Direct}

theorem squeezeNext_eq : squeezeNext offset s =
    { memory := (trim s).memory.copy (offset + s.loc) (trim s).ep (dirsiz (trim s).memory (offset + s.loc))
      ep := (trim s).ep
      loc := s.loc + dReclen (trim s).memory (offset + s.loc)
      dsize := dirsiz (trim s).memory (offset + s.loc)
      slotfreespace := (trim s).slotfreespace +
        (dReclen (trim s).memory (offset + s.loc) - dirsiz (trim s).memory (offset + s.loc)) } := by
  rw [squeezeNext, trim]
  by_cases used : dIno s.memory s.ep ≠ 0
  · simp only [if_pos used]
  · simp only [if_neg used]

theorem lastEntry_eq : lastEntry s = (setReclen (trim s).ep (trim s).slotfreespace (trim s).memory, (trim s).ep) := by
  rw [lastEntry, trim]
  by_cases used : dIno s.memory s.ep = 0
  · rw [if_pos used, if_neg (not_not.mpr used)]
  · rw [if_neg used, if_pos used]

theorem Tiles.aligned (tiles : Tiles m offset rs stop) : extent rs % 4 = 0 := by
  induction rs generalizing offset with
  | nil => rfl
  | cons r rs ih =>
    obtain ⟨-, sized, rest⟩ := tiles
    have aligned := sized.aligned
    have more := ih rest
    rw [extent_cons]
    omega

theorem Squeezed.trim (squeezed : Squeezed m offset done s) (block : offset % 512 + extent done ≤ 512) :
    Gathered m offset done (trim s).memory (trim s).ep ∧ (trim s).slotfreespace = free done := by
  obtain ⟨kept, tiles, same, tight⟩ := squeezed.kept
  have sum := squeezed.sum
  have gathered := squeezed.gathered
  have start := tiles.stop_eq
  have dsize := squeezed.dsize
  have mod := ldirsiz_mod (dNamlen s.memory s.ep)
  have large := header_lt (dNamlen s.memory s.ep)
  rw [dirsiz] at dsize
  rw [Directory.trim]
  split <;> rename_i used
  · dsimp only
    rw [if_neg used, Nat.add_zero] at gathered
    have cut := (@view_setReclen s.memory s.ep s.dsize) (by omega)
    have sized : Sized s.ep { view s.memory s.ep with reclen := s.dsize } := by
      refine ⟨?_, ?_, ?_, squeezed.short⟩
      · change s.dsize % 4 = 0
        omega
      · change s.dsize ≤ _
        omega
      · change (view s.memory s.ep).dirsiz ≤ s.dsize
        rw [view_dirsiz, dirsiz]
        omega
    refine ⟨⟨⟨kept ++ [{ view s.memory s.ep with reclen := s.dsize }], ?_, ?_, fun r member => ?_⟩, by omega, fun i away => ?_⟩, gathered⟩
    · refine tiles_append.mpr ⟨?_, ?_⟩
      · rw [← start]
        exact tiles.congr fun i _ less => setReclen_outside (.inl less)
      · rw [← start]
        exact ⟨cut, sized, rfl⟩
    · rw [same, entries_append, entries_append]
      congr 1
    · rcases List.mem_append.mp member with old | new
      · exact tight r old
      · rw [List.mem_singleton.mp new]
        refine ⟨used, ?_⟩
        change s.dsize = (view s.memory s.ep).dirsiz
        rw [view_dirsiz, dirsiz, dsize]
    · rw [setReclen_outside (by omega)]
      exact squeezed.outside i away
  · dsimp only
    have free : dIno s.memory s.ep = 0 := not_not.mp used
    rw [if_pos free] at gathered
    refine ⟨⟨⟨kept, tiles, ?_, tight⟩, by omega, squeezed.outside⟩, gathered⟩
    have none : entries [view s.memory s.ep] = [] := entries_free free
    rw [same, entries_append, none, List.append_nil]

theorem Squeezed.next (squeezed : Squeezed m offset done s) (tiles : Tiles m (offset + extent done) (r :: rest) stop)
    (block : offset % 512 + extent (done ++ r :: rest) ≤ 512) : Squeezed m offset (done ++ [r]) (squeezeNext offset s) := by
  obtain ⟨here, sized, -⟩ := tiles
  simp only [extent_append, extent_cons] at block
  obtain ⟨⟨⟨kept, tiles, same, tight⟩, sum, outside⟩, slotfree⟩ := squeezed.trim (by omega)
  have holds := sized.holds
  have start := tiles.stop_eq
  rw [squeezeNext_eq, squeezed.loc]
  generalize Directory.trim s = t at *
  -- The record that is copied is still as it was.
  have copied : view t.memory (offset + extent done) = r :=
    (view_outside fun i low _ => outside i (.inr low)).trans here
  have size : dirsiz t.memory (offset + extent done) = r.dirsiz := by rw [← view_dirsiz, copied]
  have reclen : dReclen t.memory (offset + extent done) = r.reclen := congrArg Direct.reclen copied
  have header := header_lt (dNamlen t.memory (offset + extent done))
  rw [← dirsiz, size] at header
  rw [size, reclen, slotfree]
  have moved : view (t.memory.copy (offset + extent done) t.ep r.dirsiz) t.ep = r := by
    rw [← copied]
    refine view_congr fun i less => ?_
    rw [Memory.copy, if_pos (by rw [copied]; omega), Nat.add_sub_cancel_left]
  have still (i : Nat) (away : i < t.ep ∨ t.ep + r.dirsiz ≤ i) :
      t.memory.copy (offset + extent done) t.ep r.dirsiz i = t.memory i := by
    rw [Memory.copy, if_neg (by omega)]
  have alone : extent (done ++ [r]) = extent done + r.reclen := by simp
  have spare : r.reclen - r.dirsiz + (if r.ino = 0 then r.dirsiz else 0) = r.spare := by
    rw [Direct.spare]
    by_cases unused : r.ino = 0
    · rw [if_pos unused, if_neg (not_not.mpr unused)]
      omega
    · rw [if_neg unused, if_pos unused]
      omega
  generalize t.memory.copy (offset + extent done) t.ep r.dirsiz = m' at *
  have ino : dIno m' t.ep = r.ino := congrArg Direct.ino moved
  constructor
  · exact alone.symm
  · exact ⟨kept, tiles.congr fun i _ less => still i (.inl less), by rw [moved, entries_append, entries_append, same], tight⟩
  · rw [← view_dirsiz, moved]
  · rw [moved]
    exact sized.short
  · dsimp only
    rw [alone]
    omega
  · dsimp only
    rw [ino, free_append, free_cons, free_nil]
    omega
  · intro i away
    dsimp only
    rw [alone] at away
    rw [still i (by omega)]
    exact outside i (by omega)

theorem squeeze_spec (squeezed : Squeezed m offset done s) (tiles : Tiles m (offset + extent done) rest stop)
    (block : offset % 512 + extent (done ++ rest) ≤ 512) (enough : rest.length ≤ fuel) :
    Squeezed m offset (done ++ rest) (squeeze offset (extent (done ++ rest)) fuel s) := by
  induction rest generalizing done s fuel with
  | nil =>
    rw [List.append_nil]
    cases fuel with
    | zero => exact squeezed
    | succ fuel => rw [squeeze, squeezed.loc, if_neg (Nat.lt_irrefl _)]; exact squeezed
  | cons r rest ih =>
    obtain ⟨fuel, rfl⟩ : ∃ more, fuel = more + 1 := ⟨fuel - 1, by simp only [List.length_cons] at enough; omega⟩
    have after := squeezed.next tiles block
    obtain ⟨-, sized, others⟩ := tiles
    have large := sized.large
    have more : s.loc < extent (done ++ r :: rest) := by
      rw [squeezed.loc, extent_append, extent_cons]
      omega
    have place : offset + extent (done ++ [r]) = offset + extent done + r.reclen := by
      rw [extent_append, extent_cons, extent_nil]
      omega
    have split : done ++ r :: rest = done ++ [r] ++ rest := by rw [List.append_assoc, List.singleton_append]
    rw [squeeze, if_pos more]
    rw [split] at block ⊢
    exact ih after (place ▸ others) block (Nat.le_of_succ_le_succ enough)

theorem Tiles.length_le (tiles : Tiles m offset rs stop) : rs.length ≤ extent rs := by
  induction rs generalizing offset with
  | nil => exact Nat.le_refl 0
  | cons r rs ih =>
    obtain ⟨-, sized, rest⟩ := tiles
    have large := sized.large
    have more := ih rest
    rw [extent_cons, List.length_cons]
    omega

/-- The whole area: `ep` is a place for a record that takes all its free space. -/
theorem compacted {area : List Direct} (tiles : Tiles m offset area stop) (room : 8 ≤ free area)
    (block : offset % 512 + extent area ≤ 512) :
    let last := lastEntry (squeeze offset (extent area) (extent area)
      ⟨m, offset, dReclen m offset, dirsiz m offset, dReclen m offset - dirsiz m offset⟩)
    Gathered m offset area last.1 last.2 ∧ dReclen last.1 last.2 = free area := by
  have length := tiles.length_le
  cases area with
  | nil => exact absurd room (by decide)
  | cons r rest =>
    obtain ⟨rfl, sized, others⟩ := tiles
    have holds := sized.holds
    have first : Squeezed m offset [view m offset]
        ⟨m, offset, dReclen m offset, dirsiz m offset, dReclen m offset - dirsiz m offset⟩ := by
      rw [view_dirsiz] at holds
      have reclen : (view m offset).reclen = dReclen m offset := rfl
      refine ⟨by simp [reclen], ⟨[], rfl, rfl, nofun⟩, rfl, sized.short, ?_, ?_, fun _ _ => rfl⟩
      · simp only [extent_cons, extent_nil]
        omega
      · dsimp only
        rw [free_cons, free_nil, view_spare, spare]
        by_cases unused : dIno m offset = 0
        · rw [if_pos unused, if_neg (not_not.mpr unused)]
          omega
        · rw [if_neg unused, if_pos unused]
    have start : offset + extent [view m offset] = offset + (view m offset).reclen := by simp
    rw [← start] at others
    have all := (@squeeze_spec m offset stop (extent ([view m offset] ++ rest)) _ _ rest) first others block (Nat.le_of_succ_le length)
    rw [List.singleton_append] at all
    obtain ⟨⟨⟨kept, tiles, same, tight⟩, sum, outside⟩, slotfree⟩ := all.trim block
    have reach := tiles.stop_eq
    rw [lastEntry_eq, slotfree]
    generalize Directory.trim _ = t at *
    refine ⟨⟨⟨kept, tiles.congr fun i _ less => setReclen_outside (.inl less), same, tight⟩, sum, fun i away => ?_⟩, ?_⟩
    · dsimp only
      rw [setReclen_outside (by omega)]
      exact outside i away
    · exact congrArg Direct.reclen (view_setReclen (by omega))

end

end Svr4.Ufs.Directory
