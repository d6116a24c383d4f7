import Svr4.Foundation.Execution
import Svr4.Kernel.Ufs.DirectoryMap

/-! Directories over any run of operations. -/

namespace Svr4.Ufs.Directory

open Function
open Option (bind_eq_bind bind_some ite_none_left_eq_some)
open Prod (mk)
open Nat (zero_add)

/-! ## A new entry -/

section
variable {m : Memory} {o stop n ino ep : Nat} {d d₁ : Dir} {rs left area right front back used rest : List Direct} {r : Direct}
  {name : List UInt8} {slot : Slot} {block : Memory}

theorem behind_free (tiles : Tiles m o (front ++ back) stop) (split : front ++ back = used ++ rest) (less : extent used ≤ extent front)
    (free : ∀ r ∈ rest, r.ino = 0) : ∀ r ∈ back, r.ino = 0 := by
  rcases List.append_eq_append_iff.mp split with ⟨more, rfl, rfl⟩ | ⟨more, rfl, rfl⟩
  · cases more with
    | nil => exact free
    | cons x more =>
      obtain ⟨-, -, sized, -⟩ := tiles_append.mp tiles
      have large := sized.large
      simp only [extent_append, extent_cons] at less
      omega
  · exact fun r member => free r (List.mem_append_right _ member)

theorem entries_entered (used : ino ≠ 0) {kept : List Direct} (same : entries kept = entries area) :
    (entries (left ++ (kept ++ [⟨ino, n, name⟩] ++ right))).Perm ((name, ino) :: entries (left ++ (area ++ right))) := by
  have one : entries [⟨ino, n, name⟩] = [(name, ino)] := entries_used used
  have gathered : entries (left ++ (kept ++ [⟨ino, n, name⟩] ++ right)) = entries left ++ entries area ++ (name, ino) :: entries right := by
    rw [entries_append, entries_append, entries_append, one, same]
    simp [List.append_assoc]
  rw [gathered, entries_append, entries_append, ← List.append_assoc]
  exact List.perm_middle

theorem enter_area (tiled : Tiled d) (chosen : Area d name slot left area right) (some' : slot.status ≠ .none)
    (prepared : dirprepareentry d slot block = some (d₁, ep)) (used : ino ≠ 0) (small : ino < 2 ^ 32) (short : name.length ≤ 255) :
    ∃ rs, Tiles (fillEntry ep name ino d₁.memory) 0 rs
        (roundup (chop slot.endoff { d₁ with memory := fillEntry ep name ino d₁.memory }).iSize) ∧
      (entries rs).Perm ((name, ino) :: entries d.records) := by
  obtain ⟨-, size, gathered, reclen⟩ := prepare_area tiled chosen some' prepared
  have tiles := tiled.tiles
  rw [chosen.split] at tiles ⊢
  obtain ⟨before, others⟩ := tiles_append.mp tiles
  obtain ⟨middle, -⟩ := tiles_append.mp others
  have aligned := before.aligned
  rw [zero_add] at middle
  obtain ⟨kept, fresh, same, outside⟩ := fill_tiles middle gathered reclen chosen.room chosen.block aligned small short
  have whole := tiles.splice (by rw [zero_add]; exact fresh) (by rw [zero_add]; exact outside)
  rw [chop]
  split <;> rename_i shrinks
  · -- The blocks that are chopped off hold free records only.
    have high : slot.endoff ≤ roundup d.iSize := by
      have up := (@roundup_le d₁.iSize)
      have less := shrinks.2
      dsimp only at less
      omega
    obtain ⟨-, behind⟩ := tiles_append.mp (tiles_append.mp tiles).2
    rw [zero_add] at behind
    obtain ⟨right₁, right₂, rfl, reach⟩ := behind.boundary chosen.before high chosen.aligned
    obtain ⟨useful, rest, split, less, free⟩ := chosen.useful
    have regroup : left ++ (area ++ (right₁ ++ right₂)) = (left ++ (area ++ right₁)) ++ right₂ := by simp only [List.append_assoc]
    have none : entries right₂ = [] := by
      refine entries_all_free (behind_free (regroup ▸ tiles) (regroup ▸ chosen.split ▸ split) ?_ free)
      simp only [extent_append]
      omega
    have cut : left ++ (kept ++ [⟨ino, Directory.free area, name⟩] ++ (right₁ ++ right₂)) =
        left ++ (kept ++ [⟨ino, Directory.free area, name⟩] ++ right₁) ++ right₂ := by simp only [List.append_assoc]
    rw [cut] at whole
    obtain ⟨front, -⟩ := tiles_append.mp whole
    have length : extent (kept ++ [⟨ino, Directory.free area, name⟩]) = extent area := by
      have stop := fresh.stop_eq
      omega
    refine ⟨left ++ (kept ++ [⟨ino, Directory.free area, name⟩] ++ right₁), ?_, ?_⟩
    · dsimp only
      rw [roundup_self chosen.aligned]
      have stop : 0 + extent (left ++ (kept ++ [⟨ino, Directory.free area, name⟩] ++ right₁)) = slot.endoff := by
        rw [extent_append, extent_append, length]
        omega
      exact stop ▸ front
    · have less : entries (left ++ (area ++ (right₁ ++ right₂))) = entries (left ++ (area ++ right₁)) := by
        rw [regroup, entries_append, none, List.append_nil]
      rw [less]
      exact entries_entered used same
  · refine ⟨left ++ (kept ++ [⟨ino, Directory.free area, name⟩] ++ right), ?_, entries_entered used same⟩
    rw [size]
    exact whole

theorem enter_block (tiled : Tiled d) (prepared : dirprepareentry d ⟨.none, some (roundup d.iSize), 512, 0⟩ block = some (d₁, ep))
    (used : ino ≠ 0) (small : ino < 2 ^ 32) (short : name.length ≤ 255) :
    ∃ rs, Tiles (fillEntry ep name ino d₁.memory) 0 rs
        (roundup (chop 0 { d₁ with memory := fillEntry ep name ino d₁.memory }).iSize) ∧
      (entries rs).Perm ((name, ino) :: entries d.records) := by
  have tiles := tiled.tiles
  have reach := tiles.stop_eq
  have mod := (@roundup_mod d.iSize)
  have large : ldirsiz name.length ≤ 512 := by
    rw [ldirsiz]
    omega
  simp only [dirprepareentry, bind_eq_bind, bind_some, mod, ne_eq, not_true_eq_false, if_false] at prepared
  cases prepared
  have unchopped (e : Dir) : chop 0 e = e := if_neg fun wrong => wrong.1 rfl
  rw [unchopped]
  dsimp only
  rw [@roundup_self (roundup d.iSize + 512) (by omega)]
  refine ⟨d.records ++ [⟨ino, 512, name⟩], tiles_append.mpr ⟨?_, ?_⟩, ?_⟩
  · rw [zero_add] at reach ⊢
    rw [← reach]
    refine tiles.congr fun i _ less => ?_
    rw [fillEntry_outside (.inl less), setReclen_outside (.inl less), if_neg (by omega)]
  · rw [← reach]
    refine ⟨?_, ⟨by dsimp only, ?_, large, short⟩, rfl⟩
    · rw [view_fillEntry small short]
      exact congrArg (Direct.mk ino · name) (congrArg Direct.reclen (view_setReclen (by decide)))
    · dsimp only
      omega
  · have one : entries [⟨ino, 512, name⟩] = [(name, ino)] := entries_used used
    rw [entries_append, one]
    exact List.perm_append_singleton _ _

end

/-! ## A directory that is its own parent -/

/-- `..` is behind an entry of 12 bytes and names the directory itself, as in a root directory. -/
def OwnParent (d : Dir) : Prop :=
  ∃ dot dotdot others, d.records = dot :: dotdot :: others ∧ dot.ino ≠ 0 ∧ dot.reclen = 12 ∧ dotdot.ino = d.iNumber

section
variable {m' : Memory} {ep : Nat} {d d₁ : Dir} {left area right used kept : List Direct} {r : Direct}
  {name : List UInt8} {slot : Slot} {block : Memory}

theorem entries_tight (tight : ∀ r ∈ kept, r.Tight) : entries kept = kept.map fun r => (r.name, r.ino) := by
  induction kept with
  | nil => rfl
  | cons r kept ih =>
    have first := tight r (.head _)
    rw [entries_used first.1, List.map_cons, ih fun x member => tight x (.tail _ member)]

/-- Compaction leaves `..` where it is. -/
theorem dotdot_stays {dot dotdot : Direct} {others : List Direct} (tiled : Tiled d) (records : d.records = dot :: dotdot :: others)
    (used : dot.ino ≠ 0) (short : dot.reclen = 12) (used' : dotdot.ino ≠ 0) (chosen : Area d name slot left area right)
    (gathered : Gathered d.memory (extent left) area m' ep) : dIno m' 12 = dotdot.ino := by
  have tiles := tiled.tiles
  rw [records] at tiles
  obtain ⟨-, sized, second, sized', -⟩ := tiles
  rw [short] at second
  have large := sized'.large
  have split := chosen.split
  rw [records] at split
  obtain ⟨⟨kept, tiles', same, tight⟩, -, outside⟩ := gathered
  rw [entries_tight tight] at same
  cases left with
  | nil =>
    have room := chosen.room
    have header := header_lt name.length
    cases area with
    | nil =>
      simp at room
      omega
    | cons x area =>
      obtain ⟨rfl, tail⟩ := List.cons.inj split
      have full : dot.dirsiz = 12 := by
        have holds := sized.holds
        have mod := ldirsiz_mod dot.name.length
        have least := header_lt dot.name.length
        rw [Direct.dirsiz] at holds ⊢
        omega
      cases area with
      | nil =>
        rw [free_cons, free_nil, Direct.spare, if_pos used, full, short] at room
        omega
      | cons y area =>
        obtain ⟨rfl, -⟩ := List.cons.inj tail
        rw [entries_used used, entries_used used'] at same
        rcases kept with _ | ⟨k, _ | ⟨k', kept⟩⟩
        · cases same
        · cases (List.cons.inj same).2
        · obtain ⟨first, same⟩ := List.cons.inj same
          obtain ⟨second', -⟩ := List.cons.inj same
          have size : k.reclen = 12 := by
            rw [(tight k (.head _)).2, Direct.dirsiz, (mk.inj first).1]
            exact full
          obtain ⟨-, -, here, -⟩ := tiles'
          rw [size] at here
          exact (congrArg Direct.ino here).trans (mk.inj second').2
  | cons x left =>
    cases left with
    | nil =>
      obtain ⟨rfl, tail⟩ := List.cons.inj split
      have place : extent [dot] = 12 := by simp [short]
      rw [place] at tiles'
      cases area with
      | nil => 
        have room := chosen.room
        have header := header_lt name.length
        simp at room
        omega
      | cons y area =>
        obtain ⟨rfl, -⟩ := List.cons.inj tail
        rw [entries_used used'] at same
        cases kept with
        | nil => cases same
        | cons k kept =>
          obtain ⟨pair, -⟩ := List.cons.inj same
          exact (congrArg Direct.ino tiles'.1).trans (mk.inj pair).2
    | cons y left =>
      obtain ⟨rfl, rfl, -⟩ : x = dot ∧ y = dotdot ∧ _ := by
        simp only [List.cons_append, List.cons.injEq] at split
        exact ⟨split.1.symm, split.2.1.symm, trivial⟩
      have still := (@Memory.fetch_congr d.memory m' 12 12 4) fun i less => outside _ (.inl (by
        simp only [extent_cons]
        omega))
      exact still.trans (congrArg Direct.ino second)

theorem fix_nothing (tiled : Tiled d) (own : OwnParent d) (number : d.iNumber ≠ 0) (chosen : Chosen d name slot)
    (prepared : dirprepareentry d slot block = some (d₁, ep)) : dirfixdotdot d₁ = some d₁ := by
  obtain ⟨dot, dotdot, others, records, used, short, parent⟩ := own
  have same : dIno d₁.memory 12 = d₁.iNumber := by
    rcases chosen with rfl | ⟨some', left, area, right, chosen⟩
    · have mod := (@roundup_mod d.iSize)
      simp only [dirprepareentry, bind_eq_bind, bind_some, mod, ne_eq, not_true_eq_false, if_false] at prepared
      cases prepared
      have tiles := tiled.tiles
      rw [records] at tiles
      have reach := tiles.stop_eq
      obtain ⟨-, -, second, sized', -⟩ := tiles
      rw [short] at second
      simp only [extent_cons] at reach
      have still := (@Memory.fetch_congr d.memory (setReclen (roundup d.iSize) 512
        fun i => if roundup d.iSize ≤ i ∧ i < roundup d.iSize + 512 then block i else d.memory i) 12 12 4) fun i less => by
          rw [setReclen_outside (by omega), if_neg (by omega)]
      exact (still.trans (congrArg Direct.ino second)).trans parent
    · obtain ⟨same, -, gathered, -⟩ := prepare_area tiled chosen some' prepared
      rw [same, ← parent]
      exact dotdot_stays tiled records used short (parent ▸ number) chosen gathered
  rw [dirfixdotdot]
  split
  · rfl
  · exact if_pos same

end

/-! ## Runs -/

/-- Inode numbers are not 0. -/
def Given : Op → Prop
  | .enter _ ino _ | .rename _ ino _ => ino ≠ 0 ∧ ino < 2 ^ 32
  | .remove _ => True

/-- A directory is linked into itself only if it is its own parent. -/
def Apart (d : Dir) : Op → Prop
  | .enter _ ino _ => ino = d.iNumber → OwnParent d
  | _ => True

def Step (d : Dir) (op : Op) (d' : Dir) : Prop := Given op ∧ apply op d = some d'

/-- What an operation is to do to the map. -/
def Op.Does : Op → (List UInt8 → Option Nat) → (List UInt8 → Option Nat) → Prop
  | .enter name ino _, before, after => before name.chars = none ∧ after = update before name.chars (some ino)
  | .rename name ino _, before, after => after = update before name.chars (some ino)
  | .remove name, before, after => before name.chars ≠ none ∧ after = update before name.chars none

section
variable {ino ep : Nat} {d d' : Dir} {rs : List Direct} {name : List UInt8} {slot slot' : Slot} {block : Memory} {op : Op}
  {left right : List Direct} {r : Direct}

theorem map_of (tiles : Tiles d.memory 0 rs (roundup d.iSize)) : d.map = fun key => (entries rs).lookup key := by
  funext key
  rw [Dir.map, records_eq tiles]

theorem map_absent (tiled : Tiled d) (absent : ∀ r ∈ d.records, ¬ r.Has name) : d.map name = none := by
  cases found : d.map name with
  | none => rfl
  | some value =>
    have member := (lookup_iff tiled.unique).mp found
    exact absurd (List.mem_map.mpr ⟨_, member, rfl⟩) (names_iff.mpr absent)

theorem entered (tiled : Tiled d) (absent : ∀ r ∈ d.records, ¬ r.Has name) (tiles : Tiles d'.memory 0 rs (roundup d'.iSize))
    (perm : (entries rs).Perm ((name, ino) :: entries d.records)) :
    Tiled d' ∧ d.map name = none ∧ d'.map = update d.map name (some ino) := by
  obtain ⟨unique, same⟩ := lookup_insert tiled.unique perm (names_iff.mpr absent)
  exact ⟨tiled_iff.mpr ⟨rs, tiles, unique⟩, map_absent tiled absent, (map_of tiles).trans same⟩

theorem chop_memory {endoff : Nat} : (chop endoff d).memory = d.memory := by
  rw [chop]
  split
  · rfl
  · rfl

theorem prepare_number (prepared : dirprepareentry d slot block = some (d', ep)) : d'.iNumber = d.iNumber := by
  obtain ⟨status, offset, size, endoff⟩ := slot
  cases offset with
  | none => cases prepared
  | some offset =>
    simp only [dirprepareentry, bind_eq_bind, bind_some] at prepared
    cases status with
    | none =>
      simp only [ite_none_left_eq_some] at prepared
      rw [← (mk.inj (Option.some.inj prepared.2)).1]
    | found => rw [← (mk.inj (Option.some.inj prepared)).1]
    | compact => rw [← (mk.inj (Option.some.inj prepared)).1]
    | exist => cases prepared

theorem diraddentry_eq {d₁ : Dir} (prepared : dirprepareentry d slot block = some (d₁, ep))
    (fixed : ino = d₁.iNumber → dirfixdotdot d₁ = some d₁) : diraddentry d name ino slot block =
      some (chop slot.endoff { d₁ with memory := fillEntry ep name ino d₁.memory }) := by
  simp only [diraddentry, prepared, bind_eq_bind, bind_some]
  by_cases number : ino = d₁.iNumber
  · rw [if_pos number, fixed number]
    rfl
  · rw [if_neg number]
    rfl

section
variable (tiled : Tiled d)
include tiled

theorem diraddentry_enters (absent : ∀ r ∈ d.records, ¬ r.Has name) (chosen : Chosen d name slot)
    (used : ino ≠ 0) (small : ino < 2 ^ 32) (short : name.length ≤ 255) (own : ino = d.iNumber → OwnParent d)
    (added : diraddentry d name ino slot block = some d') :
    Tiled d' ∧ d.map name = none ∧ d'.map = update d.map name (some ino) := by
  obtain ⟨⟨d₁, ep⟩, prepared, -⟩ := Option.bind_eq_some_iff.mp added
  have fixed (number : ino = d₁.iNumber) : dirfixdotdot d₁ = some d₁ := by
    have self : ino = d.iNumber := number.trans (prepare_number prepared)
    exact fix_nothing tiled (own self) (self ▸ used) chosen prepared
  rw [diraddentry_eq prepared fixed] at added
  cases added
  rcases chosen with rfl | ⟨some', left, area, right, chosen⟩
  · obtain ⟨rs, tiles, perm⟩ := enter_block tiled prepared used small short
    exact entered tiled absent (chop_memory.symm ▸ tiles) perm
  · obtain ⟨rs, tiles, perm⟩ := enter_area tiled chosen some' prepared used small short
    exact entered tiled absent (chop_memory.symm ▸ tiles) perm

theorem direnter_changes (split : d.records = left ++ r :: right)
    (has : r.Has name) (used : ino ≠ 0) (small : ino < 2 ^ 32) :
    Tiled { d with memory := setIno (extent left) ino d.memory } ∧
      Dir.map { d with memory := setIno (extent left) ino d.memory } = update d.map name (some ino) := by
  have tiles := tiled.tiles
  have unique := tiled.unique
  have before := map_of tiles
  rw [split] at tiles unique before
  have after := setIno_tiles tiles small
  rw [zero_add] at after
  have one : entries (left ++ r :: right) = entries left ++ (name, r.ino) :: entries right := by
    rw [entries_append, entries_used has.1, has.2]
  have other : entries (left ++ { r with ino := ino } :: right) = entries left ++ (name, ino) :: entries right := by
    rw [entries_append, entries_used used]
    exact congrArg _ (congrArg (· :: _) (congrArg (·, ino) has.2))
  rw [one] at unique before
  obtain ⟨unique', same⟩ := (@lookup_change ino r.ino name (entries left) (entries right)) unique
  rw [← other] at unique' same
  refine ⟨tiled_iff.mpr ⟨_, after, unique'⟩, ?_⟩
  rw [map_of (d := { d with memory := setIno (extent left) ino d.memory }) after, same, before]

theorem removed (split : d.records = left ++ r :: right) (has : r.Has name)
    (tiles : Tiles d'.memory 0 rs (roundup d'.iSize)) (same : entries rs = entries left ++ entries right) :
    Tiled d' ∧ d.map name ≠ none ∧ d'.map = update d.map name none := by
  have unique := tiled.unique
  have before := map_of (split ▸ tiled.tiles)
  have one : entries (left ++ r :: right) = entries left ++ (name, r.ino) :: entries right := by
    rw [entries_append, entries_used has.1, has.2]
  rw [split, one] at unique
  rw [one] at before
  obtain ⟨unique', -, less⟩ := lookup_remove unique
  rw [← same] at unique' less
  refine ⟨tiled_iff.mpr ⟨rs, tiles, unique'⟩, ?_, ?_⟩
  · have there : d.map name = some r.ino := by
      rw [before]
      exact (lookup_iff unique).mpr (List.mem_append_right _ (.head _))
    rw [there]
    exact Option.some_ne_none _
  · rw [map_of tiles, less, before]

/-- The space of the entry goes to the one before it, unless it is the first of its block. -/
theorem dirremove_removes (gone : dirremove d name = some d') :
    Tiled d' ∧ d.map name ≠ none ∧ d'.map = update d.map name none := by
  rw [dirremove, ite_none_left_eq_some] at gone
  obtain ⟨-, gone⟩ := gone
  rcases (@dircheckforname_spec d name ⟨.found, none, 0, 0⟩) tiled with ⟨left, r, right, slot, split, has, found, size⟩ | ⟨-, slot, missed, -⟩
  · have tiles := tiled.tiles
    rw [split] at tiles
    simp only [found] at gone
    by_cases first : extent left % 512 = 0
    · rw [if_pos first] at gone
      cases gone
      have after := (@setIno_tiles d.memory 0 (roundup d.iSize) 0 left right r) tiles (by decide)
      rw [zero_add] at after
      refine removed tiled split has after ?_
      have free : entries ({ r with ino := 0 } :: right) = entries right := entries_free rfl
      rw [entries_append, free]
    · rw [if_neg first] at gone
      cases gone
      obtain rfl | ⟨front, p, rfl⟩ := List.eq_nil_or_concat left
      · exact absurd rfl first
      · rw [List.concat_eq_append] at *
        have place := size front p rfl
        obtain ⟨before, last, -⟩ := tiles_append.mp tiles
        obtain ⟨-, previous, -, -⟩ := tiles_append.mp before
        rw [zero_add] at last previous
        rw [List.append_assoc, List.singleton_append] at tiles
        have inside : (0 + extent front + p.reclen) % 512 ≠ 0 := by
          rw [extent_append] at first
          simpa using first
        have after := merge_tiles tiles inside
        rw [zero_add] at after
        have reclens : dReclen d.memory (extent front) + dReclen d.memory (extent (front ++ [p])) = p.reclen + r.reclen := by
          rw [← congrArg Direct.reclen previous, ← congrArg Direct.reclen last]
          rfl
        rw [place, reclens]
        refine removed tiled split has after ?_
        have same : entries ({ p with reclen := p.reclen + r.reclen } :: right) = entries (p :: right) := entries_cons_congr rfl rfl
        rw [entries_append, same, ← entries_append, ← entries_append, List.append_assoc, List.singleton_append]
  · simp only [missed] at gone
    cases gone

/-- Every operation that succeeds keeps the shape and does to the map what it is for. -/
theorem step_does (step : Step d op d') (apart : Apart d op) : Tiled d' ∧ op.Does d.map d'.map := by
  obtain ⟨given, call⟩ := step
  cases op with
  | enter name ino block =>
    obtain ⟨used, small⟩ := given
    rw [apply, direnter, ite_none_left_eq_some] at call
    obtain ⟨-, call⟩ := call
    rcases (@dircheckforname_spec d name.chars newSlot) tiled with ⟨left, r, right, slot, split, has, found, -⟩ | ⟨absent, slot, missed, chosen⟩
    · simp only [found] at call
      cases call
    · simp only [missed] at call
      exact diraddentry_enters tiled absent (chosen rfl) used small name.short apart call
  | rename name ino block =>
    obtain ⟨used, small⟩ := given
    rw [apply, direnter, ite_none_left_eq_some] at call
    obtain ⟨differ, call⟩ := call
    rcases (@dircheckforname_spec d name.chars newSlot) tiled with ⟨left, r, right, slot, split, has, found, -⟩ | ⟨absent, slot, missed, chosen⟩
    · simp only [found, Option.ite_none_right_eq_some] at call
      cases call.2
      exact direnter_changes tiled split has used small
    · simp only [missed] at call
      obtain ⟨after, -, same⟩ := diraddentry_enters tiled absent (chosen rfl) used small name.short
        (fun self => absurd (.inr ⟨rfl, self⟩) differ) call
      exact ⟨after, same⟩
  | remove name => exact dirremove_removes tiled call

end

/-- In every run in which no directory but its own parent is linked into itself, a directory is the
map that its operations make it, and every slot chosen has room. -/
theorem directory_refines (reached : Reaches Tiled Step Apart d) : Tiled d ∧
    (∀ (name : Name) slot, dircheckforname d name.chars newSlot = (none, slot) → Chosen d name.chars slot) ∧
    ∀ op d', Step d op d' → Apart d op → Tiled d' ∧ op.Does d.map d'.map := by
  have tiled : Tiled d := (@Reaches.invariant Dir Op Tiled Step Apart Tiled) (fun _ initial => initial)
    (fun s op t holds step apart => (step_does holds step apart).1) reached
  refine ⟨tiled, fun name slot missed => ?_, fun op d' step apart => step_does tiled step apart⟩
  rcases (@dircheckforname_spec d name.chars newSlot) tiled with ⟨_, _, _, _, -, -, found, -⟩ | ⟨-, slot', result, chosen⟩
  · rw [found] at missed
    cases missed
  · obtain rfl := (mk.inj (missed.symm.trans result)).2
    exact chosen rfl

end

/-! ## A new directory -/

section
variable {ip dp : Nat} {block : Memory}

/-- The directory of `mkdir` has `.` and `..`. -/
theorem dirmakedirect_tiles (small : ip < 2 ^ 32) (small' : dp < 2 ^ 32) :
    Tiles (dirmakedirect ip dp block).memory 0 [⟨ip, 12, [46]⟩, ⟨dp, 500, [46, 46]⟩] 512 := by
  have dot : view (fillEntry 0 [46] ip (setReclen 0 12 block)) 0 = ⟨ip, 12, [46]⟩ := by
    rw [view_fillEntry small (by decide)]
    exact congrArg (Direct.mk ip · [46]) (congrArg Direct.reclen (view_setReclen (by decide)))
  have dotdot : view (dirmakedirect ip dp block).memory 12 = ⟨dp, 500, [46, 46]⟩ := by
    rw [dirmakedirect, view_fillEntry small' (by decide)]
    exact congrArg (Direct.mk dp · [46, 46]) (congrArg Direct.reclen (view_setReclen (by decide)))
  have first : view (dirmakedirect ip dp block).memory 0 = ⟨ip, 12, [46]⟩ := by
    rw [← dot]
    refine view_outside fun i _ less => ?_
    rw [← view_dirsiz, dot] at less
    have before : i < 12 := by simpa [Direct.dirsiz, ldirsiz] using less
    rw [dirmakedirect]
    dsimp only
    rw [fillEntry_outside (.inl before), setReclen_outside (.inl before)]
  have sized : Sized 0 ⟨ip, 12, [46]⟩ :=
    ⟨show 12 % 4 = 0 by decide, show 12 ≤ 512 - 0 % 512 by decide, show ldirsiz 1 ≤ 12 by decide, show 1 ≤ 255 by decide⟩
  have sized' : Sized 12 ⟨dp, 500, [46, 46]⟩ :=
    ⟨show 500 % 4 = 0 by decide, show 500 ≤ 512 - 12 % 512 by decide, show ldirsiz 2 ≤ 500 by decide, show 2 ≤ 255 by decide⟩
  exact ⟨first, sized, dotdot, sized', rfl⟩

theorem dirmakedirect_tiled (used : ip ≠ 0) (small : ip < 2 ^ 32) (used' : dp ≠ 0) (small' : dp < 2 ^ 32) :
    Tiled (dirmakedirect ip dp block) := by
  have size : roundup (dirmakedirect ip dp block).iSize = 512 := show roundup 512 = 512 by decide
  refine tiled_iff.mpr ⟨_, size.symm ▸ dirmakedirect_tiles small small', ?_⟩
  rw [entries_used used, entries_used used', entries_nil]
  simp

end

/-- A new directory 7 in the directory 5. -/
def made : Dir := dirmakedirect 7 5 fun _ => 0

theorem made_tiled : Tiled made := dirmakedirect_tiled (by decide) (by decide) (by decide) (by decide)

def letter : Name := ⟨[120], by decide, by decide, by decide⟩

/-- A file is entered in it. -/
theorem directory_refines_made : ∃ d', Step made (.enter letter 9 fun _ => 0) d' ∧ Tiled d' ∧
    Op.Does (.enter letter 9 fun _ => 0) made.map d'.map := by
  have succeeds : (apply (.enter letter 9 fun _ => 0) made).isSome := by decide +kernel
  obtain ⟨d', call⟩ := Option.isSome_iff_exists.mp succeeds
  have step : Step made (.enter letter 9 fun _ => 0) d' := ⟨⟨by decide, by decide⟩, call⟩
  exact ⟨d', step, (directory_refines (.start made_tiled)).2.2 _ _ step nofun⟩

/-- It is linked into itself, and its `..` has gone. -/
theorem dotdot_rewritten : Tiled made ∧ ∃ d', Step made (.enter letter 7 fun _ => 0) d' ∧ made.map [46, 46] = some 5 ∧
    d'.map [46, 46] = some 7 := by
  have result : (apply (.enter letter 7 fun _ => 0) made).map (fun d' => d'.map [46, 46]) = some (some 7) := by decide +kernel
  obtain ⟨d', call, same⟩ := Option.map_eq_some_iff.mp result
  exact ⟨made_tiled, d', ⟨⟨by decide, by decide⟩, call⟩, by decide +kernel, same⟩

end Svr4.Ufs.Directory
