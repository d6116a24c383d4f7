import Svr4.Kernel.Ufs.DirectoryRuns

/-! `ufs_dirlook`, which begins where the last name was found and goes around.

The name is not in the name cache, and the directory may be searched. The bytes behind a block are those of the next one.
-/

namespace Svr4.Ufs.Directory

def damaged (m : Memory) (ep : Nat) : Bool := dReclen m ep = 0 || dirchk && dirmangled m ep

/-- The offset of the next round. -/
def onward (m : Memory) (offset : Nat) : Nat :=
  if damaged m offset then offset + (512 - offset % 512) else offset + dReclen m offset

/-- The name is matched at a record that is not damaged. -/
def hit (m : Memory) (name : List UInt8) (ep : Nat) : Bool := !damaged m ep && matching m name ep

/-- `searchloop:`, which has no result when the fuel ends. -/
def searchloop (m : Memory) (name : List UInt8) (endsearch : Nat) : Nat → Nat → Option (Option Nat)
  | 0, _ => none
  | fuel + 1, offset =>
    if endsearch ≤ offset then some none
    else if hit m name offset then some (some offset)
    else searchloop m name endsearch fuel (onward m offset)

/-- The offset of the entry, which is then `i_diroff`. -/
def ufsDirlook (d : Dir) (iDiroff : Nat) (name : List UInt8) : Option (Option Nat) :=
  let diroff := if d.iSize < iDiroff then 0 else iDiroff
  let endsearch := roundup d.iSize
  match searchloop d.memory name endsearch (endsearch + 1) diroff with
  | some none => if diroff = 0 then some none else searchloop d.memory name diroff (diroff + 1) 0
  | result => result

/-- The rounds from one offset on come to another, in front of the end. -/
inductive Meets (m : Memory) (stop : Nat) : Nat → Nat → Prop where
  | here {o : Nat} : o < stop → Meets m stop o o
  | next {o e : Nat} : o < stop → Meets m stop (onward m o) e → Meets m stop o e

/-- What a search for the name answers, from one offset on. -/
def Answers (m : Memory) (name : List UInt8) (stop o : Nat) : Option Nat → Prop
  | some ep => Meets m stop o ep ∧ hit m name ep = true
  | none => ∀ ep, Meets m stop o ep → hit m name ep = false

/-- An offset to which the search of all the directory comes, or one out of the directory: a change of the directory sets
the remembered offset to 0. -/
def Fresh (d : Dir) (iDiroff : Nat) : Prop :=
  iDiroff = 0 ∨ d.iSize < iDiroff ∨ iDiroff = roundup d.iSize ∨ Meets d.memory (roundup d.iSize) 0 iDiroff

section
variable {m : Memory} {d : Dir} {name : List UInt8} {stop o e diroff : Nat}

theorem lt_onward : o < onward m o := by
  unfold onward
  split
  · have := Nat.mod_lt o (show 0 < 512 by decide)
    omega
  · next sound =>
    have some' : dReclen m o ≠ 0 := fun zero => sound (by simp [damaged, zero])
    omega

theorem Meets.le (meets : Meets m stop o e) : o ≤ e ∧ e < stop := by
  induction meets with
  | here inside => exact ⟨le_rfl, inside⟩
  | next _ _ ih => exact ⟨lt_onward.le.trans ih.1, ih.2⟩

theorem meets_iff : Meets m stop o e ↔ o < stop ∧ (e = o ∨ Meets m stop (onward m o) e) := by
  constructor
  · rintro (inside | ⟨inside, later⟩)
    · exact ⟨inside, .inl rfl⟩
    · exact ⟨inside, .inr later⟩
  · rintro ⟨inside, rfl | later⟩
    · exact .here inside
    · exact .next inside later

theorem searchloop_answers {fuel : Nat} (enough : stop - o < fuel) :
    ∃ result, searchloop m name stop fuel o = some result ∧ Answers m name stop o result := by
  induction fuel generalizing o with
  | zero => cases enough
  | succ fuel ih =>
    rw [searchloop]
    split
    · next ends => exact ⟨none, rfl, fun ep meets => absurd meets.le (by omega)⟩
    · next inside =>
      have inside : o < stop := not_le.mp inside
      split
      · next found => exact ⟨some o, rfl, .here inside, found⟩
      · next missed =>
        have further : o < onward m o := lt_onward
        obtain ⟨result, search, answers⟩ := ih (show stop - onward m o < fuel by omega)
        refine ⟨result, search, ?_⟩
        cases result with
        | some ep => exact ⟨.next inside answers.1, answers.2⟩
        | none =>
          intro ep meets
          rcases (meets_iff.mp meets).2 with rfl | later
          · simpa using missed
          · exact answers ep later

theorem Meets.around (meets : Meets m stop o diroff) : Meets m stop o e ↔ Meets m diroff o e ∨ Meets m stop diroff e := by
  induction meets with
  | @here o _ =>
    constructor
    · exact .inr
    · rintro (first | second)
      · exact absurd first.le (by omega)
      · exact second
  | @next o diroff inside later ih =>
    have before : o < diroff := lt_onward.trans_le later.le.1
    rw [@meets_iff m stop o e, @meets_iff m diroff o e, ih]
    simp [inside, before, or_assoc]

theorem dirlook_fresh (fresh : Fresh d diroff) :
    ∃ result, ufsDirlook d diroff name = some result ∧ Answers d.memory name (roundup d.iSize) 0 result := by
  have size : d.iSize ≤ roundup d.iSize := roundup_le
  unfold Fresh at fresh
  generalize stops : roundup d.iSize = stop at fresh size ⊢
  generalize starts : (if d.iSize < diroff then 0 else diroff) = start
  have around : start = 0 ∨ ∀ ep, Meets d.memory stop 0 ep ↔ Meets d.memory start 0 ep ∨ Meets d.memory stop start ep := by
    subst starts
    split
    · exact .inl rfl
    · next inside =>
      rcases fresh with first | out | rfl | meets
      · exact .inl first
      · exact absurd out inside
      · exact .inr fun ep => ⟨.inl, fun either => either.resolve_right fun meets => absurd meets.le (by omega)⟩
      · exact .inr fun ep => meets.around
  obtain ⟨first, search, answers⟩ := @searchloop_answers d.memory name stop start (stop + 1) (by omega)
  simp only [ufsDirlook, stops, starts, search]
  rcases around with rfl | around
  · cases first with
    | some ep => exact ⟨some ep, rfl, answers⟩
    | none => exact ⟨none, rfl, answers⟩
  · cases first with
    | some ep => exact ⟨some ep, rfl, (around ep).mpr (.inr answers.1), answers.2⟩
    | none =>
      obtain ⟨second, search', answers'⟩ := @searchloop_answers d.memory name start 0 (start + 1) (by omega)
      by_cases zero : start = 0
      · subst zero
        exact ⟨none, rfl, answers⟩
      · simp only [if_neg zero, search']
        refine ⟨second, rfl, ?_⟩
        cases second with
        | some ep => exact ⟨(around ep).mpr (.inl answers'.1), answers'.2⟩
        | none =>
          intro ep meets
          rcases (around ep).mp meets with meets | meets
          · exact answers' ep meets
          · exact answers ep meets

theorem dirlook_ends : ∃ result, ufsDirlook d diroff name = some result := by
  unfold ufsDirlook
  dsimp only
  generalize (if d.iSize < diroff then 0 else diroff) = start
  obtain ⟨first, search, _⟩ := @searchloop_answers d.memory name (roundup d.iSize) start (roundup d.iSize + 1) (by omega)
  obtain ⟨second, search', _⟩ := @searchloop_answers d.memory name start 0 (start + 1) (by omega)
  rw [search, search']
  cases first with
  | some ep => exact ⟨some ep, rfl⟩
  | none =>
    by_cases zero : start = 0
    · exact ⟨none, if_pos zero⟩
    · exact ⟨second, if_neg zero⟩

end

end Svr4.Ufs.Directory
