import Mathlib.Algebra.BigOperators.Pi
import Mathlib.Algebra.Order.BigOperators.Group.Finset
import Mathlib.Tactic.Abel
import Mathlib.Tactic.IntervalCases
import Svr4.Kernel.Ufs.Links

/-! The link counts over runs of `ufs_direnter` and `ufs_dirremove`. -/

namespace Svr4.Ufs.Links

open Finset (range sum_congr mem_range)

/-! ## Counting entries -/

def one (i : Nat) : Nat → Int := Pi.single i 1

/-- The entries that name each inode. -/
def naming : List Entry → Nat → Int
  | [] => 0
  | e :: rest => one e.2 + naming rest

def names (n : Nat) (s : Inodes) : Nat → Int := ∑ d ∈ range n, naming (s d).entries

/-- Every link count is the number of entries that name the inode. -/
def Exact (n : Nat) (s : Inodes) : Prop := ∀ i, (s i).nlink = names n s i

section
variable {name : Name} {entries rest : List Entry} {i j ino tip : Nat}

theorem one_nonneg : 0 ≤ one i j := by
  simp only [one, Pi.single_apply]
  split <;> decide

@[simp] theorem one_same : one i i = 1 := Pi.single_eq_same i 1

theorem one_ne (differ : j ≠ i) : one i j = 0 := Pi.single_eq_of_ne differ 1

theorem naming_append : naming (entries ++ rest) = naming entries + naming rest := by
  induction entries with
  | nil => simp [naming]
  | cons e entries ih => rw [List.cons_append, naming, naming, ih, add_assoc]

theorem naming_nonneg : 0 ≤ naming entries i := by
  induction entries with
  | nil => exact le_rfl
  | cons e entries ih => exact add_nonneg one_nonneg ih

theorem naming_member (member : (name, i) ∈ entries) : 1 ≤ naming entries i := by
  induction entries with
  | nil => cases member
  | cons e entries ih =>
    show 1 ≤ one e.2 i + naming entries i
    rcases List.mem_cons.mp member with rfl | later
    · have rest : 0 ≤ naming entries i := naming_nonneg
      rw [one_same]
      omega
    · have first : 0 ≤ one e.2 i := one_nonneg
      have more := ih later
      omega

theorem find_member (found : checkForName name entries = some tip) : (name, tip) ∈ entries := by
  obtain ⟨e, first, rfl⟩ := Option.map_eq_some_iff.mp found
  have same : e.1 = name := by simpa using List.find?_some first
  have member := List.mem_of_find?_eq_some first
  rwa [← same]

theorem find_cons (e : Entry) : checkForName name (e :: entries) = if e.1 = name then some e.2 else checkForName name entries := by
  simp only [checkForName, List.find?_cons]
  split <;> simp_all

theorem naming_rewrite (found : checkForName name entries = some tip) :
    naming (rewrite name ino entries) + one tip = naming entries + one ino := by
  induction entries with
  | nil => cases found
  | cons e entries ih =>
    rw [find_cons] at found
    by_cases same : e.1 = name
    · rw [if_pos same] at found
      cases found
      rw [rewrite, if_pos same, naming, naming]
      abel
    · rw [if_neg same] at found
      have less := ih found
      rw [rewrite, if_neg same, naming, naming, add_assoc, less]
      abel

theorem naming_erase (found : checkForName name entries = some tip) :
    naming (entries.eraseP fun e => e.1 = name) + one tip = naming entries := by
  induction entries with
  | nil => cases found
  | cons e entries ih =>
    rw [find_cons] at found
    by_cases same : e.1 = name
    · rw [if_pos same] at found
      cases found
      rw [List.eraseP_cons_of_pos (by simpa using same), naming]
      abel
    · rw [if_neg same] at found
      have less := ih found
      rw [List.eraseP_cons_of_neg (by simpa using same), naming, naming, add_assoc, less]

end

/-! ## The primitive changes -/

section
variable {n i d : Nat} {k : Int} {entries : List Entry} {value : Inode → Inode} {s : Inodes}

@[simp] theorem set_same : set i value s i = value (s i) := Function.update_self ..

theorem set_other {j : Nat} (differ : j ≠ i) : set i value s j = s j := Function.update_of_ne differ ..

theorem set_field {α : Type} (field : Inode → α) (keeps : ∀ inode, field (value inode) = field inode) (j : Nat) :
    field (set i value s j) = field (s j) := by
  by_cases same : j = i
  · subst same
    rw [set_same, keeps]
  · rw [set_other same]

@[simp] theorem addLink_entries (j : Nat) : (addLink i k s j).entries = (s j).entries := by
  exact set_field Inode.entries (by intro inode; rfl) j

@[simp] theorem addLink_isDir (j : Nat) : (addLink i k s j).isDir = (s j).isDir := by
  exact set_field Inode.isDir (by intro inode; rfl) j

@[simp] theorem addLink_used (j : Nat) : (addLink i k s j).used = (s j).used := by
  exact set_field Inode.used (by intro inode; rfl) j

@[simp] theorem setEntries_nlink (j : Nat) : (setEntries i entries s j).nlink = (s j).nlink := by
  exact set_field Inode.nlink (by intro inode; rfl) j

@[simp] theorem setEntries_isDir (j : Nat) : (setEntries i entries s j).isDir = (s j).isDir := by
  exact set_field Inode.isDir (by intro inode; rfl) j

@[simp] theorem setEntries_used (j : Nat) : (setEntries i entries s j).used = (s j).used := by
  exact set_field Inode.used (by intro inode; rfl) j

@[simp] theorem setEntries_same : (setEntries i entries s i).entries = entries := by simp [setEntries]

theorem setEntries_other {j : Nat} (differ : j ≠ i) : (setEntries i entries s j).entries = (s j).entries := by
  simp [setEntries, set_other differ]

theorem short_range (x : Int) : -32768 ≤ short x ∧ short x ≤ 32767 := by
  unfold short
  omega

theorem short_eq {x : Int} (low : -32768 ≤ x) (high : x ≤ 32767) : short x = x := by
  unfold short
  omega

theorem addLink_undo (low : -32768 ≤ (s i).nlink) (high : (s i).nlink ≤ 32767) : addLink i (-1) (addLink i 1 s) = s := by
  funext j
  by_cases same : j = i
  · subst same
    have back : short (short ((s j).nlink + 1) + -1) = (s j).nlink := by
      unfold short
      omega
    simp [addLink, back]
  · simp [addLink, set_other same]

theorem names_set (inside : d < n) :
    names n (set d value s) = names n s + naming (value (s d)).entries - naming (s d).entries := by
  have rest : ∑ j ∈ (range n).erase d, naming (set d value s j).entries =
      ∑ j ∈ (range n).erase d, naming (s j).entries :=
    sum_congr rfl fun j member => by rw [set_other (Finset.ne_of_mem_erase member)]
  have member : d ∈ range n := mem_range.mpr inside
  rw [names, names, ← Finset.add_sum_erase _ _ member, ← Finset.add_sum_erase _ _ member, rest, set_same]
  abel

theorem names_addLink : names n (addLink i k s) = names n s := by
  exact sum_congr rfl fun j _ => by rw [addLink_entries]

theorem names_nonneg : 0 ≤ names n s i := by
  rw [names, Finset.sum_apply]
  exact Finset.sum_nonneg fun d _ => naming_nonneg

theorem naming_le_names (inside : d < n) : naming (s d).entries i ≤ names n s i := by
  rw [names, Finset.sum_apply]
  exact Finset.single_le_sum (f := fun d => naming (s d).entries i) (fun d _ => naming_nonneg) (mem_range.mpr inside)

end

/-! ## The invariant -/

/-- "." and ".." are the first two entries, and no other entry has one of these names. -/
def Shaped (d : Nat) (entries : List Entry) : Prop :=
  ∃ parent rest, entries = (dot, d) :: (dotdot, parent) :: rest ∧ ∀ e ∈ rest, e.1 ≠ dot ∧ e.1 ≠ dotdot

/-- Of a removed directory nothing is left. -/
structure Tidy (n : Nat) (s : Inodes) : Prop where
  fits : ∀ i, -32768 ≤ (s i).nlink ∧ (s i).nlink ≤ 32767
  beyond : ∀ i, n ≤ i → (s i).used = false
  unused : ∀ i, (s i).used = false → (s i).nlink = 0 ∧ (s i).isDir = false
  files : ∀ i, (s i).isDir = false → (s i).entries = []
  dirs : ∀ i, (s i).isDir = true → Shaped i (s i).entries ∨ (s i).entries = [] ∧ (s i).nlink = 0

/-- Each count is the number of names and a debt. -/
def Owes (n : Nat) (s : Inodes) (debt : Nat → Int) : Prop := ∀ i, (s i).nlink = (names n s + debt) i

/-- An inode whose count may change. -/
def Live (s : Inodes) (i : Nat) : Prop := (s i).used = true ∧ ((s i).isDir = true → Shaped i (s i).entries)

structure Sound (n : Nat) (s : Inodes) : Prop where
  exact : Exact n s
  tidy : Tidy n s

section
variable {n i d : Nat} {k : Int} {name : Name} {entries : List Entry} {debt : Nat → Int} {s : Inodes}

theorem Tidy.live (tidy : Tidy n s) (linked : (s i).nlink ≠ 0) : Live s i := by
  constructor
  · by_contra unused
    exact linked (tidy.unused i (Bool.eq_false_iff.mpr unused)).1
  · intro dir
    exact (tidy.dirs i dir).resolve_right fun removed => linked removed.2

theorem Tidy.inside (tidy : Tidy n s) (used : (s i).used = true) : i < n := by
  by_contra outside
  exact absurd used (Bool.eq_false_iff.mp (tidy.beyond i (not_lt.mp outside)))

theorem Live.addLink (live : Live s i) (j : Nat) : Live (addLink j k s) i := by
  simpa [Live] using live

theorem Live.setEntries (live : Live s i) (shaped : d = i → Shaped i entries) : Live (setEntries d entries s) i := by
  refine ⟨by simpa using live.1, fun dir => ?_⟩
  by_cases same : i = d
  · subst same
    rw [setEntries_same]
    exact shaped rfl
  · rw [setEntries_other same]
    exact live.2 (by simpa using dir)

theorem Tidy.addLink (tidy : Tidy n s) (live : Live s i) : Tidy n (addLink i k s) := by
  have other : ∀ j, j ≠ i → (Links.addLink i k s j).nlink = (s j).nlink := fun j differ => by
    simp [Links.addLink, set_other differ]
  constructor
  case fits =>
    intro j
    by_cases same : j = i
    · subst same
      simpa [Links.addLink] using short_range _
    · rw [other j same]
      exact tidy.fits j
  case beyond => simpa using tidy.beyond
  case unused =>
    intro j unused
    rw [addLink_used] at unused
    have differ : j ≠ i := fun same => by simp [same, live.1] at unused
    rw [other j differ, addLink_isDir]
    exact tidy.unused j unused
  case files => simpa using tidy.files
  case dirs =>
    intro j dir
    rw [addLink_isDir] at dir
    rw [addLink_entries]
    by_cases same : j = i
    · subst same
      exact .inl (live.2 dir)
    · rw [other j same]
      exact tidy.dirs j dir

theorem Tidy.setEntries (tidy : Tidy n s) (dir : (s d).isDir = true)
    (shaped : Shaped d entries ∨ entries = [] ∧ (s d).nlink = 0) : Tidy n (setEntries d entries s) := by
  constructor
  case fits => simpa using tidy.fits
  case beyond => simpa using tidy.beyond
  case unused => simpa using tidy.unused
  case files =>
    intro j file
    rw [setEntries_isDir] at file
    have differ : j ≠ d := fun same => by simp [same, dir] at file
    rw [setEntries_other differ]
    exact tidy.files j file
  case dirs =>
    intro j other
    rw [setEntries_isDir] at other
    rw [setEntries_nlink]
    by_cases same : j = d
    · subst same
      rw [setEntries_same]
      exact shaped
    · rw [setEntries_other same]
      exact tidy.dirs j other

section
variable (owes : Owes n s debt)
include owes

theorem Owes.addLink (low : -32768 ≤ (s i).nlink + k) (high : (s i).nlink + k ≤ 32767) :
    Owes n (addLink i k s) (debt + k • one i) := by
  intro j
  rw [names_addLink, ← add_assoc, Pi.add_apply, ← owes j]
  by_cases same : j = i
  · subst same
    simp [Links.addLink, short_eq low high]
  · simp [Links.addLink, set_other same, one_ne same]

theorem Owes.lower (tidy : Tidy n s) (little : -100 ≤ debt i) :
    Owes n (Links.addLink i (-1) s) (debt - one i) := by
  have fits := tidy.fits i
  have count : (s i).nlink = names n s i + debt i := owes i
  have some : 0 ≤ names n s i := names_nonneg
  have lowered := owes.addLink (i := i) (k := -1) (by omega) (by omega)
  rwa [neg_one_zsmul, ← sub_eq_add_neg] at lowered

theorem Owes.raise (tidy : Tidy n s) (room : (s i).nlink < 32767) :
    Owes n (Links.addLink i 1 s) (debt + one i) := by
  have fits := tidy.fits i
  have raised := owes.addLink (i := i) (k := 1) (by omega) (by omega)
  rwa [one_zsmul] at raised

theorem Owes.setEntries (entries : List Entry) (inside : d < n) :
    Owes n (setEntries d entries s) (debt + naming (s d).entries - naming entries) := by
  intro j
  have changed : names n (Links.setEntries d entries s) = names n s + naming entries - naming (s d).entries := names_set inside
  rw [setEntries_nlink, owes j, changed]
  simp only [Pi.add_apply, Pi.sub_apply]
  omega

end

theorem Sound.owes (sound : Sound n s) : Owes n s 0 := by
  intro j
  rw [add_zero]
  exact sound.exact j

theorem Owes.sound (owes : Owes n s debt) (settled : debt = 0) (tidy : Tidy n s) : Sound n s := by
  subst settled
  refine ⟨fun j => ?_, tidy⟩
  simpa using owes j

theorem Shaped.append (shaped : Shaped d entries) (plain : name ≠ dot ∧ name ≠ dotdot) (ino : Nat) :
    Shaped d (entries ++ [(name, ino)]) := by
  obtain ⟨parent, rest, rfl, others⟩ := shaped
  refine ⟨parent, rest ++ [(name, ino)], rfl, fun e member => ?_⟩
  rcases List.mem_append.mp member with old | new
  · exact others e old
  · rw [List.mem_singleton.mp new]
    exact plain

theorem mem_rewrite {ino : Nat} {e : Entry} (member : e ∈ rewrite name ino entries) : e = (name, ino) ∨ e ∈ entries := by
  induction entries with
  | nil => cases member
  | cons first entries ih =>
    unfold rewrite at member
    split at member
    · rcases List.mem_cons.mp member with rfl | later
      · exact .inl rfl
      · exact .inr (.tail _ later)
    · rcases List.mem_cons.mp member with rfl | later
      · exact .inr (.head _)
      · exact (ih later).imp_right (List.mem_cons_of_mem _)

theorem Shaped.rewrite (shaped : Shaped d entries) (plain : name ≠ dot ∧ name ≠ dotdot) (ino : Nat) :
    Shaped d (rewrite name ino entries) := by
  obtain ⟨parent, rest, rfl, others⟩ := shaped
  refine ⟨parent, Links.rewrite name ino rest, ?_, fun e member => ?_⟩
  · simp [Links.rewrite, Ne.symm plain.1, Ne.symm plain.2]
  · rcases mem_rewrite member with rfl | old
    · exact plain
    · exact others e old

theorem Shaped.erase (shaped : Shaped d entries) (plain : name ≠ dot ∧ name ≠ dotdot) :
    Shaped d (entries.eraseP fun e => e.1 = name) := by
  obtain ⟨parent, rest, rfl, others⟩ := shaped
  refine ⟨parent, rest.eraseP fun e => e.1 = name, ?_, fun e member => others e (List.mem_of_mem_eraseP member)⟩
  simp [Ne.symm plain.1, Ne.symm plain.2]

theorem Shaped.empty (shaped : Shaped d entries) {parent : Nat} {fault : Option Fault}
    (empty : dirempty parent fault entries = true) : naming entries = one d + one parent := by
  obtain ⟨p, rest, rfl, others⟩ := shaped
  simp only [dirempty, Bool.and_eq_true, List.all_cons, List.all_eq_true] at empty
  obtain ⟨-, -, own, more⟩ := empty
  have same : p = parent := by simpa [dot, dotdot] using own
  have none : rest = [] := List.eq_nil_iff_forall_not_mem.mpr fun e member => by
    have neither := others e member
    have either := more e member
    simp [neither.1, neither.2] at either
  subst same none
  simp [naming]

end

/-! ## The entry ".." -/

/-- The inode that ".." names. -/
def parentOf : List Entry → Option Nat
  | _ :: e :: _ => some e.2
  | _ => none

/-- ".." names the new parent already, or it names the old one and both are changed. -/
def Moves (s : Inodes) (dp : Nat) (opdp : Option Nat) (npdp : Nat) (fault : Option Fault) : Prop :=
  parentOf (s dp).entries = some npdp ∨
    parentOf (s dp).entries = opdp ∧ fault ≠ some .dotdotWrite ∧ (s npdp).nlink < 32767

section
variable {n dp npdp tdp sip ip tip : Nat} {opdp sdp : Option Nat} {name : Name} {debt : Nat → Int} {fault : Option Fault}
  {error : Option Error} {s t : Inodes} {entries : List Entry}

theorem naming_le_count (owes : Owes n s debt) (positive : ∀ i, 0 ≤ debt i) (inside : dp < n) {i : Nat}
    (member : (name, i) ∈ (s dp).entries) : 1 ≤ (s i).nlink := by
  have count : (s i).nlink = names n s i + debt i := owes i
  have named : 1 ≤ naming (s dp).entries i := naming_member member
  have more : naming (s dp).entries i ≤ names n s i := naming_le_names inside
  have debts := positive i
  omega

theorem dirfixdotdot_spec (owes : Owes n s debt) (tidy : Tidy n s) (positive : ∀ i, 0 ≤ debt i)
    (dir : (s dp).isDir = true) (linked : (s dp).nlink ≠ 0) (target : Live s npdp) (moves : Moves s dp opdp npdp fault)
    (result : dirfixdotdot dp opdp npdp fault s = (error, t)) :
    (error ≠ none → t = s ∧ fault = some .dotdotRead) ∧ Owes n t debt ∧ Tidy n t ∧
      ∀ i, (t i).isDir = (s i).isDir ∧ (Live s i → Live t i) := by
  have unchanged : Owes n s debt ∧ Tidy n s ∧ ∀ i, (s i).isDir = (s i).isDir ∧ (Live s i → Live s i) :=
    ⟨owes, tidy, fun _ => ⟨rfl, id⟩⟩
  have live := tidy.live linked
  have inside := tidy.inside live.1
  obtain ⟨parent, rest, entries, others⟩ := live.2 dir
  have ready : ¬ ((s dp).nlink = 0 ∨ (s dp).entries = []) := by simp [linked, entries]
  rw [dirfixdotdot, if_neg ready] at result
  split at result
  case isTrue read =>
    cases result
    exact ⟨fun _ => ⟨rfl, read⟩, unchanged⟩
  case isFalse =>
    simp only [entries] at result
    split at result
    case isTrue =>
      cases result
      exact ⟨fun failed => absurd rfl failed, unchanged⟩
    case isFalse differ =>
      -- ".." names the old parent, which is the one whose count is lowered.
      obtain ⟨old, write, room⟩ : opdp = some parent ∧ fault ≠ some .dotdotWrite ∧ (s npdp).nlink < 32767 := by
        rcases moves with same | ⟨same, write, room⟩
        · rw [entries] at same
          exact absurd (Option.some.inj same) differ
        · rw [entries] at same
          exact ⟨same.symm, write, room⟩
      subst old
      have named : 1 ≤ (s parent).nlink := naming_le_count owes positive inside (entries ▸ List.mem_cons_of_mem _ List.mem_cons_self)
      have raised := (owes.raise tidy room).setEntries ((dot, dp) :: (dotdot, npdp) :: rest) inside
      have shape : Shaped dp ((dot, dp) :: (dotdot, npdp) :: rest) := ⟨npdp, rest, rfl, others⟩
      have moved : Tidy n (setEntries dp ((dot, dp) :: (dotdot, npdp) :: rest) (addLink npdp 1 s)) :=
        (tidy.addLink target).setEntries (by simpa using dir) (.inl shape)
      have alive : ∀ i, Live s i → Live (setEntries dp ((dot, dp) :: (dotdot, npdp) :: rest) (addLink npdp 1 s)) i :=
        fun i live => (live.addLink npdp).setEntries fun same => same ▸ shape
      have count : (setEntries dp ((dot, dp) :: (dotdot, npdp) :: rest) (addLink npdp 1 s) parent).nlink = (s parent).nlink := by
        simp [addLink, set_other differ]
      simp only [ne_eq, not_true_eq_false, if_false, write, count, show ¬ (s parent).nlink = 0 by omega, not_false_eq_true, if_true]
        at result
      cases result
      have lowered := raised.lower (i := parent) moved ?_
      · refine ⟨fun failed => absurd rfl failed, ?_, moved.addLink (alive parent (tidy.live (by omega))), fun i =>
          ⟨by simp, fun live => (alive i live).addLink parent⟩⟩
        refine cast (congrArg (Owes n _) ?_) lowered
        rw [addLink_entries, entries]
        simp only [naming]
        abel
      · have debts := positive parent
        rw [addLink_entries, entries]
        simp only [naming, Pi.add_apply, Pi.sub_apply, one_same, one_ne differ]
        omega

/-! ## New entries -/

theorem diraddentry_spec (owes : Owes n s (one sip)) (tidy : Tidy n s) (dir : (s tdp).isDir = true) (target : Live s tdp)
    (plain : name ≠ dot ∧ name ≠ dotdot) (write : fault ≠ some .entryWrite)
    (parent : (s sip).isDir = true → (s sip).nlink ≠ 0 ∧ Moves s sip sdp tdp fault)
    (result : diraddentry tdp name sip sdp fault s = (error, t)) : (error ≠ none → t = s) ∧ (error = none → Sound n t) := by
  unfold diraddentry at result
  split at result
  case isTrue =>
    cases result
    exact ⟨fun _ => rfl, nofun⟩
  case isFalse =>
    split at result
    case isTrue =>
      cases result
      exact ⟨fun _ => rfl, nofun⟩
    case isFalse =>
      obtain ⟨failed, middle, fixed⟩ : ∃ failed middle,
          (if (s sip).isDir then dirfixdotdot sip sdp tdp fault s else (none, s)) = (failed, middle) := ⟨_, _, rfl⟩
      have spec : (failed ≠ none → middle = s) ∧ Owes n middle (one sip) ∧ Tidy n middle ∧
          ∀ i, (middle i).isDir = (s i).isDir ∧ (Live s i → Live middle i) := by
        split at fixed
        case isTrue file =>
          obtain ⟨linked, moves⟩ := parent file
          exact (dirfixdotdot_spec owes tidy (fun _ => one_nonneg) file linked target moves fixed).imp_left fun undone failed =>
            (undone failed).1
        case isFalse =>
          cases fixed
          exact ⟨fun _ => rfl, owes, tidy, fun _ => ⟨rfl, id⟩⟩
      obtain ⟨same, owes, tidy, alive⟩ := spec
      have still : (middle tdp).isDir = true := (alive tdp).1.trans dir
      have live : Live middle tdp := (alive tdp).2 target
      rw [fixed] at result
      cases failed with
      | some failed =>
        cases result
        exact ⟨fun _ => same nofun, nofun⟩
      | none =>
        cases result
        refine ⟨fun failed => absurd rfl failed, fun _ => ?_⟩
        refine (owes.setEntries _ (tidy.inside live.1)).sound ?_ (tidy.setEntries still (.inl ((live.2 still).append plain sip)))
        rw [naming_append]
        simp only [naming, add_zero]
        abel

/-! ## New inodes -/

section
variable {v : Inode}

theorem Sound.free (sound : Sound n s) (unused : (s ip).used = false) : s ip = ⟨false, false, 0, []⟩ := by
  have blank := sound.tidy.unused ip unused
  have none := sound.tidy.files ip blank.2
  cases record : s ip with
  | mk used isDir nlink entries => simp_all

theorem throwAway_set (blank : s ip = ⟨false, false, 0, []⟩) : throwAway ip (set ip (fun _ => v) s) = s := by
  funext j
  by_cases same : j = ip
  · subst same
    simp [throwAway, blank]
  · simp [throwAway, set_other same]

theorem Tidy.make (tidy : Tidy n s) (inside : ip < n) (used : v.used = true) (fits : -32768 ≤ v.nlink ∧ v.nlink ≤ 32767)
    (file : v.isDir = false → v.entries = []) (dir : v.isDir = true → Shaped ip v.entries) : Tidy n (set ip (fun _ => v) s) := by
  constructor
  case fits =>
    intro j
    by_cases same : j = ip
    · subst same
      simpa using fits
    · simpa [set_other same] using tidy.fits j
  case beyond =>
    intro j outside
    rw [set_other (by omega)]
    exact tidy.beyond j outside
  case unused =>
    intro j unused
    have differ : j ≠ ip := fun same => by simp [same, used] at unused
    rw [set_other differ] at unused ⊢
    exact tidy.unused j unused
  case files =>
    intro j
    by_cases same : j = ip
    · subst same
      simpa using file
    · simpa [set_other same] using tidy.files j
  case dirs =>
    intro j
    by_cases same : j = ip
    · subst same
      exact fun other => .inl (by simpa using dir (by simpa using other))
    · simpa [set_other same] using tidy.dirs j

theorem Sound.make (sound : Sound n s) (inside : ip < n) (unused : (s ip).used = false) :
    Owes n (set ip (fun _ => v) s) (v.nlink • one ip - naming v.entries) := by
  intro j
  have blank := sound.free unused
  rw [names_set inside, blank]
  have count := sound.exact j
  by_cases same : j = ip
  · subst same
    rw [blank] at count
    simp [naming, ← count]
  · simp [naming, set_other same, one_ne same, count]

/-- A new inode that no entry outside names yet. Throwing it away gives `s` back. -/
structure Made (n : Nat) (tdp ip : Nat) (mkdir : Bool) (s t : Inodes) : Prop where
  owes : Owes n t (one ip)
  tidy : Tidy n t
  target : Live t tdp
  dir : (t tdp).isDir = true
  kind : (t ip).isDir = mkdir
  template : mkdir = true → (t ip).nlink ≠ 0 ∧ parentOf (t ip).entries = some tdp
  thrown : throwAway ip (if (t ip).isDir then addLink tdp (-1) t else t) = s

theorem Made.file (sound : Sound n s) (inside : ip < n) (unused : (s ip).used = false) (dir : (s tdp).isDir = true)
    (target : Live s tdp) (differ : tdp ≠ ip) : Made n tdp ip false s (set ip (fun _ => ⟨true, false, 1, []⟩) s) := by
  have owes := sound.make (v := ⟨true, false, 1, []⟩) inside unused
  constructor
  case owes => simpa [naming] using owes
  case tidy => exact sound.tidy.make inside rfl (by decide) (fun _ => rfl) nofun
  case target => simpa [Live, set_other differ] using target
  case dir => simpa [set_other differ] using dir
  case kind => simp
  case template => nofun
  case thrown => simpa using throwAway_set (sound.free unused)

theorem Made.directory (sound : Sound n s) (inside : ip < n) (unused : (s ip).used = false) (dir : (s tdp).isDir = true)
    (target : Live s tdp) (differ : tdp ≠ ip) (room : (s tdp).nlink < 32767) :
    Made n tdp ip true s (addLink tdp 1 (set ip (fun _ => ⟨true, true, 2, [(dot, ip), (dotdot, tdp)]⟩) s)) := by
  have owes := sound.make (v := ⟨true, true, 2, [(dot, ip), (dotdot, tdp)]⟩) inside unused
  have tidy := sound.tidy.make (v := ⟨true, true, 2, [(dot, ip), (dotdot, tdp)]⟩) inside rfl (by simp) nofun
    fun _ => ⟨tdp, [], rfl, nofun⟩
  have live : Live (set ip (fun _ => ⟨true, true, 2, [(dot, ip), (dotdot, tdp)]⟩) s) tdp := by
    simpa [Live, set_other differ] using target
  have fits := tidy.fits tdp
  constructor
  case owes =>
    have raised := owes.raise (i := tdp) tidy (by simpa [set_other differ] using room)
    have debts : (2 : Int) • one ip - naming [(dot, ip), (dotdot, tdp)] + one tdp = one ip := by
      simp only [naming, add_zero, two_zsmul]
      abel
    rwa [debts] at raised
  case tidy => exact tidy.addLink live
  case target => exact live.addLink tdp
  case dir => simpa [set_other differ] using dir
  case kind => simp
  case template => exact fun _ => ⟨by simp [addLink, set_other differ.symm], by simp [parentOf]⟩
  case thrown =>
    rw [addLink_isDir, set_same, if_pos rfl, addLink_undo fits.1 fits.2]
    exact throwAway_set (sound.free unused)

theorem setEntries_make (differ : tdp ≠ ip) (entries : List Entry) :
    setEntries ip entries (addLink tdp 1 (set ip (fun _ => ⟨true, true, 2, []⟩) s)) =
      addLink tdp 1 (set ip (fun _ => ⟨true, true, 2, entries⟩) s) := by
  funext j
  by_cases same : j = ip
  · subst same
    simp [setEntries, addLink, set_other differ.symm]
  · by_cases target : j = tdp
    · subst target
      simp [setEntries, addLink, set_other same]
    · simp [setEntries, addLink, set_other same, set_other target]

theorem dirmakeinode_spec (sound : Sound n s) (inside : ip < n) (unused : (s ip).used = false) (dir : (s tdp).isDir = true)
    (target : Live s tdp) {mkdir : Bool}
    (template : mkdir = true → fault ≠ some .templateRead ∧ fault ≠ some .templateWrite ∧ (s tdp).nlink < 32767)
    (result : dirmakeinode tdp ip mkdir fault s = (error, t)) :
    (error ≠ none → t = s) ∧ (error = none → Made n tdp ip mkdir s t) := by
  have differ : tdp ≠ ip := fun same => by simp [same, sound.free unused] at dir
  unfold dirmakeinode at result
  split at result
  case isTrue =>
    cases result
    exact ⟨fun _ => rfl, nofun⟩
  case isFalse =>
    cases mkdir with
    | false =>
      cases result
      exact ⟨fun failed => absurd rfl failed, fun _ => .file sound inside unused dir target differ⟩
    | true =>
      obtain ⟨read, write, room⟩ := template rfl
      simp only [if_true, dirmakedirect, read, write, if_false] at result
      by_cases bmap : fault = some .bmap
      · rw [if_pos bmap] at result
        cases result
        exact ⟨fun _ => throwAway_set (sound.free unused), nofun⟩
      · rw [if_neg bmap, setEntries_make differ] at result
        cases result
        exact ⟨fun failed => absurd rfl failed, fun _ => .directory sound inside unused dir target differ room⟩

theorem makeEntry_spec (sound : Sound n s) (inside : ip < n) (unused : (s ip).used = false) (dir : (s tdp).isDir = true)
    (target : Live s tdp) {mkdir : Bool} (plain : name ≠ dot ∧ name ≠ dotdot) (write : fault ≠ some .entryWrite)
    (template : mkdir = true → fault ≠ some .templateRead ∧ fault ≠ some .templateWrite ∧ (s tdp).nlink < 32767)
    (result : makeEntry tdp name ip mkdir fault s = (error, t)) : (error ≠ none → t = s) ∧ (error = none → Sound n t) := by
  obtain ⟨failed, middle, making⟩ : ∃ failed middle, dirmakeinode tdp ip mkdir fault s = (failed, middle) := ⟨_, _, rfl⟩
  obtain ⟨same, made⟩ := dirmakeinode_spec sound inside unused dir target template making
  rw [makeEntry, making] at result
  cases failed with
  | some failed =>
    cases result
    exact ⟨fun _ => same nofun, nofun⟩
  | none =>
    have made := made rfl
    obtain ⟨failed, last, adding⟩ : ∃ failed last, diraddentry tdp name ip none fault middle = (failed, last) := ⟨_, _, rfl⟩
    obtain ⟨kept, entered⟩ := diraddentry_spec made.owes made.tidy made.dir made.target plain write
      (fun dir => (made.template (made.kind ▸ dir)).imp_right .inl) adding
    simp only [adding] at result
    cases failed with
    | some failed =>
      cases result
      refine ⟨fun _ => ?_, nofun⟩
      rw [kept nofun]
      exact made.thrown
    | none =>
      cases result
      exact ⟨fun failed => absurd rfl failed, fun _ => entered rfl⟩

end

/-! ## Entries that are rewritten -/

theorem checked {c : Prop} [Decidable c] {e : Error} {rest : Option (Option Error × Inodes)}
    (result : (if c then some (some e, s) else rest) = some (error, t)) :
    (error ≠ none ∧ t = s) ∨ ¬ c ∧ rest = some (error, t) := by
  split at result
  case isTrue =>
    cases result
    exact .inl ⟨nofun, rfl⟩
  case isFalse no => exact .inr ⟨no, result⟩

theorem undone (failed : error ≠ none ∧ t = s) : (error ≠ none → t = s) ∧ (error = none → Sound n t) :=
  ⟨fun _ => failed.2, fun none => absurd none failed.1⟩

theorem member_rewrite (found : checkForName name entries = some tip) :
    (name, sip) ∈ rewrite name sip entries := by
  induction entries with
  | nil => cases found
  | cons e entries ih =>
    rw [find_cons] at found
    by_cases same : e.1 = name
    · rw [rewrite, if_pos same]
      exact .head _
    · rw [if_neg same] at found
      rw [rewrite, if_neg same]
      exact .tail _ (ih found)

theorem dirempty_differs (plain : name ≠ dot ∧ name ≠ dotdot) (found : checkForName name (s tdp).entries = some tip)
    (empty : dirempty tdp fault (s tip).entries = true) : tip ≠ tdp := by
  intro same
  subst same
  have all := (Bool.and_eq_true_iff.mp empty).2
  have entry := List.all_eq_true.mp all _ (find_member found)
  simp [plain.1, plain.2] at entry

theorem Shaped.own {d : Nat} (shaped : Shaped d entries) : (dot, d) ∈ entries := by
  obtain ⟨parent, rest, rfl, -⟩ := shaped
  exact .head _

theorem dirrename_removed (owes : Owes n s (one sip)) (tidy : Tidy n s) (dir : (s tdp).isDir = true) (target : Live s tdp)
    (plain : name ≠ dot ∧ name ≠ dotdot) (found : checkForName name (s tdp).entries = some tip)
    (removed : (s tip).isDir = true) (empty : dirempty tdp fault (s tip).entries = true)
    (gone : (addLink tip (-1) (addLink tip (-1) (setEntries tdp (rewrite name sip (s tdp).entries) s)) tip).nlink = 0) :
    Sound n (addLink tdp (-1) (setEntries tip []
      (addLink tip (-1) (addLink tip (-1) (setEntries tdp (rewrite name sip (s tdp).entries) s))))) := by
  have inside := tidy.inside target.1
  have named : (s tip).nlink ≠ 0 := by
    have more := naming_le_count owes (fun _ => one_nonneg) inside (find_member found)
    omega
  have live := tidy.live named
  have differ : tip ≠ tdp := dirempty_differs plain found empty
  have shape := (target.2 dir).rewrite plain sip
  have written : Tidy n (setEntries tdp (rewrite name sip (s tdp).entries) s) := tidy.setEntries dir (.inl shape)
  have alive : ∀ i, Live s i → Live (setEntries tdp (rewrite name sip (s tdp).entries) s) i := fun i live =>
    live.setEntries fun same => same ▸ shape
  have once := written.addLink (k := -1) (alive tip live)
  have twice := once.addLink (k := -1) ((alive tip live).addLink tip)
  have truncated : Tidy n (setEntries tip [] _) := twice.setEntries (by simpa using removed) (.inr ⟨rfl, gone⟩)
  have other : Live (setEntries tip [] (addLink tip (-1) (addLink tip (-1) (setEntries tdp (rewrite name sip (s tdp).entries) s)))) tdp :=
    (((alive tdp target).addLink tip).addLink tip).setEntries fun same => absurd same differ
  have debts : one sip + naming (s tdp).entries - naming (rewrite name sip (s tdp).entries) = one tip := by
    rw [sub_eq_iff_eq_add, add_comm, add_comm (one tip)]
    exact (naming_rewrite found).symm
  have first := owes.setEntries (rewrite name sip (s tdp).entries) inside
  rw [debts] at first
  have second := (first.lower (i := tip) written (by simp)).lower (i := tip) once (by simp)
  have third := second.setEntries (d := tip) [] (tidy.inside live.1)
  have left : one tip - one tip - one tip + naming (s tip).entries - naming [] = one tdp := by
    rw [(live.2 removed).empty empty, naming]
    abel
  rw [addLink_entries, addLink_entries, setEntries_other differ, left] at third
  exact (third.lower (i := tdp) truncated (by simp)).sound (sub_self _) (truncated.addLink other)

/-- The condition on the ".." of a directory that is renamed to a name that is there. -/
def Replaces (s : Inodes) (sdp sip tdp : Nat) (fault : Option Fault) : Prop :=
  fault ≠ some .dotdotRead ∧
    (parentOf (s sip).entries = some tdp ∨ parentOf (s sip).entries = some sdp ∧ fault ≠ some .dotdotWrite)

theorem dirrename_spec {sdp : Nat} (owes : Owes n s (one sip)) (tidy : Tidy n s) (dir : (s tdp).isDir = true)
    (target : Live s tdp) (plain : name ≠ dot ∧ name ≠ dotdot) (found : checkForName name (s tdp).entries = some tip)
    (write : fault ≠ some .entryWrite)
    (parent : (s sip).isDir = true → sdp ≠ tdp → sip ≠ tdp ∧ Replaces s sdp sip tdp fault)
    (result : dirrename sdp sip tdp name tip fault s = some (error, t)) :
    (error ≠ none → t = s) ∧ (error = none → Sound n t) := by
  rcases checked result with failed | ⟨-, result⟩
  · exact undone failed
  rcases checked result with failed | ⟨itself, result⟩
  · exact undone failed
  rcases checked result with failed | ⟨-, result⟩
  · exact undone failed
  rcases checked result with failed | ⟨sort, result⟩
  · exact undone failed
  rcases checked result with failed | ⟨-, result⟩
  · exact undone failed
  rcases checked result with failed | ⟨-, result⟩
  · exact undone failed
  rcases checked result with failed | ⟨filled, result⟩
  · exact undone failed
  rcases checked result with failed | ⟨mixed, result⟩
  · exact undone failed
  have inside := tidy.inside target.1
  have shape := (target.2 dir).rewrite plain sip
  simp only [write, if_false] at result
  by_cases file : (s sip).isDir = true
  · have removed : (s tip).isDir = true := by
      by_contra other
      exact mixed ⟨other, file⟩
    have empty : dirempty tdp fault (s tip).entries = true := by
      by_contra full
      exact filled ⟨removed, .inl full⟩
    simp only [file, if_true] at result
    split at result
    case isTrue => cases result
    case isFalse gone =>
      have sound := dirrename_removed owes tidy dir target plain found removed empty (not_not.mp gone)
      split at result
      case isFalse =>
        cases result
        exact ⟨fun failed => absurd rfl failed, fun _ => sound⟩
      case isTrue differ =>
        obtain ⟨apart, read, moves⟩ := parent file differ
        have fixed := Option.some.inj result
        have other : tip ≠ tdp := dirempty_differs plain found empty
        have entered : ∀ e, e ∈ rewrite name sip (s tdp).entries → e ∈ (addLink tdp (-1) (setEntries tip [] (addLink tip (-1)
            (addLink tip (-1) (setEntries tdp (rewrite name sip (s tdp).entries) s)))) tdp).entries := by
          simp [setEntries_other other.symm]
        have named := naming_le_count sound.owes (fun _ => le_rfl) inside (entered _ (member_rewrite found))
        have own := naming_le_count sound.owes (fun _ => le_rfl) inside (entered _ shape.own)
        have before := naming_le_count owes (fun _ => one_nonneg) inside (target.2 dir).own
        have fits := tidy.fits tdp
        have room : short ((s tdp).nlink + -1) < 32767 := by
          rw [short_eq (by omega) (by omega)]
          omega
        have spec := dirfixdotdot_spec sound.owes sound.tidy (fun _ => le_rfl) (by simpa using file) (by omega)
          (sound.tidy.live (by omega)) ?_ fixed
        · refine ⟨fun failed => absurd (spec.1 failed).2 read, fun _ => spec.2.1.sound rfl spec.2.2.1⟩
        · unfold Moves
          rw [addLink_entries, setEntries_other itself, addLink_entries, addLink_entries, setEntries_other apart]
          refine moves.imp_right fun old => ⟨old.1, old.2, ?_⟩
          simpa [addLink, set_other other.symm] using room
  · have other : (s tip).isDir = false := by
      by_contra removed
      exact sort ⟨by simpa using removed, file⟩
    simp only [file] at result
    cases result
    have named : (s tip).nlink ≠ 0 := by
      have more := naming_le_count owes (fun _ => one_nonneg) inside (find_member found)
      omega
    have live : Live (setEntries tdp (rewrite name sip (s tdp).entries) s) tip :=
      (tidy.live named).setEntries fun same => same ▸ shape
    have written := tidy.setEntries dir (.inl shape)
    have debts : one sip + naming (s tdp).entries - naming (rewrite name sip (s tdp).entries) = one tip := by
      rw [sub_eq_iff_eq_add, add_comm, add_comm (one tip)]
      exact (naming_rewrite found).symm
    have first := owes.setEntries (rewrite name sip (s tdp).entries) inside
    rw [debts] at first
    exact ⟨fun failed => absurd rfl failed, fun _ =>
      (first.lower (i := tip) written (by simp)).sound (sub_self _) (written.addLink live)⟩

end

/-! ## Calls -/

/-- The calls that keep the counts. A call fails at `fault` if it gets there. -/
def Keeps (s : Inodes) : Event → Prop
  | .direnter _ _ (.create _) fault => fault ≠ some .entryWrite
  | .direnter tdp _ (.mkdir _) fault =>
    fault ≠ some .entryWrite ∧ fault ≠ some .templateRead ∧ fault ≠ some .templateWrite ∧ (s tdp).nlink < 32767
  | .direnter tdp name (.link sip) fault =>
    fault ≠ some .entryWrite ∧ (s sip).nlink < 32767 ∧ ((s sip).isDir = true → checkForName name (s tdp).entries = none →
      parentOf (s sip).entries = some tdp)
  | .direnter tdp name (.rename sdp sip) fault =>
    fault ≠ some .entryWrite ∧ (s sip).nlink < 32767 ∧ ((s sip).isDir = true →
      if checkForName name (s tdp).entries = none then Moves s sip (some sdp) tdp fault
      else sdp ≠ tdp → Replaces s sdp sip tdp fault)
  | .dirremove _ _ _ _ fault => fault ≠ some .entryWrite
  | .inactive _ => True

section
variable {n tdp sip ip dp : Nat} {name : Name} {fault : Option Fault} {error : Option Error} {s t : Inodes} {op : DeOp}

theorem Sound.live (sound : Sound n s) (linked : (s tdp).nlink ≠ 0) : Live s tdp := sound.tidy.live linked

theorem direnterLocked_make (sound : Sound n s) (plain : name ≠ dot ∧ name ≠ dotdot)
    (given : op.Given n s) (keeps : Keeps s (.direnter tdp name op fault)) (new : op.source = none)
    (result : direnterLocked tdp name op fault s = some (error, t)) : (error ≠ none → t = s) ∧ (error = none → Sound n t) := by
  rcases checked result with failed | ⟨linked, result⟩
  · exact undone failed
  rcases checked result with failed | ⟨dir, result⟩
  · exact undone failed
  rcases checked result with failed | ⟨-, result⟩
  · exact undone failed
  rcases checked result with failed | ⟨-, result⟩
  · exact undone failed
  rcases checked result with failed | ⟨-, result⟩
  · exact undone failed
  have dir := not_not.mp dir
  have target := sound.live linked
  cases found : checkForName name (s tdp).entries with
  | some tip =>
    cases op with
    | create | mkdir =>
      simp only [found] at result
      cases result
      exact undone ⟨nofun, rfl⟩
    | link | rename => cases new
  | none =>
    simp only [found] at result
    rcases checked result with failed | ⟨-, result⟩
    · exact undone failed
    cases op with
    | create ip =>
      have made : makeEntry tdp name ip false fault s = (error, t) := Option.some.inj result
      exact makeEntry_spec sound given.1 given.2 dir target plain keeps (fun new : false = true => nomatch new) made
    | mkdir ip =>
      have made : makeEntry tdp name ip true fault s = (error, t) := Option.some.inj result
      exact makeEntry_spec sound given.1 given.2 dir target plain keeps.1 (fun _ => keeps.2) made
    | link | rename => cases new

theorem direnterLocked_enter (sound : Sound n s) (plain : name ≠ dot ∧ name ≠ dotdot) (linked : (s sip).nlink ≠ 0)
    (room : (s sip).nlink < 32767) (keeps : Keeps s (.direnter tdp name op fault)) (old : op.source = some sip)
    (result : direnterLocked tdp name op fault (addLink sip 1 s) = some (error, t)) :
    (error ≠ none → t = addLink sip 1 s) ∧ (error = none → Sound n t) := by
  have owes : Owes n (addLink sip 1 s) (one sip) := by simpa using sound.owes.raise sound.tidy room
  have tidy : Tidy n (addLink sip 1 s) := sound.tidy.addLink (sound.live linked)
  have own : (addLink sip 1 s sip).nlink ≠ 0 := by
    have count := owes sip
    have more : 0 ≤ names n (addLink sip 1 s) sip := names_nonneg
    simp only [Pi.add_apply, one_same] at count
    omega
  rcases checked result with failed | ⟨counted, result⟩
  · exact undone failed
  rcases checked result with failed | ⟨dir, result⟩
  · exact undone failed
  rcases checked result with failed | ⟨-, result⟩
  · exact undone failed
  rcases checked result with failed | ⟨path, result⟩
  · exact undone failed
  rcases checked result with failed | ⟨-, result⟩
  · exact undone failed
  have dir := not_not.mp dir
  have target : Live (addLink sip 1 s) tdp := tidy.live counted
  cases found : checkForName name (addLink sip 1 s tdp).entries with
  | some tip =>
    simp only [found] at result
    cases op with
    | create | mkdir => cases old
    | link =>
      cases result
      exact undone ⟨nofun, rfl⟩
    | rename sdp sip' =>
      cases old
      refine dirrename_spec owes tidy dir target plain found keeps.1 (fun file differ => ?_) result
      have apart : sip ≠ tdp := fun same => path (decide_eq_true ⟨file, differ, .inl same⟩)
      rw [addLink_isDir] at file
      rw [addLink_entries] at found
      have moves := keeps.2.2 file
      rw [if_neg (by simp [found])] at moves
      exact ⟨apart, by simpa [Replaces] using moves differ⟩
  | none =>
    simp only [found] at result
    rcases checked result with failed | ⟨-, result⟩
    · exact undone failed
    rw [addLink_entries] at found
    cases op with
    | create | mkdir => cases old
    | link sip' =>
      cases old
      refine diraddentry_spec owes tidy dir target plain keeps.1 (fun file => ⟨own, .inl ?_⟩) (Option.some.inj result)
      rw [addLink_isDir] at file
      rw [addLink_entries]
      exact keeps.2.2 file found
    | rename sdp sip' =>
      cases old
      refine diraddentry_spec owes tidy dir target plain keeps.1 (fun file => ⟨own, ?_⟩) (Option.some.inj result)
      have apart : sdp ≠ tdp → sip ≠ tdp := fun differ same => path (decide_eq_true ⟨file, differ, .inl same⟩)
      rw [addLink_isDir] at file
      have moves := keeps.2.2 file
      rw [if_pos found] at moves
      unfold Moves
      rw [addLink_entries]
      by_cases same : sdp = tdp
      · subst same
        exact .inl (moves.elim id And.left)
      · refine moves.imp_right fun old => ⟨old.1, old.2.1, ?_⟩
        simpa [addLink, set_other (apart same).symm] using old.2.2

theorem direnter_sound (sound : Sound n s) (given : op.Given n s) (keeps : Keeps s (.direnter tdp name op fault))
    (result : direnter tdp name op fault s = some (error, t)) : Sound n t := by
  rcases checked result with failed | ⟨-, result⟩
  · exact failed.2 ▸ sound
  split at result
  case isTrue =>
    cases op <;> cases result <;> exact sound
  case isFalse plain =>
    have plain : name ≠ dot ∧ name ≠ dotdot := not_or.mp plain
    cases source : op.source with
    | none =>
      simp only [source] at result
      obtain ⟨kept, entered⟩ := direnterLocked_make sound plain given keeps source result
      cases error with
      | none => exact entered rfl
      | some error => exact kept nofun ▸ sound
    | some sip =>
      simp only [source] at result
      rcases checked result with failed | ⟨linked, result⟩
      · exact failed.2 ▸ sound
      rcases checked result with failed | ⟨-, result⟩
      · exact failed.2 ▸ sound
      obtain ⟨⟨failed, middle⟩, locked, rest⟩ := Option.bind_eq_some_iff.mp result
      have room : (s sip).nlink < 32767 := by
        cases op with
        | create | mkdir => cases source
        | link => cases source; exact keeps.2.1
        | rename => cases source; exact keeps.2.1
      obtain ⟨kept, entered⟩ := direnterLocked_enter sound plain linked room keeps source locked
      cases rest
      cases failed with
      | none => exact entered rfl
      | some failed =>
        have fits := sound.tidy.fits sip
        rw [kept nofun, if_neg nofun, addLink_undo fits.1 fits.2]
        exact sound

theorem refused {c : Prop} [Decidable c] {e : Error} {rest : Option Error × Inodes}
    (result : (if c then (some e, s) else rest) = (error, t)) : t = s ∨ ¬ c ∧ rest = (error, t) := by
  split at result
  case isTrue =>
    cases result
    exact .inl rfl
  case isFalse no => exact .inr ⟨no, result⟩

theorem removeEntry_sound (sound : Sound n s) (plain : name ≠ dot ∧ name ≠ dotdot) (dir : (s dp).isDir = true)
    (linked : (s dp).nlink ≠ 0) (found : checkForName name (s dp).entries = some ip) {op : DrOp} (write : fault ≠ some .entryWrite)
    (result : removeEntry dp name ip op fault s = (error, t)) : Sound n t := by
  rcases refused result with same | ⟨-, result⟩
  · exact same ▸ sound
  rcases refused result with same | ⟨-, result⟩
  · exact same ▸ sound
  rcases refused result with same | ⟨itself, result⟩
  · exact same ▸ sound
  rcases refused result with same | ⟨-, result⟩
  · exact same ▸ sound
  rcases refused result with same | ⟨filled, result⟩
  · exact same ▸ sound
  rcases refused result with same | ⟨-, result⟩
  · exact same ▸ sound
  rcases refused result with same | ⟨-, result⟩
  · exact same ▸ sound
  have target := sound.live linked
  have inside := sound.tidy.inside target.1
  have shape := (target.2 dir).erase plain
  have written := sound.tidy.setEntries dir (.inl shape)
  have counted := naming_le_count sound.owes (fun _ => le_rfl) inside (find_member found)
  have named : Live s ip := sound.live (by omega)
  have live : Live (setEntries dp ((s dp).entries.eraseP fun e => e.1 = name) s) ip := named.setEntries fun same => same ▸ shape
  have debts : 0 + naming (s dp).entries - naming ((s dp).entries.eraseP fun e => e.1 = name) = one ip := by
    rw [zero_add, sub_eq_iff_eq_add, add_comm]
    exact (naming_erase found).symm
  have first := sound.owes.setEntries ((s dp).entries.eraseP fun e => e.1 = name) inside
  rw [debts] at first
  simp only [write, if_false, setEntries_nlink, show 0 < (s ip).nlink by omega, if_true, setEntries_isDir] at result
  split at result
  case isFalse =>
    cases result
    exact (first.lower (i := ip) written (by simp)).sound (sub_self _) (written.addLink live)
  case isTrue removed =>
    obtain ⟨rmdir, file⟩ := removed
    cases result
    have differ : dp ≠ ip := fun same => itself ⟨rmdir, .inl same⟩
    have two : (s ip).nlink = 2 := by
      by_contra other
      exact filled ⟨rmdir, .inl other⟩
    have empty : dirempty dp fault (s ip).entries = true := by
      by_contra full
      exact filled ⟨rmdir, .inr full⟩
    have contents := (named.2 file).empty empty
    have own : Live (setEntries dp ((s dp).entries.eraseP fun e => e.1 = name) s) dp := target.setEntries fun _ => shape
    have once := written.addLink (k := -2) live
    have twice := once.addLink (k := -1) (own.addLink ip)
    have second := first.addLink (i := ip) (k := -2) (by rw [setEntries_nlink]; omega) (by rw [setEntries_nlink]; omega)
    have third := (second.lower (i := dp) once (by simp [one_ne differ])).setEntries (d := ip) [] (sound.tidy.inside named.1)
    have left : one ip + (-2 : Int) • one ip - one dp + naming (s ip).entries - naming [] = 0 := by
      rw [contents, naming, neg_zsmul, two_zsmul]
      abel
    rw [addLink_entries, addLink_entries, setEntries_other differ.symm, left] at third
    refine third.sound rfl (twice.setEntries (by simpa using file) (.inr ⟨rfl, ?_⟩))
    simp [addLink, set_other differ.symm, two, short]

theorem dirremove_sound (sound : Sound n s) {oip : Option Nat} {op : DrOp} (write : fault ≠ some .entryWrite)
    (result : dirremove dp name oip op fault s = (error, t)) : Sound n t := by
  rcases refused result with same | ⟨own, result⟩
  · exact same ▸ sound
  rcases refused result with same | ⟨parent, result⟩
  · exact same ▸ sound
  rcases refused result with same | ⟨dir, result⟩
  · exact same ▸ sound
  rcases refused result with same | ⟨-, result⟩
  · exact same ▸ sound
  rcases refused result with same | ⟨-, result⟩
  · exact same ▸ sound
  have dir := not_not.mp dir
  cases found : checkForName name (s dp).entries with
  | none =>
    simp only [found] at result
    cases result
    exact sound
  | some ip =>
    simp only [found] at result
    rcases refused result with same | ⟨-, result⟩
    · exact same ▸ sound
    have linked : (s dp).nlink ≠ 0 := by
      intro zero
      rcases sound.tidy.dirs dp dir with shape | removed
      · have used : (s dp).used = true := by
          by_contra unused
          simp [(sound.tidy.unused dp (Bool.eq_false_iff.mpr unused)).2] at dir
        have named := naming_le_count sound.owes (fun _ => le_rfl) (sound.tidy.inside used) shape.own
        omega
      · rw [removed.1] at found
        cases found
    exact removeEntry_sound sound ⟨own, parent⟩ dir linked found write result

theorem inactive_sound (sound : Sound n s) (used : (s ip).used = true) (none : (s ip).nlink = 0) : Sound n (throwAway ip s) := by
  have inside := sound.tidy.inside used
  have empty : (s ip).entries = [] := by
    cases dir : (s ip).isDir with
    | false => exact sound.tidy.files ip dir
    | true =>
      rcases sound.tidy.dirs ip dir with shape | removed
      · have named := naming_le_count sound.owes (fun _ => le_rfl) inside shape.own
        omega
      · exact removed.1
  have own : throwAway ip s ip = ⟨false, false, 0, []⟩ := set_same
  have other : ∀ j, j ≠ ip → throwAway ip s j = s j := fun j differ => set_other differ
  have either : ∀ j, throwAway ip s j = s j ∨ throwAway ip s j = ⟨false, false, 0, []⟩ := fun j => by
    by_cases here : j = ip
    · exact .inr (here ▸ own)
    · exact .inl (other j here)
  have tidy := sound.tidy
  refine ⟨fun j => ?_, ?_⟩
  · have same : names n (throwAway ip s) = names n s := by
      rw [throwAway, names_set inside, empty]
      simp [naming]
    rw [same, ← sound.exact j]
    by_cases here : j = ip
    · rw [here, own, none]
    · rw [other j here]
  · constructor
    case fits => exact fun j => (either j).elim (fun same => by rw [same]; exact tidy.fits j) fun same => by simp [same]
    case beyond => exact fun j => (either j).elim (fun same => by rw [same]; exact tidy.beyond j) fun same => by simp [same]
    case unused => exact fun j => (either j).elim (fun same => by rw [same]; exact tidy.unused j) fun same => by simp [same]
    case files => exact fun j => (either j).elim (fun same => by rw [same]; exact tidy.files j) fun same => by simp [same]
    case dirs => exact fun j => (either j).elim (fun same => by rw [same]; exact tidy.dirs j) fun same => by simp [same]

theorem step_sound {event : Event} (sound : Sound n s) (step : Step n s event t) (keeps : Keeps s event) : Sound n t := by
  cases event with
  | direnter tdp name op fault =>
    obtain ⟨_, given, error, result⟩ := step
    exact direnter_sound sound given keeps result
  | dirremove dp name oip op fault =>
    obtain ⟨_, error, result⟩ := step
    exact dirremove_sound sound keeps result
  | inactive ip =>
    obtain ⟨⟨used, none⟩, rfl⟩ := step
    exact inactive_sound sound used none

end

/-- Root is 2 and has the directories 3 and 4. 5 is a directory in 3. -/
def tree : Inodes
  | 2 => ⟨true, true, 4, [(dot, 2), (dotdot, 2), ([97], 3), ([98], 4)]⟩
  | 3 => ⟨true, true, 3, [(dot, 3), (dotdot, 2), ([99], 5)]⟩
  | 4 => ⟨true, true, 2, [(dot, 4), (dotdot, 2)]⟩
  | 5 => ⟨true, true, 2, [(dot, 5), (dotdot, 3)]⟩
  | _ => ⟨false, false, 0, []⟩

theorem tree_high (k : Nat) : tree (k + 6) = ⟨false, false, 0, []⟩ := rfl

theorem tree_sound : Sound 7 tree := by
  have cases : ∀ {holds : Nat → Prop}, (∀ i < 6, holds i) → (∀ k, holds (k + 6)) → ∀ i, holds i := by
    intro holds low high i
    by_cases small : i < 6
    · exact low i small
    · obtain ⟨k, rfl⟩ := Nat.exists_eq_add_of_le' (not_lt.mp small)
      exact high k
  have shape : ∀ i < 6, (tree i).isDir = true → Shaped i (tree i).entries := by
    intro i small dir
    interval_cases i <;> first | exact ⟨_, _, rfl, by decide⟩ | cases dir
  refine ⟨?_, ⟨?_, ?_, ?_, ?_, ?_⟩⟩
  · refine cases (by decide) fun k => ?_
    simp [names, Finset.sum_range_succ, tree, naming, one]
  · exact cases (by decide) fun k => by simp [tree_high]
  · intro i outside
    obtain ⟨k, rfl⟩ := Nat.exists_eq_add_of_le' (Nat.le_of_succ_le outside)
    simp [tree_high]
  · exact cases (by decide) fun k => by simp [tree_high]
  · exact cases (by decide) fun k => by simp [tree_high]
  · exact cases (fun i small dir => .inl (shape i small dir)) fun k => by simp [tree_high]

end Svr4.Ufs.Links
