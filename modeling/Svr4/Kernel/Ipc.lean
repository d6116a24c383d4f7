import Mathlib.Data.List.Basic
import Svr4.Kernel.Errno

/-! Permissions and identifiers that the interprocess communication facilities share. -/

namespace Svr4.Ipc

/-- `mode` holds the access bits and the bits of the facility. -/
structure IpcPerm where
  uid : Int
  gid : Int
  cuid : Int
  cgid : Int
  mode : Nat
  seq : Nat
  key : Int
  deriving DecidableEq, Repr

structure Cred where
  uid : Int
  gid : Int
  groups : List Int
  deriving DecidableEq, Repr

def ipcAlloc : Nat := 0x8000
def ipcCreat : Nat := 0x200
def ipcExcl : Nat := 0x400

/-- The bits 0777. -/
def access : Nat := 0x1ff

def IpcPerm.allocated (p : IpcPerm) : Prop := p.mode &&& ipcAlloc ≠ 0

instance (p : IpcPerm) : Decidable p.allocated := inferInstanceAs (Decidable (_ ≠ _))

def groupmember (gid : Int) (cr : Cred) : Prop := gid = cr.gid ∨ gid ∈ cr.groups

instance (gid : Int) (cr : Cred) : Decidable (groupmember gid cr) := inferInstanceAs (Decidable (_ ∨ _))

def ipcaccess (p : IpcPerm) (mode : Nat) (cr : Cred) : Option Errno :=
  if cr.uid = 0 then none
  else
    let mode :=
      if cr.uid ≠ p.uid ∧ cr.uid ≠ p.cuid then
        if ¬ groupmember p.gid cr ∧ ¬ groupmember p.cgid cr then mode >>> 3 >>> 3 else mode >>> 3
      else mode
    if mode &&& p.mode ≠ 0 then none else some .eacces

/-- The test that removal and `IPC_SET` make. -/
def owns (p : IpcPerm) (cr : Cred) : Prop := cr.uid = p.uid ∨ cr.uid = p.cuid ∨ cr.uid = 0

instance (p : IpcPerm) (cr : Cred) : Decidable (owns p cr) := inferInstanceAs (Decidable (_ ∨ _))

/-- An entry found, or one to be initialised. -/
inductive Entry where
  | existing (index : Nat)
  | new (index : Nat)
  deriving DecidableEq, Repr

/-- The search of `ipcget` through a table of `cnt` entries. -/
def ipcget (key : Int) (flag : Nat) (perm : Nat → IpcPerm) (cnt : Nat) : Except Errno Entry :=
  let available := (List.range cnt).find? fun i => ¬ (perm i).allocated
  if key = 0 then
    match available with
    | some i => .ok (.new i)
    | none => .error .enospc
  else
    match (List.range cnt).find? fun i => (perm i).allocated ∧ (perm i).key = key with
    | some i =>
        if flag &&& (ipcCreat ||| ipcExcl) = ipcCreat ||| ipcExcl then .error .eexist
        else if (flag &&& access) &&& (perm i).mode ≠ flag &&& access then .error .eacces
        else .ok (.existing i)
    | none =>
        if flag &&& ipcCreat = 0 then .error .enoent
        else
          match available with
          | some i => .ok (.new i)
          | none => .error .enospc

/-- The initialisation of a new entry. -/
def IpcPerm.init (p : IpcPerm) (key : Int) (flag : Nat) (cr : Cred) : IpcPerm :=
  { p with mode := ipcAlloc ||| (flag &&& access), key, uid := cr.uid, cuid := cr.uid, gid := cr.gid, cgid := cr.gid }

/-- `IPC_SET`. -/
def IpcPerm.set (p : IpcPerm) (uid gid : Int) (mode : Nat) : IpcPerm :=
  { p with uid, gid, mode := (mode &&& access) ||| ipcAlloc }

/-- `IPC_SET` leaves an entry in use. -/
theorem allocated_set (p : IpcPerm) (uid gid : Int) (mode : Nat) : (p.set uid gid mode).allocated := by
  unfold IpcPerm.allocated IpcPerm.set
  simp only [Nat.and_or_distrib_right]
  intro zero
  exact absurd (Nat.or_eq_zero_iff.mp zero).2 (by decide)

/-- A new entry is one that was not in use. -/
theorem ipcget_new {key : Int} {flag cnt i : Nat} {perm : Nat → IpcPerm} (found : ipcget key flag perm cnt = .ok (.new i)) :
    i < cnt ∧ ¬ (perm i).allocated := by
  have available {j : Nat} (first : (List.range cnt).find? (fun i => ¬ (perm i).allocated) = some j) :
      j < cnt ∧ ¬ (perm j).allocated := by
    have member := List.mem_of_find?_eq_some first
    have free := List.find?_some first
    exact ⟨List.mem_range.mp member, by simpa using free⟩
  unfold ipcget at found
  simp only at found
  split at found
  · split at found
    · next first =>
      cases found
      exact available first
    · cases found
  · split at found
    · split at found
      · cases found
      · split at found
        · cases found
        · cases found
    · split at found
      · cases found
      · split at found
        · next first =>
          cases found
          exact available first
        · cases found

/-- The entries in use lie in the table, and no two have the same key but `IPC_PRIVATE`. -/
def Keyed (perm : Nat → IpcPerm) (cnt : Nat) : Prop :=
  ∀ i, (perm i).allocated → i < cnt ∧ ((perm i).key ≠ 0 → ∀ j, (perm j).allocated → (perm j).key = (perm i).key → j = i)

theorem allocated_init (p : IpcPerm) (key : Int) (flag : Nat) (cr : Cred) : (p.init key flag cr).allocated := by
  unfold IpcPerm.allocated IpcPerm.init
  simp only [Nat.and_or_distrib_right]
  intro zero
  exact absurd (Nat.or_eq_zero_iff.mp zero).1 (by decide)

section
variable {perm perm' : Nat → IpcPerm} {cnt i flag : Nat} {key : Int}

theorem Keyed.keep (keyed : Keyed perm cnt)
    (same : ∀ i, (perm' i).allocated → (perm i).allocated ∧ (perm' i).key = (perm i).key) : Keyed perm' cnt := by
  intro i used
  obtain ⟨before, key⟩ := same i used
  obtain ⟨inside, only⟩ := keyed i before
  refine ⟨inside, fun key' j other equal => ?_⟩
  rw [key] at key' equal
  exact only key' j (same j other).1 ((same j other).2.symm.trans equal)

theorem ipcget_existing (found : ipcget key flag perm cnt = .ok (.existing i)) :
    (perm i).allocated ∧ (perm i).key = key := by
  have named := @List.find?_some _ (fun i => decide ((perm i).allocated ∧ (perm i).key = key)) i (List.range cnt)
  unfold ipcget at found
  grind

theorem ipcget_fresh (keyed : Keyed perm cnt) (found : ipcget key flag perm cnt = .ok (.new i)) (shared : key ≠ 0)
    {j : Nat} (used : (perm j).allocated) : (perm j).key ≠ key := by
  have absent := @List.find?_eq_none _ (fun i => decide ((perm i).allocated ∧ (perm i).key = key)) (List.range cnt)
  have inside := List.mem_range.mpr (keyed j used).1
  unfold ipcget at found
  grind

theorem Keyed.new (keyed : Keyed perm cnt) (found : ipcget key flag perm cnt = .ok (.new i)) (made : (perm' i).key = key)
    (others : ∀ j, j ≠ i → perm' j = perm j) : Keyed perm' cnt := by
  have fresh {j : Nat} (other : j ≠ i) (used : (perm' j).allocated) (shared : key ≠ 0) : (perm' j).key ≠ key := by
    rw [others j other] at used ⊢
    exact ipcget_fresh keyed found shared used
  intro j used
  by_cases here : j = i
  · subst here
    refine ⟨(ipcget_new found).1, fun shared k other equal => ?_⟩
    rw [made] at shared equal
    by_contra away
    exact fresh away other shared equal
  · have before := used
    rw [others j here] at before
    refine ⟨(keyed j before).1, fun shared k other equal => ?_⟩
    by_cases there : k = i
    · subst there
      rw [made] at equal
      exact absurd equal.symm (fresh here used (equal ▸ shared))
    · rw [others j here] at shared equal
      rw [others k there] at other equal
      exact (keyed j before).2 shared k other equal

end

end Svr4.Ipc
