import Svr4.Kernel.Pid.Consistency

/-! Runs of the process table, from `pid_init` on. -/

namespace Svr4.Pid

attribute [local simp] pidInit

/-- The process of a slot that is in use, but for one that is being made. -/
def inUse (t : Table) (slot : Nat) : Option Nat :=
  t.practive.find? fun p => slotOf t p = slot ∧ (t.proc p).pStat ≠ .sidl

/-- The id of a process. -/
def idOf (t : Table) (p : Nat) : Nat := (t.pid (t.proc p).pPidp).pidId

def Step (vProc maxup : Nat) (t : Table) (event : Event) (t' : Table) : Prop := run vProc maxup event t = some t'

/-- The slots are those of the free list, each once, and those of the processes. -/
structure Partitioned (vProc : Nat) (t : Table) (free : List Nat) : Prop where
  chain : Chain (fun i => (t.procdir i).next) t.procentfree.next free
  nodup : free.Nodup
  known : (∀ i ∈ free, i < vProc) ∧ ∀ p ∈ t.practive, slotOf t p < vProc
  single : ∀ p ∈ t.practive, ∀ q ∈ t.practive, slotOf t p = slotOf t q → p = q
  split : ∀ i < vProc, i ∈ free ↔ ¬ ∃ p ∈ t.practive, slotOf t p = i

section
variable {vProc maxup slot id : Nat} {t t' : Table} {free : List Nat} {event : Event}

theorem Slots.single (slots : Slots vProc t free) {p q : Nat} (here : p ∈ t.practive) (there : q ∈ t.practive)
    (same : slotOf t p = slotOf t q) : p = q := by
  have first := (slots.entry p here).2
  rw [same, (slots.entry q there).2] at first
  exact (Pointer.proc.inj first).symm

theorem Slots.apart (slots : Slots vProc t free) {p : Nat} (member : p ∈ t.practive) : slotOf t p ∉ free := fun there =>
  (slots.links _ there).2 p (slots.entry p member).2

theorem Slots.partitioned (slots : Slots vProc t free) : Partitioned vProc t free := by
  refine ⟨slots.chain, slots.chain.nodup, ⟨fun i there => (slots.links i there).1, fun p member => (slots.entry p member).1⟩,
    fun p here q there => slots.single here there, fun i less => ⟨?_, fun none => ?_⟩⟩
  · rintro there ⟨p, member, rfl⟩
    exact slots.apart member there
  · exact (slots.cover i less).resolve_right none

/-! ## Finding a process -/

theorem prfind_iff (consistent : Consistent vProc t) {pointer : Pointer} :
    prfind t id = some pointer ↔ ∃ p ∈ t.practive, idOf t p = id ∧ pointer = .proc p := by
  obtain ⟨⟨free, slots⟩, hashed, owned⟩ := consistent
  constructor
  · intro found
    rw [prfind] at found
    split at found <;> rename_i a lookup
    · split at found <;> rename_i live
      · obtain ⟨there, rfl⟩ := (lookup_some hashed).mp lookup
        obtain ⟨p, member, rfl⟩ := owned.owner _ a there live
        have entry := (slots.entry p member).2
        rw [slotOf, Option.some.inj found] at entry
        exact ⟨p, member, rfl, entry⟩
      · cases found
    · cases found
  · rintro ⟨p, member, rfl, rfl⟩
    obtain ⟨live, there⟩ := owned.active p member
    have lookup : pidLookup t (idOf t p) = some (t.proc p).pPidp := (lookup_some hashed).mpr ⟨there, rfl⟩
    have entry := (slots.entry p member).2
    rw [slotOf] at entry
    rw [prfind, lookup]
    simp only [if_pos live, entry]

theorem Slots.inUse_free (slots : Slots vProc t free) (there : slot ∈ free) : inUse t slot = none := by
  rw [inUse, List.find?_eq_none]
  intro p member
  simp only [decide_eq_true_eq, not_and]
  exact fun same => absurd there (same ▸ slots.apart member)

theorem Slots.inUse_used (slots : Slots vProc t free) {p : Nat} (member : p ∈ t.practive) :
    inUse t (slotOf t p) = if (t.proc p).pStat = .sidl then none else some p := by
  split <;> rename_i stat
  · rw [inUse, List.find?_eq_none]
    intro q other
    simp only [decide_eq_true_eq, not_and, not_not]
    intro same
    rw [slots.single other member same, stat]
  · cases found : inUse t (slotOf t p) with
    | none =>
      rw [inUse, List.find?_eq_none] at found
      exact absurd (show slotOf t p = slotOf t p ∧ (t.proc p).pStat ≠ .sidl from ⟨rfl, stat⟩) (by simpa using found p member)
    | some q =>
      have other := List.mem_of_find?_eq_some found
      have same : slotOf t q = slotOf t p ∧ (t.proc q).pStat ≠ .sidl := by simpa using List.find?_some found
      rw [slots.single other member same.1]

/-- `pid_entry` is right but for a null pointer. -/
theorem Slots.entry_iff (slots : Slots vProc t free) (less : slot < vProc) :
    pidEntry vProc t slot = some (inUse t slot) ↔ t.procdir slot ≠ .null := by
  rcases slots.cover slot less with there | ⟨p, member, rfl⟩
  · rw [slots.inUse_free there]
    cases link : t.procdir slot with
    | null => simp [pidEntry, link, live]
    | procent i =>
      -- The link of a free slot is to the next one.
      obtain ⟨left, right, split⟩ := List.append_of_mem there
      have chain := slots.chain
      rw [split] at chain
      have next : some i = right.head? := by
        have follows := chain.next_eq
        rw [link] at follows
        exact follows
      have known := (slots.links i (by rw [split]; simp [List.mem_of_head? next.symm])).1
      simp [pidEntry, link, known]
    | proc q => exact absurd link ((slots.links slot there).2 q)
  · rw [slots.inUse_used member]
    simp [pidEntry, (slots.entry p member).2, live, member]

/-! ## Runs -/

theorem chain_init (i m : Nat) (positive : 0 < i) (stop : i + m + 1 = vProc) :
    Chain (fun j => ((pidInit vProc).procdir j).next) (some i) (List.range' i (m + 1)) := by
  induction m generalizing i with
  | zero =>
    refine .cons ?_
    rw [show ((pidInit vProc).procdir i).next = none by simp [Nat.ne_of_gt positive, Pointer.next, show ¬ i < vProc - 1 by omega]]
    exact .nil
  | succ m ih =>
    refine .cons ?_
    rw [show ((pidInit vProc).procdir i).next = some (i + 1) by simp [Nat.ne_of_gt positive, Pointer.next, show i < vProc - 1 by omega]]
    exact ih (i + 1) (Nat.succ_pos i) (by omega)

theorem init_consistent (two : 2 ≤ vProc) : Consistent vProc (pidInit vProc) := by
  obtain ⟨m, rfl⟩ := Nat.exists_eq_add_of_le two
  have bucket {h b : Nat} (member : b ∈ (pidInit (2 + m)).pidhash h) : h = hashpid 0 ∧ b = pid0 := by
    simp only [pidInit] at member
    split at member
    · exact ⟨‹_›, by simpa using member⟩
    · cases member
  refine ⟨⟨List.range' 1 (m + 1), chain_init 1 m (by decide) (by omega), nofun, fun i member => ?_, ?_, fun p member => ?_,
    fun i less => ?_, ?_, rfl⟩, ⟨fun h a member => ?_, fun h => ?_, fun h a member b other _ => ?_, fun h a _ => ?_⟩,
    ⟨fun p _ => ⟨rfl, ?_⟩, fun h a member _ => ⟨procSched, by simp, (bucket member).2.symm⟩⟩⟩
  · simp only [List.mem_range'_1] at member
    refine ⟨by omega, fun p => ?_⟩
    simp only [pidInit, show i ≠ 0 by omega, if_false]
    split <;> exact nofun
  · simp
  · have same : p = procSched := by simpa using member
    subst same
    exact ⟨Nat.lt_of_lt_of_le (by decide : 0 < 2) two, by simp [slotOf]⟩
  · by_cases zero : i = 0
    · exact .inr ⟨procSched, by simp, by simp [slotOf, zero]⟩
    · exact .inl (by simp only [List.mem_range'_1]; omega)
  · simp
    omega
  · rw [(bucket member).1]
    rfl
  · simp only [pidInit]
    split
    · simp
    · exact List.nodup_nil
  · rw [(bucket member).2, (bucket other).2]
  · simp
  · simp

theorem Consistent.step (consistent : Consistent vProc t) (step : Step vProc maxup t event t') : Consistent vProc t' := by
  cases event with
  | assign noLast failOk ruid prp pidp =>
    simp only [Step, run] at step
    split at step <;> rename_i fresh
    · obtain ⟨result, assigned, rfl⟩ := Option.map_eq_some_iff.mp step
      exact consistent_assign consistent fresh assigned
    · cases step
  | started p stat uid =>
    simp only [Step, run] at step
    split at step
    · cases step
      exact consistent_setProc consistent fun _ => rfl
    · cases step
  | hold a =>
    simp only [Step, run] at step
    split at step
    · cases step
      exact consistent_hold consistent
    · cases step
  | rele a =>
    simp only [Step, run] at step
    split at step <;> rename_i given
    · obtain ⟨t'', result, consistent'⟩ := consistent_rele consistent given.1 fun live => by
        rcases given.2 with gone | more
        · rw [live] at gone
          cases gone
        · exact Nat.ne_of_gt more
      rw [result] at step
      cases step
      exact consistent'
    · cases step
  | exit p =>
    simp only [Step, run] at step
    split at step <;> rename_i given
    · obtain ⟨t'', result, consistent'⟩ := consistent_exit consistent given.1
      rw [result] at step
      cases step
      exact consistent'
    · cases step
  | setmin =>
    cases step
    obtain ⟨⟨free, slots⟩, hashed, owned⟩ := consistent
    exact ⟨⟨free, slots.congr rfl rfl rfl rfl fun _ _ => rfl⟩, ⟨hashed.place, hashed.nodup, hashed.single, hashed.refs⟩,
      ⟨owned.active, owned.owner⟩⟩

end

/-- A table of three slots where a process has been made. -/
def forked : Table := ((run 3 10 (.assign false true none (some 1) (some 1)) (pidInit 3)).getD (pidInit 3))

end Svr4.Pid
