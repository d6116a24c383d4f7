import Svr4.Foundation.Chain
import Svr4.Kernel.Pid

/-! The process table is consistent, but for the last free slot: its link is a null pointer,
which `pid_entry` takes for a process.
-/

namespace Svr4.Pid

open Function (update_self update_of_ne update)

def Pointer.next : Pointer → Option Nat
  | .procent i => some i
  | _ => none

/-- The slot of a process. -/
def slotOf (t : Table) (p : Nat) : Nat := (t.pid (t.proc p).pPidp).pidPrslot

/-- The free slots are the list, and every other slot is of one process. -/
structure Slots (vProc : Nat) (t : Table) (free : List Nat) : Prop where
  chain : Chain (fun i => (t.procdir i).next) t.procentfree.next free
  first : ∀ p, t.procentfree ≠ .proc p
  links : ∀ i ∈ free, i < vProc ∧ ∀ p, t.procdir i ≠ .proc p
  nodup : t.practive.Nodup
  entry : ∀ p ∈ t.practive, slotOf t p < vProc ∧ t.procdir (slotOf t p) = .proc p
  cover : ∀ i < vProc, i ∈ free ∨ ∃ p ∈ t.practive, slotOf t p = i
  length : free.length + t.practive.length = vProc
  count : t.nproc = t.practive.length

/-- The ids on the hash chains are pairwise different, and in use. -/
structure Hashed (t : Table) : Prop where
  place : ∀ h, ∀ a ∈ t.pidhash h, hashpid (t.pid a).pidId = h
  nodup : ∀ h, (t.pidhash h).Nodup
  single : ∀ h, ∀ a ∈ t.pidhash h, ∀ b ∈ t.pidhash h, (t.pid a).pidId = (t.pid b).pidId → a = b
  refs : ∀ h, ∀ a ∈ t.pidhash h, 0 < (t.pid a).pidRef

/-- An id is active exactly while its process is. -/
structure Owned (t : Table) : Prop where
  active : ∀ p ∈ t.practive, (t.pid (t.proc p).pPidp).pidPrinactive = false ∧
    (t.proc p).pPidp ∈ t.pidhash (hashpid (t.pid (t.proc p).pPidp).pidId)
  owner : ∀ h, ∀ a ∈ t.pidhash h, (t.pid a).pidPrinactive = false → ∃ p ∈ t.practive, (t.proc p).pPidp = a

structure Consistent (vProc : Nat) (t : Table) : Prop where
  slots : ∃ free, Slots vProc t free
  hashed : Hashed t
  owned : Owned t

section
variable {vProc maxup a id : Nat} {t t' : Table} {free : List Nat} {value : PidEntry → PidEntry} {p : Nat}

theorem setPid_self : (t.setPid a value).pid a = value (t.pid a) := update_self ..

theorem setPid_other {b : Nat} (differ : b ≠ a) : (t.setPid a value).pid b = t.pid b :=
  update_of_ne differ ..

/-! ## What the slots and the hash chains depend on -/

theorem Slots.congr (slots : Slots vProc t free) (procdir : t'.procdir = t.procdir) (first : t'.procentfree = t.procentfree)
    (practive : t'.practive = t.practive) (nproc : t'.nproc = t.nproc)
    (slot : ∀ p ∈ t.practive, slotOf t' p = slotOf t p) : Slots vProc t' free := by
  obtain ⟨chain, start, links, nodup, entry, cover, length, count⟩ := slots
  refine ⟨?_, ?_, ?_, ?_, ?_, ?_, ?_, ?_⟩
  · rw [procdir, first]
    exact chain
  · rw [first]
    exact start
  · rw [procdir]
    exact links
  · rw [practive]
    exact nodup
  · intro p member
    rw [practive] at member
    rw [slot p member, procdir]
    exact entry p member
  · intro i less
    refine (cover i less).imp_right fun ⟨p, member, same⟩ => ?_
    exact ⟨p, by rw [practive]; exact member, (slot p member).trans same⟩
  · rw [practive]
    exact length
  · rw [nproc, practive]
    exact count

theorem Hashed.congr (hashed : Hashed t) (sub : ∀ h, (t'.pidhash h).Sublist (t.pidhash h))
    (ids : ∀ h, ∀ a ∈ t'.pidhash h, (t'.pid a).pidId = (t.pid a).pidId) (refs : ∀ h, ∀ a ∈ t'.pidhash h, 0 < (t'.pid a).pidRef) :
    Hashed t' := by
  refine ⟨fun h a member => ?_, fun h => (hashed.nodup h).sublist (sub h), fun h a member b other same => ?_, refs⟩
  · rw [ids h a member]
    exact hashed.place h a ((sub h).subset member)
  · rw [ids h a member, ids h b other] at same
    exact hashed.single h a ((sub h).subset member) b ((sub h).subset other) same

theorem Slots.pidp_inj (slots : Slots vProc t free) {q : Nat} (here : p ∈ t.practive) (there : q ∈ t.practive)
    (same : (t.proc p).pPidp = (t.proc q).pPidp) : p = q := by
  have first := (slots.entry p here).2
  have second := (slots.entry q there).2
  rw [slotOf, same] at first
  rw [slotOf, first] at second
  exact Pointer.proc.inj second

/-! ## Looking up -/

theorem lookup_some (hashed : Hashed t) : pidLookup t id = some a ↔ a ∈ t.pidhash (hashpid id) ∧ (t.pid a).pidId = id := by
  constructor
  · intro found
    exact ⟨List.mem_of_find?_eq_some found, by simpa using List.find?_some found⟩
  · rintro ⟨member, rfl⟩
    cases found : pidLookup t (t.pid a).pidId with
    | none =>
      have differ := List.find?_eq_none.mp found a member
      simp at differ
    | some b =>
      have there := List.mem_of_find?_eq_some found
      have same : (t.pid b).pidId = (t.pid a).pidId := by simpa using List.find?_some found
      rw [hashed.single _ b there a member same]

theorem lookup_none : pidLookup t id = none ↔ ∀ a ∈ t.pidhash (hashpid id), (t.pid a).pidId ≠ id := by
  rw [pidLookup, List.find?_eq_none]
  simp

theorem nextPid_free {fuel mpid : Nat} (found : nextPid t fuel mpid = some id) : pidLookup t id = none := by
  induction fuel generalizing mpid with
  | zero => cases found
  | succ fuel ih =>
    simp only [nextPid] at found
    generalize (if mpid + 1 = maxpid then t.minpid else mpid + 1) = next at found
    split at found
    · cases found
      assumption
    · exact ih found

/-! ## A new process -/

theorem Slots.room (slots : Slots vProc t free) (few : t.nproc < vProc) :
    ∃ pep rest, free = pep :: rest ∧ t.procentfree = .procent pep := by
  cases free with
  | nil =>
    have length := slots.length
    have count := slots.count
    simp only [List.length_nil] at length
    omega
  | cons pep rest =>
    have head := slots.chain.head_eq
    refine ⟨pep, rest, rfl, ?_⟩
    cases link : t.procentfree with
    | procent i =>
      rw [link] at head
      rw [Option.some.inj head]
    | null =>
      rw [link] at head
      cases head
    | proc p => exact absurd link (slots.first p)

theorem consistent_enter {prp pidp mpid : Nat} (consistent : Consistent vProc t) (few : t.nproc < vProc)
    (newProc : prp ∉ t.practive) (newPid : ∀ h < 64, pidp ∉ t.pidhash h) (unusedId : pidLookup t mpid = none) :
    ∃ t', enter prp pidp mpid t = some t' ∧ Consistent vProc t' := by
  obtain ⟨⟨free, slots⟩, hashed, owned⟩ := consistent
  obtain ⟨pep, rest, rfl, head⟩ := slots.room few
  have bucket (id : Nat) : hashpid id < 64 := Nat.mod_lt _ (by decide)
  have outside (h : Nat) : pidp ∉ t.pidhash h := fun member =>
    newPid h (by rw [← hashed.place h pidp member]; exact bucket _) member
  have others {p : Nat} (member : p ∈ t.practive) : p ≠ prp ∧ (t.proc p).pPidp ≠ pidp :=
    ⟨fun same => newProc (same ▸ member), fun same => outside _ (same ▸ (owned.active p member).2)⟩
  have chain := slots.chain
  have nodup := chain.nodup
  have apart : pep ∉ rest := (List.nodup_cons.mp nodup).1
  -- The slot is of no process.
  have unusedSlot {p : Nat} (member : p ∈ t.practive) : slotOf t p ≠ pep := fun same => by
    have entry := (slots.entry p member).2
    rw [same] at entry
    exact (slots.links pep (by simp)).2 p entry
  have old {h b : Nat} (member : b ∈ t.pidhash h) : b ≠ pidp := fun same => outside h (same ▸ member)
  have chained (h b : Nat) : b ∈ update t.pidhash (hashpid mpid) (pidp :: t.pidhash (hashpid mpid)) h ↔
      (b = pidp ∧ h = hashpid mpid) ∨ b ∈ t.pidhash h := by
    by_cases same : h = hashpid mpid
    · subst same
      simp [update_self]
    · simp [same]
  simp only [enter, head]
  refine ⟨_, rfl, ⟨rest, ⟨?_, ?_, ?_, ?_, ?_, ?_, ?_, ?_⟩⟩, ⟨?_, ?_, ?_, ?_⟩, ⟨?_, ?_⟩⟩
  · rw [head] at chain
    refine chain.tail.congr fun i member => ?_
    have differ : i ≠ pep := fun same => apart (same ▸ member)
    simp only [Table.setProc, Table.setPid]
    rw [update_of_ne differ]
  · exact (slots.links pep (by simp)).2
  · intro i member
    have differ : i ≠ pep := fun same => apart (same ▸ member)
    simp only [Table.setProc, Table.setPid]
    rw [update_of_ne differ]
    exact slots.links i (.tail _ member)
  · exact List.nodup_cons.mpr ⟨newProc, slots.nodup⟩
  · intro p member
    simp only [slotOf, Table.setProc, Table.setPid]
    rcases List.mem_cons.mp member with rfl | member
    · rw [update_self, update_self, update_self]
      exact ⟨(slots.links pep (by simp)).1, rfl⟩
    · have slot := unusedSlot member
      rw [slotOf] at slot
      rw [update_of_ne (others member).1, update_of_ne (others member).2, update_of_ne slot]
      exact slots.entry p member
  · intro i less
    simp only [slotOf, Table.setProc, Table.setPid, List.mem_cons]
    rcases slots.cover i less with free | ⟨p, member, same⟩
    · rcases List.mem_cons.mp free with rfl | member
      · refine .inr ⟨prp, .inl rfl, ?_⟩
        rw [update_self, update_self]
      · exact .inl member
    · refine .inr ⟨p, .inr member, ?_⟩
      rw [update_of_ne (others member).1, update_of_ne (others member).2]
      exact same
  · have length := slots.length
    simp only [List.length_cons, Table.setProc, Table.setPid] at length ⊢
    omega
  · simp [Table.setProc, Table.setPid, slots.count]
  · intro h b member
    rcases (chained h b).mp member with ⟨rfl, rfl⟩ | member
    · simp [Table.setProc, Table.setPid]
    · simp only [Table.setProc, Table.setPid, update_of_ne (old member)]
      exact hashed.place h b member
  · intro h
    simp only [Table.setProc, Table.setPid]
    by_cases same : h = hashpid mpid
    · rw [same, update_self]
      exact List.nodup_cons.mpr ⟨outside _, hashed.nodup _⟩
    · rw [update_of_ne same]
      exact hashed.nodup h
  · intro h b member c other same
    simp only [Table.setProc, Table.setPid] at same
    rcases (chained h b).mp member with ⟨rfl, rfl⟩ | here
    · rcases (chained _ c).mp other with ⟨rfl, _⟩ | there
      · rfl
      · rw [update_self, update_of_ne (old there)] at same
        exact absurd same.symm (lookup_none.mp unusedId c there)
    · rcases (chained h c).mp other with ⟨rfl, rfl⟩ | there
      · rw [update_self, update_of_ne (old here)] at same
        exact absurd same (lookup_none.mp unusedId b here)
      · rw [update_of_ne (old here), update_of_ne (old there)] at same
        exact hashed.single h b here c there same
  · intro h b member
    rcases (chained h b).mp member with ⟨rfl, rfl⟩ | member
    · simp [Table.setProc, Table.setPid, Nat.lt_add_one]
    · simp only [Table.setProc, Table.setPid, update_of_ne (old member)]
      exact hashed.refs h b member
  · intro p member
    rcases List.mem_cons.mp member with rfl | member
    · constructor
      · simp [Table.setProc, Table.setPid]
      · simp [Table.setProc, Table.setPid]
    · obtain ⟨live, there⟩ := owned.active p member
      simp only [Table.setProc, Table.setPid, update_of_ne (others member).1,
        update_of_ne (others member).2]
      exact ⟨live, (chained _ _).mpr (.inr there)⟩
  · intro h b member live
    rcases (chained h b).mp member with ⟨rfl, rfl⟩ | member
    · refine ⟨prp, (.head _), ?_⟩
      simp [Table.setProc]
    · simp only [Table.setProc, Table.setPid, update_of_ne (old member)] at live
      obtain ⟨p, there, same⟩ := owned.owner h b member live
      refine ⟨p, .tail _ there, ?_⟩
      simp only [Table.setProc, Table.setPid, update_of_ne (others there).1]
      exact same

theorem consistent_assign {noLast failOk : Bool} {ruid prp pidp : Option Nat} (consistent : Consistent vProc t)
    (fresh : unused t prp pidp = true) {result : Option Nat × Table}
    (assigned : pidAssign vProc maxup noLast failOk ruid prp pidp t = some result) : Consistent vProc result.2 := by
  simp only [pidAssign] at assigned
  split at assigned <;> rename_i full
  · cases assigned
    exact consistent
  · split at assigned
    · cases assigned
      exact consistent
    · have few : t.nproc < vProc := by
        obtain ⟨⟨free, slots⟩, _, _⟩ := consistent
        have length := slots.length
        have count := slots.count
        omega
      split at assigned
      · rename_i p a
        simp only [unused, Option.all_some, Bool.and_eq_true, decide_eq_true_eq, List.all_eq_true, List.mem_range] at fresh
        cases found : nextPid t (2 * maxpid) t.mpid with
        | none =>
          rw [found] at assigned
          cases assigned
        | some mpid =>
          obtain ⟨t', entered, consistent'⟩ := consistent_enter consistent few fresh.1 fresh.2 (nextPid_free found)
          rw [found] at assigned
          simp only [Option.bind_eq_bind, Option.bind_some, entered] at assigned
          cases assigned
          exact consistent'
      · split at assigned
        · cases assigned
          exact consistent
        · cases assigned

/-! ## Holding and releasing -/

/-- What a release leaves: an id goes with its last reference. -/
structure Released (a : Nat) (t t' : Table) : Prop where
  procdir : t'.procdir = t.procdir
  procentfree : t'.procentfree = t.procentfree
  practive : t'.practive = t.practive
  nproc : t'.nproc = t.nproc
  proc : t'.proc = t.proc
  pid : ∀ b, t'.pid b = { t.pid b with pidRef := (t'.pid b).pidRef }
  kept : ∀ h b, b ∈ t'.pidhash h ↔ b ∈ t.pidhash h ∧ (b = a → (t.pid a).pidRef ≠ 1)
  hashed : Hashed t'

theorem release_eq (hashed : Hashed t) (on : a ∈ t.pidhash (hashpid (t.pid a).pidId)) :
    ∃ t', release a t = some t' ∧ Released a t t' := by
  have positive := hashed.refs _ a on
  have pid (b : Nat) : (t.setPid a fun i => { i with pidRef := i.pidRef - 1 }).pid b =
      { t.pid b with pidRef := if b = a then (t.pid b).pidRef - 1 else (t.pid b).pidRef } := by
    by_cases same : b = a
    · subst same
      rw [setPid_self, if_pos rfl]
    · rw [setPid_other same, if_neg same]
  simp only [release, setPid_self]
  split <;> rename_i last
  · -- The last reference: the id leaves its chain.
    have there : a ∈ (t.setPid a fun i => { i with pidRef := i.pidRef - 1 }).pidhash (hashpid (t.pid a).pidId) := on
    simp only [pidRele, setPid_self, if_pos there]
    have erased (h b : Nat) : b ∈ update t.pidhash (hashpid (t.pid a).pidId)
        ((t.pidhash (hashpid (t.pid a).pidId)).erase a) h ↔ b ∈ t.pidhash h ∧ b ≠ a := by
      by_cases same : h = hashpid (t.pid a).pidId
      · rw [same, update_self, (hashed.nodup _).mem_erase_iff, and_comm]
      · rw [update_of_ne same]
        refine ⟨fun member => ⟨member, fun equal => same ?_⟩, And.left⟩
        rw [← hashed.place h b member, equal]
    have sub (h : Nat) : (update t.pidhash (hashpid (t.pid a).pidId)
        ((t.pidhash (hashpid (t.pid a).pidId)).erase a) h).Sublist (t.pidhash h) := by
      by_cases same : h = hashpid (t.pid a).pidId
      · rw [same, update_self]
        exact List.erase_sublist
      · rw [update_of_ne same]
    refine ⟨_, rfl, rfl, rfl, rfl, rfl, rfl, fun b => ?_, fun h b => ?_, ?_⟩
    · simp only [pid b]
    · rw [show (t.pid a).pidRef = 1 by omega, show (b = a → (1 : Nat) ≠ 1) ↔ b ≠ a by simp]
      exact erased h b
    · refine hashed.congr sub (fun h b _ => by simp only [pid b]) fun h b member => ?_
      obtain ⟨member, differ⟩ := (erased h b).mp member
      simp only [pid b, if_neg differ]
      exact hashed.refs h b member
  · refine ⟨_, rfl, rfl, rfl, rfl, rfl, rfl, fun b => ?_, fun h b => ?_, ?_⟩
    · simp only [pid b]
    · have more : (t.pid a).pidRef ≠ 1 := by omega
      exact ⟨fun member => ⟨member, fun _ => more⟩, And.left⟩
    · refine hashed.congr (fun h => List.Sublist.refl _) (fun h b _ => by simp only [pid b]) fun h b member => ?_
      have count := hashed.refs h b member
      simp only [pid b]
      split <;> rename_i same
      · subst same
        omega
      · exact count

theorem consistent_rele (consistent : Consistent vProc t) (on : a ∈ t.pidhash (hashpid (t.pid a).pidId))
    (spare : (t.pid a).pidPrinactive = false → (t.pid a).pidRef ≠ 1) :
    ∃ t', release a t = some t' ∧ Consistent vProc t' := by
  obtain ⟨⟨free, slots⟩, hashed, owned⟩ := consistent
  obtain ⟨t', result, released⟩ := release_eq hashed on
  have fields (b : Nat) := congrArg (fun i : PidEntry => (i.pidPrinactive, i.pidPrslot, i.pidId)) (released.pid b)
  simp only [Prod.mk.injEq] at fields
  refine ⟨t', result, ⟨free, ?_⟩, released.hashed, ⟨fun p member => ?_, fun h b member live => ?_⟩⟩
  · refine slots.congr released.procdir released.procentfree released.practive released.nproc fun p _ => ?_
    rw [slotOf, slotOf, released.proc, (fields _).2.1]
  · rw [released.practive] at member
    obtain ⟨live, there⟩ := owned.active p member
    rw [released.proc, (fields _).1, (fields _).2.2, released.kept]
    exact ⟨live, there, fun same => spare (by rw [← same]; exact live)⟩
  · rw [(fields b).1] at live
    obtain ⟨p, there, same⟩ := owned.owner h b ((released.kept h b).mp member).1 live
    exact ⟨p, by rw [released.practive]; exact there, by rw [released.proc]; exact same⟩

theorem consistent_hold (consistent : Consistent vProc t) : Consistent vProc (pidHold a t) := by
  obtain ⟨⟨free, slots⟩, hashed, owned⟩ := consistent
  have pid (b : Nat) : (pidHold a t).pid b = { t.pid b with pidRef := if b = a then (t.pid b).pidRef + 1 else (t.pid b).pidRef } := by
    rw [pidHold]
    by_cases same : b = a
    · subst same
      rw [setPid_self, if_pos rfl]
    · rw [setPid_other same, if_neg same]
  refine ⟨⟨free, slots.congr rfl rfl rfl rfl fun p _ => ?_⟩, ?_, ⟨fun p member => ?_, fun h b member live => ?_⟩⟩
  · rw [slotOf, pid]
    rfl
  · refine hashed.congr (fun h => List.Sublist.refl _) (fun h b _ => by rw [pid]) fun h b member => ?_
    have count := hashed.refs h b member
    rw [pid]
    dsimp only
    split <;> omega
  · have active := owned.active p member
    rw [pid]
    exact active
  · rw [pid] at live
    exact owned.owner h b member live

/-- A process that is on `practive` changes in no pointer. -/
theorem consistent_setProc {value : Proc → Proc} (consistent : Consistent vProc t)
    (keeps : ∀ i : Proc, (value i).pPidp = i.pPidp) : Consistent vProc (t.setProc p value) := by
  obtain ⟨⟨free, slots⟩, hashed, owned⟩ := consistent
  have pidp (q : Nat) : ((t.setProc p value).proc q).pPidp = (t.proc q).pPidp := by
    simp only [Table.setProc]
    by_cases same : q = p
    · subst same
      rw [update_self]
      exact keeps _
    · rw [update_of_ne same]
  refine ⟨⟨free, slots.congr rfl rfl rfl rfl fun q _ => ?_⟩, ⟨hashed.place, hashed.nodup, hashed.single, hashed.refs⟩,
    ⟨fun q member => ?_, fun h b member live => ?_⟩⟩
  · rw [slotOf, pidp]
    rfl
  · rw [pidp]
    exact owned.active q member
  · obtain ⟨q, there, same⟩ := owned.owner h b member live
    exact ⟨q, there, (pidp q).trans same⟩

/-! ## A process exits -/

theorem consistent_exit (consistent : Consistent vProc t) (member : p ∈ t.practive) :
    ∃ t', pidExit p t = some t' ∧ Consistent vProc t' := by
  obtain ⟨⟨free, slots⟩, hashed, owned⟩ := consistent
  obtain ⟨live, on⟩ := owned.active p member
  obtain ⟨slotLess, entry⟩ := slots.entry p member
  generalize own : (t.proc p).pPidp = a at *
  have slotEq : slotOf t p = (t.pid a).pidPrslot := by rw [slotOf, own]
  rw [slotEq] at slotLess entry
  generalize inactive : (t.setPid a fun i => { i with pidPrinactive := true }) = t1
  have pid (b : Nat) : t1.pid b = { t.pid b with pidPrinactive := if b = a then true else (t.pid b).pidPrinactive } := by
    rw [← inactive]
    by_cases same : b = a
    · subst same
      rw [setPid_self, if_pos rfl]
    · rw [setPid_other same, if_neg same]
  have slot1 : (t1.pid a).pidPrslot = (t.pid a).pidPrslot := by rw [pid]
  generalize (t.pid a).pidPrslot = slot at *
  generalize given : ({ t1 with procdir := update t1.procdir slot t1.procentfree, procentfree := .procent slot } : Table) = t2
  have pid2 (b : Nat) : t2.pid b = { t.pid b with pidPrinactive := if b = a then true else (t.pid b).pidPrinactive } := by
    rw [← given]
    exact pid b
  have chains : t2.pidhash = t.pidhash := by
    rw [← given, ← inactive]
    rfl
  have hashed2 : Hashed t2 := by
    refine hashed.congr (fun h => by rw [chains]) (fun h b _ => by rw [pid2]) fun h b there => ?_
    rw [chains] at there
    rw [pid2]
    exact hashed.refs h b there
  have on2 : a ∈ t2.pidhash (hashpid (t2.pid a).pidId) := by
    rw [chains, pid2]
    exact on
  obtain ⟨t3, result, released⟩ := release_eq hashed2 on2
  have fields (b : Nat) : (t3.pid b).pidPrinactive = (if b = a then true else (t.pid b).pidPrinactive) ∧
      (t3.pid b).pidPrslot = (t.pid b).pidPrslot ∧ (t3.pid b).pidId = (t.pid b).pidId := by
    rw [released.pid b, pid2 b]
    exact ⟨rfl, rfl, rfl⟩
  have procdir : t3.procdir = update t.procdir slot t.procentfree := by
    rw [released.procdir, ← given, ← inactive]
    rfl
  have first : t3.procentfree = .procent slot := by
    rw [released.procentfree, ← given]
  have proc : t3.proc = t.proc := by
    rw [released.proc, ← given, ← inactive]
    rfl
  have practive : t3.practive = t.practive := by
    rw [released.practive, ← given, ← inactive]
    rfl
  have nproc : t3.nproc = t.nproc := by
    rw [released.nproc, ← given, ← inactive]
    rfl
  refine ⟨{ t3 with practive := t3.practive.erase p, nproc := t3.nproc - 1 }, ?_, ?_⟩
  · simp only [pidExit, own, inactive, slot1, given, result, Option.bind_eq_bind, Option.bind_some]
    rfl
  have absent : slot ∉ free := fun there => (slots.links slot there).2 p entry
  have rest (q : Nat) : q ∈ t3.practive.erase p ↔ q ≠ p ∧ q ∈ t.practive := by
    rw [practive, slots.nodup.mem_erase_iff]
  have others {q : Nat} (differ : q ≠ p) (there : q ∈ t.practive) : (t.proc q).pPidp ≠ a := fun same =>
    differ (slots.pidp_inj there member (same.trans own.symm))
  refine ⟨⟨slot :: free, ⟨?_, ?_, ?_, ?_, ?_, ?_, ?_, ?_⟩⟩,
    ⟨released.hashed.place, released.hashed.nodup, released.hashed.single, released.hashed.refs⟩, ⟨?_, ?_⟩⟩
  · dsimp only
    rw [first]
    apply Chain.cons
    rw [procdir, update_self]
    refine slots.chain.congr fun i there => ?_
    have differ : i ≠ slot := fun same => absent (same ▸ there)
    rw [update_of_ne differ]
  · rw [first]
    exact nofun
  · intro i there
    rw [procdir]
    rcases List.mem_cons.mp there with rfl | there
    · rw [update_self]
      exact ⟨slotLess, slots.first⟩
    · have differ : i ≠ slot := fun same => absent (same ▸ there)
      rw [update_of_ne differ]
      exact slots.links i there
  · rw [practive]
    exact slots.nodup.erase p
  · intro q there
    obtain ⟨differ, there⟩ := (rest q).mp there
    have same : slotOf t3 q = slotOf t q := by rw [slotOf, slotOf, proc, (fields _).2.1]
    obtain ⟨less, here⟩ := slots.entry q there
    have apart : slotOf t q ≠ slot := fun equal => by
      rw [equal, entry] at here
      exact differ (Pointer.proc.inj here).symm
    show slotOf t3 q < vProc ∧ t3.procdir (slotOf t3 q) = .proc q
    rw [same, procdir, update_of_ne apart]
    exact ⟨less, here⟩
  · intro i less
    rcases slots.cover i less with there | ⟨q, there, rfl⟩
    · exact .inl (.tail _ there)
    · by_cases same : q = p
      · subst same
        refine .inl ?_
        rw [slotEq]
        exact .head _
      · refine .inr ⟨q, (rest q).mpr ⟨same, there⟩, ?_⟩
        show slotOf t3 q = slotOf t q
        rw [slotOf, slotOf, proc, (fields _).2.1]
  · have length := slots.length
    have positive := List.length_pos_of_mem member
    simp only [List.length_cons, practive, List.length_erase_of_mem member]
    omega
  · simp only [practive, nproc, List.length_erase_of_mem member, slots.count]
  · intro q there
    obtain ⟨differ, there⟩ := (rest q).mp there
    obtain ⟨active, chained⟩ := owned.active q there
    have apart := others differ there
    show (t3.pid (t3.proc q).pPidp).pidPrinactive = false ∧ (t3.proc q).pPidp ∈ t3.pidhash _
    rw [proc, (fields _).1, (fields _).2.2, if_neg apart, released.kept, chains]
    exact ⟨active, chained, fun same => absurd same apart⟩
  · intro h b there active
    have active' : (t3.pid b).pidPrinactive = false := active
    rw [(fields b).1] at active'
    have apart : b ≠ a := fun same => by
      rw [if_pos same] at active'
      cases active'
    rw [if_neg apart] at active'
    have chained : b ∈ t.pidhash h := by
      have kept := ((released.kept h b).mp there).1
      rw [chains] at kept
      exact kept
    obtain ⟨q, here, same⟩ := owned.owner h b chained active'
    refine ⟨q, (rest q).mpr ⟨fun equal => apart ?_, here⟩, ?_⟩
    · rw [← same, equal, own]
    · show (t3.proc q).pPidp = b
      rw [proc]
      exact same

end

end Svr4.Pid
