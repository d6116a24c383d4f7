import Mathlib.Logic.Function.Basic
import Svr4.Foundation.Execution

/-! Process ids and the process table: `pid_assign`, `pid_rele`, `pid_exit`, `prfind` and
`pid_entry`.

The hash chains and `practive` are lists of addresses. A panic, and a pointer that is
followed to no process, gives no result.
-/

namespace Svr4.Pid

open Function (update)

/-- What a word of memory points to: nothing, an entry of `procdir`, or a process. It is all that
tells the two members of `union procent` apart. -/
inductive Pointer where
  | null
  | procent (slot : Nat)
  | proc (p : Nat)
  deriving DecidableEq, Repr

inductive Stat where
  | sidl
  | other
  deriving DecidableEq, Repr

structure Proc where
  pStat : Stat
  pPidp : Nat
  pUid : Nat
  deriving DecidableEq, Repr

/-- `struct pid`, without the process group. -/
structure PidEntry where
  pidPrinactive : Bool
  pidRef : Nat
  pidPrslot : Nat
  pidId : Nat
  deriving DecidableEq, Repr

structure Table where
  nproc : Nat
  mpid : Nat
  minpid : Nat
  pidhash : Nat → List Nat
  procdir : Nat → Pointer
  procentfree : Pointer
  practive : List Nat
  proc : Nat → Proc
  pid : Nat → PidEntry

namespace Table

def setProc (p : Nat) (value : Proc → Proc) (t : Table) : Table :=
  { t with proc := update t.proc p (value (t.proc p)) }

def setPid (a : Nat) (value : PidEntry → PidEntry) (t : Table) : Table :=
  { t with pid := update t.pid a (value (t.pid a)) }

end Table

def maxpid : Nat := 30000

/-- The chain of `HASHPID`. -/
def hashpid (id : Nat) : Nat := id % 64

def pidLookup (t : Table) (id : Nat) : Option Nat := (t.pidhash (hashpid id)).find? fun a => (t.pid a).pidId = id

/-- The loop that looks for an id; without one that is free it does not end. -/
def nextPid (t : Table) : Nat → Nat → Option Nat
  | 0, _ => none
  | fuel + 1, mpid =>
    let mpid := if mpid + 1 = maxpid then t.minpid else mpid + 1
    if pidLookup t mpid = none then some mpid else nextPid t fuel mpid

/-- The new process `prp` and its `pidp` get an id and an entry. -/
def enter (prp pidp mpid : Nat) (t : Table) : Option Table :=
  match t.procentfree with
  | .procent pep =>
    let t := { t with
      mpid := mpid
      procentfree := t.procdir pep
      procdir := update t.procdir pep (.proc prp) }
    let t := t.setPid pidp fun _ => ⟨false, 1, pep, mpid⟩
    let t := { t with pidhash := update t.pidhash (hashpid mpid) (pidp :: t.pidhash (hashpid mpid)) }
    let t := t.setProc prp fun _ => ⟨.sidl, pidp, 0⟩
    some { t with practive := prp :: t.practive, nproc := t.nproc + 1 }
  | _ => none

/-- The id, if there is one; `ruid` is the user if it is not the super-user, and `prp` and
`pidp` are what `kmem_zalloc` gives. -/
def pidAssign (vProc maxup : Nat) (noLast failOk : Bool) (ruid prp pidp : Option Nat) (t : Table) :
    Option (Option Nat × Table) :=
  if vProc - 1 ≤ t.nproc ∧ (t.nproc = vProc ∨ noLast) then some (none, t)
  else if ∃ uid ∈ ruid, maxup ≤ t.practive.countP fun p => (t.proc p).pUid = uid then some (none, t)
  else
    match prp, pidp with
    | some prp, some pidp => do
      let mpid ← nextPid t (2 * maxpid) t.mpid
      let t ← enter prp pidp mpid t
      return (some mpid, t)
    | _, _ => if failOk then some (none, t) else none

/-- `PID_HOLD`. -/
def pidHold (a : Nat) (t : Table) : Table := t.setPid a fun i => { i with pidRef := i.pidRef + 1 }

def pidRele (a : Nat) (t : Table) : Option Table :=
  let h := hashpid (t.pid a).pidId
  if a ∈ t.pidhash h then some { t with pidhash := update t.pidhash h ((t.pidhash h).erase a) } else none

/-- `PID_RELE`. -/
def release (a : Nat) (t : Table) : Option Table :=
  let t := t.setPid a fun i => { i with pidRef := i.pidRef - 1 }
  if (t.pid a).pidRef = 0 then pidRele a t else some t

/-- The process has left its group and its session. -/
def pidExit (p : Nat) (t : Table) : Option Table := do
  let a := (t.proc p).pPidp
  let t := t.setPid a fun i => { i with pidPrinactive := true }
  let slot := (t.pid a).pidPrslot
  let t := { t with procdir := update t.procdir slot t.procentfree, procentfree := .procent slot }
  let t ← release a t
  return { t with practive := t.practive.erase p, nproc := t.nproc - 1 }

/-- The union member `pe_proc`; `none` where it is no process. -/
def live (t : Table) : Pointer → Option Nat
  | .proc p => if p ∈ t.practive then some p else none
  | _ => none

def prfind (t : Table) (id : Nat) : Option Pointer :=
  match pidLookup t id with
  | some a => if (t.pid a).pidPrinactive = false then some (t.procdir (t.pid a).pidPrslot) else none
  | none => none

/-- An address in `procdir` is a link; anything else is taken for a process. -/
def pidEntry (vProc : Nat) (t : Table) (slot : Nat) : Option (Option Nat) :=
  match t.procdir slot with
  | .procent i => if i < vProc then some none else none
  | pointer => do
    let p ← live t pointer
    return if (t.proc p).pStat = .sidl then none else some p

/-! ## Runs -/

inductive Event where
  | assign (noLast failOk : Bool) (ruid prp pidp : Option Nat)
  | started (p : Nat) (stat : Stat) (uid : Nat)
  | hold (a : Nat)
  | rele (a : Nat)
  | exit (p : Nat)
  | setmin
  deriving DecidableEq, Repr

/-- `proc_sched`, which never exits, and `pid0`. -/
def procSched : Nat := 0

def pid0 : Nat := 0

/-- `kmem_zalloc` gives memory that is not in use. -/
def unused (t : Table) (prp pidp : Option Nat) : Bool :=
  prp.all (fun p => p ∉ t.practive) && pidp.all fun a => (List.range 64).all fun h => a ∉ t.pidhash h

/-- A group or a session releases what it holds. -/
def run (vProc maxup : Nat) (event : Event) (t : Table) : Option Table :=
  match event with
  | .assign noLast failOk ruid prp pidp =>
    if unused t prp pidp then (pidAssign vProc maxup noLast failOk ruid prp pidp t).map Prod.snd else none
  | .started p stat uid =>
    if p ∈ t.practive then some (t.setProc p fun i => { i with pStat := stat, pUid := uid }) else none
  | .hold a => if a ∈ t.pidhash (hashpid (t.pid a).pidId) then some (pidHold a t) else none
  | .rele a =>
    if a ∈ t.pidhash (hashpid (t.pid a).pidId) ∧ ((t.pid a).pidPrinactive ∨ 1 < (t.pid a).pidRef) then
      release a t
    else none
  | .exit p => if p ∈ t.practive ∧ p ≠ procSched then pidExit p t else none
  | .setmin => some { t with minpid := t.mpid + 1 }

/-- The table after `pid_init`, where there are at least two slots. -/
def pidInit (vProc : Nat) : Table where
  nproc := 1
  mpid := 0
  minpid := 0
  pidhash h := if h = hashpid 0 then [pid0] else []
  procdir i := if i = 0 then .proc procSched else if i < vProc - 1 then .procent (i + 1) else .null
  procentfree := .procent 1
  practive := [procSched]
  proc _ := ⟨.other, pid0, 0⟩
  pid _ := ⟨false, 3, 0, 0⟩

end Svr4.Pid
