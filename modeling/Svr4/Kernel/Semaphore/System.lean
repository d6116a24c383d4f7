import Svr4.Foundation.Execution
import Svr4.Kernel.Ipc
import Svr4.Kernel.Rmap
import Svr4.Kernel.Semaphore.Operation

/-! The semaphore system calls as a system of processes.

A call runs without interruption up to `sleep`. A process leaves its sleep by a
wakeup, and then `sleep` returns zero unless a signal comes before the process
runs, or by a signal, and then it returns non-zero.
-/

namespace Svr4.Semaphore

open Words Ipc

/-- `struct semid_ds`, without the times. -/
structure SemidDs where
  perm : IpcPerm
  semBase : Nat
  semNsems : Nat
  deriving DecidableEq, Repr

/-- A process in `semop` has the number of its operations with it. -/
inductive Proc where
  | free
  | running
  | asleep (wait : Wait) (nsops : Nat)
  | woken (wait : Wait) (nsops : Nat)
  | interrupted (wait : Wait) (nsops : Nat)
  deriving DecidableEq

def Wait.index (wait : Wait) : Nat := wait.base + wait.op.semNum

/-- The channel on which the operation waits. -/
def Wait.chan (wait : Wait) : Chan := if wait.op.semOp < 0 then .ncnt wait.index else .zcnt wait.index

structure System where
  k : Tables
  sema : Nat → SemidDs
  semmap : Rmap.Map
  proc : Slot → Proc

def Proc.live (p : Proc) : Prop := p ≠ .free

def Proc.wake (woken : List Chan) : Proc → Proc
  | .asleep wait nsops => if wait.chan ∈ woken then .woken wait nsops else .asleep wait nsops
  | p => p

namespace System

def put (s : System) (slot : Slot) (p : Proc) : System :=
  { s with proc := Function.update s.proc slot p }

/-- The tables change and the sleepers on `woken` are woken. -/
def store (s : System) (k : Tables) (woken : List Chan) : System :=
  { s with k, proc := fun slot => (s.proc slot).wake woken }

def setDs (s : System) (sp : Nat) (value : SemidDs → SemidDs) : System :=
  { s with sema := Function.update s.sema sp (value (s.sema sp)) }

end System

section
variable (info : Seminfo)

/-- The header of a semaphore set. -/
def semconv (sema : Nat → SemidDs) (semid : Int) : Except Errno Nat :=
  if semid < 0 then .error .einval
  else
    let sp := (semid % info.semmni).toNat
    if (sema sp).perm.allocated ∧ semid / info.semmni = (sema sp).perm.seq then .ok sp
    else .error .einval

def semA : Nat := 0x80
def semR : Nat := 0x100

/-- The test of each operation before the first pass. -/
def semopCheck (sp : SemidDs) (cr : Cred) : List Sembuf → Option Errno
  | [] => none
  | op :: ops =>
      match ipcaccess sp.perm (if op.semOp ≠ 0 then semA else semR) cr with
      | some error => some error
      | none => if sp.semNsems ≤ op.semNum then some .efbig else semopCheck sp cr ops

/-- `semop` up to the label `check`. `sops` is what the first `copyin` gets. -/
def semopEntry (sema : Nat → SemidDs) (semid : Int) (nsops : Nat) (sops : Option (List Sembuf)) (cr : Cred) :
    Except Errno (Nat × List Sembuf) := do
  let sp ← semconv info sema semid
  if info.semopm < nsops then throw .e2big
  match sops with
  | none => throw .efault
  | some ops =>
      match semopCheck (sema sp) cr ops with
      | some error => throw error
      | none => return (sp, ops)

/-- The check and the `copyin` after a sleep. -/
def semopAgain (sema : Nat → SemidDs) (semid : Int) (sops : Option (List Sembuf)) :
    Except Errno (List Sembuf) :=
  match semconv info sema semid with
  | .error _ => .error .eidrm
  | .ok _ =>
      match sops with
      | none => .error .efault
      | some ops => .ok ops

/-- The return from `sleep` with a signal: count the sleeper down, or wake the
others when it was the last that is counted. -/
def uncount (w : Work) : Chan → Work
  | .ncnt i =>
      if (w.k.sem i).semncnt ≤ 1 then
        ⟨w.k.setSem i fun s => { s with semncnt := 0 }, w.woken ++ [.ncnt i], w.touched⟩
      else { w with k := w.k.setSem i fun s => { s with semncnt := s.semncnt - 1 } }
  | .zcnt i =>
      if (w.k.sem i).semzcnt ≤ 1 then
        ⟨w.k.setSem i fun s => { s with semzcnt := 0 }, w.woken ++ [.zcnt i], w.touched⟩
      else { w with k := w.k.setSem i fun s => { s with semzcnt := s.semzcnt - 1 } }

/-! ## `semctl` -/

/-- `p->semval = value`, with the wakeups of `SETVAL` and `SETALL`. -/
def setval (i : Nat) (value : Int) (pid : Int) (w : Work) : Work :=
  let w := { w with k := w.k.setSem i fun s => { s with semval := value } }
  let w := if value ≠ 0 then w.wakeN i else w.wakeZ i
  { w with k := w.k.setSem i fun s => { s with sempid := pid } }

/-- The loop of `SETALL`. -/
def setall (base : Nat) (semvals : Nat → Nat) (pid : Int) (n : Nat) (w : Work) : Work :=
  (List.range n).foldl (fun w i => setval (base + i) (semvals i) pid w) w

/-- The loop of `IPC_RMID`. -/
def clear (base n : Nat) (w : Work) : Work :=
  (List.range n).foldl (fun w i =>
    ((⟨w.k.setSem (base + i) fun s => { s with semval := 0, sempid := 0 }, w.woken, w.touched⟩ : Work).wakeN
      (base + i)).wakeZ (base + i)) w

/-- The commands. `copyin` and `copyout` can fail. -/
inductive Cmd where
  | rmid
  | set (value : Option (Int × Int × Nat))
  | ostat (copied : Bool)
  | stat (copied : Bool)
  | getncnt (semnum : Nat)
  | getpid (semnum : Nat)
  | getval (semnum : Nat)
  | getall (copied : Bool)
  | getzcnt (semnum : Nat)
  | setval (semnum : Nat) (arg : Int)
  | setall (semvals : Option (Nat → Nat))
  | other

/-- `IPC_RMID` once it is allowed. -/
def remove (s : System) (semid : Int) (sp : Nat) : Option System := do
  let ds := s.sema sp
  let k ← semunrm info semid 0 ds.semNsems s.k
  let w := clear ds.semBase ds.semNsems ⟨k, [], []⟩
  let (semmap, _) ← Rmap.rmfree s.semmap ds.semNsems (ds.semBase + 1)
  return { (s.store w.k w.woken).setDs sp fun ds => { ds with
      perm := { ds.perm with
        seq := if toInt (semid + info.semmni) < 0 then 0 else ds.perm.seq + 1, mode := 0 } } with semmap }

/-- The value a command reads, after its checks. -/
def readSem (s : System) (sp : Nat) (cr : Cred) (semnum : Nat) (field : Sem → Int) : Except Errno Int :=
  let ds := s.sema sp
  match ipcaccess ds.perm semR cr with
  | some error => .error error
  | none => if ds.semNsems ≤ semnum then .error .einval else .ok (field (s.k.sem (ds.semBase + semnum)))

def semctl (s : System) (cr : Cred) (pid : Int) (semid : Int) (cmd : Cmd) :
    Option (System × Except Errno Int) :=
  match semconv info s.sema semid with
  | .error error => some (s, .error error)
  | .ok sp =>
      let ds := s.sema sp
      let read (result : Except Errno Int) : Option (System × Except Errno Int) := some (s, result)
      match cmd with
      | .rmid =>
          if ¬ owns ds.perm cr then read (.error .eperm)
          else do return (← remove info s semid sp, .ok 0)
      | .set value =>
          if ¬ owns ds.perm cr then read (.error .eperm)
          else
            match value with
            | none => read (.error .efault)
            | some (uid, gid, mode) =>
                some (s.setDs sp fun ds => { ds with perm := ds.perm.set uid gid mode }, .ok 0)
      | .ostat copied =>
          match ipcaccess ds.perm semR cr with
          | some error => read (.error error)
          | none =>
              if 65535 < ds.perm.uid ∨ 65535 < ds.perm.gid ∨ 65535 < ds.perm.cuid ∨ 65535 < ds.perm.cgid ∨
                  65535 < ds.perm.seq then read (.error .eoverflow)
              else read (if copied then .ok 0 else .error .efault)
      | .stat copied | .getall copied =>
          match ipcaccess ds.perm semR cr with
          | some error => read (.error error)
          | none => read (if copied then .ok 0 else .error .efault)
      | .getncnt semnum => read (readSem s sp cr semnum Sem.semncnt)
      | .getpid semnum => read (readSem s sp cr semnum Sem.sempid)
      | .getval semnum => read (readSem s sp cr semnum Sem.semval)
      | .getzcnt semnum => read (readSem s sp cr semnum Sem.semzcnt)
      | .setval semnum arg =>
          match ipcaccess ds.perm semA cr with
          | some error => read (.error error)
          | none =>
              if ds.semNsems ≤ semnum then read (.error .einval)
              else if arg < 0 ∨ info.semvmx < arg then read (.error .erange)
              else do
                let w := setval (ds.semBase + semnum) arg pid ⟨s.k, [], []⟩
                let k ← semunrm info semid semnum semnum w.k
                return (s.store k w.woken, .ok 0)
      | .setall semvals =>
          match ipcaccess ds.perm semA cr with
          | some error => read (.error error)
          | none =>
              match semvals with
              | none => read (.error .efault)
              | some semvals =>
                  if ∃ i ∈ List.range ds.semNsems, info.semvmx < semvals i then read (.error .erange)
                  else do
                    let k ← semunrm info semid 0 ds.semNsems s.k
                    let w := setall ds.semBase semvals pid ds.semNsems ⟨k, [], []⟩
                    return (s.store w.k w.woken, .ok 0)
      | .other => read (.error .einval)

/-! ## `semget` and `semexit` -/

def semget (s : System) (cr : Cred) (key : Int) (nsems : Int) (flag : Nat) :
    Option (System × Except Errno Int) :=
  let semid (s : System) (sp : Nat) : Int := (s.sema sp).perm.seq * info.semmni + sp
  match ipcget key flag (fun i => (s.sema i).perm) info.semmni with
  | .error error => some (s, .error error)
  | .ok (.existing sp) =>
      if nsems ≠ 0 ∧ ((s.sema sp).semNsems < nsems ∨ nsems < 0) then some (s, .error .einval)
      else some (s, .ok (semid s sp))
  | .ok (.new sp) =>
      let s := s.setDs sp fun ds => { ds with perm := ds.perm.init key flag cr }
      let fail (error : Errno) : System × Except Errno Int :=
        (s.setDs sp fun ds => { ds with perm := { ds.perm with mode := 0 } }, .error error)
      if nsems ≤ 0 ∨ info.semmsl < nsems then some (fail .einval)
      else do
        let (i, semmap) ← Rmap.rmalloc s.semmap nsems.toNat
        if i = 0 then return fail .enospc
        else
          let s := { s.setDs sp fun ds => { ds with semBase := i - 1, semNsems := nsems.toNat } with semmap }
          return (s, .ok (semid s sp))

/-- One entry of the loop of `semexit`. -/
def semexitEntry (sema : Nat → SemidDs) (entry : Undo) (w : Work) : Work :=
  match semconv info sema entry.unId with
  | .error _ => w
  | .ok sp =>
      let i := (sema sp).semBase + entry.unNum
      let v := (w.k.sem i).semval + entry.unAoe
      if v < 0 ∨ info.semvmx < v then w
      else
        let w := ({ w with k := w.k.setSem i fun s => { s with semval := toUshort v } } : Work).wakeZ i
        if 0 < entry.unAoe then w.wakeN i else w

/-- Drop the entries of the structure and take it off the undo chain. -/
def discard (up : Nat) (k : Tables) : Option Tables :=
  if (k.semu up).unEnt = [] then some k
  else (k.setUndo up fun un => { un with unEnt := [] }).unchain info up

/-- The structure goes to the free chain and, at the end, back into `sem_undo[]`. -/
def semexit (sema : Nat → SemidDs) (slot : Slot) (k : Tables) : Option Work :=
  match k.semUndo slot with
  | none => some ⟨k, [], []⟩
  | some up => do
      let w := (k.semu up).unEnt.reverse.foldl (fun w entry => semexitEntry info sema entry w) ⟨k, [], []⟩
      let k ← discard info up w.k
      let k := { k.setUndo up fun un => { un with unNp := k.semfup } with semfup := some up }
      return { w with k := { k with semUndo := Function.update k.semUndo slot (some up) } }

/-- The undo structures in one free chain. -/
def seminit : Tables where
  sem _ := ⟨0, 0, 0, 0⟩
  semu i := ⟨if i + 1 < info.semmnu then some (i + 1) else none, []⟩
  semunp := none
  semfup := some 0
  semUndo _ := none

/-! ## Steps -/

inductive Event where
  | start (slot : Slot)
  | exit (slot : Slot)
  | semget (slot : Slot) (nsems : Int) (result : Except Errno Int)
  | semctl (slot : Slot) (semid : Int) (nsems : Nat) (cmd : Cmd) (result : Except Errno Int)
  | refused (slot : Slot) (error : Errno)
  | semop (slot : Slot) (semid : Int) (again : Bool) (ops : List Sembuf) (touched : List Nat)
      (outcome : Outcome)
  | signal (slot : Slot)
  | eintr (slot : Slot) (wait : Wait) (touched : List Nat)

/-- The process after a pass. -/
def Outcome.proc (nsops : Nat) : Outcome → Proc
  | .sleep _ wait => .asleep wait nsops
  | _ => .running

/-- The slots that have a process. -/
def System.live (s : System) (slot : Slot) : Prop := (s.proc slot).live

/-- The header of a set that exists. -/
def System.header (s : System) (semid : Int) : SemidDs := s.sema (semid % info.semmni).toNat

inductive Step : System → Event → System → Prop where
  /-- A new process gets a slot of the process table. -/
  | start {s : System} {slot : Slot} : slot < info.nproc → s.proc slot = .free →
      Step s (.start slot) (s.put slot .running)
  | exit {s : System} {slot : Slot} {w : Work} : s.proc slot = .running →
      semexit info s.sema slot s.k = some w →
      Step s (.exit slot) ((s.store w.k w.woken).put slot .free)
  | semget {s t : System} {slot : Slot} {nsems : Int} {result : Except Errno Int} (cr : Cred) (key : Int)
      (flag : Nat) : s.proc slot = .running → semget info s cr key nsems flag = some (t, result) →
      Step s (.semget slot nsems result) t
  | semctl {s t : System} {slot : Slot} {semid : Int} {cmd : Cmd} {result : Except Errno Int} (cr : Cred)
      (pid : Int) : s.proc slot = .running → semctl info s cr pid semid cmd = some (t, result) →
      Step s (.semctl slot semid (s.header info semid).semNsems cmd result) t
  /-- A call that fails before its first pass. -/
  | refuse {s : System} {slot : Slot} {error : Errno} (semid : Int) (nsops : Nat)
      (sops : Option (List Sembuf)) (cr : Cred) : s.proc slot = .running →
      semopEntry info s.sema semid nsops sops cr = .error error → Step s (.refused slot error) s
  | semop {s : System} {slot : Slot} {semid : Int} {ops : List Sembuf} {w : Work} {outcome : Outcome}
      {sp : Nat} (cr : Cred) (pid : Int) : s.proc slot = .running →
      semopEntry info s.sema semid ops.length (some ops) cr = .ok (sp, ops) →
      semopPass info slot pid semid (s.sema sp).semBase ops s.k = some (w, outcome) →
      Step s (.semop slot semid false ops w.touched outcome)
        ((s.store w.k w.woken).put slot (outcome.proc ops.length))
  | signal {s : System} {slot : Slot} {wait : Wait} {nsops : Nat} :
      s.proc slot = .asleep wait nsops ∨ s.proc slot = .woken wait nsops →
      Step s (.signal slot) (s.put slot (.interrupted wait nsops))
  /-- The set is gone, or its operations cannot be fetched again. -/
  | gone {s : System} {slot : Slot} {wait : Wait} {nsops : Nat} {error : Errno} (sops : Option (List Sembuf)) :
      s.proc slot = .woken wait nsops → semopAgain info s.sema wait.semid sops = .error error →
      Step s (.refused slot error) (s.put slot .running)
  /-- Another pass over the operations as they are now. -/
  | again {s : System} {slot : Slot} {wait : Wait} {ops : List Sembuf} {w : Work} {outcome : Outcome}
      (pid : Int) : s.proc slot = .woken wait ops.length →
      semopAgain info s.sema wait.semid (some ops) = .ok ops →
      semopPass info slot pid wait.semid (s.header info wait.semid).semBase ops s.k = some (w, outcome) →
      Step s (.semop slot wait.semid true ops w.touched outcome)
        ((s.store w.k w.woken).put slot (outcome.proc ops.length))
  | eintr {s : System} {slot : Slot} {wait : Wait} {nsops : Nat} : s.proc slot = .interrupted wait nsops →
      Step s (.eintr slot wait [wait.op.semNum])
        ((s.store (uncount ⟨s.k, [], []⟩ wait.chan).k (uncount ⟨s.k, [], []⟩ wait.chan).woken).put slot .running)

def System.Boot (s : System) : Prop :=
  s.k = seminit info ∧ (∀ sp, ¬ (s.sema sp).perm.allocated) ∧
    (∃ woken, Rmap.rmfree (Rmap.mapinit info.semmap) info.semmns 1 = some (s.semmap, woken)) ∧
    ∀ slot, s.proc slot = .free

end

end Svr4.Semaphore
