import Svr4.Foundation.Chain
import Svr4.Foundation.Execution
import Svr4.Kernel.Bitmap

/-! The dispatcher queues: `setbackdq`, `setfrontdq`, `dispdeq` and `pswtch`.

Processes are named by their slot in the process table. Every routine runs with
interrupts blocked, so a step of the system is one call. A process that is not on
a queue belongs to the rest of the kernel, which may do anything to it; the flags
of one that is on a queue change together with the counts.
-/

namespace Svr4.Dispatcher

open Bitmap

/-- The states of a process. -/
inductive Stat where
  | ssleep | srun | szomb | sstop | sidl | sonproc
  deriving DecidableEq, Repr

/-- What the dispatcher reads of `struct proc`. -/
structure Proc where
  pStat : Stat
  pFlag : Nat
  pPri : Nat
  pLink : Option Nat
  deriving DecidableEq, Repr

def ssys : Nat := 0x00000001
def sload : Nat := 0x00000010
def sprocio : Nat := 0x00000400

/-- Loaded and not stopped for `/proc`, or a system process. -/
def Proc.eligible (p : Proc) : Prop := p.pFlag &&& (sload ||| sprocio) = sload ∨ p.pFlag &&& ssys ≠ 0

instance (p : Proc) : Decidable p.eligible := inferInstanceAs (Decidable (_ ∨ _))

/-- `struct dispq`. -/
structure Dispq where
  dqFirst : Option Nat
  dqLast : Option Nat
  dqSruncnt : Int
  deriving DecidableEq, Repr

structure Disp where
  proc : Nat → Proc
  dispq : Nat → Dispq
  dqactmap : Map
  srunprocs : Int
  maxrunpri : Int
  curproc : Nat
  curpri : Int

namespace Disp

def setProc (d : Disp) (pp : Nat) (value : Proc → Proc) : Disp :=
  { d with proc := Function.update d.proc pp (value (d.proc pp)) }

def setDispq (d : Disp) (pri : Nat) (value : Dispq → Dispq) : Disp :=
  { d with dispq := Function.update d.dispq pri (value (d.dispq pri)) }

/-- The links of the queues. -/
abbrev link (d : Disp) (pp : Nat) : Option Nat := (d.proc pp).pLink

end Disp

/-! ## The counts -/

def dqSruninc (pri : Nat) (d : Disp) : Disp :=
  let d : Disp := { d with srunprocs := d.srunprocs + 1 }
  let d := d.setDispq pri fun dq => { dq with dqSruncnt := dq.dqSruncnt + 1 }
  if (d.dispq pri).dqSruncnt = 1 then
    let d : Disp := { d with dqactmap := btSet d.dqactmap pri }
    if d.maxrunpri < pri then { d with maxrunpri := pri } else d
  else d

def dqSrundec (pri : Nat) (d : Disp) : Disp :=
  let d : Disp := { d with srunprocs := d.srunprocs - 1 }
  let d := d.setDispq pri fun dq => { dq with dqSruncnt := dq.dqSruncnt - 1 }
  if (d.dispq pri).dqSruncnt = 0 then
    let d : Disp := { d with dqactmap := btClear d.dqactmap pri }
    if d.srunprocs = 0 then { d with maxrunpri := -1 }
    else if (pri : Int) = d.maxrunpri then { d with maxrunpri := btGethighbit d.dqactmap (pri >>> btUlshift) }
    else d
  else d

/-! ## The queues -/

def setbackdq (pp : Nat) (d : Disp) : Disp :=
  let ppri := (d.proc pp).pPri
  let d := d.setProc pp fun p => { p with pLink := none }
  let d := match (d.dispq ppri).dqLast with
    | none => d.setDispq ppri fun dq => { dq with dqFirst := some pp, dqLast := some pp }
    | some last =>
        (d.setProc last fun p => { p with pLink := some pp }).setDispq ppri fun dq => { dq with dqLast := some pp }
  if (d.proc pp).eligible then dqSruninc ppri d else d

def setfrontdq (pp : Nat) (d : Disp) : Disp :=
  let ppri := (d.proc pp).pPri
  let d := match (d.dispq ppri).dqFirst with
    | none =>
        (d.setProc pp fun p => { p with pLink := none }).setDispq ppri fun dq =>
          { dq with dqFirst := some pp, dqLast := some pp }
    | some first =>
        (d.setProc pp fun p => { p with pLink := some first }).setDispq ppri fun dq => { dq with dqFirst := some pp }
  if (d.proc pp).eligible then dqSruninc ppri d else d

/-- Take the process `rp` behind `prp` off its queue. -/
def Disp.unlink (d : Disp) (pri : Nat) (prp : Option Nat) (rp : Nat) : Disp :=
  let next := d.link rp
  match prp with
  | none => d.setDispq pri fun dq => { dq with dqFirst := next, dqLast := if next = none then none else dq.dqLast }
  | some prp =>
      (d.setProc prp fun p => { p with pLink := next }).setDispq pri fun dq =>
        { dq with dqLast := if next = none then some prp else dq.dqLast }

/-- The first process from `rp` on that `test` accepts, with the one before it;
`some none` at the end of the list. At most `fuel` rounds. -/
def walk (d : Disp) (test : Nat → Bool) : Nat → Option Nat → Option Nat → Option (Option (Nat × Option Nat))
  | 0, _, _ => none
  | _ + 1, _, none => some none
  | fuel + 1, prp, some rp => if test rp then some (some (rp, prp)) else walk d test fuel (some rp) (d.link rp)

/-- The process that runs is runnable from now on. -/
def Disp.yielded (d : Disp) : Disp :=
  if (d.proc d.curproc).pStat = .sonproc then d.setProc d.curproc fun p => { p with pStat := .srun } else d

section
variable (vProc : Nat)

/-- Whether the process was on the queue of its priority, and the state without it. -/
def dispdeq (pp : Nat) (d : Disp) : Option (Disp × Bool) := do
  let ppri := (d.proc pp).pPri
  match ← walk d (· = pp) (vProc + 1) none (d.dispq ppri).dqFirst with
  | none => return (d, false)
  | some (rp, prp) =>
      let d := d.unlink ppri prp rp
      return (if (d.proc rp).eligible then dqSrundec ppri d else d, true)

/-- The choice of `pswtch`. While `maxrunpri` is -1 it idles: the state is as before but
for `curproc` and `curpri`, process 0 being the scheduler. Running off the end of the
list is `none`. -/
def pswtch (d : Disp) : Option Disp :=
  let d := d.yielded
  if d.maxrunpri = -1 then some { d with curpri := 0, curproc := 0 }
  else do
    let pri := d.maxrunpri.toNat
    let (pp, rp) ← ← walk d (fun pp => (d.proc pp).eligible) (vProc + 1) none (d.dispq pri).dqFirst
    let d := d.unlink pri rp pp
    let d : Disp := { d with srunprocs := d.srunprocs - 1 }
    let d : Disp := d.setDispq pri fun dq => { dq with dqSruncnt := dq.dqSruncnt - 1 }
    let d : Disp :=
      if (d.dispq pri).dqSruncnt = 0 then
        let maxrunword := pri >>> btUlshift
        let d : Disp := { d with dqactmap := btClear d.dqactmap pri }
        if d.srunprocs = 0 then { d with maxrunpri := -1 }
        else { d with maxrunpri := btGethighbit d.dqactmap maxrunword }
      else d
    let d := d.setProc pp fun p => { p with pStat := .sonproc }
    return { d with curpri := (d.proc pp).pPri, curproc := pp }

end

/-- A change of the flags of a process on a queue, with the call that goes with it. -/
def setFlag (pp flag : Nat) (d : Disp) : Disp :=
  let old := d.proc pp
  let new : Proc := { old with pFlag := flag }
  let d := d.setProc pp fun _ => new
  if ¬ old.eligible ∧ new.eligible then dqSruninc old.pPri d
  else if old.eligible ∧ ¬ new.eligible then dqSrundec old.pPri d
  else d

/-! ## The system -/

/-- A process is on a queue. -/
def Disp.Queued (d : Disp) (pp : Nat) : Prop := ∃ pri list, Chain d.link (d.dispq pri).dqFirst list ∧ pp ∈ list

inductive Event where
  | setbackdq (pp : Nat)
  | setfrontdq (pp : Nat)
  | dispdeq (pp : Nat)
  | pswtch
  | setFlag (pp : Nat)
  | other (pp : Nat)
  deriving DecidableEq, Repr

/-- `setbackdq` and `setfrontdq` are for processes of the table that are not on a queue
and whose priority is one of the `nglobpris`. -/
inductive Step (vProc nglobpris : Nat) : Disp → Event → Disp → Prop where
  | setbackdq {d : Disp} {pp : Nat} : pp < vProc → (d.proc pp).pPri < nglobpris → ¬ d.Queued pp →
      Step vProc nglobpris d (.setbackdq pp) (setbackdq pp d)
  | setfrontdq {d : Disp} {pp : Nat} : pp < vProc → (d.proc pp).pPri < nglobpris → ¬ d.Queued pp →
      Step vProc nglobpris d (.setfrontdq pp) (setfrontdq pp d)
  | dispdeq {d d' : Disp} {pp : Nat} {found : Bool} : dispdeq vProc pp d = some (d', found) →
      Step vProc nglobpris d (.dispdeq pp) d'
  | pswtch {d d' : Disp} : pswtch vProc d = some d' → Step vProc nglobpris d .pswtch d'
  | setFlag {d : Disp} {pp : Nat} (flag : Nat) : d.Queued pp → Step vProc nglobpris d (.setFlag pp) (setFlag pp flag d)
  /-- The rest of the kernel changes a process that is on no queue. -/
  | other {d : Disp} {pp : Nat} (p : Proc) : ¬ d.Queued pp →
      Step vProc nglobpris d (.other pp) (d.setProc pp fun _ => p)

/-- After `dispinit`. -/
def Boot (d : Disp) : Prop :=
  (∀ pri, d.dispq pri = ⟨none, none, 0⟩) ∧ (∀ wx, d.dqactmap wx = 0) ∧ d.srunprocs = 0 ∧ d.maxrunpri = -1

end Svr4.Dispatcher
