import Svr4.Kernel.Dispatcher

/-! The sleep queues: `sleep`, `unsleep`, `wakeprocs` and `setrun`.

The lists of sleeping processes and the dispatcher queues run through the same field
`p_link`. The wakeup and setrun functions of every scheduling class come down to a
`setbackdq`. All of this runs with interrupts blocked: a step is one call, except that
`sleep` can be left in `issig`, when a signal is pending or the process is stopped there.
-/

namespace Svr4.Sleep

open Dispatcher
open Function (update)

def snwake : Nat := 0x00000008
def snostop : Nat := 0x00008000
def sasleep : Nat := 0x00020000
def sxstart : Nat := 0x20000000
def spstart : Nat := 0x40000000

def pmask : Nat := 0o177
def pnostop : Nat := 0o1000
def pzero : Nat := 25

/-- The `p_whystop` of a process stopped on a signal. -/
def prSignalled : Nat := 2

def nsleepq : Nat := 64

/-- The index in `sleepq` of the list for a channel. -/
def sqhash (chan : Nat) : Nat := (chan >>> 3) &&& (nsleepq - 1)

/-- `struct sleepq`. -/
structure Sleepq where
  sqFirst : Option Nat
  sqLast : Option Nat
  deriving DecidableEq, Repr

/-- A channel is an address, null when the process does not sleep. The channel that the
parent of a process waits on is its slot's address. -/
structure Kernel where
  disp : Disp
  pWchan : Nat → Nat
  pWhystop : Nat → Nat
  pParent : Nat → Nat
  sleepq : Nat → Sleepq
  runout : Int
  runin : Int

namespace Kernel

abbrev proc (k : Kernel) : Nat → Proc := k.disp.proc

abbrev link (k : Kernel) : Nat → Option Nat := k.disp.link

def setProc (k : Kernel) (pp : Nat) (value : Proc → Proc) : Kernel := { k with disp := k.disp.setProc pp value }

def setWchan (k : Kernel) (pp chan : Nat) : Kernel := { k with pWchan := update k.pWchan pp chan }

def setSleepq (k : Kernel) (sqp : Nat) (value : Sleepq → Sleepq) : Kernel :=
  { k with sleepq := update k.sleepq sqp (value (k.sleepq sqp)) }

/-- What is behind `rp` on the list, or at its front. -/
def plink (k : Kernel) (sqp : Nat) : Option Nat → Option Nat
  | none => (k.sleepq sqp).sqFirst
  | some rp => k.link rp

/-- Store there. -/
def setPlink (k : Kernel) (sqp : Nat) (target : Option Nat) : Option Nat → Kernel
  | none => k.setSleepq sqp fun sq => { sq with sqFirst := target }
  | some rp => k.setProc rp fun p => { p with pLink := target }

def setFlag (k : Kernel) (pp : Nat) (flag : Nat → Nat) : Kernel := k.setProc pp fun p => { p with pFlag := flag p.pFlag }

end Kernel

/-- The flags without some. -/
def clear (mask flags : Nat) : Nat := flags ^^^ (flags &&& mask)

/-! ## Going to sleep -/

/-- Put the process on the sleep queue; `none` for a store through a null pointer. -/
def enqueue (pp chan : Nat) (k : Kernel) : Option Kernel := do
  let k := k.setProc pp fun p => { p with pStat := .ssleep }
  let k := k.setWchan pp chan
  let sqp := sqhash chan
  let k ← match (k.sleepq sqp).sqFirst with
    | none => some (k.setSleepq sqp fun _ => ⟨some pp, some pp⟩)
    | some _ => do
        let last ← (k.sleepq sqp).sqLast
        let k := k.setProc last fun p => { p with pLink := some pp }
        some (k.setSleepq sqp fun sq => { sq with sqLast := some pp })
  return k.setProc pp fun p => { p with pLink := none }

/-- `sleep` up to `issig`, or up to `swtch` where signals are not looked at. `pri` is the
priority that the class sets before the processor is given up. -/
def sleep (pp chan disp pri : Nat) (k : Kernel) : Option Kernel := do
  let k ← enqueue pp chan k
  if pzero < disp &&& pmask then
    let k := k.setFlag pp (clear (snwake ||| snostop))
    let k := if disp &&& pnostop ≠ 0 then k.setFlag pp (· ||| snostop) else k
    return k.setFlag pp (· ||| sasleep)
  else
    let k := k.setFlag pp (· ||| snwake)
    return k.setProc pp fun p => { p with pPri := pri }

section
variable (vProc : Nat)

def unsleepLoop (pp : Nat) (k : Kernel) : Nat → Option Nat → Option Nat → Option (Option Nat)
  | 0, _, _ => none
  | _ + 1, _, none => none
  | fuel + 1, prp, some rp => if rp = pp then some prp else unsleepLoop pp k fuel (some rp) (k.link rp)

/-- `none` when the search runs off the list or never ends. -/
def unsleep (pp : Nat) (k : Kernel) : Option Kernel :=
  if k.pWchan pp ≠ 0 then do
    let sqp := sqhash (k.pWchan pp)
    let prp ← unsleepLoop pp k (vProc + 1) none (k.sleepq sqp).sqFirst
    let next := k.link pp
    let k := k.setPlink sqp next prp
    let k := if next = none then k.setSleepq sqp fun sq => { sq with sqLast := prp } else k
    return k.setWchan pp 0
  else some k

/-- `sleep` is left because of a signal. -/
def sleepAbort (pp : Nat) (k : Kernel) : Option Kernel := do
  let back (k : Kernel) := k.setProc pp fun p => { p with pStat := .sonproc }
  let taken := if (k.proc pp).pStat = .ssleep then (unsleep vProc pp k).map back else some k
  let k ← taken
  return k.setFlag pp (clear (snostop ||| sasleep))

/-! ## Waking up -/

/-- The process is runnable and goes to the back of its dispatcher queue. -/
def run (pp : Nat) (k : Kernel) : Kernel :=
  { k with disp := setbackdq pp (k.disp.setProc pp fun p => { p with pStat := .srun }) }

/-- The loop of `wakeprocs`: the last process that stays, and whether the swapper is to run. -/
def wakeLoop (chan sqp : Nat) : Nat → Option Nat → Bool → Kernel → Option (Option Nat × Bool × Kernel)
  | 0, _, _, _ => none
  | fuel + 1, rp, runsched, k =>
    match k.plink sqp rp with
    | none => some (rp, runsched, k)
    | some pp =>
      if k.pWchan pp = chan then
        let k := k.setWchan pp 0
        let k := k.setPlink sqp (k.link pp) rp
        if (k.proc pp).pStat = .ssleep then
          let k := run pp k
          let runsched := if (k.proc pp).pFlag &&& sload = 0 ∧ k.runout > 0 then true else runsched
          wakeLoop chan sqp fuel rp runsched k
        else wakeLoop chan sqp fuel rp runsched k
      else wakeLoop chan sqp fuel (some pp) runsched k

/-- `wakeprocs`, given the `setrun` for the swapper, which is process 0. -/
def wakeprocsWith (setrun : Nat → Kernel → Option Kernel) (chan : Nat) (k : Kernel) : Option Kernel := do
  let sqp := sqhash chan
  let (rp, runsched, k) ← wakeLoop chan sqp (vProc + 1) none false k
  let k := k.setSleepq sqp fun sq => { sq with sqLast := rp }
  if runsched then setrun 0 { k with runout := 0 } else return k

/-- Calls inside calls are for the swapper only, and `runout` is cleared before: `fuel`
counts them. -/
def setrunIn : Nat → Nat → Kernel → Option Kernel
  | 0, _, _ => none
  | fuel + 1, pp, k => do
    let stat := (k.proc pp).pStat
    if stat = .srun then return k
    let taken := if stat = .ssleep ∨ stat = .sstop then unsleep vProc pp k else some k
    let k ← taken
    let flag := (k.proc pp).pFlag
    if (k.proc pp).pStat = .sstop ∧ flag &&& (sxstart ||| spstart) ≠ sxstart ||| spstart then
      if flag &&& spstart ≠ 0 ∧ k.pWhystop pp = prSignalled then
        wakeprocsWith vProc (setrunIn fuel) (k.pParent pp) k
      else return k
    else
      let k := run pp { k with pWhystop := update k.pWhystop pp 0 }
      if (k.proc pp).pFlag &&& sload = 0 ∧ k.runout > 0 then setrunIn fuel 0 { k with runout := 0 } else return k

def setrun (pp : Nat) (k : Kernel) : Option Kernel := setrunIn vProc 2 pp k

def wakeprocs (chan : Nat) (k : Kernel) : Option Kernel := wakeprocsWith vProc (setrun vProc) chan k

/-- `sleep` after `issig` found nothing: the processor is given up, or the process was
stopped in `issig` and is off its queue. `chan` is the address of `runin`. -/
def sleepOn (chan pp pri : Nat) (k : Kernel) : Option Kernel :=
  if k.pWchan pp = 0 then some (k.setFlag pp (clear (snwake ||| snostop ||| sasleep)))
  else do
    let woken := if k.runin ≠ 0 then wakeprocs vProc chan { k with runin := 0 } else some k
    let k ← woken
    let k := k.setFlag pp (clear sasleep)
    return k.setProc pp fun p => { p with pPri := pri }

/-- `stop`, by another process or in `issig`: off the dispatcher queue, but not off the
sleep queue. -/
def stop (pp why : Nat) (flag : Nat) (k : Kernel) : Option Kernel := do
  let (d, _) ← dispdeq vProc pp k.disp
  let k := { k with disp := d, pWhystop := update k.pWhystop pp why }
  return k.setProc pp fun p => { p with pStat := .sstop, pFlag := flag }

end

/-! ## The system -/

inductive Event where
  | sleep (pp chan : Nat)
  | sleepAbort (pp : Nat)
  | sleepOn (pp : Nat)
  | unsleep (pp : Nat)
  | wakeprocs (chan : Nat)
  | setrun (pp : Nat)
  | stop (pp : Nat)
  | dispatch (event : Dispatcher.Event)
  | mark (pp : Nat)
  | swapper
  deriving DecidableEq, Repr

/-- The dispatcher by itself: a process that is put on a queue is runnable, and a process
that sleeps changes in `mark` only. -/
def Allowed (nglobpris : Nat) (k : Kernel) (d : Disp) : Dispatcher.Event → Prop
  | .setbackdq pp => (k.proc pp).pStat = .srun ∧ k.pWchan pp = 0
  | .setfrontdq pp => (k.proc pp).pStat = .srun ∧ k.pWchan pp = 0
  | .other pp => k.pWchan pp = 0 ∧ (d.proc pp).pPri < nglobpris
  | _ => True

/-- The process that calls `sleep` is running, and the channel is not null. A process that
can be interrupted does not wait for `runin`: its wakeup of the swapper is not for itself. -/
inductive Step (vProc nglobpris : Nat) : Kernel → Event → Kernel → Prop where
  | sleep {k k' : Kernel} {pp chan : Nat} (disp pri : Nat) : pp < vProc → (k.proc pp).pStat = .sonproc → chan ≠ 0 →
      pri < nglobpris → sleep pp chan disp pri k = some k' → Step vProc nglobpris k (.sleep pp chan) k'
  | sleepAbort {k k' : Kernel} {pp : Nat} : (k.proc pp).pStat = .ssleep ∨ (k.proc pp).pStat = .sonproc →
      sleepAbort vProc pp k = some k' → Step vProc nglobpris k (.sleepAbort pp) k'
  | sleepOn {k k' : Kernel} {pp : Nat} (chan pri : Nat) : (k.proc pp).pStat = .ssleep ∨ (k.proc pp).pStat = .sonproc →
      pri < nglobpris → (k.pWchan pp ≠ 0 → ∀ t, wakeprocs vProc chan { k with runin := 0 } = some t → t.pWchan pp ≠ 0) →
      sleepOn vProc chan pp pri k = some k' → Step vProc nglobpris k (.sleepOn pp) k'
  | unsleep {k k' : Kernel} {pp : Nat} : unsleep vProc pp k = some k' → Step vProc nglobpris k (.unsleep pp) k'
  | wakeprocs {k k' : Kernel} {chan : Nat} : wakeprocs vProc chan k = some k' →
      Step vProc nglobpris k (.wakeprocs chan) k'
  | setrun {k k' : Kernel} {pp : Nat} : pp < vProc → setrun vProc pp k = some k' →
      Step vProc nglobpris k (.setrun pp) k'
  | stop {k k' : Kernel} {pp : Nat} (why flag : Nat) : stop vProc pp why flag k = some k' →
      Step vProc nglobpris k (.stop pp) k'
  | dispatch {k : Kernel} {event : Dispatcher.Event} {d : Disp} : Dispatcher.Step vProc nglobpris k.disp event d →
      Allowed nglobpris k d event → Step vProc nglobpris k (.dispatch event) { k with disp := d }
  /-- The flags, the priority and the parent of a process that is not on a dispatcher queue. -/
  | mark {k : Kernel} {pp : Nat} (flag pri parent : Nat) : ¬ k.disp.Queued pp → pri < nglobpris →
      Step vProc nglobpris k (.mark pp)
        { k.setProc pp fun p => { p with pFlag := flag, pPri := pri } with
          pParent := update k.pParent pp parent }
  /-- The swapper sets the variables it sleeps with. -/
  | swapper {k : Kernel} (runout runin : Int) : Step vProc nglobpris k .swapper { k with runout := runout, runin := runin }

/-- At boot nothing is on a queue. -/
def Boot (nglobpris : Nat) (k : Kernel) : Prop :=
  Dispatcher.Boot k.disp ∧ (∀ sqp, k.sleepq sqp = ⟨none, none⟩) ∧ (∀ pp, k.pWchan pp = 0) ∧
    ∀ pp, (k.proc pp).pPri < nglobpris

end Svr4.Sleep
