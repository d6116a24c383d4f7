import Svr4.Foundation.Execution
import Svr4.Kernel.RecordLock.Adjust

/-! `reclock`, `deadflck` and `cleanlocks` as a system of processes.

A call runs without interruption up to `SLEEP`. A process asleep in `reclock`
leaves its sleep queue by a wakeup of its channel or by a signal, and runs on
later; in between its entry on `sleeplcks` is still there.
-/

namespace Svr4.RecordLock

open Words

/-- `MAXEND`. -/
def maxend : Int := 2147483647

/-- `cmd & SETFLCK` and `cmd & SLPFLCK`. -/
structure Cmd where
  setflck : Bool
  slpflck : Bool
  deriving DecidableEq, Repr

/-- `flag & FREAD` and `flag & FWRITE`. -/
structure Flag where
  fread : Bool
  fwrite : Bool
  deriving DecidableEq, Repr

/-- `vattr` is what `VOP_GETATTR` returns: an error, or the file size. -/
def convoff (vattr : Except Errno Int) (lckdat : Flock) (whence offset : Int) : Except Errno Flock := do
  let size ← vattr
  let start ←
    if lckdat.lWhence = 1 then pure (toInt (lckdat.lStart + offset))
    else if lckdat.lWhence = 2 then pure (toInt (lckdat.lStart + size))
    else if lckdat.lWhence ≠ 0 then throw .einval
    else pure lckdat.lStart
  if start < 0 then throw .einval
  let start ←
    if whence = 1 then pure (toInt (start - offset))
    else if whence = 2 then pure (toInt (start - size))
    else if whence ≠ 0 then throw .einval
    else pure start
  return { lckdat with lStart := start, lWhence := whence }

/-- The checks and conversions `reclock` makes before its loop. -/
def reclockEntry (vattr : Except Errno Int) (lckdat : Flock) (cmd : Cmd) (flag : Flag) (offset : Int) :
    Except Errno Flock := do
  if cmd.setflck ∧ ((lckdat.lType = .rdlck ∧ ¬ flag.fread) ∨ (lckdat.lType = .wrlck ∧ ¬ flag.fwrite)) then
    throw .ebadf
  let lckdat ← convoff vattr lckdat 0 offset
  if lckdat.lEnd < 0 then throw .einval
  let last := if lckdat.lEnd = 0 then maxend else toInt (lckdat.lEnd + (lckdat.lStart - 1))
  if last < lckdat.lStart then throw .einval
  return { lckdat with lEnd := last }

/-- The conversions `reclock` makes behind its loop. -/
def reclockExit (vattr : Except Errno Int) (lckdat : Flock) (whence offset : Int) : Flock :=
  let lckdat := { lckdat with
    lEnd := if lckdat.lEnd = maxend then 0 else toInt (lckdat.lEnd - (lckdat.lStart - 1)) }
  match convoff vattr lckdat whence offset with
  | .ok lckdat => lckdat
  | .error _ => lckdat

/-- The do-while loop of `deadflck`, for at most `fuel` rounds. -/
def chase (sleeplcks : List Filock) (lckdat : Flock) : Nat → Int → Int → Option Bool
  | 0, _, _ => none
  | fuel + 1, blckpid, blcksysid =>
      if blckpid = lckdat.lPid ∧ blcksysid = lckdat.lSysid then some true
      else
        match sleeplcks.find? fun sf => blckpid = sf.set.lPid ∧ blcksysid = sf.set.lSysid with
        | some sf => chase sleeplcks lckdat fuel (toShort sf.stat.pid) (toShort sf.stat.word)
        | none => some false

/-- `blckpid` and `blcksysid` are shorts. -/
def deadflck (fuel : Nat) (sleeplcks : List Filock) (flp : Filock) (lckdat : Flock) : Option Bool :=
  chase sleeplcks lckdat fuel (toShort flp.set.lPid) (toShort flp.set.lSysid)

abbrev Vnode := Nat

/-- A call whose request has been converted; `whence` is how it was given. -/
structure Call where
  vp : Vnode
  lckdat : Flock
  cmd : Cmd
  whence : Int
  offset : Int
  deriving DecidableEq, Repr

/-- A process is named by the owner it locks for, so each owner has at most one
request in `reclock`. `ready` has left the sleep queue and has not run yet. -/
inductive Proc where
  | idle
  | asleep (call : Call) (sf chan : Addr)
  | ready (call : Call) (sf : Addr)
  deriving DecidableEq, Repr

structure System where
  filocks : Vnode → List Filock
  sleeplcks : List Filock
  proc : Owner → Proc

/-- Addresses in use outside the list of `vp`. -/
def System.elsewhere (s : System) (vp : Vnode) (addr : Addr) : Prop :=
  addr ∈ addrs s.sleeplcks ∨ ∃ other, other ≠ vp ∧ addr ∈ addrs (s.filocks other)

/-- Addresses in use on some vnode. -/
def System.onVnode (s : System) (addr : Addr) : Prop := ∃ vp, addr ∈ addrs (s.filocks vp)

/-- `wakeup` on each of the channels. -/
def Proc.wake (woken : List Addr) : Proc → Proc
  | .asleep call sf chan => if chan ∈ woken then .ready call sf else .asleep call sf chan
  | p => p

def System.put (s : System) (o : Owner) (p : Proc) : System :=
  { s with proc := Function.update s.proc o p }

/-- The list of `vp` becomes `list` and the sleepers on `woken` become ready. -/
def System.store (s : System) (vp : Vnode) (list : List Filock) (woken : List Addr) : System :=
  { s with filocks := Function.update s.filocks vp list, proc := fun o => (s.proc o).wake woken }

/-- How one round of the loop of `reclock` ends. -/
inductive Turn where
  | ret (retval : Option Errno) (lckdat : Flock)
  | sleep (sf chan : Addr)
  deriving DecidableEq, Repr

/-- `found->stat.wakeflg++`. -/
def Filock.mark (found : Filock) : Filock :=
  { found with stat := { found.stat with word := toInt (found.stat.word + 1) } }

/-- `retval = flckadj (lock_list, insrt, lckdat)`. -/
def adjustLocks {used : Addr → Prop} (kmem : Kmem used) (s : System) (call : Call)
    (insrt : Option Addr) : Option (System × Turn) := do
  let result ← flckadj kmem (s.filocks call.vp) insrt call.lckdat
  return (s.store call.vp result.list result.woken, .ret result.retval result.ld)

/-- The branch of a blocked request that may sleep, up to `SLEEP`. -/
def sleepOn {used : Addr → Prop} (sleepmem : Kmem used) (fuel : Nat) (s : System) (call : Call)
    (found : Filock) : Option (System × Turn) := do
  if ← deadflck fuel s.sleeplcks found call.lckdat then
    return (s, .ret (some .edeadlk) call.lckdat)
  else
    match ← insflck sleepmem s.sleeplcks call.lckdat none with
    | none => return (s, .ret (some .enolck) call.lckdat)
    | some (sf, sleeplcks) => do
        let list ← assign found.addr Filock.mark (s.filocks call.vp)
        let sleeplcks ← assign sf
          (fun node => { node with stat := ⟨found.set.lSysid, found.set.lPid⟩ }) sleeplcks
        return ({ s.store call.vp list [] with sleeplcks }, .sleep sf found.addr)

/-- A round of the loop, and the lists it leaves. `flckadj` takes memory from
`kmem`, the entry on `sleeplcks` from `sleepmem`. -/
def reclockTurn {used used' : Addr → Prop} (kmem : Kmem used) (sleepmem : Kmem used') (fuel : Nat)
    (s : System) (call : Call) : Option (System × Turn) :=
  match call.lckdat.lType with
  | .rdlck | .wrlck =>
      match blocked (s.filocks call.vp) call.lckdat with
      | (none, insrt) =>
          if call.cmd.setflck then adjustLocks kmem s call insrt
          else some (s, .ret none { call.lckdat with lType := .unlck })
      | (some found, _) =>
          if call.cmd.slpflck then sleepOn sleepmem fuel s call found
          else if call.cmd.setflck then some (s, .ret (some .eagain) call.lckdat)
          else some (s, .ret none found.set)
  | .unlck =>
      if call.cmd.setflck then adjustLocks kmem s call ((s.filocks call.vp).head?.map Filock.addr)
      else some (s, .ret none call.lckdat)
  | .other _ => some (s, .ret (some .einval) call.lckdat)

/-- The caller gets its request back in the form it was given. -/
def Turn.restore (vattr : Except Errno Int) (call : Call) : Turn → Turn
  | .ret retval lckdat => .ret retval (reclockExit vattr lckdat call.whence call.offset)
  | turn => turn

/-- The process after the round. -/
def Turn.proc (call : Call) : Turn → Proc
  | .ret _ _ => .idle
  | .sleep sf chan => .asleep call sf chan

/-- The sleeper's own cleanup behind `SLEEP`: clear `stat.blk`, free the entry. -/
def System.leave (s : System) (sf : Addr) : Option System := do
  let sleeplcks ← assign sf (fun node => { node with stat := ⟨0, 0⟩ }) s.sleeplcks
  let (sleeplcks, woken) ← delflck sf sleeplcks
  return { s with sleeplcks, proc := fun o => (s.proc o).wake woken }

/-- `IGN_PID`. -/
def ignPid : Int := -1

def cleaned (pid sysid : Int) (node : Filock) : Prop :=
  (node.set.lPid = pid ∨ pid = ignPid) ∧ node.set.lSysid = sysid

instance (pid sysid : Int) (node : Filock) : Decidable (cleaned pid sysid node) :=
  inferInstanceAs (Decidable (_ ∧ _))

/-- The loop of `cleanlocks` over the nodes of the list. -/
def cleanlocks (pid sysid : Int) : List Filock → List Filock × List Addr
  | [] => ([], [])
  | flp :: rest =>
      let (list, woken) := cleanlocks pid sysid rest
      if cleaned pid sysid flp then (list, wakeup flp ++ woken) else (flp :: list, woken)

inductive Event where
  | rejected (o : Owner) (error : Errno)
  | turn (o : Owner) (call : Call) (turn : Turn)
  | unsleep (o : Owner)
  | clean (vp : Vnode) (pid sysid : Int)

inductive Step : System → Event → System → Prop where
  /-- A call that fails before the loop. -/
  | reject {s : System} {o : Owner} {error : Errno} (vattr : Except Errno Int) (lckdat : Flock)
      (cmd : Cmd) (flag : Flag) (offset : Int) :
      s.proc o = .idle → reclockEntry vattr lckdat cmd flag offset = .error error →
      Step s (.rejected o error) s
  | call {s t : System} {o : Owner} {call : Call} {turn : Turn} (vattr vattr' : Except Errno Int)
      (lckdat : Flock) (flag : Flag) (fuel : Nat)
      (kmem : Kmem (s.elsewhere call.vp)) (sleepmem : Kmem s.onVnode) :
      s.proc o = .idle → lckdat.owner = o → lckdat.lWhence = call.whence →
      reclockEntry vattr lckdat call.cmd flag call.offset = .ok call.lckdat →
      reclockTurn kmem sleepmem fuel s call = some (t, turn) →
      Step s (.turn o call (turn.restore vattr' call)) (t.put o (turn.proc call))
  /-- A signal, or any other `setrun`, takes a sleeper off its queue. -/
  | unsleep {s : System} {o : Owner} {call : Call} {sf chan : Addr} :
      s.proc o = .asleep call sf chan → Step s (.unsleep o) (s.put o (.ready call sf))
  /-- `SLEEP` returns non-zero. -/
  | interrupt {s t : System} {o : Owner} {call : Call} {sf : Addr} (vattr : Except Errno Int) :
      s.proc o = .ready call sf → s.leave sf = some t →
      Step s (.turn o call ((Turn.ret (some .eintr) call.lckdat).restore vattr call)) (t.put o .idle)
  /-- `SLEEP` returns zero: the next round. -/
  | resume {s t u : System} {o : Owner} {call : Call} {sf : Addr} {turn : Turn}
      (vattr : Except Errno Int) (fuel : Nat)
      (kmem : Kmem (t.elsewhere call.vp)) (sleepmem : Kmem t.onVnode) :
      s.proc o = .ready call sf → s.leave sf = some t →
      reclockTurn kmem sleepmem fuel t call = some (u, turn) →
      Step s (.turn o call (turn.restore vattr call)) (u.put o (turn.proc call))
  | clean {s : System} (vp : Vnode) (pid sysid : Int) :
      Step s (.clean vp pid sysid)
        (s.store vp (cleanlocks pid sysid (s.filocks vp)).1 (cleanlocks pid sysid (s.filocks vp)).2)

/-- No locks and no process in `reclock`. -/
def System.Boot (s : System) : Prop :=
  (∀ vp, s.filocks vp = []) ∧ s.sleeplcks = [] ∧ ∀ o, s.proc o = .idle

end Svr4.RecordLock
