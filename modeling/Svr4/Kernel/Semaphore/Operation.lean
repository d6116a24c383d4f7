import Svr4.Kernel.Semaphore.Undo

/-! One pass of `semop` over its operations, with the rollback by `semundo`.

A pass runs from the label `check` to a return or to `sleep` and is not
interrupted. It keeps a record of the semaphore numbers it uses.
-/

namespace Svr4.Semaphore

open Words

/-- The tables, the channels woken so far and the numbers used so far. -/
structure Work where
  k : Tables
  woken : List Chan
  touched : List Nat

namespace Work

def touch (w : Work) (num : Nat) : Work := { w with touched := w.touched ++ [num] }

/-- Wake those who wait for a larger value. -/
def wakeN (w : Work) (i : Nat) : Work :=
  if (w.k.sem i).semncnt ≠ 0 then
    { w with k := w.k.setSem i fun s => { s with semncnt := 0 }, woken := w.woken ++ [.ncnt i] }
  else w

/-- Wake those who wait for zero, if the value is zero. -/
def wakeZ (w : Work) (i : Nat) : Work :=
  if (w.k.sem i).semzcnt ≠ 0 ∧ (w.k.sem i).semval = 0 then
    { w with k := w.k.setSem i fun s => { s with semzcnt := 0 }, woken := w.woken ++ [.zcnt i] }
  else w

/-- `semp->semval += op`. -/
def add (w : Work) (i : Nat) (op : Int) : Work :=
  { w with k := w.k.setSem i fun s => { s with semval := toUshort (s.semval + op) } }

/-- `semp->semncnt++` or `semp->semzcnt++`. -/
def count (w : Work) : Chan → Work
  | .ncnt i => { w with k := w.k.setSem i fun s => { s with semncnt := toUshort (s.semncnt + 1) } }
  | .zcnt i => { w with k := w.k.setSem i fun s => { s with semzcnt := toUshort (s.semzcnt + 1) } }

end Work

section
variable (info : Seminfo) (slot : Slot) (pid : Int) (semid : Int) (base : Nat)

/-- `SEM_UNDO` set: the entry is made or changed before the value is. -/
def adjustUndo (undo : Bool) (val : Int) (num : Nat) (w : Work) : Option (Work × Option Errno) :=
  if undo then do
    let (k, error) ← semaoe info slot val semid num w.k
    return ({ w with k }, error)
  else some (w, none)

/-- What becomes of one operation. -/
inductive Verdict where
  | ok
  | fail (error : Errno)
  | block (chan : Chan)
  deriving DecidableEq, Repr

/-- Make the entry, change the value and wake. -/
def perform (op : Sembuf) (wake : Work → Work) (w : Work) : Option (Work × Verdict) := do
  match ← adjustUndo info slot semid op.undo op.semOp op.semNum w with
  | (w, some error) => return (w, .fail error)
  | (w, none) => return (wake (w.add (base + op.semNum) op.semOp), .ok)

/-- The body of the loop, up to the rollback. -/
def attempt (op : Sembuf) (w : Work) : Option (Work × Verdict) :=
  let i := base + op.semNum
  let w := w.touch op.semNum
  if 0 < op.semOp then
    if info.semvmx < op.semOp + (w.k.sem i).semval then some (w, .fail .erange)
    else perform info slot semid base op (fun w => (w.wakeN i).wakeZ i) w
  else if op.semOp < 0 then
    if -op.semOp ≤ (w.k.sem i).semval then perform info slot semid base op (fun w => w.wakeZ i) w
    else some (w, .block (.ncnt i))
  else if (w.k.sem i).semval ≠ 0 then some (w, .block (.zcnt i))
  else some (w, .ok)

/-- Undo the operations, the last one first. Errors of `semaoe` are ignored. -/
def semundo : List Sembuf → Work → Option Work
  | [], w => some w
  | op :: done, w =>
      if op.semOp = 0 then semundo done w
      else do
        let w := (w.touch op.semNum).add (base + op.semNum) (-op.semOp)
        let (w, _) ← adjustUndo info slot semid op.undo (-op.semOp) op.semNum w
        semundo done w

/-- What a process waits for: an operation, and those before it in its array,
the last one first. -/
structure Wait where
  semid : Int
  base : Nat
  done : List Sembuf
  op : Sembuf
  deriving DecidableEq

inductive Outcome where
  | success
  | error (error : Errno)
  | sleep (chan : Chan) (wait : Wait)
  deriving DecidableEq

/-- `sempid` of the semaphores that were operated on. -/
def stamp : List Sembuf → Work → Work
  | [], w => w
  | op :: ops, w =>
      let w := w.touch op.semNum
      stamp ops { w with k := w.k.setSem (base + op.semNum) fun s => { s with sempid := pid } }

/-- The loop with `done` behind it, the last operation first. -/
def semopFrom (ops : List Sembuf) : List Sembuf → List Sembuf → Work → Option (Work × Outcome)
  | _, [], w => some (stamp pid base ops w, .success)
  | done, op :: rest, w => do
      match ← attempt info slot semid base op w with
      | (w, .ok) => semopFrom ops (op :: done) rest w
      | (w, .fail error) =>
          let w ← semundo info slot semid base done w
          return (w, .error error)
      | (w, .block chan) =>
          let w ← semundo info slot semid base done w
          if op.nowait then return (w, .error .eagain)
          else return (w.count chan, .sleep chan ⟨semid, base, done, op⟩)

def semopPass (ops : List Sembuf) (k : Tables) : Option (Work × Outcome) :=
  semopFrom info slot pid semid base ops [] ops ⟨k, [], []⟩

end

end Svr4.Semaphore
