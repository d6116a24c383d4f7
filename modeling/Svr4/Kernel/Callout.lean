import Svr4.Foundation.Execution
import Svr4.Foundation.Words

/-! The callout table: `timeout`, `untimeout` and `timein`.

The table is an array of which the entries up to `calllimit` are in use; the ones
behind it keep what they had. The calls run at high priority, so a step of the
system is one call, or one round of the loop of `timein` up to the function it
calls. That function is whatever happens before the next round.
-/

namespace Svr4.Callout

open Words Function

/-- `struct callo`. Functions and arguments are addresses. -/
structure Callo where
  cTime : Int
  cId : Int
  cArg : Nat
  cFunc : Nat
  deriving DecidableEq, Repr

structure Callouts where
  callout : Nat → Callo
  calllimit : Int
  timeid : Int
  lbolt : Int

/-- Percolate the hole at `j` up for an entry of time `t`. -/
def heapUp (t : Int) (callout : Nat → Callo) (j : Nat) : (Nat → Callo) × Nat :=
  if 0 < j then
    let k := (j - 1) / 2
    if t < (callout k).cTime then heapUp t (update callout j (callout k)) k else (callout, j)
  else (callout, j)
termination_by j
decreasing_by omega

/-- Percolate the hole at `j` down. -/
def heapDown (calllimit t : Int) (callout : Nat → Callo) (j : Nat) : (Nat → Callo) × Nat :=
  if calllimit < 1 + 2 * j then (callout, j)
  else
    let k := if 1 + 2 * (j : Int) < calllimit ∧ (callout (1 + 2 * j + 1)).cTime < (callout (1 + 2 * j)).cTime then
      1 + 2 * j + 1 else 1 + 2 * j
    if t ≤ (callout k).cTime then (callout, j)
    else heapDown calllimit t (update callout j (callout k)) k
termination_by (calllimit - j).toNat
decreasing_by
  split
  · omega
  · omega

/-- A table overflow is a panic: `none`. -/
def timeout (vCall : Nat) (fn arg : Nat) (tim : Int) (s : Callouts) : Option (Callouts × Int) :=
  let t := toInt (s.lbolt + tim)
  if s.calllimit + 1 = vCall then none
  else
    let id := toInt (s.timeid + 1)
    let (callout, j) := heapUp t s.callout (s.calllimit + 1).toNat
    some ({ s with
      callout := update callout j ⟨t, id, arg, fn⟩
      calllimit := s.calllimit + 1
      timeid := id }, id)

/-- The index of the entry that was removed, or -1. -/
def untimeout (id : Int) (s : Callouts) : Callouts × Int :=
  match (List.range (s.calllimit + 1).toNat).find? fun i => (s.callout i).cId = id with
  | none => (s, -1)
  | some f =>
      let pend := s.calllimit.toNat
      let calllimit := s.calllimit - 1
      if (f : Int) = s.calllimit then ({ s with calllimit }, f)
      else if 0 ≤ calllimit then
        let t := (s.callout pend).cTime
        let (callout, j) :=
          if 0 < f ∧ t < (s.callout ((f - 1) / 2)).cTime then heapUp t s.callout f else heapDown calllimit t s.callout f
        ({ s with calllimit, callout := update callout j (callout pend) }, f)
      else ({ s with calllimit }, f)

/-- A round of the loop of `timein`: the entry whose function is called, and the table
then. -/
def timein (s : Callouts) : Option (Callo × Callouts) :=
  if (s.callout 0).cTime ≤ s.lbolt ∧ 0 ≤ s.calllimit then
    let plast := s.calllimit.toNat
    let calllimit := s.calllimit - 1
    if 0 ≤ calllimit then
      let (callout, j) := heapDown calllimit (s.callout plast).cTime s.callout 0
      some (s.callout 0, { s with calllimit, callout := update callout j (callout plast) })
    else some (s.callout 0, { s with calllimit })
  else none

/-! ## The system -/

inductive Event where
  | timeout (fn arg : Nat) (tim : Int)
  | untimeout (id : Int)
  | timein
  | clock
  deriving DecidableEq, Repr

inductive Step (vCall : Nat) : Callouts → Event → Callouts → Prop where
  | timeout {s t : Callouts} {fn arg : Nat} {tim id : Int} : timeout vCall fn arg tim s = some (t, id) →
      Step vCall s (.timeout fn arg tim) t
  | untimeout {s : Callouts} (id : Int) : Step vCall s (.untimeout id) (untimeout id s).1
  | timein {s t : Callouts} {svcall : Callo} : timein s = some (svcall, t) → Step vCall s .timein t
  | clock {s : Callouts} : Step vCall s .clock { s with lbolt := toInt (s.lbolt + 1) }

/-- Absolute times fit an `int`. -/
def InTime (s : Callouts) : Event → Prop
  | .timeout _ _ tim => toInt (s.lbolt + tim) = s.lbolt + tim
  | .clock => toInt (s.lbolt + 1) = s.lbolt + 1
  | _ => True

/-- The table when the system starts: empty. -/
def Start (s : Callouts) : Prop := s.calllimit = -1 ∧ s.timeid = 0

end Svr4.Callout
