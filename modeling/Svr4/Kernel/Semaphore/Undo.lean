import Svr4.Kernel.Semaphore.Data

/-! `semaoe`, `semunrm` and the removal of a structure from the undo chain.

A walk along the chain takes at most `semmnu` rounds, one for each structure. One
that takes more is on a cycle and does not end, which is `none`.
-/

namespace Svr4.Semaphore

open Words

variable (info : Seminfo)

/-- The entries that the search of `semaoe` passes over. -/
def Undo.before (entry : Undo) (id : Int) (num : Nat) : Prop :=
  entry.unId < id ∨ (entry.unId = id ∧ entry.unNum < num)

instance (entry : Undo) (id : Int) (num : Nat) : Decidable (entry.before id num) :=
  inferInstanceAs (Decidable (_ ∨ _))

/-- What `semaoe` does to the entries of a structure. -/
inductive Change where
  | failed (error : Errno) (entries : List Undo)
  | inserted (entries : List Undo)
  | updated (entries : List Undo)
  | deleted (entries : List Undo)
  deriving DecidableEq, Repr

def Change.entries : Change → List Undo
  | .failed _ entries => entries
  | .inserted entries => entries
  | .updated entries => entries
  | .deleted entries => entries

def Change.error : Change → Option Errno
  | .failed error _ => some error
  | _ => none

/-- The search and the update of the entries. -/
def change (val id : Int) (num : Nat) (entries : List Undo) : Change :=
  let passed := entries.takeWhile fun entry => entry.before id num
  let insert (rest : List Undo) : Change :=
    if info.semume ≤ entries.length then .failed .einval entries
    else .inserted (passed ++ ⟨toShort (-val), num, id⟩ :: rest)
  match entries.dropWhile fun entry => entry.before id num with
  | [] => insert []
  | entry :: rest =>
      if entry.unId = id ∧ entry.unNum = num then
        let aoe := toShort (entry.unAoe - val)
        if info.semaem < aoe ∨ aoe < -info.semaem then
          .failed .erange (passed ++ { entry with unAoe := toShort (aoe + val) } :: rest)
        else if aoe = 0 then .deleted (passed ++ rest)
        else .updated (passed ++ { entry with unAoe := aoe } :: rest)
      else insert (entry :: rest)

namespace Tables

/-- The structure of the process, or the first free one, which it then keeps. -/
def acquire (k : Tables) (slot : Slot) : Option (Nat × Tables) :=
  match k.semUndo slot with
  | some up => some (up, k)
  | none =>
      match k.semfup with
      | none => none
      | some up =>
          some (up, { { k with semfup := k.next up }.setUndo up fun un => { un with unNp := none } with
            semUndo := Function.update k.semUndo slot (some up) })

/-- Put `up` at the head of the undo chain. -/
def chain (k : Tables) (up : Nat) : Tables :=
  { k.setUndo up fun un => { un with unNp := k.semunp } with semunp := some up }

/-- Take `up` off the undo chain. Its own link is left as it is. -/
def unchain (k : Tables) (up : Nat) : Option Tables :=
  if k.semunp = some up then some { k with semunp := k.next up }
  else do
    match ← predecessor k.next up (info.semmnu + 1) k.semunp with
    | none => return k
    | some p => return k.setUndo p fun un => { un with unNp := k.next up }

/-- Store the changed entries. The structure is on the undo chain while it has
entries: it goes on the chain with the first and leaves it with the last. -/
def record (k : Tables) (up : Nat) (change : Change) : Option Tables :=
  let stored := k.setUndo up fun un => { un with unEnt := change.entries }
  match change with
  | .failed _ _ => some stored
  | .inserted _ => if (k.semu up).unEnt = [] then some (stored.chain up) else some stored
  | .updated _ => some stored
  | .deleted entries =>
      if entries = [] then do
        let k ← stored.unchain info up
        return k.setUndo up fun un => { un with unNp := none }
      else some stored

end Tables

def semaoe (slot : Slot) (val id : Int) (num : Nat) (k : Tables) : Option (Tables × Option Errno) :=
  let val := toShort val
  if val = 0 then some (k, none)
  else if info.semaem < val ∨ val < -info.semaem then some (k, some .erange)
  else
    match k.acquire slot with
    | none => some (k, some .enospc)
    | some (up, k) => do
        let change := change info val id num (k.semu up).unEnt
        let k ← k.record info up change
        return (k, change.error)

/-- The inner loop of `semunrm`. The entries are sorted, which ends it early. -/
def purge (id : Int) (low high : Nat) : List Undo → List Undo
  | [] => []
  | up :: rest =>
      if id < up.unId then up :: rest
      else if up.unId < id ∨ up.unNum < low then up :: purge id low high rest
      else if high < up.unNum then up :: rest
      else purge id low high rest

/-- The outer loop of `semunrm`; `pp` is the last structure that stays. -/
def semunrmFrom (id : Int) (low high : Nat) : Nat → Option Nat → Option Nat → Tables → Option Tables
  | 0, _, _, _ => none
  | _ + 1, _, none, k => some k
  | fuel + 1, pp, some p, k =>
      let after := k.next p
      let entries := purge id low high (k.semu p).unEnt
      let k := k.setUndo p fun un => { un with unEnt := entries }
      if entries = [] then
        let k := match pp with
          | none => { k with semunp := after }
          | some pp => k.setUndo pp fun un => { un with unNp := after }
        semunrmFrom id low high fuel pp after (k.setUndo p fun un => { un with unNp := none })
      else semunrmFrom id low high fuel (some p) after k

def semunrm (id : Int) (low high : Nat) (k : Tables) : Option Tables :=
  semunrmFrom id low high (info.semmnu + 1) none k.semunp k

end Svr4.Semaphore
