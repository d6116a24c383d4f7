import Svr4.Foundation.Ancestors
import Svr4.Kernel.Ufs.Links

/-! Renames of directories by several processes, with the places where `ufs_direnter` sleeps.

A step is what a process does from one place where it may sleep to the next one. Entries of files,
link counts and the blocks of the directories are left out. A process that waits for an inode or
for `serialize_flag` goes on when it is free.
-/

namespace Svr4.Ufs.Renames

open Links (Name Entry checkForName rewrite)
open Function (update)

def ufsrootino : Nat := 2

/-- The arguments of `ufs_rename` and the inode of the source. -/
structure Call where
  sdp : Nat
  snm : Name
  tdp : Nat
  tnm : Name
  sip : Nat
  deriving DecidableEq, Repr

/-- The place at which a process sleeps. -/
inductive Phase where
  | idle
  /-- The source is looked up. The lock of tdp is awaited. -/
  | entered (c : Call)
  /-- `serialize_flag` is awaited, with tdp locked. -/
  | serialize (c : Call)
  /-- The block of ip is read, with ip locked. -/
  | walk (c : Call) (ip : Nat)
  /-- `ufs_iget` of `dotdotino`. -/
  | fetch (c : Call) (dotdotino : Nat)
  /-- The lock of tdp is awaited after the walk. -/
  | relock (c : Call)
  /-- `ufs_dircheckforname`, with tdp locked. -/
  | search (c : Call)
  /-- `ufs_dirfixdotdot`, with tdp locked. The lock of sip is awaited. -/
  | fix (c : Call) (found : Bool)
  /-- ".." is written, the entry is not. -/
  | add (c : Call)
  /-- `ufs_dirremove` of the source. -/
  | remove (c : Call)
  deriving DecidableEq, Repr

structure State where
  /-- The inode that ".." names. -/
  dotdot : Nat → Nat
  entries : Nat → List Entry
  /-- The process that has locked an inode. -/
  locked : Nat → Option Nat
  serializeFlag : Bool
  phase : Nat → Phase

namespace State

def at_ (k : Nat) (phase : Phase) (s : State) : State := { s with phase := update s.phase k phase }

def ilock (k i : Nat) (s : State) : State := { s with locked := update s.locked i (some k) }

def iunlock (i : Nat) (s : State) : State := { s with locked := update s.locked i none }

def setEntries (d : Nat) (entries : List Entry) (s : State) : State :=
  { s with entries := update s.entries d entries }

def setDotdot (d parent : Nat) (s : State) : State := { s with dotdot := update s.dotdot d parent }

/-- The end of `ufs_dircheckpath`, with ip locked. -/
def unserialize (k : Nat) (c : Call) (ip : Nat) (s : State) : State :=
  let s := { s with serializeFlag := false }
  if ip = c.tdp then s.at_ k (.search c) else (s.iunlock ip).at_ k (.relock c)

end State

/-- From the place where process k sleeps to the next one. -/
def go (k : Nat) (s : State) : Option State :=
  match s.phase k with
  | .idle => none
  | .entered c =>
    if s.locked c.tdp ≠ none then none
    else
      -- ".." need not be changed when the parent is the same.
      some ((s.ilock k c.tdp).at_ k (if c.sdp ≠ c.tdp then .serialize c else .search c))
  | .serialize c =>
    if s.serializeFlag then none
    else if c.tdp = c.sip then some ((s.iunlock c.tdp).at_ k .idle)
    else if c.tdp = ufsrootino then some (s.at_ k (.search c))
    else some ({ s with serializeFlag := true }.at_ k (.walk c c.tdp))
  | .walk c ip =>
    let dotdotino := s.dotdot ip
    if dotdotino = c.sip then some (({ s with serializeFlag := false }.iunlock ip).at_ k .idle)
    else if dotdotino = ufsrootino then some (s.unserialize k c ip)
    else some ((s.iunlock ip).at_ k (.fetch c dotdotino))
  | .fetch c dotdotino =>
    if s.locked dotdotino ≠ none then none else some ((s.ilock k dotdotino).at_ k (.walk c dotdotino))
  | .relock c => if s.locked c.tdp ≠ none then none else some ((s.ilock k c.tdp).at_ k (.search c))
  | .search c =>
    match checkForName c.tnm (s.entries c.tdp) with
    | none => some (s.at_ k (.fix c false))
    | some tip =>
      if tip = c.sip then some ((s.iunlock c.tdp).at_ k .idle)
      else if s.locked tip ≠ none then none
      else if s.entries tip ≠ [] ∨ s.dotdot tip ≠ c.tdp then some ((s.iunlock c.tdp).at_ k .idle)
      else
        let s := s.setEntries c.tdp (rewrite c.tnm c.sip (s.entries c.tdp))
        if c.sdp ≠ c.tdp then some (s.at_ k (.fix c true)) else some ((s.iunlock c.tdp).at_ k (.remove c))
  | .fix c found =>
    if s.locked c.sip ≠ none then none
    else
      let s := if s.dotdot c.sip = c.tdp then s else s.setDotdot c.sip c.tdp
      if found then some ((s.iunlock c.tdp).at_ k (.remove c)) else some (s.at_ k (.add c))
  | .add c => some (((s.setEntries c.tdp (s.entries c.tdp ++ [(c.tnm, c.sip)])).iunlock c.tdp).at_ k (.remove c))
  | .remove c =>
    if s.locked c.sdp ≠ none then none
    else
      let s := if checkForName c.snm (s.entries c.sdp) = some c.sip then
          s.setEntries c.sdp ((s.entries c.sdp).eraseP fun e => e.1 = c.snm)
        else s
      some (s.at_ k .idle)

/-- A check, an allocation or a read fails before anything is written. -/
def fail (k : Nat) (s : State) : Option State :=
  match s.phase k with
  | .entered _ => some (s.at_ k .idle)
  | .serialize c | .search c | .fix c false => some ((s.iunlock c.tdp).at_ k .idle)
  | .walk _ ip => some (({ s with serializeFlag := false }.iunlock ip).at_ k .idle)
  | .fetch _ _ => some ({ s with serializeFlag := false }.at_ k .idle)
  | .relock _ => some (s.at_ k .idle)
  | .idle | .fix _ true | .add _ | .remove _ => none

inductive Event where
  | enter (k : Nat) (c : Call)
  | go (k : Nat)
  | fail (k : Nat)
  deriving DecidableEq, Repr

def run (event : Event) (s : State) : Option State :=
  match event with
  | .enter k c =>
    if s.phase k = .idle ∧ c.sip ≠ c.sdp ∧ checkForName c.snm (s.entries c.sdp) = some c.sip then some (s.at_ k (.entered c))
    else none
  | .go k => go k s
  | .fail k => fail k s

def Step (s : State) (event : Event) (t : State) : Prop := run event s = some t

/-- A tree of directories, and no rename in progress. -/
structure Start (s : State) : Prop where
  tree : Rooted s.dotdot ufsrootino
  idle : ∀ k, s.phase k = .idle
  unlocked : ∀ i, s.locked i = none
  flag : s.serializeFlag = false

end Svr4.Ufs.Renames
