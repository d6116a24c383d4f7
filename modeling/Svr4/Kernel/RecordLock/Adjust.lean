import Svr4.Kernel.RecordLock.Data

/-! `regflck`, `flckadj` and `blocked`: finding the conflicts of a request and
rewriting the requester's part of a lock list. -/

namespace Svr4.RecordLock

/-- The region of a list lock in which one end of a request falls. -/
inductive Region where
  | before | start | middle | «end» | after
  deriving DecidableEq, Repr

/-- The start and end regions of `ld` relative to `flp`. -/
def regflck (ld : Flock) (flp : Flock) : Region × Region :=
  if flp.lStart < ld.lStart ∧ ld.lStart - 1 = flp.lEnd then (.end, .after)
  else if flp.lStart < ld.lStart ∧ flp.lEnd < ld.lStart then (.after, .after)
  else
    (if flp.lStart < ld.lStart then .middle
      else if ld.lStart = flp.lStart then .start
      else .before,
     if ld.lEnd < flp.lEnd then
       if ld.lEnd = flp.lStart - 1 then .start
       else if ld.lEnd < flp.lStart then .before
       else .middle
     else if ld.lEnd = flp.lEnd then .end
     else .after)

/-- What `flckadj` reads and writes during its walk. -/
structure Adj where
  list : List Filock
  insrtp : Option Addr
  ld : Flock
  woken : List Addr
  deriving DecidableEq, Repr

/-- `delflck (lck_list, flp)`. -/
def Adj.delete (s : Adj) (flp : Filock) : Option Adj := do
  let (list, woken) ← delflck flp.addr s.list
  return { s with list, woken := s.woken ++ woken }

/-- `insrtp = flp->prev; delflck (lck_list, flp)`. -/
def Adj.deleteBehind (s : Adj) (flp : Filock) : Option Adj :=
  { s with insrtp := prev flp.addr s.list }.delete flp

/-- `flp->set.l_end = ld->l_start - 1; WAKEUP (flp); insrtp = flp`. -/
def Adj.truncate (s : Adj) (flp : Filock) : Option Adj := do
  let list ← assign flp.addr
    (fun node => { node with
      set := { node.set with lEnd := s.ld.lStart - 1 }, stat := { node.stat with word := 0 } }) s.list
  return { s with list, woken := s.woken ++ wakeup flp, insrtp := some flp.addr }

/-- The piece of `flp` behind the request becomes a lock of its own. The result
is `some none` when there is no memory for it. -/
def Adj.splitOff {used : Addr → Prop} (kmem : Kmem used) (s : Adj) (flp : Filock) :
    Option (Option Adj) := do
  let td := { flp.set with lStart := s.ld.lEnd + 1 }
  let nodes ← suffixAt flp.addr s.list
  let made ← insflck kmem s.list td (some (scanBefore td.lStart flp.addr nodes))
  return made.map fun (_, list) => { s with list }

/-- How one round of the walk ends: go on with the next node, leave the loop
(`nflp = NULL`), or return from `flckadj`. -/
inductive Walk where
  | next (s : Adj)
  | stop (s : Adj)
  | ret (retval : Option Errno) (s : Adj)
  deriving DecidableEq, Repr

/-- The switch of `flckadj`. Cases that fall through are written out. -/
def adjust {used : Addr → Prop} (kmem : Kmem used) (flp : Filock) (s : Adj) : Option Walk :=
  let same := s.ld.lType = flp.set.lType
  match regflck s.ld flp.set with
  | (.before, .before) => some (.stop s)
  | (.before, .start) =>
      if same then
        ({ s with ld := { s.ld with lEnd := flp.set.lEnd } }.delete flp).map .stop
      else some (.stop s)
  | (.start, .end) =>
      if same then some (.ret none s) else (s.deleteBehind flp).map .next
  | (.start, .after) => (s.deleteBehind flp).map .next
  | (.before, .end) => (s.delete flp).map (if same then .stop else .next)
  | (.before, .after) => (s.delete flp).map .next
  | (.start, .middle) =>
      let s := { s with insrtp := prev flp.addr s.list }
      if same then some (.ret none s)
      else do
        match ← s.splitOff kmem flp with
        | none => return .ret (some .enolck) s
        | some s => (s.delete flp).map .stop
  | (.middle, .middle) =>
      if same then some (.ret none s)
      else do
        match ← s.splitOff kmem flp with
        | none => return .ret (some .enolck) s
        | some s => (s.truncate flp).map .stop
  | (.before, .middle) =>
      if same then
        ({ s with ld := { s.ld with lEnd := flp.set.lEnd } }.delete flp).map .stop
      else do
        match ← s.splitOff kmem flp with
        | none => return .ret (some .enolck) s
        | some s => (s.delete flp).map .stop
  | (.middle, .end) =>
      if same then some (.ret none s) else (s.truncate flp).map .next
  | (.middle, .after) =>
      if same then
        ({ s with ld := { s.ld with lStart := flp.set.lStart } }.deleteBehind flp).map .next
      else (s.truncate flp).map .next
  | (.end, .after) =>
      if same then
        ({ s with ld := { s.ld with lStart := flp.set.lStart } }.deleteBehind flp).map .next
      else some (.next s)
  | (.after, .after) => some (.next { s with insrtp := some flp.addr })
  | _ => some (.next s)

/-- The while loop. `nflp` is read before the node is touched and the nodes
behind it are not changed while the walk goes on, so the nodes still to visit
are those of the list the walk began with. -/
def adjustFrom {used : Addr → Prop} (kmem : Kmem used) : List Filock → Adj → Option Walk
  | [], s => some (.stop s)
  | flp :: rest, s =>
      if sameowner flp.set s.ld then do
        match ← adjust kmem flp s with
        | .next s => adjustFrom kmem rest s
        | walk => return walk
      else adjustFrom kmem rest s

/-- The result of `flckadj`. The request comes back as coalescing left it. -/
structure Adjusted where
  retval : Option Errno
  list : List Filock
  ld : Flock
  woken : List Addr
  deriving DecidableEq, Repr

/-- Insert the new lock unless the request is an unlock. -/
def Adj.finish {used : Addr → Prop} (kmem : Kmem used) (s : Adj) : Option Adjusted :=
  if s.ld.lType = .unlck then some ⟨none, s.list, s.ld, s.woken⟩
  else do
    let insrtp ← match s.insrtp with
      | none => pure none
      | some addr => do
          let nodes ← suffixAt addr s.list
          pure (some (scanBefore s.ld.lStart addr nodes))
    match ← insflck kmem s.list s.ld insrtp with
    | none => return ⟨some .enolck, s.list, s.ld, s.woken⟩
    | some (_, list) => return ⟨none, list, s.ld, s.woken⟩

/-- The nodes the walk of `flckadj` visits: from `insrtp` on, or all of them. -/
def visited (list : List Filock) (insrtp : Option Addr) : Option (List Filock) :=
  match insrtp with
  | none => some list
  | some addr => suffixAt addr list

def flckadj {used : Addr → Prop} (kmem : Kmem used) (list : List Filock) (insrtp : Option Addr)
    (ld : Flock) : Option Adjusted := do
  let nodes ← visited list insrtp
  match ← adjustFrom kmem nodes ⟨list, insrtp, ld, []⟩ with
  | .ret retval s => return ⟨retval, s.list, s.ld, s.woken⟩
  | .next s | .stop s => s.finish kmem

/-- The type test that `blocked` makes twice. -/
def excludes (held request : LockType) : Prop :=
  held = .wrlck ∨ held = .rdlck ∧ request = .wrlck

instance (held request : LockType) : Decidable (excludes held request) :=
  inferInstanceAs (Decidable (_ ∨ _))

/-- The second loop of `blocked`. -/
def blockedAfter (lckdat : Flock) : List Filock → Option Filock
  | [] => none
  | f :: rest =>
      if lckdat.lEnd < f.set.lStart then none
      else if lckdat.lStart ≤ f.set.lEnd ∧ ¬ sameowner f.set lckdat ∧
          excludes f.set.lType lckdat.lType then some f
      else blockedAfter lckdat rest

/-- The first loop of `blocked`, with the value of `*insrt`. -/
def blockedFrom (lckdat : Flock) (insrt : Option Addr) :
    List Filock → Option Filock × Option Addr
  | [] => (none, insrt)
  | f :: rest =>
      if f.set.lStart < lckdat.lStart then
        if sameowner f.set lckdat then
          if lckdat.lStart - 1 ≤ f.set.lEnd then (blockedAfter lckdat (f :: rest), some f.addr)
          else blockedFrom lckdat (some f.addr) rest
        else if lckdat.lStart ≤ f.set.lEnd ∧ excludes f.set.lType lckdat.lType then
          (some f, some f.addr)
        else blockedFrom lckdat (some f.addr) rest
      else (blockedAfter lckdat (f :: rest), insrt)

/-- The blocking lock and the place where the update of the list starts. -/
def blocked (flp : List Filock) (lckdat : Flock) : Option Filock × Option Addr :=
  blockedFrom lckdat none flp

end Svr4.RecordLock
