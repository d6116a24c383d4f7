import Mathlib.Logic.Function.Basic
import Svr4.Foundation.Execution

/-! The directory name lookup cache.

A call sleeps only in `VN_RELE`, and has then one entry in its hands, which is on no list. So
the sleeping calls are numbered by these entries. A panic and a null pointer that is followed
give no result.
-/

namespace Svr4.Dnlc

open Function

/-- `struct ncache`, without its links; NULL and NOCRED are `none`. -/
structure Ncache where
  dp : Option Nat
  vp : Option Nat
  name : List Nat
  cred : Option Nat
  deriving DecidableEq, Repr

/-- What is on a hash chain: an element of `nc_hash`, or an entry. -/
inductive HashNode where
  | bucket (h : Nat)
  | entry (ncp : Nat)
  deriving DecidableEq, Repr

/-- What is on the LRU list: `nc_lru`, or an entry. -/
inductive LruNode where
  | lru
  | entry (ncp : Nat)
  deriving DecidableEq, Repr

/-- The cache, with what it holds of vnodes and credentials. -/
structure Cache where
  doingcache : Bool
  ncache : Nat → Ncache
  hashNext : HashNode → HashNode
  hashPrev : HashNode → HashNode
  lruNext : LruNode → LruNode
  lruPrev : LruNode → LruNode
  vnHolds : Nat → Int
  crHolds : Nat → Int

def set (ncp : Nat) (value : Ncache → Ncache) (c : Cache) : Cache :=
  { c with ncache := update c.ncache ncp (value (c.ncache ncp)) }

def vnHold (vp : Nat) (c : Cache) : Cache := { c with vnHolds := update c.vnHolds vp (c.vnHolds vp + 1) }

def vnRele (vp : Nat) (c : Cache) : Cache := { c with vnHolds := update c.vnHolds vp (c.vnHolds vp - 1) }

def crhold (cred : Nat) (c : Cache) : Cache := { c with crHolds := update c.crHolds cred (c.crHolds cred + 1) }

def crfree (cred : Nat) (c : Cache) : Cache := { c with crHolds := update c.crHolds cred (c.crHolds cred - 1) }

/-! ## The lists -/

def ncInshash (ncp : Nat) (hp : HashNode) (c : Cache) : Cache :=
  let c := { c with hashNext := update c.hashNext (.entry ncp) (c.hashNext hp) }
  let c := { c with hashPrev := update c.hashPrev (.entry ncp) hp }
  let c := { c with hashPrev := update c.hashPrev (c.hashNext hp) (.entry ncp) }
  { c with hashNext := update c.hashNext hp (.entry ncp) }

def ncRmhash (ncp : Nat) (c : Cache) : Cache :=
  let c := { c with hashNext := update c.hashNext (c.hashPrev (.entry ncp)) (c.hashNext (.entry ncp)) }
  { c with hashPrev := update c.hashPrev (c.hashNext (.entry ncp)) (c.hashPrev (.entry ncp)) }

def ncInslru (ncp2 : Nat) (ncp1 : LruNode) (c : Cache) : Cache :=
  let ncp3 := c.lruNext ncp1
  let c := { c with lruNext := update c.lruNext ncp1 (.entry ncp2) }
  let c := { c with lruNext := update c.lruNext (.entry ncp2) ncp3 }
  let c := { c with lruPrev := update c.lruPrev ncp3 (.entry ncp2) }
  { c with lruPrev := update c.lruPrev (.entry ncp2) ncp1 }

def ncRmlru (ncp : Nat) (c : Cache) : Cache :=
  let c := { c with lruNext := update c.lruNext (c.lruPrev (.entry ncp)) (c.lruNext (.entry ncp)) }
  { c with lruPrev := update c.lruPrev (c.lruNext (.entry ncp)) (c.lruPrev (.entry ncp)) }

/-- `NULL_HASH`. -/
def nullHash (ncp : Nat) (c : Cache) : Cache :=
  { c with
    hashNext := update c.hashNext (.entry ncp) (.entry ncp)
    hashPrev := update c.hashPrev (.entry ncp) (.entry ncp) }

def ncNamlen : Nat := 15

/-- `NC_HASH`. -/
def ncHash (name : List Nat) (dp : Nat) : Nat := (name.headD 0 + name.getLastD 0 + name.length + dp) % 8

def HashNode.ncp : HashNode → Option Nat
  | .bucket _ => none
  | .entry ncp => some ncp

def LruNode.ncp : LruNode → Option Nat
  | .lru => none
  | .entry ncp => some ncp

/-- The first entry of a list for which `test` holds; `fuel` is more than there are entries. -/
def scan {Node : Type} (entry : Node → Option Nat) (next : Node → Node) (test : Nat → Bool) : Nat → Node → Option Nat
  | 0, _ => none
  | fuel + 1, node =>
    match entry node with
    | none => none
    | some ncp => if test ncp then some ncp else scan entry next test fuel (next node)

section
variable (ncsize : Nat)

/-- The key of an entry; ANYCRED is `none`. -/
def named (c : Cache) (dp : Nat) (name : List Nat) (cred : Option (Option Nat)) (ncp : Nat) : Bool :=
  (c.ncache ncp).dp = some dp && (c.ncache ncp).name = name && (cred = none || cred = some (c.ncache ncp).cred)

def dnlcSearch (c : Cache) (dp : Nat) (name : List Nat) (cred : Option (Option Nat)) : Option Nat :=
  scan HashNode.ncp c.hashNext (named c dp name cred) (ncsize + 1) (c.hashNext (.bucket (ncHash name dp)))

/-! ## Entering -/

/-- The entry that `dnlc_enter` takes, and the cache without it. -/
def enterTake (dp : Nat) (name : List Nat) (cred : Option Nat) (c : Cache) : Option (Nat × Cache) :=
  if ¬ c.doingcache ∨ ncNamlen < name.length then none
  else if dnlcSearch ncsize c dp name (some cred) ≠ none then none
  else
    match c.lruNext .lru with
    | .lru => none
    | .entry ncp => some (ncp, ncRmhash ncp (ncRmlru ncp c))

/-- Hold the vnodes we are entering and fill in cache info. -/
def enterFill (dp : Nat) (name : List Nat) (vp : Nat) (cred : Option Nat) (ncp : Nat) (c : Cache) : Cache :=
  let c := vnHold vp (vnHold dp (set ncp (fun _ => ⟨some dp, some vp, name, cred⟩) c))
  let c := match cred with
    | some cr => crhold cr c
    | none => c
  ncInshash ncp (.bucket (ncHash name dp)) (ncInslru ncp (c.lruPrev .lru) c)

/-! ## Looking up -/

def dnlcLookup (dp : Nat) (name : List Nat) (cred : Option Nat) (c : Cache) : Option Nat × Cache :=
  if ¬ c.doingcache ∨ ncNamlen < name.length then (none, c)
  else
    match dnlcSearch ncsize c dp name (some cred) with
    | none => (none, c)
    | some ncp =>
      let c := ncRmlru ncp c
      let c := ncInslru ncp (c.lruPrev .lru) c
      let c :=
        if c.hashPrev (.entry ncp) ≠ .bucket (ncHash name dp) then
          let c := ncRmhash ncp c
          ncInshash ncp (c.hashPrev (c.hashPrev (.entry ncp))) c
        else c
      ((c.ncache ncp).vp, c)

/-! ## Removing -/

/-- The calls that remove entries. -/
inductive Task where
  | remove (dp : Nat) (name : List Nat)
  | purge
  | purgeVp (vp : Nat)
  | purge1
  deriving DecidableEq, Repr

/-- The next entry that the call removes. -/
def Task.find (c : Cache) : Task → Option Nat
  | .remove dp name => if ncNamlen < name.length then none else dnlcSearch ncsize c dp name none
  | .purge => (List.range 8).findSome? fun h => scan HashNode.ncp c.hashNext (fun _ => true) 1 (c.hashNext (.bucket h))
  | .purgeVp vp =>
    let test ncp := (c.ncache ncp).dp = some vp || (c.ncache ncp).vp = some vp
    scan LruNode.ncp c.lruNext test (ncsize + 1) (c.lruNext .lru)
  | .purge1 =>
    let test ncp := (c.ncache ncp).dp ≠ none
    scan LruNode.ncp c.lruNext test (ncsize + 1) (c.lruNext .lru)

/-- `dnlc_rm` to the first `VN_RELE`. -/
def dnlcRm (ncp : Nat) (c : Cache) : Option Cache := do
  let dp ← (c.ncache ncp).dp
  return vnRele dp (ncRmhash ncp (ncRmlru ncp c))

/-- From there to the second one. -/
def dnlcRmNext (ncp : Nat) (c : Cache) : Option Cache := do
  let vp ← (c.ncache ncp).vp
  return vnRele vp (set ncp (fun e => { e with dp := none }) c)

/-- The rest of it. -/
def dnlcRmEnd (ncp : Nat) (c : Cache) : Cache :=
  let cred := (c.ncache ncp).cred
  let c := set ncp (fun e => { e with vp := none, cred := none }) c
  let c := match cred with
    | some cr => crfree cr c
    | none => c
  nullHash ncp (ncInslru ncp .lru c)

/-! ## Systems -/

/-- The call that has an entry in its hands: in which `VN_RELE` it sleeps, and when it began. -/
inductive Hand where
  | free
  | enterDp (dp : Nat) (name : List Nat) (vp : Nat) (cred : Option Nat)
  | enterVp (dp : Nat) (name : List Nat) (vp : Nat) (cred : Option Nat)
  | rmDp (task : Task) (begun : Nat)
  | rmVp (task : Task) (begun : Nat)
  deriving DecidableEq, Repr

/-- What a `dnlc_enter` has entered, and when. -/
structure Entering where
  dp : Nat
  name : List Nat
  vp : Nat
  cred : Option Nat
  time : Nat
  deriving DecidableEq, Repr

/-- The clock, the time of each entry, and the entries and removals that are complete are for
the statements only. -/
structure System where
  cache : Cache
  hand : Nat → Hand
  clock : Nat
  time : Nat → Nat
  entered : List Entering
  done : List (Task × Nat)

inductive Event where
  | enter (dp : Nat) (name : List Nat) (vp : Nat) (cred : Option Nat)
  | lookup (dp : Nat) (name : List Nat) (cred : Option Nat)
  | call (task : Task)
  | resume (ncp : Nat)
  deriving DecidableEq, Repr

def setHand (ncp : Nat) (hand : Hand) (c : Cache) (s : System) : System :=
  { s with cache := c, hand := update s.hand ncp hand }

/-- The end of `dnlc_enter`. -/
def fill (dp : Nat) (name : List Nat) (vp : Nat) (cred : Option Nat) (ncp : Nat) (c : Cache) (s : System) : System :=
  { setHand ncp .free (enterFill dp name vp cred ncp c) s with
    time := update s.time ncp s.clock
    entered := ⟨dp, name, vp, cred, s.clock⟩ :: s.entered }

/-- Drop hold on vnodes, if there were any: the second one. -/
def dropVp (dp : Nat) (name : List Nat) (vp : Nat) (cred : Option Nat) (ncp : Nat) (c : Cache) (s : System) : System :=
  match (c.ncache ncp).vp with
  | some old => setHand ncp (.enterVp dp name vp cred) (vnRele old c) s
  | none => fill dp name vp cred ncp c s

def enter (dp : Nat) (name : List Nat) (vp : Nat) (cred : Option Nat) (s : System) : System :=
  match enterTake ncsize dp name cred s.cache with
  | none => s
  | some (ncp, c) =>
    match (c.ncache ncp).dp with
    | some old => setHand ncp (.enterDp dp name vp cred) (vnRele old c) s
    | none => dropVp dp name vp cred ncp c s

/-- The loop of a call that removes entries, from one to the next. -/
def goOn (task : Task) (begun : Nat) (s : System) : Option System :=
  match if s.cache.doingcache then task.find ncsize s.cache else none with
  | none => some { s with done := (task, begun) :: s.done }
  | some ncp => do
    if task = .purge ∧ ((s.cache.ncache ncp).dp = none ∨ (s.cache.ncache ncp).vp = none) then none
    else
      let c ← dnlcRm ncp s.cache
      return setHand ncp (.rmDp task begun) c s

/-- The answer of `dnlc_lookup`, and the state after the event. -/
def run (event : Event) (s : System) : Option (Option Nat × System) := do
  let (answer, t) ← match event with
    | .enter dp name vp cred => some (none, enter ncsize dp name vp cred s)
    | .lookup dp name cred =>
      let (answer, c) := dnlcLookup ncsize dp name cred s.cache
      some (answer, { s with cache := c })
    | .call task => (goOn ncsize task s.clock s).map fun t => (none, t)
    | .resume ncp =>
      match s.hand ncp with
      | .free => some (none, s)
      | .enterDp dp name vp cred => some (none, dropVp dp name vp cred ncp s.cache s)
      | .enterVp dp name vp cred => some (none, fill dp name vp cred ncp s.cache s)
      | .rmDp task begun => (dnlcRmNext ncp s.cache).map fun c => (none, setHand ncp (.rmVp task begun) c s)
      | .rmVp task begun =>
        let t := setHand ncp .free (dnlcRmEnd ncp s.cache) s
        -- `dnlc_purge1` removes one entry.
        if task = .purge1 then some (none, { t with done := (task, begun) :: t.done })
        else (goOn ncsize task begun t).map fun t => (none, t)
  return (answer, { t with clock := s.clock + 1 })

/-! ## Initialisation -/

/-- The memory of the entries is not cleared. -/
def emptyCache (memory : Nat → Ncache) : Cache where
  doingcache := 0 < ncsize
  ncache i := { memory i with dp := none, vp := none }
  hashNext node := node
  hashPrev node := node
  lruNext _ := .lru
  lruPrev _ := .lru
  vnHolds _ := 0
  crHolds _ := 0

def dnlcInit (memory : Nat → Ncache) : System where
  cache := (List.range ncsize).foldl (fun c i => nullHash i (ncInslru i .lru c)) (emptyCache ncsize memory)
  hand _ := .free
  clock := 0
  time _ := 0
  entered := []
  done := []

end

end Svr4.Dnlc
