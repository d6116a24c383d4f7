import Mathlib.Data.List.Induction
import Svr4.Foundation.Words
import Svr4.Kernel.Errno

/-! Record locks of a vnode: `struct flock`, `struct filock` and the list primitives.

A lock list is the sequence of its nodes. Nodes keep their kernel address, since
`insrtp` and the sleep channel are addresses; following a pointer to a node that
is no longer on the list is `none`.
-/

namespace Svr4.RecordLock

open List (map_cons mem_cons)

/-- `l_type`. A short that is none of the three commands is `other`. -/
inductive LockType where
  | rdlck | wrlck | unlck
  | other (value : Int)
  deriving DecidableEq, Repr

/-- The pair that `SAMEOWNER` compares. -/
structure Owner where
  pid : Int
  sysid : Int
  deriving DecidableEq, Repr

/-- `lEnd` is the word `l_len`; the kernel keeps the last byte of the lock in it. -/
structure Flock where
  lType : LockType
  lWhence : Int
  lStart : Int
  lEnd : Int
  lSysid : Int
  lPid : Int
  deriving DecidableEq, Repr

def Flock.owner (lock : Flock) : Owner := ⟨lock.lPid, lock.lSysid⟩

def sameowner (a b : Flock) : Prop := a.lPid = b.lPid ∧ a.lSysid = b.lSysid

instance (a b : Flock) : Decidable (sameowner a b) := inferInstanceAs (Decidable (_ ∧ _))

theorem sameowner_iff (a b : Flock) : sameowner a b ↔ a.owner = b.owner := by
  simp [sameowner, Flock.owner]

abbrev Addr := Nat

/-- The union `stat`: `wakeflg` is the same word as `blk.sysid`. -/
structure Stat where
  word : Int
  pid : Int
  deriving DecidableEq, Repr

abbrev Stat.wakeflg (stat : Stat) : Int := stat.word

/-- `stat.blk` of a sleeping lock. -/
def Stat.blk (stat : Stat) : Owner := ⟨stat.pid, stat.word⟩

structure Filock where
  addr : Addr
  set : Flock
  stat : Stat
  deriving DecidableEq, Repr

abbrev addrs (list : List Filock) : List Addr := list.map Filock.addr

/-- `kmem_zalloc` with `KM_NOSLEEP`: no memory, or an address that is neither on
the list at hand nor in use elsewhere. -/
structure Kmem (used : Addr → Prop) where
  zalloc : List Filock → Option Addr
  fresh : ∀ {list : List Filock} {addr : Addr}, zalloc list = some addr → addr ∉ addrs list ∧ ¬ used addr

/-- The nodes from the one at `addr` on. -/
def suffixAt (addr : Addr) : List Filock → Option (List Filock)
  | [] => none
  | node :: rest => if node.addr = addr then some (node :: rest) else suffixAt addr rest

/-- `flp->prev`, given the address of the node before the list. -/
def prevFrom (before : Option Addr) (addr : Addr) : List Filock → Option Addr
  | [] => none
  | node :: rest => if node.addr = addr then before else prevFrom (some node.addr) addr rest

def prev (addr : Addr) (list : List Filock) : Option Addr := prevFrom none addr list

def insertAfter (addr : Addr) (new : Filock) : List Filock → Option (List Filock)
  | [] => none
  | node :: rest =>
      if node.addr = addr then some (node :: new :: rest)
      else (insertAfter addr new rest).map (node :: ·)

/-- `insflck` after the allocation: link `new` behind `fl`, or at the head. -/
def link (new : Filock) (fl : Option Addr) (list : List Filock) : Option (List Filock) :=
  match fl with
  | none => some (new :: list)
  | some addr => insertAfter addr new list

/-- A stray pointer is `none`, a failed allocation `some none`. -/
def insflck {used : Addr → Prop} (kmem : Kmem used) (list : List Filock) (lckdat : Flock)
    (fl : Option Addr) : Option (Option (Addr × List Filock)) :=
  match kmem.zalloc list with
  | none => some none
  | some addr => (link ⟨addr, lckdat, ⟨0, 0⟩⟩ fl list).map fun list => some (addr, list)

/-- Nodes that `WAKEUP` finds marked are reported by address. -/
def wakeup (node : Filock) : List Addr := if node.stat.wakeflg ≠ 0 then [node.addr] else []

/-- Unlink and free the node at `addr`. -/
def delflck (addr : Addr) : List Filock → Option (List Filock × List Addr)
  | [] => none
  | node :: rest =>
      if node.addr = addr then some (rest, wakeup node)
      else (delflck addr rest).map fun (list, woken) => (node :: list, woken)

/-- Assign to the node at `addr`. -/
def assign (addr : Addr) (value : Filock → Filock) : List Filock → Option (List Filock)
  | [] => none
  | node :: rest =>
      if node.addr = addr then some (value node :: rest)
      else (assign addr value rest).map (node :: ·)

/-- The do-while scan that both insertions use: the last node of a run of nodes
that start before `start`, or `last` when there is none. -/
def scanBefore (start : Int) (last : Addr) : List Filock → Addr
  | [] => last
  | node :: rest => if node.set.lStart < start then scanBefore start node.addr rest else last

section
variable {before rest : List Filock} {node : Filock}

theorem suffixAt_append (absent : node.addr ∉ addrs before) :
    suffixAt node.addr (before ++ node :: rest) = some (node :: rest) := by
  induction before with
  | nil => simp [suffixAt]
  | cons head before ih =>
    simp only [addrs, map_cons, mem_cons, not_or] at absent
    simp [suffixAt, Ne.symm absent.1, ih absent.2]

theorem prevFrom_append (first : Option Addr) (absent : node.addr ∉ addrs before) :
    prevFrom first node.addr (before ++ node :: rest) =
      (before.getLast?.map Filock.addr).or first := by
  induction before generalizing first with
  | nil => simp [prevFrom]
  | cons head before ih =>
    simp only [addrs, map_cons, mem_cons, not_or] at absent
    simp only [List.cons_append, prevFrom, Ne.symm absent.1, if_false, ih (some head.addr) absent.2]
    cases before using List.reverseRecOn with
    | nil => simp
    | append_singleton init last => simp [List.getLast?_cons]

theorem prev_append (absent : node.addr ∉ addrs before) :
    prev node.addr (before ++ node :: rest) = before.getLast?.map Filock.addr := by
  simp [prev, prevFrom_append none absent]

theorem insertAfter_append (new : Filock) (absent : node.addr ∉ addrs before) :
    insertAfter node.addr new (before ++ node :: rest) = some (before ++ node :: new :: rest) := by
  induction before with
  | nil => simp [insertAfter]
  | cons head before ih =>
    simp only [addrs, map_cons, mem_cons, not_or] at absent
    simp [insertAfter, Ne.symm absent.1, ih absent.2]

theorem delflck_append (absent : node.addr ∉ addrs before) :
    delflck node.addr (before ++ node :: rest) = some (before ++ rest, wakeup node) := by
  induction before with
  | nil => simp [delflck]
  | cons head before ih =>
    simp only [addrs, map_cons, mem_cons, not_or] at absent
    simp [delflck, Ne.symm absent.1, ih absent.2]

theorem assign_append (value : Filock → Filock) (absent : node.addr ∉ addrs before) :
    assign node.addr value (before ++ node :: rest) = some (before ++ value node :: rest) := by
  induction before with
  | nil => simp [assign]
  | cons head before ih =>
    simp only [addrs, map_cons, mem_cons, not_or] at absent
    simp [assign, Ne.symm absent.1, ih absent.2]

end

section
variable {addr : Addr} {list list' : List Filock}

theorem mem_addrs {node : Filock} (member : node ∈ list) : node.addr ∈ addrs list :=
  List.mem_map_of_mem member

theorem assign_some {value : Filock → Filock} (assigned : assign addr value list = some list') :
    ∃ before node rest, list = before ++ node :: rest ∧ node.addr = addr ∧ addr ∉ addrs before ∧
      list' = before ++ value node :: rest := by
  induction list generalizing list' with
  | nil => simp [assign] at assigned
  | cons head list ih =>
    simp only [assign] at assigned
    split at assigned
    · next here => exact ⟨[], head, list, rfl, here, by simp, by simpa using assigned.symm⟩
    · next other =>
      obtain ⟨tail, found, rfl⟩ := Option.map_eq_some_iff.mp assigned
      obtain ⟨before, node, rest, rfl, same, absent, rfl⟩ := ih found
      refine ⟨head :: before, node, rest, rfl, same, ?_, rfl⟩
      simp only [addrs, map_cons, mem_cons, not_or]
      exact ⟨Ne.symm other, absent⟩

end

end Svr4.RecordLock
