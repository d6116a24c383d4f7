import Svr4.Foundation.Chain
import Svr4.Foundation.Words
import Svr4.Kernel.Errno

/-! Semaphore sets and the tables of adjust-on-exit values.

Semaphores, headers and undo structures live in tables and are named by their
index; a null pointer is `none`. The first `un_cnt` entries of an undo structure
are a list.
-/

namespace Svr4.Semaphore

open Words

/-- The tunables. The limits on values fit the objects that hold the values: a
`semval` and a `sem_nsems` are ushorts, an `un_aoe` is a short. -/
structure Seminfo where
  semmap : Nat
  semmni : Nat
  semmns : Nat
  semmnu : Nat
  semmsl : Nat
  semopm : Nat
  semume : Nat
  semvmx : Int
  semaem : Int
  nproc : Nat
  semmni_pos : 0 < semmni
  semmnu_pos : 0 < semmnu
  semmsl_fits : semmsl < 65536
  semvmx_fits : 0 ≤ semvmx ∧ semvmx < 65536
  semaem_fits : 0 ≤ semaem ∧ semaem < 32768
  nproc_fits : nproc < 65536

/-- The values of `master.d/sem`, and `NPROC` of `master.d/kernel`. -/
def Seminfo.shipped : Seminfo where
  semmap := 10
  semmni := 10
  semmns := 60
  semmnu := 30
  semmsl := 25
  semopm := 10
  semume := 10
  semvmx := 32767
  semaem := 16384
  nproc := 200
  semmni_pos := by decide
  semmnu_pos := by decide
  semmsl_fits := by decide
  semvmx_fits := by decide
  semaem_fits := by decide
  nproc_fits := by decide

structure Sem where
  semval : Int
  sempid : Int
  semncnt : Int
  semzcnt : Int
  deriving DecidableEq, Repr

/-- One operation; `undo` and `nowait` are `SEM_UNDO` and `IPC_NOWAIT` of `sem_flg`. -/
structure Sembuf where
  semNum : Nat
  semOp : Int
  undo : Bool
  nowait : Bool
  semNum_fits : semNum < 65536
  semOp_fits : FitsShort semOp
  deriving DecidableEq

theorem zeroth_fits : 0 < 65536 := by decide

theorem zero_fits : FitsShort 0 := by decide

theorem one_fits : FitsShort 1 := by decide

theorem minusOne_fits : FitsShort (-1) := by decide

theorem minusThree_fits : FitsShort (-3) := by decide

theorem five_fits : FitsShort 5 := by decide

theorem most_fits : FitsShort 32767 := by decide

theorem minusMost_fits : FitsShort (-32767) := by decide

structure Undo where
  unAoe : Int
  unNum : Nat
  unId : Int
  deriving DecidableEq, Repr

structure SemUndo where
  unNp : Option Nat
  unEnt : List Undo
  deriving DecidableEq, Repr

/-- The slot of a process in the process table, `GET_INDEX(p_pid)`. -/
abbrev Slot := Nat

theorem field_update {Field : Type} (field : Sem → Field) {sem : Nat → Sem} {i j : Nat} {value : Sem}
    (same : field value = field (sem i)) : field (Function.update sem i value j) = field (sem j) := by
  rw [Function.update_apply]
  split
  · next here => rw [same, here]
  · rfl

/-- The semaphores and the undo tables. -/
structure Tables where
  sem : Nat → Sem
  semu : Nat → SemUndo
  semunp : Option Nat
  semfup : Option Nat
  semUndo : Slot → Option Nat

namespace Tables

def setSem (k : Tables) (i : Nat) (value : Sem → Sem) : Tables :=
  { k with sem := Function.update k.sem i (value (k.sem i)) }

def setUndo (k : Tables) (up : Nat) (value : SemUndo → SemUndo) : Tables :=
  { k with semu := Function.update k.semu up (value (k.semu up)) }

/-- The links that thread the chains. -/
abbrev next (k : Tables) (up : Nat) : Option Nat := (k.semu up).unNp

/-- The entries of the process in `slot`. -/
def entries (k : Tables) (slot : Slot) : List Undo :=
  match k.semUndo slot with
  | none => []
  | some up => (k.semu up).unEnt

end Tables

/-- The value that exit will add for a semaphore, zero without an entry. -/
def lookup (id : Int) (num : Nat) : List Undo → Int
  | [] => 0
  | entry :: rest => if entry.unId = id ∧ entry.unNum = num then entry.unAoe else lookup id num rest

def Tables.aoe (k : Tables) (slot : Slot) (id : Int) (num : Nat) : Int := lookup id num (k.entries slot)

/-- A sleep channel: the address of `semncnt` or of `semzcnt` of a semaphore. -/
inductive Chan where
  | ncnt (i : Nat)
  | zcnt (i : Nat)
  deriving DecidableEq, Repr

end Svr4.Semaphore
