import Mathlib.Logic.Function.Basic
import Svr4.Foundation.Execution

/-! The lock of a BFS file system and its count of operations in progress.

An operation is the tree of what it does with `bsup_ioinprog`, `bsup_fslocked` and the allocation
that may fail. Blocks are not part of it: where the code tests what it has read, or an error, the
tree has two branches. A process may be delayed before every node, so the sleeps in block I/O and
in `kmem_alloc` need no nodes.
-/

namespace Svr4.Bfs.Lock

/-- Where the code calls itself, or goes round a loop. -/
inductive Label where
  | write
  /-- The loop of `bfs_write` that looks for a block for an empty file. -/
  | newblock
  | filetoend
  deriving DecidableEq, Repr

inductive Prog where
  | ret
  | ioBegin (next : Prog)
  | ioEnd (next : Prog)
  | checkLock (next : Prog)
  | lock (next : Prog)
  | unlock (next : Prog)
  /-- `while (bs->bsup_ioinprog > 1) sleep(...)`. -/
  | await (next : Prog)
  | either (first second : Prog)
  /-- `kmem_alloc` with `KM_NOSLEEP`. -/
  | alloc (failed next : Prog)
  | jump (label : Label)
  deriving DecidableEq, Repr

namespace Prog

/-! ## `bfs_subr.c` and `bfs_compact.c` -/

def dotsearch (failed next : Prog) : Prog :=
  ioBegin (checkLock
    -- The ROOT inode cannot be read, or the list of entries.
    (either (ioEnd failed) (either (ioEnd failed) (ioEnd (either failed next)))))

/-- The result is an offset or 0. -/
def searchdir (next : Prog) : Prog := dotsearch next next

def rmdirent (failed next : Prog) : Prog :=
  dotsearch failed (ioBegin (checkLock (either (ioEnd failed) (ioEnd (either failed next)))))

def addirent (failed next : Prog) : Prog :=
  dotsearch failed (either failed
    -- The ROOT inode cannot be read, or there are no more available slots in directory.
    (ioBegin (checkLock (either (ioEnd failed) (either (ioEnd failed) (ioEnd (either failed next)))))))

def compact (next : Prog) : Prog := lock (unlock next)

/-- `bfs_filetoend`. It may compact and call itself, be out of space, or move the file. -/
def filetoend (failed next : Prog) : Prog :=
  lock (await (either (either (compact (unlock (jump .filetoend))) (unlock failed)) (alloc failed (unlock next))))

def truncate (next : Prog) : Prog :=
  ioBegin (either (ioEnd next) (either (ioEnd next) (ioEnd (either next (either (compact next) next)))))

/-! ## `bfs_vnops.c` -/

def getattr : Prog := ioBegin (checkLock (ioEnd ret))

def access (failed next : Prog) : Prog := ioBegin (checkLock (ioEnd (either failed next)))

def setattr : Prog :=
  ioBegin (checkLock (either (ioEnd ret) (either (ioEnd ret) (access (ioEnd ret) (ioEnd ret)))))

/-- `valid`: the offset is not negative and a multiple of the size of an entry. -/
def readdir (valid : Bool) : Prog :=
  if valid then ioBegin (checkLock (ioBegin (either (ioEnd ret) (either (ioEnd ret) (ioEnd ret))))) else ret

def read : Prog := either ret (ioBegin (checkLock (either (ioEnd ret) (either (ioEnd ret) (ioEnd ret)))))

def lookup (failed next : Prog) : Prog := either failed (either next (searchdir (either failed next)))

def remove : Prog :=
  lookup ret (either ret (ioBegin (checkLock
    -- The text is busy, or the inode cannot be read.
    (either (ioEnd ret) (either (ioEnd ret) (rmdirent (ioEnd ret)
      -- There is another link, or the file was the last one.
      (either (ioEnd ret) (either (ioEnd ret) (ioEnd (either (compact ret) ret))))))))))

def create : Prog :=
  either ret (searchdir (either ret (either
    (either ret (access ret (either (truncate ret) ret)))
    (either ret (access ret (ioBegin (checkLock (ioEnd (addirent ret ret)))))))))

/-- From the place where the file has a block. -/
def writeOn : Prog :=
  either (jump .filetoend) (either (either (compact (ioEnd (jump .write))) (ioEnd ret)) (either (ioEnd ret) (ioEnd ret)))

def write : Prog :=
  ioBegin (checkLock
    -- The text is busy, the offset is negative, or the inode is free.
    (either (ioEnd ret) (either (ioEnd ret) (either (ioEnd ret) (either (jump .newblock) writeOn)))))

end Prog

def Label.body : Label → Prog
  | .write => .write
  | .newblock => .either (.either (.compact (.jump .newblock)) (.ioEnd .ret)) .writeOn
  -- `bfs_write` calls itself after moving.
  | .filetoend => .filetoend (.ioEnd .ret) (.ioEnd (.jump .write))

inductive Op where
  | read
  | write
  | readdir (valid : Bool)
  | getattr
  | setattr
  | lookup
  | create
  | remove
  deriving DecidableEq, Repr

def Op.prog : Op → Prog
  | .read => .read
  | .write => .write
  | .readdir valid => .readdir valid
  | .getattr => .getattr
  | .setattr => .setattr
  | .lookup => .lookup .ret .ret
  | .create => .create
  | .remove => .remove

/-! ## Processes -/

inductive Channel where
  | fslocked
  | ioinprog
  deriving DecidableEq, Repr

structure Proc where
  /-- What is left of the operation. -/
  prog : Option Prog
  asleep : Option Channel
  /-- How often the operation has raised `bsup_ioinprog` more than lowered it. -/
  raised : Nat
  /-- The process has set the lock and has not called `bfs_unlock` since. -/
  locks : Bool
  deriving DecidableEq, Repr

def Proc.idle : Proc := ⟨none, none, 0, false⟩

structure System where
  bsupIoinprog : Nat
  bsupFslocked : Bool
  proc : Nat → Proc

namespace System

def setProc (p : Nat) (proc : Proc) (s : System) : System := { s with proc := Function.update s.proc p proc }

def wakeup (channel : Channel) (s : System) : System :=
  { s with proc := fun p => if (s.proc p).asleep = some channel then { s.proc p with asleep := none } else s.proc p }

end System

/-- The next node of process p. `bsup_ioinprog` is a ushort. -/
def node (p : Nat) (first : Bool) (prog : Prog) (s : System) : System :=
  let proc := s.proc p
  match prog with
  | .ret => s.setProc p { proc with prog := none }
  | .ioBegin next =>
    { s with bsupIoinprog := (s.bsupIoinprog + 1) % 65536 }.setProc p { proc with prog := some next, raised := proc.raised + 1 }
  | .ioEnd next =>
    let s := { s with bsupIoinprog := (s.bsupIoinprog + 65535) % 65536 }.setProc p
      { proc with prog := some next, raised := proc.raised - 1 }
    if s.bsupIoinprog = 0 then s.wakeup .ioinprog else s
  | .checkLock next =>
    if s.bsupFslocked then s.setProc p { proc with asleep := some .fslocked }
    else s.setProc p { proc with prog := some next }
  | .lock next => { s with bsupFslocked := true }.setProc p { proc with prog := some next, locks := true }
  | .unlock next =>
    ({ s with bsupFslocked := false }.setProc p { proc with prog := some next, locks := false }).wakeup .fslocked
  | .await next =>
    if 1 < s.bsupIoinprog then s.setProc p { proc with asleep := some .ioinprog }
    else s.setProc p { proc with prog := some next }
  | .either a b => s.setProc p { proc with prog := some (if first then a else b) }
  | .alloc failed next => s.setProc p { proc with prog := some (if first then failed else next) }
  | .jump label => s.setProc p { proc with prog := some label.body }

inductive Event where
  | call (p : Nat) (op : Op)
  /-- The process goes on. -/
  | run (p : Nat) (first : Bool)
  deriving DecidableEq, Repr

def run (event : Event) (s : System) : Option System :=
  match event with
  | .call p op => if (s.proc p).prog = none then some (s.setProc p { s.proc p with prog := some op.prog }) else none
  | .run p first =>
    if (s.proc p).asleep ≠ none then none else (s.proc p).prog.map fun prog => node p first prog s

def Event.proc : Event → Nat
  | .call p _ | .run p _ => p

/-- There are n processes. -/
def Step (n : Nat) (s : System) (event : Event) (t : System) : Prop := event.proc < n ∧ run event s = some t

def start : System := ⟨0, false, fun _ => .idle⟩

end Svr4.Bfs.Lock
