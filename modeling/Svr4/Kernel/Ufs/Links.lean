import Mathlib.Logic.Function.Basic
import Svr4.Foundation.Execution

/-! The operations on the directories of a UFS file system, and the link counts.

A directory is the list of its entries. An operation may fail at each place where it calls
another function. A write that fails leaves the new contents in the page, which stays dirty
(`pvn_done`). `ufs_iupdat` and a failing `ufs_itrunc` are not seen by the callers.
-/

namespace Svr4.Ufs.Links

abbrev Name := List Nat

/-- "." -/
def dot : Name := [46]

/-- ".." -/
def dotdot : Name := [46, 46]

abbrev Entry := Name × Nat

structure Inode where
  used : Bool
  isDir : Bool
  nlink : Int
  entries : List Entry
  deriving DecidableEq, Repr

abbrev Inodes := Nat → Inode

inductive Error where
  | eperm | enoent | eacces | ebusy | eexist | exdev | enotdir | eisdir | einval | etxtbsy | emlink | esame
  /-- The error of a function that is called. -/
  | called
  deriving DecidableEq, Repr

/-- The place at which an operation fails. -/
inductive Fault where
  | exec | checkpath | search | writeAccess | ialloc | bmap | templateRead | templateWrite | prepare | device
  | dotdotRead | dotdotWrite | entryWrite | sticky | mounted | targetAccess | emptyRead | current | notSuper | text
  deriving DecidableEq, Repr

/-- `i_nlink` is a short. -/
def short (x : Int) : Int := (x + 32768) % 65536 - 32768

def set (i : Nat) (value : Inode → Inode) (s : Inodes) : Inodes := Function.update s i (value (s i))

def addLink (i : Nat) (k : Int) (s : Inodes) : Inodes := set i (fun ip => { ip with nlink := short (ip.nlink + k) }) s

def setEntries (i : Nat) (entries : List Entry) (s : Inodes) : Inodes := set i (fun ip => { ip with entries := entries }) s

/-- The link count is cleared and the last reference given up. -/
def throwAway (i : Nat) (s : Inodes) : Inodes := set i (fun _ => ⟨false, false, 0, []⟩) s

/-! ## Directories -/

/-- `ufs_dircheckforname`. -/
def checkForName (name : Name) (entries : List Entry) : Option Nat := (entries.find? fun e => e.1 = name).map Prod.snd

def rewrite (name : Name) (ino : Nat) : List Entry → List Entry
  | [] => []
  | e :: rest => if e.1 = name then (name, ino) :: rest else e :: rewrite name ino rest

/-- A read that fails is taken as an entry. -/
def dirempty (parentino : Nat) (fault : Option Fault) (entries : List Entry) : Bool :=
  fault ≠ some .emptyRead && entries.all fun e => e.1 = dot || e.1 = dotdot && e.2 = parentino

/-- Fix the ".." entry of the child directory. -/
def dirfixdotdot (dp : Nat) (opdp : Option Nat) (npdp : Nat) (fault : Option Fault) (s : Inodes) : Option Error × Inodes :=
  if (s dp).nlink = 0 ∨ (s dp).entries = [] then (none, s)
  else if fault = some .dotdotRead then (some .called, s)
  else
    match (s dp).entries with
    | first :: (name, ino) :: rest =>
      if ino = npdp then (none, s)
      else if name ≠ dotdot then (some .enotdir, s)
      else
        let s := setEntries dp (first :: (dotdot, npdp) :: rest) (addLink npdp 1 s)
        if fault = some .dotdotWrite then (some .called, s)
        else
          match opdp with
          | some old => if (s old).nlink ≠ 0 then (none, addLink old (-1) s) else (none, s)
          | none => (none, s)
    | _ => (some .enotdir, s)

/-- Rename the entry in the directory tdp so that it points to sip instead of tip. A panic gives no result. -/
def dirrename (sdp sip tdp : Nat) (name : Name) (tip : Nat) (fault : Option Fault) (s : Inodes) : Option (Option Error × Inodes) :=
  let doingdirectory := (s sip).isDir
  if fault = some .device then some (some .exdev, s)
  else if sip = tip then some (some .esame, s)
  else if fault = some .writeAccess ∨ fault = some .sticky then some (some .called, s)
  else if (s tip).isDir ∧ ¬ doingdirectory then some (some .eisdir, s)
  else if (s tip).isDir ∧ fault = some .mounted then some (some .ebusy, s)
  else if (s tip).isDir ∧ fault = some .targetAccess then some (some .called, s)
  else if (s tip).isDir ∧ (¬ dirempty tdp fault (s tip).entries ∨ 2 < (s tip).nlink) then some (some .eexist, s)
  else if ¬ (s tip).isDir ∧ doingdirectory then some (some .enotdir, s)
  else
    let s := setEntries tdp (rewrite name sip (s tdp).entries) s
    if fault = some .entryWrite then some (some .called, s)
    else
      let s := addLink tip (-1) s
      if doingdirectory then
        let s := addLink tip (-1) s
        if (s tip).nlink ≠ 0 then none
        else
          let s := addLink tdp (-1) (setEntries tip [] s)
          if sdp ≠ tdp then some (dirfixdotdot sip (some sdp) tdp fault s) else some (none, s)
      else some (none, s)

/-- Enter the file sip in the directory tdp. -/
def diraddentry (tdp : Nat) (name : Name) (sip : Nat) (sdp : Option Nat) (fault : Option Fault) (s : Inodes) : Option Error × Inodes :=
  if fault = some .prepare then (some .called, s)
  else if fault = some .device then (some .exdev, s)
  else
    let (error, s) := if (s sip).isDir then dirfixdotdot sip sdp tdp fault s else (none, s)
    match error with
    | some error => (some error, s)
    | none =>
      let s := setEntries tdp ((s tdp).entries ++ [(name, sip)]) s
      if fault = some .entryWrite then (some .called, s) else (none, s)

/-- Write a prototype directory into the empty inode ip, whose parent is dp. -/
def dirmakedirect (ip dp : Nat) (fault : Option Fault) (s : Inodes) : Option Error × Inodes :=
  if fault = some .bmap then (some .called, s)
  else
    let s := addLink dp 1 s
    if fault = some .templateRead then (some .called, s)
    else
      let s := setEntries ip [(dot, ip), (dotdot, dp)] s
      if fault = some .templateWrite then (some .called, s) else (none, s)

/-- `ip` is the inode that `ufs_ialloc` gives. -/
def dirmakeinode (tdp ip : Nat) (mkdir : Bool) (fault : Option Fault) (s : Inodes) : Option Error × Inodes :=
  if fault = some .ialloc then (some .called, s)
  else
    let s := set ip (fun _ => ⟨true, mkdir, if mkdir then 2 else 1, []⟩) s
    let (error, s) := if mkdir then dirmakedirect ip tdp fault s else (none, s)
    match error with
    | some error => (some error, throwAway ip s)
    | none => (none, s)

/-! ## `ufs_direnter` -/

/-- `enum de_op`, with the inodes that come with it. -/
inductive DeOp where
  | create (ip : Nat)
  | mkdir (ip : Nat)
  | link (sip : Nat)
  | rename (sdp sip : Nat)
  deriving DecidableEq, Repr

def DeOp.source : DeOp → Option Nat
  | .link sip | .rename _ sip => some sip
  | .create _ | .mkdir _ => none

def maxlink : Int := 1000

/-- Make new inode and directory entry as required. -/
def makeEntry (tdp : Nat) (name : Name) (ip : Nat) (mkdir : Bool) (fault : Option Fault) (s : Inodes) : Option Error × Inodes :=
  let (error, s) := dirmakeinode tdp ip mkdir fault s
  match error with
  | some error => (some error, s)
  | none =>
    let (error, s) := diraddentry tdp name ip none fault s
    match error with
    | some error =>
      -- Unmake the inode we just made.
      (some error, throwAway ip (if (s ip).isDir then addLink tdp (-1) s else s))
    | none => (none, s)

/-- With the target directory locked. The rest of `ufs_dircheckpath` is an error of its own. -/
def direnterLocked (tdp : Nat) (name : Name) (op : DeOp) (fault : Option Fault) (s : Inodes) : Option (Option Error × Inodes) :=
  if (s tdp).nlink = 0 then some (some .enoent, s)
  else if ¬ (s tdp).isDir then some (some .enotdir, s)
  else if fault = some .exec then some (some .called, s)
  else
    let path : Bool := match op with
      | .rename sdp sip => decide ((s sip).isDir ∧ sdp ≠ tdp ∧ (sip = tdp ∨ fault = some Fault.checkpath))
      | _ => false
    if path then some (some .called, s)
    else if fault = some .search then some (some .called, s)
    else
      match checkForName name (s tdp).entries with
      | some tip =>
        match op with
        | .create _ | .mkdir _ | .link _ => some (some .eexist, s)
        | .rename sdp sip => dirrename sdp sip tdp name tip fault s
      | none =>
        if fault = some .writeAccess then some (some .called, s)
        else
          match op with
          | .create ip => some (makeEntry tdp name ip false fault s)
          | .mkdir ip => some (makeEntry tdp name ip true fault s)
          | .link sip => some (diraddentry tdp name sip none fault s)
          | .rename sdp sip => some (diraddentry tdp name sip (some sdp) fault s)

def direnter (tdp : Nat) (name : Name) (op : DeOp) (fault : Option Fault) (s : Inodes) : Option (Option Error × Inodes) :=
  -- Don't allow '/' characters in pathname component.
  if 47 ∈ name then some (some .eacces, s)
  else if name = dot ∨ name = dotdot then
    match op with
    | .rename _ _ => some (some .einval, s)
    | _ => some (some .eexist, s)
  else
    match op.source with
    | none => direnterLocked tdp name op fault s
    | some sip =>
      if (s sip).nlink = 0 then some (some .enoent, s)
      else if (s sip).nlink = maxlink then some (some .emlink, s)
      else do
        let (error, s) ← direnterLocked tdp name op fault (addLink sip 1 s)
        -- Undo bumped link count.
        return (error, if error = none then s else addLink sip (-1) s)

/-! ## `ufs_dirremove` -/

/-- `enum dr_op`. -/
inductive DrOp where
  | remove
  | rmdir
  | rename
  deriving DecidableEq, Repr

/-- From the search on. -/
def removeEntry (dp : Nat) (name : Name) (ip : Nat) (op : DrOp) (fault : Option Fault) (s : Inodes) : Option Error × Inodes :=
  if fault = some .mounted then (some .ebusy, s)
  else if fault = some .sticky then (some .called, s)
  else if op = .rmdir ∧ (dp = ip ∨ fault = some .current) then (some .einval, s)
  else if op = .rmdir ∧ ¬ (s ip).isDir then (some .enotdir, s)
  else if op = .rmdir ∧ ((s ip).nlink ≠ 2 ∨ ¬ dirempty dp fault (s ip).entries) then (some .eexist, s)
  else if op = .remove ∧ (s ip).isDir ∧ fault = some .notSuper then (some .eperm, s)
  else if op = .remove ∧ fault = some .text ∧ (s ip).nlink = 1 then (some .etxtbsy, s)
  else
    let s := setEntries dp ((s dp).entries.eraseP fun e => e.1 = name) s
    if fault = some .entryWrite then (some .called, s)
    else if 0 < (s ip).nlink then
      if op = .rmdir ∧ (s ip).isDir then (none, setEntries ip [] (addLink dp (-1) (addLink ip (-2) s)))
      else (none, addLink ip (-1) s)
    else (none, s)

def dirremove (dp : Nat) (name : Name) (oip : Option Nat) (op : DrOp) (fault : Option Fault) (s : Inodes) : Option Error × Inodes :=
  if name = dot then (some .einval, s)
  else if name = dotdot then (some .eexist, s)
  else if ¬ (s dp).isDir then (some .enotdir, s)
  else if fault = some .exec then (some .called, s)
  else if fault = some .search then (some .called, s)
  else
    match checkForName name (s dp).entries with
    | none => (some .enoent, s)
    | some ip => if oip ≠ none ∧ oip ≠ some ip then (some .enoent, s) else removeEntry dp name ip op fault s

/-! ## Systems -/

inductive Event where
  | direnter (tdp : Nat) (name : Name) (op : DeOp) (fault : Option Fault)
  | dirremove (dp : Nat) (name : Name) (oip : Option Nat) (op : DrOp) (fault : Option Fault)
  /-- The last reference to an inode without links is given up. -/
  | inactive (ip : Nat)
  deriving DecidableEq, Repr

/-- The inodes of a call are in use, except for one that is made. -/
def DeOp.Given (n : Nat) (s : Inodes) : DeOp → Prop
  | .create ip | .mkdir ip => ip < n ∧ (s ip).used = false
  | .link sip => sip < n ∧ (s sip).used = true
  | .rename sdp sip => (sdp < n ∧ (s sdp).used = true) ∧ sip < n ∧ (s sip).used = true

def Step (n : Nat) (s : Inodes) (event : Event) (t : Inodes) : Prop :=
  match event with
  | .direnter tdp name op fault =>
    (tdp < n ∧ (s tdp).used = true) ∧ op.Given n s ∧ ∃ error, direnter tdp name op fault s = some (error, t)
  | .dirremove dp name oip op fault => (dp < n ∧ (s dp).used = true) ∧ ∃ error, dirremove dp name oip op fault s = (error, t)
  | .inactive ip => ((s ip).used = true ∧ (s ip).nlink = 0) ∧ t = throwAway ip s

end Svr4.Ufs.Links
