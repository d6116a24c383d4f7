import Mathlib.Data.BitVec

/-! Domain names in a resolver message: expansion, compression against the
names before, and skipping. A position is an offset from the start of the
message; a text is the C string without its terminator. -/

namespace Svr4.Domain

abbrev Byte := BitVec 8

def INDIR_MASK : Byte := 0xc0
def MAXLABEL : Nat := 63
def dot : Byte := 0x2e
def backslash : Byte := 0x5c

/-- The offset that two bytes of indirection stand for. -/
def indirection (n low : Byte) : Nat := (n &&& 0x3f).toNat * 2 ^ 8 + low.toNat

section Expand

variable (msg : Nat → Byte) (eomorig eom : Nat)

/-- The n bytes of a label. The text so far is dn, and a dot gets a backslash. -/
def expandLabel : Nat → Nat → List Byte → Option (Nat × List Byte)
  | 0, cp, dn => some (cp, dn)
  | n + 1, cp, dn =>
    if msg cp = dot ∧ eom ≤ dn.length + n + 1 then none
    else if eomorig ≤ cp + 1 then none
    else expandLabel n (cp + 1) (dn ++ if msg cp = dot then [backslash, dot] else [msg cp])

/-- The dot between two labels. -/
def expandDot (dn : List Byte) : Option (List Byte) :=
  if dn = [] then some dn
  else if eom ≤ dn.length then none
  else some (dn ++ [dot])

def expandLoop (comp_dn : Nat) : Nat → Nat → List Byte → Nat → Option Nat →
    Option (Nat × List Byte)
  | 0, _, _, _, _ => none
  | fuel + 1, cp, dn, checked, len =>
    let n := msg cp
    if n = 0 then some (len.getD (cp + 1 - comp_dn), dn)
    else if n &&& INDIR_MASK = 0 then do
      let dn ← expandDot eom dn
      if eom ≤ dn.length + n.toNat then none
      let (cp, dn) ← expandLabel msg eomorig eom n.toNat (cp + 1) dn
      expandLoop comp_dn fuel cp dn (checked + n.toNat + 1) len
    else if n &&& INDIR_MASK = INDIR_MASK then
      let len := len.getD (cp + 1 - comp_dn + 1)
      let cp := indirection n (msg (cp + 1))
      if eomorig ≤ cp then none
      else if eomorig ≤ checked + 2 then none
      else expandLoop comp_dn fuel cp dn (checked + 2) (some len)
    else none

end Expand

/-- The length of the compressed name and the text, or none for -1. Every turn
but the last adds two to checked or passes a label, so the fuel is enough. -/
def dnExpand (msg : Nat → Byte) (eomorig comp_dn length : Nat) : Option (Nat × List Byte) :=
  expandLoop msg eomorig (length - 1) comp_dn (eomorig + 2) comp_dn [] 0 none

def skipLoop (msg : Nat → Byte) (eom : Nat) : Nat → Nat → Option Nat
  | 0, cp => some cp
  | fuel + 1, cp =>
    if eom ≤ cp then some cp
    else if msg cp = 0 then some (cp + 1)
    else if msg cp &&& INDIR_MASK = 0 then skipLoop msg eom fuel (cp + 1 + (msg cp).toNat)
    else if msg cp &&& INDIR_MASK = INDIR_MASK then some (cp + 2)
    else none

/-- Every turn passes a byte, so the fuel is enough. -/
def dnSkipname (msg : Nat → Byte) (comp_dn eom : Nat) : Option Nat :=
  (skipLoop msg eom eom comp_dn).map (· - comp_dn)

/-- One label of the message against the text; a backslash of the text is
passed over, and the byte after it compared. -/
def matchLabel (msg : Nat → Byte) : Nat → List Byte → Nat → Option (List Byte × Nat)
  | 0, dn, cp => some (dn, cp)
  | n + 1, dn, cp =>
    let dn := if dn.head? = some backslash then dn.tail else dn
    if dn.headD 0 = msg cp then matchLabel msg n dn.tail (cp + 1) else none

inductive Match where
  | found
  | next
  | illegal
  deriving DecidableEq, Repr

/-- One saved name against the text, or none when the indirections go round. -/
def matchName (msg : Nat → Byte) : Nat → List Byte → Nat → Option Match
  | 0, _, _ => none
  | fuel + 1, dn, cp =>
    let n := msg cp
    if n = 0 then some (if dn = [] then .found else .next)
    else if n &&& INDIR_MASK = 0 then
      match matchLabel msg n.toNat dn (cp + 1) with
      | none => some .next
      | some (dn, cp) =>
        if dn = [] ∧ msg cp = 0 then some .found
        else if dn.head? = some dot then matchName msg fuel dn.tail cp
        else some .next
    else if n &&& INDIR_MASK = INDIR_MASK then
      matchName msg fuel dn (indirection n (msg (cp + 1)))
    else some .illegal

/-- The first saved name that the text matches. A name within a message that
offsets reach takes fewer turns than the fuel; none is a search without end. -/
def dnFind (msg : Nat → Byte) (dn : List Byte) : List Nat → Option (Option Nat)
  | [] => some none
  | sp :: dnptrs =>
    match matchName msg 0x4000 dn sp with
    | none => none
    | some .found => some (some sp)
    | some .illegal => some none
    | some .next => dnFind msg dn dnptrs

/-- What dn_comp changes. -/
structure Work where
  msg : Nat → Byte
  cp : Nat
  dnptrs : List Nat

def Work.put (c : Byte) (w : Work) : Work :=
  { w with msg := Function.update w.msg w.cp c, cp := w.cp + 1 }

/-- The bytes of a label, up to a dot or the end of the text, which is what is
left of it. -/
def copyLabel (eob : Nat) : List Byte → Work → Work × Option (List Byte)
  | [], w => (w, some [])
  | c :: dn, w =>
    if c = dot then (w, some dn)
    else if c = backslash then
      match dn with
      | [] => (w, some [])
      | c :: dn => if eob ≤ w.cp then (w, none) else copyLabel eob dn (w.put c)
    else if eob ≤ w.cp then (w, none)
    else copyLabel eob dn (w.put c)

def compEnd (eob : Nat) (w : Work) : Work × Bool :=
  if eob ≤ w.cp then (w, false) else (w.put 0, true)

def compIndirect (eob l : Nat) (w : Work) : Work × Bool :=
  if eob ≤ w.cp + 1 then (w, false)
  else ((w.put (BitVec.ofNat 8 (l / 2 ^ 8) ||| INDIR_MASK)).put (BitVec.ofNat 8 (l % 2 ^ 8)), true)

/-- The place of a label goes into dnptrs if there is a list to update with room
for it and for the NULL behind it. -/
def Work.save (lastdnptr : Option Nat) (w : Work) : Work :=
  match lastdnptr with
  | none => w
  | some last => if w.dnptrs.length + 1 < last - 1 then { w with dnptrs := w.dnptrs ++ [w.cp] } else w

/-- The labels of dn from cp on, looked up first among the names that were
saved before the call. -/
def compLoop (eob : Nat) (lastdnptr : Option Nat) (search : List Nat) :
    Nat → List Byte → Work → Option (Work × Bool)
  | 0, _, _ => none
  | fuel + 1, dn, w =>
    if dn = [] then some (compEnd eob w)
    else
      match dnFind w.msg dn search with
      | none => none
      | some (some l) => some (compIndirect eob l w)
      | some none =>
        let w := w.save lastdnptr
        match copyLabel eob dn { w with cp := w.cp + 1 } with
        | (w', none) => some (w', false)
        | (w', some dn) =>
          let l := w'.cp - w.cp - 1
          if l = 0 ∧ dn = [] then some (compEnd eob { w' with cp := w.cp })
          else if l = 0 ∨ MAXLABEL < l then some (w', false)
          else compLoop eob lastdnptr search fuel dn
            { w' with msg := Function.update w'.msg w.cp (BitVec.ofNat 8 l) }

/-- dn_comp with a list of names: dnptrs are its offsets behind the first, and
lastdnptr the size of the array. The answer is the length or none for -1; there
is no answer when a search has no end. Every turn takes a byte of the text. -/
def dnComp (exp_dn : List Byte) (comp_dn length : Nat) (lastdnptr : Option Nat)
    (msg : Nat → Byte) (dnptrs : List Nat) : Option (Work × Option Nat) :=
  (compLoop (comp_dn + length) lastdnptr dnptrs (exp_dn.length + 1) exp_dn
    ⟨msg, comp_dn, dnptrs⟩).map
    fun (w, stat) => (w, if stat then some (w.cp - comp_dn) else none)

end Svr4.Domain
