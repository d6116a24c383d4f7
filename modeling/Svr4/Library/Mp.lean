import Svr4.Foundation.Positional

/-! Arithmetic on numbers of any length, `libmp`.

An array is the list of the words written to it, the lowest first. A word read before it is
written, a word written behind the end of what `xalloc` gave, and a number that does not fit
its type give no result.
-/

namespace Svr4.Mp

open Function

def long (n : Int) : Option Int := if -2147483648 ≤ n ∧ n < 2147483648 then some n else none

def short (n : Int) : Option Int := if -32768 ≤ n ∧ n < 32768 then some n else none

/-- `x & 0100000`. -/
def bit15 (x : Int) : Bool := x / 32768 % 2 = 1

/-- `x & 077777`. -/
def low15 (x : Int) : Int := x % 32768

/-- The shift by fifteen places of the 3B2, which shifts zeros in. -/
def shift15 (x : Int) : Int := if 0 ≤ x then x / 32768 else (x + 4294967296) / 32768 - 131072

/-- `MINT`: the sign is that of `len`. -/
structure Mint where
  len : Int
  val : List Int
  deriving DecidableEq, Repr

def Mint.neg (a : Mint) : Mint := { a with len := -a.len }

/-- The words are written to an array of `nint` words. -/
def xalloc (nint : Int) (words : List Int) : Option (List Int) := if words.length ≤ nint then some words else none

/-- The words that a number has by its `len`. -/
def Mint.words (a : Mint) : Option (List Int) := if a.len.natAbs ≤ a.val.length then some (a.val.take a.len.natAbs) else none

/-- `_mp_move`. -/
def move (a : Mint) : Option Mint := do
  let words ← a.words
  let val ← xalloc a.len.natAbs words
  some ⟨a.len, val⟩

/-- The place of the highest digit that is not zero, counted from 1. -/
def highest : List Int → Nat
  | [] => 0
  | d :: ds => if highest ds ≠ 0 then highest ds + 1 else if d ≠ 0 then 1 else 0

/-- `_mp_mcan`. -/
def mcan (a : Mint) : Option Mint := do
  if a.len = 0 then some a
  else
    let words ← a.words
    some { a with len := if 0 < a.len then highest words else -highest words }

/-! ## `madd` and `msub` -/

/-- The second loop of `m_add`: the carry goes on. -/
def carryOn : Int → List Int → Option (Int × List Int)
  | carry, [] => some (carry, [])
  | carry, x :: a => do
    let s ← long (carry + x)
    let (carry', d) := if bit15 s then (carry, low15 s) else (0, s)
    let d ← short d
    let (last, ds) ← carryOn carry' a
    some (last, d :: ds)

/-- The loops of `m_add`. -/
def addDigits : Int → List Int → List Int → Option (Int × List Int)
  | carry, a, [] => carryOn carry a
  | _, [], _ :: _ => none
  | carry, x :: a, y :: b => do
    let s ← long (carry + x + y)
    let (carry', d) := if bit15 s then (1, low15 s) else (0, s)
    let d ← short d
    let (last, ds) ← addDigits carry' a b
    some (last, d :: ds)

def mAdd (a b : Mint) : Option Mint := do
  let (carry, ds) ← addDigits 0 (← a.words) (← b.words)
  let cval ← xalloc (a.len + 1) (if carry = 1 then ds ++ [1] else ds)
  some ⟨if carry = 1 then a.len + 1 else a.len, cval⟩

/-- The loops of `m_sub`. -/
def subDigits : Int → List Int → List Int → Option (Int × List Int)
  | borrow, a, [] => carryOn borrow a
  | _, [], _ :: _ => none
  | borrow, x :: a, y :: b => do
    let s ← long (borrow + x - y)
    let (borrow', d) := if bit15 s then (-1, low15 s) else (0, s)
    let d ← short d
    let (last, ds) ← subDigits borrow' a b
    some (last, d :: ds)

/-- `m_sub`; a digit with its fifteen bits turned is the rest to 077777. -/
def mSub (madd : Mint → Mint → Option Mint) (a b : Mint) : Option Mint := do
  let (borrow, ds) ← subDigits 0 (← a.words) (← b.words)
  let cval ← xalloc a.len ds
  let c ← if borrow < 0 then madd ⟨a.len, cval.map (32767 - ·)⟩ ⟨1, [1]⟩ else some ⟨0, cval⟩
  if a.len ≤ c.val.length then
    let i := highest (c.val.take a.len.toNat)
    some { c with len := if i = 0 then c.len else if borrow = 0 then i else -i }
  else none

mutual

/-- What `madd` leaves in its result, with a bound on the depth of its calls. -/
def maddOf : Nat → Mint → Mint → Option Mint
  | 0, _, _ => none
  | depth + 1, a, b => do
    let x ← move a
    let y ← move b
    if 0 ≤ x.len then
      if 0 ≤ y.len then if y.len ≤ x.len then mAdd x y else mAdd y x
      else msubOf depth x y.neg
    else if y.len ≤ 0 then (maddOf depth x.neg y.neg).map Mint.neg
    else msubOf depth y x.neg

def msubOf : Nat → Mint → Mint → Option Mint
  | 0, _, _ => none
  | depth + 1, a, b => do
    let x ← move a
    let y ← move b
    if 0 ≤ x.len then
      if 0 ≤ y.len then
        if y.len ≤ x.len then mSub (fun c one => maddOf depth c one) x y else (msubOf depth y x).map Mint.neg
      else maddOf depth x y.neg
    else if y.len ≤ 0 then msubOf depth y.neg x.neg
    else (maddOf depth x.neg y).map Mint.neg

end

/-- The number of digits without a zero on top: at most one is there. -/
def dropZero (len : Int) (val : List Int) : Option Int :=
  val[(len - 1).toNat]?.map fun top => if top = 0 then len - 1 else len

/-! ## `mult` -/

/-- The first row of `m_mult`: the words are new. -/
def firstRow (bcache : Int) : Int → List Int → Option (List Int)
  | sum, [] => (short sum).map ([·])
  | sum, x :: a => do
    let sum ← long (sum + (← long (x * bcache)))
    let rest ← firstRow bcache (shift15 sum) a
    some (low15 sum :: rest)

/-- Another row, added to the words that are there; its last word is new. -/
def row (bcache : Int) : Int → List Int → List Int → Option (List Int)
  | sum, [], _ => (short sum).map ([·])
  | _, _ :: _, [] => none
  | sum, x :: a, y :: c => do
    let sum ← long (sum + (← long ((← long (x * bcache)) + y)))
    let rest ← row bcache (shift15 sum) a c
    some (low15 sum :: rest)

/-- The rows after the first one, each a word further up. -/
def rows (a : List Int) : List Int → List Int → Option (List Int)
  | [], c => some c
  | _ :: _, [] => none
  | bcache :: b, y :: c => do
    let c ← row bcache 0 a c
    let rest ← rows a b c
    some (y :: rest)

def mMult (a b : Mint) : Option Mint := do
  let aval ← a.words
  match ← b.words with
  | [] => none
  | bcache :: bptr =>
    let first ← firstRow bcache 0 aval
    let val ← xalloc (a.len + b.len) (← rows aval bptr first)
    some ⟨← dropZero (a.len + b.len) val, val⟩

/-- What `mult` leaves in its result. -/
def multOf (a b : Mint) : Option Mint := do
  let a ← mcan a
  let b ← mcan b
  if a.len = 0 ∨ b.len = 0 then return ⟨0, []⟩
  let x ← move a
  let y ← move b
  let x := if a.len < 0 then x.neg else x
  let y := if b.len < 0 then y.neg else y
  let c ← (if x.len < y.len then mMult x y else mMult y x)
  some (if (a.len < 0) = (b.len < 0) then c else c.neg)

/-! ## `mdiv` -/

/-- The loop of `s_div`, from the highest digit down. -/
def sDivDigits (n : Int) : List Int → Option (List Int × Int)
  | [] => some ([], 0)
  | a :: rest => do
    let (q, x) ← sDivDigits n rest
    let x ← long ((← long (x * 32768)) + a)
    let d ← short (Int.tdiv x n)
    some (d :: q, Int.tmod x n)

def sDiv (a : Mint) (n : Int) : Option (Mint × Int) := do
  let (q, x) ← sDivDigits n (← a.words)
  let val ← xalloc a.len q
  let r ← short x
  let len ← (if a.len = 0 then some 0 else dropZero a.len val)
  some (⟨len, val⟩, r)

def sdiv (a : Mint) (n : Int) : Option (Mint × Int) := do
  let flips := (n < 0) ≠ (a.len < 0)
  let n ← short (if n < 0 then -n else n)
  let x := if a.len < 0 then a.neg else a
  let (y, r) ← sDiv x n
  if flips then some (y.neg, ← short (-r)) else some (y, r)

/-- The first loop of `m_dsb`: the digits times `qx` are taken from the words. -/
def dsbTake (qx : Int) : Int → List Int → List Int → Option (List Int × Int)
  | _, _, [] => none
  | borrow, [], top :: rest => do
    let borrow ← long (borrow + top)
    some (low15 borrow :: rest, shift15 borrow)
  | borrow, x :: a, y :: b => do
    let borrow ← long (borrow - (← long ((← long (x * qx)) - y)))
    let (rest, last) ← dsbTake qx (shift15 borrow) a b
    some (low15 borrow :: rest, last)

/-- The second loop of `m_dsb`: the digits are added back, and a carry is left out. -/
def dsbGive : Int → List Int → List Int → Option (List Int)
  | _, [], b => some b
  | _, _ :: _, [] => none
  | borrow, x :: a, y :: b => do
    let borrow ← long (borrow + (x + y))
    let rest ← dsbGive (shift15 borrow) a b
    some (low15 borrow :: rest)

def mDsb (qx : Int) (a b : List Int) : Option (List Int × Bool) := do
  let (b, last) ← dsbTake qx 0 a b
  if last = 0 then some (b, false)
  else
    let b ← dsbGive 0 a b
    some (b, true)

/-- The loop of `m_trq`. -/
def trqLoop (v1 v2 c1 u3 : Int) : Nat → Int → Option Int
  | 0, _ => none
  | fuel + 1, d => do
    let x1 ← long (c1 - (← long (v1 * d)))
    let x1 ← long ((← long ((← long (x1 * 32768)) + u3)) - (← long (v2 * d)))
    let d ← short (d - 1)
    if x1 < 0 then trqLoop v1 v2 c1 u3 fuel d else some (d + 1)

def mTrq (v1 v2 u1 u2 u3 : Int) : Option Int := do
  let c1 ← long ((← long (u1 * 32768)) + u2)
  let d ← (if u1 = v1 then some 32767 else short (Int.tdiv c1 v1))
  trqLoop v1 v2 c1 u3 65536 d

/-- The loop of `m_div`, from place `j - 1` down. -/
def divLoop (v : List Int) (v1 v2 : Int) : Nat → List Int → List Int → Option (List Int × List Int)
  | 0, u, qval => some (u, qval)
  | j + 1, u, qval => do
    let n := v.length
    let qq ← mTrq v1 v2 (← u[j + n]?) (← u[j + n - 1]?) (← u[j + n - 2]?)
    let (b, less) ← mDsb qq v (u.drop j)
    let qq ← short (if less then qq - 1 else qq)
    divLoop v v1 v2 j (u.take j ++ b) (qq :: qval)

/-- `m_div`: the quotient and the remainder. -/
def mDiv (a b : Mint) : Option (Mint × Mint) := do
  let bval ← b.words
  if b.len = 0 then none
  else if b.len = 1 then
    let (q, r) ← sdiv a (← bval[0]?)
    some (q, if r = 0 then ⟨0, []⟩ else ⟨1, [r]⟩)
  else if a.len < b.len then
    let val ← xalloc a.len (← a.words)
    some (⟨0, []⟩, ⟨a.len, val⟩)
  else
    let n := b.len.toNat
    let d ← short (32768 / ((← bval[n - 1]?) + 1))
    let u ← multOf a ⟨1, [d]⟩
    let v ← multOf b ⟨1, [d]⟩
    let vval ← v.words
    let (uval, qval) ← divLoop vval (← vval[n - 1]?) (← vval[n - 2]?) (a.len - n + 1).toNat u.val []
    let qval ← xalloc (a.len - n + 1) qval
    let x ← mcan ⟨n, uval⟩
    let (w, _) ← sdiv x d
    let len ← dropZero (a.len - n + 1) qval
    some (⟨len, qval⟩, w)

def mdivOf (a b : Mint) : Option (Mint × Mint) := do
  let x ← move a
  let y ← move b
  let flips := (a.len < 0) ≠ (b.len < 0)
  let x := if a.len < 0 then x.neg else x
  let y := if b.len < 0 then y.neg else y
  let (q, r) ← mDiv x y
  some (if flips then (q.neg, r.neg) else (q, r))

/-! ## `pow` -/

/-- `mult` and then `mdiv`, of which the remainder is kept. -/
def multMod (a b c : Mint) : Option Mint := do
  let x ← multOf a b
  let (_, d) ← mdivOf x c
  some d

/-- The inner loop of `pow`, with `i` rounds to go. -/
def powBits (a c : Mint) : Nat → Int → Mint → Option Mint
  | 0, _, d => some d
  | i + 1, n, d => do
    let d ← multMod d d c
    let n ← long (n * 2)
    powBits a c i n (← if bit15 n then multMod a d c else some d)

/-- What `pow` leaves in its result: the digits of the exponent are taken from the highest down. -/
def powOf (a b c : Mint) : Option Mint := do
  let a ← move a
  let b ← move b
  let c ← move c
  (if 0 < b.len then b.val else []).foldrM (powBits a c 15) ⟨1, [1]⟩

/-! ## `gcd` -/

/-- The loop of `gcd`, with so many turns at most. -/
def gcdLoop : Nat → Mint → Mint → Option Mint
  | 0, _, _ => none
  | fuel + 1, x, y =>
    if y.len = 0 then move x
    else do
      let (_, z) ← mdivOf x y
      gcdLoop fuel (← move y) (← move z)

def gcdOf (fuel : Nat) (a b : Mint) : Option Mint := do gcdLoop fuel (← move a) (← move b)

/-! ## The routines on the variables of a client -/

section
variable {κ : Type} [DecidableEq κ] (s : κ → Mint)

def madd (a b c : κ) : Option (κ → Mint) := (maddOf 4 (s a) (s b)).map (update s c)

def msub (a b c : κ) : Option (κ → Mint) := (msubOf 4 (s a) (s b)).map (update s c)

/-- `_mp_mcan` of a variable. -/
def canVar (a : κ) : Option (κ → Mint) := (mcan (s a)).map (update s a)

def mult (a b c : κ) : Option (κ → Mint) := do
  let s ← canVar s a
  let s ← canVar s b
  (multOf (s a) (s b)).map (update s c)

def mdiv (a b q r : κ) : Option (κ → Mint) :=
  (mdivOf (s a) (s b)).map fun (x, y) => update (update s q x) r y

def mcmp (a b : κ) : Option (Int × (κ → Mint)) := do
  let s ← canVar s a
  let s ← canVar s b
  if (s a).len ≠ (s b).len then some ((s a).len - (s b).len, s)
  else
    let c ← msubOf 4 (s a) (s b)
    some (c.len, s)

end

end Svr4.Mp
