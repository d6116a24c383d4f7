import Svr4.Kernel.AddressSpace.Runs

/-! `as_fault`, which unlocks again what it has locked when the range comes to an end too early. -/

namespace Svr4.As

/-- `enum fault_type`. -/
inductive FaultType where
  | inval | prot | softlock | softunlock
  deriving DecidableEq

/-- `enum seg_rw`. -/
inductive SegRw where
  | other | read | write | exec
  deriving DecidableEq

/-- A call of the fault routine of a segment. -/
structure Fault where
  seg : Nat
  addr : Nat
  size : Nat
  type : FaultType
  rw : SegRw
  deriving DecidableEq

def fcNomap : Nat := 3

/-- The next segment, where one ends at an address or before it. -/
def onto (s : Space) (seg addr : Nat) : Nat := if s.end seg ≤ addr then (s.seg seg).next else seg

section
variable (s : Space) (fault : List Fault → Fault → Nat)

/-- The loop over the range: the result, the address that is reached, and the calls. The answer of a
routine depends on the calls before. -/
def faultFrom (type : FaultType) (rw : SegRw) : Nat → Nat → Nat → Nat → List Fault → Option (Nat × Nat × List Fault)
  | 0, _, _, _, _ => none
  | fuel + 1, seg, raddr, rsize, calls =>
    let beyond := s.end seg ≤ raddr
    let seg := onto s seg raddr
    if beyond ∧ raddr ≠ (s.seg seg).base then some (fcNomap, raddr, calls)
    else
      let ssize := if s.end seg < word (raddr + rsize) then word (s.end seg + 4294967296 - raddr) else rsize
      let call := ⟨seg, raddr, ssize, type, rw⟩
      let res := fault calls call
      if res ≠ 0 then some (res, raddr, calls ++ [call])
      else
        let rsize := word (rsize + 4294967296 - ssize)
        if rsize ≠ 0 then faultFrom type rw fuel seg (word (raddr + ssize)) rsize (calls ++ [call])
        else some (0, word (raddr + ssize), calls ++ [call])

/-- The loop that unlocks; its answers are not looked at. -/
def unlockFrom (raddr : Nat) : Nat → Nat → Nat → List Fault → Option (List Fault)
  | 0, _, _, _ => none
  | fuel + 1, seg, addrsav, calls =>
    if addrsav < raddr then
      let seg := onto s seg addrsav
      let ssize := word ((if s.end seg < raddr then s.end seg else raddr) + 4294967296 - addrsav)
      unlockFrom raddr fuel seg (word (addrsav + ssize)) (calls ++ [⟨seg, addrsav, ssize, .softunlock, .other⟩])
    else some calls

def asFault (type : FaultType) (rw : SegRw) (addr size : Nat) : Option (Nat × List Fault × Space) := do
  let raddr := pageBase addr
  let (found, s) ← asSegat s raddr
  match found with
  | none => some (fcNomap, [], s)
  | some seg =>
    let (res, stop, calls) ← faultFrom s fault type rw (pageSize addr size + 1) seg raddr (pageSize addr size) []
    let calls ← if res ≠ 0 ∧ type = .softlock then unlockFrom s stop (stop + 1) seg raddr calls else some calls
    some (res, calls, s)

end

/-- The routines granted each call. -/
inductive Granted (fault : List Fault → Fault → Nat) : List Fault → Prop where
  | nil : Granted fault []
  | snoc {calls : List Fault} {call : Fault} : Granted fault calls → fault calls call = 0 → Granted fault (calls ++ [call])

/-- A call for a part of a segment. -/
def Inside (s : Space) (list : List Nat) (call : Fault) : Prop :=
  call.seg ∈ list ∧ (s.seg call.seg).base ≤ call.addr ∧ call.addr + call.size ≤ (s.seg call.seg).base + (s.seg call.seg).size

/-- Calls inside their segments, each of which begins where the one before it ends. -/
inductive Spans (s : Space) (list : List Nat) (type : FaultType) (rw : SegRw) : Nat → List Fault → Nat → Prop where
  | nil {a : Nat} : Spans s list type rw a [] a
  | cons {seg a size b : Nat} {calls : List Fault} : Inside s list ⟨seg, a, size, type, rw⟩ →
      Spans s list type rw (a + size) calls b → Spans s list type rw a (⟨seg, a, size, type, rw⟩ :: calls) b

def Fault.undo (call : Fault) : Fault := { call with type := .softunlock, rw := .other }

/-- Calls up to the ends of their segments. -/
inductive Whole (s : Space) (list : List Nat) (type : FaultType) (rw : SegRw) : Nat → Nat → List Fault → Nat → Nat → Prop where
  | nil {p a : Nat} : Whole s list type rw p a [] p a
  | cons {p a b q : Nat} {calls : List Fault} : onto s p a ∈ list → (s.seg (onto s p a)).base ≤ a → a < s.end (onto s p a) →
      Whole s list type rw (onto s p a) (s.end (onto s p a)) calls q b →
      Whole s list type rw p a (⟨onto s p a, a, s.end (onto s p a) - a, type, rw⟩ :: calls) q b

section
variable {s : Space} {fault : List Fault → Fault → Nat} {list : List Nat} {type : FaultType} {rw : SegRw}
  {p q a b raddr rsize fuel size : Nat} {calls done : List Fault}

theorem Whole.le (whole : Whole s list type rw p a calls q b) : a ≤ b := by
  induction whole with
  | nil => exact le_rfl
  | cons _ _ before _ ih => omega

theorem Whole.spans (listed : Listed s list) (whole : Whole s list type rw p a calls q b) : Spans s list type rw a calls b := by
  induction whole with
  | nil => exact .nil
  | @cons p a b q calls there low high _ ih =>
    have ends := listed.end_eq there
    rw [← Nat.add_sub_cancel' high.le] at ih
    refine .cons ⟨there, low, ?_⟩ ih
    dsimp only
    omega

theorem Spans.undone (spans : Spans s list type rw a calls b) : Spans s list .softunlock .other a (calls.map Fault.undo) b := by
  induction spans with
  | nil => exact .nil
  | cons inside _ ih => exact .cons inside ih

theorem Spans.snoc {seg : Nat} (spans : Spans s list type rw a calls b) (inside : Inside s list ⟨seg, b, size, type, rw⟩) :
    Spans s list type rw a (calls ++ [⟨seg, b, size, type, rw⟩]) (b + size) := by
  induction spans with
  | nil => exact .cons inside .nil
  | cons first _ ih => exact .cons first (ih inside)

theorem unlockFrom_eq (listed : Listed s list) (whole : Whole s list type rw p a calls q b) (enough : b - a < fuel) :
    unlockFrom s b fuel p a done = some (done ++ calls.map Fault.undo) := by
  induction whole generalizing fuel done with
  | nil =>
    obtain ⟨fuel, rfl⟩ := Nat.exists_eq_succ_of_ne_zero (Nat.ne_zero_of_lt enough)
    simp [unlockFrom]
  | @cons p a b q calls there low high whole ih =>
    obtain ⟨fuel, rfl⟩ := Nat.exists_eq_succ_of_ne_zero (Nat.ne_zero_of_lt enough)
    have further := whole.le
    have ends := listed.end_eq there
    have below := (listed.valid _ there).below
    unfold uvend at below
    have stop : (if s.end (onto s p a) < b then s.end (onto s p a) else b) = s.end (onto s p a) := by
      split
      · rfl
      · omega
    have part : word (s.end (onto s p a) + 4294967296 - a) = s.end (onto s p a) - a := by
      unfold word
      omega
    have onward : word (a + (s.end (onto s p a) - a)) = s.end (onto s p a) := by
      unfold word
      omega
    simp only [unlockFrom, if_pos (show a < b by omega), stop, part, onward]
    rw [ih (by omega)]
    simp [Fault.undo]

/-- What the loop over the range has done: the calls that went to the ends of their segments, and the last one. -/
theorem faultFrom_eq (listed : Listed s list) (there : p ∈ list) (low : (s.seg p).base ≤ raddr) (high : raddr ≤ s.end p)
    (fits : raddr + rsize < 4294967296) (enough : rsize < fuel) (granted : Granted fault done) :
    ∃ res stop whole tried q, faultFrom s fault type rw fuel p raddr rsize done = some (res, stop, done ++ (whole ++ tried)) ∧
      (∃ mid, Whole s list type rw p raddr whole q mid ∧ Granted fault (done ++ whole) ∧
        (res = 0 ∧ (∃ seg size, tried = [⟨seg, mid, size, type, rw⟩] ∧ Inside s list ⟨seg, mid, size, type, rw⟩ ∧
            mid + size = raddr + rsize ∧ fault (done ++ whole) ⟨seg, mid, size, type, rw⟩ = 0) ∨
          res ≠ 0 ∧ stop = mid ∧ (tried = [] ∧ res = fcNomap ∨
            ∃ seg size, tried = [⟨seg, mid, size, type, rw⟩] ∧ Inside s list ⟨seg, mid, size, type, rw⟩ ∧
              fault (done ++ whole) ⟨seg, mid, size, type, rw⟩ = res))) := by
  induction fuel generalizing p raddr rsize done with
  | zero => exact absurd enough (Nat.not_lt_zero _)
  | succ fuel ih =>
    have there' : onto s p raddr ∈ list := by
      unfold onto
      split
      · exact listed.next_mem there
      · exact there
    have ends := listed.end_eq there'
    have valid := listed.valid _ there'
    have nonempty := valid.nonempty
    simp only [faultFrom]
    by_cases gap : s.end p ≤ raddr ∧ raddr ≠ (s.seg (onto s p raddr)).base
    · rw [if_pos gap]
      exact ⟨fcNomap, raddr, [], [], p, by simp, raddr, .nil, by simpa using granted, .inr ⟨by decide, rfl, .inl ⟨rfl, rfl⟩⟩⟩
    · rw [if_neg gap]
      have inside : (s.seg (onto s p raddr)).base ≤ raddr ∧ raddr < s.end (onto s p raddr) := by
        by_cases beyond : s.end p ≤ raddr
        · have touch : raddr = (s.seg (onto s p raddr)).base := by
            by_contra differ
            exact gap ⟨beyond, differ⟩
          omega
        · have same : onto s p raddr = p := if_neg beyond
          rw [same]
          exact ⟨low, not_le.mp beyond⟩
      obtain ⟨part, size, within, fewer, last⟩ : ∃ part, (if s.end (onto s p raddr) < word (raddr + rsize) then
            word (s.end (onto s p raddr) + 4294967296 - raddr) else rsize) = part ∧
          raddr + part ≤ s.end (onto s p raddr) ∧ part ≤ rsize ∧ (part = rsize ∨ 0 < part ∧ raddr + part = s.end (onto s p raddr)) := by
        refine ⟨_, rfl, ?_⟩
        rw [word_eq fits]
        unfold word
        split
        · omega
        · omega
      have rest : word (rsize + 4294967296 - part) = rsize - part := by
        unfold word
        omega
      have here : Inside s list ⟨onto s p raddr, raddr, part, type, rw⟩ := ⟨there', inside.1, by dsimp only; omega⟩
      simp only [size, rest]
      by_cases refused : fault done ⟨onto s p raddr, raddr, part, type, rw⟩ ≠ 0
      · rw [if_pos refused]
        exact ⟨_, raddr, [], [_], p, rfl, raddr, .nil, by simpa using granted, .inr ⟨refused, rfl, .inr ⟨_, _, rfl, here, by simp⟩⟩⟩
      · rw [if_neg refused]
        have free : fault done ⟨onto s p raddr, raddr, part, type, rw⟩ = 0 := not_not.mp refused
        by_cases all : rsize - part ≠ 0
        · obtain ⟨positive, ended⟩ := last.resolve_left (by omega)
          have onward : word (raddr + part) = s.end (onto s p raddr) := by
            unfold word
            omega
          have whole : part = s.end (onto s p raddr) - raddr := by omega
          have total : s.end (onto s p raddr) + (rsize - part) = raddr + rsize := by omega
          obtain ⟨res, stop, more, tried, q, result, mid, run, granted', outcome⟩ := @ih (onto s p raddr) (s.end (onto s p raddr))
            (rsize - part) _ there' (by omega) le_rfl (by omega) (by omega) (granted.snoc free)
          rw [List.append_assoc, List.singleton_append] at granted' outcome result
          rw [total] at outcome
          rw [if_pos all, onward]
          exact ⟨res, stop, _, tried, q, result, mid, whole ▸ .cons there' inside.1 inside.2 run, granted', outcome⟩
        · rw [if_neg all]
          exact ⟨0, _, [], [_], p, rfl, raddr, .nil, by simpa using granted, .inl ⟨rfl, _, _, rfl, here, by omega, by simpa using free⟩⟩

end

/-- A soft lock that comes to an end too early unlocks exactly the ranges that were granted, call for call, and returns the
error; one that succeeds has locked the whole range. -/
def Undone (s : Space) (fault : List Fault → Fault → Nat) (rw : SegRw) (addr size : Nat) : Prop :=
  ∃ list t res locked tried unlocked stop, Counted t list ∧
    asFault s fault .softlock rw addr size = some (res, locked ++ tried ++ unlocked, t) ∧
    Granted fault locked ∧ Spans t list .softlock rw (pageBase addr) locked stop ∧
    (res = 0 → tried = [] ∧ unlocked = [] ∧ stop = pageEnd addr size) ∧
    (res ≠ 0 → Spans t list .softunlock .other (pageBase addr) unlocked stop ∧ unlocked = locked.map Fault.undo ∧
      (tried = [] ∧ res = fcNomap ∨ ∃ call, tried = [call] ∧ call.type = .softlock ∧ Inside t list call ∧ fault locked call = res))

end Svr4.As
