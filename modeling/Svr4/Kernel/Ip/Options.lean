import Svr4.Foundation.Bytes

/-! Source routes: their options in `ip_dooptions`, `save_rte` and `ip_srcroute`.

The memory is numbered from the header on. Interfaces and routes are given by their answers.
-/

namespace Svr4.Ip.Options

open Function

abbrev Addr := BitVec 32

/-- What the tables of providers and routes answer. -/
structure Net where
  /-- `prov_withaddr` finds a provider. -/
  withaddr : Addr → Bool
  /-- `in_onnetof` finds a provider for the net of the address. -/
  onnetof : Addr → Bool
  /-- The address of the provider that `ip_rtaddr` finds. -/
  rtaddr : Addr → Option Addr

/-- `ip_srcrt`; `ip_nhops` is the number of addresses. -/
structure Srcrt where
  srcopt : List UInt8
  route : List Addr
  deriving DecidableEq

structure Host where
  mem : Memory
  srcrt : Srcrt

def addr (m : Memory) (o : Nat) : Addr := BitVec.ofNat 32 (m.fetch o 4)

def setAddr (m : Memory) (o : Nat) (a : Addr) : Memory := m.store o 4 a.toNat

def ipSrc : Nat := 12

def ipDst : Nat := 16

/-- `off > optlen - sizeof (struct in_addr)`, without signs. -/
def noRoom (off optlen : Nat) : Bool := (optlen + 4294967296 - 4) % 4294967296 < off

/-- `save_rte`. The option has four bytes at least where it is called. -/
def saveRte (option : Nat) (dst : Addr) (s : Host) : Host :=
  let olen := (s.mem (option + 1)).toNat
  if 163 < olen then s
  else
    let hops := (List.range ((olen - 3) / 4)).map fun i => addr s.mem (option + 3 + 4 * i)
    { s with srcrt := ⟨s.mem.bytes option 3, hops ++ [dst]⟩ }

/-- The address goes into the slot, and the pointer behind it. -/
def fill (cp off : Nat) (a : Addr) (m : Memory) : Memory :=
  let m := setAddr m (cp + off) a
  update m (cp + 2) (m (cp + 2) + 4)

/-- `ip_dooptions` for `IPOPT_LSRR`, and for `IPOPT_SSRR`, which is strict. Nothing is left at `bad:`. -/
def sourceRoute (net : Net) (strict : Bool) (cp optlen : Nat) (s : Host) : Option Host :=
  let off := (s.mem (cp + 2)).toNat
  let dst := addr s.mem ipDst
  if off < 4 then none
  -- A loose route that has not come to its next hop is only forwarded.
  else if !net.withaddr dst then if strict then none else some s
  else if noRoom (off - 1) optlen then some (saveRte cp (addr s.mem ipSrc) s)
  else if strict ∧ !net.onnetof dst then none
  else (net.rtaddr dst).map fun out => { s with mem := fill cp (off - 1) out (setAddr s.mem ipDst dst) }

/-- `ip_srcroute`: the first hop, the fields of the option behind a NOP, and the other hops. -/
def ipSrcroute (alloc : Bool) (r : Srcrt) : Option (Addr × List UInt8 × List Addr) :=
  match r.route.reverse with
  | [] => none
  | first :: rest => if alloc then some (first, 1 :: r.srcopt, rest) else none

/-! ## Routes -/

section
variable {net : Net} {strict : Bool} {cp optlen : Nat} {s : Host} {o : Nat} {a src : Addr} {hops : List Addr}

/-- A slot at the pointer, inside an option behind the header. -/
structure Slot (s : Host) (cp optlen : Nat) : Prop where
  behind : 20 ≤ cp
  length : (s.mem (cp + 1)).toNat = optlen
  least : 4 ≤ (s.mem (cp + 2)).toNat
  inside : (s.mem (cp + 2)).toNat + 3 ≤ optlen

/-- The place of the next hop. -/
def slot (s : Host) (cp : Nat) : Nat := cp + ((s.mem (cp + 2)).toNat - 1)

/-- The datagram goes on to the next hop, and the way that it takes is recorded in its slot. -/
def Advances (net : Net) (s : Host) (cp : Nat) (result : Option Host) : Prop :=
  ∃ s' out, result = some s' ∧ net.rtaddr (addr s.mem (slot s cp)) = some out ∧ addr s'.mem ipDst = addr s.mem (slot s cp) ∧
    addr s'.mem (slot s cp) = out ∧ s'.mem (cp + 2) = s.mem (cp + 2) + 4

theorem addr_setAddr {m : Memory} : addr (setAddr m o a) o = a := by
  rw [addr, setAddr, Memory.fetch_store a.isLt, BitVec.ofNat_toNat, BitVec.setWidth_eq]

theorem addr_congr {m m' : Memory} (same : ∀ i < 4, m' (o + i) = m (o + i)) : addr m' o = addr m o :=
  congrArg (BitVec.ofNat 32) (Memory.fetch_congr same)

theorem fill_spec {off : Nat} {a dst : Addr} {m : Memory} (behind : 20 ≤ cp) (least : 3 ≤ off) :
    addr (fill cp off a (setAddr m ipDst dst)) (cp + off) = a ∧ addr (fill cp off a (setAddr m ipDst dst)) ipDst = dst ∧
      fill cp off a (setAddr m ipDst dst) (cp + 2) = m (cp + 2) + 4 := by
  refine ⟨?_, ?_, ?_⟩
  · refine (addr_congr fun i _ => ?_).trans (addr_setAddr (m := setAddr m ipDst dst))
    exact update_of_ne (by omega) _ _
  · refine (addr_congr fun i less => ?_).trans (addr_setAddr (m := m))
    have front : ipDst + i < 20 := Nat.add_lt_add_left less 16
    rw [fill, update_of_ne (by omega)]
    exact Memory.store_of_lt (by omega)
  · have kept : setAddr (setAddr m ipDst dst) (cp + off) a (cp + 2) = m (cp + 2) :=
      (Memory.store_of_lt (by omega)).trans (Memory.store_of_le (Nat.le_add_right_of_le behind))
    rw [fill, update_self, kept]

/-- The next hop is not read from its slot: the datagram advances where the slot holds its address already. -/
theorem sourceRoute_advances (at' : Slot s cp optlen) (ours : net.withaddr (addr s.mem ipDst) = true) :
    Advances net s cp (sourceRoute net strict cp optlen s) ↔
      addr s.mem (slot s cp) = addr s.mem ipDst ∧ (strict = true → net.onnetof (addr s.mem ipDst) = true) ∧
        (net.rtaddr (addr s.mem ipDst)).isSome = true := by
  obtain ⟨behind, length, least, inside⟩ := at'
  have small := (s.mem (cp + 1)).toNat_lt
  have room : noRoom ((s.mem (cp + 2)).toNat - 1) optlen = false := by
    simp only [noRoom, decide_eq_false_iff_not]
    omega
  unfold sourceRoute
  rw [if_neg (by omega), if_neg (by simp [ours]), if_neg (by simp [room])]
  split
  · next away =>
    have away : strict = true ∧ net.onnetof (addr s.mem ipDst) = false := by simpa using away
    constructor
    · rintro ⟨s', out, result, _⟩
      cases result
    · rintro ⟨_, near, _⟩
      exact absurd (near away.1) (by simp [away.2])
  · next near =>
    have near : strict = true → net.onnetof (addr s.mem ipDst) = true := by simpa using near
    cases known : net.rtaddr (addr s.mem ipDst) with
    | none =>
      constructor
      · rintro ⟨s', out, result, _⟩
        cases result
      · rintro ⟨_, _, known⟩
        cases known
    | some out =>
      have third : 3 ≤ (s.mem (cp + 2)).toNat - 1 := by omega
      obtain ⟨filled, dst, pointer⟩ := @fill_spec cp _ out (addr s.mem ipDst) s.mem behind third
      constructor
      · rintro ⟨s', out', result, _, next, _⟩
        cases result
        exact ⟨next.symm.trans dst, near, rfl⟩
      · rintro ⟨same, _⟩
        refine ⟨_, out, rfl, ?_, dst.trans same.symm, filled, pointer⟩
        rw [same]
        exact known

/-- A source route with its addresses. -/
structure Routed (s : Host) (cp : Nat) (hops : List Addr) : Prop where
  length : (s.mem (cp + 1)).toNat = 3 + 4 * hops.length
  short : hops.length ≤ 9
  hops : ∀ i (less : i < hops.length), addr s.mem (cp + 3 + 4 * i) = hops[i]

/-- The way back: the last hop first, then the others, and the source in the end. -/
def Returns (hops : List Addr) (src : Addr) (r : Srcrt) : Prop :=
  ∃ last fields, hops.getLast? = some last ∧ ipSrcroute true r = some (last, fields, hops.dropLast.reverse ++ [src])

theorem saveRte_route (routed : Routed s cp hops) : (saveRte cp src s).srcrt.route = hops ++ [src] := by
  obtain ⟨length, short, each⟩ := routed
  unfold saveRte
  simp only [length]
  rw [if_neg (by omega)]
  refine congrArg (· ++ [src]) (List.ext_getElem (by simp) fun i _ less => ?_)
  simp only [List.getElem_map, List.getElem_range]
  exact each i less

theorem rotated_all {list : List Addr} : a :: list = list ++ [a] ↔ ∀ x ∈ list, x = a := by
  induction list with
  | nil => simp
  | cons x list ih =>
    rw [List.cons_append, List.cons.injEq, List.forall_mem_cons]
    constructor
    · rintro ⟨rfl, rest⟩
      exact ⟨rfl, ih.mp rest⟩
    · rintro ⟨rfl, rest⟩
      exact ⟨rfl, ih.mpr rest⟩

/-- The source is taken for the last hop. -/
theorem srcroute_returns (routed : Routed s cp hops) (some : hops ≠ []) :
    Returns hops src (saveRte cp src s).srcrt ↔ ∀ h ∈ hops, h = src := by
  rcases hops.eq_nil_or_concat with rfl | ⟨front, last, rfl⟩
  · exact absurd rfl some
  · have route : (saveRte cp src s).srcrt.route = front.concat last ++ [src] := saveRte_route routed
    rw [List.concat_eq_append] at route ⊢
    have given : ipSrcroute true (saveRte cp src s).srcrt =
        .some (src, 1 :: (saveRte cp src s).srcrt.srcopt, last :: front.reverse) := by simp [ipSrcroute, route]
    have expected : Returns (front ++ [last]) src (saveRte cp src s).srcrt ↔ src = last ∧ last :: front.reverse = front.reverse ++ [src] := by
      simp only [Returns, given]
      simp
    rw [expected]
    constructor
    · rintro ⟨rfl, rest⟩ h member
      rcases List.mem_append.mp member with front | last
      · exact rotated_all.mp rest h (List.mem_reverse.mpr front)
      · exact List.mem_singleton.mp last
    · intro all
      obtain rfl : last = src := all last (by simp)
      exact ⟨rfl, rotated_all.mpr fun x member => all x (by simp [List.mem_reverse.mp member])⟩

/-- A source route goes on, and back, only where all its hops are the same address. -/
theorem source_routes {src : Addr} {hops : List Addr} {cp' : Nat} {s' : Host} (at' : Slot s cp optlen)
    (ours : net.withaddr (addr s.mem ipDst) = true) (routed : Routed s' cp' hops) (some : hops ≠ []) :
    (Advances net s cp (sourceRoute net strict cp optlen s) ↔
      addr s.mem (slot s cp) = addr s.mem ipDst ∧ (strict = true → net.onnetof (addr s.mem ipDst) = true) ∧
        (net.rtaddr (addr s.mem ipDst)).isSome = true) ∧
      (Returns hops src (saveRte cp' src s').srcrt ↔ ∀ h ∈ hops, h = src) := by
  exact ⟨sourceRoute_advances at' ours, srcroute_returns routed some⟩

end

/-- A header to 10.0.0.1 from 10.0.0.9, and a route of three slots, of which the second comes next. -/
def routeHost (second : List UInt8) : Host :=
  let list := [10, 0, 0, 9, 10, 0, 0, 1, 131, 15, 8, 10, 0, 0, 7] ++ second ++ [10, 0, 0, 3]
  ⟨Memory.put (fun _ => 0) 12 list list.length, ⟨[], []⟩⟩

/-- Every address is near, on one interface. -/
def nearNet : Net := ⟨fun _ => true, fun _ => true, fun _ => some 7⟩

theorem routeHost_slot : Slot (routeHost [10, 0, 0, 1]) 20 15 ∧ Slot (routeHost [10, 0, 0, 2]) 20 15 :=
  ⟨⟨by decide, by decide, by decide, by decide⟩, ⟨by decide, by decide, by decide, by decide⟩⟩

theorem source_routes_same : Advances nearNet (routeHost [10, 0, 0, 1]) 20 (sourceRoute nearNet false 20 15 (routeHost [10, 0, 0, 1])) := by
  have routed : Routed (routeHost [10, 0, 0, 1]) 20 [167772167, 167772161, 167772163] := ⟨by decide, by decide, by decide⟩
  exact (@source_routes nearNet false 20 15 _ 0 _ _ _ routeHost_slot.1 rfl routed nofun).1.mpr (by decide)

/-- The datagram stays where it is, and the way back begins with its source. -/
theorem hop_lost : ¬ Advances nearNet (routeHost [10, 0, 0, 2]) 20 (sourceRoute nearNet false 20 15 (routeHost [10, 0, 0, 2])) ∧
    ¬ Returns [167772167, 167772162, 167772163] 167772169 (saveRte 20 167772169 (routeHost [10, 0, 0, 2])).srcrt := by
  have routed : Routed (routeHost [10, 0, 0, 2]) 20 [167772167, 167772162, 167772163] := ⟨by decide, by decide, by decide⟩
  constructor
  · rw [sourceRoute_advances routeHost_slot.2 rfl]
    exact fun advances => absurd advances.1 (by decide)
  · rw [srcroute_returns routed nofun]
    exact fun all => absurd (all 167772162 (by simp)) (by decide)

end Svr4.Ip.Options
