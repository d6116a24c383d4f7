import Svr4.Kernel.Ip.Partition

/-! Which datagrams `ip_output` reports to the user who sent them, and what `tcp_uderr` does with a report.

The providers and routes are given by their answers; the options are inserted already.
-/

namespace Svr4.Ip

structure Provider where
  maxtu : Nat
  broadcast : Bool
  /-- `canput` of its queue. -/
  canput : Bool

/-- A `rtentry`; it has a gateway when it leads to a gateway or a host. -/
structure Route where
  up : Bool
  prov : Option Provider
  gateway : Option (BitVec 32)

inductive Rtalloc where
  | answer (route : Option Route)
  | defer

structure Tables where
  ouraddr : BitVec 32 → Bool
  loopback : Option Provider
  withdstaddr : BitVec 32 → Option Provider
  onnetof : BitVec 32 → Option Provider
  rtalloc : BitVec 32 → Rtalloc
  inBroadcast : BitVec 32 → Bool

/-- `struct ip_unitdata_req`. -/
structure Request where
  roRt : Option Route
  roDst : BitVec 32
  routetoif : Bool
  allowbroadcast : Bool

inductive Way where
  | deferred
  | unreachable
  | goes (prov : Provider) (dst : BitVec 32)

def via (dst : BitVec 32) (route : Option Route) : Way :=
  match route with
  | none => .unreachable
  | some r => match r.prov with
    | none => .unreachable
    | some prov => .goes prov (r.gateway.getD dst)

/-- The first part of `ip_output`. A cached route is kept only for the same destination. -/
def findWay (net : Tables) (req : Request) (dst : BitVec 32) : Way :=
  match if net.ouraddr dst then net.loopback else none with
  | some prov => .goes prov dst
  | none =>
    if req.routetoif then
      match (net.withdstaddr dst).or (net.onnetof dst) with
      | none => .unreachable
      | some prov => .goes prov dst
    else
      match req.roRt.filter fun r => r.up && req.roDst == dst with
      | some r => via dst (some r)
      | none => match net.rtalloc dst with
        | .defer => .deferred
        | .answer route => via dst route

/-- What is returned, what is handed to the interface, and the `ERROR_type` that is sent up. -/
structure Outcome where
  error : Option Errno
  handed : List Fragment
  uderror : Option (Option Errno)

/-- The label `bad:`, where `ip_snduderr` needs a block. -/
def bad (given : Bool) (error : Option Errno) (handed : List Fragment) : Outcome :=
  ⟨error, handed, if given then some error else none⟩

/-- `ip_output` without `IP_FORWARDING`. A failing `pullupmsg` is like a failing first allocation of the loop. -/
def ipOutputUser (net : Tables) (req : Request) (d : Datagram) (alloc : List Bool) (given : Bool) : Option Outcome :=
  match findWay net req d.ip.dst with
  | .deferred => some ⟨none, [], none⟩
  | .unreachable => some (bad given (some .enetunreach) [])
  | .goes prov dst =>
    -- The source quench leaves the error at zero.
    if !prov.canput then some (bad given none [])
    else if net.inBroadcast dst ∧ !prov.broadcast then some (bad given (some .eaddrnotavail) [])
    else if net.inBroadcast dst ∧ !req.allowbroadcast then some (bad given (some .eacces) [])
    else if net.inBroadcast dst ∧ prov.maxtu < d.ip.len then some (bad given (some .emsgsize) [])
    else if d.ip.len ≤ prov.maxtu then some ⟨none, [whole d], none⟩
    -- The loop falls through to the label.
    else (ipOutput prov.maxtu d alloc).map fun sent => bad given sent.2 sent.1

/-- The connections that `tcp_uderr` disconnects, each given by its `inp_faddr`. -/
def tcpUderr (error : Option Errno) (dst : BitVec 32) (pcbs : List (BitVec 32)) : List (BitVec 32) :=
  if error = some .enosr then [] else pcbs.filter (· == dst)

def Outcome.disconnected (o : Outcome) (dst : BitVec 32) (pcbs : List (BitVec 32)) : List (BitVec 32) :=
  match o.uderror with
  | none => []
  | some error => tcpUderr error dst pcbs

/-! ## Errors -/

/-- The datagram is put off for dialing, or turned back with a source quench. -/
def Stopped (way : Way) : Prop := way = .deferred ∨ ∃ prov dst, way = .goes prov dst ∧ prov.canput = false

/-- No provider on the way that needs fragments. -/
def Fits (way : Way) (len : Nat) : Prop := ∀ prov dst, way = .goes prov dst → len ≤ prov.maxtu

def Fragment.carries (f : Fragment) : Nat := f.ip.len - f.ip.bytes

/-- Fragments are handed that carry all the data. -/
def Handed (d : Datagram) (fs : List Fragment) : Prop :=
  fs ≠ [] ∧ (fs.map Fragment.carries).sum = d.ip.len - d.ip.bytes

section
variable {d : Datagram} {net : Tables} {req : Request} {alloc : List Bool} {given : Bool} {total len off fuel : Nat}
  {fs : List Fragment} {error : Option Errno}

theorem fragment_carries {options : List UInt8} {blocks : List Block} (least : 5 ≤ d.ip.hl)
    (made : optionsFor d off = some options) :
    Fragment.carries ⟨fragHeader d.ip options total off len, options, blocks⟩ = if total ≤ off + len then total - off else len := by
  unfold optionsFor at made
  split at made <;> rename_i large
  · obtain ⟨copied, _, rfl⟩ := Option.map_eq_some_iff.mp made
    have words := (padded_length copied).1
    simp only [Fragment.carries, fragHeader, if_pos large]
    simp only [Header.bytes, sizeofIp]
    omega
  · obtain rfl : [] = options := Option.some.inj made
    simp only [Fragment.carries, fragHeader, if_neg large]
    simp only [Header.bytes, sizeofIp] at large ⊢
    simp only [List.length_nil]
    omega

/-- The loop stops with an error in front of the end of the data, and without one behind it. -/
theorem sendFragments_carry (least : 5 ≤ d.ip.hl) (before : off ≤ total)
    (sent : sendFragments d total len fuel off alloc = some (fs, error)) :
    (error = none → off + (fs.map Fragment.carries).sum = total) ∧
      (error ≠ none → off + (fs.map Fragment.carries).sum < total) ∧ (0 < len → ∀ f ∈ fs, 0 < f.carries) := by
  induction fuel generalizing off alloc fs error with
  | zero => cases sent
  | succ fuel ih =>
    unfold sendFragments at sent
    split at sent <;> rename_i more
    · cases sent
      exact ⟨fun _ => by simp; omega, fun failed => absurd rfl failed, fun _ f there => by cases there⟩
    · have stops (stopped : some (([] : List Fragment), some Errno.enosr) = some (fs, error)) :
          (error = none → off + (fs.map Fragment.carries).sum = total) ∧
            (error ≠ none → off + (fs.map Fragment.carries).sum < total) ∧ (0 < len → ∀ f ∈ fs, 0 < f.carries) := by
        cases stopped
        exact ⟨(fun done => by cases done), fun _ => by simp; omega, fun _ f there => by cases there⟩
      dsimp only at sent
      split at sent
      · split at sent
        · cases sent
        · next options made =>
          split at sent
          · cases sent
          · exact stops sent
          · split at sent
            · obtain ⟨⟨later, error'⟩, rest, same⟩ := Option.map_eq_some_iff.mp sent
              obtain ⟨rfl, rfl⟩ := Prod.mk.inj same
              have step := ih (by split <;> omega) rest
              rw [List.map_cons, List.sum_cons, List.forall_mem_cons, fragment_carries least made, ← Nat.add_assoc]
              exact ⟨step.1, step.2.1, fun some' => ⟨by split <;> omega, step.2.2 some'⟩⟩
            · exact stops sent
      · exact stops sent

theorem ipOutput_handed {maxtu : Nat} (least : 5 ≤ d.ip.hl) (large : maxtu < d.ip.len)
    (sent : ipOutput maxtu d alloc = some (fs, error)) : error = none ↔ Handed d fs := by
  have none_handed : ¬ Handed d [] := fun handed => handed.1 rfl
  unfold ipOutput at sent
  rw [if_neg (by omega)] at sent
  dsimp only at sent
  split at sent
  · cases sent
    exact iff_of_false nofun none_handed
  · split at sent <;> rename_i room
    · cases sent
      exact iff_of_false nofun none_handed
    · obtain ⟨whole, part, _⟩ := sendFragments_carry least (Nat.zero_le _) sent
      rw [Nat.zero_add] at whole part
      constructor
      · intro ends
        refine ⟨?_, whole ends⟩
        rintro rfl
        have none := whole ends
        simp only [List.map_nil, List.sum_nil] at none
        omega
      · intro handed
        by_contra failed
        exact absurd handed.2 (part failed).ne

/-- A datagram that is not put off or turned back returns zero if and only if all of it was handed to the interface.
When it needs no fragments, its user hears of it if and only if there was an error, and no connection is lost otherwise. -/
theorem reports_unsent {o : Outcome} (least : 5 ≤ d.ip.hl) (goes : ¬ Stopped (findWay net req d.ip.dst))
    (result : ipOutputUser net req d alloc given = some o) :
    (o.error = none ↔ Handed d o.handed) ∧
      (o.error ≠ none → (o.uderror ≠ none ↔ given = true) ∧ ∀ error, o.uderror = some error → error = o.error) ∧
      (Fits (findWay net req d.ip.dst) d.ip.len → Handed d o.handed →
        o.uderror = none ∧ ∀ pcbs, o.disconnected d.ip.dst pcbs = []) := by
  have none_handed : ¬ Handed d [] := fun handed => handed.1 rfl
  have refused {e : Errno} (stopped : some (bad given (some e) []) = some o) :
      (o.error = none ↔ Handed d o.handed) ∧
        (o.error ≠ none → (o.uderror ≠ none ↔ given = true) ∧ ∀ error, o.uderror = some error → error = o.error) ∧
        (Fits (findWay net req d.ip.dst) d.ip.len → Handed d o.handed →
          o.uderror = none ∧ ∀ pcbs, o.disconnected d.ip.dst pcbs = []) := by
    cases stopped
    refine ⟨iff_of_false nofun none_handed, fun _ => ?_, fun _ handed => absurd handed none_handed⟩
    cases given <;> simp [bad]
  unfold ipOutputUser at result
  split at result
  · next way => exact absurd (.inl way) goes
  · exact refused result
  · next prov dst way =>
    have open' : prov.canput = true := by
      by_contra full
      exact goes (.inr ⟨prov, dst, way, by simpa using full⟩)
    rw [if_neg (by simp [open'])] at result
    split at result
    · exact refused result
    · split at result
      · exact refused result
      · split at result
        · exact refused result
        · split at result <;> rename_i small
          · cases result
            refine ⟨iff_of_true rfl ⟨nofun, ?_⟩, fun failed => absurd rfl failed, fun _ _ => ⟨rfl, fun _ => rfl⟩⟩
            simp [Fragment.carries, whole]
          · obtain ⟨⟨fs, error⟩, sent, rfl⟩ := Option.map_eq_some_iff.mp result
            refine ⟨ipOutput_handed least (by omega) sent, fun _ => ?_, fun fits => absurd (fits prov dst way) small⟩
            cases given <;> simp [bad]

end

/-! ## One interface -/

/-- Every address is routed to one interface. -/
def oneWay (maxtu : Nat) (canput : Bool) : Tables :=
  ⟨fun _ => false, none, fun _ => none, fun _ => none,
    fun _ => .answer (some ⟨true, some ⟨maxtu, false, canput⟩, none⟩), fun _ => false⟩

def someRequest : Request := ⟨none, 0, false, false⟩

theorem reports_unsent_plain : ∃ o, ipOutputUser (oneWay 44 true) someRequest plain [] true = some o ∧ o.uderror = none := by
  have open' : ¬ Stopped (findWay (oneWay 44 true) someRequest plain.ip.dst) := by
    rintro (deferred | ⟨prov, dst, way, full⟩)
    · cases deferred
    · cases way
      cases full
  have sent := @reports_unsent plain (oneWay 44 true) someRequest [] true _ (by decide) open' rfl
  refine ⟨_, rfl, (sent.2.2 ?_ (sent.1.mp rfl)).1⟩
  rintro prov dst way
  cases way
  decide

/-- A datagram that was sent in fragments is reported, and its connections are lost. One that is turned back is reported
without an error, and one that is put off is not sent; without a block nothing is reported. -/
theorem sent_reported :
    (∃ o, ipOutputUser (oneWay 40 true) someRequest plain [] true = some o ∧ o.error = none ∧ Handed plain o.handed ∧
      o.uderror = some none ∧ o.disconnected 2 [1, 2] = [2]) ∧
      (∃ o, ipOutputUser (oneWay 44 false) someRequest plain [] true = some o ∧ o.error = none ∧ o.handed = [] ∧
        o.uderror = some none) ∧
      (∃ o, ipOutputUser { oneWay 44 true with rtalloc := fun _ => .defer } someRequest plain [] true = some o ∧
        o.error = none ∧ o.handed = []) ∧
      ∃ o, ipOutputUser (oneWay 20 true) someRequest plain [] false = some o ∧ o.error = some .emsgsize ∧ o.uderror = none := by
  refine ⟨⟨_, rfl, rfl, ⟨?_, ?_⟩, rfl, rfl⟩, ⟨_, rfl, rfl, rfl, rfl⟩, ⟨_, rfl, rfl, rfl⟩, ⟨_, rfl, rfl, rfl⟩⟩
  · exact nofun
  · decide

end Svr4.Ip
