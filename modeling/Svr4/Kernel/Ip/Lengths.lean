import Mathlib.Data.List.TakeWhile
import Svr4.Foundation.Execution
import Svr4.Kernel.Ip.Partition
import Svr4.Kernel.Ip.Reassembly

/-! What the header fields of queued fragments say of the bytes that are left, in any sequence of fragments. -/

namespace Svr4.Ip

open Svr4.Words
open List (mem_cons mem_cons_of_mem)

/-- `IP_MAXPACKET`. -/
def ipMaxpacket : Int := 65535

/-- Where the bytes of a fragment begin. -/
def Packet.start (pkt : Packet) : Nat := 8 * (pkt.off &&& 0x1fff).toNat

/-- What `ipintr` has seen to. -/
structure Admitted (pkt : Packet) : Prop where
  hl : 5 ≤ pkt.hl ∧ pkt.hl ≤ 15
  short : pkt.len ≤ 32767
  size : (Msg.bytes pkt.msg).length = pkt.len - 4 * pkt.hl

/-- The blocks behind the first are of the type that the first is given. -/
def Uniform (pkt : Packet) : Prop := ∀ bp ∈ asData pkt.msg, bp.isData = true

/-- A fragment that has lost the first `k` bytes of a packet. -/
structure Rest (pkt : Packet) (k : Nat) (q : Ipasfrag) : Prop where
  bytes : q.msg.bytes = (Msg.bytes pkt.msg).drop k
  within : k ≤ (Msg.bytes pkt.msg).length
  off : q.off = toShort (pkt.start + k)
  len : q.len = (Msg.bytes pkt.msg).length - k
  data : ∀ bp ∈ q.msg, bp.isData = true
  mff : q.mff = decide (pkt.off &&& ipMf ≠ 0)
  skipped : q.skipped ≤ k
  key : q.key = pkt.key

/-- A fragment that is left of a packet with a property. -/
def Left (known : Packet → Prop) (q : Ipasfrag) : Prop := ∃ pkt k, known pkt ∧ Admitted pkt ∧ Rest pkt k q

section
variable {known : Packet → Prop} {pkt : Packet} {k n : Nat} {q ip : Ipasfrag} {m : Msg} {frags : List Ipasfrag}
  {fp : Option Ipq}

/-! ## Trimming -/

theorem bytes_cons (bp : Mblk) (m : Msg) : Msg.bytes (bp :: m) = bp.bytes ++ Msg.bytes m := rfl

theorem xmsgsize_eq (data : ∀ bp ∈ m, bp.isData = true) : xmsgsize m = m.bytes.length := by
  have all : m.takeWhile (fun bp => bp.isData = ((m.map Mblk.isData).headD true)) = m := by
    rw [List.takeWhile_eq_self_iff]
    intro bp there
    cases m with
    | nil => cases there
    | cons first rest =>
      rw [List.map_cons, List.headD_cons, data bp there, data first (.head _)]
      rfl
  rw [xmsgsize, all]

theorem trimHead_bytes (n : Nat) (m : Msg) : (trimHead n m).bytes = m.bytes.drop n := by
  induction m generalizing n with
  | nil => exact List.drop_nil.symm
  | cons bp rest ih => rw [trimHead, bytes_cons, ih, bytes_cons, List.drop_append]

theorem trimHead_data (n : Nat) (data : ∀ bp ∈ m, bp.isData = true) : ∀ bp ∈ trimHead n m, bp.isData = true := by
  induction m generalizing n with
  | nil => exact fun bp there => by cases there
  | cons first rest ih =>
    intro bp there
    rcases mem_cons.mp there with rfl | later
    · exact data first (.head _)
    · exact ih _ (fun bp there => data bp (.tail _ there)) bp later

theorem trimHead_first (n : Nat) (m : Msg) : firstLength m - firstLength (trimHead n m) ≤ n := by
  cases m with
  | nil => exact Nat.zero_le _
  | cons bp rest =>
    change bp.bytes.length - (bp.bytes.drop n).length ≤ n
    rw [List.length_drop]
    omega

theorem adjmsg_eq (data : ∀ bp ∈ m, bp.isData = true) (less : n ≤ m.bytes.length) : adjmsg m n = trimHead n m := by
  rw [adjmsg, xmsgsize_eq data, if_neg (not_lt.mpr less)]

theorem toShort_add (a b : Int) : toShort (toShort a + b) = toShort (a + b) := Int.bmod_add_bmod

theorem Rest.length (rest : Rest pkt k q) : (q.msg.bytes.length : Int) = q.len := by
  have within := rest.within
  rw [rest.bytes, rest.len, List.length_drop]
  omega

theorem Rest.trim (admitted : Admitted pkt) (rest : Rest pkt k q) {i : Int} (positive : 0 ≤ i) (less : i ≤ q.len) :
    Rest pkt (k + i.toNat) (trim i q) := by
  have length := rest.length
  have cut : adjmsg q.msg i.toNat = trimHead i.toNat q.msg := adjmsg_eq rest.data (by omega)
  have len := rest.len
  have size := admitted.size
  have short := admitted.short
  have hl := admitted.hl
  refine ⟨?_, by omega, ?_, ?_, ?_, rest.mff, ?_, rest.key⟩
  · simp only [Ip.trim]
    rw [cut, trimHead_bytes, rest.bytes, List.drop_drop]
  · simp only [Ip.trim]
    rw [rest.off, toShort_add]
    congr 1
    omega
  · simp only [Ip.trim]
    rw [toShort_of_fits ⟨by omega, by omega⟩]
    omega
  · simp only [Ip.trim]
    rw [cut]
    exact trimHead_data _ rest.data
  · have first := trimHead_first i.toNat q.msg
    have skipped := rest.skipped
    simp only [Ip.trim]
    rw [cut]
    omega

theorem asFrag_rest (admitted : Admitted pkt) (uniform : Uniform pkt) : Rest pkt 0 (asFrag pkt) := by
  have size := admitted.size
  have short := admitted.short
  have hl := admitted.hl
  have same : (asData pkt.msg).bytes = Msg.bytes pkt.msg := by
    cases pkt.msg <;> rfl
  refine ⟨same, Nat.zero_le _, ?_, ?_, uniform, rfl, Nat.le_refl _, rfl⟩
  · have units := units_mod pkt.off
    simp only [asFrag, Packet.start]
    have bytes : pkt.off.toNat * 2 ^ 3 % 2 ^ 16 = 8 * (pkt.off.toNat % 8192) := by omega
    rw [BitVec.toInt_eq_toNat_bmod, units, BitVec.toNat_shiftLeft, Nat.shiftLeft_eq, bytes, toShort]
    exact congrArg (fun x : Int => x.bmod 65536) (Int.add_zero _).symm
  · simp only [asFrag]
    rw [toShort_of_fits ⟨by omega, by omega⟩]
    omega

/-! ## The list of fragments -/

theorem Left.length (left : Left known q) : (q.msg.bytes.length : Int) = q.len :=
  have ⟨_, _, _, _, rest⟩ := left
  rest.length

theorem Left.trim (left : Left known q) {i : Int} (positive : 0 ≤ i) (less : i ≤ q.len) : Left known (trim i q) :=
  have ⟨pkt, k, here, admitted, rest⟩ := left
  ⟨pkt, k + i.toNat, here, admitted, rest.trim admitted positive less⟩

theorem trimPrev_left {before : List Ipasfrag} {ip' : Ipasfrag} (left : Left known ip)
    (result : trimPrev before ip = some ip') : Left known ip' ∧ ip'.key = ip.key := by
  unfold trimPrev at result
  split at result
  · cases result
    exact ⟨left, rfl⟩
  · simp only at result
    split at result
    · cases result
      exact ⟨left, rfl⟩
    · split at result
      · cases result
      · cases result
        exact ⟨left.trim (by omega) (by omega), rfl⟩

theorem trimNext_left (all : ∀ q ∈ frags, Left known q) : ∀ q ∈ trimNext ip frags, Left known q ∧ ∃ old ∈ frags, q.key = old.key := by
  induction frags with
  | nil => exact fun q there => by cases there
  | cons first rest ih =>
    have tail : ∀ q ∈ rest, Left known q := fun q there => all q (.tail _ there)
    have kept : ∀ q ∈ rest, Left known q ∧ ∃ old ∈ first :: rest, q.key = old.key := fun q there =>
      ⟨tail q there, q, .tail _ there, rfl⟩
    intro q there
    rw [trimNext] at there
    split at there
    · exact ⟨all q there, q, there, rfl⟩
    · simp only at there
      split at there
      · rcases mem_cons.mp there with rfl | later
        · exact ⟨(all first (.head _)).trim (by omega) (by omega), first, (.head _), rfl⟩
        · exact kept q later
      · have ⟨left, old, before, same⟩ := ih tail q there
        exact ⟨left, old, .tail _ before, same⟩

/-- The queue keeps what is left of packets of its datagram. -/
def Described (known : Packet → Prop) (fp : Ipq) : Prop := ∀ q ∈ fp.frags, Left known q ∧ q.key = fp.key

theorem walk_bytes {next last : Int} (all : ∀ q ∈ frags, Left known q) (walked : walk next frags = some last) :
    last = next + (Msg.bytes (frags.map Ipasfrag.msg).flatten).length := by
  induction frags generalizing next with
  | nil =>
    cases walked
    exact (Int.add_zero _).symm
  | cons q rest ih =>
    rw [walk] at walked
    split at walked
    · have length := (all q (.head _)).length
      have tail := ih (fun q there => all q (.tail _ there)) walked
      rw [List.map_cons, List.flatten_cons]
      have whole : Msg.bytes (q.msg ++ (rest.map Ipasfrag.msg).flatten) = q.msg.bytes ++ Msg.bytes (rest.map Ipasfrag.msg).flatten := by
        rw [Msg.bytes, List.map_append, List.flatten_append]
        rfl
      rw [whole, List.length_append]
      omega
    · cases walked

theorem walk_last {next last : Int} (walked : walk next frags = some last) (final : frags.getLast? = some q) :
    q.off + q.len = last := by
  induction frags generalizing next with
  | nil => cases final
  | cons first rest ih =>
    rw [walk] at walked
    split at walked
    · cases rest with
      | nil =>
        rw [List.getLast?_singleton] at final
        cases final
        cases walked
        omega
      | cons second rest => exact ih walked (by rwa [List.getLast?_cons_cons] at final)
    · cases walked

/-- How many bytes there are in a datagram that is put together, and what its header says. -/
structure Sized (known : Packet → Prop) (d : Received) : Prop where
  len : d.len = toShort d.msg.bytes.length
  least : (d.msg.bytes.length : Int) ≤ ipMaxpacket
  last : ∃ q, Left known q ∧ q.off + q.len = d.msg.bytes.length

theorem assemble_sized {fp : Ipq} {d : Received} (described : Described known fp) (result : assemble fp = some d) :
    Sized known d := by
  unfold assemble at result
  split at result
  · rename_i next last first _ walked final _
    split at result
    · cases result
    · cases result
      have there := List.mem_of_getLast? final
      have left := (described last there).1
      have all : ∀ q ∈ fp.frags, Left known q := fun q there => (described q there).1
      have bytes := walk_bytes all walked
      have ends := walk_last walked final
      rw [Int.zero_add] at bytes
      refine ⟨congrArg toShort bytes, ?_, last, left, by rw [ends, bytes]⟩
      obtain ⟨pkt, k, _, admitted, rest⟩ := left
      have off := rest.off
      have fits := (toShort_fits (pkt.start + k)).2
      have len := rest.len
      have size := admitted.size
      have short := admitted.short
      have hl := admitted.hl
      simp only [ipMaxpacket]
      omega
  · cases result

theorem insertFrag_described {fp : Ipq} (described : Described known fp) :
    (∀ d, (insertFrag fp).1 = some d → Sized known d) ∧ ∀ fp', (insertFrag fp).2 = some fp' → fp' = fp := by
  unfold insertFrag
  split <;> rename_i result
  · refine ⟨fun d same => ?_, fun fp' same => (by cases same)⟩
    cases same
    exact assemble_sized described result
  · refine ⟨fun d same => (by cases same), fun fp' same => ?_⟩
    cases same
    rfl

theorem ipReass_described (alloc : Bool) (left : Left known ip)
    (described : ∀ old, fp = some old → Described known old ∧ old.key = ip.key) :
    (∀ d, (ipReass alloc ip fp).1 = some d → Sized known d) ∧
      ∀ new, (ipReass alloc ip fp).2 = some new → Described known new ∧ new.key = ip.key := by
  cases fp with
  | none =>
    rw [ipReass]
    split
    · have single : Described known ⟨ip.key, ipfragttl, [ip]⟩ := fun q there => by
        cases List.mem_singleton.mp there
        exact ⟨left, rfl⟩
      have ⟨sized, same⟩ := insertFrag_described single
      exact ⟨sized, fun new result => by rw [same new result]; exact ⟨single, rfl⟩⟩
    · exact ⟨fun d same => (by cases same), fun new same => (by cases same)⟩
  | some old =>
    have ⟨held, name⟩ := described old rfl
    rw [ipReass]
    split <;> rename_i found
    · refine ⟨fun d same => (by cases same), fun new same => ?_⟩
      cases same
      exact ⟨held, name⟩
    · rename_i ip'
      have ⟨trimmed, key⟩ := trimPrev_left left found
      have joined : Described known { old with
          frags := old.frags.takeWhile (fun q => q.off ≤ ip.off) ++ ip' ::
            trimNext ip' (old.frags.dropWhile fun q => q.off ≤ ip.off) } := by
        intro q there
        rcases List.mem_append.mp there with before | here
        · exact held q ((List.takeWhile_sublist _).subset before)
        · rcases mem_cons.mp here with rfl | after
          · exact ⟨trimmed, key.trans name.symm⟩
          · have behind : ∀ q ∈ old.frags.dropWhile (fun q => q.off ≤ ip.off), Left known q ∧ q.key = old.key :=
              fun q there => held q ((List.dropWhile_sublist _).subset there)
            have ⟨left, before, member, same⟩ := trimNext_left (fun q there => (behind q there).1) q after
            exact ⟨left, same.trans (behind before member).2⟩
      have ⟨sized, same⟩ := insertFrag_described joined
      exact ⟨sized, fun new result => by rw [same new result]; exact ⟨joined, name⟩⟩

/-! ## The queues -/

theorem mem_setQueue {key : Key} {ipq : List Ipq} {other : Ipq} (there : other ∈ setQueue key fp ipq) :
    other ∈ fp ∨ other ∈ ipq := by
  induction ipq with
  | nil => exact .inl (Option.mem_toList.mp there)
  | cons first rest ih =>
    rw [setQueue] at there
    split at there
    · rcases List.mem_append.mp there with new | old
      · exact .inl (Option.mem_toList.mp new)
      · exact .inr (.tail _ old)
    · rcases mem_cons.mp there with rfl | later
      · exact .inr (.head _)
      · exact (ih later).imp_right (mem_cons_of_mem _)

theorem mem_putQueue {key : Key} {ipq : List Ipq} {other : Ipq} (there : other ∈ putQueue key fp ipq) :
    other ∈ fp ∨ other ∈ ipq := by
  unfold putQueue at there
  split at there
  · exact mem_setQueue there
  · exact (List.mem_append.mp there).imp_left Option.mem_toList.mp

theorem Left.mono {other : Packet → Prop} (sub : ∀ pkt, known pkt → other pkt) (left : Left known q) : Left other q :=
  have ⟨pkt, k, here, rest⟩ := left
  ⟨pkt, k, sub pkt here, rest⟩

/-! ## Runs -/

end

inductive Event where
  | packet (alloc : Bool) (pkt : Packet)
  | slowtimo

def step (ipq : List Ipq) : Event → Option Received × List Ipq
  | .packet alloc pkt => ipintr alloc pkt ipq
  | .slowtimo => (none, ipSlowtimo ipq)

/-- A packet that `ipintr` takes to be a fragment. -/
def isFragment (pkt : Packet) : Bool := (pkt.off &&& ~~~ ipDf ≠ 0) ∧ ((asFrag pkt).mff ∨ (asFrag pkt).off ≠ 0)

/-- The packets `ipintr` admits, whose blocks are of one type. -/
def Sent (_ : List Ipq) : Event → Prop
  | .packet _ pkt => Admitted pkt ∧ Uniform pkt
  | .slowtimo => True

/-- A packet that ends within what a `short` can count. -/
def Ends (pkt : Packet) : Prop := pkt.start + (Msg.bytes pkt.msg).length ≤ 32767

instance (pkt : Packet) : Decidable (Ends pkt) := inferInstanceAs (Decidable (_ ≤ _))

def SentShort (ipq : List Ipq) : Event → Prop
  | .packet alloc pkt => Sent ipq (.packet alloc pkt) ∧ Ends pkt
  | .slowtimo => True

/-- The packets of a history. -/
def Known (history : List (List Ipq × Event)) (pkt : Packet) : Prop := ∃ ipq alloc, (ipq, Event.packet alloc pkt) ∈ history

section
variable {known : Packet → Prop} {pkt : Packet} {ipq : List Ipq} {alloc : Bool}

theorem ipintr_described (here : known pkt) (admitted : Admitted pkt) (uniform : Uniform pkt)
    (described : ∀ fp ∈ ipq, Described known fp) :
    (∀ fp ∈ (ipintr alloc pkt ipq).2, Described known fp) ∧
      (isFragment pkt = true → ∀ d, (ipintr alloc pkt ipq).1 = some d → Sized known d) := by
  have left : Left known (asFrag pkt) := ⟨pkt, 0, here, admitted, asFrag_rest admitted uniform⟩
  have old : ∀ fp, (ipq.find? fun q => q.key = pkt.key) = some fp → Described known fp ∧ fp.key = (asFrag pkt).key :=
    fun fp found => ⟨described fp (List.mem_of_find?_eq_some found), show fp.key = pkt.key by simpa using List.find?_some found⟩
  unfold ipintr isFragment
  split <;> rename_i plain
  · exact ⟨described, fun fragment => by simp [plain] at fragment⟩
  · split <;> rename_i part
    · have ⟨sized, kept⟩ := ipReass_described alloc left old
      refine ⟨fun fp there => ?_, fun _ => sized⟩
      rcases mem_putQueue there with new | before
      · exact (kept fp new).1
      · exact described fp before
    · refine ⟨fun fp there => ?_, fun fragment => by simp [part] at fragment⟩
      rcases mem_setQueue there with new | before
      · cases new
      · exact described fp before

theorem ipSlowtimo_described (described : ∀ fp ∈ ipq, Described known fp) : ∀ fp ∈ ipSlowtimo ipq, Described known fp := by
  intro fp there
  obtain ⟨old, before, rfl⟩ := List.mem_map.mp (List.mem_filter.mp there).1
  exact described old before

theorem Described.mono {other : Packet → Prop} {fp : Ipq} (sub : ∀ pkt, known pkt → other pkt) (described : Described known fp) :
    Described other fp := fun q there => ⟨(described q there).1.mono sub, (described q there).2⟩

/-- The step of the run: what comes out, and the state that is left. -/
def Takes (ipq : List Ipq) (event : Event) (ipq' : List Ipq) : Prop := (step ipq event).2 = ipq'

theorem runs_described {history : List (List Ipq × Event)} (runs : Runs (· = []) Takes Sent history ipq) :
    ∀ fp ∈ ipq, Described (Known history) fp := by
  induction runs with
  | start first =>
    rw [first]
    exact fun fp there => by cases there
  | @next history s t event _ taken allowed ih =>
    have more : ∀ pkt, Known history pkt → Known ((s, event) :: history) pkt := fun pkt ⟨ipq, alloc, there⟩ =>
      ⟨ipq, alloc, .tail _ there⟩
    have before : ∀ fp ∈ s, Described (Known ((s, event) :: history)) fp := fun fp there => (ih fp there).mono more
    rw [← taken]
    cases event with
    | packet alloc pkt => exact (ipintr_described ⟨s, alloc, (.head _)⟩ allowed.1 allowed.2 before).1
    | slowtimo => exact ipSlowtimo_described before

theorem Runs.sent {history : List (List Ipq × Event)} (runs : Runs (· = []) Takes SentShort history ipq) :
    Runs (· = []) Takes Sent history ipq ∧ ∀ pkt, Known history pkt → Ends pkt := by
  induction runs with
  | start first => exact ⟨.start first, fun pkt ⟨_, _, there⟩ => by cases there⟩
  | @next history s t event _ taken allowed ih =>
    have ⟨before, short⟩ := ih
    cases event with
    | packet alloc pkt =>
      refine ⟨.next before taken allowed.1, fun other ⟨ipq, alloc', there⟩ => ?_⟩
      rcases mem_cons.mp there with same | later
      · cases same
        exact allowed.2
      · exact short other ⟨ipq, alloc', later⟩
    | slowtimo =>
      refine ⟨.next before taken trivial, fun other ⟨ipq, alloc', there⟩ => ?_⟩
      rcases mem_cons.mp there with same | later
      · cases same
      · exact short other ⟨ipq, alloc', later⟩

/-- A queued fragment's header describes the bytes of a packet that are left, from the `k`-th on. -/
def Describes (pkt : Packet) (q : Ipasfrag) : Prop :=
  ∃ k : Nat, q.msg.bytes = (Msg.bytes pkt.msg).drop k ∧ q.off = pkt.start + k ∧ q.len = q.msg.bytes.length

theorem Left.describes {q : Ipasfrag} (left : Left known q) (short : ∀ pkt, known pkt → Ends pkt) :
    ∃ pkt, known pkt ∧ pkt.key = q.key ∧ Describes pkt q := by
  obtain ⟨pkt, k, here, _, rest⟩ := left
  have ends := short pkt here
  have within := rest.within
  rw [Ends] at ends
  refine ⟨pkt, here, rest.key.symm, k, rest.bytes, ?_, rest.length.symm⟩
  rw [rest.off, toShort_of_fits ⟨by omega, by omega⟩]

theorem Left.ends {q : Ipasfrag} (left : Left known q) (short : ∀ pkt, known pkt → Ends pkt) : q.off + q.len ≤ 32767 := by
  obtain ⟨pkt, k, here, _, rest⟩ := left
  have ends := short pkt here
  have within := rest.within
  rw [Ends] at ends
  rw [rest.off, rest.len, toShort_of_fits ⟨by omega, by omega⟩]
  omega

/-- What is true of the lengths in any sequence of packets. A datagram is put together with its length in a `short`:
it is the number of its bytes if and only if these are at most 32767, as they are when no packet ends behind
byte 32767; then the fields of every queued fragment describe the bytes that are left, too. -/
theorem lengths_describe {history : List (List Ipq × Event)} :
    (Runs (· = []) Takes Sent history ipq →
      (∀ fp ∈ ipq, ∀ q ∈ fp.frags, q.len = q.msg.bytes.length) ∧
        ∀ alloc pkt d, Sent ipq (.packet alloc pkt) → isFragment pkt = true → (ipintr alloc pkt ipq).1 = some d →
          (d.msg.bytes.length : Int) ≤ ipMaxpacket ∧ (d.len = d.msg.bytes.length ↔ d.msg.bytes.length ≤ 32767)) ∧
      (Runs (· = []) Takes SentShort history ipq →
        (∀ fp ∈ ipq, ∀ q ∈ fp.frags, ∃ pkt, Known history pkt ∧ pkt.key = q.key ∧ Describes pkt q) ∧
          ∀ alloc pkt d, SentShort ipq (.packet alloc pkt) → isFragment pkt = true → (ipintr alloc pkt ipq).1 = some d →
            d.len = d.msg.bytes.length ∧ d.len ≤ ipMaxpacket) := by
  have sized : Runs (· = []) Takes Sent history ipq → ∀ alloc pkt d, Sent ipq (.packet alloc pkt) → isFragment pkt = true →
      (ipintr alloc pkt ipq).1 = some d → Sized (fun other => Known history other ∨ other = pkt) d := by
    intro runs alloc pkt d allowed fragment result
    have before : ∀ fp ∈ ipq, Described (fun other => Known history other ∨ other = pkt) fp := fun fp there =>
      (runs_described runs fp there).mono fun other => .inl
    exact (ipintr_described (.inr rfl) allowed.1 allowed.2 before).2 fragment d result
  constructor
  · intro runs
    refine ⟨fun fp there q member => (runs_described runs fp there q member).1.length.symm, ?_⟩
    intro alloc pkt d allowed fragment result
    have ⟨len, least, _⟩ := sized runs alloc pkt d allowed fragment result
    refine ⟨least, ?_⟩
    rw [len]
    constructor
    · intro same
      have fits := (toShort_fits d.msg.bytes.length).2
      omega
    · intro small
      exact toShort_of_fits ⟨by omega, by omega⟩
  · intro runs
    have ⟨sent, short⟩ := Runs.sent runs
    refine ⟨fun fp there q member => (runs_described sent fp there q member).1.describes short, ?_⟩
    intro alloc pkt d allowed fragment result
    have ⟨len, least, q, left, last⟩ := sized sent alloc pkt d allowed.1 fragment result
    have below := left.ends fun other known => by
      rcases known with before | rfl
      · exact short other before
      · exact allowed.2
    have same : d.len = d.msg.bytes.length := len.trans (toShort_of_fits ⟨by omega, by omega⟩)
    exact ⟨same, same ▸ least⟩

end

/-! ## Two fragments of one datagram -/

def oneKey : Key := ⟨7, 1, 2, 17⟩

/-- A fragment of `n` bytes, at an offset in units of eight bytes. -/
def piece (units n : Nat) (more : Bool) : Packet :=
  { key := oneKey, hl := 5, len := 20 + n, off := BitVec.ofNat 16 units ||| if more then ipMf else 0
    msg := [⟨true, List.replicate n 0⟩] }

theorem piece_sent (units n : Nat) (more : Bool) (short : n ≤ 32747) : Admitted (piece units n more) ∧ Uniform (piece units n more) := by
  have size : (Msg.bytes (piece units n more).msg).length = n := by
    change ((List.replicate n (0 : UInt8)) ++ []).length = n
    rw [List.append_nil, List.length_replicate]
  refine ⟨⟨⟨Nat.le_refl 5, (by decide : 5 ≤ 15)⟩, ?_, ?_⟩, fun bp there => ?_⟩
  · change (20 + n : Int) ≤ 32767
    omega
  · rw [size]
    change (n : Int) = 20 + n - 4 * (5 : Nat)
    omega
  · cases List.mem_singleton.mp there
    rfl

/-- The queue with the first eight bytes of a datagram. -/
def halfway : List Ipq := (ipintr true (piece 0 8 true) []).2

theorem halfway_runs : Runs (· = []) Takes SentShort [([], .packet true (piece 0 8 true))] halfway :=
  .next (.start rfl) rfl ⟨piece_sent 0 8 true (by decide), by decide⟩

/-- The other eight bytes complete a datagram of sixteen. -/
theorem lengths_describe_halfway :
    ∃ d, (ipintr true (piece 1 8 false) halfway).1 = some d ∧ d.len = d.msg.bytes.length ∧ d.len ≤ ipMaxpacket := by
  refine ⟨((ipintr true (piece 1 8 false) halfway).1).getD (asReceived (piece 1 8 false)), by decide +kernel, ?_⟩
  exact (lengths_describe.2 halfway_runs).2 true (piece 1 8 false) _ ⟨piece_sent 1 8 false (by decide), by decide⟩
    (by decide) (by decide +kernel)

/-- The queue with the first 32744 bytes of a datagram of 40000. -/
def nearlyFull : List Ipq := (ipintr true (piece 0 32744 true) []).2

/-- Two fragments give a datagram of 40000 bytes, with a length below zero. -/
theorem length_wraps :
    Runs (· = []) Takes Sent [([], .packet true (piece 0 32744 true))] nearlyFull ∧
      Sent nearlyFull (.packet true (piece 4093 7256 false)) ∧
      ∃ d, (ipintr true (piece 4093 7256 false) nearlyFull).1 = some d ∧ d.len = -25536 ∧ d.len ≠ d.msg.bytes.length := by
  refine ⟨.next (.start rfl) rfl (piece_sent 0 32744 true (by decide)), piece_sent 4093 7256 false (by decide),
    ⟨oneKey, 5, -25536, 0, (piece 0 32744 true).msg ++ (piece 4093 7256 false).msg⟩, by rfl, rfl, ?_⟩
  intro same
  have negative : (-25536 : Int) = ((piece 0 32744 true).msg ++ (piece 4093 7256 false).msg : Msg).bytes.length := same
  omega

end Svr4.Ip
