import Svr4.Foundation.Execution
import Svr4.Kernel.Inpcb.Ports

/-! No two connected control blocks have the same names, and what `in_pcbbind` answers. -/

namespace Svr4.Inpcb

/-- The names of two control blocks are the same. -/
structure Same (first second : Pcb) : Prop where
  laddr : first.laddr = second.laddr
  lport : first.lport = second.lport
  faddr : first.faddr = second.faddr
  fport : first.fport = second.fport

/-- What holds of the list in every run. -/
structure Sound (head : Head) : Prop where
  keyed : (head.pcbs.map Pcb.id).Nodup
  fresh : ∀ inp ∈ head.pcbs, inp.id < head.nextId
  single : ∀ inp ∈ head.pcbs, ∀ other ∈ head.pcbs, inp.faddr ≠ inaddrAny → Same inp other → inp.id = other.id
  named : ∀ inp ∈ head.pcbs, inp.faddr ≠ inaddrAny → inp.laddr ≠ inaddrAny ∨ inp.lport ≠ 0
  port : head.lport ≤ ipportUserreserved

section
variable {net : Net} {head : Head} {inp other : Pcb} {id : Nat} {faddr laddr : Addr} {fport lport : Nat}
  {change : Pcb → Pcb} {nam : Name} {error : Option Errno} {after : Head}

theorem Same.symm (same : Same inp other) : Same other inp :=
  ⟨same.laddr.symm, same.lport.symm, same.faddr.symm, same.fport.symm⟩

theorem exact_fits (same : Same inp other) : Fits other.faddr other.fport other.laddr other.lport inp ∧
    wilds other.faddr other.laddr inp = 0 := by
  have agree : Agree inp.laddr other.laddr := .inr (.inr same.laddr)
  refine ⟨⟨same.lport, agree, .inr (.inr ⟨same.faddr, same.fport⟩)⟩, ?_⟩
  rw [wilds, same.laddr, same.faddr, wildOne, wildOne]
  simp

theorem Sound.only (sound : Sound head) (there : inp ∈ head.pcbs) (also : other ∈ head.pcbs) (same : inp.id = other.id) :
    inp = other := List.inj_on_of_nodup_map sound.keyed there also same

/-- A change of one control block is sound if it stays named and takes no other one's names. -/
theorem Sound.set (sound : Sound head) (there : inp ∈ head.pcbs) (keeps : ∀ inp, (change inp).id = inp.id)
    (named : (change inp).faddr ≠ inaddrAny → (change inp).laddr ≠ inaddrAny ∨ (change inp).lport ≠ 0)
    (single : (change inp).faddr ≠ inaddrAny → ∀ other ∈ head.pcbs, other.id ≠ inp.id → ¬ Same (change inp) other) :
    Sound (head.set inp.id change) := by
  have keys : (head.set inp.id change).pcbs.map Pcb.id = head.pcbs.map Pcb.id := changeAt_keys keeps
  have known : ∀ other ∈ (head.set inp.id change).pcbs, other = change inp ∨ other ∈ head.pcbs ∧ other.id ≠ inp.id := by
    intro other member
    rcases mem_changeAt member with ⟨old, before, same, rfl⟩ | apart
    · left
      rw [sound.only before there same]
    · exact .inr apart
  refine ⟨keys ▸ sound.keyed, fun other member => ?_, fun first one second two connected same => ?_,
    fun other member => ?_, sound.port⟩
  · rcases known other member with rfl | ⟨before, -⟩
    · exact (keeps inp).symm ▸ sound.fresh inp there
    · exact sound.fresh other before
  · rcases known first one with rfl | ⟨one, first'⟩
    · rcases known second two with rfl | ⟨two, apart⟩
      · rfl
      · exact absurd same (single connected second two apart)
    · rcases known second two with rfl | ⟨two, -⟩
      · exact absurd same.symm (single (same.faddr ▸ connected) first one first')
      · exact sound.single first one second two connected same
  · rcases known other member with rfl | ⟨before, -⟩
    · exact named
    · exact sound.named other before

theorem Sound.unconnected (sound : Sound head) (there : inp ∈ head.pcbs)
    (keeps : ∀ inp, (change inp).id = inp.id) (any : (change inp).faddr = inaddrAny) : Sound (head.set inp.id change) :=
  sound.set there keeps (fun connected => absurd any connected) fun connected => absurd any connected

theorem Sound.withPort (sound : Sound head) (small : lport ≤ ipportUserreserved) : Sound { head with lport := lport } :=
  ⟨sound.keyed, sound.fresh, sound.single, sound.named, small⟩

theorem mem_set (there : inp ∈ head.pcbs) (change : Pcb → Pcb) : change inp ∈ (head.set inp.id change).pcbs :=
  List.mem_map.mpr ⟨inp, there, if_pos rfl⟩

theorem set_set {first second : Pcb → Pcb} (keeps : ∀ inp, (first inp).id = inp.id) :
    (head.set id first).set id second = head.set id (second ∘ first) := by
  unfold Head.set
  simp only [List.map_map]
  congr 2
  funext inp
  by_cases here : inp.id = id
  · simp [if_pos here, if_pos ((keeps inp).trans here)]
  · simp [if_neg here]

theorem set_withPort :
    ({ head with lport := lport } : Head).set id change = { head.set id change with lport := lport } := rfl

theorem mem_find (found : head.find id = some inp) : inp ∈ head.pcbs ∧ inp.id = id :=
  ⟨List.mem_of_find?_eq_some found, by simpa using List.find?_some found⟩

/-! ## `in_pcbbind` -/

/-- No member but one uses a port. -/
def Spare (head : Head) (id : Nat) (laddr : Addr) (lport : Nat) : Prop :=
  ∀ other ∈ head.pcbs, other.id ≠ id → ¬ Uses laddr lport other

/-- The local address for which `in_pcbbind` looks for a port, if it does. -/
def sought (net : Net) (head : Head) (inp : Pcb) (nam : Name) : Option Addr :=
  if inp.lport ≠ 0 ∨ inp.laddr ≠ inaddrAny then none
  else
    match nam with
    | .null => some inp.laddr
    | .short => none
    | .sin addr port =>
      if addr ≠ inaddrAny ∧ ¬ net.provWithaddr addr ∧ inp.imasocket then none
      else
        let addr := if addr ≠ inaddrAny ∧ ¬ net.provWithaddr addr then inaddrAny else addr
        if port = 0 then some addr
        else if port < ipportReserved ∧ ¬ inp.priv then none
        else
          let wild : Bool := ¬ inp.reuseaddr ∧ (¬ inp.connrequired ∨ ¬ inp.acceptconn)
          if (inPcblookup head inaddrAny 0 addr port wild).isSome then if inp.imasocket then none else some addr
          else none

/-- The names that a control block gets. -/
def rename (laddr : Addr) (lport : Nat) (inp : Pcb) : Pcb := { inp with laddr := laddr, lport := lport }

theorem bindAny_eq (id : Nat) (laddr : Addr) : bindAny head id laddr =
    (searchPort (head.set id fun inp => { inp with laddr := laddr }) laddr turns head.lport).map fun lport =>
      (none, { head.set id (rename laddr lport) with lport := lport }) := by
  rw [bindAny]
  congr 1
  funext lport
  rw [set_set]
  · rfl
  · exact fun _ => rfl

/-- The call looks for a port, or fails, or gives the names it was given. -/
inductive Binds (net : Net) (head : Head) (inp : Pcb) : Name → Option Addr → Option (Option Errno × Head) → Prop where
  | searches (nam : Name) (laddr : Addr) : Binds net head inp nam (some laddr) (bindAny head inp.id laddr)
  | fails (nam : Name) (error : Errno) : Binds net head inp nam none (some (some error, head))
  | gives (addr : Addr) (port : Nat) : port ≠ 0 → Binds net head inp (.sin addr port) none (some (none, head.set inp.id
      (rename (if addr ≠ inaddrAny ∧ ¬ net.provWithaddr addr then inaddrAny else addr) port)))

theorem inPcbbind_binds (net : Net) (head : Head) (inp : Pcb) (nam : Name) :
    Binds net head inp nam (sought net head inp nam) (inPcbbind net head inp nam) := by
  unfold sought inPcbbind
  by_cases named : inp.lport ≠ 0 ∨ inp.laddr ≠ inaddrAny
  · rw [if_pos named, if_pos named]
    exact .fails nam _
  rw [if_neg named, if_neg named]
  cases nam with
  | null => exact .searches _ _
  | short => exact .fails _ _
  | sin addr port =>
    by_cases away : addr ≠ inaddrAny ∧ ¬ net.provWithaddr addr ∧ inp.imasocket
    · simp only [if_pos away]
      exact .fails _ _
    by_cases zero : port = 0
    · simp only [if_neg away, if_pos zero]
      exact .searches _ _
    by_cases reserved : port < ipportReserved ∧ ¬ inp.priv
    · simp only [if_neg away, if_neg zero, if_pos reserved]
      exact .fails _ _
    simp only [if_neg away, if_neg zero, if_neg reserved]
    generalize same : (if addr ≠ inaddrAny ∧ ¬ net.provWithaddr addr then inaddrAny else addr) = given
    split
    · split
      · exact .fails _ _
      · exact .searches _ _
    · rw [← same]
      exact .gives addr port zero

theorem inPcbbind_result (small : head.lport ≤ ipportUserreserved)
    (result : inPcbbind net head inp nam = some (error, after)) :
    (error ≠ none ∧ after = head) ∨
    ∃ laddr lport last, error = none ∧ lport ≠ 0 ∧ last ≤ ipportUserreserved ∧
      after = { head.set inp.id (rename laddr lport) with lport := last } ∧
      ((∃ addr, nam = .sin addr lport ∧ laddr = if addr ≠ inaddrAny ∧ ¬ net.provWithaddr addr then inaddrAny else addr) ∨
        Spare head inp.id laddr lport) := by
  have binds := inPcbbind_binds net head inp nam
  rw [result] at binds
  generalize same : some (error, after) = answer, sought net head inp nam = asked at binds
  cases binds with
  | searches _ laddr =>
    rw [bindAny_eq] at same
    obtain ⟨lport, found, equal⟩ := Option.map_eq_some_iff.mp same.symm
    obtain ⟨range, free⟩ := searchPort_some small found
    cases equal
    right
    refine ⟨laddr, lport, lport, rfl, ?_, range.2, rfl, .inr fun other there apart uses => ?_⟩
    · intro zero
      cases zero ▸ range.1
    · have here : other ∈ (head.set inp.id fun inp => { inp with laddr := laddr }).pcbs :=
        List.mem_map.mpr ⟨other, there, if_neg apart⟩
      exact freePort_iff.mp free other here uses
  | fails _ error =>
    cases same
    exact .inl ⟨Option.some_ne_none _, rfl⟩
  | gives addr port positive =>
    cases same
    right
    exact ⟨_, port, head.lport, rfl, positive, small, rfl, .inl ⟨addr, rfl, rfl⟩⟩

/-- When a port is looked for, the call returns just if one of the range is spare. -/
theorem bindAny_returns (small : head.lport ≤ ipportUserreserved) (there : inp ∈ head.pcbs) (unnamed : inp.lport = 0)
    (keyed : (head.pcbs.map Pcb.id).Nodup) :
    (bindAny head inp.id laddr).isSome = true ↔ ∃ lport, InRange lport ∧ Spare head inp.id laddr lport := by
  rw [bindAny_eq, Option.isSome_map, searchPort_isSome small]
  refine exists_congr fun lport => and_congr_right fun range => ?_
  rw [freePort_iff]
  constructor
  · intro free other member apart
    exact free other (List.mem_map.mpr ⟨other, member, if_neg apart⟩)
  · intro spare other member uses
    rcases mem_changeAt member with ⟨old, before, same, rfl⟩ | ⟨before, apart⟩
    · have own : old = inp := List.inj_on_of_nodup_map keyed before there same
      have zero : lport = 0 := uses.1.symm.trans (own ▸ unnamed)
      cases zero ▸ range.1
    · exact spare other before apart uses

theorem inPcbbind_named (named : inp.lport ≠ 0 ∨ inp.laddr ≠ inaddrAny) :
    inPcbbind net head inp nam = some (some .einval, head) := by
  exact if_pos named

theorem inPcbbind_sound (sound : Sound head) (there : inp ∈ head.pcbs)
    (result : inPcbbind net head inp nam = some (error, after)) : Sound after := by
  by_cases connected : inp.faddr = inaddrAny
  · rcases inPcbbind_result sound.port result with ⟨-, rfl⟩ | ⟨laddr, lport, last, -, -, small, rfl, -⟩
    · exact sound
    · have bound : Sound (head.set inp.id (rename laddr lport)) := sound.unconnected there (fun _ => rfl) connected
      exact bound.withPort small
  · cases (inPcbbind_named (sound.named inp there connected).symm).symm.trans result
    exact sound

/-! ## `in_pcbconnect` -/

theorem unused (b : Pcb) (none : inPcblookup head b.faddr b.fport b.laddr b.lport false = none) :
    ∀ other ∈ head.pcbs, ¬ Same b other := by
  intro other there same
  have ⟨fits, zero⟩ := exact_fits same.symm
  exact inPcblookup_none.mp none other there ⟨fits, .inl zero⟩

/-- All names of a control block at once. -/
def connected (laddr : Addr) (lport : Nat) (faddr : Addr) (fport : Nat) (inp : Pcb) : Pcb :=
  { inp with laddr := laddr, lport := lport, faddr := faddr, fport := fport }

/-- A control block with neither port nor address of an interface gets them from `in_pcbbind`, and is connected. -/
theorem connectBound_sound {addr : Addr} (sound : Sound head) (there : inp ∈ head.pcbs)
    (unconnected : inp.faddr = inaddrAny) (missing : ¬ (inp.lport ≠ 0 ∧ addr ≠ inaddrAny))
    (none : inPcblookup head faddr fport addr inp.lport false = none)
    (result : (inPcbbind net (head.set inp.id fun inp => { inp with lport := 0 }) { inp with lport := 0 } (.sin addr inp.lport)).map
      (fun result => match result.1 with
        | some error => (some error, result.2)
        | .none => (.none, connectTo result.2 inp.id faddr fport)) = some (error, after)) : Sound after := by
  have bare : Sound (head.set inp.id fun inp => { inp with lport := 0 }) := sound.unconnected there (fun _ => rfl) unconnected
  obtain ⟨⟨failed, bound⟩, binds, equal⟩ := Option.map_eq_some_iff.mp result
  rcases inPcbbind_result bare.port binds with ⟨error', rfl⟩ | ⟨laddr, lport, last, rfl, positive, small, rfl, how⟩
  · obtain ⟨error', rfl⟩ := Option.ne_none_iff_exists'.mp error'
    cases equal
    exact bare
  · have whole : connectTo { (head.set inp.id fun inp => { inp with lport := 0 }).set inp.id (rename laddr lport) with
        lport := last } inp.id faddr fport = { head.set inp.id (connected laddr lport faddr fport) with lport := last } := by
      rw [connectTo, set_withPort, set_set, set_set]
      · rfl
      all_goals exact fun _ => rfl
    cases equal
    rw [whole]
    apply Sound.withPort _ small
    refine sound.set there (fun _ => rfl) (fun _ => .inr positive) fun _ other member apart same => ?_
    rcases how with ⟨addr', asked, rfl⟩ | spare
    · cases asked
      have any : addr = inaddrAny := by
        by_contra given
        exact missing ⟨positive, given⟩
      subst any
      rw [if_neg fun away => away.1 rfl] at same
      exact unused (connected inaddrAny inp.lport faddr fport inp) none other member same
    · have here : other ∈ (head.set inp.id fun inp => { inp with lport := 0 }).pcbs :=
        List.mem_map.mpr ⟨other, member, if_neg apart⟩
      exact spare other here apart ⟨same.lport.symm, .inr (.inr same.laddr.symm)⟩

theorem inPcbconnect_sound {given : Bool} {nam : Dest} (sound : Sound head)
    (there : inp ∈ head.pcbs) (unconnected : inp.faddr = inaddrAny)
    (result : inPcbconnect net head given inp nam = some (error, after)) : Sound after := by
  unfold inPcbconnect at result
  by_cases sized : nam.sized
  swap
  · rw [if_pos (by exact sized)] at result
    cases result
    exact sound
  by_cases inet : nam.inet
  swap
  · rw [if_neg (not_not.mpr sized), if_pos (by exact inet)] at result
    cases result
    exact sound
  by_cases zero : nam.port = 0
  · rw [if_neg (not_not.mpr sized), if_neg (not_not.mpr inet), if_pos zero] at result
    cases result
    exact sound
  rw [if_neg (not_not.mpr sized), if_neg (not_not.mpr inet), if_neg zero] at result
  dsimp only at result
  generalize destAddr net nam.addr = dest at result
  split at result
  · rename_i own
    split at result
    · cases result
      exact sound
    · rename_i free
      cases result
      have none := Option.not_isSome_iff_eq_none.mp free
      exact sound.set there (fun _ => rfl) (fun _ => .inl own) fun _ other member _ =>
        unused { inp with faddr := dest, fport := nam.port } none other member
  · split at result
    · cases result
      exact sound
    · rename_i addr _
      split at result
      · cases result
        exact sound
      · rename_i free
        have none := Option.not_isSome_iff_eq_none.mp free
        split at result
        · rename_i both
          cases result
          rw [connectTo, set_set fun _ => by rfl]
          exact sound.set there (fun _ => rfl) (fun _ => .inl both.2) fun _ other member _ =>
            unused { inp with laddr := addr, faddr := dest, fport := nam.port } none other member
        · rename_i missing
          split at result
          · cases result
            exact sound
          · exact connectBound_sound sound there unconnected missing none result

/-! ## Runs -/

theorem inPcballoc_sound (options : Pcb) (sound : Sound head) : Sound (inPcballoc head options) := by
  refine ⟨?_, ?_, ?_, ?_, sound.port⟩
  · refine List.nodup_cons.mpr ⟨fun taken => ?_, sound.keyed⟩
    obtain ⟨other, there, same⟩ := List.mem_map.mp taken
    exact absurd (sound.fresh other there) (same ▸ lt_irrefl _)
  · exact List.forall_mem_cons.mpr ⟨Nat.lt_succ_self _, fun other there => (sound.fresh other there).trans (Nat.lt_succ_self _)⟩
  · intro first one second two named same
    rcases List.mem_cons.mp one with rfl | one
    · exact absurd rfl named
    · rcases List.mem_cons.mp two with rfl | two
      · exact absurd same.faddr named
      · exact sound.single first one second two named same
  · exact List.forall_mem_cons.mpr ⟨fun named => absurd rfl named, sound.named⟩

theorem inPcbdetach_sound (id : Nat) (sound : Sound head) : Sound (inPcbdetach head id) := by
  have fewer {other : Pcb} (there : other ∈ (inPcbdetach head id).pcbs) : other ∈ head.pcbs := (List.mem_filter.mp there).1
  exact ⟨sound.keyed.sublist (List.filter_sublist.map _), fun other there => sound.fresh other (fewer there),
    fun first one second two => sound.single first (fewer one) second (fewer two),
    fun other there => sound.named other (fewer there), sound.port⟩

theorem inPcbdisconnect_sound (sound : Sound head) (there : inp ∈ head.pcbs) : Sound (inPcbdisconnect head inp) := by
  have bare : Sound (head.set inp.id fun inp => { inp with faddr := inaddrAny, fport := 0 }) :=
    sound.unconnected there (fun _ => rfl) rfl
  rw [inPcbdisconnect]
  split
  · exact inPcbdetach_sound inp.id bare
  · exact bare

theorem passiveOpen_sound {given : Bool} {options : Pcb} {src : Addr} {sport : Nat}
    (sound : Sound head) (result : passiveOpen net head given options laddr lport src sport = some (error, after)) :
    Sound after := by
  obtain ⟨⟨failed, bound⟩, connects, equal⟩ := Option.map_eq_some_iff.mp result
  have made := inPcballoc_sound options sound
  have first : { options with id := head.nextId, laddr := inaddrAny, lport := 0, faddr := inaddrAny, fport := 0 } ∈
      (inPcballoc head options).pcbs := (.head _)
  have named : Sound ((inPcballoc head options).set head.nextId (rename laddr lport)) :=
    made.unconnected first (fun _ => rfl) rfl
  have opened := inPcbconnect_sound named (mem_set first (rename laddr lport)) rfl connects
  cases failed with
  | none =>
    cases equal
    exact opened
  | some _ =>
    cases equal
    exact inPcbdetach_sound _ opened

end

end Svr4.Inpcb
