import Svr4.Kernel.Inpcb.Names

/-! Runs of the calls on a list of control blocks. -/

namespace Svr4.Inpcb

def Starts (head : Head) : Prop := head.lport = 0 ∧ head.pcbs = []

def Step (head : Head) (event : Event) (after : Head) : Prop := ∃ error, run head event = some (error, after)

/-- A connection is only asked for on a control block that has none. -/
def Allowed (head : Head) : Event → Prop
  | .connect _ _ id _ => ∀ inp, head.find id = some inp → inp.faddr = inaddrAny
  | _ => True

abbrev Reached : Head → Prop := Reaches Starts Step Allowed

/-- A port of the range is spare for a control block. -/
def PortLeft (head : Head) (id : Nat) (laddr : Addr) : Prop := ∃ lport, InRange lport ∧ Spare head id laddr lport

/-- No port is asked for. -/
def Name.portless : Name → Prop
  | .null => True
  | .short => False
  | .sin _ port => port = 0

section
variable {net : Net} {head after : Head} {inp other : Pcb} {event : Event}

theorem run_sound (sound : Sound head) (taken : Step head event after) (allowed : Allowed head event) : Sound after := by
  obtain ⟨error, result⟩ := taken
  cases event with
  | alloc options =>
    cases result
    exact inPcballoc_sound options sound
  | bind net id nam =>
    obtain ⟨inp, found, result⟩ := Option.bind_eq_some_iff.mp result
    exact inPcbbind_sound sound (mem_find found).1 result
  | connect net given id nam =>
    obtain ⟨inp, found, result⟩ := Option.bind_eq_some_iff.mp result
    exact inPcbconnect_sound sound (mem_find found).1 (allowed inp found) result
  | disconnect id =>
    obtain ⟨inp, found, equal⟩ := Option.map_eq_some_iff.mp result
    cases equal
    exact inPcbdisconnect_sound sound (mem_find found).1
  | detach id =>
    obtain ⟨inp, found, equal⟩ := Option.map_eq_some_iff.mp result
    cases equal
    exact inPcbdetach_sound id sound
  | passive net given options laddr lport src sport => exact passiveOpen_sound sound result

theorem Reached.run {error : Option Errno} (reached : Reached head) (event : Event) (allowed : Allowed head event)
    (result : run head event = some (error, after)) : Reached after := .next reached ⟨error, result⟩ allowed

theorem reached_sound (reached : Reached head) : Sound head := by
  apply reached.invariant
  · intro head ⟨last, empty⟩
    have none {inp : Pcb} : inp ∉ head.pcbs := empty ▸ List.not_mem_nil
    refine ⟨?_, fun inp there => absurd there none, fun inp there => absurd there none, fun inp there => absurd there none, ?_⟩
    · rw [empty]
      exact List.nodup_nil
    · rw [last]
      exact Nat.zero_le _
  · intro head event after sound taken allowed
    exact run_sound sound taken allowed

theorem Sound.pairwise (sound : Sound head) : head.pcbs.Pairwise fun inp other => inp.faddr ≠ inaddrAny → ¬ Same inp other := by
  have apart : head.pcbs.Pairwise fun inp other => inp.id ≠ other.id := List.pairwise_map.mp sound.keyed
  apply apart.imp_of_mem
  intro inp other there also different connected same
  exact different (sound.single inp there other also connected same)

theorem inPcblookup_exact (sound : Sound head) (there : inp ∈ head.pcbs) (connected : inp.faddr ≠ inaddrAny) (wild : Bool) :
    inPcblookup head inp.faddr inp.fport inp.laddr inp.lport wild = some inp := by
  have ⟨fits, zero⟩ := exact_fits ⟨Eq.refl inp.laddr, Eq.refl inp.lport, Eq.refl inp.faddr, Eq.refl inp.fport⟩
  cases result : inPcblookup head inp.faddr inp.fport inp.laddr inp.lport wild with
  | none => exact absurd ⟨fits, .inl zero⟩ (inPcblookup_none.mp result inp there)
  | some other =>
    have best := inPcblookup_some result
    have none : wilds inp.faddr inp.laddr other = 0 := Nat.le_zero.mp (zero ▸ best.fewest inp there fits)
    have near := (wildOne_zero best.fits.laddr).mp (Nat.eq_zero_of_add_eq_zero_right none)
    have far : other.faddr = inp.faddr ∧ other.fport = inp.fport := by
      have agree : wildOne other.faddr inp.faddr = 0 := Nat.eq_zero_of_add_eq_zero_left none
      rcases best.fits.faddr with any | any | both
      · rw [wildOne, if_neg fun both => connected (both.mp any)] at agree
        cases agree
      · exact absurd any connected
      · exact both
    have same : Same inp other := ⟨near.symm, best.fits.lport.symm, far.1.symm, far.2.symm⟩
    rw [sound.only there best.member (sound.single inp there other best.member connected same)]

theorem inPcbbind_returns {nam : Name} (small : head.lport ≤ ipportUserreserved) (there : inp ∈ head.pcbs)
    (keyed : (head.pcbs.map Pcb.id).Nodup) :
    (inPcbbind net head inp nam).isSome = true ↔ ∀ laddr, sought net head inp nam = some laddr → PortLeft head inp.id laddr := by
  have binds := inPcbbind_binds net head inp nam
  generalize inPcbbind net head inp nam = answer, asked : sought net head inp nam = address at binds
  cases binds with
  | searches _ laddr =>
    have unnamed : inp.lport = 0 := by
      by_contra named
      unfold sought at asked
      rw [if_pos (.inl named)] at asked
      cases asked
    rw [bindAny_returns small there unnamed keyed]
    constructor
    · intro left laddr' equal
      cases equal
      exact left
    · intro all
      exact all laddr rfl
  | fails _ error => exact ⟨fun _ laddr none => (by cases none), fun _ => rfl⟩
  | gives addr port _ => exact ⟨fun _ laddr none => (by cases none), fun _ => rfl⟩

theorem inPcbbind_port {nam : Name} (small : head.lport ≤ ipportUserreserved) (portless : nam.portless)
    (result : inPcbbind net head inp nam = some (none, after)) :
    ∃ laddr lport, InRange lport ∧ Spare head inp.id laddr lport ∧
      after = { head.set inp.id (rename laddr lport) with lport := lport } := by
  have binds := inPcbbind_binds net head inp nam
  rw [result] at binds
  generalize same : some (none, after) = answer, sought net head inp nam = asked at binds
  cases binds with
  | searches _ laddr =>
    rw [bindAny_eq] at same
    obtain ⟨lport, found, equal⟩ := Option.map_eq_some_iff.mp same.symm
    obtain ⟨range, free⟩ := searchPort_some small found
    cases equal
    refine ⟨laddr, lport, range, fun other there apart => ?_, rfl⟩
    exact freePort_iff.mp free other (List.mem_map.mpr ⟨other, there, if_neg apart⟩)
  | fails _ error => cases same
  | gives addr port positive => exact absurd portless positive

end

/-- A control block with one of the ports, and any local address. -/
def holder (id : Nat) (lport : Nat) : Pcb :=
  ⟨id, inaddrAny, lport, inaddrAny, 0, false, false, true, false, false, false⟩

/-- The first ports of the range are taken. -/
def crowd (count : Nat) : Head :=
  ⟨0, ((List.range count).map fun k => holder k (ipportReserved + k)).reverse, count⟩

theorem mem_crowd {count : Nat} {inp : Pcb} : inp ∈ (crowd count).pcbs ↔ ∃ k < count, holder k (ipportReserved + k) = inp := by
  rw [crowd, List.mem_reverse, List.mem_map]
  exact exists_congr fun k => and_congr_left fun _ => List.mem_range

/-- What keeps the ports busy. -/
def nowhere : Net := ⟨[], fun _ => none⟩

theorem crowd_set (count : Nat) : (inPcballoc (crowd count) (holder 0 0)).set count (rename inaddrAny (ipportReserved + count)) =
    crowd (count + 1) := by
  have apart : count ∉ (crowd count).pcbs.map Pcb.id := by
    intro taken
    obtain ⟨inp, there, same⟩ := List.mem_map.mp taken
    obtain ⟨k, less, rfl⟩ := mem_crowd.mp there
    exact absurd same less.ne
  have others := changeAt_other (rename inaddrAny (ipportReserved + count)) apart
  rw [changeAt] at others
  rw [Head.set, inPcballoc, List.map_cons, others, if_pos (show (crowd count).nextId = count from rfl)]
  simp only [crowd, List.range_succ, List.map_append, List.reverse_append]
  rfl

theorem crowd_bind (count : Nat) : inPcbbind nowhere (inPcballoc (crowd count) (holder 0 0)) (holder count 0)
    (.sin inaddrAny (ipportReserved + count)) = some (none, crowd (count + 1)) := by
  have free (wild : Bool) :
      inPcblookup (inPcballoc (crowd count) (holder 0 0)) inaddrAny 0 inaddrAny (ipportReserved + count) wild = none := by
    rw [inPcblookup_none]
    intro inp there found
    have port := found.1.lport
    rcases List.mem_cons.mp there with rfl | there
    · unfold ipportReserved at port
      dsimp only at port
      omega
    · obtain ⟨k, less, rfl⟩ := mem_crowd.mp there
      dsimp only [holder] at port
      omega
  have named : ¬ ((holder count 0).lport ≠ 0 ∨ (holder count 0).laddr ≠ inaddrAny) := by simp [holder]
  have positive : ipportReserved + count ≠ 0 := by
    unfold ipportReserved
    omega
  have high : ¬ (ipportReserved + count < ipportReserved ∧ ¬ (holder count 0).priv) := fun low =>
    absurd low.1 (Nat.le_add_right _ _).not_gt
  unfold inPcbbind
  rw [if_neg named]
  simp only [free, ne_eq, not_true_eq_false, false_and, if_false, if_neg positive, if_neg high]
  exact congrArg (fun head => some (none, head)) (crowd_set count)

theorem crowd_reached (count : Nat) : Reached (crowd count) := by
  induction count with
  | zero => exact .start ⟨rfl, rfl⟩
  | succ count ih =>
    have made : Reached (inPcballoc (crowd count) (holder 0 0)) := Reached.run ih (.alloc (holder 0 0)) trivial rfl
    have found : (inPcballoc (crowd count) (holder 0 0)).find count = some (holder count 0) := by
      rw [Head.find, inPcballoc]
      simp [crowd, holder]
    have bound : run (inPcballoc (crowd count) (holder 0 0)) (.bind nowhere count (.sin inaddrAny (ipportReserved + count))) =
        some (none, crowd (count + 1)) := by
      rw [run, found]
      exact crowd_bind count
    exact made.run (.bind nowhere count (.sin inaddrAny (ipportReserved + count))) trivial bound

theorem crowd_used {lport : Nat} (range : InRange lport) :
    ∃ inp ∈ (inPcballoc (crowd turns) (holder 0 0)).pcbs, inp.id ≠ turns ∧ Uses inaddrAny lport inp := by
  have less : lport - ipportReserved < turns := by
    unfold InRange turns ipportReserved ipportUserreserved at *
    omega
  refine ⟨_, .tail _ (mem_crowd.mpr ⟨_, less, rfl⟩), less.ne, ?_, .inl rfl⟩
  exact Nat.add_sub_of_le range.1

end Svr4.Inpcb
