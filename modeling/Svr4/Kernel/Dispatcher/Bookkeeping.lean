import Mathlib.Algebra.BigOperators.Ring.Finset
import Svr4.Kernel.Dispatcher.Counts

/-! Dispatcher bookkeeping is exact. -/

namespace Svr4.Dispatcher

open Bitmap
open Function (update update_self update_of_ne update_eq_self)

attribute [local simp] Disp.setProc Disp.setDispq Disp.link

/-- The eligible processes of a list. -/
def eligibles (d : Disp) (list : List Nat) : Nat := list.countP fun pp => (d.proc pp).eligible

/-- The dispatcher queues are the lists, and the counts are right. -/
structure Booked (vProc nglobpris : Nat) (d : Disp) (queue : Nat → List Nat) : Prop where
  fifo : ∀ pri, Fifo d.link (d.dispq pri).dqFirst (d.dispq pri).dqLast (queue pri)
  member : ∀ pri, ∀ pp ∈ queue pri, (d.proc pp).pPri = pri ∧ pp < vProc ∧ pri < nglobpris
  counted : Counted nglobpris d fun pri => eligibles d (queue pri)

section
variable {vProc nglobpris pri pp : Nat} {d d' : Disp} {queue : Nat → List Nat} {list left right : List Nat}

theorem eligible_congr {p p' : Proc} (same : p'.pFlag = p.pFlag) : p'.eligible ↔ p.eligible := by
  unfold Proc.eligible
  rw [same]

theorem eligibles_congr (same : ∀ pp ∈ list, (d'.proc pp).pFlag = (d.proc pp).pFlag) :
    eligibles d' list = eligibles d list := by
  refine List.countP_congr fun pp member => ?_
  rw [decide_eq_true_eq, decide_eq_true_eq]
  exact eligible_congr (same pp member)

theorem eligibles_cons : eligibles d (pp :: list) = eligibles d list + if (d.proc pp).eligible then 1 else 0 := by
  simp [eligibles, List.countP_cons]

/-! ## Being on a queue -/

namespace Booked

theorem queued_iff (booked : Booked vProc nglobpris d queue) : d.Queued pp ↔ ∃ pri, pp ∈ queue pri := by
  constructor
  · rintro ⟨pri, list, chain, member⟩
    exact ⟨pri, (chain.unique (booked.fifo pri).chain) ▸ member⟩
  · rintro ⟨pri, member⟩
    exact ⟨pri, _, (booked.fifo pri).chain, member⟩

theorem apart (booked : Booked vProc nglobpris d queue) {other : Nat} (member : pp ∈ queue pri) (differ : other ≠ pri) :
    pp ∉ queue other := fun there =>
  differ ((booked.member other pp there).1.symm.trans (booked.member pri pp member).1)

theorem length_le (booked : Booked vProc nglobpris d queue) : (queue pri).length ≤ vProc := by
  have sub : queue pri ⊆ List.range vProc := fun pp member => List.mem_range.mpr (booked.member pri pp member).2.1
  simpa using (List.subperm_of_subset (booked.fifo pri).chain.nodup sub).length_le

end Booked

/-! ## Changes of one queue -/

/-- At most the links, and the ends of queue `pri`, differ. -/
structure Relinked (pri : Nat) (d d' : Disp) : Prop where
  pFlag : ∀ pp, (d'.proc pp).pFlag = (d.proc pp).pFlag
  pPri : ∀ pp, (d'.proc pp).pPri = (d.proc pp).pPri
  others : ∀ i, i ≠ pri → d'.dispq i = d.dispq i
  dqSruncnt : (d'.dispq pri).dqSruncnt = (d.dispq pri).dqSruncnt
  srunprocs : d'.srunprocs = d.srunprocs
  dqactmap : d'.dqactmap = d.dqactmap
  maxrunpri : d'.maxrunpri = d.maxrunpri

theorem Relinked.trans {d'' : Disp} (first : Relinked pri d d') (second : Relinked pri d' d'') : Relinked pri d d'' where
  pFlag pp := (second.pFlag pp).trans (first.pFlag pp)
  pPri pp := (second.pPri pp).trans (first.pPri pp)
  others i other := (second.others i other).trans (first.others i other)
  dqSruncnt := second.dqSruncnt.trans first.dqSruncnt
  srunprocs := second.srunprocs.trans first.srunprocs
  dqactmap := second.dqactmap.trans first.dqactmap
  maxrunpri := second.maxrunpri.trans first.maxrunpri

theorem relinked_link (link : Option Nat) : Relinked pri d (d.setProc pp fun p => { p with pLink := link }) := by
  refine ⟨fun other => ?_, fun other => ?_, fun _ _ => rfl, rfl, rfl, rfl, rfl⟩
  · by_cases same : other = pp
    · subst same
      simp
    · simp [same]
  · by_cases same : other = pp
    · subst same
      simp
    · simp [same]

theorem relinked_ends (first last : Option Nat) :
    Relinked pri d (d.setDispq pri fun dq => { dq with dqFirst := first, dqLast := last }) :=
  ⟨fun _ => rfl, fun _ => rfl, fun i other => by simp [other], by simp, rfl, rfl, rfl⟩

theorem Relinked.counted {count : Nat → Nat} (relinked : Relinked pri d d') (counted : Counted nglobpris d count) :
    Counted nglobpris d' count := by
  refine counted.congr (fun i => ?_) relinked.srunprocs relinked.dqactmap relinked.maxrunpri
  by_cases same : i = pri
  · rw [same, relinked.dqSruncnt]
  · rw [relinked.others i same]

theorem eligibles_update (relinked : Relinked pri d d') :
    (fun i => eligibles d' (update queue pri list i)) =
      update (fun i => eligibles d (queue i)) pri (eligibles d list) := by
  funext i
  rw [eligibles_congr fun pp _ => relinked.pFlag pp]
  by_cases same : i = pri
  · subst same
    rw [update_self, update_self]
  · rw [update_of_ne same, update_of_ne same]

theorem Booked.recount {d'' : Disp} (fifo : ∀ i, Fifo d'.link (d'.dispq i).dqFirst (d'.dispq i).dqLast (queue i))
    (member : ∀ i, ∀ pp ∈ queue i, (d'.proc pp).pPri = i ∧ pp < vProc ∧ i < nglobpris) (proc : d''.proc = d'.proc)
    (ends : ∀ i, (d''.dispq i).dqFirst = (d'.dispq i).dqFirst ∧ (d''.dispq i).dqLast = (d'.dispq i).dqLast)
    (counted : Counted nglobpris d'' fun i => eligibles d' (queue i)) : Booked vProc nglobpris d'' queue where
  fifo i := by
    obtain ⟨first, last⟩ := ends i
    rw [first, last]
    exact (fifo i).congr fun pp _ => by rw [Disp.link, proc]
  member i pp inside := by
    rw [proc]
    exact member i pp inside
  counted := by
    have same : (fun i => eligibles d'' (queue i)) = fun i => eligibles d' (queue i) :=
      funext fun i => eligibles_congr fun pp _ => by rw [proc]
    rw [same]
    exact counted

theorem Booked.lists (booked : Booked vProc nglobpris d queue) (relinked : Relinked pri d d')
    (fifo : Fifo d'.link (d'.dispq pri).dqFirst (d'.dispq pri).dqLast list)
    (links : ∀ i, i ≠ pri → ∀ other ∈ queue i, d'.link other = d.link other) (i : Nat) :
    Fifo d'.link (d'.dispq i).dqFirst (d'.dispq i).dqLast (update queue pri list i) := by
  by_cases same : i = pri
  · subst same
    rw [update_self]
    exact fifo
  · rw [update_of_ne same, relinked.others i same]
    exact (booked.fifo i).congr (links i same)

theorem Booked.insert (booked : Booked vProc nglobpris d queue) (relinked : Relinked pri d d')
    (fifo : Fifo d'.link (d'.dispq pri).dqFirst (d'.dispq pri).dqLast list) (perm : list.Perm (pp :: queue pri))
    (here : (d.proc pp).pPri = pri) (slot : pp < vProc) (inside : pri < nglobpris)
    (links : ∀ i, i ≠ pri → ∀ other ∈ queue i, d'.link other = d.link other) :
    Booked vProc nglobpris (if (d'.proc pp).eligible then dqSruninc pri d' else d') (update queue pri list) := by
  have lists := booked.lists relinked fifo links
  have members (i : Nat) (other : Nat) (there : other ∈ update queue pri list i) :
      (d'.proc other).pPri = i ∧ other < vProc ∧ i < nglobpris := by
    rw [relinked.pPri]
    by_cases same : i = pri
    · subst same
      rw [update_self] at there
      rcases List.mem_cons.mp (perm.mem_iff.mp there) with rfl | there
      · exact ⟨here, slot, inside⟩
      · exact booked.member i other there
    · rw [update_of_ne same] at there
      exact booked.member i other there
  have counted := relinked.counted booked.counted
  have number : eligibles d list = eligibles d (pp :: queue pri) := perm.countP_eq _
  have flag : (d'.proc pp).eligible ↔ (d.proc pp).eligible := eligible_congr (relinked.pFlag pp)
  split
  · next some =>
    refine Booked.recount lists members dqSruninc_lists.1 dqSruninc_lists.2 ?_
    rw [eligibles_update relinked, number]
    rw [eligibles_cons, if_pos (flag.mp some)]
    exact counted.inc inside
  · next none =>
    refine Booked.recount lists members rfl (fun _ => ⟨rfl, rfl⟩) ?_
    rw [eligibles_update relinked, number]
    rw [eligibles_cons, if_neg fun yes => none (flag.mpr yes), Nat.add_zero, update_eq_self]
    exact counted

theorem Booked.delete (booked : Booked vProc nglobpris d queue) (relinked : Relinked pri d d')
    (fifo : Fifo d'.link (d'.dispq pri).dqFirst (d'.dispq pri).dqLast list) (perm : (queue pri).Perm (pp :: list))
    (links : ∀ i, i ≠ pri → ∀ other ∈ queue i, d'.link other = d.link other) :
    Booked vProc nglobpris (if (d'.proc pp).eligible then dqSrundec pri d' else d') (update queue pri list) := by
  have lists := booked.lists relinked fifo links
  have members (i : Nat) (other : Nat) (there : other ∈ update queue pri list i) :
      (d'.proc other).pPri = i ∧ other < vProc ∧ i < nglobpris := by
    rw [relinked.pPri]
    by_cases same : i = pri
    · subst same
      rw [update_self] at there
      exact booked.member i other (perm.mem_iff.mpr (.tail _ there))
    · rw [update_of_ne same] at there
      exact booked.member i other there
  have counted := relinked.counted booked.counted
  have number : eligibles d (queue pri) = eligibles d (pp :: list) := perm.countP_eq _
  have flag : (d'.proc pp).eligible ↔ (d.proc pp).eligible := eligible_congr (relinked.pFlag pp)
  split
  · next some =>
    refine Booked.recount lists members dqSrundec_lists.1 dqSrundec_lists.2 ?_
    rw [eligibles_update relinked]
    refine counted.dec ?_
    rw [number, eligibles_cons, if_pos (flag.mp some)]
  · next none =>
    refine Booked.recount lists members rfl (fun _ => ⟨rfl, rfl⟩) ?_
    rw [eligibles_update relinked]
    have equal : eligibles d list = eligibles d (queue pri) := by
      rw [number, eligibles_cons, if_neg fun yes => none (flag.mpr yes), Nat.add_zero]
    rw [equal, update_eq_self]
    exact counted

/-! ## The calls -/

theorem setbackdq_booked (booked : Booked vProc nglobpris d queue) (slot : pp < vProc)
    (inside : (d.proc pp).pPri < nglobpris) (free : ¬ d.Queued pp) :
    Booked vProc nglobpris (setbackdq pp d)
      (update queue (d.proc pp).pPri (queue (d.proc pp).pPri ++ [pp])) := by
  have absent (i : Nat) : pp ∉ queue i := fun member => free (booked.queued_iff.mpr ⟨i, member⟩)
  have fifo := booked.fifo (d.proc pp).pPri
  have perm : (queue (d.proc pp).pPri ++ [pp]).Perm (pp :: queue (d.proc pp).pPri) := List.perm_append_comm
  cases tail : (d.dispq (d.proc pp).pPri).dqLast with
  | none =>
    let d₁ := (d.setProc pp fun p => { p with pLink := none }).setDispq (d.proc pp).pPri fun dq =>
      { dq with dqFirst := some pp, dqLast := some pp }
    have links {other : Nat} (differ : other ≠ pp) : d₁.link other = d.link other := by
      simp [d₁, differ]
    have result : setbackdq pp d = if (d₁.proc pp).eligible then dqSruninc (d.proc pp).pPri d₁ else d₁ := by
      simp [setbackdq, d₁, tail]
    have relinked : Relinked (d.proc pp).pPri d d₁ := (relinked_link none).trans (relinked_ends _ _)
    rw [result]
    refine booked.insert relinked ?_ perm rfl slot inside fun i _ other member => links fun same => absent i (same ▸ member)
    have appended := fifo.append (absent _) (by simp [d₁])
      (by simp [tail]) fun other member _ => links fun same => absent _ (same ▸ member)
    simpa [d₁, tail] using appended
  | some last =>
    have inList : last ∈ queue (d.proc pp).pPri := by
      rw [fifo.last] at tail
      exact List.mem_of_getLast? tail
    have differ : last ≠ pp := fun same => absent _ (same ▸ inList)
    let d₁ := ((d.setProc pp fun p => { p with pLink := none }).setProc last fun p =>
      { p with pLink := some pp }).setDispq (d.proc pp).pPri fun dq => { dq with dqLast := some pp }
    have links {other : Nat} (notNew : other ≠ pp) (notLast : other ≠ last) : d₁.link other = d.link other := by
      simp [d₁, notNew, notLast]
    have result : setbackdq pp d = if (d₁.proc pp).eligible then dqSruninc (d.proc pp).pPri d₁ else d₁ := by
      simp [setbackdq, d₁, tail]
    have relinked : Relinked (d.proc pp).pPri d d₁ :=
      (relinked_link none).trans ((relinked_link (some pp)).trans (relinked_ends _ (some pp)))
    rw [result]
    refine booked.insert relinked ?_ perm rfl slot inside fun i away other member => links
      (fun same => absent i (same ▸ member)) fun same => booked.apart inList away (same ▸ member)
    have appended := fifo.append (absent _)
      (by simp [d₁, differ.symm])
      (by simp [d₁, tail])
      fun other member final => links (fun same => absent _ (same ▸ member)) fun same => final (by rw [tail, same])
    simpa [d₁, tail] using appended

theorem setfrontdq_booked (booked : Booked vProc nglobpris d queue) (slot : pp < vProc)
    (inside : (d.proc pp).pPri < nglobpris) (free : ¬ d.Queued pp) :
    Booked vProc nglobpris (setfrontdq pp d)
      (update queue (d.proc pp).pPri (pp :: queue (d.proc pp).pPri)) := by
  have absent (i : Nat) : pp ∉ queue i := fun member => free (booked.queued_iff.mpr ⟨i, member⟩)
  have fifo := booked.fifo (d.proc pp).pPri
  let d₁ := (d.setProc pp fun p => { p with pLink := (d.dispq (d.proc pp).pPri).dqFirst }).setDispq (d.proc pp).pPri
    fun dq => { dq with dqFirst := some pp, dqLast := if dq.dqFirst = none then some pp else dq.dqLast }
  have links {other : Nat} (differ : other ≠ pp) : d₁.link other = d.link other := by
    simp [d₁, differ]
  have result : setfrontdq pp d = if (d₁.proc pp).eligible then dqSruninc (d.proc pp).pPri d₁ else d₁ := by
    cases head : (d.dispq (d.proc pp).pPri).dqFirst with
    | none => simp [setfrontdq, d₁, head]
    | some first => simp [setfrontdq, d₁, head]
  have relinked : Relinked (d.proc pp).pPri d d₁ := (relinked_link _).trans (relinked_ends (some pp) _)
  rw [result]
  refine booked.insert relinked ?_ (.refl _) rfl slot inside fun i _ other member =>
    links fun same => absent i (same ▸ member)
  have pushed := fifo.push (a := pp) (by simp [d₁])
    fun other member => links fun same => absent _ (same ▸ member)
  cases head : (d.dispq (d.proc pp).pPri).dqFirst with
  | none => simpa [d₁, head] using pushed
  | some first => simpa [d₁, head] using pushed

theorem unlink_relinked (prp : Option Nat) : Relinked pri d (d.unlink pri prp pp) := by
  cases prp with
  | none => exact relinked_ends _ _
  | some prp => exact (relinked_link _).trans (relinked_ends _ _)

/-- `rp` leaves its queue, found behind the process before it. -/
theorem unlink_booked (booked : Booked vProc nglobpris d queue) (split : queue pri = left ++ pp :: right) :
    Booked vProc nglobpris
      (if ((d.unlink pri left.getLast? pp).proc pp).eligible then dqSrundec pri (d.unlink pri left.getLast? pp)
        else d.unlink pri left.getLast? pp) (update queue pri (left ++ right)) := by
  have fifo := booked.fifo pri
  rw [split] at fifo
  have perm : (queue pri).Perm (pp :: (left ++ right)) := by
    rw [split]
    exact List.perm_middle
  cases before : left.getLast? with
  | none =>
    obtain rfl := List.getLast?_eq_none_iff.mp before
    refine booked.delete (unlink_relinked none) ?_ perm fun _ _ _ _ => rfl
    have removed := fifo.remove (by simp) fun other _ _ => rfl
    simpa [Disp.unlink] using removed
  | some prp =>
    have inList : prp ∈ queue pri := by
      rw [split]
      exact List.mem_append_left _ (List.mem_of_getLast? before)
    have links {other : Nat} (differ : other ≠ prp) : (d.unlink pri (some prp) pp).link other = d.link other := by
      simp [Disp.unlink, differ]
    refine booked.delete (unlink_relinked (some prp)) ?_ perm fun i away other member =>
      links fun same => booked.apart inList away (same ▸ member)
    have removed := fifo.remove
      (by simp [before, Disp.unlink])
      fun other _ final => links fun same => final (by rw [before, same])
    rw [before] at removed
    simpa [Disp.unlink] using removed

/-! ## Walking a queue -/

theorem walk_finds {test : Nat → Bool} {fuel : Nat} {head : Option Nat} {done rest : List Nat}
    (chain : Chain d.link head rest) (enough : rest.length < fuel) :
    (walk d test fuel done.getLast? head = some none ∧ ∀ other ∈ rest, test other = false) ∨
    ∃ left rp right, rest = left ++ rp :: right ∧ (∀ other ∈ left, test other = false) ∧ test rp = true ∧
      walk d test fuel done.getLast? head = some (some (rp, (done ++ left).getLast?)) := by
  induction rest generalizing fuel done head with
  | nil =>
    obtain ⟨fuel, rfl⟩ := Nat.exists_eq_add_one.mpr enough
    obtain rfl := chain.head_eq
    exact .inl ⟨rfl, by simp⟩
  | cons rp rest ih =>
    obtain ⟨fuel, rfl⟩ := Nat.exists_eq_succ_of_ne_zero (Nat.ne_zero_of_lt enough)
    obtain rfl : head = some rp := chain.head_eq
    have tail : Chain d.link (d.link rp) rest := chain.tail
    unfold walk
    by_cases accepted : test rp = true
    · exact .inr ⟨[], rp, rest, rfl, by simp, accepted, by simp [accepted]⟩
    · have refused : test rp = false := by simpa using accepted
      rw [if_neg accepted]
      have moved := (@ih _ _ (done ++ [rp])) tail (by simpa using enough)
      rw [List.getLast?_concat] at moved
      rcases moved with ⟨result, none⟩ | ⟨left, found, right, rfl, before, yes, result⟩
      · exact .inl ⟨result, by simpa [refused] using none⟩
      · refine .inr ⟨rp :: left, found, right, rfl, by simpa [refused] using before, yes, ?_⟩
        rw [result]
        simp

/-! ## What the calls leave alone -/

/-- A process that is on a queue neither before nor after is as it was, and no process
changes but for its link. -/
structure Framed (queue queue' : Nat → List Nat) (d d' : Disp) : Prop where
  outside : ∀ pp, (∀ pri, pp ∉ queue pri) → (∀ pri, pp ∉ queue' pri) → d'.proc pp = d.proc pp
  pStat : ∀ pp, (d'.proc pp).pStat = (d.proc pp).pStat
  pFlag : ∀ pp, (d'.proc pp).pFlag = (d.proc pp).pFlag
  pPri : ∀ pp, (d'.proc pp).pPri = (d.proc pp).pPri

theorem setProc_link (link : Option Nat) (other : Nat) :
    ((d.setProc pp fun p => { p with pLink := link }).proc other).pStat = (d.proc other).pStat ∧
      ((d.setProc pp fun p => { p with pLink := link }).proc other).pFlag = (d.proc other).pFlag ∧
      ((d.setProc pp fun p => { p with pLink := link }).proc other).pPri = (d.proc other).pPri := by
  by_cases same : other = pp
  · subst same
    simp
  · simp [same]

theorem counted_proc (test : Prop) [Decidable test] :
    (if test then dqSruninc pri d else d).proc = d.proc ∧ (if test then dqSrundec pri d else d).proc = d.proc := by
  by_cases yes : test
  · rw [if_pos yes, if_pos yes]
    exact ⟨dqSruninc_lists.1, dqSrundec_lists.1⟩
  · rw [if_neg yes, if_neg yes]
    exact ⟨rfl, rfl⟩

theorem setbackdq_framed (booked : Booked vProc nglobpris d queue) :
    Framed queue (update queue (d.proc pp).pPri (queue (d.proc pp).pPri ++ [pp])) d (setbackdq pp d) := by
  have proc : (setbackdq pp d).proc = (d.dispq (d.proc pp).pPri).dqLast.elim
      (d.setProc pp fun p => { p with pLink := none }).proc
      fun last => ((d.setProc pp fun p => { p with pLink := none }).setProc last fun p =>
        { p with pLink := some pp }).proc := by
    unfold setbackdq
    simp only [counted_proc]
    cases tail : (d.dispq (d.proc pp).pPri).dqLast with
    | none => simp [tail]
    | some last => simp [tail]
  have away {other : Nat} (after : ∀ pri, other ∉ update queue (d.proc pp).pPri
      (queue (d.proc pp).pPri ++ [pp]) pri) : other ≠ pp := by
    rintro rfl
    have last := after (d.proc other).pPri
    simp at last
  cases tail : (d.dispq (d.proc pp).pPri).dqLast with
  | none =>
    rw [tail] at proc
    dsimp only [Option.elim] at proc
    refine ⟨fun other _ after => ?_, fun other => ?_, fun other => ?_, fun other => ?_⟩
    · rw [proc]
      simp [away after]
    · rw [proc]
      exact (setProc_link none other).1
    · rw [proc]
      exact (setProc_link none other).2.1
    · rw [proc]
      exact (setProc_link none other).2.2
  | some last =>
    rw [tail] at proc
    dsimp only [Option.elim] at proc
    refine ⟨fun other before after => ?_, fun other => ?_, fun other => ?_, fun other => ?_⟩
    · have differ : other ≠ last := by
        rintro rfl
        rw [(booked.fifo _).last] at tail
        exact before _ (List.mem_of_getLast? tail)
      rw [proc]
      simp [away after, differ]
    · rw [proc]
      exact (setProc_link (some pp) other).1.trans (setProc_link none other).1
    · rw [proc]
      exact (setProc_link (some pp) other).2.1.trans (setProc_link none other).2.1
    · rw [proc]
      exact (setProc_link (some pp) other).2.2.trans (setProc_link none other).2.2

theorem setfrontdq_framed :
    Framed queue (update queue (d.proc pp).pPri (pp :: queue (d.proc pp).pPri)) d (setfrontdq pp d) := by
  have proc : (setfrontdq pp d).proc =
      (d.setProc pp fun p => { p with pLink := (d.dispq (d.proc pp).pPri).dqFirst }).proc := by
    unfold setfrontdq
    simp only [counted_proc]
    cases head : (d.dispq (d.proc pp).pPri).dqFirst with
    | none => simp
    | some first => simp
  refine ⟨fun other _ after => ?_, fun other => ?_, fun other => ?_, fun other => ?_⟩
  · have differ : other ≠ pp := by
      rintro rfl
      have first := after (d.proc other).pPri
      simp at first
    rw [proc]
    simp [differ]
  · rw [proc]
    exact (setProc_link _ other).1
  · rw [proc]
    exact (setProc_link _ other).2.1
  · rw [proc]
    exact (setProc_link _ other).2.2

theorem unlink_framed (split : queue pri = left ++ pp :: right) {queue' : Nat → List Nat} :
    Framed queue queue' d (d.unlink pri left.getLast? pp) := by
  cases before : left.getLast? with
  | none => exact ⟨fun _ _ _ => rfl, fun _ => rfl, fun _ => rfl, fun _ => rfl⟩
  | some prp =>
    have inList : prp ∈ queue pri := by
      rw [split]
      exact List.mem_append_left _ (List.mem_of_getLast? before)
    refine ⟨fun other free _ => ?_, fun other => (setProc_link _ other).1, fun other => (setProc_link _ other).2.1,
      fun other => (setProc_link _ other).2.2⟩
    have differ : other ≠ prp := fun same => free pri (same ▸ inList)
    simp [Disp.unlink, differ]

theorem dispdeq_booked (booked : Booked vProc nglobpris d queue) :
    ∃ d' found queue', dispdeq vProc pp d = some (d', found) ∧ Booked vProc nglobpris d' queue' ∧
      Framed queue queue' d d' ∧ (∀ pri, queue' pri ⊆ queue pri) ∧ ∀ pri, pp ∉ queue' pri := by
  have length := (@Booked.length_le _ _ ((d.proc pp).pPri)) booked
  rcases (@walk_finds _ ((· = pp)) (vProc + 1) _ []) (booked.fifo (d.proc pp).pPri).chain (by omega) with
    ⟨result, others⟩ | ⟨left, rp, right, split, _, same, result⟩
  · refine ⟨d, false, queue, by simp [dispdeq, show walk d _ _ none _ = _ from result], booked,
      ⟨fun _ _ _ => rfl, fun _ => rfl, fun _ => rfl, fun _ => rfl⟩, fun pri => List.Subset.refl _, fun pri member => ?_⟩
    have here : (d.proc pp).pPri = pri := (booked.member pri pp member).1
    subst here
    have absent := others pp member
    simp at absent
  · have found : rp = pp := by simpa using same
    subst found
    have framed : Framed queue (update queue (d.proc rp).pPri (left ++ right)) d
        (d.unlink (d.proc rp).pPri left.getLast? rp) := unlink_framed split
    have nodup := (booked.fifo (d.proc rp).pPri).chain.nodup
    rw [split] at nodup
    refine ⟨_, true, _, ?_, unlink_booked booked split, ?_, fun pri => ?_, fun pri => ?_⟩
    · simp [dispdeq, show walk d _ _ none _ = _ from result]
    · refine ⟨fun other before after => ?_, fun other => ?_, fun other => ?_, fun other => ?_⟩
      · rw [(counted_proc _).2]
        exact framed.outside other before after
      · rw [(counted_proc _).2]
        exact framed.pStat other
      · rw [(counted_proc _).2]
        exact framed.pFlag other
      · rw [(counted_proc _).2]
        exact framed.pPri other
    · by_cases same : pri = (d.proc rp).pPri
      · subst same
        rw [update_self, split]
        intro other member
        simp only [List.mem_append, List.mem_cons] at member ⊢
        exact member.imp_right .inr
      · rw [update_of_ne same]
        exact List.Subset.refl _
    · by_cases same : pri = (d.proc rp).pPri
      · subst same
        rw [update_self]
        exact (List.nodup_middle.mp nodup).notMem
      · rw [update_of_ne same]
        exact fun member => same (booked.member pri rp member).1.symm

/-! ## Changes of processes -/

theorem Booked.congr (booked : Booked vProc nglobpris d queue)
    (same : ∀ pri, ∀ pp ∈ queue pri, (d'.proc pp).pLink = (d.proc pp).pLink ∧
      (d'.proc pp).pFlag = (d.proc pp).pFlag ∧ (d'.proc pp).pPri = (d.proc pp).pPri)
    (dispq : d'.dispq = d.dispq) (srunprocs : d'.srunprocs = d.srunprocs) (dqactmap : d'.dqactmap = d.dqactmap)
    (maxrunpri : d'.maxrunpri = d.maxrunpri) : Booked vProc nglobpris d' queue where
  fifo pri := by
    rw [dispq]
    exact (booked.fifo pri).congr fun pp member => (same pri pp member).1
  member pri pp member := by
    rw [(same pri pp member).2.2]
    exact booked.member pri pp member
  counted := by
    have equal : (fun pri => eligibles d' (queue pri)) = fun pri => eligibles d (queue pri) :=
      funext fun pri => eligibles_congr fun pp member => (same pri pp member).2.1
    rw [equal]
    exact booked.counted.congr (fun pri => by rw [dispq]) srunprocs dqactmap maxrunpri

section
variable (booked : Booked vProc nglobpris d queue)
include booked

theorem Booked.setStat (stat : Stat) :
    Booked vProc nglobpris (d.setProc pp fun p => { p with pStat := stat }) queue := by
  refine booked.congr (fun _ other _ => ?_) rfl rfl rfl rfl
  by_cases same : other = pp
  · subst same
    simp
  · simp [same]

theorem other_booked (p : Proc) (free : ¬ d.Queued pp) :
    Booked vProc nglobpris (d.setProc pp fun _ => p) queue := by
  refine booked.congr (fun pri other member => ?_) rfl rfl rfl rfl
  have differ : other ≠ pp := fun same => free (booked.queued_iff.mpr ⟨pri, same ▸ member⟩)
  simp [differ]

theorem setFlag_booked (flag : Nat) (queued : d.Queued pp) :
    Booked vProc nglobpris (setFlag pp flag d) queue := by
  obtain ⟨pri, member⟩ := booked.queued_iff.mp queued
  obtain ⟨here, _, inside⟩ := booked.member pri pp member
  obtain ⟨left, right, split⟩ := List.append_of_mem member
  have perm : (queue pri).Perm (pp :: (left ++ right)) := by
    rw [split]
    exact List.perm_middle
  have single : pp ∉ left ++ right := (List.nodup_cons.mp (perm.nodup_iff.mp (booked.fifo pri).chain.nodup)).1
  let new : Proc := { d.proc pp with pFlag := flag }
  let d₁ := d.setProc pp fun _ => new
  have changed : d₁.proc pp = new := by simp [d₁]
  have kept {other : Nat} (differ : other ≠ pp) : d₁.proc other = d.proc other := by simp [d₁, differ]
  have lists (i : Nat) : Fifo d₁.link (d₁.dispq i).dqFirst (d₁.dispq i).dqLast (queue i) := by
    refine (booked.fifo i).congr fun other _ => ?_
    by_cases same : other = pp
    · rw [Disp.link, same, changed]
    · rw [Disp.link, kept same]
  have members (i : Nat) (other : Nat) (there : other ∈ queue i) : (d₁.proc other).pPri = i ∧ other < vProc ∧ i < nglobpris := by
    by_cases same : other = pp
    · subst same
      rw [changed]
      exact booked.member i other there
    · rw [kept same]
      exact booked.member i other there
  -- Only the queue of the process is counted anew, and there only the process.
  have before : eligibles d (queue pri) = eligibles d (left ++ right) + if (d.proc pp).eligible then 1 else 0 :=
    (perm.countP_eq _).trans eligibles_cons
  have counts : (fun i => eligibles d₁ (queue i)) = update (fun i => eligibles d (queue i)) pri
      (eligibles d (left ++ right) + if new.eligible then 1 else 0) := by
    funext i
    by_cases same : i = pri
    · subst same
      have rest : eligibles d₁ (left ++ right) = eligibles d (left ++ right) :=
        eligibles_congr fun other there => by rw [kept fun equal => single (equal ▸ there)]
      have after : eligibles d₁ (queue i) = eligibles d₁ (pp :: (left ++ right)) := perm.countP_eq _
      rw [update_self, after, eligibles_cons, rest, changed]
    · rw [update_of_ne same]
      exact eligibles_congr fun other there => by rw [kept fun equal => booked.apart member same (equal ▸ there)]
  have counted : Counted nglobpris d₁ fun i => eligibles d (queue i) :=
    booked.counted.congr (fun _ => rfl) rfl rfl rfl
  have result : setFlag pp flag d = if ¬ (d.proc pp).eligible ∧ new.eligible then dqSruninc pri d₁
      else if (d.proc pp).eligible ∧ ¬ new.eligible then dqSrundec pri d₁ else d₁ := by
    rw [← here]
    rfl
  rw [result]
  by_cases was : (d.proc pp).eligible
  · rw [if_pos was] at before
    by_cases is : new.eligible
    · rw [if_neg (fun new => new.1 was), if_neg (fun new => new.2 is)]
      refine Booked.recount lists members rfl (fun _ => ⟨rfl, rfl⟩) ?_
      rw [counts, if_pos is, ← before, update_eq_self]
      exact counted
    · rw [if_neg (fun new => new.1 was), if_pos ⟨was, is⟩]
      refine Booked.recount lists members dqSrundec_lists.1 dqSrundec_lists.2 ?_
      rw [counts, if_neg is]
      exact counted.dec before
  · rw [if_neg was] at before
    by_cases is : new.eligible
    · rw [if_pos ⟨was, is⟩]
      refine Booked.recount lists members dqSruninc_lists.1 dqSruninc_lists.2 ?_
      rw [counts, if_pos is]
      have one : eligibles d (left ++ right) + 1 = eligibles d (queue pri) + 1 := by omega
      rw [one]
      exact counted.inc inside
    · rw [if_neg (fun new => is new.2), if_neg (fun new => was new.1)]
      refine Booked.recount lists members rfl (fun _ => ⟨rfl, rfl⟩) ?_
      rw [counts, if_neg is, ← before, update_eq_self]
      exact counted

end

theorem setFlag_proc (flag : Nat) :
    (setFlag pp flag d).proc = (d.setProc pp fun p => { p with pFlag := flag }).proc := by
  unfold setFlag
  simp only
  split
  · exact dqSruninc_lists.1
  · split
    · exact dqSrundec_lists.1
    · rfl

/-! ## Switching -/

/-- The count in `pswtch` is `dq_srundec` at the highest priority. -/
theorem pswtch_dec {d : Disp} (top : d.maxrunpri = pri) :
    (let d : Disp := { d with srunprocs := d.srunprocs - 1 }
      let d : Disp := d.setDispq pri fun dq => { dq with dqSruncnt := dq.dqSruncnt - 1 }
      (if (d.dispq pri).dqSruncnt = 0 then
        let maxrunword := pri >>> btUlshift
        let d : Disp := { d with dqactmap := btClear d.dqactmap pri }
        if d.srunprocs = 0 then { d with maxrunpri := -1 }
        else { d with maxrunpri := btGethighbit d.dqactmap maxrunword }
      else d : Disp)) = dqSrundec pri d := by
  unfold dqSrundec
  simp [top]

/-- What a switch does to the processes: only the one that stops running and those on
the queues are touched. -/
structure Switched (queue queue' : Nat → List Nat) (d d' : Disp) : Prop where
  outside : ∀ pp, (∀ pri, pp ∉ queue pri) → (d.proc pp).pStat ≠ .sonproc → d'.proc pp = d.proc pp
  inside : ∀ pri, ∀ pp ∈ queue' pri, pp ∈ queue pri ∧
    ((d'.proc pp).pStat = (d.proc pp).pStat ∨ (d'.proc pp).pStat = .srun)
  pPri : ∀ pp, (d'.proc pp).pPri = (d.proc pp).pPri

theorem yielded_booked (booked : Booked vProc nglobpris d queue) : Booked vProc nglobpris d.yielded queue := by
  unfold Disp.yielded
  split
  · exact booked.setStat .srun
  · exact booked

theorem yielded_maxrunpri : d.yielded.maxrunpri = d.maxrunpri := by
  unfold Disp.yielded
  split
  · rfl
  · rfl

theorem yielded_proc (pp : Nat) : d.yielded.proc pp = d.proc pp ∨
    (d.proc pp).pStat = .sonproc ∧ d.yielded.proc pp = { d.proc pp with pStat := .srun } := by
  unfold Disp.yielded
  split
  · next running =>
    by_cases same : pp = d.curproc
    · subst same
      exact .inr ⟨running, by simp⟩
    · exact .inl (by simp [same])
  · exact .inl rfl

theorem yielded_eligible : (d.yielded.proc pp).eligible ↔ (d.proc pp).eligible := by
  rcases yielded_proc (d := d) pp with same | ⟨_, same⟩
  · rw [same]
  · exact eligible_congr (by rw [same])

theorem yielded_switched : Switched queue queue d d.yielded := by
  refine ⟨fun pp _ other => ?_, fun _ pp member => ⟨member, ?_⟩, fun pp => ?_⟩
  · rcases yielded_proc (d := d) pp with same | ⟨running, _⟩
    · exact same
    · exact absurd running other
  · rcases yielded_proc (d := d) pp with same | ⟨_, same⟩
    · exact .inl (by rw [same])
    · exact .inr (by rw [same])
  · rcases yielded_proc (d := d) pp with same | ⟨_, same⟩
    · rw [same]
    · rw [same]

/-- `pswtch` comes back. Unless it idles, it runs the first eligible process of the
highest priority. -/
theorem pswtch_booked (booked : Booked vProc nglobpris d queue) :
    ∃ d' queue', pswtch vProc d = some d' ∧ Booked vProc nglobpris d' queue' ∧ Switched queue queue' d d' ∧
      (d.maxrunpri ≠ -1 → ∃ pri left right, d.maxrunpri = (pri : Nat) ∧ queue pri = left ++ d'.curproc :: right ∧
        (∀ other ∈ left, ¬ (d.proc other).eligible) ∧ (d.proc d'.curproc).eligible) := by
  have booked₁ := yielded_booked booked
  have maxrunpri := yielded_maxrunpri (d := d)
  have yielded := (@yielded_switched d queue)
  by_cases idle : d.maxrunpri = -1
  · refine ⟨{ d.yielded with curpri := 0, curproc := 0 }, queue, ?_, ?_, ?_, fun busy => absurd idle busy⟩
    · exact if_pos (maxrunpri.trans idle)
    · exact booked₁.congr (fun _ _ _ => ⟨rfl, rfl, rfl⟩) rfl rfl rfl rfl
    · exact ⟨yielded.outside, yielded.inside, yielded.pPri⟩
  · rcases booked₁.counted.highest with ⟨none, _⟩ | ⟨pri, top, positive, _⟩
    · exact absurd (maxrunpri.symm.trans none) idle
    have length := (@Booked.length_le _ _ pri) booked₁
    rcases (@walk_finds _ (fun pp => (d.yielded.proc pp).eligible) (vProc + 1) _ [])
      (booked₁.fifo pri).chain (by omega) with ⟨_, none⟩ | ⟨left, pp, right, split, before, eligible, result⟩
    · -- The count says that there is one.
      obtain ⟨pp, member, eligible⟩ := List.countP_pos_iff.mp positive
      rw [none pp member] at eligible
      cases eligible
    · have eligible : (d.yielded.proc pp).eligible := by simpa using eligible
      have relinked := (@unlink_relinked pri pp d.yielded) left.getLast?
      have framed : Framed queue (update queue pri (left ++ right)) d.yielded
        (d.yielded.unlink pri left.getLast? pp) := unlink_framed split
      have unlinked := unlink_booked booked₁ split
      rw [if_pos ((eligible_congr (relinked.pFlag pp)).mpr eligible)] at unlinked
      have here : pp ∈ queue pri := by
        rw [split]
        simp
      let d₂ := (dqSrundec pri (d.yielded.unlink pri left.getLast? pp)).setProc pp fun p => { p with pStat := .sonproc }
      have proc {other : Nat} (differ : other ≠ pp) : d₂.proc other = (d.yielded.unlink pri left.getLast? pp).proc other := by
        simp [d₂, differ, dqSrundec_lists.1]
      refine ⟨{ d₂ with curpri := (d₂.proc pp).pPri, curproc := pp }, _, ?_,
        (unlinked.setStat .sonproc).congr (fun _ _ _ => ⟨rfl, rfl, rfl⟩) rfl rfl rfl rfl, ?_,
        fun _ => ⟨pri, left, right, maxrunpri.symm.trans top, split, fun other member => ?_,
          yielded_eligible.mp eligible⟩⟩
      · have busy : d.yielded.maxrunpri ≠ -1 := by rwa [maxrunpri]
        have slot : d.yielded.maxrunpri.toNat = pri := by rw [top, Int.toNat_natCast]
        have found : walk d.yielded (fun pp => (d.yielded.proc pp).eligible) (vProc + 1) none
            (d.yielded.dispq pri).dqFirst = some (some (pp, left.getLast?)) := result
        have dec := pswtch_dec (relinked.maxrunpri.trans top)
        change (if d.yielded.maxrunpri = -1 then _ else _) = _
        rw [if_neg busy, slot, found]
        simp only [d₂, ← dec]
        rfl
      · have sub {i other : Nat} (member : other ∈ update queue pri (left ++ right) i) :
            other ∈ queue i ∧ other ≠ pp := by
          have nodup := (booked.fifo pri).chain.nodup
          rw [split] at nodup
          by_cases same : i = pri
          · subst same
            rw [update_self] at member
            refine ⟨?_, fun same => (List.nodup_middle.mp nodup).notMem (same ▸ member)⟩
            rw [split]
            simp only [List.mem_append, List.mem_cons] at member ⊢
            exact member.imp_right .inr
          · rw [update_of_ne same] at member
            exact ⟨member, fun equal => booked.apart here same (equal ▸ member)⟩
        refine ⟨fun other free stopped => ?_, fun i other member => ?_, fun other => ?_⟩
        · have differ : other ≠ pp := fun same => free pri (same ▸ here)
          refine (proc differ).trans ?_
          rw [framed.outside other free fun i member => free i (sub member).1]
          exact yielded.outside other free stopped
        · obtain ⟨member, differ⟩ := sub member
          refine ⟨member, ?_⟩
          rw [proc differ, framed.pStat other]
          exact (yielded.inside i other member).2
        · by_cases same : other = pp
          · subst same
            have kept : (d₂.proc other).pPri = ((d.yielded.unlink pri left.getLast? other).proc other).pPri := by
              simp [d₂, dqSrundec_lists.1]
            exact kept.trans ((framed.pPri other).trans (yielded.pPri other))
          · change (d₂.proc other).pPri = _
            rw [proc same]
            exact (framed.pPri other).trans (yielded.pPri other)
      · have refused := before other member
        simpa [yielded_eligible] using refused

/-! ## Runs -/

theorem boot_booked (boot : Boot d) : Booked vProc nglobpris d fun _ => [] := by
  obtain ⟨queues, map, srunprocs, maxrunpri⟩ := boot
  refine ⟨fun pri => ?_, by simp, ?_⟩
  · rw [queues]
    exact ⟨.nil, rfl⟩
  · constructor
    · intro pri
      rw [queues]
      rfl
    · simp [srunprocs, eligibles]
    · simp [eligibles]
    · simp [map]
    · simp [btTest, map, eligibles]
    · exact .inl ⟨maxrunpri, fun _ => rfl⟩

theorem step_booked {event : Event} (booked : Booked vProc nglobpris d queue)
    (step : Step vProc nglobpris d event d') : ∃ queue', Booked vProc nglobpris d' queue' := by
  cases step with
  | setbackdq slot inside free => exact ⟨_, setbackdq_booked booked slot inside free⟩
  | setfrontdq slot inside free => exact ⟨_, setfrontdq_booked booked slot inside free⟩
  | dispdeq result =>
    obtain ⟨d'', found, queue', same, booked', _⟩ := dispdeq_booked booked
    cases result.symm.trans same
    exact ⟨queue', booked'⟩
  | pswtch result =>
    obtain ⟨d'', queue', same, booked', _⟩ := pswtch_booked booked
    cases result.symm.trans same
    exact ⟨queue', booked'⟩
  | setFlag flag queued => exact ⟨queue, setFlag_booked booked flag queued⟩
  | other p free => exact ⟨queue, other_booked booked p free⟩

theorem reaches_booked (reached : Reaches Boot (Step vProc nglobpris) (fun _ _ => True) d) :
    ∃ queue, Booked vProc nglobpris d queue := by
  refine (@Reaches.invariant _ _ _ _ _ (fun d => ∃ queue, Booked vProc nglobpris d queue))
    (fun d boot => ⟨_, boot_booked boot⟩) ?_ reached
  rintro d event d' ⟨queue, booked⟩ step _
  exact step_booked booked step

/-- In every state the queues are lists of processes of their priority, the counts are
the eligible processes on them, and `pswtch` runs the first eligible process of the
highest priority that has one. -/
theorem bookkeeping_exact (reached : Reaches Boot (Step vProc nglobpris) (fun _ _ => True) d) :
    ∃ queue : Nat → List Nat,
      (∀ pri, Chain d.link (d.dispq pri).dqFirst (queue pri) ∧ (d.dispq pri).dqLast = (queue pri).getLast? ∧
        (∀ pp ∈ queue pri, (d.proc pp).pPri = pri) ∧
        (d.dispq pri).dqSruncnt = (queue pri).countP fun pp => (d.proc pp).eligible) ∧
      d.srunprocs = ∑ pri ∈ Finset.range nglobpris, (d.dispq pri).dqSruncnt ∧
      (∀ pri, btTest d.dqactmap pri ↔ 0 < (d.dispq pri).dqSruncnt) ∧
      ((d.maxrunpri = -1 ∧ ∀ pri, (d.dispq pri).dqSruncnt = 0) ∨
        ∃ top : Nat, d.maxrunpri = top ∧ 0 < (d.dispq top).dqSruncnt ∧
          ∀ pri, 0 < (d.dispq pri).dqSruncnt → pri ≤ top) ∧
      ∃ d', pswtch vProc d = some d' ∧ (d.maxrunpri ≠ -1 →
        ∃ left right, queue d.maxrunpri.toNat = left ++ d'.curproc :: right ∧
          (∀ pp ∈ left, ¬ (d.proc pp).eligible) ∧ (d.proc d'.curproc).eligible) := by
  obtain ⟨queue, booked⟩ := reaches_booked reached
  have each := booked.counted.each
  have positive (pri : Nat) : 0 < (d.dispq pri).dqSruncnt ↔ 0 < eligibles d (queue pri) := by
    rw [each]
    exact Int.natCast_pos
  refine ⟨queue, fun pri => ⟨(booked.fifo pri).chain, (booked.fifo pri).last,
    fun pp member => (booked.member pri pp member).1, each pri⟩, ?_, fun pri => ?_, ?_, ?_⟩
  · rw [booked.counted.total, Nat.cast_sum]
    exact Finset.sum_congr rfl fun pri _ => (each pri).symm
  · rw [positive]
    exact booked.counted.bits pri
  · rcases booked.counted.highest with ⟨idle, none⟩ | ⟨top, found, some, most⟩
    · exact .inl ⟨idle, fun pri => by simp [each, none]⟩
    · exact .inr ⟨top, found, (positive top).mpr some, fun pri more => most pri ((positive pri).mp more)⟩
  · obtain ⟨d', _, result, _, _, first⟩ := pswtch_booked booked
    refine ⟨d', result, fun busy => ?_⟩
    obtain ⟨pri, left, right, top, split, before, eligible⟩ := first busy
    rw [top, Int.toNat_natCast]
    exact ⟨left, right, split, before, eligible⟩

end

/-- Process 1 is swapped out and process 2 is loaded, both of priority 3. -/
def Disp.booted : Disp where
  proc pp := ⟨.srun, if pp = 2 then sload else 0, 3, none⟩
  dispq _ := ⟨none, none, 0⟩
  dqactmap _ := 0
  srunprocs := 0
  maxrunpri := -1
  curproc := 0
  curpri := 0

/-- The process behind the one that is swapped out runs. -/
theorem bookkeeping_exact_two : ∃ d, Reaches Boot (Step 4 8) (fun _ _ => True) d ∧ d.maxrunpri = 3 ∧
    ∃ d', pswtch 4 d = some d' ∧ d'.curproc = 2 := by
  have boot : Boot Disp.booted := ⟨fun _ => rfl, fun _ => rfl, rfl, rfl⟩
  have booked : Booked 4 8 Disp.booted fun _ => [] := boot_booked boot
  have free : ¬ Disp.booted.Queued 1 := by simp [booked.queued_iff]
  have booked₁ := setbackdq_booked booked (by decide : 1 < 4) (by decide : 3 < 8) free
  have free₁ : ¬ (setbackdq 1 Disp.booted).Queued 2 := by
    rw [booked₁.queued_iff]
    rintro ⟨pri, member⟩
    by_cases same : pri = 3
    · subst same
      simp [Disp.booted] at member
    · simp [Disp.booted, same] at member
  have one := ((@Reaches.start _ _ _ _ (fun _ _ => True)) boot).next
    ((@Step.setbackdq _ 8) (by decide : 1 < 4) (by decide) free) trivial
  have two := one.next (Step.setbackdq (by decide : 2 < 4) (by decide) free₁) trivial
  refine ⟨_, two, by decide, ?_⟩
  obtain ⟨_, _, _, _, _, d', result, _⟩ := bookkeeping_exact two
  refine ⟨d', result, ?_⟩
  have run : (pswtch 4 (setbackdq 2 (setbackdq 1 Disp.booted))).map Disp.curproc = some 2 := by decide
  rw [result] at run
  exact Option.some.inj run

end Svr4.Dispatcher
