import Mathlib.Data.List.Chain
import Svr4.Kernel.Streams

/-! The list of enabled queues in memory, and the removal of two queues by `qdetach`.

The loop of `qdetach` goes over the list with a trailing pointer, which it moves on to the
queue it has just unlinked. A second queue right behind that one is then unlinked from
the first, which is no longer on the list.
-/

namespace Svr4.Streams

/-- `qhead`, `qtail` and the `q_link` of each queue. -/
structure Runlist where
  qhead : Option Nat
  qtail : Option Nat
  qLink : Nat → Option Nat

namespace Runlist

/-- The stores of `qenable` that put a queue on the list. -/
def enable (r : Runlist) (q : Nat) : Runlist :=
  let r := match r.qhead, r.qtail with
    | none, _ => { r with qhead := some q }
    | some _, none => r
    | some _, some tail => { r with qLink := Function.update r.qLink tail (some q) }
  { r with qtail := some q, qLink := Function.update r.qLink q none }

/-- The stores that unlink `q` from the queue before it. -/
def unlink (r : Runlist) (prev : Option Nat) (q : Nat) : Runlist :=
  let link := match prev with
    | some p => { r with qLink := Function.update r.qLink p (r.qLink q) }
    | none => { r with qhead := r.qLink q }
  if r.qtail = some q then { link with qtail := prev } else link

/-- The loop of `qdetach`, with `out` for the test of a queue. -/
def sweep (out : Nat → Bool) : Nat → Option Nat → Option Nat → Runlist → Option Runlist
  | 0, _, _, _ => none
  | _ + 1, none, _, r => some r
  | fuel + 1, some q, prev, r =>
    let r := if out q then r.unlink prev q else r
    sweep out fuel (r.qLink q) (some q) r

end Runlist

def wr (q : Nat) : Nat := q + 1

/-- A queue that is being detached. -/
def detached (qp q : Nat) : Bool := q = qp ∨ q = wr qp

/-- The removal from the run list; `nQueue` is more than there are queues. -/
def qdetach (nQueue qp : Nat) (k : Kernel) (r : Runlist) : Option Runlist :=
  if ((k.queue qp).qFlag ||| (k.queue (wr qp)).qFlag) &&& qenab ≠ 0 then
    r.sweep (detached qp) nQueue r.qhead none
  else some r

/-- The list in memory is the list of the model, and holds the enabled queues. -/
structure Runlist.Lists (r : Runlist) (k : Kernel) : Prop where
  fifo : Fifo r.qLink r.qhead r.qtail k.qrun
  enabled (q : Nat) : q ∈ k.qrun ↔ (k.queue q).qFlag &&& qenab ≠ 0

/-! ## Enabling -/

theorem qenab_set (flags : Nat) : (flags ||| qenab) &&& qenab ≠ 0 := by
  intro same
  have bit := congrArg (Nat.testBit · 0) same
  simp [qenab] at bit

/-- `qenable` on the list in memory. -/
theorem Runlist.Lists.qenable {r : Runlist} {k : Kernel} {q : Nat} (lists : r.Lists k)
    (srvp : (k.queue q).qiSrvp) (idle : (k.queue q).qFlag &&& qenab = 0) :
    (r.enable q).Lists (Streams.qenable q k) := by
  have fresh : q ∉ k.qrun := fun member => (lists.enabled q).mp member idle
  have result : Streams.qenable q k =
      { k.setQueue q (fun qp => { qp with qFlag := qp.qFlag ||| qenab }) with
        qrun := k.qrun ++ [q]
        qrunflag := true } := by
    simp [Streams.qenable, srvp, idle, Kernel.setQueue]
  rw [result]
  constructor
  · have head := lists.fifo.chain.head_eq
    have tail := lists.fifo.last
    have appended := @Fifo.append _ r.qLink (r.enable q).qLink r.qhead r.qtail k.qrun q lists.fifo fresh
      (by simp [enable])
      (fun p last => by
        have member : p ∈ k.qrun := List.mem_of_getLast? (by rw [← tail, last])
        have differ : p ≠ q := fun same => fresh (same ▸ member)
        obtain ⟨a, first⟩ : ∃ a, r.qhead = some a := by
          cases list : k.qrun with
          | nil => simp [list] at member
          | cons a rest => exact ⟨a, by rw [head, list]; rfl⟩
        simp [enable, first, last, differ])
      (fun b member other => by
        have differ : b ≠ q := fun same => fresh (same ▸ member)
        simp only [enable]
        cases first : r.qhead with
        | none => simp [differ]
        | some a =>
          cases last : r.qtail with
          | none => simp [differ]
          | some p =>
            have away : b ≠ p := fun same => other (by rw [last, same])
            simp [differ, away])
    have ends : (r.enable q).qhead = if r.qtail = none then some q else r.qhead := by
      simp only [enable]
      cases list : k.qrun with
      | nil => simp [head, tail, list]
      | cons a rest =>
        have last : r.qtail ≠ none := by simp [tail, list]
        obtain ⟨p, last⟩ := Option.ne_none_iff_exists'.mp last
        simp [head, last, list]
    refine ⟨ends ▸ appended.chain, ?_⟩
    show (r.enable q).qtail = _
    simp [enable]
  · intro p
    by_cases same : p = q
    · subst same
      simp [Kernel.setQueue, qenab_set]
    · simp [Kernel.setQueue, same, lists.enabled p]

/-! ## The sweep -/

section
variable {out : Nat → Bool}

/-- What the sweep leaves of the list: `off` when the queue it has passed last is not on
the list any more. -/
def survivors (out : Nat → Bool) : Bool → List Nat → List Nat
  | _, [] => []
  | off, q :: rest => if out q ∧ ¬ off then survivors out true rest else q :: survivors out false rest

attribute [local simp] survivors

/-- Between two rounds: the queues passed and left on the list, those to come, and the
trailing pointer. -/
structure Swept (r : Runlist) (kept rest : List Nat) (prev : Option Nat) (off : Bool) : Prop where
  chain : Chain r.qLink r.qhead (kept ++ rest)
  on : off = false → prev = kept.getLast?
  astray : off = true → ∃ p, prev = some p ∧ p ∉ kept ++ rest ∧ r.qLink p = rest.head?

namespace Swept
variable {r : Runlist} {kept rest : List Nat} {prev : Option Nat} {off : Bool} {q : Nat}

theorem pass (swept : Swept r kept (q :: rest) prev off) : Swept r (kept ++ [q]) rest (some q) false := by
  constructor
  · simpa using swept.chain
  · simp
  · simp

theorem remove (swept : Swept r kept (q :: rest) prev false) : Swept (r.unlink prev q) kept rest (some q) true := by
  have behind := swept.chain.next_eq
  have nodup := swept.chain.nodup
  have last := swept.on rfl
  have fresh : q ∉ kept ++ rest := (List.nodup_middle.mp nodup).notMem
  have fifo : Fifo r.qLink r.qhead (kept ++ q :: rest).getLast? (kept ++ q :: rest) := ⟨swept.chain, rfl⟩
  have removed := @Fifo.remove _ r.qLink (r.unlink prev q).qLink r.qhead _ kept rest q fifo
    (fun p before => by simp only [Runlist.unlink]; rw [last, before]; split <;> simp)
    (fun b _ other => by
      simp only [Runlist.unlink]
      rw [last]
      cases before : kept.getLast? with
      | none => split <;> simp
      | some p =>
        have differ : b ≠ p := fun same => other (by rw [before, same])
        split <;> simp [differ])
  constructor
  · have head : (r.unlink prev q).qhead = if kept.getLast? = none then r.qLink q else r.qhead := by
      simp only [Runlist.unlink]
      rw [last]
      cases kept.getLast? with
      | none => split <;> rfl
      | some => split <;> rfl
    rw [head]
    exact removed.chain
  · simp
  · intro _
    refine ⟨q, rfl, fresh, ?_⟩
    have own : (r.unlink prev q).qLink q = r.qLink q := by
      simp only [Runlist.unlink]
      rw [last]
      cases before : kept.getLast? with
      | none => split <;> simp
      | some p =>
        have differ : q ≠ p := fun same => fresh (by simp [same, List.mem_of_getLast? before])
        split <;> simp [differ]
    rw [own, behind]

theorem miss (swept : Swept r kept (q :: rest) prev true) : Swept (r.unlink prev q) (kept ++ [q]) rest (some q) false := by
  obtain ⟨p, rfl, away, _⟩ := swept.astray rfl
  constructor
  · have same : (r.unlink (some p) q).qhead = r.qhead := by
      simp only [Runlist.unlink]
      split <;> rfl
    have chain : Chain (r.unlink (some p) q).qLink r.qhead (kept ++ q :: rest) :=
      swept.chain.congr fun b member => by
        have differ : b ≠ p := fun same => away (same ▸ member)
        simp only [Runlist.unlink]
        split <;> simp [differ]
    rw [same]
    simpa using chain
  · simp
  · simp

theorem follow (swept : Swept r kept rest (some q) off) (here : off = false → q ∈ kept) : r.qLink q = rest.head? := by
  cases off with
  | true =>
    obtain ⟨p, same, _, link⟩ := swept.astray rfl
    obtain rfl := Option.some.inj same
    exact link
  | false =>
    have last := (swept.on rfl).symm
    obtain ⟨front, rfl⟩ := List.getLast?_eq_some_iff.mp last
    have chain := swept.chain
    rw [List.append_assoc] at chain
    exact chain.next_eq

theorem round (swept : Swept r kept (q :: rest) prev off) :
    ∃ kept' off', Swept (if out q then r.unlink prev q else r) kept' rest (some q) off' ∧
      kept ++ survivors out off (q :: rest) = kept' ++ survivors out off' rest ∧ (off' = false → q ∈ kept') := by
  by_cases gone : out q
  · rw [if_pos gone]
    cases off with
    | false => exact ⟨kept, true, swept.remove, by simp [gone], by simp⟩
    | true => exact ⟨kept ++ [q], false, swept.miss, by simp, by simp⟩
  · rw [if_neg gone]
    exact ⟨kept ++ [q], false, swept.pass, by simp [gone], by simp⟩

theorem sweep {fuel : Nat} (swept : Swept r kept rest prev off) (enough : rest.length < fuel) :
    ∃ r', r.sweep out fuel rest.head? prev = some r' ∧ Chain r'.qLink r'.qhead (kept ++ survivors out off rest) := by
  induction rest generalizing fuel r kept prev off with
  | nil =>
    obtain ⟨fuel, rfl⟩ := Nat.exists_eq_add_one.mpr enough
    exact ⟨r, rfl, by simpa using swept.chain⟩
  | cons q rest ih =>
    obtain ⟨fuel, rfl⟩ := Nat.exists_eq_succ_of_ne_zero (Nat.ne_zero_of_lt enough)
    obtain ⟨kept', off', next, same, here⟩ := @round out _ _ _ _ _ _ swept
    obtain ⟨r', run, chain⟩ := ih next (Nat.lt_of_succ_lt_succ enough)
    refine ⟨r', ?_, same ▸ chain⟩
    simp only [List.head?_cons, Runlist.sweep]
    rw [next.follow here]
    exact run

end Swept

/-- No two of the queues that leave are next to each other. -/
def Apart (out : Nat → Bool) (list : List Nat) : Prop := list.IsChain fun a b => ¬ (out a ∧ out b)

theorem Apart.head {q : Nat} {rest : List Nat} (apart : Apart out (q :: rest)) (gone : out q) :
    ∀ p ∈ rest.head?, ¬ out p := fun _ here stays => apart.rel_head? here ⟨gone, stays⟩

theorem survivors_filter {list : List Nat} {off : Bool} (apart : Apart out list)
    (first : off = true → ∀ q ∈ list.head?, ¬ out q) : survivors out off list = list.filter (¬ out ·) := by
  induction list generalizing off with
  | nil => rfl
  | cons q rest ih =>
    have tail : Apart out rest := apart.tail
    by_cases gone : out q
    · have on : off = false := by
        cases off with
        | false => rfl
        | true => exact absurd gone (first rfl q (by simp))
      simp [gone, on, ih tail fun _ => apart.head gone]
    · simp [gone, (@ih false) tail]

/-- Where no two are adjacent, `qtail` is right as well. -/
theorem Swept.sweep_last {r r' : Runlist} {kept rest : List Nat} {prev : Option Nat} {off : Bool} {fuel : Nat}
    (swept : Swept r kept rest prev off) (run : r.sweep out fuel rest.head? prev = some r')
    (apart : Apart out rest) (first : off = true → ∀ q ∈ rest.head?, ¬ out q)
    (last : r.qtail = (kept ++ rest).getLast?) : r'.qtail = (kept ++ survivors out off rest).getLast? := by
  induction rest generalizing fuel r kept prev off with
  | nil =>
    cases fuel with
    | zero => cases run
    | succ fuel =>
      obtain rfl : r = r' := Option.some.inj run
      simpa using last
  | cons q rest ih =>
    cases fuel with
    | zero => cases run
    | succ fuel =>
      have tail : Apart out rest := apart.tail
      simp only [List.head?_cons, Runlist.sweep] at run
      by_cases gone : out q
      · have on : off = false := by
          cases off with
          | false => rfl
          | true => exact absurd gone (first rfl q (by simp))
        subst on
        rw [if_pos gone] at run
        have next := swept.remove
        rw [next.follow (by simp)] at run
        have ends : (r.unlink prev q).qtail = (kept ++ rest).getLast? := by
          simp only [Runlist.unlink]
          cases rest with
          | nil =>
            have here : r.qtail = some q := by simp [last]
            simp [here, swept.on rfl]
          | cons b rest =>
            have same : r.qtail = (b :: rest).getLast? := by
              rw [last, List.getLast?_append_of_ne_nil _ (by simp), List.getLast?_cons_cons]
            have other : r.qtail ≠ some q := by
              intro clash
              have member : q ∈ b :: rest := List.mem_of_getLast? (same ▸ clash)
              exact (List.nodup_middle.mp swept.chain.nodup).notMem (by simp at member ⊢; tauto)
            rw [if_neg other, List.getLast?_append_of_ne_nil _ (by simp), ← same]
            split <;> rfl
        simpa [gone] using ih next run tail (fun _ => apart.head gone) ends
      · rw [if_neg gone] at run
        have next := swept.pass
        rw [next.follow (by simp)] at run
        simpa [gone] using ih next run tail (by simp) (by simpa using last)

/-- Of two adjacent queues that leave, one stays on the list. -/
theorem survivors_adjacent {list : List Nat} {off : Bool} (adjacent : ¬ Apart out list) :
    ∃ q ∈ survivors out off list, out q := by
  induction list generalizing off with
  | nil => exact absurd .nil adjacent
  | cons q rest ih =>
    by_cases tail : Apart out rest
    · -- The first two are adjacent: the first is unlinked, unless `off`, the second is not.
      cases rest with
      | nil => exact absurd (.singleton _) adjacent
      | cons p rest =>
        have both : out q ∧ out p := by
          by_contra apart
          exact adjacent (List.isChain_cons_cons.mpr ⟨apart, tail⟩)
        cases off with
        | false => exact ⟨p, by simp [both.1], both.2⟩
        | true => exact ⟨q, by simp, both.1⟩
    · unfold survivors
      split
      · exact ih tail
      · obtain ⟨p, member, gone⟩ := (@ih false) tail
        exact ⟨p, by simp [member], gone⟩

end

/-! ## Detaching -/

/-- The two queues stand next to each other on the list, in either order. -/
def Adjacent (qp : Nat) (list : List Nat) : Prop :=
  ∃ left right, list = left ++ qp :: wr qp :: right ∨ list = left ++ wr qp :: qp :: right

theorem not_apart_iff {qp : Nat} {list : List Nat} (nodup : list.Nodup) :
    ¬ Apart (detached qp) list ↔ Adjacent qp list := by
  rw [Apart, List.isChain_iff_forall_rel_of_append_cons_cons]
  constructor
  · intro close
    push Not at close
    obtain ⟨a, b, left, right, split, both⟩ := close
    have differ : a ≠ b := by
      rintro rfl
      have tail : (a :: a :: right).Nodup := (List.nodup_append.mp (split ▸ nodup)).2.1
      exact (List.nodup_cons.mp tail).1 (by simp)
    simp only [detached, decide_eq_true_eq] at both
    obtain ⟨rfl | rfl, rfl | rfl⟩ := both
    · exact absurd rfl differ
    · exact ⟨left, right, .inl split⟩
    · exact ⟨left, right, .inr split⟩
    · exact absurd rfl differ
  · rintro ⟨left, right, split | split⟩ apart
    · exact apart split (by simp [detached])
    · exact apart split (by simp [detached])

/-- The list in memory after `qdetach` is the list before without the two queues exactly
when they did not stand next to each other. -/
theorem qdetach_removes {nQueue qp : Nat} {k : Kernel} {r : Runlist} (lists : r.Lists k)
    (short : k.qrun.length < nQueue) :
    ∃ r', qdetach nQueue qp k r = some r' ∧
      (Fifo r'.qLink r'.qhead r'.qtail (k.qrun.filter fun q => q ≠ qp ∧ q ≠ wr qp) ↔ ¬ Adjacent qp k.qrun) := by
  have fifo := lists.fifo
  have nodup := fifo.chain.nodup
  have remains : (k.qrun.filter fun q => q ≠ qp ∧ q ≠ wr qp) = k.qrun.filter (¬ detached qp ·) :=
    List.filter_congr fun q _ => by simp [detached]
  rw [remains, ← not_apart_iff nodup, not_not, qdetach]
  split
  · have start : Swept r [] k.qrun none false := ⟨fifo.chain, by simp, by simp⟩
    obtain ⟨r', run, chain⟩ := start.sweep short
    rw [← fifo.chain.head_eq] at run
    refine ⟨r', run, fun removed => ?_, fun apart => ?_⟩
    · by_contra close
      obtain ⟨q, member, gone⟩ := (@survivors_adjacent _ _ false) close
      rw [List.nil_append, chain.unique removed.chain] at *
      simp [gone] at member
    · rw [fifo.chain.head_eq] at run
      have last := start.sweep_last run apart (by simp) fifo.last
      rw [← survivors_filter apart (by simp : false = true → _)]
      exact ⟨chain, last⟩
  · next idle =>
    -- Neither queue is enabled, so neither is on the list.
    have away : ∀ q ∈ k.qrun, ¬ detached qp q := by
      intro q member gone
      have flag := (lists.enabled q).mp member
      apply idle
      simp only [detached, decide_eq_true_eq] at gone
      rw [Nat.and_or_distrib_right]
      intro zero
      obtain ⟨first, second⟩ := Nat.or_eq_zero_iff.mp zero
      obtain rfl | rfl := gone
      · exact flag first
      · exact flag second
    have same : k.qrun.filter (¬ detached qp ·) = k.qrun :=
      List.filter_eq_self.mpr fun q member => by simpa using away q member
    rw [same]
    refine ⟨r, rfl, fun _ => ?_, fun _ => fifo⟩
    refine List.isChain_iff_forall_rel_of_append_cons_cons.mpr fun a b left right split both => ?_
    exact away a (by simp [split]) both.1

/-- Queues with service procedures, none enabled. -/
def quietKernel : Kernel where
  msg _ := ⟨none, none, 0, 0, []⟩
  queue _ := ⟨none, none, none, 0, 0, 0, 0, [], true⟩
  qrun := []
  qrunflag := false
  zalloc := 0

def emptyRunlist : Runlist := ⟨none, none, fun _ => none⟩

theorem quiet_lists : emptyRunlist.Lists quietKernel := ⟨⟨.nil, rfl⟩, by simp [quietKernel]⟩

/-- A queue of another stream is between the two. -/
theorem qdetach_removes_around : (((emptyRunlist.enable 10).enable 5).enable 11).Lists
      (qenable 11 (qenable 5 (qenable 10 quietKernel))) ∧
    ∃ r', qdetach 4 10 (qenable 11 (qenable 5 (qenable 10 quietKernel)))
        (((emptyRunlist.enable 10).enable 5).enable 11) = some r' ∧
      (Fifo r'.qLink r'.qhead r'.qtail
          ((qenable 11 (qenable 5 (qenable 10 quietKernel))).qrun.filter fun q => q ≠ 10 ∧ q ≠ wr 10) ↔
        ¬ Adjacent 10 (qenable 11 (qenable 5 (qenable 10 quietKernel))).qrun) := by
  have lists := ((quiet_lists.qenable (q := 10) rfl rfl).qenable (q := 5) rfl rfl).qenable (q := 11) rfl rfl
  exact ⟨lists, qdetach_removes lists (by decide)⟩

/-- The write queue stays on the list, behind the read queue. -/
theorem qdetach_leaves : ((emptyRunlist.enable 10).enable 11).Lists (qenable 11 (qenable 10 quietKernel)) ∧
    ∃ r', qdetach 3 10 (qenable 11 (qenable 10 quietKernel)) ((emptyRunlist.enable 10).enable 11) = some r' ∧
      r'.qhead = some (wr 10) ∧ r'.qtail = some 10 ∧
      ¬ Fifo r'.qLink r'.qhead r'.qtail
        ((qenable 11 (qenable 10 quietKernel)).qrun.filter fun q => q ≠ 10 ∧ q ≠ wr 10) := by
  have lists := (quiet_lists.qenable (q := 10) rfl rfl).qenable (q := 11) rfl rfl
  refine ⟨lists, _, rfl, rfl, rfl, fun fifo => ?_⟩
  cases fifo.chain.head_eq

end Svr4.Streams
