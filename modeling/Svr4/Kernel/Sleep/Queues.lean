import Svr4.Kernel.Dispatcher.Bookkeeping
import Svr4.Kernel.Sleep

/-! Every process that waits for a channel is on the list of that channel, in the order
in which they went to sleep.

The lists share `p_link` with the dispatcher queues, so the invariant is about both: no
process is on two lists of either kind.
-/

namespace Svr4.Sleep

open Dispatcher
open Function (update update_self update_of_ne)
open Option (some pure_def bind_eq_bind bind_some)

attribute [local simp] Kernel.setSleepq Kernel.setProc Disp.setProc Kernel.setWchan Kernel.proc Kernel.link Disp.link

/-- The sleep queues are the lists and the dispatcher queues are the queues. The ends of
the lists are not part of it. -/
structure Sound (vProc nglobpris : Nat) (k : Kernel) (list queue : Nat → List Nat) : Prop where
  booked : Booked vProc nglobpris k.disp queue
  chain : ∀ i, Chain k.link (k.sleepq i).sqFirst (list i)
  asleep : ∀ i pp, pp ∈ list i ↔ k.pWchan pp ≠ 0 ∧ sqhash (k.pWchan pp) = i
  slot : ∀ pp, k.pWchan pp ≠ 0 → pp < vProc
  stat : ∀ pp, k.pWchan pp ≠ 0 → (k.proc pp).pStat = .ssleep ∨ (k.proc pp).pStat = .sstop
  running : ∀ pri, ∀ pp ∈ queue pri, (k.proc pp).pStat = .srun
  pri : ∀ pp, (k.proc pp).pPri < nglobpris

/-- The ends of the lists. -/
def Ended (k : Kernel) (list : Nat → List Nat) : Prop := ∀ i, (k.sleepq i).sqLast = (list i).getLast?

section
variable {vProc nglobpris i pp rp chan pri : Nat} {k k' : Kernel} {list queue queue' : Nat → List Nat}
  {left right rest : List Nat} {target before : Option Nat} {d : Disp}

namespace Sound

section
variable (sound : Sound vProc nglobpris k list queue)
include sound

theorem awake (member : pp ∈ queue pri) : k.pWchan pp = 0 := by
  by_contra sleeping
  have running := sound.running pri pp member
  rcases sound.stat pp sleeping with stat | stat
  · rw [stat] at running
    cases running
  · rw [stat] at running
    cases running

theorem unqueued (sleeping : k.pWchan pp ≠ 0) (pri : Nat) : pp ∉ queue pri :=
  fun member => sleeping (sound.awake member)

theorem not_queued (other : (k.proc pp).pStat ≠ .srun) :
    ¬ k.disp.Queued pp := by
  rw [sound.booked.queued_iff]
  rintro ⟨pri, member⟩
  exact other (sound.running pri pp member)

theorem dispatch {d : Disp} (booked : Booked vProc nglobpris d queue')
    (asleep : ∀ pp, k.pWchan pp ≠ 0 → d.link pp = k.link pp ∧ ((d.proc pp).pStat = .ssleep ∨ (d.proc pp).pStat = .sstop))
    (running : ∀ pri, ∀ pp ∈ queue' pri, (d.proc pp).pStat = .srun) (pri : ∀ pp, (d.proc pp).pPri < nglobpris) :
    Sound vProc nglobpris { k with disp := d } list queue' where
  booked := booked
  chain i := (sound.chain i).congr fun pp member => (asleep pp ((sound.asleep i pp).mp member).1).1
  asleep := sound.asleep
  slot := sound.slot
  stat pp sleeping := (asleep pp sleeping).2
  running := running
  pri := pri

theorem run (slot : pp < vProc) (awake : k.pWchan pp = 0)
    (other : (k.proc pp).pStat ≠ .srun) :
    Sound vProc nglobpris (run pp k) list
      (update queue (k.proc pp).pPri (queue (k.proc pp).pPri ++ [pp])) ∧
      ((Sleep.run pp k).proc pp).pFlag = (k.proc pp).pFlag ∧ ((Sleep.run pp k).proc pp).pStat = .srun ∧
      (∀ p, p ≠ pp → ((Sleep.run pp k).proc p).pStat = (k.proc p).pStat) ∧
      ∀ p, p ≠ pp → (∀ pri, p ∉ queue pri) → (Sleep.run pp k).proc p = k.proc p := by
  have free := sound.not_queued other
  let d := k.disp.setProc pp fun p => { p with pStat := .srun }
  have booked : Booked vProc nglobpris d queue := sound.booked.setStat .srun
  have kept {p : Nat} (differ : p ≠ pp) : d.proc p = k.proc p := by simp [d, differ]
  have runnable : (d.proc pp).pStat = .srun := by simp [d]
  have same : (d.proc pp).pPri = (k.proc pp).pPri := by simp [d]
  have inside : (d.proc pp).pPri < nglobpris := by
    rw [same]
    exact sound.pri pp
  have still : ¬ d.Queued pp := by
    rw [booked.queued_iff, ← sound.booked.queued_iff]
    exact free
  have back := setbackdq_booked booked slot inside still
  have framed := (@Dispatcher.setbackdq_framed _ _ pp) booked
  rw [same] at back framed
  have outside {p : Nat} (differ : p ≠ pp) (free : ∀ pri, p ∉ queue pri) : (setbackdq pp d).proc p = k.proc p := by
    rw [framed.outside p free fun pri member => ?_, kept differ]
    by_cases here : pri = (k.proc pp).pPri
    · subst here
      rw [update_self, List.mem_append, List.mem_singleton] at member
      exact member.elim (free _) differ
    · rw [update_of_ne here] at member
      exact free pri member
  refine ⟨sound.dispatch back (fun p sleeping => ?_) (fun pri p member => ?_) fun p => ?_, ?_,
    (framed.pStat pp).trans runnable, fun p differ => (framed.pStat p).trans (by rw [kept differ]), fun p => outside⟩
  · have differ : p ≠ pp := fun same => sleeping (same ▸ awake)
    have equal := outside differ (sound.unqueued sleeping)
    refine ⟨by rw [Disp.link, equal], ?_⟩
    rw [equal]
    exact sound.stat p sleeping
  · rw [framed.pStat]
    by_cases same : p = pp
    · rw [same, runnable]
    · rw [kept same]
      by_cases here : pri = (k.proc pp).pPri
      · subst here
        rw [update_self, List.mem_append, List.mem_singleton] at member
        exact sound.running _ p (member.resolve_right same)
      · rw [update_of_ne here] at member
        exact sound.running pri p member
  · rw [framed.pPri]
    by_cases same : p = pp
    · rw [same]
      exact inside
    · rw [kept same]
      exact sound.pri p
  · have flag : (d.proc pp).pFlag = (k.proc pp).pFlag := by simp [d]
    exact (framed.pFlag pp).trans flag

end

end Sound

/-! ## Leaving a list -/

@[simp] theorem setPlink_link_self (target : Option Nat) : (k.setPlink i target (some rp)).link rp = target := by
  simp [Kernel.setPlink]

theorem setPlink_link_of_ne (target : Option Nat) (differ : pp ≠ rp) :
    (k.setPlink i target (some rp)).link pp = k.link pp := by
  simp [Kernel.setPlink, differ]

theorem setPlink_last (j : Nat) :
    ((k.setPlink i target before).sleepq j).sqLast = (k.sleepq j).sqLast := by
  cases before with
  | none =>
    by_cases same : j = i
    · subst same
      simp [Kernel.setPlink]
    · simp [Kernel.setPlink, same]
  | some rp => rfl

theorem setPlink_wchan : (k.setPlink i target before).pWchan = k.pWchan := by
  cases before with
  | none => rfl
  | some rp => rfl

theorem setPlink_runout : (k.setPlink i target before).runout = k.runout := by
  cases before with
  | none => rfl
  | some rp => rfl

/-- At most the links of the processes differ. -/
def Linked (k k' : Kernel) : Prop := ∀ p, ∃ link, k'.proc p = { k.proc p with pLink := link }

theorem Linked.stat (linked : Linked k k') (p : Nat) : (k'.proc p).pStat = (k.proc p).pStat := by
  obtain ⟨_, same⟩ := linked p
  rw [same]

theorem setPlink_linked (target : Option Nat) (before : Option Nat) : Linked k (k.setPlink i target before) := by
  intro p
  cases before with
  | none => exact ⟨k.link p, rfl⟩
  | some rp =>
    by_cases same : p = rp
    · subst same
      exact ⟨target, by simp [Kernel.setPlink]⟩
    · exact ⟨k.link p, by simp [Kernel.setPlink, same]⟩

theorem take_fifo {last : Option Nat} (fifo : Fifo k.link (k.sleepq i).sqFirst last (left ++ pp :: right)) :
    Fifo (k.setPlink i (k.link pp) left.getLast?).link ((k.setPlink i (k.link pp) left.getLast?).sleepq i).sqFirst
      (if k.link pp = none then left.getLast? else last) (left ++ right) := by
  cases before : left.getLast? with
  | none =>
    have removed := fifo.remove (by simp [before]) fun _ _ _ => rfl
    simpa [before, Kernel.setPlink] using removed
  | some rp =>
    have removed := (@Fifo.remove _ _ ((k.setPlink i (k.link pp) (some rp)).link)) fifo
      (by simp [before]) fun p _ other => setPlink_link_of_ne _ fun same => other (by rw [before, same])
    simpa [before, Kernel.setPlink] using removed

theorem Sound.take (sound : Sound vProc nglobpris k list queue) (split : list i = left ++ pp :: right) :
    Sound vProc nglobpris ((k.setWchan pp 0).setPlink i (k.link pp) left.getLast?)
      (update list i (left ++ right)) queue := by
  have chain := sound.chain i
  rw [split] at chain
  have nodup := chain.nodup
  have here : pp ∈ list i := by
    rw [split]
    simp
  obtain ⟨sleeping, hash⟩ := (sound.asleep i pp).mp here
  have linked := setPlink_linked (k := k.setWchan pp 0) (i := i) (k.link pp) left.getLast?
  have wchan : ((k.setWchan pp 0).setPlink i (k.link pp) left.getLast?).pWchan = update k.pWchan pp 0 :=
    setPlink_wchan
  have wake {p : Nat} (still : update k.pWchan pp 0 p ≠ 0) : p ≠ pp ∧ k.pWchan p ≠ 0 := by
    have differ : p ≠ pp := by
      rintro rfl
      rw [update_self] at still
      exact still rfl
    rw [update_of_ne differ] at still
    exact ⟨differ, still⟩
  constructor
  · cases before : left.getLast? with
    | none => exact sound.booked
    | some rp =>
      -- The process whose link changes sleeps, so the dispatcher does not know it.
      have member : rp ∈ list i := by
        rw [split]
        exact List.mem_append_left _ (List.mem_of_getLast? before)
      refine other_booked sound.booked _ ?_
      rw [sound.booked.queued_iff]
      rintro ⟨pri, queued⟩
      exact sound.unqueued ((sound.asleep i rp).mp member).1 pri queued
  · intro j
    by_cases same : j = i
    · subst same
      rw [update_self]
      exact (take_fifo (k := k.setWchan pp 0) ⟨chain, rfl⟩).chain
    · rw [update_of_ne same]
      cases before : left.getLast? with
      | none =>
        change Chain k.link (update k.sleepq i _ j).sqFirst (list j)
        rw [update_of_ne same]
        exact sound.chain j
      | some rp =>
        have member : rp ∈ list i := by
          rw [split]
          exact List.mem_append_left _ (List.mem_of_getLast? before)
        refine (sound.chain j).congr fun p there => ?_
        refine setPlink_link_of_ne _ ?_
        rintro rfl
        exact same (((sound.asleep j p).mp there).2.symm.trans ((sound.asleep i p).mp member).2)
  · intro j p
    rw [wchan]
    by_cases gone : p = pp
    · subst gone
      rw [update_self]
      simp only [ne_eq, not_true_eq_false, false_and, iff_false]
      by_cases same : j = i
      · subst same
        rw [update_self]
        exact (List.nodup_middle.mp nodup).notMem
      · rw [update_of_ne same, sound.asleep]
        exact fun there => same (there.2.symm.trans hash)
    · rw [update_of_ne gone, ← sound.asleep]
      by_cases same : j = i
      · subst same
        rw [update_self, split]
        simp [gone]
      · rw [update_of_ne same]
  · intro p still
    rw [wchan] at still
    exact sound.slot p (wake still).2
  · intro p still
    rw [wchan] at still
    obtain ⟨link, proc⟩ := linked p
    rw [proc]
    exact sound.stat p (wake still).2
  · intro pri p member
    obtain ⟨link, proc⟩ := linked p
    rw [proc]
    exact sound.running pri p member
  · intro p
    obtain ⟨link, proc⟩ := linked p
    rw [proc]
    exact sound.pri p

/-- The pointer to the last process of a list is not followed by `Sound`. -/
theorem Sound.setLast (sound : Sound vProc nglobpris k list queue) (last : Option Nat) :
    Sound vProc nglobpris (k.setSleepq i fun sq => { sq with sqLast := last }) list queue where
  booked := sound.booked
  chain j := by
    have first : ((k.setSleepq i fun sq => { sq with sqLast := last }).sleepq j).sqFirst = (k.sleepq j).sqFirst := by
      by_cases same : j = i
      · subst same
        simp
      · simp [same]
    rw [first]
    exact sound.chain j
  asleep := sound.asleep
  slot := sound.slot
  stat := sound.stat
  running := sound.running
  pri := sound.pri

/-! ## `unsleep` -/

theorem unsleepLoop_finds {fuel : Nat} {head : Option Nat} {done : List Nat} (chain : Chain k.link head (left ++ pp :: right))
    (absent : pp ∉ left) (enough : left.length < fuel) :
    unsleepLoop pp k fuel done.getLast? head = some (done ++ left).getLast? := by
  induction left generalizing fuel done head with
  | nil =>
    obtain ⟨fuel, rfl⟩ := Nat.exists_eq_add_one.mpr enough
    obtain rfl : head = some pp := chain.head_eq
    simp [unsleepLoop]
  | cons p left ih =>
    obtain ⟨fuel, rfl⟩ := Nat.exists_eq_succ_of_ne_zero (Nat.ne_zero_of_lt enough)
    obtain rfl : head = some p := chain.head_eq
    have differ : p ≠ pp := fun same => absent (by simp [same])
    have tail : Chain k.link (k.link p) (left ++ pp :: right) := chain.tail
    have moved := (@ih _ _ (done ++ [p])) tail (fun member => absent (.tail _ member))
      (by simpa using enough)
    unfold unsleepLoop
    rw [if_neg differ]
    rw [List.getLast?_concat] at moved
    rw [moved]
    simp

theorem filter_ne_middle (absent : pp ∉ left ++ right) : (left ++ pp :: right).filter (· ≠ pp) = left ++ right := by
  have keep (p : Nat) (member : p ∈ left ++ right) : p ≠ pp := fun same => absent (same ▸ member)
  rw [List.filter_append, List.filter_cons_of_neg (by simp), ← List.filter_append]
  exact List.filter_eq_self.mpr fun p member => by simpa using keep p member

theorem Sound.length_le (sound : Sound vProc nglobpris k list queue) : (list i).length ≤ vProc := by
  have sub : list i ⊆ List.range vProc := fun pp member =>
    List.mem_range.mpr (sound.slot pp ((sound.asleep i pp).mp member).1)
  simpa using (List.subperm_of_subset (sound.chain i).nodup sub).length_le

theorem unsleep_sound (sound : Sound vProc nglobpris k list queue) (ended : Ended k list) :
    ∃ k', unsleep vProc pp k = some k' ∧ Sound vProc nglobpris k' (fun i => (list i).filter (· ≠ pp)) queue ∧
      Ended k' (fun i => (list i).filter (· ≠ pp)) ∧ Linked k k' ∧ k'.pWchan = update k.pWchan pp 0 ∧
      k'.runout = k.runout := by
  by_cases sleeping : k.pWchan pp = 0
  · have same (i : Nat) : (list i).filter (· ≠ pp) = list i := by
      refine List.filter_eq_self.mpr fun p member => ?_
      have differ : p ≠ pp := fun same => ((sound.asleep i p).mp member).1 (same ▸ sleeping)
      simpa using differ
    have equal : (fun i => (list i).filter (· ≠ pp)) = list := funext same
    rw [equal]
    refine ⟨k, if_neg fun wrong => wrong sleeping, sound, ended, fun p => ⟨k.link p, rfl⟩, ?_, rfl⟩
    rw [← sleeping, Function.update_eq_self]
  · let i := sqhash (k.pWchan pp)
    obtain ⟨left, right, split⟩ := List.append_of_mem ((sound.asleep i pp).mpr ⟨sleeping, rfl⟩)
    have chain := sound.chain i
    rw [split] at chain
    have absent := (List.nodup_middle.mp chain.nodup).notMem
    have length := sound.length_le (i := i)
    rw [split, List.length_append] at length
    have found := (@unsleepLoop_finds _ _ _ _ (vProc + 1) _ []) chain
      (fun member => absent (List.mem_append_left _ member)) (by omega)
    have lists : (fun j => (list j).filter (· ≠ pp)) = update list i (left ++ right) := by
      funext j
      by_cases same : j = i
      · subst same
        rw [update_self, split]
        exact filter_ne_middle absent
      · rw [update_of_ne same]
        refine List.filter_eq_self.mpr fun p member => ?_
        have differ : p ≠ pp := by
          rintro rfl
          exact same ((sound.asleep j p).mp member).2.symm
        simpa using differ
    rw [lists]
    have taken := sound.take split
    have fifo := take_fifo (k := k) ⟨chain, rfl⟩
    let k₁ := (k.setWchan pp 0).setPlink i (k.link pp) left.getLast?
    let k₂ := if k.link pp = none then k₁.setSleepq i fun sq => { sq with sqLast := left.getLast? } else k₁
    have result : unsleep vProc pp k = some k₂ := by
      unfold unsleep
      rw [if_pos sleeping]
      have found : unsleepLoop pp k (vProc + 1) none (k.sleepq (sqhash (k.pWchan pp))).sqFirst =
        some left.getLast? := found
      simp only [found, k₂, k₁]
      by_cases final : k.link pp = none
      · cases left.getLast? with
        | none => simp [final, Kernel.setPlink, i]
        | some rp => simp [final, Kernel.setPlink, i]
      · cases left.getLast? with
        | none => simp [final, Kernel.setPlink, i]
        | some rp => simp [final, Kernel.setPlink]
    have last (j : Nat) : (k₁.sleepq j).sqLast = (k.sleepq j).sqLast := setPlink_last j
    have fields : k₂.pWchan = k₁.pWchan ∧ k₂.disp = k₁.disp ∧ k₂.runout = k₁.runout := by
      by_cases final : k.link pp = none
      · rw [show k₂ = _ from if_pos final]
        exact ⟨rfl, rfl, rfl⟩
      · rw [show k₂ = _ from if_neg final]
        exact ⟨rfl, rfl, rfl⟩
    refine ⟨k₂, result, ?_, fun j => ?_, fun p => ?_, ?_, ?_⟩
    · by_cases final : k.link pp = none
      · rw [show k₂ = _ from if_pos final]
        exact taken.setLast _
      · rw [show k₂ = _ from if_neg final]
        exact taken
    · by_cases same : j = i
      · subst same
        have ends := fifo.last
        rw [update_self]
        by_cases final : k.link pp = none
        · rw [show k₂ = _ from if_pos final]
          rw [if_pos final] at ends
          simpa using ends
        · rw [show k₂ = _ from if_neg final, last, ended, split]
          rw [if_neg final] at ends
          exact ends
      · rw [update_of_ne same, ← ended j, ← last j]
        by_cases final : k.link pp = none
        · rw [show k₂ = _ from if_pos final]
          simp [same]
        · rw [show k₂ = _ from if_neg final]
    · rw [Kernel.proc, fields.2.1]
      exact setPlink_linked (k := k.setWchan pp 0) _ _ p
    · rw [fields.1]
      exact setPlink_wchan
    · rw [fields.2.2]
      exact setPlink_runout

/-! ## `wakeprocs` -/

/-- The process waits for the channel and is not stopped. -/
def Woken (k : Kernel) (chan p : Nat) : Prop := k.pWchan p = chan ∧ (k.proc p).pStat = .ssleep

instance : DecidablePred (Woken k chan) := fun _ => inferInstanceAs (Decidable (_ ∧ _))

theorem plink_eq (chain : Chain k.link (k.sleepq i).sqFirst (left ++ rest)) : k.plink i left.getLast? = rest.head? := by
  rcases left.eq_nil_or_concat with rfl | ⟨front, rp, rfl⟩
  · exact chain.head_eq
  · rw [List.concat_eq_append] at chain ⊢
    rw [List.append_assoc, List.singleton_append] at chain
    rw [List.getLast?_concat]
    exact chain.next_eq

/-- What the rest of the loop reads of the processes is not changed by its rounds. -/
def Unread (k k' : Kernel) (rest : List Nat) : Prop :=
  ∀ p ∈ rest, k'.pWchan p = k.pWchan p ∧ (k'.proc p).pStat = (k.proc p).pStat ∧
    (k'.proc p).pFlag = (k.proc p).pFlag ∧ (k'.proc p).pPri = (k.proc p).pPri

theorem Unread.stay (unread : Unread k k' rest) :
    rest.filter (fun p => k'.pWchan p ≠ chan) = rest.filter fun p => k.pWchan p ≠ chan :=
  List.filter_congr fun p member => by rw [(unread p member).1]

theorem Unread.woken (unread : Unread k k' rest) :
    rest.filter (fun p => Woken k' chan p ∧ (k'.proc p).pPri = pri) =
      rest.filter fun p => Woken k chan p ∧ (k.proc p).pPri = pri :=
  List.filter_congr fun p member => by
    obtain ⟨wchan, stat, _, same⟩ := unread p member
    rw [decide_eq_decide, Woken, Woken, wchan, stat, same]

/-- Whether the swapper has to be set running for one of the processes. -/
def Swap (k : Kernel) (chan : Nat) (rest : List Nat) : Prop :=
  ∃ p ∈ rest, Woken k chan p ∧ (k.proc p).pFlag &&& sload = 0 ∧ 0 < k.runout

theorem Unread.swap (unread : Unread k k' rest) (runout : k'.runout = k.runout) : Swap k' chan rest ↔ Swap k chan rest := by
  refine exists_congr fun p => and_congr_right fun member => ?_
  obtain ⟨wchan, stat, flag, _⟩ := unread p member
  rw [Woken, Woken, wchan, stat, flag, runout]

theorem wakeLoop_spec {fuel : Nat} {runsched : Bool} (sound : Sound vProc nglobpris k list queue)
    (split : list i = left ++ rest) (enough : rest.length < fuel) :
    ∃ k' runsched', wakeLoop chan i fuel left.getLast? runsched k =
        some ((left ++ rest.filter fun p => k.pWchan p ≠ chan).getLast?, runsched', k') ∧
      Sound vProc nglobpris k' (update list i (left ++ rest.filter fun p => k.pWchan p ≠ chan))
        (fun pri => queue pri ++ rest.filter fun p => Woken k chan p ∧ (k.proc p).pPri = pri) ∧
      (runsched' = true ↔ runsched = true ∨ Swap k chan rest) ∧
      (∀ j, (k'.sleepq j).sqLast = (k.sleepq j).sqLast) ∧ k'.runout = k.runout ∧
      ∀ p, (k'.proc p).pStat = (k.proc p).pStat ∨ (k'.proc p).pStat = .srun := by
  induction rest generalizing fuel runsched k list queue left with
  | nil =>
    obtain ⟨fuel, rfl⟩ := Nat.exists_eq_add_one.mpr enough
    have chain := sound.chain i
    rw [split] at chain
    refine ⟨k, runsched, ?_, ?_, by simp [Swap], fun _ => rfl, rfl, fun _ => .inl rfl⟩
    · simp [wakeLoop, plink_eq chain]
    · simpa [← split] using sound
  | cons pp rest ih =>
    obtain ⟨fuel, rfl⟩ := Nat.exists_eq_succ_of_ne_zero (Nat.ne_zero_of_lt enough)
    have enough : rest.length < fuel := by simpa using enough
    have chain := sound.chain i
    rw [split] at chain
    have next : k.plink i left.getLast? = some pp := plink_eq chain
    have absent : pp ∉ rest := by
      have away := (List.nodup_middle.mp chain.nodup).notMem
      exact fun member => away (List.mem_append_right _ member)
    unfold wakeLoop
    rw [next]
    simp only
    by_cases here : k.pWchan pp = chan
    · have sleeping : k.pWchan pp ≠ 0 := ((sound.asleep i pp).mp (by rw [split]; simp)).1
      let k₁ := (k.setWchan pp 0).setPlink i (k.link pp) left.getLast?
      have taken : Sound vProc nglobpris k₁ (update list i (left ++ rest)) queue := sound.take split
      have wchan : k₁.pWchan = update k.pWchan pp 0 := setPlink_wchan
      have linked : Linked k k₁ := setPlink_linked (k := k.setWchan pp 0) _ _
      have runout₁ : k₁.runout = k.runout := setPlink_runout
      have awake : k₁.pWchan pp = 0 := by rw [wchan, update_self]
      have unread : Unread k k₁ rest := by
        intro p member
        have differ : p ≠ pp := fun same => absent (same ▸ member)
        obtain ⟨link, proc⟩ := linked p
        rw [wchan, update_of_ne differ, proc]
        exact ⟨rfl, rfl, rfl, rfl⟩
      obtain ⟨_, self⟩ := linked pp
      rw [if_pos here, List.filter_cons_of_neg (by simpa using here)]
      by_cases asleep : (k.proc pp).pStat = .ssleep
      · -- It runs: it goes behind the processes woken before it.
        have woken : Woken k chan pp := ⟨here, asleep⟩
        have stat : (k₁.proc pp).pStat = .ssleep := by rw [self]; exact asleep
        have pri : (k₁.proc pp).pPri = (k.proc pp).pPri := by rw [self]
        obtain ⟨sound₂, flag, started, others, kept⟩ := taken.run (sound.slot pp sleeping) awake (by rw [stat]; decide)
        rw [pri] at sound₂
        rw [self] at flag
        have unread₂ : Unread k (run pp k₁) rest := by
          intro p member
          have differ : p ≠ pp := fun same => absent (same ▸ member)
          have still : k₁.pWchan p ≠ 0 := ((taken.asleep i p).mp (by simp [member])).1
          have same : (run pp k₁).proc p = k₁.proc p := kept p differ (taken.unqueued still)
          rw [same]
          exact unread p member
        obtain ⟨k', runsched', result, sound', swap, last, runout, stats⟩ := (@ih _ _ _ _ _
          (if ((run pp k₁).proc pp).pFlag &&& sload = 0 ∧ (run pp k₁).runout > 0 then true else runsched))
          sound₂ (update_self ..) enough
        rw [unread₂.stay] at result sound'
        rw [Function.update_idem] at sound'
        refine ⟨k', runsched', ?_, ?_, ?_, fun j => (last j).trans (setPlink_last j), runout.trans runout₁, fun p => ?_⟩
        · exact (if_pos stat).trans result
        · have queues : (fun pri => update queue (k.proc pp).pPri (queue (k.proc pp).pPri ++ [pp]) pri ++
              rest.filter fun p => Woken (run pp k₁) chan p ∧ ((run pp k₁).proc p).pPri = pri) =
              fun pri => queue pri ++ (pp :: rest).filter fun p => Woken k chan p ∧ (k.proc p).pPri = pri := by
            funext pri
            rw [unread₂.woken]
            by_cases same : pri = (k.proc pp).pPri
            · subst same
              simp [woken]
            · have other : ¬ (k.proc pp).pPri = pri := fun equal => same equal.symm
              simp [same, other]
          rw [← queues]
          exact sound'
        · rw [swap, unread₂.swap runout₁, flag]
          have runout₂ : (run pp k₁).runout = k.runout := runout₁
          rw [runout₂]
          simp only [Swap, List.mem_cons, exists_eq_or_imp, woken, true_and]
          split
          · next now => simp [now.1, now.2]
          · next now => simp [now]
        · rcases stats p with same | running
          · by_cases self : p = pp
            · exact .inr (same.trans (self ▸ started))
            · exact .inl (same.trans ((others p self).trans (linked.stat p)))
          · exact .inr running
      · have stat : (k₁.proc pp).pStat ≠ .ssleep := by rw [self]; exact asleep
        have unwoken : ¬ Woken k chan pp := fun woken => asleep woken.2
        obtain ⟨k', runsched', result, sound', swap, last, runout, stats⟩ := ih taken
          (update_self ..) enough
        rw [unread.stay] at result sound'
        rw [Function.update_idem] at sound'
        refine ⟨k', runsched', ?_, ?_, ?_, fun j => (last j).trans (setPlink_last j), runout.trans runout₁,
          fun p => (stats p).imp_left fun same => same.trans (linked.stat p)⟩
        · exact (if_neg stat).trans result
        · simpa only [unread.woken, List.filter_cons_of_neg, unwoken, false_and, decide_false, Bool.false_eq_true,
            not_false_eq_true] using sound'
        · rw [swap, unread.swap runout₁]
          simp [Swap, unwoken]
    · rw [if_neg here]
      have moved := (@ih _ _ _ (left ++ [pp]) _ runsched) sound (by simp [split]) enough
      rw [List.getLast?_concat] at moved
      obtain ⟨k', runsched', result, sound', swap, last, runout, stats⟩ := moved
      have unwoken : ¬ Woken k chan pp := fun woken => here woken.1
      refine ⟨k', runsched', ?_, ?_, ?_, last, runout, stats⟩
      · rw [result, List.filter_cons_of_pos (by simpa using here)]
        simp
      · simpa [here, unwoken] using sound'
      · rw [swap]
        simp [Swap, unwoken]

instance {rest : List Nat} : Decidable (Swap k chan rest) := inferInstanceAs (Decidable (∃ p ∈ rest, _))

/-- `wakeprocs` takes the processes that wait for the channel off their list, makes those
that are not stopped runnable, and may go on with `setrun` for the swapper. -/
theorem wakeprocsWith_eq {setrun : Nat → Kernel → Option Kernel} (sound : Sound vProc nglobpris k list queue)
    (ended : Ended k list) :
    ∃ k', Sound vProc nglobpris k' (fun i => (list i).filter fun p => k.pWchan p ≠ chan)
        (fun pri => queue pri ++ (list (sqhash chan)).filter fun p => Woken k chan p ∧ (k.proc p).pPri = pri) ∧
      Ended k' (fun i => (list i).filter fun p => k.pWchan p ≠ chan) ∧
      (∀ p, (k'.proc p).pStat = (k.proc p).pStat ∨ (k'.proc p).pStat = .srun) ∧
      wakeprocsWith vProc setrun chan k =
        if Swap k chan (list (sqhash chan)) then setrun 0 { k' with runout := 0 } else some k' := by
  have length := sound.length_le (i := sqhash chan)
  obtain ⟨k', runsched, result, sound', swap, last, _, stats⟩ := (@wakeLoop_spec _ _ _ chan _ _ _ _ _ (vProc + 1) false) sound (List.nil_append (list (sqhash chan))).symm (by omega)
  have lists : update list (sqhash chan) ([] ++ (list (sqhash chan)).filter fun p => k.pWchan p ≠ chan) =
      fun i => (list i).filter fun p => k.pWchan p ≠ chan := by
    funext i
    by_cases same : i = sqhash chan
    · subst same
      simp
    · rw [update_of_ne same]
      refine (List.filter_eq_self.mpr fun p member => ?_).symm
      have other : k.pWchan p ≠ chan := by
        rintro rfl
        exact same ((sound.asleep i p).mp member).2.symm
      simpa using other
  rw [lists] at sound'
  let last' := ((list (sqhash chan)).filter fun p => k.pWchan p ≠ chan).getLast?
  refine ⟨k'.setSleepq (sqhash chan) fun sq => { sq with sqLast := last' }, sound'.setLast last', fun i => ?_, stats, ?_⟩
  · by_cases same : i = sqhash chan
    · subst same
      rw [Kernel.setSleepq]
      simp only [update_self]
      rfl
    · have kept := congrFun lists i
      rw [update_of_ne same] at kept
      change _ = ((list i).filter fun p => k.pWchan p ≠ chan).getLast?
      rw [← kept, ← ended i, ← last i]
      simp [same]
  · have found : wakeLoop chan (sqhash chan) (vProc + 1) none false k =
        some (((list (sqhash chan)).filter fun p => k.pWchan p ≠ chan).getLast?, runsched, k') := result
    unfold wakeprocsWith
    simp only [found]
    by_cases needed : Swap k chan (list (sqhash chan))
    · have yes : runsched = true := swap.mpr (.inr needed)
      simp [needed, yes, last']
    · have no : ¬ runsched = true := fun yes => (swap.mp yes).elim (by simp) needed
      simp [needed, no, last']

/-! ## `setrun` -/

theorem Sound.fields (sound : Sound vProc nglobpris k list queue) (runout runin : Int) (whystop parent : Nat → Nat) :
    Sound vProc nglobpris { k with runout := runout, runin := runin, pWhystop := whystop, pParent := parent } list queue :=
  ⟨sound.booked, sound.chain, sound.asleep, sound.slot, sound.stat, sound.running, sound.pri⟩

/-- The lists can only lose processes. -/
def Keeps (vProc nglobpris : Nat) (list : Nat → List Nat) (k' : Kernel) : Prop :=
  ∃ list' queue', Sound vProc nglobpris k' list' queue' ∧ Ended k' list' ∧ ∀ i, (list' i).Sublist (list i)

theorem Keeps.trans {list' : Nat → List Nat} (sub : ∀ i, (list' i).Sublist (list i))
    (keeps : Keeps vProc nglobpris list' k') : Keeps vProc nglobpris list k' := by
  obtain ⟨list'', queue'', sound, ended, less⟩ := keeps
  exact ⟨list'', queue'', sound, ended, fun i => (less i).trans (sub i)⟩

theorem taken_sound (sound : Sound vProc nglobpris k list queue) (ended : Ended k list) :
    ∃ k₁, (if (k.proc pp).pStat = .ssleep ∨ (k.proc pp).pStat = .sstop then unsleep vProc pp k else some k) = some k₁ ∧
      Sound vProc nglobpris k₁ (fun i => (list i).filter (· ≠ pp)) queue ∧ Ended k₁ (fun i => (list i).filter (· ≠ pp)) ∧
      k₁.pWchan pp = 0 ∧ Linked k k₁ ∧ k₁.runout = k.runout := by
  obtain ⟨k₁, result, sound₁, ended₁, linked, wchan, runout⟩ := unsleep_sound sound ended
  by_cases asleep : (k.proc pp).pStat = .ssleep ∨ (k.proc pp).pStat = .sstop
  · refine ⟨k₁, by rw [if_pos asleep, result], sound₁, ended₁, ?_, linked, runout⟩
    rw [wchan, update_self]
  · have awake : k.pWchan pp = 0 := by
      by_contra sleeping
      exact asleep (sound.stat pp sleeping)
    have same : k₁ = k := by
      rw [unsleep, if_neg fun sleeping => sleeping awake] at result
      exact (some.inj result).symm
    subst same
    exact ⟨k₁, if_neg asleep, sound₁, ended₁, awake, linked, rfl⟩

/-- One call of `setrun` for the swapper is enough, because `runout` is cleared before it. -/
theorem setrunIn_keeps {fuel : Nat} (sound : Sound vProc nglobpris k list queue) (ended : Ended k list) (slot : pp < vProc)
    (least : 1 ≤ fuel) (enough : 0 < k.runout → 2 ≤ fuel) :
    ∃ k', setrunIn vProc fuel pp k = some k' ∧ Keeps vProc nglobpris list k' := by
  induction fuel generalizing k list queue pp with
  | zero => omega
  | succ fuel ih =>
    unfold setrunIn
    by_cases runnable : (k.proc pp).pStat = .srun
    · exact ⟨k, by simp [runnable], list, queue, sound, ended, fun _ => List.Sublist.refl _⟩
    · obtain ⟨k₁, off, sound₁, ended₁, awake, linked, runout⟩ := (@taken_sound _ _ pp) sound ended
      have sub (i : Nat) : ((list i).filter (· ≠ pp)).Sublist (list i) := List.filter_sublist
      obtain ⟨_, self⟩ := linked pp
      rw [if_neg runnable]
      simp only [off, pure_def, bind_eq_bind, bind_some]
      by_cases stopped : (k₁.proc pp).pStat = .sstop ∧
          (k₁.proc pp).pFlag &&& (sxstart ||| spstart) ≠ sxstart ||| spstart
      · rw [if_pos stopped]
        by_cases parent : (k₁.proc pp).pFlag &&& spstart ≠ 0 ∧ k₁.pWhystop pp = prSignalled
        · rw [if_pos parent]
          obtain ⟨k₂, sound₂, ended₂, _, result⟩ := wakeprocsWith_eq
            sound₁ ended₁
          have sub₂ (i : Nat) := (List.filter_sublist (l := (list i).filter (· ≠ pp))
            (p := fun p => k₁.pWchan p ≠ k₁.pParent pp)).trans (sub i)
          rw [result]
          by_cases swap : Swap k₁ (k₁.pParent pp) ((list (sqhash (k₁.pParent pp))).filter (· ≠ pp))
          · rw [if_pos swap]
            obtain ⟨_, _, _, _, positive⟩ := swap
            have more := enough (runout ▸ positive)
            obtain ⟨k', last, keeps⟩ := (@ih 0) (sound₂.fields 0 k₂.runin k₂.pWhystop k₂.pParent) ended₂ (by omega)
              (by omega) nofun
            exact ⟨k', last, keeps.trans sub₂⟩
          · rw [if_neg swap]
            exact ⟨k₂, rfl, _, _, sound₂, ended₂, sub₂⟩
        · rw [if_neg parent]
          exact ⟨k₁, rfl, _, queue, sound₁, ended₁, sub⟩
      · rw [if_neg stopped]
        have started : (k₁.proc pp).pStat ≠ .srun := by
          rw [self]
          exact runnable
        obtain ⟨sound₂, _⟩ := (sound₁.fields k₁.runout k₁.runin (update k₁.pWhystop pp 0) k₁.pParent).run
          slot awake started
        split
        · next swap =>
          have positive : 0 < k.runout := by
            rw [← runout]
            exact swap.2
          obtain ⟨k', last, keeps⟩ := (@ih 0) (sound₂.fields 0 _ _ _) ended₁ (by omega) (by omega)
            nofun
          exact ⟨k', last, keeps.trans sub⟩
        · exact ⟨_, rfl, _, _, sound₂, ended₁, sub⟩

/-- A process that is not stopped, and the swapper has nothing to do: the process leaves its
list and nobody else does. -/
theorem setrunIn_lists {fuel : Nat} (sound : Sound vProc nglobpris k list queue) (ended : Ended k list) (slot : pp < vProc)
    (idle : k.runout ≤ 0) (going : (k.proc pp).pStat ≠ .sstop) :
    ∃ k' queue', setrunIn vProc (fuel + 1) pp k = some k' ∧
      Sound vProc nglobpris k' (fun i => (list i).filter (· ≠ pp)) queue' := by
  unfold setrunIn
  obtain ⟨k₁, off, sound₁, ended₁, awake, linked, runout⟩ := taken_sound sound ended
  by_cases runnable : (k.proc pp).pStat = .srun
  · have same : k₁ = k := by
      rw [if_neg (by rw [runnable]; decide)] at off
      exact (some.inj off).symm
    subst same
    exact ⟨k₁, queue, by simp [runnable], sound₁⟩
  · obtain ⟨_, self⟩ := linked pp
    have stat : (k₁.proc pp).pStat = (k.proc pp).pStat := by rw [self]
    obtain ⟨sound₂, _⟩ := (sound₁.fields k₁.runout k₁.runin (update k₁.pWhystop pp 0) k₁.pParent).run
      slot awake (by rw [stat]; exact runnable)
    rw [if_neg runnable]
    simp only [off, pure_def, bind_eq_bind, bind_some]
    rw [if_neg fun stopped => going (stat.symm.trans stopped.1), if_neg fun swap => ?_]
    · exact ⟨_, _, rfl, sound₂⟩
    · have positive : 0 < k₁.runout := swap.2
      omega

/-! ## The other calls -/

theorem setProc_booked (booked : Booked vProc nglobpris d queue) (free : ∀ pri, pp ∉ queue pri)
    (value : Proc → Proc) : Booked vProc nglobpris (d.setProc pp value) queue := by
  refine other_booked booked (value (d.proc pp)) ?_
  rw [booked.queued_iff]
  rintro ⟨pri, member⟩
  exact free pri member

theorem Sound.change {value : Proc → Proc} (sound : Sound vProc nglobpris k list queue) (free : ∀ pri, pp ∉ queue pri)
    (pri : (value (k.proc pp)).pPri < nglobpris)
    (asleep : k.pWchan pp ≠ 0 → (value (k.proc pp)).pLink = k.link pp ∧
      ((value (k.proc pp)).pStat = .ssleep ∨ (value (k.proc pp)).pStat = .sstop)) :
    Sound vProc nglobpris (k.setProc pp value) list queue := by
  have self : (k.disp.setProc pp value).proc pp = value (k.proc pp) := by simp
  have others {p : Nat} (differ : p ≠ pp) : (k.disp.setProc pp value).proc p = k.proc p := by
    simp [differ]
  refine sound.dispatch (setProc_booked sound.booked free value) (fun p sleeping => ?_)
    (fun pri p member => ?_) fun p => ?_
  · by_cases same : p = pp
    · subst same
      change ((k.disp.setProc p value).proc p).pLink = _ ∧ (((k.disp.setProc p value).proc p).pStat = _ ∨ _)
      rw [self]
      exact asleep sleeping
    · change ((k.disp.setProc pp value).proc p).pLink = _ ∧ (((k.disp.setProc pp value).proc p).pStat = _ ∨ _)
      rw [others same]
      exact ⟨rfl, sound.stat p sleeping⟩
  · have differ : p ≠ pp := fun same => free pri (same ▸ member)
    rw [others differ]
    exact sound.running pri p member
  · by_cases same : p = pp
    · subst same
      rw [self]
      exact pri
    · rw [others same]
      exact sound.pri p

section
variable (sound : Sound vProc nglobpris k list queue)
include sound

theorem Sound.flags (free : ∀ pri, pp ∉ queue pri) (flag : Nat → Nat) :
    Sound vProc nglobpris (k.setFlag pp flag) list queue :=
  sound.change free (sound.pri pp) fun sleeping => ⟨rfl, sound.stat pp sleeping⟩

theorem Sound.onproc (running : (k.proc pp).pStat = .sonproc) :
    k.pWchan pp = 0 ∧ ∀ pri, pp ∉ queue pri := by
  constructor
  · by_contra sleeping
    rcases sound.stat pp sleeping with stat | stat
    · rw [stat] at running
      cases running
    · rw [stat] at running
      cases running
  · intro pri member
    have stat := sound.running pri pp member
    rw [stat] at running
    cases running

theorem enqueue_sound (ended : Ended k list) (slot : pp < vProc)
    (running : (k.proc pp).pStat = .sonproc) (positive : chan ≠ 0) :
    ∃ k', enqueue pp chan k = some k' ∧
      Sound vProc nglobpris k' (update list (sqhash chan) (list (sqhash chan) ++ [pp])) queue ∧
      Ended k' (update list (sqhash chan) (list (sqhash chan) ++ [pp])) := by
  obtain ⟨awake, free⟩ := sound.onproc running
  have absent (i : Nat) : pp ∉ list i := fun member => ((sound.asleep i pp).mp member).1 awake
  have fifo : Fifo k.link (k.sleepq (sqhash chan)).sqFirst (k.sleepq (sqhash chan)).sqLast (list (sqhash chan)) :=
    ⟨sound.chain _, ended _⟩
  -- What has to be shown of the state after the call.
  suffices goal : ∃ k', enqueue pp chan k = some k' ∧ Booked vProc nglobpris k'.disp queue ∧
      Fifo k'.link (k'.sleepq (sqhash chan)).sqFirst (k'.sleepq (sqhash chan)).sqLast (list (sqhash chan) ++ [pp]) ∧
      (∀ i, i ≠ sqhash chan → k'.sleepq i = k.sleepq i) ∧
      (∀ p, p ≠ pp → p ∉ list (sqhash chan) → k'.link p = k.link p) ∧
      k'.pWchan = update k.pWchan pp chan ∧ (k'.proc pp).pStat = .ssleep ∧
      (∀ p, p ≠ pp → (k'.proc p).pStat = (k.proc p).pStat) ∧ ∀ p, (k'.proc p).pPri = (k.proc p).pPri by
    obtain ⟨k', result, booked, fifo', sleepq, links, wchan, self, stat, pri⟩ := goal
    refine ⟨k', result, ⟨booked, fun i => ?_, fun i p => ?_, fun p sleeping => ?_, fun p sleeping => ?_,
      fun pri p member => ?_, fun p => ?_⟩, fun i => ?_⟩
    · by_cases same : i = sqhash chan
      · subst same
        rw [update_self]
        exact fifo'.chain
      · rw [update_of_ne same, sleepq i same]
        refine (sound.chain i).congr fun p member => links p (fun same => absent i (same ▸ member)) fun there => ?_
        exact same (((sound.asleep i p).mp member).2.symm.trans ((sound.asleep _ p).mp there).2)
    · rw [wchan]
      by_cases new : p = pp
      · subst new
        rw [update_self]
        by_cases same : i = sqhash chan
        · subst same
          simp [positive]
        · rw [update_of_ne same]
          exact ⟨fun member => absurd member (absent i), fun hash => absurd hash.2.symm same⟩
      · rw [update_of_ne new, ← sound.asleep]
        by_cases same : i = sqhash chan
        · subst same
          simp [new]
        · rw [update_of_ne same]
    · rw [wchan] at sleeping
      by_cases new : p = pp
      · rw [new]
        exact slot
      · rw [update_of_ne new] at sleeping
        exact sound.slot p sleeping
    · rw [wchan] at sleeping
      by_cases new : p = pp
      · rw [new]
        exact .inl self
      · rw [update_of_ne new] at sleeping
        rw [stat p new]
        exact sound.stat p sleeping
    · have differ : p ≠ pp := fun same => free pri (same ▸ member)
      rw [stat p differ]
      exact sound.running pri p member
    · rw [pri]
      exact sound.pri p
    · by_cases same : i = sqhash chan
      · subst same
        rw [update_self]
        exact fifo'.last
      · rw [update_of_ne same, sleepq i same]
        exact ended i
  have slept := setProc_booked sound.booked free fun p => { p with pStat := .ssleep }
  cases head : (k.sleepq (sqhash chan)).sqFirst with
  | none =>
    have empty : list (sqhash chan) = [] := by
      have chain := fifo.chain
      rw [head] at chain
      exact Chain.nil_iff.mp chain
    let k' := (((k.setProc pp fun p => { p with pStat := .ssleep }).setWchan pp chan).setSleepq (sqhash chan) fun _ =>
      ⟨some pp, some pp⟩).setProc pp fun p => { p with pLink := none }
    refine ⟨k', ?_, setProc_booked slept free fun p => { p with pLink := none }, ?_, fun i other => ?_,
      fun p differ _ => ?_, rfl, ?_, fun p differ => ?_, fun p => ?_⟩
    · simp [enqueue, k', head]
    · have link : k'.link pp = none := by simp [k']
      rw [empty]
      constructor
      · have first : (k'.sleepq (sqhash chan)).sqFirst = some pp := by simp [k']
        rw [first]
        apply Chain.cons
        rw [link]
        exact .nil
      · simp [k']
    · simp [k', other]
    · simp [k', differ]
    · simp [k']
    · simp [k', differ]
    · by_cases same : p = pp
      · subst same
        simp [k']
      · simp [k', same]
  | some first =>
    obtain ⟨last, tail⟩ : ∃ last, (k.sleepq (sqhash chan)).sqLast = some last := by
      have chain := fifo.chain
      rw [head] at chain
      obtain ⟨rest, split, _⟩ := Chain.cons_iff.mp chain
      rw [fifo.last, split]
      exact ⟨_, List.getLast?_eq_some_getLast (List.cons_ne_nil first rest)⟩
    have member : last ∈ list (sqhash chan) := by
      have final := fifo.last
      rw [tail] at final
      exact List.mem_of_getLast? final.symm
    have differs : last ≠ pp := fun same => absent _ (same ▸ member)
    have freeLast : ∀ pri, last ∉ queue pri := sound.unqueued ((sound.asleep _ last).mp member).1
    let k' := ((((k.setProc pp fun p => { p with pStat := .ssleep }).setWchan pp chan).setProc last fun p =>
      { p with pLink := some pp }).setSleepq (sqhash chan) fun sq => { sq with sqLast := some pp }).setProc pp fun p =>
      { p with pLink := none }
    have links {p : Nat} (differ : p ≠ pp) (other : p ≠ last) : k'.link p = k.link p := by
      simp [k', differ, other]
    refine ⟨k', ?_, setProc_booked (setProc_booked slept freeLast fun p => { p with pLink := some pp }) free fun p =>
      { p with pLink := none }, ?_, fun i other => ?_, fun p differ outside => ?_, rfl, ?_, fun p differ => ?_, fun p => ?_⟩
    · simp [enqueue, k', head, tail]
    · have appended := fifo.append (absent _)
        (by simp [k'])
        (by
          intro p final
          cases tail.symm.trans final
          simp [k', differs])
        fun p there final => links (fun same => absent _ (same ▸ there)) fun same => final (by rw [tail, same])
      simpa [k', tail] using appended
    · simp [k', other]
    · exact links differ fun same => outside (same ▸ member)
    · simp [k', differs.symm]
    · by_cases same : p = last
      · subst same
        simp [k', differ]
      · simp [k', differ, same]
    · by_cases new : p = pp
      · subst new
        simp [k', differs.symm]
      · by_cases same : p = last
        · subst same
          simp [k', new]
        · simp [k', new, same]

theorem sleep_sound {disp : Nat} (ended : Ended k list) (slot : pp < vProc)
    (running : (k.proc pp).pStat = .sonproc) (positive : chan ≠ 0) (inside : pri < nglobpris) :
    ∃ k', sleep pp chan disp pri k = some k' ∧
      Sound vProc nglobpris k' (update list (sqhash chan) (list (sqhash chan) ++ [pp])) queue ∧
      Ended k' (update list (sqhash chan) (list (sqhash chan) ++ [pp])) := by
  obtain ⟨_, free⟩ := sound.onproc running
  obtain ⟨k₁, result, sound₁, ended₁⟩ := enqueue_sound sound ended slot running positive
  unfold sleep
  rw [result]
  simp only [pure_def, bind_eq_bind, bind_some]
  by_cases low : pzero < disp &&& pmask
  · rw [if_pos low]
    have cleared := sound₁.flags free (clear (snwake ||| snostop))
    by_cases nostop : disp &&& pnostop ≠ 0
    · rw [if_pos nostop]
      exact ⟨_, rfl, (cleared.flags free (· ||| snostop)).flags free (· ||| sasleep), ended₁⟩
    · rw [if_neg nostop]
      exact ⟨_, rfl, cleared.flags free (· ||| sasleep), ended₁⟩
  · rw [if_neg low]
    have marked := sound₁.flags free (· ||| snwake)
    exact ⟨_, rfl, marked.change free inside fun sleeping => ⟨rfl, marked.stat pp sleeping⟩, ended₁⟩

end

theorem setrun_keeps (sound : Sound vProc nglobpris k list queue) (ended : Ended k list) (slot : pp < vProc) :
    ∃ k', setrun vProc pp k = some k' ∧ Keeps vProc nglobpris list k' :=
  setrunIn_keeps sound ended slot (by decide) fun _ => Nat.le_refl 2

section
variable (sound : Sound vProc nglobpris k list queue)
include sound

theorem wakeprocs_keeps (ended : Ended k list) :
    ∃ k', wakeprocs vProc chan k = some k' ∧ Keeps vProc nglobpris list k' := by
  obtain ⟨k₁, sound₁, ended₁, _, result⟩ := wakeprocsWith_eq sound ended
  have sub (i : Nat) : ((list i).filter fun p => k.pWchan p ≠ chan).Sublist (list i) := List.filter_sublist
  unfold wakeprocs
  rw [result]
  by_cases swap : Swap k chan (list (sqhash chan))
  · rw [if_pos swap]
    obtain ⟨p, member, _⟩ := swap
    have slot := sound.slot p ((sound.asleep _ p).mp member).1
    obtain ⟨k', last, keeps⟩ := (@setrun_keeps _ _ 0) (sound₁.fields 0 k₁.runin k₁.pWhystop k₁.pParent) ended₁ (by omega)
    exact ⟨k', last, keeps.trans sub⟩
  · rw [if_neg swap]
    exact ⟨k₁, rfl, _, _, sound₁, ended₁, sub⟩

theorem sleepAbort_keeps (ended : Ended k list)
    (inside : (k.proc pp).pStat = .ssleep ∨ (k.proc pp).pStat = .sonproc) (result : sleepAbort vProc pp k = some k') :
    Keeps vProc nglobpris list k' := by
  have free (pri : Nat) : pp ∉ queue pri := by
    intro member
    have runnable := sound.running pri pp member
    rcases inside with stat | stat
    · rw [stat] at runnable
      cases runnable
    · rw [stat] at runnable
      cases runnable
  unfold sleepAbort at result
  by_cases asleep : (k.proc pp).pStat = .ssleep
  · obtain ⟨k₁, off, sound₁, ended₁, _, wchan, _⟩ := unsleep_sound sound ended
    have awake : k₁.pWchan pp = 0 := by rw [wchan, update_self]
    simp only [if_pos asleep, off, Option.map_some, pure_def, bind_eq_bind, bind_some] at result
    cases result
    have back := (@Sound.change _ _ _ _ _ _ (fun p => { p with pStat := .sonproc })) sound₁ free (sound₁.pri pp)
      fun sleeping => absurd awake sleeping
    exact ⟨_, _, back.flags free _, ended₁, fun i => List.filter_sublist⟩
  · simp only [if_neg asleep, pure_def, bind_eq_bind, bind_some] at result
    cases result
    exact ⟨_, _, sound.flags free _, ended, fun i => List.Sublist.refl _⟩

theorem sleepOn_keeps (ended : Ended k list)
    (inside : (k.proc pp).pStat = .ssleep ∨ (k.proc pp).pStat = .sonproc) (bound : pri < nglobpris)
    (other : k.pWchan pp ≠ 0 → ∀ t, wakeprocs vProc chan { k with runin := 0 } = some t → t.pWchan pp ≠ 0)
    (result : sleepOn vProc chan pp pri k = some k') : Keeps vProc nglobpris list k' := by
  unfold sleepOn at result
  by_cases awake : k.pWchan pp = 0
  · rw [if_pos awake] at result
    cases result
    refine ⟨_, _, sound.flags (fun pri member => ?_) _, ended, fun i => List.Sublist.refl _⟩
    have runnable := sound.running pri pp member
    rcases inside with stat | stat
    · rw [stat] at runnable
      cases runnable
    · rw [stat] at runnable
      cases runnable
  · rw [if_neg awake] at result
    -- Whether or not the swapper is woken, the process itself still sleeps.
    obtain ⟨k₁, woken, sleeping, list₁, queue₁, sound₁, ended₁, sub⟩ : ∃ k₁,
        (if k.runin ≠ 0 then wakeprocs vProc chan { k with runin := 0 } else some k) = some k₁ ∧ k₁.pWchan pp ≠ 0 ∧
          Keeps vProc nglobpris list k₁ := by
      by_cases waiting : k.runin ≠ 0
      · obtain ⟨k₁, woken, keeps⟩ := wakeprocs_keeps
          (sound.fields k.runout 0 k.pWhystop k.pParent) ended
        exact ⟨k₁, by rw [if_pos waiting]; exact woken, other awake k₁ woken, keeps⟩
      · exact ⟨k, if_neg waiting, awake, list, queue, sound, ended, fun _ => List.Sublist.refl _⟩
    simp only [woken, pure_def, bind_eq_bind, bind_some] at result
    cases result
    have free := sound₁.unqueued sleeping
    have cleared := sound₁.flags free (clear sasleep)
    exact ⟨_, _, cleared.change free bound fun sleeping => ⟨rfl, cleared.stat pp sleeping⟩, ended₁, sub⟩

theorem Sound.framed (booked : Booked vProc nglobpris d queue')
    (framed : Framed queue queue' k.disp d)
    (member : ∀ pri, ∀ p ∈ queue' pri, (k.proc p).pStat = .srun ∧ k.pWchan p = 0) :
    Sound vProc nglobpris { k with disp := d } list queue' := by
  refine sound.dispatch booked (fun p sleeping => ?_) (fun pri p there => ?_) fun p => ?_
  · have same : d.proc p = k.proc p :=
      framed.outside p (sound.unqueued sleeping) fun pri there => sleeping (member pri p there).2
    rw [Disp.link, same]
    exact ⟨rfl, sound.stat p sleeping⟩
  · rw [framed.pStat]
    exact (member pri p there).1
  · rw [framed.pPri]
    exact sound.pri p

theorem Sound.runnable (member : pp ∈ queue pri) :
    (k.proc pp).pStat = .srun ∧ k.pWchan pp = 0 :=
  ⟨sound.running pri pp member, sound.awake member⟩

theorem stop_keeps {why flag : Nat} (ended : Ended k list)
    (result : stop vProc pp why flag k = some k') : Keeps vProc nglobpris list k' := by
  obtain ⟨d, found, queue', off, booked, framed, sub, gone⟩ := (@Dispatcher.dispdeq_booked _ _ pp) sound.booked
  have dequeued : Sound vProc nglobpris { k with disp := d } list queue' :=
    sound.framed booked framed fun pri p member => sound.runnable (sub pri member)
  unfold stop at result
  simp only [off, pure_def, bind_eq_bind, bind_some] at result
  cases result
  have marked := dequeued.fields k.runout k.runin (update k.pWhystop pp why) k.pParent
  exact ⟨_, _, marked.change gone (marked.pri pp) fun _ => ⟨rfl, .inr rfl⟩, ended, fun _ => List.Sublist.refl _⟩

theorem dispatch_keeps {event : Dispatcher.Event}
    (ended : Ended k list) (step : Dispatcher.Step vProc nglobpris k.disp event d) (allowed : Allowed nglobpris k d event) :
    Keeps vProc nglobpris list { k with disp := d } := by
  suffices goal : ∃ queue', Sound vProc nglobpris { k with disp := d } list queue' by
    obtain ⟨queue', sound'⟩ := goal
    exact ⟨list, queue', sound', ended, fun _ => List.Sublist.refl _⟩
  cases step with
  | @setbackdq pp slot inside free =>
    refine ⟨_, sound.framed (setbackdq_booked sound.booked slot inside free) (setbackdq_framed sound.booked)
      fun pri p member => ?_⟩
    by_cases same : pri = (k.proc pp).pPri
    · subst same
      rw [update_self, List.mem_append, List.mem_singleton] at member
      rcases member with member | rfl
      · exact sound.runnable member
      · exact allowed
    · rw [update_of_ne same] at member
      exact sound.runnable member
  | @setfrontdq pp slot inside free =>
    refine ⟨_, sound.framed (setfrontdq_booked sound.booked slot inside free) setfrontdq_framed fun pri p member => ?_⟩
    by_cases same : pri = (k.proc pp).pPri
    · subst same
      rw [update_self, List.mem_cons] at member
      rcases member with rfl | member
      · exact allowed
      · exact sound.runnable member
    · rw [update_of_ne same] at member
      exact sound.runnable member
  | dispdeq result =>
    obtain ⟨d', found, queue', off, booked, framed, sub, _⟩ := dispdeq_booked sound.booked
    cases result.symm.trans off
    exact ⟨queue', sound.framed booked framed fun pri p member => sound.runnable (sub pri member)⟩
  | pswtch result =>
    obtain ⟨d', queue', same, booked, switched, _⟩ := pswtch_booked sound.booked
    cases result.symm.trans same
    refine ⟨queue', sound.dispatch booked (fun p sleeping => ?_) (fun pri p member => ?_) fun p => ?_⟩
    · have stat := sound.stat p sleeping
      have still : (k.proc p).pStat ≠ .sonproc := fun running => sleeping (sound.onproc running).1
      rw [Disp.link, switched.outside p (sound.unqueued sleeping) still]
      exact ⟨rfl, stat⟩
    · obtain ⟨before, stat⟩ := switched.inside pri p member
      rcases stat with stat | stat
      · exact stat.trans (sound.running pri p before)
      · exact stat
    · rw [switched.pPri]
      exact sound.pri p
  | @setFlag pp flag queued =>
    refine ⟨queue, sound.dispatch (setFlag_booked sound.booked flag queued) (fun p sleeping => ?_)
      (fun pri p member => ?_) fun p => ?_⟩
    · have differ : p ≠ pp := by
        rintro rfl
        obtain ⟨pri, member⟩ := sound.booked.queued_iff.mp queued
        exact sound.unqueued sleeping pri member
      have same : (k.disp.setProc pp fun p => { p with pFlag := flag }).proc p = k.proc p := by
        simp [differ]
      rw [Disp.link, setFlag_proc, same]
      exact ⟨rfl, sound.stat p sleeping⟩
    · rw [setFlag_proc]
      by_cases same : p = pp
      · subst same
        simpa using sound.running pri p member
      · simpa [same] using sound.running pri p member
    · rw [setFlag_proc]
      by_cases same : p = pp
      · subst same
        simpa using sound.pri p
      · simpa [same] using sound.pri p
  | @other pp p free =>
    have bound : p.pPri < nglobpris := by simpa using allowed.2
    refine ⟨queue, sound.change (fun pri member => ?_) bound fun sleeping => absurd allowed.1 sleeping⟩
    exact free (sound.booked.queued_iff.mpr ⟨pri, member⟩)

end

/-! ## Runs -/

/-- When the process last went to sleep, counted in steps. -/
def sleptAt : List (Kernel × Event) → Nat → Nat
  | [], _ => 0
  | (_, .sleep pp _) :: history, p => if p = pp then history.length + 1 else sleptAt history p
  | _ :: history, p => sleptAt history p

/-- The lists are in the order in which the processes went to sleep. -/
structure Slept (vProc nglobpris : Nat) (history : List (Kernel × Event)) (k : Kernel) (list queue : Nat → List Nat) :
    Prop where
  sound : Sound vProc nglobpris k list queue
  ended : Ended k list
  order : ∀ i, (list i).Pairwise fun p p' => sleptAt history p < sleptAt history p'
  past : ∀ p, sleptAt history p ≤ history.length

variable {history : List (Kernel × Event)} {event : Event}

theorem boot_slept (boot : Boot nglobpris k) : Slept vProc nglobpris [] k (fun _ => []) fun _ => [] := by
  obtain ⟨disp, sleepq, wchan, pri⟩ := boot
  refine ⟨⟨boot_booked disp, fun i => ?_, ?_, ?_, ?_, by simp, pri⟩, fun i => ?_, by simp, fun _ => Nat.le_refl 0⟩
  · rw [sleepq]
    exact .nil
  · simp [wchan]
  · simp [wchan]
  · simp [wchan]
  · rw [sleepq]
    rfl

theorem Slept.keeps (slept : Slept vProc nglobpris history k list queue) (keeps : Keeps vProc nglobpris list k')
    (other : ∀ pp chan, event ≠ .sleep pp chan) : ∃ list' queue', Slept vProc nglobpris ((k, event) :: history) k' list' queue' := by
  obtain ⟨list', queue', sound, ended, sub⟩ := keeps
  have same (p : Nat) : sleptAt ((k, event) :: history) p = sleptAt history p := by
    cases event with
    | sleep pp chan => exact absurd rfl (other pp chan)
    | _ => rfl
  refine ⟨list', queue', sound, ended, fun i => ?_, fun p => ?_⟩
  · simp only [same]
    exact (slept.order i).sublist (sub i)
  · rw [same]
    exact Nat.le_succ_of_le (slept.past p)

theorem step_slept (slept : Slept vProc nglobpris history k list queue) (step : Step vProc nglobpris k event k') :
    ∃ list' queue', Slept vProc nglobpris ((k, event) :: history) k' list' queue' := by
  have sound := slept.sound
  have ended := slept.ended
  cases step with
  | @sleep _ pp chan disp pri slot running positive inside result =>
    obtain ⟨k₁, same, sound₁, ended₁⟩ := sleep_sound sound ended slot running positive inside
    cases result.symm.trans same
    have awake := (sound.onproc running).1
    refine ⟨_, queue, sound₁, ended₁, fun i => ?_, fun p => ?_⟩
    · have old (i : Nat) : (list i).Pairwise fun p p' =>
          sleptAt ((k, .sleep pp chan) :: history) p < sleptAt ((k, .sleep pp chan) :: history) p' := by
        refine (slept.order i).imp_of_mem fun {p p'} member member' less => ?_
        have differ : p ≠ pp := fun same => ((sound.asleep i p).mp member).1 (same ▸ awake)
        have differ' : p' ≠ pp := fun same => ((sound.asleep i p').mp member').1 (same ▸ awake)
        simpa only [sleptAt, if_neg differ, if_neg differ'] using less
      by_cases same : i = sqhash chan
      · subst same
        rw [update_self]
        refine List.pairwise_append.mpr ⟨old _, List.pairwise_singleton _ _, fun p member p' new => ?_⟩
        obtain rfl := List.mem_singleton.mp new
        have differ : p ≠ p' := fun same => ((sound.asleep _ p).mp member).1 (same ▸ awake)
        have past := slept.past p
        simp only [sleptAt, if_neg differ, if_true]
        omega
      · rw [update_of_ne same]
        exact old i
    · have past := slept.past p
      simp only [sleptAt, List.length_cons]
      split
      · omega
      · omega
  | sleepAbort inside result => exact slept.keeps (sleepAbort_keeps sound ended inside result) nofun
  | sleepOn chan pri inside bound other result =>
    exact slept.keeps (sleepOn_keeps sound ended inside bound other result) nofun
  | unsleep result =>
    obtain ⟨k₁, same, sound₁, ended₁, _⟩ := unsleep_sound sound ended
    cases result.symm.trans same
    exact slept.keeps ⟨_, queue, sound₁, ended₁, fun i => List.filter_sublist⟩ nofun
  | wakeprocs result =>
    obtain ⟨k₁, same, keeps⟩ := wakeprocs_keeps sound ended
    cases result.symm.trans same
    exact slept.keeps keeps nofun
  | setrun slot result =>
    obtain ⟨k₁, same, keeps⟩ := setrun_keeps sound ended slot
    cases result.symm.trans same
    exact slept.keeps keeps nofun
  | stop why flag result => exact slept.keeps (stop_keeps sound ended result) nofun
  | dispatch step allowed => exact slept.keeps (dispatch_keeps sound ended step allowed) nofun
  | @mark pp flag pri parent free bound =>
    have changed := (@Sound.change _ _ _ _ _ _ (fun p => { p with pFlag := flag, pPri := pri })) sound
      (fun pri member => free (sound.booked.queued_iff.mpr ⟨pri, member⟩)) bound
      fun sleeping => ⟨rfl, sound.stat pp sleeping⟩
    exact slept.keeps ⟨list, queue, changed.fields k.runout k.runin k.pWhystop _, ended,
      fun _ => List.Sublist.refl _⟩ nofun
  | swapper runout runin =>
    exact slept.keeps ⟨list, queue, sound.fields runout runin k.pWhystop k.pParent, ended,
      fun _ => List.Sublist.refl _⟩ nofun

theorem runs_slept (runs : Runs (Boot nglobpris) (Step vProc nglobpris) (fun _ _ => True) history k) :
    ∃ list queue, Slept vProc nglobpris history k list queue := by
  induction runs with
  | start boot => exact ⟨_, _, boot_slept boot⟩
  | next _ step _ ih =>
    obtain ⟨list, queue, slept⟩ := ih
    exact step_slept slept step

/-- Every process that waits for a channel is on the list of the channel, once, and the
lists are in the order of going to sleep. A wakeup takes off those that wait for the
channel, leaves the rest as they are and makes the sleeping ones runnable in their order;
after it the swapper may be set running. -/
theorem sleep_queues (runs : Runs (Boot nglobpris) (Step vProc nglobpris) (fun _ _ => True) history k) :
    ∃ list queue : Nat → List Nat,
      (∀ i, Chain k.link (k.sleepq i).sqFirst (list i) ∧ (k.sleepq i).sqLast = (list i).getLast? ∧
        (∀ pp, (k.sleepq i).sqLast = some pp → k.link pp = none) ∧
        (∀ pp, (list i).count pp = if k.pWchan pp ≠ 0 ∧ sqhash (k.pWchan pp) = i then 1 else 0) ∧
        (list i).Pairwise fun p p' => sleptAt history p < sleptAt history p') ∧
      (∀ pri, Chain k.link (k.disp.dispq pri).dqFirst (queue pri)) ∧
      (∀ chan, ∃ k' t, wakeprocs vProc chan k = some t ∧
        (if Swap k chan (list (sqhash chan)) then setrun vProc 0 { k' with runout := 0 } = some t else t = k') ∧
        (∀ i, Chain k'.link (k'.sleepq i).sqFirst ((list i).filter fun p => k.pWchan p ≠ chan)) ∧
        (∀ pri, Chain k'.link (k'.disp.dispq pri).dqFirst
          (queue pri ++ (list (sqhash chan)).filter fun p => Woken k chan p ∧ (k.proc p).pPri = pri)) ∧
        ((k.proc 0).pStat ≠ .sstop → ∀ i, Chain t.link (t.sleepq i).sqFirst
          ((list i).filter fun p => k.pWchan p ≠ chan ∧ ¬ (p = 0 ∧ Swap k chan (list (sqhash chan)))))) ∧
      ∀ pp, (unsleep vProc pp k).isSome := by
  obtain ⟨list, queue, slept⟩ := runs_slept runs
  have sound := slept.sound
  have ended := slept.ended
  refine ⟨list, queue, fun i => ⟨sound.chain i, ended i, fun pp last => ?_, fun pp => ?_, slept.order i⟩,
    fun pri => (sound.booked.fifo pri).chain, fun chan => ?_, fun pp => ?_⟩
  · rw [ended i] at last
    obtain ⟨front, split⟩ := List.getLast?_eq_some_iff.mp last
    have chain := sound.chain i
    rw [split] at chain
    exact chain.next_eq
  · split
    · next there => exact List.count_eq_one_of_mem (sound.chain i).nodup ((sound.asleep i pp).mpr there)
    · next away => exact List.count_eq_zero_of_not_mem fun member => away ((sound.asleep i pp).mp member)
  · obtain ⟨k', sound', ended', stats, result⟩ := wakeprocsWith_eq sound ended
    obtain ⟨t, final, _⟩ := wakeprocs_keeps sound ended
    refine ⟨k', t, final, ?_, sound'.chain, fun pri => (sound'.booked.fifo pri).chain, fun going i => ?_⟩
    · by_cases swap : Swap k chan (list (sqhash chan))
      · rw [if_pos swap] at result ⊢
        exact result.symm.trans final
      · rw [if_neg swap] at result ⊢
        exact some.inj (final.symm.trans result)
    · by_cases swap : Swap k chan (list (sqhash chan))
      · rw [if_pos swap] at result
        obtain ⟨p, member, _⟩ := id swap
        have slot := sound.slot p ((sound.asleep _ p).mp member).1
        have awake : (k'.proc 0).pStat ≠ .sstop := by
          rcases stats 0 with same | running
          · rw [same]
            exact going
          · rw [running]
            decide
        obtain ⟨t', _, last, lists⟩ := setrunIn_lists
          (sound'.fields 0 k'.runin k'.pWhystop k'.pParent) ended' (by omega) (Int.le_refl 0) awake
        obtain rfl : t' = t := some.inj (last.symm.trans (result.symm.trans final))
        have chain := lists.chain i
        rw [List.filter_filter] at chain
        simpa [swap, and_comm] using chain
      · rw [if_neg swap] at result
        obtain rfl : k' = t := some.inj (result.symm.trans final)
        simpa [swap] using sound'.chain i
  · obtain ⟨k', result, _⟩ := unsleep_sound sound ended
    rw [result]
    rfl

end

/-! ## The swapper -/

/-- The swapper runs and process 1 is being created. -/
def Kernel.booted : Kernel where
  disp := {
    proc := fun pp => if pp = 0 then ⟨.sonproc, ssys ||| sload, 0, none⟩ else ⟨.sidl, sload, 0, none⟩
    dispq := fun _ => ⟨none, none, 0⟩
    dqactmap := fun _ => 0
    srunprocs := 0
    maxrunpri := -1
    curproc := 0
    curpri := 0 }
  pWchan _ := 0
  pWhystop _ := 0
  pParent _ := 0
  sleepq _ := ⟨none, none⟩
  runout := 0
  runin := 0

/-- The swapper waits until there is something to swap in. -/
def Kernel.waiting : Kernel := (sleep 0 8 0 0 { Kernel.booted with runout := 1 }).getD Kernel.booted

def Kernel.ready : Kernel := (setrun 2 1 Kernel.waiting).getD Kernel.booted

/-- Process 1 runs. -/
def Kernel.started : Kernel := { Kernel.ready with disp := (pswtch 2 Kernel.ready.disp).getD Kernel.ready.disp }

def Kernel.slept : Kernel := (sleep 1 16 0 0 Kernel.started).getD Kernel.booted

/-- Process 1 has gone to sleep and is swapped out. -/
def Kernel.swapped : Kernel :=
  { Kernel.slept.setProc 1 fun p => { p with pFlag := 0, pPri := 0 } with
    pParent := update Kernel.slept.pParent 1 0 }

theorem swapped_runs : ∃ history, Runs (Boot 1) (Step 2 1) (fun _ _ => True) history Kernel.swapped := by
  have boot : Boot 1 Kernel.booted := by
    refine ⟨⟨fun _ => rfl, fun _ => rfl, rfl, rfl⟩, fun _ => rfl, fun _ => rfl, fun pp => ?_⟩
    simp only [Kernel.proc, Kernel.booted]
    split
    · decide
    · decide
  have start : Runs (Boot 1) (Step 2 1) (fun _ _ => True) [] Kernel.booted := .start boot
  have first := start.next (.swapper 1 0) trivial
  have waiting := first.next (Step.sleep 0 0 (by decide : 0 < 2) (by decide) (by decide : 8 ≠ 0)
    (by decide) rfl) trivial
  have ready := waiting.next (Step.setrun (by decide : 1 < 2) rfl) trivial
  have switch : pswtch 2 Kernel.ready.disp = some Kernel.started.disp := rfl
  have started := ready.next (.dispatch (.pswtch switch) trivial) trivial
  have slept := started.next (Step.sleep (k := Kernel.started) 0 0 (by decide : 1 < 2) (by decide)
    (by decide : 16 ≠ 0) (by decide) rfl) trivial
  obtain ⟨_, _, inv⟩ := runs_slept slept
  exact ⟨_, slept.next (.mark 0 0 0 (inv.sound.not_queued (by decide)) (by decide)) trivial⟩

/-- A wakeup of a process that is swapped out also takes the swapper off its list,
although it waits for something else. -/
theorem wakeprocs_swapper : ¬ ∀ history k, Runs (Boot 1) (Step 2 1) (fun _ _ => True) history k →
    ∀ chan t, wakeprocs 2 chan k = some t → ∀ pp, k.pWchan pp ≠ chan → t.pWchan pp = k.pWchan pp := by
  intro exactly
  obtain ⟨history, runs⟩ := swapped_runs
  have same := exactly history _ runs 16 _ (rfl : _ = some ((wakeprocs 2 16 Kernel.swapped).getD Kernel.booted)) 0
    (by decide)
  cases same

/-- Both processes sleep, on lists of their own. -/
theorem sleep_queues_swapped : ∃ history, Runs (Boot 1) (Step 2 1) (fun _ _ => True) history Kernel.swapped ∧
    ∃ t, wakeprocs 2 16 Kernel.swapped = some t := by
  obtain ⟨history, runs⟩ := swapped_runs
  obtain ⟨_, _, _, _, wake, _⟩ := sleep_queues runs
  obtain ⟨_, t, result, _⟩ := wake 16
  exact ⟨history, runs, t, result⟩

end Svr4.Sleep
