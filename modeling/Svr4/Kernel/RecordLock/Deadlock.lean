import Svr4.Foundation.Digraph
import Svr4.Kernel.RecordLock.Waiting

/-! `deadflck` follows the blockers recorded on `sleeplcks`.

The entries form a graph without cycles, so the chase ends. What it finds is a
deadlock only while the processes on the chain are still asleep: a process that
was woken keeps its entry until it runs.
-/

namespace Svr4.RecordLock

open Relation Words

/-- The owner of an entry is recorded as blocked by `stat.blk`. -/
def Recorded (sleeplcks : List Filock) (a b : Owner) : Prop :=
  ∃ sf ∈ sleeplcks, sf.set.owner = a ∧ sf.stat.blk = b

def Owner.Fits (o : Owner) : Prop := FitsShort o.pid ∧ FitsShort o.sysid

instance (o : Owner) : Decidable o.Fits := inferInstanceAs (Decidable (_ ∧ _))

/-! ## The chase -/

/-- One entry an owner, and blockers that the shorts of `deadflck` can hold. -/
structure Entries (sleeplcks : List Filock) : Prop where
  single : ∀ e ∈ sleeplcks, ∀ e' ∈ sleeplcks, e.set.owner = e'.set.owner → e = e'
  fits : ∀ e ∈ sleeplcks, e.stat.blk.Fits

section
variable {list : List Filock} {lckdat : Flock} {pid sysid : Int} {fuel : Nat}

/-- The entry that the inner loop of `deadflck` stops at. -/
theorem chase_next (entries : Entries list) {e : Filock} (member : e ∈ list)
    (owner : e.set.owner = ⟨pid, sysid⟩) :
    list.find? (fun sf => pid = sf.set.lPid ∧ sysid = sf.set.lSysid) = some e := by
  cases found : list.find? fun sf => pid = sf.set.lPid ∧ sysid = sf.set.lSysid with
  | none =>
    have absent := List.find?_eq_none.mp found e member
    obtain ⟨rfl, rfl⟩ := Owner.mk.inj owner
    simp at absent
  | some e' =>
    have test : pid = e'.set.lPid ∧ sysid = e'.set.lSysid := by simpa using List.find?_some found
    have same : e'.set.owner = e.set.owner := by
      rw [owner, test.1, test.2]
      rfl
    rw [entries.single e' (List.mem_of_find?_eq_some found) e member same]

theorem chase_last (absent : ∀ e ∈ list, e.set.owner ≠ ⟨pid, sysid⟩) :
    list.find? (fun sf => pid = sf.set.lPid ∧ sysid = sf.set.lSysid) = none := by
  apply List.find?_eq_none.mpr
  intro e member test
  obtain ⟨rfl, rfl⟩ : pid = e.set.lPid ∧ sysid = e.set.lSysid := by simpa using test
  exact absent e member rfl

theorem chase_step (entries : Entries list) {e : Filock} (member : e ∈ list)
    (owner : e.set.owner = ⟨pid, sysid⟩) (other : (⟨pid, sysid⟩ : Owner) ≠ lckdat.owner) :
    chase list lckdat (fuel + 1) pid sysid = chase list lckdat fuel e.stat.blk.pid e.stat.blk.sysid := by
  have differs : ¬ (pid = lckdat.lPid ∧ sysid = lckdat.lSysid) := by
    rintro ⟨rfl, rfl⟩
    exact other rfl
  have word : toShort e.stat.word = e.stat.blk.sysid := toShort_of_fits (entries.fits e member).2
  have process : toShort e.stat.pid = e.stat.blk.pid := toShort_of_fits (entries.fits e member).1
  simp only [chase, if_neg differs, chase_next entries member owner, word, process]

theorem chase_end (absent : ∀ e ∈ list, e.set.owner ≠ ⟨pid, sysid⟩)
    (other : (⟨pid, sysid⟩ : Owner) ≠ lckdat.owner) :
    chase list lckdat (fuel + 1) pid sysid = some false := by
  have differs : ¬ (pid = lckdat.lPid ∧ sysid = lckdat.lSysid) := by
    rintro ⟨rfl, rfl⟩
    exact other rfl
  simp only [chase, if_neg differs, chase_last absent]

theorem chase_here (same : (⟨pid, sysid⟩ : Owner) = lckdat.owner) :
    chase list lckdat (fuel + 1) pid sysid = some true := by
  obtain ⟨rfl, rfl⟩ := Owner.mk.inj same
  simp [chase]

theorem deadflck_eq {found : Filock} (fits : found.set.owner.Fits) :
    deadflck fuel list found lckdat =
      chase list lckdat fuel found.set.owner.pid found.set.owner.sysid := by
  have process : toShort found.set.lPid = found.set.owner.pid := toShort_of_fits fits.1
  have system : toShort found.set.lSysid = found.set.owner.sysid := toShort_of_fits fits.2
  rw [deadflck, process, system]

theorem chase_false (entries : Entries list) (chased : chase list lckdat fuel pid sysid = some false)
    {o : Owner} (path : ReflTransGen (Recorded list) ⟨pid, sysid⟩ o) : o ≠ lckdat.owner := by
  induction fuel generalizing pid sysid with
  | zero => cases chased
  | succ fuel ih =>
    by_cases same : (⟨pid, sysid⟩ : Owner) = lckdat.owner
    · rw [chase_here same] at chased
      cases chased
    · rcases path.cases_head with rfl | ⟨b, ⟨e, member, owner, rfl⟩, rest⟩
      · exact same
      · rw [chase_step entries member owner same] at chased
        exact ih chased rest

theorem chase_true (entries : Entries list) (chased : chase list lckdat fuel pid sysid = some true) :
    ReflTransGen (fun a b => a ≠ lckdat.owner ∧ Recorded list a b) ⟨pid, sysid⟩ lckdat.owner := by
  induction fuel generalizing pid sysid with
  | zero => cases chased
  | succ fuel ih =>
    by_cases same : (⟨pid, sysid⟩ : Owner) = lckdat.owner
    · rw [same]
    · by_cases waiting : ∃ e ∈ list, e.set.owner = ⟨pid, sysid⟩
      · obtain ⟨e, member, owner⟩ := waiting
        rw [chase_step entries member owner same] at chased
        exact .head ⟨same, e, member, owner, rfl⟩ (ih chased)
      · simp only [not_exists, not_and] at waiting
        rw [chase_end waiting same] at chased
        cases chased

theorem chase_ends (entries : Entries list) (acyclic : Acyclic (Recorded list)) (o : Owner) :
    ∃ fuel dead, chase list lckdat fuel o.pid o.sysid = some dead := by
  have sources (a b : Owner) (edge : Recorded list a b) : a ∈ (list.map (·.set.owner)).toFinset := by
    obtain ⟨e, member, rfl, _⟩ := edge
    simpa using ⟨e, member, rfl⟩
  -- The chase goes along edges, and every walk along them is finite.
  induction o using (acyclic.wellFounded _ sources).induction with
  | h o ih =>
    by_cases same : o = lckdat.owner
    · exact ⟨1, true, chase_here same⟩
    · by_cases waiting : ∃ e ∈ list, e.set.owner = o
      · obtain ⟨e, member, owner⟩ := waiting
        obtain ⟨fuel, dead, chased⟩ := ih e.stat.blk ⟨e, member, owner, rfl⟩
        exact ⟨fuel + 1, dead, (chase_step entries member owner same).trans chased⟩
      · simp only [not_exists, not_and] at waiting
        exact ⟨1, false, chase_end waiting same⟩

end

/-! ## The entries of a running system -/

/-- The entry on `sleeplcks` of a process in `reclock`. -/
def Proc.entry : Proc → Option Addr
  | .idle => none
  | .asleep _ sf _ => some sf
  | .ready _ sf => some sf

/-- Entries and processes match, owners fit in shorts and nobody waits for himself. -/
structure Registered (s : System) : Prop where
  distinct : (addrs s.sleeplcks).Nodup
  entry : ∀ e ∈ s.sleeplcks, (s.proc e.set.owner).entry = some e.addr
  process : ∀ o sf, (s.proc o).entry = some sf → ∃ e ∈ s.sleeplcks, e.addr = sf ∧ e.set.owner = o
  blk : ∀ e ∈ s.sleeplcks, e.stat.blk.Fits
  held : ∀ vp, ∀ f ∈ s.filocks vp, f.set.owner.Fits
  acyclic : Acyclic (Recorded s.sleeplcks)

/-- The owners that make requests have a pid and a sysid that fit in a short. -/
def Shorts (_ : System) (event : Event) : Prop :=
  ∀ o call turn, event = .turn o call turn → o.Fits

theorem eq_of_addr {list : List Filock} (distinct : (addrs list).Nodup) {e e' : Filock} (member : e ∈ list)
    (member' : e' ∈ list) (same : e.addr = e'.addr) : e = e' :=
  List.inj_on_of_nodup_map distinct member member' same

section
variable {s t : System} {vp : Vnode} {list : List Filock} {woken : List Addr} {o : Owner} {p : Proc}
  {call : Call} {turn : Turn}

theorem Proc.wake_entry : (p.wake woken).entry = p.entry := by
  cases p with
  | idle => rfl
  | asleep call sf chan =>
    simp only [Proc.wake]
    split
    · rfl
    · rfl
  | ready => rfl

theorem Registered.entries (registered : Registered s) : Entries s.sleeplcks where
  single e member e' member' same := by
    have entry := registered.entry e member
    rw [same, registered.entry e' member'] at entry
    exact (eq_of_addr registered.distinct member' member (Option.some.inj entry)).symm
  fits := registered.blk

theorem Registered.store (registered : Registered s) (held : ∀ f ∈ list, f.set.owner.Fits) :
    Registered (s.store vp list woken) where
  distinct := registered.distinct
  entry e member := by
    simp only [System.store, Proc.wake_entry]
    exact registered.entry e member
  process o sf entry := by
    simp only [System.store, Proc.wake_entry] at entry
    exact registered.process o sf entry
  blk := registered.blk
  held v f member := by
    by_cases here : v = vp
    · subst here
      exact held f (by simpa [System.store] using member)
    · exact registered.held v f (by simpa [System.store, here] using member)
  acyclic := registered.acyclic

theorem Registered.put (registered : Registered s) (same : p.entry = (s.proc o).entry) :
    Registered (s.put o p) := by
  have procs (o' : Owner) : ((s.put o p).proc o').entry = (s.proc o').entry := by
    by_cases here : o' = o
    · subst here
      simpa [System.put] using same
    · simp [System.put, here]
  exact {
    distinct := registered.distinct
    entry := fun e member => (procs _).trans (registered.entry e member)
    process := fun o sf entry => registered.process o sf ((procs o).symm.trans entry)
    blk := registered.blk
    held := registered.held
    acyclic := registered.acyclic }

/-- The cleanup behind `SLEEP` leaves no entry of the process. -/
theorem Registered.leave {sf : Addr} (registered : Registered s) (entry : (s.proc o).entry = some sf)
    (left : s.leave sf = some t) : Registered (t.put o .idle) := by
  obtain ⟨before, node, rest, shape, same, _, rfl⟩ := leave_some left
  have distinct := registered.distinct
  have mine : node.set.owner = o := by
    obtain ⟨e, member, at_, owner⟩ := registered.process o sf entry
    rw [eq_of_addr distinct (by simp [shape]) member (same.trans at_.symm)]
    exact owner
  have sub : (before ++ rest).Sublist s.sleeplcks := by simp [shape]
  have kept (e : Filock) (member : e ∈ before ++ rest) : e ∈ s.sleeplcks := sub.subset member
  have absent : node.addr ∉ addrs (before ++ rest) := by
    rw [shape] at distinct
    simp only [addrs, List.map_append, List.map_cons, List.nodup_append, List.nodup_cons, List.mem_append,
      List.mem_cons] at distinct ⊢
    rintro (member | member)
    · exact distinct.2.2 _ member _ (.inl rfl) rfl
    · exact distinct.2.1.1 member
  have other (e : Filock) (member : e ∈ before ++ rest) : e.set.owner ≠ o := by
    intro owner
    have entry' := registered.entry e (kept e member)
    rw [owner, entry] at entry'
    apply absent
    rw [same, Option.some.inj entry']
    exact mem_addrs member
  constructor
  · exact distinct.sublist (sub.map _)
  · intro e member
    have entry' := registered.entry e (kept e member)
    simpa [System.put, other e member] using entry'
  · intro o' sf' entry'
    by_cases here : o' = o
    · subst here
      simp [System.put, Proc.entry] at entry'
    · obtain ⟨e, member, at_, owner⟩ := registered.process o' sf' (by simpa [System.put, here] using entry')
      refine ⟨e, ?_, at_, owner⟩
      rw [shape] at member
      simp only [System.put, List.mem_append, List.mem_cons] at member ⊢
      rcases member with member | rfl | member
      · exact .inl member
      · exact absurd (owner.symm.trans mine) here
      · exact .inr member
  · exact fun e member => registered.blk e (kept e member)
  · exact registered.held
  · apply registered.acyclic.mono
    rintro a b ⟨e, member, edge⟩
    exact ⟨e, kept e member, edge⟩

/-- The locks that a call leaves are the requester's or were there before. -/
theorem AdjustedOk.owners {ld : Flock} {result : Adjusted} (ok : AdjustedOk list ld result) {f : Filock}
    (member : f ∈ result.list) : f.set.owner = ld.owner ∨ ∃ g ∈ list, g.set.owner = f.set.owner := by
  have holds : Holds result.list f.set.owner f.set.lStart f.set.lType :=
    ⟨f, member, rfl, le_rfl, ok.ordered.range f member, rfl⟩
  have before : f.set.owner = ld.owner ∨ Holds list f.set.owner f.set.lStart f.set.lType := by
    by_cases done : result.retval = none
    · have overlaid := (ok.done done _ _ _).mp holds
      unfold Overlaid at overlaid
      split at overlaid
      · next here => exact .inl here.1
      · exact .inr overlaid
    · exact .inr (ok.failed done _ _ _ holds)
  apply before.imp id
  rintro ⟨g, present, owner, _⟩
  exact ⟨g, present, owner⟩

theorem put_store : (s.store vp list woken).put o .idle = (s.put o .idle).store vp list woken := by
  simp only [System.put, System.store]
  congr 1
  funext o'
  by_cases here : o' = o
  · subst here
    simp [Proc.wake]
  · simp [here]

theorem Registered.mark (registered : Registered (s.put o .idle)) {before rest : List Filock} {found : Filock}
    (shape : s.filocks vp = before ++ found :: rest) :
    Registered ((s.store vp (before ++ found.mark :: rest) []).put o .idle) := by
  rw [put_store]
  apply registered.store
  intro f member
  rcases List.mem_append.mp member with member | member
  · exact registered.held vp f (by simp [System.put, shape, member])
  · rcases List.mem_cons.mp member with rfl | member
    · exact registered.held vp found (by simp [System.put, shape])
    · exact registered.held vp f (by simp [System.put, shape, member])

/-- A new entry adds an edge from which the process cannot be reached. -/
theorem Registered.join (registered : Registered (s.put o .idle)) {new : Filock} (owner : new.set.owner = o)
    (fresh : new.addr ∉ addrs s.sleeplcks) (fits : new.stat.blk.Fits) (entry : p.entry = some new.addr)
    (apart : ¬ ReflTransGen (Recorded s.sleeplcks) new.stat.blk o) :
    Registered ({ s with sleeplcks := new :: s.sleeplcks }.put o p) := by
  have other (e : Filock) (member : e ∈ s.sleeplcks) : e.set.owner ≠ o := by
    rintro rfl
    have entry := registered.entry e member
    simp [System.put, Proc.entry] at entry
  constructor
  · exact List.nodup_cons.mpr ⟨fresh, registered.distinct⟩
  · intro e member
    rcases List.mem_cons.mp member with rfl | member
    · simpa [System.put, owner] using entry
    · simpa [System.put, other e member] using registered.entry e member
  · intro o' sf entry'
    by_cases here : o' = o
    · subst here
      refine ⟨new, by simp [System.put], ?_, owner⟩
      simpa [System.put, entry] using entry'
    · obtain ⟨e, member, rest⟩ := registered.process o' sf (by simpa [System.put, here] using entry')
      exact ⟨e, .tail _ member, rest⟩
  · intro e member
    rcases List.mem_cons.mp member with rfl | member
    · exact fits
    · exact registered.blk e member
  · exact registered.held
  · apply registered.acyclic.insert (x := o) (y := new.stat.blk) ?_ apart
    rintro a b ⟨e, member, rfl, rfl⟩
    rcases List.mem_cons.mp member with rfl | member
    · exact .inr ⟨owner, rfl⟩
    · exact .inl ⟨e, member, rfl, rfl⟩

/-- A round keeps the entries in order. The process has none when it begins. -/
theorem Registered.round {used used' : Addr → Prop} {kmem : Kmem used} {sleepmem : Kmem used'} {fuel : Nat}
    (registered : Registered (s.put o .idle)) (locked : Locked s) (owner : call.lckdat.owner = o)
    (range : call.lckdat.lStart ≤ call.lckdat.lEnd) (fits : o.Fits)
    (round : Round kmem sleepmem fuel s call t turn) : Registered (t.put o (turn.proc call)) := by
  have ordered := locked.ordered call.vp
  cases round with
  | quiet => exact registered
  | deadlock => exact registered
  | adjust insrt result starts adjusted =>
    obtain ⟨result', again, ok⟩ := flckadj_starts kmem ordered range starts
    obtain rfl := Option.some.inj (adjusted.symm.trans again)
    simp only [Turn.proc, put_store]
    apply registered.store
    intro f member
    rcases ok.owners member with mine | ⟨g, present, same⟩
    · rw [mine, owner]
      exact fits
    · rw [← same]
      exact registered.held call.vp g present
  | sleep found sf list first chased memory marked =>
    obtain ⟨present, conflict⟩ := blocked_some range ordered first
    obtain ⟨before, rest, shape, rfl⟩ := assign_mark ordered present marked
    have blocker : found.set.owner.Fits := registered.held call.vp found present
    -- The chase started at the blocker and did not meet the requester.
    have apart : ¬ ReflTransGen (Recorded s.sleeplcks) found.set.owner o := by
      intro path
      rw [deadflck_eq blocker] at chased
      exact chase_false registered.entries chased path owner.symm
    exact (registered.mark shape).join owner (sleepmem.fresh memory).1 blocker rfl apart

theorem Registered.step {event : Event} (registered : Registered s) (locked : Locked s)
    (step : Step s event t) (shorts : Shorts s event) : Registered t := by
  cases step with
  | reject => exact registered
  | call vattr vattr' lckdat flag fuel kmem sleepmem idle owner whence entry round =>
    obtain ⟨same, range⟩ := reclockEntry_ok entry
    apply Registered.round ?_ locked (same.trans owner) range (shorts _ _ _ rfl) (reclockTurn_round round)
    apply registered.put
    rw [idle]
  | unsleep asleep =>
    apply registered.put
    rw [asleep]
    rfl
  | interrupt vattr ready left => exact registered.leave (by rw [ready]; rfl) left
  | resume vattr fuel kmem sleepmem ready left round =>
    have owner := locked.owner _ _ (by rw [ready]; rfl)
    have range := locked.range _ _ (by rw [ready]; rfl)
    have registered := registered.leave (by rw [ready]; rfl) left
    obtain ⟨before, node, rest, _, _, _, rfl⟩ := leave_some left
    exact registered.round (locked.entries _) owner range (shorts _ _ _ rfl) (reclockTurn_round round)
  | clean vp pid sysid =>
    apply registered.store
    intro f member
    exact registered.held vp f ((cleanlocks_sublist pid sysid).subset member)

theorem Registered.boot (boot : System.Boot s) : Registered s := by
  obtain ⟨empty, none, idle⟩ := boot
  constructor
  · simp [none]
  · simp [none]
  · intro o sf entry
    simp [idle o, Proc.entry] at entry
  · simp [none]
  · simp [empty]
  · intro a cycle
    obtain ⟨b, ⟨e, member, _⟩, _⟩ := TransGen.head'_iff.mp cycle
    simp [none] at member

/-- `deadflck` returns whatever it is asked. -/
def Chased (sleeplcks : List Filock) : Prop :=
  ∀ flp lckdat, ∃ fuel dead, deadflck fuel sleeplcks flp lckdat = some dead

def System.Asleep (s : System) (o : Owner) : Prop := ∃ call sf chan, s.proc o = .asleep call sf chan

theorem Registered.chased (registered : Registered s) : Chased s.sleeplcks :=
  fun flp _ => chase_ends registered.entries registered.acyclic ⟨toShort flp.set.lPid, toShort flp.set.lSysid⟩

/-- The recorded waits have no cycle. Hence the chase ends, also in the call of a
process that has just left its sleep, and no processes sleep in a circle. -/
theorem sleeplcks_acyclic (reached : Reaches System.Boot Step Shorts s) :
    Acyclic (Recorded s.sleeplcks) ∧ Chased s.sleeplcks ∧
      (∀ o call sf t, s.proc o = .ready call sf → s.leave sf = some t → Chased t.sleeplcks) ∧
      ∀ (n : Nat) (owners : Nat → Owner), 0 < n → owners n = owners 0 →
        ¬ ∀ i < n, s.Asleep (owners i) ∧ Recorded s.sleeplcks (owners i) (owners (i + 1)) := by
  have invariant : Locked s ∧ Registered s := by
    apply reached.invariant
    · exact fun s boot => ⟨.boot boot, .boot boot⟩
    · rintro s event t ⟨locked, registered⟩ step shorts
      exact ⟨locked.step step, registered.step locked step shorts⟩
  obtain ⟨_, registered⟩ := invariant
  refine ⟨registered.acyclic, registered.chased, ?_, ?_⟩
  · intro o call sf t ready left
    exact (registered.leave (by rw [ready]; rfl) left).chased
  · intro n owners positive closes circle
    apply registered.acyclic (owners 0)
    have walk (k : Nat) (bound : k < n) : TransGen (Recorded s.sleeplcks) (owners 0) (owners (k + 1)) := by
      induction k with
      | zero => exact .single (circle 0 bound).2
      | succ k ih => exact (ih (by omega)).tail (circle (k + 1) bound).2
    have around := walk (n - 1) (by omega)
    rwa [Nat.sub_add_cancel positive, closes] at around

end

theorem sleeplcks_acyclic_queued : ∃ s, Reaches System.Boot Step Shorts s ∧
    Recorded s.sleeplcks ⟨2, 0⟩ ⟨1, 0⟩ ∧ Acyclic (Recorded s.sleeplcks) := by
  obtain ⟨t, granted, contended, _⟩ := contended_granted
  obtain ⟨u, slept, queued, _⟩ := contended.sleep
  have reached : Reaches System.Boot Step Shorts u := by
    apply Reaches.next (.next (.start ⟨fun _ => rfl, rfl, fun _ => rfl⟩) granted ?_) slept
    · intro o call turn same
      cases same
      decide
    · intro o call turn same
      cases same
      decide
  refine ⟨u, reached, ?_, (sleeplcks_acyclic reached).1⟩
  rw [queued.sleeplcks]
  exact ⟨_, List.mem_singleton_self _, rfl, rfl⟩

end Svr4.RecordLock
