import Svr4.Kernel.Semaphore.Ownership
import Svr4.Kernel.Semaphore.Wakeup

/-! Adjustments are exact: an entry holds what the process has taken with `SEM_UNDO`
since it started or since the value was last set.

`un_aoe` is a short and the sum is made before it is compared with `semaem`. A
sum that leaves the range of a short comes back inside the limit when
`2 * semaem` and the largest operation make 65536.
-/

namespace Svr4.Semaphore

open Words Ipc
open Option (some bind_eq_some_iff)

attribute [local simp] System.live Proc.live System.put

/-! ## Entries as a map -/

section
variable {info : Seminfo} {passed rest entries : List Undo} {entry : Undo} {id id' val : Int} {num num' : Nat}
  {keep : Undo → Bool}

theorem lookup_absent (absent : ∀ entry ∈ entries, ¬ (entry.unId = id ∧ entry.unNum = num)) :
    lookup id num entries = 0 := by
  induction entries with
  | nil => rfl
  | cons entry rest ih =>
    rw [lookup, if_neg (absent entry (by simp))]
    exact ih fun other member => absent other (by simp [member])

theorem lookup_passed (absent : ∀ entry ∈ passed, ¬ (entry.unId = id ∧ entry.unNum = num)) :
    lookup id num (passed ++ rest) = lookup id num rest := by
  induction passed with
  | nil => rfl
  | cons entry passed ih =>
    rw [List.cons_append, lookup, if_neg (absent entry (by simp))]
    exact ih fun other member => absent other (by simp [member])

theorem lookup_other (other : ¬ (entry.unId = id ∧ entry.unNum = num)) :
    lookup id num (passed ++ entry :: rest) = lookup id num (passed ++ rest) := by
  induction passed with
  | nil => rw [List.nil_append, lookup, if_neg other, List.nil_append]
  | cons first passed ih =>
    simp only [List.cons_append, lookup]
    rw [ih]

theorem lookup_here (sorted : (passed ++ entry :: rest).Pairwise fun a b => a.before b.unId b.unNum) :
    lookup entry.unId entry.unNum (passed ++ entry :: rest) = entry.unAoe ∧
      lookup entry.unId entry.unNum (passed ++ rest) = 0 := by
  obtain ⟨_, behind, across⟩ := List.pairwise_append.mp sorted
  have before : ∀ other ∈ passed, ¬ (other.unId = entry.unId ∧ other.unNum = entry.unNum) := by
    intro other member same
    have less := across other member entry (by simp)
    unfold Undo.before at less
    omega
  have after : ∀ other ∈ rest, ¬ (other.unId = entry.unId ∧ other.unNum = entry.unNum) := by
    intro other member same
    have less := (List.pairwise_cons.mp behind).1 other member
    unfold Undo.before at less
    omega
  constructor
  · rw [lookup_passed before, lookup, if_pos ⟨rfl, rfl⟩]
  · rw [lookup_passed before, lookup_absent after]

/-- No sum of an entry and an operation wraps back inside the limit. -/
def Seminfo.exact (info : Seminfo) : Prop := 2 * info.semaem + min info.semaem info.semvmx < 65536

theorem toShort_exact (exact : info.exact) {aoe : Int} (bounded : -info.semaem ≤ aoe ∧ aoe ≤ info.semaem)
    (small : -info.semaem ≤ val ∧ val ≤ info.semaem) (fits : -info.semvmx ≤ val ∧ val ≤ info.semvmx)
    (inside : ¬ (info.semaem < toShort (aoe - val) ∨ toShort (aoe - val) < -info.semaem)) :
    toShort (aoe - val) = aoe - val := by
  have whole : (65536 : Int) ∣ (aoe - val) - toShort (aoe - val) := Int.dvd_self_sub_bmod
  unfold Seminfo.exact at exact
  omega

theorem change_lookup (exact : info.exact) (ok : EntriesOk info entries)
    (small : -info.semaem ≤ val ∧ val ≤ info.semaem) (fits : -info.semvmx ≤ val ∧ val ≤ info.semvmx)
    (done : (change info val id num entries).error = none) :
    lookup id' num' (change info val id num entries).entries =
      lookup id' num' entries - if id' = id ∧ num' = num then val else 0 := by
  rcases change_cases entries id num with
    ⟨passed, entry, rest, rfl, rfl, rfl, stops⟩ | ⟨passed, rest, rfl, stops, absent⟩
  · rw [change_found stops] at done ⊢
    have bounded := ok.bounded entry (by simp)
    obtain ⟨here, gone⟩ := lookup_here ok.sorted
    unfold changeEntry at done ⊢
    split at done
    · cases done
    · next inside =>
      have value := toShort_exact exact bounded small fits inside
      rw [if_neg inside, value]
      by_cases same : id' = entry.unId ∧ num' = entry.unNum
      · obtain ⟨rfl, rfl⟩ := same
        rw [here, if_pos (⟨rfl, rfl⟩ : entry.unId = entry.unId ∧ entry.unNum = entry.unNum)]
        split
        · next zero =>
          rw [Change.entries, gone, zero]
        · have stops' : lookup entry.unId entry.unNum
              (passed ++ { entry with unAoe := entry.unAoe - val } :: rest) = entry.unAoe - val := by
            rw [lookup_passed, lookup, if_pos ⟨rfl, rfl⟩]
            intro other member same
            have less := stops.before other member
            unfold Undo.before at less
            omega
          exact stops'
      · have other (aoe : Int) : lookup id' num' (passed ++ { entry with unAoe := aoe } :: rest) =
            lookup id' num' (passed ++ rest) := lookup_other fun key => same ⟨key.1.symm, key.2.symm⟩
        rw [if_neg same, Int.sub_zero, other entry.unAoe]
        split
        · rfl
        · exact other _
  · rw [change_absent stops absent] at done ⊢
    split at done
    · cases done
    · next room =>
      rw [if_neg room]
      have value : toShort (-val) = -val := (@toShort_of_bound info) (by omega)
      rw [value]
      have before : ∀ other ∈ passed, ¬ (other.unId = id ∧ other.unNum = num) := by
        intro other member same
        have less := stops.before other member
        unfold Undo.before at less
        omega
      have after : ∀ other ∈ rest, ¬ (other.unId = id ∧ other.unNum = num) := by
        intro other member same
        cases rest with
        | nil => cases member
        | cons first rest =>
          rcases List.mem_cons.mp member with rfl | member
          · exact absent other (by simp) same
          · have less := (List.pairwise_cons.mp (List.pairwise_append.mp ok.sorted).2.1).1 other member
            have stop := stops.ahead first (by simp)
            unfold Undo.before at less stop
            have first' := absent first (by simp)
            omega
      by_cases same : id' = id ∧ num' = num
      · obtain ⟨rfl, rfl⟩ := same
        rw [Change.entries, lookup_passed before, lookup, if_pos ⟨rfl, rfl⟩, if_pos ⟨rfl, rfl⟩, lookup_passed before,
          lookup_absent after, Int.zero_sub]
      · rw [if_neg same, Int.sub_zero]
        exact lookup_other fun key => same ⟨key.1.symm, key.2.symm⟩

/-- The entries are sorted, so leaving the loop early loses nothing. -/
theorem purge_eq_filter {low high : Nat} (sorted : entries.Pairwise fun a b => a.before b.unId b.unNum) :
    purge id low high entries =
      entries.filter fun entry => ¬ (entry.unId = id ∧ low ≤ entry.unNum ∧ entry.unNum ≤ high) := by
  induction entries with
  | nil => rfl
  | cons entry rest ih =>
    obtain ⟨first, tail⟩ := List.pairwise_cons.mp sorted
    have keep (all : ∀ other ∈ entry :: rest, ¬ (other.unId = id ∧ low ≤ other.unNum ∧ other.unNum ≤ high)) :
        (entry :: rest).filter (fun entry => ¬ (entry.unId = id ∧ low ≤ entry.unNum ∧ entry.unNum ≤ high)) =
          entry :: rest := by
      apply List.filter_eq_self.mpr
      intro other member
      simp only [decide_eq_true_eq]
      exact all other member
    have behind (other : Undo) (member : other ∈ entry :: rest) : other = entry ∨ entry.before other.unId other.unNum := by
      rcases List.mem_cons.mp member with rfl | member
      · exact .inl rfl
      · exact .inr (first other member)
    unfold purge
    split
    · next past =>
      rw [keep]
      intro other member same
      rcases behind other member with rfl | less
      · omega
      · unfold Undo.before at less
        omega
    · split
      · next early =>
        rw [ih tail, List.filter_cons_of_pos]
        simp only [decide_eq_true_eq]
        omega
      · split
        · next beyond =>
          rw [keep]
          intro other member same
          rcases behind other member with rfl | less
          · omega
          · unfold Undo.before at less
            omega
        · rw [ih tail, List.filter_cons_of_neg]
          simp only [decide_eq_true_eq, not_not]
          omega

theorem EntriesOk.filter (ok : EntriesOk info entries) : EntriesOk info (entries.filter keep) where
  sorted := ok.sorted.sublist List.filter_sublist
  nonzero entry member := ok.nonzero entry (List.mem_filter.mp member).1
  bounded entry member := ok.bounded entry (List.mem_filter.mp member).1
  few := Nat.le_trans (List.length_filter_le _ _) ok.few

theorem lookup_filter :
    (∀ entry : Undo, entry.unId = id → entry.unNum = num → keep entry = true) →
      lookup id num (entries.filter keep) = lookup id num entries := by
  intro all
  induction entries with
  | nil => rfl
  | cons entry rest ih =>
    by_cases here : entry.unId = id ∧ entry.unNum = num
    · rw [List.filter_cons_of_pos (all entry here.1 here.2), lookup, if_pos here, lookup, if_pos here]
    · rw [lookup, if_neg here]
      by_cases kept : keep entry = true
      · rw [List.filter_cons_of_pos kept, lookup, if_neg here, ih]
      · rw [List.filter_cons_of_neg kept, ih]

theorem purge_lookup {low high : Nat} (ok : EntriesOk info entries) :
    EntriesOk info (purge id low high entries) ∧ lookup id' num' (purge id low high entries) =
      if id' = id ∧ low ≤ num' ∧ num' ≤ high then 0 else lookup id' num' entries := by
  rw [purge_eq_filter ok.sorted]
  refine ⟨ok.filter, ?_⟩
  split
  · next inside =>
    apply lookup_absent
    intro entry member same
    have kept := (List.mem_filter.mp member).2
    simp only [decide_eq_true_eq] at kept
    exact kept ⟨same.1.trans inside.1, by omega, by omega⟩
  · next outside =>
    apply lookup_filter
    intro entry sameId sameNum
    simp only [decide_eq_true_eq]
    rw [sameId, sameNum]
    exact outside

end

/-! ## A pass -/

/-- What `op` takes from the adjustment of the semaphore `num`. -/
def Sembuf.takes (op : Sembuf) (num : Nat) : Int := if op.undo ∧ op.semNum = num then op.semOp else 0

def taken (num : Nat) (ops : List Sembuf) : Int := (ops.map fun op => op.takes num).sum

theorem taken_zero {num : Nat} {ops : List Sembuf} (absent : ∀ op ∈ ops, op.semNum ≠ num) : taken num ops = 0 := by
  induction ops with
  | nil => rfl
  | cons op ops ih =>
    have here : op.takes num = 0 := if_neg fun same => absent op (by simp) same.2
    have rest := ih fun other member => absent other (by simp [member])
    unfold taken at rest ⊢
    rw [List.map_cons, List.sum_cons, here, rest, Int.add_zero]

section
variable {info : Seminfo} {slot : Slot} {semid : Int} {base : Nat} {op : Sembuf} {w w' : Work} {k k' : Tables}
  {done rest ops : List Sembuf} {pid : Int} {outcome : Outcome}

theorem Fair.of_same (fair : Fair info slot k) (values : ∀ i, (k'.sem i).semval = (k.sem i).semval)
    (undo : SameUndo k k') : Fair info slot k' where
  values i := by
    rw [values]
    exact fair.values i
  entries := by
    rw [undo.entries]
    exact fair.entries
  clean := undo.clean fair.clean

theorem Fair.of_unmoved (fair : Fair info slot k) (unmoved : Unmoved slot k k') : Fair info slot k' where
  values i := by
    rw [unmoved.values]
    exact fair.values i
  entries := by
    rw [unmoved.entries]
    exact fair.entries
  clean := unmoved.clean

theorem Applied.aoe (exact : info.exact) (fair : Fair info slot k) (fair' : Fair info slot k')
    (applied : Applied info slot semid base op k k') (id : Int) (num : Nat) :
    k'.aoe slot id num = k.aoe slot id num - if id = semid then op.takes num else 0 := by
  unfold Sembuf.takes Tables.aoe
  by_cases plain : op.undo = false ∨ op.semOp = 0
  · rw [applied.plain plain]
    rcases plain with plain | zero
    · simp [plain]
    · simp [zero]
  · simp only [not_or, Bool.not_eq_false] at plain
    obtain ⟨_, accepted, reverts⟩ := applied.undo plain.1 plain.2
    have before := fair.values (base + op.semNum)
    have after := fair'.values (base + op.semNum)
    have sum := applied.values (base + op.semNum)
    rw [Sembuf.on, if_pos rfl] at sum
    have bounds := accepted.2
    have back := (@change_lookup _ _ _ id _ _ num) exact reverts.ok (by omega) (by omega)
      reverts.error
    rw [reverts.entries] at back
    rw [back]
    by_cases here : id = semid ∧ num = op.semNum
    · obtain ⟨rfl, rfl⟩ := here
      simp [plain.1]
    · rw [if_neg here]
      by_cases same : id = semid
      · have other : op.semNum ≠ num := fun num' => here ⟨same, num'.symm⟩
        simp [same, other]
      · simp [same]

theorem semopFrom_aoe (exact : info.exact) (fair : Fair info slot w.k)
    (result : semopFrom info slot pid semid base ops done rest w = some (w', .success)) :
    Fair info slot w'.k ∧ ∀ id num,
      w'.k.aoe slot id num = w.k.aoe slot id num - if id = semid then taken num rest else 0 := by
  induction rest generalizing done w with
  | nil =>
    cases result
    refine ⟨fair.of_same (fun i => stamp_semval ops) (stamp_undo ops), fun id num => ?_⟩
    rw [Tables.aoe, (stamp_undo ops).entries]
    simp [taken, Tables.aoe]
  | cons op rest ih =>
    obtain ⟨⟨w₁, verdict⟩, tried, result⟩ := bind_eq_some_iff.mp result
    cases verdict with
    | ok =>
      obtain ⟨fair₁, applied, _⟩ := (attempt_spec fair tried).1 rfl
      obtain ⟨fair', sums⟩ := ih fair₁ result
      refine ⟨fair', fun id num => ?_⟩
      rw [sums, applied.aoe exact fair fair₁]
      simp only [taken, List.map_cons, List.sum_cons]
      split
      · omega
      · omega
    | fail error =>
      obtain ⟨w₂, _, result⟩ := bind_eq_some_iff.mp result
      obtain ⟨_, wrong⟩ := Prod.mk.inj (some.inj result)
      cases wrong
    | block chan =>
      obtain ⟨w₂, _, result⟩ := bind_eq_some_iff.mp result
      split at result
      · obtain ⟨_, wrong⟩ := Prod.mk.inj (some.inj result)
        cases wrong
      · obtain ⟨_, wrong⟩ := Prod.mk.inj (some.inj result)
        cases wrong

theorem semopPass_aoe (exact : info.exact) (fair : Fair info slot k)
    (result : semopPass info slot pid semid base ops k = some (w, outcome)) :
    Fair info slot w.k ∧ ∀ id num, w.k.aoe slot id num =
      k.aoe slot id num - if outcome = .success ∧ id = semid then taken num ops else 0 := by
  have track : Track info slot semid base k [] (Work.mk k [] []).k :=
    .start ⟨fun _ => rfl, rfl, fair.clean, fun owned => owned⟩
  have ends := semopFrom_spec (w := ⟨k, [], []⟩) fair track result
  have still (unmoved : Unmoved slot k w.k) (other : outcome ≠ .success) : Fair info slot w.k ∧ ∀ id num,
      w.k.aoe slot id num = k.aoe slot id num - if outcome = .success ∧ id = semid then taken num ops else 0 := by
    refine ⟨fair.of_unmoved unmoved, fun id num => ?_⟩
    rw [Tables.aoe, unmoved.entries]
    simp [other, Tables.aoe]
  cases outcome with
  | success =>
    obtain ⟨fair', sums⟩ := semopFrom_aoe (w := ⟨k, [], []⟩) exact fair result
    exact ⟨fair', fun id num => by simpa using sums id num⟩
  | error => exact still ends (by simp)
  | sleep => exact still ends (by simp)

end

/-! ## The other processes -/

section
variable {info : Seminfo} {slot other : Slot} {k k' k₁ k₀ : Tables} {live : Slot → Prop} {free active : List Nat}
  {up : Nat}

theorem acquire_other (differs : other ≠ slot) (result : k.acquire slot = some (up, k₁)) :
    k₁.entries other = k.entries other := by
  unfold Tables.acquire at result
  split at result
  · cases result
    rfl
  · split at result
    · cases result
    · next new _ =>
      obtain ⟨_, rfl⟩ := Prod.mk.inj (some.inj result)
      have same := setUndo_link { k with semfup := k.next new } new none
      simp only [Tables.entries, Function.update_of_ne differs]
      cases k.semUndo other with
      | none => rfl
      | some up => exact same.unEnt up

theorem entries_of_same {value : SemUndo → SemUndo} (same : SameEntries (k.setUndo up value) k')
    (apart : k.semUndo other ≠ some up) : k'.entries other = k.entries other := by
  unfold Tables.entries
  rw [same.semUndo, show (k.setUndo up value).semUndo = k.semUndo from rfl]
  cases points : k.semUndo other with
  | none => rfl
  | some up' =>
    have differs : up' ≠ up := by
      rintro rfl
      exact apart points
    simp only [same.unEnt, setUndo_entries, if_neg differs]

theorem Linked.semaoe_other {val id : Int} {num : Nat} {error : Option Errno}
    (linked : Linked info k live free active) (alive : live slot) (alive' : live other) (differs : other ≠ slot)
    (result : Semaphore.semaoe info slot val id num k = some (k', error)) : k'.entries other = k.entries other := by
  cases semaoe_aoe result with
  | zero => rfl
  | range => rfl
  | nospace => rfl
  | record up k₁ k' accepted taken recorded =>
    obtain ⟨free', linked, owned⟩ := linked.acquire alive taken
    rw [entries_of_same (record_same recorded), acquire_other differs taken]
    intro points
    exact differs (linked.owners.single other slot up alive' alive points owned)

/-- The chains are in order and the other processes have their entries of `k₀`. -/
def Apart (info : Seminfo) (k₀ : Tables) (slot : Slot) (live : Slot → Prop) (k : Tables) : Prop :=
  Placed info k live ∧ ∀ other, other ≠ slot → live other → k.entries other = k₀.entries other

theorem Apart.kept {semid : Int} (alive : live slot) : Kept info slot semid (Apart info k₀ slot live) where
  same := by
    intro k k' same ⟨placed, entries⟩
    refine ⟨placed.same same, fun other differs alive' => ?_⟩
    rw [same.entries, entries other differs alive']
  semaoe := by
    intro val num k k' error made ⟨⟨free, active, linked⟩, entries⟩
    refine ⟨linked.semaoe alive made, fun other differs alive' => ?_⟩
    rw [linked.semaoe_other alive alive' differs made, entries other differs alive']

section
variable (linked : Linked info k live free active)
include linked

/-- Every process has its entries purged, also one whose structure is off the chain. -/
theorem Linked.semunrm_entries {id : Int} {low high : Nat} (alive : live slot)
    (result : Semaphore.semunrm info id low high k = some k') :
    k'.entries slot = purge id low high (k.entries slot) := by
  have purged := semunrm_purged linked.activeChain result
  unfold Tables.entries
  rw [purged.semUndo]
  cases owned : k.semUndo slot with
  | none => rfl
  | some up =>
    simp only [purged.entries]
    split
    · rfl
    · next off =>
      have none : (k.semu up).unEnt = [] := by
        by_contra some_
        exact off ((linked.member up).mpr ⟨⟨slot, alive, owned⟩, some_⟩)
      rw [none]
      rfl

theorem Linked.clean : Clean k slot := by
  intro _ up first
  have chain := linked.freeChain
  rw [first] at chain
  obtain ⟨rest, rfl, _⟩ := Chain.cons_iff.mp chain
  exact linked.empty up (by simp)

theorem semexit_other {sema : Nat → SemidDs} {w : Work} (alive : live slot)
    (alive' : live other) (differs : other ≠ slot) (result : semexit info sema slot k = some w) :
    w.k.entries other = k.entries other := by
  unfold semexit at result
  cases owned : k.semUndo slot with
  | none =>
    rw [owned] at result
    cases result
    rfl
  | some up =>
    rw [owned] at result
    obtain ⟨k₁, cleared, result⟩ := bind_eq_some_iff.mp result
    cases result
    have loop := foldl_undo (w := ⟨k, [], []⟩) (fun w entry => (@semexitEntry_undo info w sema entry)) (k.semu up).unEnt.reverse
    have apart : k.semUndo other ≠ some up := fun points =>
      differs (linked.owners.single other slot up alive' alive points owned)
    have cleared' : k₁.entries other = k.entries other := by
      unfold discard at cleared
      split at cleared
      · cases cleared
        exact loop.entries
      · rw [entries_of_same (unchain_same cleared), loop.entries]
        rw [loop.semUndo]
        exact apart
    rw [← cleared']
    simp only [Tables.entries, Function.update_of_ne differs]
    have same := setUndo_link k₁ up k₁.semfup
    rw [show (k₁.setUndo up fun un => { un with unNp := k₁.semfup }).semUndo other = k₁.semUndo other from rfl]
    cases k₁.semUndo other with
    | none => rfl
    | some up' => exact same.unEnt up'

end

end

/-! ## Every run -/

/-- The operations with `SEM_UNDO` that succeeded, since the process started or the
value was set. -/
def undoSum (slot : Slot) (id : Int) (num : Nat) : List (System × Event) → Int
  | [] => 0
  | (_, .start other) :: history => if other = slot then 0 else undoSum slot id num history
  | (_, .semctl _ semid _ cmd result) :: history =>
      if semid = id ∧ cmd.resets num result then 0 else undoSum slot id num history
  | (_, .semop other semid _ ops _ .success) :: history =>
      if other = slot ∧ semid = id then taken num ops + undoSum slot id num history
      else undoSum slot id num history
  | _ :: history => undoSum slot id num history

/-- The entries of every process are in order, name semaphores that exist and hold
what the history says. -/
structure Accounts (info : Seminfo) (history : List (System × Event)) (s : System) : Prop where
  placed : Placed info s.k s.live
  ok : ∀ slot, s.live slot → EntriesOk info (s.k.entries slot)
  names : ∀ slot, s.live slot → ∀ id num, s.k.aoe slot id num ≠ 0 → s.Names info id num
  aoe : ∀ slot, s.live slot → ∀ id num, s.k.aoe slot id num = -undoSum slot id num history

section
variable {info : Seminfo} {s t : System} {event : Event} {history : List (System × Event)} {slot : Slot}

namespace Accounts

theorem quiet (accounts : Accounts info history s) (undo : SameUndo s.k t.k) (live : t.live = s.live)
    (names : ∀ id num, s.Names info id num → t.Names info id num)
    (sums : ∀ slot id num, undoSum slot id num ((s, event) :: history) = undoSum slot id num history) :
    Accounts info ((s, event) :: history) t where
  placed := by
    rw [live]
    exact accounts.placed.same undo
  ok slot alive := by
    rw [undo.entries]
    exact accounts.ok slot (live ▸ alive)
  names slot alive id num held := by
    rw [Tables.aoe, undo.entries] at held
    exact names id num (accounts.names slot (live ▸ alive) id num held)
  aoe slot alive id num := by
    rw [Tables.aoe, undo.entries, sums]
    exact accounts.aoe slot (live ▸ alive) id num

theorem start (accounts : Accounts info history s) (placed : Placed info s.k (s.put slot .running).live)
    (none : s.k.semUndo slot = none) :
    Accounts info ((s, .start slot) :: history) (s.put slot .running) := by
  have empty : s.k.entries slot = [] := by rw [Tables.entries, none]
  have others (other : Slot) (differs : other ≠ slot) (alive : (s.put slot .running).live other) : s.live other := by
    simpa [differs] using alive
  refine ⟨placed, fun other alive => ?_, fun other alive id num held => ?_, fun other alive id num => ?_⟩
  · change EntriesOk info (s.k.entries other)
    by_cases here : other = slot
    · rw [here, empty]
      exact ⟨.nil, (fun _ there => by cases there), (fun _ there => by cases there), Nat.zero_le _⟩
    · exact accounts.ok other (others other here alive)
  · by_cases here : other = slot
    · exact absurd (by rw [here, Tables.aoe]; exact congrArg (lookup id num) empty) held
    · exact accounts.names other (others other here alive) id num held
  · rw [undoSum]
    by_cases here : other = slot
    · rw [if_pos here.symm, here, Tables.aoe]
      exact congrArg (lookup id num) empty
    · rw [if_neg (Ne.symm here)]
      exact accounts.aoe other (others other here alive) id num

theorem exit {w : Work} (accounts : Accounts info history s) (alive : s.live slot)
    (placed : Placed info w.k ((s.store w.k w.woken).put slot .free).live)
    (ended : semexit info s.sema slot s.k = some w) :
    Accounts info ((s, .exit slot) :: history) ((s.store w.k w.woken).put slot .free) := by
  obtain ⟨free, active, linked⟩ := accounts.placed
  have others (other : Slot) (alive' : ((s.store w.k w.woken).put slot .free).live other) :
      s.live other ∧ w.k.entries other = s.k.entries other := by
    have differs : other ≠ slot := by
      rintro rfl
      simp at alive'
    have alive' : s.live other := by
      simp only [System.live, System.put, System.store, Function.update_of_ne differs] at alive'
      exact wake_live.mp alive'
    exact ⟨alive', semexit_other linked alive alive' differs ended⟩
  refine ⟨placed, fun other alive' => ?_, fun other alive' id num held => ?_, fun other alive' id num => ?_⟩
  · obtain ⟨alive', same⟩ := others other alive'
    change EntriesOk info (w.k.entries other)
    rw [same]
    exact accounts.ok other alive'
  · obtain ⟨alive', same⟩ := others other alive'
    change lookup id num (w.k.entries other) ≠ 0 at held
    rw [same] at held
    exact accounts.names other alive' id num held
  · obtain ⟨alive', same⟩ := others other alive'
    change lookup id num (w.k.entries other) = _
    rw [same]
    exact accounts.aoe other alive' id num

theorem pass {w : Work} {outcome : Outcome} {pid semid : Int} {base : Nat} {again : Bool} {ops : List Sembuf}
    (exact : info.exact) (accounts : Accounts info history s)
    (ranged : ∀ i, 0 ≤ (s.k.sem i).semval ∧ (s.k.sem i).semval ≤ info.semvmx) (alive : s.live slot)
    (inside : ∀ op ∈ ops, s.Names info semid op.semNum)
    (made : semopPass info slot pid semid base ops s.k = some (w, outcome)) :
    Accounts info ((s, .semop slot semid again ops w.touched outcome) :: history)
      ((s.store w.k w.woken).put slot (outcome.proc ops.length)) := by
  obtain ⟨free, active, linked⟩ := accounts.placed
  have fair : Fair info slot s.k := ⟨ranged, accounts.ok slot alive, linked.clean⟩
  obtain ⟨fair', sums⟩ := semopPass_aoe exact fair made
  obtain ⟨placed, others⟩ := (Apart.kept alive).semopPass
    ⟨accounts.placed, fun _ _ _ => rfl⟩ made
  have live : ((s.store w.k w.woken).put slot (outcome.proc ops.length)).live = s.live :=
    store_put_live alive (outcome_live _ _)
  have held (id : Int) (num : Nat) : w.k.aoe slot id num ≠ 0 → s.Names info id num := by
    intro some_
    rw [sums] at some_
    by_cases before : s.k.aoe slot id num = 0
    · -- The adjustment comes from one of the operations.
      rw [before] at some_
      split at some_
      · next success =>
        rw [success.2]
        by_contra absent
        have none : taken num ops = 0 := by
          apply taken_zero
          rintro op member rfl
          exact absent (inside op member)
        exact some_ (by rw [none]; rfl)
      · exact absurd rfl some_
    · exact accounts.names slot alive id num before
  refine ⟨?_, fun other alive' => ?_, fun other alive' id num some_ => ?_, fun other alive' id num => ?_⟩
  · rw [live]
    exact placed
  · change EntriesOk info (w.k.entries other)
    by_cases here : other = slot
    · rw [here]
      exact fair'.entries
    · rw [others other here (live ▸ alive')]
      exact accounts.ok other (live ▸ alive')
  · change s.Names info id num
    by_cases here : other = slot
    · rw [here] at some_
      exact held id num some_
    · change lookup id num (w.k.entries other) ≠ 0 at some_
      rw [others other here (live ▸ alive')] at some_
      exact accounts.names other (live ▸ alive') id num some_
  · change lookup id num (w.k.entries other) = _
    have mine := accounts.aoe other (live ▸ alive') id num
    by_cases here : other = slot
    · subst here
      have sum := sums id num
      unfold Tables.aoe at sum mine
      rw [sum, mine]
      cases outcome with
      | success =>
        rw [undoSum]
        by_cases same : id = semid
        · simp only [same, and_self, if_true]
          omega
        · simp [same, Ne.symm same]
      | error => simp [undoSum]
      | sleep => simp [undoSum]
    · rw [others other here (live ▸ alive')]
      unfold Tables.aoe at mine
      rw [mine]
      cases outcome with
      | success => rw [undoSum, if_neg fun same => here same.1.symm]
      | error => rfl
      | sleep => rfl

/-- A command that sets values: the adjustments for the semaphores from `low` to
`high` go, and no process has one for another semaphore that it sets. -/
theorem reset {semid : Int} {nsems low high : Nat} {cmd : Cmd} {k₁ k₂ : Tables} {value : Int}
    (accounts : Accounts info history s) (before : SameUndo s.k k₁) (purged : semunrm info semid low high k₁ = some k₂)
    (after : SameUndo k₂ t.k) (live : t.live = s.live)
    (names : ∀ id num, (id ≠ semid ∨ ¬ (low ≤ num ∧ num ≤ high)) → s.Names info id num → t.Names info id num)
    (resets : ∀ num, low ≤ num → num ≤ high → s.Names info semid num → cmd.resets num (.ok value) = true)
    (covers : ∀ num, cmd.resets num (.ok value) = true → s.Names info semid num → low ≤ num ∧ num ≤ high) :
    Accounts info ((s, .semctl slot semid nsems cmd (.ok value)) :: history) t := by
  obtain ⟨free, active, linked⟩ := accounts.placed.same before
  have entries (other : Slot) (alive : s.live other) :
      t.k.entries other = purge semid low high (s.k.entries other) := by
    rw [after.entries, linked.semunrm_entries alive purged, before.entries]
  have purge_aoe (other : Slot) (alive : s.live other) (id : Int) (num : Nat) : t.k.aoe other id num =
      if id = semid ∧ low ≤ num ∧ num ≤ high then 0 else s.k.aoe other id num := by
    rw [Tables.aoe, entries other alive]
    exact (purge_lookup (accounts.ok other alive)).2
  refine ⟨?_, fun other alive => ?_, fun other alive id num held => ?_, fun other alive id num => ?_⟩
  · rw [live]
    exact ((accounts.placed.same before).semunrm purged).same after
  · rw [entries other (live ▸ alive)]
    exact ((@purge_lookup _ _ _ 0 0) (accounts.ok other (live ▸ alive))).1
  · rw [purge_aoe other (live ▸ alive)] at held
    split at held
    · exact absurd rfl held
    · next outside =>
      refine names id num ?_ (accounts.names other (live ▸ alive) id num held)
      by_cases same : id = semid
      · exact .inr fun range => outside ⟨same, range⟩
      · exact .inl same
  · have mine := accounts.aoe other (live ▸ alive) id num
    rw [purge_aoe other (live ▸ alive), undoSum]
    -- A semaphore that the set does not have has no adjustment before or after.
    by_cases named : s.Names info id num
    · by_cases here : id = semid ∧ low ≤ num ∧ num ≤ high
      · obtain ⟨rfl, low', high'⟩ := here
        rw [if_pos ⟨rfl, low', high'⟩, if_pos ⟨rfl, resets num low' high' named⟩]
        rfl
      · rw [if_neg here, mine, if_neg]
        rintro ⟨rfl, reset⟩
        exact here ⟨rfl, covers num reset named⟩
    · have none : s.k.aoe other id num = 0 := by
        by_contra some_
        exact named (accounts.names other (live ▸ alive) id num some_)
      have zero : undoSum other id num history = 0 := by omega
      rw [none, zero]
      simp

end Accounts

/-- No slot with a stale pointer is given away, and what is fetched again names
semaphores of the set. -/
def Orderly (info : Seminfo) (s : System) (event : Event) : Prop := Fresh s event ∧ Refetched info s event

theorem Step.accounts (exact : info.exact) (step : Step info s event t) (orderly : Orderly info s event)
    (ranged : ∀ i, 0 ≤ (s.k.sem i).semval ∧ (s.k.sem i).semval ≤ info.semvmx)
    (accounts : Accounts info history s) : Accounts info ((s, event) :: history) t := by
  have placed := step.placed orderly.1 accounts.placed
  have header {semid : Int} {sp : Nat} (found : semconv info s.sema semid = .ok sp) :
      s.header info semid = s.sema sp := by
    rw [System.header, (semconv_iff.mp found).1]
  have inside {semid : Int} {num : Nat} (named : s.Names info semid num) :
      num ≤ (s.header info semid).semNsems := by
    obtain ⟨sp, found, inside⟩ := named
    rw [header found]
    omega
  cases step with
  | @start slot _ free => exact accounts.start placed (orderly.1 slot rfl)
  | @exit slot w running ended =>
    exact accounts.exit (by simp [running]) placed ended
  | semget cr key flag running done =>
    obtain ⟨tables, procs⟩ := semget_frame done
    refine accounts.quiet ?_ ?_ (fun id num => semget_names done) fun _ _ _ => rfl
    · rw [tables]
      exact .refl _
    · funext slot
      rw [System.live, procs, System.live]
  | semctl cr pid running done =>
    cases semctl_control done with
    | quiet tables procs resets names =>
      refine accounts.quiet ?_ ?_ names fun slot id num => ?_
      · rw [tables]
        exact .refl _
      · funext slot
        rw [System.live, procs, System.live]
      · rw [undoSum, resets]
        simp
    | rmid k woken names _ purged tables _ procs =>
      refine accounts.reset (.refl _) purged ?_ (wake_all_live procs) ?_ (fun _ _ _ _ => rfl) ?_
      · rw [tables]
        exact clear_undo (w := ⟨k, [], []⟩)
      · intro id num away named
        refine names id num ?_ named
        rintro rfl
        rcases away with away | away
        · exact away rfl
        · exact away ⟨Nat.zero_le _, inside named⟩
      · exact fun num _ named => ⟨Nat.zero_le _, inside named⟩
    | setval semnum arg k woken _ _ named sema tables _ purged procs =>
      refine accounts.reset ?_ purged (.refl _) (wake_all_live procs) ?_ ?_ ?_
      · rw [tables]
        exact setval_undo (w := ⟨s.k, [], []⟩)
      · rintro id num _ ⟨sp, found, inside⟩
        exact ⟨sp, by rw [sema]; exact found, by rw [sema]; exact inside⟩
      · intro num low high _
        simp only [Cmd.resets, decide_eq_true_eq]
        omega
      · intro num resets _
        simp only [Cmd.resets, decide_eq_true_eq] at resets
        omega
    | setall semvals k woken sema _ purged tables _ procs =>
      refine accounts.reset (.refl _) purged ?_ (wake_all_live procs) ?_ (fun _ _ _ _ => rfl) ?_
      · rw [tables]
        exact setall_undo (w := ⟨k, [], []⟩)
      · rintro id num _ ⟨sp, found, inside⟩
        exact ⟨sp, by rw [sema]; exact found, by rw [sema]; exact inside⟩
      · exact fun num _ named => ⟨Nat.zero_le _, inside named⟩
  | refuse => exact accounts.quiet (.refl _) rfl (fun _ _ named => named) fun _ _ _ => rfl
  | @semop slot semid ops w outcome sp cr pid running entered made =>
    obtain ⟨found, checked⟩ := semopEntry_names entered
    exact accounts.pass exact ranged (by simp [running])
      (fun op member => ⟨sp, found, checked op member⟩) made
  | @signal slot wait nsops asleep =>
    have alive : s.live slot := by
      rcases asleep with asleep | woken
      · simp [asleep]
      · simp [woken]
    exact accounts.quiet (.refl _) (put_live alive (by simp)) (fun _ _ named => named) fun _ _ _ => rfl
  | @gone slot wait nsops _ _ woken =>
    have alive : s.live slot := by simp [woken]
    exact accounts.quiet (.refl _) (put_live alive (by simp)) (fun _ _ named => named) fun _ _ _ => rfl
  | @again slot wait ops w outcome pid woken entered made =>
    obtain ⟨sp, found, place⟩ := semopAgain_ok entered
    have checked := orderly.2 slot wait.semid ops w.touched outcome rfl
    rw [place] at checked
    exact accounts.pass exact ranged (by simp [woken])
      (fun op member => ⟨sp, found, checked op member⟩) made
  | @eintr slot wait nsops interrupted =>
    have alive : s.live slot := by simp [interrupted]
    exact accounts.quiet (uncount_undo (w := ⟨s.k, [], []⟩)) (store_put_live alive (by simp))
      (fun _ _ named => named) fun _ _ _ => rfl

theorem System.Boot.accounts (boot : s.Boot info) : Accounts info [] s := by
  have dead (slot : Slot) : ¬ s.live slot := by simp [boot.2.2.2]
  exact ⟨boot.placed, fun slot alive => absurd alive (dead slot), fun slot alive => absurd alive (dead slot),
    fun slot alive => absurd alive (dead slot)⟩

theorem Runs.accounts (exact : info.exact) (runs : Runs (System.Boot info) (Step info) (Orderly info) history s) :
    Accounts info history s := by
  induction runs with
  | start boot => exact boot.accounts
  | next runs step orderly ih => exact step.accounts exact orderly (Reaches.awaited runs.reaches).ranged ih

/-- The undo list of a process: strictly sorted, without zeros, and with what the
history says for each semaphore. -/
structure Exact (history : List (System × Event)) (s : System) (slot : Slot) : Prop where
  sorted : (s.k.entries slot).Pairwise fun a b => a.before b.unId b.unNum
  nonzero : ∀ entry ∈ s.k.entries slot, entry.unAoe ≠ 0
  aoe : ∀ id num, s.k.aoe slot id num = -undoSum slot id num history

/-- Adjustments are exact when no sum can wrap back inside the limit. -/
theorem undo_exact (exact : info.exact) (runs : Runs (System.Boot info) (Step info) (Orderly info) history s)
    (alive : s.live slot) : Exact history s slot := by
  have accounts := Runs.accounts exact runs
  exact ⟨(accounts.ok slot alive).sorted, (accounts.ok slot alive).nonzero, accounts.aoe slot alive⟩

end

theorem undo_exact_used : ∃ s, s.live 0 ∧ s.k.aoe 0 0 0 = -1 ∧
    Exact ((oneSet, .semop 0 0 false oneUp [0, 0] .success) :: prologue) s 0 := by
  have runs := (@oneSet_runs 16384 (by decide) (Orderly .shipped)) (by
    simp [prologue, Orderly, Fresh, Refetched, started, booted, seminit])
  obtain ⟨s, step, _, running, _, owned, entries⟩ := oneUp_step
  have alive : s.live 0 := by simp [running]
  refine ⟨s, alive, ?_, undo_exact (by unfold Seminfo.exact; decide) (.next runs step (by simp [Orderly, Fresh, Refetched])) alive⟩
  rw [Tables.aoe, Tables.entries, owned]
  simp only [entries]
  rfl

def allUp : List Sembuf := [⟨0, 32767, false, false, zeroth_fits, most_fits⟩]

/-- Everything from the semaphore, to be undone. -/
def allDown : List Sembuf := [⟨0, -32767, true, false, zeroth_fits, minusMost_fits⟩]

/-- The largest limit that a short can hold. -/
def Seminfo.widest : Seminfo := .limited 32767 (by decide)

/-- With the limit at 32767 two operations make an adjustment of 65534, which is
stored as -2 and passes the test against the limit. -/
theorem undo_exact_wrapped : ∃ (info : Seminfo) (history : List (System × Event)) (s : System),
    Runs (System.Boot info) (Step info) (Orderly info) history s ∧ s.live 0 ∧ s.k.aoe 0 0 0 = -2 ∧
      undoSum 0 0 0 history = -65534 ∧ ¬ Exact history s 0 := by
  have runs := (@oneSet_runs 32767 (by decide) (Orderly .widest)) (by
    simp [prologue, Orderly, Fresh, Refetched, started, booted, seminit])
  have passes : (semopPass .widest 1 6 0 0 allUp oneSet.k).bind (fun r₁ =>
      (semopPass .widest 0 5 0 0 allDown r₁.1.k).bind fun r₂ => (semopPass .widest 1 6 0 0 allUp r₂.1.k).bind fun r₃ =>
        (semopPass .widest 0 5 0 0 allDown r₃.1.k).map fun r₄ =>
          ([r₁.2, r₂.2, r₃.2, r₄.2], r₄.1.k.aoe 0 0 0)) =
      some ([.success, .success, .success, .success], -2) := rfl
  obtain ⟨⟨w₁, outcome₁⟩, pass₁, passes⟩ := bind_eq_some_iff.mp passes
  obtain ⟨⟨w₂, outcome₂⟩, pass₂, passes⟩ := bind_eq_some_iff.mp passes
  obtain ⟨⟨w₃, outcome₃⟩, pass₃, passes⟩ := bind_eq_some_iff.mp passes
  obtain ⟨⟨w₄, outcome₄⟩, pass₄, same⟩ := Option.map_eq_some_iff.mp passes
  simp only [Prod.mk.injEq, List.cons.injEq, and_true] at same
  obtain ⟨⟨rfl, rfl, rfl, rfl⟩, aoe⟩ := same
  let s₁ := (oneSet.store w₁.k w₁.woken).put 1 .running
  let s₂ := (s₁.store w₂.k w₂.woken).put 0 .running
  let s₃ := (s₂.store w₃.k w₃.woken).put 1 .running
  let s₄ := (s₃.store w₄.k w₄.woken).put 0 .running
  have step₁ := oneSet_semop (s := oneSet) 6 rfl rfl rfl pass₁
  have step₂ := oneSet_semop (s := s₁) 5 rfl rfl rfl pass₂
  have step₃ := oneSet_semop (s := s₂) 6 rfl rfl rfl pass₃
  have step₄ := oneSet_semop (s := s₃) 5 rfl rfl rfl pass₄
  have first (s : System) (slot : Slot) (ops : List Sembuf) (touched : List Nat) (outcome : Outcome) :
      Orderly .widest s (.semop slot 0 false ops touched outcome) := by
    simp [Orderly, Fresh, Refetched]
  let history : List (System × Event) := (s₃, .semop 0 0 false allDown w₄.touched .success) ::
    (s₂, .semop 1 0 false allUp w₃.touched .success) :: (s₁, .semop 0 0 false allDown w₂.touched .success) ::
    (oneSet, .semop 1 0 false allUp w₁.touched .success) :: prologue
  have run : Runs (System.Boot .widest) (Step .widest) (Orderly .widest) history s₄ :=
    .next (.next (.next (.next runs step₁ (first ..)) step₂ (first ..)) step₃ (first ..)) step₄ (first ..)
  have sum : undoSum 0 0 0 history = -65534 := rfl
  refine ⟨.widest, history, s₄, run, ?_, aoe, sum, fun exact => ?_⟩
  · simp [s₄]
  · have wrong := exact.aoe 0 0
    rw [sum] at wrong
    exact absurd (aoe.symm.trans wrong) (by decide)

end Svr4.Semaphore
