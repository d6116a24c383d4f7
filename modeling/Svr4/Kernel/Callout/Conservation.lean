import Mathlib.Algebra.Order.Group.Multiset
import Svr4.Foundation.Heap
import Svr4.Kernel.Callout

/-! The callout table is a heap and loses nothing. -/

namespace Svr4.Callout

open Words Heap Function
open List (map_cons sum_cons)

/-! ## Percolating -/

section
variable {t calllimit : Int} {f : Nat → Callo} {n j : Nat}

/-- Where percolating ends: the entry fits there, and nothing is lost. -/
structure Settled (t : Int) (n : Nat) (rest : Multiset Callo) (f : Nat → Callo) (hole : Nat) : Prop where
  inside : hole < n
  fits : Fits Callo.cTime f n hole t
  same : others f n hole = rest

theorem heapUp_settled (gap : Gap Callo.cTime f n j) (inside : j < n)
    (below : ∀ i, 0 < i → i < n → parent i = j → t ≤ (f i).cTime) :
    Settled t n (others f n j) (heapUp t f j).1 (heapUp t f j).2 ∧ ∀ i, j < i → (heapUp t f j).1 i = f i := by
  fun_induction heapUp t f j with
  | case1 f j positive k smaller ih =>
    have higher : k < j := parent_lt positive
    have moved := ih (gap.up positive inside) (by omega) fun i above last child => gap.below_up positive smaller above last child
    refine ⟨?_, fun i behind => ?_⟩
    · rw [← others_move inside (higher.trans inside) higher.ne]
      exact moved.1
    · rw [moved.2 i (by omega), update_of_ne (by omega)]
  | case2 f j positive k larger =>
    exact ⟨⟨inside, ⟨gap, fun _ => not_lt.mp larger, below⟩, rfl⟩, fun _ _ => rfl⟩
  | case3 f j zero =>
    exact ⟨⟨inside, ⟨gap, fun positive => absurd positive zero, below⟩, rfl⟩, fun _ _ => rfl⟩

theorem child_least (inner : ¬ calllimit < 1 + 2 * (j : Int)) (size : (n : Int) = calllimit + 1) {k : Nat}
    (chosen : k = if 1 + 2 * (j : Int) < calllimit ∧ (f (1 + 2 * j + 1)).cTime < (f (1 + 2 * j)).cTime then
      1 + 2 * j + 1 else 1 + 2 * j) :
    0 < k ∧ k < n ∧ parent k = j ∧ ∀ i, 0 < i → i < n → parent i = j → (f k).cTime ≤ (f i).cTime := by
  have children {i : Nat} (positive : 0 < i) (child : parent i = j) : i = 1 + 2 * j ∨ i = 1 + 2 * j + 1 := by
    unfold parent at child
    omega
  split at chosen
  · next right =>
    subst chosen
    refine ⟨by omega, by omega, by unfold parent; omega, fun i positive last child => ?_⟩
    rcases children positive child with rfl | rfl
    · exact right.2.le
    · exact le_refl _
  · next left =>
    subst chosen
    refine ⟨by omega, by omega, by unfold parent; omega, fun i positive last child => ?_⟩
    rcases children positive child with rfl | rfl
    · exact le_refl _
    · by_contra later
      exact left ⟨by omega, not_le.mp later⟩

theorem heapDown_settled (gap : Gap Callo.cTime f n j) (inside : j < n) (size : (n : Int) = calllimit + 1)
    (above : 0 < j → (f (parent j)).cTime ≤ t) :
    Settled t n (others f n j) (heapDown calllimit t f j).1 (heapDown calllimit t f j).2 ∧
      ∀ i, n ≤ i → (heapDown calllimit t f j).1 i = f i := by
  fun_induction heapDown calllimit t f j with
  | case1 f j leaf =>
    refine ⟨⟨inside, ⟨gap, above, fun i positive last child => ?_⟩, rfl⟩, fun _ _ => rfl⟩
    unfold parent at child
    omega
  | case2 f j inner k larger =>
    obtain ⟨_, _, _, least⟩ := child_least inner size (f := f) (k := k) rfl
    refine ⟨⟨inside, ⟨gap, above, fun i positive last child => ?_⟩, rfl⟩, fun _ _ => rfl⟩
    exact larger.trans (least i positive last child)
  | case3 f j inner k smaller ih =>
    obtain ⟨positive, last, child, least⟩ := child_least inner size (f := f) (k := k) rfl
    have lower := parent_lt positive
    have moved := ih (gap.down positive last child least) last (fun _ => by
      rw [child, update_self]
      exact (not_le.mp smaller).le)
    refine ⟨?_, fun i behind => ?_⟩
    · rw [← others_move inside last (by omega)]
      exact moved.1
    · rw [moved.2 i behind, update_of_ne (by omega)]

end

/-! ## The calls -/

/-- The number of entries in use. -/
def Callouts.size (s : Callouts) : Nat := (s.calllimit + 1).toNat

/-- The entries in use. -/
def Callouts.entries (s : Callouts) : Multiset Callo := contents s.callout s.size

/-- The table is a heap. -/
structure Heaped (s : Callouts) : Prop where
  limit : -1 ≤ s.calllimit
  ordered : Ordered Callo.cTime s.callout s.size

section
variable {vCall fn arg : Nat} {tim id : Int} {s t : Callouts} {svcall : Callo}

/-- `timeout` adds one entry. -/
theorem timeout_entries (heaped : Heaped s) (result : timeout vCall fn arg tim s = some (t, id)) :
    Heaped t ∧ t.entries = ⟨toInt (s.lbolt + tim), id, arg, fn⟩ ::ₘ s.entries ∧ id = toInt (s.timeid + 1) ∧
      t.timeid = id := by
  have limit := heaped.limit
  simp only [timeout] at result
  split at result
  · cases result
  · cases result
    have size : (s.calllimit + 1 + 1).toNat = s.size + 1 := by
      unfold Callouts.size
      omega
    obtain ⟨⟨inside, fits, same⟩, _⟩ := heapUp_settled (t := toInt (s.lbolt + tim)) heaped.ordered.gap_last (Nat.lt_succ_self _)
      fun i positive last child => by
        have lower := parent_lt positive
        omega
    refine ⟨⟨by simp only; omega, ?_⟩, ?_, rfl, rfl⟩
    · change Ordered Callo.cTime _ (s.calllimit + 1 + 1).toNat
      rw [size]
      exact fits.fill (x := (⟨toInt (s.lbolt + tim), toInt (s.timeid + 1), arg, fn⟩ : Callo))
    · change contents _ (s.calllimit + 1 + 1).toNat = _
      rw [size]
      exact (contents_fill inside).trans (congrArg _ (same.trans others_last))

theorem removed_entries {f hole : Nat} {callout : Nat → Callo} (before : f < s.size - 1)
    (settled : Settled (s.callout s.calllimit.toNat).cTime (s.size - 1) (others s.callout (s.size - 1) f) callout hole)
    (last : callout s.calllimit.toNat = s.callout s.calllimit.toNat) :
    Heaped { s with
      calllimit := s.calllimit - 1
      callout := update callout hole (callout s.calllimit.toNat) } ∧
    s.entries = s.callout f ::ₘ Callouts.entries { s with
      calllimit := s.calllimit - 1
      callout := update callout hole (callout s.calllimit.toNat) } := by
  have size : (s.calllimit - 1 + 1).toNat = s.size - 1 := by
    unfold Callouts.size
    omega
  have index : s.calllimit.toNat = s.size - 1 := by
    omega
  have whole : s.size = s.size - 1 + 1 := by omega
  refine ⟨⟨by simp only; omega, ?_⟩, ?_⟩
  · change Ordered Callo.cTime _ (s.calllimit - 1 + 1).toNat
    rw [size, last]
    exact settled.fits.fill
  · change contents s.callout s.size = s.callout f ::ₘ contents _ (s.calllimit - 1 + 1).toNat
    rw [size, last, contents_fill settled.inside, settled.same, index]
    calc contents s.callout s.size = contents s.callout (s.size - 1 + 1) := by rw [← whole]
      _ = s.callout (s.size - 1) ::ₘ s.callout f ::ₘ others s.callout (s.size - 1) f := by
        rw [contents_succ, contents_eq before]
      _ = s.callout f ::ₘ s.callout (s.size - 1) ::ₘ others s.callout (s.size - 1) f := Multiset.cons_swap ..

theorem untimeout_entries (heaped : Heaped s) (id : Int) :
    ((∀ entry ∈ s.entries, entry.cId ≠ id) ∧ untimeout id s = (s, -1)) ∨
    ∃ f : Nat, f < s.size ∧ (s.callout f).cId = id ∧ (untimeout id s).2 = f ∧ Heaped (untimeout id s).1 ∧
      s.entries = s.callout f ::ₘ (untimeout id s).1.entries := by
  cases found : (List.range (s.calllimit + 1).toNat).find? fun i => (s.callout i).cId = id with
  | none =>
    refine .inl ⟨fun entry member => ?_, by simp [untimeout, found]⟩
    obtain ⟨i, inside, rfl⟩ := mem_contents.mp member
    have other := List.find?_eq_none.mp found i (List.mem_range.mpr inside)
    simpa using other
  | some f =>
    have inside : f < s.size := List.mem_range.mp (List.mem_of_find?_eq_some found)
    have named : (s.callout f).cId = id := by simpa using List.find?_some found
    refine .inr ⟨f, inside, named, ?_⟩
    have index : s.calllimit.toNat = s.size - 1 := by
      unfold Callouts.size
      omega
    simp only [untimeout, found]
    split
    · next end' =>
      have size : (s.calllimit - 1 + 1).toNat = f := by omega
      have whole : s.size = f + 1 := by
        unfold Callouts.size
        omega
      refine ⟨rfl, ⟨by simp only; omega, fun i positive last => ?_⟩, ?_⟩
      · simp only [Callouts.size, size] at last
        exact heaped.ordered i positive (by omega)
      · change contents s.callout s.size = s.callout f ::ₘ contents s.callout (s.calllimit - 1 + 1).toNat
        rw [whole, size, contents_succ]
    · next inner =>
      have before : f < s.size - 1 := by
        unfold Callouts.size at inside ⊢
        omega
      have gap := heaped.ordered.gap (Nat.sub_le _ 1) before
      rw [if_pos (by omega)]
      refine ⟨rfl, ?_⟩
      split
      · next up =>
        have settled := heapUp_settled gap before fun i positive last child =>
          up.2.le.trans (gap.across i positive last child up.1)
        exact removed_entries before settled.1 (settled.2 _ (by omega))
      · next down =>
        have settled := (@heapDown_settled ((s.callout s.calllimit.toNat).cTime) (s.calllimit - 1)) gap
          before (by unfold Callouts.size; omega) fun positive => by
            by_contra earlier
            exact down ⟨positive, not_le.mp earlier⟩
        exact removed_entries before settled.1 (settled.2 _ (by omega))

theorem timein_entries (heaped : Heaped s) (result : timein s = some (svcall, t)) :
    Heaped t ∧ s.entries = svcall ::ₘ t.entries ∧ svcall.cTime ≤ s.lbolt ∧
      ∀ entry ∈ s.entries, svcall.cTime ≤ entry.cTime := by
  unfold timein at result
  split at result
  · next due =>
    have least (entry : Callo) (member : entry ∈ s.entries) : (s.callout 0).cTime ≤ entry.cTime := by
      obtain ⟨i, inside, rfl⟩ := mem_contents.mp member
      exact heaped.ordered.root_le inside
    simp only at result
    split at result
    · next some =>
      have before : 0 < s.size - 1 := by
        unfold Callouts.size
        omega
      cases result
      have settled := (@heapDown_settled ((s.callout s.calllimit.toNat).cTime) (s.calllimit - 1))
        (heaped.ordered.gap (Nat.sub_le _ 1) before) before (by unfold Callouts.size; omega)
        fun positive => absurd positive (Nat.lt_irrefl 0)
      have removed := removed_entries before settled.1 (settled.2 _ (by unfold Callouts.size; omega))
      exact ⟨removed.1, removed.2, due.1, least⟩
    · next only =>
      cases result
      have whole : s.size = 0 + 1 := by
        unfold Callouts.size
        omega
      have empty : (s.calllimit - 1 + 1).toNat = 0 := by omega
      refine ⟨⟨by simp only; omega, fun i positive last => ?_⟩, ?_, due.1, least⟩
      · simp only [Callouts.size, empty] at last
        omega
      · change contents s.callout s.size = s.callout 0 ::ₘ contents s.callout (s.calllimit - 1 + 1).toNat
        rw [whole, empty, contents_succ]
  · cases result

end

/-! ## Runs -/

/-- The entry that a step schedules, at the absolute time it asks for. -/
def scheduled : Callouts × Event → Multiset Callo
  | (s, .timeout fn arg tim) => {⟨s.lbolt + tim, toInt (s.timeid + 1), arg, fn⟩}
  | _ => 0

/-- The entry whose function a step calls. -/
def fired : Callouts × Event → Multiset Callo
  | (s, .timein) =>
      match timein s with
      | some (svcall, _) => {svcall}
      | none => 0
  | _ => 0

/-- The entry that a step cancels: `untimeout` returns its index. -/
def cancelled : Callouts × Event → Multiset Callo
  | (s, .untimeout id) => if (untimeout id s).2 = -1 then 0 else {s.callout (untimeout id s).2.toNat}
  | _ => 0

/-- The entries of a run: what was scheduled is in the table, has been called or cancelled. -/
structure Balanced (history : List (Callouts × Event)) (s : Callouts) : Prop where
  heaped : Heaped s
  balance : (history.map scheduled).sum = s.entries + (history.map fired).sum + (history.map cancelled).sum

/-- The identifiers of the table are those of different calls, of which there were `made`. -/
def Numbered (made : Nat) (s : Callouts) : Prop :=
  s.timeid = toInt made ∧ ∃ calls : Multiset Nat, calls.Nodup ∧ (∀ call ∈ calls, 0 < call ∧ call ≤ made) ∧
    s.entries.map Callo.cId = calls.map fun call : Nat => toInt call

/-- The number of `timeout` calls. -/
def made (history : List (Callouts × Event)) : Nat :=
  history.countP fun
    | (_, .timeout _ _ _) => true
    | _ => false

section
variable {vCall : Nat} {history : List (Callouts × Event)} {s t : Callouts} {event : Event} {entry : Callo}

theorem step_balanced (balanced : Balanced history s) (step : Step vCall s event t) (inTime : InTime s event) :
    Balanced ((s, event) :: history) t := by
  have balance := balanced.balance
  cases step with
  | timeout result =>
    obtain ⟨heaped, entries, rfl, _⟩ := timeout_entries balanced.heaped result
    refine ⟨heaped, ?_⟩
    have time : toInt (s.lbolt + _) = s.lbolt + _ := inTime
    rw [time] at entries
    simp only [map_cons, sum_cons, scheduled, fired, cancelled, zero_add, balance, entries]
    rw [← Multiset.singleton_add]
    simp only [add_assoc]
  | untimeout id =>
    rcases untimeout_entries balanced.heaped id with ⟨_, none⟩ | ⟨f, _, _, index, heaped, entries⟩
    · rw [none]
      refine ⟨balanced.heaped, ?_⟩
      simp only [map_cons, sum_cons, scheduled, fired, cancelled, none, if_true, zero_add, balance]
    · refine ⟨heaped, ?_⟩
      have found : (f : Int) ≠ -1 := by omega
      simp only [map_cons, sum_cons, scheduled, fired, cancelled, index, if_neg found, Int.toNat_natCast,
        zero_add, balance]
      rw [entries, ← Multiset.singleton_add]
      simp only [add_assoc, add_left_comm]
  | timein result =>
    obtain ⟨heaped, entries, _, _⟩ := timein_entries balanced.heaped result
    refine ⟨heaped, ?_⟩
    simp only [map_cons, sum_cons, scheduled, fired, cancelled, result, zero_add, balance]
    rw [entries, ← Multiset.singleton_add]
    simp only [add_assoc, add_left_comm]
  | clock =>
    refine ⟨⟨balanced.heaped.limit, balanced.heaped.ordered⟩, ?_⟩
    simp only [map_cons, sum_cons, scheduled, fired, cancelled, zero_add, balance]
    rfl

theorem Numbered.remove {count : Nat} (numbered : Numbered count s) (same : t.timeid = s.timeid)
    (entries : s.entries = entry ::ₘ t.entries) : Numbered count t := by
  obtain ⟨timeid, calls, nodup, range, ids⟩ := numbered
  rw [entries, Multiset.map_cons] at ids
  obtain ⟨call, _, _, rest⟩ := (Multiset.map_eq_cons _ _ _ _).mpr ids.symm
  exact ⟨same.trans timeid, calls.erase call, nodup.erase call,
    fun other member => range other (Multiset.mem_of_mem_erase member), rest.symm⟩

theorem untimeout_timeid (id : Int) : (untimeout id s).1.timeid = s.timeid := by
  unfold untimeout
  split
  · rfl
  · simp only
    split
    · rfl
    · split
      · rfl
      · rfl

theorem timein_timeid {svcall : Callo} (result : timein s = some (svcall, t)) : t.timeid = s.timeid := by
  unfold timein at result
  split at result
  · simp only at result
    split at result
    · cases result
      rfl
    · cases result
      rfl
  · cases result

theorem step_numbered (heaped : Heaped s) (numbered : Numbered (made history) s) (step : Step vCall s event t) :
    Numbered (made ((s, event) :: history)) t := by
  cases step with
  | timeout result =>
    obtain ⟨_, entries, rfl, new⟩ := timeout_entries heaped result
    obtain ⟨timeid, calls, nodup, range, ids⟩ := numbered
    have next : toInt (s.timeid + 1) = toInt (made history + 1 : Nat) := by
      rw [timeid]
      simp [toInt]
    have count : ∀ fn arg tim, made ((s, .timeout fn arg tim) :: history) = made history + 1 := fun _ _ _ => by
      simp [made]
    rw [count]
    refine ⟨new.trans next, (made history + 1) ::ₘ calls, ?_, ?_, ?_⟩
    · refine Multiset.nodup_cons.mpr ⟨fun member => ?_, nodup⟩
      have bound := (range _ member).2
      omega
    · intro call member
      rcases Multiset.mem_cons.mp member with rfl | member
      · omega
      · have bound := range call member
        omega
    · rw [entries, Multiset.map_cons, Multiset.map_cons, ids, next]
  | untimeout id =>
    rcases untimeout_entries heaped id with ⟨_, none⟩ | ⟨f, _, _, _, _, entries⟩
    · rw [none]
      exact numbered
    · exact numbered.remove (untimeout_timeid id) entries
  | timein result => exact numbered.remove (timein_timeid result) (timein_entries heaped result).2.1
  | clock =>
    have count : made ((s, .clock) :: history) = made history := by simp [made]
    rw [count]
    exact numbered

theorem runs_balanced (runs : Runs Start (Step vCall) InTime history s) :
    Balanced history s ∧ Numbered (made history) s := by
  induction runs with
  | @start s start =>
    obtain ⟨limit, timeid⟩ := start
    have empty : s.size = 0 := by
      unfold Callouts.size
      omega
    have none : s.entries = 0 := by
      rw [Callouts.entries, empty]
      rfl
    refine ⟨⟨⟨by omega, fun i _ last => by omega⟩, by simp [none]⟩, timeid, 0, Multiset.nodup_zero, by simp, by simp [none]⟩
  | next _ step inTime ih => exact ⟨step_balanced ih.1 step inTime, step_numbered ih.1.heaped ih.2 step⟩

theorem Numbered.nodup {count : Nat} (numbered : Numbered count s) (few : count ≤ 4294967296) :
    (s.entries.map Callo.cId).Nodup := by
  obtain ⟨_, calls, nodup, range, ids⟩ := numbered
  rw [ids]
  refine Multiset.Nodup.map_on (fun call member other there same => ?_) nodup
  have first := range call member
  have second := range other there
  have equal := toInt_inj same (by omega) (by omega)
  omega

/-- The callout table is a heap whose entries are those scheduled and neither called nor
cancelled; `timein` calls the earliest entry and only when it is due; `untimeout`
removes the entry with the identifier, if any. Identifiers are unique until the
counter wraps. -/
theorem callouts_kept (runs : Runs Start (Step vCall) InTime history s) :
    (∀ i : Nat, 0 < i → (i : Int) ≤ s.calllimit → (s.callout ((i - 1) / 2)).cTime ≤ (s.callout i).cTime) ∧
    (history.map scheduled).sum = s.entries + (history.map fired).sum + (history.map cancelled).sum ∧
    (∀ svcall t, timein s = some (svcall, t) → svcall.cTime ≤ s.lbolt ∧
      (∀ entry ∈ s.entries, svcall.cTime ≤ entry.cTime) ∧ s.entries = svcall ::ₘ t.entries) ∧
    (∀ id, ((∀ entry ∈ s.entries, entry.cId ≠ id) ∧ untimeout id s = (s, -1)) ∨
      ∃ entry, entry.cId = id ∧ s.entries = entry ::ₘ (untimeout id s).1.entries ∧ (untimeout id s).2 ≠ -1) ∧
    (made history ≤ 4294967296 → (s.entries.map Callo.cId).Nodup) := by
  obtain ⟨balanced, numbered⟩ := runs_balanced runs
  have heaped := balanced.heaped
  refine ⟨fun i positive last => ?_, balanced.balance, fun svcall t result => ?_, fun id => ?_, numbered.nodup⟩
  · exact heaped.ordered i positive (by unfold Callouts.size; omega)
  · obtain ⟨_, entries, due, least⟩ := timein_entries heaped result
    exact ⟨due, least, entries⟩
  · rcases untimeout_entries heaped id with none | ⟨f, _, named, index, _, entries⟩
    · exact .inl none
    · exact .inr ⟨s.callout f, named, entries, by omega⟩

/-- The table when nothing has been scheduled. -/
def Callouts.empty : Callouts := ⟨fun _ => ⟨0, 0, 0, 0⟩, -1, 0, 0⟩

/-- Two calls are scheduled, the second one for an earlier time. -/
theorem callouts_kept_two : ∃ history s, Runs Start (Step 10) InTime history s ∧ (s.callout 0).cFunc = 2 ∧
    s.entries = {⟨1, 2, 0, 2⟩, ⟨5, 1, 0, 1⟩} := by
  have start : Runs Start (Step 10) InTime [] Callouts.empty := .start ⟨rfl, rfl⟩
  have first : timeout 10 1 0 5 Callouts.empty =
      some (⟨update Callouts.empty.callout 0 ⟨5, 1, 0, 1⟩, 0, 1, 0⟩, 1) := by
    simp only [timeout, Callouts.empty]
    rw [heapUp]
    rfl
  have one := start.next (.timeout first) rfl
  have up : heapUp (toInt (0 + 1)) (update Callouts.empty.callout 0 ⟨5, 1, 0, 1⟩) (0 + 1 : Int).toNat =
      (update (update Callouts.empty.callout 0 ⟨5, 1, 0, 1⟩) 1 ⟨5, 1, 0, 1⟩, 0) := by
    rw [heapUp, if_pos (by decide)]
    rw [if_pos (by decide), heapUp, if_neg (by decide)]
    rfl
  have second : timeout 10 2 0 1 ⟨update Callouts.empty.callout 0 ⟨5, 1, 0, 1⟩, 0, 1, 0⟩ =
      some (⟨update (update (update Callouts.empty.callout 0 ⟨5, 1, 0, 1⟩) 1 ⟨5, 1, 0, 1⟩) 0
        ⟨1, 2, 0, 2⟩, 1, 2, 0⟩, 2) := by
    simp only [timeout, up]
    rfl
  have two := one.next (.timeout second) rfl
  obtain ⟨_, balance, _⟩ := callouts_kept two
  refine ⟨_, _, two, rfl, ?_⟩
  simpa [scheduled, fired, cancelled, toInt, Callouts.empty] using balance.symm

end

end Svr4.Callout
