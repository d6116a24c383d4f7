import Svr4.Kernel.Semaphore.Entries
import Svr4.Kernel.Semaphore.Operation

/-! A pass of `semop` applies its operations or none of them.

Operations are applied one by one. Each one that was applied can be taken back
exactly, so the rollback, which goes through them in reverse, ends where the
pass began.
-/

namespace Svr4.Semaphore

open Words
open Option (some bind_eq_some_iff)

attribute [local simp] Tables.setUndo

/-! ## What `semaoe` can do -/

section
variable {info : Seminfo} {slot : Slot} {val id : Int} {num up : Nat} {k k' k₁ : Tables} {error : Option Errno}

/-- `val` is an adjustment that `semaoe` tries to record. -/
def Accepted (info : Seminfo) (val : Int) : Prop :=
  val ≠ 0 ∧ -info.semaem ≤ val ∧ val ≤ info.semaem

/-- The ways `semaoe` ends. -/
inductive Aoe (info : Seminfo) (slot : Slot) (val id : Int) (num : Nat) (k : Tables) :
    Tables → Option Errno → Prop where
  | zero : toShort val = 0 → Aoe info slot val id num k k none
  | range : toShort val ≠ 0 → ¬ Accepted info (toShort val) → Aoe info slot val id num k k (some .erange)
  | nospace : Accepted info (toShort val) → k.acquire slot = none →
      Aoe info slot val id num k k (some .enospc)
  | record (up : Nat) (k₁ k' : Tables) : Accepted info (toShort val) → k.acquire slot = some (up, k₁) →
      k₁.record info up (change info (toShort val) id num (k₁.semu up).unEnt) = some k' →
      Aoe info slot val id num k k' (change info (toShort val) id num (k₁.semu up).unEnt).error

theorem semaoe_aoe (result : semaoe info slot val id num k = some (k', error)) :
    Aoe info slot val id num k k' error := by
  simp only [semaoe] at result
  split at result
  · next zero =>
    cases result
    exact .zero zero
  · next nonzero =>
    split at result
    · next outside =>
      cases result
      refine .range nonzero ?_
      unfold Accepted
      omega
    · next inside =>
      have accepted : Accepted info (toShort val) := ⟨nonzero, by omega, by omega⟩
      split at result
      · next none =>
        cases result
        exact .nospace accepted none
      · next up k₁ taken =>
        obtain ⟨k₂, recorded, same⟩ := bind_eq_some_iff.mp result
        obtain ⟨rfl, rfl⟩ := Prod.mk.inj (some.inj same)
        exact .record up k₁ k₂ accepted taken recorded

/-- The parts that the links do not touch. -/
structure SameEntries (k k' : Tables) : Prop where
  sem : k'.sem = k.sem
  semUndo : k'.semUndo = k.semUndo
  semfup : k'.semfup = k.semfup
  unEnt : ∀ up, (k'.semu up).unEnt = (k.semu up).unEnt

theorem setUndo_link (k : Tables) (up : Nat) (link : Option Nat) :
    SameEntries k (k.setUndo up fun un => { un with unNp := link }) := by
  refine ⟨rfl, rfl, rfl, fun other => ?_⟩
  by_cases here : other = up
  · subst here
    simp
  · simp [here]

theorem SameEntries.trans {k'' : Tables} (first : SameEntries k k') (second : SameEntries k' k'') :
    SameEntries k k'' :=
  ⟨second.sem.trans first.sem, second.semUndo.trans first.semUndo, second.semfup.trans first.semfup,
    fun up => (second.unEnt up).trans (first.unEnt up)⟩

theorem chain_same (k : Tables) (up : Nat) : SameEntries k (k.chain up) :=
  have linked := setUndo_link k up k.semunp
  ⟨linked.sem, linked.semUndo, linked.semfup, linked.unEnt⟩

theorem unchain_same (result : k.unchain info up = some k') : SameEntries k k' := by
  unfold Tables.unchain at result
  split at result
  · cases result
    exact ⟨rfl, rfl, rfl, fun _ => rfl⟩
  · obtain ⟨found, walked, result⟩ := bind_eq_some_iff.mp result
    cases found with
    | none =>
      cases result
      exact ⟨rfl, rfl, rfl, fun _ => rfl⟩
    | some p =>
      cases result
      exact setUndo_link k p _

theorem record_same {change : Change} (result : k.record info up change = some k') :
    SameEntries (k.setUndo up fun un => { un with unEnt := change.entries }) k' := by
  have refl (k : Tables) : SameEntries k k := ⟨rfl, rfl, rfl, fun _ => rfl⟩
  unfold Tables.record at result
  cases change with
  | failed =>
    cases result
    exact refl _
  | inserted =>
    simp only at result
    split at result
    · cases result
      exact chain_same _ _
    · cases result
      exact refl _
  | updated =>
    cases result
    exact refl _
  | deleted =>
    simp only at result
    split at result
    · obtain ⟨k₂, unchained, result⟩ := bind_eq_some_iff.mp result
      cases result
      exact (unchain_same unchained).trans (setUndo_link _ _ _)
    · cases result
      exact refl _

/-- A process without a structure would get an empty one. -/
def Clean (k : Tables) (slot : Slot) : Prop :=
  k.semUndo slot = none → ∀ up, k.semfup = some up → (k.semu up).unEnt = []

theorem acquire_some (clean : Clean k slot) (taken : k.acquire slot = some (up, k₁)) :
    k₁.sem = k.sem ∧ k₁.semUndo slot = some up ∧ k₁.entries slot = k.entries slot := by
  unfold Tables.acquire at taken
  cases owned : k.semUndo slot with
  | some up' =>
    rw [owned] at taken
    obtain ⟨rfl, rfl⟩ := Prod.mk.inj (some.inj taken)
    exact ⟨rfl, owned, rfl⟩
  | none =>
    rw [owned] at taken
    cases free : k.semfup with
    | none => simp [free] at taken
    | some up' =>
      rw [free] at taken
      obtain ⟨rfl, rfl⟩ := Prod.mk.inj (some.inj taken)
      refine ⟨rfl, by simp, ?_⟩
      simp [Tables.entries, owned, clean owned up' free]

theorem semaoe_entries (clean : Clean k slot) (result : semaoe info slot val id num k = some (k', error)) :
    k'.sem = k.sem ∧ Clean k' slot ∧ (k.semUndo slot ≠ none → k'.semUndo slot ≠ none) ∧
      ((k'.entries slot = k.entries slot ∧ (error = none → toShort val = 0) ∧
          (error ≠ none → Accepted info (toShort val) → k.semUndo slot = none)) ∨
        (Accepted info (toShort val) ∧ k'.semUndo slot ≠ none ∧
          k'.entries slot = (change info (toShort val) id num (k.entries slot)).entries ∧
          error = (change info (toShort val) id num (k.entries slot)).error)) := by
  cases semaoe_aoe result with
  | zero zero => exact ⟨rfl, clean, fun owned => owned, .inl ⟨rfl, fun _ => zero, fun failed => absurd rfl failed⟩⟩
  | range nonzero outside => exact ⟨rfl, clean, fun owned => owned, .inl ⟨rfl, nofun, fun _ inside => absurd inside outside⟩⟩
  | nospace accepted full =>
    have none : k.semUndo slot = none := by
      unfold Tables.acquire at full
      split at full
      · cases full
      · assumption
    exact ⟨rfl, clean, fun owned => owned, .inl ⟨rfl, nofun, fun _ _ => none⟩⟩
  | record up k₁ k' accepted taken recorded =>
    obtain ⟨sem, owned, entries⟩ := acquire_some clean taken
    have same := record_same recorded
    have owned' : k'.semUndo slot = some up := by
      rw [same.semUndo]
      exact owned
    have before : (k₁.semu up).unEnt = k.entries slot := by
      rw [← entries, Tables.entries, owned]
    have after : k'.entries slot = (change info (toShort val) id num (k₁.semu up).unEnt).entries := by
      rw [Tables.entries, owned']
      simp [same.unEnt]
    refine ⟨by rw [same.sem]; exact sem, ?_, ?_, .inr ⟨accepted, ?_, ?_, ?_⟩⟩
    · intro none
      rw [owned'] at none
      cases none
    · intro _ none
      rw [owned'] at none
      cases none
    · simp [owned']
    · rw [after, before]
    · rw [before]

end

/-! ## Applying one operation and taking it back -/

/-- The undo tables are the same. -/
structure SameUndo (k k' : Tables) : Prop where
  semu : k'.semu = k.semu
  semunp : k'.semunp = k.semunp
  semfup : k'.semfup = k.semfup
  semUndo : k'.semUndo = k.semUndo

namespace SameUndo
variable {k k' k'' : Tables} {slot : Slot}

theorem trans (first : SameUndo k k') (second : SameUndo k' k'') : SameUndo k k'' :=
  ⟨second.semu.trans first.semu, second.semunp.trans first.semunp, second.semfup.trans first.semfup,
    second.semUndo.trans first.semUndo⟩

theorem entries (same : SameUndo k k') : k'.entries slot = k.entries slot := by
  unfold Tables.entries
  rw [same.semUndo, same.semu]

theorem clean (same : SameUndo k k') (clean : Clean k slot) : Clean k' slot := by
  unfold Clean
  rw [same.semUndo, same.semfup, same.semu]
  exact clean

end SameUndo

section
variable {w : Work} {i j : Nat} {op : Int} {chan : Chan} {pid : Int} {base : Nat}

theorem add_undo : SameUndo w.k (w.add i op).k := ⟨rfl, rfl, rfl, rfl⟩

theorem add_semval : ((w.add i op).k.sem j).semval =
    if j = i then toUshort ((w.k.sem i).semval + op) else (w.k.sem j).semval := by
  by_cases here : j = i
  · subst here
    simp [Work.add, Tables.setSem]
  · simp [Work.add, Tables.setSem, here]

theorem wakeN_undo : SameUndo w.k (w.wakeN i).k := by
  unfold Work.wakeN
  split
  · exact ⟨rfl, rfl, rfl, rfl⟩
  · exact ⟨rfl, rfl, rfl, rfl⟩

theorem wakeN_semval : ((w.wakeN i).k.sem j).semval = (w.k.sem j).semval := by
  unfold Work.wakeN
  split
  · exact field_update Sem.semval rfl
  · rfl

theorem wakeZ_undo : SameUndo w.k (w.wakeZ i).k := by
  unfold Work.wakeZ
  split
  · exact ⟨rfl, rfl, rfl, rfl⟩
  · exact ⟨rfl, rfl, rfl, rfl⟩

theorem wakeZ_semval : ((w.wakeZ i).k.sem j).semval = (w.k.sem j).semval := by
  unfold Work.wakeZ
  split
  · exact field_update Sem.semval rfl
  · rfl

theorem count_undo : SameUndo w.k (w.count chan).k := by
  cases chan with
  | ncnt => exact ⟨rfl, rfl, rfl, rfl⟩
  | zcnt => exact ⟨rfl, rfl, rfl, rfl⟩

theorem count_semval : ((w.count chan).k.sem j).semval = (w.k.sem j).semval := by
  cases chan with
  | ncnt i => exact field_update Sem.semval rfl
  | zcnt i => exact field_update Sem.semval rfl

theorem stamp_undo (ops : List Sembuf) : SameUndo w.k (stamp pid base ops w).k := by
  induction ops generalizing w with
  | nil => exact ⟨rfl, rfl, rfl, rfl⟩
  | cons op ops ih =>
    have later := ih (w := { w.touch op.semNum with
      k := w.k.setSem (base + op.semNum) fun s => { s with sempid := pid } })
    exact ⟨later.semu, later.semunp, later.semfup, later.semUndo⟩

theorem stamp_semval (ops : List Sembuf) :
    ((stamp pid base ops w).k.sem j).semval = (w.k.sem j).semval := by
  induction ops generalizing w with
  | nil => rfl
  | cons op ops ih =>
    rw [stamp, ih]
    exact field_update Sem.semval rfl

end

/-- Values in range, entries in order, and an empty structure for a process that
has none. -/
structure Fair (info : Seminfo) (slot : Slot) (k : Tables) : Prop where
  values : ∀ i, 0 ≤ (k.sem i).semval ∧ (k.sem i).semval ≤ info.semvmx
  entries : EntriesOk info (k.entries slot)
  clean : Clean k slot

/-- What `op` adds to the semaphore `i`. -/
def Sembuf.on (op : Sembuf) (base i : Nat) : Int := if base + op.semNum = i then op.semOp else 0

/-- `op` led from `k` to `k'`, and its rollback leads back. -/
structure Applied (info : Seminfo) (slot : Slot) (semid : Int) (base : Nat) (op : Sembuf)
    (k k' : Tables) : Prop where
  values : ∀ i, (k'.sem i).semval = (k.sem i).semval + op.on base i
  plain : (op.undo = false ∨ op.semOp = 0) → k'.entries slot = k.entries slot
  undo : op.undo = true → op.semOp ≠ 0 → k'.semUndo slot ≠ none ∧ Accepted info op.semOp ∧
    Reverts info op.semOp semid op.semNum (k.entries slot) (k'.entries slot)

section
variable {info : Seminfo} {slot : Slot} {semid : Int} {base : Nat} {op : Sembuf} {w w' : Work}
  {error : Option Errno} {verdict : Verdict}

theorem toShort_semOp : toShort op.semOp = op.semOp := toShort_of_fits op.semOp_fits

theorem adjustUndo_apply (fair : Fair info slot w.k) (nonzero : op.semOp ≠ 0)
    (result : adjustUndo info slot semid op.undo op.semOp op.semNum w = some (w', error)) :
    w'.k.sem = w.k.sem ∧ Clean w'.k slot ∧ (w.k.semUndo slot ≠ none → w'.k.semUndo slot ≠ none) ∧
      (error ≠ none → w'.k.entries slot = w.k.entries slot) ∧
      (error = none → (op.undo = false → w'.k.entries slot = w.k.entries slot) ∧
        (op.undo = true → w'.k.semUndo slot ≠ none ∧ Accepted info op.semOp ∧
          Reverts info op.semOp semid op.semNum (w.k.entries slot) (w'.k.entries slot))) := by
  unfold adjustUndo at result
  split at result
  · next undo =>
    obtain ⟨⟨k', error'⟩, made, same⟩ := bind_eq_some_iff.mp result
    cases same
    obtain ⟨sem, clean, kept, outcome⟩ := semaoe_entries fair.clean made
    rw [toShort_semOp] at outcome
    refine ⟨sem, clean, kept, ?_⟩
    rcases outcome with ⟨same, zero, _⟩ | ⟨accepted, owned, entries, failed⟩
    · exact ⟨fun _ => same, fun done => absurd (zero done) nonzero⟩
    · have spec := (@change_spec _ semid _ op.semNum) fair.entries accepted.1 accepted.2
      rw [entries, failed]
      refine ⟨spec.1, fun done => ⟨fun plain => absurd undo (by simp [plain]), fun _ => ?_⟩⟩
      exact ⟨owned, accepted, spec.2 done⟩
  · next plain =>
    cases result
    exact ⟨rfl, fair.clean, fun owned => owned, fun failed => absurd rfl failed,
      fun _ => ⟨fun _ => rfl, fun undo => absurd undo plain⟩⟩

/-- Values and entries are as before. -/
structure Unmoved (slot : Slot) (k k' : Tables) : Prop where
  values : ∀ i, (k'.sem i).semval = (k.sem i).semval
  entries : k'.entries slot = k.entries slot
  clean : Clean k' slot
  owned : k.semUndo slot ≠ none → k'.semUndo slot ≠ none

theorem applied_add {w₁ : Work} (fair : Fair info slot w.k) (nonzero : op.semOp ≠ 0)
    (made : adjustUndo info slot semid op.undo op.semOp op.semNum w = some (w₁, none))
    (fits : 0 ≤ (w.k.sem (base + op.semNum)).semval + op.semOp ∧
      (w.k.sem (base + op.semNum)).semval + op.semOp ≤ info.semvmx)
    (undo : SameUndo w₁.k w'.k)
    (values : ∀ i, (w'.k.sem i).semval = ((w₁.add (base + op.semNum) op.semOp).k.sem i).semval) :
    Fair info slot w'.k ∧ Applied info slot semid base op w.k w'.k ∧
      (w.k.semUndo slot ≠ none → w'.k.semUndo slot ≠ none) := by
  obtain ⟨sem, clean, kept, _, done⟩ := adjustUndo_apply fair nonzero made
  obtain ⟨plain, recorded⟩ := done rfl
  have limit := info.semvmx_fits
  have sum (i : Nat) : (w'.k.sem i).semval = (w.k.sem i).semval + op.on base i := by
    rw [values, add_semval, sem]
    unfold Sembuf.on
    by_cases here : i = base + op.semNum
    · rw [if_pos here, if_pos here.symm, here]
      exact toUshort_of_range fits.1 (by omega)
    · rw [if_neg here, if_neg fun same => here same.symm]
      exact (Int.add_zero _).symm
  have entries := (@SameUndo.entries _ _ slot) undo
  refine ⟨⟨fun i => ?_, ?_, undo.clean clean⟩, ⟨sum, ?_, ?_⟩, ?_⟩
  · rw [sum]
    unfold Sembuf.on
    split
    · next here =>
      rw [← here]
      exact fits
    · rw [Int.add_zero]
      exact fair.values i
  · rw [entries]
    cases flag : op.undo with
    | false =>
      rw [plain flag]
      exact fair.entries
    | true => exact (recorded flag).2.2.ok
  · rintro (flag | zero)
    · rw [entries, plain flag]
    · exact absurd zero nonzero
  · intro flag _
    rw [entries, undo.semUndo]
    exact recorded flag
  · rw [undo.semUndo]
    exact kept

theorem perform_spec {wake : Work → Work} (fair : Fair info slot w.k)
    (nonzero : op.semOp ≠ 0)
    (fits : 0 ≤ (w.k.sem (base + op.semNum)).semval + op.semOp ∧
      (w.k.sem (base + op.semNum)).semval + op.semOp ≤ info.semvmx)
    (undo : ∀ w, SameUndo w.k (wake w).k)
    (values : ∀ w i, ((wake w).k.sem i).semval = (w.k.sem i).semval)
    (result : perform info slot semid base op wake w = some (w', verdict)) :
    (verdict = .ok → Fair info slot w'.k ∧ Applied info slot semid base op w.k w'.k ∧
      (w.k.semUndo slot ≠ none → w'.k.semUndo slot ≠ none)) ∧
    (verdict ≠ .ok → Unmoved slot w.k w'.k) := by
  obtain ⟨⟨w₁, error⟩, made, result⟩ := bind_eq_some_iff.mp result
  cases error with
  | some error =>
    cases result
    obtain ⟨sem, clean, kept, same, _⟩ := adjustUndo_apply fair nonzero made
    exact ⟨nofun, fun _ => ⟨fun i => by rw [sem], same (by simp), clean, kept⟩⟩
  | none =>
    cases result
    refine ⟨fun _ => ?_, fun other => absurd rfl other⟩
    exact applied_add fair nonzero made fits (add_undo.trans (undo _)) fun i => values _ i

theorem attempt_spec (fair : Fair info slot w.k)
    (result : attempt info slot semid base op w = some (w', verdict)) :
    (verdict = .ok → Fair info slot w'.k ∧ Applied info slot semid base op w.k w'.k ∧
      (w.k.semUndo slot ≠ none → w'.k.semUndo slot ≠ none)) ∧
    (verdict ≠ .ok → Unmoved slot w.k w'.k) := by
  have fair' : Fair info slot (w.touch op.semNum).k := fair
  have range := fair.values (base + op.semNum)
  have value : ((w.touch op.semNum).k.sem (base + op.semNum)).semval =
    (w.k.sem (base + op.semNum)).semval := rfl
  have still {verdict' : Verdict} (stays : verdict' ≠ .ok)
      (result : some (w.touch op.semNum, verdict') = some (w', verdict)) :
      (verdict = .ok → Fair info slot w'.k ∧ Applied info slot semid base op w.k w'.k ∧
        (w.k.semUndo slot ≠ none → w'.k.semUndo slot ≠ none)) ∧
      (verdict ≠ .ok → Unmoved slot w.k w'.k) := by
    cases result
    exact ⟨fun ok => absurd ok stays, fun _ => ⟨fun _ => rfl, rfl, fair.clean, fun owned => owned⟩⟩
  simp only [attempt] at result
  split at result
  · next positive =>
    split at result
    · exact still (by simp) result
    · next room =>
      exact perform_spec (w := w.touch op.semNum) fair' (by omega) (by omega)
        (fun w => wakeN_undo.trans wakeZ_undo) (fun w i => by rw [wakeZ_semval, wakeN_semval]) result
  · split at result
    · next negative =>
      split at result
      · next enough =>
        exact perform_spec (w := w.touch op.semNum) fair' (by omega) (by omega)
          (fun w => wakeZ_undo) (fun w i => wakeZ_semval) result
      · exact still (by simp) result
    · next zero =>
      have none : op.semOp = 0 := by omega
      split at result
      · exact still (by simp) result
      · cases result
        refine ⟨fun _ => ⟨fair', ⟨fun i => ?_, fun _ => rfl, fun _ other => absurd none other⟩,
          fun owned => owned⟩, fun other => absurd rfl other⟩
        simp [Sembuf.on, none, Work.touch]

theorem adjustUndo_revert {entries : List Undo} (clean : Clean w.k slot)
    (plain : (op.undo = false ∨ op.semOp = 0) → w.k.entries slot = entries)
    (undo : op.undo = true → op.semOp ≠ 0 → w.k.semUndo slot ≠ none ∧ Accepted info op.semOp ∧
      Reverts info op.semOp semid op.semNum entries (w.k.entries slot)) (nonzero : op.semOp ≠ 0)
    (result : adjustUndo info slot semid op.undo (-op.semOp) op.semNum w = some (w', error)) :
    w'.k.sem = w.k.sem ∧ w'.k.entries slot = entries ∧ Clean w'.k slot ∧
      (w.k.semUndo slot ≠ none → w'.k.semUndo slot ≠ none) := by
  unfold adjustUndo at result
  split at result
  · next flag =>
    obtain ⟨⟨k', error'⟩, made, same⟩ := bind_eq_some_iff.mp result
    obtain ⟨rfl, rfl⟩ := Prod.mk.inj (some.inj same)
    obtain ⟨owned, accepted, reverts⟩ := undo flag nonzero
    have value : toShort (-op.semOp) = -op.semOp := by
      have bounds := accepted.2
      exact (@toShort_of_bound info) (by omega)
    have accepted' : Accepted info (-op.semOp) := by
      unfold Accepted at *
      omega
    obtain ⟨sem, clean, kept, outcome⟩ := semaoe_entries clean made
    rw [value] at outcome
    refine ⟨sem, ?_, clean, kept⟩
    rcases outcome with ⟨_, zero, full⟩ | ⟨_, _, after, _⟩
    · -- The process has a structure and the value is in range: `semaoe` does its work.
      cases error' with
      | none => exact absurd (zero rfl) (by omega)
      | some error => exact absurd (full (by simp) accepted') owned
    · rw [after]
      exact reverts.entries
  · next flag =>
    cases result
    exact ⟨rfl, plain (Or.inl (by simpa using flag)), clean, fun owned => owned⟩

/-- The operations behind a point of the pass, the last one first, lead back to
where it began. -/
inductive Track (info : Seminfo) (slot : Slot) (semid : Int) (base : Nat) (k₀ : Tables) :
    List Sembuf → Tables → Prop where
  | start {k : Tables} : Unmoved slot k₀ k → Track info slot semid base k₀ [] k
  | step {op : Sembuf} {done : List Sembuf} {k k' : Tables} :
      Track info slot semid base k₀ done k → (∀ i, 0 ≤ (k.sem i).semval ∧ (k.sem i).semval ≤ info.semvmx) →
      Applied info slot semid base op k k' → Clean k' slot →
      (k.semUndo slot ≠ none → k'.semUndo slot ≠ none) → Track info slot semid base k₀ (op :: done) k'

variable {k₀ k k' : Tables} {done : List Sembuf}

theorem Track.unmoved (track : Track info slot semid base k₀ done k) (unmoved : Unmoved slot k k') :
    Track info slot semid base k₀ done k' := by
  cases track with
  | start first =>
    refine .start ⟨fun i => ?_, ?_, unmoved.clean, fun owned => unmoved.owned (first.owned owned)⟩
    · rw [unmoved.values, first.values]
    · rw [unmoved.entries, first.entries]
  | step track range applied _ kept =>
    refine .step track range ⟨fun i => ?_, ?_, ?_⟩ unmoved.clean fun owned => unmoved.owned (kept owned)
    · rw [unmoved.values, applied.values]
    · intro plain
      rw [unmoved.entries, applied.plain plain]
    · intro flag nonzero
      rw [unmoved.entries]
      obtain ⟨owned, rest⟩ := applied.undo flag nonzero
      exact ⟨unmoved.owned owned, rest⟩

theorem add_back (range : ∀ i, 0 ≤ (k.sem i).semval ∧ (k.sem i).semval ≤ info.semvmx)
    (values : ∀ i, (w.k.sem i).semval = (k.sem i).semval + op.on base i) (i : Nat) :
    ((w.add (base + op.semNum) (-op.semOp)).k.sem i).semval = (k.sem i).semval := by
  have limit := info.semvmx_fits
  have here := range (base + op.semNum)
  rw [add_semval]
  unfold Sembuf.on at values
  split
  · next same =>
    rw [values, if_pos rfl, same, Int.add_assoc, Int.add_right_neg, Int.add_zero]
    exact toUshort_of_range here.1 (by omega)
  · next other =>
    rw [values, if_neg fun same => other same.symm, Int.add_zero]

theorem semundo_spec (track : Track info slot semid base k₀ done w.k)
    (result : semundo info slot semid base done w = some w') : Unmoved slot k₀ w'.k := by
  induction done generalizing w with
  | nil =>
    cases result
    cases track with
    | start unmoved => exact unmoved
  | cons op done ih =>
    cases track with
    | @step _ _ k _ track range applied clean kept =>
      unfold semundo at result
      split at result
      · next zero =>
        refine ih (track.unmoved ⟨fun i => ?_, applied.plain (.inr zero), clean, kept⟩) result
        rw [applied.values]
        simp [Sembuf.on, zero]
      · next nonzero =>
        obtain ⟨⟨w₂, error⟩, reverted, result⟩ := bind_eq_some_iff.mp result
        obtain ⟨sem, entries, clean, owned⟩ := adjustUndo_revert
          (w := (w.touch op.semNum).add (base + op.semNum) (-op.semOp)) clean applied.plain applied.undo
          nonzero reverted
        refine ih (track.unmoved ⟨fun i => ?_, entries, clean, fun before => owned (kept before)⟩) result
        rw [sem]
        exact add_back (w := w.touch op.semNum) range applied.values i

/-- What the operations add up to on the semaphore `i`. -/
def net (base i : Nat) (ops : List Sembuf) : Int := (ops.map fun op => op.on base i).sum

/-- The end of a pass that began in `k₀`, for the operations still to come. -/
def Ends (info : Seminfo) (slot : Slot) (base : Nat) (k₀ : Tables) (rest : List Sembuf) (k k' : Tables) :
    Outcome → Prop
  | .success => (∀ i, (k'.sem i).semval = (k.sem i).semval + net base i rest) ∧
      ∀ n i, 0 ≤ (k.sem i).semval + net base i (rest.take n) ∧
        (k.sem i).semval + net base i (rest.take n) ≤ info.semvmx
  | _ => Unmoved slot k₀ k'

theorem semopFrom_spec {pid : Int} {ops rest : List Sembuf} {outcome : Outcome} (fair : Fair info slot w.k)
    (track : Track info slot semid base k₀ done w.k)
    (result : semopFrom info slot pid semid base ops done rest w = some (w', outcome)) :
    Ends info slot base k₀ rest w.k w'.k outcome := by
  induction rest generalizing done w with
  | nil =>
    cases result
    refine ⟨fun i => ?_, fun n i => ?_⟩
    · rw [stamp_semval]
      simp [net]
    · simpa [net] using fair.values i
  | cons op rest ih =>
    obtain ⟨⟨w₁, verdict⟩, tried, result⟩ := bind_eq_some_iff.mp result
    obtain ⟨ok, stays⟩ := attempt_spec fair tried
    cases verdict with
    | ok =>
      obtain ⟨fair₁, applied, kept⟩ := ok rfl
      have ends := ih fair₁ (.step track fair.values applied fair₁.clean kept) result
      cases outcome with
      | success =>
        obtain ⟨total, prefixes⟩ := ends
        refine ⟨fun i => ?_, fun n i => ?_⟩
        · rw [total, applied.values]
          simp only [net, List.map_cons, List.sum_cons]
          omega
        · cases n with
          | zero => simpa [net] using fair.values i
          | succ n =>
            have part := prefixes n i
            rw [applied.values] at part
            simp only [net, List.take_succ_cons, List.map_cons, List.sum_cons] at part ⊢
            omega
      | error => exact ends
      | sleep => exact ends
    | fail error =>
      obtain ⟨w₂, undone, result⟩ := bind_eq_some_iff.mp result
      cases result
      exact semundo_spec (track.unmoved (stays (by simp))) undone
    | block chan =>
      obtain ⟨w₂, undone, result⟩ := bind_eq_some_iff.mp result
      have unmoved := semundo_spec (track.unmoved (stays (by simp))) undone
      split at result
      · cases result
        exact unmoved
      · cases result
        have same := (@count_undo w₂ chan)
        refine ⟨fun i => ?_, ?_, same.clean unmoved.clean, ?_⟩
        · rw [count_semval, unmoved.values]
        · rw [same.entries, unmoved.entries]
        · rw [same.semUndo]
          exact unmoved.owned

end

/-- Semaphores of value 1 and free undo structures. -/
def ones : Tables :=
  ⟨fun _ => ⟨1, 0, 0, 0⟩, fun up => ⟨if up + 1 < 30 then some (up + 1) else none, []⟩, none, some 0, fun _ => none⟩

/-- Two to the first semaphore and five from it, both to be undone. -/
def twoUpFiveDown : List Sembuf :=
  [⟨0, 2, true, false, by decide, by decide⟩, ⟨0, -5, true, false, by decide, by decide⟩]

end Svr4.Semaphore
