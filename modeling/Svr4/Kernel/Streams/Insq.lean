import Svr4.Kernel.Streams.Representation

/-! `insq`: a message is inserted before another one. -/

namespace Svr4.Streams

open Option (some)
open List (append_nil mem_of_getLast? mem_cons mem_append_left head?_nil)

/-- Whether the check of the order refuses the message. -/
def badord (q : Nat) (emp : Option Nat) (mp : Nat) (k : Kernel) : Bool :=
  let m := k.msg mp
  match emp with
  | some emp =>
    let prev := (k.prev emp).map k.msg
    m.queclass = qpctl ∧ prev.any (·.dbType < qpctl) ∨ m.queclass = qnorm ∧ m.bBand < (k.msg emp).bBand ∨
      prev.any fun prev => prev.dbType < qpctl ∧ prev.bBand < m.bBand
  | none =>
    match (k.queue q).qLast with
    | some tmp => m.queclass = qnorm ∧ m.bBand > (k.msg tmp).bBand
    | none => false

/-- The ends of the band after `insq`. The bands are those before the insertion, and the
message is followed by `emp`. -/
def insqEnds (k : Kernel) (emp : Option Nat) (mp : Nat) (qbp : Qband) : Qband :=
  if qbp.qbFirst = none then { qbp with qbFirst := some mp, qbLast := some mp }
  else if qbp.qbFirst = emp then { qbp with qbFirst := some mp }
  else if emp.any fun emp => (k.msg emp).bBand ≠ (k.msg mp).bBand then { qbp with qbLast := some mp }
  else qbp

/-- Before `emp`, or at the end. -/
def insqPlace (q : Nat) (emp : Option Nat) (k : Kernel) : Place :=
  match emp with
  | some emp => beforeMsg k emp
  | none => ((k.queue q).qLast, none)

/-- `insq`, with the band of the message as it should be. -/
def insqForced (q : Nat) (emp : Option Nat) (mp : Nat) (k : Kernel) : Option (Kernel × Bool) := do
  if badord q emp mp k then return (k, false)
  let pri := (k.msg mp).bBand
  let (k, found) := if pri ≠ 0 then needBand q pri k else (k, true)
  if ¬ found then return (k, false)
  let find (_ _ : Nat) (_ : Option Qband) (k : Kernel) : Option Place := some (insqPlace q emp k)
  let inserted := if pri ≠ 0 then putBand find (fun mp _ qbp => insqEnds k emp mp qbp) q mp pri k else putZero find q mp k
  let k ← inserted
  let canenable := (k.queue q).qFlag &&& qnoenb = 0
  return (if canenable ∧ (k.queue q).qFlag &&& qwantr ≠ 0 then qenable q k else k, true)

/-- The band of a message of high priority is forced to be 0. -/
def forceBand (mp : Nat) (k : Kernel) : Kernel :=
  if (k.msg mp).queclass = qpctl then k.setMsg mp fun m => { m with bBand := 0 } else k

def insq (q : Nat) (emp : Option Nat) (mp : Nat) (k : Kernel) : Option (Kernel × Bool) :=
  insqForced q emp mp (forceBand mp k)

/-! ## The place -/

section
variable {nMsg q mp : Nat} {k : Kernel} {left right : List Nat}

/-- A message of high priority goes behind an ordinary one at the end. -/
def HighBehind (k : Kernel) (left right : List Nat) (mp : Nat) : Prop :=
  qpctl ≤ (k.msg mp).dbType ∧ right = [] ∧ ∃ tmp, left.getLast? = some tmp ∧ ¬ qpctl ≤ (k.msg tmp).dbType

/-- An ordinary message goes before one of high priority. -/
def BeforeHigh (k : Kernel) (right : List Nat) (mp : Nat) : Prop :=
  ¬ qpctl ≤ (k.msg mp).dbType ∧ ∃ emp, right.head? = some emp ∧ qpctl ≤ (k.msg emp).dbType

/-- A message goes to the end, behind one of its band. -/
def BehindOwn (k : Kernel) (left right : List Nat) (mp : Nat) : Prop :=
  (k.msg mp).bBand ≠ 0 ∧ right = [] ∧ ∃ tmp, left.getLast? = some tmp ∧ (k.msg tmp).bBand = (k.msg mp).bBand

theorem accepted_end (queued : Queued nMsg k q (left ++ [])) : badord q none mp k = false ↔
    ∀ tmp, left.getLast? = some tmp → ¬ qpctl ≤ (k.msg mp).dbType → (k.msg mp).bBand ≤ (k.msg tmp).bBand := by
  have last : (k.queue q).qLast = left.getLast? := by
    have end' := queued.doubly.last_eq
    rwa [append_nil] at end'
  cases found : left.getLast? with
  | none => simp [badord, last, found]
  | some tmp =>
    by_cases high : qpctl ≤ (k.msg mp).dbType
    · simp [badord, last, found, high, queclass_high high, show ¬ qpctl = qnorm by decide]
    · simp [badord, last, found, high, queclass_normal high]

theorem accepted_before {emp : Nat} {rest : List Nat} (queued : Queued nMsg k q (left ++ emp :: rest)) :
    badord q (some emp) mp k = false ↔
      (∀ tmp, left.getLast? = some tmp → ¬ qpctl ≤ (k.msg tmp).dbType →
        ¬ qpctl ≤ (k.msg mp).dbType ∧ (k.msg mp).bBand ≤ (k.msg tmp).bBand) ∧
      (¬ qpctl ≤ (k.msg mp).dbType → (k.msg emp).bBand ≤ (k.msg mp).bBand) := by
  have prev : k.prev emp = left.getLast? := queued.doubly.prev_eq
  cases found : left.getLast? with
  | none =>
    by_cases high : qpctl ≤ (k.msg mp).dbType
    · simp [badord, prev, found, high, queclass_high high, show ¬ qpctl = qnorm by decide]
    · simp [badord, prev, found, high, queclass_normal high, show ¬ qnorm = qpctl by decide]
  | some tmp =>
    by_cases high : qpctl ≤ (k.msg mp).dbType
    · simp only [badord, Option.map_some, Option.any_some, prev, found, high, queclass_high high, some.injEq]
      simp [show ¬ qpctl = qnorm by decide]
      omega
    · simp only [badord, Option.map_some, Option.any_some, prev, found, high, queclass_normal high, some.injEq]
      simp [show ¬ qnorm = qpctl by decide]
      omega

theorem key_ge_band (valid : (k.msg mp).Valid) : (k.msg mp).bBand ≤ k.key mp := by
  by_cases high : qpctl ≤ (k.msg mp).dbType
  · rw [valid.1 high]
    exact Nat.zero_le _
  · exact Nat.le_of_eq (key_normal high).symm

theorem around (sorted : k.Sorted (left ++ right)) (c : Nat) :
    ((∀ m ∈ left, c ≤ k.key m) ∧ ∀ m ∈ right, k.key m ≤ c) ↔
      (∀ tmp, left.getLast? = some tmp → c ≤ k.key tmp) ∧ ∀ emp, right.head? = some emp → k.key emp ≤ c := by
  obtain ⟨front, back, -⟩ := List.pairwise_append.mp sorted
  refine and_congr ⟨fun all tmp last => all tmp (mem_of_getLast? last), fun nearest m member => ?_⟩
    ⟨fun all emp first => all emp (List.mem_of_head? first), fun nearest m member => ?_⟩
  · have last := List.getLast?_eq_some_getLast (List.ne_nil_of_mem member)
    exact Nat.le_trans (nearest _ last) (sorted_last front last m member)
  · cases right with
    | nil => cases member
    | cons emp rest =>
      rcases mem_cons.mp member with rfl | member
      · exact nearest m rfl
      · exact Nat.le_trans ((List.pairwise_cons.mp back).1 m member) (nearest emp rfl)

/-- The check lets a message through whose key is between those around the place, except
for two kinds. -/
theorem accepted_between (queued : Queued nMsg k q (left ++ right)) (valid : (k.msg mp).Valid)
    (accepted : badord q right.head? mp k = false) :
    ((∀ m ∈ left, k.key mp ≤ k.key m) ∧ ∀ m ∈ right, k.key m ≤ k.key mp) ↔
      ¬ HighBehind k left right mp ∧ ¬ BeforeHigh k right mp := by
  rw [around queued.tallied.sorted]
  have all {m : Nat} (member : m ∈ left ++ right) : (k.msg m).Valid := queued.tallied.valid m member
  have least {tmp : Nat} (last : left.getLast? = some tmp) : (k.msg tmp).bBand ≤ k.key tmp :=
    key_ge_band (all (mem_append_left _ (mem_of_getLast? last)))
  cases right with
  | nil =>
    have checked := (accepted_end queued).mp accepted
    simp only [HighBehind, BeforeHigh, head?_nil, reduceCtorEq, false_and, exists_false, and_false, not_false_eq_true,
      and_true, true_and, false_implies, implies_true]
    by_cases high : qpctl ≤ (k.msg mp).dbType
    · simp only [high, true_and]
      rw [show k.key mp = 256 from key_high high]
      push Not
      refine forall₂_congr fun tmp last => ?_
      have valid := all (mem_append_left _ (mem_of_getLast? last))
      rw [valid.high_iff]
      exact ⟨fun up => Nat.le_antisymm valid.key_le up, fun same => Nat.le_of_eq same.symm⟩
    · simp only [high, false_and, not_false_eq_true, iff_true]
      intro tmp last
      rw [show k.key mp = (k.msg mp).bBand from key_normal high]
      exact Nat.le_trans (checked tmp last high) (least last)
  | cons emp rest =>
    obtain ⟨before, after⟩ := (accepted_before queued).mp accepted
    have next : (k.msg emp).Valid := all (by simp)
    simp only [HighBehind, BeforeHigh, List.head?_cons, reduceCtorEq, false_and, and_false, not_false_eq_true, true_and,
      some.injEq, forall_eq', exists_eq_left']
    by_cases high : qpctl ≤ (k.msg mp).dbType
    · simp only [high, not_true_eq_false, false_and, not_false_eq_true, iff_true]
      rw [show k.key mp = 256 from key_high high]
      refine ⟨fun tmp last => ?_, next.key_le⟩
      by_cases upper : qpctl ≤ (k.msg tmp).dbType
      · exact Nat.le_of_eq (key_high upper).symm
      · exact absurd high (before tmp last upper).1
    · simp only [high, not_false_eq_true, true_and]
      rw [show k.key mp = (k.msg mp).bBand from key_normal high]
      have room := valid.2
      constructor
      · rintro ⟨-, low⟩ upper
        rw [show k.key emp = 256 from key_high upper] at low
        omega
      · intro lower
        refine ⟨fun tmp last => ?_, ?_⟩
        · by_cases upper : qpctl ≤ (k.msg tmp).dbType
          · rw [show k.key tmp = 256 from key_high upper]
            omega
          · exact Nat.le_trans (before tmp last upper).2 (least last)
        · rw [show k.key emp = (k.msg emp).bBand from key_normal lower]
          exact after high

/-! ## The ends of the band -/

theorem insqEnds_marks {qbp : Qband} (queued : Queued nMsg k q (left ++ right)) (valid : (k.msg mp).Valid)
    (positive : (k.msg mp).bBand ≠ 0)
    (first : qbp.qbFirst = (k.band (k.msg mp).bBand (left ++ right)).head?)
    (last : qbp.qbLast = (k.band (k.msg mp).bBand (left ++ right)).getLast?)
    (high : ∀ m ∈ left, k.key mp ≤ k.key m) (low : ∀ m ∈ right, k.key m ≤ k.key mp) (apart : ¬ BehindOwn k left right mp) :
    (insqEnds k right.head? mp qbp).qbFirst = (k.band (k.msg mp).bBand (left ++ mp :: right)).head? ∧
      (insqEnds k right.head? mp qbp).qbLast = (k.band (k.msg mp).bBand (left ++ mp :: right)).getLast? := by
  have key : k.key mp = (k.msg mp).bBand := (valid.band_iff positive valid.2).mp rfl
  have all {m : Nat} (member : m ∈ left ++ right) : (k.msg m).bBand = (k.msg mp).bBand ↔ k.key m = k.key mp := by
    rw [key]
    exact (queued.tallied.valid m member).band_iff positive valid.2
  obtain ⟨front, back, -⟩ := List.pairwise_append.mp queued.tallied.sorted
  rw [band_middle, if_pos rfl]
  rw [Kernel.band, List.filter_append, ← Kernel.band, ← Kernel.band] at first last
  generalize ahead : k.band (k.msg mp).bBand left = bandL at *
  generalize behind : k.band (k.msg mp).bBand right = bandR at *
  cases right with
  | nil =>
    obtain rfl : bandR = [] := behind.symm
    have empty : bandL = [] := by
      rw [← ahead, List.filter_eq_nil_iff]
      intro m member
      simp only [decide_eq_true_eq]
      intro own
      -- A message of the band would be followed by messages of the band only.
      have final := List.getLast?_eq_some_getLast (List.ne_nil_of_mem member)
      refine apart ⟨positive, rfl, _, final, (all (mem_append_left _ (mem_of_getLast? final))).mpr ?_⟩
      refine Nat.le_antisymm ?_ (high _ (mem_of_getLast? final))
      rw [← (all (mem_append_left _ member)).mp own]
      exact sorted_last front final m member
    subst empty
    simp [insqEnds, show qbp.qbFirst = none from first]
  | cons emp rest =>
    have differ {f : Nat} {fs : List Nat} (split : bandL = f :: fs) : f ≠ emp := by
      rintro rfl
      have member : f ∈ left := List.mem_of_mem_filter (ahead ▸ split ▸ List.mem_cons_self)
      exact (List.nodup_append.mp queued.doubly.nodup).2.2 f member f (.head _) rfl
    by_cases own : (k.msg emp).bBand = (k.msg mp).bBand
    · obtain ⟨fs', rfl⟩ : ∃ fs', bandR = emp :: fs' := ⟨_, by rw [← behind, Kernel.band, List.filter_cons_of_pos (by simpa using own)]⟩
      cases bandL with
      | nil => simp [insqEnds, first, last]
      | cons f fs => simp [insqEnds, first, last, differ rfl, own, List.getLast?_cons, List.getLast?_append]
    · have empty : bandR = [] := by
        rw [← behind, List.filter_eq_nil_iff]
        intro m member
        simp only [decide_eq_true_eq]
        intro mine
        refine own ((all (by simp)).mpr (Nat.le_antisymm (low emp (.head _)) ?_))
        rw [← (all (List.mem_append_right _ member)).mp mine]
        rcases mem_cons.mp member with rfl | member
        · exact Nat.le_refl _
        · exact (List.pairwise_cons.mp back).1 m member
      subst empty
      cases bandL with
      | nil => simp [insqEnds, show qbp.qbFirst = none from first]
      | cons f fs => simp [insqEnds, first, differ rfl, own, List.getLast?_cons, List.getLast?_append]

theorem insqEnds_behind {qbp : Qband} (positive : (k.msg mp).bBand ≠ 0) (fresh : mp ∉ left ++ right)
    (first : qbp.qbFirst = (k.band (k.msg mp).bBand (left ++ right)).head?)
    (last : qbp.qbLast = (k.band (k.msg mp).bBand (left ++ right)).getLast?) (apart : BehindOwn k left right mp) :
    (insqEnds k right.head? mp qbp).qbLast ≠ (k.band (k.msg mp).bBand (left ++ mp :: right)).getLast? := by
  obtain ⟨-, rfl, tmp, final, own⟩ := apart
  obtain ⟨rest, rfl⟩ := List.getLast?_eq_some_iff.mp final
  have differ : tmp ≠ mp := by
    rintro rfl
    simp at fresh
  rw [band_middle, if_pos rfl]
  rw [append_nil, Kernel.band, List.filter_append, List.filter_cons_of_pos (by simpa using own)] at first last
  have ends : insqEnds k none mp qbp = qbp := by
    rw [insqEnds, if_neg (by rw [first]; simp), if_neg (by rw [first]; simp)]
    simp
  rw [head?_nil, ends, last]
  simpa [List.getLast?_append] using differ

end

/-! ## Band records -/

section
variable {q : Nat} {k : Kernel}

theorem addBands_found (n : Nat) : (addBands q n k).2 = decide (n ≤ k.zalloc) := by
  induction n generalizing k with
  | zero => simp [addBands]
  | succ n ih =>
    unfold addBands
    split <;> rename_i none
    · simp [none]
    · simp only [ih, Kernel.setQueue, decide_eq_decide]
      omega

theorem addBands_length (n : Nat) : ((addBands q n k).1.queue q).qBandp.length = (k.queue q).qBandp.length + min n k.zalloc := by
  induction n generalizing k with
  | zero => simp [addBands]
  | succ n ih =>
    unfold addBands
    split <;> rename_i none
    · simp [none]
    · simp only [ih, Kernel.setQueue, Function.update_self, List.length_append, List.length_singleton]
      omega

end

/-! ## Inserting in order -/

/-- The result of an insertion: the queue as it was, or with the message between the two parts. -/
def Kept (nMsg : Nat) (k : Kernel) (q : Nat) (left right : List Nat) (mp : Nat) (result : Option (Kernel × Bool)) : Prop :=
  ∃ k' done, result = some (k', done) ∧
    (done = false → k'.queue q = k.queue q ∧ ∀ m ∈ left ++ right, k'.msg m = k.msg m) ∧
    (done = true → Queued nMsg k' q (left ++ mp :: right))

/-- The band records are to be had, but not all of them. -/
def Partial (k : Kernel) (q mp : Nat) : Prop :=
  0 < k.zalloc ∧ k.zalloc < (k.msg mp).bBand - (k.queue q).qBandp.length

/-- The insertions that go wrong. -/
def Mishandled (k : Kernel) (q : Nat) (left right : List Nat) (mp : Nat) : Prop :=
  HighBehind k left right mp ∨
    ¬ qpctl ≤ (k.msg mp).dbType ∧ badord q right.head? mp k = false ∧
      (Partial k q mp ∨ (k.msg mp).bBand - (k.queue q).qBandp.length ≤ k.zalloc ∧
        (BeforeHigh k right mp ∨ BehindOwn k left right mp))

section
variable {nMsg q mp : Nat} {k k' : Kernel} {left right : List Nat}

theorem Queued.between (queued : Queued nMsg k' q (left ++ mp :: right)) (framed : Framed k k' q mp (left ++ right))
    (loads : Loads k k' [mp]) : (∀ m ∈ left, k.key mp ≤ k.key m) ∧ ∀ m ∈ right, k.key m ≤ k.key mp := by
  obtain ⟨-, back, across⟩ := List.pairwise_append.mp queued.tallied.sorted
  have mine : k'.key mp = k.key mp := loads.key (List.mem_singleton.mpr rfl)
  have same {m : Nat} (member : m ∈ left ++ right) : k'.key m = k.key m := framed.loads.key member
  constructor
  · intro m member
    rw [← mine, ← same (mem_append_left _ member)]
    exact across m member mp (.head _)
  · intro m member
    rw [← mine, ← same (List.mem_append_right _ member)]
    exact (List.pairwise_cons.mp back).1 m member

theorem insqPlace_eq (queued : Queued nMsg k q (left ++ right)) : insqPlace q right.head? k = place left right := by
  cases right with
  | nil =>
    have last := queued.doubly.last_eq
    rw [append_nil] at last
    simp [insqPlace, place, last]
  | cons emp rest =>
    have prev : k.prev emp = left.getLast? := queued.doubly.prev_eq
    simp [insqPlace, place, beforeMsg, prev]

theorem qenable_quiet : Quiet (qenable q k) k := by
  unfold qenable
  split
  · exact .refl
  · split
    · exact .refl
    · refine ⟨rfl, fun other => ?_⟩
      by_cases here : other = q
      · subst here
        simpa [Kernel.setQueue] using (@rep_flags { k.queue other with qFlag := (k.queue other).qFlag ||| qenab }) _
      · simpa [Kernel.setQueue, here] using Rep.refl

theorem enabled_quiet {test : Prop} [Decidable test] : Quiet (if test then qenable q k else k) k := by
  split
  · exact qenable_quiet
  · exact .refl

theorem kept_true {test : Prop} [Decidable test] :
    Kept nMsg k q left right mp (some (if test then qenable q k' else k', true)) ↔ Queued nMsg k' q (left ++ mp :: right) := by
  constructor
  · rintro ⟨u, done, result, -, queued⟩
    cases result
    exact (queued rfl).congr (enabled_quiet.rep q) fun m _ => by rw [← enabled_quiet.msg]
  · intro queued
    exact ⟨_, true, rfl, nofun, fun _ => queued.congr (quiet_enabled.rep q) fun m _ => by rw [quiet_enabled.msg]⟩

section
variable (queued : Queued nMsg k q (left ++ right))
include queued

theorem insqForced_zero (known : mp < nMsg) (fresh : mp ∉ left ++ right)
    (valid : (k.msg mp).Valid) (zero : (k.msg mp).bBand = 0) (accepted : badord q right.head? mp k = false) :
    Kept nMsg k q left right mp (insqForced q right.head? mp k) ↔ ¬ HighBehind k left right mp ∧ ¬ BeforeHigh k right mp := by
  have found := congrArg some (insqPlace_eq queued)
  obtain ⟨k', result, framed, loads, keeps⟩ :=
    (@putZero_at nMsg q mp k left right fun _ _ _ k => some (insqPlace q right.head? k)) found queued fresh zero
  have run : insqForced q right.head? mp k =
      some (if (k'.queue q).qFlag &&& qnoenb = 0 ∧ (k'.queue q).qFlag &&& qwantr ≠ 0 then qenable q k' else k', true) := by
    simp [insqForced, accepted, zero, result]
  rw [run, kept_true, ← accepted_between queued valid accepted]
  constructor
  · exact fun queued => queued.between framed loads
  · rintro ⟨high, low⟩
    exact keeps known valid high low

theorem insqForced_band (known : mp < nMsg) (fresh : mp ∉ left ++ right)
    (valid : (k.msg mp).Valid) (positive : (k.msg mp).bBand ≠ 0) (accepted : badord q right.head? mp k = false) :
    Kept nMsg k q left right mp (insqForced q right.head? mp k) ↔
      ¬ (Partial k q mp ∨ (k.msg mp).bBand - (k.queue q).qBandp.length ≤ k.zalloc ∧
        (BeforeHigh k right mp ∨ BehindOwn k left right mp)) := by
  have had : (needBand q (k.msg mp).bBand k).2 = decide ((k.msg mp).bBand - (k.queue q).qBandp.length ≤ k.zalloc) :=
    addBands_found _
  have length := (@addBands_length q k ((k.msg mp).bBand - (k.queue q).qBandp.length))
  obtain ⟨quiet, record⟩ := (@needBand_quiet q (k.msg mp).bBand k)
  by_cases enough : (k.msg mp).bBand - (k.queue q).qBandp.length ≤ k.zalloc
  · -- The record is there.
    generalize more : (needBand q (k.msg mp).bBand k).1 = k₁ at *
    have same : k₁.msg = k.msg := quiet.msg
    have queued₁ : Queued nMsg k₁ q (left ++ right) := queued.congr (quiet.rep q) fun m _ => by rw [same]
    have records := record (by simpa [had] using enough)
    obtain ⟨qbp, entry⟩ : ∃ qbp, (k₁.queue q).qBandp[(k₁.msg mp).bBand - 1]? = some qbp :=
      ⟨_, List.getElem?_eq_getElem (by rw [same]; omega)⟩
    have found := congrArg some (insqPlace_eq queued₁)
    obtain ⟨k', new, result, framed, loads, there, last, keeps⟩ :=
      (@putBand_at nMsg q mp k₁ left right (fun _ _ _ k => some (insqPlace q right.head? k))
        (fun mp _ qbp => insqEnds k₁ right.head? mp qbp) qbp) entry found queued₁ fresh (by rw [same]; exact positive)
    have run : insqForced q right.head? mp k =
        some (if (k'.queue q).qFlag &&& qnoenb = 0 ∧ (k'.queue q).qFlag &&& qwantr ≠ 0 then qenable q k' else k', true) := by
      rw [same] at result
      simp [insqForced, accepted, positive, had, enough, more, result]
    rw [run, kept_true]
    have normal : ¬ qpctl ≤ (k.msg mp).dbType := fun high => positive (valid.1 high)
    have whole : ¬ Partial k q mp := fun part => absurd enough (Nat.not_le_of_lt part.2)
    have between := accepted_between queued valid accepted
    have keys (m : Nat) : k₁.key m = k.key m := by rw [Kernel.key, same]
    have own : BehindOwn k₁ left right mp ↔ BehindOwn k left right mp := by simp only [BehindOwn, same]
    have valid₁ : (k₁.msg mp).Valid := by rw [same]; exact valid
    have positive₁ : (k₁.msg mp).bBand ≠ 0 := by rw [same]; exact positive
    have index : (k₁.msg mp).bBand - 1 + 1 = (k₁.msg mp).bBand := by omega
    have core := queued₁.tallied.bands _ qbp entry
    rw [index] at core
    have first : qbp.qbFirst = (k₁.band (k₁.msg mp).bBand (left ++ right)).head? := congrArg (·.2.1) core
    have final : qbp.qbLast = (k₁.band (k₁.msg mp).bBand (left ++ right)).getLast? := congrArg (·.2.2) core
    have all : Loads k₁ k' (left ++ mp :: right) := fun m member => by
      rcases mem_cons.mp (List.perm_middle.mem_iff.mp member) with rfl | member
      · exact loads m (List.mem_singleton.mpr rfl)
      · exact framed.loads m member
    simp only [whole, enough, false_or, true_and, not_or]
    constructor
    · intro kept
      obtain ⟨high, low⟩ := kept.between framed loads
      simp only [keys] at high low
      refine ⟨(between.mp ⟨high, low⟩).2, fun behind => ?_⟩
      have ends := congrArg (·.2.2) (kept.tallied.bands _ new there)
      rw [index, Kernel.tally, all.band] at ends
      exact insqEnds_behind positive₁ fresh first final (own.mpr behind) (last.symm.trans ends)
    · rintro ⟨lower, apart⟩
      obtain ⟨high, low⟩ := between.mpr ⟨fun high => normal high.1, lower⟩
      simp only [← keys] at high low
      obtain ⟨one, two⟩ := insqEnds_marks queued₁ valid₁ positive₁ first final high low (fun behind => apart (own.mp behind))
      exact keeps known valid₁ high low one two
  · have run : insqForced q right.head? mp k = some ((needBand q (k.msg mp).bBand k).1, false) := by
      simp [insqForced, accepted, positive, had, enough]
    rw [run]
    simp only [enough, false_and, or_false]
    constructor
    · rintro ⟨u, done, result, unchanged, -⟩ ⟨some', few⟩
      cases result
      have grown := congrArg (fun qp => qp.qBandp.length) (unchanged rfl).1
      simp only [needBand, length] at grown
      omega
    · intro complete
      have none : k.zalloc = 0 := by
        by_contra some'
        exact complete ⟨Nat.pos_of_ne_zero some', Nat.lt_of_not_le enough⟩
      obtain ⟨n, more⟩ := Nat.exists_eq_succ_of_ne_zero (Nat.ne_of_gt (Nat.lt_of_not_le (none ▸ enough)))
      have same : (needBand q (k.msg mp).bBand k).1 = k := by
        rw [needBand, more]
        simp [addBands, none]
      rw [same]
      exact ⟨k, false, rfl, fun _ => ⟨rfl, fun _ _ => rfl⟩, by rintro ⟨⟩⟩

theorem insqForced_iff (known : mp < nMsg) (fresh : mp ∉ left ++ right)
    (valid : (k.msg mp).Valid) :
    Kept nMsg k q left right mp (insqForced q right.head? mp k) ↔ ¬ Mishandled k q left right mp := by
  unfold Mishandled
  cases accepted : badord q right.head? mp k with
  | true =>
    have refused : insqForced q right.head? mp k = some (k, false) := by simp [insqForced, accepted]
    rw [refused]
    refine iff_of_true ⟨k, false, rfl, fun _ => ⟨rfl, fun _ _ => rfl⟩, nofun⟩ ?_
    rintro (⟨high, rfl, -⟩ | ⟨-, wrong, -⟩)
    · have passed := ((@accepted_end nMsg q mp k left) queued).mpr fun _ _ normal => absurd high normal
      rw [head?_nil, passed] at accepted
      cases accepted
    · cases wrong
  | false =>
    by_cases positive : (k.msg mp).bBand = 0
    · rw [insqForced_zero queued known fresh valid positive accepted]
      have whole : ¬ Partial k q mp := by simp [Partial, positive]
      have apart : ¬ BehindOwn k left right mp := fun behind => behind.1 positive
      have normal : BeforeHigh k right mp → ¬ qpctl ≤ (k.msg mp).dbType := fun before => before.1
      simp only [positive, Nat.zero_sub, Nat.zero_le, whole, apart, true_and, or_false, false_or, not_or]
      tauto
    · rw [insqForced_band queued known fresh valid positive accepted]
      have normal : ¬ qpctl ≤ (k.msg mp).dbType := fun high => positive (valid.1 high)
      have behind : ¬ HighBehind k left right mp := fun behind => normal behind.1
      simp [normal, behind]

end

/-- `insq` keeps the queue in order, with exact ends of the bands, unless the insertion is
one of those that go wrong. -/
theorem insq_keeps_iff (queued : Queued nMsg k q (left ++ right)) (known : mp < nMsg) (fresh : mp ∉ left ++ right)
    (small : (k.msg mp).bBand ≤ 255) :
    Kept nMsg k q left right mp (insq q right.head? mp k) ↔ ¬ Mishandled k q left right mp := by
  unfold insq
  by_cases high : qpctl ≤ (k.msg mp).dbType
  · generalize forced : forceBand mp k = k₀
    rw [forceBand, if_pos (queclass_high high)] at forced
    have others {m : Nat} (member : m ∈ left ++ right) : k₀.msg m = k.msg m := by
      have differ : m ≠ mp := fun same => fresh (same ▸ member)
      simp [← forced, Kernel.setMsg, differ]
    have queue : k₀.queue = k.queue := by simp [← forced, Kernel.setMsg]
    have mine : k₀.msg mp = { k.msg mp with bBand := 0 } := by simp [← forced, Kernel.setMsg]
    have queued₀ : Queued nMsg k₀ q (left ++ right) := queued.congr (by rw [queue]; exact .refl) fun m => others
    have valid : (k₀.msg mp).Valid := by
      rw [mine]
      exact ⟨fun _ => rfl, Nat.zero_le _⟩
    have kept : Kept nMsg k q left right mp (insqForced q right.head? mp k₀) ↔
        Kept nMsg k₀ q left right mp (insqForced q right.head? mp k₀) := by
      refine exists₂_congr fun u done => and_congr_right fun _ => and_congr_left fun _ => ?_
      rw [queue]
      exact imp_congr_right fun _ => and_congr_right fun _ => forall₂_congr fun m member => by rw [others member]
    have behind : Mishandled k₀ q left right mp ↔ Mishandled k q left right mp := by
      have type : (k₀.msg mp).dbType = (k.msg mp).dbType := by rw [mine]
      have last {tmp : Nat} (last : left.getLast? = some tmp) : k₀.msg tmp = k.msg tmp :=
        others (mem_append_left _ (mem_of_getLast? last))
      simp only [Mishandled, HighBehind, type, high, not_true_eq_false, false_and, or_false, true_and]
      refine and_congr_right fun _ => exists_congr fun tmp => and_congr_right fun final => ?_
      rw [last final]
    rw [kept, ← behind]
    exact insqForced_iff queued₀ known fresh valid
  · have same : forceBand mp k = k := by
      rw [forceBand, queclass_normal high, if_neg (by decide)]
    rw [same]
    exact insqForced_iff queued known fresh ⟨fun wrong => absurd wrong high, small⟩

/-- A queue with a data message of band 1, and another such message. -/
def lone : Kernel where
  msg _ := ⟨none, none, 1, mData, []⟩
  queue _ := ⟨some 0, some 0, none, 0, 0, 2, 1, [⟨0, some 0, some 0, 2, 1, 0⟩], false⟩
  qrun := []
  qrunflag := false
  zalloc := 0

theorem lone_queued : Queued 2 lone 0 [0] := by
  have data : ¬ qpctl ≤ mData := by decide
  have valid : (lone.msg 0).Valid := ⟨fun high => absurd high data, by decide⟩
  refine ⟨⟨.cons .nil, .cons .nil⟩, ⟨List.pairwise_singleton _ _, ?_, ?_, ?_, rfl, fun i qbp entry => ?_⟩⟩
  · simpa using valid
  · intro m member
    exact Nat.le_refl 1
  · simp
  · cases i with
    | zero =>
      cases entry
      rfl
    | succ i => cases entry

/-- The other message is inserted before the first. -/
theorem insq_keeps_iff_front : Kept 2 lone 0 [] [0] 1 (insq 0 (some 0) 1 lone) := by
  refine ((@insq_keeps_iff 2 0 1 lone [] [0]) lone_queued (by decide) (by decide) (by decide)).mpr ?_
  rintro (⟨-, filled, -⟩ | ⟨-, -, ⟨positive, -⟩ | ⟨-, ⟨-, emp, first, high⟩ | ⟨-, filled, -⟩⟩⟩)
  · cases filled
  · cases positive
  · cases first
    cases high
  · cases filled

/-- At the end, the record of the band still has the first message as the last one. -/
theorem insq_forgets : Queued 2 lone 0 [0] ∧ ∃ k', insq 0 none 1 lone = some (k', true) ∧
    (k'.queue 0).qLast = some 1 ∧ (k'.msg 1).bBand = 1 ∧ (k'.queue 0).qBandp.map Qband.qbLast = [some 0] ∧
    ¬ Queued 2 k' 0 [0, 1] := by
  refine ⟨lone_queued, _, rfl, rfl, rfl, rfl, fun queued => ?_⟩
  have ends := congrArg (·.2.2) (queued.tallied.bands 0 _ rfl)
  cases ends

end

end Svr4.Streams
