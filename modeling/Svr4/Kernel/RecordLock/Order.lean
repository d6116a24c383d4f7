import Mathlib.Data.List.Pairwise
import Svr4.Kernel.RecordLock.Adjust

/-! Ordered lock lists and the bytes they hold.

Every edit of `flckadj` removes or adds one node, so both notions are given by
what one node contributes to the list around it.
-/

namespace Svr4.RecordLock

open List (pairwise_append mem_append map_append mem_cons)

/-- Two locks without a common byte. -/
def Flock.Apart (a b : Flock) : Prop := a.lEnd < b.lStart ∨ b.lEnd < a.lStart

/-- A list sorted by start in which every owner's locks are disjoint. -/
structure Ordered (list : List Filock) : Prop where
  sorted : list.Pairwise fun a b => a.set.lStart ≤ b.set.lStart
  disjoint : list.Pairwise fun a b => a.set.owner = b.set.owner → a.set.Apart b.set
  range : ∀ f ∈ list, f.set.lStart ≤ f.set.lEnd
  kind : ∀ f ∈ list, f.set.lType = .rdlck ∨ f.set.lType = .wrlck
  distinct : (addrs list).Nodup

/-- What a node needs to stand between `before` and `rest`. -/
structure Fits (node : Filock) (before rest : List Filock) : Prop where
  below : ∀ f ∈ before, f.set.lStart ≤ node.set.lStart
  above : ∀ f ∈ rest, node.set.lStart ≤ f.set.lStart
  apart : ∀ f ∈ before ++ rest, f.set.owner = node.set.owner → f.set.Apart node.set
  range : node.set.lStart ≤ node.set.lEnd
  kind : node.set.lType = .rdlck ∨ node.set.lType = .wrlck
  fresh : node.addr ∉ addrs (before ++ rest)

section
variable {before rest : List Filock} {node : Filock}

theorem Ordered.nil : Ordered [] :=
  ⟨.nil, .nil, List.forall_mem_nil _, List.forall_mem_nil _, .nil⟩

theorem Ordered.sublist {list list' : List Filock} (ordered : Ordered list) (sub : list'.Sublist list) :
    Ordered list' where
  sorted := ordered.sorted.sublist sub
  disjoint := ordered.disjoint.sublist sub
  range f member := ordered.range f (sub.subset member)
  kind f member := ordered.kind f (sub.subset member)
  distinct := ordered.distinct.sublist (sub.map _)

theorem Ordered.drop (ordered : Ordered (before ++ node :: rest)) : Ordered (before ++ rest) :=
  ordered.sublist (by simp)

theorem Ordered.fits (ordered : Ordered (before ++ node :: rest)) : Fits node before rest where
  below f member := (pairwise_append.mp ordered.sorted).2.2 f member node (by simp)
  above f member :=
    (List.pairwise_cons.mp (pairwise_append.mp ordered.sorted).2.1).1 f member
  apart f member same := by
    obtain ⟨_, tail, across⟩ := pairwise_append.mp ordered.disjoint
    rcases mem_append.mp member with member | member
    · exact across f member node (by simp) same
    · exact ((List.pairwise_cons.mp tail).1 f member same.symm).symm
  range := ordered.range node (by simp)
  kind := ordered.kind node (by simp)
  fresh := by
    have distinct := ordered.distinct
    simp only [addrs, map_append, List.map_cons, List.nodup_append, List.nodup_cons] at distinct
    obtain ⟨_, ⟨absent, _⟩, across⟩ := distinct
    simp only [addrs, map_append, mem_append, not_or]
    exact ⟨fun member => across _ member _ (by simp) rfl, absent⟩

theorem Ordered.insert (ordered : Ordered (before ++ rest)) (fits : Fits node before rest) :
    Ordered (before ++ node :: rest) where
  sorted := by
    obtain ⟨left, right, across⟩ := pairwise_append.mp ordered.sorted
    refine pairwise_append.mpr ⟨left, List.pairwise_cons.mpr ⟨fits.above, right⟩, ?_⟩
    intro f member g other
    rcases mem_cons.mp other with rfl | other
    · exact fits.below f member
    · exact across f member g other
  disjoint := by
    obtain ⟨left, right, across⟩ := pairwise_append.mp ordered.disjoint
    refine pairwise_append.mpr ⟨left, List.pairwise_cons.mpr ⟨?_, right⟩, ?_⟩
    · intro f member same
      exact (fits.apart f (List.mem_append_right _ member) same.symm).symm
    · intro f member g other same
      rcases mem_cons.mp other with rfl | other
      · exact fits.apart f (List.mem_append_left _ member) same
      · exact across f member g other same
  range f member := by
    rcases mem_append.mp member with member | member
    · exact ordered.range f (List.mem_append_left _ member)
    · rcases mem_cons.mp member with rfl | member
      · exact fits.range
      · exact ordered.range f (List.mem_append_right _ member)
  kind f member := by
    rcases mem_append.mp member with member | member
    · exact ordered.kind f (List.mem_append_left _ member)
    · rcases mem_cons.mp member with rfl | member
      · exact fits.kind
      · exact ordered.kind f (List.mem_append_right _ member)
  distinct := by
    have distinct := ordered.distinct
    have fresh := fits.fresh
    simp only [addrs, map_append, List.map_cons, List.nodup_append, List.nodup_cons,
      mem_append, not_or] at distinct fresh ⊢
    obtain ⟨left, right, across⟩ := distinct
    refine ⟨left, ⟨fresh.2, right⟩, ?_⟩
    intro a member b other
    rcases mem_cons.mp other with rfl | other
    · rintro rfl
      exact fresh.1 member
    · exact across a member b other

section
variable (ordered : Ordered (before ++ node :: rest))
include ordered

theorem Ordered.absent : node.addr ∉ addrs before :=
  fun member => ordered.fits.fresh (by
    simp only [addrs, map_append, mem_append]
    exact .inl member)

theorem Ordered.passed {f : Filock} (member : f ∈ before)
    (same : f.set.owner = node.set.owner) : f.set.lEnd < node.set.lStart := by
  have order := ordered.fits.below f member
  have range := ordered.fits.range
  rcases ordered.fits.apart f (List.mem_append_left _ member) same with apart | apart
  · exact apart
  · omega

theorem Ordered.ahead {f : Filock} (member : f ∈ rest)
    (same : f.set.owner = node.set.owner) : node.set.lEnd < f.set.lStart := by
  have order := ordered.fits.above f member
  have range := ordered.range f (by simp [member])
  rcases ordered.fits.apart f (List.mem_append_right _ member) same with apart | apart
  · omega
  · exact apart

end

end

/-- `lock` gives byte `b` of owner `o` the type `t`. -/
def Flock.Covers (lock : Flock) (o : Owner) (b : Int) (t : LockType) : Prop :=
  lock.owner = o ∧ lock.lStart ≤ b ∧ b ≤ lock.lEnd ∧ lock.lType = t

instance (lock : Flock) (o : Owner) (b : Int) (t : LockType) : Decidable (lock.Covers o b t) :=
  inferInstanceAs (Decidable (_ ∧ _))

def Holds (list : List Filock) (o : Owner) (b : Int) (t : LockType) : Prop :=
  ∃ f ∈ list, f.set.Covers o b t

/-- The map (owner, byte) to lock type that a list stands for. -/
def lockMap (list : List Filock) (o : Owner) (b : Int) : Option LockType :=
  (list.find? fun f => f.set.owner = o ∧ f.set.lStart ≤ b ∧ b ≤ f.set.lEnd).map (·.set.lType)

/-- The type a request leaves behind on its bytes. -/
def LockType.left : LockType → Option LockType
  | .unlck => none
  | t => some t

theorem holds_split (before rest : List Filock) (node : Filock) (o : Owner) (b : Int) (t : LockType) :
    Holds (before ++ node :: rest) o b t ↔ node.set.Covers o b t ∨ Holds (before ++ rest) o b t := by
  simp only [Holds, mem_append, mem_cons]
  constructor
  · rintro ⟨f, member | rfl | member, covers⟩
    · exact .inr ⟨f, .inl member, covers⟩
    · exact .inl covers
    · exact .inr ⟨f, .inr member, covers⟩
  · rintro (covers | ⟨f, member | member, covers⟩)
    · exact ⟨node, .inr (.inl rfl), covers⟩
    · exact ⟨f, .inl member, covers⟩
    · exact ⟨f, .inr (.inr member), covers⟩

variable {list : List Filock} {b : Int} {o : Owner}

theorem Ordered.eq_of_common (ordered : Ordered list) {f g : Filock}
    (hf : f ∈ list) (hg : g ∈ list) (same : f.set.owner = g.set.owner)
    (fb : f.set.lStart ≤ b ∧ b ≤ f.set.lEnd) (gb : g.set.lStart ≤ b ∧ b ≤ g.set.lEnd) : f = g := by
  by_contra distinct
  have symmetric : Std.Symm fun a b : Filock => a.set.owner = b.set.owner → a.set.Apart b.set :=
    ⟨fun _ _ apart same => (apart same.symm).symm⟩
  have apart := ordered.disjoint.forall hf hg distinct same
  unfold Flock.Apart at apart
  omega

theorem Ordered.holds_unique (ordered : Ordered list)
    {t t' : LockType} (left : Holds list o b t) (right : Holds list o b t') : t = t' := by
  obtain ⟨f, hf, fo, fl, fh, rfl⟩ := left
  obtain ⟨g, hg, go, gl, gh, rfl⟩ := right
  rw [ordered.eq_of_common hf hg (fo.trans go.symm) ⟨fl, fh⟩ ⟨gl, gh⟩]

theorem lockMap_eq_some_iff (ordered : Ordered list)
    {t : LockType} : lockMap list o b = some t ↔ Holds list o b t := by
  constructor
  · intro found
    obtain ⟨f, selected, rfl⟩ := Option.map_eq_some_iff.mp found
    have covers := List.find?_some selected
    simp only [decide_eq_true_eq] at covers
    exact ⟨f, List.mem_of_find?_eq_some selected, covers.1, covers.2.1, covers.2.2, rfl⟩
  · rintro ⟨f, member, owner, low, high, rfl⟩
    cases selected : list.find? fun f => f.set.owner = o ∧ f.set.lStart ≤ b ∧ b ≤ f.set.lEnd with
    | none =>
      have absent := List.find?_eq_none.mp selected f member
      simp [owner, low, high] at absent
    | some g =>
      have covers := List.find?_some selected
      simp only [decide_eq_true_eq] at covers
      have same := ordered.eq_of_common member (List.mem_of_find?_eq_some selected)
        (owner.trans covers.1.symm) ⟨low, high⟩ covers.2
      rw [lockMap, selected, same]
      rfl

end Svr4.RecordLock
