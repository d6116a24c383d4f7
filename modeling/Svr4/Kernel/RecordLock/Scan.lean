import Mathlib.Data.List.Find
import Svr4.Kernel.RecordLock.Blocking

/-! `blocked` against the scan it stands for: the first lock that excludes the
request, and a starting place behind which all of the requester's locks lie
that the request may change.
-/

namespace Svr4.RecordLock

/-- A lock without a common byte whose last byte stands next to the other's first. -/
def Flock.Adjoins (a b : Flock) : Prop := a.lEnd + 1 = b.lStart ∨ b.lEnd + 1 = a.lStart

/-- The scan: `held` overlaps the request, and one of the two is a write lock. -/
def Denies (request held : Flock) : Prop :=
  held.owner ≠ request.owner ∧ ¬ held.Apart request ∧ (held.lType = .wrlck ∨ request.lType = .wrlck)

instance (a b : Flock) : Decidable (a.Apart b) := inferInstanceAs (Decidable (_ ∨ _))
instance (request held : Flock) : Decidable (Denies request held) := inferInstanceAs (Decidable (_ ∧ _))

/-- The nodes before the one at `insrt`; none of them when `insrt` is NULL. -/
def preceding (list : List Filock) : Option Addr → List Filock
  | none => []
  | some addr => list.takeWhile fun f => f.addr ≠ addr

section
variable {list before rest : List Filock} {ld : Flock} {f : Filock}

theorem preceding_append (absent : f.addr ∉ addrs before) :
    preceding (before ++ f :: rest) (some f.addr) = before := by
  induction before with
  | nil => simp [preceding]
  | cons head before ih =>
    simp only [addrs, List.map_cons, List.mem_cons, not_or] at absent
    have tail := ih absent.2
    simp only [preceding, List.cons_append] at tail ⊢
    rw [List.takeWhile_cons_of_pos (by simpa using Ne.symm absent.1), tail]

theorem conflicts_iff (kind : f.set.lType = .rdlck ∨ f.set.lType = .wrlck) :
    Conflicts ld f.set ↔ Denies ld f.set := by
  have types : excludes f.set.lType ld.lType ↔ f.set.lType = .wrlck ∨ ld.lType = .wrlck := by
    unfold excludes
    rcases kind with kind | kind <;> simp [kind]
  unfold Conflicts Denies Flock.Apart
  rw [types]
  constructor
  · rintro ⟨other, low, high, write⟩
    exact ⟨other, by omega, write⟩
  · rintro ⟨other, meets, write⟩
    exact ⟨other, by omega, by omega, write⟩

/-- A place before which no lock of the requester reaches the byte before the request. -/
def Skips (list : List Filock) (ld : Flock) : Option Addr → Prop
  | none => True
  | some addr => ∃ before f rest, list = before ++ f :: rest ∧ f.addr = addr ∧
      ∀ g ∈ before, g.set.owner = ld.owner → g.set.lEnd + 1 < ld.lStart

theorem Skips.behind (nodes : List Filock)
    (passed : ∀ f ∈ before, f.set.owner = ld.owner → f.set.lEnd + 1 < ld.lStart) :
    Skips (before ++ nodes) ld (before.getLast?.map Filock.addr) := by
  cases before using List.reverseRecOn with
  | nil => trivial
  | append_singleton init last =>
    simp only [List.getLast?_append, List.getLast?_singleton, Option.some_or, Option.map_some]
    exact ⟨init, last, nodes, by simp, rfl, fun g member => passed g (by simp [member])⟩

theorem blockedFrom_skips (nodes : List Filock)
    (passed : ∀ f ∈ before, f.set.owner = ld.owner → f.set.lEnd + 1 < ld.lStart) :
    Skips (before ++ nodes) ld (blockedFrom ld (before.getLast?.map Filock.addr) nodes).2 := by
  induction nodes generalizing before with
  | nil => exact .behind [] passed
  | cons f rest ih =>
    have further (own : f.set.owner = ld.owner → f.set.lEnd + 1 < ld.lStart) :
        Skips (before ++ f :: rest) ld (blockedFrom ld (some f.addr) rest).2 := by
      have passed' : ∀ g ∈ before ++ [f], g.set.owner = ld.owner → g.set.lEnd + 1 < ld.lStart := by
        simpa [or_imp, forall_and] using ⟨passed, own⟩
      have step := (@ih (before ++ [f])) passed'
      simpa using step
    have here : Skips (before ++ f :: rest) ld (some f.addr) := ⟨before, f, rest, rfl, rfl, passed⟩
    unfold blockedFrom
    split
    · split
      · split
        · exact here
        · exact further fun _ => by omega
      · next other =>
        split
        · exact here
        · exact further fun same => absurd ((sameowner_iff _ _).mpr same) other
    · exact .behind (f :: rest) passed

/-- `blocked` answers as the plain scan does, and no lock of the requester that
the request overlaps or adjoins comes before the place it gives. -/
theorem blocked_scan (list : List Filock) (req : Flock) (ordered : Ordered list)
    (range : req.lStart ≤ req.lEnd) :
    ((blocked list req).1 ≠ none ↔ ∃ f ∈ list, Denies req f.set) ∧
      (blocked list req).1 = list.find? (fun f => Denies req f.set) ∧
      ∀ insrt, blocked list req = (none, insrt) →
        (∀ addr, insrt = some addr → addr ∈ addrs list) ∧
        ∀ f ∈ preceding list insrt, f.set.owner = req.owner →
          f.set.Apart req ∧ ¬ f.set.Adjoins req := by
  have first : (blocked list req).1 = list.find? fun f => Denies req f.set := by
    rw [blocked_fst range ordered]
    exact List.find?_congr fun f member => decide_eq_decide.mpr (conflicts_iff (ordered.kind f member))
  refine ⟨?_, first, ?_⟩
  · rw [first, ne_eq, List.find?_eq_none]
    simp
  · intro insrt answer
    have skips := (@blockedFrom_skips [] req) list (by simp)
    have place : (blockedFrom req none list).2 = insrt := congrArg Prod.snd answer
    simp only [List.getLast?_nil, Option.map_none, List.nil_append, place] at skips
    cases insrt with
    | none => exact ⟨by simp, by simp [preceding]⟩
    | some addr =>
      obtain ⟨before, f, rest, rfl, rfl, passed⟩ := skips
      refine ⟨fun _ same => by simp [addrs, Option.some.inj same.symm], fun g member own => ?_⟩
      rw [preceding_append ordered.absent] at member
      have ends := passed g member own
      have held := ordered.range g (List.mem_append_left _ member)
      constructor
      · exact Or.inl (by omega)
      · unfold Flock.Adjoins
        omega

/-- The requester's own lock next to the request hides another owner's behind it. -/
theorem blocked_scan_hidden :
    let list : List Filock := [⟨1, ⟨.rdlck, 0, 0, 2, 0, 1⟩, ⟨0, 0⟩⟩, ⟨2, ⟨.rdlck, 0, 3, 4, 0, 1⟩, ⟨0, 0⟩⟩,
      ⟨3, ⟨.rdlck, 0, 4, 30, 0, 2⟩, ⟨0, 0⟩⟩]
    (blocked list ⟨.wrlck, 0, 5, 9, 0, 1⟩).1 = list.find? (fun f => Denies ⟨.wrlck, 0, 5, 9, 0, 1⟩ f.set) ∧
      (∃ f ∈ list, Denies ⟨.wrlck, 0, 5, 9, 0, 1⟩ f.set) := by
  intro list
  have ordered : Ordered list :=
    ⟨by simp [list], by simp [list, Flock.owner, Flock.Apart], by simp [list], by simp [list], by simp [list, addrs]⟩
  obtain ⟨found, first, _⟩ := blocked_scan list ⟨.wrlck, 0, 5, 9, 0, 1⟩ ordered (by decide)
  exact ⟨first, found.mp (by decide)⟩

end

end Svr4.RecordLock
