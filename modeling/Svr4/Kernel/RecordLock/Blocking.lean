import Svr4.Kernel.RecordLock.Refinement

/-! `blocked` finds the first conflicting lock, and the place where `flckadj`
may begin. Together they make a granted request an assignment to the byte map.
-/

namespace Svr4.RecordLock

/-- A lock of another owner that keeps `request` from being granted. -/
def Conflicts (request held : Flock) : Prop :=
  held.owner ≠ request.owner ∧ held.lStart ≤ request.lEnd ∧ request.lStart ≤ held.lEnd ∧
    excludes held.lType request.lType

instance (request held : Flock) : Decidable (Conflicts request held) :=
  inferInstanceAs (Decidable (_ ∧ _))

section
variable {list : List Filock} {lckdat : Flock}

theorem blockedAfter_eq (sorted : list.Pairwise fun a b => a.set.lStart ≤ b.set.lStart) :
    blockedAfter lckdat list = list.find? fun f => Conflicts lckdat f.set := by
  induction list with
  | nil => rfl
  | cons f rest ih =>
    obtain ⟨first, tail⟩ := List.pairwise_cons.mp sorted
    unfold blockedAfter
    split
    · next late =>
      -- The list is sorted, so nothing behind `f` overlaps the request either.
      refine (List.find?_eq_none.mpr fun g member conflict => ?_).symm
      have order : f.set.lStart ≤ g.set.lStart := by
        rcases List.mem_cons.mp member with rfl | member
        · exact Int.le_refl _
        · exact first g member
      have overlap := (of_decide_eq_true conflict).2.1
      omega
    · next early =>
      simp only [List.find?_cons, ih tail]
      by_cases conflict : Conflicts lckdat f.set
      · have test : lckdat.lStart ≤ f.set.lEnd ∧ ¬ sameowner f.set lckdat ∧
            excludes f.set.lType lckdat.lType :=
          ⟨conflict.2.2.1, fun same => conflict.1 ((sameowner_iff _ _).mp same), conflict.2.2.2⟩
        simp [conflict, test]
      · have test : ¬ (lckdat.lStart ≤ f.set.lEnd ∧ ¬ sameowner f.set lckdat ∧
            excludes f.set.lType lckdat.lType) := by
          rintro ⟨overlap, other, types⟩
          exact conflict ⟨fun same => other ((sameowner_iff _ _).mpr same), by omega, overlap, types⟩
        simp [conflict, test]

theorem blockedFrom_fst (insrt : Option Addr) (range : lckdat.lStart ≤ lckdat.lEnd)
    (sorted : list.Pairwise fun a b => a.set.lStart ≤ b.set.lStart) :
    (blockedFrom lckdat insrt list).1 = list.find? fun f => Conflicts lckdat f.set := by
  induction list generalizing insrt with
  | nil => rfl
  | cons f rest ih =>
    obtain ⟨_, tail⟩ := List.pairwise_cons.mp sorted
    unfold blockedFrom
    split
    · next early =>
      split
      · next same =>
        have none : ¬ Conflicts lckdat f.set := fun conflict =>
          conflict.1 ((sameowner_iff _ _).mp same)
        split
        · exact blockedAfter_eq sorted
        · rw [ih _ tail]
          simp [none]
      · next other =>
        split
        · next test =>
          have conflict : Conflicts lckdat f.set :=
            ⟨fun same => other ((sameowner_iff _ _).mpr same), by omega, test.1, test.2⟩
          simp [conflict]
        · next test =>
          have none : ¬ Conflicts lckdat f.set := fun conflict => test ⟨conflict.2.2.1, conflict.2.2.2⟩
          rw [ih _ tail]
          simp [none]
    · exact blockedAfter_eq sorted

theorem blocked_fst (range : lckdat.lStart ≤ lckdat.lEnd) (ordered : Ordered list) :
    (blocked list lckdat).1 = list.find? fun f => Conflicts lckdat f.set :=
  blockedFrom_fst none range ordered.sorted

theorem blocked_some {found : Filock} (range : lckdat.lStart ≤ lckdat.lEnd) (ordered : Ordered list)
    (first : (blocked list lckdat).1 = some found) : found ∈ list ∧ Conflicts lckdat found.set := by
  rw [blocked_fst range ordered] at first
  exact ⟨List.mem_of_find?_eq_some first, by simpa using List.find?_some first⟩

end

/-- `insrt` is a place where the walk of `flckadj` may begin. -/
def Begins (list : List Filock) (ld : Flock) (insrt : Option Addr) : Prop :=
  ∃ before nodes, list = before ++ nodes ∧ visited list insrt = some nodes ∧
    (∀ f ∈ before, f.set.owner = ld.owner → f.set.lEnd < ld.lStart) ∧ Place list ld.lStart insrt

section
variable {list before rest : List Filock} {ld : Flock} {f : Filock}

theorem Begins.at_node (ordered : Ordered (before ++ f :: rest))
    (passed : ∀ f ∈ before, f.set.owner = ld.owner → f.set.lEnd < ld.lStart)
    (early : f.set.lStart < ld.lStart) : Begins (before ++ f :: rest) ld (some f.addr) :=
  ⟨before, f :: rest, rfl, suffixAt_append ordered.absent, passed, f, by simp, rfl, Int.le_of_lt early⟩

theorem Begins.behind (ordered : Ordered (before ++ rest))
    (passed : ∀ f ∈ before, f.set.owner = ld.owner → f.set.lEnd < ld.lStart)
    (early : ∀ f ∈ before, f.set.lStart < ld.lStart) (late : ∀ f ∈ rest, ld.lStart ≤ f.set.lStart) :
    Begins (before ++ rest) ld (before.getLast?.map Filock.addr) := by
  cases before using List.reverseRecOn with
  | nil => exact ⟨[], rest, rfl, rfl, by simp, by simpa [Place] using late⟩
  | append_singleton init last =>
    have shape : init ++ [last] ++ rest = init ++ last :: rest := by simp
    rw [shape] at ordered ⊢
    simp only [List.getLast?_append, List.getLast?_singleton, Option.some_or, Option.map_some]
    exact .at_node ordered (fun f member => passed f (by simp [member])) (early last (by simp))

theorem blockedFrom_begins (nodes : List Filock) (ordered : Ordered (before ++ nodes))
    (passed : ∀ f ∈ before, f.set.owner = ld.owner → f.set.lEnd < ld.lStart)
    (early : ∀ f ∈ before, f.set.lStart < ld.lStart) :
    Begins (before ++ nodes) ld (blockedFrom ld (before.getLast?.map Filock.addr) nodes).2 := by
  induction nodes generalizing before with
  | nil => exact .behind ordered passed early (by simp)
  | cons f rest ih =>
    have further (passed' : f.set.owner = ld.owner → f.set.lEnd < ld.lStart)
        (start : f.set.lStart < ld.lStart) :
        Begins (before ++ f :: rest) ld (blockedFrom ld (some f.addr) rest).2 := by
      have step := (@ih (before ++ [f])) (by simpa using ordered)
        (by simpa [or_imp, forall_and] using ⟨passed, passed'⟩)
        (by simpa [or_imp, forall_and] using ⟨early, start⟩)
      simpa using step
    unfold blockedFrom
    split
    · next start =>
      split
      · split
        · exact .at_node ordered passed start
        · next touch => exact further (fun _ => by omega) start
      · next other =>
        split
        · exact .at_node ordered passed start
        · exact further (fun same => absurd ((sameowner_iff _ _).mpr same) other) start
    · next start =>
      refine .behind ordered passed early fun g member => ?_
      rcases List.mem_cons.mp member with rfl | member
      · omega
      · have := (List.pairwise_cons.mp (List.pairwise_append.mp ordered.sorted).2.1).1 g member
        omega

theorem blocked_begins (ordered : Ordered list) : Begins list ld (blocked list ld).2 := by
  simpa [blocked] using (@blockedFrom_begins []) list ordered (by simp) (by simp)

end

/-- The place where `reclock` starts the update: the head of the list for an
unlock, else what `blocked` computed when it found no conflict. -/
def Starts (list : List Filock) (ld : Flock) (insrt : Option Addr) : Prop :=
  match ld.lType with
  | .unlck => insrt = list.head?.map Filock.addr
  | .rdlck | .wrlck => blocked list ld = (none, insrt)
  | .other _ => False

theorem flckadj_starts {used : Addr → Prop} (kmem : Kmem used) {list : List Filock} {ld : Flock}
    {insrt : Option Addr} (ordered : Ordered list) (range : ld.lStart ≤ ld.lEnd)
    (starts : Starts list ld insrt) :
    ∃ result, flckadj kmem list insrt ld = some result ∧ AdjustedOk list ld result := by
  have granted (kind : ld.lType = .rdlck ∨ ld.lType = .wrlck) (free : blocked list ld = (none, insrt)) :
      ∃ result, flckadj kmem list insrt ld = some result ∧ AdjustedOk list ld result := by
    obtain ⟨before, nodes, shape, begins, passed, place⟩ := blocked_begins ordered
    rw [free] at begins place
    exact flckadj_ok kmem ordered range (by tauto) shape begins passed fun _ => place
  unfold Starts at starts
  split at starts
  · next unlock =>
    refine (@flckadj_ok _ kmem _ []) ordered range (by simp [unlock]) rfl ?_ (by simp)
      fun typed => absurd unlock typed
    subst starts
    cases list <;> simp [visited, suffixAt]
  · next kind => exact granted (.inl kind) starts
  · next kind => exact granted (.inr kind) starts
  · exact starts.elim

/-- Locks of different owners conflict nowhere. -/
def Compatible (list : List Filock) : Prop :=
  ∀ f ∈ list, ∀ g ∈ list, f.set.owner ≠ g.set.owner → ¬ f.set.Apart g.set →
    f.set.lType ≠ .wrlck ∧ g.set.lType ≠ .wrlck

section
variable {list : List Filock} {ld : Flock}

theorem Compatible.of_sets {list' : List Filock} (compatible : Compatible list)
    (sets : ∀ f ∈ list', ∃ g ∈ list, g.set = f.set) : Compatible list' := by
  intro f hf g hg
  obtain ⟨f', hf', same⟩ := sets f hf
  obtain ⟨g', hg', same'⟩ := sets g hg
  rw [← same, ← same']
  exact compatible f' hf' g' hg'

theorem compatible_iff (range : ∀ f ∈ list, f.set.lStart ≤ f.set.lEnd) :
    Compatible list ↔ ∀ o o' b t t', o ≠ o' → Holds list o b t → Holds list o' b t' →
      t ≠ .wrlck ∧ t' ≠ .wrlck := by
  constructor
  · rintro compatible o o' b t t' distinct ⟨f, hf, rfl, fl, fh, rfl⟩ ⟨g, hg, rfl, gl, gh, rfl⟩
    refine compatible f hf g hg distinct ?_
    unfold Flock.Apart
    omega
  · intro bytes f hf g hg distinct meet
    have hfr := range f hf
    have hgr := range g hg
    unfold Flock.Apart at meet
    -- The later of the two starts is a common byte.
    refine bytes _ _ (max f.set.lStart g.set.lStart) _ _ distinct
      ⟨f, hf, rfl, ?_, ?_, rfl⟩ ⟨g, hg, rfl, ?_, ?_, rfl⟩ <;> omega

theorem Starts.free {insrt : Option Addr} (starts : Starts list ld insrt) (ordered : Ordered list)
    (range : ld.lStart ≤ ld.lEnd) (typed : ld.lType ≠ .unlck) : ∀ f ∈ list, ¬ Conflicts ld f.set := by
  have free : (blocked list ld).1 = none := by
    unfold Starts at starts
    split at starts
    · next unlock => exact absurd unlock typed
    · simp [starts]
    · simp [starts]
    · exact starts.elim
  rw [blocked_fst range ordered] at free
  intro f member conflict
  exact List.find?_eq_none.mp free f member (decide_eq_true conflict)

theorem AdjustedOk.compatible {result : Adjusted} (ok : AdjustedOk list ld result) (ordered : Ordered list)
    (compatible : Compatible list) (free : ld.lType ≠ .unlck → ∀ f ∈ list, ¬ Conflicts ld f.set) :
    Compatible result.list := by
  have bytes := (compatible_iff ordered.range).mp compatible
  rw [compatible_iff ok.ordered.range]
  by_cases done : result.retval = none
  · -- A new byte of the requester meets only old bytes, which `free` excludes.
    have fresh {o o' : Owner} {b : Int} {t t' : LockType} (distinct : o ≠ o')
        (here : o = ld.owner ∧ ld.lStart ≤ b ∧ b ≤ ld.lEnd) (type : ld.lType = t ∧ t ≠ .unlck)
        (held : Holds list o' b t') : t ≠ .wrlck ∧ t' ≠ .wrlck := by
      obtain ⟨g, member, rfl, low, high, rfl⟩ := held
      obtain ⟨rfl, typed⟩ := type
      have kind := ordered.kind g member
      have none := free typed g member
      unfold Conflicts excludes at none
      have distinct' : g.set.owner ≠ ld.owner := fun same => distinct (here.1.trans same.symm)
      constructor
      · intro write
        exact none ⟨distinct', by omega, by omega, by tauto⟩
      · intro write
        exact none ⟨distinct', by omega, by omega, .inl write⟩
    intro o o' b t t' distinct left right
    rw [ok.done done] at left right
    unfold Overlaid at left right
    split at left
    · next here =>
      have other : ¬ (o' = ld.owner ∧ ld.lStart ≤ b ∧ b ≤ ld.lEnd) := fun there =>
        distinct (here.1.trans there.1.symm)
      rw [if_neg other] at right
      exact fresh distinct here left right
    · split at right
      · next there => exact (fresh distinct.symm there right left).symm
      · exact bytes o o' b t t' distinct left right
  · intro o o' b t t' distinct left right
    exact bytes o o' b t t' distinct (ok.failed done o b t left) (ok.failed done o' b t' right)

end

/-- An allocator that always finds memory, above the addresses in use. -/
def Kmem.above {used : Addr → Prop} (bound : Addr) (below : ∀ addr, used addr → addr < bound) :
    Kmem used where
  zalloc list := some (bound + (addrs list).max?.getD 0 + 1)
  fresh := by
    intro list addr found
    obtain rfl := Option.some.inj found
    refine ⟨fun member => ?_, fun inUse => ?_⟩
    · have := List.le_max?_getD_of_mem (k := 0) member
      omega
    · exact absurd (below _ inUse) (by simp only [Addr] at *; omega)

/-- A granted request or an unlock assigns to the requester's bytes and to
nothing else, and leaves the list ordered and free of conflicts. -/
theorem flckadj_assigns {used : Addr → Prop} (kmem : Kmem used) (list : List Filock) (ld : Flock)
    (insrt : Option Addr) (ordered : Ordered list) (compatible : Compatible list)
    (range : ld.lStart ≤ ld.lEnd) (starts : Starts list ld insrt) :
    ∃ result, flckadj kmem list insrt ld = some result ∧ (result.retval = none →
      (∀ o b, lockMap result.list o b =
        if o = ld.owner ∧ ld.lStart ≤ b ∧ b ≤ ld.lEnd then ld.lType.left else lockMap list o b) ∧
      Ordered result.list ∧ Compatible result.list) := by
  obtain ⟨result, returned, ok⟩ := flckadj_starts kmem ordered range starts
  refine ⟨result, returned, fun done => ⟨fun o b => ?_, ok.ordered,
    ok.compatible ordered compatible (starts.free ordered range)⟩⟩
  refine Option.ext fun t => ?_
  rw [lockMap_eq_some_iff ok.ordered, ok.done done]
  unfold Overlaid
  split
  · cases type : ld.lType <;> simp [LockType.left, eq_comm] <;> rintro rfl <;> simp
  · rw [lockMap_eq_some_iff ordered]

/-- A reader's lock in the middle of its own write lock, next to another reader. -/
theorem flckadj_assigns_middle :
    let list : List Filock := [⟨1, ⟨.wrlck, 0, 0, 9, 0, 1⟩, ⟨0, 0⟩⟩, ⟨2, ⟨.rdlck, 0, 20, 29, 0, 2⟩, ⟨0, 0⟩⟩]
    let ld : Flock := ⟨.rdlck, 0, 3, 5, 0, 1⟩
    ∃ result, flckadj ((@Kmem.above (fun _ => False)) 10 nofun) list (some 1) ld = some result ∧
      result.retval = none ∧ lockMap result.list ⟨1, 0⟩ 4 = some .rdlck ∧
      lockMap result.list ⟨1, 0⟩ 6 = lockMap list ⟨1, 0⟩ 6 := by
  intro list ld
  have ordered : Ordered list :=
    ⟨by simp [list], by simp [list, Flock.owner], by simp [list], by simp [list], by simp [list, addrs]⟩
  have compatible : Compatible list := by simp [list, Compatible, Flock.owner, Flock.Apart]
  have starts : Starts list ld (some 1) := by simp only [Starts, ld]; decide
  obtain ⟨result, returned, assigned⟩ := flckadj_assigns ((@Kmem.above (fun _ => False)) 10 nofun)
    list ld (some 1) ordered compatible (by decide) starts
  have done : result.retval = none := by
    have value : (flckadj ((@Kmem.above (fun _ => False)) 10 nofun) list (some 1) ld).map
        Adjusted.retval = some none := by decide
    rw [returned] at value
    exact Option.some.inj value
  obtain ⟨map, _⟩ := assigned done
  exact ⟨result, returned, done, by rw [map]; decide, by rw [map]; decide⟩

end Svr4.RecordLock
