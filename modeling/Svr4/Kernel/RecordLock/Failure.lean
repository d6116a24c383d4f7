import Svr4.Kernel.RecordLock.Scan

/-! `flckadj` when memory runs out.

The walk gives up bytes of the requester's locks before it allocates the piece
behind the request or the new lock. A lock that goes without trace is never
restored, so the map is what it was only if the walk had nothing to change, or
if the first thing it had to change was the split that failed.
-/

namespace Svr4.RecordLock

open Option (some map_some bind_eq_bind bind_some)

/-- `held` overlaps the request, or adjoins it and can be joined to it. -/
def Flock.Touches (held ld : Flock) : Prop :=
  ¬ held.Apart ld ∨ held.lType = ld.lType ∧ held.Adjoins ld

/-- The piece of `held` behind the request would need a node, and there is no memory for it. -/
def Starved (zalloc : List Filock → Option Addr) (list : List Filock) (ld held : Flock) : Prop :=
  held.lType ≠ ld.lType ∧ ld.lEnd < held.lEnd ∧ zalloc list = none

/-- The walk has nothing to change, or fails at the only lock that it has to change. -/
def Spared (zalloc : List Filock → Option Addr) (list : List Filock) (ld : Flock) : Prop :=
  (∀ f ∈ list, f.set.owner = ld.owner → ¬ f.set.Touches ld) ∨
    ∃ f ∈ list, Starved zalloc list ld f.set ∧
      ∀ g ∈ list, g.set.owner = ld.owner → (g.set.Touches ld ↔ g = f)

/-- Some owner has lost a byte. -/
def Lost (list list' : List Filock) : Prop :=
  ∃ o b t, Holds list o b t ∧ ¬ Holds list' o b t

/-- What a failed call leaves, and whether it was spared. -/
def Fate (zalloc : List Filock → Option Addr) (list : List Filock) (ld : Flock) (list' : List Filock) : Prop :=
  list' = list ∧ Spared zalloc list ld ∨ Lost list list' ∧ ¬ Spared zalloc list ld

section
variable {used : Addr → Prop} {kmem : Kmem used} {list list' before rest : List Filock} {flp : Filock}
  {ld : Flock} {insrtp : Option Addr} {woken : List Addr} {walk : Walk} {s : Adj} {list₀ : List Filock} {ld₀ : Flock}
  {f : Filock} {insrt : Option Addr} {result : Adjusted}

theorem Lost.shrinks {list'' : List Filock} (lost : Lost list list')
    (shrinks : ∀ o b t, Holds list'' o b t → Holds list' o b t) : Lost list list'' := by
  obtain ⟨o, b, t, held, gone⟩ := lost
  exact ⟨o, b, t, held, fun holds => gone (shrinks o b t holds)⟩

theorem adjust_apart (ordered : Ordered (before ++ flp :: rest)) (range : ld.lStart ≤ ld.lEnd)
    (untouched : ¬ flp.set.Touches ld)
    (adjusted : adjust kmem flp ⟨before ++ flp :: rest, insrtp, ld, woken⟩ = some walk) :
    (∃ insrtp', walk = .next ⟨before ++ flp :: rest, insrtp', ld, woken⟩) ∨
      walk = .stop ⟨before ++ flp :: rest, insrtp, ld, woken⟩ ∧ ld.lEnd < flp.set.lStart := by
  have held := ordered.fits.range
  have order := regflck_order range held
  have apart : flp.set.lEnd < ld.lStart ∨ ld.lEnd < flp.set.lStart := by
    by_contra meets
    exact untouched (.inl meets)
  have different (adjoins : flp.set.Adjoins ld) : ld.lType ≠ flp.set.lType :=
    fun same => untouched (.inr ⟨same.symm, adjoins⟩)
  unfold adjust at adjusted
  dsimp only at adjusted
  generalize region : regflck ld flp.set = pair at order adjusted
  obtain ⟨first, last⟩ := pair
  cases first <;> cases last <;> simp only [RegionOrder] at order <;> dsimp only at adjusted
  case before.before => exact .inr ⟨(some.inj adjusted).symm, by omega⟩
  case before.start =>
    rw [if_neg (different (.inr (by omega)))] at adjusted
    exact .inr ⟨(some.inj adjusted).symm, by omega⟩
  case end.after =>
    rw [if_neg (different (.inl (by omega)))] at adjusted
    exact .inl ⟨insrtp, (some.inj adjusted).symm⟩
  case after.after => exact .inl ⟨_, (some.inj adjusted).symm⟩
  all_goals omega

/-- How a round at a lock that the request touches ends. -/
def Changed (kmem : Kmem used) (list : List Filock) (ld flp : Flock) : Walk → Prop
  | .next s => s.ld.owner = ld.owner ∧ s.ld.lStart ≤ flp.lEnd ∧ ¬ Starved kmem.zalloc list ld flp
  | .stop s => s.ld.owner = ld.owner ∧ ¬ flp.Apart s.ld ∧ ¬ Starved kmem.zalloc list ld flp
  | .ret none _ => True
  | .ret (some _) s => s.list = list ∧ Starved kmem.zalloc list ld flp

theorem adjust_touched (ordered : Ordered (before ++ flp :: rest)) (range : ld.lStart ≤ ld.lEnd)
    (touched : flp.set.Touches ld)
    (adjusted : adjust kmem flp ⟨before ++ flp :: rest, insrtp, ld, woken⟩ = some walk) :
    Changed kmem (before ++ flp :: rest) ld flp.set walk := by
  have held := ordered.fits.range
  have absent := ordered.absent
  have order := regflck_order range held
  -- The request that is not split reaches the end of the lock, or has its type.
  have whole (ends : flp.set.lEnd ≤ ld.lEnd) : ¬ Starved kmem.zalloc (before ++ flp :: rest) ld flp.set := by
    rintro ⟨_, behind, _⟩
    omega
  have joined (same : ld.lType = flp.set.lType) : ¬ Starved kmem.zalloc (before ++ flp :: rest) ld flp.set :=
    fun starved => starved.1 same.symm
  have split {addr : Addr} (found : kmem.zalloc (before ++ flp :: rest) = some addr) :
      ¬ Starved kmem.zalloc (before ++ flp :: rest) ld flp.set := by
    rintro ⟨_, _, none⟩
    simp [found] at none
  have meets (early : flp.set.lStart ≤ ld.lEnd) (late : ld.lStart ≤ flp.set.lEnd) : ¬ flp.set.Apart ld := by
    unfold Flock.Apart
    omega
  unfold adjust at adjusted
  dsimp only at adjusted
  generalize region : regflck ld flp.set = pair at order adjusted
  obtain ⟨first, last⟩ := pair
  cases first <;> cases last <;> simp only [RegionOrder] at order <;> dsimp only at adjusted
  case before.start =>
    by_cases same : ld.lType = flp.set.lType
    · rw [if_pos same, Adj.delete_eq absent] at adjusted
      cases adjusted
      refine ⟨rfl, ?_, joined same⟩
      simp only [Flock.Apart]
      omega
    · rcases touched with touched | ⟨same', _⟩
      · unfold Flock.Apart at touched
        omega
      · exact absurd same'.symm same
  case before.middle =>
    by_cases same : ld.lType = flp.set.lType
    · rw [if_pos same, Adj.delete_eq absent] at adjusted
      cases adjusted
      refine ⟨rfl, ?_, joined same⟩
      simp only [Flock.Apart]
      omega
    · rw [if_neg same, Adj.splitOff_eq kmem ordered (by omega)] at adjusted
      cases found : kmem.zalloc (before ++ flp :: rest) with
      | none =>
        rw [found] at adjusted
        cases adjusted
        exact ⟨rfl, Ne.symm same, by omega, found⟩
      | some addr =>
        simp only [found, map_some, bind_eq_bind, bind_some, Adj.delete_eq absent] at adjusted
        cases adjusted
        exact ⟨rfl, meets (by omega) (by omega), split found⟩
  case before.end =>
    rw [Adj.delete_eq absent] at adjusted
    cases adjusted
    split
    · exact ⟨rfl, meets (by omega) (by omega), whole (by omega)⟩
    · exact ⟨rfl, by simp only; omega, whole (by omega)⟩
  case before.after | start.after =>
    simp only [Adj.delete_eq absent, Adj.deleteBehind_eq absent] at adjusted
    cases adjusted
    exact ⟨rfl, by simp only; omega, whole (by omega)⟩
  case start.middle | middle.middle =>
    by_cases same : ld.lType = flp.set.lType
    · rw [if_pos same] at adjusted
      cases adjusted
      trivial
    · rw [if_neg same, Adj.splitOff_eq kmem ordered (by omega)] at adjusted
      cases found : kmem.zalloc (before ++ flp :: rest) with
      | none =>
        rw [found] at adjusted
        cases adjusted
        exact ⟨rfl, Ne.symm same, by omega, found⟩
      | some addr =>
        simp only [found, map_some, bind_eq_bind, bind_some, Adj.delete_eq absent,
          Adj.truncate_eq absent] at adjusted
        cases adjusted
        exact ⟨rfl, meets (by omega) (by omega), split found⟩
  case start.end | middle.end =>
    by_cases same : ld.lType = flp.set.lType
    · rw [if_pos same] at adjusted
      cases adjusted
      trivial
    · simp only [if_neg same, Adj.deleteBehind_eq absent, Adj.truncate_eq absent] at adjusted
      cases adjusted
      exact ⟨rfl, by simp only; omega, whole (by omega)⟩
  case middle.after =>
    by_cases same : ld.lType = flp.set.lType
    · rw [if_pos same, Adj.deleteBehind_eq absent] at adjusted
      cases adjusted
      exact ⟨rfl, by omega, whole (by omega)⟩
    · rw [if_neg same, Adj.truncate_eq absent] at adjusted
      cases adjusted
      exact ⟨rfl, by simp only; omega, whole (by omega)⟩
  case end.after =>
    by_cases same : ld.lType = flp.set.lType
    · rw [if_pos same, Adj.deleteBehind_eq absent] at adjusted
      cases adjusted
      exact ⟨rfl, by omega, whole (by omega)⟩
    · rcases touched with touched | ⟨same', _⟩
      · unfold Flock.Apart at touched
        omega
      · exact absurd same'.symm same
  case before.before | after.after =>
    rcases touched with touched | ⟨_, touched⟩
    · unfold Flock.Apart at touched
      omega
    · unfold Flock.Adjoins at touched
      omega

theorem Progress.restart (progress : Progress list₀ ld₀ before rest s) :
    Progress s.list s.ld before rest s where
  kept := ⟨progress.kept.ordered, fun _ _ _ holds => holds, fun _ member => .inl member⟩
  owner := rfl
  type := rfl
  range := progress.range
  place := progress.place
  overlay _ _ _ := Iff.rfl
  shape := progress.shape
  passed := progress.passed

/-- The byte that a changed lock loses: its last, or one that the request takes. -/
theorem Changed.lost (ordered : Ordered (before ++ flp :: rest))
    (mine : flp.set.owner = ld.owner) (changed : Changed kmem (before ++ flp :: rest) ld flp.set walk)
    (ok : WalkOk list₀ ld₀ rest walk) :
    match walk with
    | .next s | .stop s => Lost (before ++ flp :: rest) s.list
    | .ret _ _ => True := by
  have held := ordered.fits.range
  have present {b : Int} (low : flp.set.lStart ≤ b) (high : b ≤ flp.set.lEnd) :
      Holds (before ++ flp :: rest) flp.set.owner b flp.set.lType :=
    ⟨flp, by simp, rfl, low, high, rfl⟩
  cases walk with
  | next s =>
    obtain ⟨before', progress⟩ := ok
    refine ⟨_, _, _, present held le_rfl, ?_⟩
    rintro ⟨f, member, owner, low, high, _⟩
    rw [progress.shape] at member
    rcases List.mem_append.mp member with member | member
    · have ends := progress.passed f member (owner.trans (mine.trans changed.1.symm))
      have starts := changed.2.1
      omega
    · have ahead := ordered.ahead member owner
      omega
  | stop s =>
    have settled : Settled list₀ ld₀ s := ok
    have meets := changed.2.1
    unfold Flock.Apart at meets
    -- The later of the two starts is a byte of both.
    refine ⟨_, max flp.set.lStart s.ld.lStart, _, present (by omega) (by have := settled.range; omega), ?_⟩
    rintro ⟨f, member, owner, low, high, _⟩
    have apart := settled.clear f member (owner.trans (mine.trans changed.1.symm))
    have range := settled.range
    unfold Flock.Apart at apart
    omega
  | ret => trivial

theorem Spared.starved {zalloc : List Filock → Option Addr} (spared : Spared zalloc list ld)
    (member : f ∈ list) (mine : f.set.owner = ld.owner) (touched : f.set.Touches ld) :
    Starved zalloc list ld f.set := by
  rcases spared with untouched | ⟨_, _, starved, only⟩
  · exact absurd touched (untouched f member mine)
  · rwa [(only f member mine).mp touched]

theorem Ordered.untouched (ordered : Ordered (before ++ flp :: rest)) (mine : flp.set.owner = ld.owner)
    (behind : ld.lEnd < flp.set.lEnd) (member : f ∈ rest) (same : f.set.owner = ld.owner)
    (range : ld.lStart ≤ ld.lEnd) : ¬ f.set.Touches ld := by
  have ahead := ordered.ahead member (same.trans mine.symm)
  have held := ordered.range f (by simp [member])
  rintro (meets | ⟨_, adjoins⟩)
  · unfold Flock.Apart at meets
    omega
  · unfold Flock.Adjoins at adjoins
    omega

theorem adjustFrom_fate (nodes : List Filock) (progress : Progress list ld before nodes s)
    (unchanged : s.list = list ∧ s.ld = ld)
    (untouched : ∀ f ∈ before, f.set.owner = ld.owner → ¬ f.set.Touches ld) :
    ∃ walk, adjustFrom kmem nodes s = some walk ∧ LoopOk list ld walk ∧
      match walk with
      | .ret none _ => True
      | .ret (some _) s | .stop s | .next s => Fate kmem.zalloc list ld s.list := by
  induction nodes generalizing before s with
  | nil =>
    obtain ⟨walk, adjusted, ok⟩ := adjustFrom_ok kmem [] progress
    cases adjusted
    refine ⟨_, rfl, ok, .inl ⟨unchanged.1, .inl fun f member => ?_⟩⟩
    rw [← unchanged.1, progress.shape, List.append_nil] at member
    exact untouched f member
  | cons flp rest ih =>
    have ordered := progress.kept.ordered
    have shape := progress.shape
    have range := progress.range
    obtain ⟨now, insrtp, ld', woken⟩ := s
    obtain ⟨rfl, rfl⟩ : now = list ∧ ld' = ld := unchanged
    obtain rfl : now = before ++ flp :: rest := shape
    have range : ld'.lStart ≤ ld'.lEnd := range
    have extend (other : flp.set.owner = ld'.owner → ¬ flp.set.Touches ld') :
        ∀ f ∈ before ++ [flp], f.set.owner = ld'.owner → ¬ f.set.Touches ld' := by
      simpa [or_imp, forall_and] using ⟨untouched, other⟩
    by_cases mine : sameowner flp.set ld'
    · have own := (sameowner_iff _ _).mp mine
      obtain ⟨walk, adjusted, ok⟩ := adjust_ok kmem progress own
      simp only [adjustFrom, if_pos mine, adjusted, bind_eq_bind, bind_some]
      by_cases touched : flp.set.Touches ld'
      · have changed := adjust_touched ordered range touched adjusted
        have lost := changed.lost ordered own ok
        have member : flp ∈ before ++ flp :: rest := by simp
        cases walk with
        | next s =>
          obtain ⟨_, next⟩ := ok
          obtain ⟨_, _, fed⟩ := changed
          obtain ⟨walk, adjusted, whole⟩ := adjustFrom_ok kmem rest next
          obtain ⟨again, adjusted', later⟩ := adjustFrom_ok kmem rest next.restart
          cases adjusted.symm.trans adjusted'
          refine ⟨walk, adjusted, whole, ?_⟩
          have gone {list' : List Filock} (shrinks : ∀ o b t, Holds list' o b t → Holds s.list o b t) :
              Fate kmem.zalloc (before ++ flp :: rest) ld' list' :=
            .inr ⟨lost.shrinks shrinks, fun spared => fed (spared.starved member own touched)⟩
          cases walk with
          | ret retval _ =>
            cases retval with
            | none => trivial
            | some _ => exact gone later.2.shrinks
          | next _ => exact later.elim
          | stop _ => exact gone later.kept.shrinks
        | stop s =>
          obtain ⟨_, _, fed⟩ := changed
          exact ⟨_, rfl, ok, .inr ⟨lost, fun spared => fed (spared.starved member own touched)⟩⟩
        | ret retval s =>
          cases retval with
          | none => exact ⟨_, rfl, ok, trivial⟩
          | some _ =>
            obtain ⟨same, starved⟩ := changed
            refine ⟨_, rfl, ok, .inl ⟨same, .inr ⟨flp, member, starved, fun g there own' => ⟨fun touches => ?_, ?_⟩⟩⟩⟩
            · rcases List.mem_append.mp there with there | there
              · exact absurd touches (untouched g there own')
              · rcases List.mem_cons.mp there with rfl | there
                · rfl
                · exact absurd touches (ordered.untouched own starved.2.1 there own' range)
            · rintro rfl
              exact touched
      · rcases adjust_apart ordered range touched adjusted with ⟨_, rfl⟩ | ⟨rfl, behind⟩
        · obtain ⟨before', next⟩ := ok
          have same : before ++ [flp] ++ rest = before' ++ rest := by simpa using next.shape
          obtain rfl := List.append_cancel_right same
          exact ih next ⟨rfl, rfl⟩ (extend fun _ => touched)
        · have behind : ld'.lEnd < flp.set.lStart := behind
          refine ⟨_, rfl, ok, .inl ⟨rfl, .inl fun f member same => ?_⟩⟩
          rcases List.mem_append.mp member with member | member
          · exact untouched f member same
          · rcases List.mem_cons.mp member with rfl | member
            · exact touched
            · have held := ordered.fits.range
              exact ordered.untouched own (by omega) member same range
    · simp only [adjustFrom, if_neg mine]
      have other : flp.set.owner ≠ ld'.owner := fun same => mine ((sameowner_iff _ _).mpr same)
      exact ih (progress.next_other other) ⟨rfl, rfl⟩ (extend fun same => absurd same other)

theorem Starts.skips (starts : Starts list ld insrt) (ordered : Ordered list) :
    ∃ before nodes, list = before ++ nodes ∧ visited list insrt = some nodes ∧
      (ld.lType ≠ .unlck → Place list ld.lStart insrt) ∧
      ∀ f ∈ before, f.set.owner = ld.owner → f.set.lEnd + 1 < ld.lStart := by
  have granted (free : blocked list ld = (none, insrt)) :
      ∃ before nodes, list = before ++ nodes ∧ visited list insrt = some nodes ∧
        (ld.lType ≠ .unlck → Place list ld.lStart insrt) ∧
        ∀ f ∈ before, f.set.owner = ld.owner → f.set.lEnd + 1 < ld.lStart := by
    obtain ⟨_, _, _, _, _, place⟩ := (@blocked_begins list ld) ordered
    have skips := (@blockedFrom_skips [] ld) list (by simp)
    have answer : (blockedFrom ld none list).2 = insrt := congrArg Prod.snd free
    simp only [List.getLast?_nil, Option.map_none, List.nil_append, answer] at skips
    rw [free] at place
    cases insrt with
    | none => exact ⟨[], list, rfl, rfl, fun _ => place, by simp⟩
    | some addr =>
      obtain ⟨before, f, rest, rfl, rfl, passed⟩ := skips
      exact ⟨before, f :: rest, rfl, suffixAt_append ordered.absent, fun _ => place, passed⟩
  unfold Starts at starts
  split at starts
  · next unlock =>
    refine ⟨[], list, rfl, ?_, fun typed => absurd unlock typed, by simp⟩
    subst starts
    cases list <;> simp [visited, suffixAt]
  · exact granted starts
  · exact granted starts
  · exact starts.elim

theorem finish_failed (finished : s.finish kmem = some result)
    (failed : result.retval ≠ none) : result.list = s.list := by
  have inserted {place : Option Addr} {fill : Option (Addr × List Filock) → Option Adjusted}
      (lost : fill none = some ⟨some .enolck, s.list, s.ld, s.woken⟩)
      (kept : ∀ made, fill (some made) = some ⟨none, made.2, s.ld, s.woken⟩)
      (finished : (insflck kmem s.list s.ld place).bind fill = some result) : result.list = s.list := by
    obtain ⟨made, _, finished⟩ := Option.bind_eq_some_iff.mp finished
    cases made with
    | none =>
      cases lost.symm.trans finished
      rfl
    | some made =>
      cases (kept made).symm.trans finished
      exact absurd rfl failed
  unfold Adj.finish at finished
  split at finished
  · cases finished
    exact absurd rfl failed
  · dsimp only at finished
    split at finished
    · refine inserted ?_ (fun _ => ?_) finished <;> rfl
    · obtain ⟨nodes, _, finished⟩ := Option.bind_eq_some_iff.mp finished
      refine inserted ?_ (fun _ => ?_) finished <;> rfl

/-- What a failed `flckadj` leaves of the list. -/
theorem flckadj_fate (ordered : Ordered list)
    (range : ld.lStart ≤ ld.lEnd) (starts : Starts list ld insrt)
    (returned : flckadj kmem list insrt ld = some result) (failed : result.retval ≠ none) :
    Fate kmem.zalloc list ld result.list := by
  obtain ⟨before, nodes, shape, begins, place, passed⟩ := starts.skips ordered
  have progress : Progress list ld before nodes ⟨list, insrt, ld, []⟩ := by
    refine ⟨⟨⟨ordered, fun _ _ _ holds => holds, fun f member => .inl member⟩, rfl, rfl, range, place,
      fun _ _ _ => Iff.rfl⟩, shape, fun f member own => ?_⟩
    have ends := passed f member own
    change f.set.lEnd < ld.lStart
    omega
  have untouched : ∀ f ∈ before, f.set.owner = ld.owner → ¬ f.set.Touches ld := by
    intro f member own
    have ends := passed f member own
    have held := ordered.range f (shape ▸ List.mem_append_left _ member)
    rintro (meets | ⟨_, adjoins⟩)
    · exact meets (.inl (by omega))
    · unfold Flock.Adjoins at adjoins
      omega
  obtain ⟨walk, adjusted, ok, fate⟩ := (@adjustFrom_fate _ kmem) nodes progress ⟨rfl, rfl⟩ untouched
  simp only [flckadj, begins, adjusted, bind_eq_bind, bind_some] at returned
  cases walk with
  | ret retval s =>
    cases retval with
    | none =>
      cases returned
      exact absurd rfl failed
    | some error =>
      cases returned
      exact fate
  | next s => exact ok.elim
  | stop s => rwa [finish_failed returned failed]

end

end Svr4.RecordLock
