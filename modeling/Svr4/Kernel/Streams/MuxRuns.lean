import Svr4.Kernel.Streams.MuxSearch

/-! The graph of the links over whole runs.

`linkcycle` is exact as long as no search enters twice a node without edges that has kept
the `mn_startp` of an earlier search, and then the graph stays acyclic.
-/

namespace Svr4.Multiplexor

open Relation Function
open Option (some bind_eq_bind bind_eq_some_iff)
open List (nil_append append_inj' mem_append nodup_append)

attribute [local simp] Mux.setEdge

/-! ## The graph in memory -/

/-- The graph between calls. -/
structure Linked (cdevcnt : Nat) (m : Mux) (out : Nat → List Nat) (target : Nat → Nat) : Prop where
  drawn : Drawn out target m
  apart {a b ep : Nat} : ep ∈ out a → ep ∈ out b → a = b
  bounded {np : Nat} : out np ≠ [] → np < cdevcnt
  acyclic : Acyclic (leads out target)

section
variable {cdevcnt : Nat} {m : Mux} {out : Nat → List Nat} {target : Nat → Nat} {np ep fuel : Nat}
  {left right : List Nat} {m' : Mux} {muxid : Nat}

theorem Drawn.next (drawn : Drawn out target m) {np ep : Nat} {left right : List Nat}
    (split : out np = left ++ ep :: right) : m.next ep = right.head? := by
  obtain ⟨id, edge⟩ := drawn.edge split
  simp [Mux.next, edge]

section
variable (drawn : Drawn out target m)
include drawn

theorem Drawn.suffix (split : out np = left ++ right) :
    Chain m.next right.head? right := by
  induction right generalizing left with
  | nil => exact .nil
  | cons ep right ih =>
    have tail := (@ih (left ++ [ep])) (by simp [split])
    exact .cons (drawn.next split ▸ tail)

theorem Drawn.chain (np : Nat) : Chain m.next (m.node np).mnOutp (out np) := by
  rw [drawn.first]
  exact drawn.suffix (nil_append _).symm

theorem Drawn.out_iff : m.Out np ep ↔ ep ∈ out np := by
  constructor
  · rintro ⟨list, chain, member⟩
    rwa [← (drawn.chain np).unique chain] at member
  · exact fun member => ⟨out np, drawn.chain np, member⟩

theorem Drawn.target_eq (member : ep ∈ out np) :
    (m.edge ep).map MuxEdge.meNodep = some (target ep) := by
  obtain ⟨left, right, split⟩ := List.append_of_mem member
  obtain ⟨id, edge⟩ := drawn.edge split
  simp [edge]

theorem Drawn.leads_eq : m.Leads = leads out target := by
  funext a b
  apply propext
  constructor
  · rintro ⟨ep, e, member, edge, rfl⟩
    have member := drawn.out_iff.mp member
    have same := drawn.target_eq member
    rw [edge] at same
    exact ⟨ep, member, (some.inj same).symm⟩
  · rintro ⟨ep, member, rfl⟩
    have same := drawn.target_eq member
    obtain ⟨e, edge, lands⟩ := Option.map_eq_some_iff.mp same
    exact ⟨ep, e, drawn.out_iff.mpr member, edge, lands⟩

end

theorem Linked.shape (linked : Linked cdevcnt m out target) : Shape out target where
  nodup np := (linked.drawn.chain np).nodup
  apart := linked.apart
  acyclic := linked.acyclic
  wellFounded := linked.acyclic.wellFounded (Finset.range cdevcnt) fun a b edge => by
    obtain ⟨ep, member, _⟩ := edge
    exact Finset.mem_range.mpr (linked.bounded (List.ne_nil_of_mem member))

/-! ## `linkcycle` -/

theorem search_mono {upmaj more : Nat} {s : Search} {result : List (Nat × Nat) × Bool × Mux}
    (returns : search upmaj fuel s = some result) (enough : fuel ≤ more) : search upmaj more s = some result := by
  induction fuel generalizing s more result with
  | zero =>
    cases s with
    | visit => cases returns
    | stop => cases more <;> exact returns
  | succ fuel ih =>
    cases s with
    | stop => cases more <;> exact returns
    | visit np m =>
      obtain ⟨more, rfl⟩ := Nat.exists_eq_add_of_le' (Nat.le_trans (Nat.le_add_left 1 fuel) enough)
      simp only [search, bind_eq_bind, bind_eq_some_iff] at returns ⊢
      obtain ⟨⟨edge, s⟩, taken, ⟨edges, rest⟩, tail, last⟩ := returns
      exact ⟨(edge, s), taken, (edges, rest), ih tail (Nat.le_of_succ_le_succ enough), last⟩

/-- The node that a stale `mn_startp` leaves from is entered once at most. -/
theorem Linked.noneStale (linked : Linked cdevcnt m out target) {lomaj : Nat} (sane : ∀ leaf, ¬ m.Stale lomaj leaf) :
    NoneStale out target lomaj fun x => (m.node x).mnStartp := by
  intro leaf a b ep fp empty first second here there differ lands other
  by_contra stale
  refine sane leaf ⟨by rw [linked.drawn.first, empty]; rfl, stale, a, b, ep, fp, differ, ?_, ?_,
    linked.drawn.out_iff.mpr here, linked.drawn.out_iff.mpr there, ?_, ?_⟩
  · rw [Mux.Reach, linked.drawn.leads_eq]
    exact first
  · rw [Mux.Reach, linked.drawn.leads_eq]
    exact second
  · rw [linked.drawn.target_eq here, lands]
  · rw [linked.drawn.target_eq there, other]

/-- The search of `linkcycle` ends, and is exact. -/
theorem Linked.linkcycle (linked : Linked cdevcnt m out target) (upstp : Stdata) {lostp : Stdata} (plain : lostp.vfifo = false)
    (sane : ∀ leaf, ¬ m.Stale lostp.major leaf) :
    ∃ edges cycle m' n, (∀ fuel, n ≤ fuel → linkcycle fuel upstp lostp m = some (edges, cycle, m')) ∧
      Followed out edges ∧ (cycle = true ↔ ReflTransGen (leads out target) lostp.major upstp.major) ∧
      Linked cdevcnt m' out target := by
  have searching : Searching out target lostp.major (fun x => (m.node x).mnStartp) (muxClear m) :=
    ⟨linked.drawn.congr rfl fun _ => rfl, fun _ => rfl, by simp [muxClear]⟩
  have explores : Explores out target lostp.major upstp.major _ lostp.major (muxClear m) := explores linked.shape (linked.noneStale sane)
    lostp.major (muxClear m) searching .refl rfl (fun other => absurd rfl other) (by simp [muxClear])
  have unfolds (fuel : Nat) : Multiplexor.linkcycle fuel upstp lostp m =
      search upstp.major fuel (.visit lostp.major (muxClear m)) := by
    simp [Multiplexor.linkcycle, plain]
  simp only [unfolds]
  rcases explores with ⟨edges, m', goes, followed, drawn, reach⟩ | ⟨edges, m', goes, followed, explored⟩
  · obtain ⟨n, returns⟩ := goes.search rfl
    exact ⟨edges, true, m', n, returns, followed, by simp [reach], drawn, linked.apart, linked.bounded, linked.acyclic⟩
  · obtain ⟨n, returns⟩ := goes.search (t := .stop false m') rfl
    refine ⟨edges, false, m', n, returns, followed, ?_, explored.searching.drawn, linked.apart, linked.bounded, linked.acyclic⟩
    have away : ¬ ReflTransGen (leads out target) lostp.major upstp.major := fun reach =>
      ((explored.finished .refl).visited _ reach).2 rfl
    simp [away]

/-! ## Edges -/

theorem lastEdge_eq (drawn : Drawn out target m) {last : Nat}
    (split : out np = left ++ ep :: right) (found : lastEdge m fuel ep = some last) :
    ∃ front, out np = front ++ [last] := by
  induction fuel generalizing ep left right with
  | zero => cases found
  | succ fuel ih =>
    simp only [lastEdge, drawn.next split] at found
    cases right with
    | nil =>
      cases found
      exact ⟨left, split⟩
    | cons fp right => exact (@ih fp (left ++ [ep]) right) (by simp [split]) found

theorem Drawn.fresh (drawn : Drawn out target m) (free : m.edge ep = none) (np : Nat) : ep ∉ out np := by
  intro member
  have same := drawn.target_eq member
  simp [free] at same

theorem Drawn.append (drawn : Drawn out target m) {m' : Mux} {np ep lomaj id : Nat}
    (apart : ∀ {a b fp : Nat}, fp ∈ out a → fp ∈ out b → a = b)
    (free : m.edge ep = none)
    (first : ∀ x, (m'.node x).mnOutp = if x = np ∧ out np = [] then some ep else (m.node x).mnOutp)
    (own : m'.edge ep = some ⟨lomaj, none, id⟩)
    (last : ∀ front fp, out np = front ++ [fp] → ∃ id, m'.edge fp = some ⟨target fp, some ep, id⟩)
    (others : ∀ fp, fp ≠ ep → (∀ front, out np ≠ front ++ [fp]) → m'.edge fp = m.edge fp) :
    Drawn (update out np (out np ++ [ep])) (update target ep lomaj) m' := by
  constructor
  · intro x
    rw [first]
    by_cases same : x = np
    · subst same
      cases list : out x with
      | nil => simp
      | cons fp rest => simp [drawn.first, list]
    · simp [same, drawn.first]
  · intro x fp left right split
    by_cases same : x = np
    · subst same
      rw [update_self] at split
      rcases right.eq_nil_or_concat with rfl | ⟨right, gp, rfl⟩
      · have ends : out x = left ∧ ep = fp := by simpa using append_inj' split rfl
        obtain ⟨_, rfl⟩ := ends
        exact ⟨id, by simpa using own⟩
      · have regroup : out x ++ [ep] = (left ++ fp :: right) ++ [gp] := by simpa using split
        have ends : out x = left ++ fp :: right ∧ ep = gp := by simpa using append_inj' regroup rfl
        obtain ⟨before, rfl⟩ := ends
        have differ : fp ≠ ep := fun same => drawn.fresh free x (by simp [before, same])
        rw [update_of_ne differ]
        cases right with
        | nil => simpa using last left fp before
        | cons hp right =>
          have nodup := (drawn.chain x).nodup
          obtain ⟨id, edge⟩ := drawn.edge before
          refine ⟨id, ?_⟩
          rw [others fp differ]
          · simpa using edge
          · intro front ends
            rw [before] at nodup
            have tail : fp ∈ hp :: right := by
              have here := congrArg List.getLast? (before.symm.trans ends)
              rw [List.getLast?_append_of_ne_nil _ (by simp), List.getLast?_cons_cons] at here
              exact List.mem_of_getLast? (by simpa using here)
            exact (List.nodup_middle.mp nodup).notMem (List.mem_append_right _ tail)
    · rw [update_of_ne same] at split
      have member : fp ∈ out x := by simp [split]
      have differ : fp ≠ ep := fun clash => drawn.fresh free x (clash ▸ member)
      rw [update_of_ne differ]
      obtain ⟨id, edge⟩ := drawn.edge split
      refine ⟨id, ?_⟩
      rw [others fp differ]
      · exact edge
      · intro front ends
        exact same (apart member (by simp [ends]))

theorem Linked.addedge (linked : Linked cdevcnt m out target) {upstp lostp : Stdata}
    (added : muxAddedge fuel upstp lostp muxid (some ep) m = some m') (free : m.edge ep = none)
    (bound : upstp.major < cdevcnt) (away : ¬ ReflTransGen (leads out target) lostp.major upstp.major) :
    Linked cdevcnt m' (update out upstp.major (out upstp.major ++ [ep])) (update target ep lostp.major) := by
  have fresh := linked.drawn.fresh free
  constructor
  · have first := linked.drawn.first upstp.major
    by_cases list : out upstp.major = []
    · rw [list] at first
      simp only [muxAddedge, first, List.head?_nil, some.injEq] at added
      subst added
      refine linked.drawn.append linked.apart free (fun x => ?_) (update_self ..)
        (fun front fp ends => by simp [list] at ends) (fun fp differ _ => ?_)
      · by_cases same : x = upstp.major
        · simp [same, list]
        · simp [same]
      · simp [differ]
    · obtain ⟨fp, rest, list⟩ := List.exists_cons_of_ne_nil list
      rw [list] at first
      simp only [muxAddedge, first, List.head?_cons, bind_eq_bind, bind_eq_some_iff] at added
      obtain ⟨last, found, e, read, stored⟩ := added
      cases stored
      obtain ⟨front, ends⟩ := lastEdge_eq linked.drawn (list.trans (nil_append _).symm) found
      have differ : last ≠ ep := fun same => fresh upstp.major (by simp [ends, same])
      refine linked.drawn.append linked.apart free (fun x => ?_) (update_self ..) (fun left gp split => ?_)
        (fun gp other away => ?_)
      · simp [list]
      · obtain ⟨_, same⟩ : front = left ∧ last = gp := by simpa using append_inj' (ends.symm.trans split) rfl
        subst same
        have member : last ∈ out upstp.major := by simp [ends]
        have lands := linked.drawn.target_eq member
        have here : e.meNodep = target last := by simpa [read] using lands
        exact ⟨e.meMuxid, by simp [differ, here]⟩
      · have apart : gp ≠ last := fun same => away front (same ▸ ends)
        simp [other, apart]
  · intro a b fp
    rw [update_apply, update_apply]
    split <;> split
    · next first second => exact fun _ _ => first.trans second.symm
    · next first _ =>
      intro here there
      rcases mem_append.mp here with here | here
      · exact first.trans (linked.apart here there)
      · exact absurd (List.mem_singleton.mp here ▸ there) (fresh b)
    · next _ second =>
      intro here there
      rcases mem_append.mp there with there | there
      · exact (linked.apart here there).trans second.symm
      · exact absurd (List.mem_singleton.mp there ▸ here) (fresh a)
    · exact linked.apart
  · intro np
    rw [update_apply]
    split
    · next same => exact fun _ => same ▸ bound
    · exact linked.bounded
  · refine linked.acyclic.insert (fun a b edge => ?_) away
    obtain ⟨fp, member, lands⟩ := edge
    have old (here : fp ∈ out a) : leads out target a b := by
      have differ : fp ≠ ep := fun same => fresh a (same ▸ here)
      rw [update_of_ne differ] at lands
      exact ⟨fp, here, lands⟩
    by_cases same : a = upstp.major
    · subst same
      rw [update_self] at member
      rcases mem_append.mp member with member | member
      · exact .inl (old member)
      · obtain rfl := List.mem_singleton.mp member
        rw [update_self] at lands
        exact .inr ⟨rfl, lands.symm⟩
    · rw [update_of_ne same] at member
      exact .inl (old member)

theorem Linked.remove (linked : Linked cdevcnt m out target) {m' : Mux} {np ep : Nat} {left right : List Nat}
    (split : out np = left ++ ep :: right)
    (first : ∀ x, (m'.node x).mnOutp = if x = np ∧ left = [] then right.head? else (m.node x).mnOutp)
    (before : ∀ front fp, left = front ++ [fp] → ∃ id, m'.edge fp = some ⟨target fp, right.head?, id⟩)
    (others : ∀ fp, fp ≠ ep → (∀ front, left ≠ front ++ [fp]) → m'.edge fp = m.edge fp) :
    Linked cdevcnt m' (update out np (left ++ right)) target := by
  have nodup := (linked.drawn.chain np).nodup
  have sub {x fp : Nat} (member : fp ∈ update out np (left ++ right) x) : fp ∈ out x := by
    by_cases same : x = np
    · subst same
      rw [update_self] at member
      rw [split]
      rcases mem_append.mp member with member | member
      · simp [member]
      · simp [member]
    · rwa [update_of_ne same] at member
  have gone {x : Nat} : ep ∉ update out np (left ++ right) x := by
    intro member
    have same : x = np := linked.apart (sub member) (by simp [split])
    subst same
    rw [update_self] at member
    rw [split] at nodup
    exact (List.nodup_middle.mp nodup).notMem member
  refine ⟨⟨fun x => ?_, fun {x fp front tail} divide => ?_⟩, fun here there => linked.apart (sub here) (sub there),
    fun {x} some => ?_, linked.acyclic.mono fun a b edge => ?_⟩
  · rw [first]
    by_cases same : x = np
    · subst same
      cases left with
      | nil => simp
      | cons fp left => simp [linked.drawn.first, split]
    · simp [same, linked.drawn.first]
  · have here : fp ∈ update out np (left ++ right) x := by simp [divide]
    have differ : fp ≠ ep := fun same => gone (same ▸ here)
    have kept (away : ∀ rest, left ≠ rest ++ [fp]) {old : List Nat} (place : out x = old ++ fp :: tail) :
        ∃ id, m'.edge fp = some ⟨target fp, tail.head?, id⟩ := by
      obtain ⟨id, edge⟩ := linked.drawn.edge place
      exact ⟨id, (others fp differ away).trans edge⟩
    by_cases same : x = np
    · subst same
      rw [update_self] at divide
      rw [split] at nodup
      rcases List.append_eq_append_iff.mp divide with ⟨middle, joined, rest⟩ | ⟨middle, joined, rest⟩
      · -- The edge stands behind the one that leaves.
        refine kept (fun old ends => ?_) (by simp [split, rest] : out x = (left ++ ep :: middle) ++ fp :: tail)
        have twice : fp ∈ right := by simp [rest]
        exact (nodup_append.mp nodup).2.2 fp (by simp [ends]) fp (by simp [twice]) rfl
      · cases middle with
        | nil =>
          rw [nil_append] at rest
          refine kept (fun old ends => ?_) (by simp [split, ← rest] : out x = (left ++ [ep]) ++ fp :: tail)
          exact (nodup_append.mp nodup).2.2 fp (by simp [ends]) fp (by simp [← rest]) rfl
        | cons gp middle =>
          obtain ⟨rfl, rfl⟩ : fp = gp ∧ tail = middle ++ right := by simpa using rest
          cases middle with
          | nil => simpa using before front fp joined
          | cons hp middle =>
            have away : ∀ old, left ≠ old ++ [fp] := by
              intro old ends
              have single := (nodup_append.mp nodup).1
              rw [joined] at single
              have tail : fp ∈ hp :: middle := by
                have here := congrArg List.getLast? (joined.symm.trans ends)
                rw [List.getLast?_append_of_ne_nil _ (by simp), List.getLast?_cons_cons] at here
                exact List.mem_of_getLast? (by simpa using here)
              exact (List.nodup_middle.mp single).notMem (List.mem_append_right _ tail)
            have place : out x = front ++ fp :: (hp :: middle ++ ep :: right) := by simp [split, joined]
            obtain ⟨id, edge⟩ := linked.drawn.edge place
            exact ⟨id, by rw [others fp differ away, edge]; simp⟩
    · rw [update_of_ne same] at divide
      refine kept (fun rest ends => ?_) divide
      exact same (linked.apart (by simp [divide]) (by simp [split, ends] : fp ∈ out np))
  · by_cases same : x = np
    · subst same
      exact linked.bounded (by simp [split])
    · rw [update_of_ne same] at some
      exact linked.bounded some
  · obtain ⟨fp, member, lands⟩ := edge
    exact ⟨fp, sub member, lands⟩

theorem Linked.rmvedgeFrom (linked : Linked cdevcnt m out target)
    (split : out np = left ++ right) (removed : rmvedgeFrom np muxid fuel left.getLast? right.head? m = some m') :
    ∃ out', Linked cdevcnt m' out' target := by
  induction fuel generalizing left right with
  | zero => cases removed
  | succ fuel ih =>
    cases right with
    | nil =>
      obtain rfl : m = m' := by simpa [Multiplexor.rmvedgeFrom] using removed
      exact ⟨out, linked⟩
    | cons ep right =>
      obtain ⟨id, edge⟩ := linked.drawn.edge split
      simp only [Multiplexor.rmvedgeFrom, List.head?_cons, edge, bind_eq_bind, Option.bind_some] at removed
      by_cases here : id = muxid
      · rw [if_pos here] at removed
        rcases left.eq_nil_or_concat with rfl | ⟨front, p, rfl⟩
        · cases removed
          refine ⟨_, linked.remove split (fun x => ?_) (by simp) (fun fp differ _ => by simp [differ])⟩
          by_cases same : x = np
          · simp [same]
          · simp [same]
        · have place : out np = front ++ p :: ep :: right := by simp [split]
          obtain ⟨mid, read⟩ := linked.drawn.edge place
          have differ : p ≠ ep := by
            rintro rfl
            have nodup := (linked.drawn.chain np).nodup
            rw [place] at nodup
            exact (List.nodup_cons.mp (nodup_append.mp nodup).2.1).1 (by simp)
          simp only [List.concat_eq_append, List.getLast?_concat, read, Option.bind_some] at removed split
          cases removed
          refine ⟨_, linked.remove split (by simp) (fun old fp ends => ?_) (fun fp other away => ?_)⟩
          · obtain ⟨_, rfl⟩ : front = old ∧ p = fp := by simpa using append_inj' ends rfl
            exact ⟨mid, by simp [differ]⟩
          · have apart : fp ≠ p := fun same => away front (by rw [same])
            simp [other, apart]
      · rw [if_neg here] at removed
        exact (@ih (left ++ [ep]) right) (by simp [split]) (by simpa using removed)

end

/-! ## Runs -/

/-- What holds between calls. -/
def Sound (cdevcnt : Nat) (s : State) : Prop :=
  (∃ out target, Linked cdevcnt s.mux out target) ∧
    ∀ upstp lostp, s.allowed = some (upstp, lostp) →
      upstp.major < cdevcnt ∧ ¬ s.mux.Reach lostp.major upstp.major

theorem strinit_sound (cdevcnt : Nat) : Sound cdevcnt strinit := by
  refine ⟨⟨fun _ => [], fun _ => 0, ⟨fun _ => rfl, by simp⟩, by simp, by simp, ?_⟩, by simp [strinit]⟩
  intro a cycle
  obtain ⟨b, ⟨ep, member, _⟩, _⟩ := TransGen.head'_iff.mp cycle
  simp at member

theorem step_sound {cdevcnt : Nat} {s t : State} {event : Event} (sound : Sound cdevcnt s) (step : Step cdevcnt s event t)
    (sane : Sane s event) : Sound cdevcnt t := by
  obtain ⟨⟨out, target, linked⟩, allowed⟩ := sound
  cases event with
  | linkcycle fuel upstp lostp =>
    simp only [Step, apply, bind_eq_bind, Option.ite_none_right_eq_some, bind_eq_some_iff] at step
    obtain ⟨⟨upper, _, plain⟩, ⟨edges, cycle, m⟩, returns, same⟩ := step
    cases same
    obtain ⟨edges', cycle', m', n, ends, _, exact, linked'⟩ := linked.linkcycle upstp plain sane
    -- The search with `fuel` rounds is the one that ends.
    have longer : Multiplexor.linkcycle (max n fuel) upstp lostp s.mux = some (edges, cycle, m) := by
      simp only [Multiplexor.linkcycle, plain] at returns ⊢
      exact search_mono returns (Nat.le_max_right n fuel)
    rw [ends _ (Nat.le_max_left n fuel)] at longer
    obtain ⟨rfl, rfl, rfl⟩ : edges' = edges ∧ cycle' = cycle ∧ m' = m := by simpa using longer
    refine ⟨⟨out, target, linked'⟩, fun up lo granted => ?_⟩
    cases cycle' with
    | true => simp at granted
    | false =>
      obtain ⟨rfl, rfl⟩ : upstp = up ∧ lostp = lo := by simpa using granted
      refine ⟨upper, fun reach => ?_⟩
      rw [Mux.Reach, linked'.drawn.leads_eq] at reach
      simpa using exact.mpr reach
  | addedge fuel upstp lostp muxid alloc =>
    simp only [Step, apply, bind_eq_bind, Option.ite_none_right_eq_some, bind_eq_some_iff] at step
    obtain ⟨⟨granted, free⟩, m, added, same⟩ := step
    cases same
    obtain ⟨bound, away⟩ := allowed upstp lostp granted
    rw [Mux.Reach, linked.drawn.leads_eq] at away
    refine ⟨?_, by simp⟩
    cases alloc with
    | none =>
      have same : s.mux = m := by
        simpa [muxAddedge] using added
      exact ⟨out, target, same ▸ linked⟩
    | some ep => exact ⟨_, _, linked.addedge added (free ep rfl) bound away⟩
  | rmvedge fuel upstp muxid =>
    simp only [Step, apply, bind_eq_bind, bind_eq_some_iff] at step
    obtain ⟨m, removed, same⟩ := step
    cases same
    refine ⟨?_, by simp⟩
    simp only [muxRmvedge, linked.drawn.first] at removed
    obtain ⟨out', linked'⟩ := linked.rmvedgeFrom (nil_append _).symm removed
    exact ⟨out', target, linked'⟩

/-- One event after the other. -/
def applyAll (cdevcnt : Nat) : List Event → State → Option State
  | [], s => some s
  | event :: events, s => do
    let s ← apply cdevcnt event s
    applyAll cdevcnt events s

theorem applyAll_reaches {cdevcnt : Nat} {events : List Event} {s t : State}
    (reached : Reaches (· = strinit) (Step cdevcnt) (fun _ _ => True) s) (run : applyAll cdevcnt events s = some t) :
    Reaches (· = strinit) (Step cdevcnt) (fun _ _ => True) t := by
  induction events generalizing s with
  | nil => exact some.inj run ▸ reached
  | cons event events ih =>
    obtain ⟨next, step, run⟩ := bind_eq_some_iff.mp run
    exact ih (.next reached step trivial) run

/-- Link a lower stream. -/
def link (up lo muxid ep : Nat) : List Event :=
  [.linkcycle 20 ⟨false, up⟩ ⟨false, lo⟩, .addedge 20 ⟨false, up⟩ ⟨false, lo⟩ muxid (some ep)]

/-- Node 1 loses its edges after a search that stopped at the first of them, and is then
linked twice below node 0; the memory of its second edge is now that of an edge from 5 to 9. -/
def staleEvents : List Event :=
  link 1 2 1 100 ++ link 1 3 2 101 ++
    [.linkcycle 20 ⟨false, 2⟩ ⟨false, 1⟩, .rmvedge 20 ⟨false, 1⟩ 1, .rmvedge 20 ⟨false, 1⟩ 2] ++
    link 0 1 3 100 ++ link 5 9 4 101 ++ link 0 1 5 102

def staleState : State := (applyAll 10 staleEvents strinit).getD strinit

end Svr4.Multiplexor
