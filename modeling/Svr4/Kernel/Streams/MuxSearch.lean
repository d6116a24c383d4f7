import Svr4.Kernel.Streams.Mux

/-! The depth-first search of `linkcycle` over an acyclic graph.

The lists of edges are `out`, and `target` is where an edge leads. The search of a node visits
what can be reached from it and returns to the node that it came from, unless it meets
`upmaj`. Only a node without edges can still have an `mn_startp` of an earlier search, and
it is followed when the node is entered for the second time.
-/

namespace Svr4.Multiplexor

open Relation

/-! ## Rounds -/

/-- The rounds from one point of a search to another, with the edges followed. -/
inductive Goes (upmaj : Nat) : Search → List (Nat × Nat) → Search → Prop where
  | refl (s : Search) : Goes upmaj s [] s
  | head {np : Nat} {m : Mux} {edge edges : List (Nat × Nat)} {s t : Search} :
      round upmaj np m = some (edge, s) → Goes upmaj s edges t → Goes upmaj (.visit np m) (edge ++ edges) t

namespace Goes
variable {upmaj : Nat} {s t u : Search} {first second : List (Nat × Nat)}

theorem trans (left : Goes upmaj s first t) (right : Goes upmaj t second u) : Goes upmaj s (first ++ second) u := by
  induction left with
  | refl => exact right
  | head taken _ ih =>
    rw [List.append_assoc]
    exact .head taken (ih right)

theorem single {np : Nat} {m : Mux} (taken : round upmaj np m = some (first, s)) :
    Goes upmaj (.visit np m) first s := by
  have goes := Goes.head taken (.refl s)
  rwa [List.append_nil] at goes

/-- A search that comes to an end returns, given enough rounds. -/
theorem search {cycle : Bool} {m : Mux} (goes : Goes upmaj s first t) (ends : t = .stop cycle m) :
    ∃ n, ∀ fuel, n ≤ fuel → Multiplexor.search upmaj fuel s = some (first, cycle, m) := by
  induction goes with
  | refl =>
    subst ends
    refine ⟨0, fun fuel _ => ?_⟩
    cases fuel <;> rfl
  | @head np k edge edges s t taken _ ih =>
    obtain ⟨n, returns⟩ := ih ends
    refine ⟨n + 1, fun fuel enough => ?_⟩
    obtain ⟨fuel, rfl⟩ := Nat.exists_eq_add_of_le' (Nat.le_trans (Nat.le_add_left 1 n) enough)
    simp [Multiplexor.search, taken, returns fuel (Nat.le_of_succ_le_succ enough)]

end Goes

@[simp] theorem node_setNode (m : Mux) (np x : Nat) (value : MuxNode → MuxNode) :
    (m.setNode np value).node x = if x = np then value (m.node np) else m.node x := by
  simp [Mux.setNode, Function.update_apply]

@[simp] theorem edge_setNode (m : Mux) (np : Nat) (value : MuxNode → MuxNode) : (m.setNode np value).edge = m.edge := rfl

/-! ## The graph of a search -/

/-- The graph in memory. -/
structure Drawn (out : Nat → List Nat) (target : Nat → Nat) (m : Mux) : Prop where
  first (np : Nat) : (m.node np).mnOutp = (out np).head?
  edge {np ep : Nat} {left right : List Nat} : out np = left ++ ep :: right →
    ∃ id, m.edge ep = some ⟨target ep, right.head?, id⟩

section
variable (out : Nat → List Nat) (target : Nat → Nat)

def leads (a b : Nat) : Prop := ∃ ep ∈ out a, target ep = b

/-- What the search relies on: the lists share no edge, and there is no cycle. -/
structure Shape : Prop where
  nodup (np : Nat) : (out np).Nodup
  apart {a b ep : Nat} : ep ∈ out a → ep ∈ out b → a = b
  acyclic : Acyclic (leads out target)
  wellFounded : WellFounded fun b a => leads out target a b

/-- The search has followed an edge of `a`. -/
def Passed (m : Mux) (a ep : Nat) : Prop :=
  (m.node a).visited ∧ ∃ left rest, out a = left ++ rest ∧ (m.node a).mnStartp = rest.head? ∧ ep ∈ left

/-- The search is done with `x`. -/
structure Finished (upmaj : Nat) (m : Mux) (x : Nat) : Prop where
  startp : out x ≠ [] → (m.node x).mnStartp = none
  visited (y : Nat) : ReflTransGen (leads out target) x y → (m.node y).visited ∧ y ≠ upmaj

/-- Between two rounds; `stale` is the `mn_startp` of the nodes before the search. -/
structure Searching (lomaj : Nat) (stale : Nat → Option Nat) (m : Mux) : Prop where
  drawn : Drawn out target m
  leaf {x : Nat} : out x = [] → (m.node x).mnStartp = stale x
  entered {x : Nat} : (m.node x).visited → x ≠ lomaj →
    ∃ a ep, ReflTransGen (leads out target) lomaj a ∧ Passed out m a ep ∧ target ep = x

/-- No node that keeps an old `mn_startp` can be entered twice. -/
def NoneStale (lomaj : Nat) (stale : Nat → Option Nat) : Prop :=
  ∀ leaf a b ep fp, out leaf = [] → ReflTransGen (leads out target) lomaj a → ReflTransGen (leads out target) lomaj b →
    ep ∈ out a → fp ∈ out b → ep ≠ fp → target ep = leaf → target fp = leaf → stale leaf = none

/-- What the search of the nodes `inside` changes. -/
structure Advance (inside : Nat → Prop) (m m' : Mux) : Prop where
  visited (x : Nat) : (m'.node x).visited ↔ (m.node x).visited ∨ inside x
  others (x : Nat) : ¬ inside x → m'.node x = m.node x

end

section
variable {out : Nat → List Nat} {target : Nat → Nat} {upmaj : Nat} {m m' : Mux}
  {a : Nat} {ep : Nat}

theorem Passed.mono (passed : Passed out m a ep) (visited : (m'.node a).visited)
    (same : (m'.node a).mnStartp = (m.node a).mnStartp) : Passed out m' a ep := by
  obtain ⟨_, left, rest, split, startp, member⟩ := passed
  exact ⟨visited, left, rest, split, same.trans startp, member⟩

theorem Passed.member (passed : Passed out m a ep) : ep ∈ out a := by
  obtain ⟨_, left, rest, split, _, member⟩ := passed
  simp [split, member]

/-- The edge at `mn_startp` has not been followed. -/
theorem Passed.not_next (nodup : (out a).Nodup)
    (startp : (m.node a).mnStartp = some ep) : ¬ Passed out m a ep := by
  rintro ⟨_, front, tail, other, next, member⟩
  rw [startp] at next
  cases tail with
  | nil => cases next
  | cons fp tail =>
    obtain rfl : ep = fp := by simpa using next
    rw [other] at nodup
    exact (List.nodup_append.mp nodup).2.2 ep member ep (by simp) rfl

theorem Finished.mono {x : Nat} (finished : Finished out target upmaj m x)
    (visited : ∀ y, (m.node y).visited → (m'.node y).visited)
    (same : (m'.node x).mnStartp = (m.node x).mnStartp) : Finished out target upmaj m' x where
  startp edges := same.trans (finished.startp edges)
  visited y path := ⟨visited y (finished.visited y path).1, (finished.visited y path).2⟩

theorem Drawn.congr (drawn : Drawn out target m) (edge : m'.edge = m.edge)
    (outp : ∀ np, (m'.node np).mnOutp = (m.node np).mnOutp) : Drawn out target m' where
  first np := (outp np).trans (drawn.first np)
  edge split := by
    rw [edge]
    exact drawn.edge split

theorem Shape.away (shape : Shape out target) {b : Nat} (edge : leads out target a b) :
    ¬ ReflTransGen (leads out target) b a :=
  fun path => shape.acyclic a (.head' edge path)

theorem Shape.other (shape : Shape out target) {a b : Nat} (edge : leads out target a b) : b ≠ a :=
  fun same => shape.away edge (same ▸ .refl)

end

/-! ## The search of a node -/

section
variable {out : Nat → List Nat} {target : Nat → Nat} {lomaj upmaj : Nat} {stale : Nat → Option Nat} {n : Nat}

/-- The edges followed are in the graph. -/
def Followed (out : Nat → List Nat) (edges : List (Nat × Nat)) : Prop := ∀ e ∈ edges, e.2 ∈ out e.1

/-- The search of `n` is over and goes back. -/
structure Explored (out : Nat → List Nat) (target : Nat → Nat) (lomaj upmaj : Nat) (stale : Nat → Option Nat) (n : Nat)
    (m m' : Mux) : Prop where
  searching : Searching out target lomaj stale m'
  advance : Advance (ReflTransGen (leads out target) n) m m'
  startp {x : Nat} : x ≠ n → (m.node x).visited → (m'.node x).mnStartp = (m.node x).mnStartp
  finished {x : Nat} : ReflTransGen (leads out target) n x → Finished out target upmaj m' x

/-- The search meets `upmaj`, or it goes back from `n`. -/
def Explores (out : Nat → List Nat) (target : Nat → Nat) (lomaj upmaj : Nat) (stale : Nat → Option Nat) (n : Nat)
    (m : Mux) : Prop :=
  (∃ edges m', Goes upmaj (.visit n m) edges (.stop true m') ∧ Followed out edges ∧
    Drawn out target m' ∧ ReflTransGen (leads out target) n upmaj) ∨
  ∃ edges m', Goes upmaj (.visit n m) edges (back (m.node n).mnOriginp m') ∧ Followed out edges ∧
    Explored out target lomaj upmaj stale n m m'

variable {m : Mux} {p ep : Nat} {left rest : List Nat}

/-- The memory after the edge `ep` of `p` is followed. -/
def follow (p c : Nat) (rest : List Nat) (m : Mux) : Mux :=
  (m.setNode p fun n => { n with mnStartp := rest.head? }).setNode c fun n => { n with mnOriginp := some p }

theorem round_follow (searching : Searching out target lomaj stale m) (visited : (m.node p).visited)
    (split : out p = left ++ ep :: rest) (startp : (m.node p).mnStartp = some ep) :
    round upmaj p m = some ([(p, ep)], .visit (target ep) (follow p (target ep) rest m)) := by
  obtain ⟨id, edge⟩ := searching.drawn.edge split
  simp [round, visited, startp, edge, follow]

theorem node_follow (p c x : Nat) : (follow p c rest m).node x =
    { m.node x with
      mnOriginp := if x = c then some p else (m.node x).mnOriginp
      mnStartp := if x = p then rest.head? else (m.node x).mnStartp } := by
  simp only [follow, node_setNode]
  by_cases first : x = c
  · subst first
    by_cases second : x = p
    · simp [second]
    · simp [second]
  · by_cases second : x = p
    · subst second
      simp [first]
    · simp [first, second]

attribute [local simp] node_follow

/-- The edges passed before, and `ep`. -/
theorem passed_follow {c a fp : Nat} (visited : (m.node p).visited) (split : out p = left ++ ep :: rest)
    (nodup : (out p).Nodup) (startp : (m.node p).mnStartp = some ep)
    (passed : Passed out m a fp ∨ (a = p ∧ fp = ep)) : Passed out (follow p c rest m) a fp := by
  by_cases same : a = p
  · subst same
    refine ⟨by simpa using visited, left ++ [ep], rest, by simp [split], by simp, ?_⟩
    rcases passed with ⟨_, front, tail, other, next, member⟩ | ⟨_, rfl⟩
    · cases tail with
      | nil => simp [startp] at next
      | cons gp tail =>
        obtain rfl : ep = gp := by simpa [startp] using next
        rw [other] at nodup split
        have away := (List.nodup_middle.mp nodup).notMem
        simp only [List.mem_append, not_or] at away
        obtain ⟨same, _⟩ := (List.append_cons_inj_of_notMem away.1 away.2).mp split
        simp [← same, member]
    · simp
  · rcases passed with passed | ⟨here, _⟩
    · exact passed.mono (by simpa using passed.1) (by simp [same])
    · exact absurd here same

theorem Searching.follow {c : Nat} (searching : Searching out target lomaj stale m) (shape : Shape out target)
    (visited : (m.node p).visited) (split : out p = left ++ ep :: rest) (startp : (m.node p).mnStartp = some ep) :
    Searching out target lomaj stale (follow p c rest m) where
  drawn := searching.drawn.congr rfl fun np => by simp
  leaf {x} empty := by
    have other : x ≠ p := by
      rintro rfl
      simp [split] at empty
    simpa [other] using searching.leaf empty
  entered seen other := by
    simp only [node_follow] at seen
    obtain ⟨a, fp, path, passed, lands⟩ := searching.entered seen other
    exact ⟨a, fp, path, passed_follow visited split (shape.nodup p) startp (.inl passed), lands⟩

/-- A node that is entered again has no `mn_startp`. -/
theorem Searching.again (searching : Searching out target lomaj stale m) (shape : Shape out target)
    (sane : NoneStale out target lomaj stale) (path : ReflTransGen (leads out target) lomaj p)
    (split : out p = left ++ ep :: rest) (startp : (m.node p).mnStartp = some ep)
    (seen : (m.node (target ep)).visited) (finished : Finished out target upmaj m (target ep)) :
    (m.node (target ep)).mnStartp = none := by
  have here : ep ∈ out p := by simp [split]
  by_cases empty : out (target ep) = []
  · rw [searching.leaf empty]
    have other : target ep ≠ lomaj := fun same => shape.away ⟨ep, here, same⟩ path
    obtain ⟨a, fp, reach, passed, lands⟩ := searching.entered seen other
    refine sane (target ep) p a ep fp empty path reach here passed.member ?_ rfl lands
    rintro rfl
    obtain rfl := shape.apart passed.member here
    exact Passed.not_next (shape.nodup a) startp passed
  · exact finished.startp empty

/-- Rounds that bring the search back to `p` come before the others. -/
theorem Explores.prepend {m' : Mux} {edges : List (Nat × Nat)} (explores : Explores out target lomaj upmaj stale p m')
    (goes : Goes upmaj (.visit p m) edges (.visit p m')) (followed : Followed out edges)
    (originp : (m'.node p).mnOriginp = (m.node p).mnOriginp)
    (grows : ∀ x, (m.node x).visited → (m'.node x).visited)
    (bound : ∀ x, (m'.node x).visited → (m.node x).visited ∨ ReflTransGen (leads out target) p x)
    (others : ∀ x, ¬ ReflTransGen (leads out target) p x → m'.node x = m.node x)
    (startp : ∀ x, x ≠ p → (m.node x).visited → (m'.node x).mnStartp = (m.node x).mnStartp) :
    Explores out target lomaj upmaj stale p m := by
  have both {second : List (Nat × Nat)} (more : Followed out second) : Followed out (edges ++ second) := by
    intro e member
    rcases List.mem_append.mp member with member | member
    · exact followed e member
    · exact more e member
  rcases explores with ⟨second, last, ends, more, drawn, reach⟩ | ⟨second, last, ends, more, explored⟩
  · exact .inl ⟨edges ++ second, last, goes.trans ends, both more, drawn, reach⟩
  · rw [originp] at ends
    refine .inr ⟨edges ++ second, last, goes.trans ends, both more, explored.searching, ⟨fun x => ?_, fun x away => ?_⟩,
      fun {x} other seen => ?_, explored.finished⟩
    · rw [explored.advance.visited]
      constructor
      · rintro (seen | reach)
        · exact bound x seen
        · exact .inr reach
      · exact Or.imp_left (grows x)
    · rw [explored.advance.others x away, others x away]
    · rw [explored.startp other (grows x seen), startp x other seen]

/-- What is to be shown of a node, assumed of those its edges lead to. -/
def Explorable (out : Nat → List Nat) (target : Nat → Nat) (lomaj upmaj : Nat) (stale : Nat → Option Nat) (n : Nat) : Prop :=
  ∀ m, Searching out target lomaj stale m → ReflTransGen (leads out target) lomaj n → (m.node n).visited = false →
    (n ≠ lomaj → ∃ a ep, ReflTransGen (leads out target) lomaj a ∧ Passed out m a ep ∧ target ep = n) →
    (∀ x, ReflTransGen (leads out target) n x → (m.node x).visited → Finished out target upmaj m x) →
    Explores out target lomaj upmaj stale n m

theorem explores_rest (shape : Shape out target) (sane : NoneStale out target lomaj stale)
    (path : ReflTransGen (leads out target) lomaj p) (differ : p ≠ upmaj)
    (children : ∀ c, leads out target p c → Explorable out target lomaj upmaj stale c)
    (searching : Searching out target lomaj stale m) (visited : (m.node p).visited)
    (split : out p = left ++ rest) (startp : (m.node p).mnStartp = rest.head?)
    (before : ∀ ep ∈ left, (m.node (target ep)).visited)
    (below : ∀ x, TransGen (leads out target) p x → (m.node x).visited → Finished out target upmaj m x) :
    Explores out target lomaj upmaj stale p m := by
  induction rest generalizing m left with
  | nil =>
    have all : ∀ x, ReflTransGen (leads out target) p x → (m.node x).visited ∧ x ≠ upmaj := by
      intro x reach
      rcases ReflTransGen.cases_head reach with rfl | ⟨c, ⟨ep, member, rfl⟩, reach⟩
      · exact ⟨visited, differ⟩
      · have seen := before ep (by simpa [split] using member)
        exact (below _ (.single ⟨ep, member, rfl⟩) seen).visited x reach
    refine .inr ⟨[], m, ?_, by simp [Followed], searching, ⟨fun x => ?_, fun _ _ => rfl⟩, fun _ _ => rfl, fun {x} reach => ?_⟩
    · have stop : round upmaj p m = some ([], back (m.node p).mnOriginp m) := by
        have none : (m.node p).mnStartp = none := startp
        simp [round, visited, none]
      exact .single stop
    · constructor
      · exact .inl
      · rintro (seen | reach)
        · exact seen
        · exact (all x reach).1
    · rcases reflTransGen_iff_eq_or_transGen.mp reach with rfl | deeper
      · exact ⟨fun _ => startp, all⟩
      · exact below x deeper (all x reach).1
  | cons ep rest ih =>
    have here : ep ∈ out p := by simp [split]
    have edge : leads out target p (target ep) := ⟨ep, here, rfl⟩
    have apart : target ep ≠ p := shape.other edge
    have within {x : Nat} (reach : ReflTransGen (leads out target) (target ep) x) : TransGen (leads out target) p x :=
      .head' edge reach
    have first : round upmaj p m = _ := round_follow searching visited split startp
    have next := searching.follow (c := target ep) shape visited split startp
    have done {x : Nat} (deeper : TransGen (leads out target) p x) (seen : (m.node x).visited) :
        Finished out target upmaj (follow p (target ep) rest m) x := by
      have other : x ≠ p := fun same => shape.acyclic p (same ▸ deeper)
      exact (below x deeper seen).mono (fun y seen => by simpa using seen) (by simp [other])
    have append : out p = (left ++ [ep]) ++ rest := by simp [split]
    by_cases seen : (m.node (target ep)).visited
    · -- The node has been visited before: back at once.
      have none := searching.again shape sane path split startp seen (below _ (.single edge) seen)
      have second : round upmaj (target ep) (follow p (target ep) rest m) =
          some ([], .visit p (follow p (target ep) rest m)) := by
        simp [round, seen, none, apart, back]
      have rest := ih next (by simpa using visited) append (by simp)
        (fun fp member => by
          rcases List.mem_append.mp member with member | member
          · simpa using before fp member
          · obtain rfl := List.mem_singleton.mp member
            simpa using seen)
        (fun x deeper seen => done deeper (by simpa using seen))
      refine rest.prepend ((Goes.single first).trans (.single second)) ?_ ?_ ?_ ?_ ?_ ?_
      · simpa [Followed] using here
      · simp [Ne.symm apart]
      · simp
      · intro x seen
        exact .inl (by simpa using seen)
      · intro x away
        have other : x ≠ p := fun same => away (same ▸ .refl)
        have outside : x ≠ target ep := fun same => away (same ▸ .single edge)
        simp [other, outside]
      · intro x other _
        simp [other]
    · rcases children _ edge _ next (path.tail edge) (by simpa using seen)
          (fun _ => ⟨p, ep, path, passed_follow visited split (shape.nodup p) startp (.inr ⟨rfl, rfl⟩), rfl⟩)
          (fun x reach seen => done (within reach) (by simpa using seen)) with
        ⟨edges, last, ends, followed, drawn, reach⟩ | ⟨edges, last, ends, followed, explored⟩
      · refine .inl ⟨(p, ep) :: edges, last, (Goes.single first).trans ends, ?_, drawn, .head edge reach⟩
        intro e member
        rcases List.mem_cons.mp member with rfl | member
        · exact here
        · exact followed e member
      · have returns : back ((follow p (target ep) rest m).node (target ep)).mnOriginp last = .visit p last := by
          simp [back]
        rw [returns] at ends
        -- The node itself is not below its child, so the child has not touched it.
        have kept := explored.advance.others p (shape.away edge)
        have grown (x : Nat) (seen : (m.node x).visited) : (last.node x).visited :=
          (explored.advance.visited x).mpr (.inl (by simpa using seen))
        have rest := ih explored.searching (by simpa [kept] using visited) append (by simp [kept])
          (fun fp member => by
            rcases List.mem_append.mp member with member | member
            · exact grown _ (before fp member)
            · obtain rfl := List.mem_singleton.mp member
              exact (explored.advance.visited _).mpr (.inr .refl))
          (fun x deeper seen => by
            by_cases reach : ReflTransGen (leads out target) (target ep) x
            · exact explored.finished reach
            · have old : (m.node x).visited := by
                rcases (explored.advance.visited x).mp seen with seen | reach
                · simpa using seen
                · exact absurd reach ‹_›
              refine (done deeper old).mono (fun y seen => (explored.advance.visited y).mpr (.inl seen)) ?_
              rw [explored.advance.others x reach])
        refine rest.prepend ((Goes.single first).trans ends) ?_ ?_ grown ?_ ?_ ?_
        · intro e member
          rcases List.mem_cons.mp member with rfl | member
          · exact here
          · exact followed e member
        · simp [kept, Ne.symm apart]
        · intro x seen
          rcases (explored.advance.visited x).mp seen with seen | reach
          · exact .inl (by simpa using seen)
          · exact .inr (within reach).to_reflTransGen
        · intro x away
          have other : x ≠ p := fun same => away (same ▸ .refl)
          have outside : ¬ ReflTransGen (leads out target) (target ep) x := fun reach => away (within reach).to_reflTransGen
          have further : x ≠ target ep := fun same => outside (same ▸ .refl)
          rw [explored.advance.others x outside]
          simp [other, further]
        · intro x other old
          by_cases child : x = target ep
          · exact absurd (child ▸ old) seen
          · rw [explored.startp child (by simpa using old)]
            simp [other]

/-- The node is marked; `value` is what is stored in it. -/
theorem Searching.enter (searching : Searching out target lomaj stale m) (fresh : (m.node n).visited = false)
    (entry : n ≠ lomaj → ∃ a ep, ReflTransGen (leads out target) lomaj a ∧ Passed out m a ep ∧ target ep = n)
    (value : MuxNode → MuxNode) (outp : (value (m.node n)).mnOutp = (m.node n).mnOutp)
    (leaf : out n = [] → (value (m.node n)).mnStartp = (m.node n).mnStartp) :
    Searching out target lomaj stale (m.setNode n value) := by
  have passes {a ep : Nat} (passed : Passed out m a ep) : Passed out (m.setNode n value) a ep := by
    have other : a ≠ n := by
      rintro rfl
      exact Bool.false_ne_true (fresh.symm.trans passed.1)
    exact passed.mono (by simp [other, passed.1]) (by simp [other])
  refine ⟨searching.drawn.congr rfl fun np => ?_, fun {x} empty => ?_, fun {x} visited other => ?_⟩
  · by_cases same : np = n
    · subst same
      simpa using outp
    · simp [same]
  · rw [← searching.leaf empty]
    by_cases same : x = n
    · subst same
      simpa using leaf empty
    · simp [same]
  · by_cases same : x = n
    · subst same
      obtain ⟨a, ep, reach, passed, lands⟩ := entry other
      exact ⟨a, ep, reach, passes passed, lands⟩
    · obtain ⟨a, ep, reach, passed, lands⟩ := searching.entered (by simpa [same] using visited) other
      exact ⟨a, ep, reach, passes passed, lands⟩

theorem explores_leaf (searching : Searching out target lomaj stale m) (fresh : (m.node n).visited = false)
    (entry : n ≠ lomaj → ∃ a ep, ReflTransGen (leads out target) lomaj a ∧ Passed out m a ep ∧ target ep = n)
    (differ : n ≠ upmaj) (empty : out n = []) : Explores out target lomaj upmaj stale n m := by
  have outp : (m.node n).mnOutp = none := by rw [searching.drawn.first, empty]; rfl
  have alone {x : Nat} (reach : ReflTransGen (leads out target) n x) : x = n := by
    rcases ReflTransGen.cases_head reach with same | ⟨c, ⟨ep, member, _⟩, _⟩
    · exact same.symm
    · simp [empty] at member
  have stop : round upmaj n m =
      some ([], back (m.node n).mnOriginp (m.setNode n fun n => { n with visited := true })) := by
    simp [round, fresh, differ, outp]
  refine .inr ⟨[], _, .single stop, by simp [Followed], searching.enter fresh entry _ rfl fun _ => rfl,
    ⟨fun x => ?_, fun x away => ?_⟩, fun {x} other _ => by simp [other], fun {x} reach => ?_⟩
  · by_cases same : x = n
    · subst same
      simp [ReflTransGen.refl]
    · have away : ¬ ReflTransGen (leads out target) n x := fun reach => same (alone reach)
      simp [same, away]
  · have other : x ≠ n := fun same => away (same ▸ .refl)
    simp [other]
  · obtain rfl := alone reach
    refine ⟨fun edges => absurd empty edges, fun y reach => ?_⟩
    obtain rfl := alone reach
    simp [differ]

theorem explores (shape : Shape out target) (sane : NoneStale out target lomaj stale) (n : Nat) :
    Explorable out target lomaj upmaj stale n := by
  induction n using shape.wellFounded.induction with
  | _ n ih =>
    intro m searching path fresh entry below
    by_cases found : n = upmaj
    · subst found
      have stop : round n n m = some ([], .stop true m) := by simp [round, fresh]
      exact .inl ⟨[], m, .single stop, by simp [Followed], searching.drawn, .refl⟩
    by_cases empty : out n = []
    · exact explores_leaf searching fresh entry found empty
    have outp : (m.node n).mnOutp ≠ none := by
      rw [searching.drawn.first]
      simpa using empty
    have start : round upmaj n m =
        some ([], .visit n (m.setNode n fun n => { n with visited := true, mnStartp := n.mnOutp })) := by
      simp [round, fresh, found, outp]
    have next := searching.enter fresh entry (fun n => { n with visited := true, mnStartp := n.mnOutp }) rfl
      fun leaf => absurd leaf empty
    have rest := explores_rest shape sane path found ih next (by simp) (List.nil_append _).symm
      (by simpa using searching.drawn.first n) (by simp) (fun x deeper seen => by
        have other : x ≠ n := fun same => shape.acyclic n (same ▸ deeper)
        refine (below x deeper.to_reflTransGen (by simpa [other] using seen)).mono (fun y seen => ?_) (by simp [other])
        by_cases same : y = n
        · simp [same]
        · simpa [same] using seen)
    refine rest.prepend (.single start) (by simp [Followed]) (by simp) (fun x seen => ?_) (fun x seen => ?_)
      (fun x away => ?_) (fun x other _ => by simp [other])
    · by_cases same : x = n
      · simp [same]
      · simpa [same] using seen
    · by_cases same : x = n
      · exact .inr (same ▸ .refl)
      · exact .inl (by simpa [same] using seen)
    · have other : x ≠ n := fun same => away (same ▸ .refl)
      simp [other]

end

end Svr4.Multiplexor
