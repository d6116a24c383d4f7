import Svr4.Foundation.Chain
import Svr4.Foundation.Digraph
import Svr4.Foundation.Execution

/-! The graph of multiplexor links, and the search of `linkcycle` for a cycle.

A node is named by its major number, which is its index and its `mn_imaj`; an edge by its
address. The memory of an edge that has been freed holds no edge, and a search that reads it
has no result. The search returns the edges that it has followed, each with the node that
it was followed from.
-/

namespace Svr4.Multiplexor

/-- `struct mux_node`; `visited` is the one flag. -/
structure MuxNode where
  mnOriginp : Option Nat
  mnStartp : Option Nat
  mnOutp : Option Nat
  visited : Bool
  deriving DecidableEq, Repr

/-- `struct mux_edge`. -/
structure MuxEdge where
  meNodep : Nat
  meNextp : Option Nat
  meMuxid : Nat
  deriving DecidableEq, Repr

structure Mux where
  node : Nat → MuxNode
  edge : Nat → Option MuxEdge

/-- What is read of a stream head: the type and the major number of its vnode. -/
structure Stdata where
  vfifo : Bool
  major : Nat
  deriving DecidableEq, Repr

namespace Mux

def setNode (m : Mux) (np : Nat) (value : MuxNode → MuxNode) : Mux :=
  { m with node := Function.update m.node np (value (m.node np)) }

def setEdge (m : Mux) (ep : Nat) (value : Option MuxEdge) : Mux :=
  { m with edge := Function.update m.edge ep value }

/-- The edge after an edge. -/
def next (m : Mux) (ep : Nat) : Option Nat := (m.edge ep).bind MuxEdge.meNextp

end Mux

/-- `MUX_CLEAR` of every node. -/
def muxClear (m : Mux) : Mux :=
  { m with node := fun np => { m.node np with visited := false, mnOriginp := none } }

/-- Where the search stands: at a node, or at its end. -/
inductive Search where
  | visit (np : Nat) (m : Mux)
  | stop (cycle : Bool) (m : Mux)

/-- Back to the node the search came from. -/
def back (originp : Option Nat) (m : Mux) : Search :=
  match originp with
  | none => .stop false m
  | some np => .visit np m

/-- One round of the loop of `linkcycle`. -/
def round (upmaj np : Nat) (m : Mux) : Option (List (Nat × Nat) × Search) :=
  let n := m.node np
  if ¬ n.visited then
    if np = upmaj then some ([], .stop true m)
    else if n.mnOutp = none then
      -- `mn_startp` keeps its value.
      some ([], back n.mnOriginp (m.setNode np fun n => { n with visited := true }))
    else some ([], .visit np (m.setNode np fun n => { n with visited := true, mnStartp := n.mnOutp }))
  else
    match n.mnStartp with
    | none => some ([], back n.mnOriginp m)
    | some ep => do
      let e ← m.edge ep
      let m := m.setNode np fun n => { n with mnStartp := e.meNextp }
      let m := m.setNode e.meNodep fun n => { n with mnOriginp := some np }
      return ([(np, ep)], .visit e.meNodep m)

def search (upmaj : Nat) : Nat → Search → Option (List (Nat × Nat) × Bool × Mux)
  | _, .stop cycle m => some ([], cycle, m)
  | 0, .visit _ _ => none
  | fuel + 1, .visit np m => do
    let (edge, s) ← round upmaj np m
    let (edges, result) ← search upmaj fuel s
    return (edge ++ edges, result)

def linkcycle (fuel : Nat) (upstp lostp : Stdata) (m : Mux) : Option (List (Nat × Nat) × Bool × Mux) :=
  if lostp.vfifo then some ([], false, m)
  else search upstp.major fuel (.visit lostp.major (muxClear m))

/-! ## Edges -/

/-- The last edge from `ep` on. -/
def lastEdge (m : Mux) : Nat → Nat → Option Nat
  | 0, _ => none
  | fuel + 1, ep =>
    match m.next ep with
    | none => some ep
    | some ep => lastEdge m fuel ep

/-- `alloc` is what `kmem_alloc` returns. -/
def muxAddedge (fuel : Nat) (upstp lostp : Stdata) (muxid : Nat) (alloc : Option Nat) (m : Mux) : Option Mux :=
  match (m.node upstp.major).mnOutp, alloc with
  | _, none => some m
  | none, some ep =>
    some ((m.setNode upstp.major fun n => { n with mnOutp := some ep }).setEdge ep (some ⟨lostp.major, none, muxid⟩))
  | some first, some ep => do
    let last ← lastEdge m fuel first
    let e ← m.edge last
    return (m.setEdge last (some { e with meNextp := some ep })).setEdge ep (some ⟨lostp.major, none, muxid⟩)

/-- The loop of `mux_rmvedge`, with the edge before `ep`. -/
def rmvedgeFrom (upmaj muxid : Nat) : Nat → Option Nat → Option Nat → Mux → Option Mux
  | 0, _, _, _ => none
  | _ + 1, _, none, m => some m
  | fuel + 1, pep, some ep, m => do
    let e ← m.edge ep
    if e.meMuxid = muxid then
      match pep with
      | none => return (m.setNode upmaj fun n => { n with mnOutp := e.meNextp }).setEdge ep none
      | some p => do
        let before ← m.edge p
        return (m.setEdge p (some { before with meNextp := e.meNextp })).setEdge ep none
    else rmvedgeFrom upmaj muxid fuel (some ep) e.meNextp m

def muxRmvedge (fuel : Nat) (upstp : Stdata) (muxid : Nat) (m : Mux) : Option Mux :=
  rmvedgeFrom upstp.major muxid fuel none (m.node upstp.major).mnOutp m

/-! ## Runs -/

/-- The graph, and the streams that `linkcycle` has just allowed to be linked. -/
structure State where
  mux : Mux
  allowed : Option (Stdata × Stdata)

inductive Event where
  | linkcycle (fuel : Nat) (upstp lostp : Stdata)
  | addedge (fuel : Nat) (upstp lostp : Stdata) (muxid : Nat) (alloc : Option Nat)
  | rmvedge (fuel : Nat) (upstp : Stdata) (muxid : Nat)

/-- `mux_addedge` comes right after a `linkcycle` that returned 0, and gets memory that is
not in use. No lower stream is a FIFO. -/
def apply (cdevcnt : Nat) (event : Event) (s : State) : Option State :=
  match event with
  | .linkcycle fuel upstp lostp =>
    if upstp.major < cdevcnt ∧ lostp.major < cdevcnt ∧ lostp.vfifo = false then do
      let (_, cycle, m) ← Multiplexor.linkcycle fuel upstp lostp s.mux
      return ⟨m, if cycle then none else some (upstp, lostp)⟩
    else none
  | .addedge fuel upstp lostp muxid alloc =>
    if s.allowed = some (upstp, lostp) ∧ ∀ ep ∈ alloc, s.mux.edge ep = none then do
      let m ← muxAddedge fuel upstp lostp muxid alloc s.mux
      return ⟨m, none⟩
    else none
  | .rmvedge fuel upstp muxid => do
    let m ← muxRmvedge fuel upstp muxid s.mux
    return ⟨m, none⟩

def Step (cdevcnt : Nat) (s : State) (event : Event) (t : State) : Prop := apply cdevcnt event s = some t

/-- The nodes as `strinit` sets them. -/
def strinit : State := ⟨⟨fun _ => ⟨none, none, none, false⟩, fun _ => none⟩, none⟩

/-! ## The graph -/

/-- An edge on the list of a node. -/
def Mux.Out (m : Mux) (np ep : Nat) : Prop := ∃ list, Chain m.next (m.node np).mnOutp list ∧ ep ∈ list

/-- There is an edge between two nodes. -/
def Mux.Leads (m : Mux) (a b : Nat) : Prop := ∃ ep e, m.Out a ep ∧ m.edge ep = some e ∧ e.meNodep = b

/-- `b` is reachable from `a` by zero or more edges. -/
abbrev Mux.Reach (m : Mux) : Nat → Nat → Prop := Relation.ReflTransGen m.Leads

/-- A node without edges whose `mn_startp` is left over, with two edges into it from where
a search from `lomaj` comes. -/
def Mux.Stale (m : Mux) (lomaj leaf : Nat) : Prop :=
  (m.node leaf).mnOutp = none ∧ (m.node leaf).mnStartp ≠ none ∧
    ∃ a b ep fp, ep ≠ fp ∧ m.Reach lomaj a ∧ m.Reach lomaj b ∧ m.Out a ep ∧ m.Out b fp ∧
      (m.edge ep).map MuxEdge.meNodep = some leaf ∧ (m.edge fp).map MuxEdge.meNodep = some leaf

/-- The searches that meet no such node. -/
def Sane (s : State) : Event → Prop
  | .linkcycle _ _ lostp => ∀ leaf, ¬ s.mux.Stale lostp.major leaf
  | _ => True

end Svr4.Multiplexor
