import Mathlib.Data.List.Basic

/-! Resource maps: `rmalloc` and `rmfree`.

A map is the table behind its header. Running off the end of the table is
`none`. Units are natural numbers, so ranges do not wrap.
-/

namespace Svr4.Rmap

structure Entry where
  mSize : Nat
  mAddr : Nat
  deriving DecidableEq, Repr

/-- `mapsize`, `mapwant` and the entries from `mapstart` on. -/
structure Map where
  mapsize : Nat
  mapwant : Bool
  entries : List Entry
  deriving DecidableEq, Repr

/-- A zeroed table of `size` entries, the header included, after `mapinit`. -/
def mapinit (size : Nat) : Map := ⟨size - 2, false, List.replicate (size - 1) ⟨0, 0⟩⟩

/-- Move the entries behind a hole down, up to the zero-size one. -/
def close : List Entry → Option (List Entry)
  | [] => none
  | entry :: rest => if entry.mSize = 0 then some (entry :: entry :: rest) else (close rest).map (entry :: ·)

/-- The loop of `rmalloc`: the base found, the entries after it and whether one
entry went. -/
def rmallocFrom (size : Nat) : List Entry → Option (Nat × List Entry × Bool)
  | [] => none
  | entry :: rest =>
      if entry.mSize = 0 then some (0, entry :: rest, false)
      else if size ≤ entry.mSize then
        if entry.mSize - size = 0 then (close rest).map fun rest => (entry.mAddr, rest, true)
        else some (entry.mAddr, ⟨entry.mSize - size, entry.mAddr + size⟩ :: rest, false)
      else (rmallocFrom size rest).map fun (base, rest, gone) => (base, entry :: rest, gone)

/-- The base of the allocated units; zero when there are none. -/
def rmalloc (map : Map) (size : Nat) : Option (Nat × Map) :=
  if size = 0 then some (0, map)
  else do
    let (base, entries, gone) ← rmallocFrom size map.entries
    return (base, { map with entries, mapsize := if gone then map.mapsize + 1 else map.mapsize })

/-- Move the entries up to make room for one. -/
def shove (new : Entry) : List Entry → Option (List Entry)
  | [] => none
  | entry :: rest => if entry.mSize = 0 then some (new :: rest) else (shove entry rest).map (new :: ·)

/-- What `rmfree` did to the number of entries. -/
inductive Effect where
  | same | fewer | more | lost
  deriving DecidableEq, Repr

/-- `rmfree` at the entry it stopped at, when the entry before it does not touch
the freed range. `room` is `mapsize != 0`. -/
def rmfreeAt (room : Bool) (size a : Nat) : List Entry → Option (List Entry × Effect)
  | [] => none
  | entry :: rest =>
      if a + size = entry.mAddr ∧ entry.mSize ≠ 0 then
        some (⟨entry.mSize + size, entry.mAddr - size⟩ :: rest, .same)
      else if room then (shove ⟨size, a⟩ (entry :: rest)).map (·, .more)
      else some (entry :: rest, .lost)

/-- `rmfree` when the freed range continues the entry before. -/
def rmfreeJoin (size a : Nat) (before : Entry) : List Entry → Option (List Entry × Effect)
  | [] => none
  | entry :: rest =>
      if entry.mAddr ≠ 0 ∧ a + size = entry.mAddr then
        -- The entries on both sides become one.
        let joined : Entry := ⟨before.mSize + size + entry.mSize, before.mAddr⟩
        if entry.mSize = 0 then some (joined :: entry :: rest, .fewer)
        else (close rest).map fun rest => (joined :: rest, .fewer)
      else some (⟨before.mSize + size, before.mAddr⟩ :: entry :: rest, .same)

/-- The search of `rmfree`, `before` being the entry passed last. -/
def rmfreeFrom (room : Bool) (size a : Nat) : Option Entry → List Entry → Option (List Entry × Effect)
  | _, [] => none
  | before, entry :: rest =>
      if entry.mAddr ≤ a ∧ entry.mSize ≠ 0 then do
        let (list, effect) ← rmfreeFrom room size a (some entry) rest
        return match before with
          | none => (list, effect)
          | some before => (before :: list, effect)
      else
        match before with
        | none => rmfreeAt room size a (entry :: rest)
        | some before =>
            if before.mAddr + before.mSize = a then rmfreeJoin size a before (entry :: rest)
            else (rmfreeAt room size a (entry :: rest)).map fun (list, effect) => (before :: list, effect)

/-- The map after the call, and whether `mapwant` made it wake the sleepers. -/
def rmfree (map : Map) (size a : Nat) : Option (Map × Bool) :=
  if size = 0 then some (map, false)
  else do
    let (entries, effect) ← rmfreeFrom (map.mapsize ≠ 0) size a none map.entries
    match effect with
    | .lost => return (map, false)
    | .same => return ({ map with entries, mapwant := false }, map.mapwant)
    | .fewer => return ({ map with entries, mapwant := false, mapsize := map.mapsize + 1 }, map.mapwant)
    | .more => return ({ map with entries, mapwant := false, mapsize := map.mapsize - 1 }, map.mapwant)

/-- `rmfree` reports a map overflow, and the range is lost. -/
def Map.overflows (map : Map) (size a : Nat) : Prop :=
  size ≠ 0 ∧ (rmfreeFrom (map.mapsize ≠ 0) size a none map.entries).map Prod.snd = some .lost

instance (map : Map) (size a : Nat) : Decidable (map.overflows size a) := inferInstanceAs (Decidable (_ ∧ _))

end Svr4.Rmap
