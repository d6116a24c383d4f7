import Svr4.Foundation.Bytes
import Svr4.Kernel.Kma
import Svr4.Kernel.Streams.Blocks

/-! The bytes of message blocks, and what `copyb` does to them. -/

namespace Svr4.Memory

/-- `n` words are moved, one after the other. -/
def movblw (m : Memory) (s d : Nat) : Nat → Memory
  | 0 => m
  | n + 1 => movblw (m.copy s d 4) (s + 4) (d + 4) n

/-- `strbcpy`, which counts in words. -/
def strbcpy (m : Memory) (s d c : Nat) : Memory := m.movblw s d ((c + 3) / 4)

section
variable {m : Memory} {s d n i : Nat}

theorem copy_outside (outside : i < d ∨ d + n ≤ i) : m.copy s d n i = m i := if_neg (by omega)

theorem copy_inside (less : i < n) : m.copy s d n (d + i) = m (s + i) := by
  rw [copy, if_pos (by omega), Nat.add_sub_cancel_left]

theorem movblw_outside (outside : i < d ∨ d + 4 * n ≤ i) : m.movblw s d n i = m i := by
  induction n generalizing m s d with
  | zero => rfl
  | succ n ih =>
    rw [movblw, ih (by omega), copy_outside (by omega)]

/-- The first word is read before anything is stored. -/
theorem movblw_first (some : 0 < n) (less : i < 4) : m.movblw s d n (d + i) = m (s + i) := by
  obtain ⟨n, rfl⟩ := Nat.exists_eq_add_one.mpr some
  rw [movblw, movblw_outside (by omega), copy_inside less]

theorem movblw_inside (less : i < 4 * n) (apart : s + i < d ∨ d + 4 * n ≤ s + i) : m.movblw s d n (d + i) = m (s + i) := by
  induction n generalizing m s d i with
  | zero => omega
  | succ n ih =>
    by_cases first : i < 4
    · exact movblw_first (Nat.succ_pos n) first
    · obtain ⟨j, rfl⟩ := Nat.exists_eq_add_of_le (not_lt.mp first)
      rw [movblw]
      have later := (@ih (m.copy s d 4) (s + 4) (d + 4) j) (by omega) (by omega)
      rw [← Nat.add_assoc, later, Nat.add_assoc, copy_outside (by omega)]

end

end Svr4.Memory

namespace Svr4.StreamBlocks

/-- The word that an address is in. -/
def straln (a : Nat) : Nat := a / 4 * 4

/-- The bytes that `kmem_alloc` sets aside for a request. -/
def kmemRoom (size : Nat) : Nat :=
  if size ≤ Kma.maxabig then Kma.minsmall * 2 ^ Kma.fit size Kma.sminoffset else (size + (Kma.nbpc - 1)) / Kma.nbpc * Kma.nbpc

/-- Where the buffers are. The one inside a triplet and those of `kmem_alloc` start at a word. -/
structure Layout where
  databuf : Nat → Nat
  kmem : Nat → Nat
  databuf_aligned : ∀ t, 4 ∣ databuf t
  kmem_aligned : ∀ n, 4 ∣ kmem n

namespace Layout

/-- `db_base` of a data block. -/
def dbBase (l : Layout) (s : Blocks) (dbp : Nat) : Nat :=
  match (s.dblk dbp).dbBase with
  | .own => l.databuf dbp
  | .kmem n => l.kmem n
  | .external _ address => address

/-- The bytes of a buffer. -/
def room (s : Blocks) (dbp : Nat) : Nat :=
  match (s.dblk dbp).dbBase with
  | .own => fastbuf
  | .kmem _ => kmemRoom (s.dblk dbp).dbLim
  | .external _ _ => (s.dblk dbp).dbLim

def bRptr (l : Layout) (s : Blocks) (bp : Nat) : Nat := l.dbBase s (s.mblk bp).bDatap + (s.mblk bp).bRptr

def bWptr (l : Layout) (s : Blocks) (bp : Nat) : Nat := l.dbBase s (s.mblk bp).bDatap + (s.mblk bp).bWptr

end Layout

/-- Message blocks with the bytes in memory, and the fields of a header that only copies read. -/
structure Image where
  blocks : Blocks
  mem : Memory
  bBand : Nat → Nat
  bFlag : Nat → Nat

namespace Image

/-- The bytes of a block. -/
def bytes (l : Layout) (i : Image) (bp : Nat) : List UInt8 := i.mem.bytes (l.bRptr i.blocks bp) (i.blocks.size bp)

/-- `allocb` clears the band and the flags of the new header. -/
def copyb (l : Layout) (supply : Blocks.Supply) (bp : Nat) (i : Image) : Option Nat × Image :=
  match i.blocks.copyb supply bp with
  | (none, s) => (none, { i with blocks := s })
  | (some nbp, s) =>
    let base := straln (l.bRptr s nbp)
    (some nbp,
      { blocks := s
        mem := i.mem.strbcpy (straln (l.bRptr i.blocks bp)) base (straln (l.bWptr s nbp + 3) - base)
        bBand := Function.update i.bBand nbp (i.bBand bp)
        bFlag := Function.update i.bFlag nbp (i.bFlag bp) })

end Image

/-- The new block has what the old one has, and nothing else changes. -/
structure Copied (l : Layout) (bp nbp : Nat) (i j : Image) : Prop where
  bytes : j.bytes l nbp = i.bytes l bp
  type : j.blocks.blockType nbp = i.blocks.blockType bp
  band : j.bBand nbp = i.bBand bp
  flag : j.bFlag nbp = i.bFlag bp
  inside : ∀ a, a < l.dbBase j.blocks (j.blocks.mblk nbp).bDatap ∨
    l.dbBase j.blocks (j.blocks.mblk nbp).bDatap + Layout.room j.blocks (j.blocks.mblk nbp).bDatap ≤ a → j.mem a = i.mem a

/-- The buffers of two blocks have no byte in common. -/
def Apart (l : Layout) (s : Blocks) (bp : Nat) (t : Blocks) (nbp : Nat) : Prop :=
  l.dbBase s (s.mblk bp).bDatap + (s.dblk (s.mblk bp).bDatap).dbLim ≤ l.dbBase t (t.mblk nbp).bDatap ∨
    l.dbBase t (t.mblk nbp).bDatap + Layout.room t (t.mblk nbp).bDatap ≤ l.dbBase s (s.mblk bp).bDatap

section
variable {supply : Blocks.Supply} {s t : Blocks} {bp nbp size i : Nat}

theorem fit_spec (first : Nat) : size ≤ Kma.minsmall * 2 ^ Kma.fit size first := by
  induction first using Kma.fit.induct size with
  | case1 i less ih =>
    rw [Kma.fit, if_pos less]
    exact ih
  | case2 i more =>
    rw [Kma.fit, if_neg more]
    exact not_lt.mp more

theorem kmemRoom_words : (size + 3) / 4 * 4 ≤ kmemRoom size := by
  unfold kmemRoom
  split
  · have holds := (@fit_spec size) Kma.sminoffset
    generalize Kma.fit size Kma.sminoffset = e at holds ⊢
    simp only [Kma.minsmall] at holds ⊢
    omega
  · simp only [Kma.nbpc]
    omega

/-- A new block of at least the size that is asked for. -/
theorem allocb_new (call : Blocks.allocb supply size s = (some nbp, t)) :
    t.mblk nbp = ⟨none, 0, 0, nbp⟩ ∧ (((t.dblk nbp).dbBase = .own ∧ size ≤ fastbuf) ∨
      ∃ n, (t.dblk nbp).dbBase = .kmem n ∧ (t.dblk nbp).dbLim = size) := by
  rw [Blocks.allocb] at call
  cases taken : Blocks.takeMdbblock supply.block s with
  | none =>
    rw [taken] at call
    cases call
  | some pair =>
    obtain ⟨mdbptr, u⟩ := pair
    simp only [taken] at call
    by_cases large : (size : Int) > fastbuf
    · rw [if_pos large] at call
      cases got : Blocks.kmemAlloc supply.buffer (size : Int).toNat (Blocks.initTriplet mdbptr u) with
      | none =>
        rw [got] at call
        cases call
      | some pair =>
        obtain ⟨buf, u'⟩ := pair
        rw [got] at call
        obtain ⟨same, rfl⟩ := Prod.mk.inj call
        obtain rfl := Option.some.inj same
        simp only [Blocks.kmemAlloc, Option.ite_none_left_eq_some, Option.ite_none_right_eq_some] at got
        obtain ⟨-, -, pair⟩ := got
        obtain ⟨rfl, rfl⟩ := Prod.mk.inj (Option.some.inj pair)
        refine ⟨by simp [Blocks.setBuffer, Blocks.initTriplet, Blocks.setMblk, Blocks.setDblk],
          .inr ⟨(Blocks.initTriplet mdbptr u).buffers, ?_, ?_⟩⟩
        · simp [Blocks.setBuffer, Blocks.setDblk]
        · simp [Blocks.setBuffer, Blocks.setDblk]
    · rw [if_neg large] at call
      obtain ⟨same, rfl⟩ := Prod.mk.inj call
      cases same
      refine ⟨by simp [Blocks.setBuffer, Blocks.initTriplet, Blocks.setMblk, Blocks.setDblk], .inl ⟨?_, by omega⟩⟩
      simp [Blocks.setBuffer, Blocks.setDblk]

/-- The new block of `copyb`. -/
theorem copyb_new (call : Blocks.copyb supply bp s = (some nbp, t)) :
    t.mblk nbp = ⟨none, (s.mblk bp).bRptr, (s.mblk bp).bWptr, nbp⟩ ∧
      (t.dblk nbp).dbType = (s.dblk (s.mblk bp).bDatap).dbType ∧
      (((t.dblk nbp).dbBase = .own ∧ (s.dblk (s.mblk bp).bDatap).dbLim ≤ fastbuf) ∨
        ∃ n, (t.dblk nbp).dbBase = .kmem n ∧ (t.dblk nbp).dbLim = (s.dblk (s.mblk bp).bDatap).dbLim) := by
  rw [Blocks.copyb] at call
  generalize (s.dblk (s.mblk bp).bDatap).dbLim = size at call ⊢
  cases made : Blocks.allocb supply size s with
  | mk result u =>
    simp only [made] at call
    cases result with
    | none => cases call
    | some new =>
      obtain ⟨same, rfl⟩ := Prod.mk.inj call
      cases same
      obtain ⟨block, base⟩ := allocb_new made
      simpa [Blocks.hold, Blocks.setMblk, Blocks.setDblk, block] using base

end

/-! ## Copying words -/

section
variable {m : Memory} {b n r w : Nat}

/-- What `copyb` does to memory: the buffers start at `b` and `n`, the bytes are those from
`r` to `w`. -/
abbrev copied (m : Memory) (b n r w : Nat) : Memory :=
  m.strbcpy (straln (b + r)) (straln (n + r)) (straln (n + w + 3) - straln (n + r))

theorem copied_outside {a : Nat} (outside : a < straln (n + r) ∨ straln (n + w + 3) ≤ a) :
    copied m b n r w a = m a := by
  exact Memory.movblw_outside (by unfold straln at *; omega)

theorem copied_aligned (old : 4 ∣ b) (new : 4 ∣ n) (ordered : r ≤ w)
    (apart : b + w ≤ straln (n + r) ∨ straln (n + w + 3) ≤ b + r) :
    (copied m b n r w).bytes (n + r) (w - r) = m.bytes (b + r) (w - r) := by
  refine Memory.bytes_congr fun j less => ?_
  unfold straln at *
  have place : n + r + j = (n + r) / 4 * 4 + (r % 4 + j) := by omega
  have source : b + r + j = (b + r) / 4 * 4 + (r % 4 + j) := by omega
  rw [place, source]
  exact Memory.movblw_inside (by unfold straln; omega) (by unfold straln; omega)

/-- The first byte comes from another place in its word. -/
theorem copied_misaligned (old : ¬ 4 ∣ b) (new : 4 ∣ n) (filled : r < w) :
    ∃ m : Memory, (copied m b n r w).bytes (n + r) (w - r) ≠ m.bytes (b + r) (w - r) := by
  let m : Memory := fun a => if a = b + r then 1 else 0
  refine ⟨m, fun same => ?_⟩
  have head := congrArg (fun list => list[0]?) same
  simp only [Memory.bytes, List.getElem?_map, List.getElem?_range (Nat.sub_pos_of_lt filled), Option.map_some, Nat.add_zero,
    Option.some.injEq] at head
  have place : n + r = straln (n + r) + r % 4 := by
    unfold straln
    omega
  have moved : copied m b n r w (straln (n + r) + r % 4) = m (straln (b + r) + r % 4) :=
    Memory.movblw_first (by unfold straln; omega) (Nat.mod_lt _ (by decide))
  have other : straln (b + r) + r % 4 ≠ b + r := by
    unfold straln
    omega
  rw [← place] at moved
  rw [moved] at head
  simp only [m, if_neg other] at head
  exact absurd head (by decide)

end

section
variable {l : Layout} {supply : Blocks.Supply} {s t : Blocks} {bp nbp : Nat}

/-- `copyb` copies every block with a buffer that starts at a word, and every block without bytes. -/
theorem copyb_copies_iff (call : Blocks.copyb supply bp s = (some nbp, t)) (ordered : (s.mblk bp).bRptr ≤ (s.mblk bp).bWptr)
    (within : (s.mblk bp).bWptr ≤ (s.dblk (s.mblk bp).bDatap).dbLim) (apart : Apart l s bp t nbp) :
    (∀ i : Image, i.blocks = s → (i.copyb l supply bp).1 = some nbp ∧ Copied l bp nbp i (i.copyb l supply bp).2) ↔
      4 ∣ l.dbBase s (s.mblk bp).bDatap ∨ (s.mblk bp).bRptr = (s.mblk bp).bWptr := by
  obtain ⟨block, type, base⟩ := copyb_new call
  have data : (t.mblk nbp).bDatap = nbp := by rw [block]
  have aligned : 4 ∣ l.dbBase t nbp := by
    rcases base with ⟨own, -⟩ | ⟨n, kmem, -⟩
    · simpa [Layout.dbBase, own] using l.databuf_aligned nbp
    · simpa [Layout.dbBase, kmem] using l.kmem_aligned n
  have room : ((s.mblk bp).bWptr + 3) / 4 * 4 ≤ Layout.room t nbp := by
    rcases base with ⟨own, small⟩ | ⟨n, kmem, lim⟩
    · simp only [Layout.room, own, fastbuf] at small ⊢
      omega
    · simp only [Layout.room, kmem, lim]
      exact Nat.le_trans (by omega) kmemRoom_words
  have run (i : Image) (same : i.blocks = s) : i.copyb l supply bp = (some nbp,
      { blocks := t
        mem := copied i.mem (l.dbBase s (s.mblk bp).bDatap) (l.dbBase t nbp) (s.mblk bp).bRptr (s.mblk bp).bWptr
        bBand := Function.update i.bBand nbp (i.bBand bp)
        bFlag := Function.update i.bFlag nbp (i.bFlag bp) }) := by
    rw [Image.copyb, same, call]
    simp [Layout.bRptr, Layout.bWptr, block]
  rw [Apart, data] at apart
  generalize new : l.dbBase t nbp = n at *
  generalize old : l.dbBase s (s.mblk bp).bDatap = b at *
  constructor
  · intro all
    by_contra neither
    obtain ⟨misaligned, differ⟩ := not_or.mp neither
    obtain ⟨m, wrong⟩ := copied_misaligned (r := (s.mblk bp).bRptr) (w := (s.mblk bp).bWptr) misaligned aligned (by omega)
    obtain ⟨-, copies⟩ := all ⟨s, m, fun _ => 0, fun _ => 0⟩ rfl
    rw [run _ rfl] at copies
    have bytes := copies.bytes
    simp only [Image.bytes, Layout.bRptr, Blocks.size, block, new, old] at bytes
    exact wrong bytes
  · rintro either i rfl
    rw [run i rfl]
    refine ⟨rfl, ⟨?_, ?_, by simp, by simp, fun a outside => ?_⟩⟩
    · simp only [Image.bytes, Layout.bRptr, Blocks.size, block, new, old]
      rcases either with starts | empty
      · refine copied_aligned starts aligned ordered ?_
        unfold straln
        omega
      · rw [empty, Nat.sub_self]
        rfl
    · simp only [Blocks.blockType, data, type]
    · refine copied_outside ?_
      simp only [data, new] at outside
      unfold straln
      omega

/-- Triplets of 128 bytes, and pages behind them. -/
def flat : Layout where
  databuf t := 128 * t + 68
  kmem n := 1048576 + 2048 * n
  databuf_aligned t := by omega
  kmem_aligned n := by omega

/-- Two triplets are free. -/
def unused : Blocks where
  mblk _ := ⟨none, 0, 0, 0⟩
  dblk _ := ⟨none, .own, 0, 0, 0, .mdbblk, 0⟩
  mdbfreelist := [0, 1]
  msgfreelist := []
  fresh := 2
  triplets := {0, 1}
  pool := ∅
  live := ∅
  buffers := 0
  log := []
  freeing := none

/-- A block with a byte in a buffer of its owner. -/
def external (base : Nat) : Blocks :=
  (Blocks.esballoc ⟨true, true⟩ base 16 (some ⟨none, 0⟩) unused).2.setMblk 0 fun m => { m with bWptr := 1 }

def contents (base : Nat) : Image := ⟨external base, fun a => if a = 4097 then 7 else 5, fun _ => 0, fun _ => 0⟩

/-- The buffer starts at a word. -/
theorem copyb_copies_iff_word : ((contents 4096).copyb flat ⟨true, true⟩ 0).1 = some 1 ∧
    Copied flat 0 1 (contents 4096) ((contents 4096).copyb flat ⟨true, true⟩ 0).2 :=
  ((@copyb_copies_iff flat ⟨true, true⟩ (external 4096) (Blocks.copyb ⟨true, true⟩ 0 (external 4096)).2 0 1) rfl (by decide) (by decide) (.inr (by decide))).mpr
    (.inl (by decide)) (contents 4096) rfl

/-- The buffer starts behind the first byte of a word, and the copy begins with that one. -/
theorem copyb_shifts : ((contents 4097).copyb flat ⟨true, true⟩ 0).1 = some 1 ∧
    (contents 4097).bytes flat 0 = [7] ∧ ((contents 4097).copyb flat ⟨true, true⟩ 0).2.bytes flat 1 = [5] :=
  ⟨rfl, by decide, by decide⟩

end

end Svr4.StreamBlocks
