import Svr4.Kernel.Streams.Adjmsg
import Svr4.Kernel.Streams.BlockLife

/-! `pullupmsg`: the first bytes of a message are brought together in its first block. -/

namespace Svr4.StreamBlocks

open Words
open Function (update comp_apply)
open Option (some map_some map_map)
open List (mem_of_head? mem_cons mem_append_left append_assoc)

attribute [local simp] Blocks.advance

/-- The address of a buffer; the one inside a triplet goes with its data block. -/
def Layout.buffer (l : Layout) (dbp : Nat) : Base → Nat
  | .own => l.databuf dbp
  | .kmem n => l.kmem n
  | .external _ address => address

/-- The special cases of `pullupmsg`: it returns at once, or it goes on with a number of bytes,
which is an int. -/
def Blocks.pullCount (l : Layout) (s : Blocks) (fuel mp : Nat) (len : Int) : Option (Except Bool Int) :=
  if len = -1 then
    if (s.mblk mp).bCont = none then
      if l.bRptr s mp % 4 = 0 then some (.error true) else some (.ok (s.size mp))
    else (s.xmsgsize fuel mp).map fun count : Nat => .ok (toInt count)
  else if (s.size mp : Int) ≥ len then
    if l.bRptr s mp % 4 = 0 then some (.error true) else some (.ok (s.size mp))
  else (s.xmsgsize fuel mp).map fun count : Nat => if toInt count < len then .error false else .ok len

namespace Image

/-- The loop that copies `len` bytes from `bp` on to `wp`: where the bytes end, and the block it stops at. -/
def pullLoop (l : Layout) (mp : Nat) : Nat → Nat → Option Nat → Nat → Image → Option (Nat × Option Nat × Image)
  | _, 0, bp, wp, i => some (wp, bp, i)
  | _, _ + 1, none, wp, i => some (wp, none, i)
  | 0, _ + 1, some _, _, _ => none
  | fuel + 1, len + 1, some bp, wp, i =>
    let n := min (i.blocks.size bp) (len + 1)
    let i := { i with blocks := i.blocks.advance bp n, mem := i.mem.copy (l.bRptr i.blocks bp) wp n }
    if (i.blocks.mblk bp).bWptr ≠ (i.blocks.mblk bp).bRptr then some (wp + n, some bp, i)
    else
      let bcont := (i.blocks.mblk bp).bCont
      let i := if bp ≠ mp then { i with blocks := Blocks.freeb bp i.blocks } else i
      pullLoop l mp fuel (len + 1 - n) bcont (wp + n) i

/-- The result says whether the bytes are together. Where the count of the bytes of a shared block
has become negative, what the copy does is not defined; `kmem_alloc` has no memory for such a request. -/
def pullupmsg (l : Layout) (supply : Blocks.Supply) (fuel mp : Nat) (len : Int) (i : Image) : Option (Bool × Image) :=
  match i.blocks.pullCount l fuel mp len with
  | none => none
  | some (.error result) => some (result, i)
  | some (.ok len) =>
    let s := i.blocks
    let dbp := (s.mblk mp).bDatap
    if (s.dblk dbp).dbRef > 1 then
      let type := (s.dblk dbp).dbType
      match Blocks.allocb supply len s with
      | (none, s) => some (false, { i with blocks := s })
      | (some newmp, s) =>
        if len < 0 then none
        else
          let wp := l.buffer newmp (s.dblk newmp).dbBase
          let s := s.setDblk newmp fun d => { d with dbType := type }
          let s := Blocks.lessRef dbp s
          (pullLoop l mp fuel len.toNat (some mp) wp { i with blocks := s }).map fun (ended, bp, i) =>
            (true, { i with
              blocks := Blocks.crossConnect mp dbp newmp (ended - wp) bp i.blocks
              bBand := update i.bBand newmp (i.bBand mp)
              bFlag := update i.bFlag newmp (i.bFlag mp) })
    else
      match Blocks.kmemAlloc supply.buffer len.toNat s with
      | none => some (false, i)
      | some (newbuf, s) =>
        let wp := l.buffer dbp newbuf
        (pullLoop l mp fuel len.toNat (some mp) wp { i with blocks := s }).map fun (ended, bp, i) =>
          (true, { i with blocks := Blocks.replaceBuffer mp dbp len.toNat (ended - wp) newbuf bp i.blocks })

end Image

/-! ## The loop -/

/-- A block has no byte among the `n` bytes at `wp`. -/
def Off (l : Layout) (s : Blocks) (wp n h : Nat) : Prop := l.bWptr s h ≤ wp ∨ wp + n ≤ l.bRptr s h

/-- What freeing and copying leave alone: where the blocks are linked, and where the buffers are. -/
structure Steady (s t : Blocks) : Prop where
  links : ∀ h, (t.mblk h).bCont = (s.mblk h).bCont ∧ (t.mblk h).bDatap = (s.mblk h).bDatap
  data : ∀ d, (t.dblk d).dbBase = (s.dblk d).dbBase ∧ (t.dblk d).dbType = (s.dblk d).dbType ∧
    (t.dblk d).dbLim = (s.dblk d).dbLim

/-- The loop has gone through the blocks `gone` and over `p` bytes of the first of `rest`. -/
structure Pulled (l : Layout) (mp : Nat) (i j : Image) (wp n : Nat) (gone rest : List Nat) (p : Nat) : Prop where
  steady : Steady i.blocks j.blocks
  live : ∀ h, h ∈ j.blocks.live ↔ h ∈ i.blocks.live ∧ (h ∈ gone → h = mp)
  count : i.blocks.total gone + p = n
  inside : ∀ h, rest.head? = some h → p ≠ 0 → p < i.blocks.size h
  first : ∀ h, rest.head? = some h → j.blocks.mblk h = { i.blocks.mblk h with bRptr := (i.blocks.mblk h).bRptr + p }
  others : ∀ h, h ∉ gone → rest.head? ≠ some h → j.blocks.mblk h = i.blocks.mblk h
  ends : rest = [] → p = 0
  header : j.bBand = i.bBand ∧ j.bFlag = i.bFlag
  outside : ∀ a, a < wp ∨ wp + n ≤ a → j.mem a = i.mem a

section
variable {l : Layout} {s t : Blocks} {i j : Image} {mp fuel h n wp p : Nat} {after list gone rest : List Nat}

theorem Layout.dbBase_eq (d : Nat) : l.dbBase s d = l.buffer d (s.dblk d).dbBase := by
  cases base : (s.dblk d).dbBase <;> simp [Layout.dbBase, Layout.buffer, base]

theorem Steady.refl : Steady s s := ⟨fun _ => ⟨rfl, rfl⟩, fun _ => ⟨rfl, rfl, rfl⟩⟩

theorem Steady.trans {u : Blocks} (one : Steady s t) (two : Steady t u) : Steady s u :=
  ⟨fun h => ⟨(two.links h).1.trans (one.links h).1, (two.links h).2.trans (one.links h).2⟩,
    fun d => ⟨(two.data d).1.trans (one.data d).1, (two.data d).2.1.trans (one.data d).2.1,
      (two.data d).2.2.trans (one.data d).2.2⟩⟩

theorem Steady.cont (steady : Steady s t) : t.cont = s.cont := funext fun h => (steady.links h).1

theorem Steady.dbBase (steady : Steady s t) (d : Nat) : l.dbBase t d = l.dbBase s d := by
  rw [Layout.dbBase_eq, Layout.dbBase_eq, (steady.data d).1]

theorem Steady.blockType (steady : Steady s t) (h : Nat) : t.blockType h = s.blockType h := by
  rw [Blocks.blockType, Blocks.blockType, (steady.links h).2, (steady.data _).2.1]

theorem advance_steady : Steady s (s.advance h n) :=
  ⟨(advance_moved (List.mem_singleton.mpr rfl)).links, fun _ => ⟨rfl, rfl, rfl⟩⟩

theorem freeb_steady : Steady s (Blocks.freeb h s) := by
  obtain ⟨mblk, -⟩ := freeb_frame s h
  refine ⟨fun k => by rw [mblk]; exact ⟨rfl, rfl⟩, fun d => ?_⟩
  rw [freeb_dblk]
  exact ⟨rfl, rfl, rfl⟩

theorem bytes_congr (block : j.blocks.mblk h = i.blocks.mblk h)
    (base : l.dbBase j.blocks (i.blocks.mblk h).bDatap = l.dbBase i.blocks (i.blocks.mblk h).bDatap)
    (mem : ∀ a, l.bRptr i.blocks h ≤ a → a < l.bWptr i.blocks h → j.mem a = i.mem a) : j.bytes l h = i.bytes l h := by
  have rptr : l.bRptr j.blocks h = l.bRptr i.blocks h := by rw [Layout.bRptr, Layout.bRptr, block, base]
  have size : j.blocks.size h = i.blocks.size h := by rw [Blocks.size, Blocks.size, block]
  rw [Image.bytes, Image.bytes, size]
  refine Memory.bytes_congr fun k less => ?_
  rw [rptr]
  refine mem _ (Nat.le_add_right _ _) ?_
  simp only [Blocks.size] at less
  simp only [Layout.bRptr, Layout.bWptr]
  omega

theorem bytes_append (m : Memory) (o n k : Nat) : m.bytes o (n + k) = m.bytes o n ++ m.bytes (o + n) k := by
  refine List.ext_getElem (by simp) fun x first second => ?_
  by_cases less : x < n
  · rw [List.getElem_append_left (by simpa using less)]
    simp [Memory.bytes]
  · rw [List.getElem_append_right (by simpa using less)]
    simp only [Memory.bytes, List.getElem_map, List.getElem_range, List.length_map, List.length_range]
    congr 1
    omega

theorem Pulled.start : Pulled l mp i i wp 0 [] rest 0 :=
  ⟨.refl, fun h => by simp, by simp [Blocks.total], fun _ _ wrong => absurd rfl wrong, fun _ _ => rfl,
    fun _ _ _ => rfl, fun _ => rfl, ⟨rfl, rfl⟩, fun _ _ => rfl⟩

theorem Pulled.through {i₂ : Image} {k : Nat} (pulled : Pulled l mp i₂ j (wp + k) n gone rest p)
    (steady : Steady i.blocks i₂.blocks) (size : i.blocks.size h = k)
    (blocks : ∀ x, x ≠ h → i₂.blocks.mblk x = i.blocks.mblk x) (apart : h ∉ gone ++ rest)
    (live : ∀ x, x ∈ i₂.blocks.live ↔ x ∈ i.blocks.live ∧ (x = h → x = mp))
    (header : i₂.bBand = i.bBand ∧ i₂.bFlag = i.bFlag) (outside : ∀ a, a < wp ∨ wp + k ≤ a → i₂.mem a = i.mem a) :
    Pulled l mp i j wp (k + n) (h :: gone) rest p := by
  have differ {x : Nat} (member : x ∈ gone ++ rest) : x ≠ h := fun same => apart (same ▸ member)
  have ahead {x : Nat} (first : rest.head? = some x) : i₂.blocks.mblk x = i.blocks.mblk x :=
    blocks x (differ (List.mem_append_right _ (mem_of_head? first)))
  refine ⟨steady.trans pulled.steady, fun x => ?_, ?_, fun x first => ?_, fun x first => ?_, fun x away other => ?_, pulled.ends,
    ⟨pulled.header.1.trans header.1, pulled.header.2.trans header.2⟩, fun a out => ?_⟩
  · rw [pulled.live, live, mem_cons]
    tauto
  · have same : i₂.blocks.total gone = i.blocks.total gone := by
      refine congrArg List.sum (List.map_congr_left fun x member => ?_)
      rw [Blocks.size, Blocks.size, blocks x (differ (mem_append_left _ member))]
    have count := pulled.count
    rw [total_cons, size]
    omega
  · have inside := pulled.inside x first
    rwa [Blocks.size, ahead first, ← Blocks.size] at inside
  · rw [pulled.first x first, ahead first]
  · rw [pulled.others x (fun member => away (.tail _ member)) other]
    exact blocks x fun same => away (same ▸ (.head _))
  · exact (pulled.outside a (by omega)).trans (outside a (by omega))

/-- The loop copies the bytes in order and frees the blocks it has gone through, but for the first. -/
theorem pullLoop_spec {head : Option Nat} {list : List Nat} {i : Image} (chain : Chain i.blocks.cont head (list ++ after))
    (ordered : ∀ h ∈ list, (i.blocks.mblk h).bRptr ≤ (i.blocks.mblk h).bWptr) (within : n ≤ i.blocks.total list)
    (enough : list.length ≤ fuel) (off : ∀ h ∈ list, Off l i.blocks wp n h) :
    ∃ gone rest p j, Image.pullLoop l mp fuel n head wp i = some (wp + n, (rest ++ after).head?, j) ∧ list = gone ++ rest ∧
      Pulled l mp i j wp n gone rest p ∧ j.mem.bytes wp n = (i.stream l list).take n := by
  induction list generalizing i head fuel n wp with
  | nil =>
    obtain rfl : n = 0 := by simpa [Blocks.total] using within
    refine ⟨[], [], 0, i, ?_, rfl, .start, rfl⟩
    rw [chain.head_eq]
    cases fuel <;> rfl
  | cons h list ih =>
    cases n with
    | zero =>
      refine ⟨[], h :: list, 0, i, ?_, rfl, .start, rfl⟩
      rw [chain.head_eq]
      cases fuel <;> rfl
    | succ n =>
      obtain ⟨fuel, rfl⟩ : ∃ more, fuel = more + 1 := ⟨fuel - 1, by simp only [List.length_cons] at enough; omega⟩
      obtain rfl : head = some h := chain.head_eq
      have apart : h ∉ list := fun member => (List.nodup_cons.mp chain.nodup).1 (mem_append_left _ member)
      have first := ordered h (.head _)
      rw [total_cons] at within
      rw [stream_cons]
      by_cases full : i.blocks.size h ≤ n + 1
      · -- All of the block.
        let k := i.blocks.size h
        let i₁ : Image := { i with
          blocks := i.blocks.advance h k
          mem := i.mem.copy (l.bRptr i.blocks h) wp k }
        let i₂ : Image := if h ≠ mp then { i₁ with blocks := Blocks.freeb h i₁.blocks } else i₁
        have blocks₂ : i₂.blocks = if h ≠ mp then Blocks.freeb h i₁.blocks else i₁.blocks := by
          simp only [i₂]
          split <;> rfl
        have mem₂ : i₂.mem = i₁.mem := by
          simp only [i₂]
          split <;> rfl
        have header₂ : i₂.bBand = i.bBand ∧ i₂.bFlag = i.bFlag := by
          simp only [i₂]
          split <;> exact ⟨rfl, rfl⟩
        have steady : Steady i.blocks i₂.blocks := by
          rw [blocks₂]
          split
          · exact advance_steady.trans freeb_steady
          · exact advance_steady
        have mblk : i₂.blocks.mblk = i₁.blocks.mblk := by
          rw [blocks₂]
          split
          · exact (freeb_frame i₁.blocks h).1
          · rfl
        have blocks (x : Nat) (differ : x ≠ h) : i₂.blocks.mblk x = i.blocks.mblk x := by
          rw [mblk]
          simp [i₁, differ]
        have live (x : Nat) : x ∈ i₂.blocks.live ↔ x ∈ i.blocks.live ∧ (x = h → x = mp) := by
          rw [blocks₂]
          split <;> rename_i other
          · rw [(freeb_frame i₁.blocks h).2.2.2.2.2.2, Finset.mem_erase]
            constructor
            · exact fun both => ⟨both.2, fun same => absurd same both.1⟩
            · rintro ⟨member, same⟩
              exact ⟨fun here => other (here ▸ same here), member⟩
          · obtain rfl := not_not.mp other
            exact ⟨fun member => ⟨member, id⟩, fun both => both.1⟩
        have outside (a : Nat) (out : a < wp ∨ wp + k ≤ a) : i₂.mem a = i.mem a := by
          rw [mem₂]
          exact Memory.copy_outside out
        have differ {x : Nat} (member : x ∈ list) : x ≠ h := fun same => apart (same ▸ member)
        have bytes {x : Nat} (member : x ∈ list) : i₂.bytes l x = i.bytes l x := by
          refine bytes_congr (blocks x (differ member)) (steady.dbBase _) fun a low high => outside a ?_
          have clear := off x (.tail _ member)
          unfold Off at clear
          omega
        have stream : i₂.stream l list = i.stream l list := List.flatMap_congr fun x member => bytes member
        have total : i₂.blocks.total list = i.blocks.total list := by
          rw [← @stream_length l i₂ list, stream, stream_length]
        have next : (i₁.blocks.mblk h).bCont = i.blocks.cont h := by simp [i₁, Blocks.cont]
        obtain ⟨gone, rest, p, j, result, split, pulled, put⟩ := (@ih fuel (n + 1 - k) (wp + k) (i₁.blocks.mblk h).bCont i₂)
          (by
            rw [next, steady.cont]
            exact chain.tail)
          (fun x member => by
            rw [blocks x (differ member)]
            exact ordered x (.tail _ member))
          (by rw [total]; omega) (by simpa using enough)
          (fun x member => by
            have clear := off x (.tail _ member)
            unfold Off at clear ⊢
            rw [Layout.bWptr, Layout.bRptr, blocks x (differ member), steady.dbBase, ← Layout.bWptr, ← Layout.bRptr]
            omega)
        have all : k + (n + 1 - k) = n + 1 := by omega
        refine ⟨h :: gone, rest, p, j, ?_, by rw [split]; rfl, ?_, ?_⟩
        · rw [Image.pullLoop]
          simp only [Nat.min_eq_left full]
          rw [if_neg]
          · have ended : wp + k + (n + 1 - k) = wp + (n + 1) := by omega
            rw [ended] at result
            exact result
          · simp only [Blocks.advance, setMblk_apply, if_pos, Blocks.size]
            omega
        · rw [← all]
          exact pulled.through steady rfl blocks (by rw [← split]; exact apart) live header₂ outside
        · have front : j.mem.bytes wp k = i.bytes l h := by
            refine Memory.bytes_congr fun x less => ?_
            rw [pulled.outside _ (by omega), mem₂]
            exact Memory.copy_inside less
          have whole : (i.bytes l h).take (n + 1) = i.bytes l h :=
            List.take_of_length_le (by rw [Image.bytes_length]; exact full)
          rw [← all, bytes_append, front, put, stream, List.take_append, Image.bytes_length, all, whole]
      · -- The last bytes.
        let j : Image := { i with
          blocks := i.blocks.advance h (n + 1)
          mem := i.mem.copy (l.bRptr i.blocks h) wp (n + 1) }
        have moved : Moved i.blocks j.blocks [h] := advance_moved (List.mem_singleton.mpr rfl)
        refine ⟨[], h :: list, n + 1, j, ?_, rfl, ⟨advance_steady, fun x => by simp [j, Blocks.setMblk],
          by simp [Blocks.total], ?_, ?_, ?_, by simp, ⟨rfl, rfl⟩, fun a out => Memory.copy_outside out⟩, ?_⟩
        · rw [Image.pullLoop]
          simp only [Nat.min_eq_right (Nat.le_of_not_le full)]
          rw [if_pos]
          · rfl
          · simp only [Blocks.advance, setMblk_apply, if_pos]
            simp only [Blocks.size] at full
            omega
        · rintro x ⟨⟩ -
          omega
        · rintro x ⟨⟩
          simp [j]
        · rintro x - other
          exact moved.outside x fun member => other (by rw [List.mem_singleton.mp member]; rfl)
        · have copied : j.mem.bytes wp (n + 1) = i.mem.bytes (l.bRptr i.blocks h) (n + 1) :=
            Memory.bytes_congr fun k less => Memory.copy_inside less
          rw [copied, List.take_append_of_le_length (by rw [Image.bytes_length]; omega), Image.bytes,
            Memory.bytes_take (Nat.le_of_not_le full)]

end

/-! ## Before and after the loop -/

/-- The blocks in use are as they were. -/
structure Same (l : Layout) (i j : Image) : Prop where
  mblk : ∀ h ∈ i.blocks.live, j.blocks.mblk h = i.blocks.mblk h
  base : ∀ h ∈ i.blocks.live, l.dbBase j.blocks (i.blocks.mblk h).bDatap = l.dbBase i.blocks (i.blocks.mblk h).bDatap
  type : ∀ h ∈ i.blocks.live, j.blocks.blockType h = i.blocks.blockType h
  live : j.blocks.live = i.blocks.live
  mem : j.mem = i.mem
  header : j.bBand = i.bBand ∧ j.bFlag = i.bFlag

/-- The header `mp` is at its new buffer, with `n` bytes. -/
structure Landed (l : Layout) (mp n wp type : Nat) (stop : Option Nat) (i j : Image) : Prop where
  block : ∃ d, j.blocks.mblk mp = ⟨stop, 0, n, d⟩ ∧ l.dbBase j.blocks d = wp ∧ (j.blocks.dblk d).dbType = type
  mblk : ∀ h, h ≠ mp → j.blocks.mblk h = i.blocks.mblk h
  base : ∀ h ∈ i.blocks.live, h ≠ mp → l.dbBase j.blocks (i.blocks.mblk h).bDatap = l.dbBase i.blocks (i.blocks.mblk h).bDatap
  type : ∀ h ∈ i.blocks.live, h ≠ mp → j.blocks.blockType h = i.blocks.blockType h
  live : j.blocks.live = i.blocks.live
  mem : j.mem = i.mem
  header : ∀ h ∈ i.blocks.live, j.bBand h = i.bBand h ∧ j.bFlag h = i.bFlag h

/-- The first `want` bytes of the run are in the first block, at a word, and nothing else that
can be seen has changed. -/
structure PulledUp (l : Layout) (i j : Image) (mp : Nat) (run after rest : List Nat) (want : Nat) : Prop where
  message : Message j.blocks mp (mp :: rest) after
  stays : rest ⊆ run
  stream : j.stream l (mp :: rest) = i.stream l run
  first : j.bytes l mp = (i.stream l run).take want
  aligned : 4 ∣ l.bRptr j.blocks mp
  type : ∀ h ∈ mp :: rest, h ∈ j.blocks.live ∧ j.blocks.blockType h = i.blocks.blockType h
  header : ∀ h ∈ mp :: rest, j.bBand h = i.bBand h ∧ j.bFlag h = i.bFlag h
  others : ∀ h ∈ i.blocks.live, h ∉ run → h ∈ j.blocks.live ∧ j.blocks.mblk h = i.blocks.mblk h ∧
    j.bytes l h = i.bytes l h ∧ j.blocks.blockType h = i.blocks.blockType h ∧ j.bBand h = i.bBand h ∧ j.bFlag h = i.bFlag h

section
variable {l : Layout} {i i₁ j₁ j : Image} {mp h n wp type : Nat} {run after gone rest : List Nat}

theorem Same.bytes (same : Same l i j) (member : h ∈ i.blocks.live) : j.bytes l h = i.bytes l h :=
  bytes_congr (same.mblk h member) (same.base h member) fun _ _ _ => by rw [same.mem]

theorem Same.size (same : Same l i j) (member : h ∈ i.blocks.live) : j.blocks.size h = i.blocks.size h := by
  rw [Blocks.size, Blocks.size, same.mblk h member]

theorem Same.total (same : Same l i j) (members : ∀ h ∈ run, h ∈ i.blocks.live) : j.blocks.total run = i.blocks.total run :=
  congrArg List.sum (List.map_congr_left fun h member => same.size (members h member))

theorem Same.stream (same : Same l i j) (members : ∀ h ∈ run, h ∈ i.blocks.live) : j.stream l run = i.stream l run :=
  List.flatMap_congr fun h member => same.bytes (members h member)

theorem Same.off (same : Same l i j) (member : h ∈ i.blocks.live) : Off l j.blocks wp n h ↔ Off l i.blocks wp n h := by
  rw [Off, Off, Layout.bWptr, Layout.bRptr, same.mblk h member, same.base h member, ← Layout.bWptr, ← Layout.bRptr]

theorem Message.head (message : Message i.blocks mp run after) : ∃ tail, run = mp :: tail := by
  have head := message.chain.head_eq
  cases run with
  | nil => exact absurd rfl (message.other mp head.symm)
  | cons first tail => exact ⟨tail, by rw [some.inj head]⟩

theorem Pulled.head {p : Nat} (pulled : Pulled l mp i j wp n gone rest p) (positive : 0 < n) (enough : i.blocks.size mp ≤ n)
    {tail : List Nat} (split : mp :: tail = gone ++ rest) : ∃ more, gone = mp :: more := by
  cases gone with
  | nil =>
    have first : rest.head? = some mp := by rw [← List.nil_append rest, ← split]; rfl
    have count := pulled.count
    have inside := pulled.inside mp first
    simp only [Blocks.total, List.map_nil, List.sum_nil] at count
    omega
  | cons a more => exact ⟨more, by rw [(List.cons.inj split).1]⟩

theorem pulled_up {p : Nat} (message : Message i.blocks mp run after) (members : ∀ h ∈ run ++ after, h ∈ i.blocks.live)
    (same : Same l i i₁) (clear : ∀ h ∈ i.blocks.live, Off l i.blocks wp n h) (aligned : 4 ∣ wp)
    (positive : 0 < n) (enough : i.blocks.size mp ≤ n) (split : run = gone ++ rest)
    (pulled : Pulled l mp i₁ j₁ wp n gone rest p) (put : j₁.mem.bytes wp n = (i₁.stream l run).take n)
    (landed : Landed l mp n wp (i.blocks.blockType mp) (rest ++ after).head? j₁ j) :
    PulledUp l i j mp run after rest n := by
  obtain ⟨tail, starts⟩ := message.head
  have live : mp ∈ i.blocks.live := members mp (by simp [starts])
  obtain ⟨more, through⟩ := pulled.head positive (by rw [same.size live]; exact enough) (starts ▸ split)
  have nodup := message.nodup
  rw [split, append_assoc] at nodup
  have behind {h : Nat} (member : h ∈ rest ++ after) : h ∉ gone := fun inside =>
    (List.nodup_append.mp nodup).2.2 h inside h member rfl
  have passed : mp ∈ gone := by simp [through]
  have apart {h : Nat} (away : h ∉ gone) : h ≠ mp := fun here => away (here ▸ passed)
  have held {h : Nat} (member : h ∈ rest ++ after) : h ∈ i.blocks.live := members h (by
    rw [split, append_assoc]
    exact List.mem_append_right _ member)
  have stays {h : Nat} (member : h ∈ i.blocks.live) (away : h ∉ gone) : h ∈ j₁.blocks.live :=
    (pulled.live h).mpr ⟨same.live ▸ member, fun inside => absurd inside away⟩
  have links (h : Nat) (member : h ∈ i.blocks.live) : (j₁.blocks.mblk h).bCont = (i.blocks.mblk h).bCont ∧
      (j₁.blocks.mblk h).bDatap = (i.blocks.mblk h).bDatap := by
    rw [← same.mblk h member]
    exact pulled.steady.links h
  have base {h : Nat} (member : h ∈ i.blocks.live) (away : h ∉ gone) :
      l.dbBase j.blocks (i.blocks.mblk h).bDatap = l.dbBase i.blocks (i.blocks.mblk h).bDatap := by
    have there := landed.base h (stays member away) (apart away)
    rw [(links h member).2] at there
    rw [there, pulled.steady.dbBase, same.base h member]
  have type {h : Nat} (member : h ∈ i.blocks.live) (away : h ∉ gone) : j.blocks.blockType h = i.blocks.blockType h := by
    rw [landed.type h (stays member away) (apart away), pulled.steady.blockType, same.type h member]
  have mem {h : Nat} (member : h ∈ i.blocks.live) (a : Nat) (low : l.bRptr i.blocks h ≤ a) (high : a < l.bWptr i.blocks h) :
      j.mem a = i.mem a := by
    have off := clear h member
    unfold Off at off
    rw [landed.mem, pulled.outside a (by omega), same.mem]
  have untouched {h : Nat} (member : h ∈ i.blocks.live) (away : h ∉ gone) (other : rest.head? ≠ some h) :
      j.blocks.mblk h = i.blocks.mblk h := by
    rw [landed.mblk h (apart away), pulled.others h away other, same.mblk h member]
  have kept {h : Nat} (member : h ∈ i.blocks.live) (away : h ∉ gone) (other : rest.head? ≠ some h) :
      j.bytes l h = i.bytes l h :=
    bytes_congr (untouched member away other) (base member away) (mem member)
  have partway {h : Nat} (first : rest.head? = some h) (member : h ∈ i.blocks.live) (away : h ∉ gone) :
      j.blocks.mblk h = { i.blocks.mblk h with bRptr := (i.blocks.mblk h).bRptr + p } := by
    rw [landed.mblk h (apart away), pulled.first h first, same.mblk h member]
  have header (h : Nat) (member : h ∈ i.blocks.live) (away : h ∉ gone ∨ h = mp) :
      j.bBand h = i.bBand h ∧ j.bFlag h = i.bFlag h := by
    have there : h ∈ j₁.blocks.live := (pulled.live h).mpr ⟨same.live ▸ member, fun inside => away.resolve_left (not_not.mpr inside)⟩
    obtain ⟨band, flag⟩ := landed.header h there
    rw [band, flag, pulled.header.1, pulled.header.2, same.header.1, same.header.2]
    exact ⟨rfl, rfl⟩
  obtain ⟨d, block, address, kind⟩ := landed.block
  have firstType : j.blocks.blockType mp = i.blocks.blockType mp := by
    rw [Blocks.blockType, block]
    exact kind
  have inGone {h : Nat} (member : h ∈ gone) : h ∈ i.blocks.live := members h (by simp [split, member])
  have count : i.blocks.total gone + p = n := by
    have count := pulled.count
    rwa [same.total fun h => inGone] at count
  have whole : i₁.stream l run = i.stream l run := same.stream fun h member => members h (mem_append_left _ member)
  have first : j.bytes l mp = (i.stream l run).take n := by
    rw [← whole, ← put, Image.bytes, Layout.bRptr, Blocks.size, block, landed.mem]
    simp [address]
  have remains : j.stream l rest = (i.stream l rest).drop p := by
    cases rest with
    | nil =>
      rw [pulled.ends rfl]
      rfl
    | cons h rest =>
      have here : h ∈ h :: rest ++ after := by simp
      have fresh : h ∉ rest := fun member =>
        (List.nodup_cons.mp (List.nodup_append.mp (List.nodup_append.mp nodup).2.1).1).1 member
      have later : j.stream l rest = i.stream l rest := by
        refine List.flatMap_congr fun x member => ?_
        have there : x ∈ h :: rest ++ after := by simp [member]
        refine kept (held there) (behind there) fun same => ?_
        cases same
        exact fresh member
      have partly : j.bytes l h = (i.bytes l h).drop p := by
        have mblk := partway rfl (held here) (behind here)
        rw [Image.bytes, Image.bytes, Memory.bytes_drop]
        simp only [Layout.bRptr, Blocks.size, mblk, base (held here) (behind here)]
        rw [← Nat.sub_sub, Nat.add_assoc]
        refine Memory.bytes_congr fun x less => mem (held here) _ ?_ ?_
        · simp only [Layout.bRptr]
          omega
        · simp only [Layout.bWptr]
          omega
      have within : p ≤ (i.bytes l h).length := by
        rw [Image.bytes_length, ← same.size (held here)]
        have inside := pulled.inside h rfl
        omega
      rw [stream_cons, stream_cons, partly, later, List.drop_append_of_le_length within]
  have stream : j.stream l (mp :: rest) = i.stream l run := by
    have tail : (i.stream l run).drop n = (i.stream l rest).drop p := by
      have length : (i.stream l gone).length = i.blocks.total gone := stream_length
      rw [split, stream_append, List.drop_append, List.drop_eq_nil_of_le (by omega), List.nil_append]
      congr 1
      omega
    rw [stream_cons, first, remains, ← tail, List.take_append_drop]
  have sub {h : Nat} (member : h ∈ rest) : h ∈ run := by simp [split, member]
  have fields {h : Nat} (member : h ∈ rest) : h ∈ rest ++ after := mem_append_left _ member
  refine ⟨⟨?_, fun h member => ?_, fun h member => ?_, fun h ahead => ?_⟩, fun h => sub, stream, first, ?_, fun h member => ?_,
    fun h member => ?_, fun h member away => ?_⟩
  · -- The chain behind the blocks that are gone.
    obtain ⟨front, a, final⟩ : ∃ front a, gone = front ++ [a] :=
      ⟨_, _, (List.dropLast_append_getLast (List.ne_nil_of_mem passed)).symm⟩
    have chain := message.chain
    rw [split, final, append_assoc, append_assoc, List.singleton_append] at chain
    have link : j.blocks.cont mp = (rest ++ after).head? := by rw [Blocks.cont, block]
    refine Chain.cons ?_
    rw [link, ← chain.next_eq]
    refine chain.suffix.congr fun h member => ?_
    rw [Blocks.cont, landed.mblk h (apart (behind member)), (links h (held member)).1, Blocks.cont]
  · rcases mem_cons.mp member with rfl | member
    · rw [block]
      exact Nat.zero_le _
    · have ordered := message.ordered h (by
        rw [split, append_assoc]
        exact List.mem_append_right _ member)
      by_cases ahead : rest.head? = some h
      · have inside := pulled.inside h ahead
        rw [same.size (held member), Blocks.size] at inside
        rw [partway ahead (held member) (behind member)]
        change (i.blocks.mblk h).bRptr + p ≤ (i.blocks.mblk h).bWptr
        omega
      · rw [untouched (held member) (behind member) ahead]
        exact ordered
  · rcases mem_cons.mp member with rfl | member
    · rfl
    · rw [type (held (fields member)) (behind (fields member)), firstType]
      exact message.same h (sub member)
  · have member : h ∈ rest ++ after := List.mem_append_right _ (mem_of_head? ahead)
    rw [type (held member) (behind member), firstType]
    exact message.other h ahead
  · rw [Layout.bRptr, block]
    simpa [address] using aligned
  · rcases mem_cons.mp member with rfl | member
    · refine ⟨?_, firstType⟩
      rw [landed.live, pulled.live, same.live]
      exact ⟨live, fun _ => rfl⟩
    · refine ⟨?_, type (held (fields member)) (behind (fields member))⟩
      rw [landed.live]
      exact stays (held (fields member)) (behind (fields member))
  · rcases mem_cons.mp member with rfl | member
    · exact header h live (.inr rfl)
    · exact header h (held (fields member)) (.inl (behind (fields member)))
  · have gone' : h ∉ gone := fun inside => away (by simp [split, inside])
    have other : rest.head? ≠ some h := fun ahead => away (sub (mem_of_head? ahead))
    refine ⟨?_, untouched member gone' other, kept member gone' other, type member gone', header h member (.inl gone')⟩
    rw [landed.live]
    exact stays member gone'

end

/-! ## The ends of `pullupmsg` -/

/-- Memory for the copy is to be had. -/
def Gets (supply : Blocks.Supply) (s : Blocks) (mp : Nat) (count : Int) : Prop :=
  if (s.dblk (s.mblk mp).bDatap).dbRef > 1 then ∃ newmp u, Blocks.allocb supply count s = (some newmp, u)
  else ∃ newbuf u, Blocks.kmemAlloc supply.buffer count.toNat s = some (newbuf, u)

/-- The next buffers hold no byte of a block in use. -/
structure Vacant (l : Layout) (s : Blocks) (n : Nat) : Prop where
  kmem : ∀ h ∈ s.live, Off l s (l.kmem s.buffers) n h
  databuf : ∀ t, (∀ h ∈ s.live, s.datap h ≠ t) → ∀ h ∈ s.live, Off l s (l.databuf t) fastbuf h

section
variable {l : Layout} {supply : Blocks.Supply} {i j : Image} {s u : Blocks} {mp newmp fuel h n wp type : Nat}
  {stop : Option Nat}

theorem Off.mono {k : Nat} (off : Off l s wp k h) (less : n ≤ k) : Off l s wp n h := by
  unfold Off at off ⊢
  omega

theorem depart_same (sound : Sound i.blocks) (call : Blocks.allocb supply n i.blocks = (some newmp, u)) (dbp : Nat) :
    Same l i { i with blocks := Blocks.lessRef dbp (u.setDblk newmp fun d => { d with dbType := type }) } := by
  obtain ⟨-, idle, allocated⟩ := allocb_allocated sound.counted call
  have header {h : Nat} (member : h ∈ i.blocks.live) : h ≠ newmp := by
    rintro rfl
    exact idle.header (allocated.live ▸ member)
  have mblk {h : Nat} (member : h ∈ i.blocks.live) : u.mblk h = i.blocks.mblk h := allocated.mblk h (header member)
  have data {h : Nat} (member : h ∈ i.blocks.live) : (i.blocks.mblk h).bDatap ≠ newmp := idle.away (allocated.live ▸ member)
  have dblk {h : Nat} (member : h ∈ i.blocks.live) :
      ((Blocks.lessRef dbp (u.setDblk newmp fun d => { d with dbType := type })).dblk (i.blocks.mblk h).bDatap).dbBase =
        (i.blocks.dblk (i.blocks.mblk h).bDatap).dbBase ∧
      ((Blocks.lessRef dbp (u.setDblk newmp fun d => { d with dbType := type })).dblk (i.blocks.mblk h).bDatap).dbType =
        (i.blocks.dblk (i.blocks.mblk h).bDatap).dbType := by
    rw [← allocated.dblk _ (data member)]
    by_cases here : (i.blocks.mblk h).bDatap = dbp
    · have away := data member
      rw [here] at away
      simp [Blocks.lessRef, away, here]
    · simp [Blocks.lessRef, data member, here]
  refine ⟨fun h member => mblk member, fun h member => ?_, fun h member => ?_, allocated.live, rfl, rfl, rfl⟩
  · rw [Layout.dbBase_eq, Layout.dbBase_eq, (dblk member).1]
  · rw [Blocks.blockType, Blocks.blockType]
    rw [show (Blocks.lessRef dbp (u.setDblk newmp fun d => { d with dbType := type })).mblk h = i.blocks.mblk h from mblk member]
    exact (dblk member).2

theorem depart_landed (differ : mp ≠ newmp) (away : newmp ∉ i.blocks.live) (dbp : Nat) :
    Landed l mp n (l.dbBase i.blocks newmp) (i.blocks.dblk newmp).dbType stop i
      { i with
        blocks := Blocks.crossConnect mp dbp newmp n stop i.blocks
        bBand := update i.bBand newmp (i.bBand mp)
        bFlag := update i.bFlag newmp (i.bFlag mp) } := by
  obtain ⟨-, -, -, live, -, -, -, -, -, mblk⟩ := (@crossConnect_frame i.blocks mp newmp) dbp n stop
  have dblk (d : Nat) := (@crossConnect_dblk i.blocks mp newmp) dbp n stop differ d
  have base (d : Nat) : l.dbBase (Blocks.crossConnect mp dbp newmp n stop i.blocks) d = l.dbBase i.blocks d := by
    rw [Layout.dbBase_eq, Layout.dbBase_eq, dblk]
  have other (h : Nat) (apart : h ≠ mp) : (Blocks.crossConnect mp dbp newmp n stop i.blocks).mblk h = i.blocks.mblk h := by
    rw [mblk, Function.update_of_ne apart]
  refine ⟨⟨newmp, ?_, base newmp, ?_⟩, other, fun h _ _ => base _, fun h _ apart => ?_, live, rfl, fun h member => ?_⟩
  · rw [mblk, Function.update_self]
  · rw [dblk]
  · rw [Blocks.blockType, Blocks.blockType, other h apart, dblk]
  · have apart : h ≠ newmp := fun same => away (same ▸ member)
    simp [apart]

theorem replace_landed {newbuf : Base} {len : Nat} (single : ∀ h ∈ i.blocks.live, h ≠ mp → i.blocks.datap h ≠ i.blocks.datap mp) :
    Landed l mp n (l.buffer (i.blocks.datap mp) newbuf) (i.blocks.blockType mp) stop i
      { i with blocks := Blocks.replaceBuffer mp (i.blocks.datap mp) len n newbuf stop i.blocks } := by
  have other (h : Nat) (apart : h ≠ mp) :
      (Blocks.replaceBuffer mp (i.blocks.datap mp) len n newbuf stop i.blocks).mblk h = i.blocks.mblk h := by
    rw [replaceBuffer_mblk, if_neg apart]
  obtain ⟨base, type⟩ := (@replaceBuffer_base i.blocks mp stop (i.blocks.datap mp) len n newbuf)
  obtain ⟨-, -, -, live, -, -, -⟩ := (@replaceBuffer_frame i.blocks mp stop (i.blocks.datap mp) len n newbuf)
  have dblk {h : Nat} (member : h ∈ i.blocks.live) (apart : h ≠ mp) :
      (Blocks.replaceBuffer mp (i.blocks.datap mp) len n newbuf stop i.blocks).dblk (i.blocks.mblk h).bDatap =
        i.blocks.dblk (i.blocks.mblk h).bDatap := replaceBuffer_other (single h member apart)
  refine ⟨⟨i.blocks.datap mp, ?_, ?_, type⟩, other, fun h member apart => ?_, fun h member apart => ?_, live, rfl,
    fun _ _ => ⟨rfl, rfl⟩⟩
  · rw [replaceBuffer_mblk, if_pos rfl]
  · rw [Layout.dbBase_eq, base]
  · rw [Layout.dbBase_eq, Layout.dbBase_eq, dblk member apart]
  · rw [Blocks.blockType, Blocks.blockType, other h apart, dblk member apart]

theorem unshared (counted : Counted s.datap none none s) (member : mp ∈ s.live) (few : refs s.datap s.live (s.datap mp) ≤ 255)
    (single : ¬ (s.dblk (s.datap mp)).dbRef > 1) : ∀ h ∈ s.live, h ≠ mp → s.datap h ≠ s.datap mp := by
  have count := counted.count member
  have erased : refs s.datap s.live (s.datap mp) = refs s.datap (s.live.erase mp) (s.datap mp) + 1 := by
    rw [refs_erase member, if_pos rfl]
  have none : refs s.datap (s.live.erase mp) (s.datap mp) = 0 := by omega
  exact fun h inside apart => refs_zero.mp none h (Finset.mem_erase.mpr ⟨apart, inside⟩)

/-- Where fewer bytes are asked for than the first block has, the loop stops at that block. -/
theorem pullLoop_stuck (few : n = 0 ∨ n < i.blocks.size mp) (enough : 0 < fuel) :
    ∃ j, Image.pullLoop l mp fuel n (some mp) wp i = some (wp + n, some mp, j) := by
  obtain ⟨fuel, rfl⟩ := Nat.exists_eq_add_one.mpr enough
  cases n with
  | zero => exact ⟨i, rfl⟩
  | succ n =>
    have part : n + 1 < i.blocks.size mp := few.resolve_left (Nat.succ_ne_zero n)
    refine ⟨{ i with
      blocks := i.blocks.advance mp (n + 1)
      mem := i.mem.copy (l.bRptr i.blocks mp) wp (n + 1) }, ?_⟩
    rw [Image.pullLoop]
    simp only [Nat.min_eq_right part.le]
    rw [if_pos]
    simp only [Blocks.advance, setMblk_apply, if_pos]
    simp only [Blocks.size] at part
    omega

end

/-! ## Pulling up -/

/-- Nothing is freed, and no byte has changed. -/
structure Unaltered (i j : Image) : Prop where
  untouched : Untouched i.blocks j.blocks
  mem : j.mem = i.mem
  header : j.bBand = i.bBand ∧ j.bFlag = i.bFlag

/-- The bytes that are to be in the first block. -/
def wanted (s : Blocks) (mp : Nat) (run : List Nat) (len : Int) : Nat :=
  if len = -1 then s.total run else max len.toNat (s.size mp)

/-- Whether all that is asked for is in the first block. -/
def Near (s : Blocks) (mp : Nat) (len : Int) : Prop :=
  if len = -1 then (s.mblk mp).bCont = none else len ≤ s.size mp

instance {s : Blocks} {mp : Nat} {len : Int} : Decidable (Near s mp len) :=
  inferInstanceAs (Decidable (if len = -1 then (s.mblk mp).bCont = none else len ≤ s.size mp))

/-- What `pullupmsg` promises. It fails only for want of bytes or of memory. -/
def PullsUp (l : Layout) (supply : Blocks.Supply) (i : Image) (mp : Nat) (run after : List Nat) (len : Int)
    (result : Option (Bool × Image)) : Prop :=
  ∃ ok j, result = some (ok, j) ∧
    (ok = true → ∃ rest, PulledUp l i j mp run after rest (wanted i.blocks mp run len)) ∧
    (ok = false → Unaltered i j ∧ ((len ≠ -1 ∧ (i.blocks.total run : Int) < len) ∨
      ¬ Gets supply i.blocks mp (wanted i.blocks mp run len))) ∧
    (len ≠ -1 → (i.blocks.total run : Int) < len → ok = false)

/-- When there are bytes to copy, and their count has not wrapped. -/
def Pullable (l : Layout) (supply : Blocks.Supply) (s : Blocks) (mp : Nat) (run : List Nat) (len : Int) : Prop :=
  if Near s mp len then l.bRptr s mp % 4 ≠ 0 → Gets supply s mp (s.size mp) → 0 < s.size mp
  else if len = -1 then
    Gets supply s mp (s.total run) ∨ Gets supply s mp (toInt (s.total run)) → 0 < s.total run ∧ s.total run < 2147483648
  else len ≤ s.total run → Gets supply s mp len → len ≤ toInt (s.total run)

section
variable {l : Layout} {supply : Blocks.Supply} {i j : Image} {s : Blocks} {mp fuel n : Nat} {run after : List Nat} {len count : Int}

theorem Unaltered.refl : Unaltered i i :=
  ⟨⟨rfl, rfl, rfl, rfl, fun _ _ => rfl, fun _ _ => rfl⟩, rfl, rfl, rfl⟩

theorem total_head (message : Message i.blocks mp run after) : i.blocks.size mp ≤ i.blocks.total run ∧
    (i.stream l run).take (i.blocks.size mp) = i.bytes l mp := by
  obtain ⟨tail, rfl⟩ := message.head
  rw [total_cons, stream_cons]
  refine ⟨Nat.le_add_right _ _, ?_⟩
  rw [List.take_append_of_le_length (Nat.le_of_eq Image.bytes_length.symm),
    List.take_of_length_le (Nat.le_of_eq Image.bytes_length)]

theorem Message.alone (message : Message i.blocks mp run after) (none : (i.blocks.mblk mp).bCont = none) :
    i.blocks.total run = i.blocks.size mp := by
  obtain ⟨tail, rfl⟩ := message.head
  have next := message.chain.tail.head_eq
  rw [Blocks.cont, none] at next
  obtain ⟨rfl, -⟩ := List.append_eq_nil_iff.mp (List.head?_eq_none_iff.mp next.symm)
  simp [Blocks.total]

theorem pullCount_near (near : Near i.blocks mp len) : i.blocks.pullCount l fuel mp len =
    if l.bRptr i.blocks mp % 4 = 0 then some (.error true) else some (.ok (i.blocks.size mp)) := by
  unfold Blocks.pullCount
  unfold Near at near
  split at near <;> rename_i all
  · rw [if_pos all, if_pos near]
  · rw [if_neg all, if_pos near]

theorem pullCount_far (message : Message i.blocks mp run after) (enough : run.length < fuel) (far : ¬ Near i.blocks mp len) :
    i.blocks.pullCount l fuel mp len = if len = -1 then some (.ok (toInt (i.blocks.total run)))
      else if toInt (i.blocks.total run) < len then some (.error false) else some (.ok len) := by
  unfold Blocks.pullCount
  unfold Near at far
  split at far <;> rename_i all
  · rw [if_pos all, if_neg far, message.xmsgsize enough, map_some, if_pos all]
  · rw [if_neg all, if_neg far, message.xmsgsize enough, map_some, if_neg all, apply_ite some]

theorem wanted_near (message : Message i.blocks mp run after) (near : Near i.blocks mp len) :
    wanted i.blocks mp run len = i.blocks.size mp ∧ (len ≠ -1 → len ≤ i.blocks.size mp) := by
  unfold Near at near
  unfold wanted
  split at near <;> rename_i all
  · rw [if_pos all]
    exact ⟨message.alone near, fun other => absurd all other⟩
  · rw [if_neg all]
    exact ⟨by omega, fun _ => near⟩

theorem pulled_up_already (message : Message i.blocks mp run after) (members : ∀ h ∈ run, h ∈ i.blocks.live)
    (near : Near i.blocks mp len) (aligned : l.bRptr i.blocks mp % 4 = 0) :
    ∃ rest, PulledUp l i i mp run after rest (wanted i.blocks mp run len) := by
  obtain ⟨tail, rfl⟩ := message.head
  refine ⟨tail, message, fun h member => .tail _ member, rfl, ?_, Nat.dvd_of_mod_eq_zero aligned,
    fun h member => ⟨members h member, rfl⟩, fun _ _ => ⟨rfl, rfl⟩, fun h member _ => ⟨member, rfl, rfl, rfl, rfl, rfl⟩⟩
  rw [(wanted_near message near).1]
  exact (total_head message).2.symm

theorem pulled_up_loops {rest : List Nat} {want : Nat} (stuck : (j.blocks.mblk mp).bCont = some mp) :
    ¬ PulledUp l i j mp run after rest want := by
  intro pulled
  have chain := pulled.message.chain
  have next := chain.tail.head_eq
  rw [Blocks.cont, stuck] at next
  exact (List.nodup_cons.mp chain.nodup).1 (mem_of_head? next.symm)

theorem chain_live {head : Option Nat} {list : List Nat} (threaded : Threaded s.cont s.live) (chain : Chain s.cont head list)
    (starts : ∀ h, head = some h → h ∈ s.live) : ∀ h ∈ list, h ∈ s.live := by
  induction chain with
  | nil => simp
  | @cons a list chain ih =>
    intro h member
    have first := starts a rfl
    rcases mem_cons.mp member with rfl | member
    · exact first
    · exact ih (fun k link => threaded.closed first link) h member

theorem pull_same {i₁ : Image} {wp : Nat} (message : Message i.blocks mp run after) (members : ∀ h ∈ run ++ after, h ∈ i.blocks.live)
    (same : Same l i i₁) (clear : ∀ h ∈ i.blocks.live, Off l i.blocks wp n h) (within : n ≤ i.blocks.total run)
    (enough : run.length < fuel) :
    ∃ gone rest p j, Image.pullLoop l mp fuel n (some mp) wp i₁ = some (wp + n, (rest ++ after).head?, j) ∧ run = gone ++ rest ∧
      Pulled l mp i₁ j wp n gone rest p ∧ j.mem.bytes wp n = (i₁.stream l run).take n := by
  have inRun {h : Nat} (member : h ∈ run) : h ∈ i.blocks.live := members h (mem_append_left _ member)
  refine pullLoop_spec (message.chain.congr fun h member => ?_) (fun h member => ?_) ?_ enough.le fun h member => ?_
  · rw [Blocks.cont, Blocks.cont, same.mblk h (members h member)]
  · rw [same.mblk h (inRun member)]
    exact message.ordered h (mem_append_left _ member)
  · rw [same.total fun h => inRun]
    exact within
  · exact (same.off (inRun member)).mpr (clear h (inRun member))

section
variable (sane : Sane i.blocks)
include sane

theorem pullupmsg_departs {newmp : Nat} {u : Blocks} (message : Message i.blocks mp run after)
    (members : ∀ h ∈ run ++ after, h ∈ i.blocks.live) (enough : run.length < fuel) (vacant : Vacant l i.blocks (i.blocks.total run))
    (found : i.blocks.pullCount l fuel mp len = some (.ok n)) (shared : (i.blocks.dblk (i.blocks.mblk mp).bDatap).dbRef > 1)
    (got : Blocks.allocb supply n i.blocks = (some newmp, u)) (positive : 0 < n) (whole : i.blocks.size mp ≤ n)
    (within : n ≤ i.blocks.total run) :
    ∃ j rest, i.pullupmsg l supply fuel mp len = some (true, j) ∧ PulledUp l i j mp run after rest n := by
  obtain ⟨counted, idle, allocated⟩ := allocb_allocated sane.counted got
  obtain ⟨-, kind⟩ := allocb_new got
  obtain ⟨tail, starts⟩ := message.head
  have live : mp ∈ i.blocks.live := members mp (by simp [starts])
  have away : newmp ∉ i.blocks.live := allocated.live ▸ idle.header
  have differ : mp ≠ newmp := fun same => away (same ▸ live)
  have free (h : Nat) (member : h ∈ i.blocks.live) : i.blocks.datap h ≠ newmp := idle.away (allocated.live ▸ member)
  let wp := l.buffer newmp (u.dblk newmp).dbBase
  have room : 4 ∣ wp ∧ ∀ h ∈ i.blocks.live, Off l i.blocks wp n h := by
    rcases kind with ⟨own, small⟩ | ⟨m, kmem, -⟩
    · have place : wp = l.databuf newmp := by simp [wp, own, Layout.buffer]
      rw [place]
      exact ⟨l.databuf_aligned newmp, fun h member => (vacant.databuf newmp free h member).mono small⟩
    · have next : m = i.blocks.buffers := by
        rcases allocated.base with ⟨own, -⟩ | ⟨base, -⟩
        · rw [kmem] at own
          cases own
        · rw [kmem] at base
          exact Base.kmem.inj base
      have place : wp = l.kmem i.blocks.buffers := by simp [wp, kmem, next, Layout.buffer]
      rw [place]
      exact ⟨l.kmem_aligned _, fun h member => (vacant.kmem h member).mono within⟩
  let type := (i.blocks.dblk (i.blocks.mblk mp).bDatap).dbType
  let i₁ : Image := { i with
    blocks := Blocks.lessRef (i.blocks.mblk mp).bDatap (u.setDblk newmp fun d => { d with dbType := type }) }
  have same : Same l i i₁ := depart_same sane.toSound got _
  obtain ⟨gone, rest, p, j₁, loop, split, pulled, put⟩ := pull_same message members same room.2 within enough
  have fresh : (i₁.blocks.dblk newmp).dbBase = (u.dblk newmp).dbBase ∧ (i₁.blocks.dblk newmp).dbType = type := by
    by_cases here : newmp = (i.blocks.mblk mp).bDatap
    · exact absurd here.symm (free mp live)
    · simp [i₁, Blocks.lessRef, here]
  have landed := (@depart_landed l j₁ mp newmp n (rest ++ after).head?) differ
    (fun inside => away (same.live ▸ ((pulled.live newmp).mp inside).1)) (i.blocks.mblk mp).bDatap
  rw [pulled.steady.dbBase, Layout.dbBase_eq, fresh.1, (pulled.steady.data newmp).2.1, fresh.2] at landed
  refine ⟨_, rest, ?_, pulled_up message members same room.2 room.1 positive whole split pulled put landed⟩
  have result : i.pullupmsg l supply fuel mp len = (Image.pullLoop l mp fuel n (some mp) wp i₁).map fun (ended, bp, i') =>
      (true, { i' with
        blocks := Blocks.crossConnect mp (i.blocks.mblk mp).bDatap newmp (ended - wp) bp i'.blocks
        bBand := update i'.bBand newmp (i'.bBand mp)
        bFlag := update i'.bFlag newmp (i'.bFlag mp) }) := by
    unfold Image.pullupmsg
    simp only [found, if_pos shared, got, if_neg (not_lt.mpr (Int.natCast_nonneg n)), Int.toNat_natCast]
    rfl
  rw [result, loop]
  simp only [map_some, Nat.add_sub_cancel_left]

theorem pullupmsg_replaces {newbuf : Base} {u : Blocks} (message : Message i.blocks mp run after)
    (members : ∀ h ∈ run ++ after, h ∈ i.blocks.live) (enough : run.length < fuel) (vacant : Vacant l i.blocks (i.blocks.total run))
    (few : refs i.blocks.datap i.blocks.live (i.blocks.datap mp) ≤ 255)
    (found : i.blocks.pullCount l fuel mp len = some (.ok n)) (single : ¬ (i.blocks.dblk (i.blocks.mblk mp).bDatap).dbRef > 1)
    (got : Blocks.kmemAlloc supply.buffer n i.blocks = some (newbuf, u)) (whole : i.blocks.size mp ≤ n)
    (within : n ≤ i.blocks.total run) :
    ∃ j rest, i.pullupmsg l supply fuel mp len = some (true, j) ∧ PulledUp l i j mp run after rest n := by
  have memory := got
  simp only [Blocks.kmemAlloc, Option.ite_none_left_eq_some, Option.ite_none_right_eq_some] at memory
  obtain ⟨positive, -, pair⟩ := memory
  cases pair
  obtain ⟨tail, starts⟩ := message.head
  have live : mp ∈ i.blocks.live := members mp (by simp [starts])
  let wp := l.kmem i.blocks.buffers
  let i₁ : Image := { i with blocks := { i.blocks with buffers := i.blocks.buffers + 1 } }
  have same : Same l i i₁ := ⟨fun _ _ => rfl, fun _ _ => rfl, fun _ _ => rfl, rfl, rfl, rfl, rfl⟩
  have clear (h : Nat) (member : h ∈ i.blocks.live) : Off l i.blocks wp n h := (vacant.kmem h member).mono within
  obtain ⟨gone, rest, p, j₁, loop, split, pulled, put⟩ := pull_same message members same clear within enough
  have datap (h : Nat) : j₁.blocks.datap h = i.blocks.datap h := (pulled.steady.links h).2
  have alone (h : Nat) (member : h ∈ j₁.blocks.live) (apart : h ≠ mp) : j₁.blocks.datap h ≠ j₁.blocks.datap mp := by
    rw [datap, datap]
    exact unshared sane.counted live few single h ((pulled.live h).mp member).1 apart
  have landed := (@replace_landed l j₁ mp n (rest ++ after).head? (.kmem i.blocks.buffers) n) alone
  rw [pulled.steady.blockType, datap] at landed
  refine ⟨_, rest, ?_, pulled_up message members same clear (l.kmem_aligned _) (Nat.pos_of_ne_zero positive) whole split pulled put
    landed⟩
  have result : i.pullupmsg l supply fuel mp len = (Image.pullLoop l mp fuel n (some mp) wp i₁).map fun (ended, bp, i') =>
      (true, { i' with
        blocks := Blocks.replaceBuffer mp (i.blocks.mblk mp).bDatap n (ended - wp) (.kmem i.blocks.buffers) bp i'.blocks }) := by
    unfold Image.pullupmsg
    simp only [found, if_neg single, Int.toNat_natCast, got]
    rfl
  rw [result, loop]
  simp only [map_some, Nat.add_sub_cancel_left]
  rfl

theorem pullupmsg_refused (found : i.blocks.pullCount l fuel mp len = some (.ok count))
    (short : ¬ Gets supply i.blocks mp count) :
    ∃ j, i.pullupmsg l supply fuel mp len = some (false, j) ∧ Unaltered i j := by
  unfold Gets at short
  split at short <;> rename_i shared
  · cases made : Blocks.allocb supply count i.blocks with
    | mk result u =>
      cases result with
      | some newmp => exact absurd ⟨newmp, u, made⟩ short
      | none =>
        refine ⟨{ i with blocks := u }, ?_, (allocb_untouched sane.counted made).2, rfl, rfl, rfl⟩
        unfold Image.pullupmsg
        simp only [found, if_pos shared, made]
  · cases made : Blocks.kmemAlloc supply.buffer count.toNat i.blocks with
    | some pair => exact absurd ⟨pair.1, pair.2, made⟩ short
    | none =>
      refine ⟨i, ?_, .refl⟩
      unfold Image.pullupmsg
      simp only [found, if_neg shared, made]

theorem pullupmsg_stuck {ok : Bool} (live : mp ∈ i.blocks.live) (enough : 0 < fuel)
    (found : i.blocks.pullCount l fuel mp len = some (.ok count)) (gets : Gets supply i.blocks mp count)
    (few : count ≤ 0 ∨ count < i.blocks.size mp) (result : i.pullupmsg l supply fuel mp len = some (ok, j)) :
    ok = true ∧ (j.blocks.mblk mp).bCont = some mp := by
  unfold Image.pullupmsg at result
  unfold Gets at gets
  split at gets <;> rename_i shared
  · obtain ⟨newmp, u, got⟩ := gets
    simp only [found, if_pos shared, got] at result
    split at result <;> rename_i negative
    · cases result
    · obtain ⟨n, rfl⟩ := Int.eq_ofNat_of_zero_le (not_lt.mp negative)
      have same := (@depart_same l supply i u newmp n (i.blocks.dblk (i.blocks.mblk mp).bDatap).dbType) sane.toSound got
        (i.blocks.mblk mp).bDatap
      have size := same.size live
      obtain ⟨j₁, loop⟩ := (@pullLoop_stuck l _ mp fuel n (l.buffer newmp (u.dblk newmp).dbBase))
        (by rw [size]; omega) enough
      simp only [Int.toNat_natCast] at result
      rw [loop] at result
      cases result
      obtain ⟨-, -, -, -, -, -, -, -, -, mblk⟩ := (@crossConnect_frame j₁.blocks mp newmp) (i.blocks.mblk mp).bDatap n (some mp)
      refine ⟨rfl, ?_⟩
      simp only [Nat.add_sub_cancel_left, mblk, Function.update_self]
  · obtain ⟨newbuf, u, got⟩ := gets
    simp only [found, if_neg shared, got] at result
    simp only [Blocks.kmemAlloc, Option.ite_none_left_eq_some, Option.ite_none_right_eq_some] at got
    obtain ⟨positive, -, pair⟩ := got
    cases pair
    obtain ⟨n, rfl⟩ := Int.eq_ofNat_of_zero_le (show 0 ≤ count by omega)
    rw [Int.toNat_natCast] at result positive
    obtain ⟨j₁, loop⟩ := (@pullLoop_stuck l { i with blocks := { i.blocks with buffers := i.blocks.buffers + 1 } } mp fuel n
      (l.buffer (i.blocks.mblk mp).bDatap (.kmem i.blocks.buffers)))
      (.inr (by
        have less : n < i.blocks.size mp := by omega
        exact less)) enough
    rw [loop] at result
    cases result
    refine ⟨rfl, ?_⟩
    rw [replaceBuffer_mblk, if_pos rfl]

theorem pullupmsg_goes (message : Message i.blocks mp run after)
    (members : ∀ h ∈ run ++ after, h ∈ i.blocks.live) (enough : run.length < fuel) (vacant : Vacant l i.blocks (i.blocks.total run))
    (few : refs i.blocks.datap i.blocks.live (i.blocks.datap mp) ≤ 255)
    (found : i.blocks.pullCount l fuel mp len = some (.ok count)) (gets : Gets supply i.blocks mp count) (positive : 0 < count)
    (whole : i.blocks.size mp ≤ count) (within : count ≤ i.blocks.total run) :
    ∃ j rest, i.pullupmsg l supply fuel mp len = some (true, j) ∧ PulledUp l i j mp run after rest count.toNat := by
  obtain ⟨n, rfl⟩ := Int.eq_ofNat_of_zero_le positive.le
  unfold Gets at gets
  split at gets <;> rename_i shared
  · obtain ⟨newmp, u, got⟩ := gets
    exact pullupmsg_departs sane message members enough vacant found shared got (by omega) (by omega) (by omega)
  · obtain ⟨newbuf, u, got⟩ := gets
    exact pullupmsg_replaces sane message members enough vacant few found shared got (by omega) (by omega)

section
variable (live : mp ∈ i.blocks.live)
include live

theorem pulls_near_iff
    (few : refs i.blocks.datap i.blocks.live (i.blocks.datap mp) ≤ 255) (message : Message i.blocks mp run after)
    (enough : run.length < fuel) (vacant : Vacant l i.blocks (i.blocks.total run)) (near : Near i.blocks mp len) :
    PullsUp l supply i mp run after len (i.pullupmsg l supply fuel mp len) ↔
      (l.bRptr i.blocks mp % 4 ≠ 0 → Gets supply i.blocks mp (i.blocks.size mp) → 0 < i.blocks.size mp) := by
  have members := chain_live sane.threaded message.chain fun h same => some.inj same ▸ live
  have size := (@total_head l _ _ _ _ message).1
  obtain ⟨want, less⟩ := wanted_near message near
  have outcome := (@pullCount_near l i mp fuel len) near
  have long (other : len ≠ -1) : ¬ (i.blocks.total run : Int) < len := by
    have := less other
    omega
  by_cases aligned : l.bRptr i.blocks mp % 4 = 0
  · rw [if_pos aligned] at outcome
    have same : i.pullupmsg l supply fuel mp len = some (true, i) := by
      unfold Image.pullupmsg
      simp only [outcome]
    rw [same]
    exact iff_of_true ⟨true, i, rfl, fun _ => pulled_up_already message (fun h member => members h (mem_append_left _ member))
      near aligned, nofun, fun other short => absurd short (long other)⟩ fun wrong => absurd aligned wrong
  · rw [if_neg aligned] at outcome
    by_cases gets : Gets supply i.blocks mp (i.blocks.size mp)
    · by_cases positive : 0 < i.blocks.size mp
      · obtain ⟨j, rest, result, pulled⟩ := pullupmsg_goes sane message members enough vacant few outcome gets (by omega)
          le_rfl (by omega)
        rw [result]
        exact iff_of_true ⟨true, j, rfl, fun _ => ⟨rest, want ▸ pulled⟩, nofun, fun other short => absurd short (long other)⟩
          fun _ _ => positive
      · refine iff_of_false ?_ fun all => positive (all aligned gets)
        rintro ⟨ok, j, result, yes, -, -⟩
        obtain ⟨rfl, loops⟩ := pullupmsg_stuck sane live (Nat.zero_lt_of_lt enough) outcome gets (.inl (by omega)) result
        obtain ⟨rest, pulled⟩ := yes rfl
        exact pulled_up_loops loops pulled
    · obtain ⟨j, result, unaltered⟩ := pullupmsg_refused sane outcome gets
      rw [result]
      exact iff_of_true ⟨false, j, rfl, nofun, fun _ => ⟨unaltered, .inr (want ▸ gets)⟩, fun _ _ => rfl⟩ fun _ wrong => absurd wrong gets

theorem pulls_all_iff
    (few : refs i.blocks.datap i.blocks.live (i.blocks.datap mp) ≤ 255) (message : Message i.blocks mp run after)
    (enough : run.length < fuel) (vacant : Vacant l i.blocks (i.blocks.total run)) (far : ¬ Near i.blocks mp (-1)) :
    PullsUp l supply i mp run after (-1) (i.pullupmsg l supply fuel mp (-1)) ↔
      (Gets supply i.blocks mp (i.blocks.total run) ∨ Gets supply i.blocks mp (toInt (i.blocks.total run)) →
        0 < i.blocks.total run ∧ i.blocks.total run < 2147483648) := by
  have members := chain_live sane.threaded message.chain fun h same => some.inj same ▸ live
  have size := (@total_head l _ _ _ _ message).1
  have outcome := (@pullCount_far l i mp fuel run after (-1)) message enough far
  rw [if_pos rfl] at outcome
  have want : wanted i.blocks mp run (-1) = i.blocks.total run := if_pos rfl
  by_cases gets : Gets supply i.blocks mp (toInt (i.blocks.total run))
  · by_cases good : 0 < i.blocks.total run ∧ i.blocks.total run < 2147483648
    · rw [toInt_of_fits (by omega) (by omega)] at outcome gets
      obtain ⟨j, rest, result, pulled⟩ := pullupmsg_goes sane message members enough vacant few outcome gets (by omega) (by omega)
        le_rfl
      rw [result]
      exact iff_of_true ⟨true, j, rfl, fun _ => ⟨rest, want ▸ pulled⟩, nofun, fun wrong => absurd rfl wrong⟩ fun _ => good
    · refine iff_of_false ?_ fun all => good (all (.inr gets))
      rintro ⟨ok, j, result, yes, -, -⟩
      by_cases short : toInt (i.blocks.total run) ≤ 0 ∨ toInt (i.blocks.total run) < i.blocks.size mp
      · obtain ⟨rfl, loops⟩ := pullupmsg_stuck sane live (Nat.zero_lt_of_lt enough) outcome gets short result
        obtain ⟨rest, pulled⟩ := yes rfl
        exact pulled_up_loops loops pulled
      · -- The count of the whole has wrapped.
        obtain ⟨positive, whole⟩ := not_or.mp short
        have within := toInt_le (Int.natCast_nonneg (i.blocks.total run))
        have wrapped := toInt_lt (i.blocks.total run)
        obtain ⟨j', rest', result', pulled'⟩ := pullupmsg_goes sane message members enough vacant few outcome gets
          (not_le.mp positive) (not_lt.mp whole) within
        cases result.symm.trans result'
        obtain ⟨rest, pulled⟩ := yes rfl
        have bytes := congrArg List.length (pulled.first.symm.trans pulled'.first)
        have length : (i.stream l run).length = i.blocks.total run := stream_length
        rw [want, List.length_take, List.length_take, length] at bytes
        generalize toInt (i.blocks.total run) = count at *
        omega
  · obtain ⟨j, result, unaltered⟩ := pullupmsg_refused sane outcome gets
    rw [result]
    constructor
    · rintro ⟨ok, j', same, -, no, -⟩ (wrong | wrong)
      · cases same
        rcases (no rfl).2 with ⟨other, -⟩ | short
        · exact absurd rfl other
        · exact absurd (want ▸ wrong) short
      · exact absurd wrong gets
    · intro good
      refine ⟨false, j, rfl, nofun, fun _ => ⟨unaltered, .inr fun wrong => ?_⟩, fun _ _ => rfl⟩
      rw [want] at wrong
      obtain ⟨positive, fits⟩ := good (.inl wrong)
      rw [toInt_of_fits (by omega) (by omega)] at gets
      exact gets wrong

theorem pulls_some_iff
    (few : refs i.blocks.datap i.blocks.live (i.blocks.datap mp) ≤ 255) (message : Message i.blocks mp run after)
    (enough : run.length < fuel) (vacant : Vacant l i.blocks (i.blocks.total run)) (far : ¬ Near i.blocks mp len)
    (other : len ≠ -1) :
    PullsUp l supply i mp run after len (i.pullupmsg l supply fuel mp len) ↔
      (len ≤ i.blocks.total run → Gets supply i.blocks mp len → len ≤ toInt (i.blocks.total run)) := by
  have members := chain_live sane.threaded message.chain fun h same => some.inj same ▸ live
  have outcome := (@pullCount_far l i mp fuel run after len) message enough far
  rw [if_neg other] at outcome
  have more : i.blocks.size mp < len := by
    rw [Near, if_neg other] at far
    exact not_le.mp far
  have want : (wanted i.blocks mp run len : Int) = len := by
    rw [wanted, if_neg other]
    omega
  have within := toInt_le (Int.natCast_nonneg (i.blocks.total run))
  generalize toInt (i.blocks.total run) = total at *
  by_cases short : total < len
  · rw [if_pos short] at outcome
    have same : i.pullupmsg l supply fuel mp len = some (false, i) := by
      unfold Image.pullupmsg
      simp only [outcome]
    rw [same]
    constructor
    · rintro ⟨ok, j, same, -, no, -⟩ long gets
      cases same
      rcases (no rfl).2 with ⟨-, less⟩ | none
      · exact absurd less (not_lt.mpr long)
      · exact absurd (want.symm ▸ gets) none
    · intro good
      refine ⟨false, i, rfl, nofun, fun _ => ⟨.refl, ?_⟩, fun _ _ => rfl⟩
      by_contra neither
      obtain ⟨long, gets⟩ := not_or.mp neither
      have least := good (not_lt.mp fun less => long ⟨other, less⟩) (want ▸ not_not.mp gets)
      exact absurd short (not_lt.mpr least)
  · rw [if_neg short] at outcome
    have least : len ≤ total := not_lt.mp short
    by_cases gets : Gets supply i.blocks mp len
    · obtain ⟨j, rest, result, pulled⟩ := pullupmsg_goes sane message members enough vacant few outcome gets (by omega)
        more.le (least.trans within)
      have count : len.toNat = wanted i.blocks mp run len := by omega
      rw [result]
      exact iff_of_true ⟨true, j, rfl, fun _ => ⟨rest, count ▸ pulled⟩, nofun, fun _ less => by omega⟩ fun _ _ => least
    · obtain ⟨j, result, unaltered⟩ := pullupmsg_refused sane outcome gets
      rw [result]
      exact iff_of_true ⟨false, j, rfl, nofun, fun _ => ⟨unaltered, .inr (want.symm ▸ gets)⟩, fun _ _ => rfl⟩ fun _ _ => least

/-- `pullupmsg` keeps its promise for every message, unless it copies no bytes of a shared block
or the count of the whole has wrapped. -/
theorem pullupmsg_pulls_iff
    (few : refs i.blocks.datap i.blocks.live (i.blocks.datap mp) ≤ 255) (message : Message i.blocks mp run after)
    (enough : run.length < fuel) (vacant : Vacant l i.blocks (i.blocks.total run)) :
    PullsUp l supply i mp run after len (i.pullupmsg l supply fuel mp len) ↔ Pullable l supply i.blocks mp run len := by
  unfold Pullable
  by_cases near : Near i.blocks mp len
  · rw [if_pos near]
    exact pulls_near_iff sane live few message enough vacant near
  · rw [if_neg near]
    by_cases all : len = -1
    · subst all
      rw [if_pos rfl]
      exact pulls_all_iff sane live few message enough vacant near
    · rw [if_neg all]
      exact pulls_some_iff sane live few message enough vacant near all

end

end

end

/-! ## The bytes left out -/

section
variable {l : Layout} {supply : Blocks.Supply} {i j : Image} {s : Blocks} {mp fuel h n : Nat} {len : Int}

theorem strAligned_iff : s.strAligned h = true ↔ l.bRptr s h % 4 = 0 := by
  have base : l.bRptr s h % 4 = ((s.dblk (s.mblk h).bDatap).dbBase.address + (s.mblk h).bRptr) % 4 := by
    have own := l.databuf_aligned (s.mblk h).bDatap
    rw [Layout.bRptr, Layout.dbBase]
    cases (s.dblk (s.mblk h).bDatap).dbBase with
    | own =>
      simp only [Base.address]
      omega
    | kmem n =>
      have bought := l.kmem_aligned n
      simp only [Base.address]
      omega
    | external n address => rfl
  rw [base, Blocks.strAligned, decide_eq_true_iff]

/-- On the blocks the loop is the one without bytes. -/
theorem pullLoop_blocks {head : Option Nat} {wp : Nat} :
    (Image.pullLoop l mp fuel n head wp i).map (fun r => (r.1, r.2.1, r.2.2.blocks)) =
      (Blocks.pullLoop mp fuel n head i.blocks).map fun r => (wp + r.1, r.2.1, r.2.2) := by
  induction fuel generalizing n head wp i with
  | zero => cases n <;> cases head <;> rfl
  | succ fuel ih =>
    cases n with
    | zero => cases head <;> rfl
    | succ n =>
      cases head with
      | none => rfl
      | some bp =>
        simp only [Image.pullLoop, Blocks.pullLoop]
        split
        · rfl
        · have same : (if bp ≠ mp then { i with
                blocks := Blocks.freeb bp (i.blocks.advance bp (min (i.blocks.size bp) (n + 1)))
                mem := i.mem.copy (l.bRptr i.blocks bp) wp (min (i.blocks.size bp) (n + 1)) }
              else { i with
                blocks := i.blocks.advance bp (min (i.blocks.size bp) (n + 1))
                mem := i.mem.copy (l.bRptr i.blocks bp) wp (min (i.blocks.size bp) (n + 1)) } : Image).blocks =
              if bp ≠ mp then Blocks.freeb bp (i.blocks.advance bp (min (i.blocks.size bp) (n + 1)))
              else i.blocks.advance bp (min (i.blocks.size bp) (n + 1)) := apply_ite Image.blocks _ _ _
          rw [ih, same, map_map]
          refine congrArg (Option.map · _) (funext fun r => ?_)
          simp [Nat.add_assoc]

theorem pullLoop_map {β : Type} {head : Option Nat} {wp : Nat} (finish : Nat → Option Nat → Blocks → β) :
    (Image.pullLoop l mp fuel n head wp i).map (fun r => finish (r.1 - wp) r.2.1 r.2.2.blocks) =
      (Blocks.pullLoop mp fuel n head i.blocks).map fun r => finish r.1 r.2.1 r.2.2 := by
  have same := congrArg (Option.map fun r => finish (r.1 - wp) r.2.1 r.2.2) (@pullLoop_blocks l i mp fuel n head wp)
  rw [map_map, map_map] at same
  refine same.trans (congrArg (Option.map · _) (funext fun r => ?_))
  simp only [comp_apply, Nat.add_sub_cancel_left]

theorem pullCount_size (fits : ∀ count, i.blocks.xmsgsize fuel mp = some count → count < 2147483648) :
    i.blocks.pullCount l fuel mp len = (i.blocks.pullSize fuel mp len).map (Except.map fun count : Nat => (count : Int)) := by
  have aligned := (@strAligned_iff l i.blocks mp)
  unfold Blocks.pullCount Blocks.pullSize
  cases counted : i.blocks.xmsgsize fuel mp with
  | none =>
    simp only [aligned]
    split_ifs <;> rfl
  | some count =>
    have same : toInt count = count := toInt_of_fits (by omega) (by have := fits count counted; omega)
    simp only [aligned, map_some, same]
    split_ifs with all alone unaligned near unaligned few
    · rfl
    · rfl
    · rfl
    · rfl
    · rfl
    · change _ = some (Except.map _ (if (count : Int) < len then Except.error false else Except.ok len.toNat))
      rw [if_pos few]
      rfl
    · change _ = some (Except.map _ (if (count : Int) < len then Except.error false else Except.ok len.toNat))
      rw [if_neg few, Except.map, Int.toNat_of_nonneg (by omega)]

theorem pullupmsg_blocks (fits : ∀ count, i.blocks.xmsgsize fuel mp = some count → count < 2147483648) :
    (i.pullupmsg l supply fuel mp len).map (fun r => r.2.blocks) = Blocks.pullupmsg supply fuel mp len i.blocks := by
  rw [Image.pullupmsg, pullCount_size fits, Blocks.pullupmsg]
  cases i.blocks.pullSize fuel mp len with
  | none => rfl
  | some answer =>
    cases answer with
    | error done => rfl
    | ok count =>
      simp only [map_some, Except.map, Int.toNat_natCast]
      split
      · rcases Blocks.allocb supply count i.blocks with ⟨newmp | newmp, u⟩
        · rfl
        · simp only [if_neg (not_lt.mpr (Int.natCast_nonneg count)), map_map]
          exact pullLoop_map (Blocks.crossConnect mp (i.blocks.mblk mp).bDatap newmp)
      · cases Blocks.kmemAlloc supply.buffer count i.blocks with
        | none => rfl
        | some pair =>
          simp only [map_map]
          exact pullLoop_map fun copied bp t => Blocks.replaceBuffer mp (i.blocks.mblk mp).bDatap count copied pair.1 bp t

end

/-! ## Whole messages -/

section
variable {l : Layout} {supply : Blocks.Supply} {i : Image} {mp fuel : Nat} {run after : List Nat}

/-- `pullupmsg` and `adjmsg` act on the bytes of a message as they should if and only if there are
bytes to copy, no count has wrapped, and the scan for the tail stops at a block or is made once. -/
theorem bytes_act_iff (len n : Int) (reached : Reaches Initial Step Full i.blocks) (live : mp ∈ i.blocks.live)
    (message : Message i.blocks mp run after) (enough : run.length < fuel) (vacant : Vacant l i.blocks (i.blocks.total run)) :
    (PullsUp l supply i mp run after len (i.pullupmsg l supply fuel mp len) ↔ Pullable l supply i.blocks mp run len) ∧
      ((∃ ok t, Blocks.adjmsg fuel mp n i.blocks = some (ok, t) ∧ Trimmed l i mp run after n t) ↔
        Trimmable i.blocks run after n) := by
  obtain ⟨sane, few⟩ := blocks_sane reached
  exact ⟨pullupmsg_pulls_iff sane live (few _) message enough vacant, adjmsg_trims_iff message enough⟩

def fresh : Blocks := StreamBlocks.after (.allocb plenty 10) (StreamBlocks.after (.allocb plenty 10) booted)

def filled : Blocks := StreamBlocks.after (.move 1 0 2) (StreamBlocks.after (.move 0 0 2) fresh)

/-- Two blocks of two bytes each. -/
def halves : Blocks := StreamBlocks.after (.linkb 2 0 1) filled

theorem halves_reached : Reaches Initial Step Full halves := by
  have one : Reaches Initial Step Full (StreamBlocks.after (.allocb plenty 10) booted) :=
    .next (.start booted_initial) (step_after trivial (by simp [booted]) rfl (by decide)) trivial
  have two : Reaches Initial Step Full fresh := .next one (step_after trivial (absurd rfl) rfl (by decide)) trivial
  have half : Reaches Initial Step Full (StreamBlocks.after (.move 0 0 2) fresh) :=
    .next two (step_after ⟨by decide, by decide⟩ (absurd rfl) rfl (by decide)) trivial
  have both : Reaches Initial Step Full filled :=
    .next half (step_after ⟨by decide, by decide⟩ (absurd rfl) rfl (by decide)) trivial
  have apart : Given filled (.linkb 2 0 1) := by
    refine ⟨by decide, by decide, by decide, fun k first second => ?_⟩
    obtain rfl := Passes.stops rfl first
    exact absurd (Passes.stops rfl second) (by decide)
  exact .next both (step_after apart (absurd rfl) rfl (by decide)) trivial

theorem halves_message : Message halves 0 [0, 1] [] := by
  refine ⟨.cons (.cons .nil), fun h member => ?_, fun h member => ?_, nofun⟩
  · rcases List.mem_pair.mp member with rfl | rfl
    · decide
    · decide
  · rcases List.mem_pair.mp member with rfl | rfl
    · rfl
    · rfl

theorem halves_vacant : Vacant flat halves 4 := by
  have two (h : Nat) (member : h ∈ halves.live) : h = 0 ∨ h = 1 := by
    have all : ∀ h ∈ halves.live, h = 0 ∨ h = 1 := by decide
    exact all h member
  refine ⟨fun h member => .inl ?_, fun t free h member => .inl ?_⟩
  · rcases two h member with rfl | rfl
    · decide
    · decide
  · have first : halves.datap 0 ≠ t := free 0 (by decide)
    have second : halves.datap 1 ≠ t := free 1 (by decide)
    have away : t ≠ 0 ∧ t ≠ 1 := ⟨Ne.symm first, Ne.symm second⟩
    rcases two h member with rfl | rfl
    · change 70 ≤ 128 * t + 68
      omega
    · change 198 ≤ 128 * t + 68
      omega

def numbered : Image := ⟨halves, fun a => UInt8.ofNat a, fun _ => 0, fun _ => 0⟩

/-- All four bytes are pulled up, and two are trimmed from the head. -/
theorem bytes_act_iff_halves : PullsUp flat plenty numbered 0 [0, 1] [] 4 (numbered.pullupmsg flat plenty 3 0 4) ∧
    ∃ ok t, Blocks.adjmsg 3 0 2 halves = some (ok, t) ∧ Trimmed flat numbered 0 [0, 1] [] 2 t := by
  have both := (@bytes_act_iff flat plenty numbered 0 3 [0, 1] []) 4 2 halves_reached (by decide) halves_message (by decide)
    halves_vacant
  have fits : toInt 4 = 4 := toInt_of_fits (by decide) (by decide)
  refine ⟨both.1.mpr ?_, both.2.mpr ⟨fun _ few => ?_, nofun⟩⟩
  · rw [Pullable, if_neg (by decide), if_neg (by decide)]
    exact fun _ _ => Int.le_of_eq fits.symm
  · have wrong := fits ▸ few
    cases wrong

/-- Of two blocks of one type, only the last one is trimmed. -/
theorem adjmsg_stops : Message halves 0 [0, 1] [] ∧ halves.total [0, 1] = 4 ∧
    ∃ t, Blocks.adjmsg 3 0 (-3) halves = some (true, t) ∧ t.total [0, 1] = 2 := by
  have goes := (@adjmsg_goes numbered 0 3 [0, 1] [] (-3)) halves_message (by decide) (by
    rw [toInt_of_fits (by decide) (by decide)]
    decide)
  exact ⟨halves_message, by decide, halves.retreat 1 2, goes.trans rfl, by decide⟩

end

end Svr4.StreamBlocks
