import Mathlib.Algebra.BigOperators.Group.List.Basic
import Svr4.Foundation.Chain
import Svr4.Foundation.Words
import Svr4.Kernel.Streams.BlockBytes
import Svr4.Kernel.Streams.BlockRuns

/-! `adjmsg`: bytes are trimmed from the head or from the tail of a message. -/

namespace Svr4.Memory

section
variable {m : Memory} {o n k : Nat}

theorem bytes_drop : (m.bytes o n).drop k = m.bytes (o + k) (n - k) := by
  refine List.ext_getElem (by simp) fun i _ _ => ?_
  simp [bytes, Nat.add_assoc]

theorem bytes_take (within : k ≤ n) : (m.bytes o n).take k = m.bytes o k := by
  refine List.ext_getElem (by simp [within]) fun i _ _ => ?_
  simp [bytes]

end

end Svr4.Memory

namespace Svr4.StreamBlocks

open Words

namespace Blocks

/-- The write pointer of a block moves back. -/
def retreat (s : Blocks) (bp n : Nat) : Blocks := s.setMblk bp fun m => { m with bWptr := m.bWptr - n }

/-- The loop of `adjmsg` that trims `len` bytes from the head. -/
def trimHead : Nat → Nat → Option Nat → Blocks → Option Blocks
  | _, 0, _, s => some s
  | _, _ + 1, none, s => some s
  | 0, _ + 1, some _, _ => none
  | fuel + 1, len + 1, some bp, s =>
    let n := min (s.size bp) (len + 1)
    let s := s.advance bp n
    trimHead fuel (len + 1 - n) (s.mblk bp).bCont s

/-- The scan over the blocks of the type: the last one with bytes, and where it ends. -/
def scan (s : Blocks) (type : Nat) : Nat → Option Nat → Option Nat → Option (Option Nat × Option Nat)
  | _, none, save => some (save, none)
  | 0, some _, _ => none
  | fuel + 1, some bp, save =>
    if s.blockType bp = type then scan s type fuel (s.mblk bp).bCont (if s.size bp > 0 then some bp else save)
    else some (save, some bp)

/-- The loop that trims `len` bytes from the tail. Every round trims one byte at least. -/
def trimTail (fuel type mp : Nat) : Nat → Nat → Option Nat → Blocks → Option Blocks
  | _, 0, _, s => some s
  | _, _ + 1, none, s => some s
  | 0, _ + 1, some _, _ => none
  | rounds + 1, len + 1, some _, s => do
    let (save, bp) ← s.scan type fuel (some mp) none
    match save with
    | none => return s
    | some save =>
      let n := min (s.size save) (len + 1)
      trimTail fuel type mp rounds (len + 1 - n) bp (s.retreat save n)

/-- `xmsgsize` counts in an int. -/
def adjmsg (fuel mp : Nat) (len : Int) (s : Blocks) : Option (Bool × Blocks) := do
  let count ← s.xmsgsize fuel mp
  if toInt count < len.natAbs then return (false, s)
  let trimmed := if len < 0 then trimTail fuel (s.blockType mp) mp len.natAbs len.natAbs (some mp) s
    else trimHead fuel len.natAbs (some mp) s
  let s ← trimmed
  return (true, s)

end Blocks

/-- A message: the blocks of the type of the first one, and those behind them. -/
structure Message (s : Blocks) (mp : Nat) (run after : List Nat) : Prop where
  chain : Chain s.cont (some mp) (run ++ after)
  ordered : ∀ h ∈ run ++ after, (s.mblk h).bRptr ≤ (s.mblk h).bWptr
  same : ∀ h ∈ run, s.blockType h = s.blockType mp
  other : ∀ h, after.head? = some h → s.blockType h ≠ s.blockType mp

/-- The bytes of some blocks. -/
def Blocks.total (s : Blocks) (run : List Nat) : Nat := (run.map s.size).sum

/-- The bytes of some blocks, one after the other. -/
def Image.stream (l : Layout) (i : Image) (run : List Nat) : List UInt8 := run.flatMap (i.bytes l)

section
variable {l : Layout} {s t : Blocks} {i : Image} {mp fuel h n type : Nat} {run after list left right : List Nat}

@[simp] theorem Image.bytes_length : (i.bytes l h).length = i.blocks.size h := Memory.bytes_length

theorem stream_length : (i.stream l run).length = i.blocks.total run := by
  simp [Image.stream, Blocks.total, List.length_flatMap]

theorem stream_append : i.stream l (left ++ right) = i.stream l left ++ i.stream l right := List.flatMap_append

theorem stream_cons : i.stream l (h :: run) = i.bytes l h ++ i.stream l run := List.flatMap_cons

theorem total_append : s.total (left ++ right) = s.total left + s.total right := by simp [Blocks.total]

theorem total_cons : s.total (h :: run) = s.size h + s.total run := by simp [Blocks.total]

theorem Message.nodup (message : Message s mp run after) : (run ++ after).Nodup := message.chain.nodup

/-! ## Counting -/

theorem sizeFrom_eq {head : Option Nat} (chain : Chain s.cont head (run ++ after)) (same : ∀ h ∈ run, s.blockType h = type)
    (other : ∀ h, after.head? = some h → s.blockType h ≠ type) (enough : run.length < fuel) :
    s.sizeFrom type fuel head = some (s.total run) := by
  induction run generalizing fuel head with
  | nil =>
    obtain ⟨fuel, rfl⟩ := Nat.exists_eq_add_one.mpr enough
    cases after with
    | nil =>
      obtain rfl := chain.head_eq
      simp [Blocks.sizeFrom, Blocks.total]
    | cons h rest =>
      obtain rfl : head = some h := chain.head_eq
      rw [Blocks.sizeFrom, if_pos (other h rfl).symm]
      rfl
  | cons h run ih =>
    obtain ⟨fuel, rfl⟩ := Nat.exists_eq_succ_of_ne_zero (Nat.ne_zero_of_lt enough)
    obtain rfl : head = some h := chain.head_eq
    have rest := (@ih fuel (s.cont h)) chain.tail (fun k member => same k (.tail _ member))
      (by simpa using enough)
    rw [Blocks.sizeFrom, if_neg (by simp [same h (.head _)]), ← Blocks.cont, rest, total_cons]
    rfl

theorem Message.xmsgsize (message : Message s mp run after) (enough : run.length < fuel) :
    s.xmsgsize fuel mp = some (s.total run) :=
  sizeFrom_eq message.chain message.same message.other enough

/-! ## What trimming leaves alone -/

/-- Only pointers of these blocks have moved. -/
structure Moved (s t : Blocks) (run : List Nat) : Prop where
  rest : t = { s with mblk := t.mblk }
  links : ∀ h, (t.mblk h).bCont = (s.mblk h).bCont ∧ (t.mblk h).bDatap = (s.mblk h).bDatap
  outside : ∀ h, h ∉ run → t.mblk h = s.mblk h

theorem Moved.refl : Moved s s run := ⟨rfl, fun _ => ⟨rfl, rfl⟩, fun _ _ => rfl⟩

theorem Moved.trans {u : Blocks} (one : Moved s t run) (two : Moved t u run) : Moved s u run := by
  refine ⟨?_, fun h => ?_, fun h away => (two.outside h away).trans (one.outside h away)⟩
  · rw [two.rest, one.rest]
  · exact ⟨(two.links h).1.trans (one.links h).1, (two.links h).2.trans (one.links h).2⟩

theorem Moved.mono (moved : Moved s t left) (sub : left ⊆ run) : Moved s t run :=
  ⟨moved.rest, moved.links, fun h away => moved.outside h fun member => away (sub member)⟩

theorem Moved.dblk (moved : Moved s t run) : t.dblk = s.dblk := by rw [moved.rest]

theorem Moved.cont (moved : Moved s t run) : t.cont = s.cont := funext fun h => (moved.links h).1

theorem Moved.blockType (moved : Moved s t run) (h : Nat) : t.blockType h = s.blockType h := by
  rw [Blocks.blockType, Blocks.blockType, (moved.links h).2, moved.dblk]

theorem advance_moved (member : h ∈ run) : Moved s (s.advance h n) run := by
  refine ⟨rfl, fun k => ?_, fun k away => ?_⟩
  · by_cases here : k = h
    · simp [Blocks.advance, here]
    · simp [Blocks.advance, here]
  · have differ : k ≠ h := fun same => away (same ▸ member)
    simp [Blocks.advance, differ]

theorem retreat_moved (member : h ∈ run) : Moved s (s.retreat h n) run := by
  refine ⟨rfl, fun k => ?_, fun k away => ?_⟩
  · by_cases here : k = h
    · simp [Blocks.retreat, here]
    · simp [Blocks.retreat, here]
  · have differ : k ≠ h := fun same => away (same ▸ member)
    simp [Blocks.retreat, differ]

theorem Moved.bytes (moved : Moved i.blocks t run) (away : h ∉ run) : Image.bytes l { i with blocks := t } h = i.bytes l h := by
  simp only [Image.bytes, Blocks.size, Layout.bRptr, Layout.dbBase, moved.outside h away, moved.dblk]

theorem Moved.stream (moved : Moved i.blocks t run) (away : ∀ h ∈ list, h ∉ run) :
    Image.stream l { i with blocks := t } list = i.stream l list :=
  List.flatMap_congr fun h member => moved.bytes (away h member)

theorem advance_bytes : Image.bytes l { i with blocks := i.blocks.advance h n } h = (i.bytes l h).drop n := by
  simp only [Image.bytes, Memory.bytes_drop, Blocks.size, Layout.bRptr, Layout.dbBase, Blocks.advance, setMblk_apply,
    if_pos, setMblk_dblk]
  rw [Nat.sub_sub, Nat.add_assoc]

theorem retreat_bytes : Image.bytes l { i with blocks := i.blocks.retreat h n } h =
    (i.bytes l h).take (i.blocks.size h - n) := by
  rw [Image.bytes, Image.bytes, Memory.bytes_take (Nat.sub_le _ _)]
  simp only [Blocks.size, Layout.bRptr, Layout.dbBase, Blocks.retreat, setMblk_apply, if_pos, setMblk_dblk]
  congr 1
  omega

theorem Moved.message (moved : Moved s t run) (message : Message s mp run after)
    (ordered : ∀ h ∈ run, (t.mblk h).bRptr ≤ (t.mblk h).bWptr) : Message t mp run after := by
  refine ⟨?_, fun h member => ?_, fun h member => ?_, fun h first => ?_⟩
  · rw [moved.cont]
    exact message.chain
  · by_cases inside : h ∈ run
    · exact ordered h inside
    · rw [moved.outside h inside]
      exact message.ordered h member
  · rw [moved.blockType, moved.blockType]
    exact message.same h member
  · rw [moved.blockType, moved.blockType]
    exact message.other h first

/-! ## From the head -/

theorem trimHead_spec {head : Option Nat} {run : List Nat} {i : Image} (chain : Chain i.blocks.cont head (run ++ after))
    (ordered : ∀ h ∈ run, (i.blocks.mblk h).bRptr ≤ (i.blocks.mblk h).bWptr) (within : n ≤ i.blocks.total run)
    (enough : run.length ≤ fuel) :
    ∃ t, Blocks.trimHead fuel n head i.blocks = some t ∧ Moved i.blocks t run ∧
      (∀ h ∈ run, (t.mblk h).bRptr ≤ (t.mblk h).bWptr) ∧
      Image.stream l { i with blocks := t } run = (i.stream l run).drop n := by
  induction run generalizing i head fuel n with
  | nil =>
    obtain rfl : n = 0 := by simpa [Blocks.total] using within
    exact ⟨i.blocks, by cases fuel <;> rfl, .refl, by simp, rfl⟩
  | cons h run ih =>
    cases n with
    | zero => exact ⟨i.blocks, by cases fuel <;> rfl, .refl, ordered, by simp⟩
    | succ n =>
      obtain ⟨fuel, rfl⟩ : ∃ more, fuel = more + 1 := ⟨fuel - 1, by simp only [List.length_cons] at enough; omega⟩
      obtain rfl : head = some h := chain.head_eq
      have apart : h ∉ run := fun member => (List.nodup_cons.mp chain.nodup).1 (List.mem_append_left _ member)
      let k := min (i.blocks.size h) (n + 1)
      let j : Image := { i with blocks := i.blocks.advance h k }
      have moved : Moved i.blocks j.blocks [h] := advance_moved (List.mem_singleton.mpr rfl)
      have away {x : Nat} (member : x ∈ run) : x ∉ [h] := by
        rintro (_ | ⟨_, ⟨⟩⟩)
        exact apart member
      have total : j.blocks.total run = i.blocks.total run := by
        refine congrArg List.sum (List.map_congr_left fun x member => ?_)
        rw [Blocks.size, Blocks.size, moved.outside x (away member)]
      rw [total_cons] at within
      obtain ⟨t, result, more, sane, bytes⟩ := (@ih fuel (n + 1 - k) (j.blocks.mblk h).bCont j)
        (by
          rw [(moved.links h).1, moved.cont]
          exact chain.tail)
        (fun x member => by
          rw [moved.outside x (away member)]
          exact ordered x (.tail _ member))
        (by rw [total]; omega) (by simpa using enough)
      refine ⟨t, result, (moved.mono (by simp)).trans (more.mono (List.subset_cons_self _ _)), fun x member => ?_, ?_⟩
      · rcases List.mem_cons.mp member with rfl | member
        · rw [more.outside x apart]
          have first := ordered x (.head _)
          simp only [j, k, Blocks.advance, setMblk_apply, if_pos, Blocks.size]
          omega
        · exact sane x member
      · have first : Image.bytes l { i with blocks := t } h = (i.bytes l h).drop k := by
          rw [← advance_bytes]
          exact (@Moved.bytes l t j h run) more apart
        have rest : i.stream l run = j.stream l run := (moved.stream fun x => away).symm
        rw [stream_cons, stream_cons, first, List.drop_append, Image.bytes_length, rest]
        have later : Image.stream l { i with blocks := t } run = (j.stream l run).drop (n + 1 - k) := bytes
        rw [later]
        congr 1
        · by_cases small : i.blocks.size h ≤ n + 1
          · rw [List.drop_eq_nil_of_le (by simp [k, small]), List.drop_eq_nil_of_le (by simp [small])]
          · rw [show k = n + 1 by omega]
        · congr 1
          omega

/-! ## From the tail -/

/-- The last block with bytes. -/
def Blocks.lastFilled (s : Blocks) (run : List Nat) : Option Nat := run.reverse.find? fun h => s.size h > 0

theorem lastFilled_split (last : s.lastFilled run = some h) :
    0 < s.size h ∧ ∃ left right, run = left ++ h :: right ∧ s.total right = 0 := by
  obtain ⟨filled, front, back, split, empty⟩ := List.find?_eq_some_iff_append.mp last
  refine ⟨by simpa using filled, back.reverse, front.reverse, ?_, ?_⟩
  · have turned := congrArg List.reverse split
    simpa using turned
  · refine List.sum_eq_zero fun size member => ?_
    obtain ⟨x, there, rfl⟩ := List.mem_map.mp member
    simpa using empty x (List.mem_reverse.mp there)

theorem lastFilled_none (last : s.lastFilled run = none) : s.total run = 0 := by
  refine List.sum_eq_zero fun size member => ?_
  obtain ⟨x, there, rfl⟩ := List.mem_map.mp member
  simpa using List.find?_eq_none.mp last x (List.mem_reverse.mpr there)

theorem scan_eq {head save : Option Nat} (chain : Chain s.cont head (run ++ after)) (same : ∀ h ∈ run, s.blockType h = type)
    (other : ∀ h, after.head? = some h → s.blockType h ≠ type) (enough : run.length < fuel) :
    s.scan type fuel head save = some ((s.lastFilled run).or save, after.head?) := by
  induction run generalizing fuel head save with
  | nil =>
    obtain ⟨fuel, rfl⟩ := Nat.exists_eq_add_one.mpr enough
    cases after with
    | nil =>
      obtain rfl := chain.head_eq
      simp [Blocks.scan, Blocks.lastFilled]
    | cons h rest =>
      obtain rfl : head = some h := chain.head_eq
      rw [Blocks.scan, if_neg (other h rfl)]
      rfl
  | cons h run ih =>
    obtain ⟨fuel, rfl⟩ := Nat.exists_eq_succ_of_ne_zero (Nat.ne_zero_of_lt enough)
    obtain rfl : head = some h := chain.head_eq
    rw [Blocks.scan, if_pos (same h (.head _)), ← Blocks.cont,
      ih chain.tail (fun k member => same k (.tail _ member)) (by simpa using enough)]
    congr 2
    rw [Blocks.lastFilled, Blocks.lastFilled, List.reverse_cons, List.find?_append]
    cases List.find? (fun h => decide (s.size h > 0)) run.reverse with
    | some x => rfl
    | none =>
      by_cases filled : s.size h > 0
      · simp [filled]
      · simp [filled]

/-- Trimming the last block with bytes trims the whole. -/
theorem retreat_stream (nodup : run.Nodup) (last : i.blocks.lastFilled run = some h) (within : n ≤ i.blocks.size h) :
    Image.stream l { i with blocks := i.blocks.retreat h n } run = (i.stream l run).take (i.blocks.total run - n) := by
  obtain ⟨-, left, right, rfl, empty⟩ := lastFilled_split last
  have moved : Moved i.blocks (i.blocks.retreat h n) [h] := retreat_moved (List.mem_singleton.mpr rfl)
  obtain ⟨-, tail, across⟩ := List.nodup_append.mp nodup
  have front : Image.stream l { i with blocks := i.blocks.retreat h n } left = i.stream l left :=
    moved.stream fun x member inside => across x member h (.head _) (List.mem_singleton.mp inside)
  have back : Image.stream l { i with blocks := i.blocks.retreat h n } right = i.stream l right :=
    moved.stream fun x member inside => (List.nodup_cons.mp tail).1 (List.mem_singleton.mp inside ▸ member)
  have none : i.stream l right = [] := List.length_eq_zero_iff.mp (stream_length.trans empty)
  rw [stream_append, stream_append, stream_cons, stream_cons, front, back, none, retreat_bytes, List.append_nil, List.append_nil,
    total_append, total_cons, empty, List.take_append, stream_length]
  have whole : (i.stream l left).take (i.blocks.total left + (i.blocks.size h + 0) - n) = i.stream l left :=
    List.take_of_length_le (by rw [stream_length]; omega)
  rw [whole]
  congr 2
  omega

theorem retreat_message (message : Message s mp run after) (last : s.lastFilled run = some h) (within : n ≤ s.size h) :
    Message (s.retreat h n) mp run after ∧ Moved s (s.retreat h n) run ∧ (s.retreat h n).total run = s.total run - n := by
  obtain ⟨-, left, right, split, -⟩ := lastFilled_split last
  have member : h ∈ run := by simp [split]
  have moved : Moved s (s.retreat h n) run := retreat_moved member
  refine ⟨moved.message message fun x there => ?_, moved, ?_⟩
  · have ordered := message.ordered x (List.mem_append_left _ there)
    by_cases here : x = h
    · subst here
      simp only [Blocks.retreat, setMblk_apply, if_pos, Blocks.size] at within ⊢
      omega
    · simpa [Blocks.retreat, here] using ordered
  · -- The number of bytes, for any content of memory.
    let i : Image := ⟨s, fun _ => 0, fun _ => 0, fun _ => 0⟩
    let l : Layout := ⟨fun _ => 0, fun _ => 0, fun _ => by simp, fun _ => by simp⟩
    have bytes := congrArg List.length ((@retreat_stream l i h n run) (List.nodup_append.mp message.nodup).1 last within)
    rw [stream_length, List.length_take, stream_length] at bytes
    exact bytes.trans (Nat.min_eq_left (Nat.sub_le _ _))

theorem trimTail_spec {rounds : Nat} {bp : Option Nat} {i : Image} (message : Message i.blocks mp run after)
    (enough : run.length < fuel) (further : after ≠ []) (within : n ≤ i.blocks.total run) (more : n ≤ rounds) (go : bp ≠ none) :
    ∃ t, Blocks.trimTail fuel (i.blocks.blockType mp) mp rounds n bp i.blocks = some t ∧ Moved i.blocks t run ∧
      Message t mp run after ∧ Image.stream l { i with blocks := t } run = (i.stream l run).take (i.blocks.total run - n) := by
  induction rounds generalizing n bp i with
  | zero =>
    obtain rfl := Nat.le_zero.mp more
    refine ⟨i.blocks, by cases bp <;> rfl, .refl, message, ?_⟩
    rw [Nat.sub_zero, List.take_of_length_le (Nat.le_of_eq stream_length)]
  | succ rounds ih =>
    cases n with
    | zero =>
      refine ⟨i.blocks, by cases bp <;> rfl, .refl, message, ?_⟩
      rw [Nat.sub_zero, List.take_of_length_le (Nat.le_of_eq stream_length)]
    | succ n =>
      obtain ⟨bp, rfl⟩ := Option.ne_none_iff_exists'.mp go
      have scanned := (@scan_eq i.blocks fuel _ run after (some mp) none) message.chain message.same message.other enough
      cases last : i.blocks.lastFilled run with
      | none =>
        rw [lastFilled_none last] at within
        cases within
      | some h =>
        let k := min (i.blocks.size h) (n + 1)
        let j : Image := { i with blocks := i.blocks.retreat h k }
        obtain ⟨filled, -⟩ := lastFilled_split last
        obtain ⟨message', moved, total⟩ := retreat_message message last (Nat.min_le_left _ (n + 1))
        have first := (@retreat_stream l i h k run) (List.nodup_append.mp message.nodup).1 last (Nat.min_le_left _ _)
        obtain ⟨t, result, later, message'', bytes⟩ := (@ih (n + 1 - k) after.head? j) message'
          (by change n + 1 - k ≤ (i.blocks.retreat h k).total run; rw [total]; omega) (by omega) (by simpa using further)
        refine ⟨t, ?_, moved.trans later, message'', ?_⟩
        · rw [Blocks.trimTail, scanned, last]
          have type : j.blocks.blockType mp = i.blocks.blockType mp := moved.blockType mp
          rw [type] at result
          exact result
        · have bytes : Image.stream l { i with blocks := t } run = (j.stream l run).take (j.blocks.total run - (n + 1 - k)) := bytes
          have rest : j.blocks.total run = i.blocks.total run - k := total
          rw [bytes, rest, show j.stream l run = _ from first, List.take_take]
          congr 1
          omega

theorem trimTail_once {rounds : Nat} (message : Message s mp run []) (enough : run.length < fuel) (last : s.lastFilled run = some h)
    (more : n < rounds) (bp : Nat) :
    Blocks.trimTail fuel (s.blockType mp) mp rounds (n + 1) (some bp) s = some (s.retreat h (min (s.size h) (n + 1))) := by
  obtain ⟨rounds, rfl⟩ := Nat.exists_eq_succ_of_ne_zero (Nat.ne_zero_of_lt more)
  have scanned := (@scan_eq s fuel _ run [] (some mp) none) message.chain message.same message.other enough
  rw [Blocks.trimTail, scanned, last]
  simp only [Option.bind_eq_bind, Option.bind_some, Option.some_or, List.head?_nil]
  cases n + 1 - min (s.size h) (n + 1) with
  | zero => cases rounds <;> rfl
  | succ _ => cases rounds <;> rfl

end

/-! ## Both ends -/

/-- The bytes are trimmed from the first run, or nothing changes where it is shorter. -/
structure Trimmed (l : Layout) (i : Image) (mp : Nat) (run after : List Nat) (len : Int) (t : Blocks) : Prop where
  message : Message t mp run after
  moved : Moved i.blocks t run
  short : i.blocks.total run < len.natAbs → t = i.blocks
  bytes : len.natAbs ≤ i.blocks.total run → Image.stream l { i with blocks := t } run =
    if len < 0 then (i.stream l run).take (i.blocks.total run - len.natAbs) else (i.stream l run).drop len.natAbs

/-- When `adjmsg` does what it is for: the count of the bytes has not wrapped below the number
to trim, and the scan for the tail stops at a block or is made once. -/
def Trimmable (s : Blocks) (run after : List Nat) (len : Int) : Prop :=
  (len ≠ 0 → toInt (s.total run) < len.natAbs → s.total run < len.natAbs) ∧
    (len < 0 → (len.natAbs : Int) ≤ toInt (s.total run) → after = [] → ∀ h, s.lastFilled run = some h → len.natAbs ≤ s.size h)

section
variable {l : Layout} {i : Image} {mp fuel : Nat} {run after : List Nat} {len : Int}

theorem adjmsg_refused (message : Message i.blocks mp run after) (enough : run.length < fuel)
    (few : toInt (i.blocks.total run) < len.natAbs) : Blocks.adjmsg fuel mp len i.blocks = some (false, i.blocks) := by
  rw [Blocks.adjmsg, message.xmsgsize enough, Option.bind_eq_bind, Option.bind_some, if_pos few]
  rfl

theorem adjmsg_goes (message : Message i.blocks mp run after) (enough : run.length < fuel)
    (many : ¬ toInt (i.blocks.total run) < len.natAbs) : Blocks.adjmsg fuel mp len i.blocks =
      (if len < 0 then Blocks.trimTail fuel (i.blocks.blockType mp) mp len.natAbs len.natAbs (some mp) i.blocks
        else Blocks.trimHead fuel len.natAbs (some mp) i.blocks).map fun t => (true, t) := by
  rw [Blocks.adjmsg, message.xmsgsize enough, Option.bind_eq_bind, Option.bind_some, if_neg many, Option.map_eq_bind]
  rfl

theorem adjmsg_trims_iff (message : Message i.blocks mp run after) (enough : run.length < fuel) :
    (∃ ok t, Blocks.adjmsg fuel mp len i.blocks = some (ok, t) ∧ Trimmed l i mp run after len t) ↔
      Trimmable i.blocks run after len := by
  have length : (i.stream l run).length = i.blocks.total run := stream_length
  have refused := (@adjmsg_refused i mp fuel run after len) message enough
  have goes := (@adjmsg_goes i mp fuel run after len) message enough
  have least := toInt_le (Int.natCast_nonneg (i.blocks.total run))
  unfold Trimmable
  generalize toInt (i.blocks.total run) = count at *
  by_cases few : count < len.natAbs
  · rw [refused few]
    constructor
    · rintro ⟨ok, t, same, trimmed⟩
      cases same
      refine ⟨fun some' _ => ?_, fun _ wrong => absurd few (not_lt.mpr wrong)⟩
      by_contra long
      have bytes := congrArg List.length (trimmed.bytes (not_lt.mp long))
      have whole : (Image.stream l { i with blocks := i.blocks } run).length = i.blocks.total run := length
      rw [whole] at bytes
      split at bytes
      · rw [List.length_take, length] at bytes
        omega
      · rw [List.length_drop, length] at bytes
        omega
    · rintro ⟨short, -⟩
      refine ⟨false, i.blocks, rfl, ⟨message, .refl, fun _ => rfl, fun long => ?_⟩⟩
      obtain rfl : len = 0 := by
        by_contra some'
        exact absurd (short some' few) (Nat.not_lt_of_le long)
      simp
  · have long : len.natAbs ≤ i.blocks.total run := by omega
    rw [goes few]
    by_cases tail : len < 0
    · rw [if_pos tail]
      obtain ⟨n, size⟩ : ∃ n, len.natAbs = n + 1 := ⟨len.natAbs - 1, by omega⟩
      by_cases further : after = []
      · subst further
        cases last : i.blocks.lastFilled run with
        | none =>
          rw [lastFilled_none last] at long
          omega
        | some h =>
          rw [size, trimTail_once message enough last (Nat.lt_succ_self n) mp, ← size]
          obtain ⟨message', moved, -⟩ := retreat_message message last (Nat.min_le_left _ len.natAbs)
          have bytes := (@retreat_stream l i h _ run) (List.nodup_append.mp message.nodup).1 last (Nat.min_le_left _ len.natAbs)
          constructor
          · rintro ⟨ok, t, same, trimmed⟩
            cases same
            refine ⟨fun _ wrong => absurd wrong few, fun _ _ _ x found => ?_⟩
            cases found
            have whole := trimmed.bytes long
            rw [if_pos tail, bytes] at whole
            have lengths := congrArg List.length whole
            rw [List.length_take, List.length_take, length] at lengths
            omega
          · rintro ⟨-, once⟩
            have enough := once tail (not_lt.mp few) rfl h rfl
            refine ⟨true, _, rfl, message', moved, fun short => absurd short (Nat.not_lt_of_le long), fun _ => ?_⟩
            rw [if_pos tail, bytes, Nat.min_eq_right enough]
      · obtain ⟨t, result, moved, message', bytes⟩ := (@trimTail_spec l mp fuel len.natAbs run after len.natAbs (some mp) i)
          message enough further long le_rfl (by simp)
        rw [result]
        refine iff_of_true ⟨true, t, rfl, message', moved, fun short => absurd short (Nat.not_lt_of_le long), fun _ => ?_⟩
          ⟨fun _ wrong => absurd wrong few, fun _ _ none => absurd none further⟩
        rw [if_pos tail]
        exact bytes
    · obtain ⟨t, result, moved, ordered, bytes⟩ := (@trimHead_spec l fuel len.natAbs after (some mp) run i) message.chain
        (fun h member => message.ordered h (List.mem_append_left _ member)) long enough.le
      rw [if_neg tail, result]
      refine iff_of_true ⟨true, t, rfl, moved.message message ordered, moved, fun short => absurd short (Nat.not_lt_of_le long),
        fun _ => ?_⟩ ⟨fun _ wrong => absurd wrong few, fun wrong => absurd wrong tail⟩
      rw [if_neg tail]
      exact bytes

end

end Svr4.StreamBlocks
