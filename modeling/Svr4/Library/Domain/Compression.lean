import Svr4.Library.Domain.Names

/-! What a message spells at a position, and that dn_comp adds a spelling of
its name and leaves those before it. -/

namespace Svr4.Domain

open Function
open BitVec (ofNat)

variable {msg msg' : Nat → Byte} {p base stop used : Nat} {l : Label} {labels : List Label} {search : List Nat}
  {labels' : List Label} {stat : Bool}

/-- A length byte and the label behind it. -/
structure Holds (msg : Nat → Byte) (p : Nat) (l : Label) : Prop where
  proper : l.Proper
  length : msg p = ofNat 8 l.length
  bytes : ∀ i (h : i < l.length), msg (p + 1 + i) = l[i]

/-- The labels from a position on, up to where the name stops in place. An
indirection leads to a name that stops before base, which is where the name
itself begins or earlier. -/
inductive Spells (msg : Nat → Byte) : Nat → Nat → List Label → Nat → Prop where
  | root {base p : Nat} : base ≤ p → msg p = 0 → Spells msg base p [] (p + 1)
  | label {base p stop : Nat} {l : Label} {labels : List Label} : base ≤ p → Holds msg p l →
      Spells msg base (p + 1 + l.length) labels stop → Spells msg base p (l :: labels) stop
  | indirect {base p before stop : Nat} {labels : List Label} : base ≤ p →
      msg p &&& INDIR_MASK = INDIR_MASK →
      Spells msg before (indirection (msg p) (msg (p + 1))) labels stop → stop ≤ base →
      Spells msg base p labels (p + 2)

theorem lengthByte (n : Nat) (positive : 0 < n) (short : n ≤ MAXLABEL) :
    ofNat 8 n ≠ 0 ∧ ofNat 8 n &&& INDIR_MASK = 0 ∧ (ofNat 8 n).toNat = n := by
  have all : ∀ n < 64, 0 < n → ofNat 8 n ≠ 0 ∧ ofNat 8 n &&& INDIR_MASK = 0 ∧
      (ofNat 8 n).toNat = n := by decide
  exact all n (Nat.lt_succ_of_le short) positive

theorem mask_ne_zero {n : Byte} (masked : n &&& INDIR_MASK = INDIR_MASK) :
    n ≠ 0 ∧ n &&& INDIR_MASK ≠ 0 := by
  have differ : INDIR_MASK ≠ 0 := by decide
  refine ⟨?_, masked.symm ▸ differ⟩
  rintro rfl
  cases masked

theorem indirection_bytes (l : Nat) (short : l < 2 ^ 14) :
    (ofNat 8 (l / 2 ^ 8) ||| INDIR_MASK) &&& INDIR_MASK = INDIR_MASK ∧
      indirection (ofNat 8 (l / 2 ^ 8) ||| INDIR_MASK) (ofNat 8 (l % 2 ^ 8)) = l := by
  have all : ∀ n < 64, (ofNat 8 n ||| INDIR_MASK) &&& INDIR_MASK = INDIR_MASK ∧
      ((ofNat 8 n ||| INDIR_MASK) &&& 0x3f).toNat = n := by decide
  obtain ⟨masked, high⟩ := all (l / 2 ^ 8) (by omega)
  refine ⟨masked, ?_⟩
  rw [indirection, high, BitVec.toNat_ofNat]
  omega

theorem Holds.positive (holds : Holds msg p l) : 0 < l.length :=
  List.length_pos_iff.2 holds.proper.nonempty

theorem Holds.frame (holds : Holds msg p l)
    (same : ∀ q < p + 1 + l.length, msg' q = msg q) : Holds msg' p l where
  proper := holds.proper
  length := by rw [same p (by omega), holds.length]
  bytes := fun i h => by rw [same (p + 1 + i) (by omega), holds.bytes i h]

section
variable (spells : Spells msg base p labels stop)
include spells

theorem Spells.place
    : base ≤ p ∧ p < stop := by
  induction spells with
  | root low _ => exact ⟨low, Nat.lt_succ_self _⟩
  | label low _ _ ih => exact ⟨low, by omega⟩
  | indirect low _ _ _ _ => exact ⟨low, by omega⟩

/-- A name is read below the place where it stops only. -/
theorem Spells.frame
    (same : ∀ q < stop, msg' q = msg q) :
    Spells msg' base p labels stop := by
  induction spells with
  | root low zero => exact .root low (by rw [same _ (Nat.lt_succ_self _), zero])
  | label low holds rest ih =>
    have := rest.place
    exact .label low (holds.frame fun q h => same q (by omega)) (ih same)
  | @indirect base p before stop labels low masked target earlier ih =>
    have here := same p (by omega)
    have next := same (p + 1) (by omega)
    have target' : Spells msg' before (indirection (msg' p) (msg' (p + 1))) labels stop := by
      rw [here, next]
      exact ih fun q h => same q (by omega)
    exact .indirect low (by rw [here, masked]) target' earlier

theorem Spells.nil_of_zero
    (zero : msg p = 0) : labels = [] := by
  cases spells with
  | root => rfl
  | label _ holds _ =>
    exact absurd (holds.length.symm.trans zero) (lengthByte _ holds.positive holds.proper.short).1
  | indirect _ masked => exact absurd zero (mask_ne_zero masked).1

end

theorem Holds.unique {l' : Label} (holds : Holds msg p l) (holds' : Holds msg p l') :
    l = l' := by
  have length : l.length = l'.length := by
    have := holds.length.symm.trans holds'.length
    rw [← (lengthByte _ holds.positive holds.proper.short).2.2, this,
      (lengthByte _ holds'.positive holds'.proper.short).2.2]
  exact List.ext_getElem length fun i h h' => (holds.bytes i h).symm.trans (holds'.bytes i h')

/-- A place spells one name. -/
theorem Spells.unique {base' stop' : Nat}
    (spells : Spells msg base p labels stop) (spells' : Spells msg base' p labels' stop') :
    labels = labels' := by
  induction spells generalizing base' stop' labels' with
  | root _ zero => exact (spells'.nil_of_zero zero).symm
  | @label base p stop l labels low holds rest ih =>
    obtain ⟨nonzero, plain, -⟩ := lengthByte _ holds.positive holds.proper.short
    rw [← holds.length] at nonzero plain
    cases spells' with
    | root _ zero => exact absurd zero nonzero
    | label _ holds' rest' =>
      obtain rfl := holds.unique holds'
      rw [ih rest']
    | indirect _ masked => exact absurd plain (mask_ne_zero masked).2
  | indirect low masked target earlier ih =>
    cases spells' with
    | root _ zero => exact absurd zero (mask_ne_zero masked).1
    | label _ holds' _ =>
      obtain ⟨-, plain, -⟩ := lengthByte _ holds'.positive holds'.proper.short
      rw [← holds'.length] at plain
      exact absurd plain (mask_ne_zero masked).2
    | indirect _ _ target' => exact ih target'

theorem text_head_dot
    (head : (text (l :: labels)).head? = some dot) :
    l = [] ∧ ∃ l' labels', labels = l' :: labels' := by
  cases l with
  | nil =>
    cases labels with
    | nil => cases head
    | cons l' labels => exact ⟨rfl, l', labels, rfl⟩
  | cons c l =>
    rw [text_cons] at head
    unfold escapeByte at head
    split at head
    · exact absurd (Option.some.inj head) (by decide)
    · rename_i plain
      exact absurd (.inl (Option.some.inj head)) plain

/-- The search through a spelled name comes to an end, and what it finds is the
name it looks for, up to dots taken into labels. -/
theorem matchName_merged {found : List Label}
    (spells : Spells msg base p found stop) :
    ∀ (labels : List Label) (fuel : Nat), labels ≠ [] → (∀ l ∈ labels, l ≠ []) →
      stop - p + base ≤ fuel →
      ∃ m, matchName msg fuel (text labels) p = some m ∧ m ≠ .illegal ∧
        (m = .found → Merged labels found) := by
  induction spells with
  | root low zero =>
    intro labels fuel some nonempty enough
    obtain ⟨fuel, rfl⟩ : ∃ k, fuel = k + 1 := ⟨fuel - 1, by omega⟩
    obtain ⟨l, rest, rfl⟩ := List.exists_cons_of_ne_nil some
    have left : text (l :: rest) ≠ [] :=
      fun empty => nonempty l (.head _) (text_eq_nil empty).1
    exact ⟨.next, by simp [matchName, zero, left], by decide, fun h => nomatch h⟩
  | @label base p stop k found low holds rest ih =>
    intro labels fuel some nonempty enough
    have place := rest.place
    obtain ⟨fuel, rfl⟩ : ∃ k, fuel = k + 1 := ⟨fuel - 1, by omega⟩
    obtain ⟨l, labels, rfl⟩ := List.exists_cons_of_ne_nil some
    obtain ⟨nonzero, plain, length⟩ := lengthByte _ holds.positive holds.proper.short
    rw [← holds.length] at nonzero plain length
    unfold matchName
    simp only [nonzero, plain, length, ↓reduceIte]
    cases result : matchLabel msg k.length (text (l :: labels)) (p + 1) with
    | none => exact ⟨.next, rfl, by decide, fun h => nomatch h⟩
    | some after =>
      obtain ⟨dn, cp⟩ := after
      obtain ⟨rfl, l', labels', rfl, joins⟩ :=
        matchLabel_joins k holds.proper.nul l labels (p + 1) dn cp holds.bytes result
      dsimp only
      split
      · rename_i ended
        obtain ⟨rfl, rfl⟩ := text_eq_nil ended.1
        rw [List.append_nil] at joins
        rw [rest.nil_of_zero ended.2]
        exact ⟨.found, rfl, by decide, fun _ => .cons joins .nil⟩
      split
      · rename_i head
        obtain ⟨rfl, b, labels'', rfl⟩ := text_head_dot head
        rw [List.append_nil] at joins
        have inner : ∀ l ∈ b :: labels'', l ≠ [] :=
          fun l h => nonempty l (.tail _ (joins.suffix.subset h))
        obtain ⟨m, result', legal, merged⟩ :=
          ih (b :: labels'') fuel (List.cons_ne_nil _ _) inner (by omega)
        exact ⟨m, result', legal, fun h => .cons joins (merged h)⟩
      · exact ⟨.next, rfl, by decide, fun h => nomatch h⟩
  | @indirect base p before stop found low masked target earlier ih =>
    intro labels fuel some nonempty enough
    obtain ⟨fuel, rfl⟩ : ∃ k, fuel = k + 1 := ⟨fuel - 1, by omega⟩
    have place := target.place
    obtain ⟨nonzero, high⟩ := mask_ne_zero masked
    obtain ⟨m, result, legal, merged⟩ := ih labels fuel some nonempty (by omega)
    refine ⟨m, ?_, legal, merged⟩
    unfold matchName
    simp only [nonzero, masked, ↓reduceIte, result]
    rw [if_neg (by decide)]

/-- A name in the list of saved ones that stops before a place. -/
def Saved (msg : Nat → Byte) (used p : Nat) : Prop :=
  ∃ base labels stop, Spells msg base p labels stop ∧ stop ≤ used

theorem Saved.frame (saved : Saved msg used p) (same : ∀ q < used, msg' q = msg q) :
    Saved msg' used p := by
  obtain ⟨base, labels, stop, spells, low⟩ := saved
  exact ⟨base, labels, stop, spells.frame fun q h => same q (h.trans_le low), low⟩

/-- No saved name is the labels, or a rest of them, with dots between labels
taken into a label. -/
def Unlike (msg : Nat → Byte) (search : List Nat) (labels : List Label) : Prop :=
  ∀ p ∈ search, ∀ base found stop, Spells msg base p found stop →
    ∀ rest, rest <:+ labels → Merged rest found → rest = found

theorem Unlike.suffix
    (unlike : Unlike msg search labels) (inner : labels' <:+ labels) : Unlike msg search labels' :=
  fun p h base found stop spells rest suffix => unlike p h base found stop spells rest (suffix.trans inner)

theorem Unlike.frame
    (unlike : Unlike msg search labels) (saved : ∀ p ∈ search, Saved msg used p)
    (same : ∀ q < used, msg' q = msg q) : Unlike msg' search labels := by
  intro p h base found stop spells rest suffix
  obtain ⟨base', found', stop', spells', low⟩ := saved p h
  obtain rfl := spells.unique (spells'.frame fun q h => same q (h.trans_le low))
  exact unlike p h base' found stop' spells' rest suffix

theorem dnFind_spells
    (some : labels ≠ []) (nonempty : ∀ l ∈ labels, l ≠ []) (small : used ≤ 0x4000)
    (saved : ∀ p ∈ search, Saved msg used p) (unlike : Unlike msg search labels) :
    ∃ l, dnFind msg (text labels) search = Option.some l ∧
      ∀ p, l = Option.some p → ∃ base stop, Spells msg base p labels stop ∧ stop ≤ used := by
  induction search with
  | nil => exact ⟨none, rfl, fun p h => nomatch h⟩
  | cons p search ih =>
    obtain ⟨base, found, stop, spells, low⟩ := saved p (.head _)
    have place := spells.place
    obtain ⟨m, result, legal, merged⟩ :=
      matchName_merged spells labels 0x4000 some nonempty (by omega)
    unfold dnFind
    rw [result]
    cases m with
    | illegal => exact absurd rfl legal
    | found =>
      refine ⟨_, rfl, fun q h => ?_⟩
      obtain rfl := Option.some.inj h
      rw [unlike p (.head _) base found stop spells labels (List.suffix_refl _) (merged rfl)]
      exact ⟨base, stop, spells, low⟩
    | next =>
      exact ih (fun q h => saved q (.tail _ h))
        fun q h => unlike q (.tail _ h)

theorem put_msg (c : Byte) (w : Work) (q : Nat) (below : q < w.cp) : (w.put c).msg q = w.msg q :=
  update_of_ne below.ne _ _

theorem copyLabel_frame (eob : Nat) (dn : List Byte) (w : Work) :
    w.cp ≤ (copyLabel eob dn w).1.cp ∧ (copyLabel eob dn w).1.dnptrs = w.dnptrs ∧
      ∀ q < w.cp, (copyLabel eob dn w).1.msg q = w.msg q := by
  fun_induction copyLabel eob dn w with
  | case1 | case2 | case3 | case4 | case6 => exact ⟨le_rfl, rfl, fun q h => rfl⟩
  | case5 _ _ _ _ _ ih =>
    obtain ⟨after, same, below⟩ := ih
    exact ⟨(Nat.le_succ _).trans after, same,
      fun q h => (below q (Nat.lt_succ_of_lt h)).trans (put_msg _ _ _ h)⟩
  | case7 _ _ _ _ _ _ ih =>
    obtain ⟨after, same, below⟩ := ih
    exact ⟨(Nat.le_succ _).trans after, same,
      fun q h => (below q (Nat.lt_succ_of_lt h)).trans (put_msg _ _ _ h)⟩

theorem copyLabel_dot (eob : Nat) (dn : List Byte) (w : Work) :
    copyLabel eob (dot :: dn) w = (w, some dn) := by
  unfold copyLabel
  rw [if_pos rfl]

theorem copyLabel_escape (eob : Nat) (c : Byte) (dn : List Byte) (w : Work) :
    copyLabel eob (escapeByte c ++ dn) w =
      if eob ≤ w.cp then (w, none) else copyLabel eob dn (w.put c) := by
  have differ : backslash ≠ dot := by decide
  unfold escapeByte
  split
  · rw [List.cons_append, copyLabel.eq_def]
    dsimp only
    rw [if_neg differ, if_pos rfl]
    rfl
  · rename_i plain
    obtain ⟨h, h'⟩ : c ≠ dot ∧ c ≠ backslash := by simpa only [not_or] using plain
    rw [List.singleton_append, copyLabel.eq_def]
    dsimp only
    rw [if_neg h, if_neg h']

/-- A label that is copied to its end stands at cp, and the text goes on with
the labels behind it. -/
theorem copyLabel_text (eob : Nat) (labels : List Label) :
    ∀ (l : Label) (w w' : Work) (dn : List Byte),
      copyLabel eob (text (l :: labels)) w = (w', some dn) →
      dn = text labels ∧ w'.cp = w.cp + l.length ∧ ∀ i (h : i < l.length), w'.msg (w.cp + i) = l[i]
  | [], w, w', dn, result => by
    cases labels with
    | nil =>
      cases result
      exact ⟨rfl, rfl, fun i h => absurd h (Nat.not_lt_zero i)⟩
    | cons l' labels =>
      rw [text_nil_cons, copyLabel_dot] at result
      cases result
      exact ⟨rfl, rfl, fun i h => absurd h (Nat.not_lt_zero i)⟩
  | c :: l, w, w', dn, result => by
    rw [text_cons, copyLabel_escape] at result
    split at result
    · cases result
    obtain ⟨left, place, bytes⟩ := copyLabel_text eob labels l (w.put c) w' dn result
    have place' : w'.cp = w.cp + 1 + l.length := place
    refine ⟨left, by rw [place', List.length_cons]; omega, fun i h => ?_⟩
    cases i with
    | zero =>
      have below := (copyLabel_frame eob (text (l :: labels)) (w.put c)).2.2 w.cp (Nat.lt_succ_self _)
      rw [result] at below
      exact below.trans (update_self _ _ _)
    | succ i =>
      have := bytes i (Nat.lt_of_succ_lt_succ h)
      rw [List.getElem_cons_succ, ← this]
      congr 1
      omega

theorem save_frame (lastdnptr : Option Nat) (w : Work) :
    (w.save lastdnptr).msg = w.msg ∧ (w.save lastdnptr).cp = w.cp ∧
      ∀ p ∈ (w.save lastdnptr).dnptrs, p ∈ w.dnptrs ∨ p = w.cp := by
  unfold Work.save
  split
  · exact ⟨rfl, rfl, fun p h => .inl h⟩
  split
  · refine ⟨rfl, rfl, fun p h => ?_⟩
    simpa using h
  · exact ⟨rfl, rfl, fun p h => .inl h⟩

theorem compIndirect_spells {eob start l : Nat} {w w' : Work}
    (low : start ≤ w.cp) (target : Spells w.msg base l labels stop)
    (earlier : stop ≤ start) (small : start ≤ 0x3fff)
    (result : compIndirect eob l w = (w', stat)) :
    (∀ q < w.cp, w'.msg q = w.msg q) ∧ w'.dnptrs = w.dnptrs ∧
      (stat = true → Spells w'.msg start w.cp labels w'.cp ∧ w'.cp ≤ eob) := by
  unfold compIndirect at result
  split at result
  · cases result
    exact ⟨fun q h => rfl, rfl, fun h => nomatch h⟩
  · rename_i room
    obtain ⟨same, rfl⟩ := Prod.mk.inj result
    have place := target.place
    obtain ⟨masked, leads⟩ := indirection_bytes l (by omega)
    have frame : ∀ q < w.cp, w'.msg q = w.msg q := fun q h =>
      same ▸ (put_msg _ _ _ (Nat.lt_succ_of_lt h)).trans (put_msg _ _ _ h)
    have first : w'.msg w.cp = ofNat 8 (l / 2 ^ 8) ||| INDIR_MASK :=
      same ▸ (put_msg _ _ _ (Nat.lt_succ_self _)).trans (update_self _ _ _)
    have second : w'.msg (w.cp + 1) = ofNat 8 (l % 2 ^ 8) :=
      same ▸ update_self _ _ _
    have there : Spells w'.msg base (indirection (w'.msg w.cp) (w'.msg (w.cp + 1))) labels stop := by
      rw [first, second, leads]
      exact target.frame fun q h => frame q (by omega)
    have length : w'.cp = w.cp + 2 := same ▸ rfl
    refine ⟨frame, same ▸ rfl, fun _ => ⟨length ▸ .indirect low (by rw [first, masked]) there earlier, ?_⟩⟩
    omega

theorem compEnd_spells {eob start : Nat} {w w' : Work} (low : start ≤ w.cp)
    (result : compEnd eob w = (w', stat)) :
    (∀ q < w.cp, w'.msg q = w.msg q) ∧ w'.dnptrs = w.dnptrs ∧
      (stat = true → Spells w'.msg start w.cp [] w'.cp ∧ w'.cp ≤ eob) := by
  unfold compEnd at result
  split at result
  · cases result
    exact ⟨fun q h => rfl, rfl, fun h => nomatch h⟩
  · rename_i room
    cases result
    refine ⟨fun q h => put_msg _ _ _ h, rfl, fun _ => ⟨.root low (update_self _ _ _), ?_⟩⟩
    exact not_le.mp room

/-- The labels are written from cp on, or an indirection to where they are; all
that is saved meanwhile leads to a rest of them. -/
theorem compLoop_spells {eob start : Nat} {lastdnptr : Option Nat} {search : List Nat}
    (small : start ≤ 0x3fff) (labels : List Label) :
    ∀ (fuel : Nat) (w : Work), labels.length < fuel → start ≤ w.cp →
      (∀ l ∈ labels, l.Proper) → (∀ p ∈ search, Saved w.msg start p) →
      Unlike w.msg search labels →
      ∃ w' stat, compLoop eob lastdnptr search fuel (text labels) w = some (w', stat) ∧
        (∀ q < w.cp, w'.msg q = w.msg q) ∧
        (stat = true → Spells w'.msg start w.cp labels w'.cp ∧ w'.cp ≤ eob ∧
          ∀ p ∈ w'.dnptrs, p ∈ w.dnptrs ∨ Saved w'.msg w'.cp p) := by
  induction labels with
  | nil =>
    intro fuel w enough low _ _ _
    obtain ⟨fuel, rfl⟩ : ∃ k, fuel = k + 1 := ⟨fuel - 1, by omega⟩
    rcases result : compEnd eob w with ⟨w', stat⟩
    obtain ⟨frame, same, spells⟩ := compEnd_spells low result
    refine ⟨w', stat, by simp [compLoop, text, result], frame, fun h => ⟨(spells h).1, (spells h).2, ?_⟩⟩
    exact fun p h => .inl (same ▸ h)
  | cons l labels ih =>
    intro fuel w enough low proper saved unlike
    obtain ⟨fuel, rfl⟩ : ∃ k, fuel = k + 1 := ⟨fuel - 1, by omega⟩
    have proper_l := proper l (.head _)
    have some_ : text (l :: labels) ≠ [] := fun empty => proper_l.nonempty (text_eq_nil empty).1
    obtain ⟨found, search_, leads⟩ := dnFind_spells (List.cons_ne_nil l labels)
      (fun l h => (proper l h).nonempty) (by omega) saved unlike
    unfold compLoop
    simp only [some_, ↓reduceIte, search_]
    cases found with
    | some p =>
      obtain ⟨base, stop, target, earlier⟩ := leads p rfl
      rcases result : compIndirect eob p w with ⟨w', stat⟩
      obtain ⟨frame, same, spells⟩ := compIndirect_spells low target earlier small result
      exact ⟨w', stat, congrArg some result, frame,
        fun h => ⟨(spells h).1, (spells h).2, fun p h => .inl (same ▸ h)⟩⟩
    | none =>
      obtain ⟨msg_, cp_, pointers⟩ := save_frame lastdnptr w
      rcases result : copyLabel eob (text (l :: labels))
        { w.save lastdnptr with cp := (w.save lastdnptr).cp + 1 } with ⟨w₁, left⟩
      have frame₁ := copyLabel_frame eob (text (l :: labels))
        { w.save lastdnptr with cp := (w.save lastdnptr).cp + 1 }
      rw [result] at frame₁
      obtain ⟨-, pointers₁, frame₁⟩ := frame₁
      dsimp only at pointers₁ frame₁
      rw [cp_, msg_] at frame₁
      cases left with
      | none => exact ⟨w₁, false, rfl, fun q h => frame₁ q (by omega), fun h => by cases h⟩
      | some dn =>
        obtain ⟨rfl, place, bytes⟩ := copyLabel_text eob labels l _ w₁ dn result
        dsimp only at place bytes ⊢
        rw [cp_] at place bytes ⊢
        have length : w₁.cp - w.cp - 1 = l.length := by omega
        have positive : 0 < l.length := List.length_pos_iff.2 proper_l.nonempty
        have short := proper_l.short
        rw [length, if_neg (by omega), if_neg (by omega)]
        -- the length byte in place, the label is whole
        generalize after : ({ w₁ with msg := update w₁.msg w.cp (ofNat 8 l.length) } : Work) = w₂
        have cp₂ : w₂.cp = w.cp + 1 + l.length := after ▸ place
        have frame₂ : ∀ q < w.cp, w₂.msg q = w.msg q := fun q h =>
          after ▸ (update_of_ne h.ne _ _).trans (frame₁ q (Nat.lt_succ_of_lt h))
        have holds : Holds w₂.msg w.cp l := by
          refine ⟨proper_l, after ▸ update_self _ _ _, fun i h => ?_⟩
          rw [← bytes i h, ← after]
          exact update_of_ne (by omega) _ _
        have saved₂ : ∀ p ∈ search, Saved w₂.msg start p :=
          fun p h => (saved p h).frame fun q h => frame₂ q (by omega)
        have unlike₂ : Unlike w₂.msg search labels :=
          (unlike.frame saved fun q h => frame₂ q (by omega)).suffix (List.suffix_cons _ _)
        obtain ⟨w', stat, result', frame', spells⟩ := ih fuel w₂
          (by simpa using enough) (by omega) (fun l h => proper l (.tail _ h)) saved₂ unlike₂
        refine ⟨w', stat, result', fun q h => (frame' q (by omega)).trans (frame₂ q h), fun h => ?_⟩
        obtain ⟨rest, inside, saves⟩ := spells h
        have holds' : Holds w'.msg w.cp l := holds.frame fun q h => frame' q (by omega)
        rw [cp₂] at rest
        have whole : Spells w'.msg start w.cp (l :: labels) w'.cp := .label low holds' rest
        refine ⟨whole, inside, fun p h => ?_⟩
        rcases saves p h with old | fresh
        · have : p ∈ (w.save lastdnptr).dnptrs := by
            rw [← pointers₁]
            exact (after ▸ rfl : w₂.dnptrs = w₁.dnptrs) ▸ old
          rcases pointers p this with old | rfl
          · exact .inl old
          · exact .inr ⟨start, _, _, whole, le_rfl⟩
        · exact .inr fresh

end Svr4.Domain
