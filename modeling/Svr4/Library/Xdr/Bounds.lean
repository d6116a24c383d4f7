import Svr4.Library.Xdr.Decode

/-! The bounds of decoding. x_handy bounds the buffer only as long as no
subtraction from it comes round to a number that is not negative, an inline
does not rewind before x_base, and the size xdr_array asks for does not wrap. -/

namespace Svr4.Xdr

open List (mem_cons)

/-- The step does not take one of the branches that go wrong. -/
def Event.Meets (base : Int) : Event → Prop
  | .subtracted handy len =>
      ¬(-2 ^ 32 ≤ handy.toInt - len.toNat ∧ handy.toInt - len.toNat < -2 ^ 31)
  | .inlined position len => base ≤ position + len.toInt
  | .counted c elsize => c.toNat * elsize.toNat < 2 ^ 32
  | .kept asked needed => needed ≤ asked.toNat
  | .read _ _ | .written _ _ _ => True

def Event.Inside (base : Int) (size : Nat) : Event → Prop
  | .read position len => base ≤ position ∧ position + len ≤ base + size
  | .written asked offset len => offset + len ≤ asked.toNat
  | _ => True

instance (base : Int) (e : Event) : Decidable (e.Meets base) := by
  cases e <;> unfold Event.Meets <;> infer_instance

instance (base : Int) (size : Nat) (e : Event) : Decidable (e.Inside base size) := by
  cases e <;> unfold Event.Inside <;> infer_instance

def Met (base : Int) (s : State) : Prop := ∀ e ∈ s.log, e.Meets base

structure Sound (base : Int) (size : Nat) (s : State) : Prop where
  low : base ≤ s.x_private
  high : s.x_private ≤ base + size
  left : s.x_private + s.x_handy.toInt ≤ base + size
  inside : ∀ e ∈ s.log, e.Inside base size

/-- What every operation does: if all that is noted after it meets the
condition, so did all before it, and it keeps the bounds. -/
def Passes (base : Int) (size : Nat) (s s' : State) : Prop :=
  Met base s' → Met base s ∧ (Sound base size s → Sound base size s')

/-- A pointer with room for that many bytes, as far as mem_alloc knows. -/
def Room (addr : Pointer) (len : Nat) : Prop :=
  ∀ asked, addr = .allocated asked → len ≤ asked.toNat

section Bounds

variable {base : Int} {size : Nat} {s s' s'' : State}

theorem Passes.refl : Passes base size s s := fun met => ⟨met, id⟩

theorem Passes.trans (first : Passes base size s s') (second : Passes base size s' s'') :
    Passes base size s s'' := by
  intro met
  obtain ⟨met', keep'⟩ := second met
  obtain ⟨met'', keep⟩ := first met'
  exact ⟨met'', keep' ∘ keep⟩

theorem note_passes (e : Event) (inside : Met base s → e.Meets base → e.Inside base size) :
    Passes base size s (s.note e) := by
  intro met
  have before : Met base s := fun e' h => met e' (.tail _ h)
  refine ⟨before, fun sound => ⟨sound.low, sound.high, sound.left, ?_⟩⟩
  intro e' h
  rcases mem_cons.1 h with rfl | h
  · exact inside before (met _ (.head _))
  · exact sound.inside e' h

theorem store_passes (addr : Pointer) (offset len : Nat)
    (room : Met base s → Room addr (offset + len)) :
    Passes base size s (s.store addr offset len) := by
  cases addr with
  | own => exact Passes.refl
  | allocated asked => exact note_passes _ fun met _ => room met asked rfl

theorem point_passes (cpp : Nat) (value : Option Pointer) :
    Passes base size s (s.point cpp value) :=
  fun met => ⟨met, fun sound => ⟨sound.low, sound.high, sound.left, sound.inside⟩⟩

theorem handy_sub (handy len : BitVec 32) (position : Int)
    (meets : (Event.subtracted handy len).Meets position) :
    (handy - len).toInt = handy.toInt - len.toNat ∨ (handy - len).toInt < 0 := by
  simp only [Event.Meets, BitVec.toInt_eq_toNat_cond, BitVec.toNat_sub] at meets ⊢
  have := handy.isLt
  have := len.isLt
  omega

theorem subtractHandy_meets (len : BitVec 32) (met : Met base (subtractHandy len s).1) :
    Met base s ∧ (Event.subtracted s.x_handy len).Meets base :=
  ⟨fun e h => met e (.tail _ h), met _ (.head _)⟩

theorem subtractHandy_sound (len : BitVec 32)
    (meets : (Event.subtracted s.x_handy len).Meets base) (sound : Sound base size s) :
    Sound base size (subtractHandy len s).1 := by
  refine ⟨sound.low, sound.high, ?_, ?_⟩
  · have := sound.high
    have := sound.left
    have := handy_sub s.x_handy len base meets
    change s.x_private + (s.x_handy - len).toInt ≤ base + size
    omega
  · intro e h
    rcases mem_cons.1 h with rfl | h
    · trivial
    · exact sound.inside e h

theorem subtractHandy_passes (len : BitVec 32) :
    Passes base size s (subtractHandy len s).1 := by
  intro met
  obtain ⟨before, meets⟩ := subtractHandy_meets len met
  exact ⟨before, subtractHandy_sound len meets⟩

theorem consume_sound (len : BitVec 32) (meets : (Event.subtracted s.x_handy len).Meets base)
    (sound : Sound base size s) (granted : (subtractHandy len s).2 = true) :
    Sound base size (consume len (subtractHandy len s).1) := by
  have low := sound.low
  have left := sound.left
  have difference := handy_sub s.x_handy len base meets
  have positive : 0 ≤ (s.x_handy - len).toInt := by
    simpa only [subtractHandy, decide_eq_true_eq] using granted
  refine ⟨?_, ?_, ?_, ?_⟩
  · change base ≤ s.x_private + len.toNat
    omega
  · change s.x_private + len.toNat ≤ base + size
    omega
  · change s.x_private + len.toNat + (s.x_handy - len).toInt ≤ base + size
    omega
  · intro e h
    rcases mem_cons.1 h with rfl | h
    · change base ≤ s.x_private ∧ s.x_private + len.toNat ≤ base + size
      omega
    · exact (subtractHandy_sound len meets sound).inside e h

theorem consume_passes (len : BitVec 32) (granted : (subtractHandy len s).2 = true) :
    Passes base size s (consume len (subtractHandy len s).1) := by
  intro met
  have met' : Met base (subtractHandy len s).1 := fun e h => met e (.tail _ h)
  obtain ⟨before, meets⟩ := subtractHandy_meets len met'
  exact ⟨before, fun sound => consume_sound len meets sound granted⟩

theorem getlong_passes (memory : Int → BitVec 8) :
    Passes base size s (xdrmemGetlong memory s).1 := by
  unfold xdrmemGetlong
  rcases split : subtractHandy 4 s with ⟨s', granted⟩
  have same : s' = (subtractHandy 4 s).1 := by rw [split]
  cases granted with
  | false => exact same ▸ subtractHandy_passes 4
  | true => exact same ▸ consume_passes 4 (by rw [split])

theorem getbytes_passes (addr : Pointer) (len : BitVec 32)
    (room : Met base s → Room addr len.toNat) :
    Passes base size s (xdrmemGetbytes addr len s).1 := by
  unfold xdrmemGetbytes
  rcases split : subtractHandy len s with ⟨s', granted⟩
  have same : s' = (subtractHandy len s).1 := by rw [split]
  cases granted with
  | false => exact same ▸ subtractHandy_passes len
  | true =>
    have first : Passes base size s (consume len s') := same ▸ consume_passes len (by rw [split])
    refine first.trans (store_passes addr 0 len.toNat fun met => ?_)
    rw [Nat.zero_add]
    exact room (first met).1

theorem own_room (len : Nat) : Room .own len := fun _ h => nomatch h

theorem inline_passes (small : size < 2 ^ 31) (len : BitVec 32) :
    Passes base size s (xdrmemInline len s).1 := by
  unfold xdrmemInline
  split
  · rename_i fits
    intro met
    have meets : base ≤ s.x_private + len.toInt :=
      met (.inlined s.x_private len) (.tail _ (.head _))
    refine ⟨fun e h => met e (.tail _ (.tail _ h)), fun sound => ?_⟩
    have low := sound.low
    have high := sound.high
    have left := sound.left
    -- x_handy - len is at most the bytes from the new x_private on, so it is exact
    have exact_ : (s.x_handy - len).toInt = s.x_handy.toInt - len.toInt := by
      rw [BitVec.toInt_sub]
      apply Int.bmod_eq_of_le <;> omega
    refine ⟨meets, ?_, ?_, ?_⟩
    · change s.x_private + len.toInt ≤ base + size
      omega
    · change s.x_private + len.toInt + (s.x_handy - len).toInt ≤ base + size
      omega
    · intro e h
      rcases mem_cons.1 h with rfl | h
      · simp only [Event.Inside]
        omega
      · rcases mem_cons.1 h with rfl | h
        · trivial
        · exact sound.inside e h
  · exact Passes.refl

theorem opaque_passes (cp : Pointer) (cnt : BitVec 32)
    (room : Met base s → Room cp cnt.toNat) :
    Passes base size s (xdrOpaque cp cnt s).1 := by
  unfold xdrOpaque
  have first : Passes base size s (xdrmemGetbytes cp cnt s).1 := getbytes_passes cp cnt room
  split
  · exact Passes.refl
  · rcases result : xdrmemGetbytes cp cnt s with ⟨s', granted⟩
    rw [result] at first
    cases granted with
    | false => exact first
    | true =>
      dsimp only
      split
      · exact first
      · exact first.trans (getbytes_passes .own _ fun _ => own_room _)

section Filters

variable (memory : Int → BitVec 8) (memAlloc : Nat → BitVec 32 → Bool)

theorem target_passes (cpp needed : Nat) (nodesize : BitVec 32) :
    Passes base size s (target memAlloc cpp needed nodesize s).1 := by
  unfold target
  split
  · exact Passes.refl
  · exact note_passes _ fun _ _ => trivial
  · dsimp only
    split
    · exact fun met => ⟨met, fun sound => ⟨sound.low, sound.high, sound.left, sound.inside⟩⟩
    · exact fun met => ⟨met, fun sound => ⟨sound.low, sound.high, sound.left, sound.inside⟩⟩

/-- A pointer found in the client's variable has room for what is needed, and
a fresh one for what was asked. -/
theorem target_room (cpp needed : Nat) (nodesize : BitVec 32) (addr : Pointer)
    (found : (target memAlloc cpp needed nodesize s).2 = some addr)
    (met : Met base (target memAlloc cpp needed nodesize s).1) :
    Room addr needed ∨ (s.pointers cpp = none ∧ addr = .allocated nodesize) := by
  unfold target at found met
  split at found
  · cases found
    exact .inl (own_room _)
  · rename_i asked held
    cases found
    refine .inl fun asked' same => ?_
    obtain rfl := Pointer.allocated.inj same
    rw [held] at met
    exact met _ (.head _)
  · rename_i held
    split at found
    · exact .inr ⟨held, (Option.some.inj found).symm⟩
    · cases found

theorem bytes_passes (cpp : Nat) (maxsize : BitVec 32) :
    Passes base size s (xdrBytes memory memAlloc cpp maxsize s).1 := by
  unfold xdrBytes
  have first : Passes base size s (xdrUInt memory s).1 := getlong_passes memory
  rcases count : xdrUInt memory s with ⟨s', nodesize⟩
  rw [count] at first
  cases nodesize with
  | none => exact first
  | some nodesize =>
    dsimp only
    split
    · exact first
    split
    · exact first
    have second := first.trans
      (target_passes memAlloc cpp nodesize.toNat nodesize)
    have room := fun addr => @target_room base s' memAlloc cpp nodesize.toNat nodesize addr
    rcases pick : target memAlloc cpp nodesize.toNat nodesize s' with ⟨s'', addr⟩
    rw [pick] at second room
    cases addr with
    | none => exact second
    | some sp =>
      refine second.trans (opaque_passes sp nodesize fun met => ?_)
      rcases room sp rfl met with fits | ⟨-, rfl⟩
      · exact fits
      · exact fun asked same => (Pointer.allocated.inj same) ▸ le_rfl

theorem string_passes (cpp : Nat) (maxsize : BitVec 32) :
    Passes base size s (xdrString memory memAlloc cpp maxsize s).1 := by
  unfold xdrString
  have first : Passes base size s (xdrUInt memory s).1 := getlong_passes memory
  rcases count : xdrUInt memory s with ⟨s', length⟩
  rw [count] at first
  cases length with
  | none => exact first
  | some length =>
    dsimp only
    split
    · exact first
    split
    · exact first
    rename_i nonzero
    have second := first.trans
      (target_passes memAlloc cpp (length.toNat + 1) (length + 1))
    have room := fun addr =>
      @target_room base s' memAlloc cpp (length.toNat + 1) (length + 1) addr
    rcases pick : target memAlloc cpp (length.toNat + 1) (length + 1) s' with ⟨s'', addr⟩
    rw [pick] at second room
    cases addr with
    | none => exact second
    | some sp =>
      -- size + 1 has not come round to zero, so it is the size asked for
      have asks : (length + 1).toNat = length.toNat + 1 := by
        have := length.isLt
        have : (length + 1).toNat ≠ 0 := fun zero => nonzero (BitVec.eq_of_toNat_eq zero)
        rw [BitVec.toNat_add] at this ⊢
        change (length.toNat + 1) % 2 ^ 32 ≠ 0 at this
        change (length.toNat + 1) % 2 ^ 32 = length.toNat + 1
        omega
      have fits : Met base s'' → Room sp (length.toNat + 1) := by
        intro met
        rcases room sp rfl met with fits | ⟨-, rfl⟩
        · exact fits
        · exact fun asked same => (Pointer.allocated.inj same) ▸ asks.ge
      have ends : Passes base size s'' (s''.store sp length.toNat 1) :=
        store_passes sp length.toNat 1 fits
      refine (second.trans ends).trans (opaque_passes sp length fun met asked same => ?_)
      have := fits (ends met).1 asked same
      omega

theorem arrayTarget_passes (addrp : Nat) (c elsize : BitVec 32) :
    Passes base size s (arrayTarget memAlloc addrp c elsize s).1 := by
  unfold arrayTarget
  have first := @target_passes base size s memAlloc addrp (c.toNat * elsize.toNat) (c * elsize)
  have room := fun addr =>
    @target_room base s memAlloc addrp (c.toNat * elsize.toNat) (c * elsize) addr
  rcases pick : target memAlloc addrp (c.toNat * elsize.toNat) (c * elsize) s with ⟨s', addr⟩
  rw [pick] at first room
  cases addr with
  | none => exact first
  | some addr =>
    dsimp only
    split
    · have second := first.trans (@note_passes base size s' (.counted c elsize) fun _ _ => trivial)
      refine second.trans (store_passes addr 0 _ fun met => ?_)
      have met' : Met base s' := fun e h => met e (.tail _ h)
      have small : c.toNat * elsize.toNat < 2 ^ 32 := met _ (.head _)
      have product : (c * elsize).toNat = c.toNat * elsize.toNat := by
        rw [BitVec.toNat_mul, Nat.mod_eq_of_lt small]
      rw [Nat.zero_add]
      rcases room addr rfl met' with fits | ⟨-, rfl⟩
      · exact product ▸ fits
      · exact fun asked same => (Pointer.allocated.inj same) ▸ le_rfl
    · exact first

/-- The array has room for all its elements: an old one by what is required of
it, a fresh one because the product did not wrap. -/
theorem arrayTarget_room (addrp : Nat) (c elsize : BitVec 32) (addr : Pointer)
    (found : (arrayTarget memAlloc addrp c elsize s).2 = some addr)
    (met : Met base (arrayTarget memAlloc addrp c elsize s).1) :
    Room addr (c.toNat * elsize.toNat) := by
  have before := @target_passes base 0 s memAlloc addrp (c.toNat * elsize.toNat) (c * elsize)
  have room := fun addr =>
    @target_room base s memAlloc addrp (c.toNat * elsize.toNat) (c * elsize) addr
  unfold arrayTarget at found met
  rcases pick : target memAlloc addrp (c.toNat * elsize.toNat) (c * elsize) s with ⟨s', addr'⟩
  rw [pick] at found met room before
  cases addr' with
  | none => cases found
  | some addr' =>
    dsimp only at found met
    split at found
    · rename_i empty
      rw [if_pos empty] at met
      obtain rfl := Option.some.inj found
      -- what bzero stores does not take the earlier events away
      have noted : Met base (s'.note (.counted c elsize)) := by
        intro e h
        cases addr' with
        | own => exact met e h
        | allocated asked => exact met e (.tail _ h)
      have small : c.toNat * elsize.toNat < 2 ^ 32 := noted _ (.head _)
      have met' : Met base s' := fun e h => noted e (.tail _ h)
      rcases room addr' rfl met' with fits | ⟨-, rfl⟩
      · exact fits
      · intro asked same
        rw [← Pointer.allocated.inj same, BitVec.toNat_mul, Nat.mod_eq_of_lt small]
    · rename_i held
      rw [if_neg held] at met
      obtain rfl := Option.some.inj found
      rcases room addr' rfl met with fits | ⟨empty, -⟩
      · exact fits
      · exact absurd empty held

theorem elements_passes (elproc : Nat → State → State × Bool) (addr : Pointer)
    (elsize : BitVec 32)
    (procs : ∀ (i : Nat) (s : State), Passes base size s (elproc i s).1) :
    ∀ (left i : Nat) (s : State),
      (Met base s → Room addr ((i + left) * elsize.toNat)) →
      Passes base size s (elements elproc addr elsize left i s).1
  | 0, _, _, _ => Passes.refl
  | left + 1, i, s, room => by
    unfold elements
    have fits : Met base s → Room addr (i * elsize.toNat + elsize.toNat) := by
      intro met asked same
      have := room met asked same
      calc i * elsize.toNat + elsize.toNat = (i + 1) * elsize.toNat := (Nat.succ_mul _ _).symm
        _ ≤ (i + (left + 1)) * elsize.toNat := Nat.mul_le_mul_right _ (by omega)
        _ ≤ asked.toNat := this
    have first : Passes base size s (elproc i (s.store addr (i * elsize.toNat) elsize.toNat)).1 :=
      (store_passes addr _ _ fits).trans (procs i _)
    rcases result : elproc i (s.store addr (i * elsize.toNat) elsize.toNat) with ⟨s', stat⟩
    rw [result] at first
    cases stat with
    | false => exact first
    | true =>
      refine first.trans (elements_passes elproc addr elsize procs left (i + 1) s' fun met => ?_)
      rw [Nat.add_right_comm]
      exact room (first met).1

theorem array_passes (addrp : Nat) (maxsize elsize : BitVec 32)
    (elproc : Nat → State → State × Bool)
    (procs : ∀ (i : Nat) (s : State), Passes base size s (elproc i s).1) :
    Passes base size s (xdrArray memory memAlloc addrp maxsize elsize elproc s).1 := by
  unfold xdrArray
  have first : Passes base size s (xdrUInt memory s).1 := getlong_passes memory
  rcases count : xdrUInt memory s with ⟨s', c⟩
  rw [count] at first
  cases c with
  | none => exact first
  | some c =>
    dsimp only
    split
    · exact first
    split
    · exact first
    have second := first.trans (arrayTarget_passes memAlloc addrp c elsize)
    have room := fun addr => @arrayTarget_room base s' memAlloc addrp c elsize addr
    rcases pick : arrayTarget memAlloc addrp c elsize s' with ⟨s'', addr⟩
    rw [pick] at second room
    cases addr with
    | none => exact second
    | some addr =>
      refine second.trans (elements_passes elproc addr elsize procs c.toNat 0 s'' fun met => ?_)
      rw [Nat.zero_add]
      exact room addr rfl met

/-- A whole client: by induction on what it does, the elprocs it passes to
xdr_array included. -/
theorem run_passes (small : size < 2 ^ 31) (program : Program) :
    ∀ s : State, Passes base size s (run memory memAlloc program s).1 := by
  induction program with
  | done stat => exact fun s => Passes.refl
  | long next ih => exact fun s => (getlong_passes memory).trans (ih _ _)
  | opaqueBytes cnt next ih =>
    exact fun s => (opaque_passes .own cnt fun _ => own_room _).trans (ih _ _)
  | bytes cpp maxsize next ih =>
    exact fun s => (bytes_passes memory memAlloc cpp maxsize).trans (ih _ _)
  | string cpp maxsize next ih =>
    exact fun s => (string_passes memory memAlloc cpp maxsize).trans (ih _ _)
  | array addrp maxsize elsize elproc next procs ih =>
    exact fun s => (array_passes memory memAlloc addrp maxsize elsize _ procs).trans (ih _ _)
  | inline len next ih => exact fun s => (inline_passes small len).trans (ih _ _)
  | assign cpp source next ih => exact fun s => (point_passes cpp _).trans (ih _)

end Filters

end Bounds

theorem create_sound (addr : Int) (size : BitVec 32) (small : size.toNat < 2 ^ 31)
    (pointers : Nat → Option Pointer) :
    Sound addr size.toNat (xdrmemCreate addr size pointers) := by
  refine ⟨le_rfl, ?_, ?_, fun e h => nomatch h⟩
  · simp only [xdrmemCreate]
    omega
  · simp only [xdrmemCreate, BitVec.toInt_eq_toNat_cond]
    split <;> omega

/-- In a run whose steps all meet the condition, every byte read is the
buffer's and every byte written through what mem_alloc returned was asked for. -/
theorem decode_inside (memory : Int → BitVec 8) (memAlloc : Nat → BitVec 32 → Bool)
    (addr : Int) (size : BitVec 32) (small : size.toNat < 2 ^ 31)
    (pointers : Nat → Option Pointer) (program : Program)
    (meets : ∀ e ∈ (run memory memAlloc program (xdrmemCreate addr size pointers)).1.log,
      e.Meets addr) :
    ∀ e ∈ (run memory memAlloc program (xdrmemCreate addr size pointers)).1.log,
      e.Inside addr size.toNat := by
  have keep := (run_passes memory memAlloc small program _ meets).2
  exact (keep (create_sound addr size small pointers)).inside

/-- A counted array of three longs, after an opaque that the buffer is too
short for. -/
theorem decode_inside_array :
    let memory : Int → BitVec 8 := fun a => if a = 3 then 3 else 7
    let program : Program := .array 0 8 4 (fun _ => .long fun value => .done value.isSome)
      fun _ => .opaqueBytes 5 fun _ => .string 1 9 fun stat => .done stat
    ∀ e ∈ (run memory (fun _ _ => true) program (xdrmemCreate 0 20 fun _ => none)).1.log,
      e.Inside 0 20 :=
  decode_inside _ _ 0 20 (by decide) _ _ (by decide)

/-- An array of 0x40000001 longs asks for 4 bytes, and its second element is
written behind them. -/
theorem array_overruns :
    let memory : Int → BitVec 8 := fun a => if a = 0 then 0x40 else if a = 3 then 1 else 0
    let program : Program := .array 0 0xffffffff 4
      (fun _ => .long fun value => .done value.isSome) .done
    ¬ ∀ e ∈ (run memory (fun _ _ => true) program (xdrmemCreate 0 12 fun _ => none)).1.log,
      e.Inside 0 (12 : BitVec 32).toNat := by
  decide +kernel

end Svr4.Xdr
