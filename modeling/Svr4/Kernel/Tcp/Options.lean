import Svr4.Kernel.Tcp.Input

/-! What `tcp_dooptions` reads, and what it does to the sender. -/

namespace Svr4.Tcp

open Option (map_eq_some_iff)

theorem mssOf_eq (route : Option Route) (s : Sender) : ∃ w, (mssOf route s).2 = { s with sndCwnd := w } := by
  unfold mssOf
  split
  · exact ⟨s.sndCwnd, rfl⟩
  · split
    · exact ⟨s.sndCwnd, rfl⟩
    · exact ⟨_, rfl⟩

theorem clipMaxseg_eq (route : Option Route) (s : Sender) :
    ∃ m w, clipMaxseg route s = { s with tMaxseg := m, sndCwnd := w } := by
  obtain ⟨w, opened⟩ := mssOf_eq route s
  unfold clipMaxseg
  simp only [opened]
  exact ⟨_, w, rfl⟩

variable {syn : Bool} {route : Option Route} {reads : List Nat}

theorem scanOptions_eq {mem : Nat → UInt8} {s' : Sender}
    (fuel cnt cp : Nat) (s : Sender) (scanned : scanOptions route syn mem fuel cnt cp s = some (s', reads)) :
    ∃ m w, s' = { s with tMaxseg := m, sndCwnd := w } := by
  induction fuel generalizing cnt cp s reads with
  | zero =>
    cases cnt with
    | zero =>
      cases scanned
      exact ⟨s'.tMaxseg, s'.sndCwnd, rfl⟩
    | succ cnt => cases scanned
  | succ fuel ih =>
    cases cnt with
    | zero =>
      cases scanned
      exact ⟨s'.tMaxseg, s'.sndCwnd, rfl⟩
    | succ cnt =>
      unfold scanOptions at scanned
      simp only [] at scanned
      split at scanned
      · cases scanned
        exact ⟨s'.tMaxseg, s'.sndCwnd, rfl⟩
      · split at scanned
        · obtain ⟨⟨s₁, reads₁⟩, later, same⟩ := map_eq_some_iff.mp scanned
          cases same
          exact ih _ _ s later
        · split at scanned
          · cases scanned
            exact ⟨s'.tMaxseg, s'.sndCwnd, rfl⟩
          · split at scanned
            · obtain ⟨⟨s₁, reads₁⟩, later, same⟩ := map_eq_some_iff.mp scanned
              cases same
              obtain ⟨m, w, changed⟩ := ih _ _ _ later
              obtain ⟨m₁, w₁, clipped⟩ := clipMaxseg_eq route { s with
                tMaxseg := (mem (cp + 2)).toNat * 256 + (mem (cp + 3)).toNat }
              rw [clipped] at changed
              exact ⟨m, w, changed⟩
            · obtain ⟨⟨s₁, reads₁⟩, later, same⟩ := map_eq_some_iff.mp scanned
              cases same
              exact ih _ _ s later

theorem tcpDooptions_eq {o : Options} {s s' : Sender}
    (scanned : tcpDooptions route syn o s = some (s', reads)) : ∃ m w, s' = { s with tMaxseg := m, sndCwnd := w } :=
  scanOptions_eq o.cnt o.cnt 0 s scanned

/-- A unit that has room for the headers. -/
def Wide (route : Option Route) : Prop := ∀ r ∈ route, 40 < r.ifMaxtu

instance (route : Option Route) : Decidable (Wide route) :=
  match route with
  | none => .isTrue nofun
  | some r => decidable_of_iff (40 < r.ifMaxtu) ⟨fun wide _ same => by cases same; exact wide, fun wide => wide r rfl⟩

/-- Whether an area is read inside its bounds and leaves a size that is not zero. -/
def harmless (syn : Bool) (mem : Nat → UInt8) : Nat → Nat → Nat → Bool → Bool
  | _, 0, _, positive => positive
  | 0, _ + 1, _, positive => positive
  | fuel + 1, cnt, cp, positive =>
    let opt := (mem cp).toNat
    if opt = 0 then positive
    else if opt = 1 then harmless syn mem fuel (cnt - 1) (cp + 1) positive
    else
      let optlen := (mem (cp + 1)).toNat
      2 ≤ cnt &&
        if optlen = 0 then positive
        else if opt = 2 ∧ optlen = 4 ∧ syn then
          4 ≤ cnt && harmless syn mem fuel (cnt - optlen) (cp + optlen) (mem (cp + 2) ≠ 0 ∨ mem (cp + 3) ≠ 0)
        else harmless syn mem fuel (cnt - optlen) (cp + optlen) positive

section

variable {route : Option Route} {syn : Bool} {mem : Nat → UInt8} {s s' : Sender} {reads : List Nat}

theorem mssOf_positive (wide : Wide route) (s : Sender) : 1 ≤ (mssOf route s).1 := by
  have least : 1 ≤ (tcpMss : Int) := by decide
  unfold mssOf
  split
  · exact least
  · next r =>
    have room := wide r rfl
    split
    · dsimp only
      omega
    · dsimp only
      omega

theorem clipMaxseg_tMaxseg (wide : Wide route) (s : Sender) (short : s.tMaxseg ≤ 65535) :
    (1 ≤ (clipMaxseg route s).tMaxseg ↔ 1 ≤ s.tMaxseg) ∧ (clipMaxseg route s).tMaxseg ≤ 65535 := by
  have positive := mssOf_positive wide s
  obtain ⟨w, same⟩ := mssOf_eq route s
  have size : (clipMaxseg route s).tMaxseg = (min (s.tMaxseg : Int) (mssOf route s).1 % 65536).toNat := by
    unfold clipMaxseg
    simp only [same]
  rw [size]
  omega

theorem mssOf_sndCwnd (wide : Wide route) (s : Sender) (least : 1 ≤ s.sndCwnd) (most : s.sndCwnd ≤ 65535) :
    1 ≤ (mssOf route s).2.sndCwnd ∧ (mssOf route s).2.sndCwnd ≤ 65535 := by
  unfold mssOf
  split
  · exact ⟨least, most⟩
  · next r =>
    have room := wide r rfl
    have short : tcpMss = 512 := by decide
    split
    · exact ⟨least, most⟩
    · simp only [short]
      omega

theorem scanOptions_done (fuel cp : Nat) (s : Sender) : scanOptions route syn mem fuel 0 cp s = some (s, []) := by
  cases fuel <;> rfl

/-- The scan comes to an end. -/
theorem scanOptions_total (fuel cnt cp : Nat) (s : Sender) (enough : cnt ≤ fuel) :
    ∃ s' reads, scanOptions route syn mem fuel cnt cp s = some (s', reads) := by
  induction fuel generalizing cnt cp s with
  | zero =>
    rw [Nat.le_zero.mp enough]
    exact ⟨s, [], rfl⟩
  | succ fuel ih =>
    cases cnt with
    | zero => exact ⟨s, [], rfl⟩
    | succ cnt =>
      unfold scanOptions
      simp only []
      split
      · exact ⟨s, _, rfl⟩
      · split
        · obtain ⟨s', reads, done⟩ := ih (cnt + 1 - 1) (cp + 1) s (by omega)
          rw [done]
          exact ⟨s', _, rfl⟩
        · split
          · exact ⟨s, _, rfl⟩
          · split
            · obtain ⟨s', reads, done⟩ := ih (cnt + 1 - (mem (cp + 1)).toNat) (cp + (mem (cp + 1)).toNat)
                (clipMaxseg route { s with tMaxseg := (mem (cp + 2)).toNat * 256 + (mem (cp + 3)).toNat }) (by omega)
              rw [done]
              exact ⟨s', _, rfl⟩
            · obtain ⟨s', reads, done⟩ := ih (cnt + 1 - (mem (cp + 1)).toNat) (cp + (mem (cp + 1)).toNat) s (by omega)
              rw [done]
              exact ⟨s', _, rfl⟩

theorem within_rest {cnt cp optlen fuel : Nat}
    (done : scanOptions route syn mem fuel (cnt - optlen) (cp + optlen) s = some (s', reads)) :
    (∀ r ∈ reads, r < cp + cnt) ↔ ∀ r ∈ reads, r < cp + optlen + (cnt - optlen) := by
  by_cases inside : optlen ≤ cnt
  · rw [show cp + optlen + (cnt - optlen) = cp + cnt by omega]
  · rw [show cnt - optlen = 0 by omega, scanOptions_done] at done
    cases done
    simp

theorem scanOptions_harmless (wide : Wide route) (fuel cnt cp : Nat) (short : s.tMaxseg ≤ 65535)
    (done : scanOptions route syn mem fuel cnt cp s = some (s', reads)) :
    ((∀ r ∈ reads, r < cp + cnt) ∧ 1 ≤ s'.tMaxseg) ↔ harmless syn mem fuel cnt cp (1 ≤ s.tMaxseg) = true := by
  induction fuel generalizing cnt cp s reads with
  | zero =>
    cases cnt with
    | zero =>
      cases done
      simp [harmless]
    | succ cnt => cases done
  | succ fuel ih =>
    cases cnt with
    | zero =>
      cases done
      simp [harmless]
    | succ cnt =>
      unfold scanOptions at done
      unfold harmless
      simp only [] at done ⊢
      split at done
      · next eol =>
        cases done
        rw [if_pos eol]
        simp
      · next other =>
        rw [if_neg other]
        split at done
        · next nop =>
          rw [if_pos nop]
          obtain ⟨⟨s₁, rest⟩, later, same⟩ := map_eq_some_iff.mp done
          cases same
          rw [← ih (cnt + 1 - 1) (cp + 1) short later, List.forall_mem_cons, within_rest later]
          simp
        · next nonop =>
          rw [if_neg nonop, Bool.and_eq_true, decide_eq_true_iff]
          split at done
          · next ended =>
            cases done
            rw [if_pos ended]
            simp
            omega
          · next long =>
            rw [if_neg long]
            split at done
            · next maxseg =>
              obtain ⟨⟨s₁, rest⟩, later, same⟩ := map_eq_some_iff.mp done
              cases same
              have high := (mem (cp + 2)).toNat_lt
              have low := (mem (cp + 3)).toNat_lt
              have ⟨clipped, most⟩ := clipMaxseg_tMaxseg wide
                { s with tMaxseg := (mem (cp + 2)).toNat * 256 + (mem (cp + 3)).toNat } (by dsimp only; omega)
              have value : (1 ≤ (mem (cp + 2)).toNat * 256 + (mem (cp + 3)).toNat) ↔ (mem (cp + 2) ≠ 0 ∨ mem (cp + 3) ≠ 0) := by
                rw [ne_eq, ne_eq, ← UInt8.toNat_inj, ← UInt8.toNat_inj]
                simp only [UInt8.toNat_zero]
                omega
              rw [if_pos maxseg, Bool.and_eq_true, decide_eq_true_iff, ← decide_eq_decide.mpr (clipped.trans value),
                ← ih _ _ most later, ← within_rest later]
              simp only [List.cons_append, List.nil_append, List.forall_mem_cons]
              constructor
              · rintro ⟨⟨_, _, _, last, inside⟩, positive⟩
                exact ⟨by omega, by omega, inside, positive⟩
              · rintro ⟨_, fits, inside, positive⟩
                exact ⟨⟨by omega, by omega, by omega, by omega, inside⟩, positive⟩
            · next plain =>
              obtain ⟨⟨s₁, rest⟩, later, same⟩ := map_eq_some_iff.mp done
              cases same
              rw [if_neg plain, ← ih _ _ short later, ← within_rest later]
              simp only [List.cons_append, List.nil_append, List.forall_mem_cons]
              constructor
              · rintro ⟨⟨_, second, inside⟩, positive⟩
                exact ⟨by omega, inside, positive⟩
              · rintro ⟨fits, inside, positive⟩
                exact ⟨⟨by omega, by omega, inside⟩, positive⟩

/-- What holds of the sender after the scan. -/
theorem scanOptions_sizes (wide : Wide route) (fuel cnt cp : Nat)
    (short : s.tMaxseg ≤ 65535) (least : 1 ≤ s.sndCwnd) (most : s.sndCwnd ≤ 65535)
    (done : scanOptions route syn mem fuel cnt cp s = some (s', reads)) :
    s'.tMaxseg ≤ 65535 ∧ 1 ≤ s'.sndCwnd ∧ s'.sndCwnd ≤ 65535 ∧ (syn = false → s'.tMaxseg = s.tMaxseg) := by
  induction fuel generalizing cnt cp s reads with
  | zero =>
    cases cnt with
    | zero =>
      cases done
      exact ⟨short, least, most, fun _ => rfl⟩
    | succ cnt => cases done
  | succ fuel ih =>
    cases cnt with
    | zero =>
      cases done
      exact ⟨short, least, most, fun _ => rfl⟩
    | succ cnt =>
      unfold scanOptions at done
      simp only [] at done
      split at done
      · cases done
        exact ⟨short, least, most, fun _ => rfl⟩
      · split at done
        · obtain ⟨⟨s₁, rest⟩, later, same⟩ := map_eq_some_iff.mp done
          cases same
          exact ih _ _ short least most later
        · split at done
          · cases done
            exact ⟨short, least, most, fun _ => rfl⟩
          · split at done
            · next maxseg =>
              obtain ⟨⟨s₁, rest⟩, later, same⟩ := map_eq_some_iff.mp done
              cases same
              have high := (mem (cp + 2)).toNat_lt
              have low := (mem (cp + 3)).toNat_lt
              have clipped := (clipMaxseg_tMaxseg wide
                { s with tMaxseg := (mem (cp + 2)).toNat * 256 + (mem (cp + 3)).toNat } (by dsimp only; omega)).2
              have opened := mssOf_sndCwnd wide
                { s with tMaxseg := (mem (cp + 2)).toNat * 256 + (mem (cp + 3)).toNat } least most
              have ⟨short', least', most', _⟩ := ih _ _ clipped opened.1 opened.2 later
              exact ⟨short', least', most', fun plain => absurd maxseg.2.2 (by rw [plain]; decide)⟩
            · obtain ⟨⟨s₁, rest⟩, later, same⟩ := map_eq_some_iff.mp done
              cases same
              exact ih _ _ short least most later

end

end Svr4.Tcp
