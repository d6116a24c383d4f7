import Svr4.Kernel.Ufs.InodeCounts

/-! `hashalloc` asks every cylinder group before it gives up. -/

namespace Svr4.Ufs

section
variable {σ : Type} (allocator : Nat → Nat → σ → Option (Nat × σ))

/-- The allocator finds nothing in a group. -/
def Fails (cg pref : Nat) (s : σ) : Prop := ∃ t, allocator cg pref s = some (0, t)

/-- The calls that are made, each with the state that it finds. -/
def calls : List (Nat × Nat) → σ → List (Nat × Nat × σ)
  | [], _ => []
  | (cg, pref) :: rest, s =>
    (cg, pref, s) ::
      match allocator cg pref s with
      | some (0, t) => calls rest t
      | _ => []

/-- The groups and preferences of `hashalloc`. -/
def probes (ncg cg pref : Nat) : List (Nat × Nat) :=
  (cg, pref) :: (rehash ncg ncg 1 cg ++ bruteForce ncg (ncg - 2) ((cg + 2) % ncg)).map fun cg => (cg, 0)

end

section
variable {σ : Type} {allocator : Nat → Nat → σ → Option (Nat × σ)} {list : List (Nat × Nat)} {s t : σ} {ncg cg pref : Nat}

theorem mem_calls {call : Nat × Nat × σ} (made : call ∈ calls allocator list s) : (call.1, call.2.1) ∈ list := by
  induction list generalizing s with
  | nil => cases made
  | cons probe rest ih =>
    rcases List.mem_cons.mp made with rfl | later
    · exact .head _
    · refine .tail _ ?_
      split at later
      · exact ih later
      · cases later

theorem tryAll_fails (done : tryAll allocator list s = some (0, t)) :
    ∀ probe ∈ list, ∃ u, (probe.1, probe.2, u) ∈ calls allocator list s ∧ Fails allocator probe.1 probe.2 u := by
  induction list generalizing s with
  | nil => nofun
  | cons first rest ih =>
    obtain ⟨⟨result, u⟩, call, later⟩ := Option.bind_eq_some_iff.mp done
    by_cases found : result = 0
    · subst found
      intro probe member
      rcases List.mem_cons.mp member with rfl | member
      · exact ⟨s, (.head _), u, call⟩
      · obtain ⟨v, made, fails⟩ := ih later probe member
        refine ⟨v, .tail _ ?_, fails⟩
        rw [call]
        exact made
    · simp [found] at later

theorem bruteForce_mem {n k : Nat} (inside : cg < ncg) (less : k < n) : (cg + k) % ncg ∈ bruteForce ncg n cg := by
  induction n generalizing cg k with
  | zero => omega
  | succ n ih =>
    rw [bruteForce]
    cases k with
    | zero =>
      have first : (cg + 0) % ncg = cg := Nat.mod_eq_of_lt inside
      rw [first]
      exact .head _
    | succ k =>
      refine .tail _ ?_
      split
      · next last =>
        have around : (cg + (k + 1)) % ncg = (0 + k) % ncg := by
          rw [← Nat.add_assoc, Nat.add_right_comm, last, Nat.add_comm, Nat.add_mod_right, Nat.zero_add]
        rw [around]
        exact ih (by omega) (by omega)
      · have next : cg + (k + 1) = cg + 1 + k := by omega
        rw [next]
        exact ih (by omega) (by omega)

theorem probes_inside (inside : cg < ncg) : ∀ probe ∈ probes ncg cg pref, probe.1 < ncg := by
  intro probe member
  rcases List.mem_cons.mp member with rfl | member
  · exact inside
  · obtain ⟨b, among, rfl⟩ := List.mem_map.mp member
    rcases List.mem_append.mp among with among | among
    · exact rehash_lt inside b among
    · exact bruteForce_lt (Nat.mod_lt _ (by omega)) b among

/-- Zero is checked first, one in the rehash, and the others in the search. -/
theorem probes_cover (inside : cg < ncg) {g : Nat} (group : g < ncg) : ∃ p, (g, p) ∈ probes ncg cg pref := by
  obtain ⟨k, less, rfl⟩ : ∃ k < ncg, (cg + k) % ncg = g := by
    rcases Nat.lt_or_ge g cg with before | behind
    · refine ⟨g + ncg - cg, by omega, ?_⟩
      rw [show cg + (g + ncg - cg) = g + ncg by omega, Nat.add_mod_right, Nat.mod_eq_of_lt group]
    · refine ⟨g - cg, by omega, ?_⟩
      rw [Nat.add_sub_cancel' behind, Nat.mod_eq_of_lt group]
  match k with
  | 0 =>
    rw [Nat.add_zero, Nat.mod_eq_of_lt inside]
    exact ⟨pref, (.head _)⟩
  | 1 =>
    refine ⟨0, .tail _ (List.mem_map.mpr ⟨_, List.mem_append_left _ ?_, rfl⟩)⟩
    obtain ⟨n, rfl⟩ := Nat.exists_eq_succ_of_ne_zero (show ncg ≠ 0 by omega)
    rw [rehash, if_pos less]
    refine List.mem_cons.mpr (.inl ?_)
    split
    · next most =>
      have last : cg + 1 = n + 1 := by omega
      rw [last, Nat.mod_self, Nat.sub_self]
    · exact Nat.mod_eq_of_lt (by omega)
  | k + 2 =>
    refine ⟨0, .tail _ (List.mem_map.mpr ⟨_, List.mem_append_right _ ?_, rfl⟩)⟩
    have found : ((cg + 2) % ncg + k) % ncg ∈ bruteForce ncg (ncg - 2) ((cg + 2) % ncg) :=
      bruteForce_mem (Nat.mod_lt _ (by omega)) (by omega)
    rwa [Nat.mod_add_mod, Nat.add_assoc, Nat.add_comm 2 k] at found

end

end Svr4.Ufs
