import Svr4.Kernel.Tcp.Moves

/-! The place of the FIN: behind the bytes of the stream, at a number of its own. -/

namespace Svr4.Tcp

/-- A segment with a FIN ends where the FIN is. -/
def EndsAt (place : Seq) (ti : Tcpiphdr) : Prop := ti.flags.fin = true → ti.seq + BitVec.ofNat 32 ti.len = place

/-- The FIN of every segment that waits is in its place, and one that was taken was the next number. -/
structure Sequenced (irs place : Seq) (c : Tcpcb) : Prop where
  segs : ∀ q ∈ c.segs, EndsAt place q
  taken : c.tState.havercvdfin = true → c.rcvNxt = place + 1
  irs : c.tState.havercvdsyn = true → c.irs = irs

/-- Nothing is received, and no FIN or SYN is taken. -/
structure Aside (c c' : Tcpcb) : Prop where
  segs : ∀ q ∈ c'.segs, q ∈ c.segs
  rcvNxt : c'.rcvNxt = c.rcvNxt
  irs : c'.irs = c.irs
  fin : c'.tState.havercvdfin = true → c.tState.havercvdfin = true
  syn : c'.tState.havercvdsyn = true → c.tState.havercvdsyn = true

section
variable {irs place : Seq} {m : Msg} {n : Nat} {ti ti' q : Tcpiphdr} {c c' : Tcpcb} {up : Upstream} {ups : List Upstream} {fin fin' urg : Bool}
  {before behind segs : List Tcpiphdr} {f : Sender → Sender}

theorem Sequenced.aside (kept : Sequenced irs place c) (aside : Aside c c') : Sequenced irs place c' :=
  ⟨fun q member => kept.segs q (aside.segs q member), fun fin => aside.rcvNxt.trans (kept.taken (aside.fin fin)),
    fun syn => aside.irs.trans (kept.irs (aside.syn syn))⟩

theorem Aside.refl (c : Tcpcb) : Aside c c := ⟨fun _ => id, rfl, rfl, id, id⟩

theorem Aside.trans {c₁ : Tcpcb} (first : Aside c c₁) (second : Aside c₁ c') : Aside c c' :=
  ⟨fun q member => first.segs q (second.segs q member), second.rcvNxt.trans first.rcvNxt, second.irs.trans first.irs,
    first.fin ∘ second.fin, first.syn ∘ second.syn⟩

theorem Aside.sending (fin : (f c.toSender).tState.havercvdfin = true → c.tState.havercvdfin = true)
    (syn : (f c.toSender).tState.havercvdsyn = true → c.tState.havercvdsyn = true) : Aside c (c.sending f) :=
  ⟨fun _ => id, rfl, rfl, fin, syn⟩

theorem Aside.state (same : (f c.toSender).tState = c.tState) : Aside c (c.sending f) :=
  .sending (fun fin => same ▸ fin) fun syn => same ▸ syn

/-! ## Trimmed messages -/

@[simp] theorem msgdsize_nil : msgdsize [] = 0 := rfl

@[simp] theorem msgdsize_cons {b : Mblk} : msgdsize (b :: m) = b.bytes.length + msgdsize m := by simp [msgdsize, Msg.bytes]

theorem msgdsize_trimHead : msgdsize (trimHead n m) = msgdsize m - n := by
  induction m generalizing n with
  | nil => simp [trimHead]
  | cons b rest ih =>
    rw [trimHead, msgdsize_cons, msgdsize_cons, ih, List.length_drop]
    omega

theorem msgdsize_trimTail : msgdsize (trimTail n m).2 = msgdsize m - n ∧ (trimTail n m).1 = n - msgdsize m := by
  induction m with
  | nil => simp [trimTail]
  | cons b rest ih =>
    obtain ⟨size, left⟩ := ih
    simp only [trimTail, msgdsize_cons, size, left, List.length_take]
    omega

theorem msgdsize_front (within : n ≤ msgdsize m) : msgdsize (adjmsg m n) = msgdsize m - n := by
  rw [adjmsg, if_neg (by omega), if_pos (by omega), Int.natAbs_natCast, msgdsize_trimHead]

theorem msgdsize_back (within : n ≤ msgdsize m) (positive : 0 < n) : msgdsize (adjmsg m (-(n : Int))) = msgdsize m - n := by
  rw [adjmsg, if_neg (by omega), if_neg (by omega), Int.natAbs_neg, Int.natAbs_natCast, msgdsize_trimTail.1]

theorem end_front (within : n ≤ ti.len) :
    ti.seq + BitVec.ofInt 32 n + BitVec.ofNat 32 (msgdsize (adjmsg ti.msg n)) = ti.seq + BitVec.ofNat 32 ti.len := by
  have size : msgdsize (adjmsg ti.msg n) = ti.len - n := msgdsize_front within
  have sum : n + (ti.len - n) = ti.len := by omega
  rw [size, BitVec.ofInt_natCast, BitVec.add_assoc, ← BitVec.ofNat_add, sum]

theorem trimFront_ends {i : Int} (ends : EndsAt place ti) (positive : 0 < i) (within : i ≤ ti.len) : EndsAt place (trimFront i ti) := by
  obtain ⟨n, rfl⟩ := Int.eq_ofNat_of_zero_le positive.le
  intro fin
  have same : (trimFront n ti).flags.fin = ti.flags.fin := by
    rw [trimFront]
    split
    · rfl
    · rfl
  rw [← ends (same ▸ fin)]
  exact end_front (by omega)

/-! ## The sequencing queue -/

theorem deliver_segs (done : deliver up ti c = some c') :
    c'.segs = c.segs ∧ c'.rcvNxt = c.rcvNxt + BitVec.ofNat 32 ti.len ∧ c'.irs = c.irs ∧ c'.rcvWnd = c.rcvWnd := by
  unfold deliver at done
  simp only [] at done
  split at done
  · cases done
    exact ⟨rfl, rfl, rfl, rfl⟩
  · split at done
    · cases done
      exact ⟨rfl, rfl, rfl, rfl⟩
    · obtain ⟨i, _, same⟩ := Option.map_eq_some_iff.mp done
      rw [← same]
      exact ⟨rfl, rfl, rfl, rfl⟩

theorem presentLoop_fin (ends : ∀ q ∈ segs, EndsAt place q) (first : fin = true → c.rcvNxt = place)
    (done : presentLoop fin ups segs c = some (fin', c')) : (fin' = true → c'.rcvNxt = place) ∧ (∀ q ∈ c'.segs, EndsAt place q) ∧ c'.irs = c.irs ∧ c'.rcvWnd = c.rcvWnd := by
  induction segs generalizing fin ups c with
  | nil =>
    cases done
    exact ⟨first, (fun q there => by cases there), rfl, rfl⟩
  | cons ti rest ih =>
    unfold presentLoop at done
    split at done <;> rename_i next
    · obtain ⟨c₁, delivered, later⟩ := Option.bind_eq_some_iff.mp done
      obtain ⟨-, moved, irs, window⟩ := deliver_segs delivered
      have ended (fin : ti.flags.fin = true) : c₁.rcvNxt = place := by
        rw [moved, ← next]
        exact ends ti (.head _) fin
      obtain ⟨taken, waiting, same, room⟩ := ih (fun q member => ends q (.tail _ member)) ended later
      exact ⟨taken, waiting, same.trans irs, room.trans window⟩
    · cases done
      exact ⟨first, ends, rfl, rfl⟩

theorem present_fin (ends : ∀ q ∈ c.segs, EndsAt place q) (done : present ups c = some (fin, c')) :
    (fin = true → c'.rcvNxt = place) ∧ (∀ q ∈ c'.segs, EndsAt place q) ∧ c'.irs = c.irs ∧ c'.rcvWnd = c.rcvWnd := by
  unfold present at done
  split at done
  · cases done
    exact ⟨nofun, ends, rfl, rfl⟩
  · split at done
    · cases done
      exact ⟨nofun, ends, rfl, rfl⟩
    · exact (@presentLoop_fin place c c' ups false fin c.segs) ends nofun done

theorem trimPrev_ends (ends : EndsAt place ti) (trimmed : trimPrev before ti = some ti') : EndsAt place ti' := by
  unfold trimPrev at trimmed
  split at trimmed
  · cases trimmed
    exact ends
  · split at trimmed
    · cases trimmed
      exact ends
    · split at trimmed <;> rename_i positive within
      · cases trimmed
      · cases trimmed
        exact trimFront_ends ends (by omega) (by omega)

theorem trimNext_ends (ends : ∀ q ∈ behind, EndsAt place q) : ∀ q ∈ (trimNext ti behind).2, EndsAt place q := by
  induction behind with
  | nil => exact ends
  | cons q rest ih =>
    rw [trimNext]
    split
    · exact ends
    · split <;> rename_i positive within
      · intro x member
        rcases List.mem_cons.mp member with rfl | member
        · exact trimFront_ends (ends q (.head _)) (by omega) (by omega)
        · exact ends x (.tail _ member)
      · exact ih fun x member => ends x (.tail _ member)

theorem tcpReass_fin (ends : ∀ q ∈ c.segs, EndsAt place q) (arrived : EndsAt place ti) (done : tcpReass ups ti c = some (fin, c')) :
    (fin = true → c'.rcvNxt = place) ∧ (∀ q ∈ c'.segs, EndsAt place q) ∧ c'.irs = c.irs ∧ c'.rcvWnd = c.rcvWnd := by
  have presented {c₁ : Tcpcb} (done : present ups c₁ = some (fin, c')) (same : c₁.irs = c.irs) (window : c₁.rcvWnd = c.rcvWnd) (ends : ∀ q ∈ c₁.segs, EndsAt place q) :
      (fin = true → c'.rcvNxt = place) ∧ (∀ q ∈ c'.segs, EndsAt place q) ∧ c'.irs = c.irs ∧ c'.rcvWnd = c.rcvWnd := same ▸ window ▸ present_fin ends done
  unfold tcpReass at done
  simp only [] at done
  split at done <;> rename_i trimmed
  · cases done
    exact ⟨nofun, ends, rfl, rfl⟩
  · refine presented done rfl rfl fun q member => ?_
    rcases List.mem_append.mp member with front | back
    · exact ends q (List.takeWhile_subset _ front)
    · rcases List.mem_cons.mp back with rfl | back
      · exact trimPrev_ends arrived trimmed
      · exact trimNext_ends (fun x inside => ends x (List.dropWhile_subset _ inside)) q back

theorem reass_fin (ends : ∀ q ∈ c.segs, EndsAt place q) (arrived : EndsAt place ti) (done : reass ups urg ti c = some (fin, c')) :
    (fin = true → c'.rcvNxt = place) ∧ (∀ q ∈ c'.segs, EndsAt place q) ∧ c'.irs = c.irs ∧ c'.rcvWnd = c.rcvWnd := by
  unfold reass at done
  split at done <;> rename_i next
  · simp only [] at done
    split at done
    · cases done
      exact ⟨fun fin => next.1 ▸ arrived fin, ends, rfl, rfl⟩
    · obtain ⟨i, _, same⟩ := Option.map_eq_some_iff.mp done
      cases same
      exact ⟨fun fin => next.1 ▸ arrived fin, ends, rfl, rfl⟩
  · exact tcpReass_fin ends arrived done

end

end Svr4.Tcp
