import Svr4.Foundation.References
import Svr4.Kernel.Streams.Blocks

/-! What the reference counts, the status flags and the free lists say of the blocks in use. -/

namespace Svr4.StreamBlocks

open Function
open Finset (mem_of_mem_erase mem_erase mem_insert mem_insert_of_mem)

attribute [local simp] Blocks.setMblk Blocks.hold

/-- `points` gives the data block of every message block in use. While `pullupmsg` runs, the header
`moving` has left its data block and the triplet `coming` is not set up yet. -/
structure Counted (points : Nat → Nat) (moving coming : Option Nat) (s : Blocks) : Prop where
  used : ∀ {t}, t ∈ s.triplets ∨ t ∈ s.pool → t < s.fresh
  apart : ∀ {t}, t ∈ s.triplets → t ∉ s.pool
  known : ∀ {h}, h ∈ s.live → h ∈ s.triplets ∨ h ∈ s.pool
  data : ∀ {h}, h ∈ s.live → points h ∈ s.triplets
  address : ∀ {h}, h ∈ s.live → some h ≠ moving → ((s.dblk (points h)).dbMsgaddr = h ↔ h ∈ s.triplets)
  origin : ∀ {h}, h ∈ s.live → (s.dblk (points h)).dbMsgaddr ∈ s.triplets
  count : ∀ {h}, h ∈ s.live → (s.dblk (points h)).dbRef = refs points s.live (points h) % 256
  header : ∀ {t}, t ∈ s.triplets → some t ≠ coming → t ∈ s.live ∨ 0 < refs points s.live t →
    ((s.dblk t).dbIswhat = .notM ↔ t ∉ s.live)
  datablk : ∀ {t}, t ∈ s.triplets → some t ≠ coming → t ∈ s.live ∨ 0 < refs points s.live t →
    ((s.dblk t).dbIswhat = .notD ↔ refs points s.live t = 0)
  mdbNodup : s.mdbfreelist.Nodup
  mdbFree : ∀ {t}, t ∈ s.mdbfreelist ↔ t ∈ s.triplets ∧ some t ≠ coming ∧ t ∉ s.live ∧ refs points s.live t = 0
  msgNodup : s.msgfreelist.Nodup
  msgFree : ∀ {p}, p ∈ s.msgfreelist ↔ p ∈ s.pool ∧ p ∉ s.live

section
variable {s : Blocks} {bp t : Nat}

/-! ## What `freeb` does -/

/-- The header is the one of a triplet. -/
def Blocks.tripled (s : Blocks) (bp : Nat) : Prop := (s.dblk (s.mblk bp).bDatap).dbMsgaddr = bp

/-- The reference is the last. -/
def Blocks.ultimate (s : Blocks) (bp : Nat) : Prop := ((s.dblk (s.mblk bp).bDatap).dbRef + 255) % 256 = 0

instance : Decidable (s.tripled bp) := inferInstanceAs (Decidable (_ = _))

instance : Decidable (s.ultimate bp) := inferInstanceAs (Decidable (_ = _))

/-- The status flags after the header is dealt with. -/
def Blocks.marked (s : Blocks) (bp t : Nat) : Status :=
  if t = bp ∧ s.tripled bp ∧ (s.dblk bp).dbIswhat ≠ .notD then .notM else (s.dblk t).dbIswhat

@[simp] theorem setDblk_apply (s : Blocks) (dbp t : Nat) (f : Datab → Datab) :
    (s.setDblk dbp f).dblk t = if t = dbp then f (s.dblk dbp) else s.dblk t := by
  simp [Blocks.setDblk, update_apply]

@[simp] theorem setMblk_apply (s : Blocks) (bp t : Nat) (f : Msgb → Msgb) :
    (s.setMblk bp f).mblk t = if t = bp then f (s.mblk bp) else s.mblk t := by
  simp [update_apply]

@[simp] theorem setMblk_dblk (s : Blocks) (bp : Nat) (f : Msgb → Msgb) : (s.setMblk bp f).dblk = s.dblk := rfl

@[simp] theorem setDblk_mblk (s : Blocks) (dbp : Nat) (f : Datab → Datab) : (s.setDblk dbp f).mblk = s.mblk := rfl

theorem freebMacro_eq : Blocks.freebMacro bp s = Blocks.freeb bp s := by
  simp only [Blocks.freebMacro, Blocks.freeb]
  split <;> split <;> first | rfl | omega

variable (bp s)

theorem freeb_frame :
    (Blocks.freeb bp s).mblk = s.mblk ∧ (Blocks.freeb bp s).fresh = s.fresh ∧
      (Blocks.freeb bp s).triplets = s.triplets ∧ (Blocks.freeb bp s).pool = s.pool ∧
      (Blocks.freeb bp s).buffers = s.buffers ∧ (Blocks.freeb bp s).freeing = s.freeing ∧
      (Blocks.freeb bp s).live = s.live.erase bp := by
  simp only [Blocks.freeb, Blocks.freeHeader, Blocks.lessRef, Blocks.freeData, Blocks.releaseBuffer]
  refine ⟨?_, ?_, ?_, ?_, ?_, ?_, ?_⟩ <;> (repeat' split) <;> rfl

theorem freeHeader_eq :
    Blocks.freeHeader bp s =
      if s.tripled bp then
        if (s.dblk bp).dbIswhat = .notD then (s.drop bp).freemdbblock bp
        else (s.drop bp).setDblk bp fun d => { d with dbIswhat := .notM }
      else (s.drop bp).freemsgblock bp := by
  by_cases tripled : s.tripled bp
  · have named : (s.dblk (s.mblk bp).bDatap).dbMsgaddr = bp := tripled
    rw [if_pos tripled, Blocks.freeHeader, if_neg (not_not.mpr named)]
  · have other : (s.dblk (s.mblk bp).bDatap).dbMsgaddr ≠ bp := tripled
    rw [if_neg tripled, Blocks.freeHeader, if_pos other]

theorem freeHeader_dblk : (Blocks.freeHeader bp s).dblk t = { s.dblk t with dbIswhat := s.marked bp t } := by
  rw [freeHeader_eq, Blocks.marked]
  split <;> rename_i tripled
  · split <;> rename_i dead
    · simp [dead, Blocks.drop, Blocks.freemdbblock]
    · by_cases here : t = bp <;> simp [tripled, dead, Blocks.drop, here]
  · simp [tripled, Blocks.drop, Blocks.freemsgblock]

attribute [local simp] freeHeader_dblk

theorem freeHeader_msgfreelist :
    (Blocks.freeHeader bp s).msgfreelist = if s.tripled bp then s.msgfreelist else bp :: s.msgfreelist := by
  rw [freeHeader_eq]
  split
  · split <;> rfl
  · rfl

theorem freeHeader_mdbfreelist :
    (Blocks.freeHeader bp s).mdbfreelist =
      (if s.tripled bp ∧ (s.dblk bp).dbIswhat = .notD then [bp] else []) ++ s.mdbfreelist := by
  rw [freeHeader_eq]
  split <;> rename_i tripled
  · split <;> rename_i dead
    · rw [if_pos ⟨tripled, dead⟩]
      rfl
    · rw [if_neg fun both => dead both.2]
      rfl
  · rw [if_neg fun both => tripled both.1]
    rfl

theorem freeb_eq :
    Blocks.freeb bp s = if s.ultimate bp then Blocks.freeData (s.mblk bp).bDatap
      (Blocks.lessRef (s.mblk bp).bDatap (Blocks.freeHeader bp s))
    else Blocks.lessRef (s.mblk bp).bDatap (Blocks.freeHeader bp s) := by
  have less : ((Blocks.lessRef (s.mblk bp).bDatap (Blocks.freeHeader bp s)).dblk (s.mblk bp).bDatap).dbRef =
      ((s.dblk (s.mblk bp).bDatap).dbRef + 255) % 256 := by
    simp [Blocks.lessRef]
  by_cases last : s.ultimate bp
  · rw [if_pos last, Blocks.freeb, if_neg (by rw [less, last]; omega)]
  · rw [if_neg last, Blocks.freeb, if_pos (by rw [less]; exact Nat.pos_of_ne_zero last)]

theorem freeb_msgfreelist :
    (Blocks.freeb bp s).msgfreelist = if s.tripled bp then s.msgfreelist else bp :: s.msgfreelist := by
  have data (u : Blocks) : (Blocks.freeData (s.mblk bp).bDatap u).msgfreelist = u.msgfreelist := by
    simp only [Blocks.freeData]
    split <;> rfl
  rw [← freeHeader_msgfreelist, freeb_eq]
  split
  · exact data _
  · rfl

theorem freeb_mdbfreelist :
    (Blocks.freeb bp s).mdbfreelist =
      (if s.ultimate bp ∧ s.marked bp (s.mblk bp).bDatap = .notM then [(s.mblk bp).bDatap] else []) ++
      ((if s.tripled bp ∧ (s.dblk bp).dbIswhat = .notD then [bp] else []) ++ s.mdbfreelist) := by
  rw [← freeHeader_mdbfreelist, freeb_eq]
  split <;> rename_i last
  · simp only [Blocks.freeData, Blocks.lessRef, Blocks.releaseBuffer, setDblk_apply, if_pos, freeHeader_dblk]
    split <;> rename_i unused
    · rw [if_pos ⟨last, unused⟩]
      rfl
    · rw [if_neg fun both => unused both.2]
      rfl
  · rw [if_neg fun both => last both.1]
    rfl

theorem freeb_dblk :
    (Blocks.freeb bp s).dblk t = { s.dblk t with
      dbRef := if t = (s.mblk bp).bDatap then ((s.dblk t).dbRef + 255) % 256 else (s.dblk t).dbRef
      dbIswhat := if t = (s.mblk bp).bDatap ∧ s.ultimate bp ∧ s.marked bp t ≠ .notM then .notD else s.marked bp t } := by
  rw [freeb_eq]
  split <;> rename_i last
  · simp only [Blocks.freeData, Blocks.lessRef, Blocks.releaseBuffer, setDblk_apply, if_pos, freeHeader_dblk]
    split <;> rename_i unused
    · by_cases here : t = (s.mblk bp).bDatap
      · simp [Blocks.freemdbblock, here, unused]
      · simp [Blocks.freemdbblock, here]
    · by_cases here : t = (s.mblk bp).bDatap
      · simp [here, last, unused]
      · simp [here]
  · by_cases here : t = (s.mblk bp).bDatap
    · simp [Blocks.lessRef, here, last]
    · simp [Blocks.lessRef, here]

theorem freeb_iswhat :
    ((Blocks.freeb bp s).dblk t).dbIswhat =
      if t = (s.mblk bp).bDatap ∧ s.ultimate bp ∧ s.marked bp t ≠ .notM then .notD else s.marked bp t := by
  rw [freeb_dblk]

theorem freeb_log :
    (Blocks.freeb bp s).log =
      if s.ultimate bp then (s.dblk (s.mblk bp).bDatap).release ++ s.log else s.log := by
  have header : (Blocks.freeHeader bp s).log = s.log := by
    simp only [Blocks.freeHeader]
    (repeat' split) <;> rfl
  have data (d : Nat) (u : Blocks) : (Blocks.freeData d u).log = (u.dblk d).release ++ u.log := by
    simp only [Blocks.freeData]
    split <;> rfl
  rw [freeb_eq]
  split
  · rw [data, Blocks.lessRef]
    simp [header, Datab.release, Blocks.setDblk]
  · exact header

end

/-! ## Freeing a block keeps the counts -/

section
variable {points : Nat → Nat} {moving coming : Option Nat} {s : Blocks} {bp t : Nat}

section
variable (counted : Counted points moving coming s)
include counted

section
variable (member : bp ∈ s.live)
include member

theorem Counted.ultimate_iff
    (target : (s.mblk bp).bDatap = points bp) (few : refs points s.live (points bp) ≤ 255) :
    s.ultimate bp ↔ refs points (s.live.erase bp) (points bp) = 0 := by
  have before : refs points s.live (points bp) = refs points (s.live.erase bp) (points bp) + 1 := by
    simpa using (@refs_erase _ _ _ points _ _ (points bp) _) member
  have count := counted.count member
  rw [Blocks.ultimate, target, count]
  omega

/-- The flags of a triplet some part of which is still in use. -/
theorem Counted.freeb_status
    (target : (s.mblk bp).bDatap = points bp) (few : refs points s.live (points bp) ≤ 255)
    (still : some bp ≠ moving) (triplet : t ∈ s.triplets) (settled : some t ≠ coming)
    (left : t ∈ s.live.erase bp ∨ 0 < refs points (s.live.erase bp) t) :
    (((Blocks.freeb bp s).dblk t).dbIswhat = .notM ↔ t ∉ s.live.erase bp) ∧
      (((Blocks.freeb bp s).dblk t).dbIswhat = .notD ↔ refs points (s.live.erase bp) t = 0) := by
  have last := counted.ultimate_iff member target few
  have fewer : refs points s.live t = refs points (s.live.erase bp) t + if points bp = t then 1 else 0 :=
    refs_erase member
  have before : t ∈ s.live ∨ 0 < refs points s.live t := by
    rcases left with held | positive
    · exact .inl (mem_of_mem_erase held)
    · exact .inr (by omega)
  have header := counted.header triplet settled before
  have datablk := counted.datablk triplet settled before
  rw [freeb_iswhat, target]
  by_cases here : t = bp
  · -- the header goes and the data block stays
    subst here
    have tripled : s.tripled t := by
      rw [Blocks.tripled, target]
      exact (counted.address member still).mpr triplet
    have positive : 0 < refs points (s.live.erase t) t := left.resolve_left (Finset.notMem_erase t _)
    have inUse : (s.dblk t).dbIswhat ≠ .notD := fun dead => by
      have := datablk.mp dead
      omega
    have marked : s.marked t t = .notM := if_pos ⟨rfl, tripled, inUse⟩
    simp only [marked, ne_eq, not_true_eq_false, and_false, if_false]
    simp
    omega
  · have marked : s.marked bp t = (s.dblk t).dbIswhat := if_neg fun both => here both.1
    rw [marked]
    have same : t ∈ s.live.erase bp ↔ t ∈ s.live := by simp [here]
    by_cases data : t = points bp
    · by_cases final : s.ultimate bp
      · have none := last.mp final
        rw [← data] at none
        have held : t ∈ s.live := same.mp (left.resolve_right (by omega))
        have valid : (s.dblk t).dbIswhat ≠ .notM := fun dead => header.mp dead held
        rw [if_pos ⟨data, final, valid⟩]
        simp [here, held, none]
      · have some : refs points (s.live.erase bp) t ≠ 0 := by
          rw [data]
          exact fun zero => final (last.mpr zero)
        rw [if_neg fun all => final all.2.1, header, datablk, same]
        simp only [true_and]
        omega
    · rw [if_neg fun all => data all.1, header, datablk, same, fewer, if_neg fun same => data same.symm]
      exact ⟨Iff.rfl, Iff.rfl⟩

theorem Counted.freeb_mdbfree
    (target : (s.mblk bp).bDatap = points bp) (few : refs points s.live (points bp) ≤ 255)
    (still : some bp ≠ moving) (own : some bp ≠ coming) (other : some (points bp) ≠ coming) :
    (Blocks.freeb bp s).mdbfreelist.Nodup ∧ ∀ t, t ∈ (Blocks.freeb bp s).mdbfreelist ↔
      t ∈ s.triplets ∧ some t ≠ coming ∧ t ∉ s.live.erase bp ∧ refs points (s.live.erase bp) t = 0 := by
  have last := counted.ultimate_iff member target few
  have fewer (t : Nat) : refs points s.live t = refs points (s.live.erase bp) t + if points bp = t then 1 else 0 :=
    refs_erase member
  have tripled : s.tripled bp ↔ bp ∈ s.triplets := by
    rw [Blocks.tripled, target]
    exact counted.address member still
  have triplet := counted.data member
  have positive : 0 < refs points s.live (points bp) := refs_pos.mpr ⟨bp, member, rfl⟩
  -- the header was the last of its triplet
  have headerGoes : s.tripled bp ∧ (s.dblk bp).dbIswhat = .notD ↔ bp ∈ s.triplets ∧ refs points s.live bp = 0 := by
    rw [tripled]
    exact and_congr_right fun inside => counted.datablk inside own (.inl member)
  -- the data block was the last of its triplet
  have dataGoes : s.ultimate bp ∧ s.marked bp (s.mblk bp).bDatap = .notM ↔
      refs points (s.live.erase bp) (points bp) = 0 ∧ points bp ∉ s.live.erase bp := by
    rw [last, target]
    refine and_congr_right fun _ => ?_
    have header := counted.header triplet other (.inr positive)
    by_cases here : points bp = bp
    · have inside : bp ∈ s.triplets := here ▸ triplet
      have valid : (s.dblk bp).dbIswhat ≠ .notD := fun dead => by
        have := (counted.datablk inside own (.inl member)).mp dead
        rw [here] at positive
        omega
      rw [Blocks.marked, if_pos ⟨here, tripled.mpr inside, valid⟩, here]
      simp
    · rw [Blocks.marked, if_neg fun both => here both.1, header]
      simp [here]
  have dataAbsent : points bp ∉ s.mdbfreelist := fun free => by
    have := (counted.mdbFree.mp free).2.2.2
    omega
  have headerAbsent : bp ∉ s.mdbfreelist := fun free => (counted.mdbFree.mp free).2.2.1 member
  have differ (goes : bp ∈ s.triplets ∧ refs points s.live bp = 0) : points bp ≠ bp := fun same => by
    rw [same] at positive
    omega
  rw [freeb_mdbfreelist, target]
  rw [target] at dataGoes
  simp only [dataGoes, headerGoes]
  refine ⟨?_, fun t => ?_⟩
  · split
    · split
      · rename_i second
        simpa [dataAbsent, headerAbsent, differ second] using counted.mdbNodup
      · simpa [dataAbsent] using counted.mdbNodup
    · split
      · simpa [headerAbsent] using counted.mdbNodup
      · simpa using counted.mdbNodup
  · have fewer := fewer t
    simp only [List.mem_append, List.mem_ite_nil_right, List.mem_singleton]
    by_cases data : t = points bp
    · subst data
      have absent : ¬ ((bp ∈ s.triplets ∧ refs points s.live bp = 0) ∧ points bp = bp) := fun both => differ both.1 both.2
      simp only [dataAbsent, absent, or_false, and_true, triplet, true_and]
      exact ⟨fun goes => ⟨other, goes.2, goes.1⟩, fun goes => ⟨goes.2.2, goes.2.1⟩⟩
    · rw [if_neg fun same => data same.symm, Nat.add_zero] at fewer
      by_cases header : t = bp
      · subst header
        simp only [headerAbsent, data, and_false, false_or, or_false, and_true, fewer]
        simp [own]
      · rw [counted.mdbFree, fewer]
        simp [data, header]

theorem Counted.freeb
    (target : (s.mblk bp).bDatap = points bp) (few : refs points s.live (points bp) ≤ 255)
    (still : some bp ≠ moving) (own : some bp ≠ coming) (other : some (points bp) ≠ coming) :
    Counted points moving coming (Blocks.freeb bp s) := by
  obtain ⟨_, fresh, triplets, pool, _, _, live⟩ := freeb_frame s bp
  have tripled : s.tripled bp ↔ bp ∈ s.triplets := by
    rw [Blocks.tripled, target]
    exact counted.address member still
  have fewer (t : Nat) : refs points s.live t = refs points (s.live.erase bp) t + if points bp = t then 1 else 0 :=
    refs_erase member
  refine ⟨?_, ?_, ?_, ?_, ?_, ?_, ?_, ?_, ?_, ?_, ?_, ?_, ?_⟩
  · intro t
    simpa only [fresh, triplets, pool] using counted.used
  · intro t
    simpa only [triplets, pool] using counted.apart
  · intro h held
    rw [live] at held
    simpa only [triplets, pool] using counted.known (mem_of_mem_erase held)
  · intro h held
    rw [live] at held
    simpa only [triplets] using counted.data (mem_of_mem_erase held)
  · intro h held stays
    rw [live] at held
    simpa only [triplets, freeb_dblk] using counted.address (mem_of_mem_erase held) stays
  · intro h held
    rw [live] at held
    simpa only [triplets, freeb_dblk] using counted.origin (mem_of_mem_erase held)
  · intro h held
    rw [live] at held ⊢
    have old := counted.count (mem_of_mem_erase held)
    have fewer := fewer (points h)
    simp only [freeb_dblk, target]
    by_cases here : points h = points bp
    · rw [if_pos here.symm] at fewer
      rw [if_pos here, old]
      omega
    · rw [if_neg fun same => here same.symm] at fewer
      rw [if_neg here, old]
      omega
  · intro t triplet settled left
    rw [triplets] at triplet
    rw [live] at left ⊢
    exact (counted.freeb_status member target few still triplet settled left).1
  · intro t triplet settled left
    rw [triplets] at triplet
    rw [live] at left ⊢
    exact (counted.freeb_status member target few still triplet settled left).2
  · exact (counted.freeb_mdbfree member target few still own other).1
  · intro t
    rw [triplets, live]
    exact (counted.freeb_mdbfree member target few still own other).2 t
  · rw [freeb_msgfreelist]
    split <;> rename_i inside
    · exact counted.msgNodup
    · exact List.nodup_cons.mpr ⟨fun free => (counted.msgFree.mp free).2 member, counted.msgNodup⟩
  · intro p
    rw [freeb_msgfreelist, pool, live]
    have known := counted.known member
    split <;> rename_i inside
    · rw [counted.msgFree, mem_erase]
      refine and_congr_right fun pooled => ?_
      have away : p ≠ bp := by
        rintro rfl
        exact counted.apart (tripled.mp inside) pooled
      simp [away]
    · rw [List.mem_cons, counted.msgFree, mem_erase]
      have pooled : bp ∈ s.pool := known.resolve_left fun triplet => inside (tripled.mpr triplet)
      by_cases here : p = bp
      · simp [here, pooled]
      · simp [here]

end

end

end

/-! ## Taking triplets -/

section
variable {points : Nat → Nat} {moving coming : Option Nat} {s s' : Blocks} {bp t : Nat} {answer : Bool}

/-- No part of the triplet is in use. -/
structure Idle (points : Nat → Nat) (t : Nat) (s : Blocks) : Prop where
  triplet : t ∈ s.triplets
  header : t ∉ s.live
  data : refs points s.live t = 0

theorem Idle.away (idle : Idle points t s) (member : bp ∈ s.live) : points bp ≠ t :=
  refs_zero.mp idle.data bp member

/-- The counts depend on few fields, and not on the data block of a triplet that is on its way. -/
theorem Counted.frame (counted : Counted points moving coming s) (fresh : s'.fresh = s.fresh)
    (triplets : s'.triplets = s.triplets) (pool : s'.pool = s.pool) (live : s'.live = s.live)
    (mdb : s'.mdbfreelist = s.mdbfreelist) (msg : s'.msgfreelist = s.msgfreelist)
    (idle : ∀ t, some t = coming → Idle points t s)
    (flags : ∀ t, some t ≠ coming → (s'.dblk t).dbMsgaddr = (s.dblk t).dbMsgaddr ∧
      (s'.dblk t).dbRef = (s.dblk t).dbRef ∧ (s'.dblk t).dbIswhat = (s.dblk t).dbIswhat) :
    Counted points moving coming s' := by
  have target {h : Nat} (member : h ∈ s.live) : some (points h) ≠ coming :=
    fun same => (idle _ same).away member rfl
  refine ⟨?_, ?_, ?_, ?_, ?_, ?_, ?_, ?_, ?_, ?_, ?_, ?_, ?_⟩
  · simpa only [fresh, triplets, pool] using @counted.used
  · simpa only [triplets, pool] using @counted.apart
  · simpa only [live, triplets, pool] using @counted.known
  · simpa only [live, triplets] using @counted.data
  · intro h member
    rw [live] at member
    rw [(flags _ (target member)).1, triplets]
    exact counted.address member
  · intro h member
    rw [live] at member
    rw [(flags _ (target member)).1, triplets]
    exact counted.origin member
  · intro h member
    rw [live] at member
    rw [(flags _ (target member)).2.1, live]
    exact counted.count member
  · intro t triplet settled
    rw [(flags t settled).2.2, live]
    exact counted.header (triplets ▸ triplet) settled
  · intro t triplet settled
    rw [(flags t settled).2.2, live]
    exact counted.datablk (triplets ▸ triplet) settled
  · exact mdb ▸ counted.mdbNodup
  · simpa only [mdb, triplets, live] using @counted.mdbFree
  · exact msg ▸ counted.msgNodup
  · simpa only [msg, pool, live] using @counted.msgFree

theorem takeMdbblock_frame (taken : Blocks.takeMdbblock answer s = some (t, s')) :
    s'.mblk = s.mblk ∧ s'.dblk = s.dblk ∧ s'.live = s.live ∧ s'.buffers = s.buffers ∧ s'.log = s.log ∧
      s'.freeing = s.freeing := by
  rw [Blocks.takeMdbblock] at taken
  split at taken
  · cases taken
    exact ⟨rfl, rfl, rfl, rfl, rfl, rfl⟩
  · simp only [Blocks.xmdballoc, Option.ite_none_right_eq_some] at taken
    cases taken.2
    exact ⟨rfl, rfl, rfl, rfl, rfl, rfl⟩

theorem Counted.take (counted : Counted points none none s)
    (taken : Blocks.takeMdbblock answer s = some (t, s')) :
    Counted points none (some t) s' ∧ Idle points t s' := by
  rw [Blocks.takeMdbblock] at taken
  split at taken <;> rename_i list
  · obtain ⟨rfl, rfl⟩ := Prod.mk.inj (Option.some.inj taken)
    rename_i t rest
    obtain ⟨triplet, -, header, data⟩ := counted.mdbFree.mp (list ▸ List.mem_cons_self)
    have nodup := list ▸ counted.mdbNodup
    refine ⟨⟨counted.used, counted.apart, counted.known, counted.data, counted.address, counted.origin, counted.count,
      fun inside _ => counted.header inside (by simp), fun inside _ => counted.datablk inside (by simp),
      (List.nodup_cons.mp nodup).2, fun {k} => ?_, counted.msgNodup, counted.msgFree⟩, triplet, header, data⟩
    have member := counted.mdbFree (t := k)
    rw [list, List.mem_cons] at member
    by_cases here : k = t
    · subst here
      simp [(List.nodup_cons.mp nodup).1]
    · simpa [here] using member
  · simp only [Blocks.xmdballoc, Option.ite_none_right_eq_some] at taken
    obtain ⟨rfl, rfl⟩ := Prod.mk.inj (Option.some.inj taken.2)
    have new {k : Nat} (known : k ∈ s.triplets ∨ k ∈ s.pool) : k ≠ s.fresh := Nat.ne_of_lt (counted.used known)
    have header : s.fresh ∉ s.live := fun member => new (counted.known member) rfl
    have data : refs points s.live s.fresh = 0 :=
      refs_zero.mpr fun h member => new (.inl (counted.data member))
    have old {k : Nat} (inside : k ∈ insert s.fresh s.triplets) (settled : some k ≠ some s.fresh) : k ∈ s.triplets :=
      (mem_insert.mp inside).resolve_left fun same => settled (congrArg some same)
    refine ⟨⟨fun {k} known => ?_, fun {k} inside => ?_, fun member => ?_, fun member => ?_, fun member moved => ?_,
      fun member => ?_, counted.count, fun inside settled => counted.header (old inside settled) (by simp),
      fun inside settled => counted.datablk (old inside settled) (by simp), counted.mdbNodup, fun {k} => ?_,
      counted.msgNodup, counted.msgFree⟩, Finset.mem_insert_self _ _, header, data⟩
    · have known : k = s.fresh ∨ k ∈ s.triplets ∨ k ∈ s.pool := by simpa [or_assoc] using known
      rcases known with rfl | known
      · exact Nat.lt_succ_self _
      · exact Nat.lt_succ_of_lt (counted.used known)
    · rcases mem_insert.mp inside with rfl | inside
      · exact fun pooled => new (.inr pooled) rfl
      · exact counted.apart inside
    · exact (counted.known member).imp_left (mem_insert_of_mem ·)
    · exact mem_insert_of_mem (counted.data member)
    · rw [counted.address member moved]
      simp [new (counted.known member)]
    · exact mem_insert_of_mem (counted.origin member)
    · have free := counted.mdbFree (t := k)
      rw [free]
      by_cases here : k = s.fresh
      · have outside : s.fresh ∉ s.triplets := fun inside => new (.inl inside) rfl
        simp [here, outside]
      · simp [here]

/-- A triplet on its way goes back. -/
theorem Counted.untake (counted : Counted points none (some t) s) (idle : Idle points t s) :
    Counted points none none (s.freemdbblock t) := by
  refine ⟨counted.used, counted.apart, counted.known, counted.data, counted.address, counted.origin, counted.count,
    fun {k} inside _ partly => ?_, fun {k} inside _ partly => ?_, ?_, fun {k} => ?_, counted.msgNodup, counted.msgFree⟩
  · have settled : some k ≠ some t := by
      rintro ⟨rfl⟩
      exact partly.elim idle.header fun positive => Nat.ne_of_gt positive idle.data
    exact counted.header inside settled partly
  · have settled : some k ≠ some t := by
      rintro ⟨rfl⟩
      exact partly.elim idle.header fun positive => Nat.ne_of_gt positive idle.data
    exact counted.datablk inside settled partly
  · exact List.nodup_cons.mpr ⟨fun free => (counted.mdbFree.mp free).2.1 rfl, counted.mdbNodup⟩
  · rw [Blocks.freemdbblock, List.mem_cons, counted.mdbFree]
    by_cases here : k = t
    · subst here
      simp [idle.triplet, idle.header, idle.data]
    · simp [here]

theorem Counted.congr {other : Nat → Nat} (counted : Counted points moving coming s)
    (same : ∀ h ∈ s.live, other h = points h) : Counted other moving coming s := by
  have equal (d : Nat) : refs other s.live d = refs points s.live d := refs_congr same
  refine ⟨counted.used, counted.apart, counted.known, fun member => ?_, fun member => ?_, fun member => ?_,
    fun member => ?_, fun {t} => ?_, fun {t} => ?_, counted.mdbNodup, fun {t} => ?_, counted.msgNodup, counted.msgFree⟩
  · rw [same _ member]
    exact counted.data member
  · rw [same _ member]
    exact counted.address member
  · rw [same _ member]
    exact counted.origin member
  · rw [same _ member, equal]
    exact counted.count member
  · rw [equal]
    exact counted.header
  · rw [equal]
    exact counted.datablk
  · rw [equal]
    exact counted.mdbFree

/-- A triplet on its way is handed out. -/
theorem Counted.settle (counted : Counted points none (some t) s) (idle : Idle points t s) (self : points t = t)
    (address : (s.dblk t).dbMsgaddr = t) (ref : (s.dblk t).dbRef = 1) (status : (s.dblk t).dbIswhat = .mdbblk) :
    Counted points none none (s.hold t) := by
  have one : refs points (insert t s.live) t = 1 := by
    rw [refs_insert idle.header, idle.data, if_pos self]
  have same {k : Nat} (other : k ≠ t) : refs points (insert t s.live) k = refs points s.live k := by
    rw [refs_insert idle.header, self, if_neg fun equal => other equal.symm, Nat.add_zero]
  have old {h : Nat} (held : h ∈ (s.hold t).live) (other : h ≠ t) : h ∈ s.live :=
    (mem_insert.mp held).resolve_left other
  refine ⟨counted.used, counted.apart, fun {h} held => ?_, fun {h} held => ?_, fun {h} held _ => ?_,
    fun {h} held => ?_, fun {h} held => ?_, fun {k} inside _ partly => ?_, fun {k} inside _ partly => ?_,
    counted.mdbNodup, fun {k} => ?_, counted.msgNodup, fun {p} => ?_⟩
  · by_cases here : h = t
    · exact .inl (here ▸ idle.triplet)
    · exact counted.known (old held here)
  · by_cases here : h = t
    · rw [here, self]
      exact idle.triplet
    · exact counted.data (old held here)
  · by_cases here : h = t
    · rw [here, self]
      exact iff_of_true address idle.triplet
    · exact counted.address (old held here) (by simp)
  · by_cases here : h = t
    · rw [here, self, Blocks.hold, address]
      exact idle.triplet
    · exact counted.origin (old held here)
  · by_cases here : h = t
    · rw [here, self, Blocks.hold, ref, one]
    · have away : points h ≠ t := idle.away (old held here)
      rw [Blocks.hold, same away]
      exact counted.count (old held here)
  · by_cases here : k = t
    · subst here
      simp [status]
    · have partly : k ∈ s.live ∨ 0 < refs points s.live k := by
        simpa [here, same here] using partly
      simpa [here] using counted.header inside (by simpa using here) partly
  · by_cases here : k = t
    · subst here
      simp [status, one]
    · have partly : k ∈ s.live ∨ 0 < refs points s.live k := by
        simpa [here, same here] using partly
      simpa [same here] using counted.datablk inside (by simpa using here) partly
  · have free := counted.mdbFree (t := k)
    by_cases here : k = t
    · subst here
      simp [free]
    · simp [free, here, same here]
  · have free := counted.msgFree (p := p)
    have outside : p ∈ s.pool → p ≠ t := by
      rintro pooled rfl
      exact counted.apart idle.triplet pooled
    simp only [Blocks.hold, free, mem_insert, not_or]
    exact ⟨fun both => ⟨both.1, outside both.1, both.2⟩, fun all => ⟨all.1, all.2.2⟩⟩

/-! ## Taking pool headers -/

/-- What `dupb` finds when it has a header from the pool. -/
structure Pooled (s : Blocks) (nbp : Nat) (s' : Blocks) : Prop where
  unused : nbp ∉ s.live
  apart : nbp ∉ s.triplets
  used : ∀ {t}, t ∈ s.triplets ∨ t ∈ s'.pool → t < s'.fresh
  pool : ∀ {p}, p ∈ s'.pool ↔ p = nbp ∨ p ∈ s.pool
  nodup : s'.msgfreelist.Nodup
  free : ∀ {p}, p ∈ s'.msgfreelist ↔ p ∈ s'.pool ∧ p ∉ insert nbp s.live
  mdbfreelist : s'.mdbfreelist = s.mdbfreelist
  triplets : s'.triplets = s.triplets
  mblk : s'.mblk = s.mblk
  dblk : s'.dblk = s.dblk
  live : s'.live = s.live
  buffers : s'.buffers = s.buffers
  log : s'.log = s.log
  freeing : s'.freeing = s.freeing

theorem Counted.takePool {nbp : Nat} (counted : Counted points none none s)
    (taken : Blocks.takeMsgblock answer s = some (nbp, s')) : Pooled s nbp s' := by
  rw [Blocks.takeMsgblock] at taken
  split at taken <;> rename_i list
  · obtain ⟨rfl, rfl⟩ := Prod.mk.inj (Option.some.inj taken)
    rename_i nbp rest
    obtain ⟨pooled, unused⟩ := counted.msgFree.mp (list ▸ List.mem_cons_self)
    have nodup := List.nodup_cons.mp (list ▸ counted.msgNodup)
    refine ⟨unused, fun inside => counted.apart inside pooled, counted.used, fun {p} => ?_, nodup.2, fun {p} => ?_,
      rfl, rfl, rfl, rfl, rfl, rfl, rfl, rfl⟩
    · exact ⟨.inr, fun either => either.elim (· ▸ pooled) id⟩
    · have free := counted.msgFree (p := p)
      rw [list, List.mem_cons] at free
      by_cases here : p = nbp
      · subst here
        simp [nodup.1]
      · simpa [here] using free
  · simp only [Blocks.xmsgalloc, Option.ite_none_right_eq_some] at taken
    obtain ⟨rfl, rfl⟩ := Prod.mk.inj (Option.some.inj taken.2)
    have new {k : Nat} (known : k ∈ s.triplets ∨ k ∈ s.pool) : k ≠ s.fresh := Nat.ne_of_lt (counted.used known)
    refine ⟨fun member => new (counted.known member) rfl, fun inside => new (.inl inside) rfl, fun {k} known => ?_,
      mem_insert, counted.msgNodup, fun {p} => ?_, rfl, rfl, rfl, rfl, rfl, rfl, rfl, rfl⟩
    · have known : k = s.fresh ∨ k ∈ s.triplets ∨ k ∈ s.pool := by
        rw [mem_insert] at known
        rw [← or_assoc, or_comm (a := k = s.fresh), or_assoc]
        exact known
      rcases known with rfl | known
      · exact Nat.lt_succ_self _
      · exact Nat.lt_succ_of_lt (counted.used known)
    · have free := counted.msgFree (p := p)
      rw [free]
      by_cases here : p = s.fresh
      · have outside : s.fresh ∉ s.pool := fun inside => new (.inr inside) rfl
        simp [here, outside]
      · simp [here]

/-- One more block refers to the data block of `bp`. -/
theorem Counted.share {nbp : Nat} {u : Blocks} (counted : Counted points none none s) (member : bp ∈ s.live)
    (pooled : Pooled s nbp s') (target : points nbp = points bp) (fresh : u.fresh = s'.fresh)
    (triplets : u.triplets = s'.triplets) (pool : u.pool = s'.pool) (live : u.live = insert nbp s.live)
    (mdb : u.mdbfreelist = s'.mdbfreelist) (msg : u.msgfreelist = s'.msgfreelist)
    (dblk : ∀ t, u.dblk t = { s.dblk t with
      dbRef := if t = points bp then ((s.dblk t).dbRef + 1) % 256 else (s.dblk t).dbRef }) :
    Counted points none none u := by
  rw [pooled.triplets] at triplets
  rw [pooled.mdbfreelist] at mdb
  have more (d : Nat) : refs points (insert nbp s.live) d = refs points s.live d + if points bp = d then 1 else 0 := by
    rw [refs_insert pooled.unused, target]
  have positive : 0 < refs points s.live (points bp) := refs_pos.mpr ⟨bp, member, rfl⟩
  have zero {d : Nat} : refs points (insert nbp s.live) d = 0 ↔ refs points s.live d = 0 := by
    rw [more]
    split <;> rename_i here
    · rw [← here]
      omega
    · omega
  have partly {t : Nat} (left : t ∈ insert nbp s.live ∨ 0 < refs points (insert nbp s.live) t) (inside : t ∈ s.triplets) :
      t ≠ nbp ∧ (t ∈ s.live ∨ 0 < refs points s.live t) := by
    have away : t ≠ nbp := by
      rintro rfl
      exact pooled.apart inside
    refine ⟨away, ?_⟩
    rw [mem_insert, Nat.pos_iff_ne_zero, ne_eq, zero] at left
    rw [Nat.pos_iff_ne_zero]
    exact left.imp_left (Or.resolve_left · away)
  have old {h : Nat} (held : h ∈ insert nbp s.live) : ∃ k ∈ s.live, points k = points h := by
    rcases mem_insert.mp held with rfl | held
    · exact ⟨bp, member, target.symm⟩
    · exact ⟨h, held, rfl⟩
  refine ⟨fun known => ?_, fun inside => ?_, fun {h} held => ?_, fun {h} held => ?_, fun {h} held _ => ?_,
    fun {h} held => ?_, fun {h} held => ?_, fun {t} inside _ left => ?_, fun {t} inside _ left => ?_, ?_, fun {t} => ?_, ?_,
    fun {p} => ?_⟩
  · rw [triplets, pool] at known
    rw [fresh]
    exact pooled.used known
  · rw [triplets] at inside
    rw [pool, pooled.pool, not_or]
    refine ⟨?_, counted.apart inside⟩
    rintro rfl
    exact pooled.apart inside
  · rw [live] at held
    rw [triplets, pool, pooled.pool]
    rcases mem_insert.mp held with rfl | held
    · exact .inr (.inl rfl)
    · exact (counted.known held).imp_right .inr
  · rw [live] at held
    obtain ⟨k, held, same⟩ := old held
    rw [triplets, ← same]
    exact counted.data held
  · rw [live] at held
    rw [triplets, dblk]
    rcases mem_insert.mp held with rfl | held
    · refine iff_of_false (fun same => pooled.apart ?_) pooled.apart
      have origin := counted.origin member
      rw [← target, same] at origin
      exact origin
    · exact counted.address held (by simp)
  · rw [live] at held
    obtain ⟨k, held, same⟩ := old held
    rw [triplets, dblk, ← same]
    exact counted.origin held
  · rw [live] at held
    obtain ⟨k, held, same⟩ := old held
    have count := counted.count held
    rw [live, dblk, ← same, more]
    by_cases here : points k = points bp
    · rw [if_pos here, if_pos here.symm]
      change ((s.dblk (points k)).dbRef + 1) % 256 = _
      omega
    · rw [if_neg here, if_neg fun same => here same.symm, count]
      rfl
  · rw [triplets] at inside
    rw [live] at left ⊢
    obtain ⟨away, left⟩ := partly left inside
    rw [dblk, mem_insert]
    simpa [away] using counted.header inside (by simp) left
  · rw [triplets] at inside
    rw [live] at left ⊢
    obtain ⟨away, left⟩ := partly left inside
    rw [dblk, zero]
    exact counted.datablk inside (by simp) left
  · rw [mdb]
    exact counted.mdbNodup
  · rw [mdb, live, triplets, counted.mdbFree, zero, mem_insert]
    refine and_congr_right fun inside => ?_
    have away : t ≠ nbp := by
      rintro rfl
      exact pooled.apart inside
    simp [away]
  · rw [msg]
    exact pooled.nodup
  · rw [msg, pool, live]
    exact pooled.free

end

/-! ## A header changes its data block -/

section
variable {points : Nat → Nat} {s : Blocks} {mp newmp : Nat}

/-- `pullupmsg` gives up the reference of `mp` to its shared data block. -/
theorem Counted.depart (counted : Counted points none (some newmp) s) (idle : Idle points newmp s) (member : mp ∈ s.live)
    (address : (s.dblk newmp).dbMsgaddr = newmp) (ref : (s.dblk newmp).dbRef = 1)
    (shared : 1 < refs points s.live (points mp)) (few : refs points s.live (points mp) ≤ 255) :
    Counted (update points mp newmp) (some mp) (some newmp) (Blocks.lessRef (points mp) s) := by
  have moved (d : Nat) : refs (update points mp newmp) s.live d + (if points mp = d then 1 else 0) =
      refs points s.live d + if newmp = d then 1 else 0 := refs_update member
  have away := idle.away member
  have zero {d : Nat} (other : d ≠ newmp) :
      refs (update points mp newmp) s.live d = 0 ↔ refs points s.live d = 0 := by
    have moved := moved d
    rw [if_neg (show ¬ newmp = d from fun same => other same.symm)] at moved
    split at moved <;> rename_i here
    · rw [← here] at moved ⊢
      omega
    · omega
  have one : refs (update points mp newmp) s.live newmp = 1 := by
    have moved := moved newmp
    rw [if_neg away, if_pos rfl, idle.data] at moved
    omega
  have same {h : Nat} (other : h ≠ mp) : update points mp newmp h = points h := update_of_ne other _ _
  have flags (t : Nat) : ((Blocks.lessRef (points mp) s).dblk t).dbMsgaddr = (s.dblk t).dbMsgaddr ∧
      ((Blocks.lessRef (points mp) s).dblk t).dbIswhat = (s.dblk t).dbIswhat := by
    rw [Blocks.lessRef, setDblk_apply]
    split <;> simp_all
  refine ⟨counted.used, counted.apart, counted.known, fun {h} held => ?_, fun {h} held other => ?_, fun {h} held => ?_,
    fun {h} held => ?_, fun {t} inside settled partly => ?_, fun {t} inside settled partly => ?_, counted.mdbNodup,
    fun {t} => ?_, counted.msgNodup, counted.msgFree⟩
  · by_cases here : h = mp
    · rw [here, update_self]
      exact idle.triplet
    · rw [same here]
      exact counted.data held
  · rw [(flags _).1, same fun same => other (congrArg some same)]
    exact counted.address held (by simp)
  · rw [(flags _).1]
    by_cases here : h = mp
    · rw [here, update_self, address]
      exact idle.triplet
    · rw [same here]
      exact counted.origin held
  · by_cases here : h = mp
    · rw [here, update_self, Blocks.lessRef, setDblk_apply, if_neg away.symm, ref]
      change 1 = refs (update points mp newmp) s.live newmp % 256
      rw [one]
    · have count := counted.count held
      have moved := moved (points h)
      have other : newmp ≠ points h := fun same => idle.away held same.symm
      rw [if_neg other] at moved
      rw [same here, Blocks.lessRef, setDblk_apply]
      change _ = refs (update points mp newmp) s.live (points h) % 256
      by_cases target : points h = points mp
      · rw [if_pos target.symm] at moved
        rw [if_pos target, ← target]
        change ((s.dblk (points h)).dbRef + 255) % 256 = _
        omega
      · rw [if_neg fun same => target same.symm] at moved
        rw [if_neg target, count]
        omega
  · have other : t ≠ newmp := fun same => settled (congrArg some same)
    rw [(flags t).2]
    rw [Nat.pos_iff_ne_zero, ne_eq] at partly
    change t ∈ s.live ∨ ¬ refs (update points mp newmp) s.live t = 0 at partly
    rw [zero other, ← ne_eq, ← Nat.pos_iff_ne_zero] at partly
    exact counted.header inside settled partly
  · have other : t ≠ newmp := fun same => settled (congrArg some same)
    rw [(flags t).2]
    rw [Nat.pos_iff_ne_zero, ne_eq] at partly
    change t ∈ s.live ∨ ¬ refs (update points mp newmp) s.live t = 0 at partly
    rw [zero other, ← ne_eq, ← Nat.pos_iff_ne_zero] at partly
    rw [counted.datablk inside settled partly]
    exact (zero other).symm
  · change t ∈ s.mdbfreelist ↔ t ∈ s.triplets ∧ some t ≠ some newmp ∧ t ∉ s.live ∧
      refs (update points mp newmp) s.live t = 0
    rw [counted.mdbFree]
    by_cases other : t = newmp
    · simp [other]
    · rw [zero other]

/-- The flags of the triplets after `crossConnect`. -/
theorem crossConnect_dblk (dbp copied : Nat) (bp : Option Nat) (differ : mp ≠ newmp) (t : Nat) :
    (Blocks.crossConnect mp dbp newmp copied bp s).dblk t = { s.dblk t with
      dbMsgaddr := if t = newmp ∧ (s.dblk dbp).dbMsgaddr = mp then mp else (s.dblk t).dbMsgaddr
      dbIswhat := if t = newmp then .notM
        else if t = mp ∧ (s.dblk dbp).dbMsgaddr = mp ∧ (s.dblk mp).dbIswhat ≠ .notD then .xconn
        else (s.dblk t).dbIswhat } := by
  simp only [Blocks.crossConnect]
  by_cases named : (s.dblk dbp).dbMsgaddr = mp
  · by_cases dead : (s.dblk mp).dbIswhat = .notD
    · by_cases new : t = newmp
      · simp [named, differ, dead, new]
      · simp [named, differ, dead, new]
    · by_cases new : t = newmp
      · simp [named, differ, dead, new, differ.symm]
      · by_cases here : t = mp
        · simp [named, differ, dead, here]
        · simp [named, differ, dead, new, here]
  · by_cases new : t = newmp
    · simp [named, new]
    · simp [named, new]

theorem crossConnect_frame (dbp copied : Nat) (bp : Option Nat) :
    let s' := Blocks.crossConnect mp dbp newmp copied bp s
    s'.fresh = s.fresh ∧ s'.triplets = s.triplets ∧ s'.pool = s.pool ∧ s'.live = s.live ∧
      s'.mdbfreelist = s.mdbfreelist ∧ s'.msgfreelist = s.msgfreelist ∧ s'.buffers = s.buffers ∧ s'.log = s.log ∧
      s'.freeing = s.freeing ∧ s'.mblk = update s.mblk mp ⟨bp, 0, copied, newmp⟩ := by
  simp only [Blocks.crossConnect]
  refine ⟨?_, ?_, ?_, ?_, ?_, ?_, ?_, ?_, ?_, ?_⟩ <;> (repeat' split) <;> rfl

/-- The header is at its new data block, and its old one knows it. -/
theorem Counted.arrive {dbp copied : Nat} {bp : Option Nat} (counted : Counted points (some mp) (some newmp) s)
    (member : mp ∈ s.live) (target : points mp = newmp) (only : ∀ h ∈ s.live, points h = newmp → h = mp)
    (unused : newmp ∉ s.live) (address : (s.dblk newmp).dbMsgaddr = newmp)
    (named : (s.dblk dbp).dbMsgaddr = mp ↔ mp ∈ s.triplets) :
    Counted points none none (Blocks.crossConnect mp dbp newmp copied bp s) := by
  obtain ⟨fresh, triplets, pool, live, mdb, msg, -, -, -, -⟩ := (@crossConnect_frame s mp newmp) dbp copied bp
  have differ : mp ≠ newmp := by
    rintro rfl
    exact unused member
  have dblk := (@crossConnect_dblk s mp newmp) dbp copied bp differ
  have positive : 0 < refs points s.live newmp := refs_pos.mpr ⟨mp, member, target⟩
  refine ⟨?_, ?_, ?_, ?_, fun {h} held _ => ?_, fun {h} held => ?_, fun {h} held => ?_, fun {t} triplet _ partly => ?_,
    fun {t} triplet _ partly => ?_, ?_, fun {t} => ?_, ?_, ?_⟩
  · simpa only [fresh, triplets, pool] using @counted.used
  · simpa only [triplets, pool] using @counted.apart
  · simpa only [live, triplets, pool] using @counted.known
  · simpa only [live, triplets] using @counted.data
  · rw [live] at held
    rw [triplets, dblk]
    by_cases here : h = mp
    · rw [here, target]
      simp only [true_and, named]
      split
      · simp [*]
      · rename_i pooled
        rw [address]
        simp [pooled, differ.symm]
    · have away : points h ≠ newmp := fun same => here (only h held same)
      simp only [away, false_and, if_false]
      exact counted.address held (by simpa using here)
  · rw [live] at held
    rw [triplets, dblk]
    change (if points h = newmp ∧ (s.dblk dbp).dbMsgaddr = mp then mp else (s.dblk (points h)).dbMsgaddr) ∈ s.triplets
    split
    · rename_i both
      exact named.mp both.2
    · exact counted.origin held
  · rw [live] at held ⊢
    rw [dblk]
    exact counted.count held
  · rw [triplets] at triplet
    rw [live] at partly ⊢
    rw [dblk]
    by_cases new : t = newmp
    · simp [new, unused]
    · have status := counted.header triplet (by simpa using new) partly
      by_cases here : t = mp
      · have valid : (s.dblk mp).dbIswhat ≠ .notM := fun dead => by
          rw [here] at status
          exact status.mp dead member
        rw [here]
        simp only [differ, if_false]
        split
        · simp [member]
        · simp [member, valid]
      · simpa [new, here] using status
  · rw [triplets] at triplet
    rw [live] at partly ⊢
    rw [dblk]
    by_cases new : t = newmp
    · simp only [new, if_true, reduceCtorEq, false_iff]
      omega
    · have status := counted.datablk triplet (by simpa using new) partly
      simp only [new, if_false]
      split
      · rename_i all
        rw [all.1] at status ⊢
        simp only [reduceCtorEq, false_iff]
        exact fun zero => all.2.2 (status.mpr zero)
      · exact status
  · exact mdb ▸ counted.mdbNodup
  · rw [mdb, triplets, live, counted.mdbFree]
    by_cases new : t = newmp
    · rw [new]
      simp only [ne_eq, not_true_eq_false, false_and, and_false, false_iff, not_and]
      omega
    · simp [new]
  · exact msg ▸ counted.msgNodup
  · simpa only [msg, pool, live] using @counted.msgFree

end

end Svr4.StreamBlocks
