import Svr4.Kernel.Streams.BlockBuffers

/-! Message blocks over whole runs of the calls that make, share, pull up and free them. -/

namespace Svr4.StreamBlocks

open Function
open Option (map_eq_some_iff)
open Prod (mk)

attribute [local simp] Blocks.hold Blocks.setBuffer Blocks.initTriplet Blocks.releaseBuffer Blocks.pullLoop
  Blocks.setMblk Blocks.setDblk Blocks.setCont Base.isExternal Blocks.lessRef

def Blocks.datap (s : Blocks) (h : Nat) : Nat := (s.mblk h).bDatap

def Blocks.cont (s : Blocks) (h : Nat) : Option Nat := (s.mblk h).bCont

/-- The data blocks that blocks in use refer to. -/
def Blocks.referred (s : Blocks) (points : Nat → Nat) (d : Nat) : Prop := 0 < refs points s.live d

structure Sound (s : Blocks) : Prop where
  counted : Counted s.datap none none s
  buffered : Buffered (s.referred s.datap) none s
  threaded : Threaded s.cont s.live

/-- The references fit into `db_ref`. -/
def Few (s : Blocks) : Prop := ∀ d, refs s.datap s.live d ≤ 255

section
variable {points : Nat → Nat} {moving coming loose : Option Nat} {s s' : Blocks} {bp t : Nat} {supply : Blocks.Supply}
  {size : Int} {r : Option Nat}

/-! ## Freeing -/

theorem Buffered.freeb (buffered : Buffered (s.referred points) loose s) (counted : Counted points moving coming s)
    (member : bp ∈ s.live) (target : (s.mblk bp).bDatap = points bp) (few : refs points s.live (points bp) ≤ 255) :
    Buffered ((Blocks.freeb bp s).referred points) loose (Blocks.freeb bp s) := by
  obtain ⟨-, -, -, -, buffers, -, live⟩ := freeb_frame s bp
  have fewer (d : Nat) : refs points s.live d = refs points (s.live.erase bp) d + if points bp = d then 1 else 0 :=
    refs_erase member
  have ultimate := counted.ultimate_iff member target few
  have dblk (d : Nat) : ((Blocks.freeb bp s).dblk d).dbBase = (s.dblk d).dbBase ∧
      ((Blocks.freeb bp s).dblk d).dbFrtnp = (s.dblk d).dbFrtnp := by
    rw [freeb_dblk]
    exact ⟨rfl, rfl⟩
  by_cases last : s.ultimate bp
  · have log := freeb_log s bp
    rw [if_pos last, target] at log
    refine buffered.release (refs_pos.mpr ⟨bp, member, rfl⟩) (fun d => ?_) buffers log dblk
    rw [Blocks.referred, Blocks.referred, live, fewer d]
    by_cases here : d = points bp
    · have none := ultimate.mp last
      rw [here]
      simp [none]
    · rw [if_neg fun same => here same.symm]
      simp [here]
  · have log := freeb_log s bp
    rw [if_neg last] at log
    refine buffered.frame (fun d => ?_) buffers log fun d _ => dblk d
    rw [Blocks.referred, Blocks.referred, live, fewer d]
    split <;> rename_i here
    · rw [← here]
      have left : refs points (s.live.erase bp) (points bp) ≠ 0 := fun zero => last (ultimate.mpr zero)
      omega
    · rfl

theorem Sound.freeb (sound : Sound s) (few : Few s) (member : bp ∈ s.live) (leads : Leads s.cont s.live bp) :
    Sound (Blocks.freeb bp s) := by
  obtain ⟨mblk, -, -, -, -, -, live⟩ := freeb_frame s bp
  have datap : (Blocks.freeb bp s).datap = s.datap := by
    funext h
    rw [Blocks.datap, mblk, Blocks.datap]
  have cont : (Blocks.freeb bp s).cont = s.cont := by
    funext h
    rw [Blocks.cont, mblk, Blocks.cont]
  refine ⟨?_, ?_, ?_⟩
  · rw [datap]
    exact sound.counted.freeb member rfl (few _) (by simp) (by simp) (by simp)
  · rw [datap]
    exact sound.buffered.freeb sound.counted member rfl (few _)
  · rw [cont, live]
    exact sound.threaded.remove leads

/-! ## Allocating -/

/-- Nothing that is in use has changed. -/
structure Untouched (s s' : Blocks) : Prop where
  live : s'.live = s.live
  log : s'.log = s.log
  buffers : s'.buffers = s.buffers
  freeing : s'.freeing = s.freeing
  mblk : ∀ h ∈ s.live, s'.mblk h = s.mblk h
  dblk : ∀ h ∈ s.live, s'.dblk (s.datap h) = s.dblk (s.datap h)

/-- The triplet `t` is new, with one block that refers to it. -/
structure Allocated (s : Blocks) (t : Nat) (s' : Blocks) : Prop where
  live : s'.live = s.live
  log : s'.log = s.log
  freeing : s'.freeing = s.freeing
  mblk : ∀ h, h ≠ t → s'.mblk h = s.mblk h
  dblk : ∀ d, d ≠ t → s'.dblk d = s.dblk d
  block : s'.mblk t = ⟨none, 0, 0, t⟩
  address : (s'.dblk t).dbMsgaddr = t
  ref : (s'.dblk t).dbRef = 1
  status : (s'.dblk t).dbIswhat = .mdbblk
  frtnp : (s'.dblk t).dbFrtnp = none
  base : ((s'.dblk t).dbBase = .own ∧ s'.buffers = s.buffers) ∨
    ((s'.dblk t).dbBase = .kmem s.buffers ∧ s'.buffers = s.buffers + 1)

/-- The ways `allocb` ends, with `u` the state after the triplet is taken. -/
theorem allocb_cases (call : Blocks.allocb supply size s = (r, s')) :
    (r = none ∧ s' = s) ∨ ∃ t u, Blocks.takeMdbblock supply.block s = some (t, u) ∧
      ((r = none ∧ s' = (Blocks.initTriplet t u).freemdbblock t) ∨
        (r = some t ∧ ∃ base lim n, s' = Blocks.setBuffer t base lim { Blocks.initTriplet t u with buffers := n } ∧
          ((base = .own ∧ n = u.buffers) ∨ (size > fastbuf ∧ base = .kmem u.buffers ∧ n = u.buffers + 1)))) := by
  rw [Blocks.allocb] at call
  split at call <;> rename_i taken
  · cases call
    exact .inl ⟨rfl, rfl⟩
  · rename_i t u
    refine .inr ⟨t, u, taken, ?_⟩
    simp only at call
    split at call <;> rename_i large
    · split at call <;> rename_i got
      · cases call
        exact .inl ⟨rfl, rfl⟩
      · cases call
        simp only [Blocks.kmemAlloc, Option.ite_none_left_eq_some, Option.ite_none_right_eq_some] at got
        obtain ⟨-, -, pair⟩ := got
        cases pair
        exact .inr ⟨rfl, _, _, _, rfl, .inr ⟨large, rfl, rfl⟩⟩
    · cases call
      exact .inr ⟨rfl, _, _, _, rfl, .inl ⟨rfl, rfl⟩⟩

theorem initTriplet_counted (onWay : Counted points none (some t) s) (idle : Idle points t s) :
    Counted points none (some t) (Blocks.initTriplet t s) := by
  refine onWay.frame rfl rfl rfl rfl rfl rfl (fun k same => ?_) fun k settled => ?_
  · exact Option.some.inj same ▸ idle
  · have other : k ≠ t := fun same => settled (congrArg some same)
    simp [other]

theorem allocb_untouched (counted : Counted s.datap none none s)
    (call : Blocks.allocb supply size s = (none, s')) : Counted s.datap none none s' ∧ Untouched s s' := by
  rcases allocb_cases call with ⟨-, rfl⟩ | ⟨t, u, taken, ⟨-, rfl⟩ | ⟨impossible, -⟩⟩
  · exact ⟨counted, rfl, rfl, rfl, rfl, fun _ _ => rfl, fun _ _ => rfl⟩
  · obtain ⟨onWay, idle⟩ := counted.take taken
    obtain ⟨mblk, dblk, live, buffers, log, freeing⟩ := takeMdbblock_frame taken
    refine ⟨(initTriplet_counted onWay idle).untake ⟨idle.triplet, idle.header, idle.data⟩, live, log, buffers, freeing,
      fun h member => ?_, fun h member => ?_⟩
    · have other : h ≠ t := by
        rintro rfl
        exact idle.header (live ▸ member)
      simp [Blocks.freemdbblock, other, mblk]
    · have other : s.datap h ≠ t := idle.away (live ▸ member)
      simp [Blocks.freemdbblock, other, dblk]
  · simp at impossible

theorem allocb_allocated (counted : Counted s.datap none none s)
    (call : Blocks.allocb supply size s = (some t, s')) :
    Counted s.datap none (some t) s' ∧ Idle s.datap t s' ∧ Allocated s t s' := by
  rcases allocb_cases call with ⟨impossible, -⟩ | ⟨t', u, taken, ⟨impossible, -⟩ | ⟨same, base, lim, n, rfl, kind⟩⟩
  · simp at impossible
  · simp at impossible
  · cases same
    obtain ⟨onWay, idle⟩ := counted.take taken
    obtain ⟨mblk, dblk, live, buffers, log, freeing⟩ := takeMdbblock_frame taken
    refine ⟨?_, ⟨idle.triplet, idle.header, idle.data⟩, live, log, freeing, fun h other => ?_, fun d other => ?_, ?_, ?_, ?_,
      ?_, ?_, ?_⟩
    · refine (initTriplet_counted onWay idle).frame rfl rfl rfl rfl rfl rfl (fun k same => ?_) fun k settled => ?_
      · cases same
        exact ⟨idle.triplet, idle.header, idle.data⟩
      · have other : k ≠ t := fun same => settled (congrArg some same)
        simp [other]
    · simp [other, mblk]
    · simp [other, dblk]
    · simp
    · simp
    · simp
    · simp
    · simp
    · have mine : ((Blocks.setBuffer t base lim { Blocks.initTriplet t u with buffers := n }).dblk t).dbBase = base := by
        simp
      rw [mine, ← buffers]
      exact kind.imp_right And.right

theorem allocb_small (small : size ≤ fastbuf)
    (call : Blocks.allocb supply size s = (some t, s')) : s'.buffers = s.buffers := by
  rcases allocb_cases call with ⟨impossible, -⟩ | ⟨t', u, taken, ⟨impossible, -⟩ | ⟨-, base, lim, n, rfl, ⟨-, same⟩ | ⟨large, -⟩⟩⟩
  · simp at impossible
  · simp at impossible
  · exact same.trans (takeMdbblock_frame taken).2.2.2.1
  · omega

theorem Sound.untouched (sound : Sound s) (counted : Counted s.datap none none s') (untouched : Untouched s s') :
    Sound s' := by
  have same (h : Nat) (member : h ∈ s'.live) : s'.datap h = s.datap h := by
    rw [Blocks.datap, untouched.mblk h (untouched.live ▸ member), Blocks.datap]
  refine ⟨counted.congr same, ?_, ?_⟩
  · refine sound.buffered.frame (fun d => ?_) untouched.buffers untouched.log fun d used => ?_
    · rw [Blocks.referred, Blocks.referred, refs_congr same, untouched.live]
    · obtain ⟨h, member, rfl⟩ := refs_pos.mp used
      rw [untouched.dblk h member]
      exact ⟨rfl, rfl⟩
  · rw [untouched.live]
    refine sound.threaded.congr fun h member => ?_
    rw [Blocks.cont, untouched.mblk h member, Blocks.cont]

/-- The new triplet is handed out, after stores to its buffer and its type. -/
theorem Sound.hand {u : Blocks} (sound : Sound s) (counted : Counted s.datap none (some t) s') (idle : Idle s.datap t s')
    (allocated : Allocated s t s') (fresh : u.fresh = s'.fresh) (triplets : u.triplets = s'.triplets) (pool : u.pool = s'.pool)
    (live : u.live = insert t s'.live) (mdb : u.mdbfreelist = s'.mdbfreelist) (msg : u.msgfreelist = s'.msgfreelist)
    (log : u.log = s'.log) (mblk : ∀ h, h ≠ t → u.mblk h = s'.mblk h) (datap : u.datap t = t) (cont : u.cont t = none)
    (dblk : ∀ d, d ≠ t → u.dblk d = s'.dblk d)
    (flags : (u.dblk t).dbMsgaddr = t ∧ (u.dblk t).dbRef = 1 ∧ (u.dblk t).dbIswhat = .mdbblk)
    (fit : (u.dblk t).dbFrtnp.isSome = (u.dblk t).dbBase.isExternal)
    (base : ((u.dblk t).dbBase = .own ∧ u.buffers = s.buffers) ∨
      ((u.dblk t).dbBase.serial = some s.buffers ∧ u.buffers = s.buffers + 1)) : Sound u := by
  have header : t ∉ s.live := allocated.live ▸ idle.header
  have unused : refs s.datap s.live t = 0 := allocated.live ▸ idle.data
  have other {h : Nat} (member : h ∈ s.live) : h ≠ t := by
    rintro rfl
    exact header member
  have same (h : Nat) (member : h ∈ s.live) : u.datap h = s.datap h := by
    rw [Blocks.datap, mblk h (other member), allocated.mblk h (other member), Blocks.datap]
  rw [allocated.live] at live
  have target (h : Nat) (member : h ∈ s'.live) : u.datap h = s.datap h := same h (allocated.live ▸ member)
  have idle' : Idle u.datap t s' := ⟨idle.triplet, idle.header, by rw [refs_congr target, idle.data]⟩
  have before : Counted u.datap none (some t) { u with live := s'.live } := by
    refine (counted.congr target).frame fresh triplets pool rfl mdb msg (fun k same => ?_) fun k settled => ?_
    · exact Option.some.inj same ▸ idle'
    · rw [dblk k fun same => settled (congrArg some same)]
      exact ⟨rfl, rfl, rfl⟩
  have held := before.settle ⟨triplets ▸ idle.triplet, idle.header, idle'.data⟩ datap flags.1 flags.2.1 flags.2.2
  have whole : Blocks.hold { u with live := s'.live } t = u := by
    rw [Blocks.hold, allocated.live, ← live]
  rw [whole] at held
  refine ⟨held, ?_, ?_⟩
  · refine sound.buffered.acquire (Nat.not_lt_of_le (Nat.le_of_eq unused)) (fun d => ?_) (log.trans allocated.log)
      (fun d away => (dblk d away).trans (allocated.dblk d away)) fit base
    rw [Blocks.referred, Blocks.referred, live, refs_insert header, refs_congr same, datap]
    split <;> rename_i here
    · simp [here]
    · simp [Ne.symm here]
  · rw [live]
    refine Threaded.add ?_ cont
    refine sound.threaded.congr fun h member => ?_
    rw [Blocks.cont, mblk h (other member), allocated.mblk h (other member), Blocks.cont]

/-! ## One more block -/

/-- What a call that makes a block does when things hold before it. -/
structure Made (s : Blocks) (new : Option Nat) (s' : Blocks) : Prop where
  sound : Sound s'
  live : s'.live = new.elim s.live (insert · s.live)
  unused : ∀ n, new = some n → n ∉ s.live ∧ s'.cont n = none
  cont : ∀ h ∈ s.live, s'.cont h = s.cont h
  freeing : s'.freeing = s.freeing

theorem Sound.refused (sound : Sound s) (counted : Counted s.datap none none s') (untouched : Untouched s s') :
    Made s none s' := by
  refine ⟨sound.untouched counted untouched, untouched.live, by simp, fun h member => ?_, untouched.freeing⟩
  rw [Blocks.cont, untouched.mblk h member, Blocks.cont]

theorem allocb_made (sound : Sound s)
    (call : Blocks.allocb supply size s = (r, s')) : Made s r (r.elim s' s'.hold) := by
  cases r with
  | none =>
    obtain ⟨counted, untouched⟩ := allocb_untouched sound.counted call
    exact sound.refused counted untouched
  | some t =>
    obtain ⟨counted, idle, allocated⟩ := allocb_allocated sound.counted call
    have header : t ∉ s.live := allocated.live ▸ idle.header
    have alone : (s'.hold t).cont t = none := by simp [Blocks.cont, allocated.block]
    refine ⟨?_, ?_, fun n same => ?_, fun h member => ?_, allocated.freeing⟩
    · refine sound.hand counted idle allocated rfl rfl rfl rfl rfl rfl rfl (fun _ _ => rfl) ?_ alone (fun _ _ => rfl)
        ⟨allocated.address, allocated.ref, allocated.status⟩ ?_ ?_
      · simp [Blocks.datap, allocated.block]
      · rcases allocated.base with ⟨base, _⟩ | ⟨base, _⟩ <;> simp [allocated.frtnp, base]
      · exact allocated.base.imp_right fun both => ⟨congrArg Base.serial both.1, both.2⟩
    · simp [allocated.live]
    · cases same
      exact ⟨header, alone⟩
    · have other : h ≠ t := by
        rintro rfl
        exact header member
      simp [Blocks.cont, allocated.mblk h other]

theorem esballoc_made {base size : Nat} {frRtn : Option Frtn} (sound : Sound s)
    (call : Blocks.esballoc supply base size frRtn s = (r, s')) : Made s r (r.elim s' s'.hold) := by
  rw [Blocks.esballoc] at call
  split at call <;> rename_i null
  · cases call
    exact sound.refused sound.counted ⟨rfl, rfl, rfl, rfl, fun _ _ => rfl, fun _ _ => rfl⟩
  · split at call <;> rename_i got
    · cases call
      exact allocb_made sound got
    · rename_i t u
      cases call
      obtain ⟨counted, idle, allocated⟩ := allocb_allocated sound.counted got
      have own : u.buffers = s.buffers := allocb_small (by simp [fastbuf]) got
      have header : t ∉ s.live := allocated.live ▸ idle.header
      refine ⟨sound.hand counted idle allocated rfl rfl rfl rfl rfl rfl rfl (fun h other => ?_) ?_ ?_ (fun d other => ?_) ?_ ?_
        (.inr ⟨?_, ?_⟩), ?_, fun n same => ?_, fun h member => ?_, allocated.freeing⟩
      · simp [other]
      · simp [Blocks.datap, allocated.block]
      · simp [Blocks.cont, allocated.block]
      · simp [other]
      · simp [allocated.address, allocated.ref, allocated.status]
      · have given : frRtn ≠ none := fun none => null (.inr none)
        simp [Option.isSome_iff_ne_none, given]
      · simp [Base.serial, own]
      · simp [own]
      · simp [allocated.live]
      · cases same
        exact ⟨header, by simp [Blocks.cont, allocated.block]⟩
      · have other : h ≠ t := by
          rintro rfl
          exact header member
        simp [Blocks.cont, other, allocated.mblk h other]

theorem copyb_made (sound : Sound s)
    (call : Blocks.copyb supply bp s = (r, s')) : Made s r s' := by
  rw [Blocks.copyb] at call
  split at call <;> rename_i got
  · cases call
    exact allocb_made sound got
  · rename_i t u
    cases call
    obtain ⟨counted, idle, allocated⟩ := allocb_allocated sound.counted got
    have header : t ∉ s.live := allocated.live ▸ idle.header
    refine ⟨sound.hand counted idle allocated rfl rfl rfl rfl rfl rfl rfl (fun h other => ?_) ?_ ?_ (fun d other => ?_) ?_ ?_
      ?_, ?_, fun n same => ?_, fun h member => ?_, allocated.freeing⟩
    · simp [other]
    · simp [Blocks.datap, allocated.block]
    · simp [Blocks.cont, allocated.block]
    · simp [other]
    · simp [allocated.address, allocated.ref, allocated.status]
    · rcases allocated.base with ⟨base, _⟩ | ⟨base, _⟩ <;> simp [allocated.frtnp, base]
    · rcases allocated.base with ⟨base, same⟩ | ⟨base, more⟩
      · exact .inl ⟨by simp [base], same⟩
      · exact .inr ⟨by simp [base, Base.serial], more⟩
    · simp [allocated.live]
    · cases same
      exact ⟨header, by simp [Blocks.cont, allocated.block]⟩
    · have other : h ≠ t := by
        rintro rfl
        exact header member
      simp [Blocks.cont, other, allocated.mblk h other]

theorem dupbMacro_eq {answer : Bool} : Blocks.dupbMacro answer bp s = Blocks.dupb answer bp s := by
  rw [Blocks.dupbMacro]
  split <;> rename_i list
  · rfl
  · simp [Blocks.dupb, Blocks.takeMsgblock, list]

theorem dupb_made {answer : Bool} (sound : Sound s) (member : bp ∈ s.live)
    (call : Blocks.dupb answer bp s = (r, s')) : Made s r s' := by
  rw [Blocks.dupb] at call
  split at call <;> rename_i got
  · cases call
    exact sound.refused sound.counted ⟨rfl, rfl, rfl, rfl, fun _ _ => rfl, fun _ _ => rfl⟩
  · rename_i nbp u
    have pooled := sound.counted.takePool got
    cases call
    rw [setDblk_mblk, pooled.mblk]
    let final := ((u.setDblk (s.mblk bp).bDatap fun d => { d with dbRef := (d.dbRef + 1) % 256 }).setMblk nbp
      fun _ => { s.mblk bp with bCont := none }).hold nbp
    have live : final.live = insert nbp s.live := congrArg (insert nbp) pooled.live
    have old (h : Nat) (held : h ∈ s.live) : final.mblk h = s.mblk h := by
      have other : h ≠ nbp := by
        rintro rfl
        exact pooled.unused held
      simp [final, other, pooled.mblk]
    have new : final.mblk nbp = { s.mblk bp with bCont := none } := by simp [final]
    have datap (h : Nat) (held : h ∈ s.live) : final.datap h = s.datap h := by
      rw [Blocks.datap, old h held, Blocks.datap]
    have target : final.datap nbp = final.datap bp := by
      rw [datap bp member, Blocks.datap, new, Blocks.datap]
    have cont (h : Nat) (held : h ∈ s.live) : final.cont h = s.cont h := by
      rw [Blocks.cont, old h held, Blocks.cont]
    have alone : final.cont nbp = none := by rw [Blocks.cont, new]
    refine ⟨⟨?_, ?_, ?_⟩, live, fun n same => ?_, cont, pooled.freeing⟩
    · refine (sound.counted.congr datap).share member pooled target rfl rfl rfl live rfl rfl fun t => ?_
      rw [datap bp member]
      simp only [final, Blocks.hold, setMblk_dblk, setDblk_apply, pooled.dblk]
      by_cases here : t = (s.mblk bp).bDatap
      · rw [if_pos here, here, Blocks.datap, if_pos rfl]
      · rw [if_neg here, Blocks.datap, if_neg here]
    · refine sound.buffered.frame (fun d => ?_) pooled.buffers pooled.log fun d _ => ?_
      · rw [Blocks.referred, Blocks.referred, live, refs_insert pooled.unused, refs_congr datap, target, datap bp member]
        split <;> rename_i here
        · have positive : 0 < refs s.datap s.live d := refs_pos.mpr ⟨bp, member, here⟩
          omega
        · rfl
      · simp only [final, Blocks.hold, setMblk_dblk, setDblk_apply, pooled.dblk]
        split <;> rename_i here
        · rw [here]
          exact ⟨rfl, rfl⟩
        · exact ⟨rfl, rfl⟩
    · rw [live]
      exact (sound.threaded.congr cont).add alone
    · cases same
      exact ⟨pooled.unused, alone⟩

/-! ## Whole messages -/

theorem setCont_cont (s : Blocks) (bp : Nat) (cont : Option Nat) :
    (s.setCont bp cont).cont = update s.cont bp cont := by
  funext h
  rw [Blocks.cont, Blocks.setCont, setMblk_apply, update_apply]
  split
  · rfl
  · rfl

theorem setCont_datap (s : Blocks) (bp : Nat) (cont : Option Nat) : (s.setCont bp cont).datap = s.datap := by
  funext h
  rw [Blocks.datap, Blocks.setCont, setMblk_apply]
  split <;> rename_i here
  · rw [here, Blocks.datap]
  · rfl

theorem Sound.relink {cont : Option Nat} (sound : Sound s) (threaded : Threaded (update s.cont bp cont) s.live) :
    Sound (s.setCont bp cont) := by
  refine ⟨?_, ?_, ?_⟩
  · rw [setCont_datap]
    exact sound.counted.frame rfl rfl rfl rfl rfl rfl (by simp) fun _ _ => ⟨rfl, rfl, rfl⟩
  · rw [setCont_datap]
    exact sound.buffered.frame (fun _ => Iff.rfl) rfl rfl fun _ _ => ⟨rfl, rfl⟩
  · rw [setCont_cont]
    exact threaded


/-- `rest` finishes the copy of a message, or it has `freemsg` free what there is of it. -/
theorem rest_sound {one : Nat → Nat → Blocks → Option Nat × Blocks} {head : Nat}
    (made : ∀ {k bp r} {s s' : Blocks}, Sound s → bp ∈ s.live → one k bp s = (r, s') → Made s r s') :
    ∀ {fuel k nbp bp : Nat} {s s' : Blocks}, Sound s → bp ∈ s.live → nbp ∈ s.live → head ∈ s.live →
      Leads s.cont s.live head → s.freeing = none → Blocks.rest one head fuel k nbp bp s = some s' →
      Sound s' ∧ (s'.freeing = none ∨ s'.freeing = some head ∧ head ∈ s'.live ∧ Leads s'.cont s'.live head) := by
  intro fuel
  induction fuel with
  | zero =>
    intro k nbp bp s s' sound _ _ _ _ idle call
    rw [Blocks.rest] at call
    split at call
    · cases call
      exact ⟨sound, .inl idle⟩
    · simp at call
  | succ fuel ih =>
    intro k nbp bp s s' sound source last first leads idle call
    rw [Blocks.rest] at call
    split at call <;> rename_i link
    · cases call
      exact ⟨sound, .inl idle⟩
    · rename_i next
      have inside : next ∈ s.live := sound.threaded.closed source link
      simp only at call
      split at call <;> rename_i got
      · rename_i u
        cases call
        have made := made sound inside got
        have same : u.live = s.live := made.live
        have relinked := made.sound.relink (made.sound.threaded.unlink (x := nbp))
        refine ⟨⟨relinked.counted.frame rfl rfl rfl rfl rfl rfl (by simp) fun _ _ => ⟨rfl, rfl, rfl⟩,
          relinked.buffered.frame (fun _ => Iff.rfl) rfl rfl fun _ _ => ⟨rfl, rfl⟩, relinked.threaded⟩,
          .inr ⟨rfl, same ▸ first, fun k held differ link => ?_⟩⟩
        have link : update u.cont nbp none k = some head := setCont_cont u nbp none ▸ link
        rw [update_apply] at link
        split at link
        · simp at link
        · have held : k ∈ s.live := same ▸ held
          exact leads k held differ (made.cont k held ▸ link)
      · rename_i new u
        have made := made sound inside got
        have live : u.live = insert new s.live := made.live
        obtain ⟨unused, alone⟩ := made.unused new rfl
        have grows {h : Nat} (held : h ∈ s.live) : h ∈ u.live := live ▸ Finset.mem_insert_of_mem held
        have old {k m : Nat} (held : k ∈ u.live) (link : u.cont k = some m) : k ∈ s.live ∧ s.cont k = some m := by
          have inside : k ∈ s.live := by
            rw [live] at held
            refine (Finset.mem_insert.mp held).resolve_left ?_
            rintro rfl
            simp [alone] at link
          exact ⟨inside, made.cont k inside ▸ link⟩
        have newLeads : Leads u.cont u.live new := by
          intro k held _ link
          obtain ⟨inside, link⟩ := old held link
          exact unused (sound.threaded.closed inside link)
        have apart : ¬ Passes u.cont new nbp := fun passes => unused (passes.stops alone ▸ last)
        have linked : Sound (u.setCont nbp (some new)) :=
          made.sound.relink (made.sound.threaded.link (grows last) (live ▸ Finset.mem_insert_self _ _) newLeads apart)
        have headLeads : Leads (u.setCont nbp (some new)).cont (u.setCont nbp (some new)).live head := by
          intro k held differ link
          rw [setCont_cont, update_apply] at link
          split at link
          · exact unused (Option.some.inj link ▸ first)
          · obtain ⟨inside, link⟩ := old held link
            exact leads k inside differ link
        exact ih linked (grows inside) (live ▸ Finset.mem_insert_self _ _) (grows first) headLeads (made.freeing.trans idle) call

/-- What holds between calls, and between the rounds of `freemsg`. -/
structure Sane (s : Blocks) : Prop extends Sound s where
  pending : ∀ bp, s.freeing = some bp → bp ∈ s.live ∧ Leads s.cont s.live bp

theorem Sound.sane (sound : Sound s) (idle : s.freeing = none) : Sane s := ⟨sound, by simp [idle]⟩

theorem Made.leads {new : Nat} (made : Made s (some new) s') (sound : Sound s) : Leads s'.cont s'.live new := by
  obtain ⟨unused, alone⟩ := made.unused new rfl
  intro k held _ link
  have live : s'.live = insert new s.live := made.live
  have inside : k ∈ s.live := by
    rw [live] at held
    refine (Finset.mem_insert.mp held).resolve_left ?_
    rintro rfl
    simp [alone] at link
  exact unused (sound.threaded.closed inside (made.cont k inside ▸ link))

/-- `dupmsg` and `copymsg`. -/
theorem message_sane {one : Nat → Nat → Blocks → Option Nat × Blocks} {fuel : Nat}
    (made : ∀ {k bp r} {s s' : Blocks}, Sound s → bp ∈ s.live → one k bp s = (r, s') → Made s r s')
    (sound : Sound s) (member : bp ∈ s.live) (idle : s.freeing = none)
    (call : (match one 0 bp s with
      | (none, s) => some s
      | (some nbp, s) => Blocks.rest one nbp fuel 1 nbp bp s) = some s') : Sane s' := by
  split at call <;> rename_i got
  · cases call
    have made := made sound member got
    exact made.sound.sane (made.freeing.trans idle)
  · rename_i nbp u
    have first := made sound member got
    have live : u.live = insert nbp s.live := first.live
    have inside : nbp ∈ u.live := live ▸ Finset.mem_insert_self _ _
    obtain ⟨after, none | ⟨freeing, held, leads⟩⟩ := rest_sound made first.sound (live ▸ Finset.mem_insert_of_mem member)
      inside inside (first.leads sound) (first.freeing.trans idle) call
    · exact after.sane none
    · refine ⟨after, fun bp pending => ?_⟩
      rw [freeing] at pending
      exact Option.some.inj pending ▸ ⟨held, leads⟩

/-! ## Pulling up -/

/-- The blocks while the loop of `pullupmsg` is at `stop`, as if `mp` were linked to it already. -/
structure Pulling (points : Nat → Nat) (moving coming loose : Option Nat) (mp : Nat) (stop : Option Nat) (s : Blocks) :
    Prop where
  counted : Counted points moving coming s
  buffered : Buffered (s.referred points) loose s
  threaded : Threaded (update s.cont mp stop) s.live
  member : mp ∈ s.live
  agrees : ∀ h ∈ s.live, h ≠ mp → s.datap h = points h
  apart : ∀ h ∈ s.live, h ≠ mp → some h ≠ moving ∧ some h ≠ coming ∧ some (points h) ≠ coming
  few : ∀ d, refs points s.live d ≤ 255

/-- What the loop leaves alone. -/
structure Kept (s s' : Blocks) : Prop where
  cont : s'.cont = s.cont
  datap : s'.datap = s.datap
  triplets : s'.triplets = s.triplets
  live : s'.live ⊆ s.live
  freeing : s'.freeing = s.freeing
  address : ∀ t, (s'.dblk t).dbMsgaddr = (s.dblk t).dbMsgaddr

theorem Kept.refl (s : Blocks) : Kept s s := ⟨rfl, rfl, rfl, Finset.Subset.refl _, rfl, fun _ => rfl⟩

theorem Kept.trans {u : Blocks} (first : Kept s s') (second : Kept s' u) : Kept s u :=
  ⟨second.cont.trans first.cont, second.datap.trans first.datap, second.triplets.trans first.triplets,
    second.live.trans first.live, second.freeing.trans first.freeing, fun t => (second.address t).trans (first.address t)⟩

theorem advance_kept (s : Blocks) (bp n : Nat) : Kept s (s.advance bp n) := by
  refine ⟨?_, ?_, rfl, Finset.Subset.refl _, rfl, fun _ => rfl⟩
  · funext h
    rw [Blocks.cont, Blocks.advance, setMblk_apply]
    split <;> rename_i here
    · rw [here, Blocks.cont]
    · rfl
  · funext h
    rw [Blocks.datap, Blocks.advance, setMblk_apply]
    split <;> rename_i here
    · rw [here, Blocks.datap]
    · rfl

theorem freeb_kept (s : Blocks) (bp : Nat) : Kept s (Blocks.freeb bp s) := by
  obtain ⟨mblk, -, triplets, -, -, freeing, live⟩ := freeb_frame s bp
  refine ⟨?_, ?_, triplets, ?_, freeing, fun t => ?_⟩
  · funext h
    rw [Blocks.cont, mblk, Blocks.cont]
  · funext h
    rw [Blocks.datap, mblk, Blocks.datap]
  · rw [live]
    exact Finset.erase_subset _ _
  · rw [freeb_dblk]

section
variable {mp : Nat} {stop : Option Nat} {fuel len copied : Nat}

theorem Pulling.advance (pulling : Pulling points moving coming loose mp stop s) (n : Nat) :
    Pulling points moving coming loose mp stop (s.advance bp n) := by
  have kept := advance_kept s bp n
  refine ⟨?_, ?_, ?_, pulling.member, ?_, pulling.apart, pulling.few⟩
  · have counted := pulling.counted
    exact ⟨counted.used, counted.apart, counted.known, counted.data, counted.address, counted.origin, counted.count,
      counted.header, counted.datablk, counted.mdbNodup, counted.mdbFree, counted.msgNodup, counted.msgFree⟩
  · exact pulling.buffered.frame (fun _ => Iff.rfl) rfl rfl fun _ _ => ⟨rfl, rfl⟩
  · rw [kept.cont]
    exact pulling.threaded
  · rw [kept.datap]
    exact pulling.agrees

/-- The block after `mp` goes. -/
theorem Pulling.free (pulling : Pulling points moving coming loose mp (some bp) s) :
    Pulling points moving coming loose mp (s.cont bp) (Blocks.freeb bp s) := by
  obtain ⟨-, -, -, -, -, -, live⟩ := freeb_frame s bp
  have kept := freeb_kept s bp
  have link : update s.cont mp (some bp) mp = some bp := update_self _ _ _
  have inside : bp ∈ s.live := pulling.threaded.closed pulling.member link
  obtain ⟨threaded, differ⟩ := pulling.threaded.skip pulling.member link
  rw [update_idem, update_of_ne differ.symm] at threaded
  obtain ⟨still, own, other⟩ := pulling.apart bp inside differ.symm
  have target : (s.mblk bp).bDatap = points bp := pulling.agrees bp inside differ.symm
  refine ⟨?_, ?_, ?_, ?_, fun h held => ?_, fun h held => ?_, fun d => ?_⟩
  · exact pulling.counted.freeb inside target (pulling.few _) still own other
  · exact pulling.buffered.freeb pulling.counted inside target (pulling.few _)
  · rw [kept.cont, live]
    exact threaded
  · rw [live]
    exact Finset.mem_erase.mpr ⟨differ, pulling.member⟩
  · rw [kept.datap]
    exact pulling.agrees h (kept.live held)
  · exact pulling.apart h (kept.live held)
  · rw [live]
    have fewer : refs points s.live d = refs points (s.live.erase bp) d + if points bp = d then 1 else 0 :=
      refs_erase inside
    have few := pulling.few d
    omega

theorem pullLoop_pulling : ∀ {fuel len copied : Nat} {bp stop : Option Nat} {s s' : Blocks},
    Pulling points moving coming loose mp bp s → Blocks.pullLoop mp fuel len bp s = some (copied, stop, s') →
      Pulling points moving coming loose mp stop s' ∧ Kept s s' := by
  intro fuel
  induction fuel with
  | zero =>
    intro len copied bp stop s s' pulling call
    cases len with
    | zero =>
      obtain ⟨-, rfl, rfl⟩ : 0 = copied ∧ bp = stop ∧ s = s' := by simpa using call
      exact ⟨pulling, .refl _⟩
    | succ len =>
      cases bp with
      | none =>
        obtain ⟨-, rfl, rfl⟩ : 0 = copied ∧ none = stop ∧ s = s' := by simpa using call
        exact ⟨pulling, .refl _⟩
      | some bp => simp at call
  | succ fuel ih =>
    intro len copied bp stop s s' pulling call
    cases len with
    | zero =>
      obtain ⟨-, rfl, rfl⟩ : 0 = copied ∧ bp = stop ∧ s = s' := by simpa using call
      exact ⟨pulling, .refl _⟩
    | succ len =>
      cases bp with
      | none =>
        obtain ⟨-, rfl, rfl⟩ : 0 = copied ∧ none = stop ∧ s = s' := by simpa using call
        exact ⟨pulling, .refl _⟩
      | some bp =>
        have differ : bp ≠ mp := (pulling.threaded.skip pulling.member (update_self _ _ _)).2.symm
        rw [Blocks.pullLoop] at call
        have advanced := (@Pulling.advance _ _ _ _ _ bp _ _) pulling (min (s.size bp) (len + 1))
        have kept := advance_kept s bp (min (s.size bp) (len + 1))
        split at call
        · obtain ⟨-, rfl, rfl⟩ := mk.inj (Option.some.inj call) |>.imp_right mk.inj
          exact ⟨advanced, kept⟩
        · obtain ⟨⟨copied', stop', u⟩, step, same⟩ := map_eq_some_iff.mp call
          obtain ⟨-, rfl, rfl⟩ := mk.inj same |>.imp_right mk.inj
          obtain ⟨after, kept'⟩ := ih advanced.free step
          exact ⟨after, (kept.trans (freeb_kept _ bp)).trans kept'⟩

/-- The first round takes all of `mp`. -/
theorem pullLoop_first {stop : Option Nat} (ordered : (s.mblk mp).bRptr ≤ (s.mblk mp).bWptr)
    (enough : s.size mp ≤ len) (some : 0 < len) (call : Blocks.pullLoop mp fuel len (.some mp) s = .some (copied, stop, s')) :
    ∃ fuel copied', Blocks.pullLoop mp fuel (len - s.size mp) (s.cont mp) (s.advance mp (s.size mp)) = .some (copied', stop, s') := by
  obtain ⟨len, rfl⟩ : ∃ n, len = n + 1 := ⟨len - 1, by omega⟩
  cases fuel with
  | zero => simp at call
  | succ fuel =>
    rw [Blocks.pullLoop, Nat.min_eq_left enough] at call
    have same : ((s.advance mp (s.size mp)).mblk mp).bWptr = ((s.advance mp (s.size mp)).mblk mp).bRptr := by
      simp [Blocks.advance, Blocks.size]
      omega
    simp only [same, ne_eq, not_true_eq_false, if_false] at call
    obtain ⟨⟨copied', stop', u⟩, step, same⟩ := map_eq_some_iff.mp call
    obtain ⟨-, rfl, rfl⟩ := mk.inj same |>.imp_right mk.inj
    refine ⟨fuel, copied', ?_⟩
    rw [← step]
    congr 1
    simp [Blocks.advance, Blocks.cont]

theorem pullSize_enough {n : Nat} {len : Int} (size : s.pullSize fuel mp len = some (.ok n)) : s.size mp ≤ n := by
  have whole {count : Nat} (sum : s.xmsgsize fuel mp = some count) : s.size mp ≤ count := by
    cases fuel with
    | zero => simp [Blocks.xmsgsize, Blocks.sizeFrom] at sum
    | succ fuel =>
      simp only [Blocks.xmsgsize, Blocks.sizeFrom, ne_eq, not_true_eq_false, if_false, map_eq_some_iff] at sum
      obtain ⟨later, -, rfl⟩ := sum
      omega
  simp only [Blocks.pullSize] at size
  split at size
  · split at size
    · split at size
      · simp at size
      · simp only [Option.some.injEq, Except.ok.injEq] at size
        omega
    · obtain ⟨count, sum, same⟩ := map_eq_some_iff.mp size
      exact Except.ok.inj same ▸ whole sum
  · split at size
    · split at size
      · simp at size
      · simp only [Option.some.injEq, Except.ok.injEq] at size
        omega
    · obtain ⟨count, sum, same⟩ := map_eq_some_iff.mp size
      split at same
      · simp at same
      · cases same
        omega

/-- There is nothing to pull up, and the data block is shared. -/
def Hollow (s : Blocks) (fuel mp : Nat) (len : Int) : Prop :=
  1 < (s.dblk (s.datap mp)).dbRef ∧ s.size mp = 0 ∧
    if len = -1 ∧ s.cont mp ≠ none then s.xmsgsize fuel mp = some 0 else s.strAligned mp = false ∧ len ≤ 0

theorem pullSize_hollow {len : Int} (size : s.pullSize fuel mp len = some (.ok 0))
    (shared : 1 < (s.dblk (s.datap mp)).dbRef) : Hollow s fuel mp len := by
  refine ⟨shared, Nat.le_zero.mp (pullSize_enough size), ?_⟩
  simp only [Blocks.pullSize] at size
  split at size <;> rename_i all
  · split at size <;> rename_i alone
    · rw [if_neg fun both => both.2 alone]
      split at size <;> rename_i aligned
      · simp at size
      · exact ⟨by simpa using aligned, by omega⟩
    · rw [if_pos ⟨all, alone⟩]
      obtain ⟨count, sum, same⟩ := map_eq_some_iff.mp size
      rw [sum, Except.ok.inj same]
  · rw [if_neg fun both => all both.1]
    split at size <;> rename_i within
    · split at size <;> rename_i aligned
      · simp at size
      · simp only [Option.some.injEq, Except.ok.injEq] at size
        exact ⟨by simpa using aligned, by omega⟩
    · obtain ⟨count, sum, same⟩ := map_eq_some_iff.mp size
      split at same
      · simp at same
      · have := Except.ok.inj same
        omega

/-- A shared data block: the loop starts with `mp` counted at the new one. -/
theorem Sound.depart {newmp type : Nat} {u : Blocks} (sound : Sound s) (few : Few s) (member : mp ∈ s.live)
    (shared : 1 < (s.dblk (s.datap mp)).dbRef) (counted : Counted s.datap none (some newmp) u)
    (idle : Idle s.datap newmp u) (allocated : Allocated s newmp u) :
    Pulling (update s.datap mp newmp) (some mp) (some newmp) none mp (s.cont mp)
      (Blocks.lessRef (s.datap mp) (u.setDblk newmp fun d => { d with dbType := type })) := by
  have header : newmp ∉ s.live := allocated.live ▸ idle.header
  have unused : refs s.datap s.live newmp = 0 := allocated.live ▸ idle.data
  have other {h : Nat} (held : h ∈ s.live) : h ≠ newmp := by
    rintro rfl
    exact header held
  have away {h : Nat} (held : h ∈ s.live) : s.datap h ≠ newmp := refs_zero.mp unused h held
  have many : 1 < refs s.datap s.live (s.datap mp) := by
    have count := sound.counted.count member
    have few := few (s.datap mp)
    omega
  have moved (d : Nat) : refs (update s.datap mp newmp) s.live d + (if s.datap mp = d then 1 else 0) =
      refs s.datap s.live d + if newmp = d then 1 else 0 := refs_update member
  have typed : Counted s.datap none (some newmp) (u.setDblk newmp fun d => { d with dbType := type }) := by
    refine counted.frame rfl rfl rfl rfl rfl rfl (fun k same => Option.some.inj same ▸ idle) fun k settled => ?_
    have differ : k ≠ newmp := fun same => settled (congrArg some same)
    simp [differ]
  refine ⟨?_, ?_, ?_, ?_, fun h held differ => ?_, fun h held differ => ?_, fun d => ?_⟩
  · refine typed.depart ⟨idle.triplet, idle.header, idle.data⟩ (allocated.live ▸ member) ?_ ?_ ?_ ?_
    · simp [allocated.address]
    · simp [allocated.ref]
    · exact allocated.live ▸ many
    · exact allocated.live ▸ few (s.datap mp)
  · have acquired : Buffered (fun d => 0 < refs (update s.datap mp newmp) s.live d) none
        (u.setDblk newmp fun d => { d with dbType := type }) := by
      refine sound.buffered.acquire (Nat.not_lt_of_le (Nat.le_of_eq unused)) (fun d => ?_) allocated.log (fun d differ => ?_)
        ?_ ?_
      · have moved := moved d
        rw [Blocks.referred]
        by_cases new : d = newmp
        · rw [new, if_pos rfl, if_neg (away member)] at moved
          rw [new]
          simp only [or_true, iff_true]
          omega
        · rw [if_neg (Ne.symm new)] at moved
          simp only [new, or_false]
          split at moved <;> rename_i here
          · rw [← here] at moved ⊢
            omega
          · omega
      · simp [differ, allocated.dblk d differ]
      · rcases allocated.base with ⟨base, _⟩ | ⟨base, _⟩ <;> simp [allocated.frtnp, base]
      · rcases allocated.base with ⟨base, same⟩ | ⟨base, more⟩
        · exact .inl ⟨by simp [base], same⟩
        · exact .inr ⟨by simp [base, Base.serial], more⟩
    refine acquired.frame (fun d => ?_) rfl rfl fun d _ => ?_
    · exact iff_of_eq (congrArg (0 < refs _ · d) allocated.live)
    · simp only [Blocks.lessRef, setDblk_apply]
      split <;> simp [*]
  · change Threaded _ u.live
    rw [allocated.live]
    refine sound.threaded.congr fun h held => ?_
    rw [update_apply]
    split <;> rename_i here
    · rw [here]
    · simp [Blocks.cont, allocated.mblk h (other held)]
  · exact allocated.live ▸ member
  · have held : h ∈ s.live := allocated.live ▸ held
    rw [update_of_ne differ]
    simp [Blocks.datap, allocated.mblk h (other held)]
  · have held : h ∈ s.live := allocated.live ▸ held
    rw [update_of_ne differ]
    simp [differ, other held, away held]
  · have moved := moved d
    have few := few d
    change refs _ u.live d ≤ 255
    rw [allocated.live]
    by_cases new : newmp = d
    · rw [← new] at moved ⊢
      rw [if_pos rfl, unused] at moved
      omega
    · rw [if_neg new] at moved
      omega

/-- A shared data block: the loop is over and `mp` is at the new one. -/
theorem Pulling.arrive {dbp newmp : Nat} (pulling : Pulling points (some mp) (some newmp) none mp stop s)
    (target : points mp = newmp) (unused : newmp ∉ s.live) (address : (s.dblk newmp).dbMsgaddr = newmp)
    (named : (s.dblk dbp).dbMsgaddr = mp ↔ mp ∈ s.triplets) : Sound (Blocks.crossConnect mp dbp newmp copied stop s) := by
  obtain ⟨-, -, -, live, -, -, buffers, log, -, mblk⟩ := (@crossConnect_frame s mp newmp) dbp copied stop
  have differ : mp ≠ newmp := by
    rintro rfl
    exact unused pulling.member
  have only (h : Nat) (held : h ∈ s.live) (same : points h = newmp) : h = mp := by
    by_contra other
    exact (pulling.apart h held other).2.2 (congrArg some same)
  have agrees (h : Nat) (held : h ∈ (Blocks.crossConnect mp dbp newmp copied stop s).live) :
      (Blocks.crossConnect mp dbp newmp copied stop s).datap h = points h := by
    rw [live] at held
    rw [Blocks.datap, mblk, update_apply]
    split <;> rename_i here
    · rw [here, target]
    · exact pulling.agrees h held here
  refine ⟨?_, ?_, ?_⟩
  · exact (pulling.counted.arrive pulling.member target only unused address named).congr agrees
  · refine pulling.buffered.frame (fun d => ?_) buffers log fun d _ => ?_
    · rw [Blocks.referred, Blocks.referred, refs_congr agrees, live]
    · rw [crossConnect_dblk dbp copied stop differ]
      exact ⟨rfl, rfl⟩
  · rw [live]
    refine pulling.threaded.congr fun h held => ?_
    rw [Blocks.cont, mblk, update_apply, update_apply]
    split
    · rfl
    · rfl

/-! What the end of `pullupmsg` on a data block of its own leaves of the blocks. -/

theorem replaceBuffer_mblk {dbp : Nat} {newbuf : Base} (h : Nat) :
    (Blocks.replaceBuffer mp dbp len copied newbuf stop s).mblk h = if h = mp then ⟨stop, 0, copied, s.datap mp⟩ else s.mblk h := by
  simp only [Blocks.replaceBuffer]
  split <;> by_cases here : h = mp <;> simp [here, Blocks.datap]

theorem replaceBuffer_other {dbp d : Nat} {newbuf : Base} (differ : d ≠ dbp) :
    (Blocks.replaceBuffer mp dbp len copied newbuf stop s).dblk d = s.dblk d := by
  simp only [Blocks.replaceBuffer]
  split <;> simp [differ]

theorem replaceBuffer_base {dbp len copied : Nat} {newbuf : Base} :
    ((Blocks.replaceBuffer mp dbp len copied newbuf stop s).dblk dbp).dbBase = newbuf ∧
      ((Blocks.replaceBuffer mp dbp len copied newbuf stop s).dblk dbp).dbType = (s.dblk dbp).dbType := by
  simp only [Blocks.replaceBuffer]
  split <;> simp

theorem replaceBuffer_frame {dbp len copied : Nat} {newbuf : Base} :
    let t := Blocks.replaceBuffer mp dbp len copied newbuf stop s
    t.fresh = s.fresh ∧ t.triplets = s.triplets ∧ t.pool = s.pool ∧ t.live = s.live ∧ t.mdbfreelist = s.mdbfreelist ∧
      t.msgfreelist = s.msgfreelist ∧ t.buffers = s.buffers := by
  simp only [Blocks.replaceBuffer]
  refine ⟨?_, ?_, ?_, ?_, ?_, ?_, ?_⟩ <;> split <;> rfl

/-- A data block of one reference: its buffer is the loose one. -/
theorem Pulling.replace {n : Nat} (pulling : Pulling s.datap none none (some n) mp stop s) :
    Sound (Blocks.replaceBuffer mp (s.datap mp) len copied (.kmem n) stop s) := by
  let final := Blocks.replaceBuffer mp (s.datap mp) len copied (.kmem n) stop s
  have mblk (h : Nat) : final.mblk h = if h = mp then ⟨stop, 0, copied, s.datap mp⟩ else s.mblk h := replaceBuffer_mblk h
  have other (d : Nat) (differ : d ≠ s.datap mp) : final.dblk d = s.dblk d := replaceBuffer_other differ
  have base : (final.dblk (s.datap mp)).dbBase = .kmem n := replaceBuffer_base.1
  have mine : (final.dblk (s.datap mp)).dbMsgaddr = (s.dblk (s.datap mp)).dbMsgaddr ∧
      (final.dblk (s.datap mp)).dbRef = (s.dblk (s.datap mp)).dbRef ∧
      (final.dblk (s.datap mp)).dbIswhat = (s.dblk (s.datap mp)).dbIswhat := by
    simp only [final, Blocks.replaceBuffer]
    split <;> simp
  have used : s.referred s.datap (s.datap mp) := refs_pos.mpr ⟨mp, pulling.member, rfl⟩
  have frtnp : (final.dblk (s.datap mp)).dbFrtnp = none := by
    have fit := pulling.buffered.fit used
    simp only [final, Blocks.replaceBuffer]
    split <;> rename_i own
    · simp
    · have own : (s.dblk (s.datap mp)).dbBase = .own := by simpa using own
      rw [own, Base.isExternal, Option.isSome_eq_false_iff, Option.isNone_iff_eq_none] at fit
      simpa using fit
  have log : final.log = (s.dblk (s.datap mp)).release ++ s.log := by
    simp only [final, Blocks.replaceBuffer]
    split <;> rfl
  obtain ⟨fresh, triplets, pool, live, mdb, msg, buffers⟩ := (@replaceBuffer_frame s mp stop (s.datap mp) len copied (.kmem n))
  have datap : final.datap = s.datap := by
    funext h
    rw [Blocks.datap, mblk]
    split <;> rename_i here
    · rw [here]
    · rfl
  refine ⟨?_, ?_, ?_⟩
  · rw [datap]
    refine pulling.counted.frame fresh triplets pool live mdb msg (by simp) fun t _ => ?_
    by_cases here : t = s.datap mp
    · rw [here]
      exact mine
    · rw [other t here]
      exact ⟨rfl, rfl, rfl⟩
  · have swapped := pulling.buffered.swap used buffers log other frtnp base
    refine swapped.frame (fun d => ?_) rfl rfl fun _ _ => ⟨rfl, rfl⟩
    rw [Blocks.referred, Blocks.referred, live, datap]
  · rw [live]
    refine pulling.threaded.congr fun h held => ?_
    rw [Blocks.cont, mblk, update_apply]
    split
    · rfl
    · rfl

/-- The whole loop of `pullupmsg`, from `mp` on. -/
theorem pullLoop_whole {u : Blocks} (pulling : Pulling points moving coming loose mp (s.cont mp) u)
    (same : u.mblk mp = s.mblk mp) (ordered : (s.mblk mp).bRptr ≤ (s.mblk mp).bWptr) (enough : s.size mp ≤ len)
    (positive : 0 < len) (call : Blocks.pullLoop mp fuel len (some mp) u = some (copied, stop, s')) :
    Pulling points moving coming loose mp stop s' ∧ Kept u s' := by
  have size : u.size mp = s.size mp := by rw [Blocks.size, same, Blocks.size]
  have link : u.cont mp = s.cont mp := by rw [Blocks.cont, same, Blocks.cont]
  obtain ⟨fuel', copied', rounds⟩ := pullLoop_first (same ▸ ordered) (size ▸ enough) positive call
  rw [link] at rounds
  obtain ⟨after, kept⟩ := pullLoop_pulling ((@Pulling.advance _ _ _ _ _ mp _ _) pulling (u.size mp)) rounds
  exact ⟨after, (advance_kept _ _ _).trans kept⟩

theorem start_mblk {newmp type : Nat} {u : Blocks} (allocated : Allocated s newmp u) (idle : Idle s.datap newmp u)
    (member : mp ∈ s.live) :
    (Blocks.lessRef (s.datap mp) (u.setDblk newmp fun d => { d with dbType := type })).mblk mp = s.mblk mp := by
  have differ : mp ≠ newmp := by
    rintro rfl
    exact idle.header (allocated.live ▸ member)
  exact allocated.mblk mp differ

theorem Sound.loosen (sound : Sound s) (few : Few s) (member : mp ∈ s.live) :
    Pulling s.datap none none (some s.buffers) mp (s.cont mp) { s with buffers := s.buffers + 1 } := by
  refine ⟨?_, sound.buffered.loosen rfl rfl rfl, ?_, member, fun _ _ _ => rfl, by simp, few⟩
  · exact sound.counted.frame rfl rfl rfl rfl rfl rfl (by simp) fun _ _ => ⟨rfl, rfl, rfl⟩
  · refine sound.threaded.congr fun h _ => ?_
    rw [update_apply]
    split <;> rename_i here
    · rw [here]
    · rfl

theorem pullupmsg_sound {supply : Blocks.Supply} {len : Int} (sound : Sound s) (few : Few s)
    (member : mp ∈ s.live) (ordered : (s.mblk mp).bRptr ≤ (s.mblk mp).bWptr) (full : ¬ Hollow s fuel mp len)
    (call : Blocks.pullupmsg supply fuel mp len s = some s') : Sound s' ∧ s'.freeing = s.freeing := by
  rw [Blocks.pullupmsg] at call
  split at call <;> rename_i size
  · simp at call
  · cases call
    exact ⟨sound, rfl⟩
  · rename_i n
    have enough := pullSize_enough size
    simp only at call
    split at call <;> rename_i shared
    · have positive : 0 < n := by
        rw [Nat.pos_iff_ne_zero]
        rintro rfl
        exact full (pullSize_hollow size shared)
      split at call <;> rename_i got
      · cases call
        have made := allocb_made sound got
        exact ⟨made.sound, made.freeing⟩
      · rename_i newmp u
        obtain ⟨counted, idle, allocated⟩ := allocb_allocated sound.counted got
        obtain ⟨⟨copied, stop, v⟩, loop, rfl⟩ := map_eq_some_iff.mp call
        have pulling := (@Sound.depart s mp newmp (s.dblk (s.datap mp)).dbType u) sound few member shared counted idle allocated
        obtain ⟨after, kept⟩ := pullLoop_whole pulling (start_mblk allocated idle member) ordered enough positive loop
        have held : mp ∈ u.live := allocated.live ▸ member
        have away : s.datap mp ≠ newmp := idle.away held
        obtain ⟨-, -, -, -, -, -, -, -, freeing, -⟩ := (@crossConnect_frame v mp newmp) (s.datap mp) copied stop
        refine ⟨after.arrive (update_self _ _ _) (fun inside => idle.header (kept.live inside)) ?_ ?_, ?_⟩
        · rw [kept.address]
          simp [away.symm, allocated.address]
        · have same : ((Blocks.lessRef (s.datap mp) (u.setDblk newmp fun d =>
              { d with dbType := (s.dblk (s.datap mp)).dbType })).dblk (s.datap mp)).dbMsgaddr =
              (u.dblk (s.datap mp)).dbMsgaddr := by simp [away]
          rw [kept.address, kept.triplets]
          change (Blocks.dblk _ (s.datap mp)).dbMsgaddr = mp ↔ mp ∈ u.triplets
          rw [same]
          exact counted.address held (by simp)
        · exact freeing.trans (kept.freeing.trans allocated.freeing)
    · split at call <;> rename_i got
      · cases call
        exact ⟨sound, rfl⟩
      · rename_i newbuf u
        simp only [Blocks.kmemAlloc, Option.ite_none_left_eq_some, Option.ite_none_right_eq_some] at got
        obtain ⟨positive, -, pair⟩ := got
        cases pair
        obtain ⟨⟨copied, stop, v⟩, loop, rfl⟩ := map_eq_some_iff.mp call
        obtain ⟨after, kept⟩ := pullLoop_whole (sound.loosen few member) rfl ordered enough (Nat.pos_of_ne_zero positive) loop
        have datap : v.datap = s.datap := kept.datap
        have freeing : (Blocks.replaceBuffer mp (s.datap mp) n copied (.kmem s.buffers) stop v).freeing = v.freeing := by
          simp only [Blocks.replaceBuffer]
          split <;> rfl
        have replaced : Sound (Blocks.replaceBuffer mp (s.datap mp) n copied (.kmem s.buffers) stop v) := by
          rw [← datap] at after ⊢
          exact after.replace
        exact ⟨replaced, freeing.trans kept.freeing⟩

end

end

end Svr4.StreamBlocks
