import Svr4.Kernel.Streams.BlockRuns

/-! The life of message blocks, data blocks and buffers. -/

namespace Svr4.StreamBlocks

open Option (some)

/-- The calls, what their callers do to blocks in use, and the next round of `freemsg`. -/
inductive Event where
  | allocb (supply : Blocks.Supply) (size : Int)
  | esballoc (supply : Blocks.Supply) (base size : Nat) (frRtn : Option Frtn)
  | dupb (answer : Bool) (bp : Nat)
  | dupmsg (answers : Nat → Bool) (fuel bp : Nat)
  | copyb (supply : Blocks.Supply) (bp : Nat)
  | copymsg (supplies : Nat → Blocks.Supply) (fuel bp : Nat)
  | pullupmsg (supply : Blocks.Supply) (fuel mp : Nat) (len : Int)
  | freeb (bp : Nat)
  | freemsg (bp : Nat)
  | round
  | linkb (fuel mp bp : Nat)
  | unlinkb (bp : Nat)
  | move (bp rptr wptr : Nat)
  | retype (bp type : Nat)

def handOut : Option Nat × Blocks → Blocks
  | (none, s) => s
  | (some bp, s) => s.hold bp

def apply : Event → Blocks → Option Blocks
  | .allocb supply size, s => some (handOut (Blocks.allocb supply size s))
  | .esballoc supply base size frRtn, s => some (handOut (Blocks.esballoc supply base size frRtn s))
  | .dupb answer bp, s => some (Blocks.dupb answer bp s).2
  | .dupmsg answers fuel bp, s => Blocks.dupmsg answers fuel bp s
  | .copyb supply bp, s => some (Blocks.copyb supply bp s).2
  | .copymsg supplies fuel bp, s => Blocks.copymsg supplies fuel bp s
  | .pullupmsg supply fuel mp len, s => Blocks.pullupmsg supply fuel mp len s
  | .freeb bp, s => some (Blocks.freeb bp s)
  | .freemsg bp, s => some { s with freeing := some bp }
  | .round, s => s.freeing.map (Blocks.freemsgRound · s)
  | .linkb fuel mp bp, s => Blocks.linkb fuel mp bp s
  | .unlinkb bp, s => some (Blocks.unlinkb bp s)
  | .move bp rptr wptr, s => some (s.setMblk bp fun m => { m with bRptr := rptr, bWptr := wptr })
  | .retype bp type, s => some (s.setDblk (s.datap bp) fun d => { d with dbType := type })

/-- The blocks that the call names are in use. A block that is freed is the first of its message,
and messages that are linked have no block in common. -/
def Given (s : Blocks) : Event → Prop
  | .allocb _ _ | .esballoc _ _ _ _ => True
  | .dupb _ bp | .dupmsg _ _ bp | .copyb _ bp | .copymsg _ _ bp | .unlinkb bp | .retype bp _ => bp ∈ s.live
  | .pullupmsg _ _ mp _ => mp ∈ s.live ∧ (s.mblk mp).bRptr ≤ (s.mblk mp).bWptr
  | .freeb bp | .freemsg bp => bp ∈ s.live ∧ Leads s.cont s.live bp
  | .round => True
  | .linkb _ mp bp => mp ∈ s.live ∧ bp ∈ s.live ∧ Leads s.cont s.live bp ∧
      ∀ k, Passes s.cont mp k → ¬ Passes s.cont bp k
  | .move bp rptr wptr => bp ∈ s.live ∧ rptr ≤ wptr

/-- `freemsg` keeps everything else out until it is through, and no data block has more
references than `db_ref` can hold. -/
def Step (s : Blocks) (event : Event) (t : Blocks) : Prop :=
  Given s event ∧ (s.freeing ≠ none → event = .round) ∧ apply event s = some t ∧ Few t

/-- No block exists. -/
structure Initial (s : Blocks) : Prop where
  triplets : s.triplets = ∅
  pool : s.pool = ∅
  live : s.live = ∅
  mdbfreelist : s.mdbfreelist = []
  msgfreelist : s.msgfreelist = []
  buffers : s.buffers = 0
  log : s.log = []
  freeing : s.freeing = none

/-- Nothing is pulled up out of nothing. -/
def Full (s : Blocks) : Event → Prop
  | .pullupmsg _ fuel mp len => ¬ Hollow s fuel mp len
  | _ => True

/-- The counts are of the blocks in use; every buffer has been released once if no block in use
refers to it, and not at all if one does; every header that is not in use is once on the free list
of its kind. -/
structure Exact (s : Blocks) : Prop where
  ref : ∀ h ∈ s.live, (s.dblk (s.datap h)).dbRef = refs s.datap s.live (s.datap h)
  buffer : ∀ n, n < s.buffers →
    s.released.count n = if ∃ h ∈ s.live, (s.dblk (s.datap h)).dbBase.serial = some n then 0 else 1
  owner : ∀ h ∈ s.live, ∀ k ∈ s.live, ∀ n, (s.dblk (s.datap h)).dbBase.serial = some n →
    (s.dblk (s.datap k)).dbBase.serial = some n → s.datap h = s.datap k
  routine : ∀ r ∈ s.log, r.Fits
  header : ∀ p, s.msgfreelist.count p = if p ∈ s.pool ∧ p ∉ s.live then 1 else 0
  triplet : ∀ t, s.mdbfreelist.count t = if t ∈ s.triplets ∧ t ∉ s.live ∧ ∀ h ∈ s.live, s.datap h ≠ t then 1 else 0

section
variable {s t : Blocks} {event : Event} {s : Blocks}

theorem initial_sane (initial : Initial s) : Sane s := by
  have live := initial.live
  refine Sound.sane ⟨?_, ?_, ?_⟩ initial.freeing
  · refine ⟨?_, ?_, ?_, ?_, ?_, ?_, ?_, ?_, ?_, ?_, ?_, ?_, ?_⟩ <;>
      simp [live, initial.triplets, initial.pool, initial.mdbfreelist, initial.msgfreelist]
  · have none (d : Nat) : ¬ s.referred s.datap d := by simp [Blocks.referred, live, refs]
    refine ⟨?_, ?_, ?_, ?_, ?_, ?_, ?_⟩ <;>
      simp [none, Blocks.released, initial.log, initial.buffers]
  · rw [live]
    exact .empty

theorem Sane.exact (sane : Sane s) (few : Few s) : Exact s := by
  have counted := sane.counted
  have buffered := sane.buffered
  refine ⟨fun h member => ?_, fun n below => ?_, fun h member k other n first second => ?_, buffered.fits, fun p => ?_,
    fun t => ?_⟩
  · rw [counted.count member]
    exact Nat.mod_eq_of_lt (Nat.lt_succ_of_le (few _))
  · have gone := buffered.gone (n := n)
    split <;> rename_i held
    · obtain ⟨h, member, serial⟩ := held
      rw [List.count_eq_zero, gone]
      exact fun all => all.2.2 _ (refs_pos.mpr ⟨h, member, rfl⟩) serial
    · refine List.count_eq_one_of_mem buffered.once (gone.mpr ⟨below, by simp, fun d used serial => ?_⟩)
      obtain ⟨h, member, rfl⟩ := refs_pos.mp used
      exact held ⟨h, member, serial⟩
  · exact buffered.single (refs_pos.mpr ⟨h, member, rfl⟩) (refs_pos.mpr ⟨k, other, rfl⟩) first second
  · split <;> rename_i free
    · exact List.count_eq_one_of_mem counted.msgNodup (counted.msgFree.mpr free)
    · exact List.count_eq_zero.mpr fun member => free (counted.msgFree.mp member)
  · have idle := counted.mdbFree (t := t)
    rw [refs_zero] at idle
    split <;> rename_i free
    · exact List.count_eq_one_of_mem counted.mdbNodup (idle.mpr ⟨free.1, by simp, free.2.1, free.2.2⟩)
    · exact List.count_eq_zero.mpr fun member => free ⟨(idle.mp member).1, (idle.mp member).2.2⟩

theorem handOut_made {r : Option Nat} {s' : Blocks} (made : Made s r (r.elim s' s'.hold)) (idle : s.freeing = none) :
    Sane (handOut (r, s')) := by
  cases r with
  | none => exact made.sound.sane (made.freeing.trans idle)
  | some bp => exact made.sound.sane (made.freeing.trans idle)

/-- A store that no count, link or buffer depends on. -/
theorem Sane.store (sane : Sane s) (idle : s.freeing = none) (same : t.live = s.live) (datap : t.datap = s.datap)
    (cont : t.cont = s.cont) (fresh : t.fresh = s.fresh) (triplets : t.triplets = s.triplets) (pool : t.pool = s.pool)
    (mdb : t.mdbfreelist = s.mdbfreelist) (msg : t.msgfreelist = s.msgfreelist) (buffers : t.buffers = s.buffers)
    (log : t.log = s.log) (freeing : t.freeing = s.freeing)
    (dblk : ∀ d, (t.dblk d).dbMsgaddr = (s.dblk d).dbMsgaddr ∧ (t.dblk d).dbRef = (s.dblk d).dbRef ∧
      (t.dblk d).dbIswhat = (s.dblk d).dbIswhat ∧ (t.dblk d).dbBase = (s.dblk d).dbBase ∧
      (t.dblk d).dbFrtnp = (s.dblk d).dbFrtnp) : Sane t := by
  refine Sound.sane ⟨?_, ?_, ?_⟩ (freeing.trans idle)
  · rw [datap]
    exact sane.counted.frame fresh triplets pool same mdb msg (by simp) fun d _ =>
      ⟨(dblk d).1, (dblk d).2.1, (dblk d).2.2.1⟩
  · rw [datap]
    refine sane.buffered.frame (fun d => ?_) buffers log fun d _ => ⟨(dblk d).2.2.2.1, (dblk d).2.2.2.2⟩
    rw [Blocks.referred, Blocks.referred, same]
  · rw [cont, same]
    exact sane.threaded

theorem lastBlock_passes : ∀ {fuel mp last : Nat}, s.lastBlock fuel mp = some last → Passes s.cont mp last := by
  intro fuel
  induction fuel with
  | zero =>
    intro mp last found
    rw [Blocks.lastBlock] at found
    split at found
    · exact some.inj found ▸ .refl
    · simp at found
  | succ fuel ih =>
    intro mp last found
    rw [Blocks.lastBlock] at found
    split at found <;> rename_i link
    · exact some.inj found ▸ .refl
    · exact .head link (ih found)

theorem Sound.passes (sound : Sound s) {x y : Nat} (member : x ∈ s.live) (passes : Passes s.cont x y) : y ∈ s.live := by
  induction passes with
  | refl => exact member
  | tail _ link ih => exact sound.threaded.closed ih link

/-- A round of `freemsg` frees the first block, and the next one is the first of what is left. -/
theorem round_sane {bp : Nat} (sane : Sane s) (few : Few s) (running : s.freeing = some bp) :
    Sane (Blocks.freemsgRound bp s) := by
  obtain ⟨member, leads⟩ := sane.pending bp running
  have freed := sane.toSound.freeb few member leads
  obtain ⟨-, -, -, -, -, -, live⟩ := freeb_frame s bp
  have kept := freeb_kept s bp
  rw [Blocks.freemsgRound, freebMacro_eq]
  refine ⟨⟨freed.counted.frame rfl rfl rfl rfl rfl rfl (by simp) fun _ _ => ⟨rfl, rfl, rfl⟩,
    freed.buffered.frame (fun _ => Iff.rfl) rfl rfl fun _ _ => ⟨rfl, rfl⟩, freed.threaded⟩, fun next pending => ?_⟩
  have link : s.cont bp = some next := pending
  change next ∈ (Blocks.freeb bp s).live ∧ Leads (Blocks.freeb bp s).cont (Blocks.freeb bp s).live next
  rw [live, kept.cont]
  obtain ⟨threaded, differ⟩ := sane.threaded.skip member link
  refine ⟨Finset.mem_erase.mpr ⟨differ.symm, sane.threaded.closed member link⟩, fun k held _ again => ?_⟩
  exact Finset.ne_of_mem_erase held (sane.threaded.single (Finset.mem_of_mem_erase held) member again link)

theorem step_sane (sane : Sane s) (few : Few s) (step : Step s event t) (full : Full s event) : Sane t := by
  obtain ⟨given, quiet, call, -⟩ := step
  have sound := sane.toSound
  by_cases running : event = .round
  · subst running
    obtain ⟨bp, running, rfl⟩ := Option.map_eq_some_iff.mp call
    exact round_sane sane few running
  · have idle : s.freeing = none := by
      by_contra busy
      exact running (quiet busy)
    cases event with
    | allocb supply size =>
      cases call
      exact handOut_made (allocb_made sound rfl) idle
    | esballoc supply base size frRtn =>
      cases call
      exact handOut_made (esballoc_made sound rfl) idle
    | dupb answer bp =>
      cases call
      have made := dupb_made sound given (Prod.mk.eta (p := Blocks.dupb answer bp s)).symm
      exact made.sound.sane (made.freeing.trans idle)
    | dupmsg answers fuel bp =>
      have made {k bp : Nat} {r : Option Nat} {s s' : Blocks} (sound : Sound s) (member : bp ∈ s.live)
          (call : Blocks.dupbMacro (answers k) bp s = (r, s')) : Made s r s' :=
        dupb_made sound member (dupbMacro_eq ▸ call)
      exact message_sane @made sound given idle call
    | copyb supply bp =>
      cases call
      have made := copyb_made sound (Prod.mk.eta (p := Blocks.copyb supply bp s)).symm
      exact made.sound.sane (made.freeing.trans idle)
    | copymsg supplies fuel bp =>
      have made {k bp : Nat} {r : Option Nat} {s s' : Blocks} (sound : Sound s) (_ : bp ∈ s.live)
          (call : Blocks.copyb (supplies k) bp s = (r, s')) : Made s r s' := copyb_made sound call
      exact message_sane @made sound given idle call
    | pullupmsg supply fuel mp len =>
      obtain ⟨after, freeing⟩ := pullupmsg_sound sound few given.1 given.2 full call
      exact after.sane (freeing.trans idle)
    | freeb bp =>
      cases call
      exact (sound.freeb few given.1 given.2).sane ((freeb_kept s bp).freeing.trans idle)
    | freemsg bp =>
      cases call
      refine ⟨⟨sound.counted.frame rfl rfl rfl rfl rfl rfl (by simp) fun _ _ => ⟨rfl, rfl, rfl⟩,
        sound.buffered.frame (fun _ => Iff.rfl) rfl rfl fun _ _ => ⟨rfl, rfl⟩, sound.threaded⟩, fun next pending => ?_⟩
      exact some.inj pending ▸ given
    | round => exact absurd rfl running
    | linkb fuel mp bp =>
      obtain ⟨last, found, rfl⟩ := Option.map_eq_some_iff.mp call
      obtain ⟨member, next, leads, apart⟩ := given
      have passes := lastBlock_passes found
      exact (sound.relink (sound.threaded.link (sound.passes member passes) next leads (apart last passes))).sane idle
    | unlinkb bp =>
      cases call
      exact (sound.relink sound.threaded.unlink).sane idle
    | move bp rptr wptr =>
      cases call
      refine sane.store idle rfl ?_ ?_ rfl rfl rfl rfl rfl rfl rfl rfl fun d => ⟨rfl, rfl, rfl, rfl, rfl⟩
      · funext h
        rw [Blocks.datap, setMblk_apply]
        split <;> rename_i here
        · rw [here, Blocks.datap]
        · rfl
      · funext h
        rw [Blocks.cont, setMblk_apply]
        split <;> rename_i here
        · rw [here, Blocks.cont]
        · rfl
    | retype bp type =>
      cases call
      refine sane.store idle rfl rfl rfl rfl rfl rfl rfl rfl rfl rfl rfl fun d => ?_
      rw [setDblk_apply]
      split <;> simp [*]

/-- At most `n` rounds of the `freemsg` that runs. -/
def Blocks.rounds : Nat → Blocks → Blocks
  | 0, s => s
  | n + 1, s =>
    match s.freeing with
    | none => s
    | some bp => rounds n (Blocks.freemsgRound bp s)

theorem round_live (s : Blocks) (bp : Nat) : (Blocks.freemsgRound bp s).live = s.live.erase bp := by
  rw [Blocks.freemsgRound, freebMacro_eq]
  exact (freeb_frame s bp).2.2.2.2.2.2

theorem round_few {bp : Nat} (sane : Sane s) (few : Few s) (running : s.freeing = some bp) :
    Few (Blocks.freemsgRound bp s) := by
  intro d
  have datap : (Blocks.freemsgRound bp s).datap = s.datap := by
    rw [Blocks.freemsgRound, freebMacro_eq]
    exact (freeb_kept s bp).datap
  have fewer : refs s.datap s.live d = refs s.datap (s.live.erase bp) d + if s.datap bp = d then 1 else 0 :=
    refs_erase (sane.pending bp running).1
  have few := few d
  rw [datap, round_live]
  omega

/-- `freemsg` comes to its end, with as many rounds as there are blocks. -/
theorem rounds_end : ∀ {n : Nat} {s : Blocks}, Sane s → Few s → s.live.card ≤ n → (s.rounds n).freeing = none := by
  intro n
  induction n with
  | zero =>
    intro s sane few empty
    cases running : s.freeing with
    | none => simpa [Blocks.rounds] using running
    | some bp =>
      have member := (sane.pending bp running).1
      have positive := Finset.card_pos.mpr ⟨bp, member⟩
      omega
  | succ n ih =>
    intro s sane few enough
    rw [Blocks.rounds]
    split <;> rename_i running
    · exact running
    · rename_i bp
      have member := (sane.pending bp running).1
      refine ih (round_sane sane few running) (round_few sane few running) ?_
      rw [round_live, Finset.card_erase_of_mem member]
      omega

theorem blocks_sane (reached : Reaches Initial Step Full s) : Sane s ∧ Few s := by
  refine (@Reaches.invariant _ _ Initial Step Full fun s => Sane s ∧ Few s) (fun s initial => ⟨initial_sane initial, fun d => ?_⟩)
    (fun s event t holds step full => ⟨step_sane holds.1 holds.2 step full, step.2.2.2⟩) reached
  simp [initial.live, refs]

/-- No block exists yet. -/
def booted : Blocks where
  mblk _ := ⟨none, 0, 0, 0⟩
  dblk _ := ⟨none, .own, 0, 0, 0, .mdbblk, 0⟩
  mdbfreelist := []
  msgfreelist := []
  fresh := 0
  triplets := ∅
  pool := ∅
  live := ∅
  buffers := 0
  log := []
  freeing := none

theorem booted_initial : Initial booted := ⟨rfl, rfl, rfl, rfl, rfl, rfl, rfl, rfl⟩

def plenty : Blocks.Supply := ⟨true, true⟩

def after (event : Event) (s : Blocks) : Blocks := (apply event s).getD s

theorem step_after {event : Event} (given : Given s event) (quiet : s.freeing ≠ none → event = .round)
    (ends : (apply event s).isSome) (few : (after event s).live.card ≤ 255) : Step s event (after event s) := by
  refine ⟨given, quiet, ?_, fun d => ?_⟩
  · obtain ⟨t, call⟩ := Option.isSome_iff_exists.mp ends
    rw [after, call]
    rfl
  · exact (Finset.card_filter_le _ _).trans few

/-- A block and a duplicate of it, which is empty and not aligned. -/
def duplicated : Blocks := after (.move 1 1 1) (after (.dupb true 0) (after (.allocb plenty 10) booted))

/-- The duplicate is pulled up, and it is its own continuation. -/
def looped : Blocks := after (.pullupmsg plenty 1 1 (-1)) duplicated

/-- Two rounds of `freemsg` on it. -/
def freedTwice : Blocks := after .round (after .round (after (.freemsg 1) looped))

end

end Svr4.StreamBlocks
