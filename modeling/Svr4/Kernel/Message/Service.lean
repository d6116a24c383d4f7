import Svr4.Kernel.Message.Changes

/-! `msgrcv` over whole runs: it takes the message that `msgtyp` asks for, sleeps only
when there is none, and messages of one type leave a queue in the order they came.

While a receiver copies a message out it has the queue locked, so what it selected is
still what it would select when it takes the message.
-/

namespace Svr4.Message

open Words Ipc
open Option (some)

/-- The messages on a queue, from `msg_first` on. -/
def Kernel.messages (info : Msginfo) (k : Kernel) (q : Nat) : List Nat :=
  follow k.next info.msgtql (k.msgque q).msgFirst

/-- What a part of `msgrcv` tells about the message it looked for. A part that ends in any
other way has not looked. -/
def Next.Shows (nowait : Bool) (found : Option Nat) : Next → Prop
  | .copy _ part => part.message = found ∧ found ≠ none
  | .sleep _ _ => nowait = false ∧ found = none
  | .ret (.error .enomsg) => nowait = true ∧ found = none
  | .ret (.error .e2big) => found ≠ none
  | _ => True

/-! ## One scan -/

section
variable {info : Msginfo} {l : Ledger} {w w' : Work} {c : Caller} {point : Point} {next : Next}
  {msqid msgsz msgtyp : Int} {noerror nowait : Bool} {q : Nat} {fault : Bool} {type : Int} {ds : Settings}

/-- What a scan for a message of the type leads to. -/
abbrev Looks (info : Msginfo) (l : Ledger) (msqid msgtyp : Int) (nowait : Bool) (w w' : Work) (next : Next) : Prop :=
  (∀ q part, next = .copy q part → Calm l.queue w.k w'.k ∧ q = (msqid % info.msgmni).toNat ∧
    part.message = select w.k.type msgtyp (l.queue q)) ∧
    (msgtyp ≠ -2147483648 ∨ (∀ h ∈ l.queue (msqid % info.msgmni).toNat, ¬ Matches w.k.type msgtyp h) →
      next.Shows nowait (select w.k.type msgtyp (l.queue (msqid % info.msgmni).toNat)))

theorem findmsg_shows (sound : Sound info w.k l) (fits : -2147483648 ≤ msgtyp)
    (result : findmsg info msqid msgsz msgtyp noerror nowait w = some (w', next)) :
    Looks info l msqid msgtyp nowait w w' next := by
  unfold findmsg at result
  rcases @msgconv_cases info msqid w with ⟨converted, _⟩ | ⟨w₁, converted, _, _⟩ | ⟨w₁, converted, quiet, _⟩
  · rw [converted] at result
    cases result
    exact ⟨by simp, fun _ => trivial⟩
  · rw [converted] at result
    cases result
    exact ⟨by simp, fun _ => trivial⟩
  · rw [converted] at result
    obtain ⟨found, chose, result⟩ := Option.bind_eq_some_iff.mp result
    obtain ⟨something, nothing⟩ := choose_select (quiet.toFrame.sound sound) fits chose
    have types : w₁.k.type = w.k.type := by
      funext h
      rw [Kernel.type, quiet.msgh]
    rw [types] at something nothing
    cases found with
    | none =>
      have absent (condition : msgtyp ≠ -2147483648 ∨
          ∀ h ∈ l.queue (msqid % info.msgmni).toNat, ¬ Matches w.k.type msgtyp h) :
          select w.k.type msgtyp (l.queue (msqid % info.msgmni).toNat) = none :=
        select_eq_none_iff.mpr (condition.elim (nothing rfl) id)
      simp only at result
      split at result
      · next quick =>
        cases result
        exact ⟨by simp, fun condition => ⟨quick, absent condition⟩⟩
      · next slow =>
        cases result
        exact ⟨by simp, fun condition => ⟨by simpa using slow, absent condition⟩⟩
    | some best =>
      obtain ⟨smp, spmp⟩ := best
      have chosen := something smp spmp rfl
      have copied {sz : Nat}
          (result : some (w₁, Next.copy (msqid % info.msgmni).toNat (.rcvType smp spmp sz)) = some (w', next)) :
          Looks info l msqid msgtyp nowait w w' next := by
        cases result
        refine ⟨?_, fun _ => ⟨chosen.symm, by simp [chosen]⟩⟩
        rintro q part ⟨⟩
        exact ⟨quiet.calm, rfl, chosen.symm⟩
      simp only at result
      split at result
      · split at result
        · exact copied result
        · cases result
          refine ⟨by simp, fun _ => ?_⟩
          rw [chosen]
          exact Option.some_ne_none smp
      · exact copied result

theorem ipcaccess_error {p : IpcPerm} {mode : Nat} {cr : Cred} {error : Errno} (denied : ipcaccess p mode cr = some error) :
    error = .eacces := by
  unfold ipcaccess at denied
  split at denied
  · cases denied
  · rcases ite_eq_iff.mp denied with ⟨_, granted⟩ | ⟨_, error⟩
    · cases granted
    · exact (some.inj error).symm

/-- A part of `msgrcv` that begins with `msgconv` looks for the message, or stops before. -/
theorem convert_shows (sound : Sound info w.k l) (fits : -2147483648 ≤ msgtyp)
    (result : convert info c (.rcv msqid msgsz msgtyp noerror nowait) point w = some (w', next)) :
    Looks info l msqid msgtyp nowait w w' next := by
  cases point with
  | findmsg => exact findmsg_shows sound fits result
  | getres type => cases result
  | entry =>
    simp only [convert, Call.id] at result
    rcases @msgconv_cases info msqid w with ⟨converted, _⟩ | ⟨w₁, converted, _, _⟩ |
      ⟨w₁, converted, quiet, _⟩
    · rw [converted] at result
      cases result
      exact ⟨by simp, fun _ => trivial⟩
    · rw [converted] at result
      cases result
      exact ⟨by simp, fun _ => trivial⟩
    · rw [converted] at result
      simp only [msgrcv] at result
      have quiet' : Quiet (msqid % info.msgmni).toNat w.k (w₁.unlock (msqid % info.msgmni).toNat).k :=
        quiet.trans quiet_unlock
      have types : (w₁.unlock (msqid % info.msgmni).toNat).k.type = w.k.type := by
        funext h
        rw [Kernel.type, quiet'.msgh]
      split at result
      · next error denied =>
        cases result
        rw [ipcaccess_error denied]
        exact ⟨by simp, fun _ => trivial⟩
      · split at result
        · cases result
          exact ⟨by simp, fun _ => trivial⟩
        · obtain ⟨copies, shows⟩ := findmsg_shows (quiet'.toFrame.sound sound) fits result
          rw [types] at copies shows
          refine ⟨fun q part copy => ?_, shows⟩
          obtain ⟨calm, rest⟩ := copies q part copy
          exact ⟨quiet'.calm.trans calm, rest⟩
  | unroom =>
    simp only [convert, Call.id] at result
    rcases @msgconv_cases info msqid w with ⟨converted, _⟩ | ⟨w₁, converted, _⟩ | ⟨w₁, converted, _⟩
    all_goals
      rw [converted] at result
      cases result
      exact ⟨by simp, fun _ => trivial⟩
  | unsleep =>
    simp only [convert, Call.id] at result
    rcases @msgconv_cases info msqid w with ⟨converted, _⟩ | ⟨w₁, converted, _⟩ | ⟨w₁, converted, _⟩
    all_goals
      rw [converted] at result
      cases result
      exact ⟨by simp, fun _ => trivial⟩

theorem received_ret {smp sz : Nat} {spmp : Option Nat}
    (result : received info c q smp spmp sz w = some (w', next)) : next = .ret (.ok sz) := by
  obtain ⟨_, _, result⟩ := Option.bind_eq_some_iff.mp result
  exact (Prod.mk.inj (some.inj result)).2.symm

theorem copied_again {part part' : Copy} {q' : Nat}
    (result : copied info c (.rcv msqid msgsz msgtyp noerror nowait) q part fault type ds w =
      some (w', .copy q' part')) : w' = w ∧ q' = q ∧ part'.message = part.message := by
  cases part with
  | rcvType smp spmp sz =>
    simp only [copied] at result
    split at result
    · cases result
    · split at result
      · cases result
        exact ⟨rfl, rfl, rfl⟩
      · cases received_ret result
  | rcvText smp spmp sz =>
    simp only [copied] at result
    split at result
    · cases result
    · cases received_ret result
  | set =>
    simp only [copied] at result
    split at result
    · cases result
    · split at result
      · cases result
      · cases result
  | stat => cases result
  | sndType => cases result
  | sndText type mp spot => cases result

theorem copied_takes {part : Copy} {smp : Nat} {slot : Slot} {count : Int}
    (sound : Sound info w.k l) (empty : l.hand slot = (Proc.copying c (.rcv msqid msgsz msgtyp noerror nowait) q part).hand info)
    (fits : part.Fits info (l.queue q) (.rcv msqid msgsz msgtyp noerror nowait)) (message : part.message = some smp)
    (chosen : select w.k.type msgtyp (l.queue q) = some smp)
    (result : copied info c (.rcv msqid msgsz msgtyp noerror nowait) q part fault type ds w =
      some (w', .ret (.ok count))) :
    ∃ left right, l.queue q = left ++ smp :: right ∧ Chain w'.k.next (w'.k.msgque q).msgFirst (left ++ right) := by
  cases part with
  | rcvType smp' spmp sz =>
    cases message
    simp only [copied] at result
    split at result
    · cases result
    · split at result
      · cases result
      · exact (received_changes sound empty fits chosen result).2
  | rcvText smp' spmp sz =>
    cases message
    simp only [copied] at result
    split at result
    · cases result
    · exact (received_changes sound empty fits chosen result).2
  | set => cases message
  | stat => cases message
  | sndType => cases message
  | sndText type mp spot => cases message

end

/-! ## The system -/

/-- The call a process is in. -/
def Proc.call : Proc → Option Call
  | .user => none
  | .ready _ call _ => some call
  | .locked _ call _ _ => some call
  | .copying _ call _ _ => some call
  | .asleep _ call _ _ => some call
  | .woken _ call _ _ => some call

def Call.Long (call : Call) : Prop := ∀ msgtyp, call.msgtyp = some msgtyp → -2147483648 ≤ msgtyp

/-- What a receiver that copies has selected is still there. -/
structure Serving (info : Msginfo) (s : System) (l : Ledger) : Prop extends Conserved info s l where
  long : ∀ slot call, (s.proc slot).call = some call → call.Long
  selected : ∀ slot c call q part, s.proc slot = .copying c call q part → Selected s.k (l.queue q) call part

/-- The messages of all queues change, each by one change. -/
structure Evolves (k : Kernel) (l : Ledger) (k' : Kernel) (l' : Ledger) : Prop where
  served : ∀ q, Served k.type (l.queue q) (l'.queue q)
  types : ∀ q, ∀ h ∈ l.queue q, k'.type h = k.type h

section
variable {info : Msginfo} {s t : System} {l l' : Ledger} {q : Nat} {k k' : Kernel} {p : Proc} {woken : List Chan}
  {c : Caller}

theorem Changes.evolves (changes : Changes l.queue q k k') (sound : Sound info k' l') :
    Evolves k l k' l' ∧ ∀ q', q' ≠ q → l'.queue q' = l.queue q' := by
  have others (q' : Nat) (other : q' ≠ q) : l'.queue q' = l.queue q' :=
    (sound.queues q').chain.unique (changes.others q' other)
  obtain ⟨list, chain, served⟩ := changes.here
  refine ⟨⟨fun q' => ?_, changes.types⟩, others⟩
  by_cases same : q' = q
  · subst same
    rwa [(sound.queues q').chain.unique chain]
  · rw [others q' same]
    exact .stay _

theorem Calm.evolves (calm : Calm l.queue k k') (before : Sound info k l) (sound : Sound info k' l') :
    Evolves k l k' l' ∧ ∀ q, l'.queue q = l.queue q := by
  have same (q : Nat) : l'.queue q = l.queue q := (sound.queues q).chain.unique (calm.chain before q)
  refine ⟨⟨fun q => ?_, fun q h member => by rw [Kernel.type, calm.msgh q h member]⟩, same⟩
  rw [same q]
  exact .stay _

theorem Proc.wake_call : (p.wake woken).call = p.call := by
  cases p with
  | locked c call point q =>
    simp only [Proc.wake]
    split
    · rfl
    · rfl
  | asleep c call chan type =>
    simp only [Proc.wake]
    split
    · rfl
    · rfl
  | _ => rfl

theorem Selected.congr {list list' : List Nat} {call : Call} {part : Copy} (selected : Selected k list call part)
    (same : list' = list) (types : ∀ h ∈ list, k'.type h = k.type h) : Selected k' list' call part := by
  intro smp msgtyp here asked fits
  rw [same, select_congr types]
  exact selected smp msgtyp here asked fits

theorem Proc.wake_copying {call : Call} {part : Copy} (copying : p.wake woken = .copying c call q part) :
    p = .copying c call q part := by
  cases p with
  | locked c call point q =>
    simp only [Proc.wake] at copying
    split at copying
    · cases copying
    · cases copying
  | asleep c call chan type =>
    simp only [Proc.wake] at copying
    split at copying
    · cases copying
    · cases copying
  | _ => exact copying

/-- The calls ask for a `long`. -/
def Ranged (_ : System) : Event → Prop
  | .call _ _ call => call.Long
  | _ => True

theorem Next.proc_call {call call' : Call} {next : Next}
    (running : (next.proc info c call).call = some call') : call' = call := by
  cases next with
  | ret result => cases running
  | lock point => exact (some.inj running).symm
  | copy q part => exact (some.inj running).symm
  | sleep chan type => exact (some.inj running).symm

section
variable {slot : Slot}

/-- One process goes on as `p`, and the others do not copy from a queue that changes. -/
theorem Serving.next (serving : Serving info s l) (conserved : Conserved info t l') (evolves : Evolves s.k l t.k l')
    (others : ∀ slot', slot' ≠ slot → (t.proc slot').call = (s.proc slot').call ∧
      ∀ c call q part, t.proc slot' = .copying c call q part →
        s.proc slot' = .copying c call q part ∧ l'.queue q = l.queue q)
    (long : ∀ call, (t.proc slot).call = some call → call.Long)
    (selected : ∀ c call q part, t.proc slot = .copying c call q part → Selected t.k (l'.queue q) call part) :
    Serving info t l' where
  toConserved := conserved
  long slot' call running := by
    by_cases same : slot' = slot
    · subst same
      exact long call running
    · rw [(others slot' same).1] at running
      exact serving.long slot' call running
  selected slot' c call q part copying := by
    by_cases same : slot' = slot
    · subst same
      exact selected c call q part copying
    · obtain ⟨before, queue⟩ := (others slot' same).2 c call q part copying
      exact (serving.selected slot' c call q part before).congr queue fun h member => evolves.types q h member

theorem Serving.put (serving : Serving info s l) (conserved : Conserved info (s.put slot p) l')
    (idle : ∀ c call q part, p ≠ .copying c call q part)
    (long : ∀ call, p.call = some call → call.Long) :
    Serving info (s.put slot p) l' ∧ Evolves s.k l (s.put slot p).k l' := by
  have calm : Calm l.queue s.k (s.put slot p).k := .refl _ _
  obtain ⟨evolves, same⟩ := calm.evolves serving.accounted.sound conserved.accounted.sound
  refine ⟨serving.next conserved evolves (fun slot' (other : slot' ≠ slot) => ?_) ?_ ?_, evolves⟩
  · have stays : (s.put slot p).proc slot' = s.proc slot' := Function.update_of_ne other ..
    rw [stays]
    exact ⟨rfl, fun c call q part copying => ⟨copying, same q⟩⟩
  · simpa [System.put] using long
  · intro c call q part copying
    exact absurd (by simpa [System.put] using copying) (idle c call q part)

theorem Serving.store {w : Work} {c : Caller} {call : Call} {next : Next} (serving : Serving info s l)
    (conserved : Conserved info (s.store w slot (next.proc info c call)) l') (changes : Changes l.queue q s.k w.k)
    (clear : w.k = s.k ∨ ∀ slot', slot' ≠ slot → (s.proc slot').locks ≠ some q) (long : call.Long)
    (selected : ∀ q' part, next = .copy q' part → Selected w.k (l'.queue q') call part) :
    Serving info (s.store w slot (next.proc info c call)) l' ∧
      Evolves s.k l (s.store w slot (next.proc info c call)).k l' := by
  obtain ⟨evolves, elsewhere⟩ := changes.evolves conserved.accounted.sound
  refine ⟨serving.next conserved evolves (fun slot' (other : slot' ≠ slot) => ?_) ?_ ?_, evolves⟩
  · have stays : (s.store w slot (next.proc info c call)).proc slot' = (s.proc slot').wake w.woken := by
      simp [System.store, other]
    rw [stays]
    refine ⟨Proc.wake_call, fun c' call' q' part copying => ?_⟩
    have before := Proc.wake_copying copying
    refine ⟨before, ?_⟩
    by_cases same : q' = q
    · subst same
      rcases clear with kernel | away
      · have calm : Calm l.queue s.k w.k := kernel ▸ .refl _ _
        exact (calm.evolves serving.accounted.sound conserved.accounted.sound).2 q'
      · exact absurd (by rw [before]; rfl) (away slot' other)
    · exact elsewhere q' same
  · intro call' running
    have running : (next.proc info c call).call = some call' := by simpa [System.store] using running
    rw [Next.proc_call running]
    exact long
  · intro c' call' q' part copying
    have copying : next.proc info c call = .copying c' call' q' part := by simpa [System.store] using copying
    cases next with
    | copy q part =>
      cases copying
      exact selected _ _ rfl
    | ret result => cases copying
    | lock point => cases copying
    | sleep chan type => cases copying

theorem Serving.step {event : Event} (serving : Serving info s l) (step : Step info s event t) (ranged : Ranged s event) :
    ∃ l', Serving info t l' ∧ Evolves s.k l t.k l' := by
  have conserved := serving.toConserved
  obtain ⟨l', conserved'⟩ := step_conserved conserved step
  refine ⟨l', ?_⟩
  cases step with
  | @msgget slot cr key flag at' =>
    -- The ledger is what it was, so the queues are.
    have same (q : Nat) : l'.queue q = l.queue q :=
      (conserved'.accounted.sound.queues q).chain.unique
        ((msgget_conserved conserved).accounted.sound.queues q).chain
    have msgh : (msgget info s.k cr key flag).1.msgh = s.k.msgh := by
      unfold msgget
      split <;> rfl
    have evolves : Evolves s.k l (msgget info s.k cr key flag).1 l' :=
      ⟨fun q => by rw [same q]; exact .stay _, fun q h _ => by rw [Kernel.type, msgh]⟩
    refine ⟨serving.next conserved' evolves (fun slot' (_ : slot' ≠ slot) => ⟨rfl, fun c call q part copying =>
      ⟨copying, same q⟩⟩) (by simp [at', Proc.call]) (by simp [at']), evolves⟩
  | call c call at' => exact serving.put conserved' (by simp) (by rintro _ ⟨⟩; exact ranged)
  | @turn slot c call point w next at' result =>
    have empty := conserved.hands slot
    have long := serving.long slot call (by rw [at']; rfl)
    rw [at'] at empty
    obtain ⟨changes, held⟩ := convert_changes (w := ⟨s.k, []⟩) conserved.accounted empty result
    refine serving.store conserved' changes ?_ long fun q' part copy smp msgtyp here asked fits => ?_
    · by_cases lock : s.k.msglock (call.home info) = true
      · exact .inl (held lock)
      · refine .inr fun slot' _ locks => ?_
        have other := conserved.fits slot'
        cases there : s.proc slot' with
        | copying c' call' q' copy' =>
          rw [there] at other locks
          obtain rfl := some.inj locks
          exact lock other.2.1
        | _ =>
          rw [there] at locks
          cases locks
    · cases call with
      | rcv msqid msgsz msgtyp' noerror nowait =>
        obtain rfl := some.inj asked
        obtain ⟨calm, rfl, message⟩ :=
          (convert_shows (w := ⟨s.k, []⟩) conserved.accounted.sound fits result).1 q' part copy
        have queue := (calm.evolves conserved.accounted.sound conserved'.accounted.sound).2
        have chosen : Selected s.k (l.queue (msqid % info.msgmni).toNat) (.rcv msqid msgsz msgtyp' noerror nowait) part := by
          rintro smp' _ here' ⟨⟩ _
          rw [← message, here']
        exact chosen.congr (queue (msqid % info.msgmni).toNat) (fun h member => by rw [Kernel.type, calm.msgh _ h member]) smp msgtyp' here rfl fits
      | ctl msgid cmd => cases asked
      | snd msqid msgsz nowait => cases asked
  | @copied slot c call q part w next fault type ds at' result =>
    have fits := conserved.fits slot
    have hand := conserved.hands slot
    have long := serving.long slot call (by rw [at']; rfl)
    have chosen := serving.selected slot c call q part at'
    rw [at'] at fits hand
    have changes := copied_changes (w := ⟨s.k, []⟩) conserved.accounted hand fits long chosen result
    refine serving.store conserved' changes (.inr fun slot' differ locks => ?_) long
      fun q' part' copy smp msgtyp here asked bounded => ?_
    · exact differ (conserved.alone slot' slot _ locks (by rw [at']; rfl))
    · cases call with
      | rcv msqid msgsz msgtyp' noerror nowait =>
        rw [copy] at result
        obtain ⟨rfl, rfl, message⟩ := copied_again result
        have calm : Calm l.queue s.k s.k := .refl _ _
        have queue := (calm.evolves conserved.accounted.sound conserved'.accounted.sound).2
        rw [queue q']
        exact chosen smp msgtyp (message ▸ here) asked bounded
      | ctl msgid cmd => cases asked
      | snd msqid msgsz nowait => cases asked
  | @resume slot c call chan type at' =>
    exact serving.put conserved' (by simp) (by rintro _ ⟨⟩; exact serving.long slot call (by rw [at']; rfl))
  | @interrupt slot c msqid msgsz nowait chan type at' =>
    refine serving.put conserved' (by simp) ?_
    rintro _ ⟨⟩
    rcases at' with at' | at'
    · exact serving.long slot _ (by rw [at']; rfl)
    · exact serving.long slot _ (by rw [at']; rfl)
  | leave at' => exact serving.put conserved' (by simp) (by simp [Proc.call])
  | abort at' => exact serving.put conserved' (by simp) (by simp [Proc.call])

end

theorem Conserved.messages (conserved : Conserved info s l) (q : Nat) : s.k.messages info q = l.queue q :=
  follow_eq (conserved.accounted.sound.queues q).chain conserved.accounted.sound.queue_length

end

/-! ## Runs with a journal -/

/-- The system, and for each queue a journal of the messages that came and went. -/
structure Logged where
  system : System
  journal : Nat → Journal Nat Int

section
variable (info : Msginfo)

def Logged.Boot (s : Logged) : Prop := s.system.Boot info ∧ ∀ q, s.journal q = ⟨[], 0, []⟩

def Logged.Step (s : Logged) (event : Event) (t : Logged) : Prop :=
  Message.Step info s.system event t.system ∧
    ∀ q, t.journal q = (s.journal q).record s.system.k.type (t.system.k.messages info q)

def Logged.Ranged (s : Logged) (event : Event) : Prop := Message.Ranged s.system event

end

section
variable {info : Msginfo} {s : Logged}

theorem Logged.serving (reached : Reaches (Logged.Boot info) (Logged.Step info) Logged.Ranged s) :
    ∃ l, Serving info s.system l ∧ ∀ q, (s.journal q).InOrder s.system.k.type (l.queue q) := by
  apply reached.invariant
  · rintro s ⟨boot, fresh⟩
    obtain ⟨l, conserved⟩ := boot_conserved boot
    have users := boot.2.2.2.2.2
    refine ⟨l, ⟨conserved, by simp [users, Proc.call], by simp [users]⟩, fun q => ?_⟩
    have chain := (conserved.accounted.sound.queues q).chain
    rw [(boot.2.2.1 q).2.1] at chain
    rw [fresh q, Chain.nil_iff.mp chain]
    exact .start _
  · rintro s event t ⟨l, serving, ordered⟩ ⟨step, recorded⟩ ranged
    obtain ⟨l', serving', evolves⟩ := serving.step step ranged
    refine ⟨l', serving', fun q => ?_⟩
    rw [recorded q, serving'.messages q]
    exact (ordered q).record (evolves.served q) fun h member _ => evolves.types q h member

/-- `msgrcv` looks for the message that `msgtyp` asks for, finds it unless `msgtyp` is the
least `long`, and takes the message it has found; and the messages of a type leave
their queue in the order in which they came. -/
theorem msgrcv_selects (reached : Reaches (Logged.Boot info) (Logged.Step info) Logged.Ranged s) :
    (∀ slot c msqid msgsz msgtyp noerror nowait point w next,
      s.system.proc slot = .ready c (.rcv msqid msgsz msgtyp noerror nowait) point →
      convert info c (.rcv msqid msgsz msgtyp noerror nowait) point ⟨s.system.k, []⟩ = some (w, next) →
      let list := s.system.k.messages info (msqid % info.msgmni).toNat
      msgtyp ≠ -2147483648 ∨ (∀ h ∈ list, ¬ Matches s.system.k.type msgtyp h) →
        next.Shows nowait (select s.system.k.type msgtyp list)) ∧
    (∀ slot c msqid msgsz msgtyp noerror nowait q part smp,
      s.system.proc slot = .copying c (.rcv msqid msgsz msgtyp noerror nowait) q part → part.message = some smp →
      select s.system.k.type msgtyp (s.system.k.messages info q) = some smp ∧
        ∀ fault type ds w result,
          copied info c (.rcv msqid msgsz msgtyp noerror nowait) q part fault type ds ⟨s.system.k, []⟩ =
            some (w, .ret (.ok result)) →
          w.k.messages info q = (s.system.k.messages info q).erase smp) ∧
    ∀ q, (s.journal q).gone.Pairwise fun a b => a.1 = b.1 → a.2 < b.2 := by
  obtain ⟨l, serving, ordered⟩ := Logged.serving reached
  have sound := serving.accounted.sound
  have contents := serving.toConserved.messages
  refine ⟨?_, ?_, fun q => (ordered q).served⟩
  · intro slot c msqid msgsz msgtyp noerror nowait point w next at' result list condition
    have long := serving.long slot _ (by rw [at']; rfl) msgtyp rfl
    have shows := (convert_shows (w := ⟨s.system.k, []⟩) sound long result).2
    rw [← contents] at shows
    exact shows condition
  · intro slot c msqid msgsz msgtyp noerror nowait q part smp at' message
    have long := serving.long slot _ (by rw [at']; rfl) msgtyp rfl
    have chosen := serving.selected slot c _ q part at' smp msgtyp message rfl long
    have fits := serving.fits slot
    have hand := serving.hands slot
    rw [at'] at fits hand
    rw [contents q]
    refine ⟨chosen, fun fault type ds w result finished => ?_⟩
    obtain ⟨left, right, shape, chain⟩ :=
      copied_takes (w := ⟨s.system.k, []⟩) sound hand fits.2.2.2 message chosen finished
    have length := sound.queue_length (q := q)
    have away := (List.nodup_middle.mp (shape ▸ (sound.queues q).chain.nodup)).notMem
    rw [shape] at length ⊢
    rw [List.erase_append_right _ fun member => away (List.mem_append_left _ member), List.erase_cons_head]
    refine follow_eq chain ?_
    simp only [List.length_append, List.length_cons] at length ⊢
    omega

theorem Logged.of_reaches {t : System} (reached : Reaches (System.Boot info) (Message.Step info) Message.Ranged t) :
    ∃ journal, Reaches (Logged.Boot info) (Logged.Step info) Logged.Ranged ⟨t, journal⟩ := by
  induction reached with
  | start boot => exact ⟨fun _ => ⟨[], 0, []⟩, .start ⟨boot, fun _ => rfl⟩⟩
  | @next s t event _ step ranged ih =>
    obtain ⟨journal, reached⟩ := ih
    let after : Logged := ⟨t, fun q => (journal q).record s.k.type (t.k.messages info q)⟩
    have logged : Logged.Step info ⟨s, journal⟩ event after := ⟨step, fun _ => rfl⟩
    exact ⟨after.journal, .next reached logged ranged⟩

end

/-- A message of type 1 is on the queue, and a process asks for one of `msgtyp`. -/
def asking (msgtyp : Int) : Call := .rcv 0 100 msgtyp false false

theorem asking_reached : ∃ k : Kernel, k.messages Msginfo.shipped 0 = [0] ∧ k.type 0 = 1 ∧
    (convert Msginfo.shipped root (asking (-5)) .entry ⟨k, []⟩).map Prod.snd = some (.copy 0 (.rcvType 0 none 20)) ∧
    (convert Msginfo.shipped root (asking (-2147483648)) .entry ⟨k, []⟩).map Prod.snd = some (.sleep (.qnum 0) 0) ∧
    ∀ msgtyp, -2147483648 ≤ msgtyp → ∃ s : System,
      Reaches (System.Boot Msginfo.shipped) (Message.Step Msginfo.shipped) Message.Ranged s ∧
      s.proc 0 = .ready root (asking msgtyp) .entry ∧ s.k = k := by
  have booted : Reaches (System.Boot Msginfo.shipped) (Message.Step Msginfo.shipped) Message.Ranged System.shipped :=
    .start shipped_boot
  have opened := booted.next (@Step.msgget _ _ 0 root.cr 0 0 rfl) trivial
  have called := opened.next (@Step.call _ _ 0 root (.snd 0 20 false) rfl) (by rintro _ ⟨⟩)
  have typed := called.next ((@Step.turn _ _ 0) rfl rfl) trivial
  have filled := typed.next ((@Step.copied _ _ 0) false 1 ⟨0, 0, 0, 0⟩ rfl rfl) trivial
  have sent := filled.next ((@Step.copied _ _ 0) false 1 ⟨0, 0, 0, 0⟩ rfl rfl) trivial
  refine ⟨_, ?_, ?_, ?_, ?_, fun msgtyp fits =>
    ⟨_, sent.next (@Step.call _ _ 0 root (asking msgtyp) rfl) (by rintro _ ⟨⟩; exact fits), rfl, rfl⟩⟩
  · rfl
  · rfl
  · rfl
  · rfl

/-- The message of type 1 is what `msgtyp` -5 asks for. -/
theorem msgrcv_selects_least : ∃ s : Logged,
    Reaches (Logged.Boot Msginfo.shipped) (Logged.Step Msginfo.shipped) Logged.Ranged s ∧
    s.system.proc 0 = .copying root (asking (-5)) 0 (.rcvType 0 none 20) ∧
    select s.system.k.type (-5) (s.system.k.messages Msginfo.shipped 0) = some 0 := by
  obtain ⟨k, _, _, found, _, reached⟩ := asking_reached
  obtain ⟨s, before, at', rfl⟩ := reached (-5) (by decide)
  obtain ⟨⟨w, next⟩, result, rfl⟩ := Option.map_eq_some_iff.mp found
  obtain ⟨journal, logged⟩ := Logged.of_reaches (before.next (.turn at' result) trivial)
  have at'' : (s.store w 0 (Next.proc Msginfo.shipped root (asking (-5)) (.copy 0 (.rcvType 0 none 20)))).proc 0 =
      .copying root (asking (-5)) 0 (.rcvType 0 none 20) := by
    simp [System.store, Next.proc]
  exact ⟨_, logged, at'', ((msgrcv_selects logged).2.1 0 _ _ _ _ _ _ _ _ 0 at'' rfl).1⟩

/-- The least `long` allows every type, and the search finds nothing: the receiver sleeps. -/
theorem msgrcv_overlooks : ¬ ∀ s : Logged,
    Reaches (Logged.Boot Msginfo.shipped) (Logged.Step Msginfo.shipped) Logged.Ranged s →
    ∀ slot c msqid msgsz msgtyp noerror nowait point w next,
      s.system.proc slot = .ready c (.rcv msqid msgsz msgtyp noerror nowait) point →
      convert Msginfo.shipped c (.rcv msqid msgsz msgtyp noerror nowait) point ⟨s.system.k, []⟩ = some (w, next) →
      next.Shows nowait (select s.system.k.type msgtyp
        (s.system.k.messages Msginfo.shipped (msqid % Msginfo.shipped.msgmni).toNat)) := by
  intro finds
  obtain ⟨k, messages, type, _, found, reached⟩ := asking_reached
  obtain ⟨s, before, at', rfl⟩ := reached (-2147483648) (by decide)
  obtain ⟨⟨w, next⟩, result, rfl⟩ := Option.map_eq_some_iff.mp found
  obtain ⟨journal, logged⟩ := Logged.of_reaches before
  have shown := finds _ logged 0 _ _ _ _ _ _ _ _ _ at' result
  have none : select s.k.type (-2147483648) (s.k.messages Msginfo.shipped 0) = none := shown.2
  rw [messages, select_eq_none_iff] at none
  refine none 0 (by simp) (.inr (.inr ⟨by decide, ?_⟩))
  rw [type]
  decide

end Svr4.Message
