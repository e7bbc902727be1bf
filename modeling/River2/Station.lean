import River2.MainLoop

/-!
# The telemetry task and the event loop

A `Station` is both tasks over the variables and the notification value they share. `Station.Step`
interleaves their calls, the packets that telemetry handles and the notifications of others in any
order.

1. `inv_run`: along every run, an event that is raised is on its way to the loop until the loop
   holds the output for what telemetry has last stored.
2. `belief_converges`: once everything has come to rest, the loop holds an output for what its last
   heartbeat says, if the output's state event was raised since its last command.
3. `belief_stays_wrong`: a heartbeat that raises no event corrects nothing.
-/

namespace River2

open Prog

/-- The shared variables after a call. -/
def Call.storing (vars : Shared → Int8) : Call → Shared → Int8
  | .store x v => Function.update vars x v
  | _ => vars

/-- The notification value after a call. -/
def Call.notifying (pending : UInt32) : Call → UInt32
  | .notify bits => pending ||| bits
  | _ => pending

/-- The two tasks. `heard` and `log` are the calls of telemetry and of the loop so far. Of each
output: the state byte last seen, whether a heartbeat with one has come since its last command that
was sent, and whether its state event was raised since. -/
structure Station where
  vars : Shared → Int8
  pending : UInt32
  /-- what is left to do with the packet in hand; between packets, the time of the next event -/
  telemetry : Fw ℤ
  heard : Hist
  /-- what is left of the round; its variables while the loop waits -/
  main : Fw MainState
  log : Hist
  seen : Output → Option UInt8
  reported : Output → Bool
  raised : Output → Bool

namespace Station

/-- Both tasks are about to start. -/
def boot : Station where
  vars := fun _ => -1
  pending := 0
  telemetry := .ret 0
  heard := []
  main := .ret .init
  log := []
  seen := fun _ => none
  reported := fun _ => false
  raised := fun _ => false

/-- The answers to a call: a load reads the shared variable. -/
def Answers (s : Station) : (e : Call) → Answer e → Prop
  | .load x, v => v = s.vars x
  | _, _ => True

/-- An answered call sends a command for an output. -/
def sends (o : Output) (log : Hist) : Event Answer → Bool
  | ⟨.bleWrite _, err⟩ => err = .ok && (believed o log).commanding
  | _ => false

/-- Another task or a timer notifies the loop. -/
def post (s : Station) (bits : UInt32) : Station := { s with pending := s.pending ||| bits }

/-- Telemetry starts on a packet. -/
def take (s : Station) (intervalMs : ℕ) (next : ℤ) (pkt : InnerPacket) : Station :=
  { s with
    telemetry := telemetryPacket intervalMs next pkt
    seen := seenWith s.seen pkt
    reported := fun o => (o.byteOf pkt).isSome || s.reported o }

/-- A call of telemetry is answered. -/
def hear (s : Station) (e : Call) (a : Answer e) (k : Answer e → Fw ℤ) : Station :=
  { s with
    vars := e.storing s.vars
    pending := e.notifying s.pending
    telemetry := k a
    heard := s.heard ++ [⟨e, a⟩]
    raised := fun o => carries (e.notifying 0) o.stateEvt || s.raised o }

/-- The loop takes the notification value and clears it. -/
def wake (s : Station) (c : Crypto) (session : Session) (st : MainState) : Station :=
  { s with
    pending := 0
    main := mainRound c session s.pending st
    log := s.log ++ [⟨.notifyWait, s.pending⟩] }

/-- A call of the loop is answered. -/
def act (s : Station) (e : Call) (a : Answer e) (k : Answer e → Fw MainState) : Station :=
  { s with
    vars := e.storing s.vars
    pending := e.notifying s.pending
    main := k a
    log := s.log ++ [⟨e, a⟩]
    reported := fun o => s.reported o && !sends o s.log ⟨e, a⟩
    raised := fun o => s.raised o && !sends o s.log ⟨e, a⟩ }

/-- One step of the tasks or of their environment. -/
inductive Step (c : Crypto) (session : Session) (intervalMs : ℕ) : Station → Station → Prop where
  | post {s} (bits : UInt32) (hbits : ∀ o : Output, carries bits o.stateEvt = false) :
      Step c session intervalMs s (s.post bits)
  | take {s next} (pkt : InnerPacket) (htel : s.telemetry = .ret next) :
      Step c session intervalMs s (s.take intervalMs next pkt)
  | hear {s e k} (a : Answer e) (htel : s.telemetry = .call e k) (hans : s.Answers e a) :
      Step c session intervalMs s (s.hear e a k)
  | wake {s st} (hmain : s.main = .ret st) (hpending : s.pending ≠ 0) :
      Step c session intervalMs s (s.wake c session st)
  | act {s e k} (a : Answer e) (hmain : s.main = .call e k) (hans : s.Answers e a) :
      Step c session intervalMs s (s.act e a k)

abbrev Run (c : Crypto) (session : Session) (intervalMs : ℕ) (s t : Station) : Prop :=
  Relation.ReflTransGen (Step c session intervalMs) s t

/-! ## What a call does -/

theorem carries_notifying (pending : UInt32) (e : Call) (evt : UInt32) :
    carries (e.notifying pending) evt = (carries pending evt || carries (e.notifying 0) evt) := by
  cases e with
  | notify bits =>
    show carries (pending ||| bits) evt = (_ || carries (0 ||| bits) evt)
    rw [carries_or, carries_or, carries_zero, Bool.false_or]
  | _ => exact (Bool.or_false _).symm.trans (congrArg _ (carries_zero evt).symm)

theorem storing_eq {vars : Shared → Int8} {o : Output} {p : Published} (hv : vars o.var = p.value)
    (e : Call) (a : Answer e) : e.storing vars o.var = (p.next o ⟨e, a⟩).value := by
  cases e with
  | store x v =>
    show Function.update vars x v o.var = (if x = o.var then _ else p).value
    rw [Function.update_apply]
    by_cases hx : x = o.var
    · rw [if_pos hx.symm, if_pos hx]
    · rw [if_neg (Ne.symm hx), if_neg hx, hv]
  | _ => exact hv

/-- A call stores the output's variable, raises its event, or publishes nothing of it. -/
theorem published_next_cases (o : Output) (p : Published) (e : Call) (a : Answer e) :
    (p.next o ⟨e, a⟩).due = true ∨ carries (e.notifying 0) o.stateEvt = true ∨
      p.next o ⟨e, a⟩ = p := by
  cases e with
  | store x v =>
    by_cases hx : x = o.var
    · left
      exact congrArg Published.due (if_pos hx)
    · right; right
      exact if_neg hx
  | notify bits =>
    by_cases hbits : carries bits o.stateEvt = true
    · right; left
      show carries (0 ||| bits) _ = true
      rw [carries_or, hbits, Bool.or_true]
    · right; right
      show Published.mk p.value (p.due && !carries bits o.stateEvt) = p
      rw [Bool.eq_false_iff.mpr hbits, Bool.not_false, Bool.and_true]
  | _ => exact .inr (.inr rfl)

theorem seen_of_notifying {seen : Output → Option UInt8} {h : Hist} {e : Call} {o : Output}
    (hpre : (publishContract seen).pre h e) (hevt : carries (e.notifying 0) o.stateEvt = true) :
    (seen o).isSome = true := by
  cases e with
  | notify bits =>
    change carries (0 ||| bits) o.stateEvt = true at hevt
    rw [carries_or, carries_zero, Bool.false_or] at hevt
    exact hpre o hevt
  | _ => exact absurd ((carries_zero _).symm.trans hevt) Bool.false_ne_true

/-- A call of the loop sends a command for the output, reads its variable, or leaves alone what the
loop believes of it. -/
theorem believed_next_cases {log : Hist} {e : Call} (hpre : mainContract.pre log e) (o : Output)
    (a : Answer e) :
    sends o log ⟨e, a⟩ = true ∨
      (∃ v : Int8, (⟨e, a⟩ : Event Answer) = ⟨.load o.var, v⟩ ∧
        ((believed o log).next o ⟨e, a⟩).on = decide (v ≠ 0)) ∨
      ((believed o log).next o ⟨e, a⟩).on = (believed o log).on ∧
        ((believed o log).next o ⟨e, a⟩).owed = (believed o log).owed := by
  cases e with
  | load x =>
    by_cases hx : x = o.var
    · right; left
      subst hx
      exact ⟨a, rfl, congrArg Belief.on (if_pos rfl)⟩
    · right; right
      exact ⟨congrArg Belief.on (if_neg hx), congrArg Belief.owed (if_neg hx)⟩
  | bleWrite data =>
    by_cases hsent : a = .ok ∧ (believed o log).commanding
    · left
      exact Bool.and_eq_true_iff.mpr ⟨decide_eq_true hsent.1, hsent.2⟩
    · right; right
      exact ⟨congrArg Belief.on (if_neg hsent), congrArg Belief.owed (if_neg hsent)⟩
  | notifyWait => exact hpre.elim
  | _ => exact .inr (.inr ⟨rfl, rfl⟩)

/-! ## The invariant -/

/-- The last store for the output is on its way to the loop: its event is to be raised, is pending,
or is taken and the variable to be read. -/
def OnTheWay (s : Station) (o : Output) : Prop :=
  (published o s.heard).due = true ∨ carries s.pending o.stateEvt = true ∨
    (believed o s.log).owed = true

section OnTheWay

variable {s : Station} {o : Output}

theorem onTheWay_of_raise {e : Call} {a : Answer e} {k : Answer e → Fw ℤ}
    (hevt : carries (e.notifying 0) o.stateEvt = true) : (s.hear e a k).OnTheWay o := by
  refine .inr (.inl ?_)
  show carries (e.notifying s.pending) _ = true
  rw [carries_notifying, hevt, Bool.or_true]

/-- A call of telemetry puts the last store on its way, or stores nothing for the output and takes
nothing off its way. -/
theorem hear_cases (e : Call) (a : Answer e) (k : Answer e → Fw ℤ) :
    (s.hear e a k).OnTheWay o ∨
      published o (s.hear e a k).heard = published o s.heard ∧
        (s.OnTheWay o → (s.hear e a k).OnTheWay o) := by
  have hpub : published o (s.hear e a k).heard = (published o s.heard).next o ⟨e, a⟩ :=
    published_snoc ..
  rcases published_next_cases o (published o s.heard) e a with hdue | hevt | hsame
  · refine .inl (.inl ?_)
    rw [hpub, hdue]
  · exact .inl (onTheWay_of_raise hevt)
  · refine .inr ⟨hpub.trans hsame, Or.imp (fun hdue => ?_) (Or.imp_left fun hpending => ?_)⟩
    · rw [hpub, hsame, hdue]
    · show carries (e.notifying s.pending) _ = true
      rw [carries_notifying, hpending, Bool.true_or]

theorem onTheWay_post (bits : UInt32) (hway : s.OnTheWay o) : (s.post bits).OnTheWay o := by
  refine hway.imp_right (Or.imp_left fun hpending => ?_)
  show carries (s.pending ||| bits) _ = true
  rw [carries_or, hpending, Bool.true_or]

theorem onTheWay_wake {c : Crypto} {session : Session} {st : MainState}
    (howed : (believed o s.log).owed = false) (hway : s.OnTheWay o) :
    (s.wake c session st).OnTheWay o := by
  rcases hway with hdue | hpending | howed'
  · exact .inl hdue
  · refine .inr (.inr ?_)
    show (believed o (s.log ++ [_])).owed = true
    rw [believed_snoc]
    exact hpending
  · rw [howed] at howed'
    cases howed'

theorem onTheWay_act {e : Call} {a : Answer e} {k : Answer e → Fw MainState}
    (hpending : e.notifying s.pending = s.pending)
    (howed : ((believed o s.log).next o ⟨e, a⟩).owed = (believed o s.log).owed)
    (hway : s.OnTheWay o) : (s.act e a k).OnTheWay o := by
  refine hway.imp_right (Or.imp (fun hp => ?_) fun howed' => ?_)
  · show carries (e.notifying s.pending) _ = true
    rw [hpending]
    exact hp
  · show (believed o (s.log ++ [_])).owed = true
    rw [believed_snoc, howed, howed']

end OnTheWay

/-- The loop holds the output for what telemetry has last stored. -/
def InStep (s : Station) (o : Output) : Prop :=
  (believed o s.log).on = decide ((published o s.heard).value ≠ 0)

/-- What holds in every reachable state. -/
structure Inv (s : Station) : Prop where
  vars : ∀ o : Output, s.vars o.var = (published o s.heard).value
  telemetry : wp (publishContract s.seen) s.telemetry (fun _ h => Settled s.seen h)
    (fun _ _ => False) s.heard
  main : wp mainContract s.main Informed (fun _ _ => False) s.log
  seen : ∀ o, s.raised o = true → (s.seen o).isSome = true
  learnt : ∀ o, s.raised o = true → s.OnTheWay o ∨ s.InStep o

theorem inv_boot : Inv boot where
  vars := fun _ => rfl
  telemetry := fun _ => ⟨rfl, nofun⟩
  main := ⟨fun o => by cases o <;> rfl, fun _ => rfl⟩
  seen := fun _ h => nomatch h
  learnt := fun _ h => nomatch h

variable {s t : Station} {o : Output}

/-- A step that takes no event off its way and leaves both sides alone. -/
theorem learnt_mono (hlearnt : s.OnTheWay o ∨ s.InStep o) (hway : s.OnTheWay o → t.OnTheWay o)
    (hpub : published o t.heard = published o s.heard)
    (hon : (believed o t.log).on = (believed o s.log).on) : t.OnTheWay o ∨ t.InStep o := by
  refine hlearnt.imp hway fun hstep => ?_
  unfold InStep
  rw [hon, hpub]
  exact hstep

theorem inv_post (hinv : Inv s) (bits : UInt32) : Inv (s.post bits) := by
  refine ⟨hinv.vars, hinv.telemetry, hinv.main, hinv.seen, fun o hr => ?_⟩
  exact learnt_mono (hinv.learnt o hr) (onTheWay_post bits) rfl rfl

theorem inv_take (hinv : Inv s) {intervalMs : ℕ} {next : ℤ} {pkt : InnerPacket}
    (htel : s.telemetry = .ret next) : Inv (s.take intervalMs next pkt) := by
  have hset := hinv.telemetry
  rw [htel] at hset
  refine ⟨hinv.vars, wp_telemetryPacket_settled hset, hinv.main, fun o hr => ?_, hinv.learnt⟩
  show ((o.byteOf pkt).or (s.seen o)).isSome = true
  rw [Option.isSome_or, hinv.seen o hr, Bool.or_true]

theorem inv_hear (hinv : Inv s) {e : Call} {a : Answer e} {k : Answer e → Fw ℤ}
    (htel : s.telemetry = .call e k) (hans : s.Answers e a) : Inv (s.hear e a k) := by
  have hwp := hinv.telemetry
  rw [htel] at hwp
  obtain ⟨hpre, hk⟩ := hwp
  have henv : (publishContract s.seen).env s.heard e a := by
    cases e with
    | load x =>
      rintro o rfl
      exact Eq.trans hans (hinv.vars o)
    | _ => trivial
  refine ⟨fun o => ?_, hk a henv, hinv.main, fun o hr => ?_, fun o hr => ?_⟩
  · show e.storing s.vars o.var = (published o (s.heard ++ [_])).value
    rw [published_snoc]
    exact storing_eq (hinv.vars o) e a
  · rcases Bool.or_eq_true_iff.mp hr with hevt | hr
    · exact seen_of_notifying hpre hevt
    · exact hinv.seen o hr
  · rcases Bool.or_eq_true_iff.mp hr with hevt | hr
    · exact .inl (onTheWay_of_raise hevt)
    rcases hear_cases e a k with hway | ⟨hsame, hkeep⟩
    · exact .inl hway
    · exact learnt_mono (hinv.learnt o hr) hkeep hsame rfl

theorem inv_wake (hinv : Inv s) {c : Crypto} {session : Session} {st : MainState}
    (hmain : s.main = .ret st) : Inv (s.wake c session st) := by
  have hinf := hinv.main
  rw [hmain] at hinf
  have hnext : ∀ o, believed o (s.wake c session st).log =
      { believed o s.log with owed := carries s.pending o.stateEvt } := fun o => believed_snoc ..
  refine ⟨hinv.vars, hinv.telemetry, wp_mainRound (fun o => ?_) (fun o => ?_), hinv.seen,
    fun o hr => learnt_mono (hinv.learnt o hr) (onTheWay_wake (hinf.2 o)) rfl ?_⟩
  · rw [hnext]
    exact hinf.1 o
  · rw [hnext]
  · rw [hnext]

theorem inv_act (hinv : Inv s) {e : Call} {a : Answer e} {k : Answer e → Fw MainState}
    (hmain : s.main = .call e k) (hans : s.Answers e a) : Inv (s.act e a k) := by
  have hwp := hinv.main
  rw [hmain] at hwp
  obtain ⟨hpre, hk⟩ := hwp
  have hbel : ∀ o, believed o (s.act e a k).log = (believed o s.log).next o ⟨e, a⟩ :=
    fun o => believed_snoc ..
  have hshared : e.storing s.vars = s.vars ∧ e.notifying s.pending = s.pending := by
    cases e <;> first | exact ⟨rfl, rfl⟩ | exact hpre.elim
  refine ⟨fun o => ?_, hinv.telemetry, hk a trivial, fun o hr => ?_, fun o hr => ?_⟩
  · exact (congrFun hshared.1 o.var).trans (hinv.vars o)
  · exact hinv.seen o (Bool.and_eq_true_iff.mp hr).1
  · obtain ⟨hr, hsends⟩ := Bool.and_eq_true_iff.mp hr
    rcases believed_next_cases hpre o a with hsent | ⟨v, hev, hon⟩ | ⟨hon, howed⟩
    · rw [hsent] at hsends
      cases hsends
    · cases hev
      refine .inr ?_
      unfold InStep
      rw [hbel, hon, show v = _ from Eq.trans hans (hinv.vars o)]
      rfl
    · exact learnt_mono (hinv.learnt o hr) (onTheWay_act hshared.2 howed) rfl
        ((congrArg Belief.on (hbel o)).trans hon)

/-- **Every step** keeps the invariant. -/
theorem inv_step {c : Crypto} {session : Session} {intervalMs : ℕ} (hinv : Inv s)
    (hst : Step c session intervalMs s t) : Inv t := by
  cases hst with
  | post bits => exact inv_post hinv bits
  | take pkt htel => exact inv_take hinv htel
  | hear a htel hans => exact inv_hear hinv htel hans
  | wake hmain => exact inv_wake hinv hmain
  | act a hmain hans => exact inv_act hinv hmain hans

/-- **Every run** keeps the invariant. -/
theorem inv_run {c : Crypto} {session : Session} {intervalMs : ℕ} (hinv : Inv s)
    (hrun : Run c session intervalMs s t) : Inv t := by
  induction hrun with
  | refl => exact hinv
  | tail _ hst ih => exact inv_step ih hst

/-! ## Runs without failures -/

/-- The answer of a call when nothing fails. -/
def reply (s : Station) : (e : Call) → Answer e
  | .load x => s.vars x
  | .getTime => (0 : ℤ)
  | .alloc | .sharedSecret | .psa _ => true
  | .queueReceive _ | .makeKey => none
  | .bleWrite _ => EspErr.ok
  | .hashCompute => HashStatus.success
  | .notifyWait => (0 : UInt32)
  | .extracted _ | .store _ _ | .notify _ | .commanding _ => ()

theorem answers_reply (s : Station) (e : Call) : s.Answers e (s.reply e) := by
  cases e <;> first | rfl | trivial

/-- Telemetry runs to the end of its packet. -/
def finishTelemetry : Fw ℤ → Station → Station
  | .call e k, s => finishTelemetry (k (s.reply e)) (s.hear e (s.reply e) k)
  | _, s => s

/-- The loop runs to the end of its round. -/
def finishMain : Fw MainState → Station → Station
  | .call e k, s => finishMain (k (s.reply e)) (s.act e (s.reply e) k)
  | _, s => s

/-- Telemetry, if it is between packets, handles a packet. -/
def packet (intervalMs : ℕ) (pkt : InnerPacket) (s : Station) : Station :=
  match s.telemetry with
  | .ret next => finishTelemetry (telemetryPacket intervalMs next pkt) (s.take intervalMs next pkt)
  | _ => s

/-- The loop, if it waits and something is pending, does a round. -/
def round (c : Crypto) (session : Session) (s : Station) : Station :=
  match s.main with
  | .ret st =>
    if s.pending ≠ 0 then finishMain (mainRound c session s.pending st) (s.wake c session st) else s
  | _ => s

section Drivers

variable {c : Crypto} {session : Session} {intervalMs : ℕ}

theorem run_finishTelemetry (p : Fw ℤ) (s : Station) (htel : s.telemetry = p) :
    Run c session intervalMs s (finishTelemetry p s) := by
  induction p generalizing s with
  | call e k ih => exact .head (.hear _ htel (answers_reply s e)) (ih _ _ rfl)
  | _ => exact .refl

theorem run_finishMain (p : Fw MainState) (s : Station) (hmain : s.main = p) :
    Run c session intervalMs s (finishMain p s) := by
  induction p generalizing s with
  | call e k ih => exact .head (.act _ hmain (answers_reply s e)) (ih _ _ rfl)
  | _ => exact .refl

theorem run_packet (pkt : InnerPacket) (s : Station) :
    Run c session intervalMs s (s.packet intervalMs pkt) := by
  unfold packet
  split
  · exact .head (.take pkt ‹_›) (run_finishTelemetry _ _ rfl)
  · exact .refl

theorem run_round (s : Station) : Run c session intervalMs s (s.round c session) := by
  unfold round
  split
  · split_ifs with hpending
    · exact .head (.wake ‹_› hpending) (run_finishMain _ _ rfl)
    · exact .refl
  · exact .refl

end Drivers

/-- An MPPT heartbeat with the state bytes of the two outputs. -/
def heartbeat (ac dc : UInt8) : InnerPacket :=
  ⟨addrMppt, addrApp, cmdsetHeartbeat, cmdidHeartbeat,
    List.replicate mpptCarStateOffset 0 ++ [dc] ++ List.replicate 9 0 ++ [ac]⟩

/-! ## Convergence -/

theorem toInt8_eq_zero {b : UInt8} : b.toInt8 = 0 ↔ b = 0 := by
  constructor
  · intro hb
    exact congrArg Int8.toUInt8 hb
  · rintro rfl
    rfl

/-- **Belief converges.** No notification is pending, the loop waits, telemetry is between packets.
If a heartbeat has raised an output's state event since the last command for the output that was
sent, the loop holds the output for what its last heartbeat says. -/
theorem belief_converges {c : Crypto} {session : Session} {intervalMs : ℕ} {s : Station}
    {st : MainState} {next : ℤ} (hrun : Run c session intervalMs boot s) (hpending : s.pending = 0)
    (hmain : s.main = .ret st) (htel : s.telemetry = .ret next) {o : Output}
    (hraised : s.raised o = true) :
    ∃ b, s.seen o = some b ∧ (st.port o).on = decide (b ≠ 0) := by
  have hinv := inv_run inv_boot hrun
  have hset := hinv.telemetry
  rw [htel] at hset
  have hinf := hinv.main
  rw [hmain] at hinf
  obtain ⟨b, hb⟩ := Option.isSome_iff_exists.mp (hinv.seen o hraised)
  refine ⟨b, hb, ?_⟩
  rcases hinv.learnt o hraised with (hdue | hpend | howed) | hstep
  · exact absurd ((hset o).1.symm.trans hdue) Bool.false_ne_true
  · rw [hpending, carries_zero] at hpend
    cases hpend
  · exact absurd ((hinf.2 o).symm.trans howed) Bool.false_ne_true
  · rw [hinf.1 o, hstep, (hset o).2 b hb, decide_eq_decide, Ne, toInt8_eq_zero]

/-- The outputs are off, and the button of the AC output is pressed: the loop sends the command. -/
def pressed : Station :=
  let known := (boot.packet 60000 (heartbeat 0 0)).round Sample.crypto Sample.session
  (known.post evtToggleAcPort).round Sample.crypto Sample.session

theorem run_pressed : Run Sample.crypto Sample.session 60000 boot pressed := by
  have hknown : Run Sample.crypto Sample.session 60000 boot
      ((boot.packet 60000 (heartbeat 0 0)).round Sample.crypto Sample.session) :=
    (run_packet (heartbeat 0 0) boot).trans (run_round _)
  exact (hknown.tail (.post evtToggleAcPort fun o => by cases o <;> rfl)).trans (run_round _)

/-- The output follows the command: a heartbeat raises its event, and the loop reads it. -/
theorem belief_converges_pressed :
    let s := (pressed.packet 60000 (heartbeat 1 0)).round Sample.crypto Sample.session
    pressed.raised .ac = false ∧
    ∃ b, s.seen .ac = some b ∧ ((MainState.mk ⟨true, true⟩ ⟨false, true⟩).port .ac).on =
      decide (b ≠ 0) := by
  intro s
  have hrun : Run Sample.crypto Sample.session 60000 boot s :=
    (run_pressed.trans (run_packet (heartbeat 1 0) _)).trans (run_round _)
  refine ⟨by decide +kernel, belief_converges (o := .ac) hrun (by decide +kernel)
    (eq_ret_of_result? (by decide +kernel)) (eq_ret_of_result? (a := 0) (by decide +kernel))
    (by decide +kernel)⟩

/-- A command that the output ignores: the loop has sent it and holds the output for on, the
heartbeats go on to say off, and nothing corrects the loop. -/
theorem belief_stays_wrong :
    let s := pressed.packet 60000 (heartbeat 0 0)
    ∃ st next, Run Sample.crypto Sample.session 60000 boot s ∧ s.pending = 0 ∧
      s.main = .ret st ∧ s.telemetry = .ret next ∧ s.reported .ac = true ∧
      s.seen .ac = some 0 ∧ (st.port .ac).on = true := by
  intro s
  refine ⟨⟨⟨true, true⟩, ⟨false, true⟩⟩, 0, run_pressed.trans (run_packet (heartbeat 0 0) _),
    by decide +kernel, eq_ret_of_result? (by decide +kernel), eq_ret_of_result? (by decide +kernel),
    by decide +kernel, by decide +kernel, rfl⟩

end Station

end River2
