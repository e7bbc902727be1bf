import River2.Transcript

/-!
# The handshake as a function of the stream

Between a device that sends a stream of bytes and writes that have given outcomes, with no call
failing and no timeout expiring, `river2_auth_run` computes a function of the frames of the stream.

1. `Phase.settle` makes the sends that are due, `phaseAfter` reads a list of frames.
2. `settle_phase`: along every run the automaton stands where the frames extracted so far lead.
3. `outcome_iff`: the run ends with a result if and only if the frames of the whole stream lead to
   it, however the stream was cut into notifications.
-/

namespace River2

open Prog

variable (c : Crypto) (cfg : EcoflowConfig) (devSerial : Bytes)

/-! ## The other side of a run -/

/-- What a run meets: the key pair it makes, the outcomes of its writes, and the notifications. -/
structure Scenario where
  keyPair : Octets 40 × Octets 21
  writeResult : ℕ → EspErr
  stream : List Bytes

/-- The environment of a scenario: no call fails but by a write's given outcome, a wait is answered
by the next notification or goes on, and the clock never reaches a deadline. -/
def scenarioEnv (sc : Scenario) : Env Answer
  | h, .getTime, t => ¬ Expired c cfg devSerial (h ++ [⟨.getTime, t⟩])
  | _, .alloc, ok => ok = true
  | h, .queueReceive _, answer => answer = none ∨ answer = sc.stream[(notifications h).length]?
  | h, .bleWrite _, err => err = sc.writeResult (writes h).length
  | _, .makeKey, keyPair => keyPair = some sc.keyPair
  | _, .sharedSecret, ok => ok = true
  | _, .psa _, ok => ok = true
  | _, .hashCompute, status => status = .success
  | _, _, _ => True

/-- `river2_auth_run` returns `r`. -/
def Outcome (sc : Scenario) (outSession : Option Session) (r : EspErr × Option Session) : Prop :=
  ∃ fuel h, Reach (scenarioEnv c cfg devSerial sc) ([], authRun c cfg devSerial fuel outSession)
    (h, .ret r)

/-! ## The automaton on frames -/

namespace Phase

/-- Make the key pair and the sends that are due. -/
def settle (sc : Scenario) : Phase → Phase
  | .start => sent (sc.writeResult 0) (.sendKey sc.keyPair.1 sc.keyPair.2)
  | .sendKey ourPub priv => sent (sc.writeResult 0) (.sendKey ourPub priv)
  | .sendSeed interim => sent (sc.writeResult 1) (.sendSeed interim)
  | .sendStatus session => sent (sc.writeResult 2) (.sendStatus session)
  | .sendAuth session => sent (sc.writeResult 3) (.sendAuth session)
  | ph => ph

/-- The result a phase stands for. -/
def result (outSession : Option Session) : Phase → Option (EspErr × Option Session)
  | .accepted session => some (.ok, some session)
  | .refused err => some (err, outSession)
  | _ => none

theorem settle_waiting {sc : Scenario} {ph : Phase} (hw : ph.waiting = true) :
    ph.settle sc = ph := by
  cases ph <;> first | rfl | cases hw

theorem result_waiting {ph : Phase} {outSession : Option Session} (hw : ph.waiting = true) :
    ph.result outSession = none := by
  cases ph <;> first | rfl | cases hw

end Phase

/-- Frames arrive one after another, with the sends made in between. -/
def Phase.follow (sc : Scenario) (frames : List Frame) (ph : Phase) : Phase :=
  frames.foldl (fun ph f => (ph.frame c cfg devSerial f).settle sc) ph

/-- The phase after the first frames of a scenario. -/
def phaseAfter (sc : Scenario) (frames : List Frame) : Phase :=
  (Phase.start.settle sc).follow c cfg devSerial sc frames

variable {c cfg devSerial} {sc : Scenario} {outSession : Option Session}

@[simp] theorem follow_nil (ph : Phase) : ph.follow c cfg devSerial sc [] = ph := rfl

@[simp] theorem follow_cons (ph : Phase) (f : Frame) (frames : List Frame) :
    ph.follow c cfg devSerial sc (f :: frames) =
      ((ph.frame c cfg devSerial f).settle sc).follow c cfg devSerial sc frames := rfl

theorem phaseAfter_append (xs ys : List Frame) : phaseAfter c cfg devSerial sc (xs ++ ys) =
    (phaseAfter c cfg devSerial sc xs).follow c cfg devSerial sc ys := List.foldl_append

theorem phaseAfter_snoc (xs : List Frame) (f : Frame) : phaseAfter c cfg devSerial sc (xs ++ [f]) =
    ((phaseAfter c cfg devSerial sc xs).frame c cfg devSerial f).settle sc :=
  phaseAfter_append xs [f]

theorem follow_of_result {ph : Phase} {r : EspErr × Option Session}
    (hr : ph.result outSession = some r) (frames : List Frame) :
    ph.follow c cfg devSerial sc frames = ph := by
  induction frames with
  | nil => rfl
  | cons f frames ih =>
    have hstay : (ph.frame c cfg devSerial f).settle sc = ph := by
      cases ph <;> first | rfl | cases hr
    rw [follow_cons, hstay, ih]

theorem result_of_isPrefix {xs ys : List Frame} {r : EspErr × Option Session} (hxy : xs <+: ys)
    (hr : (phaseAfter c cfg devSerial sc xs).result outSession = some r) :
    (phaseAfter c cfg devSerial sc ys).result outSession = some r := by
  obtain ⟨zs, rfl⟩ := hxy
  rw [phaseAfter_append, follow_of_result hr, hr]

/-! ## The automaton along a run -/

/-- The outcome of the send that is due is the next one of the scenario. -/
theorem settle_due {keys : List (Octets 40 × Octets 21)} {sends : List (Bytes × EspErr)}
    {frames : List Frame} {ph : Phase} {d : Bytes}
    (hr : Reached c cfg devSerial keys sends frames ph)
    (hdue : ph.due c cfg devSerial = some d) :
    ph.settle sc = ph.sent (sc.writeResult sends.length) := by
  cases ph with
  | sendKey ourPub priv =>
    obtain ⟨-, rfl, -⟩ := hr
    rfl
  | sendSeed interim =>
    obtain ⟨_, _, -, rfl, -⟩ := hr
    rfl
  | sendStatus session =>
    obtain ⟨_, _, _, rfl, -⟩ := hr
    rfl
  | sendAuth session =>
    obtain ⟨_, _, _, _, rfl, -⟩ := hr
    rfl
  | _ => cases hdue

theorem settle_sent {ph : Phase} {d : Bytes} (hdue : ph.due c cfg devSerial = some d)
    (err : EspErr) : (ph.sent err).settle sc = ph.sent err := by
  by_cases he : err = .ok
  · subst he
    cases ph <;> first | rfl | cases hdue
  · unfold Phase.sent
    cases ph <;> first | (dsimp only; rw [if_neg he]; rfl) | cases hdue

theorem scenario_hash {h : Hist} {e : Call} {a : Answer e}
    (hans : scenarioEnv c cfg devSerial sc h e a) : hashEnv h e a := by
  cases e <;> trivial

variable {fuel : ℕ}

theorem settle_snoc {h : Hist} {ev : Event Answer} (ht : Tracked c cfg devSerial h)
    (hpre : (handshakeContract c cfg devSerial fuel).pre h ev.1)
    (hans : scenarioEnv c cfg devSerial sc h ev.1 ev.2)
    (ih : (phase c cfg devSerial h).settle sc = phaseAfter c cfg devSerial sc (extracted h)) :
    (phase c cfg devSerial (h ++ [ev])).settle sc =
      phaseAfter c cfg devSerial sc (extracted (h ++ [ev])) := by
  obtain ⟨e, a⟩ := ev
  rw [phase_snoc, extracted_append]
  cases e with
  | makeKey =>
    have hstart : phase c cfg devSerial h = .start := hpre
    have hkey : a = some sc.keyPair := hans
    rw [hstart] at ih ⊢
    subst hkey
    show _ = phaseAfter c cfg devSerial sc (extracted h ++ [])
    rw [List.append_nil, ← ih]
    rfl
  | bleWrite d =>
    have herr : a = sc.writeResult (writes h).length := hans
    show ((phase c cfg devSerial h).sent a).settle sc =
      phaseAfter c cfg devSerial sc (extracted h ++ [])
    rw [List.append_nil, ← ih, settle_due ht hpre, settle_sent hpre, herr]
  | extracted f =>
    have hwait : (phase c cfg devSerial h).waiting = true := hpre.1
    show ((phase c cfg devSerial h).frame c cfg devSerial f).settle sc =
      phaseAfter c cfg devSerial sc (extracted h ++ [f])
    rw [phaseAfter_snoc, ← ih, Phase.settle_waiting hwait]
  | _ =>
    show (phase c cfg devSerial h).settle sc = phaseAfter c cfg devSerial sc (extracted h ++ [])
    rw [List.append_nil, ih]

/-- **The automaton along a run** stands where the frames extracted so far lead. -/
theorem settle_phase {h : Hist} (hlog : Logged (handshakeContract c cfg devSerial fuel) h)
    (hans : Logged (freeContract (scenarioEnv c cfg devSerial sc)) h) :
    (phase c cfg devSerial h).settle sc = phaseAfter c cfg devSerial sc (extracted h) := by
  induction h using List.reverseRecOn with
  | nil => rfl
  | append_singleton h ev ih =>
    exact settle_snoc (tracked_of_logged hlog.of_append) (hlog h ev [] rfl).1 (hans h ev [] rfl).2
      (ih hlog.of_append hans.of_append)

/-! ## Runs of a scenario -/

/-- What the receiver takes in of the stream. -/
def Scenario.bytes (sc : Scenario) : Bytes := sc.stream.flatMap (List.take notifyChunkMax)

theorem fed_scenario : FedBy sc.stream (scenarioEnv c cfg devSerial sc) := fun _ _ _ hans => hans

section Runs

variable {h : Hist} (hans : Logged (freeContract (scenarioEnv c cfg devSerial sc)) h)

include hans

theorem not_fault : ¬ Fault h := by
  rintro ⟨⟨e, a⟩, hmem, hfail⟩
  obtain ⟨h₁, h₂, rfl⟩ := List.append_of_mem hmem
  have ha : scenarioEnv c cfg devSerial sc h₁ e a := (hans h₁ _ h₂ rfl).2
  cases e with
  | alloc => exact Bool.false_ne_true (hfail.symm.trans ha)
  | sharedSecret => exact Bool.false_ne_true (hfail.symm.trans ha)
  | psa op => exact Bool.false_ne_true (hfail.2.symm.trans ha)
  | makeKey => cases hfail.symm.trans ha
  | hashCompute => exact hfail ha
  | _ => exact hfail

theorem not_expired : ¬ Expired c cfg devSerial h := by
  rintro ⟨-, ⟨want, h₁, hwant, t₀, now, h₃, hsk, rfl, hle⟩, h₄, rfl⟩
  rw [List.append_assoc] at hans
  have hx : Expires c cfg devSerial (h₃ ++ [⟨.getTime, now⟩]) :=
    ⟨want, h₁, hwant, t₀, now, h₃, hsk, rfl, hle⟩
  exact (hans h₃ _ h₄ rfl).2 hx.expired

theorem received_isPrefix : received h <+: sc.bytes := by
  obtain ⟨rest, hrest⟩ := notifications_isPrefix fed_scenario hans
  unfold received Scenario.bytes
  rw [← hrest, List.flatMap_append]
  exact List.prefix_append _ _

end Runs

/-! ## The outcome -/

/-- What a run returns is what the frames of the stream lead to. -/
theorem result_of_outcome {r : EspErr × Option Session}
    (ho : Outcome c cfg devSerial sc outSession r) :
    (phaseAfter c cfg devSerial sc (framesOf sc.bytes)).result outSession = some r := by
  obtain ⟨fuel, h, hrun⟩ := ho
  have hans := logged_free hrun
  have hrun := hrun.mono fun _ _ _ => scenario_hash
  have hwp := wp_reach (C := handshakeContract c cfg devSerial fuel) wp_authRun hrun
  have hlog := logged_authRun hrun
  have hsettle := settle_phase hlog hans
  obtain ⟨later, hlater⟩ := received_isPrefix hans
  have hpre : extracted h <+: framesOf sc.bytes := by
    rw [← hlater]
    exact (extracted_prefix_framesOf hlog).trans (Scanner.items_prefix_append _ _)
  refine result_of_isPrefix hpre ?_
  rw [← hsettle]
  rcases hwp with ⟨session, fb, hr, hph, -⟩ | ⟨hout, -, hf | hx | hph⟩
  · rw [hph, hr]
    rfl
  · exact absurd hf (not_fault hans)
  · exact absurd hx.expired (not_expired hans)
  · obtain ⟨err, out⟩ := r
    cases hout
    rw [hph]
    rfl

/-- The environment of a scenario that does not keep the run waiting: the clock stands still, and
every wait is answered by a notification. -/
def promptEnv (c : Crypto) (cfg : EcoflowConfig) (devSerial : Bytes) (sc : Scenario) : Env Answer :=
  fun h e a => scenarioEnv c cfg devSerial sc h e a ∧
    match e, a with
    | .getTime, t => t = 0
    | .queueReceive _, answer => answer ≠ none
    | _, _ => True

theorem prompt_env : Prompt (promptEnv c cfg devSerial sc) := fun _ _ _ hans => hans.2

section Prompt

variable {h : Hist} (hans : Logged (freeContract (promptEnv c cfg devSerial sc)) h)

include hans

theorem getTime_zero {t : ℤ} (ht : ⟨.getTime, t⟩ ∈ h) : t = 0 := by
  obtain ⟨h₁, h₂, rfl⟩ := List.append_of_mem ht
  exact (hans h₁ _ h₂ rfl).2.2

theorem not_expired_zero : ¬ Expired c cfg devSerial (h ++ [⟨.getTime, (0 : ℤ)⟩]) := by
  rintro ⟨-, ⟨want, h₁, -, t₀, now, h₃, ⟨es, rfl, -⟩, rfl, hle⟩, hpre⟩
  have hzero : ∀ t : ℤ, ⟨.getTime, t⟩ ∈ h ++ [⟨.getTime, (0 : ℤ)⟩] → t = 0 := by
    intro t ht
    rcases List.mem_append.mp ht with ht | ht
    · exact getTime_zero hans ht
    · cases List.mem_singleton.mp ht
      rfl
  have h₀ := hzero t₀ (hpre.subset (by simp))
  have h₁ := hzero now (hpre.subset (by simp))
  rw [h₀, h₁] at hle
  exact absurd hle (by decide)

end Prompt

theorem scenario_of_prompt {h : Hist} {e : Call} {a : Answer e}
    (hans : promptEnv c cfg devSerial sc h e a) : scenarioEnv c cfg devSerial sc h e a := hans.1

/-- A prompt run stops for a call only where the stream has ended. -/
theorem stream_ended {h : Hist} (hans : Logged (freeContract (promptEnv c cfg devSerial sc)) h)
    {e : Call} (hstuck : ∀ a, ¬ promptEnv c cfg devSerial sc h e a) :
    (∃ t, e = .queueReceive t) ∧ notifications h = sc.stream := by
  have hscen : Logged (freeContract (scenarioEnv c cfg devSerial sc)) h :=
    fun h₁ ev h₂ heq => ⟨trivial, (hans h₁ ev h₂ heq).2.1⟩
  cases e with
  | queueReceive t =>
    refine ⟨⟨t, rfl⟩, (notifications_isPrefix fed_scenario hscen).eq_of_length_le ?_⟩
    rw [← List.getElem?_eq_none_iff]
    cases hnext : sc.stream[(notifications h).length]? with
    | none => rfl
    | some data => exact absurd ⟨.inr hnext.symm, nofun⟩ (hstuck (some data))
  | getTime => exact absurd ⟨not_expired_zero hans, rfl⟩ (hstuck (0 : ℤ))
  | alloc => exact absurd ⟨rfl, trivial⟩ (hstuck true)
  | bleWrite data => exact absurd ⟨rfl, trivial⟩ (hstuck (sc.writeResult (writes h).length))
  | makeKey => exact absurd ⟨rfl, trivial⟩ (hstuck (some sc.keyPair))
  | sharedSecret => exact absurd ⟨rfl, trivial⟩ (hstuck true)
  | psa op => exact absurd ⟨rfl, trivial⟩ (hstuck true)
  | hashCompute => exact absurd ⟨rfl, trivial⟩ (hstuck HashStatus.success)
  | load x => exact absurd ⟨trivial, trivial⟩ (hstuck (0 : Int8))
  | notifyWait => exact absurd ⟨trivial, trivial⟩ (hstuck (0 : UInt32))
  | extracted f => exact absurd ⟨trivial, trivial⟩ (hstuck ())
  | store x v => exact absurd ⟨trivial, trivial⟩ (hstuck ())
  | notify bits => exact absurd ⟨trivial, trivial⟩ (hstuck ())
  | commanding x => exact absurd ⟨trivial, trivial⟩ (hstuck ())

/-- **The handshake is a function of the frames.** `river2_auth_run` returns `r` if and only if the
automaton ends with `r` on the frames of the stream. -/
theorem outcome_iff {r : EspErr × Option Session} : Outcome c cfg devSerial sc outSession r ↔
    (phaseAfter c cfg devSerial sc (framesOf sc.bytes)).result outSession = some r := by
  refine ⟨result_of_outcome, fun hr => ?_⟩
  -- run on as long as the environment answers; the rounds suffice for the whole stream
  obtain ⟨⟨h, q⟩, hrun, hstuck⟩ := exists_stuck (promptEnv c cfg devSerial sc)
    (authRun c cfg devSerial (sc.bytes.length + sc.stream.length + 1) outSession) []
  have hprompt := logged_free hrun
  have hrun := hrun.mono fun _ _ _ => scenario_of_prompt
  have hans := logged_free hrun
  have hhash := hrun.mono fun _ _ _ => scenario_hash
  have hwp := wp_reach (C := handshakeContract c cfg devSerial _) wp_authRun hhash
  have hlog := logged_authRun hhash
  cases q with
  | ret r' =>
    have hr' := result_of_outcome ⟨_, h, hrun⟩
    rw [hr] at hr'
    cases hr'
    exact ⟨_, h, hrun⟩
  | throw err => exact hwp.elim
  | spin =>
    have hweight : sc.bytes.length + sc.stream.length + 1 ≤ weight h := hwp
    have hreceived := (received_isPrefix hans).length_le
    have hnotified := (notifications_isPrefix fed_scenario hans).length_le
    unfold weight at hweight
    rw [waits_prompt prompt_env hprompt] at hweight
    omega
  | call e k =>
    obtain ⟨⟨t, rfl⟩, hend⟩ := stream_ended hprompt (hstuck e k rfl)
    obtain ⟨hwait, hdrained | hf⟩ := hwp.1
    · have hbytes : received h = sc.bytes := by
        unfold received Scenario.bytes
        rw [hend]
      have hsettle := settle_phase hlog hans
      rw [Phase.settle_waiting hwait, ← hdrained, hbytes] at hsettle
      rw [← hsettle, Phase.result_waiting hwait] at hr
      cases hr
    · exact absurd hf (not_fault hans)

/-! ## Cutting a stream -/

theorem Cut.bytes_eq {ns : List Bytes} {s : Bytes} (hcut : Cut ns s) :
    Scenario.bytes { sc with stream := ns } = s := by
  obtain ⟨hle, rfl⟩ := hcut
  exact flatMap_take_chunk hle

theorem framesOf_append {s : Bytes} (hboundary : frameScanner.rest s = []) (y : Bytes) :
    framesOf (s ++ y) = framesOf s ++ framesOf y := by
  have h := Scanner.reads_drain (S := frameScanner) s y
  unfold framesOf Scanner.items
  rw [h, hboundary, List.nil_append]
  rfl

theorem framesOf_frame_append {x : Bytes} {f : Frame} (hx : frameLook x = .emit f x.length)
    (y : Bytes) : framesOf (x ++ y) = f :: framesOf y := by
  have h := frameScanner.drain_emit (b := x ++ y) (frameScanner.emit_append y hx)
  rw [List.drop_left] at h
  unfold framesOf Scanner.items
  rw [h]

end River2
