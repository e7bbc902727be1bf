import River2.Commands
import River2.Publish

/-!
# The event loop (`app_main`)

`mainRound` is what `app_main` does with a notification value. `believed` reads from the history of
the loop what it holds an output for; `wp_mainRound`: at the end of a round that is what its
variables say, and the variable of every state event taken has been read.
-/

namespace River2

open Prog

/-! ## The code -/

/-- `ac_on` and `ac_state_known`, or their siblings for the DC output. -/
structure PortState where
  on : Bool
  known : Bool
  deriving DecidableEq, Repr

/-- The variables of the loop. -/
structure MainState where
  ac : PortState
  dc : PortState
  deriving DecidableEq, Repr

namespace MainState

/-- Nothing is known yet. -/
def init : MainState := ⟨⟨false, false⟩, ⟨false, false⟩⟩

def port (st : MainState) : Output → PortState
  | .ac => st.ac
  | .dc => st.dc

def setPort (st : MainState) (o : Output) (p : PortState) : MainState :=
  match o with
  | .ac => { st with ac := p }
  | .dc => { st with dc := p }

theorem port_setPort (st : MainState) (o o' : Output) (p : PortState) :
    (st.setPort o p).port o' = if o = o' then p else st.port o' := by
  cases o <;> cases o' <;> rfl

end MainState

/-- `river2_set_ac_output` or `river2_set_dc_output`. -/
def Output.setOutput (c : Crypto) (session : Session) : Output → Bool → Fw Unit
  | .ac => setAcOutput c session
  | .dc => setDcOutput c session

/-- The branch of a state event. -/
def learnState (o : Output) (bits : UInt32) (st : MainState) : Fw MainState := do
  if carries bits o.stateEvt then
    let v ← load o.var
    return st.setPort o ⟨v ≠ 0, true⟩
  else return st

/-- The branch of the battery event, which only logs. -/
def logBattery (bits : UInt32) : Fw Unit := do
  if carries bits evtBatteryLevel then
    let _ ← load .batteryPercent
    return ()
  else return ()

/-- The branch of a button. -/
def toggleOutput (c : Crypto) (session : Session) (o : Output) (bits : UInt32) (st : MainState) :
    Fw MainState := do
  if carries bits o.toggleEvt then
    if (st.port o).known then
      let wantOn := !(st.port o).on
      markCommanding o.var
      match ← (o.setOutput c session wantOn).attempt with
      | .error _ => return st
      | .ok _ => return st.setPort o { st.port o with on := wantOn }
    else return st -- the state is not yet known
  else return st

/-- What the loop does with a notification value. -/
def mainRound (c : Crypto) (session : Session) (bits : UInt32) (st : MainState) : Fw MainState := do
  let st ← learnState .ac bits st
  let st ← learnState .dc bits st
  logBattery bits
  let st ← toggleOutput c session .ac bits st
  toggleOutput c session .dc bits st

/-! ## What the loop believes -/

/-- What the loop holds an output for, whether it has taken a state event whose variable it has yet
to read, and whether the command it is about to send is for this output. -/
structure Belief where
  on : Bool
  owed : Bool
  commanding : Bool

def Belief.init : Belief := ⟨false, false, false⟩

def Belief.next (o : Output) (b : Belief) : Event Answer → Belief
  | ⟨.notifyWait, bits⟩ => { b with owed := carries bits o.stateEvt }
  | ⟨.load x, v⟩ => if x = o.var then { b with on := v ≠ 0, owed := false } else b
  | ⟨.commanding x, _⟩ => { b with commanding := x = o.var }
  | ⟨.bleWrite _, err⟩ => if err = .ok ∧ b.commanding then { b with on := !b.on } else b
  | _ => b

/-- What the loop believes of an output after a history. -/
def believed (o : Output) (h : Hist) : Belief := h.foldl (Belief.next o) .init

@[simp] theorem believed_snoc (o : Output) (h : Hist) (ev : Event Answer) :
    believed o (h ++ [ev]) = (believed o h).next o ev := List.foldl_concat ..

theorem Belief.next_silent {o : Output} {b : Belief} {ev : Event Answer}
    (he : ev.1.silent = true) : b.next o ev = b := by
  obtain ⟨e, a⟩ := ev
  cases e <;> first | rfl | cases he

theorem believed_quiet {o : Output} {h h' : Hist} (hq : Quiet h h') :
    believed o h' = believed o h := by
  obtain ⟨es, rfl, hes⟩ := hq
  induction es using List.reverseRecOn with
  | nil => rw [List.append_nil]
  | append_singleton es ev ih =>
    rw [← List.append_assoc, believed_snoc, Belief.next_silent (hes ev (by simp))]
    exact ih fun ev' hev' => hes ev' (List.mem_append_left _ hev')

/-- The variables of the loop say what it believes. -/
def Follows (st : MainState) (h : Hist) : Prop := ∀ o, (st.port o).on = (believed o h).on

/-- Between rounds, no read is owed. -/
def Informed (st : MainState) (h : Hist) : Prop :=
  Follows st h ∧ ∀ o, (believed o h).owed = false

/-! ## Specifications -/

/-- The loop neither writes the shared variables nor raises events. -/
def mainContract : Contract Call Answer where
  env := anyEnv
  pre := fun _ e =>
    match e with
    | .store _ _ | .notify _ | .notifyWait => False
    | _ => True
  out := fun _ => False

theorem permits_main : Permits mainContract := by
  intro h e he
  cases e <;> trivial

section Specs

variable {h : Hist} {R : EspErr → Hist → Prop} {st : MainState} {bits : UInt32}

theorem wp_learnState (o : Output) (hst : Follows st h)
    (howed : (believed o h).owed = carries bits o.stateEvt) :
    wp mainContract (learnState o bits st)
      (fun st' h' => Follows st' h' ∧ (believed o h').owed = false ∧
        ∀ o', o' ≠ o → (believed o' h').owed = (believed o' h).owed) R h := by
  unfold learnState
  split_ifs with hevt
  · refine wp_do.mpr (wp_ask.mpr ⟨trivial, fun v _ => ?_⟩)
    have hnext : ∀ o', believed o' (h ++ [⟨.load o.var, v⟩]) = if o = o' then
        { believed o h with on := v ≠ 0, owed := false } else believed o' h := by
      intro o'
      rw [believed_snoc]
      by_cases ho : o = o'
      · subst ho
        exact (if_pos rfl).trans (if_pos rfl).symm
      · exact (if_neg fun hvar => ho (Output.var_inj.mp hvar)).trans (if_neg ho).symm
    refine ⟨fun o' => ?_, ?_, fun o' ho' => ?_⟩
    · rw [hnext, MainState.port_setPort]
      split_ifs
      · rfl
      · exact hst o'
    · rw [hnext, if_pos rfl]
    · rw [hnext, if_neg ho'.symm]
  · exact ⟨hst, howed.trans (Bool.eq_false_iff.mpr hevt), fun _ _ => rfl⟩

theorem wp_logBattery :
    wp mainContract (logBattery bits)
      (fun _ h' => ∀ o, believed o h' = believed o h) R h := by
  unfold logBattery
  split_ifs with hevt
  · refine wp_do.mpr (wp_ask.mpr ⟨trivial, fun v _ o => ?_⟩)
    rw [believed_snoc]
    exact if_neg o.var_ne_batteryPercent.symm
  · exact fun _ => rfl

/-- A command that is sent turns the output over, another one changes nothing. -/
theorem wp_setOutput {c : Crypto} {session : Session} {o : Output} {wantOn : Bool}
    {Q : Except EspErr Unit → Hist → Prop}
    (hok : ∀ h' data, Quiet h h' → Q (.ok ()) (h' ++ [⟨.bleWrite data, .ok⟩]))
    (herr : ∀ err h', (∀ o', believed o' h' = believed o' h) → Q (.error err) h') :
    wp mainContract (o.setOutput c session wantOn).attempt Q R h := by
  have hsend : ∀ cmdSet cmdId payload, payload.length ≤ 282 →
      wp mainContract (sendCommand c session addrMppt cmdSet cmdId payload)
        (fun a => Q (.ok a)) (fun err => Q (.error err)) h := by
    intro cmdSet cmdId payload hfit
    refine wp_sendInnerEncrypted permits_main hfit ?_ ?_ ?_ ?_
    · intro _ _
      trivial
    · intro h' hq _
      exact hok h' _ hq
    · intro err h' hq hne _
      refine herr err _ fun o' => ?_
      rw [believed_snoc, ← believed_quiet hq]
      exact if_neg fun hsent => hne hsent.1
    · intro h' hq _
      exact herr _ _ fun o' => believed_quiet hq
  refine wp_attempt.mpr ?_
  cases o with
  | ac =>
    show wp mainContract (setAcOutput c session wantOn) _ _ h
    unfold setAcOutput
    refine hsend _ _ _ ?_
    show 7 ≤ 282
    decide
  | dc =>
    show wp mainContract (setDcOutput c session wantOn) _ _ h
    unfold setDcOutput
    refine hsend _ _ _ ?_
    show 1 ≤ 282
    decide

theorem wp_toggleOutput {c : Crypto} {session : Session} (o : Output) (hst : Informed st h) :
    wp mainContract (toggleOutput c session o bits st) Informed R h := by
  unfold toggleOutput
  split_ifs with hevt hknown
  · refine wp_do.mpr (wp_ask.mpr ⟨trivial, fun _ _ => ?_⟩)
    have hnext : ∀ o', believed o' (h ++ [⟨.commanding o.var, ()⟩]) =
        { believed o' h with commanding := o = o' } := by
      intro o'
      rw [believed_snoc]
      exact congrArg _ (decide_eq_decide.mpr Output.var_inj)
    generalize h ++ [⟨.commanding o.var, ()⟩] = h₁ at hnext ⊢
    refine wp_do.mpr (wp_setOutput ?_ ?_)
    · intro h₂ data hq
      have hsent : ∀ o', believed o' (h₂ ++ [⟨.bleWrite data, .ok⟩]) =
          { believed o' h₁ with
            on := if o = o' then !(believed o' h).on else (believed o' h).on } := by
        intro o'
        rw [believed_snoc, believed_quiet hq, hnext]
        by_cases ho : o = o'
        · simp [Belief.next, ho]
        · simp [Belief.next, ho]
      refine ⟨fun o' => ?_, fun o' => ?_⟩
      · rw [hsent, MainState.port_setPort]
        dsimp only
        split_ifs with ho
        · rw [← ho, hst.1 o]
        · exact hst.1 o'
      · rw [hsent, hnext]
        exact hst.2 o'
    · intro err h₂ hsame
      refine ⟨fun o' => ?_, fun o' => ?_⟩
      · rw [hsame, hnext]
        exact hst.1 o'
      · rw [hsame, hnext]
        exact hst.2 o'
  · exact hst
  · exact hst

/-- **A round of the loop.** It has just taken the notification value; at its end the variables say
what it believes, and nothing is owed. -/
theorem wp_mainRound {c : Crypto} {session : Session} (hst : Follows st h)
    (howed : ∀ o, (believed o h).owed = carries bits o.stateEvt) :
    wp mainContract (mainRound c session bits st) Informed R h := by
  unfold mainRound
  refine wp_do.mpr (wp_mono (wp_learnState .ac hst (howed .ac)) ?_ fun _ _ => id)
  rintro st₁ h₁ ⟨hst₁, hac₁, hother₁⟩
  have hdc₁ : (believed .dc h₁).owed = carries bits Output.dc.stateEvt := by
    rw [hother₁ .dc nofun, howed]
  refine wp_do.mpr (wp_mono (wp_learnState .dc hst₁ hdc₁) ?_ fun _ _ => id)
  rintro st₂ h₂ ⟨hst₂, hdc₂, hother₂⟩
  have hac₂ : (believed .ac h₂).owed = false := by
    rw [hother₂ .ac nofun, hac₁]
  refine wp_do.mpr (wp_mono wp_logBattery (fun _ h₃ hsame => ?_) fun _ _ => id)
  have hinf : Informed st₂ h₃ := by
    refine ⟨fun o => ?_, fun o => ?_⟩
    · rw [hsame]
      exact hst₂ o
    · rw [hsame]
      cases o with
      | ac => exact hac₂
      | dc => exact hdc₂
  refine wp_do.mpr (wp_mono (wp_toggleOutput .ac hinf) (fun st₄ h₄ hinf₄ => ?_) fun _ _ => id)
  exact wp_toggleOutput .dc hinf₄

end Specs

end River2
