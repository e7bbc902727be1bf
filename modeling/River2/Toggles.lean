import River2.MainLoop

/-!
# What the buttons do (`app_main`)

1. `eventLoop` is the loop of `app_main` over the functions it calls: the wait, the getters and the
   two commands. `mainLoop_eq`: with the commands' programs in their place it is the loop over the
   calls of the firmware.
2. `wakes` reads from a history what each wake-up was for an output, `commands` which commands it
   got. `PortState.next` is what a wake-up means for an output, by itself.
3. `wp_eventLoop`: the loop commands each output as `portCommands` says of its own wake-ups.
4. `toggles_follow_knowledge` puts it together; `alternates`: without news the commands that succeed
   alternate.
-/

namespace River2

open Prog

/-! ## The loop and its functions -/

/-- The functions the loop calls. -/
inductive LoopCall where
  /-- `xTaskNotifyWait` -/
  | notifyWait
  /-- `river2_telemetry_ac_enabled` and its siblings -/
  | load (x : Shared)
  /-- `river2_set_ac_output` or `river2_set_dc_output` -/
  | setOutput (o : Output) (enable : Bool)

@[reducible] def LoopAnswer : LoopCall → Type
  | .notifyWait => UInt32
  | .load _ => Int8
  | .setOutput _ _ => Except EspErr Unit

abbrev LoopProg := Prog LoopCall LoopAnswer EspErr

abbrev LoopHist := List (Event LoopAnswer)

/-- The branch of a state event. -/
def eventLearn (o : Output) (bits : UInt32) (st : MainState) : LoopProg MainState := do
  if carries bits o.stateEvt then
    let v ← Prog.ask (LoopCall.load o.var)
    return st.setPort o ⟨v ≠ 0, true⟩
  else return st

/-- The branch of the battery event. -/
def eventBattery (bits : UInt32) : LoopProg Unit := do
  if carries bits evtBatteryLevel then
    let _ ← Prog.ask (LoopCall.load .batteryPercent)
    return ()
  else return ()

/-- The branch of a button. -/
def eventToggle (o : Output) (bits : UInt32) (st : MainState) : LoopProg MainState := do
  if carries bits o.toggleEvt then
    if (st.port o).known then
      let wantOn := !(st.port o).on
      match ← Prog.ask (LoopCall.setOutput o wantOn) with
      | .error _ => return st
      | .ok _ => return st.setPort o { st.port o with on := wantOn }
    else return st -- the state is not yet known
  else return st

/-- What the loop does with a notification value. -/
def eventRound (bits : UInt32) (st : MainState) : LoopProg MainState := do
  let st ← eventLearn .ac bits st
  let st ← eventLearn .dc bits st
  eventBattery bits
  let st ← eventToggle .ac bits st
  eventToggle .dc bits st

/-- The loop of `app_main`, for a number of rounds. -/
def eventLoop (fuel : ℕ) : LoopProg Empty :=
  Prog.loop (fun st => do
    let bits ← Prog.ask LoopCall.notifyWait
    let st ← eventRound bits st
    return .inl st) fuel MainState.init

/-- The loop of `app_main` over the calls of the firmware. -/
def mainLoop (c : Crypto) (session : Session) (fuel : ℕ) : Fw Empty :=
  Prog.loop (fun st => do
    let bits ← notifyWait
    let st ← mainRound c session bits st
    return .inl st) fuel MainState.init

/-- The programs of the functions. -/
def loopFunction (c : Crypto) (session : Session) : (e : LoopCall) → Fw (LoopAnswer e)
  | .notifyWait => notifyWait
  | .load x => load x
  | .setOutput o enable => do
    markCommanding o.var
    (o.setOutput c session enable).attempt

section Functions

variable {c : Crypto} {session : Session} {bits : UInt32} {st : MainState}

theorem mainRound_eq : mainRound c session bits st =
    (eventRound bits st).interp (loopFunction c session) := by
  have hlearn : ∀ o st, learnState o bits st =
      (eventLearn o bits st).interp (loopFunction c session) := by
    intro o st
    unfold learnState eventLearn
    split_ifs <;> rfl
  have hbattery : logBattery bits = (eventBattery bits).interp (loopFunction c session) := by
    unfold logBattery eventBattery
    split_ifs <;> rfl
  have htoggle : ∀ o st, toggleOutput c session o bits st =
      (eventToggle o bits st).interp (loopFunction c session) := by
    intro o st
    unfold toggleOutput eventToggle
    split_ifs
    · refine congrArg (call (Call.commanding o.var)) (funext fun _ => ?_)
      show (o.setOutput c session (!(st.port o).on)).attempt >>= _ =
        (o.setOutput c session (!(st.port o).on)).attempt >>= _
      refine bind_congr fun r => ?_
      cases r <;> rfl
    · rfl
    · rfl
  unfold mainRound eventRound
  rw [interp_do, hlearn]
  refine bind_congr fun st₁ => ?_
  rw [interp_do, hlearn]
  refine bind_congr fun st₂ => ?_
  rw [interp_do, hbattery]
  refine bind_congr fun _ => ?_
  rw [interp_do, htoggle]
  exact bind_congr fun st₃ => htoggle .dc st₃

theorem mainLoop_eq (fuel : ℕ) :
    mainLoop c session fuel = (eventLoop fuel).interp (loopFunction c session) := by
  unfold mainLoop eventLoop
  rw [interp_loop]
  refine congrArg (fun body => Prog.loop body fuel MainState.init) (funext fun st => ?_)
  rw [interp_do, interp_ask]
  refine bind_congr fun bits => ?_
  rw [interp_do, mainRound_eq]
  rfl

end Functions

/-! ## An output by itself -/

/-- What a wake-up is for an output: whether it carries the output's state event and its button's,
the value then read, and whether a command then sent succeeded. -/
structure Wake where
  state : Bool
  press : Bool
  value : Int8
  sent : Bool
  deriving DecidableEq, Repr

namespace PortState

/-- Nothing is known yet. -/
def init : PortState := ⟨false, false⟩

/-- A reading replaces what is known. -/
def read (p : PortState) (w : Wake) : PortState := if w.state then ⟨w.value ≠ 0, true⟩ else p

/-- The command of a press: the opposite of what is known after the reading, if anything is. -/
def command (p : PortState) (w : Wake) : Option Bool :=
  if w.press ∧ (p.read w).known then some (!(p.read w).on) else none

/-- What is known after the wake-up: what was commanded, if a command succeeded. -/
def next (p : PortState) (w : Wake) : PortState :=
  match p.command w with
  | some on => if w.sent then ⟨on, true⟩ else p.read w
  | none => p.read w

end PortState

/-- What is known after wake-ups, the last one first. -/
def portAfter : List Wake → PortState
  | [] => .init
  | w :: ws => (portAfter ws).next w

/-- The commands of wake-ups and whether they succeeded, the last one first. -/
def portCommands : List Wake → List (Bool × Bool)
  | [] => []
  | w :: ws => (((portAfter ws).command w).map (·, w.sent)).toList ++ portCommands ws

section Machine

variable {p : PortState} {w : Wake} {ws : List Wake} {on : Bool}

theorem PortState.next_of_none (h : p.command w = none) : p.next w = p.read w := by
  unfold next
  rw [h]

theorem PortState.next_of_some (h : p.command w = some on) :
    p.next w = if w.sent then ⟨on, true⟩ else p.read w := by
  unfold next
  rw [h]

theorem portCommands_of_none (h : (portAfter ws).command w = none) :
    portCommands (w :: ws) = portCommands ws := by
  rw [portCommands, h]
  rfl

theorem portCommands_of_some (h : (portAfter ws).command w = some on) :
    portCommands (w :: ws) = (on, w.sent) :: portCommands ws := by
  rw [portCommands, h]
  rfl

end Machine

/-! ## The outputs of a history -/

/-- A wake-up after one more call. -/
def Wake.hear (o : Output) (w : Wake) : Event LoopAnswer → Wake
  | ⟨.load x, v⟩ => if x = o.var then { w with value := v } else w
  | ⟨.setOutput o' _, r⟩ => if o' = o then { w with sent := r.toBool } else w
  | ⟨.notifyWait, _⟩ => w

/-- The wake-ups after one more call. -/
def wakesHear (o : Output) (ws : List Wake) : Event LoopAnswer → List Wake
  | ⟨.notifyWait, bits⟩ => ⟨carries bits o.stateEvt, carries bits o.toggleEvt, 0, false⟩ :: ws
  | ev => ws.modifyHead (Wake.hear o · ev)

/-- What the wake-ups of a history were for an output, the last one first. -/
def wakes (o : Output) (h : LoopHist) : List Wake := h.foldl (wakesHear o) []

/-- The commands of an output after one more call. -/
def commandsHear (o : Output) (cs : List (Bool × Bool)) : Event LoopAnswer → List (Bool × Bool)
  | ⟨.setOutput o' enable, r⟩ => if o' = o then (enable, r.toBool) :: cs else cs
  | _ => cs

/-- The commands an output got and whether they succeeded, the last one first. -/
def commands (o : Output) (h : LoopHist) : List (Bool × Bool) := h.foldl (commandsHear o) []

/-- What the loop holds an output for, and the output's wake-ups and commands. -/
structure Outlook where
  port : PortState
  wakes : List Wake
  commands : List (Bool × Bool)

def outlook (o : Output) (st : MainState) (h : LoopHist) : Outlook :=
  ⟨st.port o, wakes o h, commands o h⟩

theorem outlook_snoc (o : Output) (st : MainState) (h : LoopHist) (ev : Event LoopAnswer) :
    outlook o st (h ++ [ev]) =
      ⟨st.port o, wakesHear o (wakes o h) ev, commandsHear o (commands o h) ev⟩ := by
  unfold outlook wakes commands
  rw [List.foldl_concat, List.foldl_concat]

theorem modifyHead_same {α : Type} (l : List α) : l.modifyHead (fun a => a) = l :=
  congrFun List.modifyHead_id l

theorem outlook_load {o : Output} {x : Shared} (hx : x ≠ o.var) (st : MainState) (h : LoopHist)
    (v : Int8) : outlook o st (h ++ [⟨.load x, v⟩]) = outlook o st h := by
  have hhear : wakesHear o (wakes o h) ⟨.load x, v⟩ = wakes o h := by
    show (wakes o h).modifyHead (fun w => if x = o.var then _ else w) = _
    simp only [if_neg hx]
    exact modifyHead_same _
  rw [outlook_snoc, hhear]
  rfl

theorem outlook_setOutput {o o' : Output} (ho : o' ≠ o) (st : MainState) (h : LoopHist)
    (enable : Bool) (r : Except EspErr Unit) :
    outlook o st (h ++ [⟨.setOutput o' enable, r⟩]) = outlook o st h := by
  have hhear : wakesHear o (wakes o h) ⟨.setOutput o' enable, r⟩ = wakes o h := by
    show (wakes o h).modifyHead (fun w => if o' = o then _ else w) = _
    simp only [if_neg ho]
    exact modifyHead_same _
  have hcommands : commandsHear o (commands o h) ⟨.setOutput o' enable, r⟩ = commands o h :=
    if_neg ho
  rw [outlook_snoc, hhear, hcommands]
  rfl

theorem outlook_setPort {o o' : Output} (ho : o' ≠ o) (st : MainState) (p : PortState)
    (h : LoopHist) : outlook o (st.setPort o' p) h = outlook o st h := by
  unfold outlook
  rw [MainState.port_setPort, if_neg ho]

/-- Between two rounds: all wake-ups are dealt with. -/
def Outlook.Settled (x : Outlook) : Prop := ∃ ws, x = ⟨portAfter ws, ws, portCommands ws⟩

/-- A wake-up has come with a value. -/
def Outlook.Woken (o : Output) (bits : UInt32) (x : Outlook) : Prop :=
  ∃ w ws, x = ⟨portAfter ws, w :: ws, portCommands ws⟩ ∧
    w.state = carries bits o.stateEvt ∧ w.press = carries bits o.toggleEvt

/-- Of the wake-up, the reading is dealt with. -/
def Outlook.Informed (o : Output) (bits : UInt32) (x : Outlook) : Prop :=
  ∃ w ws, x = ⟨(portAfter ws).read w, w :: ws, portCommands ws⟩ ∧
    w.press = carries bits o.toggleEvt

/-! ## The rounds -/

/-- A wait begins when all wake-ups are dealt with, and an output gets the command of its last
one. -/
def toggleContract : Contract LoopCall LoopAnswer where
  env := anyEnv
  pre := fun h e =>
    match e with
    | .notifyWait => ∀ o, commands o h = portCommands (wakes o h)
    | .setOutput o enable => ∃ w ws, wakes o h = w :: ws ∧ commands o h = portCommands ws ∧
        (portAfter ws).command w = some enable
    | .load _ => True
  out := fun _ => True

section Rounds

variable {h : LoopHist} {st : MainState} {bits : UInt32} {R : EspErr → LoopHist → Prop}

theorem wp_eventLearn (o : Output) (hw : (outlook o st h).Woken o bits) :
    wp toggleContract (eventLearn o bits st)
      (fun st' h' => (outlook o st' h').Informed o bits ∧
        ∀ o', o' ≠ o → outlook o' st' h' = outlook o' st h) R h := by
  obtain ⟨w, ws, heq, hstate, hpress⟩ := hw
  obtain ⟨hport, hwakes, hcommands⟩ := Outlook.mk.inj heq
  unfold eventLearn
  split_ifs with hevt
  · refine wp_do.mpr (wp_ask.mpr
      ⟨trivial, fun v _ => ⟨⟨{ w with value := v }, ws, ?_, hpress⟩, ?_⟩⟩)
    · have hhear : wakesHear o (w :: ws) ⟨.load o.var, v⟩ = { w with value := v } :: ws :=
        congrArg (· :: ws) (if_pos rfl)
      have hread : (portAfter ws).read { w with value := v } = ⟨v ≠ 0, true⟩ :=
        if_pos (hstate.trans hevt)
      rw [outlook_snoc, hwakes, hhear, hcommands, MainState.port_setPort, if_pos rfl, hread]
      rfl
    · intro o' ho'
      have hvar : o.var ≠ o'.var := fun hvar => ho' (Output.var_inj.mp hvar).symm
      rw [outlook_load hvar, outlook_setPort ho'.symm]
  · refine ⟨⟨w, ws, ?_, hpress⟩, fun _ _ => rfl⟩
    have hread : (portAfter ws).read w = portAfter ws :=
      if_neg fun hs => hevt (hstate.symm.trans hs)
    rw [hread]
    exact heq

theorem wp_eventBattery (st : MainState) :
    wp toggleContract (eventBattery bits) (fun _ h' => ∀ o, outlook o st h' = outlook o st h)
      R h := by
  unfold eventBattery
  split_ifs
  · exact wp_do.mpr (wp_ask.mpr
      ⟨trivial, fun v _ o => outlook_load o.var_ne_batteryPercent.symm ..⟩)
  · exact fun _ => rfl

theorem wp_eventToggle (o : Output) (hinf : (outlook o st h).Informed o bits) :
    wp toggleContract (eventToggle o bits st)
      (fun st' h' => (outlook o st' h').Settled ∧
        ∀ o', o' ≠ o → outlook o' st' h' = outlook o' st h) R h := by
  obtain ⟨w, ws, heq, hpress⟩ := hinf
  obtain ⟨hport, hwakes, hcommands⟩ := Outlook.mk.inj heq
  have hquiet : (portAfter ws).command w = none → (outlook o st h).Settled := by
    intro hnone
    refine ⟨w :: ws, ?_⟩
    rw [heq, portCommands_of_none hnone, portAfter, PortState.next_of_none hnone]
  unfold eventToggle
  rw [hport]
  split_ifs with hevt hknown
  · have hcommand : (portAfter ws).command w = some (!((portAfter ws).read w).on) :=
      if_pos ⟨hpress.trans hevt, hknown⟩
    refine wp_do.mpr (wp_ask.mpr ⟨⟨w, ws, hwakes, hcommands, hcommand⟩, fun r _ => ?_⟩)
    have hhear : wakesHear o (w :: ws) ⟨.setOutput o (!((portAfter ws).read w).on), r⟩ =
        { w with sent := r.toBool } :: ws := congrArg (· :: ws) (if_pos rfl)
    have hcommanded : commandsHear o (portCommands ws)
        ⟨.setOutput o (!((portAfter ws).read w).on), r⟩ =
          (!((portAfter ws).read w).on, r.toBool) :: portCommands ws := if_pos rfl
    have hsettled : ∀ st' : MainState,
        st'.port o = (portAfter ws).next { w with sent := r.toBool } →
        (outlook o st' (h ++ [⟨.setOutput o (!((portAfter ws).read w).on), r⟩])).Settled := by
      intro st' hst'
      refine ⟨{ w with sent := r.toBool } :: ws, ?_⟩
      have hsome : (portAfter ws).command { w with sent := r.toBool } =
        some (!((portAfter ws).read w).on) := hcommand
      rw [outlook_snoc, hwakes, hcommands, hhear, hcommanded, portCommands_of_some hsome, hst']
      rfl
    have hnext := (portAfter ws).next_of_some (w := { w with sent := r.toBool }) hcommand
    cases r with
    | error err =>
      refine ⟨hsettled st (hport.trans hnext.symm), fun o' ho' => outlook_setOutput ho'.symm ..⟩
    | ok _ =>
      refine ⟨hsettled _ ?_, fun o' ho' => ?_⟩
      · rw [MainState.port_setPort, if_pos rfl, hnext]
        exact congrArg (PortState.mk _) hknown
      · rw [outlook_setOutput ho'.symm, outlook_setPort ho'.symm]
  · exact ⟨hquiet (if_neg fun hc => hknown hc.2), fun _ _ => rfl⟩
  · exact ⟨hquiet (if_neg fun hc => hevt (hpress.symm.trans hc.1)), fun _ _ => rfl⟩

/-- **A round of the loop** deals with the wake-up for both outputs. -/
theorem wp_eventRound (hw : ∀ o, (outlook o st h).Woken o bits) :
    wp toggleContract (eventRound bits st) (fun st' h' => ∀ o, (outlook o st' h').Settled) R h := by
  unfold eventRound
  refine wp_do.mpr (wp_mono (wp_eventLearn .ac (hw .ac)) ?_ fun _ _ => id)
  rintro st₁ h₁ ⟨hac₁, hother₁⟩
  have hdc : (outlook .dc st₁ h₁).Woken .dc bits := by
    rw [hother₁ .dc nofun]
    exact hw .dc
  refine wp_do.mpr (wp_mono (wp_eventLearn .dc hdc) ?_ fun _ _ => id)
  rintro st₂ h₂ ⟨hdc₂, hother₂⟩
  refine wp_do.mpr (wp_mono (wp_eventBattery st₂) (fun _ h₃ hsame => ?_) fun _ _ => id)
  have hac₃ : (outlook .ac st₂ h₃).Informed .ac bits := by
    rw [hsame, hother₂ .ac nofun]
    exact hac₁
  refine wp_do.mpr (wp_mono (wp_eventToggle .ac hac₃) ?_ fun _ _ => id)
  rintro st₄ h₄ ⟨hac₄, hother₄⟩
  have hdc₄ : (outlook .dc st₄ h₄).Informed .dc bits := by
    rw [hother₄ .dc nofun, hsame]
    exact hdc₂
  refine wp_mono (wp_eventToggle .dc hdc₄) ?_ fun _ _ => id
  rintro st₅ h₅ ⟨hdc₅, hother₅⟩ (_ | _)
  · rw [hother₅ .ac nofun]
    exact hac₄
  · exact hdc₅

theorem wp_eventLoop {fuel : ℕ} :
    wp toggleContract (eventLoop fuel) (fun _ _ => True) (fun _ _ => True) [] := by
  refine wp_loop (fun _ st h => ∀ o, (outlook o st h).Settled) (fun _ _ _ => trivial) ?_ ?_
  · intro _ st h hset
    have hpre : ∀ o, commands o h = portCommands (wakes o h) := by
      intro o
      obtain ⟨ws, heq⟩ := hset o
      obtain ⟨-, hwakes, hcommands⟩ := Outlook.mk.inj heq
      rw [hwakes, hcommands]
    refine wp_do.mpr (wp_ask.mpr ⟨hpre, fun bits _ => ?_⟩)
    refine wp_do.mpr (wp_mono (wp_eventRound fun o => ?_) (fun _ _ => id) fun _ _ => id)
    obtain ⟨ws, heq⟩ := hset o
    obtain ⟨hport, hwakes, hcommands⟩ := Outlook.mk.inj heq
    refine ⟨⟨carries bits o.stateEvt, carries bits o.toggleEvt, 0, false⟩, ws, ?_, rfl, rfl⟩
    rw [outlook_snoc, hport, hwakes, hcommands]
    rfl
  · intro o
    refine ⟨[], ?_⟩
    cases o <;> rfl

end Rounds

/-! ## What follows for an output -/

section Port

variable {w e : Wake} {ws later earlier : List Wake} {on : Bool}

theorem PortState.command_eq_some {p : PortState} (h : p.command w = some on) :
    w.press = true ∧ (p.read w).known = true ∧ on = !(p.read w).on := by
  unfold command at h
  split_ifs at h with hc
  exact ⟨hc.1, hc.2, (Option.some.inj h).symm⟩

theorem PortState.next_known (p : PortState) (w : Wake) :
    (p.next w).known = (p.read w).known := by
  cases hc : p.command w with
  | none => rw [next_of_none hc]
  | some on =>
    rw [next_of_some hc]
    split_ifs
    · exact (command_eq_some hc).2.1.symm
    · rfl

/-- Something is known only when a wake-up has carried the state event. -/
theorem exists_state_of_known {p : PortState} (h : (p.read w).known = true)
    (hp : p.known = true → ∃ v ∈ ws, v.state = true) : ∃ v ∈ w :: ws, v.state = true := by
  by_cases hs : w.state = true
  · exact ⟨w, List.mem_cons_self, hs⟩
  · unfold PortState.read at h
    rw [if_neg hs] at h
    obtain ⟨v, hv, hstate⟩ := hp h
    exact ⟨v, List.mem_cons_of_mem _ hv, hstate⟩

theorem exists_state_of_portAfter (h : (portAfter ws).known = true) : ∃ v ∈ ws, v.state = true := by
  induction ws with
  | nil => cases h
  | cons w ws ih =>
    rw [portAfter, PortState.next_known] at h
    exact exists_state_of_known h ih

/-- The commands that succeeded, the last one first. -/
def successes (cs : List (Bool × Bool)) : List Bool := (cs.filter Prod.snd).map Prod.fst

/-- The commands alternate, and the last one is what the output is held for. -/
def Alternate (cs : List (Bool × Bool)) (on : Bool) : Prop :=
  (successes cs).IsChain (· ≠ ·) ∧ ∀ on' ∈ (successes cs).head?, on' = on

theorem alternate_next {p : PortState} {cs : List (Bool × Bool)}
    (h : Alternate cs (p.read w).on) :
    Alternate (((p.command w).map (·, w.sent)).toList ++ cs) (p.next w).on := by
  cases hc : p.command w with
  | none =>
    rw [PortState.next_of_none hc]
    exact h
  | some on =>
    obtain ⟨-, -, hon⟩ := PortState.command_eq_some hc
    rw [PortState.next_of_some hc]
    obtain ⟨hchain, hhead⟩ := h
    cases hsent : w.sent with
    | false =>
      exact ⟨hchain, hhead⟩
    | true =>
      refine ⟨List.isChain_cons.mpr ⟨fun on' hmem => ?_, hchain⟩, ?_⟩
      · rw [hhead on' hmem, hon]
        exact Bool.not_ne_self _
      · rintro on' ⟨⟩
        rfl

/-- **Commands alternate.** From a wake-up up to the next one that carries the state event, the
commands that succeed alternate. -/
theorem alternates (e : Wake) (earlier : List Wake) (hlater : ∀ v ∈ later, v.state = false) :
    ∃ cs, portCommands (later ++ e :: earlier) = cs ++ portCommands earlier ∧
      Alternate cs (portAfter (later ++ e :: earlier)).on := by
  induction later with
  | nil =>
    refine ⟨_, rfl, ?_⟩
    have hnone : Alternate [] ((portAfter earlier).read e).on := ⟨List.IsChain.nil, nofun⟩
    have hfirst := alternate_next hnone
    rw [List.append_nil] at hfirst
    exact hfirst
  | cons w later ih =>
    obtain ⟨cs, hcs, halt⟩ := ih fun v hv => hlater v (List.mem_cons_of_mem _ hv)
    have hread :
        (portAfter (later ++ e :: earlier)).read w = portAfter (later ++ e :: earlier) := by
      unfold PortState.read
      rw [hlater w List.mem_cons_self]
      rfl
    rw [← hread] at halt
    refine ⟨_, ?_, alternate_next (p := portAfter (later ++ e :: earlier)) halt⟩
    rw [List.cons_append, portCommands, hcs, List.append_assoc]

end Port

/-! ## The result -/

/-- **Commands follow the latest knowledge.** Of each output, whatever wakes the loop up, whatever
telemetry reports and whichever commands fail:
an output is commanded when its button is pressed and a wake-up has carried its state event; the
argument is the opposite of what is known, where the reading of the same wake-up comes first, and
what is known is the last reading or the command that succeeded since;
between two state events the commands that succeed alternate;
the commands are a function of what the wake-ups were for this output alone.
The states of the loop over the calls of the firmware lie over the states of this loop. -/
theorem toggles_follow_knowledge (c : Crypto) (session : Session) (fuel : ℕ) :
    (∀ h k, Reach anyEnv ([], eventLoop fuel) (h, .call .notifyWait k) → ∀ o,
      commands o h = portCommands (wakes o h) ∧
      ∀ later e earlier, wakes o h = later ++ e :: earlier → (∀ v ∈ later, v.state = false) →
        ∃ cs, commands o h = cs ++ portCommands earlier ∧ Alternate cs (portAfter (wakes o h)).on) ∧
    (∀ h o enable k, Reach anyEnv ([], eventLoop fuel) (h, .call (.setOutput o enable) k) →
      ∃ w ws, wakes o h = w :: ws ∧ commands o h = portCommands ws ∧ w.press = true ∧
        (∃ v ∈ w :: ws, v.state = true) ∧ enable = !((portAfter ws).read w).on) ∧
    (∀ h k h' k', Reach anyEnv ([], eventLoop fuel) (h, .call .notifyWait k) →
      Reach anyEnv ([], eventLoop fuel) (h', .call .notifyWait k') →
      ∀ o, wakes o h = wakes o h' → commands o h = commands o h') ∧
    (∀ h q, Reach anyEnv ([], mainLoop c session fuel) (h, q) →
      ∃ h₀ p, Reach anyEnv ([], eventLoop fuel) (h₀, p) ∧
        (q = p.interp (loopFunction c session) ∨
          ∃ e k h₁ r, p = .call e k ∧ Reach anyEnv (h₁, loopFunction c session e) (h, r) ∧
            q = r.bind fun a => (k a).interp (loopFunction c session))) := by
  have hwait : ∀ {h k}, Reach anyEnv ([], eventLoop fuel) (h, .call .notifyWait k) → ∀ o,
      commands o h = portCommands (wakes o h) :=
    fun hr => (wp_reach (C := toggleContract) wp_eventLoop hr).1
  refine ⟨?_, ?_, ?_, ?_⟩
  · intro h k hr o
    refine ⟨hwait hr o, fun later e earlier hwakes hlater => ?_⟩
    obtain ⟨cs, hcs, halt⟩ := alternates e earlier hlater
    rw [hwait hr o, hwakes]
    exact ⟨cs, hcs, halt⟩
  · intro h o enable k hr
    obtain ⟨w, ws, hwakes, hcommands, hcommand⟩ :=
      (wp_reach (C := toggleContract) wp_eventLoop hr).1
    obtain ⟨hpress, hknown, hon⟩ := PortState.command_eq_some hcommand
    exact ⟨w, ws, hwakes, hcommands, hpress, exists_state_of_known hknown exists_state_of_portAfter,
      hon⟩
  · intro h k h' k' hr hr' o hwakes
    rw [hwait hr o, hwait hr' o, hwakes]
  · intro h q hr
    rw [mainLoop_eq] at hr
    exact reach_interp [] hr

/-- Given notification values, a state that reads 1, and commands that succeed. -/
def wakeUps : List UInt32 → (e : LoopCall) → Option (LoopAnswer e × List UInt32)
  | [], .notifyWait => none
  | bits :: later, .notifyWait => some (bits, later)
  | s, .load _ => some ((1 : Int8), s)
  | s, .setOutput _ _ => some (.ok (), s)

/-- Two presses, the first together with the news that the output is on. -/
theorem toggles_follow_knowledge_twice :
    let r := simulate wakeUps [evtAcState ||| evtToggleAcPort, evtToggleAcPort] [] (eventLoop 3)
    commands .ac r.2.1 = [(true, true), (false, true)] := by
  intro r
  have hrun : Reach anyEnv ([], eventLoop 3) r.2 :=
    reach_simulate (fun _ _ _ _ _ _ => trivial) _ _ _
  obtain ⟨hwait, -⟩ := toggles_follow_knowledge Sample.crypto Sample.session 3
  rw [(hwait r.2.1 _ hrun .ac).1]
  decide +kernel

end River2
