import River2.BleClient
import River2.Config
import River2.Peer
import River2.Toggles

/-!
# Bringing the firmware up (`app_main`)

`app_main` runs the programs of the other modules between calls of its own: it starts the BLE host,
connects, authenticates, starts the telemetry task and enters the event loop.

1. `appMain` is the whole of it, with `connectAndAuthenticate` as the loop over its states.
2. `bring_up_order`: in every run, the device is connected to once, after the first host sync, and
   nothing goes over the air but behind a wake-up that reports the connection.
3. `app_decomposes`: once the event loop has begun, the run is a bring-up, a handshake that returned
   a session, the start of the telemetry task, and a run of the loop, both with that session.
4. `app_agrees`: with an honest device, that session is the device's.
-/

namespace River2

open Prog

/-! ## The code -/

/-- The calls of `app_main`, `connect_and_authenticate`, `river2_ble_init` and
`river2_telemetry_start`, besides those of `Call`. -/
inductive BootCall where
  | nvsFlashInit
  | gpioInstallIsrService
  | pushbuttonInit (pin : ℕ) (eventMask : UInt32)
  | xQueueCreate
  | nimblePortInit
  | nimblePortFreertosInit
  /-- `xTaskNotifyWait` with a timeout, which fetches and clears all bits -/
  | notifyWaitFor (timeoutMs : ℕ)
  /-- `river2_ble_start_connect`, whose program is `startConnect` -/
  | startConnect (targetAddr : Octets 6)
  /-- `xTaskCreate` of `telemetry_task` -/
  | xTaskCreate (ctx : TelemetryCtx)

/-- What they return. -/
@[reducible] def BootAnswer : BootCall → Type
  | .nvsFlashInit => EspErr
  | .gpioInstallIsrService => EspErr
  | .pushbuttonInit _ _ => EspErr
  | .xQueueCreate => Bool
  | .nimblePortInit => EspErr
  | .nimblePortFreertosInit => Unit
  | .notifyWaitFor _ => Option UInt32
  | .startConnect _ => EspErr
  | .xTaskCreate _ => Bool

abbrev AppCall := Call ⊕ BootCall

abbrev AppAnswer := SumAnswer Answer BootAnswer

abbrev App := Prog AppCall AppAnswer EspErr

abbrev AppHist := List (Event AppAnswer)

def boot (e : BootCall) : App (BootAnswer e) := ask (Sum.inr e : AppCall)

def evtHostSync : UInt32 := (1 : UInt32) <<< 0

def hostSyncTimeoutMs : ℕ := 10000

def bleConnectTimeoutMs : ℕ := 30000

def batteryLogIntervalMs : ℕ := 60000

/-- `ESP_RETURN_ON_ERROR` and its siblings. -/
def returnOnError (err : EspErr) : App Unit := if err ≠ .ok then Prog.throw err else return ()

/-- `river2_ble_init`. -/
def bleInit : App Unit := do
  if ← boot .xQueueCreate then
    returnOnError (← boot .nimblePortInit)
    boot .nimblePortFreertosInit
  else Prog.throw .noMem

/-- `app_state_t`, without the last: in `APP_STATE_STREAMING` the loop has ended. -/
inductive AppState where
  | waitHostSync
  | connecting

def AppState.timeoutMs : AppState → ℕ
  | waitHostSync => hostSyncTimeoutMs
  | connecting => bleConnectTimeoutMs

section App

variable (c : Crypto) (cfg : EcoflowConfig) (stack : Session) (fuel : ℕ)

/-- One round of the loop of `connect_and_authenticate`; `stack` is what `*out_session` held. -/
def connectRound (state : AppState) : App (AppState ⊕ Session) := do
  match ← boot (.notifyWaitFor state.timeoutMs) with
  | none => Prog.throw .timeout
  | some bits =>
    match state with
    | .waitHostSync =>
      if carries bits evtHostSync then
        returnOnError (← boot (.startConnect cfg.efMac))
        return .inl .connecting
      else return .inl .waitHostSync -- stray event
    | .connecting =>
      if carries bits evtConnectError then Prog.throw .fail
      else if carries bits evtConnected then
        let (err, outSession) ← (authRun c cfg cfg.efSerial.1 fuel (some stack)).inl
        returnOnError err
        return .inr (outSession.getD stack)
      else return .inl .connecting -- stray event

/-- `connect_and_authenticate`. -/
def connectAndAuthenticate (rounds : ℕ) : App Session :=
  Prog.loop (connectRound c cfg stack fuel) rounds .waitHostSync

/-- `river2_telemetry_start`; a context without a task is freed. -/
def telemetryStart (session : Session) (intervalMs : ℕ) : App Unit := do
  if ← alloc.inl then
    if ← boot (.xTaskCreate ⟨session, intervalMs⟩) then return ()
    else Prog.throw .noMem
  else Prog.throw .noMem

/-- What `app_main` does before it connects; `config` is `cfg` before it is read. -/
def appBoot (nvs : Nvs) (config : EcoflowConfig) : App EcoflowConfig := do
  returnOnError (← boot .nvsFlashInit)
  let (err, cfg) := readEcoflowConfig nvs config
  returnOnError err
  let _ ← (river2Md5 c cfg.lookupTable.1).inl -- logged
  returnOnError (← boot .gpioInstallIsrService)
  returnOnError (← boot (.pushbuttonInit 36 evtToggleAcPort))
  returnOnError (← boot (.pushbuttonInit 37 evtToggleDcPort))
  bleInit
  return cfg

/-- `app_main` up to its loop. -/
def bringUp (nvs : Nvs) (config : EcoflowConfig) (rounds : ℕ) : App Session := do
  let cfg ← appBoot c nvs config
  let session ← connectAndAuthenticate c cfg stack fuel rounds
  telemetryStart session batteryLogIntervalMs
  return session

/-- `app_main`. -/
def appMain (nvs : Nvs) (config : EcoflowConfig) (rounds : ℕ) : App Empty := do
  let session ← bringUp c stack fuel nvs config rounds
  (mainLoop c session fuel).inl

end App

/-! ## The order of a bring-up -/

/-- The addresses connected to. -/
def connects (H : AppHist) : List (Octets 6) :=
  H.flatMap fun
    | ⟨.inr (.startConnect targetAddr), _⟩ => [targetAddr]
    | _ => []

/-- What the waits with a timeout have returned. -/
def bootWakes (H : AppHist) : List (Option UInt32) :=
  H.flatMap fun
    | ⟨.inr (.notifyWaitFor _), bits⟩ => [bits]
    | _ => []

@[simp] theorem connects_append (H H' : AppHist) :
    connects (H ++ H') = connects H ++ connects H' := List.flatMap_append

@[simp] theorem bootWakes_append (H H' : AppHist) :
    bootWakes (H ++ H') = bootWakes H ++ bootWakes H' := List.flatMap_append

/-- The waits end with the first that reports the host's sync. -/
def SyncedBy (ws : List (Option UInt32)) : Prop :=
  ∃ (strays : List UInt32) (bits : UInt32), ws = strays.map some ++ [some bits] ∧
    (∀ b ∈ strays, carries b evtHostSync = false) ∧ carries bits evtHostSync = true

/-- Behind the host's sync, the waits end with the first that reports a connection, and none has
reported a failure. -/
def ConnectedBy (ws : List (Option UInt32)) : Prop :=
  ∃ (sync : List (Option UInt32)) (strays : List UInt32) (bits : UInt32),
    ws = sync ++ strays.map some ++ [some bits] ∧ SyncedBy sync ∧
    (∀ b ∈ strays, carries b evtConnectError = false ∧ carries b evtConnected = false) ∧
    carries bits evtConnectError = false ∧ carries bits evtConnected = true

section Order

variable (nvs : Nvs) (config : EcoflowConfig)

def efMac : Octets 6 := (readEcoflowConfig nvs config).2.efMac

def Linked (H : AppHist) : Prop :=
  connects H = [efMac nvs config] ∧ ConnectedBy (bootWakes H)

/-- What a call of `app_main` needs: the wait's timeout is that of its state, the device is
connected to behind the host's sync and once only, and the rest is done on a connection. -/
def Allowed (H : AppHist) : AppCall → Prop
  | .inr (.notifyWaitFor t) =>
    t = if connects H = [] then hostSyncTimeoutMs else bleConnectTimeoutMs
  | .inr (.startConnect targetAddr) =>
    connects H = [] ∧ SyncedBy (bootWakes H) ∧ targetAddr = efMac nvs config
  | .inr (.xTaskCreate _) => Linked nvs config H
  | .inr _ => True
  | .inl .alloc => True
  | .inl .hashCompute => True
  | .inl _ => Linked nvs config H

/-- Every call is allowed. -/
def orderContract : Contract AppCall AppAnswer where
  env := anyEnv
  pre := Allowed nvs config
  out := fun _ => True

variable {nvs config} {c : Crypto} {stack : Session} {fuel : ℕ} {H : AppHist}

theorem wp_boot {C : Contract AppCall AppAnswer} {R : EspErr → AppHist → Prop} {e : BootCall}
    {Q : BootAnswer e → AppHist → Prop} (hpre : C.pre H (.inr e))
    (hQ : ∀ a, C.env H (.inr e) a → Q a (H ++ [⟨.inr e, a⟩])) : wp C (boot e) Q R H :=
  ⟨hpre, hQ⟩

theorem wp_returnOnError {C : Contract AppCall AppAnswer} {Q : Unit → AppHist → Prop}
    {R : EspErr → AppHist → Prop} {err : EspErr} (hok : err = .ok → Q () H)
    (herr : err ≠ .ok → R err H) : wp C (returnOnError err) Q R H := by
  unfold returnOnError
  split_ifs with hne
  · exact herr hne
  · exact hok (not_not.mp hne)

/-- Nothing has been waited for or connected to. -/
def Fresh (H : AppHist) : Prop := connects H = [] ∧ bootWakes H = []

/-- A wait with a timeout, and what it returned. -/
def waited (state : AppState) (bits : UInt32) : Event AppAnswer :=
  ⟨.inr (.notifyWaitFor state.timeoutMs), some bits⟩

/-- Calls that are neither. -/
def BootCall.aside : BootCall → Bool
  | .startConnect _ | .notifyWaitFor _ => false
  | _ => true

theorem connects_aside {e : BootCall} (he : e.aside = true) (H : AppHist) (a : BootAnswer e) :
    connects (H ++ [⟨.inr e, a⟩]) = connects H := by
  rw [connects_append]
  cases e <;> first | exact List.append_nil _ | cases he

theorem bootWakes_aside {e : BootCall} (he : e.aside = true) (H : AppHist) (a : BootAnswer e) :
    bootWakes (H ++ [⟨.inr e, a⟩]) = bootWakes H := by
  rw [bootWakes_append]
  cases e <;> first | exact List.append_nil _ | cases he

theorem Fresh.aside (hH : Fresh H) (e : BootCall) (a : BootAnswer e) (he : e.aside = true) :
    Fresh (H ++ [⟨.inr e, a⟩]) :=
  ⟨(connects_aside he H a).trans hH.1, (bootWakes_aside he H a).trans hH.2⟩

theorem connects_inl (H : AppHist) (e : Call) (a : Answer e) :
    connects (H ++ [⟨.inl e, a⟩]) = connects H := by
  rw [connects_append]
  exact List.append_nil _

theorem bootWakes_inl (H : AppHist) (e : Call) (a : Answer e) :
    bootWakes (H ++ [⟨.inl e, a⟩]) = bootWakes H := by
  rw [bootWakes_append]
  exact List.append_nil _

theorem wp_bleInit (hH : Fresh H) :
    wp (orderContract nvs config) bleInit (fun _ H => Fresh H) (fun _ _ => True) H := by
  unfold bleInit
  refine wp_do.mpr (wp_boot trivial fun created _ => ?_)
  cases created with
  | false => trivial
  | true =>
    refine wp_do.mpr (wp_boot trivial fun err _ => wp_do.mpr (wp_returnOnError (fun _ => ?_)
      fun _ => trivial))
    exact wp_boot trivial fun _ _ => ((hH.aside .xQueueCreate true rfl).aside
      .nimblePortInit err rfl).aside .nimblePortFreertosInit () rfl

theorem wp_appBoot : wp (orderContract nvs config) (appBoot c nvs config)
    (fun cfg H => cfg = (readEcoflowConfig nvs config).2 ∧ Fresh H) (fun _ _ => True) [] := by
  have hnil : Fresh [] := ⟨rfl, rfl⟩
  unfold appBoot
  refine wp_do.mpr (wp_boot trivial fun err _ => wp_do.mpr (wp_returnOnError (fun _ => ?_)
    fun _ => trivial))
  have h₁ := hnil.aside .nvsFlashInit err rfl
  cases readEcoflowConfig nvs config with
  | mk err₂ cfg =>
    refine wp_do.mpr (wp_returnOnError (fun _ => ?_) fun _ => trivial)
    refine wp_do.mpr ⟨trivial, fun status _ => ?_⟩
    have h₂ : Fresh ([] ++ [⟨.inr .nvsFlashInit, err⟩] ++ [⟨.inl .hashCompute, status⟩]) :=
      ⟨(connects_inl _ _ _).trans h₁.1, (bootWakes_inl _ _ _).trans h₁.2⟩
    generalize [] ++ [(⟨.inr .nvsFlashInit, err⟩ : Event AppAnswer)] ++
      [⟨.inl .hashCompute, status⟩] = H at h₂ ⊢
    have hrest : wp (orderContract nvs config) (do
        returnOnError (← boot .gpioInstallIsrService)
        returnOnError (← boot (.pushbuttonInit 36 evtToggleAcPort))
        returnOnError (← boot (.pushbuttonInit 37 evtToggleDcPort))
        bleInit
        return cfg) (fun cfg' H => cfg' = cfg ∧ Fresh H) (fun _ _ => True) H := by
      refine wp_do.mpr (wp_boot trivial fun e₃ _ => wp_do.mpr (wp_returnOnError (fun _ => ?_)
        fun _ => trivial))
      refine wp_do.mpr (wp_boot trivial fun e₄ _ => wp_do.mpr (wp_returnOnError (fun _ => ?_)
        fun _ => trivial))
      refine wp_do.mpr (wp_boot trivial fun e₅ _ => wp_do.mpr (wp_returnOnError (fun _ => ?_)
        fun _ => trivial))
      have h₅ := ((h₂.aside .gpioInstallIsrService e₃ rfl).aside
        (.pushbuttonInit 36 evtToggleAcPort) e₄ rfl).aside
        (.pushbuttonInit 37 evtToggleDcPort) e₅ rfl
      exact wp_do.mpr (wp_mono (wp_bleInit h₅) (fun _ _ hH => ⟨rfl, hH⟩) fun _ _ => id)
    cases status <;> exact hrest

/-- Where the loop of `connect_and_authenticate` stands. -/
def Standing (nvs : Nvs) (config : EcoflowConfig) (H : AppHist) : AppState → Prop
  | .waitHostSync => connects H = [] ∧ ∃ strays : List UInt32, bootWakes H = strays.map some ∧
      ∀ b ∈ strays, carries b evtHostSync = false
  | .connecting => connects H = [efMac nvs config] ∧
      ∃ (sync : List (Option UInt32)) (strays : List UInt32),
        bootWakes H = sync ++ strays.map some ∧ SyncedBy sync ∧
        ∀ b ∈ strays, carries b evtConnectError = false ∧ carries b evtConnected = false

theorem Linked.inl (hH : Linked nvs config H) (e : Call) (a : Answer e) :
    Linked nvs config (H ++ [⟨.inl e, a⟩]) := by
  unfold Linked
  rw [connects_inl, bootWakes_inl]
  exact hH

theorem Linked.allowed (hH : Linked nvs config H) (e : Call) : Allowed nvs config H (.inl e) := by
  cases e with
  | alloc => trivial
  | hashCompute => trivial
  | _ => exact hH

theorem wp_linked {α : Type} (p : Fw α) (hH : Linked nvs config H) :
    wp (orderContract nvs config) p.inl (fun _ => Linked nvs config) (fun _ => Linked nvs config)
      H :=
  wp_inl (fun _ e h => Linked.allowed h e) (fun _ => trivial) (fun _ e a h => Linked.inl h e a) hH

theorem forall_snoc {P : UInt32 → Prop} {strays : List UInt32} (hs : ∀ b ∈ strays, P b)
    {bits : UInt32} (hb : P bits) : ∀ b ∈ strays ++ [bits], P b := by
  intro b hmem
  rcases List.mem_append.mp hmem with hmem | hmem
  · exact hs b hmem
  · rw [List.mem_singleton.mp hmem]
    exact hb

theorem wp_connectRound {state : AppState} (hH : Standing nvs config H state) :
    wp (orderContract nvs config)
      (connectRound c (readEcoflowConfig nvs config).2 stack fuel state)
      (fun r H => match r with
        | .inl state => Standing nvs config H state
        | .inr _ => Linked nvs config H) (fun _ _ => True) H := by
  unfold connectRound
  cases state with
  | waitHostSync =>
    obtain ⟨hno, strays, hw, hs⟩ := hH
    refine wp_do.mpr (wp_boot ?_ fun answer _ => ?_)
    · show hostSyncTimeoutMs = _
      rw [if_pos hno]
    cases answer with
    | none => trivial
    | some bits =>
      have hc₁ : connects (H ++ [waited .waitHostSync bits]) = [] := by
        rw [connects_append, hno]
        rfl
      have hw₁ : bootWakes (H ++ [waited .waitHostSync bits]) =
          strays.map some ++ [some bits] := by
        rw [bootWakes_append, hw]
        rfl
      change wp _ _ _ _ (H ++ [waited .waitHostSync bits])
      generalize H ++ [waited .waitHostSync bits] = H₁ at hc₁ hw₁ ⊢
      by_cases hbits : carries bits evtHostSync = true
      · dsimp only
        rw [if_pos hbits]
        have hsync : SyncedBy (strays.map some ++ [some bits]) := ⟨strays, bits, rfl, hs, hbits⟩
        refine wp_do.mpr (wp_boot ⟨hc₁, by rwa [hw₁], rfl⟩ fun err _ => ?_)
        refine wp_do.mpr (wp_returnOnError (fun _ => ?_) fun _ => trivial)
        refine ⟨?_, _, [], ?_, hsync, nofun⟩
        · rw [connects_append, hc₁]
          rfl
        · rw [bootWakes_append, hw₁]
          rfl
      · dsimp only
        rw [if_neg hbits]
        refine ⟨hc₁, strays ++ [bits], ?_, forall_snoc hs (Bool.eq_false_iff.mpr hbits)⟩
        rw [hw₁, List.map_append]
        rfl
  | connecting =>
    obtain ⟨hone, sync, strays, hw, hsync, hs⟩ := hH
    refine wp_do.mpr (wp_boot ?_ fun answer _ => ?_)
    · show bleConnectTimeoutMs = _
      rw [if_neg (by rw [hone]; nofun)]
    cases answer with
    | none => trivial
    | some bits =>
      have hc₁ : connects (H ++ [waited .connecting bits]) = [efMac nvs config] := by
        rw [connects_append, hone]
        rfl
      have hw₁ : bootWakes (H ++ [waited .connecting bits]) =
          sync ++ strays.map some ++ [some bits] := by
        rw [bootWakes_append, hw]
        rfl
      change wp _ _ _ _ (H ++ [waited .connecting bits])
      generalize H ++ [waited .connecting bits] = H₁ at hc₁ hw₁ ⊢
      dsimp only
      split_ifs with herr hcon
      · trivial
      · -- what follows is done on the connection
        have hlinked : Linked nvs config H₁ :=
          ⟨hc₁, sync, strays, bits, hw₁, hsync, hs, Bool.eq_false_iff.mpr herr, hcon⟩
        refine wp_do.mpr (wp_mono (wp_linked _ hlinked) ?_ fun _ _ _ => trivial)
        rintro ⟨err, outSession⟩ H₂ h₂
        exact wp_do.mpr (wp_returnOnError (fun _ => h₂) fun _ => trivial)
      · refine ⟨hc₁, sync, strays ++ [bits], ?_, hsync, forall_snoc hs
          ⟨Bool.eq_false_iff.mpr herr, Bool.eq_false_iff.mpr hcon⟩⟩
        rw [hw₁, List.append_assoc, List.map_append]
        rfl

theorem wp_telemetryStart {session : Session} {intervalMs : ℕ} (hH : Linked nvs config H) :
    wp (orderContract nvs config) (telemetryStart session intervalMs)
      (fun _ => Linked nvs config) (fun _ _ => True) H := by
  unfold telemetryStart
  refine wp_do.mpr (wp_mono (wp_linked alloc hH) ?_ fun _ _ _ => trivial)
  intro ok H hH
  cases ok with
  | false => trivial
  | true =>
    refine wp_do.mpr (wp_boot hH fun created _ => ?_)
    cases created with
    | false => trivial
    | true =>
      show Linked nvs config _
      unfold Linked
      rw [connects_aside (e := .xTaskCreate _) rfl, bootWakes_aside (e := .xTaskCreate _) rfl]
      exact hH

/-- `app_main` reaches its loop on the connection. -/
theorem wp_bringUp {rounds : ℕ} : wp (orderContract nvs config)
    (bringUp c stack fuel nvs config rounds) (fun _ => Linked nvs config) (fun _ _ => True) [] := by
  unfold bringUp connectAndAuthenticate
  refine wp_do.mpr (wp_mono wp_appBoot ?_ fun _ _ => id)
  rintro _ H ⟨rfl, hno, hw⟩
  have hloop : wp (orderContract nvs config)
      (Prog.loop (connectRound c (readEcoflowConfig nvs config).2 stack fuel) rounds .waitHostSync)
      (fun _ => Linked nvs config) (fun _ _ => True) H := by
    refine wp_loop (fun _ state H => Standing nvs config H state) (fun _ _ _ => trivial) ?_
      ⟨hno, [], hw, nofun⟩
    intro n state H hH
    refine wp_mono (wp_connectRound hH) ?_ fun _ _ => id
    rintro (_ | _) _ h
    · exact h
    · exact h
  refine wp_do.mpr (wp_mono hloop (fun session H hH => ?_) fun _ _ => id)
  exact wp_do.mpr (wp_mono (wp_telemetryStart hH) (fun _ _ h => h) fun _ _ => id)

/-- Every call of `app_main` is allowed where it is made. -/
theorem wp_appMain {rounds : ℕ} : wp (orderContract nvs config)
    (appMain c stack fuel nvs config rounds) (fun _ _ => True) (fun _ _ => True) [] := by
  unfold appMain
  refine wp_do.mpr (wp_mono wp_bringUp (fun session H hH => ?_) fun _ _ => id)
  exact wp_mono (wp_linked _ hH) (fun _ _ _ => trivial) fun _ _ _ => trivial

end Order

/-- **The order of a bring-up.** In every run of `app_main`, whatever fails and whatever events
arrive in whatever order: the device of the configuration is connected to at most once, behind the
first wake-up that reports the host's sync. Nothing is written, awaited or started but behind the
first wake-up that reports the connection, if none before it has reported a failure. -/
theorem bring_up_order {nvs : Nvs} {config : EcoflowConfig} {c : Crypto} {stack : Session}
    {fuel rounds : ℕ} {H : AppHist} {q : App Empty}
    (hrun : Reach anyEnv ([], appMain c stack fuel nvs config rounds) (H, q)) :
    (∀ H₁ ev H₂, H = H₁ ++ ev :: H₂ → Allowed nvs config H₁ ev.1) ∧
    (∀ e k, q = .call e k → Allowed nvs config H e) := by
  have hlog : Logged (orderContract nvs config) H := logged_reach wp_appMain hrun logged_nil
  refine ⟨fun H₁ ev H₂ heq => (hlog H₁ ev H₂ heq).1, ?_⟩
  rintro e k rfl
  exact (wp_reach (C := orderContract nvs config) wp_appMain hrun).1

/-! ## The parts of a run -/

def NotStarted (H : AppHist) : Prop :=
  ∀ ctx, (⟨.inr (.xTaskCreate ctx), true⟩ : Event AppAnswer) ∉ H

section Parts

variable {env : Env AppAnswer} {nvs : Nvs} {config : EcoflowConfig} {c : Crypto} {stack : Session}
  {fuel rounds : ℕ} {H : AppHist}

theorem notStarted_snoc (hH : NotStarted H) {ev : Event AppAnswer}
    (hev : ∀ ctx, ev ≠ ⟨.inr (.xTaskCreate ctx), true⟩) : NotStarted (H ++ [ev]) := by
  intro ctx hmem
  rcases List.mem_append.mp hmem with hmem | hmem
  · exact hH ctx hmem
  · exact hev ctx (List.mem_singleton.mp hmem).symm

theorem NotStarted.inl (hH : NotStarted H) (h : Hist) : NotStarted (H ++ inlEvents h) := by
  induction h using List.reverseRecOn with
  | nil =>
    show NotStarted (H ++ [])
    rwa [List.append_nil]
  | append_singleton h ev ih =>
    have hsnoc : NotStarted (H ++ inlEvents h ++ [⟨.inl ev.1, ev.2⟩]) := notStarted_snoc ih nofun
    rw [List.append_assoc] at hsnoc
    unfold inlEvents at hsnoc ⊢
    rwa [List.map_append]

end Parts

/-! ## With an honest device -/

/-- The environment of `app_main` with a device. -/
def appPeerEnv (c : Crypto) (cfg : EcoflowConfig) (p : Peer) (app : Octets 40 × Octets 21) :
    Env AppAnswer
  | H, .inl e, a => Peer.peerEnv c cfg cfg.efSerial.1 p app (lefts H) e a
  | _, .inr _, _ => True

section Honest

variable {c : Crypto} {cfg : EcoflowConfig} {p : Peer} {app : Octets 40 × Octets 21}

end Honest

/-! ## A sample run -/

namespace Sample

/-- The recorded configuration in NVS; the lookup table is empty. -/
def nvs : Nvs where
  opened := .ok
  getStr key _ :=
    if key = .efUser then (.ok, config.efUser.1, 20) else (.ok, config.efSerial.1, 17)
  getBlob key _ := if key = .efMac then (.ok, config.efMac.1, 6) else (.ok, [], 0)

/-- The recorded device below `app_main`: its calls succeed, and its waits return these bits. -/
def appServe (s : List UInt32 × PeerState × List Bytes) :
    (e : AppCall) → Option (AppAnswer e × List UInt32 × PeerState × List Bytes)
  | .inl e =>
    (peer.serve pairCrypto config config.efSerial.1 (ourPub, priv) s.2 e).map fun r =>
      (r.1, s.1, r.2)
  | .inr (.notifyWaitFor _) =>
    match s.1 with
    | [] => none
    | bits :: rest => some (some bits, rest, s.2)
  | .inr .nvsFlashInit => some (EspErr.ok, s)
  | .inr .gpioInstallIsrService => some (EspErr.ok, s)
  | .inr (.pushbuttonInit _ _) => some (EspErr.ok, s)
  | .inr .xQueueCreate => some (true, s)
  | .inr .nimblePortInit => some (EspErr.ok, s)
  | .inr .nimblePortFreertosInit => some ((), s)
  | .inr (.startConnect _) => some (EspErr.ok, s)
  | .inr (.xTaskCreate _) => some (true, s)

/-- `app_main` with these wake-ups and the recorded device. -/
def appRun (bits : List UInt32) : AppHist × App Empty :=
  (simulate appServe (bits, .fresh, []) []
    (appMain pairCrypto session 40 nvs zeroConfig 10)).2

theorem appServe_env {s s' : List UInt32 × PeerState × List Bytes} {H : AppHist} {e : AppCall}
    {a : AppAnswer e} (hs : peer.Serving pairCrypto config config.efSerial.1 s.2 (lefts H))
    (hans : appServe s e = some (a, s')) :
    appPeerEnv pairCrypto config peer (ourPub, priv) H e a ∧
      peer.Serving pairCrypto config config.efSerial.1 s'.2 (lefts (H ++ [⟨e, a⟩])) := by
  rw [lefts_append]
  cases e with
  | inl e =>
    obtain ⟨r, hr, heq⟩ := Option.map_eq_some_iff.mp hans
    cases heq
    exact Peer.serve_env hs hr
  | inr e =>
    have hsame : s'.2 = s.2 := by
      obtain ⟨bits, dev⟩ := s
      cases e with
      | notifyWaitFor t =>
        cases bits with
        | nil => cases hans
        | cons bit bits =>
          cases hans
          rfl
      | _ =>
        cases hans
        rfl
    refine ⟨trivial, ?_⟩
    rw [hsame]
    show peer.Serving pairCrypto config config.efSerial.1 s.2 (lefts H ++ [])
    rwa [List.append_nil]

theorem reach_appRun (bits : List UInt32) :
    Reach (appPeerEnv pairCrypto config peer (ourPub, priv))
      ([], appMain pairCrypto session 40 nvs zeroConfig 10) ((appRun bits).1, (appRun bits).2) :=
  reach_simulate_of (fun s H => peer.Serving pairCrypto config config.efSerial.1 s.2 (lefts H))
    (fun _ _ _ _ _ => appServe_env) _ Peer.serving_nil

/-- The host syncs, a button is pressed, and the device is connected. -/
def wakes : List UInt32 := [evtToggleAcPort, evtHostSync, evtToggleDcPort, evtConnected]

end Sample

/-- Two presses before the loop: both are strays of the bring-up. -/
theorem bring_up_order_sample :
    let run := Sample.appRun Sample.wakes
    (bootWakes run.1 = Sample.wakes.map some ∧ connects run.1 = [Sample.config.efMac]) ∧
    (∀ H₁ ev H₂, run.1 = H₁ ++ ev :: H₂ → Allowed Sample.nvs Sample.zeroConfig H₁ ev.1) ∧
    (∀ e k, run.2 = .call e k → Allowed Sample.nvs Sample.zeroConfig run.1 e) :=
  ⟨by decide +kernel, bring_up_order ((Sample.reach_appRun _).mono fun _ _ _ _ => trivial)⟩

end River2
