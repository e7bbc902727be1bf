import River2.Link

/-!
# The telemetry task (`river2_telemetry.c`)

`telemetryTask` reads notifications, extracts their frames with a buffer of its own, and publishes
what the heartbeats say. `wp_telemetryTask`: whatever the frames hold, the task never ends, and
whenever it waits it has extracted all frames of the bytes it has received.
-/

namespace River2

open Prog

/-! ## The code -/

def pollTimeoutMs : ℕ := 5000

def pdSocOffset : ℕ := 14

def mpptCfgAcEnabledOffset : ℕ := 66

def mpptCarStateOffset : ℕ := 56

def evtBatteryLevel : UInt32 := (1 : UInt32) <<< 4
def evtToggleAcPort : UInt32 := (1 : UInt32) <<< 5
def evtToggleDcPort : UInt32 := (1 : UInt32) <<< 6
def evtDcState : UInt32 := (1 : UInt32) <<< 7
def evtAcState : UInt32 := (1 : UInt32) <<< 8

/-- `telemetry_ctx_t`, without the task to notify. -/
structure TelemetryCtx where
  session : Session
  intervalMs : ℕ

/-- One of the two state fields of an MPPT heartbeat: the variable follows the payload's byte, and a
change raises the event. -/
def mpptState (x : Shared) (offset : ℕ) (evt : UInt32) (payload : Bytes) : Fw UInt32 := do
  if payload.length > offset then
    let v := (payload.getD offset 0).toInt8
    let old ← load x
    if v ≠ old then
      store x v
      return evt
    else return 0
  else return 0

/-- `notify_bits` of an MPPT heartbeat. -/
def mpptHeartbeat (payload : Bytes) : Fw UInt32 := do
  let acBits ← mpptState .acEnabled mpptCfgAcEnabledOffset evtAcState payload
  let dcBits ← mpptState .dcOutState mpptCarStateOffset evtDcState payload
  return acBits ||| dcBits

/-- `notify_bits` of a PD heartbeat, and the time of the next battery event. -/
def pdHeartbeat (intervalMs : ℕ) (nextNotifyUs : ℤ) (payload : Bytes) : Fw (UInt32 × ℤ) := do
  if payload.length > pdSocOffset then
    store .batteryPercent (payload.getD pdSocOffset 0).toInt8
    let nowUs ← getTime
    if nextNotifyUs ≤ nowUs then return (evtBatteryLevel, nowUs + intervalMs * 1000)
    else return (0, nextNotifyUs)
  else return (0, nextNotifyUs)

/-- The task notification, if there is something to notify. -/
def notifyOwner (bits : UInt32) : Fw Unit := do
  if bits ≠ 0 then notify bits else return ()

/-- What is done with a packet. -/
def telemetryPacket (intervalMs : ℕ) (nextNotifyUs : ℤ) (pkt : InnerPacket) : Fw ℤ := do
  if pkt.cmdId ≠ cmdidHeartbeat then return nextNotifyUs
  else if pkt.src = addrPd ∧ pkt.cmdSet = cmdsetHeartbeat then
    let (bits, next) ← pdHeartbeat intervalMs nextNotifyUs pkt.payload
    notifyOwner bits
    return next
  else if pkt.src = addrMppt then
    let bits ← mpptHeartbeat pkt.payload
    notifyOwner bits
    return nextNotifyUs
  else return nextNotifyUs

/-- What is done with a frame. -/
def telemetryFrame (c : Crypto) (ctx : TelemetryCtx) (nextNotifyUs : ℤ) (f : Frame) : Fw ℤ := do
  if f.frameType ≠ frameData then return nextNotifyUs
  else
    match ← (sessionDecrypt c ctx.session f.payload 256).attempt with
    | .error _ => return nextNotifyUs
    | .ok decrypted =>
      match innerParse decrypted with
      | none => return nextNotifyUs
      | some pkt => telemetryPacket ctx.intervalMs nextNotifyUs pkt

/-- One round of the loop over the frames of the buffer. -/
def frameRound (c : Crypto) (ctx : TelemetryCtx) :
    Framebuf × ℤ → Fw ((Framebuf × ℤ) ⊕ (Framebuf × ℤ))
  | (fb, next) => do
    let allocOk ← alloc
    match framebufExtract allocOk fb with
    | (none, fb) => return .inr (fb, next)
    | (some f, fb) =>
      markExtracted f
      let next ← telemetryFrame c ctx next f
      return .inl (fb, next)

/-- One round of the task; a frame takes at least one byte of the buffer. -/
def telemetryRound (c : Crypto) (ctx : TelemetryCtx) :
    Framebuf × ℤ → Fw ((Framebuf × ℤ) ⊕ Empty)
  | (fb, next) => do
    match ← bleWaitNotification notifyChunkMax pollTimeoutMs with
    | .error _ => return .inl (fb, next)
    | .ok chunk =>
      let allocOk ← alloc
      match framebufAppend allocOk fb chunk with
      | (false, fb) => return .inl (fb, next)
      | (true, fb) =>
        let r ← Prog.loop (frameRound c ctx) (fb.data.length + 1) (fb, next)
        return .inl r

/-- `telemetry_task`, for a number of rounds. -/
def telemetryTask (c : Crypto) (ctx : TelemetryCtx) (fuel : ℕ) : Fw Empty :=
  Prog.loop (telemetryRound c ctx) fuel (framebufInit, 0)

/-! ## What it extracts -/

/-- The environment in which allocations succeed. -/
def allocEnv : Env Answer
  | _, .alloc, ok => ok = true
  | _, _, _ => True

/-- Frames are extracted in the order of the bytes received, and a wait begins when all of them are
extracted. -/
def telemetryContract (fuel : ℕ) : Contract Call Answer where
  env := allocEnv
  pre := fun h e =>
    match e with
    | .extracted f => extracted h ++ [f] <+: framesOf (received h)
    | .queueReceive _ => Drained h
    | .bleWrite _ | .makeKey => False
    | _ => True
  out := fun h => fuel ≤ waits h

section Specs

variable {C : Contract Call Answer} {h : Hist} {R : EspErr → Hist → Prop}

/-- The contract lets calls through that leave the air alone. -/
def PermitsOffAir (C : Contract Call Answer) : Prop := ∀ h e, e.offAir = true → C.pre h e

theorem PermitsOffAir.permits (hperm : PermitsOffAir C) : Permits C :=
  fun h e he => hperm h e (Call.offAir_of_silent he)

theorem wp_offAir (hperm : PermitsOffAir C) {e : Call} (he : e.offAir = true)
    {Q : Answer e → Hist → Prop} (hQ : ∀ a, OffAir h (h ++ [⟨e, a⟩]) → Q a (h ++ [⟨e, a⟩])) :
    wp C (ask e) Q R h :=
  ⟨hperm h e he, fun a _ => hQ a ((Extends.refl h).snoc he)⟩

theorem wp_mpptState (hperm : PermitsOffAir C) {x : Shared} {offset : ℕ} {evt : UInt32}
    {payload : Bytes} : wp C (mpptState x offset evt payload) (fun _ h' => OffAir h h') R h := by
  unfold mpptState
  split_ifs with hlen
  · refine wp_do.mpr (wp_offAir hperm rfl fun old hx₁ => ?_)
    split_ifs with hne
    · exact wp_do.mpr (wp_offAir hperm rfl fun _ hx₂ => hx₁.trans hx₂)
    · exact hx₁
  · exact Extends.refl h

theorem wp_notifyOwner (hperm : PermitsOffAir C) {bits : UInt32} :
    wp C (notifyOwner bits) (fun _ h' => OffAir h h') R h := by
  unfold notifyOwner
  split_ifs with hne
  · exact wp_offAir hperm rfl fun _ hx => hx
  · exact Extends.refl h

theorem wp_pdHeartbeat (hperm : PermitsOffAir C) {intervalMs : ℕ} {next : ℤ} {payload : Bytes} :
    wp C (pdHeartbeat intervalMs next payload) (fun _ h' => OffAir h h') R h := by
  unfold pdHeartbeat
  split_ifs with hlen
  · refine wp_do.mpr (wp_offAir hperm rfl fun _ hx₁ => ?_)
    refine wp_do.mpr (wp_offAir hperm rfl fun now hx₂ => ?_)
    split_ifs
    · exact hx₁.trans hx₂
    · exact hx₁.trans hx₂
  · exact Extends.refl h

theorem wp_telemetryPacket (hperm : PermitsOffAir C) {intervalMs : ℕ} {next : ℤ}
    {pkt : InnerPacket} :
    wp C (telemetryPacket intervalMs next pkt) (fun _ h' => OffAir h h') R h := by
  unfold telemetryPacket
  split_ifs with hid hpd hmppt
  · exact Extends.refl h
  · refine wp_do.mpr (wp_mono (wp_pdHeartbeat hperm) (fun _ h₁ hx₁ => ?_) fun _ _ => id)
    exact wp_do.mpr (wp_mono (wp_notifyOwner hperm) (fun _ _ => hx₁.trans) fun _ _ => id)
  · unfold mpptHeartbeat
    refine wp_do.mpr (wp_do.mpr (wp_mono (wp_mpptState hperm) (fun _ h₁ hx₁ => ?_) fun _ _ => id))
    refine wp_do.mpr (wp_mono (wp_mpptState hperm) (fun _ h₂ hx₂ => ?_) fun _ _ => id)
    exact wp_do.mpr (wp_mono (wp_notifyOwner hperm) (fun _ _ hx₃ => (hx₁.trans hx₂).trans hx₃)
      fun _ _ => id)
  · exact Extends.refl h

theorem wp_telemetryFrame (hperm : PermitsOffAir C) {c : Crypto} {ctx : TelemetryCtx} {next : ℤ}
    {f : Frame} : wp C (telemetryFrame c ctx next f) (fun _ h' => OffAir h h') R h := by
  unfold telemetryFrame
  split_ifs with hty
  · exact Extends.refl h
  refine wp_do.mpr (wp_attempt.mpr (wp_sessionDecrypt hperm.permits ?_ ?_ ?_))
  · intro plain h₁ hq₁ _
    have hx₁ := offAir_of_quiet hq₁
    dsimp only
    cases innerParse plain with
    | none => exact hx₁
    | some pkt => exact wp_mono (wp_telemetryPacket hperm) (fun _ _ => hx₁.trans) fun _ _ => id
  · intro err h₁ hq₁ _
    exact offAir_of_quiet hq₁
  · intro h₁ hq₁ _
    exact offAir_of_quiet hq₁

end Specs

section Task

variable {fuel : ℕ} {c : Crypto} {ctx : TelemetryCtx} {next : ℤ} {fb : Framebuf} {h : Hist}
  {R : EspErr → Hist → Prop}

theorem permitsOffAir_telemetry : PermitsOffAir (telemetryContract fuel) := by
  rintro h (_ | _ | _ | _) he <;> trivial

theorem wp_frameRound (hs : Synced h fb) :
    wp (telemetryContract fuel) (frameRound c ctx (fb, next))
      (fun r h' => waits h' = waits h ∧
        match r with
        | .inl s => Synced h' s.1 ∧ s.1.data.length < fb.data.length
        | .inr s => Synced h' s.1 ∧ Drained h') R h := by
  unfold frameRound
  refine wp_do.mpr (wp_silent permitsOffAir_telemetry.permits rfl fun allocOk hans => ?_)
  obtain rfl : allocOk = true := hans
  have hq₁ : Quiet h (h ++ [⟨.alloc, true⟩]) := quiet_snoc rfl _
  generalize h ++ [⟨.alloc, true⟩] = h₁ at hq₁ ⊢
  have hs₁ := hs.quiet hq₁
  have hw₁ := waits_quiet hq₁
  cases he : framebufExtract true fb with
  | mk o fb₁ =>
    have hlen := framebufExtract_length he
    cases o with
    | none => exact ⟨hw₁, hs₁.extract_none he, hs₁.drained he⟩
    | some f =>
      have hs₂ := hs₁.extract_some he
      have hpre := hs₂.prefix_framesOf
      rw [extracted_append, received_append] at hpre
      change extracted h₁ ++ [f] <+: framesOf (received h₁ ++ []) at hpre
      rw [List.append_nil] at hpre
      refine wp_do.mpr ⟨hpre, fun _ _ => ?_⟩
      refine wp_do.mpr (wp_mono (wp_telemetryFrame permitsOffAir_telemetry) (fun next' h₂ hx₂ => ?_)
        fun _ _ => id)
      rw [Option.toList_some, List.length_singleton] at hlen
      refine ⟨?_, hs₂.offAir hx₂, Nat.lt_of_succ_le hlen⟩
      rw [waits_offAir hx₂, waits_append, hw₁]
      rfl

/-- A round of the task receives at most one notification and extracts all it can. -/
theorem wp_telemetryRound (hs : Synced h fb) (hd : Drained h) :
    wp (telemetryContract fuel) (telemetryRound c ctx (fb, next))
      (fun r h' => waits h' = waits h + 1 ∧
        match r with
        | .inl s => Synced h' s.1 ∧ Drained h'
        | .inr _ => False) R h := by
  unfold telemetryRound bleWaitNotification
  refine wp_do.mpr (wp_do.mpr ⟨hd, fun answer _ => ?_⟩)
  cases answer with
  | none =>
    refine ⟨waits_append .., hs.receive_none _, ?_⟩
    unfold Drained
    rw [received_append, extracted_append]
    show framesOf (received h ++ []) = extracted h ++ []
    rw [List.append_nil, List.append_nil]
    exact hd
  | some data =>
    refine wp_do.mpr (wp_silent permitsOffAir_telemetry.permits rfl fun allocOk hans => ?_)
    obtain rfl : allocOk = true := hans
    cases ha : framebufAppend true fb (data.take notifyChunkMax) with
    | mk appended fb₁ =>
      obtain ⟨rfl, -⟩ := Prod.mk.inj (ha.symm.trans (framebufAppend_eq_true fb _))
      have hs₁ := (hs.receive_some pollTimeoutMs ha).quiet (quiet_snoc (e := .alloc) rfl true)
      have hw₁ : waits (h ++ [⟨.queueReceive pollTimeoutMs, some data⟩] ++ [⟨.alloc, true⟩]) =
          waits h + 1 := by
        rw [waits_append, waits_append]
        rfl
      refine wp_do.mpr (wp_loop (fun n s h' => waits h' = waits h + 1 ∧ Synced h' s.1 ∧
        s.1.data.length < n) ?_ ?_ ?_)
      · rintro s h' ⟨-, -, hlt⟩
        exact absurd hlt (Nat.not_lt_zero _)
      · rintro n ⟨fb₂, next₂⟩ h₂ ⟨hw₂, hs₂, hlt⟩
        refine wp_mono (wp_frameRound hs₂) ?_ fun _ _ => id
        rintro (⟨fb₃, next₃⟩ | ⟨fb₃, next₃⟩) h₃ ⟨hw₃, hs₃, h₃⟩
        · exact ⟨hw₃.trans hw₂, hs₃, lt_of_lt_of_le h₃ (Nat.le_of_lt_succ hlt)⟩
        · exact ⟨hw₃.trans hw₂, hs₃, h₃⟩
      · exact ⟨hw₁, hs₁, Nat.lt_succ_self _⟩

/-- **The telemetry task** never ends, extracts the frames of the bytes received in their order, and
waits only when it has extracted all of them. -/
theorem wp_telemetryTask :
    wp (telemetryContract fuel) (telemetryTask c ctx fuel) (fun _ _ => False) (fun _ _ => False)
      [] := by
  unfold telemetryTask
  refine wp_loop (fun n s h => Synced h s.1 ∧ Drained h ∧ fuel = n + waits h) ?_ ?_ ?_
  · rintro s h ⟨-, -, hfuel⟩
    show fuel ≤ waits h
    omega
  · rintro n ⟨fb₁, next₁⟩ h₁ ⟨hs₁, hd₁, hfuel⟩
    refine wp_mono (wp_telemetryRound hs₁ hd₁) ?_ fun _ _ => id
    rintro (⟨fb₂, next₂⟩ | ⟨⟨⟩⟩) h₂ ⟨hw, hs₂, hd₂⟩
    exact ⟨hs₂, hd₂, by omega⟩
  · exact ⟨synced_init, framesOf_nil, rfl⟩

end Task

end River2
