import River2.Telemetry

/-!
# What telemetry publishes

1. The two outputs of the station, each with its variable, its byte of the MPPT heartbeat and its
   events.
2. `packetCalls` are the calls that telemetry makes for a packet. `wp_telemetryPacket_calls`: it
   makes these and no others.
3. `published` reads from a history what telemetry has last stored for an output, and whether the
   event of that store is still due. `wp_telemetryPacket_settled`: after every packet the variables
   hold the bytes of the last heartbeats, and no event is due.
-/

namespace River2

open Prog

/-! ## Outputs -/

/-- The outputs of the station that the firmware switches. -/
inductive Output where
  | ac
  | dc
  deriving DecidableEq, Repr

namespace Output

/-- The variable with the last reported state. -/
def var : Output → Shared
  | ac => .acEnabled
  | dc => .dcOutState

/-- The place of the state byte in the payload of an MPPT heartbeat. -/
def offset : Output → ℕ
  | ac => mpptCfgAcEnabledOffset
  | dc => mpptCarStateOffset

def stateEvt : Output → UInt32
  | ac => evtAcState
  | dc => evtDcState

def toggleEvt : Output → UInt32
  | ac => evtToggleAcPort
  | dc => evtToggleDcPort

/-- The state byte that telemetry takes from a packet. -/
def byteOf (o : Output) (pkt : InnerPacket) : Option UInt8 :=
  if pkt.cmdId = cmdidHeartbeat ∧ pkt.src = addrMppt ∧ o.offset < pkt.payload.length then
    some (pkt.payload.getD o.offset 0)
  else none

theorem var_inj {o o' : Output} : o.var = o'.var ↔ o = o' := by
  cases o <;> cases o' <;> decide

theorem var_ne_batteryPercent (o : Output) : o.var ≠ .batteryPercent := by
  cases o <;> decide

end Output

/-- A notification value holds an event. -/
def carries (bits evt : UInt32) : Bool := decide (bits &&& evt ≠ 0)

theorem carries_zero (evt : UInt32) : carries 0 evt = false := by
  unfold carries
  rw [UInt32.zero_and]
  rfl

theorem carries_or (a b evt : UInt32) :
    carries (a ||| b) evt = (carries a evt || carries b evt) := by
  have hor : (a ||| b) &&& evt = (a &&& evt) ||| (b &&& evt) := by
    rw [← UInt32.toBitVec_inj]
    exact BitVec.and_or_distrib_right
  unfold carries
  rw [← Bool.decide_or, decide_eq_decide, hor, Ne, UInt32.or_eq_zero_iff]
  tauto

theorem carries_stateEvt (o o' : Output) : carries o.stateEvt o'.stateEvt = decide (o = o') := by
  cases o <;> cases o' <;> decide

theorem carries_batteryLevel (o : Output) : carries evtBatteryLevel o.stateEvt = false := by
  cases o <;> decide

/-! ## What a packet says -/

def payloadByte (offset : ℕ) (payload : Bytes) : Option UInt8 :=
  if offset < payload.length then some (payload.getD offset 0) else none

/-- The byte that telemetry takes from a packet for a shared variable. -/
def fieldByte (pkt : InnerPacket) : Shared → Option UInt8
  | .batteryPercent =>
    if pkt.cmdId = cmdidHeartbeat ∧ pkt.src = addrPd ∧ pkt.cmdSet = cmdsetHeartbeat then
      payloadByte pdSocOffset pkt.payload
    else none
  | .dcOutState => Output.dc.byteOf pkt
  | .acEnabled => Output.ac.byteOf pkt

theorem fieldByte_var (pkt : InnerPacket) (o : Output) : fieldByte pkt o.var = o.byteOf pkt := by
  cases o <;> rfl

/-! ## What is done with it -/

/-- The last value stored in a shared variable. -/
def stored (x : Shared) (h : Hist) : Int8 :=
  h.foldl
    (fun v ev =>
      match ev with
      | ⟨.store y w, _⟩ => if y = x then w else v
      | _ => v)
    (-1)

@[simp] theorem stored_store (x y : Shared) (w : Int8) (h : Hist) :
    stored x (h ++ [⟨.store y w, ()⟩]) = if y = x then w else stored x h := List.foldl_concat ..

theorem stored_snoc {x : Shared} {h : Hist} {e : Call} {a : Answer e}
    (he : ∀ y w, e ≠ .store y w) : stored x (h ++ [⟨e, a⟩]) = stored x h := by
  unfold stored
  rw [List.foldl_concat]
  cases e with
  | store y w => exact absurd rfl (he y w)
  | _ => rfl

theorem stored_append {x : Shared} {es : Hist} (hes : ∀ ev ∈ es, ∀ y w, ev.1 ≠ .store y w)
    (h : Hist) : stored x (h ++ es) = stored x h := by
  induction es using List.reverseRecOn with
  | nil => rw [List.append_nil]
  | append_singleton es ev ih =>
    rw [← List.append_assoc,
      stored_snoc (hes ev (List.mem_append_right _ (List.mem_singleton_self _)))]
    exact ih fun ev' hev' => hes ev' (List.mem_append_left _ hev')

/-- `next_notify_us` after a reading of the clock. -/
def rearm (intervalMs : ℕ) (next now : ℤ) : ℤ :=
  if next ≤ now then now + intervalMs * 1000 else next

/-- The new value of a variable whose byte differs from it. -/
def changed (old : Int8) (byte : Option UInt8) : Option Int8 :=
  byte.bind fun b => if b.toInt8 ≠ old then some b.toInt8 else none

def batteryBits (next : ℤ) (times : List ℤ) : UInt32 :=
  if times.any fun now => next ≤ now then evtBatteryLevel else 0

def stateBits (o : Output) (old : Int8) (byte : Option UInt8) : UInt32 :=
  if (changed old byte).isSome then o.stateEvt else 0

/-- The calls for a battery byte, with what the clock says. -/
def batteryCalls (byte : Option UInt8) (times : List ℤ) : Hist :=
  byte.toList.map (fun b => ⟨.store .batteryPercent b.toInt8, ()⟩) ++
    times.map fun now => ⟨.getTime, now⟩

/-- The calls for a state byte: the variable is read, and a new value stored. -/
def stateCalls (o : Output) (old : Int8) (byte : Option UInt8) : Hist :=
  byte.toList.map (fun _ => ⟨.load o.var, old⟩) ++
    (changed old byte).toList.map fun v => ⟨.store o.var v, ()⟩

def notifyCalls (bits : UInt32) : Hist := if bits ≠ 0 then [⟨.notify bits, ()⟩] else []

/-- The events that a packet raises. -/
def packetBits (pkt : InnerPacket) (vars : Shared → Int8) (next : ℤ) (times : List ℤ) : UInt32 :=
  batteryBits next times ||| (stateBits .ac (vars .acEnabled) (fieldByte pkt .acEnabled) |||
    stateBits .dc (vars .dcOutState) (fieldByte pkt .dcOutState))

/-- The calls that a packet leads to, with what the variables hold and the clock says. -/
def packetCalls (pkt : InnerPacket) (vars : Shared → Int8) (next : ℤ) (times : List ℤ) : Hist :=
  batteryCalls (fieldByte pkt .batteryPercent) times ++
    (stateCalls .ac (vars .acEnabled) (fieldByte pkt .acEnabled) ++
      (stateCalls .dc (vars .dcOutState) (fieldByte pkt .dcOutState) ++
        notifyCalls (packetBits pkt vars next times)))

section State

variable {o : Output} {old : Int8} {b : UInt8}

theorem changed_of_ne (hne : b.toInt8 ≠ old) : changed old (some b) = some b.toInt8 := if_pos hne

theorem changed_of_eq (heq : b.toInt8 = old) : changed old (some b) = none :=
  if_neg (not_not_intro heq)

theorem isSome_of_changed {byte : Option UInt8} (hc : (changed old byte).isSome) :
    byte.isSome := by
  cases byte with
  | none => exact hc
  | some b => rfl

theorem carries_batteryBits (next : ℤ) (times : List ℤ) :
    carries (batteryBits next times) o.stateEvt = false := by
  unfold batteryBits
  split_ifs
  · exact carries_batteryLevel o
  · exact carries_zero _

theorem carries_stateBits {o' : Output} {byte : Option UInt8} :
    carries (stateBits o' old byte) o.stateEvt =
      (decide (o' = o) && (changed old byte).isSome) := by
  unfold stateBits
  cases (changed old byte).isSome with
  | false =>
    rw [Bool.and_false]
    exact carries_zero _
  | true =>
    rw [Bool.and_true]
    exact carries_stateEvt o' o

theorem carries_packetBits {pkt : InnerPacket} {vars : Shared → Int8} {next : ℤ}
    {times : List ℤ} : carries (packetBits pkt vars next times) o.stateEvt =
      (changed (vars o.var) (fieldByte pkt o.var)).isSome := by
  unfold packetBits
  rw [carries_or, carries_or, carries_batteryBits, carries_stateBits, carries_stateBits,
    Bool.false_or]
  cases o with
  | ac => exact Bool.or_false _
  | dc => exact Bool.false_or _

theorem stored_stateCalls {h : Hist} (hold : old = stored o.var h) (x : Shared)
    (byte : Option UInt8) : stored x (h ++ stateCalls o old byte) =
      if x = o.var then (byte.map UInt8.toInt8).getD (stored x h) else stored x h := by
  cases byte with
  | none =>
    rw [show h ++ stateCalls o old none = h from List.append_nil h]
    exact (ite_self _).symm
  | some b =>
    have hload : stored x (h ++ [⟨.load o.var, old⟩]) = stored x h := stored_snoc nofun
    show stored x (h ++ (⟨.load o.var, old⟩ ::
      (changed old (some b)).toList.map fun v => ⟨.store o.var v, ()⟩)) = _
    rw [List.append_cons]
    by_cases hne : b.toInt8 ≠ old
    · rw [changed_of_ne hne]
      refine (stored_store x o.var _ _).trans ?_
      rw [hload]
      exact if_congr eq_comm rfl rfl
    · have heq := not_not.mp hne
      rw [changed_of_eq heq]
      show stored x (h ++ [⟨.load o.var, old⟩] ++ []) = _
      rw [List.append_nil, hload]
      split_ifs with hx
      · subst hx
        exact (heq.trans hold).symm
      · rfl

end State

theorem stored_batteryCalls {h : Hist} (x : Shared) (byte : Option UInt8) (times : List ℤ) :
    stored x (h ++ batteryCalls byte times) =
      if x = .batteryPercent then (byte.map UInt8.toInt8).getD (stored x h) else stored x h := by
  unfold batteryCalls
  rw [← List.append_assoc, stored_append (by simp)]
  cases byte with
  | none =>
    show stored x (h ++ []) = _
    rw [List.append_nil]
    exact (ite_self _).symm
  | some b => exact (stored_store x _ _ h).trans (if_congr eq_comm rfl rfl)

/-- **After a packet** the variables hold its bytes. -/
theorem stored_packetCalls {h : Hist} (x : Shared) (pkt : InnerPacket) (next : ℤ)
    (times : List ℤ) : stored x (h ++ packetCalls pkt (fun y => stored y h) next times) =
      ((fieldByte pkt x).map UInt8.toInt8).getD (stored x h) := by
  have hbattery := fun y => stored_batteryCalls (h := h) y (fieldByte pkt .batteryPercent) times
  have hac := fun y => stored_stateCalls (o := .ac) (hbattery .acEnabled).symm y
    (fieldByte pkt .acEnabled)
  have hdc := fun y => stored_stateCalls (o := .dc)
    ((hac .dcOutState).trans (hbattery .dcOutState)).symm y (fieldByte pkt .dcOutState)
  unfold packetCalls
  rw [← List.append_assoc, ← List.append_assoc, ← List.append_assoc, stored_append]
  · refine (hdc x).trans ?_
    rw [hac, hbattery]
    cases x <;> rfl
  · unfold notifyCalls
    split_ifs <;> simp

/-! ## Every packet -/

/-- What a contract allows telemetry from a history on: a load reads what was stored, and
notifications of a kind may be made. -/
structure Serves (C : Contract Call Answer) (allowed : UInt32 → Prop) (h : Hist) : Prop where
  reads : ∀ {h'}, h <+: h' → ∀ (o : Output) v, C.env h' (.load o.var) v → v = stored o.var h'
  load : ∀ {h'}, h <+: h' → ∀ x, C.pre h' (.load x)
  store : ∀ {h'}, h <+: h' → ∀ x v, C.pre h' (.store x v)
  getTime : ∀ {h'}, h <+: h' → C.pre h' .getTime
  notify : ∀ {h'}, h <+: h' → ∀ bits, allowed bits → C.pre h' (.notify bits)

section Specs

variable {C : Contract Call Answer} {allowed : UInt32 → Prop} {h : Hist}
  {R : EspErr → Hist → Prop}

theorem Serves.mono {h' : Hist} (hC : Serves C allowed h) (hh : h <+: h') :
    Serves C allowed h' where
  reads := fun hh' => hC.reads (hh.trans hh')
  load := fun hh' => hC.load (hh.trans hh')
  store := fun hh' => hC.store (hh.trans hh')
  getTime := fun hh' => hC.getTime (hh.trans hh')
  notify := fun hh' => hC.notify (hh.trans hh')

theorem wp_mpptState_calls (hC : Serves C allowed h) (o : Output) (payload : Bytes) :
    wp C (mpptState o.var o.offset o.stateEvt payload)
      (fun bits h' => bits = stateBits o (stored o.var h) (payloadByte o.offset payload) ∧
        h' = h ++ stateCalls o (stored o.var h) (payloadByte o.offset payload)) R h := by
  unfold mpptState payloadByte stateBits stateCalls
  by_cases hlen : o.offset < payload.length
  · rw [if_pos hlen, if_pos hlen]
    refine wp_do.mpr (wp_ask.mpr ⟨hC.load List.prefix_rfl _, fun old hold => ?_⟩)
    obtain rfl := hC.reads List.prefix_rfl o old hold
    by_cases hne : (payload.getD o.offset 0).toInt8 ≠ stored o.var h
    · rw [if_pos hne, changed_of_ne hne]
      refine wp_do.mpr (wp_ask.mpr ⟨hC.store (List.prefix_append ..) _ _, fun _ _ => ⟨rfl, ?_⟩⟩)
      exact List.append_assoc ..
    · rw [if_neg hne, changed_of_eq (not_not.mp hne)]
      exact ⟨rfl, rfl⟩
  · rw [if_neg hlen, if_neg hlen]
    exact ⟨rfl, (List.append_nil h).symm⟩

theorem wp_mpptHeartbeat_calls (hC : Serves C allowed h) (payload : Bytes) :
    wp C (mpptHeartbeat payload)
      (fun bits h' =>
        bits = (stateBits .ac (stored .acEnabled h) (payloadByte Output.ac.offset payload) |||
          stateBits .dc (stored .dcOutState h) (payloadByte Output.dc.offset payload)) ∧
        h' = h ++ (stateCalls .ac (stored .acEnabled h) (payloadByte Output.ac.offset payload) ++
          stateCalls .dc (stored .dcOutState h) (payloadByte Output.dc.offset payload))) R h := by
  unfold mpptHeartbeat
  refine wp_do.mpr (wp_mono (wp_mpptState_calls hC .ac payload) ?_ fun _ _ => id)
  rintro acBits h₁ ⟨rfl, rfl⟩
  refine wp_do.mpr (wp_mono (wp_mpptState_calls (hC.mono (List.prefix_append ..)) .dc payload) ?_
    fun _ _ => id)
  rintro dcBits h₂ ⟨rfl, rfl⟩
  have hdc : stored Output.dc.var (h ++ stateCalls .ac (stored Output.ac.var h)
      (payloadByte Output.ac.offset payload)) = stored .dcOutState h :=
    (stored_stateCalls rfl _ _).trans (if_neg nofun)
  rw [hdc]
  exact ⟨rfl, List.append_assoc ..⟩

theorem wp_pdHeartbeat_calls (hC : Serves C allowed h) (intervalMs : ℕ) (next : ℤ)
    (payload : Bytes) :
    wp C (pdHeartbeat intervalMs next payload)
      (fun s h' => ∃ times : List ℤ,
        times.length = (payloadByte pdSocOffset payload).toList.length ∧
        s = (batteryBits next times, times.foldl (rearm intervalMs) next) ∧
        h' = h ++ batteryCalls (payloadByte pdSocOffset payload) times) R h := by
  unfold pdHeartbeat payloadByte
  by_cases hlen : pdSocOffset < payload.length
  · rw [if_pos hlen, if_pos hlen]
    refine wp_do.mpr (wp_ask.mpr ⟨hC.store List.prefix_rfl _ _, fun _ _ => ?_⟩)
    refine wp_do.mpr (wp_ask.mpr ⟨hC.getTime (List.prefix_append ..), fun now _ => ?_⟩)
    by_cases hdue : next ≤ now
    · rw [if_pos hdue]
      exact ⟨[now], rfl, by simp [batteryBits, rearm, hdue], List.append_assoc ..⟩
    · rw [if_neg hdue]
      exact ⟨[now], rfl, by simp [batteryBits, rearm, hdue], List.append_assoc ..⟩
  · rw [if_neg hlen, if_neg hlen]
    exact ⟨[], rfl, rfl, (List.append_nil h).symm⟩

theorem wp_notifyOwner_calls (hC : Serves C allowed h) {bits : UInt32} (hbits : allowed bits) :
    wp C (notifyOwner bits) (fun _ h' => h' = h ++ notifyCalls bits) R h := by
  unfold notifyOwner notifyCalls
  split_ifs
  · exact wp_ask.mpr ⟨hC.notify List.prefix_rfl bits hbits, fun _ _ => rfl⟩
  · exact (List.append_nil h).symm

/-- **A packet.** Telemetry makes the calls that the packet leads to, and no others. -/
theorem wp_telemetryPacket_calls {intervalMs : ℕ} {next : ℤ} {pkt : InnerPacket}
    (hC : Serves C allowed h)
    (hbits : ∀ times, allowed (packetBits pkt (fun x => stored x h) next times)) :
    wp C (telemetryPacket intervalMs next pkt)
      (fun next' h' => ∃ times : List ℤ,
        times.length = (fieldByte pkt .batteryPercent).toList.length ∧
        next' = times.foldl (rearm intervalMs) next ∧
        h' = h ++ packetCalls pkt (fun x => stored x h) next times) R h := by
  -- a packet without a byte for any variable
  have hidle : (∀ x, fieldByte pkt x = none) → ∃ times : List ℤ,
      times.length = (fieldByte pkt .batteryPercent).toList.length ∧
      next = times.foldl (rearm intervalMs) next ∧
      h = h ++ packetCalls pkt (fun x => stored x h) next times := by
    intro hnone
    have hbits : packetBits pkt (fun x => stored x h) next [] = 0 := by
      unfold packetBits
      rw [hnone, hnone]
      show (0 : UInt32) ||| (0 ||| 0) = 0
      decide
    refine ⟨[], by rw [hnone]; rfl, rfl, ?_⟩
    unfold packetCalls
    rw [hbits, hnone, hnone, hnone]
    exact (List.append_nil h).symm
  unfold telemetryPacket
  split_ifs with hid hpd hmppt
  · refine hidle fun x => ?_
    cases x <;> exact if_neg fun hf => hid hf.1
  · have hbattery : fieldByte pkt .batteryPercent = payloadByte pdSocOffset pkt.payload :=
      if_pos ⟨not_not.mp hid, hpd⟩
    have hout : ∀ o : Output, fieldByte pkt o.var = none := by
      intro o
      rw [fieldByte_var]
      exact if_neg fun hf => absurd (hpd.1.symm.trans hf.2.1) (by decide)
    have hpacket : ∀ times, packetBits pkt (fun x => stored x h) next times =
        batteryBits next times := by
      intro times
      unfold packetBits
      rw [show fieldByte pkt .acEnabled = none from hout .ac,
        show fieldByte pkt .dcOutState = none from hout .dc]
      show batteryBits next times ||| (0 ||| 0) = _
      rw [UInt32.or_zero, UInt32.or_zero]
    refine wp_do.mpr (wp_mono (wp_pdHeartbeat_calls hC intervalMs next pkt.payload) ?_
      fun _ _ => id)
    rintro ⟨bits, next'⟩ h₁ ⟨times, hlen, heq, rfl⟩
    cases heq
    refine wp_do.mpr (wp_mono (wp_notifyOwner_calls (hC.mono (List.prefix_append ..))
      (hpacket times ▸ hbits times)) ?_ fun _ _ => id)
    rintro - h₂ rfl
    refine ⟨times, hbattery ▸ hlen, rfl, ?_⟩
    unfold packetCalls
    rw [hpacket, hbattery, show fieldByte pkt .acEnabled = none from hout .ac,
      show fieldByte pkt .dcOutState = none from hout .dc]
    exact List.append_assoc ..
  · have hbattery : fieldByte pkt .batteryPercent = none := if_neg fun hf => hpd hf.2
    have hout : ∀ o : Output, fieldByte pkt o.var = payloadByte o.offset pkt.payload := by
      intro o
      rw [fieldByte_var]
      exact if_congr ((and_iff_right (not_not.mp hid)).trans (and_iff_right hmppt)) rfl rfl
    have hac : fieldByte pkt .acEnabled = payloadByte Output.ac.offset pkt.payload := hout .ac
    have hdc : fieldByte pkt .dcOutState = payloadByte Output.dc.offset pkt.payload := hout .dc
    have hpacket : packetBits pkt (fun x => stored x h) next [] =
        (stateBits .ac (stored .acEnabled h) (payloadByte Output.ac.offset pkt.payload) |||
          stateBits .dc (stored .dcOutState h) (payloadByte Output.dc.offset pkt.payload)) := by
      unfold packetBits
      rw [hac, hdc]
      exact UInt32.zero_or
    refine wp_do.mpr (wp_mono (wp_mpptHeartbeat_calls hC pkt.payload) ?_ fun _ _ => id)
    rintro bits h₁ ⟨rfl, rfl⟩
    refine wp_do.mpr (wp_mono (wp_notifyOwner_calls (hC.mono (List.prefix_append ..))
      (hpacket ▸ hbits [])) ?_ fun _ _ => id)
    rintro - h₂ rfl
    refine ⟨[], by rw [hbattery]; rfl, rfl, ?_⟩
    unfold packetCalls
    rw [hpacket, hbattery, hac, hdc, List.append_assoc, List.append_assoc]
    rfl
  · refine hidle fun x => ?_
    cases x with
    | batteryPercent => exact if_neg fun hf => hpd hf.2
    | dcOutState => exact if_neg fun hf => hmppt hf.2.1
    | acEnabled => exact if_neg fun hf => hmppt hf.2.1

end Specs

/-! ## What has been published -/

/-- The value of an output's variable, and whether the event of its last store is due. -/
structure Published where
  value : Int8
  due : Bool

/-- The initial value of the variables. -/
def Published.init : Published := ⟨-1, false⟩

def Published.next (o : Output) (p : Published) : Event Answer → Published
  | ⟨.store x v, _⟩ => if x = o.var then ⟨v, true⟩ else p
  | ⟨.notify bits, _⟩ => { p with due := p.due && !carries bits o.stateEvt }
  | _ => p

/-- What a history of telemetry has published for an output. -/
def published (o : Output) (h : Hist) : Published := h.foldl (Published.next o) .init

@[simp] theorem published_snoc (o : Output) (h : Hist) (ev : Event Answer) :
    published o (h ++ [ev]) = (published o h).next o ev := List.foldl_concat ..

theorem published_append (o : Output) (h es : Hist) :
    published o (h ++ es) = es.foldl (Published.next o) (published o h) := List.foldl_append

/-- The bytes last seen of each output are in its variable, and no event is due. -/
def Settled (seen : Output → Option UInt8) (h : Hist) : Prop :=
  ∀ o, (published o h).due = false ∧ ∀ b, seen o = some b → (published o h).value = b.toInt8

theorem published_value (o : Output) (h : Hist) : (published o h).value = stored o.var h := by
  induction h using List.reverseRecOn with
  | nil => rfl
  | append_singleton h ev ih =>
    obtain ⟨e, a⟩ := ev
    rw [published_snoc]
    cases e with
    | store x v =>
      refine Eq.trans ?_ (stored_store o.var x v h).symm
      rw [← ih]
      exact apply_ite Published.value _ _ _
    | _ =>
      refine ih.trans (Eq.symm (stored_snoc ?_))
      rintro y w ⟨⟩

theorem due_stateCalls {o o' : Output} {p : Published} {old : Int8} {byte : Option UInt8} :
    ((stateCalls o' old byte).foldl (Published.next o) p).due =
      (p.due || (decide (o' = o) && (changed old byte).isSome)) := by
  unfold stateCalls
  rw [List.foldl_append]
  have hload : (byte.toList.map fun _ => (⟨.load o'.var, old⟩ : Event Answer)).foldl
      (Published.next o) p = p := by
    cases byte <;> rfl
  rw [hload]
  cases changed old byte with
  | none => exact ((Bool.or_comm ..).trans (by rw [Option.isSome_none, Bool.and_false]; rfl)).symm
  | some v =>
    show (if o'.var = o.var then (⟨v, true⟩ : Published) else p).due = _
    rw [Option.isSome_some, Bool.and_true]
    by_cases ho : o' = o
    · rw [if_pos (Output.var_inj.mpr ho), decide_eq_true ho, Bool.or_true]
    · rw [if_neg (ho ∘ Output.var_inj.mp), decide_eq_false ho, Bool.or_false]

/-- **No event is due** behind the calls of a packet if none was before. -/
theorem due_packetCalls {o : Output} {p : Published} (hdue : p.due = false) (pkt : InnerPacket)
    (vars : Shared → Int8) (next : ℤ) (times : List ℤ) :
    ((packetCalls pkt vars next times).foldl (Published.next o) p).due = false := by
  have hbattery : ∀ byte, (batteryCalls byte times).foldl (Published.next o) p = p := by
    intro byte
    unfold batteryCalls
    rw [List.foldl_append]
    have htimes : ∀ ts : List ℤ, (ts.map fun now => (⟨.getTime, now⟩ : Event Answer)).foldl
        (Published.next o) p = p := by
      intro ts
      induction ts with
      | nil => rfl
      | cons now ts ih => exact ih
    cases byte with
    | none => exact htimes times
    | some b =>
      show (times.map _).foldl (Published.next o)
        (if Shared.batteryPercent = o.var then _ else p) = p
      rw [if_neg o.var_ne_batteryPercent.symm]
      exact htimes times
  have hnotify : ∀ (q : Published) bits, ((notifyCalls bits).foldl (Published.next o) q).due =
      (q.due && !carries bits o.stateEvt) := by
    intro q bits
    unfold notifyCalls
    split_ifs with hbits
    · rfl
    · rw [not_not.mp hbits, carries_zero, Bool.not_false, Bool.and_true]
      rfl
  unfold packetCalls
  rw [List.foldl_append, List.foldl_append, List.foldl_append, hbattery, hnotify, due_stateCalls,
    due_stateCalls, hdue, carries_packetBits, Bool.false_or]
  cases o with
  | ac => exact (congrArg (· && _) (Bool.or_false _)).trans (Bool.and_not_self _)
  | dc => exact (congrArg (· && _) (Bool.false_or _)).trans (Bool.and_not_self _)

/-- Telemetry reads what it has published, and raises the events of outputs it has seen only. -/
def publishContract (seen : Output → Option UInt8) : Contract Call Answer where
  env := fun h e a =>
    match e, a with
    | .load x, v => ∀ o : Output, x = o.var → v = (published o h).value
    | _, _ => True
  pre := fun _ e =>
    match e with
    | .notify bits => ∀ o : Output, carries bits o.stateEvt = true → (seen o).isSome
    | _ => True
  out := fun _ => False

theorem serves_publish (seen : Output → Option UInt8) (h : Hist) :
    Serves (publishContract seen)
      (fun bits => ∀ o : Output, carries bits o.stateEvt = true → (seen o).isSome) h where
  reads := fun _ o _ hans => (hans o rfl).trans (published_value o _)
  load := fun _ _ => trivial
  store := fun _ _ _ => trivial
  getTime := fun _ => trivial
  notify := fun _ _ hbits => hbits

/-- The bytes last seen once a packet is handled. -/
def seenWith (seen : Output → Option UInt8) (pkt : InnerPacket) (o : Output) : Option UInt8 :=
  (o.byteOf pkt).or (seen o)

/-- **After every packet** the variables hold the bytes of the last heartbeats, and no event is
due. -/
theorem wp_telemetryPacket_settled {seen : Output → Option UInt8} {h : Hist}
    {R : EspErr → Hist → Prop} {intervalMs : ℕ} {next : ℤ} {pkt : InnerPacket}
    (hset : Settled seen h) :
    wp (publishContract (seenWith seen pkt)) (telemetryPacket intervalMs next pkt)
      (fun _ h' => Settled (seenWith seen pkt) h') R h := by
  refine wp_mono (wp_telemetryPacket_calls (serves_publish _ h) fun times o ho => ?_) ?_
    fun _ _ => id
  · rw [carries_packetBits, fieldByte_var] at ho
    exact Option.isSome_or.trans (by rw [isSome_of_changed ho, Bool.true_or])
  · rintro next' h' ⟨times, -, -, rfl⟩ o
    refine ⟨?_, fun b hb => ?_⟩
    · rw [published_append]
      exact due_packetCalls (hset o).1 pkt _ next times
    · rw [published_value, stored_packetCalls, fieldByte_var]
      unfold seenWith at hb
      cases hbyte : o.byteOf pkt with
      | some b' =>
        rw [hbyte] at hb
        cases hb
        rfl
      | none =>
        rw [hbyte] at hb
        exact (published_value o h).symm.trans ((hset o).2 b hb)

end River2
