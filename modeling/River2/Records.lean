import River2.Library.Fields
import River2.Ledger

/-!
# The heartbeats' records

`pdRecord` and `mpptRecord` are the field lists of the protocol document's sections 5.1 and 5.5;
`recordField` decodes a payload in field order, as section 5 says. `fixed_offsets_agree`: what
`telemetry_task` reads at its fixed offsets, behind its length checks, are the fields `soc`,
`car_state` and `cfg_ac_enabled`.
-/

namespace River2

open Prog

/-! ## The document -/

/-- The types of the document's section 5: integers of one, two and four bytes, each unsigned and
signed, and `Ns`. -/
inductive FieldType where
  | B | b | H | h | I | i
  | blob (n : ℕ)
  deriving DecidableEq

def FieldType.width : FieldType → ℕ
  | .B | .b => 1
  | .H | .h => 2
  | .I | .i => 4
  | .blob n => n

/-- Section 5.1: the PD heartbeat. -/
def pdRecord : List FieldType :=
  [.B, -- model
   .blob 4, .blob 4, .blob 4, -- err_code, sys_ver, wifi_ver
   .B, -- wifi_auto_rcvy
   .B, -- soc
   .H, .H, -- watts_out_sum, watts_in_sum
   .i, -- remain_time
   .B, .B, -- beep_mode, dc_out_state
   .B, .B, .B, .B, .B, .B, -- usb1, usb2, qc_usb1, qc_usb2, typec1 and typec2_watts
   .B, .B, -- typec1_temp, typec2_temp
   .B, .B, .B, -- car_state, car_watts, car_temp
   .H, .H, .B, -- standby_min, lcd_off_sec, lcd_brightness
   .I, .I, .I, .I, .I, -- chg_power_dc, chg_sun_power, chg_power_ac, dsg_power_dc, dsg_power_ac
   .I, .I, .I, .I, .I, .I, .I, -- usb, usbqc, typec, car, inv, dc_in and mppt_used_time
   .blob 2, -- reserved
   .B, .B, .B, -- ext_rj45_port, ext_3p8_port, ext_4p8_port
   .B, .B, .B, -- sys_chg_dsg_state, wifi_rssi, wireless_watts
   .blob 14, -- screen_state
   .B, .B, .B, .B, -- ac_auto_config, min_ac_out_soc, ac_out_pause, watth_is_config
   .B, .B, -- backup_soc, hysteresis_add
   .I] -- relay_switch_count

/-- Section 5.5: the MPPT heartbeat. -/
def mpptRecord : List FieldType :=
  [.I, .blob 4, -- fault_code, sw_ver
   .I, .I, .H, -- in_vol, in_amp, in_watts
   .I, .I, .H, -- out_val, out_amp, out_watts
   .h, -- mppt_temp
   .B, .B, .B, .B, -- xt60_chg_type, cfg_chg_type, chg_type, chg_state
   .I, .I, .H, -- dcdc_12v_vol, dcdc_12v_amp, dcdc_12v_watts
   .I, .I, .H, -- car_out_vol, car_out_amp, car_out_watts
   .h, .B, -- car_temp, car_state
   .h, .B, -- dc24v_temp, dc24v_state
   .B, .I, -- chg_pause_flag, cfg_dc_chg_current
   .B, -- beep_state
   .B, .B, .I, .B, -- cfg_ac_enabled, cfg_ac_xboost, cfg_ac_out_voltage, cfg_ac_out_freq
   .H, .H, .B, -- cfg_chg_watts, ac_standby_mins, discharge_type
   .H, .H, .H, -- car, power and screen_standby_mins
   .H, .blob 8] -- pay_flag, reserved

/-- Field `n` of a payload, counted from 1 as the document does; a field that does not fit is
absent. -/
def recordField (record : List FieldType) (n : ℕ) (payload : Bytes) : Option Bytes :=
  (Fields.decode (record.map FieldType.width) payload)[n - 1]?

/-- A field of type `B`. -/
def byteField (record : List FieldType) (n : ℕ) (payload : Bytes) : Option UInt8 :=
  (recordField record n payload).bind List.head?

/-- A PD heartbeat as the document decodes it. -/
def decodedPd (intervalMs : ℕ) (nextNotifyUs : ℤ) (payload : Bytes) : Fw (UInt32 × ℤ) := do
  match byteField pdRecord 6 payload with
  | some soc =>
    store .batteryPercent soc.toInt8
    let nowUs ← getTime
    if nextNotifyUs ≤ nowUs then return (evtBatteryLevel, nowUs + intervalMs * 1000)
    else return (0, nextNotifyUs)
  | none => return (0, nextNotifyUs)

/-- One of the two state fields, decoded. -/
def decodedState (x : Shared) (evt : UInt32) (field : Option UInt8) : Fw UInt32 := do
  match field with
  | some byte =>
    let old ← load x
    if byte.toInt8 ≠ old then
      store x byte.toInt8
      return evt
    else return 0
  | none => return 0

/-- An MPPT heartbeat as the document decodes it. -/
def decodedMppt (payload : Bytes) : Fw UInt32 := do
  let acBits ← decodedState .acEnabled evtAcState (byteField mpptRecord 27 payload)
  let dcBits ← decodedState .dcOutState evtDcState (byteField mpptRecord 21 payload)
  return acBits ||| dcBits

/-! ## Fixed offsets -/

theorem payloadByte_eq (offset : ℕ) (payload : Bytes) :
    payloadByte offset payload = payload[offset]? := by
  unfold payloadByte
  split_ifs with hlen
  · rw [List.getD_eq_getElem _ _ hlen, List.getElem?_eq_getElem hlen]
  · rw [List.getElem?_eq_none (not_lt.mp hlen)]

theorem recordField_byte {record : List FieldType} {n : ℕ}
    (hw : (record.map FieldType.width)[n - 1]? = some 1) (payload : Bytes) :
    recordField record n payload =
      (payloadByte (Fields.offset (record.map FieldType.width) (n - 1)) payload).map
        fun b => [b] := by
  rw [payloadByte_eq]
  exact Fields.decode_byte hw payload

theorem soc_field (payload : Bytes) :
    recordField pdRecord 6 payload = (payloadByte pdSocOffset payload).map fun b => [b] :=
  recordField_byte (by decide) payload

theorem carState_field (payload : Bytes) :
    recordField mpptRecord 21 payload =
      (payloadByte mpptCarStateOffset payload).map fun b => [b] :=
  recordField_byte (by decide) payload

theorem cfgAcEnabled_field (payload : Bytes) :
    recordField mpptRecord 27 payload =
      (payloadByte mpptCfgAcEnabledOffset payload).map fun b => [b] :=
  recordField_byte (by decide) payload

theorem byteField_eq {record : List FieldType} {n offset : ℕ} {payload : Bytes}
    (h : recordField record n payload = (payloadByte offset payload).map fun b => [b]) :
    byteField record n payload = payloadByte offset payload := by
  unfold byteField
  rw [h]
  cases payloadByte offset payload <;> rfl

/-! ## The code -/

theorem pdHeartbeat_eq (intervalMs : ℕ) (next : ℤ) (payload : Bytes) :
    pdHeartbeat intervalMs next payload = decodedPd intervalMs next payload := by
  unfold pdHeartbeat decodedPd
  rw [byteField_eq (soc_field payload)]
  unfold payloadByte
  by_cases hlen : pdSocOffset < payload.length
  · rw [if_pos hlen, if_pos hlen]
  · rw [if_neg hlen, if_neg hlen]

theorem mpptState_eq (x : Shared) (offset : ℕ) (evt : UInt32) (payload : Bytes) :
    mpptState x offset evt payload = decodedState x evt (payloadByte offset payload) := by
  unfold mpptState decodedState payloadByte
  by_cases hlen : offset < payload.length
  · rw [if_pos hlen, if_pos hlen]
  · rw [if_neg hlen, if_neg hlen]

theorem mpptHeartbeat_eq (payload : Bytes) : mpptHeartbeat payload = decodedMppt payload := by
  unfold mpptHeartbeat decodedMppt
  rw [byteField_eq (cfgAcEnabled_field payload), byteField_eq (carState_field payload),
    mpptState_eq, mpptState_eq]

/-- **The fixed offsets agree with the document.** Whatever the payload and however long: each of
the three fields is present in the decoded record if and only if the length check of
`telemetry_task` passes, and then it is the byte at the fixed offset. The code that reads at the
offsets is the code that decodes the record. -/
theorem fixed_offsets_agree (payload : Bytes) :
    (recordField pdRecord 6 payload = if pdSocOffset < payload.length then
      some [payload.getD pdSocOffset 0] else none) ∧
    (recordField mpptRecord 21 payload = if mpptCarStateOffset < payload.length then
      some [payload.getD mpptCarStateOffset 0] else none) ∧
    (recordField mpptRecord 27 payload = if mpptCfgAcEnabledOffset < payload.length then
      some [payload.getD mpptCfgAcEnabledOffset 0] else none) ∧
    (∀ intervalMs next, pdHeartbeat intervalMs next payload = decodedPd intervalMs next payload) ∧
    mpptHeartbeat payload = decodedMppt payload := by
  have hif : ∀ offset, ((payloadByte offset payload).map fun b => [b]) =
      if offset < payload.length then some [payload.getD offset 0] else none := by
    intro offset
    unfold payloadByte
    exact apply_ite _ _ _ _
  refine ⟨?_, ?_, ?_, fun intervalMs next => pdHeartbeat_eq intervalMs next payload,
    mpptHeartbeat_eq payload⟩
  · rw [soc_field, hif]
  · rw [carState_field, hif]
  · rw [cfgAcEnabled_field, hif]

end River2
