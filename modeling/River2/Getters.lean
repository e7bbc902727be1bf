import River2.Dispatch

/-!
# The getters and the state events

1. The getters read the variables that the task stores: -1, and from the first byte on the last one
   as a signed byte.
2. `Exact` is what their comments say, with the state events beside it; `Representable` is what the
   bytes have to be for that: the last of every field below 0x80, and no first state byte 0xFF.
3. `exact_iff`: whenever the task waits, the one holds if and only if the other does.
-/

namespace River2

open Prog

variable (c : Crypto) (ctx : TelemetryCtx)

/-- A getter: the shared variable as an `int`. -/
def telemetryGetter (x : Shared) (h : Hist) : ℤ := (stored x h).toInt

/-- `river2_telemetry_battery_percent`. -/
def telemetryBatteryPercent : Hist → ℤ := telemetryGetter .batteryPercent

/-- `river2_telemetry_dc_out_state`. -/
def telemetryDcOutState : Hist → ℤ := telemetryGetter .dcOutState

/-- `river2_telemetry_ac_enabled`. -/
def telemetryAcEnabled : Hist → ℤ := telemetryGetter .acEnabled

/-- The byte for a shared variable in the most recent frame that has one. -/
def lastByte (x : Shared) (rs : List Handling) : Option UInt8 := rs.findSome? (·.byte c ctx x)

/-- The getters return the last bytes as they are, or -1 before the first; the state events are
raised by the first byte and by those that differ from the byte before. -/
structure Exact (h : Hist) : Prop where
  unknown : ∀ x, telemetryGetter x h = -1 ↔ ∀ r ∈ ledger h, r.byte c ctx x = none
  known : ∀ x b, lastByte c ctx x (ledger h) = some b → telemetryGetter x h = b.toNat
  raised : ∀ (o : Output) r rs, r :: rs <:+ ledger h →
    (carries r.bits o.stateEvt = true ↔
      ∃ b, r.byte c ctx o.var = some b ∧ lastByte c ctx o.var rs ≠ some b)

/-- The last bytes are no negative numbers, and no first state byte is -1. -/
structure Representable (h : Hist) : Prop where
  last : ∀ x b, lastByte c ctx x (ledger h) = some b → b < 0x80
  first : ∀ (o : Output) r rs, r :: rs <:+ ledger h → lastByte c ctx o.var rs = none →
    r.byte c ctx o.var ≠ some 0xFF

variable {c ctx}

theorem value_eq (x : Shared) (rs : List Handling) :
    value c ctx x rs = ((lastByte c ctx x rs).map UInt8.toInt8).getD (-1) := by
  unfold lastByte
  induction rs with
  | nil => rfl
  | cons r rs ih =>
    rw [value_cons, List.findSome?_cons]
    cases r.byte c ctx x with
    | none => exact ih
    | some b => rfl

theorem lastByte_eq_none {x : Shared} {rs : List Handling} :
    lastByte c ctx x rs = none ↔ ∀ r ∈ rs, r.byte c ctx x = none := List.findSome?_eq_none_iff

theorem toInt8_inj {a b : UInt8} : a.toInt8 = b.toInt8 ↔ a = b :=
  ⟨fun h => congrArg Int8.toUInt8 h, congrArg UInt8.toInt8⟩

/-- As a signed byte, a byte is itself below 0x80, and negative from there on. -/
theorem toInt_toInt8 (b : UInt8) :
    b.toInt8.toInt = if b < 0x80 then (b.toNat : ℤ) else (b.toNat : ℤ) - 256 := by
  have hint : b.toInt8.toInt = if 2 * b.toNat < 256 then (b.toNat : ℤ) else (b.toNat : ℤ) - 256 :=
    BitVec.toInt_eq_toNat_cond b.toBitVec
  have hlt : b < 0x80 ↔ 2 * b.toNat < 256 := by
    rw [UInt8.lt_iff_toNat_lt, show (0x80 : UInt8).toNat = 128 from rfl]
    omega
  rw [hint, if_congr hlt rfl rfl]

/-- Between packets a state event was raised exactly by the bytes that should, but for a first byte
0xFF. -/
theorem raised_iff {o : Output} {r : Handling} {rs : List Handling} (hr : Right c ctx rs r) :
    (carries r.bits o.stateEvt = true ↔
      ∃ b, r.byte c ctx o.var = some b ∧ lastByte c ctx o.var rs ≠ some b) ↔
    (lastByte c ctx o.var rs = none → r.byte c ctx o.var ≠ some 0xFF) := by
  rw [hr.carries_bits, Option.isSome_iff_exists]
  have hchanged : (∃ v, changed (value c ctx o.var rs) (r.byte c ctx o.var) = some v) ↔
      ∃ b, r.byte c ctx o.var = some b ∧ b.toInt8 ≠ value c ctx o.var rs := by
    constructor
    · rintro ⟨v, hv⟩
      obtain ⟨b, hb, hne, -⟩ := changed_eq_some.mp hv
      exact ⟨b, hb, hne⟩
    · rintro ⟨b, hb, hne⟩
      exact ⟨b.toInt8, changed_eq_some.mpr ⟨b, hb, hne, rfl⟩⟩
  rw [hchanged, value_eq]
  cases hlast : lastByte c ctx o.var rs with
  | some b' =>
    simp only [Option.map_some, Option.getD_some, ne_eq, toInt8_inj, Option.some.injEq]
    simp [eq_comm]
  | none =>
    have hmax : ∀ b : UInt8, b.toInt8 = (-1 : Int8) ↔ b = 0xFF := fun b => toInt8_inj (b := 0xFF)
    simp only [Option.map_none, Option.getD_none, ne_eq, hmax]
    cases r.byte c ctx o.var with
    | none => simp
    | some b => simp

section State

variable {h : Hist} {x : Shared}

theorem telemetryGetter_eq (ha : Accounted c ctx h) : telemetryGetter x h =
    (((lastByte c ctx x (ledger h)).map UInt8.toInt8).getD (-1)).toInt := by
  unfold telemetryGetter
  rw [ha.stored, value_eq]

theorem known_iff (ha : Accounted c ctx h) {b : UInt8}
    (hb : lastByte c ctx x (ledger h) = some b) : telemetryGetter x h = b.toNat ↔ b < 0x80 := by
  have hget : telemetryGetter x h = b.toInt8.toInt := by
    rw [telemetryGetter_eq ha, hb]
    rfl
  rw [hget, toInt_toInt8]
  split_ifs with hlow
  · exact iff_of_true rfl hlow
  · refine iff_of_false ?_ hlow
    omega

theorem unknown_iff (ha : Accounted c ctx h)
    (hlow : ∀ b, lastByte c ctx x (ledger h) = some b → b < 0x80) :
    telemetryGetter x h = -1 ↔ ∀ r ∈ ledger h, r.byte c ctx x = none := by
  rw [← lastByte_eq_none]
  cases hlast : lastByte c ctx x (ledger h) with
  | none =>
    refine iff_of_true ?_ rfl
    rw [telemetryGetter_eq ha, hlast]
    rfl
  | some b =>
    refine iff_of_false ?_ nofun
    rw [(known_iff ha hlast).mpr (hlow b hlast)]
    omega

/-- **Getters and state events, exactly.** Whatever the frames, the answers and the failures:
whenever the task waits, they are those of the bytes received, if and only if the bytes are
representable. -/
theorem exact_iff {fuel : ℕ} {q : Fw Empty}
    (hrun : Reach storedEnv ([], telemetryTask c ctx fuel) (h, q))
    (hq : q.next? = some (.queueReceive pollTimeoutMs)) :
    Exact c ctx h ↔ Representable c ctx h := by
  obtain ⟨-, -, -, -, ha, -⟩ := task_head hrun hq
  constructor
  · intro he
    refine ⟨fun x b hb => (known_iff ha hb).mp (he.known x b hb), fun o r rs hsuf => ?_⟩
    exact (raised_iff (ha.right r rs hsuf)).mp (he.raised o r rs hsuf)
  · intro hr
    refine ⟨fun x => unknown_iff ha (hr.last x), fun x b hb => ?_, fun o r rs hsuf => ?_⟩
    · exact (known_iff ha hb).mpr (hr.last x b hb)
    · exact (raised_iff (ha.right r rs hsuf)).mpr (hr.first o r rs hsuf)

end State

/-- A battery level, an AC state and its change. -/
theorem exact_iff_sample :
    let frames := [Sample.heartbeatFrame addrPd cmdsetHeartbeat (List.replicate 15 80),
      Sample.heartbeatFrame addrMppt cmdsetHeartbeat (Sample.mpptPayload 1 0),
      Sample.heartbeatFrame addrMppt cmdsetHeartbeat (Sample.mpptPayload 0 0)]
    Exact Sample.crypto Sample.telemetryCtx (Sample.task frames).1 ↔
      Representable Sample.crypto Sample.telemetryCtx (Sample.task frames).1 := by
  intro frames
  exact exact_iff (Sample.reach_task frames) (by decide +kernel)

/-- The first MPPT heartbeat has AC state 0xFF: handled, and the state is still unknown. -/
theorem getter_stays_unknown :
    let frames := [Sample.heartbeatFrame addrMppt cmdsetHeartbeat (Sample.mpptPayload 0xFF 0)]
    (Sample.task frames).2.next? = some (.queueReceive pollTimeoutMs) ∧
    (ledger (Sample.task frames).1).map (·.byte Sample.crypto Sample.telemetryCtx .acEnabled) =
      [some 0xFF] ∧
    telemetryAcEnabled (Sample.task frames).1 = -1 ∧
    ∀ r ∈ ledger (Sample.task frames).1, carries r.bits evtAcState = false := by
  decide +kernel

end River2
