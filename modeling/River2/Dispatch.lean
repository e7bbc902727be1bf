import River2.Commands
import River2.Ledger

/-!
# The dispatch of the heartbeats

1. `Dispatched`: a frame has no effect but the one the protocol document gives its packet's source,
   command set and command. `dispatched_iff`: it fails exactly for a `Stray` packet, one of the MPPT
   board with another command set that brings a new state byte.
2. `task_head`: whenever the task waits, its `next_notify_us` is what the frames make of it.
3. `dispatch_iff`: both, along every run.
-/

namespace River2

open Prog

variable (c : Crypto) (ctx : TelemetryCtx)

/-! ## One frame -/

/-- The frame decrypts and parses to a heartbeat of the board, as the document lists it. -/
def Handling.IsHeartbeat (src : UInt8) (r : Handling) : Prop :=
  ∃ pkt, r.packet c ctx = some pkt ∧ pkt.src = src ∧ pkt.cmdSet = cmdsetHeartbeat ∧
    pkt.cmdId = cmdidHeartbeat

/-- The effect of a frame, behind the frames before it, is the one the document gives it. -/
structure Dispatched (rs : List Handling) (r : Handling) : Prop where
  battery : ∀ v, (.batteryPercent, v) ∈ r.stores → r.IsHeartbeat c ctx addrPd
  state : ∀ (o : Output) (v), (o.var, v) ∈ r.stores → r.IsHeartbeat c ctx addrMppt
  raised : ∀ o : Output, carries r.bits o.stateEvt = true → r.IsHeartbeat c ctx addrMppt
  next : nextNotify ctx (r :: rs) ≠ nextNotify ctx rs → r.IsHeartbeat c ctx addrPd
  other : ¬ r.IsHeartbeat c ctx addrPd → ¬ r.IsHeartbeat c ctx addrMppt →
    r.stores = [] ∧ r.bits = 0

/-- A packet of the MPPT board with another command set and a state byte that differs from the
stored one. -/
def Stray (rs : List Handling) (r : Handling) : Prop :=
  ∃ (pkt : InnerPacket) (o : Output) (b : UInt8), r.packet c ctx = some pkt ∧
    pkt.cmdSet ≠ cmdsetHeartbeat ∧ o.byteOf pkt = some b ∧ b.toInt8 ≠ value c ctx o.var rs

variable {c ctx}

section Frame

variable {rs : List Handling} {r : Handling} {o : Output} {b : UInt8}

theorem packet_of_byte {x : Shared} (hb : r.byte c ctx x = some b) :
    ∃ pkt, r.packet c ctx = some pkt ∧ fieldByte pkt x = some b :=
  Option.bind_eq_some_iff.mp hb

theorem isHeartbeat_of_battery (hb : r.byte c ctx .batteryPercent = some b) :
    r.IsHeartbeat c ctx addrPd := by
  obtain ⟨pkt, hpkt, hfield⟩ := packet_of_byte hb
  unfold fieldByte at hfield
  split_ifs at hfield with hpd
  exact ⟨pkt, hpkt, hpd.2.1, hpd.2.2, hpd.1⟩

/-- A packet with a state byte is a heartbeat of the MPPT board, or its command set is another. -/
theorem isHeartbeat_of_state (hb : r.byte c ctx o.var = some b) :
    r.IsHeartbeat c ctx addrMppt ∨ ∃ pkt, r.packet c ctx = some pkt ∧
      pkt.cmdSet ≠ cmdsetHeartbeat ∧ o.byteOf pkt = some b := by
  obtain ⟨pkt, hpkt, hfield⟩ := packet_of_byte hb
  rw [fieldByte_var] at hfield
  by_cases hset : pkt.cmdSet = cmdsetHeartbeat
  · left
    unfold Output.byteOf at hfield
    split_ifs at hfield with hmppt
    exact ⟨pkt, hpkt, hmppt.2.1, hset, hmppt.1⟩
  · exact .inr ⟨pkt, hpkt, hset, hfield⟩

theorem mem_batteryStores {x : Shared} {v : Int8} {byte : Option UInt8} :
    (x, v) ∈ batteryStores byte ↔ x = .batteryPercent ∧ ∃ b, byte = some b ∧ v = b.toInt8 := by
  unfold batteryStores
  cases byte with
  | none => simp
  | some b => simp

theorem mem_stateStores {x : Shared} {v old : Int8} {byte : Option UInt8} :
    (x, v) ∈ stateStores o old byte ↔ x = o.var ∧ changed old byte = some v := by
  unfold stateStores
  cases changed old byte with
  | none => simp
  | some w => simp [eq_comm]

theorem changed_eq_some {old v : Int8} {byte : Option UInt8} :
    changed old byte = some v ↔ ∃ b, byte = some b ∧ b.toInt8 ≠ old ∧ v = b.toInt8 := by
  unfold changed
  cases byte with
  | none => simp
  | some b => simp [eq_comm]

theorem Right.mem_stores_var (hr : Right c ctx rs r) {v : Int8} :
    (o.var, v) ∈ r.stores ↔ changed (value c ctx o.var rs) (r.byte c ctx o.var) = some v := by
  rw [hr.stores, List.mem_append, List.mem_append, mem_batteryStores, mem_stateStores,
    mem_stateStores]
  cases o <;> simp [Output.var]

theorem Right.mem_stores_battery (hr : Right c ctx rs r) {v : Int8} :
    (.batteryPercent, v) ∈ r.stores ↔
      ∃ b, r.byte c ctx .batteryPercent = some b ∧ v = b.toInt8 := by
  rw [hr.stores, List.mem_append, List.mem_append, mem_batteryStores, mem_stateStores,
    mem_stateStores]
  simp [Output.var]

theorem Right.carries_bits (hr : Right c ctx rs r) : carries r.bits o.stateEvt =
    (changed (value c ctx o.var rs) (r.byte c ctx o.var)).isSome := by
  rw [hr.bits, carries_or, carries_or, carries_batteryBits, carries_stateBits, carries_stateBits]
  cases o <;> simp [Output.var]

/-- **One frame.** It is dispatched as the document says, if and only if it is no stray. -/
theorem dispatched_iff (hr : Right c ctx rs r) : Dispatched c ctx rs r ↔ ¬ Stray c ctx rs r := by
  constructor
  · rintro hd ⟨pkt, o, b, hpkt, hset, hb, hne⟩
    have hbyte : r.byte c ctx o.var = some b := by
      unfold Handling.byte
      rw [hpkt, Option.bind_some, fieldByte_var, hb]
    have hmem : (o.var, b.toInt8) ∈ r.stores :=
      hr.mem_stores_var.mpr (changed_eq_some.mpr ⟨b, hbyte, hne, rfl⟩)
    obtain ⟨pkt', hpkt', -, hset', -⟩ := hd.state o _ hmem
    rw [hpkt] at hpkt'
    cases hpkt'
    exact hset hset'
  · intro hstray
    have hstate : ∀ (o : Output) (v),
        changed (value c ctx o.var rs) (r.byte c ctx o.var) = some v →
          r.IsHeartbeat c ctx addrMppt := by
      intro o v hv
      obtain ⟨b, hb, hne, -⟩ := changed_eq_some.mp hv
      rcases isHeartbeat_of_state hb with hmppt | ⟨pkt, hpkt, hset, hbyte⟩
      · exact hmppt
      · exact absurd ⟨pkt, o, b, hpkt, hset, hbyte, hne⟩ hstray
    have hclock : ¬ r.IsHeartbeat c ctx addrPd →
        r.byte c ctx .batteryPercent = none ∧ r.times = [] := by
      intro hpd
      have hnone : r.byte c ctx .batteryPercent = none :=
        Option.eq_none_iff_forall_ne_some.mpr fun b hb => hpd (isHeartbeat_of_battery hb)
      have htimes := hr.times
      rw [hnone] at htimes
      exact ⟨hnone, List.length_eq_zero_iff.mp htimes⟩
    refine ⟨fun v hv => ?_, fun o v hv => ?_, fun o ho => ?_, fun hnext => ?_, fun hpd hmppt => ?_⟩
    · obtain ⟨b, hb, -⟩ := hr.mem_stores_battery.mp hv
      exact isHeartbeat_of_battery hb
    · exact hstate o v (hr.mem_stores_var.mp hv)
    · rw [hr.carries_bits] at ho
      obtain ⟨v, hv⟩ := Option.isSome_iff_exists.mp ho
      exact hstate o v hv
    · by_contra hpd
      refine hnext ?_
      rw [nextNotify_cons, (hclock hpd).2]
      rfl
    · have hnone : ∀ o : Output, changed (value c ctx o.var rs) (r.byte c ctx o.var) = none :=
        fun o => Option.eq_none_iff_forall_ne_some.mpr fun v hv => hmppt (hstate o v hv)
      have hac : changed (value c ctx .acEnabled rs) (r.byte c ctx .acEnabled) = none := hnone .ac
      have hdc : changed (value c ctx .dcOutState rs) (r.byte c ctx .dcOutState) = none := hnone .dc
      constructor
      · rw [hr.stores, (hclock hpd).1]
        unfold stateStores
        rw [hac, hdc]
        rfl
      · rw [hr.bits, (hclock hpd).2]
        unfold stateBits
        rw [hac, hdc]
        show (0 : UInt32) ||| (0 ||| 0) = 0
        decide

end Frame

/-! ## Runs -/

/-- The only wait is the one after this history. -/
def waitOnceContract (h₀ : Hist) : Contract Call Answer where
  env := anyEnv
  pre := fun h e =>
    match e with
    | .queueReceive _ => h = h₀
    | _ => True
  out := fun _ => True

theorem permitsOffAir_waitOnce (h₀ : Hist) : PermitsOffAir (waitOnceContract h₀) := by
  rintro h (_ | _ | _ | _) he <;> trivial

theorem wp_telemetryRound_waitOnce (s : Framebuf × ℤ) (h : Hist) :
    wp (waitOnceContract h) (telemetryRound c ctx s) (fun _ _ => True) (fun _ _ => True) h := by
  obtain ⟨fb, next⟩ := s
  unfold telemetryRound bleWaitNotification
  refine wp_do.mpr (wp_do.mpr ⟨rfl, fun answer _ => ?_⟩)
  cases answer with
  | none => trivial
  | some data =>
    refine wp_do.mpr (wp_ask.mpr ⟨trivial, fun allocOk _ => ?_⟩)
    cases framebufAppend allocOk fb (data.take notifyChunkMax) with
    | mk appended fb₁ =>
      cases appended with
      | false => trivial
      | true =>
        refine wp_do.mpr (wp_loop (fun _ _ _ => True) (fun _ _ _ => trivial) ?_ trivial)
        rintro n ⟨fb₂, next₂⟩ h₂ -
        unfold frameRound
        refine wp_do.mpr (wp_ask.mpr ⟨trivial, fun allocOk' _ => ?_⟩)
        cases framebufExtract allocOk' fb₂ with
        | mk o fb₃ =>
          cases o with
          | none => trivial
          | some f =>
            refine wp_do.mpr (wp_ask.mpr ⟨trivial, fun _ _ => ?_⟩)
            exact wp_do.mpr (wp_mono (wp_telemetryFrame (permitsOffAir_waitOnce h))
              (fun _ _ _ => trivial) fun _ _ => id)

/-- A run of the task is inside a round that began balanced. -/
theorem task_round {fuel : ℕ} {h : Hist} {q : Fw Empty}
    (hrun : Reach storedEnv ([], telemetryTask c ctx fuel) (h, q)) :
    q = .spin ∨ ∃ m s h₁ p, Balanced c ctx s.2 h₁ ∧
      Reach storedEnv (h₁, telemetryRound c ctx s) (h, p) ∧
      q = p.bind (Prog.again (telemetryRound c ctx) m) := by
  refine reach_loop (C := ledgerContract c ctx) (I := fun _ s h => Balanced c ctx s.2 h)
    (R := fun _ _ => True) (fun n s h hb => ?_) balanced_nil hrun
  refine wp_mono (wp_telemetryRound_balanced hb) ?_ fun _ _ => id
  rintro (s' | ⟨⟨⟩⟩) h' hb'
  exact hb'

/-- **Whenever the task waits**, it stands at the head of its loop, its `next_notify_us` is what the
frames handled make of it, and all it has done is accounted for by them. -/
theorem task_head {fuel : ℕ} {h : Hist} {q : Fw Empty}
    (hrun : Reach storedEnv ([], telemetryTask c ctx fuel) (h, q))
    (hq : q.next? = some (.queueReceive pollTimeoutMs)) :
    ∃ n fb next, q = Prog.loop (telemetryRound c ctx) n (fb, next) ∧ Balanced c ctx next h := by
  rcases task_round hrun with rfl | ⟨m, s, h₁, p, hb, hp, rfl⟩
  · cases hq
  cases p with
  | ret r =>
    rcases r with s' | ⟨⟨⟩⟩
    have hb' := wp_reach (wp_telemetryRound_balanced (R := fun _ _ => True) hb) hp
    exact ⟨m, s'.1, s'.2, rfl, hb'⟩
  | throw e => cases hq
  | spin => cases hq
  | call e k =>
    cases hq
    -- a round that waits has just begun
    have hwait : h = h₁ := (wp_reach (C := waitOnceContract h₁) (wp_telemetryRound_waitOnce s h₁)
      (hp.mono fun _ _ _ _ => trivial)).1
    subst hwait
    rcases Relation.ReflTransGen.cases_head hp with heq | ⟨⟨h₂, p₂⟩, hs, hrest⟩
    · exact ⟨m + 1, s.1, s.2, by rw [loop_succ, ← (Prod.mk.inj heq).2], hb⟩
    · obtain ⟨es, hes⟩ := Reach.exists_append hrest
      cases hs with
      | answer _ => simp at hes

theorem quiet_before_frames {fuel : ℕ} {h : Hist} {q : Fw Empty}
    (hrun : Reach storedEnv ([], telemetryTask c ctx fuel) (h, q)) {h₁ : Hist} {e : Call}
    {a : Answer e} (hpre : h₁ ++ [⟨e, a⟩] <+: h) (hnone : ledger h₁ = []) :
    (∀ x v, e ≠ .store x v) ∧ ∀ bits, e ≠ .notify bits := by
  have hlog : Logged (ledgerContract c ctx) h :=
    logged_reach (C := ledgerContract c ctx) wp_telemetryTask_accounted hrun logged_nil
  obtain ⟨h₂, rfl⟩ := hpre
  have hcall : (ledgerContract c ctx).pre h₁ e :=
    (hlog h₁ ⟨e, a⟩ h₂ (List.append_assoc ..)).1
  constructor
  · rintro x v rfl
    exact hcall hnone
  · rintro bits rfl
    exact hcall hnone

/-- **Dispatch, exactly.** Whatever the frames, the answers and the failures: nothing is stored or
notified before the first frame; whenever the task waits, the shared variables and its
`next_notify_us` are what the frames handled make of them; and every frame handled had the effect
that the document gives it, and no other, if and only if none of them was a stray. -/
theorem dispatch_iff {fuel : ℕ} {h : Hist} {q : Fw Empty}
    (hrun : Reach storedEnv ([], telemetryTask c ctx fuel) (h, q))
    (hq : q.next? = some (.queueReceive pollTimeoutMs)) :
    (∀ h₁ e (a : Answer e), h₁ ++ [⟨e, a⟩] <+: h → ledger h₁ = [] →
      (∀ x v, e ≠ .store x v) ∧ ∀ bits, e ≠ .notify bits) ∧
    (∀ x, stored x h = value c ctx x (ledger h)) ∧
    (∃ n fb, q = Prog.loop (telemetryRound c ctx) n (fb, nextNotify ctx (ledger h))) ∧
    ((∀ r rs, r :: rs <:+ ledger h → Dispatched c ctx rs r) ↔
      ∀ r rs, r :: rs <:+ ledger h → ¬ Stray c ctx rs r) := by
  obtain ⟨n, fb, next, hloop, hacc, hnext⟩ := task_head hrun hq
  refine ⟨fun h₁ e a hpre hnone => quiet_before_frames hrun hpre hnone, hacc.stored,
    ⟨n, fb, by rw [hloop, hnext]⟩, ?_⟩
  exact forall₃_congr fun r rs hsuf => dispatched_iff (hacc.right r rs hsuf)

/-! ## Sample runs -/

/-- The recorded device beside the shared variables. -/
def taskDevice (s : (Shared → Int8) × List Bytes) :
    (e : Call) → Option (Answer e × (Shared → Int8) × List Bytes)
  | .load x => some (s.1 x, s)
  | .store x v => some ((), Function.update s.1 x v, s.2)
  | e => (device (Sample.ourPub, Sample.priv) s.2 e).map fun r => (r.1, s.1, r.2)

/-- The task against recorded notifications. -/
def taskReplay (c : Crypto) (ctx : TelemetryCtx) (fuel : ℕ) (ns : List Bytes) : Hist × Fw Empty :=
  (simulate taskDevice (fun _ => -1, ns) [] (telemetryTask c ctx fuel)).2

theorem taskDevice_stored {s s' : (Shared → Int8) × List Bytes} {h : Hist} {e : Call} {a : Answer e}
    (hs : ∀ x, s.1 x = stored x h) (hans : taskDevice s e = some (a, s')) :
    storedEnv h e a ∧ ∀ x, s'.1 x = stored x (h ++ [⟨e, a⟩]) := by
  have hother : (∀ x v, e ≠ .store x v) → s'.1 = s.1 →
      ∀ x, s'.1 x = stored x (h ++ [⟨e, a⟩]) := by
    intro he hvars x
    rw [hvars, hs, stored_snoc he]
  cases e with
  | load y =>
    cases hans
    exact ⟨hs y, hother nofun rfl⟩
  | store y v =>
    cases hans
    refine ⟨trivial, fun x => ?_⟩
    rw [stored_store, ← hs]
    show Function.update s.1 y v x = _
    rw [Function.update_apply]
    exact if_congr eq_comm rfl rfl
  | _ =>
    change (device (Sample.ourPub, Sample.priv) s.2 _).map (fun r => (r.1, s.1, r.2)) =
      some (a, s') at hans
    obtain ⟨r, -, hr⟩ := Option.map_eq_some_iff.mp hans
    exact ⟨trivial, hother nofun (congrArg (fun r => r.2.1) hr.symm)⟩

theorem reach_taskReplay (fuel : ℕ) (ns : List Bytes) :
    Reach storedEnv ([], telemetryTask c ctx fuel)
      ((taskReplay c ctx fuel ns).1, (taskReplay c ctx fuel ns).2) :=
  reach_simulate_of (fun s h => ∀ x, s.1 x = stored x h)
    (fun _ _ _ _ _ hs hans => taskDevice_stored hs hans) _ fun _ => rfl

namespace Sample

def telemetryCtx : TelemetryCtx := ⟨session, 60000⟩

/-- A frame with a heartbeat: the source, the command set and the payload. -/
def heartbeatFrame (src cmdSet : UInt8) (payload : Bytes) : Bytes :=
  packetFrame crypto session src addrApp cmdSet cmdidHeartbeat payload

/-- The payload of an MPPT heartbeat with these state bytes. -/
def mpptPayload (ac dc : UInt8) : Bytes :=
  List.replicate mpptCarStateOffset 0 ++ [dc] ++ List.replicate 9 0 ++ [ac]

/-- The task on frames, one a notification, up to the wait behind them. -/
def task (frames : List Bytes) : Hist × Fw Empty :=
  taskReplay crypto telemetryCtx (frames.length + 1) frames

theorem reach_task (frames : List Bytes) :
    Reach storedEnv ([], telemetryTask crypto telemetryCtx (frames.length + 1))
      ((task frames).1, (task frames).2) := reach_taskReplay (frames.length + 1) frames

end Sample

/-- A heartbeat of each board. -/
theorem dispatch_iff_sample :
    let frames := [Sample.heartbeatFrame addrPd cmdsetHeartbeat (List.replicate 15 80),
      Sample.heartbeatFrame addrMppt cmdsetHeartbeat (Sample.mpptPayload 1 0)]
    (∀ h₁ e (a : Answer e), h₁ ++ [⟨e, a⟩] <+: (Sample.task frames).1 → ledger h₁ = [] →
      (∀ x v, e ≠ .store x v) ∧ ∀ bits, e ≠ .notify bits) ∧
    (∀ x, stored x (Sample.task frames).1 =
      value Sample.crypto Sample.telemetryCtx x (ledger (Sample.task frames).1)) ∧
    (∃ n fb, (Sample.task frames).2 = Prog.loop (telemetryRound Sample.crypto Sample.telemetryCtx) n
      (fb, nextNotify Sample.telemetryCtx (ledger (Sample.task frames).1))) ∧
    ((∀ r rs, r :: rs <:+ ledger (Sample.task frames).1 →
        Dispatched Sample.crypto Sample.telemetryCtx rs r) ↔
      ∀ r rs, r :: rs <:+ ledger (Sample.task frames).1 →
        ¬ Stray Sample.crypto Sample.telemetryCtx rs r) := by
  intro frames
  exact dispatch_iff (Sample.reach_task frames) (by decide +kernel)

/-- A heartbeat of the MPPT board with command set 0x21 sets the AC state and raises its event. -/
theorem dispatch_stray :
    let frames := [Sample.heartbeatFrame addrMppt 0x21 (Sample.mpptPayload 1 0)]
    (Sample.task frames).2.next? = some (.queueReceive pollTimeoutMs) ∧
    ∃ r, ledger (Sample.task frames).1 = [r] ∧ (.acEnabled, 1) ∈ r.stores ∧
      carries r.bits evtAcState = true ∧
      (r.packet Sample.crypto Sample.telemetryCtx).map InnerPacket.cmdSet = some 0x21 := by
  intro frames
  obtain ⟨hnext, hone, hfacts⟩ :
      (Sample.task frames).2.next? = some (.queueReceive pollTimeoutMs) ∧
      (ledger (Sample.task frames).1).length = 1 ∧
      ∀ r ∈ ledger (Sample.task frames).1, (.acEnabled, 1) ∈ r.stores ∧
        carries r.bits evtAcState = true ∧
        (r.packet Sample.crypto Sample.telemetryCtx).map InnerPacket.cmdSet = some 0x21 := by
    decide +kernel
  obtain ⟨r, hr⟩ := List.length_eq_one_iff.mp hone
  exact ⟨hnext, r, hr, hfacts r (by rw [hr]; exact List.mem_singleton_self r)⟩

end River2
