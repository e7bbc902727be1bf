import River2.Publish

/-!
# The frames telemetry handles

1. `ledger` reads from a history what was done while each frame was in hand; `Right` says what the
   code does with a frame, behind the frames before it.
2. `value` and `nextNotify` are what the frames make of the shared variables and of the time of the
   next battery event.
3. `wp_telemetryTask_accounted`: whenever the task waits, everything it has done is accounted for by
   the frames it has handled.
-/

namespace River2

open Prog

/-! ## The ledger -/

/-- A frame, and what was done while it was in hand. -/
structure Handling where
  frame : Frame
  /-- no PSA call has failed on it that is looked at -/
  opened : Bool
  stores : List (Shared × Int8)
  /-- the readings of the clock -/
  times : List ℤ
  /-- the bits notified -/
  bits : UInt32

namespace Handling

def start (f : Frame) : Handling := ⟨f, true, [], [], 0⟩

def next (r : Handling) : Event Answer → Handling
  | ⟨.psa op, ok⟩ => { r with opened := r.opened && (ok || !op.checked) }
  | ⟨.store x v, _⟩ => { r with stores := r.stores ++ [(x, v)] }
  | ⟨.getTime, t⟩ => { r with times := r.times ++ [t] }
  | ⟨.notify bits, _⟩ => { r with bits := r.bits ||| bits }
  | _ => r

/-- The handling after more stores. -/
def storing (r : Handling) (ws : List (Shared × Int8)) : Handling :=
  { r with stores := r.stores ++ ws }

/-- The handling after more readings of the clock. -/
def reading (r : Handling) (ts : List ℤ) : Handling := { r with times := r.times ++ ts }

/-- The handling after a notification. -/
def notifying (r : Handling) (bits : UInt32) : Handling := { r with bits := r.bits ||| bits }

theorem storing_storing (r : Handling) (ws ws' : List (Shared × Int8)) :
    (r.storing ws).storing ws' = r.storing (ws ++ ws') := by
  unfold storing
  rw [List.append_assoc]

theorem storing_nil (r : Handling) : r.storing [] = r := by
  unfold storing
  rw [List.append_nil]

end Handling

def ledgerNext (rs : List Handling) : Event Answer → List Handling
  | ⟨.extracted f, _⟩ => .start f :: rs
  | ev => rs.modifyHead fun r => r.next ev

/-- The frames handled, the latest first. -/
def ledger (h : Hist) : List Handling := h.foldl ledgerNext []

@[simp] theorem ledger_snoc (h : Hist) (ev : Event Answer) :
    ledger (h ++ [ev]) = ledgerNext (ledger h) ev := List.foldl_concat ..

/-- Calls that the ledger records. -/
def Call.booked : Call → Bool
  | .getTime | .psa _ | .extracted _ | .store _ _ | .notify _ => true
  | _ => false

theorem ledger_unbooked {e : Call} (he : e.booked = false) (h : Hist) (a : Answer e) :
    ledger (h ++ [⟨e, a⟩]) = ledger h := by
  rw [ledger_snoc]
  cases e <;> first | (cases ledger h <;> rfl) | cases he

/-! ## What a frame says -/

/-- The packet in a frame. -/
def decode (c : Crypto) (session : Session) (f : Frame) : Option InnerPacket :=
  if f.frameType ≠ frameData then none
  else
    match decrypted c session f.payload 256 with
    | .error _ => none
    | .ok plain => innerParse plain

section Frames

variable (c : Crypto) (ctx : TelemetryCtx)

/-- The packet that was handled. -/
def Handling.packet (r : Handling) : Option InnerPacket :=
  if r.opened then decode c ctx.session r.frame else none

/-- The byte it has for a shared variable. -/
def Handling.byte (r : Handling) (x : Shared) : Option UInt8 :=
  (r.packet c ctx).bind fun pkt => fieldByte pkt x

/-- What the frames make of a shared variable. -/
def value (x : Shared) : List Handling → Int8
  | [] => -1
  | r :: rs => ((r.byte c ctx x).map UInt8.toInt8).getD (value x rs)

@[simp] theorem value_cons (x : Shared) (r : Handling) (rs : List Handling) :
    value c ctx x (r :: rs) = ((r.byte c ctx x).map UInt8.toInt8).getD (value c ctx x rs) := rfl

/-- What the frames make of `next_notify_us`. -/
def nextNotify : List Handling → ℤ
  | [] => 0
  | r :: rs => r.times.foldl (rearm ctx.intervalMs) (nextNotify rs)

@[simp] theorem nextNotify_cons (r : Handling) (rs : List Handling) :
    nextNotify ctx (r :: rs) = r.times.foldl (rearm ctx.intervalMs) (nextNotify ctx rs) := rfl

def batteryStores (byte : Option UInt8) : List (Shared × Int8) :=
  byte.toList.map fun b => (.batteryPercent, b.toInt8)

def stateStores (o : Output) (old : Int8) (byte : Option UInt8) : List (Shared × Int8) :=
  (changed old byte).toList.map fun v => (o.var, v)

/-- What is done with a frame, behind these frames: the clock is read for a battery byte, which is
stored; a state byte is stored if it differs; and the events are raised in one notification. -/
structure Right (rs : List Handling) (r : Handling) : Prop where
  stores : r.stores = batteryStores (r.byte c ctx .batteryPercent) ++
    (stateStores .ac (value c ctx .acEnabled rs) (r.byte c ctx .acEnabled) ++
      stateStores .dc (value c ctx .dcOutState rs) (r.byte c ctx .dcOutState))
  times : r.times.length = (r.byte c ctx .batteryPercent).toList.length
  bits : r.bits = batteryBits (nextNotify ctx rs) r.times |||
    (stateBits .ac (value c ctx .acEnabled rs) (r.byte c ctx .acEnabled) |||
      stateBits .dc (value c ctx .dcOutState rs) (r.byte c ctx .dcOutState))

/-- Everything done is accounted for by the frames handled. -/
structure Accounted (h : Hist) : Prop where
  right : ∀ r rs, r :: rs <:+ ledger h → Right c ctx rs r
  stored : ∀ x, stored x h = value c ctx x (ledger h)

end Frames

variable {c : Crypto} {ctx : TelemetryCtx}

theorem accounted_nil : Accounted c ctx [] where
  right := fun r rs hsuf => by
    have := List.IsSuffix.length_le hsuf
    simp [ledger] at this
  stored := fun _ => rfl

theorem accounted_cons {h h' : Hist} {r : Handling} (hacc : Accounted c ctx h)
    (hl : ledger h' = r :: ledger h) (hr : Right c ctx (ledger h) r)
    (hst : ∀ x, stored x h' = value c ctx x (r :: ledger h)) : Accounted c ctx h' := by
  refine ⟨fun r' rs hsuf => ?_, fun x => ?_⟩
  · rw [hl] at hsuf
    rcases List.suffix_cons_iff.mp hsuf with heq | hsuf
    · cases heq
      exact hr
    · exact hacc.right r' rs hsuf
  · rw [hl]
    exact hst x

/-- A frame without a byte for any variable, on which nothing was done. -/
theorem right_idle {rs : List Handling} {r : Handling} (hbyte : ∀ x, r.byte c ctx x = none)
    (hr : r.stores = [] ∧ r.times = [] ∧ r.bits = 0) : Right c ctx rs r := by
  obtain ⟨hstores, htimes, hbits⟩ := hr
  refine ⟨?_, ?_, ?_⟩
  · rw [hstores, hbyte, hbyte, hbyte]
    rfl
  · rw [htimes, hbyte]
    rfl
  · rw [hbits, htimes, hbyte, hbyte]
    show (0 : UInt32) = 0 ||| (0 ||| 0)
    decide

/-! ## Specifications -/

/-- Loads read what was stored. -/
def storedEnv : Env Answer
  | h, .load x, v => v = stored x h
  | _, _, _ => True

variable (c ctx) in
/-- Between frames everything done is accounted for, and nothing is done before the first. -/
def ledgerContract : Contract Call Answer where
  env := storedEnv
  pre := fun h e =>
    match e with
    | .queueReceive _ | .extracted _ => Accounted c ctx h
    | .store _ _ | .notify _ => ledger h ≠ []
    | .bleWrite _ | .makeKey => False
    | _ => True
  out := fun _ => True

theorem permits_ledger : Permits (ledgerContract c ctx) := by
  rintro h (_ | _ | _ | _) he <;> trivial

variable (c ctx) in
/-- Between frames, with the task's `next_notify_us`. -/
def Balanced (next : ℤ) (h : Hist) : Prop := Accounted c ctx h ∧ next = nextNotify ctx (ledger h)

section Specs

variable {h : Hist} {R : EspErr → Hist → Prop} {r : Handling} {rs : List Handling}

theorem ledgerNext_ne_nil {rs : List Handling} (hne : rs ≠ []) (ev : Event Answer) :
    ledgerNext rs ev ≠ [] := by
  cases rs with
  | nil => exact absurd rfl hne
  | cons r rs =>
    obtain ⟨e, a⟩ := ev
    cases e <;> exact List.cons_ne_nil _ _

theorem ledger_append (h es : Hist) : ledger (h ++ es) = es.foldl ledgerNext (ledger h) :=
  List.foldl_append

/-- Behind the first frame, the contract lets telemetry do everything. -/
theorem serves_ledger (hl : ledger h = r :: rs) :
    Serves (ledgerContract c ctx) (fun _ => True) h := by
  have hne : ∀ {h'}, h <+: h' → ledger h' ≠ [] := by
    rintro h' ⟨es, rfl⟩
    rw [ledger_append]
    induction es using List.reverseRecOn with
    | nil => exact hl ▸ List.cons_ne_nil r rs
    | append_singleton es ev ih =>
      rw [List.foldl_concat]
      exact ledgerNext_ne_nil ih ev
  exact ⟨fun _ _ _ hans => hans, fun _ _ => trivial, fun hh _ _ => hne hh, fun _ => trivial,
    fun hh _ _ => hne hh⟩

theorem ledger_batteryCalls (byte : Option UInt8) (times : List ℤ) :
    (batteryCalls byte times).foldl ledgerNext (r :: rs) =
      (r.storing (batteryStores byte)).reading times :: rs := by
  have htimes : ∀ (r : Handling) (ts : List ℤ),
      (ts.map fun now => (⟨.getTime, now⟩ : Event Answer)).foldl ledgerNext (r :: rs) =
        r.reading ts :: rs := by
    intro r ts
    induction ts generalizing r with
    | nil =>
      unfold Handling.reading
      rw [List.append_nil]
      rfl
    | cons now ts ih =>
      refine (ih (r.reading [now])).trans ?_
      unfold Handling.reading
      rw [List.append_assoc]
      rfl
  unfold batteryCalls batteryStores
  rw [List.foldl_append]
  cases byte with
  | none =>
    show _ = (r.storing []).reading times :: rs
    rw [r.storing_nil]
    exact htimes r times
  | some b => exact htimes _ times

theorem ledger_stateCalls (o : Output) (old : Int8) (byte : Option UInt8) :
    (stateCalls o old byte).foldl ledgerNext (r :: rs) =
      r.storing (stateStores o old byte) :: rs := by
  unfold stateCalls stateStores
  rw [List.foldl_append]
  have hload : (byte.toList.map fun _ => (⟨.load o.var, old⟩ : Event Answer)).foldl ledgerNext
      (r :: rs) = r :: rs := by
    cases byte <;> rfl
  rw [hload]
  cases changed old byte with
  | none => exact congrArg (· :: rs) r.storing_nil.symm
  | some v => rfl

theorem ledger_notifyCalls (bits : UInt32) :
    (notifyCalls bits).foldl ledgerNext (r :: rs) = r.notifying bits :: rs := by
  unfold notifyCalls
  split_ifs with hbits
  · rfl
  · rw [not_not.mp hbits]
    unfold Handling.notifying
    rw [UInt32.or_zero]
    rfl

/-- **A packet**, in the ledger. -/
theorem ledger_packetCalls (hl : ledger h = r :: rs) (pkt : InnerPacket) (vars : Shared → Int8)
    (next : ℤ) (times : List ℤ) : ledger (h ++ packetCalls pkt vars next times) =
      (((r.storing (batteryStores (fieldByte pkt .batteryPercent))).reading times).storing
        (stateStores .ac (vars .acEnabled) (fieldByte pkt .acEnabled) ++
          stateStores .dc (vars .dcOutState) (fieldByte pkt .dcOutState))).notifying
        (packetBits pkt vars next times) :: rs := by
  unfold packetCalls
  rw [ledger_append, hl, List.foldl_append, List.foldl_append, List.foldl_append,
    ledger_batteryCalls, ledger_stateCalls, ledger_stateCalls, ledger_notifyCalls,
    Handling.storing_storing]

variable (c ctx) in
/-- One more frame has been handled behind these, and `next_notify_us` is the given. -/
def Handled (rs : List Handling) (next : ℤ) (h : Hist) : Prop :=
  ∃ r, ledger h = r :: rs ∧ Right c ctx rs r ∧ (∀ x, stored x h = value c ctx x (r :: rs)) ∧
    next = nextNotify ctx (r :: rs)

theorem handled_idle {next : ℤ} (hbyte : ∀ x, r.byte c ctx x = none)
    (hr : r.stores = [] ∧ r.times = [] ∧ r.bits = 0) (hl : ledger h = r :: rs)
    (hst : ∀ x, stored x h = value c ctx x rs) (hnext : next = nextNotify ctx rs) :
    Handled c ctx rs next h := by
  refine ⟨r, hl, right_idle hbyte hr, fun x => ?_, ?_⟩
  · rw [value_cons, hbyte, hst]
    rfl
  · rw [nextNotify_cons, hr.2.1, hnext]
    rfl

theorem byte_of_decode {f : Frame} {pkt : InnerPacket} (hdec : decode c ctx.session f = some pkt)
    {r : Handling} (hf : r.frame = f) (ho : r.opened = true) (x : Shared) :
    r.byte c ctx x = fieldByte pkt x := by
  unfold Handling.byte Handling.packet
  rw [ho, if_pos rfl, hf, hdec]
  rfl

section Packets

variable {f : Frame} {pkt : InnerPacket} {next : ℤ}

theorem wp_telemetryPacket_handled (hdec : decode c ctx.session f = some pkt)
    (hl : ledger h = .start f :: rs) (hst : ∀ x, stored x h = value c ctx x rs)
    (hnext : next = nextNotify ctx rs) :
    wp (ledgerContract c ctx) (telemetryPacket ctx.intervalMs next pkt) (Handled c ctx rs) R h := by
  refine wp_mono (wp_telemetryPacket_calls (serves_ledger hl) fun _ => trivial) ?_ fun _ _ => id
  rintro next' h' ⟨times, hlen, rfl, rfl⟩
  have hl' := ledger_packetCalls hl pkt (fun x => stored x h) next times
  generalize hr : Handling.notifying _ _ = r at hl'
  have hb : ∀ x, r.byte c ctx x = fieldByte pkt x :=
    byte_of_decode hdec (by rw [← hr]; rfl) (by rw [← hr]; rfl)
  refine ⟨r, hl', ⟨?_, ?_, ?_⟩, fun x => ?_, ?_⟩
  · rw [hb, hb, hb, ← hst, ← hst, ← hr]
    rfl
  · rw [hb, ← hr]
    exact hlen
  · rw [hb, hb, ← hst, ← hst, ← hnext, ← hr]
    exact UInt32.zero_or
  · rw [stored_packetCalls, hst, value_cons, hb]
  · rw [hnext, ← hr]
    rfl

end Packets

theorem ledger_granted {h' : Hist} (hg : Granted h h') (hl : ledger h = r :: rs) :
    ledger h' = r :: rs := by
  obtain ⟨es, rfl, hes⟩ := hg
  induction es using List.reverseRecOn with
  | nil => rwa [List.append_nil]
  | append_singleton es ev ih =>
    obtain ⟨op, ok, rfl, hok⟩ := hes ev (List.mem_append_right _ (List.mem_singleton_self _))
    have hgranted : (ok || !op.checked) = true := by
      cases hop : op.checked with
      | false => exact Bool.or_true ok
      | true => rw [hok hop, Bool.true_or]
    rw [← List.append_assoc, ledger_snoc, ih fun ev' hev' => hes ev' (List.mem_append_left _ hev')]
    show { r with opened := r.opened && (ok || !op.checked) } :: rs = r :: rs
    rw [hgranted, Bool.and_true]

theorem stored_quiet {h' : Hist} (hq : Quiet h h') (x : Shared) : stored x h' = stored x h := by
  obtain ⟨es, rfl, hes⟩ := hq
  induction es using List.reverseRecOn with
  | nil => rw [List.append_nil]
  | append_singleton es ev ih =>
    obtain ⟨e, a⟩ := ev
    have he := hes ⟨e, a⟩ (List.mem_append_right _ (List.mem_singleton_self _))
    rw [← List.append_assoc, stored_snoc (by rintro y w rfl; cases he)]
    exact ih fun ev' hev' => hes ev' (List.mem_append_left _ hev')

/-- **A frame** behind accounted frames. -/
theorem wp_telemetryFrame_handled {f : Frame} {next : ℤ} (hl : ledger h = .start f :: rs)
    (hst : ∀ x, stored x h = value c ctx x rs) (hnext : next = nextNotify ctx rs) :
    wp (ledgerContract c ctx) (telemetryFrame c ctx next f) (Handled c ctx rs) R h := by
  have hnone : decode c ctx.session f = none → ∀ h', Granted h h' → Handled c ctx rs next h' := by
    intro hdec h' hg
    have hbyte : ∀ x, (Handling.start f).byte c ctx x = none := by
      intro x
      unfold Handling.byte Handling.packet
      rw [show (Handling.start f).frame = f from rfl, hdec, ite_self]
      rfl
    exact handled_idle hbyte ⟨rfl, rfl, rfl⟩ (ledger_granted hg hl)
      (fun x => (stored_quiet hg.quiet x).trans (hst x)) hnext
  unfold telemetryFrame
  unfold decode at hnone
  split_ifs with hty
  · rw [if_pos hty] at hnone
    exact hnone rfl h (Extends.refl h)
  rw [if_neg hty] at hnone
  refine wp_do.mpr (wp_attempt.mpr (wp_sessionDecrypt_granted permits_ledger ?_ ?_ ?_))
  · intro plain h₁ hg hplain
    rw [hplain] at hnone
    dsimp only
    cases hp : innerParse plain with
    | none => exact hnone hp h₁ hg
    | some pkt =>
      refine wp_telemetryPacket_handled ?_ (ledger_granted hg hl)
        (fun x => (stored_quiet (Granted.quiet hg) x).trans (hst x)) hnext
      unfold decode
      rw [if_neg hty, hplain]
      exact hp
  · intro err h₁ hg herr
    rw [herr] at hnone
    exact hnone rfl h₁ hg
  · -- a frame that was not decrypted has no packet
    intro h₁ hr
    refine handled_idle (r := { Handling.start f with opened := false }) (fun x => rfl)
      ⟨rfl, rfl, rfl⟩ ?_ (fun x => (stored_quiet hr.quiet x).trans (hst x)) hnext
    obtain ⟨h₀, op, hop, hg, hg'⟩ := hr
    refine ledger_granted hg' ?_
    rw [ledger_snoc, ledger_granted hg hl]
    show { Handling.start f with opened := true && (false || !op.checked) } :: rs = _
    rw [hop]
    rfl

end Specs

/-! ## The task -/

section Task

variable {h : Hist} {R : EspErr → Hist → Prop} {next : ℤ} {fb : Framebuf}

theorem Balanced.unbooked (hb : Balanced c ctx next h) {e : Call} (he : e.booked = false)
    (a : Answer e) : Balanced c ctx next (h ++ [⟨e, a⟩]) := by
  have hl := ledger_unbooked he h a
  have hst : ∀ x, stored x (h ++ [⟨e, a⟩]) = stored x h :=
    fun x => stored_snoc (by rintro y w rfl; cases he)
  refine ⟨⟨?_, fun x => ?_⟩, ?_⟩
  · rw [hl]
    exact hb.1.right
  · rw [hl, hst]
    exact hb.1.stored x
  · rw [hl]
    exact hb.2

theorem Handled.balanced (hacc : Accounted c ctx h) {h' : Hist}
    (hh : Handled c ctx (ledger h) next h') : Balanced c ctx next h' := by
  obtain ⟨r, hl, hr, hst, hnext⟩ := hh
  refine ⟨accounted_cons hacc hl hr hst, ?_⟩
  rw [hl]
  exact hnext

theorem wp_frameRound_balanced (hb : Balanced c ctx next h) :
    wp (ledgerContract c ctx) (frameRound c ctx (fb, next))
      (fun r h' =>
        match r with
        | .inl s => Balanced c ctx s.2 h'
        | .inr s => Balanced c ctx s.2 h') R h := by
  unfold frameRound
  refine wp_do.mpr (wp_ask.mpr ⟨trivial, fun allocOk _ => ?_⟩)
  have hb₁ := hb.unbooked (e := .alloc) rfl allocOk
  generalize h ++ [⟨.alloc, allocOk⟩] = h₁ at hb₁ ⊢
  cases framebufExtract allocOk fb with
  | mk o fb₁ =>
    cases o with
    | none => exact hb₁
    | some f =>
      refine wp_do.mpr (wp_ask.mpr ⟨hb₁.1, fun _ _ => ?_⟩)
      have hopen : ledger (h₁ ++ [⟨.extracted f, ()⟩]) = .start f :: ledger h₁ := ledger_snoc h₁ _
      refine wp_do.mpr (wp_mono (wp_telemetryFrame_handled hopen ?_ hb₁.2) ?_ fun _ _ => id)
      · intro x
        rw [stored_snoc (e := .extracted f) nofun]
        exact hb₁.1.stored x
      · intro next' h₂ hh
        exact hh.balanced hb₁.1

theorem wp_telemetryRound_balanced (hb : Balanced c ctx next h) :
    wp (ledgerContract c ctx) (telemetryRound c ctx (fb, next))
      (fun r h' =>
        match r with
        | .inl s => Balanced c ctx s.2 h'
        | .inr _ => False) R h := by
  unfold telemetryRound bleWaitNotification
  refine wp_do.mpr (wp_do.mpr ⟨hb.1, fun answer _ => ?_⟩)
  have hb₁ := hb.unbooked (e := .queueReceive pollTimeoutMs) rfl answer
  cases answer with
  | none => exact hb₁
  | some data =>
    refine wp_do.mpr (wp_ask.mpr ⟨trivial, fun allocOk _ => ?_⟩)
    have hb₂ := hb₁.unbooked (e := .alloc) rfl allocOk
    cases framebufAppend allocOk fb (data.take notifyChunkMax) with
    | mk appended fb₁ =>
      cases appended with
      | false => exact hb₂
      | true =>
        refine wp_do.mpr (wp_loop (fun _ s h' => Balanced c ctx s.2 h') ?_ ?_ hb₂)
        · intro s h' _
          trivial
        · rintro n ⟨fb₂, next₂⟩ h₂ hb₂
          refine wp_mono (wp_frameRound_balanced hb₂) ?_ fun _ _ => id
          rintro (s | s) h₃ hb₃
          · exact hb₃
          · exact hb₃

theorem balanced_nil : Balanced c ctx 0 [] := ⟨accounted_nil, rfl⟩

/-- **The telemetry task.** Whenever it waits or takes a frame, everything it has done is accounted
for. -/
theorem wp_telemetryTask_accounted {fuel : ℕ} :
    wp (ledgerContract c ctx) (telemetryTask c ctx fuel) (fun _ _ => False) (fun _ _ => True)
      [] := by
  unfold telemetryTask
  refine wp_loop (fun _ s h => Balanced c ctx s.2 h) ?_ ?_ balanced_nil
  · intro s h _
    trivial
  · rintro n ⟨fb, next⟩ h hb
    refine wp_mono (wp_telemetryRound_balanced (R := fun _ _ => True) hb) ?_ fun _ _ => id
    rintro (s | ⟨⟨⟩⟩) h' hb'
    exact hb'

end Task

end River2
