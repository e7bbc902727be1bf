import River2.Framebuf
import River2.Library.Program

/-!
# The calls of the firmware

What the handshake, the telemetry task and the main loop call outside the modelled code: ESP-IDF,
FreeRTOS, the BLE stack, PSA crypto and micro-ecc. Their programs are `Fw`; a run leaves a history
of answered calls, from which `received`, `extracted` and `written` read what went over the air.
-/

namespace River2

/-- The `esp_err_t` values the code distinguishes. -/
inductive EspErr where
  | ok
  | fail
  | noMem
  | invalidArg
  | invalidState
  | invalidSize
  | notFound
  | notSupported
  | timeout
  | invalidResponse
  deriving DecidableEq, Repr

/-- The PSA calls on keys and ciphers. -/
inductive PsaOp where
  | importKey
  | encryptSetup
  | decryptSetup
  | setIv
  | update
  | finish
  | abort
  | destroyKey
  deriving DecidableEq, Repr

/-- The calls whose status the code looks at. -/
def PsaOp.checked : PsaOp → Bool
  | .abort | .destroyKey => false
  | _ => true

/-- The status of `psa_hash_compute`, and if it failed what `out` then holds. -/
inductive HashStatus where
  | success
  | failed (out : Octets 16)
  deriving DecidableEq, Repr

/-- The variables `telemetry_task` shares with the main loop. -/
inductive Shared where
  | batteryPercent
  | dcOutState
  | acEnabled
  deriving DecidableEq, Repr

inductive Call where
  /-- `esp_timer_get_time` -/
  | getTime
  /-- `malloc`, `calloc` or `realloc`; also asked where it turns out that no memory is needed -/
  | alloc
  /-- `xQueueReceive` on the notification queue -/
  | queueReceive (timeoutMs : ℕ)
  /-- `river2_ble_write` -/
  | bleWrite (data : Bytes)
  /-- `uECC_make_key` -/
  | makeKey
  /-- `uECC_shared_secret` -/
  | sharedSecret
  /-- a PSA call on a key or a cipher -/
  | psa (op : PsaOp)
  /-- `psa_hash_compute` -/
  | hashCompute
  /-- not a call but a mark: `river2_framebuf_extract` has returned this frame -/
  | extracted (f : Frame)
  /-- a read of a shared variable -/
  | load (x : Shared)
  /-- a write of a shared variable -/
  | store (x : Shared) (v : Int8)
  /-- `xTaskNotify` of the owner task, with `eSetBits` -/
  | notify (bits : UInt32)
  /-- `xTaskNotifyWait` without timeout -/
  | notifyWait
  /-- not a call but a mark: a command for the output behind this variable is about to be sent -/
  | commanding (x : Shared)
  deriving DecidableEq, Repr

@[reducible] def Answer : Call → Type
  | .getTime => ℤ
  | .alloc => Bool
  | .queueReceive _ => Option Bytes
  | .bleWrite _ => EspErr
  | .makeKey => Option (Octets 40 × Octets 21)
  | .sharedSecret => Bool
  | .psa _ => Bool
  | .hashCompute => HashStatus
  | .extracted _ => Unit
  | .load _ => Int8
  | .store _ _ => Unit
  | .notify _ => Unit
  | .notifyWait => UInt32
  | .commanding _ => Unit

/-- A firmware program; an error is what `goto done` or an early `return err` carries. -/
abbrev Fw := Prog Call Answer EspErr

/-- A history of answered calls. -/
abbrev Hist := List (Event Answer)

def getTime : Fw ℤ := Prog.ask Call.getTime
def alloc : Fw Bool := Prog.ask Call.alloc
def queueReceive (timeoutMs : ℕ) : Fw (Option Bytes) := Prog.ask (Call.queueReceive timeoutMs)
def bleWrite (data : Bytes) : Fw EspErr := Prog.ask (Call.bleWrite data)
def makeKey : Fw (Option (Octets 40 × Octets 21)) := Prog.ask Call.makeKey
def sharedSecret : Fw Bool := Prog.ask Call.sharedSecret
def psa (op : PsaOp) : Fw Bool := Prog.ask (Call.psa op)
def hashCompute : Fw HashStatus := Prog.ask Call.hashCompute
def markExtracted (f : Frame) : Fw Unit := Prog.ask (Call.extracted f)
def load (x : Shared) : Fw Int8 := Prog.ask (Call.load x)
def store (x : Shared) (v : Int8) : Fw Unit := Prog.ask (Call.store x v)
def notify (bits : UInt32) : Fw Unit := Prog.ask (Call.notify bits)
def notifyWait : Fw UInt32 := Prog.ask Call.notifyWait
def markCommanding (x : Shared) : Fw Unit := Prog.ask (Call.commanding x)

def notifyChunkMax : ℕ := 512

/-- `river2_ble_wait_notification`: the first `outCap` bytes of the next notification. -/
def bleWaitNotification (outCap timeoutMs : ℕ) : Fw (Except EspErr Bytes) := do
  match ← queueReceive timeoutMs with
  | none => return .error .timeout
  | some data => return .ok (data.take outCap)

/-! ## Histories -/

/-- The notifications received, as they were queued. -/
def notifications (h : Hist) : List Bytes :=
  h.flatMap fun
    | ⟨.queueReceive _, some data⟩ => [data]
    | _ => []

/-- The bytes received: of every notification what fits the receiver's chunk. -/
def received (h : Hist) : Bytes := (notifications h).flatMap (List.take notifyChunkMax)

/-- The frames extracted. -/
def extracted (h : Hist) : List Frame :=
  h.flatMap fun
    | ⟨.extracted f, _⟩ => [f]
    | _ => []

/-- The frames passed to `river2_ble_write`, with its answers. -/
def writes (h : Hist) : List (Bytes × EspErr) :=
  h.flatMap fun
    | ⟨.bleWrite data, err⟩ => [(data, err)]
    | _ => []

def keyPairs (h : Hist) : List (Octets 40 × Octets 21) :=
  h.flatMap fun
    | ⟨.makeKey, some keyPair⟩ => [keyPair]
    | _ => []

def written (h : Hist) : List Bytes := (writes h).map Prod.fst

def waits (h : Hist) : ℕ :=
  h.countP fun
    | ⟨.queueReceive _, _⟩ => true
    | _ => false

@[simp] theorem notifications_nil : notifications [] = [] := rfl
@[simp] theorem received_nil : received [] = [] := rfl
@[simp] theorem extracted_nil : extracted [] = [] := rfl
@[simp] theorem writes_nil : writes [] = [] := rfl

@[simp] theorem notifications_append (h h' : Hist) :
    notifications (h ++ h') = notifications h ++ notifications h' := List.flatMap_append

@[simp] theorem received_append (h h' : Hist) : received (h ++ h') = received h ++ received h' := by
  unfold received
  rw [notifications_append, List.flatMap_append]

@[simp] theorem extracted_append (h h' : Hist) :
    extracted (h ++ h') = extracted h ++ extracted h' := List.flatMap_append

@[simp] theorem writes_append (h h' : Hist) : writes (h ++ h') = writes h ++ writes h' :=
  List.flatMap_append

@[simp] theorem keyPairs_append (h h' : Hist) : keyPairs (h ++ h') = keyPairs h ++ keyPairs h' :=
  List.flatMap_append

@[simp] theorem waits_append (h h' : Hist) : waits (h ++ h') = waits h + waits h' :=
  List.countP_append

/-- Calls that neither move bytes or frames nor make the key pair. -/
def Call.offAir : Call → Bool
  | .queueReceive _ | .bleWrite _ | .makeKey | .extracted _ => false
  | _ => true

/-- Calls that only the caller notices. -/
def Call.silent : Call → Bool
  | .getTime | .alloc | .sharedSecret | .psa _ | .hashCompute => true
  | _ => false

theorem Call.offAir_of_silent {e : Call} (he : e.silent = true) : e.offAir = true := by
  cases e <;> first | rfl | cases he

/-- `h'` continues `h` by events of a kind. -/
def Extends (P : Event Answer → Prop) (h h' : Hist) : Prop := ∃ es, h' = h ++ es ∧ ∀ ev ∈ es, P ev

theorem Extends.refl {P} (h : Hist) : Extends P h h :=
  ⟨[], (List.append_nil h).symm, fun _ hev => absurd hev List.not_mem_nil⟩

theorem Extends.trans {P} {h h' h'' : Hist} (h₁ : Extends P h h') (h₂ : Extends P h' h'') :
    Extends P h h'' := by
  obtain ⟨es, rfl, hes⟩ := h₁
  obtain ⟨es', rfl, hes'⟩ := h₂
  refine ⟨es ++ es', List.append_assoc .., fun ev hev => ?_⟩
  rcases List.mem_append.mp hev with hev | hev
  · exact hes ev hev
  · exact hes' ev hev

theorem Extends.snoc {P} {h h' : Hist} {ev : Event Answer} (h₁ : Extends P h h') (hev : P ev) :
    Extends P h (h' ++ [ev]) :=
  h₁.trans ⟨[ev], rfl, by simpa using hev⟩

theorem Extends.mono {P P' : Event Answer → Prop} {h h' : Hist} (h₁ : Extends P h h')
    (hP : ∀ ev, P ev → P' ev) : Extends P' h h' := by
  obtain ⟨es, rfl, hes⟩ := h₁
  exact ⟨es, rfl, fun ev hev => hP ev (hes ev hev)⟩

/-- `h'` continues `h` by calls that leave the air alone. -/
abbrev OffAir (h h' : Hist) : Prop := Extends (fun ev => ev.1.offAir = true) h h'

/-- `h'` continues `h` by silent calls. -/
abbrev Quiet (h h' : Hist) : Prop := Extends (fun ev => ev.1.silent = true) h h'

theorem offAir_of_quiet {h h' : Hist} (hq : Quiet h h') : OffAir h h' :=
  hq.mono fun _ => Call.offAir_of_silent

theorem flatMap_extends {γ : Type} {P : Event Answer → Prop} {f : Event Answer → List γ}
    {h h' : Hist} (hx : Extends P h h') (hf : ∀ ev, P ev → f ev = []) :
    h'.flatMap f = h.flatMap f := by
  obtain ⟨es, rfl, hes⟩ := hx
  rw [List.flatMap_append, List.flatMap_eq_nil_iff.mpr fun ev hev => hf ev (hes ev hev),
    List.append_nil]

section OffAir

variable {h h' : Hist}

theorem notifications_offAir (hx : OffAir h h') : notifications h' = notifications h := by
  refine flatMap_extends hx ?_
  rintro ⟨e, a⟩ he
  cases e <;> first | rfl | cases he

theorem received_offAir (hx : OffAir h h') : received h' = received h := by
  unfold received
  rw [notifications_offAir hx]

theorem extracted_offAir (hx : OffAir h h') : extracted h' = extracted h := by
  refine flatMap_extends hx ?_
  rintro ⟨e, a⟩ he
  cases e <;> first | rfl | cases he

theorem writes_quiet (hq : Quiet h h') : writes h' = writes h := by
  refine flatMap_extends hq ?_
  rintro ⟨e, a⟩ he
  cases e <;> first | rfl | cases he

theorem waits_offAir (hx : OffAir h h') : waits h' = waits h := by
  obtain ⟨es, rfl, hes⟩ := hx
  rw [waits_append, Nat.add_eq_left]
  refine List.countP_eq_zero.mpr fun ev hev => ?_
  obtain ⟨e, a⟩ := ev
  have he := hes _ hev
  cases e <;> first | exact Bool.false_ne_true | cases he

theorem received_quiet (hq : Quiet h h') : received h' = received h :=
  received_offAir (offAir_of_quiet hq)

theorem extracted_quiet (hq : Quiet h h') : extracted h' = extracted h :=
  extracted_offAir (offAir_of_quiet hq)

theorem waits_quiet (hq : Quiet h h') : waits h' = waits h := waits_offAir (offAir_of_quiet hq)

end OffAir

theorem flatMap_take_chunk {ns : List Bytes} (hns : ∀ n ∈ ns, n.length ≤ notifyChunkMax) :
    ns.flatMap (List.take notifyChunkMax) = ns.flatten := by
  rw [List.flatMap_def]
  congr 1
  conv_rhs => rw [← List.map_id ns]
  exact List.map_congr_left fun n hn => List.take_of_length_le (hns n hn)

/-- Notifications, none longer than a chunk, that carry a byte stream. -/
def Cut (ns : List Bytes) (s : Bytes) : Prop :=
  (∀ n ∈ ns, n.length ≤ notifyChunkMax) ∧ ns.flatten = s

theorem exists_cut (s : Bytes) : ∃ ns, Cut ns s := by
  refine ⟨s.map fun b => [b], ?_, ?_⟩
  · intro n hn
    obtain ⟨b, -, rfl⟩ := List.mem_map.mp hn
    show 1 ≤ notifyChunkMax
    decide
  · induction s with
    | nil => rfl
    | cons b s ih => rw [List.map_cons, List.flatten_cons, ih]; rfl

/-! ## Waits for given notifications -/

/-- A wait is answered by the next of the given notifications, or by none. -/
def FedBy (ns : List Bytes) (env : Prog.Env Answer) : Prop :=
  ∀ h t answer, env h (.queueReceive t) answer →
    answer = none ∨ answer = ns[(notifications h).length]?

def Prompt (env : Prog.Env Answer) : Prop :=
  ∀ h t answer, env h (.queueReceive t) answer → answer ≠ none

section Waits

variable {env : Prog.Env Answer} {ns : List Bytes} {h : Hist}

theorem notifications_isPrefix (hfed : FedBy ns env)
    (hlog : Prog.Logged (Prog.freeContract env) h) :
    notifications h <+: ns := by
  induction h using List.reverseRecOn with
  | nil => exact List.nil_prefix
  | append_singleton h ev ih =>
    obtain ⟨e, a⟩ := ev
    obtain ⟨rest, hrest⟩ := ih hlog.of_append
    rw [notifications_append]
    cases e with
    | queueReceive t =>
      rcases hfed h t a (hlog h _ [] rfl).2 with rfl | ha
      · exact ⟨rest, by rw [← hrest]; simp [notifications]⟩
      · rw [← hrest, List.getElem?_append_right le_rfl, Nat.sub_self] at ha
        cases rest with
        | nil => exact ⟨[], by rw [← hrest, ha]; simp [notifications]⟩
        | cons data rest => exact ⟨rest, by rw [← hrest, ha]; simp [notifications]⟩
    | _ => exact ⟨rest, by rw [← hrest]; simp [notifications]⟩

theorem waits_prompt (hprompt : Prompt env) (hlog : Prog.Logged (Prog.freeContract env) h) :
    waits h = (notifications h).length := by
  induction h using List.reverseRecOn with
  | nil => rfl
  | append_singleton h ev ih =>
    obtain ⟨e, a⟩ := ev
    rw [waits_append, notifications_append, List.length_append, ih hlog.of_append]
    cases e with
    | queueReceive t =>
      obtain ⟨data, hdata⟩ := Option.ne_none_iff_exists'.mp (hprompt h t a (hlog h _ [] rfl).2)
      subst hdata
      rfl
    | _ => rfl

end Waits

/-! ## Failures -/

/-- A failed call, other than a write, whose outcome matters. -/
def Failed : Event Answer → Prop
  | ⟨.alloc, ok⟩ => ok = false
  | ⟨.makeKey, kp⟩ => kp = none
  | ⟨.sharedSecret, ok⟩ => ok = false
  | ⟨.psa op, ok⟩ => op.checked = true ∧ ok = false
  | ⟨.hashCompute, status⟩ => status ≠ .success
  | _ => False

instance : DecidablePred Failed
  | ⟨.alloc, ok⟩ => inferInstanceAs (Decidable (ok = false))
  | ⟨.makeKey, kp⟩ => inferInstanceAs (Decidable (kp = none))
  | ⟨.sharedSecret, ok⟩ => inferInstanceAs (Decidable (ok = false))
  | ⟨.psa op, ok⟩ => inferInstanceAs (Decidable (op.checked = true ∧ ok = false))
  | ⟨.hashCompute, status⟩ => inferInstanceAs (Decidable (status ≠ .success))
  | ⟨.getTime, _⟩ | ⟨.queueReceive _, _⟩ | ⟨.bleWrite _, _⟩ | ⟨.extracted _, _⟩ | ⟨.load _, _⟩
  | ⟨.store _ _, _⟩ | ⟨.notify _, _⟩ | ⟨.notifyWait, _⟩ | ⟨.commanding _, _⟩ =>
    inferInstanceAs (Decidable False)

def stepTimeoutMs : ℕ := 20000

/-- A call other than a write has failed. -/
def Fault (h : Hist) : Prop := ∃ ev ∈ h, Failed ev

theorem Fault.append {h : Hist} (hf : Fault h) (es : Hist) : Fault (h ++ es) := by
  obtain ⟨ev, hev, hfail⟩ := hf
  exact ⟨ev, List.mem_append_left _ hev, hfail⟩

theorem fault_of_failed {h : Hist} {ev : Event Answer} (hfail : Failed ev) : Fault (h ++ [ev]) :=
  ⟨ev, List.mem_append_right _ (List.mem_singleton_self _), hfail⟩

end River2
