import River2.Board
import River2.Library.Custody

/-!
# The buffers of notifications (`ble_client.c`)

1. `gapNotifyRx`, `waitNotification` and `startConnect` are the code that allocates, queues, reads
   and frees them; `Buffers.step` is the heap and the queue that it calls.
2. `bufferRules` says which calls pass a buffer between a caller and the queue; `notifyCall_tidy`:
   each of the three has empty hands when it is over.
3. `buffers_owned_iff`: with any number of these calls in progress, in any order, no freed buffer is
   touched; and the buffers allocated are those in the queue and those in hand, if and only if
   `xQueueReset` has never found a chunk in the queue. It drops chunks and does not free them.
-/

namespace River2

open Prog

/-! ## The code -/

/-- `ble_notify_chunk_t`; `data` is an address. -/
structure Chunk where
  data : ℕ
  len : UInt16
  deriving DecidableEq

/-- The calls of the three functions. -/
inductive BufCall where
  | malloc (size : ℕ)
  | free (buf : ℕ)
  | memcpy (src n : ℕ)
  /-- `ble_hs_mbuf_to_flat` -/
  | mbufToFlat (om : Bytes) (flat : ℕ) (maxLen : UInt16)
  /-- `xQueueSend`, without a wait -/
  | queueSend (chunk : Chunk)
  | queueReceive (timeoutMs : ℕ)
  | queueReset
  /-- `ble_hs_id_infer_auto` -/
  | idInferAuto
  /-- `ble_gap_connect` -/
  | gapConnect (ownAddrType : UInt8) (peer : Bytes) (timeoutMs : ℕ)
  deriving DecidableEq

@[reducible] def BufAnswer : BufCall → Type
  | .malloc _ => Option ℕ
  | .free _ => Unit
  | .memcpy _ _ => Bytes
  | .mbufToFlat _ _ _ => ℤ × UInt16
  | .queueSend _ => Bool
  | .queueReceive _ => Option Chunk
  | .queueReset => Unit
  | .idInferAuto => ℤ × UInt8
  | .gapConnect _ _ _ => ℤ

abbrev BufProg := Prog BufCall BufAnswer EspErr

def mbufPktlen (om : Bytes) : UInt16 := UInt16.ofNat om.length

/-- `gap_event_cb` for `BLE_GAP_EVENT_NOTIFY_RX`. -/
def gapNotifyRx (om : Bytes) : BufProg Unit := do
  let len := mbufPktlen om
  if len ≤ 0 then return ()
  else
    match ← Prog.ask (BufCall.malloc len.toNat) with
    | none => return ()
    | some buf =>
      let (rc, outLen) ← Prog.ask (BufCall.mbufToFlat om buf len)
      if rc ≠ 0 then Prog.ask (BufCall.free buf)
      else
        if ← Prog.ask (BufCall.queueSend ⟨buf, outLen⟩) then return ()
        else Prog.ask (BufCall.free buf)

/-- `river2_ble_wait_notification`. -/
def waitNotification (outCap timeoutMs : ℕ) : BufProg Bytes := do
  match ← Prog.ask (BufCall.queueReceive timeoutMs) with
  | none => Prog.throw .timeout
  | some chunk =>
    let copyLen := if chunk.len.toNat < outCap then chunk.len.toNat else outCap
    let out ← Prog.ask (BufCall.memcpy chunk.data copyLen)
    Prog.ask (BufCall.free chunk.data)
    return out

def gapConnectTimeoutMs : ℕ := 30000

/-- `river2_ble_start_connect`. -/
def startConnect (targetAddr : Octets 6) : BufProg Unit := do
  let peer := targetAddr.1.reverse
  Prog.ask BufCall.queueReset
  let (rc, ownAddrType) ← Prog.ask BufCall.idInferAuto
  if rc ≠ 0 then Prog.throw .fail
  else
    let rc ← Prog.ask (BufCall.gapConnect ownAddrType peer gapConnectTimeoutMs)
    if rc ≠ 0 then Prog.throw .fail else return ()

/-- A call of `river2_ble_wait_notification`, whatever is done with the bytes. -/
def waitCall (outCap timeoutMs : ℕ) : BufProg Unit := do
  let _ ← waitNotification outCap timeoutMs
  return ()

/-- What the tasks call, for any arguments. -/
inductive NotifyCall : BufProg Unit → Prop
  | notifyRx (om : Bytes) : NotifyCall (gapNotifyRx om)
  | wait (outCap timeoutMs : ℕ) : NotifyCall (waitCall outCap timeoutMs)
  | startConnect (targetAddr : Octets 6) : NotifyCall (startConnect targetAddr)

/-! ## The heap and the queue -/

/-- The heap and `s_notify_queue`. -/
structure Buffers where
  /-- the buffers allocated and not yet freed -/
  live : Finset ℕ
  /-- their contents -/
  mem : ℕ → Bytes
  queue : List Chunk
  /-- what each `xQueueReset` has found in the queue -/
  resets : List (List Chunk)

namespace Buffers

/-- Before the first event. -/
def boot : Buffers := ⟨∅, fun _ => [], [], []⟩

/-- What a call does and returns. An allocation may fail at any time, as may the copy of an mbuf,
which then leaves anything in the buffer; the queue is full with `notifyQueueLen` chunks. -/
def step (w : Buffers) : Event BufAnswer → Buffers → Prop
  | ⟨.malloc _, none⟩, w' => w' = w
  | ⟨.malloc size, some buf⟩, w' => buf ∉ w.live ∧ ∃ b : Bytes, b.length = size ∧
      w' = { w with live := insert buf w.live, mem := Function.update w.mem buf b }
  | ⟨.free buf, _⟩, w' => w' = { w with live := w.live.erase buf }
  | ⟨.memcpy src n, out⟩, w' => out = (w.mem src).take n ∧ w' = w
  | ⟨.mbufToFlat om flat maxLen, (rc, outLen)⟩, w' => ∃ b : Bytes,
      b.length = (w.mem flat).length ∧ w' = { w with mem := Function.update w.mem flat b } ∧
      (rc = 0 → outLen ≤ maxLen ∧ b.take outLen.toNat = om.take maxLen.toNat)
  | ⟨.queueSend chunk, true⟩, w' =>
      w.queue.length < notifyQueueLen ∧ w' = { w with queue := w.queue ++ [chunk] }
  | ⟨.queueSend _, false⟩, w' => notifyQueueLen ≤ w.queue.length ∧ w' = w
  | ⟨.queueReceive _, some chunk⟩, w' => ∃ queue, w.queue = chunk :: queue ∧
      w' = { w with queue := queue }
  | ⟨.queueReceive _, none⟩, w' => w.queue = [] ∧ w' = w
  | ⟨.queueReset, _⟩, w' => w' = { w with queue := [], resets := w.resets ++ [w.queue] }
  | ⟨.idInferAuto, _⟩, w' => w' = w
  | ⟨.gapConnect _ _ _, _⟩, w' => w' = w

/-- The buffers that the chunks in the queue refer to. -/
def queued (w : Buffers) : Multiset ℕ := ↑(w.queue.map Chunk.data)

/-- The buffers of the chunks that resets have dropped. -/
def dropped (w : Buffers) : Multiset ℕ := ↑(w.resets.flatten.map Chunk.data)

/-- As a world of buffers. -/
def world : World BufAnswer ℕ Buffers where
  step := step
  existing := fun w => w.live.val
  held := queued
  lost := dropped

end Buffers

/-! ## Custody -/

/-- Who has a buffer: an allocation and a chunk received pass one to the caller, who frees it or
queues it. -/
def bufferRules : Rules BufAnswer ℕ where
  touches
    | .free buf | .memcpy buf _ | .mbufToFlat _ buf _ => {buf}
    | .queueSend chunk => {chunk.data}
    | _ => 0
  gives
    | ⟨.malloc _, some buf⟩ => {buf}
    | ⟨.queueReceive _, some chunk⟩ => {chunk.data}
    | _ => 0
  takes
    | ⟨.free buf, _⟩ => {buf}
    | ⟨.queueSend chunk, true⟩ => {chunk.data}
    | _ => 0

theorem wp_free_last {h : List (Event BufAnswer)} {buf : ℕ}
    {R : EspErr → List (Event BufAnswer) → Prop} (hhand : bufferRules.hand h = {buf}) :
    wp bufferRules.contract (Prog.ask (BufCall.free buf) : BufProg Unit)
      (fun _ h => bufferRules.hand h = 0) R h :=
  wp_use hhand rfl (fun _ => le_rfl) fun _ => hand_taken hhand rfl rfl

theorem gapNotifyRx_tidy (om : Bytes) : bufferRules.Tidy (gapNotifyRx om) := by
  unfold Rules.Tidy Rules.TidyFrom gapNotifyRx
  dsimp only
  split_ifs with hlen
  · exact Rules.hand_nil _
  refine wp_do.mpr (wp_idle rfl (fun _ => rfl) fun allocated => ?_)
  cases allocated with
  | none => exact hand_idle rfl rfl
  | some buf =>
    have hhand : bufferRules.hand ([] ++ [⟨.malloc (mbufPktlen om).toNat, some buf⟩]) = {buf} :=
      hand_given rfl rfl
    refine wp_do.mpr (wp_use hhand rfl (fun _ => Multiset.zero_le _) fun copied => ?_)
    obtain ⟨rc, outLen⟩ := copied
    have hcopied : bufferRules.hand ([] ++ [⟨.malloc (mbufPktlen om).toNat, some buf⟩] ++
        [⟨.mbufToFlat om buf (mbufPktlen om), (rc, outLen)⟩]) = {buf} :=
      (hand_idle rfl rfl).trans hhand
    dsimp only
    split_ifs with hrc
    · exact wp_free_last hcopied
    refine wp_do.mpr (wp_use hcopied rfl (fun sent => ?_) fun sent => ?_)
    · cases sent with
      | false => exact Multiset.zero_le _
      | true => exact le_rfl
    cases sent with
    | true => exact hand_taken hcopied rfl rfl
    | false => exact wp_free_last ((hand_idle rfl rfl).trans hcopied)

theorem waitCall_tidy (outCap timeoutMs : ℕ) : bufferRules.Tidy (waitCall outCap timeoutMs) := by
  unfold Rules.Tidy Rules.TidyFrom waitCall waitNotification
  refine wp_do.mpr (wp_do.mpr (wp_idle rfl (fun _ => rfl) fun received => ?_))
  cases received with
  | none => exact hand_idle rfl rfl
  | some chunk =>
    have hhand : bufferRules.hand ([] ++ [⟨.queueReceive timeoutMs, some chunk⟩]) = {chunk.data} :=
      hand_given rfl rfl
    refine wp_do.mpr (wp_use hhand rfl (fun _ => Multiset.zero_le _) fun out => ?_)
    exact wp_do.mpr (wp_free_last ((hand_idle rfl rfl).trans hhand))

theorem startConnect_tidy (targetAddr : Octets 6) : bufferRules.Tidy (startConnect targetAddr) := by
  unfold Rules.Tidy Rules.TidyFrom startConnect
  refine wp_do.mpr (wp_idle rfl (fun _ => rfl) fun _ => ?_)
  refine wp_do.mpr (wp_idle rfl (fun _ => rfl) fun inferred => ?_)
  obtain ⟨rc, ownAddrType⟩ := inferred
  dsimp only
  split_ifs with hrc
  · exact (hand_idle rfl rfl).trans (hand_idle rfl rfl)
  refine wp_do.mpr (wp_idle rfl (fun _ => rfl) fun rc' => ?_)
  have hempty : bufferRules.hand ([] ++ [⟨.queueReset, ()⟩] ++
      [⟨.idInferAuto, (rc, ownAddrType)⟩] ++
      [⟨.gapConnect ownAddrType targetAddr.1.reverse gapConnectTimeoutMs, rc'⟩]) = 0 :=
    ((hand_idle rfl rfl).trans (hand_idle rfl rfl)).trans (hand_idle rfl rfl)
  split_ifs
  · exact hempty
  · exact hempty

/-- **Each call** ends with empty hands. -/
theorem notifyCall_tidy {p : BufProg Unit} (hp : NotifyCall p) : bufferRules.Tidy p := by
  cases hp with
  | notifyRx om => exact gapNotifyRx_tidy om
  | wait outCap timeoutMs => exact waitCall_tidy outCap timeoutMs
  | startConnect targetAddr => exact startConnect_tidy targetAddr

/-! ## Every run -/

namespace Buffers

/-- **The heap and the queue** pass buffers on as the rules say. -/
theorem world_followed : bufferRules.Followed world := by
  rintro w ⟨e, a⟩ w' htouches hstep
  show w'.live.val + w.queued + bufferRules.takes ⟨e, a⟩ + w.dropped =
    w.live.val + w'.queued + bufferRules.gives ⟨e, a⟩ + w'.dropped
  cases e with
  | malloc size =>
    cases a with
    | none =>
      obtain rfl : w' = w := hstep
      rfl
    | some buf =>
      obtain ⟨hfresh, b, -, rfl⟩ := hstep
      show (insert buf w.live).val + w.queued + 0 + w.dropped =
        w.live.val + w.queued + {buf} + w.dropped
      rw [Finset.insert_val_of_notMem hfresh, ← Multiset.singleton_add]
      abel
  | free buf =>
    obtain rfl : w' = _ := hstep
    show (w.live.erase buf).val + w.queued + {buf} + w.dropped =
      w.live.val + w.queued + 0 + w.dropped
    have hmem : buf ∈ w.live.val := Multiset.singleton_le.mp htouches
    have hlive : w.live.val = {buf} + (w.live.erase buf).val := by
      rw [Finset.erase_val, Multiset.singleton_add, Multiset.cons_erase hmem]
    rw [hlive]
    abel
  | memcpy src n =>
    obtain ⟨-, rfl⟩ := hstep
    rfl
  | mbufToFlat om flat maxLen =>
    obtain ⟨b, -, rfl, -⟩ := hstep
    rfl
  | queueSend chunk =>
    cases a with
    | false =>
      obtain ⟨-, rfl⟩ := hstep
      rfl
    | true =>
      obtain ⟨-, rfl⟩ := hstep
      have hqueued : queued { w with queue := w.queue ++ [chunk] } = w.queued + {chunk.data} := by
        unfold queued
        rw [List.map_append, ← Multiset.coe_add]
        rfl
      rw [hqueued]
      show w.live.val + w.queued + {chunk.data} + w.dropped =
        w.live.val + (w.queued + {chunk.data}) + 0 + w.dropped
      abel
  | queueReceive timeoutMs =>
    cases a with
    | none =>
      obtain ⟨-, rfl⟩ := hstep
      rfl
    | some chunk =>
      obtain ⟨queue, hqueue, rfl⟩ := hstep
      have hqueued : w.queued = {chunk.data} + queued { w with queue := queue } := by
        unfold queued
        rw [hqueue, List.map_cons, ← Multiset.cons_coe, Multiset.singleton_add]
      rw [hqueued]
      show w.live.val + ({chunk.data} + queued { w with queue := queue }) + 0 + w.dropped =
        w.live.val + queued { w with queue := queue } + {chunk.data} + w.dropped
      abel
  | queueReset =>
    obtain rfl : w' = _ := hstep
    have hdropped : dropped { w with queue := [], resets := w.resets ++ [w.queue] } =
        w.dropped + w.queued := by
      unfold dropped queued
      rw [List.flatten_append, List.map_append, ← Multiset.coe_add, List.flatten_singleton]
    rw [hdropped]
    show w.live.val + w.queued + 0 + w.dropped = w.live.val + 0 + 0 + (w.dropped + w.queued)
    abel
  | idInferAuto =>
    obtain rfl : w' = w := hstep
    rfl
  | gapConnect ownAddrType peer timeoutMs =>
    obtain rfl : w' = w := hstep
    rfl

theorem dropped_eq_zero_iff {w : Buffers} : w.dropped = 0 ↔ ∀ chunks ∈ w.resets, chunks = [] := by
  unfold dropped
  rw [Multiset.coe_eq_zero, List.map_eq_nil_iff, List.flatten_eq_nil_iff]

end Buffers

variable {w : Buffers} {ts : List (Thread BufAnswer EspErr Unit)}

theorem buffers_balanced (hrun : PoolReach Buffers.world NotifyCall (.boot, []) (w, ts)) :
    bufferRules.Balanced Buffers.world (w, ts) :=
  pool_balanced Buffers.world_followed (fun _ => notifyCall_tidy)
    ⟨fun _ ht => absurd ht List.not_mem_nil, rfl⟩ hrun

/-- **Who has the buffers.** Whatever notifications arrive, whatever is waited for and connected to,
in any order and with any failures: the chunks in the queue and the calls in progress have distinct
buffers, all of them allocated; a call touches no freed buffer; and the buffers allocated are those
that the queue and the calls have, each once, if and only if no `xQueueReset` has found a chunk in
the queue. When no call is in progress, they are those of the queue. -/
theorem buffers_owned_iff (hrun : PoolReach Buffers.world NotifyCall (.boot, []) (w, ts)) :
    w.queued + bufferRules.inHand ts ≤ w.live.val ∧
    (∀ t ∈ ts, ∀ e, t.2.next? = some e → ∀ buf ∈ bufferRules.touches e, buf ∈ w.live) ∧
    (w.live.val = w.queued + bufferRules.inHand ts ↔ ∀ chunks ∈ w.resets, chunks = []) ∧
    (ts = [] → (w.live.val = w.queued ↔ ∀ chunks ∈ w.resets, chunks = [])) := by
  have hb := buffers_balanced hrun
  have haccounts : w.live.val = w.queued + bufferRules.inHand ts + w.dropped := hb.accounts
  have howned : w.live.val = w.queued + bufferRules.inHand ts ↔
      ∀ chunks ∈ w.resets, chunks = [] := by
    rw [← Buffers.dropped_eq_zero_iff, haccounts, add_eq_left]
  refine ⟨?_, fun t ht e he buf hbuf => ?_, howned, fun hidle => ?_⟩
  · rw [haccounts]
    exact Multiset.le_add_right _ _
  · exact Multiset.mem_of_le (touches_le hb ht he) hbuf
  · rwa [hidle, inHand_nil, add_zero] at howned

/-! ## Sample runs -/

/-- A heap that allocates and a queue, where only an mbuf of another length is not copied. -/
def Buffers.device (w : Buffers) : (e : BufCall) → Option (BufAnswer e × Buffers)
  | .malloc size =>
    let buf := w.live.sup id + 1
    some (some buf, { w with
      live := insert buf w.live, mem := Function.update w.mem buf (List.replicate size 0) })
  | .free buf => some ((), { w with live := w.live.erase buf })
  | .memcpy src n => some ((w.mem src).take n, w)
  | .mbufToFlat om flat maxLen =>
    if om.length = (w.mem flat).length ∧ om.length = maxLen.toNat then
      some ((0, maxLen), { w with mem := Function.update w.mem flat om })
    else none
  | .queueSend chunk =>
    if w.queue.length < notifyQueueLen then some (true, { w with queue := w.queue ++ [chunk] })
    else some (false, w)
  | .queueReceive _ =>
    match w.queue with
    | [] => some (none, w)
    | chunk :: queue => some (some chunk, { w with queue := queue })
  | .queueReset => some ((), { w with queue := [], resets := w.resets ++ [w.queue] })
  | .idInferAuto => some ((0, 0), w)
  | .gapConnect _ _ _ => some (0, w)

theorem Buffers.step_device {w w' : Buffers} {e : BufCall} {a : BufAnswer e}
    (hans : w.device e = some (a, w')) : w.step ⟨e, a⟩ w' := by
  cases e with
  | malloc size =>
    cases hans
    refine ⟨fun hmem => ?_, List.replicate size 0, List.length_replicate, rfl⟩
    have hle := Finset.le_sup (f := id) hmem
    exact absurd hle (Nat.not_succ_le_self _)
  | mbufToFlat om flat maxLen =>
    simp only [device] at hans
    split_ifs at hans with hlen
    cases hans
    exact ⟨om, hlen.1, rfl, fun _ => ⟨UInt16.le_refl _, rfl⟩⟩
  | queueSend chunk =>
    simp only [device] at hans
    split_ifs at hans with hroom
    · cases hans
      exact ⟨hroom, rfl⟩
    · cases hans
      exact ⟨not_lt.mp hroom, rfl⟩
  | queueReceive timeoutMs =>
    simp only [device] at hans
    cases hqueue : w.queue with
    | nil =>
      rw [hqueue] at hans
      cases hans
      exact ⟨hqueue, rfl⟩
    | cons chunk queue =>
      rw [hqueue] at hans
      cases hans
      exact ⟨queue, hqueue, rfl⟩
  | memcpy src n =>
    cases hans
    exact ⟨rfl, rfl⟩
  | _ =>
    cases hans
    exact rfl

namespace Sample

/-- The heap and the queue after a call. -/
def called (p : BufProg Unit) (w : Buffers) : Buffers := (simulate Buffers.device w [] p).1

theorem reach_called {p : BufProg Unit} (hp : NotifyCall p) {w : Buffers}
    (hover : (simulate Buffers.device w [] p).2.2.result?.isSome) :
    PoolReach Buffers.world NotifyCall (w, []) (called p w, []) :=
  poolReach_call (fun _ _ _ _ => Buffers.step_device) hp hover

/-- A notification of one byte has arrived. -/
def notified : Buffers := called (gapNotifyRx [0xAA]) .boot

theorem reach_notified : PoolReach Buffers.world NotifyCall (.boot, []) (notified, []) :=
  reach_called (.notifyRx [0xAA]) (by decide)

/-- The same heap and queue, up to a copy of an mbuf. -/
def untilCopy (w : Buffers) : (e : BufCall) → Option (BufAnswer e × Buffers)
  | .mbufToFlat _ _ _ => none
  | e => w.device e

/-- Behind a notification that is queued, a second one has its buffer and is about to fill it. -/
def receiving : Buffers × Thread BufAnswer EspErr Unit :=
  simulate untilCopy notified [] (gapNotifyRx [0xBB])

theorem reach_receiving :
    PoolReach Buffers.world NotifyCall (.boot, []) (receiving.1, [receiving.2]) := by
  have hstart : PoolStep Buffers.world NotifyCall (notified, [])
      (notified, [] ++ [([], gapNotifyRx [0xBB])]) := .start (.notifyRx [0xBB])
  have hdevice : ∀ (w : Buffers) (e : BufCall) (r : BufAnswer e × Buffers),
      untilCopy w e = some r → w.device e = some r := by
    intro w e r hans
    cases e with
    | mbufToFlat om flat maxLen => cases hans
    | _ => exact hans
  exact reach_notified.trans (.head hstart
    (poolReach_simulate (fun w e a w' hans => Buffers.step_device (hdevice w e _ hans)) _ _ _))

end Sample

/-- One chunk is queued, and one buffer is in hand. -/
theorem buffers_owned_iff_sample :
    let w := Sample.receiving.1
    let ts := [Sample.receiving.2]
    (w.queued = {1} ∧ bufferRules.inHand ts = {2}) ∧
    w.queued + bufferRules.inHand ts ≤ w.live.val ∧
    (∀ t ∈ ts, ∀ e, t.2.next? = some e → ∀ buf ∈ bufferRules.touches e, buf ∈ w.live) ∧
    (w.live.val = w.queued + bufferRules.inHand ts ↔ ∀ chunks ∈ w.resets, chunks = []) ∧
    (ts = [] → (w.live.val = w.queued ↔ ∀ chunks ∈ w.resets, chunks = [])) := by
  intro w ts
  exact ⟨by decide, buffers_owned_iff Sample.reach_receiving⟩

/-- A notification that is queued when a connection is started is never freed. -/
theorem reset_leaks :
    let w := Sample.called (startConnect ⟨[1, 2, 3, 4, 5, 6], rfl⟩) Sample.notified
    PoolReach Buffers.world NotifyCall (.boot, []) (Sample.notified, []) ∧
    PoolReach Buffers.world NotifyCall (Sample.notified, []) (w, []) ∧
    Sample.notified.queue = [⟨1, 1⟩] ∧ w.live = {1} ∧ w.queue = [] ∧ w.live.val ≠ w.queued := by
  intro w
  exact ⟨Sample.reach_notified, Sample.reach_called (.startConnect _) (by decide), by decide⟩

end River2
