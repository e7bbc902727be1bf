import River2.Auth
import River2.FramebufSafety
import River2.Recording
import River2.Telemetry

/-!
# How far the reassembly buffer grows

1. `buffered` reads the reassembly buffer off a history: a notification leaves a chunk to append, an
   allocation appends it, and an allocation without one is that of an extraction.
2. `bounded_of_logged`: when a wait for more bytes begins with at most 4101 bytes, the buffer never
   exceeds 4613.
3. `Maintains.authBody`: the handshake keeps every relation between history and buffer that its
   calls and its waits for frames keep.
4. The `keeps_*` lemmas: both receive loops keep to the sizes, and `buffered` is the buffer they
   hold. `framebuf_bounded` puts it together.
-/

namespace River2

open Prog

/-! ## The buffer of a history -/

/-- What a call does to the buffer, and to the chunk that is waiting to be appended. -/
def bufferStep : Framebuf × Option Bytes → Event Answer → Framebuf × Option Bytes
  | (fb, _), ⟨.queueReceive _, some data⟩ => (fb, some (data.take notifyChunkMax))
  | (fb, some chunk), ⟨.alloc, allocOk⟩ => ((framebufAppend allocOk fb chunk).2, none)
  | (fb, none), ⟨.alloc, allocOk⟩ => ((framebufExtract allocOk fb).2, none)
  | s, _ => s

/-- The buffer after a history, and the chunk received but not yet appended. -/
def buffered (h : Hist) : Framebuf × Option Bytes := h.foldl bufferStep (framebufInit, none)

theorem buffered_snoc (h : Hist) (ev : Event Answer) :
    buffered (h ++ [ev]) = bufferStep (buffered h) ev := List.foldl_concat ..

/-- The sizes that are never exceeded. -/
structure Bounded (s : Framebuf × Option Bytes) : Prop where
  length_le : s.1.data.length ≤ 4613
  cap_le : s.1.cap ≤ 4613
  pending : ∀ chunk, s.2 = some chunk → s.1.data.length ≤ 4101 ∧ chunk.length ≤ 512

/-- A wait for more bytes begins with a buffer that holds less than the largest frame. -/
def boundedContract : Contract Call Answer where
  env := allocEnv
  pre := fun h e =>
    match e with
    | .queueReceive _ => (buffered h).1.data.length ≤ 4101
    | _ => True
  out := fun _ => True

theorem framebufAppend_cap_le {fb : Framebuf} {chunk : Bytes} {n : ℕ} (hcap : fb.cap ≤ n)
    (hlen : fb.data.length + chunk.length ≤ n) : (framebufAppend true fb chunk).2.cap ≤ n := by
  unfold framebufAppend
  split_ifs with h0 hgrow hok
  · exact hcap
  · exact hlen
  · exact hcap
  · exact hcap

/-- One answered call keeps the sizes. -/
theorem Bounded.step {h : Hist} {ev : Event Answer} (hb : Bounded (buffered h))
    (hpre : boundedContract.pre h ev.1) (hans : allocEnv h ev.1 ev.2) :
    Bounded (bufferStep (buffered h) ev) := by
  obtain ⟨e, a⟩ := ev
  cases hs : buffered h with
  | mk fb pending =>
    rw [hs] at hb
    cases e with
    | queueReceive t =>
      change (buffered h).1.data.length ≤ 4101 at hpre
      rw [hs] at hpre
      cases a with
      | none => exact hb
      | some data =>
        refine ⟨hb.length_le, hb.cap_le, ?_⟩
        rintro chunk ⟨⟩
        exact ⟨hpre, (List.length_take_le _ _).trans le_rfl⟩
    | alloc =>
      obtain rfl : a = true := hans
      cases pending with
      | none =>
        have hsizes := framebufExtract_sizes true fb
        refine ⟨hsizes.length_le.trans hb.length_le, ?_, nofun⟩
        exact hsizes.cap_eq.trans_le hb.cap_le
      | some chunk =>
        obtain ⟨hlen, hchunk⟩ := hb.pending chunk rfl
        change fb.data.length ≤ 4101 at hlen
        have hdata := framebufAppend_data (framebufAppend_true fb chunk)
        refine ⟨?_, framebufAppend_cap_le hb.cap_le (by omega), nofun⟩
        show (framebufAppend true fb chunk).2.data.length ≤ 4613
        rw [hdata, List.length_append]
        omega
    | _ => exact hb

theorem bounded_of_logged {h : Hist} (hlog : Logged boundedContract h) : Bounded (buffered h) := by
  induction h using List.reverseRecOn with
  | nil => exact ⟨Nat.zero_le _, Nat.zero_le _, nofun⟩
  | append_singleton h ev ih =>
    obtain ⟨hpre, hans⟩ := hlog h ev [] rfl
    rw [buffered_snoc]
    exact (ih hlog.of_append).step hpre hans

/-! ## The receive loops -/

/-- The history's buffer is the one the code holds, and nothing is waiting to be appended. -/
def Tracks (h : Hist) (fb : Framebuf) : Prop := buffered h = (fb, none)

/-- Calls that are neither for bytes nor for memory, and no frames extracted. -/
def OffBuffer (e : Call) : Prop :=
  e ≠ .alloc ∧ (∀ t, e ≠ .queueReceive t) ∧ ∀ f, e ≠ .extracted f

theorem tracks_offBuffer {h : Hist} {fb : Framebuf} {e : Call} (a : Answer e) (he : OffBuffer e)
    (ht : Tracks h fb) : Tracks (h ++ [⟨e, a⟩]) fb := by
  unfold Tracks
  rw [buffered_snoc, ht]
  cases e with
  | alloc => exact absurd rfl he.1
  | queueReceive t => exact absurd rfl (he.2.1 t)
  | _ => rfl

theorem tracks_extracted {h : Hist} {fb : Framebuf} (f : Frame) (ht : Tracks h fb) :
    Tracks (h ++ [⟨.extracted f, ()⟩]) fb := by
  unfold Tracks
  rw [buffered_snoc, ht]
  rfl

section Only

variable {c : Crypto}

theorem only_river2Md5 {data : Bytes} : Only OffBuffer (river2Md5 c data) :=
  only_do (only_ask ⟨nofun, nofun, nofun⟩) fun status => by cases status <;> trivial

theorem only_psa {op : PsaOp} : Only OffBuffer (psa op) := only_ask ⟨nofun, nofun, nofun⟩

theorem only_psaOutput {op : PsaOp} {need cap : ℕ} : Only OffBuffer (psaOutput op need cap) := by
  unfold psaOutput
  split_ifs
  · exact only_psa
  · trivial

theorem only_importAesKey : Only OffBuffer importAesKey :=
  only_do only_psa fun ok => by cases ok <;> trivial

theorem only_psaCipherOp {setup : PsaOp} {updateLen finishLen outCap : ℕ} :
    Only OffBuffer (psaCipherOp setup updateLen finishLen outCap) := by
  refine only_do only_psa fun ok => ?_
  cases ok
  · trivial
  refine only_do only_psa fun ok => ?_
  cases ok
  · trivial
  refine only_do only_psaOutput fun ok => ?_
  cases ok
  · trivial
  exact only_psaOutput

theorem only_psaCipher {setup : PsaOp} {updateLen finishLen outCap : ℕ} :
    Only OffBuffer (psaCipher setup updateLen finishLen outCap) := by
  refine only_do only_psaCipherOp fun done => ?_
  refine only_do only_psa fun _ => only_do only_psa fun _ => ?_
  cases done <;> trivial

theorem only_sessionDecrypt {s : Session} {input : Bytes} {outCap : ℕ} :
    Only OffBuffer (sessionDecrypt c s input outCap) := by
  unfold sessionDecrypt
  dsimp only
  split_ifs
  · trivial
  · trivial
  · exact only_do only_importAesKey fun _ => only_do only_psaCipher fun _ => trivial

theorem only_sendFrame {frameType : UInt8} {payload : Bytes} :
    Only OffBuffer (sendFrame frameType payload) := by
  unfold sendFrame
  cases outerBuild frameType payload 600 with
  | none => trivial
  | some frame =>
    refine only_do (only_ask ⟨nofun, nofun, nofun⟩) fun err => ?_
    split_ifs <;> trivial

theorem only_sendInnerEncrypted {s : Session} {src dst cmdSet cmdId : UInt8} {payload : Bytes} :
    Only OffBuffer (sendInnerEncrypted c s src dst cmdSet cmdId payload) := by
  unfold sendInnerEncrypted
  cases innerBuild src dst cmdSet cmdId payload 300 with
  | none => trivial
  | some inner =>
    refine only_do ?_ fun encrypted => only_sendFrame
    exact only_do only_importAesKey fun _ => only_do only_psaCipher fun _ => trivial

theorem only_ecdhSharedSecret {priv : Octets 21} {peerPub : Bytes} :
    Only OffBuffer (ecdhSharedSecret c priv peerPub) := by
  unfold ecdhSharedSecret
  split_ifs
  · trivial
  · trivial
  · exact only_do (only_ask ⟨nofun, nofun, nofun⟩) fun ok => by cases ok <;> trivial

theorem only_mpptState {x : Shared} {offset : ℕ} {evt : UInt32} {payload : Bytes} :
    Only OffBuffer (mpptState x offset evt payload) := by
  unfold mpptState
  split_ifs
  · refine only_do (only_ask ⟨nofun, nofun, nofun⟩) fun old => ?_
    split_ifs
    · exact only_do (only_ask ⟨nofun, nofun, nofun⟩) fun _ => trivial
    · trivial
  · trivial

theorem only_pdHeartbeat {intervalMs : ℕ} {next : ℤ} {payload : Bytes} :
    Only OffBuffer (pdHeartbeat intervalMs next payload) := by
  unfold pdHeartbeat
  split_ifs
  · refine only_do (only_ask ⟨nofun, nofun, nofun⟩) fun _ => ?_
    refine only_do (only_ask ⟨nofun, nofun, nofun⟩) fun now => ?_
    split_ifs <;> trivial
  · trivial

theorem only_notifyOwner {bits : UInt32} : Only OffBuffer (notifyOwner bits) := by
  unfold notifyOwner
  split_ifs
  · exact only_ask ⟨nofun, nofun, nofun⟩
  · trivial

theorem only_telemetryPacket {intervalMs : ℕ} {next : ℤ} {pkt : InnerPacket} :
    Only OffBuffer (telemetryPacket intervalMs next pkt) := by
  unfold telemetryPacket
  split_ifs
  · trivial
  · exact only_do only_pdHeartbeat fun r => only_do only_notifyOwner fun _ => trivial
  · refine only_do ?_ fun bits => only_do only_notifyOwner fun _ => trivial
    exact only_do only_mpptState fun _ => only_do only_mpptState fun _ => trivial
  · trivial

theorem only_telemetryFrame {ctx : TelemetryCtx} {next : ℤ} {f : Frame} :
    Only OffBuffer (telemetryFrame c ctx next f) := by
  unfold telemetryFrame
  split_ifs
  · trivial
  refine only_do (only_attempt only_sessionDecrypt) fun plain => ?_
  rcases plain with err | plain
  · trivial
  dsimp only
  cases innerParse plain with
  | none => trivial
  | some pkt => exact only_telemetryPacket

end Only

/-- `J` relates a history to the buffer that the code holds: the calls beside the buffer and the
waits for frames keep it, under the contract. -/
structure Maintains (C : Contract Call Answer) (J : Hist → Framebuf → Prop) : Prop where
  pre : ∀ h e, OffBuffer e → C.pre h e
  out : ∀ h, C.out h
  aside : ∀ h fb e (a : Answer e), OffBuffer e → J h fb → J (h ++ [⟨e, a⟩]) fb
  init : wp C alloc (fun _ h => J h framebufInit) (fun _ _ => True) []
  wait : ∀ {h fb}, J h fb → ∀ fuel want,
    wp C (waitForFrame fuel fb want stepTimeoutMs) (fun r h' => J h' r.2) (fun _ _ => True) h

namespace Maintains

variable {α : Type} {C : Contract Call Answer} {J : Hist → Framebuf → Prop} {h : Hist}
  {fb : Framebuf} (hC : Maintains C J)

include hC

theorem only {p : Fw α} {Q : α → Hist → Prop} (hp : Only OffBuffer p) (hj : J h fb)
    (hQ : ∀ a h', J h' fb → Q a h') : wp C p Q (fun _ _ => True) h := by
  refine wp_mono (wp_only hp hC.pre hC.out ?_ hj) hQ fun _ _ _ => trivial
  exact fun h' e a he => hC.aside h' fb e a he

variable {c : Crypto} {cfg : EcoflowConfig} {devSerial : Bytes} {fuel : ℕ} {session : Session}

theorem ecdhGenKeypair :
    wp C ecdhGenKeypair (fun _ h' => J h' framebufInit) (fun _ _ => True) [] := by
  refine wp_do.mpr (wp_mono hC.init (fun allocOk h₁ hj₁ => ?_) fun _ _ => id)
  cases allocOk with
  | false => trivial
  | true =>
    refine wp_do.mpr (hC.only (only_ask ⟨nofun, nofun, nofun⟩) hj₁ fun keyPair h₂ hj₂ => ?_)
    cases keyPair with
    | none => trivial
    | some keyPair => exact hj₂

theorem exchangeKeys :
    wp C (exchangeKeys c fuel framebufInit) (fun r h' => J h' r.2) (fun _ _ => True) [] := by
  refine wp_do.mpr (wp_mono hC.ecdhGenKeypair (fun keys h₁ hj₁ => ?_) fun _ _ => id)
  refine wp_do.mpr (hC.only only_sendFrame hj₁ fun _ h₂ hj₂ => ?_)
  refine wp_do.mpr (wp_mono (hC.wait hj₂ _ _) (fun r h₃ hj₃ => ?_) fun _ _ => id)
  refine wp_do.mpr (hC.only (only_lift _) hj₃ fun peerPub h₄ hj₄ => ?_)
  refine wp_do.mpr (hC.only only_ecdhSharedSecret hj₄ fun secret h₅ hj₅ => ?_)
  exact wp_do.mpr (hC.only only_river2Md5 hj₅ fun iv h₆ hj₆ => hj₆)

theorem requestSessionKey (hj : J h fb) :
    wp C (requestSessionKey c cfg fuel session fb) (fun r h' => J h' r.2) (fun _ _ => True) h := by
  refine wp_do.mpr (hC.only only_sendFrame hj fun _ h₁ hj₁ => ?_)
  refine wp_do.mpr (wp_mono (hC.wait hj₁ _ _) (fun r h₂ hj₂ => ?_) fun _ _ => id)
  refine wp_do.mpr (hC.only (only_lift _) hj₂ fun body h₃ hj₃ => ?_)
  refine wp_do.mpr (hC.only only_sessionDecrypt hj₃ fun plain h₄ hj₄ => ?_)
  split_ifs
  · trivial
  · have honly : ∀ data : Bytes, Only OffBuffer (river2Md5 c data) := fun _ => only_river2Md5
    exact wp_do.mpr (hC.only (only_do (only_lift _) honly) hj₄ fun key h₅ hj₅ => hj₅)

/-- A round of steps 3 and 4: a frame is awaited and decrypted, and a verdict given. -/
theorem packetRound {β : Type} {verdict : Bytes × Framebuf → Bytes → Fw β} {Q : β → Hist → Prop}
    (hj : J h fb)
    (hv : ∀ r plain h', J h' r.2 → wp C (verdict r plain) Q (fun _ _ => True) h') :
    wp C
      (do
        let r ← waitForFrame fuel fb frameData stepTimeoutMs
        let plain ← sessionDecrypt c session r.1 256
        verdict r plain) Q (fun _ _ => True) h := by
  refine wp_do.mpr (wp_mono (hC.wait hj _ _) (fun r h₁ hj₁ => ?_) fun _ _ => id)
  exact wp_do.mpr (hC.only only_sessionDecrypt hj₁ (hv r))

theorem wakeAuthStatus (hj : J h fb) :
    wp C (wakeAuthStatus c fuel session fb) (fun fb' h' => J h' fb') (fun _ _ => True) h := by
  refine wp_do.mpr (hC.only only_sendInnerEncrypted hj fun _ h₁ hj₁ => ?_)
  refine wp_loop (fun _ fb' h' => J h' fb') (fun _ h' _ => hC.out h') ?_ hj₁
  intro _ fb' h' hj'
  refine hC.packetRound hj' fun r plain h₂ hj₂ => ?_
  cases innerParse plain with
  | none => exact hj₂
  | some pkt =>
    dsimp only
    split_ifs
    · exact hj₂
    · exact hj₂

theorem autoAuthenticate (hj : J h fb) :
    wp C (autoAuthenticate c cfg devSerial fuel session fb) (fun fb' h' => J h' fb')
      (fun _ _ => True) h := by
  unfold River2.autoAuthenticate
  dsimp only
  split_ifs
  · trivial
  refine wp_do.mpr (hC.only only_river2Md5 hj fun digest h₁ hj₁ => ?_)
  refine wp_do.mpr (hC.only only_sendInnerEncrypted hj₁ fun _ h₂ hj₂ => ?_)
  refine wp_loop (fun _ fb' h' => J h' fb') (fun _ h' _ => hC.out h') ?_ hj₂
  intro _ fb' h' hj'
  refine hC.packetRound hj' fun r plain h₃ hj₃ => ?_
  cases innerParse plain with
  | none => exact hj₃
  | some pkt =>
    dsimp only
    split_ifs
    · exact hj₃
    · trivial

/-- **The handshake** keeps its buffer from step to step. -/
theorem authBody :
    wp C (authBody c cfg devSerial fuel) (fun r h' => J h' r.2) (fun _ _ => True) [] := by
  refine wp_do.mpr (wp_mono hC.exchangeKeys (fun r h₁ hj₁ => ?_) fun _ _ => id)
  refine wp_do.mpr (wp_mono (hC.requestSessionKey hj₁) (fun r h₂ hj₂ => ?_) fun _ _ => id)
  refine wp_do.mpr (wp_mono (hC.wakeAuthStatus hj₂) (fun fb₁ h₃ hj₃ => ?_) fun _ _ => id)
  exact wp_do.mpr (wp_mono (hC.autoAuthenticate hj₃) (fun fb₂ h₄ hj₄ => hj₄) fun _ _ => id)

theorem authRun {outSession : Option Session} :
    wp C (authRun c cfg devSerial fuel outSession) (fun _ _ => True) (fun _ _ => True) [] := by
  refine wp_do.mpr (wp_attempt.mpr (wp_mono hC.authBody (fun r h₁ _ => ?_) fun err h₁ _ => ?_))
  · trivial
  · trivial

end Maintains

section Specs

variable {α : Type} {h : Hist} {fb : Framebuf}

/-- Nothing but the end state matters below. -/
abbrev Keeps (p : Fw α) (Q : α → Hist → Prop) (h : Hist) : Prop :=
  wp boundedContract p Q (fun _ _ => True) h

theorem keeps_only {p : Fw α} {Q : α → Hist → Prop} (hp : Only OffBuffer p) (ht : Tracks h fb)
    (hQ : ∀ a h', Tracks h' fb → Q a h') : Keeps p Q h := by
  refine wp_mono (wp_only hp ?_ (fun _ => trivial) ?_ ht) hQ fun _ _ _ => trivial
  · intro h' e he
    cases e with
    | queueReceive t => exact absurd rfl (he.2.1 t)
    | _ => trivial
  · exact fun h' e a he => tracks_offBuffer a he

theorem keeps_extract {Q : Bool → Hist → Prop} (ht : Tracks h fb)
    (hQ : ∀ h', Tracks h' (framebufExtract true fb).2 → Q true h') : Keeps alloc Q h := by
  refine ⟨trivial, fun allocOk hans => ?_⟩
  obtain rfl : allocOk = true := hans
  refine hQ _ ?_
  unfold Tracks
  rw [buffered_snoc, ht]
  rfl

theorem keeps_wait {β : Type} {k : Except EspErr Bytes → Fw β} {t : ℕ} {Q : β → Hist → Prop}
    (ht : Tracks h fb) (hlen : fb.data.length ≤ 4101)
    (hnone : ∀ h', Tracks h' fb → Keeps (k (.error .timeout)) Q h')
    (hsome : ∀ chunk h', buffered h' = (fb, some chunk) → Keeps (k (.ok chunk)) Q h') :
    Keeps (bleWaitNotification notifyChunkMax t >>= k) Q h := by
  have hpre : (buffered h).1.data.length ≤ 4101 := by
    rw [ht]
    exact hlen
  refine wp_do.mpr (wp_do.mpr ⟨hpre, fun answer _ => ?_⟩)
  cases answer with
  | none =>
    refine hnone _ ?_
    unfold Tracks
    rw [buffered_snoc, ht]
    rfl
  | some data =>
    refine hsome _ _ ?_
    rw [buffered_snoc, ht]
    rfl

theorem keeps_append {chunk : Bytes} {Q : Bool → Hist → Prop}
    (ht : buffered h = (fb, some chunk))
    (hQ : ∀ h', Tracks h' (framebufAppend true fb chunk).2 → Q true h') : Keeps alloc Q h := by
  refine ⟨trivial, fun allocOk hans => ?_⟩
  obtain rfl : allocOk = true := hans
  refine hQ _ ?_
  unfold Tracks
  rw [buffered_snoc, ht]
  rfl

theorem keeps_waitRound {want : UInt8} {deadlineUs : ℤ} (ht : Tracks h fb) :
    Keeps (waitRound want deadlineUs fb)
      (fun r h' => match r with | .inl fb' => Tracks h' fb' | .inr r => Tracks h' r.2) h := by
  refine wp_do.mpr (keeps_extract ht fun h₁ ht₁ => ?_)
  cases he : framebufExtract true fb with
  | mk o fb₁ =>
    rw [he] at ht₁
    cases o with
    | some f =>
      refine wp_do.mpr (wp_ask.mpr ⟨trivial, fun _ _ => ?_⟩)
      split_ifs
      · exact tracks_extracted f ht₁
      · exact tracks_extracted f ht₁
    | none =>
      refine wp_do.mpr (keeps_only (only_ask ⟨nofun, nofun, nofun⟩) ht₁ fun now h₂ ht₂ => ?_)
      dsimp only
      split_ifs
      · trivial
      · refine keeps_wait ht₂ (length_of_extract_none he) (fun _ => id) fun chunk h₃ ht₃ => ?_
        refine wp_do.mpr (keeps_append ht₃ fun h₄ ht₄ => ?_)
        rw [framebufAppend_eq_true]
        exact ht₄

theorem keeps_waitForFrame {fuel : ℕ} {want : UInt8} {timeoutMs : ℕ} (ht : Tracks h fb) :
    Keeps (waitForFrame fuel fb want timeoutMs) (fun r h' => Tracks h' r.2) h := by
  refine wp_do.mpr (keeps_only (only_ask ⟨nofun, nofun, nofun⟩) ht fun now h₁ ht₁ => ?_)
  refine wp_loop (fun _ fb' h' => Tracks h' fb') (fun _ _ _ => trivial) ?_ ht₁
  intro _ fb' h' ht'
  refine wp_mono (keeps_waitRound ht') ?_ fun _ _ => id
  rintro (fb₂ | r) h₂ ht₂
  · exact ht₂
  · exact ht₂

theorem maintains_tracks : Maintains boundedContract Tracks where
  pre := fun h' e he => by
    cases e with
    | queueReceive t => exact absurd rfl (he.2.1 t)
    | _ => trivial
  out := fun _ => trivial
  aside := fun _ _ _ a he ht => tracks_offBuffer a he ht
  init := @keeps_extract [] framebufInit _ rfl fun _ ht => ht
  wait := fun ht _ _ => keeps_waitForFrame ht

variable {c : Crypto} {cfg : EcoflowConfig} {devSerial : Bytes} {fuel : ℕ}

variable {c : Crypto} {fuel : ℕ} {ctx : TelemetryCtx} {s : Framebuf × ℤ}

theorem keeps_frameRound (ht : Tracks h s.1) :
    Keeps (frameRound c ctx s)
      (fun r h' =>
        match r with
        | .inl s => Tracks h' s.1
        | .inr s => Tracks h' s.1 ∧ s.1.data.length ≤ 4101) h := by
  obtain ⟨fb, next⟩ := s
  refine wp_do.mpr (keeps_extract ht fun h₁ ht₁ => ?_)
  cases he : framebufExtract true fb with
  | mk o fb₁ =>
    rw [he] at ht₁
    cases o with
    | none => exact ⟨ht₁, length_of_extract_none he⟩
    | some f =>
      refine wp_do.mpr (wp_ask.mpr ⟨trivial, fun _ _ => ?_⟩)
      exact wp_do.mpr (keeps_only only_telemetryFrame (tracks_extracted f ht₁)
        fun next' h₃ ht₃ => ht₃)

theorem keeps_telemetryRound (ht : Tracks h s.1) (hlen : s.1.data.length ≤ 4101) :
    Keeps (telemetryRound c ctx s)
      (fun r h' =>
        match r with
        | .inl s => Tracks h' s.1 ∧ s.1.data.length ≤ 4101
        | .inr _ => True) h := by
  obtain ⟨fb, next⟩ := s
  refine keeps_wait ht hlen (fun h₁ ht₁ => ⟨ht₁, hlen⟩) fun chunk h₁ ht₁ => ?_
  refine wp_do.mpr (keeps_append ht₁ fun h₂ ht₂ => ?_)
  rw [framebufAppend_eq_true]
  refine wp_do.mpr (wp_loop (fun _ s h' => Tracks h' s.1) (fun _ _ _ => trivial) ?_ ht₂)
  intro _ s h' ht'
  refine wp_mono (keeps_frameRound ht') ?_ fun _ _ => id
  rintro (s | s) h₃ hs
  · exact hs
  · exact hs

theorem keeps_telemetryTask : Keeps (telemetryTask c ctx fuel) (fun _ _ => True) [] := by
  have hinit : Tracks [] framebufInit ∧ framebufInit.data.length ≤ 4101 := ⟨rfl, Nat.zero_le _⟩
  refine wp_loop (fun _ s h' => Tracks h' s.1 ∧ s.1.data.length ≤ 4101) (fun _ _ _ => trivial) ?_
    hinit
  rintro _ s h' ⟨ht', hlen⟩
  refine wp_mono (keeps_telemetryRound ht' hlen) ?_ fun _ _ => id
  rintro (s | ⟨⟨⟩⟩) h₁ hs
  exact hs

theorem bounded_reach {p q : Fw α} {Q : α → Hist → Prop} (hp : Keeps p Q [])
    (hr : Reach allocEnv ([], p) (h, q)) : Bounded (buffered h) :=
  bounded_of_logged (logged_reach (C := boundedContract) hp hr logged_nil)

/-- Every state of `wait_for_frame` lies in a round that began with the history's buffer. -/
theorem tracks_waitForFrame {want : UInt8} {deadlineUs : ℤ} {h' : Hist}
    {q : Fw (Bytes × Framebuf)} (ht : Tracks h fb)
    (hr : Reach allocEnv (h, Prog.loop (waitRound want deadlineUs) fuel fb) (h', q)) :
    q = .spin ∨ ∃ m fb₁ h₁ p, Tracks h₁ fb₁ ∧
      Reach allocEnv (h₁, waitRound want deadlineUs fb₁) (h', p) ∧
      q = p.bind (again (waitRound want deadlineUs) m) := by
  refine reach_loop (C := boundedContract) (I := fun _ fb' h' => Tracks h' fb')
    (R := fun _ _ => True) ?_ ht hr
  intro _ fb' h₁ ht₁
  refine wp_mono (keeps_waitRound ht₁) ?_ fun _ _ => id
  rintro (fb₂ | r) h₂ ht₂
  · exact ht₂
  · trivial

theorem tracks_telemetryTask {h' : Hist} {q : Fw Empty}
    (hr : Reach allocEnv ([], telemetryTask c ctx fuel) (h', q)) :
    q = .spin ∨ ∃ m s h₁ p, Tracks h₁ s.1 ∧
      Reach allocEnv (h₁, telemetryRound c ctx s) (h', p) ∧
      q = p.bind (again (telemetryRound c ctx) m) := by
  have hinit : Tracks [] framebufInit ∧ framebufInit.data.length ≤ 4101 := ⟨rfl, Nat.zero_le _⟩
  obtain hspin | ⟨m, s, h₁, p, ⟨ht, -⟩, hp, hq⟩ := reach_loop (C := boundedContract)
    (I := fun _ s h' => Tracks h' s.1 ∧ s.1.data.length ≤ 4101) (R := fun _ _ => True)
    (fun _ _ _ hI => wp_mono (keeps_telemetryRound hI.1 hI.2)
      (fun r _ hr => by cases r <;> exact hr) fun _ _ => id) hinit hr
  · exact .inl hspin
  · exact .inr ⟨m, s, h₁, p, ht, hp, hq⟩

end Specs

/-! ## The result -/

/-- **The reassembler stays inside its buffers, and they stay small.** After any calls the bytes
held fit their memory, and of the next calls no check fails: no read or copy leaves the buffer, no
subtraction underflows, a payload fits `scratch`, and the loop ends. With memory, an extraction that
finds nothing leaves at most 4101 bytes. In every state of `river2_auth_run` and of `telemetry_task`
the buffer and its memory have at most 4613 bytes, a chunk that is to be appended has at most 512,
and the buffer it is appended to at most 4101. -/
theorem framebuf_bounded (c : Crypto) (cfg : EcoflowConfig) (devSerial : Bytes)
    (ctx : TelemetryCtx) (fuel : ℕ) :
    (∀ calls allocOk, let fb := (framebufCalls calls framebufInit).left
      fb.data.length ≤ fb.cap ∧
      (∀ chunk, framebufAppend? allocOk fb chunk = some (framebufAppend allocOk fb chunk)) ∧
      framebufExtract? allocOk fb = some (framebufExtract allocOk fb) ∧
      ExtractSizes fb (framebufExtract allocOk fb).1 (framebufExtract allocOk fb).2) ∧
    (∀ fb fb', framebufExtract true fb = (none, fb') → fb'.data.length ≤ 4101) ∧
    (∀ outSession h q, Reach allocEnv ([], authRun c cfg devSerial fuel outSession) (h, q) →
      Bounded (buffered h)) ∧
    (∀ h q, Reach allocEnv ([], telemetryTask c ctx fuel) (h, q) → Bounded (buffered h)) ∧
    (∀ session fb h, Reach allocEnv ([], authBody c cfg devSerial fuel) (h, .ret (session, fb)) →
      Tracks h fb) ∧
    (∀ want deadlineUs h fb h' q, Tracks h fb →
      Reach allocEnv (h, Prog.loop (waitRound want deadlineUs) fuel fb) (h', q) →
      q = .spin ∨ ∃ m fb₁ h₁ p, Tracks h₁ fb₁ ∧
        Reach allocEnv (h₁, waitRound want deadlineUs fb₁) (h', p) ∧
        q = p.bind (again (waitRound want deadlineUs) m)) ∧
    (∀ h' q, Reach allocEnv ([], telemetryTask c ctx fuel) (h', q) →
      q = .spin ∨ ∃ m s h₁ p, Tracks h₁ s.1 ∧
        Reach allocEnv (h₁, telemetryRound c ctx s) (h', p) ∧
        q = p.bind (again (telemetryRound c ctx) m)) := by
  refine ⟨?_, ?_, ?_, ?_, ?_, ?_, ?_⟩
  · intro calls allocOk fb
    refine ⟨framebufCalls_capacity calls le_rfl, ?_, ?_, framebufExtract_sizes allocOk fb⟩
    · exact fun chunk => framebufAppend?_eq allocOk fb chunk
    · exact framebufExtract?_eq allocOk fb
  · exact fun _ _ => length_of_extract_none
  · exact fun _ _ _ => bounded_reach maintains_tracks.authRun
  · exact fun _ _ => bounded_reach keeps_telemetryTask
  · intro session fb h hr
    exact wp_reach (C := boundedContract) maintains_tracks.authBody hr
  · exact fun _ _ _ _ _ _ => tracks_waitForFrame
  · exact fun _ _ => tracks_telemetryTask

/-- The recorded handshake, and an extraction that waits for the rest of a header. -/
theorem framebuf_bounded_recorded :
    let fb : Framebuf := ⟨[0x00, 0x5A, 0x5A, 0x13], 4, [], 0⟩
    Bounded (buffered (replay (Sample.ourPub, Sample.priv) Sample.replies Sample.program).1) ∧
      (framebufExtract true fb).2.data.length ≤ 4101 := by
  intro fb
  obtain ⟨-, hwait, hauth, -⟩ := framebuf_bounded Sample.crypto Sample.config
    Sample.config.efSerial.1 ⟨Sample.session, 0⟩ 40
  have hnone : (framebufExtract true fb).1 = none := by decide +kernel
  have hrun := reach_replay admits_allocEnv (Sample.ourPub, Sample.priv) Sample.replies
    Sample.program
  rw [← Prod.mk.eta
    (p := replay (Sample.ourPub, Sample.priv) Sample.replies Sample.program)] at hrun
  exact ⟨hauth none _ _ hrun, hwait fb _ (Prod.ext hnone rfl)⟩

end River2
