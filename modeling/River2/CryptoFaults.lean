import River2.Transcript

/-!
# Failures of the crypto primitives

1. Every caller of a primitive heeds its failure: the `heeds_*` lemmas, one a function. Two
   statuses are dropped, that of `psa_hash_compute` and that of `psa_cipher_abort`.
2. `crypto_faults_iff`: a frame is sent, or `ESP_OK` returned, with all primitives so far having
   succeeded exactly if no hash computation and no abort has failed.
-/

namespace River2

open Prog

/-- A failed call of a primitive. `psa_destroy_key` computes nothing and is none. -/
def PrimitiveFailed : Event Answer → Prop
  | ⟨.makeKey, keyPair⟩ => keyPair = none
  | ⟨.sharedSecret, ok⟩ => ok = false
  | ⟨.psa op, ok⟩ => op ≠ .destroyKey ∧ ok = false
  | ⟨.hashCompute, status⟩ => status ≠ .success
  | _ => False

def HashFailed : Event Answer → Prop
  | ⟨.hashCompute, status⟩ => status ≠ .success
  | _ => False

def AbortFailed : Event Answer → Prop
  | ⟨.psa .abort, ok⟩ => ok = false
  | _ => False

/-- A failed call of a primitive whose status is dropped. -/
def DroppedFailed (ev : Event Answer) : Prop := HashFailed ev ∨ AbortFailed ev

/-- A failed call of a primitive whose status is looked at. -/
def CheckedFailed (ev : Event Answer) : Prop := PrimitiveFailed ev ∧ ¬ DroppedFailed ev

/-- The calls behind a failed cipher operation. -/
def Cleanup : Call → Prop
  | .psa op => op.checked = false
  | _ => False

theorem primitiveFailed_of_dropped {ev : Event Answer} (h : DroppedFailed ev) :
    PrimitiveFailed ev := by
  obtain ⟨e, a⟩ := ev
  rcases h with h | h
  · cases e with
    | hashCompute => exact h
    | _ => exact h.elim
  · cases e with
    | psa op =>
      cases op with
      | abort => exact ⟨nofun, h⟩
      | _ => exact h.elim
    | _ => exact h.elim

theorem CheckedFailed.psa {op : PsaOp} {ok : Bool} (h : CheckedFailed ⟨.psa op, ok⟩) :
    op.checked = true ∧ ok = false := by
  obtain ⟨⟨hop, hok⟩, hdropped⟩ := h
  refine ⟨?_, hok⟩
  cases op with
  | abort => exact absurd (.inr hok) hdropped
  | destroyKey => exact absurd rfl hop
  | _ => rfl

/-- `uECC_valid_public_key` has accepted the key it was asked about, the one in the first command
frame. -/
def KeyChecked (c : Crypto) (frames : List Frame) : Prop :=
  ∀ f pub, frames.find? (fun f => f.frameType == frameCommand) = some f →
    keyReplyPub f.payload = .ok pub → c.validPublicKey pub = true

def PrimitivesOk (c : Crypto) (h : Hist) : Prop :=
  (∀ ev ∈ h, ¬ PrimitiveFailed ev) ∧ KeyChecked c (extracted h)

/-! ## The code heeds failures -/

section Heeds

/-- A failed primitive is answered by cleanup and an error. -/
abbrev HeedsChecked {α : Type} (p : Fw α) : Prop :=
  Heeds CheckedFailed Cleanup (fun err => err ≠ .ok) p

variable {α : Type}

theorem heeds_other {e : Call} (he : ∀ a, ¬ PrimitiveFailed ⟨e, a⟩) :
    HeedsChecked (ask e) :=
  heeds_ask fun a hf => he a hf.1

theorem heeds_dropped {op : PsaOp} (hop : op.checked = false) : HeedsChecked (psa op) :=
  heeds_ask fun _ hf => by
    rw [hf.psa.1] at hop
    cases hop

theorem heeds_psa {op : PsaOp} {p : Fw α} (hp : HeedsChecked p) :
    HeedsChecked (psa op >>= fun ok => if ok then p else Prog.throw .fail) := by
  refine heeds_ask_do ?_ ?_
  · rintro ok hf
    obtain ⟨-, rfl⟩ := hf.psa
    exact nofun
  · rintro (_ | _)
    · trivial
    · exact hp

section Cipher

variable {op : PsaOp} {K : Bool → Fw α} (hfails : Fails Cleanup (fun err => err ≠ .ok) (K false))
  (hfalse : HeedsChecked (K false))
include hfails hfalse

/-- A call of a cipher operation, in front of what is done with the operation's outcome. -/
theorem heeds_psa_op {p : Fw Bool} (hp : HeedsChecked (p >>= K)) :
    HeedsChecked ((psa op >>= fun ok => if ok then p else return false) >>= K) := by
  rintro (_ | _)
  · exact ⟨fun _ => hfails, hfalse⟩
  · exact ⟨fun hf => absurd hf.psa.2 nofun, hp⟩

theorem heeds_psaOutput_op {need cap : ℕ} {p : Fw Bool} (hp : HeedsChecked (p >>= K)) :
    HeedsChecked ((psaOutput op need cap >>= fun ok => if ok then p else return false) >>= K) := by
  unfold psaOutput
  split_ifs
  · exact heeds_psa_op hfails hfalse hp
  · exact hfalse

theorem heeds_psaOutput (hret : HeedsChecked (K true)) {need cap : ℕ} :
    HeedsChecked (psaOutput op need cap >>= K) := by
  unfold psaOutput
  split_ifs
  · rintro (_ | _)
    · exact ⟨fun _ => hfails, hfalse⟩
    · exact ⟨fun hf => absurd hf.psa.2 nofun, hret⟩
  · exact hfalse

end Cipher

theorem heeds_river2Md5 {c : Crypto} {data : Bytes} : HeedsChecked (river2Md5 c data) := by
  unfold river2Md5
  refine heeds_do (heeds_ask ?_) ?_
  · rintro status ⟨hprim, hdropped⟩
    exact hdropped (.inl hprim)
  · rintro (_ | out) <;> trivial

theorem heeds_importAesKey : HeedsChecked importAesKey := heeds_psa trivial

theorem heeds_psaCipher {setup : PsaOp} {updateLen finishLen outCap : ℕ} :
    HeedsChecked (psaCipher setup updateLen finishLen outCap) := by
  have hcleanup : ∀ done : Bool, HeedsChecked (do
      let _ ← psa .abort
      let _ ← psa .destroyKey
      if done then return () else Prog.throw .fail : Fw Unit) := by
    intro done
    refine heeds_do (heeds_dropped rfl) fun _ => heeds_do (heeds_dropped rfl) fun _ => ?_
    cases done <;> trivial
  have hfails : Fails Cleanup (fun err : EspErr => err ≠ .ok) (do
      let _ ← psa .abort
      let _ ← psa .destroyKey
      if false then return () else Prog.throw .fail : Fw Unit) :=
    ⟨rfl, fun _ => ⟨rfl, fun _ => nofun⟩⟩
  unfold psaCipher psaCipherOp
  refine heeds_psa_op hfails (hcleanup false) (heeds_psa_op hfails (hcleanup false) ?_)
  exact heeds_psaOutput_op hfails (hcleanup false)
    (heeds_psaOutput hfails (hcleanup false) (hcleanup true))

theorem heeds_aesCbcEncryptPkcs7 {c : Crypto} {s : Session} {input : Bytes} {outCap : ℕ} :
    HeedsChecked (aesCbcEncryptPkcs7 c s input outCap) :=
  heeds_do heeds_importAesKey fun _ => heeds_do heeds_psaCipher fun _ => trivial

theorem heeds_sessionDecrypt {c : Crypto} {s : Session} {input : Bytes} {outCap : ℕ} :
    HeedsChecked (sessionDecrypt c s input outCap) := by
  unfold sessionDecrypt
  dsimp only
  split_ifs
  · trivial
  · trivial
  · exact heeds_do heeds_importAesKey fun _ => heeds_do heeds_psaCipher fun _ => trivial

theorem heeds_sendFrame {frameType : UInt8} {payload : Bytes} :
    HeedsChecked (sendFrame frameType payload) := by
  unfold sendFrame
  cases outerBuild frameType payload 600 with
  | none => trivial
  | some frame =>
    refine heeds_do (heeds_other fun _ => id) fun err => ?_
    split_ifs <;> trivial

theorem heeds_sendInnerEncrypted {c : Crypto} {s : Session} {src dst cmdSet cmdId : UInt8}
    {payload : Bytes} : HeedsChecked (sendInnerEncrypted c s src dst cmdSet cmdId payload) := by
  unfold sendInnerEncrypted
  cases innerBuild src dst cmdSet cmdId payload 300 with
  | none => trivial
  | some inner =>
    exact heeds_do heeds_aesCbcEncryptPkcs7 fun encrypted => heeds_sendFrame

theorem heeds_waitRound {want : UInt8} {deadlineUs : ℤ} {fb : Framebuf} :
    HeedsChecked (waitRound want deadlineUs fb) := by
  unfold waitRound
  refine heeds_do (heeds_other fun _ => id) fun allocOk => ?_
  cases framebufExtract allocOk fb with
  | mk o fb₁ =>
    cases o with
    | some f =>
      refine heeds_do (heeds_other fun _ => id) fun _ => ?_
      split_ifs <;> trivial
    | none =>
      refine heeds_do (heeds_other fun _ => id) fun now => ?_
      dsimp only
      split_ifs
      · trivial
      refine heeds_do (heeds_do (heeds_other fun _ => id) ?_) ?_
      · rintro (_ | data) <;> trivial
      rintro (err | chunk)
      · cases err <;> trivial
      refine heeds_do (heeds_other fun _ => id) fun allocOk' => ?_
      cases framebufAppend allocOk' fb₁ chunk with
      | mk ok fb₂ => cases ok <;> trivial

theorem heeds_waitForFrame {fuel : ℕ} {fb : Framebuf} {want : UInt8} {timeoutMs : ℕ} :
    HeedsChecked (waitForFrame fuel fb want timeoutMs) :=
  heeds_do (heeds_other fun _ => id) fun _ => heeds_loop (fun _ => heeds_waitRound) fuel fb

theorem heeds_ecdhGenKeypair : HeedsChecked ecdhGenKeypair := by
  unfold ecdhGenKeypair
  refine heeds_do (heeds_other fun _ => id) fun ok => ?_
  split_ifs
  · refine heeds_ask_do ?_ ?_
    · rintro keyPair ⟨rfl, -⟩
      exact nofun
    · rintro (_ | keyPair) <;> trivial
  · trivial

theorem heeds_ecdhSharedSecret {c : Crypto} {priv : Octets 21} {peerPub : Bytes} :
    HeedsChecked (ecdhSharedSecret c priv peerPub) := by
  unfold ecdhSharedSecret
  split_ifs
  · trivial
  · trivial
  · refine heeds_ask_do ?_ ?_
    · rintro ok ⟨rfl, -⟩
      exact nofun
    · rintro (_ | _) <;> trivial

theorem heeds_exchangeKeys {c : Crypto} {fuel : ℕ} {fb : Framebuf} :
    HeedsChecked (exchangeKeys c fuel fb) := by
  refine heeds_do heeds_ecdhGenKeypair fun keyPair => ?_
  refine heeds_do heeds_sendFrame fun _ => ?_
  refine heeds_do heeds_waitForFrame fun r => ?_
  refine heeds_do (heeds_lift _) fun peerPub => ?_
  refine heeds_do heeds_ecdhSharedSecret fun secret => ?_
  exact heeds_do heeds_river2Md5 fun iv => trivial

theorem heeds_requestSessionKey {c : Crypto} {cfg : EcoflowConfig} {fuel : ℕ} {interim : Session}
    {fb : Framebuf} : HeedsChecked (requestSessionKey c cfg fuel interim fb) := by
  refine heeds_do heeds_sendFrame fun _ => ?_
  refine heeds_do heeds_waitForFrame fun r => ?_
  refine heeds_do (heeds_lift _) fun body => ?_
  refine heeds_do heeds_sessionDecrypt fun plain => ?_
  split_ifs
  · trivial
  · refine heeds_do (heeds_do (heeds_lift _) fun data => heeds_river2Md5) fun key => ?_
    trivial

theorem heeds_packetRound {c : Crypto} {fuel : ℕ} {session : Session} {fb : Framebuf}
    {verdict : Bytes × Framebuf → Bytes → Fw α} (hv : ∀ r plain, HeedsChecked (verdict r plain)) :
    HeedsChecked (do
      let r ← waitForFrame fuel fb frameData stepTimeoutMs
      let plain ← sessionDecrypt c session r.1 256
      verdict r plain) :=
  heeds_do heeds_waitForFrame fun r => heeds_do heeds_sessionDecrypt fun plain => hv r plain

theorem heeds_wakeAuthStatus {c : Crypto} {fuel : ℕ} {session : Session} {fb : Framebuf} :
    HeedsChecked (wakeAuthStatus c fuel session fb) := by
  refine heeds_do heeds_sendInnerEncrypted fun _ => heeds_loop (fun fb => ?_) fuel fb
  refine heeds_packetRound fun r plain => ?_
  cases innerParse plain with
  | none => trivial
  | some pkt =>
    dsimp only
    split_ifs <;> trivial

theorem heeds_autoAuthenticate {c : Crypto} {cfg : EcoflowConfig} {devSerial : Bytes} {fuel : ℕ}
    {session : Session} {fb : Framebuf} :
    HeedsChecked (autoAuthenticate c cfg devSerial fuel session fb) := by
  unfold autoAuthenticate
  dsimp only
  split_ifs
  · trivial
  refine heeds_do heeds_river2Md5 fun digest => ?_
  refine heeds_do heeds_sendInnerEncrypted fun _ => heeds_loop (fun fb => ?_) fuel fb
  refine heeds_packetRound fun r plain => ?_
  cases innerParse plain with
  | none => trivial
  | some pkt =>
    dsimp only
    split_ifs <;> trivial

theorem heeds_authBody {c : Crypto} {cfg : EcoflowConfig} {devSerial : Bytes} {fuel : ℕ} :
    HeedsChecked (authBody c cfg devSerial fuel) := by
  refine heeds_do heeds_exchangeKeys fun r => ?_
  refine heeds_do heeds_requestSessionKey fun s => ?_
  refine heeds_do heeds_wakeAuthStatus fun fb => ?_
  exact heeds_do heeds_autoAuthenticate fun fb => trivial

end Heeds

/-! ## The key of the peer -/

variable {c : Crypto} {cfg : EcoflowConfig} {devSerial : Bytes} {fuel : ℕ}

theorem find?_noType {frames : List Frame} (h : NoType frameCommand frames) :
    frames.find? (fun f => f.frameType == frameCommand) = none := by
  refine List.find?_eq_none.mpr fun f hf => ?_
  simpa using h f hf

theorem keyChecked_noType {frames : List Frame} (h : NoType frameCommand frames) :
    KeyChecked c frames := by
  intro f pub hfind
  rw [find?_noType h] at hfind
  cases hfind

/-- A key reply that led to an interim session carried a valid key. -/
theorem KeyRead.keyChecked {priv : Octets 21} {interim : Session} {xs : List Frame}
    (h : KeyRead c priv interim xs) (more : List Frame) : KeyChecked c (xs ++ more) := by
  obtain ⟨skipped, reply, rfl, hno, hreply⟩ := h
  intro f pub hfind hpub
  rw [List.append_assoc, List.find?_append, find?_noType hno, Option.none_or] at hfind
  cases hfind
  unfold keyReply at hreply
  rw [hpub] at hreply
  cases hvalid : c.validPublicKey pub with
  | true => rfl
  | false =>
    change (if c.validPublicKey pub = false then _ else _) = _ at hreply
    rw [if_pos hvalid] at hreply
    cases hreply

/-- While the handshake goes on, the key of the peer has been accepted. -/
theorem Reached.keyChecked {keys : List (Octets 40 × Octets 21)} {sends : List (Bytes × EspErr)}
    {frames : List Frame} {ph : Phase} (hr : Reached c cfg devSerial keys sends frames ph)
    (hph : ∀ err, ph ≠ .refused err) : KeyChecked c frames := by
  cases ph with
  | start =>
    obtain ⟨-, -, rfl⟩ := hr
    exact keyChecked_noType (noType_nil _)
  | sendKey ourPub priv =>
    obtain ⟨-, -, rfl⟩ := hr
    exact keyChecked_noType (noType_nil _)
  | awaitKey priv =>
    obtain ⟨_, -, -, hno⟩ := hr
    exact keyChecked_noType hno
  | sendSeed interim =>
    obtain ⟨_, _, -, -, hkey⟩ := hr
    have hchecked := hkey.keyChecked []
    rwa [List.append_nil] at hchecked
  | awaitSeed interim =>
    obtain ⟨_, _, xs, ys, -, -, rfl, hkey, -⟩ := hr
    exact hkey.keyChecked ys
  | sendStatus session =>
    obtain ⟨_, xs, ys, -, rfl, _, _, -, hkey, -⟩ := hr
    exact hkey.keyChecked ys
  | awaitStatus session =>
    obtain ⟨_, xs, ys, zs, -, rfl, _, _, -, hkey, -⟩ := hr
    rw [List.append_assoc]
    exact hkey.keyChecked _
  | sendAuth session =>
    obtain ⟨_, xs, ys, zs, -, rfl, ⟨_, _, -, hkey, -⟩, -⟩ := hr
    rw [List.append_assoc]
    exact hkey.keyChecked _
  | awaitResult session =>
    obtain ⟨_, xs, ys, zs, ws, -, rfl, ⟨_, _, -, hkey, -⟩, -⟩ := hr
    rw [List.append_assoc, List.append_assoc]
    exact hkey.keyChecked _
  | accepted session =>
    obtain ⟨_, xs, ys, zs, ws, -, rfl, ⟨_, _, -, hkey, -⟩, -⟩ := hr
    rw [List.append_assoc, List.append_assoc]
    exact hkey.keyChecked _
  | refused err => exact absurd rfl (hph err)

/-! ## Runs -/

/-- The points where the outcome shows: a frame is about to be sent, or `ESP_OK` is returned. -/
def Shows (q : Fw (EspErr × Option Session)) : Prop :=
  (∃ data, q.next? = some (.bleWrite data)) ∨ ∃ session, q = .ret (.ok, session)

/-- In every run, with any answers, no checked primitive has failed where the outcome shows. -/
theorem checked_of_shows {outSession : Option Session} {h : Hist}
    {q : Fw (EspErr × Option Session)}
    (hrun : Reach anyEnv ([], authRun c cfg devSerial fuel outSession) (h, q)) (hq : Shows q) :
    ∀ ev ∈ h, ¬ CheckedFailed ev := by
  have hrun_wp : wp (heedContract anyEnv CheckedFailed Cleanup)
      (authRun c cfg devSerial fuel outSession)
      (fun r h => r.1 = .ok → ∀ ev ∈ h, ¬ CheckedFailed ev) (fun _ _ => True) [] := by
    unfold authRun
    refine wp_do.mpr (wp_attempt.mpr (wp_mono (wp_heeds heeds_authBody ?_) ?_ ?_))
    · exact fun ev hev => absurd hev List.not_mem_nil
    · intro r h' hclean _
      exact hclean
    · rintro err h' (herr | hclean) hok
      · exact absurd hok herr
      · exact hclean
  have hwp := wp_reach (C := heedContract anyEnv CheckedFailed Cleanup) hrun_wp hrun
  rcases hq with ⟨data, hnext⟩ | ⟨session, rfl⟩
  · rw [eq_call_of_next? hnext] at hwp
    exact hwp.1.resolve_left id
  · exact hwp rfl

/-- In every run in which hashing succeeds, the key of the peer has been accepted where the outcome
shows. -/
theorem keyChecked_of_shows {outSession : Option Session} {h : Hist}
    {q : Fw (EspErr × Option Session)}
    (hrun : Reach hashEnv ([], authRun c cfg devSerial fuel outSession) (h, q)) (hq : Shows q) :
    KeyChecked c (extracted h) := by
  have hwp := wp_reach (C := handshakeContract c cfg devSerial fuel) wp_authRun hrun
  have ht := tracked_of_logged
    (logged_authRun hrun)
  refine Reached.keyChecked ht fun err hph => ?_
  rcases hq with ⟨data, hnext⟩ | ⟨session, rfl⟩
  · rw [eq_call_of_next? hnext] at hwp
    have hdue : (phase c cfg devSerial h).due c cfg devSerial = some data := hwp.1
    rw [hph] at hdue
    cases hdue
  · rcases hwp with ⟨session', fb, -, haccepted, -⟩ | ⟨-, hne, -⟩
    · rw [hph] at haccepted
      cases haccepted
    · exact hne rfl

/-- **Failures of primitives, exactly.** In every run, whatever the device sends and whichever calls
fail: when a frame is about to be sent and when `ESP_OK` is returned, all primitives have succeeded
if and only if no hash computation and no abort of a cipher operation has failed. -/
theorem crypto_faults_iff {outSession : Option Session} {h : Hist}
    {q : Fw (EspErr × Option Session)}
    (hrun : Reach anyEnv ([], authRun c cfg devSerial fuel outSession) (h, q)) (hq : Shows q) :
    PrimitivesOk c h ↔ ∀ ev ∈ h, ¬ HashFailed ev ∧ ¬ AbortFailed ev := by
  constructor
  · rintro ⟨hok, -⟩ ev hev
    exact not_or.mp fun hdropped => hok ev hev (primitiveFailed_of_dropped hdropped)
  · intro hdropped
    refine ⟨fun ev hev hprim => checked_of_shows hrun hq ev hev ⟨hprim, ?_⟩, ?_⟩
    · exact not_or.mpr (hdropped ev hev)
    refine keyChecked_of_shows (hrun.restrict ?_) hq
    rintro h₁ ⟨e, a⟩ h₂ rfl
    have hev := (hdropped ⟨e, a⟩ (List.mem_append_right _ (List.mem_cons_self ..))).1
    cases e <;> first | trivial | exact not_not.mp hev

/-- The recorded handshake, in which no primitive fails. -/
theorem crypto_faults_iff_sample :
    (Sample.run Sample.replies).2 = .ret (.ok, some Sample.session) ∧
    (PrimitivesOk Sample.crypto (Sample.run Sample.replies).1 ↔
      ∀ ev ∈ (Sample.run Sample.replies).1, ¬ HashFailed ev ∧ ¬ AbortFailed ev) := by
  have hrun := Reach.mono (fun _ _ _ _ => ⟨⟩ : ∀ h e a, _ → anyEnv h e a) Sample.reach_replies
  exact ⟨Sample.run_replies, crypto_faults_iff hrun (Or.inr ⟨_, rfl⟩)⟩

/-! ## A failure that passes unnoticed -/

instance (ev : Event Answer) : Decidable (HashFailed ev) := by
  obtain ⟨e, a⟩ := ev
  cases e
  case hashCompute => exact inferInstanceAs (Decidable (a ≠ .success))
  all_goals exact inferInstanceAs (Decidable False)

/-- The recorded device, beside a crypto library whose hash computations end as given. -/
def faultyDevice (keyPair : Octets 40 × Octets 21) (s : List HashStatus × List Bytes) :
    (e : Call) → Option (Answer e × List HashStatus × List Bytes)
  | .hashCompute => some (s.1.headD .success, s.1.tail, s.2)
  | e => (device keyPair s.2 e).map fun r => (r.1, s.1, r.2)

/-- The run against recorded notifications with these outcomes of the hash computations. -/
def faultyReplay {α : Type} (keyPair : Octets 40 × Octets 21) (statuses : List HashStatus)
    (ns : List Bytes) (p : Fw α) : Hist × Fw α :=
  (simulate (faultyDevice keyPair) (statuses, ns) [] p).2

theorem reach_faultyReplay {α : Type} (keyPair : Octets 40 × Octets 21)
    (statuses : List HashStatus) (ns : List Bytes) (p : Fw α) :
    Reach anyEnv ([], p) (faultyReplay keyPair statuses ns p) :=
  reach_simulate (fun _ _ _ _ _ _ => trivial) p (statuses, ns) []

namespace Sample

/-- The handshake with these notifications, but for step 4's digest, which fails and leaves
zeros. -/
def faultyRun (ns : List Bytes) : Hist × Fw (EspErr × Option Session) :=
  faultyReplay (ourPub, priv) [.success, .success, .failed (beOctets 16 0)] ns program

theorem reach_faultyRun (ns : List Bytes) :
    Reach anyEnv ([], program) ((faultyRun ns).1, (faultyRun ns).2) :=
  reach_faultyReplay (ourPub, priv) _ ns program

end Sample

/-- The digest of step 4 fails, the packet made from what it left is sent, and `ESP_OK` is
returned. -/
theorem crypto_fault_unnoticed :
    Reach anyEnv ([], Sample.program)
      ((Sample.faultyRun Sample.replies).1, .ret (.ok, some Sample.session)) ∧
    (∃ ev ∈ (Sample.faultyRun Sample.replies).1, HashFailed ev) ∧
    (written (Sample.faultyRun Sample.replies).1).getLast? =
      some (packetFrame Sample.crypto Sample.session addrApp addrAuth 0x35 0x86
        (hexPayload (List.replicate 16 0))) := by
  obtain ⟨hresult, hfailed, hsent⟩ :
      (Sample.faultyRun Sample.replies).2.result? = some (.ok (.ok, some Sample.session)) ∧
      (∃ ev ∈ (Sample.faultyRun Sample.replies).1, HashFailed ev) ∧
      (written (Sample.faultyRun Sample.replies).1).getLast? =
        some (packetFrame Sample.crypto Sample.session addrApp addrAuth 0x35 0x86
          (hexPayload (List.replicate 16 0))) := by
    decide +kernel
  have hrun := Sample.reach_faultyRun Sample.replies
  rw [eq_ret_of_result? hresult] at hrun
  exact ⟨hrun, hfailed, hsent⟩

end River2
