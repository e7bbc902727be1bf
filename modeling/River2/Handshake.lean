import River2.Auth

/-!
# The handshake as an automaton

What the handshake is for, apart from how the code waits, allocates and calls the crypto library:
an automaton that reads the key pair, the frames of the device and the outcomes of the writes.

1. `Phase` and its steps `keyed`, `frame`, `sent`; `due` is the frame the automaton sends.
2. `phase` reads a history of the code.
3. `wp_authBody`: the code follows the automaton. It writes exactly what is due, it waits only in
   phases that wait, it returns the session of an accepted handshake, and every error is a refusal
   of the automaton, a timeout or a fault.
-/

namespace River2

open Prog

variable (c : Crypto) (cfg : EcoflowConfig) (devSerial : Bytes)

/-! ## The automaton -/

/-- Where a handshake stands: nothing done, about to send, waiting for a reply, or over. -/
inductive Phase where
  | start
  | sendKey (ourPub : Octets 40) (priv : Octets 21)
  | awaitKey (priv : Octets 21)
  | sendSeed (interim : Session)
  | awaitSeed (interim : Session)
  | sendStatus (session : Session)
  | awaitStatus (session : Session)
  | sendAuth (session : Session)
  | awaitResult (session : Session)
  | accepted (session : Session)
  | refused (err : EspErr)
  deriving DecidableEq

/-- The interim session a key reply leads to. -/
def keyReply (priv : Octets 21) (reply : Bytes) : Except EspErr Session := do
  let peerPub ← keyReplyPub reply
  if c.validPublicKey peerPub = false then .error .invalidArg
  else .ok (interimOf (c.sharedSecret peerPub priv) (c.md5 (c.sharedSecret peerPub priv).1))

/-- The session a decrypted session-key reply leads to. -/
def seedSession (interim : Session) (plain : Bytes) : Except EspErr Session := do
  if plain.length < 18 then .error .invalidSize
  else
    let data ← sessionKeyData cfg (slice plain 16 2) (slice plain 0 16)
    .ok ⟨c.md5 data, interim.iv⟩

/-- The session a session-key reply leads to. -/
def seedReply (interim : Session) (reply : Bytes) : Except EspErr Session := do
  let body ← seedReplyBody reply
  let plain ← decrypted c interim body 64
  seedSession c cfg interim plain

/-- `user_id ++ serial_number`. -/
def credentials : Bytes := cString cfg.efUser.1 ++ cString devSerial

/-- The phase a packet leads to from step 3. -/
def statusPacket (session : Session) (plain : Bytes) : Phase :=
  match innerParse plain with
  | none => .awaitStatus session
  | some pkt =>
    if isStatusReply pkt then
      if (credentials cfg devSerial).length > md5InCap then .refused .invalidSize
      else .sendAuth session
    else .awaitStatus session

/-- The phase a packet leads to from step 4. -/
def resultPacket (session : Session) (plain : Bytes) : Phase :=
  match innerParse plain with
  | none => .awaitResult session
  | some pkt => if authVerdict pkt = .ok then .accepted session else .refused (authVerdict pkt)

namespace Phase

/-- Go on with a result, or refuse with the error. -/
def orRefuse {α : Type} (next : α → Phase) : Except EspErr α → Phase
  | .error err => .refused err
  | .ok a => next a

def keyed (keyPair : Option (Octets 40 × Octets 21)) : Phase → Phase
  | .start =>
    match keyPair with
    | none => .start
    | some (ourPub, priv) => .sendKey ourPub priv
  | ph => ph

def frame (f : Frame) : Phase → Phase
  | .awaitKey priv =>
    if f.frameType = frameCommand then orRefuse .sendSeed (keyReply c priv f.payload)
    else .awaitKey priv
  | .awaitSeed interim =>
    if f.frameType = frameCommand then orRefuse .sendStatus (seedReply c cfg interim f.payload)
    else .awaitSeed interim
  | .awaitStatus session =>
    if f.frameType = frameData then
      orRefuse (statusPacket cfg devSerial session) (decrypted c session f.payload 256)
    else .awaitStatus session
  | .awaitResult session =>
    if f.frameType = frameData then
      orRefuse (resultPacket session) (decrypted c session f.payload 256)
    else .awaitResult session
  | ph => ph

theorem frame_awaitKey (priv : Octets 21) (reply : Bytes) :
    frame c cfg devSerial ⟨frameCommand, reply⟩ (.awaitKey priv) =
      orRefuse .sendSeed (keyReply c priv reply) := by
  unfold frame
  exact if_pos rfl

theorem frame_awaitSeed (interim : Session) (reply : Bytes) :
    frame c cfg devSerial ⟨frameCommand, reply⟩ (.awaitSeed interim) =
      orRefuse .sendStatus (seedReply c cfg interim reply) := by
  unfold frame
  exact if_pos rfl

theorem frame_awaitStatus (session : Session) (reply : Bytes) :
    frame c cfg devSerial ⟨frameData, reply⟩ (.awaitStatus session) =
      orRefuse (statusPacket cfg devSerial session) (decrypted c session reply 256) := by
  unfold frame
  exact if_pos rfl

theorem frame_awaitResult (session : Session) (reply : Bytes) :
    frame c cfg devSerial ⟨frameData, reply⟩ (.awaitResult session) =
      orRefuse (resultPacket session) (decrypted c session reply 256) := by
  unfold frame
  exact if_pos rfl

/-- The frame that is due has been passed to the write. -/
def sent (err : EspErr) : Phase → Phase
  | .sendKey _ priv => if err = .ok then .awaitKey priv else .refused err
  | .sendSeed interim => if err = .ok then .awaitSeed interim else .refused err
  | .sendStatus session => if err = .ok then .awaitStatus session else .refused err
  | .sendAuth session => if err = .ok then .awaitResult session else .refused err
  | ph => ph

def due : Phase → Option Bytes
  | .sendKey ourPub _ => some (frameBytes frameCommand ([0x01, 0x00] ++ ourPub.1))
  | .sendSeed _ => some (frameBytes frameCommand [0x02])
  | .sendStatus session => some (packetFrame c session addrApp addrAuth 0x35 0x89 [])
  | .sendAuth session =>
    some (packetFrame c session addrApp addrAuth 0x35 0x86
      (hexPayload (c.md5 (credentials cfg devSerial)).1))
  | _ => none

def want : Phase → Option UInt8
  | .awaitKey _ | .awaitSeed _ => some frameCommand
  | .awaitStatus _ | .awaitResult _ => some frameData
  | _ => none

def waiting (ph : Phase) : Bool := ph.want.isSome

variable {c cfg devSerial} in
theorem frame_of_ne {ph : Phase} {frameType : UInt8} {f : Frame} (hw : ph.want = some frameType)
    (hf : f.frameType ≠ frameType) : ph.frame c cfg devSerial f = ph := by
  cases ph <;> cases hw <;> exact if_neg hf

/-- The automaton reads frames. -/
def reads (frames : List Frame) (ph : Phase) : Phase :=
  frames.foldl (fun ph f => ph.frame c cfg devSerial f) ph

/-- The automaton's step on an event of the code. -/
def event (ph : Phase) : Event Answer → Phase
  | ⟨.makeKey, keyPair⟩ => ph.keyed keyPair
  | ⟨.extracted f, _⟩ => ph.frame c cfg devSerial f
  | ⟨.bleWrite _, err⟩ => ph.sent err
  | _ => ph

end Phase

def phase (h : Hist) : Phase := h.foldl (Phase.event c cfg devSerial) .start

@[simp] theorem phase_nil : phase c cfg devSerial [] = .start := rfl

theorem phase_append (h es : Hist) : phase c cfg devSerial (h ++ es) =
    es.foldl (Phase.event c cfg devSerial) (phase c cfg devSerial h) := List.foldl_append

@[simp] theorem phase_snoc (h : Hist) (ev : Event Answer) : phase c cfg devSerial (h ++ [ev]) =
    (phase c cfg devSerial h).event c cfg devSerial ev := phase_append c cfg devSerial h [ev]

variable {c cfg devSerial}

@[simp] theorem reads_nil (ph : Phase) : ph.reads c cfg devSerial [] = ph := rfl

@[simp] theorem reads_cons (f : Frame) (frames : List Frame) (ph : Phase) :
    ph.reads c cfg devSerial (f :: frames) =
      (ph.frame c cfg devSerial f).reads c cfg devSerial frames := rfl

theorem reads_append (xs ys : List Frame) (ph : Phase) :
    ph.reads c cfg devSerial (xs ++ ys) =
      (ph.reads c cfg devSerial xs).reads c cfg devSerial ys := List.foldl_append

theorem frame_of_not_waiting {ph : Phase} (hwait : ph.waiting = false) (f : Frame) :
    ph.frame c cfg devSerial f = ph := by
  cases ph <;> first | rfl | cases hwait

theorem reads_of_not_waiting {ph : Phase} (hwait : ph.waiting = false) (frames : List Frame) :
    ph.reads c cfg devSerial frames = ph := by
  induction frames with
  | nil => rfl
  | cons f frames ih => rw [reads_cons, frame_of_not_waiting hwait, ih]

/-- A wait that skips frames of other types does not move the automaton. -/
theorem phase_skips {want : UInt8} {h h' : Hist} (hsk : Skips want h h')
    (hkeep : ∀ f : Frame, f.frameType ≠ want →
      (phase c cfg devSerial h).frame c cfg devSerial f = phase c cfg devSerial h) :
    phase c cfg devSerial h' = phase c cfg devSerial h := by
  obtain ⟨es, rfl, hes⟩ := hsk
  induction es using List.reverseRecOn with
  | nil => rw [List.append_nil]
  | append_singleton es ev ih =>
    have ih := ih fun ev' hev => hes ev' (List.mem_append_left _ hev)
    have hev := hes ev (List.mem_append_right _ (List.mem_singleton_self _))
    rw [← List.append_assoc, phase_snoc, ih]
    obtain ⟨e, a⟩ := ev
    cases e <;> first | rfl | exact hkeep _ hev | exact hev.elim

theorem phase_quiet {h h' : Hist} (hq : Quiet h h') :
    phase c cfg devSerial h' = phase c cfg devSerial h := by
  obtain ⟨es, rfl, hes⟩ := hq
  rw [phase_append]
  induction es with
  | nil => rfl
  | cons ev es ih =>
    have hev := hes ev (List.mem_cons_self ..)
    rw [List.foldl_cons]
    have hsame : (phase c cfg devSerial h).event c cfg devSerial ev = phase c cfg devSerial h := by
      obtain ⟨e, a⟩ := ev
      cases e <;> first | rfl | cases hev
    rw [hsame]
    exact ih fun ev' hmem => hes ev' (List.mem_cons_of_mem _ hmem)

/-! ## What the handshake code promises -/

variable (c cfg devSerial) in
/-- Keys are made first, frames are extracted and awaited in waiting phases only, what is extracted
are the frames of the bytes received, and what is written is due. -/
def handshakeContract (fuel : ℕ) : Contract Call Answer where
  env := hashEnv
  pre := fun h e =>
    match e with
    | .makeKey => phase c cfg devSerial h = .start
    | .extracted f => (phase c cfg devSerial h).waiting = true ∧
        extracted h ++ [f] <+: framesOf (received h)
    | .queueReceive _ => (phase c cfg devSerial h).waiting = true ∧ (Drained h ∨ Fault h)
    | .bleWrite data => (phase c cfg devSerial h).due c cfg devSerial = some data
    | _ => True
  out := fun h => fuel ≤ weight h

variable {fuel : ℕ}

theorem permits_handshake : Permits (handshakeContract c cfg devSerial fuel) := by
  rintro h (_ | _ | _ | _) he <;> trivial

theorem hashes_handshake : Hashes (handshakeContract c cfg devSerial fuel) := fun _ _ hans => hans

/-- Along every run the frames extracted are frames of the bytes received. -/
theorem extracted_prefix_framesOf {h : Hist}
    (hlog : Logged (handshakeContract c cfg devSerial fuel) h) :
    extracted h <+: framesOf (received h) := by
  induction h using List.reverseRecOn with
  | nil => exact List.nil_prefix
  | append_singleton h ev ih =>
    obtain ⟨e, a⟩ := ev
    have ih := ih hlog.of_append
    rw [extracted_append, received_append]
    cases e with
    | extracted f =>
      show extracted h ++ [f] <+: framesOf (received h ++ [])
      rw [List.append_nil]
      exact (hlog h _ [] rfl).1.2
    | _ =>
      show extracted h ++ [] <+: framesOf (received h ++ _)
      rw [List.append_nil]
      exact ih.trans (Scanner.items_prefix_append _ _)

variable (c cfg devSerial) in
/-- A wait of the handshake runs into its deadline. -/
def Expires (h : Hist) : Prop :=
  ∃ want h₁, (phase c cfg devSerial h₁).want = some want ∧ Overran want stepTimeoutMs h₁ h

variable (c cfg devSerial) in
/-- A wait of the handshake has run into its deadline. -/
def Expired (h : Hist) : Prop := ∃ h₁, Expires c cfg devSerial h₁ ∧ h₁ <+: h

variable (c cfg devSerial) in
/-- An error of the handshake: a fault, a timeout, or a refusal of the automaton. -/
def Refusal (err : EspErr) (h : Hist) : Prop :=
  err ≠ .ok ∧ (Fault h ∨ Expires c cfg devSerial h ∨ phase c cfg devSerial h = .refused err)

theorem Expires.expired {h : Hist} (hx : Expires c cfg devSerial h) : Expired c cfg devSerial h :=
  ⟨h, hx, List.prefix_rfl⟩

theorem refusal_of_fault {h : Hist} {err : EspErr} (hne : err ≠ .ok) (hf : Fault h) :
    Refusal c cfg devSerial err h :=
  ⟨hne, .inl hf⟩

theorem refusal_of_phase {h : Hist} {err : EspErr} (hne : err ≠ .ok)
    (hph : phase c cfg devSerial h = .refused err) : Refusal c cfg devSerial err h :=
  ⟨hne, .inr (.inr hph)⟩

/-! ## Building blocks of the steps -/

theorem Synced.event {h : Hist} {fb : Framebuf} {ev : Event Answer} (hs : Synced h fb)
    (hn : notifications [ev] = []) (hx : extracted [ev] = []) (hw : waits [ev] = 0) :
    Synced (h ++ [ev]) fb := by
  have hr : received [ev] = [] := by
    unfold received
    rw [hn, List.flatMap_nil]
  have hreads := hs.reads
  have hle := hs.length_le
  unfold weight at hle
  refine ⟨?_, ?_⟩
  · rw [received_append, extracted_append, hr, hx, List.append_nil, List.append_nil]
    exact hreads
  · unfold weight
    rw [received_append, waits_append, hr, hw, List.append_nil]
    exact hle

theorem wp_await {want : UInt8} {ph : Phase} {h : Hist} {fb : Framebuf}
    (hph : phase c cfg devSerial h = ph) (hwant : ph.want = some want) (hs : Synced h fb) :
    wp (handshakeContract c cfg devSerial fuel) (waitForFrame fuel fb want stepTimeoutMs)
      (fun r h' => phase c cfg devSerial h' = ph.frame c cfg devSerial ⟨want, r.1⟩ ∧
        Advance h h' fb r.2)
      (Refusal c cfg devSerial) h := by
  have hwait : ph.waiting = true := by
    unfold Phase.waiting
    rw [hwant]
    rfl
  have hsame : ∀ h', Skips want h h' → phase c cfg devSerial h' = ph := by
    intro h' hsk
    rw [phase_skips hsk (by rw [hph]; exact fun f => Phase.frame_of_ne hwant), hph]
  refine wp_waitForFrame permits_handshake hs ?_ ?_ ?_ ?_ ?_ ?_
  · intro h' f hsk hpre
    refine ⟨?_, hpre⟩
    rw [hsame h' hsk, hwait]
  · intro h' hfuel
    exact hfuel
  · intro h' t hsk hdr
    refine ⟨?_, hdr⟩
    rw [hsame h' hsk, hwait]
  · intro h' payload fb' hsk hadv
    refine ⟨?_, hadv⟩
    rw [phase_snoc, hsame h' hsk]
    rfl
  · intro h' hlate
    exact ⟨nofun, .inr (.inl ⟨want, h, by rw [hph, hwant], hlate⟩)⟩
  · intro h' _ hf
    exact refusal_of_fault nofun hf

theorem wp_sendDue {ph : Phase} {payload : Bytes} {h : Hist} {fb : Framebuf}
    (hph : phase c cfg devSerial h = ph) (hs : Synced h fb)
    (hfit : outerOverhead + payload.length ≤ 600)
    (hdue : ph.due c cfg devSerial = some (frameBytes frameCommand payload))
    (hfail : ∀ err, err ≠ .ok → ph.sent err = .refused err) :
    wp (handshakeContract c cfg devSerial fuel) (sendFrame frameCommand payload)
      (fun _ h' => phase c cfg devSerial h' = ph.sent .ok ∧ Synced h' fb)
      (Refusal c cfg devSerial) h := by
  refine wp_sendFrame hfit ?_ ?_ ?_
  · show (phase c cfg devSerial h).due c cfg devSerial = _
    rw [hph, hdue]
  · intro _
    refine ⟨?_, hs.event rfl rfl rfl⟩
    rw [phase_snoc, hph]
    rfl
  · intro err hne _
    refine refusal_of_phase hne ?_
    rw [phase_snoc, hph]
    exact hfail err hne

theorem wp_sendDuePacket {ph : Phase} {session : Session} {cmdId : UInt8} {payload : Bytes}
    {h : Hist} {fb : Framebuf} (hph : phase c cfg devSerial h = ph) (hs : Synced h fb)
    (hfit : payload.length ≤ 282)
    (hdue : ph.due c cfg devSerial =
      some (packetFrame c session addrApp addrAuth 0x35 cmdId payload))
    (hfail : ∀ err, err ≠ .ok → ph.sent err = .refused err) :
    wp (handshakeContract c cfg devSerial fuel)
      (sendInnerEncrypted c session addrApp addrAuth 0x35 cmdId payload)
      (fun _ h' => phase c cfg devSerial h' = ph.sent .ok ∧ Synced h' fb)
      (Refusal c cfg devSerial) h := by
  refine wp_sendInnerEncrypted permits_handshake hfit ?_ ?_ ?_ ?_
  · intro h' hq
    show (phase c cfg devSerial h').due c cfg devSerial = _
    rw [phase_quiet hq, hph, hdue]
  · intro h' hq _
    refine ⟨?_, (hs.quiet hq).event rfl rfl rfl⟩
    rw [phase_snoc, phase_quiet hq, hph]
    rfl
  · intro err h' hq hne _
    refine refusal_of_phase hne ?_
    rw [phase_snoc, phase_quiet hq, hph]
    exact hfail err hne
  · intro h' _ hf
    exact refusal_of_fault nofun hf.fault

/-! ## Step 1 -/

theorem keyReplyPub_length {reply peerPub : Bytes} (h : keyReplyPub reply = .ok peerPub) :
    peerPub.length = 40 := by
  unfold keyReplyPub at h
  dsimp only at h
  split_ifs at h with _ hsize hlen
  cases h
  rw [not_not.mp hsize] at hlen ⊢
  exact slice_length (by omega)

theorem keyReplyPub_error {reply : Bytes} {err : EspErr} (h : keyReplyPub reply = .error err) :
    err ≠ .ok := by
  unfold keyReplyPub at h
  dsimp only at h
  split_ifs at h <;> cases h <;> nofun

theorem wp_ecdhSharedSecret {C : Contract Call Answer} {priv : Octets 21} {peerPub : Bytes}
    {h : Hist} {Q : Octets 20 → Hist → Prop} {R : EspErr → Hist → Prop} (hperm : Permits C)
    (hlen : peerPub.length = 40)
    (hok : c.validPublicKey peerPub = true → ∀ h', Quiet h h' → Q (c.sharedSecret peerPub priv) h')
    (hinvalid : c.validPublicKey peerPub = false → R .invalidArg h)
    (hfail : ∀ h', Quiet h h' → Fault h' → R .fail h') :
    wp C (ecdhSharedSecret c priv peerPub) Q R h := by
  unfold ecdhSharedSecret
  rw [if_neg (not_not_intro hlen)]
  cases hv : c.validPublicKey peerPub with
  | false => exact hinvalid hv
  | true =>
    rw [if_neg nofun]
    refine wp_do.mpr (wp_silent hperm rfl ?_)
    rintro (_ | _) -
    · exact hfail _ (quiet_snoc rfl _) (fault_of_failed rfl)
    · exact hok hv _ (quiet_snoc rfl _)

theorem wp_ecdhGenKeypair {h : Hist} {fb : Framebuf} (hph : phase c cfg devSerial h = .start)
    (hs : Synced h fb) :
    wp (handshakeContract c cfg devSerial fuel) ecdhGenKeypair
      (fun kp h' => phase c cfg devSerial h' = .sendKey kp.1 kp.2 ∧ Synced h' fb)
      (Refusal c cfg devSerial) h := by
  unfold ecdhGenKeypair
  refine wp_do.mpr (wp_alloc permits_handshake ?_ ?_)
  · intro h₁ hq₁
    have hph₁ : phase c cfg devSerial h₁ = .start := by rw [phase_quiet hq₁, hph]
    refine wp_do.mpr ⟨hph₁, ?_⟩
    rintro (_ | ⟨ourPub, priv⟩) -
    · exact refusal_of_fault nofun (fault_of_failed rfl)
    · refine ⟨?_, (hs.quiet hq₁).event rfl rfl rfl⟩
      rw [phase_snoc, hph₁]
      rfl
  · intro h₁ _ hf
    exact refusal_of_fault nofun hf

theorem wp_exchangeKeys {h : Hist} {fb : Framebuf} (hph : phase c cfg devSerial h = .start)
    (hs : Synced h fb) :
    wp (handshakeContract c cfg devSerial fuel) (exchangeKeys c fuel fb)
      (fun r h' => phase c cfg devSerial h' = .sendSeed r.1 ∧ Synced h' r.2)
      (Refusal c cfg devSerial) h := by
  unfold exchangeKeys
  refine wp_do.mpr (wp_mono (wp_ecdhGenKeypair hph hs) ?_ fun _ _ => id)
  rintro ⟨ourPub, priv⟩ h₁ ⟨hph₁, hs₁⟩
  have hfit : outerOverhead + ([0x01, 0x00] ++ ourPub.1).length ≤ 600 := by
    rw [List.length_append, ourPub.2]
    decide
  refine wp_do.mpr (wp_mono (wp_sendDue hph₁ hs₁ hfit rfl fun err hne => if_neg hne) ?_
    fun _ _ => id)
  rintro - h₂ ⟨hph₂, hs₂⟩
  change phase c cfg devSerial h₂ = .awaitKey priv at hph₂
  refine wp_do.mpr (wp_mono (wp_await hph₂ rfl hs₂) ?_ fun _ _ => id)
  rintro ⟨reply, fb₃⟩ h₃ ⟨hph₃, hadv⟩
  rw [Phase.frame_awaitKey] at hph₃
  unfold keyReply at hph₃
  refine wp_do.mpr (wp_lift (fun peerPub hpub => ?_) fun err herr => ?_)
  · rw [hpub] at hph₃
    refine wp_do.mpr (wp_ecdhSharedSecret permits_handshake (keyReplyPub_length hpub) ?_ ?_ ?_)
    · intro hvalid h₄ hq₄
      refine wp_do.mpr (wp_river2Md5 permits_handshake hashes_handshake fun h₅ hq₅ => ?_)
      have hq := hq₄.trans hq₅
      refine ⟨?_, hadv.synced.quiet hq⟩
      rw [phase_quiet hq, hph₃]
      show Phase.orRefuse _ (if c.validPublicKey peerPub = false then _ else _) = _
      rw [hvalid, if_neg nofun]
      rfl
    · intro hinvalid
      refine refusal_of_phase nofun ?_
      rw [hph₃]
      show Phase.orRefuse _ (if c.validPublicKey peerPub = false then _ else _) = _
      rw [if_pos hinvalid]
      rfl
    · intro h₄ _ hf
      exact refusal_of_fault nofun hf
  · rw [herr] at hph₃
    exact refusal_of_phase (keyReplyPub_error herr) hph₃

/-! ## Step 2 -/

theorem seedReplyBody_error {reply : Bytes} {err : EspErr} (h : seedReplyBody reply = .error err) :
    err ≠ .ok := by
  unfold seedReplyBody at h
  split_ifs at h
  cases h
  nofun

theorem sessionKeyData_error {seed srand : Bytes} {err : EspErr}
    (h : sessionKeyData cfg seed srand = .error err) : err ≠ .ok := by
  unfold sessionKeyData at h
  dsimp only at h
  split_ifs at h
  cases h
  nofun

theorem decrypted_error {session : Session} {b : Bytes} {outCap : ℕ} {err : EspErr}
    (h : decrypted c session b outCap = .error err) : err ≠ .ok := by
  unfold decrypted at h
  split_ifs at h
  cases h
  nofun

theorem wp_requestSessionKey {interim : Session} {h : Hist} {fb : Framebuf}
    (hph : phase c cfg devSerial h = .sendSeed interim) (hs : Synced h fb) :
    wp (handshakeContract c cfg devSerial fuel) (requestSessionKey c cfg fuel interim fb)
      (fun r h' => phase c cfg devSerial h' = .sendStatus r.1 ∧ Synced h' r.2)
      (Refusal c cfg devSerial) h := by
  unfold requestSessionKey
  refine wp_do.mpr (wp_mono (wp_sendDue hph hs (by decide) rfl fun err hne => if_neg hne) ?_
    fun _ _ => id)
  rintro - h₁ ⟨hph₁, hs₁⟩
  change phase c cfg devSerial h₁ = .awaitSeed interim at hph₁
  refine wp_do.mpr (wp_mono (wp_await hph₁ rfl hs₁) ?_ fun _ _ => id)
  rintro ⟨reply, fb₂⟩ h₂ ⟨hph₂, hadv⟩
  rw [Phase.frame_awaitSeed] at hph₂
  unfold seedReply at hph₂
  refine wp_do.mpr (wp_lift (fun body hbody => ?_) fun err herr => ?_)
  · rw [hbody] at hph₂
    replace hph₂ : phase c cfg devSerial h₂ = Phase.orRefuse .sendStatus
      (decrypted c interim body 64 >>= seedSession c cfg interim) := hph₂
    refine wp_do.mpr (wp_sessionDecrypt permits_handshake ?_ ?_ ?_)
    · intro plain h₃ hq₃ hplain
      rw [hplain] at hph₂
      replace hph₂ : phase c cfg devSerial h₂ =
        Phase.orRefuse .sendStatus (seedSession c cfg interim plain) := hph₂
      unfold seedSession at hph₂
      by_cases hshort : plain.length < 18
      · rw [if_pos hshort]
        rw [if_pos hshort] at hph₂
        exact refusal_of_phase nofun ((phase_quiet hq₃).trans hph₂)
      rw [if_neg hshort]
      rw [if_neg hshort] at hph₂
      unfold deriveSessionKey
      refine wp_do.mpr (wp_do.mpr (wp_lift (fun data hdata => ?_) fun err herr => ?_))
      · rw [hdata] at hph₂
        refine wp_river2Md5 permits_handshake hashes_handshake fun h₄ hq₄ => ?_
        have hq := hq₃.trans hq₄
        exact ⟨(phase_quiet hq).trans hph₂, hadv.synced.quiet hq⟩
      · rw [herr] at hph₂
        exact refusal_of_phase (sessionKeyData_error herr) ((phase_quiet hq₃).trans hph₂)
    · intro err h₃ hq₃ herr
      rw [herr] at hph₂
      exact refusal_of_phase (decrypted_error herr) ((phase_quiet hq₃).trans hph₂)
    · intro h₃ _ hf
      exact refusal_of_fault nofun hf.fault
  · rw [herr] at hph₂
    exact refusal_of_phase (seedReplyBody_error herr) hph₂

/-! ## Steps 3 and 4 -/

/-- Waiting for a packet in step 3 or 4: the packet's bytes, or a refusal. -/
theorem wp_awaitPacket {ph : Phase} {session : Session} {next : Bytes → Phase} {h : Hist}
    {fb : Framebuf} {α : Type} {k : Bytes × Framebuf → Bytes → Fw α} {Q : α → Hist → Prop}
    (hph : phase c cfg devSerial h = ph) (hwant : ph.want = some frameData) (hs : Synced h fb)
    (hnext : ∀ payload, ph.frame c cfg devSerial ⟨frameData, payload⟩ =
      Phase.orRefuse next (decrypted c session payload 256))
    (hQ : ∀ r plain h', phase c cfg devSerial h' = next plain → Advance h h' fb r.2 →
      wp (handshakeContract c cfg devSerial fuel) (k r plain) Q (Refusal c cfg devSerial) h') :
    wp (handshakeContract c cfg devSerial fuel)
      (do
        let r ← waitForFrame fuel fb frameData stepTimeoutMs
        let plain ← sessionDecrypt c session r.1 256
        k r plain)
      Q (Refusal c cfg devSerial) h := by
  refine wp_do.mpr (wp_mono (wp_await hph hwant hs) ?_ fun _ _ => id)
  rintro ⟨reply, fb₁⟩ h₁ ⟨hph₁, hadv⟩
  rw [hnext] at hph₁
  refine wp_do.mpr (wp_sessionDecrypt permits_handshake ?_ ?_ ?_)
  · intro plain h₂ hq₂ hplain
    rw [hplain] at hph₁
    refine hQ (reply, fb₁) plain h₂ ((phase_quiet hq₂).trans hph₁) ⟨hadv.synced.quiet hq₂, ?_⟩
    rw [weight_quiet hq₂]
    exact hadv.lt
  · intro err h₂ hq₂ herr
    rw [herr] at hph₁
    exact refusal_of_phase (decrypted_error herr) ((phase_quiet hq₂).trans hph₁)
  · intro h₂ _ hf
    exact refusal_of_fault nofun hf.fault

theorem wp_statusRound {session : Session} {h : Hist} {fb : Framebuf}
    (hph : phase c cfg devSerial h = .awaitStatus session) (hs : Synced h fb) :
    wp (handshakeContract c cfg devSerial fuel) (statusRound c fuel session fb)
      (fun r h' =>
        match r with
        | .inl fb' => phase c cfg devSerial h' = .awaitStatus session ∧ Advance h h' fb fb'
        | .inr fb' => Synced h' fb' ∧
            phase c cfg devSerial h' =
              if (credentials cfg devSerial).length > md5InCap then .refused .invalidSize
              else .sendAuth session)
      (Refusal c cfg devSerial) h := by
  refine wp_awaitPacket hph rfl hs (Phase.frame_awaitStatus c cfg devSerial session) ?_
  rintro ⟨reply, fb'⟩ plain h' hph' hadv
  unfold statusPacket at hph'
  dsimp only
  cases hp : innerParse plain with
  | none =>
    rw [hp] at hph'
    exact ⟨hph', hadv⟩
  | some pkt =>
    rw [hp] at hph'
    dsimp only at hph' ⊢
    by_cases hst : isStatusReply pkt
    · rw [if_pos hst] at hph' ⊢
      exact ⟨hadv.synced, hph'⟩
    · rw [if_neg hst] at hph' ⊢
      exact ⟨hph', hadv⟩

/-- A loop over the packets of a phase: its rounds either go on in the phase or end it. -/
theorem wp_packetLoop {ph : Phase} {body : Framebuf → Fw (Framebuf ⊕ Framebuf)}
    {Q : Framebuf → Hist → Prop}
    (hbody : ∀ fb h, phase c cfg devSerial h = ph → Synced h fb →
      wp (handshakeContract c cfg devSerial fuel) (body fb)
        (fun r h' =>
          match r with
          | .inl fb' => phase c cfg devSerial h' = ph ∧ Advance h h' fb fb'
          | .inr fb' => Q fb' h')
        (Refusal c cfg devSerial) h)
    {h : Hist} {fb : Framebuf} (hph : phase c cfg devSerial h = ph) (hs : Synced h fb) :
    wp (handshakeContract c cfg devSerial fuel) (Prog.loop body fuel fb) Q
      (Refusal c cfg devSerial) h := by
  refine wp_loop (fun n fb' h' => phase c cfg devSerial h' = ph ∧ Synced h' fb' ∧
    fuel + fb'.data.length ≤ n + weight h') ?_ ?_ ?_
  · rintro fb' h' ⟨-, -, hfuel⟩
    show fuel ≤ weight h'
    omega
  · rintro n fb₁ h₁ ⟨hph₁, hs₁, hfuel⟩
    refine wp_mono (hbody fb₁ h₁ hph₁ hs₁) ?_ fun _ _ => id
    rintro (fb₂ | fb₂) h₂ hr
    · have hlt := hr.2.lt
      exact ⟨hr.1, hr.2.synced, by omega⟩
    · exact hr
  · have hle := hs.length_le
    exact ⟨hph, hs, by omega⟩

theorem wp_wakeAuthStatus {session : Session} {h : Hist} {fb : Framebuf}
    (hph : phase c cfg devSerial h = .sendStatus session) (hs : Synced h fb) :
    wp (handshakeContract c cfg devSerial fuel) (wakeAuthStatus c fuel session fb)
      (fun fb' h' => Synced h' fb' ∧
        phase c cfg devSerial h' =
          if (credentials cfg devSerial).length > md5InCap then .refused .invalidSize
          else .sendAuth session)
      (Refusal c cfg devSerial) h := by
  unfold wakeAuthStatus
  refine wp_do.mpr (wp_mono (wp_sendDuePacket hph hs (by decide) rfl fun err hne => if_neg hne) ?_
    fun _ _ => id)
  rintro - h₁ ⟨hph₁, hs₁⟩
  exact wp_packetLoop (fun fb h => wp_statusRound) hph₁ hs₁

theorem wp_resultRound {session : Session} {h : Hist} {fb : Framebuf}
    (hph : phase c cfg devSerial h = .awaitResult session) (hs : Synced h fb) :
    wp (handshakeContract c cfg devSerial fuel) (resultRound c fuel session fb)
      (fun r h' =>
        match r with
        | .inl fb' => phase c cfg devSerial h' = .awaitResult session ∧ Advance h h' fb fb'
        | .inr fb' => phase c cfg devSerial h' = .accepted session ∧ Synced h' fb')
      (Refusal c cfg devSerial) h := by
  refine wp_awaitPacket hph rfl hs (Phase.frame_awaitResult c cfg devSerial session) ?_
  rintro ⟨reply, fb'⟩ plain h' hph' hadv
  unfold resultPacket at hph'
  dsimp only
  cases hp : innerParse plain with
  | none =>
    rw [hp] at hph'
    exact ⟨hph', hadv⟩
  | some pkt =>
    rw [hp] at hph'
    dsimp only at hph' ⊢
    by_cases hok : authVerdict pkt = .ok
    · rw [if_pos hok] at hph' ⊢
      exact ⟨hph', hadv.synced⟩
    · rw [if_neg hok] at hph' ⊢
      exact refusal_of_phase hok hph'

theorem wp_autoAuthenticate {session : Session} {h : Hist} {fb : Framebuf}
    (hph : phase c cfg devSerial h =
      if (credentials cfg devSerial).length > md5InCap then .refused .invalidSize
      else .sendAuth session) (hs : Synced h fb) :
    wp (handshakeContract c cfg devSerial fuel) (autoAuthenticate c cfg devSerial fuel session fb)
      (fun fb' h' => phase c cfg devSerial h' = .accepted session ∧ Synced h' fb')
      (Refusal c cfg devSerial) h := by
  have hlen : (cString cfg.efUser.1).length + (cString devSerial).length =
      (credentials cfg devSerial).length := List.length_append.symm
  unfold autoAuthenticate
  dsimp only
  rw [hlen]
  by_cases hlong : (credentials cfg devSerial).length > md5InCap
  · rw [if_pos hlong] at hph ⊢
    exact refusal_of_phase nofun hph
  rw [if_neg hlong] at hph ⊢
  refine wp_do.mpr (wp_river2Md5 permits_handshake hashes_handshake fun h₁ hq₁ => ?_)
  refine wp_do.mpr (wp_mono (wp_sendDuePacket ((phase_quiet hq₁).trans hph) (hs.quiet hq₁)
    (by rw [hexPayload_length]; decide) rfl fun err hne => if_neg hne) ?_ fun _ _ => id)
  rintro - h₂ ⟨hph₂, hs₂⟩
  exact wp_packetLoop (fun fb h => wp_resultRound) hph₂ hs₂

/-! ## The whole handshake -/

/-- **The code follows the automaton.** -/
theorem wp_authBody :
    wp (handshakeContract c cfg devSerial fuel) (authBody c cfg devSerial fuel)
      (fun r h => phase c cfg devSerial h = .accepted r.1 ∧ Synced h r.2)
      (Refusal c cfg devSerial) [] := by
  unfold authBody
  refine wp_do.mpr (wp_mono (wp_exchangeKeys rfl synced_init) ?_ fun _ _ => id)
  rintro ⟨interim, fb₁⟩ h₁ ⟨hph₁, hs₁⟩
  refine wp_do.mpr (wp_mono (wp_requestSessionKey hph₁ hs₁) ?_ fun _ _ => id)
  rintro ⟨session, fb₂⟩ h₂ ⟨hph₂, hs₂⟩
  refine wp_do.mpr (wp_mono (wp_wakeAuthStatus hph₂ hs₂) ?_ fun _ _ => id)
  rintro fb₃ h₃ ⟨hs₃, hph₃⟩
  refine wp_do.mpr (wp_mono (wp_autoAuthenticate hph₃ hs₃) ?_ fun _ _ => id)
  rintro fb₄ h₄ hr
  exact hr

/-- How `river2_auth_run` ends: accepted with the session copied out, or with an error and
`*out_session` as it was. -/
theorem wp_authRun {outSession : Option Session} :
    wp (handshakeContract c cfg devSerial fuel) (authRun c cfg devSerial fuel outSession)
      (fun r h =>
        (∃ session fb, r = (.ok, some session) ∧ phase c cfg devSerial h = .accepted session ∧
          Synced h fb) ∨
        (r.2 = outSession ∧ Refusal c cfg devSerial r.1 h))
      (fun _ _ => False) [] := by
  unfold authRun
  refine wp_do.mpr (wp_attempt.mpr (wp_mono wp_authBody ?_ ?_))
  · rintro ⟨session, fb⟩ h ⟨hph, hs⟩
    exact .inl ⟨session, fb, rfl, hph, hs⟩
  · intro err h href
    exact .inr ⟨if_neg href.1, href⟩

theorem logged_authRun {outSession : Option Session} {h : Hist}
    {q : Fw (EspErr × Option Session)}
    (hrun : Reach hashEnv ([], authRun c cfg devSerial fuel outSession) (h, q)) :
    Logged (handshakeContract c cfg devSerial fuel) h :=
  logged_reach wp_authRun hrun logged_nil

end River2
