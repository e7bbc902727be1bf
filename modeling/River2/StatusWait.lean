import River2.Stream

/-!
# Waiting for the status reply

While `river2_auth_run` awaits the reply to its wake-up packet the device may send other frames.
`status_wait_iff` says which of them the outcome does not depend on.
-/

namespace River2

open Prog

variable {c : Crypto} {cfg : EcoflowConfig} {devSerial : Bytes} {sc : Scenario}
  {outSession : Option Session}

/-- The decryption of a data frame is a packet that step 3 accepts. -/
def IsStatusFrame (c : Crypto) (session : Session) (f : Frame) : Prop :=
  f.frameType = frameData ∧
    ∃ pkt, innerParse (opened c session f.payload) = some pkt ∧ isStatusReply pkt

theorem frame_unrelated {session : Session} {f : Frame} (hno : ¬ IsStatusFrame c session f)
    (hfit : f.frameType = frameData → f.payload.length < 272) :
    (Phase.awaitStatus session).frame c cfg devSerial f = .awaitStatus session := by
  by_cases hty : f.frameType = frameData
  · obtain ⟨frameType, payload⟩ := f
    obtain rfl : frameType = frameData := hty
    have hlen : payload.length < 272 := hfit rfl
    have hd : decrypted c session payload 256 = .ok (opened c session payload) := by
      unfold decrypted
      rw [if_neg (by omega)]
    rw [Phase.frame_awaitStatus, hd]
    show statusPacket cfg devSerial session (opened c session payload) = _
    unfold statusPacket
    cases hp : innerParse (opened c session payload) with
    | none => rfl
    | some pkt =>
      dsimp only
      rw [if_neg fun hst => hno ⟨rfl, pkt, hp, hst⟩]
  · exact Phase.frame_of_ne rfl hty

theorem frame_oversized {session : Session} {f : Frame} (hty : f.frameType = frameData)
    (hlong : 272 ≤ f.payload.length) :
    (Phase.awaitStatus session).frame c cfg devSerial f = .refused .invalidSize := by
  obtain ⟨frameType, payload⟩ := f
  obtain rfl : frameType = frameData := hty
  have hlong : 272 ≤ payload.length := hlong
  rw [Phase.frame_awaitStatus]
  unfold decrypted
  rw [if_pos (by omega)]
  rfl

/-- **Unrelated traffic while the status reply is awaited.** A frame that is no status reply,
inserted at a frame boundary in step 3, leaves the result of every handshake as it is if and only if
it is no data frame of 272 or more payload bytes. Such a frame ends every handshake with
`ESP_ERR_INVALID_SIZE`. In a `Scenario` the key pair, the bytes and the status of every write are
given, and every other call succeeds, the hashes and the key agreement too. -/
theorem status_wait_iff {s₁ x : Bytes} {f : Frame} {session : Session}
    (hboundary : frameScanner.rest s₁ = [])
    (hstep : phaseAfter c cfg devSerial sc (framesOf s₁) = .awaitStatus session)
    (hx : frameLook x = .emit f x.length) (hno : ¬ IsStatusFrame c session f) :
    ((∀ s₂ ns ns', Cut ns (s₁ ++ s₂) → Cut ns' (s₁ ++ x ++ s₂) → ∀ r,
      Outcome c cfg devSerial { sc with stream := ns } outSession r ↔
        Outcome c cfg devSerial { sc with stream := ns' } outSession r) ↔
      (f.frameType = frameData → f.payload.length < 272)) ∧
    (f.frameType = frameData → 272 ≤ f.payload.length → ∀ s₂ ns', Cut ns' (s₁ ++ x ++ s₂) → ∀ r,
      Outcome c cfg devSerial { sc with stream := ns' } outSession r ↔
        r = (.invalidSize, outSession)) := by
  have hwithout : ∀ s₂ ns, Cut ns (s₁ ++ s₂) → ∀ r,
      Outcome c cfg devSerial { sc with stream := ns } outSession r ↔
        ((Phase.awaitStatus session).follow c cfg devSerial sc (framesOf s₂)).result outSession =
          some r := by
    intro s₂ ns hcut r
    rw [outcome_iff, hcut.bytes_eq, framesOf_append hboundary, phaseAfter_append]
    rw [← hstep]
    rfl
  have hwith : ∀ s₂ ns', Cut ns' (s₁ ++ x ++ s₂) → ∀ r,
      Outcome c cfg devSerial { sc with stream := ns' } outSession r ↔
        ((((Phase.awaitStatus session).frame c cfg devSerial f).settle sc).follow c cfg devSerial
          sc (framesOf s₂)).result outSession = some r := by
    intro s₂ ns' hcut r
    rw [List.append_assoc] at hcut
    rw [hwithout _ _ hcut, framesOf_frame_append hx, follow_cons]
  have hlong : f.frameType = frameData → 272 ≤ f.payload.length → ∀ s₂ ns',
      Cut ns' (s₁ ++ x ++ s₂) → ∀ r,
        Outcome c cfg devSerial { sc with stream := ns' } outSession r ↔
          r = (.invalidSize, outSession) := by
    intro hty hlen s₂ ns' hcut r
    have hres : ((Phase.refused EspErr.invalidSize).settle sc).result outSession =
        some (.invalidSize, outSession) := rfl
    rw [hwith s₂ ns' hcut, frame_oversized hty hlen, follow_of_result hres, hres, Option.some_inj,
      eq_comm]
  refine ⟨⟨fun hsame hty => ?_, fun hfit => ?_⟩, hlong⟩
  · -- an oversized frame ends a handshake that would go on waiting
    by_contra hlen
    obtain ⟨ns, hcut⟩ := exists_cut (s₁ ++ [])
    obtain ⟨ns', hcut'⟩ := exists_cut (s₁ ++ x ++ [])
    have hout := (hlong hty (by omega) [] ns' hcut' _).mpr rfl
    have hwait := (hwithout [] ns hcut _).mp ((hsame [] ns ns' hcut hcut' _).mpr hout)
    rw [framesOf_nil] at hwait
    cases hwait
  · intro s₂ ns ns' hcut hcut' r
    rw [hwithout s₂ ns hcut, hwith s₂ ns' hcut', frame_unrelated hno hfit]
    rfl

/-! ## Recorded streams -/

namespace Sample

/-- A data frame whose payload the decryption buffer cannot hold. -/
def oversizedWire : WireFrame where
  frameType := frameData
  payload := List.replicate 272 0
  type_lt := by decide
  length_le := by rw [List.length_replicate]; decide

/-- A data frame with a packet of the PD board. -/
def heartbeatWire : WireFrame where
  frameType := frameData
  payload := sealed crypto session (innerBytes addrPd addrApp cmdsetHeartbeat cmdidHeartbeat [80])
  type_lt := by decide
  length_le := by rw [sealed_length]; decide

def scenario : Scenario := ⟨(ourPub, priv), fun _ => .ok, []⟩

/-- One notification for each frame. -/
def cut (frames : List WireFrame) : List Bytes := frames.map WireFrame.encode

end Sample

theorem drain_cut (frames : List WireFrame) :
    framesOf (Sample.cut frames).flatten = frames.map WireFrame.toFrame ∧
      frameScanner.rest (Sample.cut frames).flatten = [] :=
  Prod.mk.inj (drain_wire frames)

/-- A heartbeat that arrives while the recorded handshake awaits the status reply. -/
theorem status_wait_iff_heartbeat :
    let s₁ := (Sample.cut [Sample.keyReplyWire, Sample.seedReplyWire]).flatten
    let f := Sample.heartbeatWire
    innerParse (opened Sample.crypto Sample.session f.payload) =
      some ⟨addrPd, addrApp, cmdsetHeartbeat, cmdidHeartbeat, [80]⟩ ∧
    ((∀ s₂ ns ns', Cut ns (s₁ ++ s₂) → Cut ns' (s₁ ++ f.encode ++ s₂) → ∀ r,
      Outcome Sample.crypto Sample.config Sample.config.efSerial.1
          { Sample.scenario with stream := ns } none r ↔
        Outcome Sample.crypto Sample.config Sample.config.efSerial.1
          { Sample.scenario with stream := ns' } none r) ↔
      (f.frameType = frameData → f.payload.length < 272)) := by
  intro s₁ f
  have hparse : innerParse (opened Sample.crypto Sample.session f.payload) =
      some ⟨addrPd, addrApp, cmdsetHeartbeat, cmdidHeartbeat, [80]⟩ := by
    decide +kernel
  have hdrain := drain_cut [Sample.keyReplyWire, Sample.seedReplyWire]
  have hlook := frameLook_encode f []
  rw [List.append_nil] at hlook
  have hphase : phaseAfter Sample.crypto Sample.config Sample.config.efSerial.1 Sample.scenario
      (framesOf s₁) = .awaitStatus Sample.session := by
    rw [hdrain.1]
    decide +kernel
  refine ⟨hparse, (status_wait_iff hdrain.2 hphase hlook ?_).1⟩
  rintro ⟨-, pkt, hp, hst⟩
  have heq : some _ = some pkt := hparse.symm.trans hp
  cases heq
  exact absurd hst.1 (by decide)

/-- A data frame with 272 zero bytes, which decrypt to no packet, turns the recorded handshake from
`ESP_OK` into `ESP_ERR_INVALID_SIZE`. -/
theorem status_wait_aborts :
    let s₁ := (Sample.cut [Sample.keyReplyWire, Sample.seedReplyWire]).flatten
    let s₂ := (Sample.cut [Sample.statusReplyWire, Sample.authOkWire]).flatten
    let ns := Sample.cut
      [Sample.keyReplyWire, Sample.seedReplyWire, Sample.statusReplyWire, Sample.authOkWire]
    let ns' := Sample.cut [Sample.keyReplyWire, Sample.seedReplyWire, Sample.oversizedWire,
      Sample.statusReplyWire, Sample.authOkWire]
    (frameScanner.rest s₁ = [] ∧ phaseAfter Sample.crypto Sample.config Sample.config.efSerial.1
        Sample.scenario (framesOf s₁) = .awaitStatus Sample.session ∧
      frameLook Sample.oversizedWire.encode =
        .emit Sample.oversizedWire.toFrame Sample.oversizedWire.encode.length ∧
      ¬ IsStatusFrame Sample.crypto Sample.session Sample.oversizedWire.toFrame ∧
      Cut ns (s₁ ++ s₂) ∧ Cut ns' (s₁ ++ Sample.oversizedWire.encode ++ s₂)) ∧
    Outcome Sample.crypto Sample.config Sample.config.efSerial.1
      { Sample.scenario with stream := ns } none (.ok, some Sample.session) ∧
    Outcome Sample.crypto Sample.config Sample.config.efSerial.1
      { Sample.scenario with stream := ns' } none (.invalidSize, none) ∧
    ¬ Outcome Sample.crypto Sample.config Sample.config.efSerial.1
      { Sample.scenario with stream := ns' } none (.ok, some Sample.session) := by
  intro s₁ s₂ ns ns'
  have hcut : Cut ns (s₁ ++ s₂) := ⟨by decide +kernel, by decide +kernel⟩
  have hcut' : Cut ns' (s₁ ++ Sample.oversizedWire.encode ++ s₂) :=
    ⟨by decide +kernel, by decide +kernel⟩
  have hdrain₁ := drain_cut [Sample.keyReplyWire, Sample.seedReplyWire]
  have hlook := frameLook_encode Sample.oversizedWire []
  rw [List.append_nil] at hlook
  refine ⟨⟨hdrain₁.2, ?_, hlook, ?_, hcut, hcut'⟩, ?_, ?_, ?_⟩
  · rw [hdrain₁.1]
    decide +kernel
  · rintro ⟨-, pkt, hp, -⟩
    have hnone : innerParse (opened Sample.crypto Sample.session
        Sample.oversizedWire.payload) = none := by decide +kernel
    rw [hnone] at hp
    cases hp
  · rw [outcome_iff, hcut.bytes_eq, ← hcut.2, (drain_cut _).1]
    decide +kernel
  · rw [outcome_iff, hcut'.bytes_eq, ← hcut'.2, (drain_cut _).1]
    decide +kernel
  · rw [outcome_iff, hcut'.bytes_eq, ← hcut'.2, (drain_cut _).1]
    decide +kernel

end River2
