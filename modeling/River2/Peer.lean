import River2.Stream

/-!
# An honest device

The other party of the handshake, from §3 of the protocol document: it reads the frames written to
it, answers each request, and may send packets of its own once the session exists.

1. `Peer.hear` is the device's step, `Peer.after` its state and its frames after the frames written.
2. `Peer.phaseAfter_frames`: where the automaton stands behind the device's frames.
3. `handshake_agrees`: whatever fails, `ESP_OK` means that device and firmware hold one session.
4. `handshake_completes`: if nothing fails and no deadline passes, the handshake succeeds, however
   the device's bytes are cut and whenever they arrive.
-/

namespace River2

open Prog

variable (c : Crypto) (cfg : EcoflowConfig) (devSerial : Bytes)

/-! ## The device -/

/-- The frame of a sealed packet. -/
def sealedFrame (session : Session) (pkt : InnerPacket) : Frame :=
  ⟨frameData, sealed c session (innerBytes pkt.src pkt.dst pkt.cmdSet pkt.cmdId pkt.payload)⟩

/-- The packet in a frame, as the document decodes it. -/
def packetIn (session : Session) (f : Frame) : Option InnerPacket :=
  if f.frameType = frameData then innerParse (opened c session f.payload) else none

/-- What a device brings to a handshake: its key pair, the two bytes of its key reply behind the
type, what it draws for the session key, its replies to the two packets, and the packets it sends on
its own before and behind its status reply. -/
structure Peer where
  keyPair : Octets 40 × Octets 21
  kind : UInt8
  curveType : UInt8
  sRand : Octets 16
  seed : Octets 2
  early : List InnerPacket
  status : InnerPacket
  late : List InnerPacket
  verdict : InnerPacket

/-- Where the device stands: it has seen no key, an app's key, the session-key request, the wake-up,
or the credentials. -/
inductive PeerState where
  | fresh
  | keyed (appPub : Octets 40)
  | seeded (session : Session)
  | woken (session : Session)
  | done (session : Session)
  deriving DecidableEq

namespace Peer

variable (p : Peer)

/-- The place of the seed in the lookup table. -/
def pos : ℕ := (p.seed.1.getD 0 0).toNat * 0x10 + (p.seed.1.getD 1 0 - 1).toNat * 0x100

/-- The interim cipher. -/
def interim (appPub : Octets 40) : Session :=
  interimOf (c.sharedSecret appPub.1 p.keyPair.2) (c.md5 (c.sharedSecret appPub.1 p.keyPair.2).1)

/-- The final cipher. -/
def session (appPub : Octets 40) : Session :=
  ⟨c.md5 (slice cfg.lookupTable.1 p.pos 16 ++ p.sRand.1), (p.interim c appPub).iv⟩

def keyAnswer : Frame := ⟨frameCommand, [0x01, p.kind, p.curveType] ++ p.keyPair.1.1⟩

def seedAnswer (appPub : Octets 40) : Frame :=
  ⟨frameCommand, 0x02 :: sealed c (p.interim c appPub) (p.sRand.1 ++ p.seed.1)⟩

/-- The packet of the wake-up. -/
def wakeUp : InnerPacket := ⟨addrApp, addrAuth, 0x35, 0x89, []⟩

/-- The packet with the credentials. -/
def login : InnerPacket :=
  ⟨addrApp, addrAuth, 0x35, 0x86, hexPayload (c.md5 (credentials cfg devSerial)).1⟩

/-- The device's step on the frames of a write. -/
def hear (s : PeerState) (w : Bytes) : PeerState × List Frame :=
  match s, framesOf w with
  | .fresh, [f] =>
    if hkey : f.frameType = frameCommand ∧ f.payload.take 2 = [0x01, 0x00] ∧
        (f.payload.drop 2).length = 40 then
      (.keyed ⟨f.payload.drop 2, hkey.2.2⟩, [p.keyAnswer])
    else (.fresh, [])
  | .keyed appPub, [f] =>
    if f = ⟨frameCommand, [0x02]⟩ then
      (.seeded (p.session c cfg appPub),
        p.seedAnswer c appPub :: p.early.map (sealedFrame c (p.session c cfg appPub)))
    else (.keyed appPub, [])
  | .seeded s, [f] =>
    if packetIn c s f = some wakeUp then
      (.woken s, sealedFrame c s p.status :: p.late.map (sealedFrame c s))
    else (.seeded s, [])
  | .woken s, [f] =>
    if packetIn c s f = some (login c cfg devSerial) then (.done s, [sealedFrame c s p.verdict])
    else (.woken s, [])
  | s, _ => (s, [])

/-- The device's state and the frames it has sent after these writes. -/
def after (ws : List Bytes) : PeerState × List Frame :=
  ws.foldl (fun r w => ((p.hear c cfg devSerial r.1 w).1, r.2 ++ (p.hear c cfg devSerial r.1 w).2))
    (.fresh, [])

/-- The bytes of frames. -/
def encode (frames : List Frame) : Bytes := frames.flatMap fun f => frameBytes f.frameType f.payload

/-- The bytes it has sent after these writes. -/
def stream (ws : List Bytes) : Bytes := encode (p.after c cfg devSerial ws).2

def packets : List InnerPacket := p.early ++ p.status :: p.late ++ [p.verdict]

/-- What the device keeps to, whatever its key is: its key reply selects 40 bytes, its seed lies in
the app's lookup table, its status reply is one and nothing before it is, neither its verdict nor a
packet before it is an error, and its packets fit the receiver. -/
structure Conforms : Prop where
  size : devPubSize p.curveType = 40
  pos : p.pos + 16 ≤ lutSize
  early : ∀ pkt ∈ p.early, ¬ isStatusReply pkt
  status : isStatusReply p.status
  late : ∀ pkt ∈ p.late, authVerdict pkt = .ok
  verdict : authVerdict p.verdict = .ok
  room : ∀ pkt ∈ p.packets, pkt.payload.length ≤ 237

/-- The device is honest towards an app with this key pair: its key is valid, both sides compute one
secret, and it keeps to the rest. -/
structure Honest (app : Octets 40 × Octets 21) : Prop extends p.Conforms where
  valid : c.validPublicKey p.keyPair.1.1 = true
  agree : c.sharedSecret p.keyPair.1.1 app.2 = c.sharedSecret app.1.1 p.keyPair.2

/-- All the frames it sends to an app with this key. -/
def frames (appPub : Octets 40) : List Frame :=
  p.keyAnswer :: p.seedAnswer c appPub ::
    (p.early.map (sealedFrame c (p.session c cfg appPub)) ++
      (sealedFrame c (p.session c cfg appPub) p.status ::
        (p.late ++ [p.verdict]).map (sealedFrame c (p.session c cfg appPub))))

end Peer

variable {c cfg devSerial} {p : Peer} {app : Octets 40 × Octets 21}

/-! ## Its frames -/

/-- A frame that the framing carries. -/
def Frame.Fits (f : Frame) : Prop := f.frameType < 16 ∧ f.payload.length ≤ 4094

theorem framesOf_frameBytes {f : Frame} (hf : f.Fits) (y : Bytes) :
    framesOf (frameBytes f.frameType f.payload ++ y) = f :: framesOf y := by
  have hlook := frameLook_encode ⟨f, hf.1, hf.2⟩ []
  rw [List.append_nil] at hlook
  exact framesOf_frame_append hlook y

theorem framesOf_encode {fs : List Frame} (hfs : ∀ f ∈ fs, f.Fits) :
    framesOf (Peer.encode fs) = fs := by
  induction fs with
  | nil => exact framesOf_nil
  | cons f fs ih =>
    show framesOf (frameBytes f.frameType f.payload ++ Peer.encode fs) = _
    rw [framesOf_frameBytes (hfs f (List.mem_cons_self ..)),
      ih fun g hg => hfs g (List.mem_cons_of_mem _ hg)]

theorem framesOf_frame {f : Frame} (hf : f.Fits) :
    framesOf (frameBytes f.frameType f.payload) = [f] := by
  have h := framesOf_frameBytes hf []
  rwa [List.append_nil, framesOf_nil] at h

theorem decrypted_sealedFrame (hinv : c.Invertible) (s : Session) {pkt : InnerPacket}
    (hlen : pkt.payload.length ≤ 237) :
    decrypted c s (sealedFrame c s pkt).payload 256 =
      .ok (innerBytes pkt.src pkt.dst pkt.cmdSet pkt.cmdId pkt.payload) := by
  have hsize := sealed_length c s (innerBytes pkt.src pkt.dst pkt.cmdSet pkt.cmdId pkt.payload)
  rw [innerBytes_length] at hsize
  unfold innerOverhead innerHeaderLen at hsize
  unfold decrypted sealedFrame
  rw [if_neg (by dsimp only; omega), opened_sealed hinv]

theorem fits_sealedFrame (s : Session) {pkt : InnerPacket} (hlen : pkt.payload.length ≤ 4061) :
    (sealedFrame c s pkt).Fits := by
  refine ⟨(by decide : frameData < 16), ?_⟩
  show (sealed c s _).length ≤ 4094
  rw [sealed_length, innerBytes_length]
  unfold innerOverhead innerHeaderLen
  omega

theorem packetIn_sealedFrame (hinv : c.Invertible) (s : Session) {pkt : InnerPacket}
    (hlen : pkt.payload.length < 2 ^ 16) : packetIn c s (sealedFrame c s pkt) = some pkt := by
  unfold packetIn sealedFrame
  rw [if_pos rfl, opened_sealed hinv, innerParse_built hlen]

theorem framesOf_packetFrame (s : Session) (pkt : InnerPacket) (hlen : pkt.payload.length ≤ 282) :
    framesOf (packetFrame c s pkt.src pkt.dst pkt.cmdSet pkt.cmdId pkt.payload) =
      [sealedFrame c s pkt] := by
  have hfits : (sealedFrame c s pkt).Fits := fits_sealedFrame s (hlen.trans (by decide))
  have h := framesOf_frame hfits
  unfold packetFrame
  exact h

theorem fits_seedAnswer (appPub : Octets 40) : (p.seedAnswer c appPub).Fits := by
  refine ⟨(by decide : frameCommand < 16), ?_⟩
  show (sealed c (p.interim c appPub) (p.sRand.1 ++ p.seed.1)).length + 1 ≤ 4094
  rw [sealed_length, List.length_append, p.sRand.2, p.seed.2]
  decide

theorem fits_keyAnswer : p.keyAnswer.Fits := by
  refine ⟨(by decide : frameCommand < 16), ?_⟩
  show ([0x01, p.kind, p.curveType] ++ p.keyPair.1.1).length ≤ 4094
  rw [List.length_append, p.keyPair.1.2]
  exact (by decide : 3 + 40 ≤ 4094)

namespace Peer

variable (cfg) in
theorem Honest.fits (hp : p.Honest c app) {f : Frame} (hf : f ∈ p.frames c cfg app.1) :
    f.Fits := by
  have hroom : ∀ pkt ∈ p.packets, (sealedFrame c (p.session c cfg app.1) pkt).Fits :=
    fun pkt hpkt => fits_sealedFrame _ ((hp.room pkt hpkt).trans (by decide))
  unfold packets at hroom
  rcases List.mem_cons.mp hf with rfl | hf
  · exact fits_keyAnswer
  rcases List.mem_cons.mp hf with rfl | hf
  · exact fits_seedAnswer _
  rcases List.mem_append.mp hf with hf | hf
  · obtain ⟨pkt, hpkt, rfl⟩ := List.mem_map.mp hf
    exact hroom pkt (by simp [hpkt])
  rcases List.mem_cons.mp hf with rfl | hf
  · exact hroom _ (by simp)
  · obtain ⟨pkt, hpkt, rfl⟩ := List.mem_map.mp hf
    exact hroom pkt (by rcases List.mem_append.mp hpkt with h | h <;> simp_all)

/-! ## What it answers -/

variable {appPub : Octets 40}

theorem hear_key : p.hear c cfg devSerial .fresh (keyFrame appPub) =
    (.keyed appPub, [p.keyAnswer]) := by
  have hlen : ([0x01, 0x00] ++ appPub.1 : Bytes).length ≤ 4094 := by
    rw [List.length_append, appPub.2]
    decide
  have hframes : framesOf (keyFrame appPub) = [⟨frameCommand, [0x01, 0x00] ++ appPub.1⟩] :=
    framesOf_frame (f := ⟨frameCommand, [0x01, 0x00] ++ appPub.1⟩)
      ⟨(by decide : frameCommand < 16), hlen⟩
  unfold hear
  rw [hframes]
  exact dif_pos ⟨rfl, rfl, appPub.2⟩

theorem hear_seed : p.hear c cfg devSerial (.keyed appPub) seedFrame =
    (.seeded (p.session c cfg appPub),
      p.seedAnswer c appPub :: p.early.map (sealedFrame c (p.session c cfg appPub))) := by
  have hframes : framesOf seedFrame = [⟨frameCommand, [0x02]⟩] :=
    framesOf_frame (f := ⟨frameCommand, [0x02]⟩) ⟨by decide, by decide⟩
  unfold hear
  rw [hframes]
  exact if_pos rfl

theorem hear_status (hinv : c.Invertible) (s : Session) :
    p.hear c cfg devSerial (.seeded s) (statusFrame c s) =
      (.woken s, sealedFrame c s p.status :: p.late.map (sealedFrame c s)) := by
  have hframes : framesOf (statusFrame c s) = [sealedFrame c s wakeUp] :=
    framesOf_packetFrame s wakeUp (by decide)
  unfold hear
  rw [hframes]
  exact if_pos (packetIn_sealedFrame hinv s (by decide))

theorem hear_auth (hinv : c.Invertible) (s : Session) :
    p.hear c cfg devSerial (.woken s) (authFrame c cfg devSerial s) =
      (.done s, [sealedFrame c s p.verdict]) := by
  have hlen : (login c cfg devSerial).payload.length = 32 := hexPayload_length _
  have hframes : framesOf (authFrame c cfg devSerial s) =
      [sealedFrame c s (login c cfg devSerial)] :=
    framesOf_packetFrame s (login c cfg devSerial) (by omega)
  unfold hear
  rw [hframes]
  exact if_pos (packetIn_sealedFrame hinv s (by omega))

variable (c cfg devSerial) in
theorem after_snoc (ws : List Bytes) (w : Bytes) : p.after c cfg devSerial (ws ++ [w]) =
    ((p.hear c cfg devSerial (p.after c cfg devSerial ws).1 w).1,
      (p.after c cfg devSerial ws).2 ++
        (p.hear c cfg devSerial (p.after c cfg devSerial ws).1 w).2) := List.foldl_concat ..

variable (c cfg devSerial) in
theorem after_isPrefix (ws ws' : List Bytes) :
    (p.after c cfg devSerial ws).2 <+: (p.after c cfg devSerial (ws ++ ws')).2 := by
  induction ws' using List.reverseRecOn with
  | nil => rw [List.append_nil]
  | append_singleton ws' w ih =>
    rw [← List.append_assoc, after_snoc]
    exact ih.trans (List.prefix_append _ _)

theorem encode_append (xs ys : List Frame) : encode (xs ++ ys) = encode xs ++ encode ys :=
  List.flatMap_append

variable (c cfg devSerial) in
theorem stream_isPrefix (ws ws' : List Bytes) :
    p.stream c cfg devSerial ws <+: p.stream c cfg devSerial (ws ++ ws') := by
  obtain ⟨more, hmore⟩ := p.after_isPrefix c cfg devSerial ws ws'
  unfold stream
  rw [← hmore, encode_append]
  exact List.prefix_append _ _

variable (c cfg p appPub) in
/-- What it has sent in a state that it reaches with an app's key. -/
def Sent : PeerState → List Frame → Prop
  | .fresh, _ => False
  | .keyed appPub', fs => appPub' = appPub ∧ fs = [p.keyAnswer]
  | .seeded s, fs => s = p.session c cfg appPub ∧
      fs = p.keyAnswer :: p.seedAnswer c appPub :: p.early.map (sealedFrame c s)
  | .woken s, fs => s = p.session c cfg appPub ∧
      fs = p.keyAnswer :: p.seedAnswer c appPub :: (p.early.map (sealedFrame c s) ++
        sealedFrame c s p.status :: p.late.map (sealedFrame c s))
  | .done s, fs => s = p.session c cfg appPub ∧ fs = p.frames c cfg appPub

/-- Every step of the device keeps it. -/
theorem sent_hear {s : PeerState} {fs : List Frame} (hs : p.Sent c cfg appPub s fs) (w : Bytes) :
    p.Sent c cfg appPub (p.hear c cfg devSerial s w).1
      (fs ++ (p.hear c cfg devSerial s w).2) := by
  have hstay : ∀ r : PeerState × List Frame, r = (s, []) → p.Sent c cfg appPub r.1 (fs ++ r.2) := by
    rintro _ rfl
    rwa [List.append_nil]
  unfold hear
  split
  · exact hs.elim
  · split_ifs
    · obtain ⟨rfl, rfl⟩ := hs
      exact ⟨rfl, rfl⟩
    · exact hstay _ rfl
  · split_ifs
    · obtain ⟨rfl, rfl⟩ := hs
      exact ⟨rfl, rfl⟩
    · exact hstay _ rfl
  · split_ifs
    · obtain ⟨rfl, rfl⟩ := hs
      refine ⟨rfl, ?_⟩
      unfold frames
      simp
    · exact hstay _ rfl
  · exact hstay _ rfl

variable (c cfg devSerial p appPub) in
/-- Behind the app's key the device is where its frames say, whatever is written. -/
theorem sent_after (ws : List Bytes) :
    p.Sent c cfg appPub (p.after c cfg devSerial (keyFrame appPub :: ws)).1
      (p.after c cfg devSerial (keyFrame appPub :: ws)).2 := by
  induction ws using List.reverseRecOn with
  | nil =>
    show p.Sent c cfg appPub (p.hear c cfg devSerial .fresh (keyFrame appPub)).1
      ([] ++ (p.hear c cfg devSerial .fresh (keyFrame appPub)).2)
    rw [hear_key]
    exact ⟨rfl, rfl⟩
  | append_singleton ws w ih =>
    rw [← List.cons_append, after_snoc]
    exact sent_hear ih w

/-- On the whole script it arrives at its session. -/
theorem after_script (hinv : c.Invertible) :
    p.after c cfg devSerial (script c cfg devSerial appPub (p.session c cfg appPub)) =
      (.done (p.session c cfg appPub), p.frames c cfg appPub) := by
  have hsent := p.sent_after c cfg devSerial appPub
    [seedFrame, statusFrame c (p.session c cfg appPub),
      authFrame c cfg devSerial (p.session c cfg appPub)]
  have hstate : (p.after c cfg devSerial
      (script c cfg devSerial appPub (p.session c cfg appPub))).1 =
        .done (p.session c cfg appPub) := by
    unfold after script
    simp only [List.foldl_cons, List.foldl_nil, hear_key, hear_seed, hear_status hinv,
      hear_auth hinv]
  change p.Sent c cfg appPub (p.after c cfg devSerial (script ..)).1
    (p.after c cfg devSerial (script ..)).2 at hsent
  rw [hstate] at hsent
  exact Prod.ext hstate hsent.2

/-! ## The automaton behind its frames -/

theorem slice_of_append {a b : Bytes} {i n : ℕ} (ha : a.length = i) (hb : b.length = n) :
    slice (a ++ b) i n = b := by
  subst ha hb
  have h := slice_append_right a b []
  rwa [List.append_nil] at h

theorem keyReply_keyAnswer (hp : p.Honest c app) :
    keyReply c app.2 p.keyAnswer.payload = .ok (p.interim c app.1) := by
  have hpub : keyReplyPub p.keyAnswer.payload = .ok p.keyPair.1.1 := by
    have hlen : p.keyAnswer.payload.length = 3 + 40 := by
      show ([0x01, p.kind, p.curveType] ++ p.keyPair.1.1).length = _
      rw [List.length_append, p.keyPair.1.2]
      rfl
    have hsize : devPubSize (p.keyAnswer.payload.getD 2 0) = 40 := hp.size
    have hkey : slice p.keyAnswer.payload 3 40 = p.keyPair.1.1 := by
      exact slice_of_append (a := [0x01, p.kind, p.curveType]) rfl p.keyPair.1.2
    have hkind : p.keyAnswer.payload.getD 0 0 = 0x01 := rfl
    unfold keyReplyPub
    dsimp only
    rw [if_neg (by rw [hlen, hkind]; decide), hsize, if_neg (by decide), if_neg (by omega), hkey]
  unfold keyReply
  rw [hpub]
  show (if c.validPublicKey p.keyPair.1.1 = false then _ else _) = _
  rw [if_neg (by rw [hp.valid]; decide), hp.agree]
  rfl

variable (cfg) in
theorem seedReply_seedAnswer (hinv : c.Invertible) (hp : p.Honest c app) :
    seedReply c cfg (p.interim c app.1) (p.seedAnswer c app.1).payload =
      .ok (p.session c cfg app.1) := by
  have hlen : (p.sRand.1 ++ p.seed.1).length = 18 := by
    rw [List.length_append, p.sRand.2, p.seed.2]
  have hsize := sealed_length c (p.interim c app.1) (p.sRand.1 ++ p.seed.1)
  rw [hlen] at hsize
  have hbody : seedReplyBody (p.seedAnswer c app.1).payload =
      .ok (sealed c (p.interim c app.1) (p.sRand.1 ++ p.seed.1)) := by
    have hpay : (p.seedAnswer c app.1).payload =
      0x02 :: sealed c (p.interim c app.1) (p.sRand.1 ++ p.seed.1) := rfl
    unfold seedReplyBody
    rw [hpay, if_neg]
    · rfl
    · rintro (hshort | hkind)
      · rw [List.length_cons, hsize] at hshort
        omega
      · exact hkind rfl
  have hplain : decrypted c (p.interim c app.1)
      (sealed c (p.interim c app.1) (p.sRand.1 ++ p.seed.1)) 64 = .ok (p.sRand.1 ++ p.seed.1) := by
    unfold decrypted
    rw [if_neg (by rw [hsize]; decide), opened_sealed hinv]
  have hrand : slice (p.sRand.1 ++ p.seed.1) 0 16 = p.sRand.1 := by
    rw [slice_append_left (by rw [p.sRand.2]), slice_zero_self p.sRand.2]
  have hseed : slice (p.sRand.1 ++ p.seed.1) 16 2 = p.seed.1 :=
    slice_of_append p.sRand.2 p.seed.2
  have hpos : lookupPos p.seed.1 = (p.pos : ℕ) := lookupPos_eq p.seed.1
  have hroom := hp.pos
  unfold seedReply
  rw [hbody]
  show (decrypted c (p.interim c app.1) _ 64).bind (seedSession c cfg _) = _
  rw [hplain]
  show seedSession c cfg (p.interim c app.1) (p.sRand.1 ++ p.seed.1) = _
  unfold seedSession sessionKeyData
  rw [if_neg (by omega), hrand, hseed, hpos]
  dsimp only
  rw [if_neg (by rw [Int.toNat_natCast]; omega), Int.toNat_natCast]
  rfl

end Peer

theorem frame_statusPacket (hinv : c.Invertible) (s : Session) {pkt : InnerPacket}
    (hlen : pkt.payload.length ≤ 237) :
    (Phase.awaitStatus s).frame c cfg devSerial (sealedFrame c s pkt) =
      if isStatusReply pkt then
        if (credentials cfg devSerial).length > md5InCap then .refused .invalidSize
        else .sendAuth s
      else .awaitStatus s := by
  have h := Phase.frame_awaitStatus c cfg devSerial s (sealedFrame c s pkt).payload
  rw [decrypted_sealedFrame hinv s hlen] at h
  refine h.trans ?_
  show statusPacket cfg devSerial s _ = _
  unfold statusPacket
  rw [innerParse_built (by omega)]

theorem frame_verdict (hinv : c.Invertible) (s : Session) {pkt : InnerPacket}
    (hlen : pkt.payload.length ≤ 237) :
    (Phase.awaitResult s).frame c cfg devSerial (sealedFrame c s pkt) =
      if authVerdict pkt = .ok then .accepted s else .refused (authVerdict pkt) := by
  have h := Phase.frame_awaitResult c cfg devSerial s (sealedFrame c s pkt).payload
  rw [decrypted_sealedFrame hinv s hlen] at h
  refine h.trans ?_
  show resultPacket s _ = _
  unfold resultPacket
  rw [innerParse_built (by omega)]

/-- Packets that are no status reply leave the wait of step 3 as it is. -/
theorem follow_early {sc : Scenario} (hinv : c.Invertible) (s : Session) {pkts : List InnerPacket}
    (hstatus : ∀ pkt ∈ pkts, ¬ isStatusReply pkt)
    (hlen : ∀ pkt ∈ pkts, pkt.payload.length ≤ 237) :
    (Phase.awaitStatus s).follow c cfg devSerial sc (pkts.map (sealedFrame c s)) =
      .awaitStatus s := by
  induction pkts with
  | nil => rfl
  | cons pkt pkts ih =>
    rw [List.map_cons, follow_cons, frame_statusPacket hinv s (hlen pkt (List.mem_cons_self ..)),
      if_neg (hstatus pkt (List.mem_cons_self ..))]
    exact ih (fun q hq => hstatus q (List.mem_cons_of_mem _ hq))
      fun q hq => hlen q (List.mem_cons_of_mem _ hq)

theorem follow_accepted {sc : Scenario} (s : Session) (frames : List Frame) :
    (Phase.accepted s).follow c cfg devSerial sc frames = .accepted s :=
  follow_of_result (show Phase.result none (.accepted s) = _ from rfl) frames

/-- The first packet that is no error ends the wait of step 4. -/
theorem follow_late {sc : Scenario} (hinv : c.Invertible) (s : Session) {pkts : List InnerPacket}
    (hne : pkts ≠ []) (hverdict : ∀ pkt ∈ pkts, authVerdict pkt = .ok)
    (hlen : ∀ pkt ∈ pkts, pkt.payload.length ≤ 237) :
    (Phase.awaitResult s).follow c cfg devSerial sc (pkts.map (sealedFrame c s)) =
      .accepted s := by
  cases pkts with
  | nil => exact absurd rfl hne
  | cons pkt pkts =>
    rw [List.map_cons, follow_cons, frame_verdict hinv s (hlen pkt (List.mem_cons_self ..)),
      if_pos (hverdict pkt (List.mem_cons_self ..))]
    exact follow_accepted s _

namespace Peer

/-- A scenario in which the app makes this key pair and all its writes succeed. -/
def Steady (app : Octets 40 × Octets 21) (sc : Scenario) : Prop :=
  sc.keyPair = app ∧ ∀ n, sc.writeResult n = .ok

section Phases

variable {sc : Scenario} (hsc : Steady app sc)

include hsc

theorem phaseAfter_keyed (hp : p.Honest c app) :
    phaseAfter c cfg devSerial sc [p.keyAnswer] = .awaitSeed (p.interim c app.1) := by
  have hkey := Phase.frame_awaitKey c cfg devSerial app.2 p.keyAnswer.payload
  rw [keyReply_keyAnswer hp] at hkey
  have hstart : Phase.start.settle sc = .awaitKey app.2 := by
    show (Phase.sendKey sc.keyPair.1 sc.keyPair.2).sent (sc.writeResult 0) = _
    rw [hsc.1, hsc.2]
    rfl
  unfold phaseAfter
  rw [hstart, follow_cons, follow_nil]
  refine (congrArg (Phase.settle sc) hkey).trans ?_
  show (Phase.sendSeed (p.interim c app.1)).sent (sc.writeResult 1) = _
  rw [hsc.2]
  rfl

theorem phaseAfter_seeded (hinv : c.Invertible) (hp : p.Honest c app) :
    phaseAfter c cfg devSerial sc (p.keyAnswer :: p.seedAnswer c app.1 ::
        p.early.map (sealedFrame c (p.session c cfg app.1))) =
      .awaitStatus (p.session c cfg app.1) := by
  have hseed := Phase.frame_awaitSeed c cfg devSerial (p.interim c app.1)
    (p.seedAnswer c app.1).payload
  rw [seedReply_seedAnswer cfg hinv hp] at hseed
  have hnext : ((Phase.awaitSeed (p.interim c app.1)).frame c cfg devSerial
      (p.seedAnswer c app.1)).settle sc = .awaitStatus (p.session c cfg app.1) := by
    refine (congrArg (Phase.settle sc) hseed).trans ?_
    show (Phase.sendStatus (p.session c cfg app.1)).sent (sc.writeResult 2) = _
    rw [hsc.2]
    rfl
  have hroom := hp.room
  unfold packets at hroom
  have happ : phaseAfter c cfg devSerial sc (_ ++ _) = _ := phaseAfter_append
    [p.keyAnswer] (p.seedAnswer c app.1 :: p.early.map (sealedFrame c (p.session c cfg app.1)))
  rw [phaseAfter_keyed hsc hp, follow_cons, hnext, follow_early hinv _ hp.early
    fun pkt hpkt => hroom pkt (by simp [hpkt])] at happ
  exact happ

theorem phaseAfter_woken (hinv : c.Invertible) (hp : p.Honest c app)
    (hcred : (credentials cfg devSerial).length ≤ md5InCap) :
    phaseAfter c cfg devSerial sc (p.keyAnswer :: p.seedAnswer c app.1 ::
        (p.early.map (sealedFrame c (p.session c cfg app.1)) ++
          [sealedFrame c (p.session c cfg app.1) p.status])) =
      .awaitResult (p.session c cfg app.1) := by
  have hroom := hp.room
  unfold packets at hroom
  have happ : phaseAfter c cfg devSerial sc (_ ++ [_]) = _ := phaseAfter_snoc
    (p.keyAnswer :: p.seedAnswer c app.1 ::
      p.early.map (sealedFrame c (p.session c cfg app.1)))
    (sealedFrame c (p.session c cfg app.1) p.status)
  rw [phaseAfter_seeded hsc hinv hp,
    frame_statusPacket hinv _ (hroom p.status (by simp)), if_pos hp.status,
    if_neg (by omega)] at happ
  refine happ.trans ?_
  show (Phase.sendAuth (p.session c cfg app.1)).sent (sc.writeResult 3) = _
  rw [hsc.2]
  rfl

/-- All its frames lead to its session. -/
theorem phaseAfter_frames (hinv : c.Invertible) (hp : p.Honest c app)
    (hcred : (credentials cfg devSerial).length ≤ md5InCap) :
    phaseAfter c cfg devSerial sc (p.frames c cfg app.1) = .accepted (p.session c cfg app.1) := by
  have hroom := hp.room
  unfold packets at hroom
  have happ : phaseAfter c cfg devSerial sc (_ ++ _) = _ := phaseAfter_append
    (p.keyAnswer :: p.seedAnswer c app.1 ::
      (p.early.map (sealedFrame c (p.session c cfg app.1)) ++
        [sealedFrame c (p.session c cfg app.1) p.status]))
    ((p.late ++ [p.verdict]).map (sealedFrame c (p.session c cfg app.1)))
  have hverdict : ∀ pkt ∈ p.late ++ [p.verdict], authVerdict pkt = .ok := by
    intro pkt hpkt
    rcases List.mem_append.mp hpkt with hpkt | hpkt
    · exact hp.late pkt hpkt
    · rw [List.mem_singleton.mp hpkt]
      exact hp.verdict
  rw [phaseAfter_woken hsc hinv hp hcred, follow_late hinv _ (by simp) hverdict
    fun pkt hpkt => hroom pkt (by rcases List.mem_append.mp hpkt with h | h <;> simp_all)] at happ
  refine Eq.trans ?_ happ
  unfold frames
  simp

end Phases

/-! ## Between the app and the device -/

theorem written_append (h h' : Hist) : written (h ++ h') = written h ++ written h' := by
  unfold written
  rw [writes_append, List.map_append]

theorem after_keyed :
    p.after c cfg devSerial [keyFrame appPub] = (.keyed appPub, [p.keyAnswer]) := by
  show ((p.hear c cfg devSerial .fresh (keyFrame appPub)).1,
    ([] ++ (p.hear c cfg devSerial .fresh (keyFrame appPub)).2)) = _
  rw [hear_key]
  rfl

theorem after_seeded : p.after c cfg devSerial [keyFrame appPub, seedFrame] =
    (.seeded (p.session c cfg appPub), p.keyAnswer :: p.seedAnswer c appPub ::
      p.early.map (sealedFrame c (p.session c cfg appPub))) := by
  have h := p.after_snoc c cfg devSerial [keyFrame appPub] seedFrame
  rw [after_keyed, hear_seed] at h
  exact h

theorem after_woken (hinv : c.Invertible) :
    p.after c cfg devSerial
        [keyFrame appPub, seedFrame, statusFrame c (p.session c cfg appPub)] =
      (.woken (p.session c cfg appPub), p.keyAnswer :: p.seedAnswer c appPub ::
        (p.early.map (sealedFrame c (p.session c cfg appPub)) ++
          [sealedFrame c (p.session c cfg appPub) p.status]) ++
        p.late.map (sealedFrame c (p.session c cfg appPub))) := by
  have h := p.after_snoc c cfg devSerial [keyFrame appPub, seedFrame]
    (statusFrame c (p.session c cfg appPub))
  rw [after_seeded, hear_status hinv] at h
  simpa using h

variable (c cfg devSerial p app) in
/-- The environment of a device: the app makes one key pair at most, and what a wait receives are
the next bytes of what the device has sent so far. Any other call may fail. -/
def peerEnv : Env Answer
  | _, .hashCompute, status => status = .success
  | _, .makeKey, keyPair => ∀ kp, keyPair = some kp → kp = app
  | h, .queueReceive _, answer => ∀ data, answer = some data → data.length ≤ notifyChunkMax ∧
      received h ++ data <+: p.stream c cfg devSerial (written h)
  | _, _, _ => True

theorem hash_of_peer {h : Hist} {e : Call} {a : Answer e}
    (hans : peerEnv c cfg devSerial p app h e a) : hashEnv h e a := by
  cases e with
  | hashCompute => exact hans
  | _ => trivial

section Runs

variable {h : Hist} {fuel : ℕ}
  (hans : Logged (freeContract (peerEnv c cfg devSerial p app)) h)

include hans

theorem received_isPrefix_stream : received h <+: p.stream c cfg devSerial (written h) := by
  induction h using List.reverseRecOn with
  | nil => exact List.nil_prefix
  | append_singleton h ev ih =>
    obtain ⟨e, a⟩ := ev
    have ih := ih hans.of_append
    have hev : peerEnv c cfg devSerial p app h e a := (hans h _ [] rfl).2
    have hsent := ih.trans (p.stream_isPrefix c cfg devSerial (written h) (written [⟨e, a⟩]))
    rw [written_append, received_append]
    cases e with
    | queueReceive t =>
      cases a with
      | none =>
        show received h ++ [] <+: _
        rwa [List.append_nil]
      | some data =>
        obtain ⟨hlen, hnext⟩ := hev data rfl
        show received h ++ (data.take notifyChunkMax ++ []) <+: _
        rw [List.append_nil, List.take_of_length_le hlen]
        exact hnext.trans (p.stream_isPrefix c cfg devSerial (written h) _)
    | _ =>
      show received h ++ [] <+: _
      rwa [List.append_nil]

theorem keyPairs_peer {kp : Octets 40 × Octets 21} (hk : kp ∈ keyPairs h) : kp = app := by
  obtain ⟨⟨e, a⟩, hmem, hkp⟩ := List.mem_flatMap.mp hk
  obtain ⟨h₁, h₂, rfl⟩ := List.append_of_mem hmem
  have hev := (hans h₁ _ h₂ rfl).2
  cases e with
  | makeKey =>
    cases a with
    | none => exact absurd hkp List.not_mem_nil
    | some kp' =>
      cases List.mem_singleton.mp hkp
      exact hev _ rfl
  | _ => exact absurd hkp List.not_mem_nil

end Runs

/-- Behind a prefix of the script the device has sent a prefix of its frames. -/
theorem after_isPrefix_frames (hinv : c.Invertible) {ws : List Bytes}
    (hws : ws <+: script c cfg devSerial app.1 (p.session c cfg app.1)) :
    (p.after c cfg devSerial ws).2 <+: p.frames c cfg app.1 := by
  obtain ⟨more, hmore⟩ := hws
  have h := p.after_isPrefix c cfg devSerial ws more
  rwa [hmore, after_script hinv] at h

/-- What the app extracts is a prefix of the frames the device has sent. -/
theorem extracted_isPrefix_after (hinv : c.Invertible) (hp : p.Honest c app) {h : Hist} {fuel : ℕ}
    (hans : Logged (freeContract (peerEnv c cfg devSerial p app)) h)
    (hlog : Logged (handshakeContract c cfg devSerial fuel) h)
    (hws : written h <+: script c cfg devSerial app.1 (p.session c cfg app.1)) :
    extracted h <+: (p.after c cfg devSerial (written h)).2 := by
  obtain ⟨more, hmore⟩ := received_isPrefix_stream hans
  have hfits : ∀ f ∈ (p.after c cfg devSerial (written h)).2, f.Fits := fun f hf =>
    hp.fits cfg ((after_isPrefix_frames hinv hws).subset hf)
  rw [← framesOf_encode hfits]
  refine (extracted_prefix_framesOf hlog).trans ?_
  show _ <+: framesOf (p.stream c cfg devSerial (written h))
  rw [← hmore]
  exact Scanner.items_prefix_append _ _

theorem keyRead_eq {priv : Octets 21} {interim : Session} {xs : List Frame}
    (hread : KeyRead c priv interim xs) (hxs : xs <+: p.frames c cfg app.1) :
    xs = [p.keyAnswer] ∧ keyReply c priv p.keyAnswer.payload = .ok interim := by
  obtain ⟨skipped, reply, rfl, hno, hkey⟩ := hread
  cases skipped with
  | nil =>
    obtain ⟨hf, -⟩ := List.cons_prefix_cons.mp hxs
    rw [← hf]
    exact ⟨rfl, hkey⟩
  | cons f skipped =>
    obtain ⟨rfl, -⟩ := List.cons_prefix_cons.mp hxs
    exact absurd rfl (hno _ (List.mem_cons_self ..))

/-- The first two replies of the device lead to its session. -/
theorem sessionRead_eq (hinv : c.Invertible) (hp : p.Honest c app)
    {keys : List (Octets 40 × Octets 21)} {ourPub : Octets 40} {session : Session}
    {xs ys : List Frame} (hkeys : ∀ kp ∈ keys, kp = app)
    (hread : SessionRead c cfg keys ourPub session xs ys)
    (hxs : xs ++ ys <+: p.frames c cfg app.1) :
    ourPub = app.1 ∧ session = p.session c cfg app.1 := by
  obtain ⟨priv, interim, rfl, hkey, hseed⟩ := hread
  have happ := hkeys _ (List.mem_singleton_self _)
  subst happ
  obtain ⟨rfl, hanswer⟩ := keyRead_eq hkey ((List.prefix_append _ _).trans hxs)
  rw [keyReply_keyAnswer hp] at hanswer
  cases hanswer
  obtain ⟨-, hys⟩ := List.cons_prefix_cons.mp hxs
  obtain ⟨skipped, reply, rfl, hno, hseed⟩ := hseed
  cases skipped with
  | nil =>
    obtain ⟨hf, -⟩ := List.cons_prefix_cons.mp hys
    have hreply := seedReply_seedAnswer cfg hinv hp
    rw [← hf, hseed] at hreply
    exact ⟨rfl, Except.ok.inj hreply⟩
  | cons f skipped =>
    obtain ⟨rfl, -⟩ := List.cons_prefix_cons.mp hys
    exact absurd rfl (hno _ (List.mem_cons_self ..))

/-- **One session.** With an honest device the app writes nothing but the frames of the device's
session, in their order. -/
theorem written_isPrefix_script (hinv : c.Invertible) (hp : p.Honest c app) {h : Hist} {fuel : ℕ}
    (hans : Logged (freeContract (peerEnv c cfg devSerial p app)) h)
    (hlog : Logged (handshakeContract c cfg devSerial fuel) h) :
    written h <+: script c cfg devSerial app.1 (p.session c cfg app.1) := by
  induction h using List.reverseRecOn with
  | nil => exact List.nil_prefix
  | append_singleton h ev ih =>
    obtain ⟨e, a⟩ := ev
    have ih := ih hans.of_append hlog.of_append
    rw [written_append]
    cases e with
    | bleWrite d =>
      show written h ++ [d] <+: _
      have hdue : (phase c cfg devSerial h).due c cfg devSerial = some d := (hlog h _ [] rfl).1
      have ht := tracked_of_logged hlog.of_append
      have hkeys : ∀ kp ∈ keyPairs h, kp = app := fun _ => keyPairs_peer hans.of_append
      have hxs := (extracted_isPrefix_after hinv hp hans.of_append hlog.of_append ih).trans
        (after_isPrefix_frames hinv ih)
      unfold Tracked at ht
      cases hph : phase c cfg devSerial h with
      | sendKey ourPub priv =>
        rw [hph] at ht hdue
        obtain ⟨hk, hw, -⟩ := ht
        have hw : writes h = sentOk [] := hw
        rw [hk] at hkeys
        have happ := hkeys _ (List.mem_singleton_self _)
        subst happ
        cases hdue
        rw [(written_of_sentOk hw).1]
        exact ⟨_, rfl⟩
      | sendSeed interim =>
        rw [hph] at ht hdue
        obtain ⟨ourPub, priv, hk, hw, -⟩ := ht
        rw [hk] at hkeys
        have happ := hkeys _ (List.mem_singleton_self _)
        subst happ
        cases hdue
        rw [(written_of_sentOk hw).1]
        exact ⟨_, rfl⟩
      | sendStatus session =>
        rw [hph] at ht hdue
        obtain ⟨ourPub, xs, ys, hw, hx, hread⟩ := ht
        rw [hx] at hxs
        obtain ⟨rfl, rfl⟩ := sessionRead_eq hinv hp hkeys hread hxs
        cases hdue
        rw [(written_of_sentOk hw).1]
        exact ⟨_, rfl⟩
      | sendAuth session =>
        rw [hph] at ht hdue
        obtain ⟨ourPub, xs, ys, zs, hw, hx, hread, -⟩ := ht
        rw [hx] at hxs
        obtain ⟨rfl, rfl⟩ :=
          sessionRead_eq hinv hp hkeys hread ((List.prefix_append _ _).trans hxs)
        cases hdue
        rw [(written_of_sentOk hw).1]
        exact List.prefix_rfl
      | _ =>
        rw [hph] at hdue
        cases hdue
    | _ =>
      show written h ++ [] <+: _
      rwa [List.append_nil]

/-- `ESP_OK` comes with the device's session, and with the device behind the credentials. -/
theorem agreed_of_ok (hinv : c.Invertible) (hp : p.Honest c app) {h : Hist} {fuel : ℕ}
    {outSession out : Option Session}
    (hrun : Reach (peerEnv c cfg devSerial p app)
      ([], authRun c cfg devSerial fuel outSession) (h, .ret (.ok, out))) :
    out = some (p.session c cfg app.1) ∧
      (p.after c cfg devSerial (written h)).1 = .done (p.session c cfg app.1) := by
  have hans := logged_free hrun
  have hrun := hrun.mono fun _ _ _ => hash_of_peer
  have hlog := logged_authRun hrun
  have hws := written_isPrefix_script hinv hp hans hlog
  have hwp := wp_reach (C := handshakeContract c cfg devSerial fuel) wp_authRun hrun
  have ht := tracked_of_logged hlog
  unfold Tracked at ht
  rcases hwp with ⟨session, fb, hr, hph, -⟩ | ⟨-, hne, -⟩
  · cases hr
    rw [hph] at ht
    obtain ⟨ourPub, xs, ys, zs, us, hw, hx, hread, -⟩ := ht
    have hxs := (extracted_isPrefix_after hinv hp hans hlog hws).trans
      (after_isPrefix_frames hinv hws)
    rw [hx, List.append_assoc _ zs us] at hxs
    obtain ⟨rfl, rfl⟩ := sessionRead_eq hinv hp (fun _ => keyPairs_peer hans) hread
      ((List.prefix_append _ _).trans hxs)
    rw [(written_of_sentOk hw).1, after_script hinv]
    exact ⟨rfl, rfl⟩
  · exact absurd rfl hne

end Peer

/-! ## A device that runs -/

namespace Peer

variable (c cfg devSerial p app) in
/-- The device as an environment: it answers each write at once, a frame a notification. -/
def serve (s : PeerState × List Bytes) : (e : Call) → Option (Answer e × PeerState × List Bytes)
  | .queueReceive _ =>
    match s.2 with
    | [] => none
    | n :: ns => if n.length ≤ notifyChunkMax then some (some n, s.1, ns) else none
  | .bleWrite d =>
    some (EspErr.ok, (p.hear c cfg devSerial s.1 d).1,
      s.2 ++ (p.hear c cfg devSerial s.1 d).2.map fun f => frameBytes f.frameType f.payload)
  | .makeKey => some (some app, s)
  | .getTime => some ((0 : ℤ), s)
  | .alloc => some (true, s)
  | .sharedSecret => some (true, s)
  | .psa _ => some (true, s)
  | .hashCompute => some (HashStatus.success, s)
  | .extracted _ => some ((), s)
  | .load _ => some ((0 : Int8), s)
  | .store _ _ => some ((), s)
  | .notify _ => some ((), s)
  | .commanding _ => some ((), s)
  | .notifyWait => none

variable (c cfg devSerial p) in
/-- The device's state and what it has yet to deliver are those of the history. -/
def Serving (s : PeerState × List Bytes) (h : Hist) : Prop :=
  s.1 = (p.after c cfg devSerial (written h)).1 ∧
    received h ++ s.2.flatten = p.stream c cfg devSerial (written h)

theorem serve_env {s s' : PeerState × List Bytes} {h : Hist} {e : Call} {a : Answer e}
    (hs : p.Serving c cfg devSerial s h) (hans : p.serve c cfg devSerial app s e = some (a, s')) :
    peerEnv c cfg devSerial p app h e a ∧ p.Serving c cfg devSerial s' (h ++ [⟨e, a⟩]) := by
  obtain ⟨ps, ns⟩ := s
  obtain ⟨hstate, hbytes⟩ := hs
  unfold Serving
  rw [written_append, received_append]
  cases e with
  | queueReceive t =>
    cases ns with
    | nil => cases hans
    | cons n ns =>
      unfold serve at hans
      dsimp only at hans
      split_ifs at hans with hlen
      cases hans
      have hnext : received h ++ n ++ ns.flatten = p.stream c cfg devSerial (written h) := by
        rw [List.append_assoc]
        exact hbytes
      refine ⟨?_, ?_, ?_⟩
      · rintro data hdata
        cases hdata
        exact ⟨hlen, _, hnext⟩
      · show ps = (p.after c cfg devSerial (written h ++ [])).1
        rwa [List.append_nil]
      · show received h ++ (n.take notifyChunkMax ++ []) ++ ns.flatten =
          p.stream c cfg devSerial (written h ++ [])
        rwa [List.append_nil, List.append_nil, List.take_of_length_le hlen]
  | bleWrite d =>
    cases hans
    have hafter := p.after_snoc c cfg devSerial (written h) d
    refine ⟨trivial, ?_, ?_⟩
    · show _ = (p.after c cfg devSerial (written h ++ [d])).1
      rw [hafter]
      exact congrArg (fun s => (p.hear c cfg devSerial s d).1) hstate
    · show received h ++ [] ++ (ns ++ _).flatten = p.stream c cfg devSerial (written h ++ [d])
      unfold stream at hbytes ⊢
      rw [hafter, encode_append, ← hbytes, List.append_nil, List.flatten_append, List.append_assoc]
      have hps : ps = (p.after c cfg devSerial (written h)).1 := hstate
      subst hps
      rfl
  | notifyWait => cases hans
  | makeKey =>
    cases hans
    refine ⟨fun kp hkp => (Option.some.inj hkp).symm, ?_, ?_⟩
    · show ps = (p.after c cfg devSerial (written h ++ [])).1
      rwa [List.append_nil]
    · show received h ++ [] ++ ns.flatten = p.stream c cfg devSerial (written h ++ [])
      rwa [List.append_nil, List.append_nil]
  | _ =>
    cases hans
    refine ⟨by first | rfl | trivial, ?_, ?_⟩
    · show ps = (p.after c cfg devSerial (written h ++ [])).1
      rwa [List.append_nil]
    · show received h ++ [] ++ ns.flatten = p.stream c cfg devSerial (written h ++ [])
      rwa [List.append_nil, List.append_nil]

theorem serving_nil : p.Serving c cfg devSerial (.fresh, []) [] := ⟨rfl, rfl⟩

end Peer

/-! ## The recorded device -/

namespace Sample

/-- The device of the recording, with its private key. -/
def peer : Peer where
  keyPair := (⟨devicePub, beBytes_length ..⟩, beOctets 21 0x5566778899AABBCCDDEEFF00112233445566778)
  kind := 0x00
  curveType := 0x00
  sRand := beOctets 16 0x101112131415161718191A1B1C1D1E1F
  seed := beOctets 2 0x0001
  early := []
  status := ⟨addrAuth, addrApp, 0x35, 0x89, [0x01]⟩
  late := []
  verdict := ⟨addrAuth, addrApp, 0x35, 0x86, [0x00]⟩

/-- The recording with the device's side of the key agreement. -/
def pairCrypto : Crypto :=
  { record with secrets := record.secrets ++ [(ourPub.1, peer.keyPair.2, secret)] }.crypto

theorem pairCrypto_invertible : pairCrypto.Invertible := CryptoRecord.crypto_invertible _

theorem honest_peer : peer.Honest pairCrypto (ourPub, priv) where
  size := rfl
  valid := by decide +kernel
  agree := by decide +kernel
  pos := by decide +kernel
  early := nofun
  status := ⟨rfl, rfl⟩
  late := nofun
  verdict := by decide +kernel
  room := by decide +kernel

end Sample

/-! ## Agreement -/

namespace Peer

variable (c cfg devSerial p app) in
/-- The environment of a device with nothing in the way: no call fails, no deadline passes, and a
wait is answered by more bytes unless all that the device has sent was received. -/
def steadyEnv : Env Answer := fun h e a =>
  peerEnv c cfg devSerial p app h e a ∧
    match e, a with
    | .getTime, t => ¬ Expired c cfg devSerial (h ++ [⟨.getTime, t⟩])
    | .alloc, ok => ok = true
    | .makeKey, keyPair => keyPair = some app
    | .sharedSecret, ok => ok = true
    | .psa _, ok => ok = true
    | .bleWrite _, err => err = .ok
    | .queueReceive _, answer => answer ≠ some [] ∧
        (answer = none → received h = p.stream c cfg devSerial (written h))
    | _, _ => True

/-- What a run with nothing in the way has met. -/
def scenario (app : Octets 40 × Octets 21) (h : Hist) : Scenario :=
  ⟨app, fun _ => .ok, notifications h⟩

theorem steady_scenario (app : Octets 40 × Octets 21) (h : Hist) : Steady app (scenario app h) :=
  ⟨rfl, fun _ => rfl⟩

theorem peer_of_steady {h : Hist} {e : Call} {a : Answer e}
    (hans : steadyEnv c cfg devSerial p app h e a) : peerEnv c cfg devSerial p app h e a := hans.1

section Steadily

variable {h : Hist} {fuel : ℕ}
  (hans : Logged (freeContract (steadyEnv c cfg devSerial p app)) h)

include hans

theorem logged_scenario :
    Logged (freeContract (scenarioEnv c cfg devSerial (scenario app h))) h := by
  rintro h₁ ⟨e, a⟩ h₂ rfl
  obtain ⟨hpeer, hev⟩ := (hans h₁ _ h₂ rfl).2
  refine ⟨trivial, ?_⟩
  cases e with
  | getTime => exact hev
  | alloc => exact hev
  | makeKey => exact hev
  | sharedSecret => exact hev
  | psa op => exact hev
  | bleWrite d => exact hev
  | hashCompute => exact hpeer
  | queueReceive t =>
    cases a with
    | none => exact .inl rfl
    | some data =>
      refine .inr ?_
      show _ = (notifications (h₁ ++ ⟨.queueReceive t, some data⟩ :: h₂))[_]?
      rw [notifications_append, List.getElem?_append_right le_rfl, Nat.sub_self]
      rfl
  | _ => trivial

/-- Where the automaton waits, the device has sent more than was received. -/
theorem received_ne_stream (hinv : c.Invertible) (hp : p.Honest c app)
    (hcred : (credentials cfg devSerial).length ≤ md5InCap)
    (hlog : Logged (handshakeContract c cfg devSerial fuel) h)
    (hwait : (phase c cfg devSerial h).waiting = true) (hdrained : Drained h) :
    received h ≠ p.stream c cfg devSerial (written h) := by
  intro hall
  have hpeer : Logged (freeContract (peerEnv c cfg devSerial p app)) h :=
    fun h₁ ev h₂ heq => ⟨trivial, (hans h₁ ev h₂ heq).2.1⟩
  have hws := written_isPrefix_script hinv hp hpeer hlog
  have hkeys : ∀ kp ∈ keyPairs h, kp = app := fun _ => keyPairs_peer hpeer
  have hsc := steady_scenario app h
  have hsettle := settle_phase hlog (logged_scenario hans)
  have hfits : ∀ f ∈ (p.after c cfg devSerial (written h)).2, f.Fits := fun f hf =>
    hp.fits cfg ((after_isPrefix_frames hinv hws).subset hf)
  have hframes : extracted h = (p.after c cfg devSerial (written h)).2 := by
    rw [← framesOf_encode hfits]
    show _ = framesOf (p.stream c cfg devSerial (written h))
    rw [← hall]
    exact hdrained.symm
  have hxs : extracted h <+: p.frames c cfg app.1 := by
    rw [hframes]
    exact after_isPrefix_frames hinv hws
  have hroom := hp.room
  unfold packets at hroom
  have ht := tracked_of_logged hlog
  unfold Tracked at ht
  rw [Phase.settle_waiting hwait, hframes] at hsettle
  cases hph : phase c cfg devSerial h with
  | awaitKey priv =>
    rw [hph] at ht hsettle
    obtain ⟨ourPub, hk, hw, -⟩ := ht
    rw [hk] at hkeys
    have happ := hkeys _ (List.mem_singleton_self _)
    subst happ
    rw [(written_of_sentOk hw).1, after_keyed, phaseAfter_keyed hsc hp] at hsettle
    cases hsettle
  | awaitSeed interim =>
    rw [hph] at ht hsettle
    obtain ⟨ourPub, priv, xs, ys, hk, hw, -⟩ := ht
    rw [hk] at hkeys
    have happ := hkeys _ (List.mem_singleton_self _)
    subst happ
    rw [(written_of_sentOk hw).1, after_seeded, phaseAfter_seeded hsc hinv hp] at hsettle
    cases hsettle
  | awaitStatus session =>
    rw [hph] at ht hsettle
    obtain ⟨ourPub, xs, ys, zs, hw, hx, hread⟩ := ht
    rw [hx] at hxs
    obtain ⟨rfl, rfl⟩ := sessionRead_eq hinv hp hkeys hread ((List.prefix_append _ _).trans hxs)
    rw [(written_of_sentOk hw).1, after_woken hinv, phaseAfter_append,
      phaseAfter_woken hsc hinv hp hcred] at hsettle
    by_cases hlate : p.late = []
    · rw [hlate] at hsettle
      cases hsettle
    · rw [follow_late hinv _ hlate hp.late fun pkt hpkt => hroom pkt (by simp [hpkt])] at hsettle
      cases hsettle
  | awaitResult session =>
    rw [hph] at ht hsettle
    obtain ⟨ourPub, xs, ys, zs, us, hw, hx, hread, -⟩ := ht
    rw [hx, List.append_assoc _ zs us] at hxs
    obtain ⟨rfl, rfl⟩ := sessionRead_eq hinv hp hkeys hread ((List.prefix_append _ _).trans hxs)
    rw [(written_of_sentOk hw).1, after_script hinv, phaseAfter_frames hsc hinv hp hcred] at hsettle
    cases hsettle
  | _ =>
    rw [hph] at hwait
    cases hwait

/-- No wait has been in vain. -/
theorem waits_le_received (hinv : c.Invertible) (hp : p.Honest c app)
    (hcred : (credentials cfg devSerial).length ≤ md5InCap)
    (hlog : Logged (handshakeContract c cfg devSerial fuel) h) :
    waits h ≤ (received h).length := by
  induction h using List.reverseRecOn with
  | nil => exact le_rfl
  | append_singleton h ev ih =>
    obtain ⟨e, a⟩ := ev
    have ih := ih hans.of_append hlog.of_append
    rw [waits_append, received_append, List.length_append]
    cases e with
    | queueReceive t =>
      obtain ⟨hpeer, hne, hnone⟩ := (hans h _ [] rfl).2
      obtain ⟨hwait, hdrained | hf⟩ := (hlog h _ [] rfl).1
      · cases a with
        | none =>
          exact absurd (hnone rfl)
            (received_ne_stream hans.of_append hinv hp hcred hlog.of_append hwait hdrained)
        | some data =>
          obtain ⟨hlen, -⟩ := hpeer data rfl
          have hpos : data ≠ [] := fun hnil => hne (congrArg some hnil)
          have hone : (received [⟨.queueReceive t, some data⟩]).length = data.length := by
            show (data.take notifyChunkMax ++ []).length = _
            rw [List.append_nil, List.take_of_length_le hlen]
          rw [hone]
          show waits h + 1 ≤ _
          have := List.length_pos_iff.mpr hpos
          omega
      · exact absurd hf (not_fault (logged_scenario hans.of_append))
    | _ =>
      show waits h + 0 ≤ _
      omega

end Steadily

theorem exists_not_expired {h : Hist} (hx : ¬ Expired c cfg devSerial h) :
    ∃ t : ℤ, ¬ Expired c cfg devSerial (h ++ [⟨.getTime, t⟩]) := by
  obtain ⟨t, ht⟩ := exists_earlier h
  refine ⟨t, ?_⟩
  rintro ⟨-, ⟨want, h₁, hwant, t₀, now, h₃, ⟨es, rfl, hes⟩, rfl, hle⟩, hpre⟩
  rcases List.prefix_concat_iff.mp hpre with heq | hpre
  · obtain ⟨hinit, hlast⟩ := List.append_inj' heq rfl
    cases hlast
    have hmem : ⟨.getTime, t₀⟩ ∈ h := by
      rw [← hinit]
      simp
    have := ht t₀ hmem
    unfold stepTimeoutMs at hle
    omega
  · exact hx ⟨_, ⟨want, h₁, hwant, t₀, now, _, ⟨es, rfl, hes⟩, rfl, hle⟩, hpre⟩

theorem exists_bytes {h : Hist} {t : ℕ}
    (hsent : received h <+: p.stream c cfg devSerial (written h))
    (hne : received h ≠ p.stream c cfg devSerial (written h)) :
    ∃ answer : Option Bytes, steadyEnv c cfg devSerial p app h (.queueReceive t) answer := by
  obtain ⟨pending, hpending⟩ := hsent
  cases pending with
  | nil =>
    rw [List.append_nil] at hpending
    exact absurd hpending hne
  | cons b pending =>
    refine ⟨some [b], ?_, nofun, nofun⟩
    rintro data hdata
    cases hdata
    refine ⟨(by decide : 1 ≤ notifyChunkMax), pending, ?_⟩
    rw [← hpending, List.append_assoc]
    rfl

/-- What the device sends behind a prefix of the script is a prefix of all it sends. -/
theorem stream_isPrefix_frames (hinv : c.Invertible) {ws : List Bytes}
    (hws : ws <+: script c cfg devSerial app.1 (p.session c cfg app.1)) :
    p.stream c cfg devSerial ws <+: encode (p.frames c cfg app.1) := by
  obtain ⟨more, hmore⟩ := after_isPrefix_frames (p := p) hinv hws
  rw [← hmore, encode_append]
  exact List.prefix_append _ _

end Peer

/-- **Completion.** With an honest device, if no call fails, no deadline passes and bytes that are
pending arrive, every complete run of `river2_auth_run` returns `ESP_OK` with the device's session,
however the bytes are cut, and the device has read the credentials. -/
theorem handshake_completes {fuel : ℕ} {outSession : Option Session} (hinv : c.Invertible)
    (hp : p.Honest c app) (hcred : (credentials cfg devSerial).length ≤ md5InCap)
    (hfuel : 2 * (Peer.encode (p.frames c cfg app.1)).length < fuel)
    {h : Hist} {q : Fw (EspErr × Option Session)}
    (hrun : Completes (Peer.steadyEnv c cfg devSerial p app)
      (authRun c cfg devSerial fuel outSession) h q) :
    q = .ret (.ok, some (p.session c cfg app.1)) ∧
      (p.after c cfg devSerial (written h)).1 = .done (p.session c cfg app.1) := by
  obtain ⟨hreach, hstuck⟩ := hrun
  have hans := logged_free hreach
  have hpeer := hreach.mono fun _ _ _ => Peer.peer_of_steady
  have hpans := logged_free hpeer
  have hhash := hpeer.mono fun _ _ _ => Peer.hash_of_peer
  have hwp := wp_reach (C := handshakeContract c cfg devSerial fuel) wp_authRun hhash
  have hlog := logged_authRun hhash
  have hfault := not_fault (Peer.logged_scenario hans)
  have hexpired := not_expired (Peer.logged_scenario hans)
  have hsettle := settle_phase hlog (Peer.logged_scenario hans)
  have hws := Peer.written_isPrefix_script hinv hp hpans hlog
  have hxs := (Peer.extracted_isPrefix_after hinv hp hpans hlog hws).trans
    (Peer.after_isPrefix_frames hinv hws)
  have hstream := Peer.received_isPrefix_stream hpans
  cases q with
  | ret r =>
    rcases hwp with ⟨session, fb, rfl, -⟩ | ⟨-, hne, hf | hx | hph⟩
    · obtain ⟨hout, hdone⟩ := Peer.agreed_of_ok hinv hp hpeer
      cases hout
      exact ⟨rfl, hdone⟩
    · exact absurd hf hfault
    · exact absurd hx.expired hexpired
    · -- a refusal would be final, but all the frames lead to the session
      have hresult : (phaseAfter c cfg devSerial (Peer.scenario app h) (extracted h)).result none =
          some (r.1, none) := by
        rw [← hsettle, hph]
        rfl
      have hfinal := result_of_isPrefix hxs hresult
      rw [Peer.phaseAfter_frames (Peer.steady_scenario app h) hinv hp hcred] at hfinal
      exact absurd (Prod.ext_iff.mp (Option.some.inj hfinal)).2 nofun
  | throw err => exact hwp.elim
  | spin =>
    have hweight : fuel ≤ weight h := hwp
    have hwaits := Peer.waits_le_received hans hinv hp hcred hlog
    have hlen := (hstream.trans (Peer.stream_isPrefix_frames hinv hws)).length_le
    unfold weight at hweight
    omega
  | call e k =>
    obtain ⟨a, ha⟩ : ∃ a, Peer.steadyEnv c cfg devSerial p app h e a := by
      cases e with
      | getTime =>
        obtain ⟨t, ht⟩ := Peer.exists_not_expired hexpired
        exact ⟨t, trivial, ht⟩
      | queueReceive t =>
        obtain ⟨hwait, hdrained | hf⟩ := hwp.1
        · have hmore := Peer.received_ne_stream hans hinv hp hcred hlog hwait hdrained
          exact Peer.exists_bytes hstream hmore
        · exact absurd hf hfault
      | alloc => exact ⟨true, trivial, rfl⟩
      | makeKey => exact ⟨some app, fun _ hkp => (Option.some.inj hkp).symm, rfl⟩
      | sharedSecret => exact ⟨true, trivial, rfl⟩
      | psa op => exact ⟨true, trivial, rfl⟩
      | bleWrite d => exact ⟨.ok, trivial, rfl⟩
      | hashCompute => exact ⟨.success, rfl, trivial⟩
      | load x => exact ⟨(0 : Int8), trivial, trivial⟩
      | notifyWait => exact ⟨(0 : UInt32), trivial, trivial⟩
      | extracted f => exact ⟨(), trivial, trivial⟩
      | store x v => exact ⟨(), trivial, trivial⟩
      | notify bits => exact ⟨(), trivial, trivial⟩
      | commanding x => exact ⟨(), trivial, trivial⟩
    exact absurd ha (hstuck e k rfl a)

/-- The recorded device and the app end with the recorded session. -/
theorem handshake_completes_sample : ∃ h,
    Completes (Peer.steadyEnv Sample.pairCrypto Sample.config Sample.config.efSerial.1 Sample.peer
        (Sample.ourPub, Sample.priv))
      (authRun Sample.pairCrypto Sample.config Sample.config.efSerial.1 1000 none) h
      (.ret (.ok, some Sample.session)) ∧
    (Sample.peer.after Sample.pairCrypto Sample.config Sample.config.efSerial.1
      (written h)).1 = .done Sample.session := by
  have hsession : Sample.peer.session Sample.pairCrypto Sample.config Sample.ourPub =
    Sample.session := by decide +kernel
  have hfuel : 2 * (Peer.encode (Sample.peer.frames Sample.pairCrypto Sample.config
    (Sample.ourPub, Sample.priv).1)).length < 1000 := by decide +kernel
  obtain ⟨⟨h, q⟩, hrun⟩ := exists_stuck (Peer.steadyEnv Sample.pairCrypto Sample.config
    Sample.config.efSerial.1 Sample.peer (Sample.ourPub, Sample.priv))
    (authRun Sample.pairCrypto Sample.config Sample.config.efSerial.1 1000 none) []
  have hcred : (credentials Sample.config Sample.config.efSerial.1).length ≤ md5InCap := by
    decide +kernel
  have hdone := handshake_completes Sample.pairCrypto_invertible Sample.honest_peer
    hcred hfuel hrun
  rw [hsession] at hdone
  rw [hdone.1] at hrun
  exact ⟨h, hrun, hdone.2⟩

end River2
