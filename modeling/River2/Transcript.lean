import River2.Handshake
import River2.Recording

/-!
# What a handshake has written and read

1. `Reached`: for every phase, the frames written on the way to it and the replies that led there.
   `tracked_snoc` is its step, `tracked_of_logged` its run.
2. `handshake_script`: the order of the frames, the replies each of them waits for, and what an
   `ESP_OK` implies.
3. `session_correct`: `*out_session` is the session of the protocol document, or untouched.
-/

namespace River2

open Prog

variable (c : Crypto) (cfg : EcoflowConfig) (devSerial : Bytes)

/-! ## Replies -/

/-- No frame of a type. -/
def NoType (frameType : UInt8) (xs : List Frame) : Prop := ∀ f ∈ xs, f.frameType ≠ frameType

/-- The frames end with a key reply, the first command frame among them, that leads to the interim
session. -/
def KeyRead (priv : Octets 21) (interim : Session) (xs : List Frame) : Prop :=
  ∃ skipped reply, xs = skipped ++ [⟨frameCommand, reply⟩] ∧ NoType frameCommand skipped ∧
    keyReply c priv reply = .ok interim

/-- The frames end with a session-key reply, the first command frame among them, that leads to the
session. -/
def SeedRead (interim session : Session) (xs : List Frame) : Prop :=
  ∃ skipped reply, xs = skipped ++ [⟨frameCommand, reply⟩] ∧ NoType frameCommand skipped ∧
    seedReply c cfg interim reply = .ok session

/-- The frames end with a data frame that decrypts to a valid packet with a property. -/
def PacketRead (session : Session) (P : InnerPacket → Prop) (xs : List Frame) : Prop :=
  ∃ skipped reply plain pkt, xs = skipped ++ [⟨frameData, reply⟩] ∧
    decrypted c session reply 256 = .ok plain ∧ innerParse plain = some pkt ∧ P pkt

/-! ## The script -/

def keyFrame (ourPub : Octets 40) : Bytes := frameBytes frameCommand ([0x01, 0x00] ++ ourPub.1)

def seedFrame : Bytes := frameBytes frameCommand [0x02]

def statusFrame (session : Session) : Bytes :=
  packetFrame c session addrApp addrAuth 0x35 0x89 []

def authFrame (session : Session) : Bytes :=
  packetFrame c session addrApp addrAuth 0x35 0x86
    (hexPayload (c.md5 (credentials cfg devSerial)).1)

/-- The frames of a complete handshake. -/
def script (ourPub : Octets 40) (session : Session) : List Bytes :=
  [keyFrame ourPub, seedFrame, statusFrame c session, authFrame c cfg devSerial session]

def sentOk (ds : List Bytes) : List (Bytes × EspErr) := ds.map fun d => (d, .ok)

/-- The first two replies led to the session. -/
def SessionRead (keys : List (Octets 40 × Octets 21)) (ourPub : Octets 40) (session : Session)
    (xs ys : List Frame) : Prop :=
  ∃ priv interim, keys = [(ourPub, priv)] ∧ KeyRead c priv interim xs ∧
    SeedRead c cfg interim session ys

/-- The key pairs made, the writes and the frames extracted on the way to a phase. -/
def Reached (keys : List (Octets 40 × Octets 21)) (sends : List (Bytes × EspErr))
    (frames : List Frame) : Phase → Prop
  | .start => keys = [] ∧ sends = [] ∧ frames = []
  | .sendKey ourPub priv => keys = [(ourPub, priv)] ∧ sends = [] ∧ frames = []
  | .awaitKey priv => ∃ ourPub, keys = [(ourPub, priv)] ∧ sends = sentOk [keyFrame ourPub] ∧
      NoType frameCommand frames
  | .sendSeed interim => ∃ ourPub priv, keys = [(ourPub, priv)] ∧
      sends = sentOk [keyFrame ourPub] ∧ KeyRead c priv interim frames
  | .awaitSeed interim => ∃ ourPub priv xs ys, keys = [(ourPub, priv)] ∧
      sends = sentOk [keyFrame ourPub, seedFrame] ∧ frames = xs ++ ys ∧
      KeyRead c priv interim xs ∧ NoType frameCommand ys
  | .sendStatus session => ∃ ourPub xs ys, sends = sentOk [keyFrame ourPub, seedFrame] ∧
      frames = xs ++ ys ∧ SessionRead c cfg keys ourPub session xs ys
  | .awaitStatus session => ∃ ourPub xs ys zs,
      sends = sentOk [keyFrame ourPub, seedFrame, statusFrame c session] ∧
      frames = xs ++ ys ++ zs ∧ SessionRead c cfg keys ourPub session xs ys
  | .sendAuth session => ∃ ourPub xs ys zs,
      sends = sentOk [keyFrame ourPub, seedFrame, statusFrame c session] ∧
      frames = xs ++ ys ++ zs ∧ SessionRead c cfg keys ourPub session xs ys ∧
      PacketRead c session isStatusReply zs
  | .awaitResult session => ∃ ourPub xs ys zs ws,
      sends = sentOk (script c cfg devSerial ourPub session) ∧
      frames = xs ++ ys ++ zs ++ ws ∧ SessionRead c cfg keys ourPub session xs ys ∧
      PacketRead c session isStatusReply zs
  | .accepted session => ∃ ourPub xs ys zs ws,
      sends = sentOk (script c cfg devSerial ourPub session) ∧
      frames = xs ++ ys ++ zs ++ ws ∧ SessionRead c cfg keys ourPub session xs ys ∧
      PacketRead c session isStatusReply zs ∧ PacketRead c session (authVerdict · = .ok) ws
  | .refused _ => ∃ ourPub priv session, keys = [(ourPub, priv)] ∧
      sends.map Prod.fst <+: script c cfg devSerial ourPub session

variable {c cfg devSerial}

theorem NoType.snoc {frameType : UInt8} {xs : List Frame} {f : Frame} (hn : NoType frameType xs)
    (hf : f.frameType ≠ frameType) : NoType frameType (xs ++ [f]) := by
  intro g hg
  rcases List.mem_append.mp hg with hg | hg
  · exact hn g hg
  · rw [List.mem_singleton.mp hg]
    exact hf

theorem noType_nil (frameType : UInt8) : NoType frameType [] :=
  fun _ hf => absurd hf List.not_mem_nil

theorem sentOk_fst (ds : List Bytes) : (sentOk ds).map Prod.fst = ds := by
  unfold sentOk
  rw [List.map_map]
  exact List.map_id ds

theorem SessionRead.keys {keys : List (Octets 40 × Octets 21)} {ourPub : Octets 40}
    {session : Session} {xs ys : List Frame} (h : SessionRead c cfg keys ourPub session xs ys) :
    ∃ priv, keys = [(ourPub, priv)] := by
  obtain ⟨priv, interim, hk, -⟩ := h
  exact ⟨priv, hk⟩

theorem PacketRead.of_snoc {session : Session} {P : InnerPacket → Prop} {xs : List Frame}
    {reply plain : Bytes} {pkt : InnerPacket} (hd : decrypted c session reply 256 = .ok plain)
    (hp : innerParse plain = some pkt) (hP : P pkt) :
    PacketRead c session P (xs ++ [⟨frameData, reply⟩]) :=
  ⟨xs, reply, plain, pkt, rfl, hd, hp, hP⟩

/-! ## One event -/

variable {keys : List (Octets 40 × Octets 21)} {sends : List (Bytes × EspErr)}
  {frames : List Frame}

theorem reached_refused {ds : List Bytes} {ourPub : Octets 40} {session : Session} {err : EspErr}
    (hk : ∃ priv, keys = [(ourPub, priv)]) (hds : ds <+: script c cfg devSerial ourPub session) :
    Reached c cfg devSerial keys (sentOk ds) frames (.refused err) := by
  obtain ⟨priv, hk⟩ := hk
  exact ⟨ourPub, priv, session, hk, by rwa [sentOk_fst]⟩

theorem reached_unsent {ds : List Bytes} {d : Bytes} {ourPub : Octets 40} {session : Session}
    {err err' : EspErr} (hk : ∃ priv, keys = [(ourPub, priv)])
    (hds : ds ++ [d] <+: script c cfg devSerial ourPub session) :
    Reached c cfg devSerial keys (sentOk ds ++ [(d, err)]) frames (.refused err') := by
  obtain ⟨priv, hk⟩ := hk
  refine ⟨ourPub, priv, session, hk, ?_⟩
  rw [List.map_append, sentOk_fst]
  exact hds

theorem reached_sent {ph : Phase} {d : Bytes} (hr : Reached c cfg devSerial keys sends frames ph)
    (hdue : ph.due c cfg devSerial = some d) (err : EspErr) :
    Reached c cfg devSerial keys (sends ++ [(d, err)]) frames (ph.sent err) := by
  cases ph with
  | sendKey ourPub priv =>
    obtain ⟨hk, rfl, rfl⟩ := hr
    cases hdue
    by_cases he : err = .ok
    · subst he
      exact ⟨ourPub, hk, rfl, noType_nil _⟩
    · rw [show Phase.sent err (.sendKey ourPub priv) = .refused err from if_neg he]
      exact @reached_unsent _ _ _ _ _ [] _ ourPub default _ _ ⟨priv, hk⟩ ⟨_, rfl⟩
  | sendSeed interim =>
    obtain ⟨ourPub, priv, hk, rfl, hx⟩ := hr
    cases hdue
    by_cases he : err = .ok
    · subst he
      exact ⟨ourPub, priv, frames, [], hk, rfl, (List.append_nil _).symm, hx, noType_nil _⟩
    · rw [show Phase.sent err (.sendSeed interim) = .refused err from if_neg he]
      exact @reached_unsent _ _ _ _ _ _ _ ourPub default _ _ ⟨priv, hk⟩ ⟨_, rfl⟩
  | sendStatus session =>
    obtain ⟨ourPub, xs, ys, rfl, rfl, hs⟩ := hr
    cases hdue
    by_cases he : err = .ok
    · subst he
      exact ⟨ourPub, xs, ys, [], rfl, (List.append_nil _).symm, hs⟩
    · rw [show Phase.sent err (.sendStatus session) = .refused err from if_neg he]
      exact reached_unsent hs.keys ⟨_, rfl⟩
  | sendAuth session =>
    obtain ⟨ourPub, xs, ys, zs, rfl, rfl, hs, hp⟩ := hr
    cases hdue
    by_cases he : err = .ok
    · subst he
      exact ⟨ourPub, xs, ys, zs, [], rfl, (List.append_nil _).symm, hs, hp⟩
    · rw [show Phase.sent err (.sendAuth session) = .refused err from if_neg he]
      exact reached_unsent hs.keys ⟨_, rfl⟩
  | _ => cases hdue

theorem reached_frame {ph : Phase} (hr : Reached c cfg devSerial keys sends frames ph)
    (hwait : ph.waiting = true) (f : Frame) :
    Reached c cfg devSerial keys sends (frames ++ [f]) (ph.frame c cfg devSerial f) := by
  obtain ⟨frameType, reply⟩ := f
  cases ph with
  | awaitKey priv =>
    obtain ⟨ourPub, hk, rfl, hno⟩ := hr
    by_cases hty : frameType = frameCommand
    · subst hty
      rw [Phase.frame_awaitKey]
      cases hkey : keyReply c priv reply with
      | error err => exact @reached_refused _ _ _ _ _ _ ourPub default _ ⟨priv, hk⟩ ⟨_, rfl⟩
      | ok interim => exact ⟨ourPub, priv, hk, rfl, frames, reply, rfl, hno, hkey⟩
    · rw [Phase.frame_of_ne (show Phase.want (.awaitKey priv) = _ from rfl) hty]
      exact ⟨ourPub, hk, rfl, hno.snoc hty⟩
  | awaitSeed interim =>
    obtain ⟨ourPub, priv, xs, ys, hk, rfl, rfl, hkey, hno⟩ := hr
    by_cases hty : frameType = frameCommand
    · subst hty
      rw [Phase.frame_awaitSeed]
      cases hseed : seedReply c cfg interim reply with
      | error err => exact @reached_refused _ _ _ _ _ _ ourPub default _ ⟨priv, hk⟩ ⟨_, rfl⟩
      | ok session =>
        exact ⟨ourPub, xs, ys ++ [⟨frameCommand, reply⟩], rfl, List.append_assoc .., priv, interim,
          hk, hkey, ys, reply, rfl, hno, hseed⟩
    · rw [Phase.frame_of_ne (show Phase.want (.awaitSeed interim) = _ from rfl) hty]
      exact ⟨ourPub, priv, xs, ys ++ [_], hk, rfl, List.append_assoc .., hkey, hno.snoc hty⟩
  | awaitStatus session =>
    obtain ⟨ourPub, xs, ys, zs, rfl, rfl, hs⟩ := hr
    have hstay : Reached c cfg devSerial keys _ (xs ++ ys ++ zs ++ [⟨frameType, reply⟩])
      (.awaitStatus session) := ⟨ourPub, xs, ys, zs ++ [_], rfl, List.append_assoc .., hs⟩
    by_cases hty : frameType = frameData
    · subst hty
      rw [Phase.frame_awaitStatus]
      cases hd : decrypted c session reply 256 with
      | error err => exact reached_refused hs.keys ⟨_, rfl⟩
      | ok plain =>
        show Reached c cfg devSerial keys _ _ (statusPacket cfg devSerial session plain)
        unfold statusPacket
        cases hp : innerParse plain with
        | none => exact hstay
        | some pkt =>
          dsimp only
          split_ifs with hst hlong
          · exact reached_refused hs.keys ⟨_, rfl⟩
          · exact ⟨ourPub, xs, ys, zs ++ [_], rfl, List.append_assoc .., hs, .of_snoc hd hp hst⟩
          · exact hstay
    · rw [Phase.frame_of_ne (show Phase.want (.awaitStatus session) = _ from rfl) hty]
      exact hstay
  | awaitResult session =>
    obtain ⟨ourPub, xs, ys, zs, ws, rfl, rfl, hs, hst⟩ := hr
    have hstay : Reached c cfg devSerial keys _ (xs ++ ys ++ zs ++ ws ++ [⟨frameType, reply⟩])
      (.awaitResult session) := ⟨ourPub, xs, ys, zs, ws ++ [_], rfl, List.append_assoc .., hs, hst⟩
    by_cases hty : frameType = frameData
    · subst hty
      rw [Phase.frame_awaitResult]
      cases hd : decrypted c session reply 256 with
      | error err => exact reached_refused hs.keys ⟨[], List.append_nil _⟩
      | ok plain =>
        show Reached c cfg devSerial keys _ _ (resultPacket session plain)
        unfold resultPacket
        cases hp : innerParse plain with
        | none => exact hstay
        | some pkt =>
          dsimp only
          split_ifs with hok
          · exact ⟨ourPub, xs, ys, zs, ws ++ [_], rfl, List.append_assoc .., hs, hst,
              .of_snoc hd hp hok⟩
          · exact reached_refused hs.keys ⟨[], List.append_nil _⟩
    · rw [Phase.frame_of_ne (show Phase.want (.awaitResult session) = _ from rfl) hty]
      exact hstay
  | _ => cases hwait

/-! ## Runs -/

variable (c cfg devSerial) in
/-- What the phase of a history says about it. -/
def Tracked (h : Hist) : Prop :=
  Reached c cfg devSerial (keyPairs h) (writes h) (extracted h) (phase c cfg devSerial h)

variable {fuel : ℕ}

theorem tracked_snoc {h : Hist} {ev : Event Answer} (ht : Tracked c cfg devSerial h)
    (hpre : (handshakeContract c cfg devSerial fuel).pre h ev.1) :
    Tracked c cfg devSerial (h ++ [ev]) := by
  obtain ⟨e, a⟩ := ev
  unfold Tracked at ht ⊢
  rw [keyPairs_append, writes_append, extracted_append, phase_snoc]
  cases e with
  | makeKey =>
    have hstart : phase c cfg devSerial h = .start := hpre
    rw [hstart] at ht ⊢
    obtain ⟨hk, hw, hx⟩ := ht
    rw [hk, hw, hx]
    rcases a with _ | ⟨ourPub, priv⟩
    · exact ⟨rfl, rfl, rfl⟩
    · exact ⟨rfl, rfl, rfl⟩
  | bleWrite d =>
    show Reached c cfg devSerial (keyPairs h ++ []) (writes h ++ [(d, a)]) (extracted h ++ []) _
    rw [List.append_nil, List.append_nil]
    exact reached_sent ht hpre a
  | extracted f =>
    show Reached c cfg devSerial (keyPairs h ++ []) (writes h ++ []) (extracted h ++ [f]) _
    rw [List.append_nil, List.append_nil]
    exact reached_frame ht hpre.1 f
  | _ =>
    show Reached c cfg devSerial (keyPairs h ++ []) (writes h ++ []) (extracted h ++ []) _
    rw [List.append_nil, List.append_nil, List.append_nil]
    exact ht

/-- Every history of the handshake is what its phase says. -/
theorem tracked_of_logged {h : Hist} (hlog : Logged (handshakeContract c cfg devSerial fuel) h) :
    Tracked c cfg devSerial h := by
  induction h using List.reverseRecOn with
  | nil => exact ⟨rfl, rfl, rfl⟩
  | append_singleton h ev ih =>
    exact tracked_snoc (ih hlog.of_append) (hlog h ev [] rfl).1

/-! ## The order of the handshake -/

variable (c cfg) in
/-- The frames end with a command frame that starts with `0x01`, selects a key of 40 bytes and
carries a valid one; the interim session is made of the secret it gives with our private key. -/
def KeyAccepted (priv : Octets 21) (interim : Session) (xs : List Frame) : Prop :=
  ∃ skipped reply, xs = skipped ++ [⟨frameCommand, reply⟩] ∧ reply.getD 0 0 = 0x01 ∧
    devPubSize (reply.getD 2 0) = 40 ∧ 3 + 40 ≤ reply.length ∧
    c.validPublicKey (slice reply 3 40) = true ∧
    interim = interimOf (c.sharedSecret (slice reply 3 40) priv)
      (c.md5 (c.sharedSecret (slice reply 3 40) priv).1)

variable (c cfg) in
/-- The frames end with a command frame that starts with `0x02` and decrypts to at least 18 bytes,
whose seed indexes inside the lookup table; the session is the one it leads to. -/
def SeedAccepted (interim session : Session) (ys : List Frame) : Prop :=
  ∃ skipped reply plain data, ys = skipped ++ [⟨frameCommand, reply⟩] ∧ reply.getD 0 0 = 0x02 ∧
    decrypted c interim (reply.drop 1) 64 = .ok plain ∧ 18 ≤ plain.length ∧
    (0 ≤ lookupPos (slice plain 16 2) ∧ lookupPos (slice plain 16 2) + 16 ≤ lutSize) ∧
    sessionKeyData cfg (slice plain 16 2) (slice plain 0 16) = .ok data ∧
    session = ⟨c.md5 data, interim.iv⟩

theorem keyReply_ok {priv : Octets 21} {reply : Bytes} {interim : Session}
    (h : keyReply c priv reply = .ok interim) :
    (reply.getD 0 0 = 0x01 ∧ devPubSize (reply.getD 2 0) = 40 ∧ 3 + 40 ≤ reply.length ∧
      c.validPublicKey (slice reply 3 40) = true) ∧
    interim = interimOf (c.sharedSecret (slice reply 3 40) priv)
      (c.md5 (c.sharedSecret (slice reply 3 40) priv).1) := by
  unfold keyReply keyReplyPub at h
  dsimp only at h
  split_ifs at h with h₁ h₂ h₃
  · cases h
  · cases h
  · cases h
  have h₂ := not_not.mp h₂
  rw [h₂] at h h₃
  replace h : (if c.validPublicKey (slice reply 3 40) = false then Except.error EspErr.invalidArg
    else .ok (interimOf (c.sharedSecret (slice reply 3 40) priv)
      (c.md5 (c.sharedSecret (slice reply 3 40) priv).1))) = .ok interim := h
  split_ifs at h with h₄
  obtain ⟨-, hkind⟩ := not_or.mp h₁
  exact ⟨⟨not_not.mp hkind, h₂, by omega, Bool.eq_true_of_not_eq_false h₄⟩,
    (Except.ok.inj h).symm⟩

theorem seedReply_ok {interim session : Session} {reply : Bytes}
    (h : seedReply c cfg interim reply = .ok session) :
    ∃ plain data, reply.getD 0 0 = 0x02 ∧ decrypted c interim (reply.drop 1) 64 = .ok plain ∧
      18 ≤ plain.length ∧
      (0 ≤ lookupPos (slice plain 16 2) ∧ lookupPos (slice plain 16 2) + 16 ≤ lutSize) ∧
      sessionKeyData cfg (slice plain 16 2) (slice plain 0 16) = .ok data ∧
      session = ⟨c.md5 data, interim.iv⟩ := by
  unfold seedReply seedReplyBody at h
  split_ifs at h with h₁
  · cases h
  obtain ⟨-, hkind⟩ := not_or.mp h₁
  cases hd : decrypted c interim (reply.drop 1) 64 with
  | error err =>
    replace h : (decrypted c interim (reply.drop 1) 64 >>= seedSession c cfg interim) =
      .ok session := h
    rw [hd] at h
    cases h
  | ok plain =>
    replace h : (decrypted c interim (reply.drop 1) 64 >>= seedSession c cfg interim) =
      .ok session := h
    rw [hd] at h
    replace h : seedSession c cfg interim plain = .ok session := h
    unfold seedSession at h
    split_ifs at h with h₂
    cases hk : sessionKeyData cfg (slice plain 16 2) (slice plain 0 16) with
    | error err =>
      rw [hk] at h
      cases h
    | ok data =>
      rw [hk] at h
      have hpos := hk
      unfold sessionKeyData at hpos
      dsimp only at hpos
      split_ifs at hpos with h₃
      obtain ⟨h₃, h₄⟩ := not_or.mp h₃
      exact ⟨plain, data, not_not.mp hkind, rfl, by omega, ⟨by omega, by omega⟩, hk,
        (Except.ok.inj h).symm⟩

theorem KeyRead.accepted {priv : Octets 21} {interim : Session} {xs : List Frame}
    (hr : KeyRead c priv interim xs) : KeyAccepted c priv interim xs := by
  obtain ⟨skipped, reply, rfl, -, hkey⟩ := hr
  obtain ⟨⟨hkind, hsize, hlen, hvalid⟩, hinterim⟩ := keyReply_ok hkey
  exact ⟨skipped, reply, rfl, hkind, hsize, hlen, hvalid, hinterim⟩

theorem SeedRead.accepted {interim session : Session} {ys : List Frame}
    (hr : SeedRead c cfg interim session ys) : SeedAccepted c cfg interim session ys := by
  obtain ⟨skipped, reply, rfl, -, hseed⟩ := hr
  obtain ⟨plain, data, hrest⟩ := seedReply_ok hseed
  exact ⟨skipped, reply, plain, data, rfl, hrest⟩

theorem authVerdict_ok_iff {pkt : InnerPacket} :
    authVerdict pkt = .ok ↔ (isAuthReply pkt → pkt.payload = [0x00]) := by
  unfold authVerdict
  dsimp only
  by_cases ha : isAuthReply pkt
  · rw [if_neg (not_not_intro ha)]
    constructor
    · intro hv _
      by_cases hlen : pkt.payload.length = 1
      · obtain ⟨b, hb⟩ := List.length_eq_one_iff.mp hlen
        rw [hb] at hv ⊢
        by_cases h0 : b = 0x00
        · rw [h0]
        · rw [if_neg (fun h => h0 h.2)] at hv
          cases hv
      · rw [if_neg (fun h => hlen h.1)] at hv
        cases hv
    · intro hv
      rw [hv ha]
      rfl
  · rw [if_pos ha]
    exact ⟨fun _ h => absurd h ha, fun _ => rfl⟩

/-- In every phase the frames written are a prefix of the script for the key pair made, if any. -/
theorem Reached.isPrefix_script {ph : Phase} (hr : Reached c cfg devSerial keys sends frames ph) :
    ∃ ourPub session, (sends.map Prod.fst ≠ [] → ∃ priv, keys = [(ourPub, priv)]) ∧
      sends.map Prod.fst <+: script c cfg devSerial ourPub session := by
  have hsent : ∀ ds ourPub session, (∃ priv, keys = [(ourPub, priv)]) →
      ds <+: script c cfg devSerial ourPub session →
      ∃ ourPub session, ((sentOk ds).map Prod.fst ≠ [] → ∃ priv, keys = [(ourPub, priv)]) ∧
        (sentOk ds).map Prod.fst <+: script c cfg devSerial ourPub session := by
    intro ds ourPub session hk hds
    exact ⟨ourPub, session, fun _ => hk, by rwa [sentOk_fst]⟩
  cases ph with
  | start =>
    obtain ⟨-, rfl, -⟩ := hr
    exact ⟨⟨List.replicate 40 0, rfl⟩, default, fun hne => absurd rfl hne, List.nil_prefix⟩
  | sendKey ourPub priv =>
    obtain ⟨hk, rfl, -⟩ := hr
    exact ⟨ourPub, default, fun _ => ⟨priv, hk⟩, List.nil_prefix⟩
  | awaitKey priv =>
    obtain ⟨ourPub, hk, rfl, -⟩ := hr
    exact hsent _ ourPub default ⟨priv, hk⟩ ⟨_, rfl⟩
  | sendSeed interim =>
    obtain ⟨ourPub, priv, hk, rfl, -⟩ := hr
    exact hsent _ ourPub default ⟨priv, hk⟩ ⟨_, rfl⟩
  | awaitSeed interim =>
    obtain ⟨ourPub, priv, _, _, hk, rfl, -⟩ := hr
    exact hsent _ ourPub default ⟨priv, hk⟩ ⟨_, rfl⟩
  | sendStatus session =>
    obtain ⟨ourPub, _, _, rfl, -, hs⟩ := hr
    exact hsent _ ourPub session hs.keys ⟨_, rfl⟩
  | awaitStatus session =>
    obtain ⟨ourPub, _, _, _, rfl, -, hs⟩ := hr
    exact hsent _ ourPub session hs.keys ⟨_, rfl⟩
  | sendAuth session =>
    obtain ⟨ourPub, _, _, _, rfl, -, hs, -⟩ := hr
    exact hsent _ ourPub session hs.keys ⟨_, rfl⟩
  | awaitResult session =>
    obtain ⟨ourPub, _, _, _, _, rfl, -, hs, -⟩ := hr
    exact hsent _ ourPub session hs.keys List.prefix_rfl
  | accepted session =>
    obtain ⟨ourPub, _, _, _, _, rfl, -, hs, -⟩ := hr
    exact hsent _ ourPub session hs.keys List.prefix_rfl
  | refused err =>
    obtain ⟨ourPub, priv, session, hk, hds⟩ := hr
    exact ⟨ourPub, session, fun _ => ⟨priv, hk⟩, hds⟩

theorem written_of_sentOk {h : Hist} {ds : List Bytes} (hw : writes h = sentOk ds) :
    written h = ds ∧ writes h = sentOk (written h) := by
  have hds : written h = ds := by
    unfold written
    rw [hw, sentOk_fst]
  exact ⟨hds, by rw [hds, hw]⟩

/-- When a frame is about to be written, it is the next of the script, and the replies that the
frames before it wait for have been received. -/
theorem gated_of_write {outSession : Option Session} {h : Hist} {d : Bytes}
    {k : EspErr → Fw (EspErr × Option Session)}
    (hrun : Reach hashEnv ([], authRun c cfg devSerial fuel outSession)
      (h, .call (.bleWrite d) k)) :
    ∃ ourPub priv session, keyPairs h = [(ourPub, priv)] ∧
      writes h = sentOk (written h) ∧ written h ++ [d] <+: script c cfg devSerial ourPub session ∧
      (1 ≤ (written h).length → ∃ interim xs, xs <+: framesOf (received h) ∧
        KeyAccepted c priv interim xs) ∧
      (2 ≤ (written h).length → ∃ interim xs ys, xs ++ ys <+: framesOf (received h) ∧
        KeyAccepted c priv interim xs ∧ SeedAccepted c cfg interim session ys) ∧
      (3 ≤ (written h).length → ∃ interim xs ys zs, xs ++ ys ++ zs <+: framesOf (received h) ∧
        KeyAccepted c priv interim xs ∧ SeedAccepted c cfg interim session ys ∧
        PacketRead c session isStatusReply zs) := by
  have hwp := wp_reach (C := handshakeContract c cfg devSerial fuel) wp_authRun hrun
  have hlog := logged_authRun hrun
  have ht := tracked_of_logged hlog
  have hpre := extracted_prefix_framesOf hlog
  unfold Tracked at ht
  have hdue : (phase c cfg devSerial h).due c cfg devSerial = some d := hwp.1
  cases hph : phase c cfg devSerial h with
  | sendKey ourPub priv =>
    rw [hph] at ht hdue
    cases hdue
    obtain ⟨hk, hw, -⟩ := ht
    have hw : writes h = sentOk [] := hw
    obtain ⟨hds, hall⟩ := written_of_sentOk hw
    rw [hds] at hall ⊢
    exact ⟨ourPub, priv, default, hk, hall, ⟨_, rfl⟩, nofun, nofun, nofun⟩
  | sendSeed interim =>
    rw [hph] at ht hdue
    cases hdue
    obtain ⟨ourPub, priv, hk, hw, hkey⟩ := ht
    obtain ⟨hds, hall⟩ := written_of_sentOk hw
    rw [hds] at hall ⊢
    refine ⟨ourPub, priv, default, hk, hall, ⟨_, rfl⟩, ?_, ?_, ?_⟩
    · intro _
      exact ⟨interim, _, hpre, hkey.accepted⟩
    · intro hlen
      simp at hlen
    · intro hlen
      simp at hlen
  | sendStatus session =>
    rw [hph] at ht hdue
    cases hdue
    obtain ⟨ourPub, xs, ys, hw, hx, priv, interim, hk, hkey, hseed⟩ := ht
    obtain ⟨hds, hall⟩ := written_of_sentOk hw
    rw [hx] at hpre
    rw [hds] at hall ⊢
    refine ⟨ourPub, priv, session, hk, hall, ⟨_, rfl⟩, ?_, ?_, ?_⟩
    · intro _
      exact ⟨interim, xs, (List.prefix_append xs ys).trans hpre, hkey.accepted⟩
    · intro _
      exact ⟨interim, xs, ys, hpre, hkey.accepted, hseed.accepted⟩
    · intro hlen
      simp at hlen
  | sendAuth session =>
    rw [hph] at ht hdue
    cases hdue
    obtain ⟨ourPub, xs, ys, zs, hw, hx, ⟨priv, interim, hk, hkey, hseed⟩, hst⟩ := ht
    obtain ⟨hds, hall⟩ := written_of_sentOk hw
    rw [hx] at hpre
    have hpre₂ := (List.prefix_append (xs ++ ys) zs).trans hpre
    rw [hds] at hall ⊢
    refine ⟨ourPub, priv, session, hk, hall, List.prefix_rfl, ?_, ?_, ?_⟩
    · intro _
      exact ⟨interim, xs, (List.prefix_append xs ys).trans hpre₂, hkey.accepted⟩
    · intro _
      exact ⟨interim, xs, ys, hpre₂, hkey.accepted, hseed.accepted⟩
    · intro _
      exact ⟨interim, xs, ys, zs, hpre, hkey.accepted, hseed.accepted, hst⟩
  | _ =>
    rw [hph] at hdue
    cases hdue

/-- When `ESP_OK` is returned, the whole script was written and all its replies were received. -/
theorem accepted_of_ok {outSession outSession' : Option Session} {h : Hist}
    (hrun : Reach hashEnv ([], authRun c cfg devSerial fuel outSession)
      (h, .ret (.ok, outSession'))) :
    ∃ ourPub priv session interim xs ys zs ws, keyPairs h = [(ourPub, priv)] ∧
      outSession' = some session ∧ writes h = sentOk (script c cfg devSerial ourPub session) ∧
      xs ++ ys ++ zs ++ ws <+: framesOf (received h) ∧ KeyAccepted c priv interim xs ∧
      SeedAccepted c cfg interim session ys ∧ PacketRead c session isStatusReply zs ∧
      PacketRead c session (fun pkt => isAuthReply pkt → pkt.payload = [0x00]) ws := by
  have hwp := wp_reach (C := handshakeContract c cfg devSerial fuel) wp_authRun hrun
  have hlog := logged_authRun hrun
  have ht := tracked_of_logged hlog
  have hpre := extracted_prefix_framesOf hlog
  unfold Tracked at ht
  rcases hwp with ⟨session, fb, hr, hph, hs⟩ | ⟨-, hne, -⟩
  · cases hr
    rw [hph] at ht
    obtain ⟨ourPub, xs, ys, zs, ws, hw, hx, ⟨priv, interim, hk, hkey, hseed⟩, hst, hres⟩ := ht
    rw [hx] at hpre
    obtain ⟨skipped, reply, plain, pkt, hws, hd, hp, hv⟩ := hres
    exact ⟨ourPub, priv, session, interim, xs, ys, zs, ws, hk, rfl, hw, hpre, hkey.accepted,
      hseed.accepted, hst, skipped, reply, plain, pkt, hws, hd, hp, authVerdict_ok_iff.mp hv⟩
  · exact absurd rfl hne

/-- **The handshake's order.** The frames written are a prefix of the script for the key pair made
in the run. When a frame is about to be written, all frames before it were written successfully and
the replies they wait for have been received, the session-key reply decrypted under the interim
session of the key reply. `ESP_OK` is returned only after all four, the last answered by a packet
that is no auth reply with an error code. -/
theorem handshake_script {outSession : Option Session} {h : Hist} {q : Fw (EspErr × Option Session)}
    (hrun : Reach hashEnv ([], authRun c cfg devSerial fuel outSession) (h, q)) :
    (∃ ourPub session, (written h ≠ [] → ∃ priv, keyPairs h = [(ourPub, priv)]) ∧
      written h <+: script c cfg devSerial ourPub session) ∧
    (∀ d k, q = .call (.bleWrite d) k → ∃ ourPub priv session, keyPairs h = [(ourPub, priv)] ∧
      writes h = sentOk (written h) ∧ written h ++ [d] <+: script c cfg devSerial ourPub session ∧
      (1 ≤ (written h).length → ∃ interim xs, xs <+: framesOf (received h) ∧
        KeyAccepted c priv interim xs) ∧
      (2 ≤ (written h).length → ∃ interim xs ys, xs ++ ys <+: framesOf (received h) ∧
        KeyAccepted c priv interim xs ∧ SeedAccepted c cfg interim session ys) ∧
      (3 ≤ (written h).length → ∃ interim xs ys zs, xs ++ ys ++ zs <+: framesOf (received h) ∧
        KeyAccepted c priv interim xs ∧ SeedAccepted c cfg interim session ys ∧
        PacketRead c session isStatusReply zs)) ∧
    (∀ outSession', q = .ret (.ok, outSession') → ∃ ourPub priv session interim xs ys zs ws,
      keyPairs h = [(ourPub, priv)] ∧ outSession' = some session ∧
      writes h = sentOk (script c cfg devSerial ourPub session) ∧
      xs ++ ys ++ zs ++ ws <+: framesOf (received h) ∧ KeyAccepted c priv interim xs ∧
      SeedAccepted c cfg interim session ys ∧ PacketRead c session isStatusReply zs ∧
      PacketRead c session (fun pkt => isAuthReply pkt → pkt.payload = [0x00]) ws) := by
  have hlog := logged_authRun hrun
  refine ⟨(tracked_of_logged hlog).isPrefix_script, ?_, ?_⟩
  · rintro d k rfl
    exact gated_of_write hrun
  · rintro outSession' rfl
    exact accepted_of_ok hrun

/-- The recorded handshake returns `ESP_OK` after the whole script. -/
theorem handshake_script_sample :
    (Sample.run Sample.replies).2 = .ret (.ok, some Sample.session) ∧
    ∃ ourPub priv session interim xs ys zs ws,
      keyPairs (Sample.run Sample.replies).1 = [(ourPub, priv)] ∧
      some Sample.session = some session ∧
      writes (Sample.run Sample.replies).1 =
        sentOk (script Sample.crypto Sample.config Sample.config.efSerial.1 ourPub session) ∧
      xs ++ ys ++ zs ++ ws <+: framesOf (received (Sample.run Sample.replies).1) ∧
      KeyAccepted Sample.crypto priv interim xs ∧
      SeedAccepted Sample.crypto Sample.config interim session ys ∧
      PacketRead Sample.crypto session isStatusReply zs ∧
      PacketRead Sample.crypto session (fun pkt => isAuthReply pkt → pkt.payload = [0x00]) ws :=
  ⟨Sample.run_replies, (handshake_script Sample.reach_replies).2.2 _ rfl⟩

/-! ## The session of the protocol document -/

/-- `u64_le`. -/
def u64Le (b : Bytes) : ℕ := b.foldr (fun x n => x.toNat + 256 * n) 0

/-- `pack_le_u64`. -/
def packLeU64 (n : ℕ) : Bytes := (List.range 8).map fun i => UInt8.ofNat (n / 256 ^ i)

variable (c cfg) in
/-- The session the document prescribes for our private key and the payloads of the two replies. -/
def docSession (priv : Octets 21) (reply₁ reply₂ : Bytes) : Session :=
  let secret := c.sharedSecret (slice reply₁ 3 40) priv
  let iv := c.md5 secret.1
  let plain := opened c (interimOf secret iv) (reply₂.drop 1)
  let sRand := slice plain 0 16
  let seed := slice plain 16 2
  let pos := (seed.getD 0 0).toNat * 0x10 + (seed.getD 1 0 - 1).toNat * 0x100
  let n₀ := u64Le (slice cfg.lookupTable.1 pos 8)
  let n₁ := u64Le (slice cfg.lookupTable.1 (pos + 8) 8)
  let n₂ := u64Le (slice sRand 0 8)
  let n₃ := u64Le (slice sRand 8 8)
  ⟨c.md5 (packLeU64 n₀ ++ packLeU64 n₁ ++ packLeU64 n₂ ++ packLeU64 n₃), iv⟩

theorem map_range_u64Le (b : Bytes) :
    (List.range b.length).map (fun i => UInt8.ofNat (u64Le b / 256 ^ i)) = b := by
  induction b with
  | nil => rfl
  | cons x b ih =>
    have hval : u64Le (x :: b) = x.toNat + 256 * u64Le b := rfl
    have hx := x.toNat_lt
    rw [List.length_cons, List.range_succ_eq_map, List.map_cons, List.map_map, hval]
    congr 1
    · apply UInt8.toNat_inj.mp
      rw [UInt8.toNat_ofNat']
      omega
    · refine Eq.trans (List.map_congr_left fun i _ => ?_) ih
      have hdiv : (x.toNat + 256 * u64Le b) / 256 ^ (i + 1) = u64Le b / 256 ^ i := by
        rw [Nat.pow_succ', ← Nat.div_div_eq_div_mul]
        congr 1
        omega
      rw [Function.comp_apply, hdiv]

/-- Reading and packing a group of eight bytes changes nothing. -/
theorem packLeU64_u64Le {b : Bytes} (h : b.length = 8) : packLeU64 (u64Le b) = b := by
  have := map_range_u64Le b
  rwa [h] at this

theorem slice_add (b : Bytes) (i m n : ℕ) :
    slice b i (m + n) = slice b i m ++ slice b (i + m) n := by
  unfold slice
  rw [List.take_add, List.drop_drop]

theorem slice_zero_self {b : Bytes} {n : ℕ} (h : b.length = n) : slice b 0 n = b := by
  unfold slice
  rw [List.drop_zero, ← h, List.take_length]

theorem packLeU64_pair {b : Bytes} {i : ℕ} (h : i + 16 ≤ b.length) :
    packLeU64 (u64Le (slice b i 8)) ++ packLeU64 (u64Le (slice b (i + 8) 8)) = slice b i 16 := by
  rw [packLeU64_u64Le (slice_length (by omega)), packLeU64_u64Le (slice_length (by omega)),
    ← slice_add]

theorem lookupPos_eq (seed : Bytes) :
    lookupPos seed = ((seed.getD 0 0).toNat * 0x10 + (seed.getD 1 0 - 1).toNat * 0x100 : ℕ) := by
  have hlt := (seed.getD 1 0).toNat_lt
  have hsub : (seed.getD 1 0 - 1).toNat = (2 ^ 8 - 1 + (seed.getD 1 0).toNat) % 2 ^ 8 :=
    UInt8.toNat_sub ..
  unfold lookupPos
  rw [hsub]
  omega

/-- The replies lead to the session of the document. -/
theorem docSession_eq {priv : Octets 21} {interim session : Session} {reply₁ reply₂ : Bytes}
    (hkey : keyReply c priv reply₁ = .ok interim)
    (hseed : seedReply c cfg interim reply₂ = .ok session) :
    session = docSession c cfg priv reply₁ reply₂ := by
  obtain ⟨-, rfl⟩ := keyReply_ok hkey
  obtain ⟨plain, data, -, hd, hlen, hpos, hdata, rfl⟩ := seedReply_ok hseed
  have hplain : opened c (interimOf (c.sharedSecret (slice reply₁ 3 40) priv)
      (c.md5 (c.sharedSecret (slice reply₁ 3 40) priv).1)) (reply₂.drop 1) = plain := by
    unfold decrypted at hd
    split_ifs at hd
    exact Except.ok.inj hd
  unfold sessionKeyData at hdata
  dsimp only at hdata
  split_ifs at hdata
  rw [lookupPos_eq] at hpos hdata
  obtain ⟨-, hpos⟩ := hpos
  have hrand : (slice plain 0 16).length = 16 := slice_length (by omega)
  unfold docSession
  dsimp only
  rw [hplain, List.append_assoc _ (packLeU64 _) (packLeU64 _),
    packLeU64_pair (b := cfg.lookupTable.1) (by rw [cfg.lookupTable.2]; omega),
    packLeU64_pair (b := slice plain 0 16) (i := 0) (by omega), slice_zero_self hrand]
  rw [Int.toNat_natCast] at hdata
  cases hdata
  rfl

/-- **The session, and nothing else.** Unless `ESP_OK` is returned, `*out_session` is as it was. If
it is, then `*out_session` is the session the document prescribes for the first two command frames
received, a key reply and a session-key reply, and for the key pair made in the run. -/
theorem session_correct {outSession outSession' : Option Session} {h : Hist} {err : EspErr}
    (hrun : Reach hashEnv ([], authRun c cfg devSerial fuel outSession)
      (h, .ret (err, outSession'))) :
    (err ≠ .ok → outSession' = outSession) ∧
    (err = .ok → ∃ ourPub priv skipped₁ reply₁ skipped₂ reply₂, keyPairs h = [(ourPub, priv)] ∧
      skipped₁ ++ [⟨frameCommand, reply₁⟩] ++ skipped₂ ++ [⟨frameCommand, reply₂⟩] <+:
        framesOf (received h) ∧
      NoType frameCommand skipped₁ ∧ NoType frameCommand skipped₂ ∧
      reply₁.getD 0 0 = 0x01 ∧ c.validPublicKey (slice reply₁ 3 40) = true ∧
      reply₂.getD 0 0 = 0x02 ∧ outSession' = some (docSession c cfg priv reply₁ reply₂)) := by
  have hwp := wp_reach (C := handshakeContract c cfg devSerial fuel) wp_authRun hrun
  have hlog := logged_authRun hrun
  have ht := tracked_of_logged hlog
  unfold Tracked at ht
  rcases hwp with ⟨session, fb, hr, hph, hs⟩ | ⟨hout, hne, -⟩
  · cases hr
    refine ⟨fun hne => absurd rfl hne, fun _ => ?_⟩
    rw [hph] at ht
    obtain ⟨ourPub, xs, ys, zs, ws, -, hx, ⟨priv, interim, hk, hkey, hseed⟩, -⟩ := ht
    obtain ⟨skipped₁, reply₁, rfl, hno₁, hkey⟩ := hkey
    obtain ⟨skipped₂, reply₂, rfl, hno₂, hseed⟩ := hseed
    have hpre := extracted_prefix_framesOf hlog
    obtain ⟨⟨hkind₁, -, -, hvalid⟩, -⟩ := keyReply_ok hkey
    obtain ⟨plain, data, hkind₂, -⟩ := seedReply_ok hseed
    refine ⟨ourPub, priv, skipped₁, reply₁, skipped₂, reply₂, hk, ?_, hno₁, hno₂, hkind₁, hvalid,
      hkind₂, by rw [docSession_eq hkey hseed]⟩
    rw [hx, List.append_assoc _ zs ws] at hpre
    rw [List.append_assoc _ skipped₂]
    exact (List.prefix_append _ _).trans hpre
  · exact ⟨fun _ => hout, fun hok => absurd hok hne⟩

/-- The recorded handshake leaves the session of its key reply and its session-key reply. -/
theorem session_correct_sample :
    (EspErr.ok ≠ .ok → some Sample.session = none) ∧
    (EspErr.ok = .ok → ∃ ourPub priv skipped₁ reply₁ skipped₂ reply₂,
      keyPairs (Sample.run Sample.replies).1 = [(ourPub, priv)] ∧
      skipped₁ ++ [⟨frameCommand, reply₁⟩] ++ skipped₂ ++ [⟨frameCommand, reply₂⟩] <+:
        framesOf (received (Sample.run Sample.replies).1) ∧
      NoType frameCommand skipped₁ ∧ NoType frameCommand skipped₂ ∧
      reply₁.getD 0 0 = 0x01 ∧ Sample.crypto.validPublicKey (slice reply₁ 3 40) = true ∧
      reply₂.getD 0 0 = 0x02 ∧
      some Sample.session = some (docSession Sample.crypto Sample.config priv reply₁ reply₂)) :=
  session_correct Sample.reach_replies

end River2
