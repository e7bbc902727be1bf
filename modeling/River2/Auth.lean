import River2.Link

/-!
# The handshake (`river2_auth.c`, `river2_ecdh.c`)

`authRun` is `river2_auth_run`, one definition for each of its four steps. The loops take the
number of rounds they may run as an argument; a run that needs more ends in `spin`.
-/

namespace River2

open Prog

def lutSize : ℕ := 65280

/-- `ecoflow_config_t`. -/
structure EcoflowConfig where
  efUser : Octets 20
  efMac : Octets 6
  efSerial : Octets 17
  lookupTable : Octets lutSize

/-- The characters of a C string before its terminating NUL, or of an array without one. -/
def cString (b : Bytes) : Bytes := b.takeWhile (· ≠ 0)

/-! ## Key exchange (`river2_ecdh.c`) -/

/-- `river2_ecdh_gen_keypair`: our public key, and the private key the context holds. -/
def ecdhGenKeypair : Fw (Octets 40 × Octets 21) := do
  if ← alloc then
    match ← makeKey with
    | some keyPair => return keyPair
    | none => Prog.throw .fail
  else Prog.throw .noMem

/-- `river2_ecdh_shared_secret`. -/
def ecdhSharedSecret (c : Crypto) (priv : Octets 21) (peerPubkey : Bytes) : Fw (Octets 20) := do
  if peerPubkey.length ≠ 40 then Prog.throw .invalidSize
  else if c.validPublicKey peerPubkey = false then Prog.throw .invalidArg
  else if ← sharedSecret then return c.sharedSecret peerPubkey priv
  else Prog.throw .fail

def devPubSize (curveType : UInt8) : ℕ :=
  match curveType with
  | 1 => 52
  | 2 => 56
  | 3 | 4 => 64
  | _ => 40

/-- The checks on the public key reply, and the key it carries. -/
def keyReplyPub (reply : Bytes) : Except EspErr Bytes :=
  if reply.length < 3 ∨ reply.getD 0 0 ≠ 0x01 then .error .invalidResponse
  else
    let size := devPubSize (reply.getD 2 0)
    if size ≠ 40 then .error .notSupported
    else if reply.length < 3 + size then .error .invalidSize
    else .ok (slice reply 3 size)

/-- Step 1's interim session: the first bytes of the secret, and its MD5 digest. -/
def interimOf (secret : Octets 20) (iv : Octets 16) : Session where
  key := ⟨secret.1.take 16, by rw [List.length_take, secret.2]; rfl⟩
  iv := iv

/-- Step 1: ECDH key exchange. -/
def exchangeKeys (c : Crypto) (fuel : ℕ) (fb : Framebuf) : Fw (Session × Framebuf) := do
  let (ourPub, priv) ← ecdhGenKeypair
  sendFrame frameCommand ([0x01, 0x00] ++ ourPub.1)
  let (reply, fb) ← waitForFrame fuel fb frameCommand stepTimeoutMs
  let peerPub ← Prog.lift (keyReplyPub reply)
  let secret ← ecdhSharedSecret c priv peerPub
  let iv ← river2Md5 c secret.1
  return (interimOf secret iv, fb)

/-! ## Session key -/

/-- `pos` in `derive_session_key`. The `& 0xFF` of a negative `int` is its residue. -/
def lookupPos (seed : Bytes) : ℤ :=
  ((seed.getD 0 0).toNat : ℤ) * 0x10 + (((seed.getD 1 0).toNat : ℤ) - 1) % 0x100 * 0x100

/-- `data` in `derive_session_key`. -/
def sessionKeyData (cfg : EcoflowConfig) (seed srand : Bytes) : Except EspErr Bytes :=
  let pos := lookupPos seed
  if pos < 0 ∨ pos.toNat + 16 > lutSize then .error .invalidState
  else .ok (slice cfg.lookupTable.1 pos.toNat 16 ++ srand)

/-- `derive_session_key`. -/
def deriveSessionKey (c : Crypto) (cfg : EcoflowConfig) (seed srand : Bytes) :
    Fw (Octets 16) := do
  let data ← Prog.lift (sessionKeyData cfg seed srand)
  river2Md5 c data

/-- The check on the session-key reply, and the bytes behind its type. -/
def seedReplyBody (reply : Bytes) : Except EspErr Bytes :=
  if reply.length < 2 ∨ reply.getD 0 0 ≠ 0x02 then .error .invalidResponse
  else .ok (reply.drop 1)

/-- Step 2: session-key request. -/
def requestSessionKey (c : Crypto) (cfg : EcoflowConfig) (fuel : ℕ) (interim : Session)
    (fb : Framebuf) : Fw (Session × Framebuf) := do
  sendFrame frameCommand [0x02]
  let (reply, fb) ← waitForFrame fuel fb frameCommand stepTimeoutMs
  let body ← Prog.lift (seedReplyBody reply)
  let decrypted ← sessionDecrypt c interim body 64
  if decrypted.length < 18 then Prog.throw .invalidSize
  else
    let key ← deriveSessionKey c cfg (slice decrypted 16 2) (slice decrypted 0 16)
    return (⟨key, interim.iv⟩, fb)

/-! ## Authentication -/

/-- A packet step 3 accepts. -/
def isStatusReply (pkt : InnerPacket) : Prop := pkt.src = addrAuth ∧ pkt.cmdSet = 0x35

instance (pkt : InnerPacket) : Decidable (isStatusReply pkt) := by
  unfold isStatusReply; infer_instance

/-- One round of step 3's loop. -/
def statusRound (c : Crypto) (fuel : ℕ) (session : Session) (fb : Framebuf) :
    Fw (Framebuf ⊕ Framebuf) := do
  let (reply, fb) ← waitForFrame fuel fb frameData stepTimeoutMs
  let decrypted ← sessionDecrypt c session reply 256
  match innerParse decrypted with
  | none => return .inl fb
  | some pkt => if isStatusReply pkt then return .inr fb else return .inl fb

/-- Step 3: auth-status wake-up. -/
def wakeAuthStatus (c : Crypto) (fuel : ℕ) (session : Session) (fb : Framebuf) : Fw Framebuf := do
  sendInnerEncrypted c session addrApp addrAuth 0x35 0x89 []
  Prog.loop (statusRound c fuel session) fuel fb

/-- `is_auth_reply`. -/
def isAuthReply (pkt : InnerPacket) : Prop :=
  pkt.src = addrAuth ∧ pkt.cmdSet = 0x35 ∧ pkt.cmdId = 0x86

instance (pkt : InnerPacket) : Decidable (isAuthReply pkt) := by
  unfold isAuthReply; infer_instance

/-- What step 4 makes of a packet: any packet but an auth reply with an error code is a success. -/
def authVerdict (pkt : InnerPacket) : EspErr :=
  if ¬ isAuthReply pkt then .ok
  else
    let code := if pkt.payload.length = 1 then pkt.payload.getD 0 0 else 0xFF
    if pkt.payload.length = 1 ∧ code = 0x00 then .ok else .invalidState

/-- One round of step 4's loop. -/
def resultRound (c : Crypto) (fuel : ℕ) (session : Session) (fb : Framebuf) :
    Fw (Framebuf ⊕ Framebuf) := do
  let (reply, fb) ← waitForFrame fuel fb frameData stepTimeoutMs
  let decrypted ← sessionDecrypt c session reply 256
  match innerParse decrypted with
  | none => return .inl fb
  | some pkt => if authVerdict pkt = .ok then return .inr fb else Prog.throw (authVerdict pkt)

/-- A digit of `"%02X"`. -/
def hexDigit (n : UInt8) : UInt8 := if n < 10 then 0x30 + n else 0x37 + n

/-- `hex_payload`. -/
def hexPayload (digest : Bytes) : Bytes :=
  digest.flatMap fun (b : UInt8) => [hexDigit (b >>> 4), hexDigit (b &&& 0x0F)]

theorem hexPayload_length (digest : Octets 16) : (hexPayload digest.1).length = 32 := by
  unfold hexPayload
  rw [List.length_flatMap]
  simp [digest.2]

/-- The room of `md5_in`. -/
def md5InCap : ℕ := 20 + 20

/-- Step 4: auto-authentication. -/
def autoAuthenticate (c : Crypto) (cfg : EcoflowConfig) (devSerial : Bytes) (fuel : ℕ)
    (session : Session) (fb : Framebuf) : Fw Framebuf := do
  let user := cString cfg.efUser.1
  let serial := cString devSerial
  if user.length + serial.length > md5InCap then Prog.throw .invalidSize
  else
    let digest ← river2Md5 c (user ++ serial)
    sendInnerEncrypted c session addrApp addrAuth 0x35 0x86 (hexPayload digest.1)
    Prog.loop (resultRound c fuel session) fuel fb

/-- `river2_auth_run` up to the label `done`: the local `session`, and the reassembly buffer, which
is freed there. -/
def authBody (c : Crypto) (cfg : EcoflowConfig) (devSerial : Bytes) (fuel : ℕ) :
    Fw (Session × Framebuf) := do
  let (interim, fb) ← exchangeKeys c fuel framebufInit
  let (session, fb) ← requestSessionKey c cfg fuel interim fb
  let fb ← wakeAuthStatus c fuel session fb
  let fb ← autoAuthenticate c cfg devSerial fuel session fb
  return (session, fb)

/-- `river2_auth_run`: the error, and `*out_session` as the call leaves it, `none` where its
contents are indeterminate. -/
def authRun (c : Crypto) (cfg : EcoflowConfig) (devSerial : Bytes) (fuel : ℕ)
    (outSession : Option Session) : Fw (EspErr × Option Session) := do
  match ← (authBody c cfg devSerial fuel).attempt with
  | .ok (session, _) => return (.ok, some session)
  | .error err => return (err, if err = .ok then none else outSession)

end River2
