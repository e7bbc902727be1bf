import River2.Auth
import River2.Telemetry

/-!
# Recordings

A crypto library known by what it has been observed to compute, and an environment that delivers a
recorded stream of notifications and lets every call succeed. The recording at the end is one
complete handshake: keys on secp160r1, MD5 digests and AES-128-CBC ciphertexts as the primitives
compute them.
-/

namespace River2

open Prog

/-- The `len` bytes of a number, most significant first. -/
def beBytes : ℕ → ℕ → Bytes
  | 0, _ => []
  | len + 1, n => UInt8.ofNat (n / 256 ^ len) :: beBytes len n

@[simp] theorem beBytes_length (len n : ℕ) : (beBytes len n).length = len := by
  induction len with
  | zero => rfl
  | succ len ih =>
    unfold beBytes
    rw [List.length_cons, ih]

/-- A fixed-size array from a number. -/
def beOctets (len n : ℕ) : Octets len := ⟨beBytes len n, beBytes_length len n⟩

/-! ## Recorded crypto -/

/-- One encryption of whole blocks. -/
structure CbcRecord where
  key : Octets 16
  iv : Octets 16
  plain : Bytes
  cipher : Bytes
  length_eq : cipher.length = plain.length

/-- Exchange plaintext and ciphertext under the record's key and iv. -/
def CbcRecord.swap (r : CbcRecord) (key iv : Octets 16) (b : Bytes) : Bytes :=
  if key = r.key ∧ iv = r.iv then
    if b = r.plain then r.cipher else if b = r.cipher then r.plain else b
  else b

theorem CbcRecord.swap_swap (r : CbcRecord) (key iv : Octets 16) (b : Bytes) :
    r.swap key iv (r.swap key iv b) = b := by
  unfold CbcRecord.swap
  by_cases hk : key = r.key ∧ iv = r.iv
  · rw [if_pos hk, if_pos hk]
    split_ifs <;> simp_all
  · rw [if_neg hk, if_neg hk]

theorem CbcRecord.swap_length (r : CbcRecord) (key iv : Octets 16) (b : Bytes) :
    (r.swap key iv b).length = b.length := by
  have := r.length_eq
  unfold CbcRecord.swap
  split_ifs with _ h₁ h₂
  · rw [h₁, this]
  · rw [h₂, this]
  all_goals rfl

/-- What a crypto library has been observed to compute. -/
structure CryptoRecord where
  digests : List (Bytes × Octets 16)
  /-- a peer's key, our private key, and the shared secret -/
  secrets : List (Bytes × Octets 21 × Octets 20)
  ciphers : List CbcRecord

def CryptoRecord.encrypt (r : CryptoRecord) (key iv : Octets 16) (b : Bytes) : Bytes :=
  r.ciphers.foldr (fun e b => e.swap key iv b) b

def CryptoRecord.decrypt (r : CryptoRecord) (key iv : Octets 16) (b : Bytes) : Bytes :=
  r.ciphers.foldl (fun b e => e.swap key iv b) b

theorem swaps_length (es : List CbcRecord) (key iv : Octets 16) (b : Bytes) :
    (es.foldr (fun e b => e.swap key iv b) b).length = b.length ∧
      (es.foldl (fun b e => e.swap key iv b) b).length = b.length := by
  induction es generalizing b with
  | nil => exact ⟨rfl, rfl⟩
  | cons e es ih =>
    rw [List.foldr_cons, List.foldl_cons, CbcRecord.swap_length, (ih b).1, (ih _).2,
      CbcRecord.swap_length]
    exact ⟨rfl, rfl⟩

/-- A crypto library that computes what was recorded. -/
def CryptoRecord.crypto (r : CryptoRecord) : Crypto where
  md5 b := ((r.digests.find? fun e => e.1 == b).map Prod.snd).getD (beOctets 16 0)
  validPublicKey b := r.secrets.any fun e => e.1 == b
  sharedSecret b priv :=
    ((r.secrets.find? fun e => e.1 == b && e.2.1 == priv).map fun e => e.2.2).getD (beOctets 20 0)
  cbcEncrypt := r.encrypt
  cbcDecrypt := r.decrypt
  cbcEncrypt_length := fun _ => (swaps_length r.ciphers _ _ _).1
  cbcDecrypt_length := fun _ => (swaps_length r.ciphers _ _ _).2

/-- Recorded encryptions are undone by the recorded decryptions. -/
theorem CryptoRecord.crypto_invertible (r : CryptoRecord) : r.crypto.Invertible := by
  intro key iv b _
  show r.decrypt key iv (r.encrypt key iv b) = b
  unfold CryptoRecord.decrypt CryptoRecord.encrypt
  induction r.ciphers with
  | nil => rfl
  | cons e es ih => rw [List.foldr_cons, List.foldl_cons, CbcRecord.swap_swap, ih]

/-! ## Recorded notifications -/

/-- An environment that makes the given keys, delivers the given notifications and then no more,
and lets every other call succeed. -/
def device (keyPair : Octets 40 × Octets 21) :
    List Bytes → (e : Call) → Option (Answer e × List Bytes)
  | ns, .getTime => some ((0 : ℤ), ns)
  | ns, .alloc => some (true, ns)
  | [], .queueReceive _ => none
  | n :: ns, .queueReceive _ => some (some n, ns)
  | ns, .bleWrite _ => some (EspErr.ok, ns)
  | ns, .makeKey => some (some keyPair, ns)
  | ns, .sharedSecret => some (true, ns)
  | ns, .psa _ => some (true, ns)
  | ns, .hashCompute => some (HashStatus.success, ns)
  | ns, .extracted _ => some ((), ns)
  | ns, .load _ => some ((0 : Int8), ns)
  | ns, .store _ _ => some ((), ns)
  | ns, .notify _ => some ((), ns)
  | ns, .commanding _ => some ((), ns)
  | _, .notifyWait => none

/-- The run against recorded notifications. -/
def replay {α : Type} (keyPair : Octets 40 × Octets 21) (ns : List Bytes) (p : Fw α) :
    Hist × Fw α := (simulate (device keyPair) ns [] p).2

/-- Whatever the recorded device answers, the environment may answer. -/
def Admits (env : Env Answer) : Prop :=
  ∀ keyPair ns e a ns' h, device keyPair ns e = some (a, ns') → env h e a

theorem admits_hashEnv : Admits hashEnv := by
  rintro keyPair ns (_ | _ | _) a ns' h hh <;> first | trivial | (cases ns <;> cases hh <;> rfl)

theorem admits_psaEnv : Admits psaEnv := by
  rintro keyPair ns (_ | _ | _) a ns' h hh <;> first | trivial | (cases ns <;> cases hh <;> rfl)

theorem admits_allocEnv : Admits allocEnv := by
  rintro keyPair ns (_ | _) a ns' h hh <;> first | trivial | (cases ns <;> cases hh <;> rfl)

theorem admits_anyEnv : Admits anyEnv := fun _ _ _ _ _ _ _ => trivial

theorem reach_replay {env : Env Answer} (henv : Admits env) {α : Type}
    (keyPair : Octets 40 × Octets 21) (ns : List Bytes) (p : Fw α) :
    Reach env ([], p) (replay keyPair ns p) :=
  reach_simulate (henv keyPair) p ns []

theorem completes_replay {env : Env Answer} (henv : Admits env) {α : Type}
    {keyPair : Octets 40 × Octets 21} {ns : List Bytes} {p : Fw α} {a : α}
    (hret : (replay keyPair ns p).2 = .ret a) :
    Completes env p (replay keyPair ns p).1 (.ret a) := by
  have hrun := reach_replay henv keyPair ns p
  rw [← Prod.mk.eta (p := replay keyPair ns p), hret] at hrun
  exact ⟨hrun, nofun⟩

/-! ## A handshake -/

namespace Sample

def ourPub : Octets 40 := beOctets 40
  0xCD68739AE951389AAB62069D0737B7C7A60104ADD26D6B88B978C73D1FD81A07A42153885E29DD23
def priv : Octets 21 := beOctets 21 0x00A1B2C3D4E5F60718293A4B5C6D7E8F9011223344
def devicePub : Bytes := beBytes 40
  0x7CE654CE3F21458DC8B7AE7669CA144F7BDC5FB1293C2B5582CECB19E29CC745720D558CD8F04289
def secret : Octets 20 := beOctets 20 0x276836039885627017009FEFBD4BE962873C98BB

def interim : Session := interimOf secret (beOctets 16 0xD9144CDE98801E6336619FAAE1A02343)
def session : Session := ⟨beOctets 16 0xAC25AC586D60AC200847288C371FF5DF, interim.iv⟩

/-- The bytes of 16-byte blocks. -/
def blocks (ns : List ℕ) : Bytes := ns.flatMap (beBytes 16)

theorem blocks_length (ns : List ℕ) : (blocks ns).length = 16 * ns.length := by
  unfold blocks
  rw [List.length_flatMap]
  simp [Nat.mul_comm]

/-- An encryption, block by block. -/
def cbc (s : Session) (plain cipher : List ℕ) (h : cipher.length = plain.length) : CbcRecord :=
  ⟨s.key, s.iv, blocks plain, blocks cipher, by rw [blocks_length, blocks_length, h]⟩

/-- Encrypted `sRand` and `seed`. -/
def seedCipher : List ℕ :=
  [0x6DD77104E8D1737AB8DE5D7F83538544, 0x75B6F2CE27F3C431951A52DE3C2A7C9B]

/-- The device's packet 0x89. -/
def statusCipher : List ℕ :=
  [0x82EC1C11EB4ADB1F0BBB67F0DB62F0F5, 0xCBB316C60AB4972C9236A42EE00F8306]

/-- The device's packet 0x86 with code 0. -/
def authOkCipher : List ℕ :=
  [0xEFBF2DED0D29F80914805257D64E76E2, 0x8FB355A7C96E2E25CCBA6A3388028C88]

/-- The device's packet 0x86 with code 6. -/
def wrongKeyCipher : List ℕ :=
  [0xEFBF2DED0D29F80914805257D64E76E2, 0x9093FA38EA9F6CDEC9AD27544F2548EB]

/-- What the primitives compute in the handshake. -/
def record : CryptoRecord where
  digests :=
    [(secret.1, interim.iv),
     (blocks [0, 0x101112131415161718191A1B1C1D1E1F], session.key),
     (beBytes 26 0x31323334353637383930523632315A4542345846303030303030,
       beOctets 16 0x26AB46CC9033C9F70A80A3A1DDA56699)]
  secrets := [(devicePub, priv, secret)]
  ciphers :=
    [cbc interim [0x101112131415161718191A1B1C1D1E1F, 0x00010E0E0E0E0E0E0E0E0E0E0E0E0E0E]
      seedCipher rfl,
     cbc session [0xAA020100A00D00000000000035213589, 0x0143F50D0D0D0D0D0D0D0D0D0D0D0D0D]
      statusCipher rfl,
     cbc session [0xAA020100A00D00000000000035213586, 0x0087C50D0D0D0D0D0D0D0D0D0D0D0D0D]
      authOkCipher rfl,
     cbc session [0xAA020100A00D00000000000035213586, 0x0607C70D0D0D0D0D0D0D0D0D0D0D0D0D]
      wrongKeyCipher rfl,
     -- our packets 0x89 and 0x86
     cbc session [0xAA020000B50D00000000000021353589, 0xC5840E0E0E0E0E0E0E0E0E0E0E0E0E0E]
      [0x2B80AA15517B02450FFAB2E875331957, 0x7CE3334211FCC857E5E6AF0A0ACDD8E4] rfl,
     cbc session
      [0xAA0220001B0D00000000000021353586, 0x32364142343643433930333343394637,
       0x30413830413341314444413536363939, 0x2F1B0E0E0E0E0E0E0E0E0E0E0E0E0E0E]
      [0x2A01AEFD2A3806C0847908E2198501DB, 0x943E3F3A492B2DC270C844E95FF2FA15,
       0x4FE4FDFA54DE7B174EECC8BDF581C2F6, 0x3CB2BA1EC2A9297456D9A7C8131FEF75] rfl]

/-- User `1234567890`, serial number `R621ZEB4XF000000`, and a blank lookup table. -/
def config : EcoflowConfig where
  efUser := beOctets 20 0x3132333435363738393000000000000000000000
  efMac := beOctets 6 0x64E833C97C29
  efSerial := beOctets 17 0x523632315A454234584630303030303000
  lookupTable := ⟨List.replicate lutSize 0, List.length_replicate⟩

def keyReplyFrame : Bytes := frameBytes frameCommand ([0x01, 0x00, 0x00] ++ devicePub)
def seedReplyFrame : Bytes := frameBytes frameCommand (0x02 :: blocks seedCipher)
def statusReplyFrame : Bytes := frameBytes frameData (blocks statusCipher)
def authOkFrame : Bytes := frameBytes frameData (blocks authOkCipher)
def wrongKeyFrame : Bytes := frameBytes frameData (blocks wrongKeyCipher)

def keyReplyWire : WireFrame :=
  ⟨⟨frameCommand, [0x01, 0x00, 0x00] ++ devicePub⟩, by decide, by decide⟩
def seedReplyWire : WireFrame := ⟨⟨frameCommand, 0x02 :: blocks seedCipher⟩, by decide, by decide⟩
def statusReplyWire : WireFrame := ⟨⟨frameData, blocks statusCipher⟩, by decide, by decide⟩
def authOkWire : WireFrame := ⟨⟨frameData, blocks authOkCipher⟩, by decide, by decide⟩
def wrongKeyWire : WireFrame := ⟨⟨frameData, blocks wrongKeyCipher⟩, by decide, by decide⟩

/-- The device's side of the handshake, one frame a notification. -/
def replies : List Bytes := [keyReplyFrame, seedReplyFrame, statusReplyFrame, authOkFrame]

def crypto : Crypto := record.crypto

def program : Fw (EspErr × Option Session) := authRun crypto config config.efSerial.1 40 none

/-- The handshake with these notifications. -/
def run (ns : List Bytes) : Hist × Fw (EspErr × Option Session) :=
  replay (ourPub, priv) ns program

theorem reach_run (ns : List Bytes) :
    Reach hashEnv ([], authRun crypto config config.efSerial.1 40 none) ((run ns).1, (run ns).2) :=
  reach_replay admits_hashEnv (ourPub, priv) ns program

theorem run_replies : (run replies).2 = .ret (.ok, some session) :=
  eq_ret_of_result? (by decide +kernel)

/-- The recorded handshake succeeds. -/
theorem reach_replies :
    Reach hashEnv ([], authRun crypto config config.efSerial.1 40 none)
      ((run replies).1, .ret (.ok, some session)) := by
  have hrun := reach_run replies
  rw [run_replies] at hrun
  exact hrun

end Sample

end River2
