import River2.Firmware

/-!
# Sessions: MD5 and AES-CBC (`river2_auth.c`)

`river2Md5`, `aesCbcEncryptPkcs7` and `sessionDecrypt` over the PSA calls. What they compute when
all calls succeed is `Crypto.md5`, `sealed` and `decrypted`; `wp_sessionDecrypt` and its siblings
say so, and that nothing else is computed when a call fails.
-/

namespace River2

open Prog

/-- MD5, the operations on secp160r1 and AES-128-CBC on whole blocks, as functions. -/
structure Crypto where
  md5 : Bytes → Octets 16
  /-- `uECC_valid_public_key` -/
  validPublicKey : Bytes → Bool
  /-- what `uECC_shared_secret` computes from the peer's public and our private key -/
  sharedSecret : Bytes → Octets 21 → Octets 20
  cbcEncrypt (key iv : Octets 16) (b : Bytes) : Bytes
  cbcDecrypt (key iv : Octets 16) (b : Bytes) : Bytes
  cbcEncrypt_length : ∀ {key iv b}, 16 ∣ b.length → (cbcEncrypt key iv b).length = b.length
  cbcDecrypt_length : ∀ {key iv b}, 16 ∣ b.length → (cbcDecrypt key iv b).length = b.length

/-- Decryption inverts encryption under the same key and iv. -/
def Crypto.Invertible (c : Crypto) : Prop :=
  ∀ key iv b, 16 ∣ b.length → c.cbcDecrypt key iv (c.cbcEncrypt key iv b) = b

/-- `river2_session_t`. -/
structure Session where
  key : Octets 16
  iv : Octets 16
  deriving DecidableEq

instance : Inhabited Session := ⟨⟨⟨List.replicate 16 0, rfl⟩, ⟨List.replicate 16 0, rfl⟩⟩⟩

/-- The environment in which MD5 is a function: hashing does not fail. -/
def hashEnv : Env Answer
  | _, .hashCompute, status => status = .success
  | _, _, _ => True

/-- The environment in which the PSA calls on keys and ciphers succeed. -/
def psaEnv : Env Answer
  | _, .psa _, ok => ok = true
  | _, _, _ => True

/-! ## The code -/

/-- `river2_md5`, which does not look at the status. -/
def river2Md5 (c : Crypto) (data : Bytes) : Fw (Octets 16) := do
  match ← hashCompute with
  | .success => return c.md5 data
  | .failed out => return out

/-- `import_aes_key`. -/
def importAesKey : Fw Unit := do
  if ← psa .importKey then return () else Prog.throw .fail

/-- A PSA call that stores `need` bytes in a buffer with room for `cap`. -/
def psaOutput (op : PsaOp) (need cap : ℕ) : Fw Bool := do
  if need ≤ cap then psa op else return false

/-- The cipher operation of `aes_cbc_encrypt_pkcs7` and `river2_session_decrypt`: setup, iv, one
update and the finish, into a buffer with room for `outCap` bytes. -/
def psaCipherOp (setup : PsaOp) (updateLen finishLen outCap : ℕ) : Fw Bool := do
  if ← psa setup then
    if ← psa .setIv then
      if ← psaOutput .update updateLen outCap then
        psaOutput .finish finishLen (outCap - updateLen)
      else return false
    else return false
  else return false

/-- The operation, `psa_cipher_abort` and `psa_destroy_key`, whose statuses are dropped, and the
error. -/
def psaCipher (setup : PsaOp) (updateLen finishLen outCap : ℕ) : Fw Unit := do
  let done ← psaCipherOp setup updateLen finishLen outCap
  let _ ← psa .abort
  let _ ← psa .destroyKey
  if done then return () else Prog.throw .fail

/-- The padding of `PSA_ALG_CBC_PKCS7`. -/
def pkcs7Pad (b : Bytes) : Bytes :=
  b ++ List.replicate (16 - b.length % 16) (UInt8.ofNat (16 - b.length % 16))

/-- `aes_cbc_encrypt_pkcs7`. The update stores the whole blocks of the input, the finish the padded
last block. -/
def aesCbcEncryptPkcs7 (c : Crypto) (s : Session) (input : Bytes) (outCap : ℕ) : Fw Bytes := do
  importAesKey
  psaCipher .encryptSetup (input.length / 16 * 16) 16 outCap
  return c.cbcEncrypt s.key s.iv (pkcs7Pad input)

/-- `valid_pad`. -/
def validPad (out : Bytes) (aligned : ℕ) : Bool :=
  let pad := out.getD (aligned - 1) 0
  decide (1 ≤ pad.toNat ∧ pad.toNat ≤ 16 ∧ pad.toNat ≤ aligned) &&
    (List.range pad.toNat).all fun i => out.getD (aligned - 1 - i) 0 == pad

/-- `*out_len`. -/
def unpaddedLen (out : Bytes) (aligned : ℕ) : ℕ :=
  if validPad out aligned then aligned - (out.getD (aligned - 1) 0).toNat else aligned

/-- `river2_session_decrypt`: the first `*out_len` bytes of `out`. -/
def sessionDecrypt (c : Crypto) (s : Session) (input : Bytes) (outCap : ℕ) : Fw Bytes := do
  let aligned := input.length - input.length % 16
  if aligned = 0 then return []
  else if outCap < aligned then Prog.throw .invalidSize
  else
    importAesKey
    psaCipher .decryptSetup aligned 0 outCap
    let out := c.cbcDecrypt s.key s.iv (input.take aligned)
    return out.take (unpaddedLen out aligned)

/-! ## What it computes -/

/-- What `aes_cbc_encrypt_pkcs7` stores. -/
def sealed (c : Crypto) (s : Session) (b : Bytes) : Bytes := c.cbcEncrypt s.key s.iv (pkcs7Pad b)

/-- What `river2_session_decrypt` stores in a buffer that is large enough. -/
def opened (c : Crypto) (s : Session) (b : Bytes) : Bytes :=
  let aligned := b.length - b.length % 16
  if aligned = 0 then []
  else
    let out := c.cbcDecrypt s.key s.iv (b.take aligned)
    out.take (unpaddedLen out aligned)

/-- `river2_session_decrypt` with all PSA calls succeeding. -/
def decrypted (c : Crypto) (s : Session) (b : Bytes) (outCap : ℕ) : Except EspErr Bytes :=
  if outCap < b.length - b.length % 16 then .error .invalidSize else .ok (opened c s b)

theorem pkcs7Pad_length (b : Bytes) : (pkcs7Pad b).length = b.length / 16 * 16 + 16 := by
  unfold pkcs7Pad
  rw [List.length_append, List.length_replicate]
  omega

theorem sealed_length (c : Crypto) (s : Session) (b : Bytes) :
    (sealed c s b).length = b.length / 16 * 16 + 16 := by
  unfold sealed
  rw [c.cbcEncrypt_length (by rw [pkcs7Pad_length]; omega), pkcs7Pad_length]

theorem getD_pkcs7Pad {b : Bytes} {j : ℕ} (hle : b.length ≤ j) (hlt : j < b.length / 16 * 16 + 16) :
    (pkcs7Pad b).getD j 0 = UInt8.ofNat (16 - b.length % 16) := by
  unfold pkcs7Pad
  rw [List.getD_eq_getElem?_getD, List.getElem?_append_right hle,
    List.getElem?_replicate_of_lt (by omega), Option.getD_some]

theorem unpaddedLen_pkcs7Pad (b : Bytes) :
    unpaddedLen (pkcs7Pad b) (b.length / 16 * 16 + 16) = b.length := by
  have hpad : (UInt8.ofNat (16 - b.length % 16)).toNat = 16 - b.length % 16 := by
    rw [UInt8.toNat_ofNat', Nat.mod_eq_of_lt (by omega)]
  have hlast := getD_pkcs7Pad (b := b) (j := b.length / 16 * 16 + 16 - 1) (by omega) (by omega)
  have hvalid : validPad (pkcs7Pad b) (b.length / 16 * 16 + 16) = true := by
    unfold validPad
    dsimp only
    rw [hlast, hpad, Bool.and_eq_true, decide_eq_true_eq, List.all_eq_true]
    refine ⟨by omega, fun i hi => ?_⟩
    rw [List.mem_range] at hi
    rw [getD_pkcs7Pad (by omega) (by omega), beq_self_eq_true]
  unfold unpaddedLen
  rw [if_pos hvalid, hlast, hpad]
  omega

/-- **Decryption undoes encryption**, padding included. -/
theorem opened_sealed {c : Crypto} (hc : c.Invertible) (s : Session) (b : Bytes) :
    opened c s (sealed c s b) = b := by
  have hlen := sealed_length c s b
  have halign : (sealed c s b).length - (sealed c s b).length % 16 = b.length / 16 * 16 + 16 := by
    omega
  have hplain : c.cbcDecrypt s.key s.iv (sealed c s b) = pkcs7Pad b :=
    hc _ _ _ (by rw [pkcs7Pad_length]; omega)
  unfold opened
  rw [halign, if_neg (by omega), List.take_of_length_le hlen.le, hplain]
  dsimp only
  rw [unpaddedLen_pkcs7Pad]
  exact List.take_left

/-! ## Specifications -/

section Specs

variable {C : Contract Call Answer}

/-- The contract lets silent calls through. -/
def Permits (C : Contract Call Answer) : Prop := ∀ h e, e.silent = true → C.pre h e

/-- The contract assumes that hashing succeeds. -/
def Hashes (C : Contract Call Answer) : Prop :=
  ∀ h status, C.env h .hashCompute status → status = .success

/-- A PSA call has failed whose status is looked at. -/
def PsaFault (h : Hist) : Prop := ∃ op, op.checked = true ∧ ⟨.psa op, false⟩ ∈ h

theorem PsaFault.fault {h : Hist} (hf : PsaFault h) : Fault h := by
  obtain ⟨op, hop, hmem⟩ := hf
  exact ⟨_, hmem, hop, rfl⟩

theorem wp_silent (hperm : Permits C) {e : Call} (he : e.silent = true) {h : Hist}
    {Q : Answer e → Hist → Prop} {R : EspErr → Hist → Prop}
    (hQ : ∀ a, C.env h e a → Q a (h ++ [⟨e, a⟩])) : wp C (ask e) Q R h :=
  ⟨hperm h e he, hQ⟩

theorem quiet_snoc {h : Hist} {e : Call} (he : e.silent = true) (a : Answer e) :
    Quiet h (h ++ [⟨e, a⟩]) := (Extends.refl h).snoc he

/-- `h'` continues `h` by PSA calls none of which fails that is looked at. -/
abbrev Granted (h h' : Hist) : Prop :=
  Extends (fun ev => ∃ op ok, ev = ⟨.psa op, ok⟩ ∧ (op.checked = true → ok = true)) h h'

/-- `h'` continues `h` by PSA calls of which one fails that is looked at. -/
def Refused (h h' : Hist) : Prop :=
  ∃ h₁ op, op.checked = true ∧ Granted h h₁ ∧ Granted (h₁ ++ [⟨.psa op, false⟩]) h'

theorem Granted.quiet {h h' : Hist} (hg : Granted h h') : Quiet h h' := by
  refine hg.mono ?_
  rintro _ ⟨op, ok, rfl, -⟩
  rfl

theorem Granted.refused {h h' h'' : Hist} (hg : Granted h h') (hr : Refused h' h'') :
    Refused h h'' := by
  obtain ⟨h₁, op, hop, hg₁, hg₂⟩ := hr
  exact ⟨h₁, op, hop, hg.trans hg₁, hg₂⟩

theorem Refused.granted {h h' h'' : Hist} (hr : Refused h h') (hg : Granted h' h'') :
    Refused h h'' := by
  obtain ⟨h₁, op, hop, hg₁, hg₂⟩ := hr
  exact ⟨h₁, op, hop, hg₁, hg₂.trans hg⟩

theorem Refused.quiet {h h' : Hist} (hr : Refused h h') : Quiet h h' := by
  obtain ⟨h₁, op, -, hg₁, hg₂⟩ := hr
  exact (hg₁.quiet.trans (quiet_snoc rfl _)).trans (Granted.quiet hg₂)

theorem Refused.psaFault {h h' : Hist} (hr : Refused h h') : PsaFault h' := by
  obtain ⟨h₁, op, hop, -, es, rfl, -⟩ := hr
  refine ⟨op, hop, List.mem_append_left _ ?_⟩
  exact List.mem_append_right _ (List.mem_singleton_self _)

theorem granted_snoc {h h' : Hist} {op : PsaOp} {ok : Bool} (hg : Granted h h')
    (hok : op.checked = true → ok = true) : Granted h (h' ++ [⟨.psa op, ok⟩]) :=
  hg.snoc ⟨op, ok, rfl, hok⟩

theorem wp_psa (hperm : Permits C) {op : PsaOp} (hop : op.checked = true) {h : Hist}
    {Q : Bool → Hist → Prop} {R : EspErr → Hist → Prop} (hok : ∀ h', Granted h h' → Q true h')
    (hfail : ∀ h', Refused h h' → Q false h') : wp C (psa op) Q R h := by
  refine wp_silent hperm rfl ?_
  rintro (_ | _) -
  · exact hfail _ ⟨h, op, hop, Extends.refl h, Extends.refl _⟩
  · exact hok _ (granted_snoc (Extends.refl h) fun _ => rfl)

theorem wp_psa_dropped (hperm : Permits C) {op : PsaOp} (hop : op.checked = false) {h : Hist}
    {Q : Bool → Hist → Prop} {R : EspErr → Hist → Prop}
    (hQ : ∀ ok h', Granted h h' → Q ok h') : wp C (psa op) Q R h := by
  refine wp_silent hperm rfl fun ok _ => hQ ok _ (granted_snoc (Extends.refl h) fun hc => ?_)
  rw [hop] at hc
  cases hc

theorem wp_psaOutput (hperm : Permits C) {op : PsaOp} (hop : op.checked = true) {need cap : ℕ}
    {h : Hist} {Q : Bool → Hist → Prop} {R : EspErr → Hist → Prop} (hfit : need ≤ cap)
    (hok : ∀ h', Granted h h' → Q true h') (hfail : ∀ h', Refused h h' → Q false h') :
    wp C (psaOutput op need cap) Q R h := by
  unfold psaOutput
  rw [if_pos hfit]
  exact wp_psa hperm hop hok hfail

theorem wp_river2Md5 {c : Crypto} {data : Bytes} {h : Hist} {Q : Octets 16 → Hist → Prop}
    {R : EspErr → Hist → Prop} (hperm : Permits C) (hhash : Hashes C)
    (hok : ∀ h', Quiet h h' → Q (c.md5 data) h') : wp C (river2Md5 c data) Q R h := by
  unfold river2Md5
  refine wp_do.mpr (wp_silent hperm rfl fun status hans => ?_)
  obtain rfl := hhash _ _ hans
  exact hok _ (quiet_snoc rfl _)

variable {h : Hist} {R : EspErr → Hist → Prop}

theorem wp_importAesKey {Q : Unit → Hist → Prop} (hperm : Permits C)
    (hok : ∀ h', Granted h h' → Q () h') (hfail : ∀ h', Refused h h' → R .fail h') :
    wp C importAesKey Q R h := by
  unfold importAesKey
  refine wp_do.mpr (wp_psa hperm rfl ?_ ?_)
  · intro h' hg
    exact hok h' hg
  · intro h' hr
    exact hfail h' hr

theorem wp_psaCipherOp {Q : Bool → Hist → Prop} {setup : PsaOp} {updateLen finishLen outCap : ℕ}
    (hperm : Permits C) (hsetup : setup.checked = true) (hfit : updateLen + finishLen ≤ outCap)
    (hok : ∀ h', Granted h h' → Q true h') (hfail : ∀ h', Refused h h' → Q false h') :
    wp C (psaCipherOp setup updateLen finishLen outCap) Q R h := by
  unfold psaCipherOp
  refine wp_do.mpr (wp_psa hperm hsetup (fun h₁ hg₁ => ?_) hfail)
  refine wp_do.mpr (wp_psa hperm rfl (fun h₂ hg₂ => ?_) fun h₂ hr₂ => hfail h₂ (hg₁.refused hr₂))
  have hg := hg₁.trans hg₂
  refine wp_do.mpr (wp_psaOutput hperm rfl (by omega) (fun h₃ hg₃ => ?_)
    fun h₃ hr₃ => hfail h₃ (Granted.refused hg hr₃))
  have hg := hg.trans hg₃
  exact wp_psaOutput hperm rfl (by omega) (fun h₄ hg₄ => hok h₄ (hg.trans hg₄))
    fun h₄ hr₄ => hfail h₄ (Granted.refused hg hr₄)

theorem wp_psaCipher {Q : Unit → Hist → Prop} {setup : PsaOp} {updateLen finishLen outCap : ℕ}
    (hperm : Permits C) (hsetup : setup.checked = true) (hfit : updateLen + finishLen ≤ outCap)
    (hok : ∀ h', Granted h h' → Q () h') (hfail : ∀ h', Refused h h' → R .fail h') :
    wp C (psaCipher setup updateLen finishLen outCap) Q R h := by
  unfold psaCipher
  refine wp_do.mpr (wp_psaCipherOp hperm hsetup hfit (fun h₁ hg₁ => ?_) fun h₁ hr₁ => ?_)
  · refine wp_do.mpr (wp_psa_dropped hperm rfl fun _ h₂ hg₂ => ?_)
    refine wp_do.mpr (wp_psa_dropped hperm rfl fun _ h₃ hg₃ => ?_)
    exact hok h₃ ((hg₁.trans hg₂).trans hg₃)
  · refine wp_do.mpr (wp_psa_dropped hperm rfl fun _ h₂ hg₂ => ?_)
    refine wp_do.mpr (wp_psa_dropped hperm rfl fun _ h₃ hg₃ => ?_)
    exact hfail h₃ ((hr₁.granted hg₂).granted hg₃)

theorem wp_aesCbcEncryptPkcs7 {c : Crypto} {s : Session} {input : Bytes} {outCap : ℕ}
    {Q : Bytes → Hist → Prop} (hperm : Permits C) (hfit : input.length / 16 * 16 + 16 ≤ outCap)
    (hok : ∀ h', Quiet h h' → Q (sealed c s input) h')
    (hfail : ∀ h', Quiet h h' → PsaFault h' → R .fail h') :
    wp C (aesCbcEncryptPkcs7 c s input outCap) Q R h := by
  unfold aesCbcEncryptPkcs7
  have hrefused : ∀ h', Refused h h' → R .fail h' := fun h' hr => hfail h' hr.quiet hr.psaFault
  refine wp_do.mpr (wp_importAesKey hperm (fun h₁ hg₁ => ?_) hrefused)
  refine wp_do.mpr (wp_psaCipher hperm rfl hfit (fun h₂ hg₂ => ?_)
    fun h₂ hr₂ => hrefused h₂ (hg₁.refused hr₂))
  exact hok h₂ (Granted.quiet (hg₁.trans hg₂))

theorem wp_sessionDecrypt_granted {c : Crypto} {s : Session} {input : Bytes} {outCap : ℕ}
    {Q : Bytes → Hist → Prop} (hperm : Permits C)
    (hok : ∀ out h', Granted h h' → decrypted c s input outCap = .ok out → Q out h')
    (herr : ∀ err h', Granted h h' → decrypted c s input outCap = .error err → R err h')
    (hfail : ∀ h', Refused h h' → R .fail h') :
    wp C (sessionDecrypt c s input outCap) Q R h := by
  unfold sessionDecrypt
  unfold decrypted opened at hok herr
  dsimp only at hok herr ⊢
  by_cases h0 : input.length - input.length % 16 = 0
  · rw [if_pos h0]
    rw [if_neg (by omega), if_pos h0] at hok
    exact hok [] h (Extends.refl h) rfl
  rw [if_neg h0]
  by_cases hcap : outCap < input.length - input.length % 16
  · rw [if_pos hcap]
    rw [if_pos hcap] at herr
    exact herr _ h (Extends.refl h) rfl
  rw [if_neg hcap]
  rw [if_neg hcap, if_neg h0] at hok
  refine wp_do.mpr (wp_importAesKey hperm (fun h₁ hg₁ => ?_) hfail)
  refine wp_do.mpr (wp_psaCipher hperm rfl (by omega) (fun h₂ hg₂ => ?_)
    fun h₂ hr₂ => hfail h₂ (hg₁.refused hr₂))
  exact hok _ h₂ (hg₁.trans hg₂) rfl

theorem wp_sessionDecrypt {c : Crypto} {s : Session} {input : Bytes} {outCap : ℕ}
    {Q : Bytes → Hist → Prop} (hperm : Permits C)
    (hok : ∀ out h', Quiet h h' → decrypted c s input outCap = .ok out → Q out h')
    (herr : ∀ err h', Quiet h h' → decrypted c s input outCap = .error err → R err h')
    (hfail : ∀ h', Quiet h h' → PsaFault h' → R .fail h') :
    wp C (sessionDecrypt c s input outCap) Q R h :=
  wp_sessionDecrypt_granted hperm (fun out h' hg => hok out h' (Granted.quiet hg))
    (fun err h' hg => herr err h' (Granted.quiet hg)) fun h' hr => hfail h' hr.quiet hr.psaFault

end Specs

end River2
