import River2.EccBytes
import River2.PointMult

/-!
# Keys (`uECC_make_key`, `uECC_shared_secret`, `uECC_valid_public_key`)

The random generator is a parameter: `rng i` are the words that its call `i` writes. A function that
draws takes the number of the next call.

1. `generateRandomInt`: what it returns is positive and below its bound.
2. `validPoint_iff`: a point is valid if it is on the curve.
3. `uEccSharedSecret_eq`: the shared secret is the `x` of the multiple.
4. `makeKey_keys`: the keys that it makes, and `key_exchange`: two pairs of them have one secret.
-/

namespace River2

open WeierstrassCurve.Affine

/-! ## Random numbers -/

/-- The words of each call of `g_rng_function`. -/
abbrev Rng := ℕ → ℕ → UInt32

/-- `vli_numDigits`. -/
def vliNumDigits (vli : Vli) : ℕ := (vli.reverse.dropWhile (· == 0)).length

/-- The loop of `uECC_vli_numBits`, which shifts a word until it is zero. -/
def digitBits : ℕ → UInt32 → ℕ
  | 0, _ => 0
  | fuel + 1, digit => if digit ≠ 0 then digitBits fuel (digit >>> 1) + 1 else 0

/-- `uECC_vli_numBits`. -/
def vliNumBits (vli : Vli) : ℕ :=
  let numDigits := vliNumDigits vli
  if numDigits = 0 then 0 else (numDigits - 1) * 32 + digitBits 32 (vli.getD (numDigits - 1) 0)

/-- The words of a call, with the bits of the highest that `top` does not reach masked out. -/
def maskedWords (rng : Rng) (top : Vli) (call : ℕ) : Vli :=
  let numWords := top.length
  ((List.range numWords).map (rng call)).modify (numWords - 1)
    (· &&& (0xFFFFFFFF >>> (numWords * 32 - vliNumBits top).toUInt32))

/-- The loop of `uECC_generate_random_int`: the number, and the next call. -/
def randomTries (rng : Rng) (top : Vli) : ℕ → ℕ → Option Vli × ℕ
  | 0, call => (none, call)
  | tries + 1, call =>
    let random := maskedWords rng top call
    if !vliIsZero random && vliCmp top random == 1 then (some random, call + 1)
    else randomTries rng top tries (call + 1)

def rngMaxTries : ℕ := 64

/-- `uECC_generate_random_int`. -/
def generateRandomInt (rng : Rng) (top : Vli) (call : ℕ) : Option Vli × ℕ :=
  randomTries rng top rngMaxTries call

theorem randomTries_some {rng : Rng} {top random : Vli} {tries call call' : ℕ}
    (hrun : randomTries rng top tries call = (some random, call')) :
    random.length = top.length ∧ 0 < vliNat random ∧ vliNat random < vliNat top := by
  induction tries generalizing call with
  | zero => cases hrun
  | succ tries ih =>
    unfold randomTries at hrun
    dsimp only at hrun
    have hlen : (maskedWords rng top call).length = top.length := by
      simp [maskedWords]
    split_ifs at hrun with hin
    · obtain ⟨rfl, -⟩ := Prod.mk.inj hrun |>.imp_left Option.some.inj
      rw [Bool.and_eq_true, vliIsZero_eq, Bool.not_eq_true', decide_eq_false_iff_not, beq_iff_eq,
        vliCmp_eq_one_iff hlen.symm] at hin
      exact ⟨hlen, Nat.pos_of_ne_zero hin.1, hin.2⟩
    · exact ih hrun

/-! ## Public keys -/

/-- `EccPoint_isZero`. -/
def eccPointIsZero (point : Vli × Vli) : Bool := vliIsZero (point.1 ++ point.2)

/-- `uECC_valid_point`. -/
def validPoint (point : Vli × Vli) : Bool :=
  if eccPointIsZero point then false
  else if vliCmpUnsafe curveP point.1 ≠ .gt ∨ vliCmpUnsafe curveP point.2 ≠ .gt then false
  else
    let tmp1 := wordOps.modSquareFast point.2
    let tmp2 := wordOps.xSide point.1
    vliEqual tmp1 tmp2

/-- The point in the bytes of a public key. -/
def publicPoint (publicKey : Bytes) : Vli × Vli :=
  (bytesToNative (slice publicKey 0 20), bytesToNative (slice publicKey 20 20))

/-- `uECC_valid_public_key`. -/
def validPublicKey (publicKey : Bytes) : Bool := validPoint (publicPoint publicKey)

def publicBytes (point : Vli × Vli) : Bytes := nativeToBytes 20 point.1 ++ nativeToBytes 20 point.2

theorem publicBytes_length (point : Vli × Vli) : (publicBytes point).length = 40 := by
  simp [publicBytes]

/-! ## Key pairs and secrets -/

/-- `EccPoint_compute_public_key`: the key if it returns 1, and the next call. -/
def eccPointComputePublicKey (rng : Rng) (privateKey : Vli) (call : ℕ) :
    Option (Vli × Vli) × ℕ :=
  match generateRandomInt rng curveP call with
  | (none, call) => (none, call)
  | (some z, call) =>
    let result := privateMult curveG privateKey (some z)
    (if eccPointIsZero result then none else some result, call)

/-- The loop of `uECC_make_key`. -/
def makeKeyTries (rng : Rng) : ℕ → ℕ → Option (Octets 40 × Octets 21)
  | 0, _ => none
  | tries + 1, call =>
    match generateRandomInt rng curveN call with
    | (none, _) => none
    | (some privKey, call) =>
      match eccPointComputePublicKey rng privKey call with
      | (some pubKey, _) => some (⟨publicBytes pubKey, publicBytes_length pubKey⟩,
          ⟨nativeToBytes 21 privKey, nativeToBytes_length 21 privKey⟩)
      | (none, call) => makeKeyTries rng tries call

/-- The call with which the last try of the loop begins. -/
def lastTry (rng : Rng) : ℕ → ℕ → ℕ
  | 0, call => call
  | tries + 1, call =>
    match generateRandomInt rng curveN call with
    | (none, _) => call
    | (some privKey, next) =>
      match eccPointComputePublicKey rng privKey next with
      | (some _, _) => call
      | (none, next) => lastTry rng tries next

/-- `uECC_make_key`: the keys if it returns 1. -/
def uEccMakeKey (rng : Rng) : Option (Octets 40 × Octets 21) := makeKeyTries rng rngMaxTries 0

/-- `uECC_shared_secret`: the secret if it returns 1. -/
def uEccSharedSecret (rng : Rng) (publicKey : Bytes) (privateKey : Octets 21) :
    Option (Octets 20) :=
  let pubKey := publicPoint publicKey
  let privKey := bytesToNative privateKey.1
  match generateRandomInt rng curveP 0 with
  | (none, _) => none
  | (some z, _) =>
    let result := privateMult pubKey privKey (some z)
    if eccPointIsZero result then none
    else some ⟨nativeToBytes 20 result.1, nativeToBytes_length 20 result.1⟩

/-! ## What is drawn -/

theorem generateRandomInt_validZ {rng : Rng} {z : Vli} {call call' : ℕ}
    (hrun : generateRandomInt rng curveP call = (some z, call')) : ValidZ (some z) := by
  obtain ⟨hlen, hpos, hlt⟩ := randomTries_some hrun
  intro w hw
  obtain rfl := Option.some.inj hw
  exact ⟨hlen, hpos, vliNat_curveP ▸ hlt⟩

/-! ## Points in words -/

/-- The words of a point are on the curve. -/
def OnCurve (point : Vli × Vli) : Prop := ∃ P : SecpPoint, P ≠ 0 ∧ Both Stored point (affine P)

/-- No product of the check is misreduced. -/
def CleanPoint (point : Vli × Vli) : Prop :=
  (checkedOps.modSquareFast (some (vliNat point.2))).isSome ∧
    (checkedOps.xSide (some (vliNat point.1))).isSome

theorem natCast_inj_of_lt {a b : ℕ} (ha : a < fieldPrime) (hb : b < fieldPrime)
    (heq : (a : Field160) = b) : a = b := by
  rw [← ZMod.val_cast_of_lt ha, heq, ZMod.val_cast_of_lt hb]

theorem affine_ne_zero {P : SecpPoint} (hP : P ≠ 0) : affine P ≠ (0, 0) := by
  rcases P with _ | ⟨x, y, h⟩
  · exact absurd rfl hP
  · intro heq
    obtain ⟨rfl, rfl⟩ : x = 0 ∧ y = 0 := Prod.mk.inj heq
    have hb : (curveBNat : Field160) = 0 := by
      have h := nonsingular_secpCurve.mp h
      linear_combination -h
    exact natCast_ne_zero (by decide) (by decide) hb

theorem Stored.vliNat_eq_zero_iff {ws : Vli} {z : Field160} (h : Stored ws z) :
    vliNat ws = 0 ↔ z = 0 := by
  obtain ⟨-, hlt, rfl⟩ := h
  constructor
  · intro heq
    rw [heq, Nat.cast_zero]
  · intro heq
    exact natCast_inj_of_lt hlt prime_fieldPrime.pos (heq.trans Nat.cast_zero.symm)

theorem eccPointIsZero_eq {point : Vli × Vli} {c : Field160 × Field160}
    (h : Both Stored point c) : eccPointIsZero point = decide (c = (0, 0)) := by
  unfold eccPointIsZero
  have hiff : vliNat (point.1 ++ point.2) = 0 ↔ c = (0, 0) := by
    rw [vliNat_append, Nat.add_eq_zero_iff, Nat.mul_eq_zero, or_iff_right (by positivity),
      h.1.vliNat_eq_zero_iff, h.2.vliNat_eq_zero_iff, Prod.ext_iff]
  rw [vliIsZero_eq, decide_eq_decide]
  exact hiff

theorem stored_self {ws : Vli} (hlen : ws.length = 5) (hlt : vliNat ws < fieldPrime) :
    Stored ws (vliNat ws : Field160) := ⟨hlen, hlt, rfl⟩

section ValidPoint

variable {point : Vli × Vli} (hx : point.1.length = 5) (hy : point.2.length = 5)
include hx hy

theorem validPoint_eq_true_iff : validPoint point = true ↔
    eccPointIsZero point = false ∧ (vliNat point.1 < fieldPrime ∧ vliNat point.2 < fieldPrime) ∧
      vliEqual (wordOps.modSquareFast point.2) (wordOps.xSide point.1) = true := by
  have hxwidth : curveP.length = point.1.length := hx.symm
  have hywidth : curveP.length = point.2.length := hy.symm
  unfold validPoint
  dsimp only
  rw [vliCmpUnsafe_eq hxwidth, vliCmpUnsafe_eq hywidth, vliNat_curveP]
  simp only [ne_eq, compare_gt_iff_gt, ← not_and_or]
  cases eccPointIsZero point with
  | true => simp
  | false =>
    rw [if_neg Bool.false_ne_true]
    by_cases hlt : vliNat point.1 < fieldPrime ∧ vliNat point.2 < fieldPrime
    · simp [hlt]
    · simp only [hlt, not_false_eq_true, if_true, Bool.false_eq_true, false_and, and_false]

theorem onCurve_iff (hxlt : vliNat point.1 < fieldPrime) (hylt : vliNat point.2 < fieldPrime) :
    OnCurve point ↔
      secpCurve.Nonsingular (vliNat point.1 : Field160) (vliNat point.2 : Field160) := by
  constructor
  · rintro ⟨_ | ⟨x, y, h⟩, hne, hpx, hpy⟩
    · exact absurd rfl hne
    · have hpx : (vliNat point.1 : Field160) = x := hpx.2.2
      have hpy : (vliNat point.2 : Field160) = y := hpy.2.2
      rwa [hpx, hpy]
  · intro h
    exact ⟨.some _ _ h, Point.some_ne_zero h, stored_self hx hxlt, stored_self hy hylt⟩

theorem vliEqual_sides_iff (hxlt : vliNat point.1 < fieldPrime)
    (hylt : vliNat point.2 < fieldPrime) (hclean : CleanPoint point) :
    vliEqual (wordOps.modSquareFast point.2) (wordOps.xSide point.1) = true ↔
      secpCurve.Nonsingular (vliNat point.1 : Field160) (vliNat point.2 : Field160) := by
  obtain ⟨a, ha⟩ := Option.isSome_iff_exists.mp hclean.1
  obtain ⟨b, hb⟩ := Option.isSome_iff_exists.mp hclean.2
  obtain ⟨h1len, h1nat, -⟩ :=
    wordOps_checkedOps.square (holds_of_stored (stored_self hy hylt)) a ha
  obtain ⟨h2len, h2nat, -⟩ :=
    wordOps_checkedOps.xSide (holds_of_stored (stored_self hx hxlt)) b hb
  obtain ⟨halt, haK⟩ := checkedOps_fieldOps.square (standsFor_self hylt) a ha
  obtain ⟨hblt, hbK⟩ := checkedOps_fieldOps.xSide (standsFor_self hxlt) b hb
  have hside : fieldOps.xSide (vliNat point.1 : Field160) =
      (vliNat point.1 : Field160) ^ 3 - 3 * (vliNat point.1 : Field160) + curveBNat :=
    ofField_xSide _ _
  have hsquare : fieldOps.modSquareFast (vliNat point.2 : Field160) =
      (vliNat point.2 : Field160) ^ 2 := (sq _).symm
  rw [vliEqual_eq (h1len.trans h2len.symm), decide_eq_true_iff, h1nat, h2nat,
    nonsingular_secpCurve, ← hside, ← hsquare, ← haK, ← hbK]
  exact ⟨fun h => congrArg Nat.cast h, natCast_inj_of_lt halt hblt⟩

/-- **The check of a point.** If no product of it is misreduced, it says whether the point is on
the curve. -/
theorem validPoint_iff (hclean : CleanPoint point) : validPoint point = true ↔ OnCurve point := by
  rw [validPoint_eq_true_iff hx hy]
  constructor
  · rintro ⟨-, ⟨hxlt, hylt⟩, hequal⟩
    exact (onCurve_iff hx hy hxlt hylt).mpr ((vliEqual_sides_iff hx hy hxlt hylt hclean).mp hequal)
  · rintro ⟨P, hP, hpoint⟩
    have hxlt := hpoint.1.2.1
    have hylt := hpoint.2.2.1
    refine ⟨?_, ⟨hxlt, hylt⟩, (vliEqual_sides_iff hx hy hxlt hylt hclean).mpr
      ((onCurve_iff hx hy hxlt hylt).mp ⟨P, hP, hpoint⟩)⟩
    rw [eccPointIsZero_eq hpoint]
    exact decide_eq_false (affine_ne_zero hP)

end ValidPoint

/-! ## The shared secret -/

theorem nsmul_ne_zero {P : SecpPoint} (hP : P ≠ 0) {k : ℕ} (hpos : 0 < k) (hk : k < groupOrder) :
    k • P ≠ 0 := (nsmul_eq_zero_iff hP k).not.mpr (Nat.not_dvd_of_pos_of_lt hpos hk)

theorem multResult_eq_zero_iff {P : SecpPoint} (hP : P ≠ 0) {k : ℕ} (hpos : 0 < k)
    (hk : k < groupOrder) : multResult k P = (0, 0) ↔ (affine P).1 = 0 ∨ Degenerate k := by
  unfold multResult
  split_ifs with hbad
  · exact iff_of_true rfl hbad
  · exact iff_of_false (affine_ne_zero (nsmul_ne_zero hP hpos hk)) hbad

theorem privateWords (key : Octets 21) :
    (bytesToNative key.1).length = 6 ∧ vliNat (bytesToNative key.1) = beNat key.1 := by
  obtain ⟨hlen, hnat⟩ := bytesToNative_eq key.1
  rw [key.2] at hlen
  exact ⟨hlen, hnat⟩

theorem beNat_stored {ws : Vli} {z : Field160} (h : Stored ws z) :
    beNat (nativeToBytes 20 ws) = z.val := by
  have hlt : vliNat ws < 256 ^ 20 := by
    have h' := vliNat_lt ws
    rw [h.1] at h'
    exact h'
  rw [beNat_nativeToBytes, Nat.mod_eq_of_lt hlt, ← h.2.2, ZMod.val_cast_of_lt h.2.1]

/-- **The shared secret.** If no product is misreduced, it is the `x` of the multiple of the point.
The function fails for a point whose `x` is zero, and for the degenerate keys. -/
theorem uEccSharedSecret_eq {rng : Rng} {pub : Bytes} {priv : Octets 21} {P : SecpPoint}
    (hP : P ≠ 0) (hpub : Both Stored (publicPoint pub) (affine P)) (hpos : 0 < beNat priv.1)
    (hlt : beNat priv.1 < groupOrder) {z : Vli} {call : ℕ}
    (hdraw : generateRandomInt rng curveP 0 = (some z, call))
    (hclean : CleanMult (publicPoint pub) (regularScalar (bytesToNative priv.1)) (some z)) :
    if (affine P).1 = 0 ∨ Degenerate (beNat priv.1) then uEccSharedSecret rng pub priv = none
    else ∃ s, uEccSharedSecret rng pub priv = some s ∧
      beNat s.1 = (affine (beNat priv.1 • P)).1.val := by
  obtain ⟨hlen, hnat⟩ := privateWords priv
  have hmult := privateMult_stored hP hpub (generateRandomInt_validZ hdraw) hlen (hnat ▸ hpos)
    (hnat ▸ hlt) hclean
  rw [hnat] at hmult
  have hzero := eccPointIsZero_eq hmult
  have hbad := multResult_eq_zero_iff hP hpos hlt
  unfold uEccSharedSecret
  dsimp only
  rw [hdraw]
  dsimp only
  split_ifs with hcond h h
  · rfl
  · exact absurd (hzero.trans (decide_eq_true (hbad.mpr hcond))) h
  · exact absurd (hbad.mp (of_decide_eq_true (hzero.symm.trans h))) hcond
  · refine ⟨_, rfl, ?_⟩
    rw [beNat_stored hmult.1]
    unfold multResult
    rw [if_neg hcond]

/-! ## Key pairs -/

/-- A key pair as `uECC_make_key` makes it, with this `z`. -/
structure Made (keys : Octets 40 × Octets 21) (z : Vli) : Prop where
  validZ : ValidZ (some z)
  pos : 0 < beNat keys.2.1
  lt : beNat keys.2.1 < groupOrder
  pub : keys.1.1 = publicBytes (privateMult curveG (bytesToNative keys.2.1) (some z))
  nonzero : eccPointIsZero (privateMult curveG (bytesToNative keys.2.1) (some z)) = false

theorem eccPointComputePublicKey_some {rng : Rng} {key : Vli} {call call' : ℕ} {point : Vli × Vli}
    (hrun : eccPointComputePublicKey rng key call = (some point, call')) :
    ∃ z, generateRandomInt rng curveP call = (some z, call') ∧
      point = privateMult curveG key (some z) ∧ eccPointIsZero point = false := by
  unfold eccPointComputePublicKey at hrun
  rcases hdraw : generateRandomInt rng curveP call with ⟨_ | z, call₁⟩
  · rw [hdraw] at hrun
    cases hrun
  · rw [hdraw] at hrun
    dsimp only at hrun
    split_ifs at hrun with hzero
    · cases hrun
    · obtain ⟨rfl, rfl⟩ := (Prod.mk.inj hrun).imp_left Option.some.inj
      exact ⟨z, rfl, rfl, Bool.eq_false_iff.mpr hzero⟩

theorem lastTry_some {rng : Rng} {call next next' : ℕ} {key : Vli} {point : Vli × Vli} (tries : ℕ)
    (hkey : generateRandomInt rng curveN call = (some key, next))
    (hpub : eccPointComputePublicKey rng key next = (some point, next')) :
    lastTry rng (tries + 1) call = call := by
  rw [lastTry, hkey]
  dsimp only
  rw [hpub]

theorem lastTry_none {rng : Rng} {call next next' : ℕ} {key : Vli} (tries : ℕ)
    (hkey : generateRandomInt rng curveN call = (some key, next))
    (hpub : eccPointComputePublicKey rng key next = (none, next')) :
    lastTry rng (tries + 1) call = lastTry rng tries next' := by
  rw [lastTry, hkey]
  dsimp only
  rw [hpub]

/-- The keys that a try makes. -/
theorem made_of_drawn {rng : Rng} {call call' : ℕ} {key z : Vli}
    (hkey : generateRandomInt rng curveN call = (some key, call'))
    (hz : ValidZ (some z)) (hzero : eccPointIsZero (privateMult curveG key (some z)) = false) :
    bytesToNative (nativeToBytes 21 key) = key ∧
      Made (⟨publicBytes (privateMult curveG key (some z)), publicBytes_length _⟩,
        ⟨nativeToBytes 21 key, nativeToBytes_length 21 key⟩) z := by
  obtain ⟨hlen, hpos, hlt⟩ := randomTries_some hkey
  rw [vliNat_curveN] at hlt
  have hfit : vliNat key < 256 ^ 21 := hlt.trans (by decide)
  have hwords : bytesToNative (nativeToBytes 21 key) = key :=
    bytesToNative_nativeToBytes hlen.symm hfit
  have hnat : beNat (nativeToBytes 21 key) = vliNat key := by
    rw [beNat_nativeToBytes, Nat.mod_eq_of_lt hfit]
  refine ⟨hwords, hz, hnat.symm ▸ hpos, hnat.symm ▸ hlt, ?_, ?_⟩
  · exact congrArg (fun key => publicBytes (privateMult curveG key (some z))) hwords.symm
  · show eccPointIsZero (privateMult curveG (bytesToNative (nativeToBytes 21 key)) (some z)) = false
    rw [hwords]
    exact hzero

/-- The keys that the loop makes, and what its last try draws for them. -/
theorem makeKeyTries_made {rng : Rng} {tries call : ℕ} {keys : Octets 40 × Octets 21}
    (hrun : makeKeyTries rng tries call = some keys) :
    ∃ z next next', generateRandomInt rng curveN (lastTry rng tries call) =
        (some (bytesToNative keys.2.1), next) ∧
      generateRandomInt rng curveP next = (some z, next') ∧ Made keys z := by
  induction tries generalizing call with
  | zero => cases hrun
  | succ tries ih =>
    obtain ⟨o, next, hkey⟩ : ∃ o next, generateRandomInt rng curveN call = (o, next) := ⟨_, _, rfl⟩
    rw [makeKeyTries, hkey] at hrun
    cases o with
    | none => cases hrun
    | some key =>
      dsimp only at hrun
      obtain ⟨o, next', hpub⟩ : ∃ o next', eccPointComputePublicKey rng key next = (o, next') :=
        ⟨_, _, rfl⟩
      rw [hpub] at hrun
      cases o with
      | none =>
        rw [lastTry_none tries hkey hpub]
        exact ih hrun
      | some point =>
        obtain rfl := Option.some.inj hrun
        obtain ⟨z, hdraw, rfl, hzero⟩ := eccPointComputePublicKey_some hpub
        obtain ⟨hwords, hmade⟩ := made_of_drawn hkey (generateRandomInt_validZ hdraw) hzero
        rw [lastTry_some tries hkey hpub]
        refine ⟨z, next, next', ?_, hdraw, hmade⟩
        rw [hkey]
        exact congrArg (fun words => (some words, next)) hwords.symm

theorem publicPoint_publicBytes {point : Vli × Vli} {c : Field160 × Field160}
    (h : Both Stored point c) : publicPoint (publicBytes point) = point := by
  have hback : ∀ {ws : Vli} {z : Field160}, Stored ws z →
      bytesToNative (nativeToBytes 20 ws) = ws := by
    intro ws z hws
    have hlt := vliNat_lt ws
    rw [hws.1] at hlt
    exact bytesToNative_nativeToBytes hws.1.symm hlt
  have hx : slice (publicBytes point) 0 20 = nativeToBytes 20 point.1 := by
    unfold slice publicBytes
    rw [List.drop_zero, List.take_left' (nativeToBytes_length _ _)]
  have hy : slice (publicBytes point) 20 20 = nativeToBytes 20 point.2 := by
    unfold slice publicBytes
    rw [List.drop_left' (nativeToBytes_length _ _),
      List.take_of_length_le (nativeToBytes_length _ _).le]
  unfold publicPoint
  rw [hx, hy, hback h.1, hback h.2]

theorem curveG_stored : Both Stored curveG (affine generator) := by
  obtain ⟨hx, hy⟩ := vliNat_curveG
  refine ⟨⟨rfl, ?_, ?_⟩, ⟨rfl, ?_, ?_⟩⟩
  · rw [hx]
    decide
  · rw [hx]
    rfl
  · rw [hy]
    decide
  · rw [hy]
    rfl

/-- No product of the multiplication for this key is misreduced. -/
def CleanKey (keys : Octets 40 × Octets 21) (z : Vli) : Prop :=
  CleanMult curveG (regularScalar (bytesToNative keys.2.1)) (some z)

/-- The key that is made is not degenerate, and its public key is the multiple of the generator. -/
theorem Made.point {keys : Octets 40 × Octets 21} {z : Vli} (h : Made keys z)
    (hclean : CleanKey keys z) : ¬ Degenerate (beNat keys.2.1) ∧
      Both Stored (publicPoint keys.1.1) (affine (beNat keys.2.1 • generator)) := by
  obtain ⟨hlen, hnat⟩ := privateWords keys.2
  have hmult := privateMult_stored generator_ne_zero curveG_stored h.validZ hlen
    (hnat ▸ h.pos) (hnat ▸ h.lt) hclean
  rw [hnat] at hmult
  have hzero := (eccPointIsZero_eq hmult).symm.trans h.nonzero
  have hbad := (multResult_eq_zero_iff generator_ne_zero h.pos h.lt).not.mp
    (of_decide_eq_false hzero)
  rw [h.pub, publicPoint_publicBytes hmult]
  unfold multResult at hmult
  rw [if_neg hbad] at hmult
  exact ⟨fun hdeg => hbad (.inr hdeg), hmult⟩

/-- The check takes such a key, if no product of the check is misreduced. -/
theorem Made.validPublicKey {keys : Octets 40 × Octets 21} {z : Vli} (h : Made keys z)
    (hclean : CleanKey keys z) (hcheck : CleanPoint (publicPoint keys.1.1)) :
    validPublicKey keys.1.1 = true := by
  obtain ⟨-, hpoint⟩ := h.point hclean
  exact (validPoint_iff hpoint.1.1 hpoint.2.1 hcheck).mpr
    ⟨_, nsmul_ne_zero generator_ne_zero h.pos h.lt, hpoint⟩

/-- A pair whose keys are drawn is made. -/
theorem Made.makeKey {keys : Octets 40 × Octets 21} {z : Vli} (h : Made keys z) {rng : Rng}
    {call call' : ℕ} (hkey : generateRandomInt rng curveN 0 = (some (bytesToNative keys.2.1), call))
    (hz : generateRandomInt rng curveP call = (some z, call')) : uEccMakeKey rng = some keys := by
  have hpub : eccPointComputePublicKey rng (bytesToNative keys.2.1) call =
      (some (privateMult curveG (bytesToNative keys.2.1) (some z)), call') := by
    unfold eccPointComputePublicKey
    rw [hz]
    dsimp only
    rw [if_neg (Bool.eq_false_iff.mp h.nonzero)]
  have hpriv : nativeToBytes 21 (bytesToNative keys.2.1) = keys.2.1 := by
    have hback := nativeToBytes_bytesToNative keys.2.1
    rwa [keys.2.2] at hback
  unfold uEccMakeKey rngMaxTries makeKeyTries
  rw [hkey]
  dsimp only
  rw [hpub]
  exact congrArg some (Prod.ext (Subtype.ext h.pub.symm) (Subtype.ext hpriv))

theorem publicBytes_eq {point : Vli × Vli} {key : Octets 40}
    (hx : vliNat point.1 = beNat (slice key.1 0 20))
    (hy : vliNat point.2 = beNat (slice key.1 20 20)) : publicBytes point = key.1 := by
  have hback : ∀ {ws : Vli} {start : ℕ}, start + 20 ≤ 40 →
      vliNat ws = beNat (slice key.1 start 20) → nativeToBytes 20 ws = slice key.1 start 20 := by
    intro ws start hle hnat
    have hlen : (slice key.1 start 20).length = 20 := slice_length (key.2.symm ▸ hle)
    have hlt := beNat_lt (slice key.1 start 20)
    rw [hlen, ← hnat] at hlt
    refine beNat_inj ((nativeToBytes_length _ _).trans hlen.symm) ?_
    rw [beNat_nativeToBytes, Nat.mod_eq_of_lt hlt, hnat]
  unfold publicBytes
  rw [hback (by norm_num) hx, hback (by norm_num) hy]
  have htail : (key.1.drop 20).take 20 = key.1.drop 20 :=
    List.take_of_length_le (by simp [key.2])
  unfold slice
  rw [List.drop_zero, htail, List.take_append_drop]

/-- A key pair that the ladder on numbers confirms. -/
theorem made_of_checked {keys : Octets 40 × Octets 21} {z : Vli} (hz : ValidZ (some z))
    (hpos : 0 < beNat keys.2.1) (hlt : beNat keys.2.1 < groupOrder) {x y : ℕ}
    (hx : beNat (slice keys.1.1 0 20) = x) (hy : beNat (slice keys.1.1 20 20) = y) (hxpos : 0 < x)
    (hrun : checkedOps.eccPointMult (some generatorX, some generatorY)
      (regularNat (beNat keys.2.1)).testBit (some (some (vliNat z))) 162 = (some x, some y)) :
    Made keys z ∧ CleanKey keys z := by
  obtain ⟨hlen, hnat⟩ := privateWords keys.2
  rw [← hnat, ← vliTestBit_regularScalar hlen (hnat.symm ▸ hlt), ← vliNat_curveG.1,
    ← vliNat_curveG.2] at hrun
  have hclean : CleanKey keys z :=
    ⟨congrArg (fun R => R.1.isSome) hrun, congrArg (fun R => R.2.isSome) hrun⟩
  have hwords := privateMult_holds
    ⟨holds_of_stored curveG_stored.1, holds_of_stored curveG_stored.2⟩ hz (bytesToNative keys.2.1)
  have hwords' := (hrun ▸ hwords : Both WordsHold
    (privateMult curveG (bytesToNative keys.2.1) (some z)) (some x, some y))
  obtain ⟨point, hpoint⟩ : ∃ point, privateMult curveG (bytesToNative keys.2.1) (some z) = point :=
    ⟨_, rfl⟩
  rw [hpoint] at hwords'
  obtain ⟨hxlen, hxnat, hxlt⟩ := hwords'.1 x rfl
  obtain ⟨hylen, hynat, hylt⟩ := hwords'.2 y rfl
  have hstored : Both Stored point ((x : Field160), (y : Field160)) :=
    ⟨⟨hxlen, hxnat ▸ hxlt, congrArg Nat.cast hxnat⟩, ⟨hylen, hynat ▸ hylt, congrArg Nat.cast hynat⟩⟩
  have hzero : eccPointIsZero point = false := (eccPointIsZero_eq hstored).trans
    (decide_eq_false fun h => natCast_ne_zero hxpos hxlt (congrArg Prod.fst h))
  have hpub : publicBytes point = keys.1.1 :=
    publicBytes_eq (hxnat.trans hx.symm) (hynat.trans hy.symm)
  exact ⟨⟨hz, hpos, hlt, hpoint ▸ hpub.symm, hpoint ▸ hzero⟩, hclean⟩

/-- **The keys of `uECC_make_key`.** The private key is what the last try draws, below the order. If
no product of that try's multiplication is misreduced, it is not degenerate, the public key is that
multiple of the generator, and the check of a public key takes it unless a product of the check is
misreduced. -/
theorem makeKey_keys {rng : Rng} {keys : Octets 40 × Octets 21}
    (hrun : uEccMakeKey rng = some keys) :
    ∃ z call call', generateRandomInt rng curveN (lastTry rng rngMaxTries 0) =
        (some (bytesToNative keys.2.1), call) ∧
      generateRandomInt rng curveP call = (some z, call') ∧ Made keys z ∧
      (CleanKey keys z → ¬ Degenerate (beNat keys.2.1) ∧
        Both Stored (publicPoint keys.1.1) (affine (beNat keys.2.1 • generator)) ∧
        (CleanPoint (publicPoint keys.1.1) → validPublicKey keys.1.1 = true)) := by
  obtain ⟨z, call, call', hkey, hz, hmade⟩ := makeKeyTries_made hrun
  refine ⟨z, call, call', hkey, hz, hmade, fun hclean => ?_⟩
  obtain ⟨hdeg, hpoint⟩ := hmade.point hclean
  exact ⟨hdeg, hpoint, hmade.validPublicKey hclean⟩

namespace Sample

/-- A generator that writes `n` first and two in every later call. -/
def smallRng (n : UInt32) : Rng := fun call i => if i = 0 then (if call = 0 then n else 2) else 0

/-- The `z` that it gives. -/
def smallZ : Vli := [2, 0, 0, 0, 0]

def keysThree : Octets 40 × Octets 21 :=
  (⟨[0x7b, 0x76, 0xff, 0x54, 0x1e, 0xf3, 0x63, 0xf2, 0xdf, 0x13, 0xde, 0x16, 0x50, 0xbd, 0x48,
    0xda, 0xa9, 0x58, 0xbc, 0x59, 0xc9, 0x15, 0xca, 0x79, 0x0d, 0x8c, 0x88, 0x77, 0xb5, 0x5b,
    0xe0, 0x07, 0x9d, 0x12, 0x85, 0x4f, 0xfe, 0x9f, 0x6f, 0x5a], rfl⟩,
    ⟨List.replicate 20 0 ++ [3], rfl⟩)

def keysFive : Octets 40 × Octets 21 :=
  (⟨[0xe7, 0x05, 0xb1, 0x80, 0xe4, 0x11, 0x92, 0xed, 0x77, 0x2d, 0x1e, 0x2d, 0x42, 0x4c, 0x17,
    0x13, 0x03, 0xad, 0x6c, 0x4e, 0x93, 0x3f, 0xbe, 0x35, 0x07, 0x8c, 0x8c, 0x01, 0x46, 0x5d,
    0xbf, 0x40, 0xa1, 0x2b, 0x58, 0x33, 0x64, 0xb2, 0xa5, 0x9c], rfl⟩,
    ⟨List.replicate 20 0 ++ [5], rfl⟩)

/-- The coordinates of the two public keys. -/
def threeX : ℕ := 0x7b76ff541ef363f2df13de1650bd48daa958bc59
def threeY : ℕ := 0xc915ca790d8c8877b55be0079d12854ffe9f6f5a
def fiveX : ℕ := 0xe705b180e41192ed772d1e2d424c171303ad6c4e
def fiveY : ℕ := 0x933fbe35078c8c01465dbf40a12b583364b2a59c

/-- The coordinates of the shared point. -/
def secretX : ℕ := 0x7da67ee83fb143eadd34165e830d92cf98012168
def secretY : ℕ := 0x8bd0120aee4f1e62d28493c3c064c54f5a47df72

/-- The ladder for `k` with the small `z`, on numbers. -/
def smallMult (x y k : ℕ) : Option ℕ × Option ℕ :=
  checkedOps.eccPointMult (some x, some y) (regularNat k).testBit (some (some 2)) 162

-- One evaluation for the two key pairs and for the two sides of the exchange.
theorem smallMult_runs :
    smallMult generatorX generatorY 3 = (some threeX, some threeY) ∧
      smallMult generatorX generatorY 5 = (some fiveX, some fiveY) ∧
      smallMult fiveX fiveY 3 = (some secretX, some secretY) ∧
      smallMult threeX threeY 5 = (some secretX, some secretY) := by
  decide +kernel

theorem smallZ_valid : ValidZ (some smallZ) := by
  intro z hz
  obtain rfl := Option.some.inj hz
  decide

theorem keysThree_made : Made keysThree smallZ ∧ CleanKey keysThree smallZ := by
  have hkey : beNat keysThree.2.1 = 3 := by decide
  refine made_of_checked smallZ_valid (by decide) (by decide) (by decide) (by decide) (by decide)
    (x := threeX) (y := threeY) ?_
  rw [hkey]
  exact smallMult_runs.1

theorem keysFive_made : Made keysFive smallZ ∧ CleanKey keysFive smallZ := by
  have hkey : beNat keysFive.2.1 = 5 := by decide
  refine made_of_checked smallZ_valid (by decide) (by decide) (by decide) (by decide) (by decide)
    (x := fiveX) (y := fiveY) ?_
  rw [hkey]
  exact smallMult_runs.2.1

end Sample

open Sample in
/-- The generator that writes three first: its first try is the last. -/
theorem makeKey_keys_sample : uEccMakeKey (smallRng 3) = some keysThree ∧
    ∃ z call call', generateRandomInt (smallRng 3) curveN (lastTry (smallRng 3) rngMaxTries 0) =
        (some (bytesToNative keysThree.2.1), call) ∧
      generateRandomInt (smallRng 3) curveP call = (some z, call') ∧ Made keysThree z ∧
      (CleanKey keysThree z → ¬ Degenerate (beNat keysThree.2.1) ∧
        Both Stored (publicPoint keysThree.1.1) (affine (beNat keysThree.2.1 • generator)) ∧
        (CleanPoint (publicPoint keysThree.1.1) → validPublicKey keysThree.1.1 = true)) := by
  have hkey :
      generateRandomInt (smallRng 3) curveN 0 = (some (bytesToNative keysThree.2.1), 1) := by
    decide +kernel
  have hz : generateRandomInt (smallRng 3) curveP 1 = (some smallZ, 2) := by decide +kernel
  have hrun := keysThree_made.1.makeKey hkey hz
  exact ⟨hrun, makeKey_keys hrun⟩

/-! ## Agreement -/

/-- `uECC_shared_secret` draws a `z`, and no product for it is misreduced. -/
def CleanSecret (rng : Rng) (pub : Bytes) (priv : Octets 21) : Prop :=
  ∃ z call, generateRandomInt rng curveP 0 = (some z, call) ∧
    CleanMult (publicPoint pub) (regularScalar (bytesToNative priv.1)) (some z)

/-- A multiplication for a secret that the ladder on numbers confirms. -/
theorem cleanMult_of_checked {pub : Bytes} {priv : Octets 21} {z : Vli}
    (hlt : beNat priv.1 < groupOrder) {x y : ℕ} (hx : beNat (slice pub 0 20) = x)
    (hy : beNat (slice pub 20 20) = y) {R : ℕ × ℕ}
    (hrun : checkedOps.eccPointMult (some x, some y) (regularNat (beNat priv.1)).testBit
      (some (some (vliNat z))) 162 = (some R.1, some R.2)) :
    CleanMult (publicPoint pub) (regularScalar (bytesToNative priv.1)) (some z) := by
  obtain ⟨hlen, hnat⟩ := privateWords priv
  have hpx : vliNat (publicPoint pub).1 = x := (bytesToNative_eq _).2.trans hx
  have hpy : vliNat (publicPoint pub).2 = y := (bytesToNative_eq _).2.trans hy
  rw [← hnat, ← vliTestBit_regularScalar hlen (hnat.symm ▸ hlt), ← hpx, ← hpy] at hrun
  exact ⟨congrArg (fun Q => Q.1.isSome) hrun, congrArg (fun Q => Q.2.isSome) hrun⟩

section Exchange

variable {a b : Octets 40 × Octets 21} {za zb : Vli} {rng rng' : Rng}

/-- The secret that a made key has with another. -/
theorem Made.secret (ha : Made a za) (hb : Made b zb) (hca : CleanKey a za) (hcb : CleanKey b zb)
    (hclean : CleanSecret rng b.1.1 a.2) :
    (uEccSharedSecret rng b.1.1 a.2 = none ↔ (affine (beNat b.2.1 • generator)).1 = 0) ∧
      ∀ s ∈ uEccSharedSecret rng b.1.1 a.2,
        beNat s.1 = (affine ((beNat a.2.1 * beNat b.2.1) • generator)).1.val := by
  obtain ⟨z, call, hdraw, hmult⟩ := hclean
  obtain ⟨hdeg, -⟩ := ha.point hca
  obtain ⟨-, hpub⟩ := hb.point hcb
  have hsecret := uEccSharedSecret_eq (nsmul_ne_zero generator_ne_zero hb.pos hb.lt) hpub ha.pos
    ha.lt hdraw hmult
  rw [← mul_nsmul'] at hsecret
  simp only [or_iff_left hdeg] at hsecret
  split_ifs at hsecret with hx
  · rw [hsecret]
    exact ⟨iff_of_true rfl hx, fun s hs => by cases hs⟩
  · obtain ⟨s, hs, hnat⟩ := hsecret
    rw [hs]
    refine ⟨iff_of_false (Option.some_ne_none s) hx, fun s' hs' => ?_⟩
    obtain rfl := Option.some.inj hs'
    exact hnat

theorem Made.secret_unique (ha : Made a za) (hb : Made b zb) (hca : CleanKey a za)
    (hcb : CleanKey b zb) (hsa : CleanSecret rng b.1.1 a.2) (hsb : CleanSecret rng' a.1.1 b.2)
    {s s' : Octets 20} (hs : s ∈ uEccSharedSecret rng b.1.1 a.2)
    (hs' : s' ∈ uEccSharedSecret rng' a.1.1 b.2) : s = s' := by
  refine Subtype.ext (beNat_inj (s.2.trans s'.2.symm) ?_)
  rw [(ha.secret hb hca hcb hsa).2 s hs, (hb.secret ha hcb hca hsb).2 s' hs', mul_comm]

/-- A side fails only at a public key whose `x` is zero. -/
theorem Made.secret_none_iff (ha : Made a za) (hb : Made b zb) (hca : CleanKey a za)
    (hcb : CleanKey b zb) (hsa : CleanSecret rng b.1.1 a.2) :
    uEccSharedSecret rng b.1.1 a.2 = none ↔ beNat (slice b.1.1 0 20) = 0 := by
  have hx : vliNat (publicPoint b.1.1).1 = beNat (slice b.1.1 0 20) := (bytesToNative_eq _).2
  rw [(ha.secret hb hca hcb hsa).1, ← (hb.point hcb).2.1.vliNat_eq_zero_iff, hx]

/-- Both sides compute a secret, if neither public key has that. -/
theorem Made.exists_secret (ha : Made a za) (hb : Made b zb) (hca : CleanKey a za)
    (hcb : CleanKey b zb) (hsa : CleanSecret rng b.1.1 a.2) (hsb : CleanSecret rng' a.1.1 b.2)
    (hxa : beNat (slice a.1.1 0 20) ≠ 0) (hxb : beNat (slice b.1.1 0 20) ≠ 0) :
    ∃ s, uEccSharedSecret rng b.1.1 a.2 = some s ∧ uEccSharedSecret rng' a.1.1 b.2 = some s := by
  have hsome := (ha.secret_none_iff hb hca hcb hsa).not.mpr hxb
  have hsome' := (hb.secret_none_iff ha hcb hca hsb).not.mpr hxa
  obtain ⟨s, hs⟩ := Option.ne_none_iff_exists'.mp hsome
  obtain ⟨s', hs'⟩ := Option.ne_none_iff_exists'.mp hsome'
  have heq : s = s' := ha.secret_unique hb hca hcb hsa hsb hs hs'
  exact ⟨s, hs, heq ▸ hs'⟩

/-- **The key exchange.** Two key pairs of `uECC_make_key` have one secret on both sides, if no
product is misreduced; a side fails only if the `x` of the other's public key is zero. -/
theorem key_exchange (ha : Made a za) (hb : Made b zb) (hca : CleanKey a za) (hcb : CleanKey b zb)
    (hsa : CleanSecret rng b.1.1 a.2) (hsb : CleanSecret rng' a.1.1 b.2) :
    (∀ s ∈ uEccSharedSecret rng b.1.1 a.2, ∀ s' ∈ uEccSharedSecret rng' a.1.1 b.2, s = s') ∧
      (uEccSharedSecret rng b.1.1 a.2 = none ↔ beNat (slice b.1.1 0 20) = 0) := by
  constructor
  · intro s hs s' hs'
    exact ha.secret_unique hb hca hcb hsa hsb hs hs'
  · exact ha.secret_none_iff hb hca hcb hsa

end Exchange

namespace Sample

theorem smallRng_draw : generateRandomInt (smallRng 2) curveP 0 = (some smallZ, 1) := by
  decide +kernel

theorem three_five : CleanSecret (smallRng 2) keysFive.1.1 keysThree.2 := by
  have hkey : beNat keysThree.2.1 = 3 := by decide
  refine ⟨smallZ, 1, smallRng_draw, cleanMult_of_checked (x := fiveX) (y := fiveY)
    (R := (secretX, secretY)) (by decide) (by decide) (by decide) ?_⟩
  rw [hkey]
  exact smallMult_runs.2.2.1

theorem five_three : CleanSecret (smallRng 2) keysThree.1.1 keysFive.2 := by
  have hkey : beNat keysFive.2.1 = 5 := by decide
  refine ⟨smallZ, 1, smallRng_draw, cleanMult_of_checked (x := threeX) (y := threeY)
    (R := (secretX, secretY)) (by decide) (by decide) (by decide) ?_⟩
  rw [hkey]
  exact smallMult_runs.2.2.2

end Sample

open Sample in
/-- The key pairs for three and five: there is a secret. -/
theorem key_exchange_sample :
    (∀ s ∈ uEccSharedSecret (smallRng 2) keysFive.1.1 keysThree.2,
      ∀ s' ∈ uEccSharedSecret (smallRng 2) keysThree.1.1 keysFive.2, s = s') ∧
    (uEccSharedSecret (smallRng 2) keysFive.1.1 keysThree.2).isSome := by
  obtain ⟨hsame, hnone⟩ := key_exchange keysThree_made.1 keysFive_made.1 keysThree_made.2
    keysFive_made.2 three_five five_three
  have hx : beNat (slice keysFive.1.1 0 20) ≠ 0 := by decide
  exact ⟨hsame, Option.isSome_iff_ne_none.mpr fun h => hx (hnone.mp h)⟩

end River2
