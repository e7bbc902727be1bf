import River2.Secp160r1
import River2.Vli

/-!
# The fast reduction of secp160r1 (`curve-specific.inc`)

`vli_mmod_fast_secp160r1` replaces the words above `2¹⁶⁰` by their product with `ω = 2³¹ + 1`,
twice, and subtracts the prime once for each carry.

1. `foldOmega`: the number before the subtractions, congruent to the product.
2. `vliNat_vliMmodFast`: what the subtractions leave. A carry whose rest is at least the prime is
   subtracted only once, and the result is off by `2¹⁶⁰`.
3. `vliMmodFast_iff`: the reduction is right exactly when the product is not `Misreduced`.
4. `vliModMultFast_lt`: right or wrong, products of reduced numbers are reduced.
-/

namespace River2

/-- `curve_secp160r1.p`. -/
def curveP : Vli := [0x7FFFFFFF, 0xFFFFFFFF, 0xFFFFFFFF, 0xFFFFFFFF, 0xFFFFFFFF]

@[simp] theorem curveP_length : curveP.length = 5 := rfl

@[simp] theorem vliNat_curveP : vliNat curveP = fieldPrime := rfl

/-- `2³¹ + 1`. -/
def omega : ℕ := 2 ^ 31 + 1

/-! ## The code -/

/-- The last loop of `omega_mult_secp160r1`. -/
def carryLoop (carry : UInt32) : Vli → Vli
  | [] => []
  | w :: result =>
    if carry = 0 then w :: result
    else
      let sum : UInt64 := w.toUInt64 + carry.toUInt64
      sum.toUInt32 :: carryLoop (sum >>> 32).toUInt32 result

/-- `omega_mult_secp160r1` into ten words, of which the first six are written. -/
def omegaMult (result right : Vli) : Vli :=
  let shifted := vliRshift1 right -- in `result[1]` to `result[5]`
  let sum := vliAdd ((right.headD 0 <<< 31) :: shifted.take 4) right
  sum.1 ++ carryLoop sum.2 (shifted.drop 4 ++ result.drop 6)

/-- `while (carry > 0)` of `vli_mmod_fast_secp160r1`. -/
def subtractLoop : ℕ → Vli → Vli
  | 0, result => result
  | carry + 1, result => subtractLoop carry (vliSub result curveP).1

/-- `vli_mmod_fast_secp160r1`, on ten words. -/
def vliMmodFast (product : Vli) : Vli :=
  let tmp := omegaMult (vliClear 10) (product.drop 5)
  let r := vliAdd (product.take 5) (tmp.take 5)
  let product := omegaMult (vliClear 5 ++ product.drop 5) (tmp.drop 5)
  let r' := vliAdd r.1 (product.take 5)
  let result := subtractLoop (r.2 + r'.2).toNat r'.1
  if vliCmpUnsafe result curveP = .gt then (vliSub result curveP).1 else result

/-- `uECC_vli_modMult_fast`. -/
def vliModMultFast (left right : Vli) : Vli := vliMmodFast (vliMult left right)

/-! ## The product with `ω` -/

theorem carryLoop_zero (ws : Vli) : carryLoop 0 ws = ws := by
  cases ws with
  | nil => rfl
  | cons w ws => exact if_pos rfl

theorem carryLoop_cons {carry w : UInt32} (ws : Vli) (hlt : w.toNat + carry.toNat < 2 ^ 32) :
    carryLoop carry (w :: ws) = (w + carry) :: ws := by
  unfold carryLoop
  split_ifs with h0
  · rw [h0, UInt32.add_zero]
  · have hsum : (w.toUInt64 + carry.toUInt64).toNat = w.toNat + carry.toNat := by
      rw [UInt64.toNat_add, UInt32.toNat_toUInt64, UInt32.toNat_toUInt64]
      exact Nat.mod_eq_of_lt (by omega)
    have hhigh : ((w.toUInt64 + carry.toUInt64) >>> 32).toUInt32 = 0 := by
      apply UInt32.toNat_inj.mp
      rw [UInt64.toNat_toUInt32, UInt64.toNat_shiftRight, hsum]
      show (w.toNat + carry.toNat) >>> 32 % 2 ^ 32 = 0
      rw [Nat.shiftRight_eq_div_pow]
      omega
    have hlow : (w.toUInt64 + carry.toUInt64).toUInt32 = w + carry := by
      apply UInt32.toNat_inj.mp
      rw [UInt64.toNat_toUInt32, hsum, UInt32.toNat_add]
    dsimp only
    rw [hhigh, hlow, carryLoop_zero]

theorem omegaMult_eq {right : Vli} (hlen : right.length = 5) (result : Vli) :
    ∃ low : Vli, omegaMult result right = low ++ result.drop 6 ∧ low.length = 6 ∧
      vliNat low = vliNat right * omega := by
  obtain ⟨w, ws, rfl⟩ := List.exists_cons_of_length_eq_add_one hlen
  have hR := vliNat_lt (w :: ws)
  rw [hlen] at hR
  have hbit : (w <<< 31).toNat = vliNat (w :: ws) % 2 * 2 ^ 31 := (vliRshiftLoop_eq (w :: ws)).2.2
  have hslen := (vliRshift1_length (w :: ws)).trans hlen
  have hshift := vliNat_vliRshift1 (w :: ws)
  obtain ⟨t, ht⟩ : ∃ t, (vliRshift1 (w :: ws)).drop 4 = [t] :=
    List.length_eq_one_iff.mp (by rw [List.length_drop, hslen])
  have hmin : 32 * min 4 5 = 128 := rfl
  have hsplit := vliNat_append ((vliRshift1 (w :: ws)).take 4) ((vliRshift1 (w :: ws)).drop 4)
  rw [List.take_append_drop, hshift, ht, List.length_take, hslen, vliNat_cons t, vliNat_nil,
    hmin] at hsplit
  have hllen : ((w <<< 31) :: (vliRshift1 (w :: ws)).take 4).length = (w :: ws).length := by
    rw [List.length_cons, List.length_take, hslen, hlen]
    rfl
  have hlow := vliNat_cons (w <<< 31) ((vliRshift1 (w :: ws)).take 4)
  rw [hbit] at hlow
  obtain ⟨hsum, hcarry⟩ := vliAdd_eq hllen
  have hsumlen := vliAdd_length hllen
  rw [hllen, hlen] at hsum hcarry hsumlen
  unfold omegaMult
  dsimp only [List.headD_cons]
  rw [ht]
  generalize vliAdd ((w <<< 31) :: (vliRshift1 (w :: ws)).take 4) (w :: ws) = sum at *
  generalize vliNat ((w <<< 31) :: (vliRshift1 (w :: ws)).take 4) = l at *
  generalize vliNat ((vliRshift1 (w :: ws)).take 4) = u at *
  generalize vliNat (w :: ws) = R at *
  have htop : (t + sum.2).toNat = t.toNat + sum.2.toNat := by
    rw [UInt32.toNat_add]
    exact Nat.mod_eq_of_lt (by omega)
  refine ⟨sum.1 ++ [t + sum.2], ?_, ?_, ?_⟩
  · rw [List.singleton_append, carryLoop_cons _ (by omega), List.append_assoc]
    rfl
  · rw [List.length_append, hsumlen]
    rfl
  · rw [vliNat_append, hsumlen, hsum, vliNat_cons, vliNat_nil, htop, hcarry]
    unfold omega
    omega

/-! ## The reduction -/

/-- The number before the subtractions: the words above `2¹⁶⁰` folded in with `ω`, twice. -/
def foldOmega (N : ℕ) : ℕ :=
  N % 2 ^ 160 + N / 2 ^ 160 * omega % 2 ^ 160 + N / 2 ^ 160 * omega / 2 ^ 160 * omega

theorem foldOmega_modEq (N : ℕ) : foldOmega N ≡ N [MOD fieldPrime] := by
  have hpow : 2 ^ 160 ≡ omega [MOD fieldPrime] := by decide +kernel
  have hfold : ∀ m, m % 2 ^ 160 + m / 2 ^ 160 * omega ≡ m [MOD fieldPrime] := by
    intro m
    have h := (hpow.symm.mul_left (m / 2 ^ 160)).add_left (m % 2 ^ 160)
    rwa [mul_comm (m / 2 ^ 160) (2 ^ 160), Nat.mod_add_div] at h
  unfold foldOmega
  rw [add_assoc]
  exact ((hfold (N / 2 ^ 160 * omega)).add_left _).trans (hfold N)

/-- The products that the fast reduction gets wrong: there is one carry, and the rest is not below
the prime. -/
def Misreduced (N : ℕ) : Prop :=
  2 ^ 160 + fieldPrime ≤ foldOmega N ∧ foldOmega N < 2 ^ 161

instance (N : ℕ) : Decidable (Misreduced N) := inferInstanceAs (Decidable (_ ∧ _))

theorem subtractLoop_length {result : Vli} (hlen : result.length = 5) (carry : ℕ) :
    (subtractLoop carry result).length = 5 := by
  induction carry generalizing result with
  | zero => exact hlen
  | succ carry ih => exact ih ((vliSub_length hlen).trans hlen)

theorem exists_split {ws : Vli} (hlen : ws.length = 6) :
    ∃ q t, ws = q ++ [t] ∧ q.length = 5 ∧ vliNat q = vliNat ws % 2 ^ 160 ∧
      t.toNat = vliNat ws / 2 ^ 160 := by
  rcases List.eq_nil_or_concat ws with rfl | ⟨q, t, rfl⟩
  · cases hlen
  rw [List.concat_eq_append] at hlen ⊢
  have hq : q.length = 5 := by simpa using hlen
  have hlt := vliNat_lt q
  rw [hq] at hlt
  rw [vliNat_append, hq, vliNat_cons, vliNat_nil]
  exact ⟨q, t, rfl, hq, by omega, by omega⟩

/-- Up to the subtractions. -/
theorem vliMmodFast_folds {product : Vli} (hlen : product.length = 10) :
    ∃ (carry : ℕ) (result : Vli), result.length = 5 ∧
      vliNat result + 2 ^ 160 * carry = foldOmega (vliNat product) ∧
      vliMmodFast product =
        if vliCmpUnsafe (subtractLoop carry result) curveP = .gt then
          (vliSub (subtractLoop carry result) curveP).1 else subtractLoop carry result := by
  have hlow : (product.take 5).length = 5 := by rw [List.length_take, hlen]; rfl
  have hhigh : (product.drop 5).length = 5 := by rw [List.length_drop, hlen]
  have hsplit := vliNat_append (product.take 5) (product.drop 5)
  have hL := vliNat_lt (product.take 5)
  rw [List.take_append_drop, hlow] at hsplit
  rw [hlow] at hL
  obtain ⟨tmp, htmp, htmplen, htmpnat⟩ := omegaMult_eq hhigh (vliClear 10)
  obtain ⟨q, t, rfl, hq, hqnat, ht⟩ := exists_split htmplen
  rw [htmpnat] at hqnat ht
  have hRq : (([t] : Vli) ++ (vliClear 10).drop 6).length = 5 := rfl
  have hRqnat : vliNat (([t] : Vli) ++ (vliClear 10).drop 6) = t.toNat := by
    rw [vliNat_append]
    show vliNat [t] + 2 ^ 32 * 0 = t.toNat
    rw [vliNat_cons, vliNat_nil]
    omega
  obtain ⟨tmp', htmp', htmplen', htmpnat'⟩ :=
    omegaMult_eq hRq (vliClear 5 ++ product.drop 5)
  obtain ⟨q', t', rfl, hq', hqnat', -⟩ := exists_split htmplen'
  rw [htmpnat', hRqnat] at hqnat'
  have htake : (omegaMult (vliClear 10) (product.drop 5)).take 5 = q := by
    rw [htmp, List.append_assoc, List.take_left' hq]
  have hdrop : (omegaMult (vliClear 10) (product.drop 5)).drop 5 =
      [t] ++ (vliClear 10).drop 6 := by
    rw [htmp, List.append_assoc, List.drop_left' hq]
  have htake' : (omegaMult (vliClear 5 ++ product.drop 5)
      ([t] ++ (vliClear 10).drop 6)).take 5 = q' := by
    rw [htmp', List.append_assoc, List.take_left' hq']
  have hlen₁ : (product.take 5).length = q.length := hlow.trans hq.symm
  obtain ⟨hsum₁, hcarry₁⟩ := vliAdd_eq hlen₁
  have hslen₁ := (vliAdd_length hlen₁).trans hlow
  have hlen₂ : (vliAdd (product.take 5) q).1.length = q'.length := hslen₁.trans hq'.symm
  obtain ⟨hsum₂, hcarry₂⟩ := vliAdd_eq hlen₂
  have hslen₂ := (vliAdd_length hlen₂).trans hslen₁
  rw [hlow] at hsum₁ hcarry₁
  rw [hslen₁] at hsum₂ hcarry₂
  refine ⟨((vliAdd (product.take 5) q).2 + (vliAdd (vliAdd (product.take 5) q).1 q').2).toNat, _,
    hslen₂, ?_, ?_⟩
  · have htlt := t.toNat_lt
    have hqlt := vliNat_lt q
    rw [hq] at hqlt
    have hN : vliNat product % 2 ^ 160 = vliNat (product.take 5) := by omega
    have hH : vliNat product / 2 ^ 160 = vliNat (product.drop 5) := by omega
    have hq'nat : vliNat q' = t.toNat * omega := by
      unfold omega at hqnat' ⊢
      rw [hqnat', Nat.mod_eq_of_lt (by omega)]
    have hq'lt : t.toNat * omega < 2 ^ 64 := by
      unfold omega
      omega
    unfold foldOmega
    rw [hN, hH, ← hqnat, ← ht, UInt32.toNat_add, ← hq'nat]
    rw [← hq'nat] at hq'lt
    have hsmall : (vliAdd (product.take 5) q).2.toNat +
        (vliAdd (vliAdd (product.take 5) q).1 q').2.toNat < 2 ^ 32 := by omega
    rw [Nat.mod_eq_of_lt hsmall]
    omega
  · unfold vliMmodFast
    dsimp only
    rw [htake, hdrop, htake']

/-- What the subtractions of the prime leave, one for each carry. -/
def carried (T : ℕ) : ℕ :=
  if T < 2 ^ 160 then T
  else if T < 2 ^ 160 + fieldPrime then T - fieldPrime
  else if T < 2 ^ 161 then T - fieldPrime - 2 ^ 160
  else T - 2 * fieldPrime

/-- And the one at the end. -/
def subtracted (T : ℕ) : ℕ :=
  if fieldPrime < carried T then carried T - fieldPrime else carried T

theorem fieldPrime_eq : fieldPrime = 2 ^ 160 - 2 ^ 31 - 1 := rfl

theorem vliSub_curveP {result : Vli} (hlen : result.length = 5) :
    vliNat (vliSub result curveP).1 =
      if fieldPrime ≤ vliNat result then vliNat result - fieldPrime
      else 2 ^ 160 + vliNat result - fieldPrime := by
  have hlen' : result.length = curveP.length := hlen
  split_ifs with hle
  · rw [(vliSub_of_le hlen' (by rwa [vliNat_curveP])).1, vliNat_curveP]
  · rw [(vliSub_of_lt hlen' (by rwa [vliNat_curveP, ← not_le])).1, vliNat_curveP, hlen]

theorem foldOmega_lt {N : ℕ} (hN : N < 2 ^ 160 * 2 ^ 160) : foldOmega N < 2 ^ 161 + 2 ^ 64 := by
  have hH : N / 2 ^ 160 < 2 ^ 160 := Nat.div_lt_of_lt_mul hN
  unfold foldOmega omega
  omega

theorem vliNat_lt_of_length {product : Vli} (hlen : product.length = 10) :
    vliNat product < 2 ^ 160 * 2 ^ 160 := by
  have hN := vliNat_lt product
  rwa [hlen, (by rfl : 32 * 10 = 160 + 160), pow_add] at hN

theorem subtractLoop_eq {result : Vli} (hlen : result.length = 5) {carry T : ℕ}
    (hT : vliNat result + 2 ^ 160 * carry = T) (hlt : T < 2 ^ 161 + 2 ^ 64) :
    vliNat (subtractLoop carry result) = carried T := by
  have hr := vliNat_lt result
  rw [hlen] at hr
  have hlen₁ := (vliSub_length (hlen.trans curveP_length.symm)).trans hlen
  have hsub := vliSub_curveP hlen
  have hsub₁ := vliSub_curveP hlen₁
  obtain rfl | rfl | rfl : carry = 0 ∨ carry = 1 ∨ carry = 2 := by omega
  · show vliNat result = _
    unfold carried
    rw [if_pos (by omega)]
    omega
  · show vliNat (vliSub result curveP).1 = _
    unfold carried
    rw [hsub, fieldPrime_eq]
    split_ifs <;> omega
  · show vliNat (vliSub (vliSub result curveP).1 curveP).1 = _
    unfold carried
    rw [hsub₁, hsub, fieldPrime_eq]
    split_ifs <;> omega

/-- What the fast reduction computes. -/
theorem vliNat_vliMmodFast {product : Vli} (hlen : product.length = 10) :
    vliNat (vliMmodFast product) = subtracted (foldOmega (vliNat product)) := by
  obtain ⟨carry, result, hrlen, hT, hcode⟩ := vliMmodFast_folds hlen
  have hloop := subtractLoop_eq hrlen hT (foldOmega_lt (vliNat_lt_of_length hlen))
  have hlen' := subtractLoop_length hrlen carry
  have hgt : vliCmpUnsafe (subtractLoop carry result) curveP = .gt ↔
      fieldPrime < vliNat (subtractLoop carry result) := by
    rw [vliCmpUnsafe_eq hlen', compare_gt_iff_gt, vliNat_curveP]
  unfold subtracted
  rw [← hloop, hcode]
  split_ifs with h₁ h₂ h₂
  · rw [vliSub_curveP hlen', if_pos h₂.le]
  · exact absurd (hgt.mp h₁) h₂
  · exact absurd (hgt.mpr h₂) h₁
  · rfl

theorem subtracted_le {T : ℕ} (hT : T < 2 ^ 161 + 2 ^ 64) : subtracted T ≤ fieldPrime := by
  unfold subtracted carried
  rw [fieldPrime_eq]
  split_ifs <;> omega

/-- The subtractions are right exactly where one carry has no rest above the prime. -/
theorem subtracted_modEq_iff {T : ℕ} (hT : T < 2 ^ 161 + 2 ^ 64) :
    subtracted T ≡ T [MOD fieldPrime] ↔ ¬ (2 ^ 160 + fieldPrime ≤ T ∧ T < 2 ^ 161) := by
  have hmul : ∀ j, j * fieldPrime + subtracted T = T → subtracted T ≡ T [MOD fieldPrime] := by
    intro j hj
    have h : (j * fieldPrime + subtracted T) % fieldPrime = subtracted T % fieldPrime :=
      Nat.mul_add_mod_self_right ..
    rw [hj] at h
    exact h.symm
  constructor
  · rintro hmod ⟨hge, hlt⟩
    have hwrong : T = subtracted T + omega + 2 * fieldPrime := by
      unfold subtracted carried omega
      rw [fieldPrime_eq] at hge ⊢
      split_ifs <;> omega
    have hzero : 0 ≡ omega [MOD fieldPrime] := by
      have h : subtracted T + 0 ≡ subtracted T + omega + 2 * fieldPrime [MOD fieldPrime] := by
        rwa [← hwrong]
      rw [Nat.ModEq, Nat.add_mul_mod_self_right] at h
      exact Nat.ModEq.add_left_cancel' _ h
    exact absurd hzero (by decide +kernel)
  · intro hnot
    rw [not_and_or, not_le, not_lt] at hnot
    by_cases h₁ : T ≤ fieldPrime
    · refine hmul 0 ?_
      unfold subtracted carried
      rw [fieldPrime_eq] at h₁ ⊢
      split_ifs <;> omega
    by_cases h₂ : T ≤ 2 * fieldPrime
    · refine hmul 1 ?_
      unfold subtracted carried
      rw [fieldPrime_eq] at h₁ h₂ hnot ⊢
      split_ifs <;> omega
    · refine hmul 2 ?_
      unfold subtracted carried
      rw [fieldPrime_eq] at h₁ h₂ hnot ⊢
      split_ifs <;> omega

/-- **The fast reduction.** It is right exactly where the product is not misreduced. -/
theorem vliMmodFast_iff {product : Vli} (hlen : product.length = 10) :
    vliNat (vliMmodFast product) ≡ vliNat product [MOD fieldPrime] ↔
      ¬ Misreduced (vliNat product) := by
  have hfold := foldOmega_modEq (vliNat product)
  rw [vliNat_vliMmodFast hlen]
  exact Iff.trans ⟨fun h => h.trans hfold.symm, fun h => h.trans hfold⟩
    (subtracted_modEq_iff (foldOmega_lt (vliNat_lt_of_length hlen)))

/-! ## The product of two numbers -/

section Mult

variable {left right : Vli}

theorem vliMmodFast_length {product : Vli} (hlen : product.length = 10) :
    (vliMmodFast product).length = 5 := by
  obtain ⟨carry, result, hrlen, -, hcode⟩ := vliMmodFast_folds hlen
  have hlen' := subtractLoop_length hrlen carry
  rw [hcode]
  split_ifs
  · rw [vliSub_length (hlen'.trans curveP_length.symm), hlen']
  · exact hlen'

theorem vliMult_length_ten (hleft : left.length = 5) : (vliMult left right).length = 10 := by
  rw [vliMult_length (by omega), hleft]

theorem vliModMultFast_length (hleft : left.length = 5) :
    (vliModMultFast left right).length = 5 := vliMmodFast_length (vliMult_length_ten hleft)

theorem vliNat_vliModMultFast (hleft : left.length = 5) (hright : right.length = 5) :
    vliNat (vliModMultFast left right) = subtracted (foldOmega (vliNat left * vliNat right)) := by
  unfold vliModMultFast
  rw [vliNat_vliMmodFast (vliMult_length_ten hleft),
    vliNat_vliMult (hleft.trans hright.symm) (by omega) (by omega)]

/-- The product of reduced numbers is reduced, whether it is right or wrong. -/
theorem vliModMultFast_lt (hleft : left.length = 5) (hright : right.length = 5)
    (hl : vliNat left < fieldPrime) (hr : vliNat right < fieldPrime) :
    vliNat (vliModMultFast left right) < fieldPrime := by
  have hN : vliNat left * vliNat right < 2 ^ 160 * 2 ^ 160 :=
    Nat.mul_lt_mul'' (hl.trans (by decide)) (hr.trans (by decide))
  have hT := foldOmega_lt hN
  rw [vliNat_vliModMultFast hleft hright]
  refine (subtracted_le hT).lt_of_ne fun heq => ?_
  -- the prime itself is left only by its multiples, and of these the product is zero
  have hmult : foldOmega (vliNat left * vliNat right) = fieldPrime ∨
      foldOmega (vliNat left * vliNat right) = 2 * fieldPrime := by
    unfold subtracted carried at heq
    rw [fieldPrime_eq] at heq ⊢
    split_ifs at heq <;> omega
  have hdvd : fieldPrime ∣ vliNat left * vliNat right := by
    have hmod := (foldOmega_modEq (vliNat left * vliNat right)).symm
    rw [← Nat.modEq_zero_iff_dvd]
    refine hmod.trans ?_
    rcases hmult with h | h
    · rw [h]
      exact Nat.mod_self _
    · rw [h]
      exact Nat.mul_mod_left ..
  have hzero : vliNat left * vliNat right = 0 := by
    rcases prime_fieldPrime.dvd_mul.mp hdvd with h | h
    · rw [Nat.eq_zero_of_dvd_of_lt h hl, zero_mul]
    · rw [Nat.eq_zero_of_dvd_of_lt h hr, mul_zero]
  rw [hzero] at hmult
  exact absurd hmult (by decide +kernel)

theorem vliModMultFast_eq (hleft : left.length = 5) (hright : right.length = 5)
    (hl : vliNat left < fieldPrime) (hr : vliNat right < fieldPrime)
    (hnot : ¬ Misreduced (vliNat left * vliNat right)) :
    vliNat (vliModMultFast left right) = vliNat left * vliNat right % fieldPrime := by
  have hten : (vliMult left right).length = 10 := vliMult_length_ten hleft
  have hmod := (vliMmodFast_iff hten).mpr (by
    rwa [vliNat_vliMult (hleft.trans hright.symm) (by omega) (by omega)])
  rw [vliNat_vliMult (hleft.trans hright.symm) (by omega) (by omega)] at hmod
  rw [← hmod]
  exact (Nat.mod_eq_of_lt (vliModMultFast_lt hleft hright hl hr)).symm

end Mult

end River2
