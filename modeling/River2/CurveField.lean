import River2.CurveOps
import River2.FastReduction
import River2.ModInv

/-!
# The arithmetic of secp160r1

1. `wordOps`: the functions of `uECC.c` on five words.
2. `checkedOps`: on reduced numbers, until a product is misreduced.
3. `fieldOps`: in the field.
4. `wordOps_checkedOps` and `checkedOps_fieldOps`: as long as there is a number, it is that of the
   words, and it stands for the element of the field.
-/

namespace River2

/-- `curve_secp160r1.b`. -/
def curveB : Vli := [0xC565FA45, 0x81D4D4AD, 0x65ACF89F, 0x54BD7A8B, 0x1C97BEFC]

def curveBNat : ℕ := 0x1C97BEFC54BD7A8B65ACF89F81D4D4ADC565FA45

theorem vliNat_curveB : vliNat curveB = curveBNat := rfl

theorem vliNat_three : vliNat ((vliClear 5).set 0 3) = 3 := rfl

/-- The arithmetic on words. -/
def wordOps : CurveOps Vli where
  modAdd left right := vliModAdd left right curveP
  modSub left right := vliModSub left right curveP
  modMultFast := vliModMultFast
  modInv input := (vliModInv input curveP).getD (vliClear 5)
  half x :=
    if vliTestBit x 0 then
      let sum := vliAdd x curveP
      vliSetTop (vliRshift1 sum.1) (sum.2 <<< 31)
    else vliRshift1 x
  isZero := vliIsZero
  one := (vliClear 5).set 0 1
  three := (vliClear 5).set 0 3
  b := curveB

/-- The inverse by the binary Euclidean algorithm; zero has itself. -/
def natInv (x : ℕ) : ℕ :=
  if x = 0 then 0
  else ((BinaryEuclid.run fieldPrime 320 (BinaryEuclid.init fieldPrime x)).map (·.u)).getD 0

/-- The product of two numbers, unless it is misreduced. -/
def checkedMult (left right : Option ℕ) : Option ℕ :=
  left.bind fun l => right.bind fun r =>
    if Misreduced (l * r) then none else some (l * r % fieldPrime)

/-- The arithmetic on reduced numbers: a misreduced product has none. -/
def checkedOps : CurveOps (Option ℕ) where
  modAdd left right := left.bind fun l => right.map fun r => (l + r) % fieldPrime
  modSub left right := left.bind fun l => right.map fun r => (l + (fieldPrime - r)) % fieldPrime
  modMultFast := checkedMult
  modInv input := input.map natInv
  half x := x.map (BinaryEuclid.halve fieldPrime)
  isZero x := x = some 0
  one := some 1
  three := some 3
  b := some curveBNat

abbrev Field160 := ZMod fieldPrime

/-- The arithmetic in the field. -/
def fieldOps : CurveOps Field160 := .ofField curveBNat

/-! ## Words and numbers -/

/-- If there is a number, it is reduced, and that of the five words. -/
def WordsHold (ws : Vli) (o : Option ℕ) : Prop :=
  ∀ v ∈ o, ws.length = 5 ∧ vliNat ws = v ∧ v < fieldPrime

theorem fieldPrime_odd : Odd fieldPrime := Nat.odd_iff.mpr rfl

theorem one_lt_fieldPrime : 1 < fieldPrime := prime_fieldPrime.one_lt

theorem shiftLeft_31 {w : UInt32} (hw : w.toNat ≤ 1) : (w <<< 31).toNat = w.toNat * 2 ^ 31 := by
  rw [UInt32.toNat_shiftLeft]
  show w.toNat <<< 31 % 2 ^ 32 = _
  rw [Nat.shiftLeft_eq]
  omega

theorem wordOps_half {ws : Vli} (hlen : ws.length = 5) (hlt : vliNat ws < fieldPrime) :
    (wordOps.half ws).length = 5 ∧
      vliNat (wordOps.half ws) = BinaryEuclid.halve fieldPrime (vliNat ws) := by
  have hbit : vliTestBit ws 0 = decide (vliNat ws % 2 = 1) := by
    rw [vliTestBit_eq, Nat.testBit_zero]
  have hp : fieldPrime < 2 ^ 160 := by decide
  unfold wordOps BinaryEuclid.halve
  dsimp only
  rw [hbit]
  by_cases hodd : vliNat ws % 2 = 1
  · rw [decide_eq_true hodd, if_pos rfl, if_neg (by omega)]
    have hwidth : ws.length = curveP.length := hlen
    obtain ⟨hsum, hcarry⟩ := vliAdd_eq hwidth
    have hsumlen := vliAdd_length hwidth
    rw [hlen, vliNat_curveP] at hsum hcarry
    have hle : (vliAdd ws curveP).2.toNat ≤ 1 := by omega
    have hrlen : (vliRshift1 (vliAdd ws curveP).1).length = 4 + 1 := by
      rw [vliRshift1_length, hsumlen, hlen]
    have hr := vliNat_vliRshift1 (vliAdd ws curveP).1
    refine ⟨(vliSetTop_length _ _).trans hrlen, ?_⟩
    rw [vliNat_vliSetTop hrlen (by omega) (shiftLeft_31 hle), hr, hsum, hcarry]
    omega
  · rw [decide_eq_false hodd, if_neg Bool.false_ne_true, if_pos (by omega), vliRshift1_length]
    exact ⟨hlen, vliNat_vliRshift1 ws⟩

theorem natInv_spec {x : ℕ} (hpos : 0 < x) (hlt : x < fieldPrime) :
    natInv x < fieldPrime ∧ natInv x * x ≡ 1 [MOD fieldPrime] := by
  have hfuel : x * fieldPrime < 2 ^ 320 := by
    calc x * fieldPrime < 2 ^ 160 * 2 ^ 160 :=
          Nat.mul_lt_mul'' (hlt.trans (by decide)) (by decide)
      _ = 2 ^ 320 := by rw [← pow_add]
  obtain ⟨s, hrun, hslt, hmul⟩ :=
    BinaryEuclid.run_init fieldPrime_odd one_lt_fieldPrime hpos hfuel
  have hgcd : Nat.gcd x fieldPrime = 1 :=
    (Nat.coprime_of_lt_prime hpos.ne' hlt prime_fieldPrime).symm
  unfold natInv
  rw [if_neg hpos.ne', hrun]
  exact ⟨hslt, hgcd ▸ hmul⟩

theorem wordOps_inv {ws : Vli} (hlen : ws.length = 5) (hlt : vliNat ws < fieldPrime) :
    (wordOps.modInv ws).length = 5 ∧ vliNat (wordOps.modInv ws) = natInv (vliNat ws) ∧
      natInv (vliNat ws) < fieldPrime := by
  show ((vliModInv ws curveP).getD (vliClear 5)).length = 5 ∧
    vliNat ((vliModInv ws curveP).getD (vliClear 5)) = _ ∧ _
  rcases Nat.eq_zero_or_pos (vliNat ws) with hzero | hpos
  · rw [vliModInv_zero hzero, hlen, hzero]
    exact ⟨vliClear_length 5, vliNat_vliClear 5, prime_fieldPrime.pos⟩
  · obtain ⟨r, hr, hrlen, hrlt, hmul⟩ := vliModInv_eq (n := 4) hlen curveP_length
      (vliNat_curveP ▸ fieldPrime_odd) (vliNat_curveP ▸ one_lt_fieldPrime)
    obtain ⟨hnlt, hnmul⟩ := natInv_spec hpos hlt
    have hcop := Nat.coprime_of_lt_prime hpos.ne' hlt prime_fieldPrime
    rw [vliNat_curveP] at hrlt hmul
    rw [hcop.symm.gcd_eq_one] at hmul
    have hmod := Nat.ModEq.cancel_right_of_coprime hcop (hmul.trans hnmul.symm)
    rw [hr]
    exact ⟨hrlen, Nat.ModEq.eq_of_lt_of_lt hmod hrlt hnlt, hnlt⟩

theorem exists_of_checkedMult {left right : Option ℕ} {v : ℕ}
    (hv : checkedMult left right = some v) :
    ∃ l r, left = some l ∧ right = some r ∧ ¬ Misreduced (l * r) ∧ l * r % fieldPrime = v := by
  unfold checkedMult at hv
  rw [Option.bind_eq_some_iff] at hv
  obtain ⟨l, rfl, hv⟩ := hv
  rw [Option.bind_eq_some_iff] at hv
  obtain ⟨r, rfl, hv⟩ := hv
  split_ifs at hv with hmis
  exact ⟨l, r, rfl, rfl, hmis, Option.some.inj hv⟩

/-- The words hold a product that is not misreduced. -/
theorem wordOps_mult {x y : Vli} {o o' : Option ℕ} (hx : WordsHold x o) (hy : WordsHold y o') :
    WordsHold (vliModMultFast x y) (checkedMult o o') := by
  intro v hv
  obtain ⟨l, r, rfl, rfl, hmis, rfl⟩ := exists_of_checkedMult hv
  obtain ⟨hxlen, rfl, hxlt⟩ := hx l rfl
  obtain ⟨hylen, rfl, hylt⟩ := hy r rfl
  exact ⟨vliModMultFast_length hxlen, vliModMultFast_eq hxlen hylen hxlt hylt hmis,
    Nat.mod_lt _ prime_fieldPrime.pos⟩

theorem wordOps_checkedOps : OpsRel WordsHold wordOps checkedOps where
  add := by
    intro x o y o' hx hy v hv
    obtain ⟨l, rfl, hv⟩ := Option.bind_eq_some_iff.mp hv
    obtain ⟨r, rfl, rfl⟩ := Option.map_eq_some_iff.mp hv
    obtain ⟨hxlen, rfl, hxlt⟩ := hx l rfl
    obtain ⟨hylen, rfl, hylt⟩ := hy r rfl
    have hcurve : ∀ {ws : Vli}, ws.length = 5 → ws.length = curveP.length := fun h => h
    rw [← vliNat_curveP] at hxlt hylt ⊢
    refine ⟨?_, ?_, Nat.mod_lt _ ?_⟩
    · exact (vliModAdd_length (hxlen.trans hylen.symm) (hcurve hxlen)).trans hxlen
    · exact vliNat_vliModAdd (hxlen.trans hylen.symm) (hcurve hxlen) hxlt hylt
    · omega
  sub := by
    intro x o y o' hx hy v hv
    obtain ⟨l, rfl, hv⟩ := Option.bind_eq_some_iff.mp hv
    obtain ⟨r, rfl, rfl⟩ := Option.map_eq_some_iff.mp hv
    obtain ⟨hxlen, rfl, hxlt⟩ := hx l rfl
    obtain ⟨hylen, rfl, hylt⟩ := hy r rfl
    have hcurve : ∀ {ws : Vli}, ws.length = 5 → ws.length = curveP.length := fun h => h
    rw [← vliNat_curveP] at hxlt hylt ⊢
    refine ⟨?_, ?_, Nat.mod_lt _ ?_⟩
    · exact (vliModSub_length (hxlen.trans hylen.symm) (hcurve hxlen)).trans hxlen
    · exact vliNat_vliModSub (hxlen.trans hylen.symm) (hcurve hxlen) hxlt hylt
    · omega
  mult := wordOps_mult
  inv := by
    intro x o hx v hv
    obtain ⟨l, rfl, rfl⟩ := Option.map_eq_some_iff.mp hv
    obtain ⟨hxlen, rfl, hxlt⟩ := hx l rfl
    exact wordOps_inv hxlen hxlt
  half := by
    intro x o hx v hv
    obtain ⟨l, rfl, rfl⟩ := Option.map_eq_some_iff.mp hv
    obtain ⟨hxlen, rfl, hxlt⟩ := hx l rfl
    exact ⟨(wordOps_half hxlen hxlt).1, (wordOps_half hxlen hxlt).2, BinaryEuclid.halve_lt hxlt⟩
  one := by
    intro v hv
    obtain rfl : 1 = v := Option.some.inj hv
    exact ⟨rfl, vliNat_one 4, one_lt_fieldPrime⟩
  three := by
    intro v hv
    obtain rfl : 3 = v := Option.some.inj hv
    exact ⟨rfl, vliNat_three, by decide⟩
  b := by
    intro v hv
    obtain rfl : curveBNat = v := Option.some.inj hv
    exact ⟨rfl, vliNat_curveB, by decide⟩

/-! ## Numbers and the field -/

/-- If there is a number, it is reduced, and stands for the element of the field. -/
def StandsFor (o : Option ℕ) (z : Field160) : Prop := ∀ v ∈ o, v < fieldPrime ∧ (v : Field160) = z

theorem standsFor_self {v : ℕ} (hv : v < fieldPrime) : StandsFor (some v) (v : Field160) := by
  intro w hw
  obtain rfl := Option.some.inj hw
  exact ⟨hv, rfl⟩

theorem natCast_eq_of_modEq {a b : ℕ} (h : a ≡ b [MOD fieldPrime]) : (a : Field160) = b :=
  (ZMod.natCast_eq_natCast_iff _ _ _).mpr h

theorem natCast_ne_zero {x : ℕ} (hpos : 0 < x) (hlt : x < fieldPrime) : (x : Field160) ≠ 0 := by
  rw [Ne, ZMod.natCast_eq_zero_iff]
  exact Nat.not_dvd_of_pos_of_lt hpos hlt

theorem two_ne_zero_field : (2 : Field160) ≠ 0 :=
  natCast_ne_zero (x := 2) two_pos (by decide)

theorem natCast_halve (x : ℕ) : (BinaryEuclid.halve fieldPrime x : Field160) = x / 2 := by
  have hmod := natCast_eq_of_modEq (BinaryEuclid.two_mul_halve fieldPrime_odd x)
  rw [Nat.cast_mul, Nat.cast_two] at hmod
  rw [← hmod, mul_div_cancel_left₀ _ two_ne_zero_field]

theorem natCast_natInv {x : ℕ} (hx : x < fieldPrime) :
    (natInv x : Field160) = (x : Field160)⁻¹ := by
  rcases Nat.eq_zero_or_pos x with rfl | hpos
  · show ((0 : ℕ) : Field160) = _
    rw [Nat.cast_zero, inv_zero]
  · have hmul := natCast_eq_of_modEq (natInv_spec hpos hx).2
    rw [Nat.cast_mul, Nat.cast_one] at hmul
    exact eq_inv_of_mul_eq_one_left hmul

theorem checkedMult_field {o o' : Option ℕ} {z z' : Field160} (hx : StandsFor o z)
    (hy : StandsFor o' z') : StandsFor (checkedMult o o') (z * z') := by
  intro v hv
  obtain ⟨l, r, rfl, rfl, -, rfl⟩ := exists_of_checkedMult hv
  obtain ⟨-, rfl⟩ := hx l rfl
  obtain ⟨-, rfl⟩ := hy r rfl
  exact ⟨Nat.mod_lt _ prime_fieldPrime.pos, by rw [ZMod.natCast_mod, Nat.cast_mul]⟩

theorem checkedOps_fieldOps : OpsRel StandsFor checkedOps fieldOps where
  add := by
    intro x z y z' hx hy v hv
    obtain ⟨l, rfl, hv⟩ := Option.bind_eq_some_iff.mp hv
    obtain ⟨r, rfl, rfl⟩ := Option.map_eq_some_iff.mp hv
    obtain ⟨-, rfl⟩ := hx l rfl
    obtain ⟨-, rfl⟩ := hy r rfl
    refine ⟨Nat.mod_lt _ prime_fieldPrime.pos, ?_⟩
    rw [ZMod.natCast_mod, Nat.cast_add]
    rfl
  sub := by
    intro x z y z' hx hy v hv
    obtain ⟨l, rfl, hv⟩ := Option.bind_eq_some_iff.mp hv
    obtain ⟨r, rfl, rfl⟩ := Option.map_eq_some_iff.mp hv
    obtain ⟨-, rfl⟩ := hx l rfl
    obtain ⟨hr, rfl⟩ := hy r rfl
    refine ⟨Nat.mod_lt _ prime_fieldPrime.pos, ?_⟩
    rw [ZMod.natCast_mod, Nat.cast_add, Nat.cast_sub hr.le, ZMod.natCast_self, zero_sub,
      ← sub_eq_add_neg]
    rfl
  mult := checkedMult_field
  inv := by
    intro x z hx v hv
    obtain ⟨l, rfl, rfl⟩ := Option.map_eq_some_iff.mp hv
    obtain ⟨hl, rfl⟩ := hx l rfl
    refine ⟨?_, natCast_natInv hl⟩
    rcases Nat.eq_zero_or_pos l with rfl | hpos
    · exact prime_fieldPrime.pos
    · exact (natInv_spec hpos hl).1
  half := by
    intro x z hx v hv
    obtain ⟨l, rfl, rfl⟩ := Option.map_eq_some_iff.mp hv
    obtain ⟨hl, rfl⟩ := hx l rfl
    exact ⟨BinaryEuclid.halve_lt hl, natCast_halve l⟩
  one := by
    intro v hv
    obtain rfl : 1 = v := Option.some.inj hv
    exact ⟨one_lt_fieldPrime, Nat.cast_one⟩
  three := by
    intro v hv
    obtain rfl : 3 = v := Option.some.inj hv
    exact ⟨by decide, Nat.cast_ofNat⟩
  b := by
    intro v hv
    obtain rfl : curveBNat = v := Option.some.inj hv
    exact ⟨by decide, rfl⟩

end River2
