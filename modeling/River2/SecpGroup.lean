import River2.CurveField
import River2.Library.PointCount

/-!
# The group of secp160r1

1. `secpCurve`: the curve, and its `generator`.
2. `ladder_fieldOps`: what the ladder ends with, if it does not end with `(0, 0)`.
3. `groupOrder_generator`: the generator has the order of `curve_secp160r1.n`. The ladder itself
   computes the two multiples this takes.
4. `nsmul_eq_zero_iff`: so has every other point.
-/

namespace River2

open WeierstrassCurve.Affine

/-- `y² = x³ - 3x + b`. -/
def secpCurve : WeierstrassCurve.Affine Field160 := ⟨0, 0, 0, -(3 : ℕ), curveBNat⟩

/-- Its points. -/
abbrev SecpPoint := secpCurve.Point

instance : secpCurve.IsShortNF := ⟨rfl, rfl, rfl⟩

theorem secpCurve_Δ : secpCurve.Δ ≠ 0 := by
  have hfactor : secpCurve.Δ = -432 * ((curveBNat - 2) * (curveBNat + 2)) := by
    rw [WeierstrassCurve.Δ_of_isShortNF]
    show -16 * (4 * (-3) ^ 3 + 27 * (curveBNat : Field160) ^ 2) = _
    ring
  have h432 : (432 : Field160) ≠ 0 := by
    have h := natCast_ne_zero (x := 432) (by norm_num) (by decide)
    rwa [Nat.cast_ofNat] at h
  have hsub : (curveBNat : Field160) - 2 ≠ 0 := by
    have h := natCast_ne_zero (x := curveBNat - 2) (by decide) (by decide)
    rwa [Nat.cast_sub (by decide), Nat.cast_two] at h
  have hadd : (curveBNat : Field160) + 2 ≠ 0 := by
    have h := natCast_ne_zero (x := curveBNat + 2) (by decide) (by decide)
    rwa [Nat.cast_add, Nat.cast_two] at h
  rw [hfactor]
  exact mul_ne_zero (neg_ne_zero.mpr h432) (mul_ne_zero hsub hadd)

theorem equation_secpCurve {x y : Field160} :
    secpCurve.Equation x y ↔ y ^ 2 = x ^ 3 - 3 * x + curveBNat := by
  rw [equation_iff]
  show y ^ 2 + 0 * x * y + 0 * y = x ^ 3 + 0 * x ^ 2 + -3 * x + curveBNat ↔ _
  constructor
  · intro h
    linear_combination h
  · intro h
    linear_combination h

theorem nonsingular_secpCurve {x y : Field160} :
    secpCurve.Nonsingular x y ↔ y ^ 2 = x ^ 3 - 3 * x + curveBNat := by
  rw [← equation_secpCurve, equation_iff_nonsingular_of_Δ_ne_zero secpCurve_Δ]

/-! ## The generator -/

/-- `curve_secp160r1.G`. -/
def curveG : Vli × Vli :=
  ([0x13CBFC82, 0x68C38BB9, 0x46646989, 0x8EF57328, 0x4A96B568],
    [0x7AC5FB32, 0x04235137, 0x59DCC912, 0x3168947D, 0x23A62855])

/-- Its coordinates. -/
def generatorX : ℕ := 0x4A96B5688EF573284664698968C38BB913CBFC82

def generatorY : ℕ := 0x23A628553168947D59DCC912042351377AC5FB32

theorem vliNat_curveG : vliNat curveG.1 = generatorX ∧ vliNat curveG.2 = generatorY :=
  ⟨rfl, rfl⟩

theorem nonsingular_generator :
    secpCurve.Nonsingular (generatorX : Field160) (generatorY : Field160) := by
  have hmod : generatorY ^ 2 + 3 * generatorX ≡ generatorX ^ 3 + curveBNat [MOD fieldPrime] := by
    decide +kernel
  have h := natCast_eq_of_modEq hmod
  push_cast at h
  rw [nonsingular_secpCurve]
  linear_combination h

/-- The point. -/
def generator : SecpPoint := .some _ _ nonsingular_generator

/-! ## The ladder on the curve -/

theorem ladder_fieldOps {x y z : Field160} {h : secpCurve.Nonsingular x y} (hz : z ≠ 0)
    {bits : List Bool} {b : Bool} (hne : CoZ.ladder (-3) (x, y) z bits b ≠ (0, 0)) :
    ∃ h', (2 * CoZ.headNat bits + b.toNat) • Point.some x y h =
      .some (CoZ.ladder (-3) (x, y) z bits b).1 (CoZ.ladder (-3) (x, y) z bits b).2 h' := by
  have hx : x ≠ 0 := by
    intro hx
    exact hne (CoZ.ladder_of_not_regular (h := h) two_ne_zero_field hz (.inl hx) b)
  refine CoZ.ladder_of_regular two_ne_zero_field hz hx (fun l hl => ?_) b
  by_contra hreg
  exact hne (CoZ.ladder_of_not_regular (h := h) two_ne_zero_field hz (.inr ⟨l, hl, hreg⟩) b)

/-- What the ladder on numbers ends with, if it does not stop at a misreduced product. -/
theorem checked_ladder {P R : ℕ × ℕ} (hPx : P.1 < fieldPrime) (hPy : P.2 < fieldPrime)
    {Z : Option ℕ} (hZ : ∀ z ∈ Z, 0 < z ∧ z < fieldPrime) {testBit : ℕ → Bool} {numBits : ℕ}
    (hrun : checkedOps.eccPointMult (some P.1, some P.2) testBit (Z.map some) numBits =
      (some R.1, some R.2)) :
    R.1 < fieldPrime ∧ R.2 < fieldPrime ∧
      CoZ.ladder (-3) ((P.1 : Field160), (P.2 : Field160)) ((Z.getD 1 : ℕ) : Field160)
        (CurveOps.loopBits testBit numBits) (testBit 0) = ((R.1 : Field160), (R.2 : Field160)) := by
  have hz : 0 < Z.getD 1 ∧ Z.getD 1 < fieldPrime := by
    cases Z with
    | none => exact ⟨one_pos, one_lt_fieldPrime⟩
    | some z => exact hZ z rfl
  have hzne : ((Z.getD 1 : ℕ) : Field160) ≠ 0 := natCast_ne_zero hz.1 hz.2
  have hgetD : (Z.map some).getD checkedOps.one = some (Z.getD 1) := by cases Z <;> rfl
  have hP : Both StandsFor (some P.1, some P.2) ((P.1 : Field160), (P.2 : Field160)) :=
    ⟨standsFor_self hPx, standsFor_self hPy⟩
  have hZrel : StandsFor ((Z.map some).getD checkedOps.one)
      ((some ((Z.getD 1 : ℕ) : Field160)).getD fieldOps.one) := hgetD ▸ standsFor_self hz.2
  have hzero : checkedOps.isZero ((Z.map some).getD checkedOps.one) = false := by
    rw [hgetD]
    exact decide_eq_false (by simpa using hz.1.ne')
  have hrel := checkedOps_fieldOps.eccPointMult hP hZrel hzero (decide_eq_false hzne) testBit
    numBits
  have hfield := ofField_eccPointMult (curveBNat : Field160) ((P.1 : Field160), (P.2 : Field160))
    testBit (Z := some ((Z.getD 1 : ℕ) : Field160)) hzne numBits
  rw [hrun] at hrel
  obtain ⟨hx, hy⟩ := hrel
  rw [Option.getD_some] at hfield
  rw [← hfield]
  exact ⟨(hx _ rfl).1, (hy _ rfl).1, Prod.ext (hx _ rfl).2.symm (hy _ rfl).2.symm⟩

/-! ## The order of the generator -/

/-- Coordinates of `(n - 1) / 2` times the generator. -/
def halfwayX : ℕ := 0x10095f05b8f95920fd785d5c6003ee2a7f0ca3d1

def halfwayY : ℕ := 0xcb08aa384563e76d35c93b8b0e2738ef01ffb58a

theorem ladder_halfway :
    checkedOps.eccPointMult (some generatorX, some generatorY) (groupOrder / 2).testBit none 160 =
      (some halfwayX, some halfwayY) := by decide +kernel

theorem ladder_halfway_succ :
    checkedOps.eccPointMult (some generatorX, some generatorY) (groupOrder / 2 + 1).testBit none
      160 = (some halfwayX, some (fieldPrime - halfwayY)) := by decide +kernel

/-- A multiple of the generator, by the ladder on numbers. -/
theorem nsmul_generator {k : ℕ} (hge : 2 ^ 159 ≤ k) (hlt : k < 2 ^ 160) {R : ℕ × ℕ} (hpos : 0 < R.1)
    (hrun : checkedOps.eccPointMult (some generatorX, some generatorY) k.testBit none 160 =
      (some R.1, some R.2)) :
    ∃ h, k • generator = .some (R.1 : Field160) (R.2 : Field160) h := by
  obtain ⟨hx, -, hladder⟩ := checked_ladder (P := (generatorX, generatorY)) (Z := none)
    (by decide) (by decide) (fun _ h => by cases h) hrun
  have hne : ((R.1 : Field160), (R.2 : Field160)) ≠ (0, 0) := fun h =>
    natCast_ne_zero hpos hx (congrArg Prod.fst h)
  have hz : ((1 : ℕ) : Field160) ≠ 0 := natCast_ne_zero one_pos one_lt_fieldPrime
  obtain ⟨h, hmul⟩ := ladder_fieldOps (h := nonsingular_generator) hz (hladder ▸ hne)
  rw [two_mul_headNat_add (by norm_num) hge hlt] at hmul
  simp only [Option.getD_none] at hladder
  simp only [hladder] at hmul h
  exact ⟨h, hmul⟩

/-- **The order.** -/
theorem groupOrder_generator : groupOrder • generator = 0 := by
  obtain ⟨h, hhalf⟩ := nsmul_generator (by decide) (by decide) (R := (halfwayX, halfwayY))
    (by decide) ladder_halfway
  obtain ⟨h', hsucc⟩ := nsmul_generator (by decide) (by decide)
    (R := (halfwayX, fieldPrime - halfwayY)) (by decide) ladder_halfway_succ
  have hsum : groupOrder = groupOrder / 2 + (groupOrder / 2 + 1) := by decide
  have hneg : (halfwayY : Field160) = secpCurve.negY (halfwayX : Field160)
      ((fieldPrime - halfwayY : ℕ) : Field160) := by
    rw [CoZ.negY_eq, Nat.cast_sub (by decide), ZMod.natCast_self]
    ring
  rw [hsum, add_nsmul, hhalf, hsucc]
  exact Point.add_of_Y_eq rfl hneg

theorem generator_ne_zero : generator ≠ 0 := Point.some_ne_zero _

theorem nsmul_eq_zero_iff {P : SecpPoint} (hP : P ≠ 0) (m : ℕ) : m • P = 0 ↔ groupOrder ∣ m :=
  PointCount.nsmul_eq_zero_iff prime_groupOrder (by rw [Nat.card_zmod]; decide) generator_ne_zero
    groupOrder_generator hP m

end River2
