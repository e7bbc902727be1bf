import Mathlib.AlgebraicGeometry.EllipticCurve.Affine.Point
import Mathlib.AlgebraicGeometry.EllipticCurve.NormalForms
import Mathlib.Tactic.FieldSimp
import Mathlib.Tactic.LinearCombination

/-!
# Co-Z arithmetic

Two points of a curve `y² = x³ + ax + b` in Jacobian coordinates with a common `z` are added without
knowing it. A Montgomery ladder needs nothing else: its registers are a multiple of a point and the
next one, and the `z` of the last two can be told from the point.

1. `Represents`: a pair of coordinates with a `z` stands for a point of the curve.
2. `add` and `addC`: `P, Q ↦ P, P + Q` and `P, Q ↦ P - Q, P + Q`; both keep a common `z`.
3. `step` and `finish`: a round of the ladder, and its end. Where a round meets equal
   `x`-coordinates, the registers are `Dead` from then on.
4. `ladder_of_regular`: if no multiple on the way is degenerate, the ladder ends with the
   coordinates of the multiple, and else, by `ladder_of_not_regular`, with `(0, 0)`.
-/

namespace CoZ

open WeierstrassCurve.Affine

variable {F : Type*} [Field F]

/-! ## The formulas -/

/-- `P, Q ↦ P, P + Q`, and the difference of their `x`. -/
def add (P Q : F × F) : (F × F) × (F × F) × F :=
  let A := (Q.1 - P.1) ^ 2
  let B := P.1 * A
  let C := Q.1 * A
  let E := P.2 * (C - B)
  let x := (Q.2 - P.2) ^ 2 - B - C
  ((B, E), (x, (Q.2 - P.2) * (B - x) - E), B - x)

/-- `P, Q ↦ P - Q, P + Q`, where `s` is the difference of the `x` of `P` and `Q`, up to its sign. -/
def addC (P Q : F × F) (s : F) : (F × F) × (F × F) :=
  let A := s ^ 2
  let B := P.1 * A
  let C := Q.1 * A
  let E := P.2 * (C - B)
  let x := (Q.2 - P.2) ^ 2 - (B + C)
  let x' := (Q.2 + P.2) ^ 2 - (B + C)
  ((x', (Q.2 + P.2) * (x' - B) - E), (x, (Q.2 - P.2) * (B - x) - E))

/-- `P ↦ 2P` on a curve with this `a`; the new `z` is `y z`. -/
def double (a z : F) (P : F × F) : F × F :=
  let A := P.1 * P.2 ^ 2
  let B := (3 * P.1 ^ 2 + a * z ^ 4) / 2
  let x := B ^ 2 - 2 * A
  (x, B * (A - x) - P.2 ^ 4)

/-- The registers of the ladder, and the difference of their `x` up to its sign. -/
structure Regs (F : Type*) where
  r0 : F × F
  r1 : F × F
  sub : F

/-- `(x, y) ↦ (x z², y z³)`. -/
def scale (z : F) (P : F × F) : F × F := (P.1 * z ^ 2, P.2 * z ^ 3)

/-- The point with these coordinates and its double, with any `z`. -/
def start (a : F) (P : F × F) (z : F) : Regs F :=
  let R := scale z P
  let r0 := scale (R.2 * z) P
  ⟨r0, double a z R, r0.1 - (double a z R).1⟩

/-- The register of a bit, and the other. -/
def Regs.pick (r : Regs F) : Bool → (F × F) × (F × F)
  | false => (r.r0, r.r1)
  | true => (r.r1, r.r0)

/-- Both registers, the one of the bit first. -/
def Regs.put : Bool → F × F → F × F → F → Regs F
  | false, p, q, sub => ⟨p, q, sub⟩
  | true, p, q, sub => ⟨q, p, sub⟩

/-- The difference and the sum of the registers, that of the bit first. -/
def Regs.conj (b : Bool) (r : Regs F) : (F × F) × (F × F) :=
  addC (r.pick b).1 (r.pick b).2 r.sub

/-- The registers of the next round, from the difference and the sum. -/
def join (b : Bool) (d : (F × F) × (F × F)) : Regs F :=
  .put b (add d.2 d.1).2.1 (add d.2 d.1).1 (add d.2 d.1).2.2

/-- A round: the register of the bit is doubled, and the other becomes the sum. -/
def step (b : Bool) (r : Regs F) : Regs F := join b (r.conj b)

/-- The inverse of the last `z`, from the point and the last difference and sum. -/
def lastZ (P : F × F) (b : Bool) (d : (F × F) × (F × F)) : F :=
  let r := Regs.put b d.1 d.2 0
  ((r.r1.1 - r.r0.1) * d.1.2 * P.1)⁻¹ * P.2 * d.1.1

/-- The last round, and the coordinates of the first register. -/
def finish (P : F × F) (b : Bool) (r : Regs F) : F × F :=
  scale (lastZ P b (r.conj b)) (join b (r.conj b)).r0

/-- The registers after rounds for these bits, the highest first. -/
def rounds (a : F) (P : F × F) (z : F) (bits : List Bool) : Regs F :=
  bits.foldl (fun r b => step b r) (start a P z)

/-- The ladder for a number whose highest bit is set, from its other bits. -/
def ladder (a : F) (P : F × F) (z : F) (bits : List Bool) (last : Bool) : F × F :=
  finish P last (rounds a P z bits)

/-- The conjugate addition is two additions. -/
theorem addC_eq {R S : F × F} {s : F} (hs : s ^ 2 = (S.1 - R.1) ^ 2) :
    addC R S s = ((CoZ.add R (S.1, -S.2)).2.1, (CoZ.add R S).2.1) := by
  unfold addC CoZ.add
  rw [hs]
  refine Prod.ext (Prod.ext ?_ ?_) (Prod.ext ?_ ?_) <;> dsimp only <;> ring

/-! ## Where a round meets equal `x` -/

/-- A pair on the cusp `y² = x³`. -/
def Cusp (R : F × F) : Prop := R.2 ^ 2 = R.1 ^ 3

/-- One pair is lost, and the other is on the cusp. -/
def Lost (R S : F × F) : Prop := R = (0, 0) ∧ Cusp S ∨ S = (0, 0) ∧ Cusp R

/-- One register is lost, and the other is on the cusp. -/
structure Dead (r : Regs F) : Prop where
  lost : Lost r.r0 r.r1
  sub_sq : r.sub ^ 2 = (r.r1.1 - r.r0.1) ^ 2

theorem dead_put {b : Bool} {R S : F × F} {s : F} (hlost : Lost R S)
    (hs : s ^ 2 = (S.1 - R.1) ^ 2) : Dead (.put b R S s) := by
  cases b with
  | false => exact ⟨hlost, hs⟩
  | true => exact ⟨hlost.symm, hs.trans (sub_sq_comm _ _)⟩

theorem addC_of_lost {R S : F × F} {s : F} (hlost : Lost R S) (hs : s ^ 2 = (S.1 - R.1) ^ 2) :
    addC R S s = ((0, 0), (0, 0)) := by
  rw [addC_eq hs]
  obtain ⟨X, Y⟩ := R
  obtain ⟨X', Y'⟩ := S
  unfold Lost Cusp at hlost
  unfold add
  rcases hlost with ⟨h0, hc⟩ | ⟨h0, hc⟩
  · cases h0
    refine Prod.ext (Prod.ext ?_ ?_) (Prod.ext ?_ ?_) <;> dsimp only at hc ⊢
    · linear_combination hc
    · linear_combination Y' * hc
    · linear_combination hc
    · linear_combination -Y' * hc
  · cases h0
    refine Prod.ext (Prod.ext ?_ ?_) (Prod.ext ?_ ?_) <;> dsimp only at hc ⊢
    · linear_combination hc
    · linear_combination Y * hc
    · linear_combination hc
    · linear_combination Y * hc

/-- Where the `x` are equal, the first pair is lost and the sum is on the cusp. -/
theorem add_of_fst_eq {R S : F × F} (heq : R.1 = S.1) :
    (add R S).1 = (0, 0) ∧ Cusp (add R S).2.1 := by
  obtain ⟨X, Y⟩ := R
  obtain ⟨X', Y'⟩ := S
  obtain rfl : X = X' := heq
  unfold Cusp add
  refine ⟨Prod.ext ?_ ?_, ?_⟩ <;> dsimp only <;> ring

theorem dead_join {b : Bool} {d : (F × F) × (F × F)} (heq : d.2.1 = d.1.1) : Dead (join b d) := by
  obtain ⟨h0, hc⟩ := add_of_fst_eq heq
  exact dead_put (.inr ⟨h0, hc⟩) rfl

theorem dead_join_of_lost {b : Bool} {d : (F × F) × (F × F)} (h0 : d.1 = (0, 0))
    (hc : Cusp d.2) : Dead (join b d) := by
  obtain ⟨R, X, Y⟩ := d
  obtain rfl : R = (0, 0) := h0
  unfold Cusp at hc
  dsimp only at hc
  refine dead_put (.inl ⟨?_, ?_⟩) rfl
  · unfold add
    refine Prod.ext ?_ ?_ <;> dsimp only
    · linear_combination hc
    · linear_combination Y * hc
  · unfold Cusp add
    dsimp only
    linear_combination X ^ 6 * hc

theorem Dead.conj {r : Regs F} (hr : Dead r) (b : Bool) : r.conj b = ((0, 0), (0, 0)) := by
  cases b with
  | false => exact addC_of_lost hr.lost hr.sub_sq
  | true => exact addC_of_lost hr.lost.symm (hr.sub_sq.trans (sub_sq_comm _ _))

theorem Dead.step {r : Regs F} (hr : Dead r) (b : Bool) : Dead (CoZ.step b r) := by
  unfold CoZ.step
  rw [hr.conj]
  exact dead_join rfl

theorem scale_zero (R : F × F) : scale 0 R = (0, 0) := by
  unfold scale
  refine Prod.ext ?_ ?_ <;> dsimp only <;> ring

theorem finish_of_lost {P : F × F} {r : Regs F} {b : Bool} (h0 : (r.conj b).1 = (0, 0)) :
    finish P b r = (0, 0) := by
  have hz : lastZ P b (r.conj b) = 0 := by
    unfold lastZ
    rw [h0]
    ring
  unfold finish
  rw [hz, scale_zero]

theorem Dead.finish {r : Regs F} (hr : Dead r) (P : F × F) (b : Bool) :
    CoZ.finish P b r = (0, 0) :=
  finish_of_lost (by rw [hr.conj])

theorem finish_of_fst_eq {P : F × F} {r : Regs F} {b : Bool}
    (heq : (r.conj b).2.1 = (r.conj b).1.1) : finish P b r = (0, 0) := by
  have hz : lastZ P b (r.conj b) = 0 := by
    unfold lastZ
    cases b with
    | false =>
      dsimp only [Regs.put]
      rw [heq, sub_self, zero_mul, zero_mul, inv_zero, zero_mul, zero_mul]
    | true =>
      dsimp only [Regs.put]
      rw [heq, sub_self, zero_mul, zero_mul, inv_zero, zero_mul, zero_mul]
  unfold finish
  rw [hz, scale_zero]

theorem finish_of_x_eq_zero {y : F} (r : Regs F) (b : Bool) : finish (0, y) b r = (0, 0) := by
  have hz : lastZ (0, y) b (r.conj b) = 0 := by
    dsimp only [lastZ]
    rw [mul_zero, inv_zero, zero_mul, zero_mul]
  unfold finish
  rw [hz, scale_zero]

/-! ## What the coordinates stand for -/

section Curve

variable {W : WeierstrassCurve.Affine F}

/-- The pair, with this `z`, stands for the point. -/
structure Represents (z : F) (P : W.Point) (R : F × F) : Prop where
  z_ne_zero : z ≠ 0
  exists_eq : ∃ x y, ∃ h : W.Nonsingular x y, P = .some x y h ∧ R = scale z (x, y)

section Points

variable {z : F} {P Q : W.Point} {R S : F × F}

/-- Equal coordinates are those of points that are equal up to their sign. -/
theorem Represents.fst_eq_iff (hP : Represents z P R) (hQ : Represents z Q S) :
    R.1 = S.1 ↔ P = Q ∨ P = -Q := by
  obtain ⟨hz, x₁, y₁, h₁, rfl, rfl⟩ := hP
  obtain ⟨-, x₂, y₂, h₂, rfl, rfl⟩ := hQ
  rw [← Point.X_eq_iff]
  exact mul_left_inj' (pow_ne_zero 2 hz)

end Points

section Formulas

variable [W.IsShortNF] {z s : F} {P Q : W.Point} {R S : F × F}

theorem negY_eq (x y : F) : W.negY x y = -y := by
  show -y - W.a₁ * x - W.a₃ = -y
  rw [W.a₁_of_isShortNF, W.a₃_of_isShortNF]
  ring

theorem exists_neg_some {x y : F} (h : W.Nonsingular x y) :
    ∃ h', (-.some x y h : W.Point) = .some x (-y) h' := by
  have hneg : W.negY x y = -y := negY_eq x y
  refine ⟨by rw [← hneg]; exact (nonsingular_neg ..).mpr h, ?_⟩
  rw [Point.neg_some]
  congr 1

theorem Represents.neg (hQ : Represents z Q S) : Represents z (-Q) (S.1, -S.2) := by
  obtain ⟨hz, x, y, h, rfl, rfl⟩ := hQ
  obtain ⟨h', hneg⟩ := exists_neg_some h
  exact ⟨hz, x, -y, h', hneg, Prod.ext rfl (neg_mul ..).symm⟩

variable [DecidableEq F]

/-- The sum of points with different `x`, without the quotient. -/
theorem exists_some_add {x₁ y₁ x₂ y₂ : F} (h₁ : W.Nonsingular x₁ y₁) (h₂ : W.Nonsingular x₂ y₂)
    (hx : x₁ ≠ x₂) : ∃ x₃ y₃ h, (.some x₁ y₁ h₁ + .some x₂ y₂ h₂ : W.Point) = .some x₃ y₃ h ∧
      x₃ * (x₂ - x₁) ^ 2 = (y₂ - y₁) ^ 2 - (x₁ + x₂) * (x₂ - x₁) ^ 2 ∧
      y₃ * (x₂ - x₁) = (y₂ - y₁) * (x₁ - x₃) - y₁ * (x₂ - x₁) := by
  have hne : x₁ - x₂ ≠ 0 := sub_ne_zero.mpr hx
  have hslope : W.slope x₁ x₂ y₁ y₂ * (x₁ - x₂) = y₁ - y₂ := by
    rw [slope_of_X_ne hx, div_mul_cancel₀ _ hne]
  have haddX : W.addX x₁ x₂ (W.slope x₁ x₂ y₁ y₂) = W.slope x₁ x₂ y₁ y₂ ^ 2 - x₁ - x₂ := by
    rw [addX, W.a₁_of_isShortNF, W.a₂_of_isShortNF]
    ring
  have haddY : W.addY x₁ x₂ y₁ (W.slope x₁ x₂ y₁ y₂) =
      W.slope x₁ x₂ y₁ y₂ * (x₁ - W.addX x₁ x₂ (W.slope x₁ x₂ y₁ y₂)) - y₁ := by
    rw [addY, negY_eq, negAddY]
    ring
  refine ⟨_, _, _, Point.add_of_X_ne hx, ?_, ?_⟩
  · rw [haddX]
    linear_combination (W.slope x₁ x₂ y₁ y₂ * (x₁ - x₂) + (y₁ - y₂)) * hslope
  · rw [haddY]
    linear_combination (W.addX x₁ x₂ (W.slope x₁ x₂ y₁ y₂) - x₁) * hslope

theorem Represents.add (hP : Represents z P R) (hQ : Represents z Q S) (hne : R.1 ≠ S.1) :
    Represents (z * (S.1 - R.1)) P (CoZ.add R S).1 ∧
      Represents (z * (S.1 - R.1)) (P + Q) (CoZ.add R S).2.1 := by
  have hz' : z * (S.1 - R.1) ≠ 0 := mul_ne_zero hP.z_ne_zero (sub_ne_zero.mpr hne.symm)
  obtain ⟨hz, x₁, y₁, h₁, rfl, rfl⟩ := hP
  obtain ⟨-, x₂, y₂, h₂, rfl, rfl⟩ := hQ
  have hx : x₁ ≠ x₂ := fun heq => hne (by rw [heq]; rfl)
  obtain ⟨x₃, y₃, h₃, hadd, hx₃, hy₃⟩ := exists_some_add h₁ h₂ hx
  refine ⟨⟨hz', x₁, y₁, h₁, rfl, Prod.ext ?_ ?_⟩, ⟨hz', x₃, y₃, h₃, hadd, Prod.ext ?_ ?_⟩⟩
  · dsimp only [CoZ.add, scale]
    ring
  · dsimp only [CoZ.add, scale]
    ring
  · dsimp only [CoZ.add, scale]
    linear_combination -z ^ 6 * hx₃
  · dsimp only [CoZ.add, scale]
    linear_combination -z ^ 9 * (x₂ - x₁) ^ 2 * hy₃ + z ^ 9 * (y₂ - y₁) * hx₃

theorem Represents.addC (hP : Represents z P R) (hQ : Represents z Q S) (hne : R.1 ≠ S.1)
    (hs : s ^ 2 = (S.1 - R.1) ^ 2) :
    Represents (z * (S.1 - R.1)) (P - Q) (CoZ.addC R S s).1 ∧
      Represents (z * (S.1 - R.1)) (P + Q) (CoZ.addC R S s).2 := by
  rw [addC_eq hs, sub_eq_add_neg P Q]
  exact ⟨(hP.add hQ.neg hne).2, (hP.add hQ hne).2⟩

theorem Represents.double (h2 : (2 : F) ≠ 0) (hP : Represents z P R) (hy : R.2 ≠ 0) :
    Represents (R.2 * z) (P + P) (CoZ.double W.a₄ z R) := by
  have hz' : R.2 * z ≠ 0 := mul_ne_zero hy hP.z_ne_zero
  obtain ⟨hz, x, y, h, rfl, rfl⟩ := hP
  have hy0 : y ≠ 0 := fun h0 => hy (by rw [h0]; exact zero_mul _)
  have h2y : 2 * y ≠ 0 := mul_ne_zero h2 hy0
  have hne : y ≠ W.negY x y := by
    rw [negY_eq]
    intro heq
    exact h2y (by linear_combination heq)
  have hslope : W.slope x x y y * (2 * y) = 3 * x ^ 2 + W.a₄ := by
    have hden : y - -y = 2 * y := by ring
    rw [slope_of_Y_ne rfl hne, negY_eq, hden, div_mul_cancel₀ _ h2y, W.a₁_of_isShortNF,
      W.a₂_of_isShortNF]
    ring
  have haddX : W.addX x x (W.slope x x y y) = W.slope x x y y ^ 2 - 2 * x := by
    rw [addX, W.a₁_of_isShortNF, W.a₂_of_isShortNF]
    ring
  have haddY : W.addY x x y (W.slope x x y y) =
      W.slope x x y y * (x - (W.slope x x y y ^ 2 - 2 * x)) - y := by
    rw [addY, negY_eq, negAddY, haddX]
    ring
  have hB : (3 * (x * z ^ 2) ^ 2 + W.a₄ * z ^ 4) / 2 = W.slope x x y y * y * z ^ 4 := by
    rw [div_eq_iff h2]
    linear_combination -z ^ 4 * hslope
  refine ⟨hz', _, _, _, Point.add_self_of_Y_ne hne, Prod.ext ?_ ?_⟩
  · dsimp only [CoZ.double, scale]
    rw [hB, haddX]
    ring
  · dsimp only [CoZ.double, scale]
    rw [hB, haddY]
    ring

end Formulas

/-! ## A round of the ladder -/

variable [DecidableEq F]

/-- The registers are a multiple of the point and the next one. -/
structure Good (P : W.Point) (m : ℕ) (r : Regs F) : Prop where
  exists_represents : ∃ z, Represents z (m • P) r.r0 ∧ Represents z ((m + 1) • P) r.r1
  sub_sq : r.sub ^ 2 = (r.r1.1 - r.r0.1) ^ 2

/-- A round from this multiple does not meet equal `x`-coordinates. -/
structure Regular (P : W.Point) (m : ℕ) : Prop where
  even : (2 * m) • P ≠ 0
  odd : (2 * m + 1) • P ≠ 0
  next : (2 * m + 2) • P ≠ 0

/-- The point itself, or its opposite: the difference of the registers. -/
def signed : Bool → W.Point → W.Point
  | false, P => -P
  | true, P => P

section Round

variable {z : F} {P : W.Point} {R S : F × F} {m : ℕ} {r : Regs F} {b : Bool}

/-- The difference and the sum have different `x` where the round is regular. -/
theorem fst_ne_iff_regular (hodd : (2 * m + 1) • P ≠ 0) (hP : Represents z (signed b P) R)
    (hQ : Represents z ((2 * m + 1) • P) S) : S.1 ≠ R.1 ↔ Regular P m := by
  have hsucc : (2 * m + 1) • P = (2 * m) • P + P := succ_nsmul ..
  have hnext : (2 * m + 2) • P = (2 * m + 1) • P + P := succ_nsmul ..
  have hiff : S.1 = R.1 ↔ (2 * m + 2) • P = 0 ∨ (2 * m) • P = 0 := by
    rw [hQ.fst_eq_iff hP, hnext]
    cases b with
    | false =>
      show _ = -P ∨ _ = - -P ↔ _
      rw [neg_neg, eq_neg_iff_add_eq_zero, hsucc, add_eq_right]
    | true =>
      show _ = P ∨ _ = -P ↔ _
      rw [eq_neg_iff_add_eq_zero, or_comm]
      nth_rewrite 2 [hsucc]
      rw [add_eq_right]
  rw [Ne, hiff, not_or]
  exact ⟨fun h => ⟨h.2, hodd, h.1⟩, fun h => ⟨h.next, h.even⟩⟩

/-- Two registers from the sum and the difference. -/
theorem add_signed (b : Bool) :
    (2 * m + 1) • P + signed b P = (2 * m + 2 * b.toNat) • P := by
  cases b with
  | false =>
    show (2 * m + 1) • P + -P = (2 * m) • P
    rw [succ_nsmul]
    abel
  | true => exact (succ_nsmul P (2 * m + 1)).symm

variable [W.IsShortNF]

theorem Good.conj (hr : Good P m r) (hodd : (2 * m + 1) • P ≠ 0) (b : Bool) : ∃ z,
    Represents z (signed b P) (r.conj b).1 ∧ Represents z ((2 * m + 1) • P) (r.conj b).2 := by
  obtain ⟨⟨z, h₀, h₁⟩, hs⟩ := hr
  have hne : r.r0.1 ≠ r.r1.1 := by
    rw [Ne, h₀.fst_eq_iff h₁, succ_nsmul]
    rintro (heq | heq)
    · exact hodd (by rw [left_eq_add.mp heq, nsmul_zero])
    · refine hodd ?_
      rw [two_mul, add_assoc, add_nsmul, succ_nsmul]
      exact eq_neg_iff_add_eq_zero.mp heq
  have hdiff : (m + 1) • P - m • P = P := by
    rw [succ_nsmul]
    abel
  have hsum : (m + 1) • P + m • P = (2 * m + 1) • P := by
    rw [← add_nsmul]
    congr 1
    ring
  cases b with
  | false =>
    have hopp : m • P - (m + 1) • P = -P := by rw [← neg_sub, hdiff]
    have h := h₀.addC h₁ hne hs
    rw [hopp, add_comm (m • P), hsum] at h
    exact ⟨_, h⟩
  | true =>
    have h := h₁.addC h₀ hne.symm (hs.trans (sub_sq_comm _ _))
    rw [hdiff, hsum] at h
    exact ⟨_, h⟩

theorem Good.step (hr : Good P m r) (hm : Regular P m) (b : Bool) :
    Good P (2 * m + b.toNat) (CoZ.step b r) := by
  obtain ⟨z, hdiff, hsum⟩ := hr.conj hm.odd b
  have hne := (fst_ne_iff_regular hm.odd hdiff hsum).mpr hm
  obtain ⟨h₁, h₂⟩ := hsum.add hdiff hne
  rw [add_signed] at h₂
  cases b with
  | false => exact ⟨⟨_, h₂, h₁⟩, rfl⟩
  | true => exact ⟨⟨_, h₁, h₂⟩, sub_sq_comm _ _⟩

omit [DecidableEq F] in
theorem lastZ_eq {x y : F} {h : W.Nonsingular x y} (hx : x ≠ 0) (hy : y ≠ 0)
    {d : (F × F) × (F × F)} (hd : Represents z (signed b (.some x y h)) d.1) (hne : d.2.1 ≠ d.1.1) :
    lastZ (x, y) b d = (z * (d.1.1 - d.2.1))⁻¹ := by
  have hsub : d.1.1 - d.2.1 ≠ 0 := sub_ne_zero.mpr hne.symm
  have hsub' : d.2.1 - d.1.1 ≠ 0 := sub_ne_zero.mpr hne
  obtain ⟨hz, x', y', h', hP, hd₁⟩ := hd
  obtain ⟨⟨X, Y⟩, S⟩ := d
  obtain ⟨rfl, rfl⟩ := Prod.mk.inj hd₁
  cases b with
  | false =>
    obtain ⟨h'', hneg⟩ := exists_neg_some h
    have hP : -.some x y h = Point.some x' y' h' := hP
    rw [hneg] at hP
    cases hP
    dsimp only [lastZ, Regs.put] at hsub hsub' ⊢
    field_simp
    ring
  | true =>
    have hP : Point.some x y h = Point.some x' y' h' := hP
    cases hP
    dsimp only [lastZ, Regs.put] at hsub ⊢
    field_simp

theorem Good.finish {x y : F} {h : W.Nonsingular x y} (hr : Good (.some x y h) m r)
    (hm : Regular (.some x y h) m) (hx : x ≠ 0) (hy : y ≠ 0) (b : Bool) :
    ∃ h', (2 * m + b.toNat) • Point.some x y h =
      .some (CoZ.finish (x, y) b r).1 (CoZ.finish (x, y) b r).2 h' := by
  obtain ⟨z, hdiff, hsum⟩ := hr.conj hm.odd b
  have hne := (fst_ne_iff_regular hm.odd hdiff hsum).mpr hm
  have hlast := lastZ_eq hx hy hdiff hne
  obtain ⟨h₁, h₂⟩ := hsum.add hdiff hne
  rw [add_signed] at h₂
  generalize z * ((r.conj b).1.1 - (r.conj b).2.1) = w at hlast h₁ h₂
  have hrep : Represents w ((2 * m + b.toNat) • Point.some x y h) (join b (r.conj b)).r0 := by
    cases b with
    | false => exact h₂
    | true => exact h₁
  obtain ⟨hw, x', y', h', hP, heq⟩ := hrep
  have hfinish : CoZ.finish (x, y) b r = (x', y') := by
    unfold CoZ.finish
    rw [hlast, heq]
    dsimp only [scale]
    field_simp
  rw [hfinish]
  exact ⟨h', hP⟩

/-- Opposite registers: their difference is lost, and their sum is on the cusp. -/
theorem Good.conj_of_odd (hr : Good P m r) (hodd : (2 * m + 1) • P = 0) (b : Bool) :
    (r.conj b).1 = (0, 0) ∧ Cusp (r.conj b).2 := by
  obtain ⟨⟨z, h₀, h₁⟩, hs⟩ := hr
  have hopp : (m + 1) • P = -(m • P) := by
    rw [eq_neg_iff_add_eq_zero, ← add_nsmul, ← hodd]
    congr 1
    ring
  obtain ⟨-, x, y, h, hx, hr₀⟩ := h₀.neg
  obtain ⟨-, x', y', h', hx', hr₁⟩ := h₁
  have heq : r.r1 = (r.r0.1, -r.r0.2) := by
    rw [hopp, hx] at hx'
    cases hx'
    rw [hr₀, hr₁]
  obtain ⟨⟨X, Y⟩, S, s⟩ := r
  obtain rfl : S = (X, -Y) := heq
  have hs0 : s ^ 2 = 0 := hs.trans (by dsimp only; ring)
  unfold Cusp
  cases b with
  | false =>
    dsimp only [Regs.conj, Regs.pick, addC]
    rw [hs0]
    exact ⟨Prod.ext (by ring) (by ring), by ring⟩
  | true =>
    dsimp only [Regs.conj, Regs.pick, addC]
    rw [hs0]
    exact ⟨Prod.ext (by ring) (by ring), by ring⟩

theorem Good.dead_step (hr : Good P m r) (hm : ¬ Regular P m) (b : Bool) :
    Dead (CoZ.step b r) := by
  by_cases hodd : (2 * m + 1) • P = 0
  · obtain ⟨h0, hc⟩ := hr.conj_of_odd hodd b
    exact dead_join_of_lost h0 hc
  · obtain ⟨z, hdiff, hsum⟩ := hr.conj hodd b
    exact dead_join (not_not.mp fun hne => hm ((fst_ne_iff_regular hodd hdiff hsum).mp hne))

theorem Good.finish_eq_zero (hr : Good P m r) (hm : ¬ Regular P m) (R : F × F) (b : Bool) :
    CoZ.finish R b r = (0, 0) := by
  by_cases hodd : (2 * m + 1) • P = 0
  · exact finish_of_lost (hr.conj_of_odd hodd b).1
  · obtain ⟨z, hdiff, hsum⟩ := hr.conj hodd b
    exact finish_of_fst_eq
      (not_not.mp fun hne => hm ((fst_ne_iff_regular hodd hdiff hsum).mp hne))

end Round

/-! ## The ladder -/

/-- The number whose highest bit is followed by these. -/
def headNat (bits : List Bool) : ℕ := bits.foldl (fun m b => 2 * m + b.toNat) 1

theorem headNat_snoc (bits : List Bool) (b : Bool) :
    headNat (bits ++ [b]) = 2 * headNat bits + b.toNat := List.foldl_concat ..

omit [DecidableEq F] in
theorem rounds_snoc (a : F) (P : F × F) (z : F) (bits : List Bool) (b : Bool) :
    rounds a P z (bits ++ [b]) = step b (rounds a P z bits) := List.foldl_concat ..

variable [W.IsShortNF] {x y z : F} {h : W.Nonsingular x y} {bits : List Bool}

theorem two_nsmul_eq_zero_iff (h2 : (2 : F) ≠ 0) : 2 • Point.some x y h = 0 ↔ y = 0 := by
  obtain ⟨h', hneg⟩ := exists_neg_some h
  rw [two_nsmul, add_eq_zero_iff_eq_neg, hneg, Point.some.injEq]
  constructor
  · rintro ⟨-, hy⟩
    have h2y : 2 * y = 0 := by linear_combination hy
    exact (mul_eq_zero.mp h2y).resolve_left h2
  · rintro rfl
    exact ⟨rfl, neg_zero.symm⟩

theorem good_start (h2 : (2 : F) ≠ 0) (hz : z ≠ 0) (hy : y ≠ 0) :
    Good (.some x y h) 1 (start W.a₄ (x, y) z) := by
  have hrep : Represents z (Point.some x y h) (scale z (x, y)) := ⟨hz, x, y, h, rfl, rfl⟩
  have hne : (scale z (x, y)).2 ≠ 0 := mul_ne_zero hy (pow_ne_zero 3 hz)
  refine ⟨⟨(scale z (x, y)).2 * z, ?_, ?_⟩, sub_sq_comm _ _⟩
  · rw [one_nsmul]
    exact ⟨mul_ne_zero hne hz, x, y, h, rfl, rfl⟩
  · rw [one_add_one_eq_two, two_nsmul]
    exact hrep.double h2 hne

omit [DecidableEq F] [W.IsShortNF] in
theorem dead_start (a : F) : Dead (start a (x, 0) z) := by
  refine ⟨.inl ⟨?_, ?_⟩, sub_sq_comm _ _⟩
  · exact Prod.ext (by dsimp only [start, scale]; ring) (by dsimp only [start, scale]; ring)
  · dsimp only [Cusp, start, double, scale]
    ring

/-- The registers of a ladder. -/
theorem rounds_good_or_dead (h2 : (2 : F) ≠ 0) (hz : z ≠ 0) (bits : List Bool) :
    Good (.some x y h) (headNat bits) (rounds W.a₄ (x, y) z bits) ∨
      Dead (rounds W.a₄ (x, y) z bits) := by
  induction bits using List.reverseRecOn with
  | nil =>
    by_cases hy : y = 0
    · subst hy
      exact .inr (dead_start _)
    · exact .inl (good_start h2 hz hy)
  | append_singleton bits b ih =>
    rw [headNat_snoc, rounds_snoc]
    rcases ih with hgood | hdead
    · by_cases hm : Regular (.some x y h) (headNat bits)
      · exact .inl (hgood.step hm b)
      · exact .inr (hgood.dead_step hm b)
    · exact .inr (hdead.step b)

/-- Regular rounds keep the registers. -/
theorem rounds_good (h2 : (2 : F) ≠ 0) (hz : z ≠ 0) (hy : y ≠ 0)
    (hreg : ∀ l, l <+: bits → l ≠ bits → Regular (.some x y h) (headNat l)) :
    Good (.some x y h) (headNat bits) (rounds W.a₄ (x, y) z bits) := by
  induction bits using List.reverseRecOn with
  | nil => exact good_start h2 hz hy
  | append_singleton bits b ih =>
    have hlast := hreg bits (List.prefix_append ..) (fun heq => by simp at heq)
    have hgood := ih fun l hl hne => hreg l (hl.trans (List.prefix_append ..)) fun heq => by
      subst heq
      simpa using hl.length_le
    rw [headNat_snoc, rounds_snoc]
    exact hgood.step hlast b

/-- One round that is not regular loses them. -/
theorem rounds_dead (h2 : (2 : F) ≠ 0) (hz : z ≠ 0) {l : List Bool} (hl : l <+: bits)
    (hne : l ≠ bits) (hm : ¬ Regular (.some x y h) (headNat l)) :
    Dead (rounds W.a₄ (x, y) z bits) := by
  induction bits using List.reverseRecOn with
  | nil => exact absurd (List.prefix_nil.mp hl) hne
  | append_singleton bits b ih =>
    rw [rounds_snoc]
    rcases List.prefix_concat_iff.mp hl with heq | hl
    · exact absurd heq hne
    by_cases heq : l = bits
    · subst heq
      rcases rounds_good_or_dead (h := h) h2 hz l with hgood | hdead
      · exact hgood.dead_step hm b
      · exact hdead.step b
    · exact (ih hl heq).step b

/-- **The ladder.** Where every round is regular, the ladder ends with the coordinates of the
multiple. -/
theorem ladder_of_regular (h2 : (2 : F) ≠ 0) (hz : z ≠ 0) (hx : x ≠ 0)
    (hreg : ∀ l, l <+: bits → Regular (.some x y h) (headNat l)) (b : Bool) :
    ∃ h', (2 * headNat bits + b.toNat) • Point.some x y h =
      .some (ladder W.a₄ (x, y) z bits b).1 (ladder W.a₄ (x, y) z bits b).2 h' := by
  have hy : y ≠ 0 := fun hy =>
    (hreg [] (List.nil_prefix)).even ((two_nsmul_eq_zero_iff h2).mpr hy)
  exact (rounds_good h2 hz hy fun l hl _ => hreg l hl).finish (hreg bits List.prefix_rfl) hx hy b

/-- Else it ends with `(0, 0)`. -/
theorem ladder_of_not_regular (h2 : (2 : F) ≠ 0) (hz : z ≠ 0)
    (hnot : x = 0 ∨ ∃ l, l <+: bits ∧ ¬ Regular (.some x y h) (headNat l)) (b : Bool) :
    ladder W.a₄ (x, y) z bits b = (0, 0) := by
  unfold ladder
  rcases hnot with rfl | ⟨l, hl, hm⟩
  · exact finish_of_x_eq_zero _ b
  by_cases heq : l = bits
  · subst heq
    rcases rounds_good_or_dead (h := h) h2 hz l with hgood | hdead
    · exact hgood.finish_eq_zero hm _ b
    · exact hdead.finish _ b
  · exact (rounds_dead h2 hz hl heq hm).finish _ b

end Curve

end CoZ
