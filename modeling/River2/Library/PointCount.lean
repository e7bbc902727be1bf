import Mathlib.AlgebraicGeometry.EllipticCurve.Affine.Point
import Mathlib.AlgebraicGeometry.EllipticCurve.NormalForms
import Mathlib.GroupTheory.OrderOfElement
import Mathlib.SetTheory.Cardinal.Finite

/-!
# How many points a curve has

Over a field of `q` elements there are at most two points to each `x`-coordinate of a curve
`y² = x³ + ax + b`. A point whose order is a prime above `q` therefore generates all of them.

1. `code`: a point as its `x` and the root that its `y` is. `code_injective`.
2. `natCard_le`: there are at most `2q + 1` points.
3. `nsmul_eq_zero_iff`: the multiples of any point that are infinite.
-/

namespace PointCount

open WeierstrassCurve.Affine

variable {F : Type*} [Field F] [DecidableEq F] {W : WeierstrassCurve.Affine F}

/-- One of the two roots, where the `x` has any. -/
noncomputable def root (W : WeierstrassCurve.Affine F) (x : F) : F :=
  Classical.epsilon fun y => W.Equation x y

/-- The `x` of a point, and whether its `y` is that root. -/
noncomputable def code : W.Point → Option (F × Bool)
  | .zero => none
  | .some x y _ => some (x, y = root W x)

section Count

variable [W.IsShortNF]

omit [DecidableEq F] in
theorem sq_eq {x y : F} (h : W.Equation x y) : y ^ 2 = x ^ 3 + W.a₄ * x + W.a₆ := by
  have h := (WeierstrassCurve.Affine.equation_iff ..).mp h
  rw [WeierstrassCurve.a₁_of_isShortNF, WeierstrassCurve.a₂_of_isShortNF,
    WeierstrassCurve.a₃_of_isShortNF] at h
  linear_combination h

omit [DecidableEq F] in
theorem eq_root_or {x y : F} (h : W.Equation x y) : y = root W x ∨ y = -root W x := by
  have hroot : W.Equation x (root W x) := Classical.epsilon_spec ⟨y, h⟩
  exact sq_eq_sq_iff_eq_or_eq_neg.mp ((sq_eq h).trans (sq_eq hroot).symm)

theorem code_injective : Function.Injective (code (W := W)) := by
  intro P Q hcode
  rcases P with _ | ⟨x, y, hP⟩
  · rcases Q with _ | ⟨x', y', hQ⟩
    · rfl
    · cases hcode
  · rcases Q with _ | ⟨x', y', hQ⟩
    · cases hcode
    · obtain ⟨rfl, hy⟩ := Prod.ext_iff.mp (Option.some.inj hcode)
      have hiff : y = root W x ↔ y' = root W x := by simpa using hy
      have heq : y = y' := by
        rcases eq_root_or hP.1 with h | h
        · exact h.trans (hiff.mp h).symm
        · rcases eq_root_or hQ.1 with h' | h'
          · exact (hiff.mpr h').trans h'.symm
          · exact h.trans h'.symm
      subst heq
      rfl

variable [Finite F]

instance finite_point : Finite W.Point := Finite.of_injective code code_injective

/-- Two points to each `x`-coordinate, and the infinite one. -/
theorem natCard_le : Nat.card W.Point ≤ 2 * Nat.card F + 1 := by
  have hle := Nat.card_le_card_of_injective (code (W := W)) code_injective
  rw [Finite.card_option, Nat.card_prod] at hle
  rw [mul_comm]
  simpa using hle

/-- A prime order that is large for the field is the number of points. -/
theorem natCard_eq {n : ℕ} (hn : n.Prime) (hlarge : 2 * Nat.card F + 1 < 2 * n) {G : W.Point}
    (hG : G ≠ 0) (hnG : n • G = 0) : Nat.card W.Point = n := by
  have := Fact.mk hn
  obtain ⟨c, hc⟩ : n ∣ Nat.card W.Point := by
    rw [← addOrderOf_eq_prime hnG hG]
    exact addOrderOf_dvd_natCard G
  have hle := (natCard_le (W := W)).trans_lt hlarge
  have hpos : 0 < Nat.card W.Point := Nat.card_pos
  rw [hc, mul_comm n c] at hle
  rw [hc] at hpos
  have hlt : c < 2 := lt_of_mul_lt_mul_right hle n.zero_le
  have hcpos : 0 < c := Nat.pos_of_mul_pos_left hpos
  obtain rfl : c = 1 := by omega
  rw [hc, mul_one]

/-- **The multiples.** Then every finite point has this order. -/
theorem nsmul_eq_zero_iff {n : ℕ} (hn : n.Prime) (hlarge : 2 * Nat.card F + 1 < 2 * n)
    {G : W.Point} (hG : G ≠ 0) (hnG : n • G = 0) {P : W.Point} (hP : P ≠ 0) (m : ℕ) :
    m • P = 0 ↔ n ∣ m := by
  have := Fact.mk hn
  have hnP : n • P = 0 := by
    rw [← natCard_eq hn hlarge hG hnG]
    exact card_nsmul_eq_zero'
  rw [← addOrderOf_eq_prime hnP hP, addOrderOf_dvd_iff_nsmul_eq_zero]

end Count

end PointCount
