import Mathlib.Data.Nat.GCD.Basic
import Mathlib.Data.Int.ModEq
import Mathlib.Data.Nat.ModEq
import Mathlib.Data.Nat.Prime.Basic
import Mathlib.Tactic.Ring

/-!
# The binary Euclidean algorithm modulo an odd number

Two numbers are halved where they are even and else subtracted, until they are equal. What a second
pair is multiplied with to get them, modulo `m`, follows along.

1. `halve` and `subMod`: a half and a difference modulo an odd `m`.
2. `step` and `run`: one round, and as many as the fuel allows.
3. `Coupled`: the invariant of a round.
4. `run_eq`: with a bit of fuel for each bit of the two numbers it ends, with a multiplier of the
   input that gives its greatest common divisor with `m`.
-/

namespace BinaryEuclid

def halve (m u : ℕ) : ℕ := if u % 2 = 0 then u / 2 else (u + m) / 2

def subMod (m u v : ℕ) : ℕ := if u < v then u + m - v else u - v

/-- Two numbers, and what the input is multiplied with to get them. -/
@[ext] structure State where
  a : ℕ
  b : ℕ
  u : ℕ
  v : ℕ

def step (m : ℕ) (s : State) : State :=
  if s.a % 2 = 0 then { s with a := s.a / 2, u := halve m s.u }
  else if s.b % 2 = 0 then { s with b := s.b / 2, v := halve m s.v }
  else if s.b < s.a then { s with a := (s.a - s.b) / 2, u := halve m (subMod m s.u s.v) }
  else { s with b := (s.b - s.a) / 2, v := halve m (subMod m s.v s.u) }

def run (m : ℕ) : ℕ → State → Option State
  | 0, _ => none
  | fuel + 1, s => if s.a = s.b then some s else run m fuel (step m s)

/-- The state for the inverse of `x`. -/
def init (m x : ℕ) : State := ⟨x, m, 1, 0⟩

section Mod

variable {m u v : ℕ}

theorem halve_lt (hu : u < m) : halve m u < m := by
  unfold halve
  split_ifs <;> omega

theorem subMod_lt (hu : u < m) (hv : v < m) : subMod m u v < m := by
  unfold subMod
  split_ifs <;> omega

theorem two_mul_halve (hm : Odd m) (u : ℕ) : 2 * halve m u ≡ u [MOD m] := by
  obtain ⟨k, rfl⟩ := hm
  unfold halve
  split_ifs with h
  · rw [Nat.mul_div_cancel' (Nat.dvd_of_mod_eq_zero h)]
  · have heven : 2 * ((u + (2 * k + 1)) / 2) = u + (2 * k + 1) := by omega
    rw [heven]
    exact Nat.add_mod_right ..

theorem subMod_add (hv : v < m) (u : ℕ) : subMod m u v + v ≡ u [MOD m] := by
  unfold subMod
  split_ifs with h
  · rw [Nat.sub_add_cancel (by omega)]
    exact Nat.add_mod_right ..
  · rw [Nat.sub_add_cancel (by omega)]

end Mod

/-- The invariant: both numbers are positive, have the divisors of `g` in common, and are multiples
of `x` modulo `m`. -/
structure Coupled (m x g : ℕ) (s : State) : Prop where
  a_pos : 0 < s.a
  b_pos : 0 < s.b
  gcd_eq : Nat.gcd s.a s.b = g
  u_lt : s.u < m
  v_lt : s.v < m
  u_mul : s.u * x ≡ s.a [MOD m]
  v_mul : s.v * x ≡ s.b [MOD m]

section Run

variable {m x g : ℕ} {s : State}

theorem halve_mul {u a : ℕ} (hm : Odd m) (hu : u * x ≡ a [MOD m]) (ha : a % 2 = 0) :
    halve m u * x ≡ a / 2 [MOD m] := by
  have hcop : Nat.gcd m 2 = 1 := (Nat.coprime_two_right.mpr hm)
  refine Nat.ModEq.cancel_left_of_coprime hcop ?_
  rw [Nat.mul_div_cancel' (Nat.dvd_of_mod_eq_zero ha), ← mul_assoc]
  exact ((two_mul_halve hm u).mul_right x).trans hu

theorem subMod_mul {u v a b : ℕ} (hv : v < m) (hu : u * x ≡ a [MOD m]) (hvb : v * x ≡ b [MOD m])
    (hle : b ≤ a) : subMod m u v * x ≡ a - b [MOD m] := by
  refine Nat.ModEq.add_right_cancel hvb ?_
  rw [← add_mul, Nat.sub_add_cancel hle]
  exact ((subMod_add hv u).mul_right x).trans hu

/-- Halving an even number leaves an odd greatest common divisor. -/
theorem gcd_half_left {a b : ℕ} (ha : a % 2 = 0) (hg : Odd (Nat.gcd a b)) :
    Nat.gcd (a / 2) b = Nat.gcd a b := by
  obtain ⟨k, rfl⟩ := Nat.dvd_of_mod_eq_zero ha
  have hb : Nat.Coprime 2 b := by
    rw [Nat.coprime_two_left]
    by_contra heven
    rw [Nat.not_odd_iff_even, even_iff_two_dvd] at heven
    exact (Nat.not_even_iff_odd.mpr hg)
      (even_iff_two_dvd.mpr (Nat.dvd_gcd (Dvd.intro k rfl) heven))
  rw [Nat.mul_div_cancel_left k two_pos, hb.gcd_mul_left_cancel]

/-- So does halving the difference to another number, when both are odd. -/
theorem gcd_half_sub {a b : ℕ} (hodd : (a - b) % 2 = 0) (hle : b ≤ a) (hg : Odd (Nat.gcd a b)) :
    Nat.gcd ((a - b) / 2) b = Nat.gcd a b := by
  have hsub : Nat.gcd (a - b) b = Nat.gcd a b := Nat.gcd_sub_self_left hle
  rw [gcd_half_left hodd (hsub ▸ hg), hsub]

theorem Coupled.swap (hs : Coupled m x g s) : Coupled m x g ⟨s.b, s.a, s.v, s.u⟩ :=
  ⟨hs.b_pos, hs.a_pos, (Nat.gcd_comm ..).trans hs.gcd_eq, hs.v_lt, hs.u_lt, hs.v_mul, hs.u_mul⟩

theorem Coupled.half (hs : Coupled m x g s) (hm : Odd m) (hg : Odd g) (ha : s.a % 2 = 0) :
    Coupled m x g { s with a := s.a / 2, u := halve m s.u } := by
  have hpos := hs.a_pos
  exact { hs with
    a_pos := by simp only; omega
    gcd_eq := (gcd_half_left ha (hs.gcd_eq.symm ▸ hg)).trans hs.gcd_eq
    u_lt := halve_lt hs.u_lt
    u_mul := halve_mul hm hs.u_mul ha }

/-- Subtracting the smaller number from the larger one, both odd, and halving keeps it. -/
theorem Coupled.sub_half (hs : Coupled m x g s) (hm : Odd m) (hg : Odd g) (ha : ¬ s.a % 2 = 0)
    (hb : ¬ s.b % 2 = 0) (hlt : s.b < s.a) :
    Coupled m x g { s with a := (s.a - s.b) / 2, u := halve m (subMod m s.u s.v) } := by
  have heven : (s.a - s.b) % 2 = 0 := by omega
  exact { hs with
    a_pos := by simp only; omega
    gcd_eq := (gcd_half_sub heven hlt.le (hs.gcd_eq.symm ▸ hg)).trans hs.gcd_eq
    u_lt := halve_lt (subMod_lt hs.u_lt hs.v_lt)
    u_mul := halve_mul hm (subMod_mul hs.v_lt hs.u_mul hs.v_mul hlt.le) heven }

theorem Coupled.step (hs : Coupled m x g s) (hm : Odd m) (hg : Odd g) (hne : s.a ≠ s.b) :
    Coupled m x g (BinaryEuclid.step m s) := by
  unfold BinaryEuclid.step
  split_ifs with ha hb hlt
  · exact hs.half hm hg ha
  · exact (hs.swap.half hm hg hb).swap
  · exact hs.sub_half hm hg ha hb hlt
  · exact (hs.swap.sub_half hm hg hb ha (by simp only; omega)).swap

/-- A round halves the product of the numbers. -/
theorem two_mul_step_le (m : ℕ) (s : State) : 2 * ((step m s).a * (step m s).b) ≤ s.a * s.b := by
  -- one of the two is at most halved, the other is kept
  have hhalf : ∀ {a' a b : ℕ}, 2 * a' ≤ a → 2 * (a' * b) ≤ a * b := fun h => by
    rw [← mul_assoc]
    exact Nat.mul_le_mul_right _ h
  unfold step
  split_ifs
  · exact hhalf (by simp only; omega)
  · rw [mul_comm s.a, mul_comm s.a]
    exact hhalf (by simp only; omega)
  · exact hhalf (by simp only; omega)
  · rw [mul_comm s.a, mul_comm s.a]
    exact hhalf (by simp only; omega)

/-- **The result.** With a bit of fuel for each bit of the product, the rounds end at the greatest
common divisor, with a reduced multiplier for it. -/
theorem Coupled.run_eq (hm : Odd m) (hg : Odd g) {fuel : ℕ} (hs : Coupled m x g s)
    (hfuel : s.a * s.b < 2 ^ fuel) :
    ∃ s', run m fuel s = some s' ∧ s'.u < m ∧ s'.u * x ≡ g [MOD m] := by
  induction fuel generalizing s with
  | zero =>
    have hpos := Nat.mul_pos hs.a_pos hs.b_pos
    omega
  | succ fuel ih =>
    unfold run
    split_ifs with heq
    · refine ⟨s, rfl, hs.u_lt, ?_⟩
      have hgcd := hs.gcd_eq
      rw [← heq, Nat.gcd_self] at hgcd
      exact hgcd ▸ hs.u_mul
    · have hstep := two_mul_step_le m s
      exact ih (hs.step hm hg heq) (by rw [pow_succ] at hfuel; omega)

theorem init_coupled (hm : 1 < m) (hx : 0 < x) : Coupled m x (Nat.gcd x m) (init m x) where
  a_pos := hx
  b_pos := zero_lt_one.trans hm
  gcd_eq := rfl
  u_lt := hm
  v_lt := zero_lt_one.trans hm
  u_mul := by rw [init, one_mul]
  v_mul := by simpa [init] using (Nat.modEq_zero_iff_dvd.mpr dvd_rfl).symm

theorem odd_gcd (hm : Odd m) (x : ℕ) : Odd (Nat.gcd x m) := by
  obtain ⟨k, hk⟩ := Nat.gcd_dvd_right x m
  rw [hk, Nat.odd_mul] at hm
  exact hm.1

/-- The rounds for `x` end with what it is to be multiplied with to get its greatest common divisor
with `m`. -/
theorem run_init (hm : Odd m) (hm1 : 1 < m) (hx : 0 < x) {fuel : ℕ} (hfuel : x * m < 2 ^ fuel) :
    ∃ s', run m fuel (init m x) = some s' ∧ s'.u < m ∧ s'.u * x ≡ Nat.gcd x m [MOD m] :=
  (init_coupled hm1 hx).run_eq hm (odd_gcd hm x) hfuel

end Run

end BinaryEuclid
