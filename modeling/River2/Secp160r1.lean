import Mathlib.NumberTheory.LucasPrimality
import Mathlib.Tactic.NormNum.Prime

/-!
# The numbers of secp160r1

1. `fieldPrime` and `groupOrder`: the prime of the field, and the order of the generator.
2. `powMod`: powers modulo a number, as the kernel evaluates them. `Certified`: an element has the
   order of the predecessor, and so the number is prime.
3. `prime_fieldPrime` and `prime_groupOrder`: both are prime.
-/

namespace River2

/-- The prime of the field, `2¹⁶⁰ - ω`. -/
def fieldPrime : ℕ := 2 ^ 160 - 2 ^ 31 - 1

/-- The order of the generator. -/
def groupOrder : ℕ := 0x0100000000000000000001F4C8F927AED3CA752257

/-! ## Primality -/

/-- A power modulo `m`, times `acc`, by the bits of the exponent from the lowest. -/
def powMod (m : ℕ) : ℕ → ℕ → ℕ → ℕ → ℕ
  | 0, acc, _, _ => acc
  | bits + 1, acc, a, e =>
    powMod m bits (if e % 2 = 1 then acc * a % m else acc) (a * a % m) (e / 2)

theorem natCast_powMod {m bits acc a e : ℕ} (he : e < 2 ^ bits) :
    (powMod m bits acc a e : ZMod m) = acc * a ^ e := by
  induction bits generalizing acc a e with
  | zero =>
    obtain rfl : e = 0 := by omega
    rw [pow_zero, mul_one]
    rfl
  | succ bits ih =>
    have hhalf : e / 2 < 2 ^ bits := by
      rw [pow_succ] at he
      omega
    have hsplit := Nat.div_add_mod e 2
    unfold powMod
    rw [ih hhalf, ZMod.natCast_mod, Nat.cast_mul, ← sq, ← pow_mul]
    by_cases hodd : e % 2 = 1
    · rw [hodd] at hsplit
      rw [if_pos hodd, ZMod.natCast_mod, Nat.cast_mul, mul_assoc, ← pow_succ', hsplit]
    · have heven : 2 * (e / 2) = e := by omega
      rw [if_neg hodd, heven]

/-- An element that has the order of the predecessor, whose factors these are. -/
def Certified (p a : ℕ) (qs : List ℕ) : Prop :=
  p < 2 ^ 168 ∧ qs.prod = p - 1 ∧ powMod p 168 1 a (p - 1) % p = 1 % p ∧
    ∀ q ∈ qs, powMod p 168 1 a ((p - 1) / q) % p ≠ 1 % p

instance (p a : ℕ) (qs : List ℕ) : Decidable (Certified p a qs) :=
  inferInstanceAs (Decidable (_ ∧ _))

theorem Certified.prime {p a : ℕ} {qs : List ℕ} (hcheck : Certified p a qs)
    (hprime : ∀ q ∈ qs, q.Prime) : p.Prime := by
  obtain ⟨hlt, hprod, ha, hne⟩ := hcheck
  have hpow : ∀ {e : ℕ}, e ≤ p - 1 →
      ((a : ZMod p) ^ e = 1 ↔ powMod p 168 1 a e % p = 1 % p) := by
    intro e he
    have hcast : (powMod p 168 1 a e : ZMod p) = (1 : ℕ) * (a : ZMod p) ^ e :=
      natCast_powMod (by omega)
    rw [← ZMod.natCast_eq_natCast_iff', hcast, Nat.cast_one, one_mul]
  refine lucas_primality p (a : ZMod p) ((hpow le_rfl).mpr ha) fun q hq hdvd => ?_
  rw [← hprod] at hdvd
  obtain ⟨r, hr, hdvd⟩ := hq.prime.dvd_prod_iff.mp hdvd
  obtain rfl := (Nat.prime_dvd_prime_iff_eq hq (hprime r hr)).mp hdvd
  exact (hpow (Nat.div_le_self _ _)).not.mpr (hne q hr)

/-- The numbers, and the large factors of their predecessors. -/
theorem certificates :
    Certified 1519826521 7 [2, 2, 2, 3, 5, 17, 745013] ∧
    Certified 3799566302501 2 [2, 2, 5, 5, 5, 5, 1519826521] ∧
    Certified 9281531860908577342183 5 [2, 3, 3, 11, 709, 17401, 3799566302501] ∧
    Certified 176070659401435712181211511 7 [2, 5, 7, 271, 9281531860908577342183] ∧
    Certified 104179991 11 [2, 5, 349, 29851] ∧
    Certified 81596517090689 3 [2, 2, 2, 2, 2, 2, 2, 497551, 1281221] ∧
    Certified 32965410909254210768022022994233 10
      [2, 2, 2, 3, 31, 97, 1123, 2791, 1786087, 81596517090689] ∧
    Certified 3099723569 3 [2, 2, 2, 2, 6551, 29573] ∧
    Certified fieldPrime 3 [2, 3, 19, 115901, 6030259, 104179991, 176070659401435712181211511] ∧
    Certified groupOrder 7 [2, 7, 1021621, 3099723569, 32965410909254210768022022994233] := by
  decide +kernel

theorem prime_1519826521 : Nat.Prime 1519826521 := by
  refine certificates.1.prime ?_
  simp only [List.forall_mem_cons, List.not_mem_nil, IsEmpty.forall_iff, implies_true,
    and_true]
  norm_num

theorem prime_3799566302501 : Nat.Prime 3799566302501 := by
  refine certificates.2.1.prime ?_
  simp only [List.forall_mem_cons, List.not_mem_nil, IsEmpty.forall_iff, implies_true,
    and_true, prime_1519826521]
  norm_num

theorem prime_9281531860908577342183 : Nat.Prime 9281531860908577342183 := by
  refine certificates.2.2.1.prime ?_
  simp only [List.forall_mem_cons, List.not_mem_nil, IsEmpty.forall_iff, implies_true,
    and_true, prime_3799566302501]
  norm_num

theorem prime_176070659401435712181211511 : Nat.Prime 176070659401435712181211511 := by
  refine certificates.2.2.2.1.prime ?_
  simp only [List.forall_mem_cons, List.not_mem_nil, IsEmpty.forall_iff, implies_true,
    and_true, prime_9281531860908577342183]
  norm_num

theorem prime_104179991 : Nat.Prime 104179991 := by
  refine certificates.2.2.2.2.1.prime ?_
  simp only [List.forall_mem_cons, List.not_mem_nil, IsEmpty.forall_iff, implies_true,
    and_true]
  norm_num

theorem prime_81596517090689 : Nat.Prime 81596517090689 := by
  refine certificates.2.2.2.2.2.1.prime ?_
  simp only [List.forall_mem_cons, List.not_mem_nil, IsEmpty.forall_iff, implies_true,
    and_true]
  norm_num

theorem prime_32965410909254210768022022994233 : Nat.Prime 32965410909254210768022022994233 := by
  refine certificates.2.2.2.2.2.2.1.prime ?_
  simp only [List.forall_mem_cons, List.not_mem_nil, IsEmpty.forall_iff, implies_true,
    and_true, prime_81596517090689]
  norm_num

theorem prime_3099723569 : Nat.Prime 3099723569 := by
  refine certificates.2.2.2.2.2.2.2.1.prime ?_
  simp only [List.forall_mem_cons, List.not_mem_nil, IsEmpty.forall_iff, implies_true,
    and_true]
  norm_num

theorem prime_fieldPrime : fieldPrime.Prime := by
  refine certificates.2.2.2.2.2.2.2.2.1.prime ?_
  simp only [List.forall_mem_cons, List.not_mem_nil, IsEmpty.forall_iff, implies_true,
    and_true, prime_104179991, prime_176070659401435712181211511]
  norm_num

theorem prime_groupOrder : groupOrder.Prime := by
  refine certificates.2.2.2.2.2.2.2.2.2.prime ?_
  simp only [List.forall_mem_cons, List.not_mem_nil, IsEmpty.forall_iff, implies_true,
    and_true, prime_3099723569, prime_32965410909254210768022022994233]
  norm_num

instance : Fact fieldPrime.Prime := ⟨prime_fieldPrime⟩

end River2
