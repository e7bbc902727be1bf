import Mathlib

/-!
# Bit strings as polynomials over GF(2)

A bit string is a polynomial over GF(2), its first bit at the highest power. A shift register with
feedback divides: fed the bits of a message, it holds the remainder of the message, moved up by its
own width, modulo its generator.

1. `poly` reads a bit string; `diff` is the difference of two, and `poly_diff` its polynomial.
2. `step` is one clock of the register and `serial` a whole message; `poly_serial` is the division,
   `serial_append_serial` and `modulus_dvd_append_serial` what a message and its own checksum give.
3. `shift` feeds a zero bit. Several bits may be added to the register at once before it is shifted
   (`foldl_step`), and what lies behind them only moves up (`shift_iterate`).
4. `lsbFirst` and `msbFirst` read a register off a machine word, whose shifts are `shiftRight` and
   `shiftLeft`.
5. A multiple of the modulus is no short burst, has an even number of bits, and no two bits closer
   than the order of `X` (`eq_zeros_of_burst`, `even_count_of_dvd`, `not_dvd_pair`).
-/

namespace Gf2

open Polynomial

/-! ## Reading a bit string -/

/-- A bit as a coefficient. -/
def coef (b : Bool) : ZMod 2 := if b then 1 else 0

/-- The polynomial of a bit string, its first bit at the highest power. -/
noncomputable def poly : List Bool → (ZMod 2)[X]
  | [] => 0
  | b :: l => C (coef b) * X ^ l.length + poly l

def diff (a b : List Bool) : List Bool := List.zipWith Bool.xor a b

def zeros (n : ℕ) : List Bool := List.replicate n false

@[simp] theorem zeros_length (n : ℕ) : (zeros n).length = n := List.length_replicate

theorem zeros_succ (n : ℕ) : zeros (n + 1) = false :: zeros n := rfl

theorem zeros_append (m n : ℕ) : zeros m ++ zeros n = zeros (m + n) :=
  List.replicate_append_replicate

theorem coef_xor (a b : Bool) : coef (Bool.xor a b) = coef a + coef b := by
  cases a <;> cases b <;> decide

theorem coef_eq_zero {b : Bool} (h : coef b = 0) : b = false := by
  cases b
  · rfl
  · exact absurd h (by decide)

theorem add_self (p : (ZMod 2)[X]) : p + p = 0 := CharTwo.add_self_eq_zero p

theorem poly_append (a b : List Bool) : poly (a ++ b) = poly a * X ^ b.length + poly b := by
  induction a with
  | nil => simp [poly]
  | cons c a ih =>
    rw [List.cons_append, poly, poly, ih, List.length_append]
    ring

@[simp] theorem poly_zeros (n : ℕ) : poly (zeros n) = 0 := by
  induction n with
  | zero => rfl
  | succ n ih => rw [zeros_succ, poly, ih]; simp [coef]

theorem degree_poly_lt (l : List Bool) : (poly l).degree < l.length := by
  induction l with
  | nil => simp [poly]
  | cons b l ih =>
    rw [poly, List.length_cons]
    apply (degree_add_le _ _).trans_lt
    apply max_lt
    · exact (degree_C_mul_X_pow_le _ _).trans_lt (by exact_mod_cast Nat.lt_succ_self _)
    · exact ih.trans (by exact_mod_cast Nat.lt_succ_self _)

@[simp] theorem diff_length {a b : List Bool} (h : a.length = b.length) :
    (diff a b).length = a.length := by
  unfold diff
  rw [List.length_zipWith, h, Nat.min_self]

theorem poly_diff {a b : List Bool} (h : a.length = b.length) :
    poly (diff a b) = poly a + poly b := by
  induction a generalizing b with
  | nil =>
    obtain rfl := List.length_eq_zero_iff.mp h.symm
    rw [add_self]
    rfl
  | cons c a ih =>
    obtain ⟨e, b, rfl⟩ := List.exists_cons_of_length_eq_add_one h.symm
    have hab : a.length = b.length := Nat.succ.inj h
    show poly (Bool.xor c e :: diff a b) = _
    rw [poly, poly, poly, ih hab, diff_length hab, coef_xor, C_add, hab]
    ring

theorem eq_zeros_of_poly {l : List Bool} (h : poly l = 0) : l = zeros l.length := by
  induction l with
  | nil => rfl
  | cons b l ih =>
    rw [poly] at h
    have hb : coef b = 0 := by
      have hc := congrArg (fun p => p.coeff l.length) h
      simpa [coeff_eq_zero_of_degree_lt (degree_poly_lt l)] using hc
    rw [hb, C_0, zero_mul, zero_add] at h
    conv_lhs => rw [coef_eq_zero hb, ih h]
    rfl

theorem diff_eq_zeros {a b : List Bool} (h : a.length = b.length) (hd : poly (diff a b) = 0) :
    a = b := by
  induction a generalizing b with
  | nil => exact (List.length_eq_zero_iff.mp h.symm).symm
  | cons c a ih =>
    obtain ⟨e, b, rfl⟩ := List.exists_cons_of_length_eq_add_one h.symm
    have hz : Bool.xor c e :: diff a b = false :: zeros (diff a b).length := eq_zeros_of_poly hd
    obtain ⟨hce, htail⟩ := List.cons.inj hz
    have hab : poly (diff a b) = 0 := by rw [htail, poly_zeros]
    rw [ih (Nat.succ.inj h) hab, bne_eq_false_iff_eq.mp hce]

/-! ## The division register -/

/-- One clock of the register: it moves up by a bit, and the bit that leaves it, added to the
message's, decides whether the generator is subtracted. -/
def step (gen : List Bool) (reg : List Bool) (b : Bool) : List Bool :=
  match reg with
  | [] => []
  | top :: rest =>
    if Bool.xor top b then diff (rest ++ [false]) gen else rest ++ [false]

theorem step_cons (gen : List Bool) (top : Bool) (rest : List Bool) (b : Bool) :
    step gen (top :: rest) b =
      if Bool.xor top b then diff (rest ++ [false]) gen else rest ++ [false] := rfl

/-- The register after a message, from all zeros. -/
def serial (gen bits : List Bool) : List Bool := bits.foldl (step gen) (zeros gen.length)

/-- The polynomial a generator stands for; its leading term is not written. -/
noncomputable def modulus (gen : List Bool) : (ZMod 2)[X] := X ^ gen.length + poly gen

theorem modulus_monic (gen : List Bool) : (modulus gen).Monic :=
  monic_X_pow_add (degree_poly_lt gen)

theorem degree_modulus (gen : List Bool) : (modulus gen).degree = gen.length := by
  have hX : (X ^ gen.length : (ZMod 2)[X]).degree = gen.length := degree_X_pow _
  rw [modulus, degree_add_eq_left_of_degree_lt (by rw [hX]; exact degree_poly_lt gen), hX]

@[simp] theorem step_length {gen reg : List Bool} (b : Bool) (h : reg.length = gen.length) :
    (step gen reg b).length = gen.length := by
  cases reg with
  | nil => exact h
  | cons top rest =>
    have hlen : (rest ++ [false]).length = gen.length := by simpa using h
    rw [step_cons]
    split_ifs
    · rw [diff_length hlen, hlen]
    · exact hlen

theorem foldl_step_length {gen reg : List Bool} (bits : List Bool)
    (h : reg.length = gen.length) : (bits.foldl (step gen) reg).length = gen.length := by
  induction bits generalizing reg with
  | nil => exact h
  | cons b bits ih => exact ih (step_length b h)

@[simp] theorem serial_length (gen bits : List Bool) : (serial gen bits).length = gen.length :=
  foldl_step_length bits (zeros_length _)

/-- One clock multiplies by `X` and adds the message's bit, up to a multiple of the modulus. -/
theorem poly_step {gen reg : List Bool} (b : Bool) (h : reg.length = gen.length)
    (hpos : gen ≠ []) : ∃ q, poly (step gen reg b) =
      X * poly reg + C (coef b) * X ^ gen.length + q * modulus gen := by
  cases reg with
  | nil => exact absurd (List.length_eq_zero_iff.mp h.symm) hpos
  | cons top rest =>
    have hlen : (rest ++ [false]).length = gen.length := by simpa using h
    have hshift : poly (rest ++ [false]) = X * poly rest := by
      rw [poly_append]
      simp [poly, coef, mul_comm]
    have hgen : gen.length = rest.length + 1 := h.symm
    have hX : X * poly (top :: rest) = C (coef top) * X ^ gen.length + X * poly rest := by
      rw [poly, hgen]
      ring
    have hsum : C (coef top) + C (coef b) = (C (coef (Bool.xor top b)) : (ZMod 2)[X]) := by
      rw [coef_xor, C_add]
    rw [step_cons]
    split_ifs with hfb
    · -- the bit that leaves the register is subtracted with the generator
      refine ⟨1, ?_⟩
      rw [hfb] at hsum
      rw [poly_diff hlen, hshift, hX, modulus]
      have h1 : (C (coef true) : (ZMod 2)[X]) = 1 := by simp [coef]
      rw [h1] at hsum
      linear_combination (-X ^ gen.length) * hsum - add_self (X ^ gen.length)
    · refine ⟨0, ?_⟩
      rw [Bool.eq_false_iff.mpr hfb] at hsum
      have h0 : (C (coef false) : (ZMod 2)[X]) = 0 := by simp [coef]
      rw [h0] at hsum
      rw [hshift, hX]
      linear_combination (-X ^ gen.length) * hsum

theorem poly_foldl_step {gen : List Bool} (hpos : gen ≠ []) (bits : List Bool) {reg : List Bool}
    (h : reg.length = gen.length) : ∃ q, poly (bits.foldl (step gen) reg) =
      poly reg * X ^ bits.length + poly bits * X ^ gen.length + q * modulus gen := by
  induction bits generalizing reg with
  | nil => exact ⟨0, by simp [poly]⟩
  | cons b bits ih =>
    obtain ⟨q, hq⟩ := poly_step b h hpos
    obtain ⟨q', hq'⟩ := ih (step_length b h)
    refine ⟨q * X ^ bits.length + q', ?_⟩
    rw [List.foldl_cons, hq', hq, poly, List.length_cons]
    ring

/-- **Division.** The register holds the remainder of the message moved up by its width. -/
theorem poly_serial {gen : List Bool} (hpos : gen ≠ []) (bits : List Bool) :
    poly (serial gen bits) = (poly bits * X ^ gen.length) %ₘ modulus gen := by
  obtain ⟨q, hq⟩ := poly_foldl_step hpos bits (zeros_length gen.length)
  rw [poly_zeros, zero_mul, zero_add] at hq
  have hserial : poly (serial gen bits) + modulus gen * q = poly bits * X ^ gen.length := by
    rw [serial, hq, add_assoc, mul_comm q, add_self, add_zero]
  have hdeg : (poly (serial gen bits)).degree < (modulus gen).degree := by
    have h := degree_poly_lt (serial gen bits)
    rwa [serial_length, ← degree_modulus] at h
  exact ((div_modByMonic_unique q _ (modulus_monic gen) ⟨hserial, hdeg⟩).2).symm

/-- A message with its checksum behind it is a multiple of the modulus. -/
theorem modulus_dvd_append_serial {gen : List Bool} (hpos : gen ≠ []) (bits : List Bool) :
    modulus gen ∣ poly (bits ++ serial gen bits) := by
  have hdiv := modByMonic_add_div (poly bits * X ^ gen.length) (modulus gen)
  rw [poly_append, serial_length, ← hdiv, ← poly_serial hpos, add_right_comm, add_self, zero_add]
  exact dvd_mul_right _ _

theorem foldl_step_self (gen : List Bool) (a : List Bool) (n : ℕ) :
    a.foldl (step gen) (a ++ zeros n) = zeros (a.length + n) := by
  induction a generalizing n with
  | nil => rw [List.length_nil, Nat.zero_add]; rfl
  | cons b a ih =>
    have hstep : step gen (b :: a ++ zeros n) b = a ++ zeros (n + 1) := by
      show (if Bool.xor b b then _ else a ++ zeros n ++ [false]) = _
      rw [Bool.xor_self, if_neg Bool.false_ne_true, List.append_assoc, ← zeros_append n 1]
      rfl
    rw [List.foldl_cons, hstep, ih, List.length_cons]
    congr 1
    omega

theorem serial_append_serial (gen bits : List Bool) :
    serial gen (bits ++ serial gen bits) = zeros gen.length := by
  have h := foldl_step_self gen (serial gen bits) 0
  rw [show zeros 0 = [] from rfl, List.append_nil, serial_length] at h
  rw [serial, List.foldl_append]
  exact h

/-! ## Several bits at once -/

/-- A clock without a message bit. -/
def shift (gen reg : List Bool) : List Bool := step gen reg false

/-- The message's bit may be added to the top of the register first. -/
theorem step_eq_shift (gen : List Bool) (top : Bool) (rest : List Bool) (b : Bool) :
    step gen (top :: rest) b = shift gen (Bool.xor top b :: rest) := by
  rw [shift, step_cons, step_cons, Bool.xor_false]

theorem diff_right_comm (a b c : List Bool) : diff (diff a b) c = diff (diff a c) b := by
  induction a generalizing b c with
  | nil => rfl
  | cons x a ih =>
    cases b with
    | nil => cases c <;> rfl
    | cons y b =>
      cases c with
      | nil => rfl
      | cons z c =>
        show Bool.xor (Bool.xor x y) z :: diff (diff a b) c = _ :: diff (diff a c) b
        rw [ih, Bool.xor_assoc, Bool.xor_comm y z, ← Bool.xor_assoc]

theorem diff_zeros (a : List Bool) : diff a (zeros a.length) = a := by
  induction a with
  | nil => rfl
  | cons x a ih =>
    show Bool.xor x false :: diff a (zeros a.length) = _
    rw [Bool.xor_false, ih]

theorem zeros_diff (a : List Bool) : diff (zeros a.length) a = a := by
  induction a with
  | nil => rfl
  | cons x a ih =>
    show Bool.xor false x :: diff (zeros a.length) a = _
    rw [Bool.false_xor, ih]

theorem diff_append {a b a' b' : List Bool} (h : a.length = a'.length) :
    diff (a ++ b) (a' ++ b') = diff a a' ++ diff b b' :=
  List.zipWith_append h

/-- What is added behind the first bit of the register only moves up. -/
theorem shift_diff_behind {gen : List Bool} (top : Bool) {rest u : List Bool}
    (h : rest.length = u.length) :
    shift gen (diff (top :: rest) (false :: u)) =
      diff (shift gen (top :: rest)) (u ++ [false]) := by
  have hsnoc : diff rest u ++ [false] = diff (rest ++ [false]) (u ++ [false]) := by
    rw [diff_append h]
    rfl
  show step gen (Bool.xor top false :: diff rest u) false = _
  rw [shift, step_cons, step_cons, Bool.xor_false, Bool.xor_false]
  split_ifs
  · rw [hsnoc, diff_right_comm]
  · exact hsnoc

theorem foldl_step {gen : List Bool} (bits : List Bool) (k : ℕ) {reg : List Bool}
    (hreg : reg.length = gen.length) (hk : bits.length + k = gen.length) :
    bits.foldl (step gen) reg = (shift gen)^[bits.length] (diff reg (bits ++ zeros k)) := by
  induction bits generalizing reg k with
  | nil =>
    rw [List.length_nil, Nat.zero_add] at hk
    rw [List.nil_append, hk, ← hreg, diff_zeros]
    rfl
  | cons b bits ih =>
    rw [List.length_cons] at hk
    obtain ⟨top, rest, rfl⟩ := List.exists_cons_of_length_eq_add_one
      (by omega : reg.length = bits.length + k + 1)
    have hrest : rest.length = (bits ++ zeros k).length := by
      rw [List.length_append, zeros_length]
      rw [List.length_cons] at hreg
      omega
    have hstep : shift gen (diff (top :: rest) (b :: bits ++ zeros k)) =
        diff (step gen (top :: rest) b) (bits ++ zeros (k + 1)) := by
      have h := @shift_diff_behind gen (Bool.xor top b) _ _ hrest
      have hzeros : zeros k ++ [false] = zeros (k + 1) := zeros_append k 1
      rw [← step_eq_shift, List.append_assoc, hzeros] at h
      rw [← h]
      show shift gen (Bool.xor top b :: _) = shift gen (Bool.xor (Bool.xor top b) false :: _)
      rw [Bool.xor_false]
      rfl
    rw [List.foldl_cons, ih (k + 1) (step_length b hreg) (by omega), List.length_cons,
      Function.iterate_succ_apply, hstep]

/-- `n` clocks move what lies behind the first `n` bits up, and only that. -/
theorem shift_iterate {gen : List Bool} (n : ℕ) {reg u : List Bool}
    (hreg : reg.length = gen.length) (hu : n + u.length = gen.length) :
    (shift gen)^[n] (diff reg (zeros n ++ u)) = diff ((shift gen)^[n] reg) (u ++ zeros n) := by
  induction n generalizing reg u with
  | zero =>
    rw [show zeros 0 = [] from rfl, List.append_nil]
    rfl
  | succ n ih =>
    obtain ⟨top, rest, rfl⟩ := List.exists_cons_of_length_eq_add_one
      (by omega : reg.length = n + u.length + 1)
    have hrest : rest.length = (zeros n ++ u).length := by
      rw [List.length_append, zeros_length]
      rw [List.length_cons] at hreg
      omega
    have hnext : (shift gen (top :: rest)).length = gen.length := step_length false hreg
    have hu' : n + (u ++ [false]).length = gen.length := by
      rw [List.length_append, List.length_singleton]
      omega
    rw [Function.iterate_succ_apply, Function.iterate_succ_apply, zeros_succ, List.cons_append,
      shift_diff_behind top hrest, List.append_assoc, ih hnext hu', List.append_assoc]
    rfl

/-! ## Machine words -/

/-- The first `w` bits of `f`. -/
def readBits (w : ℕ) (f : ℕ → Bool) : List Bool := (List.range w).map f

@[simp] theorem readBits_length (w : ℕ) (f : ℕ → Bool) : (readBits w f).length = w := by
  unfold readBits
  rw [List.length_map, List.length_range]

theorem readBits_congr {w : ℕ} {f g : ℕ → Bool} (h : ∀ i < w, f i = g i) :
    readBits w f = readBits w g :=
  List.map_congr_left fun i hi => h i (List.mem_range.mp hi)

theorem eq_of_readBits_eq {w : ℕ} {f g : ℕ → Bool} (h : readBits w f = readBits w g) :
    ∀ i < w, f i = g i :=
  fun i hi => List.map_inj_left.mp h i (List.mem_range.mpr hi)

theorem readBits_split {w m n : ℕ} (h : w = m + n) (f : ℕ → Bool) :
    readBits w f = readBits m f ++ readBits n fun i => f (m + i) := by
  unfold readBits
  rw [h, List.range_add, List.map_append, List.map_map]
  rfl

theorem readBits_false (n : ℕ) : readBits n (fun _ => false) = zeros n := by
  unfold readBits zeros
  rw [List.map_const', List.length_range]

theorem diff_readBits (w : ℕ) (f g : ℕ → Bool) :
    diff (readBits w f) (readBits w g) = readBits w fun i => Bool.xor (f i) (g i) := by
  unfold diff readBits
  rw [List.zipWith_map, List.zipWith_self]

/-- A word with each bit above the last zero, shifted by the generator `p` if its first bit is
set. -/
theorem shift_readBits {n : ℕ} {f p : ℕ → Bool} (hf : f (n + 1) = false) :
    shift (readBits (n + 1) p) (readBits (n + 1) f) =
      readBits (n + 1) fun i => Bool.xor (f (i + 1)) (f 0 && p i) := by
  have hcons : readBits (n + 1) f = f 0 :: readBits n fun i => f (i + 1) := by
    rw [readBits_split (Nat.add_comm n 1)]
    simp only [Nat.add_comm 1]
    rfl
  have hsnoc :
      (readBits n fun i => f (i + 1)) ++ [false] = readBits (n + 1) fun i => f (i + 1) := by
    rw [readBits_split rfl, ← hf]
    rfl
  rw [hcons, shift, step_cons, hsnoc, Bool.xor_false, diff_readBits]
  cases f 0 <;> simp

section Words

variable {w : ℕ}

/-- The bits of a word, the least significant first. -/
def lsbFirst (x : BitVec w) : List Bool := readBits w x.getLsbD

/-- The bits of a word, the most significant first. -/
def msbFirst (x : BitVec w) : List Bool := readBits w x.getMsbD

/-- A division register kept least significant bit first: it shifts right. -/
def shiftRight (p x : BitVec w) : BitVec w := if x.getLsbD 0 then (x >>> 1) ^^^ p else x >>> 1

/-- A division register kept most significant bit first: it shifts left. -/
def shiftLeft (p x : BitVec w) : BitVec w := if x.getMsbD 0 then (x <<< 1) ^^^ p else x <<< 1

@[simp] theorem lsbFirst_length (x : BitVec w) : (lsbFirst x).length = w := readBits_length w _

@[simp] theorem msbFirst_length (x : BitVec w) : (msbFirst x).length = w := readBits_length w _

theorem lsbFirst_injective : Function.Injective (lsbFirst (w := w)) :=
  fun _ _ h => BitVec.eq_of_getLsbD_eq (eq_of_readBits_eq h)

theorem msbFirst_injective : Function.Injective (msbFirst (w := w)) :=
  fun _ _ h => BitVec.eq_of_getMsbD_eq (eq_of_readBits_eq h)

theorem lsbFirst_xor (x y : BitVec w) : lsbFirst (x ^^^ y) = diff (lsbFirst x) (lsbFirst y) := by
  unfold lsbFirst
  rw [diff_readBits]
  exact readBits_congr fun i _ => BitVec.getLsbD_xor

theorem msbFirst_xor (x y : BitVec w) : msbFirst (x ^^^ y) = diff (msbFirst x) (msbFirst y) := by
  unfold msbFirst
  rw [diff_readBits]
  exact readBits_congr fun i _ => BitVec.getMsbD_xor

theorem lsbFirst_shiftRight (p x : BitVec (w + 1)) :
    lsbFirst (shiftRight p x) = shift (lsbFirst p) (lsbFirst x) := by
  unfold lsbFirst
  rw [shift_readBits (BitVec.getLsbD_of_ge x _ (Nat.le_refl _))]
  apply readBits_congr
  intro i _
  unfold shiftRight
  cases x.getLsbD 0 <;> simp [Nat.add_comm]

theorem msbFirst_shiftLeft (p x : BitVec (w + 1)) :
    msbFirst (shiftLeft p x) = shift (msbFirst p) (msbFirst x) := by
  unfold msbFirst
  rw [shift_readBits (BitVec.getMsbD_of_ge x _ (Nat.le_refl _))]
  apply readBits_congr
  intro i _
  unfold shiftLeft
  cases x.getMsbD 0 <;> simp

theorem lsbFirst_shiftRight_iterate (p x : BitVec (w + 1)) (n : ℕ) :
    lsbFirst ((shiftRight p)^[n] x) = (shift (lsbFirst p))^[n] (lsbFirst x) :=
  Function.Semiconj.iterate_right (lsbFirst_shiftRight p) n x

theorem msbFirst_shiftLeft_iterate (p x : BitVec (w + 1)) (n : ℕ) :
    msbFirst ((shiftLeft p)^[n] x) = (shift (msbFirst p))^[n] (msbFirst x) :=
  Function.Semiconj.iterate_right (msbFirst_shiftLeft p) n x

/-- `n` clocks of a word: those of its low `n` bits, and the rest of it moved down. -/
theorem shiftRight_iterate_split {p x low : BitVec (w + 1)} {n : ℕ} (hn : n ≤ w + 1)
    (hlow : ∀ i < n, low.getLsbD i = x.getLsbD i) (hhigh : ∀ i, n ≤ i → low.getLsbD i = false) :
    (shiftRight p)^[n] x = (shiftRight p)^[n] low ^^^ (x >>> n) := by
  obtain ⟨k, hk⟩ := Nat.exists_eq_add_of_le hn
  have hlows : lsbFirst low = readBits n x.getLsbD ++ zeros k := by
    unfold lsbFirst
    rw [readBits_split hk, readBits_congr hlow, ← readBits_false]
    congr 1
    exact readBits_congr fun i _ => hhigh _ (Nat.le_add_right n i)
  have hx :
      lsbFirst x = diff (lsbFirst low) (zeros n ++ readBits k fun i => x.getLsbD (n + i)) := by
    have hz := diff_zeros (readBits n x.getLsbD)
    have hz' := zeros_diff (readBits k fun i => x.getLsbD (n + i))
    rw [readBits_length] at hz hz'
    rw [hlows, diff_append (by simp), hz, hz', ← readBits_split hk]
    rfl
  have hdown : lsbFirst (x >>> n) = (readBits k fun i => x.getLsbD (n + i)) ++ zeros n := by
    unfold lsbFirst
    rw [readBits_split (hk.trans (Nat.add_comm n k)), ← readBits_false]
    congr 1
    · exact readBits_congr fun i _ => BitVec.getLsbD_ushiftRight ..
    · exact readBits_congr fun i _ => by
        rw [BitVec.getLsbD_ushiftRight, BitVec.getLsbD_of_ge _ _ (by omega)]
  apply lsbFirst_injective
  rw [lsbFirst_xor, lsbFirst_shiftRight_iterate, lsbFirst_shiftRight_iterate, hx, hdown,
    shift_iterate n (by simp) (by simp [hk])]

end Words

/-! ## Multiples of the modulus -/

/-- All set bits lie within `w` consecutive bits. -/
def Burst (w : ℕ) (e : List Bool) : Prop := ∃ i, ∀ j, e.getD j false = true → i ≤ j ∧ j < i + w

theorem eval_one_poly (l : List Bool) : (poly l).eval 1 = (l.count true : ZMod 2) := by
  induction l with
  | nil => simp [poly]
  | cons b l ih =>
    rw [poly, List.count_cons, eval_add, ih]
    cases b <;> simp [coef, add_comm]

/-- A modulus with `X + 1` in it divides only strings with an even number of set bits. -/
theorem even_count_of_dvd {G : (ZMod 2)[X]} (hG : G.eval 1 = 0) {l : List Bool}
    (h : G ∣ poly l) : Even (l.count true) := by
  obtain ⟨q, hq⟩ := h
  have hev := eval_one_poly l
  rw [hq, eval_mul, hG, zero_mul] at hev
  exact (ZMod.natCast_eq_zero_iff_even).mp hev.symm

theorem dvd_of_dvd_mul_X_pow {G p : (ZMod 2)[X]} (hG : G.coeff 0 ≠ 0) {k : ℕ}
    (h : G ∣ p * X ^ k) : G ∣ p := by
  have hco : IsCoprime X G :=
    (irreducible_X.coprime_iff_not_dvd).mpr fun hX => hG (X_dvd_iff.mp hX)
  exact (hco.pow_left (m := k)).symm.dvd_of_dvd_mul_right h

/-- A burst no longer than the register is no multiple of the modulus, unless it is empty. -/
theorem eq_zeros_of_burst {gen l : List Bool} (hG : (modulus gen).coeff 0 ≠ 0)
    (hdvd : modulus gen ∣ poly l) (hburst : Burst gen.length l) : l = zeros l.length := by
  obtain ⟨i, hi⟩ := hburst
  set b := (l.drop i).take gen.length with hb
  have hout : ∀ j < l.length, ¬ (i ≤ j ∧ j < i + gen.length) → l.getD j false = false :=
    fun j _ hj => Bool.eq_false_iff.mpr fun hset => hj (hi j hset)
  have hpre : l.take i = zeros (l.take i).length := by
    apply List.eq_replicate_of_mem
    intro x hx
    obtain ⟨j, hj, rfl⟩ := List.mem_iff_getElem.mp hx
    rw [List.length_take] at hj
    have h := hout j (by omega) (by omega)
    rwa [List.getD_eq_getElem _ _ (by omega),
      ← List.getElem_take (h := by rw [List.length_take]; exact hj)] at h
  have hpost : (l.drop i).drop gen.length = zeros ((l.drop i).drop gen.length).length := by
    rw [List.drop_drop]
    apply List.eq_replicate_of_mem
    intro x hx
    obtain ⟨j, hj, rfl⟩ := List.mem_iff_getElem.mp hx
    rw [List.length_drop] at hj
    have h := hout (i + gen.length + j) (by omega) (by omega)
    rwa [List.getD_eq_getElem _ _ (by omega),
      ← List.getElem_drop (h := by rw [List.length_drop]; exact hj)] at h
  have hl : l = zeros (l.take i).length ++ (b ++ zeros ((l.drop i).drop gen.length).length) := by
    rw [← hpre, ← hpost, hb, List.take_append_drop, List.take_append_drop]
  have hpoly : modulus gen ∣ poly b := by
    rw [hl, poly_append, poly_zeros, zero_mul, zero_add, poly_append, poly_zeros, add_zero] at hdvd
    exact dvd_of_dvd_mul_X_pow hG hdvd
  have hb0 : poly b = 0 := by
    by_contra hne
    have hdeg := degree_le_of_dvd hpoly hne
    rw [degree_modulus] at hdeg
    have hlt := (degree_poly_lt b).trans_le (Nat.cast_le.mpr (List.length_take_le _ _))
    exact absurd hdeg (not_le.mpr hlt)
  rw [hl, eq_zeros_of_poly hb0, zeros_append, zeros_append, zeros_length]

theorem eq_of_count_two {l : List Bool} (h : l.count true = 2) :
    ∃ i m k, l = zeros i ++ (true :: zeros m) ++ (true :: zeros k) := by
  have hone : ∀ {l : List Bool}, l.count true = 1 → ∃ m k, l = zeros m ++ (true :: zeros k) := by
    intro l
    induction l with
    | nil => intro h; cases h
    | cons b l ih =>
      intro h
      cases b with
      | false =>
        obtain ⟨m, k, rfl⟩ := ih (by simpa using h)
        exact ⟨m + 1, k, rfl⟩
      | true =>
        have hz : l.count true = 0 := by simpa using h
        refine ⟨0, l.length, ?_⟩
        have hl : l = zeros l.length := by
          apply List.eq_replicate_of_mem
          intro x hx
          exact Bool.eq_false_iff.mpr fun hx1 => List.count_eq_zero.mp hz (hx1 ▸ hx)
        conv_lhs => rw [hl]
        rfl
  induction l with
  | nil => cases h
  | cons b l ih =>
    cases b with
    | false =>
      obtain ⟨i, m, k, rfl⟩ := ih (by simpa using h)
      exact ⟨i + 1, m, k, rfl⟩
    | true =>
      obtain ⟨m, k, rfl⟩ := hone (l := l) (by simpa using h)
      exact ⟨0, m, k, by simp [zeros]⟩

/-- Two set bits closer than the order of `X` modulo `G` are no multiple of `G`. -/
theorem not_dvd_pair {G : (ZMod 2)[X]} {N : ℕ} (hG : G.coeff 0 ≠ 0)
    (horder : ∀ n, 0 < n → n < N → ¬ G ∣ X ^ n + 1) {l : List Bool} (hcount : l.count true = 2)
    (hlen : l.length ≤ N) : ¬ G ∣ poly l := by
  obtain ⟨i, m, k, rfl⟩ := eq_of_count_two hcount
  intro hdvd
  have hpoly : poly (zeros i ++ (true :: zeros m) ++ (true :: zeros k)) =
      (X ^ (m + 1) + 1) * X ^ k := by
    rw [poly_append, poly_append, poly_zeros, poly, poly, poly_zeros, poly_zeros]
    simp only [coef, List.length_cons, zeros_length]
    simp
    ring
  rw [hpoly] at hdvd
  simp only [List.length_append, List.length_cons, zeros_length] at hlen
  exact horder (m + 1) (Nat.succ_pos m) (by omega) (dvd_of_dvd_mul_X_pow hG hdvd)

theorem not_dvd_of_orderOf {P : (ZMod 2)[X]} {n : ℕ} (hpos : 0 < n)
    (hlt : n < orderOf (AdjoinRoot.root P)) : ¬ P ∣ X ^ n + 1 := by
  intro hdvd
  have hzero : AdjoinRoot.root P ^ n + 1 = 0 := by
    have h := AdjoinRoot.mk_eq_zero.mpr hdvd
    simpa using h
  have htwo : (2 : AdjoinRoot P) = 0 := by
    rw [← map_ofNat (AdjoinRoot.of P) 2, show (2 : ZMod 2) = 0 from rfl, map_zero]
  exact pow_ne_one_of_lt_orderOf hpos.ne' hlt (by linear_combination hzero - htwo)

end Gf2
