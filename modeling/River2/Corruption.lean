import River2.Codec
import River2.Checksum

/-!
# The checksum catches corruption

1. The bits of two strings that end in their own CRC-16 differ by a multiple of its polynomial
   (`modulus_dvd_diff`).
2. `X + 1` divides that polynomial, and so does `X ^ 15 + X + 1`, modulo which `X` has order 32767
   (`orderOf_root`).
3. A `Detectable` difference is no such multiple (`not_sealed_of_detectable`): neither the inner
   parser nor the outer extraction takes the corrupted string.
-/

namespace River2

open Polynomial

/-! ## Strings that end in their checksum -/

/-- The string ends in the CRC-16 of the bytes before it. -/
def Sealed (d : Bytes) : Prop := ∃ body, d = body ++ wrU16le (crc16 body)

theorem crc16Gen_ne_nil : crc16Gen ≠ [] :=
  List.ne_nil_of_length_pos (by rw [crc16Gen_length]; norm_num)

theorem modulus_dvd_of_sealed {d : Bytes} (h : Sealed d) :
    Gf2.modulus crc16Gen ∣ Gf2.poly (lsbBits d) := by
  obtain ⟨body, rfl⟩ := h
  rw [lsbBits_append, lsbBits_wrU16le, crc16_bits]
  exact Gf2.modulus_dvd_append_serial crc16Gen_ne_nil _

theorem lsbBits_injective {d d' : Bytes} (h : lsbBits d = lsbBits d') : d = d' := by
  induction d generalizing d' with
  | nil =>
    have hlen := congrArg List.length h
    rw [lsbBits_length, lsbBits_length] at hlen
    exact (List.length_eq_zero_iff.mp (by simpa using hlen.symm)).symm
  | cons b d ih =>
    cases d' with
    | nil =>
      have hlen := congrArg List.length h
      rw [lsbBits_length, lsbBits_length] at hlen
      cases hlen
    | cons b' d' =>
      obtain ⟨hb, hd⟩ := List.append_inj (show _ ++ lsbBits d = _ ++ lsbBits d' from h) (by simp)
      rw [UInt8.toBitVec_inj.mp (Gf2.lsbFirst_injective hb), ih hd]

/-- Two strings that end in their checksum differ by a multiple of the polynomial. -/
theorem modulus_dvd_diff {d d' : Bytes} (hlen : d'.length = d.length) (h : Sealed d)
    (h' : Sealed d') : Gf2.modulus crc16Gen ∣ Gf2.poly (Gf2.diff (lsbBits d) (lsbBits d')) := by
  rw [Gf2.poly_diff (by rw [lsbBits_length, lsbBits_length, hlen])]
  exact dvd_add (modulus_dvd_of_sealed h) (modulus_dvd_of_sealed h')

/-! ## The polynomial of CRC-16 -/

/-- The primitive factor of the polynomial. -/
noncomputable def primitive : (ZMod 2)[X] := X ^ 15 + X + 1

theorem two_eq_zero : (2 : (ZMod 2)[X]) = 0 := CharTwo.two_eq_zero

theorem modulus_factor : Gf2.modulus crc16Gen = (X + 1) * primitive := by
  rw [modulus_crc16Gen, primitive]
  linear_combination (-X) * two_eq_zero

theorem modulus_coeff_zero : (Gf2.modulus crc16Gen).coeff 0 ≠ 0 := by
  rw [modulus_crc16Gen]
  simp

theorem modulus_eval_one : (Gf2.modulus crc16Gen).eval 1 = 0 := by
  rw [modulus_crc16Gen]
  simp
  decide

/-! ### The order of `X` -/

section Powers

variable {R : Type*} [CommRing R] {x : R} (h2 : (2 : R) = 0) (hx : x ^ 15 + x + 1 = 0)

include h2 hx

/-- Squaring the root again and again, in characteristic two. -/
theorem squares : x ^ 16 = x ^ 2 + x ∧ x ^ 32 = x ^ 4 + x ^ 2 ∧ x ^ 64 = x ^ 8 + x ^ 4 ∧
    x ^ 128 = x ^ 8 + x ^ 2 + x ∧ x ^ 512 = x ^ 8 + x ^ 2 ∧ x ^ 1024 = x ^ 4 + x ^ 2 + x ∧
    x ^ 4096 = x ^ 8 + x ^ 4 + x ^ 2 + x ∧ x ^ 32768 = x := by
  have h16 : x ^ 16 = x ^ 2 + x := by linear_combination x * hx - (x ^ 2 + x) * h2
  have h32 : x ^ 32 = x ^ 4 + x ^ 2 := by linear_combination (x ^ 16 + x ^ 2 + x) * h16 + x ^ 3 * h2
  have h64 : x ^ 64 = x ^ 8 + x ^ 4 := by
    linear_combination (x ^ 32 + x ^ 4 + x ^ 2) * h32 + x ^ 6 * h2
  have h128 : x ^ 128 = x ^ 8 + x ^ 2 + x := by
    linear_combination (x ^ 64 + x ^ 8 + x ^ 4) * h64 + h16 + x ^ 12 * h2
  have h256 : x ^ 256 = x ^ 4 + x := by
    linear_combination (x ^ 128 + x ^ 8 + x ^ 2 + x) * h128 + h16 +
      (x ^ 10 + x ^ 9 + x ^ 3 + x ^ 2) * h2
  have h512 : x ^ 512 = x ^ 8 + x ^ 2 := by
    linear_combination (x ^ 256 + x ^ 4 + x) * h256 + x ^ 5 * h2
  have h1024 : x ^ 1024 = x ^ 4 + x ^ 2 + x := by
    linear_combination (x ^ 512 + x ^ 8 + x ^ 2) * h512 + h16 + x ^ 10 * h2
  have h2048 : x ^ 2048 = x ^ 8 + x ^ 4 + x ^ 2 := by
    linear_combination (x ^ 1024 + x ^ 4 + x ^ 2 + x) * h1024 + (x ^ 6 + x ^ 5 + x ^ 3) * h2
  have h4096 : x ^ 4096 = x ^ 8 + x ^ 4 + x ^ 2 + x := by
    linear_combination (x ^ 2048 + x ^ 8 + x ^ 4 + x ^ 2) * h2048 + h16 +
      (x ^ 12 + x ^ 10 + x ^ 6) * h2
  have h8192 : x ^ 8192 = x ^ 8 + x ^ 4 + x := by
    linear_combination (x ^ 4096 + x ^ 8 + x ^ 4 + x ^ 2 + x) * h4096 + h16 +
      (x ^ 12 + x ^ 10 + x ^ 9 + x ^ 6 + x ^ 5 + x ^ 3 + x ^ 2) * h2
  have h16384 : x ^ 16384 = x ^ 8 + x := by
    linear_combination (x ^ 8192 + x ^ 8 + x ^ 4 + x) * h8192 + h16 +
      (x ^ 12 + x ^ 9 + x ^ 5 + x ^ 2) * h2
  have h32768 : x ^ 32768 = x := by
    linear_combination (x ^ 16384 + x ^ 8 + x) * h16384 + h16 + (x ^ 9 + x ^ 2) * h2
  exact ⟨h16, h32, h64, h128, h512, h1024, h4096, h32768⟩

theorem pow_32767 : x ^ 32767 = 1 := by
  obtain ⟨-, -, -, -, -, -, -, h⟩ := squares h2 hx
  have hinv : x * (x ^ 14 + 1) = 1 := by linear_combination hx - h2
  calc x ^ 32767 = x ^ 32767 * (x * (x ^ 14 + 1)) := by rw [hinv, mul_one]
    _ = x ^ 32768 * (x ^ 14 + 1) := by ring
    _ = 1 := by rw [h, hinv]

theorem pow_217 :
    x ^ 217 = x ^ 13 + x ^ 11 + x ^ 9 + x ^ 6 + x ^ 5 + x ^ 4 + x ^ 3 + x ^ 2 + x + 1 := by
  obtain ⟨h16, -, h64, h128, -, -, -, -⟩ := squares h2 hx
  rw [show x ^ 217 = x ^ 128 * x ^ 64 * x ^ 16 * x ^ 9 by ring, h128, h64, h16]
  linear_combination (x ^ 12 + x ^ 11 + x ^ 8 + x ^ 7 + x ^ 6 + x ^ 4 + x ^ 2 + 1) * hx +
    (x ^ 20 + x ^ 16 - x ^ 13 - x ^ 12 - x ^ 11 - x ^ 9 - x ^ 8 - x ^ 7 - x ^ 6 - x ^ 5 - x ^ 4 -
      x ^ 3 - x ^ 2 - x - 1) * h2

theorem pow_1057 : x ^ 1057 = x ^ 9 + x ^ 6 + x ^ 5 + x ^ 4 := by
  obtain ⟨-, h32, -, -, -, h1024, -, -⟩ := squares h2 hx
  rw [show x ^ 1057 = x ^ 1024 * x ^ 32 * x by ring, h1024, h32]
  linear_combination x ^ 7 * h2

theorem pow_4681 : x ^ 4681 = x ^ 12 + x ^ 10 + x ^ 9 + x ^ 5 + x ^ 4 + x := by
  obtain ⟨-, -, h64, -, h512, -, h4096, -⟩ := squares h2 hx
  rw [show x ^ 4681 = x ^ 4096 * x ^ 512 * x ^ 64 * x ^ 9 by ring, h4096, h512, h64]
  linear_combination
    (x ^ 18 + x ^ 11 + x ^ 10 + x ^ 8 + x ^ 7 + x ^ 6 + x ^ 5 + x ^ 3 + x ^ 2 + x) * hx +
    (x ^ 29 + x ^ 27 + x ^ 23 - x ^ 18 - x ^ 12 - x ^ 11 - x ^ 10 - x ^ 9 - x ^ 8 - x ^ 7 - x ^ 6 -
      x ^ 5 - x ^ 4 - x ^ 3 - x ^ 2 - x) * h2

end Powers

theorem primitive_monic : primitive.Monic := by
  unfold primitive
  rw [add_assoc]
  apply monic_X_pow_add
  compute_degree!

theorem degree_primitive : primitive.degree = 15 := by
  unfold primitive
  compute_degree!

theorem mk_ne_zero {p : (ZMod 2)[X]} {n : ℕ} (hdeg : p.degree < 15) (hp : p.coeff n ≠ 0) :
    AdjoinRoot.mk primitive p ≠ 0 := by
  intro h
  have hne : p ≠ 0 := fun h0 => hp (by rw [h0, coeff_zero])
  exact primitive_monic.not_dvd_of_degree_lt hne (by rwa [degree_primitive])
    (AdjoinRoot.mk_eq_zero.mp h)

theorem orderOf_root : orderOf (AdjoinRoot.root primitive) = 32767 := by
  have h2 : (2 : AdjoinRoot primitive) = 0 := by
    rw [← map_ofNat (AdjoinRoot.of primitive) 2, show (2 : ZMod 2) = 0 from rfl, map_zero]
  have hx : AdjoinRoot.root primitive ^ 15 + AdjoinRoot.root primitive + 1 = 0 := by
    have h : AdjoinRoot.mk primitive (X ^ 15 + X + 1) = 0 := AdjoinRoot.mk_self
    simpa only [map_add, map_pow, AdjoinRoot.mk_X, map_one] using h
  apply orderOf_eq_of_pow_and_pow_div_prime (by norm_num) (pow_32767 h2 hx)
  intro p hp hdvd
  have hcases : p = 7 ∨ p = 31 ∨ p = 151 := by
    rw [show 32767 = 7 * 31 * 151 from rfl, hp.dvd_mul, hp.dvd_mul,
      Nat.prime_dvd_prime_iff_eq hp (by norm_num), Nat.prime_dvd_prime_iff_eq hp (by norm_num),
      Nat.prime_dvd_prime_iff_eq hp (by norm_num)] at hdvd
    tauto
  intro hone
  obtain rfl | rfl | rfl := hcases
  · have hdiff : AdjoinRoot.mk primitive (X ^ 12 + X ^ 10 + X ^ 9 + X ^ 5 + X ^ 4 + X + 1) ≠ 0 :=
      mk_ne_zero (n := 12) (by compute_degree!) (by simp [coeff_X, coeff_one])
    rw [show 32767 / 7 = 4681 from rfl, pow_4681 h2 hx] at hone
    apply hdiff
    simp only [map_add, map_pow, AdjoinRoot.mk_X, map_one]
    linear_combination hone + h2
  · have hdiff : AdjoinRoot.mk primitive (X ^ 9 + X ^ 6 + X ^ 5 + X ^ 4 + 1) ≠ 0 :=
      mk_ne_zero (n := 9) (by compute_degree!) (by simp [coeff_one])
    rw [show 32767 / 31 = 1057 from rfl, pow_1057 h2 hx] at hone
    apply hdiff
    simp only [map_add, map_pow, AdjoinRoot.mk_X, map_one]
    linear_combination hone + h2
  · have hdiff : AdjoinRoot.mk primitive
        (X ^ 13 + X ^ 11 + X ^ 9 + X ^ 6 + X ^ 5 + X ^ 4 + X ^ 3 + X ^ 2 + X) ≠ 0 :=
      mk_ne_zero (n := 13) (by compute_degree!) (by simp [coeff_X])
    rw [show 32767 / 151 = 217 from rfl, pow_217 h2 hx] at hone
    apply hdiff
    simp only [map_add, map_pow, AdjoinRoot.mk_X]
    linear_combination hone

/-! ## Detection -/

/-- The difference of two strings, the bits of each byte least significant first, lies within 16
consecutive bits, or has an odd number of set bits, or has two in a string of at most 4095
bytes. -/
def Detectable (d d' : Bytes) : Prop :=
  let e := Gf2.diff (lsbBits d) (lsbBits d')
  Gf2.Burst 16 e ∨ Odd (e.count true) ∨ (e.count true = 2 ∧ d.length ≤ 4095)

/-- **Detection.** Of two different strings with a detectable difference only one ends in its
checksum. -/
theorem not_sealed_of_detectable {d d' : Bytes} (hlen : d'.length = d.length) (hne : d' ≠ d)
    (hdiff : Detectable d d') (h : Sealed d) : ¬ Sealed d' := by
  intro h'
  have hdvd := modulus_dvd_diff hlen h h'
  have hbits : (lsbBits d).length = (lsbBits d').length := by
    rw [lsbBits_length, lsbBits_length, hlen]
  obtain hburst | hodd | ⟨htwo, hshort⟩ := hdiff
  · have hzero := Gf2.eq_zeros_of_burst modulus_coeff_zero hdvd (by rwa [crc16Gen_length])
    have hpoly : Gf2.poly (Gf2.diff (lsbBits d) (lsbBits d')) = 0 := by
      rw [hzero, Gf2.poly_zeros]
    exact hne (lsbBits_injective (Gf2.diff_eq_zeros hbits hpoly)).symm
  · exact Nat.not_even_iff_odd.mpr hodd (Gf2.even_count_of_dvd modulus_eval_one hdvd)
  · have horder : ∀ n, 0 < n → n < 32767 → ¬ Gf2.modulus crc16Gen ∣ X ^ n + 1 := by
      intro n hpos hlt hn
      rw [← orderOf_root] at hlt
      rw [modulus_factor] at hn
      exact Gf2.not_dvd_of_orderOf hpos hlt (dvd_of_mul_left_dvd hn)
    have hbound : (Gf2.diff (lsbBits d) (lsbBits d')).length ≤ 32767 := by
      rw [Gf2.diff_length hbits, lsbBits_length]
      omega
    exact Gf2.not_dvd_pair modulus_coeff_zero horder htwo hbound hdvd

theorem sealed_of_inner {d : Bytes} (h : InnerFormat d) : Sealed d :=
  ⟨_, by rw [← h.crc, List.take_append_drop]⟩

theorem IsFrame.length_eq {raw : Bytes} {f : Frame} (h : IsFrame raw f) :
    raw.length = 8 + f.payload.length := by
  have hlen := h.length
  have hfield := h.field
  rw [h.payload, slice_length (by omega)]
  omega

theorem rdU16le_of_slice {d d' : Bytes} {i : ℕ} (h : slice d' i 2 = slice d i 2) :
    rdU16le d' i = rdU16le d i := by
  have hread : ∀ b : Bytes, rdU16le b i = rdU16le (slice b i 2) 0 := by
    intro b
    rw [← Nat.add_zero i, ← rdU16le_drop]
    unfold slice rdU16le
    rw [Nat.add_zero]
    match b.drop i with
    | [] => rfl
    | [_] => rfl
    | _ :: _ :: _ => rfl
  rw [hread d', hread d, h]

/-- **Corruption is detected.** A string that differs detectably from an accepted one is rejected by
the inner parser. A buffer that differs detectably from one valid frame, but not in the length
field, has no frame at its head, and no extraction from it returns a frame as long as the buffer. -/
theorem corruption_detected {d d' : Bytes} (hlen : d'.length = d.length) (hne : d' ≠ d)
    (hdiff : Detectable d d') :
    ((innerParse d).isSome → innerParse d' = none) ∧
    (∀ f, IsFrame d f → slice d' 4 2 = slice d 4 2 →
      (∀ g n, headLook d' ≠ .emit g n) ∧
      ∀ allocOk fb g, fb.data = d' → (framebufExtract allocOk fb).1 = some g →
        8 + g.payload.length < d'.length) := by
  constructor
  · intro hsome
    obtain ⟨p, hp⟩ := Option.isSome_iff_exists.mp hsome
    have hd := (innerParse_eq_some_iff.mp hp).1
    have hnot := not_sealed_of_detectable hlen hne hdiff (sealed_of_inner hd)
    apply Option.eq_none_iff_forall_ne_some.mpr
    intro q hq
    exact hnot (sealed_of_inner (innerParse_eq_some_iff.mp hq).1)
  · intro f hf hfield
    have hnot := not_sealed_of_detectable hlen hne hdiff hf.crc
    have hword := rdU16le_of_slice hfield
    constructor
    · intro g n hemit
      unfold headLook at hemit
      rw [hword] at hemit
      split_ifs at hemit with h6 hbad hinc hcrc
      have hcut : d'.length = 6 + (rdU16le d 4).toNat - 2 + 2 := by
        have := hf.length
        omega
      rw [not_not] at hcrc
      apply hnot
      refine ⟨d'.take (6 + (rdU16le d 4).toNat - 2), ?_⟩
      rw [← hcrc]
      exact eq_take_append_wrU16le hcut
    · intro allocOk fb g hdata hret
      have hsound := extractLoop_sound allocOk (fb.data.length + 1) fb
      unfold framebufExtract at hret
      cases he : extractLoop allocOk (fb.data.length + 1) fb with
      | mk o fb' =>
        rw [he] at hret hsound
        obtain rfl : o = some g := hret
        obtain ⟨x, raw, hsplit, hraw⟩ := hsound
        rw [hdata] at hsplit
        have hcount := congrArg List.length hsplit
        rw [List.length_append, List.length_append] at hcount
        by_contra hfull
        have hx : x = [] := List.length_eq_zero_iff.mp (by rw [hraw.length_eq] at hcount; omega)
        have hrest : fb'.data = [] :=
          List.length_eq_zero_iff.mp (by rw [hraw.length_eq] at hcount; omega)
        rw [hx, hrest, List.nil_append, List.append_nil] at hsplit
        exact hnot (hsplit ▸ hraw.crc)

/-- One flipped bit in a packet without payload, and one in the type byte of a frame. -/
theorem corruption_detected_flip :
    innerParse ((innerBytes 0x21 0x35 0x20 0x02 []).set 12 0x20) = none ∧
      ∀ allocOk fb g, fb.data = (frameBytes frameData [0x42]).set 2 0x11 →
        (framebufExtract allocOk fb).1 = some g → 8 + g.payload.length < 9 :=
  ⟨(@corruption_detected (innerBytes 0x21 0x35 0x20 0x02 [])
      ((innerBytes 0x21 0x35 0x20 0x02 []).set 12 0x20) (by decide +kernel)
      (by decide +kernel) (Or.inr (Or.inl (by decide +kernel)))).1 (by decide +kernel),
    ((@corruption_detected (frameBytes frameData [0x42])
      ((frameBytes frameData [0x42]).set 2 0x11) (by decide +kernel) (by decide +kernel)
      (Or.inr (Or.inl (by decide +kernel)))).2 ⟨1, [0x42]⟩
      ⟨by decide +kernel, by decide +kernel, by decide +kernel, ⟨_, rfl⟩, by decide +kernel,
        by decide +kernel⟩ (by decide +kernel)).2⟩

end River2
