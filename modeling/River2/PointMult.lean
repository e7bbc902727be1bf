import River2.SecpGroup

/-!
# Point multiplication (`EccPoint_mult` with `regularize_k`)

1. `regularizeK`: a private key with a multiple of the order added, of 162 bits.
2. `regular_iff`: the rounds for it are regular unless the key is one, or one or two below the
   order.
3. `privateMult_stored`: on words, if no product is misreduced, the result has the coordinates of
   the multiple of the point, except for these keys and for a point whose `x` is zero.
-/

namespace River2

open WeierstrassCurve.Affine

/-- `curve_secp160r1.n`. -/
def curveN : Vli := [0xCA752257, 0xF927AED3, 0x0001F4C8, 0x00000000, 0x00000000, 0x00000001]

@[simp] theorem curveN_length : curveN.length = 6 := rfl

theorem vliNat_curveN : vliNat curveN = groupOrder := rfl

/-- `regularize_k`: `k0`, `k1`, and what it returns. -/
def regularizeK (k : Vli) : Vli × Vli × Bool :=
  let sum := vliAdd k curveN
  let k0 := sum.1
  let carry := sum.2 ≠ 0 || vliTestBit k0 161
  let k1 := (vliAdd k0 curveN).1
  (k0, k1, carry)

/-- The scalar, `p2[!carry]` of the callers. -/
def regularScalar (k : Vli) : Vli :=
  if (regularizeK k).2.2 then (regularizeK k).1 else (regularizeK k).2.1

def regularNat (k : ℕ) : ℕ :=
  if 2 ^ 161 ≤ k + groupOrder then k + groupOrder else k + 2 * groupOrder

theorem two_pow_le_groupOrder : 2 ^ 160 < groupOrder := by decide

theorem regularNat_bits {k : ℕ} (hk : k < groupOrder) :
    2 ^ 161 ≤ regularNat k ∧ regularNat k < 2 ^ 162 := by
  unfold regularNat
  unfold groupOrder at hk ⊢
  split_ifs <;> omega

/-- The scalar is the key up to a multiple of the order. -/
theorem regularNat_nsmul {P : SecpPoint} (hP : P ≠ 0) (k : ℕ) : regularNat k • P = k • P := by
  have hn : groupOrder • P = 0 := (nsmul_eq_zero_iff hP groupOrder).mpr dvd_rfl
  unfold regularNat
  split_ifs
  · rw [add_nsmul, hn, add_zero]
  · rw [add_nsmul, mul_nsmul', hn, nsmul_zero, add_zero]

theorem vliNat_regularScalar {k : Vli} (hlen : k.length = 6) (hk : vliNat k < groupOrder) :
    vliNat (regularScalar k) = regularNat (vliNat k) := by
  have hwidth : k.length = curveN.length := hlen
  obtain ⟨h0, hcarry⟩ := vliAdd_eq hwidth
  have h0len := vliAdd_length hwidth
  obtain ⟨h1, -⟩ := vliAdd_eq (h0len.trans hwidth)
  have hn : groupOrder < 2 ^ 161 := by decide
  rw [hlen, vliNat_curveN] at h0 hcarry
  rw [h0len, hlen, vliNat_curveN] at h1
  have hsum : vliNat (vliAdd k curveN).1 = vliNat k + groupOrder := by
    rw [h0, Nat.mod_eq_of_lt (by omega)]
  have hzero : (vliAdd k curveN).2 = 0 := by
    rw [← UInt32.toNat_inj, hcarry]
    exact Nat.div_eq_of_lt (by omega)
  have hbit : vliTestBit (vliAdd k curveN).1 161 = decide (2 ^ 161 ≤ vliNat k + groupOrder) := by
    rw [vliTestBit_eq, hsum, Nat.testBit_eq_decide_div_mod_eq, decide_eq_decide]
    omega
  unfold regularScalar regularizeK regularNat
  simp only [hzero, hbit, ne_eq, not_true_eq_false, decide_false, Bool.false_or, decide_eq_true_eq]
  split_ifs
  · exact hsum
  · rw [h1, hsum, Nat.mod_eq_of_lt (by omega)]
    omega

/-! ## Which rounds are regular -/

/-- The keys that some round of the ladder fails for. -/
def Degenerate (k : ℕ) : Prop := k = 1 ∨ k = groupOrder - 2 ∨ k = groupOrder - 1

instance (k : ℕ) : Decidable (Degenerate k) := inferInstanceAs (Decidable (_ ∨ _))

/-- The order divides none of the three multiples of a round. -/
def Clear (m : ℕ) : Prop :=
  ¬ groupOrder ∣ 2 * m ∧ ¬ groupOrder ∣ 2 * m + 1 ∧ ¬ groupOrder ∣ 2 * m + 2

theorem regular_iff_clear {P : SecpPoint} (hP : P ≠ 0) (m : ℕ) : CoZ.Regular P m ↔ Clear m := by
  unfold Clear
  rw [← nsmul_eq_zero_iff hP, ← nsmul_eq_zero_iff hP, ← nsmul_eq_zero_iff hP]
  exact ⟨fun h => ⟨h.even, h.odd, h.next⟩, fun h => ⟨h.1, h.2.1, h.2.2⟩⟩

theorem not_dvd_of_ne {m : ℕ} (hpos : 0 < m) (hlt : m < 4 * groupOrder) (h1 : m ≠ groupOrder)
    (h2 : m ≠ 2 * groupOrder) (h3 : m ≠ 3 * groupOrder) : ¬ groupOrder ∣ m := by
  rintro ⟨c, rfl⟩
  have hc : c < 4 := by
    by_contra hge
    have := Nat.mul_le_mul_left groupOrder (not_lt.mp hge)
    omega
  interval_cases c <;> omega

theorem clear_half_iff {k : ℕ} (hpos : 0 < k) (hk : k < groupOrder) :
    Clear (regularNat k / 2) ↔ ¬ Degenerate k := by
  constructor
  · -- one meets twice the order, and the two below the order meet it one step later
    rintro ⟨heven, -, hnext⟩ (rfl | rfl | rfl)
    · exact heven (by decide)
    · exact hnext (by decide)
    · exact hnext (by decide)
  · intro hnot
    unfold Degenerate at hnot
    unfold Clear regularNat
    have hne := @not_dvd_of_ne
    unfold groupOrder at hk hnot hne ⊢
    split_ifs <;> refine ⟨hne ?_ ?_ ?_ ?_ ?_, hne ?_ ?_ ?_ ?_ ?_, hne ?_ ?_ ?_ ?_ ?_⟩ <;> omega

theorem clear_quarter {k : ℕ} (hpos : 0 < k) (hk : k < groupOrder) (hnot : ¬ Degenerate k) :
    Clear (regularNat k / 4) := by
  unfold Degenerate at hnot
  unfold Clear regularNat
  have hne := @not_dvd_of_ne
  unfold groupOrder at hk hnot hne ⊢
  split_ifs <;> refine ⟨hne ?_ ?_ ?_ ?_ ?_, hne ?_ ?_ ?_ ?_ ?_, hne ?_ ?_ ?_ ?_ ?_⟩ <;> omega

theorem clear_of_lt {m : ℕ} (hpos : 0 < m) (hlt : 2 * m + 2 < groupOrder) : Clear m :=
  ⟨Nat.not_dvd_of_pos_of_lt (by omega) (by omega), Nat.not_dvd_of_pos_of_lt (by omega) (by omega),
    Nat.not_dvd_of_pos_of_lt (by omega) hlt⟩

/-- **The rounds.** All are regular, unless the key is degenerate. -/
theorem regular_iff {P : SecpPoint} (hP : P ≠ 0) {k : ℕ} (hpos : 0 < k) (hk : k < groupOrder) :
    (∀ l, l <+: CurveOps.loopBits (regularNat k).testBit 162 → CoZ.Regular P (CoZ.headNat l)) ↔
      ¬ Degenerate k := by
  obtain ⟨hge, hlt⟩ := regularNat_bits hk
  constructor
  · intro hall
    have hlast := hall _ List.prefix_rfl
    rw [headNat_loopBits (by norm_num) hge hlt, regular_iff_clear hP] at hlast
    exact (clear_half_iff hpos hk).mp hlast
  · intro hnot l hl
    have hllen : l.length ≤ 160 := hl.length_le.trans (loopBits_length _ _).le
    rw [List.prefix_iff_eq_take.mp hl, headNat_take_loopBits hge hlt hllen, regular_iff_clear hP]
    rcases Nat.lt_or_ge l.length 159 with hlt' | hge'
    · have hle : regularNat k / 2 ^ (162 - 1 - l.length) ≤ regularNat k / 8 :=
        Nat.div_le_div_left (Nat.pow_le_pow_right two_pos (by omega : 3 ≤ 162 - 1 - l.length))
          (by norm_num)
      refine clear_of_lt (Nat.div_pos ?_ (by positivity)) ?_
      · exact (Nat.pow_le_pow_right two_pos (by omega)).trans hge
      · have hn := two_pow_le_groupOrder
        omega
    · obtain heq | heq : l.length = 159 ∨ l.length = 160 := by omega
      · rw [heq]
        exact clear_quarter hpos hk hnot
      · rw [heq]
        exact (clear_half_iff hpos hk).mpr hnot

/-! ## The result -/

/-- The affine coordinates; `(0, 0)` for the infinite point. -/
def affine : SecpPoint → Field160 × Field160
  | .zero => (0, 0)
  | .some x y _ => (x, y)

/-- What the point multiplication computes for a private key. -/
def multResult (k : ℕ) (P : SecpPoint) : Field160 × Field160 :=
  if (affine P).1 = 0 ∨ Degenerate k then (0, 0) else affine (k • P)

theorem ladder_regularNat {x y z : Field160} (h : secpCurve.Nonsingular x y) (hz : z ≠ 0) {k : ℕ}
    (hpos : 0 < k) (hk : k < groupOrder) :
    CoZ.ladder (-3) (x, y) z (CurveOps.loopBits (regularNat k).testBit 162)
      ((regularNat k).testBit 0) = multResult k (.some x y h) := by
  obtain ⟨hge, hlt⟩ := regularNat_bits hk
  have hP : Point.some x y h ≠ 0 := Point.some_ne_zero _
  have hreg := regular_iff hP hpos hk
  unfold multResult
  split_ifs with hnot
  · refine CoZ.ladder_of_not_regular (h := h) two_ne_zero_field hz ?_ _
    rcases hnot with hx | hdeg
    · exact .inl hx
    · refine .inr ?_
      by_contra hall
      push Not at hall
      exact hreg.mp hall hdeg
  · obtain ⟨hx, hdeg⟩ := not_or.mp hnot
    obtain ⟨h', hmul⟩ := CoZ.ladder_of_regular (h := h) two_ne_zero_field hz hx (hreg.mpr hdeg)
      ((regularNat k).testBit 0)
    rw [two_mul_headNat_add (by norm_num) hge hlt, regularNat_nsmul hP] at hmul
    rw [hmul]
    rfl

/-- Five words that hold a reduced number for the element of the field. -/
def Stored (ws : Vli) (z : Field160) : Prop :=
  ws.length = 5 ∧ vliNat ws < fieldPrime ∧ (vliNat ws : Field160) = z

/-- An initial `z` that `EccPoint_mult` may be given. -/
def ValidZ (initialZ : Option Vli) : Prop :=
  ∀ z ∈ initialZ, z.length = 5 ∧ 0 < vliNat z ∧ vliNat z < fieldPrime

/-- No product of this point multiplication is misreduced. -/
def CleanMult (point : Vli × Vli) (scalar : Vli) (initialZ : Option Vli) : Prop :=
  let result := checkedOps.eccPointMult (some (vliNat point.1), some (vliNat point.2))
    (vliTestBit scalar) ((initialZ.map vliNat).map some) 162
  result.1.isSome ∧ result.2.isSome

/-- `EccPoint_mult` for a private key, as its callers call it. -/
def privateMult (point : Vli × Vli) (key : Vli) (initialZ : Option Vli) : Vli × Vli :=
  wordOps.eccPointMult point (vliTestBit (regularScalar key)) initialZ 162

theorem holds_of_stored {ws : Vli} {z : Field160} (h : Stored ws z) :
    WordsHold ws (some (vliNat ws)) := by
  intro v hv
  obtain rfl := Option.some.inj hv
  exact ⟨h.1, rfl, h.2.1⟩

theorem ValidZ.holds {initialZ : Option Vli} (hZ : ValidZ initialZ) :
    WordsHold (initialZ.getD wordOps.one) (((initialZ.map vliNat).map some).getD checkedOps.one) ∧
      wordOps.isZero (initialZ.getD wordOps.one) = false ∧
      checkedOps.isZero (((initialZ.map vliNat).map some).getD checkedOps.one) = false := by
  cases initialZ with
  | none => exact ⟨wordOps_checkedOps.one, by decide, by decide⟩
  | some z =>
    obtain ⟨hzlen, hzpos, hzlt⟩ := hZ z rfl
    refine ⟨?_, (vliIsZero_eq z).trans (decide_eq_false hzpos.ne'), decide_eq_false ?_⟩
    · intro v hv
      obtain rfl := Option.some.inj hv
      exact ⟨hzlen, rfl, hzlt⟩
    · simpa using hzpos.ne'

theorem ValidZ.natCast_ne_zero {initialZ : Option Vli} (hZ : ValidZ initialZ) :
    (((initialZ.map vliNat).getD 1 : ℕ) : Field160) ≠ 0 := by
  cases initialZ with
  | none => exact River2.natCast_ne_zero one_pos one_lt_fieldPrime
  | some z => exact River2.natCast_ne_zero (hZ z rfl).2.1 (hZ z rfl).2.2

/-- On numbers, the bits of the scalar that `EccPoint_mult` is given. -/
theorem vliTestBit_regularScalar {key : Vli} (hlen : key.length = 6)
    (hkey : vliNat key < groupOrder) :
    vliTestBit (regularScalar key) = (regularNat (vliNat key)).testBit := by
  funext i
  rw [vliTestBit_eq, vliNat_regularScalar hlen hkey]

/-- The words are the numbers, as far as these go. -/
theorem privateMult_holds {point : Vli × Vli}
    (hpoint : Both WordsHold point (some (vliNat point.1), some (vliNat point.2)))
    {initialZ : Option Vli} (hZ : ValidZ initialZ) (key : Vli) :
    Both WordsHold (privateMult point key initialZ)
      (checkedOps.eccPointMult (some (vliNat point.1), some (vliNat point.2))
        (vliTestBit (regularScalar key)) ((initialZ.map vliNat).map some) 162) := by
  obtain ⟨hholds, hwz, hcz⟩ := hZ.holds
  exact wordOps_checkedOps.eccPointMult hpoint hholds hwz hcz (vliTestBit (regularScalar key)) 162

/-- **The point multiplication.** If no product is misreduced, the result is the multiple of the
point, unless the `x` of the point is zero or the key is degenerate: then it is `(0, 0)`. -/
theorem privateMult_stored {point : Vli × Vli} {P : SecpPoint} (hP : P ≠ 0)
    (hpoint : Both Stored point (affine P)) {initialZ : Option Vli} (hZ : ValidZ initialZ)
    {key : Vli} (hlen : key.length = 6) (hpos : 0 < vliNat key) (hkey : vliNat key < groupOrder)
    (hclean : CleanMult point (regularScalar key) initialZ) :
    Both Stored (privateMult point key initialZ) (multResult (vliNat key) P) := by
  obtain ⟨a, ha⟩ := Option.isSome_iff_exists.mp hclean.1
  obtain ⟨b, hb⟩ := Option.isSome_iff_exists.mp hclean.2
  have hrun : checkedOps.eccPointMult (some (vliNat point.1), some (vliNat point.2))
      (vliTestBit (regularScalar key)) ((initialZ.map vliNat).map some) 162 = (some a, some b) :=
    Prod.ext ha hb
  have hZnat : ∀ z ∈ initialZ.map vliNat, 0 < z ∧ z < fieldPrime := by
    intro z hz
    obtain ⟨w, hw, rfl⟩ := Option.map_eq_some_iff.mp hz
    exact (hZ w hw).2
  have hnumbers : Both WordsHold point (some (vliNat point.1), some (vliNat point.2)) :=
    ⟨holds_of_stored hpoint.1, holds_of_stored hpoint.2⟩
  have hwords := privateMult_holds hnumbers hZ key
  rw [hrun] at hwords
  obtain ⟨hax, hby⟩ := hwords
  obtain ⟨hxlen, hxnat, hxlt⟩ := hax a rfl
  obtain ⟨hylen, hynat, hylt⟩ := hby b rfl
  have hz := checked_ladder (P := (vliNat point.1, vliNat point.2)) (R := (a, b)) hpoint.1.2.1
    hpoint.2.2.1 hZnat hrun
  rcases P with _ | ⟨x, y, h⟩
  · exact absurd rfl hP
  · have hx : (vliNat point.1 : Field160) = x := hpoint.1.2.2
    have hy : (vliNat point.2 : Field160) = y := hpoint.2.2.2
    have hladder := hz.2.2
    rw [vliTestBit_regularScalar hlen hkey, hx, hy,
      ladder_regularNat h hZ.natCast_ne_zero hpos hkey] at hladder
    rw [hladder]
    exact ⟨⟨hxlen, hxnat ▸ hxlt, congrArg Nat.cast hxnat⟩,
      ⟨hylen, hynat ▸ hylt, congrArg Nat.cast hynat⟩⟩

end River2
