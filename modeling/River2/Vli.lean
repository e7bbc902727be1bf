import Mathlib.Algebra.Polynomial.Degree.Lemmas
import Mathlib.Algebra.Polynomial.Eval.Degree
import Mathlib.Algebra.Polynomial.Coeff
import Mathlib.Data.Nat.Bitwise
import Mathlib.Data.Nat.Digits.Defs
import Mathlib.Tactic.Ring
import Mathlib.Tactic.LinearCombination

/-!
# Long integers (`uECC.c`, the `vli` functions)

micro-ecc computes with numbers of a few 32-bit words.

1. `vliNat`: the number that the words are the digits of.
2. Addition, subtraction, comparison, shift and bit test, each with what it makes of the numbers.
3. `vliMult`: the product by columns is exact.
4. `vliModAdd` and `vliModSub`: sum and difference of reduced numbers are reduced.
-/

namespace River2

/-- `uECC_word_t *`: words of 32 bits, the least significant first. -/
abbrev Vli := List UInt32

/-- The number. -/
def vliNat (vli : Vli) : ℕ := Nat.ofDigits (2 ^ 32) (vli.map UInt32.toNat)

@[simp] theorem vliNat_nil : vliNat [] = 0 := rfl

@[simp] theorem vliNat_cons (w : UInt32) (ws : Vli) :
    vliNat (w :: ws) = w.toNat + 2 ^ 32 * vliNat ws := by
  unfold vliNat
  rw [List.map_cons, Nat.ofDigits_cons]

theorem vliNat_append (vs ws : Vli) :
    vliNat (vs ++ ws) = vliNat vs + 2 ^ (32 * vs.length) * vliNat ws := by
  unfold vliNat
  rw [List.map_append, Nat.ofDigits_append, List.length_map, pow_mul]

theorem vliNat_lt (ws : Vli) : vliNat ws < 2 ^ (32 * ws.length) := by
  have hlt : ∀ w ∈ ws.map UInt32.toNat, w < 2 ^ 32 := by
    intro w hw
    obtain ⟨v, -, rfl⟩ := List.mem_map.mp hw
    exact v.toNat_lt
  have h := Nat.ofDigits_lt_base_pow_length (by norm_num) hlt
  rwa [List.length_map, ← pow_mul] at h

theorem vliNat_inj {vs ws : Vli} (hlen : vs.length = ws.length) (heq : vliNat vs = vliNat ws) :
    vs = ws := by
  induction vs generalizing ws with
  | nil => exact (List.length_eq_zero_iff.mp hlen.symm).symm
  | cons v vs ih =>
    cases ws with
    | nil => cases hlen
    | cons w ws =>
      rw [vliNat_cons, vliNat_cons] at heq
      have hv := v.toNat_lt
      have hw := w.toNat_lt
      rw [ih (Nat.succ.inj hlen) (by omega), UInt32.toNat_inj.mp (by omega : v.toNat = w.toNat)]

theorem vliNat_getD (ws : Vli) (i : ℕ) :
    (ws.getD i 0).toNat = vliNat ws / 2 ^ (32 * i) % 2 ^ 32 := by
  induction ws generalizing i with
  | nil => simp
  | cons w ws ih =>
    have hw := w.toNat_lt
    cases i with
    | zero =>
      rw [List.getD_cons_zero, vliNat_cons, mul_zero, pow_zero, Nat.div_one]
      omega
    | succ i =>
      have hdiv : (w.toNat + 2 ^ 32 * vliNat ws) / 2 ^ 32 = vliNat ws := by omega
      rw [List.getD_cons_succ, ih, vliNat_cons, mul_add, mul_one, add_comm (32 * i), pow_add,
        ← Nat.div_div_eq_div_mul, hdiv]

/-! ## One word at a time -/

/-- `uECC_vli_clear`. -/
def vliClear (numWords : ℕ) : Vli := List.replicate numWords 0

theorem vliNat_vliClear (numWords : ℕ) : vliNat (vliClear numWords) = 0 := by
  unfold vliNat vliClear
  rw [List.map_replicate]
  exact Nat.ofDigits_replicate_zero

/-- `uECC_vli_isZero`. -/
def vliIsZero (vli : Vli) : Bool := vli.foldl (· ||| ·) 0 == 0

theorem foldl_or_eq_zero (ws : Vli) (bits : UInt32) :
    ws.foldl (· ||| ·) bits = 0 ↔ bits = 0 ∧ vliNat ws = 0 := by
  induction ws generalizing bits with
  | nil => simp
  | cons w ws ih =>
    have hw : w = 0 ↔ w.toNat = 0 := UInt32.toNat_inj.symm
    rw [List.foldl_cons, ih, UInt32.or_eq_zero_iff, vliNat_cons, hw, and_assoc]
    refine and_congr_right fun _ => ?_
    omega

@[simp] theorem vliIsZero_eq (ws : Vli) : vliIsZero ws = decide (vliNat ws = 0) := by
  unfold vliIsZero
  rw [Bool.eq_iff_iff, beq_iff_eq, decide_eq_true_iff, foldl_or_eq_zero]
  exact and_iff_right rfl

/-- `uECC_vli_testBit`. -/
def vliTestBit (vli : Vli) (bit : ℕ) : Bool :=
  vli.getD (bit >>> 5) 0 &&& ((1 : UInt32) <<< (bit &&& 31).toUInt32) != 0

theorem and_shift_ne_zero (w : UInt32) {i : ℕ} (hi : i < 32) :
    (w &&& ((1 : UInt32) <<< i.toUInt32) != 0) = w.toNat.testBit i := by
  have hnat : i.toUInt32.toNat = i := UInt32.toNat_ofNat_of_lt' (hi.trans (by decide))
  have hshift : ((1 : UInt32) <<< i.toUInt32).toNat = 2 ^ i := by
    rw [UInt32.toNat_shiftLeft, hnat, Nat.mod_eq_of_lt hi, Nat.shiftLeft_eq]
    show 1 * 2 ^ i % 2 ^ 32 = 2 ^ i
    rw [one_mul, Nat.mod_eq_of_lt (Nat.pow_lt_pow_right (by norm_num) hi)]
  have hne : w &&& ((1 : UInt32) <<< i.toUInt32) ≠ 0 ↔ w.toNat &&& 2 ^ i ≠ 0 := by
    rw [Ne, ← UInt32.toNat_inj, UInt32.toNat_and, hshift]
    rfl
  rw [Bool.eq_iff_iff, bne_iff_ne, hne, Nat.and_two_pow]
  cases w.toNat.testBit i
  · simp
  · simp

theorem vliTestBit_eq (ws : Vli) (bit : ℕ) : vliTestBit ws bit = (vliNat ws).testBit bit := by
  have hmod : bit &&& 31 = bit % 32 := Nat.and_two_pow_sub_one_eq_mod bit 5
  unfold vliTestBit
  rw [and_shift_ne_zero _ (by omega), vliNat_getD, Nat.testBit_mod_two_pow,
    Nat.testBit_div_two_pow, Nat.shiftRight_eq_div_pow, hmod, decide_eq_true (by omega),
    Bool.true_and]
  congr 1
  omega

/-- `uECC_vli_equal`: the differing bits, from the highest word. -/
def vliDiff : Vli → Vli → UInt32
  | l :: left, r :: right => vliDiff left right ||| (l ^^^ r)
  | _, _ => 0

/-- `uECC_vli_equal`. -/
def vliEqual (left right : Vli) : Bool := vliDiff left right == 0

theorem vliEqual_eq {left right : Vli} (hlen : left.length = right.length) :
    vliEqual left right = decide (vliNat left = vliNat right) := by
  unfold vliEqual
  rw [Bool.eq_iff_iff, beq_iff_eq, decide_eq_true_iff]
  induction left generalizing right with
  | nil =>
    obtain rfl := List.length_eq_zero_iff.mp hlen.symm
    exact iff_of_true rfl rfl
  | cons l left ih =>
    cases right with
    | nil => cases hlen
    | cons r right =>
      have hl := l.toNat_lt
      have hr := r.toNat_lt
      have hxor : l ^^^ r = 0 ↔ l.toNat = r.toNat :=
        UInt32.xor_eq_zero_iff.trans UInt32.toNat_inj.symm
      rw [vliDiff, UInt32.or_eq_zero_iff, ih (Nat.succ.inj hlen), hxor, vliNat_cons, vliNat_cons]
      omega

/-- `uECC_vli_cmp_unsafe`: the comparison starts at the highest word. -/
def vliCmpUnsafe : Vli → Vli → Ordering
  | l :: left, r :: right =>
    match vliCmpUnsafe left right with
    | .eq => if l > r then .gt else if l < r then .lt else .eq
    | cmp => cmp
  | _, _ => .eq

theorem vliCmpUnsafe_eq {left right : Vli} (hlen : left.length = right.length) :
    vliCmpUnsafe left right = compare (vliNat left) (vliNat right) := by
  induction left generalizing right with
  | nil =>
    obtain rfl := List.length_eq_zero_iff.mp hlen.symm
    rfl
  | cons l left ih =>
    cases right with
    | nil => cases hlen
    | cons r right =>
      have hl := l.toNat_lt
      have hr := r.toNat_lt
      rw [vliCmpUnsafe, ih (Nat.succ.inj hlen), vliNat_cons, vliNat_cons]
      rcases lt_trichotomy (vliNat left) (vliNat right) with hlt | heq | hgt
      · rw [compare_lt_iff_lt.mpr hlt]
        exact (compare_lt_iff_lt.mpr (by omega)).symm
      · rw [heq, compare_eq_iff_eq.mpr rfl]
        dsimp only
        split_ifs with hgt hlt
        · have := UInt32.lt_iff_toNat_lt.mp hgt
          exact (compare_gt_iff_gt.mpr (by omega)).symm
        · have := UInt32.lt_iff_toNat_lt.mp hlt
          exact (compare_lt_iff_lt.mpr (by omega)).symm
        · rw [gt_iff_lt, UInt32.lt_iff_toNat_lt] at hgt
          rw [UInt32.lt_iff_toNat_lt] at hlt
          exact (compare_eq_iff_eq.mpr (by omega)).symm
      · rw [compare_gt_iff_gt.mpr hgt]
        exact (compare_gt_iff_gt.mpr (by omega)).symm

/-! ## Sum and difference -/

/-- `uECC_vli_add`, from a carry. -/
def vliAddLoop (carry : UInt32) : Vli → Vli → Vli × UInt32
  | l :: left, r :: right =>
    let sum := l + r + carry
    let carry := if sum ≠ l then (if sum < l then 1 else 0) else carry
    (sum :: (vliAddLoop carry left right).1, (vliAddLoop carry left right).2)
  | _, _ => ([], carry)

/-- `uECC_vli_add`: the sum, and the carry. -/
def vliAdd (left right : Vli) : Vli × UInt32 := vliAddLoop 0 left right

/-- `uECC_vli_sub`, from a borrow. -/
def vliSubLoop (borrow : UInt32) : Vli → Vli → Vli × UInt32
  | l :: left, r :: right =>
    let diff := l - r - borrow
    let borrow := if diff ≠ l then (if diff > l then 1 else 0) else borrow
    (diff :: (vliSubLoop borrow left right).1, (vliSubLoop borrow left right).2)
  | _, _ => ([], borrow)

/-- `uECC_vli_sub`: the difference, and the borrow. -/
def vliSub (left right : Vli) : Vli × UInt32 := vliSubLoop 0 left right

theorem add_word (l r carry : UInt32) (hcarry : carry.toNat ≤ 1) :
    let sum := l + r + carry
    let carry' := if sum ≠ l then (if sum < l then (1 : UInt32) else 0) else carry
    carry'.toNat ≤ 1 ∧
      sum.toNat + 2 ^ 32 * carry'.toNat = l.toNat + r.toNat + carry.toNat := by
  intro sum carry'
  have hl := l.toNat_lt
  have hr := r.toNat_lt
  have hsum : sum.toNat = (l.toNat + r.toNat + carry.toNat) % 2 ^ 32 := by
    show (l + r + carry).toNat = _
    rw [UInt32.toNat_add, UInt32.toNat_add, Nat.mod_add_mod]
  show (if sum ≠ l then (if sum < l then (1 : UInt32) else 0) else carry).toNat ≤ 1 ∧ _ = _
  have hne : sum ≠ l ↔ sum.toNat ≠ l.toNat := UInt32.toNat_inj.not.symm
  have hlt : sum < l ↔ sum.toNat < l.toNat := UInt32.lt_iff_toNat_lt
  show _ ∧ _ + 2 ^ 32 * (if sum ≠ l then (if sum < l then (1 : UInt32) else 0) else carry).toNat = _
  split_ifs with h₁ h₂
  · have h₂ := hlt.mp h₂
    refine ⟨le_rfl, ?_⟩
    show sum.toNat + 2 ^ 32 * 1 = _
    omega
  · have h₁ := hne.mp h₁
    rw [hlt] at h₂
    refine ⟨Nat.zero_le _, ?_⟩
    show sum.toNat + 2 ^ 32 * 0 = _
    omega
  · have h₁ := UInt32.toNat_inj.mpr (not_not.mp h₁)
    refine ⟨hcarry, ?_⟩
    omega


theorem sub_word (l r borrow : UInt32) (hborrow : borrow.toNat ≤ 1) :
    let diff := l - r - borrow
    let borrow' := if diff ≠ l then (if diff > l then (1 : UInt32) else 0) else borrow
    borrow'.toNat ≤ 1 ∧
      diff.toNat + r.toNat + borrow.toNat = l.toNat + 2 ^ 32 * borrow'.toNat := by
  intro diff borrow'
  have hl := l.toNat_lt
  have hr := r.toNat_lt
  have hlr := (l - r).toNat_lt
  have hdiff : diff.toNat = (2 ^ 32 - borrow.toNat + (l - r).toNat) % 2 ^ 32 :=
    UInt32.toNat_sub (l - r) borrow
  have hsub : (l - r).toNat = (2 ^ 32 - r.toNat + l.toNat) % 2 ^ 32 := UInt32.toNat_sub l r
  have hne : diff ≠ l ↔ diff.toNat ≠ l.toNat := UInt32.toNat_inj.not.symm
  have hgt : diff > l ↔ l.toNat < diff.toNat := UInt32.lt_iff_toNat_lt
  show (if diff ≠ l then (if diff > l then (1 : UInt32) else 0) else borrow).toNat ≤ 1 ∧
    _ = _ + 2 ^ 32 * (if diff ≠ l then (if diff > l then (1 : UInt32) else 0) else borrow).toNat
  split_ifs with h₁ h₂
  · have h₂ := hgt.mp h₂
    refine ⟨le_rfl, ?_⟩
    show _ = l.toNat + 2 ^ 32 * 1
    omega
  · have h₁ := hne.mp h₁
    rw [hgt] at h₂
    refine ⟨Nat.zero_le _, ?_⟩
    show _ = l.toNat + 2 ^ 32 * 0
    omega
  · have h₁ := UInt32.toNat_inj.mpr (not_not.mp h₁)
    refine ⟨hborrow, ?_⟩
    omega

theorem vliAddLoop_eq {carry : UInt32} {left right : Vli} (hlen : left.length = right.length)
    (hcarry : carry.toNat ≤ 1) :
    (vliAddLoop carry left right).1.length = left.length ∧
      (vliAddLoop carry left right).2.toNat ≤ 1 ∧
      vliNat (vliAddLoop carry left right).1 +
        2 ^ (32 * left.length) * (vliAddLoop carry left right).2.toNat =
        vliNat left + vliNat right + carry.toNat := by
  induction left generalizing right carry with
  | nil =>
    obtain rfl := List.length_eq_zero_iff.mp hlen.symm
    exact ⟨rfl, hcarry, by simp [vliAddLoop]⟩
  | cons l left ih =>
    cases right with
    | nil => cases hlen
    | cons r right =>
      obtain ⟨hcarry', hword⟩ := add_word l r carry hcarry
      obtain ⟨hlen', hout, hrest⟩ := ih (Nat.succ.inj hlen) hcarry'
      refine ⟨congrArg Nat.succ hlen', hout, ?_⟩
      unfold vliAddLoop
      rw [vliNat_cons, vliNat_cons, vliNat_cons, List.length_cons, mul_add, mul_one, pow_add]
      linear_combination hword + 2 ^ 32 * hrest

theorem vliSubLoop_eq {borrow : UInt32} {left right : Vli} (hlen : left.length = right.length)
    (hborrow : borrow.toNat ≤ 1) :
    (vliSubLoop borrow left right).1.length = left.length ∧
      (vliSubLoop borrow left right).2.toNat ≤ 1 ∧
      vliNat (vliSubLoop borrow left right).1 + vliNat right + borrow.toNat =
        vliNat left + 2 ^ (32 * left.length) * (vliSubLoop borrow left right).2.toNat := by
  induction left generalizing right borrow with
  | nil =>
    obtain rfl := List.length_eq_zero_iff.mp hlen.symm
    exact ⟨rfl, hborrow, by simp [vliSubLoop]⟩
  | cons l left ih =>
    cases right with
    | nil => cases hlen
    | cons r right =>
      obtain ⟨hborrow', hword⟩ := sub_word l r borrow hborrow
      obtain ⟨hlen', hout, hrest⟩ := ih (Nat.succ.inj hlen) hborrow'
      refine ⟨congrArg Nat.succ hlen', hout, ?_⟩
      unfold vliSubLoop
      rw [vliNat_cons, vliNat_cons, vliNat_cons, List.length_cons, mul_add, mul_one, pow_add]
      linear_combination hword + 2 ^ 32 * hrest

theorem zero_toNat_le : (0 : UInt32).toNat ≤ 1 := Nat.zero_le 1

section SumDifference

variable {left right : Vli}

theorem vliAdd_length (hlen : left.length = right.length) :
    (vliAdd left right).1.length = left.length := (vliAddLoop_eq hlen zero_toNat_le).1

theorem vliSub_length (hlen : left.length = right.length) :
    (vliSub left right).1.length = left.length := (vliSubLoop_eq hlen zero_toNat_le).1

theorem vliAdd_eq (hlen : left.length = right.length) :
    vliNat (vliAdd left right).1 = (vliNat left + vliNat right) % 2 ^ (32 * left.length) ∧
      (vliAdd left right).2.toNat = (vliNat left + vliNat right) / 2 ^ (32 * left.length) := by
  obtain ⟨hlen', -, hsum⟩ := vliAddLoop_eq hlen zero_toNat_le
  have hlt := vliNat_lt (vliAddLoop 0 left right).1
  rw [hlen'] at hlt
  have hsum : vliNat left + vliNat right = vliNat (vliAddLoop 0 left right).1 +
      2 ^ (32 * left.length) * (vliAddLoop 0 left right).2.toNat := hsum.symm
  unfold vliAdd
  rw [hsum, Nat.add_mul_mod_self_left, Nat.mod_eq_of_lt hlt,
    Nat.add_mul_div_left _ _ (by positivity),
    Nat.div_eq_of_lt hlt, zero_add]
  exact ⟨rfl, rfl⟩

theorem vliSub_of_le (hlen : left.length = right.length) (hle : vliNat right ≤ vliNat left) :
    vliNat (vliSub left right).1 = vliNat left - vliNat right ∧ (vliSub left right).2 = 0 := by
  obtain ⟨hlen', hout, hdiff⟩ := vliSubLoop_eq hlen zero_toNat_le
  have hlt := vliNat_lt (vliSubLoop 0 left right).1
  rw [hlen'] at hlt
  have hdiff : vliNat (vliSub left right).1 + vliNat right + 0 =
    vliNat left + 2 ^ (32 * left.length) * (vliSub left right).2.toNat := hdiff
  have hlt : vliNat (vliSub left right).1 < 2 ^ (32 * left.length) := hlt
  have hzero : (vliSub left right).2.toNat = 0 := by
    by_contra hne
    have hone : (vliSub left right).2.toNat = 1 :=
      le_antisymm hout (Nat.one_le_iff_ne_zero.mpr hne)
    rw [hone] at hdiff
    omega
  rw [hzero] at hdiff
  exact ⟨by omega, UInt32.toNat_inj.mp hzero⟩

theorem vliSub_of_lt (hlen : left.length = right.length) (hlt : vliNat left < vliNat right) :
    vliNat (vliSub left right).1 = 2 ^ (32 * left.length) + vliNat left - vliNat right ∧
      (vliSub left right).2 = 1 := by
  obtain ⟨hlen', hout, hdiff⟩ := vliSubLoop_eq hlen zero_toNat_le
  have hdiff : vliNat (vliSub left right).1 + vliNat right + 0 =
    vliNat left + 2 ^ (32 * left.length) * (vliSub left right).2.toNat := hdiff
  have hone : (vliSub left right).2.toNat = 1 := by
    refine le_antisymm hout (Nat.one_le_iff_ne_zero.mpr fun hzero => ?_)
    rw [hzero] at hdiff
    omega
  rw [hone] at hdiff
  exact ⟨by omega, UInt32.toNat_inj.mp hone⟩

end SumDifference

/-- `uECC_vli_cmp`: one, zero or minus one. -/
def vliCmp (left right : Vli) : ℤ :=
  (if vliIsZero (vliSub left right).1 then 0 else 1) -
    2 * (if (vliSub left right).2 ≠ 0 then 1 else 0)

theorem vliCmp_eq_one_iff {left right : Vli} (hlen : left.length = right.length) :
    vliCmp left right = 1 ↔ vliNat right < vliNat left := by
  unfold vliCmp
  rw [vliIsZero_eq]
  rcases lt_or_ge (vliNat left) (vliNat right) with hlt | hle
  · obtain ⟨hdiff, hborrow⟩ := vliSub_of_lt hlen hlt
    rw [hborrow, if_pos (by decide : (1 : UInt32) ≠ 0)]
    refine iff_of_false ?_ (by omega)
    split_ifs <;> decide
  · obtain ⟨hdiff, hborrow⟩ := vliSub_of_le hlen hle
    rw [hborrow, hdiff]
    by_cases heq : vliNat left - vliNat right = 0
    · rw [decide_eq_true heq]
      exact iff_of_false (by decide) (by omega)
    · rw [decide_eq_false heq]
      exact iff_of_true (by decide) (by omega)

/-! ## Shift -/

/-- `uECC_vli_rshift1`, from the highest word: the words, and the carry into the next lower one. -/
def vliRshiftLoop : Vli → Vli × UInt32
  | [] => ([], 0)
  | temp :: vli =>
    let carry := (vliRshiftLoop vli).2
    ((temp >>> 1 ||| carry) :: (vliRshiftLoop vli).1, temp <<< 31)

/-- `uECC_vli_rshift1`. -/
def vliRshift1 (vli : Vli) : Vli := (vliRshiftLoop vli).1

/-- `vli[num_words - 1] |= bits`. -/
def vliSetTop (vli : Vli) (bits : UInt32) : Vli := vli.modify (vli.length - 1) (· ||| bits)

theorem or_high_bit {w : UInt32} (hw : w.toNat < 2 ^ 31) {carry : UInt32} {b : ℕ}
    (hcarry : carry.toNat = b * 2 ^ 31) : (w ||| carry).toNat = w.toNat + b * 2 ^ 31 := by
  rw [UInt32.toNat_or, hcarry, Nat.or_comm, mul_comm, ← Nat.two_pow_add_eq_or_of_lt hw, add_comm]

theorem vliRshiftLoop_eq (ws : Vli) :
    (vliRshiftLoop ws).1.length = ws.length ∧ vliNat (vliRshiftLoop ws).1 = vliNat ws / 2 ∧
      (vliRshiftLoop ws).2.toNat = vliNat ws % 2 * 2 ^ 31 := by
  induction ws with
  | nil => exact ⟨rfl, rfl, rfl⟩
  | cons w ws ih =>
    obtain ⟨hlen, hnat, hcarry⟩ := ih
    have hw := w.toNat_lt
    have hshift : (w >>> 1).toNat = w.toNat / 2 := by
      rw [UInt32.toNat_shiftRight]
      exact Nat.shiftRight_eq_div_pow w.toNat 1
    have hleft : (w <<< 31).toNat = w.toNat % 2 * 2 ^ 31 := by
      rw [UInt32.toNat_shiftLeft]
      have h : w.toNat <<< 31 = w.toNat * 2 ^ 31 := Nat.shiftLeft_eq _ _
      show w.toNat <<< 31 % 2 ^ 32 = _
      rw [h]
      omega
    refine ⟨congrArg Nat.succ hlen, ?_, ?_⟩
    · show vliNat ((w >>> 1 ||| (vliRshiftLoop ws).2) :: (vliRshiftLoop ws).1) = _
      rw [vliNat_cons, or_high_bit (by rw [hshift]; omega) hcarry, hshift, hnat, vliNat_cons]
      omega
    · show (w <<< 31).toNat = _
      rw [hleft, vliNat_cons]
      omega

theorem vliRshift1_length (ws : Vli) : (vliRshift1 ws).length = ws.length :=
  (vliRshiftLoop_eq ws).1

theorem vliNat_vliRshift1 (ws : Vli) : vliNat (vliRshift1 ws) = vliNat ws / 2 :=
  (vliRshiftLoop_eq ws).2.1

theorem vliSetTop_length (ws : Vli) (bits : UInt32) : (vliSetTop ws bits).length = ws.length :=
  List.length_modify ..

theorem vliNat_vliSetTop {ws : Vli} {n : ℕ} (hlen : ws.length = n + 1)
    (hlt : vliNat ws < 2 ^ (32 * n + 31)) {bits : UInt32} {b : ℕ}
    (hbits : bits.toNat = b * 2 ^ 31) :
    vliNat (vliSetTop ws bits) = vliNat ws + b * 2 ^ (32 * n + 31) := by
  obtain ⟨vs, w, rfl⟩ : ∃ vs w, ws = vs ++ [w] := by
    rcases List.eq_nil_or_concat ws with rfl | ⟨vs, w, rfl⟩
    · cases hlen
    · exact ⟨vs, w, List.concat_eq_append⟩
  obtain rfl : vs.length = n := by simpa using hlen
  have hset : vliSetTop (vs ++ [w]) bits = vs ++ [w ||| bits] := by
    unfold vliSetTop
    rw [List.length_append, List.length_singleton, Nat.add_sub_cancel]
    exact List.modifyTailIdx_add _ 0 vs [w]
  have hw : w.toNat < 2 ^ 31 := by
    rw [vliNat_append, vliNat_cons, vliNat_nil, mul_zero, add_zero, pow_add] at hlt
    by_contra hge
    have := Nat.mul_le_mul_left (2 ^ (32 * vs.length)) (not_lt.mp hge)
    omega
  rw [hset, vliNat_append, vliNat_append, vliNat_cons, vliNat_cons, vliNat_nil,
    or_high_bit hw hbits, pow_add]
  ring

/-! ## Product -/

/-- `r0`, `r1` and `r2` of `uECC_vli_mult`. -/
structure MultAcc where
  r0 : UInt32
  r1 : UInt32
  r2 : UInt32

/-- The number in the three words. -/
def MultAcc.nat (r : MultAcc) : ℕ := r.r0.toNat + 2 ^ 32 * r.r1.toNat + 2 ^ 64 * r.r2.toNat

/-- `muladd`. -/
def muladd (a b : UInt32) (r : MultAcc) : MultAcc :=
  let p : UInt64 := a.toUInt64 * b.toUInt64
  let r01 : UInt64 := (r.r1.toUInt64 <<< 32 ||| r.r0.toUInt64) + p
  ⟨r01.toUInt32, (r01 >>> 32).toUInt32, r.r2 + (if r01 < p then 1 else 0)⟩

/-- The inner loop of `uECC_vli_mult`: the products of a column. -/
def multColumn (left right : Vli) (k : ℕ) (r : MultAcc) : MultAcc :=
  let numWords := left.length
  let first := if k < numWords then 0 else k + 1 - numWords
  let last := if k < numWords then k + 1 else numWords
  (List.range' first (last - first)).foldl
    (fun r i => muladd (left.getD i 0) (right.getD (k - i) 0) r) r

/-- The outer loops of `uECC_vli_mult`, over these columns, and the last word. -/
def multLoop (left right : Vli) : List ℕ → MultAcc → Vli
  | [], r => [r.r0]
  | k :: ks, r =>
    let r := multColumn left right k r
    r.r0 :: multLoop left right ks ⟨r.r1, r.r2, 0⟩

/-- `uECC_vli_mult`. -/
def vliMult (left right : Vli) : Vli :=
  multLoop left right (List.range (2 * left.length - 1)) ⟨0, 0, 0⟩

/-- A product is added, where there is room for it. -/
theorem nat_muladd (a b : UInt32) {r : MultAcc} (hlt : r.nat + a.toNat * b.toNat < 2 ^ 96) :
    (muladd a b r).nat = r.nat + a.toNat * b.toNat := by
  have h0 := r.r0.toNat_lt
  have h1 := r.r1.toNat_lt
  have h2 := r.r2.toNat_lt
  have hab : a.toNat * b.toNat ≤ (2 ^ 32 - 1) * (2 ^ 32 - 1) :=
    Nat.mul_le_mul (by have := a.toNat_lt; omega) (by have := b.toNat_lt; omega)
  have hp : (a.toUInt64 * b.toUInt64).toNat = a.toNat * b.toNat := by
    rw [UInt64.toNat_mul, UInt32.toNat_toUInt64, UInt32.toNat_toUInt64]
    exact Nat.mod_eq_of_lt (by omega)
  have hr : (r.r1.toUInt64 <<< 32 ||| r.r0.toUInt64).toNat = 2 ^ 32 * r.r1.toNat + r.r0.toNat := by
    have hshift : (r.r1.toUInt64 <<< 32).toNat = 2 ^ 32 * r.r1.toNat := by
      have h : r.r1.toNat <<< 32 = r.r1.toNat * 2 ^ 32 := Nat.shiftLeft_eq _ _
      rw [UInt64.toNat_shiftLeft, UInt32.toNat_toUInt64]
      show r.r1.toNat <<< 32 % 2 ^ 64 = _
      rw [h]
      omega
    rw [UInt64.toNat_or, hshift, UInt32.toNat_toUInt64, ← Nat.two_pow_add_eq_or_of_lt h0]
  unfold MultAcc.nat at hlt ⊢
  unfold muladd
  dsimp only
  generalize r.r1.toUInt64 <<< 32 ||| r.r0.toUInt64 = lo at hr ⊢
  generalize a.toUInt64 * b.toUInt64 = p at hp ⊢
  generalize a.toNat * b.toNat = ab at hp hab hlt ⊢
  have hsum : (lo + p).toNat = (lo.toNat + p.toNat) % 2 ^ 64 := UInt64.toNat_add lo p
  have hlow : (lo + p).toUInt32.toNat = (lo + p).toNat % 2 ^ 32 := UInt64.toNat_toUInt32 _
  have hhigh : ((lo + p) >>> 32).toUInt32.toNat = (lo + p).toNat / 2 ^ 32 % 2 ^ 32 := by
    have h : (lo + p).toNat >>> 32 = (lo + p).toNat / 2 ^ 32 := Nat.shiftRight_eq_div_pow _ _
    rw [UInt64.toNat_toUInt32, UInt64.toNat_shiftRight]
    show (lo + p).toNat >>> 32 % 2 ^ 32 = _
    rw [h]
  have hcarry : lo + p < p ↔ 2 ^ 64 ≤ lo.toNat + p.toNat := by
    rw [UInt64.lt_iff_toNat_lt, hsum]
    omega
  have htop : (r.r2 + (if lo + p < p then 1 else 0)).toNat =
      r.r2.toNat + (lo.toNat + p.toNat) / 2 ^ 64 := by
    rw [UInt32.toNat_add]
    split_ifs with h
    · have h := hcarry.mp h
      show (r.r2.toNat + 1) % 2 ^ 32 = _
      omega
    · rw [hcarry] at h
      show (r.r2.toNat + 0) % 2 ^ 32 = _
      omega
  rw [htop, hlow, hhigh, hsum]
  omega

theorem nat_foldl_muladd (left right : Vli) (k : ℕ) (is : List ℕ) {r : MultAcc}
    (hlt : r.nat + (is.map fun i => (left.getD i 0).toNat * (right.getD (k - i) 0).toNat).sum <
      2 ^ 96) :
    (is.foldl (fun r i => muladd (left.getD i 0) (right.getD (k - i) 0) r) r).nat =
      r.nat + (is.map fun i => (left.getD i 0).toNat * (right.getD (k - i) 0).toNat).sum := by
  induction is generalizing r with
  | nil => rfl
  | cons i is ih =>
    rw [List.map_cons, List.sum_cons] at hlt ⊢
    have hadd := nat_muladd (left.getD i 0) (right.getD (k - i) 0) (r := r) (by omega)
    rw [List.foldl_cons, ih (by rw [hadd]; omega), hadd, add_assoc]

section Product

variable {left right : Vli}

/-- The sum of the products of a column. -/
def columnSum (left right : Vli) (k : ℕ) : ℕ :=
  ∑ i ∈ Finset.range (k + 1), (left.getD i 0).toNat * (right.getD (k - i) 0).toNat

theorem getD_of_le {ws : Vli} {i : ℕ} (hle : ws.length ≤ i) : (ws.getD i 0).toNat = 0 := by
  rw [List.getD_eq_default _ _ hle]
  rfl

/-- What a column leaves out is zero. -/
theorem sum_column (hlen : left.length = right.length) (k : ℕ) :
    ((List.range' (if k < left.length then 0 else k + 1 - left.length)
      ((if k < left.length then k + 1 else left.length) -
        (if k < left.length then 0 else k + 1 - left.length))).map
      fun i => (left.getD i 0).toNat * (right.getD (k - i) 0).toNat).sum =
    columnSum left right k := by
  show ∑ i ∈ Finset.Ico (if k < left.length then 0 else k + 1 - left.length)
    (if k < left.length then k + 1 else left.length),
      (left.getD i 0).toNat * (right.getD (k - i) 0).toNat = _
  refine Finset.sum_subset ?_ ?_
  · intro i hi
    rw [Finset.mem_Ico] at hi
    rw [Finset.mem_range]
    split_ifs at hi <;> omega
  · intro i hi hnot
    rw [Finset.mem_range] at hi
    rw [Finset.mem_Ico] at hnot
    by_cases hleft : left.length ≤ i
    · rw [getD_of_le hleft, zero_mul]
    · rw [getD_of_le (i := k - i) (by split_ifs at hnot <;> omega), mul_zero]

/-- A column adds its sum, from two words and for fewer than `2³² - 1` of them. -/
theorem nat_multColumn (hlen : left.length = right.length) (hn : left.length < 2 ^ 32 - 1) (k : ℕ)
    {r : MultAcc} (hr : r.r2 = 0) :
    (multColumn left right k r).nat = r.nat + columnSum left right k := by
  have h0 := r.r0.toNat_lt
  have h1 := r.r1.toNat_lt
  have hacc : r.nat < 2 ^ 64 := by
    unfold MultAcc.nat
    rw [hr]
    show r.r0.toNat + 2 ^ 32 * r.r1.toNat + 2 ^ 64 * 0 < 2 ^ 64
    omega
  have hbound : columnSum left right k ≤ left.length * ((2 ^ 32 - 1) * (2 ^ 32 - 1)) := by
    rw [← sum_column hlen]
    refine (List.sum_le_card_nsmul _ ((2 ^ 32 - 1) * (2 ^ 32 - 1)) ?_).trans ?_
    · intro x hx
      obtain ⟨i, -, rfl⟩ := List.mem_map.mp hx
      have hl := (left.getD i 0).toNat_lt
      have hr := (right.getD (k - i) 0).toNat_lt
      exact Nat.mul_le_mul (by omega) (by omega)
    · rw [List.length_map, List.length_range', smul_eq_mul]
      refine Nat.mul_le_mul_right _ ?_
      split_ifs <;> omega
  unfold multColumn
  dsimp only
  rw [nat_foldl_muladd, sum_column hlen]
  rw [sum_column hlen]
  omega

/-- The columns of a list, each a word above the one before. -/
def columnsNat (left right : Vli) (ks : List ℕ) : ℕ :=
  ks.foldr (fun k s => columnSum left right k + 2 ^ 32 * s) 0

theorem multLoop_length (left right : Vli) (ks : List ℕ) (r : MultAcc) :
    (multLoop left right ks r).length = ks.length + 1 := by
  induction ks generalizing r with
  | nil => rfl
  | cons k ks ih => exact congrArg Nat.succ (ih _)

theorem vliNat_multLoop (hlen : left.length = right.length) (hn : left.length < 2 ^ 32 - 1)
    (ks : List ℕ) {r : MultAcc} (hr : r.r2 = 0) :
    vliNat (multLoop left right ks r) =
      (r.nat + columnsNat left right ks) % 2 ^ (32 * (ks.length + 1)) := by
  induction ks generalizing r with
  | nil =>
    have h0 := r.r0.toNat_lt
    show vliNat [r.r0] = (r.nat + 0) % 2 ^ 32
    unfold MultAcc.nat
    rw [vliNat_cons, vliNat_nil, hr]
    show r.r0.toNat + 2 ^ 32 * 0 = (r.r0.toNat + 2 ^ 32 * r.r1.toNat + 2 ^ 64 * 0 + 0) % 2 ^ 32
    omega
  | cons k ks ih =>
    have hcol := nat_multColumn hlen hn k hr
    have hword := (multColumn left right k r).r0.toNat_lt
    have hsplit : (multColumn left right k r).nat = (multColumn left right k r).r0.toNat + 2 ^ 32 *
        (MultAcc.mk (multColumn left right k r).r1 (multColumn left right k r).r2 0).nat := by
      unfold MultAcc.nat
      show _ = _ + 2 ^ 32 * (_ + _ + 2 ^ 64 * 0)
      ring
    have hsum : r.nat + columnsNat left right (k :: ks) = (multColumn left right k r).r0.toNat +
        2 ^ 32 * ((MultAcc.mk (multColumn left right k r).r1 (multColumn left right k r).r2 0).nat +
          columnsNat left right ks) := by
      have hcons : columnsNat left right (k :: ks) =
        columnSum left right k + 2 ^ 32 * columnsNat left right ks := rfl
      rw [hcons, ← add_assoc, ← hcol, hsplit]
      ring
    have hpow : 2 ^ (32 * ((k :: ks).length + 1)) = 2 ^ 32 * 2 ^ (32 * (ks.length + 1)) := by
      rw [List.length_cons, ← pow_add]
      congr 1
      ring
    show vliNat (_ :: multLoop left right ks _) = _
    rw [vliNat_cons, ih rfl, hsum, hpow, Nat.mod_mul, Nat.add_mul_mod_self_left,
      Nat.mod_eq_of_lt hword, Nat.add_mul_div_left _ _ (by norm_num), Nat.div_eq_of_lt hword,
      zero_add]

open Polynomial in
/-- The polynomial with the words as coefficients. -/
noncomputable def vliPoly : Vli → ℕ[X]
  | [] => 0
  | w :: ws => C w.toNat + X * vliPoly ws

theorem coeff_vliPoly (ws : Vli) (i : ℕ) : (vliPoly ws).coeff i = (ws.getD i 0).toNat := by
  induction ws generalizing i with
  | nil => simp [vliPoly]
  | cons w ws ih =>
    cases i with
    | zero => simp [vliPoly]
    | succ i => simp [vliPoly, ih]

theorem eval_vliPoly (ws : Vli) : (vliPoly ws).eval (2 ^ 32) = vliNat ws := by
  induction ws with
  | nil => simp [vliPoly]
  | cons w ws ih =>
    rw [vliPoly, Polynomial.eval_add, Polynomial.eval_C, Polynomial.eval_mul, Polynomial.eval_X, ih,
      vliNat_cons]

theorem natDegree_vliPoly_le (ws : Vli) : (vliPoly ws).natDegree ≤ ws.length - 1 := by
  rw [Polynomial.natDegree_le_iff_coeff_eq_zero]
  intro i hi
  rw [coeff_vliPoly, getD_of_le (by omega)]

theorem columnsNat_range (left right : Vli) (n : ℕ) :
    columnsNat left right (List.range n) =
      ∑ k ∈ Finset.range n, columnSum left right k * (2 ^ 32) ^ k := by
  have hfrom : ∀ s, columnsNat left right (List.range' s n) =
      ∑ k ∈ Finset.range n, columnSum left right (s + k) * (2 ^ 32) ^ k := by
    induction n with
    | zero => exact fun _ => rfl
    | succ n ih =>
      intro s
      show columnSum left right s + 2 ^ 32 * columnsNat left right (List.range' (s + 1) n) = _
      rw [ih, Finset.sum_range_succ', Finset.mul_sum, add_comm, add_zero, pow_zero, mul_one]
      congr 1
      refine Finset.sum_congr rfl fun k _ => ?_
      rw [add_right_comm s 1 k, pow_succ, ← add_assoc]
      ring
  rw [List.range_eq_range', hfrom]
  simp only [zero_add]

/-- The columns are the product. -/
theorem columnsNat_eq_mul (hlen : left.length = right.length) (hpos : 0 < left.length) :
    columnsNat left right (List.range (2 * left.length - 1)) = vliNat left * vliNat right := by
  have hdeg : (vliPoly left * vliPoly right).natDegree < 2 * left.length - 1 := by
    have hl := natDegree_vliPoly_le left
    have hr := natDegree_vliPoly_le right
    have hmul := Polynomial.natDegree_mul_le (p := vliPoly left) (q := vliPoly right)
    omega
  rw [columnsNat_range, ← eval_vliPoly left, ← eval_vliPoly right, ← Polynomial.eval_mul,
    Polynomial.eval_eq_sum_range' hdeg]
  refine Finset.sum_congr rfl fun k _ => ?_
  rw [Polynomial.coeff_mul, Finset.Nat.sum_antidiagonal_eq_sum_range_succ_mk]
  congr 1
  refine Finset.sum_congr rfl fun i _ => ?_
  rw [coeff_vliPoly, coeff_vliPoly]

theorem vliMult_length (hpos : 0 < left.length) :
    (vliMult left right).length = 2 * left.length := by
  unfold vliMult
  rw [multLoop_length, List.length_range]
  omega

theorem vliNat_vliMult (hlen : left.length = right.length) (hpos : 0 < left.length)
    (hn : left.length < 2 ^ 32 - 1) :
    vliNat (vliMult left right) = vliNat left * vliNat right := by
  have hlt : vliNat left * vliNat right < 2 ^ (32 * (2 * left.length)) := by
    have hl := vliNat_lt left
    have hr := vliNat_lt right
    rw [← hlen] at hr
    calc vliNat left * vliNat right < 2 ^ (32 * left.length) * 2 ^ (32 * left.length) :=
          Nat.mul_lt_mul'' hl hr
      _ = 2 ^ (32 * (2 * left.length)) := by rw [← pow_add]; congr 1; ring
  have hcount : 2 * left.length - 1 + 1 = 2 * left.length := by omega
  unfold vliMult
  rw [vliNat_multLoop hlen hn _ rfl, columnsNat_eq_mul hlen hpos, List.length_range, hcount]
  show (0 + vliNat left * vliNat right) % _ = _
  rw [zero_add, Nat.mod_eq_of_lt hlt]

end Product

/-! ## Modulo a number -/

/-- `uECC_vli_modAdd`. -/
def vliModAdd (left right mod : Vli) : Vli :=
  let sum := vliAdd left right
  if sum.2 ≠ 0 ∨ vliCmpUnsafe mod sum.1 ≠ .gt then (vliSub sum.1 mod).1 else sum.1

/-- `uECC_vli_modSub`. -/
def vliModSub (left right mod : Vli) : Vli :=
  let diff := vliSub left right
  if diff.2 ≠ 0 then (vliAdd diff.1 mod).1 else diff.1

section Mod

variable {left right mod : Vli}

theorem vliModAdd_length (hlen : left.length = right.length) (hmod : left.length = mod.length) :
    (vliModAdd left right mod).length = left.length := by
  have hsum := vliAdd_length hlen
  unfold vliModAdd
  dsimp only
  split_ifs
  · rw [vliSub_length (hsum.trans hmod), hsum]
  · exact hsum

theorem vliModSub_length (hlen : left.length = right.length) (hmod : left.length = mod.length) :
    (vliModSub left right mod).length = left.length := by
  have hdiff := vliSub_length hlen
  unfold vliModSub
  dsimp only
  split_ifs
  · rw [vliAdd_length (hdiff.trans hmod), hdiff]
  · exact hdiff

theorem vliNat_vliModAdd (hlen : left.length = right.length) (hmod : left.length = mod.length)
    (hleft : vliNat left < vliNat mod) (hright : vliNat right < vliNat mod) :
    vliNat (vliModAdd left right mod) = (vliNat left + vliNat right) % vliNat mod := by
  obtain ⟨hsum, hcarry⟩ := vliAdd_eq hlen
  have hlen' := vliAdd_length hlen
  have hm := vliNat_lt mod
  rw [← hmod] at hm
  unfold vliModAdd
  dsimp only
  generalize hN : 2 ^ (32 * left.length) = N at hsum hcarry hm
  by_cases hlt : vliNat left + vliNat right < N
  · rw [Nat.mod_eq_of_lt hlt] at hsum
    rw [Nat.div_eq_of_lt hlt] at hcarry
    have hcarry : (vliAdd left right).2 = 0 := UInt32.toNat_inj.mp hcarry
    have hcmp := vliCmpUnsafe_eq (hmod.symm.trans hlen'.symm)
    rw [hcarry, hcmp, hsum]
    by_cases hle : vliNat mod ≤ vliNat left + vliNat right
    · rw [if_pos (.inr (compare_gt_iff_gt.not.mpr (not_lt.mpr hle))),
        (vliSub_of_le (hlen'.trans hmod) (by rw [hsum]; exact hle)).1, hsum, Nat.mod_eq_sub_mod hle,
        Nat.mod_eq_of_lt (by omega)]
    · have hnot : ¬ ((0 : UInt32) ≠ 0 ∨
          compare (vliNat mod) (vliNat left + vliNat right) ≠ .gt) := by
        rw [compare_gt_iff_gt.mpr (not_le.mp hle)]
        simp
      rw [if_neg hnot, hsum, Nat.mod_eq_of_lt (not_le.mp hle)]
  · have hone : (vliNat left + vliNat right) / N = 1 := Nat.div_eq_of_lt_le (by omega) (by omega)
    have hsum : vliNat (vliAdd left right).1 = vliNat left + vliNat right - N := by
      rw [hsum, Nat.mod_eq_sub_mod (not_lt.mp hlt), Nat.mod_eq_of_lt (by omega)]
    rw [hone] at hcarry
    have hcarry : (vliAdd left right).2 = 1 := UInt32.toNat_inj.mp hcarry
    rw [if_pos (.inl (by rw [hcarry]; decide)),
      (vliSub_of_lt (hlen'.trans hmod) (by rw [hsum]; omega)).1, hsum, hlen', hN,
      Nat.mod_eq_sub_mod (by omega), Nat.mod_eq_of_lt (by omega)]
    omega

theorem vliNat_vliModSub (hlen : left.length = right.length) (hmod : left.length = mod.length)
    (hleft : vliNat left < vliNat mod) (hright : vliNat right < vliNat mod) :
    vliNat (vliModSub left right mod) =
      (vliNat left + (vliNat mod - vliNat right)) % vliNat mod := by
  have hlen' := vliSub_length hlen
  have hm := vliNat_lt mod
  rw [← hmod] at hm
  unfold vliModSub
  dsimp only
  rcases lt_or_ge (vliNat left) (vliNat right) with hlt | hle
  · obtain ⟨hdiff, hborrow⟩ := vliSub_of_lt hlen hlt
    rw [hborrow, if_pos (by decide), (vliAdd_eq (hlen'.trans hmod)).1, hdiff, hlen']
    generalize 2 ^ (32 * left.length) = N at hm
    have hwrap : N + vliNat left - vliNat right + vliNat mod =
        vliNat left + (vliNat mod - vliNat right) + N := by omega
    rw [hwrap, Nat.add_mod_right, Nat.mod_eq_of_lt (by omega), Nat.mod_eq_of_lt (by omega)]
  · obtain ⟨hdiff, hborrow⟩ := vliSub_of_le hlen hle
    have hwrap : vliNat left + (vliNat mod - vliNat right) =
        vliNat left - vliNat right + vliNat mod := by omega
    rw [hborrow, if_neg (not_not.mpr rfl), hdiff, hwrap, Nat.add_mod_right,
      Nat.mod_eq_of_lt (by omega)]

end Mod

end River2
