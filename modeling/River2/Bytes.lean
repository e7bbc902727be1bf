import Mathlib

/-!
# Bytes

Byte strings, the little-endian 16-bit words of the wire formats, fixed-size byte arrays, and the
`size_t` of the target.
-/

namespace River2

/-- The contents of a byte array. -/
abbrev Bytes := List UInt8

/-- A `uint8_t [n]`. -/
abbrev Octets (n : ℕ) := { b : Bytes // b.length = n }

/-- Arithmetic in `size_t`, 32 bits wide on the target. -/
def sizeT (n : ℕ) : ℕ := n % 2 ^ 32

theorem sizeT_of_lt {n : ℕ} (h : n < 2 ^ 32) : sizeT n = n := Nat.mod_eq_of_lt h

/-- The bytes `b[i], …, b[i + n - 1]`. -/
def slice (b : Bytes) (i n : ℕ) : Bytes := (b.drop i).take n

theorem slice_length {b : Bytes} {i n : ℕ} (h : i + n ≤ b.length) : (slice b i n).length = n := by
  unfold slice
  rw [List.length_take, List.length_drop]
  omega

theorem slice_append_left {b y : Bytes} {i n : ℕ} (h : i + n ≤ b.length) :
    slice (b ++ y) i n = slice b i n := by
  unfold slice
  rw [List.drop_append_of_le_length (by omega),
    List.take_append_of_le_length (by rw [List.length_drop]; omega)]

theorem slice_append_right (a b y : Bytes) : slice (a ++ b ++ y) a.length b.length = b := by
  unfold slice
  rw [List.append_assoc, List.drop_left, List.take_left]

theorem getD_append_left {b y : Bytes} {i : ℕ} (h : i < b.length) :
    (b ++ y).getD i 0 = b.getD i 0 := by
  rw [List.getD_eq_getElem?_getD, List.getD_eq_getElem?_getD, List.getElem?_append_left h]

theorem getD_drop (b : Bytes) (n i : ℕ) : (b.drop n).getD i 0 = b.getD (n + i) 0 := by
  rw [List.getD_eq_getElem?_getD, List.getD_eq_getElem?_getD, List.getElem?_drop]

/-! ## Little-endian words -/

/-- `rd_u16le(&p[i])`. -/
def rdU16le (p : Bytes) (i : ℕ) : UInt16 :=
  (p.getD i 0).toUInt16 ||| ((p.getD (i + 1) 0).toUInt16 <<< 8)

/-- The two bytes `wr_u16le` stores. -/
def wrU16le (v : UInt16) : Bytes := [(v &&& 0xFF).toUInt8, (v >>> 8).toUInt8]

@[simp] theorem wrU16le_length (v : UInt16) : (wrU16le v).length = 2 := rfl

theorem rdU16le_toNat (p : Bytes) (i : ℕ) :
    (rdU16le p i).toNat = (p.getD i 0).toNat + 256 * (p.getD (i + 1) 0).toNat := by
  have hlo := (p.getD i 0).toNat_lt
  have hhi := (p.getD (i + 1) 0).toNat_lt
  unfold rdU16le
  rw [UInt16.toNat_or, UInt16.toNat_shiftLeft, UInt8.toNat_toUInt16, UInt8.toNat_toUInt16,
    show (8 : UInt16).toNat % 16 = 8 from rfl,
    Nat.mod_eq_of_lt (by rw [Nat.shiftLeft_eq]; omega), Nat.lor_comm,
    ← Nat.shiftLeft_add_eq_or_of_lt hlo, Nat.shiftLeft_eq]
  omega

theorem rdU16le_toNat_mod (p : Bytes) (i : ℕ) : (rdU16le p i).toNat % 256 = (p.getD i 0).toNat := by
  have hlo := (p.getD i 0).toNat_lt
  rw [rdU16le_toNat]
  omega

theorem lowByte_toNat (v : UInt16) : ((v &&& 0xFF).toUInt8).toNat = v.toNat % 256 := by
  rw [UInt16.toNat_toUInt8, UInt16.toNat_and, show (0xFF : UInt16).toNat = 2 ^ 8 - 1 from rfl,
    Nat.and_two_pow_sub_one_eq_mod]
  omega

theorem highByte_toNat (v : UInt16) : ((v >>> 8).toUInt8).toNat = v.toNat / 256 := by
  have hv := v.toNat_lt
  rw [UInt16.toNat_toUInt8, UInt16.toNat_shiftRight, show (8 : UInt16).toNat % 16 = 8 from rfl,
    Nat.shiftRight_eq_div_pow]
  omega

theorem rdU16le_append_left {b y : Bytes} {i : ℕ} (h : i + 2 ≤ b.length) :
    rdU16le (b ++ y) i = rdU16le b i := by
  unfold rdU16le
  rw [getD_append_left (by omega), getD_append_left (by omega)]

theorem rdU16le_drop (b : Bytes) (n i : ℕ) : rdU16le (b.drop n) i = rdU16le b (n + i) := by
  unfold rdU16le
  rw [getD_drop, getD_drop, Nat.add_assoc]

theorem rdU16le_wrU16le (a y : Bytes) (v : UInt16) :
    rdU16le (a ++ wrU16le v ++ y) a.length = v := by
  have h0 : (a ++ wrU16le v ++ y).getD a.length 0 = (v &&& 0xFF).toUInt8 := by
    simp [wrU16le, List.getD_eq_getElem?_getD]
  have h1 : (a ++ wrU16le v ++ y).getD (a.length + 1) 0 = (v >>> 8).toUInt8 := by
    simp [wrU16le, List.getD_eq_getElem?_getD]
  apply UInt16.toNat_inj.mp
  rw [rdU16le_toNat, h0, h1, lowByte_toNat, highByte_toNat]
  omega

theorem rdU16le_trailer (a : Bytes) (v : UInt16) : rdU16le (a ++ wrU16le v) a.length = v := by
  have h := rdU16le_wrU16le a [] v
  rwa [List.append_nil] at h

/-- A word read and written again is its two bytes. -/
theorem wrU16le_rdU16le (p : Bytes) (i : ℕ) :
    wrU16le (rdU16le p i) = [p.getD i 0, p.getD (i + 1) 0] := by
  have hlo := (p.getD i 0).toNat_lt
  have hhi := (p.getD (i + 1) 0).toNat_lt
  unfold wrU16le
  congr 1
  · apply UInt8.toNat_inj.mp
    rw [lowByte_toNat, rdU16le_toNat]
    omega
  · congr 1
    apply UInt8.toNat_inj.mp
    rw [highByte_toNat, rdU16le_toNat]
    omega

end River2
