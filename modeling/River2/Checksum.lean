import River2.Crc
import River2.Library.Remainder

/-!
# What the checksums compute

Both checksums of `river2_crc.c` are remainders over GF(2).

1. One round of `build_tables` is one clock of a division register (`crc8Shift_toBitVec`,
   `crc16Shift_toBitVec`), CRC-8 most significant bit first, CRC-16 least significant bit first.
2. One table lookup is eight clocks, for every register and every byte (`crc8_byte`, `crc16_byte`).
3. By induction over the message `crc8_bits`, `crc16_bits`: the register of the code holds the
   bit-serial remainder.
-/

namespace River2

open Polynomial

/-- The bits of a message, each byte's most significant first. -/
def msbBits (m : Bytes) : List Bool := m.flatMap fun b => Gf2.msbFirst b.toBitVec

/-- The bits of a message, each byte's least significant first. -/
def lsbBits (m : Bytes) : List Bool := m.flatMap fun b => Gf2.lsbFirst b.toBitVec

/-- The polynomial `0x07`, highest power first. -/
def crc8Gen : List Bool := Gf2.msbFirst (0x07 : BitVec 8)

/-- The polynomial `0x8005`, highest power first. -/
def crc16Gen : List Bool := Gf2.msbFirst (0x8005 : BitVec 16)

@[simp] theorem crc8Gen_length : crc8Gen.length = 8 := Gf2.msbFirst_length _

@[simp] theorem crc16Gen_length : crc16Gen.length = 16 := Gf2.msbFirst_length _

/-- The constant of the code is the polynomial read backwards. -/
theorem crc16Gen_reflected : crc16Gen = Gf2.lsbFirst (0xA001 : BitVec 16) := by decide

theorem msbBits_append (a b : Bytes) : msbBits (a ++ b) = msbBits a ++ msbBits b :=
  List.flatMap_append

theorem lsbBits_append (a b : Bytes) : lsbBits (a ++ b) = lsbBits a ++ lsbBits b :=
  List.flatMap_append

theorem lsbBits_length (m : Bytes) : (lsbBits m).length = 8 * m.length := by
  induction m with
  | nil => rfl
  | cons b m ih =>
    rw [show b :: m = [b] ++ m from rfl, lsbBits_append, List.length_append, ih,
      show lsbBits [b] = Gf2.lsbFirst b.toBitVec from List.append_nil _, Gf2.lsbFirst_length,
      List.length_append, List.length_singleton]
    omega

/-! ## One round of `build_tables` -/

theorem crc8Shift_toBitVec (crc : UInt8) :
    (crc8Shift crc).toBitVec = Gf2.shiftLeft 0x07 crc.toBitVec := by
  have htop : (crc &&& 0x80).toBitVec =
      if crc.toBitVec.getLsbD 7 then BitVec.twoPow 8 7 else 0#8 := by
    rw [UInt8.toBitVec_and]
    exact BitVec.and_twoPow crc.toBitVec 7
  unfold crc8Shift Gf2.shiftLeft
  rw [BitVec.getMsbD_eq_getLsbD]
  cases hbit : crc.toBitVec.getLsbD 7 <;> rw [hbit] at htop
  · have hzero : crc &&& 0x80 = 0 := UInt8.toBitVec_inj.mp htop
    rw [if_neg (by rw [hzero]; exact not_not_intro rfl)]
    simp
  · have hset : crc &&& 0x80 ≠ 0 := fun h => by rw [h] at htop; exact absurd htop (by decide)
    rw [if_pos hset]
    simp

theorem crc16Shift_toBitVec (crc : UInt16) :
    (crc16Shift crc).toBitVec = Gf2.shiftRight 0xA001 crc.toBitVec := by
  have hlow : (crc &&& 1).toBitVec =
      if crc.toBitVec.getLsbD 0 then BitVec.twoPow 16 0 else 0#16 := by
    rw [UInt16.toBitVec_and]
    exact BitVec.and_twoPow crc.toBitVec 0
  unfold crc16Shift Gf2.shiftRight
  cases hbit : crc.toBitVec.getLsbD 0 <;> rw [hbit] at hlow
  · have hzero : crc &&& 1 = 0 := UInt16.toBitVec_inj.mp hlow
    rw [if_neg (by rw [hzero]; exact not_not_intro rfl)]
    simp
  · have hset : crc &&& 1 ≠ 0 := fun h => by rw [h] at hlow; exact absurd hlow (by decide)
    rw [if_pos hset]
    simp

theorem crc8Shift_iterate_toBitVec (crc : UInt8) (n : ℕ) :
    (crc8Shift^[n] crc).toBitVec = (Gf2.shiftLeft 0x07)^[n] crc.toBitVec :=
  Function.Semiconj.iterate_right crc8Shift_toBitVec n crc

theorem crc16Shift_iterate_toBitVec (crc : UInt16) (n : ℕ) :
    (crc16Shift^[n] crc).toBitVec = (Gf2.shiftRight 0xA001)^[n] crc.toBitVec :=
  Function.Semiconj.iterate_right crc16Shift_toBitVec n crc

/-! ## One table lookup -/

theorem getD_map_range {α : Type*} (f : ℕ → α) (d : α) {n i : ℕ} (hi : i < n) :
    ((List.range n).map f).getD i d = f i := by
  rw [List.getD_eq_getElem _ _ (by rwa [List.length_map, List.length_range]), List.getElem_map,
    List.getElem_range]

theorem crc8Table_getD (i : UInt8) : crc8Table.getD i.toNat 0 = crc8Shift^[8] i := by
  have h := getD_map_range crc8Entry 0 i.toNat_lt
  rwa [crc8Entry, UInt8.ofNat_toNat] at h

theorem crc16Table_getD {i : UInt16} (hi : i.toNat < 256) :
    crc16Table.getD i.toNat 0 = crc16Shift^[8] i := by
  have h := getD_map_range crc16Entry 0 hi
  rwa [crc16Entry, UInt16.ofNat_toNat] at h

/-- **One byte of CRC-8**: a lookup is eight clocks of the division register. -/
theorem crc8_byte (crc b : UInt8) :
    Gf2.msbFirst (crc8Table.getD (crc ^^^ b).toNat 0).toBitVec =
      (Gf2.msbFirst b.toBitVec).foldl (Gf2.step crc8Gen) (Gf2.msbFirst crc.toBitVec) := by
  rw [crc8Table_getD, crc8Shift_iterate_toBitVec, UInt8.toBitVec_xor,
    Gf2.msbFirst_shiftLeft_iterate, Gf2.msbFirst_xor,
    Gf2.foldl_step (Gf2.msbFirst b.toBitVec) 0 (by simp) (by simp),
    show Gf2.zeros 0 = [] from rfl, List.append_nil, Gf2.msbFirst_length]
  rfl

theorem toUInt16_getLsbD (b : UInt8) (i : ℕ) :
    b.toUInt16.toBitVec.getLsbD i = b.toBitVec.getLsbD i := by
  show (b.toBitVec.setWidth 16).getLsbD i = _
  rw [BitVec.getLsbD_setWidth, Bool.and_eq_right_iff_imp]
  intro hbit
  have := BitVec.lt_of_getLsbD hbit
  exact decide_eq_true (by omega)

theorem lsbFirst_toUInt16 (b : UInt8) :
    Gf2.lsbFirst b.toUInt16.toBitVec = Gf2.lsbFirst b.toBitVec ++ Gf2.zeros 8 := by
  unfold Gf2.lsbFirst
  have hhigh : ∀ i < 8, b.toUInt16.toBitVec.getLsbD (8 + i) = false := by
    intro i _
    rw [toUInt16_getLsbD]
    exact BitVec.getLsbD_of_ge _ _ (Nat.le_add_right 8 i)
  rw [Gf2.readBits_split (show 16 = 8 + 8 from rfl), Gf2.readBits_congr hhigh, Gf2.readBits_false,
    Gf2.readBits_congr fun i _ => toUInt16_getLsbD b i]

/-- **One byte of CRC-16**: a lookup, with the rest of the register moved down, is eight clocks. -/
theorem crc16_byte (crc : UInt16) (b : UInt8) :
    Gf2.lsbFirst
        (crc16Table.getD ((crc ^^^ b.toUInt16) &&& 0xFF).toNat 0 ^^^ (crc >>> 8)).toBitVec =
      (Gf2.lsbFirst b.toBitVec).foldl (Gf2.step crc16Gen) (Gf2.lsbFirst crc.toBitVec) := by
  have hlt : ((crc ^^^ b.toUInt16) &&& 0xFF).toNat < 256 := by
    rw [UInt16.toNat_and, show (0xFF : UInt16).toNat = 2 ^ 8 - 1 from rfl,
      Nat.and_two_pow_sub_one_eq_mod]
    exact Nat.mod_lt _ (by norm_num)
  have hmask : ∀ i, (0xFF : UInt16).toBitVec.getLsbD i = decide (i < 8) :=
    fun i => Nat.testBit_two_pow_sub_one 8 i
  have hdown : (crc >>> 8).toBitVec = (crc ^^^ b.toUInt16).toBitVec >>> 8 := by
    apply BitVec.eq_of_getLsbD_eq
    intro i _
    show (crc.toBitVec >>> 8).getLsbD i = _
    rw [UInt16.toBitVec_xor, BitVec.getLsbD_ushiftRight, BitVec.getLsbD_ushiftRight,
      BitVec.getLsbD_xor, toUInt16_getLsbD, BitVec.getLsbD_of_ge b.toBitVec _ (by omega),
      Bool.xor_false]
  have hlow : ∀ i < 8, ((crc ^^^ b.toUInt16) &&& 0xFF).toBitVec.getLsbD i =
      (crc ^^^ b.toUInt16).toBitVec.getLsbD i := by
    intro i hi
    rw [UInt16.toBitVec_and, BitVec.getLsbD_and, hmask, decide_eq_true hi, Bool.and_true]
  have hhigh : ∀ i, 8 ≤ i → ((crc ^^^ b.toUInt16) &&& 0xFF).toBitVec.getLsbD i = false := by
    intro i hi
    rw [UInt16.toBitVec_and, BitVec.getLsbD_and, hmask, decide_eq_false (by omega), Bool.and_false]
  have hsplit := Gf2.shiftRight_iterate_split (p := 0xA001) (by norm_num) hlow hhigh
  have hxor : Gf2.lsbFirst (crc ^^^ b.toUInt16).toBitVec =
      Gf2.diff (Gf2.lsbFirst crc.toBitVec) (Gf2.lsbFirst b.toBitVec ++ Gf2.zeros 8) := by
    rw [UInt16.toBitVec_xor, Gf2.lsbFirst_xor, lsbFirst_toUInt16]
  rw [crc16Table_getD hlt, UInt16.toBitVec_xor, crc16Shift_iterate_toBitVec, hdown, ← hsplit,
    Gf2.lsbFirst_shiftRight_iterate, hxor, ← crc16Gen_reflected,
    Gf2.foldl_step (Gf2.lsbFirst b.toBitVec) 8 (by simp) (by simp), Gf2.lsbFirst_length]

/-! ## A whole message -/

theorem crc8_foldl (m : Bytes) (crc : UInt8) :
    Gf2.msbFirst (m.foldl (fun crc b => crc8Table.getD (crc ^^^ b).toNat 0) crc).toBitVec =
      (msbBits m).foldl (Gf2.step crc8Gen) (Gf2.msbFirst crc.toBitVec) := by
  induction m generalizing crc with
  | nil => rfl
  | cons b m ih =>
    rw [List.foldl_cons, ih, crc8_byte, ← List.foldl_append]
    rfl

theorem crc16_foldl (m : Bytes) (crc : UInt16) :
    Gf2.lsbFirst (m.foldl (fun (crc : UInt16) b =>
        crc16Table.getD ((crc ^^^ b.toUInt16) &&& 0xFF).toNat 0 ^^^ (crc >>> 8)) crc).toBitVec =
      (lsbBits m).foldl (Gf2.step crc16Gen) (Gf2.lsbFirst crc.toBitVec) := by
  induction m generalizing crc with
  | nil => rfl
  | cons b m ih =>
    rw [List.foldl_cons, ih, crc16_byte, ← List.foldl_append]
    rfl

/-- CRC-8 is the bit-serial remainder, most significant bits first. -/
theorem crc8_bits (m : Bytes) :
    Gf2.msbFirst (crc8 m).toBitVec = Gf2.serial crc8Gen (msbBits m) := by
  rw [crc8, crc8_foldl, show Gf2.msbFirst (0x00 : UInt8).toBitVec = Gf2.zeros 8 from rfl,
    Gf2.serial, crc8Gen_length]

/-- CRC-16 is the bit-serial remainder, least significant bits first. -/
theorem crc16_bits (m : Bytes) :
    Gf2.lsbFirst (crc16 m).toBitVec = Gf2.serial crc16Gen (lsbBits m) := by
  rw [crc16, crc16_foldl, show Gf2.lsbFirst (0x0000 : UInt16).toBitVec = Gf2.zeros 16 from rfl,
    Gf2.serial, crc16Gen_length]

theorem lsbBits_wrU16le (v : UInt16) : lsbBits (wrU16le v) = Gf2.lsbFirst v.toBitVec := by
  have hlow : ∀ i < 8, ((v &&& 0xFF).toUInt8).toBitVec.getLsbD i = v.toBitVec.getLsbD i := by
    intro i hi
    have hmask : (0xFF : UInt16).toBitVec.getLsbD i = decide (i < 8) :=
      Nat.testBit_two_pow_sub_one 8 i
    show ((v &&& 0xFF).toBitVec.setWidth 8).getLsbD i = _
    rw [BitVec.getLsbD_setWidth, UInt16.toBitVec_and, BitVec.getLsbD_and, hmask, decide_eq_true hi,
      Bool.and_true, Bool.true_and]
  have hhigh : ∀ i < 8, ((v >>> 8).toUInt8).toBitVec.getLsbD i = v.toBitVec.getLsbD (8 + i) := by
    intro i hi
    show ((v.toBitVec >>> 8).setWidth 8).getLsbD i = _
    rw [BitVec.getLsbD_setWidth, BitVec.getLsbD_ushiftRight, decide_eq_true hi, Bool.true_and]
  show Gf2.readBits 8 _ ++ (Gf2.readBits 8 _ ++ []) = Gf2.readBits 16 _
  rw [List.append_nil, Gf2.readBits_split (show 16 = 8 + 8 from rfl), Gf2.readBits_congr hlow,
    Gf2.readBits_congr hhigh]

/-! ## The polynomials -/

theorem modulus_crc8Gen : Gf2.modulus crc8Gen = X ^ 8 + X ^ 2 + X + 1 := by
  have h : crc8Gen = [false, false, false, false, false, true, true, true] := by decide
  rw [h]
  simp [Gf2.modulus, Gf2.poly, Gf2.coef]
  ring

theorem modulus_crc16Gen : Gf2.modulus crc16Gen = X ^ 16 + X ^ 15 + X ^ 2 + 1 := by
  have h : crc16Gen = [true, false, false, false, false, false, false, false, false, false, false,
    false, false, true, false, true] := by decide
  rw [h]
  simp [Gf2.modulus, Gf2.poly, Gf2.coef]
  ring

/-- **Checksums are remainders.** Both table-driven checksums are the bit-serial ones, that is
remainders over GF(2), and the checksum of a message with its own checksum behind it is zero. -/
theorem checksums_are_remainders (m : Bytes) :
    (Gf2.lsbFirst (crc16 m).toBitVec = Gf2.serial crc16Gen (lsbBits m) ∧
      Gf2.poly (Gf2.lsbFirst (crc16 m).toBitVec) =
        (Gf2.poly (lsbBits m) * X ^ 16) %ₘ (X ^ 16 + X ^ 15 + X ^ 2 + 1)) ∧
    (Gf2.msbFirst (crc8 m).toBitVec = Gf2.serial crc8Gen (msbBits m) ∧
      Gf2.poly (Gf2.msbFirst (crc8 m).toBitVec) =
        (Gf2.poly (msbBits m) * X ^ 8) %ₘ (X ^ 8 + X ^ 2 + X + 1)) ∧
    crc16 (m ++ wrU16le (crc16 m)) = 0 ∧ crc8 (m ++ [crc8 m]) = 0 := by
  have h16 : crc16Gen ≠ [] := List.ne_nil_of_length_pos (by rw [crc16Gen_length]; norm_num)
  have h8 : crc8Gen ≠ [] := List.ne_nil_of_length_pos (by rw [crc8Gen_length]; norm_num)
  refine ⟨⟨crc16_bits m, ?_⟩, ⟨crc8_bits m, ?_⟩, ?_, ?_⟩
  · rw [crc16_bits, Gf2.poly_serial h16, crc16Gen_length, modulus_crc16Gen]
  · rw [crc8_bits, Gf2.poly_serial h8, crc8Gen_length, modulus_crc8Gen]
  · apply UInt16.toBitVec_inj.mp
    apply Gf2.lsbFirst_injective
    rw [crc16_bits, lsbBits_append, lsbBits_wrU16le, crc16_bits, Gf2.serial_append_serial,
      crc16Gen_length]
    rfl
  · apply UInt8.toBitVec_inj.mp
    apply Gf2.msbFirst_injective
    rw [crc8_bits, msbBits_append, show msbBits [crc8 m] = Gf2.msbFirst (crc8 m).toBitVec from
      List.append_nil _, crc8_bits, Gf2.serial_append_serial, crc8Gen_length]
    rfl

end River2
