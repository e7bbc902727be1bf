import River2.Bytes
import River2.Vli

/-!
# Bytes (`uECC.c`)

1. `beNat`: the number that bytes are the digits of, the most significant first.
2. `nativeToBytes` and `bytesToNative`: both keep the number, and undo each other.
-/

namespace River2

/-- The number in bytes, the most significant first. -/
def beNat (b : Bytes) : ℕ := Nat.ofDigits 256 (b.reverse.map UInt8.toNat)

theorem beNat_snoc (b : Bytes) (x : UInt8) : beNat (b ++ [x]) = x.toNat + 256 * beNat b := by
  unfold beNat
  rw [List.reverse_append, List.reverse_singleton, List.singleton_append, List.map_cons,
    Nat.ofDigits_cons]

theorem beNat_lt (b : Bytes) : beNat b < 256 ^ b.length := by
  have hlt : ∀ x ∈ b.reverse.map UInt8.toNat, x < 256 := by
    intro x hx
    obtain ⟨v, -, rfl⟩ := List.mem_map.mp hx
    exact v.toNat_lt
  have h := Nat.ofDigits_lt_base_pow_length (by norm_num) hlt
  rwa [List.length_map, List.length_reverse] at h

theorem beNat_inj {b y : Bytes} (hlen : b.length = y.length) (heq : beNat b = beNat y) : b = y := by
  induction b using List.reverseRecOn generalizing y with
  | nil => exact (List.length_eq_zero_iff.mp hlen.symm).symm
  | append_singleton b x ih =>
    rcases List.eq_nil_or_concat y with rfl | ⟨y, z, rfl⟩
    · simp at hlen
    · rw [List.concat_eq_append] at hlen heq ⊢
      rw [beNat_snoc, beNat_snoc] at heq
      have hx := x.toNat_lt
      have hz := z.toNat_lt
      rw [ih (by simpa using hlen) (by omega), UInt8.toNat_inj.mp (by omega : x.toNat = z.toNat)]

/-! ## Words to bytes -/

/-- `native[b / uECC_WORD_SIZE] >> (8 * (b % uECC_WORD_SIZE))`, as a byte. -/
def byteAt (native : Vli) (b : ℕ) : UInt8 :=
  (native.getD (b / 4) 0 >>> (8 * (b % 4)).toUInt32).toUInt8

/-- `uECC_vli_nativeToBytes`. -/
def nativeToBytes (numBytes : ℕ) (native : Vli) : Bytes :=
  (List.range numBytes).map fun i => byteAt native (numBytes - 1 - i)

@[simp] theorem nativeToBytes_length (numBytes : ℕ) (native : Vli) :
    (nativeToBytes numBytes native).length = numBytes := by simp [nativeToBytes]

theorem toNat_eight_mul {r : ℕ} (hr : r < 4) : (8 * r).toUInt32.toNat % 32 = 8 * r := by
  interval_cases r <;> rfl

theorem pow_256 (b : ℕ) : 256 ^ b = 2 ^ (32 * (b / 4)) * 2 ^ (8 * (b % 4)) := by
  have h256 : 256 = 2 ^ 8 := rfl
  rw [h256, ← pow_mul, ← pow_add]
  congr 1
  omega

theorem byteAt_toNat (ws : Vli) (b : ℕ) : (byteAt ws b).toNat = vliNat ws / 256 ^ b % 256 := by
  have hr : 8 * (b % 4) ≤ 24 := by omega
  have hsplit : 2 ^ 32 = 2 ^ (8 * (b % 4)) * (2 ^ (24 - 8 * (b % 4)) * 256) := by
    have h256 : 256 = 2 ^ 8 := rfl
    rw [h256, ← pow_add, ← pow_add]
    congr 1
    omega
  unfold byteAt
  rw [UInt32.toNat_toUInt8, UInt32.toNat_shiftRight, toNat_eight_mul (Nat.mod_lt _ (by norm_num)),
    Nat.shiftRight_eq_div_pow, vliNat_getD, pow_256, ← Nat.div_div_eq_div_mul]
  generalize vliNat ws / 2 ^ (32 * (b / 4)) = n
  show n % 2 ^ 32 / 2 ^ (8 * (b % 4)) % 256 = n / 2 ^ (8 * (b % 4)) % 256
  rw [hsplit, Nat.mod_mul_right_div_self, mul_comm (2 ^ (24 - 8 * (b % 4))),
    Nat.mod_mul_right_mod]

theorem ofDigits_bytes (N n : ℕ) :
    Nat.ofDigits 256 ((List.range n).map fun b => N / 256 ^ b % 256) = N % 256 ^ n := by
  induction n with
  | zero => simp [Nat.mod_one]
  | succ n ih =>
    rw [List.range_succ, List.map_append, Nat.ofDigits_append, ih, List.length_map,
      List.length_range, List.map_singleton, Nat.ofDigits_singleton, Nat.mod_pow_succ]

/-- The bytes hold the number, as far as they reach. -/
theorem beNat_nativeToBytes (numBytes : ℕ) (ws : Vli) :
    beNat (nativeToBytes numBytes ws) = vliNat ws % 256 ^ numBytes := by
  have hrev : (nativeToBytes numBytes ws).reverse = (List.range numBytes).map (byteAt ws) := by
    refine List.ext_getElem (by simp) fun i hi _ => ?_
    have hi : i < numBytes := by simpa using hi
    simp only [nativeToBytes, List.getElem_reverse, List.length_map, List.length_range,
      List.getElem_map, List.getElem_range]
    congr 1
    omega
  unfold beNat
  rw [hrev, List.map_map, ← ofDigits_bytes]
  congr 2
  funext b
  exact byteAt_toNat ws b

/-! ## Bytes to words -/

/-- The body of the loop of `uECC_vli_bytesToNative`. -/
def storeByte (bytes : Bytes) (native : Vli) (i : ℕ) : Vli :=
  let b := bytes.length - 1 - i
  native.modify (b / 4) (· ||| (bytes.getD i 0).toUInt32 <<< (8 * (b % 4)).toUInt32)

/-- `uECC_vli_bytesToNative`. -/
def bytesToNative (bytes : Bytes) : Vli :=
  (List.range bytes.length).foldl (storeByte bytes) (vliClear ((bytes.length + 3) / 4))

theorem vliNat_modify {ws : Vli} {q : ℕ} (hq : q < ws.length) {f : UInt32 → UInt32} {d : ℕ}
    (hf : (f (ws.getD q 0)).toNat = (ws.getD q 0).toNat + d) :
    vliNat (ws.modify q f) = vliNat ws + d * 2 ^ (32 * q) := by
  induction ws generalizing q with
  | nil => simp at hq
  | cons w ws ih =>
    cases q with
    | zero =>
      rw [List.getD_cons_zero] at hf
      rw [List.modify_zero_cons, vliNat_cons, vliNat_cons, hf, mul_zero, pow_zero, mul_one]
      omega
    | succ q =>
      rw [List.getD_cons_succ] at hf
      rw [List.modify_succ_cons, vliNat_cons, vliNat_cons, ih (by simpa using hq) hf]
      ring

theorem or_byte {w : UInt32} {r c : ℕ} (hr : r < 4) (hw : w.toNat = 2 ^ (8 * (r + 1)) * c)
    (x : UInt8) :
    (w ||| x.toUInt32 <<< (8 * r).toUInt32).toNat = w.toNat + x.toNat * 2 ^ (8 * r) := by
  have hx := x.toNat_lt
  have hlt : x.toNat * 2 ^ (8 * r) < 2 ^ (8 * (r + 1)) := by
    rw [mul_add, pow_add, mul_comm]
    exact Nat.mul_lt_mul_of_pos_left hx (by positivity)
  have hle : 2 ^ (8 * (r + 1)) ≤ 2 ^ 32 := Nat.pow_le_pow_right two_pos (by omega)
  have hshift : (x.toUInt32 <<< (8 * r).toUInt32).toNat = x.toNat * 2 ^ (8 * r) := by
    rw [UInt32.toNat_shiftLeft, toNat_eight_mul hr, UInt8.toNat_toUInt32, Nat.shiftLeft_eq]
    exact Nat.mod_eq_of_lt (hlt.trans_le hle)
  rw [UInt32.toNat_or, hshift, hw, ← Nat.two_pow_add_eq_or_of_lt hlt]

theorem vliNat_storeByte {ws : Vli} {bytes : Bytes} {i V : ℕ} (hi : i < bytes.length)
    (hlen : ws.length = (bytes.length + 3) / 4)
    (hV : vliNat ws = V * 256 ^ (bytes.length - i)) :
    vliNat (storeByte bytes ws i) =
      ((bytes.getD i 0).toNat + 256 * V) * 256 ^ (bytes.length - (i + 1)) := by
  obtain ⟨b, hb⟩ : ∃ b, b = bytes.length - 1 - i := ⟨_, rfl⟩
  have hsub : bytes.length - i = b + 1 := by omega
  have hsub' : bytes.length - (i + 1) = b := by omega
  have hr : b % 4 < 4 := Nat.mod_lt _ (by norm_num)
  rw [hsub] at hV
  -- the word of the byte has only digits above it
  have hword : (ws.getD (b / 4) 0).toNat =
      2 ^ (8 * (b % 4 + 1)) * (V % 2 ^ (24 - 8 * (b % 4))) := by
    have hfold : V * 256 ^ (b + 1) = 2 ^ (32 * (b / 4)) * (2 ^ (8 * (b % 4 + 1)) * V) := by
      rw [pow_succ, pow_256, mul_add, pow_add]
      ring
    have h32 : 2 ^ 32 = 2 ^ (8 * (b % 4 + 1)) * 2 ^ (24 - 8 * (b % 4)) := by
      rw [← pow_add]
      congr 1
      omega
    rw [vliNat_getD, hV, hfold, Nat.mul_div_cancel_left _ (by positivity), h32,
      Nat.mul_mod_mul_left]
  have hmodify := vliNat_modify (f := (· ||| (bytes.getD i 0).toUInt32 <<< (8 * (b % 4)).toUInt32))
    (q := b / 4) (by omega) (or_byte hr hword (bytes.getD i 0))
  unfold storeByte
  dsimp only
  rw [← hb, hmodify, hV, hsub', pow_succ, mul_assoc _ (2 ^ (8 * (b % 4))),
    mul_comm (2 ^ (8 * (b % 4))), ← pow_256]
  ring

theorem storeByte_length (bytes : Bytes) (ws : Vli) (i : ℕ) :
    (storeByte bytes ws i).length = ws.length := List.length_modify ..

theorem bytesToNative_eq (bytes : Bytes) :
    (bytesToNative bytes).length = (bytes.length + 3) / 4 ∧
      vliNat (bytesToNative bytes) = beNat bytes := by
  have hloop : ∀ t ≤ bytes.length,
      ((List.range t).foldl (storeByte bytes) (vliClear ((bytes.length + 3) / 4))).length =
        (bytes.length + 3) / 4 ∧
      vliNat ((List.range t).foldl (storeByte bytes) (vliClear ((bytes.length + 3) / 4))) =
        beNat (bytes.take t) * 256 ^ (bytes.length - t) := by
    intro t ht
    induction t with
    | zero => exact ⟨List.length_replicate, by simp [vliNat_vliClear, beNat]⟩
    | succ t ih =>
      obtain ⟨hlen, hnat⟩ := ih (by omega)
      have hget : bytes[t]? = some (bytes.getD t 0) := by
        rw [List.getD_eq_getElem?_getD, List.getElem?_eq_getElem (by omega), Option.getD_some]
      rw [List.range_succ, List.foldl_concat, storeByte_length, hlen,
        vliNat_storeByte (by omega) hlen hnat, List.take_add_one, hget, Option.toList_some,
        beNat_snoc]
      exact ⟨rfl, rfl⟩
  obtain ⟨hlen, hnat⟩ := hloop bytes.length le_rfl
  rw [List.take_length, Nat.sub_self, pow_zero, mul_one] at hnat
  exact ⟨hlen, hnat⟩

/-- Bytes come back. -/
theorem nativeToBytes_bytesToNative (bytes : Bytes) :
    nativeToBytes bytes.length (bytesToNative bytes) = bytes := by
  refine beNat_inj (nativeToBytes_length _ _) ?_
  rw [beNat_nativeToBytes, (bytesToNative_eq bytes).2, Nat.mod_eq_of_lt (beNat_lt bytes)]

/-- So do words, where the bytes fill them but for zeros. -/
theorem bytesToNative_nativeToBytes {ws : Vli} {numBytes : ℕ}
    (hlen : (numBytes + 3) / 4 = ws.length) (hlt : vliNat ws < 256 ^ numBytes) :
    bytesToNative (nativeToBytes numBytes ws) = ws := by
  obtain ⟨hlen', hnat⟩ := bytesToNative_eq (nativeToBytes numBytes ws)
  rw [nativeToBytes_length] at hlen'
  refine vliNat_inj (hlen'.trans hlen) ?_
  rw [hnat, beNat_nativeToBytes, Nat.mod_eq_of_lt hlt]

end River2
