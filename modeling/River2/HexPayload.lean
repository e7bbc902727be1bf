import River2.Auth

/-!
# The hex encoding of the digest runs over its buffer

Step 4 of `river2_auth_run` prints the digest into `hex_payload[32]`, two digits at a time and each
time with the NUL that `snprintf` puts behind them. `hexStores` are the stores, in order; the last
NUL goes to index 32, whatever the digest. The 32 bytes of the array end up right all the same.
-/

namespace River2

/-- The stores of `snprintf(&buf[i], n, …)` that prints `text`: what fits of it, and a NUL. -/
def snprintf (i n : ℕ) (text : Bytes) : List (ℕ × UInt8) :=
  if n = 0 then [] else (text.take (n - 1) ++ [0]).mapIdx fun j b => (i + j, b)

/-- `"%02X"` of a byte. -/
def upperHex (b : UInt8) : Bytes := [hexDigit (b >>> 4), hexDigit (b &&& 0x0F)]

/-- The stores of the loop that fills `hex_payload`. -/
def hexStores (digest : Bytes) : List (ℕ × UInt8) :=
  (List.range 16).flatMap fun i => snprintf (i * 2) 3 (upperHex (digest.getD i 0))

/-- The memory from the array's first byte on, after some stores. -/
def storeAll (mem : ℕ → UInt8) (stores : List (ℕ × UInt8)) : ℕ → UInt8 :=
  stores.foldl (fun m st => Function.update m st.1 st.2) mem

/-- The value of an uppercase hex digit. -/
def hexValue (c : UInt8) : Option UInt8 :=
  if 0x30 ≤ c ∧ c ≤ 0x39 then some (c - 0x30)
  else if 0x41 ≤ c ∧ c ≤ 0x46 then some (c - 0x37)
  else none

/-- Pairs of uppercase hex digits. -/
def hexDecode : Bytes → Option Bytes
  | [] => some []
  | [_] => none
  | hi :: lo :: rest => do
    let h ← hexValue hi
    let l ← hexValue lo
    let bytes ← hexDecode rest
    return ((h <<< 4) ||| l) :: bytes

/-- The encoding stays in an array of 32 bytes, and leaves there 32 uppercase hex digits that
decode back to the digest. -/
def HexInBuffer (digest : Octets 16) (mem : ℕ → UInt8) : Prop :=
  (∀ st ∈ hexStores digest.1, st.1 < 32) ∧
    hexDecode ((List.range 32).map (storeAll mem (hexStores digest.1))) = some digest.1

theorem upperHex_decodes (b : UInt8) :
    hexValue (hexDigit (b >>> 4)) = some (b >>> 4) ∧
      hexValue (hexDigit (b &&& 0x0F)) = some (b &&& 0x0F) ∧
      ((b >>> 4) <<< 4) ||| (b &&& 0x0F) = b := by
  revert b
  decide +kernel

theorem hexDecode_hexPayload (digest : Bytes) : hexDecode (hexPayload digest) = some digest := by
  induction digest with
  | nil => rfl
  | cons b digest ih =>
    obtain ⟨hhi, hlo, hb⟩ := upperHex_decodes b
    show hexDecode (hexDigit (b >>> 4) :: hexDigit (b &&& 0x0F) :: hexPayload digest) = _
    unfold hexDecode
    rw [hhi, hlo, ih]
    show some (((b >>> 4) <<< 4 ||| (b &&& 0x0F)) :: digest) = _
    rw [hb]

theorem hexPayload_getD {digest : Bytes} {i : ℕ} (hi : i < digest.length) :
    (hexPayload digest).getD (2 * i) 0 = hexDigit (digest.getD i 0 >>> 4) ∧
      (hexPayload digest).getD (2 * i + 1) 0 = hexDigit (digest.getD i 0 &&& 0x0F) := by
  induction digest generalizing i with
  | nil => exact absurd hi (Nat.not_lt_zero i)
  | cons b digest ih =>
    cases i with
    | zero => exact ⟨rfl, rfl⟩
    | succ i => exact ih (Nat.lt_of_succ_lt_succ hi)

/-! ## The loop -/

theorem snprintf_upperHex (i : ℕ) (b : UInt8) :
    snprintf i 3 (upperHex b) =
      [(i, hexDigit (b >>> 4)), (i + 1, hexDigit (b &&& 0x0F)), (i + 2, 0)] := rfl

theorem storeAll_append (mem : ℕ → UInt8) (st st' : List (ℕ × UInt8)) :
    storeAll mem (st ++ st') = storeAll (storeAll mem st) st' := List.foldl_append

/-- The stores of the first rounds leave the first digits of the text: each NUL is overwritten by
the next round. -/
theorem storeAll_rounds {digest : Bytes} (mem : ℕ → UInt8) (n : ℕ) (hn : n ≤ digest.length) :
    ∀ j < 2 * n, storeAll mem ((List.range n).flatMap fun i =>
      snprintf (i * 2) 3 (upperHex (digest.getD i 0))) j = (hexPayload digest).getD j 0 := by
  induction n with
  | zero => exact fun j hj => absurd hj (Nat.not_lt_zero j)
  | succ n ih =>
    intro j hj
    obtain ⟨hhi, hlo⟩ := hexPayload_getD (show n < digest.length by omega)
    rw [List.range_succ, List.flatMap_append, storeAll_append,
      show ([n].flatMap fun i => snprintf (i * 2) 3 (upperHex (digest.getD i 0))) =
        snprintf (n * 2) 3 (upperHex (digest.getD n 0)) from List.append_nil _, snprintf_upperHex]
    show Function.update
      (Function.update (Function.update _ (n * 2) _) (n * 2 + 1) _) (n * 2 + 2) 0 j = _
    rw [Function.update_of_ne (by omega)]
    by_cases h1 : j = n * 2 + 1
    · rw [h1, Function.update_self, Nat.mul_comm n 2, hlo]
    rw [Function.update_of_ne h1]
    by_cases h0 : j = n * 2
    · rw [h0, Function.update_self, Nat.mul_comm n 2, hhi]
    rw [Function.update_of_ne h0]
    exact ih (by omega) j (by omega)

/-- The array's bytes after the loop are the payload that is sent. -/
theorem storeAll_hexStores (digest : Octets 16) (mem : ℕ → UInt8) :
    (List.range 32).map (storeAll mem (hexStores digest.1)) = hexPayload digest.1 := by
  have hlen := hexPayload_length digest
  apply List.ext_getElem
  · rw [List.length_map, List.length_range, hlen]
  · intro j hj hj'
    rw [hlen] at hj'
    rw [List.getElem_map, List.getElem_range, ← List.getD_eq_getElem _ 0]
    exact storeAll_rounds mem 16 digest.2.ge j (by omega)

/-- **The last NUL runs over.** Whatever the digest, the encoding does not stay in its array: the
store at index 32, a NUL, is its only one outside, and the 32 bytes inside are the digest's text. -/
theorem hexPayload_runs_over (digest : Octets 16) (mem : ℕ → UInt8) :
    ¬ HexInBuffer digest mem ∧
      (∀ st ∈ hexStores digest.1, 32 ≤ st.1 → st = (32, 0)) ∧ (32, 0) ∈ hexStores digest.1 ∧
      hexDecode ((List.range 32).map (storeAll mem (hexStores digest.1))) = some digest.1 := by
  have hover : ((32, 0) : ℕ × UInt8) ∈ hexStores digest.1 := by
    refine List.mem_flatMap.mpr ⟨15, List.mem_range.mpr (by norm_num), ?_⟩
    rw [snprintf_upperHex]
    simp
  refine ⟨fun h => absurd (h.1 _ hover) (lt_irrefl 32), ?_, hover, ?_⟩
  · intro st hst hout
    obtain ⟨i, hi, hmem⟩ := List.mem_flatMap.mp hst
    rw [List.mem_range] at hi
    rw [snprintf_upperHex, List.mem_cons, List.mem_cons, List.mem_singleton] at hmem
    obtain rfl | rfl | rfl := hmem
    · dsimp only at hout
      omega
    · dsimp only at hout
      omega
    · dsimp only at hout
      rw [show i = 15 by omega]
  · rw [storeAll_hexStores, hexDecode_hexPayload]

/-- The digest of all zeros: the text is right, but its NUL goes to index 32. -/
theorem hexPayload_not_in_buffer : ¬ HexInBuffer ⟨List.replicate 16 0, rfl⟩ fun _ => 0 :=
  fun h => absurd (h.1 (32, 0) (by decide)) (by decide)

end River2
