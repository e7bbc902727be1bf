import River2.Checked
import River2.Commands

/-!
# Decryption undoes encryption and unpads exactly

1. `EndsIn k` says that a string ends in `k` bytes of value `k`; `validPad_of_endsIn` and
   `endsIn_of_validPad` compare the backward scan of `river2_session_decrypt` with it.
2. `validPad?` and `unpaddedLen?` are that scan with every access checked; `unpaddedLen?_eq` says
   that the checks never fail, whatever the decryption gave.
3. `completes_sessionDecrypt_any` says what every call of `river2_session_decrypt` returns, also one
   that PSA fails.
-/

namespace River2

open Prog

/-! ## The padding -/

/-- The string ends in `k` bytes of value `k`. -/
def EndsIn (k : ℕ) (out : Bytes) : Prop := ∃ y, out = y ++ List.replicate k (UInt8.ofNat k)

theorem toNat_ofNat_small {k : ℕ} (hk : k ≤ 16) : (UInt8.ofNat k).toNat = k := by
  rw [UInt8.toNat_ofNat', Nat.mod_eq_of_lt (by omega)]

theorem EndsIn.last {k : ℕ} {out : Bytes} (h : EndsIn k out) {i : ℕ} (hi : i < k) :
    k ≤ out.length ∧ out.getD (out.length - 1 - i) 0 = UInt8.ofNat k := by
  obtain ⟨y, rfl⟩ := h
  rw [List.length_append, List.length_replicate]
  refine ⟨Nat.le_add_left _ _, ?_⟩
  rw [List.getD_eq_getElem?_getD, List.getElem?_append_right (by omega),
    List.getElem?_replicate_of_lt (by omega), Option.getD_some]

theorem validPad_of_endsIn {k : ℕ} {out : Bytes} (hpos : 1 ≤ k) (hk : k ≤ 16) (h : EndsIn k out) :
    validPad out out.length = true ∧ (out.getD (out.length - 1) 0).toNat = k := by
  have hlast := (h.last (i := 0) (by omega)).2
  have hle := (h.last (i := 0) (by omega)).1
  rw [Nat.sub_zero] at hlast
  have hpad : (out.getD (out.length - 1) 0).toNat = k := by rw [hlast, toNat_ofNat_small hk]
  refine ⟨?_, hpad⟩
  unfold validPad
  dsimp only
  rw [hpad, Bool.and_eq_true, decide_eq_true_eq, List.all_eq_true]
  refine ⟨⟨hpos, hk, hle⟩, fun i hi => ?_⟩
  rw [(h.last (List.mem_range.mp hi)).2, hlast, beq_self_eq_true]

theorem endsIn_of_validPad {out : Bytes} (h : validPad out out.length = true) :
    ∃ k, 1 ≤ k ∧ k ≤ 16 ∧ EndsIn k out := by
  unfold validPad at h
  dsimp only at h
  rw [Bool.and_eq_true, decide_eq_true_eq, List.all_eq_true] at h
  obtain ⟨⟨hpos, hk, hle⟩, hall⟩ := h
  generalize hpad : out.getD (out.length - 1) 0 = pad at *
  refine ⟨pad.toNat, hpos, hk, out.take (out.length - pad.toNat), ?_⟩
  conv_lhs => rw [← List.take_append_drop (out.length - pad.toNat) out]
  congr 1
  rw [UInt8.ofNat_toNat]
  refine List.eq_replicate_iff.mpr ⟨by rw [List.length_drop]; omega, fun b hb => ?_⟩
  obtain ⟨j, hj, rfl⟩ := List.mem_iff_getElem.mp hb
  rw [List.length_drop] at hj
  have hat := hall (pad.toNat - 1 - j) (List.mem_range.mpr (by omega))
  rw [show out.length - 1 - (pad.toNat - 1 - j) = out.length - pad.toNat + j by omega,
    List.getD_eq_getElem _ _ (by omega), beq_iff_eq] at hat
  rw [List.getElem_drop, hat]

/-! ## The scan stays in the decryption -/

/-- The loop of the scan: `n` rounds are left, the next one is round `i`. -/
def padLoop? (out : Bytes) (aligned : ℕ) (pad : UInt8) : ℕ → ℕ → Option Bool
  | 0, _ => some true
  | n + 1, i => do
    let b ← byte? out (← sub? (← sub? aligned 1) i)
    if b ≠ pad then return false else padLoop? out aligned pad n (i + 1)

/-- `valid_pad`, with every access checked. -/
def validPad? (out : Bytes) (aligned : ℕ) : Option Bool := do
  let pad ← byte? out (← sub? aligned 1)
  if 1 ≤ pad.toNat ∧ pad.toNat ≤ 16 ∧ pad.toNat ≤ aligned then padLoop? out aligned pad pad.toNat 0
  else return false

/-- `*out_len`, with every access checked. -/
def unpaddedLen? (out : Bytes) (aligned : ℕ) : Option ℕ := do
  let pad ← byte? out (← sub? aligned 1)
  if ← validPad? out aligned then sub? aligned pad.toNat else return aligned

theorem padLoop?_eq {out : Bytes} {pad : UInt8} (n i : ℕ) (h : i + n ≤ out.length) :
    padLoop? out out.length pad n i =
      some ((List.range' i n).all fun j => out.getD (out.length - 1 - j) 0 == pad) := by
  induction n generalizing i with
  | zero => rfl
  | succ n ih =>
    unfold padLoop?
    rw [bind_checked (sub?_of_le (by omega)), bind_checked (sub?_of_le (by omega)),
      bind_checked (byte?_of_lt (by omega)), List.range'_succ, List.all_cons]
    by_cases hb : out.getD (out.length - 1 - i) 0 = pad
    · rw [if_neg (not_not_intro hb), ih (i + 1) (by omega), hb, beq_self_eq_true, Bool.true_and]
    · rw [if_pos hb, beq_eq_false_iff_ne.mpr hb, Bool.false_and]
      rfl

theorem unpaddedLen?_eq {out : Bytes} (h : out ≠ []) :
    unpaddedLen? out out.length = some (unpaddedLen out out.length) := by
  have hpos := List.length_pos_iff.mpr h
  have hlast : byte? out (out.length - 1) = some (out.getD (out.length - 1) 0) :=
    byte?_of_lt (by omega)
  have hvalid : validPad? out out.length = some (validPad out out.length) := by
    unfold validPad? validPad
    rw [bind_checked (sub?_of_le hpos), bind_checked hlast]
    dsimp only
    split_ifs with hpad
    · rw [padLoop?_eq _ 0 (by omega), decide_eq_true hpad, Bool.true_and, List.range_eq_range']
    · rw [decide_eq_false hpad, Bool.false_and]
      rfl
  unfold unpaddedLen? unpaddedLen
  rw [bind_checked (sub?_of_le hpos), bind_checked hlast, bind_checked hvalid]
  cases hv : validPad out out.length with
  | false => rfl
  | true =>
    have hle : (out.getD (out.length - 1) 0).toNat ≤ out.length := by
      unfold validPad at hv
      dsimp only at hv
      rw [Bool.and_eq_true, decide_eq_true_eq] at hv
      exact hv.1.2.2
    exact sub?_of_le hle

/-! ## Every call -/

variable {c : Crypto} {s : Session}

/-- The whole blocks of an input. -/
def alignedLen (input : Bytes) : ℕ := input.length - input.length % 16

/-- What the cipher makes of the whole blocks. -/
def rawDecryption (c : Crypto) (s : Session) (input : Bytes) : Bytes :=
  c.cbcDecrypt s.key s.iv (input.take (alignedLen input))

theorem rawDecryption_length (c : Crypto) (s : Session) (input : Bytes) :
    (rawDecryption c s input).length = alignedLen input := by
  have hle : alignedLen input ≤ input.length := Nat.sub_le _ _
  have htake : (input.take (alignedLen input)).length = alignedLen input :=
    List.length_take_of_le hle
  unfold rawDecryption
  rw [c.cbcDecrypt_length, htake]
  rw [htake]
  exact Nat.dvd_sub_mod input.length

/-- Any answers, and nothing promised about them. -/
def anyContract : Contract Call Answer where
  env := anyEnv
  pre := fun _ _ => True
  out := fun _ => False

theorem completes_sessionDecrypt_any {input : Bytes} {outCap : ℕ} {h : Hist} {q : Fw Bytes}
    (hc : Completes anyEnv (sessionDecrypt c s input outCap) h q) :
    (q = .ret (opened c s input) ∧ alignedLen input ≤ outCap) ∨
      (q = .throw .invalidSize ∧ outCap < alignedLen input) ∨
      (q = .throw .fail ∧ PsaFault h ∧ alignedLen input ≤ outCap) := by
  have hans : ∀ e, anyContract.pre h e → ∃ a, anyContract.env h e a := by
    intro e _
    obtain ⟨a, -⟩ := psaEnv_answers h e
    exact ⟨a, trivial⟩
  by_cases hcap : outCap < alignedLen input
  · have hthrow : sessionDecrypt c s input outCap = .throw .invalidSize := by
      unfold alignedLen at hcap
      unfold sessionDecrypt
      dsimp only
      rw [if_neg (by omega), if_pos hcap]
    rw [hthrow] at hc
    have hwp : wp anyContract (.throw .invalidSize : Fw Bytes) (fun _ _ => False)
        (fun err _ => err = .invalidSize) [] := rfl
    obtain ⟨-, -, hfalse⟩ | ⟨err, rfl, rfl⟩ := wp_completes hwp hc hans id
    · exact hfalse.elim
    · exact Or.inr (Or.inl ⟨rfl, hcap⟩)
  · have hd : decrypted c s input outCap = .ok (opened c s input) := if_neg hcap
    have hwp : wp anyContract (sessionDecrypt c s input outCap)
        (fun out _ => out = opened c s input) (fun err h => err = .fail ∧ PsaFault h) [] := by
      refine wp_sessionDecrypt (fun _ _ _ => trivial) ?_ ?_ ?_
      · intro out _ _ hout
        rw [hd] at hout
        exact (Except.ok.inj hout).symm
      · intro err _ _ herr
        rw [hd] at herr
        cases herr
      · intro h' _ hf
        exact ⟨rfl, hf⟩
    obtain ⟨out, rfl, rfl⟩ | ⟨err, rfl, rfl, hf⟩ := wp_completes hwp hc hans id
    · exact Or.inl ⟨rfl, not_lt.mp hcap⟩
    · exact Or.inr (Or.inr ⟨rfl, hf, not_lt.mp hcap⟩)

theorem opened_eq_take (c : Crypto) (s : Session) (input : Bytes) :
    opened c s input = (rawDecryption c s input).take
      (unpaddedLen (rawDecryption c s input) (rawDecryption c s input).length) := by
  rw [rawDecryption_length]
  show (if alignedLen input = 0 then [] else _) = _
  by_cases h0 : alignedLen input = 0
  · rw [if_pos h0, List.length_eq_zero_iff.mp ((rawDecryption_length c s input).trans h0),
      List.take_nil]
  · rw [if_neg h0]
    rfl

theorem unpaddedLen_le (out : Bytes) (aligned : ℕ) : unpaddedLen out aligned ≤ aligned := by
  unfold unpaddedLen
  split_ifs
  · exact Nat.sub_le _ _
  · exact le_rfl

theorem opened_length (c : Crypto) (s : Session) (input : Bytes) :
    (opened c s input).length =
      unpaddedLen (rawDecryption c s input) (rawDecryption c s input).length := by
  rw [opened_eq_take, List.length_take_of_le (unpaddedLen_le _ _)]

theorem unpaddedLen_of_endsIn {k : ℕ} {out : Bytes} (hpos : 1 ≤ k) (hk : k ≤ 16)
    (h : EndsIn k out) : unpaddedLen out out.length = out.length - k := by
  obtain ⟨hvalid, hpad⟩ := validPad_of_endsIn hpos hk h
  unfold unpaddedLen
  rw [if_pos hvalid, hpad]

theorem unpaddedLen_of_not_endsIn {out : Bytes} (h : ∀ k, 1 ≤ k → k ≤ 16 → ¬ EndsIn k out) :
    unpaddedLen out out.length = out.length := by
  unfold unpaddedLen
  rw [if_neg]
  intro hvalid
  obtain ⟨k, hpos, hk, hend⟩ := endsIn_of_validPad hvalid
  exact h k hpos hk hend

/-- What encryption returns is the sealed input, whatever room it was given. -/
theorem eq_sealed_of_completes {x : Bytes} {encCap : ℕ} {h : Hist} {enc : Bytes}
    (hc : Completes psaEnv (aesCbcEncryptPkcs7 c s x encCap) h (.ret enc)) :
    enc = sealed c s x := by
  have hwp : wp (freeContract psaEnv) (aesCbcEncryptPkcs7 c s x encCap)
      (fun out _ => out = sealed c s x) (fun _ _ => True) [] := by
    unfold aesCbcEncryptPkcs7
    refine wp_do.mpr (wp_mono (wp_free psaEnv _ _) (fun _ h₁ _ => ?_) fun _ _ _ => trivial)
    refine wp_do.mpr (wp_mono (wp_free psaEnv _ _) (fun _ h₂ _ => ?_) fun _ _ _ => trivial)
    rfl
  exact wp_reach (C := freeContract psaEnv) hwp hc.1

/-- Less than a block of junk behind whole blocks is cut off. -/
theorem opened_append_junk {b j : Bytes} (hb : 16 ∣ b.length) (hj : j.length < 16) :
    opened c s (b ++ j) = opened c s b := by
  have halign : (b ++ j).length - (b ++ j).length % 16 = b.length := by
    rw [List.length_append]
    omega
  have halign' : b.length - b.length % 16 = b.length := by omega
  unfold opened
  rw [halign, halign']
  dsimp only
  rw [List.take_left, List.take_length]

/-- **Decryption undoes encryption and unpads exactly.** The encryption of `x`, also with less than
a block of junk behind it, decrypts to `x`. Every other input too is either refused, exactly when
its whole blocks do not fit, or gives the raw decryption without the padding it ends in, and whole
if it ends in none. The scan for the padding stays in the raw decryption. -/
theorem decrypt_unpads_exactly (c : Crypto) (s : Session) :
    (c.Invertible → ∀ x encCap h enc j outCap h' q,
      Completes psaEnv (aesCbcEncryptPkcs7 c s x encCap) h (.ret enc) → j.length < 16 →
      enc.length ≤ outCap → Completes psaEnv (sessionDecrypt c s (enc ++ j) outCap) h' q →
      q = .ret x) ∧
    (∀ input outCap h q, Completes anyEnv (sessionDecrypt c s input outCap) h q →
      (q = .throw .invalidSize ↔ outCap < alignedLen input) ∧
      (alignedLen input ≤ outCap → ¬ PsaFault h → ∃ out, q = .ret out) ∧
      ∀ out, q = .ret out →
        out = (rawDecryption c s input).take out.length ∧ out.length ≤ outCap ∧
        (∀ k, 1 ≤ k → k ≤ 16 → EndsIn k (rawDecryption c s input) →
          out.length = alignedLen input - k) ∧
        ((∀ k, 1 ≤ k → k ≤ 16 → ¬ EndsIn k (rawDecryption c s input)) →
          out.length = alignedLen input)) ∧
    (∀ input, alignedLen input ≠ 0 →
      unpaddedLen? (rawDecryption c s input) (alignedLen input) =
        some (unpaddedLen (rawDecryption c s input) (alignedLen input))) := by
  refine ⟨?_, ?_, ?_⟩
  · intro hinv x encCap h enc j outCap h' q henc hj hcap hdec
    obtain rfl := eq_sealed_of_completes henc
    have hblocks : 16 ∣ (sealed c s x).length := by
      rw [sealed_length]
      omega
    have halign : (sealed c s x ++ j).length - (sealed c s x ++ j).length % 16 ≤ outCap := by
      rw [List.length_append]
      omega
    rw [completes_sessionDecrypt halign hdec, opened_append_junk hblocks hj, opened_sealed hinv]
  · intro input outCap h q hc
    have hlen := rawDecryption_length c s input
    obtain ⟨rfl, hcap⟩ | ⟨rfl, hcap⟩ | ⟨rfl, hf, hcap⟩ := completes_sessionDecrypt_any hc
    · refine ⟨⟨nofun, fun h => absurd h (not_lt.mpr hcap)⟩, fun _ _ => ⟨_, rfl⟩, ?_⟩
      rintro out ⟨⟩
      have hle := unpaddedLen_le (rawDecryption c s input) (rawDecryption c s input).length
      refine ⟨?_, ?_, ?_, ?_⟩
      · rw [opened_length]
        exact opened_eq_take c s input
      · rw [opened_length]
        omega
      · intro k hpos hk hend
        rw [opened_length, unpaddedLen_of_endsIn hpos hk hend, hlen]
      · intro hnone
        rw [opened_length, unpaddedLen_of_not_endsIn hnone, hlen]
    · exact ⟨⟨fun _ => hcap, fun _ => rfl⟩, fun h => absurd hcap (not_lt.mpr h), nofun⟩
    · exact ⟨⟨nofun, fun h => absurd h (not_lt.mpr hcap)⟩, fun _ hno => absurd hf hno, nofun⟩
  · intro input h0
    have hlen := rawDecryption_length c s input
    have hne : rawDecryption c s input ≠ [] :=
      List.ne_nil_of_length_pos (by omega)
    rw [← hlen]
    exact unpaddedLen?_eq hne

namespace Sample

/-- A decryption whose calls all succeed. -/
def decryption (input : Bytes) : Hist × Fw Bytes :=
  replay (ourPub, priv) [] (sessionDecrypt crypto session input 48)

end Sample

/-- The wake-up packet of the recorded session, with three bytes of junk behind it; and a block of
zeros, which ends in no padding, with one byte of junk. -/
theorem decrypt_unpads_exactly_wakeup :
    let x := innerBytes addrApp addrAuth 0x35 0x89 []
    let p := aesCbcEncryptPkcs7 Sample.crypto Sample.session x 32
    let zeros : Bytes := List.replicate 16 0
    (∃ enc, (replay (Sample.ourPub, Sample.priv) [] p).2 = .ret enc ∧
      (Sample.decryption (enc ++ [0xAA, 0xBB, 0xCC])).2 = .ret x) ∧
    (Sample.decryption (zeros ++ [0xAA])).2 = .ret zeros := by
  intro x p zeros
  have henc : (replay (Sample.ourPub, Sample.priv) [] p).2 =
      .ret (sealed Sample.crypto Sample.session x) := eq_ret_of_result? (by decide +kernel)
  have hlen : (sealed Sample.crypto Sample.session x).length ≤ 48 := by
    rw [sealed_length, innerBytes_length]
    decide
  have hall := decrypt_unpads_exactly Sample.crypto Sample.session
  have hover : ∀ input ∈ [sealed Sample.crypto Sample.session x ++ [0xAA, 0xBB, 0xCC],
      zeros ++ [0xAA]], ∃ out, (Sample.decryption input).2 = .ret out := by
    have hsome : ∀ input ∈ [sealed Sample.crypto Sample.session x ++ [0xAA, 0xBB, 0xCC],
        zeros ++ [0xAA]], ((Sample.decryption input).2.result?.bind Except.toOption).isSome := by
      decide +kernel
    intro input hin
    obtain ⟨out, hout⟩ := Option.isSome_iff_exists.mp (hsome input hin)
    obtain ⟨r, hr, hret⟩ := Option.bind_eq_some_iff.mp hout
    cases r with
    | error err => cases hret
    | ok out' => exact ⟨out', eq_ret_of_result? hr⟩
  refine ⟨⟨_, henc, ?_⟩, ?_⟩
  · obtain ⟨out, hout⟩ := hover _ (List.mem_cons_self ..)
    rw [hout]
    exact hall.1 Sample.record.crypto_invertible x 32 _ _ [0xAA, 0xBB, 0xCC] 48 _ _
      (completes_replay admits_psaEnv henc) (by decide) hlen (completes_replay admits_psaEnv hout)
  · obtain ⟨out, hout⟩ := hover _ (List.mem_cons_of_mem _ (List.mem_singleton_self _))
    have hraw : rawDecryption Sample.crypto Sample.session (zeros ++ [0xAA]) = zeros := by
      decide +kernel
    have hfallback := (hall.2.1 _ 48 _ _ (completes_replay admits_anyEnv hout)).2.2 out rfl
    rw [hraw] at hfallback
    have hnone : ∀ k, 1 ≤ k → k ≤ 16 → ¬ EndsIn k zeros := by
      intro k hpos hk hend
      have hlast := congrArg UInt8.toNat (hend.last (i := 0) hpos).2
      rw [toNat_ofNat_small hk] at hlast
      change 0 = k at hlast
      omega
    rw [hout, hfallback.1, hfallback.2.2.2 hnone]
    exact congrArg Prog.ret (List.take_of_length_le (by decide))

end River2
