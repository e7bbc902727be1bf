import River2.Library.BinaryEuclid
import River2.Vli

/-!
# The modular inverse (`uECC_vli_modInv`)

1. `vliModInvUpdate` and `ModInv.step`: a round of the loop on words.
2. `ModInv.nat_step`: it is a round of the binary Euclidean algorithm on the numbers.
3. `vliModInv_eq`: the loop ends, and leaves the inverse.
-/

namespace River2

def highBitSet : UInt32 := 0x80000000

def vliEven (vli : Vli) : Bool := vli.getD 0 0 &&& 1 == 0

/-- `vli_modInv_update`. -/
def vliModInvUpdate (uv mod : Vli) : Vli :=
  let added := if vliEven uv then (uv, 0) else vliAdd uv mod
  let uv := vliRshift1 added.1
  if added.2 ≠ 0 then vliSetTop uv highBitSet else uv

/-- `if (uECC_vli_cmp_unsafe(u, v) < 0) uECC_vli_add(u, u, mod)`, and `uECC_vli_sub(u, u, v)`. -/
def modInvSub (u v mod : Vli) : Vli :=
  (vliSub (if vliCmpUnsafe u v = .lt then (vliAdd u mod).1 else u) v).1

/-- `a`, `b`, `u` and `v` of `uECC_vli_modInv`. -/
structure ModInv where
  a : Vli
  b : Vli
  u : Vli
  v : Vli

/-- The body of its loop, for this `cmpResult`. -/
def ModInv.step (mod : Vli) (cmpResult : Ordering) (s : ModInv) : ModInv :=
  if vliEven s.a then
    { s with a := vliRshift1 s.a, u := vliModInvUpdate s.u mod }
  else if vliEven s.b then
    { s with b := vliRshift1 s.b, v := vliModInvUpdate s.v mod }
  else if cmpResult = .gt then
    { s with
      a := vliRshift1 (vliSub s.a s.b).1
      u := vliModInvUpdate (modInvSub s.u s.v mod) mod }
  else
    { s with
      b := vliRshift1 (vliSub s.b s.a).1
      v := vliModInvUpdate (modInvSub s.v s.u mod) mod }

/-- The loop, for this many rounds at most. -/
def ModInv.loop (mod : Vli) : ℕ → ModInv → Option Vli
  | 0, _ => none
  | fuel + 1, s =>
    let cmpResult := vliCmpUnsafe s.a s.b
    if cmpResult ≠ .eq then loop mod fuel (s.step mod cmpResult) else some s.u

/-- `uECC_vli_modInv`: `vliModInv_eq` says that it ends within these rounds. -/
def vliModInv (input mod : Vli) : Option Vli :=
  if vliIsZero input then some (vliClear input.length)
  else ModInv.loop mod (64 * input.length)
    ⟨input, mod, (vliClear input.length).set 0 1, vliClear input.length⟩

/-! ## A round -/

theorem vliEven_eq (ws : Vli) : vliEven ws = decide (vliNat ws % 2 = 0) := by
  have hword := vliNat_getD ws 0
  have hand : ∀ w : UInt32, w &&& 1 = 0 ↔ w.toNat % 2 = 0 := by
    intro w
    rw [← UInt32.toNat_inj, UInt32.toNat_and]
    show w.toNat &&& 1 = 0 ↔ _
    rw [Nat.and_one_is_mod]
  rw [mul_zero, pow_zero, Nat.div_one] at hword
  unfold vliEven
  rw [Bool.eq_iff_iff, beq_iff_eq, decide_eq_true_iff, hand, hword]
  omega

section Update

variable {uv mod : Vli} {n : ℕ}

theorem vliModInvUpdate_length (huv : uv.length = n + 1) (hmod : mod.length = n + 1) :
    (vliModInvUpdate uv mod).length = n + 1 := by
  have hadd := vliAdd_length (huv.trans hmod.symm)
  unfold vliModInvUpdate
  dsimp only
  split_ifs <;> simp only [vliSetTop_length, vliRshift1_length, hadd, huv]

theorem vliNat_vliModInvUpdate (huv : uv.length = n + 1) (hmod : mod.length = n + 1)
    (hlt : vliNat uv < vliNat mod) :
    vliNat (vliModInvUpdate uv mod) = BinaryEuclid.halve (vliNat mod) (vliNat uv) := by
  have hm := vliNat_lt mod
  obtain ⟨hsum, hcarry⟩ := vliAdd_eq (huv.trans hmod.symm)
  rw [hmod] at hm
  rw [huv] at hsum hcarry
  have hpow : 2 ^ (32 * (n + 1)) = 2 * 2 ^ (32 * n + 31) := by
    rw [← pow_succ']
    rfl
  unfold vliModInvUpdate BinaryEuclid.halve
  dsimp only
  rw [vliEven_eq]
  by_cases heven : vliNat uv % 2 = 0
  · rw [decide_eq_true heven, if_pos rfl, if_pos heven, if_neg (by simp), vliNat_vliRshift1]
  · rw [decide_eq_false heven, if_neg Bool.false_ne_true, if_neg heven]
    have hshift := vliNat_vliRshift1 (vliAdd uv mod).1
    rcases lt_or_ge (vliNat uv + vliNat mod) (2 ^ (32 * (n + 1))) with hfit | hover
    · rw [Nat.mod_eq_of_lt hfit] at hsum
      rw [Nat.div_eq_of_lt hfit] at hcarry
      rw [if_neg (by simpa using UInt32.toNat_inj.mp hcarry), hshift, hsum]
    · -- the carry is the highest bit of the half
      have hone : (vliNat uv + vliNat mod) / 2 ^ (32 * (n + 1)) = 1 :=
        Nat.div_eq_of_lt_le (by omega) (by omega)
      have hsum : vliNat (vliAdd uv mod).1 = vliNat uv + vliNat mod - 2 ^ (32 * (n + 1)) := by
        rw [hsum, Nat.mod_eq_sub_mod hover, Nat.mod_eq_of_lt (by omega)]
      have hcarry : (vliAdd uv mod).2 = 1 := UInt32.toNat_inj.mp (hcarry.trans hone)
      have hlen := vliAdd_length (huv.trans hmod.symm)
      rw [if_pos (by rw [hcarry]; decide),
        vliNat_vliSetTop (by rw [vliRshift1_length, hlen, huv]) (by rw [hshift]; omega)
          (b := 1) (by decide), hshift, hsum]
      omega

end Update

/-- Four numbers of as many words. -/
structure ModInv.Sized (n : ℕ) (s : ModInv) : Prop where
  a : s.a.length = n + 1
  b : s.b.length = n + 1
  u : s.u.length = n + 1
  v : s.v.length = n + 1

def ModInv.nat (s : ModInv) : BinaryEuclid.State := ⟨vliNat s.a, vliNat s.b, vliNat s.u, vliNat s.v⟩

section Round

variable {mod left right : Vli} {n : ℕ}

/-- The difference modulo the number: the carry of the sum and the borrow cancel. -/
theorem vliNat_modInvSub (hleft : left.length = n + 1) (hright : right.length = n + 1)
    (hmod : mod.length = n + 1) (hr : vliNat right < vliNat mod) :
    vliNat (modInvSub left right mod) =
      BinaryEuclid.subMod (vliNat mod) (vliNat left) (vliNat right) := by
  have hm := vliNat_lt mod
  obtain ⟨hsum, -⟩ := vliAdd_eq (hleft.trans hmod.symm)
  have hlen := vliAdd_length (hleft.trans hmod.symm)
  rw [hmod] at hm
  rw [hleft] at hsum hlen
  unfold modInvSub BinaryEuclid.subMod
  rw [vliCmpUnsafe_eq (hleft.trans hright.symm)]
  simp only [compare_lt_iff_lt]
  split_ifs with hlt
  · rcases lt_or_ge (vliNat left + vliNat mod) (2 ^ (32 * (n + 1))) with hfit | hover
    · rw [Nat.mod_eq_of_lt hfit] at hsum
      rw [(vliSub_of_le (hlen.trans hright.symm) (by omega)).1, hsum]
    · rw [Nat.mod_eq_sub_mod hover, Nat.mod_eq_of_lt (by omega)] at hsum
      rw [(vliSub_of_lt (hlen.trans hright.symm) (by omega)).1, hsum, hlen]
      omega
  · exact (vliSub_of_le (hleft.trans hright.symm) (by omega)).1

theorem modInvSub_length (hleft : left.length = n + 1) (hright : right.length = n + 1)
    (hmod : mod.length = n + 1) : (modInvSub left right mod).length = n + 1 := by
  have hlen := vliAdd_length (hleft.trans hmod.symm)
  unfold modInvSub
  split_ifs
  · rw [vliSub_length (by omega), hlen, hleft]
  · rw [vliSub_length (by omega), hleft]

theorem vliNat_sub_half (hlen : left.length = right.length) (hle : vliNat right ≤ vliNat left) :
    vliNat (vliRshift1 (vliSub left right).1) = (vliNat left - vliNat right) / 2 := by
  rw [vliNat_vliRshift1, (vliSub_of_le hlen hle).1]

theorem sub_half_length (hlen : left.length = right.length) :
    (vliRshift1 (vliSub left right).1).length = left.length := by
  rw [vliRshift1_length, vliSub_length hlen]

variable {s : ModInv}

theorem ModInv.Sized.step (hs : s.Sized n) (hmod : mod.length = n + 1) (cmpResult : Ordering) :
    (s.step mod cmpResult).Sized n := by
  obtain ⟨ha, hb, hu, hv⟩ := hs
  unfold ModInv.step
  split_ifs
  · exact ⟨(vliRshift1_length _).trans ha, hb, vliModInvUpdate_length hu hmod, hv⟩
  · exact ⟨ha, (vliRshift1_length _).trans hb, hu, vliModInvUpdate_length hv hmod⟩
  · exact ⟨(sub_half_length (ha.trans hb.symm)).trans ha, hb,
      vliModInvUpdate_length (modInvSub_length hu hv hmod) hmod, hv⟩
  · exact ⟨ha, (sub_half_length (hb.trans ha.symm)).trans hb, hu,
      vliModInvUpdate_length (modInvSub_length hv hu hmod) hmod⟩

/-- A round on the words is a round on the numbers. -/
theorem ModInv.nat_step (hs : s.Sized n) (hmod : mod.length = n + 1)
    (hu : vliNat s.u < vliNat mod) (hv : vliNat s.v < vliNat mod) :
    (s.step mod (vliCmpUnsafe s.a s.b)).nat = BinaryEuclid.step (vliNat mod) s.nat := by
  unfold ModInv.step BinaryEuclid.step ModInv.nat
  rw [vliCmpUnsafe_eq (hs.a.trans hs.b.symm)]
  simp only [vliEven_eq, decide_eq_true_eq, compare_gt_iff_gt]
  split_ifs with ha hb hlt
  · simp only [vliNat_vliRshift1, vliNat_vliModInvUpdate hs.u hmod hu]
  · simp only [vliNat_vliRshift1, vliNat_vliModInvUpdate hs.v hmod hv]
  · have hdiff := vliNat_modInvSub hs.u hs.v hmod hv
    have hwrap := BinaryEuclid.subMod_lt hu hv
    simp only [vliNat_sub_half (hs.a.trans hs.b.symm) hlt.le,
      vliNat_vliModInvUpdate (modInvSub_length hs.u hs.v hmod) hmod (hdiff.trans_lt hwrap), hdiff]
  · have hdiff := vliNat_modInvSub hs.v hs.u hmod hu
    have hwrap := BinaryEuclid.subMod_lt hv hu
    simp only [vliNat_sub_half (hs.b.trans hs.a.symm) (not_lt.mp hlt),
      vliNat_vliModInvUpdate (modInvSub_length hs.v hs.u hmod) hmod (hdiff.trans_lt hwrap), hdiff]

/-- The rounds on the words go as those on the numbers. -/
theorem ModInv.loop_eq {x g fuel : ℕ} {s' : BinaryEuclid.State} (hm : Odd (vliNat mod))
    (hg : Odd g) (hs : s.Sized n) (hmod : mod.length = n + 1)
    (hinv : BinaryEuclid.Coupled (vliNat mod) x g s.nat)
    (hrun : BinaryEuclid.run (vliNat mod) fuel s.nat = some s') :
    ∃ r, ModInv.loop mod fuel s = some r ∧ r.length = n + 1 ∧ vliNat r = s'.u := by
  induction fuel generalizing s with
  | zero => cases hrun
  | succ fuel ih =>
    have hcmp := vliCmpUnsafe_eq (hs.a.trans hs.b.symm)
    unfold BinaryEuclid.run at hrun
    unfold ModInv.loop
    dsimp only
    split_ifs at hrun with heq
    · obtain rfl := Option.some.inj hrun
      rw [if_neg (not_not.mpr (hcmp.trans (compare_eq_iff_eq.mpr heq)))]
      exact ⟨s.u, rfl, hs.u, rfl⟩
    · have hstep := ModInv.nat_step hs hmod hinv.u_lt hinv.v_lt
      rw [if_pos fun h => heq (compare_eq_iff_eq.mp (hcmp.symm.trans h))]
      exact ih (hs.step hmod _) (hstep ▸ hinv.step hm hg heq) (hstep ▸ hrun)

end Round

section Inverse

variable {input mod : Vli} {n : ℕ}

theorem vliNat_one (n : ℕ) : vliNat ((vliClear (n + 1)).set 0 1) = 1 := by
  show vliNat (1 :: vliClear n) = 1
  rw [vliNat_cons, vliNat_vliClear]
  rfl

theorem vliClear_length (n : ℕ) : (vliClear n).length = n := List.length_replicate

theorem vliModInv_zero (hzero : vliNat input = 0) :
    vliModInv input mod = some (vliClear input.length) := by
  unfold vliModInv
  rw [vliIsZero_eq, decide_eq_true hzero, if_pos rfl]

/-- **The modular inverse.** For an odd modulus the loop ends, with a reduced number whose product
with the input is their greatest common divisor. -/
theorem vliModInv_eq (hlen : input.length = n + 1) (hmod : mod.length = n + 1)
    (hodd : Odd (vliNat mod)) (hone : 1 < vliNat mod) :
    ∃ r, vliModInv input mod = some r ∧ r.length = n + 1 ∧ vliNat r < vliNat mod ∧
      vliNat r * vliNat input ≡ Nat.gcd (vliNat input) (vliNat mod) [MOD vliNat mod] := by
  unfold vliModInv
  rw [vliIsZero_eq, hlen]
  split_ifs with hzero
  · have hzero := of_decide_eq_true hzero
    refine ⟨vliClear (n + 1), rfl, vliClear_length _, ?_, ?_⟩
    · rw [vliNat_vliClear]
      omega
    · rw [hzero, mul_zero, Nat.gcd_zero_left]
      exact (Nat.modEq_zero_iff_dvd.mpr dvd_rfl).symm
  · have hpos : 0 < vliNat input := Nat.pos_of_ne_zero fun h => hzero (decide_eq_true h)
    have hfuel : vliNat input * vliNat mod < 2 ^ (64 * (n + 1)) := by
      have hi := vliNat_lt input
      have hm := vliNat_lt mod
      rw [hlen] at hi
      rw [hmod] at hm
      calc vliNat input * vliNat mod
          < 2 ^ (32 * (n + 1)) * 2 ^ (32 * (n + 1)) := Nat.mul_lt_mul'' hi hm
        _ = 2 ^ (64 * (n + 1)) := by rw [← pow_add, ← add_mul]
    let s : ModInv := ⟨input, mod, (vliClear (n + 1)).set 0 1, vliClear (n + 1)⟩
    have hs : s.Sized n := ⟨hlen, hmod, by rw [List.length_set, vliClear_length], vliClear_length _⟩
    have hnat : s.nat = BinaryEuclid.init (vliNat mod) (vliNat input) := by
      unfold ModInv.nat BinaryEuclid.init
      rw [vliNat_one, vliNat_vliClear]
    obtain ⟨s', hrun, hlt, hmul⟩ := BinaryEuclid.run_init hodd hone hpos hfuel
    obtain ⟨r, hloop, hrlen, hr⟩ := ModInv.loop_eq hodd (BinaryEuclid.odd_gcd hodd _) hs hmod
      (hnat ▸ BinaryEuclid.init_coupled hone hpos) (hnat ▸ hrun)
    exact ⟨r, hloop, hrlen, hr ▸ hlt, hr ▸ hmul⟩

end Inverse

end River2
