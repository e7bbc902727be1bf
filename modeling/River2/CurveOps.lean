import Mathlib
import River2.Library.CoZ
import River2.Vli

/-!
# Point operations (`uECC.c` and `curve-specific.inc`)

The functions on points, over the arithmetic they call. They run on words (`wordOps`), on numbers
that stop at a product the fast reduction gets wrong (`checkedOps`), and in the field (`fieldOps`).

1. `CurveOps`: the arithmetic.
2. `doubleJacobian`, `xyczAdd`, `xyczAddC` and the others, line by line; `eccPointMult`.
3. `OpsRel`: a relation that the arithmetic keeps. Every function on points keeps it.
4. `ofField_eccPointMult`: in a field, the functions are the formulas of co-Z arithmetic.
-/

namespace River2

/-- The arithmetic modulo `curve->p`, and `curve->b`. -/
structure CurveOps (F : Type) where
  modAdd : F → F → F
  modSub : F → F → F
  modMultFast : F → F → F
  modInv : F → F
  /-- The half in `double_jacobian_default`. -/
  half : F → F
  isZero : F → Bool
  one : F
  three : F
  b : F

namespace CurveOps

variable {F : Type} (curve : CurveOps F)

/-- `uECC_vli_modSquare_fast`. -/
def modSquareFast (left : F) : F := curve.modMultFast left left

/-- `double_jacobian_default`, on `X1` and `Y1`, and on `Z1`. -/
def doubleJacobian (P : F × F) (Z1 : F) : (F × F) × F :=
  let X1 := P.1
  let Y1 := P.2
  if curve.isZero Z1 then ((X1, Y1), Z1)
  else
    let t4 := curve.modSquareFast Y1
    let t5 := curve.modMultFast X1 t4
    let t4 := curve.modSquareFast t4
    let Y1 := curve.modMultFast Y1 Z1
    let Z1 := curve.modSquareFast Z1
    let X1 := curve.modAdd X1 Z1
    let Z1 := curve.modAdd Z1 Z1
    let Z1 := curve.modSub X1 Z1
    let X1 := curve.modMultFast X1 Z1
    let Z1 := curve.modAdd X1 X1
    let X1 := curve.modAdd X1 Z1
    let X1 := curve.half X1
    let Z1 := curve.modSquareFast X1
    let Z1 := curve.modSub Z1 t5
    let Z1 := curve.modSub Z1 t5
    let t5 := curve.modSub t5 Z1
    let X1 := curve.modMultFast X1 t5
    let t4 := curve.modSub X1 t4
    ((Z1, t4), Y1)

/-- `x_side_default`. -/
def xSide (x : F) : F :=
  let result := curve.modSquareFast x
  let result := curve.modSub result curve.three
  let result := curve.modMultFast result x
  curve.modAdd result curve.b

/-- `apply_z`. -/
def applyZ (P : F × F) (Z : F) : F × F :=
  let t1 := curve.modSquareFast Z
  let X1 := curve.modMultFast P.1 t1
  let t1 := curve.modMultFast t1 Z
  let Y1 := curve.modMultFast P.2 t1
  (X1, Y1)

/-- `XYcZ_initial_double`: `X1` and `Y1`, then `X2` and `Y2`. -/
def xyczInitialDouble (P : F × F) (initialZ : Option F) : (F × F) × (F × F) :=
  let z := initialZ.getD curve.one
  let Q := P
  let P := curve.applyZ P z
  let doubled := curve.doubleJacobian P z
  let P := doubled.1
  let z := doubled.2
  let Q := curve.applyZ Q z
  (P, Q)

/-- `XYcZ_add`: `X1` and `Y1`, then `X2` and `Y2`, then `sub`. -/
def xyczAdd (P Q : F × F) : (F × F) × (F × F) × F :=
  let X1 := P.1
  let Y1 := P.2
  let X2 := Q.1
  let Y2 := Q.2
  let t5 := curve.modSub X2 X1
  let t5 := curve.modSquareFast t5
  let X1 := curve.modMultFast X1 t5
  let X2 := curve.modMultFast X2 t5
  let Y2 := curve.modSub Y2 Y1
  let t5 := curve.modSquareFast Y2
  let t5 := curve.modSub t5 X1
  let t5 := curve.modSub t5 X2
  let X2 := curve.modSub X2 X1
  let Y1 := curve.modMultFast Y1 X2
  let sub := curve.modSub X1 t5
  let Y2 := curve.modMultFast Y2 sub
  let Y2 := curve.modSub Y2 Y1
  ((X1, Y1), (t5, Y2), sub)

/-- `XYcZ_addC`: `X1` and `Y1`, then `X2` and `Y2`. -/
def xyczAddC (P Q : F × F) (sub : F) : (F × F) × (F × F) :=
  let X1 := P.1
  let Y1 := P.2
  let X2 := Q.1
  let Y2 := Q.2
  let t5 := curve.modSquareFast sub
  let X1 := curve.modMultFast X1 t5
  let X2 := curve.modMultFast X2 t5
  let t5 := curve.modAdd Y2 Y1
  let Y2 := curve.modSub Y2 Y1
  let t6 := curve.modSub X2 X1
  let Y1 := curve.modMultFast Y1 t6
  let t6 := curve.modAdd X1 X2
  let X2 := curve.modSquareFast Y2
  let X2 := curve.modSub X2 t6
  let t7 := curve.modSub X1 X2
  let Y2 := curve.modMultFast Y2 t7
  let Y2 := curve.modSub Y2 Y1
  let t7 := curve.modSquareFast t5
  let t7 := curve.modSub t7 t6
  let t6 := curve.modSub t7 X1
  let t6 := curve.modMultFast t6 t5
  let Y1 := curve.modSub t6 Y1
  ((t7, Y1), (X2, Y2))

/-! ## The ladder -/

open CoZ (Regs)

/-- `Rx`, `Ry` and `sub` before the loop of `EccPoint_mult`. -/
def ladderStart (point : F × F) (initialZ : Option F) : Regs F :=
  let doubled := curve.xyczInitialDouble point initialZ
  ⟨doubled.2, doubled.1, curve.modSub doubled.2.1 doubled.1.1⟩

/-- `XYcZ_addC` on the register `1 - nb`, which is that of the bit, and on the register `nb`. -/
def ladderAddC (bit : Bool) (R : Regs F) : Regs F :=
  let d := curve.xyczAddC (R.pick bit).1 (R.pick bit).2 R.sub
  .put bit d.1 d.2 R.sub

/-- `XYcZ_add` on the register `nb` and on the register `1 - nb`. -/
def ladderAdd (bit : Bool) (R : Regs F) : Regs F :=
  let added := curve.xyczAdd (R.pick bit).2 (R.pick bit).1
  .put bit added.2.1 added.1 added.2.2

/-- The body of the loop. -/
def ladderRound (R : Regs F) (bit : Bool) : Regs F := curve.ladderAdd bit (curve.ladderAddC bit R)

/-- "Find final 1/Z value". -/
def finalZ (point : F × F) (bit : Bool) (R : Regs F) : F :=
  let z := curve.modSub R.r1.1 R.r0.1
  let z := curve.modMultFast z (R.pick bit).1.2
  let z := curve.modMultFast z point.1
  let z := curve.modInv z
  let z := curve.modMultFast z point.2
  curve.modMultFast z (R.pick bit).1.1

/-- The bits that the loop reads, `num_bits - 2` down to one. -/
def loopBits (testBit : ℕ → Bool) (numBits : ℕ) : List Bool :=
  (List.range' 1 (numBits - 2)).reverse.map testBit

/-- `EccPoint_mult`, for a scalar with these bits. -/
def eccPointMult (point : F × F) (testBit : ℕ → Bool) (initialZ : Option F) (numBits : ℕ) : F × F :=
  let R := (loopBits testBit numBits).foldl curve.ladderRound (curve.ladderStart point initialZ)
  let bit := testBit 0
  let R := curve.ladderAddC bit R
  let z := curve.finalZ point bit R
  curve.applyZ (curve.ladderAdd bit R).r0 z

end CurveOps

/-! ## Relations that the arithmetic keeps -/

def Both {F G : Type} (R : F → G → Prop) (P : F × F) (Q : G × G) : Prop := R P.1 Q.1 ∧ R P.2 Q.2

structure RegsRel {F G : Type} (R : F → G → Prop) (r : CoZ.Regs F) (s : CoZ.Regs G) : Prop where
  r0 : Both R r.r0 s.r0
  r1 : Both R r.r1 s.r1
  sub : R r.sub s.sub

theorem RegsRel.pick {F G : Type} {R : F → G → Prop} {r : CoZ.Regs F} {s : CoZ.Regs G}
    (h : RegsRel R r s) (b : Bool) :
    Both R (r.pick b).1 (s.pick b).1 ∧ Both R (r.pick b).2 (s.pick b).2 := by
  cases b with
  | false => exact ⟨h.r0, h.r1⟩
  | true => exact ⟨h.r1, h.r0⟩

theorem RegsRel.put {F G : Type} {R : F → G → Prop} {p q : F × F} {p' q' : G × G} {s : F} {s' : G}
    (hp : Both R p p') (hq : Both R q q') (hs : R s s') (b : Bool) :
    RegsRel R (.put b p q s) (.put b p' q' s') := by
  cases b with
  | false => exact ⟨hp, hq, hs⟩
  | true => exact ⟨hq, hp, hs⟩

/-- Every operation keeps the relation. -/
structure OpsRel {F G : Type} (R : F → G → Prop) (A : CurveOps F) (B : CurveOps G) : Prop where
  add : ∀ {x x' y y'}, R x x' → R y y' → R (A.modAdd x y) (B.modAdd x' y')
  sub : ∀ {x x' y y'}, R x x' → R y y' → R (A.modSub x y) (B.modSub x' y')
  mult : ∀ {x x' y y'}, R x x' → R y y' → R (A.modMultFast x y) (B.modMultFast x' y')
  inv : ∀ {x x'}, R x x' → R (A.modInv x) (B.modInv x')
  half : ∀ {x x'}, R x x' → R (A.half x) (B.half x')
  one : R A.one B.one
  three : R A.three B.three
  b : R A.b B.b

namespace OpsRel

open CoZ (Regs)

variable {F G : Type} {R : F → G → Prop} {A : CurveOps F} {B : CurveOps G} (hops : OpsRel R A B)
include hops

theorem square {x : F} {x' : G} (hx : R x x') : R (A.modSquareFast x) (B.modSquareFast x') :=
  hops.mult hx hx

theorem doubleJacobian {P : F × F} {P' : G × G} {Z : F} {Z' : G} (hP : Both R P P') (hZ : R Z Z')
    (hA : A.isZero Z = false) (hB : B.isZero Z' = false) :
    Both R (A.doubleJacobian P Z).1 (B.doubleJacobian P' Z').1 ∧
      R (A.doubleJacobian P Z).2 (B.doubleJacobian P' Z').2 := by
  obtain ⟨hX, hY⟩ := hP
  unfold CurveOps.doubleJacobian
  dsimp only
  rw [hA, hB, if_neg Bool.false_ne_true, if_neg Bool.false_ne_true]
  have ht4 := hops.square hY
  have ht5 := hops.mult hX ht4
  have hz2 := hops.square hZ
  have hsum := hops.add hX hz2
  have hcube := hops.mult hsum (hops.sub hsum (hops.add hz2 hz2))
  have hB := hops.half (hops.add hcube (hops.add hcube hcube))
  have hx3 := hops.sub (hops.sub (hops.square hB) ht5) ht5
  exact ⟨⟨hx3, hops.sub (hops.mult hB (hops.sub ht5 hx3)) (hops.square ht4)⟩, hops.mult hY hZ⟩

theorem xSide {x : F} {x' : G} (hx : R x x') : R (A.xSide x) (B.xSide x') :=
  hops.add (hops.mult (hops.sub (hops.square hx) hops.three) hx) hops.b

theorem applyZ {P : F × F} {P' : G × G} {Z : F} {Z' : G} (hP : Both R P P') (hZ : R Z Z') :
    Both R (A.applyZ P Z) (B.applyZ P' Z') :=
  ⟨hops.mult hP.1 (hops.square hZ), hops.mult hP.2 (hops.mult (hops.square hZ) hZ)⟩

theorem xyczAdd {P Q : F × F} {P' Q' : G × G} (hP : Both R P P') (hQ : Both R Q Q') :
    Both R (A.xyczAdd P Q).1 (B.xyczAdd P' Q').1 ∧
      Both R (A.xyczAdd P Q).2.1 (B.xyczAdd P' Q').2.1 ∧
      R (A.xyczAdd P Q).2.2 (B.xyczAdd P' Q').2.2 := by
  have hsq := hops.square (hops.sub hQ.1 hP.1)
  have hB := hops.mult hP.1 hsq
  have hC := hops.mult hQ.1 hsq
  have hdy := hops.sub hQ.2 hP.2
  have hx3 := hops.sub (hops.sub (hops.square hdy) hB) hC
  have hE := hops.mult hP.2 (hops.sub hC hB)
  have hsub := hops.sub hB hx3
  exact ⟨⟨hB, hE⟩, ⟨hx3, hops.sub (hops.mult hdy hsub) hE⟩, hsub⟩

theorem xyczAddC {P Q : F × F} {P' Q' : G × G} {s : F} {s' : G} (hP : Both R P P')
    (hQ : Both R Q Q') (hs : R s s') :
    Both R (A.xyczAddC P Q s).1 (B.xyczAddC P' Q' s').1 ∧
      Both R (A.xyczAddC P Q s).2 (B.xyczAddC P' Q' s').2 := by
  have hsq := hops.square hs
  have hB := hops.mult hP.1 hsq
  have hC := hops.mult hQ.1 hsq
  have hsy := hops.add hQ.2 hP.2
  have hdy := hops.sub hQ.2 hP.2
  have hE := hops.mult hP.2 (hops.sub hC hB)
  have hBC := hops.add hB hC
  have hx3 := hops.sub (hops.square hdy) hBC
  have hx3' := hops.sub (hops.square hsy) hBC
  exact ⟨⟨hx3', hops.sub (hops.mult (hops.sub hx3' hB) hsy) hE⟩,
    ⟨hx3, hops.sub (hops.mult hdy (hops.sub hB hx3)) hE⟩⟩

theorem xyczInitialDouble {P : F × F} {P' : G × G} {Z : Option F} {Z' : Option G}
    (hP : Both R P P') (hZ : R (Z.getD A.one) (Z'.getD B.one))
    (hA : A.isZero (Z.getD A.one) = false) (hB : B.isZero (Z'.getD B.one) = false) :
    Both R (A.xyczInitialDouble P Z).1 (B.xyczInitialDouble P' Z').1 ∧
      Both R (A.xyczInitialDouble P Z).2 (B.xyczInitialDouble P' Z').2 := by
  have hdouble := hops.doubleJacobian (hops.applyZ hP hZ) hZ hA hB
  exact ⟨hdouble.1, hops.applyZ hP hdouble.2⟩

theorem ladderStart {P : F × F} {P' : G × G} {Z : Option F} {Z' : Option G}
    (hP : Both R P P') (hZ : R (Z.getD A.one) (Z'.getD B.one))
    (hA : A.isZero (Z.getD A.one) = false) (hB : B.isZero (Z'.getD B.one) = false) :
    RegsRel R (A.ladderStart P Z) (B.ladderStart P' Z') := by
  obtain ⟨h1, h0⟩ := hops.xyczInitialDouble hP hZ hA hB
  exact ⟨h0, h1, hops.sub h0.1 h1.1⟩

theorem ladderAddC {r : Regs F} {s : Regs G} (h : RegsRel R r s) (bit : Bool) :
    RegsRel R (A.ladderAddC bit r) (B.ladderAddC bit s) := by
  obtain ⟨hdiff, hsum⟩ := hops.xyczAddC (h.pick bit).1 (h.pick bit).2 h.sub
  exact .put hdiff hsum h.sub bit

theorem ladderAdd {r : Regs F} {s : Regs G} (h : RegsRel R r s) (bit : Bool) :
    RegsRel R (A.ladderAdd bit r) (B.ladderAdd bit s) := by
  obtain ⟨hP, hsum, hsub⟩ := hops.xyczAdd (h.pick bit).2 (h.pick bit).1
  exact .put hsum hP hsub bit

theorem ladderRound {r : Regs F} {s : Regs G} (h : RegsRel R r s) (bit : Bool) :
    RegsRel R (A.ladderRound r bit) (B.ladderRound s bit) :=
  hops.ladderAdd (hops.ladderAddC h bit) bit

theorem ladderRounds {r : Regs F} {s : Regs G} (h : RegsRel R r s) (bits : List Bool) :
    RegsRel R (bits.foldl A.ladderRound r) (bits.foldl B.ladderRound s) := by
  induction bits generalizing r s with
  | nil => exact h
  | cons bit bits ih => exact ih (hops.ladderRound h bit)

theorem finalZ {P : F × F} {P' : G × G} {r : Regs F} {s : Regs G} (hP : Both R P P')
    (h : RegsRel R r s) (bit : Bool) : R (A.finalZ P bit r) (B.finalZ P' bit s) := by
  obtain ⟨hx, hy⟩ := (h.pick bit).1
  have hz := hops.mult (hops.mult (hops.sub h.r1.1 h.r0.1) hy) hP.1
  exact hops.mult (hops.mult (hops.inv hz) hP.2) hx

/-- **The point multiplication.** Related points and `z` have related multiples. -/
theorem eccPointMult {P : F × F} {P' : G × G} {Z : Option F} {Z' : Option G} (hP : Both R P P')
    (hZ : R (Z.getD A.one) (Z'.getD B.one)) (hA : A.isZero (Z.getD A.one) = false)
    (hB : B.isZero (Z'.getD B.one) = false) (testBit : ℕ → Bool) (numBits : ℕ) :
    Both R (A.eccPointMult P testBit Z numBits) (B.eccPointMult P' testBit Z' numBits) := by
  have hrounds := hops.ladderRounds (hops.ladderStart hP hZ hA hB)
    (CurveOps.loopBits testBit numBits)
  have hlast := hops.ladderAddC hrounds (testBit 0)
  exact hops.applyZ (hops.ladderAdd hlast (testBit 0)).r0 (hops.finalZ hP hlast (testBit 0))

end OpsRel

/-! ## The scalar -/

theorem loopBits_length (testBit : ℕ → Bool) (numBits : ℕ) :
    (CurveOps.loopBits testBit numBits).length = numBits - 2 := by
  simp [CurveOps.loopBits]

/-- The rounds so far are those for the highest bits of the scalar. -/
theorem headNat_take_loopBits {k numBits : ℕ} (hge : 2 ^ (numBits - 1) ≤ k) (hlt : k < 2 ^ numBits)
    {t : ℕ} (ht : t ≤ numBits - 2) :
    CoZ.headNat ((CurveOps.loopBits k.testBit numBits).take t) = k / 2 ^ (numBits - 1 - t) := by
  induction t with
  | zero =>
    have hpos : 0 < numBits := Nat.pos_of_ne_zero fun h => by
      subst h
      simp only [zero_tsub, pow_zero] at hge hlt
      omega
    have hpow : 2 ^ numBits = 2 * 2 ^ (numBits - 1) := by
      rw [← pow_succ', Nat.sub_add_cancel hpos]
    have hone : k / 2 ^ (numBits - 1) = 1 := Nat.div_eq_of_lt_le (by omega) (by omega)
    exact hone.symm
  | succ t ih =>
    have hlast : (CurveOps.loopBits k.testBit numBits)[t]? =
        some (k.testBit (numBits - 2 - t)) := by
      unfold CurveOps.loopBits
      rw [List.getElem?_map, List.getElem?_reverse (by simpa using ht), List.length_range',
        List.getElem?_range' (by omega)]
      simp only [Option.map_some, Option.some.injEq]
      congr 1
      omega
    have hexp : numBits - 1 - t = numBits - 2 - t + 1 := by omega
    have hexp' : numBits - 1 - (t + 1) = numBits - 2 - t := by omega
    rw [List.take_add_one, hlast, Option.toList_some, CoZ.headNat_snoc, ih (by omega), hexp, hexp',
      Nat.toNat_testBit, pow_succ, ← Nat.div_div_eq_div_mul]
    omega

theorem headNat_loopBits {k numBits : ℕ} (hbits : 2 ≤ numBits) (hge : 2 ^ (numBits - 1) ≤ k)
    (hlt : k < 2 ^ numBits) :
    CoZ.headNat (CurveOps.loopBits k.testBit numBits) = k / 2 := by
  have hall := headNat_take_loopBits hge hlt le_rfl
  have hexp : numBits - 1 - (numBits - 2) = 1 := by omega
  rwa [List.take_of_length_le (loopBits_length _ _).le, hexp, pow_one] at hall

theorem two_mul_headNat_add {k numBits : ℕ} (hbits : 2 ≤ numBits) (hge : 2 ^ (numBits - 1) ≤ k)
    (hlt : k < 2 ^ numBits) :
    2 * CoZ.headNat (CurveOps.loopBits k.testBit numBits) + (k.testBit 0).toNat = k := by
  rw [headNat_loopBits hbits hge hlt, Nat.toNat_testBit, pow_zero, Nat.div_one]
  omega

/-! ## In a field -/

/-- The arithmetic of a field. -/
def CurveOps.ofField {F : Type} [Field F] [DecidableEq F] (b : F) : CurveOps F where
  modAdd := (· + ·)
  modSub := (· - ·)
  modMultFast := (· * ·)
  modInv := (·⁻¹)
  half := (· / (2 : ℕ))
  isZero x := x = 0
  one := 1
  three := (3 : ℕ)
  b := b

section Field

variable {F : Type} [Field F] [DecidableEq F] (b : F)

open CurveOps (ofField)

theorem ofField_xSide (x : F) : (ofField b).xSide x = x ^ 3 - 3 * x + b := by
  unfold CurveOps.xSide CurveOps.modSquareFast ofField
  dsimp only
  ring

theorem ofField_applyZ (P : F × F) (z : F) : (ofField b).applyZ P z = CoZ.scale z P := by
  unfold CurveOps.applyZ CurveOps.modSquareFast ofField CoZ.scale
  refine Prod.ext ?_ ?_ <;> dsimp only <;> ring

theorem ofField_doubleJacobian (P : F × F) {z : F} (hz : z ≠ 0) :
    (ofField b).doubleJacobian P z = (CoZ.double (-3) z P, P.2 * z) := by
  unfold CurveOps.doubleJacobian CurveOps.modSquareFast ofField CoZ.double
  dsimp only
  rw [if_neg fun h => hz (of_decide_eq_true h)]
  refine Prod.ext (Prod.ext ?_ ?_) rfl <;> dsimp only <;> ring

theorem ofField_xyczAdd (P Q : F × F) : (ofField b).xyczAdd P Q = CoZ.add P Q := by
  unfold CurveOps.xyczAdd CurveOps.modSquareFast ofField CoZ.add
  refine Prod.ext (Prod.ext ?_ ?_) (Prod.ext (Prod.ext ?_ ?_) ?_) <;> dsimp only <;> ring

theorem ofField_xyczAddC (P Q : F × F) (s : F) : (ofField b).xyczAddC P Q s = CoZ.addC P Q s := by
  unfold CurveOps.xyczAddC CurveOps.modSquareFast ofField CoZ.addC
  refine Prod.ext (Prod.ext ?_ ?_) (Prod.ext ?_ ?_) <;> dsimp only <;> ring

theorem ofField_ladderStart (P : F × F) {Z : Option F} (hz : Z.getD 1 ≠ 0) :
    (ofField b).ladderStart P Z = CoZ.start (-3) P (Z.getD 1) := by
  have hdouble := ofField_doubleJacobian b ((ofField b).applyZ P (Z.getD 1)) hz
  unfold CurveOps.ladderStart CurveOps.xyczInitialDouble CoZ.start
  dsimp only
  rw [show (ofField b).one = 1 from rfl, hdouble, ofField_applyZ, ofField_applyZ]
  rfl

theorem ofField_ladderAddC (bit : Bool) (R : CoZ.Regs F) :
    (ofField b).ladderAddC bit R = .put bit (R.conj bit).1 (R.conj bit).2 R.sub := by
  unfold CurveOps.ladderAddC CoZ.Regs.conj
  rw [ofField_xyczAddC]

theorem ofField_ladderAdd (bit : Bool) (d : (F × F) × (F × F)) (s : F) :
    (ofField b).ladderAdd bit (.put bit d.1 d.2 s) = CoZ.join bit d := by
  unfold CurveOps.ladderAdd CoZ.join
  rw [ofField_xyczAdd]
  cases bit <;> rfl

theorem ofField_finalZ (P : F × F) (bit : Bool) (d : (F × F) × (F × F)) (s : F) :
    (ofField b).finalZ P bit (.put bit d.1 d.2 s) = CoZ.lastZ P bit d := by
  unfold CurveOps.finalZ CoZ.lastZ ofField
  cases bit <;> rfl

theorem ofField_ladderRound (R : CoZ.Regs F) (bit : Bool) :
    (ofField b).ladderRound R bit = CoZ.step bit R := by
  unfold CurveOps.ladderRound CoZ.step
  rw [ofField_ladderAddC, ofField_ladderAdd]

/-- In a field the point multiplication is the ladder. -/
theorem ofField_eccPointMult (P : F × F) (testBit : ℕ → Bool) {Z : Option F} (hz : Z.getD 1 ≠ 0)
    (numBits : ℕ) : (ofField b).eccPointMult P testBit Z numBits =
      CoZ.ladder (-3) P (Z.getD 1) (CurveOps.loopBits testBit numBits) (testBit 0) := by
  have hround : (ofField b).ladderRound = fun R bit => CoZ.step bit R := by
    funext R bit
    exact ofField_ladderRound b R bit
  unfold CurveOps.eccPointMult CoZ.ladder CoZ.rounds CoZ.finish
  dsimp only
  rw [hround, ofField_ladderStart b P hz, ofField_ladderAddC, ofField_ladderAdd, ofField_finalZ,
    ofField_applyZ]

end Field

end River2
