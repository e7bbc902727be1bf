import Mathlib

/-!
# Records of fixed-width fields

A record is decoded in field order: as many leading fields as fit are taken, the rest is absent.
`decode_getElem?`: a field is present if and only if the bytes up to its end are there, and then it
is found at its `offset`.
-/

namespace Fields

variable {α : Type*}

/-- The leading fields of the given widths that fit. -/
def decode : List ℕ → List α → List (List α)
  | [], _ => []
  | w :: ws, d => if w ≤ d.length then d.take w :: decode ws (d.drop w) else []

/-- Where a field begins. -/
def offset (ws : List ℕ) (i : ℕ) : ℕ := (ws.take i).sum

@[simp] theorem offset_zero (ws : List ℕ) : offset ws 0 = 0 := rfl

@[simp] theorem offset_succ (w : ℕ) (ws : List ℕ) (i : ℕ) :
    offset (w :: ws) (i + 1) = w + offset ws i := by
  unfold offset
  rw [List.take_succ_cons, List.sum_cons]

/-- **A field** is present if and only if its last byte is, and then it is found at its offset. -/
theorem decode_getElem? (ws : List ℕ) (d : List α) (i : ℕ) :
    (decode ws d)[i]? = ws[i]?.bind fun w =>
      if offset ws i + w ≤ d.length then some ((d.drop (offset ws i)).take w) else none := by
  induction ws generalizing d i with
  | nil => rfl
  | cons w ws ih =>
    unfold decode
    cases i with
    | zero =>
      rw [offset_zero, List.getElem?_cons_zero]
      split_ifs with hfit
      · simp [hfit]
      · simp [hfit]
    | succ i =>
      rw [offset_succ, List.getElem?_cons_succ]
      split_ifs with hfit
      · rw [List.getElem?_cons_succ, ih, List.length_drop]
        refine congrArg (Option.bind _) (funext fun w' => ?_)
        rw [List.drop_drop]
        refine if_congr ?_ rfl rfl
        omega
      · -- a field behind one that does not fit does not fit
        rw [List.getElem?_nil]
        cases ws[i]? with
        | none => rfl
        | some w' => exact (if_neg (by omega)).symm

theorem decode_byte {ws : List ℕ} {i : ℕ} (hw : ws[i]? = some 1) (d : List α) :
    (decode ws d)[i]? = d[offset ws i]?.map fun b => [b] := by
  rw [decode_getElem?, hw, Option.bind_some]
  by_cases hlen : offset ws i + 1 ≤ d.length
  · rw [if_pos hlen, List.getElem?_eq_getElem hlen, List.drop_eq_getElem_cons hlen]
    rfl
  · rw [if_neg hlen, List.getElem?_eq_none (by omega)]
    rfl

end Fields
