import River2.Bytes

/-!
# Checked accesses

Reads, copies and subtractions as C leaves them to the programmer, with the check that C does not
make: `none` is an access past the end or a `size_t` that wraps. A function written with them that
never gives `none` stays inside its buffers.
-/

namespace River2

/-- `a - b` in `size_t`, which must not wrap. -/
def sub? (a b : ℕ) : Option ℕ := if b ≤ a then some (a - b) else none

/-- `b[i]`, which must lie in the buffer. -/
def byte? (b : Bytes) (i : ℕ) : Option UInt8 := b[i]?

/-- `rd_u16le(&b[i])`. -/
def word? (b : Bytes) (i : ℕ) : Option UInt16 := do
  let lo ← byte? b i
  let hi ← byte? b (i + 1)
  return lo.toUInt16 ||| (hi.toUInt16 <<< 8)

/-- The bytes `b[i], …, b[i + n - 1]`. -/
def range? (b : Bytes) (i n : ℕ) : Option Bytes :=
  if i + n ≤ b.length then some (slice b i n) else none

theorem bind_checked {α β : Type} {o : Option α} {a : α} (h : o = some a) (f : α → Option β) :
    (o >>= f) = f a := by
  rw [h]
  rfl

theorem sub?_of_le {a b : ℕ} (h : b ≤ a) : sub? a b = some (a - b) := if_pos h

theorem byte?_of_lt {b : Bytes} {i : ℕ} (h : i < b.length) : byte? b i = some (b.getD i 0) := by
  unfold byte?
  rw [List.getElem?_eq_getElem h, List.getD_eq_getElem _ _ h]

theorem word?_of_le {b : Bytes} {i : ℕ} (h : i + 2 ≤ b.length) :
    word? b i = some (rdU16le b i) := by
  unfold word?
  rw [bind_checked (byte?_of_lt (by omega)), bind_checked (byte?_of_lt (by omega))]
  rfl

theorem range?_of_le {b : Bytes} {i n : ℕ} (h : i + n ≤ b.length) :
    range? b i n = some (slice b i n) := if_pos h

end River2
