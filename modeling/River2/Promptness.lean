import River2.Resync

/-!
# Promptness of the extraction

`framebufExtract` waits at the first prefix that may still become a frame, and it reads a run of
`0x5A` bytes in pairs. `extract_prompt_iff`: it finds nothing in a buffer that holds a valid frame
exactly when every such frame stands behind a prefix begun and not complete, or behind a run of odd
length.
-/

namespace River2

/-- The prefix of a frame with bytes missing: the header is incomplete, or it announces more bytes
than there are. -/
def Begun (d : Bytes) : Prop :=
  (d.getD 0 0 = 0x5A ∧ d.getD 1 0 = 0x5A) ∧
    (d.length < 6 ∨ (2 ≤ (rdU16le d 4).toNat ∧ (rdU16le d 4).toNat ≤ 4096) ∧
      d.length < 6 + (rdU16le d 4).toNat)

/-- The scan gets to offset `i`: the run of `0x5A` bytes before it is of even length, and no prefix
begun and not complete stands at such an offset before it. -/
def Visited (b : Bytes) (i : ℕ) : Prop :=
  Even (endRun (b.take i)) ∧ ∀ j < i, Even (endRun (b.take j)) → ¬ Begun (b.drop j)

/-- A valid frame starts at an offset the scan gets to. -/
def InReach (b : Bytes) : Prop := ∃ i, Visited b i ∧ ValidFrame (b.drop i)

theorem visited_zero (b : Bytes) : Visited b 0 := by
  refine ⟨?_, fun j hj => absurd hj (Nat.not_lt_zero j)⟩
  rw [List.take_zero]
  exact Even.zero

theorem not_validFrame_of_short {d : Bytes} (h : d.length < 2) : ¬ ValidFrame d := by
  intro hv
  have := hv.2.2.1
  omega

/-! ## Verdicts at a prefix -/

theorem headLook_cases {d : Bytes} (hp : d.getD 0 0 = 0x5A ∧ d.getD 1 0 = 0x5A) :
    (headLook d = .wait 0 ∧ Begun d ∧ ¬ ValidFrame d) ∨
    (headLook d = .skip 2 ∧ ¬ Begun d ∧ ¬ ValidFrame d) ∨
    ((∃ f n, headLook d = .emit f n) ∧ ValidFrame d) := by
  unfold headLook
  by_cases h6 : d.length < 6
  · rw [if_pos h6]
    refine Or.inl ⟨rfl, ⟨hp, Or.inl h6⟩, fun hv => ?_⟩
    have := hv.2.2.1
    omega
  rw [if_neg h6]
  by_cases hbad : (rdU16le d 4).toNat < 2 ∨ (rdU16le d 4).toNat > 4096
  · rw [if_pos hbad]
    refine Or.inr (Or.inl ⟨rfl, fun hb => ?_, fun hv => ?_⟩)
    · have := hb.2
      omega
    · have := hv.2.1
      omega
  rw [if_neg hbad]
  by_cases hinc : 6 + (rdU16le d 4).toNat > d.length
  · rw [if_pos hinc]
    refine Or.inl ⟨rfl, ⟨hp, Or.inr ⟨by omega, hinc⟩⟩, fun hv => ?_⟩
    have := hv.2.2.1
    omega
  rw [if_neg hinc]
  by_cases hcrc : rdU16le d (6 + (rdU16le d 4).toNat - 2) =
      crc16 (d.take (6 + (rdU16le d 4).toNat - 2))
  · rw [if_neg (not_not.mpr hcrc)]
    exact Or.inr (Or.inr ⟨⟨_, _, rfl⟩, hp, by omega, by omega, hcrc⟩)
  · rw [if_pos hcrc]
    refine Or.inr (Or.inl ⟨rfl, fun hb => ?_, fun hv => hcrc hv.2.2.2⟩)
    have := hb.2
    omega

/-! ## Offsets behind the first byte -/

/-- Before a byte `0x5A` that does not make a pair with the byte `a` in front, that byte `a` does
not count. -/
theorem even_endRun_cons {a b : UInt8} {l : Bytes} (hp : ¬ (a = 0x5A ∧ b = 0x5A)) {i : ℕ}
    (hi : ((b :: l).drop i).getD 0 0 = 0x5A) :
    Even (endRun ((a :: b :: l).take (i + 1))) ↔ Even (endRun ((b :: l).take i)) := by
  cases i with
  | zero =>
    have ha : a ≠ 0x5A := fun ha => hp ⟨ha, hi⟩
    rw [List.take_succ_cons, List.take_zero, endRun_cons, if_neg (fun h => ha h.1)]
  | succ i => rw [List.take_succ_cons, List.take_succ_cons, endRun_of_not_pair hp]

theorem inReach_cons {a b : UInt8} {l : Bytes} (hp : ¬ (a = 0x5A ∧ b = 0x5A)) :
    InReach (a :: b :: l) ↔ InReach (b :: l) := by
  constructor
  · rintro ⟨i, ⟨heven, hbefore⟩, hv⟩
    cases i with
    | zero => exact absurd hv.1 hp
    | succ i =>
      rw [List.drop_succ_cons] at hv
      refine ⟨i, ⟨(even_endRun_cons hp hv.1.1).mp heven, fun j hj hj' hb => ?_⟩, hv⟩
      exact hbefore (j + 1) (Nat.succ_lt_succ hj) ((even_endRun_cons hp hb.1.1).mpr hj') hb
  · rintro ⟨i, ⟨heven, hbefore⟩, hv⟩
    refine ⟨i + 1, ⟨(even_endRun_cons hp hv.1.1).mpr heven, fun j hj hj' hb => ?_⟩, hv⟩
    cases j with
    | zero => exact hp hb.1
    | succ j =>
      exact hbefore j (Nat.lt_of_succ_lt_succ hj) ((even_endRun_cons hp hb.1.1).mp hj') hb

theorem odd_endRun_one : ¬ Even (endRun [0x5A]) := by decide

/-- Behind a spurious prefix the scan goes on two bytes later. -/
theorem inReach_pair {l : Bytes} (hb : ¬ Begun (0x5A :: 0x5A :: l))
    (hv : ¬ ValidFrame (0x5A :: 0x5A :: l)) : InReach (0x5A :: 0x5A :: l) ↔ InReach l := by
  constructor
  · rintro ⟨i, ⟨heven, hbefore⟩, hvi⟩
    match i with
    | 0 => exact absurd hvi hv
    | 1 => exact absurd heven odd_endRun_one
    | i + 2 =>
      refine ⟨i, ⟨(endRun_pair _).mp heven, fun j hj hj' => ?_⟩, hvi⟩
      exact hbefore (j + 2) (Nat.add_lt_add_right hj 2) ((endRun_pair _).mpr hj')
  · rintro ⟨i, ⟨heven, hbefore⟩, hvi⟩
    refine ⟨i + 2, ⟨(endRun_pair _).mpr heven, fun j hj hj' => ?_⟩, hvi⟩
    match j with
    | 0 => exact hb
    | 1 => exact absurd hj' odd_endRun_one
    | j + 2 => exact hbefore j (Nat.lt_of_add_lt_add_right hj) ((endRun_pair _).mp hj')

/-! ## The extraction -/

/-- The extraction finds a frame exactly if one is in reach. -/
theorem next_isSome_iff (b : Bytes) : (frameScanner.next b).1.isSome ↔ InReach b := by
  have hnone : ∀ d : Bytes, d.length < 2 → ((frameScanner.next d).1.isSome ↔ InReach d) := by
    intro d hd
    have hfind : findPrefix d = none := by
      cases h : findPrefix d with
      | none => rfl
      | some i =>
        have := findPrefix_le h
        omega
    rw [frameScanner.next_wait (frameLook_none hfind)]
    constructor
    · nofun
    rintro ⟨i, -, hv⟩
    exact absurd hv (not_validFrame_of_short (by rw [List.length_drop]; omega))
  match b with
  | [] => exact hnone [] (by decide)
  | [a] => exact hnone [a] (Nat.one_lt_two)
  | a :: c :: l =>
    by_cases hp : a = 0x5A ∧ c = 0x5A
    · obtain ⟨rfl, rfl⟩ := hp
      have hlook : frameLook (0x5A :: 0x5A :: l) = headLook (0x5A :: 0x5A :: l) := by
        rw [frameLook_some (findPrefix_head l), List.drop_zero, Verdict.shift_zero]
      obtain ⟨hw, hb, hv⟩ | ⟨hs, hb, hv⟩ | ⟨⟨f, n, he⟩, hv⟩ :=
        headLook_cases (d := 0x5A :: 0x5A :: l) ⟨rfl, rfl⟩
      · rw [frameScanner.next_wait (b := 0x5A :: 0x5A :: l) (hlook.trans hw)]
        constructor
        · nofun
        rintro ⟨i, ⟨-, hbefore⟩, hvi⟩
        cases i with
        | zero => exact absurd hvi hv
        | succ i => exact absurd hb (hbefore 0 (Nat.succ_pos i) (visited_zero _).1)
      · rw [frameScanner.next_skip (b := 0x5A :: 0x5A :: l) (hlook.trans hs), inReach_pair hb hv]
        exact next_isSome_iff l
      · rw [frameScanner.next_emit (b := 0x5A :: 0x5A :: l) (hlook.trans he)]
        exact ⟨fun _ => ⟨0, visited_zero _, hv⟩, fun _ => rfl⟩
    · rw [next_cons_of_not_pair hp, inReach_cons hp]
      exact next_isSome_iff (c :: l)
termination_by b.length

/-- **Promptness, exactly.** With memory, an extraction that finds nothing leaves no valid frame
behind, if and only if a buffer with a valid frame in it has one in the scan's reach. -/
theorem extract_prompt_iff (fb : Framebuf) :
    ((framebufExtract true fb).1 = none → ∀ i, ¬ ValidFrame (fb.data.drop i)) ↔
      ((∃ i, ValidFrame (fb.data.drop i)) → InReach fb.data) := by
  rw [(framebufExtract_eq_next fb).1, ← next_isSome_iff, Option.isSome_iff_ne_none]
  constructor
  · rintro h ⟨i, hv⟩ hnone
    exact h hnone i hv
  · rintro h hnone i hv
    exact h ⟨i, hv⟩ hnone

/-- Six bytes that announce a frame of 4096 bytes hold back the complete frame behind them. -/
theorem extract_held_back :
    let f : WireFrame := ⟨⟨1, [7]⟩, by decide, by decide⟩
    let s := [0x5A, 0x5A, 0, 0, 0, 0x10] ++ f.encode
    ValidFrame (s.drop 6) ∧ (framebufAppend true framebufInit s).1 = true ∧
      (framebufExtract true (framebufAppend true framebufInit s).2).1 = none := by
  decide +kernel

end River2
