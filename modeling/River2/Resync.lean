import River2.Reassembly

/-!
# Resynchronisation behind garbage

`framebufExtract` skips two bytes over a spurious prefix, so it reads a run of `0x5A` bytes in
pairs. If the garbage before a frame ends in a run of odd length, its last byte is paired with the
first byte of the frame, and the frame is lost (`next_garbage`); else the frame is found.
-/

namespace River2

/-- A frame starts at the head of `b`: the prefix, a length field between 2 and 4096, all the bytes
it announces, and a matching CRC. -/
def ValidFrame (b : Bytes) : Prop :=
  (b.getD 0 0 = 0x5A ∧ b.getD 1 0 = 0x5A) ∧
    (2 ≤ (rdU16le b 4).toNat ∧ (rdU16le b 4).toNat ≤ 4096) ∧
    6 + (rdU16le b 4).toNat ≤ b.length ∧
    rdU16le b (6 + (rdU16le b 4).toNat - 2) = crc16 (b.take (6 + (rdU16le b 4).toNat - 2))

instance (b : Bytes) : Decidable (ValidFrame b) := by unfold ValidFrame; infer_instance

/-- The length of the run of `0x5A` bytes that ends `g`. -/
def endRun (g : Bytes) : ℕ := (g.rtakeWhile (· == 0x5A)).length

/-! ## Runs -/

theorem endRun_of_forall {l : Bytes} (h : ∀ x ∈ l, x = 0x5A) : endRun l = l.length := by
  unfold endRun
  rw [List.rtakeWhile_eq_self_iff.mpr (fun x hx => by rw [h x hx]; rfl)]

theorem endRun_cons (a : UInt8) (l : Bytes) :
    endRun (a :: l) = if a = 0x5A ∧ ∀ x ∈ l, x = 0x5A then l.length + 1 else endRun l := by
  by_cases hl : ∀ x ∈ l, x = 0x5A
  · by_cases ha : a = 0x5A
    · rw [if_pos ⟨ha, hl⟩, endRun_of_forall (List.forall_mem_cons.mpr ⟨ha, hl⟩), List.length_cons]
    · have hrev : l.reverse.takeWhile (· == 0x5A) = l.reverse :=
        List.takeWhile_eq_self_iff.mpr fun x hx => by rw [hl x (List.mem_reverse.mp hx)]; rfl
      rw [if_neg (fun h => ha h.1), endRun_of_forall hl]
      unfold endRun List.rtakeWhile
      rw [List.reverse_cons, List.takeWhile_append, hrev, if_pos rfl, List.takeWhile_cons,
        if_neg (by simpa using ha), List.append_nil, List.length_reverse, List.length_reverse]
  · have hshort : (l.reverse.takeWhile (· == 0x5A)).length ≠ l.reverse.length := by
      intro hlen
      have heq := (List.takeWhile_prefix _).eq_of_length hlen
      refine hl fun x hx => ?_
      have := List.takeWhile_eq_self_iff.mp heq x (List.mem_reverse.mpr hx)
      simpa using this
    rw [if_neg (fun h => hl h.2)]
    unfold endRun List.rtakeWhile
    rw [List.reverse_cons, List.takeWhile_append, if_neg hshort]

theorem endRun_pair (l : Bytes) : Even (endRun (0x5A :: 0x5A :: l)) ↔ Even (endRun l) := by
  rw [endRun_cons, endRun_cons]
  by_cases h : ∀ x ∈ l, x = 0x5A
  · rw [if_pos ⟨rfl, List.forall_mem_cons.mpr ⟨rfl, h⟩⟩, endRun_of_forall h, List.length_cons,
      Nat.even_add_one, Nat.even_add_one, not_not]
  · rw [if_neg (fun hc => h (fun x hx => hc.2 x (List.mem_cons_of_mem _ hx))),
      if_neg (fun hc => h hc.2)]

theorem endRun_of_not_pair {a b : UInt8} {l : Bytes} (hp : ¬ (a = 0x5A ∧ b = 0x5A)) :
    endRun (a :: b :: l) = endRun (b :: l) := by
  rw [endRun_cons a, if_neg]
  rintro ⟨ha, hall⟩
  exact hp ⟨ha, hall b (List.mem_cons_self ..)⟩

/-! ## Skipping garbage -/

/-- A prefix with enough bytes behind it that starts no valid frame is skipped. -/
theorem headLook_of_not_valid {rest : Bytes} (hlen : 4102 ≤ (0x5A :: 0x5A :: rest : Bytes).length)
    (h : ¬ ValidFrame (0x5A :: 0x5A :: rest)) : headLook (0x5A :: 0x5A :: rest) = .skip 2 := by
  generalize hd : (0x5A :: 0x5A :: rest : Bytes) = d at *
  unfold headLook
  rw [if_neg (by omega)]
  split_ifs with hbad hinc hcrc
  · rfl
  · omega
  · rfl
  · refine absurd ⟨?_, ?_, ?_, not_not.mp hcrc⟩ h
    · rw [← hd]
      exact ⟨rfl, rfl⟩
    · omega
    · omega

theorem next_spurious {rest : Bytes} (hlen : 4102 ≤ (0x5A :: 0x5A :: rest : Bytes).length)
    (h : ¬ ValidFrame (0x5A :: 0x5A :: rest)) :
    frameScanner.next (0x5A :: 0x5A :: rest) = frameScanner.next rest := by
  have hlook : frameLook (0x5A :: 0x5A :: rest) = .skip 2 := by
    rw [frameLook_some (findPrefix_head rest), List.drop_zero, Verdict.shift_zero,
      headLook_of_not_valid hlen h]
  exact frameScanner.next_skip (b := 0x5A :: 0x5A :: rest) hlook

theorem frameLook_cons_of_not_pair {a b : UInt8} {l : Bytes} (hp : ¬ (a = 0x5A ∧ b = 0x5A)) :
    frameLook (a :: b :: l) = (frameLook (b :: l)).shift 1 := by
  have hcons := @findPrefix_cons_of_not _ _ l hp
  cases h : findPrefix (b :: l) with
  | none =>
    rw [h] at hcons
    rw [frameLook_none hcons, frameLook_none h, Verdict.shift_wait, List.length_cons]
    congr 1
    rw [List.length_cons]
    omega
  | some i =>
    rw [h, Option.map_some] at hcons
    rw [frameLook_some hcons, frameLook_some h, Verdict.shift_shift, List.drop_succ_cons,
      Nat.add_comm]

theorem next_cons_of_not_pair {a b : UInt8} {l : Bytes} (hp : ¬ (a = 0x5A ∧ b = 0x5A)) :
    frameScanner.next (a :: b :: l) = frameScanner.next (b :: l) :=
  frameScanner.next_of_look_shift (b := a :: b :: l) (n := 1) (frameLook_cons_of_not_pair hp)

theorem drain_cons_of_not_pair {a b : UInt8} {l : Bytes} (hp : ¬ (a = 0x5A ∧ b = 0x5A)) :
    frameScanner.drain (a :: b :: l) = frameScanner.drain (b :: l) :=
  frameScanner.drain_of_look_shift (b := a :: b :: l) (n := 1) (frameLook_cons_of_not_pair hp)

/-- **Garbage before a prefix.** The extraction reaches the prefix if the run of `0x5A` bytes that
ends the garbage has even length, and else the byte behind the prefix's first one. -/
theorem next_garbage (y : Bytes) (hlen : 4102 ≤ y.length) : ∀ g : Bytes,
    (∀ i < g.length, ¬ ValidFrame ((g ++ 0x5A :: 0x5A :: y).drop i)) →
      frameScanner.next (g ++ 0x5A :: 0x5A :: y) =
        frameScanner.next (if Even (endRun g) then 0x5A :: 0x5A :: y else 0x5A :: y)
  | [], _ => rfl
  | [a], hno => by
    by_cases ha : a = 0x5A
    · subst ha
      exact next_spurious (by simp only [List.length_cons]; omega) (hno 0 Nat.zero_lt_one)
    · have hrun : endRun [a] = 0 := by
        rw [endRun_cons, if_neg (fun h => ha h.1)]
        rfl
      rw [hrun, if_pos Even.zero]
      exact next_cons_of_not_pair (fun h => ha h.1)
  | a :: b :: rest, hno => by
    by_cases hp : a = 0x5A ∧ b = 0x5A
    · obtain ⟨rfl, rfl⟩ := hp
      have hstep := @next_spurious (rest ++ 0x5A :: 0x5A :: y)
        (by simp only [List.length_cons, List.length_append]; omega) (hno 0 (Nat.zero_lt_succ _))
      have hrec := next_garbage y hlen rest (fun i hi => hno (i + 2) (by
        rw [List.length_cons, List.length_cons]; omega))
      rw [if_congr (endRun_pair rest) rfl rfl, ← hrec]
      exact hstep
    · have hrec := next_garbage y hlen (b :: rest) (fun i hi => hno (i + 1) (by
        rw [List.length_cons]; omega))
      rw [endRun_of_not_pair hp, ← hrec]
      exact next_cons_of_not_pair hp

/-! ## The frame behind the garbage -/

/-- The first extraction after appending `s` to an empty buffer. It is also the first that can
succeed: by `framebufExtract_idem` a failing extraction is repeated by all later ones. -/
def extractFrom (s : Bytes) : Option Frame × Framebuf :=
  framebufExtract true (framebufAppend true framebufInit s).2

theorem extractFrom_next (s : Bytes) :
    frameScanner.next s = ((extractFrom s).1, (extractFrom s).2.data) := by
  have hdata := framebufAppend_data (framebufAppend_true framebufInit s)
  have hnext := next_of_framebufExtract (Prod.mk.eta (p := extractFrom s)).symm
  rwa [hdata] at hnext

theorem length_of_next_some {b b' : Bytes} {f : Frame} (h : frameScanner.next b = (some f, b')) :
    b'.length + (8 + f.payload.length) ≤ b.length := by
  obtain ⟨k, n, hlook, rfl⟩ := frameScanner.look_of_next_some h
  have hpos := (frameScanner.emit_pos hlook).2
  obtain ⟨i, -, rfl, -⟩ := frameLook_emit hlook
  rw [List.length_drop] at hpos ⊢
  omega

theorem extract_behind_garbage (g t : Bytes) (f : WireFrame) (ht : 4102 ≤ t.length)
    (hno : ∀ i < g.length, ¬ ValidFrame ((g ++ f.encode ++ t).drop i)) :
    frameScanner.next (g ++ f.encode ++ t) =
      if Even (endRun g) then (some f.toFrame, t)
      else frameScanner.next ((f.encode ++ t).drop 1) := by
  obtain ⟨rest, hrest⟩ := encode_head f
  have hshape : g ++ f.encode ++ t = g ++ 0x5A :: 0x5A :: (rest ++ t) := by
    rw [hrest, List.append_assoc]
    rfl
  have hgarbage := next_garbage (rest ++ t) (by rw [List.length_append]; omega) g
    (by rwa [← hshape])
  rw [hshape, hgarbage]
  split_ifs
  · rw [← next_encode f t, hrest]
    rfl
  · rw [hrest]
    rfl

/-- **Resynchronisation, exactly.** With no valid frame starting inside the garbage `g`, the first
extraction returns the frame `f` behind it and leaves the tail if and only if the run of `0x5A`
bytes that ends `g` has even length. Else the frame's first byte is skipped: what is returned is
what the scan of the rest finds, which carries `f`'s type and payload only if they are sent
again. -/
theorem resync_iff (g t : Bytes) (f : WireFrame) (outCap : ℕ) (w : Bytes)
    (hw : outerBuild f.frameType f.payload outCap = some w) (ht : 4102 ≤ t.length)
    (hno : ∀ i < g.length, ¬ ValidFrame ((g ++ w ++ t).drop i)) :
    ((extractFrom (g ++ w ++ t)).1 = some f.toFrame ∧ (extractFrom (g ++ w ++ t)).2.data = t ↔
        Even (endRun g)) ∧
      ((extractFrom (g ++ w ++ t)).1 = some f.toFrame ↔
        Even (endRun g) ∨ (framesOf ((w ++ t).drop 1)).head? = some f.toFrame) := by
  obtain rfl := eq_encode_of_outerBuild hw
  have hnext := extract_behind_garbage g t f ht hno
  rw [extractFrom_next] at hnext
  by_cases heven : Even (endRun g)
  · rw [if_pos heven] at hnext
    obtain ⟨hfst, hsnd⟩ := Prod.mk.inj hnext
    exact ⟨⟨fun _ => heven, fun _ => ⟨hfst, hsnd⟩⟩, ⟨fun _ => Or.inl heven, fun _ => hfst⟩⟩
  · rw [if_neg heven] at hnext
    have hfst : (extractFrom (g ++ f.encode ++ t)).1 =
        (framesOf ((f.encode ++ t).drop 1)).head? := by
      rw [← Scanner.next_fst_eq_head?, ← hnext]
    refine ⟨⟨?_, fun h => absurd h heven⟩, ?_⟩
    · -- the frame found starts later and is as long, so less than the tail is left
      rintro ⟨hf, hrest⟩
      rw [hf, hrest] at hnext
      have hlen := length_of_next_some hnext.symm
      rw [List.length_drop, List.length_append, f.encode_length] at hlen
      omega
    · rw [hfst]
      exact ⟨Or.inr, fun h => h.resolve_left heven⟩

/-- Two bytes `0x5A` before a frame do no harm. -/
theorem resync_iff_two :
    let f : WireFrame := ⟨⟨1, [7]⟩, by decide, by decide⟩
    let t : Bytes := List.replicate 4102 0
    ((extractFrom ([0x5A, 0x5A] ++ f.encode ++ t)).1 = some f.toFrame ∧
        (extractFrom ([0x5A, 0x5A] ++ f.encode ++ t)).2.data = t ↔ Even (endRun [0x5A, 0x5A])) ∧
      ((extractFrom ([0x5A, 0x5A] ++ f.encode ++ t)).1 = some f.toFrame ↔
        Even (endRun [0x5A, 0x5A]) ∨
          (framesOf ((f.encode ++ t).drop 1)).head? = some f.toFrame) := by
  intro f t
  exact resync_iff [0x5A, 0x5A] t f 600 f.encode (by decide +kernel) List.length_replicate.ge
    (by decide +kernel)

/-- Garbage of one byte `0x5A` swallows the frame behind it; the frame after that is returned in
its place. -/
theorem resync_loses_frame :
    let f : WireFrame := ⟨⟨1, List.replicate 14 0⟩, by decide, by decide⟩
    let f' : WireFrame := ⟨⟨0, []⟩, by decide, by decide⟩
    let t := f'.encode ++ List.replicate 4102 0
    (outerBuild 1 (List.replicate 14 0) 600 = some f.encode ∧ 4102 ≤ t.length ∧
      ∀ i < ([0x5A] : Bytes).length, ¬ ValidFrame (([0x5A] ++ f.encode ++ t).drop i)) ∧
    (extractFrom ([0x5A] ++ f.encode ++ t)).1 = some f'.toFrame ∧ f'.toFrame ≠ f.toFrame := by
  intro f f' t
  have ht : 4102 ≤ t.length := by
    rw [List.length_append, List.length_replicate]
    omega
  have hno : ∀ i < ([0x5A] : Bytes).length, ¬ ValidFrame (([0x5A] ++ f.encode ++ t).drop i) := by
    decide +kernel
  refine ⟨⟨by decide +kernel, ht, hno⟩, ?_, by decide⟩
  have hlost := extract_behind_garbage [0x5A] t f ht hno
  have hnext := extract_behind_garbage (f.encode.drop 1) (List.replicate 4102 0) f'
    (by rw [List.length_replicate]) (by decide +kernel)
  rw [extractFrom_next, if_neg (by decide +kernel)] at hlost
  have hsplit : (f.encode ++ t).drop 1 = f.encode.drop 1 ++ f'.encode ++ List.replicate 4102 0 := by
    rw [List.drop_append_of_le_length (by decide), List.append_assoc]
  rw [hsplit, hnext, if_pos (by decide +kernel)] at hlost
  exact (Prod.mk.inj hlost).1

end River2
