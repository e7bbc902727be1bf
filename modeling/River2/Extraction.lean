import River2.Framebuf

/-!
# Soundness of the extraction

What `framebufExtract` returns stands in the buffer, whole: `IsFrame` is the frame's format, read
off the bytes alone. `extract_sound`: one extraction, with or without memory, splits the buffer into
garbage, the frame's bytes and the new buffer; along any run of appends and extractions the frames
returned stand in the bytes appended, in order and apart.
-/

namespace River2

/-- The bytes of a frame: the prefix, a length field between 2 and 4096 that counts the bytes behind
it, and at the end the CRC of the bytes before it. -/
structure IsFrame (raw : Bytes) (f : Frame) : Prop where
  head : raw.take 2 = [0x5A, 0x5A]
  field : 2 ≤ (rdU16le raw 4).toNat ∧ (rdU16le raw 4).toNat ≤ 4096
  length : raw.length = 6 + (rdU16le raw 4).toNat
  crc : ∃ body, raw = body ++ wrU16le (crc16 body)
  frameType : f.frameType = raw.getD 2 0 >>> 4
  payload : f.payload = slice raw 6 ((rdU16le raw 4).toNat - 2)

/-- The frames stand in the stream in this order, whole and apart; what is behind them ends in the
given rest. -/
inductive Within : Bytes → List Frame → Bytes → Prop where
  | rest (g r : Bytes) : Within (g ++ r) [] r
  | frame (g : Bytes) {raw s r : Bytes} {f : Frame} {fs : List Frame} (hf : IsFrame raw f)
      (hs : Within s fs r) : Within (g ++ raw ++ s) (f :: fs) r

theorem Within.skip (x : Bytes) {s r : Bytes} {fs : List Frame} (h : Within s fs r) :
    Within (x ++ s) fs r := by
  cases h with
  | rest g r =>
    rw [← List.append_assoc]
    exact .rest (x ++ g) r
  | frame g hf hs =>
    rw [← List.append_assoc, ← List.append_assoc]
    exact .frame (x ++ g) hf hs

/-! ## One extraction -/

theorem eq_take_append_wrU16le {raw : Bytes} {n : ℕ} (hn : raw.length = n + 2) :
    raw = raw.take n ++ wrU16le (rdU16le raw n) := by
  conv_lhs => rw [← List.take_append_drop n raw]
  congr 1
  rw [wrU16le_rdU16le, List.drop_eq_getElem_cons (by omega), List.drop_eq_getElem_cons (by omega),
    List.drop_of_length_le (by omega)]
  simp [List.getD_eq_getElem?_getD, hn]

/-- What is emitted at a prefix is the frame whose bytes are consumed. -/
theorem isFrame_of_headLook {d : Bytes} {f : Frame} {n : ℕ} (hpair : d.take 2 = [0x5A, 0x5A])
    (h : headLook d = .emit f n) : n ≤ d.length ∧ IsFrame (d.take n) f := by
  unfold headLook at h
  split_ifs at h with h6 hbad hinc hcrc
  cases h
  have hle : 6 + (rdU16le d 4).toNat ≤ d.length := not_lt.mp hinc
  refine ⟨hle, ?_⟩
  obtain ⟨raw, y, hlen, rfl⟩ : ∃ raw y, raw.length = 6 + (rdU16le d 4).toNat ∧ raw ++ y = d :=
    ⟨_, _, List.length_take_of_le hle, List.take_append_drop _ d⟩
  have hword : rdU16le (raw ++ y) 4 = rdU16le raw 4 := rdU16le_append_left (by omega)
  rw [hword] at hbad hlen hcrc ⊢
  have hcut : 6 + (rdU16le raw 4).toNat - 2 + 2 = raw.length := by omega
  rw [← hlen, List.take_left, getD_append_left (by omega), slice_append_left (by omega)]
  rw [not_not, rdU16le_append_left hcut.le, List.take_append_of_le_length (by omega)] at hcrc
  refine ⟨?_, by omega, hlen, ⟨raw.take (6 + (rdU16le raw 4).toNat - 2), ?_⟩, rfl, rfl⟩
  · rw [← hpair, List.take_append_of_le_length (by omega)]
  · rw [← hcrc]
    exact eq_take_append_wrU16le hcut.symm

/-- A round of the loop that returns a frame consumes exactly what stands before it and its bytes,
one that returns none leaves an end of the buffer. -/
theorem extractLoop_sound (allocOk : Bool) (fuel : ℕ) (fb : Framebuf) :
    match extractLoop allocOk fuel fb with
    | (some f, fb') => ∃ g raw, fb.data = g ++ raw ++ fb'.data ∧ IsFrame raw f
    | (none, fb') => fb'.data <:+ fb.data := by
  induction fuel generalizing fb with
  | zero => exact List.suffix_rfl
  | succ fuel ih =>
    rw [extractLoop_succ]
    cases hv : frameLook fb.data with
    | wait n => exact List.drop_suffix n fb.data
    | skip n =>
      have hrec := ih (framebufConsume fb n)
      rw [framebufConsume_data] at hrec
      dsimp only
      cases he : extractLoop allocOk fuel (framebufConsume fb n) with
      | mk o fb' =>
        rw [he] at hrec
        cases o with
        | none => exact hrec.trans (List.drop_suffix n fb.data)
        | some f =>
          obtain ⟨g, raw, hdata, hf⟩ := hrec
          refine ⟨fb.data.take n ++ g, raw, ?_, hf⟩
          rw [List.append_assoc, List.append_assoc, ← List.append_assoc g, ← hdata,
            List.take_append_drop]
    | emit f n =>
      dsimp only
      split_ifs with hfail
      · exact List.drop_suffix _ fb.data
      · obtain ⟨i, hp, rfl, hlook⟩ := frameLook_emit hv
        obtain ⟨rest, hrest⟩ := findPrefix_drop hp
        obtain ⟨hle, hf⟩ := isFrame_of_headLook (by rw [hrest]; rfl) hlook
        refine ⟨fb.data.take i, _, ?_, hf⟩
        rw [framebufConsume_data, framebufStash_data, ← List.drop_drop, List.append_assoc,
          List.take_append_drop, List.take_append_drop]

/-! ## Runs -/

/-- A call on the buffer, with the outcome of the allocation it may need. -/
inductive FramebufCall where
  | append (allocOk : Bool) (chunk : Bytes)
  | extract (allocOk : Bool)

/-- The bytes whose append succeeded, the frames returned, and the buffer left. -/
structure FramebufResult where
  appended : Bytes
  returned : List Frame
  left : Framebuf

/-- Any sequence of appends and extractions, any of which may lack memory. -/
def framebufCalls : List FramebufCall → Framebuf → FramebufResult
  | [], fb => ⟨[], [], fb⟩
  | .append allocOk chunk :: calls, fb =>
    let (ok, fb) := framebufAppend allocOk fb chunk
    let r := framebufCalls calls fb
    if ok then { r with appended := chunk ++ r.appended } else r
  | .extract allocOk :: calls, fb =>
    let (frame, fb) := framebufExtract allocOk fb
    let r := framebufCalls calls fb
    { r with returned := frame.toList ++ r.returned }

theorem framebufAppend_failed {allocOk : Bool} {fb fb' : Framebuf} {chunk : Bytes}
    (h : framebufAppend allocOk fb chunk = (false, fb')) : fb' = fb := by
  unfold framebufAppend at h
  split_ifs at h <;> cases h
  rfl

theorem framebufAppend_cases (allocOk : Bool) (fb : Framebuf) (chunk : Bytes) :
    framebufAppend allocOk fb chunk = (false, fb) ∨
      ∃ fb', framebufAppend allocOk fb chunk = (true, fb') ∧ fb'.data = fb.data ++ chunk := by
  cases h : framebufAppend allocOk fb chunk with
  | mk ok fb' =>
    cases ok with
    | false =>
      obtain rfl := framebufAppend_failed h
      exact Or.inl rfl
    | true =>
      have hok : (framebufAppend allocOk fb chunk).1 = true := by rw [h]
      exact Or.inr ⟨fb', rfl, by rw [← framebufAppend_data hok, h]⟩

section Calls

variable {allocOk : Bool} {chunk : Bytes} {fb fb' : Framebuf} (calls : List FramebufCall)

theorem framebufCalls_failed (h : framebufAppend allocOk fb chunk = (false, fb)) :
    framebufCalls (.append allocOk chunk :: calls) fb = framebufCalls calls fb := by
  rw [framebufCalls, h]
  rfl

theorem framebufCalls_appended (h : framebufAppend allocOk fb chunk = (true, fb')) :
    framebufCalls (.append allocOk chunk :: calls) fb =
      { framebufCalls calls fb' with
        appended := chunk ++ (framebufCalls calls fb').appended } := by
  rw [framebufCalls, h]
  rfl

end Calls

/-- **Run lemma.** The frames of a run stand in the buffer's bytes and what is appended to them. -/
theorem within_framebufCalls (calls : List FramebufCall) (fb : Framebuf) :
    Within (fb.data ++ (framebufCalls calls fb).appended) (framebufCalls calls fb).returned
      (framebufCalls calls fb).left.data := by
  induction calls generalizing fb with
  | nil =>
    show Within (fb.data ++ []) [] fb.data
    rw [List.append_nil]
    exact .rest [] fb.data
  | cons call calls ih =>
    cases call with
    | append allocOk chunk =>
      obtain hfail | ⟨fb', hok, hdata⟩ := framebufAppend_cases allocOk fb chunk
      · rw [framebufCalls_failed calls hfail]
        exact ih fb
      · have hrec := ih fb'
        rw [hdata, List.append_assoc] at hrec
        rw [framebufCalls_appended calls hok]
        exact hrec
    | extract allocOk =>
      have hone := extractLoop_sound allocOk (fb.data.length + 1) fb
      unfold framebufCalls framebufExtract
      cases he : extractLoop allocOk (fb.data.length + 1) fb with
      | mk frame fb' =>
        rw [he] at hone
        have hrec := ih fb'
        cases frame with
        | none =>
          obtain ⟨x, hx⟩ := hone
          dsimp only
          rw [← hx, List.append_assoc]
          exact hrec.skip x
        | some f =>
          obtain ⟨g, raw, hdata, hf⟩ := hone
          dsimp only
          rw [hdata, List.append_assoc]
          exact .frame g hf hrec

/-- **Soundness.** An extraction that returns a frame splits the buffer into garbage, the frame's
bytes and the new buffer; one that returns none leaves an end of the buffer. Along every run the
frames returned stand in the bytes appended, in order, whole and apart. -/
theorem extract_sound (allocOk : Bool) (fb : Framebuf) (calls : List FramebufCall) :
    (match framebufExtract allocOk fb with
      | (some f, fb') => ∃ g raw, fb.data = g ++ raw ++ fb'.data ∧ IsFrame raw f
      | (none, fb') => fb'.data <:+ fb.data) ∧
    Within (framebufCalls calls framebufInit).appended (framebufCalls calls framebufInit).returned
      (framebufCalls calls framebufInit).left.data :=
  ⟨extractLoop_sound allocOk _ fb, within_framebufCalls calls framebufInit⟩

end River2
