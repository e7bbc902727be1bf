import River2.Framebuf

/-!
# Reassembly of the frame stream

What a sender writes with `outerBuild`, cut and delivered in any way, is what
`framebufExtract` returns.

1. `framebufRun` is any interleaving of appends and extractions, `framebufDrain` the loop that
   extracts until `false`; both are the scanner's schedules (`framebufRun_eq_play`,
   `framebufDrain_eq`).
2. `frameLook_encode`: a frame as written is the next frame of every stream it begins, so a stream
   of frames reads as those frames (`drain_wire`).
-/

namespace River2

open Scanner (Op fed)

/-! ## Deliveries -/

/-- An interleaving of `river2_framebuf_append` and `river2_framebuf_extract` calls, with every
allocation succeeding: the frames returned, and the buffer left. -/
def framebufRun : List (Op UInt8) → Framebuf → List Frame × Framebuf
  | [], fb => ([], fb)
  | .feed chunk :: ops, fb => framebufRun ops (framebufAppend true fb chunk).2
  | .poll :: ops, fb =>
    ((framebufExtract true fb).1.toList ++ (framebufRun ops (framebufExtract true fb).2).1,
      (framebufRun ops (framebufExtract true fb).2).2)

/-- `while (river2_framebuf_extract(..))`, for at most `fuel` frames. -/
def drainLoop : ℕ → Framebuf → List Frame × Framebuf
  | 0, fb => ([], fb)
  | fuel + 1, fb =>
    match framebufExtract true fb with
    | (none, fb) => ([], fb)
    | (some f, fb) => (f :: (drainLoop fuel fb).1, (drainLoop fuel fb).2)

/-- Extract until `false`; a frame takes at least one byte. -/
def framebufDrain (fb : Framebuf) : List Frame × Framebuf := drainLoop (fb.data.length + 1) fb

theorem framebufRun_eq_play (ops : List (Op UInt8)) (fb : Framebuf) :
    (framebufRun ops fb).1 = (frameScanner.play ops fb.data).1 ∧
      (framebufRun ops fb).2.data = (frameScanner.play ops fb.data).2 := by
  induction ops generalizing fb with
  | nil => exact ⟨rfl, rfl⟩
  | cons op ops ih =>
    cases op with
    | feed chunk =>
      have h := ih (framebufAppend true fb chunk).2
      rw [framebufAppend_data (framebufAppend_true fb chunk)] at h
      exact h
    | poll =>
      have hext := framebufExtract_eq_next fb
      have h := ih (framebufExtract true fb).2
      rw [hext.2] at h
      unfold framebufRun Scanner.play
      rw [h.1, h.2, hext.1]
      exact ⟨rfl, rfl⟩

theorem drainLoop_eq {fuel : ℕ} {fb : Framebuf} (hfuel : fb.data.length < fuel) :
    (drainLoop fuel fb).1 = framesOf fb.data ∧
      (drainLoop fuel fb).2.data = frameScanner.rest fb.data := by
  induction fuel generalizing fb with
  | zero => omega
  | succ fuel ih =>
    have hlen := (frameScanner.next_length fb.data).2
    unfold drainLoop framesOf Scanner.items Scanner.rest
    cases he : framebufExtract true fb with
    | mk o fb' =>
      have hnext := next_of_framebufExtract he
      cases o with
      | none =>
        rw [Scanner.drain_of_next_none hnext]
        exact ⟨rfl, rfl⟩
      | some f =>
        rw [hnext] at hlen
        have hshort : fb'.data.length < fb.data.length := hlen rfl
        have hrec := @ih fb' (by omega)
        rw [Scanner.drain_of_next_some hnext]
        dsimp only
        rw [hrec.1, hrec.2]
        exact ⟨rfl, rfl⟩

theorem framebufDrain_eq (fb : Framebuf) :
    (framebufDrain fb).1 = framesOf fb.data ∧
      (framebufDrain fb).2.data = frameScanner.rest fb.data :=
  drainLoop_eq (Nat.lt_succ_self _)

/-- Everything a delivery returns, and the bytes it leaves, read off the appended bytes. -/
theorem framebufRun_drain (ops : List (Op UInt8)) :
    ((framebufRun ops framebufInit).1 ++ (framebufDrain (framebufRun ops framebufInit).2).1,
      (framebufDrain (framebufRun ops framebufInit).2).2.data) = frameScanner.drain (fed ops) := by
  have hrun := framebufRun_eq_play ops framebufInit
  rw [(framebufDrain_eq _).1, (framebufDrain_eq _).2, hrun.1, hrun.2]
  exact Scanner.play_drain ops

/-! ## Failing extractions -/

theorem extractLoop_none {allocOk : Bool} {fuel : ℕ} {fb fb' : Framebuf}
    (h : extractLoop allocOk fuel fb = (none, fb')) : ∃ n, fb' = framebufConsume fb n := by
  induction fuel generalizing fb with
  | zero => exact ⟨0, (Prod.mk.inj h).2.symm⟩
  | succ fuel ih =>
    rw [extractLoop_succ] at h
    cases hv : frameLook fb.data with
    | wait n =>
      rw [hv] at h
      exact ⟨n, (Prod.mk.inj h).2.symm⟩
    | skip n =>
      rw [hv] at h
      obtain ⟨m, rfl⟩ := ih h
      exact ⟨n + m, framebufConsume_consume fb n m⟩
    | emit f n =>
      rw [hv] at h
      dsimp only at h
      split_ifs at h
      · exact ⟨_, (Prod.mk.inj h).2.symm⟩
      · cases (Prod.mk.inj h).1

theorem framebufExtract_idem {fb fb' : Framebuf} (h : framebufExtract true fb = (none, fb')) :
    framebufExtract true fb' = (none, fb') := by
  have hagain := Scanner.next_of_next_none (next_of_framebufExtract h)
  obtain ⟨o, fb'', he⟩ : ∃ o fb'', framebufExtract true fb' = (o, fb'') := ⟨_, _, rfl⟩
  have hnext := next_of_framebufExtract he
  rw [hagain] at hnext
  obtain ⟨rfl, hdata⟩ := Prod.mk.inj hnext
  obtain ⟨n, rfl⟩ := extractLoop_none he
  rw [he]
  congr 1
  unfold framebufConsume
  rw [show fb'.data.drop n = fb'.data from hdata.symm]

/-! ## Frames as written -/

/-- A frame that fits the wire: the type is a nibble, and the length field stays within the
extractor's limit. -/
structure WireFrame extends Frame where
  type_lt : frameType < 16
  length_le : payload.length ≤ 4094

/-- The bytes `river2_outer_build` stores for a frame. -/
def WireFrame.encode (f : WireFrame) : Bytes := frameBytes f.frameType f.payload

theorem WireFrame.encode_length (f : WireFrame) : f.encode.length = 8 + f.payload.length := by
  unfold WireFrame.encode frameBytes
  rw [List.length_append, List.length_append, outerHeader_length, wrU16le_length]
  omega

theorem outerBuild_wire (f : WireFrame) {outCap : ℕ}
    (hcap : outerOverhead + f.payload.length ≤ outCap) :
    outerBuild f.frameType f.payload outCap = some f.encode := by
  have hle := f.length_le
  refine outerBuild_eq_some ?_
  rwa [sizeT_of_lt (by unfold outerOverhead; omega)]

/-- A successful build stores the encoding, whatever the buffer's size. -/
theorem eq_encode_of_outerBuild {f : WireFrame} {outCap : ℕ} {w : Bytes}
    (h : outerBuild f.frameType f.payload outCap = some w) : w = f.encode := by
  unfold outerBuild at h
  dsimp only at h
  split_ifs at h
  exact (Option.some.inj h).symm

theorem shiftLeft_shiftRight_of_lt {t : UInt8} (h : t < 16) : (t <<< 4) >>> 4 = t := by
  have hlt : t.toNat < 16 := UInt8.lt_iff_toNat_lt.mp h
  apply UInt8.toNat_inj.mp
  rw [UInt8.toNat_shiftRight, UInt8.toNat_shiftLeft, show (4 : UInt8).toNat % 8 = 4 from rfl,
    Nat.shiftLeft_eq, Nat.shiftRight_eq_div_pow]
  omega

theorem encode_head (f : WireFrame) :
    ∃ rest, f.encode = 0x5A :: 0x5A :: rest := ⟨_, rfl⟩

theorem headLook_encode (f : WireFrame) : headLook f.encode = .emit f.toFrame f.encode.length := by
  have hle := f.length_le
  have hlen := f.encode_length
  have hfield : (rdU16le f.encode 4).toNat = f.payload.length + 2 := by
    have h : rdU16le f.encode 4 = UInt16.ofNat (f.payload.length + 2) :=
      rdU16le_wrU16le [0x5A, 0x5A, f.frameType <<< 4, 0x01] _ _
    rw [h, UInt16.toNat_ofNat', Nat.mod_eq_of_lt (by omega)]
  have hbody : (outerHeader f.frameType f.payload.length ++ f.payload).length =
      6 + f.payload.length := by
    rw [List.length_append, outerHeader_length]
  have hcrc : rdU16le f.encode (6 + f.payload.length) =
      crc16 (outerHeader f.frameType f.payload.length ++ f.payload) := by
    rw [← hbody]
    exact rdU16le_trailer _ _
  have htake : f.encode.take (6 + f.payload.length) =
      outerHeader f.frameType f.payload.length ++ f.payload := by
    rw [← hbody]
    exact List.take_left
  have htype : f.encode.getD 2 0 >>> 4 = f.frameType := shiftLeft_shiftRight_of_lt f.type_lt
  have hpayload : slice f.encode 6 f.payload.length = f.payload :=
    slice_append_right (outerHeader f.frameType f.payload.length) f.payload _
  unfold headLook
  rw [if_neg (by omega), hfield, if_neg (by omega), if_neg (by omega),
    show 6 + (f.payload.length + 2) - 2 = 6 + f.payload.length by omega, hcrc, htake,
    if_neg (not_not_intro rfl), Nat.add_sub_cancel, htype, hpayload, hlen]
  congr 1
  omega

/-- **A frame as written is read back**, whatever follows it. -/
theorem frameLook_encode (f : WireFrame) (y : Bytes) :
    frameLook (f.encode ++ y) = .emit f.toFrame f.encode.length := by
  obtain ⟨rest, hrest⟩ := encode_head f
  have hp : findPrefix (f.encode ++ y) = some 0 := by
    rw [hrest]
    exact findPrefix_head _
  rw [frameLook_some hp, Verdict.shift_zero, List.drop_zero,
    headLook_append y (by rw [headLook_encode]; intro n; nofun), headLook_encode]

theorem next_encode (f : WireFrame) (y : Bytes) :
    frameScanner.next (f.encode ++ y) = (some f.toFrame, y) := by
  have h := frameScanner.next_emit (b := f.encode ++ y) (frameLook_encode f y)
  rwa [List.drop_left] at h

theorem drain_encode (f : WireFrame) (y : Bytes) :
    frameScanner.drain (f.encode ++ y) =
      (f.toFrame :: framesOf y, frameScanner.rest y) := by
  have h := frameScanner.drain_emit (b := f.encode ++ y) (frameLook_encode f y)
  rwa [List.drop_left] at h

theorem drain_wire (frames : List WireFrame) :
    frameScanner.drain (frames.map WireFrame.encode).flatten =
      (frames.map WireFrame.toFrame, []) := by
  induction frames with
  | nil => exact drain_nil
  | cons f frames ih =>
    rw [List.map_cons, List.flatten_cons, drain_encode]
    unfold framesOf Scanner.items Scanner.rest
    rw [ih]
    rfl

/-! ## The framing theorems -/

/-- **Lossless framing.** Frames written with `river2_outer_build` into large enough buffers, cut
into any chunks and extracted at any times, come back exactly, in order, and leave the buffer
empty. -/
theorem framing_lossless (frames : List (WireFrame × ℕ))
    (hcap : ∀ p ∈ frames, outerOverhead + p.1.payload.length ≤ p.2) (ops : List (Op UInt8))
    (hops : fed ops =
      frames.flatMap fun p => (outerBuild p.1.frameType p.1.payload p.2).getD []) :
    (framebufRun ops framebufInit).1 ++ (framebufDrain (framebufRun ops framebufInit).2).1 =
        frames.map (fun p => p.1.toFrame) ∧
      (framebufDrain (framebufRun ops framebufInit).2).2.data = [] := by
  have hwire : (frames.flatMap fun p => (outerBuild p.1.frameType p.1.payload p.2).getD []) =
      ((frames.map Prod.fst).map WireFrame.encode).flatten := by
    rw [List.flatMap_def, List.map_map]
    refine congrArg List.flatten (List.map_congr_left fun p hp => ?_)
    rw [outerBuild_wire p.1 (hcap p hp)]
    rfl
  have h := framebufRun_drain ops
  rw [hops, hwire, drain_wire, List.map_map] at h
  exact ⟨(Prod.mk.inj h).1, (Prod.mk.inj h).2⟩

/-- Two frames, the first with a prefix in its payload, cut inside prefix, payload and CRC. -/
theorem framing_lossless_two :
    let ops : List (Op UInt8) := [.feed [0x5A], .poll, .feed [0x5A, 0x10, 1, 5, 0, 0x5A, 0x5A],
      .poll, .feed [], .feed [7, 128], .poll, .feed [129, 0x5A, 0x5A, 0, 1, 2, 0, 4, 87]]
    (framebufRun ops framebufInit).1 ++ (framebufDrain (framebufRun ops framebufInit).2).1 =
        [⟨1, [0x5A, 0x5A, 7]⟩, ⟨0, []⟩] ∧
      (framebufDrain (framebufRun ops framebufInit).2).2.data = [] :=
  framing_lossless
    [(⟨⟨1, [0x5A, 0x5A, 7]⟩, by decide, by decide⟩, 11), (⟨⟨0, []⟩, by decide, by decide⟩, 600)]
    (by decide) _ (by decide +kernel)

/-- **Chunking independence.** Two deliveries of the same bytes return the same frames and leave
the same bytes, and an extraction after a failing one fails and changes nothing. -/
theorem chunking_independent (ops₁ ops₂ : List (Op UInt8)) (hops : fed ops₁ = fed ops₂) :
    ((framebufRun ops₁ framebufInit).1 ++ (framebufDrain (framebufRun ops₁ framebufInit).2).1 =
        (framebufRun ops₂ framebufInit).1 ++ (framebufDrain (framebufRun ops₂ framebufInit).2).1 ∧
      (framebufDrain (framebufRun ops₁ framebufInit).2).2.data =
        (framebufDrain (framebufRun ops₂ framebufInit).2).2.data) ∧
    ∀ fb fb', framebufExtract true fb = (none, fb') → framebufExtract true fb' = (none, fb') := by
  have h₁ := framebufRun_drain ops₁
  have h₂ := framebufRun_drain ops₂
  rw [hops, ← h₂] at h₁
  exact ⟨⟨(Prod.mk.inj h₁).1, (Prod.mk.inj h₁).2⟩, fun _ _ => framebufExtract_idem⟩

/-- Noise with a spurious prefix, in one piece and in three. -/
theorem chunking_independent_noise :
    let ops₁ : List (Op UInt8) := [.feed [0x5A], .poll, .feed [0x5A, 0xFF, 0, 0], .poll, .feed [0]]
    let ops₂ : List (Op UInt8) := [.feed [0x5A, 0x5A, 0xFF, 0, 0, 0]]
    ((framebufRun ops₁ framebufInit).1 ++ (framebufDrain (framebufRun ops₁ framebufInit).2).1 =
        (framebufRun ops₂ framebufInit).1 ++ (framebufDrain (framebufRun ops₂ framebufInit).2).1 ∧
      (framebufDrain (framebufRun ops₁ framebufInit).2).2.data =
        (framebufDrain (framebufRun ops₂ framebufInit).2).2.data) ∧
    ∀ fb fb', framebufExtract true fb = (none, fb') → framebufExtract true fb' = (none, fb') :=
  chunking_independent _ _ (by decide)

end River2
