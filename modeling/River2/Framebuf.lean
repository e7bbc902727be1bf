import River2.Packet
import River2.Library.Scanner

/-!
# The streaming reassembler (`river2_framebuf_*`)

The faithful model of `river2_framebuf_append` and `river2_framebuf_extract`, and the frame scanner
that `river2_framebuf_extract` runs on the buffer's bytes.

1. `framebufExtract` is the code: find the prefix, check the length field, the completeness and the
   CRC, grow `scratch`, copy the payload out, consume the frame.
2. `frameScanner` is what a buffer of bytes means: its verdicts are stable under more bytes.
3. `framebufExtract_eq_next` and `reads_framebufExtract` connect the two.
-/

namespace River2

/-! ## The buffer -/

/-- `river2_framebuf_t`. `data` holds the first `len` bytes of the code's `data`; `scratch` the
bytes written so far to the code's `scratch`. -/
structure Framebuf where
  data : Bytes
  cap : ℕ
  scratch : Bytes
  scratchCap : ℕ
  deriving DecidableEq, Repr

/-- `river2_framebuf_init`. -/
def framebufInit : Framebuf := ⟨[], 0, [], 0⟩

/-- `river2_framebuf_append`. `allocOk` is the outcome of the `realloc`, if one is needed. -/
def framebufAppend (allocOk : Bool) (fb : Framebuf) (chunk : Bytes) : Bool × Framebuf :=
  if chunk.length = 0 then (true, fb)
  else if fb.data.length + chunk.length > fb.cap then
    if allocOk then
      (true, { fb with data := fb.data ++ chunk, cap := fb.data.length + chunk.length })
    else (false, fb)
  else (true, { fb with data := fb.data ++ chunk })

/-- `framebuf_consume`. -/
def framebufConsume (fb : Framebuf) (n : ℕ) : Framebuf := { fb with data := fb.data.drop n }

/-- The scan for the `0x5A5A` prefix. -/
def findPrefix : Bytes → Option ℕ
  | a :: b :: rest =>
    if a = 0x5A ∧ b = 0x5A then some 0 else (findPrefix (b :: rest)).map (· + 1)
  | _ => none

/-- A frame: the high nibble of its type byte, and its payload. -/
structure Frame where
  frameType : UInt8
  payload : Bytes
  deriving DecidableEq, Repr

/-- The copy to `scratch`, which grows to the payload's length if it is too small. -/
def framebufStash (fb : Framebuf) (payload : Bytes) : Framebuf :=
  { fb with
    scratch := payload ++ fb.scratch.drop payload.length
    scratchCap := max fb.scratchCap payload.length }

/-- The loop of `river2_framebuf_extract`; every round either returns or drops two bytes. `allocOk`
is the outcome of the `realloc` of `scratch`, if one is needed. -/
def extractLoop (allocOk : Bool) : ℕ → Framebuf → Option Frame × Framebuf
  | 0, fb => (none, fb)
  | fuel + 1, fb =>
    if fb.data.length < 2 then (none, fb)
    else
      match findPrefix fb.data with
      | none => (none, framebufConsume fb (fb.data.length - 1))
      | some start =>
        let fb := framebufConsume fb start
        if fb.data.length < 6 then (none, fb)
        else
          let payloadField := (rdU16le fb.data 4).toNat
          if payloadField < 2 ∨ payloadField > 4096 then
            extractLoop allocOk fuel (framebufConsume fb 2)
          else
            let dataEnd := 6 + payloadField
            if dataEnd > fb.data.length then (none, fb)
            else if rdU16le fb.data (dataEnd - 2) ≠ crc16 (fb.data.take (dataEnd - 2)) then
              extractLoop allocOk fuel (framebufConsume fb 2)
            else
              let frameType := fb.data.getD 2 0 >>> 4
              let payload := slice fb.data 6 (payloadField - 2)
              if payloadField - 2 > fb.scratchCap ∧ ¬ allocOk then (none, fb)
              else (some ⟨frameType, payload⟩, framebufConsume (framebufStash fb payload) dataEnd)

/-- `river2_framebuf_extract`. -/
def framebufExtract (allocOk : Bool) (fb : Framebuf) : Option Frame × Framebuf :=
  extractLoop allocOk (fb.data.length + 1) fb

@[simp] theorem framebufConsume_data (fb : Framebuf) (n : ℕ) :
    (framebufConsume fb n).data = fb.data.drop n := rfl

@[simp] theorem framebufStash_data (fb : Framebuf) (payload : Bytes) :
    (framebufStash fb payload).data = fb.data := rfl

@[simp] theorem framebufConsume_zero (fb : Framebuf) : framebufConsume fb 0 = fb := rfl

theorem framebufConsume_consume (fb : Framebuf) (m n : ℕ) :
    framebufConsume (framebufConsume fb m) n = framebufConsume fb (m + n) := by
  unfold framebufConsume
  rw [List.drop_drop]

theorem framebufConsume_stash (fb : Framebuf) (payload : Bytes) (m n : ℕ) :
    framebufConsume (framebufStash (framebufConsume fb m) payload) n =
      framebufConsume (framebufStash fb payload) (m + n) := by
  unfold framebufConsume framebufStash
  rw [List.drop_drop]

theorem framebufAppend_data {allocOk : Bool} {fb : Framebuf} {chunk : Bytes}
    (h : (framebufAppend allocOk fb chunk).1 = true) :
    (framebufAppend allocOk fb chunk).2.data = fb.data ++ chunk := by
  unfold framebufAppend at h ⊢
  split_ifs at h ⊢ with h0
  · rw [List.length_eq_zero_iff.mp h0, List.append_nil]
  all_goals rfl

theorem framebufAppend_true (fb : Framebuf) (chunk : Bytes) :
    (framebufAppend true fb chunk).1 = true := by
  unfold framebufAppend
  split_ifs <;> first | rfl | contradiction

theorem framebufAppend_eq_true (fb : Framebuf) (chunk : Bytes) :
    framebufAppend true fb chunk = (true, (framebufAppend true fb chunk).2) :=
  Prod.ext (framebufAppend_true fb chunk) rfl

/-! ## The frame scanner -/

/-- The verdict on a buffer that begins with the prefix. -/
def headLook (d : Bytes) : Verdict Frame :=
  if d.length < 6 then .wait 0
  else if (rdU16le d 4).toNat < 2 ∨ (rdU16le d 4).toNat > 4096 then .skip 2
  else if 6 + (rdU16le d 4).toNat > d.length then .wait 0
  else if
    rdU16le d (6 + (rdU16le d 4).toNat - 2) ≠ crc16 (d.take (6 + (rdU16le d 4).toNat - 2)) then
    .skip 2
  else .emit ⟨d.getD 2 0 >>> 4, slice d 6 ((rdU16le d 4).toNat - 2)⟩ (6 + (rdU16le d 4).toNat)

/-- The verdict on any buffer: bytes before the prefix are dropped, a last byte is kept in case it
is the first half of a prefix. -/
def frameLook (b : Bytes) : Verdict Frame :=
  match findPrefix b with
  | none => .wait (b.length - 1)
  | some i => (headLook (b.drop i)).shift i

theorem frameLook_none {b : Bytes} (h : findPrefix b = none) :
    frameLook b = .wait (b.length - 1) := by
  unfold frameLook
  rw [h]

theorem frameLook_some {b : Bytes} {i : ℕ} (h : findPrefix b = some i) :
    frameLook b = (headLook (b.drop i)).shift i := by
  unfold frameLook
  rw [h]

/-! ### The prefix scan -/

theorem findPrefix_cons_of_not {a b : UInt8} {rest : Bytes} (hp : ¬ (a = 0x5A ∧ b = 0x5A)) :
    findPrefix (a :: b :: rest) = (findPrefix (b :: rest)).map (· + 1) := by
  conv_lhs => unfold findPrefix
  rw [if_neg hp]

theorem findPrefix_head (rest : Bytes) : findPrefix (0x5A :: 0x5A :: rest) = some 0 := by
  unfold findPrefix
  rw [if_pos ⟨rfl, rfl⟩]

theorem findPrefix_drop {b : Bytes} {i : ℕ} (h : findPrefix b = some i) :
    ∃ rest, b.drop i = 0x5A :: 0x5A :: rest := by
  induction b using findPrefix.induct generalizing i with
  | case1 a b rest hp =>
    unfold findPrefix at h
    rw [if_pos hp] at h
    obtain ⟨rfl, rfl⟩ := hp
    cases h
    exact ⟨rest, rfl⟩
  | case2 a b rest hp ih =>
    rw [findPrefix_cons_of_not hp] at h
    obtain ⟨j, hj, rfl⟩ := Option.map_eq_some_iff.mp h
    rw [List.drop_succ_cons]
    exact ih hj
  | case3 b hb =>
    unfold findPrefix at h
    split at h
    · exact absurd rfl (hb _ _ _)
    · cases h

theorem findPrefix_le {b : Bytes} {i : ℕ} (h : findPrefix b = some i) : i + 2 ≤ b.length := by
  obtain ⟨rest, hrest⟩ := findPrefix_drop h
  have := congrArg List.length hrest
  rw [List.length_drop] at this
  simp only [List.length_cons] at this
  omega

theorem findPrefix_append_of_some {b : Bytes} {i : ℕ} (y : Bytes) (h : findPrefix b = some i) :
    findPrefix (b ++ y) = some i := by
  induction b using findPrefix.induct generalizing i with
  | case1 a b rest hp =>
    unfold findPrefix at h
    rw [if_pos hp] at h
    obtain ⟨rfl, rfl⟩ := hp
    rw [← h]
    exact findPrefix_head _
  | case2 a b rest hp ih =>
    rw [findPrefix_cons_of_not hp] at h
    obtain ⟨j, hj, rfl⟩ := Option.map_eq_some_iff.mp h
    rw [List.cons_append, List.cons_append, findPrefix_cons_of_not hp, ← List.cons_append, ih hj]
    rfl
  | case3 b hb =>
    unfold findPrefix at h
    split at h
    · exact absurd rfl (hb _ _ _)
    · cases h

/-- Without a prefix only the last byte matters for what follows. -/
theorem findPrefix_append_of_none {b : Bytes} (y : Bytes) (h : findPrefix b = none) :
    findPrefix (b ++ y) =
      (findPrefix (b.drop (b.length - 1) ++ y)).map (· + (b.length - 1)) := by
  induction b using findPrefix.induct with
  | case1 a b rest hp =>
    unfold findPrefix at h
    rw [if_pos hp] at h
    cases h
  | case2 a b rest hp ih =>
    rw [findPrefix_cons_of_not hp, Option.map_eq_none_iff] at h
    rw [List.cons_append, List.cons_append, findPrefix_cons_of_not hp, ← List.cons_append, ih h,
      Option.map_map]
    simp only [List.length_cons, Nat.add_sub_cancel, List.drop_succ_cons]
    rfl
  | case3 b hb =>
    match b with
    | [] => simp
    | [_] => simp
    | a :: c :: rest => exact absurd rfl (hb a c rest)

/-! ### Verdicts at a prefix -/

theorem headLook_wait {d : Bytes} {n : ℕ} (h : headLook d = .wait n) : n = 0 := by
  unfold headLook at h
  split_ifs at h <;> cases h <;> rfl

theorem headLook_skip {d : Bytes} {n : ℕ} (h : headLook d = .skip n) : n = 2 ∧ 6 ≤ d.length := by
  unfold headLook at h
  split_ifs at h <;> cases h <;> exact ⟨rfl, by omega⟩

theorem headLook_emit {d : Bytes} {f : Frame} {n : ℕ} (h : headLook d = .emit f n) :
    n = 8 + f.payload.length ∧ n ≤ d.length ∧ f.payload.length ≤ 4094 := by
  unfold headLook at h
  split_ifs at h
  cases h
  have hlen : (slice d 6 ((rdU16le d 4).toNat - 2)).length = (rdU16le d 4).toNat - 2 :=
    slice_length (by omega)
  dsimp only
  omega

theorem headLook_append {d : Bytes} (y : Bytes) (h : ∀ n, headLook d ≠ .wait n) :
    headLook (d ++ y) = headLook d := by
  have hlen : (d ++ y).length = d.length + y.length := List.length_append
  have h6 : ¬ d.length < 6 := by
    intro h6
    exact h 0 (by unfold headLook; rw [if_pos h6])
  unfold headLook
  rw [if_neg h6, if_neg (by omega), rdU16le_append_left (by omega)]
  by_cases hbad : (rdU16le d 4).toNat < 2 ∨ (rdU16le d 4).toNat > 4096
  · rw [if_pos hbad, if_pos hbad]
  have hfull : ¬ 6 + (rdU16le d 4).toNat > d.length := by
    intro hinc
    exact h 0 (by unfold headLook; rw [if_neg h6, if_neg hbad, if_pos hinc])
  rw [if_neg hbad, if_neg hbad, if_neg hfull, if_neg (by omega), rdU16le_append_left (by omega),
    List.take_append_of_le_length (by omega), getD_append_left (by omega),
    slice_append_left (by omega)]

/-! ### Verdicts anywhere -/

theorem frameLook_wait {b : Bytes} {n : ℕ} (h : frameLook b = .wait n) :
    findPrefix b = none ∧ n = b.length - 1 ∨
      findPrefix b = some n ∧ headLook (b.drop n) = .wait 0 := by
  cases hp : findPrefix b with
  | none =>
    rw [frameLook_none hp] at h
    exact Or.inl ⟨rfl, (Verdict.wait.inj h).symm⟩
  | some i =>
    rw [frameLook_some hp] at h
    cases hv : headLook (b.drop i) with
    | wait m =>
      obtain rfl := headLook_wait hv
      rw [hv] at h
      cases h
      exact Or.inr ⟨rfl, hv⟩
    | skip m => rw [hv] at h; cases h
    | emit f m => rw [hv] at h; cases h

theorem frameLook_skip {b : Bytes} {n : ℕ} (h : frameLook b = .skip n) :
    ∃ i, findPrefix b = some i ∧ n = i + 2 ∧ headLook (b.drop i) = .skip 2 := by
  cases hp : findPrefix b with
  | none =>
    rw [frameLook_none hp] at h
    cases h
  | some i =>
    rw [frameLook_some hp] at h
    cases hv : headLook (b.drop i) with
    | wait m => rw [hv] at h; cases h
    | skip m =>
      obtain rfl := (headLook_skip hv).1
      rw [hv] at h
      cases h
      exact ⟨i, rfl, rfl, hv⟩
    | emit f m => rw [hv] at h; cases h

theorem frameLook_emit {b : Bytes} {f : Frame} {n : ℕ} (h : frameLook b = .emit f n) :
    ∃ i, findPrefix b = some i ∧ n = i + (8 + f.payload.length) ∧
      headLook (b.drop i) = .emit f (8 + f.payload.length) := by
  cases hp : findPrefix b with
  | none =>
    rw [frameLook_none hp] at h
    cases h
  | some i =>
    rw [frameLook_some hp] at h
    cases hv : headLook (b.drop i) with
    | wait m => rw [hv] at h; cases h
    | skip m => rw [hv] at h; cases h
    | emit g m =>
      obtain rfl := (headLook_emit hv).1
      rw [hv] at h
      cases h
      exact ⟨i, rfl, rfl, hv⟩

theorem frameLook_append_of_some {b : Bytes} {i : ℕ} (y : Bytes) (hp : findPrefix b = some i) :
    frameLook (b ++ y) = (headLook (b.drop i ++ y)).shift i := by
  rw [frameLook_some (findPrefix_append_of_some y hp),
    List.drop_append_of_le_length (by have := findPrefix_le hp; omega)]

theorem frameLook_wait_append {b : Bytes} {n : ℕ} (y : Bytes) (h : frameLook b = .wait n) :
    frameLook (b ++ y) = (frameLook (b.drop n ++ y)).shift n := by
  obtain ⟨hp, rfl⟩ | ⟨hp, -⟩ := frameLook_wait h
  · have happ := findPrefix_append_of_none y hp
    have hle : b.length - 1 ≤ b.length := Nat.sub_le _ _
    cases hq : findPrefix (b.drop (b.length - 1) ++ y) with
    | none =>
      rw [hq] at happ
      rw [frameLook_none hq, frameLook_none happ, Verdict.shift_wait]
      congr 1
      simp only [List.length_append, List.length_drop]
      cases b
      · simp
      · simp only [List.length_cons]; omega
    | some j =>
      rw [hq, Option.map_some] at happ
      rw [frameLook_some hq, frameLook_some happ, Verdict.shift_shift, Nat.add_comm j,
        ← List.drop_drop, List.drop_append_of_le_length hle]
  · obtain ⟨rest, hrest⟩ := findPrefix_drop hp
    have h0 : findPrefix (b.drop n ++ y) = some 0 := by
      rw [hrest]
      exact findPrefix_head _
    rw [frameLook_append_of_some y hp, frameLook_some h0, List.drop_zero, Verdict.shift_zero]

theorem frameLook_append {b : Bytes} (y : Bytes) (h : ∀ n, frameLook b ≠ .wait n) :
    frameLook (b ++ y) = frameLook b := by
  cases hp : findPrefix b with
  | none => exact absurd (frameLook_none hp) (h _)
  | some i =>
    have hv : ∀ n, headLook (b.drop i) ≠ .wait n := by
      intro n hn
      exact h (i + n) (by rw [frameLook_some hp, hn]; rfl)
    rw [frameLook_append_of_some y hp, headLook_append y hv, frameLook_some hp]

/-- The scanner `river2_framebuf_extract` runs on the buffer's bytes. -/
def frameScanner : Scanner UInt8 Frame where
  look := frameLook
  wait_le := by
    intro b n h
    obtain ⟨-, rfl⟩ | ⟨hp, -⟩ := frameLook_wait h
    · exact Nat.sub_le _ _
    · have := findPrefix_le hp
      omega
  skip_pos := by
    intro b n h
    obtain ⟨i, hp, rfl, -⟩ := frameLook_skip h
    have := findPrefix_le hp
    omega
  emit_pos := by
    intro b f n h
    obtain ⟨i, hp, rfl, hv⟩ := frameLook_emit h
    have := (headLook_emit hv).2.1
    rw [List.length_drop] at this
    omega
  wait_append := frameLook_wait_append
  skip_append := fun y h => by rw [frameLook_append y (by rw [h]; intro n; nofun), h]
  emit_append := fun y h => by rw [frameLook_append y (by rw [h]; intro n; nofun), h]

/-- The frames of a byte stream. -/
abbrev framesOf (s : Bytes) : List Frame := frameScanner.items s

theorem drain_nil : frameScanner.drain [] = ([], []) := frameScanner.drain_wait (n := 0) rfl

theorem framesOf_nil : framesOf [] = [] := (Prod.mk.inj drain_nil).1

/-! ## The code runs the scanner -/

/-- **One round of the loop.** The code acts on the scanner's verdict; only storing a frame's
payload can fail, and then the frame stays at the head of the buffer. -/
theorem extractLoop_succ (allocOk : Bool) (fuel : ℕ) (fb : Framebuf) :
    extractLoop allocOk (fuel + 1) fb =
      match frameLook fb.data with
      | .wait n => (none, framebufConsume fb n)
      | .skip n => extractLoop allocOk fuel (framebufConsume fb n)
      | .emit f n =>
        if f.payload.length > fb.scratchCap ∧ ¬ allocOk then
          (none, framebufConsume fb (n - (8 + f.payload.length)))
        else (some f, framebufConsume (framebufStash fb f.payload) n) := by
  conv_lhs => unfold extractLoop
  by_cases h2 : fb.data.length < 2
  · have hp : findPrefix fb.data = none := by
      cases hp : findPrefix fb.data with
      | none => rfl
      | some i =>
        have := findPrefix_le hp
        omega
    rw [if_pos h2, frameLook_none hp, show fb.data.length - 1 = 0 by omega]
    rfl
  rw [if_neg h2]
  cases hp : findPrefix fb.data with
  | none => rw [frameLook_none hp]
  | some i =>
    rw [frameLook_some hp, ← framebufConsume_data]
    dsimp only
    generalize hg : framebufConsume fb i = g
    unfold headLook
    by_cases h6 : g.data.length < 6
    · rw [if_pos h6, if_pos h6, ← hg]
      rfl
    rw [if_neg h6, if_neg h6]
    by_cases hbad : (rdU16le g.data 4).toNat < 2 ∨ (rdU16le g.data 4).toNat > 4096
    · rw [if_pos hbad, if_pos hbad, ← hg, framebufConsume_consume]
      rfl
    rw [if_neg hbad, if_neg hbad]
    by_cases hinc : 6 + (rdU16le g.data 4).toNat > g.data.length
    · rw [if_pos hinc, if_pos hinc, ← hg]
      rfl
    rw [if_neg hinc, if_neg hinc]
    by_cases hcrc : rdU16le g.data (6 + (rdU16le g.data 4).toNat - 2) ≠
        crc16 (g.data.take (6 + (rdU16le g.data 4).toNat - 2))
    · rw [if_pos hcrc, if_pos hcrc, ← hg, framebufConsume_consume]
      rfl
    have hlen : (slice g.data 6 ((rdU16le g.data 4).toNat - 2)).length =
        (rdU16le g.data 4).toNat - 2 := slice_length (by omega)
    have hback : i + (6 + (rdU16le g.data 4).toNat) - (8 + ((rdU16le g.data 4).toNat - 2)) = i := by
      omega
    have hcap : g.scratchCap = fb.scratchCap := by rw [← hg]; rfl
    rw [if_neg hcrc, if_neg hcrc, Verdict.shift_emit]
    dsimp only
    rw [hlen, hback, hcap, hg, ← framebufConsume_stash fb, hg]

/-- With the allocation succeeding, the code computes the scanner's extraction. -/
theorem extractLoop_eq_next {fuel : ℕ} {fb : Framebuf} (hfuel : fb.data.length < fuel) :
    (extractLoop true fuel fb).1 = (frameScanner.next fb.data).1 ∧
      (extractLoop true fuel fb).2.data = (frameScanner.next fb.data).2 := by
  induction fuel generalizing fb with
  | zero => omega
  | succ fuel ih =>
    rw [extractLoop_succ]
    cases hv : frameLook fb.data with
    | wait n =>
      rw [frameScanner.next_wait hv]
      exact ⟨rfl, rfl⟩
    | skip n =>
      have hpos := frameScanner.skip_pos hv
      rw [frameScanner.next_skip hv]
      exact ih (by rw [framebufConsume_data, List.length_drop]; omega)
    | emit f n =>
      rw [frameScanner.next_emit hv]
      dsimp only
      rw [if_neg (by rintro ⟨-, h⟩; exact h rfl)]
      exact ⟨rfl, rfl⟩

theorem framebufExtract_eq_next (fb : Framebuf) :
    (framebufExtract true fb).1 = (frameScanner.next fb.data).1 ∧
      (framebufExtract true fb).2.data = (frameScanner.next fb.data).2 :=
  extractLoop_eq_next (Nat.lt_succ_self _)

theorem next_of_framebufExtract {fb fb' : Framebuf} {o : Option Frame}
    (h : framebufExtract true fb = (o, fb')) : frameScanner.next fb.data = (o, fb'.data) := by
  have hext := framebufExtract_eq_next fb
  rw [h] at hext
  exact Prod.ext hext.1.symm hext.2.symm

theorem frameLook_drop_garbage {b : Bytes} {i : ℕ} (hp : findPrefix b = some i) (y : Bytes) :
    (b ++ y).drop i = b.drop i ++ y ∧
      frameLook (b ++ y) = (frameLook ((b ++ y).drop i)).shift i := by
  obtain ⟨rest, hrest⟩ := findPrefix_drop hp
  have h0 : findPrefix (b.drop i ++ y) = some 0 := by
    rw [hrest]
    exact findPrefix_head _
  have hdrop : (b ++ y).drop i = b.drop i ++ y :=
    List.drop_append_of_le_length (by have := findPrefix_le hp; omega)
  refine ⟨hdrop, ?_⟩
  rw [frameLook_append_of_some y hp, hdrop, frameLook_some h0, List.drop_zero, Verdict.shift_zero]

/-- Bytes before a prefix are dropped without loss. -/
theorem reads_drop_garbage {b : Bytes} {i : ℕ} (hp : findPrefix b = some i) :
    frameScanner.Reads b [] (b.drop i) := by
  intro y
  obtain ⟨hdrop, hlook⟩ := frameLook_drop_garbage hp y
  rw [frameScanner.drain_of_look_shift hlook, hdrop]
  rfl

theorem reads_extractLoop (allocOk : Bool) (fuel : ℕ) (fb : Framebuf) :
    frameScanner.Reads fb.data (extractLoop allocOk fuel fb).1.toList
      (extractLoop allocOk fuel fb).2.data := by
  induction fuel generalizing fb with
  | zero => exact Scanner.reads_refl _
  | succ fuel ih =>
    rw [extractLoop_succ]
    cases hv : frameLook fb.data with
    | wait n => exact frameScanner.drain_wait_append hv
    | skip n =>
      intro y
      have hpos := frameScanner.skip_pos hv
      rw [frameScanner.drain_skip (frameScanner.skip_append y hv),
        List.drop_append_of_le_length hpos.2]
      exact ih (framebufConsume fb n) y
    | emit f n =>
      dsimp only
      split_ifs with hfail
      · -- the frame stays at the head: only the bytes before its prefix are gone
        obtain ⟨i, hp, rfl, -⟩ := frameLook_emit hv
        rw [Nat.add_sub_cancel]
        exact reads_drop_garbage hp
      · intro y
        have hpos := frameScanner.emit_pos hv
        rw [frameScanner.drain_emit (frameScanner.emit_append y hv),
          List.drop_append_of_le_length hpos.2]
        rfl

theorem reads_framebufExtract (allocOk : Bool) (fb : Framebuf) :
    frameScanner.Reads fb.data (framebufExtract allocOk fb).1.toList
      (framebufExtract allocOk fb).2.data :=
  reads_extractLoop allocOk _ fb

end River2
