import River2.Checked
import River2.Extraction

/-!
# The reassembler stays inside its buffers

1. `framebufAppend?` and `framebufExtract?` are the code with every read, copy and subtraction
   checked, and the loop's rounds counted; `framebufExtract?_eq`: the checks never fail, and
   `len + 1` rounds are enough.
2. `framebufCalls_capacity`: in every reachable state the bytes held fit the memory they are in, and
   a payload fits `scratch`.
3. `length_of_extract_none`: an extraction that finds nothing leaves at most 4101 bytes.
-/

namespace River2

/-! ## The code with its checks -/

/-- `river2_framebuf_append`: the copy must end below `cap`. -/
def framebufAppend? (allocOk : Bool) (fb : Framebuf) (chunk : Bytes) : Option (Bool × Framebuf) :=
  if chunk.length = 0 then some (true, fb)
  else
    let need := fb.data.length + chunk.length
    if need > fb.cap ∧ ¬ allocOk then some (false, fb)
    else
      let cap := if need > fb.cap then need else fb.cap
      if need ≤ cap then some (true, { fb with data := fb.data ++ chunk, cap := cap }) else none

/-- `framebuf_consume`: the bytes moved must lie below `len`. -/
def framebufConsume? (fb : Framebuf) (n : ℕ) : Option Framebuf := do
  let left ← sub? fb.data.length n
  let moved ← range? fb.data n left
  return { fb with data := moved }

/-- The scan for the prefix from index `i` on, for `n` rounds at most. -/
def findPrefix? (b : Bytes) : ℕ → ℕ → Option (Option ℕ)
  | 0, _ => none
  | n + 1, i =>
    if i + 1 < b.length then do
      let x ← byte? b i
      if x = 0x5A then
        let y ← byte? b (i + 1)
        if y = 0x5A then return some i else findPrefix? b n (i + 1)
      else findPrefix? b n (i + 1)
    else some none

/-- The copy to `scratch`, which must have room for it once it has grown. -/
def framebufStash? (fb : Framebuf) (payload : Bytes) : Option Framebuf :=
  let scratchCap := if payload.length > fb.scratchCap then payload.length else fb.scratchCap
  if payload.length ≤ scratchCap then
    some { fb with scratch := payload ++ fb.scratch.drop payload.length, scratchCap := scratchCap }
  else none

/-- The bytes before the prefix are discarded. -/
def framebufSkip? (fb : Framebuf) (start : ℕ) : Option Framebuf :=
  if start > 0 then framebufConsume? fb start else some fb

/-- The end of a round that has found a frame. -/
def takeFrame? (allocOk : Bool) (fb : Framebuf) (payloadField : ℕ) :
    Option (Option Frame × Framebuf) := do
  let frameType := (← byte? fb.data 2) >>> 4
  let payloadLen ← sub? payloadField 2
  if payloadLen > 0 then
    if payloadLen > fb.scratchCap ∧ ¬ allocOk then return (none, fb)
    else
      let payload ← range? fb.data 6 payloadLen
      let fb ← framebufConsume? (← framebufStash? fb payload) (6 + payloadField)
      return (some ⟨frameType, payload⟩, fb)
  else
    let fb ← framebufConsume? fb (6 + payloadField)
    return (some ⟨frameType, []⟩, fb)

/-- The loop of `river2_framebuf_extract`. -/
def extractLoop? (allocOk : Bool) : ℕ → Framebuf → Option (Option Frame × Framebuf)
  | 0, _ => none
  | fuel + 1, fb =>
    if fb.data.length < 2 then some (none, fb)
    else do
      match ← findPrefix? fb.data fb.data.length 0 with
      | none =>
        let fb ← framebufConsume? fb (← sub? fb.data.length 1)
        return (none, fb)
      | some start =>
        let fb ← framebufSkip? fb start
        if fb.data.length < 6 then return (none, fb)
        else
          let payloadField := (← word? fb.data 4).toNat
          if payloadField < 2 ∨ payloadField > 4096 then
            extractLoop? allocOk fuel (← framebufConsume? fb 2)
          else
            let dataEnd := 6 + payloadField
            if dataEnd > fb.data.length then return (none, fb)
            else
              let trailer ← sub? dataEnd 2
              let body ← range? fb.data 0 trailer
              if (← word? fb.data trailer) ≠ crc16 body then
                extractLoop? allocOk fuel (← framebufConsume? fb 2)
              else takeFrame? allocOk fb payloadField

/-- `river2_framebuf_extract`. -/
def framebufExtract? (allocOk : Bool) (fb : Framebuf) : Option (Option Frame × Framebuf) :=
  extractLoop? allocOk (fb.data.length + 1) fb

/-! ## The checks hold -/

theorem framebufAppend?_eq (allocOk : Bool) (fb : Framebuf) (chunk : Bytes) :
    framebufAppend? allocOk fb chunk = some (framebufAppend allocOk fb chunk) := by
  unfold framebufAppend? framebufAppend
  by_cases h0 : chunk.length = 0
  · rw [if_pos h0, if_pos h0]
  rw [if_neg h0, if_neg h0]
  dsimp only
  by_cases hgrow : fb.data.length + chunk.length > fb.cap
  · cases allocOk with
    | false =>
      rw [if_pos ⟨hgrow, Bool.false_ne_true⟩, if_pos hgrow]
      rfl
    | true =>
      rw [if_neg (fun h => h.2 rfl), if_pos hgrow, if_pos le_rfl, if_pos hgrow]
      rfl
  · rw [if_neg (fun h => hgrow h.1), if_neg hgrow, if_pos (not_lt.mp hgrow), if_neg hgrow]

theorem framebufConsume?_eq {fb : Framebuf} {n : ℕ} (h : n ≤ fb.data.length) :
    framebufConsume? fb n = some (framebufConsume fb n) := by
  unfold framebufConsume?
  rw [bind_checked (sub?_of_le h), bind_checked (range?_of_le (by omega))]
  show some _ = some _
  unfold framebufConsume slice
  rw [List.take_of_length_le (by rw [List.length_drop])]

theorem framebufStash?_eq (fb : Framebuf) (payload : Bytes) :
    framebufStash? fb payload = some (framebufStash fb payload) := by
  unfold framebufStash? framebufStash
  dsimp only
  by_cases h : payload.length > fb.scratchCap
  · rw [if_pos h, if_pos le_rfl, max_eq_right h.le]
  · rw [if_neg h, if_pos (not_lt.mp h), max_eq_left (not_lt.mp h)]

theorem findPrefix?_eq {b : Bytes} (n i : ℕ) (hn : 0 < n) (h : b.length ≤ n + i) :
    findPrefix? b n i = some ((findPrefix (b.drop i)).map (· + i)) := by
  induction n generalizing i with
  | zero => exact absurd hn (lt_irrefl 0)
  | succ n ih =>
    unfold findPrefix?
    by_cases hi : i + 1 < b.length
    · have hd := List.drop_eq_getElem_cons (show i < b.length by omega)
      have hd' := List.drop_eq_getElem_cons hi
      have hrec := ih (i + 1) (by omega) (by omega)
      have hread : byte? b i = some b[i] := List.getElem?_eq_getElem _
      have hread' : byte? b (i + 1) = some b[i + 1] := List.getElem?_eq_getElem _
      rw [if_pos hi, bind_checked hread, hd, hd']
      have hskip : ¬ (b[i] = 0x5A ∧ b[i + 1] = 0x5A) →
          findPrefix? b n (i + 1) = some ((findPrefix (b[i] :: b[i + 1] :: b.drop (i + 1 + 1))).map
            (· + i)) := by
        intro hp
        rw [hrec, findPrefix_cons_of_not hp, ← hd', Option.map_map]
        congr 2
        funext j
        show j + (i + 1) = j + 1 + i
        omega
      by_cases hx : b[i] = 0x5A
      · rw [if_pos hx, bind_checked hread']
        by_cases hy : b[i + 1] = 0x5A
        · rw [if_pos hy, hx, hy, findPrefix_head, Option.map_some, Nat.zero_add]
          rfl
        · rw [if_neg hy]
          exact hskip fun hp => hy hp.2
      · rw [if_neg hx]
        exact hskip fun hp => hx hp.1
    · have hshort : (b.drop i).length < 2 := by
        rw [List.length_drop]
        omega
      have hnone : findPrefix (b.drop i) = none := by
        cases hp : findPrefix (b.drop i) with
        | none => rfl
        | some j =>
          have := findPrefix_le hp
          omega
      rw [if_neg hi, hnone]
      rfl

theorem framebufSkip?_eq {fb : Framebuf} {start : ℕ} (h : start ≤ fb.data.length) :
    framebufSkip? fb start = some (framebufConsume fb start) := by
  unfold framebufSkip?
  split_ifs with h0
  · exact framebufConsume?_eq h
  · rw [Nat.eq_zero_of_not_pos h0, framebufConsume_zero]

/-- A payload of no bytes is not copied, which is what copying it does. -/
theorem takeFrame?_eq (allocOk : Bool) {fb : Framebuf} {payloadField : ℕ} (h2 : 2 ≤ payloadField)
    (h : 6 + payloadField ≤ fb.data.length) :
    takeFrame? allocOk fb payloadField =
      some (if payloadField - 2 > fb.scratchCap ∧ ¬ allocOk then (none, fb)
        else (some ⟨fb.data.getD 2 0 >>> 4, slice fb.data 6 (payloadField - 2)⟩,
          framebufConsume (framebufStash fb (slice fb.data 6 (payloadField - 2)))
            (6 + payloadField))) := by
  unfold takeFrame?
  rw [bind_checked (byte?_of_lt (by omega)), bind_checked (sub?_of_le h2)]
  by_cases hpos : payloadField - 2 > 0
  · rw [if_pos hpos]
    split_ifs with hfail
    · rfl
    · have hconsume := framebufConsume?_eq
        (show 6 + payloadField ≤ (framebufStash fb (slice fb.data 6 (payloadField - 2))).data.length
          from h)
      rw [bind_checked (range?_of_le (by omega)), bind_checked (framebufStash?_eq _ _),
        bind_checked hconsume]
      rfl
  · have hzero : payloadField - 2 = 0 := by omega
    have hstash : framebufStash fb [] = fb := by
      unfold framebufStash
      rw [List.length_nil, Nat.max_zero]
      rfl
    rw [if_neg hpos, hzero, if_neg (fun hc => absurd hc.1 (Nat.not_lt_zero _)),
      bind_checked (framebufConsume?_eq h), slice, List.take_zero, hstash]
    rfl

/-- **The checks hold.** Checked or not, the loop computes the same, and it ends in time. -/
theorem extractLoop?_eq (allocOk : Bool) {fuel : ℕ} {fb : Framebuf}
    (hfuel : fb.data.length < fuel) :
    extractLoop? allocOk fuel fb = some (extractLoop allocOk fuel fb) := by
  induction fuel generalizing fb with
  | zero => exact absurd hfuel (Nat.not_lt_zero _)
  | succ fuel ih =>
    unfold extractLoop? extractLoop
    by_cases h2 : fb.data.length < 2
    · rw [if_pos h2, if_pos h2]
    rw [if_neg h2, if_neg h2]
    have hscan := findPrefix?_eq (b := fb.data) fb.data.length 0 (by omega) (by omega)
    rw [bind_checked hscan, List.drop_zero]
    cases hp : findPrefix fb.data with
    | none =>
      show (sub? fb.data.length 1 >>= fun n =>
        framebufConsume? fb n >>= fun fb => pure (none, fb)) = _
      rw [bind_checked (sub?_of_le (by omega)), bind_checked (framebufConsume?_eq (by omega))]
      rfl
    | some start =>
      have hle := findPrefix_le hp
      have hlen : (framebufConsume fb start).data.length ≤ fb.data.length := by
        rw [framebufConsume_data, List.length_drop]
        exact Nat.sub_le _ _
      rw [Option.map_some]
      dsimp only
      rw [Nat.add_zero, bind_checked (framebufSkip?_eq (by omega))]
      generalize framebufConsume fb start = g at hlen ⊢
      by_cases h6 : g.data.length < 6
      · rw [if_pos h6, if_pos h6]
        rfl
      rw [if_neg h6, if_neg h6, bind_checked (word?_of_le (by omega))]
      have hskip : ∀ (f : Framebuf → Option (Option Frame × Framebuf)),
          (framebufConsume? g 2 >>= f) = f (framebufConsume g 2) :=
        bind_checked (framebufConsume?_eq (by omega))
      have hrec := @ih (framebufConsume g 2)
        (by rw [framebufConsume_data, List.length_drop]; omega)
      by_cases hbad : (rdU16le g.data 4).toNat < 2 ∨ (rdU16le g.data 4).toNat > 4096
      · rw [if_pos hbad, if_pos hbad, hskip, hrec]
      rw [if_neg hbad, if_neg hbad]
      by_cases hinc : 6 + (rdU16le g.data 4).toNat > g.data.length
      · rw [if_pos hinc, if_pos hinc]
        rfl
      rw [if_neg hinc, if_neg hinc, bind_checked (sub?_of_le (by omega)),
        bind_checked (range?_of_le (by omega)), bind_checked (word?_of_le (by omega))]
      have hbody : slice g.data 0 (6 + (rdU16le g.data 4).toNat - 2) =
          g.data.take (6 + (rdU16le g.data 4).toNat - 2) := rfl
      rw [hbody]
      by_cases hcrc : rdU16le g.data (6 + (rdU16le g.data 4).toNat - 2) ≠
          crc16 (g.data.take (6 + (rdU16le g.data 4).toNat - 2))
      · rw [if_pos hcrc, if_pos hcrc, hskip, hrec]
      rw [if_neg hcrc, if_neg hcrc, takeFrame?_eq allocOk (by omega) (by omega)]

theorem framebufExtract?_eq (allocOk : Bool) (fb : Framebuf) :
    framebufExtract? allocOk fb = some (framebufExtract allocOk fb) :=
  extractLoop?_eq allocOk (Nat.lt_succ_self _)

/-! ## Sizes -/

/-- What an extraction does to the sizes: it gives no byte back to the buffer and leaves its memory
alone, and a payload that is returned lies in `scratch`. -/
structure ExtractSizes (fb : Framebuf) (o : Option Frame) (fb' : Framebuf) : Prop where
  length_le : fb'.data.length ≤ fb.data.length
  cap_eq : fb'.cap = fb.cap
  payload : ∀ f, o = some f →
    f.payload.length ≤ fb'.scratchCap ∧ fb'.scratch.take f.payload.length = f.payload

theorem extractLoop_sizes (allocOk : Bool) (fuel : ℕ) (fb : Framebuf) :
    ExtractSizes fb (extractLoop allocOk fuel fb).1 (extractLoop allocOk fuel fb).2 := by
  induction fuel generalizing fb with
  | zero => exact ⟨le_rfl, rfl, nofun⟩
  | succ fuel ih =>
    rw [extractLoop_succ]
    have hdrop : ∀ n, (framebufConsume fb n).data.length ≤ fb.data.length := fun n => by
      rw [framebufConsume_data, List.length_drop]
      exact Nat.sub_le _ _
    cases hv : frameLook fb.data with
    | wait n => exact ⟨hdrop n, rfl, nofun⟩
    | skip n =>
      have hrec := ih (framebufConsume fb n)
      exact ⟨hrec.length_le.trans (hdrop n), hrec.cap_eq, hrec.payload⟩
    | emit f n =>
      dsimp only
      split_ifs with hfail
      · exact ⟨hdrop _, rfl, nofun⟩
      · refine ⟨hdrop n, rfl, ?_⟩
        rintro g ⟨⟩
        exact ⟨le_max_right _ _, List.take_left⟩

theorem framebufExtract_sizes (allocOk : Bool) (fb : Framebuf) :
    ExtractSizes fb (framebufExtract allocOk fb).1 (framebufExtract allocOk fb).2 :=
  extractLoop_sizes allocOk _ fb

theorem framebufAppend_capacity {allocOk : Bool} {fb : Framebuf} {chunk : Bytes}
    (h : fb.data.length ≤ fb.cap) : (framebufAppend allocOk fb chunk).2.data.length ≤
      (framebufAppend allocOk fb chunk).2.cap := by
  unfold framebufAppend
  split_ifs with h0 hgrow hok
  · exact h
  · rw [List.length_append]
  · exact h
  · rw [List.length_append]
    exact not_lt.mp hgrow

/-- In every state a run reaches, the bytes held fit their memory. -/
theorem framebufCalls_capacity (calls : List FramebufCall) {fb : Framebuf}
    (h : fb.data.length ≤ fb.cap) :
    (framebufCalls calls fb).left.data.length ≤ (framebufCalls calls fb).left.cap := by
  induction calls generalizing fb with
  | nil => exact h
  | cons call calls ih =>
    cases call with
    | append allocOk chunk =>
      have hnext := ih (@framebufAppend_capacity allocOk _ chunk h)
      unfold framebufCalls
      dsimp only
      split_ifs
      · exact hnext
      · exact hnext
    | extract allocOk =>
      have hsizes := framebufExtract_sizes allocOk fb
      have hfit :
          (framebufExtract allocOk fb).2.data.length ≤ (framebufExtract allocOk fb).2.cap := by
        rw [hsizes.cap_eq]
        exact hsizes.length_le.trans h
      exact ih hfit

theorem length_of_wait {b : Bytes} {n : ℕ} (h : frameLook b = .wait n) :
    (b.drop n).length ≤ 4101 := by
  obtain ⟨-, rfl⟩ | ⟨-, hhead⟩ := frameLook_wait h
  · rw [List.length_drop]
    omega
  · unfold headLook at hhead
    split_ifs at hhead with h6 hbad hinc
    · omega
    · omega

theorem length_of_extractLoop_none {fuel : ℕ} {fb fb' : Framebuf} (hfuel : fb.data.length < fuel)
    (h : extractLoop true fuel fb = (none, fb')) : fb'.data.length ≤ 4101 := by
  induction fuel generalizing fb with
  | zero => exact absurd hfuel (Nat.not_lt_zero _)
  | succ fuel ih =>
    rw [extractLoop_succ] at h
    cases hv : frameLook fb.data with
    | wait n =>
      rw [hv] at h
      obtain ⟨-, rfl⟩ := Prod.mk.inj h
      exact length_of_wait hv
    | skip n =>
      rw [hv] at h
      have hpos := frameScanner.skip_pos hv
      exact ih (by rw [framebufConsume_data, List.length_drop]; omega) h
    | emit f n =>
      rw [hv] at h
      dsimp only at h
      rw [if_neg (fun hc => hc.2 rfl)] at h
      cases (Prod.mk.inj h).1

/-- With memory, an extraction that finds no frame leaves at most 4101 bytes. -/
theorem length_of_extract_none {fb fb' : Framebuf} (h : framebufExtract true fb = (none, fb')) :
    fb'.data.length ≤ 4101 :=
  length_of_extractLoop_none (Nat.lt_succ_self _) h

end River2
