import River2.Reassembly
import River2.Session

/-!
# Waiting for frames and sending packets (`river2_auth.c`)

`waitForFrame` is the receive loop of the handshake, `sendFrame` and `sendInnerEncrypted` its
senders. `wp_waitForFrame` is the specification every step of the handshake uses: the frame
returned is the first one of the wanted type behind the frames extracted so far, and an error means
a fault.
-/

namespace River2

open Prog

/-! ## The code -/

/-- One round of the loop of `wait_for_frame`. -/
def waitRound (wantFrameType : UInt8) (deadlineUs : ℤ) (fb : Framebuf) :
    Fw (Framebuf ⊕ (Bytes × Framebuf)) := do
  let allocOk ← alloc
  match framebufExtract allocOk fb with
  | (some f, fb) =>
    markExtracted f
    if f.frameType = wantFrameType then return .inr (f.payload, fb) else return .inl fb
  | (none, fb) =>
    let now ← getTime
    let remainingUs := deadlineUs - now
    if remainingUs ≤ 0 then Prog.throw .timeout
    else
      let remainingMs := ((remainingUs / 1000).toNat + 1) % 2 ^ 32
      match ← bleWaitNotification notifyChunkMax remainingMs with
      | .error .timeout => return .inl fb -- the loop re-checks the overall deadline
      | .error err => Prog.throw err
      | .ok chunk =>
        let allocOk ← alloc
        match framebufAppend allocOk fb chunk with
        | (true, fb) => return .inl fb
        | (false, _) => Prog.throw .noMem

/-- `wait_for_frame`: the payload of the frame, and the buffer behind it. -/
def waitForFrame (fuel : ℕ) (fb : Framebuf) (wantFrameType : UInt8) (timeoutMs : ℕ) :
    Fw (Bytes × Framebuf) := do
  let now ← getTime
  Prog.loop (waitRound wantFrameType (now + timeoutMs * 1000)) fuel fb

/-- `send_frame`. -/
def sendFrame (frameType : UInt8) (payload : Bytes) : Fw Unit := do
  match outerBuild frameType payload 600 with
  | none => Prog.throw .invalidSize
  | some frame =>
    let err ← bleWrite frame
    if err = .ok then return () else Prog.throw err

/-- `send_inner_encrypted`. -/
def sendInnerEncrypted (c : Crypto) (cipher : Session) (src dst cmdSet cmdId : UInt8)
    (payload : Bytes) : Fw Unit := do
  match innerBuild src dst cmdSet cmdId payload 300 with
  | none => Prog.throw .invalidSize
  | some inner =>
    let encrypted ← aesCbcEncryptPkcs7 c cipher inner 320
    sendFrame frameData encrypted

/-! ## The buffer and the history -/

/-- Bytes received and waits made: every round of a receive loop adds to this weight or takes from
the buffer. -/
def weight (h : Hist) : ℕ := (received h).length + waits h

@[simp] theorem weight_nil : weight [] = 0 := rfl

theorem weight_offAir {h h' : Hist} (hx : OffAir h h') : weight h' = weight h := by
  unfold weight
  rw [received_offAir hx, waits_offAir hx]

theorem weight_quiet {h h' : Hist} (hq : Quiet h h') : weight h' = weight h :=
  weight_offAir (offAir_of_quiet hq)

theorem weight_extracted (h : Hist) (f : Frame) :
    weight (h ++ [⟨.extracted f, ()⟩]) = weight h := by
  unfold weight
  rw [received_append, waits_append]
  show (received h ++ []).length + (waits h + 0) = _
  rw [List.append_nil, Nat.add_zero]

/-- The buffer holds what the extracted frames leave of the received bytes. -/
structure Synced (h : Hist) (fb : Framebuf) : Prop where
  reads : frameScanner.Reads (received h) (extracted h) fb.data
  length_le : fb.data.length ≤ weight h

theorem Synced.prefix_framesOf {h : Hist} {fb : Framebuf} (hs : Synced h fb) :
    extracted h <+: framesOf (received h) := by
  have hpre := hs.reads.prefix_items []
  rwa [List.append_nil] at hpre

theorem synced_init : Synced [] framebufInit := ⟨Scanner.reads_refl [], le_rfl⟩

theorem Synced.offAir {h h' : Hist} {fb : Framebuf} (hs : Synced h fb) (hx : OffAir h h') :
    Synced h' fb := by
  refine ⟨?_, ?_⟩
  · rw [received_offAir hx, extracted_offAir hx]
    exact hs.reads
  · rw [weight_offAir hx]
    exact hs.length_le

theorem Synced.quiet {h h' : Hist} {fb : Framebuf} (hs : Synced h fb) (hq : Quiet h h') :
    Synced h' fb := hs.offAir (offAir_of_quiet hq)

theorem extractLoop_length (allocOk : Bool) (fuel : ℕ) (fb : Framebuf) :
    (extractLoop allocOk fuel fb).2.data.length + (extractLoop allocOk fuel fb).1.toList.length ≤
      fb.data.length := by
  induction fuel generalizing fb with
  | zero => exact le_rfl
  | succ fuel ih =>
    rw [extractLoop_succ]
    cases hv : frameLook fb.data with
    | wait n =>
      simp only [framebufConsume_data, List.length_drop, Option.toList_none, List.length_nil]
      omega
    | skip n =>
      have hrec := ih (framebufConsume fb n)
      rw [framebufConsume_data, List.length_drop] at hrec
      dsimp only
      omega
    | emit f n =>
      have hpos := frameScanner.emit_pos hv
      dsimp only
      split_ifs
      · simp only [framebufConsume_data, List.length_drop, Option.toList_none, List.length_nil]
        omega
      · simp only [framebufConsume_data, framebufStash_data, List.length_drop, Option.toList_some,
          List.length_singleton]
        omega

theorem framebufExtract_length {allocOk : Bool} {fb fb' : Framebuf} {o : Option Frame}
    (h : framebufExtract allocOk fb = (o, fb')) :
    fb'.data.length + o.toList.length ≤ fb.data.length := by
  have hlen := extractLoop_length allocOk (fb.data.length + 1) fb
  change framebufExtract allocOk fb = _ at h
  unfold framebufExtract at h
  rwa [h] at hlen

theorem Synced.extract_some {h : Hist} {fb fb' : Framebuf} {allocOk : Bool} {f : Frame}
    (hs : Synced h fb) (he : framebufExtract allocOk fb = (some f, fb')) :
    Synced (h ++ [⟨.extracted f, ()⟩]) fb' := by
  have hreads := reads_framebufExtract allocOk fb
  have hlen := framebufExtract_length he
  rw [he] at hreads
  refine ⟨?_, ?_⟩
  · rw [received_append, extracted_append]
    have := hs.reads.trans hreads
    rwa [← List.append_nil (received h)] at this
  · have := hs.length_le
    rw [weight_extracted]
    omega

theorem Synced.extract_none {h : Hist} {fb fb' : Framebuf} {allocOk : Bool}
    (hs : Synced h fb) (he : framebufExtract allocOk fb = (none, fb')) : Synced h fb' := by
  have hreads := reads_framebufExtract allocOk fb
  have hlen := framebufExtract_length he
  rw [he] at hreads
  refine ⟨?_, ?_⟩
  · have := hs.reads.trans hreads
    rwa [Option.toList_none, List.append_nil] at this
  · have := hs.length_le
    omega

/-- After an extraction that returned nothing for lack of a frame, all frames received are
extracted. -/
theorem Synced.drained {h : Hist} {fb fb' : Framebuf} (hs : Synced h fb)
    (he : framebufExtract true fb = (none, fb')) : framesOf (received h) = extracted h := by
  have hdrain := Scanner.drain_of_next_none (next_of_framebufExtract he)
  have hitems := hs.reads.items_eq
  unfold framesOf
  rw [hitems, Scanner.items, hdrain, List.append_nil]

theorem weight_receive (h : Hist) (t : ℕ) (answer : Option Bytes) :
    weight (h ++ [⟨.queueReceive t, answer⟩]) =
      weight h + ((answer.getD []).take notifyChunkMax).length + 1 := by
  unfold weight
  rw [received_append, waits_append, List.length_append]
  cases answer with
  | none =>
    show _ + 0 + (_ + 1) = _ + (([] : Bytes).take notifyChunkMax).length + 1
    rw [List.take_nil, List.length_nil]
    omega
  | some data =>
    have hrec : received [⟨.queueReceive t, some data⟩] = data.take notifyChunkMax :=
      List.append_nil _
    rw [hrec]
    show _ + _ + (_ + 1) = _ + (data.take notifyChunkMax).length + 1
    omega

theorem framebufAppend_length {allocOk : Bool} {fb fb' : Framebuf} {chunk : Bytes}
    (ha : framebufAppend allocOk fb chunk = (true, fb')) :
    fb'.data.length = fb.data.length + chunk.length := by
  have hdata := framebufAppend_data (show (framebufAppend allocOk fb chunk).1 = true by rw [ha])
  rw [ha] at hdata
  dsimp only at hdata
  rw [hdata, List.length_append]

theorem Synced.receive_none {h : Hist} {fb : Framebuf} (hs : Synced h fb) (t : ℕ) :
    Synced (h ++ [⟨.queueReceive t, none⟩]) fb := by
  refine ⟨?_, ?_⟩
  · rw [received_append, extracted_append]
    show frameScanner.Reads (received h ++ []) (extracted h ++ []) fb.data
    rw [List.append_nil, List.append_nil]
    exact hs.reads
  · have := hs.length_le
    rw [weight_receive]
    omega

theorem Synced.receive_some {h : Hist} {fb fb' : Framebuf} {allocOk : Bool} {data : Bytes}
    (hs : Synced h fb) (t : ℕ)
    (ha : framebufAppend allocOk fb (data.take notifyChunkMax) = (true, fb')) :
    Synced (h ++ [⟨.queueReceive t, some data⟩]) fb' := by
  have hdata := framebufAppend_data
    (show (framebufAppend allocOk fb (data.take notifyChunkMax)).1 = true by rw [ha])
  rw [ha] at hdata
  dsimp only at hdata
  refine ⟨?_, ?_⟩
  · have hrec : received [⟨.queueReceive t, some data⟩] = data.take notifyChunkMax :=
      List.append_nil _
    rw [received_append, extracted_append, hrec, hdata]
    show frameScanner.Reads _ (extracted h ++ []) _
    rw [List.append_nil]
    exact hs.reads.feed _
  · have := hs.length_le
    rw [weight_receive, hdata, List.length_append]
    show _ ≤ _ + (data.take notifyChunkMax).length + 1
    omega

/-! ## Specifications -/

/-- Events that leave a wait for frames of type `want` waiting. -/
def Skipped (want : UInt8) : Event Answer → Prop
  | ⟨.extracted f, _⟩ => f.frameType ≠ want
  | ⟨.bleWrite _, _⟩ => False
  | ⟨.makeKey, _⟩ => False
  | _ => True

theorem skipped_of_silent {want : UInt8} {ev : Event Answer} (hs : ev.1.silent = true) :
    Skipped want ev := by
  obtain ⟨e, a⟩ := ev
  cases e <;> trivial

/-- `h'` continues `h` by events that leave the wait waiting. -/
abbrev Skips (want : UInt8) (h h' : Hist) : Prop := Extends (Skipped want) h h'

theorem Skips.quiet {want : UInt8} {h h' h'' : Hist} (hsk : Skips want h h') (hq : Quiet h' h'') :
    Skips want h h'' := hsk.trans (hq.mono fun _ => skipped_of_silent)

/-- The next wait may begin: everything received so far is extracted. -/
def Drained (h : Hist) : Prop := framesOf (received h) = extracted h

theorem Drained.quiet {h h' : Hist} (hd : Drained h) (hq : Quiet h h') : Drained h' := by
  unfold Drained
  rw [received_quiet hq, extracted_quiet hq]
  exact hd

/-- A wait for frames of type `want` that began after `h` runs into its deadline, `timeoutMs`
after it began. -/
def Overran (want : UInt8) (timeoutMs : ℕ) (h h' : Hist) : Prop :=
  ∃ (t₀ now : ℤ) (h₁ : Hist), Skips want (h ++ [⟨.getTime, t₀⟩]) h₁ ∧ h' = h₁ ++ [⟨.getTime, now⟩] ∧
    t₀ + timeoutMs * 1000 ≤ now

theorem exists_not_failed (e : Call) : ∃ a, ¬ Failed ⟨e, a⟩ := by
  cases e with
  | getTime => exact ⟨(0 : ℤ), id⟩
  | alloc => exact ⟨true, nofun⟩
  | queueReceive t => exact ⟨none, id⟩
  | bleWrite data => exact ⟨EspErr.ok, id⟩
  | makeKey => exact ⟨some (⟨List.replicate 40 0, rfl⟩, ⟨List.replicate 21 0, rfl⟩), nofun⟩
  | sharedSecret => exact ⟨true, nofun⟩
  | psa op => exact ⟨true, nofun⟩
  | hashCompute => exact ⟨HashStatus.success, fun hne => hne rfl⟩
  | load x => exact ⟨(0 : Int8), id⟩
  | notifyWait => exact ⟨(0 : UInt32), id⟩
  | _ => exact ⟨(), id⟩

theorem exists_earlier (h : Hist) : ∃ t : ℤ, ∀ t₀, ⟨.getTime, t₀⟩ ∈ h → t < t₀ := by
  induction h with
  | nil => exact ⟨0, nofun⟩
  | cons ev h ih =>
    obtain ⟨t, ht⟩ := ih
    obtain ⟨e, a⟩ := ev
    cases e with
    | getTime =>
      refine ⟨min t (a - 1), fun t₀ hmem => ?_⟩
      rcases List.mem_cons.mp hmem with heq | hmem
      · cases heq
        exact (min_le_right t (a - 1)).trans_lt (sub_one_lt a)
      · exact (min_le_left _ _).trans_lt (ht t₀ hmem)
    | _ =>
      refine ⟨t, fun t₀ hmem => ht t₀ ?_⟩
      rcases List.mem_cons.mp hmem with heq | hmem
      · cases heq
      · exact hmem

section Specs

variable {C : Contract Call Answer} {h : Hist} {R : EspErr → Hist → Prop}

theorem wp_getTime {Q : ℤ → Hist → Prop} (hperm : Permits C)
    (hQ : ∀ t, Q t (h ++ [⟨.getTime, t⟩])) : wp C getTime Q R h :=
  wp_silent hperm rfl fun t _ => hQ t

theorem wp_alloc {Q : Bool → Hist → Prop} (hperm : Permits C) (hok : ∀ h', Quiet h h' → Q true h')
    (hfail : ∀ h', Quiet h h' → Fault h' → Q false h') : wp C alloc Q R h := by
  refine wp_silent hperm rfl ?_
  rintro (_ | _) -
  · exact hfail _ (quiet_snoc rfl _) (fault_of_failed rfl)
  · exact hok _ (quiet_snoc rfl _)

/-- What a round of the receive loop does to history and buffer: it moves on by at least one. -/
structure Advance (h h' : Hist) (fb fb' : Framebuf) : Prop where
  synced : Synced h' fb'
  lt : weight h + fb'.data.length < weight h' + fb.data.length

theorem wp_waitRound {want : UInt8} {deadlineUs : ℤ} {fb : Framebuf}
    {Q : Framebuf ⊕ (Bytes × Framebuf) → Hist → Prop} (hperm : Permits C) (hs : Synced h fb)
    (hmark : ∀ h' f, Quiet h h' → extracted h' ++ [f] <+: framesOf (received h') →
      C.pre h' (.extracted f))
    (hrecv : ∀ h' t, Quiet h h' → Drained h' ∨ Fault h' → C.pre h' (.queueReceive t))
    (hround : ∀ h' fb', Skips want h h' → Advance h h' fb fb' → Q (.inl fb') h')
    (hfound : ∀ h' payload fb', Quiet h h' →
      Advance h (h' ++ [⟨.extracted ⟨want, payload⟩, ()⟩]) fb fb' →
        Q (.inr (payload, fb')) (h' ++ [⟨.extracted ⟨want, payload⟩, ()⟩]))
    (hlate : ∀ h' now, Quiet h h' → deadlineUs ≤ now →
      R .timeout (h' ++ [⟨.getTime, now⟩]))
    (hnomem : ∀ h', Skips want h h' → Fault h' → R .noMem h') :
    wp C (waitRound want deadlineUs fb) Q R h := by
  unfold waitRound
  refine wp_do.mpr (wp_silent hperm rfl fun allocOk _ => ?_)
  have hq₁ : Quiet h (h ++ [⟨.alloc, allocOk⟩]) := quiet_snoc rfl _
  have hfault : allocOk = true ∨ Fault (h ++ [⟨.alloc, allocOk⟩]) := by
    cases allocOk with
    | false => exact .inr (fault_of_failed rfl)
    | true => exact .inl rfl
  generalize h ++ [⟨.alloc, allocOk⟩] = h₁ at hq₁ hfault ⊢
  have hs₁ := hs.quiet hq₁
  have hw₁ := weight_quiet hq₁
  cases he : framebufExtract allocOk fb with
  | mk o fb₁ =>
    have hlen := framebufExtract_length he
    cases o with
    | some f =>
      have hpre := (hs₁.extract_some he).prefix_framesOf
      rw [extracted_append, received_append] at hpre
      change extracted h₁ ++ [f] <+: framesOf (received h₁ ++ []) at hpre
      rw [List.append_nil] at hpre
      refine wp_do.mpr ⟨hmark _ _ hq₁ hpre, fun _ _ => ?_⟩
      have hadv : Advance h (h₁ ++ [⟨.extracted f, ()⟩]) fb fb₁ := by
        refine ⟨hs₁.extract_some he, ?_⟩
        rw [weight_extracted, hw₁]
        rw [Option.toList_some, List.length_singleton] at hlen
        omega
      obtain ⟨frameType, payload⟩ := f
      by_cases hty : frameType = want
      · rw [if_pos hty]
        subst hty
        exact hfound h₁ payload fb₁ hq₁ hadv
      · rw [if_neg hty]
        exact hround _ fb₁ ((hq₁.mono fun _ => skipped_of_silent).snoc hty) hadv
    | none =>
      rw [Option.toList_none, List.length_nil] at hlen
      refine wp_do.mpr (wp_getTime hperm fun now => ?_)
      have hq : Quiet h₁ (h₁ ++ [⟨.getTime, now⟩]) := quiet_snoc rfl _
      have hq₂ := hq₁.trans hq
      have hs₂ := (hs₁.extract_none he).quiet hq
      have hdr : Drained (h₁ ++ [⟨.getTime, now⟩]) ∨ Fault (h₁ ++ [⟨.getTime, now⟩]) := by
        rcases hfault with rfl | hf
        · exact .inl (Drained.quiet (hs₁.drained he) hq)
        · exact .inr (hf.append _)
      have hw₂ := weight_quiet hq₂
      by_cases hexp : deadlineUs - now ≤ 0
      · rw [if_pos hexp]
        exact hlate h₁ now hq₁ (by omega)
      rw [if_neg hexp]
      generalize h₁ ++ [⟨.getTime, now⟩] = h₂ at hq₂ hs₂ hdr hw₂ ⊢
      have hsk₂ : Skips want h h₂ := hq₂.mono fun _ => skipped_of_silent
      unfold bleWaitNotification
      refine wp_do.mpr (wp_do.mpr ⟨hrecv _ _ hq₂ hdr, fun answer _ => ?_⟩)
      have hsk : ∀ t, Skips want h (h₂ ++ [⟨.queueReceive t, answer⟩]) :=
        fun t => hsk₂.snoc trivial
      cases answer with
      | none =>
        refine hround _ fb₁ (hsk _) ⟨hs₂.receive_none _, ?_⟩
        rw [weight_receive, hw₂]
        omega
      | some data =>
        refine wp_do.mpr (wp_silent hperm rfl fun allocOk' _ => ?_)
        cases ha : framebufAppend allocOk' fb₁ (data.take notifyChunkMax) with
        | mk appended fb₂ =>
          have hsk₃ := fun t => (hsk t).quiet (quiet_snoc (e := .alloc) rfl allocOk')
          cases appended with
          | false =>
            refine hnomem _ (hsk₃ _) (fault_of_failed ?_)
            cases allocOk' with
            | false => rfl
            | true =>
              have := framebufAppend_true fb₁ (data.take notifyChunkMax)
              rw [ha] at this
              cases this
          | true =>
            have hlen₂ := framebufAppend_length ha
            refine hround _ fb₂ (hsk₃ _) ⟨(hs₂.receive_some _ ha).quiet (quiet_snoc rfl _), ?_⟩
            rw [weight_quiet (quiet_snoc rfl _), weight_receive, hw₂, Option.getD_some]
            omega

/-- **Waiting for a frame.** What is returned is the payload of the first frame of the wanted type
behind the frames extracted before; an error means a fault or the deadline. A wait for more bytes
begins only when all frames received are extracted. -/
theorem wp_waitForFrame {want : UInt8} {fuel timeoutMs : ℕ} {fb : Framebuf}
    {Q : Bytes × Framebuf → Hist → Prop} (hperm : Permits C) (hs : Synced h fb)
    (hmark : ∀ h' f, Skips want h h' → extracted h' ++ [f] <+: framesOf (received h') →
      C.pre h' (.extracted f))
    (hout : ∀ h', fuel ≤ weight h' → C.out h')
    (hrecv : ∀ h' t, Skips want h h' → Drained h' ∨ Fault h' → C.pre h' (.queueReceive t))
    (hfound : ∀ h' payload fb', Skips want h h' →
      Advance h (h' ++ [⟨.extracted ⟨want, payload⟩, ()⟩]) fb fb' →
        Q (payload, fb') (h' ++ [⟨.extracted ⟨want, payload⟩, ()⟩]))
    (hlate : ∀ h', Overran want timeoutMs h h' → R .timeout h')
    (hnomem : ∀ h', Skips want h h' → Fault h' → R .noMem h') :
    wp C (waitForFrame fuel fb want timeoutMs) Q R h := by
  unfold waitForFrame
  refine wp_do.mpr (wp_getTime hperm fun t₀ => ?_)
  have hq₀ : Quiet h (h ++ [⟨.getTime, t₀⟩]) := quiet_snoc rfl _
  have hsk₀ : Skips want h (h ++ [⟨.getTime, t₀⟩]) := hq₀.mono fun _ => skipped_of_silent
  -- every round adds to the weight or takes from the buffer
  refine wp_loop (fun n fb' h' => Skips want (h ++ [⟨.getTime, t₀⟩]) h' ∧ Synced h' fb' ∧
      fuel + fb'.data.length ≤ n + weight h' ∧
      weight h + fb'.data.length ≤ weight h' + fb.data.length) ?_ ?_ ?_
  · rintro fb' h' ⟨-, -, hfuel, -⟩
    exact hout h' (by omega)
  · rintro n fb₁ h₁ ⟨hsk₁, hs₁, hfuel, hw⟩
    refine wp_waitRound hperm hs₁ ?_ ?_ ?_ ?_ ?_ ?_
    · intro h₂ f hq₂ hpre
      exact hmark h₂ f (hsk₀.trans (hsk₁.quiet hq₂)) hpre
    · intro h₂ t hq₂ hdr
      exact hrecv h₂ t (hsk₀.trans (hsk₁.quiet hq₂)) hdr
    · intro h₂ fb₂ hsk₂ hadv
      have hlt := hadv.lt
      exact ⟨hsk₁.trans hsk₂, hadv.synced, by omega, by omega⟩
    · intro h₂ payload fb₂ hq₂ hadv
      have hlt := hadv.lt
      exact hfound h₂ payload fb₂ (hsk₀.trans (hsk₁.quiet hq₂)) ⟨hadv.synced, by omega⟩
    · intro h₂ now hq₂ hexp
      exact hlate _ ⟨t₀, now, h₂, hsk₁.quiet hq₂, rfl, hexp⟩
    · intro h₂ hsk₂ hf
      exact hnomem h₂ (hsk₀.trans (hsk₁.trans hsk₂)) hf
  · have hw₀ := weight_quiet hq₀
    have hle := hs.length_le
    exact ⟨Extends.refl _, hs.quiet hq₀, by omega, by omega⟩

/-- A frame that fits is passed to the write, and a failing write is the error returned. -/
theorem wp_sendFrame {frameType : UInt8} {payload : Bytes} {Q : Unit → Hist → Prop}
    (hfit : outerOverhead + payload.length ≤ 600)
    (hpre : C.pre h (.bleWrite (frameBytes frameType payload)))
    (hok : C.env h (.bleWrite (frameBytes frameType payload)) .ok →
      Q () (h ++ [⟨.bleWrite (frameBytes frameType payload), .ok⟩]))
    (herr : ∀ err : EspErr, err ≠ .ok → C.env h (.bleWrite (frameBytes frameType payload)) err →
      R err (h ++ [⟨.bleWrite (frameBytes frameType payload), err⟩])) :
    wp C (sendFrame frameType payload) Q R h := by
  unfold sendFrame
  rw [outerBuild_eq_some (by rw [sizeT_of_lt (by omega)]; exact hfit)]
  refine wp_do.mpr ⟨hpre, fun err hans => ?_⟩
  by_cases he : err = .ok
  · subst he
    exact hok hans
  · show wp C (if err = .ok then pure () else Prog.throw err) Q R _
    rw [if_neg he]
    exact herr err he hans

/-- The frame that carries an encrypted packet. -/
def packetFrame (c : Crypto) (s : Session) (src dst cmdSet cmdId : UInt8) (payload : Bytes) :
    Bytes :=
  frameBytes frameData (sealed c s (innerBytes src dst cmdSet cmdId payload))

theorem wp_sendInnerEncrypted {c : Crypto} {s : Session} {src dst cmdSet cmdId : UInt8}
    {payload : Bytes} {Q : Unit → Hist → Prop} (hperm : Permits C) (hfit : payload.length ≤ 282)
    (hpre : ∀ h', Quiet h h' →
      C.pre h' (.bleWrite (packetFrame c s src dst cmdSet cmdId payload)))
    (hok : ∀ h', Quiet h h' →
      C.env h' (.bleWrite (packetFrame c s src dst cmdSet cmdId payload)) .ok →
        Q () (h' ++ [⟨.bleWrite (packetFrame c s src dst cmdSet cmdId payload), .ok⟩]))
    (herr : ∀ (err : EspErr) h', Quiet h h' → err ≠ .ok →
      C.env h' (.bleWrite (packetFrame c s src dst cmdSet cmdId payload)) err →
        R err (h' ++ [⟨.bleWrite (packetFrame c s src dst cmdSet cmdId payload), err⟩]))
    (hfail : ∀ h', Quiet h h' → PsaFault h' → R .fail h') :
    wp C (sendInnerEncrypted c s src dst cmdSet cmdId payload) Q R h := by
  have hlen := innerBytes_length src dst cmdSet cmdId payload
  have hover : innerOverhead = 18 := rfl
  unfold sendInnerEncrypted
  rw [innerBuild_eq_some (by rw [sizeT_of_lt (by omega)]; omega)]
  refine wp_do.mpr (wp_aesCbcEncryptPkcs7 hperm (by omega) (fun h' hq => ?_) hfail)
  refine wp_sendFrame ?_ (hpre h' hq) (hok h' hq) (fun err he => herr err h' hq he)
  rw [sealed_length]
  unfold outerOverhead
  omega

end Specs

end River2
