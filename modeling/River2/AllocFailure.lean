import River2.Extraction

/-!
# Allocation failures lose nothing

An extraction that fails for lack of memory has dropped only bytes before a complete frame, which
then stands at the head of the buffer (`extractLoop_failed`). There it stays whatever is appended
(`AtHead`), until an extraction returns it. `settled` drops the failed calls from a schedule:
`calls_settled` says that the frames returned are the same.
-/

namespace River2

/-! ## One failed call -/

/-- A complete frame stands at the head of the bytes. -/
def AtHead (d : Bytes) (f : Frame) : Prop := frameLook d = .emit f (8 + f.payload.length)

theorem AtHead.append {d : Bytes} {f : Frame} (h : AtHead d f) (y : Bytes) : AtHead (d ++ y) f :=
  frameScanner.emit_append y h

theorem AtHead.isFrame {d : Bytes} {f : Frame} (h : AtHead d f) :
    IsFrame (d.take (8 + f.payload.length)) f := by
  obtain ⟨i, hp, hi, hlook⟩ := frameLook_emit h
  obtain rfl : i = 0 := by omega
  obtain ⟨rest, hrest⟩ := findPrefix_drop hp
  rw [List.drop_zero] at hrest hlook
  exact (isFrame_of_headLook (by rw [hrest]; rfl) hlook).2

theorem atHead_of_emit {b : Bytes} {f : Frame} {n : ℕ} (h : frameLook b = .emit f n) :
    AtHead (b.drop (n - (8 + f.payload.length))) f ∧
      ∀ y, frameScanner.next (b ++ y) =
        frameScanner.next (b.drop (n - (8 + f.payload.length)) ++ y) := by
  obtain ⟨i, hp, rfl, hlook⟩ := frameLook_emit h
  obtain ⟨rest, hrest⟩ := findPrefix_drop hp
  have h0 : findPrefix (b.drop i) = some 0 := by
    rw [hrest]
    exact findPrefix_head _
  rw [Nat.add_sub_cancel]
  constructor
  · unfold AtHead
    rw [frameLook_some h0, List.drop_zero, hlook, Verdict.shift_zero]
  · intro y
    obtain ⟨hdrop, hshift⟩ := frameLook_drop_garbage hp y
    rw [frameScanner.next_of_look_shift hshift, hdrop]

/-- **A failed call.** An extraction does what it does with memory, or fails where that one returns
a frame: then it has dropped what stands before the frame, and nothing else has changed. -/
theorem extractLoop_failed (allocOk : Bool) (fuel : ℕ) (fb : Framebuf) :
    extractLoop allocOk fuel fb = extractLoop true fuel fb ∨
      ∃ k f fb', extractLoop allocOk fuel fb = (none, framebufConsume fb k) ∧
        extractLoop true fuel fb = (some f, fb') ∧
        fb'.data = fb.data.drop (k + (8 + f.payload.length)) ∧ AtHead (fb.data.drop k) f ∧
        ∀ y, frameScanner.next (fb.data ++ y) = frameScanner.next (fb.data.drop k ++ y) := by
  induction fuel generalizing fb with
  | zero => exact Or.inl rfl
  | succ fuel ih =>
    rw [extractLoop_succ, extractLoop_succ]
    cases hv : frameLook fb.data with
    | wait n => exact Or.inl rfl
    | skip n =>
      obtain heq | ⟨k, f, fb', hfail, hok, hdata, hhead, hnext⟩ := ih (framebufConsume fb n)
      · exact Or.inl heq
      · rw [framebufConsume_data, List.drop_drop] at hdata hhead
        refine Or.inr ⟨n + k, f, fb', hfail.trans ?_, hok, ?_, hhead, fun y => ?_⟩
        · rw [framebufConsume_consume]
        · rw [hdata, Nat.add_assoc]
        · have hpos := frameScanner.skip_pos hv
          rw [frameScanner.next_skip (frameScanner.skip_append y hv),
            List.drop_append_of_le_length hpos.2]
          have h := hnext y
          rwa [framebufConsume_data, List.drop_drop] at h
    | emit f n =>
      dsimp only
      rw [if_neg (show ¬ (f.payload.length > fb.scratchCap ∧ ¬ true = true) from fun h => h.2 rfl)]
      split_ifs with hfail
      · obtain ⟨hhead, hnext⟩ := atHead_of_emit hv
        have hle : 8 + f.payload.length ≤ n := by
          obtain ⟨i, -, rfl, -⟩ := frameLook_emit hv
          exact Nat.le_add_left _ _
        refine Or.inr ⟨_, f, _, rfl, rfl, ?_, hhead, hnext⟩
        rw [framebufConsume_data, framebufStash_data, Nat.sub_add_cancel hle]
      · exact Or.inl rfl

theorem framebufExtract_failed (allocOk : Bool) (fb : Framebuf) :
    framebufExtract allocOk fb = framebufExtract true fb ∨
      ∃ k f fb', framebufExtract allocOk fb = (none, framebufConsume fb k) ∧
        framebufExtract true fb = (some f, fb') ∧
        fb'.data = fb.data.drop (k + (8 + f.payload.length)) ∧ AtHead (fb.data.drop k) f ∧
        ∀ y, frameScanner.next (fb.data ++ y) = frameScanner.next (fb.data.drop k ++ y) :=
  extractLoop_failed allocOk _ fb

/-- With a frame at the head, an extraction returns it, or fails and changes nothing. -/
theorem AtHead.extract {fb : Framebuf} {f : Frame} (h : AtHead fb.data f) (allocOk : Bool) :
    framebufExtract allocOk fb =
      if f.payload.length > fb.scratchCap ∧ ¬ allocOk then (none, fb)
      else (some f, framebufConsume (framebufStash fb f.payload) (8 + f.payload.length)) := by
  unfold framebufExtract
  rw [extractLoop_succ, h]
  dsimp only
  rw [Nat.sub_self, framebufConsume_zero]

theorem AtHead.calls {f : Frame} (calls : List FramebufCall) {fb : Framebuf}
    (h : AtHead fb.data f) (hnone : (framebufCalls calls fb).returned = []) :
    AtHead (framebufCalls calls fb).left.data f := by
  induction calls generalizing fb with
  | nil => exact h
  | cons call calls ih =>
    cases call with
    | append allocOk chunk =>
      obtain hfail | ⟨fb', hok, hdata⟩ := framebufAppend_cases allocOk fb chunk
      · rw [framebufCalls_failed calls hfail] at hnone ⊢
        exact ih h hnone
      · rw [framebufCalls_appended calls hok] at hnone ⊢
        refine ih ?_ hnone
        rw [hdata]
        exact h.append chunk
    | extract allocOk =>
      unfold framebufCalls at hnone ⊢
      rw [h.extract allocOk] at hnone ⊢
      split_ifs at hnone ⊢ with hfail
      · exact ih h hnone
      · exact absurd hnone (List.cons_ne_nil _ _)

/-! ## Schedules -/

/-- The extraction fails for lack of memory. -/
def outOfMemory (allocOk : Bool) (fb : Framebuf) : Bool :=
  (framebufExtract allocOk fb).1.isNone && (framebufExtract true fb).1.isSome

/-- The schedule without the calls that failed for lack of memory, and with memory for the
others. -/
def settled : List FramebufCall → Framebuf → List FramebufCall
  | [], _ => []
  | .append allocOk chunk :: calls, fb =>
    let (ok, fb) := framebufAppend allocOk fb chunk
    if ok then .append true chunk :: settled calls fb else settled calls fb
  | .extract allocOk :: calls, fb =>
    if outOfMemory allocOk fb then settled calls (framebufExtract allocOk fb).2
    else .extract true :: settled calls (framebufExtract allocOk fb).2

/-- The call has the memory it may need. -/
def FramebufCall.hasMemory : FramebufCall → Bool
  | .append allocOk _ => allocOk
  | .extract allocOk => allocOk

theorem settled_hasMemory (calls : List FramebufCall) (fb : Framebuf) :
    ∀ call ∈ settled calls fb, call.hasMemory = true := by
  induction calls generalizing fb with
  | nil => exact fun call hcall => absurd hcall List.not_mem_nil
  | cons call calls ih =>
    cases call with
    | append allocOk chunk =>
      unfold settled
      dsimp only
      split_ifs
      · exact List.forall_mem_cons.mpr ⟨rfl, ih _⟩
      · exact ih _
    | extract allocOk =>
      unfold settled
      split_ifs
      · exact ih _
      · exact List.forall_mem_cons.mpr ⟨rfl, ih _⟩

/-- Whatever is appended, the two buffers give the same frame and the same rest. -/
def SameNext (b b' : Bytes) : Prop := ∀ y, frameScanner.next (b ++ y) = frameScanner.next (b' ++ y)

theorem SameNext.append {b b' : Bytes} (h : SameNext b b') (c : Bytes) :
    SameNext (b ++ c) (b' ++ c) := by
  intro y
  rw [List.append_assoc, List.append_assoc]
  exact h (c ++ y)

theorem SameNext.extract {fb fb' : Framebuf} (h : SameNext fb.data fb'.data) :
    (framebufExtract true fb).1 = (framebufExtract true fb').1 ∧
      (framebufExtract true fb).2.data = (framebufExtract true fb').2.data := by
  have hnil := h []
  rw [List.append_nil, List.append_nil] at hnil
  obtain ⟨h1, h2⟩ := framebufExtract_eq_next fb
  obtain ⟨h1', h2'⟩ := framebufExtract_eq_next fb'
  rw [h1, h2, h1', h2', hnil]
  exact ⟨rfl, rfl⟩

/-- **Run lemma.** A schedule and its settled one, run on buffers that give the same frames, append
the same bytes and return the same frames. -/
theorem calls_settled (calls : List FramebufCall) {fb fb' : Framebuf}
    (h : SameNext fb.data fb'.data) :
    (framebufCalls (settled calls fb) fb').returned = (framebufCalls calls fb).returned ∧
      (framebufCalls (settled calls fb) fb').appended = (framebufCalls calls fb).appended := by
  induction calls generalizing fb fb' with
  | nil => exact ⟨rfl, rfl⟩
  | cons call calls ih =>
    cases call with
    | append allocOk chunk =>
      unfold settled
      obtain hfail | ⟨fb₁, hok, hdata⟩ := framebufAppend_cases allocOk fb chunk
      · rw [framebufCalls_failed calls hfail, hfail]
        exact ih h
      · have hok' := framebufAppend_eq_true fb' chunk
        have hdata' := framebufAppend_data (framebufAppend_true fb' chunk)
        have hsame : SameNext fb₁.data (framebufAppend true fb' chunk).2.data := by
          rw [hdata, hdata']
          exact h.append chunk
        obtain ⟨hret, happ⟩ := ih hsame
        rw [framebufCalls_appended calls hok, hok]
        dsimp only
        rw [if_pos rfl, framebufCalls_appended _ hok']
        exact ⟨hret, congrArg (chunk ++ ·) happ⟩
    | extract allocOk =>
      unfold settled
      rw [framebufCalls]
      obtain heq | ⟨k, f, fb₁, hfail, hok, -, -, hnext⟩ := framebufExtract_failed allocOk fb
      · have hmem : outOfMemory allocOk fb = false := by
          unfold outOfMemory
          rw [heq]
          cases (framebufExtract true fb).1 <;> rfl
        obtain ⟨hfst, hdata⟩ := h.extract
        have hsame :
            SameNext (framebufExtract true fb).2.data (framebufExtract true fb').2.data := by
          rw [hdata]
          exact fun _ => rfl
        obtain ⟨hret, happ⟩ := ih hsame
        rw [hmem, if_neg Bool.false_ne_true, heq, framebufCalls]
        exact ⟨congrArg₂ (fun (o : Option Frame) l => o.toList ++ l) hfst.symm hret, happ⟩
      · have hmem : outOfMemory allocOk fb = true := by
          unfold outOfMemory
          rw [hfail, hok]
          rfl
        rw [hmem, if_pos rfl, hfail]
        exact ih fun y => (hnext y).symm.trans (h y)

theorem reads_framebufCalls (calls : List FramebufCall) (fb : Framebuf) :
    frameScanner.Reads (fb.data ++ (framebufCalls calls fb).appended)
      (framebufCalls calls fb).returned (framebufCalls calls fb).left.data := by
  induction calls generalizing fb with
  | nil =>
    show frameScanner.Reads (fb.data ++ []) [] fb.data
    rw [List.append_nil]
    exact Scanner.reads_refl _
  | cons call calls ih =>
    cases call with
    | append allocOk chunk =>
      obtain hfail | ⟨fb', hok, hdata⟩ := framebufAppend_cases allocOk fb chunk
      · rw [framebufCalls_failed calls hfail]
        exact ih fb
      · have hrec := ih fb'
        rw [hdata, List.append_assoc] at hrec
        rw [framebufCalls_appended calls hok]
        exact hrec
    | extract allocOk =>
      unfold framebufCalls
      exact ((reads_framebufExtract allocOk fb).feed _).trans (ih _)

/-- **Allocation failures lose nothing.** A failed append changes nothing. An extraction that fails
for lack of memory has dropped what the successful one drops before the frame, keeps the frame at
the head, and the next extraction that returns a frame returns this one. A run with failures returns
the frames of the run without its failed calls, and once nothing is left to extract these are the
frames of all bytes appended. -/
theorem alloc_failure_loses_nothing :
    (∀ allocOk fb chunk fb', framebufAppend allocOk fb chunk = (false, fb') → fb' = fb) ∧
    (∀ fb fb₁ f fb₂, framebufExtract false fb = (none, fb₁) →
      framebufExtract true fb = (some f, fb₂) →
      ∃ k, fb₁ = framebufConsume fb k ∧ fb₂.data = fb.data.drop (k + (8 + f.payload.length)) ∧
        IsFrame (fb₁.data.take (8 + f.payload.length)) f ∧
        ∀ calls, (framebufCalls calls fb₁).returned = [] →
          (framebufExtract true (framebufCalls calls fb₁).left).1 = some f ∧
          ∀ allocOk g, (framebufExtract allocOk (framebufCalls calls fb₁).left).1 = some g →
            g = f) ∧
    (∀ calls fb, (∀ call ∈ settled calls fb, call.hasMemory = true) ∧
      (framebufCalls calls fb).returned = (framebufCalls (settled calls fb) fb).returned ∧
      (framebufCalls calls fb).appended = (framebufCalls (settled calls fb) fb).appended) ∧
    (∀ calls fb, (framebufExtract true (framebufCalls calls fb).left).1 = none →
      (framebufCalls calls fb).returned =
        framesOf (fb.data ++ (framebufCalls calls fb).appended)) := by
  refine ⟨fun _ _ _ _ => framebufAppend_failed, ?_, ?_, ?_⟩
  · intro fb fb₁ f fb₂ hnone hsome
    obtain heq | ⟨k, g, fb', hfail, hok, hdata, hhead, -⟩ := framebufExtract_failed false fb
    · rw [hnone, hsome] at heq
      cases heq
    rw [hsome] at hok
    cases hok
    rw [hnone] at hfail
    cases hfail
    refine ⟨k, rfl, hdata, hhead.isFrame, fun calls hret => ?_⟩
    have hleft := @AtHead.calls _ calls (framebufConsume fb k) hhead hret
    constructor
    · rw [hleft.extract true, if_neg (fun h => h.2 rfl)]
    · intro allocOk g hg
      rw [hleft.extract allocOk] at hg
      split_ifs at hg
      exact (Option.some.inj hg).symm
  · intro calls fb
    obtain ⟨hret, happ⟩ := @calls_settled calls fb fb fun _ => rfl
    exact ⟨settled_hasMemory calls fb, hret.symm, happ.symm⟩
  · intro calls fb hend
    have hitems := (reads_framebufCalls calls fb).items_eq
    have hnext := (framebufExtract_eq_next (framebufCalls calls fb).left).1
    rw [hend, frameScanner.next_fst_eq_head?, eq_comm, List.head?_eq_none_iff] at hnext
    unfold framesOf
    rw [hitems, hnext, List.append_nil]

/-- A frame behind a byte of garbage, extracted without and then with memory. -/
theorem alloc_failure_loses_nothing_retry :
    let fb : Framebuf := ⟨0x00 :: frameBytes frameData [0x42], 10, [], 0⟩
    ∃ k, framebufConsume fb 1 = framebufConsume fb k ∧
      (framebufExtract true (framebufCalls [.extract false] (framebufConsume fb 1)).left).1 =
        some ⟨1, [0x42]⟩ := by
  intro fb
  obtain ⟨k, hk, -, -, hcalls⟩ := alloc_failure_loses_nothing.2.1 fb (framebufConsume fb 1)
    ⟨1, [0x42]⟩ ⟨[], 10, [0x42], 1⟩ (by decide +kernel) (by decide +kernel)
  exact ⟨k, hk, (hcalls [.extract false] (by decide +kernel)).1⟩

end River2
