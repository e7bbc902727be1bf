import River2.Link
import River2.Recording

/-!
# Frames by type (`wait_for_frame`)

1. `waitFrames` calls `wait_for_frame` again and again on one buffer; `select` says what the calls
   take from a sequence of frames.
2. `timelyEnv` delivers given notifications and lets no call fail and no deadline pass.
3. `wp_waitFrames`: after every call the frames extracted are those selected and those skipped
   before them. `wait_selects_by_type`: so the calls take what `select` takes from the frames of the
   whole stream.
-/

namespace River2

open Prog

/-! ## The code -/

/-- Calls of `wait_for_frame`, each with the type it wants and its timeout, one after another on one
buffer: the payloads returned, and the buffer left. -/
def waitFrames (fuel : ℕ) : List (UInt8 × ℕ) → Framebuf → Fw (List Bytes × Framebuf)
  | [], fb => return ([], fb)
  | (want, timeoutMs) :: calls, fb => do
    let (payload, fb) ← waitForFrame fuel fb want timeoutMs
    let (payloads, fb) ← waitFrames fuel calls fb
    return (payload :: payloads, fb)

/-! ## What it selects -/

/-- For every type wanted, the payload of the first frame of this type behind the one taken before;
and the frames behind the last one taken. -/
def select : List UInt8 → List Frame → Option (List Bytes × List Frame)
  | [], fs => some ([], fs)
  | want :: wants, fs =>
    match fs.dropWhile fun f => f.frameType ≠ want with
    | [] => none
    | f :: rest => (select wants rest).map fun r => (f.payload :: r.1, r.2)

section Select

variable {want : UInt8} {wants more : List UInt8} {fs gs rest skipped : List Frame}
  {payloads : List Bytes}

theorem select_cons (h : select (want :: wants) fs = some (payloads, rest)) :
    ∃ f fs' payloads', fs.dropWhile (fun f => f.frameType ≠ want) = f :: fs' ∧
      select wants fs' = some (payloads', rest) ∧ payloads = f.payload :: payloads' := by
  rw [select] at h
  cases hd : fs.dropWhile fun f => f.frameType ≠ want with
  | nil =>
    rw [hd] at h
    cases h
  | cons f fs' =>
    rw [hd] at h
    obtain ⟨⟨payloads', rest'⟩, hsel, heq⟩ := Option.map_eq_some_iff.mp h
    cases heq
    exact ⟨f, fs', payloads', rfl, hsel, rfl⟩

theorem select_append (h : select wants fs = some (payloads, rest)) (gs : List Frame) :
    select wants (fs ++ gs) = some (payloads, rest ++ gs) := by
  induction wants generalizing fs payloads with
  | nil =>
    cases h
    rfl
  | cons want wants ih =>
    obtain ⟨f, fs', payloads', hdrop, hsel, rfl⟩ := select_cons h
    rw [select, List.dropWhile_append, hdrop]
    show (select wants (fs' ++ gs)).map _ = _
    rw [ih hsel]
    rfl

/-- The later types are wanted of the frames the earlier ones leave. -/
theorem select_seq (h : select wants fs = some (payloads, rest)) (more : List UInt8) :
    select (wants ++ more) fs = (select more rest).map fun r => (payloads ++ r.1, r.2) := by
  induction wants generalizing fs payloads with
  | nil =>
    cases h
    exact Option.map_id'.symm
  | cons want wants ih =>
    obtain ⟨f, fs', payloads', hdrop, hsel, rfl⟩ := select_cons h
    rw [List.cons_append, select, hdrop]
    dsimp only
    rw [ih hsel, Option.map_map]
    rfl

variable (h : select wants fs = some (payloads, []))
  (hskip : ∀ f ∈ skipped, f.frameType ≠ want)

include h hskip

theorem select_found (payload : Bytes) :
    select (wants ++ [want]) (fs ++ skipped ++ [⟨want, payload⟩]) =
      some (payloads ++ [payload], []) := by
  have hdrop : (skipped ++ [(⟨want, payload⟩ : Frame)]).dropWhile (fun f => f.frameType ≠ want) =
      [⟨want, payload⟩] := by
    rw [List.dropWhile_append_of_pos fun f hf => decide_eq_true (hskip f hf)]
    exact List.dropWhile_cons_of_neg fun hne => of_decide_eq_true hne rfl
  rw [List.append_assoc, select_seq (select_append h _), List.nil_append]
  unfold select
  rw [hdrop]
  rfl

/-- Frames of other types do not end a call. -/
theorem select_waiting (more : List UInt8) :
    select (wants ++ want :: more) (fs ++ skipped) = none := by
  have hdrop : skipped.dropWhile (fun f => f.frameType ≠ want) = [] :=
    List.dropWhile_eq_nil_iff.mpr fun f hf => decide_eq_true (hskip f hf)
  rw [select_seq (select_append h _), List.nil_append]
  unfold select
  rw [hdrop]
  rfl

end Select

/-! ## The environment -/

/-- The deadline of one of the calls has passed; the calls began after `h`. -/
def Overdue : List (UInt8 × ℕ) → Hist → Hist → Prop
  | [], _, _ => False
  | (want, timeoutMs) :: calls, h, h' => Overran want timeoutMs h h' ∨
      ∃ h₁ payload, Skips want h h₁ ∧
        Overdue calls (h₁ ++ [⟨.extracted ⟨want, payload⟩, ()⟩]) h'

/-- No call fails, no deadline of the calls passes, and a wait is answered by the next of the
notifications or goes on. -/
def timelyEnv (ns : List Bytes) (calls : List (UInt8 × ℕ)) : Env Answer
  | h, .getTime, t => ¬ Overdue calls [] (h ++ [⟨.getTime, t⟩])
  | h, .queueReceive _, answer => answer = none ∨ answer = ns[(notifications h).length]?
  | _, e, a => ¬ Failed ⟨e, a⟩

theorem fed_timely {ns : List Bytes} {calls : List (UInt8 × ℕ)} : FedBy ns (timelyEnv ns calls) :=
  fun _ _ _ hans => hans

/-- A deadline is seen to have passed at the end of the history, and by a later time. -/
theorem overdue_getTime {calls : List (UInt8 × ℕ)} {h h' : Hist} (hx : Overdue calls h h') :
    ∃ h₁ t₀ now, h' = h₁ ++ [⟨.getTime, now⟩] ∧ ⟨.getTime, t₀⟩ ∈ h₁ ∧ t₀ ≤ now := by
  induction calls generalizing h with
  | nil => exact hx.elim
  | cons call calls ih =>
    obtain ⟨want, timeoutMs⟩ := call
    obtain ⟨t₀, now, h₁, ⟨es, rfl, -⟩, rfl, hle⟩ | ⟨h₁, payload, -, hrest⟩ := hx
    · have hmem : ⟨.getTime, t₀⟩ ∈ h ++ [⟨.getTime, t₀⟩] ++ es :=
        List.mem_append_left _ (List.mem_append_right _ (List.mem_singleton_self _))
      have hlater : t₀ ≤ now := by omega
      exact ⟨_, t₀, now, rfl, hmem, hlater⟩
    · exact ih hrest

section Timely

variable {ns : List Bytes} {calls : List (UInt8 × ℕ)} {h : Hist}
  (hlog : Logged (freeContract (timelyEnv ns calls)) h)

include hlog

theorem not_overdue : ¬ Overdue calls [] h := by
  intro hx
  obtain ⟨h₁, t₀, now, rfl, -, -⟩ := overdue_getTime hx
  exact (hlog h₁ _ [] rfl).2 hx

theorem not_fault_timely : ¬ Fault h := by
  rintro ⟨⟨e, a⟩, hmem, hfail⟩
  obtain ⟨h₁, h₂, rfl⟩ := List.append_of_mem hmem
  have ha : timelyEnv ns calls h₁ e a := (hlog h₁ _ h₂ rfl).2
  cases e with
  | getTime => exact hfail
  | queueReceive t => exact hfail
  | _ => exact ha hfail

theorem exists_unread {s : Bytes} (hcut : Cut ns s) : ∃ unread, received h ++ unread = s := by
  obtain ⟨later, rfl⟩ := notifications_isPrefix fed_timely hlog
  refine ⟨later.flatMap (List.take notifyChunkMax), ?_⟩
  unfold received
  rw [← List.flatMap_append, flatMap_take_chunk hcut.1]
  exact hcut.2

end Timely

/-! ## Runs -/

/-- A wait for more bytes begins when all frames received are extracted and one is still wanted. -/
def selectContract (fuel : ℕ) (ns : List Bytes) (calls : List (UInt8 × ℕ)) :
    Contract Call Answer where
  env := timelyEnv ns calls
  pre := fun h e =>
    match e with
    | .queueReceive _ => (Drained h ∨ Fault h) ∧ select (calls.map Prod.fst) (extracted h) = none
    | _ => True
  out := fun h => fuel ≤ weight h

theorem permits_select {fuel : ℕ} {ns : List Bytes} {calls : List (UInt8 × ℕ)} :
    Permits (selectContract fuel ns calls) := by
  rintro h (_ | _ | _) he <;> trivial

theorem extracted_skips {want : UInt8} {h h' : Hist} (hsk : Skips want h h') :
    ∃ skipped, extracted h' = extracted h ++ skipped ∧ ∀ f ∈ skipped, f.frameType ≠ want := by
  obtain ⟨es, rfl, hes⟩ := hsk
  refine ⟨extracted es, extracted_append h es, fun f hf => ?_⟩
  obtain ⟨⟨e, a⟩, hev, hmem⟩ := List.mem_flatMap.mp hf
  have hskip := hes _ hev
  cases e with
  | extracted g =>
    cases List.mem_singleton.mp hmem
    exact hskip
  | _ => exact absurd hmem List.not_mem_nil

section Runs

variable {fuel : ℕ} {ns : List Bytes} {all : List (UInt8 × ℕ)}

/-- **Calls in sequence.** When the calls before have taken what `select` takes of the frames
extracted, so have the calls after them. -/
theorem wp_waitFrames {done : List UInt8} {calls : List (UInt8 × ℕ)} {h : Hist} {fb : Framebuf}
    {payloads : List Bytes} (hall : all.map Prod.fst = done ++ calls.map Prod.fst)
    (hs : Synced h fb) (hsel : select done (extracted h) = some (payloads, []))
    (hdue : ∀ h', Overdue calls h h' → Overdue all [] h') :
    wp (selectContract fuel ns all) (waitFrames fuel calls fb)
      (fun r h' => Synced h' r.2 ∧
        select (all.map Prod.fst) (extracted h') = some (payloads ++ r.1, []))
      (fun _ h' => Overdue all [] h' ∨ Fault h') h := by
  induction calls generalizing done payloads h fb with
  | nil =>
    rw [List.map_nil, List.append_nil] at hall
    refine ⟨hs, ?_⟩
    rw [hall, List.append_nil]
    exact hsel
  | cons call calls ih =>
    obtain ⟨want, timeoutMs⟩ := call
    refine wp_do.mpr (wp_waitForFrame permits_select hs ?_ ?_ ?_ ?_ ?_ ?_)
    · intro _ _ _ _
      trivial
    · exact fun _ hfuel => hfuel
    · intro h₁ t hsk hdr
      obtain ⟨skipped, hext, hskip⟩ := extracted_skips hsk
      refine ⟨hdr, ?_⟩
      rw [hall, hext]
      exact select_waiting hsel hskip _
    · intro h₁ payload fb₁ hsk hadv
      obtain ⟨skipped, hext, hskip⟩ := extracted_skips hsk
      have hfound := select_found hsel hskip payload
      rw [← hext] at hfound
      have hall' : all.map Prod.fst = done ++ [want] ++ calls.map Prod.fst := by
        rw [hall, List.append_assoc]
        rfl
      have hrest := ih hall' hadv.synced (by rw [extracted_append]; exact hfound)
        fun h' hx => hdue h' (.inr ⟨h₁, payload, hsk, hx⟩)
      refine wp_do.mpr (wp_mono hrest ?_ fun _ _ => id)
      rintro ⟨later, fb₂⟩ h₂ ⟨hs₂, hsel₂⟩
      refine ⟨hs₂, ?_⟩
      rw [hsel₂, List.append_assoc]
      rfl
    · exact fun h' hlate => .inl (hdue h' (.inl hlate))
    · exact fun h' _ hf => .inr hf

theorem wp_waitFrames_init : wp (selectContract fuel ns all) (waitFrames fuel all framebufInit)
    (fun r h => Synced h r.2 ∧ select (all.map Prod.fst) (extracted h) = some (r.1, []))
    (fun _ h => Overdue all [] h ∨ Fault h) [] :=
  @wp_waitFrames fuel ns all [] all [] framebufInit [] rfl synced_init rfl fun _ => id

end Runs

/-! ## Runs that are kept going -/

/-- As `timelyEnv`, and while there are notifications every wait is answered by one. -/
def suppliedEnv (ns : List Bytes) (calls : List (UInt8 × ℕ)) : Env Answer := fun h e a =>
  timelyEnv ns calls h e a ∧
    match e, a with
    | .queueReceive _, answer => answer ≠ none
    | _, _ => True

theorem supplied_ended {ns : List Bytes} {calls : List (UInt8 × ℕ)} {h : Hist}
    (hlog : Logged (freeContract (timelyEnv ns calls)) h) {e : Call}
    (hstuck : ∀ a, ¬ suppliedEnv ns calls h e a) :
    (∃ t, e = .queueReceive t) ∧ notifications h = ns := by
  cases e with
  | queueReceive t =>
    refine ⟨⟨t, rfl⟩, (notifications_isPrefix fed_timely hlog).eq_of_length_le ?_⟩
    rw [← List.getElem?_eq_none_iff]
    cases hnext : ns[(notifications h).length]? with
    | none => rfl
    | some data => exact absurd ⟨.inr hnext.symm, nofun⟩ (hstuck (some data))
  | getTime =>
    obtain ⟨t, ht⟩ := exists_earlier h
    refine absurd ⟨fun hx => ?_, trivial⟩ (hstuck t)
    obtain ⟨h₁, t₀, now, heq, hmem, hle⟩ := overdue_getTime hx
    obtain ⟨rfl, hev⟩ := List.append_inj' heq rfl
    cases hev
    exact absurd (ht t₀ hmem) (not_lt.mpr hle)
  | _ =>
    obtain ⟨a, ha⟩ := exists_not_failed _
    exact absurd ⟨ha, trivial⟩ (hstuck a)

/-! ## The result -/

section Result

variable {ns : List Bytes} {s : Bytes} {calls : List (UInt8 × ℕ)} {fuel : ℕ} {h : Hist}

/-- What calls that have returned have taken of the frames of the stream, and what they leave. -/
theorem selected_of_ret (hcut : Cut ns s) {payloads : List Bytes} {fb : Framebuf}
    (hr : Reach (timelyEnv ns calls) ([], waitFrames fuel calls framebufInit)
      (h, .ret (payloads, fb))) :
    ∃ unread, received h ++ unread = s ∧
      select (calls.map Prod.fst) (framesOf s) = some (payloads, framesOf (fb.data ++ unread)) := by
  obtain ⟨hs, hsel⟩ := wp_reach (C := selectContract fuel ns calls) wp_waitFrames_init hr
  obtain ⟨unread, hunread⟩ := exists_unread (logged_free hr) hcut
  have hitems := (hs.reads.feed unread).items_eq
  rw [hunread] at hitems
  refine ⟨unread, hunread, ?_⟩
  unfold framesOf
  rw [hitems, select_append hsel, List.nil_append]

/-- Calls that are kept waiting have seen all frames received, and miss one. -/
theorem missing_of_wait {t : ℕ} {k : Option Bytes → Fw (List Bytes × Framebuf)}
    (hr : Reach (timelyEnv ns calls) ([], waitFrames fuel calls framebufInit)
      (h, .call (.queueReceive t) k)) :
    framesOf (received h) = extracted h ∧
      select (calls.map Prod.fst) (framesOf (received h)) = none := by
  have hwp := wp_reach (C := selectContract fuel ns calls) wp_waitFrames_init hr
  obtain ⟨hdr, hsel⟩ := hwp.1
  have hd : Drained h := hdr.resolve_right (not_fault_timely (logged_free hr))
  refine ⟨hd, ?_⟩
  rw [hd]
  exact hsel

theorem drain_append_eq (fb : Framebuf) (x : Bytes) :
    (framebufDrain (framebufAppend true fb x).2).1 = framesOf (fb.data ++ x) := by
  rw [(framebufDrain_eq _).1, framebufAppend_data (framebufAppend_true fb x)]

theorem not_throw {err : EspErr} :
    ¬ Reach (timelyEnv ns calls) ([], waitFrames fuel calls framebufInit) (h, .throw err) := by
  intro hr
  have hlog := logged_free hr
  rcases wp_reach (C := selectContract fuel ns calls) wp_waitFrames_init hr with hx | hf
  · exact not_overdue hlog hx
  · exact not_fault_timely hlog hf

/-- The rounds of the model are used up only by as many waits and bytes. -/
theorem fuel_le_of_spin
    (hr : Reach (timelyEnv ns calls) ([], waitFrames fuel calls framebufInit) (h, .spin)) :
    fuel ≤ weight h :=
  wp_reach (C := selectContract fuel ns calls) wp_waitFrames_init hr

theorem weight_le_of_supplied (hcut : Cut ns s)
    (hlog : Logged (freeContract (suppliedEnv ns calls)) h) : weight h ≤ s.length + ns.length := by
  have hlog' : Logged (freeContract (timelyEnv ns calls)) h :=
    fun h₁ ev h₂ heq => ⟨trivial, (hlog h₁ ev h₂ heq).2.1⟩
  have hwaits := waits_prompt (fun _ _ _ hans => hans.2) hlog
  have hcount := (notifications_isPrefix fed_timely hlog').length_le
  obtain ⟨unread, rfl⟩ := exists_unread hlog' hcut
  unfold weight
  rw [List.length_append]
  omega

/-- If the stream has what is wanted and keeps coming, the calls return. -/
theorem ret_of_completes (hcut : Cut ns s) (hfuel : s.length + ns.length < fuel)
    (hsome : select (calls.map Prod.fst) (framesOf s) ≠ none) {q : Fw (List Bytes × Framebuf)}
    (hc : Completes (suppliedEnv ns calls) (waitFrames fuel calls framebufInit) h q) :
    ∃ r, q = .ret r := by
  obtain ⟨hr, hstuck⟩ := hc
  have hr' : Reach (timelyEnv ns calls) ([], waitFrames fuel calls framebufInit) (h, q) :=
    hr.mono fun _ _ _ hans => hans.1
  cases q with
  | ret r => exact ⟨r, rfl⟩
  | throw err => exact absurd hr' not_throw
  | spin =>
    have hle := weight_le_of_supplied hcut (logged_free hr)
    have hspin := fuel_le_of_spin hr'
    omega
  | call e k =>
    obtain ⟨⟨t, rfl⟩, hall⟩ := supplied_ended (logged_free hr') (hstuck e k rfl)
    obtain ⟨-, hmissing⟩ := missing_of_wait hr'
    have hrec : received h = s := by
      unfold received
      rw [hall, flatMap_take_chunk hcut.1, hcut.2]
    rw [hrec] at hmissing
    exact absurd hmissing hsome

end Result

/-- **Waiting selects by type.** Calls on one buffer that return have taken, each for its type, the
first frame behind the one taken before, of the frames that draining the whole stream returns; the
frames behind the last one taken are those that draining the buffer returns when the bytes still to
come are appended to it. No call ends with an error. A call waits for more bytes only when the
frames received so far do not have what is wanted. If the frames of the stream have it and the
notifications keep coming, the calls return. -/
theorem wait_selects_by_type {ns : List Bytes} {s : Bytes} (hcut : Cut ns s)
    (calls : List (UInt8 × ℕ)) (fuel : ℕ) :
    let wants := calls.map Prod.fst
    let p := waitFrames fuel calls framebufInit
    let frames := (framebufDrain (framebufAppend true framebufInit s).2).1
    (∀ h payloads fb, Reach (timelyEnv ns calls) ([], p) (h, .ret (payloads, fb)) →
      ∃ unread, received h ++ unread = s ∧ select wants frames =
        some (payloads, (framebufDrain (framebufAppend true fb unread).2).1)) ∧
    (∀ h err, ¬ Reach (timelyEnv ns calls) ([], p) (h, .throw err)) ∧
    (∀ h, Reach (timelyEnv ns calls) ([], p) (h, .spin) → fuel ≤ weight h) ∧
    (∀ h t k, Reach (timelyEnv ns calls) ([], p) (h, .call (.queueReceive t) k) →
      framesOf (received h) = extracted h ∧ select wants (framesOf (received h)) = none) ∧
    (s.length + ns.length < fuel → select wants frames ≠ none →
      ∀ h q, Completes (suppliedEnv ns calls) p h q → ∃ r, q = .ret r) := by
  intro wants p frames
  have hframes : frames = framesOf s := drain_append_eq framebufInit s
  rw [hframes]
  refine ⟨?_, ?_, ?_, ?_, ?_⟩
  · intro h payloads fb hr
    obtain ⟨unread, hunread, hsel⟩ := selected_of_ret hcut hr
    exact ⟨unread, hunread, by rw [drain_append_eq, hsel]⟩
  · exact fun h err => not_throw
  · exact fun h hr => fuel_le_of_spin hr
  · exact fun h t k hr => missing_of_wait hr
  · exact fun hfuel hsome h q hc => ret_of_completes hcut hfuel hsome hc

/-- Three frames in one notification: the command is taken past the first data frame, and the second
data frame after it. -/
theorem wait_selects_by_type_mixed :
    let s := frameBytes frameData [0x01] ++ frameBytes frameCommand [0x02] ++
      frameBytes frameData [0x03]
    let calls := [(frameCommand, stepTimeoutMs), (frameData, stepTimeoutMs)]
    ∀ h q, Completes (suppliedEnv [s] calls) (waitFrames 40 calls framebufInit) h q →
      ∃ fb, q = .ret ([[0x02], [0x03]], fb) := by
  intro s calls h q hc
  have hframes : framesOf s = [⟨1, [0x01]⟩, ⟨0, [0x02]⟩, ⟨1, [0x03]⟩] := by
    have hwire := drain_wire [⟨⟨frameData, [0x01]⟩, by decide, by decide⟩,
      ⟨⟨frameCommand, [0x02]⟩, by decide, by decide⟩, ⟨⟨frameData, [0x03]⟩, by decide, by decide⟩]
    exact congrArg Prod.fst hwire
  obtain ⟨hret, -, -, -, hends⟩ := @wait_selects_by_type [s] s
    ⟨by decide +kernel, List.flatten_singleton⟩ calls 40
  rw [drain_append_eq framebufInit s] at hret hends
  change framesOf s = _ at hframes
  obtain ⟨⟨payloads, fb⟩, rfl⟩ := hends (by decide +kernel)
    (by rw [framebufInit, List.nil_append, hframes]; decide) h q hc
  obtain ⟨unread, -, hsel⟩ := hret h payloads fb (hc.1.mono fun _ _ _ hans => hans.1)
  rw [framebufInit, List.nil_append, hframes] at hsel
  exact ⟨fb, by rw [← (Prod.mk.inj (Option.some.inj hsel)).1]⟩

end River2
