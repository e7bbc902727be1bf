import River2.Board

/-!
# Stale traffic in the last step

The handshake ends with the first packet of step 4 that is no auth reply with an error code. Frames
that the device sent too early, be they delivered, cut in two or in the air when the request is
written, are read in step 4 too.

1. `phase_frames`: once the request is written, the automaton only reads frames.
2. `StaleSuccess`: frames sent too early end the handshake with a success.
3. `result_fresh_iff`: exactly then `ESP_OK` rests on a packet that is older than the request.
-/

namespace River2

open Prog Board

variable (c : Crypto) (cfg : EcoflowConfig) (devSerial : Bytes)

/-! ## Step 4 on a list of frames -/

/-- A frame that step 4 skips: no data frame, or one that decrypts to no packet. -/
def PassedOver (session : Session) (f : Frame) : Prop :=
  f.frameType = frameData → ∃ plain, decrypted c session f.payload 256 = .ok plain ∧
    innerParse plain = none

/-- A data frame whose packet step 4 takes for a success. -/
def TakenForSuccess (session : Session) (f : Frame) : Prop :=
  f.frameType = frameData ∧ ∃ plain pkt, decrypted c session f.payload 256 = .ok plain ∧
    innerParse plain = some pkt ∧ authVerdict pkt = .ok

/-- Behind frames that step 4 skips there is one that it takes for a success. -/
def StaleSuccess (session : Session) (frames : List Frame) : Prop :=
  ∃ skipped f later, frames = skipped ++ f :: later ∧ (∀ g ∈ skipped, PassedOver c session g) ∧
    TakenForSuccess c session f

/-- The phases in which nothing is sent any more. -/
def Phase.final : Phase → Bool
  | .awaitResult _ | .accepted _ | .refused _ => true
  | _ => false

variable {c cfg devSerial}

theorem reads_accepted (session : Session) (frames : List Frame) :
    (Phase.accepted session).reads c cfg devSerial frames = .accepted session := by
  induction frames with
  | nil => rfl
  | cons f frames ih => exact ih

theorem reads_refused (err : EspErr) (frames : List Frame) :
    (Phase.refused err).reads c cfg devSerial frames = .refused err := by
  induction frames with
  | nil => rfl
  | cons f frames ih => exact ih

theorem PassedOver.not_taken {session : Session} {f : Frame} (h : PassedOver c session f) :
    ¬ TakenForSuccess c session f := by
  rintro ⟨hty, plain, pkt, hd, hp, -⟩
  obtain ⟨plain', hd', hnone⟩ := h hty
  rw [hd] at hd'
  cases hd'
  rw [hp] at hnone
  cases hnone

variable (c cfg devSerial) in
theorem frame_result (session : Session) (f : Frame) :
    (PassedOver c session f ∧
      (Phase.awaitResult session).frame c cfg devSerial f = .awaitResult session) ∨
    (TakenForSuccess c session f ∧
      (Phase.awaitResult session).frame c cfg devSerial f = .accepted session) ∨
    ((¬ PassedOver c session f ∧ ¬ TakenForSuccess c session f) ∧
      ∃ err, (Phase.awaitResult session).frame c cfg devSerial f = .refused err) := by
  obtain ⟨frameType, payload⟩ := f
  by_cases hty : frameType = frameData
  · subst hty
    rw [Phase.frame_awaitResult]
    cases hd : decrypted c session payload 256 with
    | error err =>
      refine .inr (.inr ⟨⟨?_, ?_⟩, err, rfl⟩)
      · intro hpass
        obtain ⟨plain, hplain, -⟩ := hpass rfl
        rw [hd] at hplain
        cases hplain
      · rintro ⟨-, plain, pkt, hplain, -⟩
        rw [hd] at hplain
        cases hplain
    | ok plain =>
      show _ ∧ resultPacket session plain = _ ∨ _ ∧ resultPacket session plain = _ ∨
        _ ∧ ∃ err, resultPacket session plain = _
      unfold resultPacket
      cases hp : innerParse plain with
      | none => exact .inl ⟨fun _ => ⟨plain, hd, hp⟩, rfl⟩
      | some pkt =>
        dsimp only
        by_cases hv : authVerdict pkt = .ok
        · rw [if_pos hv]
          exact .inr (.inl ⟨⟨rfl, plain, pkt, hd, hp, hv⟩, rfl⟩)
        · rw [if_neg hv]
          refine .inr (.inr ⟨⟨?_, ?_⟩, _, rfl⟩)
          · intro hpass
            obtain ⟨plain', hplain, hnone⟩ := hpass rfl
            rw [hd] at hplain
            cases hplain
            rw [hp] at hnone
            cases hnone
          · rintro ⟨-, plain', pkt', hplain, hsome, hv'⟩
            rw [hd] at hplain
            cases hplain
            rw [hp] at hsome
            cases hsome
            exact hv hv'
  · exact .inl ⟨fun h => absurd h hty, Phase.frame_of_ne rfl hty⟩

theorem staleSuccess_cons (session : Session) (f : Frame) (frames : List Frame) :
    StaleSuccess c session (f :: frames) ↔
      TakenForSuccess c session f ∨ PassedOver c session f ∧ StaleSuccess c session frames := by
  constructor
  · rintro ⟨skipped, g, later, heq, hskip, hg⟩
    cases skipped with
    | nil =>
      cases heq
      exact .inl hg
    | cons f' skipped =>
      obtain ⟨rfl, rfl⟩ := List.cons.inj heq
      exact .inr ⟨hskip _ (List.mem_cons_self ..),
        skipped, g, later, rfl, fun g' hg' => hskip g' (List.mem_cons_of_mem _ hg'), hg⟩
  · rintro (hf | ⟨hf, skipped, g, later, rfl, hskip, hg⟩)
    · exact ⟨[], f, frames, rfl, fun _ h => absurd h List.not_mem_nil, hf⟩
    · exact ⟨f :: skipped, g, later, rfl, List.forall_mem_cons.mpr ⟨hf, hskip⟩, hg⟩

/-- **Step 4 on frames** succeeds if and only if they hold a success behind skipped frames. -/
theorem reads_eq_accepted (session session' : Session) (frames : List Frame) :
    (Phase.awaitResult session).reads c cfg devSerial frames = .accepted session' ↔
      session = session' ∧ StaleSuccess c session frames := by
  induction frames with
  | nil =>
    constructor
    · intro h
      cases h
    · rintro ⟨-, skipped, f, later, heq, -⟩
      exact absurd heq (by simp)
  | cons f frames ih =>
    rw [reads_cons, staleSuccess_cons]
    rcases frame_result c cfg devSerial session f with
      ⟨hpass, hf⟩ | ⟨htaken, hf⟩ | ⟨⟨hpass, htaken⟩, err, hf⟩
    · rw [hf, ih]
      exact and_congr_right fun _ =>
        ⟨fun h => .inr ⟨hpass, h⟩, fun h => (h.resolve_left hpass.not_taken).2⟩
    · rw [hf, reads_accepted]
      constructor
      · intro h
        cases h
        exact ⟨rfl, .inl htaken⟩
      · rintro ⟨rfl, -⟩
        rfl
    · rw [hf, reads_refused]
      constructor
      · intro h
        cases h
      · rintro ⟨-, h | ⟨h, -⟩⟩
        · exact absurd h htaken
        · exact absurd h hpass

/-! ## The automaton behind the request -/

variable {fuel : ℕ}

variable (c cfg devSerial) in
theorem final_frame {ph : Phase} (hfin : ph.final = true) (f : Frame) :
    (ph.frame c cfg devSerial f).final = true := by
  cases ph with
  | awaitResult session =>
    rcases frame_result c cfg devSerial session f with
      ⟨-, hf⟩ | ⟨-, hf⟩ | ⟨-, err, hf⟩ <;> rw [hf] <;> rfl
  | accepted session => rfl
  | refused err => rfl
  | _ => cases hfin

variable (c cfg devSerial) in
theorem final_reads {ph : Phase} (hfin : ph.final = true) (frames : List Frame) :
    (ph.reads c cfg devSerial frames).final = true := by
  induction frames generalizing ph with
  | nil => exact hfin
  | cons f frames ih => exact ih (final_frame c cfg devSerial hfin f)

theorem due_final {ph : Phase} (hfin : ph.final = true) : ph.due c cfg devSerial = none := by
  cases ph <;> first | rfl | cases hfin

/-- Once the request is written, the automaton only reads frames, and each of them while it still
waits. -/
theorem phase_frames {h es : Hist} (hfin : (phase c cfg devSerial h).final = true)
    (hlog : Logged (handshakeContract c cfg devSerial fuel) (h ++ es)) :
    phase c cfg devSerial (h ++ es) =
        (phase c cfg devSerial h).reads c cfg devSerial (extracted es) ∧
      ∀ xs f, extracted es = xs ++ [f] →
        ((phase c cfg devSerial h).reads c cfg devSerial xs).waiting = true := by
  induction es using List.reverseRecOn with
  | nil =>
    rw [List.append_nil]
    refine ⟨rfl, fun xs f hx => ?_⟩
    exact absurd hx.symm (by simp)
  | append_singleton es ev ih =>
    obtain ⟨e, a⟩ := ev
    rw [← List.append_assoc] at hlog ⊢
    obtain ⟨hph, hlast⟩ := ih hlog.of_append
    have hpre := (hlog (h ++ es) _ [] rfl).1
    have hfin' := final_reads c cfg devSerial hfin (extracted es)
    rw [← hph] at hfin'
    rw [phase_snoc, extracted_append]
    cases e with
    | makeKey =>
      have hstart : phase c cfg devSerial (h ++ es) = .start := hpre
      rw [hstart] at hfin'
      cases hfin'
    | bleWrite data =>
      have hdue : (phase c cfg devSerial (h ++ es)).due c cfg devSerial = some data := hpre
      rw [due_final hfin'] at hdue
      cases hdue
    | extracted f =>
      refine ⟨?_, ?_⟩
      · show (phase c cfg devSerial (h ++ es)).frame c cfg devSerial f =
          (phase c cfg devSerial h).reads c cfg devSerial (extracted es ++ [f])
        rw [reads_append, hph]
        rfl
      · intro xs f' hx
        obtain ⟨rfl, -⟩ := List.append_inj' (show extracted es ++ [f] = xs ++ [f'] from hx) rfl
        rw [← hph]
        exact hpre.1
    | _ =>
      show phase c cfg devSerial (h ++ es) =
          (phase c cfg devSerial h).reads c cfg devSerial (extracted es ++ []) ∧
        ∀ xs f, extracted es ++ [] = xs ++ [f] → _
      rw [List.append_nil]
      exact ⟨hph, hlast⟩

/-! ## Before and after the request -/

/-- The frames of a stream that begin within its first `n` bytes. -/
def framesBegun (n : ℕ) (b : Bytes) : List Frame :=
  ((frameScanner.spans b).takeWhile fun s => s.2 < n + (outerOverhead + s.1.payload.length)).map
    Prod.fst

theorem framesBegun_isPrefix (n : ℕ) (b : Bytes) : framesBegun n b <+: framesOf b := by
  unfold framesBegun framesOf
  rw [← frameScanner.spans_fst]
  exact (List.takeWhile_prefix _).map _

theorem framesOf_isPrefix_begun {b b' : Bytes} (hb : b <+: b') {n : ℕ} (hn : b.length ≤ n) :
    framesOf b <+: framesBegun n b' := by
  obtain ⟨y, rfl⟩ := hb
  obtain ⟨later, hlater⟩ := frameScanner.spans_prefix_append b y
  have hall : ∀ s ∈ frameScanner.spans b,
      decide (s.2 < n + (outerOverhead + s.1.payload.length)) = true := by
    intro s hs
    have hle := frameScanner.spans_le b s hs
    have h8 : outerOverhead = 8 := rfl
    simp only [decide_eq_true_eq]
    omega
  unfold framesBegun framesOf
  rw [← frameScanner.spans_fst, ← hlater, List.takeWhile_append_of_pos hall, List.map_append]
  exact List.prefix_append _ _

/-- The frames that the device began to send before it received its `n`-th write. -/
def Board.begun {α : Type} (n : ℕ) (s : Board α) : List Frame :=
  framesBegun (s.acceptedBefore n).length s.accepted

/-- Frames without those that the task has extracted. -/
def Board.unread {α : Type} (s : Board α) (frames : List Frame) : List Frame :=
  frames.drop (extracted s.hist).length

/-- A run from the start through `s₁`, where the fourth frame is about to be written, its successful
write, and on to `s₂`. -/
structure Requested {α : Type} (p : Fw α) (s₁ s₂ : Board α) (data : Bytes) (k : EspErr → Fw α) :
    Prop where
  before : Run (boot p) s₁
  request : s₁.prog = .call (.bleWrite data) k
  three : (writes s₁.hist).length = 3
  after : Run (s₁.wrote data .ok k) s₂

variable {outSession : Option Session} {s₁ s₂ : Board (EspErr × Option Session)} {data : Bytes}
  {k : EspErr → Fw (EspErr × Option Session)} {session : Session}

theorem step_wrote (hreq : s₁.prog = .call (.bleWrite data) k) (err : EspErr) :
    Step s₁ (s₁.wrote data err k) := by
  obtain ⟨air, g, qs, d, h, p⟩ := s₁
  obtain rfl : p = .call (.bleWrite data) k := hreq
  exact Step.answer (e := .bleWrite data) err (fun t h => nomatch h) trivial

theorem Requested.run {p : Fw (EspErr × Option Session)} (hq : Requested p s₁ s₂ data k) :
    Run s₁ s₂ := .head (step_wrote hq.request .ok) hq.after

/-- What was delivered when the request was written has begun before the device received it. -/
theorem Requested.isPrefix_begun {p : Fw (EspErr × Option Session)}
    (hq : Requested p s₁ s₂ data k) :
    framesOf s₁.accepted <+: s₂.begun 4 ∧ s₂.begun 4 <+: framesOf s₂.accepted := by
  have ho := hq.before.ordered (ordered_boot p)
  have hfew : okWrites s₁.hist < 4 := by
    have hle : okWrites s₁.hist ≤ (writes s₁.hist).length := List.countP_le_length
    rw [hq.three] at hle
    omega
  have hbefore := accepted_isPrefix_before ho hq.run hfew
  exact ⟨framesOf_isPrefix_begun (hbefore.trans (acceptedBefore_isPrefix 4 (hq.run.ordered ho)))
    hbefore.length_le, framesBegun_isPrefix _ _⟩

theorem phase_request (hq : Requested (authRun c cfg devSerial fuel outSession) s₁ s₂ data k) :
    ∃ session, phase c cfg devSerial s₁.hist = .sendAuth session := by
  obtain ⟨h₁, hreq, hthree, -⟩ := hq
  have hr := h₁.reach
  have hwp := wp_reach (C := handshakeContract c cfg devSerial fuel) wp_authRun hr
  have ht := tracked_of_logged (logged_authRun hr)
  rw [hreq] at hwp
  have hdue : (phase c cfg devSerial s₁.hist).due c cfg devSerial = some data := hwp.1
  unfold Tracked at ht
  cases hph : phase c cfg devSerial s₁.hist with
  | sendAuth session => exact ⟨session, rfl⟩
  | sendKey ourPub priv =>
    rw [hph] at ht
    rw [ht.2.1] at hthree
    cases hthree
  | sendSeed interim =>
    rw [hph] at ht
    obtain ⟨_, _, -, hw, -⟩ := ht
    rw [hw] at hthree
    cases hthree
  | sendStatus session =>
    rw [hph] at ht
    obtain ⟨_, _, _, hw, -⟩ := ht
    rw [hw] at hthree
    cases hthree
  | _ =>
    rw [hph] at hdue
    cases hdue

/-- The frames extracted behind the request of a successful handshake: they hold a success, and
they were all read while the automaton still waited. -/
theorem result_frames (hq : Requested (authRun c cfg devSerial fuel outSession) s₁ s₂ data k)
    (hok : s₂.prog = .ret (.ok, some session)) :
    ∃ ws, extracted s₂.hist = extracted s₁.hist ++ ws ∧ StaleSuccess c session ws ∧
      (∀ xs f, ws = xs ++ [f] →
        ((Phase.awaitResult session).reads c cfg devSerial xs).waiting = true) ∧
      extracted s₂.hist <+: framesOf s₂.accepted := by
  have hrun : Run (boot (authRun c cfg devSerial fuel outSession)) s₂ := hq.before.trans hq.run
  have hr := hrun.reach
  have hwp := wp_reach (C := handshakeContract c cfg devSerial fuel) wp_authRun hr
  have hlog := logged_authRun hr
  obtain ⟨session₁, hph₁⟩ := phase_request hq
  obtain ⟨es, hes⟩ := hq.after.reach.exists_append
  have hsent : phase c cfg devSerial (s₁.wrote data .ok k).hist = .awaitResult session₁ := by
    show phase c cfg devSerial (s₁.hist ++ [_]) = _
    rw [phase_snoc, hph₁]
    rfl
  rw [hok] at hwp
  have hacc : phase c cfg devSerial s₂.hist = .accepted session := by
    rcases hwp with ⟨session', fb, hret, hph, -⟩ | ⟨-, hne, -⟩
    · cases hret
      exact hph
    · exact absurd rfl hne
  have hlog' := hlog
  rw [hes] at hlog hacc
  obtain ⟨hfold, hlast⟩ := phase_frames (by rw [hsent]; rfl) hlog
  rw [hacc, hsent, eq_comm, reads_eq_accepted] at hfold
  obtain ⟨rfl, hsucc⟩ := hfold
  rw [hsent] at hlast
  refine ⟨extracted es, ?_, hsucc, hlast, ?_⟩
  · rw [hes, extracted_append]
    show extracted (s₁.hist ++ [_]) ++ _ = _
    rw [extracted_append]
    show extracted s₁.hist ++ [] ++ _ = _
    rw [List.append_nil]
  · obtain ⟨later, hlater⟩ := received_isPrefix_accepted hrun
    rw [← hlater]
    exact (extracted_prefix_framesOf hlog').trans (Scanner.items_prefix_append _ _)

theorem StaleSuccess.mono {xs ys : List Frame} (h : StaleSuccess c session xs) (hxy : xs <+: ys) :
    StaleSuccess c session ys := by
  obtain ⟨skipped, f, later, rfl, hskip, hf⟩ := h
  obtain ⟨more, rfl⟩ := hxy
  exact ⟨skipped, f, later ++ more, by rw [List.append_assoc, List.cons_append], hskip, hf⟩

theorem taken_of_waiting {xs : List Frame} {f : Frame}
    (hwait : ((Phase.awaitResult session).reads c cfg devSerial xs).waiting = true)
    (hsucc : StaleSuccess c session (xs ++ [f])) : TakenForSuccess c session f := by
  have hnot : ¬ StaleSuccess c session xs := by
    intro h
    rw [(reads_eq_accepted session session xs).mpr ⟨rfl, h⟩] at hwait
    cases hwait
  obtain ⟨skipped, g, later, heq, hskip, hg⟩ := hsucc
  rcases List.eq_nil_or_concat later with rfl | ⟨later', g', rfl⟩
  · obtain ⟨-, hfg⟩ := List.append_inj' heq rfl
    cases hfg
    exact hg
  · rw [List.concat_eq_append, ← List.cons_append, ← List.append_assoc] at heq
    obtain ⟨hxs, -⟩ := List.append_inj' heq rfl
    exact absurd ⟨skipped, g, later', hxs, hskip, hg⟩ hnot

theorem extracted_prefix_accepted (h₁ : Run (boot (authRun c cfg devSerial fuel outSession)) s₁) :
    extracted s₁.hist <+: framesOf s₁.accepted := by
  obtain ⟨later, hlater⟩ := received_isPrefix_accepted h₁
  rw [← hlater]
  exact (extracted_prefix_framesOf (logged_authRun h₁.reach)).trans
    (Scanner.items_prefix_append _ _)

/-- Every successful handshake passes through the write of the request. -/
theorem exists_request (h : Run (boot (authRun c cfg devSerial fuel outSession)) s₂)
    (hok : s₂.prog = .ret (.ok, some session)) :
    ∃ s₁ data k, Requested (authRun c cfg devSerial fuel outSession) s₁ s₂ data k := by
  have hr := h.reach
  rw [hok] at hr
  obtain ⟨ourPub, priv, session', _, _, _, _, _, -, -, hw, -⟩ := accepted_of_ok hr
  obtain ⟨s₁, data, err, k, h₁, hreq, hthree, h₂⟩ :=
    exists_write h (n := 3) (Nat.zero_le _) (by rw [hw]; exact Nat.lt_succ_self 3)
  obtain ⟨es, hes⟩ := h₂.reach.exists_append
  have hmem : (data, err) ∈ writes s₂.hist := by
    rw [hes, writes_append]
    refine List.mem_append_left _ ?_
    show _ ∈ writes (s₁.hist ++ [_])
    rw [writes_append]
    exact List.mem_append_right _ (List.mem_singleton_self _)
  obtain rfl : err = .ok := by
    rw [hw] at hmem
    obtain ⟨d, -, hd⟩ := List.mem_map.mp hmem
    exact (Prod.mk.inj hd).2.symm
  exact ⟨s₁, data, k, h₁, hreq, hthree, h₂⟩

/-- Step 4 ended with the frame `f`. Its frames go on behind the stale ones if and only if the stale
ones hold no success. -/
theorem stale_le_iff {stale ws : List Frame} {f : Frame}
    (hwait : ((Phase.awaitResult session).reads c cfg devSerial ws).waiting = true)
    (hsucc : StaleSuccess c session (ws ++ [f]))
    (hboth : stale <+: ws ++ [f] ∨ ws ++ [f] <+: stale) :
    stale.length ≤ ws.length ↔ ¬ StaleSuccess c session stale := by
  constructor
  · -- the stale frames were all read while the automaton still waited
    intro hle hs
    have hpre : stale <+: ws := by
      rcases hboth with hboth | hboth
      · exact List.prefix_of_prefix_length_le hboth (List.prefix_append ws [f]) hle
      · have := hboth.length_le
        rw [List.length_append, List.length_singleton] at this
        omega
    rw [(reads_eq_accepted session session ws).mpr ⟨rfl, hs.mono hpre⟩] at hwait
    cases hwait
  · intro hs
    by_contra hlt
    refine hs (hsucc.mono (hboth.resolve_left fun hpre => ?_))
    have hlen := hpre.length_le
    rw [List.length_append, List.length_singleton] at hlen
    have heq := hpre.eq_of_length (by
      rw [List.length_append, List.length_singleton]
      omega)
    exact hs (heq ▸ hsucc)

/-- The frame that ended a successful handshake, and the older frames: any frames that begin the
stream and hold those extracted before the request. -/
theorem result_frame (hq : Requested (authRun c cfg devSerial fuel outSession) s₁ s₂ data k)
    (hok : s₂.prog = .ret (.ok, some session)) :
    ∃ xs f, extracted s₂.hist = xs ++ [f] ∧ extracted s₂.hist <+: framesOf s₂.accepted ∧
      TakenForSuccess c session f ∧
      ∀ old, framesOf s₁.accepted <+: old → old <+: framesOf s₂.accepted →
        (old.length ≤ xs.length ↔ ¬ StaleSuccess c session (s₁.unread old)) := by
  obtain ⟨ws, hws, hsucc, hlast, hpre⟩ := result_frames hq hok
  rcases List.eq_nil_or_concat ws with rfl | ⟨ws, f, rfl⟩
  · obtain ⟨_, _, _, heq, -⟩ := hsucc
    exact absurd heq (by simp)
  rw [List.concat_eq_append] at *
  have hwait := hlast ws f rfl
  refine ⟨extracted s₁.hist ++ ws, f, by rw [hws, List.append_assoc], hpre,
    taken_of_waiting hwait hsucc, fun old hold₁ hold₂ => ?_⟩
  obtain ⟨stale, rfl⟩ := (extracted_prefix_accepted hq.before).trans hold₁
  have hboth : stale <+: ws ++ [f] ∨ ws ++ [f] <+: stale := by
    rw [hws] at hpre
    have := List.prefix_or_prefix_of_prefix hold₂ hpre
    rwa [List.prefix_append_right_inj, List.prefix_append_right_inj] at this
  unfold Board.unread
  rw [List.drop_left, List.length_append, List.length_append, Nat.add_le_add_iff_left]
  exact stale_le_iff hwait hsucc hboth

/-- **Fresh results, exactly.** A handshake that returns `ESP_OK` has written its request. The frame
`f` that ended it was delivered behind the request if and only if the frames delivered before and
not yet extracted did not hold a success behind skipped frames; the device began to send it after it
received the request if and only if the frames it began to send before did not. If they did not, and
if all that the device began to send later are auth replies with an error code, then the handshake
does not return `ESP_OK`. -/
theorem result_fresh_iff (h : Run (boot (authRun c cfg devSerial fuel outSession)) s₂) :
    (s₂.prog = .ret (.ok, some session) →
      ∃ s₁ data k, Requested (authRun c cfg devSerial fuel outSession) s₁ s₂ data k) ∧
    ∀ s₁ data k, Requested (authRun c cfg devSerial fuel outSession) s₁ s₂ data k →
      (framesOf s₁.accepted <+: s₂.begun 4 ∧ s₂.begun 4 <+: framesOf s₂.accepted) ∧
      (s₂.prog = .ret (.ok, some session) →
        ∃ xs f, extracted s₂.hist = xs ++ [f] ∧ extracted s₂.hist <+: framesOf s₂.accepted ∧
          TakenForSuccess c session f ∧
          ((framesOf s₁.accepted).length ≤ xs.length ↔
            ¬ StaleSuccess c session (s₁.unread (framesOf s₁.accepted))) ∧
          ((s₂.begun 4).length ≤ xs.length ↔
            ¬ StaleSuccess c session (s₁.unread (s₂.begun 4)))) ∧
      (¬ StaleSuccess c session (s₁.unread (s₂.begun 4)) →
        (∀ f ∈ (framesOf s₂.accepted).drop (s₂.begun 4).length, ∀ plain pkt,
          f.frameType = frameData → decrypted c session f.payload 256 = .ok plain →
            innerParse plain = some pkt → isAuthReply pkt ∧ pkt.payload ≠ [0x00]) →
        s₂.prog ≠ .ret (.ok, some session)) := by
  refine ⟨exists_request h, fun s₁ data k hq => ?_⟩
  obtain ⟨hbegun₁, hbegun₂⟩ := hq.isPrefix_begun
  refine ⟨⟨hbegun₁, hbegun₂⟩, fun hok => ?_, fun hs hfail hok => ?_⟩
  · obtain ⟨xs, f, hx, hpre, htaken, hiff⟩ := result_frame hq hok
    exact ⟨xs, f, hx, hpre, htaken, hiff _ List.prefix_rfl (hbegun₁.trans hbegun₂),
      hiff _ hbegun₁ hbegun₂⟩
  · obtain ⟨xs, f, hx, ⟨later, hpre⟩, ⟨hty, plain, pkt, hd, hp, hv⟩, hiff⟩ := result_frame hq hok
    have hle := (hiff _ hbegun₁ hbegun₂).mpr hs
    have hmem : f ∈ (framesOf s₂.accepted).drop (s₂.begun 4).length := by
      rw [← hpre, hx, List.append_assoc, List.drop_append_of_le_length hle]
      exact List.mem_append_right _ (List.mem_cons_self ..)
    obtain ⟨hauth, hcode⟩ := hfail f hmem plain pkt hty hd hp
    exact hcode (authVerdict_ok_iff.mp hv hauth)

/-! ## Recorded handshakes -/

namespace Sample

/-- The recorded handshake before its request: the device has answered with its key, the encrypted
seed and a last notification. -/
def requestBoard (reply : Bytes) : Board (EspErr × Option Session) :=
  let b := ((boot program).advance (ourPub, priv) 1).reply keyReplyFrame
  let b := (b.advance (ourPub, priv) 1).reply seedReplyFrame
  let b := (b.advance (ourPub, priv) 1).reply reply
  b.advance (ourPub, priv) 0

def request : Bytes := authFrame crypto config config.efSerial.1 Sample.session

/-- The write of the request, and the device's answer to it. -/
def answered {α : Type} (b : Board α) (result : Bytes) : Board α :=
  ((b.wrote request .ok fun err => b.prog.resume (.bleWrite request) err).reply result).advance
    (ourPub, priv) 0

theorem run_requestBoard {reply : Bytes} (hr : reply ≠ []) :
    Run (boot (authRun crypto config config.efSerial.1 40 none)) (requestBoard reply) := by
  have h₁ := run_advance (ourPub, priv) 1 (boot program)
  have ho₁ := h₁.ordered (ordered_boot _)
  have h₂ := run_reply (n := keyReplyFrame) rfl ho₁ nofun (by decide +kernel)
  have h₃ := run_advance (ourPub, priv) 1 (((boot program).advance (ourPub, priv) 1).reply
    keyReplyFrame)
  have ho₃ := h₃.ordered (h₂.ordered ho₁)
  have h₄ := run_reply (n := seedReplyFrame) rfl ho₃ nofun (by decide +kernel)
  have h₅ := run_advance (ourPub, priv) 1 ((((boot program).advance (ourPub, priv) 1).reply
    keyReplyFrame).advance (ourPub, priv) 1 |>.reply seedReplyFrame)
  have ho₅ := h₅.ordered (h₄.ordered ho₃)
  have h₆ := run_reply (n := reply) rfl ho₅ hr (by decide +kernel)
  exact h₁.trans (h₂.trans (h₃.trans (h₄.trans (h₅.trans (h₆.trans (run_advance _ 0 _))))))

theorem requestBoard_air (reply : Bytes) : (requestBoard reply).air = [] := rfl

/-- The recorded handshake writes its request and is answered. -/
theorem requested_answered {b : Board (EspErr × Option Session)} (result : Bytes)
    (hrun : Run (boot (authRun crypto config config.efSerial.1 40 none)) b) (hair : b.air = [])
    (hres : result ≠ []) (hnext : b.prog.next? = some (.bleWrite request))
    (hthree : (writes b.hist).length = 3) (hroom : b.queue.length < notifyQueueLen) :
    Requested (authRun crypto config config.efSerial.1 40 none) b (answered b result) request
      fun err => b.prog.resume (.bleWrite request) err := by
  have hreq := eq_call_of_next? hnext
  have ho := (hrun.ordered (ordered_boot _)).step (step_wrote hreq .ok)
  have hreply := run_reply (show (b.wrote request .ok _).air = [] from hair) ho hres hroom
  exact ⟨hrun, hreq, hthree, hreply.trans (run_advance (ourPub, priv) 0 _)⟩

theorem framesOf_delivered {α : Type} {b : Board α} {frames : List WireFrame}
    (hb : b.accepted = (frames.map WireFrame.encode).flatten) :
    framesOf b.accepted = frames.map WireFrame.toFrame := by
  rw [hb]
  exact (Prod.mk.inj (drain_wire frames)).1

end Sample

/-- The recorded handshake: its last frame is sent behind the request. -/
theorem result_fresh_iff_sample :
    let s₁ := Sample.requestBoard Sample.statusReplyFrame
    let s₂ := Sample.answered s₁ Sample.authOkFrame
    ∃ xs f, extracted s₂.hist = xs ++ [f] ∧ extracted s₂.hist <+: framesOf s₂.accepted ∧
      TakenForSuccess Sample.crypto Sample.session f ∧
      ((framesOf s₁.accepted).length ≤ xs.length ↔
        ¬ StaleSuccess Sample.crypto Sample.session (s₁.unread (framesOf s₁.accepted))) ∧
      ((s₂.begun 4).length ≤ xs.length ↔
        ¬ StaleSuccess Sample.crypto Sample.session (s₁.unread (s₂.begun 4))) := by
  intro s₁ s₂
  obtain ⟨hnext, hthree, hroom, hresult⟩ :
      s₁.prog.next? = some (.bleWrite Sample.request) ∧ (writes s₁.hist).length = 3 ∧
      s₁.queue.length < notifyQueueLen ∧
      s₂.prog.result? = some (.ok (.ok, some Sample.session)) := by
    decide +kernel
  have hq := Sample.requested_answered Sample.authOkFrame
    (Sample.run_requestBoard (by decide +kernel)) (Sample.requestBoard_air _) (by decide +kernel)
    hnext hthree hroom
  exact ((result_fresh_iff (hq.before.trans hq.run)).2 _ _ _ hq).2.1 (eq_ret_of_result? hresult)

/-- A device that has sent its status reply twice and, once it has received the request, answers
`WrongKey`: the handshake returns `ESP_OK` for the second status reply, which is older than the
request. -/
theorem result_stale :
    let s₁ := Sample.requestBoard (Sample.statusReplyFrame ++ Sample.statusReplyFrame)
    let s₂ := Sample.answered s₁ Sample.wrongKeyFrame
    (∃ k, Requested (authRun Sample.crypto Sample.config Sample.config.efSerial.1 40 none) s₁ s₂
      Sample.request k) ∧
    s₂.prog = .ret (.ok, some Sample.session) ∧
    (extracted s₂.hist).length ≤ (framesOf s₁.accepted).length ∧
    s₂.delivered = s₁.delivered ++ [(4, Sample.wrongKeyFrame)] ∧
    framesOf s₂.accepted = framesOf s₁.accepted ++ [Sample.wrongKeyWire.toFrame] ∧
    ∃ plain, decrypted Sample.crypto Sample.session Sample.wrongKeyWire.payload 256 = .ok plain ∧
      innerParse plain = some ⟨addrAuth, addrApp, 0x35, 0x86, [0x06]⟩ := by
  intro s₁ s₂
  obtain ⟨haccepted₁, hnext, hthree, hroom⟩ : s₁.accepted = ([Sample.keyReplyWire,
        Sample.seedReplyWire, Sample.statusReplyWire,
        Sample.statusReplyWire].map WireFrame.encode).flatten ∧
      s₁.prog.next? = some (.bleWrite Sample.request) ∧ (writes s₁.hist).length = 3 ∧
      s₁.queue.length < notifyQueueLen := by
    decide +kernel
  obtain ⟨haccepted₂, hresult, hlen, hdelivered⟩ : s₂.accepted = ([Sample.keyReplyWire,
        Sample.seedReplyWire, Sample.statusReplyWire, Sample.statusReplyWire,
        Sample.wrongKeyWire].map WireFrame.encode).flatten ∧
      s₂.prog.result? = some (.ok (.ok, some Sample.session)) ∧
      (extracted s₂.hist).length ≤ 4 ∧
      s₂.delivered = s₁.delivered ++ [(4, Sample.wrongKeyFrame)] := by
    decide +kernel
  have h₁ := Sample.framesOf_delivered haccepted₁
  have h₂ := Sample.framesOf_delivered haccepted₂
  refine ⟨⟨_, Sample.requested_answered _ (Sample.run_requestBoard (by decide +kernel))
    (Sample.requestBoard_air _) (by decide +kernel) hnext hthree hroom⟩,
    eq_ret_of_result? hresult, ?_, hdelivered, ?_, ?_⟩
  · rw [h₁]
    exact hlen
  · rw [h₂, h₁]
    rfl
  · exact ⟨opened Sample.crypto Sample.session Sample.wrongKeyWire.payload, by decide +kernel,
      by decide +kernel⟩

end River2
