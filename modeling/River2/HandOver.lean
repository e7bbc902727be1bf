import River2.BufferGrowth
import River2.Handshake
import River2.Residue

/-!
# From the handshake to telemetry

`river2_auth_run` frees its reassembly buffer, `telemetry_task` starts with an empty one. The bytes
that the handshake has received behind its last frame are lost. `handover_iff`: telemetry goes on
with the next frame of the stream, whatever follows, if and only if those bytes are clean.
-/

namespace River2

open Prog

/-! ## Behind a frame -/

/-- The bytes behind the `k`-th frame of a stream. -/
def behind : ℕ → Bytes → Bytes
  | 0, s => s
  | k + 1, s => behind k (frameScanner.next s).2

theorem reads_behind {k : ℕ} {s : Bytes} (hk : k ≤ (framesOf s).length) :
    frameScanner.Reads s ((framesOf s).take k) (behind k s) := by
  induction k generalizing s with
  | zero => exact Scanner.reads_refl s
  | succ k ih =>
    have hreads := Scanner.reads_next (S := frameScanner) s
    unfold behind
    cases hn : frameScanner.next s with
    | mk o s' =>
      rw [hn] at hreads
      cases o with
      | none =>
        rw [show framesOf s = [] from (Prod.mk.inj (Scanner.drain_of_next_none hn)).1] at hk
        exact absurd hk (Nat.not_succ_le_zero k)
      | some f =>
        have hframes : framesOf s = f :: framesOf s' :=
          (Prod.mk.inj (Scanner.drain_of_next_some hn)).1
        rw [hframes, List.length_cons] at hk
        rw [hframes, List.take_succ_cons]
        exact hreads.trans (ih (Nat.le_of_succ_le_succ hk))

theorem drop_framesOf_append {k : ℕ} {s : Bytes} (hk : k ≤ (framesOf s).length) (t : Bytes) :
    (framesOf (s ++ t)).drop k = framesOf (behind k s ++ t) := by
  have hitems := ((reads_behind hk).feed t).items_eq
  have hlen : ((framesOf s).take k).length = k := List.length_take_of_le hk
  rw [show framesOf (s ++ t) = _ from hitems]
  exact List.drop_left' hlen

/-! ## What the handshake has extracted -/

/-- Frames are extracted in the order of the bytes received, whatever fails. -/
def streamContract : Contract Call Answer where
  env := anyEnv
  pre := fun h e =>
    match e with
    | .extracted f => extracted h ++ [f] <+: framesOf (received h)
    | _ => True
  out := fun _ => True

theorem permits_stream : Permits streamContract := by
  rintro h (_ | _ | _ | _) he <;> trivial

theorem maintains_synced : Maintains streamContract Synced where
  pre := fun h e he => by
    cases e with
    | extracted f => exact absurd rfl (he.2.2 f)
    | _ => trivial
  out := fun _ => trivial
  aside := fun h fb e a he hs => by
    cases e with
    | queueReceive t => exact absurd rfl (he.2.1 t)
    | extracted f => exact absurd rfl (he.2.2 f)
    | _ => exact hs.event rfl rfl rfl
  init := ⟨trivial, fun _ _ => synced_init.event rfl rfl rfl⟩
  wait := fun hs _ _ => wp_waitForFrame permits_stream hs (fun _ _ _ hpre => hpre)
    (fun _ _ => trivial) (fun _ _ _ _ => trivial) (fun _ _ _ _ hadv => hadv.synced)
    (fun _ _ => trivial) fun _ _ _ => trivial

/-- What a handshake that returns `ESP_OK` has extracted are the first frames of what it has
received. -/
theorem extracted_isPrefix {c : Crypto} {cfg : EcoflowConfig} {devSerial : Bytes} {fuel : ℕ}
    {outSession : Option Session} {session : Session} {h : Hist}
    (hrun : Reach anyEnv ([], authRun c cfg devSerial fuel outSession)
      (h, .ret (.ok, some session))) : extracted h <+: framesOf (received h) := by
  have hwp : wp streamContract (authRun c cfg devSerial fuel outSession)
      (fun r h => r = (.ok, some session) → ∃ fb, Synced h fb) (fun _ _ => True) [] := by
    refine wp_do.mpr (wp_attempt.mpr (wp_mono maintains_synced.authBody (fun r h hs => ?_)
      fun err h _ => ?_))
    · exact fun _ => ⟨r.2, hs⟩
    · intro heq
      obtain ⟨herr, hsome⟩ := Prod.mk.inj heq
      rw [if_pos herr] at hsome
      cases hsome
  obtain ⟨fb, hs⟩ := wp_reach (C := streamContract) hwp hrun rfl
  exact hs.prefix_framesOf

/-! ## Telemetry on given notifications -/

variable {c : Crypto} {ctx : TelemetryCtx}

/-- At a wait, the telemetry task has extracted the frames of what it has received. -/
theorem telemetry_extracted {fuel t : ℕ} {h : Hist} {k : Option Bytes → Fw Empty}
    (hrun : Reach allocEnv ([], telemetryTask c ctx fuel) (h, .call (.queueReceive t) k)) :
    extracted h = framesOf (received h) :=
  (wp_reach (C := telemetryContract fuel) wp_telemetryTask hrun).1.symm

/-- The environment that answers the waits by given notifications, and lets nothing fail. -/
def feedEnv (ns : List Bytes) : Env Answer := fun h e a => allocEnv h e a ∧
  match e, a with
  | .queueReceive _, answer => answer ≠ none ∧ answer = ns[(notifications h).length]?
  | _, _ => True

theorem fed_feedEnv (ns : List Bytes) : FedBy ns (feedEnv ns) := fun _ _ _ hans => .inr hans.2.2

theorem prompt_feedEnv (ns : List Bytes) : Prompt (feedEnv ns) := fun _ _ _ hans => hans.2.1

theorem exists_telemetry (c : Crypto) (ctx : TelemetryCtx) (ns : List Bytes) :
    ∃ fuel h t k, Reach allocEnv ([], telemetryTask c ctx fuel) (h, .call (.queueReceive t) k) ∧
      notifications h = ns := by
  obtain ⟨⟨h, q⟩, hrun, hstuck⟩ :=
    exists_stuck (feedEnv ns) (telemetryTask c ctx (ns.length + 1)) []
  have hlog := logged_free hrun
  have hpre := notifications_isPrefix (fed_feedEnv ns) hlog
  have hrun : Reach allocEnv ([], telemetryTask c ctx (ns.length + 1)) (h, q) :=
    hrun.mono fun _ _ _ hans => hans.1
  have hwp := wp_reach (C := telemetryContract (ns.length + 1)) wp_telemetryTask hrun
  cases q with
  | ret a => exact a.elim
  | throw err => exact hwp.elim
  | spin =>
    have hfuel : ns.length + 1 ≤ waits h := hwp
    have hlen := hpre.length_le
    rw [waits_prompt (prompt_feedEnv ns) hlog] at hfuel
    omega
  | call e k =>
    have hno := hstuck e k rfl
    cases e with
    | queueReceive t =>
      refine ⟨_, h, t, k, hrun, hpre.eq_of_length_le ?_⟩
      rw [← List.getElem?_eq_none_iff]
      cases hnext : ns[(notifications h).length]? with
      | none => rfl
      | some data => exact absurd ⟨trivial, nofun, hnext.symm⟩ (hno (some data))
    | bleWrite data => exact hwp.1.elim
    | makeKey => exact hwp.1.elim
    | getTime => exact absurd ⟨trivial, trivial⟩ (hno (0 : ℤ))
    | alloc => exact absurd ⟨rfl, trivial⟩ (hno true)
    | sharedSecret => exact absurd ⟨trivial, trivial⟩ (hno true)
    | psa op => exact absurd ⟨trivial, trivial⟩ (hno true)
    | hashCompute => exact absurd ⟨trivial, trivial⟩ (hno HashStatus.success)
    | load x => exact absurd ⟨trivial, trivial⟩ (hno (0 : Int8))
    | notifyWait => exact absurd ⟨trivial, trivial⟩ (hno (0 : UInt32))
    | extracted f => exact absurd ⟨trivial, trivial⟩ (hno ())
    | store x v => exact absurd ⟨trivial, trivial⟩ (hno ())
    | notify bits => exact absurd ⟨trivial, trivial⟩ (hno ())
    | commanding x => exact absurd ⟨trivial, trivial⟩ (hno ())

/-! ## The hand-over -/

variable {cfg : EcoflowConfig} {devSerial : Bytes} {fuel : ℕ} {outSession : Option Session}
  {session : Session} {h : Hist}

/-- **The hand-over, exactly.** A handshake has returned `ESP_OK`, whatever has failed in it, and no
notification is longer than the receiver's chunk. Telemetry extracts the frames behind those of the
handshake, whatever it goes on to receive, if and only if the bytes that the handshake has received
behind its last frame are clean. -/
theorem handover_iff
    (hauth : Reach anyEnv ([], authRun c cfg devSerial fuel outSession)
      (h, .ret (.ok, some session)))
    (hcut : ∀ n ∈ notifications h, n.length ≤ notifyChunkMax) (intervalMs : ℕ) :
    (∀ fuel' h' t k, Reach allocEnv ([], telemetryTask c ⟨session, intervalMs⟩ fuel')
        (h', .call (.queueReceive t) k) → (∀ n ∈ notifications h', n.length ≤ notifyChunkMax) →
      extracted h' = (framesOf (notifications h ++ notifications h').flatten).drop
        (extracted h).length) ↔
      Clean (behind (extracted h).length (notifications h).flatten) := by
  have hflat : received h = (notifications h).flatten := flatMap_take_chunk hcut
  have hk := (extracted_isPrefix hauth).length_le
  rw [hflat] at hk
  rw [clean_iff]
  constructor
  · intro hall t
    obtain ⟨ns, hns, ht⟩ := exists_cut t
    obtain ⟨fuel', h', timeoutMs, k, hrun, rfl⟩ := exists_telemetry c ⟨session, intervalMs⟩ ns
    have heq := hall fuel' h' timeoutMs k hrun hns
    rw [List.flatten_append, drop_framesOf_append hk, ht, telemetry_extracted hrun] at heq
    rw [← heq]
    unfold received
    rw [flatMap_take_chunk hns, ht]
  · intro hclean fuel' h' t k hrun hcut'
    rw [List.flatten_append, drop_framesOf_append hk, hclean, telemetry_extracted hrun]
    unfold received
    rw [flatMap_take_chunk hcut']

/-- The recorded handshake, handed over. -/
theorem handover_iff_sample :
    (∀ fuel' h' t k, Reach allocEnv ([], telemetryTask Sample.crypto ⟨Sample.session, 60000⟩ fuel')
        (h', .call (.queueReceive t) k) → (∀ n ∈ notifications h', n.length ≤ notifyChunkMax) →
      extracted h' = (framesOf (notifications (Sample.run Sample.replies).1 ++
        notifications h').flatten).drop (extracted (Sample.run Sample.replies).1).length) ↔
      Clean (behind (extracted (Sample.run Sample.replies).1).length
        (notifications (Sample.run Sample.replies).1).flatten) :=
  handover_iff (Sample.reach_replies.mono fun _ _ _ _ => trivial) (by decide +kernel) 60000

/-- A frame in the notification that ends the handshake is lost: telemetry, which then receives one
more frame, extracts only that one. -/
theorem handover_loses_frame :
    let h := (Sample.run [Sample.keyReplyFrame, Sample.seedReplyFrame, Sample.statusReplyFrame,
      Sample.authOkFrame ++ Sample.statusReplyFrame]).1
    let telemetry := telemetryTask Sample.crypto ⟨Sample.session, 60000⟩ 2
    let h' := (replay (Sample.ourPub, Sample.priv) [Sample.wrongKeyFrame] telemetry).1
    Reach hashEnv ([], authRun Sample.crypto Sample.config Sample.config.efSerial.1 40 none)
      (h, .ret (.ok, some Sample.session)) ∧
    (∃ k, Reach allocEnv ([], telemetry) (h', .call (.queueReceive pollTimeoutMs) k)) ∧
    (∀ n ∈ notifications h ++ notifications h', n.length ≤ notifyChunkMax) ∧
    extracted h' = [Sample.wrongKeyWire.toFrame] ∧
    (framesOf (notifications h ++ notifications h').flatten).drop (extracted h).length =
      [Sample.statusReplyWire.toFrame, Sample.wrongKeyWire.toFrame] := by
  intro h telemetry h'
  obtain ⟨hresult, hlen, hcut, hstream⟩ :
      (Sample.run [Sample.keyReplyFrame, Sample.seedReplyFrame, Sample.statusReplyFrame,
        Sample.authOkFrame ++ Sample.statusReplyFrame]).2.result? =
        some (.ok (.ok, some Sample.session)) ∧
      (extracted h).length = 4 ∧
      (∀ n ∈ notifications h ++ notifications h', n.length ≤ notifyChunkMax) ∧
      (notifications h ++ notifications h').flatten =
        ([Sample.keyReplyWire, Sample.seedReplyWire, Sample.statusReplyWire, Sample.authOkWire,
          Sample.statusReplyWire, Sample.wrongKeyWire].map WireFrame.encode).flatten := by
    decide +kernel
  have hret := eq_ret_of_result? hresult
  have hauth := Sample.reach_run [Sample.keyReplyFrame, Sample.seedReplyFrame,
    Sample.statusReplyFrame, Sample.authOkFrame ++ Sample.statusReplyFrame]
  rw [hret] at hauth
  have hrun := reach_replay admits_allocEnv (Sample.ourPub, Sample.priv) [Sample.wrongKeyFrame]
    telemetry
  have hwait := eq_call_of_next? (p := (replay (Sample.ourPub, Sample.priv) [Sample.wrongKeyFrame]
    telemetry).2) (e := Call.queueReceive pollTimeoutMs) (by decide +kernel)
  rw [← Prod.mk.eta (p := replay _ _ telemetry), hwait] at hrun
  have hframes := congrArg Prod.fst (drain_wire [Sample.keyReplyWire, Sample.seedReplyWire,
    Sample.statusReplyWire, Sample.authOkWire, Sample.statusReplyWire, Sample.wrongKeyWire])
  rw [← hstream] at hframes
  refine ⟨hauth, ⟨_, hrun⟩, hcut, by decide +kernel, ?_⟩
  rw [show framesOf (notifications h ++ notifications h').flatten = _ from hframes, hlen]
  rfl

end River2
