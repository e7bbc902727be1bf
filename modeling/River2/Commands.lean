import River2.Link
import River2.Recording
import River2.Resync

/-!
# Commands (`river2_commands.c`, `river2_send_command`)

`sendCommand` and the two outputs it switches. `command_roundtrip`: what `sendInnerEncrypted` writes
is decoded by the receiving functions to the packet that was sent, for every payload that the
buffers of the sender have room for; a longer one is refused.
-/

namespace River2

open Prog

/-! ## The code -/

/-- `river2_send_command`. -/
def sendCommand (c : Crypto) (session : Session) (dst cmdSet cmdId : UInt8) (payload : Bytes) :
    Fw Unit :=
  sendInnerEncrypted c session addrApp dst cmdSet cmdId payload

/-- `river2_set_ac_output`. -/
def setAcOutput (c : Crypto) (session : Session) (enable : Bool) : Fw Unit :=
  sendCommand c session addrMppt 0x20 0x42
    [if enable then 1 else 0, 0xFF, 0xFF, 0xFF, 0xFF, 0xFF, 0xFF]

/-- `river2_set_dc_output`. -/
def setDcOutput (c : Crypto) (session : Session) (enable : Bool) : Fw Unit :=
  sendCommand c session addrMppt 0x20 0x51 [if enable then 1 else 0]

/-! ## Runs in which PSA succeeds -/

/-- No promises to an environment in which the PSA calls succeed. -/
def psaContract : Contract Call Answer where
  env := psaEnv
  pre := fun _ _ => True
  out := fun _ => False

theorem permits_psa : Permits psaContract := fun _ _ _ => trivial

theorem psaEnv_answers (h : Hist) (e : Call) : ∃ a, psaEnv h e a := by
  cases e with
  | psa op => exact ⟨true, rfl⟩
  | getTime => exact ⟨(0 : ℤ), trivial⟩
  | alloc => exact ⟨true, trivial⟩
  | queueReceive t => exact ⟨none, trivial⟩
  | bleWrite data => exact ⟨EspErr.ok, trivial⟩
  | makeKey => exact ⟨none, trivial⟩
  | sharedSecret => exact ⟨true, trivial⟩
  | hashCompute => exact ⟨HashStatus.success, trivial⟩
  | load x => exact ⟨(0 : Int8), trivial⟩
  | notifyWait => exact ⟨(0 : UInt32), trivial⟩
  | extracted f => exact ⟨(), trivial⟩
  | store x v => exact ⟨(), trivial⟩
  | notify bits => exact ⟨(), trivial⟩
  | commanding x => exact ⟨(), trivial⟩

theorem not_psaFault {h : Hist} (hlog : Logged psaContract h) : ¬ PsaFault h := by
  rintro ⟨op, -, hmem⟩
  obtain ⟨h₁, h₂, rfl⟩ := List.append_of_mem hmem
  exact absurd (hlog h₁ _ h₂ rfl).2 Bool.false_ne_true

theorem completes_psa {α : Type} {p q : Fw α} {h : Hist} {Q : α → Hist → Prop}
    {R : EspErr → Hist → Prop} (hp : wp psaContract p Q (fun e h => R e h ∨ PsaFault h) [])
    (hc : Completes psaEnv p h q) :
    (∃ a, q = .ret a ∧ Q a h) ∨ ∃ e, q = .throw e ∧ R e h := by
  have hlog := logged_reach (C := psaContract) hp hc.1 logged_nil
  rcases wp_completes hp hc (fun e _ => psaEnv_answers h e) (fun hout => hout) with
    ⟨a, rfl, hQ⟩ | ⟨e, rfl, hR⟩
  · exact .inl ⟨a, rfl, hQ⟩
  · exact .inr ⟨e, rfl, hR.resolve_right (not_psaFault hlog)⟩

variable {c : Crypto} {s : Session} {src dst cmdSet cmdId : UInt8} {payload : Bytes}

/-- A packet that fits is written once, and the outcome of the write is returned. -/
theorem completes_sendInnerEncrypted (hfit : payload.length ≤ 282) {h : Hist} {q : Fw Unit}
    (hc : Completes psaEnv (sendInnerEncrypted c s src dst cmdSet cmdId payload) h q) :
    ∃ err, writes h = [(packetFrame c s src dst cmdSet cmdId payload, err)] ∧
      q = if err = .ok then .ret () else .throw err := by
  have hwrites : ∀ h' err, Quiet [] h' →
      writes (h' ++ [⟨.bleWrite (packetFrame c s src dst cmdSet cmdId payload), err⟩]) =
        [(packetFrame c s src dst cmdSet cmdId payload, err)] := by
    intro h' err hq
    rw [writes_append, writes_quiet hq]
    rfl
  have hwp : wp psaContract (sendInnerEncrypted c s src dst cmdSet cmdId payload)
      (fun _ h => writes h = [(packetFrame c s src dst cmdSet cmdId payload, .ok)])
      (fun err h => (err ≠ .ok ∧
        writes h = [(packetFrame c s src dst cmdSet cmdId payload, err)]) ∨ PsaFault h) [] := by
    refine wp_sendInnerEncrypted permits_psa hfit ?_ ?_ ?_ ?_
    · intro _ _
      trivial
    · intro h' hq _
      exact hwrites h' .ok hq
    · intro err h' hq hne _
      exact .inl ⟨hne, hwrites h' err hq⟩
    · intro h' _ hf
      exact .inr hf
  rcases completes_psa hwp hc with ⟨-, rfl, hw⟩ | ⟨err, rfl, hne, hw⟩
  · exact ⟨.ok, hw, (if_pos rfl).symm⟩
  · exact ⟨err, hw, (if_neg hne).symm⟩

theorem completes_sessionDecrypt {input : Bytes} {outCap : ℕ}
    (hfit : input.length - input.length % 16 ≤ outCap) {h : Hist} {q : Fw Bytes}
    (hc : Completes psaEnv (sessionDecrypt c s input outCap) h q) :
    q = .ret (opened c s input) := by
  have hd : decrypted c s input outCap = .ok (opened c s input) := by
    unfold decrypted
    rw [if_neg (by omega)]
  have hwp : wp psaContract (sessionDecrypt c s input outCap)
      (fun out _ => out = opened c s input) (fun _ h => False ∨ PsaFault h) [] := by
    refine wp_sessionDecrypt permits_psa ?_ ?_ ?_
    · intro out _ _ hout
      rw [hd] at hout
      exact (Except.ok.inj hout).symm
    · intro err _ _ herr
      rw [hd] at herr
      cases herr
    · intro h' _ hf
      exact .inr hf
  rcases completes_psa hwp hc with ⟨out, rfl, rfl⟩ | ⟨err, -, hfalse⟩
  · rfl
  · exact hfalse.elim

/-! ## The round trip -/

theorem extractFrom_packetFrame (hfit : payload.length ≤ 282) :
    (extractFrom (packetFrame c s src dst cmdSet cmdId payload)).1 =
        some ⟨frameData, sealed c s (innerBytes src dst cmdSet cmdId payload)⟩ ∧
      (extractFrom (packetFrame c s src dst cmdSet cmdId payload)).2.data = [] := by
  have hlen : (sealed c s (innerBytes src dst cmdSet cmdId payload)).length ≤ 4094 := by
    rw [sealed_length, innerBytes_length]
    unfold innerOverhead innerHeaderLen
    omega
  have htype : frameData < 16 := by decide
  have hnext := next_encode ⟨⟨frameData, _⟩, htype, hlen⟩ []
  rw [List.append_nil] at hnext
  exact Prod.mk.inj ((extractFrom_next _).symm.trans hnext)

/-- **Commands decode back to themselves.** A payload of at most 282 bytes leads to exactly one
write. Its bytes hold one DATA frame and nothing else, whose decryption into 304 bytes or more
parses as the packet that was sent. A longer payload is refused before any call. -/
theorem command_roundtrip (c : Crypto) (hinv : c.Invertible) (s : Session)
    (src dst cmdSet cmdId : UInt8) (payload : Bytes) (hsize : payload.length + 18 < 2 ^ 32) :
    (payload.length ≤ 282 → ∀ h q,
      Completes psaEnv (sendInnerEncrypted c s src dst cmdSet cmdId payload) h q →
      ∃ d err enc, writes h = [(d, err)] ∧ (q = if err = .ok then .ret () else .throw err) ∧
        (extractFrom d).1 = some ⟨frameData, enc⟩ ∧ (extractFrom d).2.data = [] ∧
        ∀ outCap, 304 ≤ outCap → ∀ h' q', Completes psaEnv (sessionDecrypt c s enc outCap) h' q' →
          ∃ plain, q' = .ret plain ∧ innerParse plain = some ⟨src, dst, cmdSet, cmdId, payload⟩) ∧
    (282 < payload.length →
      sendInnerEncrypted c s src dst cmdSet cmdId payload = .throw .invalidSize) := by
  constructor
  · intro hfit h q hc
    obtain ⟨err, hw, hq⟩ := completes_sendInnerEncrypted hfit hc
    obtain ⟨hframe, hrest⟩ := @extractFrom_packetFrame c s src dst cmdSet cmdId payload hfit
    refine ⟨_, err, _, hw, hq, hframe, hrest, fun outCap hcap h' q' hc' => ?_⟩
    have hlen : (sealed c s (innerBytes src dst cmdSet cmdId payload)).length ≤ outCap := by
      rw [sealed_length, innerBytes_length]
      unfold innerOverhead innerHeaderLen
      omega
    refine ⟨_, completes_sessionDecrypt ((Nat.sub_le _ _).trans hlen) hc', ?_⟩
    rw [opened_sealed hinv]
    exact innerParse_built (by omega)
  · intro hlong
    unfold sendInnerEncrypted
    rw [innerBuild_eq_none]
    rw [sizeT_of_lt (by unfold innerOverhead innerHeaderLen; omega)]
    unfold innerOverhead innerHeaderLen
    omega

/-- The command that switches the AC output on. -/
theorem command_roundtrip_ac :
    let p := setAcOutput Sample.crypto Sample.session true
    let payload : Bytes := [1, 0xFF, 0xFF, 0xFF, 0xFF, 0xFF, 0xFF]
    ∃ d err enc, writes (replay (Sample.ourPub, Sample.priv) [] p).1 = [(d, err)] ∧
      (Prog.ret () = if err = .ok then (.ret () : Fw Unit) else .throw err) ∧
      (extractFrom d).1 = some ⟨frameData, enc⟩ ∧ (extractFrom d).2.data = [] ∧
      ∀ outCap, 304 ≤ outCap → ∀ h' q',
        Completes psaEnv (sessionDecrypt Sample.crypto Sample.session enc outCap) h' q' →
          ∃ plain, q' = .ret plain ∧
            innerParse plain = some ⟨addrApp, addrMppt, 0x20, 0x42, payload⟩ := by
  intro p payload
  have hret : (replay (Sample.ourPub, Sample.priv) [] p).2 = .ret () :=
    eq_ret_of_result? (by decide +kernel)
  exact (command_roundtrip Sample.crypto Sample.record.crypto_invertible Sample.session addrApp
    addrMppt 0x20 0x42 payload (by decide)).1 (by decide) _ _ (completes_replay admits_psaEnv hret)

end River2
