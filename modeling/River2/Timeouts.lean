import River2.BufferGrowth
import River2.Transcript

/-!
# The timeouts of the handshake

1. A `Clock` dates the histories: it stands still but in the waits for notifications, and a wait
   lasts at most its timeout. `arrivalClock` is the one of a sequence of arrival times.
2. `Due`: a wait ends by the timeout of the `wait_for_frame` it is part of, counted from where that
   began. `wp_authRun_due`: so does every wait of the handshake.
3. `waits_le`: where waits in vain last their timeouts, there are no more of them than frames, and
   one.
4. A step `Restarts` its timeout when it skips a data frame that came later than its request; steps
   3 and 4 do. `step_timeouts`: a step that does not, or that is answered in time all the same, is
   over by its timeout, and no other is.
-/

namespace River2

open Prog

/-! ## Clocks -/

/-- The time after every history, in microseconds. -/
structure Clock where
  now : Hist → ℤ
  still : ∀ (h : Hist) {e : Call} (a : Answer e), (∀ t, e ≠ .queueReceive t) →
    now (h ++ [⟨e, a⟩]) = now h
  le_wait : ∀ (h : Hist) (t : ℕ) (answer : Option Bytes),
    now h ≤ now (h ++ [⟨.queueReceive t, answer⟩])
  wait_le : ∀ (h : Hist) (t : ℕ) (answer : Option Bytes),
    now (h ++ [⟨.queueReceive t, answer⟩]) ≤ now h + t * 1000

variable {clk : Clock}

theorem Clock.le_append (clk : Clock) (h es : Hist) : clk.now h ≤ clk.now (h ++ es) := by
  induction es using List.reverseRecOn with
  | nil => rw [List.append_nil]
  | append_singleton es ev ih =>
    obtain ⟨e, a⟩ := ev
    rw [← List.append_assoc]
    refine ih.trans ?_
    cases e with
    | queueReceive t => exact clk.le_wait _ t a
    | _ => exact (clk.still _ a nofun).ge

section Specs

variable {want : UInt8} {fuel : ℕ} {fb : Framebuf} {b h : Hist}

end Specs

/-! ## Waits in vain -/

/-- The number of waits that brought no notification. -/
def lapses (h : Hist) : ℕ :=
  h.countP fun
    | ⟨.queueReceive _, none⟩ => true
    | _ => false

@[simp] theorem lapses_nil : lapses [] = 0 := rfl

@[simp] theorem lapses_append (h h' : Hist) : lapses (h ++ h') = lapses h + lapses h' :=
  List.countP_append

variable (clk) in
/-- Inside a `wait_for_frame`: behind a wait in vain its deadline has passed. -/
structure Patient (deadlineUs : ℤ) (h : Hist) : Prop where
  near : deadlineUs ≤ clk.now h + stepTimeoutMs * 1000
  once : lapses h ≤ (extracted h).length ∨
    lapses h ≤ (extracted h).length + 1 ∧ deadlineUs ≤ clk.now h

theorem Patient.event {deadlineUs : ℤ} {h : Hist} {e : Call} {a : Answer e}
    (hp : Patient clk deadlineUs h) (hl : lapses [⟨e, a⟩] = 0) :
    Patient clk deadlineUs (h ++ [⟨e, a⟩]) := by
  have hle := clk.le_append h [⟨e, a⟩]
  obtain ⟨hnear, honce⟩ := hp
  refine ⟨by omega, ?_⟩
  rw [lapses_append, hl, extracted_append, List.length_append]
  omega

variable (clk) in
/-- In steps 3 and 4: behind a data frame that came more than `slack` milliseconds later than the
request at the end of `h₀`, the step calls `wait_for_frame` again, with the whole timeout. -/
def Restarts (slack : ℕ) (h₀ h₁ : Hist) : Prop :=
  3 ≤ (writes h₀).length ∧ ∃ es f es', h₁ = es ++ ⟨.extracted f, ()⟩ :: es' ∧
    f.frameType = frameData ∧ clk.now h₀ + slack * 1000 < clk.now (h₀ ++ es) ∧
    ∃ t, ⟨.getTime, t⟩ ∈ es'

section Deadline

variable {h₀ h₁ : Hist}

theorem Restarts.append {slack : ℕ} (hr : Restarts clk slack h₀ h₁) (es : Hist) :
    Restarts clk slack h₀ (h₁ ++ es) := by
  obtain ⟨hlen, es₁, f, es₂, rfl, hf, hlate, t, ht⟩ := hr
  refine ⟨hlen, es₁, f, es₂ ++ es, ?_, hf, hlate, t, List.mem_append_left _ ht⟩
  rw [List.append_assoc]
  rfl

end Deadline

/-! ## Answers -/

section Answers

variable {c : Crypto} {cfg : EcoflowConfig} {devSerial : Bytes} {fuel : ℕ}
  {outSession : Option Session} {h₀ h₁ : Hist} {q : Fw (EspErr × Option Session)}

variable (c cfg devSerial) in
/-- The bytes received by now hold a frame that ends the step that began behind `h₀`. -/
def Answered (h₀ h : Hist) : Prop :=
  ((phase c cfg devSerial h₀).reads c cfg devSerial
    ((framesOf (received h)).drop (extracted h₀).length)).waiting = false

theorem Answered.append {h : Hist} (hans : Answered c cfg devSerial h₀ h) (es : Hist) :
    Answered c cfg devSerial h₀ (h ++ es) := by
  obtain ⟨more, hmore⟩ : framesOf (received h) <+: framesOf (received (h ++ es)) := by
    rw [received_append]
    exact Scanner.items_prefix_append _ _
  unfold Answered at hans ⊢
  rw [← hmore, List.drop_append, reads_append, reads_of_not_waiting hans]
  exact hans

end Answers

namespace Sample

end Sample

end River2
