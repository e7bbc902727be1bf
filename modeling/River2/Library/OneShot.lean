import Mathlib

/-!
# One-shot timers

A machine with a one-shot timer takes inputs at given times, and expires when its timer is due. The
earlier comes first; of an input and an expiry at one time, either may.

`stuck_iff`: a run goes on until all inputs are taken and the timer is stopped; `exists_stuck`: and
it gets there.
-/

namespace OneShot

/-- A machine with a one-shot timer. -/
structure Machine (T I S : Type*) where
  /-- when the timer is due, if it is running -/
  due : S → Option T
  /-- what an input does -/
  input : T → I → S → S
  /-- what is done when the timer expires -/
  expire : T → S → S
  due_expire : ∀ now s, due (expire now s) = none

variable {T I S : Type*} [LinearOrder T] (m : Machine T I S)

/-- One step, beside the inputs that are still to come. -/
inductive Step : List (T × I) × S → List (T × I) × S → Prop
  | input {now : T} {i : I} {rest : List (T × I)} {s : S} (hfirst : ∀ d ∈ m.due s, now ≤ d) :
    Step ((now, i) :: rest, s) (rest, m.input now i s)
  | expire {pending : List (T × I)} {s : S} {d : T} (hdue : m.due s = some d)
    (hfirst : ∀ e ∈ pending.head?, d ≤ e.1) : Step (pending, s) (pending, m.expire d s)

abbrev Reach : List (T × I) × S → List (T × I) × S → Prop := Relation.ReflTransGen (Step m)

def Stuck (c : List (T × I) × S) : Prop := ∀ c', ¬ Step m c c'

variable {m} {now d : T} {i : I} {pending rest : List (T × I)} {s : S} {c c' : List (T × I) × S}

theorem Reach.invariant {J : List (T × I) × S → Prop} (hrun : Reach m c c') (hJ : J c)
    (hstep : ∀ c c', J c → Step m c c' → J c') : J c' := by
  induction hrun with
  | refl => exact hJ
  | tail _ hs ih => exact hstep _ _ ih hs

theorem step_cases (hstep : Step m (pending, s) c) :
    (∃ now i rest, pending = (now, i) :: rest ∧ (∀ d ∈ m.due s, now ≤ d) ∧
      c = (rest, m.input now i s)) ∨
    ∃ d, m.due s = some d ∧ (∀ e ∈ pending.head?, d ≤ e.1) ∧ c = (pending, m.expire d s) := by
  cases hstep with
  | input hfirst => exact .inl ⟨_, _, _, rfl, hfirst, rfl⟩
  | expire hdue hfirst => exact .inr ⟨_, hdue, hfirst, rfl⟩

theorem step_of_input_lt (hstep : Step m ((now, i) :: rest, s) c) (hdue : m.due s = some d)
    (hlt : now < d) : c = (rest, m.input now i s) := by
  rcases step_cases hstep with ⟨now', i', rest', hpending, -, rfl⟩ | ⟨d', hdue', hfirst, rfl⟩
  · cases hpending
    rfl
  · rw [hdue, Option.some.injEq] at hdue'
    subst hdue'
    exact absurd (hfirst (now, i) rfl) (not_le.mpr hlt)

theorem step_of_expire_lt (hstep : Step m (pending, s) c) (hdue : m.due s = some d)
    (hlt : ∀ e ∈ pending.head?, d < e.1) : c = (pending, m.expire d s) := by
  rcases step_cases hstep with ⟨now, i, rest, rfl, hfirst, rfl⟩ | ⟨d', hdue', -, rfl⟩
  · exact absurd (hfirst d hdue) (not_le.mpr (hlt (now, i) rfl))
  · rw [hdue, Option.some.injEq] at hdue'
    rw [hdue']

/-- **The end of a run.** -/
theorem stuck_iff : Stuck m (pending, s) ↔ pending = [] ∧ m.due s = none := by
  constructor
  · intro hstuck
    have hdue : m.due s = none := by
      by_contra hne
      obtain ⟨d, hd⟩ := Option.ne_none_iff_exists'.mp hne
      by_cases hfirst : ∀ e ∈ pending.head?, d ≤ e.1
      · exact hstuck _ (.expire hd hfirst)
      · push Not at hfirst
        obtain ⟨⟨now, i⟩, hhead, hlt⟩ := hfirst
        obtain ⟨rest, rfl⟩ := List.head?_eq_some_iff.mp hhead
        refine hstuck _ (.input fun d' hd' => ?_)
        rw [hd, Option.mem_some] at hd'
        exact hd' ▸ hlt.le
    refine ⟨?_, hdue⟩
    cases pending with
    | nil => rfl
    | cons e rest =>
      refine absurd (Step.input fun d' hd' => ?_) (hstuck (rest, m.input e.1 e.2 s))
      rw [hdue] at hd'
      cases hd'
  · rintro ⟨rfl, hdue⟩ c hstep
    rcases step_cases hstep with ⟨now, i, rest, hnil, -⟩ | ⟨d, hdue', -⟩
    · cases hnil
    · rw [hdue] at hdue'
      cases hdue'

/-- How many steps a run can still take. -/
def stepsLeft (m : Machine T I S) (c : List (T × I) × S) : ℕ :=
  2 * c.1.length + (m.due c.2).isSome.toNat

theorem stepsLeft_lt (hstep : Step m c c') : stepsLeft m c' < stepsLeft m c := by
  unfold stepsLeft
  cases hstep with
  | @input now i rest s _ =>
    have hle := Bool.toNat_le (m.due (m.input now i s)).isSome
    rw [List.length_cons]
    dsimp only
    omega
  | expire hdue _ =>
    rw [m.due_expire, hdue]
    exact Nat.lt_succ_self _

/-- **Every run comes to its end.** -/
theorem exists_stuck (m : Machine T I S) (c : List (T × I) × S) :
    ∃ c', Reach m c c' ∧ Stuck m c' := by
  induction hn : stepsLeft m c using Nat.strong_induction_on generalizing c with
  | _ n ih =>
    by_cases hstuck : Stuck m c
    · exact ⟨c, .refl, hstuck⟩
    · unfold Stuck at hstuck
      push Not at hstuck
      obtain ⟨c₁, hstep⟩ := hstuck
      obtain ⟨c', hrun, hend⟩ := ih _ (hn ▸ stepsLeft_lt hstep) c₁ rfl
      exact ⟨c', .head hstep hrun, hend⟩

end OneShot
