import Mathlib

/-!
# Programs that call their environment

A program returns, raises an error, calls its environment and goes on with the answer, or has used
up the rounds its loops are modelled with (`spin`). A history is the list of the answered calls.

1. `Step`, `Reach` run a program against an environment: `env h e a` says that after the history
   `h` the call `e` may be answered by `a`. `exists_stuck`: every program runs until it ends or the
   environment has no answer.
2. `wp` is the weakest precondition over histories; a `Contract` says what the environment answers,
   what a call needs, and what holds when the rounds are used up. `wp_reach` is its soundness.
3. `reach_loop`: the states of a run of a loop lie in rounds that began with the invariant.
4. `interp` runs a program whose calls are programs; `reach_interp`: its runs lie over the runs of
   the program.
5. `inl` takes a program among the programs with calls of a second kind; `reach_inl`: its runs are
   those of the program.
6. A program that makes calls of one kind `Only` keeps what such calls keep: `wp_only`.
7. A program that `Heeds` failures makes no call but cleanup after a failed one: `wp_heeds`.
8. `simulate` runs a program against a given environment.
-/

variable {E : Type} {A : E → Type} {ε ε' α β σ : Type}

abbrev Event (A : E → Type) := Σ e, A e

/-- A program over the calls `E` with answers `A`, which raises errors in `ε` and returns `α`. -/
inductive Prog (E : Type) (A : E → Type) (ε α : Type) where
  | ret (a : α)
  | throw (e : ε)
  | call (e : E) (k : A e → Prog E A ε α)
  | spin

namespace Prog

/-! ## Combinators -/

def bind : Prog E A ε α → (α → Prog E A ε β) → Prog E A ε β
  | ret a, k => k a
  | throw e, _ => throw e
  | call e k, k' => call e fun a => (k a).bind k'
  | spin, _ => spin

instance : Monad (Prog E A ε) where
  pure := ret
  bind := bind

/-- Call the environment and return its answer. -/
def ask (e : E) : Prog E A ε (A e) := call e ret

/-- Raise the error of a computation that failed. -/
def lift : Except ε α → Prog E A ε α
  | .ok a => ret a
  | .error e => throw e

/-- Run a program and return how it ended. -/
def attempt : Prog E A ε α → Prog E A ε' (Except ε α)
  | ret a => ret (.ok a)
  | throw e => ret (.error e)
  | call e k => call e fun a => (k a).attempt
  | spin => spin

/-- Repeat the body until it returns a result; at most `fuel` times. -/
def loop (body : σ → Prog E A ε (σ ⊕ α)) : ℕ → σ → Prog E A ε α
  | 0, _ => spin
  | fuel + 1, s =>
    (body s).bind fun
      | .inl s => loop body fuel s
      | .inr a => ret a

/-- How a program that has ended ended. -/
def result? : Prog E A ε α → Option (Except ε α)
  | ret a => some (.ok a)
  | throw e => some (.error e)
  | _ => none

theorem eq_ret_of_result? {p : Prog E A ε α} {a : α} (h : p.result? = some (.ok a)) :
    p = ret a := by
  cases p <;> cases h
  rfl

/-- The call a program is at. -/
def next? : Prog E A ε α → Option E
  | call e _ => some e
  | _ => none

/-- What is left of a program once the call it is at is answered. -/
def resume [DecidableEq E] (p : Prog E A ε α) (e : E) (a : A e) : Prog E A ε α :=
  match p with
  | call e' k => if h : e = e' then k (h ▸ a) else call e' k
  | p => p

theorem resume_call [DecidableEq E] {e : E} (k : A e → Prog E A ε α) (a : A e) :
    (call e k).resume e a = k a := by
  simp [resume]

theorem eq_call_of_next? [DecidableEq E] {p : Prog E A ε α} {e : E} (h : p.next? = some e) :
    p = call e fun a => p.resume e a := by
  cases p with
  | call e' k =>
    cases h
    simp only [resume_call]
  | _ => cases h

/-! ## Runs -/

/-- The environment: whether a call may be answered so after a history. -/
abbrev Env (A : E → Type) := List (Event A) → (e : E) → A e → Prop

/-- The environment that answers anything. -/
def anyEnv : Env A := fun _ _ _ => True

/-- A call is answered. -/
inductive Step (env : Env A) :
    List (Event A) × Prog E A ε α → List (Event A) × Prog E A ε α → Prop where
  | answer {h e k a} (hans : env h e a) : Step env (h, .call e k) (h ++ [⟨e, a⟩], k a)

abbrev Reach (env : Env A) (s t : List (Event A) × Prog E A ε α) : Prop :=
  Relation.ReflTransGen (Step env) s t

theorem Reach.mono {env env' : Env A} {s t : List (Event A) × Prog E A ε α}
    (henv : ∀ h e a, env h e a → env' h e a) (hr : Reach env s t) : Reach env' s t := by
  refine Relation.ReflTransGen.mono ?_ _ _ hr
  rintro _ _ ⟨hans⟩
  exact .answer (henv _ _ _ hans)

theorem Reach.exists_append {env : Env A} {h h' : List (Event A)} {p p' : Prog E A ε α}
    (hr : Reach env (h, p) (h', p')) : ∃ es, h' = h ++ es := by
  generalize ht : (h', p') = t at hr
  induction hr generalizing h' p' with
  | refl =>
    cases ht
    exact ⟨[], (List.append_nil h).symm⟩
  | @tail b _ _ hs ih =>
    obtain ⟨hb, pb⟩ := b
    subst ht
    obtain ⟨es, hes⟩ := ih rfl
    cases hs with
    | answer hans => exact ⟨es ++ [_], by rw [hes, List.append_assoc]⟩

/-- The end of a run, or the point where the environment has no answer. -/
def Stuck (env : Env A) (t : List (Event A) × Prog E A ε α) : Prop :=
  ∀ e k, t.2 = .call e k → ∀ a, ¬ env t.1 e a

/-- A complete run of a program. -/
def Completes (env : Env A) (p : Prog E A ε α) (h : List (Event A)) (q : Prog E A ε α) : Prop :=
  Reach env ([], p) (h, q) ∧ Stuck env (h, q)

theorem exists_stuck (env : Env A) (p : Prog E A ε α) (h : List (Event A)) :
    ∃ t, Reach env (h, p) t ∧ Stuck env t := by
  induction p generalizing h with
  | ret a => exact ⟨_, .refl, by rintro e k ⟨⟩⟩
  | throw e => exact ⟨_, .refl, by rintro e k ⟨⟩⟩
  | spin => exact ⟨_, .refl, by rintro e k ⟨⟩⟩
  | call e k ih =>
    by_cases hans : ∃ a, env h e a
    · obtain ⟨a, ha⟩ := hans
      obtain ⟨t, hr, ht⟩ := ih a (h ++ [⟨e, a⟩])
      exact ⟨t, .head (.answer ha) hr, ht⟩
    · refine ⟨_, .refl, ?_⟩
      rintro e' k' heq a ha
      cases heq
      exact hans ⟨a, ha⟩

/-! ## Weakest preconditions -/

/-- What a specification assumes of the environment, what every call needs, and what holds when the
rounds are used up. -/
structure Contract (E : Type) (A : E → Type) where
  env : Env A
  pre : List (Event A) → E → Prop
  out : List (Event A) → Prop

/-- `Q` holds when the program returns, `R` when it raises an error. -/
def wp (C : Contract E A) :
    Prog E A ε α → (α → List (Event A) → Prop) → (ε → List (Event A) → Prop) →
      List (Event A) → Prop
  | ret a, Q, _, h => Q a h
  | throw e, _, R, h => R e h
  | call e k, Q, R, h => C.pre h e ∧ ∀ a, C.env h e a → wp C (k a) Q R (h ++ [⟨e, a⟩])
  | spin, _, _, h => C.out h

variable {C : Contract E A} {h : List (Event A)}

@[simp] theorem wp_ret {a : α} {Q R} : wp C (ret a : Prog E A ε α) Q R h ↔ Q a h := Iff.rfl

@[simp] theorem wp_pure {a : α} {Q R} : wp C (pure a : Prog E A ε α) Q R h ↔ Q a h := Iff.rfl

@[simp] theorem wp_throw {e : ε} {Q : α → List (Event A) → Prop} {R} :
    wp C (throw e) Q R h ↔ R e h := Iff.rfl

theorem wp_mono {p : Prog E A ε α} {Q Q' : α → List (Event A) → Prop}
    {R R' : ε → List (Event A) → Prop} (hp : wp C p Q R h) (hQ : ∀ a h, Q a h → Q' a h)
    (hR : ∀ e h, R e h → R' e h) : wp C p Q' R' h := by
  induction p generalizing h with
  | ret a => exact hQ a h hp
  | throw e => exact hR e h hp
  | call e k ih => exact ⟨hp.1, fun a ha => ih a (hp.2 a ha)⟩
  | spin => exact hp

theorem wp_bind {p : Prog E A ε α} {k : α → Prog E A ε β} {Q R} :
    wp C (p.bind k) Q R h ↔ wp C p (fun a h => wp C (k a) Q R h) R h := by
  induction p generalizing h with
  | ret a => exact Iff.rfl
  | throw e => exact Iff.rfl
  | spin => exact Iff.rfl
  | call e k' ih =>
    exact and_congr_right fun _ => forall_congr' fun a => imp_congr_right fun _ => ih a

@[simp] theorem wp_do {p : Prog E A ε α} {k : α → Prog E A ε β} {Q R} :
    wp C (p >>= k) Q R h ↔ wp C p (fun a h => wp C (k a) Q R h) R h := wp_bind

theorem wp_ask {e : E} {Q : A e → List (Event A) → Prop} {R : ε → List (Event A) → Prop} :
    wp C (ask e) Q R h ↔ C.pre h e ∧ ∀ a, C.env h e a → Q a (h ++ [⟨e, a⟩]) := Iff.rfl

theorem wp_attempt {p : Prog E A ε α} {Q : Except ε α → List (Event A) → Prop}
    {R : ε' → List (Event A) → Prop} :
    wp C p.attempt Q R h ↔ wp C p (fun a => Q (.ok a)) (fun e => Q (.error e)) h := by
  induction p generalizing h with
  | ret a => exact Iff.rfl
  | throw e => exact Iff.rfl
  | spin => exact Iff.rfl
  | call e k ih =>
    exact and_congr_right fun _ => forall_congr' fun a => imp_congr_right fun _ => ih a

theorem wp_lift {x : Except ε α} {Q R} (hok : ∀ a, x = .ok a → Q a h)
    (herr : ∀ e, x = .error e → R e h) : wp C (lift x) Q R h := by
  cases x with
  | ok a => exact hok a rfl
  | error e => exact herr e rfl

/-- **The loop rule.** The invariant speaks about the rounds that are left. -/
theorem wp_loop {body : σ → Prog E A ε (σ ⊕ α)} {Q R} (I : ℕ → σ → List (Event A) → Prop)
    (hout : ∀ s h, I 0 s h → C.out h)
    (hbody : ∀ n s h, I (n + 1) s h →
      wp C (body s) (fun r h => match r with | .inl s => I n s h | .inr a => Q a h) R h)
    {fuel : ℕ} {s : σ} (hI : I fuel s h) : wp C (loop body fuel s) Q R h := by
  induction fuel generalizing s h with
  | zero => exact hout s h hI
  | succ n ih =>
    refine wp_bind.mpr (wp_mono (hbody n s h hI) ?_ fun _ _ hR => hR)
    rintro (s' | a) h' hr
    · exact ih hr
    · exact hr

/-! ## Soundness -/

theorem wp_step {p p' : Prog E A ε α} {Q R} {h' : List (Event A)} (hp : wp C p Q R h)
    (hs : Step C.env (h, p) (h', p')) : wp C p' Q R h' := by
  cases hs with
  | answer hans => exact hp.2 _ hans

/-- **Soundness.** What is left to run still meets the specification. -/
theorem wp_reach {p p' : Prog E A ε α} {Q R} {h' : List (Event A)} (hp : wp C p Q R h)
    (hr : Reach C.env (h, p) (h', p')) : wp C p' Q R h' := by
  generalize ht : (h', p') = t at hr
  induction hr generalizing h' p' with
  | refl =>
    cases ht
    exact hp
  | tail _ hs ih =>
    subst ht
    exact wp_step (ih rfl) hs

/-- Every call of a history met its precondition and was answered as the environment answers. -/
def Logged (C : Contract E A) (h : List (Event A)) : Prop :=
  ∀ h₁ ev h₂, h = h₁ ++ ev :: h₂ → C.pre h₁ ev.1 ∧ C.env h₁ ev.1 ev.2

theorem logged_nil : Logged C [] := by
  intro h₁ ev h₂ heq
  exact absurd heq.symm (by simp)

theorem logged_snoc {ev : Event A} (hlog : Logged C h) (hpre : C.pre h ev.1)
    (hans : C.env h ev.1 ev.2) : Logged C (h ++ [ev]) := by
  intro h₁ ev' h₂ heq
  rcases List.eq_nil_or_concat h₂ with rfl | ⟨h₃, ev₂, rfl⟩
  · obtain ⟨rfl, hev⟩ := List.append_inj' heq rfl
    cases hev
    exact ⟨hpre, hans⟩
  · rw [List.concat_eq_append, ← List.cons_append, ← List.append_assoc] at heq
    exact hlog h₁ ev' h₃ (List.append_inj' heq rfl).1

theorem Logged.of_append {h' : List (Event A)} (hlog : Logged C (h ++ h')) : Logged C h := by
  intro h₁ ev h₂ heq
  exact hlog h₁ ev (h₂ ++ h') (by rw [heq, List.append_assoc]; rfl)

theorem logged_reach {p p' : Prog E A ε α} {Q R} {h' : List (Event A)} (hp : wp C p Q R h)
    (hr : Reach C.env (h, p) (h', p')) (hlog : Logged C h) : Logged C h' := by
  generalize ht : (h', p') = t at hr
  induction hr generalizing h' p' with
  | refl =>
    cases ht
    exact hlog
  | @tail b _ hrb hs ih =>
    obtain ⟨hb, pb⟩ := b
    subst ht
    have hwp := wp_reach hp hrb
    cases hs with
    | answer hans => exact logged_snoc (ih rfl) hwp.1 hans

/-- Nothing is promised, and nothing known but the environment. -/
def freeContract (env : Env A) : Contract E A where
  env := env
  pre := fun _ _ => True
  out := fun _ => True

theorem wp_free (env : Env A) (p : Prog E A ε α) (h : List (Event A)) :
    wp (freeContract env) p (fun _ _ => True) (fun _ _ => True) h := by
  induction p generalizing h with
  | ret a => trivial
  | throw e => trivial
  | call e k ih => exact ⟨trivial, fun a _ => ih a _⟩
  | spin => trivial

theorem logged_free {env : Env A} {p q : Prog E A ε α} {h : List (Event A)}
    (hr : Reach env ([], p) (h, q)) : Logged (freeContract env) h :=
  logged_reach (C := freeContract env) (wp_free env p []) hr logged_nil

/-- How a complete run ends, if the environment answers the calls the contract lets through. -/
theorem wp_completes {p q : Prog E A ε α} {Q R} (hp : wp C p Q R []) (hc : Completes C.env p h q)
    (hans : ∀ e, C.pre h e → ∃ a, C.env h e a) (hout : ¬ C.out h) :
    (∃ a, q = ret a ∧ Q a h) ∨ ∃ e, q = throw e ∧ R e h := by
  obtain ⟨hr, hstuck⟩ := hc
  have hq := wp_reach hp hr
  cases q with
  | ret a => exact .inl ⟨a, rfl, hq⟩
  | throw e => exact .inr ⟨e, rfl, hq⟩
  | call e k =>
    obtain ⟨a, ha⟩ := hans e hq.1
    exact absurd ha (hstuck e k rfl a)
  | spin => exact absurd hq hout

/-- A run whose answers another environment gives too is a run against that environment. -/
theorem Reach.restrict {env env' : Env A} {p p' : Prog E A ε α} {h' : List (Event A)}
    (hr : Reach env (h, p) (h', p'))
    (hans : ∀ h₁ ev h₂, h' = h₁ ++ ev :: h₂ → env' h₁ ev.1 ev.2) : Reach env' (h, p) (h', p') := by
  generalize ht : (h', p') = t at hr
  induction hr generalizing h' p' with
  | refl =>
    cases ht
    exact .refl
  | @tail b _ _ hs ih =>
    obtain ⟨hb, pb⟩ := b
    subst ht
    cases hs with
    | @answer _ e k a _ =>
      refine .tail (ih (fun h₁ ev h₂ heq => ?_) rfl) (.answer (hans hb ⟨e, a⟩ [] rfl))
      exact hans h₁ ev (h₂ ++ [⟨e, a⟩]) (by rw [heq, List.append_assoc]; rfl)

/-! ## Rounds -/

theorem eq_of_reach_ret {env : Env A} {a : α} {q : Prog E A ε α} {h' : List (Event A)}
    (hr : Reach env (h, ret a) (h', q)) : h' = h ∧ q = ret a := by
  rcases Relation.ReflTransGen.cases_head hr with heq | ⟨_, hs, -⟩
  · cases heq
    exact ⟨rfl, rfl⟩
  · cases hs

/-- A run of two programs in sequence is still in the first, or has left it. -/
theorem reach_bind {env : Env A} {p : Prog E A ε α} {k : α → Prog E A ε β} {q : Prog E A ε β}
    {h' : List (Event A)} (hr : Reach env (h, p.bind k) (h', q)) :
    (∃ p', Reach env (h, p) (h', p') ∧ q = p'.bind k) ∨
      ∃ a h₁, Reach env (h, p) (h₁, ret a) ∧ Reach env (h₁, k a) (h', q) := by
  generalize ht : (h', q) = t at hr
  induction hr generalizing h' q with
  | refl =>
    cases ht
    exact Or.inl ⟨p, .refl, rfl⟩
  | @tail b _ _ hs ih =>
    obtain ⟨hb, pb⟩ := b
    subst ht
    rcases ih rfl with ⟨p', hp', rfl⟩ | ⟨a, h₁, hp, hk⟩
    · cases p' with
      | ret a => exact Or.inr ⟨a, hb, hp', .single hs⟩
      | throw e => cases hs
      | spin => cases hs
      | call e k' =>
        cases hs with
        | answer hans => exact Or.inl ⟨_, hp'.tail (.answer hans), rfl⟩
    · exact Or.inr ⟨a, h₁, hp, hk.tail hs⟩

/-- What follows a round of a loop with `n` rounds left. -/
def again (body : σ → Prog E A ε (σ ⊕ α)) (n : ℕ) : σ ⊕ α → Prog E A ε α
  | .inl s => loop body n s
  | .inr a => ret a

theorem loop_succ (body : σ → Prog E A ε (σ ⊕ α)) (n : ℕ) (s : σ) :
    loop body (n + 1) s = (body s).bind (again body n) :=
  congrArg (bind (body s)) (funext fun r => by cases r <;> rfl)

/-- A run of a loop is in a round that began with the invariant, or the rounds are used up. -/
theorem reach_loop {body : σ → Prog E A ε (σ ⊕ α)} {I : ℕ → σ → List (Event A) → Prop}
    {R : ε → List (Event A) → Prop}
    (hbody : ∀ n s h, I (n + 1) s h →
      wp C (body s) (fun r h => match r with | .inl s => I n s h | .inr _ => True) R h)
    {n : ℕ} {s : σ} {q : Prog E A ε α} {h' : List (Event A)} (hI : I n s h)
    (hr : Reach C.env (h, loop body n s) (h', q)) :
    q = spin ∨ ∃ m s' h₁ p, I (m + 1) s' h₁ ∧ Reach C.env (h₁, body s') (h', p) ∧
      q = p.bind (again body m) := by
  induction n generalizing s h with
  | zero =>
    rcases Relation.ReflTransGen.cases_head hr with heq | ⟨_, hs, -⟩
    · cases heq
      exact Or.inl rfl
    · cases hs
  | succ n ih =>
    rw [loop_succ] at hr
    rcases reach_bind hr with ⟨p, hp, rfl⟩ | ⟨r, h₁, hp, hrest⟩
    · exact Or.inr ⟨n, s, h, p, hI, hp, rfl⟩
    · cases r with
      | inl s' => exact ih (wp_reach (hbody n s h hI) hp) hrest
      | inr a =>
        obtain ⟨rfl, rfl⟩ := eq_of_reach_ret hrest
        exact Or.inr ⟨n, s, h, _, hI, hp, rfl⟩

/-! ## Interpretation -/

section Interp

variable {E' : Type} {A' : E' → Type} {γ : Type}

theorem bind_ret (p : Prog E A ε α) : p.bind ret = p := by
  induction p with
  | call e k ih => exact congrArg (call e) (funext ih)
  | _ => rfl

theorem bind_assoc (p : Prog E A ε α) (f : α → Prog E A ε β) (g : β → Prog E A ε γ) :
    (p.bind f).bind g = p.bind fun a => (f a).bind g := by
  induction p with
  | call e k ih => exact congrArg (call e) (funext ih)
  | _ => rfl

/-- Run a program whose calls are programs. -/
def interp (f : (e : E) → Prog E' A' ε (A e)) : Prog E A ε α → Prog E' A' ε α
  | ret a => ret a
  | throw e => throw e
  | call e k => (f e).bind fun a => (k a).interp f
  | spin => spin

variable {f : (e : E) → Prog E' A' ε (A e)}

theorem interp_bind (p : Prog E A ε α) (k : α → Prog E A ε β) :
    (p.bind k).interp f = (p.interp f).bind fun a => (k a).interp f := by
  induction p with
  | call e k' ih =>
    show (f e).bind (fun a => ((k' a).bind k).interp f) = _
    rw [funext ih]
    exact (bind_assoc _ _ _).symm
  | _ => rfl

theorem interp_do (p : Prog E A ε α) (k : α → Prog E A ε β) :
    (p >>= k).interp f = p.interp f >>= fun a => (k a).interp f := interp_bind p k

theorem interp_ask (e : E) : (ask e : Prog E A ε (A e)).interp f = f e := bind_ret (f e)

theorem interp_loop (body : σ → Prog E A ε (σ ⊕ α)) (n : ℕ) (s : σ) :
    (loop body n s).interp f = loop (fun s => (body s).interp f) n s := by
  induction n generalizing s with
  | zero => rfl
  | succ n ih =>
    rw [loop_succ, loop_succ, interp_bind]
    refine congrArg (bind _) (funext fun r => ?_)
    cases r with
    | inl s' => exact ih s'
    | inr a => rfl

/-- A run of an interpreted program lies over a run of the program: it is between two of its calls,
or inside the program of one. -/
theorem reach_interp {env : Env A'} {p : Prog E A ε α} {q : Prog E' A' ε α} {h h' : List (Event A')}
    (H : List (Event A)) (hr : Reach env (h, p.interp f) (h', q)) :
    ∃ H' p', Reach anyEnv (H, p) (H', p') ∧ (q = p'.interp f ∨
      ∃ e k h₁ r, p' = call e k ∧ Reach env (h₁, f e) (h', r) ∧
        q = r.bind fun a => (k a).interp f) := by
  induction p generalizing H h with
  | call e k ih =>
    rcases reach_bind hr with ⟨r, hr', rfl⟩ | ⟨a, h₁, -, hrest⟩
    · exact ⟨H, call e k, .refl, .inr ⟨e, k, h, r, rfl, hr', rfl⟩⟩
    · obtain ⟨H', p', hreach, hq⟩ := ih a (H ++ [⟨e, a⟩]) hrest
      exact ⟨H', p', .head (.answer trivial) hreach, hq⟩
  | ret a =>
    obtain ⟨-, rfl⟩ := eq_of_reach_ret hr
    exact ⟨H, ret a, .refl, .inl rfl⟩
  | throw e =>
    rcases Relation.ReflTransGen.cases_head hr with heq | ⟨_, hs, -⟩
    · cases heq
      exact ⟨H, throw e, .refl, .inl rfl⟩
    · cases hs
  | spin =>
    rcases Relation.ReflTransGen.cases_head hr with heq | ⟨_, hs, -⟩
    · cases heq
      exact ⟨H, spin, .refl, .inl rfl⟩
    · cases hs

end Interp

/-! ## Two kinds of calls -/

section Sum

variable {E' : Type} {A' : E' → Type}

/-- The answers of two kinds of calls. -/
@[reducible] def SumAnswer (A : E → Type) (A' : E' → Type) : E ⊕ E' → Type
  | .inl e => A e
  | .inr e => A' e

/-- A program that makes calls of the first kind only. -/
def inl : Prog E A ε α → Prog (E ⊕ E') (SumAnswer A A') ε α
  | ret a => ret a
  | throw e => throw e
  | call e k => call (.inl e) fun a => (k a).inl
  | spin => spin

def inlEvents (h : List (Event A)) : List (Event (SumAnswer A A')) :=
  h.map fun ev => ⟨.inl ev.1, ev.2⟩

/-- The events of the first kind. -/
def lefts (h : List (Event (SumAnswer A A'))) : List (Event A) :=
  h.filterMap fun
    | ⟨.inl e, a⟩ => some ⟨e, a⟩
    | ⟨.inr _, _⟩ => none

@[simp] theorem lefts_append (h h' : List (Event (SumAnswer A A'))) :
    lefts (h ++ h') = lefts h ++ lefts h' := List.filterMap_append

/-- What calls of the first kind keep holds after a program that makes no others. -/
theorem wp_inl {C : Contract (E ⊕ E') (SumAnswer A A')}
    {J : List (Event (SumAnswer A A')) → Prop} {p : Prog E A ε α}
    {H : List (Event (SumAnswer A A'))} (hpre : ∀ H e, J H → C.pre H (.inl e))
    (hout : ∀ H, C.out H) (hJ : ∀ H e (a : A e), J H → J (H ++ [⟨.inl e, a⟩])) (hH : J H) :
    wp C p.inl (fun _ => J) (fun _ => J) H := by
  induction p generalizing H with
  | ret a => exact hH
  | throw e => exact hH
  | spin => exact hout H
  | call e k ih => exact ⟨hpre H e hH, fun a _ => ih a (hJ H e a hH)⟩

end Sum

/-! ## Calls of a kind -/

section Only

variable {P : E → Prop}

/-- The program makes calls of one kind only. -/
def Only (P : E → Prop) : Prog E A ε α → Prop
  | call e k => P e ∧ ∀ a, Only P (k a)
  | _ => True

theorem only_bind {p : Prog E A ε α} {k : α → Prog E A ε β} (hp : Only P p)
    (hk : ∀ a, Only P (k a)) : Only P (p.bind k) := by
  induction p with
  | ret a => exact hk a
  | throw e => trivial
  | spin => trivial
  | call e k' ih => exact ⟨hp.1, fun a => ih a (hp.2 a)⟩

theorem only_do {p : Prog E A ε α} {k : α → Prog E A ε β} (hp : Only P p)
    (hk : ∀ a, Only P (k a)) : Only P (p >>= k) := only_bind hp hk

theorem only_ask {e : E} (he : P e) : Only P (ask e : Prog E A ε (A e)) := ⟨he, fun _ => trivial⟩

theorem only_lift (x : Except ε α) : Only P (lift x : Prog E A ε α) := by
  cases x <;> trivial

theorem only_attempt {p : Prog E A ε α} (hp : Only P p) :
    Only P (p.attempt : Prog E A ε' (Except ε α)) := by
  induction p with
  | ret a => trivial
  | throw e => trivial
  | spin => trivial
  | call e k ih => exact ⟨hp.1, fun a => ih a (hp.2 a)⟩

/-- What calls of the kind keep holds at the end if it holds at the beginning. -/
theorem wp_only {J : List (Event A) → Prop} {p : Prog E A ε α} (hp : Only P p)
    (hpre : ∀ h e, P e → C.pre h e) (hout : ∀ h, C.out h)
    (hJ : ∀ h e a, P e → J h → J (h ++ [⟨e, a⟩])) (hh : J h) :
    wp C p (fun _ => J) (fun _ => J) h := by
  induction p generalizing h with
  | ret a => exact hh
  | throw e => exact hh
  | spin => exact hout h
  | call e k ih => exact ⟨hpre h e hp.1, fun a _ => ih a (hp.2 a) (hJ h e a hp.1 hh)⟩

end Only

/-! ## Failures -/

section Heeds

variable {F : Event A → Prop} {D : E → Prop} {P : ε → Prop}

/-- The program makes cleanup calls only, and raises an error with the property `P`. -/
def Fails (D : E → Prop) (P : ε → Prop) : Prog E A ε α → Prop
  | throw err => P err
  | call e k => D e ∧ ∀ a, Fails D P (k a)
  | _ => False

/-- After a failed call the program `Fails`. -/
def Heeds (F : Event A → Prop) (D : E → Prop) (P : ε → Prop) : Prog E A ε α → Prop
  | call e k => ∀ a, (F ⟨e, a⟩ → Fails D P (k a)) ∧ Heeds F D P (k a)
  | _ => True

theorem fails_bind {p : Prog E A ε α} {k : α → Prog E A ε β} (hp : Fails D P p) :
    Fails D P (p.bind k) := by
  induction p with
  | ret a => exact hp.elim
  | throw e => exact hp
  | spin => exact hp.elim
  | call e k' ih => exact ⟨hp.1, fun a => ih a (hp.2 a)⟩

theorem heeds_bind {p : Prog E A ε α} {k : α → Prog E A ε β} (hp : Heeds F D P p)
    (hk : ∀ a, Heeds F D P (k a)) : Heeds F D P (p.bind k) := by
  induction p with
  | ret a => exact hk a
  | throw e => trivial
  | spin => trivial
  | call e k' ih =>
    intro a
    exact ⟨fun hf => fails_bind ((hp a).1 hf), ih a (hp a).2⟩

theorem heeds_do {p : Prog E A ε α} {k : α → Prog E A ε β} (hp : Heeds F D P p)
    (hk : ∀ a, Heeds F D P (k a)) : Heeds F D P (p >>= k) := heeds_bind hp hk

theorem heeds_ask {e : E} (he : ∀ a, ¬ F ⟨e, a⟩) : Heeds F D P (ask e : Prog E A ε (A e)) :=
  fun a => ⟨fun hf => absurd hf (he a), trivial⟩

theorem heeds_ask_do {e : E} {k : A e → Prog E A ε β}
    (hfail : ∀ a, F ⟨e, a⟩ → Fails D P (k a)) (hk : ∀ a, Heeds F D P (k a)) :
    Heeds F D P (ask e >>= k) :=
  fun a => ⟨hfail a, hk a⟩

theorem heeds_lift (x : Except ε α) : Heeds F D P (lift x : Prog E A ε α) := by
  cases x <;> trivial

theorem heeds_loop {body : σ → Prog E A ε (σ ⊕ α)} (hbody : ∀ s, Heeds F D P (body s)) (fuel : ℕ)
    (s : σ) : Heeds F D P (loop body fuel s) := by
  induction fuel generalizing s with
  | zero => trivial
  | succ n ih =>
    refine heeds_bind (hbody s) ?_
    rintro (s' | a)
    · exact ih s'
    · trivial

/-- Every call but cleanup is made with no call before it having failed. -/
def heedContract (env : Env A) (F : Event A → Prop) (D : E → Prop) : Contract E A where
  env := env
  pre := fun h e => D e ∨ ∀ ev ∈ h, ¬ F ev
  out := fun _ => True

theorem wp_fails {env : Env A} {p : Prog E A ε α} {Q : α → List (Event A) → Prop}
    (hp : Fails D P p) : wp (heedContract env F D) p Q (fun err _ => P err) h := by
  induction p generalizing h with
  | ret a => exact hp.elim
  | throw e => exact hp
  | spin => trivial
  | call e k ih => exact ⟨.inl hp.1, fun a _ => ih a (hp.2 a)⟩

/-- A program that heeds failures returns only if no call has failed. -/
theorem wp_heeds {env : Env A} {p : Prog E A ε α} (hp : Heeds F D P p) (hh : ∀ ev ∈ h, ¬ F ev) :
    wp (heedContract env F D) p (fun _ h' => ∀ ev ∈ h', ¬ F ev)
      (fun err h' => P err ∨ ∀ ev ∈ h', ¬ F ev) h := by
  induction p generalizing h with
  | ret a => exact hh
  | throw e => exact Or.inr hh
  | spin => trivial
  | call e k ih =>
    refine ⟨.inr hh, fun a _ => ?_⟩
    by_cases hf : F ⟨e, a⟩
    · exact wp_mono (wp_fails ((hp a).1 hf)) (fun _ _ hq => hq) fun err _ herr => .inl herr
    · refine ih a (hp a).2 fun ev hev => ?_
      rcases List.mem_append.mp hev with hev | hev
      · exact hh ev hev
      · rw [List.mem_singleton.mp hev]
        exact hf

end Heeds

/-! ## Simulation -/

/-- Run a program against a deterministic environment with state, until it ends or the environment
has no answer. -/
def simulate (handler : σ → (e : E) → Option (A e × σ)) :
    σ → List (Event A) → Prog E A ε α → σ × List (Event A) × Prog E A ε α
  | s, h, call e k =>
    match handler s e with
    | none => (s, h, call e k)
    | some (a, s) => simulate handler s (h ++ [⟨e, a⟩]) (k a)
  | s, h, p => (s, h, p)

/-- A simulation goes on from call to call. -/
theorem reaches_simulate {handler : σ → (e : E) → Option (A e × σ)}
    {r : σ × List (Event A) × Prog E A ε α → σ × List (Event A) × Prog E A ε α → Prop}
    (hcall : ∀ s h e k a s', handler s e = some (a, s') →
      r (s, h, call e k) (s', h ++ [⟨e, a⟩], k a))
    (p : Prog E A ε α) (s : σ) (h : List (Event A)) :
    Relation.ReflTransGen r (s, h, p) (simulate handler s h p) := by
  induction p generalizing s h with
  | ret a => exact .refl
  | throw e => exact .refl
  | spin => exact .refl
  | call e k ih =>
    unfold simulate
    cases hh : handler s e with
    | none => exact .refl
    | some ans => exact .head (hcall s h e k ans.1 ans.2 hh) (ih ans.1 ans.2 _)

/-- A simulation is a run, if the handler's state keeps in step with the history. -/
theorem reach_simulate_of {env : Env A} {handler : σ → (e : E) → Option (A e × σ)}
    (I : σ → List (Event A) → Prop)
    (hans : ∀ s h e a s', I s h → handler s e = some (a, s') → env h e a ∧ I s' (h ++ [⟨e, a⟩]))
    (p : Prog E A ε α) {s : σ} {h : List (Event A)} (hI : I s h) :
    Reach env (h, p) (simulate handler s h p).2 := by
  induction p generalizing s h with
  | ret a => exact .refl
  | throw e => exact .refl
  | spin => exact .refl
  | call e k ih =>
    unfold simulate
    cases hh : handler s e with
    | none => exact .refl
    | some r =>
      obtain ⟨henv, hI'⟩ := hans s h e r.1 r.2 hI hh
      exact .head (.answer henv) (ih r.1 hI')

theorem reach_simulate {env : Env A} {handler : σ → (e : E) → Option (A e × σ)}
    (hans : ∀ s e a s' h, handler s e = some (a, s') → env h e a) (p : Prog E A ε α) (s : σ)
    (h : List (Event A)) : Reach env (h, p) (simulate handler s h p).2 :=
  reach_simulate_of (fun _ _ => True) (fun s h e a s' _ hh => ⟨hans s e a s' h hh, trivial⟩) p
    trivial

end Prog
