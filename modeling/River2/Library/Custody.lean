import River2.Library.Program

/-!
# Custody

Resources pass between a world and the programs that run in it. `Rules` says what a call touches,
and what its answer passes to the caller and takes from it. A program is `Tidy` if it touches and
gives away only what it has in hand, and ends with empty hands.

1. `PoolStep`: any number of programs in one world, their calls in any order.
2. `pool_balanced`: in every state reached by tidy programs, the resources that exist are those the
   world holds, those in hand, and those the world has lost.
3. `touches_le`: a call that is about to be made touches resources that exist.
-/

namespace Prog

variable {E : Type} {A : E → Type} {ε α W : Type} {Res : Type*}

/-- How calls pass resources. -/
structure Rules (A : E → Type) (Res : Type*) where
  /-- what a call needs to have in hand -/
  touches : E → Multiset Res
  /-- what an answered call passes to the caller -/
  gives : Event A → Multiset Res
  /-- what an answered call takes from the caller -/
  takes : Event A → Multiset Res

/-- A world that answers calls. -/
structure World (A : E → Type) (Res W : Type*) where
  step : W → Event A → W → Prop
  /-- the resources that exist -/
  existing : W → Multiset Res
  /-- the resources that the world holds -/
  held : W → Multiset Res
  /-- the resources that the world has lost -/
  lost : W → Multiset Res

variable [DecidableEq Res]

/-- What a program has in hand after these calls. -/
def Rules.hand (ρ : Rules A Res) (h : List (Event A)) : Multiset Res :=
  h.foldl (fun R ev => R - ρ.takes ev + ρ.gives ev) 0

/-- A program touches and gives away only what it has in hand. -/
def Rules.contract (ρ : Rules A Res) : Contract E A where
  env := anyEnv
  pre := fun h e => ρ.touches e ≤ ρ.hand h ∧ ∀ a, ρ.takes ⟨e, a⟩ ≤ ρ.hand h
  out := fun _ => True

/-- After these calls it goes on so, and ends with empty hands. -/
def Rules.TidyFrom (ρ : Rules A Res) (h : List (Event A)) (p : Prog E A ε α) : Prop :=
  wp ρ.contract p (fun _ h => ρ.hand h = 0) (fun _ h => ρ.hand h = 0) h

/-- It does so from its beginning. -/
abbrev Rules.Tidy (ρ : Rules A Res) (p : Prog E A ε α) : Prop := ρ.TidyFrom [] p

@[simp] theorem Rules.hand_nil (ρ : Rules A Res) : ρ.hand [] = 0 := rfl

theorem Rules.hand_snoc (ρ : Rules A Res) (h : List (Event A)) (ev : Event A) :
    ρ.hand (h ++ [ev]) = ρ.hand h - ρ.takes ev + ρ.gives ev := List.foldl_concat ..

section Hands

variable {ρ : Rules A Res} {h : List (Event A)} {ev : Event A} {x : Res} {e : E}
  {Q : A e → List (Event A) → Prop} {R : ε → List (Event A) → Prop}

theorem hand_idle (htakes : ρ.takes ev = 0) (hgives : ρ.gives ev = 0) :
    ρ.hand (h ++ [ev]) = ρ.hand h := by
  rw [Rules.hand_snoc, htakes, hgives, Multiset.sub_zero, add_zero]

theorem hand_given (hhand : ρ.hand h = 0) (hgives : ρ.gives ev = {x}) :
    ρ.hand (h ++ [ev]) = {x} := by
  rw [Rules.hand_snoc, hhand, hgives, Multiset.zero_sub, zero_add]

theorem hand_taken (hhand : ρ.hand h = {x}) (htakes : ρ.takes ev = {x})
    (hgives : ρ.gives ev = 0) : ρ.hand (h ++ [ev]) = 0 := by
  rw [Rules.hand_snoc, hhand, htakes, hgives, tsub_self, add_zero]

theorem wp_idle (htouches : ρ.touches e = 0) (htakes : ∀ a, ρ.takes ⟨e, a⟩ = 0)
    (hQ : ∀ a, Q a (h ++ [⟨e, a⟩])) : wp ρ.contract (ask e : Prog E A ε (A e)) Q R h := by
  refine wp_ask.mpr ⟨⟨?_, fun a => ?_⟩, fun a _ => hQ a⟩
  · rw [htouches]
    exact Multiset.zero_le _
  · rw [htakes]
    exact Multiset.zero_le _

theorem wp_use (hhand : ρ.hand h = {x}) (htouches : ρ.touches e = {x})
    (htakes : ∀ a, ρ.takes ⟨e, a⟩ ≤ {x}) (hQ : ∀ a, Q a (h ++ [⟨e, a⟩])) :
    wp ρ.contract (ask e : Prog E A ε (A e)) Q R h := by
  refine wp_ask.mpr ⟨⟨?_, fun a => ?_⟩, fun a _ => hQ a⟩
  · rw [htouches, hhand]
  · rw [hhand]
    exact htakes a

end Hands

/-! ## Pools -/

/-- A program in a run, with the calls it has made. -/
abbrev Thread (A : E → Type) (ε α : Type) := List (Event A) × Prog E A ε α

/-- One step of a pool: a program starts, makes a call, or is over. -/
inductive PoolStep (world : World A Res W) (ops : Prog E A ε α → Prop) :
    W × List (Thread A ε α) → W × List (Thread A ε α) → Prop where
  | start {w ts p} (hp : ops p) : PoolStep world ops (w, ts) (w, ts ++ [([], p)])
  | call {w w' e a} {k : A e → Prog E A ε α} {h earlier later} (hw : world.step w ⟨e, a⟩ w') :
    PoolStep world ops (w, earlier ++ (h, .call e k) :: later)
      (w', earlier ++ (h ++ [⟨e, a⟩], k a) :: later)
  | finish {w p h earlier later} (hp : p.result?.isSome) :
    PoolStep world ops (w, earlier ++ (h, p) :: later) (w, earlier ++ later)

abbrev PoolReach (world : World A Res W) (ops : Prog E A ε α → Prop) :
    W × List (Thread A ε α) → W × List (Thread A ε α) → Prop :=
  Relation.ReflTransGen (PoolStep world ops)

/-- What the programs of a pool have in hand. -/
def Rules.inHand (ρ : Rules A Res) (ts : List (Thread A ε α)) : Multiset Res :=
  (ts.map fun t => ρ.hand t.1).sum

/-- The world passes on what the rules say, while calls touch resources that exist. -/
def Rules.Followed (ρ : Rules A Res) (world : World A Res W) : Prop :=
  ∀ w ev w', ρ.touches ev.1 ≤ world.existing w → world.step w ev w' →
    world.existing w' + world.held w + ρ.takes ev + world.lost w =
      world.existing w + world.held w' + ρ.gives ev + world.lost w'

/-- The programs are tidy, and every resource is accounted for. -/
structure Rules.Balanced (ρ : Rules A Res) (world : World A Res W)
    (s : W × List (Thread A ε α)) : Prop where
  tidy : ∀ t ∈ s.2, ρ.TidyFrom t.1 t.2
  accounts : world.existing s.1 = world.held s.1 + ρ.inHand s.2 + world.lost s.1

variable {ρ : Rules A Res} {world : World A Res W} {ops : Prog E A ε α → Prop}
  {s s' : W × List (Thread A ε α)} {ts earlier later : List (Thread A ε α)}

@[simp] theorem inHand_nil : ρ.inHand ([] : List (Thread A ε α)) = 0 := rfl

@[simp] theorem inHand_cons (t : Thread A ε α) :
    ρ.inHand (t :: ts) = ρ.hand t.1 + ρ.inHand ts := by
  unfold Rules.inHand
  rw [List.map_cons, List.sum_cons]

@[simp] theorem inHand_append :
    ρ.inHand (earlier ++ later) = ρ.inHand earlier + ρ.inHand later := by
  unfold Rules.inHand
  rw [List.map_append, List.sum_append]

theorem hand_le_inHand {t : Thread A ε α} (ht : t ∈ ts) : ρ.hand t.1 ≤ ρ.inHand ts := by
  obtain ⟨earlier, later, rfl⟩ := List.append_of_mem ht
  rw [inHand_append, inHand_cons]
  exact le_add_left (Multiset.le_add_right _ _)

/-- **What is touched exists.** -/
theorem touches_le (hb : ρ.Balanced world s) {t : Thread A ε α} (ht : t ∈ s.2) {e : E}
    (he : t.2.next? = some e) : ρ.touches e ≤ world.existing s.1 := by
  have htidy := hb.tidy t ht
  obtain ⟨h, p⟩ := t
  cases p with
  | call e' k =>
    cases he
    rw [hb.accounts]
    refine htidy.1.1.trans ((hand_le_inHand ht).trans ?_)
    exact (Multiset.le_add_left _ _).trans (Multiset.le_add_right _ _)
  | ret a => cases he
  | throw e => cases he
  | spin => cases he

/-- **One step** of a pool keeps the balance. -/
theorem balanced_step (hfollowed : ρ.Followed world) (hops : ∀ p, ops p → ρ.Tidy p)
    (hb : ρ.Balanced world s) (hstep : PoolStep world ops s s') : ρ.Balanced world s' := by
  cases hstep with
  | @start w ts p hp =>
    refine ⟨fun t ht => ?_, ?_⟩
    · rcases List.mem_append.mp ht with ht | ht
      · exact hb.tidy t ht
      · rw [List.mem_singleton.mp ht]
        exact hops p hp
    · have haccounts := hb.accounts
      simpa using haccounts
  | @call w w' e a k h earlier later hw =>
    have hmem : (h, Prog.call e k) ∈ earlier ++ (h, Prog.call e k) :: later :=
      List.mem_append_right _ List.mem_cons_self
    have htidy := hb.tidy _ hmem
    refine ⟨fun t ht => ?_, ?_⟩
    · rcases List.mem_append.mp ht with ht | ht
      · exact hb.tidy t (List.mem_append_left _ ht)
      rcases List.mem_cons.mp ht with rfl | ht
      · exact htidy.2 a trivial
      · exact hb.tidy t (List.mem_append_right _ (List.mem_cons_of_mem _ ht))
    · have hworld := hfollowed w ⟨e, a⟩ w' (touches_le hb hmem rfl) hw
      have haccounts := hb.accounts
      have hhand : ρ.hand h = ρ.hand h - ρ.takes ⟨e, a⟩ + ρ.takes ⟨e, a⟩ :=
        (Multiset.sub_add_cancel (htidy.1.2 a)).symm
      simp only [inHand_append, inHand_cons] at haccounts ⊢
      rw [haccounts, hhand] at hworld
      rw [Rules.hand_snoc]
      generalize ρ.hand h - ρ.takes ⟨e, a⟩ = kept at hworld ⊢
      refine add_right_cancel (b := world.held w + ρ.takes ⟨e, a⟩ + world.lost w) ?_
      calc world.existing w' + (world.held w + ρ.takes ⟨e, a⟩ + world.lost w)
          = world.existing w' + world.held w + ρ.takes ⟨e, a⟩ + world.lost w := by abel
        _ = _ := hworld
        _ = _ := by abel
  | @finish w p h earlier later hp =>
    have hmem : (h, p) ∈ earlier ++ (h, p) :: later :=
      List.mem_append_right _ List.mem_cons_self
    refine ⟨fun t ht => hb.tidy t ?_, ?_⟩
    · exact (List.mem_append.mp ht).elim (List.mem_append_left _) fun ht =>
        List.mem_append_right _ (List.mem_cons_of_mem _ ht)
    · -- a program that is over has empty hands
      have hempty : ρ.hand h = 0 := by
        have htidy := hb.tidy _ hmem
        cases p with
        | ret a => exact htidy
        | throw e => exact htidy
        | call e k => cases hp
        | spin => cases hp
      have haccounts := hb.accounts
      simpa [hempty] using haccounts

/-- **Every run** of a pool of tidy programs keeps the balance. -/
theorem pool_balanced (hfollowed : ρ.Followed world) (hops : ∀ p, ops p → ρ.Tidy p)
    (hb : ρ.Balanced world s) (hrun : PoolReach world ops s s') : ρ.Balanced world s' := by
  induction hrun with
  | refl => exact hb
  | tail _ hstep ih => exact balanced_step hfollowed hops ih hstep

/-! ## Simulation -/

omit [DecidableEq Res] in
/-- A program that runs alone, against a deterministic world. -/
theorem poolReach_simulate {handler : W → (e : E) → Option (A e × W)}
    (hans : ∀ w e a w', handler w e = some (a, w') → world.step w ⟨e, a⟩ w')
    (p : Prog E A ε α) (w : W) (h : List (Event A)) :
    PoolReach world ops (w, [(h, p)])
      ((simulate handler w h p).1, [(simulate handler w h p).2]) := by
  have hsteps : Relation.ReflTransGen
      (fun x y : W × Thread A ε α => PoolStep world ops (x.1, [x.2]) (y.1, [y.2]))
      (w, h, p) (simulate handler w h p) := by
    refine reaches_simulate (fun w h e k a w' hh => ?_) p w h
    have hstep : PoolStep world ops (w, [] ++ (h, .call e k) :: [])
        (w', [] ++ (h ++ [⟨e, a⟩], k a) :: []) := .call (hans w e a w' hh)
    exact hstep
  exact Relation.ReflTransGen.lift (fun x : W × Thread A ε α => (x.1, [x.2])) (fun _ _ => id) _ _
    hsteps

omit [DecidableEq Res] in
theorem poolReach_call {handler : W → (e : E) → Option (A e × W)}
    (hans : ∀ w e a w', handler w e = some (a, w') → world.step w ⟨e, a⟩ w')
    {p : Prog E A ε α} (hp : ops p) {w : W}
    (hover : (simulate handler w [] p).2.2.result?.isSome) :
    PoolReach world ops (w, []) ((simulate handler w [] p).1, []) := by
  have hstart : PoolStep world ops (w, []) (w, [] ++ [([], p)]) := .start hp
  have hfinish : PoolStep world ops
      ((simulate handler w [] p).1, [] ++ (simulate handler w [] p).2 :: [])
      ((simulate handler w [] p).1, [] ++ []) := .finish hover
  exact .head hstart ((poolReach_simulate hans p w []).tail hfinish)

end Prog
