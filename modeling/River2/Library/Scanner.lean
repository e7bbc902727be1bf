import Mathlib

/-!
# Scanners over a growing buffer

A scanner looks at the front of a buffer and gives a verdict: wait for more symbols, skip some,
or emit an item. Its verdicts are stable: what it decides on a buffer it also decides when more
symbols follow, and waiting only drops symbols that it would drop anyway.

1. `next` is one extraction: skip until an item is emitted or the scanner waits; `drain` extracts
   until it waits.
2. `spans` gives every item the place where it ends (`spans_prefix_append`).
3. `Reads s xs b` says that a reader that has seen `s` has emitted `xs` and holds `b`: whatever
   follows, it ends where draining the whole stream ends. It is kept by feeding and by extracting.
4. `play` interleaves feeding and extracting; `play_drain` is the confluence of all schedules.
-/

/-- What a scanner decides about a buffer; the number counts the symbols it drops. -/
inductive Verdict (β : Type*) where
  | wait (n : ℕ)
  | skip (n : ℕ)
  | emit (x : β) (n : ℕ)

namespace Verdict

variable {β : Type*}

/-- The same verdict behind `n` more dropped symbols. -/
def shift (n : ℕ) : Verdict β → Verdict β
  | wait m => wait (n + m)
  | skip m => skip (n + m)
  | emit x m => emit x (n + m)

@[simp] theorem shift_zero (v : Verdict β) : v.shift 0 = v := by
  cases v <;> simp [shift]

@[simp] theorem shift_shift (n m : ℕ) (v : Verdict β) : (v.shift m).shift n = v.shift (n + m) := by
  cases v <;> simp [shift, Nat.add_assoc]

@[simp] theorem shift_wait (n m : ℕ) : (wait m : Verdict β).shift n = wait (n + m) := rfl

@[simp] theorem shift_skip (n m : ℕ) : (skip m : Verdict β).shift n = skip (n + m) := rfl

@[simp] theorem shift_emit (n m : ℕ) (x : β) : (emit x m).shift n = emit x (n + m) := rfl

end Verdict

/-- A scanner with stable verdicts. -/
structure Scanner (α β : Type*) where
  look : List α → Verdict β
  wait_le : ∀ {b n}, look b = .wait n → n ≤ b.length
  skip_pos : ∀ {b n}, look b = .skip n → 0 < n ∧ n ≤ b.length
  emit_pos : ∀ {b x n}, look b = .emit x n → 0 < n ∧ n ≤ b.length
  wait_append : ∀ {b n} (y), look b = .wait n → look (b ++ y) = (look (b.drop n ++ y)).shift n
  skip_append : ∀ {b n} (y), look b = .skip n → look (b ++ y) = .skip n
  emit_append : ∀ {b x n} (y), look b = .emit x n → look (b ++ y) = .emit x n

namespace Scanner

variable {α β : Type*} (S : Scanner α β)

/-! ## One extraction -/

/-- Skip until an item is emitted or the scanner waits. -/
def next (b : List α) : Option β × List α :=
  match _h : S.look b with
  | .wait n => (none, b.drop n)
  | .skip n => next (b.drop n)
  | .emit x n => (some x, b.drop n)
termination_by b.length
decreasing_by
  have := S.skip_pos ‹_›
  rw [List.length_drop]; omega

theorem next_wait {b : List α} {n : ℕ} (h : S.look b = .wait n) :
    S.next b = (none, b.drop n) := by
  rw [next]; split <;> simp_all

theorem next_skip {b : List α} {n : ℕ} (h : S.look b = .skip n) :
    S.next b = S.next (b.drop n) := by
  rw [next]; split <;> simp_all

theorem next_emit {b : List α} {x : β} {n : ℕ} (h : S.look b = .emit x n) :
    S.next b = (some x, b.drop n) := by
  rw [next]; split <;> simp_all

/-- Symbols in front of which the verdict only shifts do not matter. -/
theorem next_of_look_shift {b : List α} {n : ℕ} (h : S.look b = (S.look (b.drop n)).shift n) :
    S.next b = S.next (b.drop n) := by
  cases h' : S.look (b.drop n) with
  | wait m =>
    rw [h', Verdict.shift_wait] at h
    rw [S.next_wait h, S.next_wait h', List.drop_drop]
  | skip m =>
    rw [h', Verdict.shift_skip] at h
    rw [S.next_skip h, S.next_skip h', List.drop_drop]
  | emit x m =>
    rw [h', Verdict.shift_emit] at h
    rw [S.next_emit h, S.next_emit h', List.drop_drop]

theorem next_length (b : List α) :
    (S.next b).2.length ≤ b.length ∧ ((S.next b).1.isSome → (S.next b).2.length < b.length) := by
  induction hn : b.length using Nat.strong_induction_on generalizing b with
  | _ k ih =>
    subst hn
    cases h : S.look b with
    | wait n =>
      rw [S.next_wait h, List.length_drop]
      simp
    | skip n =>
      have hpos := S.skip_pos h
      have hlen : (b.drop n).length < b.length := by rw [List.length_drop]; omega
      have hrec := ih _ hlen (b.drop n) rfl
      rw [S.next_skip h]
      exact ⟨hrec.1.trans hlen.le, fun hs => (hrec.2 hs).trans hlen⟩
    | emit x n =>
      have hpos := S.emit_pos h
      rw [S.next_emit h, List.length_drop]
      exact ⟨by omega, fun _ => by omega⟩

/-- What is emitted is a verdict somewhere in the buffer, and what is left follows it. -/
theorem look_of_next_some {b b' : List α} {x : β} (h : S.next b = (some x, b')) :
    ∃ k n, S.look (b.drop k) = .emit x n ∧ b' = b.drop (k + n) := by
  induction hn : b.length using Nat.strong_induction_on generalizing b with
  | _ k ih =>
    subst hn
    cases hl : S.look b with
    | wait n =>
      rw [S.next_wait hl] at h
      cases (Prod.mk.inj h).1
    | skip n =>
      have hpos := S.skip_pos hl
      rw [S.next_skip hl] at h
      obtain ⟨k, m, hk, rfl⟩ := ih _ (by rw [List.length_drop]; omega) h rfl
      rw [List.drop_drop] at hk
      exact ⟨n + k, m, hk, by rw [List.drop_drop, Nat.add_assoc]⟩
    | emit y n =>
      rw [S.next_emit hl] at h
      obtain ⟨hy, rfl⟩ := Prod.mk.inj h
      obtain rfl := Option.some.inj hy
      exact ⟨0, n, hl, by rw [Nat.zero_add]⟩

/-! ## Draining -/

/-- Extract until the scanner waits: the items, and the symbols left over. -/
def drain (b : List α) : List β × List α :=
  match _h : S.look b with
  | .wait n => ([], b.drop n)
  | .skip n => drain (b.drop n)
  | .emit x n => (x :: (drain (b.drop n)).1, (drain (b.drop n)).2)
termination_by b.length
decreasing_by
  · have := S.skip_pos ‹_›
    rw [List.length_drop]; omega
  all_goals
    have := S.emit_pos ‹_›
    rw [List.length_drop]; omega

def items (b : List α) : List β := (S.drain b).1

/-- What is left of a stream once its items are taken. -/
def rest (b : List α) : List α := (S.drain b).2

theorem drain_wait {b : List α} {n : ℕ} (h : S.look b = .wait n) :
    S.drain b = ([], b.drop n) := by
  rw [drain]; split <;> simp_all

theorem drain_skip {b : List α} {n : ℕ} (h : S.look b = .skip n) :
    S.drain b = S.drain (b.drop n) := by
  rw [drain]; split <;> simp_all

theorem drain_emit {b : List α} {x : β} {n : ℕ} (h : S.look b = .emit x n) :
    S.drain b = (x :: (S.drain (b.drop n)).1, (S.drain (b.drop n)).2) := by
  rw [drain]; split <;> simp_all

theorem drain_of_look_shift {b : List α} {n : ℕ} (h : S.look b = (S.look (b.drop n)).shift n) :
    S.drain b = S.drain (b.drop n) := by
  cases h' : S.look (b.drop n) with
  | wait m =>
    rw [h', Verdict.shift_wait] at h
    rw [S.drain_wait h, S.drain_wait h', List.drop_drop]
  | skip m =>
    rw [h', Verdict.shift_skip] at h
    rw [S.drain_skip h, S.drain_skip h', List.drop_drop]
  | emit x m =>
    rw [h', Verdict.shift_emit] at h
    rw [S.drain_emit h, S.drain_emit h', List.drop_drop]

/-- Symbols that a waiting scanner drops do not matter, whatever follows them. -/
theorem drain_wait_append {b : List α} {n : ℕ} (h : S.look b = .wait n) (y : List α) :
    S.drain (b ++ y) = S.drain (b.drop n ++ y) := by
  have hdrop : (b ++ y).drop n = b.drop n ++ y := List.drop_append_of_le_length (S.wait_le h)
  rw [← hdrop]
  apply S.drain_of_look_shift
  rw [hdrop]
  exact S.wait_append y h

/-- **Draining in two parts.** What the first part leaves over is continued by the second. -/
theorem drain_append (b y : List α) :
    S.drain (b ++ y) =
      ((S.drain b).1 ++ (S.drain ((S.drain b).2 ++ y)).1, (S.drain ((S.drain b).2 ++ y)).2) := by
  induction hn : b.length using Nat.strong_induction_on generalizing b with
  | _ k ih =>
    subst hn
    cases h : S.look b with
    | wait n =>
      rw [S.drain_wait_append h, S.drain_wait h]
      rfl
    | skip n =>
      have hpos := S.skip_pos h
      have hlen : (b.drop n).length < b.length := by rw [List.length_drop]; omega
      rw [S.drain_skip (S.skip_append y h), List.drop_append_of_le_length hpos.2,
        ih _ hlen (b.drop n) rfl, ← S.drain_skip h]
    | emit x n =>
      have hpos := S.emit_pos h
      have hlen : (b.drop n).length < b.length := by rw [List.length_drop]; omega
      rw [S.drain_emit (S.emit_append y h), List.drop_append_of_le_length hpos.2,
        ih _ hlen (b.drop n) rfl, S.drain_emit h]
      rfl

theorem drain_length (b : List α) : (S.drain b).2.length ≤ b.length := by
  induction hn : b.length using Nat.strong_induction_on generalizing b with
  | _ k ih =>
    subst hn
    cases h : S.look b with
    | wait n =>
      rw [S.drain_wait h, List.length_drop]
      omega
    | skip n =>
      have hpos := S.skip_pos h
      have hlen : (b.drop n).length < b.length := by rw [List.length_drop]; omega
      rw [S.drain_skip h]
      exact (ih _ hlen (b.drop n) rfl).trans hlen.le
    | emit x n =>
      have hpos := S.emit_pos h
      have hlen : (b.drop n).length < b.length := by rw [List.length_drop]; omega
      rw [S.drain_emit h]
      exact (ih _ hlen (b.drop n) rfl).trans hlen.le

/-! ## Positions -/

/-- The items of a stream, each with the number of symbols up to its end. -/
def spans (b : List α) : List (β × ℕ) :=
  match _h : S.look b with
  | .wait _ => []
  | .skip n => (spans (b.drop n)).map (Prod.map id (n + ·))
  | .emit x n => (x, n) :: (spans (b.drop n)).map (Prod.map id (n + ·))
termination_by b.length
decreasing_by
  · have := S.skip_pos ‹_›
    rw [List.length_drop]; omega
  · have := S.emit_pos ‹_›
    rw [List.length_drop]; omega

theorem spans_wait {b : List α} {n : ℕ} (h : S.look b = .wait n) : S.spans b = [] := by
  rw [spans]; split <;> simp_all

theorem spans_skip {b : List α} {n : ℕ} (h : S.look b = .skip n) :
    S.spans b = (S.spans (b.drop n)).map (Prod.map id (n + ·)) := by
  rw [spans]; split <;> simp_all

theorem spans_emit {b : List α} {x : β} {n : ℕ} (h : S.look b = .emit x n) :
    S.spans b = (x, n) :: (S.spans (b.drop n)).map (Prod.map id (n + ·)) := by
  rw [spans]; split <;> simp_all

/-- What holds where the scanner waits, and behind every skip and item, holds of all buffers. -/
theorem look_induction {P : List α → Prop} (hwait : ∀ b n, S.look b = .wait n → P b)
    (hskip : ∀ b n, S.look b = .skip n → n ≤ b.length → P (b.drop n) → P b)
    (hemit : ∀ b x n, S.look b = .emit x n → n ≤ b.length → P (b.drop n) → P b) (b : List α) :
    P b := by
  induction hn : b.length using Nat.strong_induction_on generalizing b with
  | _ k ih =>
    subst hn
    cases h : S.look b with
    | wait n => exact hwait b n h
    | skip n =>
      have hpos := S.skip_pos h
      exact hskip b n h hpos.2 (ih _ (by rw [List.length_drop]; omega) _ rfl)
    | emit x n =>
      have hpos := S.emit_pos h
      exact hemit b x n h hpos.2 (ih _ (by rw [List.length_drop]; omega) _ rfl)

theorem spans_fst (b : List α) : (S.spans b).map Prod.fst = S.items b := by
  unfold items
  induction b using S.look_induction with
  | hwait b n h =>
    rw [S.spans_wait h, S.drain_wait h]
    rfl
  | hskip b n h _ ih =>
    rw [S.spans_skip h, S.drain_skip h, ← ih, List.map_map]
    rfl
  | hemit b x n h _ ih =>
    rw [S.spans_emit h, S.drain_emit h, ← ih, List.map_cons, List.map_map]
    rfl

/-- Every item ends within the stream. -/
theorem spans_le (b : List α) : ∀ s ∈ S.spans b, s.2 ≤ b.length := by
  induction b using S.look_induction with
  | hwait b n h =>
    rw [S.spans_wait h]
    exact fun _ hs => absurd hs List.not_mem_nil
  | hskip b n h hn ih =>
    rw [S.spans_skip h]
    intro s hs
    obtain ⟨t, ht, rfl⟩ := List.mem_map.mp hs
    have hle := ih t ht
    rw [List.length_drop] at hle
    show n + t.2 ≤ b.length
    omega
  | hemit b x n h hn ih =>
    rw [S.spans_emit h]
    refine List.forall_mem_cons.mpr ⟨hn, fun s hs => ?_⟩
    obtain ⟨t, ht, rfl⟩ := List.mem_map.mp hs
    have hle := ih t ht
    rw [List.length_drop] at hle
    show n + t.2 ≤ b.length
    omega

/-- Later symbols do not move the items. -/
theorem spans_prefix_append (b y : List α) : S.spans b <+: S.spans (b ++ y) := by
  induction b using S.look_induction with
  | hwait b n h =>
    rw [S.spans_wait h]
    exact List.nil_prefix
  | hskip b n h hn ih =>
    rw [S.spans_skip h, S.spans_skip (S.skip_append y h), List.drop_append_of_le_length hn]
    exact ih.map _
  | hemit b x n h hn ih =>
    rw [S.spans_emit h, S.spans_emit (S.emit_append y h), List.drop_append_of_le_length hn]
    exact (List.prefix_cons_inj _).mpr (ih.map _)

/-! ## Readers -/

/-- A reader that has been fed `s` has emitted `xs` and holds `b`: whatever follows, it ends where
draining the whole stream ends. -/
def Reads (s : List α) (xs : List β) (b : List α) : Prop :=
  ∀ y, S.drain (s ++ y) = (xs ++ (S.drain (b ++ y)).1, (S.drain (b ++ y)).2)

variable {S}

theorem reads_refl (b : List α) : S.Reads b [] b := fun _ => rfl

theorem Reads.trans {s b b' : List α} {xs ys : List β} (h : S.Reads s xs b)
    (h' : S.Reads b ys b') : S.Reads s (xs ++ ys) b' := by
  intro y
  rw [h y, h' y, List.append_assoc]

theorem Reads.feed {s b : List α} {xs : List β} (h : S.Reads s xs b) (c : List α) :
    S.Reads (s ++ c) xs (b ++ c) := by
  intro y
  rw [List.append_assoc, List.append_assoc]
  exact h (c ++ y)

theorem Reads.items_eq {s b : List α} {xs : List β} (h : S.Reads s xs b) :
    S.items s = xs ++ S.items b := by
  have := h []
  rw [List.append_nil, List.append_nil] at this
  unfold items
  rw [this]

theorem Reads.rest_eq {s b : List α} {xs : List β} (h : S.Reads s xs b) :
    S.rest s = S.rest b := by
  have := h []
  rw [List.append_nil, List.append_nil] at this
  unfold rest
  rw [this]

/-- The items already emitted begin the items of every continuation of the stream. -/
theorem Reads.prefix_items {s b : List α} {xs : List β} (h : S.Reads s xs b) (y : List α) :
    xs <+: S.items (s ++ y) := by
  rw [(h.feed y).items_eq]
  exact List.prefix_append _ _

variable (S) in
theorem reads_drain (b : List α) : S.Reads b (S.items b) (S.rest b) := fun y => S.drain_append b y

theorem items_prefix_append (b y : List α) : S.items b <+: S.items (b ++ y) :=
  (S.reads_drain b).prefix_items y

/-- Draining is final: what is left over yields nothing and is left as it is. -/
theorem drain_rest (b : List α) : S.drain (S.rest b) = ([], S.rest b) := by
  have h := S.reads_drain b
  have hi := h.items_eq
  have hr := h.rest_eq
  refine Prod.ext ?_ hr.symm
  exact List.append_right_eq_self.mp hi.symm

theorem reads_next (b : List α) :
    S.Reads b (S.next b).1.toList (S.next b).2 := by
  induction hn : b.length using Nat.strong_induction_on generalizing b with
  | _ k ih =>
    subst hn
    intro y
    cases h : S.look b with
    | wait n => rw [S.next_wait h]; exact S.drain_wait_append h y
    | skip n =>
      have hpos := S.skip_pos h
      have hlen : (b.drop n).length < b.length := by rw [List.length_drop]; omega
      rw [S.next_skip h, S.drain_skip (S.skip_append y h),
        List.drop_append_of_le_length hpos.2]
      exact ih _ hlen (b.drop n) rfl y
    | emit x n =>
      have hpos := S.emit_pos h
      rw [S.next_emit h, S.drain_emit (S.emit_append y h),
        List.drop_append_of_le_length hpos.2]
      rfl

theorem drain_of_next_none {b b' : List α} (h : S.next b = (none, b')) : S.drain b = ([], b') := by
  induction hn : b.length using Nat.strong_induction_on generalizing b with
  | _ k ih =>
    subst hn
    cases hl : S.look b with
    | wait n =>
      rw [S.next_wait hl] at h
      obtain ⟨-, rfl⟩ := Prod.mk.inj h
      exact S.drain_wait hl
    | skip n =>
      have hpos := S.skip_pos hl
      rw [S.next_skip hl] at h
      rw [S.drain_skip hl]
      exact ih _ (by rw [List.length_drop]; omega) h rfl
    | emit x n =>
      rw [S.next_emit hl] at h
      simp at h

theorem drain_of_next_some {b b' : List α} {x : β} (h : S.next b = (some x, b')) :
    S.drain b = (x :: S.items b', S.rest b') := by
  have := reads_next (S := S) b []
  rw [h, List.append_nil, List.append_nil] at this
  exact this

theorem next_fst_eq_head? (b : List α) : (S.next b).1 = (S.items b).head? := by
  cases h : S.next b with
  | mk o b' =>
    cases o with
    | none => unfold items; rw [drain_of_next_none h]; rfl
    | some x => unfold items; rw [drain_of_next_some h]; rfl

theorem next_of_next_none {b b' : List α} (h : S.next b = (none, b')) : S.next b' = (none, b') := by
  have hd := drain_of_next_none h
  have hrest : S.rest b = b' := by unfold rest; rw [hd]
  have hd' : S.drain b' = ([], b') := by rw [← hrest]; exact drain_rest b
  cases h' : S.next b' with
  | mk o b'' =>
    cases o with
    | none =>
      have := drain_of_next_none h'
      rw [hd'] at this
      obtain ⟨-, rfl⟩ := Prod.mk.inj this
      rfl
    | some x =>
      have := drain_of_next_some h'
      rw [hd'] at this
      simp at this

/-! ## Schedules -/

/-- What a reader does: take in more symbols, or try to extract one item. -/
inductive Op (α : Type*) where
  | feed (c : List α)
  | poll

/-- The symbols a schedule takes in. -/
def fed : List (Op α) → List α
  | [] => []
  | .feed c :: ops => c ++ fed ops
  | .poll :: ops => fed ops

variable (S) in
/-- Run a schedule from buffer `b`: the items extracted, and the buffer left. -/
def play : List (Op α) → List α → List β × List α
  | [], b => ([], b)
  | .feed c :: ops, b => play ops (b ++ c)
  | .poll :: ops, b =>
    ((S.next b).1.toList ++ (play ops (S.next b).2).1, (play ops (S.next b).2).2)

theorem reads_play (ops : List (Op α)) {s b : List α} {xs : List β} (h : S.Reads s xs b) :
    S.Reads (s ++ fed ops) (xs ++ (S.play ops b).1) (S.play ops b).2 := by
  induction ops generalizing s b xs with
  | nil => simpa [fed, play] using h
  | cons op ops ih =>
    cases op with
    | feed c =>
      rw [show s ++ fed (.feed c :: ops) = s ++ c ++ fed ops by
        rw [List.append_assoc]; rfl]
      exact ih (h.feed c)
    | poll =>
      have := ih (h.trans (reads_next b))
      rw [List.append_assoc] at this
      exact this

/-- **Confluence.** Every schedule, followed by draining, gives the items and the rest of the whole
stream. -/
theorem play_drain (ops : List (Op α)) :
    ((S.play ops []).1 ++ S.items (S.play ops []).2, S.rest (S.play ops []).2) =
      S.drain (fed ops) := by
  have h := reads_play ops (reads_refl (S := S) [])
  rw [List.nil_append, List.nil_append] at h
  rw [← h.items_eq, ← h.rest_eq]
  rfl

end Scanner
