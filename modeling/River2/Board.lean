import River2.Transcript

/-!
# A task, its notification queue and the device

The device sends notifications and receives the task's writes at its own pace, what it has sent is
in the air until it arrives, and the BLE host task queues what arrives while the application task
runs. `Board.Step` interleaves them in any order.

1. `Run.conserved`: what has been delivered is what the task has received and what is still queued.
2. `Run.ordered`: notifications arrive in the order they were sent.
3. `exists_write`: a run passes through each of its writes.
-/

namespace River2

open Prog

/-- The length of `s_notify_queue`. -/
def notifyQueueLen : ℕ := 16

def okWrites (h : Hist) : ℕ := (writes h).countP fun w => w.2 = .ok

/-- The notifications in the air and those that were queued so far, each with the number of writes
the device had received when it sent it; the number it has received by now; the notifications queued
and not yet received, and the application task. -/
structure Board (α : Type) where
  air : List (ℕ × Bytes)
  heard : ℕ
  queue : List Bytes
  delivered : List (ℕ × Bytes)
  hist : Hist
  prog : Fw α

namespace Board

variable {α : Type}

/-- The task is about to run, the queue has been reset. -/
def boot (p : Fw α) : Board α := ⟨[], 0, [], [], [], p⟩

def wrote (s : Board α) (data : Bytes) (err : EspErr) (k : EspErr → Fw α) : Board α :=
  { s with hist := s.hist ++ [⟨.bleWrite data, err⟩], prog := k err }

/-- The bytes of notifications: of each of them what fits the receiver's chunk. -/
def bytesOf (ns : List (ℕ × Bytes)) : Bytes := ns.flatMap fun n => n.2.take notifyChunkMax

/-- The bytes delivered. -/
def accepted (s : Board α) : Bytes := bytesOf s.delivered

/-- The bytes delivered that the device sent before it received its `n`-th write. -/
def acceptedBefore (n : ℕ) (s : Board α) : Bytes := bytesOf (s.delivered.filter (·.1 < n))

/-- One step of the device, of the link or of the task. A write that failed never gets to the
device. An empty notification is not queued; one for which there is no room, or no memory, is
dropped and leaves no trace. -/
inductive Step : Board α → Board α → Prop where
  | send (s : Board α) (n : Bytes) : Step s { s with air := s.air ++ [(s.heard, n)] }
  | hear (s : Board α) (hsent : s.heard < okWrites s.hist) : Step s { s with heard := s.heard + 1 }
  | deliver {x air g qs d h p} (hn : x.2 ≠ []) (hroom : qs.length < notifyQueueLen) :
      Step ⟨x :: air, g, qs, d, h, p⟩ ⟨air, g, qs ++ [x.2], d ++ [x], h, p⟩
  | drop {x air g qs d h p} : Step ⟨x :: air, g, qs, d, h, p⟩ ⟨air, g, qs, d, h, p⟩
  | receive {air g qs d h t k} (n : Bytes) :
      Step ⟨air, g, n :: qs, d, h, .call (.queueReceive t) k⟩
        ⟨air, g, qs, d, h ++ [⟨.queueReceive t, some n⟩], k (some n)⟩
  | expire {air g d h t k} :
      Step ⟨air, g, [], d, h, .call (.queueReceive t) k⟩
        ⟨air, g, [], d, h ++ [⟨.queueReceive t, none⟩], k none⟩
  | answer {air g qs d h e k} (a : Answer e) (he : ∀ t, e ≠ .queueReceive t)
      (hans : hashEnv h e a) :
      Step ⟨air, g, qs, d, h, .call e k⟩ ⟨air, g, qs, d, h ++ [⟨e, a⟩], k a⟩

abbrev Run (s t : Board α) : Prop := Relation.ReflTransGen Step s t

/-! ## Every run -/

/-- One step is a step of the device, a delivery, a loss, or a step of the task. -/
theorem step_cases {s t : Board α} (hst : Step s t) :
    ((∃ n, t = { s with air := s.air ++ [(s.heard, n)] }) ∨
      s.heard < okWrites s.hist ∧ t = { s with heard := s.heard + 1 }) ∨
    (∃ x, s.air = x :: t.air ∧ t.heard = s.heard ∧ t.hist = s.hist ∧ t.prog = s.prog ∧
      (t.queue = s.queue ++ [x.2] ∧ t.delivered = s.delivered ++ [x] ∨
        t.queue = s.queue ∧ t.delivered = s.delivered)) ∨
    (Prog.Step hashEnv (s.hist, s.prog) (t.hist, t.prog) ∧ t.air = s.air ∧ t.heard = s.heard ∧
      t.delivered = s.delivered ∧ (∃ ev, t.hist = s.hist ++ [ev]) ∧
      notifications t.hist ++ t.queue = notifications s.hist ++ s.queue) := by
  cases hst with
  | send _ n => exact .inl (.inl ⟨n, rfl⟩)
  | hear _ hsent => exact .inl (.inr ⟨hsent, rfl⟩)
  | deliver hn hroom => exact .inr (.inl ⟨_, rfl, rfl, rfl, rfl, .inl ⟨rfl, rfl⟩⟩)
  | drop => exact .inr (.inl ⟨_, rfl, rfl, rfl, rfl, .inr ⟨rfl, rfl⟩⟩)
  | receive n =>
    refine .inr (.inr ⟨.answer trivial, rfl, rfl, rfl, ⟨_, rfl⟩, ?_⟩)
    rw [notifications_append, List.append_assoc]
    rfl
  | expire =>
    refine .inr (.inr ⟨.answer trivial, rfl, rfl, rfl, ⟨_, rfl⟩, ?_⟩)
    rw [notifications_append, List.append_assoc]
    rfl
  | @answer _ _ qs d h e k a he hans =>
    refine .inr (.inr ⟨.answer hans, rfl, rfl, rfl, ⟨_, rfl⟩, ?_⟩)
    have hn : notifications [⟨e, a⟩] = [] := by
      cases e <;> first | rfl | exact absurd rfl (he _)
    rw [notifications_append, hn, List.append_nil]

/-- A run of the board is a run of the task. -/
theorem Run.reach {s t : Board α} (hr : Run s t) :
    Reach hashEnv (s.hist, s.prog) (t.hist, t.prog) := by
  induction hr with
  | refl => exact .refl
  | tail _ hst ih =>
    rcases step_cases hst with (⟨_, rfl⟩ | ⟨-, rfl⟩) | ⟨_, -, -, hh, hp, -⟩ | ⟨hst, -⟩
    · exact ih
    · exact ih
    · rwa [hh, hp]
    · exact ih.tail hst

theorem Run.delivered_isPrefix {s t : Board α} (hr : Run s t) : s.delivered <+: t.delivered := by
  induction hr with
  | refl => exact List.prefix_rfl
  | tail _ hst ih =>
    rcases step_cases hst with (⟨_, rfl⟩ | ⟨-, rfl⟩) | ⟨x, -, -, -, -, ⟨-, hd⟩ | ⟨-, hd⟩⟩ |
      ⟨-, -, -, hd, -⟩
    · exact ih
    · exact ih
    · exact ih.trans ⟨[x], hd.symm⟩
    · rwa [hd]
    · rwa [hd]

/-- **Nothing is lost in the queue.** What has been delivered has been received or is queued. -/
theorem Run.conserved {s t : Board α} (hr : Run s t)
    (hs : s.delivered.map Prod.snd = notifications s.hist ++ s.queue) :
    t.delivered.map Prod.snd = notifications t.hist ++ t.queue := by
  induction hr with
  | refl => exact hs
  | tail _ hst ih =>
    rcases step_cases hst with (⟨_, rfl⟩ | ⟨-, rfl⟩) | ⟨x, -, -, hh, -, ⟨hq, hd⟩ | ⟨hq, hd⟩⟩ |
      ⟨-, -, -, hd, -, hn⟩
    · exact ih
    · exact ih
    · rw [hd, hh, hq, List.map_append, ih, List.append_assoc]
      rfl
    · rw [hd, hh, hq, ih]
    · rw [hd, hn, ih]

/-- The notifications delivered and in the air are in the order in which they were sent, and the
device has received at most what was written. -/
structure Ordered (s : Board α) : Prop where
  sorted : ((s.delivered ++ s.air).map Prod.fst).Pairwise (· ≤ ·)
  sent_le : ∀ x ∈ s.delivered ++ s.air, x.1 ≤ s.heard
  heard_le : s.heard ≤ okWrites s.hist

theorem ordered_boot (p : Fw α) : Ordered (boot p) :=
  ⟨List.Pairwise.nil, fun _ hx => absurd hx List.not_mem_nil, Nat.zero_le _⟩

theorem okWrites_append (h h' : Hist) : okWrites (h ++ h') = okWrites h + okWrites h' := by
  unfold okWrites
  rw [writes_append, List.countP_append]

theorem Ordered.step {s t : Board α} (ho : Ordered s) (hst : Step s t) : Ordered t := by
  obtain ⟨hsorted, hsent, hheard⟩ := ho
  rcases step_cases hst with (⟨n, rfl⟩ | ⟨hlt, rfl⟩) | ⟨x, ha, hg, hh, -, hd⟩ |
    ⟨-, ha, hg, hd, ⟨ev, hh⟩, -⟩
  · refine ⟨?_, ?_, hheard⟩
    · show ((s.delivered ++ (s.air ++ [(s.heard, n)])).map Prod.fst).Pairwise _
      rw [← List.append_assoc, List.map_append, List.pairwise_append]
      refine ⟨hsorted, List.pairwise_singleton _ _, ?_⟩
      rintro a ha b hb
      obtain ⟨x, hx, rfl⟩ := List.mem_map.mp ha
      obtain rfl := List.mem_singleton.mp hb
      exact hsent x hx
    · intro x hx
      rcases List.mem_append.mp (show x ∈ (s.delivered ++ s.air) ++ [(s.heard, n)] by
        rw [List.append_assoc]; exact hx) with hx | hx
      · exact hsent x hx
      · rw [List.mem_singleton.mp hx]
  · exact ⟨hsorted, fun x hx => (hsent x hx).trans (Nat.le_succ _), hlt⟩
  · have hsub : (t.delivered ++ t.air).Sublist (s.delivered ++ s.air) := by
      rcases hd with ⟨-, hd⟩ | ⟨-, hd⟩
      · rw [hd, ha, List.append_assoc]
        exact List.Sublist.refl _
      · rw [hd, ha]
        exact (List.sublist_cons_self x t.air).append_left _
    refine ⟨hsorted.sublist (hsub.map _), fun x hx => ?_, ?_⟩
    · rw [hg]
      exact hsent x (hsub.subset hx)
    · rwa [hg, hh]
  · refine ⟨by rwa [hd, ha], by rwa [hd, ha, hg], ?_⟩
    rw [hg, hh, okWrites_append]
    omega

theorem Run.ordered {s t : Board α} (hr : Run s t) (ho : Ordered s) : Ordered t := by
  induction hr with
  | refl => exact ho
  | tail _ hst ih => exact ih.step hst

/-! ## Bytes delivered -/

theorem received_isPrefix_accepted {p : Fw α} {s : Board α} (hr : Run (boot p) s) :
    received s.hist <+: s.accepted := by
  have hd := hr.conserved rfl
  have hbytes : s.accepted = (s.delivered.map Prod.snd).flatMap (List.take notifyChunkMax) := by
    unfold accepted bytesOf
    rw [List.flatMap_map]
  rw [hbytes, hd, List.flatMap_append]
  exact List.prefix_append _ _

theorem bytesOf_isPrefix {xs ys : List (ℕ × Bytes)} (h : xs <+: ys) :
    bytesOf xs <+: bytesOf ys := by
  obtain ⟨later, rfl⟩ := h
  unfold bytesOf
  rw [List.flatMap_append]
  exact List.prefix_append _ _

theorem accepted_isPrefix {s t : Board α} (hr : Run s t) : s.accepted <+: t.accepted :=
  bytesOf_isPrefix hr.delivered_isPrefix

theorem filter_lt_isPrefix (n : ℕ) {xs : List (ℕ × Bytes)}
    (hs : (xs.map Prod.fst).Pairwise (· ≤ ·)) : xs.filter (·.1 < n) <+: xs := by
  induction xs with
  | nil => exact List.prefix_rfl
  | cons x xs ih =>
    obtain ⟨hle, hs⟩ := List.pairwise_cons.mp (show (x.1 :: xs.map Prod.fst).Pairwise _ from hs)
    by_cases hx : x.1 < n
    · rw [List.filter_cons_of_pos (by simpa using hx)]
      exact (List.prefix_cons_inj x).mpr (ih hs)
    · have hnone : (x :: xs).filter (·.1 < n) = [] := by
        refine List.filter_eq_nil_iff.mpr fun y hy => ?_
        rcases List.mem_cons.mp hy with rfl | hy
        · simpa using hx
        · have := hle y.1 (List.mem_map_of_mem hy)
          simp only [decide_eq_true_eq]
          omega
      rw [hnone]
      exact List.nil_prefix

theorem acceptedBefore_isPrefix (n : ℕ) {s : Board α} (ho : Ordered s) :
    s.acceptedBefore n <+: s.accepted := by
  refine bytesOf_isPrefix (filter_lt_isPrefix n ?_)
  have hs := ho.sorted
  rw [List.map_append] at hs
  exact (List.pairwise_append.mp hs).1

/-- Before the `n`-th write everything has been sent before the device received it. -/
theorem accepted_isPrefix_before {s t : Board α} (ho : Ordered s) (hr : Run s t) {n : ℕ}
    (hn : okWrites s.hist < n) : s.accepted <+: t.acceptedBefore n := by
  have hall : s.delivered.filter (·.1 < n) = s.delivered := by
    refine List.filter_eq_self.mpr fun x hx => ?_
    have h₁ := ho.sent_le x (List.mem_append_left _ hx)
    have h₂ := ho.heard_le
    simp only [decide_eq_true_eq]
    omega
  obtain ⟨later, hlater⟩ := hr.delivered_isPrefix
  refine bytesOf_isPrefix ?_
  rw [← hlater, List.filter_append, hall]
  exact List.prefix_append _ _

theorem exists_write {s t : Board α} (hr : Run s t) {n : ℕ} (hs : (writes s.hist).length ≤ n)
    (ht : n < (writes t.hist).length) :
    ∃ s₁ data err k, Run s s₁ ∧ s₁.prog = .call (.bleWrite data) k ∧
      (writes s₁.hist).length = n ∧ Run (s₁.wrote data err k) t := by
  induction hr with
  | refl => omega
  | @tail t u hst hstep ih =>
    by_cases hlt : n < (writes t.hist).length
    · obtain ⟨s₁, data, err, k, h₁, hp, hn, h₂⟩ := ih hlt
      exact ⟨s₁, data, err, k, h₁, hp, hn, h₂.tail hstep⟩
    · cases hstep with
      | send _ _ => exact absurd ht hlt
      | hear _ _ => exact absurd ht hlt
      | deliver hn hroom => exact absurd ht hlt
      | drop => exact absurd ht hlt
      | receive n =>
        rw [writes_append] at ht
        exact absurd ht (by simpa [writes] using hlt)
      | expire =>
        rw [writes_append] at ht
        exact absurd ht (by simpa [writes] using hlt)
      | @answer air g qs d h e k a he hans =>
        rw [writes_append, List.length_append] at ht
        cases e with
        | bleWrite data =>
          have hone : (writes [⟨.bleWrite data, a⟩]).length = 1 := rfl
          have hn : (writes h).length = n := by
            have hlt : ¬ n < (writes h).length := hlt
            omega
          exact ⟨_, data, a, k, hst, rfl, hn, .refl⟩
        | _ => exact absurd ht hlt

/-! ## Recorded runs -/

/-- The recorded device, with room for a number of writes. -/
def recorder (keyPair : Octets 40 × Octets 21) :
    List Bytes × ℕ → (e : Call) → Option (Answer e × List Bytes × ℕ)
  | (qs, n), .bleWrite data =>
    match n with
    | 0 => none
    | n + 1 => (device keyPair qs (.bleWrite data)).map fun r => (r.1, r.2, n)
  | (qs, n), e => (device keyPair qs e).map fun r => (r.1, r.2, n)

/-- The task runs until it ends, waits, or is about to write its `n + 1`-th frame. -/
def advance (keyPair : Octets 40 × Octets 21) (n : ℕ) (s : Board α) : Board α :=
  let r := simulate (recorder keyPair) (s.queue, n) s.hist s.prog
  ⟨s.air, s.heard, r.1.1, s.delivered, r.2.1, r.2.2⟩

/-- The device receives all that was written, and its answer is queued. -/
def reply (n : Bytes) (s : Board α) : Board α :=
  { s with
    heard := okWrites s.hist
    queue := s.queue ++ [n]
    delivered := s.delivered ++ [(okWrites s.hist, n)] }

theorem run_hear {s : Board α} {n : ℕ} (hle : s.heard ≤ n) (hn : n ≤ okWrites s.hist) :
    Run s { s with heard := n } := by
  induction n, hle using Nat.le_induction with
  | base => exact .refl
  | succ n hle ih => exact (ih (by omega)).tail (.hear { s with heard := n } hn)

theorem run_reply {s : Board α} {n : Bytes} (hair : s.air = []) (ho : Ordered s) (hn : n ≠ [])
    (hroom : s.queue.length < notifyQueueLen) : Run s (s.reply n) := by
  obtain ⟨air, g, qs, d, h, p⟩ := s
  obtain rfl : air = [] := hair
  exact ((run_hear ho.heard_le le_rfl).tail (.send _ n)).tail (.deliver hn hroom)

/-- An answer of the recorded device is a step of the board. -/
theorem step_recorder {keyPair : Octets 40 × Octets 21} {air d : List (ℕ × Bytes)} {g n n' : ℕ}
    {qs qs' : List Bytes} {h : Hist} {e : Call} {k : Answer e → Fw α} {a : Answer e}
    (hr : recorder keyPair (qs, n) e = some (a, qs', n')) :
    Step ⟨air, g, qs, d, h, .call e k⟩ ⟨air, g, qs', d, h ++ [⟨e, a⟩], k a⟩ := by
  cases e with
  | queueReceive t =>
    cases qs with
    | nil => cases hr
    | cons m qs =>
      cases hr
      exact .receive m
  | bleWrite data =>
    cases n with
    | zero => cases hr
    | succ n =>
      cases hr
      exact .answer _ (fun t h => nomatch h) trivial
  | hashCompute =>
    cases hr
    exact .answer _ (fun t h => nomatch h) rfl
  | notifyWait => cases hr
  | _ =>
    cases hr
    exact .answer _ (fun t h => nomatch h) trivial

theorem run_advance (keyPair : Octets 40 × Octets 21) (n : ℕ) (s : Board α) :
    Run s (s.advance keyPair n) := by
  have hsteps : Relation.ReflTransGen
      (fun x y : (List Bytes × ℕ) × Hist × Fw α =>
        Step ⟨s.air, s.heard, x.1.1, s.delivered, x.2.1, x.2.2⟩
          ⟨s.air, s.heard, y.1.1, s.delivered, y.2.1, y.2.2⟩)
      ((s.queue, n), s.hist, s.prog)
      (simulate (recorder keyPair) (s.queue, n) s.hist s.prog) := by
    refine reaches_simulate (fun x h e k a x' hh => ?_) s.prog (s.queue, n) s.hist
    exact step_recorder hh
  exact Relation.ReflTransGen.lift
    (fun x : (List Bytes × ℕ) × Hist × Fw α =>
      (⟨s.air, s.heard, x.1.1, s.delivered, x.2.1, x.2.2⟩ : Board α))
    (fun _ _ => id) _ _ hsteps

end Board

end River2
