import River2.Station

/-!
# What the loop has last read

`lastRead` is the value the loop last obtained from the getter of an output. `caughtUp_run`: in
every reachable state it is what telemetry has last stored, unless the event of that store is on its
way. `lastRead_at_rest`: with nothing pending, the loop waiting and telemetry between packets, it is
the variable's value.
-/

namespace River2

open Prog

/-- The value last obtained from the output's getter, -1 if there was none. -/
def lastRead (o : Output) (log : Hist) : Int8 :=
  log.foldl
    (fun v ev =>
      match ev with
      | ⟨.load x, v'⟩ => if x = o.var then v' else v
      | _ => v)
    (-1)

@[simp] theorem lastRead_load (o : Output) (log : Hist) (v : Int8) :
    lastRead o (log ++ [⟨.load o.var, v⟩]) = v := by
  unfold lastRead
  rw [List.foldl_concat]
  exact if_pos rfl

theorem lastRead_snoc {o : Output} {log : Hist} {e : Call} {a : Answer e} (he : e ≠ .load o.var) :
    lastRead o (log ++ [⟨e, a⟩]) = lastRead o log := by
  unfold lastRead
  rw [List.foldl_concat]
  cases e with
  | load x => exact if_neg fun hx => he (congrArg Call.load hx)
  | _ => rfl

/-- Only taking the notification value and reading the variable move what the loop owes. -/
theorem owed_next {o : Output} {b : Belief} {e : Call} {a : Answer e} (hwait : e ≠ .notifyWait)
    (he : e ≠ .load o.var) : (b.next o ⟨e, a⟩).owed = b.owed := by
  cases e with
  | notifyWait => exact absurd rfl hwait
  | load x => exact congrArg Belief.owed (if_neg fun hx => he (congrArg Call.load hx))
  | bleWrite data =>
    show Belief.owed (if a = .ok ∧ b.commanding then { b with on := !b.on } else b) = b.owed
    split_ifs <;> rfl
  | _ => rfl

namespace Station

variable {s t : Station}

/-- The loop has read what telemetry has last stored, or is on the way to. -/
def CaughtUp (s : Station) : Prop :=
  ∀ o, s.OnTheWay o ∨ lastRead o s.log = (published o s.heard).value

theorem caughtUp_boot : boot.CaughtUp := fun _ => .inr rfl

theorem caughtUp_hear (hun : s.CaughtUp) (e : Call) (a : Answer e) (k : Answer e → Fw ℤ) :
    (s.hear e a k).CaughtUp := by
  intro o
  rcases hear_cases (s := s) e a k with hway | ⟨hsame, hkeep⟩
  · exact .inl hway
  · refine (hun o).imp hkeep fun hread => ?_
    rw [hsame]
    exact hread

theorem caughtUp_wake (hun : s.CaughtUp) (hinv : Inv s) {c : Crypto} {session : Session}
    {st : MainState} (hmain : s.main = .ret st) : (s.wake c session st).CaughtUp := by
  intro o
  have hinf := hinv.main
  rw [hmain] at hinf
  refine (hun o).imp (onTheWay_wake (hinf.2 o)) fun hread => ?_
  exact (lastRead_snoc (e := .notifyWait) nofun).trans hread

theorem caughtUp_act (hun : s.CaughtUp) (hinv : Inv s) {e : Call} {a : Answer e}
    {k : Answer e → Fw MainState} (hmain : s.main = .call e k) (hans : s.Answers e a) :
    (s.act e a k).CaughtUp := by
  intro o
  have hpre := hinv.main
  rw [hmain] at hpre
  replace hpre : mainContract.pre s.log e := hpre.1
  by_cases he : e = .load o.var
  · -- the getter returns what is stored
    subst he
    right
    show lastRead o (s.log ++ [⟨.load o.var, a⟩]) = _
    rw [lastRead_load, show a = s.vars o.var from hans]
    exact hinv.vars o
  · have hwait : e ≠ .notifyWait := by
      rintro rfl
      exact hpre
    have hpending : e.notifying s.pending = s.pending := by
      cases e <;> first | rfl | exact hpre.elim
    refine (hun o).imp (onTheWay_act hpending (owed_next hwait he)) fun hread => ?_
    exact (lastRead_snoc he).trans hread

/-- **Every step** keeps it. -/
theorem caughtUp_step {c : Crypto} {session : Session} {intervalMs : ℕ} (hun : s.CaughtUp)
    (hinv : Inv s) (hst : Step c session intervalMs s t) : t.CaughtUp := by
  cases hst with
  | post bits => exact fun o => (hun o).imp_left (onTheWay_post bits)
  | take pkt => exact hun
  | hear a => exact caughtUp_hear hun _ a _
  | wake hmain => exact caughtUp_wake hun hinv hmain
  | act a hmain hans => exact caughtUp_act hun hinv hmain hans

/-- **Every run** keeps it. -/
theorem caughtUp_run {c : Crypto} {session : Session} {intervalMs : ℕ}
    (hrun : Run c session intervalMs boot s) : s.CaughtUp := by
  induction hrun with
  | refl => exact caughtUp_boot
  | tail hr hst ih => exact caughtUp_step ih (inv_run inv_boot hr) hst

/-- **No change is lost.** No notification is pending, the loop waits, telemetry is between packets:
the value the loop last obtained of an output is the one its variable has, also if several changes
went into one wake-up. -/
theorem lastRead_at_rest {c : Crypto} {session : Session} {intervalMs : ℕ} {st : MainState}
    {next : ℤ} (hrun : Run c session intervalMs boot s) (hpending : s.pending = 0)
    (hmain : s.main = .ret st) (htel : s.telemetry = .ret next) (o : Output) :
    lastRead o s.log = s.vars o.var := by
  have hinv := inv_run inv_boot hrun
  have hset := hinv.telemetry
  rw [htel] at hset
  have hinf := hinv.main
  rw [hmain] at hinf
  rw [hinv.vars o]
  rcases caughtUp_run hrun o with (hdue | hpend | howed) | hread
  · exact absurd ((hset o).1.symm.trans hdue) Bool.false_ne_true
  · rw [hpending, carries_zero] at hpend
    cases hpend
  · exact absurd ((hinf.2 o).symm.trans howed) Bool.false_ne_true
  · exact hread

/-- Two heartbeats before the loop wakes once: it reads what the second has stored. -/
theorem lastRead_at_rest_coalesced :
    let s := ((boot.packet 60000 (heartbeat 1 0)).packet 60000 (heartbeat 2 1)).round Sample.crypto
      Sample.session
    lastRead .ac s.log = s.vars .acEnabled ∧ lastRead .ac s.log = 2 := by
  intro s
  have hrun : Run Sample.crypto Sample.session 60000 boot s :=
    ((run_packet (heartbeat 1 0) boot).trans (run_packet (heartbeat 2 1) _)).trans (run_round _)
  exact ⟨lastRead_at_rest hrun (by decide +kernel)
    (eq_ret_of_result? (a := ⟨⟨true, true⟩, ⟨true, true⟩⟩) (by decide +kernel))
    (eq_ret_of_result? (a := 0) (by decide +kernel)) .ac, by decide +kernel⟩

end Station

end River2
