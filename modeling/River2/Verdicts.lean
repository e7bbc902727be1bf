import River2.BleClient

/-!
# The verdicts of a connection attempt

1. A callback makes a verdict, or starts a procedure that owes one, or leaves the one owed to what
   is in flight; descriptor discovery owes none any more once it has reported a CCCD.
2. `Stage`: which procedures are in flight together. `balance_step`: every callback keeps the
   balance of verdicts made and verdicts owed, but for `lateFailures`.
3. `one_verdict_iff`: when nothing is in flight any more there is one verdict, and one more for a
   late failure.
-/

namespace River2

/-- The event reports a CCCD. -/
def BleEvent.reportsCccd : BleEvent → Bool
  | .dsc _ status d => decide (status = 0 ∧ d.uuid = cccdUuid)
  | _ => false

/-- The event ends descriptor discovery with an error. -/
def BleEvent.failsDscs : BleEvent → Bool
  | .dsc _ status _ => decide (status ≠ 0 ∧ status ≠ hsEdone)
  | _ => false

/-- Whether a CCCD has been reported, and how often descriptor discovery has failed behind one. -/
def dscSummary (log : List (BleEvent × List BleEffect)) : Bool × ℕ :=
  log.foldl (fun s e => (s.1 || e.1.reportsCccd, s.2 + (s.1 && e.1.failsDscs).toNat)) (false, 0)

def cccdReported (log : List (BleEvent × List BleEffect)) : Bool := (dscSummary log).1

/-- How often descriptor discovery has failed after a CCCD was reported. -/
def lateFailures (log : List (BleEvent × List BleEffect)) : ℕ := (dscSummary log).2

theorem dscSummary_snoc (log : List (BleEvent × List BleEffect)) (e : BleEvent × List BleEffect) :
    dscSummary (log ++ [e]) = (cccdReported log || e.1.reportsCccd,
      lateFailures log + (cccdReported log && e.1.failsDscs).toNat) := by
  unfold dscSummary
  rw [List.foldl_append]
  rfl

/-! ## Stages -/

/-- The verdicts owed to a procedure. -/
def BleJob.owes (found : Bool) : BleJob → ℕ
  | .dscs _ _ _ => if found then 0 else 1
  | _ => 1

/-- The verdicts owed to what is in flight. -/
def owed (found : Bool) (jobs : List BleJob) : ℕ := (jobs.map (BleJob.owes found)).sum

/-- What is in flight together; `found` says whether a CCCD has been reported. -/
inductive Stage (found : Bool) (s : BleClient) : List BleJob → Prop where
  | connecting {status conn} (hf : found = false) : Stage found s [.connect status conn]
  | services {rs status} (hst : status ≠ 0) (hf : found = false) (hs : s.cccdFound = false) :
    Stage found s [.svcs rs status]
  | characteristics {rs status} (hst : status ≠ 0) (hf : found = false) (hs : s.cccdFound = false) :
    Stage found s [.chrs rs status]
  | descriptors {conn rs status} (hst : status ≠ 0) (hs : s.cccdFound = found) :
    Stage found s [.dscs conn rs status]
  | subscribing {conn rs status status'} (hst : status ≠ 0) (hf : found = true)
    (hs : s.cccdFound = true) : Stage found s [.dscs conn rs status, .write status']
  | writing {status} : Stage found s [.write status]
  | ended : Stage found s []

/-- Only the flag `s_cccd_found` matters of the statics. -/
theorem Stage.congr {found : Bool} {s s' : BleClient} {jobs : List BleJob}
    (hstage : Stage found s jobs) (hs' : s'.cccdFound = s.cccdFound) : Stage found s' jobs := by
  cases hstage with
  | connecting hf => exact .connecting hf
  | services hst hf hs => exact .services hst hf (hs'.trans hs)
  | characteristics hst hf hs => exact .characteristics hst hf (hs'.trans hs)
  | descriptors hst hs => exact .descriptors hst (hs'.trans hs)
  | subscribing hst hf hs => exact .subscribing hst hf (hs'.trans hs)
  | writing => exact .writing
  | ended => exact .ended

/-- While descriptor discovery is in flight the flag says what it has reported, and behind it there
is the write of the CCCD at most. -/
theorem Stage.of_dscs {found : Bool} {s : BleClient} {conn status : UInt16} {rs : List GattDsc}
    {behind : List BleJob} (hstage : Stage found s (.dscs conn rs status :: behind)) :
    status ≠ 0 ∧ s.cccdFound = found ∧ Stage found s behind ∧ (found = false → behind = []) := by
  cases hstage with
  | descriptors hst hs => exact ⟨hst, hs, .ended, fun _ => rfl⟩
  | subscribing hst hf hs =>
    exact ⟨hst, hs.trans hf.symm, .writing, fun h => absurd (hf.symm.trans h) nofun⟩

/-- The verdicts among the effects of one callback. -/
def made (effs : List BleEffect) : ℕ := (effs.filterMap BleEffect.verdict).length

@[simp] theorem made_nil : made [] = 0 := rfl

theorem made_finishConnect (result : EspErr) : made (finishConnect result) = 1 := by
  unfold made finishConnect
  split_ifs <;> rfl

/-- A callback went from `s` with `jobs` in flight to `s'` with `jobs'`: what it owes now and what
it has made add up to what was owed. -/
structure Kept (found : Bool) (ev : BleEvent) (jobs : List BleJob) (s' : BleClient)
    (jobs' : List BleJob) (effs : List BleEffect) : Prop where
  stage : Stage (found || ev.reportsCccd) s' jobs'
  balance : made effs + owed (found || ev.reportsCccd) jobs' =
    owed found jobs + (found && ev.failsDscs).toNat

theorem kept_call {found : Bool} {ev : BleEvent} {jobs : List BleJob} (rest : List BleJob)
    {s' : BleClient} {call : GattcCall} {rc : ℤ} {new : List BleJob}
    (hnew : Launch anyServer (gattcOrFail call rc) new)
    (hev : (found && ev.failsDscs) = false)
    (howed : owed found jobs = owed (found || ev.reportsCccd) rest + 1)
    (hrefused : Stage (found || ev.reportsCccd) s' rest)
    (hstarted : ∀ job, job.Answers call → Stage (found || ev.reportsCccd) s' (rest ++ [job]) ∧
      job.owes (found || ev.reportsCccd) = 1) :
    Kept found ev jobs s' (rest ++ new) (gattcOrFail call rc) := by
  rcases launch_gattcOrFail hnew with ⟨job, hjob, rfl, heffs⟩ | ⟨-, rfl, -, heffs⟩
  · obtain ⟨hstage, howes⟩ := hstarted job (hjob job rfl)
    refine ⟨hstage, ?_⟩
    rw [heffs, hev, howed]
    unfold owed
    rw [List.map_append, List.sum_append, List.map_singleton, List.sum_singleton, howes]
    show 0 + _ = _ + 0
    omega
  · rw [List.append_nil]
    refine ⟨hrefused, ?_⟩
    rw [heffs, hev, howed]
    show made (finishConnect .fail) + _ = _ + 0
    rw [made_finishConnect]
    omega

/-- A verdict that was owed, or comes of a late failure. -/
theorem kept_verdict {found : Bool} {ev : BleEvent} {jobs jobs' : List BleJob} {s' : BleClient}
    {result : EspErr} (hstage : Stage (found || ev.reportsCccd) s' jobs')
    (howed : owed found jobs + (found && ev.failsDscs).toNat =
      owed (found || ev.reportsCccd) jobs' + 1) :
    Kept found ev jobs s' jobs' (finishConnect result) := by
  refine ⟨hstage, ?_⟩
  rw [made_finishConnect, howed]
  omega

theorem kept_silent {found : Bool} {ev : BleEvent} {jobs jobs' : List BleJob} {s' : BleClient}
    (hstage : Stage (found || ev.reportsCccd) s' jobs')
    (howed : owed found jobs + (found && ev.failsDscs).toNat =
      owed (found || ev.reportsCccd) jobs') :
    Kept found ev jobs s' jobs' [] := by
  refine ⟨hstage, ?_⟩
  rw [made_nil, howed]
  omega

/-! ## One callback -/

section Callbacks

variable {found : Bool} {s : BleClient} {rc : ℤ} {new : List BleJob}

theorem kept_connect {status conn : UInt16} (hf : found = false)
    (hnew : Launch anyServer (gapConnect rc status conn s).2 new) :
    Kept found (.connect status conn) [.connect status conn] (gapConnect rc status conn s).1 new
      (gapConnect rc status conn s).2 := by
  subst hf
  unfold gapConnect at hnew ⊢
  by_cases hst : status = 0
  · rw [if_pos hst] at hnew ⊢
    refine kept_call [] hnew rfl rfl .ended ?_
    rintro (_ | _ | _ | _ | _) hjob <;>
      first | exact hjob.elim | exact ⟨.services hjob rfl rfl, rfl⟩
  · rw [if_neg hst] at hnew ⊢
    obtain rfl := launch_finishConnect hnew
    exact kept_verdict .ended rfl

theorem kept_chrs_call {ev : BleEvent} {jobs : List BleJob} {s' : BleClient}
    {conn startHandle endHandle : UInt16}
    (hnew : Launch anyServer (gattcOrFail (.discAllChrs conn startHandle endHandle) rc) new)
    (hev : ev.reportsCccd = false) (howed : owed false jobs = 1) (hs : s'.cccdFound = false) :
    Kept false ev jobs s' new (gattcOrFail (.discAllChrs conn startHandle endHandle) rc) := by
  refine kept_call [] hnew rfl howed .ended ?_
  rw [hev]
  rintro (_ | _ | _ | _ | _) hjob <;>
    first | exact hjob.elim | exact ⟨.characteristics hjob rfl hs, rfl⟩

theorem kept_svcs {status : UInt16} {service : GattSvc} {j : BleJob} {rest : List BleJob}
    (hs : s.cccdFound = false) (hj : j.owes false = 1)
    (hrest : status = 0 → owed false rest = 1 ∧
      ∀ s' : BleClient, s'.cccdFound = false → Stage false s' rest)
    (hlast : status ≠ 0 → rest = [])
    (hnew : Launch anyServer (discSvcCb rc status service s).2 new) :
    Kept false (.svc status service) [j] (discSvcCb rc status service s).1 (rest ++ new)
      (discSvcCb rc status service s).2 := by
  have howed : owed false [j] = 1 := hj
  unfold discSvcCb at hnew ⊢
  by_cases hst : status = 0
  · obtain ⟨howed', hstage⟩ := hrest hst
    rw [if_pos hst] at hnew ⊢
    split_ifs at hnew ⊢ with hroom
    · obtain rfl := launch_nil hnew
      rw [List.append_nil]
      exact kept_silent (hstage _ hs) (howed.trans howed'.symm)
    · obtain rfl := launch_nil hnew
      rw [List.append_nil]
      exact kept_silent (hstage _ hs) (howed.trans howed'.symm)
  · obtain rfl := hlast hst
    rw [if_neg hst] at hnew ⊢
    split_ifs at hnew ⊢ with hdone hnone
    · obtain rfl := launch_finishConnect hnew
      exact kept_verdict .ended howed
    · exact kept_chrs_call hnew rfl howed hs
    · obtain rfl := launch_finishConnect hnew
      exact kept_verdict .ended howed

theorem kept_chrs {status : UInt16} {chr : GattChr} {j : BleJob} {rest : List BleJob}
    (hs : s.cccdFound = false) (hj : j.owes false = 1)
    (hrest : status = 0 → owed false rest = 1 ∧
      ∀ s' : BleClient, s'.cccdFound = false → Stage false s' rest)
    (hlast : status ≠ 0 → rest = [])
    (hnew : Launch anyServer (discChrCb rc status chr s).2 new) :
    Kept false (.chr status chr) [j] (discChrCb rc status chr s).1 (rest ++ new)
      (discChrCb rc status chr s).2 := by
  have howed : owed false [j] = 1 := hj
  unfold discChrCb at hnew ⊢
  by_cases hst : status = 0
  · obtain ⟨howed', hstage⟩ := hrest hst
    rw [if_pos hst] at hnew ⊢
    obtain rfl := launch_nil hnew
    rw [List.append_nil]
    refine kept_silent (hstage _ ?_) (howed.trans howed'.symm)
    unfold takeNotify takeWrite
    split_ifs <;> exact hs
  · obtain rfl := hlast hst
    rw [if_neg hst] at hnew ⊢
    dsimp only at hnew ⊢
    split_ifs at hnew ⊢ with hdone hmore hnone
    · exact kept_chrs_call hnew rfl howed hs
    · obtain rfl := launch_finishConnect hnew
      exact kept_verdict .ended howed
    · refine kept_call [] hnew rfl howed .ended ?_
      rintro (_ | _ | _ | _ | _) hjob <;>
        first | exact hjob.elim | exact ⟨.descriptors hjob.2 hs, rfl⟩
    · obtain rfl := launch_finishConnect hnew
      exact kept_verdict .ended howed

/-- Descriptor discovery reports a descriptor; `behind` is the CCCD's write, if it is in flight. -/
theorem kept_dscs_report {conn status : UInt16} {r : GattDsc} {rs : List GattDsc}
    {behind : List BleJob} (hstage : Stage found s (.dscs conn (r :: rs) status :: behind))
    (hnew : Launch anyServer (discDscCb rc conn 0 r s).2 new) :
    Kept found (.dsc conn 0 r) (.dscs conn (r :: rs) status :: behind) (discDscCb rc conn 0 r s).1
      (.dscs conn rs status :: behind ++ new) (discDscCb rc conn 0 r s).2 := by
  have hfails : (found && (BleEvent.dsc conn 0 r).failsDscs) = false := Bool.and_false found
  have hreports : (BleEvent.dsc conn 0 r).reportsCccd = decide (r.uuid = cccdUuid) :=
    decide_eq_decide.mpr (and_iff_right rfl)
  obtain ⟨hst, hfound, -, hnone⟩ := hstage.of_dscs
  unfold discDscCb at hnew ⊢
  rw [if_pos rfl] at hnew ⊢
  by_cases hcccd : s.cccdFound = false ∧ r.uuid = cccdUuid
  · rw [if_pos hcccd] at hnew ⊢
    obtain ⟨hs, huuid⟩ := hcccd
    rw [hfound] at hs
    subst hs
    obtain rfl := hnone rfl
    refine kept_call [.dscs conn rs status] hnew hfails ?_ ?_ ?_
    · rw [hreports, decide_eq_true huuid]
      rfl
    · rw [hreports, decide_eq_true huuid]
      exact .descriptors hst rfl
    · rw [hreports, decide_eq_true huuid]
      rintro (_ | _ | _ | _ | _) hjob <;>
        first | exact hjob.elim | exact ⟨.subscribing hst rfl rfl, rfl⟩
  · rw [if_neg hcccd] at hnew ⊢
    obtain rfl := launch_nil hnew
    have hsame : (found || (BleEvent.dsc conn 0 r).reportsCccd) = found := by
      rw [hreports]
      cases found with
      | true => rfl
      | false => exact decide_eq_false fun huuid => hcccd ⟨hfound, huuid⟩
    rw [List.append_nil]
    refine kept_silent ?_ ?_
    · rw [hsame]
      cases hstage with
      | descriptors hst hs => exact .descriptors hst hs
      | subscribing hst hf hs => exact .subscribing hst hf hs
    · rw [hsame, hfails]
      rfl

theorem kept_dscs_end {conn status : UInt16} {behind : List BleJob}
    (hstage : Stage found s (.dscs conn [] status :: behind))
    (hnew : Launch anyServer (discDscCb rc conn status default s).2 new) :
    Kept found (.dsc conn status default) (.dscs conn [] status :: behind)
      (discDscCb rc conn status default s).1 (behind ++ new)
      (discDscCb rc conn status default s).2 := by
  obtain ⟨hst, hfound, hbehind, hnone⟩ := hstage.of_dscs
  have hsame : (found || (BleEvent.dsc conn status default).reportsCccd) = found := by
    rw [show (BleEvent.dsc conn status default).reportsCccd = false from
      decide_eq_false fun h => hst h.1, Bool.or_false]
  have howed : owed found (.dscs conn [] status :: behind) =
      (if found then 0 else 1) + owed found behind := rfl
  unfold discDscCb at hnew ⊢
  rw [if_neg hst] at hnew ⊢
  by_cases hdone : status = hsEdone
  · have hfails : (BleEvent.dsc conn status default).failsDscs = false :=
      decide_eq_false fun h => h.2 hdone
    rw [if_pos hdone] at hnew ⊢
    by_cases hs : s.cccdFound = false
    · rw [if_pos hs] at hnew ⊢
      obtain rfl := launch_finishConnect hnew
      rw [hfound] at hs
      subst hs
      obtain rfl := hnone rfl
      rw [List.append_nil]
      exact kept_verdict (by rw [hsame]; exact .ended) (by rw [hsame, hfails]; rfl)
    · rw [if_neg hs] at hnew ⊢
      obtain rfl := launch_nil hnew
      rw [List.append_nil]
      refine kept_silent (by rwa [hsame]) ?_
      rw [hsame, hfails, howed, ← hfound, Bool.eq_true_of_not_eq_false hs]
      exact Nat.zero_add _
  · have hfails : (BleEvent.dsc conn status default).failsDscs = true :=
      decide_eq_true ⟨hst, hdone⟩
    rw [if_neg hdone] at hnew ⊢
    obtain rfl := launch_finishConnect hnew
    rw [List.append_nil]
    refine kept_verdict (by rwa [hsame]) ?_
    rw [hsame, hfails, howed]
    cases found with
    | true =>
      show 0 + owed true behind + 1 = _
      omega
    | false =>
      show 1 + owed false behind + 0 = _
      omega

/-- The write of the CCCD ends; `before` is descriptor discovery, if it is in flight. -/
theorem kept_write {status : UInt16} (before : List BleJob)
    (hstage : Stage found s (before ++ [.write status]))
    (hnew : Launch anyServer (onCccdWrite status) new) :
    Kept found (.written status) (before ++ [.write status]) s (before ++ new)
      (onCccdWrite status) := by
  obtain ⟨result, hresult⟩ := exists_finishConnect status
  rw [hresult] at hnew ⊢
  obtain rfl := launch_finishConnect hnew
  have hsame : (found || (BleEvent.written status).reportsCccd) = found := Bool.or_false found
  have hfails : (found && (BleEvent.written status).failsDscs) = false := Bool.and_false found
  rw [List.append_nil]
  refine kept_verdict ?_ ?_
  · rw [hsame]
    generalize hjobs : before ++ [.write status] = jobs at hstage
    rcases before with _ | ⟨j, before⟩
    · exact .ended
    · cases hstage with
      | subscribing hst hf hs =>
        rcases before with _ | ⟨j', before⟩
        · obtain ⟨rfl, -⟩ := List.cons.inj hjobs
          exact .descriptors hst (hs.trans hf.symm)
        · simp at hjobs
      | _ => simp at hjobs
  · rw [hsame, hfails]
    unfold owed
    rw [List.map_append, List.sum_append]
    rfl

end Callbacks

/-! ## Runs -/

/-- The balance of an attempt: verdicts made and owed are one, and one more for each late
failure. -/
structure Balance (a : Attempt) : Prop where
  stage : Stage (cccdReported a.log) a.client a.jobs
  verdicts : (verdicts a.log).length + owed (cccdReported a.log) a.jobs = 1 + lateFailures a.log

theorem balance_begin (s : BleClient) (status conn : UInt16) :
    Balance (Attempt.begin s status conn) := ⟨.connecting rfl, rfl⟩

theorem Balance.snoc {s s' : BleClient} {jobs jobs' : List BleJob}
    {log : List (BleEvent × List BleEffect)} {ev : BleEvent} {effs : List BleEffect}
    (hb : Balance ⟨s, jobs, log⟩) (hk : Kept (cccdReported log) ev jobs s' jobs' effs) :
    Balance ⟨s', jobs', log ++ [(ev, effs)]⟩ := by
  have hreported : cccdReported (log ++ [(ev, effs)]) = (cccdReported log || ev.reportsCccd) :=
    congrArg Prod.fst (dscSummary_snoc log (ev, effs))
  have hlate : lateFailures (log ++ [(ev, effs)]) =
      lateFailures log + (cccdReported log && ev.failsDscs).toNat :=
    congrArg Prod.snd (dscSummary_snoc log (ev, effs))
  refine ⟨?_, ?_⟩
  · rw [hreported]
    exact hk.stage
  · have hone : (River2.verdicts [(ev, effs)]).length = made effs :=
      congrArg List.length (List.append_nil _)
    have hbefore := hb.verdicts
    have hnow := hk.balance
    rw [verdicts_append, List.length_append, hone, hreported, hlate]
    dsimp only at hbefore ⊢
    omega

/-- **One step** keeps the balance. -/
theorem balance_step {a b : Attempt} (hb : Balance a) (hs : Attempt.Step anyServer a b) :
    Balance b := by
  cases hs with
  | disconnect =>
    refine Balance.snoc hb ⟨?_, ?_⟩
    · rw [show BleEvent.disconnect.reportsCccd = false from rfl, Bool.or_false]
      exact hb.stage.congr rfl
    · rw [show BleEvent.disconnect.reportsCccd = false from rfl, Bool.or_false,
        show BleEvent.disconnect.failsDscs = false from rfl, Bool.and_false]
      exact Nat.zero_add _
  | @callback s js j js' log rc new hnew =>
    refine Balance.snoc hb ?_
    have hstage := hb.stage
    dsimp only at hstage
    generalize cccdReported log = found at hstage ⊢
    generalize hjobs : js ++ j :: js' = jobs at hstage ⊢
    cases hstage with
    | connecting hf =>
      obtain ⟨rfl, rfl, rfl⟩ := append_cons_eq_singleton hjobs
      exact kept_connect hf hnew
    | @services rs status hst hf hs =>
      obtain ⟨rfl, rfl, rfl⟩ := append_cons_eq_singleton hjobs
      subst hf
      cases rs with
      | nil => exact kept_svcs hs rfl (fun h => absurd h hst) (fun _ => rfl) hnew
      | cons r rs =>
        exact kept_svcs hs rfl (fun _ => ⟨rfl, fun _ => .services hst rfl⟩)
          (fun h => absurd rfl h) hnew
    | @characteristics rs status hst hf hs =>
      obtain ⟨rfl, rfl, rfl⟩ := append_cons_eq_singleton hjobs
      subst hf
      cases rs with
      | nil => exact kept_chrs hs rfl (fun h => absurd h hst) (fun _ => rfl) hnew
      | cons r rs =>
        exact kept_chrs hs rfl (fun _ => ⟨rfl, fun _ => .characteristics hst rfl⟩)
          (fun h => absurd rfl h) hnew
    | @descriptors conn rs status hst hs =>
      obtain ⟨rfl, rfl, rfl⟩ := append_cons_eq_singleton hjobs
      cases rs with
      | nil => exact kept_dscs_end (.descriptors hst hs) hnew
      | cons r rs => exact kept_dscs_report (.descriptors hst hs) hnew
    | @subscribing conn rs status status' hst hf hs =>
      rcases append_cons_eq_pair hjobs with ⟨rfl, rfl, rfl⟩ | ⟨rfl, rfl, rfl⟩
      · cases rs with
        | nil => exact kept_dscs_end (.subscribing hst hf hs) hnew
        | cons r rs => exact kept_dscs_report (.subscribing hst hf hs) hnew
      · exact kept_write [.dscs conn rs status] (.subscribing hst hf hs) hnew
    | writing =>
      obtain ⟨rfl, rfl, rfl⟩ := append_cons_eq_singleton hjobs
      exact kept_write [] .writing hnew
    | ended => simp at hjobs

theorem balance_runs {s : BleClient} {status conn : UInt16} {a : Attempt}
    (hrun : Attempt.Runs anyServer (.begin s status conn) a) : Balance a := by
  induction hrun with
  | refl => exact balance_begin s status conn
  | tail _ hs ih => exact balance_step ih hs

/-- **One verdict.** Whatever the device reports, in whatever order the procedures call back, and
whichever calls fail: an attempt without late failures has never more than one verdict, and an
attempt with nothing in flight has exactly one, if and only if it had no late failure. -/
theorem one_verdict_iff {s : BleClient} {status conn : UInt16} {a : Attempt}
    (hrun : Attempt.Runs anyServer (.begin s status conn) a) :
    (lateFailures a.log = 0 → (verdicts a.log).length ≤ 1) ∧
    (a.jobs = [] → ((verdicts a.log).length = 1 ↔ lateFailures a.log = 0)) := by
  have hb := (balance_runs hrun).verdicts
  refine ⟨fun hlate => by omega, fun hend => ?_⟩
  have howed : owed (cccdReported a.log) a.jobs = 0 := by
    rw [hend]
    rfl
  omega

/-! ## Sample attempts -/

namespace Sample

/-- A device with one service that holds the rfcomm-style pair and a CCCD. `dscStatus` is how
descriptor discovery ends. -/
def serve (dscStatus : UInt16) : GattcCall → Option BleJob
  | .discAllSvcs _ => some (.svcs [⟨1, 6⟩] hsEdone)
  | .discAllChrs _ _ _ =>
    some (.chrs [⟨3, rfcommWriteUuid16⟩, ⟨5, rfcommNotifyUuid16⟩] hsEdone)
  | .discAllDscs conn _ _ => some (.dscs conn [⟨6, cccdUuid⟩] dscStatus)
  | .writeFlat _ _ _ => some (.write 0)

theorem answers_serve {dscStatus : UInt16} (hst : dscStatus ≠ 0) (call : GattcCall) :
    anyServer call (serve dscStatus call) := by
  have hdone : hsEdone ≠ 0 := by decide
  rintro job hjob
  cases call <;> cases hjob
  · exact hdone
  · exact hdone
  · exact ⟨rfl, hst⟩
  · trivial

/-- The attempt on that device. The write calls back before descriptor discovery ends. -/
def attempt (dscStatus : UInt16) : Attempt :=
  (Attempt.begin client 0 7).play (serve dscStatus) [0, 0, 0, 0, 0, 0, 0, 1, 0]

end Sample

/-- The device reports everything: one verdict. -/
theorem one_verdict_iff_sample :
    let a := Sample.attempt hsEdone
    (lateFailures a.log = 0 → (verdicts a.log).length ≤ 1) ∧
    (a.jobs = [] → ((verdicts a.log).length = 1 ↔ lateFailures a.log = 0)) :=
  one_verdict_iff (runs_play (Sample.answers_serve (by decide)) (.begin Sample.client 0 7)
    [0, 0, 0, 0, 0, 0, 0, 1, 0])

/-- The connection is lost (`BLE_HS_ENOTCONN`) when the CCCD has been written, but descriptor
discovery has not ended: both verdicts. -/
theorem two_verdicts :
    Attempt.Runs anyServer (.begin Sample.client 0 7) (Sample.attempt 7) ∧
    (Sample.attempt 7).jobs = [] ∧
    verdicts (Sample.attempt 7).log = [evtConnected, evtConnectError] := by
  refine ⟨runs_play (Sample.answers_serve (by decide)) _ _, ?_⟩
  decide

end River2
