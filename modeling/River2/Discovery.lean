import River2.GattTable

/-!
# Attempts on a GATT table

1. `Selected`: the handles the client has picked are those of the first matching characteristics
   among the ones reported so far.
2. `TableStage`: where an attempt on the table stands. Every callback takes it from stage to stage.
3. `table_attempt`: how it ends. The client subscribes to the first CCCD behind the first notify
   characteristic, or it is refused because something is missing.
-/

namespace River2

/-! ## What is left of an attempt -/

/-- The handle and the data passed to `ble_gattc_write_flat`. -/
def BleEffect.subscribes : BleEffect → Option (UInt16 × Bytes)
  | .gattc (.writeFlat _ handle data) _ => some (handle, data)
  | _ => none

/-- The descriptors the attempt has tried to write, each with the data. -/
def subscriptions (log : List (BleEvent × List BleEffect)) : List (UInt16 × Bytes) :=
  log.flatMap fun e => e.2.filterMap BleEffect.subscribes

/-- The write of the CCCD has failed. -/
def BleEvent.writeFails : BleEvent → Bool
  | .written status => decide (status ≠ 0)
  | _ => false

/-- The write of the CCCD could not be started. -/
def BleEffect.writeFails : BleEffect → Bool
  | .gattc (.writeFlat _ _ _) rc => decide (rc ≠ 0)
  | _ => false

def writeFails (e : BleEvent × List BleEffect) : Bool :=
  e.1.writeFails || e.2.any BleEffect.writeFails

def writeFailed (log : List (BleEvent × List BleEffect)) : Bool := log.any writeFails

theorem subscriptions_append (log log' : List (BleEvent × List BleEffect)) :
    subscriptions (log ++ log') = subscriptions log ++ subscriptions log' := List.flatMap_append

theorem writeFailed_append (log log' : List (BleEvent × List BleEffect)) :
    writeFailed (log ++ log') = (writeFailed log || writeFailed log') := List.any_append

/-- The value handle of a characteristic found, 0 for none. -/
def handleOf (o : Option (TableSvc × TableChr)) : UInt16 := (o.map fun x => x.2.valHandle).getD 0

/-- What the client has picked from the characteristics reported so far. -/
structure Selected (seen : List (TableSvc × TableChr)) (s : BleClient) : Prop where
  write : s.writeHandle = handleOf (seen.find? isWriteChr)
  notify : s.notifyHandle = handleOf (seen.find? isNotifyChr)
  svcEnd : ∀ x, seen.find? isNotifyChr = some x → s.notifySvcEnd = x.1.endHandle

theorem handleOf_eq_zero {seen : List (TableSvc × TableChr)} {p : TableSvc × TableChr → Bool}
    (hpos : ∀ x ∈ seen, x.2.valHandle ≠ 0) : handleOf (seen.find? p) = 0 ↔ seen.find? p = none := by
  cases hx : seen.find? p with
  | none => exact iff_of_true rfl rfl
  | some x => exact iff_of_false (hpos x (List.mem_of_find?_eq_some hx)) nofun

/-- One more characteristic matters if there is none yet. -/
theorem find?_snoc {seen : List (TableSvc × TableChr)} {x : TableSvc × TableChr}
    (p : TableSvc × TableChr → Bool) (hpos : ∀ x ∈ seen, x.2.valHandle ≠ 0) :
    (seen ++ [x]).find? p =
      if handleOf (seen.find? p) = 0 ∧ p x = true then some x else seen.find? p := by
  rw [List.find?_append]
  cases hf : seen.find? p with
  | some y =>
    have hy : handleOf (some y) ≠ 0 := hpos y (List.mem_of_find?_eq_some hf)
    rw [if_neg fun h => hy h.1, Option.some_or]
  | none =>
    rw [Option.none_or, List.find?_singleton]
    exact if_congr (and_iff_right rfl).symm rfl rfl

theorem handleOf_ite {c : Prop} [Decidable c] {x : TableSvc × TableChr}
    {o : Option (TableSvc × TableChr)} :
    handleOf (if c then some x else o) = if c then x.2.valHandle else handleOf o := by
  split_ifs <;> rfl

section Select

variable {seen : List (TableSvc × TableChr)} {s : BleClient} {x : TableSvc × TableChr}

theorem selected_takeWrite (hpos : ∀ x ∈ seen, x.2.valHandle ≠ 0)
    (hwrite : s.writeHandle = handleOf (seen.find? isWriteChr)) :
    (takeWrite x.2.report s).writeHandle = handleOf ((seen ++ [x]).find? isWriteChr) := by
  rw [find?_snoc _ hpos, handleOf_ite, ← hwrite]
  unfold takeWrite
  have hiff : isWriteUuid x.2.report.uuid ↔ isWriteChr x = true := decide_eq_true_iff.symm
  by_cases hc : s.writeHandle = 0 ∧ isWriteUuid x.2.report.uuid
  · rw [if_pos hc, if_pos ⟨hc.1, hiff.mp hc.2⟩]
    rfl
  · rw [if_neg hc, if_neg fun h => hc ⟨h.1, hiff.mpr h.2⟩]

theorem selected_takeNotify (hpos : ∀ x ∈ seen, x.2.valHandle ≠ 0)
    (hsvc : s.services.getD s.serviceIdx default = x.1.report)
    (hnotify : s.notifyHandle = handleOf (seen.find? isNotifyChr))
    (hend : ∀ y, seen.find? isNotifyChr = some y → s.notifySvcEnd = y.1.endHandle) :
    (takeNotify x.2.report s).notifyHandle = handleOf ((seen ++ [x]).find? isNotifyChr) ∧
    ∀ y, (seen ++ [x]).find? isNotifyChr = some y →
      (takeNotify x.2.report s).notifySvcEnd = y.1.endHandle := by
  rw [find?_snoc _ hpos, handleOf_ite, ← hnotify]
  unfold takeNotify
  have hiff : isNotifyUuid x.2.report.uuid ↔ isNotifyChr x = true := decide_eq_true_iff.symm
  by_cases hc : s.notifyHandle = 0 ∧ isNotifyUuid x.2.report.uuid
  · rw [if_pos hc, if_pos ⟨hc.1, hiff.mp hc.2⟩]
    refine ⟨rfl, fun y hy => ?_⟩
    rw [if_pos ⟨hc.1, hiff.mp hc.2⟩] at hy
    cases hy
    exact congrArg GattSvc.endHandle hsvc
  · rw [if_neg hc, if_neg fun h => hc ⟨h.1, hiff.mpr h.2⟩]
    refine ⟨rfl, fun y hy => hend y ?_⟩
    rwa [if_neg fun h => hc ⟨h.1, hiff.mpr h.2⟩] at hy

/-- `disc_chr_cb` on one more characteristic of the service whose turn it is. -/
theorem selected_snoc (hpos : ∀ x ∈ seen, x.2.valHandle ≠ 0) (hsel : Selected seen s)
    (hsvc : s.services.getD s.serviceIdx default = x.1.report) :
    Selected (seen ++ [x]) (takeNotify x.2.report (takeWrite x.2.report s)) := by
  have hsame : (takeWrite x.2.report s).notifyHandle = s.notifyHandle ∧
      (takeWrite x.2.report s).notifySvcEnd = s.notifySvcEnd ∧
      (takeWrite x.2.report s).services = s.services ∧
      (takeWrite x.2.report s).serviceIdx = s.serviceIdx := by
    unfold takeWrite
    split_ifs <;> exact ⟨rfl, rfl, rfl, rfl⟩
  obtain ⟨hn, he, hsvcs, hidx⟩ := hsame
  have hkeep : ∀ s₁ : BleClient, (takeNotify x.2.report s₁).writeHandle = s₁.writeHandle := by
    intro s₁
    unfold takeNotify
    split_ifs <;> rfl
  have hnotify := selected_takeNotify (s := takeWrite x.2.report s) (x := x) hpos
    (by rw [hsvcs, hidx, hsvc]) (by rw [hn, hsel.notify]) (by rw [he]; exact hsel.svcEnd)
  exact ⟨(hkeep _).trans (selected_takeWrite hpos hsel.write), hnotify.1, hnotify.2⟩

end Select

/-! ## Stages -/

/-- The verdict on a CCCD that was written, or not. -/
def writeVerdict (failed : Bool) : UInt32 := if failed then evtConnectError else evtConnected

/-- What is in flight once the CCCD is found, with the verdict if there is one already. -/
inductive Subscribing : List UInt32 → Bool → List BleJob → Prop where
  | both {conn rs status} : Subscribing [] false [.dscs conn rs hsEdone, .write status]
  | discovering {conn rs failed} :
    Subscribing [writeVerdict failed] failed [.dscs conn rs hsEdone]
  | writing {status} : Subscribing [] false [.write status]
  | ended {failed} : Subscribing [writeVerdict failed] failed []

/-- Where an attempt on the table stands: the statics, the verdicts and subscriptions so far,
whether the write has failed, and what is in flight. -/
inductive TableStage (t : GattTable) (s : BleClient) :
    List UInt32 → List (UInt16 × Bytes) → Bool → List BleJob → Prop where
  | connecting {conn} : TableStage t s [] [] false [.connect 0 conn]
  | services {done todo} (hsvcs : t.services = done ++ todo)
    (hrec : s.services = (done.take maxServices).map TableSvc.report)
    (hsel : Selected [] s) (hfound : s.cccdFound = false) :
    TableStage t s [] [] false [.svcs (todo.map TableSvc.report) hsEdone]
  | characteristics {pre svc post done todo} (hrec : t.recorded = pre ++ svc :: post)
    (hchrs : svc.chrs = done ++ todo) (hsvcs : s.services = t.recorded.map TableSvc.report)
    (hidx : s.serviceIdx = pre.length)
    (hsel : Selected (pre.flatMap TableSvc.offers ++ done.map (svc, ·)) s)
    (hfound : s.cccdFound = false) :
    TableStage t s [] [] false [.chrs (todo.map TableChr.report) hsEdone]
  | descriptors {conn w n done todo} (hw : t.writeChr = some w) (hn : t.notifyChr = some n)
    (hsel : Selected t.offered s) (hbehind : attrsBehind n = done ++ todo)
    (hnone : done.find? isCccd = none) (hfound : s.cccdFound = false) :
    TableStage t s [] [] false [.dscs conn todo hsEdone]
  | subscribed {w n d vs failed jobs} (hw : t.writeChr = some w) (hn : t.notifyChr = some n)
    (hsel : Selected t.offered s) (hd : cccdBehind n = some d) (hfound : s.cccdFound = true)
    (hjobs : Subscribing vs failed jobs) :
    TableStage t s vs [(d.handle, [0x01, 0x00])] failed jobs
  | refused (hsel : Selected t.offered s)
    (hnone : t.writeChr = none ∨ t.notifyChr = none ∨
      ∃ n, t.notifyChr = some n ∧ cccdBehind n = none) :
    TableStage t s [evtConnectError] [] false []

/-- A stage goes on by an event and its effects. -/
def Goes (t : GattTable) (s' : BleClient) (vs : List UInt32) (subs : List (UInt16 × Bytes))
    (failed : Bool) (ev : BleEvent) (effs : List BleEffect) (jobs' : List BleJob) : Prop :=
  TableStage t s' (vs ++ effs.filterMap BleEffect.verdict)
    (subs ++ effs.filterMap BleEffect.subscribes) (failed || writeFails (ev, effs)) jobs'

section Stages

variable {t : GattTable} {s : BleClient} {rc : ℤ} {new : List BleJob} {vs : List UInt32}
  {subs : List (UInt16 × Bytes)} {failed : Bool}

theorem mem_offered {x : TableSvc × TableChr} (hx : x ∈ t.offered) :
    x.1 ∈ t.services ∧ x.2 ∈ x.1.chrs := by
  obtain ⟨svc, hsvc, hin⟩ := List.mem_flatMap.mp hx
  obtain ⟨c, hc, rfl⟩ := List.mem_map.mp hin
  exact ⟨List.mem_of_mem_take hsvc, hc⟩

theorem offered_pos {x : TableSvc × TableChr} (hx : x ∈ t.offered) : x.2.valHandle ≠ 0 :=
  valHandle_ne_zero (mem_offered hx).1 (mem_offered hx).2

theorem launch_table {call : GattcCall} (h : Launch (tableServer t) (gattcOrFail call rc) new)
    (hcall : ∀ outcome, tableServer t call outcome → outcome = some (t.job call)) :
    new = [t.job call] ∧ gattcOrFail call rc = [.gattc call 0] := by
  rcases launch_gattcOrFail h with ⟨job, hjob, rfl, heffs⟩ | ⟨-, -, hnone, -⟩
  · cases hcall _ hjob
    exact ⟨rfl, heffs⟩
  · cases hcall _ hnone

theorem goes_silent {ev : BleEvent} {s' : BleClient} {jobs' : List BleJob}
    (hev : ev.writeFails = false) (hstage : TableStage t s' vs subs failed jobs') :
    Goes t s' vs subs failed ev [] jobs' := by
  unfold Goes writeFails
  rw [hev]
  show TableStage t s' (vs ++ []) (subs ++ []) (failed || false) jobs'
  rw [List.append_nil, List.append_nil, Bool.or_false]
  exact hstage

theorem goes_refused {ev : BleEvent} {s' : BleClient} {result : EspErr}
    (hev : ev.writeFails = false) (hresult : result ≠ .ok) (hsel : Selected t.offered s')
    (hnone : t.writeChr = none ∨ t.notifyChr = none ∨
      ∃ n, t.notifyChr = some n ∧ cccdBehind n = none) :
    Goes t s' [] [] false ev (finishConnect result) [] := by
  unfold Goes writeFails finishConnect
  rw [hev, if_neg hresult]
  exact .refused hsel hnone

theorem recorded_getD {pre post : List TableSvc} {svc : TableSvc}
    (hrec : t.recorded = pre ++ svc :: post) (hsvcs : s.services = t.recorded.map TableSvc.report)
    (hidx : s.serviceIdx = pre.length) : s.services.getD s.serviceIdx default = svc.report := by
  rw [hsvcs, hrec, hidx, List.map_append, List.map_cons, List.getD_eq_getElem?_getD,
    List.getElem?_append_right (by rw [List.length_map]), List.length_map, Nat.sub_self]
  rfl

theorem offered_split {pre post : List TableSvc} {svc : TableSvc}
    (hrec : t.recorded = pre ++ svc :: post) :
    t.offered = pre.flatMap TableSvc.offers ++ (svc.offers ++ post.flatMap TableSvc.offers) := by
  unfold GattTable.offered
  rw [hrec, List.flatMap_append, List.flatMap_cons]

theorem goes_chrs {ev : BleEvent} {s' : BleClient} {pre post : List TableSvc} {svc : TableSvc}
    (hev : ev.writeFails = false) (hrec : t.recorded = pre ++ svc :: post)
    (hsvcs : s'.services = t.recorded.map TableSvc.report) (hidx : s'.serviceIdx = pre.length)
    (hsel : Selected (pre.flatMap TableSvc.offers) s') (hfound : s'.cccdFound = false)
    (hnew : Launch (tableServer t) (beginChrDiscoveryForService rc s'.serviceIdx s') new) :
    Goes t s' [] [] false ev (beginChrDiscoveryForService rc s'.serviceIdx s') new := by
  have hmem : svc ∈ t.services :=
    List.mem_of_mem_take (hrec ▸ List.mem_append_right _ (List.mem_cons_self ..) : svc ∈ t.recorded)
  have hget := recorded_getD hrec hsvcs hidx
  unfold beginChrDiscoveryForService at hnew ⊢
  rw [hget] at hnew ⊢
  obtain ⟨rfl, heffs⟩ := launch_table hnew fun _ h => h
  unfold Goes writeFails
  rw [heffs, hev]
  show TableStage t s' [] [] false [.chrs (t.chrReports svc.startHandle svc.endHandle) hsEdone]
  rw [chrReports_svc hmem]
  refine .characteristics hrec (List.nil_append _).symm hsvcs hidx ?_ hfound
  rwa [List.map_nil, List.append_nil]

theorem goes_dscs {ev : BleEvent} {s' : BleClient} {w n : TableSvc × TableChr}
    (hev : ev.writeFails = false) (hw : t.writeChr = some w) (hn : t.notifyChr = some n)
    (hsel : Selected t.offered s') (hfound : s'.cccdFound = false)
    (hnew : Launch (tableServer t) (beginDescriptorDiscovery rc s') new) :
    Goes t s' [] [] false ev (beginDescriptorDiscovery rc s') new := by
  have hmem := mem_offered (List.mem_of_find?_eq_some hn)
  have hhandle : s'.notifyHandle = n.2.valHandle := by
    rw [hsel.notify]
    exact congrArg handleOf hn
  unfold beginDescriptorDiscovery at hnew ⊢
  rw [hhandle, hsel.svcEnd n hn] at hnew ⊢
  obtain ⟨rfl, heffs⟩ := launch_table hnew fun _ h => h
  unfold Goes writeFails
  rw [heffs, hev]
  show TableStage t s' [] [] false
    [.dscs s'.connHandle (t.dscReports n.2.valHandle n.1.endHandle) hsEdone]
  rw [dscReports_behind hmem.1 hmem.2]
  exact .descriptors hw hn hsel (List.nil_append _).symm rfl hfound

/-- `gap_event_cb` when the connection is made. -/
theorem goes_connect {conn : UInt16}
    (hnew : Launch (tableServer t) (gapConnect rc 0 conn s).2 new) :
    Goes t (gapConnect rc 0 conn s).1 [] [] false (.connect 0 conn) (gapConnect rc 0 conn s).2
      new := by
  unfold gapConnect at hnew ⊢
  rw [if_pos rfl] at hnew ⊢
  obtain ⟨rfl, heffs⟩ := launch_table hnew fun _ h => h
  unfold Goes
  dsimp only at heffs ⊢
  rw [heffs]
  exact .services (List.nil_append _).symm rfl ⟨rfl, rfl, nofun⟩ rfl

/-- `disc_svc_cb` on one more service. -/
theorem goes_service {svc : TableSvc} {done todo : List TableSvc}
    (hsvcs : t.services = done ++ svc :: todo)
    (hrec : s.services = (done.take maxServices).map TableSvc.report) (hsel : Selected [] s)
    (hfound : s.cccdFound = false)
    (hnew : Launch (tableServer t) (discSvcCb rc 0 svc.report s).2 new) :
    Goes t (discSvcCb rc 0 svc.report s).1 [] [] false (.svc 0 svc.report)
      (discSvcCb rc 0 svc.report s).2
      (.svcs (todo.map TableSvc.report) hsEdone :: new) := by
  have hsvcs' : t.services = (done ++ [svc]) ++ todo := by
    rw [hsvcs, List.append_assoc]
    rfl
  have hlen : s.services.length = min maxServices done.length := by
    rw [hrec, List.length_map, List.length_take]
  unfold discSvcCb at hnew ⊢
  rw [if_pos rfl] at hnew ⊢
  by_cases hroom : s.services.length < maxServices
  · rw [if_pos hroom] at hnew ⊢
    obtain rfl := launch_nil hnew
    refine goes_silent rfl (.services hsvcs' ?_ ⟨hsel.write, hsel.notify, nofun⟩ hfound)
    show s.services ++ [svc.report] = _
    rw [hrec, List.take_of_length_le (by omega), List.take_of_length_le
      (by rw [List.length_append, List.length_singleton]; omega), List.map_append]
    rfl
  · rw [if_neg hroom] at hnew ⊢
    obtain rfl := launch_nil hnew
    refine goes_silent rfl (.services hsvcs' ?_ hsel hfound)
    rw [hrec, List.take_append_of_le_length (by omega)]

/-- `disc_svc_cb` when all services are reported. -/
theorem goes_services_done (hrec : s.services = t.recorded.map TableSvc.report)
    (hsel : Selected [] s) (hfound : s.cccdFound = false)
    (hnew : Launch (tableServer t) (discSvcCb rc hsEdone default s).2 new) :
    Goes t (discSvcCb rc hsEdone default s).1 [] [] false (.svc hsEdone default)
      (discSvcCb rc hsEdone default s).2 new := by
  unfold discSvcCb at hnew ⊢
  rw [if_neg (by decide), if_pos rfl] at hnew ⊢
  have hlen : s.services.length = t.recorded.length := by rw [hrec, List.length_map]
  cases hall : t.recorded with
  | nil =>
    rw [hall, List.length_nil] at hlen
    rw [if_pos hlen] at hnew ⊢
    obtain rfl := launch_finishConnect hnew
    have hnone : t.offered = [] := by
      unfold GattTable.offered
      rw [hall]
      rfl
    refine goes_refused rfl nofun (by rwa [hnone]) (.inl ?_)
    unfold GattTable.writeChr
    rw [hnone]
    rfl
  | cons svc post =>
    have hne : s.services.length ≠ 0 := by
      rw [hlen, hall]
      exact nofun
    rw [if_neg hne] at hnew ⊢
    exact goes_chrs rfl (show t.recorded = [] ++ svc :: post from hall) hrec rfl
      ⟨hsel.write, hsel.notify, nofun⟩ hfound hnew

/-- `disc_chr_cb` on one more characteristic. -/
theorem goes_chr {pre post : List TableSvc} {svc : TableSvc} {done todo : List TableChr}
    {c : TableChr} (hrec : t.recorded = pre ++ svc :: post) (hchrs : svc.chrs = done ++ c :: todo)
    (hsvcs : s.services = t.recorded.map TableSvc.report) (hidx : s.serviceIdx = pre.length)
    (hsel : Selected (pre.flatMap TableSvc.offers ++ done.map (svc, ·)) s)
    (hfound : s.cccdFound = false)
    (hnew : Launch (tableServer t) (discChrCb rc 0 c.report s).2 new) :
    Goes t (discChrCb rc 0 c.report s).1 [] [] false (.chr 0 c.report)
      (discChrCb rc 0 c.report s).2 (.chrs (todo.map TableChr.report) hsEdone :: new) := by
  unfold discChrCb at hnew ⊢
  rw [if_pos rfl] at hnew ⊢
  obtain rfl := launch_nil hnew
  have hpos : ∀ x ∈ pre.flatMap TableSvc.offers ++ done.map (svc, ·), x.2.valHandle ≠ 0 := by
    intro x hx
    refine offered_pos (t := t) ?_
    unfold TableSvc.offers at hx
    rw [offered_split hrec, TableSvc.offers, hchrs, List.map_append, List.append_assoc,
      ← List.append_assoc]
    exact List.mem_append_left _ hx
  have hsame : ∀ s₁ : BleClient, (takeNotify c.report (takeWrite c.report s₁)).services =
      s₁.services ∧ (takeNotify c.report (takeWrite c.report s₁)).serviceIdx = s₁.serviceIdx ∧
      (takeNotify c.report (takeWrite c.report s₁)).cccdFound = s₁.cccdFound := by
    intro s₁
    unfold takeNotify takeWrite
    split_ifs <;> exact ⟨rfl, rfl, rfl⟩
  obtain ⟨hsvcs', hidx', hfound'⟩ := hsame s
  have hdone : svc.chrs = (done ++ [c]) ++ todo := by rw [hchrs, List.append_cons]
  refine goes_silent rfl (.characteristics hrec hdone (hsvcs'.trans hsvcs) (hidx'.trans hidx) ?_
    (hfound'.trans hfound))
  rw [List.map_append, ← List.append_assoc]
  exact selected_snoc (x := (svc, c)) hpos hsel (recorded_getD hrec hsvcs hidx)

/-- `disc_chr_cb` when the characteristics of a service are reported. -/
theorem goes_chrs_done {pre post : List TableSvc} {svc : TableSvc}
    (hrec : t.recorded = pre ++ svc :: post)
    (hsvcs : s.services = t.recorded.map TableSvc.report) (hidx : s.serviceIdx = pre.length)
    (hsel : Selected (pre.flatMap TableSvc.offers ++ svc.offers) s) (hfound : s.cccdFound = false)
    (hnew : Launch (tableServer t) (discChrCb rc hsEdone default s).2 new) :
    Goes t (discChrCb rc hsEdone default s).1 [] [] false (.chr hsEdone default)
      (discChrCb rc hsEdone default s).2 new := by
  unfold discChrCb at hnew ⊢
  rw [if_neg (by decide), if_pos rfl] at hnew ⊢
  dsimp only at hnew ⊢
  have hlen : s.services.length = pre.length + 1 + post.length := by
    rw [hsvcs, hrec, List.length_map, List.length_append, List.length_cons]
    omega
  cases post with
  | cons next post =>
    have hmore : s.serviceIdx + 1 < s.services.length := by
      rw [hlen, hidx, List.length_cons]
      omega
    rw [if_pos hmore] at hnew ⊢
    have hrec' : t.recorded = (pre ++ [svc]) ++ next :: post := by rw [hrec, List.append_cons]
    refine goes_chrs rfl hrec' hsvcs ?_ ?_ hfound hnew
    · rw [List.length_append, ← hidx]
      rfl
    · rw [List.flatMap_append, List.flatMap_singleton]
      exact ⟨hsel.write, hsel.notify, hsel.svcEnd⟩
  | nil =>
    have hlast : ¬ s.serviceIdx + 1 < s.services.length := by
      rw [hlen, hidx, List.length_nil]
      omega
    rw [if_neg hlast] at hnew ⊢
    rw [show pre.flatMap TableSvc.offers ++ svc.offers = t.offered by
      rw [offered_split hrec, List.flatMap_nil, List.append_nil]] at hsel
    have hzero : ∀ p, handleOf (t.offered.find? p) = 0 ↔ t.offered.find? p = none := fun p =>
      handleOf_eq_zero fun x hx => offered_pos hx
    split_ifs at hnew ⊢ with hnone
    · obtain rfl := launch_finishConnect hnew
      refine goes_refused rfl nofun ⟨hsel.write, hsel.notify, hsel.svcEnd⟩ ?_
      rw [hsel.write, hsel.notify, hzero, hzero] at hnone
      rcases hnone with hnone | hnone
      · exact .inl hnone
      · exact .inr (.inl hnone)
    · rw [hsel.write, hsel.notify, hzero, hzero, not_or] at hnone
      obtain ⟨w, hw⟩ := Option.ne_none_iff_exists'.mp hnone.1
      obtain ⟨n, hn⟩ := Option.ne_none_iff_exists'.mp hnone.2
      exact goes_dscs rfl hw hn ⟨hsel.write, hsel.notify, hsel.svcEnd⟩ hfound hnew

/-- `disc_dsc_cb` on one more descriptor, as long as there was no CCCD. -/
theorem goes_dsc {conn : UInt16} {w n : TableSvc × TableChr} {done todo : List GattDsc}
    {d : GattDsc} (hw : t.writeChr = some w) (hn : t.notifyChr = some n)
    (hsel : Selected t.offered s) (hbehind : attrsBehind n = done ++ d :: todo)
    (hnone : done.find? isCccd = none) (hfound : s.cccdFound = false)
    (hnew : Launch (tableServer t) (discDscCb rc conn 0 d s).2 new) :
    Goes t (discDscCb rc conn 0 d s).1 [] [] false (.dsc conn 0 d) (discDscCb rc conn 0 d s).2
      (.dscs conn todo hsEdone :: new) := by
  unfold discDscCb at hnew ⊢
  rw [if_pos rfl] at hnew ⊢
  by_cases hcccd : d.uuid = cccdUuid
  · have hpos : isCccd d = true := decide_eq_true hcccd
    have hd : cccdBehind n = some d := by
      unfold cccdBehind
      rw [hbehind, List.find?_append, hnone, Option.none_or, List.find?_cons_of_pos hpos]
    have hsel' : Selected t.offered { s with cccdFound := true } :=
      ⟨hsel.write, hsel.notify, hsel.svcEnd⟩
    rw [if_pos ⟨hfound, hcccd⟩] at hnew ⊢
    unfold Goes writeFails
    rcases launch_gattcOrFail hnew with ⟨job, hjob, rfl, heffs⟩ | ⟨hrc, rfl, -, heffs⟩
    · have hanswers : job.Answers (.writeFlat conn d.handle [0x01, 0x00]) := hjob job rfl
      rw [heffs]
      cases job with
      | write status => exact .subscribed hw hn hsel' hd rfl .both
      | _ => exact hanswers.elim
    · have hfails : (false || ((BleEvent.dsc conn 0 d).writeFails ||
          (BleEffect.gattc (.writeFlat conn d.handle [0x01, 0x00]) rc ::
            finishConnect .fail).any BleEffect.writeFails)) = true := by
        rw [List.any_cons,
          show (BleEffect.gattc (.writeFlat conn d.handle [0x01, 0x00]) rc).writeFails = true from
            decide_eq_true hrc,
          Bool.true_or, Bool.or_true, Bool.or_true]
      rw [heffs, hfails]
      show TableStage t _ [writeVerdict true] [(d.handle, [0x01, 0x00])] true
        [.dscs conn todo hsEdone]
      exact .subscribed hw hn hsel' hd rfl .discovering
  · rw [if_neg fun h => hcccd h.2] at hnew ⊢
    obtain rfl := launch_nil hnew
    have hneg : ¬ isCccd d = true := fun h => hcccd (of_decide_eq_true h)
    refine goes_silent rfl (.descriptors hw hn hsel (List.append_cons .. ▸ hbehind) ?_ hfound)
    rw [List.find?_append, hnone, Option.none_or, List.find?_cons_of_neg hneg, List.find?_nil]

/-- `disc_dsc_cb` when all descriptors are reported, and there was no CCCD. -/
theorem goes_dscs_done {conn : UInt16} {n : TableSvc × TableChr} (hn : t.notifyChr = some n)
    (hsel : Selected t.offered s) (hnone : cccdBehind n = none) (hfound : s.cccdFound = false)
    (hnew : Launch (tableServer t) (discDscCb rc conn hsEdone default s).2 new) :
    Goes t (discDscCb rc conn hsEdone default s).1 [] [] false (.dsc conn hsEdone default)
      (discDscCb rc conn hsEdone default s).2 new := by
  unfold discDscCb at hnew ⊢
  rw [if_neg (by decide), if_pos rfl, if_pos hfound] at hnew ⊢
  obtain rfl := launch_finishConnect hnew
  exact goes_refused rfl nofun hsel (.inr (.inr ⟨n, hn, hnone⟩))

theorem discDscCb_found {conn status : UInt16} {d : GattDsc} (hst : status = 0 ∨ status = hsEdone)
    (hfound : s.cccdFound = true) : discDscCb rc conn status d s = (s, []) := by
  unfold discDscCb
  rw [hfound]
  rcases hst with rfl | rfl
  · rfl
  · rfl

theorem goes_written {status : UInt16} {jobs' : List BleJob}
    (hstage : ∀ failed, TableStage t s [writeVerdict failed] subs failed jobs') :
    Goes t s [] subs false (.written status) (onCccdWrite status) jobs' := by
  unfold Goes onCccdWrite
  by_cases hst : status = 0
  · subst hst
    rw [if_neg (not_not_intro rfl)]
    show TableStage t s [writeVerdict false] (subs ++ []) false jobs'
    rw [List.append_nil]
    exact hstage false
  · rw [if_pos hst]
    have hfails : (false || writeFails (.written status, finishConnect .fail)) = true := by
      unfold writeFails
      rw [show (BleEvent.written status).writeFails = true from decide_eq_true hst]
      rfl
    rw [hfails]
    show TableStage t s [writeVerdict true] (subs ++ []) true jobs'
    rw [List.append_nil]
    exact hstage true

end Stages

/-! ## Runs -/

/-- Where an attempt stands. -/
def OnTable (t : GattTable) (a : Attempt) : Prop :=
  TableStage t a.client (verdicts a.log) (subscriptions a.log) (writeFailed a.log) a.jobs

section Runs

variable {t : GattTable}

theorem onTable_snoc {s' : BleClient} {jobs' : List BleJob}
    {log : List (BleEvent × List BleEffect)} {ev : BleEvent} {effs : List BleEffect}
    (hgoes : Goes t s' (verdicts log) (subscriptions log) (writeFailed log) ev effs jobs') :
    OnTable t ⟨s', jobs', log ++ [(ev, effs)]⟩ := by
  unfold OnTable
  rw [verdicts_append, subscriptions_append, writeFailed_append]
  unfold Goes at hgoes
  show TableStage t s' (_ ++ (effs.filterMap BleEffect.verdict ++ []))
    (_ ++ (effs.filterMap BleEffect.subscribes ++ [])) (_ || (writeFails (ev, effs) || false)) jobs'
  rw [List.append_nil, List.append_nil, Bool.or_false]
  exact hgoes

theorem onTable_begin (s : BleClient) (conn : UInt16) : OnTable t (.begin s 0 conn) := .connecting

theorem tableStage_disconnect {s : BleClient} {vs : List UInt32} {subs : List (UInt16 × Bytes)}
    {failed : Bool} {jobs : List BleJob} (ha : TableStage t s vs subs failed jobs) :
    TableStage t (gapDisconnect s).1 vs subs failed jobs := by
  have hsel : ∀ {seen}, Selected seen s → Selected seen (gapDisconnect s).1 := fun h =>
    ⟨h.write, h.notify, h.svcEnd⟩
  cases ha with
  | connecting => exact .connecting
  | services hsvcs hrec h hfound => exact .services hsvcs hrec (hsel h) hfound
  | characteristics hrec hchrs hsvcs hidx h hfound =>
    exact .characteristics hrec hchrs hsvcs hidx (hsel h) hfound
  | descriptors hw hn h hbehind hnone hfound =>
    exact .descriptors hw hn (hsel h) hbehind hnone hfound
  | subscribed hw hn h hd hfound hjobs => exact .subscribed hw hn (hsel h) hd hfound hjobs
  | refused h hnone => exact .refused (hsel h) hnone

/-- Descriptor discovery goes on, or ends, once the CCCD is found. -/
theorem goes_found {s : BleClient} {rc : ℤ} {new : List BleJob} {conn : UInt16}
    {rs : List GattDsc} {vs : List UInt32} {subs : List (UInt16 × Bytes)} {failed : Bool}
    {js : List BleJob} (hfound : s.cccdFound = true)
    (hnew : Launch (tableServer t) (s.take rc (BleJob.dscs conn rs hsEdone).event).2 new)
    (hmore : ∀ r rs', rs = r :: rs' →
      TableStage t s vs subs failed (.dscs conn rs' hsEdone :: js))
    (hlast : rs = [] → TableStage t s vs subs failed js) :
    Goes t (s.take rc (BleJob.dscs conn rs hsEdone).event).1 vs subs failed
      (BleJob.dscs conn rs hsEdone).event (s.take rc (BleJob.dscs conn rs hsEdone).event).2
      ((BleJob.dscs conn rs hsEdone).rest.toList ++ js ++ new) := by
  cases rs with
  | nil =>
    change Launch _ (discDscCb rc conn hsEdone default s).2 new at hnew
    show Goes t (discDscCb rc conn hsEdone default s).1 vs subs failed _
      (discDscCb rc conn hsEdone default s).2 (js ++ new)
    rw [discDscCb_found (.inr rfl) hfound] at hnew ⊢
    obtain rfl := launch_nil hnew
    rw [List.append_nil]
    exact goes_silent rfl (hlast rfl)
  | cons r rs =>
    change Launch _ (discDscCb rc conn 0 r s).2 new at hnew
    show Goes t (discDscCb rc conn 0 r s).1 vs subs failed _ (discDscCb rc conn 0 r s).2
      (.dscs conn rs hsEdone :: js ++ new)
    rw [discDscCb_found (.inl rfl) hfound] at hnew ⊢
    obtain rfl := launch_nil hnew
    rw [List.append_nil]
    exact goes_silent rfl (hmore r rs rfl)

/-- **One step** on a table. -/
theorem onTable_step {a b : Attempt} (ha : OnTable t a) (hs : Attempt.Step (tableServer t) a b) :
    OnTable t b := by
  cases hs with
  | disconnect => exact onTable_snoc (goes_silent rfl (tableStage_disconnect ha))
  | @callback s js j js' log rc new hnew =>
    refine onTable_snoc ?_
    unfold OnTable at ha
    dsimp only at ha
    generalize verdicts log = vs at ha ⊢
    generalize subscriptions log = subs at ha ⊢
    generalize writeFailed log = failed at ha ⊢
    generalize hjobs : js ++ j :: js' = jobs at ha
    cases ha with
    | connecting =>
      obtain ⟨rfl, rfl, rfl⟩ := append_cons_eq_singleton hjobs
      exact goes_connect hnew
    | @services done todo hsvcs hrec hsel hfound =>
      obtain ⟨rfl, rfl, rfl⟩ := append_cons_eq_singleton hjobs
      cases todo with
      | nil =>
        rw [List.append_nil] at hsvcs
        subst hsvcs
        exact goes_services_done hrec hsel hfound hnew
      | cons svc todo => exact goes_service hsvcs hrec hsel hfound hnew
    | @characteristics pre svc post done todo hrec hchrs hsvcs hidx hsel hfound =>
      obtain ⟨rfl, rfl, rfl⟩ := append_cons_eq_singleton hjobs
      cases todo with
      | nil =>
        rw [List.append_nil] at hchrs
        subst hchrs
        exact goes_chrs_done hrec hsvcs hidx hsel hfound hnew
      | cons c todo => exact goes_chr hrec hchrs hsvcs hidx hsel hfound hnew
    | @descriptors conn w n done todo hw hn hsel hbehind hnone hfound =>
      obtain ⟨rfl, rfl, rfl⟩ := append_cons_eq_singleton hjobs
      cases todo with
      | nil =>
        rw [List.append_nil] at hbehind
        refine goes_dscs_done hn hsel ?_ hfound hnew
        unfold cccdBehind
        rw [hbehind, hnone]
      | cons d todo => exact goes_dsc hw hn hsel hbehind hnone hfound hnew
    | @subscribed w n d vs failed jobs hw hn hsel hd hfound hsub =>
      have hstage : ∀ {vs failed jobs}, Subscribing vs failed jobs →
          TableStage t s vs [(d.handle, [0x01, 0x00])] failed jobs :=
        .subscribed hw hn hsel hd hfound
      cases hsub with
      | @both conn rs status =>
        rcases append_cons_eq_pair hjobs with ⟨rfl, rfl, rfl⟩ | ⟨rfl, rfl, rfl⟩
        · exact goes_found hfound hnew (fun _ _ _ => hstage .both) fun _ => hstage .writing
        · obtain rfl := launch_onCccdWrite hnew
          exact goes_written fun failed => hstage .discovering
      | @discovering conn rs failed =>
        obtain ⟨rfl, rfl, rfl⟩ := append_cons_eq_singleton hjobs
        exact goes_found hfound hnew (fun _ _ _ => hstage .discovering) fun _ => hstage .ended
      | writing =>
        obtain ⟨rfl, rfl, rfl⟩ := append_cons_eq_singleton hjobs
        obtain rfl := launch_onCccdWrite hnew
        exact goes_written fun failed => hstage .ended
      | ended => simp at hjobs
    | refused hsel hnone => simp at hjobs

theorem onTable_runs {s : BleClient} {conn : UInt16} {a : Attempt}
    (hrun : Attempt.Runs (tableServer t) (.begin s 0 conn) a) : OnTable t a := by
  induction hrun with
  | refl => exact onTable_begin s conn
  | tail _ hs ih => exact onTable_step ih hs

/-- Refused although there are a write and a notify characteristic: no CCCD behind the latter. -/
theorem cccdBehind_of_refused {w n : TableSvc × TableChr}
    (hnone : t.writeChr = none ∨ t.notifyChr = none ∨
      ∃ n, t.notifyChr = some n ∧ cccdBehind n = none)
    (hw : t.writeChr = some w) (hn : t.notifyChr = some n) : cccdBehind n = none := by
  rcases hnone with hnone | hnone | ⟨n', hn', hd⟩
  · rw [hw] at hnone
    cases hnone
  · rw [hn] at hnone
    cases hnone
  · rw [hn] at hn'
    cases hn'
    exact hd

/-- **How an attempt ends.** With the client subscribed to the first CCCD behind the first notify
characteristic, or refused because there is no write characteristic, no notify characteristic or no
CCCD. -/
theorem table_attempt {s : BleClient} {conn : UInt16} {a : Attempt}
    (hrun : Attempt.Runs (tableServer t) (.begin s 0 conn) a) (hend : a.jobs = []) :
    Selected t.offered a.client ∧
    ((∃ w n d, t.writeChr = some w ∧ t.notifyChr = some n ∧ cccdBehind n = some d ∧
        subscriptions a.log = [(d.handle, [0x01, 0x00])] ∧
        verdicts a.log = [writeVerdict (writeFailed a.log)]) ∨
      ((t.writeChr = none ∨ t.notifyChr = none ∨ ∃ n, t.notifyChr = some n ∧ cccdBehind n = none) ∧
        subscriptions a.log = [] ∧ verdicts a.log = [evtConnectError])) := by
  have ha := onTable_runs hrun
  unfold OnTable at ha
  rw [hend] at ha
  generalize verdicts a.log = vs at ha ⊢
  generalize subscriptions a.log = subs at ha ⊢
  generalize writeFailed a.log = failed at ha ⊢
  cases ha with
  | @subscribed w n d _ _ _ hw hn hsel hd hfound hjobs =>
    cases hjobs
    exact ⟨hsel, .inl ⟨w, n, d, hw, hn, hd, rfl, rfl⟩⟩
  | refused hsel hnone => exact ⟨hsel, .inr ⟨hnone, rfl, rfl⟩⟩

/-- A device that reports its table. -/
def GattTable.serve (t : GattTable) (call : GattcCall) : Option BleJob := some (t.job call)

theorem tableServer_serve (t : GattTable) (call : GattcCall) :
    tableServer t call (t.serve call) := by
  cases call with
  | writeFlat conn handle data =>
    rintro job hjob
    cases hjob
    trivial
  | _ => rfl

end Runs

end River2
