import River2.Firmware

/-!
# The BLE client (`ble_client.c`)

The callbacks that connect, look for the characteristic pair and subscribe, as functions of the
static variables. Each makes at most one `ble_gattc_*` call; `rc` is what that call returns.

1. The callbacks, from the gap event to `on_cccd_write`. `BleClient.take` delivers one.
2. `Attempt` is a connection attempt: the statics, the procedures in flight with what they have
   still to report, and what has happened. A `BleServer` says what a procedure reports once it is
   started; `anyServer` reports anything, and lets any call fail.
-/

namespace River2

/-- A UUID; `ble_uuid_cmp` finds no two of different types equal. -/
inductive BleUuid where
  | u16 (value : UInt16)
  | u32 (value : UInt32)
  | u128 (value : Octets 16)
  deriving DecidableEq

instance : Inhabited BleUuid := ⟨.u16 0⟩

/-- What service discovery reports: `struct ble_gatt_svc`. -/
structure GattSvc where
  startHandle : UInt16
  endHandle : UInt16
  deriving DecidableEq, Inhabited

/-- What characteristic discovery reports: `struct ble_gatt_chr`. -/
structure GattChr where
  valHandle : UInt16
  uuid : BleUuid
  deriving DecidableEq, Inhabited

/-- What descriptor discovery reports: `struct ble_gatt_dsc`. -/
structure GattDsc where
  handle : UInt16
  uuid : BleUuid
  deriving DecidableEq, Inhabited

/-! ## Constants -/

def maxServices : ℕ := 24

def connHandleNone : UInt16 := 0xFFFF

/-- `BLE_HS_EDONE`: the procedure has reported everything. -/
def hsEdone : UInt16 := 14

/-- `BLE_GATT_DSC_CLT_CFG_UUID16`, the UUID of the CCCD. -/
def cccdUuid : BleUuid := .u16 0x2902

def rfcommWriteUuid16 : BleUuid := .u16 0x0002
def rfcommNotifyUuid16 : BleUuid := .u16 0x0003
def rfcommWriteUuid128 : BleUuid := .u128
  ⟨[0xfb, 0x34, 0x9b, 0x5f, 0x80, 0x00, 0x00, 0x80, 0x00, 0x10, 0x00, 0x00, 0x02, 0x00, 0x00, 0x00],
    rfl⟩
def rfcommNotifyUuid128 : BleUuid := .u128
  ⟨[0xfb, 0x34, 0x9b, 0x5f, 0x80, 0x00, 0x00, 0x80, 0x00, 0x10, 0x00, 0x00, 0x03, 0x00, 0x00, 0x00],
    rfl⟩
def nusWriteUuid : BleUuid := .u128
  ⟨[0x9e, 0xca, 0xdc, 0x24, 0x0e, 0xe5, 0xa9, 0xe0, 0x93, 0xf3, 0xa3, 0xb5, 0x02, 0x00, 0x40, 0x6e],
    rfl⟩
def nusNotifyUuid : BleUuid := .u128
  ⟨[0x9e, 0xca, 0xdc, 0x24, 0x0e, 0xe5, 0xa9, 0xe0, 0x93, 0xf3, 0xa3, 0xb5, 0x03, 0x00, 0x40, 0x6e],
    rfl⟩

def evtConnected : UInt32 := (1 : UInt32) <<< 1

def evtConnectError : UInt32 := (1 : UInt32) <<< 2

def evtDisconnected : UInt32 := (1 : UInt32) <<< 3

/-! ## The callbacks -/

/-- The static variables. `services` holds the first `s_service_count` entries of `s_services`. -/
structure BleClient where
  connHandle : UInt16
  writeHandle : UInt16
  notifyHandle : UInt16
  notifySvcEnd : UInt16
  cccdFound : Bool
  services : List GattSvc
  serviceIdx : ℕ
  deriving DecidableEq

/-- The `ble_gattc_*` calls. -/
inductive GattcCall where
  | discAllSvcs (conn : UInt16)
  | discAllChrs (conn startHandle endHandle : UInt16)
  | discAllDscs (conn startHandle endHandle : UInt16)
  | writeFlat (conn handle : UInt16) (data : Bytes)
  deriving DecidableEq

/-- What a callback does beside changing the statics. -/
inductive BleEffect where
  | gattc (call : GattcCall) (rc : ℤ)
  | notifyOwner (bits : UInt32)
  deriving DecidableEq

/-- `finish_connect`. -/
def finishConnect (result : EspErr) : List BleEffect :=
  [.notifyOwner (if result = .ok then evtConnected else evtConnectError)]

/-- A `ble_gattc_*` call; if it fails, so does the attempt. -/
def gattcOrFail (call : GattcCall) (rc : ℤ) : List BleEffect :=
  .gattc call rc :: if rc ≠ 0 then finishConnect .fail else []

/-- `begin_descriptor_discovery`. -/
def beginDescriptorDiscovery (rc : ℤ) (s : BleClient) : List BleEffect :=
  gattcOrFail (.discAllDscs s.connHandle s.notifyHandle s.notifySvcEnd) rc

/-- `on_cccd_write`. -/
def onCccdWrite (status : UInt16) : List BleEffect :=
  if status ≠ 0 then finishConnect .fail else finishConnect .ok

/-- `disc_dsc_cb`. -/
def discDscCb (rc : ℤ) (conn status : UInt16) (dsc : GattDsc) (s : BleClient) :
    BleClient × List BleEffect :=
  if status = 0 then
    if s.cccdFound = false ∧ dsc.uuid = cccdUuid then
      ({ s with cccdFound := true }, gattcOrFail (.writeFlat conn dsc.handle [0x01, 0x00]) rc)
    else (s, [])
  else if status = hsEdone then
    if s.cccdFound = false then (s, finishConnect .notFound) else (s, [])
  else (s, finishConnect .fail)

/-- `begin_chr_discovery_for_service`. -/
def beginChrDiscoveryForService (rc : ℤ) (idx : ℕ) (s : BleClient) : List BleEffect :=
  gattcOrFail (.discAllChrs s.connHandle (s.services.getD idx default).startHandle
    (s.services.getD idx default).endHandle) rc

/-- The test of `disc_chr_cb` for a write characteristic. -/
def isWriteUuid (u : BleUuid) : Prop :=
  u = rfcommWriteUuid128 ∨ u = rfcommWriteUuid16 ∨ u = nusWriteUuid

/-- The test of `disc_chr_cb` for a notify characteristic. -/
def isNotifyUuid (u : BleUuid) : Prop :=
  u = rfcommNotifyUuid128 ∨ u = rfcommNotifyUuid16 ∨ u = nusNotifyUuid

instance (u : BleUuid) : Decidable (isWriteUuid u) := by unfold isWriteUuid; infer_instance

instance (u : BleUuid) : Decidable (isNotifyUuid u) := by unfold isNotifyUuid; infer_instance

/-- `disc_chr_cb` on a characteristic: the write handle. -/
def takeWrite (chr : GattChr) (s : BleClient) : BleClient :=
  if s.writeHandle = 0 ∧ isWriteUuid chr.uuid then { s with writeHandle := chr.valHandle } else s

/-- `disc_chr_cb` on a characteristic: the notify handle, and where its service ends. -/
def takeNotify (chr : GattChr) (s : BleClient) : BleClient :=
  if s.notifyHandle = 0 ∧ isNotifyUuid chr.uuid then
    { s with
      notifyHandle := chr.valHandle
      notifySvcEnd := (s.services.getD s.serviceIdx default).endHandle }
  else s

/-- `disc_chr_cb`. -/
def discChrCb (rc : ℤ) (status : UInt16) (chr : GattChr) (s : BleClient) :
    BleClient × List BleEffect :=
  if status = 0 then (takeNotify chr (takeWrite chr s), [])
  else if status = hsEdone then
    let s := { s with serviceIdx := s.serviceIdx + 1 }
    if s.serviceIdx < s.services.length then (s, beginChrDiscoveryForService rc s.serviceIdx s)
    else if s.writeHandle = 0 ∨ s.notifyHandle = 0 then (s, finishConnect .notSupported)
    else (s, beginDescriptorDiscovery rc s)
  else (s, finishConnect .fail)

/-- `disc_svc_cb`. -/
def discSvcCb (rc : ℤ) (status : UInt16) (service : GattSvc) (s : BleClient) :
    BleClient × List BleEffect :=
  if status = 0 then
    if s.services.length < maxServices then ({ s with services := s.services ++ [service] }, [])
    else (s, [])
  else if status = hsEdone then
    if s.services.length = 0 then (s, finishConnect .notFound)
    else
      let s := { s with serviceIdx := 0 }
      (s, beginChrDiscoveryForService rc 0 s)
  else (s, finishConnect .fail)

/-- `gap_event_cb` on `BLE_GAP_EVENT_CONNECT`. -/
def gapConnect (rc : ℤ) (status conn : UInt16) (s : BleClient) : BleClient × List BleEffect :=
  if status = 0 then
    let s := { s with
      connHandle := conn
      services := []
      serviceIdx := 0
      writeHandle := 0
      notifyHandle := 0
      cccdFound := false }
    (s, gattcOrFail (.discAllSvcs s.connHandle) rc)
  else (s, finishConnect .fail)

/-- `gap_event_cb` on `BLE_GAP_EVENT_DISCONNECT`. -/
def gapDisconnect (s : BleClient) : BleClient × List BleEffect :=
  ({ s with connHandle := connHandleNone }, [.notifyOwner evtDisconnected])

/-- The events of an attempt: a callback, with its status and what it reports. -/
inductive BleEvent where
  | connect (status conn : UInt16)
  | svc (status : UInt16) (service : GattSvc)
  | chr (status : UInt16) (chr : GattChr)
  | dsc (conn status : UInt16) (dsc : GattDsc)
  | written (status : UInt16)
  | disconnect
  deriving DecidableEq

/-- The client takes an event. -/
def BleClient.take (rc : ℤ) (s : BleClient) : BleEvent → BleClient × List BleEffect
  | .connect status conn => gapConnect rc status conn s
  | .svc status service => discSvcCb rc status service s
  | .chr status chr => discChrCb rc status chr s
  | .dsc conn status dsc => discDscCb rc conn status dsc s
  | .written status => (s, onCccdWrite status)
  | .disconnect => gapDisconnect s

/-! ## Attempts -/

/-- A procedure in flight: what it has still to report, and the status it ends with. -/
inductive BleJob where
  | connect (status conn : UInt16)
  | svcs (reports : List GattSvc) (status : UInt16)
  | chrs (reports : List GattChr) (status : UInt16)
  | dscs (conn : UInt16) (reports : List GattDsc) (status : UInt16)
  | write (status : UInt16)
  deriving DecidableEq

/-- The next callback of a procedure. -/
def BleJob.event : BleJob → BleEvent
  | .connect status conn => .connect status conn
  | .svcs [] status => .svc status default
  | .svcs (r :: _) _ => .svc 0 r
  | .chrs [] status => .chr status default
  | .chrs (r :: _) _ => .chr 0 r
  | .dscs conn [] status => .dsc conn status default
  | .dscs conn (r :: _) _ => .dsc conn 0 r
  | .write status => .written status

/-- What is left of a procedure after its next callback. -/
def BleJob.rest : BleJob → Option BleJob
  | .svcs (_ :: rs) status => some (.svcs rs status)
  | .chrs (_ :: rs) status => some (.chrs rs status)
  | .dscs conn (_ :: rs) status => some (.dscs conn rs status)
  | _ => none

/-- The procedures that a call may start: a discovery ends with a status other than 0. -/
def BleJob.Answers : GattcCall → BleJob → Prop
  | .discAllSvcs _, .svcs _ status => status ≠ 0
  | .discAllChrs _ _ _, .chrs _ status => status ≠ 0
  | .discAllDscs conn _ _, .dscs conn' _ status => conn' = conn ∧ status ≠ 0
  | .writeFlat _ _ _, .write _ => True
  | _, _ => False

/-- The outcomes a call may have: the procedure it starts, or none if it fails. -/
abbrev BleServer := GattcCall → Option BleJob → Prop

/-- Whatever the protocol allows. -/
def anyServer : BleServer := fun call outcome => ∀ job, outcome = some job → job.Answers call

/-- The procedures started by the calls among these effects. -/
inductive Launch (srv : BleServer) : List BleEffect → List BleJob → Prop where
  | nil : Launch srv [] []
  | notify {bits es js} (hes : Launch srv es js) : Launch srv (.notifyOwner bits :: es) js
  | started {call job es js} (hcall : srv call (some job)) (hes : Launch srv es js) :
    Launch srv (.gattc call 0 :: es) (job :: js)
  | refused {call rc es js} (hrc : rc ≠ 0) (hcall : srv call none) (hes : Launch srv es js) :
    Launch srv (.gattc call rc :: es) js

/-- An attempt: the statics, the procedures in flight, and the callbacks so far with what they
did. -/
structure Attempt where
  client : BleClient
  jobs : List BleJob
  log : List (BleEvent × List BleEffect)

/-- A procedure in flight calls back, or the connection is lost. -/
inductive Attempt.Step (srv : BleServer) : Attempt → Attempt → Prop where
  | callback {s js j js' log rc new} (hnew : Launch srv (s.take rc j.event).2 new) :
    Step srv ⟨s, js ++ j :: js', log⟩
      ⟨(s.take rc j.event).1, js ++ j.rest.toList ++ js' ++ new,
        log ++ [(j.event, (s.take rc j.event).2)]⟩
  | disconnect {s js log} :
    Step srv ⟨s, js, log⟩
      ⟨(gapDisconnect s).1, js, log ++ [(.disconnect, (gapDisconnect s).2)]⟩

/-- The attempt that `river2_ble_start_connect` begins, with the statics as they are. -/
def Attempt.begin (s : BleClient) (status conn : UInt16) : Attempt :=
  ⟨s, [.connect status conn], []⟩

/-- An attempt in the states it runs through. -/
abbrev Attempt.Runs (srv : BleServer) (a b : Attempt) : Prop :=
  Relation.ReflTransGen (Attempt.Step srv) a b

/-- The verdict an effect passes to the owner task. -/
def BleEffect.verdict : BleEffect → Option UInt32
  | .notifyOwner bits => if bits = evtConnected ∨ bits = evtConnectError then some bits else none
  | .gattc _ _ => none

def verdicts (log : List (BleEvent × List BleEffect)) : List UInt32 :=
  log.flatMap fun e => e.2.filterMap BleEffect.verdict

@[simp] theorem verdicts_nil : verdicts [] = [] := rfl

@[simp] theorem verdicts_append (log log' : List (BleEvent × List BleEffect)) :
    verdicts (log ++ log') = verdicts log ++ verdicts log' := List.flatMap_append

theorem append_cons_eq_singleton {α : Type} {js js' : List α} {j x : α}
    (h : js ++ j :: js' = [x]) : js = [] ∧ j = x ∧ js' = [] := by
  rcases List.append_eq_singleton_iff.mp h with ⟨rfl, hj⟩ | ⟨-, hj⟩
  · obtain ⟨rfl, rfl⟩ := List.cons.inj hj
    exact ⟨rfl, rfl, rfl⟩
  · cases hj

theorem append_cons_eq_pair {α : Type} {js js' : List α} {j x y : α} (h : js ++ j :: js' = [x, y]) :
    (js = [] ∧ j = x ∧ js' = [y]) ∨ js = [x] ∧ j = y ∧ js' = [] := by
  cases js with
  | nil =>
    obtain ⟨rfl, rfl⟩ := List.cons.inj h
    exact .inl ⟨rfl, rfl, rfl⟩
  | cons x' js =>
    obtain ⟨rfl, hjs⟩ := List.cons.inj h
    obtain ⟨rfl, rfl, rfl⟩ := append_cons_eq_singleton hjs
    exact .inr ⟨rfl, rfl, rfl⟩

section Launch

variable {srv : BleServer} {call : GattcCall} {rc : ℤ} {new : List BleJob}

theorem launch_nil (h : Launch srv [] new) : new = [] := by
  cases h
  rfl

theorem launch_finishConnect {result : EspErr} (h : Launch srv (finishConnect result) new) :
    new = [] := by
  cases h with
  | notify hes => exact launch_nil hes

theorem exists_finishConnect (status : UInt16) :
    ∃ result, onCccdWrite status = finishConnect result := by
  unfold onCccdWrite
  split_ifs
  · exact ⟨_, rfl⟩
  · exact ⟨_, rfl⟩

theorem launch_onCccdWrite {status : UInt16} (h : Launch srv (onCccdWrite status) new) :
    new = [] := by
  obtain ⟨result, hresult⟩ := exists_finishConnect status
  rw [hresult] at h
  exact launch_finishConnect h

/-- A call starts a procedure, or it fails and its verdict is an error. -/
theorem launch_gattcOrFail (h : Launch srv (gattcOrFail call rc) new) :
    (∃ job, srv call (some job) ∧ new = [job] ∧ gattcOrFail call rc = [.gattc call 0]) ∨
      rc ≠ 0 ∧ new = [] ∧ srv call none ∧
        gattcOrFail call rc = .gattc call rc :: finishConnect .fail := by
  unfold gattcOrFail at h ⊢
  generalize hes : (if rc ≠ 0 then finishConnect .fail else []) = es at h
  cases h with
  | started hcall hrest =>
    rw [if_neg (not_not_intro rfl)] at hes
    subst hes
    rw [launch_nil hrest]
    exact .inl ⟨_, hcall, rfl, rfl⟩
  | refused hrc hcall hrest =>
    rw [if_pos hrc] at hes
    subst hes
    exact .inr ⟨hrc, launch_finishConnect hrest, hcall, rfl⟩

end Launch

/-! ## Played attempts -/

/-- What an event does, given what the call returns that it makes, if it makes one. -/
inductive Takes : (ℤ → BleClient × List BleEffect) → Option GattcCall → Prop where
  | silent (s : BleClient) : Takes (fun _ => (s, [])) none
  | notifying (s : BleClient) (bits : UInt32) : Takes (fun _ => (s, [.notifyOwner bits])) none
  | calling (s : BleClient) (call : GattcCall) :
    Takes (fun rc => (s, gattcOrFail call rc)) (some call)

/-- **An event** makes at most one call, and last. -/
theorem exists_takes (s : BleClient) (ev : BleEvent) : ∃ call, Takes (s.take · ev) call := by
  cases ev with
  | connect status conn =>
    show ∃ call, Takes (gapConnect · status conn s) call
    unfold gapConnect
    split_ifs
    · exact ⟨_, .calling _ _⟩
    · exact ⟨_, .notifying _ _⟩
  | svc status service =>
    show ∃ call, Takes (discSvcCb · status service s) call
    unfold discSvcCb
    split_ifs
    · exact ⟨_, .silent _⟩
    · exact ⟨_, .silent _⟩
    · exact ⟨_, .notifying _ _⟩
    · exact ⟨_, .calling _ _⟩
    · exact ⟨_, .notifying _ _⟩
  | chr status chr =>
    show ∃ call, Takes (discChrCb · status chr s) call
    unfold discChrCb
    dsimp only
    split_ifs
    · exact ⟨_, .silent _⟩
    · exact ⟨_, .calling _ _⟩
    · exact ⟨_, .notifying _ _⟩
    · exact ⟨_, .calling _ _⟩
    · exact ⟨_, .notifying _ _⟩
  | dsc conn status dsc =>
    show ∃ call, Takes (discDscCb · conn status dsc s) call
    unfold discDscCb
    split_ifs
    · exact ⟨_, .calling _ _⟩
    · exact ⟨_, .silent _⟩
    · exact ⟨_, .notifying _ _⟩
    · exact ⟨_, .silent _⟩
    · exact ⟨_, .notifying _ _⟩
  | written status =>
    show ∃ call, Takes (fun _ => (s, onCccdWrite status)) call
    unfold onCccdWrite
    split_ifs
    · exact ⟨_, .notifying _ _⟩
    · exact ⟨_, .notifying _ _⟩
  | disconnect => exact ⟨_, .notifying _ _⟩

/-- The call an event makes the client make. -/
def BleClient.callOf (s : BleClient) (ev : BleEvent) : Option GattcCall :=
  (s.take 0 ev).2.findSome? fun
    | .gattc call _ => some call
    | .notifyOwner _ => none

/-- The `i`-th procedure in flight calls back; `serve` gives the outcome of a call. -/
def Attempt.advance (serve : GattcCall → Option BleJob) (a : Attempt) (i : ℕ) : Attempt :=
  match a.jobs[i]? with
  | none => a
  | some j =>
    let outcome := (a.client.callOf j.event).bind serve
    let rc := if outcome.isSome then 0 else 1
    ⟨(a.client.take rc j.event).1, a.jobs.take i ++ j.rest.toList ++ a.jobs.drop (i + 1) ++
      outcome.toList, a.log ++ [(j.event, (a.client.take rc j.event).2)]⟩

/-- The procedures call back in this order. -/
def Attempt.play (serve : GattcCall → Option BleJob) (a : Attempt) (order : List ℕ) : Attempt :=
  order.foldl (Attempt.advance serve) a

theorem launch_take {srv : BleServer} {serve : GattcCall → Option BleJob}
    (hserve : ∀ call, srv call (serve call)) (s : BleClient) (ev : BleEvent) :
    Launch srv (s.take (if ((s.callOf ev).bind serve).isSome then 0 else 1) ev).2
      ((s.callOf ev).bind serve).toList := by
  obtain ⟨call, htakes⟩ := exists_takes s ev
  unfold BleClient.callOf
  generalize hf : (s.take · ev) = f at htakes
  have hf' : ∀ rc, s.take rc ev = f rc := fun rc => congrFun hf rc
  rw [hf', hf']
  cases htakes with
  | silent s' => exact .nil
  | notifying s' bits => exact .notify .nil
  | calling s' call =>
    show Launch srv (gattcOrFail call (if (serve call).isSome then 0 else 1)) (serve call).toList
    have hcall := hserve call
    cases hjob : serve call with
    | none =>
      rw [hjob] at hcall
      exact .refused nofun hcall (.notify .nil)
    | some job =>
      rw [hjob] at hcall
      exact .started hcall .nil

theorem runs_advance {srv : BleServer} {serve : GattcCall → Option BleJob}
    (hserve : ∀ call, srv call (serve call)) (a : Attempt) (i : ℕ) :
    Attempt.Runs srv a (a.advance serve i) := by
  unfold Attempt.advance
  cases hi : a.jobs[i]? with
  | none => exact .refl
  | some j =>
    obtain ⟨hlt, rfl⟩ := List.getElem?_eq_some_iff.mp hi
    have hjobs : a.jobs = a.jobs.take i ++ a.jobs[i] :: a.jobs.drop (i + 1) := by
      rw [List.getElem_cons_drop, List.take_append_drop]
    refine .single ?_
    obtain ⟨s, jobs, log⟩ := a
    dsimp only at hjobs ⊢
    have hstep := @Attempt.Step.callback srv s (jobs.take i) jobs[i] (jobs.drop (i + 1)) log _ _
      (launch_take hserve s (jobs[i]).event)
    rw [← hjobs] at hstep
    exact hstep

theorem runs_play {srv : BleServer} {serve : GattcCall → Option BleJob}
    (hserve : ∀ call, srv call (serve call)) (a : Attempt) (order : List ℕ) :
    Attempt.Runs srv a (a.play serve order) := by
  unfold Attempt.play
  induction order generalizing a with
  | nil => exact .refl
  | cons i order ih => exact (runs_advance hserve a i).trans (ih _)

/-- The statics at power-on. -/
def Sample.client : BleClient := ⟨connHandleNone, 0, 0, 0, false, [], 0⟩

end River2
