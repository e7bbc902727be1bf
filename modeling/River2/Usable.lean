import River2.Verdicts

/-!
# Connected means usable (`ble_client.c`)

1. `Located`: the notify handle is that of the first notify characteristic reported, and the end of
   its range that of the recorded service whose characteristics were then being discovered.
2. `accesses` lists a callback's accesses to `s_services`: all its reads (`take_congr`) and all its
   stores (`take_services`), so that it is `Exhaustive`.
3. `Progress`: what the statics and the log of an attempt have in common while a procedure is in
   flight; `sound_step`: every callback keeps it.
4. `connected_usable`: `BLE_EVT_CONNECTED` is posted only behind a located pair and the CCCD's
   acknowledged write, and every access stays inside `s_services`.
-/

namespace River2

/-! ## What the log says -/

abbrev BleLog := List (BleEvent × List BleEffect)

/-- The range of handles that the last call asked for the characteristics of. -/
def searched (log : BleLog) : Option (UInt16 × UInt16) :=
  (log.flatMap Prod.snd).foldl (fun r eff =>
    match eff with
    | .gattc (.discAllChrs _ startHandle endHandle) _ => some (startHandle, endHandle)
    | _ => r) none

/-- The event reports a notify characteristic. -/
def BleEvent.reportsNotify : BleEvent → Bool
  | .chr status r => decide (status = 0 ∧ isNotifyUuid r.uuid ∧ r.valHandle ≠ 0)
  | _ => false

/-- No notify characteristic has been reported. -/
def Unseen (log : BleLog) : Prop := ∀ e ∈ log, e.1.reportsNotify = false

/-- The notify handle is that of the first notify characteristic reported; it was reported while
the characteristics of a recorded service were being discovered, whose end handle is the one
remembered. -/
def Located (s : BleClient) (log : BleLog) : Prop :=
  ∃ before chr effs later svc, log = before ++ (.chr 0 chr, effs) :: later ∧
    (BleEvent.chr 0 chr).reportsNotify = true ∧ Unseen before ∧ chr.valHandle = s.notifyHandle ∧
    svc ∈ s.services ∧ searched before = some (svc.startHandle, svc.endHandle) ∧
    s.notifySvcEnd = svc.endHandle

/-- The pair is found. -/
structure Usable (s : BleClient) (log : BleLog) : Prop where
  write : s.writeHandle ≠ 0
  notify : s.notifyHandle ≠ 0
  located : Located s log

def Posted (log : BleLog) : Prop := evtConnected ∈ verdicts log

/-- A descriptor with the CCCD's UUID was reported, and `01 00` written to it. -/
def Subscribed (log : BleLog) : Prop :=
  ∃ conn d effs, (.dsc conn 0 d, effs) ∈ log ∧ d.uuid = cccdUuid ∧
    .gattc (.writeFlat conn d.handle [0x01, 0x00]) 0 ∈ effs

/-- The CCCD's write was acknowledged. -/
def Acknowledged (log : BleLog) : Prop :=
  ∃ before effs later, log = before ++ (.written 0, effs) :: later ∧ Subscribed before

theorem Subscribed.append {log : BleLog} (h : Subscribed log) (more : BleLog) :
    Subscribed (log ++ more) := by
  obtain ⟨conn, d, effs, hmem, hrest⟩ := h
  exact ⟨conn, d, effs, List.mem_append_left _ hmem, hrest⟩

theorem Acknowledged.append {log : BleLog} (h : Acknowledged log) (more : BleLog) :
    Acknowledged (log ++ more) := by
  obtain ⟨before, effs, later, rfl, hsub⟩ := h
  exact ⟨before, effs, later ++ more, List.append_assoc .., hsub⟩

theorem searched_snoc (log : BleLog) (ev : BleEvent) (effs : List BleEffect) :
    searched (log ++ [(ev, effs)]) = effs.foldl (fun r eff =>
      match eff with
      | .gattc (.discAllChrs _ startHandle endHandle) _ => some (startHandle, endHandle)
      | _ => r) (searched log) := by
  unfold searched
  rw [List.flatMap_append, List.flatMap_singleton, List.foldl_append]

theorem Unseen.snoc {log : BleLog} {ev : BleEvent} {effs : List BleEffect} (h : Unseen log)
    (hev : ev.reportsNotify = false) : Unseen (log ++ [(ev, effs)]) := by
  intro e he
  rcases List.mem_append.mp he with he | he
  · exact h e he
  · rw [List.mem_singleton.mp he]
    exact hev

/-- The statics that the pair is read from. -/
def SamePair (s s' : BleClient) : Prop :=
  s'.writeHandle = s.writeHandle ∧ s'.notifyHandle = s.notifyHandle ∧
    s'.notifySvcEnd = s.notifySvcEnd ∧ s'.services = s.services

theorem SamePair.refl (s : BleClient) : SamePair s s := ⟨rfl, rfl, rfl, rfl⟩

theorem Located.mono {s s' : BleClient} {log : BleLog} (h : Located s log)
    (hnotify : s'.notifyHandle = s.notifyHandle) (hend : s'.notifySvcEnd = s.notifySvcEnd)
    (hservices : s.services ⊆ s'.services) (more : BleLog) : Located s' (log ++ more) := by
  obtain ⟨before, chr, effs, later, svc, rfl, hrep, huns, hval, hmem, hsearch, hsvc⟩ := h
  exact ⟨before, chr, effs, later ++ more, svc, List.append_assoc .., hrep, huns,
    hval.trans hnotify.symm, hservices hmem, hsearch, hend.trans hsvc⟩

theorem Usable.mono {s s' : BleClient} {log : BleLog} (h : Usable s log) (hsame : SamePair s s')
    (more : BleLog) : Usable s' (log ++ more) := by
  obtain ⟨hwrite, hnotify, hend, hservices⟩ := hsame
  refine ⟨?_, ?_, h.located.mono hnotify hend (hservices ▸ List.Subset.refl _) more⟩
  · rw [hwrite]
    exact h.write
  · rw [hnotify]
    exact h.notify

/-! ## Who posts -/

theorem posted_snoc {log : BleLog} {ev : BleEvent} {effs : List BleEffect} :
    Posted (log ++ [(ev, effs)]) ↔ Posted log ∨ .notifyOwner evtConnected ∈ effs := by
  unfold Posted
  rw [verdicts_append, List.mem_append]
  refine or_congr Iff.rfl ?_
  have hone : verdicts [(ev, effs)] = effs.filterMap BleEffect.verdict := List.append_nil _
  rw [hone, List.mem_filterMap]
  constructor
  · rintro ⟨eff, hmem, hverdict⟩
    cases eff with
    | gattc call rc => cases hverdict
    | notifyOwner bits =>
      unfold BleEffect.verdict at hverdict
      dsimp only at hverdict
      split_ifs at hverdict
      cases hverdict
      exact hmem
  · intro hmem
    exact ⟨_, hmem, by decide⟩

theorem not_mem_finishConnect {result : EspErr} (h : result ≠ .ok) :
    .notifyOwner evtConnected ∉ finishConnect result := by
  unfold finishConnect
  rw [if_neg h]
  decide

theorem not_mem_gattcOrFail (call : GattcCall) (rc : ℤ) :
    .notifyOwner evtConnected ∉ gattcOrFail call rc := by
  unfold gattcOrFail
  split_ifs
  · simpa using @not_mem_finishConnect .fail nofun
  · simp

/-- Only the acknowledgement of the CCCD's write posts. -/
theorem written_of_post {s : BleClient} {rc : ℤ} {ev : BleEvent}
    (h : .notifyOwner evtConnected ∈ (s.take rc ev).2) : ev = .written 0 := by
  cases ev with
  | connect status conn =>
    change _ ∈ (gapConnect rc status conn s).2 at h
    unfold gapConnect at h
    split_ifs at h
    · exact absurd h (not_mem_gattcOrFail _ _)
    · exact absurd h (not_mem_finishConnect nofun)
  | svc status service =>
    change _ ∈ (discSvcCb rc status service s).2 at h
    unfold discSvcCb at h
    split_ifs at h
    · exact absurd h List.not_mem_nil
    · exact absurd h List.not_mem_nil
    · exact absurd h (not_mem_finishConnect nofun)
    · exact absurd h (not_mem_gattcOrFail _ _)
    · exact absurd h (not_mem_finishConnect nofun)
  | chr status chr =>
    change _ ∈ (discChrCb rc status chr s).2 at h
    unfold discChrCb at h
    dsimp only at h
    split_ifs at h
    · exact absurd h List.not_mem_nil
    · exact absurd h (not_mem_gattcOrFail _ _)
    · exact absurd h (not_mem_finishConnect nofun)
    · exact absurd h (not_mem_gattcOrFail _ _)
    · exact absurd h (not_mem_finishConnect nofun)
  | dsc conn status dsc =>
    change _ ∈ (discDscCb rc conn status dsc s).2 at h
    unfold discDscCb at h
    split_ifs at h
    · exact absurd h (not_mem_gattcOrFail _ _)
    · exact absurd h List.not_mem_nil
    · exact absurd h (not_mem_finishConnect nofun)
    · exact absurd h List.not_mem_nil
    · exact absurd h (not_mem_finishConnect nofun)
  | written status =>
    change _ ∈ onCccdWrite status at h
    unfold onCccdWrite at h
    split_ifs at h with hst
    · exact absurd h (not_mem_finishConnect nofun)
    · rw [not_not.mp hst]
  | disconnect =>
    change _ ∈ [BleEffect.notifyOwner evtDisconnected] at h
    exact absurd h (by decide)

/-! ## The accesses to `s_services` -/

/-- An access to `s_services`: whether it is a store, its index, and `s_service_idx` and
`s_service_count` at that moment. -/
structure ServiceAccess where
  store : Bool
  index : ℕ
  serviceIdx : ℕ
  serviceCount : ℕ
  deriving DecidableEq

/-- The accesses of `disc_svc_cb` and of `begin_chr_discovery_for_service` called from it. -/
def discSvcAccesses (status : UInt16) (s : BleClient) : List ServiceAccess :=
  if status = 0 then
    if s.services.length < maxServices then
      [⟨true, s.services.length, s.serviceIdx, s.services.length⟩]
    else []
  else if status = hsEdone then
    if s.services.length = 0 then [] else [⟨false, 0, 0, s.services.length⟩]
  else []

/-- The accesses of `disc_chr_cb` and of `begin_chr_discovery_for_service` called from it. -/
def discChrAccesses (status : UInt16) (chr : GattChr) (s : BleClient) : List ServiceAccess :=
  if status = 0 then
    if s.notifyHandle = 0 ∧ isNotifyUuid chr.uuid then
      [⟨false, s.serviceIdx, s.serviceIdx, s.services.length⟩]
    else []
  else if status = hsEdone then
    if s.serviceIdx + 1 < s.services.length then
      [⟨false, s.serviceIdx + 1, s.serviceIdx + 1, s.services.length⟩]
    else []
  else []

/-- The accesses of a callback. -/
def BleClient.accesses (s : BleClient) : BleEvent → List ServiceAccess
  | .svc status _ => discSvcAccesses status s
  | .chr status chr => discChrAccesses status chr s
  | _ => []

/-- A read is at `s_service_idx`, below `s_service_count`; a store is at `s_service_count`, below
`MAX_SERVICES`. -/
def ServiceAccess.Inside (x : ServiceAccess) : Prop :=
  if x.store then x.index = x.serviceCount ∧ x.serviceCount < maxServices
  else x.index = x.serviceIdx ∧ x.serviceIdx < x.serviceCount

theorem beginChrDiscovery_congr {s : BleClient} {services : List GattSvc} {idx : ℕ} (rc : ℤ)
    (hread : services.getD idx default = s.services.getD idx default) :
    beginChrDiscoveryForService rc idx { s with services := services } =
      beginChrDiscoveryForService rc idx s := by
  unfold beginChrDiscoveryForService
  dsimp only
  rw [hread]

theorem takeNotify_congr {s : BleClient} {services : List GattSvc} (chr : GattChr)
    (hread : s.notifyHandle = 0 ∧ isNotifyUuid chr.uuid →
      services.getD s.serviceIdx default = s.services.getD s.serviceIdx default) :
    (takeNotify chr (takeWrite chr { s with services := services })).notifySvcEnd =
      (takeNotify chr (takeWrite chr s)).notifySvcEnd := by
  unfold takeNotify takeWrite
  dsimp only
  split_ifs with hwrite hnotify hnotify
  · exact congrArg GattSvc.endHandle (hread hnotify)
  · rfl
  · exact congrArg GattSvc.endHandle (hread hnotify)
  · rfl

/-- **All reads are listed.** A callback does the same, and remembers the same end handle, with any
other entries that agree with the recorded ones where it is listed to read. -/
theorem take_congr {s : BleClient} {services : List GattSvc} {ev : BleEvent} (rc : ℤ)
    (hlen : services.length = s.services.length)
    (hread : ∀ x ∈ s.accesses ev, x.store = false →
      services.getD x.index default = s.services.getD x.index default) :
    (({ s with services := services } : BleClient).take rc ev).2 = (s.take rc ev).2 ∧
      (({ s with services := services } : BleClient).take rc ev).1.notifySvcEnd =
        (s.take rc ev).1.notifySvcEnd := by
  cases ev with
  | connect status conn =>
    show (gapConnect rc status conn _).2 = (gapConnect rc status conn s).2 ∧ _
    unfold BleClient.take gapConnect
    dsimp only
    split_ifs <;> exact ⟨rfl, rfl⟩
  | svc status service =>
    change ∀ x ∈ discSvcAccesses status s, _ at hread
    unfold discSvcAccesses at hread
    show (discSvcCb rc status service _).2 = (discSvcCb rc status service s).2 ∧
      (discSvcCb rc status service _).1.notifySvcEnd =
        (discSvcCb rc status service s).1.notifySvcEnd
    unfold discSvcCb
    dsimp only
    rw [hlen]
    split_ifs at hread ⊢ with hst hroom hdone hzero
    · exact ⟨rfl, rfl⟩
    · exact ⟨rfl, rfl⟩
    · exact ⟨rfl, rfl⟩
    · have hfirst := hread _ (List.mem_singleton_self _) rfl
      exact ⟨beginChrDiscovery_congr (s := { s with serviceIdx := 0 }) rc hfirst, rfl⟩
    · exact ⟨rfl, rfl⟩
  | chr status chr =>
    change ∀ x ∈ discChrAccesses status chr s, _ at hread
    unfold discChrAccesses at hread
    show (discChrCb rc status chr _).2 = (discChrCb rc status chr s).2 ∧
      (discChrCb rc status chr _).1.notifySvcEnd = (discChrCb rc status chr s).1.notifySvcEnd
    unfold discChrCb
    dsimp only
    rw [hlen]
    split_ifs at hread ⊢ with hst hnotify hdone hmore hnone
    · exact ⟨rfl, takeNotify_congr chr fun _ => hread _ (List.mem_singleton_self _) rfl⟩
    · exact ⟨rfl, takeNotify_congr chr fun h => absurd h hnotify⟩
    · have hnext := hread _ (List.mem_singleton_self _) rfl
      exact ⟨beginChrDiscovery_congr (s := { s with serviceIdx := s.serviceIdx + 1 }) rc hnext, rfl⟩
    · exact ⟨rfl, rfl⟩
    · exact ⟨rfl, rfl⟩
    · exact ⟨rfl, rfl⟩
  | dsc conn status dsc =>
    show (discDscCb rc conn status dsc _).2 = (discDscCb rc conn status dsc s).2 ∧
      (discDscCb rc conn status dsc _).1.notifySvcEnd =
        (discDscCb rc conn status dsc s).1.notifySvcEnd
    unfold discDscCb
    dsimp only
    split_ifs <;> exact ⟨rfl, rfl⟩
  | written status => exact ⟨rfl, rfl⟩
  | disconnect => exact ⟨rfl, rfl⟩

theorem inside_of_store {s : BleClient} {ev : BleEvent} {x : ServiceAccess} (hx : x ∈ s.accesses ev)
    (hstore : x.store = true) : x.serviceCount < maxServices := by
  cases ev with
  | svc status service =>
    change x ∈ discSvcAccesses status s at hx
    unfold discSvcAccesses at hx
    split_ifs at hx with hst hroom hdone hzero
    · rw [List.mem_singleton.mp hx]
      exact hroom
    · exact absurd hx List.not_mem_nil
    · exact absurd hx List.not_mem_nil
    · rw [List.mem_singleton.mp hx] at hstore
      cases hstore
    · exact absurd hx List.not_mem_nil
  | chr status chr =>
    change x ∈ discChrAccesses status chr s at hx
    unfold discChrAccesses at hx
    split_ifs at hx with hst hnotify hdone hmore
    · rw [List.mem_singleton.mp hx] at hstore
      cases hstore
    · exact absurd hx List.not_mem_nil
    · rw [List.mem_singleton.mp hx] at hstore
      cases hstore
    · exact absurd hx List.not_mem_nil
    · exact absurd hx List.not_mem_nil
  | _ => exact absurd hx List.not_mem_nil

/-- **All stores are listed.** A callback leaves the recorded services as they are, starts over, or
adds one by a store that is listed. -/
theorem take_services (s : BleClient) (rc : ℤ) (ev : BleEvent) :
    (s.take rc ev).1.services = s.services ∨ (s.take rc ev).1.services = [] ∨
      ∃ svc, (s.take rc ev).1.services = s.services ++ [svc] ∧
        ⟨true, s.services.length, s.serviceIdx, s.services.length⟩ ∈ s.accesses ev := by
  cases ev with
  | connect status conn =>
    show (gapConnect rc status conn s).1.services = _ ∨
      (gapConnect rc status conn s).1.services = _ ∨ _
    unfold gapConnect
    split_ifs
    · exact .inr (.inl rfl)
    · exact .inl rfl
  | svc status service =>
    by_cases hstore : status = 0 ∧ s.services.length < maxServices
    · refine .inr (.inr ⟨service, ?_, ?_⟩)
      · show (discSvcCb rc status service s).1.services = _
        unfold discSvcCb
        rw [if_pos hstore.1, if_pos hstore.2]
      · show _ ∈ discSvcAccesses status s
        unfold discSvcAccesses
        rw [if_pos hstore.1, if_pos hstore.2]
        exact List.mem_singleton_self _
    · refine .inl ?_
      show (discSvcCb rc status service s).1.services = _
      unfold discSvcCb
      split_ifs with hst hroom
      · exact absurd ⟨hst, hroom⟩ hstore
      all_goals rfl
  | chr status chr =>
    refine .inl ?_
    show (discChrCb rc status chr s).1.services = _
    unfold discChrCb takeNotify takeWrite
    dsimp only
    split_ifs <;> rfl
  | dsc conn status dsc =>
    refine .inl ?_
    show (discDscCb rc conn status dsc s).1.services = _
    unfold discDscCb
    split_ifs <;> rfl
  | written status => exact .inl rfl
  | disconnect => exact .inl rfl

/-- A list of accesses that holds all reads and all stores of a callback. -/
structure Exhaustive (s : BleClient) (ev : BleEvent) (xs : List ServiceAccess) : Prop where
  reads : ∀ (rc : ℤ) (services : List GattSvc), services.length = s.services.length →
    (∀ x ∈ xs, x.store = false →
      services.getD x.index default = s.services.getD x.index default) →
    (({ s with services := services } : BleClient).take rc ev).2 = (s.take rc ev).2 ∧
      (({ s with services := services } : BleClient).take rc ev).1.notifySvcEnd =
        (s.take rc ev).1.notifySvcEnd
  stores : ∀ rc : ℤ, (s.take rc ev).1.services = s.services ∨ (s.take rc ev).1.services = [] ∨
    ∃ svc, (s.take rc ev).1.services = s.services ++ [svc] ∧
      ⟨true, s.services.length, s.serviceIdx, s.services.length⟩ ∈ xs

theorem exhaustive_accesses (s : BleClient) (ev : BleEvent) : Exhaustive s ev (s.accesses ev) :=
  ⟨fun rc _ hlen hread => take_congr rc hlen hread, fun rc => take_services s rc ev⟩

/-! ## Attempts in progress -/

/-- The characteristics of the service at `s_service_idx` are being discovered. -/
def Searching (s : BleClient) (log : BleLog) : Prop :=
  ∃ svc, s.services[s.serviceIdx]? = some svc ∧
    searched log = some (svc.startHandle, svc.endHandle)

/-- The notify handle is 0 until a notify characteristic is reported, and from then on its. -/
def Tracking (s : BleClient) (log : BleLog) : Prop :=
  s.notifyHandle = 0 ∧ Unseen log ∨ s.notifyHandle ≠ 0 ∧ Located s log

/-- What the statics and the log have in common with what is in flight. -/
inductive Progress (s : BleClient) (log : BleLog) : List BleJob → Prop where
  | connecting {status conn} (hun : ¬ Posted log) (huns : Unseen log) :
    Progress s log [.connect status conn]
  | services {rs status} (hst : status ≠ 0) (hun : ¬ Posted log) (huns : Unseen log)
    (hnone : s.notifyHandle = 0) : Progress s log [.svcs rs status]
  | characteristics {rs status} (hst : status ≠ 0) (hun : ¬ Posted log) (hsearch : Searching s log)
    (htrack : Tracking s log) : Progress s log [.chrs rs status]
  | descriptors {conn rs status} (hst : status ≠ 0) (hus : Usable s log) :
    Progress s log [.dscs conn rs status]
  | subscribing {conn rs status status'} (hst : status ≠ 0) (hfound : s.cccdFound = true)
    (hus : Usable s log) (hsub : Subscribed log) :
    Progress s log [.dscs conn rs status, .write status']
  | writing {status} (hus : Usable s log) (hsub : Subscribed log) : Progress s log [.write status]
  | ended : Progress s log []

/-- What holds throughout an attempt. -/
structure Sound (a : Attempt) : Prop where
  room : a.client.services.length ≤ maxServices
  progress : Progress a.client a.log a.jobs
  connected : Posted a.log → Usable a.client a.log ∧ Acknowledged a.log

theorem room_take {s : BleClient} (h : s.services.length ≤ maxServices) (rc : ℤ) (ev : BleEvent) :
    (s.take rc ev).1.services.length ≤ maxServices := by
  obtain hsame | hreset | ⟨svc, hstored, hstore⟩ := take_services s rc ev
  · rw [hsame]
    exact h
  · rw [hreset]
    exact Nat.zero_le _
  · rw [hstored, List.length_append]
    exact inside_of_store hstore rfl

theorem samePair_dsc (s : BleClient) (rc : ℤ) (conn status : UInt16) (dsc : GattDsc) :
    SamePair s (discDscCb rc conn status dsc s).1 := by
  unfold discDscCb
  split_ifs <;> exact .refl _

theorem samePair_disconnect (s : BleClient) : SamePair s (gapDisconnect s).1 := ⟨rfl, rfl, rfl, rfl⟩

section Callbacks

variable {s : BleClient} {log : BleLog} {rc : ℤ} {new : List BleJob}

theorem progress_connect {status conn : UInt16} (hun : ¬ Posted log) (huns : Unseen log)
    (hnew : Launch anyServer (gapConnect rc status conn s).2 new) :
    Progress (gapConnect rc status conn s).1
      (log ++ [(.connect status conn, (gapConnect rc status conn s).2)]) new := by
  unfold gapConnect at hnew ⊢
  split_ifs at hnew ⊢ with hst
  · rcases launch_gattcOrFail hnew with ⟨job, hjob, rfl, -⟩ | ⟨-, rfl, -, -⟩
    · have hanswers := hjob job rfl
      cases job with
      | svcs rs status' =>
        refine .services hanswers ?_ (huns.snoc rfl) rfl
        rw [posted_snoc]
        exact fun h => h.elim hun (not_mem_gattcOrFail _ _)
      | _ => exact hanswers.elim
    · exact .ended
  · obtain rfl := launch_finishConnect hnew
    exact .ended

theorem Tracking.snoc {ev : BleEvent} {effs : List BleEffect} (h : Tracking s log)
    (hev : ev.reportsNotify = false) : Tracking s (log ++ [(ev, effs)]) := by
  obtain ⟨hzero, huns⟩ | ⟨hne, hloc⟩ := h
  · exact .inl ⟨hzero, huns.snoc hev⟩
  · exact .inr ⟨hne, hloc.mono rfl rfl (List.Subset.refl _) _⟩

theorem progress_search {ev : BleEvent} (hidx : s.serviceIdx < s.services.length)
    (hun : ¬ Posted log) (htrack : Tracking s log) (hev : ev.reportsNotify = false)
    (hnew : Launch anyServer (beginChrDiscoveryForService rc s.serviceIdx s) new) :
    Progress s (log ++ [(ev, beginChrDiscoveryForService rc s.serviceIdx s)]) new := by
  have hget : s.services[s.serviceIdx]? = some s.services[s.serviceIdx] :=
    List.getElem?_eq_getElem hidx
  unfold beginChrDiscoveryForService at hnew ⊢
  rw [List.getD_eq_getElem?_getD, hget, Option.getD_some] at hnew ⊢
  rcases launch_gattcOrFail hnew with ⟨job, hjob, rfl, heffs⟩ | ⟨-, rfl, -, -⟩
  · have hanswers := hjob job rfl
    cases job with
    | chrs rs status =>
      refine .characteristics hanswers ?_ ⟨_, hget, ?_⟩ (htrack.snoc hev)
      · rw [posted_snoc]
        exact fun h => h.elim hun (not_mem_gattcOrFail _ _)
      · rw [heffs, searched_snoc]
        rfl
    | _ => exact hanswers.elim
  · exact .ended

theorem progress_svc_report {service : GattSvc} {rs : List GattSvc} {status : UInt16}
    (hst : status ≠ 0) (hun : ¬ Posted log) (huns : Unseen log) (hnone : s.notifyHandle = 0)
    (hnew : Launch anyServer (discSvcCb rc 0 service s).2 new) :
    Progress (discSvcCb rc 0 service s).1 (log ++ [(.svc 0 service, (discSvcCb rc 0 service s).2)])
      (.svcs rs status :: new) := by
  have hun' : ¬ Posted (log ++ [(.svc 0 service, [])]) := by
    rw [posted_snoc]
    exact fun h => h.elim hun List.not_mem_nil
  unfold discSvcCb at hnew ⊢
  rw [if_pos rfl] at hnew ⊢
  split_ifs at hnew ⊢
  · obtain rfl := launch_nil hnew
    exact .services hst hun' (huns.snoc rfl) hnone
  · obtain rfl := launch_nil hnew
    exact .services hst hun' (huns.snoc rfl) hnone

theorem progress_svc_end {service : GattSvc} {status : UInt16} (hst : status ≠ 0)
    (hun : ¬ Posted log) (huns : Unseen log) (hnone : s.notifyHandle = 0)
    (hnew : Launch anyServer (discSvcCb rc status service s).2 new) :
    Progress (discSvcCb rc status service s).1
      (log ++ [(.svc status service, (discSvcCb rc status service s).2)]) new := by
  unfold discSvcCb at hnew ⊢
  rw [if_neg hst] at hnew ⊢
  split_ifs at hnew ⊢ with hdone hzero
  · obtain rfl := launch_finishConnect hnew
    exact .ended
  · exact progress_search (s := { s with serviceIdx := 0 }) (Nat.pos_of_ne_zero hzero) hun
      (.inl ⟨hnone, huns⟩) rfl hnew
  · obtain rfl := launch_finishConnect hnew
    exact .ended

/-- What a characteristic changes: a handle that is still 0, if it is of the pair. -/
theorem takeNotify_cases (chr : GattChr) (s : BleClient) :
    (s.notifyHandle = 0 ∧ isNotifyUuid chr.uuid ∧ takeNotify chr s = { s with
      notifyHandle := chr.valHandle
      notifySvcEnd := (s.services.getD s.serviceIdx default).endHandle }) ∨
    (¬ (s.notifyHandle = 0 ∧ isNotifyUuid chr.uuid) ∧ takeNotify chr s = s) := by
  unfold takeNotify
  split_ifs with h
  · exact .inl ⟨h.1, h.2, rfl⟩
  · exact .inr ⟨h, rfl⟩

theorem tracking_chr {chr : GattChr} (hsearch : Searching s log) (htrack : Tracking s log) :
    Tracking (takeNotify chr s) (log ++ [(.chr 0 chr, [])]) := by
  obtain ⟨hzero, hnotify, heq⟩ | ⟨hno, heq⟩ := takeNotify_cases chr s
  · have huns : Unseen log := htrack.elim And.right fun h => absurd hzero h.1
    rw [heq]
    by_cases hval : chr.valHandle = 0
    · exact .inl ⟨hval, huns.snoc (decide_eq_false fun h => h.2.2 hval)⟩
    · obtain ⟨svc, hget, hsearched⟩ := hsearch
      refine .inr ⟨hval, log, chr, [], [], svc, rfl, decide_eq_true ⟨rfl, hnotify, hval⟩, huns, rfl,
        List.mem_of_getElem? hget, hsearched, ?_⟩
      show (s.services.getD s.serviceIdx default).endHandle = svc.endHandle
      rw [List.getD_eq_getElem?_getD, hget, Option.getD_some]
  · rw [heq]
    obtain ⟨hzero, huns⟩ | ⟨hne, hloc⟩ := htrack
    · exact .inl ⟨hzero, huns.snoc (decide_eq_false fun h => hno ⟨hzero, h.2.1⟩)⟩
    · exact .inr ⟨hne, hloc.mono rfl rfl (List.Subset.refl _) _⟩

theorem takeWrite_same (chr : GattChr) (s : BleClient) :
    (takeWrite chr s).notifyHandle = s.notifyHandle ∧
      (takeWrite chr s).notifySvcEnd = s.notifySvcEnd ∧
      (takeWrite chr s).services = s.services ∧ (takeWrite chr s).serviceIdx = s.serviceIdx := by
  unfold takeWrite
  split_ifs <;> exact ⟨rfl, rfl, rfl, rfl⟩

theorem progress_chr_report {chr : GattChr} {rs : List GattChr} {status : UInt16}
    (hst : status ≠ 0) (hun : ¬ Posted log) (hsearch : Searching s log) (htrack : Tracking s log)
    (hnew : Launch anyServer (discChrCb rc 0 chr s).2 new) :
    Progress (discChrCb rc 0 chr s).1 (log ++ [(.chr 0 chr, (discChrCb rc 0 chr s).2)])
      (.chrs rs status :: new) := by
  obtain rfl : new = [] := launch_nil hnew
  show Progress (takeNotify chr (takeWrite chr s)) (log ++ [(.chr 0 chr, [])]) [.chrs rs status]
  obtain ⟨hn, he, hservices, hidx⟩ := takeWrite_same chr s
  have hsearch' : Searching (takeWrite chr s) log := by
    unfold Searching
    rw [hservices, hidx]
    exact hsearch
  have htrack' : Tracking (takeWrite chr s) log := by
    obtain ⟨hzero, huns⟩ | ⟨hne, hloc⟩ := htrack
    · exact .inl ⟨hn.trans hzero, huns⟩
    · have hloc' := hloc.mono hn he (hservices ▸ List.Subset.refl _) []
      rw [List.append_nil] at hloc'
      exact .inr ⟨hn ▸ hne, hloc'⟩
  refine .characteristics hst ?_ ?_ (tracking_chr hsearch' htrack')
  · rw [posted_snoc]
    exact fun h => h.elim hun List.not_mem_nil
  · obtain ⟨svc, hget, hsearched⟩ := hsearch'
    refine ⟨svc, ?_, by rw [searched_snoc]; exact hsearched⟩
    obtain ⟨-, -, heq⟩ | ⟨-, heq⟩ := takeNotify_cases chr (takeWrite chr s)
    · rw [heq]
      exact hget
    · rw [heq]
      exact hget

theorem progress_chr_end {chr : GattChr} {status : UInt16} (hst : status ≠ 0) (hun : ¬ Posted log)
    (htrack : Tracking s log) (hnew : Launch anyServer (discChrCb rc status chr s).2 new) :
    Progress (discChrCb rc status chr s).1
      (log ++ [(.chr status chr, (discChrCb rc status chr s).2)]) new := by
  have hev : (BleEvent.chr status chr).reportsNotify = false := decide_eq_false fun h => hst h.1
  unfold discChrCb at hnew ⊢
  rw [if_neg hst] at hnew ⊢
  dsimp only at hnew ⊢
  split_ifs at hnew ⊢ with hdone hmore hnone
  · exact progress_search (s := { s with serviceIdx := s.serviceIdx + 1 }) hmore hun htrack hev hnew
  · obtain rfl := launch_finishConnect hnew
    exact .ended
  · rw [not_or] at hnone
    rcases launch_gattcOrFail hnew with ⟨job, hjob, rfl, -⟩ | ⟨-, rfl, -, -⟩
    · have hanswers := hjob job rfl
      have hloc : Located s log := htrack.elim (fun h => absurd h.1 hnone.2) And.right
      cases job with
      | dscs conn rs status' =>
        have hus : Usable s log := ⟨hnone.1, hnone.2, hloc⟩
        have hsame : SamePair s { s with serviceIdx := s.serviceIdx + 1 } := ⟨rfl, rfl, rfl, rfl⟩
        exact .descriptors hanswers.2 (hus.mono hsame _)
      | _ => exact hanswers.elim
    · exact .ended
  · obtain rfl := launch_finishConnect hnew
    exact .ended

/-- Descriptor discovery calls back; `behind` is the CCCD's write, if it is in flight. -/
theorem progress_dsc {conn status : UInt16} {dsc : GattDsc} (rest behind : List BleJob)
    (hus : Usable s log)
    (hrest : ∀ s' log', (s.cccdFound = true → s'.cccdFound = true) → Usable s' log' →
      (Subscribed log → Subscribed log') → Progress s' log' (rest ++ behind))
    (hwrite : status = 0 → s.cccdFound = false → ∀ s' log' status', s'.cccdFound = true →
      Usable s' log' → Subscribed log' → Progress s' log' (rest ++ behind ++ [.write status']))
    (hnew : Launch anyServer (discDscCb rc conn status dsc s).2 new) :
    Progress (discDscCb rc conn status dsc s).1
      (log ++ [(.dsc conn status dsc, (discDscCb rc conn status dsc s).2)])
      (rest ++ behind ++ new) := by
  have hus' := hus.mono (samePair_dsc s rc conn status dsc)
    [(.dsc conn status dsc, (discDscCb rc conn status dsc s).2)]
  have hkeep : Subscribed log →
      Subscribed (log ++ [(.dsc conn status dsc, (discDscCb rc conn status dsc s).2)]) :=
    fun h => h.append _
  have hnew' : status = 0 → dsc.uuid = cccdUuid →
      .gattc (.writeFlat conn dsc.handle [0x01, 0x00]) 0 ∈ (discDscCb rc conn status dsc s).2 →
      Subscribed (log ++ [(.dsc conn status dsc, (discDscCb rc conn status dsc s).2)]) := by
    rintro rfl huuid hmem
    exact ⟨conn, dsc, _, List.mem_append_right _ (List.mem_singleton_self _), huuid, hmem⟩
  generalize log ++ [(.dsc conn status dsc, (discDscCb rc conn status dsc s).2)] = log'
    at hus' hkeep hnew' ⊢
  unfold discDscCb at hnew hus' hnew' ⊢
  split_ifs at hnew hus' hnew' ⊢ with hst hfound hdone
  · rcases launch_gattcOrFail hnew with ⟨job, hjob, rfl, heffs⟩ | ⟨-, rfl, -, -⟩
    · have hanswers := hjob job rfl
      cases job with
      | write status' =>
        refine hwrite hst hfound.1 _ _ _ rfl hus' (hnew' hst hfound.2 ?_)
        rw [heffs]
        exact List.mem_singleton_self _
      | _ => exact hanswers.elim
    · rw [List.append_nil]
      exact hrest _ _ (fun _ => rfl) hus' hkeep
  · obtain rfl := launch_nil hnew
    rw [List.append_nil]
    exact hrest _ _ id hus' hkeep
  · obtain rfl := launch_finishConnect hnew
    rw [List.append_nil]
    exact hrest _ _ id hus' hkeep
  · obtain rfl := launch_nil hnew
    rw [List.append_nil]
    exact hrest _ _ id hus' hkeep
  · obtain rfl := launch_finishConnect hnew
    rw [List.append_nil]
    exact hrest _ _ id hus' hkeep

theorem progress_disconnect {jobs : List BleJob} (h : Progress s log jobs) :
    Progress (gapDisconnect s).1 (log ++ [(.disconnect, (gapDisconnect s).2)]) jobs := by
  have hun : ¬ Posted log → ¬ Posted (log ++ [(.disconnect, (gapDisconnect s).2)]) := by
    intro hun
    have hlost : .notifyOwner evtConnected ∉ [BleEffect.notifyOwner evtDisconnected] := by decide
    rw [posted_snoc]
    exact fun h => h.elim hun hlost
  have hus : Usable s log →
      Usable (gapDisconnect s).1 (log ++ [(.disconnect, (gapDisconnect s).2)]) :=
    fun hus => hus.mono (samePair_disconnect s) _
  cases h with
  | connecting hun' huns => exact .connecting (hun hun') (huns.snoc rfl)
  | services hst hun' huns hnone => exact .services hst (hun hun') (huns.snoc rfl) hnone
  | characteristics hst hun' hsearch htrack =>
    obtain ⟨svc, hget, hsearched⟩ := hsearch
    refine .characteristics hst (hun hun') ⟨svc, hget, ?_⟩ ?_
    · rw [searched_snoc]
      exact hsearched
    · exact Tracking.snoc (s := (gapDisconnect s).1) (htrack.imp id fun h => h) rfl
  | descriptors hst hus' => exact .descriptors hst (hus hus')
  | subscribing hst hfound hus' hsub => exact .subscribing hst hfound (hus hus') (hsub.append _)
  | writing hus' hsub => exact .writing (hus hus') (hsub.append _)
  | ended => exact .ended

end Callbacks

/-! ## Runs -/

/-- Once the verdict is posted the pair stays. -/
theorem connected_snoc {s s' : BleClient} {jobs : List BleJob} {log : BleLog} {ev : BleEvent}
    {effs : List BleEffect} (hb : Sound ⟨s, jobs, log⟩) (hsame : Posted log → SamePair s s')
    (hpost : .notifyOwner evtConnected ∈ effs →
      ev = .written 0 ∧ SamePair s s' ∧ Usable s log ∧ Subscribed log) :
    Posted (log ++ [(ev, effs)]) →
      Usable s' (log ++ [(ev, effs)]) ∧ Acknowledged (log ++ [(ev, effs)]) := by
  rw [posted_snoc]
  rintro (hold | hnow)
  · obtain ⟨hus, hack⟩ := hb.connected hold
    exact ⟨hus.mono (hsame hold) _, hack.append _⟩
  · obtain ⟨rfl, hsame', hus, hsub⟩ := hpost hnow
    exact ⟨hus.mono hsame' _, log, effs, [], rfl, hsub⟩

theorem sound_callback {s : BleClient} {jobs jobs' : List BleJob} {log : BleLog} (rc : ℤ)
    (ev : BleEvent) (hb : Sound ⟨s, jobs, log⟩)
    (hprogress : Progress (s.take rc ev).1 (log ++ [(ev, (s.take rc ev).2)]) jobs')
    (hsame : Posted log → SamePair s (s.take rc ev).1)
    (hwritten : ev = .written 0 → Usable s log ∧ Subscribed log) :
    Sound ⟨(s.take rc ev).1, jobs', log ++ [(ev, (s.take rc ev).2)]⟩ := by
  refine ⟨room_take hb.room rc ev, hprogress, connected_snoc hb hsame fun h => ?_⟩
  have hev := written_of_post h
  refine ⟨hev, ?_, hwritten hev⟩
  rw [hev]
  exact .refl s

/-- **One step** keeps what holds throughout an attempt. -/
theorem sound_step {a b : Attempt} (hb : Sound a) (hs : Attempt.Step anyServer a b) : Sound b := by
  cases hs with
  | disconnect =>
    exact sound_callback 0 .disconnect hb (progress_disconnect hb.progress)
      (fun _ => samePair_disconnect _) nofun
  | @callback s js j js' log rc new hnew =>
    have hprogress := hb.progress
    dsimp only at hprogress
    generalize hjobs : js ++ j :: js' = jobs at hprogress hb
    cases hprogress with
    | connecting hun huns =>
      obtain ⟨rfl, rfl, rfl⟩ := append_cons_eq_singleton hjobs
      exact sound_callback _ _ hb (progress_connect hun huns hnew) (fun h => absurd h hun) nofun
    | @services rs status hst hun huns hnone =>
      obtain ⟨rfl, rfl, rfl⟩ := append_cons_eq_singleton hjobs
      cases rs with
      | nil =>
        exact sound_callback _ _ hb (progress_svc_end hst hun huns hnone hnew)
          (fun h => absurd h hun) nofun
      | cons r rs =>
        exact sound_callback _ _ hb (progress_svc_report hst hun huns hnone hnew)
          (fun h => absurd h hun) nofun
    | @characteristics rs status hst hun hsearch htrack =>
      obtain ⟨rfl, rfl, rfl⟩ := append_cons_eq_singleton hjobs
      cases rs with
      | nil =>
        exact sound_callback _ _ hb (progress_chr_end hst hun htrack hnew)
          (fun h => absurd h hun) nofun
      | cons r rs =>
        exact sound_callback _ _ hb (progress_chr_report hst hun hsearch htrack hnew)
          (fun h => absurd h hun) nofun
    | @descriptors conn rs status hst hus =>
      obtain ⟨rfl, rfl, rfl⟩ := append_cons_eq_singleton hjobs
      cases rs with
      | nil =>
        refine sound_callback _ _ hb (progress_dsc [] [] hus ?_ ?_ hnew)
          (fun _ => samePair_dsc ..) nofun
        · exact fun _ _ _ _ _ => .ended
        · exact fun h => absurd h hst
      | cons r rs =>
        refine sound_callback _ _ hb (progress_dsc [.dscs conn rs status] [] hus
          ?_ ?_ hnew) (fun _ => samePair_dsc ..) nofun
        · exact fun _ _ _ hus' _ => .descriptors hst hus'
        · exact fun _ _ _ _ _ hfound hus' hsub => .subscribing hst hfound hus' hsub
    | @subscribing conn rs status status' hst hfound hus hsub =>
      rcases append_cons_eq_pair hjobs with ⟨rfl, rfl, rfl⟩ | ⟨rfl, rfl, rfl⟩
      · have hone : s.cccdFound ≠ false := fun h => absurd (hfound.symm.trans h) nofun
        cases rs with
        | nil =>
          refine sound_callback _ _ hb (progress_dsc [] [.write status'] hus ?_ ?_
            hnew) (fun _ => samePair_dsc ..) nofun
          · exact fun _ _ _ hus' hkeep => .writing hus' (hkeep hsub)
          · exact fun _ h => absurd h hone
        | cons r rs =>
          refine sound_callback _ _ hb (progress_dsc [.dscs conn rs status]
            [.write status'] hus ?_ ?_ hnew) (fun _ => samePair_dsc ..) nofun
          · exact fun _ _ hset hus' hkeep => .subscribing hst (hset hfound) hus' (hkeep hsub)
          · exact fun _ h => absurd h hone
      · obtain rfl := launch_onCccdWrite hnew
        exact sound_callback _ _ hb (.descriptors hst (hus.mono (.refl s) _)) (fun _ => .refl _)
          fun _ => ⟨hus, hsub⟩
    | @writing status hus hsub =>
      obtain ⟨rfl, rfl, rfl⟩ := append_cons_eq_singleton hjobs
      obtain rfl := launch_onCccdWrite hnew
      exact sound_callback _ _ hb .ended (fun _ => .refl _) fun _ => ⟨hus, hsub⟩
    | ended => simp at hjobs

theorem sound_runs {s : BleClient} {status conn : UInt16} {a : Attempt}
    (hroom : s.services.length ≤ maxServices)
    (hrun : Attempt.Runs anyServer (.begin s status conn) a) : Sound a := by
  induction hrun with
  | refl => exact ⟨hroom, .connecting List.not_mem_nil nofun, fun h => absurd h List.not_mem_nil⟩
  | tail _ hs ih => exact sound_step ih hs

/-- The statics an attempt may begin with: those at power-on, and what an attempt leaves. -/
inductive Began : BleClient → Prop where
  | boot : Began Sample.client
  | again {s a} {status conn : UInt16} (hs : Began s)
    (hrun : Attempt.Runs anyServer (.begin s status conn) a) : Began a.client

theorem Began.room {s : BleClient} (h : Began s) : s.services.length ≤ maxServices := by
  induction h with
  | boot => exact Nat.zero_le _
  | again _ hrun ih => exact (sound_runs ih hrun).room

/-! ## The result -/

/-- **Every access** of a callback that can come next is inside. -/
theorem accesses_inside {a : Attempt} (hb : Sound a) {j : BleJob} (hj : j ∈ a.jobs)
    {x : ServiceAccess} (hx : x ∈ a.client.accesses j.event) : x.Inside := by
  obtain ⟨s, jobs, log⟩ := a
  have hprogress := hb.progress
  dsimp only at hprogress hj hx
  cases hprogress with
  | @services rs status hst hun huns hnone =>
    obtain rfl := List.mem_singleton.mp hj
    have hsvc : ∀ status' service, x ∈ s.accesses (.svc status' service) → x.Inside := by
      intro status' service hx
      change x ∈ discSvcAccesses status' s at hx
      unfold discSvcAccesses at hx
      split_ifs at hx with hst hroom hdone hzero
      · rw [List.mem_singleton.mp hx]
        exact ⟨rfl, hroom⟩
      · exact absurd hx List.not_mem_nil
      · exact absurd hx List.not_mem_nil
      · rw [List.mem_singleton.mp hx]
        exact ⟨rfl, Nat.pos_of_ne_zero hzero⟩
      · exact absurd hx List.not_mem_nil
    cases rs with
    | nil => exact hsvc _ _ hx
    | cons r rs => exact hsvc _ _ hx
  | @characteristics rs status hst hun hsearch htrack =>
    obtain rfl := List.mem_singleton.mp hj
    obtain ⟨svc, hget, -⟩ := hsearch
    obtain ⟨hidx, -⟩ := List.getElem?_eq_some_iff.mp hget
    have hchr : ∀ status' chr, x ∈ s.accesses (.chr status' chr) → x.Inside := by
      intro status' chr hx
      change x ∈ discChrAccesses status' chr s at hx
      unfold discChrAccesses at hx
      split_ifs at hx with hst hnotify hdone hmore
      · rw [List.mem_singleton.mp hx]
        exact ⟨rfl, hidx⟩
      · exact absurd hx List.not_mem_nil
      · rw [List.mem_singleton.mp hx]
        exact ⟨rfl, hmore⟩
      · exact absurd hx List.not_mem_nil
      · exact absurd hx List.not_mem_nil
    cases rs with
    | nil => exact hchr _ _ hx
    | cons r rs => exact hchr _ _ hx
  | connecting hun huns =>
    obtain rfl := List.mem_singleton.mp hj
    exact absurd hx List.not_mem_nil
  | @descriptors conn rs status hst hus =>
    obtain rfl := List.mem_singleton.mp hj
    cases rs <;> exact absurd hx List.not_mem_nil
  | @subscribing conn rs status status' hst hfound hus hsub =>
    rcases List.mem_cons.mp hj with rfl | hj
    · cases rs <;> exact absurd hx List.not_mem_nil
    · obtain rfl := List.mem_singleton.mp hj
      exact absurd hx List.not_mem_nil
  | writing hus hsub =>
    obtain rfl := List.mem_singleton.mp hj
    exact absurd hx List.not_mem_nil
  | ended => exact absurd hj List.not_mem_nil

/-- **Connected means usable.** Whatever the device reports, in whatever order the procedures call
back, and whichever calls fail: once `BLE_EVT_CONNECTED` is posted both handles are set, the notify
handle's range ends with the recorded service it was reported in, and the write of `01 00` to a
CCCD has been acknowledged. Throughout, `s_services` is not overfilled, and each access is inside
it: those listed are, and they are all. -/
theorem connected_usable {s : BleClient} (hs : Began s) {status conn : UInt16} {a : Attempt}
    (hrun : Attempt.Runs anyServer (.begin s status conn) a) :
    (Posted a.log → Usable a.client a.log ∧ Acknowledged a.log) ∧
    a.client.services.length ≤ maxServices ∧
    (∀ j ∈ a.jobs, ∀ x ∈ a.client.accesses j.event, x.Inside) ∧
    ∀ ev, Exhaustive a.client ev (a.client.accesses ev) := by
  have hb := sound_runs hs.room hrun
  exact ⟨hb.connected, hb.room, fun j hj x hx => accesses_inside hb hj hx,
    exhaustive_accesses a.client⟩

/-- The device with the rfcomm-style pair: the attempt posts, so that its pair is usable. -/
theorem connected_usable_sample :
    let a := Sample.attempt hsEdone
    Posted a.log ∧ (Usable a.client a.log ∧ Acknowledged a.log) ∧
    a.client.services.length ≤ maxServices ∧
    (∀ j ∈ a.jobs, ∀ x ∈ a.client.accesses j.event, x.Inside) ∧
    ∀ ev, Exhaustive a.client ev (a.client.accesses ev) := by
  have hposted : Posted (Sample.attempt hsEdone).log := by
    unfold Posted
    decide
  have hall := connected_usable .boot (runs_play (@Sample.answers_serve hsEdone (by decide))
    (.begin Sample.client 0 7) [0, 0, 0, 0, 0, 0, 0, 1, 0])
  exact ⟨hposted, hall.1 hposted, hall.2⟩

/-- `disc_svc_cb` stores at `s_service_count`: at the first store, `s_service_idx` and
`s_service_count` are both 0. -/
theorem first_store_at_count :
    ¬ ∀ (s : BleClient) (status conn : UInt16) (a : Attempt), Began s →
      Attempt.Runs anyServer (.begin s status conn) a →
      ∀ j ∈ a.jobs, ∀ x ∈ a.client.accesses j.event, x.serviceIdx < x.serviceCount := by
  intro h
  have hstore := h Sample.client 0 7 _ .boot
    (runs_play (@Sample.answers_serve hsEdone (by decide)) (.begin Sample.client 0 7) [0])
    (.svcs [⟨1, 6⟩] hsEdone) (by decide) ⟨true, 0, 0, 0⟩ (by decide)
  exact absurd hstore (by decide)

end River2
