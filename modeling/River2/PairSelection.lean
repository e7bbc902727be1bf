import River2.Discovery

/-!
# The characteristic pair

1. `Variant`: the pairs of the protocol document.
2. `PairSelected`: the client connects on both characteristics of one pair, and it does connect if a
   pair is complete. `Selectable` says of the table when that is so: the first write and the first
   notify characteristic of the first `MAX_SERVICES` services decide.
3. `pair_selected_iff`: the one holds if and only if the other does.
-/

namespace River2

/-- The variants of the transport. -/
inductive Variant where
  | rfcomm
  | nordicUart
  deriving DecidableEq

/-- The write characteristic of a variant. -/
def Variant.isWrite : Variant → BleUuid → Prop
  | .rfcomm, u => u = rfcommWriteUuid128 ∨ u = rfcommWriteUuid16
  | .nordicUart, u => u = nusWriteUuid

/-- The notify characteristic of a variant. -/
def Variant.isNotify : Variant → BleUuid → Prop
  | .rfcomm, u => u = rfcommNotifyUuid128 ∨ u = rfcommNotifyUuid16
  | .nordicUart, u => u = nusNotifyUuid

variable (t : GattTable)

/-- Two handles are those of the write and the notify characteristic of one variant. -/
def OneVariant (writeHandle notifyHandle : UInt16) : Prop :=
  ∃ v : Variant, ∃ x ∈ t.chrs, ∃ y ∈ t.chrs, v.isWrite x.uuid ∧ v.isNotify y.uuid ∧
    writeHandle = x.valHandle ∧ notifyHandle = y.valHandle

/-- The table has both characteristics of a variant, and the notify characteristic has a CCCD. -/
def CompletePair : Prop :=
  ∃ v : Variant, ∃ x ∈ t.chrs, ∃ y ∈ t.chrs, v.isWrite x.uuid ∧ v.isNotify y.uuid ∧
    ∃ d ∈ y.dscs, d.uuid = cccdUuid

/-- What the client is for: it connects on one variant, and if there is a complete pair it does. -/
structure PairSelected (a : Attempt) : Prop where
  variant : verdicts a.log = [evtConnected] →
    OneVariant t a.client.writeHandle a.client.notifyHandle
  complete : CompletePair t → verdicts a.log = [evtConnected]

/-- The first write and the first notify characteristic of the recorded services: if both are there
and a CCCD comes behind the latter, they are of one variant; and that is so if there is a complete
pair. -/
structure Selectable : Prop where
  unmixed : ∀ w n, t.writeChr = some w → t.notifyChr = some n → (cccdBehind n).isSome = true →
    ∃ v : Variant, v.isWrite w.2.uuid ∧ v.isNotify n.2.uuid
  found : CompletePair t →
    ∃ w n, t.writeChr = some w ∧ t.notifyChr = some n ∧ (cccdBehind n).isSome = true

variable {t}

theorem mem_chrs_of_offered {x : TableSvc × TableChr} (hx : x ∈ t.offered) : x.2 ∈ t.chrs :=
  List.mem_flatMap.mpr ⟨x.1, (mem_offered hx).1, (mem_offered hx).2⟩

/-- **Pair selection, exactly.** For every table, whatever the order of the callbacks: when the
attempt is over and its write has not failed, the client has selected a pair as it should, if and
only if the table is selectable. -/
theorem pair_selected_iff {s : BleClient} {conn : UInt16} {a : Attempt}
    (hrun : Attempt.Runs (tableServer t) (.begin s 0 conn) a) (hend : a.jobs = [])
    (hwrite : writeFailed a.log = false) : PairSelected t a ↔ Selectable t := by
  obtain ⟨hsel, hover⟩ := table_attempt hrun hend
  rw [hwrite] at hover
  have hhandles : ∀ {w n}, t.writeChr = some w → t.notifyChr = some n →
      a.client.writeHandle = w.2.valHandle ∧ a.client.notifyHandle = n.2.valHandle :=
    fun hw hn => ⟨hsel.write.trans (congrArg handleOf hw), hsel.notify.trans (congrArg handleOf hn)⟩
  have hmem : ∀ {w n}, t.writeChr = some w → t.notifyChr = some n → w.2 ∈ t.chrs ∧ n.2 ∈ t.chrs :=
    fun hw hn => ⟨mem_chrs_of_offered (List.mem_of_find?_eq_some hw),
      mem_chrs_of_offered (List.mem_of_find?_eq_some hn)⟩
  have hconnected : verdicts a.log = [evtConnected] ↔
      ∃ w n, t.writeChr = some w ∧ t.notifyChr = some n ∧ (cccdBehind n).isSome = true := by
    rcases hover with ⟨w, n, d, hw, hn, hd, -, hv⟩ | ⟨hnone, -, hv⟩
    · exact iff_of_true hv ⟨w, n, hw, hn, by rw [hd, Option.isSome_some]⟩
    · refine iff_of_false (by rw [hv]; decide) ?_
      rintro ⟨w, n, hw, hn, hd⟩
      rw [cccdBehind_of_refused hnone hw hn] at hd
      cases hd
  constructor
  · intro hp
    refine ⟨fun w n hw hn hd => ?_, fun hpair => hconnected.mp (hp.complete hpair)⟩
    obtain ⟨v, x, hx, y, hy, hxw, hyn, hwx, hny⟩ := hp.variant (hconnected.mpr ⟨w, n, hw, hn, hd⟩)
    obtain ⟨hwh, hnh⟩ := hhandles hw hn
    obtain ⟨hwmem, hnmem⟩ := hmem hw hn
    rw [hwh] at hwx
    rw [hnh] at hny
    rw [chr_eq_of_valHandle hwmem hx hwx, chr_eq_of_valHandle hnmem hy hny]
    exact ⟨v, hxw, hyn⟩
  · intro hs
    refine ⟨fun hv => ?_, fun hpair => hconnected.mpr (hs.found hpair)⟩
    obtain ⟨w, n, hw, hn, hd⟩ := hconnected.mp hv
    obtain ⟨v, hxw, hyn⟩ := hs.unmixed w n hw hn hd
    obtain ⟨hwh, hnh⟩ := hhandles hw hn
    obtain ⟨hwmem, hnmem⟩ := hmem hw hn
    exact ⟨v, w.2, hwmem, n.2, hnmem, hxw, hyn, hwh, hnh⟩

/-! ## Sample tables -/

instance (s : TableSvc) : Decidable s.WellFormed :=
  decidable_of_iff (0 < s.startHandle ∧
      (∀ a ∈ s.attrs, s.startHandle ≤ a.handle ∧ a.handle ≤ s.endHandle) ∧
      s.attrs.Pairwise fun a b => a.handle < b.handle)
    ⟨fun h => ⟨h.1, h.2.1, h.2.2⟩, fun h => ⟨h.pos, h.range, h.sorted⟩⟩

instance (s s' : TableSvc) : Decidable (s.Apart s') := by
  unfold TableSvc.Apart
  infer_instance

namespace Sample

/-- A service with these characteristics, each with a CCCD or without, from a handle on. -/
def service (start : UInt16) (uuids : List (BleUuid × Bool)) : TableSvc where
  startHandle := start
  endHandle := start + 9
  head := [⟨start, .u16 0x2800⟩]
  chrs := uuids.mapIdx fun i u =>
    let handle := start + 3 * UInt16.ofNat i + 1
    ⟨handle, handle + 1, u.1, if u.2 then [⟨handle + 2, cccdUuid⟩] else []⟩

/-- The Nordic UART pair. -/
def nusTable : GattTable where
  services := [service 1 [(nusWriteUuid, false), (nusNotifyUuid, true)]]
  wellFormed := by decide +kernel
  apart := by decide +kernel

/-- The Nordic UART pair behind a service with the rfcomm-style write characteristic alone. -/
def mixedTable : GattTable where
  services := [service 1 [(rfcommWriteUuid16, false)],
    service 11 [(nusWriteUuid, false), (nusNotifyUuid, true)]]
  wellFormed := by decide +kernel
  apart := by decide +kernel

/-- The attempt on a table; descriptor discovery goes first. -/
def tableAttempt (t : GattTable) : Attempt :=
  (Attempt.begin client 0 7).play t.serve (List.replicate 24 0)

theorem runs_tableAttempt (t : GattTable) :
    Attempt.Runs (tableServer t) (.begin client 0 7) (tableAttempt t) :=
  runs_play (tableServer_serve t) _ _

end Sample

/-- A table with one pair. -/
theorem pair_selected_iff_sample :
    PairSelected Sample.nusTable (Sample.tableAttempt Sample.nusTable) ↔
      Selectable Sample.nusTable :=
  pair_selected_iff (Sample.runs_tableAttempt Sample.nusTable) (by decide +kernel)
    (by decide +kernel)

/-- The client connects on the write characteristic of one variant and the notify characteristic of
the other, beside a complete pair. -/
theorem pair_mixed :
    let a := Sample.tableAttempt Sample.mixedTable
    Attempt.Runs (tableServer Sample.mixedTable) (.begin Sample.client 0 7) a ∧ a.jobs = [] ∧
    verdicts a.log = [evtConnected] ∧
    a.client.writeHandle = 3 ∧ a.client.notifyHandle = 16 ∧
    Sample.mixedTable.chrs.map (fun c => (c.valHandle, c.uuid)) =
      [(3, rfcommWriteUuid16), (13, nusWriteUuid), (16, nusNotifyUuid)] := by
  intro a
  exact ⟨Sample.runs_tableAttempt Sample.mixedTable, by decide +kernel⟩

end River2
