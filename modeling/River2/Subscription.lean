import River2.PairSelection

/-!
# The subscription

Descriptor discovery runs from the value of the notify characteristic to the end of its service, so
that it also reports the descriptors of the later characteristics there.

1. `OwnSubscription`: the CCCD written is one of the selected characteristic, and without one the
   attempt fails. `OwnOrNone` says of the table when that is so.
2. `own_subscription_iff`: the one holds if and only if the other does.
-/

namespace River2

variable (t : GattTable)

/-- A descriptor of a characteristic is a CCCD. -/
def TableChr.HasCccd (c : TableChr) : Prop := ∃ d ∈ c.dscs, d.uuid = cccdUuid

/-- What is written is 01 00, to a CCCD of the characteristic with the notify handle, behind its
value and before the next declaration of the service; and if it has none, nothing is and the attempt
fails. -/
structure OwnSubscription (a : Attempt) : Prop where
  own : ∀ h data, (h, data) ∈ subscriptions a.log → data = [0x01, 0x00] ∧
    ∃ s ∈ t.services, ∃ pre y post, s.chrs = pre ++ y :: post ∧
      y.valHandle = a.client.notifyHandle ∧ y.valHandle < h ∧ (∀ c ∈ post, h < c.defHandle) ∧
      ∃ d ∈ y.dscs, d.uuid = cccdUuid ∧ d.handle = h
  lacking : ∀ y ∈ t.chrs, y.valHandle = a.client.notifyHandle → ¬ y.HasCccd →
    subscriptions a.log = [] ∧ verdicts a.log = [evtConnectError]

/-- If there is a write characteristic, the notify characteristic has a CCCD of its own, or none
comes behind it in its service. -/
def OwnOrNone : Prop :=
  ∀ w n, t.writeChr = some w → t.notifyChr = some n → n.2.HasCccd ∨ cccdBehind n = none

variable {t}

theorem own_between {s : TableSvc} {c : TableChr} {pre post : List TableChr} {d : GattDsc}
    (hs : s ∈ t.services) (hchrs : s.chrs = pre ++ c :: post) (hd : d ∈ c.dscs) :
    c.valHandle < d.handle ∧ ∀ c' ∈ post, d.handle < c'.defHandle := by
  have hsorted := (t.wellFormed s hs).sorted
  have hattrs := (List.pairwise_append.mp hsorted).2.1
  rw [hchrs, List.flatMap_append, List.flatMap_cons] at hattrs
  obtain ⟨hown, -, hcross⟩ := List.pairwise_append.mp (List.pairwise_append.mp hattrs).2.1
  constructor
  · exact (List.pairwise_cons.mp (List.pairwise_cons.mp hown).2).1 d hd
  · intro c' hc'
    have hin : d ∈ c.attrs := List.mem_cons_of_mem _ (List.mem_cons_of_mem _ hd)
    exact hcross d hin ⟨c'.defHandle, .u16 0x2803⟩
      (List.mem_flatMap.mpr ⟨c', hc', List.mem_cons_self ..⟩)

theorem own_of_cccdBehind {n : TableSvc × TableChr} {d : GattDsc} (hs : n.1 ∈ t.services)
    (hc : n.2 ∈ n.1.chrs) (hown : n.2.HasCccd) (hd : cccdBehind n = some d) : d ∈ n.2.dscs := by
  obtain ⟨d₀, hd₀, hu₀⟩ := hown
  obtain ⟨pre, post, hchrs⟩ := List.append_of_mem hc
  have hsome : (n.2.dscs.find? isCccd).isSome = true :=
    List.find?_isSome.mpr ⟨d₀, hd₀, decide_eq_true hu₀⟩
  obtain ⟨d₁, hd₁⟩ := Option.isSome_iff_exists.mp hsome
  unfold cccdBehind at hd
  rw [show attrsBehind n = _ from attrsBehind_eq hs hchrs, List.find?_append, hd₁,
    Option.some_or] at hd
  cases hd
  exact List.mem_of_find?_eq_some hd₁

/-- **The subscription, exactly.** For every table, whatever the order of the callbacks and however
the write ends: when the attempt is over, it has subscribed to the selected characteristic or
failed, if and only if that one has a CCCD of its own or none comes behind it. -/
theorem own_subscription_iff {s : BleClient} {conn : UInt16} {a : Attempt}
    (hrun : Attempt.Runs (tableServer t) (.begin s 0 conn) a) (hend : a.jobs = []) :
    OwnSubscription t a ↔ OwnOrNone t := by
  obtain ⟨hsel, hover⟩ := table_attempt hrun hend
  have hnotify : ∀ {n}, t.notifyChr = some n → a.client.notifyHandle = n.2.valHandle := fun hn =>
    hsel.notify.trans (congrArg handleOf hn)
  constructor
  · intro hown w n hw hn
    by_contra hnot
    obtain ⟨hlacks, hbehind⟩ := not_or.mp hnot
    have hmem := mem_chrs_of_offered (List.mem_of_find?_eq_some hn)
    obtain ⟨hsubs, -⟩ := hown.lacking n.2 hmem (hnotify hn).symm hlacks
    rcases hover with ⟨w', n', d, -, -, -, hsubs', -⟩ | ⟨hnone, -, -⟩
    · rw [hsubs] at hsubs'
      cases hsubs'
    · exact hbehind (cccdBehind_of_refused hnone hw hn)
  · intro hcond
    rcases hover with ⟨w, n, d, hw, hn, hd, hsubs, -⟩ | ⟨-, hsubs, hv⟩
    · have hoffered := List.mem_of_find?_eq_some hn
      have hhas : n.2.HasCccd := (hcond w n hw hn).resolve_right (by rw [hd]; exact nofun)
      have hin := own_of_cccdBehind (mem_offered hoffered).1 (mem_offered hoffered).2 hhas hd
      have hcccd : isCccd d = true :=
        List.find?_some (show (attrsBehind n).find? isCccd = some d from hd)
      obtain ⟨pre, post, hchrs⟩ := List.append_of_mem (mem_offered hoffered).2
      obtain ⟨hlt, hnext⟩ := own_between (mem_offered hoffered).1 hchrs hin
      refine ⟨fun h data hh => ?_, fun y hy hyn hlacks => ?_⟩
      · rw [hsubs, List.mem_singleton] at hh
        cases hh
        exact ⟨rfl, n.1, (mem_offered hoffered).1, pre, n.2, post, hchrs, (hnotify hn).symm, hlt,
          hnext, d, hin, of_decide_eq_true hcccd, rfl⟩
      · have heq : y = n.2 :=
          chr_eq_of_valHandle hy (mem_chrs_of_offered hoffered) (hyn.trans (hnotify hn))
        rw [heq] at hlacks
        exact absurd hhas hlacks
    · refine ⟨fun h data hh => ?_, fun _ _ _ _ => ⟨hsubs, hv⟩⟩
      rw [hsubs] at hh
      exact absurd hh List.not_mem_nil

/-! ## Sample tables -/

/-- The rfcomm-style pair without a CCCD, and behind it a characteristic (battery level) with
one. -/
def Sample.lackingTable : GattTable where
  services := [Sample.service 1 [(rfcommWriteUuid16, false), (rfcommNotifyUuid16, false),
    (.u16 0x2A19, true)]]
  wellFormed := by decide +kernel
  apart := by decide +kernel

/-- A table with one pair. -/
theorem own_subscription_iff_sample :
    OwnSubscription Sample.nusTable (Sample.tableAttempt Sample.nusTable) ↔
      OwnOrNone Sample.nusTable :=
  own_subscription_iff (Sample.runs_tableAttempt Sample.nusTable) (by decide +kernel)

/-- The notify characteristic (value handle 6) has no CCCD: the one of the next characteristic
(value handle 9) is written, and the attempt succeeds. -/
theorem foreign_subscription :
    let a := Sample.tableAttempt Sample.lackingTable
    Attempt.Runs (tableServer Sample.lackingTable) (.begin Sample.client 0 7) a ∧ a.jobs = [] ∧
    a.client.notifyHandle = 6 ∧ subscriptions a.log = [(10, [0x01, 0x00])] ∧
    verdicts a.log = [evtConnected] ∧
    Sample.lackingTable.chrs.map (fun c => (c.valHandle, c.dscs.map GattDsc.handle)) =
      [(3, []), (6, []), (9, [10])] := by
  intro a
  exact ⟨Sample.runs_tableAttempt Sample.lackingTable, by decide +kernel⟩

end River2
