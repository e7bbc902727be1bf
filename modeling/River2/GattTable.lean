import River2.BleClient

/-!
# GATT tables

1. `GattTable`: services with disjoint ranges of handles, characteristics in them, descriptors
   behind those. `tableServer` serves the procedures from a table: every discovery is started, and
   reports what lies in its range in the order of the handles; a write may fail.
2. `offered` are the characteristics of the first `MAX_SERVICES` services; `writeChr` and
   `notifyChr` are the first ones that match, and `attrsBehind` is what descriptor discovery
   reports.
3. `chrReports_svc`, `dscReports_behind`: the ranges the client asks for give just those.
   `attrsBehind_eq`: behind a characteristic come its descriptors, then the later characteristics.
-/

namespace River2

/-! ## Tables -/

/-- A characteristic: its declaration, its value and the descriptors behind. -/
structure TableChr where
  defHandle : UInt16
  valHandle : UInt16
  uuid : BleUuid
  dscs : List GattDsc
  deriving DecidableEq

/-- The attributes of a characteristic; `0x2803` is the type of a declaration. -/
def TableChr.attrs (c : TableChr) : List GattDsc :=
  ⟨c.defHandle, .u16 0x2803⟩ :: ⟨c.valHandle, c.uuid⟩ :: c.dscs

/-- A service: the attributes before its first characteristic, and the characteristics. -/
structure TableSvc where
  startHandle : UInt16
  endHandle : UInt16
  head : List GattDsc
  chrs : List TableChr
  deriving DecidableEq

def TableSvc.attrs (s : TableSvc) : List GattDsc := s.head ++ s.chrs.flatMap TableChr.attrs

/-- Handles ascend, from above 0 on, and lie in the range of the service. -/
structure TableSvc.WellFormed (s : TableSvc) : Prop where
  pos : 0 < s.startHandle
  range : ∀ a ∈ s.attrs, s.startHandle ≤ a.handle ∧ a.handle ≤ s.endHandle
  sorted : s.attrs.Pairwise fun a b => a.handle < b.handle

/-- The ranges of two services have no handle in common. -/
def TableSvc.Apart (s s' : TableSvc) : Prop :=
  s.endHandle < s'.startHandle ∨ s'.endHandle < s.startHandle

/-- The GATT table of a device, its services in any order. -/
structure GattTable where
  services : List TableSvc
  wellFormed : ∀ s ∈ services, s.WellFormed
  apart : services.Pairwise TableSvc.Apart

def TableSvc.report (s : TableSvc) : GattSvc := ⟨s.startHandle, s.endHandle⟩

def TableChr.report (c : TableChr) : GattChr := ⟨c.valHandle, c.uuid⟩

/-- The characteristics declared in a range of handles. -/
def GattTable.chrReports (t : GattTable) (lo hi : UInt16) : List GattChr :=
  ((t.services.flatMap TableSvc.chrs).filter fun c => lo ≤ c.defHandle ∧ c.defHandle ≤ hi).map
    TableChr.report

/-- The attributes in a range of handles, without its start. -/
def GattTable.dscReports (t : GattTable) (lo hi : UInt16) : List GattDsc :=
  (t.services.flatMap TableSvc.attrs).filter fun a => lo < a.handle ∧ a.handle ≤ hi

/-- The procedure a call starts, when all goes well. -/
def GattTable.job (t : GattTable) : GattcCall → BleJob
  | .discAllSvcs _ => .svcs (t.services.map TableSvc.report) hsEdone
  | .discAllChrs _ lo hi => .chrs (t.chrReports lo hi) hsEdone
  | .discAllDscs conn lo hi => .dscs conn (t.dscReports lo hi) hsEdone
  | .writeFlat _ _ _ => .write 0

/-- Discovery goes well, and a write as it may. -/
def tableServer (t : GattTable) : BleServer
  | .writeFlat conn handle data, outcome => anyServer (.writeFlat conn handle data) outcome
  | call, outcome => outcome = some (t.job call)

/-! ## What the client finds in a table -/

/-- The characteristics of a service, with the service. -/
def TableSvc.offers (s : TableSvc) : List (TableSvc × TableChr) := s.chrs.map (s, ·)

/-- The services the client records. -/
def GattTable.recorded (t : GattTable) : List TableSvc := t.services.take maxServices

/-- The characteristics of the recorded services. -/
def GattTable.offered (t : GattTable) : List (TableSvc × TableChr) :=
  t.recorded.flatMap TableSvc.offers

def isWriteChr (x : TableSvc × TableChr) : Bool := decide (isWriteUuid x.2.uuid)

def isNotifyChr (x : TableSvc × TableChr) : Bool := decide (isNotifyUuid x.2.uuid)

/-- The first write characteristic offered. -/
def GattTable.writeChr (t : GattTable) : Option (TableSvc × TableChr) := t.offered.find? isWriteChr

/-- The first notify characteristic offered. -/
def GattTable.notifyChr (t : GattTable) : Option (TableSvc × TableChr) :=
  t.offered.find? isNotifyChr

def isCccd (d : GattDsc) : Bool := decide (d.uuid = cccdUuid)

/-- The attributes behind a characteristic's value, up to the end of its service. -/
def attrsBehind (x : TableSvc × TableChr) : List GattDsc :=
  x.1.attrs.filter fun a => x.2.valHandle < a.handle

/-- The first CCCD behind a characteristic, its own or one of a later characteristic. -/
def cccdBehind (x : TableSvc × TableChr) : Option GattDsc := (attrsBehind x).find? isCccd

section Table

variable {t : GattTable} {s : TableSvc} {c : TableChr}

/-- What lies in the range of a service belongs to the service. -/
theorem filter_flatMap_svc {β : Type} {f : TableSvc → List β} {p : β → Bool} (key : β → UInt16)
    (hs : s ∈ t.services)
    (hkey : ∀ s' ∈ t.services, ∀ b ∈ f s', s'.startHandle ≤ key b ∧ key b ≤ s'.endHandle)
    (hp : ∀ b, p b = true → s.startHandle ≤ key b ∧ key b ≤ s.endHandle) :
    (t.services.flatMap f).filter p = (f s).filter p := by
  obtain ⟨l₁, l₂, heq⟩ := List.append_of_mem hs
  have hapart := t.apart
  rw [heq] at hapart hkey ⊢
  have hother : ∀ s' ∈ l₁ ++ l₂, (f s').filter p = [] := by
    intro s' hs'
    have hap : s'.Apart s ∨ s.Apart s' := by
      rw [List.pairwise_append, List.pairwise_cons] at hapart
      rcases List.mem_append.mp hs' with hs' | hs'
      · exact .inl (hapart.2.2 s' hs' s (List.mem_cons_self ..))
      · exact .inr (hapart.2.1.1 s' hs')
    refine List.filter_eq_nil_iff.mpr fun b hb hpb => ?_
    have hin := hkey s' (by grind) b hb
    have hin' := hp b hpb
    unfold TableSvc.Apart at hap
    grind
  rw [List.flatMap_append, List.flatMap_cons, List.filter_append, List.filter_append]
  have hnil : ∀ l : List TableSvc, (∀ s' ∈ l, s' ∈ l₁ ++ l₂) → (l.flatMap f).filter p = [] := by
    intro l hl
    rw [List.filter_flatMap]
    exact List.flatMap_eq_nil_iff.mpr fun s' hs' => hother s' (hl s' hs')
  rw [hnil l₁ fun s' h => List.mem_append_left _ h, hnil l₂ fun s' h => List.mem_append_right _ h,
    List.nil_append, List.append_nil]

theorem mem_attrs_of_chr {a : GattDsc} (hc : c ∈ s.chrs) (ha : a ∈ c.attrs) : a ∈ s.attrs :=
  List.mem_append_right _ (List.mem_flatMap.mpr ⟨c, hc, ha⟩)

theorem range_defHandle (hs : s ∈ t.services) (hc : c ∈ s.chrs) :
    s.startHandle ≤ c.defHandle ∧ c.defHandle ≤ s.endHandle :=
  (t.wellFormed s hs).range ⟨c.defHandle, .u16 0x2803⟩
    (mem_attrs_of_chr hc (List.mem_cons_self ..))

theorem range_valHandle (hs : s ∈ t.services) (hc : c ∈ s.chrs) :
    s.startHandle ≤ c.valHandle ∧ c.valHandle ≤ s.endHandle :=
  (t.wellFormed s hs).range ⟨c.valHandle, c.uuid⟩
    (mem_attrs_of_chr hc (List.mem_cons_of_mem _ (List.mem_cons_self ..)))

theorem valHandle_ne_zero (hs : s ∈ t.services) (hc : c ∈ s.chrs) : c.valHandle ≠ 0 := by
  have hpos := (t.wellFormed s hs).pos
  have hrange := (range_valHandle hs hc).1
  grind

theorem chrReports_svc (hs : s ∈ t.services) :
    t.chrReports s.startHandle s.endHandle = s.chrs.map TableChr.report := by
  unfold GattTable.chrReports
  rw [filter_flatMap_svc TableChr.defHandle hs (fun s' hs' c hc => range_defHandle hs' hc)
    (fun c hc => of_decide_eq_true hc)]
  congr 1
  exact List.filter_eq_self.mpr fun c hc => decide_eq_true (range_defHandle hs hc)

theorem dscReports_behind (hs : s ∈ t.services) (hc : c ∈ s.chrs) :
    t.dscReports c.valHandle s.endHandle = attrsBehind (s, c) := by
  unfold GattTable.dscReports attrsBehind
  have hlo := (range_valHandle hs hc).1
  rw [filter_flatMap_svc GattDsc.handle hs (fun s' hs' => (t.wellFormed s' hs').range)
    (fun a ha => ?_)]
  · refine List.filter_congr fun a ha => ?_
    have := ((t.wellFormed s hs).range a ha).2
    simp [this]
  · have := of_decide_eq_true ha
    grind

/-- Behind a characteristic come its own descriptors first. -/
theorem attrsBehind_eq {pre post : List TableChr} (hs : s ∈ t.services)
    (hchrs : s.chrs = pre ++ c :: post) :
    attrsBehind (s, c) = c.dscs ++ post.flatMap TableChr.attrs := by
  have hsorted := (t.wellFormed s hs).sorted
  have hsplit : s.attrs = (s.head ++ pre.flatMap TableChr.attrs ++
      [⟨c.defHandle, .u16 0x2803⟩, ⟨c.valHandle, c.uuid⟩]) ++
      (c.dscs ++ post.flatMap TableChr.attrs) := by
    unfold TableSvc.attrs
    rw [hchrs, List.flatMap_append, List.flatMap_cons]
    simp [TableChr.attrs]
  unfold attrsBehind
  rw [hsplit] at hsorted ⊢
  obtain ⟨hbefore, -, hcross⟩ := List.pairwise_append.mp hsorted
  have hle : ∀ a ∈ s.head ++ pre.flatMap TableChr.attrs ++
      [⟨c.defHandle, .u16 0x2803⟩, ⟨c.valHandle, c.uuid⟩], a.handle ≤ c.valHandle := by
    intro a ha
    obtain ⟨-, hlast, hcross'⟩ := List.pairwise_append.mp hbefore
    rcases List.mem_append.mp ha with ha | ha
    · exact UInt16.le_of_lt (hcross' a ha ⟨c.valHandle, c.uuid⟩ (by simp))
    · rw [List.mem_pair] at ha
      rcases ha with rfl | rfl
      · have hlt := (List.pairwise_cons.mp hlast).1 _ (List.mem_singleton_self _)
        exact UInt16.le_of_lt hlt
      · exact UInt16.le_refl _
  rw [List.filter_append, List.filter_eq_nil_iff.mpr, List.filter_eq_self.mpr, List.nil_append]
  · intro a ha
    exact decide_eq_true (hcross ⟨c.valHandle, c.uuid⟩ (by simp) a ha)
  · intro a ha hlt
    have := hle a ha
    have := of_decide_eq_true hlt
    grind

def GattTable.chrs (t : GattTable) : List TableChr := t.services.flatMap TableSvc.chrs

theorem chrs_nodup (t : GattTable) : (t.chrs.map TableChr.valHandle).Nodup := by
  unfold GattTable.chrs
  rw [List.Nodup, List.pairwise_map, List.pairwise_flatMap]
  refine ⟨fun s hs => ?_, ?_⟩
  · have hsorted := (t.wellFormed s hs).sorted
    have hchrs := (List.pairwise_flatMap.mp (List.pairwise_append.mp hsorted).2.1).2
    refine hchrs.imp ?_
    intro c c' h heq
    have hlt := h ⟨c.valHandle, c.uuid⟩ (by simp [TableChr.attrs]) ⟨c'.valHandle, c'.uuid⟩
      (by simp [TableChr.attrs])
    exact absurd heq (UInt16.ne_of_lt hlt)
  · refine t.apart.imp_of_mem ?_
    intro s s' hs hs' hap c hc c' hc' heq
    have hrange := range_valHandle hs hc
    have hrange' := range_valHandle hs' hc'
    unfold TableSvc.Apart at hap
    grind

theorem chr_eq_of_valHandle {x y : TableChr} (hx : x ∈ t.chrs) (hy : y ∈ t.chrs)
    (h : x.valHandle = y.valHandle) : x = y :=
  List.inj_on_of_nodup_map (chrs_nodup t) hx hy h

end Table

end River2
