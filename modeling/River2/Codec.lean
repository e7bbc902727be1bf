import River2.Extraction

/-!
# The inner packet codec is exact

1. `InnerFormat` is what `river2_inner_parse` accepts, read off the bytes alone;
   `innerParse_eq_some_iff` compares the code with it.
2. An accepted string is the one built from its fields around its own bytes `[5:12)`
   (`eq_innerAround`), so building reproduces it exactly when these are the builder's.
-/

namespace River2

/-! ## What the parser accepts -/

/-- The format of an inner packet. -/
structure InnerFormat (d : Bytes) : Prop where
  length : d.length = 18 + (rdU16le d 2).toNat
  magic : d.getD 0 0 = 0xAA
  version : d.getD 1 0 = 0x02
  headCrc : d.getD 4 0 = crc8 (d.take 4)
  crc : d.drop (d.length - 2) = wrU16le (crc16 (d.take (d.length - 2)))

/-- The fields of an inner packet, read off its bytes. -/
def innerFields (d : Bytes) : InnerPacket :=
  ⟨d.getD 12 0, d.getD 13 0, d.getD 14 0, d.getD 15 0, slice d 16 (rdU16le d 2).toNat⟩

theorem drop_eq_wrU16le_iff {d : Bytes} {v : UInt16} (h : 2 ≤ d.length) :
    d.drop (d.length - 2) = wrU16le v ↔ rdU16le d (d.length - 2) = v := by
  have hword : rdU16le d (d.length - 2) = rdU16le (d.drop (d.length - 2)) 0 := by
    rw [rdU16le_drop, Nat.add_zero]
  have htwo : (d.drop (d.length - 2)).length = 2 := by
    rw [List.length_drop]
    omega
  rw [hword]
  obtain ⟨x, y, hxy⟩ := List.length_eq_two.mp htwo
  rw [hxy]
  constructor
  · intro hv
    rw [hv]
    exact rdU16le_trailer [] v
  · intro hv
    rw [← hv, wrU16le_rdU16le]
    rfl

theorem innerParse_eq_some_iff {d : Bytes} {p : InnerPacket} :
    innerParse d = some p ↔ InnerFormat d ∧ innerFields d = p := by
  unfold innerParse innerFields
  dsimp only
  constructor
  · intro h
    split_ifs at h with hhead hlen hcrc8 hcrc
    obtain ⟨hmin, hmagic, hversion⟩ :
        innerOverhead ≤ d.length ∧ d.getD 0 0 = innerPrefix ∧ d.getD 1 0 = innerVersion := by
      simpa only [not_or, not_lt, not_not] using hhead
    have hmin' : 18 ≤ d.length := hmin
    rw [not_not] at hlen hcrc8 hcrc
    refine ⟨⟨hlen, hmagic, hversion, hcrc8.symm, ?_⟩, Option.some.inj h⟩
    exact (drop_eq_wrU16le_iff (by omega)).mpr hcrc
  · rintro ⟨⟨hlen, hmagic, hversion, hcrc8, hcrc⟩, hp⟩
    have hcrc' := (drop_eq_wrU16le_iff (by omega)).mp hcrc
    have hhead : ¬ (d.length < innerOverhead ∨ d.getD 0 0 ≠ innerPrefix ∨
        d.getD 1 0 ≠ innerVersion) := by
      rintro (h | h | h)
      · exact absurd hlen (by unfold innerOverhead innerHeaderLen at h; omega)
      · exact h hmagic
      · exact h hversion
    rw [if_neg hhead, if_neg (fun h => h hlen), if_neg (fun h => h hcrc8.symm),
      if_neg (fun h => h hcrc')]
    exact congrArg some hp

/-! ## Building what was parsed -/

/-- The packet with the given fields and the given bytes `[5:12)`. -/
def innerAround (mid : Bytes) (p : InnerPacket) : Bytes :=
  let body := innerHead p.payload.length ++ [crc8 (innerHead p.payload.length)] ++ mid ++
    [p.src, p.dst, p.cmdSet, p.cmdId] ++ p.payload
  body ++ wrU16le (crc16 body)

theorem innerBytes_eq_around (p : InnerPacket) :
    innerBytes p.src p.dst p.cmdSet p.cmdId p.payload =
      innerAround [0x0D, 0, 0, 0, 0, 0, 0] p := by
  unfold innerBytes innerAround innerHeader
  simp only [List.append_assoc]
  rfl

theorem slice_succ {d : Bytes} {i n : ℕ} (h : i < d.length) :
    slice d i (n + 1) = d.getD i 0 :: slice d (i + 1) n := by
  unfold slice
  rw [List.drop_eq_getElem_cons h, List.take_succ_cons, List.getD_eq_getElem _ _ h]

theorem slice_zero (d : Bytes) (i : ℕ) : slice d i 0 = [] := List.take_zero

theorem slice_append_drop (d : Bytes) (i n : ℕ) : slice d i n ++ d.drop (i + n) = d.drop i := by
  unfold slice
  rw [← List.drop_drop, List.take_append_drop]

/-- An accepted string is the packet with its fields around its own middle bytes. -/
theorem eq_innerAround {d : Bytes} (h : InnerFormat d) :
    d = innerAround (slice d 5 7) (innerFields d) := by
  have hlen := h.length
  have hpay : (innerFields d).payload.length = (rdU16le d 2).toNat := slice_length (by omega)
  have hhead : d.take 4 = innerHead (rdU16le d 2).toNat := by
    show d.take 4 = [innerPrefix, innerVersion] ++ wrU16le (UInt16.ofNat (rdU16le d 2).toNat)
    rw [UInt16.ofNat_toNat, wrU16le_rdU16le, show d.take 4 = slice d 0 4 from rfl,
      slice_succ (by omega), slice_succ (by omega), slice_succ (by omega), slice_succ (by omega),
      slice_zero, h.magic, h.version]
    rfl
  have hcrc8 : [d.getD 4 0] = [crc8 (innerHead (rdU16le d 2).toNat)] := by rw [h.headCrc, hhead]
  have haddr : slice d 12 4 = [d.getD 12 0, d.getD 13 0, d.getD 14 0, d.getD 15 0] := by
    rw [slice_succ (by omega), slice_succ (by omega), slice_succ (by omega), slice_succ (by omega),
      slice_zero]
  have hfour : slice d 4 1 = [d.getD 4 0] := by rw [slice_succ (by omega), slice_zero]
  have hbody : d.take (d.length - 2) =
      innerHead (rdU16le d 2).toNat ++ [crc8 (innerHead (rdU16le d 2).toNat)] ++ slice d 5 7 ++
        [d.getD 12 0, d.getD 13 0, d.getD 14 0, d.getD 15 0] ++ slice d 16 (rdU16le d 2).toNat := by
    have hall : d.take 4 ++ slice d 4 1 ++ slice d 5 7 ++ slice d 12 4 ++
        slice d 16 (rdU16le d 2).toNat ++ d.drop (d.length - 2) = d := by
      rw [show d.length - 2 = 16 + (rdU16le d 2).toNat by omega]
      simp only [List.append_assoc]
      rw [slice_append_drop, slice_append_drop d 12 4, slice_append_drop d 5 7,
        slice_append_drop d 4 1, List.take_append_drop]
    have hcut := List.append_cancel_right (hall.trans (List.take_append_drop (d.length - 2) d).symm)
    rw [← hcut, hhead, hfour, hcrc8, haddr]
  unfold innerAround
  dsimp only
  rw [hpay]
  show d = _ ++ [d.getD 12 0, d.getD 13 0, d.getD 14 0, d.getD 15 0] ++
    slice d 16 (rdU16le d 2).toNat ++ _
  rw [show (innerFields d).src = d.getD 12 0 from rfl,
    show (innerFields d).dst = d.getD 13 0 from rfl,
    show (innerFields d).cmdSet = d.getD 14 0 from rfl,
    show (innerFields d).cmdId = d.getD 15 0 from rfl,
    show (innerFields d).payload = slice d 16 (rdU16le d 2).toNat from rfl, ← hbody, ← h.crc,
    List.take_append_drop]

theorem innerAround_mid {mid : Bytes} (hmid : mid.length = 7) (p : InnerPacket) :
    slice (innerAround mid p) 5 7 = mid := by
  unfold innerAround
  dsimp only
  generalize crc16 _ = c
  rw [List.append_assoc, List.append_assoc, ← hmid]
  exact slice_append_right (innerHead p.payload.length ++ [crc8 (innerHead p.payload.length)]) mid _

/-- **The codec is exact.** Parsing inverts building; the parser accepts exactly the format; and an
accepted string is determined by its fields and its bytes `[5:12)`, so building from its fields
gives it back exactly when these are the builder's. -/
theorem inner_codec_exact :
    (∀ (src dst cmdSet cmdId : UInt8) (payload : Bytes) (outCap : ℕ), payload.length ≤ 65535 →
      18 + payload.length ≤ outCap →
      (innerBuild src dst cmdSet cmdId payload outCap).bind innerParse =
        some ⟨src, dst, cmdSet, cmdId, payload⟩) ∧
    (∀ d, (innerParse d).isSome ↔ InnerFormat d) ∧
    (∀ d p outCap, innerParse d = some p → d.length ≤ outCap →
      (innerBuild p.src p.dst p.cmdSet p.cmdId p.payload outCap = some d ↔
        slice d 5 7 = [0x0D, 0, 0, 0, 0, 0, 0])) ∧
    (∀ d d' p, innerParse d = some p → innerParse d' = some p → slice d 5 7 = slice d' 5 7 →
      d = d') := by
  refine ⟨?_, ?_, ?_, ?_⟩
  · intro src dst cmdSet cmdId payload outCap hlen hcap
    have hfit : sizeT (innerOverhead + payload.length) ≤ outCap := (Nat.mod_le _ _).trans hcap
    rw [innerBuild_eq_some hfit]
    exact innerParse_built (by omega)
  · intro d
    rw [Option.isSome_iff_exists]
    constructor
    · rintro ⟨p, hp⟩
      exact (innerParse_eq_some_iff.mp hp).1
    · intro h
      exact ⟨_, innerParse_eq_some_iff.mpr ⟨h, rfl⟩⟩
  · intro d p outCap hp hcap
    obtain ⟨hd, rfl⟩ := innerParse_eq_some_iff.mp hp
    have hlen := hd.length
    have hpay : (innerFields d).payload.length = (rdU16le d 2).toNat := slice_length (by omega)
    have hfit : sizeT (innerOverhead + (innerFields d).payload.length) ≤ outCap :=
      (Nat.mod_le _ _).trans (by unfold innerOverhead innerHeaderLen; omega)
    rw [innerBuild_eq_some hfit, innerBytes_eq_around, Option.some_inj]
    constructor
    · intro h
      rw [← h]
      exact innerAround_mid rfl _
    · intro h
      rw [← h, ← eq_innerAround hd]
  · intro d d' p hp hp' hmid
    obtain ⟨hd, rfl⟩ := innerParse_eq_some_iff.mp hp
    obtain ⟨hd', hfields⟩ := innerParse_eq_some_iff.mp hp'
    rw [eq_innerAround hd, eq_innerAround hd', hmid, hfields]

end River2
