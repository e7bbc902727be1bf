import River2.Resync

/-!
# What is left in a buffer

When a reassembly buffer is given up, the bytes left in it are missing from the stream.
`clean_iff`: exactly the buffers that are `Clean` are not missed by any continuation of the stream.
-/

namespace River2

/-- A frame that lacks only its last byte, and whose first CRC byte is not that of the bytes before
it. -/
structure SpoiltFrame (r : Bytes) : Prop where
  head : ∃ rest, r = 0x5A :: 0x5A :: rest
  field : 2 ≤ (rdU16le r 4).toNat ∧ (rdU16le r 4).toNat ≤ 4096
  length_eq : r.length = 5 + (rdU16le r 4).toNat
  wrong : r.getD (4 + (rdU16le r 4).toNat) 0 ≠
    ((crc16 (r.take (4 + (rdU16le r 4).toNat))) &&& 0xFF).toUInt8

/-- A buffer without which every stream reads the same: it holds no frame, and what remains of it is
nothing, a byte that starts no prefix, or a frame that is already spoilt, with the same true of the
bytes behind its prefix. -/
inductive Clean : Bytes → Prop where
  | nothing {b} (h : frameScanner.drain b = ([], [])) : Clean b
  | byte {b x} (h : frameScanner.drain b = ([], [x])) (hx : x ≠ 0x5A) : Clean b
  | spoilt {b r} (h : frameScanner.drain b = ([], r)) (hr : SpoiltFrame r)
      (hrest : Clean (r.drop 2)) : Clean b

/-! ## Clean buffers are not missed -/

theorem frameLook_paired (rest : Bytes) :
    frameLook (0x5A :: 0x5A :: rest) = headLook (0x5A :: 0x5A :: rest) := by
  rw [frameLook_some (findPrefix_head rest), List.drop_zero, Verdict.shift_zero]

theorem framesOf_append_of_drain {b r : Bytes} (h : frameScanner.drain b = ([], r)) (t : Bytes) :
    framesOf (b ++ t) = framesOf (r ++ t) := by
  unfold framesOf Scanner.items
  rw [frameScanner.drain_append, h]
  rfl

theorem framesOf_cons_of_ne {x : UInt8} (hx : x ≠ 0x5A) (t : Bytes) :
    framesOf (x :: t) = framesOf t := by
  unfold framesOf Scanner.items
  cases t with
  | nil =>
    have h : frameScanner.drain [x] = ([], [x]) := frameScanner.drain_wait (b := [x]) (n := 0) rfl
    rw [h, drain_nil]
  | cons y t => rw [drain_cons_of_not_pair fun h => hx h.1]

/-- The last byte of a spoilt frame, whatever it is, completes it to a bad one. -/
theorem headLook_spoilt {r : Bytes} (hr : SpoiltFrame r) (y : UInt8) (t : Bytes) :
    headLook (r ++ y :: t) = .skip 2 := by
  obtain ⟨-, hfield, hlen, hwrong⟩ := hr
  have hlen' : (r ++ y :: t).length = r.length + t.length + 1 := by
    rw [List.length_append, List.length_cons, Nat.add_assoc]
  have hword : rdU16le (r ++ y :: t) 4 = rdU16le r 4 := rdU16le_append_left (by omega)
  have hcrc : rdU16le (r ++ y :: t) (6 + (rdU16le r 4).toNat - 2) ≠
      crc16 ((r ++ y :: t).take (6 + (rdU16le r 4).toNat - 2)) := by
    rw [show 6 + (rdU16le r 4).toNat - 2 = 4 + (rdU16le r 4).toNat by omega,
      List.take_append_of_le_length (by omega)]
    intro heq
    refine hwrong (UInt8.toNat_inj.mp ?_)
    rw [lowByte_toNat, ← heq, rdU16le_toNat_mod, getD_append_left (by omega)]
  unfold headLook
  rw [hword, if_neg (by omega), if_neg (by omega), if_neg (by omega), if_pos hcrc]

theorem framesOf_spoilt {r : Bytes} (hr : SpoiltFrame r) (y : UInt8) (t : Bytes) :
    framesOf (r ++ y :: t) = framesOf (r.drop 2 ++ y :: t) := by
  have hlook : frameScanner.look (r ++ y :: t) = .skip 2 := by
    have hskip := headLook_spoilt hr y t
    obtain ⟨rest, hrest⟩ := hr.head
    rw [hrest] at hskip ⊢
    exact (frameLook_paired _).trans hskip
  have hlen := hr.length_eq
  unfold framesOf Scanner.items
  rw [frameScanner.drain_skip hlook, List.drop_append_of_le_length (by omega)]

theorem Clean.framesOf_append {b : Bytes} (hb : Clean b) (t : Bytes) :
    framesOf (b ++ t) = framesOf t := by
  induction hb generalizing t with
  | nothing h => exact framesOf_append_of_drain h t
  | byte h hx => rw [framesOf_append_of_drain h]; exact framesOf_cons_of_ne hx t
  | @spoilt b r h hr _ ih =>
    cases t with
    | nil =>
      rw [List.append_nil]
      unfold framesOf Scanner.items
      rw [h, drain_nil]
    | cons y t => rw [framesOf_append_of_drain h, framesOf_spoilt hr, ih]

/-! ## Other buffers are missed -/

/-- A buffer that some bytes complete to a frame is missed when they follow. -/
theorem missed_of_completion {r t : Bytes} {f : Frame} (hr : r ≠ [])
    (hlook : frameLook (r ++ t) = .emit f (r ++ t).length)
    (hv : f.payload.length + 8 = (r ++ t).length) :
    framesOf (r ++ t) ≠ framesOf t := by
  intro heq
  have hdrain := frameScanner.drain_emit (b := r ++ t) hlook
  rw [List.drop_length, drain_nil] at hdrain
  have hframes : framesOf (r ++ t) = [f] := (Prod.mk.inj hdrain).1
  have hitems : frameScanner.items t = [f] := heq.symm.trans hframes
  have hhead := Scanner.next_fst_eq_head? (S := frameScanner) t
  rw [hitems] at hhead
  have hnext : frameScanner.next t = (some f, (frameScanner.next t).2) := Prod.ext hhead rfl
  have hlen := length_of_next_some hnext
  have hpos := List.length_pos_iff.mpr hr
  rw [List.length_append] at hv
  omega

theorem headLook_complete {body : Bytes} (hfield : 2 ≤ (rdU16le body 4).toNat ∧
    (rdU16le body 4).toNat ≤ 4096) (hlen : body.length = 4 + (rdU16le body 4).toNat) :
    ∃ f, headLook (body ++ wrU16le (crc16 body)) =
      .emit f (body ++ wrU16le (crc16 body)).length := by
  have hlen' : (body ++ wrU16le (crc16 body)).length = body.length + 2 := List.length_append
  have hword : rdU16le (body ++ wrU16le (crc16 body)) 4 = rdU16le body 4 :=
    rdU16le_append_left (by omega)
  have hpos : 6 + (rdU16le body 4).toNat - 2 = body.length := by omega
  have hcrc : ¬ rdU16le (body ++ wrU16le (crc16 body)) (6 + (rdU16le body 4).toNat - 2) ≠
      crc16 ((body ++ wrU16le (crc16 body)).take (6 + (rdU16le body 4).toNat - 2)) := by
    rw [hpos, rdU16le_trailer, List.take_left]
    exact not_not_intro rfl
  unfold headLook
  rw [hword, if_neg (by omega), if_neg (by omega), if_neg (by omega), if_neg hcrc]
  exact ⟨_, by rw [hlen', hlen]; congr 1; omega⟩

theorem exists_completion_of_header {r : Bytes} (h6 : 6 ≤ r.length)
    (hfield : 2 ≤ (rdU16le r 4).toNat ∧ (rdU16le r 4).toNat ≤ 4096)
    (hle : r.length ≤ 4 + (rdU16le r 4).toNat) :
    ∃ t f, headLook (r ++ t) = .emit f (r ++ t).length := by
  have hword : rdU16le (r ++ List.replicate (4 + (rdU16le r 4).toNat - r.length) 0) 4 =
      rdU16le r 4 := rdU16le_append_left (by omega)
  have hlen : (r ++ List.replicate (4 + (rdU16le r 4).toNat - r.length) 0).length =
      4 + (rdU16le r 4).toNat := by
    rw [List.length_append, List.length_replicate]
    omega
  obtain ⟨f, hf⟩ := headLook_complete (by rwa [hword]) (by rwa [hword])
  rw [List.append_assoc] at hf
  exact ⟨_, f, hf⟩

theorem exists_header {r : Bytes} (h6 : r.length < 6) :
    ∃ e, (r ++ e).length = 6 ∧ 2 ≤ (rdU16le (r ++ e) 4).toNat ∧
      (rdU16le (r ++ e) 4).toNat ≤ 4096 := by
  refine ⟨List.replicate (5 - r.length) 0 ++ [1], ?_, ?_⟩
  · rw [List.length_append, List.length_append, List.length_replicate, List.length_singleton]
    omega
  · have hlast : (r ++ (List.replicate (5 - r.length) 0 ++ [1])).getD 5 0 = 1 := by
      have hlen : (r ++ List.replicate (5 - r.length) 0).length = 5 := by
        rw [List.length_append, List.length_replicate]
        omega
      rw [← List.append_assoc, List.getD_eq_getElem?_getD, List.getElem?_append_right hlen.le, hlen]
      rfl
    have hlow := ((r ++ (List.replicate (5 - r.length) 0 ++ [1])).getD 4 0).toNat_lt
    rw [rdU16le_toNat, hlast]
    show 2 ≤ _ + 256 * 1 ∧ _ + 256 * 1 ≤ 4096
    omega

/-- A begun frame is spoilt or can be completed. -/
theorem spoilt_or_completion {rest : Bytes} (hw : headLook (0x5A :: 0x5A :: rest) = .wait 0) :
    SpoiltFrame (0x5A :: 0x5A :: rest) ∨
      ∃ t f, headLook (0x5A :: 0x5A :: rest ++ t) = .emit f (0x5A :: 0x5A :: rest ++ t).length := by
  generalize hr : (0x5A :: 0x5A :: rest : Bytes) = r at *
  by_cases h6 : r.length < 6
  · obtain ⟨e, hlen, hfield⟩ := exists_header h6
    obtain ⟨t, f, hf⟩ := exists_completion_of_header (by omega) hfield (by omega)
    rw [List.append_assoc] at hf
    exact .inr ⟨e ++ t, f, hf⟩
  unfold headLook at hw
  rw [if_neg h6] at hw
  split_ifs at hw with hbad hinc
  have hfield : 2 ≤ (rdU16le r 4).toNat ∧ (rdU16le r 4).toNat ≤ 4096 := by omega
  by_cases hle : r.length ≤ 4 + (rdU16le r 4).toNat
  · exact .inr (exists_completion_of_header (by omega) hfield hle)
  have hlen : r.length = 5 + (rdU16le r 4).toNat := by omega
  by_cases hlow : r.getD (4 + (rdU16le r 4).toNat) 0 =
      ((crc16 (r.take (4 + (rdU16le r 4).toNat))) &&& 0xFF).toUInt8
  · -- the first CRC byte is right: the second one completes the frame
    right
    set body := r.take (4 + (rdU16le r 4).toNat) with hbody
    have htake : body.length = 4 + (rdU16le r 4).toNat := by
      rw [hbody, List.length_take]
      omega
    have hsplit : r = body ++ [(crc16 body &&& 0xFF).toUInt8] := by
      obtain ⟨x, hx⟩ := List.length_eq_one_iff.mp
        (show (r.drop (4 + (rdU16le r 4).toNat)).length = 1 by rw [List.length_drop]; omega)
      have hget := getD_drop r (4 + (rdU16le r 4).toNat) 0
      rw [hx, Nat.add_zero, hlow] at hget
      have hcat := List.take_append_drop (4 + (rdU16le r 4).toNat) r
      rw [hx, ← hbody, show x = (crc16 body &&& 0xFF).toUInt8 from hget] at hcat
      exact hcat.symm
    have hword : rdU16le body 4 = rdU16le r 4 := by
      conv_rhs => rw [hsplit]
      exact (rdU16le_append_left (by omega)).symm
    obtain ⟨f, hf⟩ := headLook_complete (by rwa [hword]) (by rw [hword, htake])
    refine ⟨[(crc16 body >>> 8).toUInt8], f, ?_⟩
    have hwhole : r ++ [(crc16 body >>> 8).toUInt8] = body ++ wrU16le (crc16 body) := by
      conv_lhs => rw [hsplit]
      rw [List.append_assoc]
      rfl
    rw [hwhole]
    exact hf
  · exact .inl ⟨⟨rest, hr.symm⟩, hfield, hlen, hlow⟩

/-- Where draining stops. -/
theorem rest_cases {r : Bytes} (hr : frameScanner.drain r = ([], r)) :
    r = [] ∨ (∃ x, r = [x]) ∨ ∃ rest, r = 0x5A :: 0x5A :: rest ∧ headLook r = .wait 0 := by
  cases hv : frameLook r with
  | wait n =>
    have hdrop := frameScanner.drain_wait (b := r) hv
    rw [hr] at hdrop
    have hlen := congrArg List.length (Prod.mk.inj hdrop).2
    rw [List.length_drop] at hlen
    obtain ⟨-, rfl⟩ | ⟨hp, hw⟩ := frameLook_wait hv
    · match r with
      | [] => exact .inl rfl
      | [x] => exact .inr (.inl ⟨x, rfl⟩)
      | x :: y :: r =>
        simp only [List.length_cons] at hlen
        omega
    · have hle := findPrefix_le hp
      obtain rfl : n = 0 := by omega
      obtain ⟨rest, hrest⟩ := findPrefix_drop hp
      exact .inr (.inr ⟨rest, hrest, hw⟩)
  | skip n =>
    have hpos := frameScanner.skip_pos hv
    have hshort := frameScanner.drain_length (r.drop n)
    rw [← frameScanner.drain_skip hv, hr, List.length_drop] at hshort
    dsimp only at hshort
    omega
  | emit f n =>
    have hdrain := frameScanner.drain_emit (b := r) hv
    rw [hr] at hdrain
    cases (Prod.mk.inj hdrain).1

/-- **Residues.** A buffer is not missed by any continuation of the stream if and only if it is
clean. -/
theorem clean_iff {b : Bytes} : Clean b ↔ ∀ t, framesOf (b ++ t) = framesOf t := by
  refine ⟨Clean.framesOf_append, fun hall => ?_⟩
  induction hn : b.length using Nat.strong_induction_on generalizing b with
  | _ n ih =>
    subst hn
    have hnone : framesOf b = [] := by
      have h := hall []
      rwa [List.append_nil, framesOf_nil] at h
    have hdrain : frameScanner.drain b = ([], frameScanner.rest b) := Prod.ext hnone rfl
    have hrest := frameScanner.drain_rest b
    have hshort := frameScanner.drain_length b
    rw [hdrain] at hshort
    generalize frameScanner.rest b = r at hdrain hrest hshort
    have hall' : ∀ t, framesOf (r ++ t) = framesOf t := fun t => by
      rw [← framesOf_append_of_drain hdrain, hall]
    rcases rest_cases hrest with rfl | ⟨x, rfl⟩ | ⟨rest, rfl, hw⟩
    · exact .nothing hdrain
    · refine .byte hdrain ?_
      rintro rfl
      -- the byte may be the first of a frame
      let f : WireFrame := ⟨⟨0, []⟩, by decide, by decide⟩
      refine missed_of_completion (r := [0x5A]) (t := f.encode.drop 1) (f := f.toFrame)
        (List.cons_ne_nil _ _) ?_ ?_ (hall' _)
      · have hlook := frameLook_encode f []
        rw [List.append_nil] at hlook
        exact hlook
      · decide +kernel
    · rcases spoilt_or_completion hw with hspoilt | ⟨t, f, hf⟩
      · refine .spoilt hdrain hspoilt (ih _ ?_ ?_ rfl)
        · rw [List.length_drop]
          rw [List.length_cons, List.length_cons] at hshort ⊢
          omega
        · intro t
          cases t with
          | nil =>
            have hpre : framesOf ((0x5A :: 0x5A :: rest : Bytes).drop 2) <+:
                framesOf ((0x5A :: 0x5A :: rest : Bytes).drop 2 ++ [0]) :=
              Scanner.items_prefix_append _ _
            have hzero : framesOf [0] = [] :=
              (framesOf_cons_of_ne (x := 0) (by decide) []).trans framesOf_nil
            rw [← framesOf_spoilt hspoilt, hall', hzero, List.prefix_nil] at hpre
            rw [List.append_nil, framesOf_nil]
            exact hpre
          | cons y t => rw [← framesOf_spoilt hspoilt, hall']
      · refine absurd (hall' t) (missed_of_completion (f := f) (List.cons_ne_nil _ _) ?_ ?_)
        · exact (frameLook_paired _).trans hf
        · have := (headLook_emit hf).1
          omega

end River2
