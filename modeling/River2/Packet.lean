import River2.Crc

/-!
# Inner and outer packets (`river2_packet.c`)

`innerBuild`, `innerParse` are the codec of the inner packet, `outerBuild` writes the outer
wrapper. A builder returns `none` where the code returns 0, and else the bytes it stores in `out`.
-/

namespace River2

/-! ## Constants -/

def innerPrefix : UInt8 := 0xAA
def innerVersion : UInt8 := 0x02
def innerProduct : UInt8 := 0x0D

/-- Bytes preceding the payload of an inner packet. -/
def innerHeaderLen : ℕ := 16

/-- The header and the trailing CRC. -/
def innerOverhead : ℕ := innerHeaderLen + 2

/-- 2 prefix, 1 type, 1 unknown, 2 length and 2 CRC bytes. -/
def outerOverhead : ℕ := 8

/-- Unencrypted handshake command or reply. -/
def frameCommand : UInt8 := 0x00

/-- AES-CBC encrypted inner packet. -/
def frameData : UInt8 := 0x01

def addrApp : UInt8 := 0x21
def addrAuth : UInt8 := 0x35
def addrPd : UInt8 := 0x02
def addrMppt : UInt8 := 0x05

def cmdsetHeartbeat : UInt8 := 0x20
def cmdidHeartbeat : UInt8 := 0x02

/-! ## The inner packet -/

/-- The header up to the payload length, the part that the CRC-8 covers. -/
def innerHead (payloadLen : ℕ) : Bytes :=
  [innerPrefix, innerVersion] ++ wrU16le (UInt16.ofNat payloadLen)

/-- The 16 bytes before the payload: head, CRC-8, product, sequence number, two zero bytes and the
address fields. -/
def innerHeader (src dst cmdSet cmdId : UInt8) (payloadLen : ℕ) : Bytes :=
  innerHead payloadLen ++ [crc8 (innerHead payloadLen), innerProduct, 0, 0, 0, 0, 0x00, 0x00,
    src, dst, cmdSet, cmdId]

/-- `river2_inner_build`. -/
def innerBuild (src dst cmdSet cmdId : UInt8) (payload : Bytes) (outCap : ℕ) : Option Bytes :=
  let total := sizeT (innerOverhead + payload.length)
  if outCap < total then none
  else
    let body := innerHeader src dst cmdSet cmdId payload.length ++ payload
    some (body ++ wrU16le (crc16 body))

/-- `river2_inner_packet_t`; a null payload is the empty one. -/
structure InnerPacket where
  src : UInt8
  dst : UInt8
  cmdSet : UInt8
  cmdId : UInt8
  payload : Bytes
  deriving DecidableEq, Repr

/-- `river2_inner_parse`. -/
def innerParse (data : Bytes) : Option InnerPacket :=
  if data.length < innerOverhead ∨ data.getD 0 0 ≠ innerPrefix ∨ data.getD 1 0 ≠ innerVersion then
    none
  else
    let payloadLen := (rdU16le data 2).toNat
    if data.length ≠ innerOverhead + payloadLen then none
    else if crc8 (data.take 4) ≠ data.getD 4 0 then none
    else if rdU16le data (data.length - 2) ≠ crc16 (data.take (data.length - 2)) then none
    else
      some
        { src := data.getD 12 0
          dst := data.getD 13 0
          cmdSet := data.getD 14 0
          cmdId := data.getD 15 0
          payload := slice data innerHeaderLen payloadLen }

@[simp] theorem innerHead_length (n : ℕ) : (innerHead n).length = 4 := rfl

@[simp] theorem innerHeader_length (src dst cmdSet cmdId : UInt8) (n : ℕ) :
    (innerHeader src dst cmdSet cmdId n).length = innerHeaderLen := rfl

theorem innerHeader_crc8 (src dst cmdSet cmdId : UInt8) (n : ℕ) (y : Bytes) :
    (innerHeader src dst cmdSet cmdId n ++ y).getD 4 0 = crc8 (innerHead n) := by
  unfold innerHeader
  generalize crc8 (innerHead n) = c
  rfl

/-- The bytes `river2_inner_build` stores. -/
def innerBytes (src dst cmdSet cmdId : UInt8) (payload : Bytes) : Bytes :=
  innerHeader src dst cmdSet cmdId payload.length ++ payload ++
    wrU16le (crc16 (innerHeader src dst cmdSet cmdId payload.length ++ payload))

theorem innerBytes_length (src dst cmdSet cmdId : UInt8) (payload : Bytes) :
    (innerBytes src dst cmdSet cmdId payload).length = innerOverhead + payload.length := by
  unfold innerBytes innerOverhead
  rw [List.length_append, List.length_append, innerHeader_length, wrU16le_length]
  omega

theorem innerBuild_eq_some {src dst cmdSet cmdId : UInt8} {payload : Bytes} {outCap : ℕ}
    (hcap : sizeT (innerOverhead + payload.length) ≤ outCap) :
    innerBuild src dst cmdSet cmdId payload outCap =
      some (innerBytes src dst cmdSet cmdId payload) := by
  unfold innerBuild
  rw [if_neg (by omega)]
  rfl

theorem innerBuild_eq_none {src dst cmdSet cmdId : UInt8} {payload : Bytes} {outCap : ℕ}
    (hcap : outCap < sizeT (innerOverhead + payload.length)) :
    innerBuild src dst cmdSet cmdId payload outCap = none := by
  unfold innerBuild
  rw [if_pos hcap]

/-- Parsing what was built gives the fields back. -/
theorem innerParse_built {src dst cmdSet cmdId : UInt8} {payload : Bytes}
    (hlen : payload.length < 2 ^ 16) :
    innerParse (innerBytes src dst cmdSet cmdId payload) =
      some ⟨src, dst, cmdSet, cmdId, payload⟩ := by
  unfold innerBytes
  set body := innerHeader src dst cmdSet cmdId payload.length ++ payload with hbody
  have hblen : body.length = innerHeaderLen + payload.length := by
    rw [hbody, List.length_append, innerHeader_length]
  have htot : (body ++ wrU16le (crc16 body)).length = body.length + 2 := by
    rw [List.length_append, wrU16le_length]
  have hword : (rdU16le (body ++ wrU16le (crc16 body)) 2).toNat = payload.length := by
    have h : rdU16le (body ++ wrU16le (crc16 body)) 2 = UInt16.ofNat payload.length :=
      rdU16le_wrU16le [innerPrefix, innerVersion] _ _
    rw [h, UInt16.toNat_ofNat', Nat.mod_eq_of_lt hlen]
  have hhead : (body ++ wrU16le (crc16 body)).take 4 = innerHead payload.length := rfl
  have hcrc8 : (body ++ wrU16le (crc16 body)).getD 4 0 = crc8 (innerHead payload.length) := by
    rw [hbody, List.append_assoc, innerHeader_crc8]
  unfold innerParse
  rw [if_neg, hword, htot, hhead, hcrc8]
  · dsimp only
    rw [if_neg, if_neg, if_neg]
    · congr 2
      rw [hbody, ← innerHeader_length src dst cmdSet cmdId payload.length]
      exact slice_append_right _ _ _
    · rw [Nat.add_sub_cancel, rdU16le_trailer, List.take_left]
      exact not_not_intro rfl
    · exact not_not_intro rfl
    · rw [hblen]
      unfold innerOverhead; omega
  · rw [htot, hblen]
    unfold innerOverhead
    rintro (h | h | h)
    · omega
    · exact h rfl
    · exact h rfl

/-! ## The outer wrapper -/

/-- The wrapper's header: prefix, type, unknown byte and length field. -/
def outerHeader (frameType : UInt8) (payloadLen : ℕ) : Bytes :=
  ([0x5A, 0x5A, frameType <<< 4, 0x01] : Bytes) ++ wrU16le (UInt16.ofNat (payloadLen + 2))

/-- `river2_outer_build`. -/
def outerBuild (frameType : UInt8) (payload : Bytes) (outCap : ℕ) : Option Bytes :=
  let total := sizeT (outerOverhead + payload.length)
  if outCap < total then none
  else
    let body := outerHeader frameType payload.length ++ payload
    some (body ++ wrU16le (crc16 body))

@[simp] theorem outerHeader_length (frameType : UInt8) (n : ℕ) :
    (outerHeader frameType n).length = 6 := rfl

/-- The bytes `river2_outer_build` stores. -/
def frameBytes (frameType : UInt8) (payload : Bytes) : Bytes :=
  outerHeader frameType payload.length ++ payload ++
    wrU16le (crc16 (outerHeader frameType payload.length ++ payload))

theorem outerBuild_eq_some {frameType : UInt8} {payload : Bytes} {outCap : ℕ}
    (hcap : sizeT (outerOverhead + payload.length) ≤ outCap) :
    outerBuild frameType payload outCap = some (frameBytes frameType payload) := by
  unfold outerBuild
  rw [if_neg (by omega)]
  rfl

end River2
