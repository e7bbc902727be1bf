import River2.Bytes

/-!
# The checksums of `river2_crc.c`

CRC-8 (polynomial `0x07`, most significant bit first) and CRC-16/ARC (polynomial `0x8005`,
reflected), both table-driven. `build_tables` fills both tables; the entries are `crc8Entry` and
`crc16Entry`.
-/

namespace River2

/-- One round of the inner loop of `build_tables` for CRC-8. -/
def crc8Shift (crc : UInt8) : UInt8 :=
  if crc &&& 0x80 ≠ 0 then (crc <<< 1) ^^^ 0x07 else crc <<< 1

/-- One round of the inner loop of `build_tables` for CRC-16. -/
def crc16Shift (crc : UInt16) : UInt16 :=
  if crc &&& 1 ≠ 0 then (crc >>> 1) ^^^ 0xA001 else crc >>> 1

/-- `s_crc8_table[i]` as `build_tables` computes it. -/
def crc8Entry (i : ℕ) : UInt8 := crc8Shift^[8] (UInt8.ofNat i)

/-- `s_crc16_table[i]` as `build_tables` computes it. -/
def crc16Entry (i : ℕ) : UInt16 := crc16Shift^[8] (UInt16.ofNat i)

/-- `s_crc8_table` after `build_tables`. -/
def crc8Table : List UInt8 := (List.range 256).map crc8Entry

/-- `s_crc16_table` after `build_tables`. -/
def crc16Table : List UInt16 := (List.range 256).map crc16Entry

/-- `river2_crc8`. -/
def crc8 (data : Bytes) : UInt8 :=
  data.foldl (fun crc b => crc8Table.getD (crc ^^^ b).toNat 0) 0x00

/-- `river2_crc16`. -/
def crc16 (data : Bytes) : UInt16 :=
  data.foldl (fun crc b =>
    crc16Table.getD ((crc ^^^ b.toUInt16) &&& 0xFF).toNat 0 ^^^ (crc >>> 8)) 0x0000

/-- The check value of CRC-16/ARC. -/
example : crc16 [0x31, 0x32, 0x33, 0x34, 0x35, 0x36, 0x37, 0x38, 0x39] = 0xBB3D := by
  decide +kernel

end River2
