import River2.Recording

/-!
# The configuration (`config.c`)

1. `readEcoflowConfig` fills the buffers of an `EcoflowConfig` from NVS, one after the other. The
   library is a parameter; `Nvs.Documented` is what its documentation says of stored blobs.
2. `lookupTable_of_read`: a read that succeeds leaves the stored blob at the start of the lookup
   table, and behind it what the caller had there.
3. `hashed_bytes_iff`: so the bytes hashed into a session key are bytes of the stored blob if and
   only if the blob reaches that far. `derive_session_key` checks against the size of the buffer,
   and the length of the blob is dropped.
-/

namespace River2

open Prog

/-! ## The code -/

/-- The keys read from the namespace. -/
inductive NvsKey where
  | efUser
  | efMac
  | efSerial
  | lookupTable
  deriving DecidableEq

/-- The NVS library. A read is given the room of its buffer; it returns a status, what it has
written to the start of the buffer, and the length it has set. -/
structure Nvs where
  /-- `nvs_open` -/
  opened : EspErr
  /-- `nvs_get_str` -/
  getStr : NvsKey → ℕ → EspErr × Bytes × ℕ
  /-- `nvs_get_blob` -/
  getBlob : NvsKey → ℕ → EspErr × Bytes × ℕ

/-- A buffer after a write to its start. -/
def overwrite {n : ℕ} (buf : Octets n) (written : Bytes) : Octets n :=
  ⟨(written ++ buf.1.drop written.length).take n, by
    rw [List.length_take, List.length_append, List.length_drop, buf.2]
    omega⟩

/-- `read_ecoflow_config`: the error, and `*config` as the call leaves it. -/
def readEcoflowConfig (nvs : Nvs) (config : EcoflowConfig) : EspErr × EcoflowConfig :=
  if nvs.opened ≠ .ok then (nvs.opened, config)
  else
    let (err, user, _) := nvs.getStr .efUser config.efUser.1.length
    let config := { config with efUser := overwrite config.efUser user }
    if err ≠ .ok then (err, config)
    else
      let (err, mac, _) := nvs.getBlob .efMac config.efMac.1.length
      let config := { config with efMac := overwrite config.efMac mac }
      if err ≠ .ok then (err, config)
      else
        let (err, serial, _) := nvs.getStr .efSerial config.efSerial.1.length
        let config := { config with efSerial := overwrite config.efSerial serial }
        if err ≠ .ok then (err, config)
        else
          -- `size_lut` is not looked at again
          let (err, lut, _sizeLut) := nvs.getBlob .lookupTable config.lookupTable.1.length
          let config := { config with lookupTable := overwrite config.lookupTable lut }
          if err ≠ .ok then (err, config) else (.ok, config)

/-- What the documentation of `nvs_get_blob` says, for these stored blobs. -/
structure Nvs.Documented (nvs : Nvs) (stored : NvsKey → Option Bytes) : Prop where
  /-- a stored blob that fits the buffer is copied, and the length set to its length -/
  copies : ∀ key cap blob, stored key = some blob → blob.length ≤ cap →
    nvs.getBlob key cap = (.ok, blob, blob.length)
  /-- without a blob that fits, the call fails -/
  fails : ∀ key cap, (∀ blob, stored key = some blob → cap < blob.length) →
    (nvs.getBlob key cap).1 ≠ .ok

/-! ## What a read loads -/

section Read

variable {nvs : Nvs} {stored : NvsKey → Option Bytes} {config config' : EcoflowConfig}

theorem overwrite_eq {n : ℕ} {buf : Octets n} {written : Bytes} (hfit : written.length ≤ n) :
    (overwrite buf written).1 = written ++ buf.1.drop written.length := by
  refine List.take_of_length_le ?_
  rw [List.length_append, List.length_drop, buf.2]
  omega

theorem readEcoflowConfig_ok (hread : readEcoflowConfig nvs config = (.ok, config')) :
    (nvs.getStr .efUser 20).1 = .ok ∧ (nvs.getBlob .efMac 6).1 = .ok ∧
      (nvs.getStr .efSerial 17).1 = .ok ∧ (nvs.getBlob .lookupTable lutSize).1 = .ok ∧
      config' =
        { efUser := overwrite config.efUser (nvs.getStr .efUser 20).2.1
          efMac := overwrite config.efMac (nvs.getBlob .efMac 6).2.1
          efSerial := overwrite config.efSerial (nvs.getStr .efSerial 17).2.1
          lookupTable := overwrite config.lookupTable (nvs.getBlob .lookupTable lutSize).2.1 } := by
  unfold readEcoflowConfig at hread
  dsimp only at hread
  rw [config.efUser.2, config.efMac.2, config.efSerial.2, config.lookupTable.2] at hread
  split_ifs at hread with hopen huser hmac hserial hlut
  · exact absurd (Prod.mk.inj hread).1 hopen
  · exact absurd (Prod.mk.inj hread).1 huser
  · exact absurd (Prod.mk.inj hread).1 hmac
  · exact absurd (Prod.mk.inj hread).1 hserial
  · exact absurd (Prod.mk.inj hread).1 hlut
  · exact ⟨not_not.mp huser, not_not.mp hmac, not_not.mp hserial, not_not.mp hlut,
      (Prod.mk.inj hread).2.symm⟩

/-- **The lookup table** behind a read: the stored blob, and what the caller had behind it. -/
theorem lookupTable_of_read (hdoc : nvs.Documented stored)
    (hread : readEcoflowConfig nvs config = (.ok, config')) :
    ∃ blob, stored .lookupTable = some blob ∧ blob.length ≤ lutSize ∧
      config'.lookupTable.1 = blob ++ config.lookupTable.1.drop blob.length := by
  obtain ⟨-, -, -, hok, rfl⟩ := readEcoflowConfig_ok hread
  have hstored : ∃ blob, stored .lookupTable = some blob ∧ blob.length ≤ lutSize := by
    by_contra hnone
    push Not at hnone
    exact hdoc.fails .lookupTable lutSize hnone hok
  obtain ⟨blob, hblob, hfit⟩ := hstored
  refine ⟨blob, hblob, hfit, ?_⟩
  rw [hdoc.copies .lookupTable lutSize blob hblob hfit]
  exact overwrite_eq hfit

end Read

/-! ## What is hashed -/

/-- These bytes are those of the blob from `pos` on. -/
def BytesAt (blob : Bytes) (pos : ℕ) (bytes : Bytes) : Prop :=
  ∀ i < bytes.length, blob[pos + i]? = bytes[i]?

theorem bytesAt_slice_iff {blob rest : Bytes} {pos n : ℕ} (hn : 0 < n)
    (hlen : pos + n ≤ (blob ++ rest).length) :
    BytesAt blob pos (slice (blob ++ rest) pos n) ↔ pos + n ≤ blob.length := by
  unfold BytesAt
  rw [slice_length hlen]
  constructor
  · intro hat
    -- the last byte is one of the blob
    by_contra hshort
    have hnone : blob[pos + (n - 1)]? = none := List.getElem?_eq_none (by omega)
    rw [hat (n - 1) (by omega), List.getElem?_eq_none_iff, slice_length hlen] at hnone
    omega
  · intro hfit i hi
    rw [slice_append_left hfit]
    unfold slice
    rw [List.getElem?_take_of_lt hi, List.getElem?_drop]

variable {c : Crypto} {cfg : EcoflowConfig} {seed srand : Bytes} {h : Hist}

theorem deriveSessionKey_data {key : Octets 16}
    (hrun : Reach anyEnv ([], deriveSessionKey c cfg seed srand) (h, .ret key)) :
    ∃ data, sessionKeyData cfg seed srand = .ok data ∧
      (key = c.md5 data ∨ ⟨.hashCompute, .failed key⟩ ∈ h) := by
  have hwp : wp (freeContract anyEnv) (deriveSessionKey c cfg seed srand)
      (fun key h => ∃ data, sessionKeyData cfg seed srand = .ok data ∧
        (key = c.md5 data ∨ ⟨.hashCompute, .failed key⟩ ∈ h)) (fun _ _ => True) [] := by
    unfold deriveSessionKey river2Md5
    refine wp_do.mpr (wp_lift (fun data hdata => ?_) fun _ _ => trivial)
    refine wp_do.mpr (wp_ask.mpr ⟨trivial, fun status _ => ?_⟩)
    cases status with
    | success => exact ⟨data, hdata, .inl rfl⟩
    | failed out => exact ⟨data, hdata, .inr (List.mem_singleton_self _)⟩
  exact wp_reach (C := freeContract anyEnv) hwp hrun

theorem sessionKeyData_ok {data : Bytes} (hdata : sessionKeyData cfg seed srand = .ok data) :
    (lookupPos seed).toNat + 16 ≤ lutSize ∧
      data = slice cfg.lookupTable.1 (lookupPos seed).toNat 16 ++ srand := by
  unfold sessionKeyData at hdata
  dsimp only at hdata
  split_ifs at hdata with hout
  push Not at hout
  exact ⟨hout.2, (Except.ok.inj hdata).symm⟩

/-- **The bytes hashed into a session key.** For a read that succeeds and a key derived from it,
they are what the read left in the lookup table; and they are bytes of the stored blob if and only
if the blob reaches that far. -/
theorem hashed_bytes_iff {nvs : Nvs} {stored : NvsKey → Option Bytes}
    {config config' : EcoflowConfig} {key : Octets 16} (hdoc : nvs.Documented stored)
    (hread : readEcoflowConfig nvs config = (.ok, config'))
    (hrun : Reach anyEnv ([], deriveSessionKey c config' seed srand) (h, .ret key)) :
    ∃ blob bytes, stored .lookupTable = some blob ∧ bytes.length = 16 ∧
      sessionKeyData config' seed srand = .ok (bytes ++ srand) ∧
      (key = c.md5 (bytes ++ srand) ∨ ⟨.hashCompute, .failed key⟩ ∈ h) ∧
      bytes = slice (blob ++ config.lookupTable.1.drop blob.length) (lookupPos seed).toNat 16 ∧
      (BytesAt blob (lookupPos seed).toNat bytes ↔
        (lookupPos seed).toNat + 16 ≤ blob.length) := by
  obtain ⟨blob, hblob, -, hlut⟩ := lookupTable_of_read hdoc hread
  obtain ⟨data, hdata, hkey⟩ := deriveSessionKey_data hrun
  obtain ⟨hbound, rfl⟩ := sessionKeyData_ok hdata
  have hlen : (lookupPos seed).toNat + 16 ≤ config'.lookupTable.1.length := by
    rwa [config'.lookupTable.2]
  refine ⟨blob, _, hblob, slice_length hlen, hdata, hkey, by rw [hlut], ?_⟩
  rw [hlut] at hlen ⊢
  exact bytesAt_slice_iff (by norm_num) hlen

/-! ## A short blob -/

/-- A library that behaves as documented, with these stored blobs; it keeps a string with its
terminating NUL. -/
def nvsOf (stored : NvsKey → Option Bytes) : Nvs where
  opened := .ok
  getStr := read
  getBlob := read
where
  read (key : NvsKey) (cap : ℕ) : EspErr × Bytes × ℕ :=
    match stored key with
    | none => (.notFound, [], 0)
    | some blob =>
      if blob.length ≤ cap then (.ok, blob, blob.length) else (.invalidSize, [], blob.length)

section Short

variable {stored : NvsKey → Option Bytes}

theorem nvsOf_read {key : NvsKey} {cap : ℕ} {blob : Bytes} (hblob : stored key = some blob)
    (hfit : blob.length ≤ cap) : nvsOf.read stored key cap = (.ok, blob, blob.length) := by
  unfold nvsOf.read
  rw [hblob]
  exact if_pos hfit

theorem nvsOf_documented : (nvsOf stored).Documented stored where
  copies := fun _ _ _ => nvsOf_read
  fails := fun key cap hnone => by
    show (nvsOf.read stored key cap).1 ≠ .ok
    unfold nvsOf.read
    cases hblob : stored key with
    | none => nofun
    | some blob =>
      dsimp only
      rw [if_neg (Nat.not_le.mpr (hnone blob hblob))]
      nofun

theorem readEcoflowConfig_nvsOf {config : EcoflowConfig} {user mac serial lut : Bytes}
    (huser : stored .efUser = some user ∧ user.length ≤ 20)
    (hmac : stored .efMac = some mac ∧ mac.length ≤ 6)
    (hserial : stored .efSerial = some serial ∧ serial.length ≤ 17)
    (hlut : stored .lookupTable = some lut ∧ lut.length ≤ lutSize) :
    readEcoflowConfig (nvsOf stored) config = (.ok, ⟨overwrite config.efUser user,
      overwrite config.efMac mac, overwrite config.efSerial serial,
      overwrite config.lookupTable lut⟩) := by
  unfold readEcoflowConfig
  dsimp only [nvsOf]
  rw [config.efUser.2, config.efMac.2, config.efSerial.2, config.lookupTable.2,
    nvsOf_read huser.1 huser.2, nvsOf_read hmac.1 hmac.2, nvsOf_read hserial.1 hserial.2,
    nvsOf_read hlut.1 hlut.2]
  rfl

end Short

theorem reach_deriveSessionKey {data : Bytes} (hdata : sessionKeyData cfg seed srand = .ok data) :
    Reach anyEnv ([], deriveSessionKey c cfg seed srand)
      ([⟨.hashCompute, .success⟩], .ret (c.md5 data)) := by
  unfold deriveSessionKey
  rw [hdata]
  show Reach anyEnv ([], Prog.call Call.hashCompute fun status => _) _
  exact .single (.answer trivial)

namespace Sample

/-- A configuration whose lookup table has this length. -/
def storedConfig (len : ℕ) : NvsKey → Option Bytes
  | .efUser => some (List.replicate 19 0x31 ++ [0])
  | .efMac => some [0x0A, 0x0B, 0x0C, 0x0D, 0x0E, 0x0F]
  | .efSerial => some (List.replicate 16 0x52 ++ [0])
  | .lookupTable => some (List.replicate len 0xAA)

def zeroOctets (n : ℕ) : Octets n := ⟨List.replicate n 0, List.length_replicate⟩

/-- A `static ecoflow_config_t` before the read. -/
def zeroConfig : EcoflowConfig where
  efUser := zeroOctets 20
  efMac := zeroOctets 6
  efSerial := zeroOctets 17
  lookupTable := zeroOctets lutSize

/-- What the read makes of it. -/
def loadedConfig (len : ℕ) : EcoflowConfig where
  efUser := overwrite zeroConfig.efUser (List.replicate 19 0x31 ++ [0])
  efMac := overwrite zeroConfig.efMac [0x0A, 0x0B, 0x0C, 0x0D, 0x0E, 0x0F]
  efSerial := overwrite zeroConfig.efSerial (List.replicate 16 0x52 ++ [0])
  lookupTable := overwrite zeroConfig.lookupTable (List.replicate len 0xAA)

theorem read_storedConfig {len : ℕ} (hlen : len ≤ lutSize) :
    readEcoflowConfig (nvsOf (storedConfig len)) zeroConfig = (.ok, loadedConfig len) :=
  readEcoflowConfig_nvsOf ⟨rfl, by decide⟩ ⟨rfl, by decide⟩ ⟨rfl, by decide⟩
    ⟨rfl, by rwa [List.length_replicate]⟩

theorem loadedConfig_lookupTable {len : ℕ} (hlen : len ≤ lutSize) :
    (loadedConfig len).lookupTable.1 =
      List.replicate len 0xAA ++ List.replicate (lutSize - len) 0 := by
  refine (overwrite_eq (by rwa [List.length_replicate])).trans ?_
  show _ ++ (List.replicate lutSize 0).drop _ = _
  rw [List.length_replicate, List.drop_replicate]

/-- `sRand`, with seed `01 01`, which looks up position 16. -/
def sRand : Bytes := List.replicate 16 0x5A

theorem sessionKeyData_loadedConfig {len : ℕ} (hlen : len ≤ lutSize) :
    sessionKeyData (loadedConfig len) [1, 1] sRand =
      .ok (slice (List.replicate len 0xAA ++ List.replicate (lutSize - len) 0) 16 16 ++ sRand) := by
  rw [← loadedConfig_lookupTable hlen]
  rfl

end Sample

/-- A blob of 32 bytes reaches that far. -/
theorem hashed_bytes_iff_sample :
    let stored := Sample.storedConfig 32
    ∃ blob bytes, stored .lookupTable = some blob ∧ bytes.length = 16 ∧
      sessionKeyData (Sample.loadedConfig 32) [1, 1] Sample.sRand = .ok (bytes ++ Sample.sRand) ∧
      (Sample.crypto.md5 (List.replicate 16 0xAA ++ Sample.sRand) =
          Sample.crypto.md5 (bytes ++ Sample.sRand) ∨
        ⟨.hashCompute, .failed (Sample.crypto.md5 (List.replicate 16 0xAA ++ Sample.sRand))⟩ ∈
          ([⟨.hashCompute, .success⟩] : Hist)) ∧
      bytes = slice (blob ++ Sample.zeroConfig.lookupTable.1.drop blob.length)
        (lookupPos [1, 1]).toNat 16 ∧
      (BytesAt blob (lookupPos [1, 1]).toNat bytes ↔
        (lookupPos [1, 1]).toNat + 16 ≤ blob.length) :=
  hashed_bytes_iff nvsOf_documented (Sample.read_storedConfig (by decide))
    (reach_deriveSessionKey (Sample.sessionKeyData_loadedConfig (by decide)))

/-- With a blob of 16 bytes, the read succeeds, a key is derived, and what is hashed are 16 zeros
that the table was cleared to. -/
theorem short_blob_hashed :
    let stored := Sample.storedConfig 16
    let config := (readEcoflowConfig (nvsOf stored) Sample.zeroConfig).2
    let zeros : Bytes := List.replicate 16 0
    (nvsOf stored).Documented stored ∧
    (readEcoflowConfig (nvsOf stored) Sample.zeroConfig).1 = .ok ∧
    Reach anyEnv ([], deriveSessionKey Sample.crypto config [1, 1] Sample.sRand)
      ([⟨.hashCompute, .success⟩], .ret (Sample.crypto.md5 (zeros ++ Sample.sRand))) ∧
    sessionKeyData config [1, 1] Sample.sRand = .ok (zeros ++ Sample.sRand) ∧
    stored .lookupTable = some (List.replicate 16 0xAA) ∧
    ¬ BytesAt (List.replicate 16 0xAA) (lookupPos [1, 1]).toNat zeros := by
  intro stored config zeros
  have hread : readEcoflowConfig (nvsOf stored) Sample.zeroConfig = (.ok, Sample.loadedConfig 16) :=
    Sample.read_storedConfig (by decide)
  have hdata : sessionKeyData config [1, 1] Sample.sRand = .ok (zeros ++ Sample.sRand) := by
    show sessionKeyData (readEcoflowConfig (nvsOf stored) Sample.zeroConfig).2 _ _ = _
    rw [hread, Sample.sessionKeyData_loadedConfig (by decide)]
    rfl
  refine ⟨nvsOf_documented, by rw [hread], reach_deriveSessionKey hdata, hdata, rfl, ?_⟩
  -- the blob has no byte at position 16
  exact fun hat => absurd (hat 0 (by decide)) (by decide)

end River2
