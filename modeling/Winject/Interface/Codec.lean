import Winject.Lib.Bytes
import Winject.Lib.Codec

/-!
# The RRC messages on the wire (`interface/rrc.hpp`, `cum/cum.hpp`)

```
 requestID                     | 01
 type                          | 01   0 exchange request, 1 exchange response
 lcid                          | 01
 mode, crcType                 | 01 each
 optional mask                 | 01   80 with maxSnDistance
 allowRLF, allowSegmentation,
   allowReordering             | 01 each
 maxSnDistance                 | 02   (optional)
 cipherAlgorithm, integrityAlgorithm,
   compressionAlgorithm,
   compressionLevel            | 01 each
```

`encode_per` and `decode_per` copy a field as it is in memory, so a number of 16 bits has
its lower byte in front, and an enumeration can have any value of its byte.  `decode_per`
decodes into an object: what a message does not have is left as it was.

## Main results

* `encodePer_writes` — the bytes that a message is written as.
* `decodePer_decodes` — which byte strings are read, and as which message.
* `rrc_round_trip` — a message is read back from where it was written.
* `decode_reencode_iff` — when the bytes of a message are the ones it is written as.
-/

namespace Winject.Interface

open Winject.Lib.Codec

/-! ## The messages -/

/-- `RRC_LLCTxMode`, an `enum class` over a byte. -/
structure LLCTxMode where
  value : UInt8
  deriving DecidableEq, Repr

/-- `E_RRC_LLCTxMode_TM`. -/
def LLCTxMode.tm : LLCTxMode := ⟨0⟩

/-- `E_RRC_LLCTxMode_AM`. -/
def LLCTxMode.am : LLCTxMode := ⟨1⟩

/-- `RRC_LLCCRCType`. -/
structure LLCCRCType where
  value : UInt8
  deriving DecidableEq, Repr

/-- `E_RRC_LLCCRCType_NONE`. -/
def LLCCRCType.none : LLCCRCType := ⟨0⟩

/-- `E_RRC_LLCCRCType_CRC32_04C11DB7`. -/
def LLCCRCType.crc32 : LLCCRCType := ⟨1⟩

/-- `RRC_LLCTxConfig`. -/
structure LLCTxConfig where
  mode : LLCTxMode := .tm
  crcType : LLCCRCType := .none
  deriving DecidableEq, Repr

/-- `RRC_LLCConfig`. -/
structure LLCConfig where
  txConfig : LLCTxConfig := {}
  deriving DecidableEq, Repr

/-- `RRC_PDCPConfig`.  The algorithms are enumerations of which no function uses a value. -/
structure PDCPConfig where
  allowRLF : UInt8 := 0
  allowSegmentation : UInt8 := 0
  allowReordering : UInt8 := 0
  maxSnDistance : Option UInt16 := none
  cipherAlgorithm : UInt8 := 0
  integrityAlgorithm : UInt8 := 0
  compressionAlgorithm : UInt8 := 0
  compressionLevel : UInt8 := 0
  deriving DecidableEq, Repr

/-- `RRC_ExchangeRequest` and `RRC_ExchangeResponse`. -/
structure Exchange where
  lcid : UInt8 := 0
  llcConfig : LLCConfig := {}
  pdcpConfig : PDCPConfig := {}
  deriving DecidableEq, Repr

/-- `RRC_Message`. -/
inductive Message where
  | exchangeRequest (req : Exchange)
  | exchangeResponse (rsp : Exchange)
  deriving DecidableEq, Repr

/-- `RRC`; a default-constructed variant holds its first alternative, value-initialised. -/
structure Rrc where
  requestID : UInt8 := 0
  message : Message := .exchangeRequest {}
  deriving DecidableEq, Repr

/-! ## The fields -/

/-- `cum::encode_per` of a byte. -/
def encodeU8 (v : UInt8) : Encoder := put [v]

/-- `cum::encode_per` of a `uint16_t`. -/
def encodeU16 (v : UInt16) : Encoder := put [v.toUInt8, (v >>> 8).toUInt8]

/-- `cum::decode_per` of a byte. -/
def decodeU8 : Decoder UInt8 := do
  let bytes ← octets 1
  return bytes.getD 0 0

/-- `cum::decode_per` of a `uint16_t`. -/
def decodeU16 : Decoder UInt16 := do
  let bytes ← octets 2
  return (bytes.getD 0 0).toUInt16 ||| ((bytes.getD 1 0).toUInt16 <<< 8)

/-- A field that is decoded only if it is there. -/
def decodeOptional {α : Type} (present : Bool) (d : Decoder α) (pIe : Option α) :
    Decoder (Option α) :=
  if present then some <$> d else pure pIe

/-- `cum::set_optional`. -/
def setOptional (mask : List UInt8) (n : Nat) : List UInt8 :=
  mask.set (n >>> 3) (mask.getD (n >>> 3) 0 ||| (0x80 >>> UInt8.ofNat (n &&& 7)))

/-- `cum::check_optional`. -/
def checkOptional (mask : List UInt8) (n : Nat) : Bool :=
  mask.getD (n >>> 3) 0 &&& (0x80 >>> UInt8.ofNat (n &&& 7)) != 0

/-! ## The codec -/

/-- `encode_per(RRC_LLCTxConfig)`. -/
def LLCTxConfig.encodePer (pIe : LLCTxConfig) : Encoder := do
  encodeU8 pIe.mode.value
  encodeU8 pIe.crcType.value

/-- `decode_per(RRC_LLCTxConfig)`. -/
def LLCTxConfig.decodePer : Decoder LLCTxConfig := do
  let mode ← decodeU8
  let crcType ← decodeU8
  return { mode := ⟨mode⟩, crcType := ⟨crcType⟩ }

/-- `encode_per(RRC_LLCConfig)`. -/
def LLCConfig.encodePer (pIe : LLCConfig) : Encoder := pIe.txConfig.encodePer

/-- `decode_per(RRC_LLCConfig)`. -/
def LLCConfig.decodePer : Decoder LLCConfig := do
  let txConfig ← LLCTxConfig.decodePer
  return { txConfig := txConfig }

/-- `encode_per(RRC_PDCPConfig)`. -/
def PDCPConfig.encodePer (pIe : PDCPConfig) : Encoder := do
  let optionalmask := if pIe.maxSnDistance.isSome then setOptional [0] 0 else [0]
  put optionalmask
  encodeU8 pIe.allowRLF
  encodeU8 pIe.allowSegmentation
  encodeU8 pIe.allowReordering
  match pIe.maxSnDistance with
  | none => pure ()
  | some maxSnDistance => encodeU16 maxSnDistance
  encodeU8 pIe.cipherAlgorithm
  encodeU8 pIe.integrityAlgorithm
  encodeU8 pIe.compressionAlgorithm
  encodeU8 pIe.compressionLevel

/-- `decode_per(RRC_PDCPConfig)`. -/
def PDCPConfig.decodePer (pIe : PDCPConfig) : Decoder PDCPConfig := do
  let optionalmask ← octets 1
  let allowRLF ← decodeU8
  let allowSegmentation ← decodeU8
  let allowReordering ← decodeU8
  let maxSnDistance ← decodeOptional (checkOptional optionalmask 0) decodeU16 pIe.maxSnDistance
  let cipherAlgorithm ← decodeU8
  let integrityAlgorithm ← decodeU8
  let compressionAlgorithm ← decodeU8
  let compressionLevel ← decodeU8
  return {
    allowRLF := allowRLF
    allowSegmentation := allowSegmentation
    allowReordering := allowReordering
    maxSnDistance := maxSnDistance
    cipherAlgorithm := cipherAlgorithm
    integrityAlgorithm := integrityAlgorithm
    compressionAlgorithm := compressionAlgorithm
    compressionLevel := compressionLevel }

/-- `encode_per(RRC_ExchangeRequest)` and `encode_per(RRC_ExchangeResponse)`. -/
def Exchange.encodePer (pIe : Exchange) : Encoder := do
  encodeU8 pIe.lcid
  pIe.llcConfig.encodePer
  pIe.pdcpConfig.encodePer

/-- `decode_per(RRC_ExchangeRequest)` and `decode_per(RRC_ExchangeResponse)`. -/
def Exchange.decodePer (pIe : Exchange) : Decoder Exchange := do
  let lcid ← decodeU8
  let llcConfig ← LLCConfig.decodePer
  let pdcpConfig ← pIe.pdcpConfig.decodePer
  return { lcid := lcid, llcConfig := llcConfig, pdcpConfig := pdcpConfig }

/-- `encode_per(RRC_Message)`. -/
def Message.encodePer : Message → Encoder
  | .exchangeRequest req => do
    encodeU8 0
    req.encodePer
  | .exchangeResponse rsp => do
    encodeU8 1
    rsp.encodePer

/-- `decode_per(RRC_Message)`: of another type nothing is decoded. -/
def Message.decodePer (pIe : Message) : Decoder Message := do
  let type ← decodeU8
  if type = 0 then
    Message.exchangeRequest <$> Exchange.decodePer {}
  else if type = 1 then
    Message.exchangeResponse <$> Exchange.decodePer {}
  else
    return pIe

/-- `encode_per(RRC)`. -/
def Rrc.encodePer (pIe : Rrc) : Encoder := do
  encodeU8 pIe.requestID
  pIe.message.encodePer

/-- `decode_per(RRC)`. -/
def Rrc.decodePer (pIe : Rrc) : Decoder Rrc := do
  let requestID ← decodeU8
  let message ← pIe.message.decodePer
  return { requestID := requestID, message := message }

/-! ## The bytes of a message -/

/-- A `uint16_t` in memory. -/
def u16Bytes (v : UInt16) : List UInt8 := [v.toUInt8, (v >>> 8).toUInt8]

/-- The bytes of a `RRC_PDCPConfig` with this optional mask. -/
def PDCPConfig.wire (mask : UInt8) (c : PDCPConfig) : List UInt8 :=
  [mask, c.allowRLF, c.allowSegmentation, c.allowReordering] ++
    (c.maxSnDistance.elim [] u16Bytes ++
      [c.cipherAlgorithm, c.integrityAlgorithm, c.compressionAlgorithm, c.compressionLevel])

/-- The bytes of an exchange with this optional mask. -/
def Exchange.wire (mask : UInt8) (x : Exchange) : List UInt8 :=
  [x.lcid, x.llcConfig.txConfig.mode.value, x.llcConfig.txConfig.crcType.value] ++
    x.pdcpConfig.wire mask

/-- The mask that is written. -/
def PDCPConfig.mask (c : PDCPConfig) : UInt8 := if c.maxSnDistance.isSome then 0x80 else 0

/-- The bytes of a message. -/
def Rrc.bytes (m : Rrc) : List UInt8 :=
  match m.message with
  | .exchangeRequest req => m.requestID :: 0 :: req.wire req.pdcpConfig.mask
  | .exchangeResponse rsp => m.requestID :: 1 :: rsp.wire rsp.pdcpConfig.mask

theorem Exchange.wire_length (mask : UInt8) (x : Exchange) :
    (x.wire mask).length = if x.pdcpConfig.maxSnDistance.isSome then 13 else 11 := by
  unfold Exchange.wire PDCPConfig.wire
  cases x.pdcpConfig.maxSnDistance <;> rfl

theorem Rrc.bytes_length_le (m : Rrc) : m.bytes.length ≤ 15 := by
  unfold Rrc.bytes
  cases m.message <;> simp only [List.length_cons, Exchange.wire_length] <;> split_ifs <;> omega

theorem Rrc.le_bytes_length (m : Rrc) : 13 ≤ m.bytes.length := by
  unfold Rrc.bytes
  cases m.message <;> simp only [List.length_cons, Exchange.wire_length] <;> split_ifs <;> omega

theorem PDCPConfig.encodePer_writes (c : PDCPConfig) : Writes c.encodePer (c.wire c.mask) := by
  have hmask : setOptional [0] 0 = [0x80] := rfl
  unfold PDCPConfig.encodePer PDCPConfig.wire PDCPConfig.mask
  cases c.maxSnDistance with
  | none =>
      refine (Writes.put [0]).bind ?_
      refine (Writes.put [c.allowRLF]).bind ?_
      refine (Writes.put [c.allowSegmentation]).bind ?_
      refine (Writes.put [c.allowReordering]).bind ?_
      refine Writes.pure.bind ?_
      refine (Writes.put [c.cipherAlgorithm]).bind ?_
      refine (Writes.put [c.integrityAlgorithm]).bind ?_
      exact (Writes.put [c.compressionAlgorithm]).bind (Writes.put [c.compressionLevel])
  | some v =>
      refine (Writes.put [0x80]).bind ?_
      refine (Writes.put [c.allowRLF]).bind ?_
      refine (Writes.put [c.allowSegmentation]).bind ?_
      refine (Writes.put [c.allowReordering]).bind ?_
      refine (Writes.put (u16Bytes v)).bind ?_
      refine (Writes.put [c.cipherAlgorithm]).bind ?_
      refine (Writes.put [c.integrityAlgorithm]).bind ?_
      exact (Writes.put [c.compressionAlgorithm]).bind (Writes.put [c.compressionLevel])

theorem Exchange.encodePer_writes (x : Exchange) :
    Writes x.encodePer (x.wire x.pdcpConfig.mask) := by
  have hllc := (Writes.put [x.llcConfig.txConfig.mode.value]).bind
    (Writes.put [x.llcConfig.txConfig.crcType.value])
  exact (Writes.put [x.lcid]).bind (hllc.bind x.pdcpConfig.encodePer_writes)

/-- **The bytes that a message is written as.** -/
theorem Rrc.encodePer_writes (m : Rrc) : Writes m.encodePer m.bytes := by
  unfold Rrc.encodePer Rrc.bytes
  cases m.message with
  | exchangeRequest req =>
      exact (Writes.put [m.requestID]).bind ((Writes.put [0]).bind req.encodePer_writes)
  | exchangeResponse rsp =>
      exact (Writes.put [m.requestID]).bind ((Writes.put [1]).bind rsp.encodePer_writes)

/-! ## What is read -/

theorem decodeU8_decodes : Decodes decodeU8 fun v bytes => bytes = [v] := by
  have hbind := (Decodes.octets 1).bind fun bytes => Decodes.pure (bytes.getD 0 0)
  refine hbind.congr fun v bytes => ?_
  constructor
  · rintro ⟨a, front, back, ⟨rfl, hlen⟩, ⟨rfl, rfl⟩, rfl⟩
    obtain ⟨b, rfl⟩ := List.length_eq_one_iff.mp hlen
    rfl
  · rintro rfl
    exact ⟨[v], [v], [], ⟨rfl, rfl⟩, ⟨rfl, rfl⟩, rfl⟩

/-- The two bytes of a number tell it, and any two bytes are a number. -/
theorem u16_of_bytes (v : UInt16) (a b : UInt8) :
    v = a.toUInt16 ||| (b.toUInt16 <<< 8) ↔ a = v.toUInt8 ∧ b = (v >>> 8).toUInt8 := by
  have hsum : (a.toUInt16 ||| (b.toUInt16 <<< 8)).toNat = a.toNat + b.toNat * 2 ^ 8 := by
    have ha := a.toNat_lt
    have hb := b.toNat_lt
    have hshift : (b.toUInt16 <<< 8).toNat = b.toNat <<< 8 := by
      rw [UInt16.toNat_shiftLeft, UInt8.toNat_toUInt16]
      apply Nat.mod_eq_of_lt
      show b.toNat <<< 8 < _
      rw [Nat.shiftLeft_eq]
      omega
    rw [UInt16.toNat_or, hshift, UInt8.toNat_toUInt16, Nat.or_comm,
      ← Nat.shiftLeft_add_eq_or_of_lt ha, Nat.shiftLeft_eq, Nat.add_comm]
  have hv := v.toNat_lt
  have ha := a.toNat_lt
  have hb := b.toNat_lt
  rw [← UInt16.toNat_inj, hsum, ← UInt8.toNat_inj, ← UInt8.toNat_inj, UInt16.toNat_toUInt8,
    UInt16.toNat_toUInt8, UInt16.toNat_shiftRight]
  show _ ↔ _ ∧ b.toNat = v.toNat >>> 8 % 2 ^ 8
  rw [Nat.shiftRight_eq_div_pow]
  omega

theorem decodeU16_decodes : Decodes decodeU16 fun v bytes => bytes = u16Bytes v := by
  have hbind := (Decodes.octets 2).bind fun bytes =>
    Decodes.pure ((bytes.getD 0 0).toUInt16 ||| ((bytes.getD 1 0).toUInt16 <<< 8))
  refine hbind.congr fun v bytes => ?_
  constructor
  · rintro ⟨a, front, back, ⟨rfl, hlen⟩, ⟨hv, rfl⟩, rfl⟩
    obtain ⟨x, y, rfl⟩ := List.length_eq_two.mp hlen
    obtain ⟨hx, hy⟩ := (u16_of_bytes v x y).mp hv
    rw [u16Bytes, ← hx, ← hy]
    rfl
  · rintro rfl
    exact ⟨_, u16Bytes v, [], ⟨rfl, rfl⟩, ⟨(u16_of_bytes v _ _).mpr ⟨rfl, rfl⟩, rfl⟩, rfl⟩

/-- The bytes that are read as a configuration: the mask says whether there is a distance,
and its other bits do not matter. -/
def PDCPConfig.IsWire : Format PDCPConfig := fun c bytes =>
  ∃ mask : UInt8, (mask &&& 0x80 ≠ 0 ↔ c.maxSnDistance.isSome = true) ∧ bytes = c.wire mask

/-- The bytes that are read as an exchange. -/
def Exchange.IsWire : Format Exchange := fun x bytes =>
  ∃ mask : UInt8, (mask &&& 0x80 ≠ 0 ↔ x.pdcpConfig.maxSnDistance.isSome = true) ∧
    bytes = x.wire mask

/-- The bytes that are read as a message, into an object that holds `old`. -/
inductive Rrc.IsWire (old : Message) : Format Rrc
  | exchangeRequest (id : UInt8) {req : Exchange} {bytes : List UInt8} (h : req.IsWire bytes) :
      IsWire old ⟨id, .exchangeRequest req⟩ (id :: 0 :: bytes)
  | exchangeResponse (id : UInt8) {rsp : Exchange} {bytes : List UInt8} (h : rsp.IsWire bytes) :
      IsWire old ⟨id, .exchangeResponse rsp⟩ (id :: 1 :: bytes)
  | unknown (id : UInt8) {type : UInt8} (h : 1 < type) : IsWire old ⟨id, old⟩ [id, type]

/-- A byte in front of the rest. -/
theorem decodeU8_bind {α : Type} {e : UInt8 → Decoder α} {G : UInt8 → Format α}
    (he : ∀ v, Decodes (e v) (G v)) :
    Decodes (decodeU8 >>= e) fun a bytes => ∃ v back, bytes = v :: back ∧ G v a back := by
  refine (decodeU8_decodes.bind he).congr fun a bytes => ?_
  constructor
  · rintro ⟨v, front, back, rfl, hG, rfl⟩
    exact ⟨v, back, rfl, hG⟩
  · rintro ⟨v, back, rfl, hG⟩
    exact ⟨v, [v], back, rfl, hG, rfl⟩

theorem decodeOptional_decodes (present : Bool) :
    Decodes (decodeOptional present decodeU16 none) fun v bytes =>
      (present = true ↔ v.isSome = true) ∧ bytes = v.elim [] u16Bytes := by
  refine ((decodeU16_decodes.map some).ite (Decodes.pure none)).congr fun v bytes => ?_
  cases present
  · rw [if_neg Bool.false_ne_true]
    constructor
    · rintro ⟨rfl, rfl⟩
      exact ⟨⟨id, id⟩, rfl⟩
    · rintro ⟨hnone, rfl⟩
      cases v with
      | none => exact ⟨rfl, rfl⟩
      | some v => exact absurd (hnone.mpr rfl) Bool.false_ne_true
  · rw [if_pos rfl]
    constructor
    · rintro ⟨v, rfl, rfl⟩
      exact ⟨⟨id, id⟩, rfl⟩
    · rintro ⟨hsome, rfl⟩
      obtain ⟨v, rfl⟩ := Option.isSome_iff_exists.mp (hsome.mp rfl)
      exact ⟨v, rfl, rfl⟩

theorem checkOptional_singleton (mask : UInt8) :
    checkOptional [mask] 0 = true ↔ mask &&& 0x80 ≠ 0 := bne_iff_ne

/-- A configuration is decoded into one without a distance. -/
theorem PDCPConfig.decodePer_decodes {old : PDCPConfig} (hold : old.maxSnDistance = none) :
    Decodes old.decodePer PDCPConfig.IsWire := by
  unfold PDCPConfig.decodePer
  rw [hold]
  have hall := (Decodes.octets 1).bind fun mask => decodeU8_bind fun allowRLF =>
    decodeU8_bind fun allowSegmentation => decodeU8_bind fun allowReordering =>
    (decodeOptional_decodes (checkOptional mask 0)).bind fun maxSnDistance =>
    decodeU8_bind fun cipherAlgorithm => decodeU8_bind fun integrityAlgorithm =>
    decodeU8_bind fun compressionAlgorithm => decodeU8_bind fun compressionLevel =>
      Decodes.pure (PDCPConfig.mk allowRLF allowSegmentation allowReordering maxSnDistance
        cipherAlgorithm integrityAlgorithm compressionAlgorithm compressionLevel)
  refine Decodes.congr hall fun c bytes => ?_
  constructor
  · rintro ⟨_, _, _, ⟨rfl, hlen⟩, ⟨allowRLF, _, rfl, allowSegmentation, _, rfl, allowReordering,
      _, rfl, maxSnDistance, _, _, ⟨hpresent, rfl⟩, ⟨cipher, _, rfl, integrity, _, rfl,
      compression, _, rfl, level, _, rfl, rfl, rfl⟩, rfl⟩, rfl⟩
    obtain ⟨mask, rfl⟩ := List.length_eq_one_iff.mp hlen
    exact ⟨mask, (checkOptional_singleton mask).symm.trans hpresent, rfl⟩
  · rintro ⟨mask, hmask, rfl⟩
    exact ⟨[mask], [mask], _, ⟨rfl, rfl⟩, ⟨_, _, rfl, _, _, rfl, _, _, rfl, c.maxSnDistance, _, _,
      ⟨(checkOptional_singleton mask).trans hmask, rfl⟩, ⟨_, _, rfl, _, _, rfl, _, _, rfl, _, _,
      rfl, rfl, rfl⟩, rfl⟩, rfl⟩

theorem Exchange.decodePer_decodes {old : Exchange} (hold : old.pdcpConfig.maxSnDistance = none) :
    Decodes old.decodePer Exchange.IsWire := by
  have hllc : Decodes LLCConfig.decodePer fun c bytes =>
      bytes = [c.txConfig.mode.value, c.txConfig.crcType.value] := by
    have htx := decodeU8_bind fun mode => decodeU8_bind fun crcType =>
      Decodes.pure (LLCTxConfig.mk ⟨mode⟩ ⟨crcType⟩)
    have hall := Decodes.bind htx fun txConfig => Decodes.pure (LLCConfig.mk txConfig)
    refine Decodes.congr hall fun c bytes => ?_
    constructor
    · rintro ⟨_, _, _, ⟨mode, _, rfl, crcType, _, rfl, rfl, rfl⟩, ⟨rfl, rfl⟩, rfl⟩
      rfl
    · rintro rfl
      exact ⟨_, _, [], ⟨_, _, rfl, _, _, rfl, rfl, rfl⟩, ⟨rfl, rfl⟩, rfl⟩
  have hall := decodeU8_bind fun lcid => hllc.bind fun llcConfig =>
    (PDCPConfig.decodePer_decodes hold).bind fun pdcpConfig =>
      Decodes.pure (Exchange.mk lcid llcConfig pdcpConfig)
  refine Decodes.congr hall fun x bytes => ?_
  constructor
  · rintro ⟨lcid, _, rfl, llcConfig, _, _, rfl, ⟨pdcpConfig, _, _, ⟨mask, hmask, rfl⟩, ⟨rfl, rfl⟩,
      rfl⟩, rfl⟩
    refine ⟨mask, hmask, ?_⟩
    rw [List.append_nil]
    rfl
  · rintro ⟨mask, hmask, rfl⟩
    refine ⟨_, _, rfl, x.llcConfig, _, _, rfl, ⟨x.pdcpConfig, _, [], ⟨mask, hmask, rfl⟩,
      ⟨rfl, rfl⟩, rfl⟩, ?_⟩
    rw [List.append_nil]
    rfl

/-- **What is read**: the byte strings of the format, and nothing else. -/
theorem Rrc.decodePer_decodes (old : Rrc) : Decodes old.decodePer (Rrc.IsWire old.message) := by
  have hexchange : Decodes (Exchange.decodePer {}) Exchange.IsWire := Exchange.decodePer_decodes rfl
  have hreq := hexchange.map Message.exchangeRequest
  have hrsp := hexchange.map Message.exchangeResponse
  have hall := decodeU8_bind fun requestID => Decodes.bind
    (decodeU8_bind fun type => hreq.ite (c := type = 0) (hrsp.ite (c := type = 1)
      (Decodes.pure old.message)))
    fun message => Decodes.pure (Rrc.mk requestID message)
  refine Decodes.congr hall fun m bytes => ?_
  constructor
  · rintro ⟨id, _, rfl, message, _, _, ⟨type, _, rfl, htype⟩, ⟨rfl, rfl⟩, rfl⟩
    rw [List.append_nil]
    split_ifs at htype with hzero hone
    · obtain ⟨req, rfl, hwire⟩ := htype
      rw [hzero]
      exact .exchangeRequest id hwire
    · obtain ⟨rsp, rfl, hwire⟩ := htype
      rw [hone]
      exact .exchangeResponse id hwire
    · obtain ⟨rfl, rfl⟩ := htype
      refine .unknown id ?_
      rw [UInt8.lt_iff_toNat_lt]
      have h0 : type.toNat ≠ 0 := fun h => hzero (UInt8.toNat_inj.mp h)
      have h1 : type.toNat ≠ 1 := fun h => hone (UInt8.toNat_inj.mp h)
      show 1 < type.toNat
      omega
  · rintro (⟨id, h⟩ | ⟨id, h⟩ | ⟨id, h⟩)
    · refine ⟨id, _, rfl, _, _, [], ⟨0, _, rfl, ?_⟩, ⟨rfl, rfl⟩, (List.append_nil _).symm⟩
      exact ⟨_, rfl, h⟩
    · refine ⟨id, _, rfl, _, _, [], ⟨1, _, rfl, ?_⟩, ⟨rfl, rfl⟩, (List.append_nil _).symm⟩
      exact ⟨_, rfl, h⟩
    · rename_i type
      refine ⟨id, _, rfl, _, _, [], ⟨type, _, rfl, ?_⟩, ⟨rfl, rfl⟩, (List.append_nil _).symm⟩
      have h0 : type ≠ 0 := by
        rintro rfl
        exact absurd h (by decide)
      have h1 : type ≠ 1 := by
        rintro rfl
        exact absurd h (by decide)
      rw [if_neg h0, if_neg h1]
      exact ⟨rfl, rfl⟩

/-! ## Messages and their bytes -/

theorem Exchange.isWire_wire (x : Exchange) : x.IsWire (x.wire x.pdcpConfig.mask) := by
  refine ⟨x.pdcpConfig.mask, ?_, rfl⟩
  unfold PDCPConfig.mask
  cases x.pdcpConfig.maxSnDistance with
  | none => decide
  | some v => exact ⟨fun _ => rfl, fun _ => (by decide : (0x80 : UInt8) &&& 0x80 ≠ 0)⟩

/-- What is written is in the format. -/
theorem Rrc.isWire_bytes (old : Message) (m : Rrc) : m.IsWire old m.bytes := by
  obtain ⟨id, message⟩ := m
  cases message with
  | exchangeRequest req => exact .exchangeRequest id req.isWire_wire
  | exchangeResponse rsp => exact .exchangeResponse id rsp.isWire_wire

/-- **Round trip**: a message of any fields is written into a buffer with room for its at
most fifteen bytes, and there it is read back, into any object and whatever is behind it. -/
theorem rrc_round_trip (m old : Rrc) (b : Buffer) (h : 15 ≤ b.room) (behind : List UInt8) :
    m.encodePer.run b = some ((), b.append m.bytes) ∧
      old.decodePer.run (m.bytes ++ behind) = some (m, behind) := by
  have hroom : m.bytes.length ≤ b.room := m.bytes_length_le.trans h
  constructor
  · rw [m.encodePer_writes b, if_pos hroom]
  · exact (Rrc.decodePer_decodes old).accepts (m.isWire_bytes old.message) behind

/-- A request for channel 3, written into a buffer of the size that `send_rrc` uses. -/
theorem rrc_round_trip_request :
    let m : Rrc := ⟨7, .exchangeRequest { lcid := 3, pdcpConfig := { maxSnDistance := some 300 } }⟩
    m.encodePer.run { room := 5120 } = some ((), { written := m.bytes, room := 5105 }) ∧
      Rrc.decodePer {} (m.bytes ++ [0xFF]) = some (m, [0xFF]) :=
  rrc_round_trip _ {} { room := 5120 } (by decide) [0xFF]

/-- The bytes that a message needs, as its type and its optional mask say. -/
def neededBytes (bytes : List UInt8) : Nat :=
  if 1 < bytes.getD 1 0 then 2 else if bytes.getD 5 0 &&& 0x80 ≠ 0 then 15 else 13

theorem Rrc.IsWire.length_eq {old : Message} {m : Rrc} {front : List UInt8}
    (h : m.IsWire old front) (rest : List UInt8) :
    front.length = neededBytes (front ++ rest) := by
  have hexchange : ∀ {x : Exchange} {bytes : List UInt8} {id type : UInt8}, x.IsWire bytes →
      ¬ 1 < type → (id :: type :: bytes).length = neededBytes (id :: type :: bytes ++ rest) := by
    rintro x bytes id type ⟨mask, hmask, rfl⟩ htype
    have hneeded : neededBytes (id :: type :: x.wire mask ++ rest) =
        if mask &&& 0x80 ≠ 0 then 15 else 13 := if_neg htype
    rw [hneeded, List.length_cons, List.length_cons, Exchange.wire_length]
    by_cases hd : x.pdcpConfig.maxSnDistance.isSome = true
    · rw [if_pos hd, if_pos (hmask.mpr hd)]
    · rw [if_neg hd, if_neg (fun hne => hd (hmask.mp hne))]
  cases h with
  | exchangeRequest id h => exact hexchange h (by decide)
  | exchangeResponse id h => exact hexchange h (by decide)
  | unknown id h => exact (if_pos h).symm

/-- There are enough bytes for an exchange. -/
theorem Exchange.isWire_of_length {bytes : List UInt8}
    (h : (if bytes.getD 3 0 &&& 0x80 ≠ 0 then 13 else 11) ≤ bytes.length) :
    ∃ x front, Exchange.IsWire x front ∧ front <+: bytes := by
  have hlen : (bytes.take 11).length = 11 := by
    rw [List.length_take]
    split_ifs at h <;> omega
  have hmask : bytes.getD 3 0 = (bytes.take 11).getD 3 0 := by
    simp
  have hbytes := List.take_append_drop 11 bytes
  rw [hmask] at h
  generalize bytes.take 11 = front at hlen hmask hbytes h
  generalize bytes.drop 11 = rest at hbytes
  subst hbytes
  match front, hlen with
  | [lcid, mode, crcType, mask, a, b, c, w, x, y, z], _ =>
    rw [List.length_append] at h
    change (if mask &&& 0x80 ≠ 0 then 13 else 11) ≤ 11 + rest.length at h
    by_cases hset : mask &&& 0x80 ≠ 0
    · rw [if_pos hset] at h
      match rest, h with
      | p :: q :: rest, _ =>
        obtain ⟨v, hv⟩ : ∃ v : UInt16, u16Bytes v = [w, x] := by
          obtain ⟨hw, hx⟩ := (u16_of_bytes _ w x).mp rfl
          exact ⟨_, by rw [u16Bytes, ← hw, ← hx]⟩
        refine ⟨⟨lcid, ⟨⟨⟨mode⟩, ⟨crcType⟩⟩⟩, ⟨a, b, c, some v, y, z, p, q⟩⟩, _,
          ⟨mask, iff_of_true hset rfl, rfl⟩, rest, ?_⟩
        unfold Exchange.wire PDCPConfig.wire
        dsimp only [Option.elim]
        rw [hv]
        rfl
    · exact ⟨⟨lcid, ⟨⟨⟨mode⟩, ⟨crcType⟩⟩⟩, ⟨a, b, c, none, w, x, y, z⟩⟩, _,
        ⟨mask, iff_of_false hset Bool.false_ne_true, rfl⟩, rest, rfl⟩

/-- **A packet is read** iff it has the bytes that its type and its mask call for. -/
theorem decodePer_isSome_iff (old : Rrc) (bytes : List UInt8) :
    (old.decodePer.run bytes).isSome = true ↔ neededBytes bytes ≤ bytes.length := by
  have hdec := Rrc.decodePer_decodes old
  constructor
  · intro h
    obtain ⟨⟨m, rest⟩, hrun⟩ := Option.isSome_iff_exists.mp h
    obtain ⟨front, hwire, rfl⟩ := (hdec bytes m rest).mp hrun
    rw [← hwire.length_eq rest, List.length_append]
    exact Nat.le_add_right _ _
  · intro h
    have hread : ∃ m front, Rrc.IsWire old.message m front ∧ front <+: bytes := by
      match bytes, h with
      | [], h => exact absurd h (by decide)
      | [id], h =>
        change (if 1 < (0 : UInt8) then 2 else if (0 : UInt8) &&& 0x80 ≠ 0 then 15 else 13) ≤ 1 at h
        exact absurd h (by decide)
      | id :: type :: more, h =>
        by_cases htype : 1 < type
        · exact ⟨_, _, .unknown id htype, more, rfl⟩
        · change (if 1 < type then 2 else if more.getD 3 0 &&& 0x80 ≠ 0 then 15 else 13) ≤
            more.length + 2 at h
          rw [if_neg htype] at h
          obtain ⟨x, front, hx, hfront⟩ := @Exchange.isWire_of_length more
            (by split_ifs at h ⊢ <;> omega)
          have hpre : id :: type :: front <+: id :: type :: more := by
            simpa using hfront
          have hcases : type = 0 ∨ type = 1 := by
            have hle : type.toNat ≤ 1 := by
              rw [UInt8.lt_iff_toNat_lt] at htype
              exact Nat.not_lt.mp htype
            rcases Nat.le_one_iff_eq_zero_or_eq_one.mp hle with h0 | h1
            · exact Or.inl (UInt8.toNat_inj.mp h0)
            · exact Or.inr (UInt8.toNat_inj.mp h1)
          rcases hcases with rfl | rfl
          · exact ⟨_, _, .exchangeRequest id hx, hpre⟩
          · exact ⟨_, _, .exchangeResponse id hx, hpre⟩
    obtain ⟨m, front, hwire, rest, rfl⟩ := hread
    rw [hdec.accepts hwire rest]
    rfl

/-- The mask that is read can be the one that is written. -/
theorem Exchange.wire_mask_iff {x : Exchange} {mask : UInt8}
    (h : mask &&& 0x80 ≠ 0 ↔ x.pdcpConfig.maxSnDistance.isSome = true) :
    x.wire x.pdcpConfig.mask = x.wire mask ↔ mask = 0 ∨ mask = 0x80 := by
  have hinj : x.wire x.pdcpConfig.mask = x.wire mask ↔ x.pdcpConfig.mask = mask := by
    simp [Exchange.wire, PDCPConfig.wire]
  rw [hinj]
  unfold PDCPConfig.mask
  constructor
  · rintro rfl
    split_ifs
    · exact Or.inr rfl
    · exact Or.inl rfl
  · rintro (rfl | rfl)
    · rw [if_neg (fun hs => h.mpr hs (by decide))]
    · rw [if_pos (h.mp (by decide))]

/-- **When the bytes that were read are those that would be written**: the type is known,
and the mask has no other bit. -/
theorem decode_reencode_iff {old m : Rrc} {bytes rest : List UInt8}
    (h : old.decodePer.run bytes = some (m, rest)) :
    bytes = m.bytes ++ rest ↔
      bytes.getD 1 0 ≤ 1 ∧ (bytes.getD 5 0 = 0 ∨ bytes.getD 5 0 = 0x80) := by
  obtain ⟨front, hwire, rfl⟩ := (Rrc.decodePer_decodes old bytes m rest).mp h
  rw [List.append_left_inj]
  have hexchange : ∀ {x : Exchange} {bytes : List UInt8} {id type : UInt8}, x.IsWire bytes →
      type ≤ 1 → (id :: type :: bytes = id :: type :: x.wire x.pdcpConfig.mask ↔
        (id :: type :: bytes ++ rest).getD 1 0 ≤ 1 ∧
          ((id :: type :: bytes ++ rest).getD 5 0 = 0 ∨
            (id :: type :: bytes ++ rest).getD 5 0 = 0x80)) := by
    rintro x bytes id type ⟨mask, hmask, rfl⟩ htype
    rw [List.cons_inj_right, List.cons_inj_right, eq_comm, Exchange.wire_mask_iff hmask]
    exact ⟨fun h => ⟨htype, h⟩, fun h => h.2⟩
  cases hwire with
  | exchangeRequest id hx => exact hexchange hx (by decide)
  | exchangeResponse id hx => exact hexchange hx (by decide)
  | unknown id htype =>
    rename_i type
    refine iff_of_false (fun heq => ?_) fun hknown => ?_
    · -- a message is longer than that
      have hlong := Rrc.le_bytes_length ⟨id, old.message⟩
      rw [← heq] at hlong
      exact absurd hlong (by decide : ¬ 13 ≤ 2)
    · exact absurd hknown.1 (UInt8.not_le.mpr htype)

/-- A mask with a second bit: what is read is a request all the same, written with another
mask. -/
theorem decode_reencode_mask :
    let bytes : List UInt8 := [7, 0, 3, 2, 1, 0xC0, 1, 1, 0, 44, 1, 0, 0, 0, 0]
    ¬ bytes = Rrc.bytes ⟨7, .exchangeRequest { lcid := 3, llcConfig := ⟨⟨⟨2⟩, ⟨1⟩⟩⟩, pdcpConfig :=
      { allowRLF := 1, allowSegmentation := 1, maxSnDistance := some 300 } }⟩ ++ [] :=
  fun h => absurd ((@decode_reencode_iff {} _ _ _ (by decide)).mp h) (by decide)

end Winject.Interface
