import Mathlib.Data.List.Basic
import Winject.Lib.Bytes

/-!
# The LLC header codec (`frames/basic_llc.hpp`) and its checksum (`crc.hpp`)

```
 00 | LLC SN                        |
 01 | LCID          | A | SIZEH     |
 02 | SIZEL                         |
 03 | CRC                           | CRCSZ
 HDR_SZ | Payload                   |
```

`LlcPdu` is `basic_llc_t`: the bytes from its base on, the size it was given and
the size of the checksum.  The accessors work on single bytes with a mask and a
shift, so a store changes only the bits of its own field; the lemmas say what each
field reads as behind each store.

## Main results

* `get_set_of_ne`, `get_set_of_mask`, `get_set_self` — a masked store and the bits of
  the other fields.
* `getSIZE_setSIZE` — a size below 2048 is read back.
* `getLCID_setLCID` — an identifier is read back modulo 16.
-/

namespace Winject.Frames

open Winject.Lib.Bytes

/-! ## The checksum -/

/-- One bit of the division of `crc_rem_lut`. -/
def crcShift (rem : UInt32) : UInt32 :=
  if rem &&& 0x80000000 ≠ 0 then (rem <<< 1) ^^^ 0x04C11DB7 else rem <<< 1

/-- The entry of `crc_rem_lut` for a byte. -/
def crcRemLut (div : UInt8) : UInt32 := crcShift^[8] (div.toUInt32 <<< 24)

/-- `crc32_04C11DB7`: no reflection, initial and final value zero. -/
def crc32 (data : List UInt8) : UInt32 :=
  data.foldl
    (fun crcv c => (crcv <<< 8) ^^^ crcRemLut (c ^^^ (crcv >>> 24).toUInt8)) 0

/-- The four bytes of a checksum in network order. -/
def be32 (v : UInt32) : List UInt8 :=
  [(v >>> 24).toUInt8, (v >>> 16).toUInt8, (v >>> 8).toUInt8, v.toUInt8]

/-- Load the big-endian 32-bit word at index `p`. -/
def readBe32 (bs : List UInt8) (p : Nat) : UInt32 :=
  ((bs.getD p 0).toUInt32 <<< 24) ||| ((bs.getD (p + 1) 0).toUInt32 <<< 16) |||
    ((bs.getD (p + 2) 0).toUInt32 <<< 8) ||| (bs.getD (p + 3) 0).toUInt32

/-! ## The accessors -/

/-- `basic_llc_t`: the bytes from the base on. -/
structure LlcPdu where
  base : List UInt8
  maxSize : Nat
  crcSize : Nat
  deriving DecidableEq, Repr

namespace LlcPdu

/-- The constructor with a base; the size is stored in 16 bits. -/
def new (base : List UInt8) (size crcSize : Nat) : LlcPdu := ⟨base, size % 65536, crcSize⟩

/-- `basic_llc_t::get`. -/
def get (p : LlcPdu) (index : Nat) (mask shift : UInt8) : UInt8 :=
  (p.base.getD index 0 &&& mask) >>> shift

/-- `basic_llc_t::set`. -/
def set (p : LlcPdu) (index : Nat) (mask shift val : UInt8) : LlcPdu :=
  { p with
    base := p.base.set index
      ((p.base.getD index 0 &&& ~~~mask) ||| ((val <<< shift) &&& mask)) }

/-- `basic_llc_t::get_SN`. -/
def getSN (p : LlcPdu) : UInt8 := p.get 0 0xFF 0

/-- `basic_llc_t::set_SN`. -/
def setSN (p : LlcPdu) (sn : UInt8) : LlcPdu := p.set 0 0xFF 0 sn

/-- `basic_llc_t::get_LCID`. -/
def getLCID (p : LlcPdu) : UInt8 := p.get 1 0xF0 4

/-- `basic_llc_t::set_LCID`. -/
def setLCID (p : LlcPdu) (lcid : UInt8) : LlcPdu := p.set 1 0xF0 4 lcid

/-- `basic_llc_t::get_A`. -/
def getA (p : LlcPdu) : Bool := p.get 1 0x08 3 != 0

/-- `basic_llc_t::set_A`. -/
def setA (p : LlcPdu) (val : Bool) : LlcPdu := p.set 1 0x08 3 (if val then 1 else 0)

/-- `basic_llc_t::get_SIZE`. -/
def getSIZE (p : LlcPdu) : Nat := (p.get 1 0x07 0).toNat * 256 + (p.get 2 0xFF 0).toNat

/-- `basic_llc_t::set_SIZE`. -/
def setSIZE (p : LlcPdu) (size : Nat) : LlcPdu :=
  (p.set 1 0x07 0 (UInt8.ofNat (size / 256))).set 2 0xFF 0 (UInt8.ofNat size)

/-- `basic_llc_t::get_header_size`. -/
def getHeaderSize (p : LlcPdu) : Nat := 3 + p.crcSize

/-- `basic_llc_t::get_payload_size`, a difference in 16 bits. -/
def getPayloadSize (p : LlcPdu) : Nat := (p.getSIZE + 65536 - p.getHeaderSize) % 65536

/-- `basic_llc_t::set_payload_size`, a sum in 16 bits. -/
def setPayloadSize (p : LlcPdu) (size : Nat) : LlcPdu :=
  p.setSIZE ((size + p.getHeaderSize) % 65536)

/-- `basic_llc_t::is_valid`. -/
def isValid (p : LlcPdu) : Bool := p.maxSize ≥ p.getSIZE

/-- `basic_llc_t::is_header_valid`. -/
def isHeaderValid (p : LlcPdu) : Bool := p.maxSize ≥ p.getHeaderSize

/-- A store through the pointer `get_CRC`. -/
def storeCRC (p : LlcPdu) (bytes : List UInt8) : LlcPdu := { p with base := poke p.base 3 bytes }

/-- A store through the pointer `get_payload`. -/
def storePayload (p : LlcPdu) (bytes : List UInt8) : LlcPdu :=
  { p with base := poke p.base p.getHeaderSize bytes }

/-! ## Stores and the fields they leave alone -/

/-- A masked store reads back under its mask. -/
theorem mask_self (b x m : UInt8) : ((b &&& ~~~m) ||| (x &&& m)) &&& m = x &&& m := by
  apply UInt8.eq_of_toBitVec_eq
  ext i hi
  simp only [UInt8.toBitVec_and, UInt8.toBitVec_or, UInt8.toBitVec_not, BitVec.getElem_and,
    BitVec.getElem_or, BitVec.getElem_not]
  cases b.toBitVec[i] <;> cases x.toBitVec[i] <;> cases m.toBitVec[i] <;> rfl

/-- A masked store leaves the bits of a disjoint mask alone. -/
theorem mask_other (b x : UInt8) {m k : UInt8} (h : m &&& k = 0) :
    ((b &&& ~~~m) ||| (x &&& m)) &&& k = b &&& k := by
  apply UInt8.eq_of_toBitVec_eq
  have hbits := congrArg UInt8.toBitVec h
  ext i hi
  have hbit : (m.toBitVec[i] && k.toBitVec[i]) = false := by
    have hget := congrArg (fun v : BitVec 8 => v[i]) hbits
    simpa only [UInt8.toBitVec_and, BitVec.getElem_and, UInt8.toBitVec_ofNat,
      BitVec.getElem_zero] using hget
  simp only [UInt8.toBitVec_and, UInt8.toBitVec_or, UInt8.toBitVec_not, BitVec.getElem_and,
    BitVec.getElem_or, BitVec.getElem_not]
  revert hbit
  cases b.toBitVec[i] <;> cases x.toBitVec[i] <;> cases m.toBitVec[i] <;>
    cases k.toBitVec[i] <;> decide

/-- A store in another byte. -/
theorem get_set_of_ne {p : LlcPdu} {i j : Nat} (hij : i ≠ j) (m s v m' s' : UInt8) :
    (p.set i m s v).get j m' s' = p.get j m' s' := by
  unfold get set
  rw [List.getD_eq_getElem?_getD, List.getElem?_set_ne hij, ← List.getD_eq_getElem?_getD]

/-- A store of other bits in the same byte. -/
theorem get_set_of_mask {p : LlcPdu} (i : Nat) {m k : UInt8} (h : m &&& k = 0)
    (s v s' : UInt8) : (p.set i m s v).get i k s' = p.get i k s' := by
  unfold get set
  by_cases hi : i < p.base.length
  · rw [List.getD_eq_getElem _ 0 (by rwa [List.length_set]), List.getElem_set_self,
      mask_other _ _ h]
  · rw [List.getD_eq_default _ _ (by rw [List.length_set]; omega),
      List.getD_eq_default _ _ (by omega)]

/-- The field that was stored. -/
theorem get_set_self {p : LlcPdu} {i : Nat} (hi : i < p.base.length) (m s v : UInt8) :
    (p.set i m s v).get i m s = ((v <<< s) &&& m) >>> s := by
  unfold get set
  rw [List.getD_eq_getElem _ 0 (by rwa [List.length_set]), List.getElem_set_self, mask_self]

@[simp] theorem set_length (p : LlcPdu) (i : Nat) (m s v : UInt8) :
    (p.set i m s v).base.length = p.base.length := List.length_set ..

/-- Stores behind the header bytes. -/
theorem get_storeCRC {p : LlcPdu} {i : Nat} (hi : i < 3) (bytes : List UInt8) (m s : UInt8) :
    (p.storeCRC bytes).get i m s = p.get i m s := by
  unfold get storeCRC
  rw [List.getD_eq_getElem?_getD, poke_getElem?_of_lt hi, ← List.getD_eq_getElem?_getD]

/-- Stores into the payload do not reach the header bytes. -/
theorem get_storePayload {p : LlcPdu} {i : Nat} (hi : i < 3) (bytes : List UInt8)
    (m s : UInt8) : (p.storePayload bytes).get i m s = p.get i m s := by
  have hlt : i < p.getHeaderSize := by
    unfold getHeaderSize
    omega
  unfold get storePayload
  rw [List.getD_eq_getElem?_getD, poke_getElem?_of_lt hlt, ← List.getD_eq_getElem?_getD]

@[simp] theorem getA_setSN (p : LlcPdu) (sn : UInt8) : (p.setSN sn).getA = p.getA := by
  unfold getA setSN
  rw [get_set_of_ne (by decide)]

@[simp] theorem getA_storeCRC (p : LlcPdu) (bytes : List UInt8) :
    (p.storeCRC bytes).getA = p.getA := by
  unfold getA
  rw [get_storeCRC (by decide)]

@[simp] theorem getSIZE_setSN (p : LlcPdu) (sn : UInt8) : (p.setSN sn).getSIZE = p.getSIZE := by
  unfold getSIZE setSN
  rw [get_set_of_ne (by decide), get_set_of_ne (by decide)]

@[simp] theorem getSIZE_storeCRC (p : LlcPdu) (bytes : List UInt8) :
    (p.storeCRC bytes).getSIZE = p.getSIZE := by
  unfold getSIZE
  rw [get_storeCRC (by decide), get_storeCRC (by decide)]

@[simp] theorem getSIZE_setA (p : LlcPdu) (val : Bool) : (p.setA val).getSIZE = p.getSIZE := by
  unfold getSIZE setA
  rw [get_set_of_mask 1 (by decide), get_set_of_ne (by decide)]

@[simp] theorem getSIZE_setLCID (p : LlcPdu) (lcid : UInt8) :
    (p.setLCID lcid).getSIZE = p.getSIZE := by
  unfold getSIZE setLCID
  rw [get_set_of_mask 1 (by decide), get_set_of_ne (by decide)]

@[simp] theorem getLCID_setSN (p : LlcPdu) (sn : UInt8) : (p.setSN sn).getLCID = p.getLCID := by
  unfold getLCID setSN
  rw [get_set_of_ne (by decide)]

@[simp] theorem getLCID_setA (p : LlcPdu) (val : Bool) : (p.setA val).getLCID = p.getLCID := by
  unfold getLCID setA
  rw [get_set_of_mask 1 (by decide)]

@[simp] theorem getLCID_setSIZE (p : LlcPdu) (size : Nat) :
    (p.setSIZE size).getLCID = p.getLCID := by
  unfold getLCID setSIZE
  rw [get_set_of_ne (by decide), get_set_of_mask 1 (by decide)]

@[simp] theorem getLCID_storeCRC (p : LlcPdu) (bytes : List UInt8) :
    (p.storeCRC bytes).getLCID = p.getLCID := by
  unfold getLCID
  rw [get_storeCRC (by decide)]

@[simp] theorem getLCID_storePayload (p : LlcPdu) (bytes : List UInt8) :
    (p.storePayload bytes).getLCID = p.getLCID := by
  unfold getLCID
  rw [get_storePayload (by decide)]

/-! ## The fields that are stored -/

/-- The three bits of `SIZEH`. -/
theorem low3 (v : UInt8) : (((v <<< 0) &&& 7) >>> 0).toNat = v.toNat % 8 := by
  have hand : v.toNat &&& 7 = v.toNat % 8 := Nat.and_two_pow_sub_one_eq_mod v.toNat 3
  rw [UInt8.shiftLeft_zero, UInt8.shiftRight_zero, UInt8.toNat_and]
  exact hand

theorem getSIZE_setSIZE {p : LlcPdu} {size : Nat} (hlen : 3 ≤ p.base.length)
    (hsize : size < 2048) : (p.setSIZE size).getSIZE = size := by
  unfold getSIZE setSIZE
  rw [get_set_self (by rw [set_length]; omega), get_set_of_ne (by decide),
    get_set_self (by omega), low3]
  have hlow : ((UInt8.ofNat size <<< 0) &&& 0xFF) >>> 0 = UInt8.ofNat size := by
    rw [UInt8.shiftLeft_zero, UInt8.shiftRight_zero]
    exact UInt8.and_neg_one
  rw [hlow, UInt8.toNat_ofNat', UInt8.toNat_ofNat']
  omega

/-- The upper half of the byte, for every identifier. -/
theorem lcid_nibble : ∀ n < 256,
    ((UInt8.ofNat n <<< 4) &&& 0xF0) >>> 4 = UInt8.ofNat n &&& 0x0F := by
  decide +kernel

theorem getLCID_setLCID {p : LlcPdu} (hlen : 3 ≤ p.base.length) (lcid : UInt8) :
    (p.setLCID lcid).getLCID = lcid &&& 0x0F := by
  unfold getLCID setLCID
  rw [get_set_self (by omega), ← UInt8.ofNat_toNat (x := lcid)]
  exact lcid_nibble lcid.toNat lcid.toNat_lt

end LlcPdu

end Winject.Frames
