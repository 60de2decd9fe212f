import Winject.Frames.LlcPdu
import Winject.Lib.Remainder

/-!
# The checksum template (`crc.hpp`)

`Crc` are the arguments of the template, with 32 bits and `uint32_t`.  `operator`
takes a byte at a time through a table of 256 entries, each of them made by eight
steps of a division; `reference` feeds the bits one by one to a shift register.

## Main results

* `crc_eq_reference` — the table and the shift register agree.
* `crc32_remainder` — `crc32_04C11DB7` is the remainder of the message.
* `operator_burst` — every change within 32 consecutive bits is seen.
-/

namespace Winject.Frames

open Winject.Lib.ShiftRegister
open Winject.Lib.Remainder

/-! ## The template -/

/-- The arguments of `crc`; `POLYNOMIAL` is a `size_t`. -/
structure Crc where
  polynomial : UInt64
  refIn : Bool
  refOut : Bool
  initial : UInt32 := 0
  final : UInt32 := 0
  deriving DecidableEq, Repr

/-- One iteration of the loop of `reflector`, on `data` and `reflection`. -/
def reflectorStep (n : Nat) (s : UInt64 × UInt64) (bit : Nat) : UInt64 × UInt64 :=
  let (data, reflection) := s
  if data &&& 1 ≠ 0 then
    (data >>> 1, reflection ||| ((1 : UInt64) <<< UInt64.ofNat (n - 1 - bit)))
  else (data >>> 1, reflection)

/-- `reflector`. -/
def reflector (data : UInt64) (n : Nat) : UInt64 :=
  ((List.range n).foldl (reflectorStep n) (data, 0)).2

namespace Crc

/-- One step of the division for `crc_rem_lut`; `POLYNOMIAL` is added in 64 bits. -/
def remStep (p : Crc) (crcRem : UInt32) : UInt32 :=
  if crcRem &&& 0x80000000 ≠ 0 then ((crcRem <<< 1).toUInt64 ^^^ p.polynomial).toUInt32
  else crcRem <<< 1

/-- The entry of `crc_rem_lut` for a byte. -/
def crcRemLut (p : Crc) (div : UInt8) : UInt32 := p.remStep^[8] (div.toUInt32 <<< 24)

/-- One iteration of the loop over the bytes. -/
def byteStep (p : Crc) (crcv : UInt32) (data : UInt8) : UInt32 :=
  let c := if p.refIn then (reflector data.toUInt64 8).toUInt8 else data
  let div := c ^^^ (crcv >>> 24).toUInt8
  (crcv <<< 8) ^^^ p.crcRemLut div

/-- `crc::operator()`. -/
def operator (p : Crc) (data : List UInt8) : UInt32 :=
  let crcv := data.foldl p.byteStep p.initial
  ((if p.refOut then reflector crcv.toUInt64 32 else crcv.toUInt64) ^^^
    p.final.toUInt64).toUInt32

end Crc

/-- `crc32_04C11DB7`. -/
def crc32_04C11DB7 : Crc where
  polynomial := 0x04C11DB7
  refIn := false
  refOut := false

/-! ## The reference -/

/-- The bits of a byte in the order they are processed. -/
def inputBits (refIn : Bool) (byte : UInt8) : List Bool :=
  msbs 8 (if refIn then byte.toBitVec.reverse else byte.toBitVec)

/-- The bit by bit division. -/
def Crc.reference (p : Crc) (data : List UInt8) : UInt32 :=
  let r := feedAll p.polynomial.toUInt32.toBitVec p.initial.toBitVec
    (data.flatMap (inputBits p.refIn))
  UInt32.ofBitVec (if p.refOut then r.reverse else r) ^^^ p.final

/-! ## Single bits -/

/-- Testing one bit of a word. -/
theorem and_twoPow_ne_zero_iff {w : Nat} (x : BitVec w) {i : Nat} (hi : i < w) :
    x &&& BitVec.twoPow w i ≠ 0#w ↔ x.getLsbD i = true := by
  have hpos : BitVec.twoPow w i ≠ 0#w := by
    intro h
    have hbit := congrArg (fun y => y.getLsbD i) h
    simp [hi] at hbit
  rw [BitVec.and_twoPow]
  cases x.getLsbD i <;> simp [hpos]

theorem and_one_ne_zero_iff (x : UInt64) : x &&& 1 ≠ 0 ↔ x.toBitVec.getLsbD 0 = true := by
  rw [← and_twoPow_ne_zero_iff x.toBitVec (by decide), Ne, ← UInt64.toBitVec_inj]
  rfl

theorem and_top_ne_zero_iff (x : UInt32) : x &&& 0x80000000 ≠ 0 ↔ x.toBitVec.msb = true := by
  rw [BitVec.msb_eq_getLsbD_last, ← and_twoPow_ne_zero_iff x.toBitVec (by decide), Ne,
    ← UInt32.toBitVec_inj]
  rfl

/-- Setting one bit of a word. -/
theorem getLsbD_or_shiftLeft (x : UInt64) {k : Nat} (hk : k < 64) (i : Nat) :
    (x ||| ((1 : UInt64) <<< UInt64.ofNat k)).toBitVec.getLsbD i =
      (x.toBitVec.getLsbD i || decide (i = k)) := by
  have hone : ((1 : UInt64) <<< UInt64.ofNat k).toBitVec = BitVec.twoPow 64 k := by
    rw [BitVec.twoPow_eq]
    simp [Nat.mod_eq_of_lt hk]
  rw [UInt64.toBitVec_or, hone, BitVec.getLsbD_or, BitVec.getLsbD_twoPow, decide_eq_true hk,
    Bool.true_and]
  simp only [eq_comm]

/-! ## `reflector` -/

/-- An iteration moves the lowest bit of `data` to its place. -/
theorem reflectorStep_bits {n bit : Nat} (hn : n ≤ 64) (hbit : bit < n) (s : UInt64 × UInt64) :
    (reflectorStep n s bit).1 = s.1 >>> 1 ∧
      ∀ i, (reflectorStep n s bit).2.toBitVec.getLsbD i =
        (s.2.toBitVec.getLsbD i || (decide (i = n - 1 - bit) && s.1.toBitVec.getLsbD 0)) := by
  obtain ⟨data, reflection⟩ := s
  dsimp only [reflectorStep]
  split_ifs with h
  · have hlow := (and_one_ne_zero_iff data).mp h
    refine ⟨rfl, fun i => ?_⟩
    rw [getLsbD_or_shiftLeft _ (by omega), hlow, Bool.and_true]
  · have hlow : data.toBitVec.getLsbD 0 = false := by
      rwa [and_one_ne_zero_iff, Bool.not_eq_true] at h
    refine ⟨rfl, fun i => ?_⟩
    rw [hlow, Bool.and_false, Bool.or_false]

/-- What the loop of `reflector` has done after `j` iterations. -/
theorem reflector_loop (data : UInt64) {n j : Nat} (hn : n ≤ 64) (hj : j ≤ n) :
    (∀ i, ((List.range j).foldl (reflectorStep n) (data, 0)).1.toBitVec.getLsbD i =
        data.toBitVec.getLsbD (i + j)) ∧
      ∀ i, ((List.range j).foldl (reflectorStep n) (data, 0)).2.toBitVec.getLsbD i =
        (decide (i < n ∧ n ≤ i + j) && data.toBitVec.getLsbD (n - 1 - i)) := by
  induction j with
  | zero =>
      refine ⟨fun i => rfl, fun i => ?_⟩
      have hout : ¬ (i < n ∧ n ≤ i + 0) := by omega
      rw [decide_eq_false hout, Bool.false_and]
      simp
  | succ j ih =>
      obtain ⟨hdata, hrefl⟩ := ih (Nat.le_of_succ_le hj)
      rw [List.range_succ, List.foldl_append]
      generalize (List.range j).foldl (reflectorStep n) (data, 0) = s at hdata hrefl
      obtain ⟨hfst, hsnd⟩ := reflectorStep_bits hn hj s
      constructor
      · intro i
        show (reflectorStep n s j).1.toBitVec.getLsbD i = _
        rw [hfst, Nat.add_comm j 1, ← Nat.add_assoc, ← hdata]
        simp [Nat.add_comm]
      · intro i
        show (reflectorStep n s j).2.toBitVec.getLsbD i = _
        rw [hsnd, hrefl, hdata, Nat.zero_add]
        rcases Nat.lt_trichotomy i (n - 1 - j) with hi | rfl | hi
        · have hout : ¬ (i < n ∧ n ≤ i + (j + 1)) := by omega
          have hout' : ¬ (i < n ∧ n ≤ i + j) := by omega
          simp [hout, hout', Nat.ne_of_lt hi]
        · have hnow : n - 1 - j < n ∧ n ≤ n - 1 - j + (j + 1) := by omega
          have hbit : n - 1 - (n - 1 - j) = j := by omega
          simp [hnow, hbit]
        · have hiff : i < n ∧ n ≤ i + j ↔ i < n ∧ n ≤ i + (j + 1) := by omega
          simp [hiff, Nat.ne_of_gt hi]

/-- `reflector` reverses the lowest `n` bits. -/
theorem getLsbD_reflector (data : UInt64) {n : Nat} (hn : n ≤ 64) (i : Nat) :
    (reflector data n).toBitVec.getLsbD i =
      (decide (i < n) && data.toBitVec.getLsbD (n - 1 - i)) := by
  rw [reflector, (reflector_loop data hn (Nat.le_refl n)).2]
  simp

/-- A value of `n` bits is reversed. -/
theorem reflector_setWidth {n : Nat} (hn : n ≤ 64) {data : UInt64} {x : BitVec n}
    (hdata : data.toBitVec = x.setWidth 64) :
    (reflector data n).toBitVec.setWidth n = x.reverse := by
  apply BitVec.eq_of_getLsbD_eq
  intro i hi
  rw [BitVec.getLsbD_reverse, BitVec.getMsbD_eq_getLsbD, BitVec.getLsbD_setWidth,
    getLsbD_reflector data hn, hdata, BitVec.getLsbD_setWidth]
  have hlow : n - 1 - i < 64 := by omega
  simp [hi, hlow]

/-- Eight bits are reversed as a byte. -/
theorem reflector_byte (x : UInt8) :
    (reflector x.toUInt64 8).toUInt8.toBitVec = x.toBitVec.reverse := by
  rw [UInt64.toBitVec_toUInt8]
  exact reflector_setWidth (by decide) (UInt8.toBitVec_toUInt64 x)

/-- Thirty-two bits are reversed as a word. -/
theorem reflector_word (x : UInt32) :
    (reflector x.toUInt64 32).toUInt32.toBitVec = x.toBitVec.reverse := by
  rw [UInt64.toBitVec_toUInt32]
  exact reflector_setWidth (by decide) (UInt32.toBitVec_toUInt64 x)

/-! ## The table -/

namespace Crc

/-- The polynomial that `crc` works with. -/
def poly (p : Crc) : BitVec 32 := p.polynomial.toUInt32.toBitVec

theorem remStep_toBitVec (p : Crc) (rem : UInt32) :
    (p.remStep rem).toBitVec = shift p.poly rem.toBitVec := by
  have hshift : (rem <<< 1).toBitVec = rem.toBitVec <<< 1 := by simp
  unfold remStep shift
  split_ifs with hrem hmsb hmsb
  · rw [UInt64.toUInt32_xor, UInt32.toUInt32_toUInt64, UInt32.toBitVec_xor, hshift]
    rfl
  · exact absurd ((and_top_ne_zero_iff rem).mp hrem) hmsb
  · exact absurd ((and_top_ne_zero_iff rem).mpr hmsb) hrem
  · exact hshift

/-- An entry of `crc_rem_lut` is what its byte leaves behind. -/
theorem crcRemLut_toBitVec (p : Crc) (div : UInt8) :
    (p.crcRemLut div).toBitVec = tableEntry p.poly div.toBitVec := by
  have hiter : ∀ (k : Nat) (rem : UInt32),
      (p.remStep^[k] rem).toBitVec = (shift p.poly)^[k] rem.toBitVec := by
    intro k
    induction k with
    | zero => exact fun rem => rfl
    | succ k ih =>
        intro rem
        rw [Function.iterate_succ_apply, Function.iterate_succ_apply, ih, remStep_toBitVec]
  rw [crcRemLut, hiter, tableEntry]
  simp

/-- A byte feeds its bits to the register. -/
theorem byteStep_toBitVec (p : Crc) (crcv : UInt32) (data : UInt8) :
    (p.byteStep crcv data).toBitVec =
      feedAll p.poly crcv.toBitVec (inputBits p.refIn data) := by
  have hbyte : ∀ c : UInt8,
      ((crcv <<< 8) ^^^ p.crcRemLut (c ^^^ (crcv >>> 24).toUInt8)).toBitVec =
        feedAll p.poly crcv.toBitVec (msbs 8 c.toBitVec) := by
    intro c
    rw [feedAll_table p.poly crcv.toBitVec (by decide), UInt32.toBitVec_xor,
      crcRemLut_toBitVec]
    simp
  unfold byteStep inputBits
  cases p.refIn
  · exact hbyte data
  · rw [← reflector_byte]
    exact hbyte _

theorem bytes_toBitVec (p : Crc) (data : List UInt8) (crcv : UInt32) :
    (data.foldl p.byteStep crcv).toBitVec =
      feedAll p.poly crcv.toBitVec (data.flatMap (inputBits p.refIn)) := by
  induction data generalizing crcv with
  | nil => rfl
  | cons byte data ih =>
      rw [List.foldl_cons, ih, byteStep_toBitVec, List.flatMap_cons, feedAll_append]

end Crc

/-- The source's test string. -/
example : ({ polynomial := 0x04C11DB7, refIn := true, refOut := true,
             initial := 0xFAFAFAFA, final := 0xFCFCFCFC } : Crc).operator
    [104, 101, 108, 108, 111, 32, 119, 111, 114, 108, 100, 33] = 0xC4C04703 := by
  decide +kernel

/-! ## The division -/

/-- **The template computes the bit by bit division.** -/
theorem crc_eq_reference (p : Crc) (data : List UInt8) : p.operator data = p.reference data := by
  have hcrcv := p.bytes_toBitVec data p.initial
  unfold Crc.operator Crc.reference
  apply UInt32.toBitVec_inj.mp
  rw [UInt64.toUInt32_xor, UInt32.toUInt32_toUInt64, UInt32.toBitVec_xor, UInt32.toBitVec_xor]
  congr 1
  cases p.refOut
  · rw [if_neg Bool.false_ne_true, if_neg Bool.false_ne_true, UInt32.toUInt32_toUInt64]
    exact hcrcv
  · rw [if_pos rfl, if_pos rfl, reflector_word, hcrcv]
    rfl

/-- `crc32` of the LLC is the instance of the template. -/
theorem crc32_eq_operator (data : List UInt8) : crc32 data = crc32_04C11DB7.operator data := by
  have hstep : crcShift = crc32_04C11DB7.remStep := by
    funext rem
    unfold crcShift Crc.remStep
    rw [UInt64.toUInt32_xor, UInt32.toUInt32_toUInt64]
    rfl
  have hbyte : (fun (crcv : UInt32) (c : UInt8) =>
      (crcv <<< 8) ^^^ crcRemLut (c ^^^ (crcv >>> 24).toUInt8)) = crc32_04C11DB7.byteStep := by
    funext crcv c
    unfold crcRemLut
    rw [hstep]
    rfl
  rw [crc32, hbyte, Crc.operator, UInt64.toUInt32_xor, UInt32.toUInt32_toUInt64]
  simp [crc32_04C11DB7]

/-- **A table look-up for each byte is the bit by bit division**, for all arguments of
the template and for `crc32_04C11DB7` in particular. -/
theorem table_driven_is_division (p : Crc) (data : List UInt8) :
    p.operator data = p.reference data ∧ crc32 data = crc32_04C11DB7.reference data :=
  ⟨crc_eq_reference p data, by rw [crc32_eq_operator, crc_eq_reference]⟩

/-- The bits of a byte string, byte by byte, the most significant one first. -/
def messageBits (data : List UInt8) : List Bool := data.flatMap fun byte => msbs 8 byte.toBitVec

/-- `crc32_04C11DB7` is the remainder of the message, moved up by 32 places, by
`X ^ 32 + 0x04C11DB7`. -/
theorem crc32_remainder (data : List UInt8) :
    toPoly (crc32 data).toBitVec =
      (ofBits (messageBits data) * Polynomial.X ^ 32) %ₘ divisor crc32_04C11DB7.poly := by
  have hreg : (crc32 data).toBitVec = feedAll crc32_04C11DB7.poly 0#32 (messageBits data) := by
    rw [crc32_eq_operator, crc_eq_reference]
    unfold Crc.reference
    exact BitVec.xor_zero
  have hzero : toPoly 0#32 = 0 := by
    simp [toPoly]
  rw [hreg, toPoly_feedAll, hzero, zero_mul, zero_add]

/-! ## Bursts -/

theorem reverse_injective {w : Nat} : Function.Injective (BitVec.reverse : BitVec w → BitVec w) :=
  Function.LeftInverse.injective fun _ => BitVec.reverse_reverse_eq

theorem length_flatMap_inputBits (refIn : Bool) (data : List UInt8) :
    (data.flatMap (inputBits refIn)).length = data.length * 8 := by
  simp [List.length_flatMap, inputBits]

/-- The bits of a byte tell it. -/
theorem inputBits_injective (refIn : Bool) : Function.Injective (inputBits refIn) := by
  intro x y h
  apply UInt8.toBitVec_inj.mp
  cases refIn
  · exact msbs_injective h
  · exact reverse_injective (msbs_injective h)

/-- The bits of a byte string tell it. -/
theorem flatMap_inputBits_inj (refIn : Bool) :
    ∀ {xs ys : List UInt8}, xs.length = ys.length →
      xs.flatMap (inputBits refIn) = ys.flatMap (inputBits refIn) → xs = ys
  | [], [], _, _ => rfl
  | x :: xs, y :: ys, hlen, h => by
      have hbyte : (inputBits refIn x).length = (inputBits refIn y).length := by
        rw [inputBits, inputBits, length_msbs, length_msbs]
      obtain ⟨hhead, htail⟩ := List.append_inj h hbyte
      rw [inputBits_injective refIn hhead,
        flatMap_inputBits_inj refIn (Nat.succ_inj.mp hlen) htail]

/-- The value tells the register. -/
theorem reference_inj {p : Crc} {xs ys : List UInt8} (h : p.reference xs = p.reference ys) :
    feedAll p.poly p.initial.toBitVec (xs.flatMap (inputBits p.refIn)) =
      feedAll p.poly p.initial.toBitVec (ys.flatMap (inputBits p.refIn)) := by
  have hreg := (BitVec.xor_left_inj p.final.toBitVec).mp (congrArg UInt32.toBitVec h)
  cases hout : p.refOut <;> rw [hout] at hreg
  · exact hreg
  · exact reverse_injective hreg

/-- **Every burst is seen.**  With an odd polynomial two byte strings of one length get
different values if they differ, but within 32 consecutive bits only. -/
theorem operator_burst {p : Crc} (hodd : p.poly.getLsbD 0 = true) {xs ys : List UInt8}
    (hlen : xs.length = ys.length) (hne : xs ≠ ys) {s : Nat}
    (hburst : ∀ i, (xs.flatMap (inputBits p.refIn))[i]? ≠ (ys.flatMap (inputBits p.refIn))[i]? →
      s ≤ i ∧ i < s + 32) : p.operator xs ≠ p.operator ys := by
  have hbits : (xs.flatMap (inputBits p.refIn)).length =
      (ys.flatMap (inputBits p.refIn)).length := by
    rw [length_flatMap_inputBits, length_flatMap_inputBits, hlen]
  rw [crc_eq_reference, crc_eq_reference]
  intro h
  apply feedAll_ne_of_burst hodd p.initial.toBitVec hbits ?_ hburst (reference_inj h)
  exact fun hsame => hne (flatMap_inputBits_inj p.refIn hlen hsame)

/-- **`crc32_04C11DB7` sees every change within 32 consecutive bits** of a byte string. -/
theorem crc32_sees_bursts {xs ys : List UInt8} (hlen : xs.length = ys.length) (hne : xs ≠ ys)
    {s : Nat} (hburst : ∀ i, (messageBits xs)[i]? ≠ (messageBits ys)[i]? → s ≤ i ∧ i < s + 32) :
    crc32_04C11DB7.operator xs ≠ crc32_04C11DB7.operator ys :=
  operator_burst (by decide) hlen hne hburst

/-- The last bit of the first byte and the last but one of the fifth. -/
theorem crc32_sees_two_bits : crc32_04C11DB7.operator [1, 0, 0, 0, 2] ≠
    crc32_04C11DB7.operator [0, 0, 0, 0, 0] := by
  refine crc32_sees_bursts (s := 7) rfl (by decide) fun i hdiff => ?_
  by_cases hi : i < 40
  · have hinside : ∀ i < 40, (messageBits [1, 0, 0, 0, 2])[i]? ≠
        (messageBits [0, 0, 0, 0, 0])[i]? → 7 ≤ i ∧ i < 7 + 32 := by decide
    exact hinside i hi hdiff
  · have hnone : ∀ data : List UInt8, data.length = 5 → (messageBits data)[i]? = none := by
      intro data hdata
      apply List.getElem?_eq_none
      show (data.flatMap (inputBits false)).length ≤ i
      rw [length_flatMap_inputBits, hdata]
      omega
    exact absurd ((hnone _ rfl).trans (hnone _ rfl).symm) hdiff

end Winject.Frames
