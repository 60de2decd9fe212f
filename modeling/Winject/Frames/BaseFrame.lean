import Winject.Lib.Bytes
import Winject.Frames.PacketFilter
import Winject.Frames.RadiotapScan

/-!
# The frame that is sent (`AppRRC::setup_80211_base_frame`)

The buffer `tx_buff` gets a radiotap header with FLAGS, RATE, TX_FLAGS and MCS, and behind
it the header of a data frame.  Address 2 has the identifier of the sender in front of the
one of the receiver.

## Main results

* `setup80211BaseFrame_spec` — the header of the frame, at every address of the buffer.
* `accepts_baseFrame` — the filter of the peer keeps the frame.
-/

namespace Winject.Frames

open Winject.Lib.Bytes
open Winject.Lib.Alignment
open Winject.Lib.ClassicBpf

/-! ## Stores -/

namespace Memory

/-- A store of one byte. -/
def writeByte (mem : Memory) (p : Nat) (value : UInt8) : Memory := Function.update mem p value

/-- `|=` on a byte. -/
def orByte (mem : Memory) (p : Nat) (value : UInt8) : Memory := mem.writeByte p (mem p ||| value)

/-- `memset` with zero. -/
def clear (mem : Memory) (p size : Nat) : Memory :=
  fun i => if p ≤ i ∧ i < p + size then 0 else mem i

/-- A little-endian load of 16 bits. -/
def readLe16 (mem : Memory) (p : Nat) : Nat := (mem p).toNat + 256 * (mem (p + 1)).toNat

/-- A little-endian store of 32 bits. -/
def writeLe32 (mem : Memory) (p : Nat) (value : UInt32) : Memory :=
  (((mem.writeByte p value.toUInt8).writeByte (p + 1) (value >>> 8).toUInt8).writeByte (p + 2)
    (value >>> 16).toUInt8).writeByte (p + 3) (value >>> 24).toUInt8

end Memory

/-- The bytes of an address, as `address_t::set` stores them. -/
def addressBytes (value : UInt64) : List UInt8 :=
  [((value >>> 40) &&& 0xFF).toUInt8, ((value >>> 32) &&& 0xFF).toUInt8,
    ((value >>> 24) &&& 0xFF).toUInt8, ((value >>> 16) &&& 0xFF).toUInt8,
    ((value >>> 8) &&& 0xFF).toUInt8, ((value >>> 0) &&& 0xFF).toUInt8]

/-- `address_t::set`. -/
def Memory.setAddress (mem : Memory) (p : Nat) (value : UInt64) : Memory :=
  fun i => if p ≤ i ∧ i < p + 6 then (addressBytes value).getD (i - p) 0 else mem i

/-! ## The frame -/

/-- `sizeof(tx_buff)`. -/
def txBuffSize : Nat := 2048

/-- `E_TYPE_DATA`. -/
def FrameControl.typeData : UInt8 := 0b00001000

/-- `header->presence |=` with the bit of a field. -/
def Radiotap.addPresence (r : Radiotap) (m : RadiotapField) (mem : Memory) : Memory :=
  mem.writeLe32 (r.header + 4) (r.presence mem ||| ((1 : UInt32) <<< UInt32.ofNat m.bit))

/-- The values of the radiotap header of `setup_80211_base_frame`. -/
def setRadiotapValues (rate txFlags mcs : Nat) (mem : Memory) : Memory :=
  let mem := mem.writeByte rate (65 * 2)
  let mem := mem.writeLe16 txFlags (mem.readLe16 txFlags ||| 0x0008)
  let mem := mem.writeLe16 txFlags (mem.readLe16 txFlags ||| 0x0020)
  let mem := mem.orByte mcs 0x01
  let mem := mem.orByte mcs 0x02
  let mem := mem.orByte mcs 0x20
  let mem := mem.writeByte (mcs + 2) 7
  let mem := mem.orByte (mcs + 1) 0
  mem.orByte (mcs + 1) 0x20

/-- The presence word of `setup_80211_base_frame`. -/
def setPresence (radiotap : Radiotap) (mem : Memory) : Memory :=
  let mem := radiotap.addPresence .flags mem
  let mem := radiotap.addPresence .rate mem
  let mem := radiotap.addPresence .txFlags mem
  radiotap.addPresence .mcs mem

/-- The radiotap header of `setup_80211_base_frame`; `none` at a null pointer. -/
def setupRadiotap (txBuff : Nat) (old : Memory) : Option Memory :=
  let radiotap : Radiotap := ⟨txBuff⟩
  let (scan, mem) := radiotap.rescan {} true (setPresence radiotap (old.clear txBuff txBuffSize))
  match scan.members .rate, scan.members .txFlags, scan.members .mcs with
  | some rate, some txFlags, some mcs =>
      some (setRadiotapValues rate txFlags mcs (mem.writeByte radiotap.header 0))
  | _, _, _ => none

/-- The header of the 802.11 frame of `setup_80211_base_frame`. -/
def setupFrame (txBuff : Nat) (srcraw dstraw : UInt64) (mem : Memory) :
    Option (Memory × Frame80211) :=
  let txFrame := Frame80211.new (Radiotap.end_ ⟨txBuff⟩ mem) (txBuff + txBuffSize)
  let mem := mem.writeByte txFrame.frameControl FrameControl.typeData
  let txFrame := txFrame.rescan mem
  match txFrame.address1, txFrame.address2, txFrame.address3 with
  | some address1, some address2, some address3 =>
      let mem := mem.setAddress address1 0xFFFFFFFFFFFF
      let mem := mem.setAddress address2 ((srcraw <<< 24) ||| dstraw)
      some (mem.setAddress address3 0xDEADBEEFCAFE, txFrame)
  | _, _, _ => none

/-- `AppRRC::setup_80211_base_frame`, with the numbers that `hwsrc` and `hwdst` are read
as. -/
def setup80211BaseFrame (txBuff : Nat) (srcraw dstraw : UInt64) (old : Memory) :
    Option (Memory × Frame80211) :=
  (setupRadiotap txBuff old).bind (setupFrame txBuff srcraw dstraw)

/-! ## What the stores leave alone -/

namespace Memory

theorem writeByte_self (mem : Memory) (p : Nat) (value : UInt8) :
    mem.writeByte p value p = value :=
  Function.update_self ..

theorem writeByte_of_ne {mem : Memory} {p i : Nat} (h : i ≠ p) (value : UInt8) :
    mem.writeByte p value i = mem i :=
  Function.update_of_ne h ..

theorem orByte_of_ne {mem : Memory} {p i : Nat} (h : i ≠ p) (value : UInt8) :
    mem.orByte p value i = mem i :=
  writeByte_of_ne h _

theorem writeLe16_of_out {mem : Memory} {p i : Nat} (h : i < p ∨ p + 2 ≤ i) (value : Nat) :
    mem.writeLe16 p value i = mem i := by
  rw [writeLe16, Function.update_of_ne (by omega), Function.update_of_ne (by omega)]

theorem writeLe32_of_out {mem : Memory} {p i : Nat} (h : i < p ∨ p + 4 ≤ i) (value : UInt32) :
    mem.writeLe32 p value i = mem i := by
  rw [writeLe32, writeByte_of_ne (by omega), writeByte_of_ne (by omega),
    writeByte_of_ne (by omega), writeByte_of_ne (by omega)]

theorem setAddress_of_out {mem : Memory} {p i : Nat} (h : i < p ∨ p + 6 ≤ i) (value : UInt64) :
    mem.setAddress p value i = mem i :=
  if_neg (by omega)

theorem slice_setAddress_self (mem : Memory) (p : Nat) (value : UInt64) :
    (mem.setAddress p value).slice p 6 = addressBytes value := by
  simp [slice, setAddress, addressBytes, List.range_succ]

theorem slice_setAddress_of_out {mem : Memory} {p base size : Nat}
    (h : base + size ≤ p ∨ p + 6 ≤ base) (value : UInt64) :
    (mem.setAddress p value).slice base size = mem.slice base size :=
  slice_congr fun _ hlo hhi => setAddress_of_out (by omega) value

theorem clear_of_in {mem : Memory} {p size i : Nat} (hlo : p ≤ i) (hhi : i < p + size) :
    mem.clear p size i = 0 :=
  if_pos ⟨hlo, hhi⟩

/-- A word that was stored is loaded. -/
theorem readLe32_writeLe32 (mem : Memory) (p : Nat) (value : UInt32) :
    (mem.writeLe32 p value).readLe32 p = value := by
  have hbytes : (mem.writeLe32 p value).readLe32 p =
      value.toUInt8.toUInt32 ||| ((value >>> 8).toUInt8.toUInt32 <<< 8) |||
        ((value >>> 16).toUInt8.toUInt32 <<< 16) ||| ((value >>> 24).toUInt8.toUInt32 <<< 24) := by
    simp (disch := omega) only [readLe32, writeLe32, writeByte_of_ne, writeByte_self]
  rw [hbytes]
  exact word_of_bytes value

/-- A length that was stored is loaded. -/
theorem size_writeLe16 (r : Radiotap) (mem : Memory) {value : Nat} (h : value < 65536) :
    r.size (mem.writeLe16 (r.header + 2) value) = value := by
  rw [Radiotap.size, writeLe16, Function.update_of_ne (by omega), Function.update_self,
    Function.update_self, UInt8.toNat_ofNat', UInt8.toNat_ofNat']
  omega

end Memory

/-! ## The radiotap header -/

/-- The presence word of the frames that are sent. -/
theorem setPresence_presence {r : Radiotap} {mem : Memory} (h : r.presence mem = 0) :
    r.presence (setPresence r mem) = 0x00088006 := by
  have hadd : ∀ (m : RadiotapField) (mem : Memory), r.presence (r.addPresence m mem) =
      r.presence mem ||| ((1 : UInt32) <<< UInt32.ofNat m.bit) :=
    fun m mem => Memory.readLe32_writeLe32 ..
  rw [setPresence, hadd, hadd, hadd, hadd, h]
  rfl

theorem setPresence_of_out {r : Radiotap} {mem : Memory} {i : Nat}
    (h : i < r.header + 4 ∨ r.header + 8 ≤ i) : setPresence r mem i = mem i := by
  have hadd : ∀ (m : RadiotapField) (mem : Memory), r.addPresence m mem i = mem i :=
    fun m mem => Memory.writeLe32_of_out (by omega) _
  rw [setPresence, hadd, hadd, hadd, hadd]

theorem presence_clear (r : Radiotap) (old : Memory) :
    r.presence (old.clear r.header txBuffSize) = 0 := by
  have hsize : txBuffSize = 2048 := rfl
  simp (disch := omega) only [Radiotap.presence, Memory.readLe32, Memory.clear_of_in]
  rfl

/-- Where the scan of the frames that are sent finds the fields. -/
structure SentFields (r : Radiotap) (s : RadiotapScan) : Prop where
  rate : s.members .rate = some (r.header + 9)
  txFlags : s.members .txFlags = some (alignUp 2 (r.header + 10))
  mcs : s.members .mcs = some (alignUp 2 (r.header + 10) + 2)
  scanLength : s.scanLength = alignUp 2 (r.header + 10) + 5 - r.header

theorem rescan_sentFields {r : Radiotap} {mem : Memory} (h : r.presence mem = 0x00088006) :
    r.KnownFields mem ∧ SentFields r (r.rescan {} true mem).1 := by
  have hknown : r.KnownFields mem := 
    ⟨by rw [h]; decide, fun hext => absurd hext (by rw [h]; decide)⟩
  have hscan := Radiotap.rescan_scanned hknown {} true
  have hfields : r.fields mem = [.flags, .rate, .txFlags, .mcs] := by
    rw [Radiotap.fields, h]
    rfl
  have hstart : r.start mem = 8 := by
    rw [Radiotap.start, h]
    rfl
  have hone : ∀ n, alignUp 1 n = n := fun n => alignUp_of_dvd Nat.one_pos (Nat.one_dvd n)
  have hplaced : (r.rescan {} true mem).1.placed = [(.flags, r.header + 8),
      (.rate, r.header + 9), (.txFlags, alignUp 2 (r.header + 10)),
      (.mcs, alignUp 2 (r.header + 10) + 2)] := by
    rw [hscan.placed, hfields, hstart]
    simp [places, RadiotapField.abi, RadiotapField.stated, hone]
  refine ⟨hknown, ?_, ?_, ?_, ?_⟩
  · rw [hscan.members, hplaced]
    rfl
  · rw [hscan.members, hplaced]
    rfl
  · rw [hscan.members, hplaced]
    rfl
  · rw [hscan.scanLength, hfields, hstart]
    simp [placesEnd, RadiotapField.abi, RadiotapField.stated, hone]

theorem setRadiotapValues_of_out {rate txFlags mcs i : Nat} {mem : Memory} (hrate : i ≠ rate)
    (htxFlags : i < txFlags ∨ txFlags + 2 ≤ i) (hmcs : i < mcs ∨ mcs + 3 ≤ i) :
    setRadiotapValues rate txFlags mcs mem i = mem i := by
  unfold setRadiotapValues
  simp (disch := omega) only [Memory.orByte_of_ne, Memory.writeByte_of_ne,
    Memory.writeLe16_of_out]

/-- The radiotap header is written, and the buffer is clear behind it. -/
structure HeaderWritten (txBuff : Nat) (mem : Memory) : Prop where
  end_ : Radiotap.end_ ⟨txBuff⟩ mem = alignUp 2 (txBuff + 10) + 5
  clear : ∀ i, alignUp 2 (txBuff + 10) + 5 ≤ i → i < txBuff + txBuffSize → mem i = 0

theorem setupRadiotap_written (txBuff : Nat) (old : Memory) :
    ∃ mem, setupRadiotap txBuff old = some mem ∧ HeaderWritten txBuff mem := by
  have hpresence := setPresence_presence (presence_clear ⟨txBuff⟩ old)
  obtain ⟨hknown, hfields⟩ := rescan_sentFields hpresence
  have hmemory := Radiotap.rescan_memory hknown {}
  unfold setupRadiotap
  dsimp only
  rw [hfields.rate, hfields.txFlags, hfields.mcs, hmemory, hfields.scanLength]
  dsimp only
  have hle := le_alignUp 2 (txBuff + 10)
  have hlt := alignUp_lt (show 0 < 2 by decide) (txBuff + 10)
  refine ⟨_, rfl, ?_, ?_⟩
  · rw [Radiotap.end_, Radiotap.size]
    simp (disch := omega) only [setRadiotapValues_of_out, Memory.writeByte_of_ne]
    have hsize := Memory.size_writeLe16 ⟨txBuff⟩
      (setPresence ⟨txBuff⟩ (old.clear txBuff txBuffSize))
      (show alignUp 2 (txBuff + 10) + 5 - txBuff < 65536 by omega)
    rw [Radiotap.size] at hsize
    rw [hsize]
    show txBuff + _ = _
    omega
  · intro i hlo hhi
    rw [setRadiotapValues_of_out (by omega) (by omega) (by omega),
      Memory.writeByte_of_ne (by omega), Memory.writeLe16_of_out (by omega),
      setPresence_of_out (by dsimp only; omega), Memory.clear_of_in (by omega) hhi]

/-! ## The header of the frame -/

/-- The 24 bytes in front of the body. -/
def baseFrame (srcraw dstraw : UInt64) : List UInt8 :=
  [FrameControl.typeData, 0, 0, 0] ++ addressBytes 0xFFFFFFFFFFFF ++
    addressBytes ((srcraw <<< 24) ||| dstraw) ++ addressBytes 0xDEADBEEFCAFE ++ [0, 0]

theorem setupFrame_spec {txBuff : Nat} {mem : Memory} (h : HeaderWritten txBuff mem)
    (srcraw dstraw : UInt64) :
    ∃ mem' f, setupFrame txBuff srcraw dstraw mem = some (mem', f) ∧
      Radiotap.end_ ⟨txBuff⟩ mem' = alignUp 2 (txBuff + 10) + 5 ∧
      mem'.slice (alignUp 2 (txBuff + 10) + 5) 24 = baseFrame srcraw dstraw := by
  have hle := le_alignUp 2 (txBuff + 10)
  have hlt := alignUp_lt (show 0 < 2 by decide) (txBuff + 10)
  have hend := h.end_
  have hclear := h.clear
  generalize he : alignUp 2 (txBuff + 10) + 5 = e at hend hclear ⊢
  have hdata : FrameControl.isData ((mem.writeByte e FrameControl.typeData) e) = true := by
    rw [Memory.writeByte_self]
    rfl
  obtain ⟨haddress1, haddress2, haddress3⟩ :=
    Frame80211.rescan_addresses e (txBuff + txBuffSize) hdata
  unfold setupFrame
  dsimp only
  rw [hend]
  dsimp only [Frame80211.new] at haddress1 haddress2 haddress3 ⊢
  rw [haddress1, haddress2, haddress3]
  refine ⟨_, _, rfl, ?_, ?_⟩
  · rw [Radiotap.end_, Radiotap.size]
    simp (disch := omega) only [Memory.setAddress_of_out, Memory.writeByte_of_ne]
    exact hend
  · have hsize : txBuffSize = 2048 := rfl
    have hfront : (mem.writeByte e FrameControl.typeData).slice e 4 =
        [FrameControl.typeData, 0, 0, 0] := by
      simp (disch := omega) [Memory.slice, List.range_succ, Memory.writeByte_self,
        Memory.writeByte_of_ne, hclear]
    have hback : (mem.writeByte e FrameControl.typeData).slice (e + 22) 2 = [0, 0] := by
      simp (disch := omega) [Memory.slice, List.range_succ, Memory.writeByte_of_ne, hclear]
    rw [show 24 = 4 + 6 + 6 + 6 + 2 from rfl, Memory.slice_add, Memory.slice_add,
      Memory.slice_add, Memory.slice_add, show e + (4 + 6) = e + 10 from rfl,
      show e + (4 + 6 + 6) = e + 16 from rfl, show e + (4 + 6 + 6 + 6) = e + 22 from rfl]
    simp (disch := omega) only [Memory.slice_setAddress_of_out, Memory.slice_setAddress_self]
    rw [hfront, hback]
    rfl

/-- **The header of the frame that is sent**, for every address of the buffer. -/
theorem setup80211BaseFrame_spec (txBuff : Nat) (srcraw dstraw : UInt64) (old : Memory) :
    ∃ mem f, setup80211BaseFrame txBuff srcraw dstraw old = some (mem, f) ∧
      mem.slice (Radiotap.end_ ⟨txBuff⟩ mem) 24 = baseFrame srcraw dstraw := by
  obtain ⟨mem, hmem, hwritten⟩ := setupRadiotap_written txBuff old
  obtain ⟨mem', f, hframe, hend, hslice⟩ := setupFrame_spec hwritten srcraw dstraw
  refine ⟨mem', f, ?_, ?_⟩
  · rw [setup80211BaseFrame, hmem]
    exact hframe
  · rw [hend, hslice]

/-! ## The filter of the peer -/

/-- The lowest byte of a number. -/
theorem toNat_lowByte (x : UInt64) : (x &&& 0xFF).toUInt8.toNat = x.toNat % 2 ^ 8 := by
  have hand : x.toNat &&& 255 = x.toNat % 2 ^ 8 := Nat.and_two_pow_sub_one_eq_mod x.toNat 8
  rw [UInt64.toNat_toUInt8, UInt64.toNat_and]
  show (x.toNat &&& 255) % 2 ^ 8 = _
  rw [hand, Nat.mod_mod]

/-- A byte above the 24 bits at the bottom is a byte of the part above. -/
theorem byte_above (top : Nat) {bottom : Nat} (h : bottom < 2 ^ 24) (k : Nat) :
    (top * 2 ^ 24 + bottom) >>> (24 + k) % 2 ^ 8 = top >>> k % 2 ^ 8 := by
  rw [Nat.shiftRight_add, Nat.shiftRight_eq_div_pow _ 24, Nat.mul_comm,
    Nat.mul_add_div (by decide), Nat.div_eq_of_lt h, Nat.add_zero]

/-- With a `hwdst` of 24 bits the first three bytes of address 2 are `hwsrc`. -/
theorem addressBytes_src (src : UInt32) {dstraw : UInt64} (h : dstraw.toNat < 2 ^ 24) :
    (addressBytes ((src.toUInt64 <<< 24) ||| dstraw)).take 3 = srcBytes src := by
  have hsrc := src.toNat_lt
  have hvalue : ((src.toUInt64 <<< 24) ||| dstraw).toNat =
      src.toNat * 2 ^ 24 + dstraw.toNat := by
    have hshift : (src.toUInt64 <<< 24).toNat = src.toNat <<< 24 := by
      rw [UInt64.toNat_shiftLeft, UInt32.toNat_toUInt64]
      apply Nat.mod_eq_of_lt
      show src.toNat <<< 24 < _
      rw [Nat.shiftLeft_eq]
      omega
    rw [UInt64.toNat_or, hshift, ← Nat.shiftLeft_add_eq_or_of_lt h, Nat.shiftLeft_eq]
  generalize (src.toUInt64 <<< 24) ||| dstraw = value at hvalue ⊢
  have htop : ((value >>> 40) &&& 0xFF).toUInt8 = (src >>> 16).toUInt8 := by
    apply UInt8.toNat_inj.mp
    rw [toNat_lowByte, UInt64.toNat_shiftRight, UInt32.toNat_toUInt8, UInt32.toNat_shiftRight,
      hvalue]
    exact byte_above src.toNat h 16
  have hmid : ((value >>> 32) &&& 0xFF).toUInt8 = (src >>> 8).toUInt8 := by
    apply UInt8.toNat_inj.mp
    rw [toNat_lowByte, UInt64.toNat_shiftRight, UInt32.toNat_toUInt8, UInt32.toNat_shiftRight,
      hvalue]
    exact byte_above src.toNat h 8
  have hlow : ((value >>> 24) &&& 0xFF).toUInt8 = src.toUInt8 := by
    apply UInt8.toNat_inj.mp
    rw [toNat_lowByte, UInt64.toNat_shiftRight, UInt32.toNat_toUInt8, hvalue]
    exact byte_above src.toNat h 0
  rw [addressBytes, srcBytes, htop, hmid, hlow]
  rfl

/-- The filter keeps a frame with the header of `setup_80211_base_frame`. -/
theorem accepts_baseFrame (src : UInt32) {dstraw : UInt64} (h : dstraw.toNat < 2 ^ 24)
    {packet : List UInt8} (hheader : 4 ≤ packet.length)
    (hframe : frameBytes packet 0 24 = baseFrame src.toUInt64 dstraw) : Accepts src packet := by
  have hinside : ∀ offset n, offset + n ≤ 24 →
      frameBytes packet offset n = ((baseFrame src.toUInt64 dstraw).drop offset).take n := by
    intro offset n hn
    rw [frameBytes_inside packet hn, hframe]
  rw [accepts_iff_checked]
  refine ⟨hheader, ⟨FrameControl.typeData, hinside 0 1 (by decide), by decide, by decide⟩, ?_,
    ?_, ?_⟩
  · exact hinside 4 4 (by decide)
  · rw [← addressBytes_src src h]
    exact hinside 10 3 (by decide)
  · exact hinside 16 6 (by decide)

/-- **What `winject_src` keeps**: the frames of the peer, unless a packet passes whose
address 1 does not end with two bytes `FF`; among them every frame that
`setup_80211_base_frame` builds for the peer. -/
theorem winject_src_keeps_peer (src : UInt32) :
    (∀ packet, (Accepts src packet ↔ FromPeer src packet) ↔
      (Checked src packet → frameBytes packet 8 2 = [0xFF, 0xFF])) ∧
    ∀ (txBuff : Nat) (dstraw : UInt64) (old : Memory), dstraw.toNat < 2 ^ 24 →
      ∃ mem f, setup80211BaseFrame txBuff src.toUInt64 dstraw old = some (mem, f) ∧
        ∀ packet, 4 ≤ packet.length →
          frameBytes packet 0 24 = mem.slice (Radiotap.end_ ⟨txBuff⟩ mem) 24 →
            Accepts src packet := by
  constructor
  · exact accepts_iff_fromPeer_iff src
  · intro txBuff dstraw old hdst
    obtain ⟨mem, f, hsetup, hslice⟩ :=
      setup80211BaseFrame_spec txBuff src.toUInt64 dstraw old
    refine ⟨mem, f, hsetup, fun packet hheader hframe => ?_⟩
    exact accepts_baseFrame src hdst hheader (hframe.trans hslice)

/-- A frame behind a radiotap header of eight bytes. -/
theorem winject_src_keeps_base_frame :
    Accepts 0x7890ab ([0, 0, 8, 0, 0, 0, 0, 0] ++ baseFrame 0x7890ab 0x123456) := by
  obtain ⟨mem, f, hsetup, hkeeps⟩ :=
    (winject_src_keeps_peer 0x7890ab).2 0 0x123456 (fun _ => 0) (by decide)
  obtain ⟨mem', f', hsetup', hslice⟩ :=
    setup80211BaseFrame_spec 0 (0x7890ab : UInt32).toUInt64 0x123456 fun _ => 0
  rw [hsetup'] at hsetup
  cases hsetup
  apply hkeeps _ (by decide)
  rw [hslice]
  rfl

/-- A packet with another address 1 is kept. -/
theorem winject_src_keeps_other :
    let packet : List UInt8 := [0, 0, 8, 0, 0, 0, 0, 0, 0x08, 0, 0, 0,
      0xFF, 0xFF, 0xFF, 0xFF, 0x12, 0x34, 0x78, 0x90, 0xab, 0x12, 0x34, 0x56,
      0xDE, 0xAD, 0xBE, 0xEF, 0xCA, 0xFE, 0, 0]
    Accepts 0x7890ab packet ∧ ¬ FromPeer 0x7890ab packet := by
  refine ⟨⟨0xffffffff, by decide, by decide⟩, fun h => ?_⟩
  exact absurd h.address1 (by decide)

end Winject.Frames
