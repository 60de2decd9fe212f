import Winject.Frames.Wifi
import Winject.Lib.ClassicBpf

/-!
# The packet filter (`802_11_filters.hpp`)

`winjectSrc` is the program of `winject_src`.  It finds the 802.11 frame by the length of
the radiotap header and checks the protocol and the type, the addresses 3 and 1, and the
first three bytes of address 2.

The check of the end of address 1 reads its first two bytes again: instruction 15 loads
from `x + 4`, as instruction 13 does, and not from `x + 8`.  The last two bytes of
address 1 are not looked at.

## Main results

* `accepts_iff_checked` — what the program checks.
* `accepts_iff_fromPeer_iff` — when that is the frames of the peer.
-/

namespace Winject.Frames

open Winject.Lib.ClassicBpf

/-! ## The program -/

namespace WinjectSrc

/-- `LONGEST`. -/
def longest : UInt8 := 13

/-- `filter_code`, as it is initialised. -/
def filterCode : List SockFilter :=
  [⟨0x30, 0, 0, 0x00000003⟩,
    ⟨0x64, 0, 0, 0x00000008⟩,
    ⟨0x7, 0, 0, 0x00000000⟩,
    ⟨0x30, 0, 0, 0x00000002⟩,
    ⟨0x4c, 0, 0, 0x00000000⟩,
    ⟨0x7, 0, 0, 0x00000000⟩,
    ⟨0x50, 0, 0, 0x00000000⟩,
    ⟨0x54, 0, 0, 0x0000000f⟩,
    ⟨0x15, 0, longest, 0x00000008⟩,
    ⟨0x40, 0, 0, 0x00000010⟩,
    ⟨0x15, 0, longest - 2, 0xdeadbeef⟩,
    ⟨0x48, 0, 0, 0x00000014⟩,
    ⟨0x15, 0, longest - 4, 0x0000cafe⟩,
    ⟨0x40, 0, 0, 0x00000004⟩,
    ⟨0x15, 0, longest - 6, 0xffffffff⟩,
    ⟨0x48, 0, 0, 0x00000004⟩,
    ⟨0x15, 0, longest - 8, 0x0000ffff⟩,
    ⟨0x48, 0, 0, 0x0000000a⟩,
    ⟨0x15, 0, longest - 10, 0x0000ffaa⟩,
    ⟨0x50, 0, 0, 0x0000000c⟩,
    ⟨0x15, 0, longest - 12, 0x00000000⟩,
    ⟨0x6, 0, 0, 0xffffffff⟩,
    ⟨0x6, 0, 0, 0x00000000⟩]

/-- `winject_src::set_src`. -/
def setSrc (code : List SockFilter) (src : UInt32) : List SockFilter :=
  let src' := ((src >>> 8) &&& 0xFFFF).toUInt16
  (code.modify 18 fun f => { f with k := src'.toUInt32 }).modify 20
    fun f => { f with k := src &&& 0xFF }

end WinjectSrc

/-- The program of `winject_src(src)`. -/
def winjectSrc (src : UInt32) : List SockFilter := WinjectSrc.setSrc WinjectSrc.filterCode src

/-- The filter keeps the packet. -/
def Accepts (src : UInt32) (packet : List UInt8) : Prop :=
  ∃ kept, run (winjectSrc src) packet = some kept ∧ kept ≠ 0

/-! ## The frames of the peer -/

/-- The length that the radiotap header of a packet has. -/
def radiotapLength (packet : List UInt8) : Nat :=
  (packet.getD 2 0).toNat + 256 * (packet.getD 3 0).toNat

/-- The bytes of the 802.11 frame from `offset` on. -/
def frameBytes (packet : List UInt8) (offset size : Nat) : List UInt8 :=
  (packet.drop (radiotapLength packet + offset)).take size

/-- The first three bytes of address 2. -/
def srcBytes (src : UInt32) : List UInt8 :=
  [(src >>> 16).toUInt8, (src >>> 8).toUInt8, src.toUInt8]

/-- `E_PROTO_MASK` and `E_MTYPE_MASK` of the frame control are protocol 0 and data. -/
def IsDataV0 (packet : List UInt8) : Prop :=
  ∃ frameControl, frameBytes packet 0 1 = [frameControl] ∧
    frameControl &&& 0b00000011 = 0 ∧
      frameControl &&& FrameControl.mtypeMask = FrameControl.mtypeData

/-- A data frame of the peer `src`, long enough for its addresses. -/
structure FromPeer (src : UInt32) (packet : List UInt8) : Prop where
  length : radiotapLength packet + 22 ≤ packet.length
  header : 4 ≤ packet.length
  frameControl : IsDataV0 packet
  address1 : frameBytes packet 4 6 = [0xFF, 0xFF, 0xFF, 0xFF, 0xFF, 0xFF]
  address2 : frameBytes packet 10 3 = srcBytes src
  address3 : frameBytes packet 16 6 = [0xDE, 0xAD, 0xBE, 0xEF, 0xCA, 0xFE]

/-- What the program checks: four bytes of address 1 instead of six. -/
structure Checked (src : UInt32) (packet : List UInt8) : Prop where
  header : 4 ≤ packet.length
  frameControl : IsDataV0 packet
  address1 : frameBytes packet 4 4 = [0xFF, 0xFF, 0xFF, 0xFF]
  address2 : frameBytes packet 10 3 = srcBytes src
  address3 : frameBytes packet 16 6 = [0xDE, 0xAD, 0xBE, 0xEF, 0xCA, 0xFE]

/-! ## The run -/

/-- The instructions of the program. -/
theorem decode_winjectSrc (src : UInt32) :
    (winjectSrc src).mapM decode = some
      [.ldAbs .byte 3, .lsh 8, .tax, .ldAbs .byte 2, .orX, .tax,
        .ldInd .byte 0, .and 0x0f, .jeq 8 0 13,
        .ldInd .word 0x10, .jeq 0xdeadbeef 0 11,
        .ldInd .half 0x14, .jeq 0xcafe 0 9,
        .ldInd .word 4, .jeq 0xffffffff 0 7,
        .ldInd .half 4, .jeq 0xffff 0 5,
        .ldInd .half 0xa, .jeq ((src >>> 8) &&& 0xFFFF).toUInt16.toUInt32 0 3,
        .ldInd .byte 0xc, .jeq (src &&& 0xFF) 0 1,
        .ret 0xffffffff, .ret 0] := rfl

/-! ### Bytes of the frame -/

/-- Two neighbouring fields are one. -/
theorem frameBytes_append {packet : List UInt8} {offset : Nat} (xs ys : List UInt8) :
    frameBytes packet offset xs.length = xs ∧
        frameBytes packet (offset + xs.length) ys.length = ys ↔
      frameBytes packet offset (xs.length + ys.length) = xs ++ ys := by
  have hrest : frameBytes packet (offset + xs.length) ys.length =
      ((packet.drop (radiotapLength packet + offset)).drop xs.length).take ys.length := by
    rw [frameBytes, List.drop_drop, Nat.add_assoc]
  rw [hrest, frameBytes, frameBytes, List.take_add]
  constructor
  · rintro ⟨hxs, hys⟩
    rw [hxs, hys]
  · intro h
    have hlength := congrArg List.length h
    simp only [List.length_append, List.length_take, List.length_drop] at hlength
    apply List.append_inj h
    rw [List.length_take, List.length_drop]
    omega

/-- A field inside of bytes that are known. -/
theorem frameBytes_inside (packet : List UInt8) {size offset n : Nat} (h : offset + n ≤ size) :
    frameBytes packet offset n = ((frameBytes packet 0 size).drop offset).take n := by
  rw [frameBytes, frameBytes, List.drop_take, List.take_take, List.drop_drop, Nat.add_zero,
    Nat.min_eq_left (by omega)]

/-- The frame is long enough for a field that it has. -/
theorem length_of_frameBytes {packet bytes : List UInt8} {offset size : Nat}
    (h : frameBytes packet offset size = bytes) (hlen : bytes.length = size) (hpos : 0 < size) :
    radiotapLength packet + offset + size ≤ packet.length := by
  have hlength := congrArg List.length h
  rw [frameBytes, List.length_take, List.length_drop, hlen] at hlength
  omega

theorem radiotapLength_lt (packet : List UInt8) : radiotapLength packet < 65536 := by
  have hlow := (packet.getD 2 0).toNat_lt
  have hhigh := (packet.getD 3 0).toNat_lt
  unfold radiotapLength
  omega

/-- A load behind the radiotap header. -/
theorem load_frame {packet : List UInt8} (bytes : List UInt8) {width : Width} {k v : UInt32}
    (hk : k.toNat < 256) (hlen : bytes.length = width.bytes) (hv : v.toNat = bigEndian bytes) :
    load packet width (UInt32.ofNat (radiotapLength packet) + k).toNat = some v ↔
      frameBytes packet k.toNat width.bytes = bytes := by
  have hlt := radiotapLength_lt packet
  have hpos : (UInt32.ofNat (radiotapLength packet) + k).toNat =
      radiotapLength packet + k.toNat := by
    rw [UInt32.toNat_add, UInt32.toNat_ofNat', Nat.mod_eq_of_lt (a := radiotapLength packet)
      (by omega), Nat.mod_eq_of_lt (by omega)]
  rw [hpos, load_eq_some_iff hlen hv, frameBytes]

/-- Two bytes are put together to the length of the radiotap header. -/
theorem index_eq_radiotapLength {packet : List UInt8} {b₂ b₃ : UInt8}
    (h₂ : packet[2]? = some b₂) (h₃ : packet[3]? = some b₃) :
    b₂.toUInt32 ||| (b₃.toUInt32 <<< 8) = UInt32.ofNat (radiotapLength packet) := by
  have hlow := b₂.toNat_lt
  have hhigh := b₃.toNat_lt
  have hlength : radiotapLength packet = b₂.toNat + 256 * b₃.toNat := by
    rw [radiotapLength, List.getD_eq_getElem?_getD, List.getD_eq_getElem?_getD, h₂, h₃]
    rfl
  apply UInt32.toNat_inj.mp
  rw [hlength, UInt32.toNat_or, UInt32.toNat_shiftLeft, UInt32.toNat_ofNat', Nat.or_comm]
  show (b₃.toNat <<< 8) % 2 ^ 32 ||| b₂.toNat = _
  have hshift : b₃.toNat <<< 8 < 2 ^ 32 := by
    rw [Nat.shiftLeft_eq]
    omega
  rw [Nat.mod_eq_of_lt hshift, ← Nat.shiftLeft_add_eq_or_of_lt hlow, Nat.shiftLeft_eq]
  omega

/-- The start of the program puts the length of the radiotap header into the index. -/
theorem passes_length {packet : List UInt8} {rest : List Insn} :
    Passes packet (.ldAbs .byte 3 :: .lsh 8 :: .tax :: .ldAbs .byte 2 :: .orX :: .tax :: rest)
        0 0 ↔
      4 ≤ packet.length ∧ Passes packet rest (UInt32.ofNat (radiotapLength packet))
        (UInt32.ofNat (radiotapLength packet)) := by
  simp only [passes_lsh, passes_tax, passes_ldAbs, passes_orX, load_byte]
  constructor
  · rintro ⟨high, hhigh, low, hlow, hrest⟩
    rw [Option.map_eq_some_iff] at hhigh hlow
    obtain ⟨b₃, h₃, rfl⟩ := hhigh
    obtain ⟨b₂, h₂, rfl⟩ := hlow
    rw [index_eq_radiotapLength h₂ h₃] at hrest
    exact ⟨(List.getElem?_eq_some_iff.mp h₃).1, hrest⟩
  · rintro ⟨hlen, hrest⟩
    have h₃ : packet[3]? = some packet[3] := List.getElem?_eq_getElem hlen
    have h₂ : packet[2]? = some packet[2] := List.getElem?_eq_getElem (by omega)
    refine ⟨_, Option.map_eq_some_iff.mpr ⟨_, h₃, rfl⟩, _,
      Option.map_eq_some_iff.mpr ⟨_, h₂, rfl⟩, ?_⟩
    rwa [index_eq_radiotapLength h₂ h₃]

/-- The four low bits of a frame control. -/
theorem frameControl_low : ∀ n < 256, (UInt8.ofNat n).toUInt32 &&& 0x0f = 8 ↔
    UInt8.ofNat n &&& 0b00000011 = 0 ∧
      UInt8.ofNat n &&& FrameControl.mtypeMask = FrameControl.mtypeData := by
  decide +kernel

/-- The check of the frame control. -/
theorem passes_frameControl {packet : List UInt8} {rest : List Insn} {jf : Nat} {a : UInt32}
    (h : (rest.drop jf).head? = some (.ret 0)) :
    Passes packet (.ldInd .byte 0 :: .and 0x0f :: .jeq 8 0 jf :: rest) a
        (UInt32.ofNat (radiotapLength packet)) ↔
      IsDataV0 packet ∧ Passes packet rest 8 (UInt32.ofNat (radiotapLength packet)) := by
  have hload : ∀ c : UInt8,
      load packet .byte (UInt32.ofNat (radiotapLength packet) + 0).toNat = some c.toUInt32 ↔
        frameBytes packet 0 1 = [c] := by
    intro c
    exact load_frame [c] (by decide) rfl (by simp [bigEndian])
  have hlow : ∀ c : UInt8, c.toUInt32 &&& 0x0f = 8 ↔
      c &&& 0b00000011 = 0 ∧ c &&& FrameControl.mtypeMask = FrameControl.mtypeData := by
    intro c
    have hc := frameControl_low c.toNat c.toNat_lt
    rwa [UInt8.ofNat_toNat] at hc
  rw [passes_ldInd]
  simp only [passes_and, passes_jeq h]
  constructor
  · rintro ⟨v, hv, height, hrest⟩
    have hbyte := hv
    rw [load_byte, Option.map_eq_some_iff] at hbyte
    obtain ⟨c, -, rfl⟩ := hbyte
    rw [height] at hrest
    exact ⟨⟨c, (hload c).mp hv, (hlow c).mp height⟩, hrest⟩
  · rintro ⟨⟨c, hc, hbits⟩, hrest⟩
    exact ⟨c.toUInt32, (hload c).mpr hc, (hlow c).mpr hbits, by rwa [(hlow c).mpr hbits]⟩

/-- What `set_src` puts into the program. -/
theorem setSrc_values (src : UInt32) :
    ((src >>> 8) &&& 0xFFFF).toUInt16.toUInt32.toNat =
        bigEndian [(src >>> 16).toUInt8, (src >>> 8).toUInt8] ∧
      (src &&& 0xFF).toNat = bigEndian [src.toUInt8] := by
  constructor
  · have hmask : src.toNat >>> 8 % 65536 &&& 65535 = src.toNat >>> 8 % 65536 % 65536 :=
      Nat.and_two_pow_sub_one_eq_mod _ 16
    have hhalf : src.toNat >>> 8 % 65536 &&& 65535 =
        src.toNat >>> 16 % 256 * 256 + src.toNat >>> 8 % 256 := by
      rw [hmask, Nat.shiftRight_eq_div_pow, Nat.shiftRight_eq_div_pow]
      omega
    simpa [bigEndian] using hhalf
  · have hmask := Nat.and_two_pow_sub_one_eq_mod src.toNat 8
    simpa [bigEndian] using hmask

/-- **What the program checks.** -/
theorem accepts_iff_checked (src : UInt32) (packet : List UInt8) :
    Accepts src packet ↔ Checked src packet := by
  have hrun : Accepts src packet ↔ ∃ insns, (winjectSrc src).mapM decode = some insns ∧
      Passes packet insns 0 0 := by
    unfold Accepts run
    rw [decode_winjectSrc]
    simp [Passes]
  obtain ⟨hhalf, hbyte⟩ := setSrc_values src
  rw [hrun, decode_winjectSrc]
  simp only [Option.some.injEq, exists_eq_left']
  rw [passes_length, passes_frameControl rfl, passes_check rfl, passes_check rfl,
    passes_check rfl, passes_check rfl, passes_check rfl, passes_check rfl, passes_ret,
    load_frame [0xDE, 0xAD, 0xBE, 0xEF] (by decide) rfl rfl,
    load_frame [0xCA, 0xFE] (by decide) rfl rfl,
    load_frame [0xFF, 0xFF, 0xFF, 0xFF] (by decide) rfl rfl,
    load_frame [0xFF, 0xFF] (by decide) rfl rfl,
    load_frame [(src >>> 16).toUInt8, (src >>> 8).toUInt8] (by decide) rfl hhalf,
    load_frame [src.toUInt8] (by decide) rfl hbyte]
  constructor
  · rintro ⟨hheader, hcontrol, hfront₃, hback₃, haddress₁, -, hfront₂, hback₂, -⟩
    exact ⟨hheader, hcontrol, haddress₁,
      (frameBytes_append [(src >>> 16).toUInt8, (src >>> 8).toUInt8] [src.toUInt8]).mp
        ⟨hfront₂, hback₂⟩,
      (frameBytes_append [0xDE, 0xAD, 0xBE, 0xEF] [0xCA, 0xFE]).mp ⟨hfront₃, hback₃⟩⟩
  · intro h
    obtain ⟨hfront₁, -⟩ := (frameBytes_append [0xFF, 0xFF] [0xFF, 0xFF]).mpr h.address1
    obtain ⟨hfront₂, hback₂⟩ := (frameBytes_append [(src >>> 16).toUInt8, (src >>> 8).toUInt8]
      [src.toUInt8]).mpr h.address2
    obtain ⟨hfront₃, hback₃⟩ :=
      (frameBytes_append [0xDE, 0xAD, 0xBE, 0xEF] [0xCA, 0xFE]).mpr h.address3
    exact ⟨h.header, h.frameControl, hfront₃, hback₃, h.address1, hfront₁, hfront₂, hback₂,
      by decide⟩

/-- The frames of the peer are the ones that pass and have all of address 1. -/
theorem fromPeer_iff_checked (src : UInt32) (packet : List UInt8) :
    FromPeer src packet ↔ Checked src packet ∧ frameBytes packet 8 2 = [0xFF, 0xFF] := by
  constructor
  · intro h
    obtain ⟨hfront, hback⟩ :=
      (frameBytes_append [0xFF, 0xFF, 0xFF, 0xFF] [0xFF, 0xFF]).mpr h.address1
    exact ⟨⟨h.header, h.frameControl, hfront, h.address2, h.address3⟩, hback⟩
  · rintro ⟨h, hback⟩
    have hlength := length_of_frameBytes h.address3 rfl (by decide)
    exact ⟨hlength, h.header, h.frameControl,
      (frameBytes_append [0xFF, 0xFF, 0xFF, 0xFF] [0xFF, 0xFF]).mp ⟨h.address1, hback⟩,
      h.address2, h.address3⟩

/-- **When the filter keeps exactly the frames of the peer**: unless a packet passes
whose address 1 has another end. -/
theorem accepts_iff_fromPeer_iff (src : UInt32) (packet : List UInt8) :
    (Accepts src packet ↔ FromPeer src packet) ↔
      (Checked src packet → frameBytes packet 8 2 = [0xFF, 0xFF]) := by
  rw [accepts_iff_checked, fromPeer_iff_checked]
  exact ⟨fun h hchecked => (h.mp hchecked).2,
    fun h => ⟨fun hchecked => ⟨hchecked, h hchecked⟩, And.left⟩⟩

end Winject.Frames
