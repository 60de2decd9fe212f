import Mathlib.Data.List.Basic

/-!
# The headers of a received frame (`radiotap.hpp`, `frames/802_11.cpp`)

```
 radiotap header               | LENGTH, in its bytes 2 and 3
 FRAME_CONTROL                 | 02
 DURATION                      | 02
 ADDRESS1, ADDRESS2, ADDRESS3  | 06 each
 SEQ_CTL                       | 02
 ADDRESS4 (TO_DS and FROM_DS)  | 06 * (TO_DS && FROM_DS)
 FRAME_BODY                    |
 FCS                           | 04
```

`Radiotap` is `radiotap_t` and `Frame80211` is `frame_t` of `ieee_802_11`.  Neither knows
how many bytes have been received: a pointer is an offset into a memory without an end, and
`none` is the null pointer.

## Main results

* `rescan_frameBody`, `rescan_addresses` — where a scan finds the body and the addresses
  of a frame.
-/

namespace Winject.Frames

/-- The bytes from the start of a buffer on, also those behind its end. -/
abbrev Memory := Nat → UInt8

/-- What `recv` leaves of `old` when it stores a datagram at the start. -/
def Memory.receive (old : Memory) (datagram : List UInt8) : Memory :=
  fun i => datagram[i]?.getD (old i)

/-- The `size` bytes from `base` on. -/
def Memory.slice (mem : Memory) (base size : Nat) : List UInt8 :=
  (List.range size).map fun i => mem (base + i)

theorem Memory.receive_of_lt {old : Memory} {datagram : List UInt8} {i : Nat}
    (h : i < datagram.length) : old.receive datagram i = datagram[i] := by
  unfold receive
  rw [List.getElem?_eq_getElem h, Option.getD_some]

/-- A slice of the datagram is not touched by what was there before. -/
theorem Memory.slice_receive {old : Memory} {datagram : List UInt8} {base size : Nat}
    (h : base + size ≤ datagram.length) :
    (old.receive datagram).slice base size = (datagram.drop base).take size := by
  apply List.ext_getElem
  · simp [slice]
    omega
  · intro i hi hi'
    have hsize : i < size := by simpa [slice] using hi
    simp [slice, receive_of_lt (show base + i < datagram.length by omega)]

/-- A slice of two parts. -/
theorem Memory.slice_add (mem : Memory) (base m n : Nat) :
    mem.slice base (m + n) = mem.slice base m ++ mem.slice (base + m) n := by
  simp [slice, List.range_add, Nat.add_assoc]

/-- A slice depends on its own bytes. -/
theorem Memory.slice_congr {mem mem' : Memory} {base size : Nat}
    (h : ∀ i, base ≤ i → i < base + size → mem i = mem' i) :
    mem.slice base size = mem'.slice base size := by
  apply List.map_congr_left
  intro i hi
  rw [List.mem_range] at hi
  exact h _ (Nat.le_add_right _ _) (by omega)

/-! ## The radiotap header -/

/-- `radiotap_t`. -/
structure Radiotap where
  header : Nat
  deriving DecidableEq, Repr

namespace Radiotap

/-- `radiotap_t::size`: the little-endian `length` of the header. -/
def size (r : Radiotap) (mem : Memory) : Nat :=
  (mem (r.header + 2)).toNat + 256 * (mem (r.header + 3)).toNat

/-- `radiotap_t::end`. -/
def end_ (r : Radiotap) (mem : Memory) : Nat := r.header + r.size mem

theorem size_lt (r : Radiotap) (mem : Memory) : r.size mem < 65536 := by
  have hlow := (mem (r.header + 2)).toNat_lt
  have hhigh := (mem (r.header + 3)).toNat_lt
  unfold size
  omega

end Radiotap

/-! ## The 802.11 header -/

namespace FrameControl

/-- `E_MTYPE_MASK`. -/
def mtypeMask : UInt8 := 0b00001100

/-- `E_MTYPE_DATA`. -/
def mtypeData : UInt8 := 0b00001000

/-- `E_TYPE_MASK`. -/
def typeMask : UInt8 := 0b11111100

/-- `E_TYPE_RTS`. -/
def typeRts : UInt8 := 0b10110100

/-- `E_FLAGS_TO_DS`. -/
def flagsToDs : UInt8 := 0b00000001

/-- `E_FLAGS_FROM_DS`. -/
def flagsFromDs : UInt8 := 0b00000010

/-- The frame is of the main type data. -/
def isData (protocolType : UInt8) : Bool := protocolType &&& typeMask &&& mtypeMask == mtypeData

/-- The frame has a fourth address. -/
def hasAddress4 (flags : UInt8) : Bool := flags &&& flagsToDs != 0 && flags &&& flagsFromDs != 0

/-- The bytes in front of the body of a data frame. -/
def headerSize (flags : UInt8) : Nat := if hasAddress4 flags then 30 else 24

end FrameControl

/-- `ieee_802_11::frame_t`. -/
structure Frame80211 where
  frameControl : Nat
  duration : Nat
  address1 : Option Nat := none
  address2 : Option Nat := none
  address3 : Option Nat := none
  seqCtl : Option Nat := none
  address4 : Option Nat := none
  frameBody : Option Nat := none
  fcs : Option Nat := none
  last : Nat
  deriving DecidableEq, Repr

namespace Frame80211

open FrameControl

/-- The constructor, for a buffer that is not null. -/
def new (buffer last : Nat) : Frame80211 where
  frameControl := buffer
  duration := buffer + 2
  last := last

/-- `frame_t::reset`. -/
def reset (f : Frame80211) : Frame80211 :=
  { f with
    address1 := none
    address2 := none
    address3 := none
    seqCtl := none
    address4 := none
    frameBody := none
    fcs := some (f.last - 4) }

/-- `frame_control->protocol_type`. -/
def protocolType (f : Frame80211) (mem : Memory) : UInt8 := mem f.frameControl

/-- `frame_control->flags`. -/
def flags (f : Frame80211) (mem : Memory) : UInt8 := mem (f.frameControl + 1)

/-- `frame_t::rescan`. -/
def rescan (f : Frame80211) (mem : Memory) : Frame80211 :=
  let f := f.reset
  let type := f.protocolType mem &&& typeMask
  let mtype := type &&& mtypeMask
  let stype := type &&& typeMask
  if mtype = mtypeData then
    let address1 := f.duration + 2
    let address2 := address1 + 6
    let address3 := address2 + 6
    let seqCtl := address3 + 6
    let f := { f with
      address1 := some address1
      address2 := some address2
      address3 := some address3
      seqCtl := some seqCtl }
    if f.flags mem &&& flagsToDs ≠ 0 ∧ f.flags mem &&& flagsFromDs ≠ 0 then
      let address4 := seqCtl + 2
      { f with address4 := some address4, frameBody := some (address4 + 6) }
    else { f with address4 := none, frameBody := some (seqCtl + 2) }
  else if stype = typeRts then
    let address1 := f.duration + 2
    let address2 := address1 + 6
    { f with address1 := some address1, address2 := some address2, fcs := some (address2 + 6) }
  else f

/-- **Where a scan finds the body**: behind the header of a data frame, and nowhere in
other frames. -/
theorem rescan_frameBody (buffer last : Nat) (mem : Memory) :
    ((new buffer last).rescan mem).frameBody =
      if isData (mem buffer) then some (buffer + headerSize (mem (buffer + 1))) else none := by
  unfold rescan isData headerSize hasAddress4
  simp only [protocolType, flags, reset, new]
  by_cases hdata : mem buffer &&& typeMask &&& mtypeMask = mtypeData
  · by_cases hto : mem (buffer + 1) &&& flagsToDs = 0 <;>
      by_cases hfrom : mem (buffer + 1) &&& flagsFromDs = 0 <;>
      simp [hdata, hto, hfrom]
  · by_cases hrts : mem buffer &&& typeMask &&& typeMask = typeRts <;>
      simp [hdata, hrts]

/-- The addresses of a data frame. -/
theorem rescan_addresses (buffer last : Nat) {mem : Memory} (h : isData (mem buffer) = true) :
    ((new buffer last).rescan mem).address1 = some (buffer + 4) ∧
      ((new buffer last).rescan mem).address2 = some (buffer + 10) ∧
      ((new buffer last).rescan mem).address3 = some (buffer + 16) := by
  have hdata : mem buffer &&& typeMask &&& mtypeMask = mtypeData := by
    simpa [isData] using h
  unfold rescan
  simp only [protocolType, flags, reset, new]
  by_cases hto : mem (buffer + 1) &&& flagsToDs = 0 <;>
    by_cases hfrom : mem (buffer + 1) &&& flagsFromDs = 0 <;>
    simp [hdata, hto, hfrom]

end Frame80211

end Winject.Frames
