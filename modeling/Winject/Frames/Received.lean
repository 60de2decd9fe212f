import Winject.Frames.PdcpSegment

/-!
# Reading a segment from arbitrary bytes

`Received` is the content of a segment as a receiver takes it from the front of a
byte range that has room for the header.  Nothing is known about the bytes: `SIZE`
may be smaller than the header, and the payload size, computed in 16 bits, then
wraps around and reaches behind the range.

## Main results

* `payloadSizeAt_inside_iff` — the payload lies in its segment iff `SIZE` covers the
  header.
* `received_encode` — an encoded segment is read back.
* `readPayload_received_iff` — all bytes of the payload are bytes of the range iff the
  range reaches that far.
-/

namespace Winject.Frames

open Winject.Lib.Bytes

/-- A segment as a receiver reads it. -/
structure Received where
  sn : Nat
  offset : Nat
  last : Bool
  payload : List (Option UInt8)
  deriving DecidableEq, Repr

namespace Layout

/-- `get_SIZE` of the segment at the front. -/
def sizeAt (l : Layout) (bytes : List UInt8) : Nat := (scanned l bytes).getSize

/-- `get_payload_size` of the segment at the front. -/
def payloadSizeAt (l : Layout) (bytes : List UInt8) : Nat := (scanned l bytes).getPayloadSize

/-- The segment at the front; a field that the layout does not have is zero. -/
def received (l : Layout) (bytes : List UInt8) : Received :=
  { sn := if l.hasSn then (scanned l bytes).getSn else 0
    offset := if l.hasOffset then (scanned l bytes).getOffset else 0
    last := (scanned l bytes).isLast
    payload := readPayload bytes l.headerSize (l.payloadSizeAt bytes) }

theorem sizeAt_lt (l : Layout) (bytes : List UInt8) : l.sizeAt bytes < 32768 := by
  unfold sizeAt PdcpSegment.getSize
  rw [land_7fff]
  exact Nat.mod_lt _ (by decide)

theorem payloadSizeAt_eq (l : Layout) (bytes : List UInt8) :
    l.payloadSizeAt bytes = (l.sizeAt bytes + 65536 - l.headerSize) % 65536 := rfl

/-- A `SIZE` that covers the header. -/
theorem headerSize_add_payloadSizeAt {l : Layout} {bytes : List UInt8}
    (h : l.headerSize ≤ l.sizeAt bytes) :
    l.headerSize + l.payloadSizeAt bytes = l.sizeAt bytes := by
  have hlt := l.sizeAt_lt bytes
  rw [payloadSizeAt_eq]
  omega

/-- **The payload lies in its segment** iff `SIZE` covers the header. -/
theorem payloadSizeAt_inside_iff (l : Layout) (bytes : List UInt8) :
    l.headerSize + l.payloadSizeAt bytes ≤ l.sizeAt bytes ↔
      l.headerSize ≤ l.sizeAt bytes := by
  constructor
  · intro h
    omega
  · intro h
    rw [headerSize_add_payloadSizeAt h]

theorem payloadSizeAt_eq_zero_iff (l : Layout) (bytes : List UInt8) :
    l.payloadSizeAt bytes = 0 ↔ l.sizeAt bytes = l.headerSize := by
  have hlt := l.sizeAt_lt bytes
  have hle := headerSize_le l
  rw [payloadSizeAt_eq]
  omega

end Layout

@[simp] theorem readPayload_length (bytes : List UInt8) (headerSize payloadSize : Nat) :
    (readPayload bytes headerSize payloadSize).length = payloadSize := by
  unfold readPayload
  rw [grow_length, List.length_map, List.length_take]
  omega

/-- What a receiver reads of a segment. -/
def Seg.toReceived (l : Layout) (g : Seg) : Received :=
  { sn := if l.hasSn then g.sn else 0
    offset := if l.hasOffset then g.offset else 0
    last := g.last
    payload := g.payload.map some }

/-- An encoded segment is read back. -/
theorem Layout.received_encode {l : Layout} {g : Seg} (tail : List UInt8) (h : g.Fits l) :
    l.received (encode l g ++ tail) = g.toReceived l := by
  have hread := scan_encode l g tail h
  have hpayload : l.payloadSizeAt (encode l g ++ tail) = g.payload.length := hread.payloadSize
  unfold received Seg.toReceived
  rw [hpayload, readPayload_encode, hread.last, Received.mk.injEq]
  refine ⟨?_, ?_, rfl, rfl⟩
  · split_ifs with hsn
    · exact hread.sn hsn
    · rfl
  · split_ifs with hoffset
    · exact hread.offset hoffset
    · rfl

/-- **All bytes of the payload come from the range** iff the range reaches to its
end. -/
theorem readPayload_received_iff {bytes : List UInt8} {headerSize payloadSize : Nat}
    (h : headerSize ≤ bytes.length) :
    (∀ c ∈ readPayload bytes headerSize payloadSize, c.isSome = true) ↔
      headerSize + payloadSize ≤ bytes.length := by
  have hlen : (((bytes.drop headerSize).take payloadSize).map some).length =
      min payloadSize (bytes.length - headerSize) := by
    rw [List.length_map, List.length_take, List.length_drop]
  unfold readPayload grow
  rw [hlen]
  constructor
  · intro hall
    by_contra hgt
    have hmem : (none : Option UInt8) ∈
        List.replicate (payloadSize - min payloadSize (bytes.length - headerSize)) none :=
      List.mem_replicate.mpr ⟨by omega, rfl⟩
    have hsome := hall none (List.mem_append_right _ hmem)
    cases hsome
  · intro hle c hc
    rcases List.mem_append.mp hc with hc | hc
    · obtain ⟨b, -, rfl⟩ := List.mem_map.mp hc
      rfl
    · have hpos := (List.mem_replicate.mp hc).1
      omega

end Winject.Frames
