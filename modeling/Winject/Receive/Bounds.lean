import Winject.Receive.SegmentLoops

/-!
# The payloads that the receivers copy

Both receivers copy `get_payload_size()` bytes from behind the header of a segment,
and compare only `SIZE` with the bytes that are left.  A `SIZE` smaller than the
header makes the 16-bit payload size wrap around, and the copy reads far behind the
segment.

`copies` says that the payload of a segment is copied at all: the receivers skip an
offset that a frame has already received, and `PDCP` skips more than that.

## Main results

* `rxReceived_of_not_copies` — the payload of a segment that is not copied is not
  looked at.
* `payload_regions_inside_iff` — when all the regions lie in the input and in their
  segments.
-/

namespace Winject.Frames

open Winject.Lib.Bytes

/-- The region of the payload of the segment at the front: inside the bytes that are
left, and inside the `SIZE` bytes of the segment. -/
structure Layout.PayloadInside (l : Layout) (bytes : List UInt8) : Prop where
  input : l.headerSize + l.payloadSizeAt bytes ≤ bytes.length
  segment : l.headerSize + l.payloadSizeAt bytes ≤ l.sizeAt bytes

/-- Of a segment whose `SIZE` does not exceed the rest. -/
theorem Layout.payloadInside_iff {l : Layout} {bytes : List UInt8}
    (h : l.sizeAt bytes ≤ bytes.length) :
    l.PayloadInside bytes ↔ l.headerSize ≤ l.sizeAt bytes := by
  rw [← payloadSizeAt_inside_iff]
  exact ⟨fun hin => hin.segment, fun hin => ⟨hin.trans h, hin⟩⟩

end Winject.Frames

/-! ## `pdcp_dl::on_pdcp_data` -/

namespace Winject.Pdcp

open Winject.Frames
open Winject.Lib.Loops

/-- The contents of the payload at a received offset do not matter. -/
theorem ReassemblyState.receive_of_contains {st : ReassemblyState} {offset : Nat}
    (h : st.recvdOffsets.contains offset = true) {payload payload' : List (Option UInt8)}
    (hlen : payload'.length = payload.length) (last : Bool) :
    st.receive offset payload' last = st.receive offset payload last := by
  have hdup : ∀ buffer, ({ st with buffer := buffer } : ReassemblyState).recvdOffsets.contains
      offset = true := fun _ => h
  unfold receive
  dsimp only
  rw [hlen]
  by_cases hgrow : st.buffer.length < offset + payload.length
  · rw [if_pos hgrow, hdup]
    rfl
  · rw [if_neg hgrow, h]
    rfl

namespace PdcpDl

/-- The payload of the segment is copied into the record of its number. -/
def copies (d : PdcpDl) (g : Received) : Bool :=
  !((d.locate g.sn).2.stateAt (d.locate g.sn).1).recvdOffsets.contains g.offset

/-- A payload that is not copied is not looked at. -/
theorem rxReceived_of_not_copies {d : PdcpDl} {g : Received} (h : d.copies g = false)
    {payload : List (Option UInt8)} (hlen : payload.length = g.payload.length) :
    d.rxReceived { g with payload := payload } = d.rxReceived g := by
  unfold copies at h
  rw [Bool.not_eq_false'] at h
  have hreceive := ReassemblyState.receive_of_contains h hlen g.last
  unfold rxReceived rxSegment
  dsimp only
  rw [hreceive]

/-- The loop of a call copies the payload of the segment at the front of `rest`. -/
structure CopiesAt (d : PdcpDl) (bytes : List UInt8) (e : PdcpDl) (rest : List UInt8) :
    Prop where
  visit : Visits loopStep (d, bytes) (e, rest)
  read : (e.config.walk rest).isSome = true
  copies : e.copies (e.config.layout.received rest) = true

/-- **The regions copied by `on_pdcp_data`** lie in the input and in their segments iff
the sizes of the copied segments cover their headers. -/
theorem copies_inside_iff (d : PdcpDl) (bytes : List UInt8) :
    (∀ e rest, d.CopiesAt bytes e rest → e.config.layout.PayloadInside rest) ↔
      ∀ e rest, d.CopiesAt bytes e rest →
        e.config.layout.headerSize ≤ e.config.layout.sizeAt rest := by
  have hiff : ∀ e rest, d.CopiesAt bytes e rest → (e.config.layout.PayloadInside rest ↔
      e.config.layout.headerSize ≤ e.config.layout.sizeAt rest) := by
    intro e rest hcopies
    obtain ⟨rest', hread⟩ := Option.isSome_iff_exists.mp hcopies.read
    have hparse := PdcpDlConfig.walk_eq_some_iff.mp hread
    exact Layout.payloadInside_iff (PdcpDlConfig.parseStep_ok_iff.mp hparse).2.1
  exact ⟨fun h e rest hcopies => (hiff e rest hcopies).mp (h e rest hcopies),
    fun h e rest hcopies => (hiff e rest hcopies).mpr (h e rest hcopies)⟩

end PdcpDl

end Winject.Pdcp

/-! ## `PDCP::on_rx` -/

namespace Winject.LegacyPdcp

open Winject.Frames
open Winject.Lib.Loops

/-- The contents of the payload at a received offset do not matter. -/
theorem RxBufferInfo.store_of_contains {el : RxBufferInfo} {offset : Nat}
    (h : el.recvdOffsets.contains offset = true) {payload payload' : List (Option UInt8)}
    (hlen : payload'.length = payload.length) (sn : Nat) (last : Bool) :
    el.store sn offset last payload' = el.store sn offset last payload := by
  unfold store
  dsimp only
  rw [hlen]
  by_cases hgrow : offset + payload.length > el.buffer.length
  · rw [if_pos hgrow]
    cases last <;> simp only [if_true, Bool.false_eq_true, if_false, h, Bool.not_true]
  · rw [if_neg hgrow]
    cases last <;> simp only [if_true, Bool.false_eq_true, if_false, h, Bool.not_true]

namespace PdcpRx

/-- The payload of the segment is copied into its record: the segment is neither
behind `rx_sn` nor a reason for a radio link failure, and the record is not complete
and has not received the offset. -/
def copies (d : PdcpRx) (g : Received) : Bool :=
  !(d.sync g.sn).isBefore g.sn && !((d.sync g.sn).isOutOfRange g.sn && d.config.allowRlf) &&
    !((d.sync g.sn).rxBufferRing (rxBufferRingIndex g.sn)).isComplete &&
    !((d.sync g.sn).rxBufferRing (rxBufferRingIndex g.sn)).recvdOffsets.contains g.offset

/-- A payload that is not copied is not looked at. -/
theorem rxReceived_of_not_copies {d : PdcpRx} {g : Received} (h : d.copies g = false)
    {payload : List (Option UInt8)} (hlen : payload.length = g.payload.length) :
    d.rxReceived { g with payload := payload } = d.rxReceived g := by
  unfold copies at h
  unfold rxReceived rxSegment
  dsimp only
  rw [sync_config]
  by_cases hbefore : (d.sync g.sn).isBefore g.sn = true
  · rw [if_pos hbefore, if_pos hbefore]
  · rw [if_neg hbefore, if_neg hbefore]
    by_cases hrlf : ((d.sync g.sn).isOutOfRange g.sn && d.config.allowRlf) = true
    · rw [if_pos hrlf, if_pos hrlf]
    · rw [if_neg hrlf, if_neg hrlf]
      unfold storeSegment
      by_cases hcomplete :
          ((d.sync g.sn).rxBufferRing (rxBufferRingIndex g.sn)).isComplete = true
      · dsimp only
        rw [if_pos hcomplete, if_pos hcomplete]
      · rw [Bool.not_eq_true] at hbefore hrlf hcomplete
        rw [hbefore, hrlf, hcomplete, Bool.not_false, Bool.true_and, Bool.true_and,
          Bool.true_and, Bool.not_eq_false'] at h
        dsimp only
        rw [RxBufferInfo.store_of_contains h hlen]

/-- The loop of a call copies the payload of the segment at the front of `rest`. -/
structure CopiesAt (d : PdcpRx) (bytes : List UInt8) (e : PdcpRx) (rest : List UInt8) :
    Prop where
  visit : Visits loopStep (d, bytes) (e, rest)
  header : e.config.layout.headerSize < rest.length
  size : e.config.layout.sizeAt rest ≤ rest.length
  copies : e.copies (e.config.layout.received rest) = true

/-- **The regions copied by `on_rx`** lie in the input and in their segments iff the
sizes of the copied segments cover their headers. -/
theorem copies_inside_iff (d : PdcpRx) (bytes : List UInt8) :
    (∀ e rest, d.CopiesAt bytes e rest → e.config.layout.PayloadInside rest) ↔
      ∀ e rest, d.CopiesAt bytes e rest →
        e.config.layout.headerSize ≤ e.config.layout.sizeAt rest := by
  constructor
  · intro h e rest hcopies
    exact (Layout.payloadInside_iff hcopies.size).mp (h e rest hcopies)
  · intro h e rest hcopies
    exact (Layout.payloadInside_iff hcopies.size).mpr (h e rest hcopies)

end PdcpRx

end Winject.LegacyPdcp

/-! ## Both receivers -/

namespace Winject.Receive

open Winject.Frames
open Winject.Lib.Loops
open Winject.LegacyPdcp (PdcpRx)
open Winject.Pdcp (PdcpDl)

/-- **Every payload region copied** by a call of either receiver lies in the input and
in its own segment iff every copied segment has a `SIZE` that covers its header. -/
theorem payload_regions_inside_iff (d : PdcpDl) (p : PdcpRx) (bytes : List UInt8) :
    ((∀ e rest, d.CopiesAt bytes e rest → e.config.layout.PayloadInside rest) ↔
      ∀ e rest, d.CopiesAt bytes e rest →
        e.config.layout.headerSize ≤ e.config.layout.sizeAt rest) ∧
    ((∀ e rest, p.CopiesAt bytes e rest → e.config.layout.PayloadInside rest) ↔
      ∀ e rest, p.CopiesAt bytes e rest →
        e.config.layout.headerSize ≤ e.config.layout.sizeAt rest) :=
  ⟨d.copies_inside_iff bytes, p.copies_inside_iff bytes⟩

/-- A segment of `SIZE` one: both receivers copy 65535 bytes from behind its header. -/
theorem size_one_copies_outside :
    (PdcpDl.CopiesAt (PdcpDl.init { reorderSize := 1 }) [0, 1, 7]
        (PdcpDl.init { reorderSize := 1 }) [0, 1, 7] ∧
      ¬ ({ reorderSize := 1 } : Pdcp.PdcpDlConfig).layout.PayloadInside [0, 1, 7]) ∧
    (PdcpRx.CopiesAt (PdcpRx.enabled {}) [0, 1, 7] (PdcpRx.enabled {}) [0, 1, 7] ∧
      ¬ ({} : LegacyPdcp.RxConfig).layout.PayloadInside [0, 1, 7]) := by
  refine ⟨⟨⟨Visits.start, ?_, ?_⟩, ?_⟩, ⟨Visits.start, ?_, ?_, ?_⟩, ?_⟩
  · rw [show (PdcpDl.init { reorderSize := 1 }).config.walk [0, 1, 7] = some [1, 7] from
      Pdcp.PdcpDlConfig.walk_eq_some_iff.mpr
        (Pdcp.PdcpDlConfig.parseStep_ok_iff.mpr
          ⟨by decide, by decide, by decide, rfl, by decide⟩)]
    rfl
  · decide
  · exact fun h => absurd h.segment (by decide)
  · decide
  · decide
  · rfl
  · exact fun h => absurd h.segment (by decide)

end Winject.Receive
