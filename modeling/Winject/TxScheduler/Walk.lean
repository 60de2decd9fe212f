import Winject.Lib.Intervals
import Winject.Lib.Loops
import Winject.TxScheduler.RxFrame

/-!
# The walk over a received frame by positions

`processRxFrame` walks over the bytes that are left.  `RxWalk` has the loop of
`AppRRC::process_rx_frame` with its `cursor` and its signed `frame_payload_remaining`, and
records the headers that are read and the calls of `on_rx`.  A header is read once more
behind `on_rx`, in what that has left of the region.

## Main results

* `walk_side` — the walk leaves the channels as `processRxFrame` does.
* `walk_safe` — it ends, and reads and hands over nothing outside the region.
-/

namespace Winject.TxScheduler

open Winject.Frames
open Winject.LegacyLlc
open Winject.Lib.Intervals
open Winject.Lib.Loops

/-- A header is read, or `on_rx` is called. -/
inductive RxEvent
  | header (base : Nat)
  | onRx (lcid : UInt8) (base size : Nat)
  deriving DecidableEq, Repr

/-- The range of a call of `on_rx`. -/
def RxEvent.range : RxEvent → Option (Nat × Nat)
  | .header _ => none
  | .onRx _ base size => some (base, size)

/-- The locals of the loop; `stopped` is set at a `break`. -/
structure RxWalk where
  side : RxSide
  region : List UInt8
  cursor : Nat := 0
  framePayloadRemaining : Int
  stopped : Bool := false
  events : List RxEvent := []

namespace RxWalk

/-- The locals in front of the loop. -/
def start (side : RxSide) (region : List UInt8) : RxWalk where
  side := side
  region := region
  framePayloadRemaining := region.length

/-- `llc_pdu`. -/
def llcPdu (w : RxWalk) : LlcPdu :=
  LlcPdu.new (w.region.drop w.cursor) w.framePayloadRemaining.toNat 0

/-- `advance_cursor`. -/
def advanceCursor (w : RxWalk) (size : Nat) : RxWalk :=
  { w with
    cursor := w.cursor + size
    framePayloadRemaining := w.framePayloadRemaining - size }

/-- `llc->on_rx(info)`. -/
def onRx (w : RxWalk) (llc : Llc) : RxWalk :=
  let bytes := w.region.drop w.cursor
  let size := w.llcPdu.getSIZE
  let lcid := w.llcPdu.getLCID
  { w with
    side :=
      { llcs := Function.update w.side.llcs lcid (some (llc.onRx ⟨bytes, size⟩).llc)
        dispatched := w.side.dispatched ++ [(lcid, bytes.take size)]
        fault := w.side.fault || (llc.onRx ⟨bytes, size⟩).fault }
    region := w.region.take w.cursor ++ bytesBehind llc ⟨bytes, size⟩
    events := w.events ++ [.onRx lcid w.cursor size] }

/-- The header at the cursor is read. -/
def readHeader (w : RxWalk) : RxWalk := { w with events := w.events ++ [.header w.cursor] }

/-- The body of the loop. -/
def iterate (w : RxWalk) : RxWalk :=
  if (w.llcPdu.getHeaderSize : Int) > w.framePayloadRemaining then { w with stopped := true }
  else
    let w := w.readHeader
    if w.llcPdu.getSIZE = 0 then { w with stopped := true }
    else
      match w.side.llcs w.llcPdu.getLCID with
      | none => w.advanceCursor w.llcPdu.getSIZE
      | some llc =>
        if (w.llcPdu.getSIZE : Int) > w.framePayloadRemaining then { w with stopped := true }
        else
          let w := (w.onRx llc).readHeader
          w.advanceCursor w.llcPdu.getSIZE

/-- `while (frame_payload_remaining > 0)`. -/
def loop (w : RxWalk) : Option RxWalk :=
  if w.stopped then none
  else if w.framePayloadRemaining > 0 then some w.iterate
  else none

/-! ## One iteration -/

/-- `on_rx` leaves the size in the header alone. -/
theorem getSIZE_bytesBehind (l : Llc) (info : RxInfo) (n m : Nat) :
    (LlcPdu.new (bytesBehind l info) n 0).getSIZE = (LlcPdu.new info.base m 0).getSIZE := by
  unfold bytesBehind Llc.rxPdu Llc.clearCrc
  split_ifs
  · rfl
  · rfl
  · exact LlcPdu.getSIZE_storeCRC (LlcPdu.new info.base m 0) _
  · rfl

/-- What the walk keeps: the rest of the region lies behind the cursor, until a size in
the header of an unknown channel leads behind the end. -/
structure Walked (n : Nat) (w : RxWalk) : Prop where
  length : w.region.length = n
  rest : (w.cursor : Int) + w.framePayloadRemaining = n
  headers : ∀ base, .header base ∈ w.events → base + 3 ≤ n
  calls : ∀ i ∈ w.events.filterMap RxEvent.range, i.1 + i.2 ≤ n ∧ i.1 + i.2 ≤ w.cursor
  ordered : Ordered (w.events.filterMap RxEvent.range)

theorem Walked.start (side : RxSide) (region : List UInt8) :
    (start side region).Walked region.length := by
  refine ⟨rfl, ?_, ?_, ?_, List.Pairwise.nil⟩
  · exact Int.zero_add _
  · exact fun base hmem => absurd hmem (List.not_mem_nil)
  · exact fun i hmem => absurd hmem (List.not_mem_nil)

/-- The ways of an iteration. -/
inductive Way (w : RxWalk) : RxWalk → Prop
  /-- There is no room for a header. -/
  | short (room : w.framePayloadRemaining < 3) : Way w { w with stopped := true }
  /-- The size is zero, or larger than what is left. -/
  | broken (room : 3 ≤ w.framePayloadRemaining)
      (size : w.llcPdu.getSIZE = 0 ∨ ∃ llc, w.side.llcs w.llcPdu.getLCID = some llc ∧
        w.framePayloadRemaining < w.llcPdu.getSIZE) :
      Way w { w.readHeader with stopped := true }
  /-- The PDU of an unknown channel is skipped. -/
  | skipped (room : 3 ≤ w.framePayloadRemaining) (size : w.llcPdu.getSIZE ≠ 0)
      (channel : w.side.llcs w.llcPdu.getLCID = none) :
      Way w (w.readHeader.advanceCursor w.llcPdu.getSIZE)
  /-- The PDU goes to its channel. -/
  | handed (room : 3 ≤ w.framePayloadRemaining) (size : w.llcPdu.getSIZE ≠ 0) {llc : Llc}
      (channel : w.side.llcs w.llcPdu.getLCID = some llc)
      (fits : (w.llcPdu.getSIZE : Int) ≤ w.framePayloadRemaining) :
      Way w ((w.readHeader.onRx llc).readHeader.advanceCursor
        (w.readHeader.onRx llc).readHeader.llcPdu.getSIZE)

theorem iterate_way (w : RxWalk) : w.Way w.iterate := by
  have hheader : ((w.llcPdu.getHeaderSize : Nat) : Int) = 3 := rfl
  unfold iterate
  rw [hheader]
  by_cases hroom : 3 > w.framePayloadRemaining
  · rw [if_pos hroom]
    exact Way.short hroom
  rw [if_neg hroom]
  dsimp only
  by_cases hzero : w.readHeader.llcPdu.getSIZE = 0
  · rw [if_pos hzero]
    exact Way.broken (by omega) (Or.inl hzero)
  rw [if_neg hzero]
  cases hchannel : w.readHeader.side.llcs w.readHeader.llcPdu.getLCID with
  | none => exact Way.skipped (by omega) hzero hchannel
  | some llc =>
      dsimp only
      split_ifs with hsize
      · exact Way.broken (Int.not_lt.mp hroom) (Or.inr ⟨llc, hchannel, hsize⟩)
      · exact Way.handed (Int.not_lt.mp hroom) hzero hchannel (Int.not_lt.mp hsize)

theorem loop_some {w w' : RxWalk} (h : w.loop = some w') :
    w.stopped = false ∧ 0 < w.framePayloadRemaining ∧ w.Way w' := by
  unfold loop at h
  split_ifs at h with hstopped hrest
  cases h
  exact ⟨by simpa using hstopped, hrest, w.iterate_way⟩

/-- The size in the header is the same behind `on_rx`. -/
theorem getSIZE_onRx {w : RxWalk} (h : w.cursor ≤ w.region.length) (llc : Llc) :
    (w.onRx llc).llcPdu.getSIZE = w.llcPdu.getSIZE := by
  unfold onRx llcPdu
  dsimp only
  rw [List.drop_left' (List.length_take_of_le h)]
  exact getSIZE_bytesBehind ..

theorem Walked.cursor_le {n : Nat} {w : RxWalk} (h : w.Walked n)
    (hrest : 0 ≤ w.framePayloadRemaining) : w.cursor ≤ w.region.length := by
  have hsum := h.rest
  have hlength := h.length
  omega

/-- A header inside the region. -/
theorem Walked.readHeader {n : Nat} {w : RxWalk} (h : w.Walked n)
    (hroom : 3 ≤ w.framePayloadRemaining) : w.readHeader.Walked n := by
  have hsum := h.rest
  have hcalls : w.readHeader.events.filterMap RxEvent.range =
      w.events.filterMap RxEvent.range := by
    simp [RxWalk.readHeader, RxEvent.range]
  refine ⟨h.length, hsum, fun base hmem => ?_, ?_, ?_⟩
  · rcases List.mem_append.mp hmem with hold | hnew
    · exact h.headers base hold
    · cases List.mem_singleton.mp hnew
      omega
  · rw [hcalls]
    exact h.calls
  · rw [hcalls]
    exact h.ordered

/-- The cursor moves on. -/
theorem Walked.advanceCursor {n : Nat} {w : RxWalk} (h : w.Walked n) (size : Nat) :
    (w.advanceCursor size).Walked n := by
  have hsum := h.rest
  refine ⟨h.length, ?_, h.headers, fun i hi => ?_, h.ordered⟩
  · show ((w.cursor + size : Nat) : Int) + (w.framePayloadRemaining - size) = n
    omega
  · obtain ⟨hend, hcursor⟩ := h.calls i hi
    exact ⟨hend, Nat.le_trans hcursor (Nat.le_add_right ..)⟩

/-- A call of `on_rx` on what is behind the cursor, and the cursor behind it. -/
theorem Walked.onRx {n : Nat} {w : RxWalk} (h : w.Walked n) (llc : Llc)
    (hfits : (w.llcPdu.getSIZE : Int) ≤ w.framePayloadRemaining)
    (hroom : 3 ≤ w.framePayloadRemaining) :
    ((w.onRx llc).readHeader.advanceCursor w.llcPdu.getSIZE).Walked n := by
  have hsum := h.rest
  have hcursor := h.cursor_le (by omega)
  have hranges : ((w.onRx llc).readHeader.advanceCursor w.llcPdu.getSIZE).events.filterMap
      RxEvent.range = w.events.filterMap RxEvent.range ++ [(w.cursor, w.llcPdu.getSIZE)] := by
    show ((w.events ++ [RxEvent.onRx _ w.cursor _]) ++ [RxEvent.header w.cursor]).filterMap _ = _
    simp [RxEvent.range]
  refine ⟨?_, ?_, fun base hmem => ?_, ?_, ?_⟩
  · show (w.region.take w.cursor ++ bytesBehind llc _).length = n
    rw [List.length_append, bytesBehind_length, List.length_take_of_le hcursor, List.length_drop,
      Nat.add_sub_cancel' hcursor, h.length]
  · show ((w.cursor + w.llcPdu.getSIZE : Nat) : Int) + (w.framePayloadRemaining - _) = n
    omega
  · rcases List.mem_append.mp hmem with hold | hnew
    · rcases List.mem_append.mp hold with hold | hcall
      · exact h.headers base hold
      · cases List.mem_singleton.mp hcall
    · cases List.mem_singleton.mp hnew
      show w.cursor + 3 ≤ n
      omega
  · rw [hranges]
    intro i hi
    show _ ∧ _ ≤ w.cursor + w.llcPdu.getSIZE
    rcases List.mem_append.mp hi with hold | hnew
    · obtain ⟨hend, hbefore⟩ := h.calls i hold
      exact ⟨hend, by omega⟩
    · rw [List.mem_singleton.mp hnew]
      exact ⟨by dsimp only; omega, Nat.le_refl _⟩
  · rw [hranges]
    exact h.ordered.snoc (fun i hi => (h.calls i hi).2) _

theorem Way.walked {n : Nat} {w w' : RxWalk} (hway : w.Way w') (h : w.Walked n) : w'.Walked n := by
  cases hway with
  | short room => exact ⟨h.length, h.rest, h.headers, h.calls, h.ordered⟩
  | broken room size =>
      have hread := h.readHeader room
      exact ⟨hread.length, hread.rest, hread.headers, hread.calls, hread.ordered⟩
  | skipped room size channel => exact (h.readHeader room).advanceCursor _
  | @handed room size llc channel fits =>
      have hread := h.readHeader room
      have hsame : (w.readHeader.onRx llc).readHeader.llcPdu.getSIZE = w.readHeader.llcPdu.getSIZE :=
        getSIZE_onRx (hread.cursor_le (by show 0 ≤ w.framePayloadRemaining; omega)) llc
      rw [hsame]
      exact hread.onRx llc fits room

/-- Every iteration stops the walk or comes nearer to the end. -/
theorem Way.progress {n : Nat} {w w' : RxWalk} (hway : w.Way w') (h : w.Walked n) :
    w'.stopped = true ∨ w'.framePayloadRemaining < w.framePayloadRemaining := by
  cases hway with
  | short room => exact Or.inl rfl
  | broken room size => exact Or.inl rfl
  | skipped room size channel =>
      right
      show w.framePayloadRemaining - (w.llcPdu.getSIZE : Int) < _
      omega
  | @handed room size llc channel fits =>
      have hsame : (w.readHeader.onRx llc).readHeader.llcPdu.getSIZE = w.llcPdu.getSIZE :=
        getSIZE_onRx (w := w.readHeader) (h.cursor_le (by omega)) llc
      right
      rw [hsame]
      show w.framePayloadRemaining - (w.llcPdu.getSIZE : Int) < _
      omega

/-! ## The walk -/

theorem Walked.visits {n : Nat} {w w' : RxWalk} (h : w.Walked n) (hvisit : Visits loop w w') :
    w'.Walked n :=
  hvisit.invariant (fun _ _ hw hstep => (loop_some hstep).2.2.walked hw) h

/-- The walk ends. -/
theorem Walked.ends {n : Nat} {w : RxWalk} (h : w.Walked n) : Ends loop w := by
  refine ends_of_measure
    (fun w => if w.stopped then 0 else w.framePayloadRemaining.toNat + 1) fun t t' hvisit hstep => ?_
  obtain ⟨hrunning, hrest, hway⟩ := loop_some hstep
  have hprogress := hway.progress (h.visits hvisit)
  rw [hrunning]
  by_cases hstopped : t'.stopped = true
  · simp [hstopped]
  · have hless := hprogress.resolve_left hstopped
    rw [if_neg hstopped, if_neg (by simp)]
    omega

/-- What is left of the walk over the bytes. -/
def Remaining (side : RxSide) (w : RxWalk) : Prop :=
  if w.stopped then w.side = side
  else processRxFrame w.side (w.region.drop w.cursor) = side

theorem Walked.length_drop {n : Nat} {w : RxWalk} (h : w.Walked n)
    (hrest : 0 ≤ w.framePayloadRemaining) : (w.region.drop w.cursor).length =
      w.framePayloadRemaining.toNat := by
  have hsum := h.rest
  have hlength := h.length
  rw [List.length_drop]
  omega

/-- The walk over the bytes at the cursor. -/
theorem Walked.walkStep {n : Nat} {w : RxWalk} (h : w.Walked n)
    (hrest : 0 ≤ w.framePayloadRemaining) :
    TxScheduler.walkStep w.side (w.region.drop w.cursor) =
      if w.framePayloadRemaining < 3 then none
      else if w.llcPdu.getSIZE = 0 then none
      else dispatch w.side w.llcPdu.getLCID w.llcPdu.getSIZE (w.region.drop w.cursor) := by
  have hlength := h.length_drop hrest
  have hpdu : LlcPdu.new (w.region.drop w.cursor) (w.region.drop w.cursor).length 0 =
      w.llcPdu := by
    rw [hlength]
    rfl
  have hheader : w.llcPdu.getHeaderSize = 3 := rfl
  have hroom : 3 > (w.region.drop w.cursor).length ↔ w.framePayloadRemaining < 3 := by omega
  unfold TxScheduler.walkStep
  rw [hpdu]
  dsimp only
  rw [hheader]
  simp only [hroom]

/-- An iteration is a step of the walk over the bytes. -/
theorem Way.remaining {n : Nat} {w w' : RxWalk} {side : RxSide} (hway : w.Way w')
    (h : w.Walked n) (hrunning : w.stopped = false) (hrest : 0 < w.framePayloadRemaining)
    (hside : w.Remaining side) : w'.Remaining side := by
  have hlength := h.length_drop (by omega)
  have hcursor := h.cursor_le (by omega)
  have hstep := h.walkStep (by omega)
  unfold Remaining at hside
  rw [hrunning, if_neg Bool.false_ne_true] at hside
  cases hway with
  | short room =>
      rw [if_pos room] at hstep
      rw [processRxFrame_of_none hstep] at hside
      exact hside
  | broken room size =>
      rw [if_neg (by omega)] at hstep
      have hnone : TxScheduler.walkStep w.side (w.region.drop w.cursor) = none := by
        rw [hstep]
        rcases size with hzero | ⟨llc, hchannel, hlarge⟩
        · exact if_pos hzero
        · rw [if_neg (by omega)]
          unfold dispatch
          rw [hchannel]
          exact if_pos (by omega)
      rw [processRxFrame_of_none hnone] at hside
      exact hside
  | skipped room size channel =>
      rw [if_neg (by omega), if_neg size] at hstep
      have hskip : TxScheduler.walkStep w.side (w.region.drop w.cursor) =
          some (w.side, (w.region.drop w.cursor).drop w.llcPdu.getSIZE) := by
        rw [hstep]
        unfold dispatch
        rw [channel]
      rw [processRxFrame_of_some hskip, List.drop_drop] at hside
      unfold Remaining
      rw [show (w.readHeader.advanceCursor w.llcPdu.getSIZE).stopped = false from hrunning,
        if_neg Bool.false_ne_true]
      exact hside
  | @handed room size llc channel fits =>
      rw [if_neg (by omega), if_neg size] at hstep
      have hread : (w.readHeader.onRx llc).readHeader.llcPdu.getSIZE = w.llcPdu.getSIZE :=
        getSIZE_onRx (w := w.readHeader) hcursor llc
      have hcall : TxScheduler.walkStep w.side (w.region.drop w.cursor) =
          some ((w.readHeader.onRx llc).side,
            (bytesBehind llc ⟨w.region.drop w.cursor, w.llcPdu.getSIZE⟩).drop
              w.llcPdu.getSIZE) := by
        rw [hstep]
        unfold dispatch
        rw [channel]
        exact if_neg (by omega)
      rw [processRxFrame_of_some hcall] at hside
      rw [hread]
      unfold Remaining
      rw [show ((w.readHeader.onRx llc).readHeader.advanceCursor w.llcPdu.getSIZE).stopped = false
        from hrunning, if_neg Bool.false_ne_true]
      have hdrop : (w.region.take w.cursor ++
          bytesBehind llc ⟨w.region.drop w.cursor, w.llcPdu.getSIZE⟩).drop
            (w.cursor + w.llcPdu.getSIZE) =
          (bytesBehind llc ⟨w.region.drop w.cursor, w.llcPdu.getSIZE⟩).drop w.llcPdu.getSIZE := by
        rw [← List.drop_drop, List.drop_left' (List.length_take_of_le hcursor)]
      rw [← hdrop] at hside
      exact hside

/-- **The walk leaves the channels as `processRxFrame` does.** -/
theorem walk_side (side : RxSide) (region : List UInt8) {w : RxWalk}
    (hvisit : Visits loop (start side region) w) (hend : w.loop = none) :
    w.side = processRxFrame side region := by
  have hwalked := (Walked.start side region).visits hvisit
  have hremaining : w.Remaining (processRxFrame side region) := by
    have hboth : w.Walked region.length ∧ w.Remaining (processRxFrame side region) := by
      refine hvisit.invariant (P := fun w => w.Walked region.length ∧
        w.Remaining (processRxFrame side region)) (fun t t' ht hstep => ?_)
        ⟨Walked.start side region, rfl⟩
      obtain ⟨hrunning, hrest, hway⟩ := loop_some hstep
      exact ⟨hway.walked ht.1, hway.remaining ht.1 hrunning hrest ht.2⟩
    exact hboth.2
  unfold Remaining at hremaining
  unfold loop at hend
  split_ifs at hremaining hend with hstopped hrest
  · exact hremaining
  · have hlength := hwalked.length
    have hsum := hwalked.rest
    rw [List.drop_eq_nil_of_le (by omega), processRxFrame_nil] at hremaining
    exact hremaining

/-- Headers and calls are inside a region of `n` bytes, and the calls are disjoint and in
order. -/
structure Safe (n : Nat) (w : RxWalk) : Prop where
  headers : ∀ base, .header base ∈ w.events → base + 3 ≤ n
  calls : ∀ lcid base size, .onRx lcid base size ∈ w.events → base + size ≤ n
  ordered : Ordered (w.events.filterMap RxEvent.range)

theorem Walked.safe {n : Nat} {w : RxWalk} (h : w.Walked n) : w.Safe n :=
  ⟨h.headers, fun _ base size hmem =>
    (h.calls (base, size) (List.mem_filterMap.mpr ⟨_, hmem, rfl⟩)).1, h.ordered⟩

/-- **The walk over a region is safe**: it ends, whatever the region holds and whichever
channels there are, and at every time it has read headers inside the region only and
handed over disjoint ranges of the region in increasing order. -/
theorem walk_safe (side : RxSide) (region : List UInt8) :
    Ends loop (start side region) ∧
      ∀ w, Visits loop (start side region) w → w.Safe region.length :=
  ⟨(Walked.start side region).ends,
    fun _ hvisit => ((Walked.start side region).visits hvisit).safe⟩

end RxWalk

end Winject.TxScheduler
