import Winject.Frames.PdcpSegment
import Winject.Lib.Reassembly

/-!
# The PDCP downlink (`pdcp/pdcp_dl.cpp`)

`PdcpDl` is the state of `pdcp_dl`: the reordering ring, the overflow deque,
the next expected sequence number and the queue of completed frames.
`rxSegment` is the body of the loop of `on_pdcp_data` after the header has
been parsed, `dataStep` one whole iteration and `flushStep` one iteration of
`flush_completed_in_order`.

A buffer cell is an `Option UInt8`: storage that `resize` allocates is not
initialised, and a payload that the header claims beyond the input reads
memory the caller did not provide.  Both are `none`.

## Main results

* `rxSegment_cases` — where a segment is stored when reordering is on.
* `flushStep_cases` — which completed frame a flush step hands over.
* `onPdcpData_encodeAll` — on a PDU made of encoded segments the call succeeds
  and processes exactly these segments, then flushes.
-/

namespace Winject.Pdcp

open Winject.Frames
open Winject.Lib.Bytes
open Winject.Lib.Reassembly

/-! ## The model -/

/-- `pdcp_dl_config_t`. -/
structure PdcpDlConfig where
  allowSegmentation : Bool := false
  allowReordering : Bool := false
  reorderSize : Nat := 512
  deriving DecidableEq, Repr

/-- The header layout of a configuration. -/
def PdcpDlConfig.layout (cfg : PdcpDlConfig) : Layout :=
  ⟨cfg.allowReordering, cfg.allowSegmentation⟩

/-- `pdcp_dl::status_code_e`. -/
inductive DlStatus where
  | success
  | inputEmpty
  | segmentScanFailed
  | segmentOutsideInput
  | reservedValueUsed
  deriving DecidableEq, Repr

/-- `pdcp_dl::reassembly_state_t`. -/
structure ReassemblyState where
  buffer : List (Option UInt8) := []
  accumulatedSize : Nat := 0
  expectedSize : Nat := 0
  recvdOffsets : List Nat := []
  hasExpectedSize : Bool := false
  isComplete : Bool := false
  deriving DecidableEq, Repr

/-- `pdcp_dl::slot_t`. -/
structure Slot where
  sn : Nat := 0
  state : ReassemblyState := {}
  valid : Bool := false
  deriving DecidableEq, Repr

/-- The state of `pdcp_dl`. -/
structure PdcpDl where
  config : PdcpDlConfig
  status : DlStatus := .success
  reorderRing : List Slot
  overflowDeque : List (Nat × ReassemblyState) := []
  nextExpectedSn : Nat := 0
  completedFrames : List (List (Option UInt8)) := []
  outstandingBytes : Nat := 0
  deriving DecidableEq, Repr

namespace PdcpDl

/-- The constructor of `pdcp_dl`. -/
def init (cfg : PdcpDlConfig) : PdcpDl :=
  { config := cfg, reorderRing := List.replicate cfg.reorderSize {} }

/-- `pdcp_dl::reset`. -/
def reset (d : PdcpDl) : PdcpDl := init d.config

/-- `pdcp_dl::reconfigure`. -/
def reconfigure (_ : PdcpDl) (cfg : PdcpDlConfig) : PdcpDl := init cfg

/-- `pdcp_dl::get_outstanding_packet`. -/
def getOutstandingPacket (d : PdcpDl) : Nat := d.completedFrames.length

/-- `pdcp_dl::pop`; an empty buffer when no frame is available. -/
def pop (d : PdcpDl) : PdcpDl × List (Option UInt8) :=
  match d.completedFrames with
  | [] => (d, [])
  | rv :: others =>
    ({ d with
        completedFrames := others
        outstandingBytes :=
          if d.outstandingBytes ≥ rv.length then d.outstandingBytes - rv.length
          else 0 }, rv)

/-- `pdcp_dl::slot_index`. -/
def slotIndex (d : PdcpDl) (sn : Nat) : Nat :=
  if d.reorderRing.length ≠ 0 then sn % d.reorderRing.length else 0

/-- `pdcp_dl::get_or_put_slot`: the index of the slot for `sn`, or `none` for
the null pointer. -/
def getOrPutSlot (d : PdcpDl) (sn : Nat) : Option Nat × PdcpDl :=
  match d.reorderRing[d.slotIndex sn]? with
  | none => (none, d)
  | some slot =>
    if slot.valid && slot.sn != sn then (none, d)
    else if !slot.valid then
      (some (d.slotIndex sn),
        { d with reorderRing :=
            d.reorderRing.set (d.slotIndex sn) { sn := sn, state := {}, valid := true } })
    else (some (d.slotIndex sn), d)

/-- `pdcp_dl::find_overflow`: the position of the first entry for `sn`. -/
def findOverflow (d : PdcpDl) (sn : Nat) : Option Nat :=
  d.overflowDeque.findIdx? (fun p => p.1 == sn)

/-- The two containers that hold reassembly state. -/
inductive Place where
  | ring (i : Nat)
  | overflow (i : Nat)
  deriving DecidableEq, Repr

/-- Where `on_pdcp_data` keeps the state of `sn`: the ring slot if it is free
or already belongs to `sn`, else the overflow entry, created if missing. -/
def locate (d : PdcpDl) (sn : Nat) : Place × PdcpDl :=
  match d.getOrPutSlot sn with
  | (some i, d) => (.ring i, d)
  | (none, d) =>
    match d.findOverflow sn with
    | some i => (.overflow i, d)
    | none =>
      (.overflow d.overflowDeque.length,
        { d with overflowDeque := d.overflowDeque ++ [(sn, {})] })

/-- The state at a place. -/
def stateAt (d : PdcpDl) : Place → ReassemblyState
  | .ring i => (d.reorderRing.getD i {}).state
  | .overflow i => (d.overflowDeque.getD i (0, {})).2

/-- Replace the state at a place. -/
def setStateAt (d : PdcpDl) (p : Place) (state : ReassemblyState) : PdcpDl :=
  match p with
  | .ring i =>
    { d with reorderRing :=
        d.reorderRing.set i { d.reorderRing.getD i {} with state := state } }
  | .overflow i =>
    { d with overflowDeque :=
        d.overflowDeque.set i ((d.overflowDeque.getD i (0, {})).1, state) }

end PdcpDl

/-- Storing one segment in a reassembly state: the statements of
`on_pdcp_data` from `required_size` to the completion test. -/
def ReassemblyState.receive (state : ReassemblyState) (offset : Nat)
    (payload : List (Option UInt8)) (last : Bool) : ReassemblyState :=
  let payloadSize := payload.length
  let requiredSize := offset + payloadSize
  let state :=
    if state.buffer.length < requiredSize then
      { state with buffer := grow none requiredSize state.buffer }
    else state
  let isDuplicateOffset := state.recvdOffsets.contains offset
  let state :=
    if !isDuplicateOffset then
      { state with
        recvdOffsets := offset :: state.recvdOffsets
        buffer := blit state.buffer offset payload
        accumulatedSize := state.accumulatedSize + payloadSize }
    else state
  let state :=
    if last then { state with expectedSize := requiredSize, hasExpectedSize := true }
    else state
  if state.hasExpectedSize && state.accumulatedSize == state.expectedSize then
    { state with isComplete := true }
  else state

namespace PdcpDl

/-- Handing a frame over at once, when reordering is off: the state is cleared
and its slot or overflow entry released. -/
def releaseCompleted (d : PdcpDl) (sn : Nat) (p : Place) : PdcpDl :=
  let state := d.stateAt p
  let d := { d with
    outstandingBytes := d.outstandingBytes + state.expectedSize
    completedFrames := d.completedFrames ++ [state.buffer] }
  let d := d.setStateAt p {}
  match p with
  | .overflow _ =>
    { d with overflowDeque := d.overflowDeque.eraseP (fun q => q.1 == sn) }
  | .ring _ =>
    match d.reorderRing[d.slotIndex sn]? with
    | some slot =>
      if slot.sn == sn then
        { d with reorderRing :=
            d.reorderRing.set (d.slotIndex sn) { slot with valid := false } }
      else d
    | none => d

/-- The body of the loop of `on_pdcp_data` behind the header checks. -/
def rxSegment (d : PdcpDl) (sn offset : Nat) (last : Bool)
    (payload : List (Option UInt8)) : PdcpDl :=
  let (p, d) := d.locate sn
  let state := (d.stateAt p).receive offset payload last
  let d := d.setStateAt p state
  if (state.hasExpectedSize && state.accumulatedSize == state.expectedSize) &&
      !d.config.allowReordering then
    d.releaseCompleted sn p
  else d

/-- One iteration of the loop of `on_pdcp_data`: the new state and the bytes
left, or the status of a failed call. -/
def dataStep (d : PdcpDl) (bytes : List UInt8) :
    Except DlStatus (PdcpDl × List UInt8) :=
  let segment := (view d.config.layout bytes).rescan
  if !segment.isHeaderValid then .error .segmentScanFailed else
  let headerSize := segment.getHeaderSize
  let totalSize := segment.getSize
  if totalSize > bytes.length then .error .segmentOutsideInput else
  let payloadSize := segment.getPayloadSize
  if payloadSize = 0 then .error .reservedValueUsed else
  let sn := if d.config.allowReordering then segment.getSn else 0
  let offset := if d.config.allowSegmentation then segment.getOffset else 0
  .ok (d.rxSegment sn offset segment.isLast
      (readPayload bytes headerSize payloadSize), bytes.drop totalSize)

/-- One iteration of `flush_completed_in_order`; `none` leaves the loop.  The
buffer is moved out of its state. -/
def flushStep (d : PdcpDl) : Option PdcpDl :=
  let idx := d.slotIndex d.nextExpectedSn
  let slot := d.reorderRing.getD idx {}
  if slot.valid && slot.sn == d.nextExpectedSn && slot.state.isComplete then
    some { d with
      outstandingBytes := d.outstandingBytes + slot.state.expectedSize
      completedFrames := d.completedFrames ++ [slot.state.buffer]
      reorderRing := d.reorderRing.set idx
        { slot with state := { slot.state with buffer := [] }, valid := false }
      nextExpectedSn := (d.nextExpectedSn + 1) % 65536 }
  else
    match d.overflowDeque.findIdx?
        (fun p => p.1 == d.nextExpectedSn && p.2.isComplete) with
    | some i =>
      let entry := d.overflowDeque.getD i (0, {})
      some { d with
        outstandingBytes := d.outstandingBytes + entry.2.expectedSize
        completedFrames := d.completedFrames ++ [entry.2.buffer]
        overflowDeque := d.overflowDeque.eraseIdx i
        nextExpectedSn := (d.nextExpectedSn + 1) % 65536 }
    | none => none

/-- Occupied slots and overflow entries: every flush step releases one. -/
def occupied (d : PdcpDl) : Nat :=
  d.reorderRing.countP (·.valid) + d.overflowDeque.length

/-- What a flush step does: it hands over the complete frame of the next
expected number, from its slot or from the overflow deque. -/
theorem flushStep_cases {d d' : PdcpDl} (h : d.flushStep = some d') :
    (∃ slot, d.reorderRing[d.slotIndex d.nextExpectedSn]? = some slot ∧
      slot.valid = true ∧ slot.sn = d.nextExpectedSn ∧
      slot.state.isComplete = true ∧
      d' = { d with
        outstandingBytes := d.outstandingBytes + slot.state.expectedSize
        completedFrames := d.completedFrames ++ [slot.state.buffer]
        reorderRing := d.reorderRing.set (d.slotIndex d.nextExpectedSn)
          { slot with state := { slot.state with buffer := [] }, valid := false }
        nextExpectedSn := (d.nextExpectedSn + 1) % 65536 }) ∨
    (∃ (i : Nat) (hi : i < d.overflowDeque.length),
      (d.overflowDeque.get ⟨i, hi⟩).1 = d.nextExpectedSn ∧
      (d.overflowDeque.get ⟨i, hi⟩).2.isComplete = true ∧
      d' = { d with
        outstandingBytes := d.outstandingBytes +
          (d.overflowDeque.get ⟨i, hi⟩).2.expectedSize
        completedFrames := d.completedFrames ++
          [(d.overflowDeque.get ⟨i, hi⟩).2.buffer]
        overflowDeque := d.overflowDeque.eraseIdx i
        nextExpectedSn := (d.nextExpectedSn + 1) % 65536 }) := by
  unfold flushStep at h
  dsimp only at h
  split at h
  · rename_i hslot
    simp only [Bool.and_eq_true, beq_iff_eq] at hslot
    obtain ⟨⟨hvalid, hsn⟩, hcomplete⟩ := hslot
    left
    cases hget : d.reorderRing[d.slotIndex d.nextExpectedSn]? with
    | none =>
        rw [List.getD_eq_getElem?_getD, hget] at hvalid
        cases hvalid
    | some slot =>
        rw [List.getD_eq_getElem?_getD, hget, Option.getD_some] at hvalid hsn hcomplete h
        exact ⟨slot, rfl, hvalid, hsn, hcomplete, (Option.some.inj h).symm⟩
  · right
    split at h
    · rename_i i hfind
      obtain ⟨hi, hp, _⟩ := List.findIdx?_eq_some_iff_getElem.mp hfind
      simp only [Bool.and_eq_true, beq_iff_eq] at hp
      rw [List.getD_eq_getElem?_getD, List.getElem?_eq_getElem hi,
        Option.getD_some] at h
      exact ⟨i, hi, hp.1, hp.2, (Option.some.inj h).symm⟩
    · cases h

/-- The flush loop stops when neither container has a complete state of the
next expected number. -/
theorem flushStep_eq_none_iff (d : PdcpDl) :
    d.flushStep = none ↔
      ((d.reorderRing.getD (d.slotIndex d.nextExpectedSn) {}).valid &&
        (d.reorderRing.getD (d.slotIndex d.nextExpectedSn) {}).sn ==
          d.nextExpectedSn &&
        (d.reorderRing.getD (d.slotIndex d.nextExpectedSn) {}).state.isComplete) =
          false ∧
      d.overflowDeque.findIdx?
        (fun p => p.1 == d.nextExpectedSn && p.2.isComplete) = none := by
  unfold flushStep
  dsimp only
  split
  · rename_i hslot
    refine ⟨(by intro h; cases h), fun h => ?_⟩
    rw [h.1] at hslot
    cases hslot
  · rename_i hslot
    rw [Bool.not_eq_true] at hslot
    split
    · rename_i hfind
      refine ⟨(by intro h; cases h), fun h => ?_⟩
      rw [h.2] at hfind
      cases hfind
    · rename_i hfind
      exact ⟨fun _ => ⟨hslot, hfind⟩, fun _ => rfl⟩

theorem flushStep_occupied {d d' : PdcpDl} (h : d.flushStep = some d') :
    d'.occupied < d.occupied := by
  rcases flushStep_cases h with ⟨slot, hget, hvalid, _, _, rfl⟩ | ⟨i, hi, _, _, rfl⟩
  · obtain ⟨hlt, heq⟩ := List.getElem?_eq_some_iff.mp hget
    have hpos : 0 < d.reorderRing.countP (·.valid) :=
      List.countP_pos_iff.mpr ⟨slot, List.mem_of_getElem? hget, hvalid⟩
    simp only [occupied, List.countP_set hlt, heq, hvalid, if_true,
      Bool.false_eq_true, if_false]
    omega
  · simp only [occupied, List.length_eraseIdx, hi, if_true]
    omega

/-- `pdcp_dl::flush_completed_in_order`. -/
def flushCompletedInOrder (d : PdcpDl) : PdcpDl :=
  match _h : d.flushStep with
  | none => d
  | some d' => d'.flushCompletedInOrder
termination_by d.occupied
decreasing_by exact flushStep_occupied _h

theorem flush_of_none {d : PdcpDl} (h : d.flushStep = none) :
    d.flushCompletedInOrder = d := by
  rw [flushCompletedInOrder]
  split
  · rfl
  · rename_i d' hd'; rw [h] at hd'; cases hd'

/-- The flush loop: an invariant of the steps, indexed by the number of frames
delivered, holds where the loop stops. -/
theorem flush_rule {P : Nat → PdcpDl → Prop}
    (hstep : ∀ n d d', P n d → d.flushStep = some d' → P (n + 1) d') (n : Nat)
    (d : PdcpDl) (h : P n d) :
    ∃ n', n ≤ n' ∧ P n' d.flushCompletedInOrder ∧
      d.flushCompletedInOrder.flushStep = none := by
  induction d using flushCompletedInOrder.induct generalizing n with
  | case1 d hstop =>
      rw [flush_of_none hstop]
      exact ⟨n, Nat.le_refl n, h, hstop⟩
  | case2 d d' hsome ih =>
      have hflush : d.flushCompletedInOrder = d'.flushCompletedInOrder := by
        rw [flushCompletedInOrder]
        split
        · rename_i hd'; rw [hsome] at hd'; cases hd'
        · rename_i d'' hd'; rw [hsome] at hd'; cases hd'; rfl
      rw [hflush]
      obtain ⟨n', hle, hP, hnone⟩ := ih (n + 1) (hstep n d d' h hsome)
      exact ⟨n', by omega, hP, hnone⟩

/-- The loop of `on_pdcp_data`.  A segment whose `SIZE` is zero passes every
check without moving the cursor, so the loop never ends: the result `none`. -/
def dataLoop (d : PdcpDl) (bytes : List UInt8) :
    Option (PdcpDl × Option DlStatus) :=
  if bytes.isEmpty then some (d, none) else
  match d.dataStep bytes with
  | .error status => some (d, some status)
  | .ok (d', rest) =>
    if rest.length < bytes.length then dataLoop d' rest else none
termination_by bytes.length

/-- `pdcp_dl::on_pdcp_data`: the new state and the returned flag, or `none`
for a call that does not return. -/
def onPdcpData (d : PdcpDl) (pdcp : List UInt8) : Option (PdcpDl × Bool) :=
  if pdcp.isEmpty then some ({ d with status := .inputEmpty }, false) else
  match d.dataLoop pdcp with
  | none => none
  | some (d, some status) => some ({ d with status := status }, false)
  | some (d, none) =>
    some (if d.config.allowReordering then d.flushCompletedInOrder else d, true)

end PdcpDl

/-! ## Runs -/

/-- A call on the downlink. -/
inductive DlOp where
  | data (pdu : List UInt8)
  | pop
  deriving DecidableEq, Repr

/-- The call is a pop, or the delivery of one of the given PDUs. -/
def DlOp.DrawnFrom (pdus : List (List UInt8)) : DlOp → Prop
  | .data pdu => pdu ∈ pdus
  | .pop => True

instance (pdus : List (List UInt8)) (op : DlOp) : Decidable (op.DrawnFrom pdus) :=
  match op with
  | .data pdu => inferInstanceAs (Decidable (pdu ∈ pdus))
  | .pop => inferInstanceAs (Decidable True)

/-- One call, with the frame it popped, if any. -/
def dlStep (d : PdcpDl) : DlOp → Option (PdcpDl × List (List (Option UInt8)))
  | .data pdu => (d.onPdcpData pdu).map (fun r => (r.1, []))
  | .pop => some (d.pop.1, if d.getOutstandingPacket = 0 then [] else [d.pop.2])

/-- A run of calls and the frames it popped, in order. -/
def dlRun (d : PdcpDl) : List DlOp → Option (PdcpDl × List (List (Option UInt8)))
  | [] => some (d, [])
  | op :: ops => do
    let (d', popped) ← dlStep d op
    let (d'', later) ← dlRun d' ops
    pure (d'', popped ++ later)

namespace PdcpDl

/-- `while (get_outstanding_packet()) pop();` with the frames it returns. -/
def popAll (d : PdcpDl) : List (List (Option UInt8)) :=
  match _h : d.completedFrames with
  | [] => []
  | _ :: _ => d.pop.2 :: d.pop.1.popAll
termination_by d.completedFrames.length
decreasing_by simp [pop, _h]

theorem popAll_eq (d : PdcpDl) : d.popAll = d.completedFrames := by
  induction d using popAll.induct with
  | case1 d h =>
      rw [popAll]
      split
      · exact h.symm
      · rename_i hcons; rw [h] at hcons; cases hcons
  | case2 d rv others h ih =>
      rw [popAll]
      split
      · rename_i hnil; rw [h] at hnil; cases hnil
      · rw [ih]
        simp only [pop, h]

/-! ## Processing a PDU of encoded segments -/

/-- The loop body on the content of one segment. -/
def rxSeg (d : PdcpDl) (g : Seg) : PdcpDl :=
  d.rxSegment (if d.config.allowReordering then g.sn else 0)
    (if d.config.allowSegmentation then g.offset else 0) g.last
    (g.payload.map some)

@[simp] theorem setStateAt_config (d : PdcpDl) (p : Place) (st : ReassemblyState) :
    (d.setStateAt p st).config = d.config := by
  cases p <;> rfl

@[simp] theorem getOrPutSlot_config (d : PdcpDl) (sn : Nat) :
    (d.getOrPutSlot sn).2.config = d.config := by
  unfold getOrPutSlot
  split
  · rfl
  · split_ifs <;> rfl

@[simp] theorem locate_config (d : PdcpDl) (sn : Nat) :
    (d.locate sn).2.config = d.config := by
  have hput := d.getOrPutSlot_config sn
  unfold locate
  split
  · rename_i i d' heq
    rw [heq] at hput
    exact hput
  · rename_i d' heq
    rw [heq] at hput
    split <;> exact hput

@[simp] theorem releaseCompleted_config (d : PdcpDl) (sn : Nat) (p : Place) :
    (d.releaseCompleted sn p).config = d.config := by
  cases p with
  | overflow i => rfl
  | ring i =>
      unfold releaseCompleted
      dsimp only
      split
      · split_ifs <;> rfl
      · rfl

@[simp] theorem rxSegment_config (d : PdcpDl) (sn offset : Nat) (last : Bool)
    (payload : List (Option UInt8)) :
    (d.rxSegment sn offset last payload).config = d.config := by
  unfold rxSegment
  dsimp only
  split_ifs <;> simp

@[simp] theorem rxSeg_config (d : PdcpDl) (g : Seg) :
    (d.rxSeg g).config = d.config := rxSegment_config ..

@[simp] theorem foldl_rxSeg_config (gs : List Seg) (d : PdcpDl) :
    (gs.foldl rxSeg d).config = d.config := by
  induction gs generalizing d with
  | nil => rfl
  | cons g gs ih => rw [List.foldl_cons, ih, rxSeg_config]

@[simp] theorem flush_config (d : PdcpDl) :
    d.flushCompletedInOrder.config = d.config := by
  have hstep : ∀ (n : Nat) (e e' : PdcpDl), e.config = d.config →
      e.flushStep = some e' → e'.config = d.config := by
    intro n e e' he hs
    rcases flushStep_cases hs with ⟨_, _, _, _, _, rfl⟩ | ⟨_, _, _, _, rfl⟩ <;> exact he
  obtain ⟨_, _, hcfg, _⟩ :=
    flush_rule (P := fun _ e => e.config = d.config) hstep 0 d rfl
  exact hcfg

/-- One iteration on an encoded segment succeeds and leaves the bytes behind
it. -/
theorem dataStep_encode (d : PdcpDl) (g : Seg) (tail : List UInt8)
    (h : g.Fits d.config.layout) :
    d.dataStep (encode d.config.layout g ++ tail) = .ok (d.rxSeg g, tail) := by
  have hlen : (encode d.config.layout g).length = g.wireSize d.config.layout :=
    encode_length ..
  have hhdr : d.config.layout.headerSize ≤
      (encode d.config.layout g ++ tail).length := by
    rw [List.length_append, hlen, Seg.wireSize]
    omega
  have hread := scan_encode d.config.layout g tail h
  have hpay : g.payload.length ≠ 0 := by
    intro h0
    exact h.payload_ne (List.length_eq_zero_iff.mp h0)
  have hpayload := readPayload_encode d.config.layout g tail
  have hvalid : (scanned d.config.layout
      (encode d.config.layout g ++ tail)).isHeaderValid = true := by
    rw [← rescan_view _ _ hhdr, view_isHeaderValid, decide_eq_true hhdr]
  unfold dataStep
  simp only [rescan_view _ _ hhdr, hvalid, scanned_getHeaderSize, hread.size,
    hread.payloadSize, hread.last, hpayload]
  rw [if_neg (by decide), if_neg (by rw [List.length_append, hlen]; omega),
    if_neg hpay, List.drop_left' hlen]
  have hsn : (if d.config.allowReordering = true then
      (scanned d.config.layout (encode d.config.layout g ++ tail)).getSn else 0) =
      if d.config.allowReordering = true then g.sn else 0 := by
    split
    · rename_i hre
      exact hread.sn hre
    · rfl
  have hoff : (if d.config.allowSegmentation = true then
      (scanned d.config.layout (encode d.config.layout g ++ tail)).getOffset else 0) =
      if d.config.allowSegmentation = true then g.offset else 0 := by
    split
    · rename_i hseg
      exact hread.offset hseg
    · rfl
  rw [hsn, hoff]
  rfl

/-- The loop on a PDU of encoded segments processes them in order. -/
theorem dataLoop_encodeAll (gs : List Seg) (d : PdcpDl)
    (h : ∀ g ∈ gs, g.Fits d.config.layout) :
    d.dataLoop (encodeAll d.config.layout gs) = some (gs.foldl rxSeg d, none) := by
  induction gs generalizing d with
  | nil => rw [dataLoop]; rfl
  | cons g gs ih =>
      have hg := h g (List.mem_cons_self ..)
      have hlen : (encode d.config.layout g).length = g.wireSize d.config.layout :=
        encode_length ..
      have hpos := headerSize_ge d.config.layout
      have hne : (encode d.config.layout g ++
          encodeAll d.config.layout gs).isEmpty = false := by
        rw [List.isEmpty_eq_false_iff_exists_mem.mpr]
        apply List.exists_mem_of_length_pos
        rw [List.length_append, hlen, Seg.wireSize]
        omega
      rw [encodeAll_cons, dataLoop, hne, dataStep_encode d g _ hg]
      simp only [Bool.false_eq_true, if_false, List.length_append, hlen]
      rw [if_pos (by rw [Seg.wireSize]; omega), List.foldl_cons,
        ← ih (d.rxSeg g) (by simpa using fun x hx => h x (List.mem_cons_of_mem _ hx)),
        rxSeg_config]

/-- A PDU of encoded segments is accepted: its segments are processed and,
with reordering on, complete frames are flushed. -/
theorem onPdcpData_encodeAll (d : PdcpDl) (gs : List Seg) (hne : gs ≠ [])
    (h : ∀ g ∈ gs, g.Fits d.config.layout) :
    d.onPdcpData (encodeAll d.config.layout gs) =
      some (if d.config.allowReordering then
          (gs.foldl rxSeg d).flushCompletedInOrder
        else gs.foldl rxSeg d, true) := by
  have hbytes : (encodeAll d.config.layout gs).isEmpty = false := by
    cases gs with
    | nil => exact absurd rfl hne
    | cons g gs =>
        have hpos := headerSize_ge d.config.layout
        rw [List.isEmpty_eq_false_iff_exists_mem.mpr]
        apply List.exists_mem_of_length_pos
        rw [encodeAll_cons, List.length_append, encode_length, Seg.wireSize]
        omega
  rw [onPdcpData, hbytes, dataLoop_encodeAll gs d h]
  simp only [Bool.false_eq_true, if_false, foldl_rxSeg_config]

/-! ## Where a segment goes when reordering is on -/

/-- The reassembly state in the ring slot of `sn`, if the slot holds `sn`. -/
def slotOf (d : PdcpDl) (sn : Nat) : Option ReassemblyState :=
  match d.reorderRing[d.slotIndex sn]? with
  | some slot => if slot.valid && slot.sn == sn then some slot.state else none
  | none => none

/-- The reassembly state of the first overflow entry for `sn`. -/
def overflowOf (d : PdcpDl) (sn : Nat) : Option ReassemblyState :=
  (d.overflowDeque.find? (fun p => p.1 == sn)).map Prod.snd

/-- The slot of `sn` exists and is not occupied. -/
def slotFree (d : PdcpDl) (sn : Nat) : Bool :=
  match d.reorderRing[d.slotIndex sn]? with
  | some slot => !slot.valid
  | none => false

private theorem overflow_cases (d : PdcpDl) (sn offset : Nat) (last : Bool)
    (payload : List (Option UInt8)) (hput : d.getOrPutSlot sn = (none, d)) :
    (∃ (i : Nat) (hi : i < d.overflowDeque.length),
      d.findOverflow sn = some i ∧
      (d.locate sn).2.setStateAt (d.locate sn).1
        (((d.locate sn).2.stateAt (d.locate sn).1).receive offset payload last) =
        { d with
          overflowDeque := d.overflowDeque.set i
            (sn, (d.overflowDeque.get ⟨i, hi⟩).2.receive offset payload last) }) ∨
    (d.findOverflow sn = none ∧
      (d.locate sn).2.setStateAt (d.locate sn).1
        (((d.locate sn).2.stateAt (d.locate sn).1).receive offset payload last) =
        { d with
          overflowDeque := d.overflowDeque ++
            [(sn, ({} : ReassemblyState).receive offset payload last)] }) := by
  cases hfind : d.findOverflow sn with
  | some i =>
      left
      obtain ⟨hi, hp, _⟩ := List.findIdx?_eq_some_iff_getElem.mp hfind
      have hloc : d.locate sn = (.overflow i, d) := by
        simp only [locate, hput, hfind]
      refine ⟨i, hi, rfl, ?_⟩
      rw [hloc]
      simp only [beq_iff_eq] at hp
      simp [setStateAt, stateAt, List.getD_eq_getElem?_getD,
        List.getElem?_eq_getElem hi, hp]
  | none =>
      right
      have hloc : d.locate sn = (.overflow d.overflowDeque.length,
          { d with overflowDeque := d.overflowDeque ++ [(sn, {})] }) := by
        simp only [locate, hput, hfind]
      refine ⟨rfl, ?_⟩
      rw [hloc]
      simp [setStateAt, stateAt, List.getD_eq_getElem?_getD]

/-- With reordering on a segment is stored in exactly one of three ways: in
the ring slot, in the existing overflow entry, or in a new one. -/
theorem rxSegment_cases (d : PdcpDl) (hre : d.config.allowReordering = true)
    (sn offset : Nat) (last : Bool) (payload : List (Option UInt8)) :
    (∃ slot, d.reorderRing[d.slotIndex sn]? = some slot ∧
      (slot.valid = true → slot.sn = sn) ∧
      d.rxSegment sn offset last payload = { d with
        reorderRing := d.reorderRing.set (d.slotIndex sn)
          { sn := sn, valid := true
            state := (if slot.valid then slot.state else {}).receive
              offset payload last } }) ∨
    ((∀ slot, d.reorderRing[d.slotIndex sn]? = some slot →
        slot.valid = true ∧ slot.sn ≠ sn) ∧
      ((∃ (i : Nat) (hi : i < d.overflowDeque.length),
          d.findOverflow sn = some i ∧
          d.rxSegment sn offset last payload = { d with
            overflowDeque := d.overflowDeque.set i
              (sn, (d.overflowDeque.get ⟨i, hi⟩).2.receive offset payload last) }) ∨
        (d.findOverflow sn = none ∧
          d.rxSegment sn offset last payload = { d with
            overflowDeque := d.overflowDeque ++
              [(sn, ({} : ReassemblyState).receive offset payload last)] }))) := by
  have hrx : d.rxSegment sn offset last payload =
      (d.locate sn).2.setStateAt (d.locate sn).1
        (((d.locate sn).2.stateAt (d.locate sn).1).receive offset payload last) := by
    unfold rxSegment
    simp [hre]
  rw [hrx]
  cases hslot : d.reorderRing[d.slotIndex sn]? with
  | none =>
      right
      refine ⟨by simp, ?_⟩
      have hput : d.getOrPutSlot sn = (none, d) := by simp only [getOrPutSlot, hslot]
      exact d.overflow_cases sn offset last payload hput
  | some slot =>
      obtain ⟨hlt, hget⟩ := List.getElem?_eq_some_iff.mp hslot
      by_cases hother : slot.valid = true ∧ slot.sn ≠ sn
      · right
        refine ⟨by intro s hs; cases hs; exact hother, ?_⟩
        have hput : d.getOrPutSlot sn = (none, d) := by
          simp [getOrPutSlot, hslot, hother.1, hother.2]
        exact d.overflow_cases sn offset last payload hput
      · left
        refine ⟨slot, rfl, fun hv => by_contra fun hne => hother ⟨hv, hne⟩, ?_⟩
        cases hv : slot.valid with
        | false =>
            have hloc : d.locate sn = (.ring (d.slotIndex sn), { d with
                reorderRing := d.reorderRing.set (d.slotIndex sn)
                  { sn := sn, state := {}, valid := true } }) := by
              simp [locate, getOrPutSlot, hslot, hv]
            rw [hloc]
            simp [setStateAt, stateAt, List.getD_eq_getElem?_getD, hlt]
        | true =>
            have hsn : slot.sn = sn := by_contra fun hne => hother ⟨hv, hne⟩
            have hloc : d.locate sn = (.ring (d.slotIndex sn), d) := by
              simp [locate, getOrPutSlot, hslot, hv, hsn]
            rw [hloc]
            simp [setStateAt, stateAt, List.getD_eq_getElem?_getD, hslot, hsn, hv]

/-- With reordering on, storing a segment delivers nothing. -/
theorem rxSegment_frame (d : PdcpDl) (hre : d.config.allowReordering = true)
    (sn offset : Nat) (last : Bool) (payload : List (Option UInt8)) :
    (d.rxSegment sn offset last payload).completedFrames = d.completedFrames ∧
    (d.rxSegment sn offset last payload).nextExpectedSn = d.nextExpectedSn := by
  rcases d.rxSegment_cases hre sn offset last payload with
    ⟨_, _, _, heq⟩ | ⟨_, ⟨_, _, _, heq⟩ | ⟨_, heq⟩⟩ <;> rw [heq] <;> exact ⟨rfl, rfl⟩

/-- With reordering off every segment goes to slot 0, and a complete frame is
handed over at once. -/
theorem rxSegment_plain (d : PdcpDl) (hre : d.config.allowReordering = false)
    {slot : Slot} (hslot : d.reorderRing[0]? = some slot)
    (hown : slot.valid = true → slot.sn = 0) (offset : Nat) (last : Bool)
    (payload : List (Option UInt8)) {st : ReassemblyState}
    (hst : (if slot.valid then slot.state else {}).receive offset payload last = st) :
    d.rxSegment 0 offset last payload =
      if st.hasExpectedSize && st.accumulatedSize == st.expectedSize then
        { d with
          outstandingBytes := d.outstandingBytes + st.expectedSize
          completedFrames := d.completedFrames ++ [st.buffer]
          reorderRing := d.reorderRing.set 0 { sn := 0, state := {}, valid := false } }
      else
        { d with
          reorderRing := d.reorderRing.set 0 { sn := 0, state := st, valid := true } } := by
  obtain ⟨hlt, hget⟩ := List.getElem?_eq_some_iff.mp hslot
  have hidx : d.slotIndex 0 = 0 := by
    unfold slotIndex
    split <;> simp
  have hloc : ∃ ring, d.locate 0 = (.ring 0, { d with reorderRing := ring }) ∧
      (ring.getD 0 {}).state = (if slot.valid then slot.state else {}) ∧
      ∀ s, ring.set 0 { ring.getD 0 {} with state := s } =
        d.reorderRing.set 0 { sn := 0, state := s, valid := true } := by
    cases hv : slot.valid with
    | false =>
        refine ⟨d.reorderRing.set 0 { sn := 0, state := {}, valid := true }, ?_, ?_, ?_⟩
        · simp [locate, getOrPutSlot, hidx, hslot, hv]
        · simp [List.getD_eq_getElem?_getD, hlt]
        · intro s
          simp [List.getD_eq_getElem?_getD, hlt]
    | true =>
        refine ⟨d.reorderRing, ?_, ?_, ?_⟩
        · simp [locate, getOrPutSlot, hidx, hslot, hv, hown hv]
        · simp [List.getD_eq_getElem?_getD, hslot]
        · intro s
          simp [List.getD_eq_getElem?_getD, hslot, hv, hown hv]
  obtain ⟨ring, hloc, hstate, hset⟩ := hloc
  unfold rxSegment
  simp only [hloc, stateAt, hstate, hst, setStateAt, hset, hre, Bool.not_false,
    Bool.and_true]
  split
  · simp [releaseCompleted, stateAt, setStateAt, List.getD_eq_getElem?_getD, hlt,
      slotIndex]
  · rfl

end PdcpDl

end Winject.Pdcp
