import Mathlib.Data.Fintype.Card
import Winject.Frames.PdcpSegment
import Winject.Lib.Reassembly

/-!
# The receiver of the first PDCP (`PDCP.cpp`)

`PdcpRx` is the receiving half of `PDCP`: a ring of 8192 reassembly records
indexed by sequence number, the next number to deliver and the queue of
delivered packets.  `storeSegment` and `rxSegment` are the body of the loop of
`on_rx` behind the header checks, `updateStep` is one iteration of the loop of
`update_rx_sn`.

A record keeps, as in the commented-out field of the source, the sequence
number of the segments it was last given.  No function reads it; it names the
packet in statements about the queue.

## Main results

* `updateStep_measure` — the loop of `update_rx_sn` ends.
* `onRx_encodeAll` — on a PDU of encoded segments `on_rx` processes exactly
  these segments, up to a radio link failure.
-/

namespace Winject.LegacyPdcp

open Winject.Frames
open Winject.Lib.Bytes
open Winject.Lib.Reassembly

/-! ## The model -/

/-- The fields of `IPDCP::rx_config_t` that `PDCP` reads. -/
structure RxConfig where
  allowRlf : Bool := false
  allowSegmentation : Bool := false
  allowReordering : Bool := false
  maxSnDistance : Nat := 20
  deriving DecidableEq, Repr

/-- The header layout of a configuration. -/
def RxConfig.layout (cfg : RxConfig) : Layout :=
  ⟨cfg.allowReordering, cfg.allowSegmentation⟩

/-- `PDCP::rx_buffer_info_t`.  A cell of the buffer is `none` where a segment
claimed bytes that the PDU did not have. -/
structure RxBufferInfo where
  hasExpectedSize : Bool := false
  accumulatedSize : Nat := 0
  expectedSize : Nat := 0
  recvdOffsets : List Nat := []
  buffer : List (Option UInt8) := []
  sn : Nat := 0
  deriving DecidableEq, Repr

namespace RxBufferInfo

/-- `rx_buffer_info_t::is_complete`. -/
def isComplete (el : RxBufferInfo) : Bool :=
  el.hasExpectedSize && el.expectedSize == el.accumulatedSize

/-- `rx_buffer_info_t::has_data`. -/
def hasData (el : RxBufferInfo) : Bool := !el.recvdOffsets.isEmpty

/-- `rx_buffer_info_t::reset`; the buffer keeps its contents. -/
def reset (el : RxBufferInfo) : RxBufferInfo :=
  { el with
    hasExpectedSize := false
    accumulatedSize := 0
    expectedSize := 0
    recvdOffsets := [] }

/-- Storing one segment: the statements of `on_rx` from the `resize` to the
last test.  `resize` fills with zeroes. -/
def store (el : RxBufferInfo) (sn offset : Nat) (last : Bool)
    (payload : List (Option UInt8)) : RxBufferInfo :=
  let size := payload.length
  let el := { el with sn := sn }
  let el :=
    if offset + size > el.buffer.length then
      { el with buffer := grow (some 0) (offset + size) el.buffer }
    else el
  let el :=
    if last then { el with expectedSize := offset + size, hasExpectedSize := true }
    else el
  if !el.recvdOffsets.contains offset then
    { el with
      buffer := blit el.buffer offset payload
      recvdOffsets := offset :: el.recvdOffsets
      accumulatedSize := el.accumulatedSize + size }
  else el

end RxBufferInfo

/-- A packet on `to_rx_queue`, with the number of the segments it is made of. -/
structure RxPacket where
  sn : Nat
  buffer : List (Option UInt8)
  deriving DecidableEq, Repr

/-- The receiving half of `PDCP`.  `rlfCount` counts the calls of
`rrc.on_rlf`. -/
structure PdcpRx where
  config : RxConfig
  isRxEnabled : Bool := false
  rxSn : Nat := 0
  rxSnSynced : Bool := false
  rxBufferRing : Fin 8192 → RxBufferInfo := fun _ => {}
  toRxQueue : List RxPacket := []
  rlfCount : Nat := 0

namespace PdcpRx

/-- `PDCP::rx_buffer_ring_index`. -/
def rxBufferRingIndex (sn : Nat) : Fin 8192 := ⟨sn % 8192, Nat.mod_lt _ (by decide)⟩

/-- `PDCP::set_rx_enabled`. -/
def setRxEnabled (d : PdcpRx) (value : Bool) : PdcpRx :=
  { d with
    isRxEnabled := value
    rxBufferRing := fun i => (d.rxBufferRing i).reset
    rxSnSynced := false }

/-- `PDCP::reconfigure(rx_config_t)`. -/
def reconfigure (d : PdcpRx) (config : RxConfig) : PdcpRx :=
  ({ d with config := config }).setRxEnabled d.isRxEnabled

/-- The distance from `rx_sn` up to `sn`, in 16 bits. -/
def snDist (sn rxSn : Nat) : Nat :=
  if sn ≥ rxSn then sn - rxSn else 65535 - rxSn + sn + 1

/-- The record of the next number. -/
def current (d : PdcpRx) : RxBufferInfo := d.rxBufferRing (rxBufferRingIndex d.rxSn)

/-- Hand the packet of the next number over; the buffer is moved out. -/
def deliver (d : PdcpRx) : PdcpRx :=
  { d with
    rxBufferRing := Function.update d.rxBufferRing (rxBufferRingIndex d.rxSn)
      { d.current.reset with buffer := [] }
    rxSn := (d.rxSn + 1) % 65536
    toRxQueue := d.toRxQueue ++ [⟨d.current.sn, d.current.buffer⟩] }

/-- Skip the next number; the buffer stays in its record. -/
def drop (d : PdcpRx) : PdcpRx :=
  { d with
    rxBufferRing := Function.update d.rxBufferRing (rxBufferRingIndex d.rxSn)
      d.current.reset
    rxSn := (d.rxSn + 1) % 65536 }

/-- One iteration of the loop of `update_rx_sn`; the flag is false at a
`break`.  The parameter `sn` is a 16-bit number. -/
def updateStep (d : PdcpRx) (sn : Nat) (fastForward : Bool) : PdcpRx × Bool :=
  if d.current.isComplete then (d.deliver, true)
  else if fastForward then
    (d.drop, !(d.drop.rxSn == sn % 65536 ||
      decide (d.config.maxSnDistance > snDist sn d.rxSn)))
  else (d, false)

/-- The number of complete records, and behind it the distance to `sn`: every
iteration that does not leave the loop lowers this. -/
def updateMeasure (d : PdcpRx) (sn : Nat) : Nat :=
  (Finset.univ.filter (fun i => (d.rxBufferRing i).isComplete = true)).card * 65536 +
    (sn + 131071 - d.rxSn % 65536) % 65536

theorem deliver_complete (d : PdcpRx) (h : d.current.isComplete = true) :
    (Finset.univ.filter (fun i => (d.deliver.rxBufferRing i).isComplete = true)).card <
      (Finset.univ.filter (fun i => (d.rxBufferRing i).isComplete = true)).card := by
  apply Finset.card_lt_card
  rw [Finset.ssubset_iff_of_subset]
  · refine ⟨rxBufferRingIndex d.rxSn, ?_, ?_⟩
    · exact Finset.mem_filter.mpr ⟨Finset.mem_univ _, h⟩
    · intro hmem
      have hc := (Finset.mem_filter.mp hmem).2
      unfold deliver at hc
      dsimp only at hc
      rw [Function.update_self] at hc
      cases hc
  · intro i hi
    have hc := (Finset.mem_filter.mp hi).2
    unfold deliver at hc
    dsimp only at hc
    refine Finset.mem_filter.mpr ⟨Finset.mem_univ _, ?_⟩
    by_cases hidx : i = rxBufferRingIndex d.rxSn
    · subst hidx
      exact h
    · rwa [Function.update_of_ne hidx] at hc

theorem drop_complete (d : PdcpRx) :
    (Finset.univ.filter (fun i => (d.drop.rxBufferRing i).isComplete = true)).card ≤
      (Finset.univ.filter (fun i => (d.rxBufferRing i).isComplete = true)).card := by
  apply Finset.card_le_card
  intro i hi
  have hc := (Finset.mem_filter.mp hi).2
  unfold drop at hc
  dsimp only at hc
  refine Finset.mem_filter.mpr ⟨Finset.mem_univ _, ?_⟩
  by_cases hidx : i = rxBufferRingIndex d.rxSn
  · subst hidx
    rw [Function.update_self] at hc
    cases hc
  · rwa [Function.update_of_ne hidx] at hc

theorem updateStep_measure {d : PdcpRx} {sn : Nat} {fastForward : Bool}
    (h : (d.updateStep sn fastForward).2 = true) :
    (d.updateStep sn fastForward).1.updateMeasure sn < d.updateMeasure sn := by
  unfold updateStep at h ⊢
  by_cases hc : d.current.isComplete = true
  · rw [if_pos hc]
    have hlt := d.deliver_complete hc
    show d.deliver.updateMeasure sn < d.updateMeasure sn
    unfold updateMeasure
    omega
  · rw [if_neg hc] at h ⊢
    cases fastForward with
    | false => cases h
    | true =>
        simp only [if_true, Bool.not_eq_true', Bool.or_eq_false_iff,
          beq_eq_false_iff_ne] at h ⊢
        have hle := d.drop_complete
        have hne := h.1
        unfold updateMeasure
        have hsn : d.drop.rxSn = (d.rxSn + 1) % 65536 := rfl
        rw [hsn] at hne ⊢
        omega

/-- The loop of `update_rx_sn`. -/
def updateLoop (d : PdcpRx) (sn : Nat) (fastForward : Bool) : PdcpRx :=
  if _h : (d.updateStep sn fastForward).2 = true then
    (d.updateStep sn fastForward).1.updateLoop sn fastForward
  else (d.updateStep sn fastForward).1
termination_by d.updateMeasure sn
decreasing_by exact updateStep_measure _h

theorem updateLoop_of_more {d : PdcpRx} {sn : Nat} {fastForward : Bool}
    (h : (d.updateStep sn fastForward).2 = true) :
    d.updateLoop sn fastForward =
      (d.updateStep sn fastForward).1.updateLoop sn fastForward := by
  rw [updateLoop, dif_pos h]

theorem updateLoop_of_stop {d : PdcpRx} {sn : Nat} {fastForward : Bool}
    (h : ¬ (d.updateStep sn fastForward).2 = true) :
    d.updateLoop sn fastForward = (d.updateStep sn fastForward).1 := by
  rw [updateLoop, dif_neg h]

/-- What deliveries and skips preserve, the loop preserves. -/
theorem updateLoop_rule (Inv : PdcpRx → Prop) {sn : Nat} {fastForward : Bool}
    (hdeliver : ∀ d, Inv d → d.current.isComplete = true → Inv d.deliver)
    (hdrop : fastForward = true → ∀ d, Inv d → d.current.isComplete = false → Inv d.drop)
    (d : PdcpRx) (h : Inv d) : Inv (d.updateLoop sn fastForward) := by
  have hstep : ∀ e, Inv e → Inv (e.updateStep sn fastForward).1 := by
    intro e he
    unfold updateStep
    split_ifs with hc hff
    · exact hdeliver e he hc
    · exact hdrop hff e he (by rwa [Bool.not_eq_true] at hc)
    · exact he
  induction d using updateLoop.induct sn fastForward with
  | case1 d hmore ih =>
      rw [updateLoop_of_more hmore]
      exact ih (hstep d h)
  | case2 d hstop =>
      rw [updateLoop_of_stop hstop]
      exact hstep d h

/-- `PDCP::update_rx_sn`. -/
def updateRxSn (d : PdcpRx) (sn : Nat) (fastForward : Bool) : PdcpRx :=
  if !d.config.allowReordering then
    let el := d.rxBufferRing 0
    { d with
      rxBufferRing := Function.update d.rxBufferRing 0 { el.reset with buffer := [] }
      toRxQueue := d.toRxQueue ++ [⟨el.sn, el.buffer⟩] }
  else d.updateLoop sn fastForward

/-- The configuration uses record `i` of the ring: without reordering every
segment is stored in record 0. -/
def Uses (cfg : RxConfig) (i : Fin 8192) : Prop := cfg.allowReordering = true ∨ i = 0

/-- Synchronise to the first segment of a session. -/
def sync (d : PdcpRx) (sn : Nat) : PdcpRx :=
  if !d.rxSnSynced then { d with rxSnSynced := true, rxSn := sn } else d

/-- The end of an iteration of the loop of `on_rx`: the segment is stored in
its record unless that is complete, and a completed record advances `rx_sn`. -/
def storeSegment (d : PdcpRx) (sn offset : Nat) (last : Bool)
    (payload : List (Option UInt8)) (fastForward : Bool) : PdcpRx :=
  let el := d.rxBufferRing (rxBufferRingIndex sn)
  if el.isComplete then d else
  let el := el.store sn offset last payload
  let d := { d with
    rxBufferRing := Function.update d.rxBufferRing (rxBufferRingIndex sn) el }
  if el.isComplete then d.updateRxSn sn fastForward else d

/-- The number is behind `rx_sn` by at most one more than the configured
distance. -/
def isBefore (d : PdcpRx) (sn : Nat) : Bool :=
  decide (snDist sn d.rxSn ≠ 0) &&
    decide (65535 - snDist sn d.rxSn ≤ d.config.maxSnDistance)

/-- The number is ahead of `rx_sn` by more than the configured distance. -/
def isOutOfRange (d : PdcpRx) (sn : Nat) : Bool :=
  decide (snDist sn d.rxSn > d.config.maxSnDistance)

/-- The body of the loop of `on_rx` behind the header checks; the flag is false
at the `break` after a radio link failure. -/
def rxSegment (d : PdcpRx) (sn offset : Nat) (last : Bool)
    (payload : List (Option UInt8)) : PdcpRx × Bool :=
  let d := d.sync sn
  if d.isBefore sn then (d, true)
  else if d.isOutOfRange sn && d.config.allowRlf then
    ({ d with rlfCount := d.rlfCount + 1 }, false)
  else (d.storeSegment sn offset last payload (d.isOutOfRange sn), true)

/-- One iteration of the loop of `on_rx`: the new state, the bytes left and
whether the loop goes on. -/
def rxStep (d : PdcpRx) (bytes : List UInt8) : PdcpRx × List UInt8 × Bool :=
  let segment := (view d.config.layout bytes).rescan
  if segment.getHeaderSize ≥ bytes.length then (d, bytes, false) else
  let sn := if d.config.allowReordering then segment.getSn else 0
  if segment.getSize > bytes.length then (d, bytes, false) else
  let offset := if d.config.allowSegmentation then segment.getOffset else 0
  let payload := readPayload bytes segment.getHeaderSize segment.getPayloadSize
  let (d, more) := d.rxSegment sn offset segment.isLast payload
  (d, bytes.drop segment.getSize, more)

/-- The loop of `on_rx`.  A segment whose `SIZE` is zero leaves the cursor where
it is, and the loop reads the same header again: the result `none`. -/
def rxLoop (d : PdcpRx) (bytes : List UInt8) : Option PdcpRx :=
  if bytes.isEmpty then some d else
  let r := d.rxStep bytes
  if !r.2.2 then some r.1
  else if r.2.1.length < bytes.length then r.1.rxLoop r.2.1 else none
termination_by bytes.length

theorem rxLoop_eq (d : PdcpRx) (bytes : List UInt8) :
    d.rxLoop bytes =
      if bytes.isEmpty then some d
      else if !(d.rxStep bytes).2.2 then some (d.rxStep bytes).1
      else if (d.rxStep bytes).2.1.length < bytes.length then
        (d.rxStep bytes).1.rxLoop (d.rxStep bytes).2.1
      else none := by
  rw [rxLoop]

/-- `PDCP::on_rx`: the new state, or `none` for a call that does not return. -/
def onRx (d : PdcpRx) (pdu : List UInt8) : Option PdcpRx :=
  if !d.isRxEnabled then some d
  else if 0 ≥ pdu.length then some d
  else d.rxLoop pdu

end PdcpRx

/-- The calls of `on_rx` on a list of PDUs. -/
def rxRun (d : PdcpRx) : List (List UInt8) → Option PdcpRx
  | [] => some d
  | pdu :: pdus => (d.onRx pdu).bind fun d' => rxRun d' pdus

/-- A receiver that has just been enabled. -/
def PdcpRx.enabled (cfg : RxConfig) : PdcpRx :=
  ({ config := cfg } : PdcpRx).setRxEnabled true

namespace PdcpRx

/-! ## Processing a PDU of encoded segments -/

/-- The loop body on the content of one segment. -/
def rxSeg (d : PdcpRx) (g : Seg) : PdcpRx × Bool :=
  d.rxSegment (if d.config.allowReordering then g.sn else 0)
    (if d.config.allowSegmentation then g.offset else 0) g.last (g.payload.map some)

/-- The loop body on one segment after another. -/
def rxSegs (d : PdcpRx) : List Seg → PdcpRx
  | [] => d
  | g :: gs => if (d.rxSeg g).2 then (d.rxSeg g).1.rxSegs gs else (d.rxSeg g).1

/-- What the processing of a segment leaves alone. -/
structure SameSetup (d d' : PdcpRx) : Prop where
  config : d'.config = d.config
  enabled : d'.isRxEnabled = d.isRxEnabled

theorem updateLoop_setup (d : PdcpRx) (sn : Nat) (fastForward : Bool) :
    SameSetup d (d.updateLoop sn fastForward) := by
  have hstep : ∀ e : PdcpRx, SameSetup e (e.updateStep sn fastForward).1 := by
    intro e
    unfold updateStep deliver drop
    split_ifs <;> exact ⟨rfl, rfl⟩
  induction d using updateLoop.induct sn fastForward with
  | case1 d hmore ih =>
      rw [updateLoop, dif_pos hmore]
      exact ⟨ih.config.trans (hstep d).config, ih.enabled.trans (hstep d).enabled⟩
  | case2 d hstop =>
      rw [updateLoop, dif_neg hstop]
      exact hstep d

theorem updateRxSn_setup (d : PdcpRx) (sn : Nat) (fastForward : Bool) :
    SameSetup d (d.updateRxSn sn fastForward) := by
  unfold updateRxSn
  split_ifs
  · exact ⟨rfl, rfl⟩
  · exact updateLoop_setup d sn fastForward

theorem rxSegment_setup (d : PdcpRx) (sn offset : Nat) (last : Bool)
    (payload : List (Option UInt8)) :
    SameSetup d (d.rxSegment sn offset last payload).1 := by
  have hsync : SameSetup d (d.sync sn) := by
    unfold sync
    split_ifs <;> exact ⟨rfl, rfl⟩
  have hupdate : ∀ (e : PdcpRx) (ff : Bool), SameSetup e (e.updateRxSn sn ff) :=
    fun e ff => updateRxSn_setup e sn ff
  have hstore : ∀ (e : PdcpRx) (ff : Bool),
      SameSetup e (e.storeSegment sn offset last payload ff) := by
    intro e ff
    unfold storeSegment
    dsimp only
    split_ifs
    · exact ⟨rfl, rfl⟩
    · exact ⟨(hupdate _ ff).config, (hupdate _ ff).enabled⟩
    · exact ⟨rfl, rfl⟩
  unfold rxSegment
  dsimp only
  split_ifs
  · exact hsync
  · exact ⟨hsync.config, hsync.enabled⟩
  · exact ⟨(hstore _ _).config.trans hsync.config,
      (hstore _ _).enabled.trans hsync.enabled⟩

theorem rxSeg_setup (d : PdcpRx) (g : Seg) : SameSetup d (d.rxSeg g).1 :=
  rxSegment_setup ..

theorem rxSegs_setup (d : PdcpRx) (gs : List Seg) : SameSetup d (d.rxSegs gs) := by
  induction gs generalizing d with
  | nil => exact ⟨rfl, rfl⟩
  | cons g gs ih =>
      have hone := d.rxSeg_setup g
      have hrest := ih (d.rxSeg g).1
      unfold rxSegs
      split_ifs
      · exact ⟨hrest.config.trans hone.config, hrest.enabled.trans hone.enabled⟩
      · exact hone

/-- One iteration on an encoded segment with at least one byte behind its
header. -/
theorem rxStep_encode_header (d : PdcpRx) (g : Seg) (tail : List UInt8)
    (h : g.FitsHeader d.config.layout) (hmore : 0 < g.payload.length + tail.length) :
    d.rxStep (encode d.config.layout g ++ tail) = ((d.rxSeg g).1, tail, (d.rxSeg g).2) := by
  have hlen : (encode d.config.layout g).length = g.wireSize d.config.layout :=
    encode_length ..
  have hhdr : d.config.layout.headerSize <
      (encode d.config.layout g ++ tail).length := by
    rw [List.length_append, hlen, Seg.wireSize]
    omega
  have hread := scan_encode_header d.config.layout g tail h
  have hpayload := readPayload_encode d.config.layout g tail
  unfold rxStep
  simp only [rescan_view _ _ hhdr.le, scanned_getHeaderSize, hread.size, hread.payloadSize,
    hread.last, hpayload]
  rw [if_neg (by omega), if_neg (by rw [List.length_append, hlen]; omega),
    List.drop_left' hlen]
  have hsn : (if d.config.allowReordering = true then
      (scanned d.config.layout (encode d.config.layout g ++ tail)).getSn else 0) =
      if d.config.allowReordering = true then g.sn else 0 := by
    split
    · rename_i hre
      exact hread.sn hre
    · rfl
  have hoff : (if d.config.allowSegmentation = true then
      (scanned d.config.layout (encode d.config.layout g ++ tail)).getOffset else 0) =
      if d.config.allowSegmentation = true then g.offset else 0 := by
    split
    · rename_i hseg
      exact hread.offset hseg
    · rfl
  rw [hsn, hoff]
  rfl

/-- One iteration on an encoded segment. -/
theorem rxStep_encode (d : PdcpRx) (g : Seg) (tail : List UInt8)
    (h : g.Fits d.config.layout) :
    d.rxStep (encode d.config.layout g ++ tail) = ((d.rxSeg g).1, tail, (d.rxSeg g).2) := by
  have hpay : 0 < g.payload.length := List.length_pos_iff.mpr h.payload_ne
  exact rxStep_encode_header d g tail h.header (by omega)

theorem rxLoop_encodeAll (gs : List Seg) (d : PdcpRx)
    (h : ∀ g ∈ gs, g.Fits d.config.layout) :
    d.rxLoop (encodeAll d.config.layout gs) = some (d.rxSegs gs) := by
  induction gs generalizing d with
  | nil => rw [rxLoop]; rfl
  | cons g gs ih =>
      have hg := h g (List.mem_cons_self ..)
      have hlen : (encode d.config.layout g).length = g.wireSize d.config.layout :=
        encode_length ..
      have hpos := headerSize_ge d.config.layout
      have hne : (encode d.config.layout g ++
          encodeAll d.config.layout gs).isEmpty = false := by
        rw [List.isEmpty_eq_false_iff]
        intro hnil
        have := congrArg List.length hnil
        rw [List.length_append, hlen, Seg.wireSize, List.length_nil] at this
        omega
      rw [encodeAll_cons, rxLoop, hne, rxStep_encode d g _ hg, rxSegs]
      simp only [Bool.false_eq_true, if_false, List.length_append, hlen]
      cases hmore : (d.rxSeg g).2 with
      | false => rfl
      | true =>
          have hcfg := (d.rxSeg_setup g).config
          have hrest := ih (d.rxSeg g).1
            (by rw [hcfg]; exact fun x hx => h x (List.mem_cons_of_mem _ hx))
          rw [hcfg] at hrest
          simp only [Bool.not_true, Bool.false_eq_true, if_false, if_true]
          rw [if_pos (by rw [Seg.wireSize]; omega), hrest]

/-- A PDU of encoded segments is processed segment by segment. -/
theorem onRx_encodeAll (d : PdcpRx) (gs : List Seg) (hne : gs ≠ [])
    (hen : d.isRxEnabled = true) (h : ∀ g ∈ gs, g.Fits d.config.layout) :
    d.onRx (encodeAll d.config.layout gs) = some (d.rxSegs gs) := by
  have hpos : ¬ 0 ≥ (encodeAll d.config.layout gs).length := by
    cases gs with
    | nil => exact absurd rfl hne
    | cons g gs =>
        have hhdr := headerSize_ge d.config.layout
        rw [encodeAll_cons, List.length_append, encode_length, Seg.wireSize]
        omega
  rw [onRx, hen, if_neg (by decide), if_neg hpos, rxLoop_encodeAll gs d h]

end PdcpRx

/-! ## A record as an assembly -/

namespace RxBufferInfo

/-- What a record knows about its packet. -/
def asm (el : RxBufferInfo) : Assembly (Option UInt8) where
  buffer := el.buffer
  accumulated := el.accumulatedSize
  expected := if el.hasExpectedSize then some el.expectedSize else none
  offsets := el.recvdOffsets

theorem asm_isComplete (el : RxBufferInfo) : el.asm.isComplete = el.isComplete := by
  unfold Assembly.isComplete asm isComplete
  cases el.hasExpectedSize <;> simp

theorem store_asm (el : RxBufferInfo) (sn offset : Nat) (last : Bool)
    (payload : List (Option UInt8)) :
    (el.store sn offset last payload).asm =
      el.asm.absorb (some 0) offset payload last := by
  have hkeep : ¬ offset + payload.length > el.buffer.length →
      grow (some 0) (offset + payload.length) el.buffer = el.buffer :=
    fun h => grow_of_le _ _ _ (by omega)
  unfold store
  by_cases hlen : offset + payload.length > el.buffer.length
  · by_cases hdup : offset ∈ el.recvdOffsets <;> cases last <;>
      simp [asm, Assembly.absorb, hlen, hdup]
  · by_cases hdup : offset ∈ el.recvdOffsets <;> cases last <;>
      simp [asm, Assembly.absorb, hlen, hdup, hkeep hlen]

theorem store_sn (el : RxBufferInfo) (sn offset : Nat) (last : Bool)
    (payload : List (Option UInt8)) : (el.store sn offset last payload).sn = sn := by
  unfold store
  dsimp only
  split_ifs <;> rfl

end RxBufferInfo

end Winject.LegacyPdcp
