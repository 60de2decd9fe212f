import Winject.Frames.PdcpSegment
import Winject.Lib.Segmentation

/-!
# The PDCP uplink (`pdcp/pdcp_ul.cpp`)

`PdcpUl` is the state of `pdcp_ul`: the queue of frames, the offset into the
front frame, the sequence number and the byte totals.  `writePdcp` fills an
output buffer with segments; its loop body is `writeStep` (`none` is a
`break`), iterated by `writeLoop`.

The second half is the specification of the transmitter in terms of
`Segmentation.Emits`: a run of `on_frame_data` and `write_pdcp` calls emits
consecutive pieces of the pushed frames, and each written buffer is the
concatenated encoding of its pieces.

## Main results

* `writeStep_cases` — one iteration breaks or appends one encoded piece.
* `writeLoop_emits`, `writePdcp_emits` — a call emits consecutive pieces.
* `ulRun_emits` — so does a whole run, from the first byte on.
* `UlAt.drained` — with no outstanding bytes every frame has been sent.

Byte totals are natural numbers: a `size_t` cannot overflow by counting the
bytes that pass through the queue.
-/

namespace Winject.Pdcp

open Winject.Frames
open Winject.Lib.Segmentation

/-! ## The model -/

/-- `pdcp_ul_config_t`. -/
structure PdcpUlConfig where
  allowSegmentation : Bool := false
  allowReordering : Bool := false
  minCommitSize : Nat := 7
  deriving DecidableEq, Repr

/-- `pdcp_ul::status_code_e`. -/
inductive UlStatus where
  | success
  | outputEmpty
  | outputLessThanMinCommitSize
  | noData
  | noSegmentsWritten
  deriving DecidableEq, Repr

/-- The state of `pdcp_ul`. -/
structure PdcpUl where
  config : PdcpUlConfig
  status : UlStatus := .success
  outstandingBuffers : List (List UInt8) := []
  dataOffset : Nat := 0
  sequenceNumber : Nat := 0
  totalInBytes : Nat := 0
  totalOutBytes : Nat := 0
  deriving DecidableEq, Repr

/-- The header layout of a configuration. -/
def PdcpUlConfig.layout (cfg : PdcpUlConfig) : Layout :=
  ⟨cfg.allowReordering, cfg.allowSegmentation⟩

/-- `pdcp_ul::on_frame_data`. -/
def PdcpUl.onFrameData (u : PdcpUl) (packet : List UInt8) : PdcpUl × Bool :=
  if packet.isEmpty then (u, false)
  else
    ({ u with
        outstandingBuffers := u.outstandingBuffers ++ [packet]
        totalInBytes := u.totalInBytes + packet.length }, true)

/-- `pdcp_ul::get_outstanding_bytes`. -/
def PdcpUl.getOutstandingBytes (u : PdcpUl) : Nat :=
  if u.totalInBytes < u.totalOutBytes then 0
  else u.totalInBytes - u.totalOutBytes

/-- The variables of the loop of `write_pdcp`.  The output buffer is split at
`payload_cursor` into `written` and `rest`, so that `available_for_data` is
the length of `rest`. -/
structure WriteState where
  ul : PdcpUl
  written : List UInt8
  rest : List UInt8
  totalPdcpWritten : Nat
  segmentsAllocated : Nat
  deriving DecidableEq, Repr

/-- One iteration of the loop of `write_pdcp`; `none` leaves the loop. -/
def writeStep (s : WriteState) : Option WriteState :=
  let u := s.ul
  let availableForData := s.rest.length
  match u.outstandingBuffers with
  | [] => none
  | front :: others =>
    if availableForData = 0 then none else
    let segment := (view u.config.layout s.rest).rescan
    if !segment.isHeaderValid then none else
    let maxSegmentPayload := availableForData - segment.getHeaderSize
    if maxSegmentPayload = 0 then none else
    let frameRemaining := front.length - u.dataOffset
    if frameRemaining = 0 then
      some { s with ul := { u with outstandingBuffers := others, dataOffset := 0 } }
    else if frameRemaining > maxSegmentPayload && !u.config.allowSegmentation then
      none
    else
      let copySize := min frameRemaining maxSegmentPayload
      let segment := segment.copyPayload ((front.drop u.dataOffset).take copySize)
      let segment :=
        if u.config.allowReordering then segment.setSn u.sequenceNumber else segment
      let segment :=
        if u.config.allowSegmentation then segment.setOffset u.dataOffset else segment
      let dataOffset := u.dataOffset + copySize
      let isLastSegmentOfFrame := decide (dataOffset ≥ front.length)
      let segment := segment.setLast isLastSegmentOfFrame
      let segment := segment.setPayloadSize copySize
      let segSize := segment.getSize
      let u := { u with
        dataOffset := dataOffset
        totalOutBytes := u.totalOutBytes + copySize }
      let u := if isLastSegmentOfFrame then
          { u with
            outstandingBuffers := others
            dataOffset := 0
            sequenceNumber := (u.sequenceNumber + 1) % 65536 }
        else u
      some
        { ul := u
          written := s.written ++ segment.base.take segSize
          rest := segment.base.drop segSize
          totalPdcpWritten := s.totalPdcpWritten + segSize
          segmentsAllocated := s.segmentsAllocated + 1 }

/-- Bytes and frames still queued: every iteration that does not leave the
loop lowers this. -/
def PdcpUl.queuedWork (u : PdcpUl) : Nat :=
  match u.outstandingBuffers with
  | [] => 0
  | front :: others =>
    (front.length - u.dataOffset) + 1 + (others.map (fun f => f.length + 1)).sum

private theorem queuedWork_pop (others : List (List UInt8)) (u : PdcpUl)
    (hq : u.outstandingBuffers = others) (hoff : u.dataOffset = 0) :
    u.queuedWork = (others.map (fun f => f.length + 1)).sum := by
  unfold PdcpUl.queuedWork
  rw [hq, hoff]
  cases others with
  | nil => rfl
  | cons f fs => simp

theorem writeStep_queuedWork {s s' : WriteState} (h : writeStep s = some s') :
    s'.ul.queuedWork < s.ul.queuedWork := by
  unfold writeStep at h
  cases hq : s.ul.outstandingBuffers with
  | nil => simp [hq] at h
  | cons front others =>
      have hold : s.ul.queuedWork = (front.length - s.ul.dataOffset) + 1 +
          (others.map (fun f => f.length + 1)).sum := by
        unfold PdcpUl.queuedWork
        rw [hq]
      simp only [hq] at h
      split at h
      · cases h
      split at h
      · cases h
      split at h
      · cases h
      rename_i hmax
      split at h
      · -- an exhausted front frame is dropped
        obtain rfl := Option.some.inj h
        rw [queuedWork_pop others _ rfl rfl, hold]
        omega
      rename_i hrem
      split at h
      · cases h
      obtain rfl := Option.some.inj h
      dsimp only
      split
      · rw [queuedWork_pop others _ rfl rfl, hold]
        omega
      · unfold PdcpUl.queuedWork
        simp only [hq]
        omega

/-- The loop of `write_pdcp`. -/
def writeLoop (s : WriteState) : WriteState :=
  match _h : writeStep s with
  | none => s
  | some s' => writeLoop s'
termination_by s.ul.queuedWork
decreasing_by exact writeStep_queuedWork _h

/-- The result of `write_pdcp`: the new state, the returned count (`none` is
the `-1` of a failed call) and the output buffer. -/
structure WriteResult where
  ul : PdcpUl
  count : Option Nat
  buffer : List UInt8
  deriving DecidableEq, Repr

/-- `pdcp_ul::write_pdcp`. -/
def PdcpUl.writePdcp (u : PdcpUl) (buffer : List UInt8) : WriteResult :=
  if buffer.isEmpty then
    ⟨{ u with status := .outputEmpty }, none, buffer⟩
  else if u.config.minCommitSize > buffer.length then
    ⟨{ u with status := .outputLessThanMinCommitSize }, none, buffer⟩
  else if u.outstandingBuffers.isEmpty then
    ⟨{ u with status := .noData }, none, buffer⟩
  else
    let s := writeLoop ⟨u, [], buffer, 0, 0⟩
    if s.segmentsAllocated = 0 then
      ⟨{ s.ul with status := .noSegmentsWritten }, none, s.written ++ s.rest⟩
    else
      ⟨{ s.ul with status := .success }, some s.totalPdcpWritten,
        s.written ++ s.rest⟩

/-! ## Runs -/

/-- A call on the uplink. -/
inductive UlOp where
  | frame (packet : List UInt8)
  | write (buffer : List UInt8)
  deriving DecidableEq, Repr

/-- One call, with the PDU it wrote: the first `count` bytes of the buffer. -/
def ulStep (u : PdcpUl) : UlOp → PdcpUl × Option (List UInt8)
  | .frame packet => ((u.onFrameData packet).1, none)
  | .write buffer =>
    let r := u.writePdcp buffer
    (r.ul, r.count.map (fun n => r.buffer.take n))

/-- A run of calls and the PDUs it wrote, in order. -/
def ulRun (u : PdcpUl) : List UlOp → PdcpUl × List (List UInt8)
  | [] => (u, [])
  | op :: ops =>
    let (u', pdu) := ulStep u op
    let (u'', pdus) := ulRun u' ops
    (u'', pdu.toList ++ pdus)

/-- The frames pushed by a run. -/
def pushedFrames : List UlOp → List (List UInt8)
  | [] => []
  | .frame packet :: ops => packet :: pushedFrames ops
  | .write _ :: ops => pushedFrames ops

theorem ulRun_append (u : PdcpUl) (a b : List UlOp) :
    ulRun u (a ++ b) = ((ulRun (ulRun u a).1 b).1,
      (ulRun u a).2 ++ (ulRun (ulRun u a).1 b).2) := by
  induction a generalizing u with
  | nil => rfl
  | cons op a ih => simp only [List.cons_append, ulRun, ih, List.append_assoc]

theorem pushedFrames_append (a b : List UlOp) :
    pushedFrames (a ++ b) = pushedFrames a ++ pushedFrames b := by
  induction a with
  | nil => rfl
  | cons op a ih => cases op <;> simp only [List.cons_append, pushedFrames, ih]

/-- The frames a run may push: not empty and at most 65535 bytes. -/
def FrameOk (f : List UInt8) : Prop := f ≠ [] ∧ f.length ≤ 65535

instance (f : List UInt8) : Decidable (FrameOk f) :=
  inferInstanceAs (Decidable (f ≠ [] ∧ f.length ≤ 65535))

/-- The calls of a run: admissible frames, and output buffers of at most
`limit` bytes. -/
def OpOk (limit : Nat) : UlOp → Prop
  | .frame packet => FrameOk packet
  | .write buffer => buffer.length ≤ limit

instance (limit : Nat) (op : UlOp) : Decidable (OpOk limit op) :=
  match op with
  | .frame packet => inferInstanceAs (Decidable (FrameOk packet))
  | .write buffer => inferInstanceAs (Decidable (buffer.length ≤ limit))

/-! ## The transmitter emits consecutive pieces -/

/-- The segment that carries a piece. -/
def segOf (frames : List (List UInt8)) (p : Piece) : Seg where
  sn := p.frame % 65536
  offset := p.offset
  last := p.isLast frames
  payload := p.bytes frames

/-- The PDU that carries a list of pieces. -/
def pduOf (l : Layout) (frames : List (List UInt8)) (ps : List Piece) :
    List UInt8 :=
  encodeAll l (ps.map (segOf frames))

/-- Pushing frames does not change the segments of the earlier ones. -/
theorem segOf_push {frames : List (List UInt8)} (fs : List (List UInt8)) {p : Piece}
    (hp : p.frame < frames.length) : segOf (frames ++ fs) p = segOf frames p := by
  have hget : (frames ++ fs).getD p.frame [] = frames.getD p.frame [] :=
    List.getD_append _ _ _ _ hp
  simp only [segOf, Piece.isLast, Piece.bytes, hget]

theorem pduOf_push {l : Layout} {frames : List (List UInt8)}
    (fs : List (List UInt8)) {ps : List Piece}
    (hps : ∀ p ∈ ps, p.frame < frames.length) :
    pduOf l (frames ++ fs) ps = pduOf l frames ps := by
  unfold pduOf
  congr 1
  exact List.map_congr_left (fun p hp => segOf_push fs (hps p hp))

/-- The uplink stands at byte `off` of frame `k` of the pushed frames. -/
structure UlAt (cfg : PdcpUlConfig) (frames : List (List UInt8)) (pos : Nat × Nat)
    (u : PdcpUl) : Prop where
  config : u.config = cfg
  queue : u.outstandingBuffers = frames.drop pos.1
  offset : u.dataOffset = pos.2
  sn : u.sequenceNumber = pos.1 % 65536
  totalIn : u.totalInBytes = (frames.map List.length).sum
  totalOut : u.totalOutBytes = ((frames.take pos.1).map List.length).sum + pos.2
  le : pos.1 ≤ frames.length
  inside : pos.2 = 0 ∨ pos.1 < frames.length ∧ pos.2 < (frames.getD pos.1 []).length
  whole : cfg.allowSegmentation = false → pos.2 = 0

theorem segOf_fits {frames : List (List UInt8)} {p : Piece} (l : Layout)
    (hlen : (frames.getD p.frame []).length ≤ 65535) (hpos : 0 < p.len)
    (hle : p.offset + p.len ≤ (frames.getD p.frame []).length)
    (hsize : l.headerSize + p.len < 32768) : (segOf frames p).Fits l where
  sn_lt := Nat.mod_lt _ (by decide)
  offset_lt := by
    show p.offset < 65536
    omega
  size_lt := by
    have : (p.bytes frames).length ≤ p.len := by
      simp only [Piece.bytes, List.length_take]
      omega
    show l.headerSize + (p.bytes frames).length < 32768
    omega
  payload_ne := by
    intro hnil
    have hzero : (p.bytes frames).length = 0 := by
      rw [show p.bytes frames = [] from hnil]
      rfl
    simp only [Piece.bytes, List.length_take, List.length_drop] at hzero
    omega

theorem segOf_payload_length {frames : List (List UInt8)} {p : Piece}
    (hle : p.offset + p.len ≤ (frames.getD p.frame []).length) :
    (segOf frames p).payload.length = p.len := by
  show (p.bytes frames).length = p.len
  simp only [Piece.bytes, List.length_take, List.length_drop]
  omega

theorem segOf_wireSize {frames : List (List UInt8)} {p : Piece} (l : Layout)
    (hle : p.offset + p.len ≤ (frames.getD p.frame []).length) :
    (segOf frames p).wireSize l = l.headerSize + p.len := by
  rw [Seg.wireSize, segOf_payload_length hle]

/-- The outcome of one iteration that writes piece `p`. -/
structure Wrote (cfg : PdcpUlConfig) (frames : List (List UInt8)) (p : Piece)
    (s s' : WriteState) : Prop where
  valid : p.frame < frames.length ∧ 0 < p.len ∧
    p.offset + p.len ≤ (frames.getD p.frame []).length
  whole : cfg.allowSegmentation = false →
    p.offset = 0 ∧ p.len = (frames.getD p.frame []).length
  fits : cfg.layout.headerSize + p.len ≤ s.rest.length
  written : s'.written = s.written ++ encode cfg.layout (segOf frames p)
  rest : s'.rest = s.rest.drop (cfg.layout.headerSize + p.len)
  total : s'.totalPdcpWritten =
    s.totalPdcpWritten + (cfg.layout.headerSize + p.len)
  count : s'.segmentsAllocated = s.segmentsAllocated + 1
  state : UlAt cfg frames (p.next frames) s'.ul

/-- The total sent after the piece that ends frame `k`. -/
private theorem sum_take_succ (frames : List (List UInt8)) (k : Nat)
    (hk : k < frames.length) :
    ((frames.take (k + 1)).map List.length).sum =
      ((frames.take k).map List.length).sum + (frames.getD k []).length := by
  rw [List.take_add_one, List.getElem?_eq_getElem hk,
    List.getD_eq_getElem?_getD, List.getElem?_eq_getElem hk, List.map_append,
    List.sum_append]
  rfl

/-- The setter calls of `write_pdcp`, with the layout flags of the
configuration, are `storeSegment`. -/
theorem setters_eq (cfg : PdcpUlConfig) (bytes payload : List UInt8)
    (sn off : Nat) (last : Bool) (n : Nat) (hn : payload.length = n) :
    (let segment := (scanned cfg.layout bytes).copyPayload payload
     let segment := if cfg.allowReordering then segment.setSn sn else segment
     let segment := if cfg.allowSegmentation then segment.setOffset off else segment
     (segment.setLast last).setPayloadSize n) =
      storeSegment (scanned cfg.layout bytes) ⟨sn, off, last, payload⟩ := by
  subst hn
  obtain ⟨seg, reord, minCommit⟩ := cfg
  cases seg <;> cases reord <;> rfl

/-- The setters leave the encoded piece in front of the rest of the buffer. -/
theorem storeSegment_piece {frames : List (List UInt8)} {p : Piece} (l : Layout)
    {rest : List UInt8} (hlen : (frames.getD p.frame []).length ≤ 65535) (hpos : 0 < p.len)
    (hle : p.offset + p.len ≤ (frames.getD p.frame []).length)
    (hsize : l.headerSize + p.len < 32768) (hfit : l.headerSize + p.len ≤ rest.length) :
    (storeSegment (scanned l rest) (segOf frames p)).getSize = l.headerSize + p.len ∧
      (storeSegment (scanned l rest) (segOf frames p)).base =
        encode l (segOf frames p) ++ rest.drop (l.headerSize + p.len) := by
  have hfits := segOf_fits l hlen hpos hle hsize
  have hwire := segOf_wireSize l hle
  have hstore := store_encode l (segOf frames p) rest hfits (by rw [hwire]; exact hfit)
  have hread := scan_encode l (segOf frames p) (rest.drop (l.headerSize + p.len)) hfits
  rw [hwire] at hstore
  rw [hstore]
  exact ⟨hread.size.trans hwire, rfl⟩

/-- The frame at the front of the queue. -/
theorem UlAt.front {cfg : PdcpUlConfig} {frames : List (List UInt8)} {k off : Nat} {u : PdcpUl}
    (h : UlAt cfg frames (k, off) u) {front : List UInt8} {others : List (List UInt8)}
    (hq : u.outstandingBuffers = front :: others) :
    k < frames.length ∧ front ∈ frames ∧ frames.getD k [] = front ∧
      others = frames.drop (k + 1) := by
  have hqueue := h.queue
  dsimp only at hqueue
  have hk : k < frames.length := by
    by_contra hge
    rw [hq, List.drop_eq_nil_of_le (by omega)] at hqueue
    cases hqueue
  rw [hq, List.drop_eq_getElem_cons hk] at hqueue
  obtain ⟨hfront, hothers⟩ := List.cons.inj hqueue
  refine ⟨hk, hfront ▸ List.getElem_mem hk, ?_, hothers⟩
  rw [List.getD_eq_getElem?_getD, List.getElem?_eq_getElem hk, hfront]
  rfl

/-- The frame at the front of the queue is not finished. -/
theorem UlAt.remaining {cfg : PdcpUlConfig} {frames : List (List UInt8)} {k off : Nat}
    {u : PdcpUl} (h : UlAt cfg frames (k, off) u) {front : List UInt8}
    {others : List (List UInt8)} (hq : u.outstandingBuffers = front :: others)
    (hne : front ≠ []) : off < front.length := by
  have hpos : 0 < front.length := List.length_pos_iff.mpr hne
  obtain ⟨-, -, hget, -⟩ := h.front hq
  rcases h.inside with h0 | ⟨-, hlt⟩
  · dsimp only at h0
    omega
  · rwa [hget] at hlt

/-- The frame is finished: the next one starts with the next number. -/
theorem UlAt.finish {cfg : PdcpUlConfig} {frames : List (List UInt8)} {k off n : Nat}
    {u u' : PdcpUl} (h : UlAt cfg frames (k, off) u) {front : List UInt8}
    {others : List (List UInt8)} (hq : u.outstandingBuffers = front :: others)
    (hend : off + n = front.length) (hconfig : u'.config = cfg)
    (hqueue : u'.outstandingBuffers = others) (hoff : u'.dataOffset = 0)
    (hsn : u'.sequenceNumber = (k % 65536 + 1) % 65536)
    (hin : u'.totalInBytes = u.totalInBytes) (hout : u'.totalOutBytes = u.totalOutBytes + n) :
    UlAt cfg frames (k + 1, 0) u' := by
  obtain ⟨hk, -, hget, hothers⟩ := h.front hq
  exact
    { config := hconfig
      queue := hqueue.trans hothers
      offset := hoff
      sn := by dsimp only; omega
      totalIn := hin.trans h.totalIn
      totalOut := by
        dsimp only
        rw [hout, h.totalOut, sum_take_succ frames k hk, hget]
        dsimp only
        omega
      le := hk
      inside := Or.inl rfl
      whole := fun _ => rfl }

/-- The frame is not finished. -/
theorem UlAt.proceed {cfg : PdcpUlConfig} {frames : List (List UInt8)} {k off n : Nat}
    {u u' : PdcpUl} (h : UlAt cfg frames (k, off) u) {front : List UInt8}
    {others : List (List UInt8)} (hq : u.outstandingBuffers = front :: others)
    (hlt : off + n < front.length) (hseg : cfg.allowSegmentation = true)
    (hconfig : u'.config = cfg) (hqueue : u'.outstandingBuffers = u.outstandingBuffers)
    (hoff : u'.dataOffset = off + n) (hsn : u'.sequenceNumber = k % 65536)
    (hin : u'.totalInBytes = u.totalInBytes) (hout : u'.totalOutBytes = u.totalOutBytes + n) :
    UlAt cfg frames (k, off + n) u' := by
  obtain ⟨hk, -, hget, -⟩ := h.front hq
  exact
    { config := hconfig
      queue := hqueue.trans h.queue
      offset := hoff
      sn := hsn
      totalIn := hin.trans h.totalIn
      totalOut := by
        rw [hout, h.totalOut]
        dsimp only
        omega
      le := h.le
      inside := Or.inr ⟨hk, by rw [hget]; exact hlt⟩
      whole := fun hns => absurd (hns.symm.trans hseg) Bool.false_ne_true }

/-- The state after a write of `n` bytes from the front of the queue. -/
def PdcpUl.advanced (u : PdcpUl) (front : List UInt8) (others : List (List UInt8)) (n : Nat) :
    PdcpUl :=
  let dataOffset := u.dataOffset + n
  let u := { u with dataOffset := dataOffset, totalOutBytes := u.totalOutBytes + n }
  if decide (dataOffset ≥ front.length) then
    { u with
      outstandingBuffers := others
      dataOffset := 0
      sequenceNumber := (u.sequenceNumber + 1) % 65536 }
  else u

/-- An iteration with a frame in the queue: it leaves the loop, or stores a segment of
the frame with as many bytes as there is room for. -/
theorem writeStep_cons {s : WriteState} {front : List UInt8} {others : List (List UInt8)}
    (hq : s.ul.outstandingBuffers = front :: others)
    (hrem : s.ul.dataOffset < front.length) :
    writeStep s =
      let l := s.ul.config.layout
      let room := s.rest.length - l.headerSize
      let remaining := front.length - s.ul.dataOffset
      let n := min remaining room
      let segment := storeSegment (scanned l s.rest)
        ⟨s.ul.sequenceNumber, s.ul.dataOffset, decide (s.ul.dataOffset + n ≥ front.length),
          (front.drop s.ul.dataOffset).take n⟩
      if room = 0 then none
      else if remaining > room && !s.ul.config.allowSegmentation then none
      else some
        { ul := s.ul.advanced front others n
          written := s.written ++ segment.base.take segment.getSize
          rest := segment.base.drop segment.getSize
          totalPdcpWritten := s.totalPdcpWritten + segment.getSize
          segmentsAllocated := s.segmentsAllocated + 1 } := by
  unfold writeStep
  dsimp only
  simp only [hq]
  by_cases havail : s.rest.length = 0
  · have hroom : s.rest.length - s.ul.config.layout.headerSize = 0 := by omega
    rw [if_pos havail, if_pos hroom]
  rw [if_neg havail]
  by_cases hhdr : s.ul.config.layout.headerSize ≤ s.rest.length
  swap
  · have hroom : s.rest.length - s.ul.config.layout.headerSize = 0 := by omega
    rw [view_isHeaderValid, decide_eq_false hhdr, if_pos hroom]
    rfl
  rw [view_isHeaderValid, decide_eq_true hhdr, rescan_view _ _ hhdr, scanned_getHeaderSize]
  simp only [Bool.not_true, Bool.false_eq_true, if_false]
  by_cases hmax : s.rest.length - s.ul.config.layout.headerSize = 0
  · rw [if_pos hmax, if_pos hmax]
  rw [if_neg hmax, if_neg hmax, if_neg (by omega)]
  by_cases hheld : (decide (front.length - s.ul.dataOffset >
      s.rest.length - s.ul.config.layout.headerSize) && !s.ul.config.allowSegmentation) = true
  · rw [if_pos hheld, if_pos hheld]
  rw [if_neg hheld, if_neg hheld]
  have hlen : ((front.drop s.ul.dataOffset).take (min (front.length - s.ul.dataOffset)
      (s.rest.length - s.ul.config.layout.headerSize))).length =
      min (front.length - s.ul.dataOffset)
        (s.rest.length - s.ul.config.layout.headerSize) := by
    rw [List.length_take, List.length_drop]
    omega
  have hsetters := setters_eq s.ul.config s.rest _ s.ul.sequenceNumber s.ul.dataOffset
    (decide (s.ul.dataOffset + min (front.length - s.ul.dataOffset)
      (s.rest.length - s.ul.config.layout.headerSize) ≥ front.length)) _ hlen
  dsimp only at hsetters
  rw [hsetters, PdcpUl.advanced, hq]

/-- A write from the front of the queue moves the uplink behind the piece. -/
theorem UlAt.advanced {cfg : PdcpUlConfig} {frames : List (List UInt8)} {k off n : Nat}
    {u : PdcpUl} (h : UlAt cfg frames (k, off) u) {front : List UInt8}
    {others : List (List UInt8)} (hq : u.outstandingBuffers = front :: others)
    (hle : off + n ≤ front.length)
    (hwhole : cfg.allowSegmentation = false → off + n = front.length) :
    UlAt cfg frames ((⟨k, off, n⟩ : Piece).next frames) (u.advanced front others n) := by
  obtain ⟨-, -, hget, -⟩ := h.front hq
  have hoff := h.offset
  dsimp only at hoff
  unfold Piece.next Piece.isLast PdcpUl.advanced
  dsimp only
  rw [hget, hoff]
  by_cases hend : off + n = front.length
  · rw [if_pos (beq_iff_eq.mpr hend), if_pos (decide_eq_true (Nat.le_of_eq hend.symm))]
    exact h.finish hq hend h.config rfl rfl (by rw [h.sn]) rfl rfl
  · have hsegments : cfg.allowSegmentation = true := by
      cases hns : cfg.allowSegmentation with
      | true => rfl
      | false => exact absurd (hwhole hns) hend
    have hlt : off + n < front.length := by omega
    rw [if_neg (fun hbeq => hend (beq_iff_eq.mp hbeq)),
      if_neg (fun hge => absurd (of_decide_eq_true hge) (Nat.not_le.mpr hlt))]
    exact h.proceed hq hlt hsegments h.config rfl rfl h.sn rfl rfl

/-- One iteration of the loop writes the next piece, as long as it can be, or
leaves the loop: there is no frame, no room, or no room for a whole frame. -/
theorem writeStep_cases {cfg : PdcpUlConfig} {frames : List (List UInt8)}
    {pos : Nat × Nat} {s : WriteState} (h : UlAt cfg frames pos s.ul)
    (hframes : ∀ f ∈ frames, FrameOk f) (hlimit : s.rest.length ≤ 32767) :
    (writeStep s = none ∧ (frames.length ≤ pos.1 ∨
      s.rest.length ≤ cfg.layout.headerSize ∨ cfg.allowSegmentation = false ∧
        s.rest.length - cfg.layout.headerSize <
          (frames.getD pos.1 []).length - pos.2)) ∨
    ∃ s', writeStep s = some s' ∧ Wrote cfg frames
      ⟨pos.1, pos.2, min ((frames.getD pos.1 []).length - pos.2)
        (s.rest.length - cfg.layout.headerSize)⟩ s s' := by
  obtain ⟨k, off⟩ := pos
  have hwhole := h.whole
  dsimp only at hwhole ⊢
  cases hq : s.ul.outstandingBuffers with
  | nil =>
      left
      have hqueue := h.queue
      rw [hq] at hqueue
      refine ⟨by unfold writeStep; simp only [hq], Or.inl ?_⟩
      exact List.drop_eq_nil_iff.mp hqueue.symm
  | cons front others =>
      obtain ⟨hk, hmem, hget, -⟩ := h.front hq
      have hok : FrameOk front := hframes front hmem
      have hrem : off < front.length := h.remaining hq hok.1
      rw [writeStep_cons hq (h.offset ▸ hrem)]
      dsimp only
      rw [h.config, h.offset, h.sn, hget]
      dsimp only
      split_ifs with hroom hheld
      · left
        exact ⟨rfl, Or.inr (Or.inl (by omega))⟩
      · left
        rw [Bool.and_eq_true, Bool.not_eq_true', decide_eq_true_eq] at hheld
        exact ⟨rfl, Or.inr (Or.inr ⟨hheld.2, hheld.1⟩)⟩
      · right
        generalize hn : min (front.length - off) (s.rest.length - cfg.layout.headerSize) = n
        have hnpos : 0 < n := by omega
        have hnle : off + n ≤ front.length := by omega
        have hfit : cfg.layout.headerSize + n ≤ s.rest.length := by omega
        have hsegment : (⟨k % 65536, off, decide (off + n ≥ front.length),
            (front.drop off).take n⟩ : Seg) = segOf frames ⟨k, off, n⟩ := by
          have hlast : (off + n == front.length) = decide (off + n = front.length) := rfl
          have hdec : decide (off + n ≥ front.length) = decide (off + n = front.length) :=
            decide_eq_decide.mpr ⟨fun hge => by omega, fun heq => by omega⟩
          simp only [segOf, Piece.isLast, Piece.bytes, hget, hlast, hdec]
        have hall : cfg.allowSegmentation = false → off + n = front.length := by
          intro hns
          rw [hns] at hheld
          simp only [Bool.not_false, Bool.and_true, decide_eq_true_eq] at hheld
          omega
        -- the setters leave the encoded piece in front of the remaining buffer
        obtain ⟨hgetSize, hbase⟩ := storeSegment_piece (p := ⟨k, off, n⟩) cfg.layout
          (by rw [hget]; exact hok.2) hnpos (by rw [hget]; exact hnle)
          (by dsimp only; omega) hfit
        have hel : (encode cfg.layout (segOf frames ⟨k, off, n⟩)).length =
            cfg.layout.headerSize + n := by
          rw [encode_length, segOf_wireSize cfg.layout (by rw [hget]; exact hnle)]
        dsimp only at hgetSize hbase
        rw [hsegment, hgetSize, hbase, List.take_left' hel, List.drop_left' hel]
        have hpiece : cfg.allowSegmentation = false →
            off = 0 ∧ n = (frames.getD k []).length := by
          intro hns
          have h0 := hwhole hns
          have hn := hall hns
          rw [hget]
          omega
        exact ⟨_, rfl, ⟨hk, hnpos, by rw [hget]; exact hnle⟩, hpiece, hfit, rfl, rfl, rfl, rfl,
          h.advanced hq hnle hall⟩

/-- The pieces of one output buffer. -/
structure WroteAll (cfg : PdcpUlConfig) (frames : List (List UInt8))
    (pos : Nat × Nat) (ps : List Piece) (pos' : Nat × Nat) (s s' : WriteState) :
    Prop where
  emits : Emits frames pos ps pos'
  whole : cfg.allowSegmentation = false →
    ∀ p ∈ ps, p.offset = 0 ∧ p.len = (frames.getD p.frame []).length
  written : s'.written = s.written ++ pduOf cfg.layout frames ps
  length : s'.written.length + s'.rest.length =
    s.written.length + s.rest.length
  total : s'.totalPdcpWritten + s.written.length =
    s.totalPdcpWritten + s'.written.length
  count : s'.segmentsAllocated = s.segmentsAllocated + ps.length
  state : UlAt cfg frames pos' s'.ul

theorem pduOf_append (l : Layout) (frames : List (List UInt8)) (ps qs : List Piece) :
    pduOf l frames (ps ++ qs) = pduOf l frames ps ++ pduOf l frames qs := by
  unfold pduOf
  rw [List.map_append, encodeAll_append]

/-- One iteration. -/
theorem Wrote.toAll {cfg : PdcpUlConfig} {frames : List (List UInt8)}
    {pos : Nat × Nat} {n : Nat} {s s' : WriteState}
    (hw : Wrote cfg frames ⟨pos.1, pos.2, n⟩ s s') :
    WroteAll cfg frames pos [⟨pos.1, pos.2, n⟩]
      (Piece.next frames ⟨pos.1, pos.2, n⟩) s s' := by
  have hlen : (encode cfg.layout (segOf frames ⟨pos.1, pos.2, n⟩)).length =
      cfg.layout.headerSize + n := by
    rw [encode_length, segOf_wireSize _ hw.valid.2.2]
  have hfit := hw.fits
  dsimp only at hfit
  exact
    { emits := Emits.single hw.valid.1 hw.valid.2.1 hw.valid.2.2
      whole := by
        intro hns p hp
        obtain rfl := List.mem_singleton.mp hp
        exact hw.whole hns
      written := by rw [hw.written, pduOf, List.map_singleton, encodeAll_cons,
        encodeAll_nil, List.append_nil]
      length := by
        rw [hw.written, hw.rest, List.length_append, List.length_drop, hlen]
        dsimp only
        omega
      total := by
        rw [hw.total, hw.written, List.length_append, hlen]
        dsimp only
        omega
      count := hw.count
      state := hw.state }

/-- Consecutive stretches of the loop. -/
theorem WroteAll.trans {cfg : PdcpUlConfig} {frames : List (List UInt8)}
    {pos pos' pos'' : Nat × Nat} {ps qs : List Piece} {s s' s'' : WriteState}
    (h : WroteAll cfg frames pos ps pos' s s')
    (h' : WroteAll cfg frames pos' qs pos'' s' s'') :
    WroteAll cfg frames pos (ps ++ qs) pos'' s s'' where
  emits := h.emits.append h'.emits
  whole := by
    intro hns p hp
    rcases List.mem_append.mp hp with hp | hp
    · exact h.whole hns p hp
    · exact h'.whole hns p hp
  written := by rw [h'.written, h.written, pduOf_append, List.append_assoc]
  length := h'.length.trans h.length
  total := by
    have ht := h.total
    have ht' := h'.total
    omega
  count := by rw [h'.count, h.count, List.length_append]; omega
  state := h'.state

theorem writeLoop_of_none {s : WriteState} (h : writeStep s = none) :
    writeLoop s = s := by
  rw [writeLoop]
  split
  · rfl
  · rename_i s' hs'; rw [h] at hs'; cases hs'

theorem writeLoop_of_some {s s' : WriteState} (h : writeStep s = some s') :
    writeLoop s = writeLoop s' := by
  rw [writeLoop]
  split
  · rename_i hs'; rw [h] at hs'; cases hs'
  · rename_i s'' hs'; rw [h] at hs'; cases hs'; rfl

/-- Leaving the loop writes nothing more. -/
theorem WroteAll.stop {cfg : PdcpUlConfig} {frames : List (List UInt8)}
    {pos : Nat × Nat} {s : WriteState} (h : UlAt cfg frames pos s.ul)
    (hstop : writeStep s = none) :
    WroteAll cfg frames pos [] pos s (writeLoop s) := by
  rw [writeLoop_of_none hstop]
  exact ⟨.nil, by simp, by simp [pduOf], rfl, rfl, rfl, h⟩

/-- The loop of `write_pdcp` writes consecutive pieces. -/
theorem writeLoop_emits {cfg : PdcpUlConfig} {frames : List (List UInt8)}
    (hframes : ∀ f ∈ frames, FrameOk f) (s : WriteState) (pos : Nat × Nat)
    (h : UlAt cfg frames pos s.ul) (hlimit : s.rest.length ≤ 32767) :
    ∃ ps pos', WroteAll cfg frames pos ps pos' s (writeLoop s) := by
  induction s using writeLoop.induct generalizing pos with
  | case1 s hstop => exact ⟨[], pos, WroteAll.stop h hstop⟩
  | case2 s s' hstep ih =>
      rcases writeStep_cases h hframes hlimit with ⟨hnone, _⟩ | ⟨s'', hsome, hw⟩
      · rw [hstep] at hnone; cases hnone
      rw [hstep] at hsome
      obtain rfl := Option.some.inj hsome
      have hrest : s'.rest.length ≤ 32767 := by
        rw [hw.rest, List.length_drop]; omega
      obtain ⟨ps, pos', hall⟩ := ih _ hw.state hrest
      exact ⟨_, pos', by rw [writeLoop_of_some hstep]; exact hw.toAll.trans hall⟩

/-- What one call does to an uplink at position `pos`: it moves to `pos'` and
the PDU it returns, if any, is the encoding of the pieces in between. -/
structure Emitted (cfg : PdcpUlConfig) (limit : Nat) (frames : List (List UInt8))
    (pos : Nat × Nat) (ps : List Piece) (pos' : Nat × Nat) (u' : PdcpUl)
    (pdu : Option (List UInt8)) : Prop where
  emits : Emits frames pos ps pos'
  whole : cfg.allowSegmentation = false →
    ∀ p ∈ ps, p.offset = 0 ∧ p.len = (frames.getD p.frame []).length
  state : UlAt cfg frames pos' u'
  length : (pduOf cfg.layout frames ps).length ≤ limit
  commit : ps ≠ [] → cfg.minCommitSize ≤ limit
  pdu : pdu = if ps = [] then none else some (pduOf cfg.layout frames ps)

/-- `UlAt` does not look at the status code. -/
theorem UlAt.status {cfg : PdcpUlConfig} {frames : List (List UInt8)}
    {pos : Nat × Nat} {u : PdcpUl} (h : UlAt cfg frames pos u) (st : UlStatus) :
    UlAt cfg frames pos { u with status := st } :=
  ⟨h.config, h.queue, h.offset, h.sn, h.totalIn, h.totalOut, h.le, h.inside, h.whole⟩

/-- A call that writes nothing. -/
private theorem Emitted.none_written {cfg : PdcpUlConfig} {limit : Nat}
    {frames : List (List UInt8)} {pos : Nat × Nat} {u' : PdcpUl}
    (h : UlAt cfg frames pos u') :
    Emitted cfg limit frames pos [] pos u' none where
  emits := .nil
  whole := by simp
  state := h
  length := Nat.zero_le _
  commit := by simp
  pdu := rfl

/-- A call that passes the initial checks returns what its loop wrote. -/
theorem WroteAll.emitted {cfg : PdcpUlConfig} {frames : List (List UInt8)}
    {u : PdcpUl} {pos pos' : Nat × Nat} {ps : List Piece} {buffer : List UInt8}
    (h : UlAt cfg frames pos u) (hbuf : buffer.isEmpty = false)
    (hcommit : cfg.minCommitSize ≤ buffer.length)
    (hqueue : u.outstandingBuffers.isEmpty = false)
    (hall : WroteAll cfg frames pos ps pos' ⟨u, [], buffer, 0, 0⟩
      (writeLoop ⟨u, [], buffer, 0, 0⟩)) :
    Emitted cfg buffer.length frames pos ps pos'
      (ulStep u (.write buffer)).1 (ulStep u (.write buffer)).2 := by
  have hnot : ¬ cfg.minCommitSize > buffer.length := by omega
  simp only [ulStep, PdcpUl.writePdcp, hbuf, hqueue, h.config, if_neg hnot,
    Bool.false_eq_true, if_false]
  generalize writeLoop ⟨u, [], buffer, 0, 0⟩ = s at hall
  have hwritten := hall.written
  have hlength := hall.length
  have htotal := hall.total
  have hcount := hall.count
  simp only [List.nil_append, List.length_nil] at hwritten hlength htotal
  dsimp only at hcount
  split
  · rename_i hzero
    have hnil : ps = [] := List.length_eq_zero_iff.mp (by omega)
    subst hnil
    exact ⟨hall.emits, by simp, hall.state.status _, Nat.zero_le _, by simp, rfl⟩
  · rename_i hsome
    have hne : ps ≠ [] := by
      rintro rfl
      simp at hcount
      omega
    refine ⟨hall.emits, hall.whole, hall.state.status _, ?_, fun _ => hcommit, ?_⟩
    · rw [← hwritten]
      omega
    · rw [if_neg hne, Option.map_some, ← hwritten, List.take_left' (by omega)]

/-- `write_pdcp` on an output buffer of at most 32767 bytes. -/
theorem writePdcp_emits {cfg : PdcpUlConfig} {frames : List (List UInt8)}
    (hframes : ∀ f ∈ frames, FrameOk f) {u : PdcpUl} {pos : Nat × Nat}
    (h : UlAt cfg frames pos u) {buffer : List UInt8}
    (hlimit : buffer.length ≤ 32767) :
    ∃ ps pos', Emitted cfg buffer.length frames pos ps pos'
      (ulStep u (.write buffer)).1 (ulStep u (.write buffer)).2 := by
  cases hbuf : buffer.isEmpty with
  | true =>
      refine ⟨[], pos, ?_⟩
      simp only [ulStep, PdcpUl.writePdcp, hbuf, if_true]
      exact .none_written (h.status _)
  | false =>
  by_cases hcommit : u.config.minCommitSize > buffer.length
  · refine ⟨[], pos, ?_⟩
    simp only [ulStep, PdcpUl.writePdcp, hbuf, if_pos hcommit, Bool.false_eq_true,
      if_false]
    exact .none_written (h.status _)
  cases hqueue : u.outstandingBuffers.isEmpty with
  | true =>
      refine ⟨[], pos, ?_⟩
      simp only [ulStep, PdcpUl.writePdcp, hbuf, if_neg hcommit, hqueue,
        Bool.false_eq_true, if_false, if_true]
      exact .none_written (h.status _)
  | false =>
      obtain ⟨ps, pos', hall⟩ :=
        writeLoop_emits hframes ⟨u, [], buffer, 0, 0⟩ pos h hlimit
      rw [h.config] at hcommit
      exact ⟨ps, pos', hall.emitted h hbuf (by omega) hqueue⟩

/-- Pushing a frame. -/
theorem UlAt.push {cfg : PdcpUlConfig} {frames : List (List UInt8)} {u : PdcpUl}
    {pos : Nat × Nat} (h : UlAt cfg frames pos u) {packet : List UInt8}
    (hok : FrameOk packet) :
    UlAt cfg (frames ++ [packet]) pos (ulStep u (.frame packet)).1 := by
  have hne : packet.isEmpty = false := by
    cases packet with
    | nil => exact absurd rfl hok.1
    | cons b bs => rfl
  simp only [ulStep, PdcpUl.onFrameData, hne, Bool.false_eq_true, if_false]
  have hle := h.le
  exact
    { config := h.config
      queue := by
        dsimp only
        rw [h.queue, List.drop_append_of_le_length hle]
      offset := h.offset
      sn := h.sn
      totalIn := by
        dsimp only
        rw [h.totalIn, List.map_append, List.sum_append]
        rfl
      totalOut := by
        dsimp only
        rw [h.totalOut, List.take_append_of_le_length hle]
      le := by rw [List.length_append]; omega
      inside := by
        rcases h.inside with h0 | ⟨hlt, hin⟩
        · exact Or.inl h0
        · refine Or.inr ⟨by rw [List.length_append]; omega, ?_⟩
          rwa [List.getD_append _ _ _ _ hlt]
      whole := h.whole }

/-- One call keeps the uplink in step with the frames pushed so far. -/
theorem ulStep_emits {cfg : PdcpUlConfig} {frames : List (List UInt8)}
    {limit : Nat} (hframes : ∀ f ∈ frames, FrameOk f) {u : PdcpUl}
    {pos : Nat × Nat} (h : UlAt cfg frames pos u) (hlimit : limit ≤ 32767)
    {op : UlOp} (hop : OpOk limit op) :
    ∃ ps pos', Emitted cfg limit (frames ++ pushedFrames [op]) pos ps pos'
      (ulStep u op).1 (ulStep u op).2 := by
  cases op with
  | frame packet => exact ⟨[], pos, .none_written (h.push hop)⟩
  | write buffer =>
      have hlen : buffer.length ≤ limit := hop
      obtain ⟨ps, pos', hem⟩ := writePdcp_emits hframes h (hlen.trans hlimit)
      refine ⟨ps, pos', ?_⟩
      simp only [pushedFrames, List.append_nil]
      exact ⟨hem.emits, hem.whole, hem.state, hem.length.trans hlen,
        fun hne => (hem.commit hne).trans hlen, hem.pdu⟩

/-- Every segment takes at least its header and one byte. -/
theorem pduOf_length_ge {l : Layout} {frames : List (List UInt8)} {ps : List Piece}
    (hps : ∀ p ∈ ps, 0 < p.len ∧ p.offset + p.len ≤ (frames.getD p.frame []).length) :
    (l.headerSize + 1) * ps.length ≤ (pduOf l frames ps).length := by
  induction ps with
  | nil => exact Nat.zero_le _
  | cons p ps ih =>
      obtain ⟨hpos, hle⟩ := hps p (List.mem_cons_self ..)
      have hrest := ih (fun q hq => hps q (List.mem_cons_of_mem _ hq))
      rw [pduOf, List.map_cons, encodeAll_cons, List.length_append, encode_length,
        segOf_wireSize l hle, List.length_cons, Nat.mul_succ]
      rw [pduOf] at hrest
      omega

/-- Every segment of a PDU of at most 32767 bytes fits its header fields. -/
theorem pduOf_fits {l : Layout} {frames : List (List UInt8)}
    (hframes : ∀ f ∈ frames, FrameOk f) {ps : List Piece}
    (hps : ∀ p ∈ ps, p.frame < frames.length ∧ 0 < p.len ∧
      p.offset + p.len ≤ (frames.getD p.frame []).length)
    (hlen : (pduOf l frames ps).length ≤ 32767) :
    ∀ g ∈ ps.map (segOf frames), g.Fits l := by
  induction ps with
  | nil => intro g hg; cases hg
  | cons p ps ih =>
      obtain ⟨hlt, hpos, hle⟩ := hps p (List.mem_cons_self ..)
      rw [pduOf, List.map_cons, encodeAll_cons, List.length_append, encode_length,
        segOf_wireSize l hle] at hlen
      intro g hg
      rcases List.mem_cons.mp hg with rfl | hg
      · refine segOf_fits l ?_ hpos hle (by omega)
        rw [List.getD_eq_getElem?_getD, List.getElem?_eq_getElem hlt]
        exact (hframes _ (List.getElem_mem hlt)).2
      · exact ih (fun q hq => hps q (List.mem_cons_of_mem _ hq))
          (by rw [pduOf]; omega) g hg

/-- What a run does: the PDUs it returns are the encodings of consecutive
groups of pieces. -/
structure RunEmitted (cfg : PdcpUlConfig) (limit : Nat)
    (frames : List (List UInt8)) (pos : Nat × Nat) (pss : List (List Piece))
    (pos' : Nat × Nat) (r : PdcpUl × List (List UInt8)) : Prop where
  emits : Emits frames pos pss.flatten pos'
  whole : cfg.allowSegmentation = false →
    ∀ p ∈ pss.flatten, p.offset = 0 ∧ p.len = (frames.getD p.frame []).length
  state : UlAt cfg frames pos' r.1
  length : ∀ ps ∈ pss, (pduOf cfg.layout frames ps).length ≤ limit
  nonempty : ∀ ps ∈ pss, ps ≠ []
  commit : pss ≠ [] → cfg.minCommitSize ≤ limit
  pdus : r.2 = pss.map (pduOf cfg.layout frames)

theorem pushedFrames_ok {limit : Nat} (ops : List UlOp)
    (hops : ∀ op ∈ ops, OpOk limit op) : ∀ f ∈ pushedFrames ops, FrameOk f := by
  induction ops with
  | nil => intro f hf; cases hf
  | cons op ops ih =>
      have hrest := ih (fun o ho => hops o (List.mem_cons_of_mem _ ho))
      intro f hf
      cases op with
      | frame packet =>
          rcases List.mem_cons.mp hf with rfl | hf
          · exact hops (.frame f) (List.mem_cons_self ..)
          · exact hrest f hf
      | write buffer => exact hrest f hf

/-- A run keeps the uplink in step with the frames it pushes. -/
theorem ulRun_emits {cfg : PdcpUlConfig} {limit : Nat} (hlimit : limit ≤ 32767)
    (ops : List UlOp) (hops : ∀ op ∈ ops, OpOk limit op)
    (frames : List (List UInt8)) (hframes : ∀ f ∈ frames, FrameOk f) (u : PdcpUl)
    (pos : Nat × Nat) (h : UlAt cfg frames pos u) :
    ∃ pss pos', RunEmitted cfg limit (frames ++ pushedFrames ops) pos pss pos'
      (ulRun u ops) := by
  induction ops generalizing frames u pos with
  | nil =>
      refine ⟨[], pos, .nil, by simp, ?_, by simp, by simp, by simp, rfl⟩
      simpa only [pushedFrames, List.append_nil, ulRun] using h
  | cons op ops ih =>
      obtain ⟨ps, pos₁, hstep⟩ :=
        ulStep_emits hframes h hlimit (hops op (List.mem_cons_self ..))
      have hframes' : ∀ f ∈ frames ++ pushedFrames [op], FrameOk f := by
        intro f hf
        rcases List.mem_append.mp hf with hf | hf
        · exact hframes f hf
        · have hone : ∀ o ∈ [op], OpOk limit o := by
            intro o ho
            obtain rfl := List.mem_singleton.mp ho
            exact hops o (List.mem_cons_self ..)
          exact pushedFrames_ok [op] hone f hf
      obtain ⟨pss, pos₂, hrun⟩ := ih (fun o ho => hops o (List.mem_cons_of_mem _ ho))
        (frames ++ pushedFrames [op]) hframes' (ulStep u op).1 pos₁ hstep.state
      have happ : frames ++ pushedFrames [op] ++ pushedFrames ops =
          frames ++ pushedFrames (op :: ops) := by
        cases op <;> simp [pushedFrames]
      have hin : ∀ p ∈ ps, p.frame < (frames ++ pushedFrames [op]).length :=
        fun p hp => (hstep.emits.mem_bounds hp).1
      have hpdu := pduOf_push (l := cfg.layout) (pushedFrames ops) hin
      have hone := hstep.emits.push (pushedFrames ops)
      rw [happ] at hrun hpdu hone
      by_cases hnil : ps = []
      · subst hnil
        refine ⟨pss, pos₂, hone.append hrun.emits, hrun.whole, hrun.state,
          hrun.length, hrun.nonempty, hrun.commit, ?_⟩
        show (ulStep u op).2.toList ++ _ = _
        rw [hstep.pdu, if_pos rfl]
        exact hrun.pdus
      · refine ⟨ps :: pss, pos₂, hone.append hrun.emits, ?_, hrun.state, ?_, ?_,
          fun _ => hstep.commit hnil, ?_⟩
        · intro hns p hp
          rcases List.mem_append.mp hp with hp | hp
          · have hw := hstep.whole hns p hp
            rw [← happ, List.getD_append _ _ _ _ (hin p hp)]
            exact hw
          · exact hrun.whole hns p hp
        · intro qs hqs
          rcases List.mem_cons.mp hqs with rfl | hqs
          · rw [hpdu]
            exact hstep.length
          · exact hrun.length qs hqs
        · intro qs hqs
          rcases List.mem_cons.mp hqs with rfl | hqs
          · exact hnil
          · exact hrun.nonempty qs hqs
        · show (ulStep u op).2.toList ++ _ = _
          rw [hstep.pdu, if_neg hnil, List.map_cons, hpdu]
          exact congrArg _ hrun.pdus

/-- A fresh uplink stands before the first byte. -/
theorem UlAt.init (cfg : PdcpUlConfig) : UlAt cfg [] (0, 0) { config := cfg } :=
  ⟨rfl, rfl, rfl, rfl, rfl, rfl, Nat.le_refl _, Or.inl rfl, fun _ => rfl⟩

/-- With no outstanding bytes every pushed frame has been sent in full. -/
theorem UlAt.drained {cfg : PdcpUlConfig} {frames : List (List UInt8)}
    (hframes : ∀ f ∈ frames, FrameOk f) {pos : Nat × Nat} {u : PdcpUl}
    (h : UlAt cfg frames pos u) (hzero : u.getOutstandingBytes = 0) :
    pos = (frames.length, 0) := by
  obtain ⟨k, off⟩ := pos
  have hle := h.le
  have hin := h.totalIn
  have hout := h.totalOut
  dsimp only at hle hout
  have hsplit : (frames.map List.length).sum =
      ((frames.take k).map List.length).sum +
        ((frames.drop k).map List.length).sum := by
    rw [← List.sum_append, ← List.map_append, List.take_append_drop]
  have hlen : frames.length ≤ k := by
    -- otherwise part of frame `k` is still to be sent
    by_contra hlt
    have hk : k < frames.length := by omega
    have hpos : 0 < (frames.getD k []).length := by
      rw [List.getD_eq_getElem?_getD, List.getElem?_eq_getElem hk]
      exact List.length_pos_iff.mpr (hframes _ (List.getElem_mem hk)).1
    have hoff : off < (frames.getD k []).length := by
      rcases h.inside with h0 | ⟨_, hin⟩
      · dsimp only at h0; omega
      · exact hin
    have hdrop : (frames.getD k []).length ≤
        ((frames.drop k).map List.length).sum := by
      rw [List.drop_eq_getElem_cons hk, List.map_cons, List.sum_cons,
        List.getD_eq_getElem?_getD, List.getElem?_eq_getElem hk]
      exact Nat.le_add_right _ _
    unfold PdcpUl.getOutstandingBytes at hzero
    split at hzero <;> omega
  have hk : k = frames.length := by omega
  rcases h.inside with h0 | ⟨hlt, _⟩
  · dsimp only at h0
    rw [hk, h0]
  · dsimp only at hlt
    omega

end Winject.Pdcp
