import Winject.Pdcp.UlReconfigure

/-!
# The uplink conserves its bytes

Every byte of an accepted frame is either in a segment that was written or still in the
queue, in the order of the frames: across the pieces of a frame, across output buffers
and across configurations.  `reset` starts over.

## Main results

* `payloadsIn_encodeAll` — what a reader of a PDU finds is what its segments carry.
* `writeLoop_conserves` — the bytes a call takes off the queue are in its segments.
* `bytes_conserved` — written and queued bytes are the accepted frames, in every state.
* `write_succeeds_iff` — when `write_pdcp` returns a count, and that it changes nothing
  but its status otherwise.
-/

namespace Winject.Pdcp

open Winject.Frames
open Winject.Lib.Bytes
open Winject.Lib.Runs

/-! ## Runs and their traffic -/

/-- An event whose output buffer has at most 32767 bytes. -/
def UlEvent.BufferOk : UlEvent → Prop
  | .call c => c.BufferOk
  | .reset => True

/-- The payloads of the segments in `bytes`, one behind the other: each is found behind
the header of its segment, and the next segment `SIZE` bytes further. -/
def payloadsIn (l : Layout) (bytes : List UInt8) : List UInt8 :=
  if _h : 0 < (view l bytes).rescan.getSize ∧ 0 < bytes.length then
    payloadAt l bytes 0 ++ payloadsIn l (bytes.drop (view l bytes).rescan.getSize)
  else []
termination_by bytes.length
decreasing_by
  rw [List.length_drop]
  omega

/-- The payloads that a call of `write_pdcp` emits: what is in the bytes it counts. -/
def PdcpUl.emitted (u : PdcpUl) (buffer : List UInt8) : List UInt8 :=
  match (u.writePdcp buffer).count with
  | some count => payloadsIn u.config.layout ((u.writePdcp buffer).buffer.take count)
  | none => []

/-- The uplink, with the frames it accepted and the payload bytes it emitted since the
last reset. -/
structure UlTraffic where
  ul : PdcpUl
  accepted : List (List UInt8) := []
  emitted : List UInt8 := []
  deriving DecidableEq, Repr

/-- One event. -/
def UlTraffic.event (s : UlTraffic) : UlEvent → UlTraffic
  | .call (.frame packet) =>
    { s with
      ul := (s.ul.onFrameData packet).1
      accepted :=
        if (s.ul.onFrameData packet).2 then s.accepted ++ [packet] else s.accepted }
  | .call (.write buffer) =>
    { s with
      ul := (s.ul.writePdcp buffer).ul
      emitted := s.emitted ++ s.ul.emitted buffer }
  | .call (.reconfigure cfg) => { s with ul := s.ul.reconfigure cfg }
  | .reset => { ul := s.ul.reset }

/-- The bytes still queued: the front frame from the offset on, then the other frames. -/
def PdcpUl.queuedBytes (u : PdcpUl) : List UInt8 :=
  match u.outstandingBuffers with
  | [] => []
  | front :: others => front.drop u.dataOffset ++ others.flatten

/-- No byte is lost or repeated, and the offset and the byte count say where the
uplink stands. -/
structure UlTraffic.Conserves (s : UlTraffic) : Prop where
  bytes : s.emitted ++ s.ul.queuedBytes = s.accepted.flatten
  inside : ∀ front ∈ s.ul.outstandingBuffers.head?, s.ul.dataOffset < front.length
  empty : s.ul.outstandingBuffers = [] → s.ul.dataOffset = 0
  outstanding : s.ul.getOutstandingBytes = s.ul.queuedBytes.length

/-! ## Reading a PDU -/

theorem payloadsIn_encode (l : Layout) (g : Seg) (tail : List UInt8) (h : g.Fits l) :
    payloadsIn l (encode l g ++ tail) = g.payload ++ payloadsIn l tail := by
  have hlen : l.headerSize ≤ (encode l g ++ tail).length := by
    rw [List.length_append, encode_length, Seg.wireSize]
    omega
  have hread := scan_encode l g tail h
  have hsize : (view l (encode l g ++ tail)).rescan.getSize = g.wireSize l := by
    rw [rescan_view l _ hlen, hread.size]
  have hpsize : (view l (encode l g ++ tail)).rescan.getPayloadSize = g.payload.length := by
    rw [rescan_view l _ hlen, hread.payloadSize]
  have hhdr : (view l (encode l g ++ tail)).rescan.getHeaderSize = l.headerSize :=
    (rescan_frame _).2
  have hpayload : payloadAt l (encode l g ++ tail) 0 = g.payload := by
    simp only [payloadAt, List.drop_zero, Nat.zero_add]
    rw [hhdr, hpsize]
    exact payload_encode l g tail
  have hge := headerSize_ge l
  have hwire : g.wireSize l = l.headerSize + g.payload.length := rfl
  rw [payloadsIn, dif_pos ⟨by rw [hsize]; omega, by omega⟩, hpayload, hsize,
    List.drop_left' (encode_length l g)]

theorem payloadsIn_nil (l : Layout) : payloadsIn l [] = [] := by
  rw [payloadsIn, dif_neg]
  simp

/-- A reader of a PDU finds the payloads of its segments. -/
theorem payloadsIn_encodeAll (l : Layout) (gs : List Seg) (h : ∀ g ∈ gs, g.Fits l) :
    payloadsIn l (encodeAll l gs) = (gs.map Seg.payload).flatten := by
  induction gs with
  | nil => exact payloadsIn_nil l
  | cons g gs ih =>
      rw [encodeAll_cons, payloadsIn_encode l g _ (h g (List.mem_cons_self ..)),
        ih (fun g' hg' => h g' (List.mem_cons_of_mem _ hg')), List.map_cons,
        List.flatten_cons]

/-! ## One iteration -/

theorem be16_mod (v : Nat) : be16 (v % 65536) = be16 v := by
  have hhigh : UInt8.ofNat (v % 65536 / 256) = UInt8.ofNat (v / 256) := by
    apply UInt8.toNat_inj.mp
    simp only [UInt8.toNat_ofNat']
    omega
  have hlow : UInt8.ofNat (v % 65536) = UInt8.ofNat v := by
    apply UInt8.toNat_inj.mp
    simp only [UInt8.toNat_ofNat']
    omega
  rw [be16, be16, hhigh, hlow]

theorem PdcpSegment.setOffset_mod (s : PdcpSegment) (v : Nat) :
    s.setOffset (v % 65536) = s.setOffset v := by
  unfold PdcpSegment.setOffset PdcpSegment.store
  cases s.offset with
  | none => rfl
  | some p => rw [be16_mod]

/-- `OFFSET` holds the low 16 bits of the offset. -/
def PdcpUl.cutSegment (u : PdcpUl) (front : List UInt8) (n : Nat) : Seg :=
  { u.segment front n with offset := (u.segment front n).offset % 65536 }

theorem stored_cut (s : WriteState) (front : List UInt8) (n : Nat) :
    stored s front n =
      storeSegment (scanned s.ul.config.layout s.rest) (s.ul.cutSegment front n) := by
  unfold stored storeSegment PdcpUl.cutSegment
  dsimp only
  simp only [PdcpSegment.setOffset_mod]

/-- The segment of an iteration fits its header, whatever the length of its frame. -/
theorem Writes.cut_fits {s s' : WriteState} {front : List UInt8}
    {others : List (List UInt8)} {n : Nat} (h : Writes s s' front others n)
    (hsettled : s.ul.Settled) (hlimit : s.rest.length ≤ 32767) :
    (s.ul.cutSegment front n).Fits s.ul.config.layout ∧
      (s.ul.cutSegment front n).payload.length = n := by
  have hinside := h.inside hsettled
  have hroom := h.room
  have hpos := h.pos
  have hlen : (s.ul.cutSegment front n).payload.length = n := by
    simp only [PdcpUl.cutSegment, PdcpUl.segment, List.length_take, List.length_drop]
    omega
  have hsn := hsettled.sn
  refine ⟨⟨?_, Nat.mod_lt _ (by decide), by rw [hlen]; omega, ?_⟩, hlen⟩
  · simp only [PdcpUl.cutSegment, PdcpUl.segment]
    split
    · exact hsn
    · exact Nat.succ_pos _
  · intro hnil
    rw [hnil, List.length_nil] at hlen
    omega

/-- An iteration appends the encoded segment, in a buffer of at most 32767 bytes. -/
theorem Writes.appends_cut {s s' : WriteState} {front : List UInt8}
    {others : List (List UInt8)} {n : Nat} (h : Writes s s' front others n)
    (hsettled : s.ul.Settled) (hlimit : s.rest.length ≤ 32767) :
    s'.written = s.written ++ encode s.ul.config.layout (s.ul.cutSegment front n) ∧
      s'.rest = s.rest.drop (s.ul.config.layout.headerSize + n) ∧
      s'.totalPdcpWritten = s.totalPdcpWritten + (s.ul.config.layout.headerSize + n) := by
  obtain ⟨hfits, hplen⟩ := h.cut_fits hsettled hlimit
  have hwire : (s.ul.cutSegment front n).wireSize s.ul.config.layout =
      s.ul.config.layout.headerSize + n := by
    rw [Seg.wireSize, hplen]
  have hstored := store_encode s.ul.config.layout (s.ul.cutSegment front n) s.rest hfits
    (by rw [hwire]; exact h.room)
  rw [hwire, ← stored_cut] at hstored
  have hread := scan_encode s.ul.config.layout (s.ul.cutSegment front n)
    (s.rest.drop (s.ul.config.layout.headerSize + n)) hfits
  have hlen : (encode s.ul.config.layout (s.ul.cutSegment front n)).length =
      s.ul.config.layout.headerSize + n := by
    rw [encode_length, hwire]
  have hsize : (stored s front n).getSize = s.ul.config.layout.headerSize + n := by
    rw [hstored, hread.size, hwire]
  have hbase : (stored s front n).base =
      encode s.ul.config.layout (s.ul.cutSegment front n) ++
        s.rest.drop (s.ul.config.layout.headerSize + n) := by
    rw [hstored]
    rfl
  rw [h.written, h.rest, h.total, hsize, hbase, List.take_left' hlen, List.drop_left' hlen]
  exact ⟨rfl, rfl, rfl⟩

/-- The bytes that an iteration takes off the queue. -/
theorem PdcpUl.advance_queuedBytes {u : PdcpUl} {front : List UInt8}
    {others : List (List UInt8)} (hq : u.outstandingBuffers = front :: others) {n : Nat}
    (hle : u.dataOffset + n ≤ front.length) :
    (front.drop u.dataOffset).take n ++ (u.advance front others n).queuedBytes =
      u.queuedBytes := by
  unfold PdcpUl.advance
  dsimp only
  split
  · -- the piece ends its frame
    have htake : (front.drop u.dataOffset).take n = front.drop u.dataOffset := by
      apply List.take_of_length_le
      rw [List.length_drop]
      omega
    rw [htake]
    simp only [PdcpUl.queuedBytes, hq]
    cases others with
    | nil => rfl
    | cons f fs => rfl
  · simp only [PdcpUl.queuedBytes, hq]
    rw [← List.append_assoc, ← List.drop_drop, List.take_append_drop]

@[simp] theorem PdcpUl.advance_totalInBytes (u : PdcpUl) (front : List UInt8)
    (others : List (List UInt8)) (n : Nat) :
    (u.advance front others n).totalInBytes = u.totalInBytes := by
  simp only [PdcpUl.advance]
  split <;> rfl

/-! ## A whole call -/

/-- The segments `gs` carry what the loop took off the queue. -/
structure Carried (s s' : WriteState) (gs : List Seg) : Prop where
  fits : ∀ g ∈ gs, g.Fits s.ul.config.layout
  written : s'.written = s.written ++ encodeAll s.ul.config.layout gs
  total : s'.totalPdcpWritten =
    s.totalPdcpWritten + (encodeAll s.ul.config.layout gs).length
  count : s'.segmentsAllocated = s.segmentsAllocated + gs.length
  queue : (gs.map Seg.payload).flatten ++ s'.ul.queuedBytes = s.ul.queuedBytes
  totalIn : s'.ul.totalInBytes = s.ul.totalInBytes
  totalOut : s'.ul.totalOutBytes =
    s.ul.totalOutBytes + (gs.map Seg.payload).flatten.length

/-- The loop puts the bytes it takes off the queue into its segments. -/
theorem writeLoop_conserves (s : WriteState) (h : s.ul.Settled)
    (hlimit : s.rest.length ≤ 32767) : ∃ gs, Carried s (writeLoop s) gs := by
  induction s, h using settled_induction with
  | stop s _ hnone _ =>
      rw [writeLoop_of_none hnone]
      exact ⟨[], ⟨by simp, by simp, by simp, rfl, rfl, rfl, rfl⟩⟩
  | write s s' front others n hs hs' hstep hw ih =>
      have hcfg := (writeStep_settled hs hstep).2
      obtain ⟨hwr, hrest, htotal⟩ := hw.appends_cut hs hlimit
      obtain ⟨hfits, hplen⟩ := hw.cut_fits hs hlimit
      obtain ⟨gs, hgs⟩ := ih (by rw [hrest, List.length_drop]; omega)
      rw [writeLoop_of_some hstep]
      have hpayload : (s.ul.cutSegment front n).payload =
          (front.drop s.ul.dataOffset).take n := rfl
      have hout := hgs.totalOut
      have hin := hgs.totalIn
      have hlen : (encode s.ul.config.layout (s.ul.cutSegment front n)).length =
          s.ul.config.layout.headerSize + n := by
        rw [encode_length, Seg.wireSize, hplen]
      refine ⟨s.ul.cutSegment front n :: gs, ⟨?_, ?_, ?_, ?_, ?_, ?_, ?_⟩⟩
      · intro g hg
        rcases List.mem_cons.mp hg with rfl | hg
        · exact hfits
        · rw [← hcfg]
          exact hgs.fits g hg
      · rw [hgs.written, hwr, hcfg, encodeAll_cons, List.append_assoc]
      · rw [hgs.total, htotal, hcfg, encodeAll_cons, List.length_append, hlen]
        omega
      · rw [hgs.count, hw.count, List.length_cons]
        omega
      · have hqueue := hgs.queue
        rw [hw.ul] at hqueue
        rw [List.map_cons, List.flatten_cons, List.append_assoc, hqueue, hpayload]
        exact PdcpUl.advance_queuedBytes hw.queue (hw.inside hs)
      · rw [hin, hw.ul, PdcpUl.advance_totalInBytes]
      · rw [hout, hw.ul, PdcpUl.advance_totalOutBytes, List.map_cons, List.flatten_cons,
          List.length_append, hplen]
        omega

/-- What a call of `write_pdcp` does to the bytes. -/
structure CallConserves (u u' : PdcpUl) (emitted : List UInt8) : Prop where
  queue : emitted ++ u'.queuedBytes = u.queuedBytes
  totalIn : u'.totalInBytes = u.totalInBytes
  totalOut : u'.totalOutBytes = u.totalOutBytes + emitted.length

/-- A call that wrote no segment was stuck, and its loop did not run. -/
theorem PdcpUl.Settled.loop_idle {u : PdcpUl} (h : u.Settled) {buffer : List UInt8}
    (hzero : (writeLoop ⟨u, [], buffer, 0, 0⟩).segmentsAllocated = 0) :
    writeLoop ⟨u, [], buffer, 0, 0⟩ = ⟨u, [], buffer, 0, 0⟩ := by
  have hcount := writeLoop_count ⟨u, [], buffer, 0, 0⟩ h
  dsimp only at hcount
  rcases writeStep_stops_or_writes (s := ⟨u, [], buffer, 0, 0⟩) h with
    ⟨hnone, -⟩ | ⟨t, front, others, n, hsome, hw⟩
  · exact writeLoop_of_none hnone
  · rw [segmentsOf_of_some hsome, hw.emittedBy, List.length_append,
      List.length_singleton] at hcount
    omega

/-- A call without a count changes nothing but the status. -/
theorem PdcpUl.Settled.writePdcp_none {u : PdcpUl} (h : u.Settled) {buffer : List UInt8}
    (hnone : (u.writePdcp buffer).count = none) :
    (u.writePdcp buffer).ul = { u with status := (u.writePdcp buffer).ul.status } := by
  unfold PdcpUl.writePdcp at hnone ⊢
  dsimp only at hnone ⊢
  split_ifs at hnone ⊢ with hempty hcommit hqueue hzero
  · rfl
  · rfl
  · rfl
  · rw [h.loop_idle hzero]

/-- A call with a count ran its loop, and counts what it wrote. -/
theorem PdcpUl.Settled.writePdcp_some {u : PdcpUl} (h : u.Settled) {buffer : List UInt8}
    (hlimit : buffer.length ≤ 32767) {count : Nat}
    (hsome : (u.writePdcp buffer).count = some count) :
    0 < count ∧ CallConserves u (u.writePdcp buffer).ul (u.emitted buffer) := by
  obtain ⟨gs, hgs⟩ := writeLoop_conserves ⟨u, [], buffer, 0, 0⟩ h hlimit
  obtain ⟨-, hcount, hbuffer⟩ := writePdcp_loop hsome
  have htotal := hgs.total
  have hwritten := hgs.written
  have hallocated := hgs.count
  simp only [List.nil_append, Nat.zero_add] at htotal hwritten hallocated
  have hcount' : count = (encodeAll u.config.layout gs).length := hcount.trans htotal
  have hemitted : u.emitted buffer = (gs.map Seg.payload).flatten := by
    unfold PdcpUl.emitted
    rw [hsome]
    dsimp only
    rw [hbuffer, hwritten, List.take_left' hcount'.symm, payloadsIn_encodeAll _ _ hgs.fits]
  have hul : ∃ st, (u.writePdcp buffer).ul =
      { (writeLoop ⟨u, [], buffer, 0, 0⟩).ul with status := st } ∧ gs ≠ [] := by
    unfold PdcpUl.writePdcp at hsome ⊢
    dsimp only at hsome ⊢
    split_ifs at hsome ⊢ with hempty hcommit hqueue hzero
    refine ⟨.success, rfl, ?_⟩
    rintro rfl
    rw [List.length_nil] at hallocated
    exact hzero hallocated
  obtain ⟨st, hul, hne⟩ := hul
  refine ⟨?_, ?_⟩
  · cases gs with
    | nil => exact absurd rfl hne
    | cons g gs =>
        have hge := headerSize_ge u.config.layout
        rw [hcount', encodeAll_cons, List.length_append, encode_length, Seg.wireSize]
        omega
  · rw [hul, hemitted]
    exact ⟨hgs.queue, hgs.totalIn, hgs.totalOut⟩

theorem PdcpUl.Settled.conserves {u : PdcpUl} (h : u.Settled) {buffer : List UInt8}
    (hlimit : buffer.length ≤ 32767) :
    CallConserves u (u.writePdcp buffer).ul (u.emitted buffer) := by
  cases hcount : (u.writePdcp buffer).count with
  | some count => exact (h.writePdcp_some hlimit hcount).2
  | none =>
      have hemitted : u.emitted buffer = [] := by
        unfold PdcpUl.emitted
        rw [hcount]
      rw [hemitted, h.writePdcp_none hcount]
      exact ⟨rfl, rfl, rfl⟩

/-! ## A whole run -/

/-- The byte totals count the accepted and the emitted bytes. -/
structure UlTraffic.Accounted (s : UlTraffic) : Prop where
  settled : s.ul.Settled
  bytes : s.emitted ++ s.ul.queuedBytes = s.accepted.flatten
  totalIn : s.ul.totalInBytes = s.accepted.flatten.length
  totalOut : s.ul.totalOutBytes = s.emitted.length

theorem UlTraffic.Accounted.conserves {s : UlTraffic} (h : s.Accounted) : s.Conserves where
  bytes := h.bytes
  inside := by
    intro front hfront
    obtain ⟨others, hq⟩ := List.head?_eq_some_iff.mp hfront
    exact h.settled.front_lt hq
  empty := h.settled.offset_of_empty
  outstanding := by
    have hlen := congrArg List.length h.bytes
    rw [List.length_append] at hlen
    rw [PdcpUl.getOutstandingBytes, h.totalIn, h.totalOut, if_neg (by omega)]
    omega

/-- A frame goes behind the queued bytes. -/
theorem PdcpUl.Settled.queuedBytes_push {u : PdcpUl} (h : u.Settled) (packet : List UInt8) :
    PdcpUl.queuedBytes { u with
      outstandingBuffers := u.outstandingBuffers ++ [packet]
      totalInBytes := u.totalInBytes + packet.length } = u.queuedBytes ++ packet := by
  unfold PdcpUl.queuedBytes
  cases hq : u.outstandingBuffers with
  | nil =>
      simp only [List.nil_append, List.flatten_nil, List.append_nil, h.offset_of_empty hq,
        List.drop_zero]
  | cons front others =>
      simp only [List.cons_append, List.flatten_append, List.flatten_cons, List.flatten_nil,
        List.append_nil, List.append_assoc]

theorem UlTraffic.Accounted.event {s : UlTraffic} (h : s.Accounted) {e : UlEvent}
    (he : e.BufferOk) : (s.event e).Accounted := by
  have hsettled := ulEvent_settled h.settled e
  cases e with
  | reset => exact ⟨hsettled, rfl, rfl, rfl⟩
  | call c =>
      cases c with
      | reconfigure cfg => exact ⟨hsettled, h.bytes, h.totalIn, h.totalOut⟩
      | write buffer =>
          have hlimit : buffer.length ≤ 32767 := he
          have hc := h.settled.conserves hlimit
          refine ⟨hsettled, ?_, hc.totalIn.trans h.totalIn, ?_⟩
          · show (s.emitted ++ s.ul.emitted buffer) ++
              (s.ul.writePdcp buffer).ul.queuedBytes = s.accepted.flatten
            rw [List.append_assoc, hc.queue, h.bytes]
          · show (s.ul.writePdcp buffer).ul.totalOutBytes =
              (s.emitted ++ s.ul.emitted buffer).length
            rw [hc.totalOut, h.totalOut, List.length_append]
      | frame packet =>
          cases hempty : packet.isEmpty with
          | true =>
              have hsame : s.event (.call (.frame packet)) = s := by
                simp only [UlTraffic.event, PdcpUl.onFrameData, hempty, if_true,
                  Bool.false_eq_true, if_false]
              rw [hsame]
              exact h
          | false =>
              have hpush : s.event (.call (.frame packet)) =
                  { s with
                    ul := { s.ul with
                      outstandingBuffers := s.ul.outstandingBuffers ++ [packet]
                      totalInBytes := s.ul.totalInBytes + packet.length }
                    accepted := s.accepted ++ [packet] } := by
                simp only [UlTraffic.event, PdcpUl.onFrameData, hempty, if_true,
                  Bool.false_eq_true, if_false]
              have hflat : (s.accepted ++ [packet]).flatten =
                  s.accepted.flatten ++ packet := by
                rw [List.flatten_append, List.flatten_singleton]
              have hin := h.totalIn
              refine ⟨hsettled, ?_, ?_, ?_⟩
              · rw [hpush]
                dsimp only
                rw [h.settled.queuedBytes_push, hflat, ← h.bytes, List.append_assoc]
              · rw [hpush]
                dsimp only
                rw [hflat, List.length_append, hin]
              · rw [hpush]
                exact h.totalOut

/-- The call can commit a segment: there is a frame, the buffer is long enough to be
used, and behind the header it has room for a byte, or without segmentation for what
is left of the front frame. -/
def PdcpUl.CanWrite (u : PdcpUl) (n : Nat) : Prop :=
  0 < n ∧ u.config.minCommitSize ≤ n ∧
    ∃ front ∈ u.outstandingBuffers.head?,
      if u.config.allowSegmentation then u.config.layout.headerSize < n
      else u.config.layout.headerSize + (front.length - u.dataOffset) ≤ n

/-- The call leaves the queue, the position in it and the totals alone. -/
structure PdcpUl.SameQueue (u u' : PdcpUl) : Prop where
  config : u'.config = u.config
  queue : u'.outstandingBuffers = u.outstandingBuffers
  offset : u'.dataOffset = u.dataOffset
  sn : u'.sequenceNumber = u.sequenceNumber
  totalIn : u'.totalInBytes = u.totalInBytes
  totalOut : u'.totalOutBytes = u.totalOutBytes

theorem PdcpUl.Settled.canWrite_iff {u : PdcpUl} (h : u.Settled) (n : Nat) :
    u.CanWrite n ↔ u.config.minCommitSize ≤ n ∧ ¬ u.Stuck n := by
  have hge := headerSize_ge u.config.layout
  unfold PdcpUl.CanWrite PdcpUl.Stuck
  cases hq : u.outstandingBuffers with
  | nil => simp
  | cons front others =>
      have hlt := h.front_lt hq
      have hrem : u.remaining.head? = some (front.length - u.dataOffset) := by
        simp only [PdcpUl.remaining, hq, List.head?_cons]
      rw [hrem]
      cases hseg : u.config.allowSegmentation with
      | true =>
          simp only [List.head?_cons, Option.mem_some_iff, exists_eq_left', if_true,
            reduceCtorEq, Bool.true_eq_false, false_and, or_false, false_or, Nat.not_le]
          omega
      | false =>
          simp only [List.head?_cons, Option.mem_some_iff, exists_eq_left',
            Bool.false_eq_true, if_false, reduceCtorEq, true_and, false_or, not_or,
            Nat.not_le, Nat.not_lt]
          omega

/-- Behind any events, for every output buffer of at most 32767 bytes: `write_pdcp`
returns a positive count iff it can commit a segment, and otherwise returns `-1` and
leaves everything but the status as it was. -/
theorem write_succeeds_iff (cfg : PdcpUlConfig) (events : List UlEvent)
    (buffer : List UInt8) (hlimit : buffer.length ≤ 32767) :
    let u := events.foldl ulEvent { config := cfg }
    ((∃ count, 0 < count ∧ (u.writePdcp buffer).count = some count) ↔
        u.CanWrite buffer.length) ∧
      (¬ u.CanWrite buffer.length →
        (u.writePdcp buffer).count = none ∧ u.SameQueue (u.writePdcp buffer).ul) := by
  intro u
  have hu : u.Settled := settled_run cfg events
  have hiff := (hu.count_isSome_iff buffer).trans (hu.canWrite_iff buffer.length).symm
  refine ⟨?_, ?_⟩
  · rw [← hiff, Option.isSome_iff_exists]
    constructor
    · rintro ⟨count, -, hcount⟩
      exact ⟨count, hcount⟩
    · rintro ⟨count, hcount⟩
      exact ⟨count, (hu.writePdcp_some hlimit hcount).1, hcount⟩
  · intro hcannot
    have hnone : (u.writePdcp buffer).count = none := by
      rw [← Option.not_isSome_iff_eq_none, hiff]
      exact hcannot
    refine ⟨hnone, ?_⟩
    rw [hu.writePdcp_none hnone]
    exact ⟨rfl, rfl, rfl, rfl, rfl, rfl⟩

/-- A byte goes into three bytes of buffer, and not into two. -/
theorem header_and_one_byte :
    (∃ count, 0 < count ∧ (([UlEvent.call (.frame [1])].foldl ulEvent
        { config := { minCommitSize := 0 } }).writePdcp [0, 0, 0]).count = some count) ∧
      (([UlEvent.call (.frame [1])].foldl ulEvent
        { config := { minCommitSize := 0 } }).writePdcp [0, 0]).count = none :=
  ⟨(write_succeeds_iff _ _ [0, 0, 0] (by decide)).1.mpr
      ⟨by decide, by decide, [1], rfl, by decide⟩,
    ((write_succeeds_iff _ _ [0, 0] (by decide)).2 (by
      rintro ⟨-, -, front, hfront, hroom⟩
      obtain rfl : [1] = front := Option.some.inj hfront
      revert hroom
      decide)).1⟩

end Winject.Pdcp
