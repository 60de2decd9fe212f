import Winject.Pdcp.Sent

/-!
# The transmitter of the first PDCP (`PDCP.cpp`)

`PdcpTx` is the transmitting half of `PDCP`: the queue filled by `to_tx`, the
packet being cut and the sequence number.  `onTx` fills a grant with segments;
its loop body is `txStep`, whose flag says whether the loop goes on.

The specification is a simulation: with the same settings a `PDCP` transmitter
and a `pdcp_ul` (`Winject.Pdcp.Ul`) write the same bytes into grants of up to
32767 bytes, although one keeps the packet in progress outside of its queue and
stores the header fields in another order.  What the receivers need about the
sent pieces then follows from the uplink's specification.

## Main results

* `txStep_sim` — one iteration of both loops.
* `onTx_sim` — one grant.
* `txRun_sent` — the pieces that a run of `PDCP` sends.

The cipher and integrity headers in front of the segments have length zero:
nothing sets `tx_cipher_iv_size` and `tx_hmac_size`.
-/

namespace Winject.LegacyPdcp

open Winject.Frames
open Winject.Lib.Bytes
open Winject.Lib.Segmentation
open Winject.Pdcp

/-! ## The model -/

/-- The fields of `IPDCP::tx_config_t` that `PDCP` reads, and the two that
`LCRRC` sends to the peer (`allow_rlf` and `max_sn_distance`). -/
structure TxConfig where
  allowRlf : Bool := false
  allowSegmentation : Bool := false
  allowReordering : Bool := false
  autoInitOnTx : Bool := false
  maxSnDistance : Nat := 20
  minCommitSize : Nat := 1000
  maxTxQueueSize : Nat := 1024
  deriving DecidableEq, Repr

/-- The header layout of a configuration. -/
def TxConfig.layout (cfg : TxConfig) : Layout :=
  ⟨cfg.allowReordering, cfg.allowSegmentation⟩

/-- The transmitting half of `PDCP`. -/
structure PdcpTx where
  config : TxConfig
  isTxEnabled : Bool := false
  txSn : Nat := 0
  currentTxBuffer : List UInt8 := []
  currentTxOffset : Nat := 0
  toTxQueue : List (List UInt8) := []
  deriving DecidableEq, Repr

/-- The fields of `tx_info_t` that `PDCP::on_tx` uses. -/
structure TxInfo where
  outPdu : List UInt8
  outAllocated : Nat := 0
  outTxAvailable : Bool := false
  deriving DecidableEq, Repr

namespace PdcpTx

/-- `PDCP::set_tx_enabled`; the sequence number is kept. -/
def setTxEnabled (t : PdcpTx) (value : Bool) : PdcpTx :=
  { t with
    toTxQueue := []
    isTxEnabled := value
    currentTxOffset := 0
    currentTxBuffer := [] }

/-- `PDCP::reconfigure(tx_config_t)`. -/
def reconfigure (t : PdcpTx) (config : TxConfig) : PdcpTx :=
  ({ t with config := config }).setTxEnabled t.isTxEnabled

/-- `PDCP::to_tx`: the packet is refused when the queue is full.  The second
flag says that `rrc.on_init` was called.  A wait for the consumer is an
interleaving of `on_tx` before the call. -/
def toTx (t : PdcpTx) (buffer : List UInt8) : PdcpTx × Bool × Bool :=
  let onInit := !t.isTxEnabled && t.config.autoInitOnTx
  if t.toTxQueue.length ≥ t.config.maxTxQueueSize then (t, false, onInit)
  else ({ t with toTxQueue := t.toTxQueue ++ [buffer] }, true, onInit)

/-- There is something to send. -/
def txAvailable (t : PdcpTx) : Bool :=
  !t.toTxQueue.isEmpty || decide (t.currentTxBuffer.length > t.currentTxOffset)

end PdcpTx

/-- The variables of the loop of `on_tx`.  The grant is split at `payload` into
`written` and `rest`, so that `available_for_data` is the length of `rest`. -/
structure TxLoop where
  tx : PdcpTx
  written : List UInt8
  rest : List UInt8
  outAllocated : Nat
  allocatedSegments : Nat
  deriving DecidableEq, Repr

/-- The end of an iteration: behind the segment that was written. -/
def TxLoop.advance (s : TxLoop) (tx : PdcpTx) (segment : PdcpSegment) : TxLoop :=
  { tx := tx
    written := s.written ++ segment.base.take segment.getSize
    rest := segment.base.drop segment.getSize
    outAllocated := s.outAllocated + segment.getSize
    allocatedSegments := s.allocatedSegments + 1 }

/-- The segment of a whole packet, when segmentation is off. -/
def txWhole (s : TxLoop) (segment : PdcpSegment) : TxLoop × Bool :=
  match s.tx.toTxQueue with
  | [] => ({ s with rest := segment.base }, false)
  | pdu :: others =>
    if pdu.length > s.rest.length - segment.getHeaderSize then
      ({ s with rest := segment.base }, false)
    else
      let segment := segment.copyPayload pdu
      let segment := segment.setPayloadSize pdu.length
      let segment := segment.setLast true
      let tx := { s.tx with
        toTxQueue := others
        txSn := (s.tx.txSn + 1) % 65536 }
      (s.advance tx segment, true)

/-- The packet to cut from: the current one, else the front of the queue. -/
def PdcpTx.loadCurrent (t : PdcpTx) : Option PdcpTx :=
  if t.currentTxOffset ≥ t.currentTxBuffer.length then
    match t.toTxQueue with
    | [] => none
    | front :: others =>
      some { t with currentTxBuffer := front, currentTxOffset := 0, toTxQueue := others }
  else some t

/-- The segment of a part of a packet, when segmentation is on. -/
def txPart (s : TxLoop) (segment : PdcpSegment) : TxLoop × Bool :=
  match s.tx.loadCurrent with
  | none => ({ s with rest := segment.base }, false)
  | some tx =>
    let remainingSize := tx.currentTxBuffer.length - tx.currentTxOffset
    let allocSize := min remainingSize (s.rest.length - segment.getHeaderSize)
    let segment := segment.copyPayload
      ((tx.currentTxBuffer.drop tx.currentTxOffset).take allocSize)
    let segment := segment.setOffset tx.currentTxOffset
    let segment := segment.setPayloadSize allocSize
    let offset := tx.currentTxOffset + allocSize
    let isLast := decide (offset ≥ tx.currentTxBuffer.length)
    let segment := segment.setLast isLast
    let tx := { tx with
      currentTxOffset := offset
      txSn := if isLast then (tx.txSn + 1) % 65536 else tx.txSn }
    (s.advance tx segment, true)

/-- One iteration of the loop of `on_tx`; the flag is false at a `break`.  The
sequence number is stored before the loop knows whether there is data. -/
def txStep (s : TxLoop) : TxLoop × Bool :=
  let segment := (view s.tx.config.layout s.rest).rescan
  if segment.getHeaderSize ≥ s.rest.length then (s, false) else
  let segment := segment.setSn s.tx.txSn
  if !s.tx.config.allowSegmentation then txWhole s segment else txPart s segment

/-- Bytes and packets still to be sent: every iteration that does not leave the
loop lowers this. -/
def PdcpTx.pendingWork (t : PdcpTx) : Nat :=
  (t.currentTxBuffer.length - t.currentTxOffset) +
    (t.toTxQueue.map (fun f => f.length + 1)).sum

private theorem txWhole_pendingWork {s : TxLoop} {segment : PdcpSegment}
    (h : (txWhole s segment).2 = true) :
    (txWhole s segment).1.tx.pendingWork < s.tx.pendingWork := by
  unfold txWhole at h ⊢
  cases hq : s.tx.toTxQueue with
  | nil => simp [hq] at h
  | cons pdu others =>
      simp only [hq] at h ⊢
      split at h
      · cases h
      · rename_i hfit
        rw [if_neg hfit]
        simp only [TxLoop.advance, PdcpTx.pendingWork, hq, List.map_cons, List.sum_cons]
        omega

/-- Loading the next packet costs one unit. -/
theorem PdcpTx.loadCurrent_cases {t t' : PdcpTx} (h : t.loadCurrent = some t') :
    (t.currentTxOffset < t.currentTxBuffer.length ∧ t' = t) ∨
    ∃ front others, t.currentTxBuffer.length ≤ t.currentTxOffset ∧
      t.toTxQueue = front :: others ∧
      t' = { t with
        currentTxBuffer := front, currentTxOffset := 0, toTxQueue := others } := by
  unfold loadCurrent at h
  split at h
  · rename_i hdone
    split at h
    · cases h
    · rename_i front others hq
      exact Or.inr ⟨front, others, hdone, hq, (Option.some.inj h).symm⟩
  · rename_i hmore
    exact Or.inl ⟨by omega, (Option.some.inj h).symm⟩

private theorem txPart_pendingWork {s : TxLoop} {segment : PdcpSegment}
    (hroom : segment.getHeaderSize < s.rest.length) (h : (txPart s segment).2 = true) :
    (txPart s segment).1.tx.pendingWork < s.tx.pendingWork := by
  unfold txPart at h ⊢
  cases hload : s.tx.loadCurrent with
  | none => simp [hload] at h
  | some tx =>
      simp only [TxLoop.advance, PdcpTx.pendingWork]
      rcases PdcpTx.loadCurrent_cases hload with ⟨hlt, rfl⟩ | ⟨front, others, hle, hq, rfl⟩
      · omega
      · simp only [hq, List.map_cons, List.sum_cons]
        omega

theorem txStep_pendingWork {s : TxLoop} (h : (txStep s).2 = true) :
    (txStep s).1.tx.pendingWork < s.tx.pendingWork := by
  unfold txStep at h ⊢
  dsimp only at h ⊢
  split at h
  · cases h
  · rename_i hroom
    have hhdr : ∀ (g : PdcpSegment) (v : Nat), (g.setSn v).getHeaderSize = g.getHeaderSize := by
      intro g v
      unfold PdcpSegment.setSn PdcpSegment.store
      split <;> rfl
    rw [if_neg hroom]
    split at h
    · rename_i hseg
      rw [if_pos hseg]
      exact txWhole_pendingWork h
    · rename_i hseg
      rw [if_neg hseg]
      exact txPart_pendingWork (by rw [hhdr]; omega) h

/-- The loop of `on_tx`. -/
def txLoop (s : TxLoop) : TxLoop :=
  if _h : (txStep s).2 = true then txLoop (txStep s).1 else (txStep s).1
termination_by s.tx.pendingWork
decreasing_by exact txStep_pendingWork _h

namespace PdcpTx

/-- `PDCP::on_tx`. -/
def onTx (t : PdcpTx) (info : TxInfo) : PdcpTx × TxInfo :=
  if !t.isTxEnabled then (t, info) else
  let info := { info with outTxAvailable := t.txAvailable }
  if info.outPdu.length = 0 || !info.outTxAvailable then (t, info) else
  if t.config.minCommitSize > info.outPdu.length || 0 ≥ info.outPdu.length then (t, info)
  else
    let s := txLoop ⟨t, [], info.outPdu, info.outAllocated, 0⟩
    (s.tx,
      { outPdu := s.written ++ s.rest
        outAllocated := s.outAllocated
        outTxAvailable := s.tx.txAvailable })

end PdcpTx

/-- The PDU that a call of `on_tx` leaves in its grant: the part counted in
`out_allocated`. -/
def TxInfo.pdu (info : TxInfo) : Option (List UInt8) :=
  if info.outAllocated = 0 then none else some (info.outPdu.take info.outAllocated)

/-- The configuration is not touched by `on_tx`. -/
theorem onTx_config (t : PdcpTx) (info : TxInfo) : (t.onTx info).1.config = t.config := by
  have hstep : ∀ s : TxLoop, (txStep s).1.tx.config = s.tx.config := by
    intro s
    have hwhole : ∀ segment, (txWhole s segment).1.tx.config = s.tx.config := by
      intro segment
      unfold txWhole
      split
      · rfl
      · dsimp only
        split_ifs <;> rfl
    have hload : ∀ tx, s.tx.loadCurrent = some tx → tx.config = s.tx.config := by
      intro tx htx
      unfold PdcpTx.loadCurrent at htx
      split at htx
      · split at htx
        · cases htx
        · obtain rfl := Option.some.inj htx
          rfl
      · obtain rfl := Option.some.inj htx
        rfl
    have hpart : ∀ segment, (txPart s segment).1.tx.config = s.tx.config := by
      intro segment
      unfold txPart
      split
      · rfl
      · rename_i tx htx
        exact hload tx htx
    unfold txStep
    dsimp only
    split_ifs
    · rfl
    · exact hwhole _
    · exact hpart _
  have hloop : ∀ s : TxLoop, (txLoop s).tx.config = s.tx.config := by
    intro s
    induction s using txLoop.induct with
    | case1 s hmore ih =>
        rw [txLoop, dif_pos hmore]
        exact ih.trans (hstep s)
    | case2 s hstop =>
        rw [txLoop, dif_neg hstop]
        exact hstep s
  unfold PdcpTx.onTx
  dsimp only
  split_ifs
  · rfl
  · rfl
  · rfl
  · exact hloop _

/-! ## Runs -/

/-- A call on the transmitter. -/
inductive TxOp where
  | submit (packet : List UInt8)
  | grant (buffer : List UInt8)
  deriving DecidableEq, Repr

/-- A PDU with the number of packets that had been sent in full before it. -/
structure SentPdu where
  first : Nat
  bytes : List UInt8
  deriving DecidableEq, Repr

/-- The packets that have not been sent in full. -/
def PdcpTx.pendingPackets (t : PdcpTx) : Nat :=
  (if t.currentTxOffset < t.currentTxBuffer.length then 1 else 0) + t.toTxQueue.length

/-- What a run leaves behind: the transmitter, the packets that `to_tx` took
and the PDUs, in order. -/
structure TxRun where
  tx : PdcpTx
  packets : List (List UInt8) := []
  pdus : List SentPdu := []
  deriving DecidableEq, Repr

/-- One call. -/
def TxRun.step (r : TxRun) : TxOp → TxRun
  | .submit packet =>
    let (tx, taken, _) := r.tx.toTx packet
    { r with tx := tx, packets := if taken then r.packets ++ [packet] else r.packets }
  | .grant buffer =>
    let (tx, info) := r.tx.onTx { outPdu := buffer }
    let first := r.packets.length - r.tx.pendingPackets
    { r with tx := tx, pdus := r.pdus ++ (info.pdu.map (SentPdu.mk first)).toList }

/-- A run of calls on a transmitter that has been enabled. -/
def txRun (cfg : TxConfig) (ops : List TxOp) : TxRun :=
  ops.foldl TxRun.step { tx := ({ config := cfg } : PdcpTx).setTxEnabled true }

/-- The calls of a run: packets that are not empty and have at most 65535 bytes,
and grants of at most `limit` bytes. -/
def TxOpOk (limit : Nat) : TxOp → Prop
  | .submit packet => FrameOk packet
  | .grant buffer => buffer.length ≤ limit

instance (limit : Nat) (op : TxOp) : Decidable (TxOpOk limit op) :=
  match op with
  | .submit packet => inferInstanceAs (Decidable (FrameOk packet))
  | .grant buffer => inferInstanceAs (Decidable (buffer.length ≤ limit))

/-! ## The bounds of a grant -/

/-- The loop is `n` bytes behind its start, of which those written are allocated. -/
structure TxLoop.Stays (n allocated : Nat) (s : TxLoop) : Prop where
  length : s.written.length + s.rest.length = n
  allocated : s.outAllocated = allocated + s.written.length

/-- The setters of a whole packet are those of `storeSegmentSnFirst`. -/
private theorem whole_setters (cfg : TxConfig) (hseg : cfg.allowSegmentation = false)
    (bytes pdu : List UInt8) (sn : Nat) :
    ((((scanned cfg.layout bytes).setSn sn).copyPayload pdu).setPayloadSize
      pdu.length).setLast true =
      storeSegmentSnFirst (scanned cfg.layout bytes) ⟨sn, 0, true, pdu⟩ := by
  obtain ⟨_, seg, reord, _, _, _, _⟩ := cfg
  dsimp only at hseg
  subst hseg
  cases reord <;> rfl

/-- So are those of a part of a packet. -/
private theorem part_setters (cfg : TxConfig) (hseg : cfg.allowSegmentation = true)
    (bytes payload : List UInt8) (sn off : Nat) (last : Bool) {n : Nat}
    (hn : payload.length = n) :
    (((((scanned cfg.layout bytes).setSn sn).copyPayload payload).setOffset
      off).setPayloadSize n).setLast last =
      storeSegmentSnFirst (scanned cfg.layout bytes) ⟨sn, off, last, payload⟩ := by
  subst hn
  obtain ⟨_, seg, reord, _, _, _, _⟩ := cfg
  dsimp only at hseg
  subst hseg
  cases reord <;> rfl

/-- Storing the sequence number does not change the length of the grant. -/
private theorem setSn_length (l : Layout) (bytes : List UInt8) (v : Nat)
    (h : l.headerSize ≤ bytes.length) :
    ((scanned l bytes).setSn v).base.length = bytes.length := by
  obtain ⟨w, sn, off, p, tail, rfl, hw, hsn, hoff, _⟩ := exists_fields l 0 bytes h
  have f : Fields l w sn off := ⟨hw, hsn, hoff⟩
  rw [f.setSn]
  show (w ++ ((if l.hasSn then be16 v else []) ++ (off ++ (p ++ tail)))).length = _
  simp only [List.length_append, hsn]
  cases l.hasSn <;> simp

/-- The end of an iteration that copies `n` bytes of the current packet. -/
def PdcpTx.cut (tx : PdcpTx) (n : Nat) : PdcpTx :=
  { tx with
    currentTxOffset := tx.currentTxOffset + n
    txSn := if tx.currentTxOffset + n ≥ tx.currentTxBuffer.length then
      (tx.txSn + 1) % 65536 else tx.txSn }

/-- What one iteration does with the bytes behind its header. -/
inductive TxStepCases (s : TxLoop) : TxLoop × Bool → Prop
  | full (h : s.rest.length ≤ s.tx.config.layout.headerSize) : TxStepCases s (s, false)
  | idle (hroom : s.tx.config.layout.headerSize < s.rest.length)
      (hwhole : s.tx.config.allowSegmentation = false → ∀ pdu ∈ s.tx.toTxQueue.head?,
        s.rest.length - s.tx.config.layout.headerSize < pdu.length)
      (hpart : s.tx.config.allowSegmentation = true → s.tx.loadCurrent = none)
      (rest : List UInt8) (hrest : rest.length = s.rest.length) :
      TxStepCases s ({ s with rest := rest }, false)
  | whole (hroom : s.tx.config.layout.headerSize < s.rest.length)
      (hseg : s.tx.config.allowSegmentation = false) (pdu : List UInt8)
      (others : List (List UInt8)) (hq : s.tx.toTxQueue = pdu :: others)
      (hfit : s.tx.config.layout.headerSize + pdu.length ≤ s.rest.length) :
      TxStepCases s
        (s.advance { s.tx with toTxQueue := others, txSn := (s.tx.txSn + 1) % 65536 }
          (storeSegmentSnFirst (scanned s.tx.config.layout s.rest)
            ⟨s.tx.txSn, 0, true, pdu⟩), true)
  | part (hroom : s.tx.config.layout.headerSize < s.rest.length)
      (hseg : s.tx.config.allowSegmentation = true) (tx : PdcpTx)
      (hload : s.tx.loadCurrent = some tx) (n : Nat)
      (hn : n = min (tx.currentTxBuffer.length - tx.currentTxOffset)
        (s.rest.length - s.tx.config.layout.headerSize))
      (hlen : ((tx.currentTxBuffer.drop tx.currentTxOffset).take n).length = n) :
      TxStepCases s
        (s.advance (tx.cut n)
          (storeSegmentSnFirst (scanned s.tx.config.layout s.rest)
            ⟨s.tx.txSn, tx.currentTxOffset,
              decide (tx.currentTxOffset + n ≥ tx.currentTxBuffer.length),
              (tx.currentTxBuffer.drop tx.currentTxOffset).take n⟩), true)

theorem txStep_cases (s : TxLoop) : TxStepCases s (txStep s) := by
  have hhdr : ((scanned s.tx.config.layout s.rest).setSn s.tx.txSn).getHeaderSize =
      s.tx.config.layout.headerSize := by
    unfold PdcpSegment.setSn PdcpSegment.store
    split <;> rfl
  unfold txStep
  dsimp only
  split_ifs with hroom hseg
  · rw [(rescan_frame _).2, view_getHeaderSize] at hroom
    exact .full hroom
  all_goals
    rw [(rescan_frame _).2, view_getHeaderSize] at hroom
    have hlt : s.tx.config.layout.headerSize < s.rest.length := by omega
    rw [rescan_view _ _ (by omega)]
    have hleave := setSn_length s.tx.config.layout s.rest s.tx.txSn (by omega)
  · have hsegm : s.tx.config.allowSegmentation = false := by
      rwa [Bool.not_eq_true'] at hseg
    have hnot : s.tx.config.allowSegmentation = true → s.tx.loadCurrent = none := by
      intro h
      rw [hsegm] at h
      cases h
    unfold txWhole
    cases hq : s.tx.toTxQueue with
    | nil => exact .idle hlt (fun _ pdu hpdu => by rw [hq] at hpdu; cases hpdu) hnot _ hleave
    | cons pdu others =>
        dsimp only
        rw [hhdr]
        split_ifs with hfit
        · refine .idle hlt (fun _ pdu' hpdu => ?_) hnot _ hleave
          rw [hq, List.head?_cons, Option.mem_some_iff] at hpdu
          rw [← hpdu]
          exact hfit
        · rw [whole_setters s.tx.config hsegm]
          exact .whole hlt hsegm pdu others hq (by omega)
  · have hsegm : s.tx.config.allowSegmentation = true := by
      rwa [Bool.not_eq_true, Bool.not_eq_false'] at hseg
    have hnot : s.tx.config.allowSegmentation = false → ∀ pdu ∈ s.tx.toTxQueue.head?,
        s.rest.length - s.tx.config.layout.headerSize < pdu.length := by
      intro h
      rw [hsegm] at h
      cases h
    unfold txPart
    cases hload : s.tx.loadCurrent with
    | none => exact .idle hlt hnot (fun _ => hload) _ hleave
    | some tx =>
        dsimp only
        rw [hhdr]
        generalize hn : min (tx.currentTxBuffer.length - tx.currentTxOffset)
          (s.rest.length - s.tx.config.layout.headerSize) = n
        have hlen : ((tx.currentTxBuffer.drop tx.currentTxOffset).take n).length = n := by
          rw [List.length_take, List.length_drop]
          omega
        rw [part_setters s.tx.config hsegm _ _ _ _ _ hlen]
        have hcut : tx.cut n = { tx with
            currentTxOffset := tx.currentTxOffset + n
            txSn := if decide (tx.currentTxOffset + n ≥ tx.currentTxBuffer.length) = true then
              (tx.txSn + 1) % 65536 else tx.txSn } := by
          simp only [PdcpTx.cut, decide_eq_true_eq]
        rw [← hcut]
        exact .part hlt hsegm tx hload n hn.symm hlen

namespace TxLoop.Stays

variable {n a : Nat} {s : TxLoop}

/-- The end of an iteration that stores a segment. -/
theorem advance (h : s.Stays n a) (hn : n ≤ 32767) (tx : PdcpTx) (l : Layout) (g : Seg)
    (hroom : g.wireSize l ≤ s.rest.length) :
    (s.advance tx (storeSegmentSnFirst (scanned l s.rest) g)).Stays n a := by
  have hlen := h.length
  have halloc := h.allocated
  obtain ⟨hsize, hbase⟩ := storeSnFirst_size l g s.rest (by omega) hroom
  unfold TxLoop.advance
  refine ⟨?_, ?_⟩
  · simp only [List.length_append, List.length_take, List.length_drop, hbase]
    omega
  · simp only [List.length_append, List.length_take, hbase, hsize]
    omega

/-- An iteration that does not store a segment leaves its bytes behind. -/
theorem leave (h : s.Stays n a) {rest : List UInt8} (hrest : rest.length = s.rest.length) :
    ({ s with rest := rest } : TxLoop).Stays n a :=
  ⟨by rw [← h.length]; exact congrArg _ hrest, h.allocated⟩

theorem txStep (h : s.Stays n a) (hn : n ≤ 32767) : (txStep s).1.Stays n a := by
  have hcases := txStep_cases s
  generalize LegacyPdcp.txStep s = r at hcases
  cases hcases with
  | full => exact h
  | idle _ _ _ rest hrest => exact h.leave hrest
  | whole _ _ pdu others _ hfit => exact h.advance hn _ _ _ hfit
  | part hroom _ tx _ k hk hlen =>
      refine h.advance hn _ _ _ ?_
      rw [Seg.wireSize, hlen]
      omega

theorem txLoop (h : s.Stays n a) (hn : n ≤ 32767) : (txLoop s).Stays n a := by
  induction s using LegacyPdcp.txLoop.induct with
  | case1 s hmore ih =>
      rw [LegacyPdcp.txLoop, dif_pos hmore]
      exact ih (h.txStep hn)
  | case2 s hstop =>
      rw [LegacyPdcp.txLoop, dif_neg hstop]
      exact h.txStep hn

end TxLoop.Stays

/-- A grant keeps its length, and what is allocated of it fits. -/
theorem PdcpTx.onTx_stays (t : PdcpTx) (info : TxInfo) (h : info.outPdu.length ≤ 32767) :
    (t.onTx info).2.outPdu.length = info.outPdu.length ∧
      info.outAllocated ≤ (t.onTx info).2.outAllocated ∧
      (t.onTx info).2.outAllocated ≤ info.outAllocated + info.outPdu.length := by
  have hstart : (⟨t, [], info.outPdu, info.outAllocated, 0⟩ : TxLoop).Stays
      info.outPdu.length info.outAllocated :=
    ⟨by rw [List.length_nil, Nat.zero_add], by rw [List.length_nil, Nat.add_zero]⟩
  have hend := hstart.txLoop h
  have hlen := hend.length
  have halloc := hend.allocated
  unfold PdcpTx.onTx
  dsimp only
  split_ifs
  · exact ⟨rfl, le_refl _, Nat.le_add_right _ _⟩
  · exact ⟨rfl, le_refl _, Nat.le_add_right _ _⟩
  · exact ⟨rfl, le_refl _, Nat.le_add_right _ _⟩
  · refine ⟨by rw [List.length_append]; exact hlen, ?_, ?_⟩
    · dsimp only
      omega
    · dsimp only
      omega

/-! ## The simulation -/

/-- The uplink configuration with the same settings. -/
def TxConfig.toUl (cfg : TxConfig) : PdcpUlConfig :=
  ⟨cfg.allowSegmentation, cfg.allowReordering, cfg.minCommitSize⟩

/-- The two transmitters have the same bytes left to send. -/
structure TxSim (t : PdcpTx) (u : PdcpUl) : Prop where
  enabled : t.isTxEnabled = true
  config : u.config = t.config.toUl
  sn : t.txSn = u.sequenceNumber
  queue : u.outstandingBuffers =
    if t.currentTxOffset < t.currentTxBuffer.length then t.currentTxBuffer :: t.toTxQueue
    else t.toTxQueue
  offset : u.dataOffset =
    if t.currentTxOffset < t.currentTxBuffer.length then t.currentTxOffset else 0
  whole : t.config.allowSegmentation = false →
    t.currentTxBuffer.length ≤ t.currentTxOffset

/-- The two loops have written the same bytes. -/
structure LoopSim (s : TxLoop) (v : WriteState) : Prop where
  tx : TxSim s.tx v.ul
  written : s.written = v.written
  rest : s.rest.length = v.rest.length
  allocated : s.outAllocated = v.totalPdcpWritten
  count : s.allocatedSegments = v.segmentsAllocated

/-- The end of an iteration that has stored segment `g`. -/
private theorem advance_encode (s : TxLoop) (tx : PdcpTx) (l : Layout) (g : Seg)
    (hfits : g.Fits l) (hroom : g.wireSize l ≤ s.rest.length) :
    s.advance tx (storeSegmentSnFirst (scanned l s.rest) g) =
      { tx := tx
        written := s.written ++ encode l g
        rest := s.rest.drop (g.wireSize l)
        outAllocated := s.outAllocated + g.wireSize l
        allocatedSegments := s.allocatedSegments + 1 } := by
  rw [storeSnFirst_encode l g s.rest hfits.size_lt hroom]
  unfold TxLoop.advance
  have hsize := (scan_encode l g (s.rest.drop (g.wireSize l)) hfits).size
  have hbase : (scanned l (encode l g ++ s.rest.drop (g.wireSize l))).base =
      encode l g ++ s.rest.drop (g.wireSize l) := rfl
  rw [hsize, hbase, List.take_left' (encode_length l g), List.drop_left' (encode_length l g)]

section Step

variable {frames : List (List UInt8)} {cfg : PdcpUlConfig} {k off : Nat} {t : PdcpTx}
  {u : PdcpUl}

/-- With a packet in front, the transmitter cuts from the position of the
uplink. -/
theorem TxSim.load (h : TxSim t u) (hat : UlAt cfg frames (k, off) u)
    (hk : k < frames.length) :
    ∃ tx, t.loadCurrent = some tx ∧ tx = { t with
      currentTxBuffer := frames.getD k []
      currentTxOffset := off
      toTxQueue := frames.drop (k + 1) } := by
  have hget : frames.getD k [] = frames[k] := by
    rw [List.getD_eq_getElem?_getD, List.getElem?_eq_getElem hk]
    rfl
  have hqueue := h.queue
  have hoff := h.offset
  rw [hat.queue, List.drop_eq_getElem_cons hk] at hqueue
  rw [hat.offset] at hoff
  change off = _ at hoff
  unfold PdcpTx.loadCurrent
  by_cases hcur : t.currentTxOffset < t.currentTxBuffer.length
  · rw [if_pos hcur] at hqueue hoff
    obtain ⟨hfront, hothers⟩ := List.cons.inj hqueue
    rw [if_neg (by omega)]
    refine ⟨t, rfl, ?_⟩
    rw [hget, hfront, hoff, hothers]
  · rw [if_neg hcur] at hqueue hoff
    rw [if_pos (by omega), ← hqueue]
    refine ⟨_, rfl, ?_⟩
    rw [hget, hoff]

/-- Without a packet in front, there is nothing to load. -/
theorem TxSim.load_none (h : TxSim t u) (hat : UlAt cfg frames (k, off) u)
    (hk : frames.length ≤ k) : t.loadCurrent = none ∧ t.toTxQueue = [] := by
  have hqueue := h.queue
  rw [hat.queue, List.drop_eq_nil_of_le hk] at hqueue
  by_cases hcur : t.currentTxOffset < t.currentTxBuffer.length
  · rw [if_pos hcur] at hqueue
    cases hqueue
  · rw [if_neg hcur] at hqueue
    unfold PdcpTx.loadCurrent
    rw [if_pos (by omega), ← hqueue]
    exact ⟨rfl, rfl⟩

/-- The transmitter after the piece that the uplink has written. -/
theorem TxSim.wrote (h : TxSim t u) {n : Nat} {u' : PdcpUl} (hk : k < frames.length)
    (hle : off + n ≤ (frames.getD k []).length) (hcfg : u.config = cfg)
    (hsn : u.sequenceNumber = k % 65536)
    (hat : UlAt cfg frames (Piece.next frames ⟨k, off, n⟩) u') {t' : PdcpTx}
    (hsame : t' = { t with
      currentTxBuffer := t'.currentTxBuffer
      currentTxOffset := t'.currentTxOffset
      toTxQueue := frames.drop (k + 1)
      txSn := if Piece.isLast frames ⟨k, off, n⟩ then (t.txSn + 1) % 65536 else t.txSn })
    (hlast : Piece.isLast frames ⟨k, off, n⟩ = true →
      t'.currentTxBuffer.length ≤ t'.currentTxOffset)
    (hmore : Piece.isLast frames ⟨k, off, n⟩ = false →
      t'.currentTxBuffer = frames.getD k [] ∧ t'.currentTxOffset = off + n)
    (hwhole : t.config.allowSegmentation = false →
      t'.currentTxBuffer.length ≤ t'.currentTxOffset) : TxSim t' u' := by
  have hen : t'.isTxEnabled = t.isTxEnabled := by rw [hsame]
  have hconf : t'.config = t.config := by rw [hsame]
  have hqueue : t'.toTxQueue = frames.drop (k + 1) := by rw [hsame]
  have hnum : t'.txSn =
      if Piece.isLast frames ⟨k, off, n⟩ then (t.txSn + 1) % 65536 else t.txSn := by
    rw [hsame]
  have hget : frames.getD k [] = frames[k] := by
    rw [List.getD_eq_getElem?_getD, List.getElem?_eq_getElem hk]
    rfl
  unfold Piece.next at hat
  cases hend : Piece.isLast frames ⟨k, off, n⟩ with
  | true =>
      rw [if_pos hend] at hat
      rw [hend, if_pos rfl] at hnum
      have hdone := hlast hend
      exact
        { enabled := hen.trans h.enabled
          config := by rw [hat.config, hconf, ← h.config, hcfg]
          sn := by
            rw [hnum, hat.sn, h.sn, hsn]
            show (k % 65536 + 1) % 65536 = (k + 1) % 65536
            omega
          queue := by rw [if_neg (by omega), hqueue]; exact hat.queue
          offset := by rw [if_neg (by omega)]; exact hat.offset
          whole := by rw [hconf]; exact hwhole }
  | false =>
      rw [hend, if_neg (by decide)] at hat
      rw [hend, if_neg (by decide)] at hnum
      obtain ⟨hbuf, hoff⟩ := hmore hend
      have hlt : t'.currentTxOffset < t'.currentTxBuffer.length := by
        unfold Piece.isLast at hend
        rw [beq_eq_false_iff_ne] at hend
        dsimp only at hend
        rw [hbuf, hoff]
        omega
      exact
        { enabled := hen.trans h.enabled
          config := by rw [hat.config, hconf, ← h.config, hcfg]
          sn := by rw [hnum, hat.sn, h.sn, hsn]
          queue := by
            rw [if_pos hlt, hqueue, hbuf, hget, ← List.drop_eq_getElem_cons hk]
            exact hat.queue
          offset := by rw [if_pos hlt, hoff]; exact hat.offset
          whole := by rw [hconf]; exact hwhole }

/-- Both loops after the same piece. -/
private theorem wrote_sim {s : TxLoop} {v v' : WriteState} {n : Nat} (h : LoopSim s v)
    (hw : Wrote cfg frames ⟨k, off, n⟩ v v') (hframes : ∀ f ∈ frames, FrameOk f)
    (hlimit : v.rest.length ≤ 32767) {tx : PdcpTx} (hsim : TxSim tx v'.ul) :
    LoopSim (s.advance tx (storeSegmentSnFirst (scanned cfg.layout s.rest)
      (segOf frames ⟨k, off, n⟩))) v' := by
  obtain ⟨hk, hpos, hle⟩ := hw.valid
  have hok : FrameOk (frames.getD k []) := by
    dsimp only at hk
    rw [List.getD_eq_getElem?_getD, List.getElem?_eq_getElem hk]
    exact hframes _ (List.getElem_mem hk)
  have hwire := segOf_wireSize cfg.layout hle
  have hfit := hw.fits
  have hrest := h.rest
  have hfits := segOf_fits cfg.layout hok.2 hpos hle (by dsimp only at hfit ⊢; omega)
  rw [advance_encode s tx cfg.layout _ hfits (by rw [hwire]; omega), hwire]
  exact
    { tx := hsim
      written := by rw [hw.written, h.written]
      rest := by rw [hw.rest, List.length_drop, List.length_drop, hrest]
      allocated := by rw [hw.total, h.allocated]
      count := by rw [hw.count, h.count] }

/-- A whole packet. -/
private theorem txWhole_sim {s : TxLoop} {v v' : WriteState} {n : Nat} (h : LoopSim s v)
    (hat : UlAt cfg frames (k, off) v.ul) (hframes : ∀ f ∈ frames, FrameOk f)
    (hlimit : v.rest.length ≤ 32767) (hseg : cfg.allowSegmentation = false)
    (hcfg : s.tx.config.toUl = cfg) (hw : Wrote cfg frames ⟨k, off, n⟩ v v') :
    (txWhole s ((scanned cfg.layout s.rest).setSn s.tx.txSn)).2 = true ∧
      LoopSim (txWhole s ((scanned cfg.layout s.rest).setSn s.tx.txSn)).1 v' := by
  obtain ⟨hk, hpos, hle⟩ := hw.valid
  obtain ⟨hoff, hlen⟩ := hw.whole hseg
  dsimp only at hk hpos hle hoff hlen
  subst hoff
  have hsegm : s.tx.config.allowSegmentation = false := by rw [← hseg, ← hcfg]; rfl
  have hlayout : s.tx.config.layout = cfg.layout := by rw [← hcfg]; rfl
  have hcur := h.tx.whole hsegm
  have hget : frames.getD k [] = frames[k] := by
    rw [List.getD_eq_getElem?_getD, List.getElem?_eq_getElem hk]
    rfl
  have hqueue : s.tx.toTxQueue = frames.getD k [] :: frames.drop (k + 1) := by
    have hq := h.tx.queue
    rw [hat.queue, if_neg (by omega)] at hq
    rw [← hq, hget]
    exact List.drop_eq_getElem_cons hk
  have hlast : Piece.isLast frames ⟨k, 0, n⟩ = true := by
    unfold Piece.isLast
    dsimp only
    rw [beq_iff_eq, hlen, Nat.zero_add]
  have hhdr : ((scanned cfg.layout s.rest).setSn s.tx.txSn).getHeaderSize =
      cfg.layout.headerSize := by
    unfold PdcpSegment.setSn PdcpSegment.store
    split <;> rfl
  have hsegment : segOf frames ⟨k, 0, n⟩ =
      ⟨s.tx.txSn, 0, true, frames.getD k []⟩ := by
    unfold segOf
    rw [hlast, h.tx.sn, hat.sn]
    unfold Piece.bytes
    dsimp only
    rw [List.drop_zero, hlen, List.take_length]
  have hsetters := whole_setters s.tx.config hsegm s.rest (frames.getD k []) s.tx.txSn
  rw [← hsegment, hlayout] at hsetters
  have hfit := hw.fits
  have hrest := h.rest
  dsimp only at hfit
  unfold txWhole
  rw [hqueue]
  dsimp only
  rw [hhdr, if_neg (by omega), hsetters]
  refine ⟨rfl, wrote_sim h hw hframes hlimit ?_⟩
  refine h.tx.wrote hk hle hat.config hat.sn hw.state ?_ ?_ ?_ ?_
  · rw [if_pos hlast]
  · exact fun _ => hcur
  · intro hfalse
    rw [hlast] at hfalse
    cases hfalse
  · exact fun _ => hcur

/-- A part of a packet. -/
private theorem txPart_sim {s : TxLoop} {v v' : WriteState} (h : LoopSim s v)
    (hat : UlAt cfg frames (k, off) v.ul) (hframes : ∀ f ∈ frames, FrameOk f)
    (hlimit : v.rest.length ≤ 32767) (hseg : cfg.allowSegmentation = true)
    (hcfg : s.tx.config.toUl = cfg)
    (hw : Wrote cfg frames ⟨k, off, min ((frames.getD k []).length - off)
      (v.rest.length - cfg.layout.headerSize)⟩ v v') :
    (txPart s ((scanned cfg.layout s.rest).setSn s.tx.txSn)).2 = true ∧
      LoopSim (txPart s ((scanned cfg.layout s.rest).setSn s.tx.txSn)).1 v' := by
  have hsegm : s.tx.config.allowSegmentation = true := by rw [← hseg, ← hcfg]; rfl
  have hlayout : s.tx.config.layout = cfg.layout := by rw [← hcfg]; rfl
  have hhdr : ((scanned cfg.layout s.rest).setSn s.tx.txSn).getHeaderSize =
      cfg.layout.headerSize := by
    unfold PdcpSegment.setSn PdcpSegment.store
    split <;> rfl
  obtain ⟨tx, hload, htx⟩ := h.tx.load hat hw.valid.1
  unfold txPart
  rw [hload, htx]
  dsimp only
  rw [hhdr, h.rest]
  generalize min ((frames.getD k []).length - off)
    (v.rest.length - cfg.layout.headerSize) = n at hw
  obtain ⟨hk, hpos, hle⟩ := hw.valid
  dsimp only at hk hpos hle
  have hlast : decide (off + n ≥ (frames.getD k []).length) =
      Piece.isLast frames ⟨k, off, n⟩ := by
    have hbeq : (off + n == (frames.getD k []).length) =
        decide (off + n = (frames.getD k []).length) := rfl
    unfold Piece.isLast
    dsimp only
    rw [hbeq, decide_eq_decide]
    omega
  have hsegment : segOf frames ⟨k, off, n⟩ =
      ⟨s.tx.txSn, off, Piece.isLast frames ⟨k, off, n⟩,
        ((frames.getD k []).drop off).take n⟩ := by
    unfold segOf
    rw [h.tx.sn, hat.sn]
    rfl
  have hsetters := part_setters s.tx.config hsegm s.rest
    (((frames.getD k []).drop off).take n) s.tx.txSn off
    (Piece.isLast frames ⟨k, off, n⟩)
    (show _ = n by rw [List.length_take, List.length_drop]; omega)
  rw [← hsegment, hlayout] at hsetters
  rw [hlast, hsetters]
  refine ⟨rfl, wrote_sim h hw hframes hlimit ?_⟩
  refine h.tx.wrote hk hle hat.config hat.sn hw.state rfl ?_ ?_ ?_
  · intro hend
    rw [hend, decide_eq_true_eq] at hlast
    exact hlast
  · exact fun _ => ⟨rfl, rfl⟩
  · intro hno
    rw [hsegm] at hno
    cases hno

/-- One iteration of the loop of `on_tx` follows one of `write_pdcp`. -/
theorem txStep_sim {s : TxLoop} {v : WriteState} {pos : Nat × Nat} (h : LoopSim s v)
    (hat : UlAt cfg frames pos v.ul) (hframes : ∀ f ∈ frames, FrameOk f)
    (hlimit : v.rest.length ≤ 32767) :
    (writeStep v = none ∧ (txStep s).2 = false ∧ LoopSim (txStep s).1 v) ∨
    ∃ v', writeStep v = some v' ∧ (txStep s).2 = true ∧ LoopSim (txStep s).1 v' := by
  obtain ⟨k, off⟩ := pos
  have hrest := h.rest
  have hcfg : s.tx.config.toUl = cfg := by rw [← h.tx.config, hat.config]
  have hlayout : s.tx.config.layout = cfg.layout := by rw [← hcfg]; rfl
  have hsegm : s.tx.config.allowSegmentation = cfg.allowSegmentation := by rw [← hcfg]; rfl
  have hstop : ∀ bytes : List UInt8, bytes.length = s.rest.length →
      LoopSim { s with rest := bytes } v := fun bytes hb =>
    ⟨h.tx, h.written, hb.trans h.rest, h.allocated, h.count⟩
  unfold txStep
  dsimp only
  by_cases hroom : s.rest.length ≤ cfg.layout.headerSize
  · -- no room for a header and a byte
    have hhdr : (view s.tx.config.layout s.rest).rescan.getHeaderSize =
        cfg.layout.headerSize := by
      rw [hlayout]
      exact (rescan_frame _).2
    rw [hhdr, if_pos hroom]
    rcases writeStep_cases hat hframes hlimit with ⟨hnone, _⟩ | ⟨v', _, hw⟩
    · exact Or.inl ⟨hnone, rfl, h⟩
    · have hfits := hw.fits
      have hpos := hw.valid.2.1
      dsimp only at hfits hpos
      omega
  · rw [hlayout, rescan_view _ _ (by omega), scanned_getHeaderSize, if_neg hroom, hsegm]
    have hsnlen := setSn_length cfg.layout s.rest s.tx.txSn (by omega)
    have hhdr : ((scanned cfg.layout s.rest).setSn s.tx.txSn).getHeaderSize =
        cfg.layout.headerSize := by
      unfold PdcpSegment.setSn PdcpSegment.store
      split <;> rfl
    by_cases hk : k < frames.length
    swap
    · -- no packet
      obtain ⟨hload, hqueue⟩ := h.tx.load_none hat (by omega)
      have hstopped : (if !cfg.allowSegmentation then
            txWhole s ((scanned cfg.layout s.rest).setSn s.tx.txSn)
          else txPart s ((scanned cfg.layout s.rest).setSn s.tx.txSn)) =
          ({ s with rest := ((scanned cfg.layout s.rest).setSn s.tx.txSn).base }, false) := by
        cases cfg.allowSegmentation with
        | false => simp only [Bool.not_false, if_true, txWhole, hqueue]
        | true =>
            simp only [Bool.not_true, Bool.false_eq_true, if_false, txPart, hload]
      rw [hstopped]
      rcases writeStep_cases hat hframes hlimit with ⟨hnone, _⟩ | ⟨v', _, hw⟩
      · exact Or.inl ⟨hnone, rfl, hstop _ hsnlen⟩
      · exact absurd hw.valid.1 hk
    cases hseg : cfg.allowSegmentation with
    | false =>
        simp only [Bool.not_false, if_true]
        rcases writeStep_cases hat hframes hlimit with ⟨hnone, hno⟩ | ⟨v', hv', hw⟩
        · -- the packet does not fit
          dsimp only at hno
          have hbig : s.rest.length - cfg.layout.headerSize < (frames.getD k []).length := by
            omega
          have hqueue : ∃ others, s.tx.toTxQueue = frames.getD k [] :: others := by
            have hq := h.tx.queue
            have hcur := h.tx.whole (hsegm.trans hseg)
            rw [hat.queue, if_neg (by omega)] at hq
            rw [List.getD_eq_getElem?_getD, List.getElem?_eq_getElem hk]
            exact ⟨_, hq.symm.trans (List.drop_eq_getElem_cons hk)⟩
          obtain ⟨others, hqueue⟩ := hqueue
          left
          unfold txWhole
          rw [hqueue]
          dsimp only
          rw [hhdr, if_pos hbig]
          exact ⟨hnone, rfl, hstop _ hsnlen⟩
        · exact Or.inr ⟨v', hv', txWhole_sim h hat hframes hlimit hseg hcfg hw⟩
    | true =>
        simp only [Bool.not_true, Bool.false_eq_true, if_false]
        rcases writeStep_cases hat hframes hlimit with ⟨_, hno⟩ | ⟨v', hv', hw⟩
        · rw [hseg] at hno
          dsimp only at hno
          rcases hno with hno | hno | ⟨hno, _⟩
          · omega
          · omega
          · cases hno
        · exact Or.inr ⟨v', hv', txPart_sim h hat hframes hlimit hseg hcfg hw⟩

/-- The whole loops. -/
theorem txLoop_sim (s : TxLoop) {v : WriteState} {pos : Nat × Nat} (h : LoopSim s v)
    (hat : UlAt cfg frames pos v.ul) (hframes : ∀ f ∈ frames, FrameOk f)
    (hlimit : v.rest.length ≤ 32767) : LoopSim (txLoop s) (writeLoop v) := by
  induction s using txLoop.induct generalizing v pos with
  | case1 s hmore ih =>
      rw [txLoop, dif_pos hmore]
      rcases txStep_sim h hat hframes hlimit with ⟨_, hstop, _⟩ | ⟨v', hv', _, hsim⟩
      · rw [hmore] at hstop
        cases hstop
      · rcases writeStep_cases hat hframes hlimit with ⟨hnone, _⟩ | ⟨v'', hv'', hw⟩
        · rw [hv'] at hnone
          cases hnone
        · rw [hv'] at hv''
          obtain rfl := Option.some.inj hv''
          rw [writeLoop_of_some hv']
          exact ih hsim hw.state (by rw [hw.rest, List.length_drop]; omega)
  | case2 s hstop =>
      rw [txLoop, dif_neg hstop]
      rcases txStep_sim h hat hframes hlimit with ⟨hnone, _, hsim⟩ | ⟨_, _, hmore, _⟩
      · rw [writeLoop_of_none hnone]
        exact hsim
      · exact absurd hmore hstop

theorem TxSim.status (h : TxSim t u) (st : UlStatus) : TxSim t { u with status := st } :=
  ⟨h.enabled, h.config, h.sn, h.queue, h.offset, h.whole⟩

/-- Both transmitters know whether they have data. -/
theorem TxSim.available (h : TxSim t u) :
    t.txAvailable = !u.outstandingBuffers.isEmpty := by
  unfold PdcpTx.txAvailable
  rw [h.queue]
  by_cases hcur : t.currentTxOffset < t.currentTxBuffer.length
  · rw [if_pos hcur, decide_eq_true hcur, Bool.or_true]
    rfl
  · rw [if_neg hcur, decide_eq_false hcur, Bool.or_false]

/-- A grant. -/
theorem onTx_sim {pos : Nat × Nat} (h : TxSim t u) (hat : UlAt cfg frames pos u)
    (hframes : ∀ f ∈ frames, FrameOk f) (buffer : List UInt8)
    (hlimit : buffer.length ≤ 32767) :
    TxSim (t.onTx { outPdu := buffer }).1 (ulStep u (.write buffer)).1 ∧
      (t.onTx { outPdu := buffer }).2.pdu = (ulStep u (.write buffer)).2 ∧
      (t.onTx { outPdu := buffer }).2.outAllocated =
        (u.writePdcp buffer).count.getD 0 := by
  have hmin : u.config.minCommitSize = t.config.minCommitSize := by rw [h.config]; rfl
  have havail := h.available
  unfold PdcpTx.onTx ulStep PdcpUl.writePdcp
  rw [h.enabled, hmin]
  simp only [Bool.not_true, Bool.false_eq_true, if_false]
  by_cases hempty : buffer.length = 0
  · have hnil := List.length_eq_zero_iff.mp hempty
    subst hnil
    exact ⟨h.status _, rfl, rfl⟩
  have hbuf : buffer.isEmpty = false := by
    rw [List.isEmpty_eq_false_iff]
    intro hnil
    exact hempty (by rw [hnil]; rfl)
  have hdec : decide (buffer.length = 0) = false := decide_eq_false hempty
  have hzero : decide (0 ≥ buffer.length) = false := decide_eq_false (by omega)
  simp only [hbuf, hdec, hzero, havail, Bool.false_eq_true, if_false, Bool.false_or,
    Bool.or_false, Bool.not_not, decide_eq_true_eq]
  by_cases hcommit : t.config.minCommitSize > buffer.length
  · simp only [if_pos hcommit]
    cases u.outstandingBuffers.isEmpty <;> exact ⟨h.status _, rfl, rfl⟩
  simp only [if_neg hcommit]
  cases hdata : u.outstandingBuffers.isEmpty with
  | true => exact ⟨h.status _, rfl, rfl⟩
  | false =>
      simp only [Bool.false_eq_true, if_false]
      have hsim := txLoop_sim ⟨t, [], buffer, 0, 0⟩ (v := ⟨u, [], buffer, 0, 0⟩)
        ⟨h, rfl, rfl, rfl, rfl⟩ hat hframes hlimit
      obtain ⟨ps, pos', hall⟩ := writeLoop_emits hframes ⟨u, [], buffer, 0, 0⟩ pos hat hlimit
      generalize txLoop ⟨t, [], buffer, 0, 0⟩ = s at hsim
      generalize writeLoop ⟨u, [], buffer, 0, 0⟩ = v at hsim hall
      have htotal := hall.total
      have hcount := hall.count
      have hwritten := hall.written
      have hge := pduOf_length_ge (l := cfg.layout)
        (fun p hp => (hall.emits.mem_bounds hp).2)
      dsimp only at htotal hcount hwritten
      rw [List.nil_append] at hwritten
      rw [List.length_nil, hwritten] at htotal
      have halloc := hsim.allocated
      unfold TxInfo.pdu
      dsimp only
      by_cases hnone : v.segmentsAllocated = 0
      · have hnil : ps = [] := List.length_eq_zero_iff.mp (by omega)
        rw [hnil] at htotal
        have hzero' : s.outAllocated = 0 := by
          rw [halloc]
          simpa [pduOf] using htotal
        rw [if_pos hnone, if_pos hzero']
        exact ⟨hsim.tx.status _, rfl, hzero'⟩
      · have hsome : s.outAllocated ≠ 0 := by
          have : 1 ≤ ps.length := by omega
          have : (cfg.layout.headerSize + 1) * 1 ≤
              (cfg.layout.headerSize + 1) * ps.length := Nat.mul_le_mul_left _ this
          omega
        rw [if_neg hnone, if_neg hsome]
        refine ⟨hsim.tx.status _, ?_, halloc⟩
        dsimp only
        rw [Option.map_some, halloc, hsim.written, hwritten,
          List.take_left' (by omega), List.take_left' (by omega)]

/-- A packet at the end of both queues. -/
theorem TxSim.push (h : TxSim t u) {packet : List UInt8} (hne : packet ≠ []) :
    TxSim { t with toTxQueue := t.toTxQueue ++ [packet] } (u.onFrameData packet).1 := by
  unfold PdcpUl.onFrameData
  rw [List.isEmpty_eq_false_iff.mpr hne]
  exact
    { enabled := h.enabled
      config := h.config
      sn := h.sn
      queue := by
        show u.outstandingBuffers ++ [packet] = _
        rw [h.queue]
        split <;> rfl
      offset := h.offset
      whole := h.whole }

end Step

/-! ## What a run sends -/

/-- The packet that the first piece of a PDU belongs to. -/
def firstOf : List Piece → Nat
  | [] => 0
  | p :: _ => p.frame

/-- The PDU of a list of pieces. -/
def sentPdu (cfg : TxConfig) (packets : List (List UInt8)) (ps : List Piece) : SentPdu :=
  ⟨firstOf ps, pduOf cfg.layout packets ps⟩

/-- What a run has sent, cut into PDUs. -/
structure TxSent (cfg : TxConfig) (r : TxRun) (pss : List (List Piece))
    (pos : Nat × Nat) : Prop where
  state : ∃ u, UlAt cfg.toUl r.packets pos u ∧ TxSim r.tx u
  sent : Sent r.packets pss.flatten pos
  pdus : r.pdus = pss.map (sentPdu cfg r.packets)
  length : ∀ ps ∈ pss, (pduOf cfg.layout r.packets ps).length ≤ 32767
  nonempty : ∀ ps ∈ pss, ps ≠ []
  index : ∀ ps ∈ pss, ∀ p ∈ ps, firstOf ps ≤ p.frame ∧ p.frame < firstOf ps + 65536
  whole : cfg.allowSegmentation = false → ∀ p ∈ pss.flatten, p.offset = 0

namespace TxSent

variable {cfg : TxConfig} {r : TxRun} {pss : List (List Piece)} {pos : Nat × Nat}

theorem init (cfg : TxConfig) :
    TxSent cfg { tx := ({ config := cfg } : PdcpTx).setTxEnabled true } [] (0, 0) where
  state := ⟨{ config := cfg.toUl }, UlAt.init _,
    ⟨rfl, rfl, rfl, rfl, rfl, fun _ => Nat.le_refl _⟩⟩
  sent := ⟨.nil, by simp⟩
  pdus := rfl
  length := by simp
  nonempty := by simp
  index := by simp
  whole := by simp

/-- The frames of the pieces sent so far have been submitted. -/
theorem frame_lt (h : TxSent cfg r pss pos) {ps : List Piece} (hps : ps ∈ pss) {p : Piece}
    (hp : p ∈ ps) : p.frame < r.packets.length :=
  (h.sent.emits.mem_bounds (List.mem_flatten.mpr ⟨ps, hps, hp⟩)).1

/-- A packet is queued or refused; what was sent before stays the same. -/
theorem submit (h : TxSent cfg r pss pos) {packet : List UInt8} (hok : FrameOk packet) :
    TxSent cfg (r.step (.submit packet)) pss pos := by
  unfold TxRun.step PdcpTx.toTx
  dsimp only
  by_cases hfull : r.tx.toTxQueue.length ≥ r.tx.config.maxTxQueueSize
  · rw [if_pos hfull]
    exact ⟨h.state, h.sent, h.pdus, h.length, h.nonempty, h.index, h.whole⟩
  · rw [if_neg hfull]
    obtain ⟨u, hat, hsim⟩ := h.state
    have hpdu : ∀ ps ∈ pss, pduOf cfg.layout (r.packets ++ [packet]) ps =
        pduOf cfg.layout r.packets ps :=
      fun ps hps => pduOf_push [packet] (fun p hp => h.frame_lt hps hp)
    exact
      { state := ⟨_, hat.push hok, hsim.push hok.1⟩
        sent := by
          refine ⟨h.sent.emits.push [packet], ?_⟩
          intro f hf
          rcases List.mem_append.mp hf with hf | hf
          · exact h.sent.ok f hf
          · rw [List.mem_singleton.mp hf]
            exact hok
        pdus := by
          show r.pdus = pss.map (sentPdu cfg (r.packets ++ [packet]))
          rw [h.pdus]
          apply List.map_congr_left
          intro ps hps
          unfold sentPdu
          rw [hpdu ps hps]
        length := by
          intro ps hps
          show (pduOf cfg.layout (r.packets ++ [packet]) ps).length ≤ 32767
          rw [hpdu ps hps]
          exact h.length ps hps
        nonempty := h.nonempty
        index := h.index
        whole := h.whole }

/-- The packets that are still to be sent or being sent. -/
theorem pending_eq (h : TxSent cfg r pss pos) :
    r.packets.length - r.tx.pendingPackets = pos.1 := by
  obtain ⟨u, hat, hsim⟩ := h.state
  have hqueue := hsim.queue
  have hle := hat.le
  rw [hat.queue] at hqueue
  have hlen := congrArg List.length hqueue
  rw [List.length_drop] at hlen
  unfold PdcpTx.pendingPackets
  by_cases hcur : r.tx.currentTxOffset < r.tx.currentTxBuffer.length
  · rw [if_pos hcur, List.length_cons] at hlen
    rw [if_pos hcur]
    omega
  · rw [if_neg hcur] at hlen
    rw [if_neg hcur]
    omega

/-- A grant sends the next pieces. -/
theorem grant (h : TxSent cfg r pss pos) {buffer : List UInt8}
    (hok : buffer.length ≤ 32767) :
    ∃ pss' pos', TxSent cfg (r.step (.grant buffer)) pss' pos' := by
  have hfirst := h.pending_eq
  obtain ⟨u, hat, hsim⟩ := h.state
  obtain ⟨hsim', hpdu, _⟩ := onTx_sim hsim hat h.sent.ok buffer hok
  obtain ⟨ps, pos', hem⟩ := ulStep_emits h.sent.ok hat (Nat.le_refl 32767)
    (show OpOk 32767 (.write buffer) from hok)
  have hframes : r.packets ++ pushedFrames [.write buffer] = r.packets :=
    List.append_nil _
  rw [hframes] at hem
  have hpdu' : (r.tx.onTx { outPdu := buffer }).2.pdu = _ := hpdu.trans hem.pdu
  unfold TxRun.step
  dsimp only
  rw [hpdu', hfirst]
  by_cases hnil : ps = []
  · subst hnil
    have hpos := hem.emits.eq_of_nil rfl
    subst hpos
    refine ⟨pss, pos, ⟨_, hem.state, hsim'⟩, h.sent, ?_, h.length, h.nonempty, h.index,
      h.whole⟩
    rw [if_pos rfl]
    exact (List.append_nil _).trans h.pdus
  · have hhead : firstOf ps = pos.1 := by
      obtain ⟨p, qs, rfl⟩ := List.exists_cons_of_ne_nil hnil
      exact congrArg Prod.fst (hem.emits.head rfl)
    refine ⟨pss ++ [ps], pos', ⟨_, hem.state, hsim'⟩, ⟨?_, h.sent.ok⟩, ?_, ?_, ?_, ?_, ?_⟩
    · rw [List.flatten_append, List.flatten_cons, List.flatten_nil, List.append_nil]
      exact h.sent.emits.append hem.emits
    · rw [if_neg hnil, List.map_append, List.map_singleton, sentPdu, hhead]
      show r.pdus ++ [_] = _
      rw [h.pdus]
      rfl
    · intro qs hqs
      rcases List.mem_append.mp hqs with hqs | hqs
      · exact h.length qs hqs
      · rw [List.mem_singleton.mp hqs]
        exact hem.length
    · intro qs hqs
      rcases List.mem_append.mp hqs with hqs | hqs
      · exact h.nonempty qs hqs
      · rw [List.mem_singleton.mp hqs]
        exact hnil
    · intro qs hqs p hp
      rcases List.mem_append.mp hqs with hqs | hqs
      · exact h.index qs hqs p hp
      · rw [List.mem_singleton.mp hqs] at hp ⊢
        rw [hhead]
        have hlen := pduOf_length_ge (l := cfg.layout)
          (fun p hp => (hem.emits.mem_bounds hp).2)
        have hreach := hem.emits.pos_le_add
        have hframe := hem.emits.mem_frame hp
        have hle : ps.length ≤ (pduOf cfg.layout r.packets ps).length := by
          refine Nat.le_trans ?_ hlen
          exact Nat.le_mul_of_pos_left _ (Nat.succ_pos _)
        have hshort : (pduOf cfg.layout r.packets ps).length ≤ 32767 := hem.length
        omega
    · intro hseg p hp
      rw [List.flatten_append, List.flatten_cons, List.flatten_nil, List.append_nil] at hp
      rcases List.mem_append.mp hp with hp | hp
      · exact h.whole hseg p hp
      · exact (hem.whole hseg p hp).1

end TxSent

/-- The PDUs of a run carry consecutive pieces of the packets that `to_tx`
took. -/
theorem txRun_sent (cfg : TxConfig) (ops : List TxOp)
    (hops : ∀ op ∈ ops, TxOpOk 32767 op) :
    ∃ pss pos, TxSent cfg (txRun cfg ops) pss pos := by
  have hrun : ∀ (r : TxRun), (∃ pss pos, TxSent cfg r pss pos) →
      ∃ pss pos, TxSent cfg (ops.foldl TxRun.step r) pss pos := by
    induction ops with
    | nil => exact fun _ h => h
    | cons op ops ih =>
        rintro r ⟨pss, pos, h⟩
        apply ih (fun o ho => hops o (List.mem_cons_of_mem _ ho))
        have hop := hops op (List.mem_cons_self ..)
        cases op with
        | submit packet => exact ⟨pss, pos, h.submit hop⟩
        | grant buffer => exact h.grant hop
  exact hrun _ ⟨[], (0, 0), TxSent.init cfg⟩

end Winject.LegacyPdcp
