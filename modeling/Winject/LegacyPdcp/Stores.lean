import Winject.LegacyPdcp.Tx

/-!
# The stores of the first PDCP transmitter

`on_tx` builds a view on every segment it is about to write and stores through the
field pointers of that view.  A pointer is null when the layout omits its field.  The
stores of an iteration are listed as they are made, with the pointer each one goes
through, and applied in order they are the iteration.

## Main results

* `stepStores_applied` — the stores of an iteration leave the bytes the iteration
  leaves.
* `txLoop_accounts` — the loop allocates the sizes of the consecutive segments it
  wrote.
* `onTx_exact_iff` — a call touches only fields that exist, inside the grant, iff
  numbers are part of the layout or the loop never stores one.
-/

namespace Winject.LegacyPdcp

open Winject.Frames
open Winject.Lib.Bytes

/-! ## Stores -/

/-- A setter call on a segment. -/
inductive SegStore where
  | sn (value : Nat)
  | payload (data : List UInt8)
  | offset (value : Nat)
  | payloadSize (size : Nat)
  | last (isLast : Bool)
  deriving DecidableEq, Repr

namespace SegStore

/-- The segment behind the call. -/
def apply (segment : PdcpSegment) : SegStore → PdcpSegment
  | .sn value => segment.setSn value
  | .payload data => segment.copyPayload data
  | .offset value => segment.setOffset value
  | .payloadSize size => segment.setPayloadSize size
  | .last isLast => segment.setLast isLast

/-- The pointer that the call stores through; `none` is a null pointer. -/
def pointer (segment : PdcpSegment) : SegStore → Option Nat
  | .sn _ => segment.sn
  | .payload _ => segment.payload
  | .offset _ => segment.offset
  | .payloadSize _ | .last _ => segment.size

/-- The number of bytes stored. -/
def width : SegStore → Nat
  | .payload data => data.length
  | .sn _ | .offset _ | .payloadSize _ | .last _ => 2

/-- The field is part of the layout. -/
def InLayout (l : Layout) : SegStore → Prop
  | .sn _ => l.hasSn = true
  | .offset _ => l.hasOffset = true
  | .payload _ | .payloadSize _ | .last _ => True

def isPayload : SegStore → Bool
  | .payload _ => true
  | .sn _ | .offset _ | .payloadSize _ | .last _ => false

end SegStore

/-- The setter calls of one iteration of `on_tx`, in order. -/
def stepStores (s : TxLoop) : List SegStore :=
  let segment := (view s.tx.config.layout s.rest).rescan
  if segment.getHeaderSize ≥ s.rest.length then [] else
  let availableForData := s.rest.length - segment.getHeaderSize
  .sn s.tx.txSn ::
    if !s.tx.config.allowSegmentation then
      match s.tx.toTxQueue with
      | [] => []
      | pdu :: _ =>
        if pdu.length > availableForData then []
        else [.payload pdu, .payloadSize pdu.length, .last true]
    else
      match s.tx.loadCurrent with
      | none => []
      | some tx =>
        let remainingSize := tx.currentTxBuffer.length - tx.currentTxOffset
        let allocSize := min remainingSize availableForData
        [.payload ((tx.currentTxBuffer.drop tx.currentTxOffset).take allocSize),
          .offset tx.currentTxOffset, .payloadSize allocSize,
          .last (decide (tx.currentTxOffset + allocSize ≥ tx.currentTxBuffer.length))]

/-- A store with the place it goes to in the grant. -/
structure Access where
  store : SegStore
  position : Option Nat
  deriving DecidableEq, Repr

/-- The accesses of one iteration. -/
def stepAccesses (s : TxLoop) : List Access :=
  (stepStores s).map fun store =>
    ⟨store, (store.pointer (view s.tx.config.layout s.rest).rescan).map (s.written.length + ·)⟩

/-- The accesses of the loop of `on_tx`. -/
def loopAccesses (s : TxLoop) : List Access :=
  if _h : (txStep s).2 = true then stepAccesses s ++ loopAccesses (txStep s).1
  else stepAccesses s
termination_by s.tx.pendingWork
decreasing_by exact txStep_pendingWork _h

namespace PdcpTx

/-- The guards of `on_tx` in front of its loop. -/
def loops (t : PdcpTx) (info : TxInfo) : Bool :=
  t.isTxEnabled && !(info.outPdu.length = 0 || !t.txAvailable) &&
    !(t.config.minCommitSize > info.outPdu.length || 0 ≥ info.outPdu.length)

/-- The accesses of a call of `on_tx` to its grant. -/
def accesses (t : PdcpTx) (info : TxInfo) : List Access :=
  if t.loops info then loopAccesses ⟨t, [], info.outPdu, info.outAllocated, 0⟩ else []

end PdcpTx

/-- The places and sizes of `n` consecutive segments of a buffer, by their `SIZE`
fields. -/
def walkSegments (l : Layout) (buffer : List UInt8) (position : Nat) : Nat → List (Nat × Nat)
  | 0 => []
  | n + 1 =>
    let size := (view l (buffer.drop position)).rescan.getSize
    (position, size) :: walkSegments l buffer (position + size) n

/-- A call of `on_tx` touches only fields that exist and bytes of its grant, and
allocates the sizes of the segments it wrote from the base on. -/
structure OnTxExact (t : PdcpTx) (info : TxInfo) : Prop where
  fields : ∀ a ∈ t.accesses info, a.store.InLayout t.config.layout
  inside : ∀ a ∈ t.accesses info, ∃ p, a.position = some p ∧
    p + a.store.width ≤ info.outPdu.length
  length : (t.onTx info).2.outPdu.length = info.outPdu.length
  segments : ((t.accesses info).filter (·.store.isPayload)).map
      (fun a => (a.position, a.store.width)) =
    (walkSegments t.config.layout (t.onTx info).2.outPdu 0
      ((t.accesses info).countP (·.store.isPayload))).map
        (fun w => (some (w.1 + t.config.layout.headerSize), w.2 - t.config.layout.headerSize))
  allocated : (t.onTx info).2.outAllocated = info.outAllocated +
    ((walkSegments t.config.layout (t.onTx info).2.outPdu 0
      ((t.accesses info).countP (·.store.isPayload))).map Prod.snd).sum
  bound : ((walkSegments t.config.layout (t.onTx info).2.outPdu 0
    ((t.accesses info).countP (·.store.isPayload))).map Prod.snd).sum ≤ info.outPdu.length

/-- The call stores a sequence number: it enters its loop with room for more than a
header. -/
def PdcpTx.StoresSn (t : PdcpTx) (info : TxInfo) : Prop :=
  t.isTxEnabled = true ∧ t.txAvailable = true ∧
    t.config.minCommitSize ≤ info.outPdu.length ∧
    t.config.layout.headerSize < info.outPdu.length

/-! ## The stores are the iteration -/

/-- Applied in order, the stores of an iteration leave the bytes it leaves. -/
theorem stepStores_applied (s : TxLoop) :
    (txStep s).1.written ++ (txStep s).1.rest = s.written ++
      ((stepStores s).foldl SegStore.apply (view s.tx.config.layout s.rest).rescan).base := by
  unfold txStep stepStores
  dsimp only
  have hhdr : ((view s.tx.config.layout s.rest).rescan.setSn s.tx.txSn).getHeaderSize =
      (view s.tx.config.layout s.rest).rescan.getHeaderSize := by
    unfold PdcpSegment.setSn PdcpSegment.store
    split <;> rfl
  split_ifs with hroom hseg
  · rw [List.foldl_nil, (rescan_frame _).1]
    rfl
  · unfold txWhole
    rw [hhdr]
    cases s.tx.toTxQueue with
    | nil => rfl
    | cons pdu others =>
        dsimp only
        split_ifs
        · rfl
        · simp only [TxLoop.advance, List.append_assoc, List.take_append_drop]
          rfl
  · unfold txPart
    rw [hhdr]
    cases s.tx.loadCurrent with
    | none => rfl
    | some tx =>
        simp only [TxLoop.advance, List.append_assoc, List.take_append_drop]
        rfl

/-- The stores of a segment: the number, the bytes, the offset if the layout has one,
the size and the flag. -/
def segmentStores (l : Layout) (g : Seg) : List SegStore :=
  [.sn g.sn, .payload g.payload] ++ (if l.hasOffset then [.offset g.offset] else []) ++
    [.payloadSize g.payload.length, .last g.last]

/-- What one iteration stores and allocates. -/
inductive StoreCases (s : TxLoop) : Prop
  | full (hroom : s.rest.length ≤ s.tx.config.layout.headerSize)
      (hstep : txStep s = (s, false)) (hstores : stepStores s = [])
  | idle (hroom : s.tx.config.layout.headerSize < s.rest.length) (rest : List UInt8)
      (hrest : rest.length = s.rest.length)
      (hstep : txStep s = ({ s with rest := rest }, false))
      (hstores : stepStores s = [.sn s.tx.txSn])
  | segment (hroom : s.tx.config.layout.headerSize < s.rest.length) (tx : PdcpTx) (g : Seg)
      (hcfg : tx.config = s.tx.config)
      (hfit : g.wireSize s.tx.config.layout ≤ s.rest.length)
      (hstep : txStep s =
        (s.advance tx (storeSegmentSnFirst (scanned s.tx.config.layout s.rest) g), true))
      (hstores : stepStores s = segmentStores s.tx.config.layout g)

theorem PdcpTx.loadCurrent_config {t t' : PdcpTx} (h : t.loadCurrent = some t') :
    t'.config = t.config := by
  rcases PdcpTx.loadCurrent_cases h with ⟨_, rfl⟩ | ⟨_, _, _, _, rfl⟩
  · rfl
  · rfl

theorem stepStores_cases (s : TxLoop) : StoreCases s := by
  have hhdr : (view s.tx.config.layout s.rest).rescan.getHeaderSize =
      s.tx.config.layout.headerSize := by
    rw [(rescan_frame _).2, view_getHeaderSize]
  have hcases := txStep_cases s
  generalize hr : txStep s = r at hcases
  cases hcases with
  | full hroom =>
      refine .full hroom hr ?_
      unfold stepStores
      dsimp only
      rw [if_pos (by rw [hhdr]; exact hroom)]
  | idle hroom hwhole hpart rest hrest =>
      refine .idle hroom rest hrest hr ?_
      unfold stepStores
      dsimp only
      rw [hhdr, if_neg (by omega)]
      cases hseg : s.tx.config.allowSegmentation with
      | true =>
          rw [hpart hseg]
          rfl
      | false =>
          have hall := hwhole hseg
          cases hq : s.tx.toTxQueue with
          | nil => rfl
          | cons pdu others =>
              have hlt := hall pdu (by rw [hq]; rfl)
              dsimp only
              rw [if_pos (show pdu.length > _ from hlt)]
              rfl
  | whole hroom hseg pdu others hq hfit =>
      refine .segment hroom { s.tx with toTxQueue := others, txSn := (s.tx.txSn + 1) % 65536 }
        ⟨s.tx.txSn, 0, true, pdu⟩ rfl hfit hr ?_
      have hoff : s.tx.config.layout.hasOffset = false := hseg
      unfold stepStores segmentStores
      dsimp only
      rw [hhdr, if_neg (by omega), hseg, hq, hoff]
      simp only [Bool.not_false, if_true, Bool.false_eq_true, if_false]
      rw [if_neg (by omega)]
      rfl
  | part hroom hseg tx hload n hn hlen =>
      have hcfg : tx.config = s.tx.config := PdcpTx.loadCurrent_config hload
      refine .segment hroom (tx.cut n) _ hcfg ?_ hr ?_
      · rw [Seg.wireSize, hlen]
        omega
      · have hoff : s.tx.config.layout.hasOffset = true := hseg
        unfold stepStores segmentStores
        dsimp only
        rw [hhdr, if_neg (by omega), hseg, hload, hoff]
        simp only [Bool.not_true, Bool.false_eq_true, if_true, if_false]
        rw [← hn, hlen]
        rfl

/-! ## One iteration -/

/-- The view of an iteration that has room for more than a header. -/
theorem view_of_room {s : TxLoop} (h : s.tx.config.layout.headerSize < s.rest.length) :
    (view s.tx.config.layout s.rest).rescan = scanned s.tx.config.layout s.rest :=
  rescan_view _ _ (Nat.le_of_lt h)

/-- A store to a field of the layout goes through a pointer to the header, or copies
the bytes behind it. -/
theorem SegStore.pointer_scanned {l : Layout} {store : SegStore} (h : store.InLayout l)
    (bytes : List UInt8) :
    ∃ p, store.pointer (scanned l bytes) = some p ∧ (p + store.width ≤ l.headerSize ∨
      ∃ data, store = .payload data ∧ p + store.width = l.headerSize + data.length) := by
  obtain ⟨hasSn, hasOffset⟩ := l
  cases store with
  | sn value =>
      obtain rfl : hasSn = true := h
      exact ⟨2, rfl, Or.inl (by simp [SegStore.width, Layout.headerSize])⟩
  | offset value =>
      obtain rfl : hasOffset = true := h
      exact ⟨_, rfl, Or.inl (by simp [SegStore.width, Layout.headerSize])⟩
  | payload data => exact ⟨_, rfl, Or.inr ⟨data, rfl, rfl⟩⟩
  | payloadSize size => exact ⟨0, rfl, Or.inl (headerSize_ge _)⟩
  | last isLast => exact ⟨0, rfl, Or.inl (headerSize_ge _)⟩

/-- With numbers in the layout, an iteration stores to its fields only. -/
theorem stepStores_inLayout {s : TxLoop} (hsn : s.tx.config.layout.hasSn = true) :
    ∀ store ∈ stepStores s, store.InLayout s.tx.config.layout ∧
      ∀ data, store = .payload data →
        s.tx.config.layout.headerSize + data.length ≤ s.rest.length := by
  intro store hstore
  cases stepStores_cases s with
  | full _ _ hstores =>
      rw [hstores] at hstore
      cases hstore
  | idle _ _ _ _ hstores =>
      rw [hstores, List.mem_singleton] at hstore
      subst hstore
      exact ⟨hsn, fun _ h => by cases h⟩
  | segment _ _ g _ hfit _ hstores =>
      rw [hstores] at hstore
      simp only [segmentStores, List.mem_append, List.mem_cons, List.not_mem_nil, or_false]
        at hstore
      rcases hstore with ((rfl | rfl) | hoff) | rfl | rfl
      · exact ⟨hsn, fun _ h => by cases h⟩
      · refine ⟨trivial, fun data h => ?_⟩
        obtain rfl := SegStore.payload.inj h
        exact hfit
      · split at hoff
        · rename_i hlayout
          rw [List.mem_singleton] at hoff
          subst hoff
          exact ⟨hlayout, fun _ h => by cases h⟩
        · cases hoff
      · exact ⟨trivial, fun _ h => by cases h⟩
      · exact ⟨trivial, fun _ h => by cases h⟩

/-- The access is to a field of the layout, inside `n` bytes. -/
def Access.Inside (l : Layout) (n : Nat) (a : Access) : Prop :=
  a.store.InLayout l ∧ ∃ p, a.position = some p ∧ p + a.store.width ≤ n

theorem stepAccesses_inside {s : TxLoop} (hsn : s.tx.config.layout.hasSn = true) :
    ∀ a ∈ stepAccesses s,
      a.Inside s.tx.config.layout (s.written.length + s.rest.length) := by
  intro a ha
  obtain ⟨store, hstore, rfl⟩ := List.mem_map.mp ha
  have hroom : s.tx.config.layout.headerSize < s.rest.length := by
    cases stepStores_cases s with
    | full _ _ hstores =>
        rw [hstores] at hstore
        cases hstore
    | idle hroom => exact hroom
    | segment hroom => exact hroom
  obtain ⟨hin, hdata⟩ := stepStores_inLayout hsn store hstore
  obtain ⟨p, hp, hle⟩ := SegStore.pointer_scanned hin s.rest
  refine ⟨hin, s.written.length + p, ?_, ?_⟩
  · show Option.map _ (store.pointer _) = _
    rw [view_of_room hroom, hp]
    rfl
  · show s.written.length + p + store.width ≤ s.written.length + s.rest.length
    rcases hle with hle | ⟨data, rfl, heq⟩
    · omega
    · have hfit := hdata data rfl
      omega

/-- A segment that is stored goes behind what was written. -/
theorem TxLoop.advance_encode (s : TxLoop) (tx : PdcpTx) (g : Seg)
    (hlt : g.wireSize s.tx.config.layout < 32768)
    (hfit : g.wireSize s.tx.config.layout ≤ s.rest.length) :
    s.advance tx (storeSegmentSnFirst (scanned s.tx.config.layout s.rest) g) =
      { tx := tx
        written := s.written ++ encode s.tx.config.layout g
        rest := s.rest.drop (g.wireSize s.tx.config.layout)
        outAllocated := s.outAllocated + g.wireSize s.tx.config.layout
        allocatedSegments := s.allocatedSegments + 1 } := by
  have hlen := encode_length s.tx.config.layout g
  rw [storeSnFirst_encode _ _ _ hlt hfit]
  unfold TxLoop.advance
  rw [getSize_encode_of_lt _ _ _ hlt]
  show TxLoop.mk _ (s.written ++ (encode _ g ++ s.rest.drop _).take _)
    ((encode _ g ++ s.rest.drop _).drop _) _ _ = _
  rw [List.take_left' hlen, List.drop_left' hlen]

/-! ## The whole loop -/

/-- The payload copies of consecutive segments from a position on. -/
def copiesOf (l : Layout) (position : Nat) : List Seg → List Access
  | [] => []
  | g :: gs =>
    ⟨.payload g.payload, some (position + l.headerSize)⟩ ::
      copiesOf l (position + g.wireSize l) gs

/-- The loop wrote the segments `gs`. -/
structure LoopAccounts (s s' : TxLoop) (gs : List Seg) : Prop where
  written : s'.written = s.written ++ encodeAll s.tx.config.layout gs
  length : s'.written.length + s'.rest.length = s.written.length + s.rest.length
  allocated : s'.outAllocated = s.outAllocated + (encodeAll s.tx.config.layout gs).length
  sizes : ∀ g ∈ gs, g.wireSize s.tx.config.layout < 32768
  copies : (loopAccesses s).filter (·.store.isPayload) =
    copiesOf s.tx.config.layout s.written.length gs

/-- The payload copy of an iteration that stores a segment. -/
theorem stepAccesses_copy {s : TxLoop} {g : Seg}
    (hroom : s.tx.config.layout.headerSize < s.rest.length)
    (hstores : stepStores s = segmentStores s.tx.config.layout g) :
    (stepAccesses s).filter (·.store.isPayload) =
      [⟨.payload g.payload, some (s.written.length + s.tx.config.layout.headerSize)⟩] := by
  unfold stepAccesses segmentStores at *
  rw [hstores, view_of_room hroom]
  cases s.tx.config.layout.hasOffset <;> rfl

theorem txLoop_accounts (s : TxLoop) (hlimit : s.rest.length ≤ 32767) :
    ∃ gs, LoopAccounts s (txLoop s) gs := by
  induction s using txLoop.induct with
  | case1 s hmore ih =>
      cases stepStores_cases s with
      | full _ hstep _ =>
          rw [hstep] at hmore
          cases hmore
      | idle _ _ _ hstep _ =>
          rw [hstep] at hmore
          cases hmore
      | segment hroom tx g hcfg hfit hstep hstores =>
          have hlt : g.wireSize s.tx.config.layout < 32768 := by omega
          have hlen := encode_length s.tx.config.layout g
          rw [txLoop, dif_pos hmore]
          have hcopy := stepAccesses_copy hroom hstores
          have hnext : (txStep s).1 = _ :=
            (congrArg Prod.fst hstep).trans (s.advance_encode tx g hlt hfit)
          have hloop : loopAccesses s = stepAccesses s ++ loopAccesses (txStep s).1 := by
            rw [loopAccesses, dif_pos hmore]
          rw [hnext] at ih hloop ⊢
          obtain ⟨gs, hgs⟩ := ih (by rw [List.length_drop]; omega)
          have hwritten := hgs.written
          have hlength := hgs.length
          have hallocated := hgs.allocated
          have hsizes := hgs.sizes
          have hcopies := hgs.copies
          dsimp only at hwritten hlength hallocated hsizes hcopies
          rw [hcfg] at hwritten hallocated hsizes hcopies
          rw [List.length_append, List.length_drop, hlen] at hlength
          refine ⟨g :: gs, ?_, by omega, ?_, ?_, ?_⟩
          · rw [hwritten, encodeAll_cons, List.append_assoc]
          · rw [hallocated, encodeAll_cons, List.length_append, hlen]
            omega
          · intro x hx
            rcases List.mem_cons.mp hx with rfl | hx
            · exact hlt
            · exact hsizes x hx
          · rw [hloop, List.filter_append, hcopy, hcopies, List.length_append, hlen]
            rfl
  | case2 s hstop =>
      have hloop : loopAccesses s = stepAccesses s := by
        rw [loopAccesses, dif_neg hstop]
      rw [txLoop, dif_neg hstop]
      cases stepStores_cases s with
      | full _ hstep hstores =>
          rw [hstep]
          refine ⟨[], by simp, rfl, by simp, by simp, ?_⟩
          rw [hloop, stepAccesses, hstores]
          rfl
      | idle _ rest hrest hstep hstores =>
          rw [hstep]
          refine ⟨[], by simp, congrArg _ hrest, by simp, by simp, ?_⟩
          rw [hloop, stepAccesses, hstores]
          rfl
      | segment _ _ _ _ _ hstep _ => exact absurd (congrArg Prod.snd hstep) hstop

theorem loopAccesses_inside (s : TxLoop) (hlimit : s.rest.length ≤ 32767)
    (hsn : s.tx.config.layout.hasSn = true) :
    ∀ a ∈ loopAccesses s,
      a.Inside s.tx.config.layout (s.written.length + s.rest.length) := by
  induction s using txLoop.induct with
  | case1 s hmore ih =>
      have hloop : loopAccesses s = stepAccesses s ++ loopAccesses (txStep s).1 := by
        rw [loopAccesses, dif_pos hmore]
      rw [hloop]
      cases stepStores_cases s with
      | full _ hstep _ =>
          rw [hstep] at hmore
          cases hmore
      | idle _ _ _ hstep _ =>
          rw [hstep] at hmore
          cases hmore
      | segment hroom tx g hcfg hfit hstep hstores =>
          have hnext : (txStep s).1 = _ :=
            (congrArg Prod.fst hstep).trans (s.advance_encode tx g (by omega) hfit)
          rw [hnext] at ih ⊢
          dsimp only at ih
          rw [hcfg, List.length_append, List.length_drop, encode_length] at ih
          intro a ha
          rcases List.mem_append.mp ha with ha | ha
          · exact stepAccesses_inside hsn a ha
          · have hin := ih (by omega) hsn a ha
            rwa [show s.written.length + g.wireSize s.tx.config.layout +
              (s.rest.length - g.wireSize s.tx.config.layout) =
                s.written.length + s.rest.length by omega] at hin
  | case2 s hstop =>
      have hloop : loopAccesses s = stepAccesses s := by
        rw [loopAccesses, dif_neg hstop]
      rw [hloop]
      exact stepAccesses_inside hsn

/-! ## A whole call -/

/-- Walking the sizes finds the segments that were encoded. -/
theorem walkSegments_encodeAll (l : Layout) (gs : List Seg)
    (hsizes : ∀ g ∈ gs, g.wireSize l < 32768) (pre tail : List UInt8) :
    (walkSegments l (pre ++ (encodeAll l gs ++ tail)) pre.length gs.length).map
        (fun w => (some (w.1 + l.headerSize), w.2 - l.headerSize)) =
      (copiesOf l pre.length gs).map (fun a => (a.position, a.store.width)) ∧
    ((walkSegments l (pre ++ (encodeAll l gs ++ tail)) pre.length gs.length).map
        Prod.snd).sum = (encodeAll l gs).length := by
  induction gs generalizing pre with
  | nil => exact ⟨rfl, rfl⟩
  | cons g gs ih =>
      have hlt := hsizes g (List.mem_cons_self ..)
      have hlen := encode_length l g
      have hfits : l.headerSize ≤ (encode l g ++ (encodeAll l gs ++ tail)).length := by
        rw [List.length_append, hlen, Seg.wireSize]
        omega
      have hsize : (view l ((pre ++ (encode l g ++ (encodeAll l gs ++ tail))).drop
          pre.length)).rescan.getSize = g.wireSize l := by
        rw [List.drop_left, rescan_view _ _ hfits]
        exact getSize_encode_of_lt l g _ hlt
      obtain ⟨hplaces, hsum⟩ := ih (fun x hx => hsizes x (List.mem_cons_of_mem _ hx))
        (pre ++ encode l g)
      rw [List.length_append, hlen, List.append_assoc] at hplaces hsum
      rw [encodeAll_cons, List.append_assoc, List.length_cons]
      simp only [walkSegments, copiesOf, List.map_cons, List.sum_cons]
      rw [hsize, hplaces, hsum, List.length_append, hlen]
      refine ⟨?_, rfl⟩
      rw [Seg.wireSize, Nat.add_sub_cancel_left]
      rfl

theorem PdcpTx.onTx_of_loops {t : PdcpTx} {info : TxInfo} (h : t.loops info = true) :
    (t.onTx info).2.outPdu = (txLoop ⟨t, [], info.outPdu, info.outAllocated, 0⟩).written ++
        (txLoop ⟨t, [], info.outPdu, info.outAllocated, 0⟩).rest ∧
      (t.onTx info).2.outAllocated =
        (txLoop ⟨t, [], info.outPdu, info.outAllocated, 0⟩).outAllocated := by
  unfold PdcpTx.loops at h
  simp only [Bool.and_eq_true, Bool.not_eq_true'] at h
  obtain ⟨⟨hen, havail⟩, hroom⟩ := h
  unfold PdcpTx.onTx
  dsimp only
  rw [hen, havail, hroom]
  exact ⟨rfl, rfl⟩

theorem PdcpTx.onTx_of_not_loops {t : PdcpTx} {info : TxInfo} (h : t.loops info = false) :
    (t.onTx info).2.outPdu = info.outPdu ∧
      (t.onTx info).2.outAllocated = info.outAllocated := by
  unfold PdcpTx.onTx
  dsimp only
  split_ifs with hen havail hroom
  · exact ⟨rfl, rfl⟩
  · exact ⟨rfl, rfl⟩
  · exact ⟨rfl, rfl⟩
  · have hloops : t.loops info = true := by
      unfold PdcpTx.loops
      simp_all
    rw [hloops] at h
    cases h

/-- The segments of a call. -/
theorem PdcpTx.onTx_accounts (t : PdcpTx) (info : TxInfo)
    (hlimit : info.outPdu.length ≤ 32767) :
    ∃ gs rest, (t.onTx info).2.outPdu = encodeAll t.config.layout gs ++ rest ∧
      (t.onTx info).2.outPdu.length = info.outPdu.length ∧
      (t.onTx info).2.outAllocated =
        info.outAllocated + (encodeAll t.config.layout gs).length ∧
      (∀ g ∈ gs, g.wireSize t.config.layout < 32768) ∧
      (t.accesses info).filter (·.store.isPayload) = copiesOf t.config.layout 0 gs := by
  cases hloops : t.loops info with
  | false =>
      obtain ⟨hpdu, halloc⟩ := PdcpTx.onTx_of_not_loops hloops
      refine ⟨[], info.outPdu, ?_, ?_, ?_, by simp, ?_⟩
      · rw [hpdu]
        rfl
      · rw [hpdu]
      · rw [halloc]
        rfl
      · rw [PdcpTx.accesses, hloops]
        rfl
  | true =>
      obtain ⟨hpdu, halloc⟩ := PdcpTx.onTx_of_loops hloops
      obtain ⟨gs, hgs⟩ := txLoop_accounts ⟨t, [], info.outPdu, info.outAllocated, 0⟩ hlimit
      have hwritten := hgs.written
      have hlength := hgs.length
      have hcopies := hgs.copies
      simp only [List.nil_append, List.length_nil, Nat.zero_add] at hwritten hlength hcopies
      refine ⟨gs, (txLoop ⟨t, [], info.outPdu, info.outAllocated, 0⟩).rest, ?_, ?_, ?_,
        hgs.sizes, ?_⟩
      · rw [hpdu, hwritten]
      · rw [hpdu, List.length_append]
        exact hlength
      · rw [halloc]
        exact hgs.allocated
      · rw [PdcpTx.accesses, hloops, if_pos rfl]
        exact hcopies

theorem copiesOf_length (l : Layout) (position : Nat) (gs : List Seg) :
    (copiesOf l position gs).length = gs.length := by
  induction gs generalizing position with
  | nil => rfl
  | cons g gs ih => rw [copiesOf, List.length_cons, List.length_cons, ih]

/-- A call whose accesses are all to fields of the layout, inside the grant, is exact. -/
theorem PdcpTx.exact_of_inside {t : PdcpTx} {info : TxInfo}
    (hlimit : info.outPdu.length ≤ 32767)
    (h : ∀ a ∈ t.accesses info, a.Inside t.config.layout info.outPdu.length) :
    OnTxExact t info := by
  obtain ⟨gs, rest, hpdu, hlength, halloc, hsizes, hcopies⟩ := t.onTx_accounts info hlimit
  have hcount : (t.accesses info).countP (·.store.isPayload) = gs.length := by
    rw [List.countP_eq_length_filter, hcopies, copiesOf_length]
  obtain ⟨hplaces, hsum⟩ := walkSegments_encodeAll t.config.layout gs hsizes [] rest
  simp only [List.nil_append, List.length_nil] at hplaces hsum
  refine ⟨fun a ha => (h a ha).1, fun a ha => (h a ha).2, hlength, ?_, ?_, ?_⟩
  · rw [hcopies, hcount, hpdu, hplaces]
  · rw [hcount, hpdu, hsum, halloc]
  · rw [hcount, hpdu, hsum]
    have hle := congrArg List.length hpdu
    rw [List.length_append] at hle
    omega

theorem PdcpTx.storesSn_iff (t : PdcpTx) (info : TxInfo) :
    t.StoresSn info ↔ t.loops info = true ∧
      t.config.layout.headerSize < info.outPdu.length := by
  unfold PdcpTx.StoresSn PdcpTx.loops
  simp only [Bool.and_eq_true, Bool.not_eq_true', Bool.or_eq_false_iff, decide_eq_false_iff_not]
  have hge := headerSize_ge t.config.layout
  constructor
  · rintro ⟨hen, havail, hcommit, hroom⟩
    exact ⟨⟨⟨hen, by omega, by rw [havail]; rfl⟩, by omega, by omega⟩, hroom⟩
  · rintro ⟨⟨⟨hen, _, havail⟩, hcommit, _⟩, hroom⟩
    refine ⟨hen, ?_, by omega, hroom⟩
    cases hval : t.txAvailable with
    | true => rfl
    | false => rw [hval] at havail; cases havail

/-- The first access of a call that stores a number. -/
theorem PdcpTx.StoresSn.exists_access {t : PdcpTx} {info : TxInfo} (h : t.StoresSn info) :
    (⟨.sn t.txSn, if t.config.allowReordering then some 2 else none⟩ : Access) ∈
      t.accesses info := by
  obtain ⟨hloops, hroom⟩ := (t.storesSn_iff info).mp h
  generalize hs : (⟨t, [], info.outPdu, info.outAllocated, 0⟩ : TxLoop) = s
  have hview : (view s.tx.config.layout s.rest).rescan = scanned s.tx.config.layout s.rest :=
    view_of_room (by rw [← hs]; exact hroom)
  have hstore : SegStore.sn t.txSn ∈ stepStores s := by
    unfold stepStores
    dsimp only
    rw [(rescan_frame _).2, view_getHeaderSize, if_neg (by rw [← hs]; exact Nat.not_le.mpr hroom),
      ← hs]
    exact List.mem_cons_self ..
  have hstep : (⟨.sn t.txSn, if t.config.allowReordering then some 2 else none⟩ : Access) ∈
      stepAccesses s := by
    refine List.mem_map.mpr ⟨_, hstore, ?_⟩
    rw [hview, ← hs]
    show Access.mk _ (Option.map _ (if t.config.allowReordering = true then some 2 else none)) = _
    split_ifs <;> rfl
  rw [PdcpTx.accesses, if_pos hloops, hs, loopAccesses]
  split
  · exact List.mem_append_left _ hstep
  · exact hstep

private theorem exact_iff (t : PdcpTx) (info : TxInfo) (hlimit : info.outPdu.length ≤ 32767) :
    OnTxExact t info ↔ t.config.allowReordering = true ∨ ¬ t.StoresSn info := by
  constructor
  · -- the first store of the loop is the number
    intro h
    by_contra hbad
    rw [not_or, not_not] at hbad
    exact hbad.1 (h.fields _ hbad.2.exists_access)
  · intro h
    apply PdcpTx.exact_of_inside hlimit
    unfold PdcpTx.accesses
    split
    · rename_i hloops
      rcases h with hreord | hnot
      · have hin := loopAccesses_inside ⟨t, [], info.outPdu, info.outAllocated, 0⟩ hlimit hreord
        simpa using hin
      · -- no room for more than a header
        have hle : info.outPdu.length ≤ t.config.layout.headerSize := by
          by_contra hroom
          exact hnot ((t.storesSn_iff info).mpr ⟨hloops, Nat.not_le.mp hroom⟩)
        have hnone : loopAccesses ⟨t, [], info.outPdu, info.outAllocated, 0⟩ = [] := by
          have hstores : stepAccesses ⟨t, [], info.outPdu, info.outAllocated, 0⟩ = [] := by
            unfold stepAccesses stepStores
            dsimp only
            rw [(rescan_frame _).2, view_getHeaderSize, if_pos hle]
            rfl
          have hstop : ¬ (txStep ⟨t, [], info.outPdu, info.outAllocated, 0⟩).2 = true := by
            have hcases := txStep_cases ⟨t, [], info.outPdu, info.outAllocated, 0⟩
            generalize txStep ⟨t, [], info.outPdu, info.outAllocated, 0⟩ = r at hcases
            cases hcases with
            | full => exact Bool.false_ne_true
            | idle => exact Bool.false_ne_true
            | whole hroom => exact absurd hroom (Nat.not_lt.mpr hle)
            | part hroom => exact absurd hroom (Nat.not_lt.mpr hle)
          rw [loopAccesses, dif_neg hstop, hstores]
        rw [hnone]
        intro a ha
        cases ha
    · intro a ha
      cases ha

/-! ## Faults -/

/-- The access goes through a null pointer, or behind the `n` bytes of the grant. -/
def Access.faults (n : Nat) (a : Access) : Bool :=
  a.position.all (fun p => decide (n < p + a.store.width))

/-- The call of `on_tx` has such an access.  What it leaves behind means nothing then. -/
def PdcpTx.faults (t : PdcpTx) (info : TxInfo) : Bool :=
  (t.accesses info).any (Access.faults info.outPdu.length)

/-- A call is a fault iff it stores a number and numbers are no part of the layout. -/
theorem PdcpTx.faults_iff (t : PdcpTx) (info : TxInfo) (hlimit : info.outPdu.length ≤ 32767) :
    t.faults info = true ↔ t.config.allowReordering = false ∧ t.StoresSn info := by
  unfold PdcpTx.faults
  rw [List.any_eq_true]
  constructor
  · rintro ⟨a, ha, hfault⟩
    by_contra hbad
    have hexact : OnTxExact t info := by
      rw [exact_iff t info hlimit]
      by_cases hreord : t.config.allowReordering = true
      · exact Or.inl hreord
      · exact Or.inr fun hstores => hbad ⟨by rwa [Bool.not_eq_true] at hreord, hstores⟩
    obtain ⟨p, hp, hle⟩ := hexact.inside a ha
    unfold Access.faults at hfault
    rw [hp, Option.all_some, decide_eq_true_iff] at hfault
    omega
  · rintro ⟨hreord, hstores⟩
    refine ⟨_, hstores.exists_access, ?_⟩
    rw [hreord]
    rfl

/-! ## A grant that is filled -/

/-- The front of a packet that is long enough fills a grant. -/
theorem PdcpTx.onTx_fills {t : PdcpTx} {info : TxInfo} (hstores : t.StoresSn info)
    (hseg : t.config.allowSegmentation = true)
    (hcurrent : t.currentTxBuffer.length ≤ t.currentTxOffset) {packet : List UInt8}
    {others : List (List UInt8)} (hq : t.toTxQueue = packet :: others)
    (hlong : info.outPdu.length ≤ packet.length) (hlimit : info.outPdu.length ≤ 32767) :
    (t.onTx info).2.outAllocated = info.outAllocated + info.outPdu.length := by
  obtain ⟨hloops, hroom⟩ := (t.storesSn_iff info).mp hstores
  rw [(PdcpTx.onTx_of_loops hloops).2]
  generalize hs : (⟨t, [], info.outPdu, info.outAllocated, 0⟩ : TxLoop) = s
  have hload : s.tx.loadCurrent = some { t with
      currentTxBuffer := packet, currentTxOffset := 0, toTxQueue := others } := by
    rw [← hs]
    unfold PdcpTx.loadCurrent
    dsimp only
    rw [if_pos hcurrent, hq]
  have hrest : s.rest.length = info.outPdu.length := by rw [← hs]
  have hlayout : s.tx.config.layout = t.config.layout := by rw [← hs]
  have hsegm : s.tx.config.allowSegmentation = true := by rw [← hs]; exact hseg
  have hcases := txStep_cases s
  generalize hr : txStep s = r at hcases
  cases hcases with
  | full hfull =>
      rw [hlayout] at hfull
      omega
  | idle _ _ hpart =>
      rw [hpart hsegm] at hload
      cases hload
  | whole _ hwhole =>
      rw [hsegm] at hwhole
      cases hwhole
  | part _ _ tx htx n hn hlen =>
      rw [hload] at htx
      cases htx
      dsimp only at hn hlen
      have hsize : n = info.outPdu.length - t.config.layout.headerSize := by
        rw [hlayout] at hn
        omega
      -- the segment takes the whole grant, and the next iteration finds no room
      generalize hg : (⟨s.tx.txSn, 0, decide (0 + n ≥ packet.length),
        (packet.drop 0).take n⟩ : Seg) = g at hr
      have hwire : g.wireSize s.tx.config.layout = info.outPdu.length := by
        rw [← hg, Seg.wireSize, hlen, hlayout]
        omega
      rw [s.advance_encode _ g (by omega) (by omega)] at hr
      rw [txLoop, dif_pos (by rw [hr]), hr]
      generalize hs' : (⟨_, _, _, _, _⟩ : TxLoop) = s'
      have hempty : s'.rest.length = 0 := by
        rw [← hs', List.length_drop]
        omega
      have hstop : txStep s' = (s', false) := by
        have hcases := txStep_cases s'
        generalize txStep s' = r' at hcases
        cases hcases with
        | full => rfl
        | idle hroom' => omega
        | whole hroom' => omega
        | part hroom' => omega
      rw [txLoop, dif_neg (by rw [hstop]; exact Bool.false_ne_true), hstop, ← hs']
      show s.outAllocated + g.wireSize s.tx.config.layout = _
      rw [hwire, ← hs]

/-- For every transmitter and every grant of at most 32767 bytes: `on_tx` touches only
fields of its layout and bytes of the grant, and allocates exactly the segments it wrote,
iff numbers are part of the layout or it stores none. -/
theorem onTx_exact_iff (t : PdcpTx) (info : TxInfo) (hlimit : info.outPdu.length ≤ 32767) :
    OnTxExact t info ↔ t.config.allowReordering = true ∨ ¬ t.StoresSn info :=
  exact_iff t info hlimit

/-- A packet with a number. -/
theorem numbered_packet_exact :
    OnTxExact ((({ config := { allowReordering := true, minCommitSize := 0 } } :
      PdcpTx).setTxEnabled true).toTx [1]).1 { outPdu := List.replicate 8 0 } :=
  (onTx_exact_iff _ _ (by decide)).mpr (Or.inl rfl)

/-- Without numbers in the layout, the first packet goes out behind a store through the
null pointer. -/
theorem unnumbered_packet_not_exact :
    ¬ OnTxExact ((({ config := { minCommitSize := 0 } } :
      PdcpTx).setTxEnabled true).toTx [1]).1 { outPdu := List.replicate 8 0 } := by
  rw [exact_iff _ _ (by decide)]
  rintro (hreord | hnot)
  · cases hreord
  · exact hnot ⟨rfl, rfl, by decide, by decide⟩

end Winject.LegacyPdcp
