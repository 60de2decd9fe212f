import Winject.LegacyPdcp.InWindow

/-!
# Fast-forward of the first PDCP

A segment further ahead than `max_sn_distance` makes `update_rx_sn` skip
incomplete packets.  `rxRunTrace` lists the segments of a run with the states in
front of them, and `RxEvent.updateCall` the call of `update_rx_sn` that one of
them leads to.

As long as segments are neither later than the window of ignored numbers nor
further ahead than the ring (`InReach`), and a fast-forward meets an incomplete
packet where it may stop (`CanStop`), numbers are delivered in order and `rx_sn`
passes the number of the call only by delivering.

## Main results

* `Ordered.updateLoop_advances` — one call of `update_rx_sn`.
* `RxEvent.keeps` — one segment.
* `rxRun_keeps` — a run.
-/

namespace Winject.LegacyPdcp

open Winject.Frames
open Winject.Lib.Reassembly
open Winject.Lib.Segmentation
open Winject.Pdcp

/-! ## Traces -/

/-- A segment that reaches the body of the loop of `on_rx`, and the state in
front of it. -/
structure RxEvent where
  state : PdcpRx
  sn : Nat
  offset : Nat
  last : Bool
  payload : List (Option UInt8)

namespace RxEvent

/-- The state after the segment, and whether the loop goes on. -/
def result (x : RxEvent) : PdcpRx × Bool :=
  x.state.rxSegment x.sn x.offset x.last x.payload

/-- The state in which the segment makes `on_rx` call `update_rx_sn`, and the
argument `fast_forward`. -/
def updateCall (x : RxEvent) : Option (PdcpRx × Bool) :=
  let d := x.state.sync x.sn
  let el := d.rxBufferRing (PdcpRx.rxBufferRingIndex x.sn)
  let stored := el.store x.sn x.offset x.last x.payload
  if d.isBefore x.sn then none
  else if d.isOutOfRange x.sn && d.config.allowRlf then none
  else if el.isComplete then none
  else if stored.isComplete then
    some ({ d with
      rxBufferRing := Function.update d.rxBufferRing (PdcpRx.rxBufferRingIndex x.sn)
        stored }, d.isOutOfRange x.sn)
  else none

/-- The call is the last thing the loop body does. -/
theorem result_of_updateCall {x : RxEvent} {e : PdcpRx} {ff : Bool}
    (h : x.updateCall = some (e, ff)) : x.result.1 = e.updateRxSn x.sn ff := by
  unfold updateCall at h
  unfold result PdcpRx.rxSegment PdcpRx.storeSegment
  dsimp only at h ⊢
  split_ifs at h with hbefore hrlf hc hc'
  cases h
  rw [if_neg hbefore, if_neg hrlf, if_neg hc, if_pos hc']

end RxEvent

namespace PdcpRx

/-- The event of the content of a segment. -/
def eventOf (d : PdcpRx) (g : Seg) : RxEvent where
  state := d
  sn := if d.config.allowReordering then g.sn else 0
  offset := if d.config.allowSegmentation then g.offset else 0
  last := g.last
  payload := g.payload.map some

/-- The segments that the loop of `on_rx` gets to. -/
def rxLoopTrace (d : PdcpRx) (bytes : List UInt8) : List RxEvent :=
  if bytes.isEmpty then [] else
  let segment := (view d.config.layout bytes).rescan
  if segment.getHeaderSize ≥ bytes.length || segment.getSize > bytes.length then [] else
  let x : RxEvent :=
    { state := d
      sn := if d.config.allowReordering then segment.getSn else 0
      offset := if d.config.allowSegmentation then segment.getOffset else 0
      last := segment.isLast
      payload := readPayload bytes segment.getHeaderSize segment.getPayloadSize }
  let r := d.rxStep bytes
  x :: (if r.2.2 && decide (r.2.1.length < bytes.length) then r.1.rxLoopTrace r.2.1 else [])
termination_by bytes.length
decreasing_by
  rename_i h
  rw [Bool.and_eq_true, decide_eq_true_eq] at h
  exact h.2

/-- The same over the contents of the segments. -/
def rxSegsTrace (d : PdcpRx) : List Seg → List RxEvent
  | [] => []
  | g :: gs => d.eventOf g :: (if (d.rxSeg g).2 then (d.rxSeg g).1.rxSegsTrace gs else [])

theorem rxLoopTrace_encodeAll (gs : List Seg) (d : PdcpRx)
    (h : ∀ g ∈ gs, g.Fits d.config.layout) :
    d.rxLoopTrace (encodeAll d.config.layout gs) = d.rxSegsTrace gs := by
  induction gs generalizing d with
  | nil => rw [rxLoopTrace]; rfl
  | cons g gs ih =>
      have hg := h g (List.mem_cons_self ..)
      have hlen : (encode d.config.layout g).length = g.wireSize d.config.layout :=
        encode_length ..
      have hpos := headerSize_ge d.config.layout
      have hpay : 0 < g.payload.length := List.length_pos_iff.mpr hg.payload_ne
      have htotal : (encode d.config.layout g ++ encodeAll d.config.layout gs).length =
          g.wireSize d.config.layout + (encodeAll d.config.layout gs).length := by
        rw [List.length_append, hlen]
      have hwire : g.wireSize d.config.layout =
          d.config.layout.headerSize + g.payload.length := rfl
      have hne : (encode d.config.layout g ++
          encodeAll d.config.layout gs).isEmpty = false := by
        rw [List.isEmpty_eq_false_iff]
        intro hnil
        have := congrArg List.length hnil
        rw [htotal, List.length_nil] at this
        omega
      have hread := scan_encode d.config.layout g (encodeAll d.config.layout gs) hg
      have hpayload := readPayload_encode d.config.layout g (encodeAll d.config.layout gs)
      have hsn : (if d.config.allowReordering = true then
          (scanned d.config.layout (encode d.config.layout g ++
            encodeAll d.config.layout gs)).getSn else 0) =
          if d.config.allowReordering = true then g.sn else 0 := by
        split
        · rename_i hre
          exact hread.sn hre
        · rfl
      have hoff : (if d.config.allowSegmentation = true then
          (scanned d.config.layout (encode d.config.layout g ++
            encodeAll d.config.layout gs)).getOffset else 0) =
          if d.config.allowSegmentation = true then g.offset else 0 := by
        split
        · rename_i hseg
          exact hread.offset hseg
        · rfl
      have hcfg := (d.rxSeg_setup g).config
      have hrest := ih (d.rxSeg g).1
        (by rw [hcfg]; exact fun x hx => h x (List.mem_cons_of_mem _ hx))
      rw [hcfg] at hrest
      rw [encodeAll_cons, rxLoopTrace, hne, rxStep_encode d g _ hg,
        rescan_view _ _ (by omega), rxSegsTrace]
      simp only [Bool.false_eq_true, if_false, scanned_getHeaderSize, hread.size,
        hread.payloadSize, hread.last, hsn, hoff, hpayload, htotal]
      rw [if_neg (by simp; omega)]
      cases hmore : (d.rxSeg g).2 with
      | false => rfl
      | true =>
          have hshort : decide ((encodeAll d.config.layout gs).length <
              g.wireSize d.config.layout + (encodeAll d.config.layout gs).length) = true :=
            decide_eq_true (by omega)
          simp only [if_true, Bool.true_and, hshort, hrest]
          rfl

end PdcpRx

/-- The segments of a run of calls of `on_rx`. -/
def rxRunTrace (d : PdcpRx) : List (List UInt8) → List RxEvent
  | [] => []
  | pdu :: pdus =>
    (if !d.isRxEnabled || pdu.isEmpty then [] else d.rxLoopTrace pdu) ++
      (match d.onRx pdu with
        | none => []
        | some d' => rxRunTrace d' pdus)

/-! ## Conditions on a segment -/

namespace RxEvent

/-- Once the receiver is synchronised, the segment is at most one more than
`max_sn_distance` behind `rx_sn`, where it is ignored, and less than the size of
the ring ahead. -/
def InReach (x : RxEvent) : Prop :=
  x.state.rxSnSynced = true →
    x.state.rxSn ≤ x.sn + x.state.config.maxSnDistance + 1 ∧ x.sn < x.state.rxSn + 8192

/-- A fast-forward to `sn` finds an incomplete record at a number behind which it
stops. -/
def CanStop (x : RxEvent) : Prop :=
  ∀ e, x.updateCall = some (e, true) →
    ∃ m, e.rxSn ≤ m ∧ m < x.sn ∧ x.sn ≤ m + max (e.config.maxSnDistance - 1) 1 ∧
      (e.rxBufferRing (PdcpRx.rxBufferRingIndex m)).isComplete = false

instance (x : RxEvent) : Decidable x.InReach :=
  inferInstanceAs (Decidable (_ → _))

/-- Whether a call can stop, on its state and arguments. -/
def stops (sn : Nat) : Option (PdcpRx × Bool) → Bool
  | some (e, true) => (List.range sn).any fun m =>
      decide (e.rxSn ≤ m) && decide (sn ≤ m + max (e.config.maxSnDistance - 1) 1) &&
        !(e.rxBufferRing (PdcpRx.rxBufferRingIndex m)).isComplete
  | _ => true

theorem canStop_iff (x : RxEvent) : stops x.sn x.updateCall = true ↔ x.CanStop := by
  unfold CanStop
  cases x.updateCall with
  | none => simp [stops]
  | some call =>
      obtain ⟨e, ff⟩ := call
      cases ff with
      | false => simp [stops]
      | true =>
          simp only [stops, List.any_eq_true, List.mem_range, Bool.and_eq_true,
            decide_eq_true_eq, Bool.not_eq_true', Option.some.injEq, Prod.mk.injEq, and_true,
            forall_eq']
          exact exists_congr fun m => ⟨fun ⟨h, ⟨hlo, hd⟩, hc⟩ => ⟨hlo, h, hd, hc⟩,
            fun ⟨hlo, h, hd, hc⟩ => ⟨h, ⟨hlo, hd⟩, hc⟩⟩

instance (x : RxEvent) : Decidable x.CanStop :=
  decidable_of_iff _ x.canStop_iff

end RxEvent

/-- A call of `update_rx_sn` for `sn`: `rx_sn` does not move back, and every number
from `sn` on that it passes is delivered. -/
structure Advances (e : PdcpRx) (sn : Nat) (e' : PdcpRx) : Prop where
  forward : e.rxSn ≤ e'.rxSn
  delivers : ∃ new, e'.toRxQueue = e.toRxQueue ++ new ∧
    ∀ m, sn ≤ m → m < e'.rxSn → m ∈ new.map (·.sn)

/-! ## One call of `update_rx_sn` -/

open PdcpRx

/-- The numbers on the queue behind `old` increase. -/
def QueueOrdered (old : List RxPacket) (d : PdcpRx) : Prop :=
  ∃ new, d.toRxQueue = old ++ new ∧ (new.map (·.sn)).Pairwise (· < ·)

/-- Complete records of the ring are those of their numbers, and `rx_sn` is behind
everything that was delivered. -/
structure Ordered (old : List RxPacket) (d : PdcpRx) : Prop where
  next : d.rxSn ≤ 32768
  ring : ∀ k, d.rxSn ≤ k → k < d.rxSn + 8192 →
    (d.rxBufferRing (rxBufferRingIndex k)).isComplete = true →
    (d.rxBufferRing (rxBufferRingIndex k)).sn = k ∧ k < 32768
  queue : ∃ new, d.toRxQueue = old ++ new ∧ (new.map (·.sn)).Pairwise (· < ·) ∧
    ∀ q ∈ new, q.sn < d.rxSn

theorem rxBufferRingIndex_add (n : Nat) :
    rxBufferRingIndex (n + 8192) = rxBufferRingIndex n := by
  apply Fin.ext
  show (n + 8192) % 8192 = n % 8192
  omega

namespace Ordered

variable {old : List RxPacket} {d : PdcpRx}

theorem queueOrdered (h : Ordered old d) : QueueOrdered old d := by
  obtain ⟨new, hnew, hsorted, _⟩ := h.queue
  exact ⟨new, hnew, hsorted⟩

/-- The record of `rx_sn` becomes the record of the last number of the ring. -/
private theorem ring_passed (h : Ordered old d) {el : RxBufferInfo}
    (hel : el.isComplete = false) : ∀ k, d.rxSn + 1 ≤ k → k < d.rxSn + 1 + 8192 →
    (Function.update d.rxBufferRing (rxBufferRingIndex d.rxSn) el
      (rxBufferRingIndex k)).isComplete = true →
    (Function.update d.rxBufferRing (rxBufferRingIndex d.rxSn) el
      (rxBufferRingIndex k)).sn = k ∧ k < 32768 := by
  intro k hlo hhi
  by_cases hlast : k = d.rxSn + 8192
  · rw [hlast, rxBufferRingIndex_add, Function.update_self, hel]
    intro hc
    cases hc
  · rw [Function.update_of_ne (rxBufferRingIndex_ne (by omega) (by omega))]
    exact h.ring k (by omega) (by omega)

/-- The next number is complete: it is delivered. -/
theorem deliver (h : Ordered old d) (hc : d.current.isComplete = true) :
    Ordered old d.deliver ∧ d.deliver.rxSn = d.rxSn + 1 ∧
      d.deliver.toRxQueue = d.toRxQueue ++ [⟨d.rxSn, d.current.buffer⟩] := by
  obtain ⟨hsn, hlt⟩ := h.ring d.rxSn (Nat.le_refl _) (by omega) hc
  have hnext : d.deliver.rxSn = d.rxSn + 1 := by
    show (d.rxSn + 1) % 65536 = d.rxSn + 1
    omega
  have hpacket : d.deliver.toRxQueue = d.toRxQueue ++ [⟨d.rxSn, d.current.buffer⟩] := by
    show d.toRxQueue ++ [(⟨d.current.sn, d.current.buffer⟩ : RxPacket)] = _
    rw [show d.current.sn = d.rxSn from hsn]
  refine ⟨⟨?_, ?_, ?_⟩, hnext, hpacket⟩
  · rw [hnext]
    omega
  · rw [hnext]
    exact h.ring_passed rfl
  · obtain ⟨new, hnew, hsorted, hbelow⟩ := h.queue
    refine ⟨new ++ [⟨d.rxSn, d.current.buffer⟩], ?_, ?_, ?_⟩
    · rw [hpacket, hnew, List.append_assoc]
    · rw [List.map_append, List.map_singleton, List.pairwise_append]
      refine ⟨hsorted, List.pairwise_singleton _ _, ?_⟩
      intro a ha b hb
      obtain ⟨q, hq, rfl⟩ := List.mem_map.mp ha
      rw [List.mem_singleton.mp hb]
      exact hbelow q hq
    · rw [hnext]
      intro q hq
      rcases List.mem_append.mp hq with hq | hq
      · exact Nat.lt_succ_of_lt (hbelow q hq)
      · rw [List.mem_singleton.mp hq]
        exact Nat.lt_succ_self _

/-- The next number is skipped. -/
theorem drop (h : Ordered old d) (hlt : d.rxSn < 32768) :
    Ordered old d.drop ∧ d.drop.rxSn = d.rxSn + 1 := by
  have hnext : d.drop.rxSn = d.rxSn + 1 := by
    show (d.rxSn + 1) % 65536 = d.rxSn + 1
    omega
  refine ⟨⟨?_, ?_, ?_⟩, hnext⟩
  · rw [hnext]
    exact hlt
  · rw [hnext]
    exact h.ring_passed rfl
  · obtain ⟨new, hnew, hsorted, hbelow⟩ := h.queue
    refine ⟨new, hnew, hsorted, fun q hq => ?_⟩
    rw [hnext]
    exact Nat.lt_succ_of_lt (hbelow q hq)

/-- A record of the ring is written for its number. -/
theorem store (h : Ordered old d) {i : Nat} (hlo : d.rxSn ≤ i) (hhi : i < d.rxSn + 8192)
    (hi : i < 32768) {el : RxBufferInfo} (hel : el.sn = i) :
    Ordered old { d with
      rxBufferRing := Function.update d.rxBufferRing (rxBufferRingIndex i) el } := by
  refine ⟨h.next, ?_, h.queue⟩
  intro k hk hk'
  dsimp only at hk hk' ⊢
  by_cases hki : k = i
  · rw [hki, Function.update_self]
    exact fun _ => ⟨hel, hi⟩
  · have hne : rxBufferRingIndex k ≠ rxBufferRingIndex i := by
      rcases Nat.lt_or_gt_of_ne hki with hlt | hgt
      · exact (rxBufferRingIndex_ne hlt (by omega)).symm
      · exact rxBufferRingIndex_ne hgt (by omega)
    rw [Function.update_of_ne hne]
    exact h.ring k hk hk'

/-- Without fast-forward every number that is passed is delivered. -/
theorem updateLoop (h : Ordered old d) (sn : Nat) (hsn : d.rxSn ≤ sn) :
    Ordered old (d.updateLoop sn false) ∧ Advances d sn (d.updateLoop sn false) := by
  have hloop : Ordered old (d.updateLoop sn false) ∧ d.rxSn ≤ (d.updateLoop sn false).rxSn ∧
      ∃ new, (d.updateLoop sn false).toRxQueue = d.toRxQueue ++ new ∧
        ∀ m, d.rxSn ≤ m → m < (d.updateLoop sn false).rxSn → m ∈ new.map (·.sn) := by
    apply updateLoop_rule (fun e => Ordered old e ∧ d.rxSn ≤ e.rxSn ∧
      ∃ new, e.toRxQueue = d.toRxQueue ++ new ∧
        ∀ m, d.rxSn ≤ m → m < e.rxSn → m ∈ new.map (·.sn))
    · rintro e ⟨he, hle, new, hnew, hall⟩ hc
      obtain ⟨he', hnext, hqueue⟩ := he.deliver hc
      refine ⟨he', by omega, new ++ [⟨e.rxSn, e.current.buffer⟩], ?_, ?_⟩
      · rw [hqueue, hnew, List.append_assoc]
      · intro m hlo hhi
        rw [hnext] at hhi
        rw [List.map_append, List.map_singleton, List.mem_append, List.mem_singleton]
        by_cases hlast : m = e.rxSn
        · exact Or.inr hlast
        · exact Or.inl (hall m hlo (by omega))
    · intro hff
      cases hff
    · refine ⟨h, Nat.le_refl _, [], (List.append_nil _).symm, ?_⟩
      intro m hlo hhi
      omega
  obtain ⟨hord, hforward, new, hnew, hall⟩ := hloop
  exact ⟨hord, hforward, new, hnew, fun m hm => hall m (by omega)⟩

/-- Fast-forward: the loop is left at or before the first incomplete record behind
which it may stop. -/
theorem updateLoop_forward (h : Ordered old d) {sn : Nat} (hsn : sn < 32768)
    (hnear : sn < d.rxSn + 8192)
    (hstop : ∃ m, d.rxSn ≤ m ∧ m < sn ∧ sn ≤ m + max (d.config.maxSnDistance - 1) 1 ∧
      (d.rxBufferRing (rxBufferRingIndex m)).isComplete = false) :
    Ordered old (d.updateLoop sn true) ∧ d.rxSn ≤ (d.updateLoop sn true).rxSn ∧
      (d.updateLoop sn true).rxSn ≤ sn ∧
      ∃ new, (d.updateLoop sn true).toRxQueue = d.toRxQueue ++ new := by
  obtain ⟨m, hlo, hhi, hdist, hopen⟩ := hstop
  induction d using PdcpRx.updateLoop.induct sn true with
  | case1 d hmore ih =>
      rw [updateLoop_of_more hmore]
      unfold updateStep at hmore ih ⊢
      by_cases hc : d.current.isComplete = true
      · rw [if_pos hc] at ih ⊢
        obtain ⟨he, hnext, hqueue⟩ := h.deliver hc
        have hne : d.rxSn ≠ m := by
          rintro rfl
          rw [show (d.rxBufferRing (rxBufferRingIndex d.rxSn)).isComplete = true from hc]
            at hopen
          cases hopen
        have hopen' : (d.deliver.rxBufferRing (rxBufferRingIndex m)).isComplete = false := by
          show (Function.update d.rxBufferRing (rxBufferRingIndex d.rxSn) _
            (rxBufferRingIndex m)).isComplete = false
          rw [Function.update_of_ne (rxBufferRingIndex_ne (by omega) (by omega))]
          exact hopen
        obtain ⟨hord, hforward, hend, new, hnew⟩ :=
          ih he (by rw [hnext]; omega) (by rw [hnext]; omega) hdist hopen'
        have hle : d.rxSn ≤ d.deliver.rxSn := by omega
        refine ⟨hord, hle.trans hforward, hend, ⟨d.rxSn, d.current.buffer⟩ :: new, ?_⟩
        rw [hnew, hqueue, List.append_assoc]
        rfl
      · rw [if_neg hc, if_pos rfl] at hmore ih ⊢
        obtain ⟨he, hnext⟩ := h.drop (by omega)
        -- the loop goes on, so this is not the number `m`
        have hne : d.rxSn ≠ m := by
          rintro rfl
          have hd : snDist sn d.rxSn = sn - d.rxSn := if_pos (by omega)
          simp only [hnext, hd, Bool.not_eq_true', Bool.or_eq_false_iff, beq_eq_false_iff_ne,
            decide_eq_false_iff_not] at hmore
          omega
        have hopen' : (d.drop.rxBufferRing (rxBufferRingIndex m)).isComplete = false := by
          show (Function.update d.rxBufferRing (rxBufferRingIndex d.rxSn) _
            (rxBufferRingIndex m)).isComplete = false
          rw [Function.update_of_ne (rxBufferRingIndex_ne (by omega) (by omega))]
          exact hopen
        obtain ⟨hord, hforward, hend, new, hnew⟩ :=
          ih he (by rw [hnext]; omega) (by rw [hnext]; omega) hdist hopen'
        have hle : d.rxSn ≤ d.drop.rxSn := by omega
        exact ⟨hord, hle.trans hforward, hend, new, hnew⟩
  | case2 d hleave =>
      rw [updateLoop_of_stop hleave]
      unfold updateStep at hleave ⊢
      by_cases hc : d.current.isComplete = true
      · rw [if_pos hc] at hleave
        exact absurd rfl hleave
      · rw [if_neg hc, if_pos rfl]
        obtain ⟨he, hnext⟩ := h.drop (by omega)
        exact ⟨he, by rw [hnext]; omega, by rw [hnext]; omega, [],
          (List.append_nil _).symm⟩

/-- Both kinds of calls. -/
theorem updateLoop_advances (h : Ordered old d) {sn : Nat} (hlo : d.rxSn ≤ sn)
    (hnear : sn < d.rxSn + 8192) (hsn : sn < 32768) (ff : Bool)
    (hstop : ff = true → ∃ m, d.rxSn ≤ m ∧ m < sn ∧
      sn ≤ m + max (d.config.maxSnDistance - 1) 1 ∧
      (d.rxBufferRing (rxBufferRingIndex m)).isComplete = false) :
    Ordered old (d.updateLoop sn ff) ∧ Advances d sn (d.updateLoop sn ff) := by
  cases ff with
  | false => exact h.updateLoop sn hlo
  | true =>
      obtain ⟨hord, hforward, hend, new, hnew⟩ := h.updateLoop_forward hsn hnear (hstop rfl)
      exact ⟨hord, hforward, new, hnew, fun m hm hlt => by omega⟩

end Ordered

theorem updateLoop_synced {d : PdcpRx} (h : d.rxSnSynced = true) {sn : Nat} {ff : Bool} :
    (d.updateLoop sn ff).rxSnSynced = true :=
  updateLoop_rule (fun e => e.rxSnSynced = true) (fun _ he _ => he) (fun _ _ he _ => he) d h

theorem updateRxSn_reordering {d : PdcpRx} (h : d.config.allowReordering = true) {sn : Nat}
    {ff : Bool} : d.updateRxSn sn ff = d.updateLoop sn ff := by
  unfold updateRxSn
  rw [h, if_neg (by decide)]

/-! ## Runs -/

/-- The settings of the runs below. -/
structure Forwards (cfg : RxConfig) : Prop where
  reorder : cfg.allowReordering = true
  rlf : cfg.allowRlf = false
  dist : cfg.maxSnDistance < 8192

/-- Before the first segment nothing is complete; behind it the receiver is
ordered. -/
def Started (old : List RxPacket) (d : PdcpRx) : Prop :=
  (d.rxSnSynced = false ∧ d.toRxQueue = old ∧
    ∀ i, (d.rxBufferRing i).isComplete = false) ∨
  (d.rxSnSynced = true ∧ Ordered old d)

/-- What the run shows at a segment. -/
structure RxEvent.Keeps (old : List RxPacket) (x : RxEvent) : Prop where
  queue : QueueOrdered old x.result.1
  advances : ∀ e ff, x.updateCall = some (e, ff) → Advances e x.sn x.result.1

namespace Started

variable {old : List RxPacket} {d : PdcpRx}

theorem queueOrdered (h : Started old d) : QueueOrdered old d := by
  rcases h with ⟨_, hqueue, _⟩ | ⟨_, hord⟩
  · exact ⟨[], by rw [hqueue, List.append_nil], List.Pairwise.nil⟩
  · exact hord.queueOrdered

/-- The first segment synchronises the receiver. -/
theorem sync (h : Started old d) {sn : Nat} (hsn : sn < 32768) :
    (d.sync sn).rxSnSynced = true ∧ Ordered old (d.sync sn) := by
  rcases h with ⟨hs, hqueue, hnone⟩ | ⟨hs, hord⟩
  · have hsync : d.sync sn = { d with rxSnSynced := true, rxSn := sn } := by
      unfold PdcpRx.sync
      rw [hs]
      rfl
    rw [hsync]
    refine ⟨rfl, hsn.le, ?_, [], ?_, List.Pairwise.nil, by simp⟩
    · intro k _ _ hc
      rw [hnone] at hc
      cases hc
    · rw [List.append_nil]
      exact hqueue
  · have hsync : d.sync sn = d := by
      unfold PdcpRx.sync
      rw [hs]
      rfl
    rw [hsync]
    exact ⟨hs, hord⟩

end Started

/-- Where the segment lies when it gets past the test for old numbers. -/
theorem RxEvent.InReach.near {x : RxEvent} (h : x.InReach)
    (hdist : x.state.config.maxSnDistance < 8192)
    (hnext : (x.state.sync x.sn).rxSn ≤ 32768) (hsn : x.sn < 32768)
    (hbefore : (x.state.sync x.sn).isBefore x.sn = false) :
    (x.state.sync x.sn).rxSn ≤ x.sn ∧ x.sn < (x.state.sync x.sn).rxSn + 8192 := by
  have hconfig : (x.state.sync x.sn).config = x.state.config :=
    SameFuture.sync_config _ _
  cases hs : x.state.rxSnSynced with
  | false =>
      have hsync : (x.state.sync x.sn).rxSn = x.sn := by
        unfold PdcpRx.sync
        rw [hs]
        rfl
      omega
  | true =>
      obtain ⟨hbehind, hahead⟩ := h hs
      have hsync : x.state.sync x.sn = x.state := by
        unfold PdcpRx.sync
        rw [hs]
        rfl
      rw [hsync] at hnext hbefore hconfig ⊢
      refine ⟨?_, hahead⟩
      by_contra hlt
      unfold isBefore snDist at hbefore
      rw [if_neg hlt, Bool.and_eq_false_iff, decide_eq_false_iff_not,
        decide_eq_false_iff_not] at hbefore
      omega

/-- One segment. -/
theorem RxEvent.keeps {old : List RxPacket} {x : RxEvent} (hcfg : Forwards x.state.config)
    (h : Started old x.state) (hsn : x.sn < 32768) (hreach : x.InReach)
    (hstop : x.CanStop) : Started old x.result.1 ∧ x.Keeps old := by
  obtain ⟨hs, hord⟩ := h.sync hsn
  have hconfig : (x.state.sync x.sn).config = x.state.config :=
    SameFuture.sync_config _ _
  have hdist := hcfg.dist
  have hnear := hreach.near hdist hord.next hsn
  have hresult : Started old x.result.1 ∧
      ∀ e ff, x.updateCall = some (e, ff) → Advances e x.sn x.result.1 := by
    unfold RxEvent.CanStop at hstop
    unfold RxEvent.updateCall at hstop ⊢
    unfold RxEvent.result PdcpRx.rxSegment PdcpRx.storeSegment
    dsimp only at hstop ⊢
    generalize x.state.sync x.sn = d at hs hord hconfig hnear hstop ⊢
    cases hbefore : d.isBefore x.sn with
    | true =>
        simp only [if_true]
        exact ⟨Or.inr ⟨hs, hord⟩, fun e ff hcall => by cases hcall⟩
    | false =>
        obtain ⟨hlo, hhi⟩ := hnear hbefore
        have hrlf : (d.isOutOfRange x.sn && d.config.allowRlf) = false := by
          rw [hconfig, hcfg.rlf, Bool.and_false]
        have hsame := RxBufferInfo.store_sn (d.rxBufferRing (rxBufferRingIndex x.sn)) x.sn
          x.offset x.last x.payload
        simp only [hbefore, hrlf, Bool.false_eq_true, if_false] at hstop ⊢
        generalize (d.rxBufferRing (rxBufferRingIndex x.sn)).store x.sn x.offset x.last
          x.payload = el at hsame hstop ⊢
        have hstored := hord.store hlo hhi hsn hsame
        cases hold : (d.rxBufferRing (rxBufferRingIndex x.sn)).isComplete with
        | true =>
            simp only [if_true]
            exact ⟨Or.inr ⟨hs, hord⟩, fun e ff hcall => by cases hcall⟩
        | false =>
            cases hnew : el.isComplete with
            | false =>
                simp only [Bool.false_eq_true, if_false]
                exact ⟨Or.inr ⟨hs, hstored⟩, fun e ff hcall => by cases hcall⟩
            | true =>
                simp only [hold, hnew, Bool.false_eq_true, if_false, if_true] at hstop ⊢
                rw [updateRxSn_reordering (by
                  show d.config.allowReordering = true
                  rw [hconfig]
                  exact hcfg.reorder)]
                obtain ⟨hord', hadv⟩ := hstored.updateLoop_advances hlo hhi hsn
                  (d.isOutOfRange x.sn) (fun hff => hstop _ (by rw [hff]))
                refine ⟨Or.inr ⟨updateLoop_synced (by exact hs), hord'⟩, fun e ff hcall => ?_⟩
                cases hcall
                exact hadv
  exact ⟨hresult.1, hresult.1.queueOrdered, hresult.2⟩

/-- A segment is one of those that the run is about. -/
structure RxEvent.Meets (x : RxEvent) : Prop where
  sn : x.sn < 32768
  reach : x.InReach
  stop : x.CanStop

instance (x : RxEvent) : Decidable x.Meets :=
  decidable_of_iff (x.sn < 32768 ∧ x.InReach ∧ x.CanStop)
    ⟨fun h => ⟨h.1, h.2.1, h.2.2⟩, fun h => ⟨h.sn, h.reach, h.stop⟩⟩

/-- The event of the segment that a readable range begins with. -/
def PdcpRx.readEvent (d : PdcpRx) (bytes : List UInt8) : RxEvent :=
  let segment := (view d.config.layout bytes).rescan
  { state := d
    sn := if d.config.allowReordering then segment.getSn else 0
    offset := if d.config.allowSegmentation then segment.getOffset else 0
    last := segment.isLast
    payload := readPayload bytes segment.getHeaderSize segment.getPayloadSize }

/-- An iteration of the loop of `on_rx`: it stops in front of a range that cannot be
read, or processes the event. -/
theorem rxStep_cases (d : PdcpRx) (bytes : List UInt8) :
    ((decide ((view d.config.layout bytes).rescan.getHeaderSize ≥ bytes.length) ||
        decide ((view d.config.layout bytes).rescan.getSize > bytes.length)) = true ∧
      d.rxStep bytes = (d, bytes, false)) ∨
    (¬ (decide ((view d.config.layout bytes).rescan.getHeaderSize ≥ bytes.length) ||
        decide ((view d.config.layout bytes).rescan.getSize > bytes.length)) = true ∧
      (d.rxStep bytes).1 = (d.readEvent bytes).result.1) := by
  unfold PdcpRx.rxStep
  dsimp only
  by_cases hhdr : (view d.config.layout bytes).rescan.getHeaderSize ≥ bytes.length
  · left
    rw [if_pos hhdr, decide_eq_true hhdr]
    exact ⟨rfl, rfl⟩
  · by_cases hsize : (view d.config.layout bytes).rescan.getSize > bytes.length
    · left
      rw [if_neg hhdr, if_pos hsize, decide_eq_true hsize, Bool.or_true]
      exact ⟨rfl, rfl⟩
    · right
      rw [if_neg hhdr, if_neg hsize, decide_eq_false hhdr, decide_eq_false hsize]
      exact ⟨by decide, rfl⟩

/-- One PDU. -/
theorem rxLoop_keeps {old : List RxPacket} (d : PdcpRx) (bytes : List UInt8)
    (hcfg : Forwards d.config) (h : Started old d)
    (hall : ∀ x ∈ d.rxLoopTrace bytes, x.Meets) :
    (∀ x ∈ d.rxLoopTrace bytes, x.Keeps old) ∧
      ∀ d', d.rxLoop bytes = some d' → Started old d' ∧ SameSetup d d' := by
  induction d, bytes using PdcpRx.rxLoopTrace.induct with
  | case1 d bytes hempty =>
      rw [rxLoopTrace, if_pos hempty, rxLoop_eq, if_pos hempty]
      refine ⟨by simp, fun d' hd' => ?_⟩
      cases hd'
      exact ⟨h, rfl, rfl⟩
  | case2 d bytes hempty segment hcut =>
      rcases rxStep_cases d bytes with ⟨_, hstep⟩ | ⟨hread, _⟩
      · rw [rxLoopTrace, if_neg hempty, if_pos hcut, rxLoop_eq, if_neg hempty, hstep]
        refine ⟨by simp, fun d' hd' => ?_⟩
        cases hd'
        exact ⟨h, rfl, rfl⟩
      · exact absurd hcut hread
  | case3 d bytes hempty segment hread r ih =>
      rcases rxStep_cases d bytes with ⟨hcut, _⟩ | ⟨_, hfirst⟩
      · exact absurd hcut hread
      have htrace : d.rxLoopTrace bytes = d.readEvent bytes ::
          (if (d.rxStep bytes).2.2 &&
              decide ((d.rxStep bytes).2.1.length < bytes.length) then
            (d.rxStep bytes).1.rxLoopTrace (d.rxStep bytes).2.1 else []) := by
        rw [rxLoopTrace, if_neg hempty, if_neg hread]
        rfl
      rw [htrace] at hall ⊢
      have hone := hall _ (List.mem_cons_self ..)
      obtain ⟨hstarted, hkeeps⟩ := RxEvent.keeps (x := d.readEvent bytes) hcfg h hone.sn
        hone.reach hone.stop
      have hsetup : SameSetup d (d.readEvent bytes).result.1 := rxSegment_setup ..
      rw [← hfirst] at hstarted hsetup
      rw [rxLoop_eq, if_neg hempty]
      cases hmore : (d.rxStep bytes).2.2 with
      | false =>
          simp only [Bool.false_and, Bool.false_eq_true, if_false, Bool.not_false, if_true]
          refine ⟨fun x hx => ?_, fun d' hd' => ?_⟩
          · rw [List.mem_singleton.mp hx]
            exact hkeeps
          · cases hd'
            exact ⟨hstarted, hsetup⟩
      | true =>
          simp only [hmore, Bool.true_and, Bool.not_true, Bool.false_eq_true, if_false,
            decide_eq_true_eq] at hall ⊢
          by_cases hshort : (d.rxStep bytes).2.1.length < bytes.length
          · rw [if_pos hshort] at hall ⊢
            rw [if_pos hshort]
            obtain ⟨hrest, hend⟩ := ih (by
                show ((d.rxStep bytes).2.2 &&
                  decide ((d.rxStep bytes).2.1.length < bytes.length)) = true
                rw [hmore, decide_eq_true hshort]
                rfl)
              (by rw [hsetup.config]; exact hcfg) hstarted
              (fun x hx => hall x (List.mem_cons_of_mem _ hx))
            refine ⟨fun x hx => ?_, fun d' hd' => ?_⟩
            · rcases List.mem_cons.mp hx with rfl | hx
              · exact hkeeps
              · exact hrest x hx
            · obtain ⟨hstart, hsame⟩ := hend d' hd'
              exact ⟨hstart, hsame.config.trans hsetup.config,
                hsame.enabled.trans hsetup.enabled⟩
          · rw [if_neg hshort]
            rw [if_neg hshort]
            refine ⟨fun x hx => ?_, fun d' hd' => by cases hd'⟩
            rw [List.mem_singleton.mp hx]
            exact hkeeps

/-- A call of `on_rx`. -/
theorem onRx_keeps {old : List RxPacket} {d : PdcpRx} (pdu : List UInt8)
    (hcfg : Forwards d.config) (h : Started old d)
    (hall : ∀ x ∈ (if !d.isRxEnabled || pdu.isEmpty then [] else d.rxLoopTrace pdu),
      x.Meets) :
    (∀ x ∈ (if !d.isRxEnabled || pdu.isEmpty then [] else d.rxLoopTrace pdu),
        x.Keeps old) ∧
      ∀ d', d.onRx pdu = some d' → Started old d' ∧ SameSetup d d' := by
  unfold onRx
  cases hen : d.isRxEnabled with
  | false =>
      simp only [Bool.not_false, Bool.true_or, if_true]
      refine ⟨by simp, fun d' hd' => ?_⟩
      cases hd'
      exact ⟨h, rfl, rfl⟩
  | true =>
      cases hempty : pdu.isEmpty with
      | true =>
          rw [List.isEmpty_iff.mp hempty]
          refine ⟨by simp, fun d' hd' => ?_⟩
          cases hd'
          exact ⟨h, rfl, rfl⟩
      | false =>
          have hpos : ¬ 0 ≥ pdu.length := by
            have hlen := List.length_pos_iff.mpr (List.isEmpty_eq_false_iff.mp hempty)
            omega
          simp only [hen, hempty, Bool.not_true, Bool.or_self, Bool.false_eq_true, if_false,
            if_neg hpos] at hall ⊢
          exact rxLoop_keeps d pdu hcfg h hall

/-- A run of calls of `on_rx`. -/
theorem rxRun_keeps {old : List RxPacket} (pdus : List (List UInt8)) (d : PdcpRx)
    (hcfg : Forwards d.config) (h : Started old d)
    (hall : ∀ x ∈ rxRunTrace d pdus, x.Meets) :
    (∀ x ∈ rxRunTrace d pdus, x.Keeps old) ∧
      ∀ d', rxRun d pdus = some d' → Started old d' := by
  induction pdus generalizing d with
  | nil =>
      refine ⟨by simp [rxRunTrace], fun d' hd' => ?_⟩
      cases hd'
      exact h
  | cons pdu pdus ih =>
      rw [rxRunTrace] at hall ⊢
      obtain ⟨hfirst, hcall⟩ := onRx_keeps pdu hcfg h
        (fun x hx => hall x (List.mem_append_left _ hx))
      rw [rxRun]
      cases hrx : d.onRx pdu with
      | none =>
          refine ⟨fun x hx => ?_, fun d' hd' => by cases hd'⟩
          rcases List.mem_append.mp hx with hx | hx
          · exact hfirst x hx
          · cases hx
      | some d₁ =>
          rw [hrx] at hall
          obtain ⟨hstarted, hsetup⟩ := hcall d₁ hrx
          obtain ⟨hrest, hend⟩ := ih d₁ (by rw [hsetup.config]; exact hcfg) hstarted
            (fun x hx => hall x (List.mem_append_right _ hx))
          refine ⟨fun x hx => ?_, hend⟩
          rcases List.mem_append.mp hx with hx | hx
          · exact hfirst x hx
          · exact hrest x hx

end Winject.LegacyPdcp
