import Winject.Frames.Received
import Winject.Pdcp.Dl

/-!
# Parsing and storing

An iteration of `on_pdcp_data` reads a segment from the front of the bytes that are
left and stores it.  What is read, and whether the call fails, depends on the
configuration and the bytes only: `parseStep` is the first half of an iteration,
and `parse` are all the segments that a call reads, with the status of its failure.

## Main results

* `parseStep_ok_iff` — when a segment is read, and what the next bytes are.
* `parse_encodeAll` — encoded segments are read back.
* `dataStep_eq` — an iteration is a parsing step and a store.
* `onPdcpData_cases` — a call stores what it has read, and then flushes or fails.
-/

namespace Winject.Pdcp

open Winject.Frames
open Winject.Lib.Bytes

namespace PdcpDlConfig

/-- The checks of an iteration, and the segment at the front. -/
def parseStep (cfg : PdcpDlConfig) (bytes : List UInt8) :
    Except DlStatus (Received × List UInt8) :=
  let segment := (view cfg.layout bytes).rescan
  if !segment.isHeaderValid then .error .segmentScanFailed else
  if segment.getSize > bytes.length then .error .segmentOutsideInput else
  if segment.getPayloadSize = 0 then .error .reservedValueUsed else
  .ok
    ({ sn := if cfg.allowReordering then segment.getSn else 0
       offset := if cfg.allowSegmentation then segment.getOffset else 0
       last := segment.isLast
       payload := readPayload bytes segment.getHeaderSize segment.getPayloadSize },
      bytes.drop segment.getSize)

/-- The segments that a call reads, and the status with which it fails; `none` for
bytes on which the loop does not move on. -/
def parse (cfg : PdcpDlConfig) (bytes : List UInt8) :
    Option (List Received × Option DlStatus) :=
  if bytes.isEmpty then some ([], none) else
  match cfg.parseStep bytes with
  | .error status => some ([], some status)
  | .ok (g, rest) =>
    if rest.length < bytes.length then
      (cfg.parse rest).map (fun r => (g :: r.1, r.2))
    else none
termination_by bytes.length

@[simp] theorem parse_nil (cfg : PdcpDlConfig) : cfg.parse [] = some ([], none) := by
  rw [parse]
  rfl

theorem parse_of_error {cfg : PdcpDlConfig} {bytes : List UInt8} {status : DlStatus}
    (hne : bytes ≠ []) (h : cfg.parseStep bytes = .error status) :
    cfg.parse bytes = some ([], some status) := by
  rw [parse, if_neg (by rwa [List.isEmpty_iff]), h]

theorem parse_of_ok {cfg : PdcpDlConfig} {bytes rest : List UInt8} {g : Received}
    (h : cfg.parseStep bytes = .ok (g, rest)) (hlt : rest.length < bytes.length) :
    cfg.parse bytes = (cfg.parse rest).map (fun r => (g :: r.1, r.2)) := by
  have hne : ¬ bytes.isEmpty = true := by
    rw [List.isEmpty_iff]
    rintro rfl
    exact Nat.not_lt_zero _ hlt
  rw [parse, if_neg hne, h]
  exact if_pos hlt

/-- With a header that fits, an iteration reads the fields of the segment. -/
theorem parseStep_of_header {cfg : PdcpDlConfig} {bytes : List UInt8}
    (h : cfg.layout.headerSize ≤ bytes.length) :
    cfg.parseStep bytes =
      if cfg.layout.sizeAt bytes > bytes.length then .error .segmentOutsideInput
      else if cfg.layout.payloadSizeAt bytes = 0 then .error .reservedValueUsed
      else .ok (cfg.layout.received bytes, bytes.drop (cfg.layout.sizeAt bytes)) := by
  unfold parseStep
  dsimp only
  rw [view_isHeaderValid, decide_eq_true h, if_neg (by decide), rescan_view _ _ h]
  rfl

theorem parseStep_of_short {cfg : PdcpDlConfig} {bytes : List UInt8}
    (h : bytes.length < cfg.layout.headerSize) :
    cfg.parseStep bytes = .error .segmentScanFailed := by
  unfold parseStep
  dsimp only
  rw [view_isHeaderValid, decide_eq_false (by omega)]
  rfl

/-- **A segment is read** iff its header fits, its `SIZE` does not exceed the rest and
it is not all header. -/
theorem parseStep_ok_iff {cfg : PdcpDlConfig} {bytes rest : List UInt8} {g : Received} :
    cfg.parseStep bytes = .ok (g, rest) ↔
      cfg.layout.headerSize ≤ bytes.length ∧ cfg.layout.sizeAt bytes ≤ bytes.length ∧
        cfg.layout.sizeAt bytes ≠ cfg.layout.headerSize ∧ g = cfg.layout.received bytes ∧
          rest = bytes.drop (cfg.layout.sizeAt bytes) := by
  by_cases hheader : cfg.layout.headerSize ≤ bytes.length
  · rw [parseStep_of_header hheader]
    by_cases hsize : cfg.layout.sizeAt bytes > bytes.length
    · rw [if_pos hsize]
      exact ⟨(fun h => by cases h), fun h => absurd h.2.1 (by omega)⟩
    · rw [if_neg hsize]
      by_cases hpay : cfg.layout.payloadSizeAt bytes = 0
      · rw [if_pos hpay]
        rw [Layout.payloadSizeAt_eq_zero_iff] at hpay
        exact ⟨(fun h => by cases h), fun h => absurd hpay h.2.2.1⟩
      · rw [if_neg hpay]
        rw [Layout.payloadSizeAt_eq_zero_iff] at hpay
        constructor
        · intro h
          obtain ⟨rfl, rfl⟩ := Prod.mk.inj (Except.ok.inj h)
          exact ⟨hheader, Nat.not_lt.mp hsize, hpay, rfl, rfl⟩
        · rintro ⟨-, -, -, rfl, rfl⟩
          rfl
  · rw [parseStep_of_short (Nat.not_le.mp hheader)]
    exact ⟨(fun h => by cases h), fun h => absurd h.1 hheader⟩

theorem parseStep_encode {cfg : PdcpDlConfig} {g : Seg} (tail : List UInt8)
    (h : g.Fits cfg.layout) :
    cfg.parseStep (encode cfg.layout g ++ tail) = .ok (g.toReceived cfg.layout, tail) := by
  have hlen : (encode cfg.layout g).length = g.wireSize cfg.layout := encode_length ..
  have hsize : cfg.layout.sizeAt (encode cfg.layout g ++ tail) = g.wireSize cfg.layout :=
    (scan_encode cfg.layout g tail h).size
  have hpayload : 0 < g.payload.length := List.length_pos_iff.mpr h.payload_ne
  rw [parseStep_ok_iff, Layout.received_encode tail h, hsize, List.drop_left' hlen,
    List.length_append, hlen]
  unfold Seg.wireSize
  exact ⟨by omega, by omega, by omega, rfl, rfl⟩

/-- **Encoded segments are read back.** -/
theorem parse_encodeAll {cfg : PdcpDlConfig} {gs : List Seg}
    (h : ∀ g ∈ gs, g.Fits cfg.layout) :
    cfg.parse (encodeAll cfg.layout gs) = some (gs.map (Seg.toReceived cfg.layout), none) := by
  induction gs with
  | nil => exact parse_nil cfg
  | cons g gs ih =>
      have hlen : (encode cfg.layout g).length = g.wireSize cfg.layout := encode_length ..
      have hpos := headerSize_ge cfg.layout
      have hstep := parseStep_encode (encodeAll cfg.layout gs) (h g (List.mem_cons_self ..))
      have hlt : (encodeAll cfg.layout gs).length <
          (encode cfg.layout g ++ encodeAll cfg.layout gs).length := by
        rw [List.length_append, hlen, Seg.wireSize]
        omega
      rw [encodeAll_cons, parse_of_ok hstep hlt,
        ih (fun x hx => h x (List.mem_cons_of_mem _ hx))]
      rfl

/-- A segment that was read moves the cursor on iff its `SIZE` is not zero. -/
theorem parseStep_advances_iff {cfg : PdcpDlConfig} {bytes rest : List UInt8} {g : Received}
    (h : cfg.parseStep bytes = .ok (g, rest)) :
    rest.length < bytes.length ↔ cfg.layout.sizeAt bytes ≠ 0 := by
  obtain ⟨hheader, -, -, -, rfl⟩ := parseStep_ok_iff.mp h
  have hpos := headerSize_ge cfg.layout
  rw [List.length_drop]
  omega

end PdcpDlConfig

namespace PdcpDl

/-- The body of the loop on a segment that was read. -/
def rxReceived (d : PdcpDl) (g : Received) : PdcpDl :=
  d.rxSegment g.sn g.offset g.last g.payload

@[simp] theorem rxReceived_config (d : PdcpDl) (g : Received) :
    (d.rxReceived g).config = d.config := rxSegment_config ..

@[simp] theorem foldl_rxReceived_config (gs : List Received) (d : PdcpDl) :
    (gs.foldl rxReceived d).config = d.config := by
  induction gs generalizing d with
  | nil => rfl
  | cons g gs ih => rw [List.foldl_cons, ih, rxReceived_config]

/-- **An iteration** is a parsing step and a store. -/
theorem dataStep_eq (d : PdcpDl) (bytes : List UInt8) :
    d.dataStep bytes = (d.config.parseStep bytes).map (fun r => (d.rxReceived r.1, r.2)) := by
  unfold dataStep PdcpDlConfig.parseStep
  dsimp only
  split_ifs <;> rfl

/-- The loop stores what it reads. -/
theorem dataLoop_eq (d : PdcpDl) (bytes : List UInt8) :
    d.dataLoop bytes = (d.config.parse bytes).map (fun r => (r.1.foldl rxReceived d, r.2)) := by
  induction hn : bytes.length using Nat.strongRecOn generalizing d bytes with
  | _ n ih =>
      rw [dataLoop, PdcpDlConfig.parse, dataStep_eq]
      split_ifs with hempty
      · rfl
      · cases hparse : d.config.parseStep bytes with
        | error status => rfl
        | ok r =>
            obtain ⟨g, rest⟩ := r
            dsimp only [Except.map]
            split_ifs with hlt
            · rw [ih rest.length (hn ▸ hlt) _ _ rfl, rxReceived_config]
              cases d.config.parse rest <;> rfl
            · rfl

theorem onPdcpData_eq (d : PdcpDl) {pdcp : List UInt8} (hne : pdcp ≠ []) :
    d.onPdcpData pdcp =
      match d.config.parse pdcp with
      | none => none
      | some (gs, some status) => some ({ gs.foldl rxReceived d with status := status }, false)
      | some (gs, none) =>
        some (if d.config.allowReordering then (gs.foldl rxReceived d).flushCompletedInOrder
          else gs.foldl rxReceived d, true) := by
  have hempty : pdcp.isEmpty = false := by
    rwa [List.isEmpty_eq_false_iff]
  rw [onPdcpData, hempty, dataLoop_eq]
  rcases d.config.parse pdcp with _ | ⟨gs, _ | status⟩
  · rfl
  · simp only [Option.map_some, foldl_rxReceived_config, Bool.false_eq_true, if_false]
  · rfl

/-- The ways a call can go: it does not return, the input is empty, it stores what
it has read and fails, or it stores everything and flushes if reordering is on. -/
theorem onPdcpData_cases (d : PdcpDl) (pdcp : List UInt8) :
    (pdcp ≠ [] ∧ d.config.parse pdcp = none ∧ d.onPdcpData pdcp = none) ∨
    (pdcp = [] ∧ d.onPdcpData pdcp = some ({ d with status := .inputEmpty }, false)) ∨
    (∃ gs status, pdcp ≠ [] ∧ d.config.parse pdcp = some (gs, some status) ∧
      d.onPdcpData pdcp = some ({ gs.foldl rxReceived d with status := status }, false)) ∨
    (∃ gs, pdcp ≠ [] ∧ d.config.parse pdcp = some (gs, none) ∧
      d.onPdcpData pdcp = some
        (if d.config.allowReordering then (gs.foldl rxReceived d).flushCompletedInOrder
          else gs.foldl rxReceived d, true)) := by
  by_cases hne : pdcp = []
  · subst hne
    exact Or.inr (Or.inl ⟨rfl, rfl⟩)
  · have hcall := d.onPdcpData_eq hne
    rcases hparse : d.config.parse pdcp with _ | ⟨gs, _ | status⟩
    · rw [hparse] at hcall
      exact Or.inl ⟨hne, rfl, hcall⟩
    · rw [hparse] at hcall
      exact Or.inr (Or.inr (Or.inr ⟨gs, hne, rfl, hcall⟩))
    · rw [hparse] at hcall
      exact Or.inr (Or.inr (Or.inl ⟨gs, status, hne, rfl, hcall⟩))

end PdcpDl

end Winject.Pdcp
