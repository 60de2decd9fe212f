import Winject.LegacyLlc.OnRx

/-!
# The payload that `LLC::on_rx` hands over

`on_rx` checks that `SIZE` does not exceed `in_pdu.size`.  The region it passes to the
PDCP starts behind the header and is `in_pdu.size - header` bytes long, whatever
`SIZE` says, and neither of the two is compared with the header size.

## Main results

* `onRx_passed` — the bytes handed over are those of the region.
* `handsOverExactly_iff` — when the region is the payload of the PDU.
-/

namespace Winject.LegacyLlc.Llc

open Winject.Frames
open Winject.Lib.Bytes

/-- The call reaches the data path. -/
def receivesData (l : Llc) (info : RxInfo) : Bool :=
  !(!l.isRxEnabled && l.rxConfig.autoInitOnRx) && l.accepts info && !(l.rxPdu info).getA

/-- `in_pdu` as it is passed to `pdcp.on_rx`: the distance of its base from the base
of the PDU, and its size, a difference of `size_t`. -/
def handedOver (l : Llc) (info : RxInfo) : Option (Nat × Nat) :=
  if l.receivesData info then
    some ((l.rxPdu info).getHeaderSize,
      (info.size + 2 ^ 64 - (l.rxPdu info).getHeaderSize) % 2 ^ 64)
  else none

/-- The hand-over of a received PDU is exact. -/
structure HandsOverExactly (l : Llc) (info : RxInfo) : Prop where
  region : ∀ start size, l.handedOver info = some (start, size) →
    start = (l.rxPdu info).getHeaderSize ∧ start + size = (l.rxPdu info).getSIZE ∧
      start + size ≤ info.size
  rejected : (l.rxPdu info).getSIZE < (l.rxPdu info).getHeaderSize →
    (l.onRx info).llc = l ∧ (l.onRx info).passed = none

theorem onRx_of_init {l : Llc} {info : RxInfo}
    (hinit : (!l.isRxEnabled && l.rxConfig.autoInitOnRx) = true) :
    l.onRx info = { llc := l, onInit := true } := by
  unfold onRx
  rw [hinit]
  rfl

/-- What a call does that does not reach the data path. -/
theorem onRx_of_not_receivesData {l : Llc} {info : RxInfo} (h : l.receivesData info = false) :
    (l.onRx info).passed = none ∧
      ((l.onRx info).llc = l ∨
        (l.rxPdu info).getA = true ∧
          (l.onRx info).llc = l.mark (l.ackTargets (ackEntries (l.rxPdu info)))) := by
  cases hinit : (!l.isRxEnabled && l.rxConfig.autoInitOnRx) with
  | true =>
      rw [onRx_of_init hinit]
      exact ⟨rfl, Or.inl rfl⟩
  | false =>
      cases hacc : l.accepts info with
      | false =>
          rw [onRx_of_refused hinit hacc]
          exact ⟨rfl, Or.inl rfl⟩
      | true =>
          have hA : (l.rxPdu info).getA = true := by
            unfold receivesData at h
            rw [hinit, hacc] at h
            simpa using h
          rw [onRx_of_ack hinit hacc hA]
          exact ⟨rfl, Or.inr ⟨hA, rfl⟩⟩

theorem onRx_of_receivesData {l : Llc} {info : RxInfo} (h : l.receivesData info = true) :
    (l.onRx info).passed = some (l.rxPayload info) := by
  unfold receivesData at h
  simp only [Bool.and_eq_true, Bool.not_eq_true'] at h
  exact (onRx_of_data h.1.1 h.1.2 h.2).1

/-- **The bytes handed over** are those of the region. -/
theorem onRx_passed (l : Llc) (info : RxInfo) :
    (l.onRx info).passed =
      (l.handedOver info).map (fun r => ((l.rxPdu info).base.drop r.1).take r.2) := by
  unfold handedOver
  cases h : l.receivesData info with
  | true => rw [onRx_of_receivesData h]; rfl
  | false => rw [(onRx_of_not_receivesData h).1]; rfl

/-- An ACK PDU that is shorter than its header has no entries. -/
theorem ackEntries_of_short {p : LlcPdu} (h : p.getSIZE < p.getHeaderSize) :
    ackEntries p = [] := by
  have hstop : ∀ n, (List.range n).takeWhile
      (fun i => decide (p.getHeaderSize + i * 2 ≤ p.getSIZE)) = [] := by
    intro n
    cases n with
    | zero => rfl
    | succ n =>
        rw [List.range_succ_eq_map, List.takeWhile_cons_of_neg]
        rw [decide_eq_true_eq]
        omega
  unfold ackEntries
  rw [hstop]
  rfl

/-- The checks accept a PDU only if it holds its `SIZE` bytes. -/
theorem accepts_size {l : Llc} {info : RxInfo} (h : l.accepts info = true) :
    (l.rxPdu info).getSIZE ≤ info.size := by
  rw [rxPdu_getSIZE]
  by_contra hgt
  unfold accepts at h
  dsimp only at h
  rw [if_pos (Nat.not_le.mp hgt)] at h
  cases h

/-- **The hand-over is exact** iff a PDU that reaches the data path has a `SIZE` that
covers the header and is all of `in_pdu.size`, a `size_t`. -/
theorem handsOverExactly_iff (l : Llc) (info : RxInfo) (hsize : info.size < 2 ^ 64) :
    l.HandsOverExactly info ↔
      (l.receivesData info = true →
        (l.rxPdu info).getHeaderSize ≤ (l.rxPdu info).getSIZE ∧
          (l.rxPdu info).getSIZE = info.size) := by
  constructor
  · intro h hdata
    have hregion := h.region _ _ (if_pos hdata)
    have hcovers : ¬ (l.rxPdu info).getSIZE < (l.rxPdu info).getHeaderSize := by
      intro hlt
      have hnone := (h.rejected hlt).2
      rw [onRx_of_receivesData hdata] at hnone
      cases hnone
    have hle := Nat.not_lt.mp hcovers
    have hacc : l.accepts info = true := by
      unfold receivesData at hdata
      simp only [Bool.and_eq_true] at hdata
      exact hdata.1.2
    have hfit := accepts_size hacc
    refine ⟨hle, ?_⟩
    have hsum := hregion.2.1
    omega
  · intro h
    refine ⟨?_, ?_⟩
    · intro start size hhand
      unfold handedOver at hhand
      split_ifs at hhand with hdata
      obtain ⟨rfl, rfl⟩ := Prod.mk.inj (Option.some.inj hhand)
      obtain ⟨hcovers, hall⟩ := h hdata
      refine ⟨rfl, ?_, ?_⟩ <;> omega
    · intro hlt
      have hdata : l.receivesData info = false := by
        by_contra hdata
        rw [Bool.not_eq_false] at hdata
        exact absurd (h hdata).1 (Nat.not_le.mpr hlt)
      obtain ⟨hpassed, hllc | ⟨-, hllc⟩⟩ := onRx_of_not_receivesData hdata
      · exact ⟨hllc, hpassed⟩
      · rw [ackEntries_of_short hlt] at hllc
        exact ⟨hllc.trans (mark_nil l), hpassed⟩

/-- A PDU of three bytes on a channel with a checksum, whose last four bytes are the
checksum of these three. -/
def shortPdu : RxInfo := ⟨[0, 0, 3] ++ be32 (crc32 [0, 0, 3]), 3⟩

/-- A channel whose receiver expects checksums. -/
def crcChannel : Llc := (Llc.new 0 {} { crcType := .crc32 }).setRxEnabled true

/-- The data PDU `00 00 05` with two bytes behind it is handed over exactly. -/
theorem five_bytes_exact : (5 : Nat) < 2 ^ 64 ∧
    ((Llc.new 0 {} {}).setRxEnabled true).HandsOverExactly ⟨[0, 0, 5, 1, 2], 5⟩ :=
  ⟨by decide, (handsOverExactly_iff _ _ (by decide)).mpr (fun _ => by decide)⟩

/-- The PDU is accepted, and what is handed over is four bytes less than nothing. -/
theorem shortPdu_wraps : crcChannel.handedOver shortPdu = some (7, 2 ^ 64 - 4) ∧
    (crcChannel.rxPdu shortPdu).getSIZE < (crcChannel.rxPdu shortPdu).getHeaderSize ∧
      ¬ crcChannel.HandsOverExactly shortPdu := by
  have hhand : crcChannel.handedOver shortPdu = some (7, 2 ^ 64 - 4) := by
    decide +kernel
  refine ⟨hhand, by decide +kernel, fun h => ?_⟩
  have hregion := (h.region _ _ hhand).2.2
  revert hregion
  decide

end Winject.LegacyLlc.Llc
