import Winject.Receive.SegmentLoops

/-!
# Loops that are left

`SIZE` is compared with the bytes that are left only.  A segment whose `SIZE` is zero
passes the checks of both receivers with a payload size that has wrapped around, and
it leaves the cursor where it is.  `pdcp_dl::on_pdcp_data` reads it again and again;
`PDCP::on_rx` does so unless the segment reports a radio link failure.

The loop of `update_rx_sn` is left from every state.  `rx_sn` may pass `sn` and wrap
around on the way: past `sn` it runs on deliveries, and each of them takes a complete
record away.

## Main results

* `segment_loops_progress_iff` — when the loops finish with every iteration moving the
  cursor.
* `update_rx_sn_ends` — `update_rx_sn` comes to an end.
-/

/-! ## `pdcp_dl::on_pdcp_data` -/

namespace Winject.Pdcp.PdcpDl

open Winject.Frames
open Winject.Lib.Loops

/-- The cursor comes to no segment of size zero. -/
def SizesNonzero (cfg : PdcpDlConfig) (bytes : List UInt8) : Prop :=
  ∀ rest, Visits cfg.walk bytes rest → cfg.layout.headerSize ≤ rest.length →
    cfg.layout.sizeAt rest ≠ 0

/-- A segment of size zero at the front passes the checks and stays there. -/
theorem walk_of_zero {cfg : PdcpDlConfig} {bytes : List UInt8}
    (hheader : cfg.layout.headerSize ≤ bytes.length) (hzero : cfg.layout.sizeAt bytes = 0) :
    cfg.walk bytes = some bytes := by
  have hpos := headerSize_ge cfg.layout
  rw [PdcpDlConfig.walk_eq_some_iff, PdcpDlConfig.parseStep_ok_iff, hzero]
  exact ⟨hheader, Nat.zero_le _, by omega, rfl, rfl⟩

/-- The loop does not come out of a segment of size zero. -/
theorem not_ends_of_zero {d : PdcpDl} {bytes rest : List UInt8}
    (hvisit : Visits d.config.walk bytes rest)
    (hheader : d.config.layout.headerSize ≤ rest.length)
    (hzero : d.config.layout.sizeAt rest = 0) : ¬ Ends loopStep (d, bytes) := by
  obtain ⟨e, hloop, hconfig⟩ := visits_of_walk d hvisit
  refine not_ends_of_trap (P := fun t => t.1.config = d.config ∧ t.2 = rest) ?_ hloop
    ⟨hconfig, rfl⟩
  rintro ⟨e', rest'⟩ ⟨hconfig', rfl⟩
  dsimp only at hconfig'
  rw [← hconfig'] at hheader hzero
  refine ⟨_, loopStep_eq_some_iff.mpr ⟨rest', walk_of_zero hheader hzero, rfl⟩, ?_, rfl⟩
  rw [rxReceived_config, hconfig']

/-- **The loop of `on_pdcp_data` progresses** iff the cursor comes to no segment of
size zero. -/
theorem progresses_iff_sizesNonzero (d : PdcpDl) (bytes : List UInt8) :
    Progresses loopStep (fun s => s.2.length) (d, bytes) ↔
      SizesNonzero d.config bytes := by
  constructor
  · intro h rest hvisit hheader hzero
    exact not_ends_of_zero hvisit hheader hzero h.1
  · intro h
    rw [progresses_iff]
    rintro ⟨e, rest⟩ t hvisit hstep
    obtain ⟨hconfig, hwalk⟩ := visits_walk hvisit
    obtain ⟨rest', hnext, rfl⟩ := loopStep_eq_some_iff.mp hstep
    have hparse := PdcpDlConfig.walk_eq_some_iff.mp hnext
    have hheader := (PdcpDlConfig.parseStep_ok_iff.mp hparse).1
    rw [PdcpDlConfig.parseStep_advances_iff hparse]
    dsimp only at hconfig hwalk
    rw [hconfig] at hheader ⊢
    exact h rest hwalk hheader

end Winject.Pdcp.PdcpDl

/-! ## `PDCP::on_rx` -/

namespace Winject.LegacyPdcp.PdcpRx

open Winject.Frames
open Winject.Lib.Loops

/-- Every segment of size zero that the loop comes to reports a radio link failure. -/
def ZeroSizesReported (d : PdcpRx) (bytes : List UInt8) : Prop :=
  ∀ e rest, Visits loopStep (d, bytes) (e, rest) →
    e.config.layout.headerSize < rest.length → e.config.layout.sizeAt rest = 0 →
      e.reportsRlf (e.config.layout.received rest).sn = true

/-- **The loop of `on_rx` progresses** iff the segments of size zero report radio link
failures. -/
theorem progresses_iff_zeroSizesReported (d : PdcpRx) (bytes : List UInt8) :
    Progresses loopStep (fun s => s.2.length) (d, bytes) ↔ d.ZeroSizesReported bytes := by
  rw [progresses_iff]
  constructor
  · intro h e rest hvisit hheader hzero
    by_contra hrlf
    rw [Bool.not_eq_true] at hrlf
    have hlt := h _ _ hvisit
      (loopStep_eq_some_iff.mpr ⟨hheader, by omega, hrlf, rfl⟩)
    rw [hzero, List.drop_zero] at hlt
    exact Nat.lt_irrefl _ hlt
  · rintro h ⟨e, rest⟩ t hvisit hstep
    obtain ⟨hheader, hsize, hrlf, rfl⟩ := loopStep_eq_some_iff.mp hstep
    have hne : e.config.layout.sizeAt rest ≠ 0 := by
      intro hzero
      rw [h e rest hvisit hheader hzero] at hrlf
      cases hrlf
    show (rest.drop (e.config.layout.sizeAt rest)).length < rest.length
    rw [List.length_drop]
    omega

/-- Without radio link failures the loop does not come out of a segment of size
zero. -/
theorem not_ends_of_zero {d : PdcpRx} {bytes : List UInt8}
    (hallow : d.config.allowRlf = false) (hheader : d.config.layout.headerSize < bytes.length)
    (hzero : d.config.layout.sizeAt bytes = 0) : ¬ Ends loopStep (d, bytes) := by
  refine not_ends_of_trap (P := fun t => t.1.config = d.config ∧ t.2 = bytes) ?_
    Visits.start ⟨rfl, rfl⟩
  rintro ⟨e, bytes'⟩ ⟨hconfig, rfl⟩
  dsimp only at hconfig
  have hrlf : e.reportsRlf (e.config.layout.received bytes').sn = false := by
    unfold reportsRlf
    rw [hconfig, hallow, Bool.and_false, Bool.and_false]
  rw [← hconfig] at hheader hzero
  have hsize : e.config.layout.sizeAt bytes' ≤ bytes'.length := by
    rw [hzero]
    exact Nat.zero_le _
  refine ⟨_, loopStep_eq_some_iff.mpr ⟨hheader, hsize, hrlf, rfl⟩, ?_, ?_⟩
  · exact (rxSegment_setup ..).config.trans hconfig
  · rw [hzero]
    rfl

/-! ### `PDCP::update_rx_sn` -/

/-- An iteration of the loop of `update_rx_sn` that comes back to its head. -/
def updateNext (sn : Nat) (fastForward : Bool) (d : PdcpRx) : Option PdcpRx :=
  let (d', more) := d.updateStep sn fastForward
  if more then some d' else none

theorem updateNext_eq_some_iff {sn : Nat} {fastForward : Bool} {d d' : PdcpRx} :
    updateNext sn fastForward d = some d' ↔
      (d.updateStep sn fastForward).2 = true ∧ (d.updateStep sn fastForward).1 = d' := by
  simp [updateNext]

/-- The loop from the next state on is the rest of the loop. -/
theorem updateLoop_of_next {sn : Nat} {fastForward : Bool} {d d' : PdcpRx}
    (h : updateNext sn fastForward d = some d') :
    d.updateLoop sn fastForward = d'.updateLoop sn fastForward := by
  obtain ⟨hmore, rfl⟩ := updateNext_eq_some_iff.mp h
  exact updateLoop_of_more hmore

theorem updateLoop_of_visits {sn : Nat} {fastForward : Bool} {d e : PdcpRx}
    (h : Visits (updateNext sn fastForward) d e) :
    d.updateLoop sn fastForward = e.updateLoop sn fastForward := by
  induction h with
  | start => rfl
  | next _ hstep ih => exact ih.trans (updateLoop_of_next hstep)

/-- Every iteration lowers the number of complete records, or keeps it and comes
closer to `sn`. -/
theorem updateMeasure_next {sn : Nat} {fastForward : Bool} {d d' : PdcpRx}
    (h : updateNext sn fastForward d = some d') :
    d'.updateMeasure sn < d.updateMeasure sn := by
  obtain ⟨hmore, rfl⟩ := updateNext_eq_some_iff.mp h
  exact updateStep_measure hmore

/-- **The loop of `update_rx_sn` ends** from every state and for all arguments, and
the last iteration makes the state that the call leaves. -/
theorem update_rx_sn_ends (d : PdcpRx) (sn : Nat) (fastForward : Bool) :
    Ends (updateNext sn fastForward) d ∧
      ∀ e, Visits (updateNext sn fastForward) d e → updateNext sn fastForward e = none →
        d.updateLoop sn fastForward = (e.updateStep sn fastForward).1 := by
  constructor
  · exact ends_of_measure (fun e => e.updateMeasure sn) fun e e' _ => updateMeasure_next
  · intro e hvisit hnone
    rw [updateLoop_of_visits hvisit]
    apply updateLoop_of_stop
    intro hmore
    rw [updateNext_eq_some_iff.mpr ⟨hmore, rfl⟩] at hnone
    cases hnone

end Winject.LegacyPdcp.PdcpRx

/-! ## Both receivers -/

namespace Winject.Receive

open Winject.Frames
open Winject.Lib.Loops
open Winject.LegacyPdcp (PdcpRx)
open Winject.Pdcp (PdcpDl)

/-- **The segment loops finish, every iteration that does not leave them lowering
`available_data`,** iff no segment of size zero is reached, in `PDCP` none that does
not report a radio link failure. -/
theorem segment_loops_progress_iff (d : PdcpDl) (p : PdcpRx) (bytes : List UInt8) :
    (Progresses PdcpDl.loopStep (fun s => s.2.length) (d, bytes) ↔
      PdcpDl.SizesNonzero d.config bytes) ∧
    (Progresses PdcpRx.loopStep (fun s => s.2.length) (p, bytes) ↔
      p.ZeroSizesReported bytes) :=
  ⟨d.progresses_iff_sizesNonzero bytes, p.progresses_iff_zeroSizesReported bytes⟩

/-- Neither loop finishes on three zero bytes. -/
theorem zero_bytes_loop :
    ¬ Ends PdcpDl.loopStep (PdcpDl.init {}, [0, 0, 0]) ∧
      ¬ Ends PdcpRx.loopStep (PdcpRx.enabled {}, [0, 0, 0]) :=
  ⟨PdcpDl.not_ends_of_zero Visits.start (by decide) (by decide),
    PdcpRx.not_ends_of_zero rfl (by decide) (by decide)⟩

end Winject.Receive
