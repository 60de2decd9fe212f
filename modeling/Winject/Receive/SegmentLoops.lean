import Winject.LegacyPdcp.Rx
import Winject.Lib.Loops
import Winject.Pdcp.Parse

/-!
# The segment loops of the two receivers

The loops of `pdcp_dl::on_pdcp_data` and `PDCP::on_rx`, one iteration at a time: the
state of the loop is the state of the receiver and the bytes from the cursor on.

## Main results

* `PdcpDl.loopStep_eq_some_iff`, `PdcpRx.loopStep_eq_some_iff` — when an iteration does
  not leave the loop, and what it does.
* `PdcpDl.dataLoop_isSome_iff`, `PdcpRx.rxLoop_isSome_iff` — the loops of the models
  have a result iff every iteration moves the cursor.
-/

/-! ## `pdcp_dl::on_pdcp_data` -/

namespace Winject.Pdcp

open Winject.Frames
open Winject.Lib.Loops

/-- The bytes behind the segment at the front, if it passes the checks. -/
def PdcpDlConfig.walk (cfg : PdcpDlConfig) (bytes : List UInt8) : Option (List UInt8) :=
  match cfg.parseStep bytes with
  | .ok r => some r.2
  | .error _ => none

theorem PdcpDlConfig.walk_eq_some_iff {cfg : PdcpDlConfig} {bytes rest : List UInt8} :
    cfg.walk bytes = some rest ↔ cfg.parseStep bytes = .ok (cfg.layout.received bytes, rest) := by
  unfold walk
  cases hparse : cfg.parseStep bytes with
  | error status => exact ⟨(fun h => by cases h), (fun h => by cases h)⟩
  | ok r =>
      obtain ⟨g, rest'⟩ := r
      obtain ⟨-, -, -, rfl, -⟩ := PdcpDlConfig.parseStep_ok_iff.mp hparse
      constructor
      · intro h
        cases h
        rfl
      · intro h
        cases h
        rfl

namespace PdcpDl

/-- One iteration of the loop of `on_pdcp_data`; `none` leaves the loop. -/
def loopStep (s : PdcpDl × List UInt8) : Option (PdcpDl × List UInt8) :=
  if s.2.isEmpty then none else
  match s.1.dataStep s.2 with
  | .ok r => some r
  | .error _ => none

/-- An iteration that does not leave the loop stores the segment at the front. -/
theorem loopStep_eq_some_iff {d : PdcpDl} {bytes : List UInt8} {t : PdcpDl × List UInt8} :
    loopStep (d, bytes) = some t ↔
      ∃ rest, d.config.walk bytes = some rest ∧
        t = (d.rxReceived (d.config.layout.received bytes), rest) := by
  unfold loopStep
  dsimp only
  rw [dataStep_eq]
  by_cases hempty : bytes.isEmpty
  · rw [if_pos hempty]
    rw [List.isEmpty_iff] at hempty
    subst hempty
    refine ⟨(fun h => by cases h), ?_⟩
    rintro ⟨rest, hwalk, -⟩
    have hheader := (PdcpDlConfig.parseStep_ok_iff.mp
      (PdcpDlConfig.walk_eq_some_iff.mp hwalk)).1
    have hpos := headerSize_ge d.config.layout
    rw [List.length_nil] at hheader
    omega
  · rw [if_neg hempty]
    cases hparse : d.config.parseStep bytes with
    | error status =>
        refine ⟨(fun h => by cases h), ?_⟩
        rintro ⟨rest, hwalk, -⟩
        rw [PdcpDlConfig.walk_eq_some_iff, hparse] at hwalk
        cases hwalk
    | ok r =>
        obtain ⟨g, rest'⟩ := r
        obtain ⟨-, -, -, rfl, -⟩ := PdcpDlConfig.parseStep_ok_iff.mp hparse
        constructor
        · intro h
          cases h
          exact ⟨rest', PdcpDlConfig.walk_eq_some_iff.mpr hparse, rfl⟩
        · rintro ⟨rest, hwalk, rfl⟩
          rw [PdcpDlConfig.walk_eq_some_iff, hparse] at hwalk
          cases hwalk
          rfl

/-- The cursor of the loop goes through the bytes as `walk` does. -/
theorem visits_walk {d : PdcpDl} {bytes : List UInt8} {t : PdcpDl × List UInt8}
    (h : Visits loopStep (d, bytes) t) :
    t.1.config = d.config ∧ Visits d.config.walk bytes t.2 := by
  induction h with
  | start => exact ⟨rfl, Visits.start⟩
  | @next t t' _ hstep ih =>
      obtain ⟨hconfig, hvisit⟩ := ih
      obtain ⟨rest, hwalk, rfl⟩ := loopStep_eq_some_iff.mp hstep
      rw [hconfig] at hwalk
      exact ⟨by rw [rxReceived_config, hconfig], hvisit.next hwalk⟩

theorem visits_of_walk (d : PdcpDl) {bytes rest : List UInt8}
    (h : Visits d.config.walk bytes rest) :
    ∃ e, Visits loopStep (d, bytes) (e, rest) ∧ e.config = d.config := by
  induction h with
  | start => exact ⟨d, Visits.start, rfl⟩
  | @next rest rest' _ hstep ih =>
      obtain ⟨e, hvisit, hconfig⟩ := ih
      rw [← hconfig] at hstep
      refine ⟨_, hvisit.next (loopStep_eq_some_iff.mpr ⟨rest', hstep, rfl⟩), ?_⟩
      rw [rxReceived_config, hconfig]

/-- The loop has a result iff every iteration moves the cursor. -/
theorem dataLoop_isSome_iff (d : PdcpDl) (bytes : List UInt8) :
    (d.dataLoop bytes).isSome = true ↔
      Progresses loopStep (fun s => s.2.length) (d, bytes) := by
  induction hn : bytes.length using Nat.strongRecOn generalizing d bytes with
  | _ n ih =>
      rw [dataLoop]
      by_cases hempty : bytes.isEmpty
      · rw [if_pos hempty]
        have hnone : loopStep (d, bytes) = none := if_pos hempty
        exact ⟨fun _ => progresses_of_none hnone, fun _ => rfl⟩
      · rw [if_neg hempty]
        cases hstep : d.dataStep bytes with
        | error status =>
            have hnone : loopStep (d, bytes) = none := by
              unfold loopStep
              dsimp only
              rw [if_neg hempty, hstep]
            exact ⟨fun _ => progresses_of_none hnone, fun _ => rfl⟩
        | ok r =>
            obtain ⟨e, rest⟩ := r
            have hsome : loopStep (d, bytes) = some (e, rest) := by
              unfold loopStep
              dsimp only
              rw [if_neg hempty, hstep]
            rw [progresses_of_some hsome]
            dsimp only
            by_cases hlt : rest.length < bytes.length
            · rw [if_pos hlt, ih rest.length (hn ▸ hlt) e rest rfl]
              exact ⟨fun h => ⟨hlt, h⟩, fun h => h.2⟩
            · rw [if_neg hlt]
              exact ⟨(fun h => by cases h), fun h => absurd h.1 hlt⟩

end PdcpDl

end Winject.Pdcp

/-! ## `PDCP::on_rx` -/

namespace Winject.LegacyPdcp

open Winject.Frames
open Winject.Lib.Loops

namespace PdcpRx

/-- A segment of number `sn` makes `on_rx` report a radio link failure. -/
def reportsRlf (d : PdcpRx) (sn : Nat) : Bool :=
  !(d.sync sn).isBefore sn && ((d.sync sn).isOutOfRange sn && d.config.allowRlf)

@[simp] theorem sync_config (d : PdcpRx) (sn : Nat) : (d.sync sn).config = d.config := by
  unfold sync
  split_ifs <;> rfl

/-- The body of the loop leaves it iff it reports a radio link failure. -/
theorem rxSegment_more (d : PdcpRx) (sn offset : Nat) (last : Bool)
    (payload : List (Option UInt8)) :
    (d.rxSegment sn offset last payload).2 = !d.reportsRlf sn := by
  unfold rxSegment reportsRlf
  dsimp only
  rw [sync_config]
  by_cases hbefore : (d.sync sn).isBefore sn = true
  · rw [if_pos hbefore, hbefore]
    rfl
  · rw [if_neg hbefore]
    rw [Bool.not_eq_true] at hbefore
    rw [hbefore]
    by_cases hrlf : ((d.sync sn).isOutOfRange sn && d.config.allowRlf) = true
    · rw [if_pos hrlf, hrlf]
      rfl
    · rw [if_neg hrlf]
      rw [Bool.not_eq_true] at hrlf
      rw [hrlf]
      rfl

/-- One iteration of the loop of `on_rx`; `none` leaves the loop. -/
def loopStep (s : PdcpRx × List UInt8) : Option (PdcpRx × List UInt8) :=
  if s.2.isEmpty then none else
  if (s.1.rxStep s.2).2.2 then some ((s.1.rxStep s.2).1, (s.1.rxStep s.2).2.1) else none

/-- The body of the loop on the segment at the front. -/
def rxReceived (d : PdcpRx) (g : Received) : PdcpRx × Bool :=
  d.rxSegment g.sn g.offset g.last g.payload

/-- With a header and a byte behind it, an iteration reads the fields of the
segment. -/
theorem rxStep_of_header {d : PdcpRx} {bytes : List UInt8}
    (h : d.config.layout.headerSize < bytes.length) :
    d.rxStep bytes =
      if d.config.layout.sizeAt bytes > bytes.length then (d, bytes, false)
      else ((d.rxReceived (d.config.layout.received bytes)).1,
        bytes.drop (d.config.layout.sizeAt bytes),
        (d.rxReceived (d.config.layout.received bytes)).2) := by
  unfold rxStep
  dsimp only
  rw [rescan_view _ _ h.le, scanned_getHeaderSize,
    if_neg (show ¬ d.config.layout.headerSize ≥ bytes.length from Nat.not_le.mpr h)]
  rfl

theorem rxStep_of_short {d : PdcpRx} {bytes : List UInt8}
    (h : bytes.length ≤ d.config.layout.headerSize) : d.rxStep bytes = (d, bytes, false) := by
  unfold rxStep
  dsimp only
  rw [(rescan_frame (view d.config.layout bytes)).2, view_getHeaderSize, if_pos h]

/-- An iteration that does not leave the loop. -/
theorem loopStep_eq_some_iff {d : PdcpRx} {bytes : List UInt8} {t : PdcpRx × List UInt8} :
    loopStep (d, bytes) = some t ↔
      d.config.layout.headerSize < bytes.length ∧
        d.config.layout.sizeAt bytes ≤ bytes.length ∧
          d.reportsRlf (d.config.layout.received bytes).sn = false ∧
            t = ((d.rxReceived (d.config.layout.received bytes)).1,
              bytes.drop (d.config.layout.sizeAt bytes)) := by
  have hpos := headerSize_ge d.config.layout
  unfold loopStep
  dsimp only
  by_cases hheader : d.config.layout.headerSize < bytes.length
  · have hne : bytes.isEmpty = false := by
      rw [List.isEmpty_eq_false_iff, ← List.length_pos_iff]
      omega
    rw [hne, if_neg (by decide), rxStep_of_header hheader]
    by_cases hsize : d.config.layout.sizeAt bytes > bytes.length
    · rw [if_pos hsize]
      exact ⟨(fun h => by cases h), fun h => absurd h.2.1 (Nat.not_le.mpr hsize)⟩
    · rw [if_neg hsize]
      have hmore : (d.rxReceived (d.config.layout.received bytes)).2 =
          !d.reportsRlf (d.config.layout.received bytes).sn := rxSegment_more ..
      dsimp only
      rw [hmore]
      cases hrlf : d.reportsRlf (d.config.layout.received bytes).sn with
      | true => exact ⟨(fun h => by cases h), (fun h => by cases h.2.2.1)⟩
      | false =>
          constructor
          · intro h
            cases h
            exact ⟨hheader, Nat.not_lt.mp hsize, rfl, rfl⟩
          · rintro ⟨-, -, -, rfl⟩
            rfl
  · rw [rxStep_of_short (Nat.not_lt.mp hheader)]
    refine ⟨?_, fun h => absurd h.1 hheader⟩
    intro h
    by_cases hempty : bytes.isEmpty
    · rw [if_pos hempty] at h
      cases h
    · rw [if_neg hempty, if_neg Bool.false_ne_true] at h
      cases h

/-- The loop has a result iff every iteration moves the cursor. -/
theorem rxLoop_isSome_iff (d : PdcpRx) (bytes : List UInt8) :
    (d.rxLoop bytes).isSome = true ↔
      Progresses loopStep (fun s => s.2.length) (d, bytes) := by
  induction hn : bytes.length using Nat.strongRecOn generalizing d bytes with
  | _ n ih =>
      rw [rxLoop_eq]
      by_cases hempty : bytes.isEmpty
      · rw [if_pos hempty]
        have hnone : loopStep (d, bytes) = none := if_pos hempty
        exact ⟨fun _ => progresses_of_none hnone, fun _ => rfl⟩
      · rw [if_neg hempty]
        cases hmore : (d.rxStep bytes).2.2 with
        | false =>
            have hnone : loopStep (d, bytes) = none := by
              unfold loopStep
              dsimp only
              rw [if_neg hempty, hmore]
              rfl
            exact ⟨fun _ => progresses_of_none hnone, fun _ => rfl⟩
        | true =>
            have hsome : loopStep (d, bytes) =
                some ((d.rxStep bytes).1, (d.rxStep bytes).2.1) := by
              unfold loopStep
              dsimp only
              rw [if_neg hempty, hmore]
              rfl
            rw [progresses_of_some hsome, if_neg (by decide)]
            dsimp only
            by_cases hlt : (d.rxStep bytes).2.1.length < bytes.length
            · rw [if_pos hlt, ih _ (hn ▸ hlt) _ _ rfl]
              exact ⟨fun h => ⟨hlt, h⟩, fun h => h.2⟩
            · rw [if_neg hlt]
              exact ⟨(fun h => by cases h), fun h => absurd h.1 hlt⟩

end PdcpRx

end Winject.LegacyPdcp
