import Winject.Pdcp.Records

/-!
# Frames that a malformed PDU holds back

With reordering on, `on_pdcp_data` flushes once, behind the last segment.  A call that
fails returns before that: what its valid segments have completed stays in its record,
although it is the next frame.

## Main results

* `noneHeld_foldl_iff` — storing segments leaves no complete record of the next number
  iff none of them completes one.
* `none_held_back_iff` — the runs behind whose calls no frame is held back.
-/

namespace Winject.Pdcp.PdcpDl

open Winject.Frames
open Winject.Lib.Runs

/-- One of the segments, stored in order, leaves a complete record of the next number. -/
def completesNext (d : PdcpDl) : List Received → Bool
  | [] => false
  | g :: gs =>
    (g.sn == d.nextExpectedSn && (d.recordBehind g).isComplete) ||
      (d.rxReceived g).completesNext gs

/-- The valid segments in front of a malformed one complete no next frame. -/
def FailsWithoutFrame (d : PdcpDl) (call : DlCall) : Prop :=
  ∀ pdcp gs status, call = .data pdcp → pdcp ≠ [] → d.config.allowReordering = true →
    d.config.parse pdcp = some (gs, some status) → d.completesNext gs = false

/-- A complete record stays. -/
theorem foldl_keeps_complete {d : PdcpDl} (hre : d.config.allowReordering = true) {sn : Nat}
    {st : ReassemblyState} (h : d.Holds sn st) (hc : st.isComplete = true)
    (gs : List Received) :
    ∃ st', (gs.foldl rxReceived d).Holds sn st' ∧ st'.isComplete = true := by
  induction gs generalizing d st with
  | nil => exact ⟨st, h, hc⟩
  | cons g gs ih =>
      obtain ⟨st', h', hc'⟩ := storeReceived_keeps_complete h hc g
      rw [← rxReceived_of_reordering hre] at h'
      exact ih (by rwa [rxReceived_config]) h' hc'

theorem foldl_rxReceived_next (gs : List Received) (d : PdcpDl) :
    (gs.foldl rxReceived d).nextExpectedSn = d.nextExpectedSn := by
  induction gs generalizing d with
  | nil => rfl
  | cons g gs ih => rw [List.foldl_cons, ih, (d.rxReceived_delivers g).1]

/-- A segment that completes no next frame. -/
theorem NoneHeld.rxReceived {d : PdcpDl} (h : d.NoneHeld)
    (hre : d.config.allowReordering = true) {g : Received}
    (hg : (g.sn == d.nextExpectedSn && (d.recordBehind g).isComplete) = false) :
    (d.rxReceived g).NoneHeld := by
  intro st hholds
  rw [(d.rxReceived_delivers g).1, rxReceived_of_reordering hre] at hholds
  rcases storeReceived_holds hholds with hold | ⟨hsn, rfl⟩
  · exact h st hold
  · rwa [← hsn, beq_self_eq_true, Bool.true_and] at hg

/-- **Storing segments** leaves nothing complete for the next number iff none of them
completes it. -/
theorem noneHeld_foldl_iff {d : PdcpDl} (h : d.NoneHeld)
    (hre : d.config.allowReordering = true) (gs : List Received) :
    (gs.foldl rxReceived d).NoneHeld ↔ d.completesNext gs = false := by
  induction gs generalizing d with
  | nil => exact ⟨fun _ => rfl, fun _ => h⟩
  | cons g gs ih =>
      unfold completesNext
      rw [List.foldl_cons]
      cases hg : (g.sn == d.nextExpectedSn && (d.recordBehind g).isComplete) with
      | false =>
          rw [Bool.false_or]
          exact ih (h.rxReceived hre hg) (by rwa [rxReceived_config])
      | true =>
          rw [Bool.true_or]
          rw [Bool.and_eq_true, beq_iff_eq] at hg
          refine ⟨fun hnone => ?_, (fun hfalse => by cases hfalse)⟩
          have hself := d.storeReceived_holds_self g
          rw [← rxReceived_of_reordering hre, hg.1] at hself
          obtain ⟨st, hholds, hc⟩ := foldl_keeps_complete
            (by rwa [rxReceived_config]) hself hg.2 gs
          have hnext : (gs.foldl PdcpDl.rxReceived (d.rxReceived g)).nextExpectedSn =
              d.nextExpectedSn := by
            rw [foldl_rxReceived_next, (d.rxReceived_delivers g).1]
          have hfalse := hnone st (by rwa [hnext])
          rw [hc] at hfalse
          cases hfalse

/-! ## Runs -/

/-- With reordering on, occupied slots are in their places. -/
def PlacedIfReordering (d : PdcpDl) : Prop := d.config.allowReordering = true → d.Placed

/-- With reordering on, no frame is held back. -/
def NoneHeldBack (d : PdcpDl) : Prop := d.config.allowReordering = true → d.NoneHeld

theorem init_not_holds (cfg : PdcpDlConfig) (sn : Nat) (st : ReassemblyState) :
    ¬ (init cfg).Holds sn st := by
  rintro (⟨slot, hmem, hv, -⟩ | hmem)
  · rw [List.eq_of_mem_replicate hmem] at hv
    cases hv
  · cases hmem

theorem init_placed (cfg : PdcpDlConfig) : (init cfg).Placed := by
  intro i slot hget hv
  rw [List.eq_of_mem_replicate (List.mem_of_getElem? hget)] at hv
  cases hv

theorem Placed.foldl_rxReceived {d : PdcpDl} (h : d.Placed)
    (hre : d.config.allowReordering = true) (gs : List Received) :
    (gs.foldl PdcpDl.rxReceived d).Placed := by
  induction gs generalizing d with
  | nil => exact h
  | cons g gs ih =>
      refine ih ?_ (by rwa [rxReceived_config])
      rw [rxReceived_of_reordering hre]
      exact h.storeReceived g

theorem Placed.flush {d : PdcpDl} (h : d.Placed) : d.flushCompletedInOrder.Placed :=
  flush_invariant (fun _ _ he hstep => he.flushStep hstep) h

/-- Behind a flush nothing is held back. -/
theorem Placed.noneHeld_flush {d : PdcpDl} (h : d.Placed) : d.flushCompletedInOrder.NoneHeld := by
  obtain ⟨-, -, hplaced, hstop⟩ :=
    flush_rule (P := fun _ e => e.Placed) (fun _ _ _ he hs => he.flushStep hs) 0 d h
  exact noneHeld_of_flushStep hplaced hstop

/-- A call on bytes, seen from the records. -/
theorem data_noneHeldBack_iff {d d' : PdcpDl} {pdcp : List UInt8}
    (hplaced : d.PlacedIfReordering) (h : dlCall d (.data pdcp) = some d') :
    d'.PlacedIfReordering ∧
      (d.NoneHeldBack → (d'.NoneHeldBack ↔ d.FailsWithoutFrame (.data pdcp))) := by
  obtain ⟨⟨e, returned⟩, hcall, rfl⟩ := Option.map_eq_some_iff.mp h
  rcases d.onPdcpData_cases pdcp with ⟨-, -, hres⟩ | ⟨rfl, hres⟩ |
      ⟨gs, status, hne, hparse, hres⟩ | ⟨gs, hne, hparse, hres⟩
  · rw [hres] at hcall
    cases hcall
  · rw [hres] at hcall
    cases hcall
    refine ⟨hplaced, fun hnone => ⟨fun _ => ?_, fun _ => hnone⟩⟩
    rintro pdcp gs status heq hne -
    cases heq
    exact absurd rfl hne
  · rw [hres] at hcall
    cases hcall
    refine ⟨fun hre => ?_, fun hnone => ⟨fun hheld => ?_, fun hfails hre => ?_⟩⟩
    · dsimp only at hre
      rw [foldl_rxReceived_config] at hre
      exact (hplaced hre).foldl_rxReceived hre gs
    · rintro pdcp' gs' status' heq - hre hparse'
      cases heq
      rw [hparse] at hparse'
      cases hparse'
      refine (noneHeld_foldl_iff (hnone hre) hre gs).mp (hheld ?_)
      dsimp only
      rwa [foldl_rxReceived_config]
    · dsimp only at hre
      rw [foldl_rxReceived_config] at hre
      exact (noneHeld_foldl_iff (hnone hre) hre gs).mpr (hfails pdcp gs status rfl hne hre hparse)
  · rw [hres] at hcall
    cases hcall
    have htrivial : d.FailsWithoutFrame (.data pdcp) := by
      rintro pdcp' gs' status' heq - - hparse'
      cases heq
      rw [hparse] at hparse'
      cases hparse'
    cases hre : d.config.allowReordering with
    | true =>
        rw [if_pos rfl]
        have hstored := (hplaced hre).foldl_rxReceived hre gs
        exact ⟨fun _ => hstored.flush, fun _ => ⟨fun _ => htrivial, fun _ _ =>
          hstored.noneHeld_flush⟩⟩
    | false =>
        rw [if_neg Bool.false_ne_true]
        have hoff : ¬ (gs.foldl PdcpDl.rxReceived d).config.allowReordering = true := by
          rw [foldl_rxReceived_config, hre]
          exact Bool.false_ne_true
        exact ⟨fun hon => absurd hon hoff, fun _ => ⟨fun _ => htrivial, fun _ hon =>
          absurd hon hoff⟩⟩

/-- The other calls hold nothing back. -/
theorem call_noneHeldBack_iff {d d' : PdcpDl} {call : DlCall} (hplaced : d.PlacedIfReordering)
    (h : dlCall d call = some d') :
    d'.PlacedIfReordering ∧
      (d.NoneHeldBack → (d'.NoneHeldBack ↔ d.FailsWithoutFrame call)) := by
  have hfails : (∀ pdcp, call ≠ .data pdcp) → d.FailsWithoutFrame call :=
    fun hother pdcp _ _ heq => absurd heq (hother pdcp)
  cases call with
  | data pdcp => exact data_noneHeldBack_iff hplaced h
  | pop =>
      cases h
      have hpop : d.pop.1.config = d.config ∧ d.pop.1.reorderRing = d.reorderRing ∧
          d.pop.1.overflowDeque = d.overflowDeque ∧
            d.pop.1.nextExpectedSn = d.nextExpectedSn := by
        unfold pop
        split <;> exact ⟨rfl, rfl, rfl, rfl⟩
      obtain ⟨hconfig, hring, hover, hnext⟩ := hpop
      refine ⟨fun hre => ?_, fun hnone => ⟨fun _ => hfails (fun _ heq => by cases heq),
        fun _ hre => ?_⟩⟩
      · rw [hconfig] at hre
        intro i slot hget hv
        rw [slotIndex_of_length (congrArg List.length hring)]
        rw [hring] at hget
        exact hplaced hre i slot hget hv
      · rw [hconfig] at hre
        intro st hholds
        unfold Holds at hholds
        rw [hring, hover, hnext] at hholds
        exact hnone hre st hholds
  | reset =>
      cases h
      exact ⟨fun _ => init_placed _, fun _ => ⟨fun _ => hfails (fun _ heq => by cases heq),
        fun _ _ st hholds => absurd hholds (init_not_holds _ _ st)⟩⟩
  | reconfigure cfg =>
      cases h
      exact ⟨fun _ => init_placed _, fun _ => ⟨fun _ => hfails (fun _ heq => by cases heq),
        fun _ _ st hholds => absurd hholds (init_not_holds _ _ st)⟩⟩

/-- A call that does not return fails without a frame. -/
theorem failsWithoutFrame_of_none {d : PdcpDl} {call : DlCall} (h : dlCall d call = none) :
    d.FailsWithoutFrame call := by
  rintro pdcp gs status rfl hne - hparse
  have hcall := d.onPdcpData_eq hne
  rw [hparse] at hcall
  have hsome : dlCall d (.data pdcp) = some { gs.foldl rxReceived d with status := status } := by
    show (d.onPdcpData pdcp).map Prod.fst = _
    rw [hcall]
    rfl
  rw [hsome] at h
  cases h

/-- **No frame is held back**, behind any call of a run, iff no malformed PDU of the run
completes the next frame in front of its malformed segment. -/
theorem none_held_back_iff (cfg : PdcpDlConfig) (calls : List DlCall) :
    Throughout dlCall NoneHeldBack (init cfg) calls ↔
      Calls dlCall FailsWithoutFrame (init cfg) calls := by
  refine throughout_iff_calls (I := PlacedIfReordering) ?_ ?_ ?_ (fun _ => init_placed cfg)
    (fun _ st hholds => absurd hholds (init_not_holds cfg _ st))
  · exact fun d call d' hplaced h => (call_noneHeldBack_iff hplaced h).1
  · exact fun d call d' hplaced hnone h => (call_noneHeldBack_iff hplaced h).2 hnone
  · exact fun d call h => failsWithoutFrame_of_none h

/-- Frame 0 in one segment, and a byte behind it: the call fails and keeps the frame. -/
theorem trailing_byte_holds_back :
    ¬ Throughout dlCall NoneHeldBack (init { allowReordering := true, reorderSize := 1 })
      [.data [0x80, 5, 0, 0, 7, 9]] := by
  have hread : ({ allowReordering := true, reorderSize := 1 } : PdcpDlConfig).parseStep
      [0x80, 5, 0, 0, 7, 9] =
        .ok ((⟨true, false⟩ : Layout).received [0x80, 5, 0, 0, 7, 9], [9]) :=
    PdcpDlConfig.parseStep_ok_iff.mpr ⟨by decide, by decide, by decide, rfl, by decide⟩
  have hparse : ({ allowReordering := true, reorderSize := 1 } : PdcpDlConfig).parse
      [0x80, 5, 0, 0, 7, 9] =
        some ([(⟨true, false⟩ : Layout).received [0x80, 5, 0, 0, 7, 9]],
          some .segmentScanFailed) := by
    rw [PdcpDlConfig.parse_of_ok hread (by decide),
      PdcpDlConfig.parse_of_error (by decide) (PdcpDlConfig.parseStep_of_short (by decide))]
    rfl
  intro h
  have hfails : (init { allowReordering := true, reorderSize := 1 }).FailsWithoutFrame
      (.data [0x80, 5, 0, 0, 7, 9]) := by
    cases hcall : dlCall (init { allowReordering := true, reorderSize := 1 })
        (.data [0x80, 5, 0, 0, 7, 9]) with
    | none => exact failsWithoutFrame_of_none hcall
    | some d' =>
        have hiff := (data_noneHeldBack_iff (fun _ => init_placed _) hcall).2
          (fun _ st hholds => absurd hholds (init_not_holds _ _ st))
        exact hiff.mp (h.2 d' hcall).first
  have hnothing := hfails _ _ _ rfl (by decide) rfl hparse
  revert hnothing
  decide

end Winject.Pdcp.PdcpDl
