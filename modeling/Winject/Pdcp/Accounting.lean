import Winject.Pdcp.HeldBack

/-!
# The bytes that wait to be popped

`outstanding_bytes` grows by the `expected_size` of a frame that is handed over and
shrinks by the size of the buffer that is popped.  The two agree unless a segment of
the frame reaches behind the end that its last `LAST` segment gave: `expected_size` is
that end, and the buffer is as long as the segment that reaches furthest.

## Main results

* `receive_bufferLength`, `receive_expectedSize` — the two sizes behind a segment.
* `outstanding_bytes_eq_sum` — the counter is the sum of the sizes that can be popped.
-/

namespace Winject.Pdcp

open Winject.Frames
open Winject.Lib.Bytes
open Winject.Lib.Reassembly
open Winject.Lib.Runs

/-! ## The two sizes of a record -/

namespace ReassemblyState

theorem receive_bufferLength (st : ReassemblyState) (offset : Nat)
    (payload : List (Option UInt8)) (last : Bool) :
    (st.receive offset payload last).buffer.length =
      max st.buffer.length (offset + payload.length) := by
  have hasm := congrArg (fun a => a.buffer.length) (st.receive_asm offset payload last)
  have hgrow : (grow none (offset + payload.length) st.buffer).length =
      max st.buffer.length (offset + payload.length) := grow_length ..
  have habsorb : (st.asm.absorb none offset payload last).buffer.length =
      max st.buffer.length (offset + payload.length) := by
    unfold Assembly.absorb asm
    dsimp only
    split_ifs
    · exact hgrow
    · rw [blit_length _ _ _ (by rw [hgrow]; omega), hgrow]
  exact hasm.trans habsorb

theorem receive_expectedSize (st : ReassemblyState) (offset : Nat)
    (payload : List (Option UInt8)) (last : Bool) :
    (st.receive offset payload last).expectedSize =
      if last then offset + payload.length else st.expectedSize := by
  unfold receive
  dsimp only
  cases last <;> split_ifs <;> rfl

end ReassemblyState

namespace PdcpDl

/-- If the record of the segment is complete with it, its furthest segment ends where
its last `LAST` segment does. -/
def EndsAtLast (d : PdcpDl) (g : Received) : Prop :=
  (d.recordBehind g).isComplete = true →
    max (d.recordOf g.sn).buffer.length (g.offset + g.payload.length) =
      if g.last then g.offset + g.payload.length else (d.recordOf g.sn).expectedSize

instance (d : PdcpDl) (g : Received) : Decidable (d.EndsAtLast g) :=
  inferInstanceAs (Decidable (_ → _))

/-- The segments of a PDU meet a condition, each in the state in which it is stored. -/
def EachStored (P : PdcpDl → Received → Prop) (d : PdcpDl) (call : DlCall) : Prop :=
  ∀ pdcp r, call = .data pdcp → d.config.parse pdcp = some r → Steps rxReceived P d r.1

/-- The sizes of a complete record agree. -/
def SizesAgree (d : PdcpDl) : Prop :=
  ∀ sn st, d.Holds sn st → st.isComplete = true → st.buffer.length = st.expectedSize

/-- The counter is the sum of the sizes of the frames that `pop` would return. -/
def Counted (d : PdcpDl) : Prop :=
  d.outstandingBytes = (d.completedFrames.map List.length).sum

theorem recordBehind_sizes {d : PdcpDl} {g : Received} (h : d.EndsAtLast g)
    (hc : (d.recordBehind g).isComplete = true) :
    (d.recordBehind g).buffer.length = (d.recordBehind g).expectedSize := by
  have hend := h hc
  unfold recordBehind
  rw [ReassemblyState.receive_bufferLength, ReassemblyState.receive_expectedSize]
  exact hend

theorem SizesAgree.rxReceived {d : PdcpDl} (h : d.SizesAgree) {g : Received}
    (hg : d.EndsAtLast g) : (d.rxReceived g).SizesAgree := by
  intro sn st hholds hc
  rcases rxReceived_holds hholds with rfl | hold | ⟨-, rfl⟩
  · cases hc
  · exact h sn st hold hc
  · exact recordBehind_sizes hg hc

/-- One more frame is counted when its sizes agree. -/
theorem Counted.append {d d' : PdcpDl} (h : d.Counted) {st : ReassemblyState}
    (hsizes : st.buffer.length = st.expectedSize)
    (hframes : d'.completedFrames = d.completedFrames ++ [st.buffer])
    (hbytes : d'.outstandingBytes = d.outstandingBytes + st.expectedSize) : d'.Counted := by
  unfold Counted at h ⊢
  rw [hframes, hbytes, h, List.map_append, List.sum_append, List.map_singleton,
    List.sum_singleton, hsizes]

theorem Counted.rxReceived {d : PdcpDl} (h : d.Counted) {g : Received}
    (hg : d.EndsAtLast g) : (d.rxReceived g).Counted := by
  rcases (d.rxReceived_delivers g).2.2 with ⟨hframes, hbytes⟩ | ⟨hdone, -, hframes, hbytes⟩
  · unfold Counted
    rw [hframes, hbytes, h]
  · exact h.append (recordBehind_sizes hg (finishes_complete hdone)) hframes hbytes

theorem foldl_counted {d : PdcpDl} (hsizes : d.SizesAgree) (h : d.Counted)
    {gs : List Received} (hgs : Steps PdcpDl.rxReceived EndsAtLast d gs) :
    (gs.foldl PdcpDl.rxReceived d).SizesAgree ∧ (gs.foldl PdcpDl.rxReceived d).Counted := by
  have hstates : States PdcpDl.rxReceived (fun e => e.SizesAgree ∧ e.Counted) d gs :=
    states_of_steps (fun e g he hg => ⟨he.1.rxReceived hg, he.2.rxReceived hg⟩)
      ⟨hsizes, h⟩ hgs
  exact hstates.last

theorem flush_counted {d : PdcpDl} (hsizes : d.SizesAgree) (h : d.Counted) :
    d.flushCompletedInOrder.SizesAgree ∧ d.flushCompletedInOrder.Counted := by
  refine flush_invariant (P := fun e => e.SizesAgree ∧ e.Counted) ?_ ⟨hsizes, h⟩
  rintro e e' ⟨hsizes, h⟩ hstep
  obtain ⟨-, -, ⟨st, hholds, hc, hframes, hbytes⟩, hkept⟩ := flushStep_delivers hstep
  exact ⟨fun sn st' hholds' hc' => hsizes sn st' (hkept sn st' hholds') hc',
    h.append (hsizes _ st hholds hc) hframes hbytes⟩

theorem Counted.pop {d : PdcpDl} (h : d.Counted) : d.pop.1.Counted := by
  unfold Counted at h ⊢
  unfold PdcpDl.pop
  split
  · exact h
  · rename_i rv others hframes
    rw [hframes, List.map_cons, List.sum_cons] at h
    dsimp only
    rw [if_pos (by omega), h]
    omega

/-- A call keeps the sum if its segments end at `LAST`. -/
theorem call_counted {d d' : PdcpDl} {call : DlCall} (h : d.SizesAgree ∧ d.Counted)
    (hcall : d.EachStored EndsAtLast call) (hres : dlCall d call = some d') :
    d'.SizesAgree ∧ d'.Counted := by
  cases call with
  | data pdcp =>
      obtain ⟨⟨e, returned⟩, hdata, rfl⟩ := Option.map_eq_some_iff.mp hres
      rcases d.onPdcpData_cases pdcp with ⟨-, -, heq⟩ | ⟨-, heq⟩ | ⟨gs, status, -, hparse, heq⟩ |
          ⟨gs, -, hparse, heq⟩
      · rw [heq] at hdata
        cases hdata
      · rw [heq] at hdata
        cases hdata
        exact h
      · rw [heq] at hdata
        cases hdata
        exact foldl_counted h.1 h.2 (hcall pdcp _ rfl hparse)
      · have hstored := foldl_counted h.1 h.2 (hcall pdcp _ rfl hparse)
        rw [heq] at hdata
        cases hdata
        split_ifs
        · exact flush_counted hstored.1 hstored.2
        · exact hstored
  | pop =>
      cases hres
      refine ⟨?_, h.2.pop⟩
      intro sn st hholds hc
      have hpop : d.pop.1.Holds sn st → d.Holds sn st := by
        unfold PdcpDl.pop
        split <;> exact id
      exact h.1 sn st (hpop hholds) hc
  | reset =>
      cases hres
      exact ⟨fun sn st hholds => absurd hholds (init_not_holds _ sn st), rfl⟩
  | reconfigure cfg =>
      cases hres
      exact ⟨fun sn st hholds => absurd hholds (init_not_holds _ sn st), rfl⟩

/-- **Byte accounting**: in every state of a run whose complete records end at `LAST`
the counter is the sum of the sizes of the frames that wait. -/
theorem outstanding_bytes_eq_sum (cfg : PdcpDlConfig) (calls : List DlCall)
    (h : Calls dlCall (EachStored EndsAtLast) (init cfg) calls) :
    Throughout dlCall (fun d => d.outstandingBytes = (d.completedFrames.map List.length).sum)
      (init cfg) calls := by
  have hinit : (init cfg).SizesAgree ∧ (init cfg).Counted :=
    ⟨fun sn st hholds => absurd hholds (init_not_holds cfg sn st), rfl⟩
  exact (throughout_of_calls (fun d call d' => call_counted) hinit h).mono fun d hd => hd.2

/-! ## Two runs -/

/-- A downlink with segmentation. -/
def segmented : PdcpDlConfig := { allowSegmentation := true, reorderSize := 1 }

/-- A call with reordering off whose segments are all valid. -/
theorem dlCall_of_parse {d : PdcpDl} {pdcp : List UInt8} {gs : List Received}
    (hne : pdcp ≠ []) (hre : d.config.allowReordering = false)
    (hparse : d.config.parse pdcp = some (gs, none)) :
    dlCall d (.data pdcp) = some (gs.foldl PdcpDl.rxReceived d) := by
  have hcall := d.onPdcpData_eq hne
  rw [hparse, hre] at hcall
  show (d.onPdcpData pdcp).map Prod.fst = _
  rw [hcall]
  rfl

/-- A frame of two bytes in two segments is counted until it is popped. -/
theorem two_segments_counted :
    Calls dlCall (EachStored EndsAtLast) (init segmented)
        [.data (encodeAll segmented.layout [⟨0, 0, false, [7]⟩, ⟨0, 1, true, [8]⟩]), .pop] ∧
      Throughout dlCall
        (fun d => d.outstandingBytes = (d.completedFrames.map List.length).sum) (init segmented)
        [.data (encodeAll segmented.layout [⟨0, 0, false, [7]⟩, ⟨0, 1, true, [8]⟩]), .pop] := by
  have hfits : ∀ g ∈ [(⟨0, 0, false, [7]⟩ : Seg), ⟨0, 1, true, [8]⟩],
      g.Fits segmented.layout := by
    simp only [List.forall_mem_cons]
    exact ⟨⟨by decide, by decide, by decide, by decide⟩,
      ⟨by decide, by decide, by decide, by decide⟩, List.forall_mem_nil _⟩
  have hparse : segmented.parse (encodeAll segmented.layout _) = some _ :=
    PdcpDlConfig.parse_encodeAll hfits
  have hcalls : Calls dlCall (EachStored EndsAtLast) (init segmented)
      [.data (encodeAll segmented.layout [⟨0, 0, false, [7]⟩, ⟨0, 1, true, [8]⟩]), .pop] := by
    refine ⟨?_, fun d _ => ⟨?_, fun _ _ => trivial⟩⟩
    · rintro pdcp r hdata hr
      cases hdata
      rw [show (init segmented).config.parse _ = _ from hparse] at hr
      cases hr
      exact ⟨by decide, by decide, trivial⟩
    · rintro pdcp r hdata
      cases hdata
  exact ⟨hcalls, outstanding_bytes_eq_sum segmented _ hcalls⟩

/-- The segments of `gap_miscounts`: one from 10 to 15, and then the `LAST` one from 5
to 10. -/
def gapSegments : List Seg := [⟨0, 10, false, [1, 2, 3, 4, 5]⟩, ⟨0, 5, true, [6, 7, 8, 9, 10]⟩]

theorem gapSegments_fits : ∀ g ∈ gapSegments, g.Fits segmented.layout := by
  unfold gapSegments
  simp only [List.forall_mem_cons]
  exact ⟨⟨by decide, by decide, by decide, by decide⟩,
    ⟨by decide, by decide, by decide, by decide⟩, List.forall_mem_nil _⟩

/-- The frame is counted with 10 bytes, and 15 are waiting. -/
theorem gap_miscounts :
    ¬ Throughout dlCall
      (fun d => d.outstandingBytes = (d.completedFrames.map List.length).sum)
      (init segmented) [.data (encodeAll segmented.layout gapSegments)] := by
  have hparse : segmented.parse (encodeAll segmented.layout gapSegments) = some _ :=
    PdcpDlConfig.parse_encodeAll gapSegments_fits
  intro h
  have hcounted := (h.2 _ (dlCall_of_parse (d := init segmented) (by decide) rfl hparse)).first
  revert hcounted
  decide

end PdcpDl

end Winject.Pdcp
