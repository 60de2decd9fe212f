import Winject.Lib.Runs
import Winject.Pdcp.Ul

/-!
# The segments of a `write_pdcp` call

`Pdcp.Ul` follows runs whose buffers and frames fit the header fields.  This
module follows the loop of `write_pdcp` for every frame length, buffer length
and configuration, with `reconfigure` among the calls: `segmentsOf` lists what
the iterations of a call copied where, and `Describes` says that the header
found there describes it.

## Main results

* `settled_run` — after any calls every queued frame has bytes left to send.
* `writeStep_stops_or_writes` — an iteration leaves the loop or copies the next
  piece of the front frame.
* `PdcpUl.Settled.count_isSome_iff` — when a call succeeds.
* `writeLoop_wrote` — when every segment of a call fits its header fields, the
  headers in the buffer describe the segments.
* `described_fits` — a described segment fits its header fields.
-/

namespace Winject.Pdcp

open Winject.Frames
open Winject.Lib.Bytes

/-! ## Calls -/

/-- `pdcp_ul::reconfigure`. -/
def PdcpUl.reconfigure (u : PdcpUl) (cfg : PdcpUlConfig) : PdcpUl :=
  { u with config := cfg }

/-- A call on the uplink. -/
inductive UlCall where
  | frame (packet : List UInt8)
  | write (buffer : List UInt8)
  | reconfigure (cfg : PdcpUlConfig)
  deriving DecidableEq, Repr

/-- The state behind a call. -/
def ulCall (u : PdcpUl) : UlCall → PdcpUl
  | .frame packet => (u.onFrameData packet).1
  | .write buffer => (u.writePdcp buffer).ul
  | .reconfigure cfg => u.reconfigure cfg

/-- `pdcp_ul::reset`. -/
def PdcpUl.reset (u : PdcpUl) : PdcpUl :=
  { u with
    outstandingBuffers := []
    dataOffset := 0
    status := .success
    sequenceNumber := 0
    totalInBytes := 0
    totalOutBytes := 0 }

/-- A call on the uplink, or a reset of it. -/
inductive UlEvent where
  | call (c : UlCall)
  | reset
  deriving DecidableEq, Repr

/-- The state behind an event. -/
def ulEvent (u : PdcpUl) : UlEvent → PdcpUl
  | .call c => ulCall u c
  | .reset => u.reset

/-! ## What is left of the queue -/

/-- Every queued frame has a byte left to send, the number fits its field. -/
structure PdcpUl.Settled (u : PdcpUl) : Prop where
  frames : ∀ f ∈ u.outstandingBuffers, f ≠ []
  inside : u.dataOffset = 0 ∨ ∃ front others,
    u.outstandingBuffers = front :: others ∧ u.dataOffset < front.length
  sn : u.sequenceNumber < 65536

/-- The bytes of every queued frame that are still to be sent. -/
def PdcpUl.remaining (u : PdcpUl) : List Nat :=
  match u.outstandingBuffers with
  | [] => []
  | front :: others => (front.length - u.dataOffset) :: others.map List.length

theorem PdcpUl.Settled.front_lt {u : PdcpUl} (h : u.Settled) {front : List UInt8}
    {others : List (List UInt8)} (hq : u.outstandingBuffers = front :: others) :
    u.dataOffset < front.length := by
  rcases h.inside with h0 | ⟨f, fs, hqf, hlt⟩
  · have hne := h.frames front (by rw [hq]; exact List.mem_cons_self ..)
    have hpos := List.length_pos_iff.mpr hne
    omega
  · rw [hq] at hqf
    obtain ⟨rfl, -⟩ := List.cons.inj hqf
    exact hlt

theorem PdcpUl.Settled.offset_of_empty {u : PdcpUl} (h : u.Settled)
    (hq : u.outstandingBuffers = []) : u.dataOffset = 0 := by
  rcases h.inside with h0 | ⟨f, fs, hqf, -⟩
  · exact h0
  · rw [hq] at hqf
    cases hqf

/-- The state of the uplink behind `n` more bytes of the front frame. -/
def PdcpUl.advance (u : PdcpUl) (front : List UInt8) (others : List (List UInt8))
    (n : Nat) : PdcpUl :=
  let next := { u with
    dataOffset := u.dataOffset + n
    totalOutBytes := u.totalOutBytes + n }
  if front.length ≤ u.dataOffset + n then
    { next with
      outstandingBuffers := others
      dataOffset := 0
      sequenceNumber := (u.sequenceNumber + 1) % 65536 }
  else next

@[simp] theorem PdcpUl.advance_config (u : PdcpUl) (front : List UInt8)
    (others : List (List UInt8)) (n : Nat) :
    (u.advance front others n).config = u.config := by
  simp only [PdcpUl.advance]
  split <;> rfl

@[simp] theorem PdcpUl.advance_totalOutBytes (u : PdcpUl) (front : List UInt8)
    (others : List (List UInt8)) (n : Nat) :
    (u.advance front others n).totalOutBytes = u.totalOutBytes + n := by
  simp only [PdcpUl.advance]
  split <;> rfl

/-- No frame is added to the queue. -/
theorem PdcpUl.advance_queue {u : PdcpUl} {front : List UInt8} {others : List (List UInt8)}
    (hq : u.outstandingBuffers = front :: others) {n : Nat} {f : List UInt8}
    (hf : f ∈ (u.advance front others n).outstandingBuffers) :
    f ∈ u.outstandingBuffers := by
  unfold PdcpUl.advance at hf
  dsimp only at hf
  split at hf
  · rw [hq]
    exact List.mem_cons_of_mem _ hf
  · exact hf

theorem PdcpUl.Settled.advance {u : PdcpUl} (h : u.Settled) {front : List UInt8}
    {others : List (List UInt8)} (hq : u.outstandingBuffers = front :: others) (n : Nat) :
    (u.advance front others n).Settled := by
  have hothers : ∀ f ∈ others, f ≠ [] := fun f hf =>
    h.frames f (by rw [hq]; exact List.mem_cons_of_mem _ hf)
  unfold PdcpUl.advance
  dsimp only
  split
  · exact ⟨hothers, Or.inl rfl, Nat.mod_lt _ (by decide)⟩
  · rename_i hlt
    exact ⟨h.frames, Or.inr ⟨front, others, hq, by dsimp only; omega⟩, h.sn⟩

/-! ## One iteration -/

/-- What an iteration puts into the output buffer: `copied` bytes of `frame` from
`offset` on, behind the header at `position`. -/
structure SegmentAt where
  position : Nat
  frame : List UInt8
  offset : Nat
  copied : Nat
  deriving DecidableEq, Repr

/-- The content of the segment that carries `n` bytes of the front frame; a field
that the layout does not have is `0`. -/
def PdcpUl.segment (u : PdcpUl) (front : List UInt8) (n : Nat) : Seg where
  sn := if u.config.allowReordering then u.sequenceNumber else 0
  offset := if u.config.allowSegmentation then u.dataOffset else 0
  last := decide (front.length ≤ u.dataOffset + n)
  payload := (front.drop u.dataOffset).take n

/-- The view behind the setter calls of the iteration. -/
def stored (s : WriteState) (front : List UInt8) (n : Nat) : PdcpSegment :=
  storeSegment (scanned s.ul.config.layout s.rest) (s.ul.segment front n)

/-- The iteration copies `n` bytes of the front frame. -/
structure Writes (s s' : WriteState) (front : List UInt8) (others : List (List UInt8))
    (n : Nat) : Prop where
  queue : s.ul.outstandingBuffers = front :: others
  size : n = min (front.length - s.ul.dataOffset)
    (s.rest.length - s.ul.config.layout.headerSize)
  pos : 0 < n
  room : s.ul.config.layout.headerSize + n ≤ s.rest.length
  whole : s.ul.config.allowSegmentation = false →
    s.ul.dataOffset + n = front.length
  ul : s'.ul = s.ul.advance front others n
  written : s'.written = s.written ++ (stored s front n).base.take (stored s front n).getSize
  rest : s'.rest = (stored s front n).base.drop (stored s front n).getSize
  total : s'.totalPdcpWritten = s.totalPdcpWritten + (stored s front n).getSize
  count : s'.segmentsAllocated = s.segmentsAllocated + 1

/-- No iteration can copy anything into `room` bytes. -/
def PdcpUl.Stuck (u : PdcpUl) (room : Nat) : Prop :=
  u.outstandingBuffers = [] ∨ room ≤ u.config.layout.headerSize ∨
    u.config.allowSegmentation = false ∧
      ∃ r ∈ u.remaining.head?, room < u.config.layout.headerSize + r

/-- A layout without a field ignores the value for it. -/
private theorem storeSegment_fields (cfg : PdcpUlConfig) (bytes payload : List UInt8)
    (sn off : Nat) (last : Bool) :
    storeSegment (scanned cfg.layout bytes) ⟨sn, off, last, payload⟩ =
      storeSegment (scanned cfg.layout bytes)
        ⟨if cfg.allowReordering then sn else 0,
          if cfg.allowSegmentation then off else 0, last, payload⟩ := by
  obtain ⟨seg, reord, minCommit⟩ := cfg
  cases seg <;> cases reord <;> rfl

/-- An iteration leaves the loop when nothing can be copied, and copies as much of
the front frame as it can otherwise. -/
theorem writeStep_stops_or_writes {s : WriteState} (h : s.ul.Settled) :
    (writeStep s = none ∧ s.ul.Stuck s.rest.length) ∨
      ∃ s' front others n, writeStep s = some s' ∧ Writes s s' front others n := by
  cases hq : s.ul.outstandingBuffers with
  | nil =>
      left
      exact ⟨by unfold writeStep; simp only [hq], Or.inl hq⟩
  | cons front others =>
      have hlt := h.front_lt hq
      have hrem : s.ul.remaining.head? = some (front.length - s.ul.dataOffset) := by
        simp only [PdcpUl.remaining, hq, List.head?_cons]
      unfold writeStep
      simp only [hq]
      by_cases havail : s.rest.length = 0
      · left
        rw [if_pos havail]
        exact ⟨rfl, Or.inr (Or.inl (by omega))⟩
      rw [if_neg havail]
      by_cases hhdr : s.ul.config.layout.headerSize ≤ s.rest.length
      swap
      · left
        rw [view_isHeaderValid, decide_eq_false hhdr]
        exact ⟨rfl, Or.inr (Or.inl (by omega))⟩
      rw [view_isHeaderValid, decide_eq_true hhdr, rescan_view _ _ hhdr,
        scanned_getHeaderSize]
      simp only [Bool.not_true, Bool.false_eq_true, if_false]
      by_cases hmax : s.rest.length - s.ul.config.layout.headerSize = 0
      · left
        rw [if_pos hmax]
        exact ⟨rfl, Or.inr (Or.inl (by omega))⟩
      rw [if_neg hmax, if_neg (by omega)]
      by_cases hseg : (decide (front.length - s.ul.dataOffset >
          s.rest.length - s.ul.config.layout.headerSize) &&
            !s.ul.config.allowSegmentation) = true
      · left
        rw [if_pos hseg]
        rw [Bool.and_eq_true, Bool.not_eq_true', decide_eq_true_eq] at hseg
        exact ⟨rfl, Or.inr (Or.inr ⟨hseg.2, _, hrem, by omega⟩)⟩
      rw [if_neg hseg]
      right
      generalize hn : min (front.length - s.ul.dataOffset)
        (s.rest.length - s.ul.config.layout.headerSize) = n
      have hplen : ((front.drop s.ul.dataOffset).take n).length = n := by
        simp only [List.length_take, List.length_drop]
        omega
      have hsetters := setters_eq s.ul.config s.rest ((front.drop s.ul.dataOffset).take n)
        s.ul.sequenceNumber s.ul.dataOffset
        (decide (s.ul.dataOffset + n ≥ front.length)) n hplen
      rw [storeSegment_fields] at hsetters
      dsimp only at hsetters
      rw [hsetters]
      refine ⟨_, front, others, n, rfl, hq, hn.symm, by omega, by omega, ?_, ?_,
        rfl, rfl, rfl, rfl⟩
      · intro hns
        rw [hns] at hseg
        simp only [Bool.not_false, Bool.and_true, decide_eq_true_eq] at hseg
        omega
      · unfold PdcpUl.advance
        simp only [ge_iff_le, decide_eq_true_eq, hq]

/-- The iteration keeps the queue settled. -/
theorem writeStep_settled {s s' : WriteState} (h : s.ul.Settled)
    (hstep : writeStep s = some s') :
    s'.ul.Settled ∧ s'.ul.config = s.ul.config := by
  rcases writeStep_stops_or_writes h with ⟨hnone, -⟩ | ⟨t, front, others, n, hsome, hw⟩
  · rw [hstep] at hnone
    cases hnone
  · rw [hstep] at hsome
    cases hsome
    rw [hw.ul]
    exact ⟨h.advance hw.queue n, s.ul.advance_config front others n⟩

theorem writeLoop_settled (s : WriteState) (h : s.ul.Settled) :
    (writeLoop s).ul.Settled ∧ (writeLoop s).ul.config = s.ul.config := by
  induction s using writeLoop.induct with
  | case1 s hnone =>
      rw [writeLoop_of_none hnone]
      exact ⟨h, rfl⟩
  | case2 s t hsome ih =>
      obtain ⟨ht, hcfg⟩ := writeStep_settled h hsome
      rw [writeLoop_of_some hsome, ← hcfg]
      exact ih ht

theorem writePdcp_settled {u : PdcpUl} (h : u.Settled) (buffer : List UInt8) :
    (u.writePdcp buffer).ul.Settled := by
  have hloop := (writeLoop_settled ⟨u, [], buffer, 0, 0⟩ h).1
  unfold PdcpUl.writePdcp
  dsimp only
  split_ifs
  · exact ⟨h.frames, h.inside, h.sn⟩
  · exact ⟨h.frames, h.inside, h.sn⟩
  · exact ⟨h.frames, h.inside, h.sn⟩
  · exact ⟨hloop.frames, hloop.inside, hloop.sn⟩
  · exact ⟨hloop.frames, hloop.inside, hloop.sn⟩

theorem ulCall_settled {u : PdcpUl} (h : u.Settled) (call : UlCall) :
    (ulCall u call).Settled := by
  cases call with
  | write buffer => exact writePdcp_settled h buffer
  | reconfigure cfg => exact ⟨h.frames, h.inside, h.sn⟩
  | frame packet =>
      unfold ulCall PdcpUl.onFrameData
      dsimp only
      split
      · exact h
      · rename_i hne
        refine ⟨?_, ?_, h.sn⟩
        · intro f hf
          rcases List.mem_append.mp hf with hf | hf
          · exact h.frames f hf
          · obtain rfl := List.mem_singleton.mp hf
            rintro rfl
            exact hne rfl
        · rcases h.inside with h0 | ⟨front, others, hq, hlt⟩
          · exact Or.inl h0
          · exact Or.inr ⟨front, others ++ [packet], by rw [hq]; rfl, hlt⟩

theorem settled_init (cfg : PdcpUlConfig) : PdcpUl.Settled { config := cfg } :=
  ⟨by simp, Or.inl rfl, Nat.succ_pos _⟩

theorem PdcpUl.Settled.reset (u : PdcpUl) : u.reset.Settled :=
  ⟨by simp [PdcpUl.reset], Or.inl rfl, by simp [PdcpUl.reset]⟩

theorem ulEvent_settled {u : PdcpUl} (h : u.Settled) (e : UlEvent) :
    (ulEvent u e).Settled := by
  cases e with
  | call c => exact ulCall_settled h c
  | reset => exact PdcpUl.Settled.reset u

/-- Whatever came before, the queue is settled. -/
theorem settled_run (cfg : PdcpUlConfig) (events : List UlEvent) :
    (events.foldl ulEvent { config := cfg }).Settled :=
  Lib.Runs.foldl_invariant PdcpUl.Settled (fun _ e h => ulEvent_settled h e) events _
    (settled_init cfg)

/-! ## The segments of a call -/

/-- The segment an iteration emits; dropping an exhausted frame emits none. -/
def emittedBy (s s' : WriteState) : List SegmentAt :=
  if s'.segmentsAllocated = s.segmentsAllocated then []
  else
    [{ position := s.totalPdcpWritten
       frame := s.ul.outstandingBuffers.headD []
       offset := s.ul.dataOffset
       copied := s'.ul.totalOutBytes - s.ul.totalOutBytes }]

/-- The segments that the loop emits from `s` on. -/
def segmentsOf (s : WriteState) : List SegmentAt :=
  match _h : writeStep s with
  | none => []
  | some s' => emittedBy s s' ++ segmentsOf s'
termination_by s.ul.queuedWork
decreasing_by exact writeStep_queuedWork _h

/-- The segments that a successful `write_pdcp` emits. -/
def PdcpUl.segments (u : PdcpUl) (buffer : List UInt8) : List SegmentAt :=
  if (u.writePdcp buffer).count.isSome then segmentsOf ⟨u, [], buffer, 0, 0⟩ else []

theorem segmentsOf_of_none {s : WriteState} (h : writeStep s = none) :
    segmentsOf s = [] := by
  rw [segmentsOf]
  split
  · rfl
  · rename_i hs'
    rw [h] at hs'
    cases hs'

theorem segmentsOf_of_some {s s' : WriteState} (h : writeStep s = some s') :
    segmentsOf s = emittedBy s s' ++ segmentsOf s' := by
  rw [segmentsOf]
  split
  · rename_i hs'
    rw [h] at hs'
    cases hs'
  · rename_i hs'
    rw [h] at hs'
    cases hs'
    rfl

theorem Writes.emittedBy {s s' : WriteState} {front : List UInt8}
    {others : List (List UInt8)} {n : Nat} (h : Writes s s' front others n) :
    emittedBy s s' = [⟨s.totalPdcpWritten, front, s.ul.dataOffset, n⟩] := by
  have hcount := h.count
  rw [Pdcp.emittedBy, if_neg (by omega), h.queue, h.ul, s.ul.advance_totalOutBytes,
    Nat.add_sub_cancel_left, List.headD_cons]

/-- The piece ends inside the front frame. -/
theorem Writes.inside {s s' : WriteState} {front : List UInt8}
    {others : List (List UInt8)} {n : Nat} (h : Writes s s' front others n)
    (hsettled : s.ul.Settled) : s.ul.dataOffset + n ≤ front.length := by
  have hsize := h.size
  have hlt := hsettled.front_lt h.queue
  omega

/-- Induction over the iterations of a settled loop: it stops, or it emits the next
segment and goes on. -/
theorem settled_induction {P : (s : WriteState) → s.ul.Settled → Prop}
    (stop : ∀ s hs, writeStep s = none → s.ul.Stuck s.rest.length → P s hs)
    (write : ∀ s s' front others n hs hs', writeStep s = some s' →
      Writes s s' front others n → P s' hs' → P s hs)
    (s : WriteState) (h : s.ul.Settled) : P s h := by
  induction s using segmentsOf.induct with
  | case1 s hnone =>
      rcases writeStep_stops_or_writes h with ⟨-, hstuck⟩ | ⟨t, _, _, _, hsome, -⟩
      · exact stop s h hnone hstuck
      · rw [hnone] at hsome
        cases hsome
  | case2 s t hsome ih =>
      rcases writeStep_stops_or_writes h with ⟨hnone, -⟩ | ⟨t', front, others, n, ht, hw⟩
      · rw [hsome] at hnone
        cases hnone
      · rw [hsome] at ht
        cases ht
        have ht := (writeStep_settled h hsome).1
        exact write s t front others n h ht hsome hw (ih ht)

/-- The emitted segments carry queued frames. -/
theorem segmentsOf_frame (s : WriteState) (h : s.ul.Settled) :
    ∀ g ∈ segmentsOf s, g.frame ∈ s.ul.outstandingBuffers := by
  induction s, h using settled_induction with
  | stop s _ hnone _ => simp [segmentsOf_of_none hnone]
  | write s s' front others n _ _ hstep hw ih =>
      intro g hg
      rw [segmentsOf_of_some hstep, hw.emittedBy] at hg
      rcases List.mem_append.mp hg with hg | hg
      · obtain rfl := List.mem_singleton.mp hg
        rw [hw.queue]
        exact List.mem_cons_self ..
      · have hin := ih g hg
        rw [hw.ul] at hin
        exact PdcpUl.advance_queue hw.queue hin

theorem writeLoop_queue (s : WriteState) (h : s.ul.Settled) :
    ∀ f ∈ (writeLoop s).ul.outstandingBuffers, f ∈ s.ul.outstandingBuffers := by
  induction s, h using settled_induction with
  | stop s _ hnone _ =>
      rw [writeLoop_of_none hnone]
      exact fun f hf => hf
  | write s s' front others n _ _ hstep hw ih =>
      rw [writeLoop_of_some hstep]
      intro f hf
      have hin := ih f hf
      rw [hw.ul] at hin
      exact PdcpUl.advance_queue hw.queue hin

theorem writePdcp_queue {u : PdcpUl} (h : u.Settled) (buffer : List UInt8) :
    ∀ f ∈ (u.writePdcp buffer).ul.outstandingBuffers, f ∈ u.outstandingBuffers := by
  have hloop := writeLoop_queue ⟨u, [], buffer, 0, 0⟩ h
  unfold PdcpUl.writePdcp
  dsimp only
  split_ifs
  · exact fun f hf => hf
  · exact fun f hf => hf
  · exact fun f hf => hf
  · exact hloop
  · exact hloop

theorem writeLoop_count (s : WriteState) (h : s.ul.Settled) :
    (writeLoop s).segmentsAllocated = s.segmentsAllocated + (segmentsOf s).length := by
  induction s, h using settled_induction with
  | stop s _ hnone _ =>
      rw [segmentsOf_of_none hnone, writeLoop_of_none hnone]
      rfl
  | write s s' front others n _ _ hstep hw ih =>
      rw [writeLoop_of_some hstep, ih, hw.count, segmentsOf_of_some hstep, hw.emittedBy,
        List.length_append, List.length_singleton]
      omega

/-- A piece that is copied is not stuck. -/
theorem Writes.not_stuck {s s' : WriteState} {front : List UInt8}
    {others : List (List UInt8)} {n : Nat} (h : Writes s s' front others n) :
    ¬ s.ul.Stuck s.rest.length := by
  have hpos := h.pos
  have hroom := h.room
  have hsize := h.size
  rintro (hq | hle | ⟨hseg, r, hr, hlt⟩)
  · rw [h.queue] at hq
    cases hq
  · omega
  · have hwhole := h.whole hseg
    simp only [PdcpUl.remaining, h.queue, List.head?_cons, Option.mem_some_iff] at hr
    omega

/-- The loop emits a segment unless it is stuck from the start. -/
theorem segmentsOf_eq_nil_iff (s : WriteState) (h : s.ul.Settled) :
    segmentsOf s = [] ↔ s.ul.Stuck s.rest.length := by
  rcases writeStep_stops_or_writes h with ⟨hnone, hstuck⟩ | ⟨t, front, others, n, hsome, hw⟩
  · exact iff_of_true (segmentsOf_of_none hnone) hstuck
  · refine iff_of_false ?_ hw.not_stuck
    rw [segmentsOf_of_some hsome, hw.emittedBy]
    exact List.cons_ne_nil _ _

/-- When `write_pdcp` succeeds. -/
theorem PdcpUl.Settled.count_isSome_iff {u : PdcpUl} (h : u.Settled) (buffer : List UInt8) :
    (u.writePdcp buffer).count.isSome = true ↔
      u.config.minCommitSize ≤ buffer.length ∧ ¬ u.Stuck buffer.length := by
  have hcount := writeLoop_count ⟨u, [], buffer, 0, 0⟩ h
  have hnil := segmentsOf_eq_nil_iff ⟨u, [], buffer, 0, 0⟩ h
  dsimp only at hcount hnil
  have hge := headerSize_ge u.config.layout
  unfold PdcpUl.writePdcp
  dsimp only
  split_ifs with hempty hcommit hqueue hzero
  · refine iff_of_false (by simp) (fun hok => hok.2 (Or.inr (Or.inl ?_)))
    rw [List.isEmpty_iff.mp hempty]
    exact Nat.zero_le _
  · exact iff_of_false (by simp) (fun hok => by omega)
  · exact iff_of_false (by simp) (fun hok => hok.2 (Or.inl (List.isEmpty_iff.mp hqueue)))
  · have hstuck := hnil.mp (List.length_eq_zero_iff.mp (by omega))
    exact iff_of_false (by simp) (fun hok => hok.2 hstuck)
  · refine iff_of_true rfl ⟨by omega, fun hstuck => hzero ?_⟩
    rw [hcount, hnil.mpr hstuck]
    rfl

/-! ## Headers that describe their segments -/

/-- The header at the position of the segment, in the finished buffer, describes the
bytes that were copied there. -/
structure Describes (l : Layout) (buffer : List UInt8) (g : SegmentAt) : Prop where
  size : (view l (buffer.drop g.position)).rescan.getSize = l.headerSize + g.copied
  offset : l.hasOffset = true →
    (view l (buffer.drop g.position)).rescan.getOffset = g.offset
  last : (view l (buffer.drop g.position)).rescan.isLast = true ↔
    g.offset + g.copied = g.frame.length
  payload : (buffer.drop (g.position + l.headerSize)).take g.copied =
    (g.frame.drop g.offset).take g.copied

/-- The segment fits the 15 bits of `SIZE` and the 16 bits of `OFFSET`. -/
def SegmentAt.FitsFields (l : Layout) (g : SegmentAt) : Prop :=
  l.headerSize + g.copied ≤ 32767 ∧ (l.hasOffset = true → g.offset ≤ 65535)

/-- What the fields cannot hold they do not report. -/
theorem described_fits {l : Layout} {buffer : List UInt8} {g : SegmentAt}
    (h : Describes l buffer g) : g.FitsFields l := by
  constructor
  · rw [← h.size, PdcpSegment.getSize, land_7fff]
    omega
  · intro hoff
    rw [← h.offset hoff]
    unfold PdcpSegment.getOffset PdcpSegment.load
    generalize (view l (buffer.drop g.position)).rescan = s
    cases s.offset with
    | none => exact Nat.zero_le _
    | some p => exact Nat.le_of_lt_succ (readBe16_lt s.base p)

/-- The content of a segment that fits its fields. -/
theorem PdcpUl.Settled.segment_fits {u : PdcpUl} (h : u.Settled) {front : List UInt8}
    {n : Nat} (hpos : 0 < n) (hle : u.dataOffset + n ≤ front.length)
    (hsize : u.config.layout.headerSize + n ≤ 32767)
    (hoff : u.config.allowSegmentation = true → u.dataOffset ≤ 65535) :
    (u.segment front n).Fits u.config.layout ∧
      (u.segment front n).wireSize u.config.layout = u.config.layout.headerSize + n := by
  have hlen : (u.segment front n).payload.length = n := by
    simp only [PdcpUl.segment, List.length_take, List.length_drop]
    omega
  refine ⟨⟨?_, ?_, by rw [hlen]; omega, ?_⟩, by rw [Seg.wireSize, hlen]⟩
  · have hsn := h.sn
    simp only [PdcpUl.segment]
    split
    · exact hsn
    · exact Nat.succ_pos _
  · simp only [PdcpUl.segment]
    split
    · rename_i hseg
      exact Nat.lt_succ_of_le (hoff hseg)
    · exact Nat.succ_pos _
  · intro hnil
    rw [hnil, List.length_nil] at hlen
    omega

/-- An iteration whose segment fits its fields appends the encoded segment. -/
theorem Writes.appends {s s' : WriteState} {front : List UInt8}
    {others : List (List UInt8)} {n : Nat} (h : Writes s s' front others n)
    (hsettled : s.ul.Settled)
    (hfits : SegmentAt.FitsFields s.ul.config.layout
      ⟨s.totalPdcpWritten, front, s.ul.dataOffset, n⟩) :
    s'.written = s.written ++ encode s.ul.config.layout (s.ul.segment front n) ∧
      s'.rest = s.rest.drop (s.ul.config.layout.headerSize + n) ∧
      s'.totalPdcpWritten = s.totalPdcpWritten + (s.ul.config.layout.headerSize + n) := by
  have hle := h.inside hsettled
  obtain ⟨hf, hwire⟩ := hsettled.segment_fits h.pos hle hfits.1 hfits.2
  have hstored := store_encode s.ul.config.layout (s.ul.segment front n) s.rest hf
    (by rw [hwire]; exact h.room)
  have hread := scan_encode s.ul.config.layout (s.ul.segment front n)
    (s.rest.drop (s.ul.config.layout.headerSize + n)) hf
  have hlen : (encode s.ul.config.layout (s.ul.segment front n)).length =
      s.ul.config.layout.headerSize + n := by
    rw [encode_length, hwire]
  rw [hwire] at hstored
  have hsize : (stored s front n).getSize = s.ul.config.layout.headerSize + n := by
    rw [stored, hstored, hread.size, hwire]
  have hbase : (stored s front n).base = encode s.ul.config.layout (s.ul.segment front n) ++
      s.rest.drop (s.ul.config.layout.headerSize + n) := by
    rw [stored, hstored]
    rfl
  rw [h.written, h.rest, h.total, hsize, hbase, List.take_left' hlen, List.drop_left' hlen]
  exact ⟨rfl, rfl, rfl⟩

/-- An encoded segment behind `pre` is described by its header. -/
theorem describes_encode {u : PdcpUl} (hu : u.Settled) {front : List UInt8} {n pos : Nat}
    (hpos : 0 < n) (hle : u.dataOffset + n ≤ front.length)
    (hfits : SegmentAt.FitsFields u.config.layout ⟨pos, front, u.dataOffset, n⟩)
    (pre tail : List UInt8) (hpre : pre.length = pos) :
    Describes u.config.layout (pre ++ (encode u.config.layout (u.segment front n) ++ tail))
      ⟨pos, front, u.dataOffset, n⟩ := by
  obtain ⟨hf, hwire⟩ := hu.segment_fits hpos hle hfits.1 hfits.2
  have hread := scan_encode u.config.layout (u.segment front n) tail hf
  have hlen : u.config.layout.headerSize ≤
      (encode u.config.layout (u.segment front n) ++ tail).length := by
    rw [List.length_append, encode_length, hwire]
    omega
  have hview : (view u.config.layout ((pre ++ (encode u.config.layout (u.segment front n) ++
      tail)).drop pos)).rescan =
        scanned u.config.layout (encode u.config.layout (u.segment front n) ++ tail) := by
    rw [List.drop_left' hpre, rescan_view _ _ hlen]
  have hpayload := payload_encode u.config.layout (u.segment front n) tail
  have hplen : (u.segment front n).payload.length = n := by
    simp only [Seg.wireSize] at hwire
    omega
  refine ⟨?_, ?_, ?_, ?_⟩
  · rw [hview, hread.size, hwire]
  · intro hseg
    rw [hview, hread.offset hseg]
    exact if_pos hseg
  · rw [hview, hread.last]
    simp only [PdcpUl.segment, decide_eq_true_eq]
    omega
  · rw [← List.drop_drop, List.drop_left' hpre]
    rw [hplen] at hpayload
    exact hpayload

/-- What the loop has written, when every segment fits its fields. -/
structure WroteSegments (s s' : WriteState) (gs : List SegmentAt) : Prop where
  grows : ∃ more, s'.written = s.written ++ more
  each : ∀ g ∈ gs, ∀ tail, Describes s.ul.config.layout (s'.written ++ tail) g
  total : s'.totalPdcpWritten = s.totalPdcpWritten +
    (gs.map (fun g => s.ul.config.layout.headerSize + g.copied)).sum
  written : s'.written.length = s'.totalPdcpWritten
  room : s'.written.length + s'.rest.length = s.written.length + s.rest.length

/-- When every segment fits its fields, the headers in the buffer describe the
segments. -/
theorem writeLoop_wrote (s : WriteState) (h : s.ul.Settled)
    (hwritten : s.written.length = s.totalPdcpWritten)
    (hfits : ∀ g ∈ segmentsOf s, g.FitsFields s.ul.config.layout) :
    WroteSegments s (writeLoop s) (segmentsOf s) := by
  induction s, h using settled_induction with
  | stop s _ hnone _ =>
      rw [segmentsOf_of_none hnone, writeLoop_of_none hnone]
      exact ⟨⟨[], (List.append_nil _).symm⟩, by simp, rfl, hwritten, rfl⟩
  | write s s' front others n hs hs' hstep hw ih =>
      rw [segmentsOf_of_some hstep, hw.emittedBy] at hfits ⊢
      rw [writeLoop_of_some hstep]
      have hcfg := (writeStep_settled hs hstep).2
      have hfirst := hfits _ (List.mem_append_left _ (List.mem_singleton_self _))
      obtain ⟨hwr, hrest, htotal⟩ := hw.appends hs hfirst
      have hle := hw.inside hs
      have hlen : (encode s.ul.config.layout (s.ul.segment front n)).length =
          s.ul.config.layout.headerSize + n := by
        rw [encode_length, (hs.segment_fits hw.pos hle hfirst.1 hfirst.2).2]
      have hroom := hw.room
      have hrec := ih (by rw [hwr, htotal, List.length_append, hlen, hwritten])
        (fun g hg => by rw [hcfg]; exact hfits g (List.mem_append_right _ hg))
      obtain ⟨more, hmore⟩ := hrec.grows
      refine ⟨⟨encode s.ul.config.layout (s.ul.segment front n) ++ more, ?_⟩, ?_, ?_,
        hrec.written, ?_⟩
      · rw [hmore, hwr, List.append_assoc]
      · intro g hg tail
        rcases List.mem_append.mp hg with hg | hg
        · -- nothing is written in front of the cursor afterwards
          obtain rfl := List.mem_singleton.mp hg
          rw [hmore, hwr, List.append_assoc, List.append_assoc]
          exact describes_encode hs hw.pos hle hfirst s.written (more ++ tail) hwritten
        · have hdesc := hrec.each g hg tail
          rwa [hcfg] at hdesc
      · rw [hrec.total, htotal, hcfg, List.map_append, List.sum_append, List.map_singleton,
          List.sum_singleton]
        dsimp only
        omega
      · rw [hrec.room, hwr, hrest, List.length_append, List.length_drop, hlen]
        omega

end Winject.Pdcp
