import Winject.Pdcp.Accounting

/-!
# What a delivered frame is made of

A frame is complete when the sizes of the segments with distinct offsets add up to the
end of the `LAST` one.  Nothing looks at where the segments lie: overlapping segments,
or a segment behind the end, complete a frame with storage that was never written.

`assemble segs` is the record of the segments `segs`, and the record of a receiver is
always that of some of the segments it was given.

## Main results

* `assemble_cell`, `assemble_expectedSize` — what the record of some segments holds.
* `receive_written` — when the bytes of a completed frame have all been written.
* `delivered_frames_genuine` — the frames that `pop` can return.
-/

namespace Winject.Pdcp

open Winject.Frames
open Winject.Lib.Bytes
open Winject.Lib.Reassembly
open Winject.Lib.Runs

/-! ## Counting the written cells -/

theorem countP_grow (n : Nat) (buffer : List (Option UInt8)) :
    (grow none n buffer).countP Option.isSome = buffer.countP Option.isSome := by
  unfold grow
  rw [List.countP_append, Nat.add_eq_left, List.countP_eq_zero]
  intro c hc
  rw [List.eq_of_mem_replicate hc]
  exact Bool.false_ne_true

/-- A copy over cells that were not written. -/
theorem countP_blit {buffer payload : List (Option UInt8)} {offset : Nat}
    (hfree : ∀ c ∈ (buffer.drop offset).take payload.length, c = none)
    (hpayload : ∀ c ∈ payload, c.isSome = true) :
    (blit buffer offset payload).countP Option.isSome =
      buffer.countP Option.isSome + payload.length := by
  have hsplit : buffer = buffer.take offset ++
      ((buffer.drop offset).take payload.length ++ buffer.drop (offset + payload.length)) := by
    rw [← List.drop_drop, List.take_append_drop, List.take_append_drop]
  have hmiddle : ((buffer.drop offset).take payload.length).countP Option.isSome = 0 := by
    rw [List.countP_eq_zero]
    intro c hc
    rw [hfree c hc]
    exact Bool.false_ne_true
  have hcopied : payload.countP Option.isSome = payload.length :=
    List.countP_eq_length.mpr hpayload
  have hcount := congrArg (List.countP Option.isSome) hsplit
  rw [List.countP_append, List.countP_append, hmiddle] at hcount
  unfold blit
  rw [List.countP_append, List.countP_append, hcopied]
  omega

/-- Storage that was just allocated has not been written. -/
theorem free_grow {buffer : List (Option UInt8)} {offset n : Nat}
    (hfree : ∀ c ∈ (buffer.drop offset).take n, c = none) (m : Nat) :
    ∀ c ∈ ((grow none m buffer).drop offset).take n, c = none := by
  intro c hc
  unfold grow at hc
  rw [List.drop_append, List.take_append] at hc
  rcases List.mem_append.mp hc with hc | hc
  · exact hfree c hc
  · exact List.eq_of_mem_replicate (List.mem_of_mem_drop (List.mem_of_mem_take hc))

namespace ReassemblyState

/-! ## One segment -/

theorem receive_buffer (st : ReassemblyState) (offset : Nat) (payload : List (Option UInt8))
    (last : Bool) :
    (st.receive offset payload last).buffer =
      if st.recvdOffsets.contains offset then grow none (offset + payload.length) st.buffer
      else blit (grow none (offset + payload.length) st.buffer) offset payload :=
  congrArg Assembly.buffer (st.receive_asm offset payload last)

theorem receive_accumulatedSize (st : ReassemblyState) (offset : Nat)
    (payload : List (Option UInt8)) (last : Bool) :
    (st.receive offset payload last).accumulatedSize =
      if st.recvdOffsets.contains offset then st.accumulatedSize
      else st.accumulatedSize + payload.length :=
  congrArg Assembly.accumulated (st.receive_asm offset payload last)

theorem receive_hasExpectedSize (st : ReassemblyState) (offset : Nat)
    (payload : List (Option UInt8)) (last : Bool) :
    (st.receive offset payload last).hasExpectedSize = (last || st.hasExpectedSize) := by
  unfold receive
  dsimp only
  cases last with
  | false =>
      simp only [Bool.false_eq_true, if_false, Bool.false_or]
      split_ifs <;> rfl
  | true =>
      simp only [if_true, Bool.true_or]
      split_ifs <;> rfl

/-- The segment lies beside what has been received: the sizes received count every
written byte once, and a payload that is copied is whole and covers none of them. -/
structure Disjoint (st : ReassemblyState) (offset : Nat) (payload : List (Option UInt8)) :
    Prop where
  counted : st.accumulatedSize = st.buffer.countP Option.isSome
  whole : st.recvdOffsets.contains offset = false → ∀ c ∈ payload, c.isSome = true
  free : st.recvdOffsets.contains offset = false →
    ∀ c ∈ (st.buffer.drop offset).take payload.length, c = none

/-- All bytes of the record up to its end have been written. -/
structure Written (st : ReassemblyState) : Prop where
  hasEnd : st.hasExpectedSize = true
  length : st.buffer.length = st.expectedSize
  cells : ∀ c ∈ st.buffer, c.isSome = true

/-- The sizes count every written byte once, as before. -/
theorem Disjoint.receive_counted {st : ReassemblyState} {offset : Nat}
    {payload : List (Option UInt8)} (h : st.Disjoint offset payload) (last : Bool) :
    (st.receive offset payload last).accumulatedSize =
      (st.receive offset payload last).buffer.countP Option.isSome := by
  rw [receive_accumulatedSize, receive_buffer]
  cases hdup : st.recvdOffsets.contains offset with
  | true => rw [if_pos rfl, if_pos rfl, countP_grow, h.counted]
  | false =>
      rw [if_neg Bool.false_ne_true, if_neg Bool.false_ne_true,
        countP_blit (free_grow (h.free hdup) _) (h.whole hdup), countP_grow, h.counted]

/-- **A frame is written** when it is complete by disjoint segments that end at
`LAST`. -/
theorem receive_written {st : ReassemblyState} {offset : Nat} {payload : List (Option UInt8)}
    {last : Bool} (h : st.Disjoint offset payload)
    (hhas : (st.receive offset payload last).hasExpectedSize = true)
    (hsum : (st.receive offset payload last).accumulatedSize =
      (st.receive offset payload last).expectedSize)
    (hlength : (st.receive offset payload last).buffer.length =
      (st.receive offset payload last).expectedSize) :
    (st.receive offset payload last).Written where
  hasEnd := hhas
  length := hlength
  cells := by
    have hcounted := h.receive_counted last
    rw [← List.countP_eq_length, ← hcounted, hsum, hlength]

end ReassemblyState

/-! ## The record of some segments -/

/-- The record that receives the segments in order. -/
def assemble (segs : List Received) : ReassemblyState :=
  segs.foldl (fun st g => st.receive g.offset g.payload g.last) {}

theorem assemble_append (segs : List Received) (g : Received) :
    assemble (segs ++ [g]) = (assemble segs).receive g.offset g.payload g.last := by
  unfold assemble
  rw [List.foldl_append]
  rfl

/-- A written cell of the record behind a segment. -/
theorem receive_cell {st : ReassemblyState} {offset : Nat} {payload : List (Option UInt8)}
    {last : Bool} {x : Nat} {b : UInt8}
    (h : (st.receive offset payload last).buffer[x]? = some (some b)) :
    st.buffer[x]? = some (some b) ∨ (offset ≤ x ∧ payload[x - offset]? = some (some b)) := by
  have hold : (grow none (offset + payload.length) st.buffer)[x]? = some (some b) →
      st.buffer[x]? = some (some b) := by
    intro hcell
    unfold grow at hcell
    by_cases hx : x < st.buffer.length
    · rwa [List.getElem?_append_left hx] at hcell
    · rw [List.getElem?_append_right (Nat.not_lt.mp hx)] at hcell
      have hmem := List.eq_of_mem_replicate (List.mem_of_getElem? hcell)
      cases hmem
  have hfit : offset + payload.length ≤
      (grow none (offset + payload.length) st.buffer).length := by
    rw [grow_length]
    exact Nat.le_max_right ..
  rw [ReassemblyState.receive_buffer] at h
  split_ifs at h
  · exact Or.inl (hold h)
  · by_cases hin : offset ≤ x ∧ x < offset + payload.length
    · rw [blit_getElem?_inside _ _ _ _ hfit hin.1 hin.2] at h
      exact Or.inr ⟨hin.1, h⟩
    · rw [blit_getElem?_outside _ _ _ _ hfit (by omega)] at h
      exact Or.inl (hold h)

/-- Every written cell of the record comes from the payload of a segment. -/
theorem assemble_cell (segs : List Received) {x : Nat} {b : UInt8}
    (h : (assemble segs).buffer[x]? = some (some b)) :
    ∃ g ∈ segs, g.offset ≤ x ∧ g.payload[x - g.offset]? = some (some b) := by
  induction segs using List.reverseRecOn with
  | nil => cases h
  | append_singleton segs g ih =>
      rw [assemble_append] at h
      rcases receive_cell h with hold | ⟨hlo, hcell⟩
      · obtain ⟨g', hg', hcell⟩ := ih hold
        exact ⟨g', List.mem_append_left _ hg', hcell⟩
      · exact ⟨g, List.mem_append_right _ (List.mem_singleton_self g), hlo, hcell⟩

/-- The end of the record is that of a `LAST` segment. -/
theorem assemble_expectedSize (segs : List Received)
    (h : (assemble segs).hasExpectedSize = true) :
    ∃ g ∈ segs, g.last = true ∧ (assemble segs).expectedSize = g.offset + g.payload.length := by
  induction segs using List.reverseRecOn with
  | nil => cases h
  | append_singleton segs g ih =>
      rw [assemble_append, ReassemblyState.receive_hasExpectedSize] at h
      rw [assemble_append, ReassemblyState.receive_expectedSize]
      cases hlast : g.last with
      | true =>
          exact ⟨g, List.mem_append_right _ (List.mem_singleton_self g), hlast, if_pos rfl⟩
      | false =>
          rw [hlast, Bool.false_or] at h
          obtain ⟨g', hg', hlast', hend⟩ := ih h
          exact ⟨g', List.mem_append_left _ hg', hlast', hend⟩

/-- A frame whose bytes are all bytes of received segments: it is the buffer that some
of the received segments, all of one number, assemble; it ends where a `LAST` one of
them does, and every byte was written by one of them. -/
def Genuine (log : List Received) (frame : List (Option UInt8)) : Prop :=
  ∃ segs sn, List.Sublist segs log ∧ (∀ g ∈ segs, g.sn = sn) ∧ frame = (assemble segs).buffer ∧
    (∃ g ∈ segs, g.last = true ∧ frame.length = g.offset + g.payload.length) ∧
    ∀ x < frame.length, ∃ g ∈ segs, ∃ b : UInt8, g.offset ≤ x ∧
      g.payload[x - g.offset]? = some (some b) ∧ frame[x]? = some (some b)

/-- The record of some of the received segments of a number. -/
def RecordOf (log : List Received) (sn : Nat) (st : ReassemblyState) : Prop :=
  ∃ segs, List.Sublist segs log ∧ (∀ g ∈ segs, g.sn = sn) ∧ st = assemble segs

theorem RecordOf.genuine {log : List Received} {sn : Nat} {st : ReassemblyState}
    (h : RecordOf log sn st) (hw : st.Written) : Genuine log st.buffer := by
  obtain ⟨segs, hsub, hsn, rfl⟩ := h
  refine ⟨segs, sn, hsub, hsn, rfl, ?_, fun x hx => ?_⟩
  · rw [hw.length]
    exact assemble_expectedSize segs hw.hasEnd
  · have hcell : (assemble segs).buffer[x]? = some (assemble segs).buffer[x] :=
      List.getElem?_eq_getElem hx
    obtain ⟨b, hb⟩ := Option.isSome_iff_exists.mp (hw.cells _ (List.getElem_mem hx))
    rw [hb] at hcell
    obtain ⟨g, hg, hlo, hpayload⟩ := assemble_cell segs hcell
    exact ⟨g, hg, b, hlo, hpayload, hcell⟩

theorem RecordOf.empty (log : List Received) (sn : Nat) : RecordOf log sn {} := by
  refine ⟨[], List.nil_sublist _, ?_, rfl⟩
  intro g hg
  cases hg

theorem RecordOf.mono {log : List Received} {sn : Nat} {st : ReassemblyState}
    (h : RecordOf log sn st) (more : List Received) : RecordOf (log ++ more) sn st := by
  obtain ⟨segs, hsub, hsn, heq⟩ := h
  exact ⟨segs, List.sublist_append_of_sublist_left hsub, hsn, heq⟩

theorem Genuine.mono {log : List Received} {frame : List (Option UInt8)}
    (h : Genuine log frame) (more : List Received) : Genuine (log ++ more) frame := by
  obtain ⟨segs, sn, hsub, hrest⟩ := h
  exact ⟨segs, sn, List.sublist_append_of_sublist_left hsub, hrest⟩

namespace PdcpDl

/-! ## Runs -/

/-- If the record of the segment is complete with it, the sizes add up to its end, and
its segments are disjoint and end at `LAST`. -/
def CompletesWhole (d : PdcpDl) (g : Received) : Prop :=
  (d.recordBehind g).isComplete = true →
    d.finishes g = true ∧ (d.recordOf g.sn).Disjoint g.offset g.payload ∧ d.EndsAtLast g

/-- The segments that a call stores. -/
def storedBy (d : PdcpDl) : DlCall → List Received
  | .data pdcp => ((d.config.parse pdcp).map Prod.fst).getD []
  | _ => []

theorem storedBy_data {d : PdcpDl} {pdcp : List UInt8} {gs : List Received}
    {failure : Option DlStatus} (h : d.config.parse pdcp = some (gs, failure)) :
    d.storedBy (.data pdcp) = gs := by
  show ((d.config.parse pdcp).map Prod.fst).getD [] = gs
  rw [h]
  rfl

/-- A call, with the log of the segments that have been stored. -/
def loggedCall (s : PdcpDl × List Received) (call : DlCall) : Option (PdcpDl × List Received) :=
  (dlCall s.1 call).map (fun d => (d, s.2 ++ s.1.storedBy call))

/-- What holds along a run: every record is that of received segments, a complete one
is written, and the frames that wait are genuine. -/
structure Traced (d : PdcpDl) (log : List Received) : Prop where
  records : ∀ sn st, d.Holds sn st → RecordOf log sn st
  written : ∀ sn st, d.Holds sn st → st.isComplete = true → st.Written
  frames : ∀ f ∈ d.completedFrames, Genuine log f

theorem Traced.init (cfg : PdcpDlConfig) (log : List Received) : (init cfg).Traced log where
  records := fun sn st hholds => absurd hholds (init_not_holds cfg sn st)
  written := fun sn st hholds => absurd hholds (init_not_holds cfg sn st)
  frames := fun _ hf => by cases hf

theorem Traced.mono {d : PdcpDl} {log : List Received} (h : d.Traced log)
    (more : List Received) : d.Traced (log ++ more) where
  records := fun sn st hholds => (h.records sn st hholds).mono more
  written := h.written
  frames := fun f hf => (h.frames f hf).mono more

/-- The record behind a segment is that of one segment more. -/
theorem Traced.recordBehind {d : PdcpDl} {log : List Received} (h : d.Traced log)
    (g : Received) : RecordOf (log ++ [g]) g.sn (d.recordBehind g) := by
  have hrecord : RecordOf log g.sn (d.recordOf g.sn) := by
    rcases d.recordOf_cases g.sn with hempty | hholds
    · rw [hempty]
      exact RecordOf.empty log g.sn
    · exact h.records _ _ hholds
  obtain ⟨segs, hsub, hsn, heq⟩ := hrecord
  refine ⟨segs ++ [g], hsub.append (List.Sublist.refl _), ?_, ?_⟩
  · intro g' hg'
    rcases List.mem_append.mp hg' with hg' | hg'
    · exact hsn g' hg'
    · rw [List.mem_singleton.mp hg']
  · rw [assemble_append, ← heq]
    rfl

theorem CompletesWhole.written {d : PdcpDl} {g : Received} (h : d.CompletesWhole g)
    (hc : (d.recordBehind g).isComplete = true) : (d.recordBehind g).Written := by
  obtain ⟨hdone, hdisjoint, hend⟩ := h hc
  unfold finishes at hdone
  rw [Bool.and_eq_true, beq_iff_eq] at hdone
  exact ReassemblyState.receive_written hdisjoint hdone.1 hdone.2 (recordBehind_sizes hend hc)

/-- **A segment** keeps what holds along a run. -/
theorem Traced.rxReceived {d : PdcpDl} {log : List Received} (h : d.Traced log) {g : Received}
    (hg : d.CompletesWhole g) : (d.rxReceived g).Traced (log ++ [g]) where
  records := by
    intro sn st hholds
    rcases rxReceived_holds hholds with rfl | hold | ⟨rfl, rfl⟩
    · exact RecordOf.empty _ sn
    · exact (h.records sn st hold).mono [g]
    · exact h.recordBehind g
  written := by
    intro sn st hholds hc
    rcases rxReceived_holds hholds with rfl | hold | ⟨rfl, rfl⟩
    · cases hc
    · exact h.written sn st hold hc
    · exact hg.written hc
  frames := by
    rcases (d.rxReceived_delivers g).2.2 with ⟨hframes, -⟩ | ⟨hdone, -, hframes, -⟩
    · rw [hframes]
      exact (h.mono [g]).frames
    · rw [hframes]
      intro f hf
      rcases List.mem_append.mp hf with hf | hf
      · exact (h.frames f hf).mono [g]
      · rw [List.mem_singleton.mp hf]
        exact (h.recordBehind g).genuine (hg.written (finishes_complete hdone))

theorem Traced.foldl_rxReceived {d : PdcpDl} {log : List Received} (h : d.Traced log)
    {gs : List Received} (hgs : Steps PdcpDl.rxReceived CompletesWhole d gs) :
    (gs.foldl PdcpDl.rxReceived d).Traced (log ++ gs) := by
  induction gs generalizing d log with
  | nil =>
      rw [List.append_nil]
      exact h
  | cons g gs ih =>
      have hrest := ih (h.rxReceived hgs.1) hgs.2
      rwa [List.append_assoc] at hrest

theorem Traced.flush {d : PdcpDl} {log : List Received} (h : d.Traced log) :
    d.flushCompletedInOrder.Traced log := by
  refine flush_invariant (P := fun e => e.Traced log) (fun e e' he hstep => ?_) h
  obtain ⟨-, -, ⟨st, hholds, hc, hframes, -⟩, hkept⟩ := flushStep_delivers hstep
  refine ⟨fun sn st' hst' => he.records sn st' (hkept sn st' hst'),
    fun sn st' hst' => he.written sn st' (hkept sn st' hst'), ?_⟩
  rw [hframes]
  intro f hf
  rcases List.mem_append.mp hf with hf | hf
  · exact he.frames f hf
  · rw [List.mem_singleton.mp hf]
    exact (he.records _ st hholds).genuine (he.written _ st hholds hc)

theorem Traced.pop {d : PdcpDl} {log : List Received} (h : d.Traced log) :
    d.pop.1.Traced log := by
  unfold PdcpDl.pop
  split
  · exact h
  · rename_i rv others hframes
    refine ⟨h.records, h.written, fun f hf => h.frames f ?_⟩
    rw [hframes]
    exact List.mem_cons_of_mem _ hf

/-- **A call** keeps what holds along a run. -/
theorem Traced.loggedCall {s s' : PdcpDl × List Received} {call : DlCall}
    (h : s.1.Traced s.2) (hcall : s.1.EachStored CompletesWhole call)
    (hres : loggedCall s call = some s') : s'.1.Traced s'.2 := by
  obtain ⟨d, log⟩ := s
  obtain ⟨d', hd', rfl⟩ := Option.map_eq_some_iff.mp hres
  dsimp only at h hcall hd' ⊢
  cases call with
  | data pdcp =>
      obtain ⟨⟨e, returned⟩, hdata, rfl⟩ := Option.map_eq_some_iff.mp hd'
      rcases d.onPdcpData_cases pdcp with ⟨-, -, heq⟩ | ⟨rfl, heq⟩ |
          ⟨gs, status, -, hparse, heq⟩ | ⟨gs, -, hparse, heq⟩
      · rw [heq] at hdata
        cases hdata
      · rw [heq] at hdata
        cases hdata
        have hsame := h.mono (d.storedBy (.data []))
        exact ⟨hsame.records, hsame.written, hsame.frames⟩
      · have hstored := h.foldl_rxReceived (hcall pdcp _ rfl hparse)
        rw [heq] at hdata
        cases hdata
        rw [storedBy_data hparse]
        exact ⟨hstored.records, hstored.written, hstored.frames⟩
      · have hstored := h.foldl_rxReceived (hcall pdcp _ rfl hparse)
        rw [heq] at hdata
        cases hdata
        rw [storedBy_data hparse]
        split_ifs
        · exact hstored.flush
        · exact hstored
  | pop =>
      cases hd'
      exact h.pop.mono _
  | reset =>
      cases hd'
      exact Traced.init _ _
  | reconfigure cfg =>
      cases hd'
      exact Traced.init _ _

/-- **Delivered frames** hold bytes of received segments only, and end where a `LAST`
one of them does, in every run in which the frames are completed by disjoint segments
that end at `LAST`. -/
theorem delivered_frames_genuine (cfg : PdcpDlConfig) (calls : List DlCall)
    (h : Calls PdcpDl.loggedCall (fun s call => s.1.EachStored CompletesWhole call)
      (init cfg, []) calls) :
    Throughout PdcpDl.loggedCall (fun s => ∀ f ∈ s.1.completedFrames, Genuine s.2 f)
      (init cfg, []) calls := by
  have htraced : Throughout PdcpDl.loggedCall (fun s => s.1.Traced s.2) (init cfg, []) calls :=
    throughout_of_calls (fun s call s' hs hcall hres => hs.loggedCall hcall hres)
      (Traced.init cfg []) h
  exact htraced.mono fun s hs => hs.frames

/-- A frame of two bytes in two segments is delivered whole. -/
theorem two_segments_genuine :
    Calls PdcpDl.loggedCall (fun s call => s.1.EachStored CompletesWhole call)
        (init segmented, [])
        [.data (encodeAll segmented.layout [⟨0, 0, false, [7]⟩, ⟨0, 1, true, [8]⟩])] ∧
      Throughout PdcpDl.loggedCall (fun s => ∀ f ∈ s.1.completedFrames, Genuine s.2 f)
        (init segmented, [])
        [.data (encodeAll segmented.layout [⟨0, 0, false, [7]⟩, ⟨0, 1, true, [8]⟩])] := by
  have hfits : ∀ g ∈ [(⟨0, 0, false, [7]⟩ : Seg), ⟨0, 1, true, [8]⟩],
      g.Fits segmented.layout := by
    simp only [List.forall_mem_cons]
    exact ⟨⟨by decide, by decide, by decide, by decide⟩,
      ⟨by decide, by decide, by decide, by decide⟩, List.forall_mem_nil _⟩
  have hparse : segmented.parse (encodeAll segmented.layout _) = some _ :=
    PdcpDlConfig.parse_encodeAll hfits
  have hcalls : Calls PdcpDl.loggedCall (fun s call => s.1.EachStored CompletesWhole call)
      (init segmented, [])
      [.data (encodeAll segmented.layout [⟨0, 0, false, [7]⟩, ⟨0, 1, true, [8]⟩])] := by
    refine ⟨?_, fun _ _ => trivial⟩
    rintro pdcp r hdata hr
    cases hdata
    rw [show (init segmented).config.parse _ = _ from hparse] at hr
    cases hr
    refine ⟨?_, ?_, trivial⟩
    · intro hc
      exact absurd hc (by decide)
    · intro _
      have hwhole : ∀ c ∈ [(some 8 : Option UInt8)], c.isSome = true :=
        List.forall_mem_singleton.mpr rfl
      exact ⟨by decide, ⟨by decide, fun _ => hwhole, fun _ => List.forall_mem_nil _⟩, by decide⟩
  exact ⟨hcalls, delivered_frames_genuine segmented _ hcalls⟩

/-- The frame of `gapSegments` has 15 bytes, of which the first five were never written;
its only `LAST` segment ends at 10. -/
theorem gap_not_genuine :
    ¬ Throughout PdcpDl.loggedCall (fun s => ∀ f ∈ s.1.completedFrames, Genuine s.2 f)
      (init segmented, []) [.data (encodeAll segmented.layout gapSegments)] := by
  have hparse : segmented.parse (encodeAll segmented.layout gapSegments) = some _ :=
    PdcpDlConfig.parse_encodeAll gapSegments_fits
  have hcall := dlCall_of_parse (d := init segmented) (by decide) rfl hparse
  have hlogged : PdcpDl.loggedCall (init segmented, [])
      (.data (encodeAll segmented.layout gapSegments)) =
        some ((gapSegments.map (Seg.toReceived segmented.layout)).foldl PdcpDl.rxReceived
          (init segmented), gapSegments.map (Seg.toReceived segmented.layout)) := by
    unfold PdcpDl.loggedCall
    rw [hcall, storedBy_data hparse]
    rfl
  intro h
  obtain ⟨segs, sn, hsub, -, -, ⟨g, hg, hlast, hend⟩, -⟩ :=
    (h.2 _ hlogged).first (List.replicate 5 none ++ [6, 7, 8, 9, 10, 1, 2, 3, 4, 5].map some)
      (by decide)
  rcases List.mem_cons.mp (hsub.subset hg) with rfl | hmem
  · cases hlast
  · rw [List.mem_singleton.mp hmem] at hend
    revert hend
    decide

end PdcpDl

end Winject.Pdcp
