import Winject.Pdcp.Dl
import Winject.Pdcp.Sent

/-!
# The downlink never delivers a wrong frame

The receiver is fed with PDUs that an uplink has written, lost, repeated and
reordered in any way (`Sent`).

`DlSafe w base hi n d` is the invariant of the receiver: every occupied slot
and every overflow entry holds pieces of one frame with index in
`[base, hi)`, and the next expected number is that of frame `n`.  Since the
window is shorter than the sequence number space, the entry that a flush
picks is that of frame `n` itself.

## Main results

* `DlSafe.rxSegment` — storing a piece keeps the invariant.
* `DlSafe.flush` — a flush delivers the frames from `n` on, in order.
* `popped_prefix` — along every run the popped frames are a prefix of the
  pushed ones.
-/

namespace Winject.Pdcp

open Winject.Frames
open Winject.Lib.Bytes
open Winject.Lib.Reassembly
open Winject.Lib.Segmentation

/-! ## Reassembly states as assemblies -/

/-- A reassembly state without its cached completion flag. -/
def ReassemblyState.asm (st : ReassemblyState) : Assembly (Option UInt8) where
  buffer := st.buffer
  accumulated := st.accumulatedSize
  expected := if st.hasExpectedSize then some st.expectedSize else none
  offsets := st.recvdOffsets

/-- The completion test of `on_pdcp_data`. -/
theorem ReassemblyState.asm_isComplete (st : ReassemblyState) :
    st.asm.isComplete =
      (st.hasExpectedSize && st.accumulatedSize == st.expectedSize) := by
  unfold Assembly.isComplete ReassemblyState.asm
  cases st.hasExpectedSize with
  | false => rfl
  | true =>
      simp only [if_true, Bool.true_and]
      by_cases h : st.accumulatedSize = st.expectedSize
      · simp [h]
      · simp [h, Ne.symm h]

/-- The assembly does not see the cached flag. -/
private theorem ReassemblyState.asm_setComplete (st : ReassemblyState) (c : Bool) :
    (if c then { st with isComplete := true } else st).asm = st.asm := by
  cases c <;> rfl

theorem ReassemblyState.receive_asm (st : ReassemblyState) (offset : Nat)
    (payload : List (Option UInt8)) (last : Bool) :
    (st.receive offset payload last).asm =
      st.asm.absorb none offset payload last := by
  have hkeep : ¬ st.buffer.length < offset + payload.length →
      grow none (offset + payload.length) st.buffer = st.buffer :=
    fun h => grow_of_le _ _ _ (Nat.not_lt.mp h)
  unfold receive
  dsimp only
  rw [asm_setComplete]
  by_cases hlen : st.buffer.length < offset + payload.length
  · by_cases hdup : offset ∈ st.recvdOffsets <;> cases last <;>
      simp [asm, Assembly.absorb, hlen, hdup]
  · by_cases hdup : offset ∈ st.recvdOffsets <;> cases last <;>
      simp [asm, Assembly.absorb, hlen, hdup, hkeep hlen]

/-- The cached flag is set when the test succeeds and never cleared. -/
theorem ReassemblyState.receive_isComplete (st : ReassemblyState) (offset : Nat)
    (payload : List (Option UInt8)) (last : Bool) :
    (st.receive offset payload last).isComplete =
      (st.isComplete || (st.receive offset payload last).asm.isComplete) := by
  rw [asm_isComplete]
  unfold receive
  dsimp only
  split_ifs <;> simp_all

/-! ## What a state holds -/

variable {frames : List (List UInt8)} {ps : List Piece} {pos : Nat × Nat}

/-- The state holds the pieces `got` of frame `i` and its flag is accurate. -/
structure HoldsFrame (w : Sent frames ps pos) (i : Nat) (got : Finset Nat)
    (st : ReassemblyState) : Prop where
  lt : i < frames.length
  holds : Holds (w.cut i lt) got st.asm
  flag : st.isComplete = st.asm.isComplete

namespace HoldsFrame

variable {w : Sent frames ps pos} {i : Nat} {got : Finset Nat} {st : ReassemblyState}

theorem empty (w : Sent frames ps pos) {i : Nat} (hi : i < frames.length) :
    HoldsFrame w i ∅ {} :=
  ⟨hi, Holds.empty _, rfl⟩

/-- Storing a piece of the frame. -/
theorem receive (h : HoldsFrame w i got st) {j : Nat}
    (hj : j < (w.cut i h.lt).count) :
    HoldsFrame w i (insert j got)
      (st.receive ((w.cut i h.lt).offset j) ((w.cut i h.lt).piece j)
        ((w.cut i h.lt).isLast j)) := by
  have hholds := h.holds.absorb none hj
  rw [← st.receive_asm] at hholds
  refine ⟨h.lt, hholds, ?_⟩
  rw [st.receive_isComplete, h.flag]
  -- a complete record stays complete: it already had every piece
  cases hold : st.asm.isComplete with
  | false => rw [Bool.false_or]
  | true =>
      have hgot := h.holds.isComplete_iff.mp hold
      have hins : insert j got = got := by
        apply Finset.insert_eq_of_mem
        rw [hgot]
        exact Finset.mem_range.mpr hj
      rw [Bool.true_or, hholds.isComplete_iff.mpr (hins.trans hgot)]

theorem complete_iff (h : HoldsFrame w i got st) :
    st.isComplete = true ↔ got = Finset.range (w.cut i h.lt).count := by
  rw [h.flag]
  exact h.holds.isComplete_iff

/-- A complete state holds the frame. -/
theorem buffer_eq (h : HoldsFrame w i got st) (hc : st.isComplete = true) :
    st.buffer = (frames.getD i []).map some := by
  rw [h.flag] at hc
  exact h.holds.buffer_eq hc

end HoldsFrame

/-! ## The invariant -/

/-- The state under number `sn` holds pieces of one frame of the window. -/
def EntryOk (w : Sent frames ps pos) (base hi sn : Nat) (st : ReassemblyState) :
    Prop :=
  ∃ i got, base ≤ i ∧ i < hi ∧ i % 65536 = sn ∧ HoldsFrame w i got st

/-- Every state of the receiver holds pieces of one frame of the window
`[base, hi)`, and frame `n` is the next to be delivered. -/
structure DlSafe (w : Sent frames ps pos) (base hi n : Nat) (d : PdcpDl) : Prop where
  reord : d.config.allowReordering = true
  ring : ∀ (idx : Nat) (slot : Slot), d.reorderRing[idx]? = some slot →
    slot.valid = true →
    idx = d.slotIndex slot.sn ∧ EntryOk w base hi slot.sn slot.state
  overflow : ∀ e ∈ d.overflowDeque, EntryOk w base hi e.1 e.2
  next : d.nextExpectedSn = n % 65536
  base_le : base ≤ n
  le_hi : n ≤ hi
  window : hi ≤ base + 65535

namespace DlSafe

variable {w : Sent frames ps pos} {base hi n : Nat} {d : PdcpDl}

/-- Overwriting a slot does not move the others. -/
theorem slotIndex_set (d : PdcpDl) (idx : Nat) (slot : Slot) (sn : Nat) :
    ({ d with reorderRing := d.reorderRing.set idx slot } : PdcpDl).slotIndex sn =
      d.slotIndex sn := by
  unfold PdcpDl.slotIndex
  rw [List.length_set]

/-- Storing a piece of a frame of the window. -/
theorem rxSegment (h : DlSafe w base hi n d) {i j : Nat} (hi' : i < frames.length)
    (hbase : base ≤ i) (hlt : i < hi) (hj : j < (w.cut i hi').count) :
    DlSafe w base hi n (d.rxSegment (i % 65536) ((w.cut i hi').offset j)
      ((w.cut i hi').isLast j) ((w.cut i hi').piece j)) := by
  -- an entry for this number belongs to frame `i`: the window has no alias
  have hupdate : ∀ st, EntryOk w base hi (i % 65536) st →
      EntryOk w base hi (i % 65536) (st.receive ((w.cut i hi').offset j)
        ((w.cut i hi').piece j) ((w.cut i hi').isLast j)) := by
    rintro st ⟨i', got, hb, hl, hmod, hold⟩
    have hwin := h.window
    obtain rfl : i' = i := by omega
    exact ⟨i', _, hb, hl, rfl, hold.receive hj⟩
  have hfresh : EntryOk w base hi (i % 65536) {} :=
    ⟨i, ∅, hbase, hlt, rfl, HoldsFrame.empty w hi'⟩
  rcases d.rxSegment_cases h.reord (i % 65536) ((w.cut i hi').offset j)
      ((w.cut i hi').isLast j) ((w.cut i hi').piece j) with
    ⟨slot, hslot, hsn, heq⟩ | ⟨_, ⟨k, hk, hfind, heq⟩ | ⟨_, heq⟩⟩
  · rw [heq]
    refine ⟨h.reord, ?_, h.overflow, h.next, h.base_le, h.le_hi, h.window⟩
    intro idx s hs hvalid
    rw [slotIndex_set]
    dsimp only at hs
    rw [List.getElem?_set] at hs
    split at hs
    · rename_i hidx
      split at hs
      · obtain rfl := Option.some.inj hs
        refine ⟨hidx.symm, hupdate _ ?_⟩
        split
        · rename_i hv
          have hentry := (h.ring _ slot hslot hv).2
          rwa [hsn hv] at hentry
        · exact hfresh
      · cases hs
    · exact h.ring idx s hs hvalid
  · rw [heq]
    refine ⟨h.reord, h.ring, ?_, h.next, h.base_le, h.le_hi, h.window⟩
    obtain ⟨_, hp, _⟩ := List.findIdx?_eq_some_iff_getElem.mp hfind
    intro e he
    rcases List.mem_or_eq_of_mem_set he with hmem | rfl
    · exact h.overflow e hmem
    · apply hupdate
      have hentry := h.overflow _ (List.get_mem d.overflowDeque ⟨k, hk⟩)
      rwa [show (d.overflowDeque.get ⟨k, hk⟩).1 = i % 65536 from beq_iff_eq.mp hp]
        at hentry
  · rw [heq]
    refine ⟨h.reord, h.ring, ?_, h.next, h.base_le, h.le_hi, h.window⟩
    intro e he
    rcases List.mem_append.mp he with hmem | hnew
    · exact h.overflow e hmem
    · obtain rfl := List.mem_singleton.mp hnew
      exact hupdate _ hfresh

/-- The entry of the next expected number is that of frame `n`. -/
theorem entry_next (h : DlSafe w base hi n d) {st : ReassemblyState}
    (hentry : EntryOk w base hi d.nextExpectedSn st) :
    n < hi ∧ ∃ got, HoldsFrame w n got st := by
  obtain ⟨i, got, hb, hl, hmod, hold⟩ := hentry
  have hnext := h.next
  have hbase := h.base_le
  have hle := h.le_hi
  have hwin := h.window
  obtain rfl : i = n := by omega
  exact ⟨hl, got, hold⟩

/-- A flush step delivers frame `n`. -/
theorem flushStep (h : DlSafe w base hi n d) {d' : PdcpDl}
    (hstep : d.flushStep = some d') :
    n < frames.length ∧ DlSafe w base hi (n + 1) d' ∧
      d'.completedFrames = d.completedFrames ++ [(frames.getD n []).map some] := by
  have hnext' : (d.nextExpectedSn + 1) % 65536 = (n + 1) % 65536 := by
    have := h.next
    omega
  have hbase := h.base_le
  rcases PdcpDl.flushStep_cases hstep with
    ⟨slot, hget, hvalid, hsn, hcomplete, rfl⟩ | ⟨k, hk, hsn, hcomplete, rfl⟩
  · have hentry := (h.ring _ slot hget hvalid).2
    rw [hsn] at hentry
    obtain ⟨hlt, got, hold⟩ := h.entry_next hentry
    refine ⟨hold.lt, ⟨h.reord, ?_, h.overflow, hnext', by omega, hlt, h.window⟩, ?_⟩
    · intro idx s hs hv
      show idx = ({ d with reorderRing := _ } : PdcpDl).slotIndex s.sn ∧ _
      rw [slotIndex_set]
      dsimp only at hs
      rw [List.getElem?_set] at hs
      split at hs
      · split at hs
        · obtain rfl := Option.some.inj hs
          cases hv
        · cases hs
      · exact h.ring idx s hs hv
    · dsimp only
      rw [hold.buffer_eq hcomplete]
  · have hentry := h.overflow _ (List.get_mem d.overflowDeque ⟨k, hk⟩)
    rw [hsn] at hentry
    obtain ⟨hlt, got, hold⟩ := h.entry_next hentry
    refine ⟨hold.lt, ⟨h.reord, h.ring, ?_, hnext', by omega, hlt, h.window⟩, ?_⟩
    · intro e he
      exact h.overflow e ((List.eraseIdx_sublist _ _).subset he)
    · dsimp only
      rw [hold.buffer_eq hcomplete]

end DlSafe

/-- A sent piece reaches the loop body as a piece of the cutting of its frame.
Without the `OFFSET` field pieces are whole frames, so the offset the receiver
assumes is the right one. -/
theorem rxSeg_piece (w : Sent frames ps pos) {d : PdcpDl}
    (hwhole : d.config.allowSegmentation = false → ∀ p ∈ ps, p.offset = 0)
    {p : Piece} (hp : p ∈ ps) (hi : p.frame < frames.length) :
    ∃ j, j < (w.cut p.frame hi).count ∧ p.offset = (w.cut p.frame hi).offset j ∧
      p.len = (w.cut p.frame hi).size j ∧
      d.rxSeg (segOf frames p) = d.rxSegment
        (if d.config.allowReordering then p.frame % 65536 else 0)
        ((w.cut p.frame hi).offset j) ((w.cut p.frame hi).isLast j)
        ((w.cut p.frame hi).piece j) := by
  obtain ⟨j, hj, hoff, hsize, hlast, hbytes⟩ := w.piece hp hi
  refine ⟨j, hj, hoff, hsize, ?_⟩
  have hoffset : (if d.config.allowSegmentation = true then p.offset else 0) =
      (w.cut p.frame hi).offset j := by
    rw [← hoff]
    split
    · rfl
    · rename_i hns
      rw [Bool.not_eq_true] at hns
      exact (hwhole hns p hp).symm
  show d.rxSegment (if d.config.allowReordering = true then p.frame % 65536 else 0)
    (if d.config.allowSegmentation = true then p.offset else 0)
    (p.isLast frames) ((p.bytes frames).map some) = _
  rw [hoffset, hlast, hbytes]

/-- What has been popped or is ready to be popped is the first `n` frames. -/
structure DlInv (w : Sent frames ps pos) (base hi n : Nat)
    (popped : List (List (Option UInt8))) (d : PdcpDl) : Prop
    extends DlSafe w base hi n d where
  out : popped ++ d.completedFrames = (frames.take n).map (·.map some)

namespace DlInv

variable {w : Sent frames ps pos} {base hi n : Nat} {d : PdcpDl}
  {popped : List (List (Option UInt8))}

/-- Storing a sent piece of a frame of the window. -/
theorem rxSeg (h : DlInv w base hi n popped d)
    (hwhole : d.config.allowSegmentation = false → ∀ p ∈ ps, p.offset = 0)
    {p : Piece} (hp : p ∈ ps) (hbase : base ≤ p.frame) (hlt : p.frame < hi) :
    DlInv w base hi n popped (d.rxSeg (segOf frames p)) := by
  have hlen : p.frame < frames.length := (w.emits.mem_bounds hp).1
  obtain ⟨j, hj, _, _, hrx⟩ := rxSeg_piece w hwhole hp hlen
  rw [hrx, if_pos h.reord]
  refine ⟨h.toDlSafe.rxSegment hlen hbase hlt hj, ?_⟩
  rw [(d.rxSegment_frame h.reord _ _ _ _).1]
  exact h.out

theorem foldl_rxSeg (h : DlInv w base hi n popped d)
    (hwhole : d.config.allowSegmentation = false → ∀ p ∈ ps, p.offset = 0)
    (qs : List Piece) (hqs : ∀ p ∈ qs, p ∈ ps ∧ base ≤ p.frame ∧ p.frame < hi) :
    DlInv w base hi n popped ((qs.map (segOf frames)).foldl PdcpDl.rxSeg d) := by
  induction qs generalizing d with
  | nil => exact h
  | cons q qs ih =>
      obtain ⟨hmem, hbase, hlt⟩ := hqs q (List.mem_cons_self ..)
      exact ih (h.rxSeg hwhole hmem hbase hlt) (by rw [PdcpDl.rxSeg_config]; exact hwhole)
        (fun p hp => hqs p (List.mem_cons_of_mem _ hp))

theorem flushStep (h : DlInv w base hi n popped d) {d' : PdcpDl}
    (hstep : d.flushStep = some d') : DlInv w base hi (n + 1) popped d' := by
  obtain ⟨hn, hsafe, hout⟩ := h.toDlSafe.flushStep hstep
  refine ⟨hsafe, ?_⟩
  rw [hout, ← List.append_assoc, h.out, List.take_add_one,
    List.getElem?_eq_getElem hn, List.getD_eq_getElem?_getD,
    List.getElem?_eq_getElem hn, List.map_append]
  rfl

/-- A call of `on_pdcp_data` on a written PDU. -/
theorem onPdcpData (h : DlInv w base hi n popped d)
    (hwhole : d.config.allowSegmentation = false → ∀ p ∈ ps, p.offset = 0)
    {qs : List Piece} (hne : qs ≠ [])
    (hqs : ∀ p ∈ qs, p ∈ ps ∧ base ≤ p.frame ∧ p.frame < hi)
    (hlen : (pduOf d.config.layout frames qs).length ≤ 32767) :
    ∃ d' n', d.onPdcpData (pduOf d.config.layout frames qs) = some (d', true) ∧
      n ≤ n' ∧ DlInv w base hi n' popped d' ∧ d'.flushStep = none ∧
      d' = ((qs.map (segOf frames)).foldl PdcpDl.rxSeg d).flushCompletedInOrder := by
  have hfits := pduOf_fits (l := d.config.layout) w.ok
    (fun p hp => w.emits.mem_bounds (hqs p hp).1) hlen
  have hcall := d.onPdcpData_encodeAll (qs.map (segOf frames))
    (by simpa using hne) hfits
  obtain ⟨n', hle, hinv, hstop⟩ :=
    PdcpDl.flush_rule (P := fun m e => DlInv w base hi m popped e)
      (fun m e e' he hs => he.flushStep hs) n _ (h.foldl_rxSeg hwhole qs hqs)
  refine ⟨_, n', ?_, hle, hinv, hstop, rfl⟩
  rw [pduOf, hcall, if_pos h.reord]

/-- Popping moves a frame from the queue to the output. -/
theorem pop (h : DlInv w base hi n popped d) :
    DlInv w base hi n
      (popped ++ if d.getOutstandingPacket = 0 then [] else [d.pop.2]) d.pop.1 := by
  have hout := h.out
  cases hq : d.completedFrames with
  | nil =>
      have hpop : d.pop = (d, []) := by simp only [PdcpDl.pop, hq]
      have hzero : d.getOutstandingPacket = 0 := by
        simp only [PdcpDl.getOutstandingPacket, hq, List.length_nil]
      rw [hpop, if_pos hzero, List.append_nil]
      exact h
  | cons rv others =>
      have hzero : d.getOutstandingPacket ≠ 0 := by
        simp [PdcpDl.getOutstandingPacket, hq]
      rw [hq] at hout
      simp only [PdcpDl.pop, hq, if_neg hzero]
      exact ⟨⟨h.reord, h.ring, h.overflow, h.next, h.base_le, h.le_hi, h.window⟩,
        by rw [← hout, List.append_assoc]; rfl⟩

end DlInv

/-- A fresh receiver. -/
theorem DlInv.init (w : Sent frames ps pos) (cfg : PdcpDlConfig)
    (hre : cfg.allowReordering = true) (hlen : frames.length ≤ 65535) :
    DlInv w 0 frames.length 0 [] (PdcpDl.init cfg) where
  reord := hre
  ring := by
    intro idx slot hget hvalid
    have hmem := List.mem_of_getElem? hget
    obtain rfl := (List.mem_replicate.mp hmem).2
    cases hvalid
  overflow := by intro e he; cases he
  next := rfl
  base_le := Nat.le_refl 0
  le_hi := Nat.zero_le _
  window := by omega
  out := rfl

/-! ## Runs -/

/-- Both ends use sequence numbers and the same segment layout. -/
structure Paired (ucfg : PdcpUlConfig) (dcfg : PdcpDlConfig) : Prop where
  ul : ucfg.allowReordering = true
  dl : dcfg.allowReordering = true
  seg : dcfg.allowSegmentation = ucfg.allowSegmentation

theorem Paired.layout {ucfg : PdcpUlConfig} {dcfg : PdcpDlConfig}
    (h : Paired ucfg dcfg) : dcfg.layout = ucfg.layout := by
  unfold PdcpDlConfig.layout PdcpUlConfig.layout
  rw [h.ul, h.dl, h.seg]

/-- The invariant along a run fed with written PDUs. -/
theorem dlRun_inv {ucfg : PdcpUlConfig} {dcfg : PdcpDlConfig}
    (hpair : Paired ucfg dcfg) {pss : List (List Piece)}
    {r : PdcpUl × List (List UInt8)}
    (hul : RunEmitted ucfg 32767 frames (0, 0) pss pos r)
    (w : Sent frames pss.flatten pos) (ops : List DlOp)
    (hops : ∀ op ∈ ops, op.DrawnFrom r.2)
    (n : Nat) (popped : List (List (Option UInt8))) (d : PdcpDl)
    (hcfg : d.config = dcfg) (h : DlInv w 0 frames.length n popped d) :
    ∃ d' n' later, dlRun d ops = some (d', later) ∧
      DlInv w 0 frames.length n' (popped ++ later) d' := by
  induction ops generalizing n popped d with
  | nil => exact ⟨d, n, [], rfl, by rwa [List.append_nil]⟩
  | cons op ops ih =>
      have hrest : ∀ o ∈ ops, o.DrawnFrom r.2 :=
        fun o ho => hops o (List.mem_cons_of_mem _ ho)
      cases op with
      | pop =>
          have hpopcfg : d.pop.1.config = dcfg := by
            rw [← hcfg]
            unfold PdcpDl.pop
            split <;> rfl
          obtain ⟨d', n', later, hrun, hinv⟩ := ih hrest n _ _ hpopcfg h.pop
          refine ⟨d', n', _, ?_, by rw [List.append_assoc] at hinv; exact hinv⟩
          simp only [dlRun, dlStep, Option.bind_eq_bind, Option.bind_some, hrun]
          rfl
      | data pdu =>
          have hmem : pdu ∈ r.2 := hops (.data pdu) (List.mem_cons_self ..)
          rw [hul.pdus] at hmem
          obtain ⟨qs, hqs, rfl⟩ := List.mem_map.mp hmem
          have hlayout : ucfg.layout = d.config.layout := by rw [hcfg, hpair.layout]
          have hlen := hul.length qs hqs
          rw [hlayout] at hlen ⊢
          have hwhole : d.config.allowSegmentation = false →
              ∀ p ∈ pss.flatten, p.offset = 0 := by
            intro hns p hp
            rw [hcfg, hpair.seg] at hns
            exact (hul.whole hns p hp).1
          have hin : ∀ p ∈ qs, p ∈ pss.flatten ∧ 0 ≤ p.frame ∧
              p.frame < frames.length := by
            intro p hp
            have hflat := List.mem_flatten.mpr ⟨qs, hqs, hp⟩
            exact ⟨hflat, Nat.zero_le _, (w.emits.mem_bounds hflat).1⟩
          obtain ⟨d₁, n₁, hcall, _, hinv₁, _, hd₁⟩ :=
            h.onPdcpData hwhole (hul.nonempty qs hqs) hin hlen
          have hcfg₁ : d₁.config = dcfg := by
            rw [hd₁, PdcpDl.flush_config, PdcpDl.foldl_rxSeg_config, hcfg]
          obtain ⟨d', n', later, hrun, hinv⟩ := ih hrest n₁ popped d₁ hcfg₁ hinv₁
          refine ⟨d', n', later, ?_, hinv⟩
          simp only [dlRun, dlStep, hcall, Option.map_some, Option.bind_eq_bind,
            Option.bind_some, hrun]
          rfl

/-- The popped frames are a prefix of the pushed ones, whatever happens to the
PDUs on the way. -/
theorem popped_prefix (ucfg : PdcpUlConfig) (dcfg : PdcpDlConfig)
    (hpair : Paired ucfg dcfg) (uops : List UlOp)
    (huops : ∀ op ∈ uops, OpOk 32767 op)
    (hcount : (pushedFrames uops).length ≤ 65535) (dops : List DlOp)
    (hdops : ∀ op ∈ dops, op.DrawnFrom (ulRun { config := ucfg } uops).2) :
    ∃ d popped, dlRun (PdcpDl.init dcfg) dops = some (d, popped) ∧
      popped <+: (pushedFrames uops).map (·.map some) := by
  obtain ⟨pss, pos, hul⟩ := ulRun_emits (Nat.le_refl 32767) uops huops []
    (by simp) _ _ (UlAt.init ucfg)
  rw [List.nil_append] at hul
  have w : Sent (pushedFrames uops) pss.flatten pos :=
    ⟨hul.emits, pushedFrames_ok uops huops⟩
  obtain ⟨d, n, popped, hrun, hinv⟩ := dlRun_inv hpair hul w dops hdops 0 []
    (PdcpDl.init dcfg) rfl (DlInv.init w dcfg hpair.dl hcount)
  rw [List.nil_append] at hinv
  refine ⟨d, popped, hrun, ?_⟩
  have htake : (pushedFrames uops).take n <+: pushedFrames uops :=
    List.take_prefix n _
  exact (List.prefix_append popped d.completedFrames).trans
    (hinv.out ▸ htake.map _)

/-- Two frames in two PDUs, the second PDU delivered first and repeated. -/
theorem popped_prefix_reordered :
    ∃ d popped, dlRun (PdcpDl.init ⟨true, true, 1⟩)
      [.data [128, 7, 0, 0, 0, 1, 2, 128, 7, 0, 1, 0, 0, 3],
        .data [0, 7, 0, 0, 0, 0, 1], .pop,
        .data [128, 7, 0, 0, 0, 1, 2, 128, 7, 0, 1, 0, 0, 3], .pop] =
        some (d, popped) ∧
      popped <+: [[some 1, some 2], [some 3]] :=
  popped_prefix ⟨true, true, 7⟩ ⟨true, true, 1⟩ ⟨rfl, rfl, rfl⟩
    [.frame [1, 2], .frame [3], .write (List.replicate 7 0),
      .write (List.replicate 16 0)]
    (by decide) (by decide) _ (by decide +kernel)

end Winject.Pdcp
