import Winject.LegacyLlc.OnRx

/-!
# The walk over a received frame (`AppRRC::process_rx_frame`)

The data region of a frame is walked by the sizes in the headers, and each PDU goes
to the LLC of the channel in its header.  `RxSide` is the map `llcs`, with the PDUs
that `on_rx` was called with.

## Main results

* `processRxFrame_lcid_lt` — only the channels below 16 are ever given a PDU.
-/

namespace Winject.TxScheduler

open Winject.Frames
open Winject.LegacyLlc
open Winject.Lib.Bytes

/-- The map `llcs` of `AppRRC`.  `dispatched` are the calls of `on_rx`: the channel
and the bytes of the PDU.  `fault` says that one of them has divided by zero or looked behind
the end of `sn_ring`.  No function reads these two. -/
structure RxSide where
  llcs : UInt8 → Option Llc
  dispatched : List (UInt8 × List UInt8) := []
  fault : Bool := false

/-- The bytes from `base` on behind `on_rx`: the checksum field may have been set
to zero. -/
def bytesBehind (l : Llc) (info : RxInfo) : List UInt8 :=
  if !l.isRxEnabled && l.rxConfig.autoInitOnRx then info.base
  else if (LlcPdu.new info.base info.size l.rxCrcSize).getSIZE > info.size then info.base
  else (l.rxPdu info).base

theorem bytesBehind_drop (l : Llc) (info : RxInfo) {k : Nat}
    (h : l.rxConfig.crcType = .crc32 → 7 ≤ k) :
    (bytesBehind l info).drop k = info.base.drop k := by
  unfold bytesBehind
  split_ifs
  · rfl
  · rfl
  · exact l.rxPdu_drop info h

@[simp] theorem bytesBehind_length (l : Llc) (info : RxInfo) :
    (bytesBehind l info).length = info.base.length := by
  unfold bytesBehind Llc.rxPdu Llc.clearCrc
  split_ifs
  · rfl
  · rfl
  · exact poke_length ..
  · rfl

/-- The PDU at the cursor goes to its channel; one of an unknown channel is
skipped. -/
def dispatch (s : RxSide) (lcid : UInt8) (size : Nat) (cursor : List UInt8) :
    Option (RxSide × List UInt8) :=
  match s.llcs lcid with
  | none => some (s, cursor.drop size)
  | some llc =>
    if size > cursor.length then none
    else
      some
        ({ llcs := Function.update s.llcs lcid (some (llc.onRx ⟨cursor, size⟩).llc)
           dispatched := s.dispatched ++ [(lcid, cursor.take size)]
           fault := s.fault || (llc.onRx ⟨cursor, size⟩).fault },
          (bytesBehind llc ⟨cursor, size⟩).drop size)

/-- One iteration: the new state and the bytes from the new cursor on, or `none` at
a `break`. -/
def walkStep (s : RxSide) (cursor : List UInt8) : Option (RxSide × List UInt8) :=
  let llcPdu := LlcPdu.new cursor cursor.length 0
  if llcPdu.getHeaderSize > cursor.length then none
  else if llcPdu.getSIZE = 0 then none
  else dispatch s llcPdu.getLCID llcPdu.getSIZE cursor

theorem dispatch_cases {s s' : RxSide} {lcid : UInt8} {size : Nat} {cursor cursor' : List UInt8}
    (h : dispatch s lcid size cursor = some (s', cursor')) :
    (s' = s ∧ cursor'.length = cursor.length - size) ∨
      (s'.dispatched = s.dispatched ++ [(lcid, cursor.take size)] ∧
        cursor'.length = cursor.length - size) := by
  unfold dispatch at h
  split at h
  · cases h
    exact Or.inl ⟨rfl, List.length_drop⟩
  · split_ifs at h
    cases h
    refine Or.inr ⟨rfl, ?_⟩
    rw [List.length_drop, bytesBehind_length]

theorem walkStep_cases {s s' : RxSide} {cursor cursor' : List UInt8}
    (h : walkStep s cursor = some (s', cursor')) :
    3 ≤ cursor.length ∧ (LlcPdu.new cursor cursor.length 0).getSIZE ≠ 0 ∧
      dispatch s (LlcPdu.new cursor cursor.length 0).getLCID
        (LlcPdu.new cursor cursor.length 0).getSIZE cursor = some (s', cursor') := by
  unfold walkStep at h
  dsimp only at h
  split_ifs at h with hheader hzero
  have hhdr : (LlcPdu.new cursor cursor.length 0).getHeaderSize = 3 := rfl
  exact ⟨by omega, hzero, h⟩

theorem walkStep_length {s s' : RxSide} {cursor cursor' : List UInt8}
    (h : walkStep s cursor = some (s', cursor')) : cursor'.length < cursor.length := by
  obtain ⟨hlen, hzero, hd⟩ := walkStep_cases h
  rcases dispatch_cases hd with ⟨-, hrest⟩ | ⟨-, hrest⟩ <;> omega

/-- `AppRRC::process_rx_frame` on the data region. -/
def processRxFrame (s : RxSide) (cursor : List UInt8) : RxSide :=
  if cursor.length > 0 then
    match _h : walkStep s cursor with
    | none => s
    | some (s', cursor') => processRxFrame s' cursor'
  else s
termination_by cursor.length
decreasing_by exact walkStep_length _h

theorem processRxFrame_nil (s : RxSide) : processRxFrame s [] = s := by
  rw [processRxFrame]
  exact if_neg (Nat.lt_irrefl 0)

theorem processRxFrame_of_some {s s' : RxSide} {cursor cursor' : List UInt8}
    (h : walkStep s cursor = some (s', cursor')) :
    processRxFrame s cursor = processRxFrame s' cursor' := by
  have hlen := walkStep_length h
  rw [processRxFrame, if_pos (by omega)]
  split
  · rename_i hnone
    rw [h] at hnone
    cases hnone
  · rename_i s₂ cursor₂ hsome
    rw [h] at hsome
    cases hsome
    rfl

theorem processRxFrame_of_none {s : RxSide} {cursor : List UInt8}
    (h : walkStep s cursor = none) : processRxFrame s cursor = s := by
  rw [processRxFrame]
  split_ifs
  · split
    · rfl
    · rename_i hsome
      rw [h] at hsome
      cases hsome
  · rfl

/-! ## Which channels are reached -/

/-- The identifier in a header has four bits. -/
theorem getLCID_lt (p : LlcPdu) : p.getLCID.toNat < 16 := by
  unfold LlcPdu.getLCID LlcPdu.get
  have hlt := ((p.base.getD 1 0) &&& 0xF0).toNat_lt
  rw [UInt8.toNat_shiftRight]
  show _ >>> 4 < 16
  rw [Nat.shiftRight_eq_div_pow]
  omega

/-- **Only the channels below 16 are given a PDU**, whatever the frame holds. -/
theorem processRxFrame_lcid_lt (s : RxSide) (cursor : List UInt8)
    (h : ∀ d ∈ s.dispatched, d.1.toNat < 16) :
    ∀ d ∈ (processRxFrame s cursor).dispatched, d.1.toNat < 16 := by
  induction hn : cursor.length using Nat.strong_induction_on generalizing s cursor with
  | _ n ih =>
      cases hstep : walkStep s cursor with
      | none =>
          rw [processRxFrame_of_none hstep]
          exact h
      | some r =>
          obtain ⟨s', cursor'⟩ := r
          have hlen := walkStep_length hstep
          rw [processRxFrame_of_some hstep]
          refine ih cursor'.length (by omega) s' cursor' ?_ rfl
          rcases dispatch_cases (walkStep_cases hstep).2.2 with ⟨rfl, -⟩ | ⟨hd, -⟩
          · exact h
          · rw [hd]
            intro d hmem
            rcases List.mem_append.mp hmem with hold | hnew
            · exact h d hold
            · rw [List.mem_singleton.mp hnew]
              exact getLCID_lt _

end Winject.TxScheduler
