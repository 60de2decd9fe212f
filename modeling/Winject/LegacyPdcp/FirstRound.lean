import Winject.LegacyPdcp.Integrity

/-!
# The first packets of a session

The first 8192 packets of a session have a record of the ring each.  Then the record of
every segment is fit for its packet whatever the network does, and what is delivered is
what was submitted.  As long as there are at most `max_sn_distance + 1` of them no number
is out of range either, and late ones are recognised: the receiver skips nothing behind the
first segment that it gets, and delivers nothing twice.

## Main results

* `OwnRecords.rxSegment` — each record keeps its packet.
* `Consecutive.rxSegment` — one segment when no number is out of range.
* `firstRound_intact`, `firstRound_consecutive` — whole sessions.
-/

namespace Winject.LegacyPdcp

open Winject.Frames
open Winject.Lib.Reassembly
open Winject.Lib.Segmentation
open Winject.Pdcp

theorem RxBufferInfo.store_hasData (el : RxBufferInfo) (sn offset : Nat) (last : Bool)
    (payload : List (Option UInt8)) : (el.store sn offset last payload).hasData = true := by
  have hoffsets := congrArg Assembly.offsets (el.store_asm sn offset last payload)
  change (el.store sn offset last payload).recvdOffsets = _ at hoffsets
  unfold RxBufferInfo.hasData
  rw [hoffsets, Bool.not_eq_true', List.isEmpty_eq_false_iff]
  unfold Assembly.absorb
  dsimp only
  split_ifs with hdup
  · intro hnil
    rw [hnil] at hdup
    cases hdup
  · exact List.cons_ne_nil _ _

open PdcpRx

section FirstRound

variable {packets : List (List UInt8)} {ps : List Piece} {pos : Nat × Nat}

/-- Record `k` is for packet `k`. -/
structure OwnRecord (packets : List (List UInt8)) (k : Nat) (el : RxBufferInfo) : Prop where
  sn : el.hasData = true → el.sn = k
  length : el.buffer.length ≤ (packets.getD k []).length

/-- Every record is for its packet, and the queue has submitted packets. -/
structure OwnRecords (w : Sent packets ps pos) (old : List RxPacket) (d : PdcpRx) : Prop
    extends RingOk w old d where
  own : ∀ k : Fin 8192, OwnRecord packets k (d.rxBufferRing k)

/-- What a record holds is no longer than its packet. -/
theorem RecordOk.length_le {w : Sent packets ps pos} {el : RxBufferInfo} (h : RecordOk w el)
    (hdata : el.hasData = true) : el.buffer.length ≤ (packets.getD el.sn []).length := by
  rcases h with hreset | ⟨_, hi, got, hold⟩
  · rw [hreset] at hdata
    cases hdata
  · have hle := hold.length_le
    rwa [w.cut_frame, List.length_map] at hle

namespace OwnRecords

variable {w : Sent packets ps pos} {old : List RxPacket} {d : PdcpRx}

theorem index_of_lt (hfew : packets.length ≤ 8192) {i : Nat} (hi : i < packets.length) :
    ((rxBufferRingIndex i : Fin 8192) : Nat) = i := Nat.mod_eq_of_lt (by omega)

/-- Its record is fit for every segment of the peer. -/
theorem recordFits (h : OwnRecords w old d) (hfew : packets.length ≤ 8192) {i : Nat}
    (hi : i < packets.length) : d.recordFits packets i = true := by
  have hown := h.own (rxBufferRingIndex i)
  rw [index_of_lt hfew hi] at hown
  unfold PdcpRx.recordFits
  dsimp only
  split_ifs with hdata
  · exact beq_iff_eq.mpr (hown.sn hdata)
  · exact decide_eq_true hown.length

theorem update (h : OwnRecords w old d) (i : Fin 8192) {el : RxBufferInfo}
    (hel : OwnRecord packets i el) (k : Fin 8192) :
    OwnRecord packets k (Function.update d.rxBufferRing i el k) := by
  by_cases hk : k = i
  · subst hk
    rwa [Function.update_self]
  · rw [Function.update_of_ne hk]
    exact h.own k

theorem deliver (h : OwnRecords w old d) (hc : d.current.isComplete = true) :
    OwnRecords w old d.deliver where
  toRingOk := h.toRingOk.deliver hc
  own := h.update _ ⟨fun hdata => (Bool.false_ne_true hdata).elim, Nat.zero_le _⟩

theorem drop (h : OwnRecords w old d) : OwnRecords w old d.drop where
  toRingOk := h.toRingOk.drop
  own := h.update _ ⟨fun hdata => (Bool.false_ne_true hdata).elim, (h.own _).length⟩

theorem sync (h : OwnRecords w old d) (sn : Nat) : OwnRecords w old (d.sync sn) where
  toRingOk := h.toRingOk.sync sn
  own := by
    rw [sync_ring]
    exact h.own

/-- A segment of the peer goes into the record of its packet. -/
theorem store (h : OwnRecords w old d) (hfew : packets.length ≤ 8192) {i j : Nat}
    (hi : i < packets.length) (hj : j < (w.cut i hi).count) :
    OwnRecords w old { d with
      rxBufferRing := Function.update d.rxBufferRing (rxBufferRingIndex i)
        ((d.rxBufferRing (rxBufferRingIndex i)).store i ((w.cut i hi).offset j)
          ((w.cut i hi).isLast j) ((w.cut i hi).piece j)) } := by
  have hfits := h.recordFits hfew hi
  unfold PdcpRx.recordFits at hfits
  dsimp only at hfits
  have hok : RecordOk w ((d.rxBufferRing (rxBufferRingIndex i)).store i
      ((w.cut i hi).offset j) ((w.cut i hi).isLast j) ((w.cut i hi).piece j)) := by
    refine (h.ring _).store hi hj (fun hdata => ?_) (fun hdata => ?_)
    · rw [if_pos hdata] at hfits
      exact beq_iff_eq.mp hfits
    · rw [if_neg (by rw [hdata]; decide)] at hfits
      exact of_decide_eq_true hfits
  refine ⟨⟨h.toRingOk.update _ hok, h.queue⟩, h.update _ ⟨fun _ => ?_, ?_⟩⟩
  · rw [index_of_lt hfew hi]
    exact RxBufferInfo.store_sn ..
  · have hlen := hok.length_le (RxBufferInfo.store_hasData ..)
    rw [RxBufferInfo.store_sn] at hlen
    rwa [index_of_lt hfew hi]

/-- The body of the loop of `on_rx` on a segment of the peer. -/
theorem rxSegment (h : OwnRecords w old d) (hre : d.config.allowReordering = true)
    (hfew : packets.length ≤ 8192) {i j : Nat} (hi : i < packets.length)
    (hj : j < (w.cut i hi).count) :
    OwnRecords w old (d.rxSegment i ((w.cut i hi).offset j) ((w.cut i hi).isLast j)
      ((w.cut i hi).piece j)).1 := by
  have hsync : (d.sync i).config.allowReordering = true := by
    rw [SameFuture.sync_config]
    exact hre
  have hstored := (h.sync i).store hfew hi hj
  unfold PdcpRx.rxSegment
  dsimp only
  split_ifs
  · exact h.sync i
  · exact ⟨⟨(h.sync i).ring, (h.sync i).queue⟩, (h.sync i).own⟩
  · unfold PdcpRx.storeSegment PdcpRx.updateRxSn
    dsimp only
    rw [hsync]
    split_ifs
    · exact h.sync i
    · contradiction
    · exact updateLoop_rule (OwnRecords w old) (fun e he => he.deliver) (fun _ e he _ => he.drop)
        _ hstored
    · exact hstored

theorem enabled (w : Sent packets ps pos) (cfg : RxConfig) :
    OwnRecords w [] (PdcpRx.enabled cfg) where
  ring := fun _ => .of_reset w rfl
  queue := ⟨[], rfl, fun _ hq => (List.not_mem_nil hq).elim⟩
  own := fun _ => ⟨fun hdata => (Bool.false_ne_true hdata).elim, Nat.zero_le _⟩

/-- A complete record has data. -/
theorem hasData_of_complete (h : OwnRecords w old d) {k : Fin 8192}
    (hc : (d.rxBufferRing k).isComplete = true) : (d.rxBufferRing k).hasData = true := by
  rcases h.ring k with hreset | ⟨hdata, -⟩
  · rw [hreset] at hc
    cases hc
  · exact hdata

end OwnRecords

/-! ## No number out of range -/

/-- The receiver has delivered the packets from `first` on, and waits for the next one. -/
structure Follows (packets : List (List UInt8)) (first : Nat) (d : PdcpRx) : Prop where
  synced : d.rxSnSynced = true
  le : first ≤ d.rxSn
  room : d.rxSn ≤ packets.length
  queue : d.toRxQueue.map (·.buffer) = ((packets.take d.rxSn).drop first).map (·.map some)
  behind : ∀ k : Fin 8192, (k : Nat) < d.rxSn → (d.rxBufferRing k).hasData = false

/-- The receiver has got no segment yet. -/
structure Waits (d : PdcpRx) : Prop where
  synced : d.rxSnSynced = false
  queue : d.toRxQueue = []
  empty : ∀ k, (d.rxBufferRing k).hasData = false

/-- What holds as long as no number is out of range. -/
structure Consecutive (w : Sent packets ps pos) (d : PdcpRx) : Prop
    extends OwnRecords w [] d where
  rlf : d.rlfCount = 0
  delivers : Waits d ∨ ∃ first, Follows packets first d

namespace Follows

variable {w : Sent packets ps pos} {first : Nat} {d : PdcpRx}

/-- The next packet is complete: it is delivered. -/
theorem deliver (h : Follows packets first d) (hfew : packets.length ≤ 8192)
    (hown : OwnRecords w [] d) (hc : d.current.isComplete = true) :
    Follows packets first d.deliver := by
  have hdata := hown.hasData_of_complete hc
  have hroom := h.room
  have hle := h.le
  -- nothing is kept in the records behind, so the record is not one of them
  have hindex : ((rxBufferRingIndex d.rxSn : Fin 8192) : Nat) = d.rxSn := by
    refine Nat.mod_eq_of_lt ?_
    by_contra hwrap
    have hbehind := h.behind (rxBufferRingIndex d.rxSn)
      (by show d.rxSn % 8192 < d.rxSn; omega)
    rw [hbehind] at hdata
    cases hdata
  have hsn : d.current.sn = d.rxSn := by
    rw [← hindex]
    exact (hown.own _).sn hdata
  have hlt : d.rxSn < packets.length := by
    rcases hown.ring (rxBufferRingIndex d.rxSn) with hreset | ⟨-, hi, -⟩
    · rw [hreset] at hdata
      cases hdata
    · exact hsn ▸ hi
  have hnext : d.deliver.rxSn = d.rxSn + 1 := Nat.mod_eq_of_lt (by omega)
  have hbuffer : d.current.buffer = (packets.getD d.rxSn []).map some := by
    rcases hown.ring (rxBufferRingIndex d.rxSn) with hreset | ⟨-, hi, got, hold⟩
    · rw [hreset] at hdata
      cases hdata
    · have hframe := hold.buffer_eq (by rw [RxBufferInfo.asm_isComplete]; exact hc)
      rw [w.cut_frame] at hframe
      rw [← hsn]
      exact hframe
  refine ⟨h.synced, by rw [hnext]; omega, by rw [hnext]; omega, ?_, ?_⟩
  · rw [hnext]
    show (d.toRxQueue ++ [_]).map _ = _
    rw [List.map_append, h.queue, List.take_add_one, List.getElem?_eq_getElem hlt,
      List.drop_append_of_le_length (by rw [List.length_take]; omega), List.map_append]
    show _ ++ [d.current.buffer] = _
    rw [hbuffer, List.getD_eq_getElem?_getD, List.getElem?_eq_getElem hlt]
    rfl
  · intro k hk
    rw [hnext] at hk
    show (Function.update d.rxBufferRing (rxBufferRingIndex d.rxSn) _ k).hasData = false
    by_cases hat : k = rxBufferRingIndex d.rxSn
    · subst hat
      rw [Function.update_self]
      rfl
    · rw [Function.update_of_ne hat]
      refine h.behind k (Nat.lt_of_le_of_ne (by omega) fun heq => hat (Fin.ext ?_))
      rw [hindex, heq]

/-- Numbers behind are recognised as such. -/
theorem isBefore_eq (h : Follows packets first d)
    (hfew : packets.length ≤ d.config.maxSnDistance + 1) (hD : d.config.maxSnDistance < 8192)
    {i : Nat} (hi : i < packets.length) : d.isBefore i = decide (i < d.rxSn) := by
  have hroom := h.room
  unfold isBefore snDist
  by_cases hlt : i < d.rxSn
  · rw [decide_eq_true hlt, Bool.and_eq_true, decide_eq_true_eq, decide_eq_true_eq]
    split_ifs <;> omega
  · rw [decide_eq_false hlt, Bool.and_eq_false_iff, decide_eq_false_iff_not,
      decide_eq_false_iff_not]
    split_ifs <;> omega

/-- No number ahead is out of range. -/
theorem isOutOfRange_eq (hfew : packets.length ≤ d.config.maxSnDistance + 1) {i : Nat}
    (hi : i < packets.length) (hle : d.rxSn ≤ i) : d.isOutOfRange i = false := by
  unfold isOutOfRange snDist
  rw [if_pos hle, decide_eq_false_iff_not]
  omega

end Follows

namespace Consecutive

variable {w : Sent packets ps pos} {d : PdcpRx}

theorem enabled (w : Sent packets ps pos) (cfg : RxConfig) :
    Consecutive w (PdcpRx.enabled cfg) where
  toOwnRecords := .enabled w cfg
  rlf := rfl
  delivers := .inl ⟨rfl, rfl, fun _ => rfl⟩

/-- The first segment says where to begin. -/
theorem sync (h : Consecutive w d) {i : Nat} (hi : i < packets.length) :
    ∃ first, Follows packets first (d.sync i) := by
  unfold PdcpRx.sync
  rcases h.delivers with hwaits | ⟨first, hfollows⟩
  · rw [hwaits.synced, Bool.not_false, if_pos rfl]
    refine ⟨i, rfl, le_refl i, hi.le, ?_, fun k _ => hwaits.empty k⟩
    dsimp only
    rw [hwaits.queue, List.drop_eq_nil_of_le (by rw [List.length_take]; omega)]
    rfl
  · rw [hfollows.synced, Bool.not_true, if_neg Bool.false_ne_true]
    exact ⟨first, hfollows⟩

/-- The body of the loop of `on_rx` on a segment of the peer. -/
theorem rxSegment (h : Consecutive w d) (hre : d.config.allowReordering = true)
    (hfew : packets.length ≤ d.config.maxSnDistance + 1) (hD : d.config.maxSnDistance < 8192)
    {i j : Nat} (hi : i < packets.length) (hj : j < (w.cut i hi).count) :
    Consecutive w (d.rxSegment i ((w.cut i hi).offset j) ((w.cut i hi).isLast j)
      ((w.cut i hi).piece j)).1 := by
  have hfirst : packets.length ≤ 8192 := by omega
  have hown := h.toOwnRecords.rxSegment hre hfirst hi hj
  obtain ⟨first, hsync⟩ := h.sync hi
  have hownSync := h.toOwnRecords.sync i
  have hcfg := SameFuture.sync_config d i
  have hrlf : (d.sync i).rlfCount = 0 := by
    rw [← h.rlf]
    unfold PdcpRx.sync
    split_ifs <;> rfl
  suffices hgoes : Follows packets first (d.rxSegment i ((w.cut i hi).offset j)
      ((w.cut i hi).isLast j) ((w.cut i hi).piece j)).1 ∧
      (d.rxSegment i ((w.cut i hi).offset j) ((w.cut i hi).isLast j)
        ((w.cut i hi).piece j)).1.rlfCount = 0 from
    ⟨hown, hgoes.2, .inr ⟨first, hgoes.1⟩⟩
  have hbefore := hsync.isBefore_eq (by rwa [hcfg]) (by rwa [hcfg]) hi
  unfold PdcpRx.rxSegment
  dsimp only
  rw [hbefore]
  by_cases hlt : i < (d.sync i).rxSn
  · rw [decide_eq_true hlt, if_pos rfl]
    exact ⟨hsync, hrlf⟩
  · have hrange := @Follows.isOutOfRange_eq packets (d.sync i) (by rwa [hcfg]) i hi
      (Nat.not_lt.mp hlt)
    rw [decide_eq_false hlt, hrange, if_neg Bool.false_ne_true, Bool.false_and,
      if_neg Bool.false_ne_true]
    -- the record of the segment is not one of those behind
    have hstored : ∀ el : RxBufferInfo, Follows packets first { d.sync i with
        rxBufferRing := Function.update (d.sync i).rxBufferRing (rxBufferRingIndex i) el } := by
      intro el
      refine ⟨hsync.synced, hsync.le, hsync.room, hsync.queue, fun k hk => ?_⟩
      have hne : k ≠ rxBufferRingIndex i := by
        rintro rfl
        rw [OwnRecords.index_of_lt hfirst hi] at hk
        exact hlt hk
      dsimp only
      rw [Function.update_of_ne hne]
      exact hsync.behind k hk
    unfold PdcpRx.storeSegment PdcpRx.updateRxSn
    dsimp only
    rw [show (d.sync i).config.allowReordering = true by rw [hcfg]; exact hre]
    split_ifs
    · exact ⟨hsync, hrlf⟩
    · contradiction
    · have hloop := @updateLoop_rule
        (fun e => OwnRecords w [] e ∧ Follows packets first e ∧ e.rlfCount = 0) i false
        (fun e he hc => ⟨he.1.deliver hc, he.2.1.deliver hfirst he.1 hc, he.2.2⟩)
        (fun hff => (Bool.false_ne_true hff).elim) _
        ⟨hownSync.store hfirst hi hj, hstored _, hrlf⟩
      exact hloop.2
    · exact ⟨hstored _, hrlf⟩

/-- What the queue is. -/
theorem queue_eq (h : Consecutive w d) : ∃ first count,
    d.toRxQueue.map (·.buffer) = ((packets.drop first).take count).map (·.map some) := by
  rcases h.delivers with hwaits | ⟨first, hfollows⟩
  · exact ⟨0, 0, by rw [hwaits.queue]; rfl⟩
  · exact ⟨first, d.rxSn - first, by rw [hfollows.queue, List.drop_take]⟩

end Consecutive

end FirstRound

/-! ## Sessions -/

section Sessions

variable {tcfg : TxConfig} {rcfg : RxConfig} {ops : List TxOp}

/-- The condition that asks nothing. -/
theorem rxRunAll_true (d : PdcpRx) (pdus : List SentPdu) :
    rxRunAll (fun _ _ _ => true) d pdus = true := by
  have hloop : ∀ (e : PdcpRx) (bytes : List UInt8),
      e.rxLoopAll (fun _ _ => true) bytes = true := by
    intro e bytes
    induction e, bytes using PdcpRx.rxLoopAll.induct with
    | case1 e bytes hempty => rw [PdcpRx.rxLoopAll, if_pos hempty]
    | case2 e bytes hempty segment hstop =>
        rw [PdcpRx.rxLoopAll, if_neg hempty]
        exact if_pos hstop
    | case3 e bytes hempty segment hgo r ih =>
        rw [PdcpRx.rxLoopAll, if_neg hempty]
        refine (if_neg hgo).trans ?_
        dsimp only
        rw [Bool.true_and]
        split_ifs with hmore
        · exact ih hmore
        · rfl
  induction pdus generalizing d with
  | nil => rfl
  | cons pdu pdus ih =>
      rw [rxRunAll, hloop, Bool.true_and]
      cases d.onRx pdu.bytes with
      | none => rfl
      | some e => exact ih e

/-- **The first packets arrive as they were submitted**, in a session of at most 8192
packets. -/
theorem firstRound_intact (hpair : Paired tcfg rcfg) (hops : ∀ op ∈ ops, TxOpOk 32767 op)
    (hfew : (txRun tcfg ops).packets.length ≤ 8192) (dels : List Nat) :
    ∃ d, rxRun (PdcpRx.enabled rcfg) ((drawn (txRun tcfg ops).pdus dels).map SentPdu.bytes) =
        some d ∧
      ∀ q ∈ d.toRxQueue, ∃ packet ∈ (txRun tcfg ops).packets, q.buffer = packet.map some := by
  obtain ⟨pss, pos, hsent⟩ := txRun_sent tcfg ops hops
  have hstep : PieceStep rcfg (txRun tcfg ops).packets pss (fun _ _ _ => true)
      (fun _ => OwnRecords hsent.sent []) := by
    intro ps hps p hp done e hcfg hinv _
    have hi := hsent.frame_lt hps hp
    obtain ⟨j, hj, _, _, hrx⟩ := hsent.rxSeg_piece hpair hcfg
      (List.mem_flatten.mpr ⟨ps, hps, hp⟩) hi
    rw [hrx, Nat.mod_eq_of_lt (by omega)]
    exact hinv.rxSegment (by rw [hcfg]; exact hpair.rx) hfew hi hj
  obtain ⟨d, done, hrun, _, hinv, _⟩ := hsent.rxRun_rule hpair
    hstep dels [] (PdcpRx.enabled rcfg) rfl rfl (.enabled _ rcfg)
    (rxRunAll_true ..)
  obtain ⟨new, hnew, hall⟩ := hinv.queue
  rw [List.nil_append] at hnew
  exact ⟨d, hrun, hnew ▸ hall⟩

/-- **The first packets arrive in order, without a gap and once each**, in a session of at
most `max_sn_distance + 1` packets. -/
theorem firstRound_consecutive (hpair : Paired tcfg rcfg)
    (hops : ∀ op ∈ ops, TxOpOk 32767 op) (hD : rcfg.maxSnDistance < 8192)
    (hfew : (txRun tcfg ops).packets.length ≤ rcfg.maxSnDistance + 1) (dels : List Nat) :
    ∃ d, rxRun (PdcpRx.enabled rcfg) ((drawn (txRun tcfg ops).pdus dels).map SentPdu.bytes) =
        some d ∧ d.rlfCount = 0 ∧ ∃ first count, d.toRxQueue.map (·.buffer) =
          (((txRun tcfg ops).packets.drop first).take count).map (·.map some) := by
  obtain ⟨pss, pos, hsent⟩ := txRun_sent tcfg ops hops
  have hstep : PieceStep rcfg (txRun tcfg ops).packets pss (fun _ _ _ => true)
      (fun _ => Consecutive hsent.sent) := by
    intro ps hps p hp done e hcfg hinv _
    have hi := hsent.frame_lt hps hp
    obtain ⟨j, hj, _, _, hrx⟩ := hsent.rxSeg_piece hpair hcfg
      (List.mem_flatten.mpr ⟨ps, hps, hp⟩) hi
    rw [hrx, Nat.mod_eq_of_lt (by omega)]
    exact hinv.rxSegment (by rw [hcfg]; exact hpair.rx) (by rwa [hcfg]) (by rwa [hcfg]) hi hj
  obtain ⟨d, done, hrun, _, hinv, _⟩ := hsent.rxRun_rule hpair
    hstep dels [] (PdcpRx.enabled rcfg) rfl rfl (.enabled _ rcfg)
    (rxRunAll_true ..)
  exact ⟨d, hrun, hinv.rlf, hinv.queue_eq⟩

end Sessions

end Winject.LegacyPdcp
