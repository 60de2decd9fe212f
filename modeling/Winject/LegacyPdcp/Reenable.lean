import Winject.LegacyPdcp.Rx

/-!
# Enabling the receiver of the first PDCP again

`set_rx_enabled` resets every record of the reassembly ring, but a reset keeps
the buffer of the record, and a buffer only ever grows.  A packet shorter than
the left-over buffer is therefore delivered with the tail of the old one.

Two receivers that agree on everything later output depends on (`SameFuture`)
append the same packets.  A receiver that is enabled again agrees with a new one
exactly when no record that its configuration uses has kept a buffer.

## Main results

* `SameFuture.rxRun` — receivers that agree append the same packets.
* `reenabled_as_new_iff` — when a session leaves no trace in the next one.
-/

namespace Winject.LegacyPdcp

open Winject.Frames
open Winject.Lib.Bytes

/-! ## Receivers with the same future -/

/-- A record without the number that no function reads. -/
def RxBufferInfo.unnumbered (el : RxBufferInfo) : RxBufferInfo := { el with sn := 0 }

theorem RxBufferInfo.store_unnumbered (el : RxBufferInfo) (sn offset : Nat) (last : Bool)
    (payload : List (Option UInt8)) :
    (el.store sn offset last payload).unnumbered =
      el.unnumbered.store 0 offset last payload := by
  unfold RxBufferInfo.store RxBufferInfo.unnumbered
  dsimp only
  split_ifs <;> rfl

namespace PdcpRx

/-- The two receivers append the same packets from now on; `d` has `old` in
front of its queue. -/
structure SameFuture (old : List (List (Option UInt8))) (d e : PdcpRx) : Prop where
  config : d.config = e.config
  enabled : d.isRxEnabled = e.isRxEnabled
  synced : d.rxSnSynced = e.rxSnSynced
  sn : d.rxSnSynced = true → d.rxSn = e.rxSn
  ring : ∀ i, Uses d.config i →
    (d.rxBufferRing i).unnumbered = (e.rxBufferRing i).unnumbered
  queue : d.toRxQueue.map (·.buffer) = old ++ e.toRxQueue.map (·.buffer)

namespace SameFuture

variable {old : List (List (Option UInt8))} {d e : PdcpRx}

theorem complete_eq (h : SameFuture old d e) {i : Fin 8192} (hi : Uses d.config i) :
    (d.rxBufferRing i).isComplete = (e.rxBufferRing i).isComplete := by
  show (d.rxBufferRing i).unnumbered.isComplete = (e.rxBufferRing i).unnumbered.isComplete
  rw [h.ring i hi]

theorem buffer_eq (h : SameFuture old d e) {i : Fin 8192} (hi : Uses d.config i) :
    (d.rxBufferRing i).buffer = (e.rxBufferRing i).buffer := by
  show (d.rxBufferRing i).unnumbered.buffer = (e.rxBufferRing i).unnumbered.buffer
  rw [h.ring i hi]

/-- Writing records that agree into the same place of both rings. -/
theorem update_ring (h : SameFuture old d e) (i : Fin 8192) {a b : RxBufferInfo}
    (hab : a.unnumbered = b.unnumbered) :
    ∀ j, Uses d.config j →
      (Function.update d.rxBufferRing i a j).unnumbered =
        (Function.update e.rxBufferRing i b j).unnumbered := by
  intro j hj
  by_cases hij : j = i
  · subst hij
    rw [Function.update_self, Function.update_self]
    exact hab
  · rw [Function.update_of_ne hij, Function.update_of_ne hij]
    exact h.ring j hj

/-- Both queues get a packet with the same bytes. -/
theorem push_queue (h : SameFuture old d e) {a b : RxPacket} (hab : a.buffer = b.buffer) :
    (d.toRxQueue ++ [a]).map (·.buffer) = old ++ (e.toRxQueue ++ [b]).map (·.buffer) := by
  rw [List.map_append, List.map_append, h.queue, List.append_assoc]
  simp [hab]

theorem deliver (h : SameFuture old d e) (hsync : d.rxSnSynced = true)
    (hre : d.config.allowReordering = true) : SameFuture old d.deliver e.deliver := by
  have hsn := h.sn hsync
  have hrec := h.ring (rxBufferRingIndex d.rxSn) (Or.inl hre)
  have hbuf := h.buffer_eq (i := rxBufferRingIndex d.rxSn) (Or.inl hre)
  unfold PdcpRx.deliver current
  rw [← hsn]
  exact
    { config := h.config
      enabled := h.enabled
      synced := h.synced
      sn := fun _ => rfl
      ring := h.update_ring _ rfl
      queue := h.push_queue hbuf }

theorem drop (h : SameFuture old d e) (hsync : d.rxSnSynced = true)
    (hre : d.config.allowReordering = true) : SameFuture old d.drop e.drop := by
  have hsn := h.sn hsync
  have hrec := h.ring (rxBufferRingIndex d.rxSn) (Or.inl hre)
  unfold PdcpRx.drop current
  rw [← hsn]
  exact
    { config := h.config
      enabled := h.enabled
      synced := h.synced
      sn := fun _ => rfl
      ring := h.update_ring _ (congrArg RxBufferInfo.reset hrec)
      queue := h.queue }

/-- One iteration of `update_rx_sn`. -/
theorem updateStep (h : SameFuture old d e) (hsync : d.rxSnSynced = true)
    (hre : d.config.allowReordering = true) (sn : Nat) (ff : Bool) :
    SameFuture old (d.updateStep sn ff).1 (e.updateStep sn ff).1 ∧
      (d.updateStep sn ff).2 = (e.updateStep sn ff).2 := by
  have hsn := h.sn hsync
  have hcomp : d.current.isComplete = e.current.isComplete := by
    unfold current
    rw [← hsn]
    exact h.complete_eq (Or.inl hre)
  have hdropSn : d.drop.rxSn = e.drop.rxSn := by
    show (d.rxSn + 1) % 65536 = (e.rxSn + 1) % 65536
    rw [hsn]
  unfold PdcpRx.updateStep
  rw [← hcomp, ← hdropSn, ← h.config, ← hsn]
  split_ifs
  · exact ⟨h.deliver hsync hre, rfl⟩
  · exact ⟨h.drop hsync hre, rfl⟩
  · exact ⟨h, rfl⟩

theorem updateStep_synced (d : PdcpRx) (sn : Nat) (ff : Bool) :
    (d.updateStep sn ff).1.rxSnSynced = d.rxSnSynced ∧
      (d.updateStep sn ff).1.config = d.config := by
  unfold PdcpRx.updateStep PdcpRx.deliver PdcpRx.drop
  split_ifs <;> exact ⟨rfl, rfl⟩

theorem updateLoop (h : SameFuture old d e) (hsync : d.rxSnSynced = true)
    (hre : d.config.allowReordering = true) (sn : Nat) (ff : Bool) :
    SameFuture old (d.updateLoop sn ff) (e.updateLoop sn ff) := by
  induction d using updateLoop.induct sn ff generalizing e with
  | case1 d hmore ih =>
      obtain ⟨hstep, hflag⟩ := h.updateStep hsync hre sn ff
      obtain ⟨hsync', hcfg'⟩ := updateStep_synced d sn ff
      rw [updateLoop_of_more hmore, updateLoop_of_more (hflag.symm.trans hmore)]
      exact ih hstep (hsync'.trans hsync) (by rw [hcfg']; exact hre)
  | case2 d hstop =>
      obtain ⟨hstep, hflag⟩ := h.updateStep hsync hre sn ff
      rw [updateLoop_of_stop hstop, updateLoop_of_stop (by rwa [hflag] at hstop)]
      exact hstep

theorem updateRxSn (h : SameFuture old d e) (hsync : d.rxSnSynced = true) (sn : Nat)
    (ff : Bool) : SameFuture old (d.updateRxSn sn ff) (e.updateRxSn sn ff) := by
  unfold PdcpRx.updateRxSn
  rw [← h.config]
  cases hre : d.config.allowReordering with
  | true =>
      simp only [Bool.not_true, Bool.false_eq_true, if_false]
      exact h.updateLoop hsync hre sn ff
  | false =>
      simp only [Bool.not_false, if_true]
      exact
        { config := rfl
          enabled := h.enabled
          synced := h.synced
          sn := h.sn
          ring := h.update_ring 0 rfl
          queue := h.push_queue (h.buffer_eq (Or.inr rfl)) }

/-- The segments that the loop of `on_rx` reads are stored in records that the
configuration uses. -/
def SnOk (cfg : RxConfig) (sn : Nat) : Prop := cfg.allowReordering = false → sn = 0

theorem storeSegment (h : SameFuture old d e) (hsync : d.rxSnSynced = true) {sn : Nat}
    (hok : SnOk d.config sn) (offset : Nat) (last : Bool) (payload : List (Option UInt8))
    (ff : Bool) :
    SameFuture old (d.storeSegment sn offset last payload ff)
      (e.storeSegment sn offset last payload ff) := by
  have huses : Uses d.config (rxBufferRingIndex sn) := by
    cases hre : d.config.allowReordering with
    | true => exact Or.inl hre
    | false =>
        rw [hok hre]
        exact Or.inr rfl
  have hcomp := h.complete_eq huses
  have hstored : ((d.rxBufferRing (rxBufferRingIndex sn)).store sn offset last
      payload).unnumbered =
      ((e.rxBufferRing (rxBufferRingIndex sn)).store sn offset last payload).unnumbered := by
    rw [RxBufferInfo.store_unnumbered, RxBufferInfo.store_unnumbered, h.ring _ huses]
  have hcomp' : ((d.rxBufferRing (rxBufferRingIndex sn)).store sn offset last
      payload).isComplete =
      ((e.rxBufferRing (rxBufferRingIndex sn)).store sn offset last payload).isComplete := by
    show RxBufferInfo.isComplete (RxBufferInfo.unnumbered _) =
      RxBufferInfo.isComplete (RxBufferInfo.unnumbered _)
    rw [hstored]
  have hring := h.update_ring (rxBufferRingIndex sn) hstored
  have hput : SameFuture old { d with rxBufferRing := Function.update _ _ _ }
      { e with rxBufferRing := Function.update _ _ _ } :=
    ⟨h.config, h.enabled, h.synced, h.sn, hring, h.queue⟩
  unfold PdcpRx.storeSegment
  dsimp only
  rw [← hcomp, ← hcomp']
  split_ifs
  · exact h
  · exact hput.updateRxSn hsync sn ff
  · exact hput

/-- After `sync` the two receivers agree on `rx_sn`. -/
theorem sync (h : SameFuture old d e) (sn : Nat) :
    SameFuture old (d.sync sn) (e.sync sn) ∧ (d.sync sn).rxSnSynced = true := by
  unfold PdcpRx.sync
  rw [← h.synced]
  cases hs : d.rxSnSynced with
  | true => exact ⟨h, hs⟩
  | false => exact ⟨⟨h.config, h.enabled, rfl, fun _ => rfl, h.ring, h.queue⟩, rfl⟩

theorem sync_config (d : PdcpRx) (sn : Nat) : (d.sync sn).config = d.config := by
  unfold PdcpRx.sync
  split_ifs <;> rfl

/-- The body of the loop of `on_rx`. -/
theorem rxSegment (h : SameFuture old d e) {sn : Nat} (hok : SnOk d.config sn)
    (offset : Nat) (last : Bool) (payload : List (Option UInt8)) :
    SameFuture old (d.rxSegment sn offset last payload).1
        (e.rxSegment sn offset last payload).1 ∧
      (d.rxSegment sn offset last payload).2 = (e.rxSegment sn offset last payload).2 := by
  obtain ⟨hs, hsync⟩ := h.sync sn
  have hok' : SnOk (d.sync sn).config sn := by
    rw [sync_config]
    exact hok
  have hsn := hs.sn hsync
  have hbefore : (d.sync sn).isBefore sn = (e.sync sn).isBefore sn := by
    unfold isBefore
    rw [hsn, hs.config]
  have hrange : (d.sync sn).isOutOfRange sn = (e.sync sn).isOutOfRange sn := by
    unfold isOutOfRange
    rw [hsn, hs.config]
  unfold PdcpRx.rxSegment
  dsimp only
  rw [← hbefore, ← hrange, ← hs.config]
  split_ifs
  · exact ⟨hs, rfl⟩
  · exact ⟨⟨rfl, hs.enabled, hs.synced, hs.sn, hs.ring, hs.queue⟩, rfl⟩
  · exact ⟨hs.storeSegment hsync hok' offset last payload _, rfl⟩

/-- One iteration of the loop of `on_rx`. -/
theorem rxStep (h : SameFuture old d e) (bytes : List UInt8) :
    SameFuture old (d.rxStep bytes).1 (e.rxStep bytes).1 ∧
      (d.rxStep bytes).2 = (e.rxStep bytes).2 := by
  have hok : SnOk d.config (if d.config.allowReordering then
      (view d.config.layout bytes).rescan.getSn else 0) := by
    intro hre
    rw [hre]
    rfl
  have hseg := h.rxSegment hok
    (if d.config.allowSegmentation then (view d.config.layout bytes).rescan.getOffset else 0)
    (view d.config.layout bytes).rescan.isLast
    (readPayload bytes (view d.config.layout bytes).rescan.getHeaderSize
      (view d.config.layout bytes).rescan.getPayloadSize)
  unfold PdcpRx.rxStep
  rw [← h.config]
  dsimp only
  by_cases hhdr : (view d.config.layout bytes).rescan.getHeaderSize ≥ bytes.length
  · rw [if_pos hhdr, if_pos hhdr]
    exact ⟨h, rfl⟩
  · rw [if_neg hhdr, if_neg hhdr]
    by_cases hsize : (view d.config.layout bytes).rescan.getSize > bytes.length
    · rw [if_pos hsize, if_pos hsize]
      exact ⟨h, rfl⟩
    · rw [if_neg hsize, if_neg hsize]
      exact ⟨hseg.1, by rw [hseg.2]⟩

/-- The whole loop, when it ends. -/
theorem rxLoop (n : Nat) (h : SameFuture old d e) {bytes : List UInt8}
    (hn : bytes.length ≤ n) :
    Option.Rel (SameFuture old) (d.rxLoop bytes) (e.rxLoop bytes) := by
  induction n generalizing d e bytes with
  | zero =>
      have hnil : bytes = [] := List.length_eq_zero_iff.mp (by omega)
      rw [rxLoop_eq d, rxLoop_eq e, hnil]
      exact .some h
  | succ n ih =>
      obtain ⟨hstep, hflag⟩ := h.rxStep bytes
      rw [rxLoop_eq d, rxLoop_eq e, ← hflag]
      split_ifs with hempty hstop hlt
      · exact .some h
      · exact .some hstep
      · exact ih hstep (by omega)
      · exact .none

theorem onRx (h : SameFuture old d e) (pdu : List UInt8) :
    Option.Rel (SameFuture old) (d.onRx pdu) (e.onRx pdu) := by
  unfold PdcpRx.onRx
  rw [← h.enabled]
  split_ifs
  · exact .some h
  · exact .some h
  · exact h.rxLoop pdu.length (Nat.le_refl _)

/-- **Receivers that agree append the same packets.** -/
theorem rxRun (h : SameFuture old d e) (pdus : List (List UInt8)) :
    Option.Rel (SameFuture old) (rxRun d pdus) (rxRun e pdus) := by
  induction pdus generalizing d e with
  | nil => exact .some h
  | cons pdu pdus ih =>
      have hone := h.onRx pdu
      unfold LegacyPdcp.rxRun
      generalize d.onRx pdu = a at hone ⊢
      generalize e.onRx pdu = b at hone ⊢
      cases hone with
      | none => exact .none
      | some hnext => exact ih hnext

end SameFuture

/-- The packets that the calls of `on_rx` on a list of PDUs append to
`to_rx_queue`; `none` when a call does not return. -/
def appended (d : PdcpRx) (pdus : List (List UInt8)) :
    Option (List (List (Option UInt8))) :=
  (LegacyPdcp.rxRun d pdus).map fun d' =>
    (d'.toRxQueue.drop d.toRxQueue.length).map (·.buffer)

theorem SameFuture.appended_eq {d e : PdcpRx}
    (h : SameFuture (d.toRxQueue.map (·.buffer)) d e) (hnew : e.toRxQueue = [])
    (pdus : List (List UInt8)) : d.appended pdus = e.appended pdus := by
  have hrun := h.rxRun pdus
  unfold appended
  generalize LegacyPdcp.rxRun d pdus = a at hrun ⊢
  generalize LegacyPdcp.rxRun e pdus = b at hrun ⊢
  cases hrun with
  | none => rfl
  | some hsame =>
      rename_i d' e'
      have hlen : d.toRxQueue.length = (d.toRxQueue.map (·.buffer)).length :=
        (List.length_map _).symm
      rw [Option.map_some, Option.map_some, List.map_drop, hsame.queue, hnew,
        List.drop_left' hlen.symm]
      rfl

/-! ## What a new session sees of the old one -/

/-- No record that the configuration uses has kept a buffer. -/
def NothingKept (d : PdcpRx) (cfg : RxConfig) : Prop :=
  ∀ i, Uses cfg i → (d.rxBufferRing i).buffer = []

/-- All records are as `reset` leaves them. -/
def AllReset (d : PdcpRx) : Prop := ∀ i, d.rxBufferRing i = (d.rxBufferRing i).reset

theorem SameFuture.of_nothingKept {d : PdcpRx} (h : d.NothingKept d.config) :
    SameFuture (d.toRxQueue.map (·.buffer)) (d.setRxEnabled true) (.enabled d.config) where
  config := rfl
  enabled := rfl
  synced := rfl
  sn := nofun
  ring := by
    intro i hi
    have hbuf := h i hi
    show (d.rxBufferRing i).reset.unnumbered = _
    unfold RxBufferInfo.reset RxBufferInfo.unnumbered
    dsimp only
    rw [hbuf]
    rfl
  queue := (List.append_nil _).symm

/-- What a record delivers that has kept `buffer` and gets a packet in one
segment. -/
def overKept (buffer payload : List (Option UInt8)) : List (Option UInt8) :=
  blit (grow (some 0) payload.length buffer) 0 payload

/-- A packet in one segment is complete at once and takes the left-over buffer
along. -/
theorem store_onePacket {el : RxBufferInfo} (h : el = el.reset) (sn : Nat)
    (payload : List (Option UInt8)) :
    (el.store sn 0 true payload).isComplete = true ∧
      (el.store sn 0 true payload).buffer = overKept el.buffer payload := by
  have hkeep : ¬ payload.length > el.buffer.length →
      grow (some 0) payload.length el.buffer = el.buffer :=
    fun hle => grow_of_le _ _ _ (by omega)
  rw [h]
  unfold RxBufferInfo.store RxBufferInfo.reset RxBufferInfo.isComplete overKept
  by_cases hlen : payload.length > el.buffer.length
  · simp [hlen]
  · simp [hlen, hkeep hlen]

/-- The loop of `update_rx_sn` delivers the only complete record. -/
theorem updateLoop_one {d : PdcpRx} {sn : Nat} (hcomp : d.current.isComplete = true)
    (hothers : ∀ j, j ≠ rxBufferRingIndex d.rxSn → (d.rxBufferRing j).isComplete = false) :
    d.updateLoop sn false = d.deliver := by
  have hfirst : d.updateStep sn false = (d.deliver, true) := by
    unfold updateStep
    rw [if_pos hcomp]
  have hnext : d.deliver.current.isComplete = false := by
    unfold current
    by_cases hj : rxBufferRingIndex d.deliver.rxSn = rxBufferRingIndex d.rxSn
    · rw [hj]
      show (Function.update d.rxBufferRing (rxBufferRingIndex d.rxSn) _
        (rxBufferRingIndex d.rxSn)).isComplete = false
      rw [Function.update_self]
      rfl
    · show (Function.update d.rxBufferRing (rxBufferRingIndex d.rxSn) _
        (rxBufferRingIndex d.deliver.rxSn)).isComplete = false
      rw [Function.update_of_ne hj]
      exact hothers _ hj
  have hsecond : d.deliver.updateStep sn false = (d.deliver, false) := by
    unfold updateStep
    rw [if_neg (by rw [hnext]; decide), if_neg (by decide)]
  rw [updateLoop_of_more (by rw [hfirst]), hfirst, updateLoop_of_stop (by rw [hsecond]; simp),
    hsecond]

/-- After a complete store into the only record that is not reset, exactly
this record is delivered. -/
theorem updateRxSn_one {d : PdcpRx} {sn : Nat} {i : Fin 8192}
    (hidx : rxBufferRingIndex sn = i) (hsn : d.rxSn = sn) (huse : Uses d.config i)
    (hcomp : (d.rxBufferRing i).isComplete = true)
    (hothers : ∀ j, j ≠ i → (d.rxBufferRing j).isComplete = false) :
    (d.updateRxSn sn false).toRxQueue.map (·.buffer) =
      d.toRxQueue.map (·.buffer) ++ [(d.rxBufferRing i).buffer] := by
  have hcur : rxBufferRingIndex d.rxSn = i := by rw [hsn, hidx]
  unfold updateRxSn
  cases hre : d.config.allowReordering with
  | true =>
      rw [if_neg (by simp), updateLoop_one (by unfold current; rw [hcur]; exact hcomp)
        (by rw [hcur]; exact hothers)]
      show (d.toRxQueue ++ [_]).map _ = _
      rw [List.map_append, ← hcur]
      rfl
  | false =>
      have hzero : i = 0 := huse.resolve_left (by rw [hre]; decide)
      rw [if_pos (by simp), hzero]
      show (d.toRxQueue ++ [_]).map _ = _
      rw [List.map_append]
      rfl

/-- Bytes that do not reach behind a header end the loop. -/
theorem rxStep_short {d : PdcpRx} {bytes : List UInt8}
    (h : bytes.length ≤ d.config.layout.headerSize) : d.rxStep bytes = (d, bytes, false) := by
  have hhdr := (rescan_frame (view d.config.layout bytes)).2
  unfold rxStep
  dsimp only
  rw [hhdr, if_pos (show (view d.config.layout bytes).getHeaderSize ≥ bytes.length from h)]

/-- A PDU of one segment with less than a header behind it. -/
theorem onRx_one {d : PdcpRx} {bytes tail : List UInt8} {r : PdcpRx × Bool}
    (hen : d.isRxEnabled = true) (hstep : d.rxStep (bytes ++ tail) = (r.1, tail, r.2))
    (hmore : r.2 = true) (htail : tail.length ≤ r.1.config.layout.headerSize)
    (hne : bytes ≠ []) : d.onRx (bytes ++ tail) = some r.1 := by
  have hpos : 0 < bytes.length := List.length_pos_iff.mpr hne
  have hempty : (bytes ++ tail).isEmpty = false := by
    rw [List.isEmpty_eq_false_iff]
    exact List.append_ne_nil_of_left_ne_nil hne _
  have hrest : r.1.rxLoop tail = some r.1 := by
    rw [rxLoop_eq, rxStep_short htail]
    simp only [Bool.not_false, if_true, ite_self]
  unfold onRx
  rw [hen, if_neg (by simp), if_neg (by rw [List.length_append]; omega), rxLoop_eq, hempty,
    hstep, hmore]
  simp only [Bool.false_eq_true, if_false, Bool.not_true]
  rw [if_pos (by rw [List.length_append]; omega), hrest]

theorem sync_ring (d : PdcpRx) (sn : Nat) : (d.sync sn).rxBufferRing = d.rxBufferRing := by
  unfold sync
  split_ifs <;> rfl

theorem sync_queue (d : PdcpRx) (sn : Nat) : (d.sync sn).toRxQueue = d.toRxQueue := by
  unfold sync
  split_ifs <;> rfl

/-- The receiver with a packet in one segment stored in its record. -/
def withPacket (d : PdcpRx) (sn : Nat) (payload : List UInt8) : PdcpRx :=
  { d with
    rxBufferRing := Function.update d.rxBufferRing (rxBufferRingIndex sn)
      ((d.rxBufferRing (rxBufferRingIndex sn)).store sn 0 true (payload.map some)) }

/-- A packet in one segment with the next number is in range and complete. -/
theorem rxSegment_next {d : PdcpRx} {sn : Nat} (hnext : (d.sync sn).rxSn = sn)
    (hreset : d.AllReset) (payload : List UInt8) :
    d.rxSegment sn 0 true (payload.map some) =
      (((d.sync sn).withPacket sn payload).updateRxSn sn false, true) := by
  obtain ⟨hcomp, _⟩ := store_onePacket (hreset (rxBufferRingIndex sn)) sn (payload.map some)
  have hnone : (d.rxBufferRing (rxBufferRingIndex sn)).isComplete = false := by
    rw [hreset]
    rfl
  have hdist : snDist sn sn = 0 := by
    unfold snDist
    rw [if_pos (Nat.le_refl _), Nat.sub_self]
  unfold rxSegment isBefore isOutOfRange storeSegment withPacket
  dsimp only
  rw [hnext, hdist, sync_ring, hnone, hcomp]
  simp

/-- The segment of a packet for record `i`. -/
def packetFor (i : Fin 8192) (payload : List UInt8) : Seg := ⟨i, 0, true, payload⟩

/-- A receiver that was just enabled delivers a packet in one segment over what
its record has kept. -/
theorem rxSeg_packetFor {d : PdcpRx} (hsync : d.rxSnSynced = false) (hreset : d.AllReset)
    {i : Fin 8192} (huse : Uses d.config i) (payload : List UInt8) :
    (d.rxSeg (packetFor i payload)).2 = true ∧
      (d.rxSeg (packetFor i payload)).1.toRxQueue.map (·.buffer) =
        d.toRxQueue.map (·.buffer) ++
          [overKept (d.rxBufferRing i).buffer (payload.map some)] := by
  have hi := i.isLt
  let sn := if d.config.allowReordering then i.val else 0
  have hidx : rxBufferRingIndex sn = i := by
    apply Fin.ext
    show sn % 8192 = i.val
    rcases huse with hre | hzero
    · have : sn = i.val := if_pos hre
      omega
    · have hz : i.val = 0 := congrArg Fin.val hzero
      have : sn = 0 := by
        show (if d.config.allowReordering then i.val else 0) = 0
        rw [hz, ite_self]
      omega
  obtain ⟨hcomp, hbuf⟩ := store_onePacket (hreset i) sn (payload.map some)
  have hoff : (if d.config.allowSegmentation then 0 else 0) = 0 := ite_self _
  have hnext : (d.sync sn).rxSn = sn := by
    unfold sync
    rw [hsync]
    rfl
  have hseg : d.rxSeg (packetFor i payload) =
      (((d.sync sn).withPacket sn payload).updateRxSn sn false, true) := by
    rw [← rxSegment_next hnext hreset payload]
    unfold rxSeg packetFor
    dsimp only
    rw [hoff]
  have hput : ((d.sync sn).withPacket sn payload).rxBufferRing =
      Function.update d.rxBufferRing i
        ((d.rxBufferRing i).store sn 0 true (payload.map some)) := by
    show Function.update (d.sync sn).rxBufferRing _ _ = _
    rw [sync_ring, hidx]
  have hsn : ((d.sync sn).withPacket sn payload).rxSn = sn := hnext
  rw [hseg]
  refine ⟨rfl, (updateRxSn_one hidx hsn ?_ ?_ ?_).trans ?_⟩
  · show Uses (d.sync sn).config i
    rw [SameFuture.sync_config]
    exact huse
  · rw [hput, Function.update_self]
    exact hcomp
  · intro j hj
    rw [hput, Function.update_of_ne hj, hreset j]
    rfl
  · rw [hput, Function.update_self, hbuf]
    show (d.sync sn).toRxQueue.map _ ++ _ = _
    rw [sync_queue]

/-- The same for a PDU with this segment in front of less than a header. -/
theorem appended_packetFor {d : PdcpRx} (hen : d.isRxEnabled = true)
    (hsync : d.rxSnSynced = false) (hreset : d.AllReset) {i : Fin 8192}
    (huse : Uses d.config i) (payload tail : List UInt8)
    (hlen : payload.length < 32000) (hmore : 0 < payload.length + tail.length)
    (htail : tail.length ≤ 2) :
    d.appended [encode d.config.layout (packetFor i payload) ++ tail] =
      some [overKept (d.rxBufferRing i).buffer (payload.map some)] := by
  have hi := i.isLt
  have hge := headerSize_ge d.config.layout
  have hle := headerSize_le d.config.layout
  have hfits : (packetFor i payload).FitsHeader d.config.layout :=
    ⟨by show i.val < 65536; omega, by show 0 < 65536; decide,
      by show _ + payload.length < 32768; omega⟩
  have hstep := rxStep_encode_header d (packetFor i payload) tail hfits hmore
  obtain ⟨hflag, hqueue⟩ := rxSeg_packetFor hsync hreset huse payload
  have hcfg := (d.rxSeg_setup (packetFor i payload)).config
  have hne : encode d.config.layout (packetFor i payload) ≠ [] := by
    intro hnil
    have hzero := congrArg List.length hnil
    rw [encode_length, Seg.wireSize, List.length_nil] at hzero
    omega
  have hrx := onRx_one hen hstep hflag (by rw [hcfg]; omega) hne
  unfold appended
  simp only [LegacyPdcp.rxRun, hrx, Option.bind_some, Option.map_some, List.map_drop]
  rw [hqueue, List.drop_left' (List.length_map _)]

/-- With a packet of no bytes, the receiver delivers just what it has kept. -/
theorem appended_emptyPacket {d : PdcpRx} (hen : d.isRxEnabled = true)
    (hsync : d.rxSnSynced = false) (hreset : d.AllReset) {i : Fin 8192}
    (huse : Uses d.config i) :
    d.appended [encode d.config.layout (packetFor i []) ++ [0]] =
      some [(d.rxBufferRing i).buffer] := by
  rw [appended_packetFor hen hsync hreset huse [] [0] (by decide) (by decide) (by decide)]
  simp [overKept, blit, grow]

theorem setRxEnabled_allReset (d : PdcpRx) (value : Bool) : (d.setRxEnabled value).AllReset :=
  fun _ => rfl

/-- A receiver that is not enabled appends nothing. -/
theorem appended_disabled {d : PdcpRx} (h : d.isRxEnabled = false)
    (pdus : List (List UInt8)) : d.appended pdus = some [] := by
  have hrun : LegacyPdcp.rxRun d pdus = some d := by
    induction pdus with
    | nil => rfl
    | cons pdu pdus ih =>
        have hone : d.onRx pdu = some d := by
          unfold onRx
          rw [h]
          rfl
        unfold LegacyPdcp.rxRun
        rw [hone]
        exact ih
  unfold appended
  rw [hrun]
  simp

/-- `set_rx_enabled(true)` starts over exactly when no buffer is left. -/
theorem setRxEnabled_as_new_iff (d : PdcpRx) :
    (∀ pdus, (d.setRxEnabled true).appended pdus = (enabled d.config).appended pdus) ↔
      d.NothingKept d.config := by
  constructor
  · intro hsame i hi
    have hold := appended_emptyPacket (d := d.setRxEnabled true) rfl rfl
      (d.setRxEnabled_allReset true) hi
    have hnew := appended_emptyPacket (d := enabled d.config) rfl rfl
      (setRxEnabled_allReset _ true) hi
    have heq := (hold.symm.trans (hsame _)).trans hnew
    exact (List.cons.inj (Option.some.inj heq)).1
  · intro h pdus
    exact (SameFuture.of_nothingKept h).appended_eq rfl pdus

/-- **When a session leaves no trace in the next one.**  A receiver that is
enabled again appends the packets of a new receiver, whatever it is sent, if and
only if no record that the configuration uses has kept a buffer.  A `reconfigure`
moreover has to find the receiver enabled: it keeps the flag. -/
theorem reenabled_as_new_iff (d : PdcpRx) (cfg : RxConfig) :
    ((∀ pdus, (d.setRxEnabled true).appended pdus = (enabled d.config).appended pdus) ↔
      d.NothingKept d.config) ∧
    ((∀ pdus, (d.reconfigure cfg).appended pdus = (enabled cfg).appended pdus) ↔
      d.isRxEnabled = true ∧ d.NothingKept cfg) := by
  refine ⟨d.setRxEnabled_as_new_iff, ?_⟩
  have hiff := ({ d with config := cfg } : PdcpRx).setRxEnabled_as_new_iff
  cases hen : d.isRxEnabled with
  | true =>
      have hre : d.reconfigure cfg = ({ d with config := cfg } : PdcpRx).setRxEnabled true := by
        unfold reconfigure
        rw [hen]
      rw [hre]
      exact hiff.trans ⟨fun h => ⟨rfl, h⟩, fun h => h.2⟩
  | false =>
      constructor
      · intro hsame
        have hold := appended_disabled (d := d.reconfigure cfg) hen
          [encode cfg.layout (packetFor 0 []) ++ [0]]
        have hnew := appended_emptyPacket (d := enabled cfg) rfl rfl
          (setRxEnabled_allReset _ true) (Or.inr rfl : Uses cfg 0)
        have heq := (hold.symm.trans (hsame _)).trans hnew
        cases Option.some.inj heq
      · rintro ⟨h, _⟩
        cases h

/-- Two bytes of a packet of three, then the receiver is enabled again and gets a
packet of one byte: it delivers it with the second byte of the old packet. -/
theorem reenabled_leaks :
    let cfg : RxConfig := { allowSegmentation := true, allowReordering := true }
    ∃ d, (enabled cfg).onRx (encode cfg.layout ⟨0, 0, false, [1, 2]⟩) = some d ∧
      d.config = cfg ∧
      (d.setRxEnabled true).appended [encode cfg.layout ⟨0, 0, true, [7]⟩] =
        some [[some 7, some 2]] ∧
      (enabled cfg).appended [encode cfg.layout ⟨0, 0, true, [7]⟩] = some [[some 7]] := by
  intro cfg
  have hfits : ∀ g ∈ [(⟨0, 0, false, [1, 2]⟩ : Seg)], g.Fits cfg.layout := by
    intro g hg
    rw [List.mem_singleton.mp hg]
    exact ⟨by decide, by decide, by decide, by decide⟩
  have hrx := onRx_encodeAll (enabled cfg) [⟨0, 0, false, [1, 2]⟩] (by decide) rfl hfits
  have hkept : (((enabled cfg).rxSegs [⟨0, 0, false, [1, 2]⟩]).rxBufferRing 0).buffer =
      [some 1, some 2] := by decide +kernel
  have hcfg := ((enabled cfg).rxSegs_setup [⟨0, 0, false, [1, 2]⟩]).config
  refine ⟨_, ?_, hcfg, ?_, ?_⟩
  · exact hrx
  · have happ := appended_packetFor
      (d := ((enabled cfg).rxSegs [⟨0, 0, false, [1, 2]⟩]).setRxEnabled true)
      (i := 0) rfl rfl (setRxEnabled_allReset _ true) (Or.inr rfl) [7] [] (by decide)
      (by decide) (by decide)
    have hcfg' : (((enabled cfg).rxSegs [⟨0, 0, false, [1, 2]⟩]).setRxEnabled true).config =
        cfg := hcfg
    have hkept' : ((((enabled cfg).rxSegs [⟨0, 0, false, [1, 2]⟩]).setRxEnabled
        true).rxBufferRing 0).buffer = [some 1, some 2] := hkept
    rw [hcfg', hkept', List.append_nil] at happ
    exact happ
  · have happ := appended_packetFor (d := enabled cfg) (i := 0) rfl rfl
      (setRxEnabled_allReset _ true) (Or.inr rfl) [7] [] (by decide) (by decide) (by decide)
    rw [List.append_nil] at happ
    exact happ

end PdcpRx

end Winject.LegacyPdcp
