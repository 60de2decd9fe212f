import Winject.LegacyPdcp.Tx
import Winject.Pdcp.WrapSplit

/-!
# Runs of the first PDCP with one packet to a grant

A transmitter that has nothing left to send (`Idle`) puts a one-byte packet into
a PDU of its own.  Runs of such packets reach any sequence number.

## Main results

* `Idle.single` — one packet.
* `Idle.singles` — any number of packets.
-/

namespace Winject.LegacyPdcp

open Winject.Frames
open Winject.Lib.Segmentation
open Winject.Pdcp

/-- The transmitter has sent everything it took. -/
structure Idle (cfg : TxConfig) (r : TxRun) : Prop where
  state : ∃ u, UlAt cfg.toUl r.packets (r.packets.length, 0) u ∧ TxSim r.tx u
  ok : ∀ f ∈ r.packets, FrameOk f
  config : r.tx.config = cfg

theorem Idle.init (cfg : TxConfig) :
    Idle cfg { tx := ({ config := cfg } : PdcpTx).setTxEnabled true } :=
  ⟨(TxSent.init cfg).state, by simp, rfl⟩

theorem Idle.of_sent {cfg : TxConfig} {r : TxRun} {pss : List (List Piece)}
    {pos : Nat × Nat} (h : TxSent cfg r pss pos) (hnone : r.tx.pendingPackets = 0)
    (hcfg : r.tx.config = cfg) : Idle cfg r := by
  have hpos := h.pending_eq
  obtain ⟨u, hat, hsim⟩ := h.state
  rw [hnone, Nat.sub_zero] at hpos
  have hoff : pos.2 = 0 := by
    rcases hat.inside with hzero | ⟨hlt, _⟩
    · exact hzero
    · omega
  have heq : pos = (r.packets.length, 0) := Prod.ext hpos.symm hoff
  rw [heq] at hat
  exact ⟨⟨u, hat, hsim⟩, h.sent.ok, hcfg⟩

/-- The settings that the runs below use. -/
structure SinglesConfig (cfg : TxConfig) (buffer : List UInt8) : Prop where
  seg : cfg.allowSegmentation = true
  reorder : cfg.allowReordering = true
  commit : cfg.minCommitSize ≤ buffer.length
  queue : 0 < cfg.maxTxQueueSize
  room : 7 ≤ buffer.length
  limit : buffer.length ≤ 32767

/-- The PDU of packet number `n` when it has the one byte `b`. -/
def singlePdu (cfg : TxConfig) (b : UInt8) (n : Nat) : SentPdu :=
  ⟨n, encode cfg.layout ⟨n % 65536, 0, true, [b]⟩⟩

/-- A packet and its grant. -/
def singleOp (buffer : List UInt8) (b : UInt8) : List TxOp := [.submit [b], .grant buffer]

/-- Packets of one byte have the sizes that one of them has. -/
theorem singles_ok {buffer : List UInt8} {b : UInt8} {m : Nat}
    (h : ∀ op ∈ singleOp buffer b, TxOpOk m op) (n : Nat) :
    ∀ op ∈ (List.replicate n (singleOp buffer b)).flatten, TxOpOk m op := by
  intro op hop
  obtain ⟨ops, hops, hmem⟩ := List.mem_flatten.mp hop
  rw [(List.mem_replicate.mp hops).2] at hmem
  exact h op hmem

section Single

variable {cfg : TxConfig} {buffer : List UInt8} {r : TxRun}

/-- An uplink that has sent everything before frame `n` puts the last frame, of
one byte, into a PDU of its own. -/
theorem write_single (hc : SinglesConfig cfg buffer) {frames : List (List UInt8)}
    (hframes : ∀ f ∈ frames, FrameOk f) {n : Nat} (hlen : frames.length = n + 1) {b : UInt8}
    (hget : frames.getD n [] = [b]) {u : PdcpUl} (h : UlAt cfg.toUl frames (n, 0) u) :
    UlAt cfg.toUl frames (n + 1, 0) (ulStep u (.write buffer)).1 ∧
      (ulStep u (.write buffer)).2 = some (singlePdu cfg b n).bytes := by
  have hroom := hc.room
  have hlimit := hc.limit
  have hhdr : cfg.toUl.layout.headerSize = 6 := headerSize_eq hc.seg hc.reorder
  obtain ⟨s₁, hloop, hall, hrest⟩ := writeLoop_one (n := 1) hframes hc.seg
    (s := ⟨u, [], buffer, 0, 0⟩) h (by dsimp only; omega) (by dsimp only; omega) hlimit
    (by dsimp only; rw [hget, hhdr, List.length_singleton]; omega)
  have hnext : Piece.next frames ⟨n, 0, 1⟩ = (n + 1, 0) := by
    unfold Piece.next Piece.isLast
    dsimp only
    rw [hget]
    rfl
  rw [hnext] at hall
  dsimp only at hrest
  have hend := writeLoop_end hframes hall.state (Or.inl (by rw [hlen])) (by omega)
  rw [← hloop] at hend
  obtain ⟨hstate, hpdu⟩ := write_emitted h (by rw [hlen]; exact Nat.lt_succ_self n)
    (by omega) hc.commit (by simp) (hall.trans hend)
  refine ⟨hstate, hpdu.trans ?_⟩
  show some (pduOf cfg.layout frames [⟨n, 0, 1⟩]) = _
  rw [pduOf, List.map_singleton, encodeAll_cons, encodeAll_nil, List.append_nil]
  unfold singlePdu segOf Piece.isLast Piece.bytes
  dsimp only
  rw [hget]
  rfl

/-- An idle transmitter puts a one-byte packet into a PDU of its own. -/
theorem Idle.single (h : Idle cfg r) (hc : SinglesConfig cfg buffer) (b : UInt8) :
    Idle cfg ((singleOp buffer b).foldl TxRun.step r) ∧
      ((singleOp buffer b).foldl TxRun.step r).packets = r.packets ++ [[b]] ∧
      ((singleOp buffer b).foldl TxRun.step r).pdus =
        r.pdus ++ [singlePdu cfg b r.packets.length] := by
  obtain ⟨u, hat, hsim⟩ := h.state
  have hempty : r.tx.toTxQueue = [] := by
    have hqueue := hsim.queue
    rw [hat.queue, List.drop_length] at hqueue
    split at hqueue
    · cases hqueue
    · exact hqueue.symm
  have hroom : ¬ r.tx.toTxQueue.length ≥ r.tx.config.maxTxQueueSize := by
    have := hc.queue
    rw [hempty, h.config, List.length_nil]
    omega
  have hok : FrameOk [b] := ⟨by simp, by simp⟩
  have hframes : ∀ f ∈ r.packets ++ [[b]], FrameOk f := by
    intro f hf
    rcases List.mem_append.mp hf with hf | hf
    · exact h.ok f hf
    · rw [List.mem_singleton.mp hf]
      exact hok
  have hat' : UlAt cfg.toUl (r.packets ++ [[b]]) (r.packets.length, 0)
      (u.onFrameData [b]).1 := hat.push hok
  have hsim' := hsim.push hok.1
  have hpushed : r.step (.submit [b]) =
      { r with
        tx := { r.tx with toTxQueue := r.tx.toTxQueue ++ [[b]] }
        packets := r.packets ++ [[b]] } := by
    unfold TxRun.step PdcpTx.toTx
    dsimp only
    rw [if_neg hroom]
    rfl
  obtain ⟨hstate, hpdu⟩ := write_single hc hframes
    (by rw [List.length_append, List.length_singleton])
    (by rw [List.getD_append_right _ _ _ _ (Nat.le_refl _), Nat.sub_self]; rfl) hat'
  obtain ⟨hsim'', hpdu', _⟩ := onTx_sim hsim' hat' hframes buffer hc.limit
  rw [hpdu] at hpdu'
  have hpending : (r.packets ++ [[b]]).length -
      ({ r.tx with toTxQueue := r.tx.toTxQueue ++ [[b]] } : PdcpTx).pendingPackets =
      r.packets.length := by
    have hnone : ¬ r.tx.currentTxOffset < r.tx.currentTxBuffer.length := by
      intro hlt
      have hqueue := hsim.queue
      rw [hat.queue, List.drop_length, if_pos hlt] at hqueue
      cases hqueue
    unfold PdcpTx.pendingPackets
    dsimp only
    rw [if_neg hnone, hempty, List.length_append]
    simp
  have hrun : (singleOp buffer b).foldl TxRun.step r =
      { tx := (({ r.tx with toTxQueue := r.tx.toTxQueue ++ [[b]] } : PdcpTx).onTx
          { outPdu := buffer }).1
        packets := r.packets ++ [[b]]
        pdus := r.pdus ++ [singlePdu cfg b r.packets.length] } := by
    show (r.step (.submit [b])).step (.grant buffer) = _
    rw [hpushed]
    unfold TxRun.step
    dsimp only
    rw [hpdu', hpending]
    rfl
  rw [hrun]
  refine ⟨⟨⟨_, ?_, hsim''⟩, hframes, ?_⟩, rfl, rfl⟩
  · rw [List.length_append, List.length_singleton]
    exact hstate
  · exact (onTx_config _ _).trans h.config

/-- Packets of one byte after each other. -/
theorem Idle.singles (h : Idle cfg r) (hc : SinglesConfig cfg buffer) (b : UInt8) (n : Nat) :
    Idle cfg ((List.replicate n (singleOp buffer b)).flatten.foldl TxRun.step r) ∧
      ((List.replicate n (singleOp buffer b)).flatten.foldl TxRun.step r).packets =
        r.packets ++ List.replicate n [b] ∧
      ((List.replicate n (singleOp buffer b)).flatten.foldl TxRun.step r).pdus =
        r.pdus ++ (List.range' r.packets.length n).map (singlePdu cfg b) := by
  induction n generalizing r with
  | zero => simpa using h
  | succ n ih =>
      obtain ⟨hidle, hpackets, hpdus⟩ := h.single hc b
      obtain ⟨hidle', hpackets', hpdus'⟩ := ih hidle
      rw [List.replicate_succ, List.flatten_cons, List.foldl_append]
      refine ⟨hidle', ?_, ?_⟩
      · rw [hpackets', hpackets, List.append_assoc]
        rfl
      · rw [hpdus', hpdus, hpackets, List.append_assoc, List.length_append,
          List.length_singleton, List.range'_succ]
        rfl

end Single

end Winject.LegacyPdcp
