import Winject.LegacyPdcp.FirstRound
import Winject.Link.Refinement

/-!
# What a channel delivers

The packets that an end has taken, and what the other end has on its queue, in runs of the
two ends in which the PDCPs number their packets.

## Main results

* `link_delivers_intact` — as long as no two packets share a record.
* `link_delivers_in_order` — as long as no number gets out of range.
-/

namespace Winject.LegacyPdcp

/-- The bytes of a packet; those that no segment has stored are unknown. -/
def RxPacket.bytes (packet : RxPacket) : List UInt8 := packet.buffer.map (·.getD 0)

/-- A packet that has been stored in full. -/
theorem RxPacket.bytes_eq {packet : RxPacket} {b : List UInt8} (h : packet.buffer = b.map some) :
    packet.bytes = b := by
  unfold bytes
  rw [h, List.map_map]
  exact List.map_id b

namespace PdcpRx

/-- What is on the queue stays there until it is read. -/
theorem rxSegment_queue (d : PdcpRx) (sn offset : Nat) (last : Bool)
    (payload : List (Option UInt8)) :
    d.toRxQueue <+: (d.rxSegment sn offset last payload).1.toRxQueue := by
  have hsync : (d.sync sn).toRxQueue = d.toRxQueue := by
    unfold sync
    split_ifs <;> rfl
  unfold rxSegment
  dsimp only
  rw [← hsync]
  split_ifs
  · exact List.prefix_refl _
  · exact List.prefix_refl _
  · unfold storeSegment updateRxSn
    dsimp only
    split_ifs
    · exact List.prefix_refl _
    · exact List.prefix_append ..
    · exact updateLoop_rule (fun e => (d.sync sn).toRxQueue <+: e.toRxQueue)
        (fun _ he _ => he.trans (List.prefix_append ..)) (fun _ _ he _ => he) _
        (List.prefix_refl _)
    · exact List.prefix_refl _

theorem rxStep_queue (d : PdcpRx) (bytes : List UInt8) :
    d.toRxQueue <+: (d.rxStep bytes).1.toRxQueue := by
  unfold rxStep
  dsimp only
  split_ifs
  all_goals first
    | exact List.prefix_refl _
    | exact d.rxSegment_queue ..

theorem rxLoop_queue {d d' : PdcpRx} {bytes : List UInt8} (h : d.rxLoop bytes = some d') :
    d.toRxQueue <+: d'.toRxQueue := by
  induction d, bytes using rxLoop.induct with
  | case1 d bytes hempty =>
      rw [rxLoop_eq, if_pos hempty] at h
      exact Option.some.inj h ▸ List.prefix_refl _
  | case2 d bytes hempty r hstop =>
      rw [rxLoop_eq, if_neg hempty, if_pos hstop] at h
      exact Option.some.inj h ▸ d.rxStep_queue bytes
  | case3 d bytes hempty r hgo hless ih =>
      rw [rxLoop_eq, if_neg hempty, if_neg hgo, if_pos hless] at h
      exact (d.rxStep_queue bytes).trans (ih h)
  | case4 d bytes hempty r hgo hmore =>
      rw [rxLoop_eq, if_neg hempty, if_neg hgo, if_neg hmore] at h
      cases h

theorem onRx_queue {d d' : PdcpRx} {pdu : List UInt8} (h : d.onRx pdu = some d') :
    d.toRxQueue <+: d'.toRxQueue := by
  unfold onRx at h
  split_ifs at h
  · exact Option.some.inj h ▸ List.prefix_refl _
  · exact Option.some.inj h ▸ List.prefix_refl _
  · exact rxLoop_queue h

end PdcpRx

end Winject.LegacyPdcp

namespace Winject.Link

open Winject.LegacyLlc
open Winject.LegacyPdcp
open Winject.Lib.Peers

/-- `PDCP::to_rx`, which returns the next packet if there is one.  `read` counts those that it
has taken from the queue. -/
def End.toRx (e : End) (read : Nat) : Option RxPacket :=
  e.pdcpRx.bind fun d => d.toRxQueue[read]?

theorem End.getElem?_of_toRx {e : End} {read : Nat} {packet : RxPacket} {d : PdcpRx}
    (h : e.toRx read = some packet) (hd : e.pdcpRx = some d) :
    d.toRxQueue[read]? = some packet := by
  unfold toRx at h
  rwa [hd, Option.bind_some] at h

/-- What an end has on its queue stays there, whatever it receives. -/
theorem End.receive_queue {e : End} {pdu : List UInt8} {d' : PdcpRx}
    (h : (e.receive pdu).pdcpRx = some d') :
    ∃ d, e.pdcpRx = some d ∧ d.toRxQueue <+: d'.toRxQueue := by
  unfold End.receive at h
  dsimp only at h
  cases hpassed : (e.llc.onRx ⟨pdu, pdu.length⟩).passed with
  | none =>
      rw [hpassed] at h
      exact ⟨d', h, List.prefix_refl _⟩
  | some payload =>
      rw [hpassed] at h
      obtain ⟨d, hd, honRx⟩ := Option.bind_eq_some_iff.mp h
      exact ⟨d, hd, PdcpRx.onRx_queue honRx⟩

/-- What the queue of the other end has, as long as no two packets share a record. -/
theorem Linked.intact {lcid : UInt8} {cfg : Side → Setup} {p : Side → End}
    (h : Linked lcid cfg p) (s : Side) (hpair : Paired (cfg s).pdcpTx (cfg s.other).pdcpRx)
    (hfew : (p s).pdcpTx.packets.length ≤ 8192) :
    ∃ d, (p s.other).pdcpRx = some d ∧
      ∀ q ∈ d.toRxQueue, ∃ packet ∈ (p s).pdcpTx.packets, q.buffer = packet.map some := by
  obtain ⟨ops, dels, hops, htx, hrx⟩ := h.network s
  rw [htx] at hfew hrx ⊢
  obtain ⟨d, hrun, hall⟩ := firstRound_intact hpair hops hfew dels
  exact ⟨d, hrx.trans hrun, hall⟩

/-- And in which order, as long as no number gets out of range. -/
theorem Linked.consecutive {lcid : UInt8} {cfg : Side → Setup} {p : Side → End}
    (h : Linked lcid cfg p) (s : Side) (hpair : Paired (cfg s).pdcpTx (cfg s.other).pdcpRx)
    (hD : (cfg s.other).pdcpRx.maxSnDistance < 8192)
    (hfew : (p s).pdcpTx.packets.length ≤ (cfg s.other).pdcpRx.maxSnDistance + 1) :
    ∃ d, (p s.other).pdcpRx = some d ∧ d.rlfCount = 0 ∧ ∃ first count,
      d.toRxQueue.map (·.buffer) =
        (((p s).pdcpTx.packets.drop first).take count).map (·.map some) := by
  obtain ⟨ops, dels, hops, htx, hrx⟩ := h.network s
  rw [htx] at hfew hrx ⊢
  obtain ⟨d, hrun, hrlf, hqueue⟩ := firstRound_consecutive hpair hops hD hfew dels
  exact ⟨d, hrx.trans hrun, hrlf, hqueue⟩

/-- **A channel delivers what was submitted.**  Whatever is lost, doubled, delayed and
retransmitted, and whatever the LLCs acknowledge or give up, as long as an end has taken at
most 8192 packets every packet on the queue of the other one is one of them. -/
theorem link_delivers_intact (lcid : UInt8) {cfg : Side → Setup} (hcrc : SameCrc cfg)
    (s : Side) (hpair : Paired (cfg s).pdcpTx (cfg s.other).pdcpRx)
    (es : List (PeerEvent Own))
    (hfew : ((ends.run (fun s => End.start lcid (cfg s)) es) s).pdcpTx.packets.length ≤ 8192) :
    let p := ends.run (fun s => End.start lcid (cfg s)) es
    ∃ d, (p s.other).pdcpRx = some d ∧
      ∀ q ∈ d.toRxQueue, ∃ packet ∈ (p s).pdcpTx.packets, q.buffer = packet.map some :=
  (Linked.run hcrc es).intact s hpair hfew

theorem link_delivers_intact_twice :
    let p := ends.run (fun _ => End.start 1 arqEnd) twice
    ∃ d, (p .far).pdcpRx = some d ∧
      ∀ q ∈ d.toRxQueue, ∃ packet ∈ (p .near).pdcpTx.packets, q.buffer = packet.map some :=
  @link_delivers_intact 1 (fun _ => arqEnd) (fun _ => rfl) .near ⟨rfl, rfl, rfl⟩ twice
    (by decide +kernel)

/-- **A channel delivers in order.**  As long as an end has taken at most
`max_sn_distance + 1` packets, the queue of the other one has some of them that follow one
another, from the first one it got a segment of: none is left out behind that one, none is
delivered twice, and the PDCP that receives them reports no link failure.  The LLC that sends
them may report one. -/
theorem link_delivers_in_order (lcid : UInt8) {cfg : Side → Setup} (hcrc : SameCrc cfg)
    (s : Side) (hpair : Paired (cfg s).pdcpTx (cfg s.other).pdcpRx)
    (hD : (cfg s.other).pdcpRx.maxSnDistance < 8192) (es : List (PeerEvent Own))
    (hfew : ((ends.run (fun s => End.start lcid (cfg s)) es) s).pdcpTx.packets.length ≤
      (cfg s.other).pdcpRx.maxSnDistance + 1) :
    let p := ends.run (fun s => End.start lcid (cfg s)) es
    ∃ d, (p s.other).pdcpRx = some d ∧ d.rlfCount = 0 ∧ ∃ first count,
      d.toRxQueue.map (·.buffer) =
        (((p s).pdcpTx.packets.drop first).take count).map (·.map some) :=
  (Linked.run hcrc es).consecutive s hpair hD hfew

theorem link_delivers_in_order_twice :
    let p := ends.run (fun _ => End.start 1 arqEnd) twice
    ∃ d, (p .far).pdcpRx = some d ∧ d.rlfCount = 0 ∧ ∃ first count,
      d.toRxQueue.map (·.buffer) =
        (((p .near).pdcpTx.packets.drop first).take count).map (·.map some) :=
  @link_delivers_in_order 1 (fun _ => arqEnd) (fun _ => rfl) .near ⟨rfl, rfl, rfl⟩ (by decide)
    twice (by decide +kernel)

end Winject.Link
