import Winject.Link.Delivery

/-!
# UDP end points over a channel (`UDPEndPoint.hpp`)

A UDP end point hands each datagram that it receives to the PDCP of its channel, and sends
each packet that the PDCP of the other end delivers to its target, which is the configured
address or, with `reply_to_last`, whoever has sent to it last.  A `TunnelEnd` is one with
the PDCP and the LLC of its channel.

The channel is active, and addresses are numbers.  An iteration of `run_pdcp_rx` is one step.

`received` and `sent` are the datagrams that have gone through the socket.  No function
reads these.

## Main results

* `tunnel_delivers` — every datagram that leaves a tunnel has entered it.
* `tunnel_in_order` — as long as no number gets out of range, without gaps and in order.
-/

namespace Winject.EndPoint

open Winject.LegacyPdcp
open Winject.Lib.Peers
open Winject.Link (End Linked Own SameCrc Setup Sound)

/-! ## The model -/

/-- Where `run_pdcp_tx` is: at the head of the loop, in `select`, or in front of `recv` or
`to_tx`.  The flag says whether the event descriptor is ready too. -/
inductive UdpPhase where
  | head
  | selecting
  | reading (event : Bool)
  | sending (b : List UInt8) (event : Bool)
  | ended
  deriving DecidableEq, Repr

/-- Behind the socket comes the event descriptor, which ends the thread. -/
def UdpPhase.next (event : Bool) : UdpPhase := if event then .ended else .head

/-- `UDPEndPoint`.  `retry` says that `errno` is `EAGAIN` or `EINTR`. -/
structure UdpEndPoint where
  replyToLast : Bool
  targetAddr : Nat
  pdcpTxRunning : Bool := true
  epEventFd : Nat := 0
  retry : Bool := false
  phase : UdpPhase := .head
  received : List (Nat × List UInt8) := []
  sent : List (Nat × List UInt8) := []
  deriving DecidableEq, Repr

/-- How `select` returns. -/
inductive UdpSelect where
  | failed (retry : Bool)
  | ready (sock event : Bool)
  deriving DecidableEq, Repr

/-- How `recv` returns. -/
inductive UdpRecv where
  | failed (retry : Bool)
  | datagram (sender : Nat) (b : List UInt8)
  deriving DecidableEq, Repr

namespace UdpEndPoint

/-- The test of `pdcp_tx_running`. -/
def head (ep : UdpEndPoint) : UdpEndPoint :=
  { ep with phase := if ep.pdcpTxRunning then .selecting else .ended }

/-- `select`, which does not clear `errno`. -/
def select (ep : UdpEndPoint) : UdpSelect → UdpEndPoint
  | .failed retry => { ep with retry := retry, phase := if retry then .head else .ended }
  | .ready sock event =>
    if ep.retry then { ep with phase := .head } else
    let event := event && decide (0 < ep.epEventFd)
    { ep with phase := if sock then .reading event else .next event }

/-- `recv`, into a buffer of 16 KiB. -/
def recv (ep : UdpEndPoint) (event : Bool) : UdpRecv → UdpEndPoint
  | .failed retry => { ep with retry := retry, phase := .next event }
  | .datagram sender b =>
    let b := b.take 16384
    if b.isEmpty then { ep with phase := .next event }
    else { ep with
      targetAddr := if ep.replyToLast then sender else ep.targetAddr
      received := ep.received ++ [(sender, b)]
      phase := .sending b event }

/-- A call of `to_tx`: the next one follows if it was refused. -/
def toTx (ep : UdpEndPoint) (accepted event : Bool) : UdpEndPoint :=
  if ep.pdcpTxRunning && !accepted then ep else { ep with phase := .next event }

/-- `run_pdcp_rx`, for one packet. -/
def send (ep : UdpEndPoint) (b : List UInt8) : UdpEndPoint :=
  if b.isEmpty then ep else { ep with sent := ep.sent ++ [(ep.targetAddr, b)] }

end UdpEndPoint

/-- One end of a tunnel.  `read` counts what `to_rx` has taken from the queue. -/
structure TunnelEnd where
  ep : UdpEndPoint
  link : End
  read : Nat := 0

/-- What an end does by itself: the steps of the two threads, the two parts of the
destructor, and a grant of the scheduler. -/
inductive TunnelStep where
  | head
  | select (rv : UdpSelect)
  | recv (rv : UdpRecv)
  | toTx
  | toRx
  | halt
  | announce
  | grant (grant : LegacyLlc.Grant) (fits : grant.size ≤ LegacyLlc.llcMaxSize)

/-- `IEndPoint::config_t`, of which a UDP end point reads these. -/
structure UdpConfig where
  address2 : Nat
  replyToLast : Bool := false
  deriving DecidableEq, Repr

namespace TunnelEnd

/-- An end as it is constructed, with its channel enabled. -/
def start (lcid : UInt8) (udp : UdpConfig) (cfg : Setup) : TunnelEnd where
  ep := { replyToLast := udp.replyToLast, targetAddr := udp.address2 }
  link := .start lcid cfg

/-- One step. -/
def own (t : TunnelEnd) : TunnelStep → TunnelEnd
  | .head => if t.ep.phase = .head then { t with ep := t.ep.head } else t
  | .select rv => if t.ep.phase = .selecting then { t with ep := t.ep.select rv } else t
  | .recv rv =>
    match t.ep.phase with
    | .reading event => { t with ep := t.ep.recv event rv }
    | _ => t
  | .toTx =>
    match t.ep.phase with
    | .sending b event =>
      { t with
        ep := t.ep.toTx (t.link.pdcpTx.tx.toTx b).2.1 event
        link := { t.link with pdcpTx := t.link.pdcpTx.step (.submit b) } }
    | _ => t
  | .toRx =>
    match t.link.toRx t.read with
    | none => t
    | some packet => { t with ep := t.ep.send packet.bytes, read := t.read + 1 }
  | .halt => { t with ep := { t.ep with pdcpTxRunning := false } }
  | .announce => { t with ep := { t.ep with epEventFd := t.ep.epEventFd + 1 } }
  | .grant g fits => { t with link := t.link.own (.grant g fits) }

/-- A PDU from the air. -/
def receive (t : TunnelEnd) (pdu : List UInt8) : TunnelEnd :=
  { t with link := t.link.receive pdu }

end TunnelEnd

/-- Two end points with a channel between them. -/
def tunnel : Protocol TunnelEnd (List UInt8) TunnelStep where
  own := TunnelEnd.own
  receive := TunnelEnd.receive
  sent t := t.link.air

/-! ## What an end point hands to the PDCP -/

/-- What the socket sees of a step: nothing. -/
structure Silent (ep ep' : UdpEndPoint) : Prop where
  received : ep'.received = ep.received
  sent : ep'.sent = ep.sent
  reply : ep'.replyToLast = ep.replyToLast
  target : ep'.targetAddr = ep.targetAddr

theorem UdpEndPoint.select_silent (ep : UdpEndPoint) (rv : UdpSelect) :
    Silent ep (ep.select rv) := by
  cases rv with
  | failed retry => exact ⟨rfl, rfl, rfl, rfl⟩
  | ready sock event =>
      unfold select
      dsimp only
      split_ifs <;> exact ⟨rfl, rfl, rfl, rfl⟩

theorem UdpEndPoint.toTx_silent (ep : UdpEndPoint) (accepted event : Bool) :
    Silent ep (ep.toTx accepted event) := by
  unfold toTx
  split_ifs <;> exact ⟨rfl, rfl, rfl, rfl⟩

/-- What has entered is what the PDCP has taken, with the datagram at hand behind it. -/
def Owes (ep : UdpEndPoint) (packets : List (List UInt8)) : Prop :=
  match ep.phase with
  | .head => ep.pdcpTxRunning = true → ep.received.map Prod.snd = packets
  | .selecting => ep.received.map Prod.snd = packets
  | .reading _ => ep.received.map Prod.snd = packets
  | .sending b _ => ep.received.map Prod.snd = packets ++ [b]
  | .ended => True

/-- What an end point has handed over.  A datagram is lost when the end point stops. -/
structure Hands (ep : UdpEndPoint) (packets : List (List UInt8)) : Prop where
  datagrams : ∀ b ∈ ep.received.map Prod.snd, Winject.Pdcp.FrameOk b
  handed : packets <+: ep.received.map Prod.snd
  owes : Owes ep packets

namespace Hands

variable {ep : UdpEndPoint} {packets : List (List UInt8)}

/-- The thread goes on, and nothing has entered. -/
theorem goes (h : Hands ep packets) {ep' : UdpEndPoint} (hreceived : ep'.received = ep.received)
    (howes : Owes ep' packets) : Hands ep' packets :=
  ⟨by rw [hreceived]; exact h.datagrams, by rw [hreceived]; exact h.handed, howes⟩

/-- Behind the socket. -/
theorem owes_next (h : ep.pdcpTxRunning = true → ep.received.map Prod.snd = packets)
    (event : Bool) : Owes { ep with phase := .next event } packets := by
  cases event with
  | true => trivial
  | false => exact h

theorem head (h : Hands ep packets) (hphase : ep.phase = .head) : Hands ep.head packets := by
  have howes := h.owes
  unfold Owes at howes
  rw [hphase] at howes
  refine h.goes rfl ?_
  unfold UdpEndPoint.head
  split_ifs with hrunning
  · exact howes hrunning
  · trivial

theorem select (h : Hands ep packets) (hphase : ep.phase = .selecting) (rv : UdpSelect) :
    Hands (ep.select rv) packets := by
  have howes := h.owes
  unfold Owes at howes
  rw [hphase] at howes
  refine h.goes (ep.select_silent rv).received ?_
  cases rv with
  | failed retry =>
      cases retry with
      | true => exact fun _ => howes
      | false => trivial
  | ready sock event =>
      unfold UdpEndPoint.select
      dsimp only
      split_ifs
      · exact fun _ => howes
      · exact howes
      · exact owes_next (fun _ => howes) _

theorem recv (h : Hands ep packets) {event : Bool} (hphase : ep.phase = .reading event)
    (rv : UdpRecv) : Hands (ep.recv event rv) packets := by
  have howes := h.owes
  unfold Owes at howes
  rw [hphase] at howes
  cases rv with
  | failed retry => exact h.goes rfl (owes_next (fun _ => howes) event)
  | datagram sender b =>
      unfold UdpEndPoint.recv
      dsimp only
      by_cases hempty : (b.take 16384).isEmpty = true
      · rw [if_pos hempty]
        exact h.goes rfl (owes_next (fun _ => howes) event)
      · rw [if_neg hempty]
        have hnew : (ep.received ++ [(sender, b.take 16384)]).map Prod.snd =
            packets ++ [b.take 16384] := by
          rw [List.map_append, howes]
          rfl
        refine ⟨fun c hc => ?_, hnew ▸ List.prefix_append .., hnew⟩
        dsimp only at hc
        rw [hnew, ← howes] at hc
        rcases List.mem_append.mp hc with hold | hone
        · exact h.datagrams c hold
        · rw [List.mem_singleton.mp hone]
          refine ⟨fun hnil => hempty (hnil ▸ rfl), ?_⟩
          exact (List.length_take_le ..).trans (by decide)

/-- The datagram at hand. -/
theorem at_hand (h : Hands ep packets) {b : List UInt8} {event : Bool}
    (hphase : ep.phase = .sending b event) : ep.received.map Prod.snd = packets ++ [b] := by
  have howes := h.owes
  unfold Owes at howes
  rwa [hphase] at howes

/-- The PDCP takes the datagram, or refuses it. -/
theorem toTx (h : Hands ep packets) {b : List UInt8} {event : Bool}
    (hphase : ep.phase = .sending b event) (accepted : Bool) :
    Hands (ep.toTx accepted event) (if accepted = true then packets ++ [b] else packets) := by
  have howes := h.at_hand hphase
  unfold UdpEndPoint.toTx
  cases accepted with
  | true =>
      rw [Bool.not_true, Bool.and_false, if_neg Bool.false_ne_true, if_pos rfl]
      exact ⟨h.datagrams, howes ▸ List.prefix_refl _, owes_next (fun _ => howes) event⟩
  | false =>
      rw [Bool.not_false, Bool.and_true, if_neg Bool.false_ne_true]
      split_ifs with hrunning
      · exact h
      · exact h.goes rfl (owes_next (fun hr => (hrunning hr).elim) event)

theorem send (h : Hands ep packets) (b : List UInt8) : Hands (ep.send b) packets := by
  unfold UdpEndPoint.send
  split_ifs
  · exact h
  · exact h.goes rfl h.owes

theorem halt (h : Hands ep packets) : Hands { ep with pdcpTxRunning := false } packets := by
  refine h.goes rfl ?_
  have howes := h.owes
  unfold Owes at howes ⊢
  dsimp only
  cases hphase : ep.phase with
  | head => exact fun hff => (Bool.false_ne_true hff).elim
  | ended => trivial
  | _ =>
      rw [hphase] at howes
      exact howes

end Hands

/-! ## One end -/

/-- Where an end point may send to. -/
def Targets (udp : UdpConfig) (received : List (Nat × List UInt8)) (a : Nat) : Prop :=
  a = udp.address2 ∨ udp.replyToLast = true ∧ a ∈ received.map Prod.fst

theorem Targets.append {udp : UdpConfig} {received : List (Nat × List UInt8)} {a : Nat}
    (h : Targets udp received a) (new : List (Nat × List UInt8)) :
    Targets udp (received ++ new) a := by
  refine h.imp_right fun ⟨hlast, hmem⟩ => ⟨hlast, ?_⟩
  rw [List.map_append]
  exact List.mem_append_left _ hmem

/-- What the end point has sent of a queue. -/
structure Relayed (queue : List RxPacket) (read : Nat) (sent : List (Nat × List UInt8)) :
    Prop where
  read_le : read ≤ queue.length
  sent : sent.map Prod.snd = ((queue.take read).map (·.bytes)).filter fun b => !b.isEmpty

/-- What every run keeps at one end. -/
structure Carries (udp : UdpConfig) (t : TunnelEnd) : Prop where
  hands : Hands t.ep t.link.pdcpTx.packets
  relayed : ∀ d, t.link.pdcpRx = some d → Relayed d.toRxQueue t.read t.ep.sent
  reply : t.ep.replyToLast = udp.replyToLast
  target : Targets udp t.ep.received t.ep.targetAddr
  targets : ∀ datagram ∈ t.ep.sent, Targets udp t.ep.received datagram.1

namespace Carries

variable {udp : UdpConfig} {t : TunnelEnd}

theorem start (lcid : UInt8) (udp : UdpConfig) (cfg : Setup) :
    Carries udp (.start lcid udp cfg) where
  hands := ⟨fun _ hmem => (List.not_mem_nil hmem).elim, List.prefix_refl _, fun _ => rfl⟩
  relayed _ _ := ⟨Nat.zero_le _, rfl⟩
  reply := rfl
  target := Or.inl rfl
  targets _ hmem := (List.not_mem_nil hmem).elim

/-- The thread that reads the socket goes on. -/
theorem silent (h : Carries udp t) {ep : UdpEndPoint} {r : TxRun} (hhands : Hands ep r.packets)
    (hsame : Silent t.ep ep) :
    Carries udp { t with ep := ep, link := { t.link with pdcpTx := r } } where
  hands := hhands
  relayed d hd := by
    dsimp only
    rw [hsame.sent]
    exact h.relayed d hd
  reply := hsame.reply.trans h.reply
  target := by
    dsimp only
    rw [hsame.received, hsame.target]
    exact h.target
  targets datagram hmem := by
    dsimp only at hmem ⊢
    rw [hsame.sent] at hmem
    rw [hsame.received]
    exact h.targets datagram hmem

theorem recv (h : Carries udp t) {event : Bool} (hphase : t.ep.phase = .reading event)
    (rv : UdpRecv) : Carries udp { t with ep := t.ep.recv event rv } := by
  have hhands := h.hands.recv hphase rv
  cases rv with
  | failed retry => exact h.silent hhands ⟨rfl, rfl, rfl, rfl⟩
  | datagram sender b =>
      unfold UdpEndPoint.recv at hhands ⊢
      dsimp only at hhands ⊢
      by_cases hempty : (b.take 16384).isEmpty = true
      · rw [if_pos hempty] at hhands ⊢
        exact h.silent hhands ⟨rfl, rfl, rfl, rfl⟩
      · rw [if_neg hempty] at hhands ⊢
        refine ⟨hhands, h.relayed, h.reply, ?_, fun datagram hmem =>
          (h.targets datagram hmem).append _⟩
        dsimp only
        split_ifs with hlast
        · refine Or.inr ⟨h.reply ▸ hlast, ?_⟩
          rw [List.map_append]
          exact List.mem_append_right _ (List.mem_singleton.mpr rfl)
        · exact h.target.append _

/-- The next packet of the queue. -/
theorem relayed_next {queue : List RxPacket} {read : Nat} {sent : List (Nat × List UInt8)}
    (h : Relayed queue read sent) {packet : RxPacket} (hread : queue[read]? = some packet)
    {sent' : List (Nat × List UInt8)} (hsent : sent'.map Prod.snd =
      sent.map Prod.snd ++ [packet.bytes].filter fun b => !b.isEmpty) :
    Relayed queue (read + 1) sent' := by
  refine ⟨(List.getElem?_eq_some_iff.mp hread).1, ?_⟩
  rw [List.take_add_one, hread, List.map_append, List.filter_append, hsent, h.sent]
  rfl

/-- A packet from the queue is sent, if it is not empty. -/
theorem toRx (h : Carries udp t) {packet : RxPacket}
    (hread : t.link.toRx t.read = some packet) :
    Carries udp { t with ep := t.ep.send packet.bytes, read := t.read + 1 } := by
  have hhands := h.hands.send packet.bytes
  have hnext : ∀ d, t.link.pdcpRx = some d → d.toRxQueue[t.read]? = some packet := fun _ hd =>
    Link.End.getElem?_of_toRx hread hd
  unfold UdpEndPoint.send at hhands ⊢
  by_cases hempty : packet.bytes.isEmpty = true
  · rw [if_pos hempty] at hhands ⊢
    refine ⟨hhands, fun d hd => relayed_next (h.relayed d hd) (hnext d hd) ?_, h.reply,
      h.target, h.targets⟩
    rw [List.filter_singleton, hempty]
    exact (List.append_nil _).symm
  · rw [if_neg hempty] at hhands ⊢
    refine ⟨hhands, fun d hd => relayed_next (h.relayed d hd) (hnext d hd) ?_, h.reply,
      h.target, fun datagram hmem => ?_⟩
    · rw [List.filter_singleton, Bool.eq_false_iff.mpr hempty]
      exact List.map_append
    · rcases List.mem_append.mp hmem with hold | hone
      · exact h.targets datagram hold
      · rw [List.mem_singleton.mp hone]
        exact h.target

theorem grant {lcid : UInt8} {cfg : Setup} (h : Carries udp t) (hsound : Sound lcid cfg t.link)
    (g : LegacyLlc.Grant) (fits : g.size ≤ LegacyLlc.llcMaxSize) :
    Carries udp { t with link := t.link.own (.grant g fits) } := by
  refine ⟨?_, h.relayed, h.reply, h.target, h.targets⟩
  dsimp only
  rw [hsound.grant_packets g fits]
  exact h.hands

theorem own {lcid : UInt8} {cfg : Setup} (h : Carries udp t) (hsound : Sound lcid cfg t.link)
    (o : TunnelStep) : Carries udp (t.own o) := by
  unfold TunnelEnd.own
  cases o with
  | head =>
      dsimp only
      split_ifs with hphase
      · exact h.silent (h.hands.head hphase) ⟨rfl, rfl, rfl, rfl⟩
      · exact h
  | select rv =>
      dsimp only
      split_ifs with hphase
      · exact h.silent (h.hands.select hphase rv) (t.ep.select_silent rv)
      · exact h
  | recv rv =>
      dsimp only
      split
      next event hphase => exact h.recv hphase rv
      · exact h
  | toTx =>
      dsimp only
      split
      next b event hphase =>
        exact h.silent (h.hands.toTx hphase _) (t.ep.toTx_silent _ event)
      · exact h
  | toRx =>
      dsimp only
      cases hread : t.link.toRx t.read with
      | none => exact h
      | some packet => exact h.toRx hread
  | halt => exact h.silent h.hands.halt ⟨rfl, rfl, rfl, rfl⟩
  | announce =>
      have hhands : Hands { t.ep with epEventFd := t.ep.epEventFd + 1 } t.link.pdcpTx.packets :=
        h.hands.goes rfl h.hands.owes
      exact h.silent hhands ⟨rfl, rfl, rfl, rfl⟩
  | grant g fits => exact h.grant hsound g fits

/-- The queue only grows. -/
theorem receive (h : Carries udp t) (pdu : List UInt8) : Carries udp (t.receive pdu) := by
  refine ⟨h.hands, fun d' hd' => ?_, h.reply, h.target, h.targets⟩
  obtain ⟨d, hd, new, hqueue⟩ := Link.End.receive_queue hd'
  have hrelayed := h.relayed d hd
  show Relayed d'.toRxQueue t.read t.ep.sent
  rw [← hqueue]
  refine ⟨?_, ?_⟩
  · rw [List.length_append]
    exact Nat.le_add_right_of_le hrelayed.read_le
  · rw [List.take_append_of_le_length hrelayed.read_le]
    exact hrelayed.sent

end Carries

/-! ## Both ends -/

/-- What every run keeps. -/
structure Tunnelled (lcid : UInt8) (cfg : Side → Setup) (udp : Side → UdpConfig)
    (p : Side → TunnelEnd) : Prop where
  linked : Linked lcid cfg fun s => (p s).link
  carries : ∀ s, Carries (udp s) (p s)

/-- What a step of an end is to its channel. -/
theorem TunnelEnd.own_link {t : TunnelEnd} (h : Hands t.ep t.link.pdcpTx.packets)
    (o : TunnelStep) : (t.own o).link = t.link ∨ ∃ o', (t.own o).link = t.link.own o' := by
  unfold own
  cases o with
  | toTx =>
      dsimp only
      split
      next b event hphase =>
        refine Or.inr ⟨.submit b (h.datagrams b ?_), rfl⟩
        rw [h.at_hand hphase]
        exact List.mem_append_right _ (List.mem_singleton.mpr rfl)
      · exact Or.inl rfl
  | grant g fits => exact Or.inr ⟨.grant g fits, rfl⟩
  | toRx =>
      dsimp only
      split <;> exact Or.inl rfl
  | recv rv =>
      dsimp only
      split <;> exact Or.inl rfl
  | halt => exact Or.inl rfl
  | announce => exact Or.inl rfl
  | _ =>
      dsimp only
      split_ifs <;> exact Or.inl rfl

namespace Tunnelled

variable {lcid : UInt8} {cfg : Side → Setup} {udp : Side → UdpConfig} {p : Side → TunnelEnd}

/-- One end goes on. -/
theorem update (h : Tunnelled lcid cfg udp p) {r : Side} {t : TunnelEnd}
    (hlinked : Linked lcid cfg (Function.update (fun s => (p s).link) r t.link))
    (hcarries : Carries (udp r) t) : Tunnelled lcid cfg udp (Function.update p r t) := by
  refine ⟨?_, fun s => ?_⟩
  · show Linked lcid cfg (TunnelEnd.link ∘ Function.update p r t)
    rw [Function.comp_update]
    exact hlinked
  · by_cases hs : s = r
    · subst hs
      rw [Function.update_self]
      exact hcarries
    · rw [Function.update_of_ne hs]
      exact h.carries s

theorem step (hcrc : SameCrc cfg) (h : Tunnelled lcid cfg udp p) (e : PeerEvent TunnelStep) :
    Tunnelled lcid cfg udp (tunnel.step p e) := by
  cases e with
  | own r o =>
      refine h.update ?_ ((h.carries r).own (h.linked.sound r) o)
      rcases TunnelEnd.own_link (h.carries r).hands o with hsame | ⟨o', ho'⟩
      · change Linked lcid cfg (Function.update _ r ((p r).own o).link)
        rw [hsame, Function.update_eq_self]
        exact h.linked
      · change Linked lcid cfg (Function.update _ r ((p r).own o).link)
        rw [ho']
        exact h.linked.step hcrc (.own r o')
  | deliver r k =>
      cases hk : (tunnel.sent (p r.other))[k]? with
      | none =>
          simp only [Protocol.step, hk]
          exact h
      | some pdu =>
          rw [Protocol.step_deliver tunnel hk]
          refine h.update ?_ ((h.carries r).receive pdu)
          have hlinked := h.linked.step hcrc (.deliver r k)
          rwa [Protocol.step_deliver Link.ends hk] at hlinked

theorem run (hcrc : SameCrc cfg) (h : Tunnelled lcid cfg udp p) (es : List (PeerEvent TunnelStep)) :
    Tunnelled lcid cfg udp (tunnel.run p es) :=
  Lib.Runs.foldl_invariant (Tunnelled lcid cfg udp) (fun _ e h => h.step hcrc e) es p h

theorem start (lcid : UInt8) (cfg : Side → Setup) (udp : Side → UdpConfig) :
    Tunnelled lcid cfg udp fun s => TunnelEnd.start lcid (udp s) (cfg s) :=
  ⟨.start lcid cfg, fun s => .start lcid (udp s) (cfg s)⟩

/-- The datagrams of a queue whose packets have been stored in full. -/
theorem sent_eq {d : PdcpRx} {t : TunnelEnd} (h : Relayed d.toRxQueue t.read t.ep.sent)
    {datagrams : List (List UInt8)} (hok : ∀ b ∈ datagrams, Winject.Pdcp.FrameOk b)
    (hqueue : d.toRxQueue.map (·.buffer) = datagrams.map (·.map some)) :
    t.ep.sent.map Prod.snd = datagrams.take t.read := by
  have hbytes : d.toRxQueue.map (·.bytes) = datagrams := by
    have hdefault : (fun packet : RxPacket => packet.bytes) =
        (fun b => b.map (·.getD 0)) ∘ (·.buffer) := rfl
    rw [hdefault, ← List.map_map, hqueue, List.map_map]
    refine (List.map_congr_left fun b _ => ?_).trans (List.map_id _)
    exact (List.map_map ..).trans (List.map_id b)
  rw [h.sent, List.map_take, hbytes]
  refine List.filter_eq_self.mpr fun b hb => ?_
  rw [Bool.not_eq_true', List.isEmpty_eq_false_iff]
  exact (hok b (List.mem_of_mem_take hb)).1

end Tunnelled

/-- **What leaves a tunnel has entered it**, as long as at most 8192 datagrams have entered it
at that end; and it leaves to the configured address, or to one that has sent a datagram to
that end point. -/
theorem tunnel_delivers (lcid : UInt8) {cfg : Side → Setup} (hcrc : SameCrc cfg)
    (udp : Side → UdpConfig) (s : Side) (hpair : Paired (cfg s).pdcpTx (cfg s.other).pdcpRx)
    (es : List (PeerEvent TunnelStep))
    (hfew : (tunnel.run (fun s => TunnelEnd.start lcid (udp s) (cfg s)) es
      s).ep.received.length ≤ 8192) :
    let p := tunnel.run (fun s => TunnelEnd.start lcid (udp s) (cfg s)) es
    ∀ datagram ∈ (p s.other).ep.sent,
      datagram.2 ∈ (p s).ep.received.map Prod.snd ∧
        Targets (udp s.other) (p s.other).ep.received datagram.1 := by
  intro p datagram hmem
  have h : Tunnelled lcid cfg udp p := (Tunnelled.start lcid cfg udp).run hcrc es
  have hhanded := (h.carries s).hands.handed
  have hlen : (p s).link.pdcpTx.packets.length ≤ 8192 := by
    have hle := hhanded.length_le
    rw [List.length_map] at hle
    exact hle.trans hfew
  obtain ⟨d, hd, hqueue⟩ := h.linked.intact s hpair hlen
  have hsent : datagram.2 ∈ (p s.other).ep.sent.map Prod.snd := List.mem_map_of_mem hmem
  rw [((h.carries s.other).relayed d hd).sent] at hsent
  obtain ⟨q, hq, hbytes⟩ := List.mem_map.mp (List.mem_of_mem_filter hsent)
  obtain ⟨b, hb, hbuffer⟩ := hqueue q (List.mem_of_mem_take hq)
  refine ⟨?_, (h.carries s.other).targets datagram hmem⟩
  rw [← hbytes, RxPacket.bytes_eq hbuffer]
  exact hhanded.subset hb

/-- **A tunnel keeps the order.**  As long as at most `max_sn_distance + 1` datagrams have
entered it at one end, those that have left it at the other follow one another: none is left
out behind the first one, and none is sent twice. -/
theorem tunnel_in_order (lcid : UInt8) {cfg : Side → Setup} (hcrc : SameCrc cfg)
    (udp : Side → UdpConfig) (s : Side) (hpair : Paired (cfg s).pdcpTx (cfg s.other).pdcpRx)
    (hD : (cfg s.other).pdcpRx.maxSnDistance < 8192) (es : List (PeerEvent TunnelStep))
    (hfew : (tunnel.run (fun s => TunnelEnd.start lcid (udp s) (cfg s)) es
      s).ep.received.length ≤ (cfg s.other).pdcpRx.maxSnDistance + 1) :
    let p := tunnel.run (fun s => TunnelEnd.start lcid (udp s) (cfg s)) es
    ∃ first count, (p s.other).ep.sent.map Prod.snd =
      (((p s).ep.received.map Prod.snd).drop first).take count := by
  intro p
  have h : Tunnelled lcid cfg udp p := (Tunnelled.start lcid cfg udp).run hcrc es
  obtain ⟨rest, hhanded⟩ := (h.carries s).hands.handed
  have hlen : (p s).link.pdcpTx.packets.length ≤ (cfg s.other).pdcpRx.maxSnDistance + 1 := by
    have hle := (h.carries s).hands.handed.length_le
    rw [List.length_map] at hle
    exact hle.trans hfew
  obtain ⟨d, hd, -, first, count, hqueue⟩ := h.linked.consecutive s hpair hD hlen
  have hok : ∀ b ∈ ((p s).link.pdcpTx.packets.drop first).take count,
      Winject.Pdcp.FrameOk b := fun b hb =>
    (h.carries s).hands.datagrams b ((h.carries s).hands.handed.subset
      (List.mem_of_mem_drop (List.mem_of_mem_take hb)))
  have hsent := Tunnelled.sent_eq ((h.carries s.other).relayed d hd) hok hqueue
  -- what the end point still has at hand is behind the packets
  refine ⟨first, min (min (p s.other).read count)
    ((p s).link.pdcpTx.packets.drop first).length, ?_⟩
  rw [hsent, List.take_take, ← hhanded, List.drop_append,
    List.take_append_of_le_length (Nat.min_le_right ..)]
  conv => rhs; rw [← List.take_take, List.take_length]

/-- Two datagrams from address 7 enter the tunnel, and the first one leaves it for address 9. -/
def oneThrough : List (PeerEvent TunnelStep) :=
  [.own .near .head, .own .near (.select (.ready true false)),
    .own .near (.recv (.datagram 7 [1, 2, 3])), .own .near .toTx, .own .near .head,
    .own .near (.select (.ready true false)), .own .near (.recv (.datagram 7 [4])),
    .own .near (.grant (Link.space 0) (Link.space_fits 0)),
    .deliver .far 0, .deliver .far 0, .own .far .toRx, .own .far .toRx]

/-- The far end sends to address 9, the near one answers. -/
def addresses : Side → UdpConfig
  | .near => ⟨8, true⟩
  | .far => ⟨9, false⟩

theorem tunnel_delivers_oneThrough :
    let p := tunnel.run (fun s => TunnelEnd.start 1 (addresses s) Link.arqEnd) oneThrough
    (p .far).ep.sent = [(9, [1, 2, 3])] ∧ ∀ datagram ∈ (p .far).ep.sent,
      datagram.2 ∈ (p .near).ep.received.map Prod.snd ∧
        Targets (addresses .far) (p .far).ep.received datagram.1 :=
  ⟨by decide +kernel, @tunnel_delivers 1 (fun _ => Link.arqEnd) (fun _ => rfl) addresses .near
    ⟨rfl, rfl, rfl⟩ oneThrough (by decide +kernel)⟩

theorem tunnel_in_order_oneThrough :
    let p := tunnel.run (fun s => TunnelEnd.start 1 (addresses s) Link.arqEnd) oneThrough
    (p .near).ep.received.length = 2 ∧ ∃ first count, (p .far).ep.sent.map Prod.snd =
      (((p .near).ep.received.map Prod.snd).drop first).take count :=
  ⟨by decide +kernel, @tunnel_in_order 1 (fun _ => Link.arqEnd) (fun _ => rfl) addresses .near
    ⟨rfl, rfl, rfl⟩ (by decide) oneThrough (by decide +kernel)⟩

end Winject.EndPoint
