import Winject.Node.Channels

/-!
# The messages of a node

A channel sends what it is configured with, or a value-initialised message when it retries:
under its own number, or under 0.  All of it survives the way through a packet.

## Main results

* `Speaks.step` — what a channel sends, in every event.
* `decode_packet` — a packet is read as the message that it was made of.
-/

namespace Winject.ChannelRrc

/-- The distance fits the field of the message. -/
def RrcExchange.Storable (x : RrcExchange) : Prop :=
  ∀ d, x.pdcpConfig.maxSnDistance = some d → d < 65536

namespace Lcrrc

/-- A message of channel `lcid`. -/
structure FromChannel (lcid : UInt8) (m : Rrc) : Prop where
  lcid : m.exchange.lcid = lcid ∨ m.exchange.lcid = 0
  storable : m.exchange.Storable

/-- The channel has its number, and sends messages of its own. -/
structure Speaks (lcid : UInt8) (c : Lcrrc) : Prop where
  sent : ∀ m ∈ c.sent, FromChannel lcid m
  number : c.llc.lcid = lcid
  contexts : c.Contexts

theorem fillFromConfig_storable (c : Lcrrc) : c.fillFromConfig.Storable := by
  intro d hd
  obtain rfl := Option.some.inj hd
  exact Nat.mod_lt _ (by decide)

/-- The two contents of a message. -/
theorem FromChannel.of_exchange {c : Lcrrc} {m : Rrc}
    (h : m.exchange = c.fillFromConfig ∨ m.exchange = {}) : FromChannel c.llc.lcid m := by
  rcases h with h | h
  · exact ⟨Or.inl (congrArg RrcExchange.lcid h), h ▸ fillFromConfig_storable c⟩
  · exact ⟨Or.inr (congrArg RrcExchange.lcid h), h ▸ fun _ hd => by cases hd⟩

/-- What a message of the peer makes a channel send. -/
theorem onExchangeRequest_sent (c : Lcrrc) (reqId : UInt8) (req : RrcExchange) :
    (c.onExchangeRequest reqId req).llc.lcid = c.llc.lcid ∧
      (c.onExchangeRequest reqId req).sent =
        c.sent ++ [{ requestID := reqId, message := .exchangeResponse c.fillFromConfig }] := by
  unfold onExchangeRequest
  split_ifs <;> exact ⟨rfl, rfl⟩

theorem onExchangeResponse_sent (c : Lcrrc) (reqId : UInt8) (rsp : RrcExchange) :
    (c.onExchangeResponse reqId rsp).llc.lcid = c.llc.lcid ∧
      (c.onExchangeResponse reqId rsp).sent = c.sent := by
  unfold onExchangeResponse checkResponse
  split <;> exact ⟨rfl, rfl⟩

theorem Speaks.own {lcid : UInt8} {c : Lcrrc} (h : c.Speaks lcid) (e : OwnEvent) :
    (c.step e.toEvent).Speaks lcid := by
  refine ⟨fun m hm => ?_, (c.own_wire e).lcid.trans h.number, h.contexts.step _⟩
  rcases own_sent h.contexts hm with hold | hnew
  · exact h.sent m hold
  · rw [← h.number]
    exact .of_exchange hnew

/-- Every event keeps it. -/
theorem Speaks.step {lcid : UInt8} {c : Lcrrc} (h : c.Speaks lcid) (e : Event) :
    (c.step e).Speaks lcid := by
  cases e with
  | init forced => exact h.own (.init forced)
  | request reqId req =>
      obtain ⟨hlcid, hsent⟩ := c.onExchangeRequest_sent reqId req
      refine ⟨fun m hm => ?_, hlcid.trans h.number, h.contexts.step _⟩
      change m ∈ (c.onExchangeRequest reqId req).sent at hm
      rw [hsent] at hm
      rcases List.mem_append.mp hm with hold | hnew
      · exact h.sent m hold
      · rw [List.mem_singleton.mp hnew, ← h.number]
        exact .of_exchange (Or.inl rfl)
  | response reqId rsp =>
      obtain ⟨hlcid, hsent⟩ := c.onExchangeResponse_sent reqId rsp
      refine ⟨fun m hm => ?_, hlcid.trans h.number, h.contexts.step _⟩
      change m ∈ (c.onExchangeResponse reqId rsp).sent at hm
      rw [hsent] at hm
      exact h.sent m hm
  | rlf => exact h.own .rlf
  | extract i => exact h.own (.extract i)
  | fire i => exact h.own (.fire i)
  | allocate => exact h.own .allocate

theorem Speaks.new (lcid : UInt8) (cfg : ChannelConfig) :
    (new lcid cfg.llcTx cfg.llcRx cfg.pdcpTx cfg.pdcpRx).Speaks lcid :=
  ⟨fun _ hm => (List.not_mem_nil hm).elim, rfl,
    ⟨fun _ _ hctx => (Option.some_ne_none _ hctx.symm).elim,
      fun _ _ _ hmem => (List.not_mem_nil hmem).elim⟩⟩

end Lcrrc

end Winject.ChannelRrc

namespace Winject.Node

open Winject.ChannelRrc

/-! ## Through a packet -/

theorem toBool_ofBool (b : Bool) : toBool (ofBool b) = b := by
  cases b <;> rfl

theorem ofMode_toMode (mode : RrcLlcTxMode) : ofMode (toMode mode) = mode := by
  cases mode <;> rfl

theorem ofCrc_toCrc (crcType : RrcLlcCrcType) : ofCrc (toCrc crcType) = crcType := by
  cases crcType <;> rfl

theorem ofExchange_toExchange {x : RrcExchange} (h : x.Storable) :
    ofExchange (toExchange x) = x := by
  have hdist : (x.pdcpConfig.maxSnDistance.map UInt16.ofNat).map UInt16.toNat =
      x.pdcpConfig.maxSnDistance := by
    cases hd : x.pdcpConfig.maxSnDistance with
    | none => rfl
    | some d => exact congrArg some (UInt16.toNat_ofNat_of_lt' (h d hd))
  unfold ofExchange toExchange
  dsimp only
  rw [ofMode_toMode, ofCrc_toCrc, toBool_ofBool, toBool_ofBool, toBool_ofBool, hdist]

theorem ofRrc_toRrc {m : ChannelRrc.Rrc} (h : m.exchange.Storable) : ofRrc (toRrc m) = m := by
  obtain ⟨requestID, message⟩ := m
  cases message with
  | exchangeRequest req =>
      exact congrArg (fun x => Rrc.mk requestID (.exchangeRequest x)) (ofExchange_toExchange h)
  | exchangeResponse rsp =>
      exact congrArg (fun x => Rrc.mk requestID (.exchangeResponse x)) (ofExchange_toExchange h)

/-- A packet is read as the message that was sent. -/
theorem decode_packet (m : ChannelRrc.Rrc) :
    (Interface.Rrc.decodePer {}).run (packet m) = some (toRrc m, []) := by
  have hread := (Interface.Rrc.decodePer_decodes {}).accepts
    ((toRrc m).isWire_bytes (Interface.Rrc.message {})) []
  rwa [List.append_nil] at hread

theorem packet_ne_nil (m : ChannelRrc.Rrc) : packet m ≠ [] := by
  intro hnil
  have hlong := (toRrc m).le_bytes_length
  rw [show (toRrc m).bytes = [] from hnil] at hlong
  exact absurd hlong (by decide)

/-- The call that a message is. -/
def ofMessage (m : ChannelRrc.Rrc) : Event :=
  match m.message with
  | .exchangeRequest req => .request m.requestID req
  | .exchangeResponse rsp => .response m.requestID rsp

/-- A message reaches the channel that it names. -/
theorem channelEvent_msg (m : Interface.Rrc) :
    AppRrc.channelEvent (.msg m) = some ((ofRrc m).exchange.lcid, ofMessage (ofRrc m)) := by
  obtain ⟨requestID, message⟩ := m
  cases message <;> rfl

/-- The party of the channel does the same. -/
theorem onRrcMessage_eq {c : Lcrrc} {m : ChannelRrc.Rrc} (h : m.exchange.lcid = c.llc.lcid) :
    c.onRrcMessage m = c.step (ofMessage m) := by
  obtain ⟨requestID, message⟩ := m
  unfold Lcrrc.onRrcMessage
  rw [if_pos h]
  cases message <;> rfl

end Winject.Node
