import Winject.ChannelRrc.Requests
import Winject.Lib.Peers

/-!
# Wire layouts of the two ends

Both ends of a channel run `LCRRC` and exchange their transmit configurations.  A
party that has become active must read what its peer writes: the same header size
and CRC in the LLC, the same segment headers in the PDCP.

`configure_crc_size` never puts a size back to zero, so a receiver that was
constructed with a CRC keeps four bytes of it when the peer has none.  And a retry
sends a value-initialised message, which reaches the peer's channel only if that
channel is number 0: it then says that nothing is configured.

## Main results

* `Peer.own`, `Peer.receive` — what a party keeps, as long as its peer keeps it.
* `active_layout` — a pending activation can always come next.
* `layouts_agree_iff` — when the layouts agree in every run.
-/

namespace Winject.ChannelRrc

open Winject.LegacyLlc
open Winject.LegacyPdcp
open Winject.Lib.Peers

/-! ## Layouts -/

/-- One direction on the wire: the CRC bytes of an LLC header and the CRC they hold,
and the two flags that decide the header of a PDCP segment. -/
structure Layout where
  crcSize : Nat
  crcType : CrcType
  allowSegmentation : Bool
  allowReordering : Bool
  deriving DecidableEq, Repr

/-- The content of a message. -/
def Rrc.exchange (m : Rrc) : RrcExchange :=
  match m.message with
  | .exchangeRequest req => req
  | .exchangeResponse rsp => rsp

/-- The layout that `reconfigure_rx` takes from a message, over a CRC size. -/
def RrcExchange.layout (msg : RrcExchange) (size : Nat) : Layout where
  crcSize := if crcToConfig msg.llcConfig.crcType = .crc32 then 4 else size
  crcType := crcToConfig msg.llcConfig.crcType
  allowSegmentation := msg.pdcpConfig.allowSegmentation
  allowReordering := msg.pdcpConfig.allowReordering

/-- The configurations that a channel is constructed with. -/
structure ChannelConfig where
  llcTx : LegacyLlc.TxConfig := {}
  llcRx : LegacyLlc.RxConfig := {}
  pdcpTx : LegacyPdcp.TxConfig := {}
  pdcpRx : LegacyPdcp.RxConfig := {}
  deriving DecidableEq, Repr

/-- The layout of what a party sends. -/
def ChannelConfig.layout (cfg : ChannelConfig) : Layout where
  crcSize := if cfg.llcTx.crcType = .crc32 then 4 else 0
  crcType := cfg.llcTx.crcType
  allowSegmentation := cfg.pdcpTx.allowSegmentation
  allowReordering := cfg.pdcpTx.allowReordering

/-- What can happen to a channel other than a message of its peer. -/
inductive OwnEvent where
  | init (forced : Bool)
  | rlf
  | extract (i : Nat)
  | fire (i : Nat)
  | allocate
  deriving DecidableEq, Repr

/-- The event of the channel. -/
def OwnEvent.toEvent : OwnEvent → Event
  | .init forced => .init forced
  | .rlf => .rlf
  | .extract i => .extract i
  | .fire i => .fire i
  | .allocate => .allocate

namespace Lcrrc

/-- The layout that the channel sends with. -/
def txLayout (c : Lcrrc) : Layout where
  crcSize := c.llc.txCrcSize
  crcType := c.llc.txConfig.crcType
  allowSegmentation := c.pdcpTx.config.allowSegmentation
  allowReordering := c.pdcpTx.config.allowReordering

/-- The layout that the channel reads with. -/
def rxLayout (c : Lcrrc) : Layout where
  crcSize := c.llc.rxCrcSize
  crcType := c.llc.rxConfig.crcType
  allowSegmentation := c.pdcpRx.config.allowSegmentation
  allowReordering := c.pdcpRx.config.allowReordering

/-- `AppRRC::on_rrc_message`: a message goes to the channel it names. -/
def onRrcMessage (c : Lcrrc) (m : Rrc) : Lcrrc :=
  if m.exchange.lcid = c.llc.lcid then
    match m.message with
    | .exchangeRequest req => c.step (.request m.requestID req)
    | .exchangeResponse rsp => c.step (.response m.requestID rsp)
  else c

/-- One end of a channel. -/
def protocol : Protocol Lcrrc Rrc OwnEvent where
  own c e := c.step e.toEvent
  receive := onRrcMessage
  sent := sent

/-- The two ends of channel `lcid` as they are constructed. -/
def peers (lcid : UInt8) (cfg : Side → ChannelConfig) : Side → Lcrrc := fun s =>
  new lcid (cfg s).llcTx (cfg s).llcRx (cfg s).pdcpTx (cfg s).pdcpRx

/-- An active party reads with the layout that its peer sends with. -/
def LayoutsAgree (p : Side → Lcrrc) : Prop :=
  ∀ s, (p s).txrxState = .active → (p s).rxLayout = (p s.other).txLayout

/-- From `tx` to `rx`: the receiver has no CRC to forget, and on channel 0 the
sender has nothing configured. -/
structure Compatible (lcid : UInt8) (rx tx : ChannelConfig) : Prop where
  crc : tx.llcTx.crcType = .crc32 ∨ rx.llcRx.crcType = .none
  retry : lcid = 0 → tx.llcTx.crcType = .none ∧ tx.pdcpTx.allowSegmentation = false ∧
    tx.pdcpTx.allowReordering = false

/-! ## What an event does to the layouts -/

/-- Number and layouts are the same. -/
structure SameWire (c c' : Lcrrc) : Prop where
  lcid : c'.llc.lcid = c.llc.lcid
  tx : c'.txLayout = c.txLayout
  rx : c'.rxLayout = c.rxLayout

theorem SameWire.trans {c c' c'' : Lcrrc} (h : SameWire c c') (h' : SameWire c' c'') :
    SameWire c c'' :=
  ⟨h'.lcid.trans h.lcid, h'.tx.trans h.tx, h'.rx.trans h.rx⟩

theorem autoSendRrc_wire (c : Lcrrc) (maxRetry : Nat) (msg first : Rrc) :
    SameWire c (c.autoSendRrc maxRetry msg first) := by
  unfold autoSendRrc
  split_ifs <;> exact ⟨rfl, rfl, rfl⟩

theorem call_wire (c : Lcrrc) (cb : Callback) : SameWire c (c.call cb) := by
  cases cb with
  | activate => exact ⟨rfl, rfl, rfl⟩
  | expiry maxRetry reqId first =>
      show SameWire c (c.onExpiry maxRetry reqId first)
      unfold onExpiry
      cases c.rrcRequests reqId with
      | none => exact ⟨rfl, rfl, rfl⟩
      | some context =>
          refine SameWire.trans ?_ (autoSendRrc_wire _ _ _ _)
          exact ⟨rfl, rfl, rfl⟩

/-- No event of its own changes the layouts of a channel. -/
theorem own_wire (c : Lcrrc) (e : OwnEvent) : SameWire c (c.step e.toEvent) := by
  cases e with
  | init forced =>
      show SameWire c (c.onInit forced)
      unfold onInit
      split_ifs
      · exact ⟨rfl, rfl, rfl⟩
      · refine SameWire.trans ?_ (autoSendRrc_wire _ _ _ _)
        exact ⟨rfl, rfl, rfl⟩
  | rlf => exact ⟨rfl, rfl, rfl⟩
  | extract i => exact ⟨rfl, rfl, rfl⟩
  | fire i =>
      show SameWire c (c.fire i)
      unfold fire
      cases c.timer.extracted[i]? with
      | none => exact ⟨rfl, rfl, rfl⟩
      | some cb =>
          refine SameWire.trans ?_ (call_wire _ cb)
          exact ⟨rfl, rfl, rfl⟩
  | allocate => exact ⟨rfl, rfl, rfl⟩

theorem own_run_wire (c : Lcrrc) (es : List OwnEvent) :
    SameWire c (es.foldl protocol.own c) := by
  induction es generalizing c with
  | nil => exact ⟨rfl, rfl, rfl⟩
  | cons e es ih => exact (c.own_wire e).trans (ih _)

/-- A message for another channel does nothing. -/
theorem onRrcMessage_of_ne {c : Lcrrc} {m : Rrc} (h : m.exchange.lcid ≠ c.llc.lcid) :
    c.onRrcMessage m = c := if_neg h

/-- The CRC bytes are there when there is a CRC. -/
def Sized (c : Lcrrc) : Prop := c.llc.txConfig.crcType = .crc32 → c.llc.txCrcSize = 4

/-- `reconfigure_rx` computes the size for the other direction too, and it is the
same. -/
theorem reconfigureRx_txLayout {c : Lcrrc} (h : c.Sized) (msg : RrcExchange) :
    (c.reconfigureRx msg).txLayout = c.txLayout := by
  have hsize : (if c.llc.txConfig.crcType = .crc32 then 4 else c.llc.txCrcSize) =
      c.llc.txCrcSize := by
    split_ifs with hcrc
    · exact (h hcrc).symm
    · rfl
  unfold txLayout
  rw [← hsize]
  rfl

/-- What a message for the channel does: the layout is the one it says, an
activation is pending, and the answer has the channel's own configuration. -/
structure Received (c : Lcrrc) (msg : RrcExchange) (c' : Lcrrc) : Prop where
  lcid : c'.llc.lcid = c.llc.lcid
  tx : c'.txLayout = c.txLayout
  rx : c'.rxLayout = msg.layout c.llc.rxCrcSize
  pending : c'.ActivationPending
  sent : ∀ a ∈ c'.sent, a ∈ c.sent ∨ a.exchange = c.fillFromConfig

theorem onExchangeRequest_received {c : Lcrrc} (h : c.Sized) (reqId : UInt8)
    (req : RrcExchange) : c.Received req (c.onExchangeRequest reqId req) := by
  have hbase : ∀ d : Lcrrc, SameWire c d → d.sent = c.sent →
      d.fillFromConfig = c.fillFromConfig → d.Sized →
      c.Received req ((((d.reconfigureRx req).changeTxrxState .configured).sendExchangeResp
        reqId).scheduleActivate) := by
    intro d hwire hsent hfill hsized
    refine ⟨hwire.lcid, ?_, ?_, scheduleActivate_pending _, ?_⟩
    · exact (reconfigureRx_txLayout hsized req).trans hwire.tx
    · have hsize : d.llc.rxCrcSize = c.llc.rxCrcSize := congrArg Layout.crcSize hwire.rx
      rw [← hsize]
      rfl
    · intro a ha
      rcases List.mem_append.mp ha with hold | hnew
      · exact Or.inl (hsent ▸ hold)
      · rw [List.mem_singleton.mp hnew, ← hfill]
        exact Or.inr rfl
  unfold onExchangeRequest
  split_ifs
  · exact hbase c.onRlf ⟨rfl, rfl, rfl⟩ rfl rfl h
  · exact hbase c ⟨rfl, rfl, rfl⟩ rfl rfl h

theorem onExchangeResponse_received {c : Lcrrc} (h : c.Sized) (reqId : UInt8)
    (rsp : RrcExchange) : c.Received rsp (c.onExchangeResponse reqId rsp) := by
  have hbase : ∀ d : Lcrrc, d.llc = c.llc → d.pdcpTx = c.pdcpTx → d.sent = c.sent →
      c.Received rsp (((d.reconfigureRx rsp).changeTxrxState .configured).scheduleActivate) := by
    intro d hllc hpdcp hsent
    have hwire : d.txLayout = c.txLayout := by
      unfold txLayout
      rw [hllc, hpdcp]
    have hsized : d.Sized := by
      unfold Sized
      rwa [hllc]
    refine ⟨?_, ?_, ?_, scheduleActivate_pending _, ?_⟩
    · show d.llc.lcid = c.llc.lcid
      rw [hllc]
    · exact (reconfigureRx_txLayout hsized rsp).trans hwire
    · rw [← hllc]
      rfl
    · intro a ha
      exact Or.inl (hsent ▸ ha)
  unfold onExchangeResponse checkResponse
  split
  · exact hbase _ rfl rfl rfl
  · exact hbase _ rfl rfl rfl

theorem onRrcMessage_received {c : Lcrrc} (h : c.Sized) {m : Rrc}
    (hlcid : m.exchange.lcid = c.llc.lcid) : c.Received m.exchange (c.onRrcMessage m) := by
  obtain ⟨reqId, message⟩ := m
  unfold onRrcMessage
  rw [if_pos hlcid]
  cases message with
  | exchangeRequest req => exact onExchangeRequest_received h reqId req
  | exchangeResponse rsp => exact onExchangeResponse_received h reqId rsp

/-! ## Messages of a channel -/

/-- What a channel sends on its own: its configuration, or the content of a
value-initialised message. -/
theorem autoSendRrc_sent {c : Lcrrc} {maxRetry : Nat} {msg first a : Rrc}
    (h : a ∈ (c.autoSendRrc maxRetry msg first).sent) : a ∈ c.sent ∨ a = msg := by
  unfold autoSendRrc at h
  split_ifs at h
  · exact Or.inl h
  · rcases List.mem_append.mp h with hold | hnew
    · exact Or.inl hold
    · exact Or.inr (List.mem_singleton.mp hnew)

theorem own_sent {c : Lcrrc} (hctx : c.Contexts) {e : OwnEvent} {a : Rrc}
    (h : a ∈ (c.step e.toEvent).sent) :
    a ∈ c.sent ∨ a.exchange = c.fillFromConfig ∨ a.exchange = {} := by
  cases e with
  | init forced =>
      change a ∈ (c.onInit forced).sent at h
      unfold onInit at h
      split_ifs at h
      · exact Or.inl h
      · rcases autoSendRrc_sent h with hold | rfl
        · exact Or.inl hold
        · exact Or.inr (Or.inl rfl)
  | rlf => exact Or.inl h
  | extract i => exact Or.inl h
  | fire i =>
      change a ∈ (c.fire i).sent at h
      unfold fire at h
      cases hcb : c.timer.extracted[i]? with
      | none => exact Or.inl (by simpa only [hcb] using h)
      | some cb =>
          simp only [hcb] at h
          cases cb with
          | activate => exact Or.inl h
          | expiry maxRetry reqId first =>
              change a ∈ (onExpiry _ maxRetry reqId first).sent at h
              unfold onExpiry at h
              cases hreq : c.rrcRequests reqId with
              | none => exact Or.inl (by simpa only [hreq] using h)
              | some context =>
                  simp only [hreq] at h
                  rcases autoSendRrc_sent h with hold | rfl
                  · exact Or.inl hold
                  · rw [hctx.empty reqId context hreq]
                    exact Or.inr (Or.inr rfl)
  | allocate => exact Or.inl h

/-- The channel is active, or will be. -/
def Live (c : Lcrrc) : Prop := c.ActivationPending ∨ c.txrxState = .active

/-- Only a message of the peer brings a channel to life. -/
theorem own_live {c : Lcrrc} {e : OwnEvent} (h : (c.step e.toEvent).Live) : c.Live := by
  cases e with
  | init forced =>
      rcases h with hp | hactive
      · exact Or.inl (onInit_pending.mp hp)
      · change (c.onInit forced).txrxState = .active at hactive
        rcases c.onInit_cases forced with heq | ⟨_, _, hstate⟩
        · rw [heq] at hactive
          exact Or.inr hactive
        · rw [hstate] at hactive
          cases hactive
  | rlf =>
      rcases h with hp | hactive
      · exact Or.inl hp
      · cases hactive
  | extract i =>
      rcases h with hp | hactive
      · exact Or.inl (Timer.mem_callbacks_extract.mp hp)
      · exact Or.inr hactive
  | fire i =>
      change (c.fire i).Live at h
      unfold fire at h
      cases hcb : c.timer.extracted[i]? with
      | none => simpa only [hcb] using h
      | some cb =>
          simp only [hcb] at h
          cases cb with
          | activate =>
              exact Or.inl (List.mem_append_right _ (List.mem_of_getElem? hcb))
          | expiry maxRetry reqId first =>
              rcases h with hp | hactive
              · exact Or.inl (Timer.mem_callbacks_of_fired (onExpiry_pending.mp hp))
              · change (onExpiry _ maxRetry reqId first).txrxState = .active at hactive
                rcases onExpiry_same _ maxRetry reqId first with ⟨_, hstate⟩ | ⟨_, hstate⟩
                · rw [hstate] at hactive
                  exact Or.inr hactive
                · rw [hstate] at hactive
                  cases hactive
  | allocate => exact h

/-! ## What a party keeps -/

section Peer

variable {lcid : UInt8} {rx tx : ChannelConfig}

/-- A message for channel `lcid` from a party that sends with `tx.layout`. -/
def Truthful (lcid : UInt8) (tx : ChannelConfig) (m : Rrc) : Prop :=
  m.exchange.lcid = lcid → ∀ size, (tx.llcTx.crcType = .crc32 ∨ size = 0) →
    m.exchange.layout size = tx.layout

/-- A party constructed with `own`, whose peer is constructed with `peer`. -/
structure Peer (lcid : UInt8) (own peer : ChannelConfig) (c : Lcrrc) : Prop where
  number : c.llc.lcid = lcid
  tx : c.txLayout = own.layout
  contexts : c.Contexts
  sent : ∀ m ∈ c.sent, Truthful lcid own m
  size : peer.llcTx.crcType = .crc32 ∨ c.llc.rxCrcSize = 0
  live : c.Live → c.rxLayout = peer.layout

theorem Peer.sized {own peer : ChannelConfig} {c : Lcrrc} (h : Peer lcid own peer c) :
    c.Sized := by
  intro hcrc
  have htype : c.llc.txConfig.crcType = own.llcTx.crcType := congrArg Layout.crcType h.tx
  have hsize : c.llc.txCrcSize = own.layout.crcSize := congrArg Layout.crcSize h.tx
  rw [hsize]
  exact if_pos (htype ▸ hcrc)

/-- The configuration of a channel is a true description of what it sends. -/
theorem fillFromConfig_layout {c : Lcrrc} (h : c.txLayout = tx.layout) {size : Nat}
    (hsize : tx.llcTx.crcType = .crc32 ∨ size = 0) :
    c.fillFromConfig.layout size = tx.layout := by
  have htype : c.llc.txConfig.crcType = tx.llcTx.crcType := congrArg Layout.crcType h
  have hseg : c.pdcpTx.config.allowSegmentation = tx.pdcpTx.allowSegmentation :=
    congrArg Layout.allowSegmentation h
  have hreord : c.pdcpTx.config.allowReordering = tx.pdcpTx.allowReordering :=
    congrArg Layout.allowReordering h
  unfold RrcExchange.layout fillFromConfig ChannelConfig.layout
  simp only [crcToConfig_crcToRrc, htype, hseg, hreord]
  congr 1
  split_ifs with hcrc
  · rfl
  · exact hsize.resolve_left hcrc

theorem Compatible.default_layout (h : Compatible lcid rx tx) (hzero : lcid = 0) {size : Nat}
    (hsize : tx.llcTx.crcType = .crc32 ∨ size = 0) :
    RrcExchange.layout {} size = tx.layout := by
  obtain ⟨hcrc, hseg, hreord⟩ := h.retry hzero
  rw [hcrc] at hsize
  have hnone : size = 0 := hsize.resolve_left (by decide)
  unfold ChannelConfig.layout
  rw [hcrc, hseg, hreord, hnone]
  rfl

theorem Compatible.truthful (h : Compatible lcid rx tx) {c : Lcrrc} (htx : c.txLayout = tx.layout)
    {m : Rrc} (hm : m.exchange = c.fillFromConfig ∨ m.exchange = {}) : Truthful lcid tx m := by
  intro hlcid size hsize
  rcases hm with hfill | hdefault
  · rw [hfill]
    exact fillFromConfig_layout htx hsize
  · rw [hdefault] at hlcid ⊢
    exact h.default_layout hlcid.symm hsize

theorem Peer.own {own peer : ChannelConfig} (hcomp : Compatible lcid peer own) {c : Lcrrc}
    (h : Peer lcid own peer c) (e : OwnEvent) : Peer lcid own peer (c.step e.toEvent) := by
  have hwire := c.own_wire e
  refine ⟨hwire.lcid.trans h.number, hwire.tx.trans h.tx, h.contexts.step _, ?_, ?_, ?_⟩
  · intro m hm
    rcases own_sent h.contexts hm with hold | hnew
    · exact h.sent m hold
    · exact hcomp.truthful h.tx hnew
  · have hsize : (c.step e.toEvent).llc.rxCrcSize = c.llc.rxCrcSize :=
      congrArg Layout.crcSize hwire.rx
    rw [hsize]
    exact h.size
  · intro hlive
    exact hwire.rx.trans (h.live (own_live hlive))

theorem onRrcMessage_contexts {c : Lcrrc} (h : c.Contexts) (m : Rrc) :
    (c.onRrcMessage m).Contexts := by
  unfold onRrcMessage
  split
  · split
    · exact h.step _
    · exact h.step _
  · exact h

theorem Peer.receive {own peer : ChannelConfig} {c : Lcrrc} {m : Rrc}
    (h : Peer lcid own peer c) (hm : Truthful lcid peer m) :
    Peer lcid own peer (c.onRrcMessage m) := by
  by_cases hlcid : m.exchange.lcid = c.llc.lcid
  · have hrecv := onRrcMessage_received h.sized hlcid
    have hlayout : (c.onRrcMessage m).rxLayout = peer.layout :=
      hrecv.rx.trans (hm (hlcid.trans h.number) _ h.size)
    refine ⟨hrecv.lcid.trans h.number, hrecv.tx.trans h.tx, onRrcMessage_contexts h.contexts m,
      ?_, ?_, fun _ => hlayout⟩
    · intro a ha
      rcases hrecv.sent a ha with hold | hnew
      · exact h.sent a hold
      · intro _ size hsize
        rw [hnew]
        exact fillFromConfig_layout h.tx hsize
    · have hsize : (c.onRrcMessage m).llc.rxCrcSize = peer.layout.crcSize :=
        congrArg Layout.crcSize hlayout
      rw [hsize]
      by_cases hcrc : peer.llcTx.crcType = .crc32
      · exact Or.inl hcrc
      · exact Or.inr (if_neg hcrc)
  · rw [onRrcMessage_of_ne hlcid]
    exact h

end Peer

/-- A channel as it is constructed. -/
theorem new_layouts (lcid : UInt8) (cfg : ChannelConfig) :
    (new lcid cfg.llcTx cfg.llcRx cfg.pdcpTx cfg.pdcpRx).txLayout = cfg.layout ∧
      (new lcid cfg.llcTx cfg.llcRx cfg.pdcpTx cfg.pdcpRx).llc.rxCrcSize =
        if cfg.llcRx.crcType = .crc32 then 4 else 0 := by
  have hsize : (new lcid cfg.llcTx cfg.llcRx cfg.pdcpTx cfg.pdcpRx).llc.txCrcSize =
      if cfg.llcTx.crcType = .crc32 then 4 else 0 := by
    show (if cfg.llcTx.crcType = .crc32 then 4 else
      if cfg.llcTx.crcType = .crc32 then 4 else 0) = _
    split_ifs <;> rfl
  constructor
  · unfold txLayout ChannelConfig.layout
    rw [hsize]
    rfl
  · show (if cfg.llcRx.crcType = .crc32 then 4 else if CrcType.none = .crc32 then 4 else 0) = _
    rw [if_neg (show ¬ CrcType.none = .crc32 by decide)]

theorem Peer.new {lcid : UInt8} {own peer : ChannelConfig} (h : Compatible lcid own peer) :
    Peer lcid own peer (new lcid own.llcTx own.llcRx own.pdcpTx own.pdcpRx) := by
  obtain ⟨htx, hrx⟩ := new_layouts lcid own
  refine ⟨rfl, htx, ?_, ?_, ?_, ?_⟩
  · exact ⟨fun _ _ hctx => (Option.some_ne_none _ hctx.symm).elim,
      fun _ _ _ hmem => (List.not_mem_nil hmem).elim⟩
  · exact fun m hm => (List.not_mem_nil hm).elim
  · rcases h.crc with hpeer | hnone
    · exact Or.inl hpeer
    · rw [hrx, hnone]
      exact Or.inr rfl
  · rintro (hp | hactive)
    · exact (List.not_mem_nil hp).elim
    · cases hactive

/-- Compatible parties agree in every run. -/
theorem layoutsAgree_run {lcid : UInt8} {cfg : Side → ChannelConfig}
    (h : ∀ s, Compatible lcid (cfg s) (cfg s.other)) (es : List (PeerEvent OwnEvent)) :
    LayoutsAgree (protocol.run (peers lcid cfg) es) := by
  have hcomp : ∀ s, Compatible lcid (cfg s.other) (cfg s) := by
    intro s
    have hs := h s.other
    rwa [Side.other_other] at hs
  have hinv : ∀ s, Peer lcid (cfg s) (cfg s.other) (protocol.run (peers lcid cfg) es s) := by
    refine Protocol.invariant_run (I := fun s => Peer lcid (cfg s) (cfg s.other))
      (M := fun s => Truthful lcid (cfg s)) ?_ ?_ ?_ es ?_
    · exact fun s c hc => hc.sent
    · exact fun s c e hc => hc.own (hcomp s) e
    · exact fun s c m hc hm => hc.receive hm
    · exact fun s => Peer.new (h s)
  intro s hactive
  rw [(hinv s).live (Or.inr hactive), (hinv s.other).tx]

/-! ## What agreement in every run says -/

/-- The events of the timer are events of the party's own. -/
theorem exists_own_events {es : List Event}
    (h : ∀ e ∈ es, ∃ i, e = .extract i ∨ e = .fire i) :
    ∃ ts : List OwnEvent, ts.map OwnEvent.toEvent = es := by
  induction es with
  | nil => exact ⟨[], rfl⟩
  | cons e es ih =>
      obtain ⟨ts, rfl⟩ := ih (fun x hx => h x (List.mem_cons_of_mem _ hx))
      obtain ⟨i, rfl | rfl⟩ := h e (List.mem_cons_self ..)
      · exact ⟨.extract i :: ts, rfl⟩
      · exact ⟨.fire i :: ts, rfl⟩

/-- A pending activation always comes: the layout is already the peer's. -/
theorem active_layout {p : Side → Lcrrc} (h : ∀ es, LayoutsAgree (protocol.run p es)) {s : Side}
    (hp : (p s).ActivationPending) : (p s).rxLayout = (p s.other).txLayout := by
  obtain ⟨es, hes, hactive⟩ := exists_activation hp
  obtain ⟨ts, rfl⟩ := exists_own_events (timer_of_byDeadline hes)
  have hrun : (p s).run (ts.map OwnEvent.toEvent) = ts.foldl protocol.own (p s) :=
    List.foldl_map
  have hagree := h (ts.map (.own s)) s
  rw [protocol.run_own p s ts, Function.update_self, Function.update_of_ne s.other_ne,
    ← hrun] at hagree
  rw [← hagree hactive, hrun]
  exact ((p s).own_run_wire ts).rx.symm

/-- Whatever has been sent to the channel says how its sender sends. -/
theorem sent_layout {p : Side → Lcrrc} (h : ∀ es, LayoutsAgree (protocol.run p es)) {s : Side}
    (hsized : (p s).Sized) {k : Nat} {m : Rrc} (hm : (p s.other).sent[k]? = some m)
    (hlcid : m.exchange.lcid = (p s).llc.lcid) :
    m.exchange.layout (p s).llc.rxCrcSize = (p s.other).txLayout := by
  have hrecv := onRrcMessage_received hsized hlcid
  have hstep := protocol.step_deliver hm
  have hnext : ∀ es, LayoutsAgree (protocol.run (protocol.step p (.deliver s k)) es) :=
    fun es => h (.deliver s k :: es)
  rw [hstep] at hnext
  have hlayout := active_layout hnext (s := s) (by
    rw [Function.update_self]
    exact hrecv.pending)
  rw [Function.update_self, Function.update_of_ne s.other_ne] at hlayout
  exact hrecv.rx.symm.trans hlayout

/-- What a party sends before anything is delivered is already read by its peer. -/
theorem first_layout {lcid : UInt8} {cfg : Side → ChannelConfig}
    (h : ∀ es, LayoutsAgree (protocol.run (peers lcid cfg) es)) (s : Side) (ts : List OwnEvent)
    {k : Nat} {m : Rrc} (hm : (ts.foldl protocol.own (peers lcid cfg s.other)).sent[k]? = some m)
    (hlcid : m.exchange.lcid = lcid) :
    m.exchange.layout (if (cfg s).llcRx.crcType = .crc32 then 4 else 0) =
      (cfg s.other).layout := by
  have hself : Function.update (peers lcid cfg) s.other
      (ts.foldl protocol.own (peers lcid cfg s.other)) s = peers lcid cfg s :=
    Function.update_of_ne s.other_ne.symm _ _
  have hother : Function.update (peers lcid cfg) s.other
      (ts.foldl protocol.own (peers lcid cfg s.other)) s.other =
      ts.foldl protocol.own (peers lcid cfg s.other) := Function.update_self ..
  have hnext : ∀ es, LayoutsAgree (protocol.run (Function.update (peers lcid cfg) s.other
      (ts.foldl protocol.own (peers lcid cfg s.other))) es) := by
    intro es
    have hes := h (ts.map (.own s.other) ++ es)
    rwa [protocol.run_append, protocol.run_own] at hes
  obtain ⟨htx, hrx⟩ := new_layouts lcid (cfg s)
  have hsized : (peers lcid cfg s).Sized := by
    intro hcrc
    have hsize := congrArg Layout.crcSize htx
    exact hsize.trans (if_pos hcrc)
  have hlayout := sent_layout hnext (s := s) (k := k) (m := m) (by rwa [hself])
    (by rwa [hother]) (by rwa [hself])
  rw [hself, hother] at hlayout
  have hwire := ((peers lcid cfg s.other).own_run_wire ts).tx
  rw [← hrx]
  exact hlayout.trans (hwire.trans (new_layouts lcid (cfg s.other)).1)

/-- Agreement in every run needs compatible configurations. -/
theorem compatible_of_agree {lcid : UInt8} {cfg : Side → ChannelConfig}
    (h : ∀ es, LayoutsAgree (protocol.run (peers lcid cfg) es)) (s : Side) :
    Compatible lcid (cfg s) (cfg s.other) := by
  constructor
  · -- the first request of the peer
    have hfirst := first_layout h s [.init true] (k := 0) rfl rfl
    have hsize := congrArg Layout.crcSize hfirst
    change (if crcToConfig (crcToRrc (cfg s.other).llcTx.crcType) = .crc32 then 4 else
      if (cfg s).llcRx.crcType = .crc32 then 4 else 0) =
      if (cfg s.other).llcTx.crcType = .crc32 then 4 else 0 at hsize
    rw [crcToConfig_crcToRrc] at hsize
    cases htx : (cfg s.other).llcTx.crcType with
    | crc32 => exact Or.inl rfl
    | none =>
        right
        cases hrx : (cfg s).llcRx.crcType with
        | none => rfl
        | crc32 =>
            rw [htx, hrx] at hsize
            exact absurd hsize (by decide)
  · -- its first retry
    rintro rfl
    have hretry := first_layout h s [.init true, .extract 0, .fire 0] (k := 1) rfl rfl
    exact ⟨(congrArg Layout.crcType hretry).symm,
      (congrArg Layout.allowSegmentation hretry).symm,
      (congrArg Layout.allowReordering hretry).symm⟩

/-- **When both ends have the same wire layout.**  For all configurations: in every
run, whatever is lost, delayed or duplicated, an active party reads with the layout
its peer sends with, if and only if in both directions the sender has a CRC or the
receiver was constructed without one, and a sender on channel 0 has nothing
configured. -/
theorem layouts_agree_iff (lcid : UInt8) (cfg : Side → ChannelConfig) :
    (∀ es, LayoutsAgree (protocol.run (peers lcid cfg) es)) ↔
      ∀ s, Compatible lcid (cfg s) (cfg s.other) :=
  ⟨compatible_of_agree, layoutsAgree_run⟩

/-- The near end was constructed with a CRC, the far end has none. -/
def forgottenCrc : Side → ChannelConfig
  | .near => { llcRx := { crcType := .crc32 } }
  | .far => {}

/-- One undisturbed exchange: the near end becomes active with four CRC bytes that
its peer does not send. -/
theorem crc_size_kept :
    (protocol.run (peers 1 forgottenCrc)
        [.own .far (.init false), .deliver .near 0, .own .near (.extract 0),
          .own .near (.fire 0)] .near).rxLayout = ⟨4, .none, false, false⟩ ∧
      (peers 1 forgottenCrc .far).txLayout = ⟨0, .none, false, false⟩ ∧
      ¬ LayoutsAgree (protocol.run (peers 1 forgottenCrc)
        [.own .far (.init false), .deliver .near 0, .own .near (.extract 0),
          .own .near (.fire 0)]) := by
  refine ⟨by decide, by decide, ?_⟩
  intro h
  exact absurd (h .near (by decide)) (by decide)

end Lcrrc

end Winject.ChannelRrc
