import Winject.Node.Exchange

/-!
# What a receiver is configured with

A message of a channel says how its sender is configured to send, and only such a message
brings the channel up.  So an active end has the whole configuration of its peer's
transmitter: mode and CRC of the LLC, the flags of the PDCP, and its distance as far as the
field of the message can hold it.

## Main results

* `Told.step`, `Told.receive` — what an end knows of the other.
* `Linked.readsWith`, `nodes_configured` — an active end of two nodes has the configuration of its peer.
-/

namespace Winject.ChannelRrc.Lcrrc

open Winject.Lib.Peers

/-- The receiver is configured with what the message says. -/
structure Configured (c : Lcrrc) (x : RrcExchange) : Prop where
  mode : c.llc.rxConfig.mode = modeToConfig x.llcConfig.mode
  crcType : c.llc.rxConfig.crcType = crcToConfig x.llcConfig.crcType
  pdcp : c.pdcpRx.config =
    { allowRlf := x.pdcpConfig.allowRLF
      allowSegmentation := x.pdcpConfig.allowSegmentation
      allowReordering := x.pdcpConfig.allowReordering
      maxSnDistance := x.pdcpConfig.maxSnDistance.getD 20 }

/-- Configurations of the channel. -/
structure SameConfig (c c' : Lcrrc) : Prop where
  fill : c'.fillFromConfig = c.fillFromConfig
  llc : c'.llc.rxConfig = c.llc.rxConfig
  pdcp : c'.pdcpRx.config = c.pdcpRx.config

theorem SameConfig.trans {c c' c'' : Lcrrc} (h : SameConfig c c') (h' : SameConfig c' c'') :
    SameConfig c c'' :=
  ⟨h'.fill.trans h.fill, h'.llc.trans h.llc, h'.pdcp.trans h.pdcp⟩

theorem autoSendRrc_config (c : Lcrrc) (maxRetry : Nat) (msg first : Rrc) :
    SameConfig c (c.autoSendRrc maxRetry msg first) := by
  unfold autoSendRrc
  split_ifs <;> exact ⟨rfl, rfl, rfl⟩

theorem call_config (c : Lcrrc) (cb : Callback) : SameConfig c (c.call cb) := by
  cases cb with
  | activate => exact ⟨rfl, rfl, rfl⟩
  | expiry maxRetry reqId first =>
      show SameConfig c (c.onExpiry maxRetry reqId first)
      unfold onExpiry
      cases c.rrcRequests reqId with
      | none => exact ⟨rfl, rfl, rfl⟩
      | some context =>
          refine SameConfig.trans ?_ (autoSendRrc_config _ _ _ _)
          exact ⟨rfl, rfl, rfl⟩

/-- A channel configures nothing on its own. -/
theorem own_config (c : Lcrrc) (e : OwnEvent) : SameConfig c (c.step e.toEvent) := by
  cases e with
  | init forced =>
      show SameConfig c (c.onInit forced)
      unfold onInit
      split_ifs
      · exact ⟨rfl, rfl, rfl⟩
      · refine SameConfig.trans ?_ (autoSendRrc_config _ _ _ _)
        exact ⟨rfl, rfl, rfl⟩
  | rlf => exact ⟨rfl, rfl, rfl⟩
  | extract i => exact ⟨rfl, rfl, rfl⟩
  | fire i =>
      show SameConfig c (c.fire i)
      unfold fire
      cases c.timer.extracted[i]? with
      | none => exact ⟨rfl, rfl, rfl⟩
      | some cb =>
          refine SameConfig.trans ?_ (call_config _ cb)
          exact ⟨rfl, rfl, rfl⟩
  | allocate => exact ⟨rfl, rfl, rfl⟩

/-- A message of the channel configures its receiver, and not its transmitter. -/
theorem onRrcMessage_config {c : Lcrrc} {m : Rrc} (h : m.exchange.lcid = c.llc.lcid) :
    (c.onRrcMessage m).fillFromConfig = c.fillFromConfig ∧
      Configured (c.onRrcMessage m) m.exchange := by
  obtain ⟨reqId, message⟩ := m
  unfold onRrcMessage
  rw [if_pos h]
  cases message with
  | exchangeRequest req =>
      show (c.onExchangeRequest reqId req).fillFromConfig = _ ∧
        Configured (c.onExchangeRequest reqId req) req
      unfold onExchangeRequest
      split_ifs <;> exact ⟨rfl, rfl, rfl, rfl⟩
  | exchangeResponse rsp =>
      show (c.onExchangeResponse reqId rsp).fillFromConfig = _ ∧
        Configured (c.onExchangeResponse reqId rsp) rsp
      unfold onExchangeResponse checkResponse
      split <;> exact ⟨rfl, rfl, rfl, rfl⟩

/-- An end that sends with `mine`, and whose peer sends with `peer`. -/
structure Told (lcid : UInt8) (mine peer : RrcExchange) (c : Lcrrc) : Prop where
  fill : c.fillFromConfig = mine
  speaks : c.Speaks lcid
  sent : ∀ m ∈ c.sent, m.exchange.lcid = lcid → m.exchange = mine
  live : c.Live → c.Configured peer

/-- What an end sends for its channel. -/
def Says (lcid : UInt8) (mine : RrcExchange) (m : Rrc) : Prop :=
  m.exchange.lcid = lcid → m.exchange = mine

variable {lcid : UInt8} {mine peer : RrcExchange} {c : Lcrrc}

/-- A retry names channel 0. -/
theorem Told.own (hlcid : lcid ≠ 0) (h : Told lcid mine peer c) (e : OwnEvent) :
    Told lcid mine peer (c.step e.toEvent) := by
  have hsame := c.own_config e
  refine ⟨hsame.fill.trans h.fill, h.speaks.own e, fun m hm hto => ?_, fun hlive => ?_⟩
  · rcases own_sent h.speaks.contexts hm with hold | hfill | hdefault
    · exact h.sent m hold hto
    · exact hfill.trans h.fill
    · rw [hdefault] at hto
      exact absurd hto.symm hlcid
  · have hconf := h.live (own_live hlive)
    exact ⟨hsame.llc ▸ hconf.mode, hsame.llc ▸ hconf.crcType, hsame.pdcp.trans hconf.pdcp⟩

theorem Told.receive (h : Told lcid mine peer c) {m : Rrc} (hm : Says lcid peer m) :
    Told lcid mine peer (c.onRrcMessage m) := by
  by_cases hto : m.exchange.lcid = c.llc.lcid
  · obtain ⟨hfill, hconf⟩ := onRrcMessage_config hto
    rw [hm (hto.trans h.speaks.number)] at hconf
    have hstep : c.onRrcMessage m = c.step (Node.ofMessage m) := Node.onRrcMessage_eq hto
    refine ⟨hfill.trans h.fill, hstep ▸ h.speaks.step _, fun a ha hown => ?_, fun _ => hconf⟩
    obtain ⟨reqId, message⟩ := m
    rw [hstep] at ha
    cases message with
    | exchangeRequest req =>
        change a ∈ (c.onExchangeRequest reqId req).sent at ha
        rw [(c.onExchangeRequest_sent reqId req).2] at ha
        rcases List.mem_append.mp ha with hold | hnew
        · exact h.sent a hold hown
        · rw [List.mem_singleton.mp hnew]
          exact h.fill
    | exchangeResponse rsp =>
        change a ∈ (c.onExchangeResponse reqId rsp).sent at ha
        rw [(c.onExchangeResponse_sent reqId rsp).2] at ha
        exact h.sent a ha hown
  · rw [onRrcMessage_of_ne hto]
    exact h

/-- What the ends of a channel other than 0 know of each other, in every run. -/
theorem told_run (hlcid : lcid ≠ 0) (chan : Side → ChannelConfig)
    (fs : List (PeerEvent OwnEvent)) (s : Side) :
    Told lcid (peers lcid chan s).fillFromConfig (peers lcid chan s.other).fillFromConfig
      (protocol.run (peers lcid chan) fs s) := by
  refine Protocol.invariant_run
    (I := fun s => Told lcid (peers lcid chan s).fillFromConfig
      (peers lcid chan s.other).fillFromConfig)
    (M := fun s => Says lcid (peers lcid chan s).fillFromConfig)
    (fun _ _ hc => hc.sent) (fun _ _ e hc => hc.own hlcid e) (fun _ _ _ hc hm => hc.receive hm)
    fs (fun s => ⟨rfl, .new lcid (chan s), fun m hm => (List.not_mem_nil hm).elim, ?_⟩) s
  rintro (hp | hactive)
  · exact (List.not_mem_nil hp).elim
  · cases hactive

end Winject.ChannelRrc.Lcrrc

namespace Winject.Node

open Winject.ChannelRrc
open Winject.Lib.Peers

theorem modeToConfig_modeToRrc (mode : LegacyLlc.TxMode) :
    modeToConfig (modeToRrc mode) = mode := by
  cases mode <;> rfl

/-- Two ends of a channel, `c` receiving what `c'` sends. -/
structure ReadsWith (c c' : Lcrrc) : Prop where
  mode : c.llc.rxConfig.mode = c'.llc.txConfig.mode
  crcType : c.llc.rxConfig.crcType = c'.llc.txConfig.crcType
  pdcp : c.pdcpRx.config =
    { allowRlf := c'.pdcpTx.config.allowRlf
      allowSegmentation := c'.pdcpTx.config.allowSegmentation
      allowReordering := c'.pdcpTx.config.allowReordering
      maxSnDistance := c'.pdcpTx.config.maxSnDistance % 65536 }

/-- Nodes that show two ends of a channel. -/
theorem Linked.readsWith {lcid : UInt8} (hlcid : lcid ≠ 0) {chan : Side → ChannelConfig}
    {p : Side → AppRrc} {fs : List (PeerEvent OwnEvent)}
    (h : Linked lcid p (Lcrrc.protocol.run (Lcrrc.peers lcid chan) fs)) {s : Side} {c c' : Lcrrc}
    (hc : (p s).channel lcid = some c) (hc' : (p s.other).channel lcid = some c')
    (hactive : c.txrxState = .active) : ReadsWith c c' := by
  obtain rfl := Option.some.inj (hc.symm.trans (h s).channel)
  obtain rfl := Option.some.inj (hc'.symm.trans (h s.other).channel)
  have hconf := (Lcrrc.told_run hlcid chan fs s).live (Or.inr hactive)
  rw [← (Lcrrc.told_run hlcid chan fs s.other).fill] at hconf
  refine ⟨hconf.mode.trans (modeToConfig_modeToRrc _), hconf.crcType.trans ?_, hconf.pdcp⟩
  exact crcToConfig_crcToRrc _

/-- **An active end has the configuration of its peer.**  In every run of two nodes, an
active end of a channel other than 0 receives with the mode, the CRC, the flags and the
distance, modulo 2¹⁶, that the other end sends with. -/
theorem nodes_configured {lcid : UInt8} (hlcid : lcid ≠ 0) {cfg : Side → Config}
    {chan : Side → ChannelConfig} (hchan : ∀ s, (cfg s).channel lcid = some (chan s))
    (es : List (PeerEvent Step)) (s : Side) {c c' : Lcrrc}
    (hc : (nodes.run (fun s => AppRrc.setup (cfg s)) es s).channel lcid = some c)
    (hc' : (nodes.run (fun s => AppRrc.setup (cfg s)) es s.other).channel lcid = some c')
    (hactive : c.txrxState = .active) : ReadsWith c c' := by
  obtain ⟨fs, hview⟩ := (Linked.setup hlcid hchan).run hlcid es
  exact hview.readsWith hlcid hc hc' hactive

/-- The near end after one exchange. -/
theorem nodes_configured_once :
    let p := nodes.run (fun _ => AppRrc.setup AppRrc.oneChannel) oneExchange
    ∃ c c', (p .near).channel 1 = some c ∧ (p .far).channel 1 = some c' ∧
      c.txrxState = .active ∧ c.llc.rxConfig.mode = c'.llc.txConfig.mode := by
  intro p
  have hnear : ((p .near).channel 1).isSome = true := by rfl
  have hfar : ((p .far).channel 1).isSome = true := by rfl
  have hactive : (((p .near).channel 1).get hnear).txrxState = .active := by rfl
  have hconf := @nodes_configured 1 (by decide) (fun _ => AppRrc.oneChannel) (fun _ => {})
    (fun _ => rfl) oneExchange .near _ _ (Option.some_get hnear).symm (Option.some_get hfar).symm
    hactive
  exact ⟨_, _, (Option.some_get hnear).symm, (Option.some_get hfar).symm, hactive, hconf.mode⟩

end Winject.Node
