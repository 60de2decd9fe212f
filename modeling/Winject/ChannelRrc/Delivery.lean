import Winject.ChannelRrc.Model
import Winject.LegacyLlc.OnTx
import Winject.Lib.Runs

/-!
# Acknowledgement and delivery

What the receiver of a channel acknowledges and what it delivers.  A `ChannelOp` is
an event of `LCRRC`, a switch or a new configuration of one of the layers, or a
call of the data path.

`LLC::on_rx` does not look at `is_rx_enabled` (other than for `auto_init_on_rx`,
which no configuration sets), while `PDCP::on_rx` and both `on_tx` return at once
when they are disabled.

## Main results

* `deliveredAt_iff` — which received PDUs are handled as the flags say.
* `delivered_iff` — the same for a run.
* `acked_before_activation` — a data PDU that is acknowledged and dropped.
-/

namespace Winject.ChannelRrc

open Winject.Frames
open Winject.LegacyLlc
open Winject.LegacyPdcp
open Winject.Lib.Runs

/-- A call on the layers of a channel. -/
inductive ChannelOp where
  | event (e : Event)
  | llcTxEnabled (value : Bool)
  | llcRxEnabled (value : Bool)
  | pdcpTxEnabled (value : Bool)
  | pdcpRxEnabled (value : Bool)
  | llcTxConfig (config : LegacyLlc.TxConfig)
  | llcRxConfig (config : LegacyLlc.RxConfig)
  | pdcpTxConfig (config : LegacyPdcp.TxConfig)
  | pdcpRxConfig (config : LegacyPdcp.RxConfig)
  | rx (info : RxInfo)
  | tx (info : LegacyLlc.TxInfo)

namespace Lcrrc

/-- `LLC::on_rx` with the PDCP above it.  A call of `PDCP::on_rx` that does not
return leaves the receiver as it was. -/
def onRx (c : Lcrrc) (info : RxInfo) : Lcrrc :=
  let r := c.llc.onRx info
  { c with
    llc := r.llc
    pdcpRx :=
      match r.passed with
      | none => c.pdcpRx
      | some payload => (c.pdcpRx.onRx payload).getD c.pdcpRx }

/-- `LLC::on_tx` with the PDCP above it. -/
def onTx (c : Lcrrc) (info : LegacyLlc.TxInfo) : Lcrrc :=
  let s := c.llc.onTx PdcpTx.onTx c.pdcpTx info
  { c with llc := s.owner, pdcpTx := s.pdcp }

/-- One call.  The calls of `rrc.on_init` and `rrc.on_rlf` from the data path only
queue an event. -/
def channelStep (c : Lcrrc) : ChannelOp → Lcrrc
  | .event e => c.step e
  | .llcTxEnabled value => { c with llc := c.llc.setTxEnabled value }
  | .llcRxEnabled value => { c with llc := c.llc.setRxEnabled value }
  | .pdcpTxEnabled value => { c with pdcpTx := c.pdcpTx.setTxEnabled value }
  | .pdcpRxEnabled value => { c with pdcpRx := c.pdcpRx.setRxEnabled value }
  | .llcTxConfig config => { c with llc := c.llc.reconfigureTx config }
  | .llcRxConfig config => { c with llc := c.llc.reconfigureRx config }
  | .pdcpTxConfig config => { c with pdcpTx := c.pdcpTx.reconfigure config }
  | .pdcpRxConfig config => { c with pdcpRx := c.pdcpRx.reconfigure config }
  | .rx info => c.onRx info
  | .tx info => c.onTx info

/-- A received PDU that is acknowledged is delivered, to receivers that are
enabled, and a disabled LLC does nothing with a PDU. -/
structure DeliveredAt (c : Lcrrc) (info : RxInfo) : Prop where
  acked : (c.llc.onRx info).llc.toAckList ≠ c.llc.toAckList →
    c.llc.isRxEnabled = true ∧ c.pdcpRx.isRxEnabled = true ∧
      (c.llc.onRx info).passed = some (c.llc.rxPayload info)
  disabled : c.llc.isRxEnabled = false →
    (c.llc.onRx info).llc.toAckList = c.llc.toAckList ∧
      (c.llc.onRx info).llc.txRing = c.llc.txRing ∧ (c.llc.onRx info).passed = none

/-- The calls of `on_rx` in a run. -/
def Delivered (c : Lcrrc) : ChannelOp → Prop
  | .rx info => c.DeliveredAt info
  | _ => True

/-- The PDU fails the checks of `on_rx`; or it is an ACK PDU, and the LLC is enabled
or the PDU names nothing that waits for an acknowledgement; or it is a data PDU, the
LLC is enabled and, in AM, the PDCP too. -/
def HandledAt (c : Lcrrc) (info : RxInfo) : Prop :=
  c.llc.accepts info = true →
    if (c.llc.rxPdu info).getA = true then
      c.llc.isRxEnabled = true ∨
        ∀ i ∈ c.llc.ackTargets (Llc.ackEntries (c.llc.rxPdu info)),
          (c.llc.txRing i).acknowledged = true
    else c.llc.isRxEnabled = true ∧
      (c.llc.rxConfig.mode = .am → c.pdcpRx.isRxEnabled = true)

/-- The condition on the calls of `on_rx` in a run. -/
def Handled (c : Lcrrc) : ChannelOp → Prop
  | .rx info => c.HandledAt info
  | _ => True

/-! ## `auto_init_on_rx` is never set -/

/-- No configuration sets the flag, and `reconfigure` keeps it. -/
def NoAutoInit (c : Lcrrc) : Prop := c.llc.rxConfig.autoInitOnRx = false

theorem NoAutoInit.new (lcid : UInt8) (llcTx : LegacyLlc.TxConfig) (llcRx : LegacyLlc.RxConfig)
    (pdcpTx : LegacyPdcp.TxConfig) (pdcpRx : LegacyPdcp.RxConfig) :
    (Lcrrc.new lcid llcTx llcRx pdcpTx pdcpRx).NoAutoInit := rfl

theorem NoAutoInit.autoSendRrc {c : Lcrrc} (h : c.NoAutoInit) (maxRetry : Nat)
    (msg first : Rrc) : (c.autoSendRrc maxRetry msg first).NoAutoInit := by
  unfold Lcrrc.autoSendRrc
  split_ifs <;> exact h

theorem NoAutoInit.call {c : Lcrrc} (h : c.NoAutoInit) (cb : Callback) :
    (c.call cb).NoAutoInit := by
  cases cb with
  | activate => exact h
  | expiry maxRetry reqId first =>
      show (c.onExpiry maxRetry reqId first).NoAutoInit
      unfold onExpiry
      split
      · exact h
      · refine NoAutoInit.autoSendRrc ?_ _ _ _
        exact h

theorem NoAutoInit.step {c : Lcrrc} (h : c.NoAutoInit) (e : Event) : (c.step e).NoAutoInit := by
  cases e with
  | init forced =>
      show (c.onInit forced).NoAutoInit
      unfold onInit
      split_ifs
      · exact h
      · refine NoAutoInit.autoSendRrc ?_ _ _ _
        exact h
  | request reqId req =>
      show (c.onExchangeRequest reqId req).NoAutoInit
      unfold onExchangeRequest
      split_ifs <;> exact h
  | response reqId rsp =>
      show (c.onExchangeResponse reqId rsp).NoAutoInit
      unfold onExchangeResponse checkResponse
      split <;> exact h
  | rlf => exact h
  | extract i => exact h
  | fire i =>
      show (c.fire i).NoAutoInit
      unfold fire
      split
      · exact h
      · refine NoAutoInit.call ?_ _
        exact h
  | allocate => exact h

theorem NoAutoInit.initOnRx {c : Lcrrc} (h : c.NoAutoInit) :
    (!c.llc.isRxEnabled && c.llc.rxConfig.autoInitOnRx) = false := by
  rw [show c.llc.rxConfig.autoInitOnRx = false from h, Bool.and_false]

theorem NoAutoInit.onRx {c : Lcrrc} (h : c.NoAutoInit) (info : RxInfo) :
    (c.onRx info).NoAutoInit := by
  show (c.llc.onRx info).llc.rxConfig.autoInitOnRx = false
  rw [(c.llc.onRx_setup info).2]
  exact h

theorem NoAutoInit.channelStep {c : Lcrrc} (h : c.NoAutoInit) (op : ChannelOp) :
    (c.channelStep op).NoAutoInit := by
  cases op with
  | event e => exact NoAutoInit.step h e
  | rx info => exact h.onRx info
  | tx info =>
      have hcfg := (c.llc.onTx_setup PdcpTx.onTx c.pdcpTx info).rxConfig
      show (c.llc.onTx PdcpTx.onTx c.pdcpTx info).owner.rxConfig.autoInitOnRx = false
      rw [hcfg]
      exact h
  | llcTxEnabled value => exact h
  | llcRxEnabled value => exact h
  | pdcpTxEnabled value => exact h
  | pdcpRxEnabled value => exact h
  | llcTxConfig config => exact h
  | llcRxConfig config => exact h
  | pdcpTxConfig config => exact h
  | pdcpRxConfig config => exact h

/-! ## One PDU -/

/-- A PDU is handled as the flags say iff the condition holds. -/
theorem deliveredAt_iff {c : Lcrrc} (h : c.NoAutoInit) (info : RxInfo) :
    c.DeliveredAt info ↔ c.HandledAt info := by
  unfold HandledAt
  cases hacc : c.llc.accepts info with
  | false =>
      have hrx := Llc.onRx_of_refused h.initOnRx hacc
      refine ⟨fun _ hfalse => (Bool.false_ne_true hfalse).elim, fun _ => ⟨?_, ?_⟩⟩
      · rw [hrx]
        exact fun hne => (hne rfl).elim
      · rw [hrx]
        exact fun _ => ⟨rfl, rfl, rfl⟩
  | true =>
      cases hA : (c.llc.rxPdu info).getA with
      | true =>
          have hrx := Llc.onRx_of_ack h.initOnRx hacc hA
          have hring := c.llc.mark_txRing_iff
            (c.llc.ackTargets (Llc.ackEntries (c.llc.rxPdu info)))
          rw [forall_prop_of_true rfl, if_pos rfl]
          constructor
          · intro hd
            cases hen : c.llc.isRxEnabled with
            | true => exact Or.inl rfl
            | false =>
                have hsame := (hd.disabled hen).2.1
                rw [hrx] at hsame
                exact Or.inr (hring.mp hsame)
          · rintro hcond
            refine ⟨?_, fun hen => ?_⟩
            · rw [hrx]
              exact fun hne => (hne rfl).elim
            · rw [hen] at hcond
              rw [hrx]
              exact ⟨rfl, hring.mpr (hcond.resolve_left Bool.false_ne_true), rfl⟩
      | false =>
          obtain ⟨hpassed, hllc⟩ := Llc.onRx_of_data h.initOnRx hacc hA
          rw [forall_prop_of_true rfl, if_neg Bool.false_ne_true]
          constructor
          · intro hd
            have hen : c.llc.isRxEnabled = true := by
              by_contra hne
              have hnone := (hd.disabled (by rwa [Bool.not_eq_true] at hne)).2.2
              rw [hpassed] at hnone
              cases hnone
            refine ⟨hen, fun hmode => (hd.acked ?_).2.1⟩
            rw [hllc, if_pos hmode]
            exact c.llc.toAcknowledge_toAckList _
          · rintro ⟨hen, hpdcp⟩
            refine ⟨fun hne => ⟨hen, hpdcp ?_, hpassed⟩, fun hdis => ?_⟩
            · by_contra hmode
              rw [hllc, if_neg hmode] at hne
              exact hne rfl
            · rw [hen] at hdis
              cases hdis

/-! ## Runs -/

/-- **Nothing is acknowledged that was not delivered**, exactly in the runs whose
received PDUs all meet the condition. -/
theorem delivered_iff (lcid : UInt8) (llcTx : LegacyLlc.TxConfig) (llcRx : LegacyLlc.RxConfig)
    (pdcpTx : LegacyPdcp.TxConfig) (pdcpRx : LegacyPdcp.RxConfig) (ops : List ChannelOp) :
    Steps channelStep Delivered (Lcrrc.new lcid llcTx llcRx pdcpTx pdcpRx) ops ↔
      Steps channelStep Handled (Lcrrc.new lcid llcTx llcRx pdcpTx pdcpRx) ops := by
  refine steps_iff (fun c op h => h.channelStep op) (fun c op h => ?_) ops
    (NoAutoInit.new lcid llcTx llcRx pdcpTx pdcpRx)
  cases op with
  | rx info => exact deliveredAt_iff h info
  | _ => exact Iff.rfl

/-- A data PDU with the number 5. -/
def earlyPdu : RxInfo := ⟨[5, 0x10, 4, 0xAA], 4⟩

/-- The peer has asked for AM, its first data PDU comes before the activation timer:
the PDU is acknowledged although neither layer is enabled. -/
theorem acked_before_activation :
    ¬ Steps channelStep Delivered (Lcrrc.new 1 {} {} {} {})
      [.event (.request 0 { lcid := 1, llcConfig := { mode := .am } }), .rx earlyPdu] := by
  rintro ⟨-, hd, -⟩
  have hacked := (DeliveredAt.acked hd (by decide)).1
  exact absurd hacked (by decide)

end Lcrrc

end Winject.ChannelRrc
