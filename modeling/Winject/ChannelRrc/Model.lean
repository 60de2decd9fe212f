import Winject.LegacyLlc.State
import Winject.LegacyPdcp.Rx
import Winject.LegacyPdcp.Tx

/-!
# Channel setup over RRC (`LCRRC.hpp`)

`Lcrrc` is the object `LCRRC` with the objects it refers to: the LLC, the PDCP,
the end point, the timer and the counter of request identifiers of `AppRRC`.  An
`Event` is a call from outside, and `step` handles it.

The timer (`bfc::timer`) takes a callback out of its map before it calls it, and
`cancel` only finds what is still in the map: the event `extract` does the first,
`fire` the second, and any event may come between them.  Callbacks may fire in
any order; where a run is claimed to exist, they fire in the order of their deadlines
(`ByDeadline`).

The handlers are taken to be serialized: the source calls them from two threads, the
reactor's and the timer's, and has no lock around the channel.  And the node of an erased
request is taken to hold its value still, which the expiry handler reads behind the erase.

An expiry closure carries the first message of its chain of retries and
`autoSent` pairs every message of `auto_send_rrc` with it.  No function reads
these.
-/

namespace Winject.ChannelRrc

open Winject.LegacyLlc
open Winject.LegacyPdcp

/-! ## Messages -/

/-- `RRC_LLCTxMode`. -/
inductive RrcLlcTxMode where
  | tm
  | am
  deriving DecidableEq, Repr

/-- `RRC_LLCCRCType`. -/
inductive RrcLlcCrcType where
  | none
  | crc32
  deriving DecidableEq, Repr

/-- `to_rrc(ILLC::tx_mode_e)`. -/
def modeToRrc (mode : TxMode) : RrcLlcTxMode := if mode = .am then .am else .tm

/-- `to_rrc(ILLC::crc_type_e)`. -/
def crcToRrc (crcType : CrcType) : RrcLlcCrcType := if crcType = .crc32 then .crc32 else .none

/-- `to_config(RRC_LLCTxMode)`. -/
def modeToConfig (mode : RrcLlcTxMode) : TxMode := if mode = .am then .am else .tm

/-- `to_config(RRC_LLCCRCType)`. -/
def crcToConfig (crcType : RrcLlcCrcType) : CrcType := if crcType = .crc32 then .crc32 else .none

@[simp] theorem crcToConfig_crcToRrc (c : CrcType) : crcToConfig (crcToRrc c) = c := by
  cases c <;> rfl

/-- `RRC_LLCConfig`; the defaults are those of a value-initialised message. -/
structure RrcLlcConfig where
  mode : RrcLlcTxMode := .tm
  crcType : RrcLlcCrcType := .none
  deriving DecidableEq, Repr

/-- The fields of `RRC_PDCPConfig` that `LCRRC` uses. -/
structure RrcPdcpConfig where
  allowRLF : Bool := false
  allowSegmentation : Bool := false
  allowReordering : Bool := false
  maxSnDistance : Option Nat := none
  deriving DecidableEq, Repr

/-- The content of `RRC_ExchangeRequest` and `RRC_ExchangeResponse`. -/
structure RrcExchange where
  lcid : UInt8 := 0
  llcConfig : RrcLlcConfig := {}
  pdcpConfig : RrcPdcpConfig := {}
  deriving DecidableEq, Repr

/-- `RRC_Message`. -/
inductive RrcMessage where
  | exchangeRequest (req : RrcExchange)
  | exchangeResponse (rsp : RrcExchange)
  deriving DecidableEq, Repr

/-- `RRC`; the default is the value-initialised message. -/
structure Rrc where
  requestID : UInt8 := 0
  message : RrcMessage := .exchangeRequest {}
  deriving DecidableEq, Repr

/-! ## The object -/

/-- `LCRRC::txrx_state_e`. -/
inductive TxrxState where
  | notConfigured
  | configuring
  | configured
  | active
  deriving DecidableEq, Repr

/-- `LCRRC::rrc_request_context_t`. -/
structure RrcRequestContext where
  expTimer : Nat
  request : Rrc := {}
  deriving DecidableEq, Repr

/-- What a timer calls: `activate`, or the expiry handler of `auto_send_rrc`. -/
inductive Callback where
  | activate
  | expiry (maxRetry : Nat) (reqId : UInt8) (first : Rrc)
  deriving DecidableEq, Repr

/-- `bfc::timer`, without the deadlines.  `extracted` are the callbacks that
`schedule` has taken out of the map and not yet called. -/
structure Timer where
  timerCtr : Nat := 0
  cbMap : List (Nat × Callback) := []
  extracted : List Callback := []
  deriving DecidableEq, Repr

namespace Timer

/-- `timer::wait_ms`. -/
def waitMs (t : Timer) (cb : Callback) : Timer × Nat :=
  ({ t with timerCtr := t.timerCtr + 1, cbMap := t.cbMap ++ [(t.timerCtr, cb)] }, t.timerCtr)

/-- `timer::cancel`. -/
def cancel (t : Timer) (id : Nat) : Timer :=
  { t with cbMap := t.cbMap.filter (fun entry => entry.1 != id) }

/-- The first half of `timer::schedule`, for one callback. -/
def extract (t : Timer) (i : Nat) : Timer :=
  match t.cbMap[i]? with
  | none => t
  | some entry =>
    { t with cbMap := t.cbMap.eraseIdx i, extracted := t.extracted ++ [entry.2] }

/-- The second half of `timer::schedule`: the callback is called and dropped. -/
def fired (t : Timer) (i : Nat) : Timer := { t with extracted := t.extracted.eraseIdx i }

/-- The callbacks in the order of their deadlines: every timer of a channel waits 100 ms. -/
def queue (t : Timer) : List Callback := t.extracted ++ t.cbMap.map Prod.snd

/-- The callbacks that can still be called. -/
def callbacks (t : Timer) : List Callback := t.cbMap.map Prod.snd ++ t.extracted

theorem mem_queue {t : Timer} {cb : Callback} : cb ∈ t.queue ↔ cb ∈ t.callbacks := by
  unfold queue callbacks
  rw [List.mem_append, List.mem_append, or_comm]

theorem waitMs_queue (t : Timer) (cb : Callback) : (t.waitMs cb).1.queue = t.queue ++ [cb] := by
  simp only [queue, waitMs, List.map_append, List.map_cons, List.map_nil, List.append_assoc]

theorem mem_callbacks_waitMs {t : Timer} {cb cb' : Callback} :
    cb ∈ (t.waitMs cb').1.callbacks ↔ cb ∈ t.callbacks ∨ cb = cb' := by
  simp only [callbacks, waitMs, List.map_append, List.map_cons, List.map_nil,
    List.mem_append, List.mem_singleton]
  tauto

theorem mem_callbacks_of_cancel {t : Timer} {cb : Callback} {id : Nat}
    (h : cb ∈ (t.cancel id).callbacks) : cb ∈ t.callbacks := by
  rcases List.mem_append.mp h with hmap | hext
  · obtain ⟨entry, hmem, rfl⟩ := List.mem_map.mp hmap
    exact List.mem_append_left _ (List.mem_map_of_mem (List.mem_filter.mp hmem).1)
  · exact List.mem_append_right _ hext

/-- What leaves the map is still there to be called. -/
theorem mem_callbacks_extract {t : Timer} {cb : Callback} {i : Nat} :
    cb ∈ (t.extract i).callbacks ↔ cb ∈ t.callbacks := by
  unfold extract
  cases hi : t.cbMap[i]? with
  | none => rfl
  | some entry =>
      obtain ⟨hlt, hget⟩ := List.getElem?_eq_some_iff.mp hi
      have hperm := List.getElem_cons_eraseIdx_perm hlt
      rw [hget] at hperm
      have hmem : ∀ x, x ∈ t.cbMap ↔ x = entry ∨ x ∈ t.cbMap.eraseIdx i := by
        intro x
        rw [← hperm.mem_iff, List.mem_cons]
      simp only [callbacks, List.mem_append, List.mem_map, List.mem_singleton, hmem]
      constructor
      · rintro (⟨x, hx, rfl⟩ | hext | rfl)
        · exact Or.inl ⟨x, Or.inr hx, rfl⟩
        · exact Or.inr hext
        · exact Or.inl ⟨entry, Or.inl rfl, rfl⟩
      · rintro (⟨x, rfl | hx, rfl⟩ | hext)
        · exact Or.inr (Or.inr rfl)
        · exact Or.inl ⟨x, hx, rfl⟩
        · exact Or.inr (Or.inl hext)

theorem mem_callbacks_of_fired {t : Timer} {cb : Callback} {i : Nat}
    (h : cb ∈ (t.fired i).callbacks) : cb ∈ t.callbacks := by
  rcases List.mem_append.mp h with hmap | hext
  · exact List.mem_append_left _ hmap
  · exact List.mem_append_right _ (List.mem_of_mem_eraseIdx hext)

/-- A callback other than the one that is called stays. -/
theorem mem_callbacks_fired_of_ne {t : Timer} {cb cb' : Callback} {i : Nat}
    (hi : t.extracted[i]? = some cb') (hne : cb ≠ cb') (h : cb ∈ t.callbacks) :
    cb ∈ (t.fired i).callbacks := by
  rcases List.mem_append.mp h with hmap | hext
  · exact List.mem_append_left _ hmap
  · obtain ⟨hlt, hget⟩ := List.getElem?_eq_some_iff.mp hi
    have hperm := List.getElem_cons_eraseIdx_perm hlt
    rw [hget] at hperm
    rcases List.mem_cons.mp (hperm.mem_iff.mpr hext) with rfl | hrest
    · exact absurd rfl hne
    · exact List.mem_append_right _ hrest

end Timer

/-- The flags of an end point. -/
structure EndPoint where
  isTxEnabled : Bool := false
  isRxEnabled : Bool := false
  deriving DecidableEq, Repr

/-- A message of `auto_send_rrc` with the first one of its chain of retries. -/
structure AutoSent where
  first : Rrc
  msg : Rrc
  deriving DecidableEq, Repr

/-- `LCRRC` and the objects it refers to.  `rrcReqId` is the counter behind
`rrc.allocate_req_id`, `sent` are the messages given to `rrc.send_rrc`. -/
structure Lcrrc where
  llc : Llc
  pdcpTx : PdcpTx
  pdcpRx : PdcpRx
  ep : EndPoint := {}
  timer : Timer := {}
  rrcReqId : UInt8 := 0
  sent : List Rrc := []
  autoSent : List AutoSent := []
  txrxState : TxrxState := .notConfigured
  rrcRequests : UInt8 → Option RrcRequestContext := fun _ => none
  activateTimer : Option Nat := none

namespace Lcrrc

/-- `LCRRC::change_txrx_state`. -/
def changeTxrxState (c : Lcrrc) (state : TxrxState) : Lcrrc := { c with txrxState := state }

/-- `rrc.allocate_req_id`. -/
def allocateReqId (c : Lcrrc) : Lcrrc × UInt8 :=
  ({ c with rrcReqId := c.rrcReqId + 1 }, c.rrcReqId)

/-- `rrc.send_rrc`. -/
def sendRrc (c : Lcrrc) (msg : Rrc) : Lcrrc := { c with sent := c.sent ++ [msg] }

/-- `LCRRC::check_response`: an identifier that is not outstanding changes
nothing, and the caller goes on. -/
def checkResponse (c : Lcrrc) (reqId : UInt8) : Lcrrc :=
  match c.rrcRequests reqId with
  | none => c
  | some context =>
    { c with
      rrcRequests := Function.update c.rrcRequests reqId none
      timer := c.timer.cancel context.expTimer }

/-- `LCRRC::on_rlf`. -/
def onRlf (c : Lcrrc) : Lcrrc :=
  { c.changeTxrxState .notConfigured with
    ep := { isTxEnabled := false, isRxEnabled := false }
    pdcpTx := c.pdcpTx.setTxEnabled false
    pdcpRx := c.pdcpRx.setRxEnabled false
    llc := (c.llc.setTxEnabled false).setRxEnabled false }

/-- `LCRRC::schedule_activate`. -/
def scheduleActivate (c : Lcrrc) : Lcrrc :=
  let timer := match c.activateTimer with
    | none => c.timer
    | some id => c.timer.cancel id
  { c with
    timer := (timer.waitMs .activate).1
    activateTimer := some (timer.waitMs .activate).2 }

/-- `LCRRC::activate`. -/
def activate (c : Lcrrc) : Lcrrc :=
  { c.changeTxrxState .active with
    pdcpTx := c.pdcpTx.setTxEnabled true
    pdcpRx := c.pdcpRx.setRxEnabled true
    llc := (c.llc.setTxEnabled true).setRxEnabled true
    ep := { isTxEnabled := true, isRxEnabled := true } }

/-- `LCRRC::reconfigure_rx`. -/
def reconfigureRx (c : Lcrrc) (msg : RrcExchange) : Lcrrc :=
  let llcConfigRx : LegacyLlc.RxConfig :=
    { mode := modeToConfig msg.llcConfig.mode
      crcType := crcToConfig msg.llcConfig.crcType }
  let pdcpConfigRx : LegacyPdcp.RxConfig :=
    { allowRlf := msg.pdcpConfig.allowRLF
      allowSegmentation := msg.pdcpConfig.allowSegmentation
      allowReordering := msg.pdcpConfig.allowReordering
      maxSnDistance := msg.pdcpConfig.maxSnDistance.getD 20 }
  { c with
    llc := (c.llc.reconfigureRx llcConfigRx).setRxEnabled false
    pdcpRx := (c.pdcpRx.reconfigure pdcpConfigRx).setRxEnabled false }

/-- `LCRRC::fill_from_config`, on a message with the channel's `lcid`.  The
distance is stored in 16 bits. -/
def fillFromConfig (c : Lcrrc) : RrcExchange where
  lcid := c.llc.lcid
  llcConfig :=
    { mode := modeToRrc c.llc.txConfig.mode
      crcType := crcToRrc c.llc.txConfig.crcType }
  pdcpConfig :=
    { allowRLF := c.pdcpTx.config.allowRlf
      allowSegmentation := c.pdcpTx.config.allowSegmentation
      allowReordering := c.pdcpTx.config.allowReordering
      maxSnDistance := some (c.pdcpTx.config.maxSnDistance % 65536) }

/-- `LCRRC::auto_send_rrc`.  The context that is stored for the identifier has a
value-initialised `request`. -/
def autoSendRrc (c : Lcrrc) (maxRetry : Nat) (msg first : Rrc) : Lcrrc :=
  if maxRetry = 0 then c.onRlf else
  let (timer, expId) := c.timer.waitMs (.expiry maxRetry msg.requestID first)
  ({ c with
    timer := timer
    rrcRequests := Function.update c.rrcRequests msg.requestID (some { expTimer := expId })
    autoSent := c.autoSent ++ [AutoSent.mk first msg] }).sendRrc msg

/-- The expiry handler of `auto_send_rrc`.  The source reads the context after
it has erased it; the value read is the one it held. -/
def onExpiry (c : Lcrrc) (maxRetry : Nat) (reqId : UInt8) (first : Rrc) : Lcrrc :=
  match c.rrcRequests reqId with
  | none => c
  | some context =>
    let c := { c with rrcRequests := Function.update c.rrcRequests reqId none }
    let (c, newId) := c.allocateReqId
    c.autoSendRrc (maxRetry - 1) { context.request with requestID := newId } first

/-- `LCRRC::send_exchange_req`. -/
def sendExchangeReq (c : Lcrrc) : Lcrrc :=
  let (c, reqId) := c.allocateReqId
  let msg : Rrc := { requestID := reqId, message := .exchangeRequest c.fillFromConfig }
  c.autoSendRrc 3 msg msg

/-- `LCRRC::send_exchange_resp`. -/
def sendExchangeResp (c : Lcrrc) (reqId : UInt8) : Lcrrc :=
  c.sendRrc { requestID := reqId, message := .exchangeResponse c.fillFromConfig }

/-- `LCRRC::on_rrc_message(RRC_ExchangeRequest)`. -/
def onExchangeRequest (c : Lcrrc) (reqId : UInt8) (req : RrcExchange) : Lcrrc :=
  let c := if c.txrxState = .active then c.onRlf else c
  let c := (c.reconfigureRx req).changeTxrxState .configured
  (c.sendExchangeResp reqId).scheduleActivate

/-- `LCRRC::on_rrc_message(RRC_ExchangeResponse)`. -/
def onExchangeResponse (c : Lcrrc) (reqId : UInt8) (msg : RrcExchange) : Lcrrc :=
  let c := c.checkResponse reqId
  ((c.reconfigureRx msg).changeTxrxState .configured).scheduleActivate

/-- `LCRRC::on_init`. -/
def onInit (c : Lcrrc) (forced : Bool) : Lcrrc :=
  if !forced && (c.txrxState == .configuring || c.txrxState == .configured ||
      c.txrxState == .active) then c
  else (c.changeTxrxState .configuring).sendExchangeReq

/-- Call a callback. -/
def call (c : Lcrrc) : Callback → Lcrrc
  | .activate => c.activate
  | .expiry maxRetry reqId first => c.onExpiry maxRetry reqId first

/-- The call of an extracted callback. -/
def fire (c : Lcrrc) (i : Nat) : Lcrrc :=
  match c.timer.extracted[i]? with
  | none => c
  | some cb => ({ c with timer := c.timer.fired i }).call cb

end Lcrrc

/-- What can happen to a channel.  `allocate` is another channel that takes a
request identifier. -/
inductive Event where
  | init (forced : Bool)
  | request (reqId : UInt8) (req : RrcExchange)
  | response (reqId : UInt8) (rsp : RrcExchange)
  | rlf
  | extract (i : Nat)
  | fire (i : Nat)
  | allocate
  deriving DecidableEq, Repr

namespace Lcrrc

/-- One event. -/
def step (c : Lcrrc) : Event → Lcrrc
  | .init forced => c.onInit forced
  | .request reqId req => c.onExchangeRequest reqId req
  | .response reqId rsp => c.onExchangeResponse reqId rsp
  | .rlf => c.onRlf
  | .extract i => { c with timer := c.timer.extract i }
  | .fire i => c.fire i
  | .allocate => c.allocateReqId.1

/-- A run. -/
def run (c : Lcrrc) (es : List Event) : Lcrrc := es.foldl step c

/-- A channel at the start: the objects as they are constructed, no message
sent and no timer running. -/
def new (lcid : UInt8) (llcTx : LegacyLlc.TxConfig) (llcRx : LegacyLlc.RxConfig)
    (pdcpTx : LegacyPdcp.TxConfig) (pdcpRx : LegacyPdcp.RxConfig) : Lcrrc where
  llc := Llc.new lcid llcTx llcRx
  pdcpTx := { config := pdcpTx }
  pdcpRx := { config := pdcpRx }

end Lcrrc

end Winject.ChannelRrc
