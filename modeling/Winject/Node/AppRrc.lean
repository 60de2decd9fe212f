import Winject.ChannelRrc.Layouts
import Winject.Interface.Codec
import Winject.Lib.EventQueue

/-!
# The RRC of a node (`AppRRC.cpp`)

`AppRrc` has an `LCRRC` for every logical channel with an end point, gives all of them
request identifiers from one counter, and sends what they send as packets of channel 0.
What it reads from channel 0 it decodes and dispatches, by the channel that a message
names.

Link failures, set-ups and messages reach the channels through a queue of events: any
thread puts them, the reactor moves the queue out and handles one event after another.  A
`Step` is an atomic step of one of the threads.  The second timer is one for all channels;
a callback belongs to the channel that asked for it, so every `LCRRC` has the callbacks of
its own.

A handler of a channel is one step.  That is an assumption: the reactor and the thread of the
second timer call the channels without a lock, and their calls could interleave.

The model begins when the threads have started.  What has no effect on the channels is left
out: the scheduler, the console (its command `init` is `onCmdInit`) and the WiFi.
-/

namespace Winject.Node

open Winject.ChannelRrc
open Winject.Interface (LLCTxMode LLCCRCType)
open Winject.Lib.EventQueue

/-! ## Messages -/

/-- A `bool` that is stored into a byte. -/
def ofBool (b : Bool) : UInt8 := if b then 1 else 0

/-- A byte that is stored into a `bool`. -/
def toBool (v : UInt8) : Bool := v != 0

/-- The mode as `LCRRC` tells modes apart. -/
def ofMode (mode : LLCTxMode) : RrcLlcTxMode := if mode = .am then .am else .tm

/-- The CRC type as `LCRRC` tells types apart. -/
def ofCrc (crcType : LLCCRCType) : RrcLlcCrcType := if crcType = .crc32 then .crc32 else .none

/-- The mode in a message. -/
def toMode : RrcLlcTxMode → LLCTxMode
  | .tm => .tm
  | .am => .am

/-- The CRC type in a message. -/
def toCrc : RrcLlcCrcType → LLCCRCType
  | .none => .none
  | .crc32 => .crc32

/-- What `LCRRC` reads of an exchange. -/
def ofExchange (x : Interface.Exchange) : RrcExchange where
  lcid := x.lcid
  llcConfig :=
    { mode := ofMode x.llcConfig.txConfig.mode
      crcType := ofCrc x.llcConfig.txConfig.crcType }
  pdcpConfig :=
    { allowRLF := toBool x.pdcpConfig.allowRLF
      allowSegmentation := toBool x.pdcpConfig.allowSegmentation
      allowReordering := toBool x.pdcpConfig.allowReordering
      maxSnDistance := x.pdcpConfig.maxSnDistance.map UInt16.toNat }

/-- The exchange that `LCRRC` writes; the fields that it does not set are zero. -/
def toExchange (x : RrcExchange) : Interface.Exchange where
  lcid := x.lcid
  llcConfig := { txConfig := { mode := toMode x.llcConfig.mode, crcType := toCrc x.llcConfig.crcType } }
  pdcpConfig :=
    { allowRLF := ofBool x.pdcpConfig.allowRLF
      allowSegmentation := ofBool x.pdcpConfig.allowSegmentation
      allowReordering := ofBool x.pdcpConfig.allowReordering
      maxSnDistance := x.pdcpConfig.maxSnDistance.map UInt16.ofNat }

/-- What `LCRRC` reads of a message. -/
def ofRrc (m : Interface.Rrc) : ChannelRrc.Rrc where
  requestID := m.requestID
  message := match m.message with
    | .exchangeRequest req => .exchangeRequest (ofExchange req)
    | .exchangeResponse rsp => .exchangeResponse (ofExchange rsp)

/-- The message that `LCRRC` sends. -/
def toRrc (m : ChannelRrc.Rrc) : Interface.Rrc where
  requestID := m.requestID
  message := match m.message with
    | .exchangeRequest req => .exchangeRequest (toExchange req)
    | .exchangeResponse rsp => .exchangeResponse (toExchange rsp)

/-- `AppRRC::send_rrc`: the packet that is given to the PDCP of channel 0.  The buffer has
room for every message. -/
def packet (m : ChannelRrc.Rrc) : List UInt8 := (toRrc m).bytes

/-! ## Configuration -/

/-- `IEndPoint::config_t::type`. -/
inductive EpType where
  | udp
  | tcps
  | tcpc
  | other
  deriving DecidableEq, Repr

/-- The parts of `IRRC::config_t` that the channels are set up from. -/
structure Config where
  llcTxConfigs : UInt8 → Option LegacyLlc.TxConfig
  llcRxConfigs : UInt8 → LegacyLlc.RxConfig := fun _ => {}
  pdcpConfigs : UInt8 → Option LegacyPdcp.TxConfig
  epConfigs : UInt8 → Option EpType

/-- `AppRRC::setup_llcs`: the receiver starts with what the node itself sends with. -/
def Config.llcRx (cfg : Config) (lcid : UInt8) (tx : LegacyLlc.TxConfig) : LegacyLlc.RxConfig :=
  { cfg.llcRxConfigs lcid with mode := tx.mode, crcType := tx.crcType }

/-- `AppRRC::setup_pdcps`. -/
def pdcpRx (tx : LegacyPdcp.TxConfig) : LegacyPdcp.RxConfig where
  allowRlf := tx.allowRlf
  allowSegmentation := tx.allowSegmentation
  allowReordering := tx.allowReordering
  maxSnDistance := tx.maxSnDistance

/-- `AppRRC::setup_eps` makes an end point of the channel. -/
def Config.hasEp (cfg : Config) (lcid : UInt8) : Bool :=
  (cfg.pdcpConfigs lcid).isSome && match cfg.epConfigs lcid with
    | none | some .other => false
    | some _ => true

/-- What the channel is set up with, if `AppRRC::setup_lcrrc` makes an `LCRRC` of it. -/
def Config.channel (cfg : Config) (lcid : UInt8) : Option ChannelConfig :=
  match cfg.llcTxConfigs lcid, cfg.pdcpConfigs lcid with
  | some llcTx, some pdcpTx =>
    if cfg.hasEp lcid then
      some { llcTx := llcTx, llcRx := cfg.llcRx lcid llcTx, pdcpTx := pdcpTx, pdcpRx := pdcpRx pdcpTx }
    else none
  | _, _ => none

/-! ## The node -/

/-- `AppRRC::rrc_event_t`. -/
inductive RrcEvent where
  | stop
  | rlf (lcid : UInt8)
  | setup (lcid : UInt8) (forced : Bool)
  | msg (msg : Interface.Rrc)
  deriving DecidableEq, Repr

/-- `AppRRC`.  `mail` is `rrc_events` with `rrc_event_fd` and the reactor; `sent` are the
packets given to the PDCP of channel 0.  An exception that no thread catches has
`terminated` the program. -/
structure AppRrc where
  channelRrcContexts : UInt8 → Option Lcrrc
  rrcReqId : UInt8 := 0
  mail : Mailbox RrcEvent := {}
  sent : List (List UInt8) := []
  rrcRxRunning : Bool := true
  timer2Running : Bool := true
  reactorRunning : Bool := true
  terminated : Bool := false

/-- A step of one of the threads. -/
inductive Step where
  | onRlf (lcid : UInt8)
  | onInit (lcid : UInt8)
  | onCmdInit (lcid : UInt8)
  | stop
  | rrcRx (b : List UInt8)
  | wake
  | take
  | handle
  | extract (lcid : UInt8) (i : Nat)
  | fire (lcid : UInt8) (i : Nat)
  deriving DecidableEq, Repr

/-- `AppRRC::run_rrc_rx` turns these flags of channel 0 on. -/
def startRrcRx (c : Lcrrc) : Lcrrc :=
  { c with
    pdcpRx := c.pdcpRx.setRxEnabled true
    pdcpTx := c.pdcpTx.setTxEnabled true
    llc := (c.llc.setRxEnabled true).setTxEnabled true }

namespace AppRrc

/-- The constructor, and the start of its threads. -/
def setup (cfg : Config) : AppRrc where
  channelRrcContexts lcid := (cfg.channel lcid).map fun c =>
    let lcrrc := Lcrrc.new lcid c.llcTx c.llcRx c.pdcpTx c.pdcpRx
    if lcid = 0 then startRrcRx lcrrc else lcrrc

/-- A call of a channel, with the counter of the node. -/
def onChannel (a : AppRrc) (lcid : UInt8) (e : Event) : AppRrc :=
  match a.channelRrcContexts lcid with
  | none => a
  | some c =>
    let c' := Lcrrc.step { c with rrcReqId := a.rrcReqId } e
    { a with
      channelRrcContexts := Function.update a.channelRrcContexts lcid (some c')
      rrcReqId := c'.rrcReqId
      sent := a.sent ++ (c'.sent.drop c.sent.length).map packet }

/-- `AppRRC::push_rrc_event`. -/
def pushRrcEvent (a : AppRrc) (event : RrcEvent) : AppRrc := { a with mail := a.mail.put event }

/-- The pass of `AppRRC::run_rrc_rx` over a packet.  `decode_per` throws when the packet is
too short. -/
def runRrcRx (a : AppRrc) (b : List UInt8) : AppRrc :=
  if !a.rrcRxRunning || b.isEmpty then a else
  match (Interface.Rrc.decodePer {}).run b with
  | none => { a with terminated := true }
  | some (rrc, _) => a.pushRrcEvent (.msg rrc)

/-- The call of a channel that an event is. -/
def channelEvent : RrcEvent → Option (UInt8 × Event)
  | .stop => none
  | .rlf lcid => some (lcid, .rlf)
  | .setup lcid forced => some (lcid, .init forced)
  | .msg m =>
    match m.message with
    | .exchangeRequest req => some (req.lcid, .request m.requestID (ofExchange req))
    | .exchangeResponse rsp => some (rsp.lcid, .response m.requestID (ofExchange rsp))

/-- `AppRRC::on_rrc_event`, for one event. -/
def onRrcEvent (a : AppRrc) (event : RrcEvent) : AppRrc :=
  match channelEvent event with
  | none => { a with rrcRxRunning := false, timer2Running := false, reactorRunning := false }
  | some (lcid, e) => a.onChannel lcid e

/-- The reactor comes to the next event that it has moved out. -/
def handle (a : AppRrc) : AppRrc :=
  match a.mail.next with
  | none => { a with mail := a.mail.work }
  | some event => ({ a with mail := a.mail.work }).onRrcEvent event

/-- One step. -/
def step (a : AppRrc) (s : Step) : AppRrc :=
  if a.terminated then a else
  match s with
  | .onRlf lcid => a.pushRrcEvent (.rlf lcid)
  | .onInit lcid => a.pushRrcEvent (.setup lcid false)
  | .onCmdInit lcid => a.pushRrcEvent (.setup lcid true)
  | .stop => a.pushRrcEvent .stop
  | .rrcRx b => a.runRrcRx b
  | .wake => if a.reactorRunning then { a with mail := a.mail.wake } else a
  | .take => { a with mail := a.mail.take }
  | .handle => a.handle
  | .extract lcid i => if a.timer2Running then a.onChannel lcid (.extract i) else a
  | .fire lcid i => a.onChannel lcid (.fire i)

/-- A run. -/
def run (a : AppRrc) (ss : List Step) : AppRrc := ss.foldl step a

end AppRrc

end Winject.Node
