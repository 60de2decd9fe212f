import Winject.Lib.Segmentation
import Winject.Frames.PdcpSegment
import Winject.Pdcp.Ul
import Winject.Pdcp.Dl
import Winject.Pdcp.DlSafety
import Winject.Pdcp.DlCompleteness
import Winject.Pdcp.InOrder
import Winject.Pdcp.RoundTrip
import Winject.Pdcp.WrapSplit
import Winject.LegacyPdcp.Tx
import Winject.LegacyPdcp.Rx
import Winject.LegacyPdcp.Link
import Winject.LegacyPdcp.Agreement
import Winject.LegacyPdcp.Reenable
import Winject.LegacyPdcp.Integrity
import Winject.LegacyPdcp.InWindow
import Winject.LegacyPdcp.FastForward
import Winject.ChannelRrc.Model
import Winject.ChannelRrc.Flags
import Winject.ChannelRrc.LinkFailure
import Winject.ChannelRrc.Requests
import Winject.Frames.LlcPdu
import Winject.Lib.Ledger
import Winject.Llc.Ul
import Winject.Llc.UlBookkeeping
import Winject.Llc.UlSlots
import Winject.LegacyLlc.OnRx
import Winject.LegacyLlc.OnTx
import Winject.ChannelRrc.Delivery
import Winject.LegacyLlc.TxLayout
import Winject.TxScheduler.RxFrame
import Winject.TxScheduler.Demux
import Winject.TxScheduler.DemuxIff
import Winject.LegacyLlc.AckRing
import Winject.LegacyLlc.AckList
import Winject.Frames.Received
import Winject.Lib.Loops
import Winject.Pdcp.Parse
import Winject.Receive.SegmentLoops
import Winject.Receive.Progress
import Winject.Receive.Bounds
import Winject.LegacyLlc.HandOver
import Winject.LegacyLlc.RingBounds
import Winject.Pdcp.Records
import Winject.Pdcp.Status
import Winject.Pdcp.HeldBack
import Winject.Pdcp.Accounting
import Winject.Pdcp.Delivered
import Winject.Pdcp.UlSegments
import Winject.Pdcp.UlHeaders
import Winject.Pdcp.UlReconfigure
import Winject.LegacyPdcp.Ordering
import Winject.ChannelRrc.Layouts
import Winject.Llc.UlAcknowledge
import Winject.Pdcp.UlConservation
import Winject.LegacyPdcp.Stores
import Winject.LegacyLlc.Calls
import Winject.LegacyLlc.GrantLayout
import Winject.LegacyLlc.Checksum
import Winject.LegacyLlc.Offers
import Winject.Llc.UlChecksum
import Winject.LegacyLlc.Outcomes
import Winject.LegacyLlc.Watch
import Winject.LegacyLlc.Timing
import Winject.LegacyLlc.RetryCounts
import Winject.LegacyLlc.Retained
import Winject.Llc.UlTransitions
import Winject.Llc.UlRetries
import Winject.Llc.UlRecheck
import Winject.Llc.UlReplay
import Winject.Llc.UlStorage
import Winject.Frames.BasicFec
import Winject.Frames.FecInit
import Winject.Lib.Intervals
import Winject.TxScheduler.Grants
import Winject.TxScheduler.Rounds
import Winject.TxScheduler.Walk
import Winject.Frames.Wifi
import Winject.Receive.WifiRx
import Winject.Lib.ShiftRegister
import Winject.Frames.Crc
import Winject.Frames.RadiotapScan
import Winject.Frames.RadiotapFormat
import Winject.Frames.PacketFilter
import Winject.Frames.BaseFrame
import Winject.Bfc.Timer
import Winject.Interface.Codec
import Winject.Lib.EventQueue
import Winject.Node.AppRrc
import Winject.Node.Channels
import Winject.Node.Configured
import Winject.Node.SharedTimer
import Winject.Node.Stations
import Winject.Receive.FrameTrip
import Winject.ChannelRrc.Rest
import Winject.EndPoint.Loop
import Winject.EndPoint.Target
import Winject.EndPoint.Tunnel
