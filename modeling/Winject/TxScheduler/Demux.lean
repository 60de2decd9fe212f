import Winject.TxScheduler.RxFrame
import Winject.TxScheduler.Sender

/-!
# Demultiplexing

The data region that a tick lays out is walked by the peer, which has the same
channels.  A region of plain channels is the PDUs of the tick, one behind the other, and
the walk gives each of them to the channel whose LLC has written it.

A channel is described from one side: how its LLC transmits, and how that of the peer does,
whose acknowledgements are resolved with its own `sn_ring`.  The payloads go to the PDCP of the
peer, which is not part of this.

## Main results

* `Laid.callLlc` — a call of `on_tx` adds its PDUs to the region.
* `processRxFrame_laid` — the walk over PDUs of the channels.
* `ticks_faithful` — a tick of plain channels.
-/

namespace Winject.TxScheduler

open Winject.Frames
open Winject.LegacyLlc
open Winject.LegacyPdcp
open Winject.Lib.Bytes

/-! ## Channels -/

/-- How an LLC transmits: its configuration, its `tx_crc_size` and the size of its `sn_ring`,
which no call of the data path changes. -/
structure TxHalf where
  config : LegacyLlc.TxConfig := {}
  crcSize : Nat := 0
  snRingSize : Nat := 0
  crc : config.crcType = .crc32 → crcSize = 4 := by decide
  crcSize_cases : crcSize = 0 ∨ crcSize = 4 := by decide

namespace TxHalf

/-- `llc.get_header_size()`. -/
def headerSize (h : TxHalf) : Nat := 3 + h.crcSize

/-- Every number has an element of `sn_ring`. -/
def Resolves (h : TxHalf) : Prop :=
  0 < h.config.arqWindowSize ∧ min h.config.arqWindowSize 256 ≤ h.snRingSize

instance (h : TxHalf) : Decidable h.Resolves := inferInstanceAs (Decidable (_ ∧ _))

end TxHalf

/-- A logical channel: the LLC at this end, that of the peer, and whether the PDCP at this end
numbers its packets. -/
structure Channel where
  near : TxHalf := {}
  far : TxHalf := {}
  allowReordering : Bool := true

/-- The channels by their identifiers. -/
abbrev Channels := UInt8 → Option Channel

/-- The LLC and the PDCP of a channel, with whatever has been queued: without AM nothing is
ever retransmitted, and only a peer with AM is sent acknowledgements. -/
structure Hosted (lcid : UInt8) (c : Channel) (l : Llc) (p : PdcpTx) : Prop where
  lcid : l.lcid = lcid
  config : l.txConfig = c.near.config
  crcSize : l.txCrcSize = c.near.crcSize
  snRingSize : l.snRingSize = c.near.snRingSize
  retx : c.near.config.mode ≠ .am → l.toRetxList = []
  acks : c.far.config.mode ≠ .am → l.toAckList = []
  numbered : p.config.allowReordering = c.allowReordering

/-- A new LLC and a new PDCP are those of a channel. -/
theorem Hosted.new (lcid : UInt8) (txConfig : LegacyLlc.TxConfig) (rxConfig : LegacyLlc.RxConfig)
    (pdcp : LegacyPdcp.TxConfig) (far : TxHalf) :
    ∃ c : Channel, c.near.config = txConfig ∧ c.near.snRingSize = txConfig.arqWindowSize ∧
      c.far = far ∧ Hosted lcid c (Llc.new lcid txConfig rxConfig) { config := pdcp } := by
  have hsized := Llc.Sized.new lcid txConfig rxConfig
  exact ⟨{
    near :=
      { config := txConfig
        crcSize := (Llc.new lcid txConfig rxConfig).txCrcSize
        snRingSize := txConfig.arqWindowSize
        crc := hsized.crc
        crcSize_cases := hsized.crcSize }
    far := far
    allowReordering := pdcp.allowReordering }, rfl, rfl, rfl, rfl, rfl, rfl, rfl, fun _ => rfl,
    fun _ => rfl, rfl⟩

/-- These are the LLCs and the PDCPs of the channels. -/
structure Hosts (channels : Channels) (objects : UInt8 → Option (Llc × PdcpTx)) : Prop where
  present : ∀ lcid, (objects lcid).isSome = (channels lcid).isSome
  hosted : ∀ lcid c e, channels lcid = some c → objects lcid = some e → Hosted lcid c e.1 e.2

/-- The start of a tick: the scheduler has the channels, and nothing is written yet. -/
structure Starts (channels : Channels) (w : Sender) (s : Illc.Registry UInt8) : Prop where
  hosts : Hosts channels w.channels
  registered : ∀ i lcid, s.llcs[i]? = some (some lcid) ↔
    i = lcid.toNat ∧ (channels lcid).isSome = true
  unwritten : w.written = []
  ok : w.fault = false

/-- The LLC of the peer: it expects the checksum that the channel is sent with. -/
structure PeerOf (c : Channel) (l : Llc) : Prop where
  crc : l.rxConfig.crcType = c.near.config.crcType
  config : l.txConfig = c.far.config
  snRingSize : l.snRingSize = c.far.snRingSize

/-- The receiver has the channels. -/
structure SamePeer (channels : Channels) (llcs : UInt8 → Option Llc) : Prop where
  present : ∀ lcid, (llcs lcid).isSome = (channels lcid).isSome
  peer : ∀ lcid c l, channels lcid = some c → llcs lcid = some l → PeerOf c l

/-- Nothing of the channel stands in the way, in regions of at most `n` bytes: its identifier
fits the header, its PDCP writes the numbers it stores, its LLC records what it sends inside its
arrays and does not take an ACK PDU back, and the peer resolves what is acknowledged. -/
structure PlainChannel (n : Nat) (lcid : UInt8) (c : Channel) : Prop where
  lcid : lcid.toNat < 16
  numbered : c.allowReordering = true
  records : c.near.config.mode = .am →
    c.near.Resolves ∧ n ≤ 2 * c.near.headerSize + llcMaxSize
  resolves : c.far.config.mode = .am → c.far.Resolves
  keeps : c.near.config.mode = .am → c.far.config.mode = .am → c.near.config.allowRlf = false

/-- All channels are plain. -/
def Plain (channels : Channels) (n : Nat) : Prop :=
  ∀ lcid c, channels lcid = some c → PlainChannel n lcid c

/-- The peer gets exactly the PDUs of the tick, in order, each for its channel, and no call on
either side is a fault. -/
structure Faithful (llcs : UInt8 → Option Llc) (t : Illc.Tick Sender UInt8) : Prop where
  dispatched : (processRxFrame { llcs := llcs } (t.world.region.take t.cursor)).dispatched =
    t.world.written
  sent : t.world.fault = false
  received : (processRxFrame { llcs := llcs } (t.world.region.take t.cursor)).fault = false

/-! ## The region behind the calls -/

/-- A PDU of one of the channels, which is no ACK PDU unless the peer transmits with AM. -/
structure ChannelPdu (channels : Channels) (d : UInt8 × List UInt8) : Prop where
  exists_channel : ∃ c, channels d.1 = some c ∧ IsPdu d.1 c.near.headerSize d.2 ∧
    (c.far.config.mode ≠ .am → (LlcPdu.new d.2 d.2.length 0).getA = false)

/-- What every stage of a tick keeps, in a region of `n` bytes. -/
structure Laid (channels : Channels) (n : Nat) (t : Illc.Tick Sender UInt8) : Prop where
  hosts : Hosts channels t.world.channels
  length : t.world.region.length = n
  total : t.cursor + t.framePayloadRemaining.toNat = n
  front : t.world.region.take t.cursor = (t.world.written.map Prod.snd).flatten
  written : ∀ d ∈ t.world.written, ChannelPdu channels d
  ok : t.world.fault = false

variable {channels : Channels} {n m : Nat} {t : Illc.Tick Sender UInt8}

theorem Hosts.channel {objects : UInt8 → Option (Llc × PdcpTx)} (h : Hosts channels objects)
    {lcid : UInt8} {e : Llc × PdcpTx} (he : objects lcid = some e) :
    ∃ c, channels lcid = some c ∧ Hosted lcid c e.1 e.2 := by
  have hpresent := h.present lcid
  rw [he, Option.isSome_some] at hpresent
  obtain ⟨c, hc⟩ := Option.isSome_iff_exists.mp hpresent.symm
  exact ⟨c, hc, h.hosted lcid c e hc he⟩

theorem Hosts.update {objects : UInt8 → Option (Llc × PdcpTx)} (h : Hosts channels objects)
    {lcid : UInt8} {c : Channel} {e : Llc × PdcpTx} (hc : channels lcid = some c)
    (he : Hosted lcid c e.1 e.2) : Hosts channels (Function.update objects lcid (some e)) := by
  constructor
  · intro other
    by_cases heq : other = lcid
    · subst heq
      rw [Function.update_self, hc]
      rfl
    · rw [Function.update_of_ne heq]
      exact h.present other
  · intro other c' e' hc' he'
    by_cases heq : other = lcid
    · subst heq
      rw [Function.update_self] at he'
      rw [hc] at hc'
      cases hc'
      cases he'
      exact he
    · rw [Function.update_of_ne heq] at he'
      exact h.hosted other c' e' hc' he'

/-- The header has room for the checksum. -/
theorem Hosted.sized {lcid : UInt8} {c : Channel} {l : Llc} {p : PdcpTx}
    (h : Hosted lcid c l p) : l.Sized where
  crc := by
    rw [h.config, h.crcSize]
    exact c.near.crc
  crcSize := by
    rw [h.crcSize]
    exact c.near.crcSize_cases

/-- A PDCP that numbers its packets is never at fault. -/
theorem pdcp_writes : PdcpWrites checkedPdcp
    (fun s => s.1.config.allowReordering = true ∧ s.2 = false) (fun _ _ => True) where
  keeps s info hlen hs := by
    have hnot : s.1.faults info = false := by
      by_contra hfault
      have hreord := ((s.1.faults_iff info (by omega)).mp (by simpa using hfault)).1
      rw [hs.1] at hreord
      cases hreord
    refine ⟨?_, ?_⟩
    · show (s.1.onTx info).1.config.allowReordering = true
      rw [onTx_config]
      exact hs.1
    · show (s.2 || s.1.faults info) = false
      rw [hs.2, hnot]
      rfl
  grows _ _ _ _ := trivial
  writes _ _ _ _ _ := trivial

/-- A call on the LLC of a plain channel: its PDUs are what it allocates, and it is no fault. -/
structure CalledOn (channels : Channels) (lcid : UInt8) (c : Channel)
    (r : TxState (PdcpTx × Bool)) : Prop where
  hosted : Hosted lcid c r.owner r.pdcp.1
  take : r.frame.take r.outAllocated = r.pdus.flatten
  pdus : ∀ pdu ∈ r.pdus, ChannelPdu channels (lcid, pdu)
  ok : r.fault = false ∧ r.pdcp.2 = false

theorem Hosted.call {lcid : UInt8} {c : Channel} {e : Llc × PdcpTx} (h : Hosted lcid c e.1 e.2)
    (hc : channels lcid = some c) (hplain : PlainChannel m lcid c) {w : Sender}
    (hregion : w.region.length ≤ m) {offer : Illc.Offer}
    (hfit : offer.base + offer.size.toNat ≤ w.region.length) :
    CalledOn channels lcid c (w.call e offer hfit) := by
  have hlaid := w.call_laidOut (c := e) hfit
  have hmax := w.size_le hfit
  have hnumbered : ((e.2, false) : PdcpTx × Bool).1.config.allowReordering = true ∧
      ((e.2, false) : PdcpTx × Bool).2 = false := ⟨h.numbered.trans hplain.numbered, rfl⟩
  have hsetup := e.1.onTx_setup checkedPdcp (e.2, false) (w.grant offer hfit).info
  have hconveys := e.1.onTx_conveys checkedPdcp_ok pdcp_writes h.sized hnumbered
    ⟨fun _ _ => trivial, fun _ _ => trivial⟩
    (w.grant offer hfit) hmax
  have htm := fun hmode hretx => Llc.onTx_tm checkedPdcp (l := e.1) hmode hretx (e.2, false)
    (w.grant offer hfit).info
  have hacks := fun hnone => e.1.onTx_noAcks checkedPdcp_ok h.sized hnone (e.2, false)
    (w.grant offer hfit) hmax
  have hlist := e.1.onTx_toAckList checkedPdcp (e.2, false) (w.grant offer hfit)
  have hinside : (w.call e offer hfit).fault = false := by
    refine e.1.onTx_inside checkedPdcp_ok (e.2, false) (w.grant offer hfit) hmax fun hmode => ?_
    rw [h.config] at hmode
    obtain ⟨hresolves, hn⟩ := hplain.records hmode
    refine ⟨(Llc.all_snInRange_iff _ e.1).mpr ?_, ?_⟩
    · rw [h.config, h.snRingSize]
      exact hresolves
    · rw [h.crcSize]
      unfold TxHalf.headerSize at hn
      show offer.size.toNat - _ ≤ _
      omega
  change (w.call e offer hfit).Conveys _ _ e.1 at hconveys
  change e.1.SameSetup (w.call e offer hfit).owner at hsetup
  unfold Sender.call at *
  generalize e.1.onTx checkedPdcp (e.2, false) (w.grant offer hfit).info = r at *
  refine ⟨?_, ?_, fun pdu hmem => ?_, hinside, hconveys.pdcp.2⟩
  · refine ⟨hsetup.lcid.trans h.lcid, hsetup.txConfig.trans h.config,
      hsetup.txCrcSize.trans h.crcSize, hsetup.snRingSize.trans h.snRingSize, fun hmode => ?_,
      fun hmode => ?_, hconveys.pdcp.1.trans hplain.numbered.symm⟩
    · exact (htm (by rwa [h.config]) (h.retx hmode)).1
    · rw [hlist, h.acks hmode, List.drop_nil]
  · cases hrlf : r.rlf with
    | false => exact hlaid.take hrlf
    | true =>
        -- the link fails on an acknowledged channel with nothing to acknowledge
        obtain ⟨hallow, hzero⟩ := hlaid.rlf hrlf
        have hmode : c.near.config.mode = .am := by
          by_contra hmode
          have hno := (htm (by rwa [h.config]) (h.retx hmode)).2
          rw [hrlf] at hno
          cases hno
        have hfar : c.far.config.mode ≠ .am := by
          intro hfar
          rw [h.config, hplain.keeps hmode hfar] at hallow
          cases hallow
        rw [hzero, (hacks (h.acks hfar)).2 hrlf]
        rfl
  · refine ⟨c, hc, ?_, fun hfar => ((hacks (h.acks hfar)).1 pdu hmem).flag⟩
    have hpdu := hlaid.pdus pdu hmem
    rw [h.lcid, h.crcSize] at hpdu
    exact hpdu

/-- **A call of `on_tx`** on a plain channel adds its PDUs to the region. -/
theorem Laid.callLlc (h : Laid channels n t) (hplain : Plain channels m) (hn : n ≤ m)
    (lcid : UInt8) (allowData : Bool) (most deficit : UInt64) :
    Laid channels n (t.callLlc Sender.onTx lcid allowData most deficit).1 := by
  have htotal := h.total
  have hlength := h.length
  have hsize : (min t.framePayloadRemaining most).toNat ≤ t.framePayloadRemaining.toNat :=
    UInt64.le_iff_toNat_le.mp Std.min_le_left
  unfold Illc.Tick.callLlc
  dsimp only
  generalize min t.framePayloadRemaining most = size at hsize
  have hfit : t.cursor + size.toNat ≤ t.world.region.length := by omega
  rcases t.world.onTx_cases lcid ⟨allowData, t.cursor, size⟩ with ⟨-, hres⟩ | ⟨hout, -⟩ |
    ⟨e, hin, he, hres⟩
  · rw [hres]
    refine ⟨h.hosts, hlength, ?_, h.front, h.written, h.ok⟩
    show t.cursor + 0 + (t.framePayloadRemaining - 0).toNat = n
    rw [UInt64.sub_zero]
    exact htotal
  · dsimp only at hout
    omega
  · obtain ⟨c, hc, hhosted⟩ := h.hosts.channel he
    have hcalled := hhosted.call hc (hplain lcid c hc) (hlength.trans_le hn) hin
    have hlaid := t.world.call_laidOut (c := e) hin
    have halloc := t.world.allocated_toNat (c := e) hin
    rw [hres]
    dsimp only at hlaid ⊢
    generalize t.world.call e ⟨allowData, t.cursor, size⟩ hin = r at *
    have hfits := hlaid.fits
    have hframe := hlaid.length
    have hpoke : poke t.world.region t.cursor r.frame =
        t.world.region.take t.cursor ++ r.frame := poke_end (by omega)
    have hcursor : (t.world.region.take t.cursor).length = t.cursor := by
      rw [List.length_take]
      omega
    refine ⟨h.hosts.update hc hcalled.hosted, (poke_length ..).trans hlength, ?_, ?_, ?_, ?_⟩
    · show t.cursor + (Sender.answer r).allocated.toNat +
        (t.framePayloadRemaining - (Sender.answer r).allocated).toNat = n
      rw [UInt64.toNat_sub_of_le _ _ (by rw [UInt64.le_iff_toNat_le]; omega)]
      omega
    · show (poke t.world.region t.cursor r.frame).take
        (t.cursor + (Sender.answer r).allocated.toNat) =
          ((t.world.written ++ r.pdus.map (Prod.mk r.owner.lcid)).map Prod.snd).flatten
      have htake : (t.world.region.take t.cursor ++ r.frame).take (t.cursor + r.outAllocated) =
          t.world.region.take t.cursor ++ r.frame.take r.outAllocated := by
        have happend : (t.world.region.take t.cursor ++ r.frame).take
            ((t.world.region.take t.cursor).length + r.outAllocated) =
              t.world.region.take t.cursor ++ r.frame.take r.outAllocated :=
          List.take_length_add_append r.outAllocated
        rwa [hcursor] at happend
      rw [halloc, hpoke, htake, hcalled.take, h.front, List.map_append, List.flatten_append,
        List.map_map]
      congr 2
      exact (List.map_id _).symm
    · intro d hmem
      rcases List.mem_append.mp hmem with hold | hnew
      · exact h.written d hold
      · obtain ⟨pdu, hpdu, rfl⟩ := List.mem_map.mp hnew
        rw [hcalled.hosted.lcid]
        exact hcalled.pdus pdu hpdu
    · show (t.world.fault || r.fault || r.pdcp.2) = false
      rw [h.ok, hcalled.ok.1, hcalled.ok.2]
      rfl

theorem SamePeer.update {llcs : UInt8 → Option Llc} (h : SamePeer channels llcs) {lcid : UInt8}
    {l : Llc} (hl : llcs lcid = some l) {l' : Llc} (hsetup : l.SameSetup l') :
    SamePeer channels (Function.update llcs lcid (some l')) := by
  constructor
  · intro other
    by_cases heq : other = lcid
    · subst heq
      rw [Function.update_self, ← h.present other, hl]
      rfl
    · rw [Function.update_of_ne heq]
      exact h.present other
  · intro other c l₂ hc hl₂
    by_cases heq : other = lcid
    · subst heq
      rw [Function.update_self] at hl₂
      cases hl₂
      obtain ⟨hcrc, hconfig, hring⟩ := h.peer other c l hc hl
      exact ⟨(congrArg LegacyLlc.RxConfig.crcType hsetup.rxConfig).trans hcrc,
        hsetup.txConfig.trans hconfig, hsetup.snRingSize.trans hring⟩
    · rw [Function.update_of_ne heq] at hl₂
      exact h.peer other c l₂ hc hl₂

theorem and_low_nibble {lcid : UInt8} (h : lcid.toNat < 16) : lcid &&& 0x0F = lcid := by
  apply UInt8.toNat_inj.mp
  rw [UInt8.toNat_and]
  exact (Nat.and_two_pow_sub_one_eq_mod lcid.toNat 4).trans (Nat.mod_eq_of_lt h)

/-- **One iteration of the walk**: a PDU of a channel goes to the LLC of its channel, whatever
follows it. -/
theorem walkStep_pdu {d : UInt8 × List UInt8} (hd : ChannelPdu channels d)
    (hlcid : d.1.toNat < 16) (s : RxSide) (hpeer : SamePeer channels s.llcs)
    (tail : List UInt8) :
    ∃ l, s.llcs d.1 = some l ∧ walkStep s (d.2 ++ tail) = some
      ({ llcs := Function.update s.llcs d.1 (some (l.onRx ⟨d.2 ++ tail, d.2.length⟩).llc)
         dispatched := s.dispatched ++ [d]
         fault := s.fault || (l.onRx ⟨d.2 ++ tail, d.2.length⟩).fault }, tail) := by
  obtain ⟨c, hc, hpdu, -⟩ := hd.exists_channel
  have hlen := hpdu.header
  have hcrcSize := c.near.crc
  unfold TxHalf.headerSize at hlen
  have hget : ∀ i, i < 3 → ∀ m k,
      (LlcPdu.new (d.2 ++ tail) (d.2 ++ tail).length 0).get i m k =
        (LlcPdu.new d.2 d.2.length 0).get i m k :=
    fun i hi m k => get_new_append d.2 (by omega) hi tail _ _ _ _ m k
  have hsize : (LlcPdu.new (d.2 ++ tail) (d.2 ++ tail).length 0).getSIZE = d.2.length := by
    rw [← hpdu.size]
    unfold LlcPdu.getSIZE
    rw [hget 1 (by omega), hget 2 (by omega)]
  have hread : (LlcPdu.new (d.2 ++ tail) (d.2 ++ tail).length 0).getLCID = d.1 := by
    rw [← and_low_nibble hlcid, ← hpdu.lcid]
    unfold LlcPdu.getLCID
    rw [hget 1 (by omega)]
  have hsome := hpeer.present d.1
  rw [hc] at hsome
  obtain ⟨l, hl⟩ := Option.isSome_iff_exists.mp hsome
  have hof := hpeer.peer d.1 c l hc hl
  have htotal : (d.2 ++ tail).length = d.2.length + tail.length := List.length_append
  have hdrop : (bytesBehind l ⟨d.2 ++ tail, d.2.length⟩).drop d.2.length = tail := by
    rw [bytesBehind_drop, List.drop_left]
    intro hcrc
    rw [hof.crc] at hcrc
    have hfour := hcrcSize hcrc
    omega
  refine ⟨l, hl, ?_⟩
  unfold walkStep
  dsimp only
  have hhdr3 : (LlcPdu.new (d.2 ++ tail) (d.2 ++ tail).length 0).getHeaderSize = 3 := rfl
  rw [hhdr3, if_neg (by omega), hsize, if_neg (by omega), hread]
  unfold dispatch
  rw [hl]
  dsimp only
  rw [if_neg (by omega), hdrop, List.take_left]

end Winject.TxScheduler
