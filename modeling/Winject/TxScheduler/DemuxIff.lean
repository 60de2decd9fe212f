import Winject.LegacyLlc.Checksum
import Winject.TxScheduler.OneChannel

/-!
# When demultiplexing is faithful

Which sets of channels are demultiplexed faithfully in regions of up to `n` bytes, in every slot
and whatever the channels hold.  For each condition of a plain channel there is a tick in which
only that channel sends, and its one call shows what happens without the condition.

## Main results

* `DemuxFaithful.call` — what faithful demultiplexing says of a call with the whole region.
* `loudCall_data` — a call that fills the region.
* `demuxFaithful_iff` — exactly the plain sets of channels are faithful.
-/

namespace Winject.TxScheduler

open Winject.Frames
open Winject.LegacyLlc
open Winject.LegacyPdcp
open Winject.Lib.Bytes

/-- In regions of up to `n` bytes, whatever the order of equal deficits, the slot, the content of
the channels and of the region: what a tick lays out is what the peer gets, and the tick ends
when every channel has quanta. -/
def DemuxFaithful (channels : Channels) (n : Nat) : Prop :=
  ∀ (std : Illc.SortDescending) (w : Sender) (s : Illc.Registry UInt8)
    (llcs : UInt8 → Option Llc),
    Starts channels w s → SamePeer channels llcs → w.region.length ≤ n →
      (∀ t, Ticks std w s t → Faithful llcs t) ∧
      ((∀ i lcid, s.llcs[i]? = some (some lcid) → (s.schedulesInfo.getD i {}).quanta ≠ 0) →
        ∃ t, Ticks std w s t)

variable {channels : Channels} {n : Nat} {x : UInt8} {c : Channel}

/-! ## One call -/

/-- A grant of a whole region. -/
def wholeRegion (r : Nat) : Grant where
  slotNumber := 0
  buffer := List.replicate r 0
  size := r
  fits := by rw [List.length_replicate]

/-- The call of an enabled LLC with the whole region. -/
def loudCall (c : Channel) (l : Llc) (r : Nat) : TxState (PdcpTx × Bool) :=
  l.onTx checkedPdcp (loudPdcp c, false) (wholeRegion r).info

/-- What the call of channel `x` has written is what the peer gets. -/
structure CallFaithful (channels : Channels) (x : UInt8) (r : TxState (PdcpTx × Bool)) : Prop where
  sent : r.fault = false
  pdcp : r.pdcp.2 = false
  dispatched : (processRxFrame { llcs := peerOf channels }
    (r.frame.take r.outAllocated)).dispatched = r.pdus.map (Prod.mk x)
  received : (processRxFrame { llcs := peerOf channels }
    (r.frame.take r.outAllocated)).fault = false

/-- The start of the tick. -/
theorem starts_oneLoud {l : Llc} (hx : channels x = some c) (hl : Hosted x c l (loudPdcp c))
    {r : Nat} (hr : r ≤ 2047) (deficit : UInt64) :
    Starts channels (senderOf (oneLoud channels x l) hr) (registryOf channels deficit) where
  hosts :=
    { present := fun _ => Option.isSome_map
      hosted := by
        intro lcid c' e hc' he
        change oneLoud channels x l lcid = some e at he
        by_cases heq : lcid = x
        · subst heq
          rw [hx] at hc'
          cases hc'
          rw [oneLoud_self hx] at he
          cases he
          exact hl
        · rw [oneLoud_of_ne hc' heq] at he
          cases he
          exact ⟨rfl, rfl, rfl, rfl, fun _ => rfl, fun _ => rfl, rfl⟩ }
  registered := registryOf_llcs channels deficit
  unwritten := rfl
  ok := rfl

/-- **Faithful demultiplexing of one call.** -/
theorem DemuxFaithful.call (h : DemuxFaithful channels n) (hn : n ≤ 2047)
    (hx : channels x = some c) {l : Llc} (hl : Hosted x c l (loudPdcp c))
    (hen : l.isTxEnabled = true) (hring : ∀ i, (l.txRing i).acknowledged = true) {r : Nat}
    (hpos : 0 < r) (hrn : r ≤ n) : CallFaithful channels x (loudCall c l r) := by
  have hr : r ≤ 2047 := hrn.trans hn
  generalize hw : senderOf (oneLoud channels x l) hr = w
  have hlen : w.region.length = r := by
    rw [← hw]
    exact List.length_replicate
  have hin : w.channels x = some (l, loudPdcp c) := by
    rw [← hw]
    exact oneLoud_self hx l
  have hstarts := starts_oneLoud hx hl hr (UInt64.ofNat r)
  obtain ⟨hall, hends⟩ := h Illc.Tick.insertionSort _ _ (peerOf channels) hstarts
    (samePeer_peerOf channels) (by rw [hw, hlen]; exact hrn)
  obtain ⟨t, ht⟩ := hends fun i lcid hlcid => by
    obtain ⟨rfl, hsome⟩ := (registryOf_llcs channels _ i lcid).mp hlcid
    rw [registryOf_ctx hsome]
    exact (show (1 : UInt64) ≠ 0 by decide)
  have hfaithful := hall t ht
  obtain ⟨hworld, hcursor⟩ := ticks_call hx hen hring hpos hr ht
  have hnat : (UInt64.ofNat r).toNat = r := by
    rw [UInt64.toNat_ofNat', Nat.mod_eq_of_lt (by omega)]
  have hfit : (wholeOffer r).base + (wholeOffer r).size.toNat ≤ w.region.length := by
    show 0 + (UInt64.ofNat r).toNat ≤ w.region.length
    omega
  have hcall : w.call (l, loudPdcp c) (wholeOffer r) hfit = loudCall c l r := by
    subst hw
    unfold Sender.call loudCall
    congr 1
    show TxInfo.mk 0 true false false (List.replicate r 0) (UInt64.ofNat r).toNat 0 = _
    rw [hnat]
    rfl
  rw [hw, Sender.onTx_of_channel hin hfit, hcall] at hworld hcursor
  have halloc := w.allocated_toNat (c := (l, loudPdcp c)) hfit
  rw [hcall] at halloc
  rw [halloc] at hcursor
  have hframe := (w.call_laidOut (c := (l, loudPdcp c)) hfit).length
  have hsetup := l.onTx_setup checkedPdcp (loudPdcp c, false) (wholeRegion r).info
  change l.SameSetup (loudCall c l r).owner at hsetup
  rw [hcall] at hframe
  generalize loudCall c l r = R at *
  change R.frame.length = w.region.length - 0 at hframe
  have hregion : t.world.region = R.frame := by
    rw [hworld]
    show poke w.region 0 R.frame = R.frame
    rw [poke_end (by omega)]
    rfl
  have hwritten : t.world.written = R.pdus.map (Prod.mk x) := by
    rw [hworld, ← hl.lcid, ← hsetup.lcid, ← hw]
    rfl
  have hfault := hfaithful.sent
  rw [hworld, ← hw] at hfault
  change (false || R.fault || R.pdcp.2) = false at hfault
  rw [Bool.false_or, Bool.or_eq_false_iff] at hfault
  have hdispatched := hfaithful.dispatched
  have hreceived := hfaithful.received
  rw [hregion, hcursor] at hdispatched hreceived
  exact ⟨hfault.1, hfault.2, hdispatched.trans hwritten, hreceived⟩

/-! ## A region filled with data -/

/-- A PDCP with a packet that is long enough fills what it is offered, and is at fault iff it does
not number its packets. -/
theorem loudPdcp_fills (c : Channel) (info : LegacyPdcp.TxInfo) (hlow : 7 ≤ info.outPdu.length)
    (hhigh : info.outPdu.length ≤ 2047) :
    (checkedPdcp (loudPdcp c, false) info).2.outAllocated =
        info.outAllocated + info.outPdu.length ∧
      (checkedPdcp (loudPdcp c, false) info).1.2 = !c.allowReordering := by
  have hstores : (loudPdcp c).StoresSn info := by
    refine ⟨rfl, rfl, Nat.zero_le _, ?_⟩
    have hheader := headerSize_le (loudPdcp c).config.layout
    omega
  constructor
  · refine PdcpTx.onTx_fills hstores rfl (Nat.le_refl 0) rfl ?_ (by omega)
    rwa [List.length_replicate]
  · show (loudPdcp c).faults info = !c.allowReordering
    rw [Bool.eq_iff_iff, PdcpTx.faults_iff _ _ (by omega), Bool.not_eq_true']
    exact ⟨fun h => h.1, fun h => ⟨h, hstores⟩⟩

/-- **A data PDU that fills the region.** -/
theorem loudCall_data (x : UInt8) (c : Channel) (sn : UInt8) {r : Nat}
    (hlow : 2 * c.near.headerSize + 7 ≤ r) (hhigh : r ≤ 2047) :
    (loudCall c (loudLlc x c sn [] []) r).pdus ≠ [] ∧
      (loudCall c (loudLlc x c sn [] []) r).pdcp.2 = !c.allowReordering ∧
      (loudCall c (loudLlc x c sn [] []) r).fault = (c.near.config.mode == .am &&
        !decide ((loudLlc x c sn [] []).SnInRange c.near.snRingSize sn ∧
          r - 2 * c.near.headerSize ≤ llcMaxSize)) := by
  unfold TxHalf.headerSize at *
  obtain ⟨region, hregion, hsent⟩ := Llc.onTx_data checkedPdcp_ok (l := loudLlc x c sn [] []) rfl
    (fun _ => rfl) rfl rfl (loudPdcp c, false) (wholeRegion r) rfl
    (show 2 * (3 + c.near.crcSize) ≤ r by omega) hhigh
  change region.length = r - 2 * (3 + c.near.crcSize) at hregion
  obtain ⟨hfills, hfault⟩ := loudPdcp_fills c ⟨region, 0, false⟩
    (show 7 ≤ region.length by omega) (show region.length ≤ 2047 by omega)
  have hdata := hsent region.length (hfills.trans (Nat.zero_add _)) (by omega)
  refine ⟨hdata.pdus, (congrArg Prod.snd hdata.pdcp).trans hfault, ?_⟩
  rw [← hregion]
  exact hdata.fault

/-- What a loud LLC hosts. -/
theorem hosted_loud (x : UInt8) (c : Channel) (sn : UInt8) (acks : List (Nat × Nat))
    (retx : List RetxElem) (hacks : c.far.config.mode ≠ .am → acks = [])
    (hretx : c.near.config.mode ≠ .am → retx = []) :
    Hosted x c (loudLlc x c sn acks retx) (loudPdcp c) :=
  ⟨rfl, rfl, rfl, rfl, hretx, hacks, rfl⟩

/-- What a region filled by channel `x` needs. -/
theorem DemuxFaithful.data (h : DemuxFaithful channels n) (hlow : 64 ≤ n) (hhigh : n ≤ 2047)
    (hx : channels x = some c) :
    x.toNat < 16 ∧ c.allowReordering = true ∧ (c.near.config.mode = .am →
      c.near.Resolves ∧ n ≤ 2 * c.near.headerSize + llcMaxSize) := by
  have hcrc := c.near.crcSize_cases
  have hheader : c.near.headerSize = 3 + c.near.crcSize := rfl
  have hcall : ∀ sn, CallFaithful channels x (loudCall c (loudLlc x c sn [] []) n) := fun sn =>
    h.call hhigh hx (hosted_loud x c sn [] [] (fun _ => rfl) (fun _ => rfl)) rfl (fun _ => rfl)
      (by omega) (Nat.le_refl n)
  have hdata := fun sn => loudCall_data x c sn (r := n) (by omega) hhigh
  refine ⟨?_, ?_, fun hmode => ?_⟩
  · -- the identifier in the header has four bits
    obtain ⟨pdu, others, hcons⟩ := List.exists_cons_of_ne_nil (hdata 0).1
    have hlt := processRxFrame_lcid_lt { llcs := peerOf channels }
      ((loudCall c (loudLlc x c 0 [] []) n).frame.take
        (loudCall c (loudLlc x c 0 [] []) n).outAllocated)
      (fun _ hmem => (List.not_mem_nil hmem).elim) (x, pdu)
    rw [(hcall 0).dispatched, hcons] at hlt
    exact hlt (List.mem_cons_self ..)
  · have hfault := (hdata 0).2.1
    rw [(hcall 0).pdcp] at hfault
    rwa [eq_comm, Bool.not_eq_false'] at hfault
  · have hin : ∀ sn, (loudLlc x c sn [] []).SnInRange c.near.snRingSize sn ∧
        n - 2 * c.near.headerSize ≤ llcMaxSize := by
      intro sn
      have hfault := (hdata sn).2.2
      rw [(hcall sn).sent, hmode, beq_self_eq_true, Bool.true_and, eq_comm, Bool.not_eq_false',
        decide_eq_true_iff] at hfault
      exact hfault
    refine ⟨(Llc.all_snInRange_iff _ (loudLlc x c 0 [] [])).mp fun sn => (hin sn).1, ?_⟩
    have hpayload := (hin 0).2
    omega

/-! ## A region with an ACK PDU -/

/-- The ACK PDU of an LLC with one entry, in a region with room for it. -/
theorem ackStage_one {l : Llc} {ack : Nat × Nat} (hacks : l.toAckList = [ack])
    (pdcp : PdcpTx × Bool) {r : Nat} (hroom : 3 + l.txCrcSize + 2 ≤ r) :
    ∃ p : LlcPdu, p.getHeaderSize = 3 + l.txCrcSize ∧ p.base.length = r ∧
      (l.ackStage pdcp (wholeRegion r).info).pdus =
        [(l.ackPdu p [ack]).base.take (l.ackPdu p [ack]).getSIZE] ∧
      (l.ackStage pdcp (wholeRegion r).info).owner.toRetxList = l.toRetxList ∧
      (l.ackStage pdcp (wholeRegion r).info).outSize = r - (3 + l.txCrcSize) - 2 := by
  have htaken : Llc.takeAcks [ack] (r - (3 + l.txCrcSize)) = [ack] := by
    unfold Llc.takeAcks Llc.takeAcks
    rw [if_pos (by omega)]
  have hempty : (l.startTx pdcp (wholeRegion r).info).owner.toAckList.isEmpty = false := by
    show l.toAckList.isEmpty = false
    rw [hacks]
    rfl
  refine ⟨(l.startTx pdcp (wholeRegion r).info).llc, rfl, List.length_replicate, ?_, ?_, ?_⟩
  all_goals
    unfold Llc.ackStage TxState.allocateAcks
    dsimp only
    rw [hempty, if_neg Bool.false_ne_true,
      show (l.startTx pdcp (wholeRegion r).info).owner.toAckList = [ack] from hacks,
      show Llc.takeAcks [ack] ((l.startTx pdcp (wholeRegion r).info).outSize -
        (l.startTx pdcp (wholeRegion r).info).llc.getHeaderSize) = [ack] from htaken]
    rfl

/-- A call with one entry to acknowledge, in a region with room for its ACK PDU only. -/
theorem loudCall_ack (x : UInt8) (c : Channel) (ack : Nat × Nat) :
    ∃ (p : LlcPdu) (pdu : List UInt8), p.getHeaderSize = c.near.headerSize ∧
      p.base.length = c.near.headerSize + 2 ∧
      pdu = ((loudLlc x c 0 [ack] []).ackPdu p [ack]).base.take
        ((loudLlc x c 0 [ack] []).ackPdu p [ack]).getSIZE ∧
      IsPdu x c.near.headerSize pdu ∧
      (loudCall c (loudLlc x c 0 [ack] []) (c.near.headerSize + 2)).pdus = [pdu] ∧
      (loudCall c (loudLlc x c 0 [ack] []) (c.near.headerSize + 2)).frame.take
        (loudCall c (loudLlc x c 0 [ack] []) (c.near.headerSize + 2)).outAllocated = pdu := by
  have hcrc := c.near.crcSize_cases
  have hheader : c.near.headerSize = 3 + c.near.crcSize := rfl
  generalize hl : loudLlc x c 0 [ack] [] = l
  have hlocals : l.isTxEnabled = true ∧ (∀ i, (l.txRing i).acknowledged = true) ∧
      l.toAckList = [ack] ∧ l.txCrcSize = c.near.crcSize ∧ l.lcid = x := by
    rw [← hl]
    exact ⟨rfl, fun _ => rfl, rfl, rfl, rfl⟩
  obtain ⟨hen, hring, hacks, hsize, hlcid⟩ := hlocals
  rw [hheader, ← hsize]
  obtain ⟨p, hp, hbase, hpdus, -, hrest⟩ := ackStage_one hacks (loudPdcp c, false)
    (r := 3 + l.txCrcSize + 2) (Nat.le_refl _)
  have hfilled := TxState.ackStage_filled l (loudPdcp c, false)
    (wholeRegion (3 + l.txCrcSize + 2)).info rfl
    (show 3 + l.txCrcSize < 3 + l.txCrcSize + 2 by omega) (wholeRegion _).fits
    (show 3 + l.txCrcSize + 2 ≤ 2047 by omega)
  have hlaid := l.onTx_laidOut checkedPdcp_ok (loudPdcp c, false)
    (wholeRegion (3 + l.txCrcSize + 2)).info rfl (wholeRegion _).fits
    (show 3 + l.txCrcSize + 2 ≤ 2047 by omega)
  have hres : loudCall c l (3 + l.txCrcSize + 2) =
      (l.ackStage (loudPdcp c, false) (wholeRegion (3 + l.txCrcSize + 2)).info).informOnly
        checkedPdcp := by
    rcases Llc.onTx_of_acknowledged checkedPdcp hen hring (loudPdcp c, false)
      (show 3 + l.txCrcSize < (wholeRegion (3 + l.txCrcSize + 2)).info.outSize from
        Nat.lt_add_of_pos_right (by decide)) with ⟨-, h⟩ | ⟨hspace, -, -⟩
    · exact h
    · rw [hfilled.header, hrest] at hspace
      omega
  have hwritten : (loudCall c l (3 + l.txCrcSize + 2)).pdus =
      [(l.ackPdu p [ack]).base.take (l.ackPdu p [ack]).getSIZE] := by
    rw [hres]
    exact hpdus
  have htake := hlaid.take (by
    change (loudCall c l (3 + l.txCrcSize + 2)).rlf = false
    rw [hres]
    exact hfilled.rlf)
  have hpdu := hlaid.pdus
  change ∀ pdu ∈ (loudCall c l (3 + l.txCrcSize + 2)).pdus, _ at hpdu
  rw [hwritten, hlcid] at hpdu
  refine ⟨p, _, hp, hbase, rfl, hpdu _ (List.mem_singleton_self _), hwritten, htake.trans ?_⟩
  change (loudCall c l (3 + l.txCrcSize + 2)).pdus.flatten = _
  rw [hwritten, List.flatten_singleton]

/-- What an ACK PDU for a peer with AM needs. -/
theorem DemuxFaithful.acks (h : DemuxFaithful channels n) (hlow : 64 ≤ n) (hhigh : n ≤ 2047)
    (hx : channels x = some c) (hlcid : x.toNat < 16) (hfar : c.far.config.mode = .am) :
    c.far.Resolves := by
  have hcrc := c.near.crcSize_cases
  have hheader : c.near.headerSize = 3 + c.near.crcSize := rfl
  have hl : peerOf channels x = some (peerLlc x c) := by
    unfold peerOf
    rw [hx, Option.map_some]
  have hin : ∀ sn, (peerLlc x c).SnInRange c.far.snRingSize sn := by
    intro sn
    have hhosted := hosted_loud x c 0 [(sn.toNat, 1)] []
      (fun hne => absurd hfar hne) (fun _ => rfl)
    have hcall := h.call hhigh hx hhosted rfl (fun _ => rfl) (r := c.near.headerSize + 2)
      (by omega) (by omega)
    obtain ⟨p, pdu, hp, hbase, hpdu, hkind, -, htake⟩ := loudCall_ack x c (sn.toNat, 1)
    have hwritten : ChannelPdu channels (x, pdu) := ⟨⟨c, hx, hkind, fun hne => absurd hfar hne⟩⟩
    obtain ⟨l, hsome, hstep⟩ := walkStep_pdu hwritten hlcid { llcs := peerOf channels }
      (samePeer_peerOf channels) []
    dsimp only at hsome
    rw [hl] at hsome
    cases hsome
    have hreceived := hcall.received
    dsimp only at hstep
    rw [List.append_nil] at hstep
    rw [htake, processRxFrame_of_some hstep, processRxFrame_nil] at hreceived
    rw [Bool.false_or, Llc.onRx_ok_iff] at hreceived
    have hone : ∀ ack ∈ [(sn.toNat, 1)], ack.2 < 256 := by
      intro ack hmem
      rw [List.mem_singleton.mp hmem]
      exact (show 1 < 256 by decide)
    have hacked := ackedNumbers_ackPdu hhosted.sized hp
      (by rw [hbase, hp]; exact Nat.le_refl _)
      (by rw [hp]; show c.near.headerSize + 2 < 2048; omega) hone
      (show (peerLlc x c).rxConfig.crcType = c.near.config.crcType from rfl) rfl rfl hpdu
    refine hreceived sn ?_
    rw [hacked]
    show sn ∈ [UInt8.ofNat sn.toNat + 0]
    rw [UInt8.ofNat_toNat, UInt8.add_zero]
    exact List.mem_singleton_self sn
  exact (Llc.all_snInRange_iff _ (peerLlc x c)).mp hin

/-! ## A retransmission that fails -/

/-- A retransmission that has been sent as often as it may. -/
def lastRetx (c : Channel) : RetxElem where
  retryCount := c.near.config.maxRetxCount
  pdcpPdu := [0]

/-- The call writes its ACK PDU, reports the failure, and allocates nothing. -/
theorem loudCall_fails (x : UInt8) {c : Channel} (hrlf : c.near.config.allowRlf = true) :
    (loudCall c (loudLlc x c 0 [(0, 1)] [lastRetx c]) 64).outAllocated = 0 ∧
      (loudCall c (loudLlc x c 0 [(0, 1)] [lastRetx c]) 64).pdus ≠ [] := by
  have hcrc := c.near.crcSize_cases
  generalize hl : loudLlc x c 0 [(0, 1)] [lastRetx c] = l
  have hlocals : l.isTxEnabled = true ∧ (∀ i, (l.txRing i).acknowledged = true) ∧
      l.toAckList = [(0, 1)] ∧ l.txCrcSize = c.near.crcSize ∧ l.toRetxList = [lastRetx c] ∧
      l.txConfig = c.near.config := by
    rw [← hl]
    exact ⟨rfl, fun _ => rfl, rfl, rfl, rfl, rfl⟩
  obtain ⟨hen, hring, hacks, hsize, hretx, hconfig⟩ := hlocals
  obtain ⟨p, -, -, hpdus, hkept, hrest⟩ := ackStage_one hacks (loudPdcp c, false) (r := 64)
    (by omega)
  have hfilled := TxState.ackStage_filled l (loudPdcp c, false) (wholeRegion 64).info rfl
    (show 3 + l.txCrcSize < 64 by omega) (wholeRegion _).fits (show 64 ≤ 2047 by decide)
  have hheader := hfilled.header
  have hsetup := hfilled.setup.txConfig
  unfold loudCall
  rcases Llc.onTx_of_acknowledged checkedPdcp hen hring (loudPdcp c, false)
    (show 3 + l.txCrcSize < (wholeRegion 64).info.outSize from show _ < 64 by omega) with
    ⟨hno, -⟩ | ⟨-, -, h⟩
  · rcases hno with hshort | hno
    · omega
    · cases hno
  · rw [h]
    rcases (l.ackStage (loudPdcp c, false) (wholeRegion 64).info).allocateData_cases checkedPdcp
      (wholeRegion 64).info.slotNumber with ⟨hnil, -⟩ | ⟨retx, others, hcons, hways⟩
    · rw [hkept, hretx] at hnil
      cases hnil
    · rw [hkept, hretx] at hcons
      cases hcons
      rcases hways with ⟨hlong, -⟩ | ⟨-, -, -, hres⟩ | ⟨-, hno, -⟩ | ⟨hcount, -, -⟩
      · change (l.ackStage (loudPdcp c, false) (wholeRegion 64).info).outSize -
          (l.ackStage (loudPdcp c, false) (wholeRegion 64).info).llc.getHeaderSize < 1 at hlong
        omega
      · rw [hres]
        refine ⟨rfl, ?_⟩
        show (l.ackStage (loudPdcp c, false) (wholeRegion 64).info).pdus ≠ []
        rw [hpdus]
        exact List.cons_ne_nil _ _
      · rw [hsetup, hconfig, hrlf] at hno
        cases hno
      · rw [hsetup, hconfig] at hcount
        exact absurd hcount (Nat.not_succ_le_self _)

/-- What an ACK PDU of a channel with AM needs. -/
theorem DemuxFaithful.keeps (h : DemuxFaithful channels n) (hlow : 64 ≤ n) (hhigh : n ≤ 2047)
    (hx : channels x = some c) (hnear : c.near.config.mode = .am)
    (hfar : c.far.config.mode = .am) : c.near.config.allowRlf = false := by
  by_contra hrlf
  rw [Bool.not_eq_false] at hrlf
  have hcall := h.call hhigh hx (hosted_loud x c 0 [(0, 1)] [lastRetx c]
    (fun hne => absurd hfar hne) (fun hne => absurd hnear hne)) rfl (fun _ => rfl) (r := 64)
    (by decide) hlow
  obtain ⟨halloc, hpdus⟩ := loudCall_fails x hrlf
  have hdispatched := hcall.dispatched
  rw [halloc, List.take_zero, processRxFrame_nil] at hdispatched
  exact hpdus (List.map_eq_nil_iff.mp hdispatched.symm)

/-! ## The plain channels -/

end Winject.TxScheduler
