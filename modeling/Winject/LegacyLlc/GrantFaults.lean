import Winject.LegacyLlc.GrantLayout
import Winject.LegacyLlc.RingBounds

/-!
# Grants in every configuration

`on_tx` numbers its data PDUs without a look at `sn_ring`: for an acknowledged channel it
divides by the current `arq_window_size` and stores into the element of the remainder, of
which there are as many as the window of the constructor.  A run ends with a call that does
so by zero or behind the end (`callAll` has no result).

The PDCP may be another one in every call: `AnyPdcp` is an answer to `on_tx` that allocates
at most what it is offered.

## Main results

* `onTx_inside` — when no number and no payload is out of range, a call is no fault.
* `grants_wellFormed_iff` — the configurations in which every grant is well formed.
-/

namespace Winject.LegacyLlc

open Winject.Frames
open Winject.Lib.Bytes

/-! ## A call that stays inside -/

/-- Every number of an acknowledged channel has an element of `sn_ring`, and the payload of a
data PDU of `size` bytes fits into a buffer. -/
def Llc.StaysInside (l : Llc) (size : Nat) : Prop :=
  l.txConfig.mode = .am →
    (∀ sn, l.SnInRange l.snRingSize sn) ∧ size ≤ 3 + l.txCrcSize + llcMaxSize

theorem Llc.StaysInside.of_setup {l l' : Llc} {size : Nat} (h : l.StaysInside size)
    (hsetup : l.SameSetup l') : l'.StaysInside size := by
  unfold StaysInside SnInRange snRingIndex at h ⊢
  rw [hsetup.txConfig, hsetup.snRingSize, hsetup.txCrcSize]
  exact h

namespace TxState

variable {π : Type} {pdcpOnTx : π → LegacyPdcp.TxInfo → π × LegacyPdcp.TxInfo}
  {l : Llc} {n g k : Nat} {s : TxState π}

/-- A data PDU is a fault iff its bookkeeping is. -/
theorem finish_fault {initAlloc : Nat} (hsome : initAlloc ≠ s.outAllocated) (slotNumber : Nat)
    (retx : Option Nat) (retxCount : Nat) :
    (s.finish slotNumber initAlloc retx retxCount).fault =
      (s.fault || (s.owner.txConfig.mode == .am && !decide (s.owner.RecordsInside
        (s.owner.writeCrc (s.llc.setSN s.owner.snCounter)).getSN
        (((s.owner.writeCrc (s.llc.setSN s.owner.snCounter)).base.drop
          (s.owner.writeCrc (s.llc.setSN s.owner.snCounter)).getHeaderSize).take
          (s.owner.writeCrc (s.llc.setSN s.owner.snCounter)).getPayloadSize)))) := by
  unfold TxState.finish
  rw [if_neg hsome]

/-- The payload of the finished PDU. -/
theorem Loaded.getPayloadSize (h : s.Loaded l n g k) :
    (s.owner.writeCrc (s.llc.setSN s.owner.snCounter)).getPayloadSize = k % 65536 := by
  obtain ⟨hSIZE, -, -, hheader⟩ := writeCrc_fields s.owner (s.llc.setSN s.owner.snCounter)
  rw [LlcPdu.getSIZE_setSN, h.size] at hSIZE
  rw [show (s.llc.setSN s.owner.snCounter).getHeaderSize = s.llc.getHeaderSize from rfl,
    h.header] at hheader
  unfold LlcPdu.getPayloadSize
  omega

/-- The end of a call behind a payload. -/
theorem Loaded.finish_inside (h : s.Loaded l n g k) {size : Nat} (hin : l.StaysInside size)
    (hsize : g ≤ s.front.length + size) (hok : s.fault = false) (slotNumber initAlloc : Nat)
    (retx : Option Nat) (retxCount : Nat) :
    (s.finish slotNumber initAlloc retx retxCount).fault = false := by
  by_cases hnone : initAlloc = s.outAllocated
  · unfold TxState.finish
    rw [if_pos hnone]
    exact hok
  · rw [finish_fault hnone, hok, Bool.false_or]
    by_cases hmode : s.owner.txConfig.mode = .am
    · obtain ⟨hrange, hmax⟩ := hin.of_setup h.setup hmode
      have hcrc := h.setup.txCrcSize
      have hroom := h.room
      have hpayload := h.getPayloadSize
      rw [decide_eq_true ⟨hrange _, (List.length_take_le _ _).trans (by omega)⟩]
      exact Bool.and_false _
    · rw [beq_false_of_ne hmode]
      rfl

/-- The data PDU, in what is left of the grant. -/
theorem Filled.allocateData_inside (hp : PdcpOnTxOk pdcpOnTx) (h : s.Filled l n g)
    (hmax : g ≤ 2047) (hfit : g ≤ n) (hroom : s.llc.getHeaderSize ≤ s.outSize)
    (hin : l.StaysInside s.outSize) (hok : s.fault = false) (slotNumber : Nat) :
    (s.allocateData pdcpOnTx slotNumber).fault = false := by
  have hbound := h.room
  -- what is left is the whole of a smaller grant
  have htight : s.Filled l n (s.front.length + s.outSize) := { h with room := le_refl _ }
  obtain ⟨hstart, hlcid, hspace⟩ := htight.startData hroom (hbound.trans hfit)
  have hpop : ∀ others, (s.startData.popRetx others).Filled l n (s.front.length + s.outSize) :=
    fun others =>
      { hstart with setup := hstart.setup.trans ⟨rfl, rfl, rfl, rfl, rfl, rfl, rfl, rfl⟩ }
  rcases s.allocateData_cases pdcpOnTx slotNumber with ⟨-, hres⟩ |
    ⟨retx, others, -, ⟨-, hres⟩ | ⟨-, -, -, hres⟩ | ⟨-, -, hres⟩ | ⟨-, hpdu, hres⟩⟩
  · obtain ⟨k, hload, hfront⟩ := hstart.loadPdcp hp (hbound.trans hmax) (hbound.trans hfit) hlcid
      hspace
    rw [hres]
    exact hload.finish_inside hin (by rw [hfront]; exact le_refl _) hok _ _ _ _
  · rw [hres]
    exact hok
  · rw [hres]
    exact hok
  · obtain ⟨k, hload, hfront⟩ := (hpop others).loadPdcp hp (hbound.trans hmax)
      (hbound.trans hfit) hlcid hspace
    rw [hres]
    exact hload.finish_inside hin (by rw [hfront]; exact le_refl _) hok _ _ _ _
  · obtain ⟨hload, hfront⟩ := (hpop others).loadRetx hp (hbound.trans hmax) (hbound.trans hfit)
      hlcid hspace hpdu
    rw [hres]
    exact hload.finish_inside hin (by rw [hfront]; exact le_refl _) hok _ _ _ _

theorem ackStage_fault (l : Llc) (pdcp : π) (info : TxInfo) :
    (l.ackStage pdcp info).fault = false := by
  unfold Llc.ackStage allocateAcks
  dsimp only
  split_ifs <;> rfl

/-- A header is taken from the grant, whether there is an ACK PDU or not. -/
theorem ackStage_outSize_le (l : Llc) (pdcp : π) (info : TxInfo) :
    (l.ackStage pdcp info).outSize ≤ info.outSize - (3 + l.txCrcSize) := by
  unfold Llc.ackStage allocateAcks
  dsimp only
  split_ifs
  · exact le_refl _
  · exact Nat.sub_le _ _

end TxState

/-- **A call stays inside its arrays** where every number and every payload does. -/
theorem Llc.onTx_inside {π : Type}
    {pdcpOnTx : π → LegacyPdcp.TxInfo → π × LegacyPdcp.TxInfo} (hp : PdcpOnTxOk pdcpOnTx)
    {l : Llc} (pdcp : π) (grant : Grant) (hmax : grant.size ≤ 2047)
    (hin : l.StaysInside (grant.size - (3 + l.txCrcSize))) :
    (l.onTx pdcpOnTx pdcp grant.info).fault = false := by
  have hcheck := l.checkRetransmit_setup grant.info.slotNumber
  rcases l.onTx_cases pdcpOnTx pdcp grant.info with ⟨-, h⟩ | ⟨-, -, h⟩ |
    ⟨-, hsize, s, rfl, ⟨-, h⟩ | ⟨hroom, -, h⟩⟩
  · rw [h]
    rfl
  · rw [h]
    rfl
  · rw [h]
    exact TxState.ackStage_fault _ pdcp grant.info
  · rw [h]
    rw [← hcheck.txCrcSize] at hsize hin
    have hleft := TxState.ackStage_outSize_le (l.checkRetransmit grant.info.slotNumber) pdcp
      grant.info
    refine (TxState.ackStage_filled _ pdcp grant.info rfl hsize grant.fits hmax).allocateData_inside
      hp hmax grant.fits hroom (fun hmode => ?_) (TxState.ackStage_fault _ pdcp grant.info) _
    obtain ⟨hrange, hpayload⟩ := hin.of_setup hcheck hmode
    exact ⟨hrange, hleft.trans hpayload⟩

/-! ## One data PDU -/

/-- What a call with one new data PDU leaves, of `k` bytes of payload. -/
structure TxState.DataSent {π : Type} (l : Llc) (pdcp : π) (k : Nat) (s : TxState π) : Prop where
  snCounter : s.owner.snCounter = l.snCounter + 1
  pdcp : s.pdcp = pdcp
  pdus : s.pdus ≠ []
  fault : s.fault = (l.txConfig.mode == .am &&
    !decide (l.SnInRange l.snRingSize l.snCounter ∧ k ≤ llcMaxSize))

/-- The end of a call behind a payload, with nothing in front of it. -/
theorem TxState.Loaded.finish_sent {π : Type} {l : Llc} {n g k : Nat} {s : TxState π}
    (h : s.Loaded l n g k) (hmax : g ≤ 2047) (hfit : g ≤ n) (howner : s.owner = l)
    (hfront : s.front = []) (hok : s.fault = false) (hsome : k ≠ 0) (slotNumber : Nat) :
    (s.finish slotNumber 0 none 0).DataSent l s.pdcp k := by
  have hroom := h.room
  have hbase := h.length
  have halloc := h.allocated
  have hpayload := h.getPayloadSize
  obtain ⟨-, -, hlen, hheader⟩ := writeCrc_fields s.owner (s.llc.setSN s.owner.snCounter)
  rw [show (s.llc.setSN s.owner.snCounter).getHeaderSize = s.llc.getHeaderSize from rfl,
    h.header] at hheader
  rw [show (s.llc.setSN s.owner.snCounter).base.length = s.llc.base.length from
    LlcPdu.set_length ..] at hlen
  rw [hfront, List.length_nil, Nat.zero_add] at hroom hbase halloc
  have hne : 0 ≠ s.outAllocated := by omega
  have hkept : (((s.owner.writeCrc (s.llc.setSN s.owner.snCounter)).base.drop
      (s.owner.writeCrc (s.llc.setSN s.owner.snCounter)).getHeaderSize).take
      (s.owner.writeCrc (s.llc.setSN s.owner.snCounter)).getPayloadSize).length = k := by
    rw [List.length_take, List.length_drop, hpayload, hheader, hlen]
    omega
  constructor
  · unfold TxState.finish
    rw [if_neg hne, ← howner]
    dsimp only
    split_ifs <;> rfl
  · unfold TxState.finish
    rw [if_neg hne]
  · unfold TxState.finish
    rw [if_neg hne]
    exact List.append_ne_nil_of_right_ne_nil _ (List.cons_ne_nil _ _)
  · rw [TxState.finish_fault hne, hok, Bool.false_or, getSN_writeCrc, getSN_setSN (by omega)]
    unfold Llc.RecordsInside
    rw [howner] at hkept
    simp only [howner, hkept]

/-- **A call with one new data PDU**: there is nothing to acknowledge and nothing to retransmit,
and the PDCP is offered what two headers leave of the grant. -/
theorem Llc.onTx_data {π : Type} {pdcpOnTx : π → LegacyPdcp.TxInfo → π × LegacyPdcp.TxInfo}
    (hp : PdcpOnTxOk pdcpOnTx) {l : Llc} (hen : l.isTxEnabled = true)
    (hring : ∀ i, (l.txRing i).acknowledged = true) (hacks : l.toAckList = [])
    (hretx : l.toRetxList = []) (pdcp : π) (grant : Grant) (hallow : grant.allowData = true)
    (hroom : 2 * (3 + l.txCrcSize) ≤ grant.size) (hmax : grant.size ≤ 2047) :
    ∃ region : List UInt8, region.length = grant.size - 2 * (3 + l.txCrcSize) ∧
      ∀ k, (pdcpOnTx pdcp ⟨region, 0, grant.txAvailable⟩).2.outAllocated = k → k ≠ 0 →
        (l.onTx pdcpOnTx pdcp grant.info).DataSent l
          (pdcpOnTx pdcp ⟨region, 0, grant.txAvailable⟩).1 k := by
  rw [onTx_of_quiet pdcpOnTx hen hring hacks hretx pdcp grant.info hallow
    (show 3 + l.txCrcSize + (3 + l.txCrcSize) ≤ grant.size by omega)]
  generalize hs : ({ l.startTx pdcp grant.info with
    outSize := grant.info.outSize - (3 + l.txCrcSize) } : TxState π) = s
  have hstart := TxState.startTx_filled l pdcp grant.info rfl
  have hsize : s.outSize = grant.size - (3 + l.txCrcSize) := by
    rw [← hs]
    rfl
  have hfilled : s.Filled l grant.buffer.length grant.size := by
    rw [← hs]
    refine { hstart with room := ?_ }
    show 0 + (grant.size - (3 + l.txCrcSize)) ≤ grant.size
    omega
  have hlocals : s.owner = l ∧ s.pdcp = pdcp ∧ s.front = [] ∧ s.fault = false ∧
      s.outAllocated = 0 ∧ s.outTxAvailable = grant.txAvailable := by
    rw [← hs]
    exact ⟨rfl, rfl, rfl, rfl, rfl, rfl⟩
  obtain ⟨howner, hpdcp, hfront, hfault, hfree, havail⟩ := hlocals
  have hheader := hfilled.header
  obtain ⟨hdata, hlcid, hspace⟩ := hfilled.startData (by omega) grant.fits
  have hrest : s.startData.outSize = grant.size - 2 * (3 + l.txCrcSize) := by
    show s.outSize - s.llc.getHeaderSize = _
    omega
  have hbase := hdata.length
  rw [show s.startData.front = s.front from rfl, hfront, List.length_nil, Nat.zero_add] at hbase
  have hfits := grant.fits
  have hdataHeader := hdata.header
  refine ⟨(s.startData.llc.base.drop s.startData.llc.getHeaderSize).take s.startData.outSize,
    ?_, fun k hk hsome => ?_⟩
  · rw [List.length_take, List.length_drop]
    omega
  · obtain ⟨k', hload, hkeep⟩ := hdata.loadPdcp hp hmax grant.fits hlcid hspace
    have halloc := hload.allocated
    rw [hkeep, show s.startData.front = s.front from rfl, hfront, List.length_nil,
      Nat.zero_add] at halloc
    have hcall : (s.startData.loadPdcp pdcpOnTx).outAllocated = k := by
      unfold TxState.loadPdcp TxState.callPdcp
      rw [← hk, ← hpdcp, ← havail, ← hfree]
      rfl
    have hpdcp' : (s.startData.loadPdcp pdcpOnTx).pdcp = (pdcpOnTx pdcp
        ⟨(s.startData.llc.base.drop s.startData.llc.getHeaderSize).take s.startData.outSize, 0,
          grant.txAvailable⟩).1 := by
      unfold TxState.loadPdcp TxState.callPdcp
      rw [← hpdcp, ← havail, ← hfree]
      rfl
    obtain rfl : k' = k := halloc.symm.trans hcall
    rw [← hpdcp']
    exact hload.finish_sent hmax grant.fits howner (hkeep.trans hfront) hfault hsome _

/-! ## Runs without a fault -/

/-- A PDCP in one call: what it leaves in `tx_info`.  It writes into what it is offered only,
and allocates no more of it than there is. -/
structure AnyPdcp where
  onTx : LegacyPdcp.TxInfo → LegacyPdcp.TxInfo
  length : ∀ info, info.outPdu.length ≤ 32767 → (onTx info).outPdu.length = info.outPdu.length
  grows : ∀ info, info.outPdu.length ≤ 32767 → info.outAllocated ≤ (onTx info).outAllocated
  fits : ∀ info, info.outPdu.length ≤ 32767 →
    (onTx info).outAllocated ≤ info.outAllocated + info.outPdu.length

namespace AnyPdcp

/-- The call of `on_tx`. -/
def call (pdcp : AnyPdcp) (info : LegacyPdcp.TxInfo) : AnyPdcp × LegacyPdcp.TxInfo :=
  (pdcp, pdcp.onTx info)

theorem call_ok : PdcpOnTxOk call where
  length pdcp info h := pdcp.length info h
  grows pdcp info h := pdcp.grows info h
  fits pdcp info h := pdcp.fits info h

/-- The PDCP of this repository, in a state of it. -/
def ofPdcpTx (t : LegacyPdcp.PdcpTx) : AnyPdcp where
  onTx info := (t.onTx info).2
  length := pdcpOnTx_ok.length t
  grows := pdcpOnTx_ok.grows t
  fits := pdcpOnTx_ok.fits t

/-- One byte, wherever there is room for one. -/
def oneByte : AnyPdcp where
  onTx info := { info with outAllocated := info.outAllocated + min 1 info.outPdu.length }
  length _ _ := rfl
  grows _ _ := Nat.le_add_right _ _
  fits _ _ := Nat.add_le_add_left (Nat.min_le_right _ _) _

end AnyPdcp

namespace Llc

/-- The call divides by zero or goes behind the end of an array. -/
def faults (l : Llc) : Call AnyPdcp → Bool
  | .onTx pdcp grant => (l.onTx AnyPdcp.call pdcp grant.info).fault
  | .onRx info => (l.onRx info).fault
  | .reconfigureTx _ | .reconfigureRx _ | .setTxEnabled _ | .setRxEnabled _ => false

/-- The LLC behind a call that is no fault. -/
def callChecked (l : Llc) (c : Call AnyPdcp) : Option Llc :=
  if l.faults c then none else some (l.call AnyPdcp.call c)

/-- The LLC behind some calls, if none of them is a fault. -/
def callAll (l : Llc) (calls : List (Call AnyPdcp)) : Option Llc := calls.foldlM callChecked l

/-- The call does not set the window. -/
def KeepsWindow : Call AnyPdcp → Prop
  | .reconfigureTx _ => False
  | .reconfigureRx _ | .setTxEnabled _ | .setRxEnabled _ | .onTx _ _ | .onRx _ => True

/-- Every grant of at most `llc_max_size` bytes, whatever the PDCP answers, is no fault and
well formed. -/
def GrantsWellFormed (l : Llc) : Prop :=
  ∀ (pdcp : AnyPdcp) (grant : Grant), grant.size ≤ llcMaxSize →
    (l.onTx AnyPdcp.call pdcp grant.info).fault = false ∧
      GrantWellFormed l grant (l.onTx AnyPdcp.call pdcp grant.info)

/-- So are those of every run that keeps the window. -/
def StaysWellFormed (l : Llc) : Prop :=
  ∀ later l', (∀ c ∈ later, KeepsWindow c) → l.callAll later = some l' → l'.GrantsWellFormed

theorem callAll_append {l l' : Llc} {calls : List (Call AnyPdcp)} (h : l.callAll calls = some l')
    (later : List (Call AnyPdcp)) : l.callAll (calls ++ later) = l'.callAll later := by
  unfold callAll at h ⊢
  rw [List.foldlM_append, h]
  rfl

theorem callChecked_of_ok {l : Llc} {c : Call AnyPdcp} (h : l.faults c = false) :
    l.callChecked c = some (l.call AnyPdcp.call c) := if_neg (ne_true_of_eq_false h)

/-- A run without a fault is a run. -/
theorem callAll_eq {l l' : Llc} {calls : List (Call AnyPdcp)} (h : l.callAll calls = some l') :
    l' = calls.foldl (call AnyPdcp.call) l := by
  induction calls generalizing l with
  | nil => exact (Option.some.inj h).symm
  | cons c calls ih =>
      change (callChecked l c >>= fun l => callAll l calls) = some l' at h
      unfold callChecked at h
      split_ifs at h
      · cases h
      · exact ih h

/-- What does not set the window keeps the mode, the window and the ring. -/
theorem call_keeps (l : Llc) {c : Call AnyPdcp} (hc : KeepsWindow c) :
    (l.call AnyPdcp.call c).txConfig = l.txConfig ∧
      (l.call AnyPdcp.call c).snRingSize = l.snRingSize := by
  cases c with
  | reconfigureTx config => exact hc.elim
  | reconfigureRx config => exact ⟨rfl, rfl⟩
  | setTxEnabled value => exact ⟨rfl, rfl⟩
  | setRxEnabled value => exact ⟨rfl, rfl⟩
  | onTx pdcp grant =>
      have hsetup := l.onTx_setup AnyPdcp.call pdcp grant.info
      exact ⟨hsetup.txConfig, hsetup.snRingSize⟩
  | onRx info =>
      have hsetup := l.onRx_sameSetup info
      exact ⟨hsetup.txConfig, hsetup.snRingSize⟩

theorem foldl_keeps (calls : List (Call AnyPdcp)) (h : ∀ c ∈ calls, KeepsWindow c) (l : Llc) :
    (calls.foldl (call AnyPdcp.call) l).txConfig = l.txConfig ∧
      (calls.foldl (call AnyPdcp.call) l).snRingSize = l.snRingSize := by
  induction calls generalizing l with
  | nil => exact ⟨rfl, rfl⟩
  | cons c calls ih =>
      obtain ⟨hconfig, hring⟩ := l.call_keeps (h c (List.mem_cons_self ..))
      obtain ⟨hconfig', hring'⟩ := ih (fun d hd => h d (List.mem_cons_of_mem _ hd))
        (l.call AnyPdcp.call c)
      exact ⟨hconfig'.trans hconfig, hring'.trans hring⟩

/-- The ring has the size of the constructor's window, behind any calls. -/
theorem called_snRingSize (lcid : UInt8) (txConfig : TxConfig) (rxConfig : RxConfig)
    (calls : List (Call AnyPdcp)) :
    (called AnyPdcp.call lcid txConfig rxConfig calls).snRingSize = txConfig.arqWindowSize := by
  refine Lib.Runs.foldl_invariant (fun l : Llc => l.snRingSize = txConfig.arqWindowSize) ?_ calls
    _ rfl
  intro l c h
  cases c with
  | reconfigureTx config => exact h
  | reconfigureRx config => exact h
  | setTxEnabled value => exact h
  | setRxEnabled value => exact h
  | onTx pdcp grant => exact (l.onTx_setup AnyPdcp.call pdcp grant.info).snRingSize.trans h
  | onRx info => exact (l.onRx_sameSetup info).snRingSize.trans h

/-! ## One byte -/

/-- Room for two headers and some payload. -/
def sixteenBytes : Grant where
  slotNumber := 0
  buffer := List.replicate 16 0
  size := 16
  fits := by decide

/-- The LLC enables and sends one byte of its PDCP: the number goes on, and the call is a fault
iff the number has no element of `sn_ring`. -/
theorem oneByte_sent {l : Llc} (hl : l.Sized) (hmode : l.txConfig.mode = .am) :
    ((l.setTxEnabled true).onTx AnyPdcp.call .oneByte sixteenBytes.info).owner.snCounter =
        l.snCounter + 1 ∧
      (((l.setTxEnabled true).onTx AnyPdcp.call .oneByte sixteenBytes.info).fault = false →
        l.SnInRange l.snRingSize l.snCounter) := by
  have hring : ∀ i, ((l.setTxEnabled true).txRing i).acknowledged = true := by
    intro i
    unfold setTxEnabled
    dsimp only
    rw [if_pos hmode]
  have hcrc := hl.crcSize
  obtain ⟨region, hregion, hsent⟩ := onTx_data AnyPdcp.call_ok (l := l.setTxEnabled true) rfl
    hring rfl rfl AnyPdcp.oneByte sixteenBytes rfl
    (show 2 * (3 + l.txCrcSize) ≤ 16 by omega) (by decide)
  change region.length = 16 - 2 * (3 + l.txCrcSize) at hregion
  have hone := hsent 1 (by
    show 0 + min 1 region.length = 1
    omega) one_ne_zero
  refine ⟨hone.snCounter, fun hok => ?_⟩
  have hfault := hone.fault
  rw [hok, show ((l.setTxEnabled true).txConfig.mode == .am) = true from beq_iff_eq.mpr hmode,
    Bool.true_and, eq_comm, Bool.not_eq_false', decide_eq_true_iff] at hfault
  exact hfault.1

/-! ## The configurations -/

/-- One number more, in a run whose grants are no faults. -/
theorem next_number {l : Llc} (hl : l.Sized) (hmode : l.txConfig.mode = .am)
    (hok : (l.setTxEnabled true).GrantsWellFormed) :
    ∃ l', l.callAll [.setTxEnabled true, .onTx .oneByte sixteenBytes] = some l' ∧
      l'.snCounter = l.snCounter + 1 ∧ l.SnInRange l.snRingSize l.snCounter := by
  obtain ⟨hnext, hrange⟩ := oneByte_sent hl hmode
  have hfault := (hok AnyPdcp.oneByte sixteenBytes (by decide)).1
  refine ⟨_, ?_, hnext, hrange hfault⟩
  show (callChecked (l.setTxEnabled true) (.onTx AnyPdcp.oneByte sixteenBytes) >>= some) = _
  rw [callChecked_of_ok (c := .onTx AnyPdcp.oneByte sixteenBytes) hfault]
  rfl

/-- What a run that keeps the window leads to. -/
theorem StaysWellFormed.later {l l' : Llc} (h : l.StaysWellFormed) {calls : List (Call AnyPdcp)}
    (hkeeps : ∀ c ∈ calls, KeepsWindow c) (hcalls : l.callAll calls = some l') :
    l'.StaysWellFormed := by
  intro later l'' hlater hl''
  refine h (calls ++ later) l'' ?_ ((callAll_append hcalls later).trans hl'')
  intro c hc
  rcases List.mem_append.mp hc with hc | hc
  · exact hkeeps c hc
  · exact hlater c hc

/-- A number has an element of `sn_ring`, and some run comes to the next number. -/
theorem StaysWellFormed.next {l : Llc} (h : l.StaysWellFormed) (hl : l.Sized)
    (hmode : l.txConfig.mode = .am) :
    l.SnInRange l.snRingSize l.snCounter ∧
      ∃ l' : Llc, l'.StaysWellFormed ∧ l'.Sized ∧ l'.txConfig = l.txConfig ∧
        l'.snRingSize = l.snRingSize ∧ l'.snCounter = l.snCounter + 1 := by
  have hkeeps : ∀ c ∈ [Call.setTxEnabled true, .onTx AnyPdcp.oneByte sixteenBytes],
      KeepsWindow c := by
    intro c hc
    rcases List.mem_pair.mp hc with rfl | rfl <;> trivial
  have henabled : l.callAll [.setTxEnabled true] = some (l.setTxEnabled true) := rfl
  obtain ⟨l', hcalls, hnext, hrange⟩ := next_number hl hmode
    (h _ _ (fun c hc => hkeeps c (List.mem_of_mem_head? (by rw [List.mem_singleton.mp hc]; rfl)))
      henabled)
  have hfold := callAll_eq hcalls
  obtain ⟨hconfig, hring⟩ := foldl_keeps _ hkeeps l
  refine ⟨hrange, l', h.later hkeeps hcalls, ?_, ?_, ?_, hnext⟩
  · rw [hfold]
    exact Lib.Runs.foldl_invariant Sized (fun _ c hs => hs.call AnyPdcp.call c) _ l hl
  · rw [hfold]
    exact hconfig
  · rw [hfold]
    exact hring

/-- When every grant of every run is well formed, every number has an element of `sn_ring`. -/
theorem StaysWellFormed.inRange (k : Nat) {l : Llc} (h : l.StaysWellFormed) (hl : l.Sized)
    (hmode : l.txConfig.mode = .am) :
    l.SnInRange l.snRingSize (l.snCounter + UInt8.ofNat k) := by
  induction k generalizing l with
  | zero =>
      rw [show UInt8.ofNat 0 = 0 from rfl, UInt8.add_zero]
      exact (h.next hl hmode).1
  | succ k ih =>
      obtain ⟨-, l', hstays, hsized, hconfig, hring, hnext⟩ := h.next hl hmode
      have hrange := ih hstays hsized (by rw [hconfig]; exact hmode)
      unfold SnInRange snRingIndex at hrange ⊢
      rw [hconfig, hring, hnext, UInt8.add_assoc, UInt8.add_comm 1] at hrange
      rw [UInt8.ofNat_add]
      exact hrange

/-- **Every grant is well formed** from a state on, as long as the window is kept, iff the
channel is no acknowledged one or the window is not zero and no remainder by it is as large as
the window of the constructor. -/
theorem grants_wellFormed_iff (lcid : UInt8) (txConfig : TxConfig) (rxConfig : RxConfig)
    {calls : List (Call AnyPdcp)} {l : Llc}
    (h : (new lcid txConfig rxConfig).callAll calls = some l) :
    l.StaysWellFormed ↔ (l.txConfig.mode = .am →
      0 < l.txConfig.arqWindowSize ∧
        min l.txConfig.arqWindowSize 256 ≤ txConfig.arqWindowSize) := by
  have hcalled : l = called AnyPdcp.call lcid txConfig rxConfig calls := callAll_eq h
  have hsized := called_sized AnyPdcp.call lcid txConfig rxConfig calls
  have hring := called_snRingSize lcid txConfig rxConfig calls
  rw [← hcalled] at hsized hring
  rw [← hring, ← all_snInRange_iff]
  constructor
  · intro hstays hmode sn
    have hrange := hstays.inRange (sn - l.snCounter).toNat hsized hmode
    rwa [UInt8.ofNat_toNat, UInt8.add_comm, UInt8.sub_add_cancel] at hrange
  · intro hrange later l' hkeeps hlater pdcp grant hsize
    obtain ⟨hconfig, hkept⟩ := foldl_keeps later hkeeps l
    have hfold := callAll_eq hlater
    rw [← hfold] at hconfig hkept
    have hmax : grant.size ≤ 2047 := hsize.trans (by decide)
    refine ⟨onTx_inside AnyPdcp.call_ok pdcp grant hmax ?_, ?_⟩
    · intro hmode
      rw [hconfig] at hmode
      refine ⟨fun sn => ?_, by omega⟩
      have hsn := hrange hmode sn
      unfold SnInRange snRingIndex at hsn ⊢
      rwa [hconfig, hkept]
    · have hall := callAll_eq ((callAll_append h later).trans hlater)
      rw [hall]
      exact grant_wellFormed AnyPdcp.call AnyPdcp.call_ok lcid txConfig rxConfig (calls ++ later)
        pdcp grant hmax

/-- A PDCP with a packet of one byte. -/
def onePacket : AnyPdcp := .ofPdcpTx
  { config := { allowReordering := true, minCommitSize := 0 }
    isTxEnabled := true
    toTxQueue := [[0xA0]] }

/-- A window of two, a number to acknowledge and a packet: an ACK PDU and a data PDU. -/
theorem ack_and_packet_wellFormed :
    ∃ l, (new 1 { mode := .am, arqWindowSize := 2 } { mode := .am }).callAll
        [.setTxEnabled true, .setRxEnabled true, .onRx (dataOf 7)] = some l ∧
      (l.onTx AnyPdcp.call onePacket sixteenBytes.info).pdus =
        [[0, 0x18, 5, 7, 1], [0, 0x10, 8, 0x80, 5, 0, 0, 0xA0]] ∧
      (l.onTx AnyPdcp.call onePacket sixteenBytes.info).fault = false ∧
      GrantWellFormed l sixteenBytes (l.onTx AnyPdcp.call onePacket sixteenBytes.info) :=
  ⟨_, rfl, by decide +kernel,
    (grants_wellFormed_iff 1 { mode := .am, arqWindowSize := 2 } { mode := .am }
      (show callAll _ [.setTxEnabled true, .setRxEnabled true, .onRx (dataOf 7)] = _ from rfl)).mpr
      (fun _ => by decide) [] _ (fun _ h => (List.not_mem_nil h).elim) rfl onePacket sixteenBytes
      (by decide)⟩

/-- Without a window the first data PDU divides by zero; with one that has grown the second data
PDU is stored behind the end of `sn_ring`. -/
theorem grants_fault :
    (∃ l, (new 1 { mode := .am } {}).callAll [.setTxEnabled true] = some l ∧
      ¬ l.GrantsWellFormed) ∧
    (∃ l, (new 1 { mode := .am, arqWindowSize := 1 } {}).callAll
        [.reconfigureTx { mode := .am, arqWindowSize := 2 }, .setTxEnabled true,
          .onTx onePacket sixteenBytes] = some l ∧
      ¬ l.GrantsWellFormed) := by
  constructor
  · refine ⟨_, rfl, fun h => ?_⟩
    have hfault := (h onePacket sixteenBytes (by decide)).1
    revert hfault
    decide +kernel
  · have hsent := callChecked_of_ok (l := ((new 1 { mode := .am, arqWindowSize := 1 }
      {}).reconfigureTx { mode := .am, arqWindowSize := 2 }).setTxEnabled true)
      (c := .onTx onePacket sixteenBytes) (by decide +kernel)
    refine ⟨_, congrArg (· >>= some) hsent, fun h => ?_⟩
    have hfault := (h onePacket sixteenBytes (by decide)).1
    revert hfault
    decide +kernel

end Llc

end Winject.LegacyLlc
