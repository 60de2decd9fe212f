import Mathlib.Data.List.TakeWhile
import Winject.LegacyLlc.Run

/-!
# The list of numbers to acknowledge

A received data PDU puts its number on `to_ack_list`, where it may lengthen the
first entry; a call of `on_tx` takes entries from the front into an ACK PDU.  The
entries are pairs of `size_t` and are written as two fields of 8 bits.

What a call takes from the list is what a receiver reads from the ACK PDU, when
the counts fit in their fields, the PDU in its size field, and the call does not
end with a link failure, which sets `out_allocated` to zero.

`to_ack_list` does not depend on `sn_ring`.  A data PDU of an acknowledged channel without a
window, or an ACK PDU that reaches it, divides by zero in the source: a run counts up to that
call (`TxState.fault`, `RxResult.fault`), and what comes behind it says nothing about the code.

## Main results

* `ackEntries_append` — an ACK PDU is read as the entries written.
* `emitted_onTx` — what a call sends is what it takes from the list.
* `accounted_of_fits` — no number is lost or added over a run.
* `overlong_entry` — 256 numbers in a row are sent as none.
-/

namespace Winject.LegacyLlc

open Winject.Frames
open Winject.Lib.Bytes
open Winject.Lib.Runs

/-! ## The header of an ACK PDU and of a data PDU -/

theorem getA_setLCID (p : LlcPdu) (lcid : UInt8) : (p.setLCID lcid).getA = p.getA := by
  unfold LlcPdu.getA LlcPdu.setLCID
  rw [LlcPdu.get_set_of_mask 1 (by decide)]

theorem getA_setSIZE (p : LlcPdu) (size : Nat) : (p.setSIZE size).getA = p.getA := by
  unfold LlcPdu.getA LlcPdu.setSIZE
  rw [LlcPdu.get_set_of_ne (by decide), LlcPdu.get_set_of_mask 1 (by decide)]

theorem getA_storePayload (p : LlcPdu) (bytes : List UInt8) :
    (p.storePayload bytes).getA = p.getA := by
  unfold LlcPdu.getA
  rw [LlcPdu.get_storePayload (by decide)]

theorem getA_setA {p : LlcPdu} (h : 1 < p.base.length) (val : Bool) :
    (p.setA val).getA = val := by
  unfold LlcPdu.getA LlcPdu.setA
  rw [LlcPdu.get_set_self h]
  cases val <;> decide

theorem getA_writeCrc (l : Llc) (p : LlcPdu) : (l.writeCrc p).getA = p.getA := by
  unfold Llc.writeCrc
  split_ifs
  · simp only [LlcPdu.getA_storeCRC]
  · rfl

/-- The `A` bit of a PDU that is cut short. -/
theorem getA_take {p : LlcPdu} (h : p.getA = false) (k n c : Nat) :
    (LlcPdu.new (p.base.take k) n c).getA = false := by
  unfold LlcPdu.getA LlcPdu.get LlcPdu.new at *
  dsimp only at *
  rw [List.getD_eq_getElem?_getD, List.getElem?_take]
  split_ifs
  · rwa [← List.getD_eq_getElem?_getD]
  · rfl

/-! ## The entries of an ACK PDU -/

@[simp] theorem ackBytes_length (acks : List (Nat × Nat)) :
    (Llc.ackBytes acks).length = acks.length * 2 := by
  induction acks with
  | nil => rfl
  | cons ack acks ih =>
      show (_ :: _ :: Llc.ackBytes acks).length = _
      rw [List.length_cons, List.length_cons, ih, List.length_cons]
      omega

/-- The two fields of an entry. -/
theorem ackBytes_getD (acks : List (Nat × Nat)) (tail : List UInt8) (i : Nat)
    (h : i < acks.length) :
    (Llc.ackBytes acks ++ tail).getD (i * 2) 0 = UInt8.ofNat acks[i].1 ∧
      (Llc.ackBytes acks ++ tail).getD (i * 2 + 1) 0 = UInt8.ofNat acks[i].2 := by
  induction acks generalizing i with
  | nil => exact absurd h (Nat.not_lt_zero i)
  | cons ack acks ih =>
      have hcons : Llc.ackBytes (ack :: acks) ++ tail =
          UInt8.ofNat ack.1 :: UInt8.ofNat ack.2 :: (Llc.ackBytes acks ++ tail) := rfl
      rw [hcons]
      cases i with
      | zero => exact ⟨rfl, rfl⟩
      | succ i =>
          rw [show (i + 1) * 2 = i * 2 + 1 + 1 by omega]
          simp only [List.getD_cons_succ, List.getElem_cons_succ]
          exact ih i (by simpa using h)

/-- A PDU with entries behind its header is read as these entries. -/
theorem ackEntries_of_drop {p : LlcPdu} {acks : List (Nat × Nat)} {tail : List UInt8}
    (hsize : p.getSIZE = p.getHeaderSize + acks.length * 2) (hmax : p.getSIZE < 65536)
    (hdrop : p.base.drop p.getHeaderSize = Llc.ackBytes acks ++ tail) :
    Llc.ackEntries p = acks.map (fun ack => (UInt8.ofNat ack.1, UInt8.ofNat ack.2)) := by
  have hcount : p.getPayloadSize / 2 = acks.length := by
    unfold LlcPdu.getPayloadSize
    omega
  have hall : (List.range acks.length).takeWhile
      (fun i => p.getHeaderSize + i * 2 ≤ p.getSIZE) = List.range acks.length := by
    rw [List.takeWhile_eq_self_iff]
    intro i hi
    rw [List.mem_range] at hi
    rw [decide_eq_true_iff]
    omega
  have hbyte : ∀ k, p.base.getD (p.getHeaderSize + k) 0 =
      (Llc.ackBytes acks ++ tail).getD k 0 := by
    intro k
    rw [← hdrop, List.getD_eq_getElem?_getD, List.getD_eq_getElem?_getD, List.getElem?_drop]
  unfold Llc.ackEntries
  rw [hcount, hall]
  apply List.ext_getElem
  · simp only [List.length_map, List.length_range]
  · intro i hi _
    have hlt : i < acks.length := by simpa using hi
    obtain ⟨hfst, hsnd⟩ := ackBytes_getD acks tail i hlt
    simp only [List.getElem_map, List.getElem_range]
    rw [Nat.add_assoc, hbyte, hbyte, hfst, hsnd]

theorem set_drop (p : LlcPdu) {i k : Nat} (h : i < k) (m s v : UInt8) :
    (p.set i m s v).base.drop k = p.base.drop k := List.drop_set_of_lt h

/-- The checksum is in the header. -/
theorem writeCrc_drop {l : Llc} {p : LlcPdu} {k : Nat}
    (hcrc : l.txConfig.crcType = .crc32 → 7 ≤ k) :
    (l.writeCrc p).base.drop k = p.base.drop k := by
  unfold Llc.writeCrc
  split_ifs with hon
  · have hstore : ∀ (q : LlcPdu) (v : UInt32),
        (q.storeCRC (be32 v)).base.drop k = q.base.drop k := fun q v =>
      poke_drop (hcrc hon)
    dsimp only
    rw [hstore, hstore]
  · rfl

theorem storePayload_drop {p : LlcPdu} {bytes : List UInt8}
    (h : p.getHeaderSize + bytes.length ≤ p.base.length) :
    (p.storePayload bytes).base.drop p.getHeaderSize =
      bytes ++ p.base.drop (p.getHeaderSize + bytes.length) := by
  have hsplit : p.base = p.base.take p.getHeaderSize ++
      ((p.base.drop p.getHeaderSize).take bytes.length ++
        p.base.drop (p.getHeaderSize + bytes.length)) := by
    rw [← List.drop_drop, List.take_append_drop, List.take_append_drop]
  have hpoke : (p.storePayload bytes).base = p.base.take p.getHeaderSize ++
      (bytes ++ p.base.drop (p.getHeaderSize + bytes.length)) := by
    show poke p.base p.getHeaderSize bytes = _
    conv_lhs => rw [hsplit]
    refine poke_append ?_ ?_
    · rw [List.length_take]
      omega
    · rw [List.length_take, List.length_drop]
      omega
  rw [hpoke, List.drop_left']
  rw [List.length_take]
  omega

/-- The bytes behind the header of an ACK PDU are its entries. -/
theorem ackPdu_drop {l : Llc} {p : LlcPdu} {acks : List (Nat × Nat)}
    (hcrc : l.txConfig.crcType = .crc32 → p.crcSize = 4)
    (hfit : p.getHeaderSize + acks.length * 2 ≤ p.base.length) :
    (l.ackPdu p acks).base.drop p.getHeaderSize =
      Llc.ackBytes acks ++ p.base.drop (p.getHeaderSize + acks.length * 2) := by
  have hstore := storePayload_drop
    (show p.getHeaderSize + (Llc.ackBytes acks).length ≤ p.base.length by
      rw [ackBytes_length]; exact hfit)
  rw [ackBytes_length] at hstore
  rw [← hstore]
  unfold Llc.ackPdu
  dsimp only
  have hheader : 3 ≤ p.getHeaderSize := Nat.le_add_right _ _
  rw [writeCrc_drop (fun hon => ?_)]
  swap
  · rw [LlcPdu.getHeaderSize, hcrc hon]
  unfold LlcPdu.setLCID LlcPdu.setA LlcPdu.setSN LlcPdu.setPayloadSize LlcPdu.setSIZE
  rw [set_drop _ (by omega), set_drop _ (by omega), set_drop _ (by omega),
    set_drop _ (by omega), set_drop _ (by omega)]

theorem getA_ackPdu (l : Llc) {p : LlcPdu} (acks : List (Nat × Nat)) (h : 3 ≤ p.base.length) :
    (l.ackPdu p acks).getA = true := by
  unfold Llc.ackPdu
  dsimp only
  rw [getA_writeCrc, getA_setLCID, getA_setA]
  unfold LlcPdu.setSN LlcPdu.setPayloadSize LlcPdu.setSIZE
  rw [LlcPdu.set_length, LlcPdu.set_length, LlcPdu.set_length]
  show 1 < (poke _ _ _).length
  rw [poke_length]
  omega

/-! ## What a receiver reads -/

/-- The numbers of entries of the list. -/
def pending (acks : List (Nat × Nat)) : List UInt8 :=
  acks.flatMap (fun ack => ackNumbers (UInt8.ofNat ack.1) ack.2)

/-- Entries whose counts fit in 8 bits stand for the same numbers on the wire. -/
theorem entryNumbers_eq_pending {acks : List (Nat × Nat)} (h : ∀ ack ∈ acks, ack.2 < 256) :
    entryNumbers (acks.map (fun ack => (UInt8.ofNat ack.1, UInt8.ofNat ack.2))) =
      pending acks := by
  unfold entryNumbers pending
  rw [List.flatMap_map]
  refine List.flatMap_congr fun ack hmem => ?_
  rw [UInt8.toNat_ofNat', Nat.mod_eq_of_lt (h ack hmem)]

/-- **An ACK PDU is read as the entries written**, whatever follows it. -/
theorem ackEntries_append {l : Llc} {p : LlcPdu} {acks : List (Nat × Nat)}
    (hcrc : l.txConfig.crcType = .crc32 → p.crcSize = 4)
    (hfit : p.getHeaderSize + acks.length * 2 ≤ p.base.length)
    (hsize : p.getHeaderSize + acks.length * 2 < 2048) (h : ∀ ack ∈ acks, ack.2 < 256)
    (tail : List UInt8) :
    emittedNumbers p.crcSize
      ((l.ackPdu p acks).base.take (l.ackPdu p acks).getSIZE ++ tail) = pending acks := by
  have hheader : 3 ≤ p.getHeaderSize := Nat.le_add_right _ _
  obtain ⟨hSIZE, -, hbase, -⟩ := TxState.ackPdu_fields l p acks (by omega) hsize
  have hget : ∀ i, i < 3 → ∀ n m s,
      (LlcPdu.new ((l.ackPdu p acks).base.take (l.ackPdu p acks).getSIZE ++ tail) n
        p.crcSize).get i m s = (l.ackPdu p acks).get i m s := by
    intro i hi n m s
    unfold LlcPdu.get LlcPdu.new
    dsimp only
    rw [List.getD_eq_getElem?_getD, List.getElem?_append_left (by
      rw [List.length_take]; omega), List.getElem?_take, if_pos (by omega),
      ← List.getD_eq_getElem?_getD]
  have hdrop := ackPdu_drop hcrc hfit
  have hA := getA_ackPdu l acks (show 3 ≤ p.base.length by omega)
  generalize l.ackPdu p acks = q at hSIZE hbase hget hdrop hA ⊢
  generalize hbytes : q.base.take q.getSIZE ++ tail = bytes at hget ⊢
  have hread : (LlcPdu.new bytes bytes.length p.crcSize).getSIZE =
      p.getHeaderSize + acks.length * 2 := by
    rw [← hSIZE]
    unfold LlcPdu.getSIZE
    rw [hget 1 (by omega), hget 2 (by omega)]
  have hentries : bytes.drop p.getHeaderSize = Llc.ackBytes acks ++ tail := by
    have htake : (q.base.take q.getSIZE).length = q.getSIZE := by
      rw [List.length_take]
      omega
    rw [← hbytes, List.drop_append_of_le_length (by omega), List.drop_take, hdrop,
      List.take_left' (by rw [ackBytes_length]; omega)]
  unfold emittedNumbers
  dsimp only
  rw [if_pos (by unfold LlcPdu.getA; rw [hget 1 (by omega)]; exact hA)]
  rw [ackEntries_of_drop (p := LlcPdu.new bytes bytes.length p.crcSize) hread
    (by rw [hread]; omega) hentries, entryNumbers_eq_pending h]

/-! ## What a call takes and sends -/

/-- The entries that a grant takes. -/
def Llc.takenAcks (l : Llc) (g : Grant) : List (Nat × Nat) :=
  if l.isTxEnabled = true ∧ 3 + l.txCrcSize < g.size then
    Llc.takeAcks l.toAckList (g.size - (3 + l.txCrcSize))
  else []

/-- The front of the retransmission list fits into the rest of the grant, and has
been sent too often. -/
def Llc.linkFails (l : Llc) (g : Grant) : Prop :=
  g.allowData = true ∧ l.txConfig.allowRlf = true ∧
    ∃ retx ∈ (l.checkRetransmit g.slotNumber).toRetxList.head?,
      l.txConfig.maxRetxCount < retx.retryCount + 1 ∧
      2 * (3 + l.txCrcSize) + (l.takenAcks g).length * 2 + retx.pdcpPdu.length ≤ g.size

/-- The entries that a grant takes are sent: their counts fit in 8 bits, the ACK PDU
fits in the size field, and the call does not end with a link failure. -/
structure Llc.TxFits (l : Llc) (g : Grant) : Prop where
  counts : ∀ ack ∈ l.takenAcks g, ack.2 < 256
  size : 3 + l.txCrcSize + (l.takenAcks g).length * 2 < 2048
  link : l.takenAcks g ≠ [] → ¬ l.linkFails g

theorem takeAcks_eq_take (acks : List (Nat × Nat)) (size : Nat) :
    Llc.takeAcks acks size = acks.take (Llc.takeAcks acks size).length := by
  induction acks generalizing size with
  | nil => rfl
  | cons ack acks ih =>
      unfold Llc.takeAcks
      split_ifs
      · rw [List.length_cons, List.take_succ_cons, ← ih]
      · rfl

namespace TxState

variable {π : Type} {pdcpOnTx : π → LegacyPdcp.TxInfo → π × LegacyPdcp.TxInfo} {s : TxState π}

/-- The bytes in front are allocated, and read as these numbers. -/
structure Emits (crcSize : Nat) (numbers : List UInt8) (s : TxState π) : Prop where
  read : ∀ tail, emittedNumbers crcSize (s.front ++ tail) = numbers
  allocated : s.front.length ≤ s.outAllocated

theorem Emits.frame {crcSize : Nat} {numbers : List UInt8} (h : s.Emits crcSize numbers) :
    emittedNumbers crcSize (s.frame.take s.outAllocated) = numbers := by
  rw [TxState.frame, List.take_append, List.take_of_length_le h.allocated]
  exact h.read _

/-- The PDUs in front stay where they are, and what is allocated only grows. -/
def Extends (s s' : TxState π) : Prop :=
  s'.front = s.front ∧ s.outAllocated ≤ s'.outAllocated

theorem Emits.extend {crcSize : Nat} {numbers : List UInt8} {s' : TxState π}
    (h : s.Emits crcSize numbers) (hext : s.Extends s') : s'.Emits crcSize numbers where
  read := by
    rw [hext.1]
    exact h.read
  allocated := by
    rw [hext.1]
    exact h.allocated.trans hext.2

theorem informPdcp_allocated (hp : PdcpAllocates pdcpOnTx) (s : TxState π) :
    (s.informPdcp pdcpOnTx).outAllocated = s.outAllocated :=
  hp.idle s.pdcp ⟨(s.llc.base.drop s.llc.getHeaderSize).take 0, s.outAllocated,
    s.outTxAvailable⟩ rfl

theorem informOnly_allocated (hp : PdcpAllocates pdcpOnTx) (s : TxState π) :
    (s.informOnly pdcpOnTx).outAllocated = s.outAllocated := informPdcp_allocated hp s

theorem informOnly_extends (hp : PdcpAllocates pdcpOnTx) (s : TxState π) :
    s.Extends (s.informOnly pdcpOnTx) := ⟨rfl, (informOnly_allocated hp s).ge⟩

theorem loadPdcp_extends (hp : PdcpAllocates pdcpOnTx) (s : TxState π) :
    s.Extends (s.loadPdcp pdcpOnTx) :=
  ⟨rfl, hp.grows s.pdcp ⟨(s.llc.base.drop s.llc.getHeaderSize).take s.outSize, s.outAllocated,
    s.outTxAvailable⟩⟩

theorem loadRetx_extends (hp : PdcpAllocates pdcpOnTx) (s : TxState π) (pdcpPdu : List UInt8) :
    s.Extends (s.loadRetx pdcpOnTx pdcpPdu) := by
  refine ⟨rfl, ?_⟩
  show s.outAllocated ≤ (TxState.informPdcp pdcpOnTx _).outAllocated
  rw [informPdcp_allocated hp]
  exact Nat.le_add_right _ _

theorem finish_extends {s s' : TxState π} (h : s.Extends s') (slotNumber initAlloc : Nat)
    (retx : Option Nat) (retxCount : Nat) :
    s.Extends (s'.finish slotNumber initAlloc retx retxCount) := by
  unfold TxState.finish
  dsimp only
  split_ifs
  all_goals first
    | exact h
    | exact ⟨h.1, h.2.trans (Nat.le_add_right _ _)⟩

/-- A call that does not end with a link failure keeps the PDUs in front. -/
theorem allocateData_extends (hp : PdcpAllocates pdcpOnTx) (s : TxState π) (slotNumber : Nat) :
    s.Extends (s.allocateData pdcpOnTx slotNumber) ∨
      ∃ retx others, s.owner.toRetxList = retx :: others ∧
        retx.pdcpPdu.length ≤ s.startData.outSize ∧
        s.owner.txConfig.maxRetxCount < retx.retryCount + 1 ∧
        s.owner.txConfig.allowRlf = true ∧
        (s.allocateData pdcpOnTx slotNumber).outAllocated = 0 := by
  rcases s.allocateData_cases pdcpOnTx slotNumber with ⟨-, hres⟩ |
    ⟨retx, others, hlist, ⟨-, hres⟩ | ⟨hfit, hcount, hrlf, hres⟩ | ⟨-, -, hres⟩ | ⟨-, -, hres⟩⟩
  · rw [hres]
    exact Or.inl (finish_extends (s := s) (loadPdcp_extends hp s.startData) _ _ _ _)
  · rw [hres]
    exact Or.inl ⟨rfl, (informPdcp_allocated hp s.startData).ge⟩
  · rw [hres]
    exact Or.inr ⟨retx, others, hlist, hfit, hcount, hrlf, rfl⟩
  · rw [hres]
    exact Or.inl (finish_extends (s := s)
      (loadPdcp_extends hp (s.startData.popRetx others)) _ _ _ _)
  · rw [hres]
    exact Or.inl (finish_extends (s := s)
      (loadRetx_extends hp (s.startData.popRetx others) retx.pdcpPdu) _ _ _ _)

/-! ## The data PDU is not read as an ACK PDU -/

variable (pdcpOnTx) in
theorem callPdcp_getA (s : TxState π) : (s.callPdcp pdcpOnTx).llc.getA = s.llc.getA :=
  getA_storePayload ..

theorem loadPdcp_getA (h : s.llc.getA = false) : (s.loadPdcp pdcpOnTx).llc.getA = false := by
  show ((s.callPdcp pdcpOnTx).llc.setPayloadSize _).getA = false
  unfold LlcPdu.setPayloadSize
  rw [getA_setSIZE, callPdcp_getA]
  exact h

theorem loadRetx_getA (h : s.llc.getA = false) (pdcpPdu : List UInt8) :
    (s.loadRetx pdcpOnTx pdcpPdu).llc.getA = false := by
  show (TxState.callPdcp pdcpOnTx _).llc.getA = false
  rw [callPdcp_getA]
  show ((s.llc.storePayload pdcpPdu).setPayloadSize pdcpPdu.length).getA = false
  unfold LlcPdu.setPayloadSize
  rw [getA_setSIZE, getA_storePayload]
  exact h

theorem finish_getA (h : s.llc.getA = false) (slotNumber initAlloc : Nat) (retx : Option Nat)
    (retxCount : Nat) : (s.finish slotNumber initAlloc retx retxCount).llc.getA = false := by
  have hdone : (s.owner.writeCrc (s.llc.setSN s.owner.snCounter)).getA = false := by
    rw [getA_writeCrc, LlcPdu.getA_setSN, h]
  unfold TxState.finish
  dsimp only
  split_ifs <;> first | exact h | exact hdone

theorem startData_getA (h : 1 < s.llc.base.length) : s.startData.llc.getA = false := by
  show ((s.llc.setLCID s.owner.lcid).setA false).getA = false
  refine getA_setA ?_ false
  unfold LlcPdu.setLCID
  rwa [LlcPdu.set_length]

variable (pdcpOnTx s) in
theorem allocateData_getA (hbase : 1 < s.llc.base.length) (slotNumber : Nat) :
    (s.allocateData pdcpOnTx slotNumber).llc.getA = false := by
  have hstart := startData_getA hbase
  rcases s.allocateData_cases pdcpOnTx slotNumber with ⟨-, hres⟩ |
    ⟨retx, others, -, ⟨-, hres⟩ | ⟨-, -, -, hres⟩ | ⟨-, -, hres⟩ | ⟨-, -, hres⟩⟩
  · rw [hres]
    exact finish_getA (loadPdcp_getA hstart) _ _ _ _
  · rw [hres]
    exact (callPdcp_getA pdcpOnTx { s.startData with outSize := 0 }).trans hstart
  · rw [hres]
    exact hstart
  · rw [hres]
    exact finish_getA (s := (s.startData.popRetx others).loadPdcp pdcpOnTx)
      (loadPdcp_getA hstart) _ _ _ _
  · rw [hres]
    exact finish_getA (s := (s.startData.popRetx others).loadRetx pdcpOnTx retx.pdcpPdu)
      (loadRetx_getA hstart _) _ _ _ _

end TxState

theorem pending_append (a b : List (Nat × Nat)) : pending (a ++ b) = pending a ++ pending b :=
  List.flatMap_append

theorem checkRetransmit_toAckList (l : Llc) (slotNumber : Nat) :
    (l.checkRetransmit slotNumber).toAckList = l.toAckList := by
  unfold Llc.checkRetransmit
  dsimp only
  split_ifs <;> rfl

theorem emittedNumbers_nil (crcSize : Nat) : emittedNumbers crcSize [] = [] :=
  if_neg (show ¬ (((0 : UInt8) &&& 0x08) >>> 3 != 0) = true by decide)

namespace Llc

variable {π : Type} {pdcpOnTx : π → LegacyPdcp.TxInfo → π × LegacyPdcp.TxInfo}

/-- The entries are taken off the list, whatever becomes of the ACK PDU. -/
theorem ackStage_toAckList (l : Llc) (pdcp : π) (g : Grant) :
    (l.ackStage pdcp g.info).owner.toAckList =
      l.toAckList.drop (takeAcks l.toAckList (g.size - (3 + l.txCrcSize))).length := by
  unfold ackStage TxState.allocateAcks
  dsimp only
  split_ifs with hempty
  · have hnil : l.toAckList = [] := List.isEmpty_iff.mp hempty
    show l.toAckList = _
    rw [hnil]
    rfl
  · rfl

theorem finish_toAckList (s : TxState π) (slotNumber initAlloc : Nat) (retx : Option Nat)
    (retxCount : Nat) :
    (s.finish slotNumber initAlloc retx retxCount).owner.toAckList = s.owner.toAckList := by
  unfold TxState.finish
  dsimp only
  split_ifs <;> rfl

theorem allocateData_toAckList (s : TxState π) (slotNumber : Nat) :
    (s.allocateData pdcpOnTx slotNumber).owner.toAckList = s.owner.toAckList := by
  rcases s.allocateData_cases pdcpOnTx slotNumber with ⟨-, hres⟩ |
    ⟨retx, others, -, ⟨-, hres⟩ | ⟨-, -, -, hres⟩ | ⟨-, -, hres⟩ | ⟨-, -, hres⟩⟩
  · rw [hres]
    exact finish_toAckList ..
  · rw [hres]
    rfl
  · rw [hres]
    rfl
  · rw [hres]
    exact finish_toAckList ..
  · rw [hres]
    exact finish_toAckList ..

variable (pdcpOnTx) in
/-- What a call leaves of the list. -/
theorem onTx_toAckList (l : Llc) (pdcp : π) (g : Grant) :
    (l.onTx pdcpOnTx pdcp g.info).owner.toAckList =
      l.toAckList.drop (l.takenAcks g).length := by
  have hsetup := l.checkRetransmit_setup g.slotNumber
  have hlist := checkRetransmit_toAckList l g.slotNumber
  have hstage := (l.checkRetransmit g.slotNumber).ackStage_toAckList pdcp g
  rw [hlist, hsetup.txCrcSize] at hstage
  rcases l.onTx_cases pdcpOnTx pdcp g.info with ⟨hoff, hres⟩ | ⟨-, hsmall, hres⟩ |
    ⟨hon, hsize, s, rfl, ⟨-, hres⟩ | ⟨-, -, hres⟩⟩
  · rw [hres, takenAcks, if_neg (fun hand => by rw [hoff] at hand; cases hand.1)]
    rfl
  · rw [hres, takenAcks, if_neg (fun hand => Nat.not_lt.mpr hsmall hand.2)]
    exact hlist
  · rw [hres, takenAcks, if_pos ⟨hon, hsize⟩]
    exact hstage
  · rw [hres, takenAcks, if_pos ⟨hon, hsize⟩, allocateData_toAckList]
    exact hstage

/-- What is left of the grant behind the ACK PDU. -/
theorem ackStage_outSize (l : Llc) (pdcp : π) (g : Grant) :
    (l.ackStage pdcp g.info).outSize = g.size - (3 + l.txCrcSize) -
      (takeAcks l.toAckList (g.size - (3 + l.txCrcSize))).length * 2 := by
  unfold ackStage TxState.allocateAcks
  dsimp only
  split_ifs with hempty
  · have hnil : l.toAckList = [] := List.isEmpty_iff.mp hempty
    rw [hnil]
    rfl
  · rfl

theorem ackStage_header (l : Llc) (pdcp : π) (g : Grant) :
    (l.ackStage pdcp g.info).llc.getHeaderSize = 3 + l.txCrcSize ∧
      (l.ackStage pdcp g.info).owner.toRetxList = l.toRetxList := by
  unfold ackStage TxState.allocateAcks
  dsimp only
  split_ifs
  · exact ⟨rfl, rfl⟩
  · refine ⟨?_, rfl⟩
    exact (TxState.writeCrc_fields l _).2.2.2

/-- The ACK PDU of a call: there is none, or it is read as the entries taken. -/
theorem ackStage_emits (l : Llc) (pdcp : π) (g : Grant)
    (hcrc : l.txConfig.crcType = .crc32 → l.txCrcSize = 4) {acks : List (Nat × Nat)}
    (hacks : takeAcks l.toAckList (g.size - (3 + l.txCrcSize)) = acks)
    (hsize : 3 + l.txCrcSize < g.size) (hcounts : ∀ ack ∈ acks, ack.2 < 256)
    (hmax : 3 + l.txCrcSize + acks.length * 2 < 2048) :
    (acks = [] ∧ (l.ackStage pdcp g.info).front = [] ∧
      (l.ackStage pdcp g.info).outAllocated = 0) ∨
    (l.ackStage pdcp g.info).Emits l.txCrcSize (pending acks) := by
  have hfits := g.fits
  have hlen := TxState.takeAcks_length l.toAckList (g.size - (3 + l.txCrcSize))
  rw [hacks] at hlen
  unfold ackStage TxState.allocateAcks
  dsimp only
  split_ifs with hempty
  · left
    have hnil : l.toAckList = [] := List.isEmpty_iff.mp hempty
    rw [hnil] at hacks
    exact ⟨hacks.symm, rfl, rfl⟩
  · right
    change takeAcks (l.startTx pdcp g.info).owner.toAckList
      ((l.startTx pdcp g.info).outSize - (l.startTx pdcp g.info).llc.getHeaderSize) = acks at hacks
    rw [hacks]
    refine ⟨fun tail => ?_, ?_⟩
    · refine ackEntries_append (l := l) (p := (l.startTx pdcp g.info).llc) hcrc ?_ hmax
        hcounts tail
      show 3 + l.txCrcSize + acks.length * 2 ≤ g.buffer.length
      omega
    · show ([] ++ (l.ackPdu (l.startTx pdcp g.info).llc acks).base.take _).length ≤
        0 + (l.ackPdu (l.startTx pdcp g.info).llc acks).getSIZE
      rw [Nat.zero_add]
      exact List.length_take_le _ _

/-- **What a call sends** is what it takes from the list. -/
theorem emitted_onTx (hp : PdcpAllocates pdcpOnTx) (l : Llc) (pdcp : π) (g : Grant)
    (hcrc : l.txConfig.crcType = .crc32 → l.txCrcSize = 4) (h : l.TxFits g) :
    emittedNumbers l.txCrcSize ((l.onTx pdcpOnTx pdcp g.info).frame.take
      (l.onTx pdcpOnTx pdcp g.info).outAllocated) = pending (l.takenAcks g) := by
  have hsetup := l.checkRetransmit_setup g.slotNumber
  have hlist := checkRetransmit_toAckList l g.slotNumber
  have hcheck : (l.checkRetransmit g.slotNumber).txConfig.crcType = .crc32 →
      (l.checkRetransmit g.slotNumber).txCrcSize = 4 := by
    rw [hsetup.txConfig, hsetup.txCrcSize]
    exact hcrc
  rcases l.onTx_cases pdcpOnTx pdcp g.info with ⟨hoff, hres⟩ | ⟨-, hsmall, hres⟩ |
    ⟨hon, hsize, s, hs, hdata⟩
  · rw [hres, takenAcks, if_neg (fun hand => by rw [hoff] at hand; cases hand.1)]
    exact emittedNumbers_nil _
  · rw [hres, takenAcks, if_neg (fun hand => Nat.not_lt.mpr hsmall hand.2)]
    show emittedNumbers _ (List.take (TxState.informOnly pdcpOnTx _).outAllocated _) = _
    rw [TxState.informOnly_allocated hp]
    exact emittedNumbers_nil _
  · change 3 + l.txCrcSize < g.size at hsize
    change s = (l.checkRetransmit g.slotNumber).ackStage pdcp g.info at hs
    have htaken : takeAcks (l.checkRetransmit g.slotNumber).toAckList
        (g.size - (3 + (l.checkRetransmit g.slotNumber).txCrcSize)) = l.takenAcks g := by
      rw [hlist, hsetup.txCrcSize, takenAcks, if_pos ⟨hon, hsize⟩]
    have hstage := (l.checkRetransmit g.slotNumber).ackStage_emits pdcp g hcheck htaken
      (by rw [hsetup.txCrcSize]; exact hsize) h.counts (by rw [hsetup.txCrcSize]; exact h.size)
    have hroom := (l.checkRetransmit g.slotNumber).ackStage_room pdcp g
      (by rw [hsetup.txCrcSize]; exact hsize)
    have hspace := (l.checkRetransmit g.slotNumber).ackStage_outSize pdcp g
    rw [htaken, hsetup.txCrcSize, ← hs] at hspace
    rw [hsetup.txCrcSize, ← hs] at hstage
    rw [← hs] at hroom
    obtain ⟨hheader, hretxs⟩ := (l.checkRetransmit g.slotNumber).ackStage_header pdcp g
    have hconfig := ((l.checkRetransmit g.slotNumber).ackStage_setup pdcp g.info).txConfig
    rw [hsetup.txCrcSize, ← hs] at hheader
    rw [← hs] at hretxs
    rw [hsetup.txConfig, ← hs] at hconfig
    rcases hdata with ⟨-, hres⟩ | ⟨hdroom, hallow, hres⟩
    · rw [hres]
      rcases hstage with ⟨hnil, -, hzero⟩ | hemits
      · rw [TxState.informOnly_allocated hp, hzero, hnil]
        exact emittedNumbers_nil _
      · exact (hemits.extend (TxState.informOnly_extends hp s)).frame
    · rw [hres]
      have hA := TxState.allocateData_getA pdcpOnTx s (by omega) g.info.slotNumber
      rcases TxState.allocateData_extends hp s g.info.slotNumber with hext |
        ⟨retx, others, hretx, hfit, hcount, hrlf, hzero⟩
      · rcases hstage with ⟨hnil, hfront, hzero⟩ | hemits
        · rw [TxState.frame, hext.1, hfront, List.nil_append, hnil]
          exact if_neg (by rw [getA_take hA]; exact Bool.false_ne_true)
        · exact (hemits.extend hext).frame
      · rw [hzero]
        by_cases hnil : l.takenAcks g = []
        · rw [hnil]
          exact emittedNumbers_nil _
        · refine absurd ⟨hallow, ?_, retx, ?_, ?_, ?_⟩ (h.link hnil)
          · rwa [← hconfig]
          · rw [← hretxs, hretx]
            rfl
          · rwa [← hconfig]
          · change retx.pdcpPdu.length ≤ s.outSize - s.llc.getHeaderSize at hfit
            omega

end Llc

/-! ## Runs -/

theorem ackNumbers_succ (sn : UInt8) (count : Nat) :
    ackNumbers sn (count + 1) = ackNumbers sn count ++ [sn + UInt8.ofNat count] := by
  unfold ackNumbers
  rw [List.range_succ, List.map_append, List.map_singleton]

/-- A number that is put on the list is one more of those it stands for. -/
theorem pending_toAcknowledge (l : Llc) (sn : UInt8) :
    (pending (l.toAcknowledge sn).toAckList).Perm (pending l.toAckList ++ [sn]) := by
  have hone : pending [(sn.toNat, 1)] = [sn] := by
    show ackNumbers (UInt8.ofNat sn.toNat) 1 ++ [] = [sn]
    rw [UInt8.ofNat_toNat, List.append_nil, ackNumbers_succ]
    show [sn + 0] = [sn]
    rw [UInt8.add_zero]
  unfold Llc.toAcknowledge
  cases l.toAckList with
  | nil =>
      dsimp only
      rw [hone]
      exact List.Perm.refl _
  | cons first rest =>
      dsimp only
      split_ifs with hnext
      · have hlast : UInt8.ofNat first.1 + UInt8.ofNat first.2 = sn := by
          rw [← UInt8.ofNat_add, hnext, UInt8.ofNat_toNat]
        show (ackNumbers (UInt8.ofNat first.1) (first.2 + 1) ++ pending rest).Perm
          (ackNumbers (UInt8.ofNat first.1) first.2 ++ pending rest ++ [sn])
        rw [ackNumbers_succ, hlast, List.append_assoc, List.append_assoc]
        exact List.perm_append_comm.append_left _
      · rw [pending_append, hone]

theorem Llc.onRx_sameSetup (l : Llc) (info : RxInfo) : l.SameSetup (l.onRx info).llc := by
  have hacks : ∀ (numbers : List UInt8) (l : Llc), l.SameSetup (numbers.foldl ackOne l) := by
    intro numbers
    induction numbers with
    | nil => exact fun _ => ⟨rfl, rfl, rfl, rfl, rfl, rfl, rfl, rfl⟩
    | cons sn numbers ih =>
        intro l
        have hone : l.SameSetup (l.ackOne sn) := ⟨rfl, rfl, rfl, rfl, rfl, rfl, rfl, rfl⟩
        exact hone.trans (ih (l.ackOne sn))
  rcases l.onRx_cases info with ⟨-, hres⟩ | ⟨sn, -, -, hres⟩
  · rw [hres]
    exact hacks _ l
  · rw [hres]
    unfold toAcknowledge
    split_ifs
    · split
      · exact ⟨rfl, rfl, rfl, rfl, rfl, rfl, rfl, rfl⟩
      · split_ifs <;> exact ⟨rfl, rfl, rfl, rfl, rfl, rfl, rfl, rfl⟩
    · exact ⟨rfl, rfl, rfl, rfl, rfl, rfl, rfl, rfl⟩

theorem acks_toAckList (l : Llc) (numbers : List UInt8) :
    (numbers.foldl Llc.ackOne l).toAckList = l.toAckList := by
  induction numbers generalizing l with
  | nil => rfl
  | cons sn numbers ih => exact ih (l.ackOne sn)

namespace Channel

variable {π : Type} {pdcpOnTx : π → LegacyPdcp.TxInfo → π × LegacyPdcp.TxInfo}

/-- The numbers sent in ACK PDUs and the numbers still on the list are the numbers
received. -/
def Accounted (c : Channel π) : Prop :=
  (c.emitted ++ pending c.llc.toAckList).Perm c.received

/-- What a grant takes from the list is sent. -/
def TxFits (c : Channel π) : Event → Prop
  | .tx grant => c.llc.TxFits grant
  | .rx _ => True

/-- What a run keeps. -/
structure ListInv (c : Channel π) : Prop where
  mode : c.llc.rxConfig.mode = .am
  crc : c.llc.txConfig.crcType = .crc32 → c.llc.txCrcSize = 4
  accounted : c.Accounted

theorem ListInv.start (lcid : UInt8) (txConfig : TxConfig) (rxConfig : RxConfig)
    (rxEnabled : Bool) (pdcp : π) (hmode : rxConfig.mode = .am) :
    ListInv { llc := Llc.start lcid txConfig rxConfig rxEnabled, pdcp := pdcp } where
  mode := hmode
  crc hcrc := by
    show (if txConfig.crcType = .crc32 then 4 else _) = 4
    exact if_pos hcrc
  accounted := List.Perm.refl []

theorem ListInv.onRx {c : Channel π} (h : c.ListInv) (info : RxInfo) : (c.onRx info).ListInv := by
  have hsetup := c.llc.onRx_sameSetup info
  refine ⟨?_, ?_, ?_⟩
  · show (c.llc.onRx info).llc.rxConfig.mode = .am
    rw [hsetup.rxConfig]
    exact h.mode
  · show (c.llc.onRx info).llc.txConfig.crcType = .crc32 → (c.llc.onRx info).llc.txCrcSize = 4
    rw [hsetup.txConfig, hsetup.txCrcSize]
    exact h.crc
  · show (c.emitted ++ pending (c.llc.onRx info).llc.toAckList).Perm
      (c.received ++ c.llc.dataNumbers info)
    rcases c.llc.onRx_cases info with ⟨hnone, hres⟩ | ⟨sn, hsn, -, hres⟩
    · rw [hnone, hres, acks_toAckList, List.append_nil]
      exact h.accounted
    · rw [hsn, hres, if_pos h.mode]
      refine ((pending_toAcknowledge c.llc sn).append_left c.emitted).trans ?_
      rw [← List.append_assoc]
      exact h.accounted.append_right [sn]

theorem ListInv.onTx (hp : PdcpAllocates pdcpOnTx) {c : Channel π} (h : c.ListInv) {g : Grant}
    (hfits : c.llc.TxFits g) : (c.onTx pdcpOnTx g).ListInv := by
  have hsetup := c.llc.onTx_setup pdcpOnTx c.pdcp g.info
  have hlist := c.llc.onTx_toAckList pdcpOnTx c.pdcp g
  have hsent := c.llc.emitted_onTx hp c.pdcp g h.crc hfits
  have htaken : c.llc.takenAcks g = c.llc.toAckList.take (c.llc.takenAcks g).length := by
    unfold Llc.takenAcks
    split_ifs
    · exact takeAcks_eq_take _ _
    · rfl
  refine ⟨?_, ?_, ?_⟩
  · show (c.llc.onTx pdcpOnTx c.pdcp g.info).owner.rxConfig.mode = .am
    rw [hsetup.rxConfig]
    exact h.mode
  · show (c.llc.onTx pdcpOnTx c.pdcp g.info).owner.txConfig.crcType = .crc32 →
      (c.llc.onTx pdcpOnTx c.pdcp g.info).owner.txCrcSize = 4
    rw [hsetup.txConfig, hsetup.txCrcSize]
    exact h.crc
  · show (c.emitted ++ emittedNumbers c.llc.txCrcSize _ ++
      pending (c.llc.onTx pdcpOnTx c.pdcp g.info).owner.toAckList).Perm c.received
    have hwhole : c.llc.takenAcks g ++ c.llc.toAckList.drop (c.llc.takenAcks g).length =
        c.llc.toAckList := by
      nth_rewrite 1 [htaken]
      exact List.take_append_drop _ _
    rw [hsent, hlist, List.append_assoc, ← pending_append, hwhole]
    exact h.accounted

/-- **Every received number is acknowledged on the wire**, in every run whose grants
all send what they take. -/
theorem accounted_of_fits (hp : PdcpAllocates pdcpOnTx) (lcid : UInt8) (txConfig : TxConfig)
    (rxConfig : RxConfig) (rxEnabled : Bool) (pdcp : π) (hmode : rxConfig.mode = .am)
    (events : List Event)
    (hfits : Steps (step pdcpOnTx) TxFits
      { llc := Llc.start lcid txConfig rxConfig rxEnabled, pdcp := pdcp } events) :
    States (step pdcpOnTx) Accounted
      { llc := Llc.start lcid txConfig rxConfig rxEnabled, pdcp := pdcp } events := by
  refine (states_of_steps (fun c e h he => ?_)
    (ListInv.start lcid txConfig rxConfig rxEnabled pdcp hmode) hfits).mono
    (fun _ h => ListInv.accounted h)
  cases e with
  | tx grant => exact h.onTx hp he
  | rx info => exact h.onRx info

end Channel

/-! ## 256 numbers in a row -/

/-- A PDCP without anything to send. -/
def silentOnTx (pdcp : Unit) (info : LegacyPdcp.TxInfo) : Unit × LegacyPdcp.TxInfo := (pdcp, info)

/-- A data PDU of one byte. -/
def dataOf (sn : UInt8) : RxInfo := ⟨[sn, 0x10, 4, 0xAA], 4⟩

/-- A grant of eight bytes. -/
def eightBytes (slotNumber : Nat) : Grant where
  slotNumber := slotNumber
  buffer := List.replicate 8 0
  size := 8
  fits := by decide

/-- An AM channel without checksums. -/
def amChannel : Channel Unit where
  llc := Llc.start 1 { mode := .am, arqWindowSize := 16 } { mode := .am } true
  pdcp := ()

/-- Two numbers are received, and sent in one entry. -/
theorem two_accounted :
    States (Channel.step silentOnTx) Channel.Accounted amChannel
      [.rx (dataOf 7), .rx (dataOf 8), .tx (eightBytes 0)] := by
  refine Channel.accounted_of_fits ⟨fun _ _ => le_refl _, fun _ _ _ => rfl⟩ 1 _ _ true () rfl _
    ⟨trivial, trivial, ⟨?_, ?_, ?_⟩, trivial⟩
  · decide +kernel
  · decide +kernel
  · rintro - ⟨-, hrlf, -⟩
    exact absurd hrlf (by decide)

/-- The numbers from 0 to 255 are received before the next grant: the entry of 256
numbers is sent with the count 0. -/
theorem overlong_entry :
    ¬ States (Channel.step silentOnTx) Channel.Accounted amChannel
      ((List.range 256).map (fun sn => .rx (dataOf (UInt8.ofNat sn))) ++ [.tx (eightBytes 0)]) := by
  intro h
  have hlen := h.last.length_eq
  exact absurd hlen (by decide +kernel)

end Winject.LegacyLlc
