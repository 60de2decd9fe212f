import Winject.Llc.UlBookkeeping

/-!
# The LLC uplink always finds a slot

The status bit `DATA_PDU_ALLOCATED` is clear only while the ring element of the
current slot is free: an update of the slot number clears the bit and frees that
element, and a data PDU sets the bit.  A data PDU is sent only while the bit is
clear, so the probing of `enqueue_tx_check`, which goes once around the ring,
meets a free element; and one update allows one data PDU.

## Main results

* `findSlot_ne_none` — probing finds a free element if there is one.
* `CurrentFree.step` — every call keeps the invariant.
* `one_pdu_per_slot` — runs.
-/

namespace Winject.Llc

open Winject.Frames
open Winject.Lib.Runs

namespace LlcUl

/-! ## Probing -/

/-- The ring size divides the number of slot numbers. -/
theorem Bookkeeping.ring_dvd {u : LlcUl} (h : u.Bookkeeping) : u.txRing.length ∣ 2 ^ 64 := by
  obtain ⟨k, hk⟩ := (LlcUlConfig.isValid_iff.mp h.valid).1
  have hlt := u.config.txSize.toNat_lt
  rw [h.ringLength, hk]
  rw [hk] at hlt
  exact pow_dvd_pow 2 (Nat.pow_lt_pow_iff_right (by decide) |>.mp hlt).le

/-- The index goes around the ring with the slot number, also when that wraps. -/
theorem Bookkeeping.index_add {u : LlcUl} (h : u.Bookkeeping) (slot : UInt64) (k : Nat) :
    u.txRingIndex (slot + UInt64.ofNat k) = (slot.toNat + k) % u.txRing.length := by
  unfold txRingIndex
  rw [UInt64.toNat_add, UInt64.toNat_ofNat', Nat.add_mod_mod, Nat.mod_mod_of_dvd _ h.ring_dvd]

/-- Where probing fails, every element it looked at is in use. -/
theorem findSlot_none {u : LlcUl} {slot : UInt64} {n : Nat} (h : u.findSlot slot n = none)
    {k : Nat} (hk : k < n) : (u.txElem (slot + UInt64.ofNat k)).acknowledged = false := by
  induction n generalizing slot k with
  | zero => exact absurd hk (Nat.not_lt_zero k)
  | succ n ih =>
      unfold findSlot at h
      split_ifs at h with hun
      cases k with
      | zero =>
          rw [show UInt64.ofNat 0 = 0 from rfl, UInt64.add_zero]
          simpa using hun
      | succ k =>
          have hnext := ih h (Nat.lt_of_succ_lt_succ hk)
          rwa [UInt64.add_assoc, ← UInt64.ofNat_one, ← UInt64.ofNat_add, Nat.add_comm 1 k]
            at hnext

/-- Probing once around the ring finds a free element if there is one. -/
theorem Bookkeeping.findSlot_ne_none {u : LlcUl} (h : u.Bookkeeping) {free : UInt64}
    (hfree : (u.txElem free).acknowledged = true) (slot : UInt64) :
    u.findSlot slot u.config.txSize.toNat ≠ none := by
  intro hnone
  rw [← h.ringLength] at hnone
  have hpos := h.ring_pos
  -- the distance from the index of `slot` up to that of `free`
  let k := (free.toNat + (u.txRing.length - slot.toNat % u.txRing.length)) % u.txRing.length
  have hk : k < u.txRing.length := Nat.mod_lt _ hpos
  have hidx : u.txRingIndex (slot + UInt64.ofNat k) = u.txRingIndex free := by
    rw [h.index_add]
    unfold txRingIndex
    have hlt := Nat.mod_lt slot.toNat hpos
    have hdiv := Nat.div_add_mod slot.toNat u.txRing.length
    have hsum : slot.toNat + (free.toNat + (u.txRing.length - slot.toNat % u.txRing.length)) =
        free.toNat + u.txRing.length * (slot.toNat / u.txRing.length + 1) := by
      rw [Nat.mul_add, Nat.mul_one]
      omega
    show (slot.toNat + k) % _ = _
    rw [Nat.add_mod_mod, hsum, Nat.add_mul_mod_self_left]
  have hused := findSlot_none hnone hk
  unfold txElem at hused hfree
  rw [hidx, hfree] at hused
  cases hused

/-! ## The element of the current slot -/

/-- The bit `DATA_PDU_ALLOCATED` and the element of the current slot. -/
structure CurrentFree (u : LlcUl) : Prop where
  books : u.Bookkeeping
  free : u.status.dataPduAllocated = false → (u.txElem u.currentSlotNumber).acknowledged = true
  noTxSlot : u.status.noTxSlot = false

/-- An element that is freed is free, and the others stay as they are. -/
theorem setTxElem_free (u : LlcUl) {slot slot' : UInt64}
    (h : (u.txElem slot').acknowledged = true) :
    ((u.setTxElem slot { u.txElem slot with acknowledged := true }).txElem
      slot').acknowledged = true := by
  unfold txElem at h ⊢
  rw [setTxElem_txRingIndex]
  unfold setTxElem
  dsimp only
  rw [List.getD_eq_getElem?_getD] at h ⊢
  rw [List.getElem?_set]
  split_ifs with heq hlt
  · rfl
  · rfl
  · exact h

/-- What `acknowledge` leaves alone. -/
theorem acknowledge_current (u : LlcUl) (sn : UInt8)
    (h : (u.txElem u.currentSlotNumber).acknowledged = true) :
    let u' := (u.acknowledge sn).1
    (u'.txElem u'.currentSlotNumber).acknowledged = true := by
  unfold LlcUl.acknowledge
  dsimp only
  rcases u.snRing sn with _ | ⟨_ | slot⟩
  · exact h
  · dsimp only
    cases u.retxList.find? (fun el => el.sn == sn) <;> exact h
  · dsimp only
    split
    · exact setTxElem_free u h
    · exact h

theorem acknowledge_status (u : LlcUl) (sn : UInt8) :
    let u' := (u.acknowledge sn).1
    u'.status.dataPduAllocated = u.status.dataPduAllocated ∧
      u'.status.noTxSlot = u.status.noTxSlot := by
  unfold LlcUl.acknowledge
  dsimp only
  rcases u.snRing sn with _ | ⟨_ | slot⟩
  · exact ⟨rfl, rfl⟩
  · dsimp only
    cases u.retxList.find? (fun el => el.sn == sn) <;> exact ⟨rfl, rfl⟩
  · dsimp only
    split <;> exact ⟨rfl, rfl⟩

/-- While the element of the current slot is free, `enqueue_tx_check` finds a
slot. -/
theorem Bookkeeping.enqueue {u : LlcUl} (h : u.Bookkeeping)
    (hfree : (u.txElem u.currentSlotNumber).acknowledged = true) (llcPdu : List UInt8)
    (sn : UInt8) (retryCount : UInt64) (pdu : Nat) :
    ∃ u' slot, u.enqueueTxCheck llcPdu sn retryCount pdu = (u', some slot) ∧
      u'.status.noTxSlot = false := by
  rcases u.enqueueTxCheck_cases llcPdu sn retryCount pdu with ⟨hnone, _⟩ | ⟨slot, _, heq⟩
  · exact absurd hnone (h.findSlot_ne_none hfree _)
  · exact ⟨_, slot, heq, rfl⟩

/-- A call that sends no data PDU and leaves the ring alone. -/
structure Idle (u u' : LlcUl) : Prop where
  ring : u'.txRing = u.txRing
  current : u'.currentSlotNumber = u.currentSlotNumber
  allocated : u'.status.dataPduAllocated = u.status.dataPduAllocated
  noTxSlot : u'.status.noTxSlot = u.status.noTxSlot
  accepted : u'.accepted = u.accepted

theorem CurrentFree.idle {u u' : LlcUl} (h : u.CurrentFree) (hbooks : u'.Bookkeeping)
    (hidle : u.Idle u') : u'.CurrentFree where
  books := hbooks
  free halloc := by
    rw [hidle.allocated] at halloc
    have hfree := h.free halloc
    unfold txElem txRingIndex at hfree ⊢
    rwa [hidle.ring, hidle.current]
  noTxSlot := hidle.noTxSlot.trans h.noTxSlot

/-- A call that sends a data PDU. -/
structure Sent (u u' : LlcUl) : Prop where
  before : u.status.dataPduAllocated = false
  after : u'.status.dataPduAllocated = true
  noTxSlot : u'.status.noTxSlot = false

theorem Sent.currentFree {u u' : LlcUl} (h : u.Sent u') (hbooks : u'.Bookkeeping) :
    u'.CurrentFree :=
  ⟨hbooks, fun halloc => absurd (h.after.symm.trans halloc) (by decide), h.noTxSlot⟩

/-- `write_llc_pdu` sends a data PDU, which is accepted, or leaves the ring
alone. -/
theorem CurrentFree.writeLlcPdu_cases {u : LlcUl} (h : u.CurrentFree) (target : List UInt8) :
    u.Idle (u.writeLlcPdu target).1 ∨ u.Sent (u.writeLlcPdu target).1 := by
  rcases LlcUl.writeLlcPdu_cases h.books.mode target with
    ⟨⟨status, snCounter, hkept, heq⟩, hno⟩ | ⟨hsend, status, hkept, hdata, -, heq⟩
  · left
    rw [heq] at hno ⊢
    exact ⟨rfl, rfl, hkept.dataPduAllocated, hno, rfl⟩
  · right
    have hbooks : ({ u with status := status } : LlcUl).Bookkeeping :=
      h.books.of_status (hkept.spuriousAckTx.trans h.books.noTx)
        (hkept.shouldNotHappen.trans h.books.noHappen)
    have hA := (stampLlcPdu_getA u.config u.snCounter
      (LlcPdu.new target target.length u.config.crcSize)).trans hdata
    rw [heq]
    generalize stampLlcPdu u.config u.snCounter _ = llc at hA
    obtain ⟨u', slot, henq, hno⟩ := hbooks.enqueue (h.free hsend.allocated) llc.base
      u.snCounter 0 u.accepted
    unfold sendLlcPdu
    rw [if_pos (by rw [hbooks.mode, hA]; rfl), henq]
    exact ⟨hsend.allocated, rfl, hno⟩

/-- So does `write_retransmission_pdu`, and it returns a size only when it
sends. -/
theorem CurrentFree.writeRetransmissionPdu_cases {u : LlcUl} (h : u.CurrentFree)
    (target : List UInt8) :
    (u.Idle (u.writeRetransmissionPdu target).1 ∧ (u.writeRetransmissionPdu target).2.2 = 0) ∨
      u.Sent (u.writeRetransmissionPdu target).1 := by
  rcases h.books.writeRetransmissionPdu_cases target with ⟨small, heq⟩ | ⟨el, rest, hfront⟩
  · rw [heq]
    exact Or.inl ⟨⟨rfl, rfl, rfl, rfl, rfl⟩, rfl⟩
  rw [h.books.resend hfront]
  split_ifs with hretry
  · exact Or.inl ⟨⟨rfl, rfl, rfl, rfl, rfl⟩, rfl⟩
  · right
    have hbooks : ({ u with
        status := { u.status with
          writeBufferTooSmall := false, spuriousAckSn := false, shouldNotHappen := false,
          snLost := false } } : LlcUl).Bookkeeping := h.books.of_status h.books.noTx rfl
    obtain ⟨u', slot, henq, hno⟩ := hbooks.enqueue (h.free hfront.allocated) el.llcPdu el.sn
      (el.retryCount + 1) el.pdu
    rw [henq]
    exact ⟨hfront.allocated, rfl, hno⟩

/-- Every call keeps the invariant. -/
theorem CurrentFree.step {u : LlcUl} (h : u.CurrentFree) {op : Op} (hop : op.IsAm) :
    (u.step op).CurrentFree := by
  have hbooks := h.books.step hop
  have hreset : ∀ config : LlcUlConfig, ∀ i,
      ((List.replicate config.txSize.toNat ({} : TxElem)).getD i {}).acknowledged = true := by
    intro config i
    rw [List.getD_eq_getElem?_getD, List.getElem?_replicate]
    split <;> rfl
  cases op with
  | updateCurrentSlotNumber slot =>
      rcases h.books.update_cases slot with ⟨_, heq⟩ | ⟨_, hack, heq⟩ | ⟨_, _, heq⟩
      · refine h.idle hbooks ?_
        show u.Idle (u.updateCurrentSlotNumber slot).1
        rw [heq]
        exact ⟨rfl, rfl, rfl, rfl, rfl⟩
      · refine ⟨hbooks, fun _ => ?_, ?_⟩
        · show (LlcUl.txElem (u.updateCurrentSlotNumber slot).1
            (u.updateCurrentSlotNumber slot).1.currentSlotNumber).acknowledged = true
          rw [heq]
          exact hack
        · show (u.updateCurrentSlotNumber slot).1.status.noTxSlot = false
          rw [heq]
          exact h.noTxSlot
      · refine ⟨hbooks, fun _ => ?_, ?_⟩
        · show (LlcUl.txElem (u.updateCurrentSlotNumber slot).1
            (u.updateCurrentSlotNumber slot).1.currentSlotNumber).acknowledged = true
          rw [heq]
          show ((u.setTxElem slot { u.txElem slot with acknowledged := true }).txElem
            slot).acknowledged = true
          unfold txElem
          rw [setTxElem_txRingIndex]
          unfold setTxElem
          dsimp only
          rw [List.getD_eq_getElem _ _ (by rw [List.length_set]; exact h.books.index_lt slot),
            List.getElem_set_self]
        · show (u.updateCurrentSlotNumber slot).1.status.noTxSlot = false
          rw [heq]
          exact h.noTxSlot
  | writeLlcPdu target =>
      rcases h.writeLlcPdu_cases target with hidle | hsent
      · exact h.idle hbooks hidle
      · exact hsent.currentFree hbooks
  | writeRetransmissionPdu target =>
      rcases h.writeRetransmissionPdu_cases target with ⟨hidle, _⟩ | hsent
      · exact h.idle hbooks hidle
      · exact hsent.currentFree hbooks
  | acknowledge sn =>
      have hstatus := u.acknowledge_status sn
      refine ⟨hbooks, fun halloc => ?_, hstatus.2.trans h.noTxSlot⟩
      exact u.acknowledge_current sn (h.free (hstatus.1.symm.trans halloc))
  | reset => exact ⟨hbooks, fun _ => hreset u.config _, rfl⟩
  | reconfigure config =>
      have heq : u.reconfigure config = LlcUl.reset { u with config := config } := by
        unfold LlcUl.reconfigure validateConfig
        exact if_pos hop.1
      refine ⟨hbooks, fun _ => ?_, ?_⟩
      · show ((u.reconfigure config).txElem _).acknowledged = true
        rw [heq]
        exact hreset config _
      · show (u.reconfigure config).status.noTxSlot = false
        rw [heq]
        rfl

/-! ## Runs -/

/-- A data PDU is emitted: a new one is accepted, or a retransmission is
written. -/
def emits (u : LlcUl) : Op → Bool
  | .writeLlcPdu target => (u.writeLlcPdu target).1.accepted != u.accepted
  | .writeRetransmissionPdu target => (u.writeRetransmissionPdu target).2.2 != 0
  | _ => false

/-- The number of data PDUs that a run emits. -/
def emissions (u : LlcUl) : List Op → Nat
  | [] => 0
  | op :: ops => (u.emits op).toNat + (u.step op).emissions ops

/-- The call begins a new slot: a successful update, or a start from anew. -/
def begins (u : LlcUl) : Op → Bool
  | .updateCurrentSlotNumber slot => (u.updateCurrentSlotNumber slot).2
  | .reset => true
  | .reconfigure _ => true
  | _ => false

/-- A call that begins no slot sends a data PDU only while the bit is clear, and
does not clear it. -/
theorem CurrentFree.emits_le {u : LlcUl} (h : u.CurrentFree) {op : Op}
    (hop : u.begins op = false) :
    (u.emits op).toNat + u.status.dataPduAllocated.toNat ≤
      (u.step op).status.dataPduAllocated.toNat := by
  cases op with
  | updateCurrentSlotNumber slot =>
      rcases h.books.update_cases slot with ⟨_, heq⟩ | ⟨_, _, heq⟩ | ⟨_, _, heq⟩
      · show 0 + _ ≤ (u.updateCurrentSlotNumber slot).1.status.dataPduAllocated.toNat
        rw [heq]
        exact (Nat.zero_add _).le
      · change (u.updateCurrentSlotNumber slot).2 = false at hop
        rw [heq] at hop
        cases hop
      · change (u.updateCurrentSlotNumber slot).2 = false at hop
        rw [heq] at hop
        cases hop
  | writeLlcPdu target =>
      show ((u.writeLlcPdu target).1.accepted != u.accepted).toNat + _ ≤
        (u.writeLlcPdu target).1.status.dataPduAllocated.toNat
      rcases h.writeLlcPdu_cases target with hidle | hsent
      · rw [hidle.accepted, hidle.allocated, bne_self_eq_false]
        exact (Nat.zero_add _).le
      · rw [hsent.before, hsent.after]
        exact Bool.toNat_le _
  | writeRetransmissionPdu target =>
      show ((u.writeRetransmissionPdu target).2.2 != 0).toNat + _ ≤
        (u.writeRetransmissionPdu target).1.status.dataPduAllocated.toNat
      rcases h.writeRetransmissionPdu_cases target with ⟨hidle, hsize⟩ | hsent
      · rw [hsize, hidle.allocated, bne_self_eq_false]
        exact (Nat.zero_add _).le
      · rw [hsent.before, hsent.after]
        exact Bool.toNat_le _
  | acknowledge sn =>
      show 0 + _ ≤ (u.acknowledge sn).1.status.dataPduAllocated.toNat
      rw [(u.acknowledge_status sn).1]
      exact (Nat.zero_add _).le
  | reset => cases hop
  | reconfigure config => cases hop

theorem CurrentFree.emissions_le {u : LlcUl} (h : u.CurrentFree) {ops : List Op}
    (hops : ∀ op ∈ ops, op.IsAm) (hsteps : Steps LlcUl.step (fun u op => u.begins op = false) u ops) :
    u.emissions ops + u.status.dataPduAllocated.toNat ≤ 1 := by
  induction ops generalizing u with
  | nil =>
      show 0 + _ ≤ 1
      rw [Nat.zero_add]
      exact Bool.toNat_le _
  | cons op ops ih =>
      have hrest := ih (h.step (hops op (List.mem_cons_self ..)))
        (fun x hx => hops x (List.mem_cons_of_mem _ hx)) hsteps.2
      have hfirst := h.emits_le hsteps.1
      show (u.emits op).toNat + (u.step op).emissions ops + _ ≤ 1
      omega

theorem CurrentFree.new {config : LlcUlConfig} (hvalid : config.isValid = true)
    (hmode : config.mode = .am) : (LlcUl.new config).CurrentFree := by
  have hbooks := Bookkeeping.new hvalid hmode
  have heq : LlcUl.new config = LlcUl.reset { config := config } := if_pos hvalid
  refine ⟨hbooks, fun _ => ?_, ?_⟩
  · rw [heq]
    show ((List.replicate config.txSize.toNat ({} : TxElem)).getD _ {}).acknowledged = true
    rw [List.getD_eq_getElem?_getD, List.getElem?_replicate]
    split <;> rfl
  · rw [heq]
    rfl

theorem CurrentFree.run {u : LlcUl} (h : u.CurrentFree) {ops : List Op}
    (hops : ∀ op ∈ ops, op.IsAm) : (u.run ops).CurrentFree := by
  induction ops generalizing u with
  | nil => exact h
  | cons op ops ih =>
      exact ih (h.step (hops op (List.mem_cons_self ..)))
        (fun x hx => hops x (List.mem_cons_of_mem _ hx))

/-- **One data PDU for each slot, and always a transmit slot.**  In every run,
the calls after which no update of the slot number succeeds and nothing is reset
emit at most one data PDU, and `NO_TX_SLOT` is never set. -/
theorem one_pdu_per_slot (config : LlcUlConfig) (hvalid : config.isValid = true)
    (hmode : config.mode = .am) (before ops : List Op) (hbefore : ∀ op ∈ before, op.IsAm)
    (hops : ∀ op ∈ ops, op.IsAm)
    (hslot : Steps step (fun u op => u.begins op = false) ((new config).run before) ops) :
    ((new config).run before).emissions ops ≤ 1 ∧
      ((new config).run (before ++ ops)).status.noTxSlot = false := by
  have hcurrent := (CurrentFree.new hvalid hmode).run hbefore
  refine ⟨le_trans (Nat.le_add_right ..) (hcurrent.emissions_le hops hslot), ?_⟩
  have hrun : (new config).run (before ++ ops) = ((new config).run before).run ops :=
    List.foldl_append ..
  rw [hrun]
  exact (hcurrent.run hops).noTxSlot

/-- One slot of a ring of two: the second PDU is refused. -/
theorem one_pdu_first_slot :
    let u := (new { mode := .am, txSize := 2 }).run [.updateCurrentSlotNumber 1]
    u.emissions [.writeLlcPdu [0, 0, 3], .writeLlcPdu [0, 0, 3]] ≤ 1 ∧
      ((new { mode := .am, txSize := 2 }).run ([.updateCurrentSlotNumber 1] ++
        [.writeLlcPdu [0, 0, 3], .writeLlcPdu [0, 0, 3]])).status.noTxSlot = false :=
  one_pdu_per_slot _ (by decide) rfl _ _ (by decide) (by decide)
    ⟨by decide, by decide, trivial⟩

/-- A reset between two updates of the slot number: two data PDUs. -/
theorem two_pdus_around_reset :
    let ops : List Op := [.writeLlcPdu [0, 0, 3], .reset, .writeLlcPdu [0, 0, 3]]
    let u := (new { mode := .am, txSize := 2 }).run [.updateCurrentSlotNumber 1]
    ((new { mode := .am, txSize := 2 }).updateCurrentSlotNumber 1).2 = true ∧
      u.emissions ops = 2 ∧ ((u.run ops).updateCurrentSlotNumber 1).2 = true := by
  decide

end LlcUl

end Winject.Llc
