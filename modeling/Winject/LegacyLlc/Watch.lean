import Winject.LegacyLlc.Calls
import Winject.LegacyLlc.Outcomes

/-!
# The PDUs of an acknowledged channel

`Watch` is an LLC together with what became of its PDUs.  A payload that the PDCP
hands over gets a number, `pdu`, and keeps it over its retransmissions; every data PDU
sent is a `Transmission`, with what the ring keeps of it and the payload that is in the
frame.  `queued` are the PDUs of the retransmission list, `ended` those that were taken
off it and not sent again, `acked` those that were acknowledged while they waited, and
`lost` those whose element of the ring was taken by another PDU while it was waiting;
`failures` counts the calls of `on_rlf`.  No function reads these.

## Main results

* `Watch.onTx_cases` — a call is one of the steps of the watch.
* `Watch.Faithful.step` — the ring and the list hold the PDUs that they should.
-/

namespace Winject.LegacyLlc

open Winject.Frames
open Winject.Lib.Bytes
open Winject.Lib.Runs

/-- A data PDU that was sent. -/
structure Transmission where
  serial : Nat
  pdu : Nat
  slot : Nat
  llcTxId : Nat
  retryCount : Nat
  kept : List UInt8
  payload : List UInt8
  deriving DecidableEq

/-- The entry of the retransmission list for a PDU. -/
def Transmission.retx (t : Transmission) : RetxElem where
  llcTxId := t.llcTxId
  retryCount := t.retryCount
  pdcpPdu := t.kept

/-- The element that the check of a slot looks at. -/
def Llc.sentIdx (l : Llc) (slotNumber : Nat) : Fin 1024 :=
  txRingIndex (l.txRing (txRingIndex slotNumber)).sentIndex

/-- An LLC and the PDUs it has sent, the newest first. -/
structure Watch where
  llc : Llc
  now : Nat := 0
  accepted : Nat := 0
  log : List Transmission := []
  queued : List Transmission := []
  ended : List Transmission := []
  acked : List Transmission := []
  lost : List Transmission := []
  failures : Nat := 0

namespace Watch

/-- The PDU that was last sent in a slot of the element. -/
def holder (w : Watch) (i : Fin 1024) : Option Transmission :=
  w.log.find? (fun t => Llc.txRingIndex t.slot = i)

/-- The PDU that waits in the element. -/
def waiting (w : Watch) (i : Fin 1024) : Option Transmission :=
  if (w.llc.txRing i).acknowledged then none else w.holder i

/-- The PDU that the check of a slot puts on the retransmission list. -/
def moved (w : Watch) (slotNumber : Nat) : List Transmission :=
  if w.llc.isTxEnabled then (w.waiting (w.llc.sentIdx slotNumber)).toList else []

/-- The check of a slot. -/
def check (w : Watch) (slotNumber : Nat) : Watch :=
  { w with
    llc := w.llc.checked slotNumber
    now := slotNumber
    queued := w.queued ++ w.moved slotNumber }

/-- A data PDU is sent. -/
def transmit (w : Watch) (t : Transmission) : Watch :=
  { w with
    log := t :: w.log
    lost := (w.waiting (Llc.txRingIndex t.slot)).toList ++ w.lost }

/-- The front of the list is taken off it and not sent again. -/
def giveUp (w : Watch) : Watch :=
  { w with
    queued := w.queued.tail
    ended := w.queued.take 1 ++ w.ended }

/-- The PDUs that wait no longer behind a received PDU. -/
def ackedBy (w : Watch) (l : Llc) : List Transmission :=
  (List.finRange 1024).filterMap
    (fun i => if (l.txRing i).acknowledged then w.waiting i else none)

section Sent

variable {π : Type}

/-- The data PDU that a call has sent. -/
def sentBy (w : Watch) (pdu : Nat) (r : TxState π) : Transmission where
  serial := w.log.length
  pdu := pdu
  slot := w.now
  llcTxId := (r.owner.txRing (Llc.txRingIndex w.now)).llcTxId
  retryCount := (r.owner.txRing (Llc.txRingIndex w.now)).retryCount
  kept := (r.owner.txRing (Llc.txRingIndex w.now)).pdcpPdu
  payload := (r.pdus.getLast?.getD []).drop (3 + w.llc.txCrcSize)

/-- A new payload of the PDCP is sent. -/
def accept (w : Watch) (r : TxState π) : Watch :=
  { w.transmit (w.sentBy w.accepted r) with accepted := w.accepted + 1 }

/-- The front of the list is sent again. -/
def resend (w : Watch) (r : TxState π) : Watch :=
  match w.queued with
  | [] => w
  | front :: others => { w.transmit (w.sentBy front.pdu r) with queued := others }

/-- What a call has done behind its check: a data PDU was sent iff `sn_counter` went on,
and the front of the list was taken iff the list is shorter. -/
def settle (w : Watch) (r : TxState π) : Watch :=
  let sent := r.owner.snCounter ≠ w.llc.snCounter
  match w.llc.toRetxList with
  | [] => if sent then w.accept r else w
  | retx :: others =>
    if r.owner.toRetxList.length = (retx :: others).length then w
    else if retx.retryCount + 1 ≤ w.llc.txConfig.maxRetxCount then
      if sent then w.resend r else w.giveUp
    else if sent then w.giveUp.accept r
    else w.giveUp

variable (pdcpOnTx : π → LegacyPdcp.TxInfo → π × LegacyPdcp.TxInfo)

/-- A call of `on_tx`. -/
def onTx (w : Watch) (pdcp : π) (g : Grant) : Watch :=
  let r := w.llc.onTx pdcpOnTx pdcp g.info
  let w := (w.check g.slotNumber).settle r
  { w with
    llc := r.owner
    failures := w.failures + if r.rlf then 1 else 0 }

/-- A call.  Those that enable and configure the transmitter clear the list. -/
def step (w : Watch) : Call π → Watch
  | .onTx pdcp grant => w.onTx pdcpOnTx pdcp grant
  | .setTxEnabled value => { w with llc := w.llc.setTxEnabled value, queued := [] }
  | .reconfigureTx config => { w with llc := w.llc.reconfigureTx config, queued := [] }
  | .reconfigureRx config => { w with llc := w.llc.reconfigureRx config }
  | .setRxEnabled value => { w with llc := w.llc.setRxEnabled value }
  | .onRx info =>
    { w with
      llc := (w.llc.onRx info).llc
      acked := w.ackedBy (w.llc.onRx info).llc ++ w.acked }

/-- The LLC of a watch is the one of the calls. -/
theorem step_llc (w : Watch) (c : Call π) : (w.step pdcpOnTx c).llc = w.llc.call pdcpOnTx c := by
  cases c <;> rfl

end Sent

end Watch

/-- The channel stays an acknowledged one. -/
def Call.IsAm {π : Type} : Call π → Prop
  | .reconfigureTx config => config.mode = .am
  | _ => True

/-! ## The ring -/

/-- Elements of the ring were marked as acknowledged, and the list is the same. -/
structure Llc.Acked (l l' : Llc) : Prop where
  config : l'.txConfig = l.txConfig
  enabled : l'.isTxEnabled = l.isTxEnabled
  list : l'.toRetxList = l.toRetxList
  ring : ∀ i, l'.txRing i = l.txRing i ∨ l'.txRing i = { l.txRing i with acknowledged := true }

theorem Llc.Acked.refl (l : Llc) : l.Acked l := ⟨rfl, rfl, rfl, fun _ => Or.inl rfl⟩

theorem Llc.Acked.trans {l l' l'' : Llc} (h : l.Acked l') (h' : l'.Acked l'') : l.Acked l'' where
  config := h'.config.trans h.config
  enabled := h'.enabled.trans h.enabled
  list := h'.list.trans h.list
  ring := by
    intro i
    rcases h'.ring i with hsame | hmark
    · rw [hsame]
      exact h.ring i
    · rw [hmark]
      rcases h.ring i with hold | hold <;> rw [hold] <;> exact Or.inr rfl

theorem Llc.onRx_acked (l : Llc) (info : RxInfo) : l.Acked (l.onRx info).llc := by
  have hone : ∀ (l : Llc) (sn : UInt8), l.Acked (l.ackOne sn) := by
    intro l sn
    refine ⟨rfl, rfl, rfl, fun i => ?_⟩
    show Function.update l.txRing _ _ i = _ ∨ Function.update l.txRing _ _ i = _
    by_cases hi : i = l.sentElem sn
    · rw [hi, Function.update_self]
      exact Or.inr rfl
    · rw [Function.update_of_ne hi]
      exact Or.inl rfl
  have hall : ∀ (numbers : List UInt8) (l : Llc), l.Acked (numbers.foldl Llc.ackOne l) := by
    intro numbers
    induction numbers with
    | nil => exact fun l => Acked.refl l
    | cons sn numbers ih => exact fun l => (hone l sn).trans (ih (l.ackOne sn))
  rcases l.onRx_cases info with ⟨-, hres⟩ | ⟨sn, -, -, hres⟩
  · rw [hres]
    exact hall _ l
  · rw [hres]
    unfold toAcknowledge
    split_ifs
    · split
      · exact ⟨rfl, rfl, rfl, fun _ => Or.inl rfl⟩
      · split_ifs <;> exact ⟨rfl, rfl, rfl, fun _ => Or.inl rfl⟩
    · exact Acked.refl l

/-- The LLC with one element marked as acknowledged. -/
def Llc.markElem (l : Llc) (i : Fin 1024) : Llc :=
  { l with txRing := Function.update l.txRing i { l.txRing i with acknowledged := true } }

theorem Llc.markElem_acked (l : Llc) (i : Fin 1024) : l.Acked (l.markElem i) := by
  refine ⟨rfl, rfl, rfl, fun j => ?_⟩
  unfold markElem
  dsimp only
  rw [Function.update_apply]
  split_ifs with hj
  · rw [hj]
    exact Or.inr rfl
  · exact Or.inl rfl

/-- What the check of a slot does: nothing, or the element is marked and its PDU is put
on the list. -/
theorem Llc.checked_cases {l : Llc} (hmode : l.txConfig.mode = .am) (slotNumber : Nat) :
    ((l.isTxEnabled = false ∨
        (l.txRing (l.sentIdx slotNumber)).acknowledged = true) ∧ l.checked slotNumber = l) ∨
    (l.isTxEnabled = true ∧
      (l.txRing (l.sentIdx slotNumber)).acknowledged = false ∧
      l.checked slotNumber =
        { l.markElem (l.sentIdx slotNumber) with
          toRetxList := l.toRetxList ++
            [{ llcTxId := (l.txRing (l.sentIdx slotNumber)).llcTxId
               retryCount := (l.txRing (l.sentIdx slotNumber)).retryCount
               pdcpPdu := (l.txRing (l.sentIdx slotNumber)).pdcpPdu }] }) := by
  unfold checked checkRetransmit sentIdx
  by_cases hon : l.isTxEnabled = true
  · rw [if_pos hon, if_neg (fun hne => hne hmode)]
    dsimp only
    split_ifs with hack
    · exact Or.inl ⟨Or.inr hack, rfl⟩
    · rw [Bool.not_eq_true] at hack
      exact Or.inr ⟨hon, hack, rfl⟩
  · rw [if_neg hon]
    rw [Bool.not_eq_true] at hon
    exact Or.inl ⟨Or.inl hon, rfl⟩

/-- The element of the slot behind a data PDU. -/
theorem Llc.recordSent_self (l : Llc) (slotNumber llcTxId retryCount : Nat) (sn : UInt8)
    (pdcpPdu : List UInt8) :
    ((l.recordSent slotNumber llcTxId retryCount sn pdcpPdu).txRing
        (txRingIndex slotNumber)).acknowledged = false ∧
      ((l.recordSent slotNumber llcTxId retryCount sn pdcpPdu).txRing
        (txRingIndex slotNumber)).retryCount = retryCount ∧
      ((l.recordSent slotNumber llcTxId retryCount sn pdcpPdu).txRing
        (txRingIndex slotNumber)).pdcpPdu = pdcpPdu := by
  unfold recordSent
  dsimp only
  by_cases hcheck : txRingIndex slotNumber =
      txRingIndex (slotNumber + l.txConfig.arqWindowSize)
  · rw [← hcheck, Function.update_self, Function.update_self]
    exact ⟨rfl, rfl, rfl⟩
  · rw [Function.update_of_ne hcheck, Function.update_self]
    exact ⟨rfl, rfl, rfl⟩

/-- The other elements behind a data PDU, up to the slot that they lead to. -/
theorem Llc.recordSent_other (l : Llc) (slotNumber llcTxId retryCount : Nat) (sn : UInt8)
    (pdcpPdu : List UInt8) {i : Fin 1024} (hi : i ≠ txRingIndex slotNumber) :
    ∃ sentIndex, (l.recordSent slotNumber llcTxId retryCount sn pdcpPdu).txRing i =
      { l.txRing i with sentIndex := sentIndex } := by
  unfold recordSent
  dsimp only
  rw [Function.update_apply]
  split_ifs with hcheck
  · rw [hcheck] at hi ⊢
    rw [Function.update_of_ne hi]
    exact ⟨_, rfl⟩
  · rw [Function.update_of_ne hi]
    exact ⟨_, rfl⟩

theorem next_ne (sn : UInt8) : sn + 1 ≠ sn := by
  intro heq
  have hone := congrArg UInt8.toNat heq
  rw [UInt8.toNat_add, show (1 : UInt8).toNat = 1 from rfl] at hone
  omega

theorem Llc.SentAs.number_ne {π : Type} {l : Llc} {slotNumber id count : Nat} {r : TxState π}
    (h : l.SentAs slotNumber id count r) : r.owner.snCounter ≠ l.snCounter := by
  rw [h.number]
  exact next_ne _

namespace Watch

variable {π : Type} {pdcpOnTx : π → LegacyPdcp.TxInfo → π × LegacyPdcp.TxInfo}

/-! ## The steps of a call -/

/-- **The steps of a call**, behind its check. -/
theorem settle_cases {w : Watch} {r : TxState π} (h : w.llc.Outcome w.now r) :
    (w.llc.Unsent r ∧ r.owner.toRetxList = w.llc.toRetxList ∧ w.settle r = w) ∨
    (w.llc.toRetxList = [] ∧ r.owner.toRetxList = [] ∧
      w.llc.SentAs w.now w.llc.llcTxId 0 r ∧ w.settle r = w.accept r) ∨
    ∃ retx others, w.llc.toRetxList = retx :: others ∧ r.owner.toRetxList = others ∧
      ((retx.retryCount + 1 ≤ w.llc.txConfig.maxRetxCount ∧
          w.llc.SentAs w.now retx.llcTxId (retx.retryCount + 1) r ∧ w.settle r = w.resend r) ∨
        ((w.llc.txConfig.maxRetxCount < retx.retryCount + 1 ∨ retx.pdcpPdu = []) ∧
          w.llc.Unsent r ∧ w.settle r = w.giveUp) ∨
        (w.llc.txConfig.maxRetxCount < retx.retryCount + 1 ∧
          w.llc.txConfig.allowRlf = false ∧
          w.llc.SentAs w.now retx.llcTxId (retx.retryCount + 1) r ∧
          w.settle r = w.giveUp.accept r)) := by
  have hpopped : ∀ {retx others}, w.llc.toRetxList = retx :: others →
      r.owner.toRetxList = others →
      ¬ r.owner.toRetxList.length = (retx :: others).length := by
    intro retx others _ hrest
    rw [hrest, List.length_cons]
    omega
  unfold settle
  dsimp only
  cases h with
  | quiet unsent list rlf =>
      left
      refine ⟨unsent, list, ?_⟩
      cases hlist : w.llc.toRetxList with
      | nil =>
          dsimp only
          rw [if_neg (fun hne => hne unsent.number)]
      | cons retx others =>
          dsimp only
          rw [if_pos (by rw [list, hlist])]
  | fresh list rest sent rlf =>
      right; left
      rw [list]
      dsimp only
      rw [if_pos sent.number_ne]
      exact ⟨rfl, rest, sent, rfl⟩
  | resent retx others list rest count sent rlf =>
      right; right
      refine ⟨retx, others, list, rest, Or.inl ⟨count, sent, ?_⟩⟩
      rw [list]
      dsimp only
      rw [if_neg (hpopped list rest), if_pos count, if_pos sent.number_ne]
  | swallowed retx others list rest count empty unsent rlf =>
      right; right
      refine ⟨retx, others, list, rest, Or.inr (Or.inl ⟨Or.inr empty, unsent, ?_⟩)⟩
      rw [list]
      dsimp only
      rw [if_neg (hpopped list rest), if_pos count, if_neg (fun hne => hne unsent.number)]
  | failed retx others list rest count allowed unsent rlf =>
      right; right
      refine ⟨retx, others, list, rest, Or.inr (Or.inl ⟨Or.inl count, unsent, ?_⟩)⟩
      rw [list]
      dsimp only
      rw [if_neg (hpopped list rest), if_neg (by omega), if_neg (fun hne => hne unsent.number)]
  | dropped retx others list rest count allowed unsent rlf =>
      right; right
      refine ⟨retx, others, list, rest, Or.inr (Or.inl ⟨Or.inl count, unsent, ?_⟩)⟩
      rw [list]
      dsimp only
      rw [if_neg (hpopped list rest), if_neg (by omega), if_neg (fun hne => hne unsent.number)]
  | replaced retx others list rest count allowed sent rlf =>
      right; right
      refine ⟨retx, others, list, rest, Or.inr (Or.inr ⟨count, allowed, sent, ?_⟩)⟩
      rw [list]
      dsimp only
      rw [if_neg (hpopped list rest), if_neg (by omega), if_pos sent.number_ne]

/-! ## What the watch keeps -/

/-- The ring and the list hold the PDUs that they should. -/
structure Faithful (w : Watch) : Prop where
  mode : w.llc.txConfig.mode = .am
  free : ∀ i, w.holder i = none → (w.llc.txRing i).acknowledged = true
  content : ∀ i t, w.waiting i = some t → (w.llc.txRing i).llcTxId = t.llcTxId ∧
    (w.llc.txRing i).retryCount = t.retryCount ∧ (w.llc.txRing i).pdcpPdu = t.kept
  list : w.llc.toRetxList = w.queued.map Transmission.retx

theorem waiting_of_acknowledged {w : Watch} {i : Fin 1024}
    (h : (w.llc.txRing i).acknowledged = true) : w.waiting i = none := if_pos h

theorem waiting_eq_holder {w : Watch} {i : Fin 1024}
    (h : (w.llc.txRing i).acknowledged = false) : w.waiting i = w.holder i :=
  if_neg (by rw [h]; exact Bool.false_ne_true)

theorem waiting_some {w : Watch} {i : Fin 1024} {t : Transmission} (h : w.waiting i = some t) :
    (w.llc.txRing i).acknowledged = false ∧ w.holder i = some t := by
  unfold waiting at h
  split_ifs at h with hack
  · rw [Bool.not_eq_true] at hack
    exact ⟨hack, h⟩

theorem holder_slot {w : Watch} {i : Fin 1024} {t : Transmission} (h : w.holder i = some t) :
    Llc.txRingIndex t.slot = i := by
  have hfound := List.find?_some h
  exact of_decide_eq_true hfound

theorem holder_mem {w : Watch} {i : Fin 1024} {t : Transmission} (h : w.holder i = some t) :
    t ∈ w.log := List.mem_of_find?_eq_some h

/-- An element that waits holds a PDU. -/
theorem Faithful.waiting_exists {w : Watch} (h : w.Faithful) {i : Fin 1024}
    (hack : (w.llc.txRing i).acknowledged = false) : ∃ t, w.waiting i = some t := by
  cases hholder : w.holder i with
  | none => exact absurd ((h.free i hholder).symm.trans hack) (by decide)
  | some t => exact ⟨t, (waiting_eq_holder hack).trans hholder⟩

/-- Elements that are marked hold nothing that waits. -/
theorem Faithful.acked {w w' : Watch} (h : w.Faithful) (hack : w.llc.Acked w'.llc)
    (hlog : w'.log = w.log) (hqueued : w'.queued = w.queued) : w'.Faithful where
  mode := by
    rw [hack.config]
    exact h.mode
  free := by
    unfold holder
    rw [hlog]
    intro i hnone
    rcases hack.ring i with hsame | hmark
    · rw [hsame]
      exact h.free i hnone
    · rw [hmark]
  content := by
    intro i t hwait
    obtain ⟨hun, hholder⟩ := waiting_some hwait
    unfold holder at hholder
    rw [hlog] at hholder
    rcases hack.ring i with hsame | hmark
    · rw [hsame] at hun ⊢
      exact h.content i t ((waiting_eq_holder hun).trans hholder)
    · rw [hmark] at hun
      cases hun
  list := by
    rw [hack.list, hqueued]
    exact h.list

/-- Elements that are marked do not wait. -/
theorem waiting_of_marked {w w' : Watch} {i : Fin 1024}
    (hring : w'.llc.txRing i = w.llc.txRing i ∨
      w'.llc.txRing i = { w.llc.txRing i with acknowledged := true })
    (hlog : w'.log = w.log) {t : Transmission} (hwait : w'.waiting i = some t) :
    w.waiting i = some t := by
  obtain ⟨hun, hholder⟩ := waiting_some hwait
  unfold holder at hholder
  rw [hlog] at hholder
  rcases hring with hsame | hmark
  · rw [hsame] at hun
    exact (waiting_eq_holder hun).trans hholder
  · rw [hmark] at hun
    cases hun

/-- What waits depends on the ring and the log only. -/
theorem waiting_congr {w w' : Watch} (hring : w'.llc.txRing = w.llc.txRing)
    (hlog : w'.log = w.log) (i : Fin 1024) : w'.waiting i = w.waiting i := by
  unfold waiting holder
  rw [hring, hlog]

/-- Without an element that waits the check of a slot puts nothing on the list. -/
theorem moved_quiet {w : Watch} {n : Nat} (h : w.llc.isTxEnabled = false ∨
    (w.llc.txRing (w.llc.sentIdx n)).acknowledged = true) : w.moved n = [] := by
  unfold moved
  rcases h with hoff | hack
  · rw [hoff]
    rfl
  · rw [waiting_of_acknowledged hack]
    split_ifs <;> rfl

theorem moved_waiting {w : Watch} {n : Nat} (hon : w.llc.isTxEnabled = true)
    {t : Transmission} (hwait : w.waiting (w.llc.sentIdx n) = some t) : w.moved n = [t] := by
  unfold moved
  rw [if_pos hon, hwait]
  rfl

theorem check_setup (w : Watch) (n : Nat) : w.llc.SameSetup (w.check n).llc := by
  show w.llc.SameSetup (w.llc.checked n)
  unfold Llc.checked
  split_ifs
  · exact w.llc.checkRetransmit_setup n
  · exact ⟨rfl, rfl, rfl, rfl, rfl, rfl, rfl, rfl⟩

/-- The check of a slot puts the PDU of the element on the list. -/
theorem Faithful.check {w : Watch} (h : w.Faithful) (slotNumber : Nat) :
    (w.check slotNumber).Faithful := by
  rcases Llc.checked_cases h.mode slotNumber with ⟨hwhy, hres⟩ | ⟨hon, hun, hres⟩
  · refine h.acked ?_ rfl ?_
    · show w.llc.Acked (w.llc.checked slotNumber)
      rw [hres]
      exact Llc.Acked.refl _
    · show w.queued ++ w.moved slotNumber = w.queued
      rw [moved_quiet hwhy, List.append_nil]
  · obtain ⟨t, hwait⟩ := h.waiting_exists hun
    obtain ⟨hid, hcount, hpdu⟩ := h.content _ t hwait
    have hmarked : Faithful { w with llc := w.llc.markElem (w.llc.sentIdx slotNumber) } :=
      h.acked (w.llc.markElem_acked _) rfl rfl
    unfold Watch.check
    rw [hres, moved_waiting hon hwait]
    refine ⟨h.mode, hmarked.free, hmarked.content, ?_⟩
    show w.llc.toRetxList ++ [_] = (w.queued ++ [t]).map Transmission.retx
    rw [List.map_append, ← h.list, hid, hcount, hpdu]
    rfl

/-- No data PDU was sent. -/
theorem Faithful.unsent {w w' : Watch} {r : TxState π} (h : w.Faithful) (hu : w.llc.Unsent r)
    (hconfig : r.owner.txConfig = w.llc.txConfig) (hllc : w'.llc = r.owner)
    (hlog : w'.log = w.log) (hlist : r.owner.toRetxList = w'.queued.map Transmission.retx) :
    w'.Faithful where
  mode := by
    rw [hllc, hconfig]
    exact h.mode
  free := by
    unfold holder
    rw [hllc, hu.ring, hlog]
    exact h.free
  content := by
    unfold waiting holder
    rw [hllc, hu.ring, hlog]
    exact h.content
  list := by
    rw [hllc]
    exact hlist

theorem holder_cons {w w' : Watch} {t : Transmission} (hlog : w'.log = t :: w.log)
    (i : Fin 1024) :
    w'.holder i = if Llc.txRingIndex t.slot = i then some t else w.holder i := by
  unfold holder
  rw [hlog, List.find?_cons]
  by_cases hi : Llc.txRingIndex t.slot = i
  · rw [if_pos hi, decide_eq_true hi]
  · rw [if_neg hi, decide_eq_false hi]

/-- What waits behind a data PDU: the PDU in its element, and what waited in the others. -/
theorem waiting_sent {w w' : Watch} {r : TxState π} {id count pdu : Nat}
    (hs : w.llc.SentAs w.now id count r) (hllc : w'.llc = r.owner)
    (hlog : w'.log = w.sentBy pdu r :: w.log) (i : Fin 1024) :
    w'.waiting i =
      if i = Llc.txRingIndex w.now then some (w.sentBy pdu r) else w.waiting i := by
  have hslot : Llc.txRingIndex (w.sentBy pdu r).slot = Llc.txRingIndex w.now := rfl
  unfold waiting
  rw [hllc, holder_cons hlog, hs.ring, hslot]
  by_cases hi : i = Llc.txRingIndex w.now
  · rw [if_pos hi, if_pos hi.symm, hi, (w.llc.recordSent_self ..).1, if_neg Bool.false_ne_true]
  · obtain ⟨sentIndex, hother⟩ := w.llc.recordSent_other w.now id count w.llc.snCounter r.kept hi
    have hne : ¬ Llc.txRingIndex w.now = i := fun heq => hi heq.symm
    rw [if_neg hi, if_neg hne, hother]

/-- A data PDU was sent. -/
theorem Faithful.sent {w w' : Watch} {r : TxState π} {id count pdu : Nat} (h : w.Faithful)
    (hs : w.llc.SentAs w.now id count r) (hconfig : r.owner.txConfig = w.llc.txConfig)
    (hllc : w'.llc = r.owner) (hlog : w'.log = w.sentBy pdu r :: w.log)
    (hlist : r.owner.toRetxList = w'.queued.map Transmission.retx) : w'.Faithful where
  mode := by
    rw [hllc, hconfig]
    exact h.mode
  free := by
    intro i hnone
    rw [holder_cons hlog] at hnone
    have hi : i ≠ Llc.txRingIndex w.now := by
      intro heq
      rw [if_pos (show Llc.txRingIndex (w.sentBy pdu r).slot = i from heq.symm)] at hnone
      cases hnone
    rw [if_neg (show ¬ Llc.txRingIndex (w.sentBy pdu r).slot = i from
      fun heq => hi heq.symm)] at hnone
    obtain ⟨sentIndex, hother⟩ := w.llc.recordSent_other w.now id count w.llc.snCounter r.kept hi
    rw [hllc, hs.ring, hother]
    exact h.free i hnone
  content := by
    intro i t hwait
    rw [waiting_sent hs hllc hlog] at hwait
    rw [hllc]
    by_cases hi : i = Llc.txRingIndex w.now
    · rw [if_pos hi] at hwait
      cases hwait
      rw [hi]
      exact ⟨rfl, rfl, rfl⟩
    · rw [if_neg hi] at hwait
      obtain ⟨sentIndex, hother⟩ := w.llc.recordSent_other w.now id count w.llc.snCounter r.kept hi
      rw [hs.ring, hother]
      exact h.content i t hwait
  list := by
    rw [hllc]
    exact hlist

/-- The front of the list and its PDU. -/
theorem Faithful.front {w : Watch} (h : w.Faithful) {retx : RetxElem} {others : List RetxElem}
    (hcons : w.llc.toRetxList = retx :: others) :
    ∃ front rest, w.queued = front :: rest ∧ front.retx = retx ∧
      rest.map Transmission.retx = others := by
  have hlist := h.list.symm.trans hcons
  cases hqueued : w.queued with
  | nil =>
      rw [hqueued] at hlist
      cases hlist
  | cons front rest =>
      rw [hqueued, List.map_cons] at hlist
      exact ⟨front, rest, rfl, (List.cons.inj hlist).1, (List.cons.inj hlist).2⟩

theorem resend_cons {w : Watch} {r : TxState π} {front : Transmission}
    {rest : List Transmission} (hqueued : w.queued = front :: rest) :
    w.resend r = { w.transmit (w.sentBy front.pdu r) with queued := rest } := by
  unfold resend
  rw [hqueued]

/-- The channel is empty: nothing waits, and the list is empty. -/
structure Clear (l : Llc) : Prop where
  mode : l.txConfig.mode = .am
  ring : ∀ i, (l.txRing i).acknowledged = true
  list : l.toRetxList = []

theorem Clear.setTxEnabled {l : Llc} (hmode : l.txConfig.mode = .am) (value : Bool) :
    Clear (l.setTxEnabled value) where
  mode := hmode
  ring := by
    intro i
    have hring : (l.setTxEnabled value).txRing = fun i =>
        { l.txRing i with acknowledged := true, sentIndex := sizeMax } := if_pos hmode
    rw [hring]
  list := rfl

theorem Clear.reconfigureTx (l : Llc) {config : TxConfig} (hmode : config.mode = .am) :
    Clear (l.reconfigureTx config) := by
  have ham : (({ l with txConfig := config } : Llc).configureCrcSize).txConfig.mode = .am := hmode
  exact Clear.setTxEnabled ham l.isTxEnabled

theorem Faithful.clear {w : Watch} (h : Clear w.llc) (hqueued : w.queued = []) :
    w.Faithful where
  mode := h.mode
  free := fun i _ => h.ring i
  content := by
    intro i t hwait
    rw [waiting_of_acknowledged (h.ring i)] at hwait
    cases hwait
  list := by
    rw [hqueued]
    exact h.list

/-- **The steps of a call of `on_tx`**: the check, and a step behind it. -/
theorem Faithful.onTx_cases (hp : PdcpAllocates pdcpOnTx) {w : Watch} (h : w.Faithful)
    (pdcp : π) (g : Grant) :
    ∃ r : TxState π, r = w.llc.onTx pdcpOnTx pdcp g.info ∧
      (w.check g.slotNumber).Faithful ∧
      r.owner.txConfig = (w.check g.slotNumber).llc.txConfig ∧
      (w.check g.slotNumber).llc.Outcome (w.check g.slotNumber).now r ∧
      w.onTx pdcpOnTx pdcp g =
        { (w.check g.slotNumber).settle r with
          llc := r.owner
          failures := ((w.check g.slotNumber).settle r).failures + if r.rlf then 1 else 0 } := by
  refine ⟨_, rfl, h.check g.slotNumber, ?_, Llc.onTx_outcome hp h.mode pdcp g, rfl⟩
  rw [(w.llc.onTx_setup pdcpOnTx pdcp g.info).txConfig, (w.check_setup g.slotNumber).txConfig]

theorem Faithful.onTx (hp : PdcpAllocates pdcpOnTx) {w : Watch} (h : w.Faithful) (pdcp : π)
    (g : Grant) : (w.onTx pdcpOnTx pdcp g).Faithful := by
  obtain ⟨r, -, hw, hconfig, hout, hres⟩ := h.onTx_cases hp pdcp g
  rw [hres]
  generalize w.check g.slotNumber = w₁ at hw hconfig hout ⊢
  rcases settle_cases hout with ⟨hu, hlist, hset⟩ | ⟨hnil, hrest, hs, hset⟩ |
    ⟨retx, others, hcons, hrest, hway⟩
  · rw [hset]
    exact hw.unsent hu hconfig rfl rfl (hlist.trans hw.list)
  · rw [hset]
    exact hw.sent hs hconfig rfl rfl (hrest.trans (hnil.symm.trans hw.list))
  · obtain ⟨front, rest, hqueued, -, hothers⟩ := hw.front hcons
    have htail : r.owner.toRetxList = w₁.queued.tail.map Transmission.retx := by
      rw [hrest, ← hothers, hqueued]
      rfl
    rcases hway with ⟨-, hs, hset⟩ | ⟨-, hu, hset⟩ | ⟨-, -, hs, hset⟩
    · rw [hset, resend_cons hqueued]
      rw [hqueued] at htail
      exact hw.sent hs hconfig rfl rfl htail
    · rw [hset]
      exact hw.unsent hu hconfig rfl rfl htail
    · rw [hset]
      exact hw.sent hs hconfig rfl rfl htail

/-- **The ring and the list hold the PDUs that they should** behind every call that
leaves the channel an acknowledged one. -/
theorem Faithful.step (hp : PdcpAllocates pdcpOnTx) {w : Watch} (h : w.Faithful) {c : Call π}
    (hc : c.IsAm) : (w.step pdcpOnTx c).Faithful := by
  cases c with
  | onTx pdcp grant => exact h.onTx hp pdcp grant
  | setTxEnabled value => exact Faithful.clear (Clear.setTxEnabled h.mode value) rfl
  | reconfigureTx config => exact Faithful.clear (Clear.reconfigureTx w.llc hc) rfl
  | reconfigureRx config => exact h.acked ⟨rfl, rfl, rfl, fun _ => Or.inl rfl⟩ rfl rfl
  | setRxEnabled value => exact h.acked ⟨rfl, rfl, rfl, fun _ => Or.inl rfl⟩ rfl rfl
  | onRx info => exact h.acked (w.llc.onRx_acked info) rfl rfl

end Watch

end Winject.LegacyLlc
