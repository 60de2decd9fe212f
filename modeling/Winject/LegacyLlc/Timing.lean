import Winject.LegacyLlc.AckRing
import Winject.LegacyLlc.Watch

/-!
# When a PDU is put on the retransmission list

The check of a slot `n` should take the PDU that was sent in the slot `n - W`, if it is
still waiting.  It looks at the element that `sent_index` of the slot leads to.  When no
PDU was sent in a slot congruent to `n - W` since the transmitter was enabled, that
index is `-1`, which is 1023 modulo the size of the ring: the check then takes the PDU of
element 1023, in whatever slot that was sent.

## Main results

* `Timed.step` — what the checks of consecutive slots leave in the ring.
* `Timed.exact_iff` — one check.
* `retransmission_timing_iff` — every check of a run.
* `slot_1023_too_early` — a PDU that is put on the list a slot after it was sent.
-/

namespace Winject.LegacyLlc

open Winject.Lib.Runs

namespace Watch

/-- The PDU is neither acknowledged nor on the list: it waits in the ring, or was taken
out of it by another PDU while it was waiting. -/
def Unacked (w : Watch) (t : Transmission) : Prop :=
  w.waiting (Llc.txRingIndex t.slot) = some t ∨ t ∈ w.lost

/-- The check of a slot takes the PDUs that were sent a window before it and are not
acknowledged, and no others. -/
structure RetransmitsExactly (w : Watch) (slotNumber : Nat) : Prop where
  moved : ∃ ts : List Transmission,
    (w.llc.checkRetransmit slotNumber).toRetxList =
      w.llc.toRetxList ++ ts.map Transmission.retx ∧
    ∀ t, t ∈ ts ↔ t.slot + w.llc.txConfig.arqWindowSize = slotNumber ∧ w.Unacked t
  only : ∀ i, (w.llc.checkRetransmit slotNumber).txRing i ≠ w.llc.txRing i →
    ∃ t, w.waiting i = some t ∧ t.slot + w.llc.txConfig.arqWindowSize = slotNumber

/-- The slot leads to an element, or nothing waits in element 1023; and no PDU of the slot
a window before was taken out of the ring by another one. -/
structure CheckFits (w : Watch) (slotNumber : Nat) : Prop where
  leads : (w.llc.txRing (Llc.txRingIndex slotNumber)).sentIndex = sizeMax →
    (w.llc.txRing 1023).acknowledged = true
  kept : ∀ t ∈ w.lost, t.slot + w.llc.txConfig.arqWindowSize ≠ slotNumber

/-- What the checks of consecutive slots leave in the ring. -/
structure Timed (w : Watch) : Prop where
  faithful : w.Faithful
  enabled : w.llc.isTxEnabled = true
  window : 0 < w.llc.txConfig.arqWindowSize ∧ w.llc.txConfig.arqWindowSize < 1024
  check : ∀ t ∈ w.log,
    (w.llc.txRing (Llc.txRingIndex (t.slot + w.llc.txConfig.arqWindowSize))).sentIndex =
      Llc.txRingIndex t.slot
  unset : ∀ i, (∀ t ∈ w.log, Llc.txRingIndex (t.slot + w.llc.txConfig.arqWindowSize) ≠ i) →
    (w.llc.txRing i).sentIndex = sizeMax
  past : ∀ t ∈ w.log, t.slot ≤ w.now
  due : ∀ i t, w.waiting i = some t → w.now < t.slot + w.llc.txConfig.arqWindowSize
  serial : ∀ t ∈ w.log, t.serial < w.log.length
  lost : ∀ t ∈ w.lost, t ∈ w.log ∧ w.holder (Llc.txRingIndex t.slot) ≠ some t

/-! ## One check -/

theorem txRingIndex_sizeMax : Llc.txRingIndex sizeMax = 1023 := by decide

theorem txRingIndex_ne_sizeMax (slot : Nat) : (Llc.txRingIndex slot : Nat) ≠ sizeMax := by
  have hlt := (Llc.txRingIndex slot).isLt
  unfold sizeMax
  omega

/-- The slot a window behind a PDU leads to its element. -/
theorem Timed.sentIdx {w : Watch} (h : w.Timed) {t : Transmission} {n : Nat} (ht : t ∈ w.log)
    (hn : t.slot + w.llc.txConfig.arqWindowSize = n) :
    (w.llc.txRing (Llc.txRingIndex n)).sentIndex = Llc.txRingIndex t.slot ∧
      w.llc.sentIdx n = Llc.txRingIndex t.slot := by
  have hcheck := h.check t ht
  rw [hn] at hcheck
  refine ⟨hcheck, ?_⟩
  unfold Llc.sentIdx
  rw [hcheck, Channel.txRingIndex_val]

/-- What waits in the element that a slot leads to was sent a window before the slot. -/
theorem Timed.waiting_due {w : Watch} (h : w.Timed) {t : Transmission} {n : Nat}
    (hn : n = w.now ∨ n = w.now + 1)
    (hset : (w.llc.txRing (Llc.txRingIndex n)).sentIndex ≠ sizeMax)
    (hwait : w.waiting (w.llc.sentIdx n) = some t) :
    t.slot + w.llc.txConfig.arqWindowSize = n := by
  obtain ⟨x, hx, hidx⟩ : ∃ x ∈ w.log,
      Llc.txRingIndex (x.slot + w.llc.txConfig.arqWindowSize) = Llc.txRingIndex n := by
    by_contra hnone
    refine hset (h.unset _ fun x hx heq => hnone ⟨x, hx, heq⟩)
  have hcheck := h.check x hx
  rw [hidx] at hcheck
  have hholder := (waiting_some hwait).2
  have hslot := holder_slot hholder
  unfold Llc.sentIdx at hslot
  rw [hcheck, Channel.txRingIndex_val] at hslot
  have hlow := h.due _ t hwait
  have hhigh := h.past t (holder_mem hholder)
  have hwindow := h.window
  have hmod : (x.slot + w.llc.txConfig.arqWindowSize) % 1024 = n % 1024 := congrArg Fin.val hidx
  have hsame : t.slot % 1024 = x.slot % 1024 := congrArg Fin.val hslot
  omega

/-- What is not acknowledged was sent. -/
theorem Timed.mem_of_unacked {w : Watch} (h : w.Timed) {t : Transmission} (ht : w.Unacked t) :
    t ∈ w.log := by
  rcases ht with hwait | hlost
  · exact holder_mem (waiting_some hwait).2
  · exact (h.lost t hlost).1

/-- A check that takes nothing. -/
theorem Timed.exact_quiet {w : Watch} (h : w.Timed) {n : Nat}
    (hack : (w.llc.txRing (w.llc.sentIdx n)).acknowledged = true)
    (hsame : w.llc.checkRetransmit n = w.llc) : w.RetransmitsExactly n ↔ w.CheckFits n := by
  have hnone : ∀ t, t.slot + w.llc.txConfig.arqWindowSize = n → w.Unacked t → t ∈ w.lost := by
    intro t hslot hun
    rcases hun with hwait | hlost
    · have hidx := (h.sentIdx (holder_mem (waiting_some hwait).2) hslot).2
      rw [← hidx, waiting_of_acknowledged hack] at hwait
      cases hwait
    · exact hlost
  constructor
  · rintro ⟨⟨ts, hlist, hts⟩, -⟩
    have hnil : ts = [] := by
      rw [hsame, List.self_eq_append_right, List.map_eq_nil_iff] at hlist
      exact hlist
    refine ⟨fun hunset => ?_, fun t hlost hslot => ?_⟩
    · unfold Llc.sentIdx at hack
      rw [hunset, txRingIndex_sizeMax] at hack
      exact hack
    · have hmem := (hts t).mpr ⟨hslot, Or.inr hlost⟩
      rw [hnil] at hmem
      exact List.not_mem_nil hmem
  · intro hfits
    refine ⟨⟨[], ?_, fun t => ⟨fun hmem => (List.not_mem_nil hmem).elim, fun hand => ?_⟩⟩,
      fun i hne => ?_⟩
    · rw [hsame]
      exact (List.append_nil _).symm
    · exact absurd hand.1 (hfits.kept t (hnone t hand.1 hand.2))
    · rw [hsame] at hne
      exact absurd rfl hne

/-- A check that takes the PDU of an element. -/
theorem Timed.exact_taken {w : Watch} (h : w.Timed) {n : Nat} (hn : n = w.now ∨ n = w.now + 1)
    (hun : (w.llc.txRing (w.llc.sentIdx n)).acknowledged = false) {q : Transmission}
    (hwait : w.waiting (w.llc.sentIdx n) = some q)
    (hlist : (w.llc.checkRetransmit n).toRetxList = w.llc.toRetxList ++ [q.retx])
    (hring : (w.llc.checkRetransmit n).txRing = (w.llc.markElem (w.llc.sentIdx n)).txRing) :
    w.RetransmitsExactly n ↔ w.CheckFits n := by
  have hqslot := holder_slot (waiting_some hwait).2
  have hqunacked : w.Unacked q := by
    refine Or.inl ?_
    rw [hqslot]
    exact hwait
  constructor
  · rintro ⟨⟨ts, hts, hmem⟩, -⟩
    obtain ⟨x, rfl⟩ : ∃ x, ts = [x] := by
      rw [hlist] at hts
      have hlen := congrArg List.length hts
      rw [List.length_append, List.length_append, List.length_map, List.length_singleton] at hlen
      exact List.length_eq_one_iff.mp (by omega)
    obtain ⟨hxslot, hxun⟩ := (hmem x).mp (List.mem_singleton_self x)
    have hset := (h.sentIdx (h.mem_of_unacked hxun) hxslot).1
    have hleads : (w.llc.txRing (Llc.txRingIndex n)).sentIndex ≠ sizeMax := by
      rw [hset]
      exact txRingIndex_ne_sizeMax x.slot
    refine ⟨fun hunset => absurd hunset hleads, fun t hlost hslot => ?_⟩
    -- The PDU that waits is also one that should be taken, so it is the one that was lost.
    have hq := (hmem q).mpr ⟨h.waiting_due hn hleads hwait, hqunacked⟩
    have ht := (hmem t).mpr ⟨hslot, Or.inr hlost⟩
    have hsame : t = q := (List.mem_singleton.mp ht).trans (List.mem_singleton.mp hq).symm
    apply (h.lost t hlost).2
    rw [hsame, hqslot]
    exact (waiting_some hwait).2
  · intro hfits
    have hleads : (w.llc.txRing (Llc.txRingIndex n)).sentIndex ≠ sizeMax := by
      intro hunset
      have hack := hfits.leads hunset
      have hidx : w.llc.sentIdx n = 1023 := by
        unfold Llc.sentIdx
        rw [hunset, txRingIndex_sizeMax]
      rw [hidx] at hun
      exact absurd (hack.symm.trans hun) (by decide)
    have hdue := h.waiting_due hn hleads hwait
    refine ⟨⟨[q], hlist, fun t => ?_⟩, fun i hne => ?_⟩
    · rw [List.mem_singleton]
      constructor
      · intro heq
        rw [heq]
        exact ⟨hdue, hqunacked⟩
      · rintro ⟨hslot, hwaits | hlost⟩
        · have hidx := (h.sentIdx (holder_mem (waiting_some hwaits).2) hslot).2
          rw [← hidx, hwait] at hwaits
          exact (Option.some.inj hwaits).symm
        · exact absurd hslot (hfits.kept t hlost)
    · have hi : i = w.llc.sentIdx n := by
        by_contra hother
        rw [hring] at hne
        exact hne (Function.update_of_ne hother _ _)
      rw [hi]
      exact ⟨q, hwait, hdue⟩

/-- **One check** is exact iff its slot leads to an element, or nothing waits in element
1023, and no PDU that it should take was taken out of the ring before. -/
theorem Timed.exact_iff {w : Watch} (h : w.Timed) {n : Nat} (hn : n = w.now ∨ n = w.now + 1) :
    w.RetransmitsExactly n ↔ w.CheckFits n := by
  have hchecked : w.llc.checkRetransmit n = w.llc.checked n := by
    unfold Llc.checked
    rw [if_pos h.enabled]
  rcases Llc.checked_cases h.faithful.mode n with ⟨hwhy, hres⟩ | ⟨-, hun, hres⟩
  · have hack : (w.llc.txRing (w.llc.sentIdx n)).acknowledged = true := by
      rcases hwhy with hoff | hack
      · exact absurd (hoff.symm.trans h.enabled) (by decide)
      · exact hack
    exact h.exact_quiet hack (hchecked.trans hres)
  · obtain ⟨q, hwait⟩ := h.faithful.waiting_exists hun
    obtain ⟨hid, hcount, hpdu⟩ := h.faithful.content _ q hwait
    apply h.exact_taken hn hun hwait
    · rw [hchecked, hres]
      dsimp only
      rw [hid, hcount, hpdu]
      rfl
    · rw [hchecked, hres]

/-! ## The steps -/

theorem sentIndex_of_marked {l l' : Llc} {i : Fin 1024} (hring : l'.txRing i = l.txRing i ∨
    l'.txRing i = { l.txRing i with acknowledged := true }) :
    (l'.txRing i).sentIndex = (l.txRing i).sentIndex := by
  rcases hring with hsame | hmark
  · rw [hsame]
  · rw [hmark]

/-- Elements were marked, and time has not gone on. -/
theorem Timed.acked {w w' : Watch} (h : w.Timed) (hack : w.llc.Acked w'.llc)
    (hlog : w'.log = w.log) (hqueued : w'.queued = w.queued) (hlost : w'.lost = w.lost)
    (hnow : w'.now = w.now) : w'.Timed where
  faithful := h.faithful.acked hack hlog hqueued
  enabled := hack.enabled.trans h.enabled
  window := by
    rw [hack.config]
    exact h.window
  check := by
    rw [hlog, hack.config]
    intro t ht
    rw [sentIndex_of_marked (hack.ring _)]
    exact h.check t ht
  unset := by
    rw [hlog, hack.config]
    intro i hnone
    rw [sentIndex_of_marked (hack.ring _)]
    exact h.unset i hnone
  past := by
    rw [hlog, hnow]
    exact h.past
  due := by
    rw [hack.config, hnow]
    intro i t hwait
    exact h.due i t (waiting_of_marked (hack.ring i) hlog hwait)
  serial := by
    rw [hlog]
    exact h.serial
  lost := by
    unfold holder
    rw [hlost, hlog]
    exact h.lost

/-- The check of a slot marks elements, the one that the slot leads to among them. -/
theorem Timed.check_ring {w : Watch} (h : w.Timed) (n : Nat) :
    (∀ i, (w.check n).llc.txRing i = w.llc.txRing i ∨
      (w.check n).llc.txRing i = { w.llc.txRing i with acknowledged := true }) ∧
    ((w.check n).llc.txRing (w.llc.sentIdx n)).acknowledged = true := by
  unfold Watch.check
  rcases Llc.checked_cases h.faithful.mode n with ⟨hwhy, hres⟩ | ⟨-, -, hres⟩
  · rw [hres]
    refine ⟨fun i => Or.inl rfl, ?_⟩
    rcases hwhy with hoff | hack
    · exact absurd (hoff.symm.trans h.enabled) (by decide)
    · exact hack
  · rw [hres]
    refine ⟨(w.llc.markElem_acked _).ring, ?_⟩
    show (Function.update w.llc.txRing _ _ _).acknowledged = true
    rw [Function.update_self]

/-- The check of the slot, or of the next one. -/
theorem Timed.checkSlot {w : Watch} (h : w.Timed) {n : Nat} (hn : n = w.now ∨ n = w.now + 1) :
    (w.check n).Timed := by
  obtain ⟨hring, htarget⟩ := h.check_ring n
  have hconfig := (w.check_setup n).txConfig
  have henabled := (w.check_setup n).isTxEnabled
  have hindex : ∀ i, ((w.check n).llc.txRing i).sentIndex = (w.llc.txRing i).sentIndex :=
    fun i => sentIndex_of_marked (hring i)
  refine
    { faithful := h.faithful.check n
      enabled := henabled.trans h.enabled
      window := by
        rw [hconfig]
        exact h.window
      check := ?_
      unset := ?_
      past := ?_
      due := ?_
      serial := h.serial
      lost := h.lost }
  · rw [hconfig]
    intro t ht
    rw [hindex]
    exact h.check t ht
  · rw [hconfig]
    intro i hnone
    rw [hindex]
    exact h.unset i hnone
  · intro t ht
    have hpast := h.past t ht
    show t.slot ≤ n
    omega
  · rw [hconfig]
    intro i t hwait
    have hold := waiting_of_marked (hring i) rfl hwait
    have hdue := h.due i t hold
    obtain ⟨hun, hholder⟩ := waiting_some hwait
    show n < t.slot + w.llc.txConfig.arqWindowSize
    by_contra hnot
    have hidx := (h.sentIdx (t := t) (n := n) (holder_mem hholder) (by omega)).2
    rw [hidx, holder_slot hholder] at htarget
    exact absurd (htarget.symm.trans hun) (by decide)

section Sent

variable {π : Type} {r : TxState π}

/-- No data PDU was sent. -/
theorem Timed.unsent {w w' : Watch} (h : w.Timed) (hfaithful : w'.Faithful)
    (hu : w.llc.Unsent r) (hsetup : r.owner.txConfig = w.llc.txConfig ∧
      r.owner.isTxEnabled = w.llc.isTxEnabled) (hllc : w'.llc = r.owner)
    (hlog : w'.log = w.log) (hlost : w'.lost = w.lost) (hnow : w'.now = w.now) : w'.Timed where
  faithful := hfaithful
  enabled := by
    rw [hllc, hsetup.2]
    exact h.enabled
  window := by
    rw [hllc, hsetup.1]
    exact h.window
  check := by
    rw [hllc, hsetup.1, hu.ring, hlog]
    exact h.check
  unset := by
    rw [hllc, hsetup.1, hu.ring, hlog]
    exact h.unset
  past := by
    rw [hlog, hnow]
    exact h.past
  due := by
    unfold waiting holder
    rw [hllc, hsetup.1, hu.ring, hlog, hnow]
    exact h.due
  serial := by
    rw [hlog]
    exact h.serial
  lost := by
    unfold holder
    rw [hlost, hlog]
    exact h.lost

/-- A data PDU was sent. -/
theorem Timed.sent {w w' : Watch} {id count pdu : Nat} (h : w.Timed) (hfaithful : w'.Faithful)
    (hs : w.llc.SentAs w.now id count r) (hsetup : r.owner.txConfig = w.llc.txConfig ∧
      r.owner.isTxEnabled = w.llc.isTxEnabled) (hllc : w'.llc = r.owner)
    (hlog : w'.log = w.sentBy pdu r :: w.log)
    (hlost : w'.lost = (w.waiting (Llc.txRingIndex w.now)).toList ++ w.lost)
    (hnow : w'.now = w.now) : w'.Timed := by
  have hwindow := h.window
  have hconfig : w'.llc.txConfig = w.llc.txConfig := by
    rw [hllc]
    exact hsetup.1
  have hindex : ∀ i, (w'.llc.txRing i).sentIndex =
      if i = Llc.txRingIndex (w.now + w.llc.txConfig.arqWindowSize) then
        (Llc.txRingIndex w.now : Nat)
      else (w.llc.txRing i).sentIndex := by
    intro i
    rw [hllc, hs.ring]
    exact Channel.recordSent_sentIndex ..
  have hnew : ∀ x ∈ w.log, w.sentBy pdu r ≠ x := by
    intro x hx heq
    have hlt := h.serial x hx
    rw [← heq] at hlt
    exact Nat.lt_irrefl _ hlt
  refine
    { faithful := hfaithful
      enabled := by
        rw [hllc, hsetup.2]
        exact h.enabled
      window := by
        rw [hconfig]
        exact hwindow
      check := ?_
      unset := ?_
      past := ?_
      due := ?_
      serial := ?_
      lost := ?_ }
  · rw [hlog, hconfig]
    intro t ht
    rw [hindex]
    rcases List.mem_cons.mp ht with rfl | hold
    · exact if_pos rfl
    · split_ifs with hidx
      · rw [Channel.txRingIndex_check hidx]
      · exact h.check t hold
  · rw [hlog, hconfig]
    intro i hnone
    have hself : Llc.txRingIndex (w.now + w.llc.txConfig.arqWindowSize) ≠ i :=
      hnone (w.sentBy pdu r) (List.mem_cons_self ..)
    rw [hindex, if_neg hself.symm]
    exact h.unset i fun t ht => hnone t (List.mem_cons_of_mem _ ht)
  · rw [hlog, hnow]
    intro t ht
    rcases List.mem_cons.mp ht with rfl | hold
    · exact le_refl w.now
    · exact h.past t hold
  · rw [hconfig, hnow]
    intro i t hwait
    rw [waiting_sent hs hllc hlog] at hwait
    split_ifs at hwait with hi
    · cases hwait
      show w.now < w.now + w.llc.txConfig.arqWindowSize
      omega
    · exact h.due i t hwait
  · rw [hlog]
    intro t ht
    rw [List.length_cons]
    rcases List.mem_cons.mp ht with rfl | hold
    · exact Nat.lt_succ_self w.log.length
    · exact (h.serial t hold).trans (Nat.lt_succ_self _)
  · rw [hlost, hlog]
    intro t ht
    have hmem : t ∈ w.log ∧ (w.holder (Llc.txRingIndex t.slot) ≠ some t ∨
        Llc.txRingIndex w.now = Llc.txRingIndex t.slot) := by
      rcases List.mem_append.mp ht with htaken | hold
      · have hwait : w.waiting (Llc.txRingIndex w.now) = some t := Option.mem_toList.mp htaken
        have hholder := (waiting_some hwait).2
        exact ⟨holder_mem hholder, Or.inr (holder_slot hholder).symm⟩
      · exact ⟨(h.lost t hold).1, Or.inl (h.lost t hold).2⟩
    refine ⟨List.mem_cons_of_mem _ hmem.1, ?_⟩
    rw [holder_cons hlog]
    split_ifs with hidx
    · exact fun heq => hnew t hmem.1 (Option.some.inj heq)
    · exact hmem.2.resolve_right hidx

end Sent

/-! ## Runs -/

section Runs

variable {π : Type} {pdcpOnTx : π → LegacyPdcp.TxInfo → π × LegacyPdcp.TxInfo}

theorem Timed.onTx (hp : PdcpAllocates pdcpOnTx) {w : Watch} (h : w.Timed) (pdcp : π)
    {g : Grant} (hn : g.slotNumber = w.now ∨ g.slotNumber = w.now + 1) :
    (w.onTx pdcpOnTx pdcp g).Timed := by
  have hfaithful := h.faithful.onTx hp pdcp g
  obtain ⟨r, hr, -, hconfig, hout, hres⟩ := h.faithful.onTx_cases hp pdcp g
  have hchecked := h.checkSlot hn
  have hsetup : r.owner.txConfig = (w.check g.slotNumber).llc.txConfig ∧
      r.owner.isTxEnabled = (w.check g.slotNumber).llc.isTxEnabled := by
    refine ⟨hconfig, ?_⟩
    rw [(w.check_setup g.slotNumber).isTxEnabled, hr]
    exact (w.llc.onTx_setup pdcpOnTx pdcp g.info).isTxEnabled
  rw [hres] at hfaithful ⊢
  generalize w.check g.slotNumber = w₁ at hfaithful hout hchecked hsetup ⊢
  rcases settle_cases hout with ⟨hu, -, hset⟩ | ⟨-, -, hs, hset⟩ |
    ⟨retx, others, hcons, -, ⟨-, hs, hset⟩ | ⟨-, hu, hset⟩ | ⟨-, -, hs, hset⟩⟩
  · rw [hset] at hfaithful ⊢
    exact hchecked.unsent hfaithful hu hsetup rfl rfl rfl rfl
  · rw [hset] at hfaithful ⊢
    exact hchecked.sent hfaithful hs hsetup rfl rfl rfl rfl
  · obtain ⟨front, rest, hqueued, -, -⟩ := hchecked.faithful.front hcons
    rw [hset, resend_cons hqueued] at hfaithful ⊢
    exact hchecked.sent hfaithful hs hsetup rfl rfl rfl rfl
  · rw [hset] at hfaithful ⊢
    exact hchecked.unsent hfaithful hu hsetup rfl rfl rfl rfl
  · rw [hset] at hfaithful ⊢
    exact hchecked.sent hfaithful hs hsetup rfl rfl rfl rfl

/-- The transmitter is not enabled or configured again, and `on_tx` is called in the slot
of the last call or in the next one. -/
def Consecutive (w : Watch) : Call π → Prop
  | .onTx _ grant => grant.slotNumber = w.now ∨ grant.slotNumber = w.now + 1
  | .setTxEnabled _ | .reconfigureTx _ => False
  | .setRxEnabled _ | .reconfigureRx _ | .onRx _ => True

/-- The check of a call is exact. -/
def ChecksExactly (w : Watch) : Call π → Prop
  | .onTx _ grant => w.RetransmitsExactly grant.slotNumber
  | _ => True

/-- The check of a call meets the condition. -/
def ChecksFit (w : Watch) : Call π → Prop
  | .onTx _ grant => w.CheckFits grant.slotNumber
  | _ => True

/-- **What the checks leave in the ring** behind every call. -/
theorem Timed.step (hp : PdcpAllocates pdcpOnTx) {w : Watch} (h : w.Timed) {c : Call π}
    (hc : w.Consecutive c) : (w.step pdcpOnTx c).Timed := by
  cases c with
  | onTx pdcp grant => exact h.onTx hp pdcp hc
  | setTxEnabled value => exact hc.elim
  | reconfigureTx config => exact hc.elim
  | reconfigureRx config =>
      exact h.acked ⟨rfl, rfl, rfl, fun _ => Or.inl rfl⟩ rfl rfl rfl rfl
  | setRxEnabled value =>
      exact h.acked ⟨rfl, rfl, rfl, fun _ => Or.inl rfl⟩ rfl rfl rfl rfl
  | onRx info => exact h.acked (w.llc.onRx_acked info) rfl rfl rfl rfl

/-- Behind the call that enables the transmitter. -/
theorem Timed.start {l : Llc} (hmode : l.txConfig.mode = .am)
    (hwindow : 0 < l.txConfig.arqWindowSize ∧ l.txConfig.arqWindowSize < 1024) (first : Nat) :
    Timed { llc := l.setTxEnabled true, now := first } where
  faithful := Faithful.clear (Clear.setTxEnabled hmode true) rfl
  enabled := rfl
  window := hwindow
  check := fun _ hmem => (List.not_mem_nil hmem).elim
  unset := by
    intro i _
    have hring : (l.setTxEnabled true).txRing = fun i =>
        { l.txRing i with acknowledged := true, sentIndex := sizeMax } := if_pos hmode
    rw [hring]
  past := fun _ hmem => (List.not_mem_nil hmem).elim
  due := by
    intro i t hwait
    cases (waiting_some hwait).2
  serial := fun _ hmem => (List.not_mem_nil hmem).elim
  lost := fun _ hmem => (List.not_mem_nil hmem).elim

/-- **The timing of retransmissions**: in a run over consecutive slots behind the call
that enables the transmitter, every check is exact iff every check meets the
condition. -/
theorem retransmission_timing_iff (hp : PdcpAllocates pdcpOnTx) (l : Llc)
    (hmode : l.txConfig.mode = .am)
    (hwindow : 0 < l.txConfig.arqWindowSize ∧ l.txConfig.arqWindowSize < 1024) (first : Nat)
    (calls : List (Call π))
    (hrun : Steps (step pdcpOnTx) Consecutive { llc := l.setTxEnabled true, now := first }
      calls) :
    Steps (step pdcpOnTx) ChecksExactly { llc := l.setTxEnabled true, now := first } calls ↔
      Steps (step pdcpOnTx) ChecksFit { llc := l.setTxEnabled true, now := first } calls := by
  have hkeeps : ∀ (w : Watch) (c : Call π), w.Timed → w.Consecutive c →
      (w.step pdcpOnTx c).Timed := fun w c h hc => h.step hp hc
  refine steps_iff_along hkeeps (fun w c h hc => ?_) calls (Timed.start hmode hwindow first) hrun
  cases c with
  | onTx pdcp grant => exact h.exact_iff hc
  | _ => exact Iff.rfl

end Runs

/-! ## A slot too early -/

/-- An acknowledged channel with a window of two slots. -/
def twoSlots : Llc :=
  Llc.new 1 { mode := .am, arqWindowSize := 2, maxRetxCount := 3 } { mode := .am }

/-- A PDU is sent in slot 0 and put on the list in slot 2. -/
theorem slot_0_in_time :
    Steps (step fifoOnTx) ChecksExactly { llc := twoSlots.setTxEnabled true, now := 0 }
      [.onTx [[0xA0]] (tenBytes 0), .onTx [] (tenBytes 1), .onTx [] (tenBytes 2)] := by
  have hrun : Steps (step fifoOnTx) Consecutive
      { llc := twoSlots.setTxEnabled true, now := 0 }
      [.onTx [[0xA0]] (tenBytes 0), .onTx [] (tenBytes 1), .onTx [] (tenBytes 2)] :=
    ⟨Or.inl rfl, Or.inr rfl, Or.inr rfl, trivial⟩
  apply (retransmission_timing_iff fifoOnTx_allocates twoSlots rfl ⟨by decide, by decide⟩ 0 _
    hrun).mpr
  refine ⟨?_, ?_, ?_, trivial⟩
  · exact ⟨fun _ => by decide +kernel, fun t ht => (List.not_mem_nil ht).elim⟩
  · refine ⟨fun _ => by decide +kernel, fun t ht => ?_⟩
    rw [show (Watch.step fifoOnTx { llc := twoSlots.setTxEnabled true, now := 0 }
      (.onTx [[0xA0]] (tenBytes 0))).lost = [] by decide +kernel] at ht
    exact (List.not_mem_nil ht).elim
  · refine ⟨fun _ => by decide +kernel, fun t ht => ?_⟩
    rw [show (Watch.step fifoOnTx (Watch.step fifoOnTx
      { llc := twoSlots.setTxEnabled true, now := 0 } (.onTx [[0xA0]] (tenBytes 0)))
      (.onTx [] (tenBytes 1))).lost = [] by decide +kernel] at ht
    exact (List.not_mem_nil ht).elim

/-- The first PDU is sent in slot 1023.  The check of slot 1024 finds an element that no
PDU leads to, and puts the PDU on the list. -/
theorem slot_1023_too_early :
    Steps (step fifoOnTx) Consecutive { llc := twoSlots.setTxEnabled true, now := 1023 }
        [.onTx [[0xA0]] (tenBytes 1023), .onTx [] (tenBytes 1024)] ∧
      ¬ Steps (step fifoOnTx) ChecksExactly { llc := twoSlots.setTxEnabled true, now := 1023 }
        [.onTx [[0xA0]] (tenBytes 1023), .onTx [] (tenBytes 1024)] := by
  refine ⟨⟨Or.inl rfl, Or.inr rfl, trivial⟩, ?_⟩
  rintro ⟨-, hlast, -⟩
  obtain ⟨t, hwait, hslot⟩ := hlast.only 1023
    (fun heq => absurd (congrArg TxRingElem.acknowledged heq) (by decide +kernel))
  have hsent : ((Watch.step fifoOnTx { llc := twoSlots.setTxEnabled true, now := 1023 }
      (.onTx [[0xA0]] (tenBytes 1023))).waiting 1023).map Transmission.slot = some 1023 := by
    decide +kernel
  rw [hwait] at hsent
  have hat : t.slot = 1023 := Option.some.inj hsent
  rw [hat] at hslot
  exact absurd hslot (by decide +kernel)

end Watch

end Winject.LegacyLlc
