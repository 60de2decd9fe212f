import Winject.Llc.UlTransitions

/-!
# The retry counts of the LLC uplink

`History` is the object with the data PDUs that it emitted, in their order.  Along any
run the retry count of a PDU that is kept is one less than the number of its emissions
and at most `max_retx_count`, and a PDU is given up when this number is reached.

## Main results

* `InBudget.step` — one call.
* `retry_budget` — runs.
-/

namespace Winject.Llc

open Winject.Lib.Runs

namespace LlcUl

/-! ## The distance of a check -/

/-- The distance of the check lies between the two that are configured. -/
theorem recheckSlotSize_bounds {u : LlcUl} (hvalid : u.config.isValid = true)
    {retryCount : UInt64} (hle : retryCount ≤ u.config.maxRetxCount) :
    u.config.minRecheckSlotNumber ≤ u.recheckSlotSize retryCount ∧
      u.recheckSlotSize retryCount ≤ u.config.maxRecheckSlotNumber := by
  obtain ⟨-, -, -, hmax, hretx⟩ := LlcUlConfig.isValid_iff.mp hvalid
  have hminmax : u.config.minRecheckSlotNumber ≤ u.config.maxRecheckSlotNumber :=
    UInt64.not_lt.mp hmax
  have hpos : 0 < u.config.maxRetxCount.toNat := by
    rw [Nat.pos_iff_ne_zero]
    exact fun hzero => hretx (UInt64.toNat_inj.mp hzero)
  rw [UInt64.le_iff_toNat_le] at hminmax hle
  have hlt := u.config.maxRecheckSlotNumber.toNat_lt
  have hspan : (u.config.maxRecheckSlotNumber - u.config.minRecheckSlotNumber).toNat =
      u.config.maxRecheckSlotNumber.toNat - u.config.minRecheckSlotNumber.toNat :=
    UInt64.toNat_sub_of_le _ _ (UInt64.le_iff_toNat_le.mpr hminmax)
  -- a product that wraps around is smaller still
  have hshare : (retryCount *
      (u.config.maxRecheckSlotNumber - u.config.minRecheckSlotNumber) /
        u.config.maxRetxCount).toNat ≤
      u.config.maxRecheckSlotNumber.toNat - u.config.minRecheckSlotNumber.toNat := by
    rw [UInt64.toNat_div, UInt64.toNat_mul, hspan]
    apply Nat.div_le_of_le_mul
    exact le_trans (Nat.mod_le _ _) (Nat.mul_le_mul_right _ hle)
  rw [UInt64.le_iff_toNat_le, UInt64.le_iff_toNat_le]
  unfold recheckSlotSize
  rw [UInt64.toNat_add, Nat.mod_eq_of_lt (by omega)]
  omega

/-- The retry count of a PDU that is emitted. -/
theorem emission_le {u : LlcUl} (h : u.CurrentFree) {op : Op} (hop : op.IsAm) {e : Emission}
    (he : u.emission op = some e) : e.retryCount ≤ u.config.maxRetxCount := by
  have hflow := (h.transition hop).flow h.books
  rw [he] at hflow
  cases hflow with
  | enters goes number fresh copies accepted config => exact UInt64.zero_le
  | @repeats _ el rest goes left before copies accepted config =>
      rw [UInt64.lt_iff_toNat_lt] at left
      have hlt := u.config.maxRetxCount.toNat_lt
      rw [UInt64.le_iff_toNat_le, UInt64.toNat_add, UInt64.toNat_one,
        Nat.mod_eq_of_lt (by omega)]
      exact left

end LlcUl

/-! ## Emissions -/

/-- `llc_ul` with the numbers of the data PDUs that were emitted since the last start. -/
structure History where
  ul : LlcUl
  emitted : List Nat := []

namespace History

open LlcUl

/-- One call. -/
def step (h : History) (op : Op) : History where
  ul := h.ul.step op
  emitted :=
    if op.restarts then [] else h.emitted ++ (h.ul.emission op).toList.map (·.pdu)

/-- The retry counts of the PDUs that are kept, and the numbers that are known. -/
structure InBudget (h : History) : Prop where
  current : h.ul.CurrentFree
  counts : ∀ c ∈ h.ul.copies, c.retryCount.toNat + 1 = h.emitted.count c.pdu ∧
    c.retryCount ≤ h.ul.config.maxRetxCount
  known : ∀ p ∈ h.emitted, p < h.ul.accepted

/-- Behind a call, the count of a PDU that was not emitted is the same. -/
theorem count_of_ne {emitted : List Nat} {p q : Nat} (hne : p ≠ q) :
    (emitted ++ [q]).count p = emitted.count p := by
  rw [List.count_append, List.count_singleton, if_neg (by simpa using hne.symm), Nat.add_zero]

theorem count_of_eq {emitted : List Nat} (p : Nat) :
    (emitted ++ [p]).count p = emitted.count p + 1 := by
  rw [List.count_append, List.count_singleton_self]

/-- A PDU that is accepted has not been emitted before. -/
theorem InBudget.count_new {h : History} (hb : h.InBudget) :
    h.emitted.count h.ul.accepted = 0 := by
  rw [List.count_eq_zero]
  exact fun hmem => Nat.lt_irrefl _ (hb.known _ hmem)

/-- The counts behind a call. -/
theorem InBudget.counts_flow {h : History} (hb : h.InBudget) {op : Op} {e : Option Emission}
    {u' : LlcUl} (hflow : h.ul.Flow op e u') {emitted : List Nat}
    (hemitted : emitted = if op.restarts then [] else h.emitted ++ e.toList.map (·.pdu)) :
    ∀ c ∈ u'.copies, c.retryCount.toNat + 1 = emitted.count c.pdu ∧
      c.retryCount ≤ u'.config.maxRetxCount := by
  have hbooks := hb.current.books
  subst hemitted
  cases hflow with
  | keeps gone goes copies accepted config =>
      intro c hc
      rw [goes, config]
      show _ = List.count _ (h.emitted ++ []) ∧ _
      rw [List.append_nil]
      exact hb.counts c (copies.mem_iff.mpr (List.mem_append_right _ hc))
  | @enters _ new goes number fresh copies accepted config =>
      intro c hc
      rw [goes, config]
      show _ = List.count _ (h.emitted ++ [new.pdu]) ∧ _
      rcases List.mem_cons.mp (copies.mem_iff.mp hc) with rfl | hold
      · rw [count_of_eq, number, hb.count_new, fresh]
        exact ⟨rfl, UInt64.zero_le⟩
      · have hlt := (hbooks.copies_open hold).1
        rw [count_of_ne (by omega)]
        exact hb.counts c hold
  | @repeats _ el rest goes left before copies accepted config =>
      intro c hc
      rw [goes, config]
      show _ = List.count _ (h.emitted ++ [el.pdu]) ∧ _
      have hel := hb.counts el (before.mem_iff.mpr (List.mem_cons_self ..))
      have hnodup := (before.map (·.pdu)).nodup_iff.mp hbooks.copies_nodup
      rw [UInt64.lt_iff_toNat_lt] at left
      have hlt := h.ul.config.maxRetxCount.toNat_lt
      have hnext : (el.retryCount + 1).toNat = el.retryCount.toNat + 1 := by
        rw [UInt64.toNat_add, UInt64.toNat_one, Nat.mod_eq_of_lt (by omega)]
      rcases List.mem_cons.mp (copies.mem_iff.mp hc) with rfl | hold
      · show (el.retryCount + 1).toNat + 1 = List.count el.pdu _ ∧ el.retryCount + 1 ≤ _
        rw [count_of_eq, UInt64.le_iff_toNat_le, hnext]
        omega
      · have hne : c.pdu ≠ el.pdu := by
          intro heq
          have hmem : c.pdu ∈ rest.map (·.pdu) := List.mem_map_of_mem hold
          rw [heq] at hmem
          exact (List.nodup_cons.mp hnodup).1 hmem
        rw [count_of_ne hne]
        exact hb.counts c (before.mem_iff.mpr (List.mem_cons_of_mem _ hold))
  | restarts fresh copies =>
      rw [copies]
      exact fun c hc => (List.not_mem_nil hc).elim

/-- The numbers that are known behind a call. -/
theorem InBudget.known_flow {h : History} (hb : h.InBudget) {op : Op} {e : Option Emission}
    {u' : LlcUl} (hflow : h.ul.Flow op e u') :
    ∀ p ∈ (if op.restarts then [] else h.emitted ++ e.toList.map (·.pdu)), p < u'.accepted := by
  cases hflow with
  | keeps gone goes copies accepted config =>
      rw [goes, accepted]
      show ∀ p ∈ h.emitted ++ [], _
      rw [List.append_nil]
      exact hb.known
  | @enters _ new goes number fresh copies accepted config =>
      rw [goes, accepted]
      intro p hp
      rcases List.mem_append.mp hp with hold | hnew
      · exact Nat.lt_succ_of_lt (hb.known p hold)
      · rw [List.mem_singleton.mp hnew, number]
        exact Nat.lt_succ_self _
  | @repeats _ el rest goes left before copies accepted config =>
      rw [goes, accepted]
      intro p hp
      rcases List.mem_append.mp hp with hold | hnew
      · exact hb.known p hold
      · rw [List.mem_singleton.mp hnew]
        exact (hb.current.books.copies_open (before.mem_iff.mpr (List.mem_cons_self ..))).1
  | restarts fresh copies =>
      rw [fresh]
      exact fun p hp => (List.not_mem_nil hp).elim

theorem InBudget.flow {h : History} (hb : h.InBudget) {op : Op} {e : Option Emission}
    {u' : LlcUl} (hflow : h.ul.Flow op e u') (hcurrent : u'.CurrentFree) :
    InBudget ⟨u', if op.restarts then [] else h.emitted ++ e.toList.map (·.pdu)⟩ :=
  ⟨hcurrent, hb.counts_flow hflow rfl, hb.known_flow hflow⟩

/-- Every call keeps the counts. -/
theorem InBudget.step {h : History} (hb : h.InBudget) {op : Op} (hop : op.IsAm) :
    (h.step op).InBudget :=
  hb.flow ((hb.current.transition hop).flow hb.current.books) (hb.current.step hop)

theorem InBudget.new {config : LlcUlConfig} (hvalid : config.isValid = true)
    (hmode : config.mode = .am) : InBudget { ul := LlcUl.new config } := by
  have heq : LlcUl.new config = LlcUl.reset { config := config } := if_pos hvalid
  have hcopies : (LlcUl.new config).copies = [] := by
    rw [heq]
    exact reset_copies { config := config } config
  refine ⟨.new hvalid hmode, ?_, fun p hp => (List.not_mem_nil hp).elim⟩
  show ∀ c ∈ (LlcUl.new config).copies, _
  rw [hcopies]
  exact fun c hc => (List.not_mem_nil hc).elim

/-! ## Runs -/

/-- What a user sees of the counts, in a state of a run. -/
structure Budgeted (h : History) : Prop where
  /-- The count of a PDU in the ring is one less than its emissions. -/
  ring : ∀ el ∈ h.ul.inUse, el.retryCount.toNat + 1 = h.emitted.count el.pdu ∧
    el.retryCount ≤ h.ul.config.maxRetxCount
  /-- So is that of a PDU in the list. -/
  list : ∀ el ∈ h.ul.retxList, el.retryCount.toNat + 1 = h.emitted.count el.pdu ∧
    el.retryCount ≤ h.ul.config.maxRetxCount
  /-- A PDU that the next call gives up has used all its retransmissions. -/
  dropped : ∀ op, op.IsAm → ∀ p ∈ (h.ul.step op).lostPdus, p ∉ h.ul.lostPdus →
    (h.ul.step op).status.snLost = true ∧ p ∉ h.ul.ackedPdus ∧
      h.emitted.count p = 1 + h.ul.config.maxRetxCount.toNat
  /-- An emission asks for the distance of a count that is configured. -/
  recheck : ∀ op e, op.IsAm → h.ul.emission op = some e →
    e.retryCount ≤ h.ul.config.maxRetxCount ∧
      h.ul.config.minRecheckSlotNumber ≤ h.ul.recheckSlotSize e.retryCount ∧
      h.ul.recheckSlotSize e.retryCount ≤ h.ul.config.maxRecheckSlotNumber

/-- A PDU that is given up. -/
theorem InBudget.dropped {h : History} (hb : h.InBudget) {op : Op} (hop : op.IsAm) {p : Nat}
    (hp : p ∈ (h.ul.step op).lostPdus) (hnot : p ∉ h.ul.lostPdus) :
    (h.ul.step op).status.snLost = true ∧ p ∉ h.ul.ackedPdus ∧
      h.emitted.count p = 1 + h.ul.config.maxRetxCount.toNat := by
  have ht := hb.current.transition hop
  revert hp
  generalize h.ul.step op = u', h.ul.emission op = e at ht
  intro hp
  cases ht with
  | @lost status target el rest list spent reported =>
      have hel : el ∈ h.ul.copies := by
        unfold copies
        rw [list]
        exact List.mem_append_right _ (List.mem_cons_self ..)
      obtain ⟨hcount, hle⟩ := hb.counts el hel
      have hopen := (hb.current.books.copies_open hel).2
      have hpdu : p = el.pdu := by
        rcases List.mem_append.mp hp with hold | hnew
        · exact absurd hold hnot
        · exact List.mem_singleton.mp hnew
      subst hpdu
      rw [UInt64.le_iff_toNat_le] at spent hle
      exact ⟨reported, fun hacked => hopen (List.mem_append_left _ hacked), by omega⟩
  | restart config fresh => exact (List.not_mem_nil hp).elim
  | _ => exact absurd hp hnot

theorem InBudget.budgeted {h : History} (hb : h.InBudget) : h.Budgeted where
  ring el hel := hb.counts el.copy (List.mem_append_left _ (List.mem_map_of_mem hel))
  list el hel := hb.counts el (List.mem_append_right _ hel)
  dropped _ hop _ hp hnot := hb.dropped hop hp hnot
  recheck _ _ hop he :=
    ⟨emission_le hb.current hop he,
      recheckSlotSize_bounds hb.current.books.valid (emission_le hb.current hop he)⟩

/-- **Every PDU has its retransmissions**, for every accepted configuration in
acknowledged mode, in every state of every run. -/
theorem retry_budget (config : LlcUlConfig) (hvalid : config.isValid = true)
    (hmode : config.mode = .am) (ops : List Op) (hops : ∀ op ∈ ops, op.IsAm) :
    States History.step Budgeted { ul := LlcUl.new config } ops := by
  have hstep : ∀ (h : History) (op : Op), h.InBudget → op.IsAm → (h.step op).InBudget :=
    fun h op hb hop => hb.step hop
  have hstates := states_of_steps hstep (InBudget.new hvalid hmode) (steps_of_mem hops)
  exact hstates.mono fun h hb => hb.budgeted

/-- A PDU is sent twice, comes up twice and is given up. -/
theorem retry_budget_two_emissions :
    let config : LlcUlConfig :=
      { mode := .am, txSize := 4, minRecheckSlotNumber := 1, maxRecheckSlotNumber := 1,
        maxRetxCount := 1 }
    let ops : List Op :=
      [.updateCurrentSlotNumber 1, .writeLlcPdu [0, 0, 3], .updateCurrentSlotNumber 2,
        .writeRetransmissionPdu [0, 0, 0], .updateCurrentSlotNumber 3,
        .writeRetransmissionPdu [0, 0, 0]]
    States History.step Budgeted { ul := LlcUl.new config } ops ∧
      (ops.foldl History.step { ul := LlcUl.new config }).emitted = [0, 0] ∧
      (ops.foldl History.step { ul := LlcUl.new config }).ul.lostPdus = [0] :=
  ⟨retry_budget _ (by decide) rfl _ (by decide), by decide, by decide⟩

end History

end Winject.Llc
