import Winject.LegacyLlc.AckRing
import Winject.LegacyLlc.Payloads

/-!
# The copies that are kept for a retransmission

The payload of a data PDU is copied into the buffer of its element.  The check of a slot
swaps that buffer for one of the pool, and the PDU goes with it to the retransmission
list; a retransmission copies the payload into the frame and gives the buffer back to the
pool.  Every buffer has `llc_max_size` bytes, whatever the grants are.

This is about the buffers only.  Where a data PDU has no element of `sn_ring`, the window being
zero or larger than that of the constructor, the source is undefined from there on: such a run
counts up to that call, and `Winject.LegacyLlc.GrantFaults` says when there is none.

## Main results

* `Full.call` — every buffer has `llc_max_size` bytes.
* `retained_iff` — the copies fit iff the PDCP allocates as much at most.
-/

namespace Winject.LegacyLlc

open Winject.Lib.Runs

/-! ## The buffers -/

/-- The sizes of the buffers: those of `tx_ring`, of `to_retx_list` and of
`tx_buffer_pool`, the last one first. -/
structure Buffers where
  ring : Fin 1024 → Nat := fun _ => 0
  retx : List Nat := []
  pool : List Nat := []

namespace Buffers

/-- `LLC::allocate_tx_buffer`. -/
def allocateTxBuffer (b : Buffers) : Nat × Buffers :=
  match b.pool with
  | [] => (llcMaxSize, b)
  | size :: pool => (size, { b with pool := pool })

/-- `LLC::free_tx_buffer`. -/
def freeTxBuffer (b : Buffers) (size : Nat) : Buffers := { b with pool := size :: b.pool }

/-- An element without a buffer gets one. -/
def fillElem (b : Buffers) (i : Fin 1024) : Buffers :=
  if b.ring i = 0 then
    let a := b.allocateTxBuffer
    { a.2 with ring := Function.update b.ring i a.1 }
  else b

/-- `LLC::set_tx_enabled`. -/
def setTxEnabled (b : Buffers) (l : Llc) : Buffers :=
  let b := if l.txConfig.mode = .am then (List.finRange 1024).foldl fillElem b else b
  { (b.retx.filter (fun size => size ≠ 0)).foldl freeTxBuffer b with retx := [] }

/-- `LLC::check_retransmit`: the buffer of the element is swapped for a new one. -/
def checkRetransmit (b : Buffers) (l : Llc) (slotNumber : Nat) : Buffers :=
  if l.txConfig.mode ≠ .am then b else
  let sentIdx := Llc.txRingIndex (l.txRing (Llc.txRingIndex slotNumber)).sentIndex
  if (l.txRing sentIdx).acknowledged then b else
  let a := b.allocateTxBuffer
  { a.2 with
    ring := Function.update b.ring sentIdx a.1
    retx := b.retx ++ [b.ring sentIdx] }

section Calls

variable {π : Type}

/-- The data PDU of `on_tx`: the buffer of a PDU that is sent again goes back to the pool,
that of a PDU that is given up is gone. -/
def allocateData (b : Buffers) (s : TxState π) : Buffers :=
  match s.owner.toRetxList, b.retx with
  | retx :: _, size :: others =>
    if retx.pdcpPdu.length > s.outSize then b
    else if retx.retryCount + 1 > s.owner.txConfig.maxRetxCount then { b with retx := others }
    else { b.freeTxBuffer size with retx := others }
  | _, _ => b

/-- `LLC::on_tx`. -/
def onTx (b : Buffers) (l : Llc) (pdcp : π) (info : TxInfo) : Buffers :=
  if !l.isTxEnabled then b else
  let b := b.checkRetransmit l info.slotNumber
  let l := l.checkRetransmit info.slotNumber
  if info.outSize ≤ 3 + l.txCrcSize then b else
  let s := l.ackStage pdcp info
  if s.outSize < s.llc.getHeaderSize || !info.inAllowData then b
  else b.allocateData s.startData

/-- The buffers behind a call on an LLC. -/
def call (b : Buffers) (l : Llc) : Call π → Buffers
  | .reconfigureTx config => b.setTxEnabled { l with txConfig := config }
  | .setTxEnabled _ => b.setTxEnabled l
  | .onTx pdcp grant => b.onTx l pdcp grant.info
  | _ => b

end Calls

/-! ## What the buffers keep -/

/-- Every buffer has the size of a new one. -/
structure Sound (b : Buffers) : Prop where
  ring : ∀ i, b.ring i = 0 ∨ b.ring i = llcMaxSize
  retx : ∀ size ∈ b.retx, size = llcMaxSize
  pool : ∀ size ∈ b.pool, size = llcMaxSize

/-- Every element has a buffer. -/
structure Full (b : Buffers) : Prop extends b.Sound where
  filled : ∀ i, b.ring i = llcMaxSize

theorem Sound.allocateTxBuffer {b : Buffers} (h : b.Sound) :
    b.allocateTxBuffer.1 = llcMaxSize ∧ b.allocateTxBuffer.2.ring = b.ring ∧
      b.allocateTxBuffer.2.retx = b.retx ∧
      ∀ size ∈ b.allocateTxBuffer.2.pool, size = llcMaxSize := by
  have hpool := h.pool
  unfold Buffers.allocateTxBuffer
  cases hcase : b.pool with
  | nil =>
      rw [hcase] at hpool
      dsimp only
      rw [hcase]
      exact ⟨rfl, rfl, rfl, hpool⟩
  | cons size pool =>
      rw [hcase] at hpool
      exact ⟨hpool size (List.mem_cons_self ..), rfl, rfl,
        fun x hx => hpool x (List.mem_cons_of_mem _ hx)⟩

theorem Sound.freeAll {b : Buffers} (h : b.Sound) {sizes : List Nat}
    (hsizes : ∀ size ∈ sizes, size = llcMaxSize) :
    (sizes.foldl freeTxBuffer b).ring = b.ring ∧ (sizes.foldl freeTxBuffer b).Sound := by
  induction sizes generalizing b with
  | nil => exact ⟨rfl, h⟩
  | cons size sizes ih =>
      have hfreed : (b.freeTxBuffer size).Sound := by
        refine ⟨h.ring, h.retx, fun x hx => ?_⟩
        rcases List.mem_cons.mp hx with rfl | hx
        · exact hsizes x (List.mem_cons_self ..)
        · exact h.pool x hx
      exact ih hfreed (fun x hx => hsizes x (List.mem_cons_of_mem _ hx))

theorem Sound.fillElem {b : Buffers} (h : b.Sound) (i : Fin 1024) :
    (b.fillElem i).Sound ∧ (b.fillElem i).ring i = llcMaxSize ∧
      ∀ j, b.ring j = llcMaxSize → (b.fillElem i).ring j = llcMaxSize := by
  unfold Buffers.fillElem
  split_ifs with hzero
  · obtain ⟨hsize, -, hretx, hpool⟩ := h.allocateTxBuffer
    have hring : ∀ j, b.ring j = llcMaxSize ∨ j = i →
        Function.update b.ring i b.allocateTxBuffer.1 j = llcMaxSize := by
      intro j hj
      rw [Function.update_apply, hsize]
      split_ifs with heq
      · rfl
      · exact hj.resolve_right heq
    refine ⟨⟨fun j => ?_, ?_, hpool⟩, hring i (Or.inr rfl), fun j hj => hring j (Or.inl hj)⟩
    · by_cases hj : j = i
      · exact Or.inr (hring j (Or.inr hj))
      · show Function.update b.ring i b.allocateTxBuffer.1 j = 0 ∨
          Function.update b.ring i b.allocateTxBuffer.1 j = llcMaxSize
        rw [Function.update_of_ne hj]
        exact h.ring j
    · show ∀ size ∈ b.allocateTxBuffer.2.retx, size = llcMaxSize
      rw [hretx]
      exact h.retx
  · exact ⟨h, (h.ring i).resolve_left hzero, fun _ hj => hj⟩

theorem Sound.fillAll {b : Buffers} (h : b.Sound) (elems : List (Fin 1024)) :
    (elems.foldl Buffers.fillElem b).Sound ∧
      ∀ i, i ∈ elems ∨ b.ring i = llcMaxSize →
        (elems.foldl Buffers.fillElem b).ring i = llcMaxSize := by
  induction elems generalizing b with
  | nil => exact ⟨h, fun i hi => hi.resolve_left List.not_mem_nil⟩
  | cons i elems ih =>
      obtain ⟨hfilled, hself, hothers⟩ := h.fillElem i
      obtain ⟨hsound, hrest⟩ := ih hfilled
      refine ⟨hsound, fun j hj => hrest j ?_⟩
      rcases hj with hj | hj
      · rcases List.mem_cons.mp hj with rfl | hj
        · exact Or.inr hself
        · exact Or.inl hj
      · exact Or.inr (hothers j hj)

/-- `set_tx_enabled` gives every element of an acknowledged channel a buffer. -/
theorem Sound.setTxEnabled {b : Buffers} (h : b.Sound) {l : Llc} (hmode : l.txConfig.mode = .am) :
    (b.setTxEnabled l).Full := by
  unfold Buffers.setTxEnabled
  dsimp only
  rw [if_pos hmode]
  obtain ⟨hsound, hfilled⟩ := h.fillAll (List.finRange 1024)
  generalize (List.finRange 1024).foldl Buffers.fillElem b = b' at hsound hfilled ⊢
  have hlisted : ∀ size ∈ b'.retx.filter (fun size => size ≠ 0), size = llcMaxSize :=
    fun size hmem => hsound.retx size (List.mem_of_mem_filter hmem)
  obtain ⟨hring, hfreed⟩ := hsound.freeAll hlisted
  refine ⟨⟨hfreed.ring, fun _ hmem => (List.not_mem_nil hmem).elim, hfreed.pool⟩, fun i => ?_⟩
  show (List.foldl freeTxBuffer b' _).ring i = llcMaxSize
  rw [hring]
  exact hfilled i (Or.inl (List.mem_finRange i))

theorem Full.checkRetransmit {b : Buffers} (h : b.Full) (l : Llc) (slotNumber : Nat) :
    (b.checkRetransmit l slotNumber).Full := by
  unfold Buffers.checkRetransmit
  dsimp only
  split_ifs
  · exact h
  · exact h
  · obtain ⟨hsize, -, -, hpool⟩ := h.toSound.allocateTxBuffer
    generalize Llc.txRingIndex (l.txRing (Llc.txRingIndex slotNumber)).sentIndex = idx
    have hring : ∀ i, Function.update b.ring idx b.allocateTxBuffer.1 i = llcMaxSize := by
      intro i
      rw [Function.update_apply, hsize]
      split_ifs
      · rfl
      · exact h.filled i
    refine ⟨⟨fun i => Or.inr (hring i), fun size hmem => ?_, hpool⟩, hring⟩
    rcases List.mem_append.mp hmem with hold | hnew
    · exact h.retx size hold
    · rw [List.mem_singleton.mp hnew]
      exact h.filled idx

section Calls

variable {π : Type}

theorem Full.allocateData {b : Buffers} (h : b.Full) (s : TxState π) :
    (b.allocateData s).Full := by
  unfold Buffers.allocateData
  split
  · next retx rest size others hlist hretx =>
      have hsizes := h.retx
      rw [hretx] at hsizes
      have hothers : ∀ x ∈ others, x = llcMaxSize :=
        fun x hx => hsizes x (List.mem_cons_of_mem _ hx)
      split_ifs
      · exact h
      · exact ⟨⟨h.ring, hothers, h.pool⟩, h.filled⟩
      · refine ⟨⟨h.ring, hothers, fun x hx => ?_⟩, h.filled⟩
        rcases List.mem_cons.mp hx with rfl | hx
        · exact hsizes x (List.mem_cons_self ..)
        · exact h.pool x hx
  · exact h

theorem Full.onTx {b : Buffers} (h : b.Full) (l : Llc) (pdcp : π) (info : TxInfo) :
    (b.onTx l pdcp info).Full := by
  have hchecked := h.checkRetransmit l info.slotNumber
  unfold Buffers.onTx
  dsimp only
  split_ifs
  · exact h
  · exact hchecked
  · exact hchecked
  · exact hchecked.allocateData _

/-- **Every buffer has the size of a new one** behind every call of an acknowledged
channel. -/
theorem Full.call {b : Buffers} (h : b.Full) {l : Llc} (hmode : l.txConfig.mode = .am)
    {c : Call π} (hc : c.IsAm) : (b.call l c).Full := by
  cases c with
  | reconfigureTx config => exact h.toSound.setTxEnabled hc
  | setTxEnabled value => exact h.toSound.setTxEnabled hmode
  | onTx pdcp grant => exact h.onTx l pdcp grant.info
  | reconfigureRx config => exact h
  | setRxEnabled value => exact h
  | onRx info => exact h

end Calls

end Buffers

/-! ## Runs -/

/-- The PDUs and the buffers of an LLC. -/
structure Retained where
  watch : Watch
  buffers : Buffers

namespace Retained

variable {π : Type} (pdcpOnTx : π → LegacyPdcp.TxInfo → π × LegacyPdcp.TxInfo)

/-- A call. -/
def step (s : Retained) (c : Call π) : Retained where
  watch := s.watch.step pdcpOnTx c
  buffers := s.buffers.call s.watch.llc c

/-- Behind the constructor. -/
def start (lcid : UInt8) (txConfig : TxConfig) (rxConfig : RxConfig) : Retained where
  watch := { llc := Llc.new lcid txConfig rxConfig }
  buffers := ({} : Buffers).setTxEnabled { lcid := lcid, txConfig := txConfig }

/-- The channel stays an acknowledged one, and a grant fits into the field `SIZE`. -/
def InRange : Call π → Prop
  | .reconfigureTx config => config.mode = .am
  | .onTx _ grant => grant.size ≤ 2047
  | _ => True

/-- The payload that a call copies into the ring fits into the buffer of its element. -/
def CopyFits (s : Retained) (c : Call π) : Prop :=
  ∀ t, (s.step pdcpOnTx c).watch.log = t :: s.watch.log →
    t.kept.length ≤ (s.step pdcpOnTx c).buffers.ring (Llc.txRingIndex t.slot)

/-- A PDU was sent with the same payload every time. -/
def SamePayload (s : Retained) : Prop :=
  ∀ t ∈ s.watch.log, ∀ u ∈ s.watch.log, t.pdu = u.pdu → t.payload = u.payload

/-- The PDCP allocates as much as a buffer holds at most. -/
def PdcpFits (s : Retained) : Call π → Prop
  | .onTx pdcp grant => s.watch.llc.TakesNew pdcp grant.info →
      s.watch.llc.pdcpAllocationSize pdcpOnTx pdcp grant.info ≤ llcMaxSize
  | _ => True

/-- What every run keeps. -/
structure Held (s : Retained) : Prop where
  faithful : s.watch.Faithful
  copied : s.watch.Copied
  sized : s.watch.llc.Sized
  full : s.buffers.Full

variable {pdcpOnTx}

theorem Held.start (lcid : UInt8) {txConfig : TxConfig} (hmode : txConfig.mode = .am)
    (rxConfig : RxConfig) : (start lcid txConfig rxConfig).Held where
  faithful := by
    have hclear := Watch.Clear.reconfigureTx ({ lcid := lcid } : Llc) hmode
    exact Watch.Faithful.clear ⟨hclear.mode, hclear.ring, hclear.list⟩ rfl
  copied := by
    refine ⟨?_, ?_, ?_, ?_⟩
    all_goals exact fun _ ht => (List.not_mem_nil ht).elim
  sized := Llc.Sized.new lcid txConfig rxConfig
  full := by
    have hnone : ({} : Buffers).Sound :=
      ⟨fun _ => Or.inl rfl, fun _ hmem => (List.not_mem_nil hmem).elim,
        fun _ hmem => (List.not_mem_nil hmem).elim⟩
    exact hnone.setTxEnabled hmode

theorem InRange.isAm {c : Call π} (h : InRange c) : c.IsAm := by
  cases c with
  | reconfigureTx config => exact h
  | _ => trivial

/-- What a call does to the log. -/
theorem Held.step_copied (hpdcp : PdcpOnTxOk pdcpOnTx) (hp : PdcpAllocates pdcpOnTx)
    {s : Retained} (h : s.Held) {c : Call π} (hc : InRange c) :
    (s.step pdcpOnTx c).watch.Copied ∧
      ((∃ pdcp grant, c = .onTx pdcp grant ∧
          s.watch.Grown pdcpOnTx pdcp grant (s.step pdcpOnTx c).watch) ∨
        ((s.step pdcpOnTx c).watch.log = s.watch.log ∧ s.PdcpFits pdcpOnTx c)) := by
  have hnone : ∀ t ∈ ([] : List Transmission), t ∈ s.watch.log :=
    fun _ ht => (List.not_mem_nil ht).elim
  cases c with
  | onTx pdcp grant =>
      obtain ⟨hcopied, hgrown⟩ := h.copied.onTx hpdcp hp h.faithful h.sized pdcp grant hc
      exact ⟨hcopied, Or.inl ⟨pdcp, grant, rfl, hgrown⟩⟩
  | reconfigureTx config => exact ⟨h.copied.unsent rfl rfl hnone, Or.inr ⟨rfl, trivial⟩⟩
  | setTxEnabled value => exact ⟨h.copied.unsent rfl rfl hnone, Or.inr ⟨rfl, trivial⟩⟩
  | reconfigureRx config =>
      exact ⟨h.copied.unsent rfl rfl h.copied.queued, Or.inr ⟨rfl, trivial⟩⟩
  | setRxEnabled value =>
      exact ⟨h.copied.unsent rfl rfl h.copied.queued, Or.inr ⟨rfl, trivial⟩⟩
  | onRx info => exact ⟨h.copied.unsent rfl rfl h.copied.queued, Or.inr ⟨rfl, trivial⟩⟩

theorem Held.step (hpdcp : PdcpOnTxOk pdcpOnTx) (hp : PdcpAllocates pdcpOnTx) {s : Retained}
    (h : s.Held) {c : Call π} (hc : InRange c) : (s.step pdcpOnTx c).Held where
  faithful := h.faithful.step hp hc.isAm
  copied := (h.step_copied hpdcp hp hc).1
  sized := by
    show (s.watch.step pdcpOnTx c).llc.Sized
    rw [Watch.step_llc]
    exact h.sized.call pdcpOnTx c
  full := h.full.call h.faithful.mode hc.isAm

/-- No payload that was sent is larger than a buffer. -/
def Small (s : Retained) : Prop := ∀ t ∈ s.watch.log, t.kept.length ≤ llcMaxSize

/-- **A copy fits iff the PDCP allocates as much as a buffer holds at most.** -/
theorem Held.copyFits_iff (hpdcp : PdcpOnTxOk pdcpOnTx) (hp : PdcpAllocates pdcpOnTx)
    {s : Retained} (h : s.Held) (hsmall : s.Small) {c : Call π} (hc : InRange c) :
    s.CopyFits pdcpOnTx c ↔ s.PdcpFits pdcpOnTx c := by
  have hfull := (h.step hpdcp hp hc).full.filled
  unfold CopyFits
  rcases (h.step_copied hpdcp hp hc).2 with ⟨pdcp, grant, rfl, hgrown⟩ | ⟨hlog, hfits⟩
  · cases hgrown with
    | quiet log none =>
        constructor
        · intro _ htakes
          rw [none htakes]
          exact Nat.zero_le _
        · intro _ t ht
          have hlen := congrArg List.length (log.symm.trans ht)
          rw [List.length_cons] at hlen
          omega
    | new t log slot takes size =>
        constructor
        · intro hcopy _
          have hfits := hcopy t log
          rwa [hfull, size] at hfits
        · intro hfits u hu
          rw [← (List.cons.inj (log.symm.trans hu)).1, hfull, size]
          exact hfits takes
    | again t u log slot takes first kept =>
        constructor
        · intro _ htakes
          exact absurd htakes takes
        · intro _ v hv
          rw [← (List.cons.inj (log.symm.trans hv)).1, hfull, kept]
          exact hsmall u first
  · constructor
    · exact fun _ => hfits
    · intro _ t ht
      have hlen := congrArg List.length (hlog.symm.trans ht)
      rw [List.length_cons] at hlen
      omega

theorem Held.small_step (hpdcp : PdcpOnTxOk pdcpOnTx) (hp : PdcpAllocates pdcpOnTx)
    {s : Retained} (h : s.Held) (hsmall : s.Small) {c : Call π} (hc : InRange c)
    (hcopy : s.CopyFits pdcpOnTx c) : (s.step pdcpOnTx c).Small := by
  have hfull := (h.step hpdcp hp hc).full.filled
  have hsent : ∀ {t}, (s.step pdcpOnTx c).watch.log = t :: s.watch.log →
      (s.step pdcpOnTx c).Small := by
    intro t hlog u hu
    have hfits := hcopy t hlog
    rw [hfull] at hfits
    rw [hlog] at hu
    rcases List.mem_cons.mp hu with rfl | hu
    · exact hfits
    · exact hsmall u hu
  have hquiet : (s.step pdcpOnTx c).watch.log = s.watch.log → (s.step pdcpOnTx c).Small := by
    intro hlog
    unfold Small
    rw [hlog]
    exact hsmall
  rcases (h.step_copied hpdcp hp hc).2 with ⟨pdcp, grant, rfl, hgrown⟩ | ⟨hlog, -⟩
  · cases hgrown with
    | quiet log none => exact hquiet log
    | new t log slot takes size => exact hsent log
    | again t u log slot takes first kept => exact hsent log
  · exact hquiet hlog

/-- **The copies that are kept**: over any calls of an acknowledged channel, every payload
that is copied into the ring fits, and a PDU is sent with the same payload every time, iff
the PDCP allocates as much as a buffer holds at most. -/
theorem retained_iff (hpdcp : PdcpOnTxOk pdcpOnTx) (hp : PdcpAllocates pdcpOnTx) (lcid : UInt8)
    (txConfig : TxConfig) (rxConfig : RxConfig) (hmode : txConfig.mode = .am)
    (calls : List (Call π)) (hcalls : ∀ c ∈ calls, InRange c) :
    (Steps (step pdcpOnTx) (CopyFits pdcpOnTx) (start lcid txConfig rxConfig) calls ∧
        States (step pdcpOnTx) SamePayload (start lcid txConfig rxConfig) calls) ↔
      Steps (step pdcpOnTx) (PdcpFits pdcpOnTx) (start lcid txConfig rxConfig) calls := by
  have hstart := Held.start lcid hmode rxConfig
  have hkeeps : ∀ (s : Retained) (c : Call π), s.Held → InRange c → (s.step pdcpOnTx c).Held :=
    fun s c h hc => h.step hpdcp hp hc
  have hrange : Steps (step pdcpOnTx) (fun _ c => InRange c) (start lcid txConfig rxConfig)
      calls := steps_of_mem hcalls
  have hsame := (states_of_steps hkeeps hstart hrange).mono fun s h => h.copied.same
  have hsmall : ∀ (s : Retained) (c : Call π), s.Held ∧ s.Small → InRange c →
      s.CopyFits pdcpOnTx c → (s.step pdcpOnTx c).Held ∧ (s.step pdcpOnTx c).Small :=
    fun s c h hc hcopy => ⟨hkeeps s c h.1 hc, h.1.small_step hpdcp hp h.2 hc hcopy⟩
  have hfits : ∀ (s : Retained) (c : Call π), s.Held ∧ s.Small → InRange c →
      (s.CopyFits pdcpOnTx c ↔ s.PdcpFits pdcpOnTx c) :=
    fun s c h hc => h.1.copyFits_iff hpdcp hp h.2 hc
  have hiff := steps_iff_while hsmall hfits calls
    ⟨hstart, fun _ ht => (List.not_mem_nil ht).elim⟩ hrange
  exact ⟨fun h => hiff.mp h.1, fun h => ⟨hiff.mpr h, hsame⟩⟩

/-! ## A payload behind the end of its buffer -/

/-- A PDU is sent in slot 0 and again in slot 2. -/
theorem same_payload_again :
    Steps (step fifoOnTx) (CopyFits fifoOnTx)
        (start 1 { mode := .am, arqWindowSize := 2, maxRetxCount := 3 } { mode := .am })
        [.setTxEnabled true, .onTx [[0xA0]] (tenBytes 0), .onTx [] (tenBytes 1),
          .onTx [] (tenBytes 2)] ∧
      States (step fifoOnTx) SamePayload
        (start 1 { mode := .am, arqWindowSize := 2, maxRetxCount := 3 } { mode := .am })
        [.setTxEnabled true, .onTx [[0xA0]] (tenBytes 0), .onTx [] (tenBytes 1),
          .onTx [] (tenBytes 2)] := by
  apply (retained_iff fifoOnTx_ok fifoOnTx_allocates 1 _ _ rfl _ ?_).mpr
  · refine ⟨trivial, fun _ => ?_, fun _ => ?_, fun _ => ?_, trivial⟩
    all_goals decide +kernel
  · intro c hc
    simp only [List.mem_cons, List.not_mem_nil, or_false] at hc
    rcases hc with rfl | rfl | rfl | rfl
    · trivial
    all_goals exact (by decide : 10 ≤ 2047)

/-- The largest grant that the field `SIZE` can express. -/
def largestGrant : Grant where
  slotNumber := 0
  buffer := List.replicate 2047 0
  size := 2047
  fits := by rw [List.length_replicate]

/-- In the first slot the PDCP hands over 1501 bytes. -/
def largePayload : List (Call (List (List UInt8))) :=
  [.setTxEnabled true, .onTx [List.replicate 1501 0xA0] largestGrant]

/-- They are copied into a buffer of 1500 bytes. -/
theorem copy_too_large :
    (∀ c ∈ largePayload, InRange c) ∧
      ¬ (Steps (step fifoOnTx) (CopyFits fifoOnTx)
          (start 1 { mode := .am, arqWindowSize := 2 } { mode := .am }) largePayload ∧
        States (step fifoOnTx) SamePayload
          (start 1 { mode := .am, arqWindowSize := 2 } { mode := .am }) largePayload) := by
  constructor
  · intro c hc
    unfold largePayload at hc
    simp only [List.mem_cons, List.not_mem_nil, or_false] at hc
    rcases hc with rfl | rfl
    · trivial
    · exact le_refl 2047
  · rintro ⟨⟨-, hcopy, -⟩, -⟩
    have hheld : ((start 1 { mode := .am, arqWindowSize := 2 } { mode := .am }).step fifoOnTx
        (.setTxEnabled true)).Held :=
      (Held.start 1 rfl { mode := .am }).step fifoOnTx_ok fifoOnTx_allocates trivial
    have hfits := (hheld.copyFits_iff fifoOnTx_ok fifoOnTx_allocates
      (fun _ ht => (List.not_mem_nil ht).elim) (le_refl 2047)).mp hcopy
    refine absurd (hfits ⟨⟨rfl, by decide, rfl, by decide +kernel⟩, fun retx hmem => ?_⟩)
      (by decide +kernel)
    cases hmem

end Retained

end Winject.LegacyLlc
