import Winject.LegacyPdcp.FastForward
import Winject.LegacyPdcp.Integrity

/-!
# In which order the first PDCP delivers

Within reach of the ring, and as long as a fast-forward can stop, the first PDCP
delivers packets in the order of their numbers (`FastForward`).  Outside of it the
loop of `update_rx_sn` does not stop at the number it was called for: it tests for
the end only behind a skipped record, so it runs once around the sequence numbers.

## Main results

* `fastForward_ordered` — a run within these conditions.
* `updateLoop_last` — a fast-forward ends behind a skipped record.
* `Emptied.late`, `Holding.past` — a late duplicate, and a fast-forward that finds
  nothing to skip, take `rx_sn` back to a number that has been delivered.
-/

namespace Winject.LegacyPdcp

open Winject.Frames
open Winject.Lib.Segmentation
open Winject.Pdcp
open PdcpRx

/-! ## Where a fast-forward ends -/

/-- A fast-forward ends behind a skipped record. -/
theorem updateLoop_last (sn : Nat) (Inv : PdcpRx → Prop)
    (hdeliver : ∀ e, Inv e → e.current.isComplete = true → Inv e.deliver)
    (hdrop : ∀ e, Inv e → e.current.isComplete = false → e.drop.rxSn ≠ sn % 65536 →
      ¬ e.config.maxSnDistance > snDist sn e.rxSn → Inv e.drop)
    (d : PdcpRx) (h : Inv d) :
    ∃ e, Inv e ∧ e.current.isComplete = false ∧
      (e.drop.rxSn = sn % 65536 ∨ e.config.maxSnDistance > snDist sn e.rxSn) ∧
      d.updateLoop sn true = e.drop := by
  induction d using PdcpRx.updateLoop.induct sn true with
  | case1 d hmore ih =>
      rw [updateLoop_of_more hmore]
      apply ih
      unfold updateStep at hmore ⊢
      by_cases hc : d.current.isComplete = true
      · rw [if_pos hc]
        exact hdeliver d h hc
      · rw [if_neg hc, if_pos rfl] at hmore ⊢
        simp only [Bool.not_eq_true', Bool.or_eq_false_iff, beq_eq_false_iff_ne,
          decide_eq_false_iff_not] at hmore
        exact hdrop d h (by rwa [Bool.not_eq_true] at hc) hmore.1 hmore.2
  | case2 d hleave =>
      rw [updateLoop_of_stop hleave]
      unfold updateStep at hleave ⊢
      by_cases hc : d.current.isComplete = true
      · rw [if_pos hc] at hleave
        exact absurd rfl hleave
      · rw [if_neg hc, if_pos rfl] at hleave ⊢
        simp only [Bool.not_eq_true', Bool.not_eq_false, Bool.or_eq_true, beq_iff_eq,
          decide_eq_true_eq] at hleave
        exact ⟨d, h, by rwa [Bool.not_eq_true] at hc, hleave, rfl⟩

/-! ## Receivers that hold at most one packet -/

/-- The receiver is synchronised, has delivered `sns` and holds nothing. -/
structure Emptied (cfg : RxConfig) (sns : List Nat) (d : PdcpRx) : Prop where
  config : d.config = cfg
  enabled : d.isRxEnabled = true
  synced : d.rxSnSynced = true
  queue : d.toRxQueue.map (·.sn) = sns
  reset : d.AllReset

/-- The receiver is synchronised, has delivered `sns` and holds packet `i` only, which
is complete. -/
structure Holding (cfg : RxConfig) (sns : List Nat) (i : Nat) (d : PdcpRx) : Prop where
  config : d.config = cfg
  enabled : d.isRxEnabled = true
  synced : d.rxSnSynced = true
  queue : d.toRxQueue.map (·.sn) = sns
  others : ∀ j, j ≠ rxBufferRingIndex i → d.rxBufferRing j = (d.rxBufferRing j).reset
  complete : (d.rxBufferRing (rxBufferRingIndex i)).isComplete = true
  sn : (d.rxBufferRing (rxBufferRingIndex i)).sn = i

/-- Writing a record that is reset. -/
private theorem update_reset {ring : Fin 8192 → RxBufferInfo} {k : Fin 8192}
    {el : RxBufferInfo} (hel : el = el.reset) {j : Fin 8192}
    (h : j ≠ k → ring j = (ring j).reset) :
    Function.update ring k el j = (Function.update ring k el j).reset := by
  by_cases hj : j = k
  · subst hj
    rw [Function.update_self]
    exact hel
  · rw [Function.update_of_ne hj]
    exact h hj

section Steps

variable {cfg : RxConfig} {sns : List Nat} {i : Nat} {d : PdcpRx}

theorem Emptied.incomplete (h : Emptied cfg sns d) (j : Fin 8192) :
    (d.rxBufferRing j).isComplete = false := by
  rw [h.reset j]
  rfl

theorem Emptied.drop (h : Emptied cfg sns d) : Emptied cfg sns d.drop :=
  ⟨h.config, h.enabled, h.synced, h.queue, fun j => update_reset rfl (fun _ => h.reset j)⟩

theorem Holding.at_of_complete (h : Holding cfg sns i d) (hc : d.current.isComplete = true) :
    rxBufferRingIndex d.rxSn = rxBufferRingIndex i := by
  by_contra hne
  unfold current at hc
  rw [h.others _ hne] at hc
  cases hc

theorem Holding.away_of_open (h : Holding cfg sns i d) (hc : d.current.isComplete = false) :
    rxBufferRingIndex i ≠ rxBufferRingIndex d.rxSn := by
  intro heq
  unfold current at hc
  rw [← heq, h.complete] at hc
  cases hc

/-- The packet is delivered. -/
theorem Holding.deliver (h : Holding cfg sns i d) (hc : d.current.isComplete = true) :
    Emptied cfg (sns ++ [i]) d.deliver := by
  have hidx := h.at_of_complete hc
  refine ⟨h.config, h.enabled, h.synced, ?_, fun j => update_reset rfl (fun hj => ?_)⟩
  · show (d.toRxQueue ++ [(⟨d.current.sn, d.current.buffer⟩ : RxPacket)]).map _ = _
    rw [List.map_append, h.queue, List.map_singleton]
    unfold current
    rw [hidx, h.sn]
  · exact h.others j (by rwa [hidx] at hj)

/-- Another number is skipped. -/
theorem Holding.drop (h : Holding cfg sns i d) (hc : d.current.isComplete = false) :
    Holding cfg sns i d.drop := by
  have hne := h.away_of_open hc
  have hring : d.drop.rxBufferRing (rxBufferRingIndex i) =
      d.rxBufferRing (rxBufferRingIndex i) := Function.update_of_ne hne ..
  refine ⟨h.config, h.enabled, h.synced, h.queue,
    fun j hj => update_reset rfl (fun _ => h.others j hj), ?_, ?_⟩
  · rw [hring]
    exact h.complete
  · rw [hring]
    exact h.sn

end Steps

/-! ## One packet in one segment -/

/-- A number that is neither ignored nor refused, in one segment. -/
theorem rxSeg_single {d : PdcpRx} (hs : d.rxSnSynced = true)
    (hre : d.config.allowReordering = true) (hrlf : d.config.allowRlf = false) {i : Nat}
    (hreset : d.rxBufferRing (rxBufferRingIndex i) =
      (d.rxBufferRing (rxBufferRingIndex i)).reset)
    (hbefore : d.isBefore i = false) (b : UInt8) :
    d.rxSeg ⟨i, 0, true, [b]⟩ =
      ((d.withPacket i [b]).updateLoop i (d.isOutOfRange i), true) := by
  have hsync : d.sync i = d := by
    unfold PdcpRx.sync
    rw [hs]
    rfl
  have hnone : (d.rxBufferRing (rxBufferRingIndex i)).isComplete = false := by
    rw [hreset]
    rfl
  obtain ⟨hcomp, _⟩ := store_onePacket hreset i [some b]
  have hupdate : (d.withPacket i [b]).updateRxSn i (d.isOutOfRange i) =
      (d.withPacket i [b]).updateLoop i (d.isOutOfRange i) :=
    updateRxSn_reordering (show (d.withPacket i [b]).config.allowReordering = true from hre)
  rw [← hupdate]
  unfold rxSeg rxSegment PdcpRx.storeSegment
  dsimp only
  rw [if_pos hre, ite_self, hsync, hbefore, hrlf, Bool.and_false, hnone]
  simp only [Bool.false_eq_true, if_false, List.map_singleton, hcomp, if_true]
  rfl

/-- The record that a packet in one segment is stored in. -/
theorem withPacket_record {d : PdcpRx} {i : Nat}
    (hreset : d.rxBufferRing (rxBufferRingIndex i) =
      (d.rxBufferRing (rxBufferRingIndex i)).reset) (b : UInt8) :
    ((d.withPacket i [b]).rxBufferRing (rxBufferRingIndex i)).isComplete = true ∧
      ((d.withPacket i [b]).rxBufferRing (rxBufferRingIndex i)).sn = i := by
  have hring : (d.withPacket i [b]).rxBufferRing (rxBufferRingIndex i) =
      (d.rxBufferRing (rxBufferRingIndex i)).store i 0 true [some b] :=
    Function.update_self ..
  rw [hring]
  exact ⟨(store_onePacket hreset i [some b]).1, RxBufferInfo.store_sn ..⟩

theorem withPacket_other {d : PdcpRx} {i : Nat} {j : Fin 8192}
    (hj : j ≠ rxBufferRingIndex i) (b : UInt8) :
    (d.withPacket i [b]).rxBufferRing j = d.rxBufferRing j :=
  Function.update_of_ne hj ..

/-- A packet of one byte in a receiver that holds nothing. -/
theorem Emptied.withPacket {cfg : RxConfig} {sns : List Nat} {d : PdcpRx}
    (h : Emptied cfg sns d) (i : Nat) (b : UInt8) :
    Holding cfg sns i (d.withPacket i [b]) := by
  obtain ⟨hcomp, hsn⟩ := withPacket_record (h.reset (rxBufferRingIndex i)) b
  refine ⟨h.config, h.enabled, h.synced, h.queue, fun j hj => ?_, hcomp, hsn⟩
  rw [withPacket_other hj b]
  exact h.reset j

/-- Delivery by single packets without a tolerated distance. -/
structure Impatient (cfg : RxConfig) : Prop where
  reorder : cfg.allowReordering = true
  rlf : cfg.allowRlf = false
  dist : cfg.maxSnDistance = 0

namespace Emptied

variable {cfg : RxConfig} {sns : List Nat} {i : Nat} {d : PdcpRx}

/-- What `on_rx` does with a packet of one byte that it does not ignore. -/
theorem rxSeg_eq (h : Emptied cfg sns d) (hcfg : Impatient cfg)
    (hbefore : d.isBefore i = false) (b : UInt8) :
    (d.rxSeg ⟨i, 0, true, [b]⟩).1 = (d.withPacket i [b]).updateLoop i (d.isOutOfRange i) := by
  rw [rxSeg_single h.synced (by rw [h.config]; exact hcfg.reorder)
    (by rw [h.config]; exact hcfg.rlf) (h.reset _) hbefore b]

/-- The expected number is delivered. -/
theorem next (h : Emptied cfg sns d) (hcfg : Impatient cfg) (hnext : d.rxSn = i)
    (hi : i < 65535) (b : UInt8) :
    Emptied cfg (sns ++ [i]) (d.rxSeg ⟨i, 0, true, [b]⟩).1 ∧
      (d.rxSeg ⟨i, 0, true, [b]⟩).1.rxSn = i + 1 := by
  have hdist : snDist i d.rxSn = 0 := by
    unfold snDist
    rw [hnext, if_pos (Nat.le_refl _), Nat.sub_self]
  have hbefore : d.isBefore i = false := by
    unfold isBefore
    rw [hdist]
    rfl
  have hrange : d.isOutOfRange i = false := by
    unfold isOutOfRange
    rw [hdist]
    rfl
  have hhold := h.withPacket i b
  have hidx : rxBufferRingIndex (d.withPacket i [b]).rxSn = rxBufferRingIndex i :=
    congrArg rxBufferRingIndex hnext
  have hcur : (d.withPacket i [b]).current.isComplete = true := by
    unfold current
    rw [hidx]
    exact hhold.complete
  have hothers : ∀ j, j ≠ rxBufferRingIndex (d.withPacket i [b]).rxSn →
      ((d.withPacket i [b]).rxBufferRing j).isComplete = false := by
    intro j hj
    rw [hhold.others j (by rwa [hidx] at hj)]
    rfl
  rw [h.rxSeg_eq hcfg hbefore, hrange, updateLoop_one hcur hothers]
  refine ⟨hhold.deliver hcur, ?_⟩
  show (d.rxSn + 1) % 65536 = i + 1
  omega

/-- The tests of `on_rx` for another number than the next one. -/
theorem tests (h : Emptied cfg sns d) (hcfg : Impatient cfg)
    (hdist : 0 < snDist i d.rxSn ∧ snDist i d.rxSn < 65535) :
    d.isBefore i = false ∧ d.isOutOfRange i = true := by
  unfold isBefore isOutOfRange
  rw [h.config, hcfg.dist, Bool.and_eq_false_iff, decide_eq_false_iff_not,
    decide_eq_false_iff_not, decide_eq_true_eq]
  omega

/-- A number ahead: the numbers in front of it are skipped, and it waits. -/
theorem ahead (h : Emptied cfg sns d) (hcfg : Impatient cfg) (hlo : d.rxSn < i)
    (hhi : i < d.rxSn + 8192) (hi : i < 65536) (b : UInt8) :
    Holding cfg sns i (d.rxSeg ⟨i, 0, true, [b]⟩).1 ∧
      (d.rxSeg ⟨i, 0, true, [b]⟩).1.rxSn = i := by
  have hdist : snDist i d.rxSn = i - d.rxSn := if_pos hlo.le
  obtain ⟨hbefore, hrange⟩ := h.tests hcfg (by rw [hdist]; omega)
  rw [h.rxSeg_eq hcfg hbefore, hrange]
  obtain ⟨e, ⟨hhold, hle, hlt⟩, hopen, hend, hloop⟩ := updateLoop_last i
    (fun e => Holding cfg sns i e ∧ d.rxSn ≤ e.rxSn ∧ e.rxSn < i)
    (by
      rintro e ⟨hhold, hle, hlt⟩ hc
      exact absurd (hhold.at_of_complete hc).symm (rxBufferRingIndex_ne hlt (by omega)))
    (by
      rintro e ⟨hhold, hle, hlt⟩ hc hne _
      have hnext : e.drop.rxSn = e.rxSn + 1 := Nat.mod_eq_of_lt (by omega)
      exact ⟨hhold.drop hc, by omega, by omega⟩)
    (d.withPacket i [b]) ⟨h.withPacket i b, Nat.le_refl _, hlo⟩
  rw [hloop]
  refine ⟨hhold.drop hopen, ?_⟩
  rcases hend with heq | hbad
  · rw [heq, Nat.mod_eq_of_lt hi]
  · rw [hhold.config, hcfg.dist] at hbad
    exact absurd hbad (Nat.not_lt_zero _)

/-- A fast-forward that finds nothing goes on until it comes to its number again. -/
theorem forward (h : Emptied cfg sns d) (hcfg : Impatient cfg) (hi : i < 65536) :
    Emptied cfg sns (d.updateLoop i true) ∧ (d.updateLoop i true).rxSn = i := by
  obtain ⟨e, hempty, _, hend, hloop⟩ := updateLoop_last i (Emptied cfg sns)
    (fun e he hc => by
      rw [show e.current.isComplete = false from he.incomplete _] at hc
      cases hc)
    (fun e he _ _ _ => he.drop) d h
  rw [hloop]
  refine ⟨hempty.drop, ?_⟩
  rcases hend with heq | hbad
  · rw [heq, Nat.mod_eq_of_lt hi]
  · rw [hempty.config, hcfg.dist] at hbad
    exact absurd hbad (Nat.not_lt_zero _)

/-- A duplicate too old to be ignored: the fast-forward goes on to the next number that
shares its record, delivers it again, and goes around. -/
theorem late (h : Emptied cfg sns d) (hcfg : Impatient cfg) (hlo : i + 1 < d.rxSn)
    (hhi : d.rxSn ≤ 8192) (b : UInt8) :
    Emptied cfg (sns ++ [i]) (d.rxSeg ⟨i, 0, true, [b]⟩).1 ∧
      (d.rxSeg ⟨i, 0, true, [b]⟩).1.rxSn = i := by
  have hdist : snDist i d.rxSn = 65535 - d.rxSn + i + 1 := if_neg (by omega)
  obtain ⟨hbefore, hrange⟩ := h.tests hcfg (by rw [hdist]; omega)
  rw [h.rxSeg_eq hcfg hbefore, hrange]
  obtain ⟨e, hinv, _, hend, hloop⟩ := updateLoop_last i
    (fun e => (Holding cfg sns i e ∧ i + 1 < e.rxSn ∧ e.rxSn ≤ i + 8192) ∨
      Emptied cfg (sns ++ [i]) e)
    (by
      rintro e (⟨hhold, _⟩ | hempty) hc
      · exact Or.inr (hhold.deliver hc)
      · rw [show e.current.isComplete = false from hempty.incomplete _] at hc
        cases hc)
    (by
      rintro e (⟨hhold, hle, hlt⟩ | hempty) hc _ _
      · have hne : e.rxSn ≠ i + 8192 := by
          intro heq
          have haway := hhold.away_of_open hc
          rw [heq, rxBufferRingIndex_add] at haway
          exact haway rfl
        have hnext : e.drop.rxSn = e.rxSn + 1 := Nat.mod_eq_of_lt (by omega)
        exact Or.inl ⟨hhold.drop hc, by omega, by omega⟩
      · exact Or.inr hempty.drop)
    (d.withPacket i [b])
    (Or.inl ⟨h.withPacket i b, hlo, show d.rxSn ≤ i + 8192 by omega⟩)
  have hnext : e.drop.rxSn = (e.rxSn + 1) % 65536 := rfl
  rcases hinv with ⟨hhold, hle, hlt⟩ | hempty
  · rcases hend with heq | hbad
    · omega
    · rw [hhold.config, hcfg.dist] at hbad
      exact absurd hbad (Nat.not_lt_zero _)
  · rw [hloop]
    refine ⟨hempty.drop, ?_⟩
    rcases hend with heq | hbad
    · omega
    · rw [hempty.config, hcfg.dist] at hbad
      exact absurd hbad (Nat.not_lt_zero _)

end Emptied

/-- A fast-forward that meets only complete records delivers its own number and skips
all the others behind it: it comes back to the number it has delivered. -/
theorem Holding.past {cfg : RxConfig} {sns : List Nat} {i : Nat} {d : PdcpRx}
    (h : Holding cfg sns i d) (hcfg : Impatient cfg) (hnext : d.rxSn = i)
    (hi : i + 2 < 65536) (b : UInt8) :
    Emptied cfg (sns ++ [i] ++ [i + 1]) (d.rxSeg ⟨i + 1, 0, true, [b]⟩).1 ∧
      (d.rxSeg ⟨i + 1, 0, true, [b]⟩).1.rxSn = i + 1 := by
  have hne : rxBufferRingIndex (i + 1) ≠ rxBufferRingIndex i :=
    rxBufferRingIndex_ne (Nat.lt_succ_self i) (by omega)
  have hdist : snDist (i + 1) d.rxSn = 1 := by
    unfold snDist
    rw [hnext, if_pos (by omega)]
    omega
  have hbefore : d.isBefore (i + 1) = false := by
    unfold isBefore
    rw [hdist, h.config, hcfg.dist]
    rfl
  have hrange : d.isOutOfRange (i + 1) = true := by
    unfold isOutOfRange
    rw [hdist, h.config, hcfg.dist]
    rfl
  rw [rxSeg_single h.synced (by rw [h.config]; exact hcfg.reorder)
    (by rw [h.config]; exact hcfg.rlf) (h.others _ hne) hbefore b, hrange]
  obtain ⟨hcomp, hsn⟩ := withPacket_record (h.others _ hne) b
  generalize hd : d.withPacket (i + 1) [b] = e at hcomp hsn
  have hring : e.rxBufferRing (rxBufferRingIndex i) =
      d.rxBufferRing (rxBufferRingIndex i) := by
    rw [← hd]
    exact withPacket_other hne.symm b
  have hrx : e.rxSn = i := by
    rw [← hd]
    exact hnext
  have hcur : e.current.isComplete = true := by
    unfold current
    rw [hrx, hring]
    exact h.complete
  have hstep : ∀ x : PdcpRx, x.current.isComplete = true →
      x.updateLoop (i + 1) true = x.deliver.updateLoop (i + 1) true := by
    intro x hc
    have hone : x.updateStep (i + 1) true = (x.deliver, true) := by
      unfold updateStep
      rw [if_pos hc]
    rw [updateLoop_of_more (by rw [hone]), hone]
  -- behind packet `i` the receiver holds packet `i + 1`
  have hhold : Holding cfg (sns ++ [i]) (i + 1) e.deliver := by
    have hidx : rxBufferRingIndex (i + 1) ≠ rxBufferRingIndex e.rxSn := by
      rw [hrx]
      exact hne
    have hkeep : e.deliver.rxBufferRing (rxBufferRingIndex (i + 1)) =
        e.rxBufferRing (rxBufferRingIndex (i + 1)) := Function.update_of_ne hidx ..
    refine ⟨?_, ?_, ?_, ?_, fun j hj => update_reset rfl (fun hj' => ?_), ?_, ?_⟩
    · rw [← hd]
      exact h.config
    · rw [← hd]
      exact h.enabled
    · rw [← hd]
      exact h.synced
    · show (e.toRxQueue ++ [(⟨e.current.sn, e.current.buffer⟩ : RxPacket)]).map _ = _
      have hqueue : e.toRxQueue.map (·.sn) = sns := by
        rw [← hd]
        exact h.queue
      rw [List.map_append, hqueue, List.map_singleton]
      unfold current
      rw [hrx, hring, h.sn]
    · rw [← hd, withPacket_other hj b]
      exact h.others j (by rwa [hrx] at hj')
    · rw [hkeep]
      exact hcomp
    · rw [hkeep]
      exact hsn
  have hrx' : e.deliver.rxSn = i + 1 := by
    show (e.rxSn + 1) % 65536 = i + 1
    omega
  have hcur' : e.deliver.current.isComplete = true := by
    unfold current
    rw [hrx']
    exact hhold.complete
  rw [hstep e hcur, hstep e.deliver hcur']
  exact (hhold.deliver hcur').forward hcfg (by omega)

/-! ## The order of delivery -/

/-- **Fast-forward keeps the order.**  A receiver that uses sequence numbers, reports no
radio link failure and has a distance below the size of its ring is enabled and gets any
PDUs.  As long as the numbers are below 32768, no segment is out of reach and every
fast-forward can stop, the numbers put on `to_rx_queue` increase, and every call of
`update_rx_sn` moves `rx_sn` forward and passes its number only by delivering. -/
theorem fastForward_ordered (d : PdcpRx) (hcfg : Forwards d.config)
    (pdus : List (List UInt8))
    (hall : ∀ x ∈ rxRunTrace (d.setRxEnabled true) pdus, x.Meets) :
    (∀ x ∈ rxRunTrace (d.setRxEnabled true) pdus, QueueOrdered d.toRxQueue x.result.1 ∧
        ∀ e ff, x.updateCall = some (e, ff) → Advances e x.sn x.result.1) ∧
      ∀ d', rxRun (d.setRxEnabled true) pdus = some d' → QueueOrdered d.toRxQueue d' := by
  have hstart : Started d.toRxQueue (d.setRxEnabled true) := Or.inl ⟨rfl, rfl, fun _ => rfl⟩
  obtain ⟨hkeeps, hend⟩ := rxRun_keeps pdus (d.setRxEnabled true) hcfg hstart hall
  exact ⟨fun x hx => ⟨(hkeeps x hx).queue, (hkeeps x hx).advances⟩,
    fun d' hd' => (hend d' hd').queueOrdered⟩

/-- Packets 0, 4 and 5 at distance 1: packets 1 to 3 are skipped. -/
theorem fastForward_skips :
    let rcfg : RxConfig :=
      { allowSegmentation := true, allowReordering := true, maxSnDistance := 1 }
    let pdus := (drawn (txRun roundConfig (roundOps 6)).pdus [0, 4, 5]).map SentPdu.bytes
    (rxRun (PdcpRx.enabled rcfg) pdus).isSome = true ∧
      ∀ d', rxRun (PdcpRx.enabled rcfg) pdus = some d' → QueueOrdered [] d' :=
  ⟨by decide +kernel, (fastForward_ordered _ ⟨rfl, rfl, by decide⟩ _ (by decide +kernel)).2⟩

theorem rxSegsTrace_sn {n : Nat} (gs : List Seg) (d : PdcpRx)
    (hre : d.config.allowReordering = true) (h : ∀ g ∈ gs, g.sn < n) :
    ∀ x ∈ d.rxSegsTrace gs, x.sn < n := by
  induction gs generalizing d with
  | nil => intro x hx; cases hx
  | cons g gs ih =>
      intro x hx
      rw [rxSegsTrace] at hx
      rcases List.mem_cons.mp hx with rfl | hx
      · show (if d.config.allowReordering = true then g.sn else 0) < n
        rw [if_pos hre]
        exact h g (List.mem_cons_self ..)
      · split at hx
        · exact ih (d.rxSeg g).1 (by rw [(d.rxSeg_setup g).config]; exact hre)
            (fun g' hg' => h g' (List.mem_cons_of_mem _ hg')) x hx
        · cases hx

/-- A receiver returns from the PDUs of a transmitter, and their segments have the
numbers of its packets. -/
theorem TxSent.rxRunTrace_sn {tcfg : TxConfig} {rcfg : RxConfig} {r : TxRun}
    {pss : List (List Piece)} {pos : Nat × Nat} (h : TxSent tcfg r pss pos)
    (hpair : Paired tcfg rcfg) (dels : List Nat) (d : PdcpRx) (hcfg : d.config = rcfg)
    (hen : d.isRxEnabled = true) :
    (∃ d', rxRun d ((drawn r.pdus dels).map SentPdu.bytes) = some d') ∧
      ∀ x ∈ rxRunTrace d ((drawn r.pdus dels).map SentPdu.bytes),
        x.sn < r.packets.length := by
  induction dels generalizing d with
  | nil => exact ⟨⟨d, rfl⟩, fun x hx => by cases hx⟩
  | cons k dels ih =>
      unfold drawn
      have hget : r.pdus[k]? = (pss[k]?).map (sentPdu tcfg r.packets) := by
        rw [h.pdus, List.getElem?_map]
      cases hk : pss[k]? with
      | none =>
          rw [hk, Option.map_none] at hget
          rw [List.filterMap_cons_none hget]
          exact ih d hcfg hen
      | some ps =>
          have hps := List.mem_of_getElem? hk
          rw [hk, Option.map_some] at hget
          rw [List.filterMap_cons_some hget, List.map_cons]
          have hbounds := fun p (hp : p ∈ ps) =>
            h.sent.emits.mem_bounds (List.mem_flatten.mpr ⟨ps, hps, hp⟩)
          have hlayout : tcfg.layout = d.config.layout := by rw [hpair.layout, hcfg]
          have hfits : ∀ g ∈ ps.map (segOf r.packets), g.Fits d.config.layout := by
            rw [← hlayout]
            exact pduOf_fits h.sent.ok hbounds (h.length ps hps)
          have hne : ps.map (segOf r.packets) ≠ [] := by simpa using h.nonempty ps hps
          have hcall := d.onRx_encodeAll (ps.map (segOf r.packets)) hne hen hfits
          have htrace := rxLoopTrace_encodeAll (ps.map (segOf r.packets)) d hfits
          have hbytes : (sentPdu tcfg r.packets ps).bytes =
              encodeAll d.config.layout (ps.map (segOf r.packets)) := by
            rw [← hlayout]
            rfl
          have hs := d.rxSegs_setup (ps.map (segOf r.packets))
          obtain ⟨⟨d', hd'⟩, hrest⟩ := ih _ (hs.config.trans hcfg) (hs.enabled.trans hen)
          rw [rxRun, rxRunTrace, hbytes, hcall, Option.bind_some]
          refine ⟨⟨d', hd'⟩, fun x hx => ?_⟩
          rcases List.mem_append.mp hx with hx | hx
          · split at hx
            · cases hx
            · rw [htrace] at hx
              refine rxSegsTrace_sn _ d (by rw [hcfg]; exact hpair.rx) ?_ x hx
              intro g hg
              obtain ⟨p, hp, rfl⟩ := List.mem_map.mp hg
              exact Nat.lt_of_le_of_lt (Nat.mod_le ..) (hbounds p hp).1
          · exact hrest x hx

/-- The PDUs of a peer that has taken fewer than 32768 packets, with any loss,
duplication and reordering, are such a run. -/
theorem peer_ordered (tcfg : TxConfig) (ops : List TxOp)
    (hops : ∀ op ∈ ops, TxOpOk 32767 op) (hfew : (txRun tcfg ops).packets.length < 32768)
    (d : PdcpRx) (hpair : Paired tcfg d.config) (hcfg : Forwards d.config) (dels : List Nat)
    (hall : ∀ x ∈ rxRunTrace (d.setRxEnabled true)
      ((drawn (txRun tcfg ops).pdus dels).map SentPdu.bytes), x.InReach ∧ x.CanStop) :
    ∃ d', rxRun (d.setRxEnabled true)
        ((drawn (txRun tcfg ops).pdus dels).map SentPdu.bytes) = some d' ∧
      QueueOrdered d.toRxQueue d' := by
  obtain ⟨pss, pos, hsent⟩ := txRun_sent tcfg ops hops
  obtain ⟨⟨d', hd'⟩, hsn⟩ := hsent.rxRunTrace_sn hpair dels (d.setRxEnabled true) rfl rfl
  have hstart : Started d.toRxQueue (d.setRxEnabled true) := Or.inl ⟨rfl, rfl, fun _ => rfl⟩
  have hmeets := fun x hx => (⟨(hsn x hx).trans hfew, (hall x hx).1, (hall x hx).2⟩ :
    RxEvent.Meets x)
  exact ⟨d', hd', ((rxRun_keeps _ (d.setRxEnabled true) hcfg hstart hmeets).2
    d' hd').queueOrdered⟩

/-! ## Runs out of order -/

/-- A receiver that tolerates no distance. -/
def impatient : RxConfig :=
  { allowSegmentation := true, allowReordering := true, maxSnDistance := 0 }

/-- The distance of one less than the ring. -/
def aliasAhead : RxConfig :=
  { allowSegmentation := true, allowReordering := true, maxSnDistance := 8191 }

/-- The first packet of a session. -/
theorem enabled_first {cfg : RxConfig} (hcfg : Impatient cfg) (b : UInt8) :
    Emptied cfg [0] ((PdcpRx.enabled cfg).rxSeg ⟨0, 0, true, [b]⟩).1 ∧
      ((PdcpRx.enabled cfg).rxSeg ⟨0, 0, true, [b]⟩).1.rxSn = 1 := by
  have hsync : Emptied cfg [] ((PdcpRx.enabled cfg).sync 0) := by
    have heq : (PdcpRx.enabled cfg).sync 0 =
        { PdcpRx.enabled cfg with rxSnSynced := true, rxSn := 0 } := rfl
    rw [heq]
    exact ⟨rfl, rfl, rfl, rfl, fun _ => rfl⟩
  have hseg : (PdcpRx.enabled cfg).rxSeg ⟨0, 0, true, [b]⟩ =
      ((PdcpRx.enabled cfg).sync 0).rxSeg ⟨0, 0, true, [b]⟩ := by
    have htwice : ((PdcpRx.enabled cfg).sync 0).sync 0 = (PdcpRx.enabled cfg).sync 0 := rfl
    unfold rxSeg rxSegment
    simp only [ite_self, htwice]
  rw [hseg]
  exact hsync.next hcfg rfl (Nat.succ_pos _) b

/-- The settings meet each other, and the receiver tolerates no distance. -/
theorem impatient_ok : Impatient impatient ∧ Paired roundConfig impatient :=
  ⟨⟨rfl, rfl, rfl⟩, ⟨rfl, rfl, rfl⟩⟩

/-- Packets of one byte, one PDU after the other. -/
theorem rxRun_single {d : PdcpRx} (hen : d.isRxEnabled = true)
    (hcfg : d.config = impatient) {n : Nat} (hn : n < 65536) (rest : List (List UInt8)) :
    rxRun d ((singlePdu roundConfig 0 n).bytes :: rest) =
      rxRun (d.rxSeg ⟨n, 0, true, [0]⟩).1 rest := by
  have hlayout : roundConfig.layout = d.config.layout := by
    rw [hcfg]
    rfl
  rw [rxRun, onRx_single hen hlayout, Option.bind_some, Nat.mod_eq_of_lt hn]

/-- A duplicate of packet 0 behind packets 0 and 1. -/
theorem late_duplicate :
    ∃ d, rxRun (PdcpRx.enabled impatient)
        ((drawn (txRun roundConfig (roundOps 2)).pdus [0, 1, 0]).map SentPdu.bytes) = some d ∧
      d.toRxQueue.map (·.sn) = [0, 1, 0] := by
  have hpdus : (drawn (txRun roundConfig (roundOps 2)).pdus [0, 1, 0]).map SentPdu.bytes =
      [(singlePdu roundConfig 0 0).bytes, (singlePdu roundConfig 0 1).bytes,
        (singlePdu roundConfig 0 0).bytes] := by
    rw [round_drawn (by decide)]
    rfl
  have hcfg := impatient_ok.1
  obtain ⟨h₀, hnext₀⟩ := enabled_first hcfg 0
  obtain ⟨h₁, hnext₁⟩ := h₀.next hcfg hnext₀ (by decide) 0
  obtain ⟨h₂, -⟩ := h₁.late hcfg (i := 0) (by omega) (by omega) 0
  rw [hpdus, rxRun_single rfl rfl (by decide), rxRun_single h₀.enabled h₀.config (by decide),
    rxRun_single h₁.enabled h₁.config (by decide)]
  exact ⟨_, rfl, h₂.queue⟩

/-- Packet 2 skips packet 1 and waits, packet 3 fast-forwards past itself, and a duplicate
of packet 3 is expected. -/
theorem passed_duplicate :
    ∃ d, rxRun (PdcpRx.enabled impatient)
        ((drawn (txRun roundConfig (roundOps 4)).pdus [0, 2, 3, 3]).map SentPdu.bytes) =
          some d ∧
      d.toRxQueue.map (·.sn) = [0, 2, 3, 3] := by
  have hpdus : (drawn (txRun roundConfig (roundOps 4)).pdus [0, 2, 3, 3]).map SentPdu.bytes =
      [(singlePdu roundConfig 0 0).bytes, (singlePdu roundConfig 0 2).bytes,
        (singlePdu roundConfig 0 3).bytes, (singlePdu roundConfig 0 3).bytes] := by
    rw [round_drawn (by decide)]
    rfl
  have hcfg := impatient_ok.1
  obtain ⟨h₀, hnext₀⟩ := enabled_first hcfg 0
  obtain ⟨h₂, hnext₂⟩ := h₀.ahead hcfg (i := 2) (by omega) (by omega) (by decide) 0
  obtain ⟨h₃, hnext₃⟩ := h₂.past hcfg hnext₂ (by decide) 0
  obtain ⟨h₄, -⟩ := h₃.next hcfg hnext₃ (by decide) 0
  rw [hpdus, rxRun_single rfl rfl (by decide), rxRun_single h₀.enabled h₀.config (by decide),
    rxRun_single h₂.enabled h₂.config (by decide),
    rxRun_single h₃.enabled h₃.config (by decide)]
  exact ⟨_, rfl, h₄.queue⟩

/-- Packet 8192 is put into the record of packet 0, of which half has arrived, and packet
3 follows. -/
theorem alias_order {r : TxRun} {n : Nat} (hn : n = 8192)
    (hpdus : r.pdus = ⟨0, encode aliasConfig.layout ⟨0, 0, false, [1]⟩⟩ ::
      ⟨0, encode aliasConfig.layout ⟨0, 1, true, [2]⟩⟩ ::
      (List.range' 1 n).map (singlePdu aliasConfig 0)) :
    (rxRun (PdcpRx.enabled aliasAhead)
      ((drawn r.pdus [0, 8193, 4]).map SentPdu.bytes)).map
        (fun d => d.toRxQueue.map (·.sn)) = some [8192, 3] := by
  have hzero : r.pdus[0]? = some ⟨0, encode aliasConfig.layout ⟨0, 0, false, [1]⟩⟩ := by
    rw [hpdus, List.getElem?_cons_zero]
  have hlast : r.pdus[8193]? = some (singlePdu aliasConfig 0 8192) := by
    rw [hpdus, List.getElem?_cons_succ, List.getElem?_cons_succ, List.getElem?_map,
      List.getElem?_range' (by omega), Option.map_some]
  have hthree : r.pdus[4]? = some (singlePdu aliasConfig 0 3) := by
    rw [hpdus, List.getElem?_cons_succ, List.getElem?_cons_succ, List.getElem?_map,
      List.getElem?_range' (by omega), Option.map_some]
  have hdrawn : drawn r.pdus [0, 8193, 4] =
      [⟨0, encode aliasConfig.layout ⟨0, 0, false, [1]⟩⟩, singlePdu aliasConfig 0 8192,
        singlePdu aliasConfig 0 3] := by
    simp only [drawn, List.filterMap_cons, hzero, hlast, hthree, List.filterMap_nil]
  rw [hdrawn]
  decide +kernel

/-- Out of the conditions: packets that were complete take a call past its number; a
number 8192 ahead is delivered before smaller ones; a duplicate too old to be ignored,
and one of a number that a fast-forward has run past, are delivered again. -/
theorem fastForward_out_of_order :
    ((rxRunTrace (PdcpRx.enabled roundReceiver)
        ((drawn (txRun aliasConfig (aliasOps 1)).pdus [0, 2, 1]).map SentPdu.bytes)).any
          fun x => x.updateCall.isSome && decide (x.sn + 1 < x.result.1.rxSn)) = true ∧
      ((rxRun (PdcpRx.enabled aliasAhead)
        ((drawn (txRun aliasConfig (aliasOps 8192)).pdus [0, 8193, 4]).map
          SentPdu.bytes)).map (fun d => d.toRxQueue.map (·.sn)) = some [8192, 3]) ∧
      (∃ d, rxRun (PdcpRx.enabled impatient)
          ((drawn (txRun roundConfig (roundOps 2)).pdus [0, 1, 0]).map SentPdu.bytes) =
            some d ∧
        d.toRxQueue.map (·.sn) = [0, 1, 0]) ∧
      ∃ d, rxRun (PdcpRx.enabled impatient)
          ((drawn (txRun roundConfig (roundOps 4)).pdus [0, 2, 3, 3]).map SentPdu.bytes) =
            some d ∧
        d.toRxQueue.map (·.sn) = [0, 2, 3, 3] :=
  ⟨by decide +kernel, alias_order rfl (aliasRun 8192).2, late_duplicate, passed_duplicate⟩

end Winject.LegacyPdcp
