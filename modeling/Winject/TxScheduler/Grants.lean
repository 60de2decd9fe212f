import Mathlib.Data.List.Sort
import Winject.Lib.Intervals
import Winject.Lib.Loops
import Winject.Lib.Runs
import Winject.TxScheduler.Registry

/-!
# The grants of a slot (`TxScheduler::tick`)

A tick lays out the data region of a frame.  Every channel is probed with a grant for
its acknowledgements, then the channels that have announced data are served in rounds,
by decreasing deficit.

The LLCs are any function `OnTx`: the answer to a grant and what is there behind it may
depend on everything that was before.  The counters are 64-bit numbers that wrap around.
`Tick` are the locals of `tick`, with the contexts as a function of their index and the
list of the grants so far, which no function reads.  `std::sort` is a parameter, since it
may put elements that compare equal in any order.

## Main results

* `tiles` — the grants tile the region, in every round, and what is allocated to a channel
  is taken from its deficit without a wrap unless its deficit has wrapped before.
-/

namespace Winject.TxScheduler.Illc

open Winject.Lib.Intervals
open Winject.Lib.Loops
open Winject.Lib.Runs

/-- What `tx_info` offers: `in_allow_data`, and the position and the size of `out_pdu`. -/
structure Offer where
  allowData : Bool
  base : Nat
  size : UInt64
  deriving DecidableEq, Repr

/-- What is in `tx_info` behind the call. -/
structure Answer where
  txAvailable : Bool := false
  hasDataLoaded : Bool := false
  allocated : UInt64 := 0
  deriving DecidableEq, Repr

/-- `ILLC::on_tx` of all LLCs, in a world of any kind. -/
abbrev OnTx (ω π : Type) := ω → π → Offer → ω × Answer

/-- A call of `on_tx`, with the deficit of the channel. -/
structure Grant where
  offer : Offer
  deficit : UInt64
  allocated : UInt64
  deriving DecidableEq, Repr

/-- The allocated bytes. -/
def Grant.range (g : Grant) : Nat × Nat := (g.offer.base, g.allocated.toNat)

/-- The locals of `tick`. -/
structure Tick (ω π : Type) where
  world : ω
  llcs : List (Option π)
  schedulesInfo : Nat → SchedulingCtx π
  schedulesCache : List Nat := []
  cursor : Nat := 0
  framePayloadRemaining : UInt64
  grants : List Grant := []

variable {ω π : Type}

/-- The product that `operator>` compares. -/
def SchedulingCtx.key (ctx : SchedulingCtx π) : UInt64 :=
  ctx.deficit * (if ctx.hasDataAllocated then 0 else 1)

/-- `std::sort` with `operator>`. -/
structure SortDescending where
  sort : (Nat → UInt64) → List Nat → List Nat
  perm : ∀ key l, (sort key l).Perm l
  sorted : ∀ key l, (sort key l).Pairwise (fun a b => key b ≤ key a)

namespace Tick

/-- `llc->on_tx(tx_info)` with at most `most` bytes, and `advance_cursor`. -/
def callLlc (onTx : OnTx ω π) (t : Tick ω π) (llc : π) (allowData : Bool) (most deficit : UInt64) :
    Tick ω π × Answer :=
  let offer : Offer := ⟨allowData, t.cursor, min t.framePayloadRemaining most⟩
  let r := onTx t.world llc offer
  ({ t with
    world := r.1
    cursor := t.cursor + r.2.allocated.toNat
    framePayloadRemaining := t.framePayloadRemaining - r.2.allocated
    grants := t.grants ++ [⟨offer, deficit, r.2.allocated⟩] }, r.2)

/-- Store a context. -/
def setCtx (t : Tick ω π) (i : Nat) (ctx : SchedulingCtx π) : Tick ω π :=
  { t with schedulesInfo := Function.update t.schedulesInfo i ctx }

/-- The context behind a probe. -/
def probed (ctx : SchedulingCtx π) (answer : Answer) : SchedulingCtx π :=
  { ctx with
    hasSchedulable := answer.txAvailable
    hasDataAllocated := answer.hasDataLoaded
    deficit := if answer.txAvailable then ctx.deficit else ctx.deficit * 8 / 10 }

/-- The body of the first loop. -/
def probe (onTx : OnTx ω π) (t : Tick ω π) (i : Nat) : Tick ω π :=
  match t.llcs[i]? with
  | some (some llc) =>
    let ctx := t.schedulesInfo i
    let (t, answer) := t.callLlc onTx llc false ctx.ndGpduMaxSize ctx.deficit
    let t := t.setCtx i (probed ctx answer)
    if answer.txAvailable then { t with schedulesCache := t.schedulesCache ++ [i] } else t
  | _ => t

/-- The start of a tick, with a data region of `region` bytes. -/
def start (world : ω) (s : Registry π) (region : UInt64) : Tick ω π where
  world := world
  llcs := s.llcs
  schedulesInfo := fun i => s.schedulesInfo.getD i {}
  framePayloadRemaining := region

/-- The first loop. -/
def probeAll (onTx : OnTx ω π) (world : ω) (s : Registry π) (region : UInt64) : Tick ω π :=
  (List.range s.llcs.length).foldl (probe onTx) (start world s region)

/-- The quanta of a round. -/
def addQuanta (t : Tick ω π) : Tick ω π :=
  { t with
    schedulesInfo := fun i =>
      if i ∈ t.schedulesCache then
        { t.schedulesInfo i with
          deficit := (t.schedulesInfo i).deficit + (t.schedulesInfo i).quanta }
      else t.schedulesInfo i }

/-- The context behind a grant for data. -/
def served (ctx : SchedulingCtx π) (answer : Answer) : SchedulingCtx π :=
  { ctx with hasDataAllocated := answer.hasDataLoaded, currentAlloc := answer.allocated }

/-- `schedule.llc->on_tx(tx_info)` with the deficit, and the context behind it. -/
def grantData (onTx : OnTx ω π) (t : Tick ω π) (i : Nat) (llc : π) : Tick ω π :=
  let ctx := t.schedulesInfo i
  let r := t.callLlc onTx llc true ctx.deficit ctx.deficit
  r.1.setCtx i (served ctx r.2)

/-- The loop over the sorted channels, with `schedulable_count` and
`max_quanta_allocated`.  It ends at the first channel that has sent its data.  There are
no null pointers in `schedules_cache`. -/
def serve (onTx : OnTx ω π) : List Nat → Tick ω π → Nat → UInt64 → Tick ω π × Nat × UInt64
  | [], t, count, maxQuanta => (t, count, maxQuanta)
  | i :: rest, t, count, maxQuanta =>
    let ctx := t.schedulesInfo i
    if ctx.hasDataAllocated then (t, count, maxQuanta) else
    match ctx.llc with
    | none => (t, count, maxQuanta)
    | some llc =>
      serve onTx rest (t.grantData onTx i llc) (count + 1) (max maxQuanta ctx.deficit)

/-- The channels by decreasing key. -/
def sortCache (std : SortDescending) (t : Tick ω π) : Tick ω π :=
  { t with schedulesCache := std.sort (fun i => (t.schedulesInfo i).key) t.schedulesCache }

/-- One round; the flag is set at the `break`. -/
def round (std : SortDescending) (onTx : OnTx ω π) (t : Tick ω π) : Tick ω π × Bool :=
  let t := t.addQuanta.sortCache std
  let r := serve onTx t.schedulesCache t 0 0
  (r.1, decide (r.2.2 > r.1.framePayloadRemaining) || r.2.1 == 0)

/-- The loop over the rounds, `while (frame_payload_remaining)`. -/
def dataLoop (std : SortDescending) (onTx : OnTx ω π) (s : Tick ω π × Bool) :
    Option (Tick ω π × Bool) :=
  if s.2 then none
  else if s.1.framePayloadRemaining = 0 then none
  else some (s.1.round std onTx)

/-- The deficits at the end of the tick. -/
def settle (t : Tick ω π) : Tick ω π :=
  { t with
    schedulesInfo := fun i =>
      if i ∈ t.schedulesCache ∧ (t.schedulesInfo i).hasDataAllocated then
        { t.schedulesInfo i with
          deficit := (t.schedulesInfo i).deficit - (t.schedulesInfo i).currentAlloc
          currentAlloc := 0 }
      else t.schedulesInfo i }

/-! ## The calls of a tick -/

/-- The ways of a probe. -/
theorem probe_cases (onTx : OnTx ω π) (t : Tick ω π) (i : Nat) :
    (t.probe onTx i = t ∧ ∀ llc, t.llcs[i]? ≠ some (some llc)) ∨
      ∃ llc r, t.llcs[i]? = some (some llc) ∧
        r = t.callLlc onTx llc false (t.schedulesInfo i).ndGpduMaxSize
          (t.schedulesInfo i).deficit ∧
        t.probe onTx i = { r.1 with
          schedulesInfo := Function.update t.schedulesInfo i (probed (t.schedulesInfo i) r.2)
          schedulesCache :=
            if r.2.txAvailable then t.schedulesCache ++ [i] else t.schedulesCache } := by
  unfold probe
  split
  · rename_i llc hllc
    refine Or.inr ⟨llc, _, hllc, rfl, ?_⟩
    dsimp only
    split_ifs <;> rfl
  · rename_i hnull
    exact Or.inl ⟨rfl, hnull⟩

/-- What a grant keeps, the loop over the channels keeps. -/
theorem serve_invariant {onTx : OnTx ω π} {I : Tick ω π → Prop}
    (hgrant : ∀ t i llc, I t → (t.schedulesInfo i).hasDataAllocated = false →
      (t.schedulesInfo i).llc = some llc → I (t.grantData onTx i llc))
    (l : List Nat) {t : Tick ω π} (h : I t) (count : Nat) (maxQuanta : UInt64) :
    I (serve onTx l t count maxQuanta).1 := by
  induction l generalizing t count maxQuanta with
  | nil => exact h
  | cons i l ih =>
      unfold serve
      dsimp only
      split_ifs with hdata
      · exact h
      · split
        · exact h
        · rename_i llc hllc
          exact ih (hgrant t i llc h (by simpa using hdata) hllc) _ _

/-- One iteration of the loop over the rounds. -/
theorem dataLoop_some {std : SortDescending} {onTx : OnTx ω π} {s s' : Tick ω π × Bool}
    (h : dataLoop std onTx s = some s') :
    s.2 = false ∧ s.1.framePayloadRemaining ≠ 0 ∧ s' = s.1.round std onTx := by
  unfold dataLoop at h
  split_ifs at h with hbroken hzero
  exact ⟨by simpa using hbroken, hzero, (Option.some.inj h).symm⟩

/-- The loop over the rounds, from the end of the probes on. -/
def Reaches (std : SortDescending) (onTx : OnTx ω π) (world : ω) (s : Registry π)
    (region : UInt64) (t : Tick ω π) (broken : Bool) : Prop :=
  Visits (dataLoop std onTx) (probeAll onTx world s region, false) (t, broken)

/-- **What the calls keep, a tick keeps**, of the world, the cursor and the grants. -/
theorem reaches_invariant {std : SortDescending} {onTx : OnTx ω π} {I : Tick ω π → Prop}
    (hcall : ∀ t llc allowData most deficit, I t → (allowData = true → most ≤ deficit) →
      I (t.callLlc onTx llc allowData most deficit).1)
    (hcongr : ∀ t t' : Tick ω π, I t → t'.world = t.world → t'.cursor = t.cursor →
      t'.framePayloadRemaining = t.framePayloadRemaining → t'.grants = t.grants → I t')
    {world : ω} {s : Registry π} {region : UInt64} (hstart : I (start world s region))
    {t : Tick ω π} {broken : Bool} (h : Reaches std onTx world s region t broken) : I t := by
  have hprobe : ∀ t i, I t → I (t.probe onTx i) := by
    intro t i ht
    rcases t.probe_cases onTx i with ⟨heq, -⟩ | ⟨llc, r, -, hr, heq⟩
    · rw [heq]
      exact ht
    · rw [heq]
      have hbehind := hcall t llc false (t.schedulesInfo i).ndGpduMaxSize
        (t.schedulesInfo i).deficit ht (fun hallow => by cases hallow)
      rw [← hr] at hbehind
      exact hcongr r.1 _ hbehind rfl rfl rfl rfl
  have hgrant : ∀ t i llc, I t → I (t.grantData onTx i llc) := by
    intro t i llc ht
    have hbehind := hcall t llc true (t.schedulesInfo i).deficit (t.schedulesInfo i).deficit ht
      (fun _ => UInt64.le_refl _)
    exact hcongr _ _ hbehind rfl rfl rfl rfl
  have hround : ∀ t, I t → I (t.round std onTx).1 := fun t ht =>
    serve_invariant (fun t i llc ht _ _ => hgrant t i llc ht) _
      (hcongr t (t.addQuanta.sortCache std) ht rfl rfl rfl rfl) 0 0
  have hprobed : I (probeAll onTx world s region) := foldl_invariant I hprobe _ _ hstart
  refine Visits.invariant (P := fun st => I st.1) (fun st st' hst hstep => ?_) h hprobed
  obtain ⟨-, -, rfl⟩ := dataLoop_some hstep
  exact hround st.1 hst

/-! ## The region is tiled -/

/-- The LLCs allocate at most what they are offered. -/
def Within (onTx : OnTx ω π) : Prop :=
  ∀ world llc offer, (onTx world llc offer).2.allocated ≤ offer.size

/-- The LLCs load data only when they may. -/
def DataWhenAllowed (onTx : OnTx ω π) : Prop :=
  ∀ world llc offer, (onTx world llc offer).2.hasDataLoaded = true → offer.allowData = true

/-- The grants so far are consecutive, and the rest of the region is behind them. -/
structure Tiled (region : UInt64) (t : Tick ω π) : Prop where
  consecutive : Consecutive 0 (t.grants.map Grant.range) t.cursor
  total : t.cursor + t.framePayloadRemaining.toNat = region.toNat
  inside : ∀ g ∈ t.grants, g.offer.base + g.offer.size.toNat ≤ region.toNat
  allocated : ∀ g ∈ t.grants, g.allocated ≤ g.offer.size
  deficit : ∀ g ∈ t.grants, g.offer.allowData = true → g.offer.size ≤ g.deficit

theorem Tiled.callLlc {onTx : OnTx ω π} (hwithin : Within onTx) {region : UInt64} {t : Tick ω π}
    (h : t.Tiled region) (llc : π) {allowData : Bool} {most deficit : UInt64}
    (hmost : allowData = true → most ≤ deficit) :
    (t.callLlc onTx llc allowData most deficit).1.Tiled region := by
  unfold Tick.callLlc
  have hsize : min t.framePayloadRemaining most ≤ t.framePayloadRemaining := Std.min_le_left
  have hdeficit : allowData = true → min t.framePayloadRemaining most ≤ deficit :=
    fun hallow => UInt64.le_trans Std.min_le_right (hmost hallow)
  generalize min t.framePayloadRemaining most = size at *
  have hle := hwithin t.world llc ⟨allowData, t.cursor, size⟩
  dsimp only at hle ⊢
  generalize (onTx t.world llc ⟨allowData, t.cursor, size⟩).2 = answer at *
  have htotal := h.total
  have hsub := UInt64.toNat_sub_of_le _ _ (UInt64.le_trans hle hsize)
  have hleNat := UInt64.le_iff_toNat_le.mp hle
  have hsizeNat := UInt64.le_iff_toNat_le.mp hsize
  constructor
  · rw [List.map_append]
    exact h.consecutive.snoc _
  · show t.cursor + _ + (t.framePayloadRemaining - answer.allocated).toNat = _
    omega
  · intro g hg
    rcases List.mem_append.mp hg with hold | hnew
    · exact h.inside g hold
    · rw [List.mem_singleton.mp hnew]
      show t.cursor + size.toNat ≤ _
      omega
  · intro g hg
    rcases List.mem_append.mp hg with hold | hnew
    · exact h.allocated g hold
    · rw [List.mem_singleton.mp hnew]
      exact hle
  · intro g hg
    rcases List.mem_append.mp hg with hold | hnew
    · exact h.deficit g hold
    · rw [List.mem_singleton.mp hnew]
      exact hdeficit

/-- A tick with other contexts. -/
theorem Tiled.congr {region : UInt64} {t t' : Tick ω π} (h : t.Tiled region)
    (hgrants : t'.grants = t.grants) (hcursor : t'.cursor = t.cursor)
    (hrest : t'.framePayloadRemaining = t.framePayloadRemaining) : t'.Tiled region := by
  refine ⟨?_, ?_, ?_, ?_, ?_⟩
  · rw [hgrants, hcursor]
    exact h.consecutive
  · rw [hcursor, hrest]
    exact h.total
  · rw [hgrants]
    exact h.inside
  · rw [hgrants]
    exact h.allocated
  · rw [hgrants]
    exact h.deficit

theorem Tiled.start (world : ω) (s : Registry π) (region : UInt64) :
    (start world s region).Tiled region := by
  refine ⟨rfl, ?_, ?_, ?_, ?_⟩
  · exact Nat.zero_add _
  · exact fun g hg => absurd hg (List.not_mem_nil)
  · exact fun g hg => absurd hg (List.not_mem_nil)
  · exact fun g hg => absurd hg (List.not_mem_nil)

theorem Tiled.reaches {std : SortDescending} {onTx : OnTx ω π} (hwithin : Within onTx) {world : ω}
    {s : Registry π} {region : UInt64} {t : Tick ω π} {broken : Bool}
    (h : Reaches std onTx world s region t broken) : t.Tiled region :=
  reaches_invariant (fun _ llc _ _ _ ht hmost => ht.callLlc hwithin llc hmost)
    (fun _ _ ht _ hcursor hrest hgrants => ht.congr hgrants hcursor hrest)
    (Tiled.start world s region) h

/-- The ranges of the grants tile the region from its start. -/
structure Tiles (region : UInt64) (t : Tick ω π) : Prop where
  consecutive : Consecutive 0 (t.grants.map Grant.range) t.cursor
  disjoint : Ordered (t.grants.map Grant.range)
  inside : ∀ g ∈ t.grants, g.offer.base + g.offer.size.toNat ≤ region.toNat
  allocated : ∀ g ∈ t.grants, g.allocated ≤ g.offer.size
  total : (t.grants.map (·.allocated.toNat)).sum + t.framePayloadRemaining.toNat = region.toNat
  deficit : ∀ g ∈ t.grants, g.offer.allowData = true → g.offer.size ≤ g.deficit

theorem Tiled.toTiles {region : UInt64} {t : Tick ω π} (h : t.Tiled region) : t.Tiles region := by
  have hsum := h.consecutive.sum
  rw [List.map_map, Nat.zero_add] at hsum
  refine ⟨h.consecutive, h.consecutive.ordered, h.inside, h.allocated, ?_, h.deficit⟩
  rw [← h.total, ← hsum]
  rfl

/-! ## What is allocated is covered by the deficit -/

/-- What `tick` subtracts from the deficit of a channel is not more than that. -/
def Covered (t : Tick ω π) (i : Nat) : Prop :=
  (t.schedulesInfo i).hasDataAllocated = true →
    (t.schedulesInfo i).currentAlloc ≤ (t.schedulesInfo i).deficit

/-- The subtraction at the end of the tick does not wrap. -/
theorem Covered.settle {t : Tick ω π} {i : Nat} (h : t.Covered i) (hi : i ∈ t.schedulesCache)
    (hdata : (t.schedulesInfo i).hasDataAllocated = true) :
    (t.settle.schedulesInfo i).deficit.toNat =
      (t.schedulesInfo i).deficit.toNat - (t.schedulesInfo i).currentAlloc.toNat := by
  unfold Tick.settle
  dsimp only
  rw [if_pos ⟨hi, hdata⟩]
  exact UInt64.toNat_sub_of_le _ _ (h hdata)

/-- The next quanta of a channel do not wrap its deficit. -/
def Grows (t : Tick ω π) (i : Nat) : Prop :=
  (t.schedulesInfo i).deficit.toNat + (t.schedulesInfo i).quanta.toNat < 2 ^ 64

/-- The probes load no data. -/
theorem probe_unloaded {onTx : OnTx ω π} (hdata : DataWhenAllowed onTx) {t : Tick ω π}
    (h : ∀ i ∈ t.schedulesCache, (t.schedulesInfo i).hasDataAllocated = false) (j : Nat) :
    ∀ i ∈ (t.probe onTx j).schedulesCache,
      ((t.probe onTx j).schedulesInfo i).hasDataAllocated = false := by
  rcases t.probe_cases onTx j with ⟨heq, -⟩ | ⟨llc, r, -, hr, heq⟩
  · rw [heq]
    exact h
  · intro i hi
    rw [heq] at hi ⊢
    dsimp only at hi ⊢
    by_cases hij : i = j
    · rw [hij, Function.update_self]
      by_contra hloaded
      have hallow := hdata t.world llc
        ⟨false, t.cursor, min t.framePayloadRemaining (t.schedulesInfo j).ndGpduMaxSize⟩
      subst hr
      exact absurd (hallow (Bool.not_eq_false _ ▸ hloaded)) Bool.false_ne_true
    · rw [Function.update_of_ne hij]
      refine h i ?_
      split_ifs at hi
      · exact (List.mem_append.mp hi).resolve_right (by simpa using hij)
      · exact hi

theorem probeAll_unloaded {onTx : OnTx ω π} (hdata : DataWhenAllowed onTx) (world : ω)
    (s : Registry π) (region : UInt64) : ∀ i ∈ (probeAll onTx world s region).schedulesCache,
      ((probeAll onTx world s region).schedulesInfo i).hasDataAllocated = false := by
  have hstart : ∀ i ∈ (start world s region).schedulesCache,
      ((start world s region).schedulesInfo i).hasDataAllocated = false :=
    fun i hi => absurd hi (List.not_mem_nil)
  exact foldl_invariant
    (fun t : Tick ω π => ∀ i ∈ t.schedulesCache, (t.schedulesInfo i).hasDataAllocated = false)
    (fun t j ht => probe_unloaded hdata ht j) _ _ hstart

theorem Covered.grantData {onTx : OnTx ω π} (hwithin : Within onTx) {t : Tick ω π} {i : Nat}
    (h : t.Covered i) (j : Nat) (llc : π) : (t.grantData onTx j llc).Covered i := by
  unfold Covered Tick.grantData setCtx
  dsimp only
  by_cases hij : i = j
  · rw [hij, Function.update_self]
    intro _
    exact UInt64.le_trans (hwithin ..) Std.min_le_right
  · rw [Function.update_of_ne hij]
    exact h

theorem Covered.round {onTx : OnTx ω π} (hwithin : Within onTx) {std : SortDescending}
    {t : Tick ω π} {i : Nat} (h : t.Covered i) (hgrows : t.Grows i) :
    (t.round std onTx).1.Covered i := by
  have hadded : (t.addQuanta.sortCache std).Covered i := by
    show t.addQuanta.Covered i
    unfold Covered addQuanta
    dsimp only
    split_ifs
    · intro hloaded
      refine UInt64.le_trans (h hloaded) ?_
      rw [UInt64.le_iff_toNat_le, UInt64.toNat_add, Nat.mod_eq_of_lt hgrows]
      exact Nat.le_add_right ..
    · exact h
  exact serve_invariant (I := fun u : Tick ω π => u.Covered i)
    (fun _ j llc ht _ _ => ht.grantData hwithin j llc) _ hadded 0 0

/-- The rounds keep the channels that are served. -/
theorem mem_round_cache {std : SortDescending} {onTx : OnTx ω π} {t : Tick ω π} {i : Nat} :
    i ∈ (t.round std onTx).1.schedulesCache ↔ i ∈ t.schedulesCache := by
  have hkeep : (t.round std onTx).1.schedulesCache =
      (t.addQuanta.sortCache std).schedulesCache :=
    serve_invariant (I := fun u : Tick ω π => u.schedulesCache =
      (t.addQuanta.sortCache std).schedulesCache) (fun _ _ _ hu _ _ => hu) _ rfl 0 0
  rw [hkeep]
  exact (std.perm _ _).mem_iff

/-- **The grants tile the region**, in every round of every tick; and at its end every
channel has a deficit that covers what is subtracted from it, unless its deficit has
wrapped around in a round. -/
theorem tiles (std : SortDescending) (onTx : OnTx ω π) (hwithin : Within onTx)
    (hdata : DataWhenAllowed onTx) (world : ω) (s : Registry π) (region : UInt64) (t : Tick ω π)
    (broken : Bool) (h : Reaches std onTx world s region t broken) :
    t.Tiles region ∧ ∀ i ∈ t.schedulesCache,
      (∀ u, Reaches std onTx world s region u false → u.framePayloadRemaining ≠ 0 → u.Grows i) →
        t.Covered i := by
  refine ⟨(Tiled.reaches hwithin h).toTiles, ?_⟩
  have hend := probeAll_unloaded hdata world s region
  unfold Reaches at h
  generalize hs : (t, broken) = st at h
  suffices hall : ∀ i ∈ st.1.schedulesCache,
      (∀ u, Reaches std onTx world s region u false → u.framePayloadRemaining ≠ 0 → u.Grows i) →
        st.1.Covered i by
    subst hs
    exact hall
  clear hs
  induction h with
  | start => exact fun i hi _ hloaded => by rw [hend i hi] at hloaded; cases hloaded
  | @next st st' hvisit hstep ih =>
      obtain ⟨hrunning, hrest, rfl⟩ := dataLoop_some hstep
      intro i hi hgrows
      rw [mem_round_cache] at hi
      obtain ⟨u, broken⟩ := st
      have hu : broken = false := hrunning
      subst hu
      exact (ih i hi hgrows).round hwithin (hgrows u hvisit hrest)

/-! ## One channel and two -/

/-- One of the sorts. -/
def insertionSort : SortDescending where
  sort := fun key => List.insertionSort (fun a b => key b ≤ key a)
  perm := fun _ => List.perm_insertionSort _
  sorted := fun key l => by
    have : Std.Total (fun a b => key b ≤ key a) := ⟨fun a b => UInt64.le_total (key b) (key a)⟩
    have : IsTrans Nat (fun a b => key b ≤ key a) := ⟨fun _ _ _ h h' => UInt64.le_trans h' h⟩
    exact List.pairwise_insertionSort _ l

/-- A channel with a deficit of 6 bytes, whose quanta wrap it around. -/
def oneChannel : Registry Unit where
  llcs := [some ()]
  schedulesInfo := [{ llc := some (), deficit := 6, quanta := 0xFFFFFFFFFFFFFFFF }]

/-- An LLC that has more data than it may load. -/
def loadsAll : OnTx Unit Unit := fun _ _ offer =>
  ((), if offer.allowData then ⟨true, true, offer.size⟩ else ⟨true, false, 0⟩)

theorem loadsAll_within : Within loadsAll := by
  intro world llc offer
  unfold loadsAll
  split_ifs
  · exact UInt64.le_refl _
  · exact UInt64.zero_le

theorem loadsAll_dataWhenAllowed : DataWhenAllowed loadsAll := by
  intro world llc offer
  unfold loadsAll
  split_ifs with hallow
  · exact fun _ => hallow
  · simp

/-- In the second round its deficit wraps around, to less than what it was granted. -/
theorem oneChannel_wraps : ∃ t, Reaches insertionSort loadsAll () oneChannel 100 t true ∧
    0 ∈ t.schedulesCache ∧ ¬ t.Covered 0 := by
  have hfirst : dataLoop insertionSort loadsAll (probeAll loadsAll () oneChannel 100, false) =
      some ((probeAll loadsAll () oneChannel 100).round insertionSort loadsAll) := rfl
  generalize hr : (probeAll loadsAll () oneChannel 100).round insertionSort loadsAll = r at hfirst
  have hsecond : dataLoop insertionSort loadsAll r =
      some (r.1.round insertionSort loadsAll) := by
    subst hr
    rfl
  have hbroken : (r.1.round insertionSort loadsAll).2 = true := by
    subst hr
    decide
  have hvisit : Reaches insertionSort loadsAll () oneChannel 100
      (r.1.round insertionSort loadsAll).1 (r.1.round insertionSort loadsAll).2 :=
    (Visits.start.next hfirst).next hsecond
  rw [hbroken] at hvisit
  refine ⟨_, hvisit, ?_, ?_⟩
  · subst hr
    decide
  · subst hr
    unfold Covered
    decide

/-- Two channels that fill a region of 100 bytes in one round. -/
def twoChannels : Registry Unit where
  llcs := [some (), some ()]
  schedulesInfo :=
    [{ llc := some (), deficit := 30, quanta := 10 }, { llc := some (), deficit := 60, quanta := 10 }]

/-- The two probes, and the grants of the round by decreasing deficit. -/
theorem twoChannels_first_round :
    ((probeAll loadsAll () twoChannels 100).round insertionSort loadsAll).1.Tiles 100 ∧
      ((probeAll loadsAll () twoChannels 100).round insertionSort loadsAll).1.grants.map
        Grant.range = [(0, 0), (0, 0), (0, 70), (70, 30)] :=
  ⟨(tiles insertionSort loadsAll loadsAll_within loadsAll_dataWhenAllowed () twoChannels 100 _ _
    (Visits.start.next rfl)).1, by decide⟩

end Tick

end Winject.TxScheduler.Illc
