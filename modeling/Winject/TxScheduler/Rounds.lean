import Mathlib.Data.Nat.Factorization.Basic
import Winject.TxScheduler.Grants

/-!
# The rounds of a slot come to an end, or not

The loop over the rounds ends when a served channel has a deficit larger than what is
left of the region, or when every channel has loaded data.  A channel without quanta,
whose LLC announces data and loads none, does neither.

## Main results

* `round_running` — behind a round that does not end the loop, every channel that has not
  loaded data has a deficit of at most the rest of the region.
* `ends_iff` — when the loop ends for every behaviour of the LLCs.
* `exceeds_iff` — for regions below 2 ^ 63 this is that every channel has quanta, or a
  deficit larger than the region.
-/

namespace Winject.TxScheduler.Illc

open Winject.Lib.Loops

variable {ω π : Type}

/-- The deficit of the channel is at some time larger than the region. -/
def SchedulingCtx.Exceeds (ctx : SchedulingCtx π) (region : UInt64) : Prop :=
  ∃ k, 1 ≤ k ∧ region < ctx.deficit + UInt64.ofNat k * ctx.quanta

namespace Tick

/-! ## One round -/

/-- What the loop over the channels keeps. -/
structure Kept (t t' : Tick ω π) : Prop where
  cache : t'.schedulesCache = t.schedulesCache
  rest : t'.framePayloadRemaining ≤ t.framePayloadRemaining
  llc : ∀ i, (t'.schedulesInfo i).llc = (t.schedulesInfo i).llc
  deficit : ∀ i, (t'.schedulesInfo i).deficit = (t.schedulesInfo i).deficit
  quanta : ∀ i, (t'.schedulesInfo i).quanta = (t.schedulesInfo i).quanta
  loaded : ∀ i, (t.schedulesInfo i).hasDataAllocated = true →
    (t'.schedulesInfo i).hasDataAllocated = true

theorem Kept.refl (t : Tick ω π) : t.Kept t :=
  ⟨rfl, UInt64.le_refl _, fun _ => rfl, fun _ => rfl, fun _ => rfl, fun _ h => h⟩

/-- The context of another channel. -/
theorem grantData_of_ne (onTx : OnTx ω π) (t : Tick ω π) {i j : Nat} (h : j ≠ i) (llc : π) :
    (t.grantData onTx i llc).schedulesInfo j = t.schedulesInfo j :=
  Function.update_of_ne h ..

/-- The context of the channel. -/
theorem grantData_self (onTx : OnTx ω π) (t : Tick ω π) (i : Nat) (llc : π) :
    ∃ answer, (t.grantData onTx i llc).schedulesInfo i = served (t.schedulesInfo i) answer :=
  ⟨_, Function.update_self ..⟩

theorem Kept.grantData {onTx : OnTx ω π} (hwithin : Within onTx) {t t' : Tick ω π} (h : t.Kept t')
    {i : Nat} (hdata : (t'.schedulesInfo i).hasDataAllocated = false) (llc : π) :
    t.Kept (t'.grantData onTx i llc) := by
  have hle : (onTx t'.world llc ⟨true, t'.cursor,
      min t'.framePayloadRemaining (t'.schedulesInfo i).deficit⟩).2.allocated ≤
        t'.framePayloadRemaining := UInt64.le_trans (hwithin ..) Std.min_le_left
  have hrest : (t'.grantData onTx i llc).framePayloadRemaining ≤ t'.framePayloadRemaining := by
    rw [UInt64.le_iff_toNat_le]
    exact (UInt64.toNat_sub_of_le _ _ hle).trans_le (Nat.sub_le ..)
  obtain ⟨answer, hself⟩ := t'.grantData_self onTx i llc
  have hother : ∀ j, j ≠ i → (t'.grantData onTx i llc).schedulesInfo j = t'.schedulesInfo j :=
    fun j hji => t'.grantData_of_ne onTx hji llc
  refine ⟨h.cache, UInt64.le_trans hrest h.rest, fun j => ?_, fun j => ?_, fun j => ?_,
    fun j hloaded => ?_⟩
  · by_cases hji : j = i
    · rw [hji, hself, ← h.llc]
      rfl
    · rw [hother j hji, h.llc]
  · by_cases hji : j = i
    · rw [hji, hself, ← h.deficit]
      rfl
    · rw [hother j hji, h.deficit]
  · by_cases hji : j = i
    · rw [hji, hself, ← h.quanta]
      rfl
    · rw [hother j hji, h.quanta]
  · have hnow := h.loaded j hloaded
    have hji : j ≠ i := by
      rintro rfl
      rw [hdata] at hnow
      cases hnow
    rw [hother j hji, hnow]

theorem serve_kept {onTx : OnTx ω π} (hwithin : Within onTx) (l : List Nat) (t : Tick ω π)
    (count : Nat) (maxQuanta : UInt64) : t.Kept (serve onTx l t count maxQuanta).1 :=
  serve_invariant (I := fun u : Tick ω π => t.Kept u)
    (fun _ _ llc hu hdata _ => hu.grantData hwithin hdata llc) l (Kept.refl t) count maxQuanta

theorem toNat_max (a b : UInt64) : (max a b).toNat = max a.toNat b.toNat := by
  show (if a ≤ b then b else a).toNat = _
  split_ifs with h <;> rw [UInt64.le_iff_toNat_le] at h <;> omega

/-- The counters grow. -/
theorem serve_counters (onTx : OnTx ω π) (l : List Nat) (t : Tick ω π) (count : Nat)
    (maxQuanta : UInt64) : count ≤ (serve onTx l t count maxQuanta).2.1 ∧
      maxQuanta ≤ (serve onTx l t count maxQuanta).2.2 := by
  induction l generalizing t count maxQuanta with
  | nil => exact ⟨Nat.le_refl _, UInt64.le_refl _⟩
  | cons i l ih =>
      unfold serve
      dsimp only
      split_ifs
      · exact ⟨Nat.le_refl _, UInt64.le_refl _⟩
      · split
        · exact ⟨Nat.le_refl _, UInt64.le_refl _⟩
        · rename_i llc hllc
          obtain ⟨hcount, hmax⟩ := ih (t.grantData onTx i llc) (count + 1)
            (max maxQuanta (t.schedulesInfo i).deficit)
          rw [UInt64.le_iff_toNat_le, toNat_max] at hmax
          rw [UInt64.le_iff_toNat_le]
          omega

/-- The first channel decides: nothing is served, or it is. -/
theorem serve_first (onTx : OnTx ω π) (i : Nat) (l : List Nat) (t : Tick ω π) :
    (serve onTx (i :: l) t 0 0).2.1 = 0 ∨
      ((t.schedulesInfo i).hasDataAllocated = false ∧
        (t.schedulesInfo i).deficit ≤ (serve onTx (i :: l) t 0 0).2.2) := by
  unfold serve
  dsimp only
  split_ifs with hdata
  · exact Or.inl rfl
  · split
    · exact Or.inl rfl
    · rename_i llc hllc
      obtain ⟨-, hmax⟩ := serve_counters onTx l (t.grantData onTx i llc) (0 + 1)
        (max 0 (t.schedulesInfo i).deficit)
      rw [UInt64.le_iff_toNat_le, toNat_max] at hmax
      rw [UInt64.le_iff_toNat_le]
      exact Or.inr ⟨by simpa using hdata, by omega⟩

/-- The key of a channel that has not loaded data is its deficit. -/
theorem key_of_unloaded {ctx : SchedulingCtx π} (h : ctx.hasDataAllocated = false) :
    ctx.key = ctx.deficit := by
  simp [SchedulingCtx.key, h]

/-- The contexts in a round. -/
theorem addQuanta_mem {t : Tick ω π} {i : Nat} (h : i ∈ t.schedulesCache) :
    t.addQuanta.schedulesInfo i = { t.schedulesInfo i with
      deficit := (t.schedulesInfo i).deficit + (t.schedulesInfo i).quanta } :=
  if_pos h

/-- Behind a round that does not end the loop, every channel that had not loaded data in
front of it has a deficit of at most the rest of the region. -/
theorem round_running {std : SortDescending} {onTx : OnTx ω π} {t : Tick ω π}
    (h : (t.round std onTx).2 = false) {i : Nat} (hi : i ∈ t.schedulesCache)
    (hdata : (t.schedulesInfo i).hasDataAllocated = false) :
    (t.schedulesInfo i).deficit + (t.schedulesInfo i).quanta ≤
      (t.round std onTx).1.framePayloadRemaining := by
  unfold round at h ⊢
  dsimp only at h ⊢
  have hctx := addQuanta_mem hi
  have hmem : i ∈ (t.addQuanta.sortCache std).schedulesCache := (std.perm _ _).mem_iff.mpr hi
  have hsorted : (t.addQuanta.sortCache std).schedulesCache.Pairwise
      (fun a b => (t.addQuanta.schedulesInfo b).key ≤ (t.addQuanta.schedulesInfo a).key) :=
    std.sorted _ _
  have hinfo : (t.addQuanta.sortCache std).schedulesInfo = t.addQuanta.schedulesInfo := rfl
  generalize t.addQuanta.sortCache std = u at *
  generalize hl : u.schedulesCache = l at *
  cases l with
  | nil => cases hmem
  | cons first l =>
      have hfirst := serve_first onTx first l u
      generalize serve onTx (first :: l) u 0 0 = r at *
      simp only [Bool.or_eq_false_iff, decide_eq_false_iff_not, beq_eq_false_iff_ne] at h
      obtain ⟨hfree, hserved⟩ := hfirst.resolve_left h.2
      have hkey : (t.addQuanta.schedulesInfo i).key ≤ (t.addQuanta.schedulesInfo first).key := by
        rcases List.mem_cons.mp hmem with rfl | hrest
        · exact UInt64.le_refl _
        · exact List.rel_of_pairwise_cons hsorted hrest
      have hunloaded : (t.addQuanta.schedulesInfo i).hasDataAllocated = false := by
        rw [hctx]
        exact hdata
      rw [hinfo] at hfree hserved
      rw [key_of_unloaded hunloaded, key_of_unloaded hfree, hctx] at hkey
      have hrest : r.2.2 ≤ r.1.framePayloadRemaining := by
        rw [UInt64.le_iff_toNat_le]
        exact Nat.le_of_not_lt fun hlt => h.1 (UInt64.lt_iff_toNat_lt.mpr hlt)
      exact UInt64.le_trans (UInt64.le_trans hkey hserved) hrest

/-- A round in which every channel has loaded data ends the loop. -/
theorem round_loaded {std : SortDescending} {onTx : OnTx ω π} {t : Tick ω π}
    (h : ∀ i ∈ t.schedulesCache, (t.schedulesInfo i).hasDataAllocated = true) :
    (t.round std onTx).2 = true := by
  unfold round
  dsimp only
  have hmem : ∀ i ∈ (t.addQuanta.sortCache std).schedulesCache, i ∈ t.schedulesCache :=
    fun i hi => (std.perm _ _).mem_iff.mp hi
  have hinfo : (t.addQuanta.sortCache std).schedulesInfo = t.addQuanta.schedulesInfo := rfl
  generalize t.addQuanta.sortCache std = u at *
  generalize u.schedulesCache = l at *
  cases l with
  | nil => simp [serve]
  | cons first l =>
      have hfirst := hmem first (List.mem_cons_self ..)
      have hloaded : (u.schedulesInfo first).hasDataAllocated = true := by
        rw [hinfo, addQuanta_mem hfirst]
        exact h first hfirst
      simp [serve, hloaded]

/-! ## The loop ends -/

/-- The loop in front of its `k + 1`-st round. -/
structure Stage (t₀ : Tick ω π) (region : UInt64) (k : Nat) (t : Tick ω π) : Prop where
  rest : t.framePayloadRemaining ≤ region
  cache : ∀ i, i ∈ t.schedulesCache ↔ i ∈ t₀.schedulesCache
  deficit : ∀ i ∈ t₀.schedulesCache, (t.schedulesInfo i).deficit =
    (t₀.schedulesInfo i).deficit + UInt64.ofNat k * (t₀.schedulesInfo i).quanta
  quanta : ∀ i ∈ t₀.schedulesCache, (t.schedulesInfo i).quanta = (t₀.schedulesInfo i).quanta
  loaded : ∀ i ∈ t₀.schedulesCache, ∀ m, 1 ≤ m → m ≤ k →
    region < (t₀.schedulesInfo i).deficit + UInt64.ofNat m * (t₀.schedulesInfo i).quanta →
      (t.schedulesInfo i).hasDataAllocated = true

theorem Stage.round {std : SortDescending} {onTx : OnTx ω π} (hwithin : Within onTx)
    {t₀ t : Tick ω π} {region : UInt64} {k : Nat} (h : t₀.Stage region k t)
    (hrunning : (t.round std onTx).2 = false) :
    t₀.Stage region (k + 1) (t.round std onTx).1 := by
  have hkept : (t.addQuanta.sortCache std).Kept (t.round std onTx).1 := serve_kept hwithin _ _ 0 0
  have hctx : ∀ i ∈ t₀.schedulesCache, (t.addQuanta.sortCache std).schedulesInfo i = _ :=
    fun i hi => addQuanta_mem ((h.cache i).mpr hi)
  refine ⟨UInt64.le_trans hkept.rest h.rest, fun i => ?_, fun i hi => ?_, fun i hi => ?_,
    fun i hi m hlow hhigh hfar => ?_⟩
  · rw [mem_round_cache]
    exact h.cache i
  · rw [hkept.deficit, hctx i hi]
    show (t.schedulesInfo i).deficit + (t.schedulesInfo i).quanta = _
    rw [h.deficit i hi, h.quanta i hi, UInt64.ofNat_add, UInt64.add_mul, UInt64.add_assoc,
      UInt64.ofNat_one, UInt64.one_mul]
  · rw [hkept.quanta, hctx i hi]
    exact h.quanta i hi
  · refine hkept.loaded i ?_
    rw [hctx i hi]
    show (t.schedulesInfo i).hasDataAllocated = true
    rcases Nat.lt_or_eq_of_le hhigh with hold | rfl
    · exact h.loaded i hi m hlow (Nat.le_of_lt_succ hold) hfar
    · by_contra hdata
      have hle := round_running hrunning ((h.cache i).mpr hi) (by simpa using hdata)
      rw [h.deficit i hi, h.quanta i hi, UInt64.add_assoc] at hle
      have hsucc : UInt64.ofNat (k + 1) * (t₀.schedulesInfo i).quanta =
          UInt64.ofNat k * (t₀.schedulesInfo i).quanta + (t₀.schedulesInfo i).quanta := by
        rw [UInt64.ofNat_add, UInt64.add_mul, UInt64.ofNat_one, UInt64.one_mul]
      rw [← hsucc] at hle
      have hregion := UInt64.le_trans hle (UInt64.le_trans hkept.rest h.rest)
      exact absurd hfar (UInt64.not_lt.mpr hregion)

/-- The times at which the deficits have been larger than the region are bounded. -/
theorem exists_bound {P : Nat → Nat → Prop} (l : List Nat) (h : ∀ i ∈ l, ∃ k, P i k) :
    ∃ n, ∀ i ∈ l, ∃ k, k ≤ n ∧ P i k := by
  induction l with
  | nil => exact ⟨0, fun i hi => absurd hi (List.not_mem_nil)⟩
  | cons j l ih =>
      obtain ⟨n, hn⟩ := ih fun i hi => h i (List.mem_cons_of_mem _ hi)
      obtain ⟨k, hk⟩ := h j (List.mem_cons_self ..)
      refine ⟨max n k, fun i hi => ?_⟩
      rcases List.mem_cons.mp hi with rfl | hrest
      · exact ⟨k, Nat.le_max_right .., hk⟩
      · obtain ⟨m, hm, hpm⟩ := hn i hrest
        exact ⟨m, Nat.le_trans hm (Nat.le_max_left ..), hpm⟩

/-- The loop ends when every deficit is at some time larger than the region. -/
theorem ends_of_exceeds {std : SortDescending} {onTx : OnTx ω π} (hwithin : Within onTx)
    {t : Tick ω π} {region : UInt64} (hrest : t.framePayloadRemaining ≤ region)
    (h : ∀ i ∈ t.schedulesCache, (t.schedulesInfo i).Exceeds region) :
    Ends (dataLoop std onTx) (t, false) := by
  obtain ⟨n, hn⟩ := exists_bound t.schedulesCache h
  refine ends_of_stages (P := fun k s => s.2 = true ∨ (k ≤ n ∧ t.Stage region k s.1)) (n + 1)
    ?_ ?_ ?_
  · intro k s s' hs hstep
    obtain ⟨hrunning, -, rfl⟩ := dataLoop_some hstep
    obtain ⟨hk, hstage⟩ := hs.resolve_left (by simp [hrunning])
    by_cases hbroken : (s.1.round std onTx).2 = true
    · exact Or.inl hbroken
    · refine Or.inr ⟨?_, hstage.round hwithin (by simpa using hbroken)⟩
      by_contra hlast
      apply hbroken
      refine round_loaded fun i hi => ?_
      have hmem := (hstage.cache i).mp hi
      obtain ⟨m, hm, hlow, hfar⟩ := hn i hmem
      exact hstage.loaded i hmem m hlow (by omega) hfar
  · intro s hs
    have hbroken : s.2 = true := hs.resolve_right fun hboth => by omega
    simp [dataLoop, hbroken]
  · refine Or.inr ⟨Nat.zero_le n, hrest, fun i => Iff.rfl, fun i hi => ?_, fun i hi => rfl,
      fun i hi m hlow hhigh => by omega⟩
    simp

/-! ## The channels behind the probes -/

/-- Behind the probes of the first `n` channels: those that are in the cache are
registered and have the deficits and quanta of the start. -/
structure Probed (s : Registry π) (region : UInt64) (n : Nat) (t : Tick ω π) : Prop where
  llcs : t.llcs = s.llcs
  rest : t.framePayloadRemaining ≤ region
  ahead : ∀ i, n ≤ i → t.schedulesInfo i = s.schedulesInfo.getD i {}
  cached : ∀ i ∈ t.schedulesCache, i < n ∧ (∃ llc, s.llcs[i]? = some (some llc)) ∧
    (t.schedulesInfo i).deficit = (s.schedulesInfo.getD i {}).deficit ∧
    (t.schedulesInfo i).quanta = (s.schedulesInfo.getD i {}).quanta

theorem Probed.probe {onTx : OnTx ω π} (hwithin : Within onTx) {s : Registry π} {region : UInt64}
    {n : Nat} {t : Tick ω π} (h : t.Probed s region n) :
    (t.probe onTx n).Probed s region (n + 1) := by
  rcases t.probe_cases onTx n with ⟨heq, -⟩ | ⟨llc, r, hllc, hr, heq⟩
  · rw [heq]
    refine ⟨h.llcs, h.rest, fun i hi => h.ahead i (Nat.le_of_succ_le hi), fun i hi => ?_⟩
    obtain ⟨hlt, hrest⟩ := h.cached i hi
    exact ⟨Nat.lt_succ_of_lt hlt, hrest⟩
  · have hle : r.1.framePayloadRemaining ≤ t.framePayloadRemaining := by
      have hsub : r.2.allocated ≤ t.framePayloadRemaining := by
        rw [hr]
        exact UInt64.le_trans (hwithin ..) Std.min_le_left
      rw [UInt64.le_iff_toNat_le]
      rw [hr] at hsub ⊢
      exact (UInt64.toNat_sub_of_le _ _ hsub).trans_le (Nat.sub_le ..)
    rw [heq]
    refine ⟨?_, UInt64.le_trans hle h.rest, fun i hi => ?_, fun i hi => ?_⟩
    · rw [← h.llcs, hr]
      rfl
    · dsimp only
      rw [Function.update_of_ne (by omega)]
      exact h.ahead i (Nat.le_of_succ_le hi)
    · dsimp only at hi ⊢
      by_cases hin : i = n
      · subst hin
        have hnew : r.2.txAvailable = true := by
          by_contra hnot
          rw [if_neg hnot] at hi
          exact absurd (h.cached i hi).1 (Nat.lt_irrefl i)
        rw [Function.update_self, ← h.ahead i (Nat.le_refl i)]
        refine ⟨Nat.lt_succ_self i, ⟨llc, h.llcs ▸ hllc⟩, ?_, rfl⟩
        exact if_pos hnew
      · have hold : i ∈ t.schedulesCache := by
          split_ifs at hi
          · exact (List.mem_append.mp hi).resolve_right (by simpa using hin)
          · exact hi
        obtain ⟨hlt, hrest⟩ := h.cached i hold
        rw [Function.update_of_ne hin]
        exact ⟨Nat.lt_succ_of_lt hlt, hrest⟩

theorem probed_all {onTx : OnTx ω π} (hwithin : Within onTx) (world : ω) (s : Registry π)
    (region : UInt64) : (probeAll onTx world s region).Probed s region s.llcs.length := by
  unfold probeAll
  generalize s.llcs.length = n
  induction n with
  | zero =>
      exact ⟨rfl, UInt64.le_refl _, fun _ _ => rfl, fun i hi => absurd hi (List.not_mem_nil)⟩
  | succ n ih =>
      rw [List.range_succ, List.foldl_append]
      exact ih.probe hwithin

/-! ## The loop does not end -/

/-- The number of registered channels among the first `n`. -/
def registered (s : Registry π) (n : Nat) : Nat :=
  (List.range n).countP (fun i => (s.llcs[i]?.join).isSome)

/-- Only in the `c`-th call the LLC announces data, and none loads any. -/
def announces (c : Nat) : OnTx Nat π := fun world _ _ =>
  (world + 1, { txAvailable := world == c })

theorem announces_within (c : Nat) : Within (announces c : OnTx Nat π) :=
  fun _ _ _ => UInt64.zero_le

theorem registered_succ (s : Registry π) (n : Nat) :
    registered s (n + 1) = registered s n + if (s.llcs[n]?.join).isSome then 1 else 0 := by
  unfold registered
  rw [List.range_succ, List.countP_append, List.countP_singleton]

theorem registered_mono (s : Registry π) {m n : Nat} (h : m ≤ n) :
    registered s m ≤ registered s n := by
  induction h with
  | refl => exact Nat.le_refl _
  | step _ ih =>
      rw [Nat.succ_eq_add_one, registered_succ]
      omega

/-- The probes take the world through `worlds`, allocate nothing, and only the one of channel `i`
announces data. -/
structure Announces (onTx : OnTx ω π) (s : Registry π) (region : UInt64) (i : Nat)
    (worlds : Nat → ω) : Prop where
  call : ∀ n llc, s.llcs[n]? = some (some llc) →
    onTx (worlds n) llc ⟨false, 0, min region (s.schedulesInfo.getD n {}).ndGpduMaxSize⟩ =
      (worlds (n + 1), { txAvailable := decide (n = i) })
  skip : ∀ n, (∀ llc, s.llcs[n]? ≠ some (some llc)) → worlds (n + 1) = worlds n

/-- Behind the probes of the first `n` channels, of which only `i` announces data. -/
structure Announced (s : Registry π) (region : UInt64) (i : Nat) (worlds : Nat → ω) (n : Nat)
    (t : Tick ω π) : Prop where
  world : t.world = worlds n
  llcs : t.llcs = s.llcs
  cursor : t.cursor = 0
  rest : t.framePayloadRemaining = region
  cache : t.schedulesCache = if i < n then [i] else []
  ahead : ∀ j, n ≤ j → t.schedulesInfo j = s.schedulesInfo.getD j {}
  ctx : i < n → t.schedulesInfo i =
    { s.schedulesInfo.getD i {} with hasSchedulable := true, hasDataAllocated := false }

theorem Announced.probe {onTx : OnTx ω π} {s : Registry π} {region : UInt64} {i : Nat}
    {worlds : Nat → ω} (hprobes : Announces onTx s region i worlds) {n : Nat} {t : Tick ω π}
    (h : t.Announced s region i worlds n) {llc : π} (hllc : s.llcs[i]? = some (some llc)) :
    (t.probe onTx n).Announced s region i worlds (n + 1) := by
  rcases t.probe_cases onTx n with ⟨heq, hnull⟩ | ⟨llc', r, hllc', hr, heq⟩
  · have hne : n ≠ i := by
      rintro rfl
      exact hnull llc (h.llcs ▸ hllc)
    rw [h.llcs] at hnull
    have hlt : i < n ↔ i < n + 1 := by omega
    rw [heq]
    refine ⟨h.world.trans (hprobes.skip n hnull).symm, h.llcs, h.cursor, h.rest, ?_,
      fun j hj => h.ahead j (Nat.le_of_succ_le hj), fun hi => h.ctx (by omega)⟩
    rw [h.cache]
    simp only [hlt]
  · rw [h.llcs] at hllc'
    have hcall := hprobes.call n llc' hllc'
    have hctx := h.ahead n (Nat.le_refl n)
    rw [← hctx, ← h.world, ← h.cursor, ← h.rest] at hcall
    have hanswer : r.2 = { txAvailable := decide (n = i) } := by
      rw [hr]
      exact congrArg Prod.snd hcall
    have hworld : r.1.world = worlds (n + 1) := by
      rw [hr]
      exact congrArg Prod.fst hcall
    have hllcs : r.1.llcs = s.llcs := by
      rw [hr, ← h.llcs]
      rfl
    have hcursor : r.1.cursor = t.cursor + r.2.allocated.toNat := by
      rw [hr]
      rfl
    have hrest : r.1.framePayloadRemaining = t.framePayloadRemaining - r.2.allocated := by
      rw [hr]
      rfl
    rw [hanswer, h.cursor] at hcursor
    rw [hanswer, h.rest, UInt64.sub_zero] at hrest
    have havail : r.2.txAvailable = decide (n = i) := by rw [hanswer]
    rw [heq]
    refine ⟨hworld, hllcs, hcursor, hrest, ?_, fun j hj => ?_, fun hi => ?_⟩
    · dsimp only
      rw [havail, h.cache]
      by_cases hin : n = i
      · simp [hin]
      · have hlt : i < n ↔ i < n + 1 := by omega
        simp [hin, hlt]
    · dsimp only
      rw [Function.update_of_ne (by omega)]
      exact h.ahead j (Nat.le_of_succ_le hj)
    · dsimp only
      by_cases hin : i = n
      · subst hin
        rw [Function.update_self, hctx]
        unfold probed
        rw [if_pos (by simp [havail]), hanswer]
        simp
      · rw [Function.update_of_ne hin]
        exact h.ctx (by omega)

theorem Announces.probeAll {onTx : OnTx ω π} {s : Registry π} {region : UInt64} {i : Nat}
    {worlds : Nat → ω} (hprobes : Announces onTx s region i worlds) {llc : π}
    (hllc : s.llcs[i]? = some (some llc)) :
    (probeAll onTx (worlds 0) s region).Announced s region i worlds s.llcs.length := by
  unfold Tick.probeAll
  generalize s.llcs.length = n
  induction n with
  | zero => exact ⟨rfl, rfl, rfl, rfl, rfl, fun _ _ => rfl, fun hi => absurd hi (Nat.not_lt_zero i)⟩
  | succ n ih =>
      rw [List.range_succ, List.foldl_append]
      exact ih.probe hprobes hllc

/-- A round with one channel, which has not loaded data: one grant. -/
theorem round_single (std : SortDescending) (onTx : OnTx ω π) {t : Tick ω π} {i : Nat}
    (hcache : t.schedulesCache = [i]) {llc : π} (hllc : (t.schedulesInfo i).llc = some llc)
    (hunloaded : (t.schedulesInfo i).hasDataAllocated = false) :
    ∃ u : Tick ω π, u.world = t.world ∧ u.schedulesCache = [i] ∧ u.cursor = t.cursor ∧
      u.framePayloadRemaining = t.framePayloadRemaining ∧
      u.schedulesInfo i = { t.schedulesInfo i with
        deficit := (t.schedulesInfo i).deficit + (t.schedulesInfo i).quanta } ∧
      t.round std onTx = (u.grantData onTx i llc,
        decide ((u.schedulesInfo i).deficit >
          (u.grantData onTx i llc).framePayloadRemaining)) := by
  have hsorted : (t.addQuanta.sortCache std).schedulesCache = [i] := by
    have hperm := std.perm (fun j => (t.addQuanta.schedulesInfo j).key) t.schedulesCache
    rw [hcache] at hperm
    show std.sort _ t.schedulesCache = [i]
    rw [hcache]
    exact List.perm_singleton.mp hperm
  have hctx : (t.addQuanta.sortCache std).schedulesInfo i = { t.schedulesInfo i with
      deficit := (t.schedulesInfo i).deficit + (t.schedulesInfo i).quanta } :=
    addQuanta_mem (by rw [hcache]; exact List.mem_singleton_self i)
  refine ⟨t.addQuanta.sortCache std, rfl, hsorted, rfl, rfl, hctx, ?_⟩
  unfold Tick.round
  dsimp only
  rw [hsorted]
  generalize t.addQuanta.sortCache std = u at *
  have hserve : serve onTx [i] u 0 0 =
      (u.grantData onTx i llc, 1, max 0 (u.schedulesInfo i).deficit) := by
    simp [serve, hctx, hunloaded, hllc]
  have hmax : max 0 (u.schedulesInfo i).deficit = (u.schedulesInfo i).deficit := by
    rw [← UInt64.toNat_inj, toNat_max]
    exact Nat.zero_max _
  rw [hserve, hmax]
  exact Prod.ext rfl (Bool.or_false _)

/-- Only channel `i` announces data, and its quanta bring its deficit beyond the region: one call
with the whole region, and no further round. -/
theorem reaches_once {std : SortDescending} {onTx : OnTx ω π} (hwithin : Within onTx)
    {s : Registry π} {region : UInt64} (hregion : region ≠ 0) {i : Nat} {worlds : Nat → ω}
    (hprobes : Announces onTx s region i worlds) {llc : π} (hllc : s.llcs[i]? = some (some llc))
    (hfar : region < (s.schedulesInfo.getD i {}).deficit + (s.schedulesInfo.getD i {}).quanta)
    {t : Tick ω π} {broken : Bool} (h : Reaches std onTx (worlds 0) s region t broken)
    (hend : dataLoop std onTx (t, broken) = none) :
    t.world = (onTx (worlds s.llcs.length) llc ⟨true, 0, region⟩).1 ∧
      t.cursor = (onTx (worlds s.llcs.length) llc ⟨true, 0, region⟩).2.allocated.toNat := by
  have hlt : i < s.llcs.length := (List.getElem?_eq_some_iff.mp hllc).1
  have hstart := hprobes.probeAll hllc
  have hctx := hstart.ctx hlt
  unfold Reaches at h
  generalize probeAll onTx (worlds 0) s region = t₀ at h hstart hctx
  have hpresent : (t₀.schedulesInfo i).llc = some llc := by
    rw [hctx]
    exact s.llc_getD hllc
  obtain ⟨u, hworld, -, hcursor, hrest, hgrown, hround⟩ := round_single std onTx
    (by rw [hstart.cache, if_pos hlt]) hpresent (by rw [hctx])
  rw [hstart.world] at hworld
  rw [hstart.cursor] at hcursor
  rw [hstart.rest] at hrest
  have hdeficit : region < (u.schedulesInfo i).deficit := by
    rw [hgrown, hctx]
    exact hfar
  have hsize : min u.framePayloadRemaining (u.schedulesInfo i).deficit = region := by
    rw [hrest]
    exact Std.LawfulOrderLeftLeaningMin.min_eq_left _ _ (UInt64.le_of_lt hdeficit)
  have hcall : (u.grantData onTx i llc).world =
        (onTx (worlds s.llcs.length) llc ⟨true, 0, region⟩).1 ∧
      (u.grantData onTx i llc).cursor =
        0 + (onTx (worlds s.llcs.length) llc ⟨true, 0, region⟩).2.allocated.toNat ∧
      (u.grantData onTx i llc).framePayloadRemaining =
        region - (onTx (worlds s.llcs.length) llc ⟨true, 0, region⟩).2.allocated := by
    unfold Tick.grantData Tick.callLlc Tick.setCtx
    dsimp only
    rw [hsize, hworld, hcursor, hrest]
    exact ⟨rfl, rfl, rfl⟩
  have hlast : (t₀.round std onTx).2 = true := by
    rw [hround]
    dsimp only
    have hle := hwithin (worlds s.llcs.length) llc ⟨true, 0, region⟩
    have hsub := UInt64.toNat_sub_of_le _ _ hle
    rw [decide_eq_true_iff, hcall.2.2, gt_iff_lt, UInt64.lt_iff_toNat_lt]
    rw [UInt64.lt_iff_toNat_lt] at hdeficit
    dsimp only at hsub
    omega
  have hvisited : (t, broken) = (t₀, false) ∨ (t, broken) = t₀.round std onTx := by
    refine Visits.invariant (P := fun st => st = (t₀, false) ∨ st = t₀.round std onTx)
      (fun st st' hst hstep => ?_) h (Or.inl rfl)
    obtain ⟨hrunning, -, rfl⟩ := dataLoop_some hstep
    rcases hst with rfl | rfl
    · exact Or.inr rfl
    · rw [hlast] at hrunning
      cases hrunning
  rcases hvisited with heq | heq
  · -- the loop is entered, since there is something left of the region
    cases heq
    unfold dataLoop at hend
    rw [if_neg Bool.false_ne_true, if_neg (by dsimp only; rw [hstart.rest]; exact hregion)] at hend
    cases hend
  · rw [hround] at heq
    cases heq
    exact ⟨hcall.1, hcall.2.1.trans (Nat.zero_add _)⟩

/-- The calls before two registered channels differ. -/
theorem registered_inj {s : Registry π} {m n : Nat} (hm : (s.llcs[m]?.join).isSome = true)
    (hn : (s.llcs[n]?.join).isSome = true) (h : registered s m = registered s n) : m = n := by
  have hsm := registered_succ s m
  have hsn := registered_succ s n
  rw [hm, if_pos rfl] at hsm
  rw [hn, if_pos rfl] at hsn
  rcases Nat.lt_trichotomy m n with hlt | heq | hlt
  · have hmono := registered_mono s (Nat.succ_le_of_lt hlt)
    rw [Nat.succ_eq_add_one] at hmono
    omega
  · exact heq
  · have hmono := registered_mono s (Nat.succ_le_of_lt hlt)
    rw [Nat.succ_eq_add_one] at hmono
    omega

/-- The calls of `announces`, counted. -/
theorem announces_probes (s : Registry π) (region : UInt64) {i : Nat} {llc : π}
    (hllc : s.llcs[i]? = some (some llc)) :
    Announces (announces (registered s i)) s region i (registered s) := by
  have hsome : (s.llcs[i]?.join).isSome = true := by rw [hllc]; rfl
  refine ⟨fun n llc' hllc' => ?_, fun n hnull => ?_⟩
  · have hsome' : (s.llcs[n]?.join).isSome = true := by rw [hllc']; rfl
    have hsame : (registered s n == registered s i) = decide (n = i) := by
      by_cases hin : n = i
      · simp [hin]
      · simpa [hin] using fun hsame => hin (registered_inj hsome' hsome hsame)
    rw [registered_succ, hsome', if_pos rfl, ← hsame]
    rfl
  · have hnone : (s.llcs[n]?.join).isSome = false := by
      rcases hget : s.llcs[n]? with _ | _ | p
      · rfl
      · rfl
      · exact absurd hget (hnull p)
    rw [registered_succ, hnone]
    rfl

/-- The channel is alone, has loaded nothing, and its deficit grows by its quanta. -/
structure Alone (region : UInt64) (i : Nat) (llc : π) (ctx : SchedulingCtx π) (t : Tick Nat π) :
    Prop where
  cache : t.schedulesCache = [i]
  rest : t.framePayloadRemaining = region
  llc : (t.schedulesInfo i).llc = some llc
  unloaded : (t.schedulesInfo i).hasDataAllocated = false
  quanta : (t.schedulesInfo i).quanta = ctx.quanta
  deficit : ∃ k, (t.schedulesInfo i).deficit = ctx.deficit + UInt64.ofNat k * ctx.quanta

theorem Alone.round {std : SortDescending} {region : UInt64} {i : Nat} {llc : π}
    {ctx : SchedulingCtx π} {t : Tick Nat π} (h : t.Alone region i llc ctx) {c : Nat}
    (hnever : ¬ ctx.Exceeds region) :
    (t.round std (announces c)).2 = false ∧
      (t.round std (announces c)).1.Alone region i llc ctx := by
  obtain ⟨k, hk⟩ := h.deficit
  have hnext : (t.schedulesInfo i).deficit + (t.schedulesInfo i).quanta =
      ctx.deficit + UInt64.ofNat (k + 1) * ctx.quanta := by
    rw [hk, h.quanta, UInt64.ofNat_add, UInt64.add_mul, UInt64.add_assoc, UInt64.ofNat_one,
      UInt64.one_mul]
  have hnear : ¬ ctx.deficit + UInt64.ofNat (k + 1) * ctx.quanta > region :=
    fun hlt => hnever ⟨k + 1, Nat.succ_pos k, hlt⟩
  obtain ⟨u, -, hcache, -, hrest, hctx, hround⟩ :=
    round_single std (announces c) h.cache h.llc h.unloaded
  rw [h.rest] at hrest
  rw [hnext] at hctx
  have hself : (u.grantData (announces c) i llc).schedulesInfo i =
      served (u.schedulesInfo i) { txAvailable := u.world == c } := Function.update_self ..
  have hleft : (u.grantData (announces c) i llc).framePayloadRemaining = region := by
    rw [← hrest]
    exact UInt64.sub_zero _
  rw [hround]
  refine ⟨?_, hcache, hleft, ?_, ?_, ?_, k + 1, ?_⟩
  · dsimp only
    rw [hleft, hctx]
    exact decide_eq_false hnear
  · rw [hself, hctx]
    exact h.llc
  · rw [hself]
    rfl
  · rw [hself, hctx]
    exact h.quanta
  · rw [hself, hctx]
    rfl

/-- The loop does not end when the deficit of a registered channel is never larger than
the region, and its LLC announces data that it does not load. -/
theorem not_ends {std : SortDescending} {s : Registry π} {region : UInt64} (hregion : region ≠ 0)
    {i : Nat} {llc : π} (hllc : s.llcs[i]? = some (some llc))
    (hnever : ¬ (s.schedulesInfo.getD i {}).Exceeds region) :
    ¬ Ends (dataLoop std (announces (registered s i)))
      (probeAll (announces (registered s i)) 0 s region, false) := by
  have hlt : i < s.llcs.length := (List.getElem?_eq_some_iff.mp hllc).1
  have hpaired := s.llc_getD hllc
  have hstart : (probeAll (announces (registered s i)) 0 s region).Announced s region i
      (registered s) s.llcs.length := (announces_probes s region hllc).probeAll hllc
  have halone : (probeAll (announces (registered s i)) 0 s region).Alone region i llc
      (s.schedulesInfo.getD i {}) := by
    have hctx := hstart.ctx hlt
    refine ⟨?_, hstart.rest, ?_, ?_, ?_, 0, ?_⟩
    · rw [hstart.cache, if_pos hlt]
    · rw [hctx]
      exact hpaired
    · rw [hctx]
    · rw [hctx]
    · rw [hctx]
      simp
  refine not_ends_of_trap (P := fun r => r.2 = false ∧
    r.1.Alone region i llc (s.schedulesInfo.getD i {})) ?_ Visits.start ⟨rfl, halone⟩
  rintro ⟨t, broken⟩ ⟨hrunning, ht⟩
  have hrunning : broken = false := hrunning
  subst hrunning
  refine ⟨t.round std (announces (registered s i)), ?_, ht.round hnever⟩
  have hrest : t.framePayloadRemaining ≠ 0 := by rw [ht.rest]; exact hregion
  simp [dataLoop, hrest]

/-- **The loop over the rounds ends for every behaviour of the LLCs iff the region is
empty or the deficit of every channel is at some time larger than the region.** -/
theorem ends_iff (std : SortDescending) (s : Registry π) (region : UInt64) :
    (∀ (ω : Type) (onTx : OnTx ω π) (world : ω), Within onTx →
      Ends (dataLoop std onTx) (probeAll onTx world s region, false)) ↔
        region = 0 ∨ ∀ i llc, s.llcs[i]? = some (some llc) →
          (s.schedulesInfo.getD i {}).Exceeds region := by
  constructor
  · intro hall
    by_contra hnot
    rw [not_or] at hnot
    obtain ⟨hregion, hnever⟩ := hnot
    simp only [not_forall] at hnever
    obtain ⟨i, llc, hllc, hnever⟩ := hnever
    exact not_ends hregion hllc hnever (hall Nat (announces (registered s i)) 0
      (announces_within _))
  · intro h ω onTx world hwithin
    have hprobed := probed_all hwithin world s region
    rcases h with hzero | hexceeds
    · have hrest : (probeAll onTx world s region).framePayloadRemaining = 0 :=
        UInt64.le_zero_iff.mp (hzero ▸ hprobed.rest)
      exact ⟨_, Visits.start, by simp [dataLoop, hrest]⟩
    · refine ends_of_exceeds hwithin hprobed.rest fun i hi => ?_
      obtain ⟨-, ⟨llc, hllc⟩, hdeficit, hquanta⟩ := hprobed.cached i hi
      obtain ⟨k, hk, hfar⟩ := hexceeds i llc hllc
      exact ⟨k, hk, by rwa [hdeficit, hquanta]⟩

/-! ## Regions below 2 ^ 63 -/

/-- Some multiple of every number but zero is 2 ^ 63. -/
theorem exists_mul_top {q : UInt64} (hq : q ≠ 0) :
    ∃ k, 1 ≤ k ∧ UInt64.ofNat k * q = 0x8000000000000000 := by
  have hne : q.toNat ≠ 0 := fun h => hq (UInt64.toNat_inj.mp h)
  obtain ⟨j, m, ⟨r, hm⟩, hval⟩ := Nat.exists_eq_two_pow_mul_odd hne
  have hj : j ≤ 63 := by
    by_contra hlarge
    have hpow : 2 ^ 64 ≤ 2 ^ j := Nat.pow_le_pow_right (by omega) (by omega)
    have hle : 2 ^ j ≤ 2 ^ j * m := Nat.le_mul_of_pos_right _ (by omega)
    have hlt := q.toNat_lt
    omega
  refine ⟨2 ^ (63 - j), Nat.one_le_two_pow, ?_⟩
  have hprod : 2 ^ (63 - j) * q.toNat = 2 ^ 64 * r + 2 ^ 63 := by
    calc 2 ^ (63 - j) * q.toNat = 2 ^ (63 - j) * 2 ^ j * m := by rw [hval, Nat.mul_assoc]
      _ = 2 ^ 63 * m := by rw [← Nat.pow_add, Nat.sub_add_cancel hj]
      _ = 2 ^ 64 * r + 2 ^ 63 := by rw [hm]; omega
  rw [← UInt64.toNat_inj, UInt64.toNat_mul, UInt64.toNat_ofNat', Nat.mod_mul_mod, hprod]
  rw [Nat.mul_add_mod]
  rfl

/-- For a region below 2 ^ 63 quanta are enough. -/
theorem exceeds_iff {ctx : SchedulingCtx π} {region : UInt64}
    (hregion : region < 0x8000000000000000) :
    ctx.Exceeds region ↔ ctx.quanta ≠ 0 ∨ region < ctx.deficit := by
  have hsmall : region.toNat < 2 ^ 63 := UInt64.lt_iff_toNat_lt.mp hregion
  constructor
  · rintro ⟨k, -, hfar⟩
    by_cases hzero : ctx.quanta = 0
    · rw [hzero, UInt64.mul_zero, UInt64.add_zero] at hfar
      exact Or.inr hfar
    · exact Or.inl hzero
  · intro h
    by_cases hzero : ctx.quanta = 0
    · have hfar := h.resolve_left (not_not.mpr hzero)
      exact ⟨1, Nat.le_refl 1, by rwa [hzero, UInt64.mul_zero, UInt64.add_zero]⟩
    obtain ⟨k, hk, htop⟩ := exists_mul_top hzero
    by_cases hdeficit : region < ctx.deficit
    · -- twice as many quanta bring the deficit back to where it was
      refine ⟨k + k, by omega, ?_⟩
      rw [UInt64.ofNat_add, UInt64.add_mul, htop]
      simpa using hdeficit
    · refine ⟨k, hk, ?_⟩
      have htop' : (0x8000000000000000 : UInt64).toNat = 2 ^ 63 := rfl
      rw [UInt64.lt_iff_toNat_lt] at hdeficit
      rw [htop, UInt64.lt_iff_toNat_lt, UInt64.toNat_add, htop', Nat.mod_eq_of_lt (by omega)]
      omega

/-- A channel that has just been added. -/
def fresh : Registry Unit := Registry.addLlc {} 0 ()

/-- A channel that has just been added, without quanta, whose LLC announces data. -/
theorem fresh_not_ends : ¬ ∀ (ω : Type) (onTx : OnTx ω Unit) (world : ω), Within onTx →
    Ends (dataLoop insertionSort onTx) (probeAll onTx world fresh 100, false) := by
  intro hall
  refine not_ends (by decide) (show fresh.llcs[0]? = some (some ()) by decide) ?_
    (hall Nat (announces (registered fresh 0)) 0 (announces_within _))
  rw [exceeds_iff (by decide)]
  decide

end Tick

end Winject.TxScheduler.Illc
