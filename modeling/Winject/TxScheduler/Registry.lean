import Mathlib.Data.List.Induction

/-!
# The channels of the scheduler (`TxScheduler::add_llc`, `TxScheduler::remove_llc`)

The scheduler has two vectors that are indexed by the logical channel: the pointers to
the LLCs and what is known of their scheduling.  `Registry` has both; a pointer is an
element of any type `π`, and `none` is the null pointer.

`add_llc` stores the pointer only when the vectors grow, so a channel is stored by the
first `add_llc` of its number and only when all numbers before were smaller.

## Main results

* `behind_run` — what the vectors hold behind a sequence of calls.
* `mapped_iff` — when this is what a map would have.
-/

namespace Winject.TxScheduler.Illc

/-- `scheduling_ctx_t`. -/
structure SchedulingCtx (π : Type) where
  llc : Option π := none
  deficit : UInt64 := 0
  quanta : UInt64 := 0
  ndGpduMaxSize : UInt64 := 0
  currentAlloc : UInt64 := 0
  hasSchedulable : Bool := false
  hasDataAllocated : Bool := false
  deriving DecidableEq, Repr

/-- `std::vector::resize` to a larger size. -/
def resize {α : Type} (l : List α) (n : Nat) (fill : α) : List α :=
  l ++ List.replicate (n - l.length) fill

/-- `llcs` and `schedules_info`; the contexts are those of the pointers. -/
structure Registry (π : Type) where
  llcs : List (Option π) := []
  schedulesInfo : List (SchedulingCtx π) := []
  paired : schedulesInfo.map (·.llc) = llcs := by rfl

variable {π : Type}

theorem map_resize {α β : Type} (g : α → β) (l : List α) (n : Nat) (fill : α) :
    (resize l n fill).map g = resize (l.map g) n (g fill) := by
  simp [resize]

theorem length_resize {α : Type} {l : List α} {n : Nat} (h : l.length ≤ n) (fill : α) :
    (resize l n fill).length = n := by
  simp [resize, Nat.add_sub_cancel' h]

/-- The new elements are null pointers. -/
theorem getElem?_resize {l : List (Option π)} {n i : Nat} {llc : π} :
    (resize l n none)[i]? = some (some llc) ↔ l[i]? = some (some llc) := by
  by_cases hi : i < l.length
  · simp [resize, List.getElem?_append_left hi]
  · simp [resize, List.getElem?_append_right (Nat.le_of_not_lt hi), List.getElem?_replicate, hi]

namespace Registry

/-- `TxScheduler::add_llc`. -/
def addLlc (s : Registry π) (lcid : UInt8) (llc : π) : Registry π :=
  if s.llcs.length ≤ lcid.toNat then
    { llcs := (resize s.llcs (lcid.toNat + 1) none).set lcid.toNat (some llc)
      schedulesInfo :=
        (resize s.schedulesInfo (lcid.toNat + 1) {}).set lcid.toNat { llc := some llc }
      paired := by rw [List.map_set, map_resize, s.paired] }
  else s

/-- `TxScheduler::remove_llc`; there is no element behind the vectors. -/
def removeLlc (s : Registry π) (lcid : UInt8) : Option (Registry π) :=
  if lcid.toNat < s.llcs.length then
    some
      { llcs := s.llcs.set lcid.toNat none
        schedulesInfo := s.schedulesInfo.set lcid.toNat {}
        paired := by rw [List.map_set, s.paired] }
  else none

/-- The channel as `tick` visits it: its pointer and its context. -/
def visited (s : Registry π) (lcid : UInt8) : Option (π × SchedulingCtx π) := do
  let llc ← (← s.llcs[lcid.toNat]?)
  let ctx ← s.schedulesInfo[lcid.toNat]?
  return (llc, ctx)

/-- The context of a channel has its pointer. -/
theorem llc_getD (s : Registry π) {i : Nat} {llc : π} (h : s.llcs[i]? = some (some llc)) :
    (s.schedulesInfo.getD i {}).llc = some llc := by
  have hmap := congrArg (·[i]?) s.paired
  simp only [List.getElem?_map, h] at hmap
  obtain ⟨ctx, hctx, hsome⟩ := Option.map_eq_some_iff.mp hmap
  rw [List.getD_eq_getElem?_getD, hctx]
  exact hsome

/-! ## Sequences of calls -/

/-- A call. -/
inductive Op (π : Type)
  | addLlc (lcid : UInt8) (llc : π)
  | removeLlc (lcid : UInt8)

/-- The channel of a call. -/
def Op.lcid : Op π → UInt8
  | .addLlc lcid _ => lcid
  | .removeLlc lcid => lcid

def step (s : Registry π) : Op π → Option (Registry π)
  | .addLlc lcid llc => some (s.addLlc lcid llc)
  | .removeLlc lcid => s.removeLlc lcid

/-- The vectors behind a sequence of calls. -/
def run (ops : List (Op π)) : Option (Registry π) := ops.foldlM step {}

/-- Only channels that were added are removed. -/
def RemovesAdded (ops : List (Op π)) : Prop :=
  ∀ before lcid after, ops = before ++ .removeLlc lcid :: after → ∃ llc, .addLlc lcid llc ∈ before

/-- What a map has behind the calls: the pointer of the last one, if it was `add_llc`. -/
def lastLlc (ops : List (Op π)) (lcid : UInt8) : Option π :=
  match (ops.filter (fun op => op.lcid == lcid)).getLast? with
  | some (.addLlc _ llc) => some llc
  | _ => none

/-- `tick` visits the channels of the map, each with a fresh context of its pointer. -/
def Mapped (s : Registry π) (ops : List (Op π)) : Prop :=
  ∀ lcid, s.visited lcid = (lastLlc ops lcid).map (fun llc => (llc, { llc := some llc }))

/-- The vectors grow at a call of `add_llc` with the channel and the pointer, and the
channel is not removed behind it. -/
def Stored (ops : List (Op π)) (lcid : UInt8) (llc : π) : Prop :=
  ∃ before after, ops = before ++ .addLlc lcid llc :: after ∧
    (∀ other p, .addLlc other p ∈ before → other < lcid) ∧ .removeLlc lcid ∉ after

/-! ## What is stored -/

/-- A further call. -/
theorem stored_append {ops : List (Op π)} {op : Op π} {lcid : UInt8} {llc : π} :
    Stored (ops ++ [op]) lcid llc ↔ (Stored ops lcid llc ∧ op ≠ .removeLlc lcid) ∨
      (op = .addLlc lcid llc ∧ ∀ other p, .addLlc other p ∈ ops → other < lcid) := by
  constructor
  · rintro ⟨before, after, hops, hsmaller, hkept⟩
    rcases List.eq_nil_or_concat after with rfl | ⟨after, last, rfl⟩
    · obtain ⟨rfl, hlast⟩ := List.append_inj' hops rfl
      exact Or.inr ⟨by simpa using hlast, hsmaller⟩
    · rw [List.concat_eq_append, ← List.cons_append, ← List.append_assoc] at hops
      obtain ⟨rfl, hlast⟩ := List.append_inj' hops rfl
      simp at hlast hkept
      exact Or.inl ⟨⟨before, after, rfl, hsmaller, hkept.1⟩, hlast ▸ Ne.symm hkept.2⟩
  · rintro (⟨⟨before, after, rfl, hsmaller, hkept⟩, hop⟩ | ⟨rfl, hsmaller⟩)
    · refine ⟨before, after ++ [op], by simp, hsmaller, ?_⟩
      simpa [hkept] using Ne.symm hop
    · exact ⟨ops, [], rfl, hsmaller, by simp⟩

/-- The vectors reach up to the largest channel that was added, the contexts are fresh,
and the pointers are those of the calls at which the vectors have grown. -/
structure Behind (s : Registry π) (ops : List (Op π)) : Prop where
  length : ∀ n, s.llcs.length ≤ n ↔ ∀ lcid llc, .addLlc lcid llc ∈ ops → lcid.toNat < n
  fresh : s.schedulesInfo = s.llcs.map (fun llc => { llc := llc })
  llcs : ∀ lcid llc, s.llcs[lcid.toNat]? = some (some llc) ↔ Stored ops lcid llc

theorem Behind.nil : ({} : Registry π).Behind [] := by
  refine ⟨fun n => by simp, rfl, fun lcid llc => ?_⟩
  simp [Stored]

/-- The numbers that were added are those before the end of the vectors. -/
theorem Behind.smaller_iff {s : Registry π} {ops : List (Op π)} (h : s.Behind ops) (lcid : UInt8) :
    s.llcs.length ≤ lcid.toNat ↔ ∀ other p, .addLlc other p ∈ ops → other < lcid := by
  simp only [h.length, UInt8.lt_iff_toNat_lt]

theorem Behind.addLlc {s : Registry π} {ops : List (Op π)} (h : s.Behind ops) (lcid : UInt8)
    (llc : π) : (s.addLlc lcid llc).Behind (ops ++ [.addLlc lcid llc]) := by
  have hsmaller := h.smaller_iff lcid
  unfold Registry.addLlc
  split_ifs with hgrow
  · have hlength : (resize s.llcs (lcid.toNat + 1) none).length = lcid.toNat + 1 :=
      length_resize (Nat.le_succ_of_le hgrow) none
    refine ⟨fun n => ?_, ?_, fun other p => ?_⟩
    · rw [List.length_set, hlength]
      constructor
      · intro hn other p hmem
        rcases List.mem_append.mp hmem with hold | hnew
        · exact Nat.lt_trans (UInt8.lt_iff_toNat_lt.mp (hsmaller.mp hgrow other p hold)) hn
        · simp at hnew
          rw [hnew.1]
          exact hn
      · intro hall
        exact hall lcid llc (by simp)
    · show (resize s.schedulesInfo _ _).set _ _ = ((resize s.llcs _ _).set _ _).map _
      rw [h.fresh, List.map_set, map_resize]
    · rw [stored_append, ← h.llcs]
      by_cases heq : other = lcid
      · subst heq
        have hout : s.llcs[other.toNat]? = none := List.getElem?_eq_none hgrow
        rw [List.getElem?_set_self (by omega), hout]
        simp only [Option.some.injEq, reduceCtorEq, false_and, Op.addLlc.injEq, true_and, false_or]
        exact ⟨fun hp => ⟨hp, hsmaller.mp hgrow⟩, fun hp => hp.1⟩
      · have hne : lcid.toNat ≠ other.toNat := fun h => heq (UInt8.toNat_inj.mp h).symm
        rw [List.getElem?_set_ne hne, getElem?_resize]
        simp [Ne.symm heq]
  · refine ⟨fun n => ?_, h.fresh, fun other p => ?_⟩
    · rw [h.length]
      constructor
      · intro hall other p hmem
        rcases List.mem_append.mp hmem with hold | hnew
        · exact hall other p hold
        · simp at hnew
          have hn := (h.length n).mpr hall
          rw [hnew.1]
          omega
      · exact fun hall other p hmem => hall other p (List.mem_append_left _ hmem)
    · rw [h.llcs, stored_append]
      constructor
      · exact fun hstored => Or.inl ⟨hstored, by simp⟩
      · rintro (⟨hstored, -⟩ | ⟨heq, hall⟩)
        · exact hstored
        · cases heq
          exact absurd (hsmaller.mpr hall) hgrow

theorem Behind.removeLlc {s s' : Registry π} {ops : List (Op π)} (h : s.Behind ops) {lcid : UInt8}
    (hs' : s.removeLlc lcid = some s') : s'.Behind (ops ++ [.removeLlc lcid]) := by
  unfold Registry.removeLlc at hs'
  split_ifs at hs' with hin
  cases hs'
  refine ⟨fun n => ?_, ?_, fun other p => ?_⟩
  · simpa using h.length n
  · simp [h.fresh]
  · rw [stored_append, ← h.llcs]
    by_cases heq : other = lcid
    · simp [heq, hin]
    · have hne : lcid.toNat ≠ other.toNat := fun h => heq (UInt8.toNat_inj.mp h).symm
      rw [List.getElem?_set_ne hne]
      simp [Ne.symm heq]

theorem RemovesAdded.init {ops : List (Op π)} {op : Op π} (h : RemovesAdded (ops ++ [op])) :
    RemovesAdded ops :=
  fun before lcid after hops => h before lcid (after ++ [op]) (by simp [hops])

/-- What is there behind a sequence of calls. -/
theorem behind_run {ops : List (Op π)} (h : RemovesAdded ops) :
    ∃ s, run ops = some s ∧ s.Behind ops := by
  induction ops using List.reverseRecOn with
  | nil => exact ⟨{}, rfl, Behind.nil⟩
  | append_singleton ops op ih =>
      obtain ⟨s, hs, hbehind⟩ := ih h.init
      have hrun : run (ops ++ [op]) = s.step op := by
        simp only [run, List.foldlM_append] at hs ⊢
        rw [hs]
        simp
      rw [hrun]
      cases op with
      | addLlc lcid llc => exact ⟨_, rfl, hbehind.addLlc lcid llc⟩
      | removeLlc lcid =>
          obtain ⟨llc, hadded⟩ := h ops lcid [] rfl
          have hin : lcid.toNat < s.llcs.length := by
            by_contra hout
            exact absurd ((hbehind.length _).mp (Nat.le_of_not_lt hout) _ _ hadded) (Nat.lt_irrefl _)
          have hs' : s.removeLlc lcid = some _ := if_pos hin
          exact ⟨_, hs', hbehind.removeLlc hs'⟩

/-- What `tick` visits. -/
theorem Behind.visited_iff {s : Registry π} {ops : List (Op π)} (h : s.Behind ops) (lcid : UInt8)
    (llc : π) (ctx : SchedulingCtx π) :
    s.visited lcid = some (llc, ctx) ↔ Stored ops lcid llc ∧ ctx = { llc := some llc } := by
  rw [← h.llcs]
  unfold visited
  rw [h.fresh]
  rcases hget : s.llcs[lcid.toNat]? with _ | _ | p
  · simp
  · simp
  · simp [hget]
    exact fun hp => ⟨fun hctx => by rw [← hctx, hp], fun hctx => by rw [hctx, hp]⟩

/-- A channel that is stored was added last. -/
theorem Stored.last {ops : List (Op π)} {lcid : UInt8} {llc : π} (h : Stored ops lcid llc) :
    ∃ p, lastLlc ops lcid = some p := by
  obtain ⟨before, after, rfl, -, hkept⟩ := h
  have hsplit : (before ++ .addLlc lcid llc :: after).filter (fun op => op.lcid == lcid) =
      before.filter (fun op => op.lcid == lcid) ++
        .addLlc lcid llc :: after.filter (fun op => op.lcid == lcid) := by
    simp [Op.lcid]
  obtain ⟨last, hlast⟩ : ∃ last,
      (.addLlc lcid llc :: after.filter (fun op => op.lcid == lcid)).getLast? = some last :=
    ⟨_, List.getLast?_cons⟩
  have hmem := List.mem_of_getLast? hlast
  unfold lastLlc
  rw [hsplit, List.getLast?_append, hlast]
  cases last with
  | addLlc _ p => exact ⟨p, rfl⟩
  | removeLlc other =>
      simp only [List.mem_cons, reduceCtorEq, List.mem_filter, false_or, beq_iff_eq] at hmem
      obtain ⟨hafter, rfl⟩ := hmem
      exact absurd hafter hkept

/-- When the visited channels are those of the map. -/
theorem Behind.mapped_iff_stored {s : Registry π} {ops : List (Op π)} (h : s.Behind ops) :
    s.Mapped ops ↔ ∀ lcid llc, lastLlc ops lcid = some llc → Stored ops lcid llc := by
  constructor
  · intro hmapped lcid llc hlast
    have hvisited := hmapped lcid
    rw [hlast, Option.map_some, h.visited_iff] at hvisited
    exact hvisited.1
  · intro hall lcid
    cases hlast : lastLlc ops lcid with
    | some llc =>
        rw [Option.map_some, h.visited_iff]
        exact ⟨hall lcid llc hlast, rfl⟩
    | none =>
        rw [Option.map_none, Option.eq_none_iff_forall_ne_some]
        rintro ⟨llc, ctx⟩ hvisited
        obtain ⟨p, hp⟩ := ((h.visited_iff lcid llc ctx).mp hvisited).1.last
        rw [hlast] at hp
        cases hp

/-- **The scheduler visits the channels of a map iff every channel that was added last is
stored**, for every sequence of calls that removes only what was added. -/
theorem mapped_iff (ops : List (Op π)) (h : RemovesAdded ops) :
    (∃ s, run ops = some s ∧ s.Mapped ops) ↔
      ∀ lcid llc, lastLlc ops lcid = some llc → Stored ops lcid llc := by
  obtain ⟨s, hs, hbehind⟩ := behind_run h
  rw [hs, ← hbehind.mapped_iff_stored]
  exact ⟨fun ⟨t, ht, hmapped⟩ => Option.some.inj ht ▸ hmapped, fun hmapped => ⟨s, rfl, hmapped⟩⟩

/-- Channels in increasing order, and the first of them removed. -/
theorem increasing_mapped :
    ∃ s, run [.addLlc 0 'a', .addLlc 2 'b', .removeLlc 0] = some s ∧
      s.Mapped [.addLlc 0 'a', .addLlc 2 'b', .removeLlc 0] := by
  refine (mapped_iff _ ?_).mpr ?_
  · intro before lcid after hops
    rcases before with _ | ⟨x, _ | ⟨y, _ | ⟨z, before⟩⟩⟩ <;> simp at hops
    obtain ⟨rfl, rfl, rfl, rfl⟩ := hops
    exact ⟨'a', by simp⟩
  · intro lcid llc hlast
    by_cases hzero : lcid = 0
    · subst hzero
      cases hlast
    · by_cases htwo : lcid = 2
      · subst htwo
        cases hlast
        exact ⟨[.addLlc 0 'a'], [.removeLlc 0], rfl, by simp +decide, by simp⟩
      · simp [lastLlc, Op.lcid, Ne.symm hzero, Ne.symm htwo] at hlast

/-- A smaller channel behind a larger one. -/
theorem smaller_lost : ¬ ∃ s, run [.addLlc 1 'a', .addLlc 0 'b'] = some s ∧
    s.Mapped [.addLlc 1 'a', .addLlc 0 'b'] := by
  rintro ⟨s, hs, hmapped⟩
  cases hs
  exact absurd (hmapped 0) (by decide)

end Registry

end Winject.TxScheduler.Illc
