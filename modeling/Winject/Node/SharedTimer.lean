import Winject.Bfc.Timer
import Winject.ChannelRrc.Model

/-!
# The timer of the channels (`AppRRC::timer2`)

All channels of a node wait with one timer: `setup_rrcs` hands `timer2` to every `LCRRC`.
A channel knows nothing of the others: it names a callback by the identifier that
`wait_ms` gave it, here by its place among those it was given, as `ChannelRrc.Timer` does.

`Serves` relates the shared timer to a timer that one channel has for itself.

## Main results

* `timer_shared` — to each channel, the shared timer is a timer of its own.
-/

namespace Winject.Node

open Winject.Bfc
open Winject.Lib
open Winject.ChannelRrc (Callback)

/-! ## The shared timer -/

/-- A callback, with the channel that waits. -/
abbrev Shared := UInt8 × Callback

/-- What belongs to a channel. -/
def owned (lcid : UInt8) (l : List (TimerId × Shared)) : List (TimerId × Callback) :=
  l.filterMap fun e => if e.2.1 = lcid then some (e.1, e.2.2) else none

/-- What is done with the timer: `waitMs` and `cancel` by channels, the rest by `schedule`. -/
inductive TimerOp where
  | waitMs (lcid : UInt8) (forMs : Int) (cb : Callback) (nowUs : Int)
  | cancel (lcid : UInt8) (n : Nat)
  | extract (nowUs : Int)
  | call

/-- One step.  A channel cannot name what it was not given. -/
def sharedStep (b : Book Shared) : TimerOp → Book Shared
  | .waitMs lcid forMs cb nowUs => b.step (.wait (forMs * 1000) (lcid, cb) nowUs)
  | .cancel lcid n =>
    match (owned lcid b.issued)[n]? with
    | none => b
    | some e => b.step (.cancel e.1)
  | .extract nowUs => b.step (.extract nowUs)
  | .call => b.step .call

/-- A run. -/
def sharedRun (b : Book Shared) (ops : List TimerOp) : Book Shared := ops.foldl sharedStep b

/-! ## A timer of its own -/

/-- What is done with the timer of one channel. -/
inductive OwnOp where
  | waitMs (cb : Callback)
  | cancel (n : Nat)
  | extract (i : Nat)
  | fire (i : Nat)

/-- The timer, and what it has called. -/
structure OwnTimer where
  timer : ChannelRrc.Timer := {}
  called : List Callback := []

/-- One step. -/
def OwnTimer.step (o : OwnTimer) : OwnOp → OwnTimer
  | .waitMs cb => { o with timer := (o.timer.waitMs cb).1 }
  | .cancel n => { o with timer := o.timer.cancel n }
  | .extract i => { o with timer := o.timer.extract i }
  | .fire i => { timer := o.timer.fired i, called := o.called ++ o.timer.extracted[i]?.toList }

/-- A run. -/
def OwnTimer.run (o : OwnTimer) (os : List OwnOp) : OwnTimer := os.foldl OwnTimer.step o

/-- Done by the channel, not by `schedule`. -/
def OwnOp.asked : OwnOp → Bool
  | .waitMs _ => true
  | .cancel _ => true
  | _ => false

/-- What a channel does in a step. -/
def askedBy (lcid : UInt8) : TimerOp → List OwnOp
  | .waitMs other _ cb _ => if other = lcid then [.waitMs cb] else []
  | .cancel other n => if other = lcid then [.cancel n] else []
  | _ => []

/-! ## One serves as the other -/

/-- The callbacks of a channel's own timer, under the identifiers that it was given. -/
def named (given : List (TimerId × Callback)) (cbMap : List (Nat × Callback)) :
    List (Option TimerId × Callback) :=
  cbMap.map fun e => (given[e.1]?.map Prod.fst, e.2)

/-- The shared timer does to a channel what its own timer would: the same callbacks wait,
the same are about to be called, and the same have been called, in the same order. -/
structure Serves (lcid : UInt8) (b : Book Shared) (o : OwnTimer) : Prop where
  given : o.timer.timerCtr = (owned lcid b.issued).length
  waiting : (named (owned lcid b.issued) o.timer.cbMap).Perm
    ((owned lcid b.timer.cbMap.entries).map fun e => (some e.1, e.2))
  extracted : o.timer.extracted = (owned lcid b.timer.extracted).map Prod.snd
  called : o.called = (owned lcid b.called).map Prod.snd

@[simp] theorem owned_append (lcid : UInt8) (l l' : List (TimerId × Shared)) :
    owned lcid (l ++ l') = owned lcid l ++ owned lcid l' := List.filterMap_append ..

theorem owned_cons_self (lcid : UInt8) (id : TimerId) (cb : Callback)
    (l : List (TimerId × Shared)) :
    owned lcid ((id, lcid, cb) :: l) = (id, cb) :: owned lcid l := by
  unfold owned
  rw [List.filterMap_cons, if_pos rfl]

theorem owned_cons_of_ne {lcid : UInt8} {e : TimerId × Shared} (h : e.2.1 ≠ lcid)
    (l : List (TimerId × Shared)) : owned lcid (e :: l) = owned lcid l := by
  unfold owned
  rw [List.filterMap_cons, if_neg h]

theorem mem_owned {lcid : UInt8} {l : List (TimerId × Shared)} {e : TimerId × Callback} :
    e ∈ owned lcid l ↔ (e.1, lcid, e.2) ∈ l := by
  unfold owned
  rw [List.mem_filterMap]
  constructor
  · rintro ⟨⟨id, other, cb⟩, hmem, hsome⟩
    dsimp only at hsome
    split_ifs at hsome with heq
    cases hsome
    rw [← heq]
    exact hmem
  · intro hmem
    exact ⟨_, hmem, if_pos rfl⟩

/-- The identifiers of a channel are different, as all are. -/
theorem owned_nodup (lcid : UInt8) {l : List (TimerId × Shared)} (h : (Book.ids l).Nodup) :
    ((owned lcid l).map Prod.fst).Nodup := by
  refine h.sublist ?_
  unfold owned Book.ids
  induction l with
  | nil => exact List.Sublist.refl _
  | cons e l ih =>
      have htail := ih (List.nodup_cons.mp h).2
      rw [List.filterMap_cons]
      split_ifs
      · exact htail.cons_cons e.1
      · exact htail.cons e.1

/-- Identifiers of callbacks that are there have been given out. -/
theorem Serves.lt {lcid : UInt8} {b : Book Shared} {o : OwnTimer} (h : Serves lcid b o)
    {e : Nat × Callback} (he : e ∈ o.timer.cbMap) : e.1 < (owned lcid b.issued).length := by
  have hmem := h.waiting.mem_iff.mp (List.mem_map_of_mem he)
  obtain ⟨f, -, hf⟩ := List.mem_map.mp hmem
  have hsome := congrArg Prod.fst hf
  dsimp only at hsome
  rw [eq_comm, Option.map_eq_some_iff] at hsome
  obtain ⟨g, hg, -⟩ := hsome
  exact (List.getElem?_eq_some_iff.mp hg).1

/-! ## Waiting -/

theorem Serves.waitMs {lcid : UInt8} {b : Book Shared} {o : OwnTimer} (h : Serves lcid b o)
    (hb : b.Accounted) (forMs : Int) (cb : Callback) (nowUs : Int) :
    Serves lcid (sharedStep b (.waitMs lcid forMs cb nowUs)) (o.step (.waitMs cb)) := by
  have hnew := hb.not_mem_keys (nowUs + forMs * 1000)
  have hissued : owned lcid (sharedStep b (.waitMs lcid forMs cb nowUs)).issued =
      owned lcid b.issued ++ [(toLex (nowUs + forMs * 1000, b.timer.timerCtr), cb)] := by
    show owned lcid (b.issued ++ [_]) = _
    rw [owned_append]
    exact congrArg _ (owned_cons_self ..)
  refine ⟨?_, ?_, h.extracted, h.called⟩
  · rw [hissued, List.length_append]
    exact congrArg (· + 1) h.given
  · rw [hissued]
    have hold : named (owned lcid b.issued ++
        [(toLex (nowUs + forMs * 1000, b.timer.timerCtr), cb)]) o.timer.cbMap =
        named (owned lcid b.issued) o.timer.cbMap := by
      refine List.map_congr_left fun e he => ?_
      rw [List.getElem?_append_left (h.lt he)]
    have hlast : named (owned lcid b.issued ++
        [(toLex (nowUs + forMs * 1000, b.timer.timerCtr), cb)]) [(o.timer.timerCtr, cb)] =
        [(some (toLex (nowUs + forMs * 1000, b.timer.timerCtr)), cb)] := by
      unfold named
      rw [List.map_singleton, h.given, List.getElem?_concat_length]
      rfl
    have hplace := ((OrderedMap.emplace_perm hnew (lcid, cb)).filterMap fun e : TimerId × Shared =>
      if e.2.1 = lcid then some (e.1, e.2.2) else none).map fun e => (some e.1, e.2)
    rw [← owned, ← owned, owned_cons_self] at hplace
    refine List.Perm.trans ?_ hplace.symm
    show (named _ (o.timer.cbMap ++ [(o.timer.timerCtr, cb)])).Perm _
    rw [named, List.map_append, ← named, ← named, hold, hlast]
    exact (List.perm_append_singleton _ _).trans (h.waiting.cons _)

theorem Serves.waitMs_other {lcid other : UInt8} (hne : other ≠ lcid) {b : Book Shared}
    {o : OwnTimer} (h : Serves lcid b o) (hb : b.Accounted) (forMs : Int) (cb : Callback)
    (nowUs : Int) : Serves lcid (sharedStep b (.waitMs other forMs cb nowUs)) o := by
  have hnew := hb.not_mem_keys (nowUs + forMs * 1000)
  have hissued : owned lcid (sharedStep b (.waitMs other forMs cb nowUs)).issued =
      owned lcid b.issued := by
    show owned lcid (b.issued ++ [_]) = _
    rw [owned_append, owned_cons_of_ne hne]
    exact List.append_nil _
  have hplace := (OrderedMap.emplace_perm hnew (other, cb)).filterMap fun e : TimerId × Shared =>
    if e.2.1 = lcid then some (e.1, e.2.2) else none
  rw [← owned, ← owned, owned_cons_of_ne hne] at hplace
  refine ⟨?_, ?_, h.extracted, h.called⟩
  · rw [hissued]
    exact h.given
  · rw [hissued]
    exact h.waiting.trans (hplace.map _).symm

/-! ## Cancelling -/

/-- The place of an identifier among those of a channel. -/
theorem given_iff {given : List (TimerId × Callback)} (hnodup : (given.map Prod.fst).Nodup)
    {n m : Nat} {e : TimerId × Callback} (hn : given[n]? = some e) :
    given[m]?.map Prod.fst = some e.1 ↔ m = n := by
  rw [← List.getElem?_map]
  have hlt : n < (given.map Prod.fst).length := by
    rw [List.length_map]
    exact (List.getElem?_eq_some_iff.mp hn).1
  have hat : (given.map Prod.fst)[n]? = some e.1 := by rw [List.getElem?_map, hn]; rfl
  rw [← hat, eq_comm]
  constructor
  · intro heq
    exact ((List.getElem?_inj hlt hnodup).mp heq).symm
  · rintro rfl
    rfl

theorem owned_filter (lcid : UInt8) (id : TimerId) (l : List (TimerId × Shared)) :
    owned lcid (l.filter fun e => e.1 ≠ id) = (owned lcid l).filter fun e => e.1 ≠ id := by
  induction l with
  | nil => rfl
  | cons e l ih =>
      obtain ⟨i, other, cb⟩ := e
      by_cases howner : other = lcid
      · subst howner
        by_cases hid : i = id
        · rw [owned_cons_self, List.filter_cons_of_neg (by simp [hid]),
            List.filter_cons_of_neg (by simp [hid]), ih]
        · rw [owned_cons_self, List.filter_cons_of_pos (by simp [hid]),
            List.filter_cons_of_pos (by simp [hid]), owned_cons_self, ih]
      · rw [owned_cons_of_ne howner]
        by_cases hid : i = id
        · rw [List.filter_cons_of_neg (by simp [hid]), ih]
        · rw [List.filter_cons_of_pos (by simp [hid]), owned_cons_of_ne howner, ih]

theorem Serves.cancel {lcid : UInt8} {b : Book Shared} {o : OwnTimer} (h : Serves lcid b o)
    (hb : b.Accounted) (n : Nat) :
    Serves lcid (sharedStep b (.cancel lcid n)) (o.step (.cancel n)) := by
  cases hn : (owned lcid b.issued)[n]? with
  | none =>
      -- it was not given out, so nothing is there under it
      have hstep : sharedStep b (.cancel lcid n) = b := by unfold sharedStep; dsimp only; rw [hn]
      have hsame : o.timer.cancel n = o.timer := by
        have hall : o.timer.cbMap.filter (fun entry => entry.1 != n) = o.timer.cbMap := by
          refine List.filter_eq_self.mpr fun e he => ?_
          have hlt := h.lt he
          have hge := List.getElem?_eq_none_iff.mp hn
          exact bne_iff_ne.mpr (by omega)
        unfold ChannelRrc.Timer.cancel
        rw [hall]
      rw [hstep]
      unfold OwnTimer.step
      dsimp only
      rw [hsame]
      exact h
  | some e =>
      have hstep : sharedStep b (.cancel lcid n) = b.step (.cancel e.1) := by
        unfold sharedStep
        dsimp only
        rw [hn]
      rw [hstep]
      refine ⟨h.given, ?_, h.extracted, h.called⟩
      have hkeep := h.waiting.filter fun f => decide (f.1 ≠ some e.1)
      have hown : (named (owned lcid b.issued) o.timer.cbMap).filter
          (fun f => decide (f.1 ≠ some e.1)) =
          named (owned lcid b.issued) (o.timer.cbMap.filter fun entry => entry.1 != n) := by
        unfold named
        rw [List.filter_map]
        congr 1
        refine List.filter_congr fun f _ => ?_
        have hiff := @given_iff _ (owned_nodup lcid hb.nodup) n f.1 e hn
        show decide (¬ _ = some e.1) = _
        rw [Bool.eq_iff_iff, decide_eq_true_iff, bne_iff_ne]
        exact not_congr hiff
      have hmap : ((owned lcid b.timer.cbMap.entries).map fun f => (some f.1, f.2)).filter
          (fun f => decide (f.1 ≠ some e.1)) =
          (owned lcid (b.timer.cbMap.erase e.1).entries).map fun f => (some f.1, f.2) := by
        show _ = (owned lcid (b.timer.cbMap.entries.filter _)).map _
        rw [owned_filter, List.filter_map]
        congr 1
        refine List.filter_congr fun f _ => ?_
        simp
      rw [hown, hmap] at hkeep
      exact hkeep

theorem Serves.cancel_other {lcid other : UInt8} (hne : other ≠ lcid) {b : Book Shared}
    {o : OwnTimer} (h : Serves lcid b o) (hb : b.Accounted) (n : Nat) :
    Serves lcid (sharedStep b (.cancel other n)) o := by
  unfold sharedStep
  dsimp only
  cases hn : (owned other b.issued)[n]? with
  | none => exact h
  | some e =>
      refine ⟨h.given, ?_, h.extracted, h.called⟩
      have hgiven : (e.1, other, e.2) ∈ b.issued := mem_owned.mp (List.mem_of_getElem? hn)
      have hkeep : (owned lcid b.timer.cbMap.entries).filter (fun f => decide (f.1 ≠ e.1)) =
          owned lcid b.timer.cbMap.entries := by
        refine List.filter_eq_self.mpr fun f hf => ?_
        have hissued := hb.map_subset (mem_owned.mp hf)
        rw [decide_eq_true_eq]
        intro heq
        -- an identifier belongs to one channel
        have hsame := List.inj_on_of_nodup_map hb.nodup hissued hgiven heq
        exact hne (congrArg (fun g => g.2.1) hsame).symm
      show (named _ o.timer.cbMap).Perm ((owned lcid (b.timer.cbMap.entries.filter _)).map _)
      rw [owned_filter, hkeep]
      exact h.waiting

/-! ## Scheduling -/

/-- The channel's own timer can take out what the walk takes out of the shared map. -/
theorem own_extracts (lcid : UInt8) (given : List (TimerId × Callback))
    (taken rest : List (TimerId × Shared)) {o : OwnTimer}
    (h : (named given o.timer.cbMap).Perm
      ((owned lcid (taken ++ rest)).map fun e => (some e.1, e.2))) :
    ∃ os, os.filter OwnOp.asked = [] ∧ (o.run os).called = o.called ∧
      (o.run os).timer.timerCtr = o.timer.timerCtr ∧
      (o.run os).timer.extracted = o.timer.extracted ++ (owned lcid taken).map Prod.snd ∧
      (named given (o.run os).timer.cbMap).Perm ((owned lcid rest).map fun e => (some e.1, e.2)) := by
  induction taken generalizing o with
  | nil => exact ⟨[], rfl, rfl, rfl, (List.append_nil _).symm, h⟩
  | cons e taken ih =>
      obtain ⟨id, other, cb⟩ := e
      by_cases howner : other = lcid
      · subst howner
        rw [List.cons_append, owned_cons_self, List.map_cons] at h
        have hmem := h.mem_iff.mpr (List.mem_cons_self ..)
        obtain ⟨i, hi⟩ := List.mem_iff_getElem?.mp hmem
        unfold named at hi
        rw [List.getElem?_map, Option.map_eq_some_iff] at hi
        obtain ⟨entry, hentry, hpair⟩ := hi
        obtain rfl : entry.2 = cb := congrArg Prod.snd hpair
        have hstep : (o.step (.extract i)).timer =
            { o.timer with
              cbMap := o.timer.cbMap.eraseIdx i, extracted := o.timer.extracted ++ [entry.2] } := by
          unfold OwnTimer.step ChannelRrc.Timer.extract
          dsimp only
          rw [hentry]
        have hrest : (named given (o.step (.extract i)).timer.cbMap).Perm
            ((owned other (taken ++ rest)).map fun e => (some e.1, e.2)) := by
          obtain ⟨hlt, hat⟩ := List.getElem?_eq_some_iff.mp hentry
          have hsplit := (List.getElem_cons_eraseIdx_perm hlt).map fun e : Nat × Callback =>
            (given[e.1]?.map Prod.fst, e.2)
          rw [hat, List.map_cons, hpair] at hsplit
          rw [hstep]
          exact (hsplit.trans h).cons_inv
        obtain ⟨os, hasked, hcalled, hctr, hextracted, hperm⟩ := ih hrest
        refine ⟨.extract i :: os, hasked, hcalled, ?_, ?_, hperm⟩
        · exact hctr.trans (by rw [hstep])
        · rw [owned_cons_self, List.map_cons]
          refine hextracted.trans ?_
          rw [hstep, List.append_assoc]
          rfl
      · rw [List.cons_append, owned_cons_of_ne howner] at h
        rw [owned_cons_of_ne howner]
        exact ih h

theorem Serves.extract {lcid : UInt8} {b : Book Shared} {o : OwnTimer} (h : Serves lcid b o)
    (nowUs : Int) :
    ∃ os, os.filter OwnOp.asked = [] ∧ Serves lcid (sharedStep b (.extract nowUs)) (o.run os) := by
  show ∃ os, _ ∧ Serves lcid { b with timer := b.timer.extract nowUs } (o.run os)
  unfold Timer.extract
  split_ifs with hempty
  · have hwaiting := h.waiting
    rw [← OrderedMap.lower_append_upper b.timer.cbMap (Timer.due nowUs)] at hwaiting
    obtain ⟨os, hasked, hcalled, hctr, hextracted, hperm⟩ := own_extracts lcid _ _ _ hwaiting
    refine ⟨os, hasked, ⟨hctr.trans h.given, hperm, ?_, hcalled.trans h.called⟩⟩
    rw [hextracted, h.extracted, List.isEmpty_iff.mp hempty]
    rfl
  · exact ⟨[], rfl, h⟩

theorem Serves.call {lcid : UInt8} {b : Book Shared} {o : OwnTimer} (h : Serves lcid b o) :
    ∃ os, os.filter OwnOp.asked = [] ∧ Serves lcid (sharedStep b .call) (o.run os) := by
  have hextracted := h.extracted
  have hcalled := h.called
  show ∃ os, _ ∧ Serves lcid { b with
    timer := { b.timer with extracted := b.timer.extracted.tail }
    called := b.called ++ b.timer.extracted.take 1 } (o.run os)
  cases hcase : b.timer.extracted with
  | nil =>
      rw [hcase] at hextracted
      refine ⟨[], rfl, h.given, h.waiting, hextracted, ?_⟩
      rw [List.take_nil, List.append_nil]
      exact hcalled
  | cons e rest =>
      rw [hcase] at hextracted
      rw [List.tail_cons, List.take_succ_cons, List.take_zero]
      obtain ⟨id, other, cb⟩ := e
      by_cases howner : other = lcid
      · subst howner
        rw [owned_cons_self, List.map_cons] at hextracted
        refine ⟨[.fire 0], rfl, h.given, h.waiting, ?_, ?_⟩
        · show o.timer.extracted.eraseIdx 0 = _
          rw [hextracted]
          rfl
        · show o.called ++ o.timer.extracted[0]?.toList = _
          rw [hextracted, hcalled, owned_append, List.map_append, owned_cons_self]
          rfl
      · rw [owned_cons_of_ne howner] at hextracted
        refine ⟨[], rfl, h.given, h.waiting, hextracted, ?_⟩
        rw [owned_append, owned_cons_of_ne howner]
        exact hcalled.trans (congrArg _ (List.append_nil _).symm)

/-! ## Runs -/

theorem sharedStep_accounted {b : Book Shared} (h : b.Accounted) (op : TimerOp) :
    (sharedStep b op).Accounted := by
  cases op with
  | cancel lcid n =>
      unfold sharedStep
      dsimp only
      cases (owned lcid b.issued)[n]? with
      | none => exact h
      | some e => exact h.cancel e.1
  | waitMs lcid forMs cb nowUs => exact h.wait _ _ _
  | extract nowUs => exact h.extract nowUs
  | call => exact h.call

theorem Serves.step {lcid : UInt8} {b : Book Shared} {o : OwnTimer} (h : Serves lcid b o)
    (hb : b.Accounted) (op : TimerOp) :
    ∃ os, os.filter OwnOp.asked = askedBy lcid op ∧ Serves lcid (sharedStep b op) (o.run os) := by
  cases op with
  | waitMs other forMs cb nowUs =>
      rw [askedBy]
      by_cases howner : other = lcid
      · subst howner
        rw [if_pos rfl]
        exact ⟨[.waitMs cb], rfl, h.waitMs hb forMs cb nowUs⟩
      · rw [if_neg howner]
        exact ⟨[], rfl, h.waitMs_other howner hb forMs cb nowUs⟩
  | cancel other n =>
      rw [askedBy]
      by_cases howner : other = lcid
      · subst howner
        rw [if_pos rfl]
        exact ⟨[.cancel n], rfl, h.cancel hb n⟩
      · rw [if_neg howner]
        exact ⟨[], rfl, h.cancel_other howner hb n⟩
  | extract nowUs => exact h.extract nowUs
  | call => exact h.call

/-- **Channels share the timer, and do not notice**: in every run of the shared timer,
whatever the channels wait for and cancel in between, a channel sees what a timer of its own
would do in some run in which it asks for the same. -/
theorem timer_shared (lcid : UInt8) (ops : List TimerOp) :
    ∃ os, os.filter OwnOp.asked = ops.flatMap (askedBy lcid) ∧
      Serves lcid (sharedRun {} ops) (OwnTimer.run {} os) := by
  have hall : ∀ (b : Book Shared) (o : OwnTimer), b.Accounted → Serves lcid b o →
      ∃ os, os.filter OwnOp.asked = ops.flatMap (askedBy lcid) ∧
        Serves lcid (sharedRun b ops) (o.run os) := by
    induction ops with
    | nil => exact fun b o _ h => ⟨[], rfl, h⟩
    | cons op ops ih =>
        intro b o hb h
        obtain ⟨os, hasked, hstep⟩ := h.step hb op
        obtain ⟨os', hasked', hrun⟩ := ih _ _ (sharedStep_accounted hb op) hstep
        refine ⟨os ++ os', ?_, ?_⟩
        · rw [List.filter_append, hasked, hasked']
          rfl
        · unfold OwnTimer.run at hrun ⊢
          rw [List.foldl_append]
          exact hrun
  exact hall {} {} Book.Accounted.new ⟨rfl, List.Perm.refl _, rfl, rfl⟩

end Winject.Node
