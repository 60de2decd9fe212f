import Mathlib.Data.List.Nodup
import Mathlib.Data.Prod.Lex
import Winject.Lib.OrderedMap

/-!
# Timers (`bfc/timer.hpp`)

A `Timer` keeps callbacks in a map that is ordered by deadline, and by the order in which
they came where deadlines are the same.  `schedule` takes what is due out of the map under
the lock, and then calls it without: `extract` is the first half, `call` one call of the
second, and a callback or another thread can wait and cancel in between.  One thread
schedules a timer, so nothing is taken out before the last call.

`Book` is a timer with a record of what it was asked for and what became of it.

## Main results

* `callbacks_accounted` — every callback is called once, cancelled once, or still there.
* `cancel_sound` — what `cancel` answers, and that what it cancels is never called.
* `called_in_order` — calls come in the order of the deadlines, over all calls of `schedule`.
-/

namespace Winject.Bfc

open Winject.Lib

/-- `timer::timer_id_t`: the deadline, and a count. -/
abbrev TimerId := Int ×ₗ Nat

/-- The deadline, in microseconds. -/
def TimerId.deadline (id : TimerId) : Int := (ofLex id).1

/-- The count. -/
def TimerId.ctr (id : TimerId) : Nat := (ofLex id).2

/-- `bfc::timer`, with what a call of `schedule` has taken out and not yet called. -/
structure Timer (κ : Type) where
  timerCtr : Nat := 0
  cbMap : OrderedMap TimerId κ := {}
  extracted : List (TimerId × κ) := []

namespace Timer

variable {κ : Type}

/-- `timer::wait_us`. -/
def waitUs (t : Timer κ) (forUs : Int) (cb : κ) (nowUs : Int) : Timer κ × TimerId :=
  let id : TimerId := toLex (nowUs + forUs, t.timerCtr)
  ({ t with timerCtr := t.timerCtr + 1, cbMap := t.cbMap.emplace id cb }, id)

/-- `timer::cancel`. -/
def cancel (t : Timer κ) (id : TimerId) : Timer κ × Bool :=
  ({ t with cbMap := t.cbMap.erase id }, decide (id ∈ t.cbMap.keys))

/-- The deadline has come. -/
def due (nowUs : Int) (id : TimerId) : Bool := decide (nowUs ≥ id.deadline)

/-- The first half of `timer::schedule`. -/
def extract (t : Timer κ) (nowUs : Int) : Timer κ :=
  if t.extracted.isEmpty then
    { t with cbMap := t.cbMap.upper (due nowUs), extracted := t.cbMap.lower (due nowUs) }
  else t

/-- The second half, for one callback. -/
def call (t : Timer κ) : Timer κ := { t with extracted := t.extracted.tail }

end Timer

/-! ## Runs -/

/-- A step of one of the threads. -/
inductive Op (κ : Type) where
  | wait (forUs : Int) (cb : κ) (nowUs : Int)
  | cancel (id : TimerId)
  | extract (nowUs : Int)
  | call

/-- A timer, and what it was asked for. -/
structure Book (κ : Type) where
  timer : Timer κ := {}
  issued : List (TimerId × κ) := []
  called : List (TimerId × κ) := []
  cancelled : List (TimerId × κ) := []

namespace Book

variable {κ : Type}

/-- One step. -/
def step (b : Book κ) : Op κ → Book κ
  | .wait forUs cb nowUs =>
    { b with
      timer := (b.timer.waitUs forUs cb nowUs).1
      issued := b.issued ++ [((b.timer.waitUs forUs cb nowUs).2, cb)] }
  | .cancel id =>
    { b with
      timer := (b.timer.cancel id).1
      cancelled := b.cancelled ++ b.timer.cbMap.entries.filter fun e => e.1 = id }
  | .extract nowUs => { b with timer := b.timer.extract nowUs }
  | .call => { b with timer := b.timer.call, called := b.called ++ b.timer.extracted.take 1 }

/-- A run. -/
def run (b : Book κ) (ops : List (Op κ)) : Book κ := ops.foldl step b

/-- The identifiers of some callbacks. -/
def ids (l : List (TimerId × κ)) : List TimerId := l.map Prod.fst

/-! ## Nothing is lost or doubled -/

/-- What was asked for is in one of four places, and has an identifier of its own. -/
structure Accounted (b : Book κ) : Prop where
  places : b.issued.Perm (b.called ++ b.timer.extracted ++ b.timer.cbMap.entries ++ b.cancelled)
  fresh : ∀ e ∈ b.issued, e.1.ctr < b.timer.timerCtr
  nodup : (ids b.issued).Nodup

theorem Accounted.new : Accounted ({} : Book κ) :=
  ⟨List.Perm.refl _, fun _ he => (List.not_mem_nil he).elim, List.nodup_nil⟩

theorem Accounted.map_subset {b : Book κ} (h : b.Accounted) {e : TimerId × κ}
    (he : e ∈ b.timer.cbMap.entries) : e ∈ b.issued :=
  h.places.mem_iff.mpr (List.mem_append_left _ (List.mem_append_right _ he))

/-- A new identifier is in no place. -/
theorem Accounted.not_mem_keys {b : Book κ} (h : b.Accounted) (deadline : Int) :
    toLex (deadline, b.timer.timerCtr) ∉ b.timer.cbMap.keys := by
  intro hmem
  obtain ⟨e, he, hid⟩ := List.mem_map.mp hmem
  have hlt := h.fresh e (h.map_subset he)
  rw [hid] at hlt
  exact absurd hlt (lt_irrefl _)

theorem Accounted.wait {b : Book κ} (h : b.Accounted) (forUs : Int) (cb : κ) (nowUs : Int) :
    (b.step (.wait forUs cb nowUs)).Accounted := by
  have hnew := h.not_mem_keys (nowUs + forUs)
  refine ⟨?_, fun e he => ?_, ?_⟩
  · have hmap := OrderedMap.emplace_perm hnew cb
    refine (List.perm_append_singleton _ _).trans ?_
    refine (h.places.cons _).trans ?_
    have hmove : ((toLex (nowUs + forUs, b.timer.timerCtr), cb) ::
        (b.called ++ b.timer.extracted ++ b.timer.cbMap.entries ++ b.cancelled)).Perm
        (b.called ++ b.timer.extracted ++ ((toLex (nowUs + forUs, b.timer.timerCtr), cb) ::
          b.timer.cbMap.entries) ++ b.cancelled) := by
      rw [List.append_assoc, List.append_assoc (b.called ++ b.timer.extracted)]
      exact List.perm_middle.symm
    exact hmove.trans ((hmap.symm.append_left _).append_right _)
  · show e.1.ctr < b.timer.timerCtr + 1
    rcases List.mem_append.mp he with hold | hnew
    · exact Nat.lt_succ_of_lt (h.fresh e hold)
    · rw [List.mem_singleton.mp hnew]
      exact Nat.lt_succ_self _
  · show (ids (b.issued ++ [(toLex (nowUs + forUs, b.timer.timerCtr), cb)])).Nodup
    rw [ids, List.map_append, List.nodup_append]
    refine ⟨h.nodup, List.nodup_singleton _, ?_⟩
    intro id hid id' hid' heq
    obtain ⟨e, he, rfl⟩ := List.mem_map.mp hid
    have hlt := h.fresh e he
    rw [heq, List.mem_singleton.mp hid'] at hlt
    exact absurd hlt (lt_irrefl _)

theorem Accounted.cancel {b : Book κ} (h : b.Accounted) (id : TimerId) :
    (b.step (.cancel id)).Accounted := by
  refine ⟨?_, h.fresh, h.nodup⟩
  refine h.places.trans ?_
  have hsplit := b.timer.cbMap.erase_perm id
  refine ((hsplit.append_left _).append_right _).trans ?_
  show (b.called ++ b.timer.extracted ++ ((b.timer.cbMap.erase id).entries ++ _) ++ b.cancelled).Perm
    (b.called ++ b.timer.extracted ++ (b.timer.cbMap.erase id).entries ++ (b.cancelled ++ _))
  rw [← List.append_assoc (b.called ++ b.timer.extracted), List.append_assoc _ _ b.cancelled]
  exact List.perm_append_comm.append_left _

theorem Accounted.extract {b : Book κ} (h : b.Accounted) (nowUs : Int) :
    (b.step (.extract nowUs)).Accounted := by
  have htimer : (b.timer.extract nowUs).timerCtr = b.timer.timerCtr ∧
      (b.timer.extract nowUs).extracted ++ (b.timer.extract nowUs).cbMap.entries =
        b.timer.extracted ++ b.timer.cbMap.entries := by
    unfold Timer.extract
    split_ifs with hempty
    · rw [List.isEmpty_iff.mp hempty]
      exact ⟨rfl, OrderedMap.lower_append_upper _ _⟩
    · exact ⟨rfl, rfl⟩
  refine ⟨?_, fun e he => ?_, h.nodup⟩
  · show b.issued.Perm (b.called ++ (b.timer.extract nowUs).extracted ++
      (b.timer.extract nowUs).cbMap.entries ++ b.cancelled)
    rw [List.append_assoc b.called, htimer.2, ← List.append_assoc]
    exact h.places
  · show e.1.ctr < (b.timer.extract nowUs).timerCtr
    rw [htimer.1]
    exact h.fresh e he

/-- The list of what is called goes on where the list of what is taken out ends. -/
theorem take_one_append_tail (l : List (TimerId × κ)) : l.take 1 ++ l.tail = l := by
  cases l <;> rfl

theorem Accounted.call {b : Book κ} (h : b.Accounted) : (b.step .call).Accounted := by
  refine ⟨?_, h.fresh, h.nodup⟩
  show b.issued.Perm (b.called ++ b.timer.extracted.take 1 ++ b.timer.extracted.tail ++
    b.timer.cbMap.entries ++ b.cancelled)
  rw [List.append_assoc b.called, take_one_append_tail]
  exact h.places

theorem Accounted.step {b : Book κ} (h : b.Accounted) (op : Op κ) : (b.step op).Accounted := by
  cases op with
  | wait forUs cb nowUs => exact h.wait forUs cb nowUs
  | cancel id => exact h.cancel id
  | extract nowUs => exact h.extract nowUs
  | call => exact h.call

theorem Accounted.run {b : Book κ} (h : b.Accounted) (ops : List (Op κ)) :
    (b.run ops).Accounted := by
  induction ops generalizing b with
  | nil => exact h
  | cons op ops ih => exact ih (h.step op)

/-- **Every callback has one fate**: in every run, the callbacks that were asked for, each
with an identifier of its own, are those that have been called, those that `schedule` is
about to call, those that wait and those that were cancelled; none is lost or doubled. -/
theorem callbacks_accounted (ops : List (Op κ)) :
    let b := ({} : Book κ).run ops
    b.issued.Perm (b.called ++ b.timer.extracted ++ b.timer.cbMap.entries ++ b.cancelled) ∧
      (ids b.issued).Nodup :=
  ⟨(Accounted.new.run ops).places, (Accounted.new.run ops).nodup⟩

/-! ## What `cancel` answers -/

theorem cancelled_prefix_step (b : Book κ) (op : Op κ) : b.cancelled <+: (b.step op).cancelled := by
  cases op with
  | cancel id => exact List.prefix_append _ _
  | _ => exact List.prefix_rfl

theorem cancelled_prefix_run (b : Book κ) (ops : List (Op κ)) :
    b.cancelled <+: (b.run ops).cancelled := by
  induction ops generalizing b with
  | nil => exact List.prefix_rfl
  | cons op ops ih => exact (b.cancelled_prefix_step op).trans (ih (b.step op))

/-- What was cancelled is in no other place. -/
theorem Accounted.not_called {b : Book κ} (h : b.Accounted) {id : TimerId}
    (hid : id ∈ ids b.cancelled) : id ∉ ids b.called ∧ id ∉ ids b.timer.extracted := by
  have hnodup : (ids (b.called ++ b.timer.extracted ++ b.timer.cbMap.entries ++
      b.cancelled)).Nodup := (h.places.map Prod.fst).nodup_iff.mp h.nodup
  rw [ids, List.map_append, List.nodup_append] at hnodup
  constructor
  · intro hcalled
    refine hnodup.2.2 id ?_ id hid rfl
    rw [List.map_append, List.map_append]
    exact List.mem_append_left _ (List.mem_append_left _ hcalled)
  · intro hextracted
    refine hnodup.2.2 id ?_ id hid rfl
    rw [List.map_append, List.map_append]
    exact List.mem_append_left _ (List.mem_append_right _ hextracted)

/-- **What `cancel` answers**: for an identifier that was given out, it answers true if and
only if the callback was not cancelled before, is not called and is not about to be; and
then it is not called in any run that follows. -/
theorem cancel_sound (ops : List (Op κ)) (id : TimerId)
    (hid : id ∈ ids (({} : Book κ).run ops).issued) :
    let b := ({} : Book κ).run ops
    ((b.timer.cancel id).2 = true ↔
        id ∉ ids b.called ∧ id ∉ ids b.timer.extracted ∧ id ∉ ids b.cancelled) ∧
      ((b.timer.cancel id).2 = true → ∀ more : List (Op κ),
        id ∉ ids ((b.step (.cancel id)).run more).called) := by
  intro b
  have hacc : b.Accounted := Accounted.new.run ops
  have hperm : (ids b.issued).Perm (ids (b.called ++ b.timer.extracted ++ b.timer.cbMap.entries ++
      b.cancelled)) := hacc.places.map Prod.fst
  have hnodup := hperm.nodup_iff.mp hacc.nodup
  have hall : ids (b.called ++ b.timer.extracted ++ b.timer.cbMap.entries ++ b.cancelled) =
      ids b.called ++ (ids b.timer.extracted ++ (b.timer.cbMap.keys ++ ids b.cancelled)) := by
    simp only [ids, OrderedMap.keys, List.map_append, List.append_assoc]
  rw [hall] at hperm hnodup
  have hmem : id ∈ ids b.called ∨ id ∈ ids b.timer.extracted ∨ id ∈ b.timer.cbMap.keys ∨
      id ∈ ids b.cancelled := by
    have hin := hperm.mem_iff.mp hid
    rwa [List.mem_append, List.mem_append, List.mem_append] at hin
  obtain ⟨-, hrest, hcalled⟩ := List.nodup_append.mp hnodup
  obtain ⟨-, hlast, hextracted⟩ := List.nodup_append.mp hrest
  obtain ⟨-, -, hkeys⟩ := List.nodup_append.mp hlast
  constructor
  · show decide (id ∈ b.timer.cbMap.keys) = true ↔ _
    rw [decide_eq_true_eq]
    constructor
    · intro hkey
      have hin := List.mem_append_left (ids b.cancelled) hkey
      refine ⟨fun hc => ?_, fun he => ?_, fun hc => ?_⟩
      · exact hcalled id hc id (List.mem_append_right _ hin) rfl
      · exact hextracted id he id hin rfl
      · exact hkeys id hkey id hc rfl
    · rintro ⟨hnc, hne, hnx⟩
      rcases hmem with hc | he | hk | hx
      · exact absurd hc hnc
      · exact absurd he hne
      · exact hk
      · exact absurd hx hnx
  · intro htrue more
    have hkey : id ∈ b.timer.cbMap.keys := of_decide_eq_true htrue
    have hcancelled : id ∈ ids (b.step (.cancel id)).cancelled := by
      obtain ⟨e, he, rfl⟩ := List.mem_map.mp hkey
      refine List.mem_map_of_mem (List.mem_append_right _ (List.mem_filter.mpr ⟨he, ?_⟩))
      exact decide_eq_true rfl
    have hstays := ((b.step (.cancel id)).cancelled_prefix_run more).subset
    have hlater : id ∈ ids ((b.step (.cancel id)).run more).cancelled := by
      obtain ⟨e, he, rfl⟩ := List.mem_map.mp hcancelled
      exact List.mem_map_of_mem (hstays he)
    exact (((hacc.step _).run more).not_called hlater).1

/-- A callback that waits is cancelled, while another is about to be called. -/
theorem cancel_sound_waiting :
    let ops : List (Op Nat) := [.wait 100 7 0, .wait 50 8 10, .extract 60]
    let b := ({} : Book Nat).run ops
    (b.timer.cancel (toLex (100, 0))).2 = true ∧ (b.timer.cancel (toLex (60, 1))).2 = false ∧
      ((b.timer.cancel (toLex (100, 0))).2 = true → ∀ more : List (Op Nat),
        toLex (100, 0) ∉ ids ((b.step (.cancel (toLex (100, 0)))).run more).called) :=
  ⟨by decide, by decide, (cancel_sound [.wait 100 7 0, .wait 50 8 10, .extract 60] (toLex (100, 0))
    (by decide)).2⟩

/-! ## The order of the calls -/

/-- Times do not go back, and nobody waits for less than no time. -/
def Clock : Int → List (Op κ) → Prop
  | _, [] => True
  | now, .wait forUs _ nowUs :: ops => now ≤ nowUs ∧ 0 ≤ forUs ∧ Clock nowUs ops
  | now, .extract nowUs :: ops => now ≤ nowUs ∧ Clock nowUs ops
  | now, .cancel _ :: ops => Clock now ops
  | now, .call :: ops => Clock now ops

/-- What was called or taken out was due at `now`, and everything is in order. -/
structure InOrder (now : Int) (b : Book κ) : Prop where
  order : (b.called ++ b.timer.extracted ++ b.timer.cbMap.entries).Pairwise fun e f => e.1 < f.1
  due : ∀ e ∈ b.called ++ b.timer.extracted, e.1.deadline ≤ now
  fresh : ∀ e ∈ b.called ++ b.timer.extracted ++ b.timer.cbMap.entries, e.1.ctr < b.timer.timerCtr

theorem InOrder.mono {now later : Int} {b : Book κ} (h : b.InOrder now) (hle : now ≤ later) :
    b.InOrder later :=
  ⟨h.order, fun e he => (h.due e he).trans hle, h.fresh⟩

/-- What is asked for at `now` or later comes behind what was due. -/
theorem lt_of_due {now : Int} {id : TimerId} {ctr : Nat} (hdue : id.deadline ≤ now)
    (hctr : id.ctr < ctr) {deadline : Int} (hle : now ≤ deadline) :
    id < toLex (deadline, ctr) := by
  rw [Prod.Lex.lt_iff]
  rcases lt_or_eq_of_le (hdue.trans hle) with hlt | heq
  · exact Or.inl hlt
  · exact Or.inr ⟨heq, hctr⟩

theorem InOrder.wait {now : Int} {b : Book κ} (h : b.InOrder now) {forUs : Int} (cb : κ)
    {nowUs : Int} (hnow : now ≤ nowUs) (hfor : 0 ≤ forUs) :
    (b.step (.wait forUs cb nowUs)).InOrder nowUs := by
  have hlate : ∀ e ∈ b.called ++ b.timer.extracted,
      e.1 < toLex (nowUs + forUs, b.timer.timerCtr) := by
    intro e he
    exact lt_of_due (h.due e he) (h.fresh e (List.mem_append_left _ he)) (by omega)
  obtain ⟨hfront, hmap, hcross⟩ := List.pairwise_append.mp h.order
  refine ⟨?_, fun e he => (h.due e he).trans hnow, fun e he => ?_⟩
  · refine List.pairwise_append.mpr ⟨hfront, OrderedMap.place_sorted _ hmap, ?_⟩
    intro e he f hf
    rcases OrderedMap.mem_place hf with rfl | hf
    · exact hlate e he
    · exact hcross e he f hf
  · show e.1.ctr < b.timer.timerCtr + 1
    rcases List.mem_append.mp he with hold | hmap
    · exact Nat.lt_succ_of_lt (h.fresh e (List.mem_append_left _ hold))
    · rcases OrderedMap.mem_place hmap with rfl | hold
      · exact Nat.lt_succ_self _
      · exact Nat.lt_succ_of_lt (h.fresh e (List.mem_append_right _ hold))

theorem InOrder.cancel {now : Int} {b : Book κ} (h : b.InOrder now) (id : TimerId) :
    (b.step (.cancel id)).InOrder now := by
  have hsub : (b.called ++ b.timer.extracted ++ (b.timer.cbMap.erase id).entries).Sublist
      (b.called ++ b.timer.extracted ++ b.timer.cbMap.entries) :=
    List.Sublist.append_left (List.filter_sublist) _
  exact ⟨h.order.sublist hsub, h.due, fun e he => h.fresh e (hsub.subset he)⟩

theorem InOrder.extract {now : Int} {b : Book κ} (h : b.InOrder now) {nowUs : Int}
    (hnow : now ≤ nowUs) : (b.step (.extract nowUs)).InOrder nowUs := by
  show InOrder nowUs { b with timer := b.timer.extract nowUs }
  unfold Timer.extract
  split_ifs with hempty
  · have hnil := List.isEmpty_iff.mp hempty
    have hall : b.called ++ b.timer.cbMap.lower (Timer.due nowUs) ++
        (b.timer.cbMap.upper (Timer.due nowUs)).entries =
        b.called ++ b.timer.extracted ++ b.timer.cbMap.entries := by
      rw [List.append_assoc, OrderedMap.lower_append_upper, hnil, List.append_nil]
    refine ⟨?_, fun e he => ?_, fun e he => ?_⟩
    · show (b.called ++ b.timer.cbMap.lower (Timer.due nowUs) ++
        (b.timer.cbMap.upper (Timer.due nowUs)).entries).Pairwise _
      rw [hall]
      exact h.order
    · rcases List.mem_append.mp he with hcalled | hlower
      · exact (h.due e (List.mem_append_left _ hcalled)).trans hnow
      · have hdue : Timer.due nowUs e.1 = true := OrderedMap.of_mem_lower hlower
        exact of_decide_eq_true hdue
    · change e ∈ b.called ++ b.timer.cbMap.lower (Timer.due nowUs) ++
        (b.timer.cbMap.upper (Timer.due nowUs)).entries at he
      rw [hall] at he
      exact h.fresh e he
  · exact h.mono hnow

theorem InOrder.call {now : Int} {b : Book κ} (h : b.InOrder now) : (b.step .call).InOrder now := by
  have hfront : b.called ++ b.timer.extracted.take 1 ++ b.timer.extracted.tail =
      b.called ++ b.timer.extracted := by
    rw [List.append_assoc, take_one_append_tail]
  refine ⟨?_, fun e he => ?_, fun e he => ?_⟩
  · show (b.called ++ b.timer.extracted.take 1 ++ b.timer.extracted.tail ++
      b.timer.cbMap.entries).Pairwise _
    rw [hfront]
    exact h.order
  · change e ∈ b.called ++ b.timer.extracted.take 1 ++ b.timer.extracted.tail at he
    rw [hfront] at he
    exact h.due e he
  · change e ∈ b.called ++ b.timer.extracted.take 1 ++ b.timer.extracted.tail ++
      b.timer.cbMap.entries at he
    rw [hfront] at he
    exact h.fresh e he

/-- The time at the end of a run. -/
def clock : Int → List (Op κ) → Int
  | now, [] => now
  | _, .wait _ _ nowUs :: ops => clock nowUs ops
  | _, .extract nowUs :: ops => clock nowUs ops
  | now, .cancel _ :: ops => clock now ops
  | now, .call :: ops => clock now ops

theorem InOrder.run {now : Int} {b : Book κ} (h : b.InOrder now) {ops : List (Op κ)}
    (hclock : Clock now ops) : (b.run ops).InOrder (clock now ops) := by
  induction ops generalizing b now with
  | nil => exact h
  | cons op ops ih =>
      cases op with
      | wait forUs cb nowUs => exact ih (h.wait cb hclock.1 hclock.2.1) hclock.2.2
      | cancel id => exact ih (h.cancel id) hclock
      | extract nowUs => exact ih (h.extract hclock.1) hclock.2
      | call => exact ih h.call hclock

theorem InOrder.new (now : Int) : InOrder now ({} : Book κ) :=
  ⟨List.Pairwise.nil, fun _ he => (List.not_mem_nil he).elim,
    fun _ he => (List.not_mem_nil he).elim⟩

/-- **Calls come in order, and not early**: under a clock that does not go back, whatever is
waited for and cancelled in between, callbacks are called in the order of their deadlines,
and in the order in which they came where deadlines are the same; everything that is still
there comes behind what was called, and what was called was due. -/
theorem called_in_order (now : Int) (ops : List (Op κ)) (hclock : Clock now ops) :
    let b := ({} : Book κ).run ops
    (b.called ++ b.timer.extracted ++ b.timer.cbMap.entries).Pairwise (fun e f => e.1 < f.1) ∧
      ∀ e ∈ b.called, e.1.deadline ≤ clock now ops := by
  have h := (InOrder.new now).run hclock
  exact ⟨h.order, fun e he => h.due e (List.mem_append_left _ he)⟩

/-- A shorter wait that comes later is called first. -/
theorem called_in_order_overtaking :
    let ops : List (Op Nat) :=
      [.wait 100 7 0, .wait 50 8 10, .extract 60, .call, .extract 200, .call]
    let b := ({} : Book Nat).run ops
    b.called = [(toLex (60, 1), 8), (toLex (100, 0), 7)] ∧
      (b.called ++ b.timer.extracted ++ b.timer.cbMap.entries).Pairwise (fun e f => e.1 < f.1) ∧
      ∀ e ∈ b.called, e.1.deadline ≤ clock 0 ops :=
  ⟨rfl, called_in_order 0 _ ⟨by decide, by decide, by decide, by decide, by decide, by decide,
    trivial⟩⟩

/-! ## Nothing stays behind -/

/-- **A pass of `schedule` takes what is due, and all of it.** -/
theorem extract_exact (b : Book κ) (nowUs : Int) (h : b.timer.extracted = []) :
    let b' := b.step (.extract nowUs)
    (∀ e ∈ b'.timer.extracted, e.1.deadline ≤ nowUs) ∧
      (∀ e ∈ b'.timer.cbMap.entries, nowUs < e.1.deadline) ∧
      b'.timer.extracted ++ b'.timer.cbMap.entries = b.timer.cbMap.entries := by
  have hstep : b.timer.extract nowUs =
      { b.timer with
        cbMap := b.timer.cbMap.upper (Timer.due nowUs)
        extracted := b.timer.cbMap.lower (Timer.due nowUs) } := by
    unfold Timer.extract
    rw [h]
    rfl
  show (∀ e ∈ (b.timer.extract nowUs).extracted, _) ∧ (∀ e ∈ (b.timer.extract nowUs).cbMap.entries,
    _) ∧ (b.timer.extract nowUs).extracted ++ (b.timer.extract nowUs).cbMap.entries = _
  rw [hstep]
  refine ⟨fun e he => ?_, fun e he => ?_, OrderedMap.lower_append_upper _ _⟩
  · have hdue : Timer.due nowUs e.1 = true := OrderedMap.of_mem_lower he
    exact of_decide_eq_true hdue
  · have hmono : ∀ id id' : TimerId, id < id' → Timer.due nowUs id' = true →
        Timer.due nowUs id = true := by
      intro id id' hlt hdue
      have hle : id.deadline ≤ id'.deadline := by
        rcases Prod.Lex.lt_iff.mp hlt with hlt | ⟨heq, _⟩
        · exact le_of_lt hlt
        · exact le_of_eq heq
      exact decide_eq_true (hle.trans (of_decide_eq_true hdue))
    have hnot : Timer.due nowUs e.1 = false := OrderedMap.not_lower_of_mem_upper hmono he
    exact not_le.mp (of_decide_eq_false hnot)

end Book

end Winject.Bfc
