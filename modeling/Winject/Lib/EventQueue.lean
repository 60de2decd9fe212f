import Mathlib.Data.List.Basic

/-!
# A queue with a wake-up count

Any number of threads put items on a queue, and count up an event file descriptor under the
same lock.  One thread waits for a count, takes it back to zero, moves the queue out in one
piece and works on what it has moved.  The three parts of that are steps of their own, and
the steps of all threads come in any order.

## Main results

* `account` — in every run, what has been worked on, what has been moved out and what is on
  the queue are the items that were put, in that order.
* `Awake.step` — an item on the queue is announced: no wake-up is lost.
* `Awake.drains` — the working thread gets to the end of what is there.
-/

namespace Winject.Lib.EventQueue

variable {α : Type}

/-- Where the working thread is. -/
inductive Phase (α : Type) where
  | polling
  | woken
  | working (batch : List α)
  deriving DecidableEq, Repr

/-- The queue, the count behind the descriptor and the working thread. -/
structure Mailbox (α : Type) where
  queue : List α := []
  count : Nat := 0
  phase : Phase α := .polling
  deriving DecidableEq, Repr

/-- A step of one of the threads. -/
inductive Act (α : Type) where
  | put (a : α)
  | wake
  | take
  | work
  deriving DecidableEq, Repr

namespace Mailbox

/-- An item is put, and the count goes up. -/
def put (m : Mailbox α) (a : α) : Mailbox α :=
  { m with queue := m.queue ++ [a], count := m.count + 1 }

/-- The working thread finds a count, and reads it. -/
def wake (m : Mailbox α) : Mailbox α :=
  if m.phase matches .polling then
    if m.count = 0 then m else { m with count := 0, phase := .woken }
  else m

/-- It moves the queue out. -/
def take (m : Mailbox α) : Mailbox α :=
  match m.phase with
  | .woken => { m with queue := [], phase := .working m.queue }
  | _ => m

/-- The item that it works on next. -/
def next (m : Mailbox α) : Option α :=
  match m.phase with
  | .working (a :: _) => some a
  | _ => none

/-- It goes on behind that item, or back to waiting. -/
def work (m : Mailbox α) : Mailbox α :=
  match m.phase with
  | .working (_ :: batch) => { m with phase := .working batch }
  | .working [] => { m with phase := .polling }
  | _ => m

/-- One step. -/
def step (m : Mailbox α) : Act α → Mailbox α
  | .put a => m.put a
  | .wake => m.wake
  | .take => m.take
  | .work => m.work

/-- What the working thread has moved out and not worked on. -/
def batch (m : Mailbox α) : List α :=
  match m.phase with
  | .working batch => batch
  | _ => []

/-- What has been put and not worked on. -/
def pending (m : Mailbox α) : List α := m.batch ++ m.queue

/-- A run. -/
def run (m : Mailbox α) (acts : List (Act α)) : Mailbox α := acts.foldl step m

/-- The items that are put in a run. -/
def puts (acts : List (Act α)) : List α :=
  acts.filterMap fun act => match act with
    | .put a => some a
    | _ => none

/-- The items that are worked on in a run. -/
def worked (m : Mailbox α) : List (Act α) → List α
  | [] => []
  | .work :: acts => m.next.toList ++ m.work.worked acts
  | act :: acts => (m.step act).worked acts

/-! ## Nothing is lost, doubled or overtaken -/

theorem put_pending (m : Mailbox α) (a : α) : (m.put a).pending = m.pending ++ [a] :=
  (List.append_assoc ..).symm

theorem wake_pending (m : Mailbox α) : m.wake.pending = m.pending := by
  obtain ⟨queue, count, phase⟩ := m
  cases phase with
  | polling =>
      unfold wake
      split_ifs <;> rfl
  | woken => rfl
  | working batch => rfl

theorem take_pending (m : Mailbox α) : m.take.pending = m.pending := by
  obtain ⟨queue, count, phase⟩ := m
  cases phase with
  | polling => rfl
  | woken => exact List.append_nil queue
  | working batch => rfl

theorem work_pending (m : Mailbox α) : m.next.toList ++ m.work.pending = m.pending := by
  obtain ⟨queue, count, phase⟩ := m
  cases phase with
  | polling => rfl
  | woken => rfl
  | working batch => cases batch <;> rfl

/-- What was worked on comes first, and what is pending behind it. -/
theorem account (m : Mailbox α) (acts : List (Act α)) :
    m.worked acts ++ (m.run acts).pending = m.pending ++ puts acts := by
  induction acts generalizing m with
  | nil => exact (List.append_nil _).symm
  | cons act acts ih =>
      have htail := ih (m.step act)
      cases act with
      | put a =>
          refine htail.trans ?_
          rw [step, put_pending, List.append_assoc]
          rfl
      | wake =>
          refine htail.trans ?_
          rw [step, wake_pending]
          rfl
      | take =>
          refine htail.trans ?_
          rw [step, take_pending]
          rfl
      | work =>
          show (m.next.toList ++ m.work.worked acts) ++ (m.work.run acts).pending = _
          have hwork : m.work.worked acts ++ (m.work.run acts).pending =
              m.work.pending ++ puts acts := htail
          rw [List.append_assoc, hwork, ← List.append_assoc, work_pending]
          rfl

/-! ## No wake-up is lost -/

/-- A queue that is not empty is announced. -/
def Awake (m : Mailbox α) : Prop := m.queue ≠ [] → m.count ≠ 0 ∨ m.phase = .woken

theorem Awake.step {m : Mailbox α} (h : m.Awake) (act : Act α) : (m.step act).Awake := by
  obtain ⟨queue, count, phase⟩ := m
  cases act with
  | put a => exact fun _ => Or.inl (Nat.succ_ne_zero count)
  | wake =>
      show (wake _).Awake
      unfold wake
      split_ifs
      · exact h
      · exact fun _ => Or.inr rfl
      · exact h
  | take =>
      cases phase with
      | polling => exact h
      | woken => exact fun hne => absurd rfl hne
      | working batch => exact h
  | work =>
      cases phase with
      | polling => exact h
      | woken => exact h
      | working batch =>
          intro hne
          have hcount : count ≠ 0 := (h (by cases batch <;> exact hne)).resolve_right (by simp)
          cases batch <;> exact Or.inl hcount

theorem Awake.run {m : Mailbox α} (h : m.Awake) (acts : List (Act α)) : (m.run acts).Awake := by
  induction acts generalizing m with
  | nil => exact h
  | cons act acts ih => exact ih (h.step act)

/-! ## The working thread gets to the end -/

/-- It works on `n` items and goes back to waiting. -/
def workAll (n : Nat) : List (Act α) := List.replicate (n + 1) .work

/-- From waiting to waiting, when `n` items are there. -/
def round (n : Nat) : List (Act α) := if n = 0 then [] else .wake :: .take :: workAll n

/-- The steps of the working thread until nothing is pending. -/
def drain (m : Mailbox α) : List (Act α) :=
  match m.phase with
  | .polling => round m.queue.length
  | .woken => .take :: workAll m.queue.length
  | .working batch => workAll batch.length ++ round m.queue.length

/-- It works through what it has moved out. -/
theorem run_workAll (batch queue : List α) (count : Nat) :
    run ⟨queue, count, .working batch⟩ (workAll batch.length) = ⟨queue, count, .polling⟩ := by
  induction batch with
  | nil => rfl
  | cons a batch ih => exact ih

/-- Nothing is pending, and the thread waits. -/
def Quiet (m : Mailbox α) : Prop := m.pending = [] ∧ m.phase = .polling

theorem quiet_round {queue : List α} {count : Nat} (h : queue ≠ [] → count ≠ 0) :
    (run ⟨queue, count, .polling⟩ (round queue.length)).Quiet := by
  cases queue with
  | nil => exact ⟨rfl, rfl⟩
  | cons a queue =>
      have hwake : wake ⟨a :: queue, count, .polling⟩ = ⟨a :: queue, 0, .woken⟩ :=
        if_neg (h (List.cons_ne_nil a queue))
      have hrun : run ⟨a :: queue, count, .polling⟩ (round (a :: queue).length) =
          ⟨[], 0, .polling⟩ := by
        show run (take (wake _)) (workAll (a :: queue).length) = _
        rw [hwake]
        exact run_workAll (a :: queue) [] 0
      rw [hrun]
      exact ⟨rfl, rfl⟩

/-- **The end is reached**: on its own steps the working thread gets to where nothing is
pending, and waits. -/
theorem Awake.drains {m : Mailbox α} (h : m.Awake) : (m.run m.drain).Quiet := by
  obtain ⟨queue, count, phase⟩ := m
  cases phase with
  | polling => exact quiet_round fun hne => (h hne).resolve_right (by simp)
  | woken =>
      have hrun : Mailbox.run ⟨queue, count, .woken⟩ (.take :: workAll queue.length) =
          ⟨[], count, .polling⟩ := run_workAll queue [] count
      show (Mailbox.run _ (.take :: workAll queue.length)).Quiet
      rw [hrun]
      exact ⟨rfl, rfl⟩
  | working batch =>
      have happ : Mailbox.run ⟨queue, count, .working batch⟩
          (workAll batch.length ++ round queue.length) =
          Mailbox.run ⟨queue, count, .polling⟩ (round queue.length) := by
        rw [Mailbox.run, List.foldl_append]
        exact congrArg (Mailbox.run · (round queue.length)) (run_workAll batch queue count)
      show (Mailbox.run _ (workAll batch.length ++ round queue.length)).Quiet
      rw [happ]
      exact quiet_round fun hne => (h hne).resolve_right (by simp)

/-- The working thread puts nothing. -/
theorem drain_ne_put (m : Mailbox α) : ∀ act ∈ m.drain, ∀ a, act ≠ .put a := by
  have hwork : ∀ n, ∀ act ∈ (workAll n : List (Act α)), ∀ a, act ≠ .put a := by
    intro n act hact a
    rw [List.eq_of_mem_replicate hact]
    exact fun h => by cases h
  have hround : ∀ n, ∀ act ∈ (round n : List (Act α)), ∀ a, act ≠ .put a := by
    intro n act hact a
    unfold round at hact
    split_ifs at hact
    · cases hact
    · rcases List.mem_cons.mp hact with rfl | hact
      · exact fun h => by cases h
      · rcases List.mem_cons.mp hact with rfl | hact
        · exact fun h => by cases h
        · exact hwork n act hact a
  obtain ⟨queue, count, phase⟩ := m
  intro act hact a
  cases phase with
  | polling => exact hround _ act hact a
  | woken =>
      rcases List.mem_cons.mp hact with rfl | hact
      · exact fun h => by cases h
      · exact hwork _ act hact a
  | working batch =>
      rcases List.mem_append.mp hact with hact | hact
      · exact hwork _ act hact a
      · exact hround _ act hact a

/-- What is worked on until then is what was pending. -/
theorem Awake.worked_drain {m : Mailbox α} (h : m.Awake) : m.worked m.drain = m.pending := by
  have hputs : puts m.drain = [] := by
    refine List.filterMap_eq_nil_iff.mpr fun act hact => ?_
    cases act with
    | put a => exact absurd rfl (m.drain_ne_put _ hact a)
    | _ => rfl
  have hall := m.account m.drain
  rwa [h.drains.1, hputs, List.append_nil, List.append_nil] at hall

end Mailbox

end Winject.Lib.EventQueue
