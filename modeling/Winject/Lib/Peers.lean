import Mathlib.Logic.Function.Basic

/-!
# Two peers over a lossy network

A `Protocol` is one party: what its own events do, what a message does, and the
log of the messages it has sent.  Two parties run side by side, and the network
delivers any message of a log to the other side, at any time and any number of
times: messages are lost, delayed, duplicated and reordered.

## Main results

* `Protocol.invariant_step`, `Protocol.invariant_run` — an invariant of each party
  that relies on what the other one sends.
* `Protocol.run_own` — a run of one side's own events.
-/

namespace Winject.Lib.Peers

/-- The two sides. -/
inductive Side where
  | near
  | far
  deriving DecidableEq, Repr

/-- The other side. -/
def Side.other : Side → Side
  | .near => .far
  | .far => .near

@[simp] theorem Side.other_other (s : Side) : s.other.other = s := by
  cases s <;> rfl

@[simp] theorem Side.other_ne (s : Side) : s.other ≠ s := by
  cases s <;> decide

/-- One party, with states `σ`, messages `μ` and events `ε` of its own. -/
structure Protocol (σ μ ε : Type) where
  own : σ → ε → σ
  receive : σ → μ → σ
  sent : σ → List μ

/-- A side has an event of its own, or receives message `k` of the other's log. -/
inductive PeerEvent (ε : Type) where
  | own (s : Side) (e : ε)
  | deliver (s : Side) (k : Nat)
  deriving DecidableEq, Repr

namespace Protocol

variable {σ μ ε : Type} (P : Protocol σ μ ε)

/-- One event of the two parties. -/
def step (p : Side → σ) : PeerEvent ε → Side → σ
  | .own s e => Function.update p s (P.own (p s) e)
  | .deliver s k =>
    match (P.sent (p s.other))[k]? with
    | none => p
    | some m => Function.update p s (P.receive (p s) m)

/-- A run. -/
def run (p : Side → σ) (es : List (PeerEvent ε)) : Side → σ := es.foldl P.step p

theorem run_append (p : Side → σ) (es fs : List (PeerEvent ε)) :
    P.run p (es ++ fs) = P.run (P.run p es) fs := List.foldl_append ..

/-- A delivery of a message that has been sent. -/
theorem step_deliver {p : Side → σ} {s : Side} {k : Nat} {m : μ}
    (h : (P.sent (p s.other))[k]? = some m) :
    P.step p (.deliver s k) = Function.update p s (P.receive (p s) m) := by
  simp only [step, h]

/-! ## Invariants -/

section Invariant

variable {P} {I : Side → σ → Prop} {M : Side → μ → Prop}

/-- Each party keeps its invariant `I` as long as what it receives meets `M`, and
sends only what meets `M`. -/
theorem invariant_step (hsent : ∀ s c, I s c → ∀ m ∈ P.sent c, M s m)
    (hown : ∀ s c e, I s c → I s (P.own c e))
    (hreceive : ∀ s c m, I s c → M s.other m → I s (P.receive c m))
    {p : Side → σ} (h : ∀ s, I s (p s)) (e : PeerEvent ε) (s : Side) :
    I s (P.step p e s) := by
  have hupdate : ∀ (r : Side) (c : σ), I r c → I s (Function.update p r c s) := by
    intro r c hc
    by_cases hrs : s = r
    · subst hrs
      rwa [Function.update_self]
    · rw [Function.update_of_ne hrs]
      exact h s
  cases e with
  | own r e => exact hupdate r _ (hown r _ e (h r))
  | deliver r k =>
      cases hm : (P.sent (p r.other))[k]? with
      | none =>
          simp only [step, hm]
          exact h s
      | some m =>
          rw [P.step_deliver hm]
          have hmsg : M r.other m := hsent r.other _ (h r.other) m (List.mem_of_getElem? hm)
          exact hupdate r _ (hreceive r _ m (h r) hmsg)

theorem invariant_run (hsent : ∀ s c, I s c → ∀ m ∈ P.sent c, M s m)
    (hown : ∀ s c e, I s c → I s (P.own c e))
    (hreceive : ∀ s c m, I s c → M s.other m → I s (P.receive c m))
    (es : List (PeerEvent ε)) {p : Side → σ} (h : ∀ s, I s (p s)) (s : Side) :
    I s (P.run p es s) := by
  induction es generalizing p with
  | nil => exact h s
  | cons e es ih => exact ih (invariant_step hsent hown hreceive h e)

end Invariant

/-! ## One side alone -/

/-- The events of one side. -/
theorem run_own (p : Side → σ) (s : Side) (es : List ε) :
    P.run p (es.map (.own s)) = Function.update p s (es.foldl P.own (p s)) := by
  induction es generalizing p with
  | nil => exact (Function.update_eq_self s p).symm
  | cons e es ih =>
      show P.run (Function.update p s (P.own (p s) e)) (es.map (.own s)) = _
      rw [ih, Function.update_self, Function.update_idem]
      rfl

end Protocol

end Winject.Lib.Peers
