import Winject.Pdcp.Records

/-!
# The status of the downlink

`on_pdcp_data` writes `status` where it fails, and nowhere else: a call that succeeds
leaves the code of an earlier failure in place, until `reset` or `reconfigure`.

## Main results

* `statusTracks_iff` — when the status behind a call is that of the call.
* `status_tracks_calls_iff` — the same for the calls of a run.
-/

namespace Winject.Pdcp

open Winject.Frames
open Winject.Lib.Runs

namespace PdcpDlConfig

/-- The failure of a call on some bytes, if there is one. -/
def failure (cfg : PdcpDlConfig) (pdcp : List UInt8) : Option DlStatus :=
  if pdcp.isEmpty then some .inputEmpty else (cfg.parse pdcp).bind Prod.snd

/-- A call on the bytes returns true. -/
def Accepts (cfg : PdcpDlConfig) (pdcp : List UInt8) : Prop :=
  pdcp ≠ [] ∧ ∃ gs, cfg.parse pdcp = some (gs, none)

theorem parseStep_error_ne {cfg : PdcpDlConfig} {bytes : List UInt8} {status : DlStatus}
    (h : cfg.parseStep bytes = .error status) : status ≠ .success := by
  unfold parseStep at h
  dsimp only at h
  split_ifs at h <;> cases h <;> decide

/-- A failure has a code of its own. -/
theorem parse_failure_ne {cfg : PdcpDlConfig} {bytes : List UInt8} {gs : List Received}
    {status : DlStatus} (h : cfg.parse bytes = some (gs, some status)) :
    status ≠ .success := by
  induction hn : bytes.length using Nat.strongRecOn generalizing bytes gs with
  | _ n ih =>
      rw [parse] at h
      split_ifs at h with hempty
      · cases h
      · cases hstep : cfg.parseStep bytes with
        | error code =>
            rw [hstep] at h
            cases h
            exact parseStep_error_ne hstep
        | ok r =>
            obtain ⟨g, rest⟩ := r
            rw [hstep] at h
            dsimp only at h
            split_ifs at h with hlt
            obtain ⟨⟨gs', failure⟩, hrest, heq⟩ := Option.map_eq_some_iff.mp h
            cases heq
            exact ih rest.length (hn ▸ hlt) hrest rfl

end PdcpDlConfig

namespace PdcpDl

@[simp] theorem foldl_rxReceived_status (gs : List Received) (d : PdcpDl) :
    (gs.foldl rxReceived d).status = d.status := by
  induction gs generalizing d with
  | nil => rfl
  | cons g gs ih => rw [List.foldl_cons, ih, (d.rxReceived_delivers g).2.1]

@[simp] theorem flush_status (d : PdcpDl) : d.flushCompletedInOrder.status = d.status :=
  flush_invariant (P := fun e => e.status = d.status)
    (fun _ _ he hstep => (flushStep_delivers hstep).2.1.trans he) rfl

/-- Behind the call the status is success iff it returned true, and else the code of
its failure. -/
def StatusTracks (d : PdcpDl) (call : DlCall) : Prop :=
  ∀ pdcp d' returned, call = .data pdcp → d.onPdcpData pdcp = some (d', returned) →
    (d'.status = .success ↔ returned = true) ∧
      (returned = false → d.config.failure pdcp = some d'.status)

/-- The call is not one that succeeds behind an old failure. -/
def NotStale (d : PdcpDl) (call : DlCall) : Prop :=
  ∀ pdcp, call = .data pdcp → d.config.Accepts pdcp → d.status = .success

/-- **The status behind a call** is that of the call unless the call succeeds and finds
the code of an earlier failure. -/
theorem statusTracks_iff (d : PdcpDl) (call : DlCall) : d.StatusTracks call ↔ d.NotStale call := by
  constructor
  · rintro h pdcp rfl ⟨hne, gs, hparse⟩
    have hcall := d.onPdcpData_eq hne
    rw [hparse] at hcall
    have hstatus := ((h pdcp _ _ rfl hcall).1.mpr rfl)
    split_ifs at hstatus
    · rwa [flush_status, foldl_rxReceived_status] at hstatus
    · rwa [foldl_rxReceived_status] at hstatus
  · rintro h pdcp d' returned rfl hcall
    rcases d.onPdcpData_cases pdcp with ⟨-, -, hnone⟩ | ⟨rfl, hsome⟩ |
        ⟨gs, status, hne, hparse, hsome⟩ | ⟨gs, hne, hparse, hsome⟩
    · rw [hnone] at hcall
      cases hcall
    · rw [hsome] at hcall
      cases hcall
      exact ⟨⟨(fun hs => by cases hs), (fun hs => by cases hs)⟩, fun _ => rfl⟩
    · rw [hsome] at hcall
      cases hcall
      have hcode := PdcpDlConfig.parse_failure_ne hparse
      refine ⟨⟨fun hs => absurd hs hcode, (fun hs => by cases hs)⟩, fun _ => ?_⟩
      unfold PdcpDlConfig.failure
      rw [if_neg (by rwa [List.isEmpty_iff]), hparse]
      rfl
    · have hclear := h pdcp rfl ⟨hne, gs, hparse⟩
      rw [hsome] at hcall
      cases hcall
      refine ⟨⟨fun _ => rfl, fun _ => ?_⟩, (fun hs => by cases hs)⟩
      split_ifs
      · rw [flush_status, foldl_rxReceived_status, hclear]
      · rw [foldl_rxReceived_status, hclear]

/-- **In every run** the status tracks each call iff no call succeeds behind an old
failure. -/
theorem status_tracks_calls_iff (d : PdcpDl) (calls : List DlCall) :
    Calls dlCall StatusTracks d calls ↔ Calls dlCall NotStale d calls :=
  calls_iff (I := fun _ => True) (fun _ _ _ _ _ => trivial)
    (fun e call _ => e.statusTracks_iff call) trivial

/-- An empty PDU, and then a well-formed one: the second call returns true, and the
status is that of the first. -/
theorem stale_status :
    ¬ Calls dlCall StatusTracks (init {}) [.data [], .data [0x80, 3, 7]] := by
  have hread : ({} : PdcpDlConfig).parseStep [0x80, 3, 7] =
      .ok (({} : PdcpDlConfig).layout.received [0x80, 3, 7], []) :=
    PdcpDlConfig.parseStep_ok_iff.mpr ⟨by decide, by decide, by decide, rfl, by decide⟩
  have hparse : ∃ gs, ({} : PdcpDlConfig).parse [0x80, 3, 7] = some (gs, none) := by
    rw [PdcpDlConfig.parse_of_ok hread (by decide), PdcpDlConfig.parse_nil]
    exact ⟨_, rfl⟩
  intro h
  have hsecond := (h.2 _ rfl).1
  rw [statusTracks_iff] at hsecond
  have hstale := hsecond _ rfl ⟨List.cons_ne_nil _ _, hparse⟩
  cases hstale

end PdcpDl

end Winject.Pdcp
