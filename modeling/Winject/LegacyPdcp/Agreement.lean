import Winject.LegacyPdcp.Tx

/-!
# The two PDCP transmitters write the same bytes

`txOutputs` and `ulOutputs` are what the grants of a run get from `PDCP` and
from `pdcp_ul`: the number of bytes and these bytes.  A run of one is a run of
the other with the calls renamed.

## Main results

* `txOutputs_eq_of_sim` — from related states on.
* `onTx_agrees_writePdcp` — from the initial states.
-/

namespace Winject.LegacyPdcp

open Winject.Frames
open Winject.Pdcp

/-- The same call on the uplink. -/
def TxOp.toUl : TxOp → UlOp
  | .submit packet => .frame packet
  | .grant buffer => .write buffer

/-- What each grant of a run gets from `PDCP::on_tx`: `out_allocated` and the
bytes counted in it. -/
def txOutputs (t : PdcpTx) : List TxOp → List (Nat × List UInt8)
  | [] => []
  | .submit packet :: ops => txOutputs (t.toTx packet).1 ops
  | .grant buffer :: ops =>
    let (t', info) := t.onTx { outPdu := buffer }
    (info.outAllocated, info.outPdu.take info.outAllocated) :: txOutputs t' ops

/-- What each grant of a run gets from `pdcp_ul::write_pdcp`, with a failed call
read as zero bytes. -/
def ulOutputs (u : PdcpUl) : List UlOp → List (Nat × List UInt8)
  | [] => []
  | .frame packet :: ops => ulOutputs (u.onFrameData packet).1 ops
  | .write buffer :: ops =>
    let r := u.writePdcp buffer
    (r.count.getD 0, r.buffer.take (r.count.getD 0)) :: ulOutputs r.ul ops

/-- The queue of `PDCP` has room at every `to_tx` of a run. -/
def NeverFull (t : PdcpTx) : List TxOp → Prop
  | [] => True
  | .submit packet :: ops =>
    t.toTxQueue.length < t.config.maxTxQueueSize ∧ NeverFull (t.toTx packet).1 ops
  | .grant buffer :: ops => NeverFull (t.onTx { outPdu := buffer }).1 ops

/-- A packet that is not empty and has at most 65535 bytes, or a grant of 1 to
32767 bytes. -/
def AgreementOp : TxOp → Prop
  | .submit packet => FrameOk packet
  | .grant buffer => 1 ≤ buffer.length ∧ buffer.length ≤ 32767

instance (op : TxOp) : Decidable (AgreementOp op) :=
  match op with
  | .submit packet => inferInstanceAs (Decidable (FrameOk packet))
  | .grant buffer => inferInstanceAs (Decidable (1 ≤ buffer.length ∧ buffer.length ≤ 32767))

/-- The two outputs of one grant are the same. -/
theorem grant_output_eq {t : PdcpTx} {u : PdcpUl} {cfg : PdcpUlConfig}
    {frames : List (List UInt8)} {pos : Nat × Nat} (h : TxSim t u)
    (hat : UlAt cfg frames pos u) (hframes : ∀ f ∈ frames, FrameOk f)
    {buffer : List UInt8} (hlimit : buffer.length ≤ 32767) :
    let info := (t.onTx { outPdu := buffer }).2
    let r := u.writePdcp buffer
    (info.outAllocated, info.outPdu.take info.outAllocated) =
      (r.count.getD 0, r.buffer.take (r.count.getD 0)) := by
  obtain ⟨_, hpdu, hcount⟩ := onTx_sim h hat hframes buffer hlimit
  intro info r
  have hpdu' : info.pdu = r.count.map (fun n => r.buffer.take n) := hpdu
  have hcount' : info.outAllocated = r.count.getD 0 := hcount
  rw [← hcount']
  unfold TxInfo.pdu at hpdu'
  by_cases hzero : info.outAllocated = 0
  · rw [hzero, List.take_zero, List.take_zero]
  · rw [if_neg hzero] at hpdu'
    cases hr : r.count with
    | none =>
        rw [hr] at hpdu'
        cases hpdu'
    | some n =>
        rw [hr] at hpdu' hcount'
        rw [Option.map_some] at hpdu'
        have hbytes := Option.some.inj hpdu'
        have hn : info.outAllocated = n := hcount'
        rw [hbytes, hn]

/-- From related states on, the two transmitters write the same bytes. -/
theorem txOutputs_eq_of_sim (ops : List TxOp) {t : PdcpTx} {u : PdcpUl}
    {cfg : PdcpUlConfig} {frames : List (List UInt8)} {pos : Nat × Nat} (h : TxSim t u)
    (hat : UlAt cfg frames pos u) (hframes : ∀ f ∈ frames, FrameOk f)
    (hops : ∀ op ∈ ops, AgreementOp op) (hfree : NeverFull t ops) :
    txOutputs t ops = ulOutputs u (ops.map TxOp.toUl) := by
  induction ops generalizing t u frames pos with
  | nil => rfl
  | cons op ops ih =>
      have hop := hops op (List.mem_cons_self ..)
      have hrest : ∀ o ∈ ops, AgreementOp o := fun o ho => hops o (List.mem_cons_of_mem _ ho)
      cases op with
      | submit packet =>
          obtain ⟨hroom, hfree'⟩ := hfree
          have htaken : (t.toTx packet).1 =
              { t with toTxQueue := t.toTxQueue ++ [packet] } := by
            unfold PdcpTx.toTx
            rw [if_neg (by omega)]
          show txOutputs (t.toTx packet).1 ops = ulOutputs (u.onFrameData packet).1 _
          rw [htaken] at hfree' ⊢
          apply ih (h.push hop.1) (hat.push hop) _ hrest hfree'
          intro f hf
          rcases List.mem_append.mp hf with hf | hf
          · exact hframes f hf
          · rw [List.mem_singleton.mp hf]
            exact hop
      | grant buffer =>
          obtain ⟨_, hlimit⟩ := hop
          obtain ⟨hsim', _, _⟩ := onTx_sim h hat hframes buffer hlimit
          obtain ⟨ps, pos', hem⟩ := ulStep_emits hframes hat (Nat.le_refl 32767)
            (show OpOk 32767 (.write buffer) from hlimit)
          have hstate : UlAt cfg (frames ++ []) pos' (ulStep u (.write buffer)).1 := hem.state
          rw [List.append_nil] at hstate
          have htail := ih hsim' hstate hframes hrest hfree
          exact congrArg₂ List.cons (grant_output_eq h hat hframes hlimit) htail

/-- **Old and new transmitter agree**: with the same settings and the same
interleaving of packets and grants, as long as the queue of `PDCP` does not
fill, every grant gets the same number of bytes and the same bytes.  This is about the
source when `allow_reordering` is set: without it `PDCP::on_tx` stores its number through a
null pointer (`Winject.LegacyPdcp.Stores`), where the model stores nothing. -/
theorem onTx_agrees_writePdcp (cfg : TxConfig) (ops : List TxOp)
    (hops : ∀ op ∈ ops, AgreementOp op)
    (hfree : NeverFull (({ config := cfg } : PdcpTx).setTxEnabled true) ops) :
    txOutputs (({ config := cfg } : PdcpTx).setTxEnabled true) ops =
      ulOutputs
        { config := ⟨cfg.allowSegmentation, cfg.allowReordering, cfg.minCommitSize⟩ }
        (ops.map TxOp.toUl) := by
  have hsim : TxSim (({ config := cfg } : PdcpTx).setTxEnabled true)
      { config := cfg.toUl } :=
    ⟨rfl, rfl, rfl, rfl, rfl, fun _ => Nat.le_refl _⟩
  exact txOutputs_eq_of_sim ops hsim (UlAt.init cfg.toUl) (by simp) hops hfree

/-- Two packets and three grants, the second packet cut in two. -/
theorem onTx_agrees_writePdcp_cut :
    let cfg : TxConfig :=
      { allowSegmentation := true, allowReordering := true, minCommitSize := 7 }
    let ops : List TxOp := [.submit [1, 2], .grant (List.replicate 9 0),
      .submit [3, 4, 5], .grant (List.replicate 9 0), .grant (List.replicate 9 0)]
    txOutputs (({ config := cfg } : PdcpTx).setTxEnabled true) ops =
      ulOutputs { config := ⟨true, true, 7⟩ } (ops.map TxOp.toUl) :=
  onTx_agrees_writePdcp _ _ (by decide)
    ⟨by decide, by decide +kernel, trivial⟩

end Winject.LegacyPdcp
