import Winject.LegacyLlc.Run

/-!
# The ring of sequence numbers under reconfiguration

`sn_ring` gets the `arq_window_size` of the constructor, which is 0 by default, and
keeps it.  `sn_ring_index` takes the remainder by the window of the current
configuration, and the A bit of a received PDU is the peer's: an ACK PDU is
processed in every mode.

`ackProcessing` is the part of `on_rx` that resolves acknowledged numbers, with its
remainder and its two indices checked.  The indices into `tx_ring` are remainders by
its size; their type says so.

## Main results

* `ackProcessing_isSome_iff` — when an ACK PDU is processed without a fault.
* `ackProcessing_eq` — what is processed then is what `on_rx` does.
* `ackProcessing_total_iff` — the configurations in which no PDU makes it fail.
-/

namespace Winject.LegacyLlc

open Winject.Frames
open Winject.Lib.Bytes

namespace Llc

/-! ## Checked accesses -/

/-- The acknowledgement of one number; `none` for a remainder by zero or an index
behind the end of `sn_ring`. -/
def ackOneChecked (ringSize : Nat) (l : Llc) (sn : UInt8) : Option Llc :=
  if l.SnInRange ringSize sn then some (l.ackOne sn) else none

/-- The acknowledgements of a received PDU. -/
def ackProcessing (ringSize : Nat) (l : Llc) (info : RxInfo) : Option Llc :=
  (l.ackedNumbers info).foldlM (ackOneChecked ringSize) l

/-- The range of a number depends on the configuration only. -/
theorem snInRange_ackOne (ringSize : Nat) (l : Llc) (sn sn' : UInt8) :
    (l.ackOne sn).SnInRange ringSize sn' ↔ l.SnInRange ringSize sn' := Iff.rfl

/-- The acknowledgements of numbers in range. -/
theorem foldlM_ackOneChecked {ringSize : Nat} {sns : List UInt8} {l : Llc}
    (h : ∀ sn ∈ sns, l.SnInRange ringSize sn) :
    sns.foldlM (ackOneChecked ringSize) l = some (sns.foldl ackOne l) := by
  induction sns generalizing l with
  | nil => rfl
  | cons sn sns ih =>
      show (ackOneChecked ringSize l sn >>= fun l' => sns.foldlM (ackOneChecked ringSize) l') = _
      unfold ackOneChecked
      rw [if_pos (h sn (List.mem_cons_self ..))]
      refine ih (fun sn' hmem => ?_)
      rw [snInRange_ackOne]
      exact h sn' (List.mem_cons_of_mem _ hmem)

/-- One number out of range is a fault. -/
theorem foldlM_ackOneChecked_none {ringSize : Nat} {sns : List UInt8} {l : Llc}
    (h : ¬ ∀ sn ∈ sns, l.SnInRange ringSize sn) :
    sns.foldlM (ackOneChecked ringSize) l = none := by
  induction sns generalizing l with
  | nil => exact absurd (List.forall_mem_nil _) h
  | cons sn sns ih =>
      show (ackOneChecked ringSize l sn >>= fun l' => sns.foldlM (ackOneChecked ringSize) l') = _
      unfold ackOneChecked
      by_cases hsn : l.SnInRange ringSize sn
      · rw [if_pos hsn]
        refine ih (fun hall => h ?_)
        simp only [snInRange_ackOne] at hall
        exact List.forall_mem_cons.mpr ⟨hsn, hall⟩
      · rw [if_neg hsn]
        rfl

/-- **No fault**: every acknowledged number is in range. -/
theorem ackProcessing_isSome_iff (ringSize : Nat) (l : Llc) (info : RxInfo) :
    (l.ackProcessing ringSize info).isSome = true ↔
      ∀ sn ∈ l.ackedNumbers info, l.SnInRange ringSize sn := by
  unfold ackProcessing
  by_cases h : ∀ sn ∈ l.ackedNumbers info, l.SnInRange ringSize sn
  · rw [foldlM_ackOneChecked h]
    exact ⟨fun _ => h, fun _ => rfl⟩
  · rw [foldlM_ackOneChecked_none h]
    exact ⟨(fun hsome => by cases hsome), fun hall => absurd hall h⟩

/-- The call of `on_rx` is a fault where this is none. -/
theorem onRx_fault_iff (l : Llc) (info : RxInfo) :
    (l.onRx info).fault = false ↔ (l.ackProcessing l.snRingSize info).isSome = true := by
  rw [ackProcessing_isSome_iff, onRx_ok_iff]

/-- **Without a fault** the PDU leaves what `on_rx` leaves, a data PDU apart. -/
theorem ackProcessing_eq {ringSize : Nat} {l l' : Llc} {info : RxInfo}
    (h : l.ackProcessing ringSize info = some l') :
    l.dataNumbers info = [] → (l.onRx info).llc = l' := by
  intro hdata
  have hrange := (ackProcessing_isSome_iff ringSize l info).mp (by rw [h]; rfl)
  unfold ackProcessing at h
  rw [foldlM_ackOneChecked hrange] at h
  rcases l.onRx_cases info with ⟨-, hllc⟩ | ⟨sn, hdata', -⟩
  · exact hllc.trans (Option.some.inj h)
  · rw [hdata] at hdata'
    cases hdata'

end Llc

/-! ## Configuration histories -/

/-- A call of one of the two `reconfigure`. -/
inductive Reconfigure where
  | tx (config : TxConfig)
  | rx (config : RxConfig)

namespace Llc

/-- The LLC behind a call. -/
def reconfigure (l : Llc) : Reconfigure → Llc
  | .tx config => l.reconfigureTx config
  | .rx config => l.reconfigureRx config

/-- An LLC behind its constructor and some calls. -/
def configured (lcid : UInt8) (txConfig : TxConfig) (rxConfig : RxConfig)
    (calls : List Reconfigure) : Llc :=
  calls.foldl reconfigure (new lcid txConfig rxConfig)

/-- What every history leaves behind: the flag that `reconfigure` keeps is clear, and
the checksum size is one of two, the larger one where checksums are on. -/
structure Settled (l : Llc) : Prop where
  noInit : l.rxConfig.autoInitOnRx = false
  crc : l.rxConfig.crcType = .crc32 → l.rxCrcSize = 4
  crcSize : l.rxCrcSize = 0 ∨ l.rxCrcSize = 4

theorem Settled.reconfigureTx {l : Llc} (h : l.Settled) (config : TxConfig) :
    (l.reconfigureTx config).Settled where
  noInit := h.noInit
  crc := fun hcrc => if_pos hcrc
  crcSize := by
    show (if l.rxConfig.crcType = .crc32 then 4 else l.rxCrcSize) = 0 ∨
      (if l.rxConfig.crcType = .crc32 then 4 else l.rxCrcSize) = 4
    split_ifs
    · exact Or.inr rfl
    · exact h.crcSize

theorem Settled.reconfigureRx {l : Llc} (h : l.Settled) (config : RxConfig) :
    (l.reconfigureRx config).Settled where
  noInit := h.noInit
  crc := fun hcrc => if_pos hcrc
  crcSize := by
    show (if config.crcType = .crc32 then 4 else l.rxCrcSize) = 0 ∨
      (if config.crcType = .crc32 then 4 else l.rxCrcSize) = 4
    split_ifs
    · exact Or.inr rfl
    · exact h.crcSize

theorem configured_settled (lcid : UInt8) (txConfig : TxConfig) (rxConfig : RxConfig)
    (calls : List Reconfigure) : (configured lcid txConfig rxConfig calls).Settled := by
  have hblank : ({ lcid := lcid, snRingSize := txConfig.arqWindowSize } : Llc).Settled :=
    ⟨rfl, (fun h => by cases h), Or.inl rfl⟩
  refine Lib.Runs.foldl_invariant Settled ?_ calls _
    ((hblank.reconfigureTx txConfig).reconfigureRx rxConfig)
  intro l call h
  cases call with
  | tx config => exact h.reconfigureTx config
  | rx config => exact h.reconfigureRx config

/-! ## A PDU that acknowledges a given number -/

/-- An ACK PDU with one entry, for one number. -/
def oneAck (size : UInt8) (crc : List UInt8) (sn : UInt8) : List UInt8 :=
  [0, 8, size] ++ (crc ++ [sn, 1])

/-- An ACK PDU for one number that the receiver accepts. -/
def ackOf (l : Llc) (sn : UInt8) : List UInt8 :=
  if l.rxConfig.crcType = .crc32 then oneAck 9 (be32 (crc32 (oneAck 9 (be32 0) sn))) sn
  else oneAck (UInt8.ofNat (5 + l.rxCrcSize)) (List.replicate l.rxCrcSize 0) sn

@[simp] theorem oneAck_length (size : UInt8) (crc : List UInt8) (sn : UInt8) :
    (oneAck size crc sn).length = 5 + crc.length := by
  simp only [oneAck, List.length_append, List.length_cons, List.length_nil]
  omega

theorem oneAck_getSIZE (size : UInt8) (crc : List UInt8) (sn : UInt8) (n c : Nat) :
    (LlcPdu.new (oneAck size crc sn) n c).getSIZE = size.toNat := by
  unfold LlcPdu.getSIZE LlcPdu.get LlcPdu.new
  show ((8 &&& 7 : UInt8) >>> 0).toNat * 256 + ((size &&& 255) >>> 0).toNat = size.toNat
  rw [show ((8 &&& 7 : UInt8) >>> 0).toNat = 0 from rfl, UInt8.shiftRight_zero,
    show size &&& 255 = size from UInt8.and_neg_one]
  omega

theorem oneAck_getA (size : UInt8) (crc : List UInt8) (sn : UInt8) (n c : Nat) :
    (LlcPdu.new (oneAck size crc sn) n c).getA = true := by
  unfold LlcPdu.getA LlcPdu.get LlcPdu.new
  show (((8 &&& 8 : UInt8) >>> 3) != 0) = true
  decide

/-- The entry behind a header with a checksum of the right size. -/
theorem oneAck_entries {size : UInt8} {crc : List UInt8} (sn : UInt8) (n : Nat)
    (hsize : size.toNat = 5 + crc.length) :
    ackEntries (LlcPdu.new (oneAck size crc sn) n crc.length) = [(sn, 1)] := by
  have hheader : (LlcPdu.new (oneAck size crc sn) n crc.length).getHeaderSize =
      3 + crc.length := rfl
  have hpayload : (LlcPdu.new (oneAck size crc sn) n crc.length).getPayloadSize = 2 := by
    have hlt := size.toNat_lt
    unfold LlcPdu.getPayloadSize
    rw [oneAck_getSIZE, hheader, hsize]
    omega
  have hwhile : (List.range (2 / 2)).takeWhile
      (fun i => decide (3 + crc.length + i * 2 ≤ 5 + crc.length)) = [0] := by
    have hfirst : 3 + crc.length + 0 * 2 ≤ 5 + crc.length := by omega
    exact List.takeWhile_cons_of_pos (decide_eq_true hfirst)
  unfold ackEntries
  rw [hpayload, hheader, oneAck_getSIZE, hsize, hwhile, Nat.add_comm 3]
  simp [LlcPdu.new, oneAck]

/-- A checksum that was stored is read back. -/
theorem readBe32_be32 (a c : List UInt8) (p : Nat) (v : UInt32) (hp : a.length = p) :
    readBe32 (a ++ (be32 v ++ c)) p = v := by
  have hbytes : readBe32 (a ++ (be32 v ++ c)) p =
      ((v >>> 24).toUInt8.toUInt32 <<< 24) ||| ((v >>> 16).toUInt8.toUInt32 <<< 16) |||
        ((v >>> 8).toUInt8.toUInt32 <<< 8) ||| v.toUInt8.toUInt32 := by
    subst hp
    simp [readBe32, be32, List.getD]
  have hreverse : ∀ w x y z : UInt32, w ||| x ||| y ||| z = z ||| y ||| x ||| w := by
    intro w x y z
    ac_rfl
  rw [hbytes, hreverse]
  exact word_of_bytes v

/-- The numbers of an ACK PDU that passes the checks. -/
theorem ackedNumbers_of_accepts {l : Llc} {info : RxInfo} (size : UInt8) (crc : List UInt8)
    (sn : UInt8) (n : Nat) (hinit : l.rxConfig.autoInitOnRx = false)
    (haccepts : l.accepts info = true)
    (hpdu : l.rxPdu info = LlcPdu.new (oneAck size crc sn) n crc.length)
    (hsize : size.toNat = 5 + crc.length) : l.ackedNumbers info = [sn] := by
  have htakes : l.takes info = true := by
    unfold takes
    rw [hinit, haccepts, Bool.and_false]
    rfl
  unfold ackedNumbers
  rw [htakes, hpdu, oneAck_getA, oneAck_entries sn n hsize]
  show [sn + 0] = [sn]
  rw [UInt8.add_zero]

theorem clearCrc_oneAck {l : Llc} (hcrc : l.rxConfig.crcType = .crc32) (crc : UInt32)
    (sn : UInt8) (n c : Nat) :
    l.clearCrc (LlcPdu.new (oneAck 9 (be32 crc) sn) n c) =
      LlcPdu.new (oneAck 9 (be32 0) sn) n c := by
  have hpoke : poke ([0, 8, 9] ++ (be32 crc ++ [sn, 1])) 3 (be32 0) =
      [0, 8, 9] ++ (be32 0 ++ [sn, 1]) := poke_append rfl rfl
  unfold clearCrc
  rw [if_pos hcrc]
  show (⟨poke (oneAck 9 (be32 crc) sn) 3 (be32 0), n % 65536, c⟩ : LlcPdu) = _
  unfold oneAck
  rw [hpoke]
  rfl

/-- The PDU is accepted and acknowledges the number. -/
theorem ackOf_acked {l : Llc} (h : l.Settled) (sn : UInt8) :
    l.ackedNumbers ⟨l.ackOf sn, (l.ackOf sn).length⟩ = [sn] := by
  unfold ackOf
  by_cases hcrc : l.rxConfig.crcType = .crc32
  · rw [if_pos hcrc]
    have hpdu := clearCrc_oneAck hcrc (crc32 (oneAck 9 (be32 0) sn)) sn 9 l.rxCrcSize
    rw [show (oneAck 9 (be32 (crc32 (oneAck 9 (be32 0) sn))) sn).length = 9 from rfl]
    refine ackedNumbers_of_accepts 9 (be32 0) sn 9 h.noInit ?_ ?_ rfl
    · unfold accepts
      dsimp only
      rw [oneAck_getSIZE, if_neg (show ¬ UInt8.toNat 9 > 9 by decide), if_pos hcrc]
      show (crc32 ((l.clearCrc (LlcPdu.new _ 9 l.rxCrcSize)).base.take 9) ==
        readBe32 (oneAck 9 (be32 (crc32 (oneAck 9 (be32 0) sn))) sn) 3) = true
      rw [hpdu]
      show (crc32 (oneAck 9 (be32 0) sn) ==
        readBe32 ([0, 8, 9] ++ (be32 (crc32 (oneAck 9 (be32 0) sn)) ++ [sn, 1])) 3) = true
      rw [readBe32_be32 _ _ 3 _ rfl, beq_self_eq_true]
    · rw [h.crc hcrc] at hpdu
      unfold rxPdu
      dsimp only
      rw [h.crc hcrc]
      exact hpdu
  · rw [if_neg hcrc]
    have hlen : (List.replicate l.rxCrcSize (0 : UInt8)).length = l.rxCrcSize :=
      List.length_replicate
    have hsize : (UInt8.ofNat (5 + l.rxCrcSize)).toNat = 5 + l.rxCrcSize := by
      rcases h.crcSize with hc | hc <;> rw [hc] <;> rfl
    refine ackedNumbers_of_accepts (UInt8.ofNat (5 + l.rxCrcSize))
      (List.replicate l.rxCrcSize 0) sn (5 + l.rxCrcSize) h.noInit ?_ ?_
      (by rw [hlen, hsize])
    · unfold accepts
      dsimp only
      rw [oneAck_length, oneAck_getSIZE, hsize, hlen, if_neg (Nat.lt_irrefl _), if_neg hcrc]
    · unfold rxPdu clearCrc
      dsimp only
      rw [if_neg hcrc, oneAck_length, hlen]

/-! ## Totality -/

/-- The numbers from 0 to 255 are in range. -/
theorem all_snInRange_iff (ringSize : Nat) (l : Llc) :
    (∀ sn : UInt8, l.SnInRange ringSize sn) ↔
      0 < l.txConfig.arqWindowSize ∧ min l.txConfig.arqWindowSize 256 ≤ ringSize := by
  constructor
  · intro h
    have hpos : 0 < l.txConfig.arqWindowSize := Nat.pos_of_ne_zero (h 0).1
    refine ⟨hpos, ?_⟩
    by_contra hlt
    -- the number that is the first behind the ring
    have hring : ringSize < 256 := by omega
    have hidx := (h (UInt8.ofNat ringSize)).2
    unfold snRingIndex at hidx
    rw [UInt8.toNat_ofNat', Nat.mod_eq_of_lt hring, Nat.mod_eq_of_lt (by omega)] at hidx
    exact Nat.lt_irrefl _ hidx
  · rintro ⟨hpos, hmin⟩ sn
    have hsn := sn.toNat_lt
    have hmod := Nat.mod_lt sn.toNat hpos
    have hle := Nat.mod_le sn.toNat l.txConfig.arqWindowSize
    refine ⟨Nat.pos_iff_ne_zero.mp hpos, ?_⟩
    unfold snRingIndex
    omega

/-- **ACK processing never fails** on any received byte string iff the current window
is not zero and no remainder by it is as large as the window of the constructor. -/
theorem ackProcessing_total_iff (lcid : UInt8) (txConfig : TxConfig) (rxConfig : RxConfig)
    (calls : List Reconfigure) :
    (∀ bytes : List UInt8, 3 ≤ bytes.length →
      ((configured lcid txConfig rxConfig calls).ackProcessing txConfig.arqWindowSize
        ⟨bytes, bytes.length⟩).isSome = true) ↔
      0 < (configured lcid txConfig rxConfig calls).txConfig.arqWindowSize ∧
        min (configured lcid txConfig rxConfig calls).txConfig.arqWindowSize 256 ≤
          txConfig.arqWindowSize := by
  have hsettled := configured_settled lcid txConfig rxConfig calls
  rw [← all_snInRange_iff]
  constructor
  · intro h sn
    have hlen : 3 ≤ ((configured lcid txConfig rxConfig calls).ackOf sn).length := by
      unfold ackOf
      split_ifs <;> rw [oneAck_length] <;> omega
    have hack := h _ hlen
    rw [ackProcessing_isSome_iff, ackOf_acked hsettled] at hack
    exact hack sn (List.mem_singleton_self sn)
  · intro h bytes _
    rw [ackProcessing_isSome_iff]
    exact fun sn _ => h sn

/-- A default LLC divides by zero on an ACK PDU; one that was made with no window and
then given one looks behind the end of its empty ring. -/
theorem ack_faults :
    (configured 0 {} {} []).ackProcessing 0 ⟨[0, 8, 5, 0, 1], 5⟩ = none ∧
      (configured 0 {} {} [.tx { mode := .am, arqWindowSize := 64 }]).ackProcessing 0
        ⟨[0, 8, 5, 0, 1], 5⟩ = none :=
  ⟨rfl, rfl⟩

end Llc

end Winject.LegacyLlc
