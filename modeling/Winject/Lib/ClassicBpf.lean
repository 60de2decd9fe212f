import Mathlib.Data.List.Induction
import Mathlib.Algebra.Group.Nat.Defs

/-!
# Classic BPF programs that check a packet

A program of `sock_filter` instructions with an accumulator and an index register.  The
result is the number of bytes to keep of the packet; zero drops it.  Loads are big-endian,
and one that reaches behind the packet ends the program with zero.  Jumps only lead
forward, so that a run goes through the program once and counts the instructions that it
has still to skip.

`decode` knows the instructions that read a packet and compare what they read; a program
with another instruction is refused.

## Main results

* `exec_skip` — where a jump leads.
* `passes_check` — a load and a comparison that gives up at a `ret #0`.
* `load_eq_some_iff` — what a load finds.
-/

namespace Winject.Lib.ClassicBpf

/-! ## Instructions -/

/-- `struct sock_filter`. -/
structure SockFilter where
  code : UInt16
  jt : UInt8
  jf : UInt8
  k : UInt32
  deriving DecidableEq, Repr

/-- How much a load reads. -/
inductive Width
  | word
  | half
  | byte
  deriving DecidableEq, Repr

/-- The bytes of a load. -/
def Width.bytes : Width → Nat
  | word => 4
  | half => 2
  | byte => 1

/-- The instructions. -/
inductive Insn
  /-- Load from a position of the packet. -/
  | ldAbs (width : Width) (k : UInt32)
  /-- Load from a position behind the index register. -/
  | ldInd (width : Width) (k : UInt32)
  | lsh (k : UInt32)
  | and (k : UInt32)
  | orX
  | tax
  | jeq (k : UInt32) (jt jf : Nat)
  | ret (k : UInt32)
  deriving DecidableEq, Repr

/-- The instruction of a `sock_filter`. -/
def decode (f : SockFilter) : Option Insn :=
  match f.code with
  | 0x20 => some (.ldAbs .word f.k)
  | 0x28 => some (.ldAbs .half f.k)
  | 0x30 => some (.ldAbs .byte f.k)
  | 0x40 => some (.ldInd .word f.k)
  | 0x48 => some (.ldInd .half f.k)
  | 0x50 => some (.ldInd .byte f.k)
  | 0x64 => some (.lsh f.k)
  | 0x54 => some (.and f.k)
  | 0x4c => some .orX
  | 0x07 => some .tax
  | 0x15 => some (.jeq f.k f.jt.toNat f.jf.toNat)
  | 0x06 => some (.ret f.k)
  | _ => none

/-! ## Runs -/

/-- The big-endian number that some bytes make. -/
def bigEndian (bytes : List UInt8) : Nat := bytes.foldl (fun v b => v * 256 + b.toNat) 0

/-- A load of the packet. -/
def load (packet : List UInt8) (width : Width) (pos : Nat) : Option UInt32 :=
  if pos + width.bytes ≤ packet.length then
    some (UInt32.ofNat (bigEndian ((packet.drop pos).take width.bytes)))
  else none

/-- Run a program with `skip` instructions to skip, accumulator `a` and index `x`. -/
def exec (packet : List UInt8) : List Insn → Nat → UInt32 → UInt32 → UInt32
  | [], _, _, _ => 0
  | _ :: rest, skip + 1, a, x => exec packet rest skip a x
  | .ldAbs width k :: rest, 0, _, x =>
      match load packet width k.toNat with
      | some v => exec packet rest 0 v x
      | none => 0
  | .ldInd width k :: rest, 0, _, x =>
      match load packet width (x + k).toNat with
      | some v => exec packet rest 0 v x
      | none => 0
  | .lsh k :: rest, 0, a, x => exec packet rest 0 (a <<< k) x
  | .and k :: rest, 0, a, x => exec packet rest 0 (a &&& k) x
  | .orX :: rest, 0, a, x => exec packet rest 0 (a ||| x) x
  | .tax :: rest, 0, a, _ => exec packet rest 0 a a
  | .jeq k jt jf :: rest, 0, a, x => exec packet rest (if a = k then jt else jf) a x
  | .ret k :: _, 0, _, _ => k

/-- Run a program on a packet; `none` if the program is refused. -/
def run (program : List SockFilter) (packet : List UInt8) : Option UInt32 :=
  (program.mapM decode).map fun insns => exec packet insns 0 0 0

/-! ## Jumps -/

/-- A jump leads to the rest of the program. -/
theorem exec_skip (packet : List UInt8) (program : List Insn) (skip : Nat) (a x : UInt32) :
    exec packet program skip a x = exec packet (program.drop skip) 0 a x := by
  induction program generalizing skip with
  | nil => rw [List.drop_nil]; rfl
  | cons insn rest ih =>
      cases skip with
      | zero => rfl
      | succ skip => exact ih skip

/-- A jump to a `ret #0` drops the packet. -/
theorem exec_drop (packet : List UInt8) {program : List Insn} {skip : Nat}
    (h : (program.drop skip).head? = some (.ret 0)) (a x : UInt32) :
    exec packet program skip a x = 0 := by
  rw [exec_skip]
  cases hdrop : program.drop skip with
  | nil => rfl
  | cons insn rest =>
      rw [hdrop] at h
      cases h
      rfl

/-! ## Programs that keep a packet -/

/-- The program keeps the packet. -/
def Passes (packet : List UInt8) (program : List Insn) (a x : UInt32) : Prop :=
  exec packet program 0 a x ≠ 0

variable {packet : List UInt8} {rest : List Insn} {a x : UInt32}

theorem passes_ldAbs {width : Width} {k : UInt32} :
    Passes packet (.ldAbs width k :: rest) a x ↔
      ∃ v, load packet width k.toNat = some v ∧ Passes packet rest v x := by
  rw [Passes, exec]
  cases load packet width k.toNat <;> simp [Passes]

theorem passes_ldInd {width : Width} {k : UInt32} :
    Passes packet (.ldInd width k :: rest) a x ↔
      ∃ v, load packet width (x + k).toNat = some v ∧ Passes packet rest v x := by
  rw [Passes, exec]
  cases load packet width (x + k).toNat <;> simp [Passes]

theorem passes_lsh {k : UInt32} :
    Passes packet (.lsh k :: rest) a x ↔ Passes packet rest (a <<< k) x := Iff.rfl

theorem passes_and {k : UInt32} :
    Passes packet (.and k :: rest) a x ↔ Passes packet rest (a &&& k) x := Iff.rfl

theorem passes_orX : Passes packet (.orX :: rest) a x ↔ Passes packet rest (a ||| x) x := Iff.rfl

theorem passes_tax : Passes packet (.tax :: rest) a x ↔ Passes packet rest a a := Iff.rfl

theorem passes_ret {k : UInt32} : Passes packet (.ret k :: rest) a x ↔ k ≠ 0 := Iff.rfl

/-- A comparison that drops the packet when it fails. -/
theorem passes_jeq {k : UInt32} {jf : Nat} (h : (rest.drop jf).head? = some (.ret 0)) :
    Passes packet (.jeq k 0 jf :: rest) a x ↔ a = k ∧ Passes packet rest a x := by
  rw [Passes, exec]
  split_ifs with hk
  · simp [hk, Passes]
  · simp [hk, exec_drop packet h]

/-- **A check**: a load behind the index and a comparison. -/
theorem passes_check {width : Width} {k v : UInt32} {jf : Nat}
    (h : (rest.drop jf).head? = some (.ret 0)) :
    Passes packet (.ldInd width k :: .jeq v 0 jf :: rest) a x ↔
      load packet width (x + k).toNat = some v ∧ Passes packet rest v x := by
  simp [passes_ldInd, passes_jeq h]

/-! ## What a load reads -/

theorem bigEndian_snoc (bytes : List UInt8) (b : UInt8) :
    bigEndian (bytes ++ [b]) = bigEndian bytes * 256 + b.toNat := by
  rw [bigEndian, List.foldl_append]
  rfl

theorem bigEndian_lt (bytes : List UInt8) : bigEndian bytes < 256 ^ bytes.length := by
  induction bytes using List.reverseRecOn with
  | nil => exact Nat.one_pos
  | append_singleton bytes b ih =>
      have hb := b.toNat_lt
      rw [bigEndian_snoc, List.length_append, List.length_singleton, Nat.pow_succ]
      omega

/-- The number tells bytes of a known length. -/
theorem bigEndian_inj {xs ys : List UInt8} (hlen : xs.length = ys.length)
    (h : bigEndian xs = bigEndian ys) : xs = ys := by
  induction xs using List.reverseRecOn generalizing ys with
  | nil => exact (List.eq_nil_of_length_eq_zero hlen.symm).symm
  | append_singleton xs x ih =>
      rcases List.eq_nil_or_concat ys with rfl | ⟨ys', y, rfl⟩
      · simp at hlen
      · rw [List.concat_eq_append] at h hlen ⊢
        rw [bigEndian_snoc, bigEndian_snoc] at h
        have hx := x.toNat_lt
        have hy := y.toNat_lt
        have hlast : x = y := UInt8.toNat_inj.mp (by omega)
        have hfront : xs = ys' := ih (by simpa using hlen) (by omega)
        rw [hlast, hfront]

theorem load_byte (packet : List UInt8) (pos : Nat) :
    load packet .byte pos = packet[pos]?.map UInt8.toUInt32 := by
  unfold load
  by_cases hin : pos + Width.byte.bytes ≤ packet.length
  · have hpos : pos < packet.length := hin
    have hslice : (packet.drop pos).take Width.byte.bytes = [packet[pos]] := by
      rw [List.drop_eq_getElem_cons hpos]
      rfl
    rw [if_pos hin, hslice, List.getElem?_eq_getElem hpos]
    simp [bigEndian]
  · rw [if_neg hin, List.getElem?_eq_none (Nat.le_of_not_lt hin)]
    rfl

/-- **A load finds a value** iff its bytes are there. -/
theorem load_eq_some_iff {packet : List UInt8} {width : Width} {pos : Nat} {v : UInt32}
    {bytes : List UInt8} (hlen : bytes.length = width.bytes) (hv : v.toNat = bigEndian bytes) :
    load packet width pos = some v ↔ (packet.drop pos).take width.bytes = bytes := by
  unfold load
  constructor
  · intro h
    split_ifs at h with hin
    have hslice : ((packet.drop pos).take width.bytes).length = width.bytes := by
      rw [List.length_take, List.length_drop]
      omega
    apply bigEndian_inj (hslice.trans hlen.symm)
    have hlt : bigEndian ((packet.drop pos).take width.bytes) < 2 ^ 32 := by
      refine Nat.lt_of_lt_of_le (bigEndian_lt _) ?_
      rw [hslice]
      cases width <;> decide
    rw [← hv, ← Option.some.inj h, UInt32.toNat_ofNat_of_lt' hlt]
  · intro h
    have hin : pos + width.bytes ≤ packet.length := by
      have hslice := congrArg List.length h
      rw [List.length_take, List.length_drop, hlen] at hslice
      have hpos : 0 < width.bytes := by cases width <;> decide
      omega
    rw [if_pos hin, h, ← hv, UInt32.ofNat_toNat]

end Winject.Lib.ClassicBpf
