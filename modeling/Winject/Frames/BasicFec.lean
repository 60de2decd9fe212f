import Winject.Frames.PdcpSegment

/-!
# The FEC header (`frames/basic_fec.hpp`)

```
 FEC_TYPE                      | 01
 N (FEC_TYPE != 0)             | 01 * (FEC_TYPE!=0)
 REDUNDANCY                    | FEC_R_SZ * N
 DATA                          | FEC_D_SZ * N
```

`BasicFec` is `basic_fec_t`: the bytes from its base on, and the members that a scan
fills in.  A pointer is an offset from the base, and `none` is the null pointer.  A scan
leaves the members that it does not reach as they were, so that it may find those of an
earlier scan; `Scan` also has the bytes that it reads, and no object when it reads
through a null pointer.

## Main results

* `rescan_of_type` — a scan of a buffer with a FEC type.
* `scanSafe_iff` — a scan is safe iff the FEC type is not `E_FEC_TYPE_NONE`.
-/

namespace Winject.Frames

/-- `E_FEC_TYPE_NONE`. -/
def fecTypeNone : UInt8 := 0

/-- `basic_fec_t`. -/
structure BasicFec where
  base : List UInt8
  maxSize : Nat
  fecDSz : Nat := 0
  fecRSz : Nat := 0
  fecType : Option Nat := none
  n : Option Nat := none
  dataBlocks : Option Nat := none
  reduBlocks : Option Nat := none
  isValid : Bool := false
  deriving DecidableEq, Repr

/-- A byte that a scan reads through one of the pointers. -/
inductive Read
  | fecType (ptr : Option Nat)
  | n (ptr : Option Nat)
  deriving DecidableEq, Repr

/-- The bytes that a scan reads, and the object behind it. -/
structure Scan where
  reads : List Read
  fec : Option BasicFec
  deriving DecidableEq, Repr

namespace BasicFec

/-- The constructor; the size is stored in 16 bits. -/
def new (base : List UInt8) : BasicFec := { base := base, maxSize := base.length % 65536 }

/-- `basic_fec_t::reset`. -/
def reset (f : BasicFec) : BasicFec := { base := f.base, maxSize := f.maxSize }

/-- What a pointer points to. -/
def load (f : BasicFec) (ptr : Option Nat) : Option UInt8 := ptr.bind (f.base[·]?)

/-- The sizes of the blocks of a FEC type. -/
def setBlockSizes (f : BasicFec) (ft : UInt8) : BasicFec :=
  if ft = 1 then { f with fecDSz := 247, fecRSz := 255 - 247 }
  else if ft = 2 then { f with fecDSz := 239, fecRSz := 255 - 239 }
  else if ft = 3 then { f with fecDSz := 223, fecRSz := 255 - 223 }
  else if ft = 4 then { f with fecDSz := 191, fecRSz := 255 - 191 }
  else if ft = 5 then { f with fecDSz := 127, fecRSz := 255 - 127 }
  else f

/-- The second half of a scan: the blocks. -/
def scanBlocks (f : BasicFec) (checker : SafeChecker) (reads : List Read) : Scan :=
  match f.load f.n with
  | none => ⟨reads ++ [.n f.n], none⟩
  | some n =>
    let (redu, checker) := checker.get (n.toNat * f.fecRSz)
    let f := { f with reduBlocks := redu, isValid := checker.validity }
    if !f.isValid then ⟨reads ++ [.n f.n], some f⟩ else
    let (data, checker) := checker.get (n.toNat * f.fecDSz)
    ⟨reads ++ [.n f.n], some { f with dataBlocks := data, isValid := checker.validity }⟩

/-- `basic_fec_t::rescan`. -/
def rescan (f : BasicFec) : Scan :=
  let (type, checker) := SafeChecker.get ⟨0, f.maxSize, true⟩ 1
  let f := { f with fecType := type, isValid := checker.validity }
  if !f.isValid then ⟨[], some f.reset⟩ else
  match f.load f.fecType with
  | none => ⟨[.fecType f.fecType], none⟩
  | some ft =>
    if ft != fecTypeNone then
      let (n, checker) := checker.get 1
      let f := { f with n := n, isValid := checker.validity }
      if !f.isValid then ⟨[.fecType f.fecType], some f⟩ else
      (f.setBlockSizes ft).scanBlocks checker [.fecType f.fecType]
    else (f.setBlockSizes ft).scanBlocks checker [.fecType f.fecType]

/-- `basic_fec_t::get_data_sz`. -/
def getDataSz (f : BasicFec) : Option Nat := (f.load f.n).map (·.toNat * f.fecDSz)

/-- `basic_fec_t::get_redu_sz`. -/
def getReduSz (f : BasicFec) : Option Nat := (f.load f.n).map (·.toNat * f.fecRSz)

/-! ## What a scan may read -/

/-- The byte is that of a field which the header has. -/
def Present (f : BasicFec) : Read → Prop
  | .fecType ptr => ptr = some 0 ∧ 0 < f.base.length
  | .n ptr => f.base[0]? ≠ some fecTypeNone ∧ ptr = some 1 ∧ 1 < f.base.length

instance (f : BasicFec) : DecidablePred f.Present := fun r => by
  unfold Present
  cases r <;> infer_instance

/-- The regions of `N` blocks. -/
structure LaidOut (f : BasicFec) (n : UInt8) : Prop where
  count : f.load f.n = some n
  redu : f.reduBlocks = some 2
  data : f.dataBlocks = some (2 + n.toNat * f.fecRSz)
  inside : 2 + n.toNat * f.fecRSz + n.toNat * f.fecDSz ≤ f.base.length
  sum : f.fecDSz + f.fecRSz = 255
  dataSz : f.getDataSz = some (n.toNat * f.fecDSz)
  reduSz : f.getReduSz = some (n.toNat * f.fecRSz)

/-- A scan reads present fields only, and finds the regions when it says that the
header of one of the types 1 to 5 is valid. -/
def ScanSafe (f : BasicFec) : Prop :=
  (∀ r ∈ f.rescan.reads, f.Present r) ∧
    ∀ f' ft, f.rescan.fec = some f' → f'.isValid = true → f.base[0]? = some ft →
      1 ≤ ft → ft ≤ 5 → ∃ n, f.base[1]? = some n ∧ f'.LaidOut n

/-! ## The ways of a scan -/

theorem get_of_le {c : SafeChecker} {n : Nat} (h : c.current + n ≤ c.stop) :
    c.get n = (some c.current, { c with current := c.current + n }) := by
  simp [SafeChecker.get, Nat.not_lt.mpr h]

variable {f : BasicFec}

@[simp] theorem setBlockSizes_base (ft : UInt8) : (f.setBlockSizes ft).base = f.base := by
  unfold setBlockSizes
  split_ifs <;> rfl

@[simp] theorem setBlockSizes_n (ft : UInt8) : (f.setBlockSizes ft).n = f.n := by
  unfold setBlockSizes
  split_ifs <;> rfl

@[simp] theorem setBlockSizes_maxSize (ft : UInt8) : (f.setBlockSizes ft).maxSize = f.maxSize := by
  unfold setBlockSizes
  split_ifs <;> rfl

/-- The blocks of the types 1 to 5 have 255 bytes. -/
theorem setBlockSizes_sum {ft : UInt8} (h : 1 ≤ ft) (h' : ft ≤ 5) :
    (f.setBlockSizes ft).fecDSz + (f.setBlockSizes ft).fecRSz = 255 := by
  have hcases : ft = 1 ∨ ft = 2 ∨ ft = 3 ∨ ft = 4 ∨ ft = 5 := by grind
  rcases hcases with rfl | rfl | rfl | rfl | rfl <;> rfl

/-- An empty buffer. -/
theorem rescan_empty (h : f.maxSize = 0) : f.rescan = ⟨[], some f.reset⟩ := by
  simp [rescan, SafeChecker.get, reset, h]

/-- The type of a buffer with at least one byte is read. -/
theorem rescan_nonempty (h : 0 < f.maxSize) {ft : UInt8} (htype : f.base[0]? = some ft) :
    f.rescan =
      let f := { f with fecType := some 0, isValid := true }
      if ft != fecTypeNone then
        let (n, checker) := SafeChecker.get ⟨1, f.maxSize, true⟩ 1
        let f := { f with n := n, isValid := checker.validity }
        if !f.isValid then ⟨[.fecType (some 0)], some f⟩ else
        (f.setBlockSizes ft).scanBlocks checker [.fecType (some 0)]
      else (f.setBlockSizes ft).scanBlocks ⟨1, f.maxSize, true⟩ [.fecType (some 0)] := by
  have hget : SafeChecker.get ⟨0, f.maxSize, true⟩ 1 = (some 0, ⟨1, f.maxSize, true⟩) :=
    get_of_le (by simpa using Nat.succ_le_of_lt h)
  simp [rescan, hget, load, htype]

theorem scanBlocks_reads (checker : SafeChecker) (reads : List Read) :
    (f.scanBlocks checker reads).reads = reads ++ [.n f.n] := by
  unfold scanBlocks
  split
  · rfl
  · dsimp only
    split_ifs <;> rfl

/-- Without a type the count is read, wherever its pointer leads. -/
theorem rescan_none (h : 0 < f.maxSize) (htype : f.base[0]? = some fecTypeNone) :
    f.rescan.reads = [.fecType (some 0), .n f.n] := by
  rw [rescan_nonempty h htype]
  simp [scanBlocks_reads]

/-- A buffer that ends behind the type. -/
theorem rescan_short (h : f.maxSize = 1) {ft : UInt8} (htype : f.base[0]? = some ft)
    (hsome : ft ≠ fecTypeNone) :
    f.rescan = ⟨[.fecType (some 0)],
      some { f with fecType := some 0, n := none, isValid := false }⟩ := by
  rw [rescan_nonempty (by omega) htype]
  simp [SafeChecker.get, hsome, h]

/-- A scan behind the count. -/
def counted (f : BasicFec) (ft : UInt8) : BasicFec :=
  { f with fecType := some 0, n := some 1, isValid := true }.setBlockSizes ft

@[simp] theorem counted_base (ft : UInt8) : (f.counted ft).base = f.base := by simp [counted]

@[simp] theorem counted_maxSize (ft : UInt8) : (f.counted ft).maxSize = f.maxSize := by
  simp [counted]

@[simp] theorem counted_n (ft : UInt8) : (f.counted ft).n = some 1 := by simp [counted]

theorem counted_load (ft : UInt8) : (f.counted ft).load (f.counted ft).n = f.base[1]? := by
  simp [load]

/-- What a scan makes of `n` blocks of a type. -/
def scanned (f : BasicFec) (ft n : UInt8) : BasicFec :=
  let f := f.counted ft
  if f.maxSize < 2 + n.toNat * f.fecRSz then
    { f with reduBlocks := none, isValid := false }
  else if f.maxSize < 2 + n.toNat * f.fecRSz + n.toNat * f.fecDSz then
    { f with reduBlocks := some 2, dataBlocks := none, isValid := false }
  else
    { f with
      reduBlocks := some 2
      dataBlocks := some (2 + n.toNat * f.fecRSz)
      isValid := true }

/-- The blocks of a header with a count. -/
theorem scanBlocks_count {n : UInt8} (hn : f.load f.n = some n) {stop : Nat} {reads : List Read} :
    f.scanBlocks ⟨2, stop, true⟩ reads = ⟨reads ++ [.n f.n], some (
      if stop < 2 + n.toNat * f.fecRSz then { f with reduBlocks := none, isValid := false }
      else if stop < 2 + n.toNat * f.fecRSz + n.toNat * f.fecDSz then
        { f with reduBlocks := some 2, dataBlocks := none, isValid := false }
      else
        { f with
          reduBlocks := some 2
          dataBlocks := some (2 + n.toNat * f.fecRSz)
          isValid := true })⟩ := by
  unfold scanBlocks
  rw [hn]
  dsimp only
  by_cases hredu : stop < 2 + n.toNat * f.fecRSz
  · simp [SafeChecker.get, hredu]
  · by_cases hdata : stop < 2 + n.toNat * f.fecRSz + n.toNat * f.fecDSz
    · simp [SafeChecker.get, hredu, hdata]
    · simp [SafeChecker.get, hredu, hdata]

/-- A buffer with a type and a count. -/
theorem rescan_of_type (h : 2 ≤ f.maxSize) {ft n : UInt8} (htype : f.base[0]? = some ft)
    (hsome : ft ≠ fecTypeNone) (hn : f.base[1]? = some n) :
    f.rescan = ⟨[.fecType (some 0), .n (some 1)], some (f.scanned ft n)⟩ := by
  rw [rescan_nonempty (by omega) htype]
  have hget : SafeChecker.get ⟨1, f.maxSize, true⟩ 1 = (some 1, ⟨2, f.maxSize, true⟩) :=
    get_of_le h
  simp only [hget, bne_iff_ne, ne_eq, hsome, not_false_eq_true, if_true, Bool.not_true,
    Bool.false_eq_true, if_false]
  change (f.counted ft).scanBlocks _ _ = _
  rw [scanBlocks_count ((f.counted_load ft).trans hn)]
  simp [scanned]

/-! ## Safe scans -/

/-- What a scan finds is laid out when it is valid. -/
theorem scanned_laidOut {ft n : UInt8} (hn : f.base[1]? = some n) (hlow : 1 ≤ ft) (hhigh : ft ≤ 5)
    (hsize : f.maxSize ≤ f.base.length) (hvalid : (f.scanned ft n).isValid = true) :
    (f.scanned ft n).LaidOut n := by
  have hsum : (f.counted ft).fecDSz + (f.counted ft).fecRSz = 255 :=
    setBlockSizes_sum hlow hhigh
  have hcount : (f.counted ft).load (f.counted ft).n = some n := (f.counted_load ft).trans hn
  revert hvalid
  unfold scanned
  dsimp only
  split_ifs with hredu hdata
  · exact fun h => absurd h (by decide)
  · exact fun h => absurd h (by decide)
  · intro _
    refine ⟨hcount, rfl, rfl, ?_, hsum, ?_, ?_⟩
    · rw [counted_maxSize] at hdata
      simp only [counted_base]
      omega
    · exact congrArg (Option.map _) hcount
    · exact congrArg (Option.map _) hcount

/-- **A scan is safe iff the FEC type is not `E_FEC_TYPE_NONE`**, for every buffer of
fewer than 65536 bytes and whatever an earlier scan has left. -/
theorem scanSafe_iff (f : BasicFec) (hlength : f.base.length < 65536)
    (hsize : f.maxSize = f.base.length % 65536) :
    f.ScanSafe ↔ f.base[0]? ≠ some fecTypeNone := by
  rw [Nat.mod_eq_of_lt hlength] at hsize
  constructor
  · intro hsafe hnone
    have hpos : 0 < f.maxSize := by
      rw [hsize]
      exact (List.getElem?_eq_some_iff.mp hnone).1
    have hread := hsafe.1 (.n f.n) (by rw [rescan_none hpos hnone]; simp)
    exact hread.1 hnone
  · intro hsome
    by_cases hzero : f.maxSize = 0
    · have hnil : f.base = [] := List.length_eq_zero_iff.mp (hsize ▸ hzero)
      refine ⟨by simp [rescan_empty hzero], fun f' ft _ _ htype => ?_⟩
      simp [hnil] at htype
    · have htype : f.base[0]? = some f.base[0] := List.getElem?_eq_getElem (by omega)
      have hne : f.base[0] ≠ fecTypeNone := fun h => hsome (htype.trans (congrArg some h))
      have hread : f.Present (.fecType (some 0)) := ⟨rfl, by omega⟩
      by_cases hone : f.maxSize = 1
      · rw [ScanSafe, rescan_short hone htype hne]
        refine ⟨by simpa using hread, fun f' ft hf' hvalid => ?_⟩
        cases hf'
        cases hvalid
      · have hn : f.base[1]? = some f.base[1] := List.getElem?_eq_getElem (by omega)
        have hcount : f.Present (.n (some 1)) := ⟨hsome, rfl, by omega⟩
        rw [ScanSafe, rescan_of_type (by omega) htype hne hn]
        refine ⟨by simp [hread, hcount], fun f' ft hf' hvalid hft hlow hhigh => ?_⟩
        cases hf'
        rw [htype] at hft
        cases hft
        exact ⟨_, hn, scanned_laidOut hn hlow hhigh (by omega) hvalid⟩

/-- A header of the type 1 without blocks, and members of an earlier scan. -/
theorem no_blocks_safe : ({ new [1, 0] with
    n := some 1, fecDSz := 127, fecRSz := 128, reduBlocks := some 2 } : BasicFec).ScanSafe :=
  (scanSafe_iff _ (by decide) (by decide)).mpr (by decide)

/-- A header without FEC: `N` is read through a null pointer. -/
theorem no_fec_reads_n : ¬ (new [0, 1, 2]).ScanSafe := by
  intro hsafe
  have hread := hsafe.1 (.n none) (by decide)
  exact absurd hread (by decide)

end BasicFec

end Winject.Frames
