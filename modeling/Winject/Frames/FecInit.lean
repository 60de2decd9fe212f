import Winject.Frames.BasicFec

/-!
# `basic_fec_t::init` and the scan in it

`init` stores the FEC type, scans the buffer and only then stores `N`.  So the blocks
that it leaves are those of the `N` that was in the buffer before.

## Main results

* `initAgrees_iff` — when this is what a scan of the resulting buffer finds.
-/

namespace Winject.Frames

namespace BasicFec

/-- A store through a pointer. -/
def store (f : BasicFec) (ptr : Option Nat) (value : UInt8) : BasicFec :=
  match ptr with
  | none => f
  | some i => { f with base := f.base.set i value }

/-- `basic_fec_t::init`. -/
def init (f : BasicFec) (fec n : UInt8) : Option BasicFec :=
  let (type, checker) := SafeChecker.get ⟨0, f.maxSize, true⟩ 1
  let f := { f with fecType := type, isValid := checker.validity }
  if !f.isValid then some f else
  (f.store f.fecType fec).rescan.fec.map (fun f => f.store f.n n)

/-- The members that a user reads. -/
structure View where
  isValid : Bool
  reduBlocks : Option Nat
  dataBlocks : Option Nat
  fecDSz : Nat
  fecRSz : Nat
  dataSz : Option Nat
  reduSz : Option Nat
  deriving DecidableEq, Repr

def view (f : BasicFec) : View where
  isValid := f.isValid
  reduBlocks := f.reduBlocks
  dataBlocks := f.dataBlocks
  fecDSz := f.fecDSz
  fecRSz := f.fecRSz
  dataSz := f.getDataSz
  reduSz := f.getReduSz

/-- What is there behind `init` is what a new object finds in the buffer. -/
def InitAgrees (f : BasicFec) (fec n : UInt8) : Prop :=
  ∃ f', f.init fec n = some f' ∧ ∃ fresh, f'.reset.rescan.fec = some fresh ∧ f'.view = fresh.view

/-- What is there behind `init` does not depend on the `N` that was in the buffer. -/
def InitForgets (f : BasicFec) (fec n : UInt8) : Prop :=
  ∀ old, ({ f with base := f.base.set 1 old }.init fec n).map view = (f.init fec n).map view

/-! ## The objects of a program -/

/-- What a program does with an object and its buffer. -/
inductive Op
  | init (fec n : UInt8)
  | rescan
  | reset
  | write (i : Nat) (value : UInt8)

/-- An operation, unless it reads through a null pointer. -/
def step (f : BasicFec) : Op → Option BasicFec
  | .init fec n => f.init fec n
  | .rescan => f.rescan.fec
  | .reset => some f.reset
  | .write i value => some { f with base := f.base.set i value }

/-- A run. -/
def run (f : BasicFec) : List Op → Option BasicFec
  | [] => some f
  | op :: ops => (f.step op).bind (·.run ops)

/-- What holds of the members in every run. -/
structure Held (f : BasicFec) : Prop where
  room : f.maxSize ≤ f.base.length
  count : f.n = none ∨ (f.n = some 1 ∧ 2 ≤ f.maxSize)
  short : f.maxSize ≤ 1 → f.dataBlocks = none ∧ f.reduBlocks = none ∧ f.fecDSz = 0 ∧ f.fecRSz = 0

theorem Held.new (base : List UInt8) : (new base).Held :=
  ⟨Nat.mod_le .., Or.inl rfl, fun _ => ⟨rfl, rfl, rfl, rfl⟩⟩

theorem Held.reset {f : BasicFec} (h : f.Held) : f.reset.Held :=
  ⟨h.room, Or.inl rfl, fun _ => ⟨rfl, rfl, rfl, rfl⟩⟩

/-- A null count in a buffer with no room for one. -/
theorem Held.n_none {f : BasicFec} (h : f.Held) (hshort : f.maxSize ≤ 1) : f.n = none :=
  h.count.resolve_right (by omega)

/-- A buffer with another content. -/
theorem Held.write {f : BasicFec} (h : f.Held) (i : Nat) (value : UInt8) :
    { f with base := f.base.set i value }.Held :=
  ⟨by simpa using h.room, h.count, h.short⟩

theorem Held.store {f : BasicFec} (h : f.Held) (ptr : Option Nat) (value : UInt8) :
    (f.store ptr value).Held := by
  cases ptr with
  | none => exact h
  | some i => exact h.write i value

/-- The blocks of a scan leave the header alone. -/
theorem scanBlocks_keeps {f f' : BasicFec} {checker : SafeChecker} {reads : List Read}
    (h : (f.scanBlocks checker reads).fec = some f') :
    f'.base = f.base ∧ f'.maxSize = f.maxSize ∧ f'.n = f.n := by
  unfold scanBlocks at h
  split at h
  · cases h
  · dsimp only at h
    split_ifs at h <;> cases h <;> exact ⟨rfl, rfl, rfl⟩

/-- The blocks are not reached without a count. -/
theorem scanBlocks_count_some {f f' : BasicFec} {checker : SafeChecker} {reads : List Read}
    (h : (f.scanBlocks checker reads).fec = some f') : f.n ≠ none := by
  intro hnone
  simp [scanBlocks, load, hnone] at h

/-- The header of a scan with a count. -/
theorem scanned_keeps (f : BasicFec) (ft n : UInt8) :
    (f.scanned ft n).base = f.base ∧ (f.scanned ft n).maxSize = f.maxSize ∧
      (f.scanned ft n).n = some 1 := by
  unfold scanned
  dsimp only
  split_ifs <;> simp

theorem Held.rescan {f f' : BasicFec} (h : f.Held) (hf' : f.rescan.fec = some f') : f'.Held := by
  have hroom := h.room
  by_cases hzero : f.maxSize = 0
  · rw [rescan_empty hzero] at hf'
    cases hf'
    exact h.reset
  have htype : f.base[0]? = some f.base[0] := List.getElem?_eq_getElem (by omega)
  by_cases hnone : f.base[0] = fecTypeNone
  · -- the count is that of an earlier scan
    rw [rescan_nonempty (by omega) htype] at hf'
    simp only [hnone, bne_self_eq_false, Bool.false_eq_true, if_false] at hf'
    have hcount := scanBlocks_count_some hf'
    obtain ⟨hbase, hmax, hn⟩ := scanBlocks_keeps hf'
    simp only [setBlockSizes_base, setBlockSizes_maxSize, setBlockSizes_n] at hbase hmax hn hcount
    obtain ⟨hone, htwo⟩ := h.count.resolve_left hcount
    exact ⟨by rwa [hbase, hmax], Or.inr ⟨hn.trans hone, by rwa [hmax]⟩, fun hle => by omega⟩
  by_cases hone : f.maxSize = 1
  · rw [rescan_short hone htype hnone] at hf'
    cases hf'
    exact ⟨hroom, Or.inl rfl, h.short⟩
  · have hn : f.base[1]? = some f.base[1] := List.getElem?_eq_getElem (by omega)
    rw [rescan_of_type (by omega) htype hnone hn] at hf'
    cases hf'
    obtain ⟨hbase, hmax, hcount⟩ := f.scanned_keeps f.base[0] f.base[1]
    exact ⟨by rwa [hbase, hmax], Or.inr ⟨hcount, by omega⟩, fun hle => by omega⟩

/-! ## The ways of `init` -/

variable {f : BasicFec}

theorem init_empty (h : f.maxSize = 0) (fec n : UInt8) :
    f.init fec n = some { f with fecType := none, isValid := false } := by
  simp [init, SafeChecker.get, h]

/-- The object that `init` scans. -/
def typed (f : BasicFec) (fec : UInt8) : BasicFec :=
  { f with base := f.base.set 0 fec, fecType := some 0, isValid := true }

theorem init_nonempty (h : 0 < f.maxSize) (fec n : UInt8) :
    f.init fec n = (f.typed fec).rescan.fec.map (fun f => f.store f.n n) := by
  have hget : SafeChecker.get ⟨0, f.maxSize, true⟩ 1 = (some 0, ⟨1, f.maxSize, true⟩) :=
    get_of_le (by simpa using Nat.succ_le_of_lt h)
  simp [init, hget, store, typed]

theorem Held.init {f' : BasicFec} (h : f.Held) {fec n : UInt8} (hf' : f.init fec n = some f') :
    f'.Held := by
  by_cases hzero : f.maxSize = 0
  · rw [init_empty hzero] at hf'
    cases hf'
    exact ⟨h.room, h.count, h.short⟩
  · rw [init_nonempty (by omega), Option.map_eq_some_iff] at hf'
    obtain ⟨g, hg, rfl⟩ := hf'
    have hstart : (f.typed fec).Held := ⟨(h.write 0 fec).room, h.count, h.short⟩
    exact (hstart.rescan hg).store ..

theorem Held.step {f' : BasicFec} (h : f.Held) {op : Op} (hf' : f.step op = some f') :
    f'.Held := by
  cases op with
  | init fec n => exact h.init hf'
  | rescan => exact h.rescan hf'
  | reset =>
      cases hf'
      exact h.reset
  | write i value =>
      cases hf'
      exact h.write i value

theorem Held.run {f' : BasicFec} {ops : List Op} (h : f.Held) (hf' : f.run ops = some f') :
    f'.Held := by
  induction ops generalizing f with
  | nil =>
      cases hf'
      exact h
  | cons op ops ih =>
      obtain ⟨g, hg, hrun⟩ := Option.bind_eq_some_iff.mp hf'
      exact ih (h.step hg) hrun

/-! ## What is there behind `init` -/

/-- The members behind a scan of `old` blocks, in a buffer with the count `n`. -/
def viewOf (f : BasicFec) (ft old n : UInt8) : View where
  isValid := (f.scanned ft old).isValid
  reduBlocks := (f.scanned ft old).reduBlocks
  dataBlocks := (f.scanned ft old).dataBlocks
  fecDSz := (f.scanned ft old).fecDSz
  fecRSz := (f.scanned ft old).fecRSz
  dataSz := some (n.toNat * (f.scanned ft old).fecDSz)
  reduSz := some (n.toNat * (f.scanned ft old).fecRSz)

theorem view_scanned {ft old n : UInt8} {base : List UInt8} (hn : base[1]? = some n) :
    { f.scanned ft old with base := base }.view = f.viewOf ft old n := by
  have hload : { f.scanned ft old with base := base }.load (f.scanned ft old).n = some n := by
    rw [(f.scanned_keeps ft old).2.2]
    exact hn
  have hdata : { f.scanned ft old with base := base }.getDataSz =
      some (n.toNat * (f.scanned ft old).fecDSz) := congrArg (Option.map _) hload
  have hredu : { f.scanned ft old with base := base }.getReduSz =
      some (n.toNat * (f.scanned ft old).fecRSz) := congrArg (Option.map _) hload
  simp [view, viewOf, hdata, hredu]

/-- `init` leaves the blocks of the old count. -/
theorem init_scanned (h : 2 ≤ f.maxSize) (hroom : f.maxSize ≤ f.base.length) {fec old : UInt8}
    (hsome : fec ≠ fecTypeNone) (hold : f.base[1]? = some old) (n : UInt8) :
    f.init fec n = some { (f.typed fec).scanned fec old with
      base := (f.base.set 0 fec).set 1 n } := by
  have htype : (f.typed fec).base[0]? = some fec := List.getElem?_set_self (by omega)
  have hcount : (f.typed fec).base[1]? = some old := by
    show (f.base.set 0 fec)[1]? = some old
    rw [List.getElem?_set_ne (by omega), hold]
  have hmax : 2 ≤ (f.typed fec).maxSize := h
  rw [init_nonempty (by omega), rescan_of_type hmax htype hsome hcount]
  obtain ⟨hbase, -, hn⟩ := scanned_keeps (f.typed fec) fec old
  simp only [Option.map_some, store, hn, hbase]
  rfl

/-- The redundancy of a block, a column of the table in `rescan`. -/
def blockRedu (ft : UInt8) : Nat := (setBlockSizes { base := [], maxSize := 0 } ft).fecRSz

theorem blockRedu_pos {ft : UInt8} (hlow : 1 ≤ ft) (hhigh : ft ≤ 5) :
    0 < blockRedu ft ∧ blockRedu ft < 255 := by
  have hcases : ft = 1 ∨ ft = 2 ∨ ft = 3 ∨ ft = 4 ∨ ft = 5 := by grind
  rcases hcases with rfl | rfl | rfl | rfl | rfl <;> decide

/-- The sizes of the types 1 to 5 are those of the table. -/
theorem counted_eq {ft : UInt8} (hlow : 1 ≤ ft) (hhigh : ft ≤ 5) : f.counted ft =
    { f with
      fecType := some 0
      n := some 1
      isValid := true
      fecDSz := 255 - blockRedu ft
      fecRSz := blockRedu ft } := by
  have hcases : ft = 1 ∨ ft = 2 ∨ ft = 3 ∨ ft = 4 ∨ ft = 5 := by grind
  rcases hcases with rfl | rfl | rfl | rfl | rfl <;> rfl

/-- The blocks of the count in the buffer are those that a new object finds. -/
def SameBlocks (f : BasicFec) (fec old n : UInt8) : Prop :=
  (2 + old.toNat * 255 ≤ f.maxSize ∧ n = old) ∨
    (2 + old.toNat * blockRedu fec ≤ f.maxSize ∧ f.maxSize < 2 + old.toNat * 255 ∧
      2 + n.toNat * blockRedu fec ≤ f.maxSize ∧ f.maxSize < 2 + n.toNat * 255) ∨
    (f.maxSize < 2 + old.toNat * blockRedu fec ∧ f.maxSize < 2 + n.toNat * blockRedu fec ∧
      f.dataBlocks = none)

/-- The members that do not depend on the old count, and the three ways of the others. -/
def viewWith (fec n : UInt8) (isValid : Bool) (redu data : Option Nat) : View where
  isValid := isValid
  reduBlocks := redu
  dataBlocks := data
  fecDSz := 255 - blockRedu fec
  fecRSz := blockRedu fec
  dataSz := some (n.toNat * (255 - blockRedu fec))
  reduSz := some (n.toNat * blockRedu fec)

/-- Of one type and count, the three ways have different members. -/
theorem viewWith_inj {fec n : UInt8} {isValid isValid' : Bool} {redu redu' data data' : Option Nat} :
    viewWith fec n isValid redu data = viewWith fec n isValid' redu' data' ↔
      isValid = isValid' ∧ redu = redu' ∧ data = data' := by
  simp [viewWith]

theorem viewOf_ways {fec : UInt8} (hlow : 1 ≤ fec) (hhigh : fec ≤ 5) (old n : UInt8) :
    (f.maxSize < 2 + old.toNat * blockRedu fec ∧
        f.viewOf fec old n = viewWith fec n false none f.dataBlocks) ∨
      (2 + old.toNat * blockRedu fec ≤ f.maxSize ∧ f.maxSize < 2 + old.toNat * 255 ∧
        f.viewOf fec old n = viewWith fec n false (some 2) none) ∨
      (2 + old.toNat * 255 ≤ f.maxSize ∧ f.viewOf fec old n =
        viewWith fec n true (some 2) (some (2 + old.toNat * blockRedu fec))) := by
  have hall : old.toNat * blockRedu fec + old.toNat * (255 - blockRedu fec) =
      old.toNat * 255 := by
    rw [← Nat.mul_add, Nat.add_sub_cancel' (blockRedu_pos hlow hhigh).2.le]
  unfold viewOf scanned
  rw [counted_eq hlow hhigh]
  dsimp only
  rw [Nat.add_assoc, hall]
  by_cases hredu : f.maxSize < 2 + old.toNat * blockRedu fec
  · exact Or.inl ⟨hredu, by simp [hredu, viewWith]⟩
  · by_cases hdata : f.maxSize < 2 + old.toNat * 255
    · exact Or.inr (Or.inl ⟨Nat.le_of_not_lt hredu, hdata, by simp [hredu, hdata, viewWith]⟩)
    · exact Or.inr (Or.inr ⟨Nat.le_of_not_lt hdata, by simp [hredu, hdata, viewWith]⟩)

/-- Only the room and the data pointer of an earlier scan matter. -/
theorem viewOf_congr {g : BasicFec} (hmax : g.maxSize = f.maxSize)
    (hdata : g.dataBlocks = f.dataBlocks) {fec : UInt8} (hlow : 1 ≤ fec) (hhigh : fec ≤ 5)
    (old n : UInt8) : g.viewOf fec old n = f.viewOf fec old n := by
  unfold viewOf scanned
  rw [counted_eq hlow hhigh, counted_eq hlow hhigh]
  dsimp only
  rw [hmax, hdata]
  split_ifs <;> rfl

theorem viewOf_eq_iff {g : BasicFec} (hmax : g.maxSize = f.maxSize) (hdata : g.dataBlocks = none)
    {fec : UInt8} (hlow : 1 ≤ fec) (hhigh : fec ≤ 5) (old n : UInt8) :
    f.viewOf fec old n = g.viewOf fec n n ↔ f.SameBlocks fec old n := by
  have hpos := blockRedu_pos hlow hhigh
  have hsame : old.toNat * blockRedu fec = n.toNat * blockRedu fec ↔ n = old := by
    rw [Nat.mul_left_inj (by omega), UInt8.toNat_inj, eq_comm]
  have hle : ∀ m : UInt8, m.toNat * blockRedu fec ≤ m.toNat * 255 :=
    fun m => Nat.mul_le_mul_left _ hpos.2.le
  have hold := hle old
  have hnew := hle n
  have hways := g.viewOf_ways hlow hhigh n n
  rw [hmax, hdata] at hways
  unfold SameBlocks
  -- the data begins behind the redundancy, so that in the last case the counts are equal
  rcases f.viewOf_ways hlow hhigh old n with ⟨h, heq⟩ | ⟨h, h', heq⟩ | ⟨h, heq⟩
  · rw [heq]
    rcases hways with ⟨hg, hgeq⟩ | ⟨hg, hg', hgeq⟩ | ⟨hg, hgeq⟩ <;>
      rw [hgeq, viewWith_inj] <;> grind
  · rw [heq]
    rcases hways with ⟨hg, hgeq⟩ | ⟨hg, hg', hgeq⟩ | ⟨hg, hgeq⟩ <;>
      rw [hgeq, viewWith_inj] <;> grind
  · rw [heq]
    rcases hways with ⟨hg, hgeq⟩ | ⟨hg, hg', hgeq⟩ | ⟨hg, hgeq⟩ <;>
      rw [hgeq, viewWith_inj] <;> grind

theorem ne_fecTypeNone {fec : UInt8} (hlow : 1 ≤ fec) : fec ≠ fecTypeNone := by
  rintro rfl
  exact absurd hlow (by decide)

/-- The members of a new object. -/
def View.blank : View := view { base := [], maxSize := 0 }

theorem view_blank (hvalid : f.isValid = false) (hn : f.n = none) (hdata : f.dataBlocks = none)
    (hredu : f.reduBlocks = none) (hd : f.fecDSz = 0) (hr : f.fecRSz = 0) :
    f.view = View.blank := by
  simp [View.blank, view, getDataSz, getReduSz, load, *]

/-- In a buffer without a count `init` leaves what a new object has. -/
theorem Held.init_short (h : f.Held) (hshort : f.maxSize ≤ 1) {fec : UInt8} (hlow : 1 ≤ fec)
    (n : UInt8) : ∃ f', f.init fec n = some f' ∧ f'.view = View.blank ∧
      ∃ fresh, f'.reset.rescan.fec = some fresh ∧ fresh.view = View.blank := by
  obtain ⟨hdata, hredu, hd, hr⟩ := h.short hshort
  have hn := h.n_none hshort
  by_cases hzero : f.maxSize = 0
  · refine ⟨_, init_empty hzero fec n, view_blank rfl hn hdata hredu hd hr, f.reset, ?_, ?_⟩
    · exact congrArg Scan.fec (f.reset.rescan_empty hzero)
    · exact view_blank rfl rfl rfl rfl rfl rfl
  · have hroom := h.room
    have hone : (f.typed fec).maxSize = 1 := by
      show f.maxSize = 1
      omega
    have htype : (f.typed fec).base[0]? = some fec := List.getElem?_set_self (by omega)
    have hsome := ne_fecTypeNone hlow
    have hfresh : (f.typed fec).reset.rescan.fec = _ :=
      congrArg Scan.fec ((f.typed fec).reset.rescan_short hone htype hsome)
    refine ⟨{ f.typed fec with n := none, isValid := false }, ?_, ?_, _, hfresh, ?_⟩
    · rw [init_nonempty (by omega), rescan_short hone htype hsome]
      rfl
    · exact view_blank rfl rfl hdata hredu hd hr
    · exact view_blank rfl rfl rfl rfl rfl rfl

/-- What a new object finds in a buffer with a count. -/
theorem fresh_view (hlong : 2 ≤ f.maxSize) {fec n : UInt8} (hlow : 1 ≤ fec)
    (htype : f.base[0]? = some fec) (hn : f.base[1]? = some n) :
    ∃ fresh, f.reset.rescan.fec = some fresh ∧ fresh.view = f.reset.viewOf fec n n := by
  have hscan := f.reset.rescan_of_type hlong htype (ne_fecTypeNone hlow) hn
  refine ⟨_, congrArg Scan.fec hscan, ?_⟩
  have hbase : (f.reset.scanned fec n).base = f.base := (f.reset.scanned_keeps fec n).1
  rw [← view_scanned hn, ← hbase]

/-- In a buffer with a count, the members behind `init` and those of a new object. -/
theorem Held.init_long (h : f.Held) (hlong : 2 ≤ f.maxSize) {fec old : UInt8} (hlow : 1 ≤ fec)
    (hhigh : fec ≤ 5) (hold : f.base[1]? = some old) (n : UInt8) :
    ∃ f', f.init fec n = some f' ∧ f'.view = f.viewOf fec old n ∧
      ∃ fresh, f'.reset.rescan.fec = some fresh ∧ fresh.view = f.reset.viewOf fec n n := by
  have hroom := h.room
  have hn : ((f.base.set 0 fec).set 1 n)[1]? = some n :=
    List.getElem?_set_self (by rw [List.length_set]; omega)
  have htype : ((f.base.set 0 fec).set 1 n)[0]? = some fec := by
    rw [List.getElem?_set_ne (by omega), List.getElem?_set_self (by omega)]
  obtain ⟨f', hf', hbase, hmax, hview⟩ : ∃ f', f.init fec n = some f' ∧
      f'.base = (f.base.set 0 fec).set 1 n ∧ f'.maxSize = f.maxSize ∧
      f'.view = (f.typed fec).viewOf fec old n :=
    ⟨_, init_scanned hlong hroom (ne_fecTypeNone hlow) hold n, rfl,
      (scanned_keeps (f.typed fec) fec old).2.1, view_scanned hn⟩
  rw [← hbase] at hn htype
  obtain ⟨fresh, hfresh, hfview⟩ := fresh_view (hmax ▸ hlong) hlow htype hn
  have hsame : (f.typed fec).viewOf fec old n = f.viewOf fec old n :=
    viewOf_congr (f := f) (g := f.typed fec) rfl rfl hlow hhigh old n
  have hreset : f'.reset.viewOf fec n n = f.reset.viewOf fec n n :=
    viewOf_congr (f := f.reset) (g := f'.reset) hmax rfl hlow hhigh n n
  exact ⟨f', hf', hview.trans hsame, fresh, hfresh, hfview.trans hreset⟩

theorem Held.initAgrees_iff (h : f.Held) {fec : UInt8} (hlow : 1 ≤ fec) (hhigh : fec ≤ 5)
    (n : UInt8) : f.InitAgrees fec n ↔
      f.maxSize ≤ 1 ∨ ∃ old, f.base[1]? = some old ∧ f.SameBlocks fec old n := by
  have hroom := h.room
  by_cases hshort : f.maxSize ≤ 1
  · obtain ⟨f', hf', hview, fresh, hfresh, hsame⟩ := h.init_short hshort hlow n
    exact iff_of_true ⟨f', hf', fresh, hfresh, hview.trans hsame.symm⟩ (Or.inl hshort)
  · have hold : f.base[1]? = some f.base[1] := List.getElem?_eq_getElem (by omega)
    obtain ⟨f', hf', hview, fresh, hfresh, hfview⟩ := h.init_long (by omega) hlow hhigh hold n
    have hiff := viewOf_eq_iff (g := f.reset) (f := f) rfl rfl hlow hhigh f.base[1] n
    rw [← hview, ← hfview] at hiff
    simp only [InitAgrees, hf', Option.some.injEq, exists_eq_left', hfresh, hiff, hshort,
      false_or, hold]

/-- Only in a buffer without a count does `init` forget the old one. -/
theorem Held.initForgets_iff (h : f.Held) {fec : UInt8} (hlow : 1 ≤ fec) (hhigh : fec ≤ 5)
    (n : UInt8) : f.InitForgets fec n ↔ f.maxSize ≤ 1 := by
  have hroom := h.room
  constructor
  · intro hforgets
    by_contra hlong
    have hview : ∀ old, (f.init fec n).map view = some (f.viewOf fec old n) := by
      intro old
      have hold : (f.base.set 1 old)[1]? = some old := List.getElem?_set_self (by omega)
      obtain ⟨f', hf', hview, -⟩ :=
        (h.write 1 old).init_long (by simpa using by omega) hlow hhigh hold n
      have hwritten : { f with base := f.base.set 1 old }.viewOf fec old n = f.viewOf fec old n :=
        viewOf_congr (f := f) (g := { f with base := f.base.set 1 old }) rfl rfl hlow hhigh old n
      rw [← hforgets old, hf', Option.map_some, hview, hwritten]
    have hsame : f.viewOf fec 0 n = f.viewOf fec 1 n :=
      Option.some.inj ((hview 0).symm.trans (hview 1))
    have hpos := blockRedu_pos hlow hhigh
    -- no block fits in any buffer, but one block begins behind its redundancy
    have hzero : f.viewOf fec 0 n = viewWith fec n true (some 2) (some 2) := by
      rcases f.viewOf_ways hlow hhigh 0 n with ⟨hlt, -⟩ | ⟨-, hlt, -⟩ | ⟨-, heq⟩
      · simp at hlt
        omega
      · simp at hlt
        omega
      · simpa using heq
    rw [hzero] at hsame
    rcases f.viewOf_ways hlow hhigh 1 n with ⟨-, heq⟩ | ⟨-, -, heq⟩ | ⟨-, heq⟩ <;>
      rw [heq] at hsame
    · exact absurd (congrArg View.isValid hsame) Bool.noConfusion
    · exact absurd (congrArg View.isValid hsame) Bool.noConfusion
    · have hdata := Option.some.inj (congrArg View.dataBlocks hsame)
      simp at hdata
      omega
  · intro hshort old
    obtain ⟨f', hf', hview, -⟩ := h.init_short hshort hlow n
    obtain ⟨f'', hf'', hview', -⟩ := (h.write 1 old).init_short hshort hlow n
    rw [hf', hf'', Option.map_some, Option.map_some, hview, hview']

/-- **What is there behind `init` is what a new object finds iff both counts lead to the
same blocks**, for every object that a program has; and it depends on the old count in
every buffer that has one. -/
theorem init_agrees_iff (base : List UInt8) (ops : List Op) (f : BasicFec)
    (hf : (new base).run ops = some f) (fec n : UInt8) (hlow : 1 ≤ fec) (hhigh : fec ≤ 5) :
    (f.InitAgrees fec n ↔
        f.maxSize ≤ 1 ∨ ∃ old, f.base[1]? = some old ∧ f.SameBlocks fec old n) ∧
      (f.InitForgets fec n ↔ f.maxSize ≤ 1) := by
  have hheld := (Held.new base).run hf
  exact ⟨hheld.initAgrees_iff hlow hhigh n, hheld.initForgets_iff hlow hhigh n⟩

/-- `init` with the count that is in the buffer. -/
theorem same_count_agrees :
    (new [1, 0, 7]).InitAgrees 2 0 ∧ ¬ (new [1, 0, 7]).InitForgets 2 0 := by
  have hiff := init_agrees_iff [1, 0, 7] [] (new [1, 0, 7]) rfl 2 0 (by decide) (by decide)
  exact ⟨hiff.1.mpr (Or.inr ⟨0, rfl, Or.inl ⟨by decide, rfl⟩⟩), hiff.2.not.mpr (by decide)⟩

/-- `init` of one block in a buffer of four zeroes. -/
theorem zeroes_disagree : ¬ (new [0, 0, 0, 0]).InitAgrees 1 1 := by
  rw [(Held.new _).initAgrees_iff (by decide) (by decide)]
  rintro (hshort | ⟨old, hold, hsame⟩)
  · exact absurd hshort (by decide)
  · cases hold
    revert hsame
    unfold SameBlocks
    decide

end BasicFec

end Winject.Frames
