import Mathlib.Data.List.Basic
import Mathlib.Logic.Function.Iterate

/-!
# Shift registers with feedback

A register of `w` bits that divides a bit string, most significant bit first, by the
polynomial `X ^ w + poly` over the field with two elements.  `shift` moves the register
up by one place and subtracts the polynomial if a bit leaves it; `feed` adds a bit of
the string at the top and shifts.

The register is linear in its contents and in the bits together (`feedAll_xor`).
Feeding a register its own top bits moves it up with no subtraction (`feedAll_msbs`),
which is why a byte can be fed by a look-up in a table (`feedAll_table`).

## Main results

* `feedAll_table` — several bits at once, by a table.
* `feedAll_injective` — with an odd polynomial no two registers are brought together.
* `feedAll_inj_right` — no two strings of at most `w` bits leave the same register.
* `feedAll_ne_of_burst` — strings that differ within `w` consecutive places only
  leave different registers.
-/

namespace Winject.Lib.ShiftRegister

variable {w : Nat}

/-! ## The register -/

/-- Move the register up by one place; a bit that leaves it is divided away. -/
def shift (poly r : BitVec w) : BitVec w := if r.msb then (r <<< 1) ^^^ poly else r <<< 1

/-- Feed one bit. -/
def feed (poly r : BitVec w) (b : Bool) : BitVec w :=
  if r.msb ^^ b then (r <<< 1) ^^^ poly else r <<< 1

/-- Feed a bit string, first bit first. -/
def feedAll (poly r : BitVec w) (bits : List Bool) : BitVec w := bits.foldl (feed poly) r

@[simp] theorem feedAll_nil (poly r : BitVec w) : feedAll poly r [] = r := rfl

@[simp] theorem feedAll_cons (poly r : BitVec w) (b : Bool) (bits : List Bool) :
    feedAll poly r (b :: bits) = feedAll poly (feed poly r b) bits := rfl

theorem feedAll_append (poly r : BitVec w) (bits bits' : List Bool) :
    feedAll poly r (bits ++ bits') = feedAll poly (feedAll poly r bits) bits' :=
  List.foldl_append

/-- A zero bit only shifts. -/
theorem feed_false (poly r : BitVec w) : feed poly r false = shift poly r := by
  rw [feed, shift, Bool.xor_false]

theorem feedAll_zeros (poly r : BitVec w) (k : Nat) :
    feedAll poly r (List.replicate k false) = (shift poly)^[k] r := by
  induction k generalizing r with
  | zero => rfl
  | succ k ih =>
      rw [List.replicate_succ, feedAll_cons, feed_false, ih, Function.iterate_succ_apply]

/-! ## Linearity -/

theorem feed_xor (poly r s : BitVec w) (a b : Bool) :
    feed poly (r ^^^ s) (a ^^ b) = feed poly r a ^^^ feed poly s b := by
  have hmsb : ((r ^^^ s).msb ^^ (a ^^ b)) = ((r.msb ^^ a) ^^ (s.msb ^^ b)) := by
    rw [BitVec.msb_xor]
    cases r.msb <;> cases s.msb <;> cases a <;> cases b <;> rfl
  rw [feed, feed, feed, hmsb, BitVec.shiftLeft_xor_distrib]
  cases r.msb ^^ a <;> cases s.msb ^^ b <;> ext i hi <;> simp
  all_goals cases poly[i] <;> simp

theorem feedAll_xor (poly : BitVec w) :
    ∀ (r s : BitVec w) (xs ys : List Bool), xs.length = ys.length →
      feedAll poly (r ^^^ s) (List.zipWith xor xs ys) =
        feedAll poly r xs ^^^ feedAll poly s ys
  | r, s, [], [], _ => rfl
  | r, s, x :: xs, y :: ys, h => by
      rw [List.zipWith_cons_cons, feedAll_cons, feedAll_cons, feedAll_cons, feed_xor]
      exact feedAll_xor poly _ _ xs ys (Nat.succ_inj.mp h)

/-! ## The bits at the top -/

/-- The first `k` bits of a register, the most significant one first. -/
def msbs (k : Nat) (r : BitVec w) : List Bool := (List.range k).map r.getMsbD

@[simp] theorem length_msbs (k : Nat) (r : BitVec w) : (msbs k r).length = k := by
  simp [msbs]

/-- All bits of a register tell it. -/
theorem msbs_injective : Function.Injective (msbs w : BitVec w → List Bool) := by
  intro r s h
  apply BitVec.eq_of_getMsbD_eq
  intro i hi
  have hbit := congrArg (fun bits => bits.getD i false) h
  simpa [msbs, hi] using hbit

/-- The bits that a register is fed leave it: nothing is divided away. -/
theorem feedAll_msbs (poly r : BitVec w) (k : Nat) : feedAll poly r (msbs k r) = r <<< k := by
  induction k with
  | zero => simp [msbs]
  | succ k ih =>
      have hsplit : msbs (k + 1) r = msbs k r ++ [r.getMsbD k] := by
        rw [msbs, List.range_succ, List.map_append]
        rfl
      have htop : (r <<< k).msb = r.getMsbD k := by
        rw [BitVec.msb_eq_getMsbD_zero, BitVec.getMsbD_shiftLeft, Nat.zero_add]
      rw [hsplit, feedAll_append, ih, feedAll_cons, feedAll_nil, feed, htop, Bool.xor_self,
        if_neg Bool.false_ne_true, ← BitVec.shiftLeft_add]

/-- **Of the top bits of a register**, the ones that it is fed only move up; the rest
is shifted. -/
theorem feedAll_split (poly t s : BitVec w) (k : Nat) :
    feedAll poly (t ^^^ s) (msbs k t) = (t <<< k) ^^^ (shift poly)^[k] s := by
  have hzeros : List.zipWith xor (msbs k t) (List.replicate k false) = msbs k t := by
    apply List.ext_getElem <;> simp
  have hxor := feedAll_xor poly t s (msbs k t) (List.replicate k false) (by simp)
  rwa [hzeros, feedAll_msbs, feedAll_zeros] at hxor

/-- What `k` bits at the top of a register leave behind when they are shifted out. -/
def tableEntry (poly : BitVec w) {k : Nat} (d : BitVec k) : BitVec w :=
  (shift poly)^[k] (d.setWidth w <<< (w - k))

/-- **Feeding by a table.**  The register moves up by the number of the bits, and the
entry for the sum of its top part and the bits is added. -/
theorem feedAll_table (poly r : BitVec w) {k : Nat} (hk : k ≤ w) (c : BitVec k) :
    feedAll poly r (msbs k c) =
      (r <<< k) ^^^ tableEntry poly (c ^^^ (r >>> (w - k)).setWidth k) := by
  unfold tableEntry
  generalize hs : (c ^^^ (r >>> (w - k)).setWidth k).setWidth w <<< (w - k) = s
  have htop : ∀ i, i < k → s.getMsbD i = (c.getMsbD i ^^ r.getMsbD i) := by
    intro i hi
    have hup : i + (w - k) + k - w = i := by omega
    have hdown : i + w - k - (w - k) = i := by omega
    rw [← hs, BitVec.getMsbD_shiftLeft, BitVec.getMsbD_setWidth, hup, BitVec.getMsbD_xor,
      BitVec.getMsbD_setWidth, BitVec.getMsbD_ushiftRight, hdown]
    have hlt : i + w - k < w := by omega
    have hnlt : ¬ i + w - k < w - k := by omega
    simp [hlt, hnlt, Nat.sub_eq_zero_of_le hk]
  have hlow : s <<< k = 0#w := by
    rw [← hs, ← BitVec.shiftLeft_add, Nat.sub_add_cancel hk]
    exact BitVec.shiftLeft_eq_zero (Nat.le_refl w)
  have hbits : msbs k c = msbs k (r ^^^ s) := by
    apply List.map_congr_left
    intro i hi
    rw [BitVec.getMsbD_xor, htop i (List.mem_range.mp hi)]
    cases c.getMsbD i <;> cases r.getMsbD i <;> rfl
  have hr : r ^^^ s ^^^ s = r := by
    rw [BitVec.xor_assoc, BitVec.xor_self, BitVec.xor_zero]
  have hsplit := feedAll_split poly (r ^^^ s) s k
  rwa [hr, ← hbits, BitVec.shiftLeft_xor_distrib, hlow, BitVec.xor_zero] at hsplit

/-! ## Short strings -/

/-- A bit string at the top of a register. -/
def place (bits : List Bool) : BitVec w :=
  (BitVec.ofBoolListBE bits).setWidth w <<< (w - bits.length)

theorem getMsbD_place {bits : List Bool} (h : bits.length ≤ w) (i : Nat) :
    (place bits : BitVec w).getMsbD i = bits.getD i false := by
  have hup : i + (w - bits.length) + bits.length - w = i := by omega
  rw [place, BitVec.getMsbD_shiftLeft, BitVec.getMsbD_setWidth, hup,
    BitVec.getMsbD_ofBoolListBE, decide_eq_true (Nat.le_add_left _ _), Bool.true_and]

/-- A string that fits is read back. -/
theorem msbs_place {bits : List Bool} (h : bits.length ≤ w) :
    msbs bits.length (place bits : BitVec w) = bits := by
  apply List.ext_getElem
  · simp
  · intro i hi hi'
    simp [msbs, getMsbD_place h, hi']

/-- Below the string there are zeros. -/
theorem place_shiftLeft {bits : List Bool} (h : bits.length ≤ w) :
    (place bits : BitVec w) <<< bits.length = 0#w := by
  rw [place, ← BitVec.shiftLeft_add, Nat.sub_add_cancel h]
  exact BitVec.shiftLeft_eq_zero (Nat.le_refl w)

/-- A short string is fed at one stroke: it is added at the top, and the register is
shifted. -/
theorem feedAll_eq_shift (poly r : BitVec w) {bits : List Bool} (h : bits.length ≤ w) :
    feedAll poly r bits = (shift poly)^[bits.length] (r ^^^ place bits) := by
  have hr : place bits ^^^ (r ^^^ place bits) = r := by
    rw [BitVec.xor_comm r, ← BitVec.xor_assoc, BitVec.xor_self, BitVec.zero_xor]
  have hsplit := feedAll_split poly (place bits) (r ^^^ place bits) bits.length
  rwa [hr, msbs_place h, place_shiftLeft h, BitVec.zero_xor] at hsplit

/-! ## Different strings -/

/-- An odd polynomial keeps the bit that leaves the register. -/
theorem feed_getLsbD_zero {poly : BitVec w} (hodd : poly.getLsbD 0 = true) (r : BitVec w)
    (b : Bool) : (feed poly r b).getLsbD 0 = (r.msb ^^ b) := by
  cases h : r.msb ^^ b <;> simp [feed, h, hodd]

theorem feed_injective {poly : BitVec w} (hodd : poly.getLsbD 0 = true) (b : Bool) :
    Function.Injective fun r => feed poly r b := by
  intro r s (h : feed poly r b = feed poly s b)
  have htop : (r.msb ^^ b) = (s.msb ^^ b) := by
    rw [← feed_getLsbD_zero hodd, ← feed_getLsbD_zero hodd, h]
  have hmsb : r.msb = s.msb := by simpa using htop
  have hshift : r <<< 1 = s <<< 1 := by
    rw [feed, feed, htop] at h
    split_ifs at h
    · simpa using h
    · exact h
  apply BitVec.eq_of_getMsbD_eq
  intro i _
  cases i with
  | zero => rw [← BitVec.msb_eq_getMsbD_zero, ← BitVec.msb_eq_getMsbD_zero, hmsb]
  | succ i => rw [← BitVec.getMsbD_shiftLeft, ← BitVec.getMsbD_shiftLeft, hshift]

theorem feedAll_injective {poly : BitVec w} (hodd : poly.getLsbD 0 = true) (bits : List Bool) :
    Function.Injective fun r => feedAll poly r bits := by
  induction bits with
  | nil => exact fun r s h => h
  | cons b bits ih => exact ih.comp (feed_injective hodd b)

/-- **No two short strings** of one length leave the same register. -/
theorem feedAll_inj_right {poly : BitVec w} (hodd : poly.getLsbD 0 = true) (r : BitVec w)
    {xs ys : List Bool} (hlen : xs.length = ys.length) (hw : xs.length ≤ w)
    (h : feedAll poly r xs = feedAll poly r ys) : xs = ys := by
  have hplace : (place xs : BitVec w) = place ys := by
    have hinj := feedAll_injective hodd (List.replicate xs.length false)
    rw [feedAll_eq_shift poly r hw, feedAll_eq_shift poly r (hlen ▸ hw), ← hlen,
      ← feedAll_zeros, ← feedAll_zeros] at h
    simpa using hinj h
  rw [← msbs_place hw, hplace, hlen, msbs_place (hlen ▸ hw)]

/-- **A burst is seen.**  Strings of one length that differ, but within `w` consecutive
places only, leave different registers. -/
theorem feedAll_ne_of_burst {poly : BitVec w} (hodd : poly.getLsbD 0 = true) (r : BitVec w)
    {xs ys : List Bool} (hlen : xs.length = ys.length) (hne : xs ≠ ys) {s : Nat}
    (hburst : ∀ i, xs[i]? ≠ ys[i]? → s ≤ i ∧ i < s + w) :
    feedAll poly r xs ≠ feedAll poly r ys := by
  have hcut : ∀ zs : List Bool, zs = zs.take s ++ ((zs.drop s).take w ++ zs.drop (s + w)) := by
    intro zs
    rw [← List.drop_drop, List.take_append_drop, List.take_append_drop]
  have hhead : xs.take s = ys.take s := by
    apply List.ext_getElem?
    intro i
    rw [List.getElem?_take, List.getElem?_take]
    split_ifs with hi
    · by_contra hdiff
      have := hburst i hdiff
      omega
    · rfl
  have htail : xs.drop (s + w) = ys.drop (s + w) := by
    apply List.ext_getElem?
    intro i
    rw [List.getElem?_drop, List.getElem?_drop]
    by_contra hdiff
    have := hburst _ hdiff
    omega
  intro h
  apply hne
  rw [hcut xs, hcut ys, hhead, htail, feedAll_append, feedAll_append, feedAll_append,
    feedAll_append] at h
  have hwin := feedAll_inj_right hodd _ (by simp [hlen])
    (List.length_take_le _ _) (feedAll_injective hodd _ h)
  rw [hcut xs, hcut ys, hhead, htail, hwin]

end Winject.Lib.ShiftRegister
