import Winject.Lib.ShiftRegister
import Mathlib.Algebra.Polynomial.Div
import Mathlib.Algebra.CharP.Two
import Mathlib.Algebra.Field.ZMod

/-!
# A shift register divides polynomials

The register of `Lib.ShiftRegister` and the bit string it is fed as polynomials over the
field with two elements.  Feeding a string leaves the remainder of the string, moved up
by the width of the register, by `X ^ w + poly`.

## Main results

* `toPoly_feed` — one bit.
* `toPoly_feedAll` — a string: the register is the remainder.
-/

namespace Winject.Lib.Remainder

open Polynomial
open Winject.Lib.ShiftRegister

variable {w : Nat}

/-! ## Coefficients -/

/-- A bit as a coefficient. -/
def bit (b : Bool) : ZMod 2 := b.toNat

@[simp] theorem bit_false : bit false = 0 := rfl

theorem bit_xor (a b : Bool) : bit (a ^^ b) = bit a + bit b := by
  cases a <;> cases b <;> decide

/-- A register as a polynomial: bit `i` is the coefficient of `X ^ i`. -/
noncomputable def toPoly (r : BitVec w) : (ZMod 2)[X] :=
  ∑ i ∈ Finset.range w, monomial i (bit (r.getLsbD i))

/-- A bit string as a polynomial: the last bit is the constant coefficient. -/
noncomputable def ofBits : List Bool → (ZMod 2)[X]
  | [] => 0
  | b :: bits => C (bit b) * X ^ bits.length + ofBits bits

theorem coeff_toPoly (r : BitVec w) (n : Nat) : (toPoly r).coeff n = bit (r.getLsbD n) := by
  simp only [toPoly, finsetSum_coeff, coeff_monomial, Finset.sum_ite_eq', Finset.mem_range]
  split_ifs with hn
  · rfl
  · rw [BitVec.getLsbD_of_ge _ _ (Nat.le_of_not_lt hn), bit_false]

theorem degree_toPoly_lt (r : BitVec w) : (toPoly r).degree < w := by
  rw [degree_lt_iff_coeff_zero]
  intro n hn
  rw [coeff_toPoly, BitVec.getLsbD_of_ge _ _ hn, bit_false]

theorem toPoly_xor (r s : BitVec w) : toPoly (r ^^^ s) = toPoly r + toPoly s := by
  ext n
  rw [coeff_add, coeff_toPoly, coeff_toPoly, coeff_toPoly, BitVec.getLsbD_xor, bit_xor]

/-- Moving up multiplies by `X`, less the bit that leaves. -/
theorem toPoly_shiftLeft (r : BitVec w) :
    toPoly (r <<< 1) = X * toPoly r - C (bit r.msb) * X ^ w := by
  ext n
  rw [coeff_sub, coeff_C_mul, coeff_X_pow, coeff_toPoly, BitVec.getLsbD_shiftLeft]
  cases n with
  | zero => cases w <;> simp [BitVec.msb_eq_getLsbD_last]
  | succ n =>
      rw [coeff_X_mul, coeff_toPoly, Nat.add_sub_cancel]
      rcases Nat.lt_trichotomy (n + 1) w with hn | rfl | hn
      · simp [hn, Nat.ne_of_lt hn]
      · simp [BitVec.msb_eq_getLsbD_last]
      · simp [Nat.ne_of_gt hn, BitVec.getLsbD_of_ge r n (by omega)]

/-! ## Division -/

/-- The polynomial that a register divides by. -/
noncomputable def divisor (poly : BitVec w) : (ZMod 2)[X] := X ^ w + toPoly poly

theorem divisor_monic (poly : BitVec w) : (divisor poly).Monic :=
  monic_X_pow_add (degree_toPoly_lt poly)

theorem degree_divisor (poly : BitVec w) : (divisor poly).degree = w := by
  rw [divisor, degree_add_eq_left_of_degree_lt, degree_X_pow]
  rw [degree_X_pow]
  exact degree_toPoly_lt poly

/-- One bit: multiply by `X`, add the bit at the top, subtract the divisor if it goes in. -/
theorem toPoly_feed (poly r : BitVec w) (b : Bool) :
    toPoly (feed poly r b) =
      X * toPoly r + C (bit b) * X ^ w - C (bit (r.msb ^^ b)) * divisor poly := by
  have hfeed : toPoly (feed poly r b) =
      toPoly (r <<< 1) + C (bit (r.msb ^^ b)) * toPoly poly := by
    unfold feed
    cases r.msb ^^ b
    · simp
    · simp [toPoly_xor, bit]
  have hcancel : C (bit b) * X ^ w + C (bit b) * X ^ w = 0 := CharTwo.add_self_eq_zero _
  calc toPoly (feed poly r b)
      = X * toPoly r + C (bit r.msb) * X ^ w + C (bit (r.msb ^^ b)) * toPoly poly := by
        rw [hfeed, toPoly_shiftLeft, CharTwo.sub_eq_add]
    _ = X * toPoly r + C (bit r.msb) * X ^ w + (C (bit b) * X ^ w + C (bit b) * X ^ w) +
          C (bit (r.msb ^^ b)) * toPoly poly := by rw [hcancel, add_zero]
    _ = X * toPoly r + C (bit b) * X ^ w - C (bit (r.msb ^^ b)) * divisor poly := by
        rw [CharTwo.sub_eq_add, divisor, bit_xor, C_add]
        ring

/-- **A string leaves its remainder** in the register. -/
theorem toPoly_feedAll (poly r : BitVec w) (bits : List Bool) :
    toPoly (feedAll poly r bits) =
      (toPoly r * X ^ bits.length + ofBits bits * X ^ w) %ₘ divisor poly := by
  have hquot : ∃ q, toPoly (feedAll poly r bits) + divisor poly * q =
      toPoly r * X ^ bits.length + ofBits bits * X ^ w := by
    induction bits generalizing r with
    | nil => exact ⟨0, by simp [ofBits]⟩
    | cons b bits ih =>
        obtain ⟨q, hq⟩ := ih (feed poly r b)
        refine ⟨q + C (bit (r.msb ^^ b)) * X ^ bits.length, ?_⟩
        rw [feedAll_cons, mul_add, ← add_assoc, hq, toPoly_feed, ofBits, List.length_cons]
        ring
  obtain ⟨q, hq⟩ := hquot
  have hdeg : (toPoly (feedAll poly r bits)).degree < (divisor poly).degree := by
    rw [degree_divisor]
    exact degree_toPoly_lt _
  exact (div_modByMonic_unique q _ (divisor_monic poly) ⟨hq, hdeg⟩).2.symm

end Winject.Lib.Remainder
