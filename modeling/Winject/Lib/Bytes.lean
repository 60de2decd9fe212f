import Mathlib.Data.List.Basic
import Mathlib.Data.Nat.Bitwise
import Mathlib.Tactic.IntervalCases

/-!
# Byte strings: big-endian words and in-place copies

The memory operations that the frame codecs are built from, over arbitrary
lists.  A buffer is a list, a pointer into it is an index, and

* `blit dst pos src` is `memcpy(dst + pos, src, |src|)`;
* `readBe16` and `be16` are the two directions of a big-endian 16-bit load
  and store (`be16toh`, `htobe16`);
* `grow pad n dst` is a vector or buffer resize that never shrinks.

The lemmas split a buffer at the written region, which is how every codec
proof below uses them: a store replaces the middle of `a ++ (b ++ c)` and
leaves `a` and `c` alone.
-/

namespace Winject.Lib.Bytes

variable {α : Type}

/-! ## Copying into a buffer -/

/-- `memcpy` of `src` into `dst` at index `pos`. -/
def blit (dst : List α) (pos : Nat) (src : List α) : List α :=
  dst.take pos ++ (src ++ dst.drop (pos + src.length))

/-- A store into the middle block replaces exactly that block. -/
theorem blit_append (a b c src : List α) (pos : Nat)
    (hpos : a.length = pos) (hlen : b.length = src.length) :
    blit (a ++ (b ++ c)) pos src = a ++ (src ++ c) := by
  have hdrop : (a ++ (b ++ c)).drop (pos + src.length) = c := by
    rw [← List.append_assoc]
    exact List.drop_left' (by simp [hpos, hlen])
  rw [blit, hdrop, List.take_left' hpos]

theorem blit_length (dst : List α) (pos : Nat) (src : List α)
    (h : pos + src.length ≤ dst.length) :
    (blit dst pos src).length = dst.length := by
  simp only [blit, List.length_append, List.length_take, List.length_drop]
  omega

/-- Cells inside the copied region read the source. -/
theorem blit_getElem?_inside (dst : List α) (pos : Nat) (src : List α) (i : Nat)
    (h : pos + src.length ≤ dst.length) (hlo : pos ≤ i)
    (hhi : i < pos + src.length) :
    (blit dst pos src)[i]? = src[i - pos]? := by
  have htake : (dst.take pos).length = pos := by
    rw [List.length_take]; omega
  rw [blit, List.getElem?_append_right (by omega), htake,
    List.getElem?_append_left (by omega)]

/-- Cells outside the copied region keep their value. -/
theorem blit_getElem?_outside (dst : List α) (pos : Nat) (src : List α) (i : Nat)
    (h : pos + src.length ≤ dst.length)
    (hout : i < pos ∨ pos + src.length ≤ i) :
    (blit dst pos src)[i]? = dst[i]? := by
  have htake : (dst.take pos).length = pos := by
    rw [List.length_take]; omega
  rcases hout with hlo | hhi
  · rw [blit, List.getElem?_append_left (by omega),
      List.getElem?_take_of_lt hlo]
  · rw [blit, List.getElem?_append_right (by omega), htake,
      List.getElem?_append_right (by omega), List.getElem?_drop]
    congr 1
    omega

/-- Stores of single bytes from index `pos` on; those behind the end are lost. -/
def poke (dst : List α) (pos : Nat) : List α → List α
  | [] => dst
  | x :: xs => poke (dst.set pos x) (pos + 1) xs

@[simp] theorem poke_length (dst : List α) (pos : Nat) (src : List α) :
    (poke dst pos src).length = dst.length := by
  induction src generalizing dst pos with
  | nil => rfl
  | cons x xs ih => rw [poke, ih, List.length_set]

/-- Cells in front of the stores keep their value. -/
theorem poke_getElem?_of_lt {dst : List α} {pos i : Nat} {src : List α} (h : i < pos) :
    (poke dst pos src)[i]? = dst[i]? := by
  induction src generalizing dst pos with
  | nil => rfl
  | cons x xs ih => rw [poke, ih (by omega), List.getElem?_set_ne (by omega)]

/-- Stores in front of index `k` leave the rest alone. -/
theorem poke_drop {dst src : List α} {pos k : Nat} (h : pos + src.length ≤ k) :
    (poke dst pos src).drop k = dst.drop k := by
  induction src generalizing dst pos with
  | nil => rfl
  | cons x xs ih =>
      rw [List.length_cons] at h
      rw [poke, ih (by omega), List.drop_set_of_lt (by omega)]

/-- Stores into the middle block replace exactly that block. -/
theorem poke_append {a b c src : List α} {pos : Nat} (hpos : a.length = pos)
    (hlen : b.length = src.length) : poke (a ++ (b ++ c)) pos src = a ++ (src ++ c) := by
  subst hpos
  induction src generalizing a b with
  | nil =>
      rw [List.length_eq_zero_iff.mp hlen]
      rfl
  | cons x xs ih =>
      obtain ⟨y, b', rfl⟩ := List.exists_cons_of_length_eq_add_one hlen
      have hset : (a ++ (y :: b' ++ c)).set a.length x = a ++ [x] ++ (b' ++ c) := by
        rw [List.set_append_right _ _ (le_refl _), Nat.sub_self, List.append_assoc]
        rfl
      have hnext := ih (a := a ++ [x]) (b := b') (by simpa using hlen)
      rw [List.length_append, List.length_singleton] at hnext
      rw [poke, hset, hnext, List.append_assoc]
      rfl

/-- The bytes that were stored read back. -/
theorem poke_read {dst src : List α} {pos : Nat} (h : pos + src.length ≤ dst.length) :
    ((poke dst pos src).drop pos).take src.length = src := by
  have hfront : (dst.take pos).length = pos := by
    rw [List.length_take]
    omega
  have hmiddle : ((dst.drop pos).take src.length).length = src.length := by
    rw [List.length_take, List.length_drop]
    omega
  have hstore := poke_append (c := dst.drop (pos + src.length)) hfront hmiddle
  rw [← List.drop_drop, List.take_append_drop, List.take_append_drop] at hstore
  rw [hstore, List.drop_left' hfront, List.take_left' rfl]

/-- Stores from the start on replace the front. -/
theorem poke_zero {dst src : List α} (h : src.length ≤ dst.length) :
    poke dst 0 src = src ++ dst.drop src.length := by
  have hfront : poke ([] ++ (dst.take src.length ++ dst.drop src.length)) 0 src =
      [] ++ (src ++ dst.drop src.length) := poke_append rfl (by rw [List.length_take]; omega)
  rwa [List.nil_append, List.nil_append, List.take_append_drop] at hfront

/-- Stores up to the end replace the rest. -/
theorem poke_end {dst src : List α} {pos : Nat} (h : pos + src.length = dst.length) :
    poke dst pos src = dst.take pos ++ src := by
  have hfront : (dst.take pos).length = pos := by
    rw [List.length_take]
    omega
  have hrest : (dst.drop pos).length = src.length := by
    rw [List.length_drop]
    omega
  have hstore := poke_append (c := []) hfront hrest
  rwa [List.append_nil, List.append_nil, List.take_append_drop] at hstore

/-! ## Growing a buffer -/

/-- Resize to at least `n` cells, the new ones holding `pad`; never shrinks. -/
def grow (pad : α) (n : Nat) (dst : List α) : List α :=
  dst ++ List.replicate (n - dst.length) pad

@[simp] theorem grow_length (pad : α) (n : Nat) (dst : List α) :
    (grow pad n dst).length = max dst.length n := by
  simp only [grow, List.length_append, List.length_replicate]
  omega

theorem grow_getElem?_of_lt (pad : α) (n : Nat) (dst : List α) (i : Nat)
    (h : i < dst.length) : (grow pad n dst)[i]? = dst[i]? := by
  rw [grow, List.getElem?_append_left h]

/-- A buffer that is already large enough is left alone. -/
theorem grow_of_le (pad : α) (n : Nat) (dst : List α) (h : n ≤ dst.length) :
    grow pad n dst = dst := by
  simp [grow, Nat.sub_eq_zero_of_le h]

/-! ## Big-endian 16-bit words -/

/-- The two bytes of a 16-bit word in network order; wider values are
truncated, as a store through `uint16_t` truncates them. -/
def be16 (v : Nat) : List UInt8 := [UInt8.ofNat (v / 256), UInt8.ofNat v]

/-- Load the big-endian 16-bit word at index `p`. -/
def readBe16 (bs : List UInt8) (p : Nat) : Nat :=
  (bs.getD p 0).toNat * 256 + (bs.getD (p + 1) 0).toNat

@[simp] theorem be16_length (v : Nat) : (be16 v).length = 2 := rfl

theorem readBe16_lt (bs : List UInt8) (p : Nat) : readBe16 bs p < 65536 := by
  have hhi := (bs.getD p 0).toNat_lt
  have hlo := (bs.getD (p + 1) 0).toNat_lt
  simp only [readBe16]
  omega

/-- Loading a stored word gives its value modulo `2 ^ 16`. -/
theorem readBe16_be16 (a c : List UInt8) (p v : Nat) (hp : a.length = p) :
    readBe16 (a ++ (be16 v ++ c)) p = v % 65536 := by
  have hhi : (a ++ (be16 v ++ c)).getD p 0 = UInt8.ofNat (v / 256) := by
    subst hp; simp [be16]
  have hlo : (a ++ (be16 v ++ c)).getD (p + 1) 0 = UInt8.ofNat v := by
    subst hp; simp [be16, List.getD]
  rw [readBe16, hhi, hlo, UInt8.toNat_ofNat', UInt8.toNat_ofNat']
  omega

/-! ## The bytes of a 32-bit word -/

/-- The four bytes of a word, each in its place, are the word. -/
theorem word_of_bytes (v : UInt32) :
    v.toUInt8.toUInt32 ||| ((v >>> 8).toUInt8.toUInt32 <<< 8) |||
      ((v >>> 16).toUInt8.toUInt32 <<< 16) ||| ((v >>> 24).toUInt8.toUInt32 <<< 24) = v := by
  apply UInt32.eq_of_toBitVec_eq
  apply BitVec.eq_of_getLsbD_eq
  intro i hi
  simp only [UInt32.toBitVec_or, UInt32.toBitVec_shiftLeft, UInt32.toBitVec_shiftRight,
    UInt8.toBitVec_toUInt32, UInt32.toBitVec_toUInt8, BitVec.getLsbD_or]
  interval_cases i <;> simp

/-! ## The flag bit of a 16-bit word -/

/-- Masking with `0x7FFF` keeps the low fifteen bits. -/
theorem land_7fff (v : Nat) : v &&& 0x7FFF = v % 32768 :=
  Nat.and_two_pow_sub_one_eq_mod v 15

/-- Bit 15 of a 16-bit word, isolated. -/
theorem land_8000 (v : Nat) (h : v < 65536) :
    v &&& 0x8000 = if v < 32768 then 0 else 32768 := by
  have hbit : v &&& 0x8000 = (v.testBit 15).toNat * 2 ^ 15 :=
    Nat.and_two_pow v 15
  rw [hbit]
  have htest : v.testBit 15 = decide (32768 ≤ v) := by
    rw [Nat.testBit_eq_decide_div_mod_eq, decide_eq_decide]
    constructor <;> intro hv <;> omega
  by_cases hv : v < 32768
  · simp [htest, hv]
  · have hge : 32768 ≤ v := by omega
    simp [htest, hge, Nat.not_lt.mpr hge]

/-- Setting bit 15 of a value that fits in fifteen bits adds `32768`. -/
theorem lor_flag (flag s : Nat) (hflag : flag = 0 ∨ flag = 32768)
    (hs : s < 32768) : flag ||| s = flag + s := by
  rcases hflag with rfl | rfl
  · simp
  · have h := Nat.two_pow_add_eq_or_of_lt (i := 15) (b := s) hs 1
    simpa using h.symm

end Winject.Lib.Bytes
