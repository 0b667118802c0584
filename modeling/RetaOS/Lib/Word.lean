import Mathlib.Tactic.Common
import Mathlib.Data.Nat.Bitwise

/-!
# Machine words

Arithmetic of 32-bit words read through `UInt32.toNat`, where linear arithmetic decides: sums and
differences that do not wrap, the low-bit mask `x &&& ~~~(2 ^ k - 1)` as rounding down to a multiple of
`2 ^ k`, and the distance `x - a` of an address from a base as the offset that reaches it.
-/

namespace Lib

/-- A natural number rounded down to a multiple of `k`. -/
def roundDown (k n : Nat) : Nat := n / k * k

/-- A sum of words that does not wrap. -/
lemma toNat_add_of_lt {a b : UInt32} (h : a.toNat + b.toNat < 2 ^ 32) :
    (a + b).toNat = a.toNat + b.toNat := by
  rw [UInt32.toNat_add, Nat.mod_eq_of_lt h]

/-- A word and a small number added to it without wrapping. -/
lemma toNat_add_ofNat {a : UInt32} {n : Nat} (h : a.toNat + n < 2 ^ 32) :
    (a + UInt32.ofNat n).toNat = a.toNat + n := by
  rw [UInt32.toNat_add, UInt32.toNat_ofNat']
  omega

/-- The word a natural number below `2 ^ 32` becomes. -/
lemma toNat_ofNat_lt {n : Nat} (h : n < 2 ^ 32) : (UInt32.ofNat n).toNat = n := by
  rw [UInt32.toNat_ofNat', Nat.mod_eq_of_lt h]

/-- Masking off the low `k` bits rounds down to a multiple of `2 ^ k`. -/
lemma toNat_and_not_mask (x : UInt32) {k : Nat} (hk : k ≤ 32) :
    (x &&& ~~~UInt32.ofNat (2 ^ k - 1)).toNat = roundDown (2 ^ k) x.toNat := by
  have pos : 0 < 2 ^ k := Nat.two_pow_pos k
  have le : 2 ^ k ≤ 2 ^ 32 := Nat.pow_le_pow_right (by decide) hk
  have mask : (~~~UInt32.ofNat (2 ^ k - 1)).toNat = 2 ^ 32 - (2 ^ k - 1 + 1) := by
    rw [UInt32.toNat_not, toNat_ofNat_lt (by omega), UInt32.size]
    omega
  rw [UInt32.toNat_and, mask, roundDown]
  apply Nat.eq_of_testBit_eq
  intro i
  rw [Nat.testBit_and, Nat.testBit_two_pow_sub_succ (by omega), Nat.testBit_two_pow_sub_one,
    Nat.testBit_mul_two_pow, Nat.testBit_div_two_pow]
  by_cases hi : i < k
  · have : ¬ k ≤ i := by omega
    simp [hi, this]
  · have ki : k ≤ i := by omega
    by_cases hw : i < 32
    · simp [hi, ki, hw]
    · have top : x.toNat.testBit i = false :=
        Nat.testBit_lt_two_pow (lt_of_lt_of_le x.toNat_lt (Nat.pow_le_pow_right (by decide) (by omega)))
      simp [ki, top]

/-- Masking with the low `k` bits leaves the remainder modulo `2 ^ k`. -/
lemma toNat_and_mask (x : UInt32) {k : Nat} (hk : k ≤ 32) :
    (x &&& UInt32.ofNat (2 ^ k - 1)).toNat = x.toNat % 2 ^ k := by
  have pos : 0 < 2 ^ k := Nat.two_pow_pos k
  have le : 2 ^ k ≤ 2 ^ 32 := Nat.pow_le_pow_right (by decide) hk
  rw [UInt32.toNat_and, toNat_ofNat_lt (by omega), Nat.and_two_pow_sub_one_eq_mod]

/-- The offset of `a + n` from `a`. -/
lemma add_sub_toNat {a : UInt32} {n : Nat} (h : n < 2 ^ 32) : (a + UInt32.ofNat n - a).toNat = n := by
  have e : a + UInt32.ofNat n - a = UInt32.ofNat n := by
    rw [UInt32.add_comm, UInt32.add_sub_cancel]
  rw [e, toNat_ofNat_lt h]

/-- The offset of an address from a base at or below it. -/
lemma sub_toNat_of_le {a x : UInt32} (h : a.toNat ≤ x.toNat) : (x - a).toNat = x.toNat - a.toNat :=
  UInt32.toNat_sub_of_le _ _ (UInt32.le_iff_toNat_le.mpr h)

/-- A small word is its own signed value. -/
lemma toInt_of_lt {x : UInt32} (h : x.toNat < 2 ^ 31) : x.toInt32.toInt = x.toNat := by
  change x.toBitVec.toInt = x.toBitVec.toNat
  apply BitVec.toInt_eq_toNat_of_lt
  change 2 * x.toNat < 2 ^ 32
  omega

/-- The word of a small integer. -/
lemma toNat_ofInt {n : Nat} (h : n < 2 ^ 32) : (UInt32.ofInt n).toNat = n := by
  have small : ((n : Int) % 2 ^ 32).toNat = n := by omega
  rw [UInt32.ofInt, small, toNat_ofNat_lt h]

/-- A word read as signed is negative when its top bit is set. -/
lemma toInt32_neg_iff {x : UInt32} : x.toInt32 < 0 ↔ 2 ^ 31 ≤ x.toNat := by
  rw [Int32.lt_iff_toInt_lt]
  change x.toBitVec.toInt < 0 ↔ 2 ^ 31 ≤ x.toBitVec.toNat
  rw [BitVec.toInt_eq_toNat_cond]
  have top := x.toBitVec.isLt
  split_ifs with h
  · omega
  · omega

/-- A signed offset added to a word. -/
lemma toNat_add_signed (x : UInt32) (o : Int32) :
    ((x + o.toUInt32).toNat : Int) = (x.toNat + o.toInt) % 2 ^ 32 := by
  have offset : o.toInt = if 2 * o.toUInt32.toNat < 2 ^ 32 then (o.toUInt32.toNat : Int)
      else (o.toUInt32.toNat : Int) - 2 ^ 32 := BitVec.toInt_eq_toNat_cond o.toBitVec
  rw [UInt32.toNat_add, offset]
  split_ifs
  · omega
  · omega

/-- Masking a union of bits. -/
lemma or_and_distrib (x y z : UInt32) : (x ||| y) &&& z = (x &&& z) ||| (y &&& z) := by
  apply UInt32.eq_of_toBitVec_eq
  simp only [UInt32.toBitVec_and, UInt32.toBitVec_or]
  exact BitVec.and_or_distrib_right

/-! ## Fields of bits. -/

/-- A field of `k` bits, `i` bits up. -/
lemma toNat_field (x i : UInt32) {k : Nat} (hi : i.toNat < 32) (hk : k ≤ 32) :
    (x >>> i &&& UInt32.ofNat (2 ^ k - 1)).toNat = x.toNat / 2 ^ i.toNat % 2 ^ k := by
  rw [toNat_and_mask _ hk, UInt32.toNat_shiftRight, Nat.mod_eq_of_lt hi, Nat.shiftRight_eq_div_pow]

/-- A field put above another. -/
lemma toNat_shiftLeft_or {a b i : UInt32} (hi : i.toNat < 32) (low : b.toNat < 2 ^ i.toNat)
    (high : a.toNat * 2 ^ i.toNat < 2 ^ 32) : (a <<< i ||| b).toNat = a.toNat * 2 ^ i.toNat + b.toNat := by
  rw [UInt32.toNat_or, UInt32.toNat_shiftLeft, Nat.mod_eq_of_lt hi, Nat.shiftLeft_eq, Nat.mod_eq_of_lt high,
    Nat.mul_comm, Nat.two_pow_add_eq_or_of_lt low]

/-! ## Single bits. -/

/-- The word with bit `i` set only. -/
lemma toNat_one_shiftLeft {i : UInt32} (h : i.toNat < 32) : ((1 : UInt32) <<< i).toNat = 2 ^ i.toNat := by
  have lt : 2 ^ i.toNat < 2 ^ 32 := Nat.pow_lt_pow_right (by decide) h
  rw [UInt32.toNat_shiftLeft, Nat.mod_eq_of_lt h]
  change (1 <<< i.toNat) % 2 ^ 32 = _
  rw [Nat.one_shiftLeft, Nat.mod_eq_of_lt lt]

/-- Masking with a single bit tests it. -/
lemma and_bit_eq_zero {w i : UInt32} (h : i.toNat < 32) :
    w &&& (1 <<< i) = 0 ↔ w.toNat.testBit i.toNat = false := by
  rw [← UInt32.toNat_inj, UInt32.toNat_and, toNat_one_shiftLeft h, Nat.and_two_pow]
  have pos : 0 < 2 ^ i.toNat := Nat.two_pow_pos _
  cases w.toNat.testBit i.toNat with
  | false => simp
  | true => simp

/-- Setting a bit sets that bit only. -/
lemma testBit_or_bit {w i : UInt32} {j : Nat} (h : i.toNat < 32) :
    (w ||| (1 <<< i)).toNat.testBit j = (w.toNat.testBit j || decide (i.toNat = j)) := by
  rw [UInt32.toNat_or, toNat_one_shiftLeft h, Nat.testBit_or, Nat.testBit_two_pow]

/-- Clearing a bit clears that bit only. -/
lemma testBit_and_not_bit {w i : UInt32} {j : Nat} (h : i.toNat < 32) :
    (w &&& ~~~(1 <<< i)).toNat.testBit j = (w.toNat.testBit j && !decide (i.toNat = j)) := by
  rw [UInt32.toNat_and, Nat.testBit_and]
  by_cases hj : j < 32
  · have mask : (~~~((1 : UInt32) <<< i)).toNat = 2 ^ 32 - (2 ^ i.toNat + 1) := by
      rw [UInt32.toNat_not, toNat_one_shiftLeft h, UInt32.size]
      omega
    have lt : 2 ^ i.toNat < 2 ^ 32 := Nat.pow_lt_pow_right (by decide) h
    rw [mask, Nat.testBit_two_pow_sub_succ lt, Nat.testBit_two_pow]
    simp [hj]
  · have top : w.toNat.testBit j = false :=
      Nat.testBit_lt_two_pow (lt_of_lt_of_le w.toNat_lt (Nat.pow_le_pow_right (by decide) (by omega)))
    simp [top]

end Lib
