import RetaOS.Stdio.Defs
import Mathlib.Data.Nat.Log

/-!
# Hexadecimal numbers

`%x` in `vprintf`. It leaves out leading zeros as long as at most two characters are in the buffer, which it takes to be
its own `0x`; behind anything else it writes all digits but the first, which it writes when it is not zero
(`hexNibbles_length`).
-/

namespace RetaOS.Stdio
open Lib

variable {num : UInt32} {pos : Nat} {text : List UInt8} {l : List UInt32}

/-- The digit for a shift. -/
def hexDigit (num shift : UInt32) : UInt8 := (ascii "0123456789ABCDEF").getD ((num >>> shift) &&& 0xF).toNat 0

/-- Behind the first digit all digits are written. -/
lemma foldl_hexStep (small : l.all (· < 28) = true) (begun : 2 < pos + text.length) :
    l.foldl (hexStep num pos) text = text ++ l.map (hexDigit num) := by
  induction l generalizing text with
  | nil => exact (List.append_nil text).symm
  | cons shift l ih =>
    rw [List.all_cons, Bool.and_eq_true, decide_eq_true_iff] at small
    have step : hexStep num pos text shift = text ++ [hexDigit num shift] := by
      rw [hexStep]
      exact if_pos (.inr (.inr ⟨small.1, begun⟩))
    rw [List.foldl_cons, step, ih small.2, List.append_assoc]
    · rfl
    · rw [List.length_append]
      omega

/-- Every pass writes one character at most. -/
lemma foldl_hexStep_length (num : UInt32) (pos : Nat) (text : List UInt8) (l : List UInt32) :
    text.length ≤ (l.foldl (hexStep num pos) text).length ∧
    (l.foldl (hexStep num pos) text).length ≤ text.length + l.length := by
  induction l generalizing text with
  | nil => exact ⟨Nat.le_refl _, Nat.le_refl _⟩
  | cons shift l ih =>
    have step : text.length ≤ (hexStep num pos text shift).length ∧
        (hexStep num pos text shift).length ≤ text.length + 1 := by
      rw [hexStep]
      split_ifs
      · rw [List.length_append, List.length_singleton]
        exact ⟨Nat.le_succ _, Nat.le_refl _⟩
      · exact ⟨Nat.le_refl _, Nat.le_succ _⟩
    obtain ⟨low, high⟩ := ih (hexStep num pos text shift)
    rw [List.foldl_cons, List.length_cons]
    omega

/-- What is written with the first of the eight digits. -/
def hexLead (num : UInt32) : List UInt8 :=
  if (num >>> 28) &&& 0xF ≠ 0 then [ch '0', ch 'x', hexDigit num 28] else [ch '0', ch 'x']

lemma hexNibbles_eq (num : UInt32) (pos : Nat) :
    hexNibbles num pos = [24, 20, 16, 12, 8, 4, 0].foldl (hexStep num pos) (hexLead num) := by
  have first : hexStep num pos [ch '0', ch 'x'] 28 = hexLead num := by
    rw [hexStep, hexLead]
    refine if_congr ⟨fun h => ?_, .inl⟩ rfl rfl
    obtain nonzero | last | ⟨lt, -⟩ := h
    · exact nonzero
    · exact absurd last (by decide)
    · exact absurd lt (by decide)
  rw [hexNibbles, List.foldl_cons, first]

/-- In front of anything else the seven other digits are all written. -/
lemma hexNibbles_steady (begun : 2 < pos + (hexLead num).length) :
    hexNibbles num pos = hexLead num ++ [24, 20, 16, 12, 8, 4, 0].map (hexDigit num) := by
  rw [hexNibbles_eq, foldl_hexStep (by decide) begun]

lemma hexLead_length (num : UInt32) : 2 ≤ (hexLead num).length := by
  rw [hexLead]
  split_ifs
  · exact Nat.le_succ 2
  · exact Nat.le_refl 2

lemma shift_and_eq_zero_iff {shift : UInt32} (small : shift.toNat < 32) :
    (num >>> shift) &&& 0xF = 0 ↔ num.toNat / 2 ^ shift.toNat % 16 = 0 := by
  have mask := toNat_and_mask (num >>> shift) (k := 4) (by decide)
  change ((num >>> shift) &&& 0xF).toNat = _ % 16 at mask
  rw [← UInt32.toNat_inj, mask, UInt32.toNat_shiftRight, Nat.mod_eq_of_lt small, Nat.shiftRight_eq_div_pow]
  rfl

/-- A number with at most one leading zero is always written in the same way. -/
lemma hexNibbles_large (large : ¬ num < 0x1000000) : hexNibbles num 0 = hexNibbles num 1 := by
  have top := num.toNat_lt
  have two := hexLead_length num
  rw [UInt32.lt_iff_toNat_lt] at large
  change ¬ num.toNat < 2 ^ 24 at large
  rw [hexNibbles_steady (show 2 < 1 + (hexLead num).length by omega)]
  by_cases lead : (num >>> 28) &&& 0xF = 0
  · -- the second digit is not zero
    rw [shift_and_eq_zero_iff (by decide)] at lead
    have second : (num >>> 24) &&& 0xF ≠ 0 := by
      rw [ne_eq, shift_and_eq_zero_iff (by decide)]
      change num.toNat / 2 ^ 28 % 16 = 0 at lead
      change ¬ num.toNat / 2 ^ 24 % 16 = 0
      omega
    have step : hexStep num 0 (hexLead num) 24 = hexLead num ++ [hexDigit num 24] := by
      rw [hexStep]
      exact if_pos (.inl second)
    rw [hexNibbles_eq, List.foldl_cons, step, foldl_hexStep (by decide), List.append_assoc]
    · rfl
    · rw [List.length_append, List.length_singleton]
      omega
  · have three : (hexLead num).length = 3 := by
      rw [hexLead, if_pos lead]
      rfl
    rw [hexNibbles_steady (by omega)]

/-- The shifts of the last `i` digits. -/
def shifts (i : Nat) : List UInt32 := (List.range i).reverse.map fun j => UInt32.ofNat (4 * j)

lemma shifts_succ (i : Nat) : shifts (i + 1) = UInt32.ofNat (4 * i) :: shifts i := by
  rw [shifts, List.range_succ, List.reverse_append, List.map_append]
  rfl

lemma shifts_length (i : Nat) : (shifts i).length = i := by
  rw [shifts, List.length_map, List.length_reverse, List.length_range]

lemma shifts_low {i : Nat} (le : i ≤ 7) : (shifts i).all (· < 28) = true := by
  rw [List.all_eq_true]
  intro x mem
  obtain ⟨j, hj, rfl⟩ := List.mem_map.mp mem
  have lt := List.mem_range.mp (List.mem_reverse.mp hj)
  rw [decide_eq_true_iff, UInt32.lt_iff_toNat_lt, toNat_ofNat_lt (by omega)]
  change 4 * j < 28
  omega

/-- The first digit of a number is zero when the number has fewer digits. -/
lemma first_digit_zero_iff {i : Nat} (le : i ≤ 7) (small : num.toNat < 16 ^ (i + 1)) :
    (num >>> UInt32.ofNat (4 * i)) &&& 0xF = 0 ↔ num.toNat < 16 ^ i := by
  have shift : (UInt32.ofNat (4 * i)).toNat = 4 * i := toNat_ofNat_lt (by omega)
  have power : 2 ^ (4 * i) = 16 ^ i := Nat.pow_mul 2 4 i
  have digit : num.toNat / 16 ^ i < 16 := Nat.div_lt_of_lt_mul (by rwa [pow_succ] at small)
  rw [shift_and_eq_zero_iff (by omega), shift, power, Nat.mod_eq_of_lt digit,
    Nat.div_eq_zero_iff_lt (Nat.pow_pos (by decide))]

/-- With nothing in front of it a digit is written when it is not zero, and the last one always. -/
lemma hexStep_first {i : Nat} (le : i ≤ 7) (small : num.toNat < 16 ^ (i + 1)) :
    hexStep num 0 [ch '0', ch 'x'] (UInt32.ofNat (4 * i)) =
      if 16 ^ i ≤ num.toNat ∨ i = 0 then [ch '0', ch 'x'] ++ [hexDigit num (UInt32.ofNat (4 * i))]
      else [ch '0', ch 'x'] := by
  have digit := first_digit_zero_iff le small
  rw [hexStep]
  refine if_congr ⟨?_, ?_⟩ rfl rfl
  · rintro (nonzero | last | ⟨-, long⟩)
    · exact .inl (Nat.le_of_not_lt fun less => nonzero (digit.mpr less))
    · have zero := congrArg UInt32.toNat last
      rw [toNat_ofNat_lt (by omega)] at zero
      change 4 * i = 0 at zero
      exact .inr (by omega)
    · exact absurd long (by decide)
  · rintro (large | rfl)
    · exact .inl fun zero => absurd (digit.mp zero) (Nat.not_lt_of_le large)
    · exact .inr (.inl rfl)

/-- With nothing in front of it a number loses its leading zeros. -/
lemma foldl_hexStep_first {i : Nat} (pos : 0 < i) (le : i ≤ 8) (small : num.toNat < 16 ^ i) :
    ((shifts i).foldl (hexStep num 0) [ch '0', ch 'x']).length = 2 + (Nat.log 16 num.toNat + 1) := by
  induction i with
  | zero => exact absurd pos (Nat.lt_irrefl 0)
  | succ i ih =>
    rw [shifts_succ, List.foldl_cons, hexStep_first (by omega) small]
    split_ifs with written
    · -- the first digit that is written, and all behind it
      have digits : Nat.log 16 num.toNat = i := by
        obtain large | rfl := written
        · exact Nat.log_eq_of_pow_le_of_lt_pow large small
        · exact Nat.log_of_lt small
      rw [foldl_hexStep (shifts_low (by omega)) (Nat.lt_succ_self 2), List.length_append, List.length_map,
        shifts_length, digits]
      change 3 + i = _
      omega
    · obtain ⟨less, behind⟩ := not_or.mp written
      exact ih (Nat.pos_of_ne_zero behind) (by omega) (Nat.lt_of_not_le less)

/-- The number of characters of a hexadecimal number: without its leading zeros where nothing is in front of it, and
    otherwise with seven digits, or eight where the first one is not zero. -/
def hexWidth (n pos : Nat) : Nat := if pos = 0 then 2 + (Nat.log 16 n + 1) else if n < 2 ^ 28 then 9 else 10

lemma hexNibbles_length (num : UInt32) (pos : Nat) : (hexNibbles num pos).length = hexWidth num.toNat pos := by
  have top := num.toNat_lt
  have two := hexLead_length num
  rw [hexWidth]
  split_ifs with begun small
  · rw [begun]
    exact foldl_hexStep_first (i := 8) (by decide) (by decide) top
  · have lead : hexLead num = [ch '0', ch 'x'] := by
      rw [hexLead]
      refine if_neg (not_not_intro ?_)
      rw [shift_and_eq_zero_iff (by decide)]
      change num.toNat / 2 ^ 28 % 16 = 0
      omega
    rw [hexNibbles_steady (by omega), lead]
    rfl
  · have lead : hexLead num = [ch '0', ch 'x', hexDigit num 28] := by
      rw [hexLead]
      refine if_pos ?_
      rw [ne_eq, shift_and_eq_zero_iff (by decide)]
      change ¬ num.toNat / 2 ^ 28 % 16 = 0
      omega
    rw [hexNibbles_steady (by omega), lead]
    rfl

/-- The leading zeros of a number with more than one are written only behind something else. -/
lemma hexNibbles_small (small : num < 0x1000000) : (hexNibbles num 0).length < (hexNibbles num 1).length ∧
    (hexNibbles num 1).length ≤ (hexNibbles num 0).length + 6 := by
  rw [UInt32.lt_iff_toNat_lt] at small
  change num.toNat < 16 ^ 6 at small
  have digits : Nat.log 16 num.toNat < 6 := by
    by_cases zero : num.toNat = 0
    · rw [zero]
      decide
    · exact (Nat.log_lt_iff_lt_pow (by decide) zero).mpr small
  rw [hexNibbles_length, hexNibbles_length, hexWidth, hexWidth, if_pos rfl, if_neg Nat.one_ne_zero, if_pos (by omega)]
  omega

end RetaOS.Stdio
