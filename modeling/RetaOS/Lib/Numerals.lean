import Mathlib.Data.Nat.Digits.Lemmas

/-!
# Numerals

The numeral of a number as the list of its digits, the least significant first and at least one, and the loop that finds
it: `do { d[t++] = n % b; n /= b; } while (go(n) && t < cap)` with the division and remainder of C. `digitLoop_natCast`
is the rule for it, whatever the test for going on is, as long as it is false at 0 and true above.
-/

namespace Lib

/-- The digits of `n` in base `b`, the least significant first. -/
def numeral (b n : Nat) : List Nat := if n = 0 then [0] else Nat.digits b n

/-- The digits that a loop finds which stops after `cap` of them, or when `go` is false of what is left. -/
def digitLoop (b : Int) (go : Int → Bool) : Nat → Int → List Int
  | 0, _ => []
  | cap + 1, num => num.tmod b :: if go (num.tdiv b) then digitLoop b go cap (num.tdiv b) else []

variable {b n d cap : Nat} {go : Int → Bool}

/-- A number below the base is its own numeral. -/
lemma numeral_of_lt (lt : n < b) : numeral b n = [n] := by
  rw [numeral]
  split_ifs with zero
  · rw [zero]
  · exact Nat.digits_of_lt b n zero lt

/-- The numeral of any other number. -/
lemma numeral_of_le (base : 1 < b) (le : b ≤ n) : numeral b n = n % b :: numeral b (n / b) := by
  have pos : 0 < n / b := Nat.div_pos le (by omega)
  rw [numeral, numeral, if_neg (by omega), if_neg (by omega), Nat.digits_def' base (by omega)]

lemma numeral_ne_nil (b n : Nat) : numeral b n ≠ [] := by
  rw [numeral]
  split_ifs with zero
  · exact List.cons_ne_nil 0 []
  · exact Nat.digits_ne_nil_iff_ne_zero.mpr zero

/-- The digits stand for the number. -/
lemma ofDigits_numeral (b n : Nat) : Nat.ofDigits b (numeral b n) = n := by
  rw [numeral]
  split_ifs with zero
  · rw [zero, Nat.ofDigits_singleton]
  · exact Nat.ofDigits_digits b n

lemma numeral_lt_base (base : 1 < b) (mem : d ∈ numeral b n) : d < b := by
  rw [numeral] at mem
  split_ifs at mem
  · rw [List.mem_singleton.mp mem]
    omega
  · exact Nat.digits_lt_base base mem

/-- The number of digits. -/
lemma numeral_length (base : 1 < b) : (numeral b n).length = Nat.log b n + 1 := by
  rw [numeral]
  split_ifs with zero
  · rw [zero, Nat.log_zero_right]
    rfl
  · exact Nat.length_digits b n base zero

/-- A numeral has no leading zeros, but for the number 0. -/
lemma numeral_getLast (pos : n ≠ 0) : (numeral b n).getLast (numeral_ne_nil b n) ≠ 0 := by
  have eq : numeral b n = Nat.digits b n := if_neg pos
  simp only [eq]
  exact Nat.getLast_digit_ne_zero b pos

/-- The loop finds the digits of a number, when it does not stop too early. -/
theorem digitLoop_natCast (base : 1 < b) (stop : go 0 = false) (goOn : ∀ m : Nat, 0 < m → go m = true)
    (lt : n < b ^ (cap + 1)) : digitLoop b go (cap + 1) n = (numeral b n).map Nat.cast := by
  induction cap generalizing n with
  | zero =>
    rw [Nat.zero_add, pow_one] at lt
    rw [digitLoop, digitLoop, ← Int.ofNat_tmod, Nat.mod_eq_of_lt lt, numeral_of_lt lt, ite_self]
    rfl
  | succ cap ih =>
    rw [digitLoop, ← Int.ofNat_tmod, ← Int.ofNat_tdiv]
    by_cases small : n < b
    · rw [Nat.mod_eq_of_lt small, Nat.div_eq_of_lt small, numeral_of_lt small]
      change _ :: (if go 0 then _ else _) = _
      rw [stop]
      rfl
    · have rest : n / b < b ^ (cap + 1) := Nat.div_lt_of_lt_mul (by rwa [pow_succ'] at lt)
      have pos : 0 < n / b := Nat.div_pos (Nat.not_lt.mp small) (by omega)
      rw [if_pos (goOn _ pos), ih rest, numeral_of_le (n := n) base (by omega)]
      rfl

end Lib
