import RetaOS.Stdio.Truncation

/-!
# Decimal numbers

`%d` in the four functions. Each of them writes a sign and divides the magnitude by ten. The magnitude of the least
number is negative again: only `kvprintf`, which divides it as an unsigned number, still finds its digits, and for all
others the four functions write the same numeral (`decimals_iff`).
-/

namespace RetaOS.Stdio
open Lib

/-- The characters of a sign and digits. -/
def signed (v : Int) (ds : List Nat) : List UInt8 :=
  (if v < 0 then [ch '-'] else []) ++ ds.map fun (d : Nat) => digitChar (d : Int)

/-- A text is the decimal numeral of `v`: a sign only for negative numbers, digits that stand for the magnitude, and no
    leading zeros. -/
def Canonical (v : Int) (text : List UInt8) : Prop :=
  ∃ ds : List Nat, text = signed v ds ∧ (∀ d ∈ ds, d < 10) ∧ (ds = [0] ∨ ∃ d rest, ds = d :: rest ∧ d ≠ 0) ∧
    Nat.ofDigits 10 ds.reverse = v.natAbs

/-- The decimal numeral of `v`. -/
def decimal (v : Int) : List UInt8 := signed v (numeral 10 v.natAbs).reverse

lemma decimal_canonical (v : Int) : Canonical v (decimal v) := by
  refine ⟨(numeral 10 v.natAbs).reverse, rfl, fun d mem => ?_, ?_, ?_⟩
  · exact numeral_lt_base (by decide) (List.mem_reverse.mp mem)
  · by_cases zero : v.natAbs = 0
    · rw [zero]
      exact .inl rfl
    · have last := numeral_getLast (b := 10) zero
      cases ds : (numeral 10 v.natAbs).reverse with
      | nil => exact absurd (List.reverse_eq_nil_iff.mp ds) (numeral_ne_nil 10 v.natAbs)
      | cons d rest =>
        have eq : numeral 10 v.natAbs = rest.reverse ++ [d] := by
          rw [← List.reverse_reverse (numeral 10 v.natAbs), ds, List.reverse_cons]
        simp only [eq, List.getLast_append_singleton] at last
        exact .inr ⟨d, rest, rfl, last⟩
  · rw [List.reverse_reverse, ofDigits_numeral]

variable {v : Int32} {n cap : Nat} {go : Int → Bool}

/-- The magnitude of a number, but for the least one. -/
lemma magnitude_toInt (h : v ≠ Int32.minValue) : (magnitude v).toInt = v.toInt.natAbs := by
  have low := Int32.minValue_le_toInt v
  have high := Int32.toInt_lt v
  have ne : v.toInt ≠ -2 ^ 31 := fun eq => h (Int32.toInt_inj.mp eq)
  rw [Int32.toInt_minValue] at low
  rw [magnitude]
  split_ifs with neg
  · rw [Int32.lt_iff_toInt_lt] at neg
    change v.toInt < 0 at neg
    rw [Int32.toInt_neg, Int.bmod_eq_of_le (by omega) (by omega)]
    omega
  · rw [Int32.lt_iff_toInt_lt] at neg
    change ¬ v.toInt < 0 at neg
    omega

/-- The digits that the loops find. -/
lemma digitsOf_natCast (stop : go 0 = false) (goOn : ∀ m : Nat, 0 < m → go m = true) (lt : n < 10 ^ (cap + 1)) :
    digitsOf go (cap + 1) n = (numeral 10 n).reverse.map fun (d : Nat) => digitChar (d : Int) := by
  have found := digitLoop_natCast (b := 10) (by decide) stop goOn lt
  change digitLoop 10 go (cap + 1) n = _ at found
  rw [digitsOf, found, List.map_map, List.map_reverse]
  rfl

/-- A sign and the digits of the magnitude. -/
lemma sign_append_digitsOf (h : v ≠ Int32.minValue) (stop : go 0 = false) (goOn : ∀ m : Nat, 0 < m → go m = true)
    (cap : Nat) (large : 9 ≤ cap) : sign v ++ digitsOf go (cap + 1) (magnitude v).toInt = decimal v.toInt := by
  have low := Int32.minValue_le_toInt v
  have high := Int32.toInt_lt v
  rw [Int32.toInt_minValue] at low
  have bound : 10 ^ 10 ≤ 10 ^ (cap + 1) := Nat.pow_le_pow_right (by decide) (by omega)
  have neg : v < 0 ↔ v.toInt < 0 := Int32.lt_iff_toInt_lt
  rw [magnitude_toInt h, digitsOf_natCast stop goOn (by omega), decimal, signed, sign]
  simp only [neg]

/-- The digits that `itoa_unsigned` finds. -/
lemma itoaLoop_eq {base : Nat} (large : 1 < base) (pos : n ≠ 0) (lt : n < base ^ cap) :
    itoaLoop base cap n = numeral base n := by
  induction cap generalizing n with
  | zero =>
    rw [pow_zero] at lt
    omega
  | succ cap ih =>
    rw [itoaLoop, if_neg pos]
    by_cases small : n < base
    · rw [numeral_of_lt small, Nat.mod_eq_of_lt small, Nat.div_eq_of_lt small]
      cases cap <;> rfl
    · have rest : n / base < base ^ cap := Nat.div_lt_of_lt_mul (by rwa [pow_succ'] at lt)
      have ne : n / base ≠ 0 := Nat.div_ne_zero_iff.mpr ⟨by omega, Nat.not_lt.mp small⟩
      rw [ih ne rest, numeral_of_le (n := n) large (Nat.not_lt.mp small)]

/-- `itoa_unsigned` in base 10. -/
lemma itoaUnsigned_eq (val : UInt32) :
    itoaUnsigned val 10 = (numeral 10 val.toNat).reverse.map fun (d : Nat) => digitChar (d : Int) := by
  have table : ∀ d < 10, (ascii "0123456789abcdef").getD d 0 = digitChar (d : Int) := by decide
  rw [itoaUnsigned]
  split_ifs with zero
  · rw [zero]
    rfl
  · have ne : val.toNat ≠ 0 := fun eq => zero (UInt32.toNat_inj.mp eq)
    have top := val.toNat_lt
    have bound : 2 ^ 32 ≤ 10 ^ 32 := Nat.pow_le_pow_left (by decide) 32
    rw [itoaLoop_eq (by decide) ne (by omega), List.map_reverse]
    congr 1
    refine List.map_congr_left fun d mem => table d (numeral_lt_base (by decide) mem)

/-- `itoa_signed` finds the digits of every number. -/
lemma itoaSigned_eq (v : Int32) : itoaSigned v = decimal v.toInt := by
  have word : v.toInt = if 2 * v.toUInt32.toNat < 2 ^ 32 then (v.toUInt32.toNat : Int)
      else (v.toUInt32.toNat : Int) - 2 ^ 32 := BitVec.toInt_eq_toNat_cond v.toBitVec
  have top := v.toUInt32.toNat_lt
  have neg_iff : v < 0 ↔ v.toInt < 0 := Int32.lt_iff_toInt_lt
  rw [itoaSigned, decimal, signed]
  split_ifs at word with small
  · have magnitude : v.toInt.natAbs = v.toUInt32.toNat := by omega
    rw [if_neg (by rw [neg_iff]; omega), if_neg (by omega), magnitude, itoaUnsigned_eq]
    rfl
  · have magnitude : v.toInt.natAbs = (-v).toUInt32.toNat := by
      rw [Int32.toUInt32_neg, UInt32.toNat_neg, UInt32.size]
      omega
    rw [if_pos (by rw [neg_iff]; omega), if_pos (by omega), magnitude, itoaUnsigned_eq]
    rfl

/-- The four functions print or write the decimal numeral of `v` for `%d`. -/
def Agree (mem : Memory) (buf size : UInt32) (v : Int32) : Prop :=
  ∃ text, Canonical v.toInt text ∧ kvprintf percentD.chars [.int v.toUInt32] = text ∧
    consoleVprintf percentD.chars [.int v.toUInt32] = some text ∧
    vprintf percentD.chars [.int v.toUInt32] = some text ∧
    Writes size.toNat mem buf text (vsnprintf mem buf size percentD.chars [.int v.toUInt32])

/-- The four texts. -/
lemma percentD_texts (v : Int32) :
    kvprintf percentD.chars [.int v.toUInt32] = itoaSigned v ++ [] ∧
      consoleVprintf percentD.chars [.int v.toUInt32] = some (sign v ++ digitsOf (· > 0) 30 (magnitude v).toInt ++ []) ∧
      vprintf percentD.chars [.int v.toUInt32] = some ([] ++ (sign v ++ digitsOf (· > 0) 16 (magnitude v).toInt)) ∧
      vsnprintfAll percentD.chars [.int v.toUInt32] = [] ++ (sign v ++ digitsOf (· ≠ 0) 32 (magnitude v).toInt) :=
  ⟨rfl, rfl, rfl, rfl⟩

/-- The magnitude of the least number is negative, and `console_vprintf` stops at its first digit. -/
lemma not_agree_minValue (mem : Memory) (buf size : UInt32) : ¬ Agree mem buf size Int32.minValue := by
  have kernel : kvprintf percentD.chars [.int Int32.minValue.toUInt32] = ascii "-2147483648" := by decide
  have console : consoleVprintf percentD.chars [.int Int32.minValue.toUInt32] = some (ascii "-(") := by decide
  rintro ⟨text, -, rfl, eq, -⟩
  rw [kernel, console] at eq
  exact absurd eq (by decide)

/-- The four functions agree on the decimal numeral of every number but the least one. -/
theorem decimals_iff (mem : Memory) (buf size : UInt32) (v : Int32) (nonnull : buf ≠ 0)
    (room : (decimal v.toInt).length < size.toNat) : Agree mem buf size v ↔ v ≠ Int32.minValue := by
  obtain ⟨kernel, console, lib, buffer⟩ := percentD_texts v
  constructor
  · rintro agree rfl
    exact not_agree_minValue mem buf size agree
  · intro ne
    have writes := vsnprintf_writes mem percentD.chars [.int v.toUInt32] nonnull (n := size) (by omega)
    rw [buffer, sign_append_digitsOf ne (by decide) (by simp; omega) 31 (by decide), List.nil_append,
      List.take_of_length_le (by omega)] at writes
    refine ⟨decimal v.toInt, decimal_canonical v.toInt, ?_, ?_, ?_, writes⟩
    · rw [kernel, itoaSigned_eq, List.append_nil]
    · rw [console, sign_append_digitsOf ne (by decide) (by simp) 29 (by decide), List.append_nil]
    · rw [lib, sign_append_digitsOf ne (by decide) (by simp) 15 (by decide), List.nil_append]

/-- The number -42 in a buffer of four bytes. -/
theorem decimals_iff_four : Agree (fun _ => 0) 0x1000 4 (-42) ↔ (-42 : Int32) ≠ Int32.minValue :=
  decimals_iff (fun _ => 0) 0x1000 4 (-42) (by decide) (by decide)

/-- The texts of the least number. -/
theorem decimals_least : kvprintf percentD.chars [.int 0x80000000] = ascii "-2147483648" ∧
    consoleVprintf percentD.chars [.int 0x80000000] = some (ascii "-(") ∧
    vprintf percentD.chars [.int 0x80000000] = some (ascii "-(") ∧
    vsnprintfLoop 16 percentD.chars [.int 0x80000000] [] = ascii "-./,),(-*,(" ∧
    ¬ Agree (fun _ => 0) 0x1000 16 Int32.minValue :=
  ⟨by decide, by decide, by decide, by decide, not_agree_minValue (fun _ => 0) 0x1000 16⟩

end RetaOS.Stdio
