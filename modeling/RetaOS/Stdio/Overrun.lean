import RetaOS.Stdio.Decimals
import RetaOS.Stdio.Hexadecimals

/-!
# The bounds of the buffer and of the format

`vprintf` looks at the room in its buffer of 256 bytes once for each piece of the format, and a conversion can write
eleven characters; both `vprintf` and `console_vprintf` step over the character behind a `%`, also when it is the `NUL`
of the format. How much a conversion prints is a matter of its argument and of the position (`width`): the digits of a
number, the length of a string as far as there is room, or one or two characters. The functions stay in bounds exactly
for the formats that do not end inside a conversion and of which no conversion but `%s` is longer than the room where it
begins (`inBounds_iff`).
-/

namespace RetaOS.Stdio
open Lib

/-- `vprintf` reads the format up to its `NUL` and writes all characters and the `NUL` behind them in its buffer, and
    `console_vprintf` reads the format up to its `NUL`. -/
def InBounds (format : List UInt8) (args : List Arg) : Prop :=
  (∃ out, vprintf format args = some out ∧ out.length < 256) ∧ consoleVprintf format args ≠ none

/-! ## Positions. -/

/-- The number of characters of a decimal number: a sign and its digits, and two for the least number, which has no
    magnitude. -/
def decimalWidth (v : Int) : Nat := if v = -2 ^ 31 then 2 else (if v < 0 then 1 else 0) + (Nat.log 10 v.natAbs + 1)

/-- The number of characters of a conversion that begins at a position. -/
def width (k : UInt8) (args : List Arg) (pos : Nat) : Nat :=
  if k = ch 'd' ∨ k = ch 'i' then decimalWidth (vaInt args).1.toInt32.toInt
  else if k = ch 's' then min (charsAt (vaStr args).1).length (255 - pos)
  else if k = ch 'x' ∨ k = ch 'X' then hexWidth (vaInt args).1.toNat pos
  else if k = ch 'c' ∨ k = ch '%' then 1
  else 2

/-- The arguments behind a conversion. -/
def behind (k : UInt8) (args : List Arg) : List Arg := if k ∈ ascii "disxXc" then args.tail else args

/-- The arguments behind a format. -/
def left : List UInt8 → List Arg → List Arg
  | [], args => args
  | c :: f, args =>
    if c = ch '%' then
      match f with
      | [] => args
      | k :: f => left f (behind k args)
    else left f args

/-- The position behind a format that begins at another one. -/
def position : List UInt8 → List Arg → Nat → Nat
  | [], _, pos => pos
  | c :: f, args, pos =>
    if c = ch '%' then
      match f with
      | [] => pos
      | k :: f => position f (behind k args) (pos + width k args pos)
    else position f args (pos + 1)

/-- No conversion but `%s` begins in front of the last byte of the buffer and ends behind it. -/
def NoneCrosses (format : List UInt8) (args : List Arg) : Prop :=
  ∀ f k g, format = f ++ ch '%' :: k :: g → complete f = true → k ≠ ch 's' → position f args 0 < 255 →
    position f args 0 + width k (left f args) (position f args 0) ≤ 255

variable {conv : UInt8 → List Arg → Piece UInt8 × List Arg} {f : List UInt8} {args : List Arg} {out : List UInt8}
  {pre post : List (Piece UInt8)} {p : Piece UInt8}

/-- A piece comes from a part of the format. -/
lemma pieces_split (split : pieces conv f args = pre ++ p :: post) :
    ∃ f' g, complete f' = true ∧ pieces conv f' args = pre ∧
      ((∃ k, f = f' ++ ch '%' :: k :: g ∧ p = (conv k (argsLeft conv f' args)).1) ∨ ∃ c, p = fun _ => [c]) := by
  induction f using format_induction generalizing args pre with
  | nil => cases pre <;> cases split
  | lone => cases pre <;> cases split
  | conversion k f ih =>
    rw [pieces_conversion] at split
    cases pre with
    | nil =>
      cases split
      exact ⟨[], f, rfl, rfl, .inl ⟨k, rfl, rfl⟩⟩
    | cons q pre =>
      obtain ⟨rfl, rest⟩ := List.cons.inj split
      obtain ⟨f', g, whole, eq, source⟩ := ih rest
      refine ⟨ch '%' :: k :: f', g, ?_, ?_, ?_⟩
      · rw [complete_conversion, whole]
      · rw [pieces_conversion, eq]
      · rw [argsLeft_conversion]
        obtain ⟨k', rfl, eq⟩ | char := source
        · exact .inl ⟨k', rfl, eq⟩
        · exact .inr char
  | character c f ne ih =>
    rw [pieces_character ne] at split
    cases pre with
    | nil =>
      obtain ⟨rfl, -⟩ := List.cons.inj split
      exact ⟨[], f, rfl, rfl, .inr ⟨c, rfl⟩⟩
    | cons q pre =>
      obtain ⟨rfl, rest⟩ := List.cons.inj split
      obtain ⟨f', g, whole, eq, source⟩ := ih rest
      refine ⟨c :: f', g, ?_, ?_, ?_⟩
      · rw [complete_character ne, whole]
      · rw [pieces_character ne, eq]
      · rw [argsLeft_character ne]
        obtain ⟨k', rfl, eq⟩ | char := source
        · exact .inl ⟨k', rfl, eq⟩
        · exact .inr char

/-- `vprintf` emits the pieces of a complete format. -/
lemma vprintfLoop_eq (whole : complete f = true) :
    vprintfLoop f args out = some (renderUpTo 255 out (pieces vprintfConv f args)) := by
  induction f using format_induction generalizing args out with
  | nil => rfl
  | lone => cases whole
  | conversion k f ih =>
    rw [complete_conversion] at whole
    rw [vprintfLoop, pieces_conversion, renderUpTo, if_pos rfl]
    split_ifs
    · exact ih whole
    · rfl
  | character c f ne ih =>
    rw [complete_character ne] at whole
    rw [vprintfLoop.eq_def, pieces_character ne, renderUpTo]
    dsimp only
    split_ifs
    · exact ih whole
    · rfl

/-- `console_vprintf` stays in the format when it is complete. -/
lemma consoleVprintf_ne_none_iff (args : List Arg) : consoleVprintf f args ≠ none ↔ complete f = true := by
  induction f using format_induction generalizing args with
  | nil => exact iff_of_true (Option.some_ne_none _) rfl
  | lone => exact iff_of_false (fun ne => ne rfl) Bool.false_ne_true
  | conversion k f ih =>
    rw [complete_conversion, ← ih (consoleVprintfConv k args).2, consoleVprintf, if_pos rfl]
    exact not_congr Option.map_eq_none_iff
  | character c f ne ih =>
    rw [complete_character ne, ← ih args, consoleVprintf.eq_def]
    dsimp only
    rw [if_neg ne]
    exact not_congr Option.map_eq_none_iff

/-! ## The length of the text. -/

lemma decimal_length (v : Int32) :
    (sign v ++ digitsOf (· > 0) 16 (magnitude v).toInt).length = decimalWidth v.toInt := by
  by_cases min : v = Int32.minValue
  · rw [min]
    decide
  have ne : v.toInt ≠ -2 ^ 31 := fun eq => min (Int32.toInt_inj.mp (eq.trans Int32.toInt_minValue.symm))
  rw [decimalWidth, if_neg ne]
  split_ifs with neg
  · rw [sign_append_digitsOf min (by decide) (by simp) 15 (by decide), decimal, signed, if_pos neg, List.length_append,
      List.length_map, List.length_reverse, numeral_length (by decide)]
    rfl
  · rw [sign_append_digitsOf min (by decide) (by simp) 15 (by decide), decimal, signed, if_neg neg, List.length_append,
      List.length_map, List.length_reverse, numeral_length (by decide)]
    rfl

lemma vaInt_tail (args : List Arg) : (vaInt args).2 = args.tail := by
  fun_cases vaInt args with
  | case1 => rfl
  | case2 => rfl

lemma vaStr_tail (args : List Arg) : (vaStr args).2 = args.tail := by
  fun_cases vaStr args with
  | case1 => rfl
  | case2 => rfl
  | case3 => rfl

/-- A conversion writes as many characters as it is wide. -/
lemma vprintfConv_length (k : UInt8) (args : List Arg) (pos : Nat) :
    ((vprintfConv k args).1 pos).length = width k args pos ∧ (vprintfConv k args).2 = behind k args := by
  have takes : k ∈ ascii "disxXc" ↔ k = ch 'd' ∨ k = ch 'i' ∨ k = ch 's' ∨ k = ch 'x' ∨ k = ch 'X' ∨ k = ch 'c' := by
    change k ∈ [ch 'd', ch 'i', ch 's', ch 'x', ch 'X', ch 'c'] ↔ _
    simp only [List.mem_cons, List.not_mem_nil, or_false]
  rw [vprintfConv, width, behind]
  by_cases dec : k = ch 'd' ∨ k = ch 'i'
  · rw [if_pos dec, if_pos dec, if_pos (takes.mpr (by tauto))]
    exact ⟨decimal_length _, vaInt_tail args⟩
  rw [if_neg dec, if_neg dec]
  by_cases str : k = ch 's'
  · rw [if_pos str, if_pos str, if_pos (takes.mpr (by tauto))]
    refine ⟨?_, vaStr_tail args⟩
    dsimp only
    rw [copyUpTo_eq, List.length_take, Nat.min_comm]
  rw [if_neg str, if_neg str]
  by_cases char : k = ch 'c'
  · subst char
    exact ⟨rfl, vaInt_tail args⟩
  rw [if_neg char]
  by_cases hex : k = ch 'x' ∨ k = ch 'X'
  · rw [if_pos hex, if_pos hex, if_pos (takes.mpr (by tauto))]
    exact ⟨hexNibbles_length _ pos, vaInt_tail args⟩
  rw [if_neg hex, if_neg hex, if_neg (show ¬ k ∈ ascii "disxXc" by rw [takes]; tauto)]
  by_cases percent : k = ch '%'
  · rw [if_pos percent, if_pos (.inr percent)]
    exact ⟨rfl, rfl⟩
  · rw [if_neg percent, if_neg (by tauto)]
    exact ⟨rfl, rfl⟩

/-- The pieces of a format lead to its position. -/
lemma render_length : (render out (pieces vprintfConv f args)).length = position f args out.length := by
  induction f using format_induction generalizing args out with
  | nil => rfl
  | lone => rfl
  | conversion k f ih =>
    obtain ⟨len, rest⟩ := vprintfConv_length k args out.length
    rw [pieces_conversion, render, ih, List.length_append, len, rest, position, if_pos rfl]
  | character c f ne ih =>
    rw [pieces_character ne, render, ih, List.length_append, List.length_singleton, position.eq_def (c :: f)]
    exact (if_neg ne).symm

lemma argsLeft_eq : argsLeft vprintfConv f args = left f args := by
  induction f using format_induction generalizing args with
  | nil => rfl
  | lone => rfl
  | conversion k f ih => rw [argsLeft_conversion, ih, (vprintfConv_length k args 0).2, left, if_pos rfl]
  | character c f ne ih =>
    rw [argsLeft_character ne, ih, left.eq_def (c :: f)]
    exact (if_neg ne).symm

/-- `%s` never crosses the end of the buffer. -/
lemma string_stays {pos : Nat} (below : pos ≤ 255) : pos + width (ch 's') args pos ≤ 255 := by
  have le := Nat.min_le_right (charsAt (vaStr args).1).length (255 - pos)
  change pos + min (charsAt (vaStr args).1).length (255 - pos) ≤ 255
  omega

/-- The pieces cross the limit only where a conversion does. -/
lemma vprintf_within_iff : (renderUpTo 255 [] (pieces vprintfConv f args)).length ≤ 255 ↔ NoneCrosses f args := by
  have reach (f' : List UInt8) (k : UInt8) :
      (render [] (pieces vprintfConv f' args ++ [(vprintfConv k (argsLeft vprintfConv f' args)).1])).length =
        position f' args 0 + width k (left f' args) (position f' args 0) := by
    rw [render_append, render, render, List.length_append, render_length, (vprintfConv_length k _ _).1, argsLeft_eq]
    rfl
  rw [renderUpTo_length_le_iff (Nat.zero_le _)]
  constructor
  · intro all f' k g split whole' _ below
    rw [← reach]
    refine all _ _ (pieces vprintfConv g (vprintfConv k (argsLeft vprintfConv f' args)).2) ?_ ?_
    · rw [split, pieces_append whole', pieces_conversion]
    · rw [render_length]
      exact below
  · intro none pre p post split below
    obtain ⟨f', g, whole', rfl, ⟨k, eq, rfl⟩ | ⟨c, rfl⟩⟩ := pieces_split split
    · rw [render_length] at below
      change position f' args 0 < 255 at below
      rw [reach]
      by_cases str : k = ch 's'
      · rw [str]
        exact string_stays (Nat.le_of_lt below)
      · exact none f' k g eq whole' str below
    · rw [render_append]
      change (render [] _ ++ [c]).length ≤ 255
      rw [List.length_append, List.length_singleton]
      omega

/-- Formatted output stays in the bounds of the buffer and of the format exactly when the format does not end inside a
    conversion and no number and no unknown conversion is longer than the room in front of it. -/
theorem inBounds_iff (format : Str) (args : List Arg) :
    InBounds format.chars args ↔ complete format.chars = true ∧ NoneCrosses format.chars args := by
  rw [InBounds, consoleVprintf_ne_none_iff]
  by_cases whole : complete format.chars = true
  · rw [vprintf, vprintfLoop_eq whole, ← vprintf_within_iff]
    constructor
    · rintro ⟨⟨out, eq, fits⟩, -⟩
      cases eq
      exact ⟨whole, Nat.le_of_lt_succ fits⟩
    · rintro ⟨-, fits⟩
      exact ⟨⟨_, rfl, Nat.lt_succ_of_le fits⟩, whole⟩
  · exact iff_of_false (fun h => whole h.2) fun h => whole h.1

/-- A format that ends in a `%`, and a number that begins in the last byte but one of the buffer. -/
theorem out_of_bounds : vprintf [ch '%'] [] = none ∧ ¬ InBounds [ch '%'] [] ∧
    ¬ InBounds (List.replicate 254 (ch 'a') ++ ascii "%d") [.int 123456] := by
  refine ⟨rfl, fun h => h.2 rfl, ?_⟩
  rintro ⟨⟨out, eq, fits⟩, -⟩
  have len : (vprintf (List.replicate 254 (ch 'a') ++ ascii "%d") [.int 123456]).map List.length = some 260 := by
    decide +kernel
  rw [eq] at len
  have length : out.length = 260 := Option.some.inj len
  omega

end RetaOS.Stdio
