import RetaOS.Lib.Emission
import RetaOS.Lib.Numerals
import RetaOS.Lib.Memory

/-!
# Formatted output

The four functions that write formatted text: `kvprintf` of `kernel/kernel.c` and `console_vprintf` of
`kernel/console_utils.c`, which print character by character, and `vprintf` and `vsnprintf` of `libc/src/stdio.c`, which
fill a buffer. What they print or write to the buffer is a list of characters, so that `buf[pos++] = c` is a character
at the end of the list and `pos` is its length.

A format and its arguments are read as pieces (`pieces`), one for each conversion and each other character. Where a
function goes on reading behind the `NUL` of its format, its result is `none`.
-/

namespace RetaOS.Stdio
open Lib

/-- A character constant. -/
def ch (c : Char) : UInt8 := c.toNat.toUInt8

/-- A string constant. -/
def ascii (s : String) : List UInt8 := s.toList.map ch

/-- A string: its characters, in front of the `NUL`. -/
structure Str where
  chars : List UInt8
  nonzero : 0 ∉ chars

/-- The empty string. -/
def Str.empty : Str := ⟨[], List.not_mem_nil⟩

/-- An argument: a number, a string, or `NULL` in the place of a string, with the characters that lie at address 0. -/
inductive Arg where
  | int (v : UInt32)
  | str (s : Str)
  | null (low : Str)

/-- A pointer to characters. -/
inductive Pointer where
  | to (s : Str)
  | null (low : Str)

/-- `va_arg(args, int)` and `va_arg(args, unsigned int)`. -/
def vaInt : List Arg → UInt32 × List Arg
  | .int v :: args => (v, args)
  | args => (0, args.tail)

/-- `va_arg(args, const char*)`. -/
def vaStr : List Arg → Pointer × List Arg
  | .str s :: args => (.to s, args)
  | .null low :: args => (.null low, args)
  | args => (.null .empty, args.tail)

/-- The characters at a pointer that is not checked for `NULL`. -/
def charsAt : Pointer → List UInt8
  | .to s => s.chars
  | .null low => low.chars

/-- The characters at a pointer, where `NULL` stands for a text. -/
def charsOrNull : Pointer → List UInt8
  | .to s => s.chars
  | .null _ => ascii "(null)"

/-! ## Digits. -/

/-- `'0' + d`. -/
def digitChar (d : Int) : UInt8 := UInt8.ofInt (48 + d)

/-- `num` behind `if (num < 0) num = -num`. -/
def magnitude (num : Int32) : Int32 := if num < 0 then -num else num

/-- The sign that is written before. -/
def sign (num : Int32) : List UInt8 := if num < 0 then [ch '-'] else []

/-- The digits of a number as three of the functions find them, in the order in which they are written. -/
def digitsOf (go : Int → Bool) (cap : Nat) (num : Int) : List UInt8 :=
  ((digitLoop 10 go cap num).map digitChar).reverse

/-- The loop of `itoa_unsigned`. -/
def itoaLoop (base : Nat) : Nat → Nat → List Nat
  | 0, _ => []
  | i + 1, val => if val = 0 then [] else val % base :: itoaLoop base i (val / base)

/-- `itoa_unsigned`. -/
def itoaUnsigned (val : UInt32) (base : Nat) : List UInt8 :=
  if val = 0 then [ch '0']
  else ((itoaLoop base 32 val.toNat).map fun d => (ascii "0123456789abcdef").getD d 0).reverse

/-- `itoa_signed`. -/
def itoaSigned (val : Int32) : List UInt8 :=
  if val < 0 then ch '-' :: itoaUnsigned (-val).toUInt32 10 else itoaUnsigned val.toUInt32 10

/-! ## The kernel. -/

/-- The conversions of `kvprintf`: the text of the one for `k`, and the arguments left. -/
def kvprintfConv (k : UInt8) (ap : List Arg) : List UInt8 × List Arg :=
  if k = ch 's' then (charsOrNull (vaStr ap).1, (vaStr ap).2)
  else if k = ch 'd' then (itoaSigned (vaInt ap).1.toInt32, (vaInt ap).2)
  else if k = ch 'x' then (itoaUnsigned (vaInt ap).1 16, (vaInt ap).2)
  else if k = ch 'c' then ([(vaInt ap).1.toUInt8], (vaInt ap).2)
  else if k = ch '%' then ([ch '%'], ap)
  else ([ch '%', k], ap)

/-- `kvprintf`: the characters that it prints. -/
def kvprintf : List UInt8 → List Arg → List UInt8
  | [], _ => []
  | c :: f, ap =>
    if c ≠ ch '%' then c :: kvprintf f ap
    else
      match f with
      | [] => []
      | k :: f => (kvprintfConv k ap).1 ++ kvprintf f (kvprintfConv k ap).2

/-- The digits of `console_vprintf` for `%x`. -/
def consoleHex (unum : UInt32) : List UInt8 :=
  let digit (d : Int) := if d < 10 then digitChar d else UInt8.ofInt (97 + (d - 10))
  let digits := (digitLoop 16 (· > 0) 30 unum.toNat).map digit
  ((digits ++ List.replicate (8 - digits.length) (ch '0')).take 8).reverse

/-- The conversions of `console_vprintf`. -/
def consoleVprintfConv (k : UInt8) (args : List Arg) : List UInt8 × List Arg :=
  if k = ch 'd' ∨ k = ch 'i' then
    let num := (vaInt args).1.toInt32
    (sign num ++ digitsOf (· > 0) 30 (magnitude num).toInt, (vaInt args).2)
  else if k = ch 'u' then (digitsOf (· > 0) 30 (vaInt args).1.toNat, (vaInt args).2)
  else if k = ch 'x' ∨ k = ch 'X' then (consoleHex (vaInt args).1, (vaInt args).2)
  else if k = ch 'c' then ([(vaInt args).1.toUInt8], (vaInt args).2)
  else if k = ch 's' then (charsAt (vaStr args).1, (vaStr args).2)
  else if k = ch '%' then ([ch '%'], args)
  else ([ch '%', k], args)

/-- `console_vprintf`: the characters that it prints. After a `%` it steps over one more character of the format, which
    may be the `NUL`. -/
def consoleVprintf : List UInt8 → List Arg → Option (List UInt8)
  | [], _ => some []
  | c :: f, args =>
    if c = ch '%' then
      match f with
      | [] => none
      | k :: f => (consoleVprintf f (consoleVprintfConv k args).2).map ((consoleVprintfConv k args).1 ++ ·)
    else (consoleVprintf f args).map (c :: ·)

/-! ## The C library. -/

/-- `while (*s && pos < limit) buf[pos++] = *s++`: the characters that are copied. -/
def copyUpTo (limit : Nat) : List UInt8 → Piece UInt8
  | [], _ => []
  | c :: s, pos => if pos < limit then c :: copyUpTo limit s (pos + 1) else []

/-- A pass of the loop of `vprintf` for `%x`, where `text` has been written from `pos` on. -/
def hexStep (num : UInt32) (pos : Nat) (text : List UInt8) (shift : UInt32) : List UInt8 :=
  let nibble := (num >>> shift) &&& 0xF
  if nibble ≠ 0 ∨ shift = 0 ∨ shift < 28 ∧ pos + text.length > 2 then
    text ++ [(ascii "0123456789ABCDEF").getD nibble.toNat 0]
  else text

/-- What `vprintf` writes at `pos` for `%x`. -/
def hexNibbles (num : UInt32) (pos : Nat) : List UInt8 :=
  [28, 24, 20, 16, 12, 8, 4, 0].foldl (hexStep num pos) [ch '0', ch 'x']

/-- The conversions of `vprintf`: what the one for `k` writes, and the arguments left. -/
def vprintfConv (k : UInt8) (args : List Arg) : Piece UInt8 × List Arg :=
  if k = ch 'd' ∨ k = ch 'i' then
    let num := (vaInt args).1.toInt32
    (fun _ => sign num ++ digitsOf (· > 0) 16 (magnitude num).toInt, (vaInt args).2)
  else if k = ch 's' then (copyUpTo 255 (charsAt (vaStr args).1), (vaStr args).2)
  else if k = ch 'c' then (fun _ => [(vaInt args).1.toUInt8], (vaInt args).2)
  else if k = ch 'x' ∨ k = ch 'X' then (hexNibbles (vaInt args).1, (vaInt args).2)
  else if k = ch '%' then (fun _ => [ch '%'], args)
  else (fun _ => [ch '%', k], args)

/-- The loop of `vprintf`, with `out` in the buffer. After a `%` it steps over one more character of the format, which
    may be the `NUL`. -/
def vprintfLoop : List UInt8 → List Arg → List UInt8 → Option (List UInt8)
  | [], _, out => some out
  | c :: f, args, out =>
    if out.length < 255 then
      if c = ch '%' then
        match f with
        | [] => none
        | k :: f => vprintfLoop f (vprintfConv k args).2 (out ++ (vprintfConv k args).1 out.length)
      else vprintfLoop f args (out ++ [c])
    else some out

/-- `vprintf`: the characters that it puts in its buffer, in front of the `NUL`, and writes. -/
def vprintf (format : List UInt8) (args : List Arg) : Option (List UInt8) := vprintfLoop format args []

/-- The digits of `vsnprintf` for `%x`. -/
def hexLoop : Nat → UInt32 → List UInt8
  | 0, _ => []
  | t + 1, v =>
    (ascii "0123456789abcdef").getD (v &&& 0xF).toNat 0 :: if v >>> 4 ≠ 0 then hexLoop t (v >>> 4) else []

/-- The conversions of `vsnprintf`, for a position with `pos + 1 < size`. -/
def vsnprintfConv (size : Nat) (k : UInt8) (args : List Arg) : Piece UInt8 × List Arg :=
  if k = ch 's' then (copyUpTo (size - 1) (charsOrNull (vaStr args).1), (vaStr args).2)
  else if k = ch 'd' then
    let v := (vaInt args).1.toInt32
    let minus pos := if v < 0 ∧ pos + 1 < size then [ch '-'] else []
    (fun pos => minus pos ++ copyUpTo (size - 1) (digitsOf (· ≠ 0) 32 (magnitude v).toInt) (pos + (minus pos).length),
      (vaInt args).2)
  else if k = ch 'x' then (copyUpTo (size - 1) (hexLoop 32 (vaInt args).1).reverse, (vaInt args).2)
  else if k = ch 'c' then (fun _ => [(vaInt args).1.toUInt8], (vaInt args).2)
  else if k = ch '%' then (fun _ => [ch '%'], args)
  else (fun pos => ch '%' :: if pos + 1 + 1 < size then [k] else [], args)

/-- The loop of `vsnprintf`, with `out` in the buffer. -/
def vsnprintfLoop (size : Nat) : List UInt8 → List Arg → List UInt8 → List UInt8
  | [], _, out => out
  | c :: f, args, out =>
    if out.length + 1 < size then
      if c ≠ ch '%' then vsnprintfLoop size f args (out ++ [c])
      else
        match f with
        | [] => out
        | k :: f =>
          vsnprintfLoop size f (vsnprintfConv size k args).2 (out ++ (vsnprintfConv size k args).1 out.length)
    else out

/-- `vsnprintf`: the memory with the text in the buffer, and the number of characters. -/
def vsnprintf (m : Memory) (buf size : UInt32) (format : List UInt8) (args : List Arg) : Memory × Int32 :=
  if buf = 0 ∨ size = 0 then (m, 0)
  else
    let out := vsnprintfLoop size.toNat format args []
    (m.storeBytes buf (out ++ [0]), (UInt32.ofNat out.length).toInt32)

/-! ## Pieces of a format. -/

/-- The pieces of a format: the conversions, and the other characters. A `%` at the end is no piece. -/
def pieces (conv : UInt8 → List Arg → Piece UInt8 × List Arg) : List UInt8 → List Arg → List (Piece UInt8)
  | [], _ => []
  | c :: f, args =>
    if c = ch '%' then
      match f with
      | [] => []
      | k :: f => (conv k args).1 :: pieces conv f (conv k args).2
    else (fun _ => [c]) :: pieces conv f args

/-- A format does not end inside a conversion. -/
def complete : List UInt8 → Bool
  | [] => true
  | c :: f =>
    if c = ch '%' then
      match f with
      | [] => false
      | _ :: f => complete f
    else complete f

/-- The arguments that are left behind a format. -/
def argsLeft (conv : UInt8 → List Arg → Piece UInt8 × List Arg) : List UInt8 → List Arg → List Arg
  | [], args => args
  | c :: f, args =>
    if c = ch '%' then
      match f with
      | [] => args
      | k :: f => argsLeft conv f (conv k args).2
    else argsLeft conv f args

/-- A format is empty, a `%` alone, or begins with a conversion or with another character. -/
theorem format_induction {P : List UInt8 → Prop} (nil : P []) (lone : P [ch '%'])
    (conversion : ∀ k f, P f → P (ch '%' :: k :: f)) (character : ∀ c f, c ≠ ch '%' → P f → P (c :: f)) (f) : P f :=
  match f with
  | [] => nil
  | [c] => if e : c = ch '%' then e ▸ lone else character c [] e nil
  | c :: k :: f =>
    if e : c = ch '%' then e ▸ conversion k f (format_induction nil lone conversion character f)
    else character c (k :: f) e (format_induction nil lone conversion character (k :: f))

variable {conv : UInt8 → List Arg → Piece UInt8 × List Arg} {k c : UInt8} {f g s : List UInt8} {args : List Arg}
  {limit pos : Nat}

@[simp] lemma pieces_conversion :
    pieces conv (ch '%' :: k :: f) args = (conv k args).1 :: pieces conv f (conv k args).2 := by
  rw [pieces, if_pos rfl]

lemma pieces_character (h : c ≠ ch '%') : pieces conv (c :: f) args = (fun _ => [c]) :: pieces conv f args := by
  rw [pieces.eq_def]
  exact if_neg h

@[simp] lemma complete_conversion : complete (ch '%' :: k :: f) = complete f := by
  rw [complete, if_pos rfl]

lemma complete_character (h : c ≠ ch '%') : complete (c :: f) = complete f := by
  rw [complete.eq_def]
  exact if_neg h

@[simp] lemma argsLeft_conversion : argsLeft conv (ch '%' :: k :: f) args = argsLeft conv f (conv k args).2 := by
  rw [argsLeft, if_pos rfl]

lemma argsLeft_character (h : c ≠ ch '%') : argsLeft conv (c :: f) args = argsLeft conv f args := by
  rw [argsLeft.eq_def]
  exact if_neg h

/-- A string is copied as far as there is room. -/
lemma copyUpTo_eq : copyUpTo limit s pos = s.take (limit - pos) := by
  induction s generalizing pos with
  | nil => rw [copyUpTo, List.take_nil]
  | cons c s ih =>
    rw [copyUpTo]
    split_ifs with room
    · have next : limit - pos = (limit - (pos + 1)) + 1 := by omega
      rw [ih, next, List.take_succ_cons]
    · have full : limit - pos = 0 := by omega
      rw [full, List.take_zero]

/-- A format behind a complete one is complete when both are. -/
lemma complete_append (whole : complete f = true) : complete (f ++ g) = complete g := by
  induction f using format_induction with
  | nil => rfl
  | lone => cases whole
  | conversion k f ih =>
    rw [complete_conversion] at whole
    rw [List.cons_append, List.cons_append, complete_conversion, ih whole]
  | character c f ne ih =>
    rw [complete_character ne] at whole
    rw [List.cons_append, complete_character ne, ih whole]

/-- The pieces of a format behind a complete one are those of both. -/
lemma pieces_append (whole : complete f = true) :
    pieces conv (f ++ g) args = pieces conv f args ++ pieces conv g (argsLeft conv f args) := by
  induction f using format_induction generalizing args with
  | nil => rfl
  | lone => cases whole
  | conversion k f ih =>
    rw [complete_conversion] at whole
    rw [List.cons_append, List.cons_append, pieces_conversion, pieces_conversion, argsLeft_conversion, ih whole]
    rfl
  | character c f ne ih =>
    rw [complete_character ne] at whole
    rw [List.cons_append, pieces_character ne, pieces_character ne, argsLeft_character ne, ih whole]
    rfl

end RetaOS.Stdio
