import RetaOS.Stdio.Overrun

/-!
# Formats behind one another

What `vprintf` writes for a format is the text of its pieces, and the text of each depends on its argument only, but for
`%x`: it leaves out leading zeros as long as at most two characters are in the buffer, which it takes to be its own
`0x`. The text of two formats behind one another is therefore not the text of both when the second one begins with a
hexadecimal number that has leading zeros (`vprintf_append_iff`).
-/

namespace RetaOS.Stdio
open Lib

/-- The conversions that take a number. -/
def numeric : List UInt8 := ascii "dicxX"

/-- The arguments are those that `vprintf` takes for a format. -/
inductive Matches : List UInt8 → List Arg → Prop where
  | nil : Matches [] []
  | lone : Matches [ch '%'] []
  | number {k f v args} :
    k ∈ numeric →
    Matches f args →
    Matches (ch '%' :: k :: f) (.int v :: args)
  | string {f s args} :
    Matches f args →
    Matches (ch '%' :: ch 's' :: f) (.str s :: args)
  | other {k f args} :
    k ∉ numeric →
    k ≠ ch 's' →
    Matches f args →
    Matches (ch '%' :: k :: f) args
  | character {c f args} :
    c ≠ ch '%' →
    Matches f args →
    Matches (c :: f) args

/-- What a format prints first is a hexadecimal number below `0x1000000`; only `%s` can print nothing. -/
inductive HexFirst : List UInt8 → List Arg → Prop where
  | hex {k f v args} :
    k = ch 'x' ∨ k = ch 'X' →
    v < 0x1000000 →
    HexFirst (ch '%' :: k :: f) (.int v :: args)
  | empty {f s args} :
    s.chars = [] →
    HexFirst f args →
    HexFirst (ch '%' :: ch 's' :: f) (.str s :: args)

/-! ## Texts. -/

variable {v : UInt32} {pos : Nat} {out : List UInt8} {k c : UInt8} {f g : List UInt8} {args b : List Arg}

/-- The conversions of `vprintf`, where there is room for the strings. -/
def vprintfPiece (k : UInt8) (args : List Arg) : Piece UInt8 × List Arg :=
  if k = ch 's' then (fun _ => charsAt (vaStr args).1, (vaStr args).2) else vprintfConv k args

/-- The text of a format, without a limit. -/
def textOf (f : List UInt8) (args : List Arg) : List UInt8 := render [] (pieces vprintfPiece f args)

/-- A conversion leaves the same arguments with and without a limit, and writes the same unless it fills the buffer. -/
lemma vprintfConv_eq (pos : Nat) (k : UInt8) (args : List Arg) :
    (vprintfConv k args).2 = (vprintfPiece k args).2 ∧
      ((pos + ((vprintfConv k args).1 pos).length < 255 ∨ pos + ((vprintfPiece k args).1 pos).length < 255) →
        (vprintfConv k args).1 pos = (vprintfPiece k args).1 pos) := by
  rw [vprintfPiece]
  split_ifs with str
  · subst str
    refine ⟨rfl, fun room => ?_⟩
    change copyUpTo 255 (charsAt (vaStr args).1) pos = charsAt (vaStr args).1
    change pos + (copyUpTo 255 (charsAt (vaStr args).1) pos).length < 255 ∨
      pos + (charsAt (vaStr args).1).length < 255 at room
    rw [copyUpTo_eq, List.length_take] at room
    rw [copyUpTo_eq, List.take_of_length_le (by omega)]
  · exact ⟨rfl, fun _ => rfl⟩

/-- A call that does not fill the buffer writes the text of the format. -/
lemma renderUpTo_text (room : (renderUpTo 255 out (pieces vprintfConv f args)).length < 255 ∨
      (render out (pieces vprintfPiece f args)).length < 255) :
    renderUpTo 255 out (pieces vprintfConv f args) = render out (pieces vprintfPiece f args) := by
  induction f using format_induction generalizing args out with
  | nil => rfl
  | lone => rfl
  | conversion k f ih =>
    have start := room.elim (Nat.lt_of_le_of_lt length_le_renderUpTo) (Nat.lt_of_le_of_lt length_le_render)
    rw [pieces_conversion, pieces_conversion, renderUpTo, if_pos start, render] at room ⊢
    obtain ⟨left, same⟩ := vprintfConv_eq out.length k args
    have eq : (vprintfConv k args).1 out.length = (vprintfPiece k args).1 out.length := by
      refine same (room.imp (fun short => ?_) fun long => ?_)
      · rw [← List.length_append]
        exact Nat.lt_of_le_of_lt length_le_renderUpTo short
      · rw [← List.length_append]
        exact Nat.lt_of_le_of_lt length_le_render long
    rw [eq, left] at room ⊢
    exact ih room
  | character c f ne ih =>
    have start := room.elim (Nat.lt_of_le_of_lt length_le_renderUpTo) (Nat.lt_of_le_of_lt length_le_render)
    rw [pieces_character ne, pieces_character ne, renderUpTo, if_pos start, render] at room ⊢
    exact ih room

/-- What the pieces of a format add to a text that is not empty. -/
def steadyText (f : List UInt8) (args : List Arg) : List UInt8 := (pieces vprintfPiece f args).flatMap (· 1)

/-- No conversion looks at more of the position than whether it is 0. -/
lemma vprintfPiece_steady (k : UInt8) (args : List Arg) (begun : 0 < pos) :
    (vprintfPiece k args).1 pos = (vprintfPiece k args).1 1 := by
  have two := hexLead_length (vaInt args).1
  rw [vprintfPiece, vprintfConv]
  split_ifs
  · rfl
  · rfl
  · rfl
  · dsimp only
    rw [hexNibbles_steady (by omega), hexNibbles_steady (by omega)]
  · rfl
  · rfl

lemma pieces_steady : ∀ p ∈ pieces vprintfPiece f args, ∀ pos, 0 < pos → p pos = p 1 := by
  induction f using format_induction generalizing args with
  | nil => exact fun _ mem => nomatch mem
  | lone => exact fun _ mem => nomatch mem
  | conversion k f ih =>
    rw [pieces_conversion]
    exact List.forall_mem_cons.mpr ⟨fun _ begun => vprintfPiece_steady k args begun, ih⟩
  | character c f ne ih =>
    rw [pieces_character ne]
    exact List.forall_mem_cons.mpr ⟨fun _ _ => rfl, ih⟩

/-- The text of a format behind another text. -/
lemma render_behind (ne : out ≠ []) : render out (pieces vprintfPiece f args) = out ++ steadyText f args :=
  render_steady pieces_steady ne

/-! ## The first output. -/

lemma mem_numeric : k ∈ numeric ↔ k = ch 'd' ∨ k = ch 'i' ∨ k = ch 'c' ∨ k = ch 'x' ∨ k = ch 'X' := by
  change k ∈ [ch 'd', ch 'i', ch 'c', ch 'x', ch 'X'] ↔ _
  simp only [List.mem_cons, List.not_mem_nil, or_false]

/-- A conversion of a number takes it and prints something, and `%x` alone depends on the position. -/
lemma vprintfPiece_number (v : UInt32) (args b : List Arg) (num : k ∈ numeric) :
    vprintfPiece k (.int v :: args) = ((vprintfPiece k (.int v :: b)).1, args) ∧
      (vprintfPiece k (.int v :: args)).1 0 ≠ [] ∧
      (((k = ch 'x' ∨ k = ch 'X') ∧ (vprintfPiece k (.int v :: args)).1 = hexNibbles v) ∨
        ¬ (k = ch 'x' ∨ k = ch 'X') ∧
          (vprintfPiece k (.int v :: args)).1 0 = (vprintfPiece k (.int v :: args)).1 1) := by
  have digits : sign v.toInt32 ++ digitsOf (· > 0) 16 (magnitude v.toInt32).toInt ≠ [] := by
    rw [digitsOf, digitLoop]
    simp
  have hex : hexNibbles v 0 ≠ [] := by
    have low := (foldl_hexStep_length v 0 (hexLead v) [24, 20, 16, 12, 8, 4, 0]).1
    have two := hexLead_length v
    rw [← hexNibbles_eq] at low
    rw [← List.length_pos_iff]
    omega
  obtain rfl | rfl | rfl | rfl | rfl := mem_numeric.mp num
  · exact ⟨rfl, digits, .inr ⟨by decide, rfl⟩⟩
  · exact ⟨rfl, digits, .inr ⟨by decide, rfl⟩⟩
  · exact ⟨rfl, List.cons_ne_nil _ _, .inr ⟨by decide, rfl⟩⟩
  · exact ⟨rfl, hex, .inl ⟨by decide, rfl⟩⟩
  · exact ⟨rfl, hex, .inl ⟨by decide, rfl⟩⟩

/-- Any other conversion prints one or two characters. -/
lemma vprintfPiece_other (args : List Arg) (num : k ∉ numeric) (str : k ≠ ch 's') :
    vprintfPiece k args = (fun _ => if k = ch '%' then [ch '%'] else [ch '%', k], args) := by
  rw [mem_numeric] at num
  rw [vprintfPiece, if_neg str, vprintfConv, if_neg (by tauto), if_neg str, if_neg (by tauto), if_neg (by tauto)]
  split_ifs
  · rfl
  · rfl

/-- The text of a format is what it adds to any other text, but where a hexadecimal number with leading zeros comes
    first; there it is shorter. -/
structure Compares (f : List UInt8) (args : List Arg) : Prop where
  shorter : HexFirst f args → (textOf f args).length < (steadyText f args).length
  same : ¬ HexFirst f args → textOf f args = steadyText f args
  le : (steadyText f args).length ≤ (textOf f args).length + 6

/-- A piece that prints the same everywhere comes first. -/
lemma Compares.of_first {p : Piece UInt8} (ne : p 0 ≠ []) (same : p 0 = p 1)
    (eq : pieces vprintfPiece f args = p :: pieces vprintfPiece g b) (not : ¬ HexFirst f args) : Compares f args := by
  have text : textOf f args = steadyText f args := by
    rw [textOf, steadyText, eq, render, List.flatMap_cons, List.nil_append, ← same]
    exact render_behind ne
  refine ⟨fun hex => absurd hex not, fun _ => text, ?_⟩
  rw [text]
  exact Nat.le_add_right _ 6

/-- A hexadecimal number comes first. -/
lemma Compares.of_hex (hex : k = ch 'x' ∨ k = ch 'X') (ne : hexNibbles v 0 ≠ [])
    (eq : vprintfPiece k (.int v :: args) = (hexNibbles v, args)) : Compares (ch '%' :: k :: f) (.int v :: args) := by
  have text : textOf (ch '%' :: k :: f) (.int v :: args) = hexNibbles v 0 ++ steadyText f args := by
    rw [textOf, pieces_conversion, eq, render, List.nil_append, List.length_nil, render_behind ne]
  have steady : steadyText (ch '%' :: k :: f) (.int v :: args) = hexNibbles v 1 ++ steadyText f args := by
    rw [steadyText, pieces_conversion, eq, List.flatMap_cons]
    rfl
  by_cases small : v < 0x1000000
  · obtain ⟨lt, le⟩ := hexNibbles_small small
    refine ⟨fun _ => ?_, fun not => absurd (.hex hex small) not, ?_⟩
    · rw [text, steady, List.length_append, List.length_append]
      omega
    · rw [text, steady, List.length_append, List.length_append]
      omega
  · rw [hexNibbles_large small] at text
    have same := text.trans steady.symm
    refine ⟨fun first => ?_, fun _ => same, ?_⟩
    · cases first with
      | hex _ lt => exact absurd lt small
    · rw [same]
      exact Nat.le_add_right _ 6

/-- An empty string comes first, and prints nothing. -/
lemma Compares.of_empty {s : Str} (empty : s.chars = []) (rest : Compares f args) :
    Compares (ch '%' :: ch 's' :: f) (.str s :: args) := by
  have text : textOf (ch '%' :: ch 's' :: f) (.str s :: args) = textOf f args := by
    rw [textOf, pieces_conversion, render]
    change render ([] ++ s.chars) _ = _
    rw [empty]
    rfl
  have steady : steadyText (ch '%' :: ch 's' :: f) (.str s :: args) = steadyText f args := by
    rw [steadyText, pieces_conversion, List.flatMap_cons]
    change s.chars ++ _ = _
    rw [empty]
    rfl
  have iff : HexFirst (ch '%' :: ch 's' :: f) (.str s :: args) ↔ HexFirst f args := by
    refine ⟨fun first => ?_, .empty empty⟩
    cases first with
    | empty _ rest => exact rest
  exact ⟨by rw [text, steady, iff]; exact rest.shorter, by rw [text, steady, iff]; exact rest.same,
    by rw [text, steady]; exact rest.le⟩

/-- Every format compares so with its arguments. -/
lemma compares (args_ : Matches f args) : Compares f args := by
  induction args_ with
  | nil => exact ⟨nofun, fun _ => rfl, Nat.zero_le _⟩
  | lone => exact ⟨nofun, fun _ => rfl, Nat.zero_le _⟩
  | @number k f v args num _ ih =>
    obtain ⟨left, ne, ⟨hex, eq⟩ | ⟨dec, same⟩⟩ := vprintfPiece_number v args args num
    · refine .of_hex hex ?_ ?_
      · rwa [eq] at ne
      · rw [left, eq]
    · refine .of_first ne same pieces_conversion fun first => ?_
      cases first with
      | hex hex _ => exact dec hex
  | @string f s args _ ih =>
    by_cases empty : s.chars = []
    · exact .of_empty empty ih
    · refine .of_first (p := fun _ => s.chars) empty rfl pieces_conversion fun first => ?_
      cases first with
      | empty h _ => exact empty h
  | @other k f args num str _ ih =>
    have piece := vprintfPiece_other args num str
    refine .of_first (p := fun _ => if k = ch '%' then [ch '%'] else [ch '%', k]) (g := f) (b := args) ?_ rfl ?_ ?_
    · split_ifs
      · exact List.cons_ne_nil _ _
      · exact List.cons_ne_nil _ _
    · rw [pieces_conversion, piece]
    · intro first
      cases first with
      | hex hex _ =>
        obtain rfl | rfl := hex
        · exact num (by decide)
        · exact num (by decide)
      | empty _ _ => exact str rfl
  | @character c f args ne _ ih =>
    refine .of_first (p := fun _ => [c]) (List.cons_ne_nil c []) rfl (pieces_character ne) fun first => ?_
    cases first with
    | hex _ _ => exact ne rfl
    | empty _ _ => exact ne rfl

/-! ## Two formats. -/

/-- The arguments of a format are all that it takes. -/
lemma pieces_matches (args_ : Matches f args) : argsLeft vprintfPiece f (args ++ b) = b ∧
    pieces vprintfPiece f (args ++ b) = pieces vprintfPiece f args := by
  induction args_ with
  | nil => exact ⟨rfl, rfl⟩
  | lone => exact ⟨rfl, rfl⟩
  | @number k f v args num _ ih =>
    obtain ⟨behind, -⟩ := vprintfPiece_number v (args ++ b) args num
    obtain ⟨alone, -⟩ := vprintfPiece_number v args args num
    rw [List.cons_append, argsLeft_conversion, pieces_conversion, pieces_conversion, behind, alone]
    exact ⟨ih.1, congrArg _ ih.2⟩
  | @string f s args _ ih =>
    rw [List.cons_append, argsLeft_conversion, pieces_conversion, pieces_conversion]
    exact ⟨ih.1, congrArg _ ih.2⟩
  | @other k f args num str _ ih =>
    rw [argsLeft_conversion, pieces_conversion, pieces_conversion, vprintfPiece_other _ num str,
      vprintfPiece_other _ num str]
    exact ⟨ih.1, congrArg _ ih.2⟩
  | @character c f args ne _ ih =>
    rw [argsLeft_character ne, pieces_character ne, pieces_character ne]
    exact ⟨ih.1, congrArg _ ih.2⟩

/-- A call that writes less than its buffer holds writes the text of a complete format. -/
lemma vprintf_eq_some {s : List UInt8} (whole : complete f = true) (short : s.length < 255) :
    vprintf f args = some s ↔ textOf f args = s := by
  rw [vprintf, vprintfLoop_eq whole, Option.some_inj]
  constructor
  · rintro rfl
    exact (renderUpTo_text (.inl short)).symm
  · rintro rfl
    exact renderUpTo_text (.inr short)

/-- `vprintf` reads on behind a format that ends inside a conversion, unless its buffer is full before. -/
lemma complete_of_vprintfLoop {s : List UInt8} (eq : vprintfLoop f args out = some s) (short : s.length < 255) :
    complete f = true := by
  induction f using format_induction generalizing args out with
  | nil => rfl
  | lone =>
    rw [vprintfLoop, if_pos rfl] at eq
    split_ifs at eq with room
    cases eq
    exact absurd short room
  | conversion k f ih =>
    rw [vprintfLoop, if_pos rfl] at eq
    rw [complete_conversion]
    split_ifs at eq with room
    · exact ih eq
    · cases eq
      exact absurd short room
  | character c f ne ih =>
    rw [vprintfLoop.eq_def] at eq
    dsimp only at eq
    rw [complete_character ne]
    split_ifs at eq with room
    · exact ih eq
    · cases eq
      exact absurd short room

/-- `vprintf` writes the texts of two formats for the one behind the other exactly when the first one prints nothing, or
    when the second one does not print a hexadecimal number with leading zeros first. -/
theorem vprintf_append_iff (f g : Str) (a b : List Arg) (s t : List UInt8) (whole : complete f.chars = true)
    (args : Matches f.chars a) (args' : Matches g.chars b) (first : vprintf f.chars a = some s)
    (second : vprintf g.chars b = some t) (total : s.length + t.length ≤ 200) :
    vprintf (f.chars ++ g.chars) (a ++ b) = some (s ++ t) ↔ s = [] ∨ ¬ HexFirst g.chars b := by
  have whole' : complete g.chars = true := complete_of_vprintfLoop second (by omega)
  have both : complete (f.chars ++ g.chars) = true := (complete_append whole).trans whole'
  have text := (vprintf_eq_some whole (by omega)).mp first
  have text' := (vprintf_eq_some whole' (by omega)).mp second
  have concat : textOf (f.chars ++ g.chars) (a ++ b) = render s (pieces vprintfPiece g.chars b) := by
    obtain ⟨left, same⟩ := pieces_matches (b := b) args
    rw [textOf, pieces_append whole, left, same, render_append]
    change render (textOf f.chars a) _ = _
    rw [text]
  obtain ⟨shorter, steady, le⟩ := compares args'
  rw [vprintf_eq_some both (by rw [List.length_append]; omega), concat]
  by_cases empty : s = []
  · subst empty
    exact iff_of_true text' (.inl rfl)
  · rw [render_behind empty, List.append_cancel_left_eq, ← text']
    constructor
    · intro eq
      refine .inr fun hex => ?_
      have lt := shorter hex
      rw [eq] at lt
      exact absurd lt (Nat.lt_irrefl _)
    · rintro (eq | plain)
      · exact absurd eq empty
      · exact (steady plain).symm

/-- `"%s"` and then `"%d"`. -/
theorem vprintf_append_word : vprintf (ascii "%s" ++ ascii "%d") ([.str ⟨ascii "a", by decide⟩] ++ [.int 42]) =
    some (ascii "a" ++ ascii "42") ↔ ascii "a" = [] ∨ ¬ HexFirst (ascii "%d") [.int 42] :=
  vprintf_append_iff ⟨ascii "%s", by decide⟩ ⟨ascii "%d", by decide⟩ [.str ⟨ascii "a", by decide⟩] [.int 42]
    (ascii "a") (ascii "42") (by decide) (.string .nil) (.number (by decide) .nil) (by decide) (by decide) (by decide)

/-- A hexadecimal number behind a letter. -/
theorem hex_in_context : vprintf (ascii "a") [] = some (ascii "a") ∧
    vprintf (ascii "%x") [.int 42] = some (ascii "0x2A") ∧
    vprintf (ascii "a" ++ ascii "%x") ([] ++ [.int 42]) = some (ascii "a0x000002A") ∧
    vprintf (ascii "a" ++ ascii "%x") ([] ++ [.int 42]) ≠ some (ascii "a" ++ ascii "0x2A") :=
  ⟨by decide, by decide, by decide, by decide⟩

end RetaOS.Stdio
