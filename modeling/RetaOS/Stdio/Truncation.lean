import RetaOS.Stdio.Defs

/-!
# Truncation

`vsnprintf` stops wherever its buffer is full, and every conversion looks at the room that is left before each of its
characters. What it writes is therefore the text without a limit, up to one character less than the size
(`vsnprintfLoop_eq`), and a smaller buffer gets the beginning of what a larger one does (`vsnprintf_prefix`).
-/

namespace RetaOS.Stdio
open Lib

/-- The text of a conversion where there is room for it, and the arguments left. -/
def vsnprintfText (k : UInt8) (args : List Arg) : List UInt8 × List Arg :=
  if k = ch 's' then (charsOrNull (vaStr args).1, (vaStr args).2)
  else if k = ch 'd' then
    let v := (vaInt args).1.toInt32
    (sign v ++ digitsOf (· ≠ 0) 32 (magnitude v).toInt, (vaInt args).2)
  else if k = ch 'x' then ((hexLoop 32 (vaInt args).1).reverse, (vaInt args).2)
  else if k = ch 'c' then ([(vaInt args).1.toUInt8], (vaInt args).2)
  else if k = ch '%' then ([ch '%'], args)
  else ([ch '%', k], args)

/-- The text as a piece. -/
def vsnprintfPiece (k : UInt8) (args : List Arg) : Piece UInt8 × List Arg :=
  (fun _ => (vsnprintfText k args).1, (vsnprintfText k args).2)

variable {size pos : Nat} {k : UInt8} {args : List Arg}

/-- Every conversion writes its text as far as there is room. -/
lemma vsnprintfConv_clip (k : UInt8) (args : List Arg) (room : pos + 1 < size) :
    (vsnprintfConv size k args).1 pos = (vsnprintfText k args).1.take (size - 1 - pos) ∧
      (vsnprintfConv size k args).2 = (vsnprintfText k args).2 := by
  have first (c : UInt8) : [c].take (size - 1 - pos) = [c] := List.take_of_length_le (by simp; omega)
  rw [vsnprintfConv, vsnprintfText]
  split_ifs
  · exact ⟨copyUpTo_eq, rfl⟩
  · refine ⟨?_, rfl⟩
    dsimp only
    rw [copyUpTo_eq, sign]
    by_cases neg : (vaInt args).1.toInt32 < 0
    · have next : size - 1 - (pos + [ch '-'].length) = size - 1 - pos - [ch '-'].length := by
        rw [List.length_singleton]
        omega
      rw [if_pos ⟨neg, room⟩, if_pos neg, List.take_append, first, next]
    · rw [if_neg fun h => neg h.1, if_neg neg]
      rfl
  · exact ⟨copyUpTo_eq, rfl⟩
  · exact ⟨(first _).symm, rfl⟩
  · exact ⟨(first _).symm, rfl⟩
  · refine ⟨?_, rfl⟩
    dsimp only
    split_ifs with more
    · exact (List.take_of_length_le (by simp; omega)).symm
    · have one : size - 1 - pos = 1 := by omega
      rw [one]
      rfl

/-- The loop of `vsnprintf` emits the pieces of the format, clipped at the end of the buffer. -/
theorem vsnprintfLoop_eq (size : Nat) (f : List UInt8) (args : List Arg) (out : List UInt8) :
    vsnprintfLoop size f args out =
      renderUpTo (size - 1) out ((pieces vsnprintfPiece f args).map (Piece.clip (size - 1))) := by
  have room_iff : out.length + 1 < size ↔ out.length < size - 1 := by omega
  induction f using format_induction generalizing args out with
  | nil => rfl
  | lone =>
    rw [vsnprintfLoop]
    exact ite_self out
  | conversion k f ih =>
    rw [vsnprintfLoop, pieces_conversion, List.map_cons, renderUpTo]
    by_cases room : out.length + 1 < size
    · obtain ⟨text, left⟩ := vsnprintfConv_clip k args room
      rw [if_pos room, if_neg (by simp), if_pos (room_iff.mp room), text, left]
      exact ih _ _ (by omega)
    · rw [if_neg room, if_neg (mt room_iff.mpr room)]
  | character c f ne ih =>
    rw [vsnprintfLoop.eq_def, pieces_character ne, List.map_cons, renderUpTo]
    dsimp only
    by_cases room : out.length + 1 < size
    · have one : (Piece.clip (size - 1) fun _ => [c]) out.length = [c] := by
        rw [Piece.clip, List.take_of_length_le]
        rw [List.length_singleton]
        omega
      rw [if_pos room, if_pos ne, if_pos (room_iff.mp room), one]
      exact ih _ _ (by omega)
    · rw [if_neg room, if_neg (mt room_iff.mpr room)]

/-- The text of a format, without a limit. -/
def vsnprintfAll (f : List UInt8) (args : List Arg) : List UInt8 := render [] (pieces vsnprintfPiece f args)

/-- What is in the buffer is the beginning of the text. -/
lemma vsnprintfLoop_take (size : Nat) (f : List UInt8) (args : List Arg) :
    vsnprintfLoop size f args [] = (vsnprintfAll f args).take (size - 1) := by
  rw [vsnprintfLoop_eq, renderUpTo_clip (Nat.zero_le _)]
  rfl

/-- A call with a buffer of `n` bytes has put the characters `out` and a `NUL` into it, has written nothing else, and
    has returned the number of the characters. -/
structure Writes (n : Nat) (mem : Memory) (buf : UInt32) (out : List UInt8) (r : Memory × Int32) : Prop where
  inside : out.length < n
  chars : r.1.loadBytes buf (out.length + 1) = out ++ [0]
  frame : ∀ x : UInt32, n ≤ (x - buf).toNat → r.1 x = mem x
  count : r.2 = (UInt32.ofNat out.length).toInt32
  value : out.length < 2 ^ 31 → r.2.toInt = out.length

/-- A call writes as much of the text as there is room for. -/
lemma vsnprintf_writes (mem : Memory) {buf n : UInt32} (f : List UInt8) (args : List Arg) (nonnull : buf ≠ 0)
    (pos : 1 ≤ n.toNat) :
    Writes n.toNat mem buf ((vsnprintfAll f args).take (n.toNat - 1)) (vsnprintf mem buf n f args) := by
  have size : n ≠ 0 := by
    rintro rfl
    exact absurd pos (by decide)
  have top := n.toNat_lt
  have call : vsnprintf mem buf n f args =
      (mem.storeBytes buf ((vsnprintfAll f args).take (n.toNat - 1) ++ [0]),
        (UInt32.ofNat ((vsnprintfAll f args).take (n.toNat - 1)).length).toInt32) := by
    rw [vsnprintf, if_neg (by tauto), vsnprintfLoop_take]
  have le : ((vsnprintfAll f args).take (n.toNat - 1)).length ≤ n.toNat - 1 := List.length_take_le _ _
  rw [call]
  generalize (vsnprintfAll f args).take (n.toNat - 1) = out at le
  have len : (out ++ [0]).length = out.length + 1 := List.length_append
  refine ⟨by omega, ?_, fun x outside => ?_, rfl, fun small => ?_⟩
  · rw [← len]
    exact Memory.loadBytes_storeBytes (by omega)
  · exact Memory.storeBytes_outside (by omega)
  · have count : (UInt32.ofNat out.length).toNat = out.length := toNat_ofNat_lt (by omega)
    rw [toInt_of_lt (by omega), count]

/-- With a smaller buffer, `vsnprintf` writes the beginning of what it writes with a larger one, as much as there is
    room for, and a `NUL`; with the larger one it writes the text of the format as far as there is room. -/
theorem vsnprintf_prefix (mem mem' : Memory) (buf buf' n m : UInt32) (format : Str) (args : List Arg)
    (nonnull : buf ≠ 0) (nonnull' : buf' ≠ 0) (pos : 1 ≤ n) (le : n ≤ m) :
    ∃ text : List UInt8, text = (vsnprintfAll format.chars args).take (m.toNat - 1) ∧
      Writes m.toNat mem' buf' text (vsnprintf mem' buf' m format.chars args) ∧
      Writes n.toNat mem buf (text.take (n.toNat - 1)) (vsnprintf mem buf n format.chars args) := by
  have one : 1 ≤ n.toNat := UInt32.le_iff_toNat_le.mp pos
  have small : n.toNat ≤ m.toNat := UInt32.le_iff_toNat_le.mp le
  refine ⟨_, rfl, vsnprintf_writes mem' format.chars args nonnull' (by omega), ?_⟩
  have shorter := vsnprintf_writes mem format.chars args nonnull one
  rwa [List.take_take, Nat.min_eq_left (by omega)]

/-- `"%d"`. -/
def percentD : Str := ⟨ascii "%d", by decide⟩

/-- The number 42 in a buffer of two bytes and in one of eight. -/
theorem vsnprintf_prefix_digits :
    (vsnprintf (fun _ => 0xAA) 0x2000 8 percentD.chars [.int 42]).1.loadBytes 0x2000 3 = ascii "42" ++ [0] ∧
    (vsnprintf (fun _ => 0xAA) 0x2000 8 percentD.chars [.int 42]).2.toInt = 2 ∧
    (vsnprintf (fun _ => 0xAA) 0x1000 2 percentD.chars [.int 42]).1.loadBytes 0x1000 2 = ascii "4" ++ [0] ∧
    (vsnprintf (fun _ => 0xAA) 0x1000 2 percentD.chars [.int 42]).2.toInt = 1 := by
  obtain ⟨text, eq, large, small⟩ := vsnprintf_prefix (fun _ => 0xAA) (fun _ => 0xAA) 0x1000 0x2000 2 8 percentD
    [.int 42] (by decide) (by decide) (by decide) (by decide)
  obtain rfl : text = ascii "42" := by
    rw [eq]
    decide
  exact ⟨large.chars, large.value (by decide), small.chars, small.value (by decide)⟩

end RetaOS.Stdio
