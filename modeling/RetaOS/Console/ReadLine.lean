import RetaOS.Console.Terminal
import RetaOS.Keyboard.Typing
import RetaOS.Lib.Loop
import RetaOS.Lib.Memory

/-!
# Reading a line

`read_line` of `kernel/kernel.c`, which edits a line in the caller's buffer while it takes characters from the keyboard
and, when there is none, from the serial port. What the two give each time they are asked is arbitrary (`Inputs`). The
reference is an editor of a list of characters (`lineEditor`); `readLine_edits` is the simulation of the one by the
other, so that they return together.
-/

namespace RetaOS.Console
open Lib

/-- What `keyboard_getkey_nonblock` and `serial_getchar_nonblock` find when they are called for the `n`-th time. -/
structure Inputs where
  key : Nat → Option UInt16
  serial : Nat → Option UInt8

/-- `keyboard_getchar_nonblock`. -/
def keyboardGetcharNonblock (k : Option UInt16) : Option UInt8 :=
  match k with
  | none => none
  | some k => if k < 256 then some k.toUInt8 else none

/-- A pass of the loop that waits for a character. -/
def nextChar (inp : Inputs) (n : Nat) : Option UInt8 :=
  match keyboardGetcharNonblock (inp.key n) with
  | some kc => some kc
  | none => (inp.serial n).map fun sc => if sc = 0x0D then 0x0A else sc

/-- The variables of `read_line`: the number of passes that it has waited, `i`, the memory, and what it has given to
    `put` and to `serial_write`. -/
structure Line where
  polls : Nat
  i : Nat
  mem : Memory
  screen : List UInt8
  echo : List UInt8

/-- A pass of the loops of `read_line`, with one pass of the inner loop. -/
def readLinePass (inp : Inputs) (out : UInt32) (maxlen : Int32) (l : Line) : Pass Line (Int × Line) :=
  if (l.i : Int) < maxlen.toInt - 1 then
    match nextChar inp l.polls with
    | none => .next { l with polls := l.polls + 1 }
    | some c =>
      let l := { l with polls := l.polls + 1 }
      if c = 8 then
        if l.i > 0 then .next { l with i := l.i - 1, screen := l.screen ++ [8, 0x20, 8] } else .next l
      else if c = 0x0A then
        .done (l.i, { l with screen := l.screen ++ [c], mem := l.mem.store8 (out + UInt32.ofNat l.i) 0 })
      else if c.toInt8 ≥ 0x20 ∧ c.toInt8 ≤ 0x7E then
        .next
          { l with
            mem := l.mem.store8 (out + UInt32.ofNat l.i) c
            i := l.i + 1
            screen := l.screen ++ [c]
            echo := l.echo ++ [c] }
      else .next l
  else .done (l.i, { l with mem := l.mem.store8 (out + UInt32.ofNat l.i) 0 })

/-- `read_line`: what it returns, and its variables at the end. -/
def readLine (inp : Inputs) (m : Memory) (out : UInt32) (maxlen : Int32) : Option (Int × Line) :=
  if out = 0 ∨ maxlen ≤ 0 then some (-1, ⟨0, 0, m, [], []⟩)
  else loop (readLinePass inp out maxlen) ⟨0, 0, m, [], []⟩

/-! ## The driver of the keyboard. -/

/-- The key that `keyboard_getkey_nonblock` finds in the driver. -/
def keyFound (d : Keyboard.Driver) : Option UInt16 :=
  if d.head = d.tail then none else some (d.ring[d.tail.toNat]?.getD 0)

/-- `keyboard_getchar_nonblock` is that of the driver, on the key that it finds. -/
theorem keyboardGetcharNonblock_driver (d : Keyboard.Driver) : (Keyboard.keyboardGetcharNonblock d).1 =
    ((keyboardGetcharNonblock (keyFound d)).map fun c => (c.toNat : Int)).getD (-1) := by
  rw [Keyboard.keyboardGetcharNonblock, Keyboard.keyboardGetkeyNonblock, keyFound]
  by_cases empty : d.head = d.tail
  · rw [if_pos empty, if_pos empty]
    rfl
  · rw [if_neg empty, if_neg empty, keyboardGetcharNonblock]
    generalize d.ring[d.tail.toNat]?.getD 0 = k
    have small : (k.toNat : Int) < 256 ↔ k < 256 := by
      rw [UInt16.lt_iff_toNat_lt]
      exact Int.ofNat_lt
    dsimp only
    rw [if_neg (Int.not_lt.mpr (Int.natCast_nonneg _))]
    by_cases char : k < 256
    · have code : k.toUInt8.toNat = k.toNat :=
        (UInt16.toNat_toUInt8 k).trans (Nat.mod_eq_of_lt (UInt16.lt_iff_toNat_lt.mp char))
      rw [if_pos (small.mpr char), if_pos char, Option.map_some, Option.getD_some, code]
    · rw [if_neg fun lt => char (small.mp lt), if_neg char]
      rfl

/-! ## The reference. -/

/-- A character, with where it comes from. -/
inductive Incoming where
  | keyboard (c : UInt8)
  | serial (c : UInt8)

/-- What comes in at a time, if anything. Keys that are no characters do not count. -/
def incoming (inp : Inputs) (n : Nat) : Option Incoming :=
  match inp.key n with
  | some k => if k < 256 then some (.keyboard k.toUInt8) else (inp.serial n).map .serial
  | none => (inp.serial n).map .serial

/-- A newline ends the line, and so does a carriage return from the serial port. -/
def Incoming.Ends : Incoming → Prop
  | keyboard c => c = 0x0A
  | serial c => c = 0x0A ∨ c = 0x0D

instance : DecidablePred Incoming.Ends
  | .keyboard c => inferInstanceAs (Decidable (c = 0x0A))
  | .serial c => inferInstanceAs (Decidable (c = 0x0A ∨ c = 0x0D))

/-- The code of a character. -/
def Incoming.code : Incoming → UInt8
  | keyboard c => c
  | serial c => c

/-- A backspace deletes the last character, and a printable character is added. -/
def edit (text : List UInt8) (c : UInt8) : List UInt8 :=
  if c = 8 then text.dropLast else if 0x20 ≤ c ∧ c ≤ 0x7E then text ++ [c] else text

/-- A pass of the line editor, over the time and the text: it ends when the text has `cap` characters. -/
def editPass (inp : Inputs) (cap : Nat) (s : Nat × List UInt8) : Pass (Nat × List UInt8) (List UInt8) :=
  if s.2.length < cap then
    match incoming inp s.1 with
    | none => .next (s.1 + 1, s.2)
    | some c => if c.Ends then .done s.2 else .next (s.1 + 1, edit s.2 c.code)
  else .done s.2

/-- The line editor. -/
def lineEditor (inp : Inputs) (cap : Nat) : Option (List UInt8) := loop (editPass inp cap) (0, [])

/-! ## The simulation. -/

/-- The buffer of a call holds the text, and nothing has been written behind the place of its last `NUL`. -/
structure Edited (m : Memory) (out : UInt32) (cap : Nat) (l : Line) (s : Nat × List UInt8) : Prop where
  polls : l.polls = s.1
  length : l.i = s.2.length
  le : s.2.length ≤ cap
  chars : l.mem.loadBytes out s.2.length = s.2
  frame : ∀ x : UInt32, cap + 1 ≤ (x - out).toNat → l.mem x = m x

/-- A call has returned with the text in its buffer, and a `NUL` behind it. -/
structure Returned (m : Memory) (out : UInt32) (cap : Nat) (r : Int × Line) (text : List UInt8) : Prop where
  value : r.1 = text.length
  le : text.length ≤ cap
  chars : r.2.mem.loadBytes out (text.length + 1) = text ++ [0]
  frame : ∀ x : UInt32, cap + 1 ≤ (x - out).toNat → r.2.mem x = m x

variable {inp : Inputs} {m : Memory} {out : UInt32} {maxlen : Int32} {cap n : Nat} {l : Line} {s : Nat × List UInt8}
  {c : UInt8}

/-- The characters that are added, `char` being signed. -/
lemma regular_iff (c : UInt8) : c.toInt8 ≥ 0x20 ∧ c.toInt8 ≤ 0x7E ↔ 0x20 ≤ c ∧ c ≤ 0x7E := by
  have lt := c.toNat_lt
  have value : c.toInt8.toInt = (c.toNat : Int).bmod 256 := BitVec.toInt_eq_toNat_bmod c.toBitVec
  rw [printable_iff, Int8.le_iff_toInt_le, value, UInt8.le_iff_toNat_le, UInt8.le_iff_toNat_le, UInt8.le_iff_toNat_le]
  change (32 ≤ c.toNat ∧ c.toNat ≤ 127) ∧ (c.toNat : Int).bmod 256 ≤ 126 ↔ 32 ≤ c.toNat ∧ c.toNat ≤ 126
  rw [Int.bmod_def]
  split
  · omega
  · omega

/-- What `read_line` gets is what comes in, with what ends the line as a newline. -/
lemma nextChar_eq (inp : Inputs) (n : Nat) :
    nextChar inp n = (incoming inp n).map fun i => if i.Ends then 0x0A else i.code := by
  have serial : (inp.serial n).map (fun sc => if sc = 0x0D then 0x0A else sc) =
      ((inp.serial n).map Incoming.serial).map fun i => if i.Ends then 0x0A else i.code := by
    cases inp.serial n with
    | none => rfl
    | some sc =>
      refine congrArg some ?_
      change (if sc = 0x0D then 0x0A else sc) = if sc = 0x0A ∨ sc = 0x0D then 0x0A else sc
      by_cases nl : sc = 0x0A
      · rw [nl]
        rfl
      · exact if_congr (by tauto) rfl rfl
  have keyboard (c : UInt8) : c = if c = 0x0A then 0x0A else c := by
    split_ifs with nl
    · exact nl
    · rfl
  rw [incoming, nextChar]
  cases inp.key n with
  | none => exact serial
  | some k =>
    dsimp only [keyboardGetcharNonblock]
    by_cases char : k < 256
    · rw [if_pos char, if_pos char]
      exact congrArg some (keyboard k.toUInt8)
    · rw [if_neg char, if_neg char]
      exact serial

/-- Every newline ends the line. -/
lemma Incoming.code_ne (c : Incoming) (goes : ¬ c.Ends) : c.code ≠ 0x0A := by
  cases c with
  | keyboard c => exact goes
  | serial c => exact fun nl => goes (.inl nl)

/-- A character behind the text. -/
lemma Edited.store (e : Edited m out cap l s) (room : s.2.length < cap + 1) (fits : cap + 1 ≤ 2 ^ 32) (c : UInt8) :
    (l.mem.store8 (out + UInt32.ofNat l.i) c).loadBytes out (s.2.length + 1) = s.2 ++ [c] ∧
      ∀ x : UInt32, cap + 1 ≤ (x - out).toNat → l.mem.store8 (out + UInt32.ofNat l.i) c x = m x := by
  rw [e.length]
  constructor
  · have same : (l.mem.store8 (out + UInt32.ofNat s.2.length) c).loadBytes out s.2.length =
        l.mem.loadBytes out s.2.length := by
      refine Memory.loadBytes_congr fun i lt => Memory.store8_ne fun eq => ?_
      have offset : (out + UInt32.ofNat i - out).toNat = (out + UInt32.ofNat s.2.length - out).toNat := by rw [eq]
      rw [add_sub_toNat (by omega), add_sub_toNat (by omega)] at offset
      omega
    rw [Memory.loadBytes_concat, same, e.chars, Memory.store8_self]
  · intro x outside
    rw [Memory.store8_ne, e.frame x outside]
    rintro rfl
    rw [add_sub_toNat (by omega)] at outside
    omega

/-- The end of a call. -/
lemma Edited.return (e : Edited m out cap l s) (fits : cap + 1 ≤ 2 ^ 32) {l' : Line}
    (mem : l'.mem = l.mem.store8 (out + UInt32.ofNat l.i) 0) : Returned m out cap (l.i, l') s.2 := by
  have le := e.le
  obtain ⟨chars, frame⟩ := e.store (by omega) fits 0
  refine ⟨congrArg Nat.cast e.length, le, ?_, ?_⟩
  · rw [mem]
    exact chars
  · rw [mem]
    exact frame

/-- The text without its last character. -/
lemma Edited.delete (e : Edited m out cap l s) (some_ : l.i > 0) (screen : List UInt8) :
    Edited m out cap { l with polls := l.polls + 1, i := l.i - 1, screen := screen } (l.polls + 1, s.2.dropLast) := by
  have length := e.length
  have cut : s.2 = l.mem.loadBytes out (s.2.length - 1) ++ [l.mem (out + UInt32.ofNat (s.2.length - 1))] := by
    rw [← Memory.loadBytes_concat, Nat.sub_add_cancel (by omega), e.chars]
  refine ⟨rfl, ?_, ?_, ?_, e.frame⟩
  · rw [length, List.length_dropLast]
  · have le := e.le
    rw [List.length_dropLast]
    omega
  · rw [List.length_dropLast]
    exact ((congrArg List.dropLast cut).trans List.dropLast_concat).symm

/-- A character that the line does not take. -/
lemma Edited.ignore (e : Edited m out cap l s) : Edited m out cap { l with polls := l.polls + 1 } (l.polls + 1, s.2) :=
  ⟨rfl, e.length, e.le, e.chars, e.frame⟩

/-- The text with one more character. -/
lemma Edited.type (e : Edited m out cap l s) (room : s.2.length < cap) (fits : cap + 1 ≤ 2 ^ 32) (c : UInt8)
    (screen echo : List UInt8) : Edited m out cap
      ⟨l.polls + 1, l.i + 1, l.mem.store8 (out + UInt32.ofNat l.i) c, screen, echo⟩ (l.polls + 1, s.2 ++ [c]) := by
  obtain ⟨chars, frame⟩ := e.store (by omega) fits c
  refine ⟨rfl, ?_, ?_, ?_, frame⟩
  · rw [List.length_append, e.length, List.length_singleton]
  · rw [List.length_append, List.length_singleton]
    exact room
  · rw [List.length_append, List.length_singleton]
    exact chars

/-- `read_line` and the line editor go on together, and end together. -/
lemma Edited.pass (e : Edited m out cap l s) (limit : maxlen.toInt - 1 = cap) :
    (∃ l' s', readLinePass inp out maxlen l = .next l' ∧ editPass inp cap s = .next s' ∧ Edited m out cap l' s') ∨
      ∃ r text, readLinePass inp out maxlen l = .done r ∧ editPass inp cap s = .done text ∧
        Returned m out cap r text := by
  have high := Int32.toInt_lt maxlen
  have fits : cap + 1 ≤ 2 ^ 32 := by omega
  have le := e.le
  have length := e.length
  rw [readLinePass, editPass, limit, ← e.polls, nextChar_eq]
  by_cases room : s.2.length < cap
  · rw [if_pos (by omega), if_pos room]
    cases incoming inp l.polls with
    | none => exact .inl ⟨_, _, rfl, rfl, e.ignore⟩
    | some c =>
      rw [Option.map_some]
      dsimp only
      by_cases ends : c.Ends
      · rw [if_pos ends, if_pos ends, if_neg (by decide), if_pos rfl]
        exact .inr ⟨_, _, rfl, rfl, e.return fits rfl⟩
      · rw [if_neg ends, if_neg ends, edit]
        by_cases back : c.code = 8
        · rw [if_pos back, if_pos back]
          split_ifs with some_
          · exact .inl ⟨_, _, rfl, rfl, e.delete some_ _⟩
          · have empty : s.2 = [] := List.eq_nil_of_length_eq_zero (by omega)
            have ignored := e.ignore
            rw [empty] at ignored ⊢
            exact .inl ⟨_, _, rfl, rfl, ignored⟩
        rw [if_neg back, if_neg back, if_neg (c.code_ne ends)]
        by_cases regular : 0x20 ≤ c.code ∧ c.code ≤ 0x7E
        · rw [if_pos regular, if_pos ((regular_iff c.code).mpr regular)]
          exact .inl ⟨_, _, rfl, rfl, e.type room fits c.code _ _⟩
        · rw [if_neg regular, if_neg (mt (regular_iff c.code).mp regular)]
          exact .inl ⟨_, _, rfl, rfl, e.ignore⟩
  · rw [if_neg (by omega), if_neg room]
    exact .inr ⟨_, _, rfl, rfl, e.return fits rfl⟩

/-- `read_line` returns when the line editor ends, with its text and a `NUL` in the buffer, the length of the text, and
    nothing written behind the buffer. -/
theorem readLine_edits (inp : Inputs) (m : Memory) (out : UInt32) (maxlen : Int32) (nonnull : out ≠ 0)
    (pos : 1 ≤ maxlen) :
    Option.Rel (Returned m out (maxlen.toInt - 1).toNat) (readLine inp m out maxlen)
      (lineEditor inp (maxlen.toInt - 1).toNat) := by
  rw [Int32.le_iff_toInt_le] at pos
  change 1 ≤ maxlen.toInt at pos
  have limit : maxlen.toInt - 1 = ((maxlen.toInt - 1).toNat : Int) := by omega
  have positive : ¬ maxlen ≤ 0 := by
    rw [Int32.le_iff_toInt_le]
    change ¬ maxlen.toInt ≤ 0
    omega
  rw [readLine, if_neg (by tauto), lineEditor]
  refine loop_simulation (R := Edited m out (maxlen.toInt - 1).toNat) (fun l s e => e.pass limit) ?_
  exact ⟨rfl, rfl, Nat.zero_le _, rfl, fun _ _ => rfl⟩

/-- A letter, and a carriage return from the serial port. -/
theorem readLine_edits_letter : Option.Rel (Returned (fun _ => 0) 0x1000 7)
    (readLine ⟨fun n => if n = 0 then some 0x61 else none, fun n => if n = 2 then some 0x0D else none⟩
      (fun _ => 0) 0x1000 8)
    (lineEditor ⟨fun n => if n = 0 then some 0x61 else none, fun n => if n = 2 then some 0x0D else none⟩ 7) :=
  readLine_edits ⟨fun n => if n = 0 then some 0x61 else none, fun n => if n = 2 then some 0x0D else none⟩ (fun _ => 0)
    0x1000 8 (by decide) (by decide)

end RetaOS.Console
