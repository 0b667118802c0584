import RetaOS.Keyboard.Ring
import RetaOS.Lib.Machine
import Mathlib.Data.List.ReduceOption

/-!
# Typing

What the driver of `keyboard.c` is for. A keyboard sends the scancodes of the keys that are pressed and released, those
of an extended key behind `0xE0`. A `Board` is what a user sees: the keys that are held, CapsLock, and the keys that
were typed and not read. The driver with its scancodes refines it (`typing_refines`): no sequence of keys leaves a shift
behind, an extended key never counts as another one, and CapsLock is for letters only. A key that repeats is pressed
again, so CapsLock that is held goes on and off. Every text of the characters on the keys can be typed (`text_typed`).
-/

namespace RetaOS.Keyboard
open Lib

/-! ## Functions. -/

/-- `keyboard_getkey_nonblock`, with no interrupt in between. -/
def keyboardGetkeyNonblock (d : Driver) : Int × Driver :=
  if d.head = d.tail then (-1, d)
  else
    let k := d.ring[d.tail.toNat]?.getD 0
    (k.toNat, { d with tail := (d.tail + 1) % BUF_SIZE })

/-- `keyboard_getchar_nonblock`. -/
def keyboardGetcharNonblock (d : Driver) : Int × Driver :=
  let (k, d) := keyboardGetkeyNonblock d
  if k < 0 then (-1, d)
  else if k < 256 then (k, d)
  else (-1, d)

/-! ## Keys. -/

/-- A key; `0x60` is none, whose release would be the byte before an extended code. -/
structure Key where
  code : UInt8
  extended : Bool
  low : code < 0x80
  plain : code ≠ 0x60
  deriving DecidableEq

/-- The bytes before the code of a key. -/
def Key.lead (k : Key) : List UInt8 := if k.extended then [0xE0] else []

/-- What the keyboard sends when a key is pressed, and again while it repeats. -/
def Key.make (k : Key) : List UInt8 := k.lead ++ [k.code]

/-- What it sends when the key is released. -/
def Key.break_ (k : Key) : List UInt8 := k.lead ++ [k.code ||| 0x80]

def Key.leftShift : Key := ⟨0x2A, false, by decide, by decide⟩
def Key.rightShift : Key := ⟨0x36, false, by decide, by decide⟩
def Key.capsLock : Key := ⟨0x3A, false, by decide, by decide⟩

/-- What is printed on a key. -/
inductive Legend where
  /-- A letter, which CapsLock and Shift are for. -/
  | letter (lower upper : UInt8)
  /-- Two characters, which Shift is for. -/
  | pair (lower upper : UInt8)
  /-- A key of the cursor block. -/
  | cursor (key : UInt16)
  /-- Nothing that is typed. -/
  | blank

/-- A row of keys whose codes follow one another. -/
def row (legend : UInt8 → UInt8 → Legend) (first : Nat) (lower upper : String) : List (UInt8 × Legend) :=
  ((ascii lower).zip (ascii upper)).mapIdx fun i p => ((first + i).toUInt8, legend p.1 p.2)

/-- The main block of an American keyboard. -/
def mainBlock : List (UInt8 × Legend) :=
  [(0x01, .pair 27 27), (0x0E, .pair 8 8), (0x0F, .pair 9 9), (0x1C, .pair 10 10)] ++
    row .pair 0x02 "1234567890-=" "!@#$%^&*()_+" ++ row .letter 0x10 "qwertyuiop" "QWERTYUIOP" ++
    row .pair 0x1A "[]" "\x7b\x7d" ++ row .letter 0x1E "asdfghjkl" "ASDFGHJKL" ++ row .pair 0x27 ";'`" ":\"~" ++
    row .pair 0x2B "\\" "|" ++ row .letter 0x2C "zxcvbnm" "ZXCVBNM" ++ row .pair 0x33 ",./" "<>?" ++
    row .pair 0x37 "*" "*" ++ row .pair 0x39 " " " "

/-- The cursor block. -/
def cursorBlock : List (UInt8 × Legend) :=
  [(0x47, .cursor KBD_HOME), (0x48, .cursor KBD_UP), (0x4B, .cursor KBD_LEFT), (0x4D, .cursor KBD_RIGHT),
    (0x4F, .cursor KBD_END), (0x50, .cursor KBD_DOWN), (0x53, .cursor KBD_DEL)]

/-- What is printed on a key. -/
def Key.legend (k : Key) : Legend := ((if k.extended then cursorBlock else mainBlock).lookup k.code).getD .blank

/-- The key that a legend stands for. -/
def Legend.typed (shift caps : Bool) : Legend → Option UInt16
  | letter lower upper => some (if caps ^^ shift then upper else lower).toUInt16
  | pair lower upper => some (if shift then upper else lower).toUInt16
  | cursor key => some key
  | blank => none

/-! ## The board. -/

/-- What a user sees of the keyboard. -/
structure Board where
  held : Key → Bool
  capsLock : Bool
  queue : Queue UInt16 127

namespace Board

/-- Nothing is held, and nothing has been typed. -/
def fresh : Board := ⟨fun _ => false, false, .empty⟩

/-- A shift key is held. -/
def shift (b : Board) : Bool := b.held .leftShift || b.held .rightShift

/-- A key is typed. -/
def type_ (b : Board) (key : Option UInt16) : Board :=
  match key with
  | none => b
  | some key => { b with queue := b.queue.push key }

/-- A key goes down. -/
def down (b : Board) (k : Key) : Board :=
  { b with
    held := Function.update b.held k true
    capsLock := if k = Key.capsLock then !b.capsLock else b.capsLock }

/-- A key is pressed, or repeats. -/
def press (b : Board) (k : Key) : Board :=
  let b := b.down k
  b.type_ (k.legend.typed b.shift b.capsLock)

/-- A key is released. -/
def release (b : Board) (k : Key) : Board := { b with held := Function.update b.held k false }

/-- The oldest key that was typed. -/
def getkey (b : Board) : Option UInt16 × Board := (b.queue.items.head?, { b with queue := b.queue.pop })

end Board

/-- What happens at the keyboard, and the calls that read it. -/
inductive Event where
  | press (k : Key)
  | release (k : Key)
  | getkey
  | getchar

/-- The driver, which gets the scancodes. -/
def Driver.step (d : Driver) : Event → Option Int × Driver
  | .press k => (none, k.make.foldl (fun d sc => keyboardIrqHandler sc d) d)
  | .release k => (none, k.break_.foldl (fun d sc => keyboardIrqHandler sc d) d)
  | .getkey => ((keyboardGetkeyNonblock d).1, (keyboardGetkeyNonblock d).2)
  | .getchar => ((keyboardGetcharNonblock d).1, (keyboardGetcharNonblock d).2)

/-- The board: a key is its number, and -1 is none; a key of the cursor block is no character. -/
def Board.step (b : Board) : Event → Option Int × Board
  | .press k => (none, b.press k)
  | .release k => (none, b.release k)
  | .getkey => (some ((b.getkey.1.map toResult).getD (-1)), b.getkey.2)
  | .getchar => (some (((b.getkey.1.filter (· < 256)).map toResult).getD (-1)), b.getkey.2)

/-! ## Scancodes. -/

/-- A driver with a shift held or not, and CapsLock on or off. -/
def probe (shift caps : Bool) : Driver := ⟨Vector.replicate 128 0, 0, 0, shift, false, caps, false⟩

variable {d : Driver} {b : Board} {k : Key} {code : UInt8}

lemma exists_code (low : code < 0x80) : ∃ n : Fin 128, code = UInt8.ofNat n.val :=
  ⟨⟨code.toNat, UInt8.lt_iff_toNat_lt.mp low⟩, UInt8.ofNat_toNat.symm⟩

/-- The bits of a code, and of the byte of its release. -/
lemma code_bits (low : code < 0x80) : code ≠ 0xE0 ∧ code &&& 0x80 = 0 ∧ code &&& 0x7F = code ∧
    (code ||| 0x80) &&& 0x80 ≠ 0 ∧ (code ||| 0x80) &&& 0x7F = code ∧ (code ≠ 0x60 → code ||| 0x80 ≠ 0xE0) := by
  obtain ⟨n, rfl⟩ := exists_code low
  revert n
  decide +kernel

/-- The tables of the driver are the main block. -/
lemma mainBlock_table (low : code < 0x80) (shift caps : Bool) :
    ((mainBlock.lookup code).getD .blank).typed shift caps =
      if scancodeToAscii (probe shift caps) code = 0 then none
      else some (scancodeToAscii (probe shift caps) code).toUInt16 := by
  obtain ⟨n, rfl⟩ := exists_code low
  revert n shift caps
  decide +kernel

/-- Its extended keys are the cursor block. -/
lemma cursorBlock_table (low : code < 0x80) (shift caps : Bool) :
    ((cursorBlock.lookup code).getD .blank).typed shift caps = extendedKey code := by
  obtain ⟨n, rfl⟩ := exists_code low
  revert n shift caps
  decide +kernel

/-- What the driver makes of a code depends on the shifts and CapsLock only. -/
lemma scancodeToAscii_probe (d : Driver) (code : UInt8) :
    scancodeToAscii d code = scancodeToAscii (probe (d.shiftL || d.shiftR) d.caps) code := by
  simp only [scancodeToAscii, probe, Bool.or_false]

/-- The driver and the board agree. -/
structure Agree (d : Driver) (b : Board) : Prop where
  queue : Represents d b.queue
  shiftL : d.shiftL = b.held .leftShift
  shiftR : d.shiftR = b.held .rightShift
  caps : d.caps = b.capsLock
  pending : d.e0Pending = false

/-- A key that is typed is pushed. -/
lemma Agree.type_ (h : Agree d b) (key : Option UInt16) :
    Agree (match key with | none => d | some key => pushKey key d) (b.type_ key) := by
  cases key with
  | none => exact h
  | some key =>
    have same : (pushKey key d).shiftL = d.shiftL ∧ (pushKey key d).shiftR = d.shiftR ∧
        (pushKey key d).caps = d.caps ∧ (pushKey key d).e0Pending = d.e0Pending := by
      fun_cases pushKey key d <;> exact ⟨rfl, rfl, rfl, rfl⟩
    obtain ⟨shiftL, shiftR, caps, pending⟩ := same
    exact ⟨pushKey_represents h.queue, shiftL.trans h.shiftL, shiftR.trans h.shiftR, caps.trans h.caps,
      pending.trans h.pending⟩

/-- The handler pushes the key that the scancode stands for. -/
lemma keyboardIrqHandler_eq (sc : UInt8) (d : Driver) : keyboardIrqHandler sc d =
    match (decode sc d).2 with | none => (decode sc d).1 | some key => pushKey key (decode sc d).1 := by
  rw [keyboardIrqHandler]
  obtain ⟨d', key⟩ := decode sc d
  cases key <;> rfl

/-- The driver after the press of a modifier. -/
def pressed (d : Driver) (code : UInt8) : Driver :=
  { d with
    shiftL := d.shiftL || code = 0x2A
    shiftR := d.shiftR || code = 0x36
    caps := d.caps ^^ code = 0x3A }

/-- The driver after the release of a modifier. -/
def released (d : Driver) (code : UInt8) : Driver :=
  { d with
    shiftL := d.shiftL && code ≠ 0x2A
    shiftR := d.shiftR && code ≠ 0x36 }

/-- A code by itself is the press of a key of the main block. -/
lemma decode_make (low : code < 0x80) (pending : d.e0Pending = false) : decode code d = (pressed d code,
    ((mainBlock.lookup code).getD .blank).typed ((pressed d code).shiftL || (pressed d code).shiftR)
      (pressed d code).caps) := by
  obtain ⟨ring, head, tail, shiftL, shiftR, caps, e0⟩ := d
  cases pending
  obtain ⟨lead, press, same, -⟩ := code_bits low
  have special (shift caps : Bool) : ((mainBlock.lookup 0x2A).getD .blank).typed shift caps = none ∧
      ((mainBlock.lookup 0x36).getD .blank).typed shift caps = none ∧
      ((mainBlock.lookup 0x3A).getD .blank).typed shift caps = none ∧
      ((mainBlock.lookup 0x1C).getD .blank).typed shift caps = some 10 := by
    revert shift caps
    decide +kernel
  rw [decode, if_neg lead]
  dsimp only
  rw [same, press, if_neg Bool.false_ne_true, if_neg (not_not.mpr rfl), pressed]
  rw [scancodeToAscii_probe]
  dsimp only
  split_ifs with left right lock enter char
  · simp [left, (special _ _).1]
  · simp [right, (special _ _).2.1]
  · simp [lock, (special _ _).2.2.1]
  · simp [enter, (special _ _).2.2.2]
  · simp [left, right, lock, mainBlock_table low, char]
  · simp [left, right, lock, mainBlock_table low, not_not.mp char]

/-- A code with the upper bit is the release of one. -/
lemma decode_break (low : code < 0x80) (plain : code ≠ 0x60) (pending : d.e0Pending = false) :
    decode (code ||| 0x80) d = (released d code, none) := by
  obtain ⟨ring, head, tail, shiftL, shiftR, caps, e0⟩ := d
  cases pending
  obtain ⟨-, -, -, release, same, lead⟩ := code_bits low
  rw [decode, if_neg (lead plain)]
  dsimp only
  rw [same, if_neg Bool.false_ne_true, if_pos release, released]
  split_ifs with left right
  · simp [left]
  · simp [right]
  · simp [left, right]

/-- Behind `0xE0` a code is a key of the cursor block. -/
lemma decode_extended (low : code < 0x80) (plain : code ≠ 0x60) (pending : d.e0Pending = false) :
    keyboardIrqHandler 0xE0 d = { d with e0Pending := true } ∧
      (∀ shift caps, decode code { d with e0Pending := true } =
        (d, ((cursorBlock.lookup code).getD .blank).typed shift caps)) ∧
      decode (code ||| 0x80) { d with e0Pending := true } = (d, none) := by
  obtain ⟨ring, head, tail, shiftL, shiftR, caps, e0⟩ := d
  cases pending
  obtain ⟨first, press, same, release, same', lead⟩ := code_bits low
  refine ⟨rfl, fun shift caps => ?_, ?_⟩
  · rw [decode, if_neg first]
    dsimp only
    rw [same, press, if_pos rfl, if_neg (not_not.mpr rfl), cursorBlock_table low]
  · rw [decode, if_neg (lead plain)]
    dsimp only
    rw [if_pos rfl, if_pos release]

/-! ## Refinement. -/

lemma shift_iff : (k = Key.leftShift ↔ k.code = 0x2A ∧ k.extended = false) ∧
    (k = Key.rightShift ↔ k.code = 0x36 ∧ k.extended = false) ∧
    (k = Key.capsLock ↔ k.code = 0x3A ∧ k.extended = false) := by
  obtain ⟨code, extended, low, plain⟩ := k
  simp [Key.leftShift, Key.rightShift, Key.capsLock]

/-- A modifier goes down. -/
lemma Agree.pressed (h : Agree d b) (main : k.extended = false) : Agree (pressed d k.code) (b.down k) := by
  obtain ⟨left, right, lock⟩ := shift_iff (k := k)
  simp only [main, and_true] at left right lock
  have held (q : Key) : (b.down k).held q = (b.held q || decide (k = q)) := by
    change Function.update b.held k true q = _
    rw [Function.update_apply]
    by_cases eq : k = q
    · simp [eq]
    · simp [eq, Ne.symm eq]
  refine ⟨⟨h.queue.head, h.queue.tail, h.queue.items⟩, ?_, ?_, ?_, h.pending⟩
  · rw [held, ← h.shiftL]
    simp only [Keyboard.pressed, left]
  · rw [held, ← h.shiftR]
    simp only [Keyboard.pressed, right]
  · simp only [Keyboard.pressed, Board.down, ← h.caps, lock]
    by_cases eq : k.code = 0x3A <;> simp [eq]

/-- A modifier goes up. -/
lemma Agree.released (h : Agree d b) (main : k.extended = false) : Agree (released d k.code) (b.release k) := by
  obtain ⟨left, right, -⟩ := shift_iff (k := k)
  simp only [main, and_true] at left right
  have held (q : Key) : (b.release k).held q = (b.held q && decide (k ≠ q)) := by
    change Function.update b.held k false q = _
    rw [Function.update_apply]
    by_cases eq : k = q
    · simp [eq]
    · simp [eq, Ne.symm eq]
  refine ⟨⟨h.queue.head, h.queue.tail, h.queue.items⟩, ?_, ?_, h.caps, h.pending⟩
  · rw [held, ← h.shiftL]
    simp only [Keyboard.released, left, ne_eq]
  · rw [held, ← h.shiftR]
    simp only [Keyboard.released, right, ne_eq]

/-- No extended key is a modifier of the driver. -/
lemma Agree.extended (h : Agree d b) (ext : k.extended = true) : Agree d (b.down k) ∧ Agree d (b.release k) := by
  obtain ⟨left, right, lock⟩ := shift_iff (k := k)
  simp only [ext, Bool.true_eq_false, and_false, iff_false] at left right lock
  refine ⟨⟨h.queue, ?_, ?_, ?_, h.pending⟩, ⟨h.queue, ?_, ?_, h.caps, h.pending⟩⟩
  · rw [h.shiftL]
    exact (Function.update_of_ne (Ne.symm left) ..).symm
  · rw [h.shiftR]
    exact (Function.update_of_ne (Ne.symm right) ..).symm
  · rw [h.caps]
    exact (if_neg lock).symm
  · rw [h.shiftL]
    exact (Function.update_of_ne (Ne.symm left) ..).symm
  · rw [h.shiftR]
    exact (Function.update_of_ne (Ne.symm right) ..).symm

/-- The scancodes of a press are the press of the key. -/
lemma Agree.press (h : Agree d b) (k : Key) :
    Agree (k.make.foldl (fun d sc => keyboardIrqHandler sc d) d) (b.press k) := by
  cases ext : k.extended with
  | true =>
    obtain ⟨lead, make, -⟩ := decode_extended k.low k.plain h.pending
    obtain ⟨down, -⟩ := h.extended ext
    have typed := down.type_ (k.legend.typed (b.down k).shift (b.down k).capsLock)
    rw [Key.make, Key.lead, if_pos ext, List.foldl_append, List.foldl_cons, List.foldl_nil, List.foldl_cons,
      List.foldl_nil, lead, keyboardIrqHandler_eq, make (b.down k).shift (b.down k).capsLock]
    rw [Key.legend, if_pos ext] at typed
    rw [Board.press, Key.legend, if_pos ext]
    exact typed
  | false =>
    have down := h.pressed ext
    have typed := down.type_ (k.legend.typed (b.down k).shift (b.down k).capsLock)
    have main : k.legend = (mainBlock.lookup k.code).getD .blank := by
      rw [Key.legend, if_neg (by rw [ext]; exact Bool.false_ne_true)]
    rw [Key.make, Key.lead, if_neg (by rw [ext]; exact Bool.false_ne_true), List.nil_append, List.foldl_cons,
      List.foldl_nil, keyboardIrqHandler_eq, decode_make k.low h.pending, down.shiftL, down.shiftR, down.caps, ← main]
    exact typed

/-- Those of a release are the release. -/
lemma Agree.release (h : Agree d b) (k : Key) :
    Agree (k.break_.foldl (fun d sc => keyboardIrqHandler sc d) d) (b.release k) := by
  cases ext : k.extended with
  | true =>
    obtain ⟨lead, -, break_⟩ := decode_extended k.low k.plain h.pending
    rw [Key.break_, Key.lead, if_pos ext, List.foldl_append, List.foldl_cons, List.foldl_nil, List.foldl_cons,
      List.foldl_nil, lead, keyboardIrqHandler_eq, break_]
    exact (h.extended ext).2
  | false =>
    rw [Key.break_, Key.lead, if_neg (by rw [ext]; exact Bool.false_ne_true), List.nil_append, List.foldl_cons,
      List.foldl_nil, keyboardIrqHandler_eq, decode_break k.low k.plain h.pending]
    exact h.released ext

/-- `keyboard_getkey_nonblock` takes the oldest key. -/
lemma Agree.getkey (h : Agree d b) : (keyboardGetkeyNonblock d).1 = (b.getkey.1.map toResult).getD (-1) ∧
    Agree (keyboardGetkeyNonblock d).2 b.getkey.2 := by
  rw [keyboardGetkeyNonblock, Board.getkey]
  split_ifs with empty
  · have none := (head_eq_tail_iff h.queue).mp empty
    have items : b.queue.pop.items = [] := by
      change b.queue.items.tail = []
      rw [none]
      rfl
    refine ⟨by rw [none]; rfl, ⟨h.queue.head, h.queue.tail, ?_⟩, h.shiftL, h.shiftR, h.caps, h.pending⟩
    rw [h.queue.items, none, items]
  · obtain ⟨queue, items⟩ := advance_represents h.queue empty
    refine ⟨?_, queue, h.shiftL, h.shiftR, h.caps, h.pending⟩
    rw [items]
    rfl

/-- `keyboard_getchar_nonblock` drops it when it is no character. -/
lemma Agree.getchar (h : Agree d b) :
    (keyboardGetcharNonblock d).1 = ((b.getkey.1.filter (· < 256)).map toResult).getD (-1) ∧
      Agree (keyboardGetcharNonblock d).2 b.getkey.2 := by
  obtain ⟨key, agree⟩ := h.getkey
  rw [keyboardGetcharNonblock]
  generalize keyboardGetkeyNonblock d = result at key agree
  obtain ⟨k, d'⟩ := result
  dsimp only at key agree ⊢
  cases first : b.getkey.1 with
  | none =>
    rw [first] at key
    cases key
    exact ⟨rfl, agree⟩
  | some v =>
    rw [first] at key
    cases key
    have pos : ¬ toResult v < 0 := Int.not_lt.mpr (Int.natCast_nonneg _)
    have small : toResult v < 256 ↔ v < 256 := by
      rw [UInt16.lt_iff_toNat_lt]
      exact Int.ofNat_lt
    simp only [Option.map_some, Option.getD_some, if_neg pos]
    by_cases char : v < 256
    · rw [if_pos (small.mpr char), Option.filter_some, if_pos (decide_eq_true char)]
      exact ⟨rfl, agree⟩
    · rw [if_neg fun lt => char (small.mp lt), Option.filter_some, if_neg fun lt => char (of_decide_eq_true lt)]
      exact ⟨rfl, agree⟩

lemma driver_refines : Refines Driver.step Board.step Agree where
  answer d b e h := by
    cases e with
    | press k => rfl
    | release k => rfl
    | getkey => exact congrArg some h.getkey.1
    | getchar => exact congrArg some h.getchar.1
  keep d b e h := by
    cases e with
    | press k => exact h.press k
    | release k => exact h.release k
    | getkey => exact h.getkey.2
    | getchar => exact h.getchar.2

lemma agree_init (d : Driver) : Agree (keyboardInit d) .fresh :=
  ⟨(start_inv d).represents, rfl, rfl, rfl, rfl⟩

/-- Whatever is typed and read, in any order, the driver answers as the board does. -/
theorem typing_refines (d : Driver) (es : List Event) :
    answers Driver.step (keyboardInit d) es = answers Board.step .fresh es :=
  driver_refines.answers_eq (agree_init d) es

/-! ## Texts. -/

/-- The key with a code. -/
def Key.main? (code : UInt8) : Option Key :=
  if h : code < 0x80 ∧ code ≠ 0x60 then some ⟨code, false, h.1, h.2⟩ else none

/-- The key that a character is typed with, and whether Shift is held. -/
def Key.of? (ch : UInt8) : Option (Key × Bool) :=
  (List.range 128).findSome? fun n => (Key.main? n.toUInt8).bind fun k =>
    if k.legend.typed false false = some ch.toUInt16 then some (k, false)
    else if k.legend.typed true false = some ch.toUInt16 then some (k, true)
    else none

/-- Typing a character. -/
def strokes (ch : UInt8) : List Event :=
  match Key.of? ch with
  | none => []
  | some (k, false) => [.press k, .release k]
  | some (k, true) => [.press .leftShift, .press k, .release k, .release .leftShift]

/-- A part of a text is typed, and read as many times as it has characters. -/
def session (text : List UInt8) : List Event := text.flatMap strokes ++ List.replicate text.length .getchar

/-- A character as a result. -/
def charResult (ch : UInt8) : Int := ch.toNat

/-- The characters of a text: the printable ones, Escape, Backspace, Tab and Enter. -/
def Typable (ch : UInt8) : Prop := 0x20 ≤ ch ∧ ch ≤ 0x7E ∨ ch = 27 ∨ ch = 8 ∨ ch = 9 ∨ ch = 10

instance (ch : UInt8) : Decidable (Typable ch) := inferInstanceAs (Decidable (_ ∨ _))

/-- Every one of them is on a key, which is no modifier. -/
lemma exists_key {ch : UInt8} (typable : Typable ch) : ∃ k shift, Key.of? ch = some (k, shift) ∧
    k.legend.typed shift false = some ch.toUInt16 ∧ k ≠ .leftShift ∧ k ≠ .rightShift ∧ k ≠ .capsLock := by
  have found : (Key.of? ch).isSome := by
    have all : ∀ n : Fin 256, Typable (UInt8.ofNat n.val) → (Key.of? (UInt8.ofNat n.val)).isSome := by decide +kernel
    have at_ := all ⟨ch.toNat, ch.toNat_lt⟩
    rw [UInt8.ofNat_toNat] at at_
    exact at_ typable
  obtain ⟨⟨k, shift⟩, eq⟩ := Option.isSome_iff_exists.mp found
  have typed : k.legend.typed shift false = some ch.toUInt16 := by
    obtain ⟨n, -, here⟩ := List.exists_of_findSome?_eq_some eq
    obtain ⟨q, -, here⟩ := Option.bind_eq_some_iff.mp here
    split_ifs at here with lower upper
    · cases here
      exact lower
    · cases here
      exact upper
  have modifiers (q : Key) (none : q.legend.typed shift false = none) : k ≠ q := by
    rintro rfl
    rw [typed] at none
    cases none
  refine ⟨k, shift, eq, typed, modifiers _ ?_, modifiers _ ?_, modifiers _ ?_⟩
  · cases shift <;> rfl
  · cases shift <;> rfl
  · cases shift <;> rfl

/-- A key that is no modifier types what it stands for. -/
lemma press_key (b : Board) {key : UInt16} (typed : k.legend.typed b.shift b.capsLock = some key)
    (left : k ≠ .leftShift) (right : k ≠ .rightShift) (lock : k ≠ .capsLock) :
    b.press k = { b with held := Function.update b.held k true, queue := b.queue.push key } := by
  have down : b.down k = { b with held := Function.update b.held k true } := by rw [Board.down, if_neg lock]
  have shift : (b.down k).shift = b.shift := by
    rw [down, Board.shift, Board.shift]
    dsimp only
    rw [Function.update_of_ne (Ne.symm left), Function.update_of_ne (Ne.symm right)]
  rw [Board.press, shift, down, typed]
  rfl

lemma press_shift : b.press .leftShift = { b with held := Function.update b.held .leftShift true } := by
  have down : b.down .leftShift = { b with held := Function.update b.held .leftShift true } := by
    rw [Board.down, if_neg (by decide)]
  have blank (shift caps : Bool) : Key.leftShift.legend.typed shift caps = none := rfl
  rw [Board.press, blank, down]
  rfl

/-- Typing a character leaves the keys as they were. -/
lemma strokes_spec {ch : UInt8} (typable : Typable ch) (idle : b.held = fun _ => false) (caps : b.capsLock = false) :
    final Board.step b (strokes ch) = { b with queue := b.queue.push ch.toUInt16 } ∧
      (answers Board.step b (strokes ch)).reduceOption = [] := by
  obtain ⟨k, shift, key, typed, left, right, lock⟩ := exists_key typable
  obtain ⟨held, capsLock, queue⟩ := b
  cases idle
  cases caps
  have back (f : Key → Bool) (q : Key) (up : f q = false) :
      Function.update (Function.update f q true) q false = f := by
    rw [Function.update_idem, ← up, Function.update_eq_self]
  rw [strokes, key]
  cases shift with
  | false =>
    refine ⟨?_, rfl⟩
    change (Board.press _ k).release k = _
    rw [press_key ⟨fun _ => false, false, queue⟩ typed left right lock, Board.release]
    dsimp only
    rw [back _ k rfl]
  | true =>
    refine ⟨?_, rfl⟩
    change (((Board.press _ .leftShift).press k).release k).release .leftShift = _
    rw [press_shift, press_key ⟨Function.update (fun _ => false) .leftShift true, false, queue⟩ typed left right lock,
      Board.release, Board.release]
    dsimp only
    rw [back _ k (Function.update_of_ne left ..), back _ .leftShift rfl]

/-- Typing a text that fits into the queue. -/
lemma text_strokes {text : List UInt8} (typable : ∀ ch ∈ text, Typable ch) (idle : b.held = fun _ => false)
    (caps : b.capsLock = false) (room : b.queue.items.length + text.length ≤ 127) :
    (final Board.step b (text.flatMap strokes)).queue.items = b.queue.items ++ text.map UInt8.toUInt16 ∧
      (final Board.step b (text.flatMap strokes)).held = (fun _ => false) ∧
      (final Board.step b (text.flatMap strokes)).capsLock = false ∧
      (answers Board.step b (text.flatMap strokes)).reduceOption = [] := by
  induction text generalizing b with
  | nil => exact ⟨(List.append_nil _).symm, idle, caps, rfl⟩
  | cons ch text ih =>
    obtain ⟨first, rest⟩ := List.forall_mem_cons.mp typable
    obtain ⟨typed, silent⟩ := strokes_spec first idle caps
    rw [List.length_cons] at room
    have pushed : (b.queue.push ch.toUInt16).items = b.queue.items ++ [ch.toUInt16] := Queue.push_items (by omega)
    have room' : (b.queue.push ch.toUInt16).items.length + text.length ≤ 127 := by
      rw [pushed, List.length_append, List.length_singleton]
      omega
    obtain ⟨items, held, lock, quiet⟩ := ih (b := { b with queue := b.queue.push ch.toUInt16 }) rest idle caps room'
    rw [List.flatMap_cons, final_append, answers_append, List.reduceOption_append, typed, silent]
    refine ⟨?_, held, lock, quiet⟩
    rw [items, pushed, List.map_cons, List.append_assoc, List.singleton_append]

/-- Reading it. -/
lemma text_read {text : List UInt8} (queue : b.queue.items = text.map UInt8.toUInt16) :
    (final Board.step b (List.replicate text.length .getchar)).queue.items = [] ∧
      (final Board.step b (List.replicate text.length .getchar)).held = b.held ∧
      (final Board.step b (List.replicate text.length .getchar)).capsLock = b.capsLock ∧
      (answers Board.step b (List.replicate text.length .getchar)).reduceOption = text.map charResult := by
  induction text generalizing b with
  | nil => exact ⟨queue, rfl, rfl, rfl⟩
  | cons ch text ih =>
    have rest : (b.step .getchar).2.queue.items = text.map UInt8.toUInt16 := by
      change b.queue.items.tail = _
      rw [queue]
      rfl
    have answer : (b.step .getchar).1 = some (charResult ch) := by
      have char : ch.toUInt16 < 256 := UInt16.lt_iff_toNat_lt.mpr ch.toNat_lt
      change some (((b.queue.items.head?.filter (· < 256)).map toResult).getD (-1)) = _
      rw [queue, List.map_cons, List.head?_cons, Option.filter_some, if_pos (decide_eq_true char)]
      rfl
    obtain ⟨items, held, lock, read⟩ := ih rest
    refine ⟨items, held, lock, ?_⟩
    rw [List.length_cons, List.replicate_succ, answers, List.map_cons, answer, List.reduceOption_cons_of_some, read]

/-- Every text can be typed: whatever its parts are, if each fits into the ring, the driver returns them in order. -/
theorem text_typed (d : Driver) (texts : List (List UInt8)) (typable : ∀ text ∈ texts, ∀ ch ∈ text, Typable ch)
    (fits : ∀ text ∈ texts, text.length ≤ 127) :
    (answers Driver.step (keyboardInit d) (texts.flatMap session)).reduceOption =
      texts.flatten.map charResult := by
  rw [typing_refines]
  have sessions {b : Board} (idle : b.held = fun _ => false) (caps : b.capsLock = false) (empty : b.queue.items = []) :
      (answers Board.step b (texts.flatMap session)).reduceOption =
        texts.flatten.map charResult := by
    induction texts generalizing b with
    | nil => rfl
    | cons text texts ih =>
      obtain ⟨typable, rest⟩ := List.forall_mem_cons.mp typable
      obtain ⟨fit, fits⟩ := List.forall_mem_cons.mp fits
      obtain ⟨items, held, lock, quiet⟩ := text_strokes typable idle caps (by rw [empty]; simpa using fit)
      rw [empty, List.nil_append] at items
      obtain ⟨empty', held', lock', read⟩ := text_read items
      rw [List.flatMap_cons, session, List.append_assoc, answers_append, answers_append, List.reduceOption_append,
        List.reduceOption_append, quiet, List.nil_append, read,
        ih rest fits (held'.trans held) (lock'.trans lock) empty', List.flatten_cons, List.map_append]
  exact sessions rfl rfl rfl

theorem text_typed_hello : (answers Driver.step (keyboardInit (probe true true))
    ([ascii "Hello, World!", [10]].flatMap session)).reduceOption =
      (ascii "Hello, World!" ++ [10]).map charResult :=
  text_typed (probe true true) [ascii "Hello, World!", [10]] (by decide +kernel) (by decide +kernel)

end RetaOS.Keyboard
