import RetaOS.Lib.Runs
import RetaOS.Lib.Word

/-!
# The keyboard driver

`keyboard.c`: the interrupt handler translates scancodes to keys and pushes them on a ring, from which
`keyboard_getkey_nonblock` takes them. The handler runs between two memory accesses of the reader, so the reader is
a machine of its own here, `Reader`, with one step for each access to `head`, `tail` and `ring`; C does not say which
operand of `head == tail` is read first, and a reader may take either. `System` is the driver with its reader and a
record of what has happened.
-/

namespace RetaOS.Keyboard
open Lib

/-- `BUF_SIZE`. -/
def BUF_SIZE : UInt32 := 128

/-- The keys of `keyboard.h` that are no characters. -/
def KBD_LEFT : UInt16 := 0x101
def KBD_RIGHT : UInt16 := 0x102
def KBD_UP : UInt16 := 0x103
def KBD_DOWN : UInt16 := 0x104
def KBD_HOME : UInt16 := 0x105
def KBD_END : UInt16 := 0x106
def KBD_DEL : UInt16 := 0x107

/-- The globals of the driver. -/
structure Driver where
  ring : Vector UInt16 128
  head : UInt32
  tail : UInt32
  shiftL : Bool
  shiftR : Bool
  caps : Bool
  e0Pending : Bool

/-- The characters of a string of ASCII. -/
def ascii (s : String) : List UInt8 := s.toList.map fun c => c.toNat.toUInt8

/-- `map` of `scancode_to_ascii`; what it leaves out is zero. -/
def map : List UInt8 :=
  [0, 27] ++ ascii "1234567890-=" ++ [8, 9] ++ ascii "qwertyuiop[]\\" ++ [0] ++ ascii "asdfghjkl;'`" ++ [0] ++
    ascii "\\zxcvbnm,./" ++ [0] ++ ascii "*" ++ [0] ++ ascii " "

/-- `map_shift` of `scancode_to_ascii`. -/
def mapShift : List UInt8 :=
  [0, 27] ++ ascii "!@#$%^&*()_+" ++ [8, 9] ++ ascii "QWERTYUIOP\x7b\x7d|" ++ [0] ++ ascii "ASDFGHJKL:\"~" ++
    [0] ++ ascii "|ZXCVBNM<>?" ++ [0] ++ ascii "*" ++ [0] ++ ascii " "

/-- `scancode_to_ascii`. -/
def scancodeToAscii (d : Driver) (sc : UInt8) : UInt8 :=
  if sc = 0x1C then 10
  else if sc = 0x0E then 8
  else if sc < 128 then
    let isLetter := (sc ≥ 0x10 ∧ sc ≤ 0x19) ∨ (sc ≥ 0x1E ∧ sc ≤ 0x26) ∨ (sc ≥ 0x2C ∧ sc ≤ 0x32)
    let sh := d.shiftL || d.shiftR
    if (if isLetter then d.caps ^^ sh else sh) then mapShift.getD sc.toNat 0 else map.getD sc.toNat 0
  else 0

/-- `keyboard_init`. -/
def keyboardInit (d : Driver) : Driver :=
  { d with head := 0, tail := 0, shiftL := false, shiftR := false, caps := false, e0Pending := false }

/-- `push_key`. -/
def pushKey (key : UInt16) (d : Driver) : Driver :=
  let n := (d.head + 1) % BUF_SIZE
  if n ≠ d.tail then { d with ring := d.ring.setIfInBounds d.head.toNat key, head := n } else d

/-- The key of an extended scancode. -/
def extendedKey (code : UInt8) : Option UInt16 :=
  if code = 0x4B then some KBD_LEFT
  else if code = 0x4D then some KBD_RIGHT
  else if code = 0x48 then some KBD_UP
  else if code = 0x50 then some KBD_DOWN
  else if code = 0x47 then some KBD_HOME
  else if code = 0x4F then some KBD_END
  else if code = 0x53 then some KBD_DEL
  else none

/-- `keyboard_irq_handler` up to its `push_key`, given the scancode it reads, and the key that it pushes. -/
def decode (sc : UInt8) (d : Driver) : Driver × Option UInt16 :=
  if sc = 0xE0 then ({ d with e0Pending := true }, none)
  else
    let release := sc &&& 0x80 ≠ 0
    let code := sc &&& 0x7F
    if d.e0Pending then
      let d := { d with e0Pending := false }
      if release then (d, none) else (d, extendedKey code)
    else if release then
      if code = 0x2A then ({ d with shiftL := false }, none)
      else if code = 0x36 then ({ d with shiftR := false }, none)
      else (d, none)
    else if code = 0x2A then ({ d with shiftL := true }, none)
    else if code = 0x36 then ({ d with shiftR := true }, none)
    else if code = 0x3A then ({ d with caps := !d.caps }, none)
    else if code = 0x1C then (d, some 10)
    else
      let ch := scancodeToAscii d code
      if ch ≠ 0 then (d, some ch.toUInt16) else (d, none)

/-- `keyboard_irq_handler`. -/
def keyboardIrqHandler (sc : UInt8) (d : Driver) : Driver :=
  match decode sc d with
  | (d, some key) => pushKey key d
  | (d, none) => d

/-- Where `keyboard_getkey_nonblock` is, with the values that it has read. -/
inductive Reader where
  /-- Not called. -/
  | idle
  /-- It has read `head`, and not yet the `tail` to compare it with. -/
  | head (h : UInt32)
  /-- It has read `tail`, and not yet the `head` to compare it with. -/
  | tail (t : UInt32)
  /-- The ring is not empty. -/
  | some
  /-- It has read the index of the slot. -/
  | index (t : UInt32)
  /-- It has read the key. -/
  | key (k : UInt16)
  /-- It has read the `tail` that it will advance. -/
  | release (k : UInt16) (t : UInt32)
  /-- About to return. -/
  | done (result : Int)

/-- The comparison `head == tail`. -/
def Reader.test (h t : UInt32) : Reader := if h = t then .done (-1) else .some

/-- The next access of `keyboard_getkey_nonblock`; `headFirst` is the order in which the comparison reads. -/
def readerStep (headFirst : Bool) (d : Driver) : Reader → Driver × Reader
  | .idle => (d, if headFirst then .head d.head else .tail d.tail)
  | .head h => (d, .test h d.tail)
  | .tail t => (d, .test d.head t)
  | .some => (d, .index d.tail)
  | .index t => (d, .key (d.ring[t.toNat]?.getD 0))
  | .key k => (d, .release k d.tail)
  | .release k t => ({ d with tail := (t + 1) % BUF_SIZE }, .done k.toNat)
  | .done _ => (d, .idle)

/-- What has happened: the keys that `push_key` has stored, the number of updates of `tail`, what the calls of the
    reader have returned, and whether the ring was empty when `head` was last read for the comparison. -/
structure History where
  accepted : List UInt16
  released : Nat
  returned : List Int
  sawEmpty : Bool

/-- The driver, its reader and the history. -/
structure System where
  driver : Driver
  reader : Reader
  history : History

/-- Either side takes a step. -/
inductive Action where
  | irq (sc : UInt8)
  | read (headFirst : Bool)

/-- `push_key` stores a key when it moves `head`. -/
def History.pushed (old new : Driver) (key : Option UInt16) (h : History) : History :=
  if new.head = old.head then h else { h with accepted := h.accepted ++ key.toList }

/-- What an access of the reader adds to the history. -/
def History.accessed (headFirst : Bool) (r : Reader) (h : History) : History :=
  match r with
  | .idle => if headFirst then { h with sawEmpty := h.released = h.accepted.length } else h
  | .tail _ => { h with sawEmpty := h.released = h.accepted.length }
  | .release _ _ => { h with released := h.released + 1 }
  | .done result => { h with returned := h.returned ++ [result] }
  | _ => h

/-- One step. The handler runs to its end between two steps of the reader. -/
def step (s : System) : Action → Option System
  | .irq sc =>
    let driver := keyboardIrqHandler sc s.driver
    some { s with driver, history := s.history.pushed s.driver driver (decode sc s.driver).2 }
  | .read headFirst =>
    let (driver, reader) := readerStep headFirst s.driver s.reader
    some { driver, reader, history := s.history.accessed headFirst s.reader }

/-- After `keyboard_init`. -/
def start (d : Driver) : System :=
  { driver := keyboardInit d
    reader := .idle
    history := { accepted := [], released := 0, returned := [], sawEmpty := false } }

end RetaOS.Keyboard
