import RetaOS.Lib.Word
import Mathlib.Logic.Function.Basic

/-!
# The text console

`console.c`: a cursor on the 80x25 cells of the VGA text buffer. The buffer is the memory from `vga_buffer` up, cell
by cell and beyond the last row too, so that a store out of its bounds would be seen.
-/

namespace RetaOS.Console

/-- `CONSOLE_WIDTH`. -/
def CONSOLE_WIDTH : UInt32 := 80

/-- `CONSOLE_HEIGHT`. -/
def CONSOLE_HEIGHT : UInt32 := 25

/-- The globals of `console.c`. -/
structure State where
  vgaBuffer : UInt32 → UInt16
  x : UInt32
  y : UInt32
  attr : UInt8

/-- A cell: `(console_attr << 8) | c`. -/
def cell (attr c : UInt8) : UInt16 := attr.toUInt16 <<< 8 ||| c.toUInt16

/-- A space. -/
def blank (attr : UInt8) : UInt16 := cell attr 0x20

/-- `vga_buffer[index] = v`. -/
def State.store (c : State) (index : UInt32) (v : UInt16) : State :=
  { c with vgaBuffer := Function.update c.vgaBuffer index v }

/-- `for (size_t i = start; i < stop; i++)`. -/
def forRange (start stop : Nat) (body : UInt32 → State → State) (c : State) : State :=
  (List.range' start (stop - start)).foldl (fun c i => body (UInt32.ofNat i) c) c

/-- The loops of `console_clear`. -/
def clearRows (c : State) : State :=
  forRange 0 25 (fun y => forRange 0 80 fun x c => c.store (y * CONSOLE_WIDTH + x) (blank c.attr)) c

/-- `console_clear`. -/
def consoleClear (c : State) : State := { clearRows c with x := 0, y := 0 }

/-- The first loops of `console_scroll`: every line moves up by one. -/
def moveRows (c : State) : State :=
  forRange 1 25 (fun y => forRange 0 80 fun x c =>
    c.store ((y - 1) * CONSOLE_WIDTH + x) (c.vgaBuffer (y * CONSOLE_WIDTH + x))) c

/-- The last loop of `console_scroll`. -/
def clearLastLine (c : State) : State :=
  let lastLineStart := (CONSOLE_HEIGHT - 1) * CONSOLE_WIDTH
  forRange 0 80 (fun x c => c.store (lastLineStart + x) (blank c.attr)) c

/-- `console_scroll`. -/
def consoleScroll (c : State) : State :=
  let c := clearLastLine (moveRows c)
  if c.y > 0 then { c with y := c.y - 1 } else c

/-- `console_putc` up to the handling of the edges. -/
def State.put (c : State) (ch : UInt8) : State :=
  if ch = 0x0A then { c with x := 0, y := c.y + 1 }
  else if ch = 0x0D then { c with x := 0 }
  else if ch = 0x09 then { c with x := (c.x + 8) &&& ~~~7 }
  else if ch.toInt8 ≥ 0x20 then
    let index := c.y * CONSOLE_WIDTH + c.x
    { c.store index (cell c.attr ch) with x := c.x + 1 }
  else c

/-- The line wrapping of `console_putc`. -/
def State.wrap (c : State) : State := if c.x ≥ CONSOLE_WIDTH then { c with x := 0, y := c.y + 1 } else c

/-- The condition on which `console_putc` scrolls. -/
def State.Scrolls (c : State) (ch : UInt8) : Prop := (c.put ch).wrap.y ≥ CONSOLE_HEIGHT

instance (c : State) (ch : UInt8) : Decidable (c.Scrolls ch) := inferInstanceAs (Decidable (_ ≤ _))

/-- `console_putc`. -/
def consolePutc (c : State) (ch : UInt8) : State :=
  if c.Scrolls ch then consoleScroll (c.put ch).wrap else (c.put ch).wrap

/-- `console_puts`. -/
def consolePuts (c : State) (str : List UInt8) : State := str.foldl consolePutc c

/-- The number of times that `console_puts` scrolls. -/
def State.scrolls (c : State) : List UInt8 → Nat
  | [] => 0
  | ch :: str => (if c.Scrolls ch then 1 else 0) + (consolePutc c ch).scrolls str

end RetaOS.Console
