import RetaOS.Kheap.Defs
import RetaOS.Lib.Linked
import Mathlib.Logic.Function.Basic

/-!
# The desktop and its windows

The window management of `kernel/gui.c`: `gui_init`, `gui_show` with its sample windows, `gui_create_window`,
`gui_destroy_window` and `gui_focus_window`. A window is a block of the kernel heap, known by its address, and the heap
is the allocator of `kernel/kheap.c` itself; the fields of the windows are kept beside it, as blocks in use do not
overlap. `int`s are 32-bit and wrap. The calls of the allocator for windows are recorded in `allocated` and `freed`.

Drawing writes pixels only. Of `gui_draw_desktop`, which walks the list of windows, the windows that it draws are kept.
-/

namespace RetaOS.Gui
open Lib

def GUI_COLOR_BLACK : UInt8 := 0x00
def GUI_COLOR_BLUE : UInt8 := 0x01
def GUI_COLOR_LIGHT_GREY : UInt8 := 0x07
def GUI_COLOR_LIGHT_GREEN : UInt8 := 0x0A
def GUI_COLOR_WHITE : UInt8 := 0x0F

/-- `WINDOW_STATE_NORMAL`. -/
def WINDOW_STATE_NORMAL : Int32 := 0

/-- `sizeof(window_t)`. -/
def sizeofWindow : UInt32 := 104

/-- The bytes of `title` in `window_t`, with the `NUL`. -/
def TITLE_SIZE : Nat := 64

/-- `window_t`; `title` is the string without its `NUL`. -/
structure Window where
  id : Int32
  x : Int32
  y : Int32
  width : Int32
  height : Int32
  title : List UInt8
  bgColor : UInt8
  fgColor : UInt8
  borderColor : UInt8
  state : Int32
  visible : Int32
  focused : Int32
  next : Option UInt32

/-- `desktop_t`. -/
structure Desktop where
  bgColor : UInt8
  windows : Option UInt32
  focusedWindow : Option UInt32
  windowCount : Int32
  nextWindowId : Int32

/-- The heap, the windows at their addresses, the static variables of `gui.c`, and the addresses that `kmalloc` has
    returned for windows and that have been given to `kfree`, the last ones first. -/
structure State where
  heap : Kheap.Heap
  windows : UInt32 → Window
  desktop : Desktop
  guiActive : Bool
  allocated : List UInt32
  freed : List UInt32

namespace State

def next (g : State) (p : UInt32) : Option UInt32 := (g.windows p).next

def setWindow (g : State) (p : UInt32) (w : Window) : State := { g with windows := Function.update g.windows p w }

/-- `kmalloc(sizeof(window_t))`, where a null result is `NULL`. -/
def kmalloc (g : State) : Option (Option UInt32 × State) :=
  (Kheap.kmalloc g.heap sizeofWindow).map fun (p, heap) =>
    if p = 0 then (none, { g with heap }) else (some p, { g with heap, allocated := p :: g.allocated })

/-- `kfree(window)`. -/
def kfree (g : State) (window : UInt32) : Option State :=
  (Kheap.kfree g.heap window).map fun heap => { g with heap, freed := window :: g.freed }

/-- `gui_init`. -/
def guiInit (g : State) : State :=
  { g with desktop := ⟨GUI_COLOR_BLUE, none, none, 0, 1⟩, guiActive := false }

/-- One pass of the loop of `gui_draw_desktop`, with the windows drawn so far. -/
def drawPass (g : State) : Option UInt32 × List UInt32 → Pass (Option UInt32 × List UInt32) (List UInt32)
  | (none, drawn) => .done drawn
  | (some current, drawn) =>
    .next (g.next current, if (g.windows current).visible ≠ 0 then drawn ++ [current] else drawn)

/-- `gui_draw_desktop`: the windows that it draws. -/
def guiDrawDesktop (g : State) : Option (List UInt32) :=
  if g.guiActive = false then some [] else loop g.drawPass (g.desktop.windows, [])

/-- `gui_create_window`. -/
def guiCreateWindow (g : State) (x y width height : Int32) (title : List UInt8) : Option (Option UInt32 × State) :=
  g.kmalloc.map fun
    | (none, g) => (none, g)
    | (some window, g) =>
      let g := g.setWindow window
        { id := g.desktop.nextWindowId
          x, y, width, height, title
          bgColor := GUI_COLOR_WHITE
          fgColor := GUI_COLOR_BLACK
          borderColor := GUI_COLOR_BLACK
          state := WINDOW_STATE_NORMAL
          visible := 1
          focused := 0
          next := g.desktop.windows }
      let desktop := { g.desktop with
        windows := some window
        windowCount := g.desktop.windowCount + 1
        nextWindowId := g.desktop.nextWindowId + 1 }
      (some window, { g with desktop })

/-- The window taken out of the list, which is searched for the window before it. -/
def unlink (g : State) (window : UInt32) : Option State :=
  if g.desktop.windows = some window then
    some { g with desktop := { g.desktop with windows := g.next window } }
  else
    (search g.next (fun current => g.next current == some window) g.desktop.windows).map fun
      | none => g
      | some current => g.setWindow current { g.windows current with next := g.next window }

/-- `gui_destroy_window`. -/
def guiDestroyWindow (g : State) : Option UInt32 → Option State
  | none => some g
  | some window =>
    (g.unlink window).bind fun g =>
      let focusedWindow := if g.desktop.focusedWindow = some window then none else g.desktop.focusedWindow
      { g with desktop := { g.desktop with focusedWindow, windowCount := g.desktop.windowCount - 1 } }.kfree window

/-- The window that has the focus loses its flag. -/
def unfocus (g : State) : State :=
  match g.desktop.focusedWindow with
  | none => g
  | some f => g.setWindow f { g.windows f with focused := 0 }

/-- `gui_focus_window`. -/
def guiFocusWindow (g : State) : Option UInt32 → Option State
  | none => some g
  | some window =>
    let g := g.unfocus
    let g := { g with desktop := { g.desktop with focusedWindow := some window } }
    let g := g.setWindow window { g.windows window with focused := 1 }
    g.guiDrawDesktop.map fun _ => g

/-- One pass of the loop of `gui_create_sample_windows` that frees the windows there are. -/
def freePass : Option UInt32 × State → Pass (Option UInt32 × State) State
  | (none, g) => .done g
  | (some current, g) => .inner (some current, g) (g.kfree current) fun g' => .next (g.next current, g')

/-- New colors for a window, if there is one. -/
def recolor (g : State) (bgColor fgColor : UInt8) : Option UInt32 → State
  | none => g
  | some w => g.setWindow w { g.windows w with bgColor, fgColor }

/-- A string constant. -/
def bytes (s : String) : List UInt8 := s.toList.map fun c => c.toNat.toUInt8

/-- `gui_create_sample_windows`. -/
def guiCreateSampleWindows (g : State) : Option State :=
  (loop freePass (g.desktop.windows, g)).bind fun g =>
    let g := { g with desktop := { g.desktop with
      windows := none, focusedWindow := none, windowCount := 0, nextWindowId := 1 } }
    (g.guiCreateWindow 50 50 300 200 (bytes "RetaOS Terminal")).bind fun (window1, g) =>
      let g := g.recolor GUI_COLOR_BLACK GUI_COLOR_LIGHT_GREEN window1
      (g.guiCreateWindow 400 100 250 150 (bytes "File Manager")).bind fun (window2, g) =>
        let g := g.recolor GUI_COLOR_WHITE GUI_COLOR_BLACK window2
        (g.guiCreateWindow 150 300 350 180 (bytes "System Information")).bind fun (window3, g) =>
          let g := g.recolor GUI_COLOR_LIGHT_GREY GUI_COLOR_BLACK window3
          g.guiFocusWindow window1

/-- `gui_show`. -/
def guiShow (g : State) : Option State :=
  ({ g with guiActive := true }.guiCreateSampleWindows).bind fun g => g.guiDrawDesktop.map fun _ => g

end State

/-- A call of `gui.c`. -/
inductive Call where
  | guiShow
  | guiCreateWindow (x y width height : Int32) (title : List UInt8)
  | guiDestroyWindow (window : UInt32)
  | guiFocusWindow (window : UInt32)

namespace Call

def step (g : State) : Call → Option State
  | guiShow => g.guiShow
  | guiCreateWindow x y width height title => (g.guiCreateWindow x y width height title).map Prod.snd
  | guiDestroyWindow window => g.guiDestroyWindow (some window)
  | guiFocusWindow window => g.guiFocusWindow (some window)

end Call

end RetaOS.Gui
