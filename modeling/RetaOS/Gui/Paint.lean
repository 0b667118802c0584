import RetaOS.Console.Defs
import RetaOS.Display.FillRect
import RetaOS.Gui.Windows
import RetaOS.Lib.Canvas

/-!
# Painting the desktop

The drawing of `kernel/gui.c`, on a framebuffer as `kernel/display.c` writes it. Each drawing function is compared with
the shapes that it paints on a plane of places without bounds (`fill`, `border`, `text`, `windowShapes`,
`desktopShapes`), of which the framebuffer shows the part that is on the screen (`screen`). Coordinates are `int`s that
wrap; a place that is reached by wrapping is not on the screen, so that a rectangle is seen as far as its exact extent
lies there (`mem_offsets`).
-/

namespace RetaOS.Gui
open Lib
open Display (VideoMode displaySetPixel forRange rectangle pixelAddr colour)

def GUI_COLOR_DARK_GREY : UInt8 := 0x08
def GUI_COLOR_LIGHT_BLUE : UInt8 := 0x09
def GUI_COLOR_LIGHT_RED : UInt8 := 0x0C

/-- `vga_palette`. -/
def vgaPalette : List UInt32 :=
  [0x000000, 0x0000AA, 0x00AA00, 0x00AAAA, 0xAA0000, 0xAA00AA, 0xAA5500, 0xAAAAAA, 0x555555, 0x5555FF, 0x55FF55,
    0x55FFFF, 0xFF5555, 0xFF55FF, 0xFFFF55, 0xFFFFFF]

/-- `vga_to_rgb`. -/
def vgaToRgb (vgaColor : UInt8) : UInt32 := vgaPalette.getD (vgaColor &&& 0x0F).toNat 0

/-! ## Drawing. -/

section
variable (mode : VideoMode)

/-- `gui_draw_pixel`. -/
def guiDrawPixel (x y : Int32) (color : UInt8) (m : Memory) : Memory :=
  if x < 0 ∨ y < 0 ∨ x.toUInt32 ≥ mode.width ∨ y.toUInt32 ≥ mode.height then m
  else displaySetPixel mode m x.toUInt32 y.toUInt32 (vgaToRgb color)

/-- `gui_clear_screen`; the bounds of its loops are unsigned. -/
def guiClearScreen (color : UInt8) : Memory → Memory :=
  forRange 0 mode.height fun y => forRange 0 mode.width fun x m => displaySetPixel mode m x y (vgaToRgb color)

/-- `for (int i = 0; i < n; i++)`. -/
def forInt (n : Int32) (body : Int32 → Memory → Memory) (m : Memory) : Memory :=
  (List.range n.toInt.toNat).foldl (fun m i => body (Int32.ofNat i) m) m

/-- `gui_draw_rect`. -/
def guiDrawRect (x y width height : Int32) (color : UInt8) : Memory → Memory :=
  forInt height fun dy => forInt width fun dx => guiDrawPixel mode (x + dx) (y + dy) color

/-- `gui_draw_border`. -/
def guiDrawBorder (x y width height : Int32) (color : UInt8) (m : Memory) : Memory :=
  let m := forInt width (fun dx => guiDrawPixel mode (x + dx) y color) m
  let m := forInt width (fun dx => guiDrawPixel mode (x + dx) (y + height - 1) color) m
  let m := forInt height (fun dy => guiDrawPixel mode x (y + dy) color) m
  forInt height (fun dy => guiDrawPixel mode (x + width - 1) (y + dy) color) m

/-- A character of `gui_draw_text`, with `current_x`, `current_y` and the memory. -/
def drawChar (x : Int32) (color : UInt8) (s : (Int32 × Int32) × Memory) (ch : UInt8) : (Int32 × Int32) × Memory :=
  let currentX := s.1.1
  let currentY := s.1.2
  if ch = 0x0A then ((x, currentY + 12), s.2)
  else
    let m := guiDrawPixel mode currentX currentY color s.2
    let m := guiDrawPixel mode (currentX + 1) currentY color m
    let m := guiDrawPixel mode currentX (currentY + 1) color m
    let m := guiDrawPixel mode (currentX + 1) (currentY + 1) color m
    ((currentX + 8, currentY), m)

/-- `gui_draw_text`. -/
def guiDrawText (x y : Int32) (text : List UInt8) (color : UInt8) (m : Memory) : Memory :=
  (text.foldl (drawChar mode x color) ((x, y), m)).2

/-- `text_x` of `gui_draw_button`: `strlen` makes the numbers unsigned. -/
def textX (x width : Int32) (text : List UInt8) : Int32 :=
  (x.toUInt32 + (width.toUInt32 - UInt32.ofNat text.length * 8) / 2).toInt32

/-- `gui_draw_button`. -/
def guiDrawButton (x y width height : Int32) (text : List UInt8) (bgColor fgColor : UInt8) (m : Memory) : Memory :=
  let m := guiDrawRect mode x y width height bgColor m
  let m := guiDrawBorder mode x y width height GUI_COLOR_BLACK m
  guiDrawText mode (textX x width text) (y + (height - 12) / 2) text fgColor m

/-- `gui_draw_taskbar`. -/
def guiDrawTaskbar (m : Memory) : Memory :=
  let taskbarHeight : Int32 := 30
  let taskbarY := (mode.height - taskbarHeight.toUInt32).toInt32
  let m := guiDrawRect mode 0 taskbarY mode.width.toInt32 taskbarHeight GUI_COLOR_LIGHT_GREY m
  let m := guiDrawBorder mode 0 taskbarY mode.width.toInt32 taskbarHeight GUI_COLOR_BLACK m
  let m := guiDrawButton mode 5 (taskbarY + 5) 60 20 (State.bytes "Start") GUI_COLOR_LIGHT_BLUE GUI_COLOR_BLACK m
  let windowListX : Int32 := 70
  let windowListWidth := (mode.width - windowListX.toUInt32 - 100).toInt32
  let m :=
    if windowListWidth > 0 then
      guiDrawBorder mode windowListX (taskbarY + 5) windowListWidth 20 GUI_COLOR_DARK_GREY
        (guiDrawRect mode windowListX (taskbarY + 5) windowListWidth 20 GUI_COLOR_WHITE m)
    else m
  let trayX := (mode.width - 90).toInt32
  let m := guiDrawRect mode trayX (taskbarY + 5) 85 20 GUI_COLOR_WHITE m
  guiDrawBorder mode trayX (taskbarY + 5) 85 20 GUI_COLOR_DARK_GREY m

/-- `gui_draw_window`. -/
def guiDrawWindow (window : Window) (m : Memory) : Memory :=
  if window.visible = 0 then m
  else
    let m := guiDrawRect mode window.x window.y window.width window.height window.bgColor m
    let m := guiDrawBorder mode window.x window.y window.width window.height window.borderColor m
    let titleBarHeight : Int32 := 25
    let m := guiDrawRect mode window.x window.y window.width titleBarHeight GUI_COLOR_LIGHT_BLUE m
    let m := guiDrawText mode (window.x + 5) (window.y + 5) window.title GUI_COLOR_BLACK m
    guiDrawButton mode (window.x + window.width - 25) (window.y + 2) 20 20 (State.bytes "X") GUI_COLOR_LIGHT_RED
      GUI_COLOR_WHITE m

/-- One pass of the loop of `gui_draw_desktop`. -/
def paintPass (g : State) : Option UInt32 × Memory → Pass (Option UInt32 × Memory) Memory
  | (none, m) => .done m
  | (some current, m) =>
    .next (g.next current, if (g.windows current).visible ≠ 0 then guiDrawWindow mode (g.windows current) m else m)

/-- `gui_draw_desktop`: the memory that it leaves. -/
def paintDesktop (g : State) (m : Memory) : Option Memory :=
  if g.guiActive = false then some m
  else loop (paintPass mode g) (g.desktop.windows, guiDrawTaskbar mode (guiClearScreen mode g.desktop.bgColor m))

end

/-! ## Shapes. -/

/-- A rectangle on the plane, which does not end where the `int`s do. -/
def box (x y width height : Int) (p : Int × Int) : Bool := x ≤ p.1 ∧ p.1 < x + width ∧ y ≤ p.2 ∧ p.2 < y + height

/-- A filled rectangle. -/
def fill (x y width height : Int32) (color : UInt8) : Shape (Int × Int) UInt32 :=
  ⟨box x.toInt y.toInt width.toInt height.toInt, vgaToRgb color⟩

/-- The four lines of a border. -/
def border (x y width height : Int32) (color : UInt8) : List (Shape (Int × Int) UInt32) :=
  [fill x y width 1 color, fill x (y + height - 1) width 1 color, fill x y 1 height color,
    fill (x + width - 1) y 1 height color]

/-- The columns and lines of the characters of a text from a column and a line on; its lines begin at column 0. -/
def cells : List UInt8 → Nat → Nat → List (Nat × Nat)
  | [], _, _ => []
  | ch :: text, col, line => if ch = 0x0A then cells text 0 (line + 1) else (col, line) :: cells text (col + 1) line

/-- The mark of a character, in a grid of 8 by 12. -/
def mark (x y : Int32) (color : UInt8) (cell : Nat × Nat) : Shape (Int × Int) UInt32 :=
  fill (x + Int32.ofNat (8 * cell.1)) (y + Int32.ofNat (12 * cell.2)) 2 2 color

/-- A text. -/
def text (x y : Int32) (str : List UInt8) (color : UInt8) : List (Shape (Int × Int) UInt32) :=
  (cells str 0 0).map (mark x y color)

/-- A button with its text in the middle. -/
def button (x y width height : Int32) (str : List UInt8) (bgColor fgColor : UInt8) :
    List (Shape (Int × Int) UInt32) :=
  fill x y width height bgColor :: border x y width height GUI_COLOR_BLACK ++
    text (textX x width str) (y + (height - 12) / 2) str fgColor

/-- A field of the taskbar: a white rectangle with a grey border. -/
def field (x y width : Int32) : List (Shape (Int × Int) UInt32) :=
  fill x y width 20 GUI_COLOR_WHITE :: border x y width 20 GUI_COLOR_DARK_GREY

/-- The taskbar along the lower edge of the screen. -/
def taskbarShapes (mode : VideoMode) : List (Shape (Int × Int) UInt32) :=
  let y := (mode.height - 30).toInt32
  let width := mode.width.toInt32
  let listWidth := (mode.width - 70 - 100).toInt32
  fill 0 y width 30 GUI_COLOR_LIGHT_GREY :: border 0 y width 30 GUI_COLOR_BLACK ++
    button 5 (y + 5) 60 20 (State.bytes "Start") GUI_COLOR_LIGHT_BLUE GUI_COLOR_BLACK ++
    (if listWidth > 0 then field 70 (y + 5) listWidth else []) ++ field (mode.width - 90).toInt32 (y + 5) 85

/-- A window: its background, its border, and over them the title bar with the title and the close button. -/
def windowShapes (w : Window) : List (Shape (Int × Int) UInt32) :=
  if w.visible = 0 then []
  else
    fill w.x w.y w.width w.height w.bgColor :: border w.x w.y w.width w.height w.borderColor ++
      fill w.x w.y w.width 25 GUI_COLOR_LIGHT_BLUE :: text (w.x + 5) (w.y + 5) w.title GUI_COLOR_BLACK ++
      button (w.x + w.width - 25) (w.y + 2) 20 20 (State.bytes "X") GUI_COLOR_LIGHT_RED GUI_COLOR_WHITE

/-- The desktop: the background, the taskbar and the windows, the first one of the list lowest. -/
def desktopShapes (mode : VideoMode) (bgColor : UInt8) (ws : List Window) : List (Shape (Int × Int) UInt32) :=
  ⟨fun _ => true, vgaToRgb bgColor⟩ :: taskbarShapes mode ++ ws.flatMap windowShapes

/-! ## The framebuffer as a device. -/

/-- A framebuffer whose rows lie one behind the other in the address space. -/
structure Framebuffer (mode : VideoMode) : Prop where
  addr : mode.addr ≠ 0
  depth : mode.bpp = 24 ∨ mode.bpp = 32
  pitch : mode.width.toNat * mode.bpp.toNat / 8 ≤ mode.pitch.toNat
  fits : mode.addr.toNat + mode.height.toNat * mode.pitch.toNat ≤ 2 ^ 32

/-- The pixels of the screen. -/
def pixels (mode : VideoMode) : List (UInt32 × UInt32) := rectangle mode 0 0 mode.width mode.height

/-- Where a pixel is on the plane. -/
def place (p : UInt32 × UInt32) : Int × Int := (p.1.toNat, p.2.toNat)

/-- A byte that belongs to no pixel. -/
def Outside (mode : VideoMode) (b : UInt32) : Prop :=
  ∀ p ∈ pixels mode, mode.bpp.toNat / 8 ≤ (b - pixelAddr mode p).toNat

/-- The screen: the bytes of each pixel are those of the color that is seen there, and no byte beside the pixels has
    changed from the memory `m₀`. -/
structure Shows (mode : VideoMode) (m₀ m : Memory) (pic : Picture (Int × Int) UInt32) : Prop where
  pixel : ∀ p ∈ pixels mode, ∀ rgb, pic (place p) = some rgb →
    m.loadBytes (pixelAddr mode p) (mode.bpp.toNat / 8) = colour mode.bpp.toUInt8 rgb
  frame : ∀ b, Outside mode b → m b = m₀ b

/-- The screen as a device. -/
def screen (mode : VideoMode) (m₀ : Memory) : Device Memory (Int × Int) UInt32 where
  Shows := Shows mode m₀
  Visible p := ∃ q ∈ pixels mode, place q = p
  local_ shows_ same := by
    refine ⟨fun p mem rgb seen => shows_.pixel p mem rgb ?_, shows_.frame⟩
    rwa [same (place p) ⟨p, mem, rfl⟩] at seen

variable {mode : VideoMode} {m m₀ : Memory} {x y width height : Int32} {color : UInt8} {p q : UInt32 × UInt32}

lemma mem_pixels : p ∈ pixels mode ↔ p.1 < mode.width ∧ p.2 < mode.height := by
  rw [pixels, Display.mem_rectangle, UInt32.lt_iff_toNat_lt, UInt32.lt_iff_toNat_lt]
  change (0 ≤ _ ∧ _ < 0 + _ ∧ _) ∧ 0 ≤ _ ∧ _ < 0 + _ ∧ _ ↔ _
  omega

/-- The coordinates of a pixel are `int`s. -/
lemma Framebuffer.small (fb : Framebuffer mode) (mem : p ∈ pixels mode) : p.1.toNat < 2 ^ 31 ∧ p.2.toNat < 2 ^ 31 := by
  obtain ⟨-, col, row⟩ := Display.pixelAddr_toNat fb.depth fb.pitch fb.fits mem
  have fits := fb.fits
  have bytes : 3 ≤ mode.bpp.toNat / 8 := by
    obtain eq | eq := fb.depth <;> rw [eq] <;> decide
  have col' : p.1.toNat * 3 ≤ p.1.toNat * (mode.bpp.toNat / 8) := Nat.mul_le_mul_left _ bytes
  have row' : (p.2.toNat + 1) * 3 ≤ (p.2.toNat + 1) * mode.pitch.toNat := Nat.mul_le_mul_left _ (by omega)
  have first : 1 * mode.pitch.toNat ≤ (p.2.toNat + 1) * mode.pitch.toNat :=
    Nat.mul_le_mul_right _ (Nat.le_add_left 1 _)
  omega

lemma place_inj (eq : place p = place q) : p = q := by
  obtain ⟨cols, rows⟩ := Prod.mk.inj eq
  exact Prod.ext (UInt32.toNat_inj.mp (Int.ofNat.inj cols)) (UInt32.toNat_inj.mp (Int.ofNat.inj rows))

/-- `display_set_pixel` paints one pixel. -/
lemma displaySetPixel_draws (fb : Framebuffer mode) (q : UInt32 × UInt32) (rgb : UInt32) :
    (screen mode m₀).Draws (fun m => displaySetPixel mode m q.1 q.2 rgb) [⟨fun p => p = place q, rgb⟩] := by
  intro m pic shows_
  have length := Display.colour_length fb.depth rgb
  by_cases on : q ∈ pixels mode
  · refine ⟨fun p mem rgb' seen => ?_, fun b out => ?_⟩
    · dsimp only
      rw [Display.displaySetPixel_eq fb.addr on]
      by_cases eq : p = q
      · cases eq
        have here : rgb' = rgb := by simpa [Picture.paint] using seen.symm
        rw [here, ← length]
        have bpp := mode.bpp.toNat_lt
        exact Memory.loadBytes_storeBytes (by omega)
      · have other : pic (place p) = some rgb' := by
          have ne : ¬ place p = place q := fun same => eq (place_inj same)
          simpa [Picture.paint, ne] using seen
        refine Eq.trans (Memory.loadBytes_congr fun i lt => ?_) (shows_.pixel p mem rgb' other)
        refine Memory.storeBytes_apart ?_
        rw [length]
        refine Display.pixels_apart fb.depth fb.pitch fb.fits mem on ?_ (Ne.symm eq)
        have bpp := mode.bpp.toNat_lt
        rw [UInt32.add_comm, UInt32.add_sub_cancel, toNat_ofNat_lt (by omega)]
        exact lt
    · dsimp only
      rw [Display.displaySetPixel_eq fb.addr on, Memory.storeBytes_outside, shows_.frame b out]
      rw [length]
      exact out q on
  · have nothing : displaySetPixel mode m q.1 q.2 rgb = m := by
      rw [mem_pixels, not_and_or, UInt32.not_lt, UInt32.not_lt] at on
      rw [displaySetPixel, if_neg fb.addr, if_pos on]
    dsimp only
    rw [nothing]
    refine (screen mode m₀).local_ shows_ ?_
    rintro _ ⟨p, mem, rfl⟩
    have ne : ¬ place p = place q := fun same => on (place_inj same ▸ mem)
    simp [Picture.paint, ne]

/-! ## What the drawing functions paint. -/

/-- A coordinate that is reached from `x` in fewer than `n` steps, without the places behind a wrap. -/
lemma mem_offsets {n : Int32} {v : Int} (low : 0 ≤ v) (high : v < 2 ^ 31) :
    (∃ i ∈ List.range n.toInt.toNat, v = (x + Int32.ofNat i).toInt) ↔ x.toInt ≤ v ∧ v < x.toInt + n.toInt := by
  have lo := x.le_toInt
  have hi := x.toInt_lt
  have len := n.toInt_lt
  have step {i : Nat} (lt : i < n.toInt.toNat) : (x + Int32.ofNat i).toInt = (x.toInt + i).bmod (2 ^ 32) := by
    rw [Int32.toInt_add, Int32.toInt_ofNat_of_lt (by omega)]
  constructor
  · rintro ⟨i, mem, rfl⟩
    have lt := List.mem_range.mp mem
    rw [step lt] at low ⊢
    rw [Int.bmod_def] at low ⊢
    split_ifs at low ⊢ <;> omega
  · rintro ⟨ge, lt⟩
    refine ⟨(v - x.toInt).toNat, List.mem_range.mpr (by omega), ?_⟩
    rw [step (by omega), Int.bmod_eq_of_le (by omega) (by omega)]
    omega

/-- A place that is seen has coordinates that are `int`s. -/
lemma Framebuffer.visible (fb : Framebuffer mode) {p : Int × Int} (visible : (screen mode m₀).Visible p) :
    0 ≤ p.1 ∧ p.1 < 2 ^ 31 ∧ 0 ≤ p.2 ∧ p.2 < 2 ^ 31 := by
  obtain ⟨q, mem, rfl⟩ := visible
  obtain ⟨col, row⟩ := fb.small mem
  dsimp only [place]
  omega

lemma guiDrawPixel_draws (fb : Framebuffer mode) (x y : Int32) (color : UInt8) :
    (screen mode m₀).Draws (guiDrawPixel mode x y color) [⟨fun p => p = (x.toInt, y.toInt), vgaToRgb color⟩] := by
  have number (v : Int32) : v.toInt = if 2 * v.toUInt32.toNat < 2 ^ 32 then (v.toUInt32.toNat : Int)
      else v.toUInt32.toNat - 2 ^ 32 := rfl
  by_cases off : x < 0 ∨ y < 0 ∨ x.toUInt32 ≥ mode.width ∨ y.toUInt32 ≥ mode.height
  · have idle : guiDrawPixel mode x y color = fun m => m := funext fun m => if_pos off
    rw [idle]
    refine Device.Draws.id.congr fun pic p visible => ?_
    have ne : ¬ p = (x.toInt, y.toInt) := by
      obtain ⟨col, -, row, -⟩ := fb.visible visible
      rintro rfl
      obtain ⟨q, mem, eq⟩ := visible
      obtain ⟨wide, high⟩ := fb.small mem
      obtain ⟨left, top⟩ := mem_pixels.mp mem
      obtain ⟨cols, rows⟩ := Prod.mk.inj eq
      have hx := number x
      have hy := number y
      have ltx := x.toUInt32.toNat_lt
      have lty := y.toUInt32.toNat_lt
      simp only [Int32.lt_iff_toInt_lt, UInt32.lt_iff_toNat_lt, ge_iff_le, UInt32.le_iff_toNat_le] at off left top
      change x.toInt < 0 ∨ y.toInt < 0 ∨ _ at off
      split_ifs at hx hy <;> omega
    simp [Picture.paint, ne]
  · have set : guiDrawPixel mode x y color = fun m => displaySetPixel mode m x.toUInt32 y.toUInt32 (vgaToRgb color) :=
      funext fun m => if_neg off
    have here : place (x.toUInt32, y.toUInt32) = (x.toInt, y.toInt) := by
      have hx := number x
      have hy := number y
      have lo := x.le_toInt
      simp only [not_or, Int32.lt_iff_toInt_lt] at off
      change ¬ x.toInt < 0 ∧ ¬ y.toInt < 0 ∧ _ at off
      dsimp only [place]
      have ltx := x.toUInt32.toNat_lt
      have lty := y.toUInt32.toNat_lt
      split_ifs at hx hy
      · rw [hx, hy]
      all_goals omega
    rw [set, ← here]
    exact displaySetPixel_draws fb (x.toUInt32, y.toUInt32) (vgaToRgb color)

/-- `gui_draw_rect` fills the rectangle. -/
lemma guiDrawRect_draws (fb : Framebuffer mode) (x y width height : Int32) (color : UInt8) :
    (screen mode m₀).Draws (guiDrawRect mode x y width height color) [fill x y width height color] := by
  have loops : (screen mode m₀).Draws (guiDrawRect mode x y width height color)
      ((List.range height.toInt.toNat).flatMap fun dy => (List.range width.toInt.toNat).flatMap fun dx =>
        [⟨fun p => p = ((x + Int32.ofNat dx).toInt, (y + Int32.ofNat dy).toInt), vgaToRgb color⟩]) :=
    .foldl fun dy _ => .foldl fun dx _ => guiDrawPixel_draws fb (x + Int32.ofNat dx) (y + Int32.ofNat dy) color
  refine loops.merge (fun s mem => ?_) fun p visible => ?_
  · simp only [List.mem_flatMap, List.mem_singleton] at mem
    obtain ⟨dy, -, dx, -, rfl⟩ := mem
    rfl
  · obtain ⟨left, right, top, bottom⟩ := fb.visible visible
    have cols := mem_offsets (x := x) (n := width) left right
    have rows := mem_offsets (x := y) (n := height) top bottom
    simp only [box, decide_eq_true_eq, List.mem_flatMap, List.mem_singleton]
    rw [← and_assoc, ← cols, ← rows]
    constructor
    · rintro ⟨⟨dx, memx, eqx⟩, dy, memy, eqy⟩
      exact ⟨_, ⟨dy, memy, dx, memx, rfl⟩, by simp [Prod.ext_iff, eqx, eqy]⟩
    · rintro ⟨_, ⟨dy, memy, dx, memx, rfl⟩, eq⟩
      simp only [decide_eq_true_eq] at eq
      exact ⟨⟨dx, memx, congrArg Prod.fst eq⟩, dy, memy, congrArg Prod.snd eq⟩

/-- `gui_clear_screen` fills the screen. -/
lemma guiClearScreen_draws (fb : Framebuffer mode) (color : UInt8) :
    (screen mode m₀).Draws (guiClearScreen mode color) [⟨fun _ => true, vgaToRgb color⟩] := by
  have loops : (screen mode m₀).Draws (guiClearScreen mode color)
      ((List.range' 0 mode.height.toNat).flatMap fun y => (List.range' 0 mode.width.toNat).flatMap fun x =>
        [⟨fun p => p = place (UInt32.ofNat x, UInt32.ofNat y), vgaToRgb color⟩]) :=
    .foldl fun y _ => .foldl fun x _ => displaySetPixel_draws fb (UInt32.ofNat x, UInt32.ofNat y) (vgaToRgb color)
  refine loops.merge (fun s mem => ?_) fun p visible => ?_
  · simp only [List.mem_flatMap, List.mem_singleton] at mem
    obtain ⟨y, -, x, -, rfl⟩ := mem
    rfl
  · obtain ⟨q, mem, rfl⟩ := visible
    obtain ⟨col, row⟩ := mem_pixels.mp mem
    simp only [true_iff, List.mem_flatMap, List.mem_singleton, List.mem_range'_1]
    rw [UInt32.lt_iff_toNat_lt] at col row
    refine ⟨_, ⟨q.2.toNat, by omega, q.1.toNat, by omega, rfl⟩, ?_⟩
    simp only [UInt32.ofNat_toNat, decide_eq_true_eq]

/-- A horizontal line. -/
lemma guiDrawRect_row :
    guiDrawRect mode x y width 1 color = forInt width fun dx => guiDrawPixel mode (x + dx) y color := by
  funext m
  simp [guiDrawRect, forInt]

/-- A vertical line. -/
lemma guiDrawRect_column :
    guiDrawRect mode x y 1 height color = forInt height fun dy => guiDrawPixel mode x (y + dy) color := by
  funext m
  simp [guiDrawRect, forInt]

lemma guiDrawBorder_draws (fb : Framebuffer mode) (x y width height : Int32) (color : UInt8) :
    (screen mode m₀).Draws (guiDrawBorder mode x y width height color) (border x y width height color) := by
  have lines : guiDrawBorder mode x y width height color = fun m =>
      guiDrawRect mode (x + width - 1) y 1 height color (guiDrawRect mode x y 1 height color
        (guiDrawRect mode x (y + height - 1) width 1 color (guiDrawRect mode x y width 1 color m))) := by
    funext m
    rw [guiDrawRect_row, guiDrawRect_row, guiDrawRect_column, guiDrawRect_column]
    rfl
  rw [lines]
  have top : (screen mode m₀).Draws _ _ := guiDrawRect_draws fb x y width 1 color
  have bottom : (screen mode m₀).Draws _ _ := guiDrawRect_draws fb x (y + height - 1) width 1 color
  have left : (screen mode m₀).Draws _ _ := guiDrawRect_draws fb x y 1 height color
  have right : (screen mode m₀).Draws _ _ := guiDrawRect_draws fb (x + width - 1) y 1 height color
  exact ((top.comp bottom).comp left).comp right

/-- `gui_draw_text` draws a mark in the cell of each character. -/
lemma guiDrawText_draws (fb : Framebuffer mode) (x y : Int32) (str : List UInt8) (color : UInt8) :
    (screen mode m₀).Draws (guiDrawText mode x y str color) (text x y str color) := by
  have drawn (col line : Nat) : (screen mode m₀).Draws
      (fun m => (str.foldl (drawChar mode x color)
        ((x + Int32.ofNat (8 * col), y + Int32.ofNat (12 * line)), m)).2)
      ((cells str col line).map (mark x y color)) := by
    induction str generalizing col line with
    | nil => exact .id
    | cons ch str ih =>
      have next (k n : Nat) : Int32.ofNat (k * n) + Int32.ofNat k = Int32.ofNat (k * (n + 1)) := by
        rw [Nat.mul_succ, Int32.ofNat_add]
      by_cases newline : ch = 0x0A
      · have pass (m : Memory) :
            drawChar mode x color ((x + Int32.ofNat (8 * col), y + Int32.ofNat (12 * line)), m) ch =
            ((x + Int32.ofNat (8 * 0), y + Int32.ofNat (12 * (line + 1))), m) := by
          rw [drawChar, if_pos newline, ← next 12, ← Int32.add_assoc]
          simp
        rw [cells, if_pos newline]
        simp only [List.foldl_cons, pass]
        exact ih 0 (line + 1)
      · have pass (m : Memory) :
            drawChar mode x color ((x + Int32.ofNat (8 * col), y + Int32.ofNat (12 * line)), m) ch =
            ((x + Int32.ofNat (8 * (col + 1)), y + Int32.ofNat (12 * line)),
              guiDrawRect mode (x + Int32.ofNat (8 * col)) (y + Int32.ofNat (12 * line)) 2 2 color m) := by
          rw [drawChar, if_neg newline, ← next 8, ← Int32.add_assoc]
          simp [guiDrawRect, forInt, List.range_succ]
        rw [cells, if_neg newline]
        simp only [List.foldl_cons, pass]
        exact (guiDrawRect_draws fb _ _ 2 2 color).comp (ih (col + 1) line)
  have start := drawn 0 0
  have origin (v : Int32) : v + Int32.ofNat 0 = v := Int32.add_zero v
  rw [Nat.mul_zero, origin, origin] at start
  exact start

lemma guiDrawButton_draws (fb : Framebuffer mode) (x y width height : Int32) (str : List UInt8)
    (bgColor fgColor : UInt8) : (screen mode m₀).Draws (guiDrawButton mode x y width height str bgColor fgColor)
      (button x y width height str bgColor fgColor) := by
  have back : (screen mode m₀).Draws _ _ := guiDrawRect_draws fb x y width height bgColor
  have edge : (screen mode m₀).Draws _ _ := guiDrawBorder_draws fb x y width height GUI_COLOR_BLACK
  have label : (screen mode m₀).Draws _ _ :=
    guiDrawText_draws fb (textX x width str) (y + (height - 12) / 2) str fgColor
  exact (back.comp edge).comp label

lemma field_draws (fb : Framebuffer mode) (x y width : Int32) : (screen mode m₀).Draws
    (fun m => guiDrawBorder mode x y width 20 GUI_COLOR_DARK_GREY (guiDrawRect mode x y width 20 GUI_COLOR_WHITE m))
    (field x y width) := by
  have back : (screen mode m₀).Draws _ _ := guiDrawRect_draws fb x y width 20 GUI_COLOR_WHITE
  exact back.comp (guiDrawBorder_draws fb x y width 20 GUI_COLOR_DARK_GREY)

lemma guiDrawTaskbar_draws (fb : Framebuffer mode) :
    (screen mode m₀).Draws (guiDrawTaskbar mode) (taskbarShapes mode) := by
  let y := (mode.height - 30).toInt32
  let listWidth := (mode.width - 70 - 100).toInt32
  have back : (screen mode m₀).Draws _ _ := guiDrawRect_draws fb 0 y mode.width.toInt32 30 GUI_COLOR_LIGHT_GREY
  have edge : (screen mode m₀).Draws _ _ := guiDrawBorder_draws fb 0 y mode.width.toInt32 30 GUI_COLOR_BLACK
  have start : (screen mode m₀).Draws _ _ :=
    guiDrawButton_draws fb 5 (y + 5) 60 20 (State.bytes "Start") GUI_COLOR_LIGHT_BLUE GUI_COLOR_BLACK
  have list : (screen mode m₀).Draws (fun m => if listWidth > 0 then
      guiDrawBorder mode 70 (y + 5) listWidth 20 GUI_COLOR_DARK_GREY
        (guiDrawRect mode 70 (y + 5) listWidth 20 GUI_COLOR_WHITE m) else m)
      (if listWidth > 0 then field 70 (y + 5) listWidth else []) := by
    split_ifs
    · exact field_draws fb 70 (y + 5) listWidth
    · exact .id
  have tray : (screen mode m₀).Draws _ _ := field_draws fb (mode.width - 90).toInt32 (y + 5) 85
  exact (((back.comp edge).comp start).comp list).comp tray

lemma guiDrawWindow_draws (fb : Framebuffer mode) (w : Window) :
    (screen mode m₀).Draws (guiDrawWindow mode w) (windowShapes w) := by
  by_cases hidden : w.visible = 0
  · have idle : guiDrawWindow mode w = fun m => m := funext fun m => if_pos hidden
    rw [idle, windowShapes, if_pos hidden]
    exact .id
  · have back : (screen mode m₀).Draws _ _ := guiDrawRect_draws fb w.x w.y w.width w.height w.bgColor
    have edge : (screen mode m₀).Draws _ _ := guiDrawBorder_draws fb w.x w.y w.width w.height w.borderColor
    have bar : (screen mode m₀).Draws _ _ := guiDrawRect_draws fb w.x w.y w.width 25 GUI_COLOR_LIGHT_BLUE
    have title : (screen mode m₀).Draws _ _ := guiDrawText_draws fb (w.x + 5) (w.y + 5) w.title GUI_COLOR_BLACK
    have close : (screen mode m₀).Draws _ _ := guiDrawButton_draws fb (w.x + w.width - 25) (w.y + 2) 20 20
      (State.bytes "X") GUI_COLOR_LIGHT_RED GUI_COLOR_WHITE
    have shown : guiDrawWindow mode w = fun m => _ := funext fun m => if_neg hidden
    rw [shown, windowShapes, if_neg hidden]
    exact (((back.comp edge).comp bar).comp title).comp close

/-- The windows that `gui_draw_desktop` paints are those that its walk over the list draws. -/
theorem paintDesktop_eq {g : State} (active : g.guiActive = true) (m : Memory) : paintDesktop mode g m =
    g.guiDrawDesktop.map fun drawn => drawn.foldl (fun m p => guiDrawWindow mode (g.windows p) m)
      (guiDrawTaskbar mode (guiClearScreen mode g.desktop.bgColor m)) := by
  have on : ¬ g.guiActive = false := by
    rw [active]
    decide
  rw [paintDesktop, State.guiDrawDesktop, if_neg on, if_neg on]
  generalize guiDrawTaskbar mode (guiClearScreen mode g.desktop.bgColor m) = base
  have together : Option.Rel (fun drawn m => m = drawn.foldl (fun m p => guiDrawWindow mode (g.windows p) m) base)
      (loop g.drawPass (g.desktop.windows, [])) (loop (paintPass mode g) (g.desktop.windows, base)) := by
    refine loop_simulation (R := fun a b => b.1 = a.1 ∧
      b.2 = a.2.foldl (fun m p => guiDrawWindow mode (g.windows p) m) base) ?_ ⟨rfl, rfl⟩
    rintro ⟨c, drawn⟩ ⟨c', m⟩ ⟨same, painted⟩
    dsimp only at same painted
    subst same painted
    cases c' with
    | none => exact .inr ⟨_, _, rfl, rfl, rfl⟩
    | some p =>
      refine .inl ⟨_, _, rfl, rfl, rfl, ?_⟩
      dsimp only
      split_ifs
      · rw [List.foldl_append]
        rfl
      · rfl
  generalize loop g.drawPass (g.desktop.windows, []) = walk at together ⊢
  generalize loop (paintPass mode g) (g.desktop.windows, base) = paint at together ⊢
  cases together with
  | some eq => rw [eq, Option.map_some]
  | none => rfl

/-- `gui_draw_desktop` returns, and paints the desktop with the windows of the list. -/
lemma paintDesktop_draws (fb : Framebuffer mode) {g : State} {l : List UInt32} (active : g.guiActive = true)
    (linked : Linked g.next g.desktop.windows l) : ∃ f : Memory → Memory, (∀ m, paintDesktop mode g m = some (f m)) ∧
      (screen mode m₀).Draws f (desktopShapes mode g.desktop.bgColor (l.map g.windows)) := by
  have hidden (m : Memory) (p : UInt32) :
      (if (g.windows p).visible ≠ 0 then guiDrawWindow mode (g.windows p) m else m) =
      guiDrawWindow mode (g.windows p) m := by
    split_ifs with visible
    · rfl
    · rw [guiDrawWindow, if_pos (not_not.mp visible)]
  have clear : (screen mode m₀).Draws _ _ := guiClearScreen_draws fb g.desktop.bgColor
  have windows : (screen mode m₀).Draws (fun m => l.foldl (fun m p => guiDrawWindow mode (g.windows p) m) m)
      ((l.map g.windows).flatMap windowShapes) := by
    rw [List.flatMap_map]
    exact .foldl fun p _ => guiDrawWindow_draws fb (g.windows p)
  refine ⟨_, fun m => ?_, (clear.comp (guiDrawTaskbar_draws fb)).comp windows⟩
  rw [paintDesktop_eq active, guiDrawDesktop_eq linked active, Option.map_some, List.foldl_filter]
  simp only [decide_eq_true_eq, hidden]

end RetaOS.Gui
