import RetaOS.Display.Defs
import Mathlib.Data.List.Basic

/-!
# Filled rectangles

`display_fill_rect` of `kernel/display.c`, which user code calls through `SYS_FB_RECT` with any position and size. It
clips the rectangle once, at `x + w` and `y + h` modulo 2³², and then puts its pixels as `display_set_pixel` does. A
rectangle that reaches over the end of the 32-bit numbers is not drawn, however much of it is on the screen
(`sysFbRect_filled_iff`).
-/

namespace RetaOS.Display
open Lib

/-! ## Pixels. -/

/-- The bytes that `put_pixel_linear` writes. -/
def colour (bpp : UInt8) (rgb : UInt32) : List UInt8 :=
  if bpp = 32 then
    [((rgb >>> 0) &&& 0xFF).toUInt8, ((rgb >>> 8) &&& 0xFF).toUInt8, ((rgb >>> 16) &&& 0xFF).toUInt8, 0xFF]
  else if bpp = 24 then
    [((rgb >>> 0) &&& 0xFF).toUInt8, ((rgb >>> 8) &&& 0xFF).toUInt8, ((rgb >>> 16) &&& 0xFF).toUInt8]
  else []

/-- `put_pixel_linear`. -/
def putPixelLinear (m : Memory) (fb pitch : UInt32) (bpp : UInt8) (x y rgb : UInt32) : Memory :=
  let off := y * pitch + x * (bpp / 8).toUInt32
  m.storeBytes (fb + off) (colour bpp rgb)

/-- `display_set_pixel`. -/
def displaySetPixel (currentMode : VideoMode) (m : Memory) (x y rgb : UInt32) : Memory :=
  if currentMode.addr = 0 then m
  else if x ≥ currentMode.width ∨ y ≥ currentMode.height then m
  else putPixelLinear m currentMode.addr currentMode.pitch currentMode.bpp.toUInt8 x y rgb

/-- `for (uint32_t i = start; i < stop; ++i)`. -/
def forRange (start stop : UInt32) (body : UInt32 → Memory → Memory) (m : Memory) : Memory :=
  (List.range' start.toNat (stop.toNat - start.toNat)).foldl (fun m i => body (UInt32.ofNat i) m) m

/-- `display_fill_rect`. -/
def displayFillRect (currentMode : VideoMode) (m : Memory) (x y w h rgb : UInt32) : Memory :=
  if currentMode.addr = 0 then m
  else
    let x2 := if x + w > currentMode.width then currentMode.width else x + w
    let y2 := if y + h > currentMode.height then currentMode.height else y + h
    let fb := currentMode.addr
    forRange y y2
      (fun yy => forRange x x2 fun xx m => putPixelLinear m fb currentMode.pitch currentMode.bpp.toUInt8 xx yy rgb) m

/-- `sys_fb_rect`. -/
def sysFbRect (currentMode : VideoMode) (m : Memory) (x y w h rgb : UInt32) : Int32 × Memory :=
  (0, displayFillRect currentMode m x y w h rgb)

/-! ## Rectangles. -/

/-- The numbers from `start` on, `size` of them, as far as they are below a bound. -/
def span (start size bound : UInt32) : List Nat :=
  List.range' start.toNat (min (start.toNat + size.toNat) bound.toNat - start.toNat)

/-- The pixels of a rectangle that are on the screen, row by row. -/
def rectangle (mode : VideoMode) (x y w h : UInt32) : List (UInt32 × UInt32) :=
  (span y h mode.height).flatMap fun j => (span x w mode.width).map fun i => (UInt32.ofNat i, UInt32.ofNat j)

/-- The address of a pixel. -/
def pixelAddr (mode : VideoMode) (p : UInt32 × UInt32) : UInt32 :=
  mode.addr + (p.2 * mode.pitch + p.1 * (mode.bpp.toUInt8 / 8).toUInt32)

/-- From the memory `m` to `m'`, exactly the pixels of a rectangle have been set: as by `display_set_pixel` one by one;
    no byte outside of them has changed; and where the framebuffer lies in the address space, so that its pixels do not
    meet, every pixel is as `display_set_pixel` alone makes it. -/
structure Filled (mode : VideoMode) (x y w h rgb : UInt32) (m m' : Memory) : Prop where
  slow : m' = (rectangle mode x y w h).foldl (fun m p => displaySetPixel mode m p.1 p.2 rgb) m
  frame : ∀ b : UInt32, (∀ p ∈ rectangle mode x y w h, mode.bpp.toNat / 8 ≤ (b - pixelAddr mode p).toNat) → m' b = m b
  value : mode.addr ≠ 0 → mode.addr.toNat + mode.height.toNat * mode.pitch.toNat ≤ 2 ^ 32 →
    ∀ p ∈ rectangle mode x y w h, ∀ b : UInt32, (b - pixelAddr mode p).toNat < mode.bpp.toNat / 8 →
      m' b = displaySetPixel mode m p.1 p.2 rgb b

variable {mode : VideoMode} {m : Memory} {x y w h rgb start size bound b : UInt32} {p q : UInt32 × UInt32}

lemma mem_span {i : Nat} :
    i ∈ span start size bound ↔ start.toNat ≤ i ∧ i < start.toNat + size.toNat ∧ i < bound.toNat := by
  rw [span, List.mem_range'_1]
  omega

/-- The pixels of a rectangle, with exact sums. -/
lemma mem_rectangle : p ∈ rectangle mode x y w h ↔
    (x.toNat ≤ p.1.toNat ∧ p.1.toNat < x.toNat + w.toNat ∧ p.1.toNat < mode.width.toNat) ∧
      y.toNat ≤ p.2.toNat ∧ p.2.toNat < y.toNat + h.toNat ∧ p.2.toNat < mode.height.toNat := by
  rw [rectangle, List.mem_flatMap]
  simp only [List.mem_map, mem_span]
  constructor
  · rintro ⟨j, rows, i, cols, rfl⟩
    have width := mode.width.toNat_lt
    have height := mode.height.toNat_lt
    rw [toNat_ofNat_lt (by omega), toNat_ofNat_lt (by omega)]
    exact ⟨cols, rows⟩
  · rintro ⟨cols, rows⟩
    exact ⟨p.2.toNat, rows, p.1.toNat, cols, by rw [UInt32.ofNat_toNat, UInt32.ofNat_toNat]⟩

/-! ## Drawing. -/

/-- Put pixels one after the other. -/
def drawn (mode : VideoMode) (rgb : UInt32) (m : Memory) (ps : List (UInt32 × UInt32)) : Memory :=
  (ps.map (pixelAddr mode)).foldl (fun m a => m.storeBytes a (colour mode.bpp.toUInt8 rgb)) m

/-- A pixel of the rectangle is on the screen, and is put. -/
lemma displaySetPixel_eq (addr : mode.addr ≠ 0) (mem : p ∈ rectangle mode x y w h) :
    displaySetPixel mode m p.1 p.2 rgb = m.storeBytes (pixelAddr mode p) (colour mode.bpp.toUInt8 rgb) := by
  obtain ⟨⟨-, -, width⟩, -, -, height⟩ := mem_rectangle.mp mem
  rw [displaySetPixel, if_neg addr, if_neg]
  · rfl
  · rw [ge_iff_le, ge_iff_le, UInt32.le_iff_toNat_le, UInt32.le_iff_toNat_le]
    omega

/-- Setting the pixels of the rectangle one by one. -/
lemma foldl_displaySetPixel (addr : mode.addr ≠ 0) :
    (rectangle mode x y w h).foldl (fun m p => displaySetPixel mode m p.1 p.2 rgb) m =
      drawn mode rgb m (rectangle mode x y w h) := by
  rw [drawn, List.foldl_map]
  exact List.foldl_ext _ _ m fun m p mem => displaySetPixel_eq addr mem

/-- A clipped sum that does not wrap is exact, and one that does is not above the start. -/
lemma range'_clipped : List.range' start.toNat
      ((if start + size > bound then bound else start + size).toNat - start.toNat) =
    if start.toNat + size.toNat < 2 ^ 32 then span start size bound else [] := by
  have clipped : (if start + size > bound then bound else start + size).toNat =
      min (start + size).toNat bound.toNat := by
    split_ifs with beyond
    · rw [gt_iff_lt, UInt32.lt_iff_toNat_lt] at beyond
      omega
    · rw [gt_iff_lt, UInt32.lt_iff_toNat_lt] at beyond
      omega
  have sum : (start + size).toNat = (start.toNat + size.toNat) % 2 ^ 32 := UInt32.toNat_add start size
  have lt := size.toNat_lt
  have lt' := start.toNat_lt
  rw [clipped]
  split_ifs with exact_
  · rw [span, sum, Nat.mod_eq_of_lt exact_]
  · have none : min (start + size).toNat bound.toNat - start.toNat = 0 := by omega
    rw [none]
    rfl

/-- No sum of the rectangle wraps. -/
def Exact (x y w h : UInt32) : Prop := x.toNat + w.toNat < 2 ^ 32 ∧ y.toNat + h.toNat < 2 ^ 32

instance : Decidable (Exact x y w h) := inferInstanceAs (Decidable (_ ∧ _))

/-- `display_fill_rect` draws the whole rectangle or nothing. -/
lemma displayFillRect_eq (addr : mode.addr ≠ 0) : displayFillRect mode m x y w h rgb =
    drawn mode rgb m (if Exact x y w h then rectangle mode x y w h else []) := by
  have nested (rows cols : List Nat) :
      rows.foldl (fun m j => cols.foldl (fun m i => putPixelLinear m mode.addr mode.pitch mode.bpp.toUInt8
        (UInt32.ofNat i) (UInt32.ofNat j) rgb) m) m =
      drawn mode rgb m (rows.flatMap fun j => cols.map fun i => (UInt32.ofNat i, UInt32.ofNat j)) := by
    rw [drawn, List.foldl_map, List.foldl_flatMap]
    simp only [List.foldl_map]
    rfl
  rw [displayFillRect, if_neg addr]
  dsimp only [forRange]
  rw [range'_clipped, range'_clipped, nested]
  congr 1
  by_cases both : Exact x y w h
  · rw [if_pos both, if_pos both.1, if_pos both.2]
    rfl
  · rw [if_neg both]
    by_cases cols : x.toNat + w.toNat < 2 ^ 32
    · rw [if_neg fun rows => both ⟨cols, rows⟩]
      rfl
    · rw [if_neg cols, List.flatMap_eq_nil_iff]
      exact fun _ _ => rfl

/-! ## What is drawn. -/

/-- A pixel is as many bytes as its depth says. -/
lemma colour_length (depth : mode.bpp = 24 ∨ mode.bpp = 32) (rgb : UInt32) :
    (colour mode.bpp.toUInt8 rgb).length = mode.bpp.toNat / 8 := by
  obtain eq | eq := depth
  · rw [eq, colour, if_neg (by decide), if_pos (by decide)]
    exact (by decide : 3 = (24 : UInt32).toNat / 8)
  · rw [eq, colour, if_pos (by decide)]
    exact (by decide : 4 = (32 : UInt32).toNat / 8)

/-- The number of bytes of a pixel, as `putPixelLinear` computes it. -/
lemma depth_bytes (depth : mode.bpp = 24 ∨ mode.bpp = 32) :
    8 ∣ mode.bpp.toNat ∧ 0 < mode.bpp.toNat / 8 ∧ (mode.bpp.toUInt8 / 8).toUInt32.toNat = mode.bpp.toNat / 8 := by
  obtain eq | eq := depth
  · rw [eq]
    exact ⟨by decide, by decide, rfl⟩
  · rw [eq]
    exact ⟨by decide, by decide, rfl⟩

/-- The place of a pixel in a framebuffer that lies in the address space. -/
lemma pixelAddr_toNat (depth : mode.bpp = 24 ∨ mode.bpp = 32)
    (pitch : mode.width.toNat * mode.bpp.toNat / 8 ≤ mode.pitch.toNat)
    (fits : mode.addr.toNat + mode.height.toNat * mode.pitch.toNat ≤ 2 ^ 32) (mem : p ∈ rectangle mode x y w h) :
    (pixelAddr mode p).toNat =
        mode.addr.toNat + p.2.toNat * mode.pitch.toNat + p.1.toNat * (mode.bpp.toNat / 8) ∧
      p.1.toNat * (mode.bpp.toNat / 8) + mode.bpp.toNat / 8 ≤ mode.pitch.toNat ∧
      (p.2.toNat + 1) * mode.pitch.toNat ≤ mode.height.toNat * mode.pitch.toNat := by
  obtain ⟨⟨-, -, width⟩, -, -, height⟩ := mem_rectangle.mp mem
  have row : (p.2.toNat + 1) * mode.pitch.toNat ≤ mode.height.toNat * mode.pitch.toNat :=
    Nat.mul_le_mul_right _ height
  obtain ⟨whole, pos, bytes⟩ := depth_bytes depth
  have col : p.1.toNat * (mode.bpp.toNat / 8) + mode.bpp.toNat / 8 ≤ mode.pitch.toNat := by
    rw [Nat.mul_div_assoc _ whole] at pitch
    rw [← Nat.succ_mul]
    exact Nat.le_trans (Nat.mul_le_mul_right _ width) pitch
  refine ⟨?_, col, row⟩
  rw [Nat.add_mul, Nat.one_mul] at row
  rw [pixelAddr, UInt32.toNat_add, UInt32.toNat_add, UInt32.toNat_mul, UInt32.toNat_mul, bytes]
  omega

/-- Different pixels have no byte in common. -/
lemma pixels_apart (depth : mode.bpp = 24 ∨ mode.bpp = 32)
    (pitch : mode.width.toNat * mode.bpp.toNat / 8 ≤ mode.pitch.toNat)
    (fits : mode.addr.toNat + mode.height.toNat * mode.pitch.toNat ≤ 2 ^ 32) (mem : p ∈ rectangle mode x y w h)
    (mem' : q ∈ rectangle mode x y w h) (inside : (b - pixelAddr mode p).toNat < mode.bpp.toNat / 8) (ne : q ≠ p) :
    Memory.Apart (pixelAddr mode q) (mode.bpp.toNat / 8) b 1 := by
  obtain ⟨place, col, row⟩ := pixelAddr_toNat depth pitch fits mem
  obtain ⟨place', col', row'⟩ := pixelAddr_toNat depth pitch fits mem'
  have low := (pixelAddr mode p).toNat_lt
  have byte : b.toNat = (pixelAddr mode p).toNat + (b - pixelAddr mode p).toNat := by
    have sum : b = b - pixelAddr mode p + pixelAddr mode p := (UInt32.sub_add_cancel b _).symm
    rw [Nat.add_mul, Nat.one_mul] at row
    rw [Nat.add_comm, ← toNat_add_of_lt (by omega), ← sum]
  rw [Nat.add_mul, Nat.one_mul] at row row'
  refine ⟨by omega, b.toNat_lt, ?_⟩
  -- the pixels are in different rows, or in one row and different columns
  rcases Nat.lt_trichotomy q.2.toNat p.2.toNat with rows | rows | rows
  · have above : (q.2.toNat + 1) * mode.pitch.toNat ≤ p.2.toNat * mode.pitch.toNat := Nat.mul_le_mul_right _ rows
    rw [Nat.add_mul, Nat.one_mul] at above
    omega
  · have cols : q.1.toNat ≠ p.1.toNat := fun eq =>
      ne (Prod.ext (UInt32.toNat_inj.mp eq) (UInt32.toNat_inj.mp rows))
    rw [rows] at place'
    rcases Nat.lt_or_gt_of_ne cols with lt | lt
    · have before : (q.1.toNat + 1) * (mode.bpp.toNat / 8) ≤ p.1.toNat * (mode.bpp.toNat / 8) :=
        Nat.mul_le_mul_right _ lt
      rw [Nat.add_mul, Nat.one_mul] at before
      omega
    · have behind : (p.1.toNat + 1) * (mode.bpp.toNat / 8) ≤ q.1.toNat * (mode.bpp.toNat / 8) :=
        Nat.mul_le_mul_right _ lt
      rw [Nat.add_mul, Nat.one_mul] at behind
      omega
  · have below : (p.2.toNat + 1) * mode.pitch.toNat ≤ q.2.toNat * mode.pitch.toNat := Nat.mul_le_mul_right _ rows
    rw [Nat.add_mul, Nat.one_mul] at below
    omega

/-- Drawing the rectangle is what `display_fill_rect` is to do. -/
lemma drawn_filled (depth : mode.bpp = 24 ∨ mode.bpp = 32)
    (pitch : mode.width.toNat * mode.bpp.toNat / 8 ≤ mode.pitch.toNat) (addr : mode.addr ≠ 0) :
    Filled mode x y w h rgb m (drawn mode rgb m (rectangle mode x y w h)) := by
  have length := colour_length depth rgb
  refine ⟨(foldl_displaySetPixel addr).symm, fun b out => ?_, fun _ fits p mem b inside => ?_⟩
  · refine Memory.foldl_storeBytes_outside fun a mem => ?_
    obtain ⟨p, on, rfl⟩ := List.mem_map.mp mem
    rw [length]
    exact out p on
  · rw [displaySetPixel_eq addr mem]
    refine Memory.foldl_storeBytes_inside (a := pixelAddr mode p) (fun m' => ?_) (fun a mem' => ?_)
      (.inl (List.mem_map_of_mem mem))
    · rw [Memory.storeBytes, Memory.storeBytes, List.getD_eq_getElem _ _ (by omega),
        List.getD_eq_getElem _ _ (by omega)]
    · obtain ⟨q, on, rfl⟩ := List.mem_map.mp mem'
      by_cases eq : q = p
      · exact .inl (by rw [eq])
      · rw [length]
        exact .inr (pixels_apart depth pitch fits mem on inside eq)

/-- Where a rectangle has a pixel on the screen, drawing nothing is not: there is a memory that it leaves wrong. -/
lemma not_filled (depth : mode.bpp = 24 ∨ mode.bpp = 32) (addr : mode.addr ≠ 0) (some_ : rectangle mode x y w h ≠ []) :
    ∃ m, ¬ Filled mode x y w h rgb m m := by
  have length := colour_length depth rgb
  obtain ⟨-, pos, -⟩ := depth_bytes depth
  obtain ⟨c, cs, eq⟩ := List.exists_cons_of_length_pos (l := colour mode.bpp.toUInt8 rgb) (by omega)
  refine ⟨fun _ => c + 1, fun filled => ?_⟩
  have slow := filled.slow
  -- the last pixel that is drawn keeps its first byte
  rw [foldl_displaySetPixel addr, ← List.dropLast_append_getLast some_, drawn, List.map_append, List.foldl_append,
    List.map_singleton, List.foldl_cons, List.foldl_nil] at slow
  have byte := congrFun slow (pixelAddr mode ((rectangle mode x y w h).getLast some_))
  rw [Memory.storeBytes, UInt32.sub_self, eq] at byte
  have same : c + 1 = c := byte
  have number := congrArg UInt8.toNat same
  rw [UInt8.toNat_add] at number
  change (c.toNat + 1) % 256 = c.toNat at number
  omega

/-- A rectangle has no pixel on the screen when it is empty or outside. -/
lemma rectangle_eq_nil_iff :
    rectangle mode x y w h = [] ↔ ¬ (x < mode.width ∧ 0 < w ∧ y < mode.height ∧ 0 < h) := by
  simp only [UInt32.lt_iff_toNat_lt]
  constructor
  · rintro none ⟨width, w_, height, h_⟩
    have corner : (x, y) ∈ rectangle mode x y w h := by
      rw [mem_rectangle]
      change 0 < w.toNat at w_
      change 0 < h.toNat at h_
      dsimp only
      omega
    rw [none] at corner
    cases corner
  · intro outside
    rw [List.eq_nil_iff_forall_not_mem]
    intro p mem
    obtain ⟨cols, rows⟩ := mem_rectangle.mp mem
    refine outside ⟨by omega, ?_, by omega, ?_⟩
    · change 0 < w.toNat
      omega
    · change 0 < h.toNat
      omega

/-- `SYS_FB_RECT` fills the part of a rectangle that is on the screen exactly when there is no such part, or when
    neither `x + w` nor `y + h` wraps. -/
theorem sysFbRect_filled_iff (mode : VideoMode) (depth : mode.bpp = 24 ∨ mode.bpp = 32)
    (pitch : mode.width.toNat * mode.bpp.toNat / 8 ≤ mode.pitch.toNat) (x y w h rgb : UInt32) :
    (∀ m, Filled mode x y w h rgb m (sysFbRect mode m x y w h rgb).2) ↔
      mode.addr = 0 ∨ ¬ (x < mode.width ∧ 0 < w ∧ y < mode.height ∧ 0 < h) ∨
        x.toNat + w.toNat < 2 ^ 32 ∧ y.toNat + h.toNat < 2 ^ 32 := by
  rw [← rectangle_eq_nil_iff, ← Exact]
  by_cases addr : mode.addr = 0
  · refine iff_of_true (fun m => ?_) (.inl addr)
    have nothing : (sysFbRect mode m x y w h rgb).2 = m := by
      rw [sysFbRect, displayFillRect, if_pos addr]
    have set (m : Memory) (p : UInt32 × UInt32) : displaySetPixel mode m p.1 p.2 rgb = m := by
      rw [displaySetPixel, if_pos addr]
    rw [nothing]
    refine ⟨?_, fun _ _ => rfl, fun ne => absurd addr ne⟩
    exact (List.foldl_fixed' (fun p => set m p) _).symm
  by_cases exact_ : Exact x y w h
  · refine iff_of_true (fun m => ?_) (.inr (.inr exact_))
    rw [sysFbRect, displayFillRect_eq addr, if_pos exact_]
    exact drawn_filled depth pitch addr
  by_cases none : rectangle mode x y w h = []
  · refine iff_of_true (fun m => ?_) (.inr (.inl none))
    have filled : Filled mode x y w h rgb m (drawn mode rgb m (rectangle mode x y w h)) := drawn_filled depth pitch addr
    rw [sysFbRect, displayFillRect_eq addr, if_neg exact_]
    rwa [none] at filled
  · refine iff_of_false (fun all => ?_) (by tauto)
    obtain ⟨m, wrong⟩ : ∃ m, ¬ Filled mode x y w h rgb m m := not_filled depth addr none
    have filled := all m
    rw [sysFbRect, displayFillRect_eq addr, if_neg exact_] at filled
    exact wrong filled

/-- A framebuffer of 4x4 pixels. -/
def smallMode : VideoMode := ⟨4, 4, 16, 32, 0x100000⟩

/-- A rectangle of which one pixel is on the screen. -/
theorem sysFbRect_filled_corner : Filled smallMode 3 3 2 2 0xFF0000 (fun _ => 0)
    (sysFbRect smallMode (fun _ => 0) 3 3 2 2 0xFF0000).2 :=
  (sysFbRect_filled_iff smallMode (.inr rfl) (by decide) 3 3 2 2 0xFF0000).mpr (.inr (.inr (by decide))) fun _ => 0

/-- A rectangle that reaches to the right as far as it can. -/
theorem sysFbRect_wraps : (sysFbRect smallMode (fun _ => 0) 1 0 0xFFFFFFFF 1 0xFF0000).2 = (fun _ => 0) ∧
    ¬ Filled smallMode 1 0 0xFFFFFFFF 1 0xFF0000 (fun _ => 0)
      (sysFbRect smallMode (fun _ => 0) 1 0 0xFFFFFFFF 1 0xFF0000).2 := by
  have nothing : (sysFbRect smallMode (fun _ => 0) 1 0 0xFFFFFFFF 1 0xFF0000).2 = fun _ => 0 := by
    rw [sysFbRect, displayFillRect_eq (by decide), if_neg (by decide)]
    rfl
  refine ⟨nothing, fun filled => ?_⟩
  rw [nothing] at filled
  have pixel := filled.value (by decide) (by decide) (1, 0) (mem_rectangle.mpr (by decide)) (0x100000 + 6) (by decide)
  exact absurd pixel (by decide)

end RetaOS.Display
