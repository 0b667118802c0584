import RetaOS.Console.Defs

/-!
# The console as a window

A terminal that never scrolls: rows of characters without end, on which the characters of `console_putc` have the same
effect. The console shows its last 25 rows, each cell of it a word with the attribute in the high byte and the
character of the terminal in the low one. `Window` relates the two by the number of rows that have been scrolled out;
`putc_window` is one character, and `console_window` the induction over the output.
-/

namespace RetaOS.Console
open Lib

/-- A terminal of unbounded height. -/
structure Terminal where
  cells : Nat → Nat → UInt8
  x : Nat
  y : Nat

namespace Terminal

/-- The terminal before any output. -/
def blank : Terminal := { cells := fun _ _ => 0x20, x := 0, y := 0 }

/-- Put a character at the cursor. -/
def store (t : Terminal) (ch : UInt8) : Terminal :=
  { t with cells := Function.update t.cells t.y (Function.update (t.cells t.y) t.x ch) }

/-- Move the cursor or store a character at it. -/
def put (t : Terminal) (ch : UInt8) : Terminal :=
  if ch = 0x0A then { t with x := 0, y := t.y + 1 }
  else if ch = 0x0D then { t with x := 0 }
  else if ch = 0x09 then { t with x := (t.x / 8 + 1) * 8 }
  else if 0x20 ≤ ch ∧ ch ≤ 0x7F then { t.store ch with x := t.x + 1 }
  else t

/-- Go to the next row at the end of one. -/
def wrap (t : Terminal) : Terminal := if t.x ≥ 80 then { t with x := 0, y := t.y + 1 } else t

/-- A character of output. -/
def putc (t : Terminal) (ch : UInt8) : Terminal := (t.put ch).wrap

/-- A sequence of characters. -/
def puts (t : Terminal) (str : List UInt8) : Terminal := str.foldl putc t

lemma le_put (t : Terminal) (ch : UInt8) : t.y ≤ (t.put ch).y := by
  fun_cases put t ch with
  | case1 => exact Nat.le_succ _
  | case2 => exact le_rfl
  | case3 => exact le_rfl
  | case4 => exact le_rfl
  | case5 => exact le_rfl

/-- The cursor never moves up. -/
lemma le_putc (t : Terminal) (ch : UInt8) : t.y ≤ (t.putc ch).y := by
  have first := le_put t ch
  rw [putc, wrap]
  split
  · exact first.trans (Nat.le_succ _)
  · exact first

end Terminal

variable {c c' : State} {g : Nat → UInt16} {attr : UInt8} {t : Terminal} {ch : UInt8} {n s : Nat}

/-! ## The loops. -/

/-- An invariant of a loop. -/
lemma forRange_invariant {I : Nat → State → Prop} {body : UInt32 → State → State} {start stop : Nat}
    (le : start ≤ stop) (first : I start c)
    (next : ∀ i c, start ≤ i → i < stop → I i c → I (i + 1) (body (UInt32.ofNat i) c)) :
    I stop (forRange start stop body c) := by
  have upTo : ∀ k, start + k ≤ stop →
      I (start + k) ((List.range' start k).foldl (fun c i => body (UInt32.ofNat i) c) c) := by
    intro k
    induction k with
    | zero => exact fun _ => first
    | succ k ih =>
      intro bound
      rw [List.range'_concat, List.foldl_append, Nat.one_mul]
      exact next _ _ (Nat.le_add_right _ _) (Nat.lt_of_lt_of_le (Nat.lt_succ_self _) bound)
        (ih (Nat.le_of_succ_le bound))
  have all := upTo (stop - start) (by omega)
  rwa [Nat.add_sub_cancel' le] at all

/-- The index of a cell. -/
def index (y x : Nat) : Nat := y * 80 + x

lemma index_lt {r k : Nat} (hr : r < 25) (hk : k < 80) : index r k < 2000 := by
  rw [index]
  omega

lemma toNat_ofNat_index {r k : Nat} (hr : r < 25) (hk : k < 80) :
    (UInt32.ofNat (index r k)).toNat = index r k := by
  have lt := index_lt hr hk
  exact toNat_ofNat_lt (by omega)

lemma toNat_index {x y : UInt32} (hy : y.toNat < 25) (hx : x.toNat < 80) :
    (y * CONSOLE_WIDTH + x).toNat = index y.toNat x.toNat := by
  have product : (y * CONSOLE_WIDTH).toNat = y.toNat * 80 := by
    rw [UInt32.toNat_mul, Nat.mod_eq_of_lt (by rw [show CONSOLE_WIDTH.toNat = 80 from rfl]; omega)]
    rfl
  rw [toNat_add_of_lt (by omega), product, index]

/-- The cells from `lo` on have been filled with `g` up to `n`, and nothing else has changed. -/
structure Filled (c : State) (lo : Nat) (g : Nat → UInt16) (n : Nat) (c' : State) : Prop where
  filled : ∀ i : UInt32, lo ≤ i.toNat → i.toNat < n → c'.vgaBuffer i = g i.toNat
  rest : ∀ i : UInt32, i.toNat < lo ∨ n ≤ i.toNat → c'.vgaBuffer i = c.vgaBuffer i
  globals : c' = { c with vgaBuffer := c'.vgaBuffer }

lemma Filled.start {lo : Nat} (c : State) (g : Nat → UInt16) : Filled c lo g lo c := by
  refine ⟨fun i ge lt => ?_, fun _ _ => rfl, rfl⟩
  omega

/-- Filling the next cell. -/
lemma Filled.store {lo : Nat} {i : UInt32} (filled : Filled c lo g n c') (at_ : i.toNat = n) (ge : lo ≤ n) :
    Filled c lo g (n + 1) (c'.store i (g n)) := by
  refine ⟨fun j lo_le lt => ?_, fun j out => ?_, ?_⟩
  · by_cases eq : j = i
    · rw [eq, at_]
      exact Function.update_self ..
    · have ne : j.toNat ≠ n := fun same => eq (UInt32.toNat_inj.mp (same.trans at_.symm))
      exact (Function.update_of_ne eq _ _).trans (filled.filled j lo_le (by omega))
  · have ne : j ≠ i := by
      rintro rfl
      omega
    exact (Function.update_of_ne ne _ _).trans (filled.rest j (by omega))
  · rw [filled.globals]
    rfl

/-- Filling the rows of a range, whose cells lie `off` rows above. -/
lemma Filled.rows {off : Nat} (stop : Nat) {body : UInt32 → UInt32 → State → State} (le : off ≤ stop)
    (next : ∀ y x c', off ≤ y → y < stop → x < 80 → Filled c 0 g (index (y - off) x) c' →
      Filled c 0 g (index (y - off) x + 1) (body (UInt32.ofNat y) (UInt32.ofNat x) c')) :
    Filled c 0 g (index (stop - off) 0) (forRange off stop (fun y => forRange 0 80 (body y)) c) := by
  refine forRange_invariant (I := fun y => Filled c 0 g (index (y - off) 0)) le ?_ fun y d ge lt rows => ?_
  · rw [Nat.sub_self]
    exact Filled.start c g
  · have row : Filled c 0 g (index (y - off) 80) (forRange 0 80 (body (UInt32.ofNat y)) d) := by
      refine forRange_invariant (I := fun x => Filled c 0 g (index (y - off) x)) (Nat.zero_le _) rows ?_
      exact fun x e _ hx cells => next y x e ge lt hx cells
    have wraps : index (y + 1 - off) 0 = index (y - off) 80 := by
      rw [index, index]
      omega
    rw [wraps]
    exact row

lemma clearRows_filled (c : State) : Filled c 0 (fun _ => blank c.attr) 2000 (clearRows c) := by
  refine Filled.rows 25 (Nat.zero_le _) fun y x d _ hy hx filled => ?_
  have hy' : (UInt32.ofNat y).toNat = y := toNat_ofNat_lt (by omega)
  have hx' : (UInt32.ofNat x).toNat = x := toNat_ofNat_lt (by omega)
  have attr : d.attr = c.attr := by rw [filled.globals]
  rw [attr]
  refine filled.store ?_ (Nat.zero_le _)
  rw [toNat_index (by omega) (by omega), hy', hx', Nat.sub_zero]

lemma moveRows_filled (c : State) :
    Filled c 0 (fun i => c.vgaBuffer (UInt32.ofNat i + 80)) 1920 (moveRows c) := by
  refine Filled.rows 25 (show 1 ≤ 25 by decide) fun y x d hy0 hy hx filled => ?_
  have hy' : (UInt32.ofNat y).toNat = y := toNat_ofNat_lt (by omega)
  have hx' : (UInt32.ofNat x).toNat = x := toNat_ofNat_lt (by omega)
  have above : (UInt32.ofNat y - 1).toNat = y - 1 := by
    rw [sub_toNat_of_le (by rw [hy']; exact hy0), hy']
    rfl
  have source : (UInt32.ofNat y * CONSOLE_WIDTH + UInt32.ofNat x).toNat = index y x := by
    rw [toNat_index (by omega) (by omega), hy', hx']
  have next : index (y - 1) x + 80 = index y x := by
    rw [index, index]
    omega
  have small : index y x < 2000 := by
    rw [index]
    omega
  have below : UInt32.ofNat y * CONSOLE_WIDTH + UInt32.ofNat x = UInt32.ofNat (index (y - 1) x) + 80 := by
    apply UInt32.toNat_inj.mp
    have lower : (UInt32.ofNat (index (y - 1) x)).toNat = index (y - 1) x := toNat_ofNat_lt (by omega)
    have sum : (UInt32.ofNat (index (y - 1) x) + 80).toNat = index (y - 1) x + 80 := by
      refine (toNat_add_ofNat (a := UInt32.ofNat (index (y - 1) x)) (n := 80) (by omega)).trans ?_
      rw [lower]
    rw [source, sum, next]
  -- the row below has not been overwritten yet
  have kept := filled.rest (UInt32.ofNat y * CONSOLE_WIDTH + UInt32.ofNat x) (.inr (by rw [source]; omega))
  rw [kept, below]
  refine filled.store ?_ (Nat.zero_le _)
  rw [toNat_index (by omega) (by omega), above, hx']

lemma clearLastLine_filled (c : State) : Filled c 1920 (fun _ => blank c.attr) 2000 (clearLastLine c) := by
  show Filled c 1920 (fun _ => blank c.attr) (1920 + 80)
    (forRange 0 80 (fun x c => c.store ((CONSOLE_HEIGHT - 1) * CONSOLE_WIDTH + x) (blank c.attr)) c)
  refine forRange_invariant (I := fun x => Filled c 1920 (fun _ => blank c.attr) (1920 + x)) (Nat.zero_le 80)
    (Filled.start c _) fun x d _ hx filled => ?_
  have hx' : (UInt32.ofNat x).toNat = x := toNat_ofNat_lt (by omega)
  have attr : d.attr = c.attr := by rw [filled.globals]
  rw [attr]
  refine filled.store ?_ (Nat.le_add_right _ _)
  have start : ((CONSOLE_HEIGHT - 1) * CONSOLE_WIDTH).toNat = 1920 := by decide
  rw [toNat_add_of_lt (by omega), start, hx']

/-- `console_clear` fills the screen with blanks. -/
lemma consoleClear_spec (c : State) : (consoleClear c).attr = c.attr ∧
    (∀ i : UInt32, i.toNat < 2000 → (consoleClear c).vgaBuffer i = blank c.attr) ∧
    ∀ i : UInt32, 2000 ≤ i.toNat → (consoleClear c).vgaBuffer i = c.vgaBuffer i := by
  have cells := clearRows_filled c
  rw [consoleClear]
  generalize clearRows c = d at cells ⊢
  refine ⟨?_, fun i lt => cells.filled i (Nat.zero_le _) lt, fun i ge => cells.rest i (.inr ge)⟩
  show d.attr = _
  rw [cells.globals]

/-- `console_scroll` moves the rows up and clears the last. -/
lemma consoleScroll_spec (c : State) (y : 0 < c.y) : (consoleScroll c).x = c.x ∧ (consoleScroll c).attr = c.attr ∧
    (consoleScroll c).y = c.y - 1 ∧
    (∀ i : UInt32, i.toNat < 1920 → (consoleScroll c).vgaBuffer i = c.vgaBuffer (i + 80)) ∧
    (∀ i : UInt32, 1920 ≤ i.toNat → i.toNat < 2000 → (consoleScroll c).vgaBuffer i = blank c.attr) ∧
    ∀ i : UInt32, 2000 ≤ i.toNat → (consoleScroll c).vgaBuffer i = c.vgaBuffer i := by
  have moved := moveRows_filled c
  have cleared := clearLastLine_filled (moveRows c)
  rw [consoleScroll]
  generalize moveRows c = d at moved cleared ⊢
  generalize clearLastLine d = e at cleared ⊢
  have attr : d.attr = c.attr := by rw [moved.globals]
  have globals : e = { c with vgaBuffer := e.vgaBuffer } := by rw [cleared.globals, moved.globals]
  have row : e.y = c.y := by rw [globals]
  rw [if_pos (by rw [row]; exact y), row]
  refine ⟨by rw [globals], by rw [globals], rfl, fun i lt => ?_, fun i ge lt => ?_, fun i ge => ?_⟩
  · rw [cleared.rest i (.inl lt), moved.filled i (Nat.zero_le _) lt, UInt32.ofNat_toNat]
  · rw [cleared.filled i ge lt, attr]
  · rw [cleared.rest i (.inr ge), moved.rest i (.inr (by omega))]

/-! ## The window. -/

/-- The cell of the console in a row and a column. -/
def State.at (c : State) (r k : Nat) : UInt16 := c.vgaBuffer (UInt32.ofNat (index r k))

/-- The word that shows a character. -/
def Glyph (attr ch : UInt8) (w : UInt16) : Prop := w.toNat = attr.toNat * 256 + ch.toNat

/-- The console shows the terminal from row `s` on, where the rows below it are blank. -/
structure Shows (attr : UInt8) (s : Nat) (c : State) (t : Terminal) : Prop where
  color : c.attr = attr
  cells : ∀ r < 25, ∀ k < 80, Glyph attr (t.cells (s + r) k) (c.at r k)
  below : ∀ r, s + 25 ≤ r → ∀ k, t.cells r k = 0x20
  x : c.x.toNat = t.x
  y : s + c.y.toNat = t.y

/-- The console between two calls. The rows above the last 25 down to the cursor are scrolled out. -/
structure Window (attr : UInt8) (s : Nat) (c : State) (t : Terminal) : Prop extends Shows attr s c t where
  width : c.x.toNat < 80
  height : c.y.toNat < 25
  bottom : s = t.y - 24

/-- The cell that `console.c` makes of a character. -/
lemma cell_glyph (attr ch : UInt8) : Glyph attr ch (cell attr ch) := by
  have high := attr.toNat_lt
  have low := ch.toNat_lt
  have shift : (attr.toUInt16 <<< 8).toNat = 2 ^ 8 * attr.toNat := by
    rw [UInt16.toNat_shiftLeft, UInt8.toNat_toUInt16]
    change attr.toNat <<< 8 % 2 ^ 16 = _
    rw [Nat.shiftLeft_eq, Nat.mod_eq_of_lt (by omega), Nat.mul_comm]
  rw [Glyph, cell, UInt16.toNat_or, shift, UInt8.toNat_toUInt16, ← Nat.two_pow_add_eq_or_of_lt low, Nat.mul_comm]

/-- The blank is the cell of a space. -/
lemma blank_glyph (attr : UInt8) : Glyph attr 0x20 (blank attr) := cell_glyph attr 0x20

/-- The characters that are stored, `char` being signed. -/
lemma printable_iff (ch : UInt8) : ch.toInt8 ≥ 0x20 ↔ 0x20 ≤ ch ∧ ch ≤ 0x7F := by
  have lt := ch.toNat_lt
  have value : ch.toInt8.toInt = (ch.toNat : Int).bmod 256 := BitVec.toInt_eq_toNat_bmod ch.toBitVec
  rw [ge_iff_le, Int8.le_iff_toInt_le, value, UInt8.le_iff_toNat_le, UInt8.le_iff_toNat_le]
  show 32 ≤ (ch.toNat : Int).bmod 256 ↔ 32 ≤ ch.toNat ∧ ch.toNat ≤ 127
  rw [Int.bmod_def]
  split <;> omega

/-- The next multiple of eight. -/
lemma toNat_tab {x : UInt32} (h : x.toNat < 80) : ((x + 8) &&& ~~~7).toNat = (x.toNat / 8 + 1) * 8 := by
  have sum : (x + 8).toNat = x.toNat + 8 := toNat_add_ofNat (a := x) (n := 8) (by omega)
  have mask : ((x + 8) &&& ~~~7).toNat = roundDown 8 (x + 8).toNat := toNat_and_not_mask (x + 8) (k := 3) (by decide)
  rw [mask, sum, roundDown]
  omega

lemma at_store {r k : Nat} {i : UInt32} {v : UInt16} (hr : r < 25) (hk : k < 80) :
    (c.store i v).at r k = if i.toNat = index r k then v else c.at r k := by
  have same : UInt32.ofNat (index r k) = i ↔ i.toNat = index r k := by
    rw [← UInt32.toNat_inj, toNat_ofNat_index hr hk, eq_comm]
  show Function.update c.vgaBuffer i v (UInt32.ofNat (index r k)) = _
  rw [Function.update_apply]
  simp only [same]
  rfl

/-- Storing a cell at the cursor. -/
lemma store_shows (w : Window attr s c t) {v : UInt16} (glyph : Glyph attr ch v) :
    Shows attr s (c.store (c.y * CONSOLE_WIDTH + c.x) v) (t.store ch) := by
  obtain ⟨⟨color, cells, below, hx, hy⟩, width, height, -⟩ := w
  refine ⟨color, fun r hr k hk => ?_, fun r hr k => ?_, hx, hy⟩
  · rw [at_store hr hk, toNat_index height width]
    show Glyph attr (Function.update t.cells t.y (Function.update (t.cells t.y) t.x ch) (s + r) k) _
    by_cases row : r = c.y.toNat
    · have same : s + r = t.y := by rw [row, hy]
      rw [same, Function.update_self, Function.update_apply, ← same]
      by_cases column : k = t.x
      · have here : index c.y.toNat c.x.toNat = index r k := by rw [row, hx, column]
        rw [if_pos here, if_pos column]
        exact glyph
      · have apart : index c.y.toNat c.x.toNat ≠ index r k := by
          rw [index, index]
          omega
        rw [if_neg apart, if_neg column]
        exact cells r hr k hk
    · have ne : s + r ≠ t.y := by omega
      have apart : index c.y.toNat c.x.toNat ≠ index r k := by
        rw [index, index]
        omega
      rw [if_neg apart, Function.update_of_ne ne]
      exact cells r hr k hk
  · have ne : r ≠ t.y := by omega
    show Function.update t.cells t.y _ r k = _
    rw [Function.update_of_ne ne, below r hr k]

/-- A character before the edges are handled: the cursor may have come to the end of its row, or below the screen. -/
lemma put_shows (w : Window attr s c t) (ch : UInt8) : Shows attr s (c.put ch) (t.put ch) ∧
    (c.put ch).x.toNat ≤ 80 ∧ (c.put ch).y.toNat ≤ 25 ∧ ((c.put ch).x.toNat = 80 → (c.put ch).y.toNat < 25) := by
  have stored := store_shows w (cell_glyph attr ch)
  obtain ⟨⟨color, cells, below, hx, hy⟩, width, height, -⟩ := w
  rw [State.put, Terminal.put]
  have down : (c.y + 1).toNat = c.y.toNat + 1 := toNat_add_ofNat (a := c.y) (n := 1) (by omega)
  split
  · case isTrue newline =>
    refine ⟨⟨color, cells, below, rfl, ?_⟩, ?_, ?_, ?_⟩
    · show s + (c.y + 1).toNat = t.y + 1
      omega
    · exact Nat.zero_le _
    · show (c.y + 1).toNat ≤ 25
      omega
    · intro eq
      cases eq
  · split
    · case isTrue ret =>
      refine ⟨⟨color, cells, below, rfl, hy⟩, Nat.zero_le _, height.le, fun _ => height⟩
    · split
      · case isTrue tab =>
        have stop := toNat_tab width
        refine ⟨⟨color, cells, below, ?_, hy⟩, ?_, height.le, fun _ => height⟩
        · show ((c.x + 8) &&& ~~~7).toNat = (t.x / 8 + 1) * 8
          rw [stop, hx]
        · show ((c.x + 8) &&& ~~~7).toNat ≤ 80
          omega
      · by_cases printable : 0x20 ≤ ch ∧ ch ≤ 0x7F
        · rw [if_pos ((printable_iff ch).mpr printable), if_pos printable]
          have right : (c.x + 1).toNat = c.x.toNat + 1 := toNat_add_ofNat (a := c.x) (n := 1) (by omega)
          rw [color]
          refine ⟨⟨stored.color, stored.cells, stored.below, ?_, hy⟩, ?_, height.le, fun _ => height⟩
          · show (c.x + 1).toNat = t.x + 1
            omega
          · show (c.x + 1).toNat ≤ 80
            omega
        · rw [if_neg (mt (printable_iff ch).mp printable), if_neg printable]
          exact ⟨⟨color, cells, below, hx, hy⟩, width.le, height.le, fun _ => height⟩

/-- The end of a row. -/
lemma wrap_shows (shows' : Shows attr s c t) (hx : c.x.toNat ≤ 80) (hy : c.y.toNat ≤ 25)
    (edge : c.x.toNat = 80 → c.y.toNat < 25) :
    Shows attr s c.wrap t.wrap ∧ c.wrap.x.toNat < 80 ∧ c.wrap.y.toNat ≤ 25 := by
  have width : c.x ≥ CONSOLE_WIDTH ↔ t.x ≥ 80 := by
    rw [ge_iff_le, UInt32.le_iff_toNat_le, shows'.x]
    rfl
  rw [State.wrap, Terminal.wrap]
  by_cases full : t.x ≥ 80
  · have last : c.x.toNat = 80 := Nat.le_antisymm hx (shows'.x ▸ full)
    have down : (c.y + 1).toNat = c.y.toNat + 1 := toNat_add_ofNat (a := c.y) (n := 1) (by omega)
    rw [if_pos full, if_pos (width.mpr full)]
    refine ⟨⟨shows'.color, shows'.cells, shows'.below, rfl, ?_⟩, show (0 : UInt32).toNat < 80 by decide, ?_⟩
    · show s + (c.y + 1).toNat = t.y + 1
      rw [down, ← shows'.y, Nat.add_assoc]
    · exact down.le.trans (edge last)
  · rw [if_neg full, if_neg (mt width.mp full)]
    refine ⟨shows', ?_, hy⟩
    rw [shows'.x]
    exact Nat.lt_of_not_le full

/-- The bottom of the screen. -/
lemma scroll_window (shows' : Shows attr s c t) (hx : c.x.toNat < 80) (hy : c.y.toNat = 25) :
    Window attr (s + 1) (consoleScroll c) t := by
  have pos : 0 < c.y := by
    rw [UInt32.lt_iff_toNat_lt, hy]
    decide
  obtain ⟨x, color, y, moved, last, -⟩ := consoleScroll_spec c pos
  have up : (consoleScroll c).y.toNat = 24 := by
    rw [y, sub_toNat_of_le (by rw [hy]; decide), hy]
    rfl
  refine ⟨⟨color.trans shows'.color, fun r hr k hk => ?_, fun r hr k => ?_, ?_, ?_⟩, ?_, ?_, ?_⟩
  · have small := toNat_ofNat_index hr hk
    by_cases bottom : r = 24
    · rw [State.at, last _ (by rw [small, index]; omega) (by rw [small, index]; omega), shows'.color,
        shows'.below _ (by omega) k]
      exact blank_glyph attr
    · have next : UInt32.ofNat (index r k) + 80 = UInt32.ofNat (index (r + 1) k) := by
        rw [show index (r + 1) k = index r k + 80 by rw [index, index]; omega, UInt32.ofNat_add]
        rfl
      rw [State.at, moved _ (by rw [small, index]; omega), next, Nat.add_assoc, Nat.add_comm 1 r]
      exact shows'.cells (r + 1) (by omega) k hk
  · exact shows'.below r (by omega) k
  · rw [x]
    exact shows'.x
  · rw [up, ← shows'.y, hy]
  · rw [x]
    exact hx
  · rw [up]
    decide
  · have row := shows'.y
    omega

/-- `console_putc` is a character of output, seen through a window that a scroll moves on by a row. -/
theorem putc_window (w : Window attr s c t) (ch : UInt8) :
    Window attr (s + if c.Scrolls ch then 1 else 0) (consolePutc c ch) (t.putc ch) := by
  obtain ⟨put, hx, hy, edge⟩ := put_shows w ch
  obtain ⟨wrapped, width, height⟩ := wrap_shows put hx hy edge
  have bottom : c.Scrolls ch ↔ 25 ≤ (c.put ch).wrap.y.toNat := by
    rw [State.Scrolls, ge_iff_le, UInt32.le_iff_toNat_le]
    rfl
  rw [consolePutc]
  split
  · case isTrue scrolls => exact scroll_window wrapped width (Nat.le_antisymm height (bottom.mp scrolls))
  · case isFalse stays =>
    have room := Nat.lt_of_not_le (mt bottom.mpr stays)
    have le := t.le_putc ch
    have rows := w.bottom
    have row := wrapped.y
    refine ⟨wrapped, width, room, ?_⟩
    rw [Terminal.putc] at le ⊢
    omega

/-- A cleared console shows an empty terminal. -/
lemma consoleClear_window (c : State) : Window c.attr 0 (consoleClear c) .blank := by
  obtain ⟨color, cells, -⟩ := consoleClear_spec c
  refine ⟨⟨color, fun r hr k hk => ?_, fun _ _ _ => rfl, rfl, rfl⟩, ?_, ?_, rfl⟩
  · rw [State.at, cells _ (by rw [toNat_ofNat_index hr hk]; exact index_lt hr hk)]
    exact blank_glyph c.attr
  · show (0 : UInt32).toNat < 80
    decide
  · show (0 : UInt32).toNat < 25
    decide

/-- `console_putc` leaves the memory behind the screen alone. -/
lemma putc_outside (w : Window attr s c t) (ch : UInt8) {i : UInt32} (out : 2000 ≤ i.toNat) :
    (consolePutc c ch).vgaBuffer i = c.vgaBuffer i := by
  have stored : (c.put ch).vgaBuffer i = c.vgaBuffer i := by
    have ne : i ≠ c.y * CONSOLE_WIDTH + c.x := by
      intro eq
      have inside := index_lt w.height w.width
      rw [eq, toNat_index w.height w.width] at out
      omega
    fun_cases State.put c ch with
    | case1 => rfl
    | case2 => rfl
    | case3 => rfl
    | case4 => exact Function.update_of_ne ne _ _
    | case5 => rfl
  have wrapped : (c.put ch).wrap.vgaBuffer i = c.vgaBuffer i := by
    rw [State.wrap]
    split
    · exact stored
    · exact stored
  rw [consolePutc]
  split
  · case isTrue scrolls =>
    have low : 0 < (c.put ch).wrap.y := UInt32.lt_of_lt_of_le (show 0 < CONSOLE_HEIGHT by decide) scrolls
    obtain ⟨-, -, -, -, -, rest⟩ := consoleScroll_spec _ low
    rw [rest i out, wrapped]
  · case isFalse stays => exact wrapped

/-- A sequence of characters. -/
lemma puts_window (w : Window attr s c t) (str : List UInt8) :
    Window attr (s + c.scrolls str) (consolePuts c str) (t.puts str) ∧
      ∀ i : UInt32, 2000 ≤ i.toNat → (consolePuts c str).vgaBuffer i = c.vgaBuffer i := by
  induction str generalizing c t s with
  | nil => exact ⟨w, fun _ _ => rfl⟩
  | cons ch str ih =>
    obtain ⟨window, outside⟩ := ih (putc_window w ch)
    rw [Nat.add_assoc] at window
    exact ⟨window, fun i out => (outside i out).trans (putc_outside w ch out)⟩

/-- After any output the console is the bottom of the terminal: the rows from the number of scrolls on, with the
    cursor in them. -/
theorem console_window (c : State) (str : List UInt8) :
    Window c.attr ((consoleClear c).scrolls str) (consolePuts (consoleClear c) str) (Terminal.blank.puts str) ∧
      ((consolePuts (consoleClear c) str).y * CONSOLE_WIDTH + (consolePuts (consoleClear c) str).x).toNat < 2000 ∧
      ∀ i : UInt32, 2000 ≤ i.toNat → (consolePuts (consoleClear c) str).vgaBuffer i = c.vgaBuffer i := by
  obtain ⟨window, outside⟩ := puts_window (consoleClear_window c) str
  obtain ⟨-, -, rest⟩ := consoleClear_spec c
  rw [Nat.zero_add] at window
  refine ⟨window, ?_, fun i out => (outside i out).trans (rest i out)⟩
  rw [toNat_index window.height window.width]
  exact index_lt window.height window.width

/-- Output that overwrites a letter, goes to a tab stop and scrolls once. -/
theorem console_window_scrolled :
    let str := [0x0A, 0x41, 0x0D, 0x42, 0x09, 0x43] ++ List.replicate 24 0x0A ++ [0x44]
    let c := consolePuts (consoleClear ⟨fun _ => 0, 3, 5, 0x07⟩) str
    (c.at 0 0).toNat = 0x0742 ∧ (c.at 0 1).toNat = 0x0720 ∧ (c.at 0 8).toNat = 0x0743 ∧ (c.at 24 0).toNat = 0x0744 ∧
      c.x.toNat = 1 ∧ c.y.toNat = 24 := by
  intro str c
  obtain ⟨window, -⟩ := console_window ⟨fun _ => 0, 3, 5, 0x07⟩ str
  have rows : (Terminal.blank.puts str).y = 25 := by decide
  have once := window.bottom
  rw [rows] at once
  have cells := window.cells
  have row := window.y
  have column := window.x
  rw [once, rows] at row
  rw [once] at cells
  refine ⟨cells 0 (by decide) 0 (by decide), cells 0 (by decide) 1 (by decide), cells 0 (by decide) 8 (by decide),
    cells 24 (by decide) 0 (by decide), column, ?_⟩
  exact Nat.add_left_cancel row

end RetaOS.Console
