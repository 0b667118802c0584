import RetaOS.Gui.Paint
import Mathlib.Data.List.Forall2

/-!
# What is on the screen

The calls of `kernel/gui.c` with the framebuffer that they draw on, over whole runs. Behind each call that draws
(`Event.draws`), the framebuffer shows the desktop with the windows that are in the list at that time, the newest one
lowest: the focus raises no window, and a new one appears behind the others with the next drawing (`desktop_shown`).
Other calls leave the framebuffer as it is, and no call writes anywhere else.
-/

namespace RetaOS.Gui
open Lib
open Display (VideoMode pixelAddr colour)

/-- The desktop, the console that `gui_hide` returns to, and the memory with the framebuffer. -/
structure Screen where
  gui : State
  console : Console.State
  memory : Memory

namespace State

/-- `gui_move_window`, up to the drawing. -/
def guiMoveWindow (g : State) (window : UInt32) (newX newY : Int32) : State :=
  g.setWindow window { g.windows window with x := newX, y := newY }

/-- `gui_resize_window`, up to the drawing. -/
def guiResizeWindow (g : State) (window : UInt32) (newWidth newHeight : Int32) : State :=
  g.setWindow window { g.windows window with width := newWidth, height := newHeight }

end State

namespace Screen

/-- `gui_draw_desktop`. -/
def guiDrawDesktop (mode : VideoMode) (s : Screen) : Option Screen :=
  (paintDesktop mode s.gui s.memory).map fun memory => { s with memory }

/-- `gui_create_sample_windows`. Its last call, `gui_focus_window` for the first window if there is one, draws; no
    window has the focus before. -/
def guiCreateSampleWindows (mode : VideoMode) (s : Screen) : Option Screen :=
  s.gui.guiCreateSampleWindows.bind fun gui =>
    if gui.desktop.focusedWindow = none then some { s with gui } else { s with gui }.guiDrawDesktop mode

/-- `gui_show`. -/
def guiShow (mode : VideoMode) (s : Screen) : Option Screen :=
  ({ s with gui := { s.gui with guiActive := true } }.guiCreateSampleWindows mode).bind (guiDrawDesktop mode)

/-- `gui_focus_window`. -/
def guiFocusWindow (mode : VideoMode) (s : Screen) (window : UInt32) : Option Screen :=
  (s.gui.guiFocusWindow (some window)).bind fun gui => { s with gui }.guiDrawDesktop mode

/-- `gui_hide`. -/
def guiHide (s : Screen) : Screen :=
  { s with gui := { s.gui with guiActive := false }, console := Console.consoleClear s.console }

/-- `gui_handle_keypress`. -/
def guiHandleKeypress (s : Screen) (key : UInt8) : Screen :=
  if s.gui.guiActive = false then s else if key = 27 then s.guiHide else s

/-- `gui_update`. -/
def guiUpdate (mode : VideoMode) (s : Screen) : Option Screen :=
  if s.gui.guiActive = false then some s else s.guiDrawDesktop mode

end Screen

/-- A call of `gui.c`, with a window where it takes one. -/
inductive Event where
  | guiShow
  | guiHide
  | guiUpdate
  | guiHandleKeypress (key : UInt8)
  | guiCreateWindow (x y width height : Int32) (title : List UInt8)
  | guiDestroyWindow (window : UInt32)
  | guiFocusWindow (window : UInt32)
  | guiMoveWindow (window : UInt32) (newX newY : Int32)
  | guiResizeWindow (window : UInt32) (newWidth newHeight : Int32)

namespace Event

def step (mode : VideoMode) (s : Screen) : Event → Option Screen
  | guiShow => s.guiShow mode
  | guiHide => some s.guiHide
  | guiUpdate => s.guiUpdate mode
  | guiHandleKeypress key => some (s.guiHandleKeypress key)
  | guiCreateWindow x y width height title =>
    (s.gui.guiCreateWindow x y width height title).map fun (_, gui) => { s with gui }
  | guiDestroyWindow window => (s.gui.guiDestroyWindow (some window)).map fun gui => { s with gui }
  | guiFocusWindow window => s.guiFocusWindow mode window
  | guiMoveWindow window newX newY => { s with gui := s.gui.guiMoveWindow window newX newY }.guiDrawDesktop mode
  | guiResizeWindow window newWidth newHeight =>
    { s with gui := s.gui.guiResizeWindow window newWidth newHeight }.guiDrawDesktop mode

/-- The window is in the list. -/
def Listed (g : State) (window : UInt32) : Prop := ∃ l, Linked g.next g.desktop.windows l ∧ window ∈ l

/-- Windows are named while they are in the list, and titles are strings that fit. -/
def Legal (s : Screen) : Event → Prop
  | guiShow | guiHide | guiUpdate | guiHandleKeypress _ => True
  | guiCreateWindow _ _ _ _ title => title.length < TITLE_SIZE ∧ 0 ∉ title
  | guiDestroyWindow window | guiFocusWindow window | guiMoveWindow window _ _ | guiResizeWindow window _ _ =>
    Listed s.gui window

/-- The calls that draw: `gui_show`, and on a desktop that is shown those that change what is seen of a window. -/
def Draws (s : Screen) : Event → Prop
  | guiShow => True
  | guiHide | guiHandleKeypress _ | guiCreateWindow .. | guiDestroyWindow _ => False
  | guiUpdate | guiFocusWindow _ | guiMoveWindow .. | guiResizeWindow .. => s.gui.guiActive = true

end Event

/-- The framebuffer shows the desktop with the windows `l`: each pixel has the color of the last shape over it. -/
def Shown (mode : VideoMode) (s : Screen) (l : List UInt32) : Prop :=
  ∀ p ∈ pixels mode, ∃ shape,
    (desktopShapes mode s.gui.desktop.bgColor (l.map s.gui.windows)).reverse.find? (·.region (place p)) = some shape ∧
      s.memory.loadBytes (pixelAddr mode p) (mode.bpp.toNat / 8) = colour mode.bpp.toUInt8 shape.color

variable {mode : VideoMode} {s s' : Screen} {g g' : State} {l : List UInt32} {e : Event} {w : UInt32}

/-! ## Drawing. -/

/-- What a drawing leaves: the desktop as it was, shown in the framebuffer, and nothing written beside. -/
structure Drawn (mode : VideoMode) (s s' : Screen) : Prop where
  gui : s'.gui = s.gui
  shown : ∀ l, Linked s.gui.next s.gui.desktop.windows l → Shown mode s' l
  frame : ∀ b, Outside mode b → s'.memory b = s.memory b

/-- `gui_draw_desktop` on a desktop that is shown. -/
lemma guiDrawDesktop_drawn (fb : Framebuffer mode) (active : s.gui.guiActive = true)
    (linked : Linked s.gui.next s.gui.desktop.windows l) :
    ∃ s', s.guiDrawDesktop mode = some s' ∧ Drawn mode s s' := by
  obtain ⟨f, run, draws⟩ : ∃ f : Memory → Memory, (∀ m, paintDesktop mode s.gui m = some (f m)) ∧
      (screen mode s.memory).Draws f (desktopShapes mode s.gui.desktop.bgColor (l.map s.gui.windows)) :=
    paintDesktop_draws fb active linked
  have blank : Shows mode s.memory s.memory fun _ => none := ⟨by rintro _ _ _ ⟨⟩, fun _ _ => rfl⟩
  have shows_ : Shows mode s.memory (f s.memory) _ := draws s.memory _ blank
  refine ⟨{ s with memory := f s.memory }, by rw [Screen.guiDrawDesktop, run, Option.map_some], rfl,
    fun l' linked' p mem => ?_, shows_.frame⟩
  cases linked'.unique linked
  have pixel := shows_.pixel p mem
  rw [Picture.paint_eq] at pixel
  cases found : (desktopShapes mode s.gui.desktop.bgColor (l.map s.gui.windows)).reverse.find?
      (·.region (place p)) with
  | some shape =>
    rw [found] at pixel
    exact ⟨shape, rfl, pixel shape.color rfl⟩
  | none =>
    -- the background covers the screen
    have none := List.find?_eq_none.mp found ⟨fun _ => true, vgaToRgb s.gui.desktop.bgColor⟩
    exact absurd rfl (none (by simp [desktopShapes]))

/-! ## The calls. -/

lemma active_create {x y width height : Int32} {title : List UInt8} {r : Option UInt32}
    (run : g.guiCreateWindow x y width height title = some (r, g')) : g'.guiActive = g.guiActive := by
  obtain ⟨⟨p, g₁⟩, alloc, eq⟩ := Option.map_eq_some_iff.mp run
  obtain ⟨⟨q, h⟩, -, found⟩ := Option.map_eq_some_iff.mp alloc
  dsimp only at found
  split_ifs at found
  all_goals
    cases found
    cases eq
    rfl

lemma active_recolor (bg fg : UInt8) (r : Option UInt32) : (g.recolor bg fg r).guiActive = g.guiActive := by
  cases r <;> rfl

lemma active_focus {r : Option UInt32} (run : g.guiFocusWindow r = some g') : g'.guiActive = g.guiActive := by
  cases r with
  | none =>
    cases run
    rfl
  | some w =>
    obtain ⟨_, -, rfl⟩ := Option.map_eq_some_iff.mp run
    change g.unfocus.guiActive = _
    rw [State.unfocus]
    cases g.desktop.focusedWindow <;> rfl

/-- The loop that frees the windows. -/
lemma active_free {c : Option UInt32} (run : loop State.freePass (c, g) = some g') : g'.guiActive = g.guiActive := by
  refine loop_rule (I := fun s : Option UInt32 × State => s.2.guiActive = g.guiActive)
    (Q := fun g' : State => g'.guiActive = g.guiActive) (fun s same => ?_) rfl run
  obtain ⟨c, g₁⟩ := s
  cases c with
  | none => exact .done same
  | some p =>
    refine .inner same fun g₂ free => .next ?_
    obtain ⟨h, -, rfl⟩ := Option.map_eq_some_iff.mp free
    exact same

lemma active_samples (run : g.guiCreateSampleWindows = some g') : g'.guiActive = g.guiActive := by
  obtain ⟨g₀, free, run⟩ := Option.bind_eq_some_iff.mp run
  obtain ⟨⟨r₁, g₁⟩, run₁, run⟩ := Option.bind_eq_some_iff.mp run
  obtain ⟨⟨r₂, g₂⟩, run₂, run⟩ := Option.bind_eq_some_iff.mp run
  obtain ⟨⟨r₃, g₃⟩, run₃, run⟩ := Option.bind_eq_some_iff.mp run
  rw [active_focus run, active_recolor, active_create run₃, active_recolor, active_create run₂, active_recolor,
    active_create run₁, ← active_free free]

/-- What a call leaves: the desktop in order, what is to be seen, and nothing written beside the framebuffer. -/
structure Stepped (mode : VideoMode) (s : Screen) (e : Event) (s' : Screen) : Prop where
  keeps : Keeps s'.gui none
  shown : e.Draws s → s'.gui.guiActive = true ∧ ∃ l, Linked s'.gui.next s'.gui.desktop.windows l ∧ Shown mode s' l
  still : ¬ e.Draws s → s'.memory = s.memory
  frame : ∀ b, Outside mode b → s'.memory b = s.memory b

/-- A call that draws nothing. -/
lemma Stepped.idle (keeps : Keeps s'.gui none) (idle : ¬ e.Draws s) (memory : s'.memory = s.memory) :
    Stepped mode s e s' :=
  ⟨keeps, fun draws => absurd draws idle, fun _ => memory, fun b _ => congrFun memory b⟩

/-- `gui_draw_desktop` as the end of a call. -/
lemma Stepped.draw (fb : Framebuffer mode) (keeps : Keeps g none) (active : e.Draws s ↔ g.guiActive = true) :
    ∃ s', { s with gui := g }.guiDrawDesktop mode = some s' ∧ Stepped mode s e s' := by
  by_cases on : g.guiActive = true
  · obtain ⟨L, l, num, k, d, -⟩ := id keeps
    obtain ⟨s', run, drawn⟩ := guiDrawDesktop_drawn (s := { s with gui := g }) fb on d.linked
    have gui : s'.gui = g := drawn.gui
    refine ⟨s', run, by rwa [gui], fun _ => ⟨by rwa [gui], l, ?_, drawn.shown l d.linked⟩,
      fun idle => absurd (active.mpr on) idle, drawn.frame⟩
    rw [gui]
    exact d.linked
  · have off : g.guiActive = false := Bool.eq_false_iff.mpr on
    refine ⟨{ s with gui := g }, ?_, .idle keeps (fun draws => on (active.mp draws)) rfl⟩
    rw [Screen.guiDrawDesktop, paintDesktop, if_pos off]
    rfl

/-- A window of the list with another place or size. -/
lemma Keeps.setWindow {v : Window} (h : Keeps g none) (id : v.id = (g.windows w).id)
    (next : v.next = (g.windows w).next) (focused : v.focused = (g.windows w).focused) :
    Keeps (g.setWindow w v) none := by
  obtain ⟨L, l, num, k, d, kept⟩ := h
  have same : Flagged g _ (g.setWindow w v) := flagged_setWindow id next
  refine ⟨L, l, num, k, { d with linked := ?_, id := fun q h => ?_, flag := fun q h => ?_ }, kept⟩
  · rw [same.next]
    exact d.linked
  · rw [same.id, d.id q h]
  · rw [focused_kept focused]
    exact d.flag q h

/-- Whether the desktop is shown does not matter for its windows. -/
lemma Keeps.activate (h : Keeps g none) (active : Bool) : Keeps { g with guiActive := active } none := by
  obtain ⟨L, l, num, k, d, kept⟩ := h
  exact ⟨L, l, num, k, { d with }, kept⟩

/-- `gui_show` shows the desktop. -/
lemma guiShow_stepped (fb : Framebuffer mode) (keeps : Keeps s.gui none) :
    ∃ s', s.guiShow mode = some s' ∧ Stepped mode s .guiShow s' := by
  obtain ⟨L₀, l₀, num₀, k₀, d₀, -⟩ := keeps
  obtain ⟨g', run, -, keeps'⟩ := d₀.show_
  obtain ⟨g₁, samples, draw⟩ := Option.bind_eq_some_iff.mp run
  obtain ⟨_, -, rfl⟩ := Option.map_eq_some_iff.mp draw
  have active : g₁.guiActive = true := active_samples samples
  obtain ⟨L, l, num, k, d, -⟩ := id keeps'
  -- the first drawing, if there is one, leaves the same desktop
  obtain ⟨s₁, run₁, gui, frame⟩ : ∃ s₁, ({ s with gui := { s.gui with guiActive := true } } :
      Screen).guiCreateSampleWindows mode = some s₁ ∧ s₁.gui = g₁ ∧ ∀ b, Outside mode b → s₁.memory b = s.memory b := by
    rw [Screen.guiCreateSampleWindows]
    dsimp only
    rw [samples, Option.bind_some]
    split_ifs
    · exact ⟨_, rfl, rfl, fun _ _ => rfl⟩
    · obtain ⟨s₁, run₁, drawn⟩ := guiDrawDesktop_drawn (s := { s with gui := g₁ }) fb active d.linked
      exact ⟨s₁, run₁, drawn.gui, drawn.frame⟩
  cases gui
  obtain ⟨s₂, run₂, drawn⟩ := guiDrawDesktop_drawn fb active d.linked
  refine ⟨s₂, by rw [Screen.guiShow, run₁, Option.bind_some, run₂], by rwa [drawn.gui], fun _ => ⟨?_, l, ?_, ?_⟩,
    fun idle => absurd trivial idle, fun b out => (drawn.frame b out).trans (frame b out)⟩
  · rw [drawn.gui, active]
  · rw [drawn.gui]
    exact d.linked
  · exact drawn.shown l d.linked

/-- Every call returns. -/
lemma Event.step_stepped (fb : Framebuffer mode) (keeps : Keeps s.gui none) (legal : e.Legal s) :
    ∃ s', e.step mode s = some s' ∧ Stepped mode s e s' := by
  cases e with
  | guiShow => exact guiShow_stepped fb keeps
  | guiHide => exact ⟨_, rfl, .idle (keeps.activate false) id rfl⟩
  | guiUpdate =>
    by_cases on : s.gui.guiActive = true
    · have draw : s.guiUpdate mode = s.guiDrawDesktop mode := if_neg (by rw [on]; exact Bool.noConfusion)
      rw [Event.step, draw]
      exact Stepped.draw fb keeps Iff.rfl
    · exact ⟨s, if_pos (Bool.eq_false_iff.mpr on), .idle keeps on rfl⟩
  | guiHandleKeypress key =>
    refine ⟨_, rfl, ?_⟩
    rw [Screen.guiHandleKeypress]
    split_ifs
    · exact .idle keeps id rfl
    · exact .idle (keeps.activate false) id rfl
    · exact .idle keeps id rfl
  | guiCreateWindow x y width height title =>
    obtain ⟨r, g', run, -, keeps', -⟩ := keeps.create x y width height title
    exact ⟨{ s with gui := g' }, by rw [Event.step, run, Option.map_some], .idle keeps' id rfl⟩
  | guiDestroyWindow window =>
    obtain ⟨g', run, keeps'⟩ := keeps.step (show Call.Legal s.gui (.guiDestroyWindow window) from legal)
    rw [Call.step] at run
    exact ⟨{ s with gui := g' }, by rw [Event.step, run, Option.map_some], .idle keeps' id rfl⟩
  | guiFocusWindow window =>
    obtain ⟨g', run, keeps'⟩ := keeps.step (show Call.Legal s.gui (.guiFocusWindow window) from legal)
    rw [Call.step] at run
    rw [Event.step, Screen.guiFocusWindow, run, Option.bind_some]
    exact Stepped.draw fb keeps' (by rw [active_focus run]; exact Iff.rfl)
  | guiMoveWindow window newX newY => exact Stepped.draw fb (keeps.setWindow rfl rfl rfl) Iff.rfl
  | guiResizeWindow window newWidth newHeight => exact Stepped.draw fb (keeps.setWindow rfl rfl rfl) Iff.rfl

/-! ## Runs. -/

/-- The screen behind `gui_init`. -/
def Screen.start (heap : Kheap.Heap) (windows : UInt32 → Window) (desktop : Desktop) (active : Bool)
    (console : Console.State) (memory : Memory) : Screen :=
  ⟨Gui.start heap windows desktop active, console, memory⟩

/-- In every run from `gui_init` each call returns. Behind one that draws, the framebuffer shows the desktop with the
    windows of the list; any other one leaves the memory as it is; and no byte beside the pixels is ever written. -/
theorem desktop_shown (mode : VideoMode) (fb : Framebuffer mode) (heap : Kheap.Heap) (L : Kheap.Live)
    (inv : Kheap.Inv (heap, L)) (windows : UInt32 → Window) (desktop : Desktop) (active : Bool)
    (console : Console.State) (memory : Memory) (s : Screen)
    (run : Runs (Event.step mode) (fun s e => e.Legal s) (.start heap windows desktop active console memory) s) :
    (∀ b, Outside mode b → s.memory b = memory b) ∧
      ∀ e : Event, e.Legal s → ∃ s', e.step mode s = some s' ∧
        (e.Draws s → s'.gui.guiActive = true ∧
          ∃ l, Linked s'.gui.next s'.gui.desktop.windows l ∧ Shown mode s' l) ∧
        (¬ e.Draws s → s'.memory = s.memory) := by
  have keeps : Keeps s.gui none ∧ ∀ b, Outside mode b → s.memory b = memory b := by
    refine run.invariant (I := fun s => Keeps s.gui none ∧ ∀ b, Outside mode b → s.memory b = memory b)
      ⟨⟨_, _, _, _, desk_start inv windows desktop active, by rintro _ ⟨⟩⟩, fun _ _ => rfl⟩
      fun s e s' h legal step => ?_
    obtain ⟨keeps, frame⟩ := h
    obtain ⟨s'', step', stepped⟩ := Event.step_stepped fb keeps legal
    cases step.symm.trans step'
    exact ⟨stepped.keeps, fun b out => (stepped.frame b out).trans (frame b out)⟩
  refine ⟨keeps.2, fun e legal => ?_⟩
  obtain ⟨s', step, stepped⟩ := Event.step_stepped fb keeps.1 legal
  exact ⟨s', step, stepped.shown, stepped.still⟩

/-- A small framebuffer at the end of the address space. -/
def smallScreen : VideoMode := ⟨4, 4, 16, 32, 0xFFFFFFC0⟩

theorem desktop_shown_show : ∃ s', Event.step smallScreen (.start (Kheap.kheapInit Kheap.bare)
      (fun _ => ⟨7, 0, 0, 0, 0, [], 0, 0, 0, 0, 0, 1, some 8⟩) ⟨0, some 8, some 8, 5, 9⟩ true
      ⟨fun _ => 0, 0x07, 0, 0⟩ fun _ => 0) .guiShow = some s' ∧
    ∃ l, Linked s'.gui.next s'.gui.desktop.windows l ∧ Shown smallScreen s' l := by
  obtain ⟨-, next⟩ := desktop_shown smallScreen ⟨by decide, .inr rfl, by decide, by decide⟩ _ [] inv_bare _ _ _ _ _ _
    .refl
  obtain ⟨s', step, shown, -⟩ := next .guiShow trivial
  exact ⟨s', step, (shown trivial).2⟩

end RetaOS.Gui
