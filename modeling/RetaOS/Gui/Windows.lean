import RetaOS.Gui.Defs
import RetaOS.Kheap.Integrity
import RetaOS.Lib.Runs
import Mathlib.Data.List.Nodup
import Mathlib.Data.List.Perm.Subperm

/-!
# The list of windows

The list, the counters and the focus of the desktop agree after every sequence of calls (`Consistent`). The invariant
`Desk` numbers the windows in the order of their creation since the numbers began at 1, without a bound; the `id` of a
window is its number and `next_window_id` the next one, modulo `2 ^ 32`. So the `id`s are below `next_window_id` as long
as that has not wrapped, for fewer than `2 ^ 31 - 1` windows (`windows_consistent`). With one more, the last `id` is the
largest `int`, and `next_window_id` is negative (`windows_wrapped`).
-/

namespace RetaOS.Gui
open Lib

/-- Windows are destroyed and get the focus while they are in the list, and titles fit. -/
def Call.Legal (g : State) : Call → Prop
  | guiShow => True
  | guiCreateWindow _ _ _ _ title => title.length < TITLE_SIZE
  | guiDestroyWindow window => ∃ l, Linked g.next g.desktop.windows l ∧ window ∈ l
  | guiFocusWindow window => ∃ l, Linked g.next g.desktop.windows l ∧ window ∈ l

/-- The state of the desktop with the windows `l`. In `freed_once`, a window that is in the list has not been freed, and
    any other one has been freed once for each time that its address was allocated. -/
structure Ordered (g : State) (l : List UInt32) : Prop where
  linked : Linked g.next g.desktop.windows l
  nodup : l.Nodup
  count : g.desktop.windowCount.toInt = l.length
  ids : (l.map fun p => (g.windows p).id).Nodup
  focus : ∀ p, g.desktop.focusedWindow = some p → p ∈ l
  flag : ∀ p ∈ l, (g.windows p).focused ≠ 0 ↔ g.desktop.focusedWindow = some p
  freed_once : ∀ p, g.allocated.count p = g.freed.count p + l.count p

/-- The `id`s of the windows `l` have been given out. -/
def Below (g : State) (l : List UInt32) : Prop := ∀ p ∈ l, (g.windows p).id < g.desktop.nextWindowId

def Consistent (g : State) : Prop := ∃ l, Ordered g l ∧ Below g l

/-- What a call frees when the windows `l` are in the list, the last one first. -/
def Call.frees (l : List UInt32) : Call → List UInt32
  | guiShow => l.reverse
  | guiCreateWindow _ _ _ _ _ => []
  | guiDestroyWindow window => [window]
  | guiFocusWindow _ => []

/-- Behind the destruction of `w` the list has all windows but `w`, which has been freed once more. -/
structure Destroyed (g : State) (l : List UInt32) (w : UInt32) (g' : State) (l' : List UInt32) : Prop where
  list : l' = l.erase w
  gone : w ∉ l'
  once : g'.freed.count w = g.freed.count w + 1

/-! ## The invariant. -/

/-- The desktop with the windows `l`, where `num p` is the number of the window at `p`, the last number is `k`, and `L`
    are the live allocations of the heap. -/
structure Desk (g : State) (L : Kheap.Live) (l : List UInt32) (num : UInt32 → Nat) (k : Nat) : Prop where
  heap : Kheap.Inv (g.heap, L)
  live : ∀ p ∈ l, p ∈ L.map Prod.fst
  linked : Linked g.next g.desktop.windows l
  count : g.desktop.windowCount = Int32.ofNat l.length
  id : ∀ p ∈ l, (g.windows p).id = Int32.ofNat (num p)
  num_le : ∀ p ∈ l, num p ≤ k
  num_inj : ∀ p ∈ l, ∀ q ∈ l, num p = num q → p = q
  last : g.desktop.nextWindowId = Int32.ofNat (k + 1)
  made : k ≤ g.allocated.length
  focus : ∀ p, g.desktop.focusedWindow = some p → p ∈ l
  flag : ∀ p ∈ l, (g.windows p).focused ≠ 0 ↔ g.desktop.focusedWindow = some p
  freed_once : ∀ p, g.allocated.count p = g.freed.count p + l.count p

variable {g g' : State} {L : Kheap.Live} {l : List UInt32} {num : UInt32 → Nat} {k n : Nat} {p w : UInt32}

lemma toInt_small (lt : n < 2 ^ 31) : (Int32.ofNat n).toInt = n := Int32.toInt_ofNat_of_lt lt

/-- As long as the numbers are `int`s, the desktop is in order. -/
lemma Desk.ordered (d : Desk g L l num k) (few : g.allocated.length < 2 ^ 31) : Ordered g l := by
  have made := d.made
  have sub : l.Subperm g.allocated := List.subperm_ext_iff.mpr fun p _ => by
    rw [d.freed_once]
    exact Nat.le_add_left _ _
  have short := sub.length_le
  refine ⟨d.linked, d.linked.nodup, ?_, ?_, d.focus, d.flag, d.freed_once⟩
  · rw [d.count, toInt_small (by omega)]
  · refine List.Nodup.map_on (fun p hp q hq eq => d.num_inj p hp q hq ?_) d.linked.nodup
    have lp := d.num_le p hp
    have lq := d.num_le q hq
    rw [d.id p hp, d.id q hq] at eq
    have eq := congrArg Int32.toInt eq
    rw [toInt_small (by omega), toInt_small (by omega)] at eq
    omega

/-- As long as the next number is an `int`, it is above the others. -/
lemma Desk.below (d : Desk g L l num k) (few : g.allocated.length < 2 ^ 31 - 1) : Below g l := by
  intro p mem
  have made := d.made
  have le := d.num_le p mem
  rw [d.id p mem, d.last, Int32.lt_iff_toInt_lt, toInt_small (by omega), toInt_small (by omega)]
  omega

/-! ## The heap. -/

/-- A block for a window, if there is one, is not one that is in use. -/
lemma kmalloc_window (inv : Kheap.Inv (g.heap, L)) : ∃ r h', Kheap.kmalloc g.heap sizeofWindow = some (r, h') ∧
    (r = 0 ∧ Kheap.Inv (h', L) ∨ r ≠ 0 ∧ r ∉ L.map Prod.fst ∧ Kheap.Inv (h', (r, 104) :: L)) := by
  have good : ¬ Kheap.Wraps sizeofWindow := by decide
  obtain ⟨r, h', run, inv'⟩ := Kheap.call_keeps (c := .kmalloc sizeofWindow) inv (.inl rfl) good
  have live : (Kheap.HeapCall.kmalloc sizeofWindow).live L r = if r ≠ 0 then (r, 104) :: L else L := rfl
  rw [live] at inv'
  refine ⟨r, h', run, ?_⟩
  by_cases null : r = 0
  · rw [if_neg (not_not.mpr null)] at inv'
    exact .inl ⟨null, inv'⟩
  · rw [if_pos null] at inv'
    obtain ⟨blocks, -, owns⟩ := id inv'
    exact .inr ⟨null, (List.nodup_cons.mp owns.nodup).1, inv'⟩

/-- A window that is given back is no longer in use. -/
lemma kfree_window (inv : Kheap.Inv (g.heap, L)) (live : w ∈ L.map Prod.fst) :
    ∃ h', Kheap.kfree g.heap w = some h' ∧ Kheap.Inv (h', L.drop w) := by
  obtain ⟨r, h', run, inv'⟩ := Kheap.call_keeps (c := .kfree w) inv (.inr live) trivial
  obtain ⟨h'', free, eq⟩ := Option.map_eq_some_iff.mp run
  cases eq
  exact ⟨_, free, inv'⟩

/-- Other windows stay in use. -/
lemma mem_drop_map (live : p ∈ L.map Prod.fst) (ne : p ≠ w) : p ∈ (L.drop w).map Prod.fst := by
  obtain ⟨x, mem, rfl⟩ := List.mem_map.mp live
  exact List.mem_map_of_mem (Kheap.mem_drop.mpr ⟨mem, ne⟩)

/-! ## Creating. -/

/-- The window `r` put in front of the list. -/
structure Created (g : State) (r : UInt32) (g' : State) : Prop where
  next : g'.next = Function.update g.next r g.desktop.windows
  first : g'.desktop.windows = some r
  focused : g'.desktop.focusedWindow = g.desktop.focusedWindow
  count : g'.desktop.windowCount = g.desktop.windowCount + 1
  last : g'.desktop.nextWindowId = g.desktop.nextWindowId + 1
  other : ∀ q, q ≠ r → g'.windows q = g.windows q
  id : (g'.windows r).id = g.desktop.nextWindowId
  flag : (g'.windows r).focused = 0
  allocated : g'.allocated = r :: g.allocated
  freed : g'.freed = g.freed

lemma next_setWindow {v : Window} : (g.setWindow p v).next = Function.update g.next p v.next := by
  funext q
  by_cases eq : q = p
  · subst eq
    simp [State.next, State.setWindow]
  · simp [State.next, State.setWindow, eq]

lemma guiCreateWindow_some {r : UInt32} {h' : Kheap.Heap} (run : Kheap.kmalloc g.heap sizeofWindow = some (r, h'))
    (ne : r ≠ 0) (x y width height : Int32) (title : List UInt8) :
    ∃ g', g.guiCreateWindow x y width height title = some (some r, g') ∧ g'.heap = h' ∧ Created g r g' := by
  simp only [State.guiCreateWindow, State.kmalloc, run, Option.map_some, if_neg ne]
  refine ⟨_, rfl, rfl, next_setWindow, rfl, rfl, rfl, rfl, fun q ne => ?_, ?_, ?_, rfl, rfl⟩
  · exact Function.update_of_ne ne ..
  · simp [State.setWindow]
  · simp [State.setWindow]

/-- The desktop with a new window. -/
lemma Desk.created {r : UInt32} (d : Desk g L l num k) (c : Created g r g') (fresh : r ∉ L.map Prod.fst)
    (inv : Kheap.Inv (g'.heap, (r, 104) :: L)) :
    Desk g' ((r, 104) :: L) (r :: l) (Function.update num r (k + 1)) (k + 1) := by
  have new : r ∉ l := fun mem => fresh (d.live r mem)
  have other {q} (mem : q ∈ l) : q ≠ r := ne_of_mem_of_not_mem mem new
  have num_other {q} (mem : q ∈ l) : Function.update num r (k + 1) q = num q := Function.update_of_ne (other mem) ..
  refine ⟨inv, ?_, ?_, ?_, ?_, ?_, ?_, ?_, ?_, ?_, ?_, ?_⟩
  · rw [List.map_cons]
    exact List.forall_mem_cons.mpr ⟨List.mem_cons_self, fun q mem => List.mem_cons_of_mem r (d.live q mem)⟩
  · rw [c.next, c.first]
    exact d.linked.push new
  · rw [c.count, d.count, List.length_cons, Int32.ofNat_add]
    rfl
  · refine List.forall_mem_cons.mpr ⟨?_, fun q mem => ?_⟩
    · rw [c.id, d.last, Function.update_self]
    · rw [c.other q (other mem), num_other mem, d.id q mem]
  · refine List.forall_mem_cons.mpr ⟨?_, fun q mem => ?_⟩
    · rw [Function.update_self]
    · rw [num_other mem]
      exact Nat.le_succ_of_le (d.num_le q mem)
  · intro p hp q hq eq
    rw [List.mem_cons] at hp hq
    obtain rfl | hp := hp
    · obtain rfl | hq := hq
      · rfl
      · have le := d.num_le q hq
        rw [Function.update_self, num_other hq] at eq
        omega
    · rw [num_other hp] at eq
      obtain rfl | hq := hq
      · have le := d.num_le p hp
        rw [Function.update_self] at eq
        omega
      · rw [num_other hq] at eq
        exact d.num_inj p hp q hq eq
  · rw [c.last, d.last, Int32.ofNat_add (k + 1)]
    rfl
  · rw [c.allocated, List.length_cons]
    exact Nat.succ_le_succ d.made
  · intro q focused
    rw [c.focused] at focused
    exact List.mem_cons_of_mem r (d.focus q focused)
  · refine List.forall_mem_cons.mpr ⟨?_, fun q mem => ?_⟩
    · rw [c.flag, c.focused]
      exact iff_of_false (not_not.mpr rfl) fun focused => new (d.focus r focused)
    · rw [c.other q (other mem), c.focused]
      exact d.flag q mem
  · intro q
    rw [c.allocated, c.freed, List.count_cons, List.count_cons, d.freed_once]
    omega

/-- `gui_create_window` returns: without a window, or with a new one in front of the list. -/
lemma Desk.create (d : Desk g L l num k) (x y width height : Int32) (title : List UInt8) :
    ∃ r g', g.guiCreateWindow x y width height title = some (r, g') ∧
      g'.freed = g.freed ∧ ((r = none ∧ Desk g' L l num k ∧ g'.allocated = g.allocated) ∨
        ∃ p, r = some p ∧ Desk g' ((p, 104) :: L) (p :: l) (Function.update num p (k + 1)) (k + 1) ∧
          g'.allocated = p :: g.allocated) := by
  obtain ⟨r, h', run, ⟨rfl, inv⟩ | ⟨ne, fresh, inv⟩⟩ := kmalloc_window d.heap
  · refine ⟨none, { g with heap := h' }, ?_, rfl, .inl ⟨rfl, { d with heap := inv }, rfl⟩⟩
    simp only [State.guiCreateWindow, State.kmalloc, run, Option.map_some, if_true]
  · obtain ⟨g', create, rfl, c⟩ := guiCreateWindow_some run ne x y width height title
    exact ⟨some r, g', create, c.freed, .inr ⟨r, rfl, d.created c fresh inv, c.allocated⟩⟩

/-! ## Destroying. -/

/-- Nothing but links, colors and the focus differs. -/
structure Alike (g g' : State) : Prop where
  heap : g'.heap = g.heap
  count : g'.desktop.windowCount = g.desktop.windowCount
  last : g'.desktop.nextWindowId = g.desktop.nextWindowId
  id : ∀ q, (g'.windows q).id = (g.windows q).id
  allocated : g'.allocated = g.allocated
  freed : g'.freed = g.freed

lemma Alike.trans (a : Alike g g') {g'' : State} (a' : Alike g' g'') : Alike g g'' where
  heap := a'.heap.trans a.heap
  count := a'.count.trans a.count
  last := a'.last.trans a.last
  id q := (a'.id q).trans (a.id q)
  allocated := a'.allocated.trans a.allocated
  freed := a'.freed.trans a.freed

/-- A window that keeps its number. -/
lemma alike_setWindow {v : Window} (id : v.id = (g.windows p).id) : Alike g (g.setWindow p v) := by
  refine ⟨rfl, rfl, rfl, fun q => ?_, rfl, rfl⟩
  by_cases eq : q = p
  · subst eq
    simpa [State.setWindow] using id
  · simp [State.setWindow, eq]

lemma focused_setWindow (g : State) (p : UInt32) (v : Window) (q : UInt32) :
    ((g.setWindow p v).windows q).focused = if q = p then v.focused else (g.windows q).focused := by
  by_cases eq : q = p
  · subst eq
    simp [State.setWindow]
  · simp [State.setWindow, eq]

/-- A window that keeps its flag. -/
lemma focused_kept {v : Window} (flag : v.focused = (g.windows p).focused) (q : UInt32) :
    ((g.setWindow p v).windows q).focused = (g.windows q).focused := by
  rw [focused_setWindow]
  split_ifs with eq
  · rw [flag, eq]
  · rfl

variable {l₁ l₂ : List UInt32}

/-- A window is taken out of the list. -/
lemma unlink_spec (linked : Linked g.next g.desktop.windows (l₁ ++ w :: l₂)) :
    ∃ g', g.unlink w = some g' ∧ Linked g'.next g'.desktop.windows (l₁ ++ l₂) ∧ Alike g g' ∧
      g'.desktop.focusedWindow = g.desktop.focusedWindow ∧ ∀ q, (g'.windows q).focused = (g.windows q).focused := by
  rw [State.unlink]
  obtain rfl | ⟨l₁, q, rfl⟩ := l₁.eq_nil_or_concat'
  · have first : g.desktop.windows = some w := linked.start_eq
    rw [if_pos first]
    refine ⟨_, rfl, ?_, ⟨rfl, rfl, rfl, fun _ => rfl, rfl, rfl⟩, rfl, fun _ => rfl⟩
    rw [first] at linked
    exact linked.tail
  · rw [List.append_assoc, List.singleton_append] at linked ⊢
    rw [if_neg linked.start_ne, linked.search_prev]
    refine ⟨_, rfl, ?_, alike_setWindow rfl, rfl, focused_kept rfl⟩
    rw [next_setWindow]
    exact linked.remove

/-- `gui_destroy_window` takes a window out of the list and gives it back. -/
lemma Desk.destroy (d : Desk g L l num k) (mem : w ∈ l) :
    ∃ g', g.guiDestroyWindow (some w) = some g' ∧ Desk g' (L.drop w) (l.erase w) num k ∧
      g'.allocated = g.allocated ∧ g'.freed = w :: g.freed := by
  obtain ⟨l₁, l₂, rfl⟩ := List.append_of_mem mem
  have front : w ∉ l₁ := fun h => List.disjoint_of_nodup_append d.linked.nodup h List.mem_cons_self
  have erased : (l₁ ++ w :: l₂).erase w = l₁ ++ l₂ := by
    rw [List.erase_append_right _ front, List.erase_cons_head]
  rw [erased]
  obtain ⟨g₁, run, linked, same, focus, flag⟩ := unlink_spec d.linked
  have inv := d.heap
  rw [← same.heap] at inv
  obtain ⟨h', free, inv'⟩ := kfree_window inv (d.live w mem)
  have left {q} (h : q ∈ l₁ ++ l₂) : q ∈ l₁ ++ w :: l₂ ∧ q ≠ w := (mem_without d.linked.nodup).mp h
  simp only [State.guiDestroyWindow, run, Option.bind_some, State.kfree, free, Option.map_some]
  refine ⟨_, rfl, ⟨inv', ?_, linked, ?_, ?_, ?_, ?_, ?_, ?_, ?_, ?_, ?_⟩, same.allocated, congrArg (w :: ·) same.freed⟩
  · intro q h
    exact mem_drop_map (d.live q (left h).1) (left h).2
  · have length : (l₁ ++ w :: l₂).length = (l₁ ++ l₂).length + 1 := by
      rw [List.length_append, List.length_append, List.length_cons]
      omega
    dsimp only
    rw [same.count, d.count, length, Int32.ofNat_add]
    exact Int32.add_sub_cancel _ _
  · intro q h
    exact (same.id q).trans (d.id q (left h).1)
  · intro q h
    exact d.num_le q (left h).1
  · intro q hq r hr
    exact d.num_inj q (left hq).1 r (left hr).1
  · exact same.last.trans d.last
  · exact d.made.trans_eq (congrArg List.length same.allocated).symm
  · intro q focused
    dsimp only at focused
    rw [focus] at focused
    split_ifs at focused with here
    exact (mem_without d.linked.nodup).mpr ⟨d.focus q focused, fun eq => here (eq ▸ focused)⟩
  · intro q h
    dsimp only
    rw [focus, flag, d.flag q (left h).1]
    split_ifs with here
    · rw [here]
      exact iff_of_false (fun eq => (left h).2 (Option.some.inj eq).symm) nofun
    · rfl
  · intro q
    dsimp only
    rw [same.allocated, same.freed, List.count_cons, d.freed_once]
    simp only [List.count_append, List.count_cons]
    omega

/-! ## The focus. -/

/-- Nothing but colors and the focus differs, and the flags are those of `flag`. -/
structure Flagged (g : State) (flag : UInt32 → Int32) (g' : State) : Prop extends Alike g g' where
  next : g'.next = g.next
  first : g'.desktop.windows = g.desktop.windows
  flag : ∀ q, (g'.windows q).focused = flag q

/-- A window changed that keeps its number and its link. -/
lemma flagged_setWindow {v : Window} (id : v.id = (g.windows p).id) (next : v.next = (g.windows p).next) :
    Flagged g (fun q => if q = p then v.focused else (g.windows q).focused) (g.setWindow p v) := by
  refine { alike_setWindow id with next := ?_, first := rfl, flag := focused_setWindow g p v }
  rw [next_setWindow, next]
  exact Function.update_eq_self p g.next

/-- The window that has the focus loses its flag. -/
lemma flagged_unfocus (g : State) :
    Flagged g (fun q => if g.desktop.focusedWindow = some q then 0 else (g.windows q).focused) g.unfocus := by
  rw [State.unfocus]
  cases g.desktop.focusedWindow with
  | none => exact ⟨⟨rfl, rfl, rfl, fun _ => rfl, rfl, rfl⟩, rfl, rfl, fun _ => rfl⟩
  | some f =>
    have set : Flagged g _ (g.setWindow f { g.windows f with focused := 0 }) := flagged_setWindow rfl rfl
    refine { set with flag := fun q => ?_ }
    rw [set.flag]
    simp only [Option.some_inj, eq_comm]

/-- `gui_focus_window` sets one flag and clears the one of the window that had the focus. -/
lemma focus_flags (g : State) (w : UInt32) : ∃ g', g.guiFocusWindow (some w) = g'.guiDrawDesktop.map (fun _ => g') ∧
    g'.desktop.focusedWindow = some w ∧
    Flagged g (fun q => if q = w then 1 else if g.desktop.focusedWindow = some q then 0 else (g.windows q).focused)
      g' := by
  have f := flagged_unfocus g
  let g₁ : State := { g.unfocus with desktop := { g.unfocus.desktop with focusedWindow := some w } }
  have pointed : Alike g g₁ := { f with }
  have set : Flagged g₁ _ (g₁.setWindow w { g₁.windows w with focused := 1 }) := flagged_setWindow rfl rfl
  refine ⟨_, rfl, rfl, pointed.trans set.toAlike, set.next.trans f.next, set.first.trans f.first, fun q => ?_⟩
  rw [set.flag]
  congr 1
  exact f.flag q

/-- The walk of `gui_draw_desktop` draws the visible windows of the list. -/
lemma guiDrawDesktop_eq (linked : Linked g.next g.desktop.windows l) (active : g.guiActive = true) :
    g.guiDrawDesktop = some (l.filter fun p => (g.windows p).visible ≠ 0) := by
  have walk (drawn : List UInt32) : loop g.drawPass (g.desktop.windows, drawn) =
      some (drawn ++ l.filter fun p => (g.windows p).visible ≠ 0) := by
    generalize g.desktop.windows = first at linked
    induction linked generalizing drawn with
    | nil => exact loop_done (congrArg Pass.done (List.append_nil drawn).symm)
    | @cons p l _ ih =>
      have pass : g.drawPass (some p, drawn) =
        .next (g.next p, if (g.windows p).visible ≠ 0 then drawn ++ [p] else drawn) := rfl
      rw [loop_next pass, ih]
      by_cases visible : (g.windows p).visible ≠ 0
      · rw [if_pos visible, List.filter_cons_of_pos (by simpa using visible), List.append_assoc]
        rfl
      · rw [if_neg visible, List.filter_cons_of_neg (by simpa using visible)]
  rw [State.guiDrawDesktop, if_neg (by rw [active]; decide), walk, List.nil_append]

lemma draw_ends (linked : Linked g.next g.desktop.windows l) : ∃ drawn, g.guiDrawDesktop = some drawn := by
  by_cases idle : g.guiActive = false
  · exact ⟨[], if_pos idle⟩
  · exact ⟨_, guiDrawDesktop_eq linked (eq_true_of_ne_false idle)⟩

/-- `gui_focus_window` gives the focus to a window of the list. -/
lemma Desk.focusWindow (d : Desk g L l num k) (mem : w ∈ l) :
    ∃ g', g.guiFocusWindow (some w) = some g' ∧ Desk g' L l num k ∧ g'.freed = g.freed := by
  obtain ⟨g', run, focus, f⟩ := focus_flags g w
  have linked : Linked g'.next g'.desktop.windows l := by
    rw [f.next, f.first]
    exact d.linked
  obtain ⟨drawn, draw⟩ := draw_ends linked
  refine ⟨g', by rw [run, draw, Option.map_some], ⟨?_, d.live, linked, ?_, ?_, d.num_le, d.num_inj, ?_, ?_, ?_, ?_, ?_⟩,
    f.freed⟩
  · rw [f.heap]
    exact d.heap
  · rw [f.count, d.count]
  · intro q h
    rw [f.id, d.id q h]
  · rw [f.last, d.last]
  · rw [f.allocated]
    exact d.made
  · intro q h
    rw [focus] at h
    cases h
    exact mem
  · intro q h
    rw [f.flag, focus]
    by_cases eq : q = w
    · rw [if_pos eq, eq]
      exact iff_of_true (by decide) rfl
    · have other : ¬ some w = some q := fun same => eq (Option.some.inj same).symm
      rw [if_neg eq]
      refine iff_of_false (not_not.mpr ?_) other
      split_ifs with old
      · rfl
      · exact not_not.mp fun flag => old ((d.flag q h).mp flag)
  · intro q
    rw [f.allocated, f.freed]
    exact d.freed_once q

/-! ## Showing the desktop. -/

/-- The loop of `gui_create_sample_windows` gives back every window once. -/
lemma free_windows {c : Option UInt32} (inv : Kheap.Inv (g.heap, L)) (linked : Linked g.next c l)
    (live : ∀ p ∈ l, p ∈ L.map Prod.fst) : ∃ g' L', loop State.freePass (c, g) = some g' ∧
      Kheap.Inv (g'.heap, L') ∧ g'.freed = l.reverse ++ g.freed ∧ g'.allocated = g.allocated := by
  induction l generalizing c g L with
  | nil =>
    obtain rfl : c = none := linked.start_eq
    exact ⟨g, L, loop_done rfl, inv, rfl, rfl⟩
  | cons p l ih =>
    obtain rfl : c = some p := linked.start_eq
    obtain ⟨live, rest⟩ := List.forall_mem_cons.mp live
    obtain ⟨h', free, inv'⟩ := kfree_window inv live
    obtain ⟨out, -⟩ := List.nodup_cons.mp linked.nodup
    obtain ⟨g', L', run, inv'', freed, allocated⟩ := ih (g := { g with heap := h', freed := p :: g.freed }) inv'
      linked.tail fun q mem => mem_drop_map (rest q mem) (ne_of_mem_of_not_mem mem out)
    have pass : State.freePass (some p, g) = .next (g.next p, { g with heap := h', freed := p :: g.freed }) := by
      simp only [State.freePass, State.kfree, free, Option.map_some, Pass.inner]
    refine ⟨g', L', (loop_next pass).trans run, inv'', ?_, allocated⟩
    rw [freed, List.reverse_cons, List.append_assoc]
    rfl

/-- The desktop with some list of windows, which has the window `kept` in it, if there is one. -/
def Keeps (g : State) (kept : Option UInt32) : Prop :=
  ∃ L l num k, Desk g L l num k ∧ ∀ p, kept = some p → p ∈ l

variable {kept : Option UInt32}

/-- The empty desktop behind that loop. -/
lemma Desk.clear (d : Desk g L l num k) : ∃ g', loop State.freePass (g.desktop.windows, g) = some g' ∧
    g'.freed = l.reverse ++ g.freed ∧ Keeps { g' with desktop := { g'.desktop with
      windows := none, focusedWindow := none, windowCount := 0, nextWindowId := 1 } } none := by
  obtain ⟨g', L', run, inv, freed, allocated⟩ := free_windows d.heap d.linked d.live
  refine ⟨g', run, freed, L', [], num, 0, ⟨inv, nofun, .nil, rfl, nofun, nofun, nofun, rfl, Nat.zero_le _,
    nofun, nofun, ?_⟩,
    nofun⟩
  intro p
  dsimp only
  rw [allocated, freed, d.freed_once, List.count_append, List.count_reverse, List.count_nil]
  omega

/-- A window that is created is in the list, and so is any window from before. -/
lemma Keeps.create (h : Keeps g kept) (x y width height : Int32) (title : List UInt8) :
    ∃ r g', g.guiCreateWindow x y width height title = some (r, g') ∧ g'.freed = g.freed ∧ Keeps g' kept ∧
      Keeps g' r := by
  obtain ⟨L, l, num, k, d, mem⟩ := h
  obtain ⟨r, g', run, freed, ⟨rfl, d', -⟩ | ⟨p, rfl, d', -⟩⟩ := d.create x y width height title
  · exact ⟨none, g', run, freed, ⟨L, l, num, k, d', mem⟩, L, l, num, k, d', nofun⟩
  · refine ⟨some p, g', run, freed, ⟨_, _, _, _, d', fun q eq => List.mem_cons_of_mem p (mem q eq)⟩, _, _, _, _, d', ?_⟩
    rintro q ⟨⟩
    exact List.mem_cons_self

/-- New colors change nothing of this. -/
lemma Keeps.recolor (h : Keeps g kept) (bg fg : UInt8) (r : Option UInt32) : Keeps (g.recolor bg fg r) kept := by
  cases r with
  | none => exact h
  | some p =>
    obtain ⟨L, l, num, k, d, mem⟩ := h
    have same : Flagged g _ (g.recolor bg fg (some p)) := flagged_setWindow rfl rfl
    have flags (q : UInt32) : ((g.recolor bg fg (some p)).windows q).focused = (g.windows q).focused :=
      focused_kept (by rfl) q
    refine ⟨L, l, num, k, { d with linked := ?_, id := fun q h => ?_, flag := fun q h => ?_ }, mem⟩
    · rw [same.next]
      exact d.linked
    · rw [same.id, d.id q h]
    · rw [flags]
      exact d.flag q h

lemma recolor_freed (bg fg : UInt8) (r : Option UInt32) : (g.recolor bg fg r).freed = g.freed := by
  cases r with
  | none => rfl
  | some p => rfl

lemma Keeps.focusWindow (h : Keeps g (some w)) :
    ∃ g', g.guiFocusWindow (some w) = some g' ∧ g'.freed = g.freed ∧ Keeps g' (some w) := by
  obtain ⟨L, l, num, k, d, mem⟩ := h
  obtain ⟨g', run, d', freed⟩ := d.focusWindow (mem w rfl)
  exact ⟨g', run, freed, L, l, num, k, d', mem⟩

lemma Keeps.forget (h : Keeps g kept) : Keeps g none := by
  obtain ⟨L, l, num, k, d, -⟩ := h
  exact ⟨L, l, num, k, d, nofun⟩

/-- `gui_show` returns, and frees the windows that there were. -/
lemma Desk.show_ (d : Desk g L l num k) :
    ∃ g', g.guiShow = some g' ∧ g'.freed = l.reverse ++ g.freed ∧ Keeps g' none := by
  have active : Desk { g with guiActive := true } L l num k := { d with }
  obtain ⟨g₀, free, freed₀, h₀⟩ := active.clear
  obtain ⟨r₁, g₁, run₁, freed₁, -, h₁⟩ := h₀.create 50 50 300 200 (State.bytes "RetaOS Terminal")
  obtain ⟨r₂, g₂, run₂, freed₂, h₂, -⟩ := (h₁.recolor GUI_COLOR_BLACK GUI_COLOR_LIGHT_GREEN r₁).create 400 100 250 150
    (State.bytes "File Manager")
  obtain ⟨r₃, g₃, run₃, freed₃, h₃, -⟩ := (h₂.recolor GUI_COLOR_WHITE GUI_COLOR_BLACK r₂).create 150 300 350 180
    (State.bytes "System Information")
  have h₄ := h₃.recolor GUI_COLOR_LIGHT_GREY GUI_COLOR_BLACK r₃
  obtain ⟨g₅, run₅, freed₅, h₅⟩ : ∃ g₅,
      (g₃.recolor GUI_COLOR_LIGHT_GREY GUI_COLOR_BLACK r₃).guiFocusWindow r₁ = some g₅ ∧
        g₅.freed = (g₃.recolor GUI_COLOR_LIGHT_GREY GUI_COLOR_BLACK r₃).freed ∧ Keeps g₅ r₁ := by
    cases r₁ with
    | none => exact ⟨_, rfl, rfl, h₄⟩
    | some p => exact h₄.focusWindow
  have shown := h₅.forget
  obtain ⟨L, l, num, k, d, -⟩ := h₅
  obtain ⟨drawn, draw⟩ := draw_ends d.linked
  refine ⟨g₅, ?_, ?_, shown⟩
  · simp only [State.guiShow, State.guiCreateSampleWindows, free, Option.bind_some, run₁, run₂, run₃, run₅, draw,
      Option.map_some]
  · rw [freed₅, recolor_freed, freed₃, recolor_freed, freed₂, recolor_freed, freed₁]
    exact freed₀

/-! ## Runs. -/

/-- A legal call returns, keeps the desktop and frees what it destroys. -/
theorem Desk.step {call : Call} (d : Desk g L l num k) (legal : call.Legal g) :
    ∃ g' L' l' num' k', call.step g = some g' ∧ Desk g' L' l' num' k' ∧ g'.freed = call.frees l ++ g.freed ∧
      ∀ window, call = .guiDestroyWindow window → l' = l.erase window := by
  cases call with
  | guiShow =>
    obtain ⟨g', run, freed, L', l', num', k', d', -⟩ := d.show_
    exact ⟨g', L', l', num', k', run, d', freed, by rintro _ ⟨⟩⟩
  | guiCreateWindow x y width height title =>
    obtain ⟨r, g', run, freed, cases_⟩ := d.create x y width height title
    have step : Call.step g (.guiCreateWindow x y width height title) = some g' := by
      rw [Call.step, run, Option.map_some]
    obtain ⟨-, d', -⟩ | ⟨p, -, d', -⟩ := cases_
    · exact ⟨g', _, _, _, _, step, d', freed, by rintro _ ⟨⟩⟩
    · exact ⟨g', _, _, _, _, step, d', freed, by rintro _ ⟨⟩⟩
  | guiDestroyWindow window =>
    obtain ⟨l', linked, mem⟩ := legal
    cases linked.unique d.linked
    obtain ⟨g', run, d', -, freed⟩ := d.destroy mem
    exact ⟨g', _, _, _, _, run, d', freed, by rintro _ ⟨⟩; rfl⟩
  | guiFocusWindow window =>
    obtain ⟨l', linked, mem⟩ := legal
    cases linked.unique d.linked
    obtain ⟨g', run, d', freed⟩ := d.focusWindow mem
    exact ⟨g', _, _, _, _, run, d', freed, by rintro _ ⟨⟩⟩

/-- A legal call keeps the desktop. -/
lemma Keeps.step {call : Call} (h : Keeps g none) (legal : call.Legal g) :
    ∃ g', call.step g = some g' ∧ Keeps g' none := by
  obtain ⟨L, l, num, k, d, -⟩ := h
  obtain ⟨g', L', l', num', k', run, d', -⟩ := d.step legal
  exact ⟨g', run, L', l', num', k', d', by rintro _ ⟨⟩⟩

/-- The desktop behind `gui_init`, on a heap that is in order. -/
def start (heap : Kheap.Heap) (windows : UInt32 → Window) (desktop : Desktop) (active : Bool) : State :=
  State.guiInit ⟨heap, windows, desktop, active, [], []⟩

lemma desk_start {heap : Kheap.Heap} (inv : Kheap.Inv (heap, L)) (windows : UInt32 → Window) (desktop : Desktop)
    (active : Bool) : Desk (start heap windows desktop active) L [] (fun _ => 0) 0 :=
  ⟨inv, nofun, .nil, rfl, nofun, nofun, nofun, rfl, Nat.zero_le _, nofun, nofun, fun _ => rfl⟩

/-- A heap of one free block behind `kheap_init`. -/
lemma inv_bare : Kheap.Inv (Kheap.kheapInit Kheap.bare, []) := Kheap.Reachable.inv rfl .refl

/-- A run on a fresh heap from a desktop in disorder. -/
abbrev Reaches (g : State) : Prop :=
  Runs Call.step (fun g call => call.Legal g)
    (start (Kheap.kheapInit Kheap.bare) (fun _ => ⟨7, 0, 0, 0, 0, [], 0, 0, 0, 0, 0, 1, some 8⟩)
      ⟨0, some 8, some 8, 5, 9⟩ true) g

/-- There is room for a window in a heap in which nothing is in use. -/
lemma kmalloc_unused (inv : Kheap.Inv (g.heap, [])) :
    ∃ r h', Kheap.kmalloc g.heap sizeofWindow = some (r, h') ∧ r ≠ 0 := by
  obtain ⟨blocks, v, owns⟩ := inv
  obtain rfl : blocks = [Kheap.initialBlock] := by
    refine v.unused fun b mem => ?_
    by_contra used
    rw [Bool.not_eq_false] at used
    obtain ⟨x, memx, -⟩ := owns.live b mem used
    cases memx
  obtain ⟨r, h', blocks', run, -, -, ⟨-, -, -, full⟩ | ⟨ne, -⟩⟩ := Kheap.kmalloc_effect v
    (show ¬ Kheap.Wraps sizeofWindow by decide)
  · exact absurd (show Kheap.Fits (Kheap.request sizeofWindow) Kheap.initialBlock by decide)
      (full Kheap.initialBlock List.mem_cons_self)
  · exact ⟨r, h', run, ne⟩

/-- Behind a desktop without windows comes one with a single window, which has the next number. -/
lemma Desk.createFirst (d : Desk g [] [] num k) (made : g.allocated.length = k) (run : Reaches g) :
    ∃ g' p num', Reaches g' ∧ Desk g' [(p, 104)] [p] num' (k + 1) ∧ num' p = k + 1 ∧ g'.allocated.length = k + 1 := by
  obtain ⟨r, h', alloc, ne⟩ := kmalloc_unused d.heap
  obtain ⟨g', create, -⟩ := guiCreateWindow_some alloc ne 0 0 10 10 []
  obtain ⟨r', g'', create', -, ⟨rfl, -⟩ | ⟨p, rfl, d', allocated⟩⟩ := d.create 0 0 10 10 []
  · cases create.symm.trans create'
  · refine ⟨g'', p, _, ?_, d', Function.update_self .., by rw [allocated, List.length_cons, made]⟩
    have legal : Call.Legal g (.guiCreateWindow 0 0 10 10 []) := show 0 < TITLE_SIZE by decide
    refine run.step legal ?_
    rw [Call.step, create', Option.map_some]

/-- Windows that are created and destroyed leave nothing but their numbers. -/
lemma reaches_unused (n : Nat) : ∃ g num, Reaches g ∧ Desk g [] [] num n ∧ g.allocated.length = n := by
  induction n with
  | zero => exact ⟨_, _, .refl, desk_start inv_bare .., rfl⟩
  | succ n ih =>
    obtain ⟨g, num, run, d, made⟩ := ih
    obtain ⟨g', p, num', run', d', -, made'⟩ := d.createFirst made run
    obtain ⟨g'', destroy, d'', allocated, -⟩ := d'.destroy List.mem_cons_self
    have unused : Kheap.Live.drop p [(p, 104)] = [] := by simp [Kheap.Live.drop]
    rw [unused, List.erase_cons_head] at d''
    refine ⟨g'', num', ?_, d'', by rw [allocated, made']⟩
    have legal : Call.Legal g' (.guiDestroyWindow p) := ⟨[p], d'.linked, List.mem_cons_self⟩
    exact run'.step legal destroy

/-- After every sequence of legal calls by which fewer than `2 ^ 31` windows were created, the desktop is in order, with
    the `id`s below `next_window_id` for fewer than `2 ^ 31 - 1`. The next legal call returns; it frees what it destroys
    and nothing else, and behind the destruction of a window that window is no longer in the list. -/
theorem windows_consistent (heap : Kheap.Heap) (L : Kheap.Live) (inv : Kheap.Inv (heap, L)) (windows : UInt32 → Window)
    (desktop : Desktop) (active : Bool) (g : State)
    (run : Runs Call.step (fun g call => call.Legal g) (start heap windows desktop active) g)
    (few : g.allocated.length < 2 ^ 31) :
    ∃ l, Ordered g l ∧ (g.allocated.length < 2 ^ 31 - 1 → Below g l) ∧
      ∀ call : Call, call.Legal g → ∃ g' l', call.step g = some g' ∧ Linked g'.next g'.desktop.windows l' ∧
        g'.freed = call.frees l ++ g.freed ∧ ∀ w, call = .guiDestroyWindow w → Destroyed g l w g' l' := by
  have keeps : Keeps g none := by
    refine run.invariant (I := fun g => Keeps g none) ⟨_, _, _, _, desk_start inv windows desktop active, nofun⟩
      fun g call g' h legal step => ?_
    obtain ⟨g'', run, h'⟩ := h.step legal
    cases step.symm.trans run
    exact h'
  obtain ⟨L, l, num, k, d, -⟩ := keeps
  refine ⟨l, d.ordered few, d.below, fun call legal => ?_⟩
  obtain ⟨g', L', l', num', k', step, d', freed, erased⟩ := d.step legal
  refine ⟨g', l', step, d'.linked, freed, ?_⟩
  rintro w rfl
  have list := erased w rfl
  refine ⟨list, ?_, ?_⟩
  · rw [list]
    exact d.linked.nodup.not_mem_erase
  · rw [freed, Call.frees, List.singleton_append, List.count_cons_self]

/-- With one window created, that window is destroyed. -/
theorem windows_consistent_first : ∃ g w g', Reaches g ∧ g.allocated = [w] ∧ Ordered g [w] ∧ Below g [w] ∧
    Call.step g (.guiDestroyWindow w) = some g' ∧ Linked g'.next g'.desktop.windows [] ∧ g'.freed = [w] := by
  obtain ⟨g, p, num, run, d, -, made⟩ := (desk_start inv_bare ..).createFirst rfl .refl
  obtain ⟨l, order, below, next⟩ := windows_consistent _ _ inv_bare _ _ _ g run (by omega)
  cases order.linked.unique d.linked
  obtain ⟨g', l', step, linked, freed, destroyed⟩ := next (.guiDestroyWindow p) ⟨[p], d.linked, List.mem_cons_self⟩
  obtain ⟨q, allocated⟩ := List.length_eq_one_iff.mp made
  have once := order.freed_once
  rw [allocated] at once
  obtain rfl : q = p := by
    by_contra ne
    have none := once p
    rw [List.count_singleton_self, List.count_singleton, if_neg (by simpa using ne)] at none
    omega
  have unfreed : g.freed = [] := by
    refine List.eq_nil_iff_forall_not_mem.mpr fun x => List.count_eq_zero.mp ?_
    have eq := once x
    omega
  rw [unfreed] at freed
  have list := (destroyed q rfl).list
  rw [List.erase_cons_head] at list
  rw [list] at linked
  exact ⟨g, q, g', run, allocated, order, below (by omega), step, linked, freed⟩

/-- With `2 ^ 31 - 1` windows created, `next_window_id` has wrapped. -/
theorem windows_wrapped : ∃ g, Reaches g ∧ g.allocated.length < 2 ^ 31 ∧ ¬ Consistent g := by
  obtain ⟨g, num, run, d, made⟩ := reaches_unused (2 ^ 31 - 2)
  obtain ⟨g', p, num', run', d', number, made'⟩ := d.createFirst made run
  refine ⟨g', run', by omega, ?_⟩
  rintro ⟨l, order, below⟩
  cases order.linked.unique d'.linked
  have lt := below p List.mem_cons_self
  rw [d'.id p List.mem_cons_self, number, d'.last] at lt
  exact absurd lt (by decide)

end RetaOS.Gui
