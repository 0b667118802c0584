import Mathlib.Data.List.Induction
import Mathlib.Data.Bool.Basic

/-!
# Painting

A picture says which color is seen at each place, as far as anything was painted there. Shapes are painted one over the
other, and at each place the last one that covers it is seen (`Picture.paint_eq`). A device shows pictures, on those of
the places that can be seen; what draws on it is compared with the shapes that it paints (`Device.Draws`). Actions that
draw are composed, in sequence and by a loop, and several shapes of one color are one (`Device.Draws.merge`).
-/

namespace Lib

/-- A region in one color. -/
structure Shape (P C : Type*) where
  region : P → Bool
  color : C

/-- What is seen at each place. -/
abbrev Picture (P C : Type*) := P → Option C

namespace Picture

variable {P C : Type*} {pic : Picture P C} {s : Shape P C} {l l' : List (Shape P C)} {p : P} {c : C}

/-- Shapes painted over a picture, the first one first. -/
def paint (pic : Picture P C) (l : List (Shape P C)) : Picture P C :=
  l.foldl (fun pic s p => if s.region p then some s.color else pic p) pic

lemma paint_append : pic.paint (l ++ l') = (pic.paint l).paint l' := List.foldl_append

lemma paint_concat : pic.paint (l ++ [s]) p = if s.region p then some s.color else pic.paint l p := by
  rw [paint_append]
  rfl

/-- The last shape over a place is seen there. -/
lemma paint_eq : pic.paint l p = ((l.reverse.find? (·.region p)).map Shape.color).or (pic p) := by
  induction l using List.reverseRecOn with
  | nil => rfl
  | append_singleton l s ih =>
    rw [paint_concat, List.reverse_append, List.reverse_singleton, List.singleton_append, List.find?_cons]
    cases s.region p with
    | true => rfl
    | false => exact ih

/-- Shapes of one color show it in their union. -/
lemma paint_same (same : ∀ s ∈ l, s.color = c) :
    pic.paint l p = if l.any (·.region p) then some c else pic p := by
  induction l using List.reverseRecOn with
  | nil => rfl
  | append_singleton l s ih =>
    obtain ⟨front, last⟩ := List.forall_mem_append.mp same
    rw [paint_concat, List.any_append, ih front, last s List.mem_cons_self, List.any_cons, List.any_nil, Bool.or_false]
    cases s.region p <;> simp

end Picture

/-- Something that shows pictures, at the places that can be seen. -/
structure Device (M P C : Type*) where
  Shows : M → Picture P C → Prop
  Visible : P → Prop
  local_ : ∀ {m pic pic'}, Shows m pic → (∀ p, Visible p → pic' p = pic p) → Shows m pic'

namespace Device

variable {M P C ι : Type*} {d : Device M P C} {f g : M → M} {l l' : List (Shape P C)} {region : P → Bool} {c : C}

/-- An action paints shapes over what is shown. -/
def Draws (d : Device M P C) (f : M → M) (l : List (Shape P C)) : Prop :=
  ∀ m pic, d.Shows m pic → d.Shows (f m) (pic.paint l)

namespace Draws

protected lemma id : d.Draws (fun m => m) [] := fun _ _ h => h

lemma comp (h : d.Draws f l) (h' : d.Draws g l') : d.Draws (fun m => g (f m)) (l ++ l') := by
  intro m pic shows_
  rw [Picture.paint_append]
  exact h' _ _ (h _ _ shows_)

/-- A loop paints the shapes of its passes. -/
lemma foldl {is : List ι} {body : ι → M → M} {shapes : ι → List (Shape P C)}
    (h : ∀ i ∈ is, d.Draws (body i) (shapes i)) :
    d.Draws (fun m => is.foldl (fun m i => body i m) m) (is.flatMap shapes) := by
  induction is with
  | nil => exact Draws.id
  | cons i is ih =>
    obtain ⟨first, rest⟩ := List.forall_mem_cons.mp h
    exact first.comp (ih rest)

/-- Shapes that look the same where they can be seen. -/
lemma congr (h : d.Draws f l) (same : ∀ pic p, d.Visible p → Picture.paint pic l' p = Picture.paint pic l p) :
    d.Draws f l' :=
  fun m pic shows_ => d.local_ (h m pic shows_) (same pic)

/-- Shapes of one color are one shape. -/
lemma merge (h : d.Draws f l) (color : ∀ s ∈ l, s.color = c)
    (same : ∀ p, d.Visible p → (region p = true ↔ ∃ s ∈ l, s.region p = true)) : d.Draws f [⟨region, c⟩] := by
  refine h.congr fun pic p visible => ?_
  rw [Picture.paint_same color]
  have eq : l.any (·.region p) = region p := by
    rw [Bool.eq_iff_iff, List.any_eq_true, same p visible]
  rw [eq]
  rfl

end Draws

end Device

end Lib
