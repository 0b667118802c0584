import Mathlib.Data.List.Basic
import Mathlib.Tactic.Common

/-!
# Emitting a text piece by piece

A text that grows piece by piece, where what a piece adds may depend on how long the text is already. `render` emits
every piece. `renderUpTo limit` stops as soon as the text has `limit` elements, which a piece that was begun below the
limit may still cross; where none does, and where every piece is clipped at the limit, it is known what comes out
(`renderUpTo_length_le_iff`, `renderUpTo_clip`).
-/

namespace Lib

/-- What a piece adds to a text of a given length. -/
abbrev Piece (α : Type*) := Nat → List α

variable {α : Type*}

/-- Emit every piece behind `out`. -/
def render : List α → List (Piece α) → List α
  | out, [] => out
  | out, p :: ps => render (out ++ p out.length) ps

/-- Emit pieces as long as there are less than `limit` elements. -/
def renderUpTo (limit : Nat) : List α → List (Piece α) → List α
  | out, [] => out
  | out, p :: ps => if out.length < limit then renderUpTo limit (out ++ p out.length) ps else out

/-- A piece that stops at the limit. -/
def Piece.clip (limit : Nat) (p : Piece α) : Piece α := fun pos => (p pos).take (limit - pos)

variable {limit : Nat} {out : List α} {ps qs : List (Piece α)}

lemma render_append : render out (ps ++ qs) = render (render out ps) qs := by
  induction ps generalizing out with
  | nil => rfl
  | cons p ps ih => exact ih

/-- What is emitted stays. -/
lemma render_prefix : out <+: render out ps := by
  induction ps generalizing out with
  | nil => exact List.prefix_rfl
  | cons p ps ih => exact (List.prefix_append out _).trans ih

lemma renderUpTo_prefix : out <+: renderUpTo limit out ps := by
  induction ps generalizing out with
  | nil => exact List.prefix_rfl
  | cons p ps ih =>
    rw [renderUpTo]
    split_ifs
    · exact (List.prefix_append out _).trans ih
    · exact List.prefix_rfl

/-- A text only gets longer. -/
lemma length_le_render : out.length ≤ (render out ps).length :=
  List.IsPrefix.length_le render_prefix

lemma length_le_renderUpTo : out.length ≤ (renderUpTo limit out ps).length :=
  List.IsPrefix.length_le renderUpTo_prefix

/-- Behind a text that is not empty, pieces that only ask whether there is one add the same text. -/
lemma render_steady (steady : ∀ p ∈ ps, ∀ pos, 0 < pos → p pos = p 1) (ne : out ≠ []) :
    render out ps = out ++ ps.flatMap (· 1) := by
  induction ps generalizing out with
  | nil => exact (List.append_nil out).symm
  | cons p ps ih =>
    have first := steady p List.mem_cons_self out.length (List.length_pos_iff.mpr ne)
    rw [render, first, ih (fun q mem => steady q (List.mem_cons_of_mem p mem)) (by simp [ne]), List.flatMap_cons,
      List.append_assoc]

/-- Pieces that are clipped at the limit emit the text up to the limit. -/
lemma renderUpTo_clip (le : out.length ≤ limit) :
    renderUpTo limit out (ps.map (Piece.clip limit)) = (render out ps).take limit := by
  induction ps generalizing out with
  | nil => exact (List.take_of_length_le le).symm
  | cons p ps ih =>
    rw [List.map_cons, renderUpTo, render, Piece.clip]
    split_ifs with room
    · by_cases fits : out.length + (p out.length).length ≤ limit
      · rw [List.take_of_length_le (by omega)]
        exact ih (by rw [List.length_append]; exact fits)
      · -- the piece is cut, and the text is full
        have full : (out ++ (p out.length).take (limit - out.length)).length = limit := by
          rw [List.length_append, List.length_take]
          omega
        have cut : (out ++ p out.length).take limit = out ++ (p out.length).take (limit - out.length) := by
          rw [List.take_append, List.take_of_length_le le]
        obtain ⟨rest, eq⟩ : (out ++ p out.length) <+: render (out ++ p out.length) ps := render_prefix
        rw [← eq, List.take_append_of_le_length (by rw [List.length_append]; omega), cut, ih (by omega)]
        obtain ⟨rest, eq⟩ : (out ++ (p out.length).take (limit - out.length)) <+:
          render (out ++ (p out.length).take (limit - out.length)) ps := render_prefix
        rw [← eq, List.take_append_of_le_length (by omega), List.take_of_length_le (by omega)]
    · obtain ⟨rest, eq⟩ : out <+: render (out ++ p out.length) ps := (List.prefix_append out _).trans render_prefix
      rw [← eq, List.take_append_of_le_length (by omega), List.take_of_length_le (by omega)]

/-- The limit is kept exactly when no piece that begins below it goes across. -/
lemma renderUpTo_length_le_iff (le : out.length ≤ limit) : (renderUpTo limit out ps).length ≤ limit ↔
    ∀ pre p post, ps = pre ++ p :: post → (render out pre).length < limit →
      (render out (pre ++ [p])).length ≤ limit := by
  induction ps generalizing out with
  | nil => exact iff_of_true le fun pre p post split => by cases pre <;> cases split
  | cons p ps ih =>
    by_cases room : out.length < limit
    · rw [renderUpTo, if_pos room]
      by_cases fits : (out ++ p out.length).length ≤ limit
      · rw [ih fits]
        constructor
        · intro rest pre q post split below
          cases pre with
          | nil =>
            cases split
            exact fits
          | cons _ pre =>
            cases split
            exact rest pre q post rfl below
        · intro all pre q post split
          exact all (p :: pre) q post (by rw [split]; rfl)
      · -- the first piece crosses the limit
        have stays : out ++ p out.length <+: renderUpTo limit (out ++ p out.length) ps := renderUpTo_prefix
        refine iff_of_false (fun kept => fits (Nat.le_trans stays.length_le kept)) fun all => fits ?_
        exact all [] p ps rfl room
    · rw [renderUpTo, if_neg room]
      refine iff_of_true le fun pre q post _ below => absurd below ?_
      have stays : out <+: render out pre := render_prefix
      have len := stays.length_le
      omega

end Lib
