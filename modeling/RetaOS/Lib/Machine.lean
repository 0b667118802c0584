import Mathlib.Logic.Basic

/-!
# Machines that answer

A machine takes operations and answers each. `answers` are those to a list of operations. One machine refines another
when their states stay related and their answers are the same (`answers_eq`).
-/

namespace Lib

variable {σ τ ω α : Type*} {step : σ → ω → α × σ} {step' : τ → ω → α × τ} {s : σ} {t : τ}

/-- The answers of a machine to operations, from a state on. -/
def answers (step : σ → ω → α × σ) (s : σ) : List ω → List α
  | [] => []
  | op :: ops => (step s op).1 :: answers step (step s op).2 ops

/-- The state behind them. -/
def final (step : σ → ω → α × σ) (s : σ) (ops : List ω) : σ := ops.foldl (fun s op => (step s op).2) s

lemma final_append (ops ops' : List ω) : final step s (ops ++ ops') = final step (final step s ops) ops' :=
  List.foldl_append

lemma answers_append (ops ops' : List ω) :
    answers step s (ops ++ ops') = answers step s ops ++ answers step (final step s ops) ops' := by
  induction ops generalizing s with
  | nil => rfl
  | cons op ops ih => exact congrArg ((step s op).1 :: ·) ih

/-- A machine whose states stay related to those of another, with the same answers. -/
structure Refines (step : σ → ω → α × σ) (step' : τ → ω → α × τ) (R : σ → τ → Prop) : Prop where
  answer : ∀ s t op, R s t → (step s op).1 = (step' t op).1
  keep : ∀ s t op, R s t → R (step s op).2 (step' t op).2

/-- It answers every list of operations as the other does. -/
theorem Refines.answers_eq {R : σ → τ → Prop} (r : Refines step step' R) (h : R s t) (ops : List ω) :
    answers step s ops = answers step' t ops := by
  induction ops generalizing s t with
  | nil => rfl
  | cons op ops ih => exact congrArg₂ List.cons (r.answer s t op h) (ih (r.keep s t op h))

end Lib
