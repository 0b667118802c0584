import Mathlib.Data.List.Induction
import Mathlib.Data.Option.Basic

/-!
# Runs of a deterministic system

A system is a partial function `step : σ → ω → Option σ` that performs an operation in a state, where `none` is an
operation that never returns. `Runs step ok x₀ x` says that operations which satisfy `ok` lead from `x₀` to `x`.
`Runs.invariant` is the induction over a run. `Runs.split` is for a property that one kind of operation destroys for
good: a run performs no such operation, or it has ended up where the property is lost. `always_iff_each` is for one
that may come back: over the run of a given list of operations, it holds throughout exactly when each is safe. In
`always_iff_each_of` a stronger invariant goes along with it.
-/

namespace Lib

variable {σ ω : Type*} {step : σ → ω → Option σ} {ok ok' : σ → ω → Prop} {x₀ x y : σ}

/-- The states that operations which satisfy `ok` lead to. -/
inductive Runs (step : σ → ω → Option σ) (ok : σ → ω → Prop) (x₀ : σ) : σ → Prop where
  | refl : Runs step ok x₀ x₀
  | step {x op x'} :
    Runs step ok x₀ x →
    ok x op →
    step x op = some x' →
    Runs step ok x₀ x'

/-- What every operation preserves holds of every state of a run. -/
theorem Runs.invariant {I : σ → Prop} (start : I x₀)
    (keep : ∀ x op x', I x → ok x op → step x op = some x' → I x') (run : Runs step ok x₀ x) : I x := by
  induction run with
  | refl => exact start
  | step _ h e ih => exact keep _ _ _ ih h e

/-- A weaker condition on the operations reaches more. -/
lemma Runs.mono (le : ∀ x op, ok x op → ok' x op) (run : Runs step ok x₀ x) : Runs step ok' x₀ x := by
  induction run with
  | refl => exact .refl
  | step _ h e ih => exact ih.step (le _ _ h) e

/-- A list of operations performed one after the other. -/
lemma Runs.of_foldlM (all : ∀ x op, ok x op) (ops : List ω) (run : Runs step ok x₀ x)
    (h : ops.foldlM step x = some y) : Runs step ok x₀ y := by
  induction ops generalizing x with
  | nil =>
    cases h
    exact run
  | cons op ops ih =>
    rw [List.foldlM_cons] at h
    obtain ⟨x', e, h⟩ := Option.bind_eq_some_iff.mp h
    exact ih (run.step (all x op) e) h

/-- Operations that all return, one after the other. -/
lemma foldlM_returns (returns : ∀ x op, ∃ x', step x op = some x') (ops : List ω) (x : σ) :
    ∃ y, ops.foldlM step x = some y := by
  induction ops generalizing x with
  | nil => exact ⟨x, rfl⟩
  | cons op ops ih =>
    obtain ⟨x₁, first⟩ := returns x op
    obtain ⟨y, rest⟩ := ih x₁
    exact ⟨y, by rw [List.foldlM_cons, first]; exact rest⟩

/-- A run has kept to the safe operations and with them `I`, or it has come to `B`, which it does not leave. -/
theorem Runs.split {safe : σ → ω → Prop} {I B : σ → Prop} (start : I x₀)
    (keep : ∀ x op x', I x → ok x op → safe x op → step x op = some x' → I x')
    (leave : ∀ x op x', I x → ok x op → ¬ safe x op → step x op = some x' → B x')
    (stay : ∀ x op x', B x → ok x op → step x op = some x' → B x') (run : Runs step ok x₀ x) :
    Runs step (fun x op => ok x op ∧ safe x op) x₀ x ∧ I x ∨ B x := by
  induction run with
  | refl => exact .inl ⟨.refl, start⟩
  | @step x op x' _ h e ih =>
    obtain ⟨run, inv⟩ | broken := ih
    · by_cases s : safe x op
      · exact .inl ⟨run.step ⟨h, s⟩ e, keep x op x' inv h s e⟩
      · exact .inr (leave x op x' inv h s e)
    · exact .inr (stay x op x' broken h e)

/-- A property that the safe operations keep, and that is lost for good by any other, holds exactly after the runs
    of safe operations. -/
theorem Runs.iff_safe {safe : σ → ω → Prop} {I B P : σ → Prop} (start : I x₀)
    (keep : ∀ x op x', I x → ok x op → safe x op → step x op = some x' → I x')
    (leave : ∀ x op x', I x → ok x op → ¬ safe x op → step x op = some x' → B x')
    (stay : ∀ x op x', B x → ok x op → step x op = some x' → B x')
    (holds : ∀ x, I x → P x) (fails : ∀ x, B x → ¬ P x) (run : Runs step ok x₀ x) :
    P x ↔ Runs step (fun x op => ok x op ∧ safe x op) x₀ x := by
  constructor
  · intro hp
    obtain ⟨safeRun, -⟩ | broken := run.split start keep leave stay
    · exact safeRun
    · exact absurd hp (fails x broken)
  · intro safeRun
    refine holds x (safeRun.invariant start fun x op x' inv h e => ?_)
    exact keep x op x' inv h.1 h.2 e

/-! ## Runs of a given list of operations. -/

/-- Every operation of a run returns, and a property holds in every state of it. -/
def Always (step : σ → ω → Option σ) (P : σ → Prop) (x₀ : σ) (ops : List ω) : Prop :=
  ∀ pre post, ops = pre ++ post → ∃ x, pre.foldlM step x₀ = some x ∧ P x

/-- A condition holds of every operation of a run, in the state in which it is performed. -/
def Each (step : σ → ω → Option σ) (c : σ → ω → Prop) (x₀ : σ) (ops : List ω) : Prop :=
  ∀ pre op post x, ops = pre ++ op :: post → pre.foldlM step x₀ = some x → c x op

@[simp] lemma each_nil {c : σ → ω → Prop} : Each step c x₀ [] := by
  intro pre op post x split
  cases pre <;> cases split

/-- The operations of a run are the first one and those of the run from the state behind it. -/
lemma each_cons {c : σ → ω → Prop} {op : ω} {ops : List ω} :
    Each step c x₀ (op :: ops) ↔ c x₀ op ∧ ∀ x, step x₀ op = some x → Each step c x ops := by
  constructor
  · intro each
    refine ⟨each [] op ops x₀ rfl rfl, fun x e pre op' post y split run => ?_⟩
    refine each (op :: pre) op' post y (by rw [split]; rfl) ?_
    rw [List.foldlM_cons, e]
    exact run
  · rintro ⟨first, rest⟩ pre op' post y split run
    cases pre with
    | nil =>
      cases split
      cases run
      exact first
    | cons _ pre =>
      cases split
      rw [List.foldlM_cons] at run
      obtain ⟨x, e, run⟩ := Option.bind_eq_some_iff.mp run
      exact rest x e pre op' post y rfl run

/-- A run and one more operation. -/
lemma foldlM_concat {op : ω} {ops : List ω} (run : ops.foldlM step x₀ = some x) :
    (ops ++ [op]).foldlM step x₀ = step x op := by
  rw [List.foldlM_append, run]
  exact Option.bind_fun_some (step x op)

/-- A property that an invariant gives, and that is lost at once with it, holds throughout the runs of those operations
    only that keep the invariant. -/
theorem always_iff_each_of {safe : σ → ω → Prop} {I P : σ → Prop} {ops : List ω} (start : I x₀) (holds : ∀ x, I x → P x)
    (keep : ∀ x op, I x → ok x op → safe x op → ∃ x', step x op = some x' ∧ I x')
    (lose : ∀ x op x', I x → ok x op → ¬ safe x op → step x op = some x' → ¬ P x') (legal : Each step ok x₀ ops) :
    Always step P x₀ ops ↔ Each step safe x₀ ops := by
  -- the invariant holds behind every operation that the property or the condition vouches for
  have inv (vouched : ∀ pre op post x, ops = pre ++ op :: post → pre.foldlM step x₀ = some x → I x → safe x op) :
      Always step I x₀ ops := by
    intro pre
    induction pre using List.reverseRecOn with
    | nil => exact fun _ _ => ⟨x₀, rfl, start⟩
    | append_singleton pre op ih =>
      intro post split
      rw [List.append_assoc] at split
      obtain ⟨x, run, h⟩ := ih ([op] ++ post) split
      obtain ⟨x', e, h'⟩ := keep x op h (legal pre op post x split run) (vouched pre op post x split run h)
      exact ⟨x', (foldlM_concat run).trans e, h'⟩
  constructor
  · intro always
    have vouched (pre op post x) (split : ops = pre ++ op :: post) (run : pre.foldlM step x₀ = some x) (h : I x) :
        safe x op := by
      by_contra unsafely
      obtain ⟨x', run', h'⟩ := always (pre ++ [op]) post (by rw [split, List.append_assoc]; rfl)
      rw [foldlM_concat run] at run'
      exact lose x op x' h (legal pre op post x split run) unsafely run' h'
    intro pre op post x split run
    obtain ⟨y, run', h⟩ := inv vouched pre (op :: post) split
    cases run.symm.trans run'
    exact vouched pre op post x split run h
  · intro each pre post split
    obtain ⟨x, run, h⟩ := inv (fun pre op post x split run _ => each pre op post x split run) pre post split
    exact ⟨x, run, holds x h⟩

/-- A property that an operation keeps exactly when it is safe holds throughout the runs of safe operations only. -/
theorem always_iff_each {safe : σ → ω → Prop} {P : σ → Prop} {ops : List ω} (start : P x₀)
    (keep : ∀ x op, P x → ok x op → ∃ x', step x op = some x' ∧ (P x' ↔ safe x op)) (legal : Each step ok x₀ ops) :
    Always step P x₀ ops ↔ Each step safe x₀ ops := by
  refine always_iff_each_of start (fun _ h => h) (fun x op h hok safe => ?_) (fun x op x' h hok other e h' => ?_) legal
  · obtain ⟨x', e, iff⟩ := keep x op h hok
    exact ⟨x', e, iff.mpr safe⟩
  · obtain ⟨x'', e', iff⟩ := keep x op h hok
    cases e.symm.trans e'
    exact other (iff.mp h')

end Lib
