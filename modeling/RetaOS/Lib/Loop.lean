import Mathlib.Data.List.Defs
import Mathlib.Data.Nat.Find
import Mathlib.Logic.Function.Iterate
import Mathlib.Logic.Relation

/-!
# While loops

A `while` loop of an imperative program as a function: one pass through the body is a function
`σ → Pass σ α` that either goes round again with a new state or leaves the loop with a result, and
`loop body s` is the result of running it from `s`, or `none` when it never leaves. `Passes` counts the
passes of a run, and `Trail` lists the states that they begin in. The rules are the ones a program logic has
for `while`: an invariant (`loop_invariant`, `loop_rule`), a variant (`loop_variant`), a recurrent set for
divergence (`loop_diverges`) and a simulation for two loops (`loop_simulation`). A loop whose states are known
one by one is `Unrolls`, which says when it ends, and one that goes along a chain of positions is `Along`.
Loops that call an iterator until it has no more are `collect`, and `Yields` is what they give.
-/

namespace Lib

/-- The outcome of one pass through a loop body. -/
inductive Pass (σ α : Type*) where
  | next (s : σ)
  | done (a : α)

/-- A pass that needs the result of an inner loop: when that never ends, neither does the pass, and the
    outer loop goes round at `s` for ever. -/
def Pass.inner {σ α β : Type*} (s : σ) (r : Option β) (k : β → Pass σ α) : Pass σ α :=
  match r with
  | none => .next s
  | some b => k b

variable {σ α : Type*} {body : σ → Pass σ α}

/-- Run a loop until its body leaves it; `none` when it never does. -/
def loop (body : σ → Pass σ α) (s : σ) : Option α :=
  match body s with
  | .next s' => by
    -- by a tactic, so that the term carries no source position of the call
    apply loop
    · exact body
    · exact s'
  | .done a => some a
partial_fixpoint

/-- A pass that goes round again. -/
lemma loop_next {s s'} (h : body s = .next s') : loop body s = loop body s' := by
  rw [loop, h]

/-- A pass that leaves the loop. -/
lemma loop_done {s a} (h : body s = .done a) : loop body s = some a := by
  rw [loop, h]

/-- The states a run of the loop passes through, with the number of passes. -/
inductive Passes (body : σ → Pass σ α) : σ → Nat → σ → Prop where
  | refl {s} : Passes body s 0 s
  | step {s n s' s''} :
    Passes body s n s' →
    body s' = .next s'' →
    Passes body s (n + 1) s''

/-- A loop and any state it passes through have the same result. -/
lemma Passes.loop_eq {s n s'} (ps : Passes body s n s') : loop body s = loop body s' := by
  induction ps with
  | refl => rfl
  | step _ h ih => rw [ih, loop_next h]

/-- Passes can also be counted from the front. -/
lemma Passes.head {s s' n s''} (h : body s = .next s') (ps : Passes body s' n s'') :
    Passes body s (n + 1) s'' := by
  induction ps with
  | refl => exact .step .refl h
  | step _ h' ih => exact .step ih h'

/-- The last pass of a run. -/
lemma Passes.last {s n s''} (ps : Passes body s (n + 1) s'') :
    ∃ s', Passes body s n s' ∧ body s' = .next s'' := by
  cases ps with
  | step ps h => exact ⟨_, ps, h⟩

/-- The states in which a run of the loop begins its passes, in order, and the state behind them. -/
inductive Trail (body : σ → Pass σ α) : σ → List σ → σ → Prop where
  | nil {s} : Trail body s [] s
  | cons {s s' s'' l} :
    body s = .next s' →
    Trail body s' l s'' →
    Trail body s (s :: l) s''

/-- A loop has the same result before and behind the passes of a trail. -/
lemma Trail.loop_eq {s l s'} (t : Trail body s l s') : loop body s = loop body s' := by
  induction t with
  | nil => rfl
  | cons h _ ih => rw [loop_next h, ih]

/-- A loop whose states are known one by one, up to the pass that leaves it. -/
lemma loop_seq {seq : Nat → σ} {n a} (next : ∀ i < n, body (seq i) = .next (seq (i + 1)))
    (leave : body (seq n) = .done a) : loop body (seq 0) = some a := by
  have passes (k : Nat) (le : k ≤ n) : Passes body (seq 0) k (seq k) := by
    induction k with
    | zero => exact .refl
    | succ k ih => exact .step (ih (Nat.le_of_succ_le le)) (next k le)
  rw [(passes n (Nat.le_refl n)).loop_eq, loop_done leave]

/-- Every pass of a trail goes round again. -/
lemma Trail.next {s l s'} (t : Trail body s l s') : ∀ p ∈ l, ∃ p', body p = .next p' := by
  induction t with
  | nil => nofun
  | cons h _ ih =>
    intro p mem
    cases mem with
    | head => exact ⟨_, h⟩
    | tail _ mem => exact ih p mem

/-- A run is in one state after a number of passes. -/
lemma Passes.det {s n s' s''} (ps : Passes body s n s') (ps' : Passes body s n s'') : s' = s'' := by
  induction ps generalizing s'' with
  | refl =>
    cases ps'
    rfl
  | step _ h ih =>
    cases ps' with
    | step ps' h' =>
      cases ih ps'
      exact Pass.next.inj (h.symm.trans h')

/-- A run can be cut at an earlier pass. -/
lemma Passes.cut {s n k s'} (ps : Passes body s k s') (lt : n < k) :
    ∃ s1 s2, Passes body s n s1 ∧ body s1 = .next s2 := by
  induction ps with
  | refl => cases lt
  | @step k s1 s2 ps h ih =>
    by_cases e : n = k
    · subst e
      exact ⟨s1, s2, ps, h⟩
    · exact ih (by omega)

/-- The state that a loop leaves from comes after every state it goes on from. -/
lemma Passes.lt_exit {s k s1 s2 n s' a} (ps : Passes body s k s1) (h : body s1 = .next s2)
    (ps' : Passes body s n s') (h' : body s' = .done a) : k < n := by
  by_contra le
  by_cases e : n = k
  · subst e
    cases ps.det ps'
    cases h.symm.trans h'
  · obtain ⟨s3, s4, ps3, h3⟩ := ps.cut (n := n) (by omega)
    cases ps3.det ps'
    cases h3.symm.trans h'

/-- What every pass preserves holds of every state passed through. -/
lemma Passes.invariant {I : σ → Prop} (step : ∀ s s', I s → body s = .next s' → I s')
    {s n s'} (ps : Passes body s n s') (h : I s) : I s' := by
  induction ps with
  | refl => exact h
  | step _ hb ih => exact step _ _ ih hb

/-- A loop with a result leaves from a state it passes through. -/
lemma loop_exit {s a} (h : loop body s = some a) :
    ∃ n s', Passes body s n s' ∧ body s' = .done a := by
  refine loop.partial_correctness body
    (fun s a => ∃ n s', Passes body s n s' ∧ body s' = .done a) ?_ s a h
  intro rec ih s a e
  cases hb : body s with
  | next s' =>
    simp only [hb] at e
    obtain ⟨n, s'', ps, hd⟩ := ih s' a e
    exact ⟨n + 1, s'', ps.head hb, hd⟩
  | done b =>
    simp only [hb, Option.some.injEq] at e
    subst e
    exact ⟨0, s, .refl, hb⟩

/-- The invariant rule: what holds at entry, is kept by every pass and gives the postcondition at the
    exit, gives it of the loop's result. -/
theorem loop_invariant {I : σ → Prop} {Q : α → Prop}
    (step : ∀ s s', I s → body s = .next s' → I s')
    (exit : ∀ s a, I s → body s = .done a → Q a)
    {s a} (h : I s) (e : loop body s = some a) : Q a := by
  obtain ⟨n, s', ps, hd⟩ := loop_exit e
  exact exit s' a (ps.invariant step h) hd

/-- A pass goes round again at a state of `I`, or leaves the loop with a result of `Q`. -/
inductive Pass.To (I : σ → Prop) (Q : α → Prop) : Pass σ α → Prop where
  | next {s} : I s → To I Q (.next s)
  | done {a} : Q a → To I Q (.done a)

/-- A pass with an inner loop goes where the rest of the pass does, or stays. -/
lemma Pass.To.inner {β : Type*} {I : σ → Prop} {Q : α → Prop} {s : σ} {r : Option β} {k : β → Pass σ α} (stay : I s)
    (rest : ∀ b, r = some b → (k b).To I Q) : (Pass.inner s r k).To I Q := by
  cases r with
  | none => exact .next stay
  | some b => exact rest b rfl

/-- The invariant rule with one premise: every pass from a state of `I` goes to `I` or to `Q`. -/
theorem loop_rule {I : σ → Prop} {Q : α → Prop} (pass : ∀ s, I s → (body s).To I Q) {s a} (h : I s)
    (e : loop body s = some a) : Q a := by
  refine loop_invariant (fun s s' hs hb => ?_) (fun s a hs hb => ?_) h e
  · have goes := pass s hs
    rw [hb] at goes
    cases goes with
    | next h => exact h
  · have goes := pass s hs
    rw [hb] at goes
    cases goes with
    | done h => exact h

/-- The converse rule: what gives a result its property at the exit, and goes back over every pass, held at entry. -/
theorem loop_back {P : σ → Prop} {Q : α → Prop} (step : ∀ s s', body s = .next s' → P s' → P s)
    (exit : ∀ s a, body s = .done a → Q a → P s) {s a} (e : loop body s = some a) (h : Q a) : P s := by
  refine loop.partial_correctness body (fun s a => Q a → P s) ?_ s a e h
  intro rec ih s a e h
  cases hb : body s with
  | next s' =>
    simp only [hb] at e
    exact step s s' hb (ih s' a e h)
  | done b =>
    simp only [hb, Option.some.injEq] at e
    subst e
    exact exit s b hb h

/-- The variant rule: under an invariant, passes that decrease a natural number end the loop. -/
theorem loop_variant {I : σ → Prop} {Q : α → Prop} (v : σ → Nat)
    (step : ∀ s s', I s → body s = .next s' → I s' ∧ v s' < v s)
    (exit : ∀ s a, I s → body s = .done a → Q a)
    {s} (h : I s) : ∃ a, loop body s = some a ∧ Q a := by
  induction hv : v s using Nat.strong_induction_on generalizing s with
  | _ k ih =>
    cases hb : body s with
    | next s' =>
      obtain ⟨h', lt⟩ := step s s' h hb
      rw [loop_next hb]
      exact ih (v s') (hv ▸ lt) h' rfl
    | done a => exact ⟨a, loop_done hb, exit s a h hb⟩

/-- The divergence rule: a set of states that every pass stays in is never left. -/
theorem loop_diverges {I : σ → Prop} (step : ∀ s, I s → ∃ s', body s = .next s' ∧ I s')
    {s} (h : I s) : loop body s = none := by
  cases e : loop body s with
  | none => rfl
  | some a =>
    obtain ⟨n, s', ps, hd⟩ := loop_exit e
    have stay : ∀ s s', I s → body s = .next s' → I s' := by
      intro s s' hs hb
      obtain ⟨s'', hb', hs''⟩ := step s hs
      cases hb.symm.trans hb'
      exact hs''
    obtain ⟨s'', hb, _⟩ := step s' (ps.invariant stay h)
    cases hd.symm.trans hb

/-- The simulation rule: two loops whose passes go together have results that go together, or run for ever. -/
theorem loop_simulation {τ β : Type*} {body' : τ → Pass τ β} {R : σ → τ → Prop} {Q : α → β → Prop}
    (step : ∀ s t, R s t → (∃ s' t', body s = .next s' ∧ body' t = .next t' ∧ R s' t') ∨
      ∃ a b, body s = .done a ∧ body' t = .done b ∧ Q a b)
    {s t} (h : R s t) : Option.Rel Q (loop body s) (loop body' t) := by
  have along {n s'} (ps : Passes body s n s') : ∃ t', R s' t' ∧ loop body' t = loop body' t' := by
    induction ps with
    | refl => exact ⟨t, h, rfl⟩
    | step _ hb ih =>
      obtain ⟨t1, hr, eq⟩ := ih
      obtain ⟨s2, t2, hs, ht, hr⟩ | ⟨a, b, hs, -⟩ := step _ _ hr
      · cases hb.symm.trans hs
        exact ⟨t2, hr, eq.trans (loop_next ht)⟩
      · cases hb.symm.trans hs
  cases e : loop body s with
  | some a =>
    obtain ⟨n, s', ps, hd⟩ := loop_exit e
    obtain ⟨t', hr, eq⟩ := along ps
    obtain ⟨_, _, hs, -⟩ | ⟨a', b, hs, ht, hq⟩ := step _ _ hr
    · cases hd.symm.trans hs
    · cases hd.symm.trans hs
      rw [eq, loop_done ht]
      exact .some hq
  | none =>
    -- the second loop stays at states related to ones from which the first does not end
    have stay : ∀ t, (∃ s, R s t ∧ loop body s = none) →
        ∃ t', body' t = .next t' ∧ ∃ s, R s t' ∧ loop body s = none := by
      rintro t ⟨s, hr, e⟩
      obtain ⟨s', t', hs, ht, hr⟩ | ⟨a, _, hs, -⟩ := step _ _ hr
      · exact ⟨t', ht, s', hr, (loop_next hs).symm.trans e⟩
      · cases (loop_done hs).symm.trans e
    rw [loop_diverges stay ⟨s, h, e⟩]
    exact .none

/-! ## Unrolled loops. -/

/-- What does not hold throughout fails somewhere for the first time. -/
lemma exists_first {P : Nat → Prop} (fails : ∃ n, ¬ P n) : ∃ n, ¬ P n ∧ ∀ i < n, P i := by
  classical
  exact ⟨Nat.find fails, Nat.find_spec fails, fun i lt => not_not.mp (Nat.find_min fails lt)⟩

/-- The passes of a loop, unrolled: as long as the passes before went on, pass `n` begins in `seq n`, and it goes on to
    `seq (n + 1)` when `goes n` holds and leaves the loop when it does not. -/
structure Unrolls (body : σ → Pass σ α) (seq : Nat → σ) (goes : Nat → Prop) : Prop where
  next : ∀ n, (∀ i < n, goes i) → goes n → body (seq n) = .next (seq (n + 1))
  done : ∀ n, (∀ i < n, goes i) → ¬ goes n → ∃ a, body (seq n) = .done a

namespace Unrolls
variable {seq : Nat → σ} {goes : Nat → Prop}

/-- Where an unrolled loop is after a number of passes. -/
lemma passes_iff (u : Unrolls body seq goes) {n s} :
    Passes body (seq 0) n s ↔ s = seq n ∧ ∀ i < n, goes i := by
  induction n generalizing s with
  | zero =>
    constructor
    · intro ps
      cases ps
      exact ⟨rfl, fun i lt => absurd lt (Nat.not_lt_zero i)⟩
    · rintro ⟨rfl, -⟩
      exact .refl
  | succ n ih =>
    constructor
    · intro ps
      obtain ⟨s', ps', pass⟩ := ps.last
      obtain ⟨rfl, before⟩ := ih.mp ps'
      by_cases here : goes n
      · cases pass.symm.trans (u.next n before here)
        refine ⟨rfl, fun i lt => ?_⟩
        rcases Nat.lt_succ_iff_lt_or_eq.mp lt with less | rfl
        · exact before i less
        · exact here
      · obtain ⟨a, leave⟩ := u.done n before here
        cases pass.symm.trans leave
    · rintro ⟨rfl, all⟩
      have before : ∀ i < n, goes i := fun i lt => all i (Nat.lt_succ_of_lt lt)
      exact .step (ih.mpr ⟨rfl, before⟩) (u.next n before (all n n.lt_succ_self))

/-- A pass of an unrolled loop goes on exactly when `goes` says so. -/
lemma goes_iff (u : Unrolls body seq goes) {n} (before : ∀ i < n, goes i) :
    (∃ s, body (seq n) = .next s) ↔ goes n := by
  constructor
  · rintro ⟨s, pass⟩
    by_contra stop
    obtain ⟨a, leave⟩ := u.done n before stop
    cases pass.symm.trans leave
  · exact fun here => ⟨_, u.next n before here⟩

/-- An unrolled loop leaves with the result of the pass that does not go on. -/
lemma loop_eq (u : Unrolls body seq goes) {n a} (before : ∀ i < n, goes i) (leave : body (seq n) = .done a) :
    loop body (seq 0) = some a := by
  rw [(u.passes_iff.mpr ⟨rfl, before⟩).loop_eq, loop_done leave]

/-- A result of an unrolled loop is that of a pass that does not go on, behind passes that do. -/
lemma exit (u : Unrolls body seq goes) {a} (run : loop body (seq 0) = some a) :
    ∃ n, (∀ i < n, goes i) ∧ ¬ goes n ∧ body (seq n) = .done a := by
  obtain ⟨n, s, ps, leave⟩ := loop_exit run
  obtain ⟨rfl, before⟩ := u.passes_iff.mp ps
  refine ⟨n, before, fun here => ?_, leave⟩
  cases leave.symm.trans (u.next n before here)

/-- An unrolled loop ends exactly when one of its passes does not go on. -/
theorem ends_iff (u : Unrolls body seq goes) : loop body (seq 0) ≠ none ↔ ∃ n, ¬ goes n := by
  constructor
  · intro ends
    obtain ⟨a, run⟩ := Option.ne_none_iff_exists'.mp ends
    obtain ⟨n, -, stop, -⟩ := u.exit run
    exact ⟨n, stop⟩
  · intro stops
    obtain ⟨n, stop, before⟩ := exists_first stops
    obtain ⟨a, leave⟩ := u.done n before stop
    rw [u.loop_eq before leave]
    exact Option.some_ne_none a

/-- Two unrolled loops that go on together and leave with the same results have the same result. -/
theorem loop_congr {τ : Type*} {body' : τ → Pass τ α} {seq' : Nat → τ} {goes' : Nat → Prop} (u : Unrolls body seq goes)
    (u' : Unrolls body' seq' goes') (together : ∀ n, (∀ i < n, goes i) → (goes n ↔ goes' n))
    (leave : ∀ n a, (∀ i < n, goes i) → ¬ goes n → body (seq n) = .done a → body' (seq' n) = .done a) :
    loop body (seq 0) = loop body' (seq' 0) := by
  have along (n : Nat) (before : ∀ i < n, goes i) : ∀ i < n, goes' i := fun i lt =>
    (together i fun j less => before j (Nat.lt_trans less lt)).mp (before i lt)
  by_cases stops : ∃ n, ¬ goes n
  · obtain ⟨n, stop, before⟩ := exists_first stops
    obtain ⟨a, done⟩ := u.done n before stop
    rw [u.loop_eq before done, u'.loop_eq (along n before) (leave n a before stop done)]
  · have all : ∀ n, goes n := fun n => by_contra fun stop => stops ⟨n, stop⟩
    have all' : ∀ n, goes' n := fun n => (together n fun i _ => all i).mp (all n)
    have endless : loop body (seq 0) = none := by
      by_contra ends
      exact stops (u.ends_iff.mp ends)
    have endless' : loop body' (seq' 0) = none := by
      by_contra ends
      obtain ⟨n, stop⟩ := u'.ends_iff.mp ends
      exact stop (all' n)
    rw [endless, endless']

end Unrolls

/-! ## Loops along a chain. -/

section
variable {κ : Type*} {pos : σ → κ} {step : κ → κ} {stops : κ → Prop}

/-- A loop that goes from position to position: at a position that stops it, it leaves, and from any other it goes on to
    the next one. -/
structure Along (body : σ → Pass σ α) (pos : σ → κ) (step : κ → κ) (stops : κ → Prop) : Prop where
  next : ∀ s, ¬ stops (pos s) → ∃ s', body s = .next s' ∧ pos s' = step (pos s)
  done : ∀ s, stops (pos s) → ∃ a, body s = .done a

/-- The positions that a loop visits, in order, up to the one that it leaves at. -/
def Visits (body : σ → Pass σ α) (pos : σ → κ) (s : σ) (l : List κ) : Prop :=
  ∃ t s' a, Trail body s t s' ∧ body s' = .done a ∧ (t ++ [s']).map pos = l

/-- A list up to its first element that stops, with that element. -/
def upTo (stops : κ → Prop) [DecidablePred stops] : List κ → List κ
  | [] => []
  | k :: l => if stops k then [k] else k :: upTo stops l

namespace Along

/-- A run of such a loop goes along the chain of its first position. -/
lemma pos_eq (a : Along body pos step stops) {s n s'} (ps : Passes body s n s') : pos s' = step^[n] (pos s) := by
  induction ps with
  | refl => rfl
  | @step n s1 s2 _ pass ih =>
    have goes : ¬ stops (pos s1) := by
      intro stop
      obtain ⟨_, leave⟩ := a.done s1 stop
      cases pass.symm.trans leave
    obtain ⟨s3, pass', eq⟩ := a.next s1 goes
    cases pass.symm.trans pass'
    rw [eq, ih, Function.iterate_succ_apply']

/-- Such a loop ends exactly when the chain of its first position reaches one that stops it. -/
theorem ends_iff (a : Along body pos step stops) {s : σ} :
    loop body s ≠ none ↔ ∃ n, stops (step^[n] (pos s)) := by
  constructor
  · intro ends
    obtain ⟨r, run⟩ := Option.ne_none_iff_exists'.mp ends
    obtain ⟨n, s', ps, leave⟩ := loop_exit run
    refine ⟨n, ?_⟩
    rw [← a.pos_eq ps]
    by_contra goes
    obtain ⟨_, pass, -⟩ := a.next s' goes
    cases leave.symm.trans pass
  · rintro ⟨n, stop⟩
    induction n generalizing s with
    | zero =>
      obtain ⟨r, leave⟩ := a.done s stop
      rw [loop_done leave]
      exact Option.some_ne_none r
    | succ n ih =>
      by_cases here : stops (pos s)
      · obtain ⟨r, leave⟩ := a.done s here
        rw [loop_done leave]
        exact Option.some_ne_none r
      · obtain ⟨s', pass, eq⟩ := a.next s here
        rw [loop_next pass]
        refine ih ?_
        rwa [eq, ← Function.iterate_succ_apply]

/-- On a chain with a position that stops it, such a loop visits the positions up to the first of them. -/
theorem visits [DecidablePred stops] (a : Along body pos step stops) {s : σ} {n : Nat}
    (stop : ∃ i ≤ n, stops (step^[i] (pos s))) :
    Visits body pos s (upTo stops (List.iterate step (pos s) (n + 1))) := by
  induction n generalizing s with
  | zero =>
    obtain ⟨i, le, stop⟩ := stop
    cases Nat.le_zero.mp le
    obtain ⟨r, leave⟩ := a.done s stop
    refine ⟨[], s, r, .nil, leave, ?_⟩
    rw [List.iterate, upTo, if_pos (show stops (pos s) from stop)]
    rfl
  | succ n ih =>
    rw [List.iterate, upTo]
    by_cases here : stops (pos s)
    · obtain ⟨r, leave⟩ := a.done s here
      rw [if_pos here]
      exact ⟨[], s, r, .nil, leave, rfl⟩
    · obtain ⟨s', pass, eq⟩ := a.next s here
      obtain ⟨i, le, stop⟩ := stop
      rw [if_neg here, ← eq]
      cases i with
      | zero => exact absurd stop here
      | succ i =>
        rw [Function.iterate_succ_apply, ← eq] at stop
        obtain ⟨t, s'', r, trail, leave, same⟩ := ih ⟨i, by omega, stop⟩
        refine ⟨s :: t, s'', r, .cons pass trail, leave, ?_⟩
        rw [List.cons_append, List.map_cons, same]

end Along

end

/-! ## Iterators. -/

section
variable {κ β : Type*}

/-- One pass of a loop that calls an iterator until it has no more, over the state of the iterator and what it gave. -/
def collectBody (next : κ → Option β × κ) : κ × List β → Pass (κ × List β) (List β × κ)
  | (c, l) =>
    match next c with
    | (none, c') => .done (l, c')
    | (some b, c') => .next (c', l ++ [b])

/-- All that an iterator gives from a state on, and the state that it ends in. -/
def collect (next : κ → Option β × κ) (c : κ) : Option (List β × κ) := loop (collectBody next) (c, [])

/-- An iterator gives a list from a state on, and ends in a state. -/
inductive Yields (next : κ → Option β × κ) : κ → List β → κ → Prop where
  | nil {c c'} :
    next c = (none, c') →
    Yields next c [] c'
  | cons {c c' c'' b l} :
    next c = (some b, c') →
    Yields next c' l c'' →
    Yields next c (b :: l) c''

variable {next : κ → Option β × κ} {c c' c'' : κ} {l l' : List β}

/-- What is collected is what the iterator gives. -/
theorem collect_iff : collect next c = some (l, c') ↔ Yields next c l c' := by
  constructor
  · intro run
    have back : ∃ l', l = [] ++ l' ∧ Yields next c l' c' := by
      refine loop_back (P := fun t => ∃ l', l = t.2 ++ l' ∧ Yields next t.1 l' c') (Q := fun r => r = (l, c'))
        (fun s s' pass behind => ?_) (fun s r pass eq => ?_) run rfl
      · obtain ⟨d, acc⟩ := s
        obtain ⟨l', rfl, yields⟩ := behind
        rw [collectBody] at pass
        rcases h : next d with ⟨_ | b, d'⟩
        · simp only [h] at pass
          cases pass
        · simp only [h] at pass
          cases pass
          exact ⟨b :: l', by simp, .cons h yields⟩
      · obtain ⟨d, acc⟩ := s
        subst eq
        rw [collectBody] at pass
        rcases h : next d with ⟨_ | b, d'⟩
        · simp only [h] at pass
          cases pass
          exact ⟨[], by simp, .nil h⟩
        · simp only [h] at pass
          cases pass
    obtain ⟨l', rfl, yields⟩ := back
    exact yields
  · intro yields
    have front : ∀ acc, loop (collectBody next) (c, acc) = some (acc ++ l, c') := by
      induction yields with
      | nil h =>
        intro acc
        rw [List.append_nil]
        apply loop_done
        simp only [collectBody, h]
      | @cons c c₁ c' b l h _ ih =>
        intro acc
        have pass : collectBody next (c, acc) = .next (c₁, acc ++ [b]) := by simp only [collectBody, h]
        rw [loop_next pass, ih, List.append_assoc]
        rfl
    exact front []

/-- An iterator gives one list from a state. -/
lemma Yields.unique (h : Yields next c l c') (h' : Yields next c l' c'') : l = l' ∧ c' = c'' := by
  have eq := (collect_iff.mpr h).symm.trans (collect_iff.mpr h')
  cases eq
  exact ⟨rfl, rfl⟩

end

end Lib
