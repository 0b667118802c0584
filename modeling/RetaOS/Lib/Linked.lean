import RetaOS.Lib.Loop

/-!
# Singly linked lists

A list laid out through a successor function: `Linked next p l` says that following `next` from `p` visits
the cells of `l` in order and ends. `search` is the walk every such list is read with, a loop that stops
at the first cell that passes a test; over a linked list it is `List.find?`. A cell put in front of a list
(`Linked.cons`) leaves it as it is, and `Linked.congr` says which successors a list depends on.
-/

namespace Lib

variable {ι : Type*}

/-- Following `next` from `p` visits the cells of `l`, in order, and ends. -/
inductive Linked (next : ι → Option ι) : Option ι → List ι → Prop where
  | nil : Linked next none []
  | cons {p l} :
    Linked next (next p) l →
    Linked next (some p) (p :: l)

/-- One pass of a walk along `next` that looks for a cell that passes a test. -/
def searchBody (next : ι → Option ι) (test : ι → Bool) : Option ι → Pass (Option ι) (Option ι)
  | none => .done none
  | some p => if test p then .done (some p) else .next (next p)

/-- The first cell from `p` on that passes the test; the walk of a cyclic list may never end. -/
def search (next : ι → Option ι) (test : ι → Bool) (p : Option ι) : Option (Option ι) :=
  loop (searchBody next test) p

variable {next next' : ι → Option ι} {test test' : ι → Bool} {p : Option ι} {l l' : List ι}

/-- A start reaches one list of cells. -/
lemma Linked.unique (h : Linked next p l) (h' : Linked next p l') : l = l' := by
  induction h generalizing l' with
  | nil =>
    cases h'
    rfl
  | cons _ ih =>
    cases h' with
    | cons h' => rw [ih h']

/-- A list depends on the successors of its own cells only. -/
lemma Linked.congr (h : Linked next p l) (e : ∀ q ∈ l, next' q = next q) : Linked next' p l := by
  induction h with
  | nil => exact .nil
  | @cons p l _ ih =>
    apply Linked.cons
    rw [e p List.mem_cons_self]
    apply ih
    intro q hq
    exact e q (List.mem_cons_of_mem p hq)

/-- A list starts where its cells do. -/
lemma Linked.start_eq (h : Linked next p l) : p = l.head? := by
  cases h <;> rfl

/-- Behind its first cell a list goes on. -/
lemma Linked.tail {q : ι} (h : Linked next (some q) (q :: l)) : Linked next (next q) l := by
  cases h with
  | cons rest => exact rest

/-- The first cell of a list. -/
lemma Linked.head_mem {q : ι} (h : Linked next p l) (e : p = some q) : q ∈ l := by
  cases h with
  | nil => cases e
  | cons _ =>
    cases e
    exact List.mem_cons_self

/-- The successor of a cell of a list. -/
lemma Linked.next_mem {q q' : ι} (h : Linked next p l) (hq : q ∈ l) (e : next q = some q') : q' ∈ l := by
  induction h with
  | nil => cases hq
  | @cons p l h ih =>
    apply List.mem_cons_of_mem
    cases hq with
    | head => exact h.head_mem e
    | tail _ hq => exact ih hq

/-- What holds of the first cell and goes over to successors holds of every cell. -/
lemma Linked.forall_mem {P : ι → Prop} (h : Linked next p l) (head : ∀ q, p = some q → P q)
    (step : ∀ q q', P q → next q = some q' → P q') : ∀ q ∈ l, P q := by
  induction h with
  | nil => nofun
  | @cons p l _ ih =>
    intro q hq
    cases hq with
    | head => exact head p rfl
    | tail _ hq => exact ih (fun q' => step p q' (head p rfl)) q hq

/-- The rest of a list, from one of its cells on. -/
lemma Linked.suffix {l₁ l₂ : List ι} {q : ι} (h : Linked next p (l₁ ++ q :: l₂)) : Linked next (some q) (q :: l₂) := by
  induction l₁ generalizing p with
  | nil =>
    cases h with
    | cons h => exact .cons h
  | cons _ _ ih =>
    cases h with
    | cons h => exact ih h

/-- The successor of a cell is the next cell of the list. -/
lemma Linked.next_eq {l₁ l₂ : List ι} {q : ι} (h : Linked next p (l₁ ++ q :: l₂)) : next q = l₂.head? :=
  h.suffix.tail.start_eq

/-- The successor of a cell in front of another one comes no later than that. -/
lemma Linked.next_front {l₁ l₂ : List ι} {q r : ι} (h : Linked next p (l₁ ++ q :: l₂)) (mem : r ∈ l₁) :
    ∃ t ∈ l₁ ++ [q], next r = some t := by
  obtain ⟨a, b, rfl⟩ := List.append_of_mem mem
  rw [List.append_assoc] at h
  have next := h.next_eq
  cases b with
  | nil => exact ⟨q, by simp, next⟩
  | cons t b => exact ⟨t, by simp, next⟩

/-- The cells of a list are distinct: from a repeated one on, the list would be as long as a part of itself. -/
lemma Linked.nodup (h : Linked next p l) : l.Nodup := by
  induction h with
  | nil => exact List.nodup_nil
  | @cons p l h ih =>
    refine List.nodup_cons.mpr ⟨fun mem => ?_, ih⟩
    obtain ⟨l₁, l₂, rfl⟩ := List.append_of_mem mem
    have len := congrArg List.length (h.suffix.unique (.cons h))
    simp only [List.length_cons, List.length_append] at len
    omega

/-- A list does not start at a cell that another one leads to. -/
lemma Linked.start_ne {l₁ l₂ : List ι} {q r : ι} (h : Linked next p (l₁ ++ q :: r :: l₂)) : p ≠ some r := by
  rw [h.start_eq]
  have nodup := h.nodup
  cases l₁ with
  | nil =>
    rintro ⟨⟩
    exact (List.nodup_cons.mp nodup).1 List.mem_cons_self
  | cons t l₁ =>
    rintro ⟨⟩
    exact (List.nodup_cons.mp nodup).1 (by simp)

/-- A cell of a list stays reachable when no other successor changes. -/
lemma Linked.mem_of_eq_off {q : ι} (h : Linked next p l) (hq : q ∈ l) (e : ∀ r, r ≠ q → next' r = next r)
    (h' : Linked next' p l') : q ∈ l' := by
  induction h generalizing l' with
  | nil => cases hq
  | @cons p l _ ih =>
    cases h' with
    | @cons _ l' h' =>
      by_cases eq : p = q
      · subst eq
        exact List.mem_cons_self
      · apply List.mem_cons_of_mem
        rw [e p eq] at h'
        refine ih ?_ h'
        cases hq with
        | head => exact absurd rfl eq
        | tail _ hq => exact hq

/-- A list whose tail is replaced behind one of its cells. -/
lemma Linked.splice {l₁ l₂ l₃ : List ι} {q : ι} (h : Linked next p (l₁ ++ q :: l₂))
    (e : ∀ r ∈ l₁, next' r = next r) (h' : Linked next' (next' q) l₃) : Linked next' p (l₁ ++ q :: l₃) := by
  induction l₁ generalizing p with
  | nil =>
    cases h with
    | cons _ => exact .cons h'
  | cons r l₁ ih =>
    cases h with
    | cons h =>
      apply Linked.cons
      rw [e r List.mem_cons_self]
      exact ih h fun r hr => e r (List.mem_cons_of_mem _ hr)

/-- A cell is taken out of a list when the one before it gets its successor. -/
lemma Linked.remove [DecidableEq ι] {l₁ l₂ : List ι} {q r : ι} (h : Linked next p (l₁ ++ q :: r :: l₂)) :
    Linked (Function.update next q (next r)) p (l₁ ++ q :: l₂) := by
  have apart := List.perm_middle.nodup_iff.mp h.nodup
  rw [List.nodup_cons, List.mem_append, List.mem_cons] at apart
  have behind : Linked next (next r) l₂ := by
    rw [List.append_cons] at h
    exact h.suffix.tail
  have update {t : ι} (ne : t ≠ q) : Function.update next q (next r) t = next t := Function.update_of_ne ne ..
  refine h.splice (fun t ht => update ?_) ?_
  · rintro rfl
    exact apart.1 (.inl ht)
  · rw [Function.update_self]
    refine behind.congr fun t ht => update ?_
    rintro rfl
    exact apart.1 (.inr (.inr ht))

/-- What is left of a list when one of its cells is taken out. -/
lemma mem_without {l₁ l₂ : List ι} {q r : ι} (nodup : (l₁ ++ q :: l₂).Nodup) :
    r ∈ l₁ ++ l₂ ↔ r ∈ l₁ ++ q :: l₂ ∧ r ≠ q := by
  have moved : (l₁ ++ q :: l₂).Perm (q :: (l₁ ++ l₂)) := List.perm_middle
  obtain ⟨out, -⟩ := List.nodup_cons.mp (moved.nodup_iff.mp nodup)
  rw [moved.mem_iff, List.mem_cons]
  constructor
  · intro mem
    exact ⟨.inr mem, ne_of_mem_of_not_mem mem out⟩
  · rintro ⟨eq | mem, ne⟩
    · exact absurd eq ne
    · exact mem

/-- A cell put in front of a list that it is not in. -/
lemma Linked.push [DecidableEq ι] {q : ι} (h : Linked next p l) (new : q ∉ l) :
    Linked (Function.update next q p) (some q) (q :: l) := by
  apply Linked.cons
  rw [Function.update_self]
  refine h.congr fun r mem => Function.update_of_ne ?_ ..
  rintro rfl
  exact new mem

/-- A cell of a list that is put in front of it again makes the list cyclic. -/
lemma Linked.not_again [DecidableEq ι] {q : ι} (h : Linked next p l) (mem : q ∈ l) :
    ¬ Linked (Function.update next q p) (some q) l' := by
  intro again
  have nodup := again.nodup
  cases again with
  | cons rest =>
    rw [Function.update_self] at rest
    obtain ⟨out, -⟩ := List.nodup_cons.mp nodup
    exact out (h.mem_of_eq_off mem (fun r ne => Function.update_of_ne ne ..) rest)

/-- The walk of a linked list ends, at the first cell that passes the test. -/
theorem Linked.search_eq (h : Linked next p l) : search next test p = some (l.find? test) := by
  induction h with
  | nil => exact loop_done rfl
  | @cons p l h ih =>
    rw [List.find?_cons]
    cases ht : test p with
    | true =>
      apply loop_done
      simp [searchBody, ht]
    | false =>
      have again : searchBody next test (some p) = .next (next p) := by simp [searchBody, ht]
      rw [search, loop_next again]
      exact ih

/-- The walk for the successor `r` stops at the cell in front of it. -/
lemma Linked.search_prev [DecidableEq ι] {l₁ l₂ : List ι} {q r : ι} (h : Linked next p (l₁ ++ q :: r :: l₂)) :
    search next (fun t => next t == some r) p = some (some q) := by
  have here : next q = some r := h.next_eq
  have out : r ∉ l₁ ++ [q] := by
    have nodup := h.nodup
    rw [List.append_cons, List.nodup_append] at nodup
    exact fun mem => nodup.2.2 r mem r List.mem_cons_self rfl
  have before : ∀ t ∈ l₁, ¬ (next t == some r) = true := by
    intro t mem found
    obtain ⟨t', front, e⟩ := h.next_front mem
    rw [e, beq_iff_eq, Option.some_inj] at found
    subst found
    exact out front
  rw [h.search_eq, List.find?_append, List.find?_eq_none.mpr before, Option.none_or, List.find?_cons_of_pos]
  simp [here]

/-- A walk that stays in a set depends on the successors and the tests of the cells of the set only. -/
lemma search_congr {A : Set ι} (closed : ∀ q ∈ A, ∀ q', next q = some q' → q' ∈ A)
    (en : ∀ q ∈ A, next' q = next q) (et : ∀ q ∈ A, test' q = test q) (hp : ∀ q, p = some q → q ∈ A) :
    search next' test' p = search next test p ∧ ∀ q, search next test p = some (some q) → q ∈ A := by
  have rel : Option.Rel (fun r r' => r' = r ∧ ∀ q, r = some q → q ∈ A) (loop (searchBody next test) p)
      (loop (searchBody next' test') p) :=
    loop_simulation (R := fun p p' => p' = p ∧ ∀ q, p = some q → q ∈ A) ?_ ⟨rfl, hp⟩
  · unfold search
    generalize loop (searchBody next test) p = r at rel ⊢
    generalize loop (searchBody next' test') p = r' at rel ⊢
    cases rel with
    | none => exact ⟨rfl, nofun⟩
    | some h =>
      obtain ⟨rfl, mem⟩ := h
      refine ⟨rfl, fun q e => mem q ?_⟩
      cases e
      rfl
  · rintro p p' ⟨rfl, mem⟩
    cases p' with
    | none => exact .inr ⟨none, none, rfl, rfl, rfl, nofun⟩
    | some q =>
      have hq := mem q rfl
      cases ht : test q with
      | true => exact .inr ⟨some q, some q, by simp [searchBody, ht], by simp [searchBody, et q hq, ht], rfl, mem⟩
      | false =>
        refine .inl ⟨next q, next' q, by simp [searchBody, ht], by simp [searchBody, et q hq, ht], en q hq, ?_⟩
        exact closed q hq

end Lib
