import RetaOS.Vfs.Tree

/-!
# Path lookup over a tree

`resolve` is path resolution over a tree, one component at a time: `.` stays, `..` goes to the parent and any
other component to the first child of that name. `vfsLookup_eq` shows that `vfs_lookup` computes it when the
nodes below its root form a tree without symbolic links whose `finddir` callbacks find nothing. `strtok_r`
hands out the components one at a time; `Pending` relates its saved position to the components to come.
-/

namespace RetaOS.Vfs
open Lib

variable {F σ : Type} {D : Driver F σ} {s : State F σ} {root p q : Nat} {T : Set Nat} {κ : Nat → List Nat}
  {path component : List UInt8} {cs : List (List UInt8)}

/-- The first child of `p` named `name`. -/
def child (s : State F σ) (κ : Nat → List Nat) (p : Nat) (name : List UInt8) : Option Nat :=
  (κ p).find? fun q => (s.node q).name == name

/-- Path resolution from `p` over the components that are left. -/
def resolve (s : State F σ) (κ : Nat → List Nat) (p : Nat) : List (List UInt8) → Option Nat
  | [] => some p
  | c :: cs =>
    if c = [0x2E] then resolve s κ p cs
    else if c = [0x2E, 0x2E] then resolve s κ ((s.node p).parent.getD p) cs
    else
      match child s κ p c with
      | none => none
      | some q => resolve s κ q cs

/-- The components of a path that `vfs_lookup` goes through. -/
def lookupComponents (path : List UInt8) : List (List UInt8) :=
  tokens isSlash (path.take (VFS_PATH_MAX - 1))

/-- No node of `T` is a symbolic link, and no `finddir` callback finds anything. -/
structure Plain (D : Driver F σ) (s : State F σ) (T : Set Nat) : Prop where
  noLink : ∀ p ∈ T, (s.node p).flags &&& S_IFMT ≠ S_IFLNK
  notFound : ∀ p ∈ T, ∀ f, (s.node p).finddir = some f → ∀ d c,
    ∃ ret n, D.finddir f d (s.node p) c = (ret, n, d) ∧ ret ≠ 0

/-! ## Nodes that resolution reaches. -/

lemma Tree.child_mem (t : Tree s root T κ) (hp : p ∈ T) (h : child s κ p component = some q) :
    q ∈ κ p ∧ q ∈ T ∧ (s.node q).name = component := by
  have mem := List.mem_of_find?_eq_some h
  have test := List.find?_some h
  exact ⟨mem, (t.kid p hp q mem).1, by simpa using test⟩

lemma Tree.parent_mem (t : Tree s root T κ) (hp : p ∈ T) : (s.node p).parent.getD p ∈ T := by
  by_cases e : p = root
  · subst e
    rw [t.top]
    exact hp
  · obtain ⟨q, hq, hk⟩ := t.up p hp e
    rw [(t.kid q hq p hk).2.2]
    exact hq

/-- Resolution stays in the tree. -/
lemma Tree.resolve_mem (t : Tree s root T κ) (hp : p ∈ T) (h : resolve s κ p cs = some q) : q ∈ T := by
  induction cs generalizing p with
  | nil =>
    cases h
    exact hp
  | cons c cs ih =>
    rw [resolve] at h
    split_ifs at h
    · exact ih hp h
    · exact ih (t.parent_mem hp) h
    · cases e : child s κ p c with
      | none =>
        rw [e] at h
        cases h
      | some r =>
        rw [e] at h
        exact ih (t.child_mem hp e).2.1 h

/-- The component `.` stays where it is. -/
lemma resolve_dots : resolve s κ p (cs.filter (· != [0x2E])) = resolve s κ p cs := by
  induction cs generalizing p with
  | nil => rfl
  | cons c cs ih =>
    by_cases dot : c = [0x2E]
    · rw [List.filter_cons_of_neg (by simp [dot]), ih, resolve, if_pos dot]
    · rw [List.filter_cons_of_pos (by simp [dot]), resolve, resolve]
      split_ifs
      · exact ih
      · cases child s κ p c with
        | none => rfl
        | some q => exact ih

/-- Resolution goes through the components one after the other. -/
lemma resolve_append {ds : List (List UInt8)} :
    resolve s κ p (cs ++ ds) = (resolve s κ p cs).bind fun q => resolve s κ q ds := by
  induction cs generalizing p with
  | nil => rfl
  | cons c cs ih =>
    rw [List.cons_append, resolve, resolve]
    split_ifs
    · exact ih
    · exact ih
    · cases child s κ p c with
      | none => rfl
      | some q => exact ih

/-- What resolution finds has the name asked for last. -/
lemma resolve_name (dot : component ≠ [0x2E]) (dotdot : component ≠ [0x2E, 0x2E])
    (h : resolve s κ p (cs ++ [component]) = some q) : (s.node q).name = component := by
  rw [resolve_append, Option.bind_eq_some_iff] at h
  obtain ⟨r, _, h⟩ := h
  rw [resolve, if_neg dot, if_neg dotdot] at h
  cases e : child s κ r component with
  | none =>
    rw [e] at h
    cases h
  | some q' =>
    rw [e] at h
    cases h
    have test := List.find?_some e
    simpa using test

/-- A component that is not `.` or `..` and leads somewhere is undone by `..`. -/
lemma Tree.resolve_back (t : Tree s root T κ) (hp : p ∈ T) (dot : component ≠ [0x2E])
    (dotdot : component ≠ [0x2E, 0x2E]) (h : resolve s κ p (cs ++ [component]) = some q) :
    resolve s κ p (cs ++ [component] ++ [[0x2E, 0x2E]]) = resolve s κ p cs := by
  rw [resolve_append, h, Option.bind_some, resolve, if_neg (by decide), if_pos rfl, resolve]
  rw [resolve_append, Option.bind_eq_some_iff] at h
  obtain ⟨r, found, h⟩ := h
  have hr := t.resolve_mem hp found
  rw [resolve, if_neg dot, if_neg dotdot] at h
  cases e : child s κ r component with
  | none =>
    rw [e] at h
    cases h
  | some q' =>
    rw [e] at h
    cases h
    obtain ⟨mem, -, -⟩ := t.child_mem hr e
    rw [(t.kid r hr q mem).2.2, found, Option.getD_some]

/-- Reached from the root through nodes with names. -/
inductive Through (s : State F σ) (root : Nat) (κ : Nat → List Nat) : Nat → Prop where
  | root : Through s root κ root
  | child {p q : Nat} :
    Through s root κ p →
    q ∈ κ p →
    (s.node q).name ≠ [] →
    Through s root κ q

lemma Through.mem (t : Tree s root T κ) (th : Through s root κ p) : p ∈ T := by
  induction th with
  | root => exact t.root_mem
  | child _ hk _ ih => exact (t.kid _ ih _ hk).1

lemma Through.named (th : Through s root κ p) (rootName : (s.node root).name ≠ []) : (s.node p).name ≠ [] := by
  cases th with
  | root => exact rootName
  | child _ _ name => exact name

/-- The parent of such a node is one. -/
lemma Through.parent (t : Tree s root T κ) (th : Through s root κ p) :
    Through s root κ ((s.node p).parent.getD p) := by
  cases th with
  | root =>
    rw [t.top]
    exact .root
  | child th hk _ =>
    rw [(t.kid _ (th.mem t) _ hk).2.2]
    exact th

/-- Resolution goes through nodes with names. -/
lemma Tree.resolve_through (t : Tree s root T κ) (th : Through s root κ p) (named : ∀ c ∈ cs, c ≠ [])
    (h : resolve s κ p cs = some q) : Through s root κ q := by
  induction cs generalizing p with
  | nil =>
    cases h
    exact th
  | cons c cs ih =>
    have rest : ∀ c ∈ cs, c ≠ [] := fun c hc => named c (List.mem_cons_of_mem _ hc)
    rw [resolve] at h
    split_ifs at h
    · exact ih th rest h
    · exact ih (th.parent t) rest h
    · cases e : child s κ p c with
      | none =>
        rw [e] at h
        cases h
      | some r =>
        rw [e] at h
        obtain ⟨hk, -, name⟩ := t.child_mem (th.mem t) e
        refine ih (.child th hk ?_) rest h
        rw [name]
        exact named c List.mem_cons_self

/-! ## Components. -/

/-- The token in hand and the saved position of `strtok_r` stand for the components to come. -/
def Pending (r : Option (List UInt8) × List UInt8) (cs : List (List UInt8)) : Prop :=
  match r.1 with
  | none => cs = []
  | some c => cs = c :: tokens isSlash r.2

/-- `strtok_r` hands out the first token of a string and leaves the others behind it. -/
lemma tokens_strtokR (sep : UInt8 → Bool) (str : List UInt8) : tokens sep str =
    match strtokR sep str with
    | (none, _) => []
    | (some c, rest) => c :: tokens sep rest := by
  rw [← tokens_dropWhile, strtokR]
  have stop := List.head?_dropWhile_not sep str
  cases e : str.dropWhile sep with
  | nil => exact tokens_nil
  | cons c l =>
    have hc : sep c = false := by simpa [e] using stop
    rw [tokens_takeWhile hc, ← tokens_drop_one]

/-- With slashes as delimiters, these are the components to come. -/
lemma strtokR_pending (str : List UInt8) : Pending (strtokR isSlash str) (tokens isSlash str) := by
  rw [tokens_strtokR, Pending]
  rcases strtokR isSlash str with ⟨_ | c, rest⟩
  · rfl
  · rfl

lemma tokens_skipSlash (path : List UInt8) : tokens isSlash (skipSlash path) = tokens isSlash path := by
  unfold skipSlash
  split_ifs with h
  · cases path with
    | nil => rfl
    | cons c l =>
      cases h
      exact (tokens_cons rfl).symm
  · rfl

/-- `vfs_lookup` starts at the root with all components of its path to come. -/
lemma lookupStart_pending (s : State F σ) (path : List UInt8) (d : σ) :
    ∃ r, lookupStart s path d = ⟨s.vfsRoot, r.1, r.2, d⟩ ∧ Pending r (lookupComponents path) := by
  unfold lookupStart lookupComponents
  split_ifs with h
  · refine ⟨(none, []), rfl, ?_⟩
    cases h with
    | inl h =>
      subst h
      exact tokens_nil
    | inr h =>
      subst h
      exact tokens_cons (b := []) rfl
  · refine ⟨strtokR isSlash (skipSlash (path.take (VFS_PATH_MAX - 1))), rfl, ?_⟩
    rw [← tokens_skipSlash]
    exact strtokR_pending _

/-! ## The loop. -/

/-- In a tree a component is looked up among the children. -/
lemma lookupChild_eq (t : Tree s root T κ) (pl : Plain D s T) (hp : p ∈ T) (c : List UInt8) (d : σ) :
    lookupChild D s (s.node p) c d = some ((child s κ p c).map s.node, d) := by
  have walk : findChild s (s.node p) c = some (child s κ p c) := t.search_eq hp _
  unfold lookupChild
  cases hf : (s.node p).finddir with
  | none =>
    have missing : -ENOENT ≠ 0 := by decide
    simp only [if_neg missing, walk]
  | some f =>
    obtain ⟨ret, n, run, hret⟩ := pl.notFound p hp f hf d c
    simp only [run, if_neg hret, walk]

/-- What `vfs_lookup` returns for a result of resolution. -/
def lookupResult (s : State F σ) (d : σ) : Option Nat → Int × Node F × σ
  | none => (-ENOENT, s.vfsRoot, d)
  | some p => (0, s.node p, d)

/-- The loop of `vfs_lookup` resolves the components to come. -/
lemma lookupBody_loop (t : Tree s root T κ) (pl : Plain D s T) (hp : p ∈ T) (d : σ)
    {r : Option (List UInt8) × List UInt8} (h : Pending r cs) :
    loop (lookupBody D s) ⟨s.node p, r.1, r.2, d⟩ = some (lookupResult s d (resolve s κ p cs)) := by
  induction cs generalizing p r with
  | nil =>
    obtain ⟨component, saveptr⟩ := r
    cases component with
    | none => exact loop_done rfl
    | some c => cases h
  | cons c cs ih =>
    obtain ⟨component, saveptr⟩ := r
    cases component with
    | none => cases h
    | some c' =>
      cases h
      have rest := strtokR_pending saveptr
      rw [resolve]
      -- `.` stays, `..` goes to the parent, and any other name is looked up among the children
      split_ifs with dot dotdot
      · have pass : lookupBody D s ⟨s.node p, some c, saveptr, d⟩ =
            .next ⟨s.node p, (strtokR isSlash saveptr).1, (strtokR isSlash saveptr).2, d⟩ := by
          simp only [lookupBody, if_pos dot]
        rw [loop_next pass]
        exact ih hp rest
      · have pass : lookupBody D s ⟨s.node p, some c, saveptr, d⟩ =
            .next ⟨s.node ((s.node p).parent.getD p), (strtokR isSlash saveptr).1,
              (strtokR isSlash saveptr).2, d⟩ := by
          simp only [lookupBody, if_neg dot, if_pos dotdot]
          cases (s.node p).parent with
          | none => rfl
          | some q => rfl
        rw [loop_next pass]
        exact ih (t.parent_mem hp) rest
      · cases hc : child s κ p c with
        | none =>
          apply loop_done
          simp only [lookupBody, if_neg dot, if_neg dotdot, lookupChild_eq t pl hp, hc, Pass.inner]
          rfl
        | some q =>
          have hq := (t.child_mem hp hc).2.1
          have pass : lookupBody D s ⟨s.node p, some c, saveptr, d⟩ =
              .next ⟨s.node q, (strtokR isSlash saveptr).1, (strtokR isSlash saveptr).2, d⟩ := by
            simp only [lookupBody, if_neg dot, if_neg dotdot, lookupChild_eq t pl hp, hc, Pass.inner,
              Option.map_some, if_neg (pl.noLink q hq)]
          rw [loop_next pass]
          exact ih hq rest

/-- `vfs_lookup` is path resolution over a tree. -/
theorem vfsLookup_eq (t : Tree s root T κ) (pl : Plain D s T) (hr : s.vfsRoot = s.node root)
    (path : List UInt8) :
    vfsLookup D s path = some (match resolve s κ root (lookupComponents path) with
      | none => (-ENOENT, s.vfsRoot, s)
      | some p => (0, s.node p, s)) := by
  obtain ⟨r, start, pending⟩ := lookupStart_pending s path s.drv
  have run := lookupBody_loop t pl t.root_mem s.drv pending
  rw [← hr] at run
  rw [vfsLookup, start, run]
  cases resolve s κ root (lookupComponents path) with
  | none => rfl
  | some p => rfl

end RetaOS.Vfs
