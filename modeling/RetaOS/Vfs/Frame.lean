import RetaOS.Vfs.Defs
import Mathlib.Data.Option.Basic

/-!
# What path lookup depends on

`vfs_lookup` reads the root node, the nodes that pointers lead to, and what the `finddir` and `read` callbacks
answer. `Closed s A` says that pointers from the root and from the nodes of `A` stay in `A`, `Steady D A Same`
that the callbacks answer alike in driver states that are the same for them and leave the driver in such a
state. Then every change that keeps the root node and the nodes of `A` (`Kept`) keeps the result of every
lookup (`lookupOf_kept`).
-/

namespace RetaOS.Vfs
open Lib

variable {F σ : Type} {D : Driver F σ} {s s' s'' : State F σ} {A : Set Nat} {Same : σ → σ → Prop}
  {n : Node F} {p q : Nat} {path component : List UInt8} {d d' : σ}

/-- The pointers of a node lead to nodes of `A`. -/
def Inside (A : Set Nat) (n : Node F) : Prop :=
  ∀ p, n.parent = some p ∨ n.children = some p ∨ n.next = some p → p ∈ A

/-- Pointers from the root and from the nodes of `A` stay in `A`, and the nodes of `A` are allocated. -/
structure Closed (s : State F σ) (A : Set Nat) : Prop where
  root : Inside A s.vfsRoot
  node : ∀ p ∈ A, Inside A (s.node p)
  lt : ∀ p ∈ A, p < s.calls

/-- The callbacks that lookup calls answer alike in driver states that are the same for them, leave the driver
    in such a state, and hand out nodes with pointers to nodes of `A`. -/
structure Steady (D : Driver F σ) (A : Set Nat) (Same : σ → σ → Prop) : Prop where
  refl : ∀ d, Same d d
  symm : ∀ {d d'}, Same d d' → Same d' d
  trans : ∀ {d d' d''}, Same d d' → Same d' d'' → Same d d''
  finddir : ∀ f d d' n c, Same d d' → (D.finddir f d n c).1 = (D.finddir f d' n c).1 ∧
    (D.finddir f d n c).2.1 = (D.finddir f d' n c).2.1 ∧ Same d (D.finddir f d n c).2.2
  inside : ∀ f d n c, Inside A n → (D.finddir f d n c).1 = 0 → Inside A (D.finddir f d n c).2.1
  read : ∀ f d d' n off count, Same d d' → (D.read f d n off count).1 = (D.read f d' n off count).1 ∧
    (D.read f d n off count).2.1 = (D.read f d' n off count).2.1 ∧ Same d (D.read f d n off count).2.2.2

/-- The root node and the nodes of `A` are kept, and the driver state is the same for lookups. -/
structure Kept (A : Set Nat) (Same : σ → σ → Prop) (s s' : State F σ) : Prop where
  root : s'.vfsRoot = s.vfsRoot
  node : ∀ p ∈ A, s'.node p = s.node p
  drv : Same s.drv s'.drv

/-- The value `vfs_lookup` returns and the node it puts in `out_node`. -/
def lookupOf (D : Driver F σ) (s : State F σ) (path : List UInt8) : Option (Int × Node F) :=
  (vfsLookup D s path).map fun r => (r.1, r.2.1)

/-- The walk of `vfs_lookup` from a node over the components of a path. -/
def lookupFrom (D : Driver F σ) (s : State F σ) (n : Node F) (path : List UInt8) : Option (Int × Node F) :=
  (loop (lookupBody D s) ⟨n, (strtokR isSlash path).1, (strtokR isSlash path).2, s.drv⟩).map fun r => (r.1, r.2.1)

/-- Lookups at the same place with driver states that are the same for them. -/
structure Related (A : Set Nat) (Same : σ → σ → Prop) (t t' : Lookup F σ) : Prop where
  current : t'.current = t.current
  inside : Inside A t.current
  component : t'.component = t.component
  saveptr : t'.saveptr = t.saveptr
  drv : Same t.drv t'.drv

/-- The same value and node, with pointers to nodes of `A`, and driver states that are the same. -/
def SameResult (A : Set Nat) (Same : σ → σ → Prop) (d : σ) (r r' : Int × Node F × σ) : Prop :=
  r'.1 = r.1 ∧ r'.2.1 = r.2.1 ∧ Inside A r.2.1 ∧ Same d r.2.2 ∧ Same d r'.2.2

lemma Kept.refl (st : Steady D A Same) : Kept A Same s s := ⟨rfl, fun _ _ => rfl, st.refl _⟩

lemma Kept.trans (st : Steady D A Same) (k : Kept A Same s s') (k' : Kept A Same s' s'') : Kept A Same s s'' :=
  ⟨k'.root.trans k.root, fun p hp => (k'.node p hp).trans (k.node p hp), st.trans k.drv k'.drv⟩

/-- A lookup changes the driver state only. -/
lemma vfsLookup_state {ret : Int} (run : vfsLookup D s path = some (ret, n, s')) :
    ∃ d, s' = { s with drv := d } := by
  unfold vfsLookup at run
  split at run
  · cases run
  · cases run
    exact ⟨_, rfl⟩

/-- A lookup returns 0 or an error. -/
lemma vfsLookup_ret {ret : Int} (run : vfsLookup D s path = some (ret, n, s')) : ret = 0 ∨ ret < 0 := by
  have pass (t : Lookup F σ) : (lookupBody D s t).To (fun _ => True) fun r => r.1 = 0 ∨ r.1 < 0 := by
    unfold lookupBody
    split
    · exact .done (.inl rfl)
    · dsimp only
      split_ifs
      · exact .next trivial
      · exact .next trivial
      · refine .inner trivial fun x _ => ?_
        split
        · exact .done (.inr (by decide : -ENOENT < 0))
        · split_ifs
          · split
            · exact .done (.inr (by decide : -EIO_ < 0))
            · split_ifs
              · exact .next trivial
              · exact .done (.inr (by decide : -EIO_ < 0))
          · exact .next trivial
  unfold vfsLookup at run
  cases e : loop (lookupBody D s) (lookupStart s path s.drv) with
  | none =>
    rw [e] at run
    cases run
  | some r =>
    have done := loop_rule (I := fun _ => True) (Q := fun r => r.1 = 0 ∨ r.1 < 0) (fun t _ => pass t) trivial e
    rw [e] at run
    cases run
    exact done

/-- The path `/` leads to the root. -/
lemma vfsLookup_slash : vfsLookup D s [0x2F] = some (0, s.vfsRoot, s) := by
  have start : lookupStart s [0x2F] s.drv = ⟨s.vfsRoot, none, [], s.drv⟩ := by simp [lookupStart]
  have last : lookupBody D s ⟨s.vfsRoot, none, [], s.drv⟩ = .done (0, s.vfsRoot, s.drv) := rfl
  rw [vfsLookup, start, loop_done last]

lemma lookupOf_slash : lookupOf D s [0x2F] = some (0, s.vfsRoot) := by
  rw [lookupOf, vfsLookup_slash]
  rfl

/-! ## One component. -/

/-- The search among the children of a node. -/
lemma findChild_kept (cl : Closed s A) (k : Kept A Same s s') (hn : Inside A n) (component : List UInt8) :
    findChild s' n component = findChild s n component ∧
      ∀ q, findChild s n component = some (some q) → q ∈ A := by
  apply search_congr
  · intro p hp q hq
    exact cl.node p hp q (.inr (.inr hq))
  · intro p hp
    rw [k.node p hp]
  · intro p hp
    rw [k.node p hp]
  · intro p hp
    exact hn p (.inr (.inl hp))

/-- Without a `finddir` callback the children are walked. -/
lemma lookupChild_listed (asks : n.finddir = none) :
    lookupChild D s n component d = (findChild s n component).map fun p => (p.map s.node, d) := by
  have missing : ¬ -ENOENT = 0 := by decide
  simp only [lookupChild, asks, if_neg missing]
  cases findChild s n component with
  | none => rfl
  | some p => rfl

/-- They are also walked when it finds nothing. -/
lemma lookupChild_finddir {f : F} (asks : n.finddir = some f) :
    lookupChild D s n component d =
      if (D.finddir f d n component).1 = 0 then
        some (some (D.finddir f d n component).2.1, (D.finddir f d n component).2.2)
      else (findChild s n component).map fun p => (p.map s.node, (D.finddir f d n component).2.2) := by
  simp only [lookupChild, asks]
  refine if_congr Iff.rfl rfl ?_
  cases findChild s n component with
  | none => rfl
  | some p => rfl

/-- The lookup of a component in a directory. -/
lemma lookupChild_kept (st : Steady D A Same) (cl : Closed s A) (k : Kept A Same s s') (hn : Inside A n)
    (same : Same d d') (component : List UInt8) :
    Option.Rel (fun r r' : Option (Node F) × σ => r'.1 = r.1 ∧ (∀ c, r.1 = some c → Inside A c) ∧ Same d r.2 ∧
      Same d r'.2) (lookupChild D s n component d) (lookupChild D s' n component d') := by
  obtain ⟨walk, mem⟩ := findChild_kept cl k hn component
  have list (x x' : σ) (hx : Same d x) (hx' : Same d x') :
      Option.Rel (fun r r' : Option (Node F) × σ => r'.1 = r.1 ∧ (∀ c, r.1 = some c → Inside A c) ∧ Same d r.2 ∧
        Same d r'.2)
        ((findChild s n component).map fun p => (p.map s.node, x))
        ((findChild s' n component).map fun p => (p.map s'.node, x')) := by
    rw [walk]
    cases e : findChild s n component with
    | none => exact .none
    | some q =>
      cases q with
      | none => exact .some ⟨rfl, by rintro _ ⟨⟩, hx, hx'⟩
      | some q =>
        have hq := mem q e
        refine .some ⟨congrArg some (k.node q hq), ?_, hx, hx'⟩
        intro c hc
        cases hc
        exact cl.node q hq
  cases hf : n.finddir with
  | none =>
    rw [lookupChild_listed hf, lookupChild_listed hf]
    exact list d d' (st.refl d) same
  | some f =>
    rw [lookupChild_finddir hf, lookupChild_finddir hf]
    obtain ⟨ret, node, drv⟩ := st.finddir f d d' n component same
    have drv' := st.trans same (st.finddir f d' d n component (st.symm same)).2.2
    have inside := st.inside f d n component hn
    rw [← ret]
    split_ifs with found
    · refine .some ⟨congrArg some node.symm, ?_, drv, drv'⟩
      intro c hc
      cases hc
      exact inside found
    · exact list _ _ drv drv'

/-! ## The loop. -/

lemma lookupStart_kept (cl : Closed s A) (k : Kept A Same s s') (path : List UInt8) (same : Same d d') :
    Related A Same (lookupStart s path d) (lookupStart s' path d') := by
  unfold lookupStart
  split_ifs
  · exact ⟨k.root, cl.root, rfl, rfl, same⟩
  · generalize strtokR isSlash (skipSlash (path.take (VFS_PATH_MAX - 1))) = r
    exact ⟨k.root, cl.root, rfl, rfl, same⟩

/-- Related passes stay related. -/
lemma lookupBody_kept (st : Steady D A Same) (cl : Closed s A) (k : Kept A Same s s') {t t' : Lookup F σ}
    (h : Same d t.drv ∧ Related A Same t t') :
    (∃ u u', lookupBody D s t = .next u ∧ lookupBody D s' t' = .next u' ∧ Same d u.drv ∧ Related A Same u u') ∨
      ∃ r r', lookupBody D s t = .done r ∧ lookupBody D s' t' = .done r' ∧ SameResult A Same d r r' := by
  obtain ⟨base, rel⟩ := h
  obtain ⟨current, component, saveptr, drv⟩ := t
  obtain ⟨current', component', saveptr', drv'⟩ := t'
  obtain ⟨hcur, inside, hcomp, hsave, same⟩ := rel
  cases hcur
  cases hcomp
  cases hsave
  unfold lookupBody
  cases component with
  | none => exact .inr ⟨_, _, rfl, rfl, rfl, rfl, inside, base, st.trans base same⟩
  | some c =>
    dsimp only
    split_ifs with dot dotdot
    · exact .inl ⟨_, _, rfl, rfl, base, rfl, inside, rfl, rfl, same⟩
    · refine .inl ⟨_, _, rfl, rfl, base, ?_, ?_, rfl, rfl, same⟩
      · cases up : current.parent with
        | none => rfl
        | some p => exact k.node p (inside p (.inl up))
      · cases up : current.parent with
        | none => exact inside
        | some p => exact cl.node p (inside p (.inl up))
    · have rel := lookupChild_kept st cl k inside same c
      generalize lookupChild D s current c drv = r at rel ⊢
      generalize lookupChild D s' current c drv' = r' at rel ⊢
      cases rel with
      | none => exact .inl ⟨_, _, rfl, rfl, base, rfl, inside, rfl, rfl, same⟩
      | @some r r' h =>
        obtain ⟨child, x⟩ := r
        obtain ⟨child', x'⟩ := r'
        obtain ⟨hchild, hin, hx, hx'⟩ := h
        cases hchild
        have bx := st.trans base hx
        have bx' := st.trans base hx'
        have xx := st.trans (st.symm hx) hx'
        cases child with
        | none => exact .inr ⟨_, _, rfl, rfl, rfl, k.root, cl.root, bx, bx'⟩
        | some child =>
          simp only [Pass.inner]
          -- a link starts the walk over at the root, with the path that it holds
          split_ifs with link
          · cases hf : child.read with
            | none => exact .inr ⟨_, _, rfl, rfl, rfl, k.root, cl.root, bx, bx'⟩
            | some f =>
              obtain ⟨hn, hb, hd⟩ := st.read f x x' child 0 (UInt32.ofNat (VFS_PATH_MAX - 1)) xx
              have hd' := (st.read f x' x child 0 (UInt32.ofNat (VFS_PATH_MAX - 1)) (st.symm xx)).2.2
              dsimp only
              rw [← hn, ← hb]
              split_ifs with pos
              · refine .inl ⟨_, _, rfl, rfl, ?_, lookupStart_kept cl k _ (st.trans (st.symm hd) (st.trans xx hd'))⟩
                unfold lookupStart
                split_ifs
                · exact st.trans bx hd
                · exact st.trans bx hd
              · exact .inr ⟨_, _, rfl, rfl, rfl, k.root, cl.root, st.trans bx hd, st.trans bx' hd'⟩
          · exact .inl ⟨_, _, rfl, rfl, bx, rfl, hin child rfl, rfl, rfl, xx⟩

/-- `vfs_lookup` in two states that agree on what it depends on. -/
lemma vfsLookup_kept (st : Steady D A Same) (cl : Closed s A) (k : Kept A Same s s') (path : List UInt8) :
    Option.Rel (SameResult A Same s.drv) (loop (lookupBody D s) (lookupStart s path s.drv))
      (loop (lookupBody D s') (lookupStart s' path s'.drv)) := by
  refine loop_simulation (fun t t' => lookupBody_kept st cl k) ⟨?_, lookupStart_kept cl k path k.drv⟩
  unfold lookupStart
  split_ifs
  · exact st.refl _
  · exact st.refl _

/-- Related results give the same value and node. -/
lemma result_kept {d : σ} {r r' : Option (Int × Node F × σ)} (rel : Option.Rel (SameResult A Same d) r r') :
    r'.map (fun r => (r.1, r.2.1)) = r.map fun r => (r.1, r.2.1) := by
  cases rel with
  | none => rfl
  | some same =>
    obtain ⟨ret, node, -⟩ := same
    simp only [Option.map_some, ret, node]

lemma lookupOf_eq : lookupOf D s path =
    (loop (lookupBody D s) (lookupStart s path s.drv)).map fun r => (r.1, r.2.1) := by
  unfold lookupOf vfsLookup
  cases loop (lookupBody D s) (lookupStart s path s.drv) with
  | none => rfl
  | some r => rfl

/-- A change that keeps what lookup depends on keeps the result of every lookup. -/
theorem lookupOf_kept (st : Steady D A Same) (cl : Closed s A) (k : Kept A Same s s') (path : List UInt8) :
    lookupOf D s' path = lookupOf D s path := by
  rw [lookupOf_eq, lookupOf_eq]
  exact result_kept (vfsLookup_kept st cl k path)

/-- The same for the walk from a node. -/
lemma lookupFrom_kept (st : Steady D A Same) (cl : Closed s A) (k : Kept A Same s s') (hn : Inside A n)
    (path : List UInt8) : lookupFrom D s' n path = lookupFrom D s n path := by
  let start (d : σ) : Lookup F σ := ⟨n, (strtokR isSlash path).1, (strtokR isSlash path).2, d⟩
  have rel : Option.Rel (SameResult A Same s.drv) (loop (lookupBody D s) (start s.drv))
      (loop (lookupBody D s') (start s'.drv)) :=
    loop_simulation (fun t t' => lookupBody_kept st cl k) ⟨st.refl _, rfl, hn, rfl, rfl, k.drv⟩
  exact result_kept rel

/-- A lookup changes the driver state only, and leaves it in one that is the same for lookups. -/
lemma vfsLookup_drv (st : Steady D A Same) (cl : Closed s A) {r : Int × Node F × State F σ}
    (run : vfsLookup D s path = some r) :
    r.2.2 = { s with drv := r.2.2.drv } ∧ Inside A r.2.1 ∧ Kept A Same s r.2.2 := by
  have rel := vfsLookup_kept st cl (Kept.refl st) path
  unfold vfsLookup at run
  generalize loop (lookupBody D s) (lookupStart s path s.drv) = x at rel run
  cases rel with
  | none => cases run
  | some same =>
    cases run
    exact ⟨rfl, same.2.2.1, rfl, fun _ _ => rfl, same.2.2.2.1⟩

lemma lookupOf_eq_some {r : Int × Node F} :
    lookupOf D s path = some r ↔ ∃ t, vfsLookup D s path = some (r.1, r.2, t) := by
  unfold lookupOf
  cases vfsLookup D s path with
  | none => simp
  | some x =>
    obtain ⟨ret, n, t⟩ := x
    simp [Prod.ext_iff]

/-- The list of children, from a position on. -/
lemma skipChildren_eq {p : Option Nat} {l : List Nat} (lk : Linked (fun p => (s.node p).next) p l) (k : Nat) :
    skipChildren s k p = l[k]? := by
  induction lk generalizing k with
  | nil => cases k <;> rfl
  | @cons p l _ ih =>
    cases k with
    | zero => rfl
    | succ k => exact ih k

end RetaOS.Vfs
