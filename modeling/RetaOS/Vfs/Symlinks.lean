import RetaOS.Vfs.Resolution

/-!
# Symbolic links in the middle of a path

At a link `vfs_lookup` looks up its target with the next component behind it and drops the components after that one. So
`p/link/rest` is what the target and the first component of `rest` give (`lookup_link`), and that is what the target and
all of `rest` give on every tree exactly when the other components are all `.` (`transparent_iff`). Paths are compared
by their components; the driver may change its state on the way to the link, and the target is looked up from there.
-/

namespace RetaOS.Vfs
open Lib

variable {F σ : Type}

/-- The components lead from one node to another through directories, without a link. -/
inductive Leads (D : Driver F σ) (s : State F σ) : Node F → σ → List (List UInt8) → Node F → σ → Prop where
  | nil {n d} : Leads D s n d [] n d
  | dot {n d cs m e} :
    Leads D s n d cs m e →
    Leads D s n d ([0x2E] :: cs) m e
  | up {n d cs m e} :
    Leads D s (parentOf s n) d cs m e →
    Leads D s n d ([0x2E, 0x2E] :: cs) m e
  | child {n d c q d' cs m e} :
    c ≠ [0x2E] →
    c ≠ [0x2E, 0x2E] →
    lookupChild D s n c d = some (some q, d') →
    ¬ IsLink q →
    Leads D s q d' cs m e →
    Leads D s n d (c :: cs) m e

/-- In the directory that `pre` leads to, `name` is a symbolic link with an absolute target shorter than
    `VFS_PATH_MAX`; `d` is the state of the driver when it has been read. -/
inductive LinkAt (D : Driver F σ) (s : State F σ) (pre : List (List UInt8)) (name target : List UInt8) (d : σ) :
    Prop where
  | intro (dir link : Node F) (d₁ d₂ : σ) :
    Leads D s s.vfsRoot s.drv pre dir d₁ →
    name ≠ [0x2E] →
    name ≠ [0x2E, 0x2E] →
    lookupChild D s dir name d₁ = some (some link, d₂) →
    IsLink link →
    readLink D link d₂ = (some target, d) →
    target.head? = some 0x2F →
    target.length < VFS_PATH_MAX →
    LinkAt D s pre name target d

/-- On every tree, a path through a link with `rest` behind it is looked up as the target with `rest` behind it. -/
def Transparent (rest : List UInt8) : Prop :=
  ∀ (F σ : Type) (D : Driver F σ) (s : State F σ) (pre : List (List UInt8)) (name target : List UInt8) (d : σ)
    (path : List UInt8),
    LinkAt D s pre name target d →
    tokens isSlash path = pre ++ name :: tokens isSlash rest →
    path.length < VFS_PATH_MAX →
    (target ++ 0x2F :: rest).length < VFS_PATH_MAX →
    vfsLookup D s path = vfsLookup D { s with drv := d } (target ++ 0x2F :: rest)

variable {D : Driver F σ} {s : State F σ} {n m : Node F} {d e : σ} {path path' t c name : List UInt8}
  {cs ds pre dots : List (List UInt8)}

/-! ## Paths by their components. -/

lemma lookupComponents_short (short : path.length < VFS_PATH_MAX) : lookupComponents path = tokens isSlash path := by
  rw [lookupComponents, List.take_of_length_le]
  unfold VFS_PATH_MAX at *
  omega

/-- The components of a path with another behind it. -/
lemma tokens_behind (t c : List UInt8) : tokens isSlash (t ++ 0x2F :: c) = tokens isSlash t ++ tokens isSlash c :=
  tokens_append_cons t c rfl

/-- The walk does not look at the state that the driver has in the table. -/
lemma course_drv (d : σ) (n : Node F) (e : σ) (cs : List (List UInt8)) :
    course D { s with drv := d } n e cs = course D s n e cs := by
  induction cs generalizing n e with
  | nil => rfl
  | cons c cs ih =>
    have same : lookupChild D { s with drv := d } n c e = lookupChild D s n c e := rfl
    have up : parentOf { s with drv := d } n = parentOf s n := rfl
    simp only [course, ih, same, up]

lemma follow_drv (d : σ) (q : List UInt8 × σ) : follow D { s with drv := d } q = follow D s q := by
  rw [follow, follow, course_drv]

/-- A lookup from another state of the driver. -/
lemma vfsLookup_from (path : List UInt8) (d : σ) : vfsLookup D { s with drv := d } path =
    (loop (follow D s) (path, d)).map fun r => (r.1, r.2.1, { s with drv := r.2.2 }) := by
  rw [vfsLookup_follow, show follow D { s with drv := d } = follow D s from funext (follow_drv d)]

/-- The walk from a directory goes on behind the way that leads to it. -/
lemma Leads.course_eq (way : Leads D s n d cs m e) : course D s n d (cs ++ ds) = course D s m e ds := by
  induction way with
  | nil => rfl
  | dot _ ih => rw [List.cons_append, course, if_pos rfl, ih]
  | up _ ih => rw [List.cons_append, course, if_neg (by decide), if_pos rfl, ih]
  | child dot dotdot found dir _ ih =>
    rw [List.cons_append, course, if_neg dot, if_neg dotdot, found]
    simp only [if_neg dir]
    exact ih

/-- The walk over a path that succeeds goes on behind it. -/
lemma course_append (h : course D s n d cs = .done 0 m e) : course D s n d (cs ++ ds) = course D s m e ds := by
  have enoent : -ENOENT ≠ 0 := by decide
  have eio : -EIO_ ≠ 0 := by decide
  induction cs generalizing n d with
  | nil =>
    cases h
    rfl
  | cons c cs ih =>
    rw [course] at h
    rw [List.cons_append, course]
    split_ifs at h ⊢
    · exact ih h
    · exact ih h
    · rcases found : lookupChild D s n c d with _ | ⟨_ | q, d'⟩
      · rw [found] at h
        cases h
      · rw [found] at h
        injection h with ret
        exact absurd ret enoent
      · rw [found] at h
        simp only at h ⊢
        split_ifs at h ⊢
        · rcases read : readLink D q d' with ⟨_ | t, d''⟩
          · rw [read] at h
            injection h with ret
            exact absurd ret eio
          · rw [read] at h
            cases h
        · exact ih h

/-- A path through a link is looked up as the target with the next component. -/
theorem lookup_link (link : LinkAt D s pre name t d) (spelled : lookupComponents path = pre ++ name :: cs) :
    vfsLookup D s path = vfsLookup D { s with drv := d } (appended t cs.head?) := by
  obtain ⟨dir, link, d₁, d₂, way, dot, dotdot, found, isLink, read, -, -⟩ := link
  have goes : follow D s (path, s.drv) = .next (appended t cs.head?, d) := by
    rw [follow, spelled, way.course_eq, course, if_neg dot, if_neg dotdot, found]
    simp only [if_pos isLink, read]
  rw [vfsLookup_follow, loop_next goes, vfsLookup_from]

/-! ## Components that stay. -/

/-- The same course with other components behind it. -/
def Course.more (ds : List (List UInt8)) : Course F σ → Course F σ
  | .done ret n d => .done ret n d
  | .link t rest d => .link t (rest ++ ds) d
  | .endless => .endless

lemma course_dots (stay : ∀ c ∈ dots, c = [0x2E]) (n : Node F) (d : σ) (cs : List (List UInt8)) :
    course D s n d (cs ++ dots) = (course D s n d cs).more dots := by
  induction cs generalizing n d with
  | nil =>
    rw [List.nil_append, course, Course.more]
    induction dots with
    | nil => rfl
    | cons c dots ih =>
      rw [course, if_pos (stay c List.mem_cons_self)]
      exact ih fun c mem => stay c (List.mem_cons_of_mem _ mem)
  | cons c cs ih =>
    rw [List.cons_append, course, course]
    split_ifs
    · exact ih n d
    · exact ih (parentOf s n) d
    · rcases lookupChild D s n c d with _ | ⟨_ | q, d'⟩
      · rfl
      · rfl
      · simp only
        split_ifs
        · rcases readLink D q d' with ⟨_ | t, d''⟩
          · rfl
          · rfl
        · exact ih q d'

/-- A target with `.` behind it has the components of the target and dots. -/
lemma appended_dots (stay : ∀ c ∈ dots, c = [0x2E]) (t : List UInt8) :
    ∃ dots', (∀ c ∈ dots', c = [0x2E]) ∧ lookupComponents (appended t dots.head?) = lookupComponents t ++ dots' := by
  cases dots with
  | nil => exact ⟨[], nofun, (List.append_nil _).symm⟩
  | cons c dots =>
    obtain rfl := stay c List.mem_cons_self
    rw [List.head?_cons, appended]
    split_ifs with fits
    · refine ⟨tokens isSlash (List.take (VFS_PATH_MAX - t.length - 2) [0x2E]), ?_, ?_⟩
      · cases VFS_PATH_MAX - t.length - 2 with
        | zero => nofun
        | succ k =>
          rw [List.take_succ_cons, List.take_nil,
            tokens_of_free (List.forall_mem_singleton.mpr rfl) (List.cons_ne_nil _ _)]
          intro c mem
          exact List.mem_singleton.mp mem
      · rw [lookupComponents_short, tokens_behind, lookupComponents_short (by omega)]
        rw [List.length_append, List.length_cons, List.length_take]
        omega
    · exact ⟨[], nofun, (List.append_nil _).symm⟩

/-- Dots at the end of a path change nothing. -/
lemma lookup_dots (stay : ∀ c ∈ dots, c = [0x2E]) (more : lookupComponents path' = lookupComponents path ++ dots) :
    loop (follow D s) (path', d) = loop (follow D s) (path, d) := by
  have rel : Option.Rel (fun r r' => r = r') (loop (follow D s) (path', d)) (loop (follow D s) (path, d)) := by
    refine loop_simulation (R := fun q' q => q'.2 = q.2 ∧
      ∃ dots, (∀ c ∈ dots, c = [0x2E]) ∧ lookupComponents q'.1 = lookupComponents q.1 ++ dots) ?_
      ⟨rfl, dots, stay, more⟩
    rintro ⟨path', d⟩ ⟨path, _⟩ ⟨rfl, dots, stay, more⟩
    have same := course_dots (D := D) (s := s) stay s.vfsRoot d (lookupComponents path)
    rw [← more] at same
    simp only [follow, same]
    cases course D s s.vfsRoot d (lookupComponents path) with
    | done ret n d => exact .inr ⟨_, _, rfl, rfl, rfl⟩
    | link t rest d =>
      refine .inl ⟨_, _, rfl, rfl, rfl, ?_⟩
      cases rest with
      | nil => exact appended_dots stay t
      | cons c rest => exact ⟨[], List.forall_mem_nil _, (List.append_nil _).symm⟩
    | endless => exact .inl ⟨_, _, rfl, rfl, rfl, dots, stay, more⟩
  generalize loop (follow D s) (path', d) = r' at rel ⊢
  generalize loop (follow D s) (path, d) = r at rel ⊢
  cases rel with
  | some eq => rw [eq]
  | none => rfl

/-! ## Transparency. -/

/-- The target with the first component of a path that fits behind it. -/
lemma appended_first {rest : List UInt8} (fits : (t ++ 0x2F :: rest).length < VFS_PATH_MAX) :
    lookupComponents (appended t (tokens isSlash rest).head?) = tokens isSlash t ++ (tokens isSlash rest).take 1 := by
  rw [List.length_append, List.length_cons] at fits
  cases h : tokens isSlash rest with
  | nil => rw [List.head?_nil, appended, lookupComponents_short (by omega), List.take_nil, List.append_nil]
  | cons c cs =>
    obtain ⟨ne, free, len⟩ := mem_tokens (h ▸ List.mem_cons_self : c ∈ tokens isSlash rest)
    have room : c.length ≤ VFS_PATH_MAX - t.length - 2 := by omega
    rw [List.head?_cons, appended, if_pos (by omega), List.take_of_length_le room, lookupComponents_short,
      tokens_behind, tokens_of_free (fun y mem => (free y mem).2) ne]
    · rfl
    · rw [List.length_append, List.length_cons]
      omega

lemma transparent_of {rest : List UInt8} (stay : ∀ c ∈ (tokens isSlash rest).tail, c = [0x2E]) : Transparent rest := by
  intro F σ D s pre name target d path link spelled short fits
  rw [lookup_link link ((lookupComponents_short short).trans spelled), vfsLookup_from, vfsLookup_from]
  refine congrArg _ (lookup_dots stay ?_).symm
  rw [lookupComponents_short fits, tokens_behind, appended_first fits, List.append_assoc]
  cases tokens isSlash rest with
  | nil => rfl
  | cons c cs => rfl

/-! ## A tree on which the other components matter. -/

/-- A directory at a depth, whose `..` leads to the node at `up`. -/
def deepNode (depth : UInt32) (up : Option Nat) : Node Unit :=
  { foundRoot with size := depth, parent := up }

/-- The root has the link `l` and below every other name a directory that has one more below every name; `..` leads to
    two other directories, one behind the other. -/
def deepFind (n : Node Unit) (c : List UInt8) : Option (Node Unit) :=
  if n.size = 0 then (if c = [0x6C] then some foundLink else some (deepNode 1 (some 0)))
  else if n.size = 1 then some (deepNode 2 (some 0))
  else none

/-- The target of the link is `/d`. -/
def deepDriver : Driver Unit Unit := .fixed deepFind fun _ => [0x2F, 0x64]

def deepState : State Unit Unit :=
  rooted (fun p => if p = 0 then some (deepNode 3 (some 1)) else if p = 1 then some (deepNode 4 none) else none)
    (deepNode 0 none)

/-- The directories behind the root, by their depth. -/
def deepDir (k : Nat) : Node Unit :=
  deepNode (UInt32.ofNat k) (if k = 3 then some 1 else if k = 4 then none else some 0)

lemma deep_up (k : Nat) (low : 0 < k) (high : k ≤ 4) : ∃ k', parentOf deepState (deepDir k) = deepDir k' ∧
    k ≤ k' ∧ k' ≤ 4 ∧ (k ≤ 3 → k < k') := by
  obtain rfl | rfl | rfl | rfl : k = 1 ∨ k = 2 ∨ k = 3 ∨ k = 4 := by omega
  · exact ⟨3, rfl, by decide, by decide, by decide⟩
  · exact ⟨3, rfl, by decide, by decide, by decide⟩
  · exact ⟨4, rfl, by decide, by decide, by decide⟩
  · exact ⟨4, rfl, by decide, by decide, by decide⟩

/-- A name leads from the first directory to the second, and from any other nowhere. -/
lemma deep_child (k : Nat) (low : 0 < k) (high : k ≤ 4) (c : List UInt8) :
    lookupChild deepDriver deepState (deepDir k) c () = some (if k = 1 then some (deepDir 2) else none, ()) := by
  rw [deepDriver, lookupChild_fixed rfl rfl]
  obtain rfl | rfl | rfl | rfl : k = 1 ∨ k = 2 ∨ k = 3 ∨ k = 4 := by omega
  · rfl
  · rfl
  · rfl
  · rfl

/-- The walk from a directory fails or ends in one at least as deep, which is deeper behind a component other
    than `.`. -/
lemma deep_course (k : Nat) (low : 0 < k) (high : k ≤ 4) (cs : List (List UInt8)) :
    ∃ ret m, course deepDriver deepState (deepDir k) () cs = .done ret m () ∧
      (ret = 0 → ∃ k', m = deepDir k' ∧ k ≤ k' ∧ k' ≤ 4 ∧ (k ≤ 3 → (∃ c ∈ cs, c ≠ [0x2E]) → k < k')) := by
  induction cs generalizing k with
  | nil => exact ⟨0, deepDir k, rfl, fun _ => ⟨k, rfl, le_rfl, high, fun _ => nofun⟩⟩
  | cons c cs ih =>
    rw [course]
    split_ifs with dot dotdot
    · obtain ⟨ret, m, eq, ends⟩ := ih k low high
      refine ⟨ret, m, eq, fun ok => ?_⟩
      obtain ⟨k', at_k', le, le', strict⟩ := ends ok
      refine ⟨k', at_k', le, le', fun small other => strict small ?_⟩
      obtain ⟨c', mem, ne⟩ := other
      cases mem with
      | head => exact absurd dot ne
      | tail _ mem => exact ⟨c', mem, ne⟩
    · obtain ⟨k₁, up, le₁, high₁, strict₁⟩ := deep_up k low high
      obtain ⟨ret, m, eq, ends⟩ := ih k₁ (by omega) high₁
      rw [up]
      refine ⟨ret, m, eq, fun ok => ?_⟩
      obtain ⟨k', at_k', le, le', -⟩ := ends ok
      exact ⟨k', at_k', by omega, le', fun small _ => Nat.lt_of_lt_of_le (strict₁ small) le⟩
    · rw [deep_child k low high]
      by_cases first : k = 1
      · subst first
        obtain ⟨ret, m, eq, ends⟩ := ih 2 (by decide) (by decide)
        have dir : ¬ IsLink (deepDir 2) := by decide
        simp only [if_pos, if_neg dir]
        refine ⟨ret, m, eq, fun ok => ?_⟩
        obtain ⟨k', at_k', le, le', -⟩ := ends ok
        exact ⟨k', at_k', by omega, le', fun _ _ => by omega⟩
      · simp only [if_neg first]
        exact ⟨_, _, rfl, fun no => absurd no (by decide)⟩

/-- One component leads from the first directory to one that is not the last. -/
lemma deep_first (c : List UInt8) : ∃ k, course deepDriver deepState (deepDir 1) () [c] = .done 0 (deepDir k) () ∧
    0 < k ∧ k ≤ 3 := by
  rw [course]
  split_ifs with dot dotdot
  · exact ⟨1, rfl, by decide, by decide⟩
  · exact ⟨3, rfl, by decide, by decide⟩
  · rw [deep_child 1 (by decide) (by decide)]
    exact ⟨2, rfl, by decide, by decide⟩

/-- Below `/d` the walk is that from the first directory. -/
lemma deep_result (path : List UInt8) (cs : List (List UInt8)) (spelled : lookupComponents path = [0x64] :: cs)
    {ret : Int} {m : Node Unit} (walk : course deepDriver deepState (deepDir 1) () cs = .done ret m ()) :
    vfsLookup deepDriver deepState path = some (ret, m, deepState) := by
  have first : course deepDriver deepState deepState.vfsRoot () ([0x64] :: cs) =
      course deepDriver deepState (deepDir 1) () cs := by
    rw [course, if_neg (by decide), if_neg (by decide)]
    rfl
  have pass : follow deepDriver deepState (path, deepState.drv) = .done (ret, m, ()) := by
    rw [follow, spelled, show deepState.drv = () from rfl, first, walk]
  rw [vfsLookup_follow, loop_done pass]
  rfl

/-- The link `l` of this tree. -/
lemma deep_link : LinkAt deepDriver deepState [] [0x6C] [0x2F, 0x64] () :=
  .intro deepState.vfsRoot foundLink () () .nil (by decide) (by decide) rfl (by decide) rfl rfl (by decide)

lemma stay_of_transparent {rest : List UInt8} (fits : rest.length + 3 < VFS_PATH_MAX) (tr : Transparent rest) :
    ∀ c ∈ (tokens isSlash rest).tail, c = [0x2E] := by
  intro c mem
  by_contra other
  have spelled : tokens isSlash ([0x2F, 0x6C] ++ 0x2F :: rest) = [] ++ [0x6C] :: tokens isSlash rest := by
    rw [tokens_behind]
    rfl
  have short : ([0x2F, 0x6C] ++ 0x2F :: rest).length < VFS_PATH_MAX := by simpa using fits
  have short' : ([0x2F, 0x64] ++ 0x2F :: rest).length < VFS_PATH_MAX := by simpa using fits
  have same := tr Unit Unit deepDriver deepState [] [0x6C] [0x2F, 0x64] () _ deep_link spelled short short'
  rw [lookup_link deep_link ((lookupComponents_short short).trans spelled)] at same
  have first := appended_first short'
  have all := (lookupComponents_short short').trans (tokens_behind _ _)
  cases h : tokens isSlash rest with
  | nil =>
    rw [h] at mem
    cases mem
  | cons c₁ cs =>
    rw [h] at mem first all
    obtain ⟨k, walk, low, high⟩ := deep_first c₁
    obtain ⟨ret, m, further, ends⟩ := deep_course k low (by omega) cs
    have whole : course deepDriver deepState (deepDir 1) () (c₁ :: cs) = .done ret m () :=
      (course_append walk).trans further
    have shorter := deep_result _ _ first walk
    have longer := deep_result _ _ all whole
    rw [h] at same
    have eq : some (0, deepDir k, deepState) = some (ret, m, deepState) := shorter.symm.trans (same.trans longer)
    injection eq with eq
    injection eq with ok eq
    injection eq with node
    obtain ⟨k', at_k', -, le', strict⟩ := ends ok.symm
    have less := strict high ⟨c, mem, other⟩
    -- the directories are told apart by their sizes
    have sizes : UInt32.ofNat k = UInt32.ofNat k' := congrArg Node.size (node.trans at_k')
    have := congrArg UInt32.toNat sizes
    rw [UInt32.toNat_ofNat', UInt32.toNat_ofNat'] at this
    omega

/-- With `/l` a link to `/d` and no `b` in `/d/a`, the lookup of `/l/a/b` finds `/d/a`, and that of `/d/a/b` fails. -/
theorem link_drops_component :
    LinkAt deepDriver deepState [] [0x6C] [0x2F, 0x64] () ∧
    vfsLookup deepDriver deepState [0x2F, 0x6C, 0x2F, 0x61, 0x2F, 0x62] = some (0, deepDir 2, deepState) ∧
    vfsLookup deepDriver deepState [0x2F, 0x64, 0x2F, 0x61, 0x2F, 0x62] =
      some (-ENOENT, deepState.vfsRoot, deepState) := by
  have inner : course deepDriver deepState (deepDir 1) () [[0x61]] = .done 0 (deepDir 2) () := by
    rw [course, if_neg (by decide), if_neg (by decide), deep_child 1 (by decide) (by decide)]
    rfl
  have missing :
      course deepDriver deepState (deepDir 1) () [[0x61], [0x62]] = .done (-ENOENT) deepState.vfsRoot () := by
    refine (course_append inner).trans ?_
    rw [course, if_neg (by decide), if_neg (by decide), deep_child 2 (by decide) (by decide)]
    rfl
  refine ⟨deep_link, ?_, deep_result _ _ rfl missing⟩
  have spelled : lookupComponents [0x2F, 0x6C, 0x2F, 0x61, 0x2F, 0x62] = [] ++ [0x6C] :: [[0x61], [0x62]] := rfl
  rw [lookup_link deep_link spelled]
  exact deep_result _ _ rfl inner

/-- Paths through links with `rest` behind them are looked up as the targets with `rest` behind them exactly when every
    component of `rest` behind the first is `.`. -/
theorem transparent_iff (rest : List UInt8) :
    ((∀ c ∈ (tokens isSlash rest).tail, c = [0x2E]) → Transparent rest) ∧
    (rest.length + 3 < VFS_PATH_MAX → (Transparent rest ↔ ∀ c ∈ (tokens isSlash rest).tail, c = [0x2E])) :=
  ⟨transparent_of, fun fits => ⟨stay_of_transparent fits, transparent_of⟩⟩

end RetaOS.Vfs
