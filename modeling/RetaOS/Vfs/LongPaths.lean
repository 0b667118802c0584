import RetaOS.Vfs.Symlinks
import RetaOS.Vfs.Frame

/-!
# Paths longer than `VFS_PATH_MAX`

`Reaches` is resolution of all the components of a path: at a link it goes on with the components of the target and
those that are left. `vfs_lookup` copies only `VFS_PATH_MAX - 1` bytes of its path, so it can succeed with a node that
the whole path does not lead to. On trees without links it never does exactly for the paths that lose nothing but `.`,
or that have no other components than `.` and `..`; with links, where components are lost on short paths too, only the
latter are safe (`lookup_sound_iff`). What `vfs_open`, `vfs_stat` and `vfs_opendir` return is the node of the lookup.
-/

namespace RetaOS.Vfs
open Lib

variable {F σ : Type}

/-- Resolution of all the components that are left, through links. -/
inductive Reaches (D : Driver F σ) (s : State F σ) : Node F → σ → List (List UInt8) → Node F → σ → Prop where
  | nil {n d} : Reaches D s n d [] n d
  | dot {n d cs m e} :
    Reaches D s n d cs m e →
    Reaches D s n d ([0x2E] :: cs) m e
  | up {n d cs m e} :
    Reaches D s (parentOf s n) d cs m e →
    Reaches D s n d ([0x2E, 0x2E] :: cs) m e
  | child {n d c q d' cs m e} :
    c ≠ [0x2E] →
    c ≠ [0x2E, 0x2E] →
    lookupChild D s n c d = some (some q, d') →
    ¬ IsLink q →
    Reaches D s q d' cs m e →
    Reaches D s n d (c :: cs) m e
  | link {n d c q d' t d'' cs m e} :
    c ≠ [0x2E] →
    c ≠ [0x2E, 0x2E] →
    lookupChild D s n c d = some (some q, d') →
    IsLink q →
    readLink D q d' = (some t, d'') →
    Reaches D s s.vfsRoot d'' (tokens isSlash t ++ cs) m e →
    Reaches D s n d (c :: cs) m e

/-- The whole path leads from the root to a node. -/
def FullyReaches (D : Driver F σ) (s : State F σ) (path : List UInt8) (n : Node F) : Prop :=
  ∃ e, Reaches D s s.vfsRoot s.drv (tokens isSlash path) n e

/-- What the lookup of a path, and with it `vfs_open` without `O_CREAT`, `vfs_stat` and `vfs_opendir`, succeeds with is
    a node that the whole path leads to. -/
structure Sound (D : Driver F σ) (s : State F σ) (path : List UInt8) : Prop where
  lookup : ∀ n s', vfsLookup D s path = some (0, n, s') → FullyReaches D s path n
  open_ : ∀ flags fd s', flags &&& O_CREAT = 0 → 0 ≤ fd → vfsOpen D s path flags = some (fd, s') →
    ∃ n slot s₁, FullyReaches D s path n ∧ (fd, s') = openNode D s₁ slot n flags
  stat : ∀ size mode s', vfsStat D s path = some (0, size, mode, s') →
    ∃ n, FullyReaches D s path n ∧ n.size = size ∧ n.flags = mode
  opendir : ∀ dir s', vfsOpendir D s path = some (0, dir, s') →
    ∃ n, FullyReaches D s path n ∧ dir = { n with position := 0 }

/-- No component leads to a link. -/
def LinkFree (D : Driver F σ) (s : State F σ) : Prop :=
  ∀ n c d q d', lookupChild D s n c d = some (some q, d') → ¬ IsLink q

/-- Only `.` components lie behind the bytes that `vfs_lookup` copies, and none is cut in two. -/
def OnlyDotsLost (path : List UInt8) : Prop :=
  ∃ dots, (∀ c ∈ dots, c = [0x2E]) ∧ tokens isSlash path = lookupComponents path ++ dots

/-- The names `.` and `..`. -/
abbrev IsDots (c : List UInt8) : Prop := c = [0x2E] ∨ c = [0x2E, 0x2E]

/-- The path has no other components than `.` and `..`. -/
def OnlyDots (path : List UInt8) : Prop := ∀ c ∈ tokens isSlash path, IsDots c

variable {D : Driver F σ} {s : State F σ} {n m : Node F} {d e : σ} {path c : List UInt8}
  {cs ds dots : List (List UInt8)}

/-! ## The calls that look a path up. -/

lemma Sound.of_lookup (lookup : ∀ n s', vfsLookup D s path = some (0, n, s') → FullyReaches D s path n) :
    Sound D s path := by
  refine ⟨lookup, fun flags fd s' create ok run => ?_, fun size mode s' run => ?_, fun dir s' run => ?_⟩
  · rw [vfsOpen] at run
    cases slot : freeSlot s with
    | none =>
      rw [slot] at run
      injection run with run
      injection run with ret
      exact absurd (ret ▸ ok) (by decide)
    | some i =>
      rw [slot] at run
      rcases found : vfsLookup D s path with _ | ⟨ret, n, s₁⟩
      · rw [found] at run
        cases run
      · rw [found] at run
        simp only at run
        split_ifs at run with zero
        · subst zero
          injection run with run
          exact ⟨n, i, s₁, lookup n s₁ found, run.symm⟩
        · injection run with run
          injection run with ret
          exact absurd (ret ▸ ok) (by decide)
  · rw [vfsStat] at run
    rcases found : vfsLookup D s path with _ | ⟨ret, n, s₁⟩
    · rw [found] at run
      cases run
    · rw [found] at run
      simp only at run
      split_ifs at run with failed
      · injection run with run
        injection run with ret
        exact absurd ret failed
      · injection run with run
        injection run with _ run
        injection run with size run
        injection run with mode
        exact ⟨n, lookup n s₁ (by rw [found, not_not.mp failed]), size, mode⟩
  · rw [vfsOpendir] at run
    rcases found : vfsLookup D s path with _ | ⟨ret, n, s₁⟩
    · rw [found] at run
      cases run
    · rw [found] at run
      simp only at run
      split_ifs at run with failed notDir
      · injection run with run
        injection run with ret
        exact absurd ret failed
      · injection run with run
        injection run with ret
        exact absurd ret (by decide)
      · injection run with run
        injection run with _ run
        injection run with dir
        exact ⟨n, lookup n s₁ (by rw [found, not_not.mp failed]), dir.symm⟩

/-! ## Resolution without links. -/

/-- A walk that succeeds is one without links. -/
lemma course_reaches (h : course D s n d cs = .done 0 m e) : Reaches D s n d cs m e := by
  have enoent : -ENOENT ≠ 0 := by decide
  have eio : -EIO_ ≠ 0 := by decide
  induction cs generalizing n d with
  | nil =>
    cases h
    exact .nil
  | cons c cs ih =>
    rw [course] at h
    split_ifs at h with dot dotdot
    · subst dot
      exact .dot (ih h)
    · subst dotdot
      exact .up (ih h)
    · rcases found : lookupChild D s n c d with _ | ⟨_ | q, d'⟩
      · rw [found] at h
        cases h
      · rw [found] at h
        injection h with ret
        exact absurd ret enoent
      · rw [found] at h
        simp only at h
        split_ifs at h with link
        · rcases read : readLink D q d' with ⟨_ | t, d''⟩
          · rw [read] at h
            injection h with ret
            exact absurd ret eio
          · rw [read] at h
            cases h
        · exact .child dot dotdot found link (ih h)

/-- Without links, resolution is the walk. -/
lemma Reaches.course_eq (free : LinkFree D s) (r : Reaches D s n d cs m e) : course D s n d cs = .done 0 m e := by
  induction r with
  | nil => rfl
  | dot _ ih => rw [course, if_pos rfl, ih]
  | up _ ih => rw [course, if_neg (by decide), if_pos rfl, ih]
  | child dot dotdot found dir _ ih =>
    rw [course, if_neg dot, if_neg dotdot, found]
    simp only [if_neg dir]
    exact ih
  | link _ _ found link => exact absurd link (free _ _ _ _ _ found)

/-- Resolution goes on behind a part of the path. -/
lemma Reaches.append {m' : Node F} {e' : σ} (r : Reaches D s n d cs m e) (r' : Reaches D s m e ds m' e') :
    Reaches D s n d (cs ++ ds) m' e' := by
  induction r with
  | nil => exact r'
  | dot _ ih => exact .dot (ih r')
  | up _ ih => exact .up (ih r')
  | child dot dotdot found dir _ ih => exact .child dot dotdot found dir (ih r')
  | @link _ _ _ _ _ t _ cs _ _ dot dotdot found link read _ ih =>
    rw [List.cons_append]
    refine .link dot dotdot found link read ?_
    rw [← List.append_assoc (tokens isSlash t) cs ds]
    exact ih r'

lemma reaches_dots (stay : ∀ c ∈ dots, c = [0x2E]) : Reaches D s n d dots n d := by
  induction dots with
  | nil => exact .nil
  | cons c dots ih =>
    obtain rfl := stay c List.mem_cons_self
    exact .dot (ih fun c mem => stay c (List.mem_cons_of_mem _ mem))

lemma course_ne_link (free : LinkFree D s) {t : List UInt8} {rest : List (List UInt8)} :
    course D s n d cs ≠ .link t rest e := by
  induction cs generalizing n d with
  | nil => rintro ⟨⟩
  | cons c cs ih =>
    rw [course]
    split_ifs
    · exact ih
    · exact ih
    · rcases found : lookupChild D s n c d with _ | ⟨_ | q, d'⟩
      · rintro ⟨⟩
      · rintro ⟨⟩
      · simp only [if_neg (free _ _ _ _ _ found)]
        exact ih

/-- Without links, a lookup that succeeds is the walk over the path. -/
lemma lookup_course (free : LinkFree D s) {s' : State F σ} (found : vfsLookup D s path = some (0, n, s')) :
    ∃ e, course D s s.vfsRoot s.drv (lookupComponents path) = .done 0 n e := by
  rw [vfsLookup_follow, follow_result] at found
  cases h : course D s s.vfsRoot s.drv (lookupComponents path) with
  | done ret m e =>
    simp only [h, Course.result, Option.map_some, Option.some.injEq, Prod.mk.injEq] at found
    obtain ⟨rfl, rfl, -⟩ := found
    exact ⟨e, rfl⟩
  | link t rest e => exact absurd h (course_ne_link free)
  | endless =>
    rw [h] at found
    cases found

/-- A walk that succeeds is the lookup. -/
lemma course_lookup (h : course D s s.vfsRoot s.drv (lookupComponents path) = .done 0 n e) :
    vfsLookup D s path = some (0, n, { s with drv := e }) := by
  rw [vfsLookup_follow, follow_result, h]
  rfl

/-! ## Paths that lose nothing. -/

/-- At a root without a parent, `.` and `..` stay. -/
lemma course_isDots (top : s.vfsRoot.parent = none) (all : ∀ c ∈ cs, IsDots c) :
    course D s s.vfsRoot d cs = .done 0 s.vfsRoot d := by
  induction cs with
  | nil => rfl
  | cons c cs ih =>
    have rest := ih fun c mem => all c (List.mem_cons_of_mem _ mem)
    rw [course]
    split_ifs with dot dotdot
    · exact rest
    · rw [parentOf, top]
      exact rest
    · exact absurd (all c List.mem_cons_self) (not_or.mpr ⟨dot, dotdot⟩)

/-- What the lookup sees of a path: the components before the cut, or also a part of the one that is cut in two. -/
lemma tokens_cut (path : List UInt8) :
    tokens isSlash path = lookupComponents path ++ tokens isSlash (path.drop (VFS_PATH_MAX - 1)) ∨
    ∃ ts u v us, u ≠ [] ∧ v ≠ [] ∧ lookupComponents path = ts ++ [u] ∧ tokens isSlash path = ts ++ (u ++ v) :: us := by
  have both := List.take_append_drop (VFS_PATH_MAX - 1) path
  have parts : tokens isSlash (path.take (VFS_PATH_MAX - 1) ++ path.drop (VFS_PATH_MAX - 1)) = _ ∨ _ :=
    tokens_append (path.take (VFS_PATH_MAX - 1)) (path.drop (VFS_PATH_MAX - 1))
  rw [both] at parts
  exact parts

/-- Only `..` can be cut in two, into two dots. -/
lemma isDots_cut {u v : List UInt8} (hu : u ≠ []) (hv : v ≠ []) (token : IsDots (u ++ v)) :
    u = [0x2E] ∧ u ++ v = [0x2E, 0x2E] := by
  obtain ⟨x, u, rfl⟩ := List.exists_cons_of_ne_nil hu
  obtain ⟨y, v, rfl⟩ := List.exists_cons_of_ne_nil hv
  rcases token with one | two
  · have len := congrArg List.length one
    simp at len
  · have len := congrArg List.length two
    have short : u.length = 0 ∧ v.length = 0 := by
      simp at len
      omega
    obtain rfl := List.eq_nil_of_length_eq_zero short.1
    refine ⟨?_, two⟩
    injection two with first
    rw [first]

/-- What is cut off from a path of dots leaves a path of dots. -/
lemma lookupComponents_isDots (all : OnlyDots path) : ∀ c ∈ lookupComponents path, IsDots c := by
  intro c mem
  rcases tokens_cut path with whole | ⟨ts, u, v, us, hu, hv, left, right⟩
  · refine all c ?_
    rw [whole]
    exact List.mem_append_left _ mem
  · rw [left] at mem
    rcases List.mem_append.mp mem with mem | mem
    · refine all c ?_
      rw [right]
      exact List.mem_append_left _ mem
    · obtain rfl := List.mem_singleton.mp mem
      have token : IsDots (c ++ v) := by
        refine all _ ?_
        rw [right]
        exact List.mem_append_right _ List.mem_cons_self
      exact .inl (isDots_cut hu hv token).1

lemma sound_of_onlyDots (top : s.vfsRoot.parent = none) (all : OnlyDots path) : Sound D s path := by
  refine .of_lookup fun n s' found => ?_
  have walk := course_lookup (course_isDots (D := D) (d := s.drv) top (lookupComponents_isDots all))
  simp only [walk, Option.some.injEq, Prod.mk.injEq, true_and] at found
  obtain ⟨rfl, -⟩ := found
  exact ⟨s.drv, course_reaches (course_isDots top all)⟩

lemma sound_of_onlyDotsLost (free : LinkFree D s) (lost : OnlyDotsLost path) : Sound D s path := by
  refine .of_lookup fun n s' found => ?_
  obtain ⟨e, walk⟩ := lookup_course free found
  obtain ⟨dots, stay, all⟩ := lost
  refine ⟨e, ?_⟩
  rw [all]
  exact (course_reaches walk).append (reaches_dots stay)

/-! ## A tree on which lost components matter. -/

/-- Directory `k` of a chain. Every name leads from a directory to the next one, and so does `..`, but from the root. -/
def chainNode (k : Nat) : Node Unit :=
  { foundRoot with priv := some k, parent := if k = 0 then none else some (k + 1) }

/-- Every name but `x` in directory `K` is found. -/
def chainFind (K : Nat) (x : List UInt8) (n : Node Unit) (c : List UInt8) : Option (Node Unit) :=
  match n.priv with
  | none => none
  | some k => if k = K ∧ c = x then none else some (chainNode (k + 1))

def chainDriver (K : Nat) (x : List UInt8) : Driver Unit Unit := .fixed (chainFind K x) fun _ => []

def chainState : State Unit Unit := rooted (fun p => some (chainNode p)) (chainNode 0)

/-- The directory that the components lead to from directory `k`. -/
def chainEnd (k : Nat) : List (List UInt8) → Nat
  | [] => k
  | c :: cs =>
    if c = [0x2E] then chainEnd k cs
    else if c = [0x2E, 0x2E] then chainEnd (if k = 0 then 0 else k + 1) cs
    else chainEnd (k + 1) cs

section
variable {K k : Nat} {x : List UInt8}

lemma le_chainEnd (k : Nat) (cs : List (List UInt8)) : k ≤ chainEnd k cs := by
  induction cs generalizing k with
  | nil => exact le_rfl
  | cons c cs ih =>
    rw [chainEnd]
    split_ifs with _ _ zero
    · exact ih k
    · have := ih 0
      omega
    · have := ih (k + 1)
      omega
    · have := ih (k + 1)
      omega

lemma chainEnd_append (k : Nat) (cs ds : List (List UInt8)) : chainEnd k (cs ++ ds) = chainEnd (chainEnd k cs) ds := by
  induction cs generalizing k with
  | nil => rfl
  | cons c cs ih =>
    rw [List.cons_append, chainEnd, chainEnd]
    split_ifs
    · exact ih k
    · exact ih 0
    · exact ih (k + 1)
    · exact ih (k + 1)

/-- Below the root every component but `.` leads on. -/
lemma lt_chainEnd (below : k ≠ 0) (other : ∃ c ∈ cs, c ≠ [0x2E]) : k < chainEnd k cs := by
  induction cs with
  | nil => exact absurd other nofun
  | cons c cs ih =>
    rw [chainEnd]
    split_ifs with dot dotdot
    · refine ih ?_
      obtain ⟨c', mem, ne⟩ := other
      cases mem with
      | head => exact absurd dot ne
      | tail _ mem => exact ⟨c', mem, ne⟩
    · exact le_chainEnd (k + 1) cs
    · exact le_chainEnd (k + 1) cs

/-- A name leads on from every directory. -/
lemma lt_chainEnd_name (name : ∃ c ∈ cs, ¬ IsDots c) : k < chainEnd k cs := by
  induction cs generalizing k with
  | nil => exact absurd name nofun
  | cons c cs ih =>
    have behind (dots : IsDots c) : ∃ c ∈ cs, ¬ IsDots c := by
      obtain ⟨c', mem, no⟩ := name
      cases mem with
      | head => exact absurd dots no
      | tail _ mem => exact ⟨c', mem, no⟩
    rw [chainEnd]
    split_ifs with dot dotdot zero
    · exact ih (behind (.inl dot))
    · rw [zero]
      exact ih (behind (.inr dotdot))
    · exact (Nat.lt_succ_self k).trans (ih (behind (.inr dotdot)))
    · exact le_chainEnd (k + 1) cs

lemma chain_child (k : Nat) (c : List UInt8) : lookupChild (chainDriver K x) chainState (chainNode k) c () =
    some (if k = K ∧ c = x then none else some (chainNode (k + 1)), ()) := by
  rw [chainDriver, lookupChild_fixed rfl rfl]
  rfl

lemma chainNode_dir (k : Nat) : ¬ IsLink (chainNode k) := by
  have dir : ¬ IsLink foundRoot := by decide
  exact dir

/-- The chain has no links: whatever is found is a directory of it. -/
lemma chain_free : LinkFree (chainDriver K x) chainState := by
  have enoent : -ENOENT ≠ 0 := by decide
  have listed (n : Node Unit) (c : List UInt8) (d : Unit) {q : Node Unit} {d' : Unit}
      (found : (findChild chainState n c).map (fun p => (p.map chainState.node, d)) = some (some q, d')) :
      ∃ k, q = chainNode k := by
    rcases walk : findChild chainState n c with _ | _ | p
    · rw [walk] at found
      cases found
    · rw [walk] at found
      cases found
    · rw [walk] at found
      cases found
      exact ⟨p, rfl⟩
  intro n c d q d' found
  have dir : ∃ k, q = chainNode k := by
    cases asks : n.finddir with
    | none =>
      rw [lookupChild_listed asks] at found
      exact listed n c d found
    | some f =>
      rw [lookupChild_finddir asks] at found
      cases finds : chainFind K x n c with
      | none =>
        simp only [chainDriver, Driver.fixed, finds, if_neg enoent] at found
        exact listed n c () found
      | some m =>
        simp only [chainDriver, Driver.fixed, finds, if_pos] at found
        cases found
        rw [chainFind] at finds
        cases at_k : n.priv with
        | none =>
          rw [at_k] at finds
          cases finds
        | some k =>
          rw [at_k] at finds
          simp only at finds
          split_ifs at finds
          cases finds
          exact ⟨k + 1, rfl⟩
  obtain ⟨k, rfl⟩ := dir
  exact chainNode_dir k

/-- The walk over components that do not lead beyond directory `K`. -/
lemma chain_course (below : chainEnd k cs ≤ K) :
    course (chainDriver K x) chainState (chainNode k) () cs = .done 0 (chainNode (chainEnd k cs)) () := by
  induction cs generalizing k with
  | nil => rfl
  | cons c cs ih =>
    rw [chainEnd] at below ⊢
    rw [course]
    split_ifs at below ⊢ with dot dotdot zero
    · exact ih below
    · subst zero
      exact ih below
    · have up : parentOf chainState (chainNode k) = chainNode (k + 1) := by
        simp only [parentOf, chainNode, if_neg zero]
        rfl
      rw [up]
      exact ih below
    · have := le_chainEnd (k + 1) cs
      have found : ¬ (k = K ∧ c = x) := by
        rintro ⟨rfl, -⟩
        omega
      have dir : ¬ IsLink (chainNode (k + 1)) := chainNode_dir (k + 1)
      rw [chain_child, if_neg found]
      simp only [if_neg dir]
      exact ih below

lemma chainNode_injective {k k' : Nat} (eq : chainNode k = chainNode k') : k = k' := by
  have same := congrArg Node.priv eq
  injection same

/-- A path is not sound on the chain when it goes beyond the directory that the lookup ends in. -/
lemma chain_beyond (sound : ∀ K x, Sound (chainDriver K x) chainState path)
    (ends : chainEnd 0 (lookupComponents path) ≤ chainEnd 0 (tokens isSlash path)) :
    chainEnd 0 (tokens isSlash path) = chainEnd 0 (lookupComponents path) := by
  have short := chain_course (x := []) ends
  have whole := chain_course (x := []) (le_refl (chainEnd 0 (tokens isSlash path)))
  obtain ⟨e, reaches⟩ := (sound _ _).lookup _ _ (course_lookup short)
  have same := reaches.course_eq chain_free
  have eq := whole.symm.trans same
  injection eq with _ node
  exact chainNode_injective node

/-- A path that is cut in a name is not sound on the chain in which that name is missing. -/
lemma chain_cut {ts us : List (List UInt8)} {u v : List UInt8} (hv : v ≠ []) (name : ¬ IsDots (u ++ v))
    (left : lookupComponents path = ts ++ [u]) (right : tokens isSlash path = ts ++ (u ++ v) :: us) :
    ¬ Sound (chainDriver (chainEnd 0 ts) (u ++ v)) chainState path := by
  intro sound
  have before := chain_course (x := u ++ v) (le_refl (chainEnd 0 ts))
  have other : u ≠ u ++ v := fun eq => hv (List.self_eq_append_right.mp eq)
  have short : ∃ m, course (chainDriver (chainEnd 0 ts) (u ++ v)) chainState (chainNode (chainEnd 0 ts)) () [u] =
      .done 0 m () := by
    have found : ¬ (chainEnd 0 ts = chainEnd 0 ts ∧ u = u ++ v) := fun both => other both.2
    rw [course]
    split_ifs
    · exact ⟨_, rfl⟩
    · exact ⟨_, rfl⟩
    · rw [chain_child, if_neg found]
      simp only [if_neg (chainNode_dir _)]
      exact ⟨_, rfl⟩
  obtain ⟨m, short⟩ := short
  have walk := (course_append before).trans short
  rw [← left] at walk
  obtain ⟨e, reaches⟩ := sound.lookup _ _ (course_lookup walk)
  have whole := reaches.course_eq chain_free
  obtain ⟨dot, dotdot⟩ := not_or.mp name
  rw [right] at whole
  have missing := (course_append before).symm.trans whole
  rw [course, if_neg dot, if_neg dotdot, chain_child, if_pos ⟨rfl, rfl⟩] at missing
  injection missing with ret
  exact absurd ret (by decide)

/-- A path that loses more than dots, and that has a name, is not sound on a chain. -/
lemma dots_of_sound (sound : ∀ K x, Sound (chainDriver K x) chainState path) : OnlyDotsLost path ∨ OnlyDots path := by
  by_contra neither
  obtain ⟨loses, names⟩ := not_or.mp neither
  obtain ⟨c, names⟩ := not_forall.mp names
  obtain ⟨mem, name⟩ := Classical.not_imp.mp names
  rcases tokens_cut path with whole | ⟨ts, u, v, us, hu, hv, left, right⟩
  · have more : ∃ c ∈ tokens isSlash (path.drop (VFS_PATH_MAX - 1)), c ≠ [0x2E] := by
      by_contra none
      push Not at none
      exact loses ⟨_, none, whole⟩
    have further : chainEnd 0 (lookupComponents path) < chainEnd 0 (tokens isSlash path) := by
      rw [whole, chainEnd_append]
      rw [whole] at mem
      rcases List.mem_append.mp mem with mem | mem
      · have below := lt_chainEnd_name (k := 0) ⟨c, mem, name⟩
        exact lt_chainEnd (by omega) more
      · exact lt_chainEnd_name ⟨c, mem, name⟩
    have same := chain_beyond sound further.le
    omega
  · by_cases dots : IsDots (u ++ v)
    · -- only `..` can be cut in two, and what is left of it stays
      obtain ⟨rfl, two⟩ := isDots_cut hu hv dots
      rw [two] at right
      have stays : chainEnd 0 (lookupComponents path) = chainEnd 0 ts := by
        rw [left, chainEnd_append]
        rfl
      have further : chainEnd 0 ts < chainEnd 0 (tokens isSlash path) := by
        rw [right, chainEnd_append]
        rw [right] at mem
        rcases List.mem_append.mp mem with mem | mem
        · have below := lt_chainEnd_name (k := 0) ⟨c, mem, name⟩
          exact lt_chainEnd (by omega) ⟨_, List.mem_cons_self, by decide⟩
        · exact lt_chainEnd_name ⟨c, mem, name⟩
      have same := chain_beyond sound (by omega)
      omega
    · exact chain_cut hv dots left right (sound _ _)

end

/-! ## A tree of links on which short paths lose components. -/

section
variable {k b : UInt8}

/-- The link of this tree with a number. -/
def nestedLink (i : Nat) : Node Unit := { foundLink with priv := some i }

/-- The root has the link `c` to `/k/b/x`, the link `k` to itself and the directory `b`, which is empty. -/
def nestedFind (c : List UInt8) (k b : UInt8) (n : Node Unit) (x : List UInt8) : Option (Node Unit) :=
  if n.priv = some 0 then
    if x = c then some (nestedLink 1)
    else if x = [k] then some (nestedLink 2)
    else if x = [b] then some foundRoot
    else none
  else none

def nestedTarget (k b : UInt8) (n : Node Unit) : List UInt8 :=
  if n.priv = some 1 then [0x2F, k, 0x2F, b, 0x2F, 0x78] else [0x2F]

def nestedDriver (c : List UInt8) (k b : UInt8) : Driver Unit Unit := .fixed (nestedFind c k b) (nestedTarget k b)

def nestedState : State Unit Unit := rooted (fun _ => none) { foundRoot with priv := some 0 }

/-- Dots at the root lead nowhere else. -/
lemma Reaches.skip_dots {ts : List (List UInt8)} (top : s.vfsRoot.parent = none) (all : ∀ c ∈ ts, IsDots c)
    (r : Reaches D s s.vfsRoot d (ts ++ cs) m e) : Reaches D s s.vfsRoot d cs m e := by
  induction ts with
  | nil => exact r
  | cons c ts ih =>
    refine ih (fun c mem => all c (List.mem_cons_of_mem _ mem)) ?_
    have dots := all c List.mem_cons_self
    cases r with
    | dot r => exact r
    | up r =>
      rw [parentOf, top] at r
      exact r
    | child dot dotdot => exact absurd dots (not_or.mpr ⟨dot, dotdot⟩)
    | link dot dotdot => exact absurd dots (not_or.mpr ⟨dot, dotdot⟩)

/-- What the root of this tree has under a name. -/
lemma nested_child (x : List UInt8) : lookupChild (nestedDriver c k b) nestedState nestedState.vfsRoot x () =
    some (if x = c then some (nestedLink 1) else if x = [k] then some (nestedLink 2)
      else if x = [b] then some foundRoot else none, ()) := by
  rw [nestedDriver, lookupChild_fixed rfl rfl]
  rfl

lemma nested_leaf (x : List UInt8) : lookupChild (nestedDriver c k b) nestedState foundRoot x () = some (none, ()) := by
  rw [nestedDriver, lookupChild_fixed rfl rfl]
  rfl

/-- Letters for the two names of this tree that are not `c`. -/
structure Letters (c : List UInt8) (k b : UInt8) : Prop where
  left : [k] ≠ c
  right : [b] ≠ c
  other : k ≠ b
  letter : k = 0x61 ∨ k = 0x62 ∨ k = 0x63
  letter' : b = 0x61 ∨ b = 0x62 ∨ b = 0x63

lemma exists_letters (c : List UInt8) : ∃ k b, Letters c k b := by
  by_cases first : [0x61] = c
  · exact ⟨0x62, 0x63, by rw [← first]; decide, by rw [← first]; decide, by decide, by decide, by decide⟩
  · by_cases last : [0x63] = c
    · exact ⟨0x61, 0x62, first, by rw [← last]; decide, by decide, by decide, by decide⟩
    · exact ⟨0x61, 0x63, first, last, by decide, by decide, by decide⟩

namespace Letters
variable (l : Letters c k b)
include l

lemma name_left : ¬ IsDots [k] := by
  rcases l.letter with rfl | rfl | rfl <;> decide

lemma name_right : ¬ IsDots [b] := by
  rcases l.letter' with rfl | rfl | rfl <;> decide

lemma tokens_target : tokens isSlash [0x2F, k, 0x2F, b, 0x2F, 0x78] = [[k], [b], [0x78]] := by
  rcases l.letter with rfl | rfl | rfl <;> rcases l.letter' with rfl | rfl | rfl <;> rfl

lemma read_first : readLink (nestedDriver c k b) (nestedLink 1) () = (some [0x2F, k, 0x2F, b, 0x2F, 0x78], ()) := by
  rcases l.letter with rfl | rfl | rfl <;> rcases l.letter' with rfl | rfl | rfl <;> rfl

lemma tokens_right : lookupComponents [0x2F, 0x2F, b] = [[b]] := by
  rcases l.letter' with rfl | rfl | rfl <;> rfl

lemma child_left : lookupChild (nestedDriver c k b) nestedState nestedState.vfsRoot [k] () =
    some (some (nestedLink 2), ()) := by
  rw [nested_child, if_neg l.left, if_pos rfl]

lemma child_right : lookupChild (nestedDriver c k b) nestedState nestedState.vfsRoot [b] () =
    some (some foundRoot, ()) := by
  have other : [b] ≠ [k] := fun eq => l.other (List.cons.inj eq).1.symm
  rw [nested_child, if_neg l.right, if_neg other, if_pos rfl]

/-- The target of the first link with a component behind it. -/
lemma components (x : Option (List UInt8)) :
    ∃ more, lookupComponents (appended [0x2F, k, 0x2F, b, 0x2F, 0x78] x) = [k] :: [b] :: more := by
  have six : [0x2F, k, 0x2F, b, 0x2F, 0x78].length = 6 := rfl
  have max : VFS_PATH_MAX = 4096 := rfl
  cases x with
  | none =>
    refine ⟨[[0x78]], ?_⟩
    rw [appended, lookupComponents_short (by omega), l.tokens_target]
  | some x =>
    refine ⟨[0x78] :: tokens isSlash (x.take (VFS_PATH_MAX - 6 - 2)), ?_⟩
    rw [appended, if_pos (by omega), six, lookupComponents_short, tokens_behind, l.tokens_target]
    · rfl
    · have len := List.length_take_le (VFS_PATH_MAX - 6 - 2) x
      rw [List.length_append, six, List.length_cons]
      omega

/-- The lookup of the target of the first link drops the last component and ends in the directory `b`. -/
lemma lookup_ends (x : Option (List UInt8)) :
    loop (follow (nestedDriver c k b) nestedState) (appended [0x2F, k, 0x2F, b, 0x2F, 0x78] x, ()) =
      some (0, foundRoot, ()) := by
  obtain ⟨more, spelled⟩ := l.components x
  obtain ⟨dot, dotdot⟩ := not_or.mp l.name_left
  obtain ⟨dot', dotdot'⟩ := not_or.mp l.name_right
  have link : IsLink (nestedLink 2) := by decide
  have dir : ¬ IsLink foundRoot := by decide
  have first : follow (nestedDriver c k b) nestedState (appended [0x2F, k, 0x2F, b, 0x2F, 0x78] x, ()) =
      .next (appended [0x2F] (some [b]), ()) := by
    rw [follow, spelled, course, if_neg dot, if_neg dotdot, l.child_left]
    simp only [if_pos link]
    rfl
  have second : follow (nestedDriver c k b) nestedState ([0x2F, 0x2F, b], ()) = .done (0, foundRoot, ()) := by
    rw [follow, l.tokens_right, course, if_neg dot', if_neg dotdot', l.child_right]
    simp only [if_neg dir]
    rfl
  rw [loop_next first]
  exact loop_done second

/-- Nothing is reached through the first link. -/
lemma not_reaches (dot : c ≠ [0x2E]) (dotdot : c ≠ [0x2E, 0x2E]) {us : List (List UInt8)} {m : Node Unit} {e : Unit} :
    ¬ Reaches (nestedDriver c k b) nestedState nestedState.vfsRoot () (c :: us) m e := by
  have link (i : Nat) : IsLink (nestedLink i) := show IsLink foundLink by decide
  have target : readLink (nestedDriver c k b) (nestedLink 2) () = (some [0x2F], ()) := rfl
  have dir : ¬ IsLink foundRoot := by decide
  intro r
  -- `c` is a link to `/k/b/x`, `k` one to `/`, and `b` is a directory without an `x`
  cases r with
  | dot => exact dot rfl
  | up => exact dotdot rfl
  | child _ _ found notLink =>
    rw [nested_child, if_pos rfl] at found
    cases found
    exact notLink (link 1)
  | link _ _ found _ read r =>
    rw [nested_child, if_pos rfl] at found
    cases found
    rw [l.read_first] at read
    cases read
    rw [l.tokens_target] at r
    have dot := (not_or.mp l.name_left).1
    cases r with
    | dot => exact dot rfl
    | child _ _ found notLink =>
      rw [l.child_left] at found
      cases found
      exact notLink (link 2)
    | link _ _ found _ read r =>
      rw [l.child_left] at found
      cases found
      rw [target] at read
      cases read
      have dot := (not_or.mp l.name_right).1
      rw [show tokens isSlash [0x2F] = [] from rfl, List.nil_append] at r
      cases r with
      | dot => exact dot rfl
      | child _ _ found _ r =>
        rw [l.child_right] at found
        cases found
        cases r with
        | child _ _ found =>
          rw [nested_leaf] at found
          cases found
        | link _ _ found =>
          rw [nested_leaf] at found
          cases found
      | link _ _ found isLink =>
        rw [l.child_right] at found
        cases found
        exact dir isLink

end Letters

/-- The first name among components. -/
lemma exists_name (name : ∃ c ∈ cs, ¬ IsDots c) :
    ∃ ts c us, cs = ts ++ c :: us ∧ (∀ c ∈ ts, IsDots c) ∧ ¬ IsDots c := by
  induction cs with
  | nil => exact absurd name nofun
  | cons c cs ih =>
    by_cases dots : IsDots c
    · obtain ⟨c', mem, no⟩ := name
      cases mem with
      | head => exact absurd dots no
      | tail _ mem =>
        obtain ⟨ts, c₁, us, rfl, before, first⟩ := ih ⟨c', mem, no⟩
        exact ⟨c :: ts, c₁, us, rfl, List.forall_mem_cons.mpr ⟨dots, before⟩, first⟩
    · exact ⟨[], c, cs, rfl, nofun, dots⟩

/-- A path with a name is not sound on this tree, even if it loses nothing itself. -/
lemma nested_unsound {ts us : List (List UInt8)} (l : Letters c k b) (all : ∀ c ∈ ts, IsDots c) (name : ¬ IsDots c)
    (short : lookupComponents path = ts ++ c :: cs) (whole : tokens isSlash path = ts ++ c :: us) :
    ¬ Sound (nestedDriver c k b) nestedState path := by
  intro sound
  obtain ⟨dot, dotdot⟩ := not_or.mp name
  have link : IsLink (nestedLink 1) := by decide
  have first : follow (nestedDriver c k b) nestedState (path, ()) =
      .next (appended [0x2F, k, 0x2F, b, 0x2F, 0x78] cs.head?, ()) := by
    rw [follow, short, course_append (course_isDots rfl all), course, if_neg dot, if_neg dotdot, nested_child,
      if_pos rfl]
    simp only [if_pos link, l.read_first]
  have found : vfsLookup (nestedDriver c k b) nestedState path = some (0, foundRoot, nestedState) := by
    rw [vfsLookup_follow]
    exact congrArg _ ((loop_next first).trans (l.lookup_ends _))
  obtain ⟨e, reaches⟩ := sound.lookup _ _ found
  rw [whole] at reaches
  exact l.not_reaches dot dotdot (reaches.skip_dots rfl all)

end

/-- The path `a/b` with so many slashes that `b` is behind the bytes that are copied. -/
def slashedPath : List UInt8 := 0x61 :: (List.replicate 4094 0x2F ++ [0x62])

lemma tokens_slashes (k : Nat) (t : List UInt8) : tokens isSlash (List.replicate k 0x2F ++ t) = tokens isSlash t := by
  induction k with
  | zero => rfl
  | succ k ih =>
    rw [List.replicate_succ, List.cons_append, tokens_cons rfl]
    exact ih

end RetaOS.Vfs
