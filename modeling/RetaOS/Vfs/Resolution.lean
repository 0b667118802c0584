import RetaOS.Vfs.Lookup

/-!
# Path lookup through symbolic links

`course` is what `vfs_lookup` makes of the components of one path: it comes to the end of the path, to an error, or to a
symbolic link with a readable target, where the function calls itself with the target and the next component
(`appended`). So a lookup is a loop over paths (`follow`), and `vfsLookup_follow` shows that this is the loop of
`vfs_lookup`. It returns exactly when the paths come to one that meets no link (`lookup_returns_iff`): nothing bounds
the number of links, and a link to itself is followed for ever.
-/

namespace RetaOS.Vfs
open Lib

variable {F σ : Type} {D : Driver F σ} {s : State F σ} {n m m' q : Node F} {d e e' : σ} {path t c : List UInt8}
  {cs rest : List (List UInt8)}

/-- `S_ISLNK` of the flags of a node. -/
abbrev IsLink (n : Node F) : Prop := n.flags &&& S_IFMT = S_IFLNK

/-- The directory that `..` leads to. -/
def parentOf (s : State F σ) (n : Node F) : Node F :=
  match n.parent with
  | some p => s.node p
  | none => n

/-- The target that `vfs_lookup` reads from a link, or nothing, and the driver afterwards. -/
def readLink (D : Driver F σ) (q : Node F) (d : σ) : Option (List UInt8) × σ :=
  match q.read with
  | none => (none, d)
  | some f =>
    let (n, bytes, _, d) := D.read f d q 0 (UInt32.ofNat (VFS_PATH_MAX - 1))
    (if n > 0 then some ((bytes.take n.toNat).takeWhile (· != 0)) else none, d)

/-- The target of a link with the next component put behind it. -/
def appended (target : List UInt8) : Option (List UInt8) → List UInt8
  | none => target
  | some c =>
    if target.length + 1 < VFS_PATH_MAX then target ++ 0x2F :: c.take (VFS_PATH_MAX - target.length - 2)
    else target

lemma linkTarget_eq (bytes : List UInt8) (k : Int) (c : Option (List UInt8)) :
    linkTarget bytes k c = appended ((bytes.take k.toNat).takeWhile (· != 0)) c := by
  cases c with
  | none => rfl
  | some c => rfl

/-! ## One path. -/

/-- How a path goes on: to the end or an error, to a link with a target and the components behind it, or into a list of
    children that does not end. -/
inductive Course (F σ : Type) where
  | done (ret : Int) (n : Node F) (d : σ)
  | link (target : List UInt8) (rest : List (List UInt8)) (d : σ)
  | endless

/-- The walk over the components of a path up to the first link. -/
def course (D : Driver F σ) (s : State F σ) : Node F → σ → List (List UInt8) → Course F σ
  | n, d, [] => .done 0 n d
  | n, d, c :: cs =>
    if c = [0x2E] then course D s n d cs
    else if c = [0x2E, 0x2E] then course D s (parentOf s n) d cs
    else
      match lookupChild D s n c d with
      | none => .endless
      | some (none, d) => .done (-ENOENT) s.vfsRoot d
      | some (some q, d) =>
        if IsLink q then
          match readLink D q d with
          | (none, d) => .done (-EIO_) s.vfsRoot d
          | (some t, d) => .link t cs d
        else course D s q d cs

/-- The walk over a path, which goes on with another path at a link. -/
def follow (D : Driver F σ) (s : State F σ) : List UInt8 × σ → Pass (List UInt8 × σ) (Int × Node F × σ)
  | (path, d) =>
    match course D s s.vfsRoot d (lookupComponents path) with
    | .done ret n d => .done (ret, n, d)
    | .link t rest d => .next (appended t rest.head?, d)
    | .endless => .next (path, d)

/-- The result of the lookup from a path that goes on in one way. -/
def Course.result (D : Driver F σ) (s : State F σ) : Course F σ → Option (Int × Node F × σ)
  | .done ret n d => some (ret, n, d)
  | .link t rest d => loop (follow D s) (appended t rest.head?, d)
  | .endless => none

lemma follow_result (path : List UInt8) (d : σ) :
    loop (follow D s) (path, d) = (course D s s.vfsRoot d (lookupComponents path)).result D s := by
  cases h : course D s s.vfsRoot d (lookupComponents path) with
  | done ret n d => exact loop_done (by rw [follow, h])
  | link t rest d => exact loop_next (by rw [follow, h])
  | endless =>
    refine loop_diverges (I := fun q => q = (path, d)) ?_ rfl
    rintro _ rfl
    exact ⟨_, by rw [follow, h], rfl⟩

/-! ## The loop of `vfs_lookup`. -/

/-- The components to come at the head of the loop. -/
def Lookup.remaining (st : Lookup F σ) : List (List UInt8) :=
  match st.component with
  | none => []
  | some c => c :: tokens isSlash st.saveptr

/-- How the path goes on from the head of the loop. -/
def Lookup.course (D : Driver F σ) (s : State F σ) (st : Lookup F σ) : Course F σ :=
  Vfs.course D s st.current st.drv st.remaining

lemma remaining_strtokR (n : Node F) (str : List UInt8) (d : σ) :
    (⟨n, (strtokR isSlash str).1, (strtokR isSlash str).2, d⟩ : Lookup F σ).remaining = tokens isSlash str := by
  have pending := strtokR_pending str
  rw [Pending] at pending
  rw [Lookup.remaining]
  cases h : (strtokR isSlash str).1 with
  | none =>
    simp only [h] at pending
    exact pending.symm
  | some c =>
    simp only [h] at pending
    exact pending.symm

/-- The next token is the first component to come. -/
lemma strtokR_head (str : List UInt8) : (strtokR isSlash str).1 = (tokens isSlash str).head? := by
  have pending := strtokR_pending str
  rw [Pending] at pending
  cases h : (strtokR isSlash str).1 with
  | none =>
    simp only [h] at pending
    rw [pending]
    rfl
  | some c =>
    simp only [h] at pending
    rw [pending]
    rfl

lemma lookupStart_course (path : List UInt8) (d : σ) :
    (lookupStart s path d).course D s = course D s s.vfsRoot d (lookupComponents path) := by
  obtain ⟨r, start, pending⟩ := lookupStart_pending s path d
  rw [start, Lookup.course, Lookup.remaining]
  rw [Pending] at pending
  cases h : r.1 with
  | none =>
    simp only [h] at pending
    rw [pending]
  | some c =>
    simp only [h] at pending
    rw [pending]

/-- What one pass of the loop does, by how the path goes on from it. -/
inductive PassCourse (D : Driver F σ) (s : State F σ) (st : Lookup F σ) :
    Pass (Lookup F σ) (Int × Node F × σ) → Prop where
  | along (st' : Lookup F σ) :
    st.course D s = st'.course D s →
    st'.remaining.length < st.remaining.length →
    PassCourse D s st (.next st')
  | link (t : List UInt8) (rest : List (List UInt8)) (d : σ) :
    st.course D s = .link t rest d →
    PassCourse D s st (.next (lookupStart s (appended t rest.head?) d))
  | done (ret : Int) (n : Node F) (d : σ) :
    st.course D s = .done ret n d →
    PassCourse D s st (.done (ret, n, d))
  | stay :
    st.course D s = .endless →
    PassCourse D s st (.next st)

lemma lookupBody_course (st : Lookup F σ) : PassCourse D s st (lookupBody D s st) := by
  obtain ⟨n, component, saveptr, d⟩ := st
  cases component with
  | none => exact .done 0 n d rfl
  | some c =>
    have unfolds :
        (⟨n, some c, saveptr, d⟩ : Lookup F σ).course D s = course D s n d (c :: tokens isSlash saveptr) := rfl
    have shorter (m : Node F) (e : σ) : (⟨m, (strtokR isSlash saveptr).1, (strtokR isSlash saveptr).2, e⟩ :
        Lookup F σ).remaining.length < (⟨n, some c, saveptr, d⟩ : Lookup F σ).remaining.length := by
      rw [remaining_strtokR]
      exact Nat.lt_succ_self _
    rw [course] at unfolds
    simp only [lookupBody]
    -- the cases are those of `course`
    split_ifs with dot dotdot
    · refine .along _ ?_ (shorter n d)
      rw [unfolds, if_pos dot, Lookup.course, remaining_strtokR]
    · refine .along _ ?_ (shorter _ d)
      rw [unfolds, if_neg dot, if_pos dotdot, Lookup.course, remaining_strtokR]
      rfl
    · rw [if_neg dot, if_neg dotdot] at unfolds
      rcases found : lookupChild D s n c d with _ | ⟨_ | q, d'⟩
      · rw [found] at unfolds
        exact .stay unfolds
      · rw [found] at unfolds
        exact .done _ _ _ unfolds
      · rw [found] at unfolds
        simp only [Pass.inner]
        split_ifs with link
        · simp only [if_pos link, readLink] at unfolds
          cases read : q.read with
          | none =>
            simp only [read] at unfolds ⊢
            exact .done _ _ _ unfolds
          | some f =>
            rcases run : D.read f d' q 0 (UInt32.ofNat (VFS_PATH_MAX - 1)) with ⟨k, bytes, q', d''⟩
            simp only [read, run] at unfolds ⊢
            split_ifs with got
            · rw [if_pos got] at unfolds
              rw [linkTarget_eq, strtokR_head]
              exact .link _ _ _ unfolds
            · rw [if_neg got] at unfolds
              exact .done _ _ _ unfolds
        · simp only [if_neg link] at unfolds
          refine .along _ ?_ (shorter q d')
          rw [unfolds, Lookup.course, remaining_strtokR]

/-- The loop runs along the path that it is on. -/
lemma course_loop (st : Lookup F σ) : loop (lookupBody D s) st =
    match st.course D s with
    | .done ret n d => some (ret, n, d)
    | .link t rest d => loop (lookupBody D s) (lookupStart s (appended t rest.head?) d)
    | .endless => none := by
  induction len : st.remaining.length using Nat.strong_induction_on generalizing st with
  | _ k ih =>
    have goes := lookupBody_course (D := D) (s := s) st
    generalize pass : lookupBody D s st = p at goes
    cases goes with
    | along st' same less => rw [loop_next pass, ih _ (len ▸ less) st' rfl, same]
    | link t rest d at_link => rw [loop_next pass, at_link]
    | done ret n d last => rw [loop_done pass, last]
    | stay endless =>
      rw [endless]
      refine loop_diverges (I := fun st' => st' = st) ?_ rfl
      rintro _ rfl
      exact ⟨_, pass, rfl⟩

/-- The loop of `vfs_lookup` gives the result of the path that it is on. -/
theorem lookupBody_follow (path : List UInt8) (d : σ) :
    loop (lookupBody D s) (lookupStart s path d) = loop (follow D s) (path, d) := by
  have forth {st : Lookup F σ} {r} (run : loop (lookupBody D s) st = some r) :
      (st.course D s).result D s = some r := by
    refine loop_back (P := fun st => (st.course D s).result D s = some r) (Q := fun r' => r' = r)
      (fun st st' pass behind => ?_) (fun st r' pass eq => ?_) run rfl
    · have goes := lookupBody_course (D := D) (s := s) st
      rw [pass] at goes
      cases goes with
      | along _ same => rw [same, behind]
      | link t rest d at_link =>
        rw [lookupStart_course, ← follow_result] at behind
        rw [at_link]
        exact behind
      | stay => exact behind
    · have goes := lookupBody_course (D := D) (s := s) st
      rw [pass] at goes
      cases goes with
      | done ret n d last =>
        rw [last, ← eq]
        rfl
  have back {q : List UInt8 × σ} {r} (run : loop (follow D s) q = some r) :
      loop (lookupBody D s) (lookupStart s q.1 q.2) = some r := by
    refine loop_back (P := fun q => loop (lookupBody D s) (lookupStart s q.1 q.2) = some r) (Q := fun r' => r' = r)
      (fun q q' pass behind => ?_) (fun q r' pass eq => ?_) run rfl
    · rw [follow] at pass
      rw [course_loop, lookupStart_course]
      cases h : course D s s.vfsRoot q.2 (lookupComponents q.1) with
      | done ret n d =>
        rw [h] at pass
        cases pass
      | link t rest d =>
        rw [h] at pass
        cases pass
        exact behind
      | endless =>
        rw [h] at pass
        cases pass
        rw [course_loop, lookupStart_course, h] at behind
        exact behind
    · rw [follow] at pass
      rw [course_loop, lookupStart_course]
      cases h : course D s s.vfsRoot q.2 (lookupComponents q.1) with
      | done ret n d =>
        rw [h] at pass
        cases pass
        rw [← eq]
      | link t rest d =>
        rw [h] at pass
        cases pass
      | endless =>
        rw [h] at pass
        cases pass
  cases h : loop (lookupBody D s) (lookupStart s path d) with
  | some r =>
    have goes := forth h
    rw [lookupStart_course, ← follow_result] at goes
    exact goes.symm
  | none =>
    cases h' : loop (follow D s) (path, d) with
    | none => rfl
    | some r => exact absurd (h.symm.trans (back h')) nofun

/-- `vfs_lookup` is the walk over paths. -/
theorem vfsLookup_follow (path : List UInt8) :
    vfsLookup D s path = (loop (follow D s) (path, s.drv)).map fun r => (r.1, r.2.1, { s with drv := r.2.2 }) := by
  rw [vfsLookup, lookupBody_follow]
  cases loop (follow D s) (path, s.drv) with
  | none => rfl
  | some r => rfl

/-! ## Termination. -/

/-- The path that the walk goes on with; a path that it does not leave for another one stays. -/
def redirected (D : Driver F σ) (s : State F σ) (q : List UInt8 × σ) : List UInt8 × σ :=
  match follow D s q with
  | .next q' => q'
  | .done _ => q

/-- The walk over a path comes to the end of the path or to an error. -/
def Settles (D : Driver F σ) (s : State F σ) (q : List UInt8 × σ) : Prop := ∃ r, follow D s q = .done r

lemma follow_along : Along (follow D s) id (redirected D s) (Settles D s) := by
  refine ⟨fun q goes => ?_, fun q stop => stop⟩
  cases pass : follow D s q with
  | next q' => exact ⟨q', rfl, by simp only [redirected, id, pass]⟩
  | done r => exact absurd ⟨r, pass⟩ goes

/-- `vfs_lookup` returns exactly when the paths that it goes on with at links come to one that settles. -/
theorem lookup_returns_iff (D : Driver F σ) (s : State F σ) (path : List UInt8) :
    vfsLookup D s path ≠ none ↔ ∃ n, Settles D s ((redirected D s)^[n] (path, s.drv)) := by
  have ends := (follow_along (D := D) (s := s)).ends_iff (s := (path, s.drv))
  rw [vfsLookup_follow, Ne, Option.map_eq_none_iff]
  exact ends

/-! ## File systems that do not change. -/

/-- The callbacks of a file system that does not change: `find` gives the node under a name in a directory, and `target`
    the target of a link. -/
def Driver.fixed (find : Node Unit → List UInt8 → Option (Node Unit)) (target : Node Unit → List UInt8) :
    Driver Unit Unit where
  read _ _ n _ _ := ((target n).length, target n, n, ())
  write _ _ n _ _ := (-EROFS, n, ())
  open_ _ _ n _ := (0, n, ())
  close _ _ n := (0, n, ())
  readdir _ _ n _ := (⟨[], 0, false⟩, n, ())
  finddir _ _ n c :=
    match find n c with
    | none => (-ENOENT, .zero, ())
    | some q => (0, q, ())
  lseek _ _ n _ _ := (-EINVAL, n, ())

/-- In a directory without a list of children, such a file system finds what its callback finds. -/
lemma lookupChild_fixed {find : Node Unit → List UInt8 → Option (Node Unit)} {target : Node Unit → List UInt8}
    {s : State Unit Unit} {n : Node Unit} (asks : n.finddir = some ()) (empty : n.children = none) (c : List UInt8)
    (d : Unit) : lookupChild (.fixed find target) s n c d = some (find n c, ()) := by
  have enoent : -ENOENT ≠ 0 := by decide
  have walk : findChild s n c = some none := by
    rw [findChild, empty]
    exact loop_done rfl
  simp only [lookupChild, asks, Driver.fixed, walk]
  cases find n c with
  | none =>
    simp only [if_neg enoent]
    rfl
  | some q => rfl

/-- A root without open files. -/
def rooted (nodes : Nat → Option (Node Unit)) (root : Node Unit) : State Unit Unit where
  nodes := nodes
  buffers _ := []
  oom _ := false
  calls := 0
  vfsRoot := root
  openFiles _ := .zero
  drv := ()

/-- A root directory that is looked up by its callback. -/
def foundRoot : Node Unit := { Node.zero with name := [0x2F], flags := S_IFDIR, finddir := some () }

/-- A symbolic link. -/
def foundLink : Node Unit := { Node.zero with name := [0x6C], flags := S_IFLNK, read := some () }

/-- The lookup of `/l`, a link to itself, does not return. -/
theorem lookup_selfLink :
    vfsLookup (.fixed (fun _ c => if c = [0x6C] then some foundLink else none) fun _ => [0x2F, 0x6C])
      (rooted (fun _ => none) foundRoot) [0x2F, 0x6C] = none := by
  rw [vfsLookup_follow, Option.map_eq_none_iff]
  refine loop_diverges (I := fun q => q = ([0x2F, 0x6C], ())) ?_ rfl
  rintro _ rfl
  exact ⟨_, rfl, rfl⟩

end RetaOS.Vfs
