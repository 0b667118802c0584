import Mathlib.Data.Set.Basic
import Mathlib.Data.List.Infix
import Mathlib.Logic.Function.Basic

/-!
# Hierarchical name spaces

A name space over paths of names of any type `ν`: a set of directories that contains the root and the
ancestors of its members, and a list of files, the newest first, that lie in directories. `mkdirs` makes all
directories on a path and `put` writes a file and the directories it needs, so that no operation leaves the type.
`get` reads the space; `mkdirs_snoc` and `put_get` say what each operation changes of it, and `files_build`
and `dirs_build` what a list of them leaves, where the last file written under a path is the one it holds.
-/

namespace Lib

/-- What a path of a name space holds. -/
inductive Entry (α : Type*) where
  | dir
  | file (a : α)

/-- A name space: directories with their ancestors, and files in them. -/
@[ext] structure PathMap (ν α : Type*) where
  dirs : Set (List ν)
  files : List (List ν × α)
  root : [] ∈ dirs
  closed : ∀ p c, p ++ [c] ∈ dirs → p ∈ dirs
  parents : ∀ f ∈ files, ∃ p c, f.1 = p ++ [c] ∧ p ∈ dirs

namespace PathMap

variable {ν α : Type*} {A : PathMap ν α} {p q d : List ν} {c : ν} {a : α}

/-- The name space of a root directory alone. -/
def empty : PathMap ν α where
  dirs := {[]}
  files := []
  root := rfl
  closed p c h := absurd h (List.append_ne_nil_of_right_ne_nil p (List.cons_ne_nil c []))
  parents := nofun

/-- The directories on a path are made. -/
def mkdirs (A : PathMap ν α) (d : List ν) : PathMap ν α where
  dirs := A.dirs ∪ {q | q <+: d}
  files := A.files
  root := .inl A.root
  closed p c h := by
    cases h with
    | inl h => exact .inl (A.closed p c h)
    | inr h => exact .inr ((List.prefix_append p [c]).trans h)
  parents f hf := by
    obtain ⟨p, c, e, hp⟩ := A.parents f hf
    exact ⟨p, c, e, .inl hp⟩

/-- A file is written in the directory `d`. -/
def put (A : PathMap ν α) (d : List ν) (c : ν) (a : α) : PathMap ν α :=
  { A.mkdirs d with
    files := (d ++ [c], a) :: A.files
    parents := by
      intro f hf
      cases hf with
      | head => exact ⟨d, c, rfl, .inr (List.prefix_refl d)⟩
      | tail _ hf => exact (A.mkdirs d).parents f hf }

/-! ## What the operations change. -/

@[simp] lemma mkdirs_root : A.mkdirs [] = A := by
  apply PathMap.ext
  · apply Set.union_eq_left.mpr
    intro q hq
    cases List.prefix_nil.mp hq
    exact A.root
  · rfl

/-- The directories on a path that is one longer. -/
lemma mem_mkdirs_snoc : q ∈ (A.mkdirs (d ++ [c])).dirs ↔ q ∈ (A.mkdirs d).dirs ∨ q = d ++ [c] := by
  change q ∈ A.dirs ∨ q <+: d ++ [c] ↔ (q ∈ A.dirs ∨ q <+: d) ∨ q = d ++ [c]
  rw [List.prefix_concat_iff]
  tauto

/-- One more directory, if it is there already. -/
lemma mkdirs_snoc_mem (h : d ++ [c] ∈ (A.mkdirs d).dirs) : A.mkdirs (d ++ [c]) = A.mkdirs d := by
  apply PathMap.ext
  · ext q
    rw [mem_mkdirs_snoc]
    constructor
    · intro hq
      cases hq with
      | inl hq => exact hq
      | inr e => exact e ▸ h
    · exact .inl
  · rfl

/-! ## Lists of operations. -/

/-- An operation on a name space. -/
inductive Item (ν α : Type*) where
  | dir (d : List ν)
  | file (d : List ν) (c : ν) (a : α)

namespace Item

/-- The directory that an operation makes. -/
def parent : Item ν α → List ν
  | .dir d => d
  | .file d _ _ => d

/-- The file that an operation writes. -/
def file? : Item ν α → Option (List ν × α)
  | .dir _ => none
  | .file d c a => some (d ++ [c], a)

end Item

/-- An operation is carried out. -/
def add (A : PathMap ν α) : Item ν α → PathMap ν α
  | .dir d => A.mkdirs d
  | .file d c a => A.put d c a

/-- A list of operations is carried out. -/
def build (A : PathMap ν α) (l : List (Item ν α)) : PathMap ν α := l.foldl add A

lemma mem_add_dirs {i : Item ν α} : q ∈ (A.add i).dirs ↔ q ∈ A.dirs ∨ q <+: i.parent := by
  cases i with
  | dir d => exact Iff.rfl
  | file d c a => exact Iff.rfl

lemma add_files {i : Item ν α} : (A.add i).files = i.file?.toList ++ A.files := by
  cases i with
  | dir d => rfl
  | file d c a => rfl

/-- The directories after a list of operations. -/
theorem dirs_build {l : List (Item ν α)} :
    q ∈ (A.build l).dirs ↔ q ∈ A.dirs ∨ ∃ i ∈ l, q <+: i.parent := by
  induction l generalizing A with
  | nil => simp [build]
  | cons i l ih =>
    rw [build, List.foldl_cons, ← build, ih, mem_add_dirs]
    simp [or_assoc]

/-- The files after a list of operations. -/
theorem files_build {l : List (Item ν α)} :
    (A.build l).files = (l.filterMap Item.file?).reverse ++ A.files := by
  induction l generalizing A with
  | nil => rfl
  | cons i l ih =>
    rw [build, List.foldl_cons, ← build, ih, add_files, List.filterMap_cons]
    cases i.file? with
    | none => rfl
    | some f => simp

/-! ## Reading. -/

variable [DecidableEq ν]

open Classical in
/-- What a path holds: a directory, else the newest file of that path. -/
noncomputable def get (A : PathMap ν α) (q : List ν) : Option (Entry α) :=
  if q ∈ A.dirs then some .dir else (A.files.find? fun f => decide (f.1 = q)).map fun f => .file f.2

lemma get_dir : A.get q = some .dir ↔ q ∈ A.dirs := by
  unfold get
  split_ifs with h
  · simp [h]
  · cases (A.files.find? fun f => decide (f.1 = q)) with
    | none => simp [h]
    | some f => simp [h]

/-- Outside the directories the files decide. -/
lemma get_file (h : q ∉ A.dirs) :
    A.get q = (A.files.find? fun f => decide (f.1 = q)).map fun f => .file f.2 := by
  rw [get, if_neg h]

/-- What holds something lies in a directory. -/
lemma get_parent (h : A.get (q ++ [c]) ≠ none) : q ∈ A.dirs := by
  by_contra hq
  rw [get_file fun hc => hq (A.closed q c hc)] at h
  cases e : (A.files.find? fun f => decide (f.1 = q ++ [c])) with
  | none =>
    rw [e] at h
    exact h rfl
  | some f =>
    have path : f.1 = q ++ [c] := by simpa using List.find?_some e
    obtain ⟨p, c', e', hp⟩ := A.parents f (List.mem_of_find?_eq_some e)
    obtain ⟨rfl, _⟩ := List.append_inj' (e'.symm.trans path) rfl
    exact hq hp

/-- A proper ancestor of what holds something is a directory. -/
lemma get_ancestor {t : List ν} (h : A.get (q ++ t) ≠ none) (ht : t ≠ []) : q ∈ A.dirs := by
  induction t using List.reverseRecOn with
  | nil => exact absurd rfl ht
  | append_singleton t c ih =>
    rw [← List.append_assoc] at h
    have parent := get_parent h
    by_cases e : t = []
    · subst e
      simpa using parent
    · apply ih _ e
      rw [get_dir.mpr parent]
      nofun

/-- Nothing lies below what is no directory. -/
lemma get_below (h : q ∉ A.dirs) {t : List ν} (ht : t ≠ []) : A.get (q ++ t) = none := by
  by_contra hn
  exact h (get_ancestor hn ht)

/-- Name spaces with the same files agree outside their directories. -/
lemma get_congr {B : PathMap ν α} (files : B.files = A.files) (dirs : q ∈ B.dirs ↔ q ∈ A.dirs) :
    B.get q = A.get q := by
  by_cases h : q ∈ A.dirs
  · rw [get_dir.mpr h, get_dir.mpr (dirs.mpr h)]
  · rw [get_file h, get_file fun hq => h (dirs.mp hq), files]

/-- One more directory. -/
lemma mkdirs_snoc_get :
    (A.mkdirs (d ++ [c])).get = Function.update (A.mkdirs d).get (d ++ [c]) (some .dir) := by
  funext q
  by_cases e : q = d ++ [c]
  · subst e
    rw [Function.update_self, get_dir]
    exact mem_mkdirs_snoc.mpr (.inr rfl)
  · rw [Function.update_of_ne e]
    have same : q ∈ (A.mkdirs (d ++ [c])).dirs ↔ q ∈ (A.mkdirs d).dirs := by
      rw [mem_mkdirs_snoc]
      simp [e]
    exact get_congr rfl same

/-- A file written under a path that is no directory. -/
lemma put_get (h : d ++ [c] ∉ (A.mkdirs d).dirs) :
    (A.put d c a).get = Function.update (A.mkdirs d).get (d ++ [c]) (some (.file a)) := by
  funext q
  by_cases e : q = d ++ [c]
  · subst e
    have head : (A.put d c a).files.find? (fun f => decide (f.1 = d ++ [c])) = some (d ++ [c], a) :=
      List.find?_cons_of_pos (by simp)
    rw [Function.update_self, get_file (show d ++ [c] ∉ (A.put d c a).dirs from h), head]
    rfl
  · rw [Function.update_of_ne e]
    by_cases hq : q ∈ (A.mkdirs d).dirs
    · rw [get_dir.mpr hq]
      exact get_dir.mpr hq
    · have tail : (A.put d c a).files.find? (fun f => decide (f.1 = q)) =
          (A.mkdirs d).files.find? fun f => decide (f.1 = q) :=
        List.find?_cons_of_neg (by simpa using fun e' => e e'.symm)
      rw [get_file hq, get_file (show q ∉ (A.put d c a).dirs from hq), tail]

/-- A path holds the file written last under it. -/
theorem get_build_file {l1 l2 : List (Item ν α)} (hd : d ++ [c] ∉ (A.build (l1 ++ .file d c a :: l2)).dirs)
    (last : ∀ i ∈ l2, ∀ f, i.file? = some f → f.1 ≠ d ++ [c]) :
    (A.build (l1 ++ .file d c a :: l2)).get (d ++ [c]) = some (.file a) := by
  have later : (l2.filterMap Item.file?).reverse.find? (fun f => decide (f.1 = d ++ [c])) = none := by
    rw [List.find?_eq_none]
    intro f hf
    obtain ⟨i, hi, e⟩ := List.mem_filterMap.mp (List.mem_reverse.mp hf)
    simpa using last i hi f e
  rw [get_file hd, files_build, List.filterMap_append, List.filterMap_cons]
  simp [Item.file?, List.find?_append, later]

/-- A path holds nothing when no operation made it. -/
theorem get_build_none {l : List (Item ν α)} (hq : q ≠ []) (dirs : ∀ i ∈ l, ¬ q <+: i.parent)
    (files : ∀ i ∈ l, ∀ f, i.file? = some f → f.1 ≠ q) : ((empty : PathMap ν α).build l).get q = none := by
  have hd : q ∉ ((empty : PathMap ν α).build l).dirs := by
    rw [dirs_build, not_or]
    refine ⟨hq, ?_⟩
    intro h
    obtain ⟨i, hi, pre⟩ := h
    exact dirs i hi pre
  have none : (l.filterMap Item.file?).reverse.find? (fun f => decide (f.1 = q)) = none := by
    rw [List.find?_eq_none]
    intro f hf
    obtain ⟨i, hi, e⟩ := List.mem_filterMap.mp (List.mem_reverse.mp hf)
    simpa using files i hi f e
  rw [get_file hd, files_build]
  simp [empty, none]

end PathMap

end Lib
