import RetaOS.Lib.Linked
import RetaOS.Lib.Runs
import Mathlib.Data.List.Basic
import Mathlib.Data.Set.Insert
import Mathlib.Order.BooleanAlgebra.Set

/-!
# The registry of file systems

`kernel/fs.c` keeps the file system types in a list that goes through the types themselves. `register_filesystem` puts a
type in front of the list without looking whether it is in it, `unregister_filesystem` walks the links and takes the
type out, and `get_fs_type` walks the types.

The list is sound as long as no type is registered again before it is unregistered (`registry_sound_iff`). A type that
is registered again is linked to the list that it is in, and then a search for a name that no type has does not end.
-/

namespace RetaOS.Fs
open Lib

/-- `struct file_system_type`; `mount` is a function, and a type is known by its address. -/
structure FileSystemType where
  name : Option (List UInt8)
  mount : Option Nat
  next : Option Nat

/-- The types in memory, and `file_systems`. -/
structure Registry where
  types : Nat → FileSystemType
  fileSystems : Option Nat

namespace Registry

def next (r : Registry) (p : Nat) : Option Nat := (r.types p).next

/-- A type that can be registered has a name and a mount function. -/
def Valid (r : Registry) (fs : Nat) : Prop := (r.types fs).name ≠ none ∧ (r.types fs).mount ≠ none

instance (r : Registry) (fs : Nat) : Decidable (r.Valid fs) := inferInstanceAs (Decidable (_ ∧ _))

def setNext (r : Registry) (p : Nat) (v : Option Nat) : Registry :=
  { r with types := Function.update r.types p { r.types p with next := v } }

/-- `register_filesystem`. -/
def registerFilesystem (r : Registry) : Option Nat → Int × Registry
  | none => (-1, r)
  | some fs =>
    if r.Valid fs then (0, { r.setNext fs r.fileSystems with fileSystems := some fs }) else (-1, r)

/-- The link at `fs_ptr`: `file_systems`, or the one of a type. -/
def link (r : Registry) : Option Nat → Option Nat
  | none => r.fileSystems
  | some p => r.next p

/-- A link replaced. -/
def setLink (r : Registry) (fsPtr v : Option Nat) : Registry :=
  match fsPtr with
  | none => { r with fileSystems := v }
  | some p => r.setNext p v

/-- One pass of `unregister_filesystem`, over `fs_ptr`. -/
def unregisterPass (r : Registry) (fs : Nat) (fsPtr : Option Nat) : Pass (Option Nat) (Int × Registry) :=
  match r.link fsPtr with
  | none => .done (-1, r)
  | some p => if p = fs then .done (0, r.setLink fsPtr (r.next fs)) else .next (some p)

/-- `unregister_filesystem`. -/
def unregisterFilesystem (r : Registry) : Option Nat → Option (Int × Registry)
  | none => some (-1, r)
  | some fs => loop (r.unregisterPass fs) none

/-- `get_fs_type`. -/
def getFsType (r : Registry) (name : List UInt8) : Option (Option Nat) :=
  search r.next (fun p => (r.types p).name == some name) r.fileSystems

end Registry

/-- A call that changes the registry. -/
inductive Call where
  | registerFilesystem (fs : Option Nat)
  | unregisterFilesystem (fs : Option Nat)

/-- The registry, with the types that are registered and not unregistered since. -/
abbrev World := Registry × Set Nat

namespace Call

/-- What a call does to the registry. -/
def exec (r : Registry) : Call → Option (Int × Registry)
  | registerFilesystem fs => some (r.registerFilesystem fs)
  | unregisterFilesystem fs => r.unregisterFilesystem fs

/-- What it does to the types that are registered. -/
def registered (x : World) : Call → Set Nat
  | registerFilesystem fs => x.2 ∪ {p | fs = some p ∧ x.1.Valid p}
  | unregisterFilesystem fs => x.2 \ {p | fs = some p}

def step (x : World) (call : Call) : Option World :=
  (call.exec x.1).map fun (_, r) => (r, call.registered x)

/-- The call does not register a type that is registered. -/
def New (x : World) (call : Call) : Prop := ∀ p ∈ x.2, call = registerFilesystem (some p) → ¬ x.1.Valid p

end Call

/-- The list ends, and `get_fs_type` returns for every name: a registered type of that name, or `NULL` when there is
    none. -/
structure Sound (x : World) : Prop where
  acyclic : ∃ l, Linked x.1.next x.1.fileSystems l
  lookup : ∀ name, ∃ res, x.1.getFsType name = some res ∧
    (∀ p, res = some p → p ∈ x.2 ∧ (x.1.types p).name = some name) ∧
    (res = none → ∀ p ∈ x.2, (x.1.types p).name ≠ some name)

/-! ## The list. -/

variable {r : Registry} {x : World} {fs p : Nat} {l : List Nat} {L L' : Set Nat} {v fsPtr : Option Nat}

/-- The list holds the types that are registered, and no other. -/
def Listed (x : World) : Prop := ∃ l, Linked x.1.next x.1.fileSystems l ∧ ∀ p, p ∈ l ↔ p ∈ x.2

lemma next_setNext : (r.setNext p v).next = Function.update r.next p v := by
  funext q
  by_cases eq : q = p
  · subst eq
    simp [Registry.next, Registry.setNext]
  · simp [Registry.next, Registry.setNext, eq]

/-- Every name is looked up among the registered types. -/
lemma Listed.sound (h : Listed x) : Sound x := by
  obtain ⟨l, linked, mem⟩ := h
  refine ⟨⟨l, linked⟩, fun name => ⟨_, linked.search_eq, fun p found => ?_, fun missing p hp eq => ?_⟩⟩
  · have test := List.find?_some found
    exact ⟨(mem p).mp (List.mem_of_find?_eq_some found), by simpa using test⟩
  · have no := List.find?_eq_none.mp missing p ((mem p).mpr hp)
    exact no (by simpa using eq)

/-! ## Registering. -/

/-- The list behind `register_filesystem`. -/
lemma register_eq (valid : r.Valid fs) : ∃ r', r.registerFilesystem (some fs) = (0, r') ∧
    r'.next = Function.update r.next fs r.fileSystems ∧ r'.fileSystems = some fs := by
  rw [Registry.registerFilesystem, if_pos valid]
  exact ⟨_, rfl, next_setNext, rfl⟩

/-- A type that is not registered is put in front of the list. -/
lemma Listed.register (h : Listed (r, L)) (valid : r.Valid fs) (new : fs ∉ L) :
    Listed ((r.registerFilesystem (some fs)).2, L ∪ {p | some fs = some p ∧ r.Valid p}) := by
  obtain ⟨l, linked, mem⟩ := h
  obtain ⟨r', run, next, first⟩ := register_eq valid
  rw [run]
  refine ⟨fs :: l, ?_, fun p => ?_⟩
  · change Linked r'.next r'.fileSystems (fs :: l)
    rw [next, first]
    exact linked.push fun h => new ((mem fs).mp h)
  · rw [List.mem_cons, mem]
    constructor
    · rintro (rfl | old)
      · exact .inr ⟨rfl, valid⟩
      · exact .inl old
    · rintro (old | ⟨eq, -⟩)
      · exact .inr old
      · exact .inl (Option.some.inj eq).symm

/-- A type that is registered is linked into a cycle. -/
lemma Listed.again (h : Listed (r, L)) (valid : r.Valid fs) (old : fs ∈ L) :
    ¬ Sound ((r.registerFilesystem (some fs)).2, L') := by
  rintro ⟨⟨l', cycle⟩, -⟩
  obtain ⟨l, linked, mem⟩ := h
  obtain ⟨r', run, next, first⟩ := register_eq valid
  rw [run] at cycle
  change Linked r'.next r'.fileSystems l' at cycle
  rw [next, first] at cycle
  exact linked.not_again ((mem fs).mpr old) cycle

/-- From then on a search for a name that no registered type has goes round for ever. -/
lemma Listed.hangs (h : Listed (r, L)) (valid : r.Valid fs) (old : fs ∈ L) (name : List UInt8)
    (unknown : ∀ p ∈ L, (r.types p).name ≠ some name) :
    (r.registerFilesystem (some fs)).2.getFsType name = none := by
  obtain ⟨l, linked, mem⟩ := h
  obtain ⟨l₁, l₂, rfl⟩ := List.append_of_mem ((mem fs).mpr old)
  obtain ⟨r', run, next, first⟩ := register_eq valid
  have names (p : Nat) : (r'.types p).name = (r.types p).name := by
    rw [Registry.registerFilesystem, if_pos valid] at run
    cases run
    by_cases eq : p = fs
    · subst eq
      simp [Registry.setNext]
    · simp [Registry.setNext, eq]
  rw [run]
  -- the walk stays on the types up to the one that is registered again
  have front (p : Nat) (h : p ∈ l₁ ++ [fs]) : p ∈ L := (mem p).mp (by simp at h ⊢; tauto)
  refine loop_diverges (I := fun q => ∃ p ∈ l₁ ++ [fs], q = some p) ?_ ⟨fs, by simp, first⟩
  rintro q ⟨p, h, rfl⟩
  have other : ((r'.types p).name == some name) = false := by
    rw [names]
    simpa using unknown p (front p h)
  refine ⟨r'.next p, by simp [searchBody, other], ?_⟩
  rw [next]
  by_cases eq : p = fs
  · subst eq
    rw [Function.update_self]
    cases l₁ with
    | nil => exact ⟨p, by simp, linked.start_eq⟩
    | cons t l₁ => exact ⟨t, by simp, linked.start_eq⟩
  · rw [Function.update_of_ne eq]
    obtain ⟨t, ht, e⟩ := linked.next_front (r := p) (by simpa [eq] using h)
    exact ⟨t, ht, e⟩

/-! ## Unregistering. -/

/-- The walk finds no type that is not in the list. -/
lemma unregister_missing (linked : Linked r.next (r.link fsPtr) l) (out : fs ∉ l) :
    loop (r.unregisterPass fs) fsPtr = some (-1, r) := by
  induction l generalizing fsPtr with
  | nil =>
    have none : r.link fsPtr = none := linked.start_eq
    exact loop_done (by rw [Registry.unregisterPass, none])
  | cons p l ih =>
    have here : r.link fsPtr = some p := linked.start_eq
    rw [here] at linked
    rw [List.mem_cons, not_or] at out
    obtain ⟨ne, out⟩ := out
    have pass : r.unregisterPass fs fsPtr = .next (some p) := by
      rw [Registry.unregisterPass, here]
      exact if_neg fun eq => ne eq.symm
    rw [loop_next pass]
    cases linked with
    | cons rest => exact ih rest out

/-- It stops at the link to a type that is. -/
lemma unregister_found {l₁ l₂ : List Nat} (linked : Linked r.next (r.link fsPtr) (l₁ ++ fs :: l₂)) :
    loop (r.unregisterPass fs) fsPtr =
      some (0, r.setLink ((l₁.getLast?).or fsPtr) (r.next fs)) := by
  induction l₁ generalizing fsPtr with
  | nil =>
    have here : r.link fsPtr = some fs := linked.start_eq
    exact loop_done (by rw [Registry.unregisterPass, here]; exact if_pos rfl)
  | cons p l₁ ih =>
    have here : r.link fsPtr = some p := linked.start_eq
    have nodup := linked.nodup
    rw [here] at linked
    have ne : p ≠ fs := by
      rintro rfl
      exact (List.nodup_cons.mp nodup).1 (by simp)
    have pass : r.unregisterPass fs fsPtr = .next (some p) := by
      rw [Registry.unregisterPass, here]
      exact if_neg ne
    have rest : Linked r.next (r.link (some p)) (l₁ ++ fs :: l₂) := linked.tail
    rw [loop_next pass, ih rest, List.getLast?_cons]
    cases l₁.getLast? with
    | none => rfl
    | some q => rfl

/-- The list behind a link that is replaced by the one of the type that it leads to. -/
lemma linked_setLink {l₁ l₂ : List Nat} (linked : Linked r.next r.fileSystems (l₁ ++ fs :: l₂)) :
    Linked (r.setLink (l₁.getLast?) (r.next fs)).next (r.setLink (l₁.getLast?) (r.next fs)).fileSystems (l₁ ++ l₂) := by
  obtain rfl | ⟨l₁, q, rfl⟩ := l₁.eq_nil_or_concat'
  · have first : r.fileSystems = some fs := linked.start_eq
    rw [first] at linked
    exact linked.tail
  · rw [List.getLast?_concat, Registry.setLink, next_setNext, List.append_assoc]
    rw [List.append_assoc] at linked
    exact linked.remove

/-- `unregister_filesystem` returns, and takes the type out of the list. -/
lemma Listed.unregister (h : Listed (r, L)) (fs : Nat) :
    ∃ ret r', r.unregisterFilesystem (some fs) = some (ret, r') ∧ Listed (r', L \ {p | some fs = some p}) := by
  obtain ⟨l, linked, mem⟩ := h
  have removed : L \ {p | some fs = some p} = L \ {fs} := Set.ext fun p => by simp [eq_comm]
  rw [removed]
  by_cases here : fs ∈ l
  · obtain ⟨l₁, l₂, rfl⟩ := List.append_of_mem here
    have run : loop (r.unregisterPass fs) none = _ := unregister_found linked
    refine ⟨_, _, run, l₁ ++ l₂, ?_, fun p => ?_⟩
    · rw [Option.or_none]
      exact linked_setLink linked
    · rw [mem_without linked.nodup, mem]
      rfl
  · have run : loop (r.unregisterPass fs) none = _ := unregister_missing linked here
    refine ⟨_, _, run, l, linked, fun p => ?_⟩
    rw [Set.sdiff_singleton_eq_self fun old => here ((mem fs).mpr old), mem]

/-! ## Runs. -/

/-- A call that registers nothing twice keeps the list. -/
lemma Listed.step {call : Call} (h : Listed x) (new : call.New x) : ∃ x', call.step x = some x' ∧ Listed x' := by
  obtain ⟨r, L⟩ := x
  cases call with
  | registerFilesystem fs =>
    refine ⟨_, rfl, ?_⟩
    cases fs with
    | none =>
      have same : L ∪ {p | none = some p ∧ r.Valid p} = L := Set.union_eq_left.mpr fun _ h => nomatch h.1
      rw [Call.registered, same]
      exact h
    | some fs =>
      by_cases valid : r.Valid fs
      · exact h.register valid fun old => new fs old rfl valid
      · have same : L ∪ {p | some fs = some p ∧ r.Valid p} = L :=
          Set.union_eq_left.mpr fun p h => absurd (Option.some.inj h.1 ▸ h.2) valid
        rw [Call.registered, same, Registry.registerFilesystem, if_neg valid]
        exact h
  | unregisterFilesystem fs =>
    cases fs with
    | none =>
      refine ⟨_, rfl, ?_⟩
      have same : L \ {p | none = some p} = L := Set.ext fun p => ⟨And.left, fun mem => ⟨mem, nofun⟩⟩
      rw [Call.registered, same]
      exact h
    | some fs =>
      obtain ⟨ret, r', run, h'⟩ := h.unregister fs
      refine ⟨_, ?_, h'⟩
      rw [Call.step, Call.exec, run]
      rfl

/-- From the empty list on, the list is acyclic and every name is looked up among the types that are registered
    throughout a run, exactly when no call registers a type that is registered. -/
theorem registry_sound_iff (types : Nat → FileSystemType) (calls : List Call) :
    Always Call.step Sound (⟨types, none⟩, ∅) calls ↔
      Each Call.step (fun x call => call.New x) (⟨types, none⟩, ∅) calls := by
  have legal : Each Call.step (fun _ _ => True) (⟨types, none⟩, ∅) calls := fun _ _ _ _ _ _ => trivial
  refine always_iff_each_of (I := Listed) ⟨[], .nil, by simp⟩ (fun _ h => h.sound)
    (fun x call h _ new => h.step new) (fun x call x' h _ again run => ?_) legal
  simp only [Call.New, not_forall, not_not] at again
  obtain ⟨p, old, rfl, valid⟩ := again
  cases run
  exact h.again valid old

/-- A type that is registered twice: the search for another name does not end. -/
theorem registry_cyclic :
    ∃ x, [Call.registerFilesystem (some 0), .registerFilesystem (some 0)].foldlM Call.step
        (⟨fun _ => ⟨some [0x65, 0x78, 0x74], some 0, none⟩, none⟩, ∅) = some x ∧
      x.1.Valid 0 ∧ x.1.getFsType [0x66, 0x61, 0x74] = none ∧ ¬ Sound x := by
  have start : Listed (⟨fun _ => ⟨some [0x65, 0x78, 0x74], some 0, none⟩, none⟩, ∅) := ⟨[], .nil, by simp⟩
  have once := start.register (show Registry.Valid _ 0 by decide) (Set.notMem_empty 0)
  have hangs := once.hangs (show Registry.Valid _ 0 by decide) (.inr ⟨rfl, by decide⟩) [0x66, 0x61, 0x74] ?_
  · refine ⟨_, rfl, by decide, hangs, fun sound => ?_⟩
    obtain ⟨res, run, -⟩ := sound.lookup [0x66, 0x61, 0x74]
    cases hangs.symm.trans run
  · rintro p (old | ⟨eq, -⟩)
    · cases old
    · cases eq
      decide

end RetaOS.Fs
