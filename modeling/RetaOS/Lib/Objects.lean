import RetaOS.Lib.Memory
import Mathlib.Logic.Function.Basic

/-!
# Stores of objects

What an allocator is for: its clients see an object under each pointer in use, a row of cells. A cell holds the value
that was written to it last, and `none` is a cell of which nothing is known, as it was not written since the object was
made. `Cells.Shows` are the values that can be read from such cells, and `Memory.Holds` says that the bytes of a memory
are those of an object at an address.
-/

namespace Lib

variable {P V : Type*}

/-- The cells of an object. -/
abbrev Cells (V : Type*) := List (Option V)

namespace Cells

/-- Cells of which nothing is known. -/
def blank (n : Nat) : Cells V := List.replicate n none

/-- The cells cut to `n`, or continued with cells of which nothing is known. -/
def fit (cells : Cells V) (n : Nat) : Cells V := cells.take n ++ blank (n - cells.length)

/-- Values written from an index on. -/
def write (cells : Cells V) (i : Nat) (vs : List V) : Cells V :=
  cells.take i ++ vs.map some ++ cells.drop (i + vs.length)

/-- Values that can be read from an index on: a cell that is known shows its value. -/
def Shows (cells : Cells V) (i : Nat) (vs : List V) : Prop :=
  ∀ j < vs.length, ∀ v, cells[i + j]? = some (some v) → vs[j]? = some v

variable {cells : Cells V} {i j n : Nat} {v : V} {vs ws : List V}

lemma blank_getElem : (blank n : Cells V)[i]? ≠ some (some v) := by
  rw [blank, List.getElem?_replicate]
  split_ifs <;> simp

@[simp] lemma fit_length : (cells.fit n).length = n := by
  rw [fit, List.length_append, List.length_take, blank, List.length_replicate]
  omega

/-- A known cell of an object that was resized is one of the object before. -/
lemma fit_getElem (h : (cells.fit n)[i]? = some (some v)) : i < n ∧ cells[i]? = some (some v) := by
  by_cases front : i < (cells.take n).length
  · rw [fit, List.getElem?_append_left front] at h
    rw [List.length_take] at front
    have lt : i < n := by omega
    exact ⟨lt, by rwa [List.getElem?_take_of_lt lt] at h⟩
  · rw [fit, List.getElem?_append_right (Nat.le_of_not_lt front)] at h
    exact absurd h blank_getElem

@[simp] lemma write_length (inside : i + vs.length ≤ cells.length) : (cells.write i vs).length = cells.length := by
  simp only [write, List.length_append, List.length_take, List.length_map, List.length_drop]
  omega

/-- What was written is in the cells from the index on. -/
lemma write_getElem (inside : i + vs.length ≤ cells.length) (lt : j < vs.length) :
    (cells.write i vs)[i + j]? = some vs[j]? := by
  have front : (cells.take i).length = i := by
    rw [List.length_take]
    omega
  rw [write, List.append_assoc, List.getElem?_append_right (by omega), front, Nat.add_sub_cancel_left,
    List.getElem?_append_left (by simpa using lt), List.getElem?_map, List.getElem?_eq_getElem lt, Option.map_some]

/-- The other cells are as before. -/
lemma write_getElem_other (inside : i + vs.length ≤ cells.length) (out : j < i ∨ i + vs.length ≤ j) :
    (cells.write i vs)[j]? = cells[j]? := by
  have front : (cells.take i).length = i := by
    rw [List.length_take]
    omega
  obtain lt | le := out
  · rw [write, List.append_assoc, List.getElem?_append_left (by omega), List.getElem?_take_of_lt lt]
  · have shift : i + vs.length + (j - i - vs.length) = j := by omega
    rw [write, List.append_assoc, List.getElem?_append_right (by omega), front,
      List.getElem?_append_right (by simpa using by omega), List.length_map, List.getElem?_drop, shift]

/-- What was written is all that can be read. -/
lemma Shows.written (inside : i + vs.length ≤ cells.length) (len : ws.length = vs.length)
    (shows_ : (cells.write i vs).Shows i ws) : ws = vs := by
  refine List.ext_getElem? fun j => ?_
  by_cases lt : j < vs.length
  · have cell := write_getElem inside lt
    rw [List.getElem?_eq_getElem lt] at cell ⊢
    exact shows_ j (by omega) _ cell
  · rw [List.getElem?_eq_none (by omega), List.getElem?_eq_none (by omega)]

end Cells

/-! ## Cells in memory. -/

namespace Memory

/-- The bytes at an address are those of the cells, as far as they are known. -/
def Holds (m : Memory) (a : UInt32) (cells : Cells UInt8) : Prop :=
  ∀ i b, cells[i]? = some (some b) → m (a + UInt32.ofNat i) = b

variable {m m' : Memory} {a b : UInt32} {cells : Cells UInt8} {i n : Nat} {bs : List UInt8}

lemma holds_blank : m.Holds a (Cells.blank n) := fun _ _ h => absurd h Cells.blank_getElem

/-- Cells that lie in memory as another block of bytes. -/
lemma Holds.moved (h : m.Holds a cells)
    (same : m'.loadBytes b (min cells.length n) = m.loadBytes a (min cells.length n)) : m'.Holds b (cells.fit n) := by
  intro i v cell
  obtain ⟨lt, cell⟩ := Cells.fit_getElem cell
  obtain ⟨lt', -⟩ := List.getElem?_eq_some_iff.mp cell
  have byte := congrArg (fun l : List UInt8 => l[i]?) same
  rw [loadBytes_getElem (by omega), loadBytes_getElem (by omega)] at byte
  exact (Option.some.inj byte).trans (h i v cell)

/-- Cells whose bytes are the same in another memory. -/
lemma Holds.congr (h : m.Holds a cells) (same : m'.loadBytes a cells.length = m.loadBytes a cells.length) :
    m'.Holds a cells := by
  intro i v cell
  obtain ⟨lt, -⟩ := List.getElem?_eq_some_iff.mp cell
  have byte := congrArg (fun l : List UInt8 => l[i]?) same
  rw [loadBytes_getElem lt, loadBytes_getElem lt] at byte
  exact (Option.some.inj byte).trans (h i v cell)

/-- A store of bytes writes the cells. -/
lemma Holds.write (h : m.Holds a cells) (inside : i + bs.length ≤ cells.length)
    (room : a.toNat + cells.length ≤ 2 ^ 32) :
    (m.storeBytes (a + UInt32.ofNat i) bs).Holds a (cells.write i bs) := by
  intro j v cell
  obtain ⟨lt, -⟩ := List.getElem?_eq_some_iff.mp cell
  rw [Cells.write_length inside] at lt
  by_cases here : i ≤ j ∧ j < i + bs.length
  · obtain ⟨k, rfl⟩ := Nat.exists_eq_add_of_le here.1
    have ltk : k < bs.length := by omega
    have shift : a + UInt32.ofNat (i + k) = a + UInt32.ofNat i + UInt32.ofNat k := by
      rw [UInt32.ofNat_add, UInt32.add_assoc]
    rw [Cells.write_getElem inside ltk, List.getElem?_eq_getElem ltk] at cell
    rw [shift, storeBytes_inside ltk (by omega)]
    exact Option.some.inj (Option.some.inj cell)
  · have out : j < i ∨ i + bs.length ≤ j := by omega
    rw [Cells.write_getElem_other inside out] at cell
    rw [← h j v cell]
    by_cases empty : bs = []
    · subst empty
      exact storeBytes_outside (Nat.zero_le _)
    · have pos := List.length_pos_iff.mpr empty
      refine storeBytes_apart ?_
      rw [Apart, toNat_add_ofNat (by omega), toNat_add_ofNat (by omega)]
      omega

/-- Bytes whose cells are known. -/
lemma Holds.loadBytes (h : m.Holds a cells) (known : (cells.drop i).take bs.length = bs.map some) :
    m.loadBytes (a + UInt32.ofNat i) bs.length = bs := by
  refine List.ext_getElem? fun j => ?_
  by_cases lt : j < bs.length
  · have cell := congrArg (fun l : Cells UInt8 => l[j]?) known
    have shift : a + UInt32.ofNat i + UInt32.ofNat j = a + UInt32.ofNat (i + j) := by
      rw [UInt32.ofNat_add, UInt32.add_assoc]
    rw [List.getElem?_take_of_lt lt, List.getElem?_drop, List.getElem?_map, List.getElem?_eq_getElem lt,
      Option.map_some] at cell
    rw [loadBytes_getElem lt, shift, h _ _ cell, List.getElem?_eq_getElem lt]
  · rw [List.getElem?_eq_none (by simpa using lt), List.getElem?_eq_none (by simpa using lt)]

/-- A word whose four cells are known. -/
lemma Holds.load32 {v : UInt32} (h : m.Holds a cells) (word : (cells.drop i).take 4 = (toBytes 4 v.toNat).map some) :
    m.load32 (a + UInt32.ofNat i) = v := by
  have bytes : m.loadBytes (a + UInt32.ofNat i) (toBytes 4 v.toNat).length = toBytes 4 v.toNat :=
    h.loadBytes (by rw [toBytes_length, word])
  rw [toBytes_length] at bytes
  rw [Memory.load32, bytes, ofBytes_toBytes, Nat.mod_eq_of_lt (show _ < 256 ^ 4 from v.toNat_lt),
    UInt32.ofNat_toNat]

/-- The bytes in memory can be read from the cells. -/
lemma Holds.shows (h : m.Holds a cells) (i n : Nat) : cells.Shows i (m.loadBytes (a + UInt32.ofNat i) n) := by
  intro j lt v cell
  rw [loadBytes_length] at lt
  have shift : a + UInt32.ofNat (i + j) = a + UInt32.ofNat i + UInt32.ofNat j := by
    rw [UInt32.ofNat_add, UInt32.add_assoc]
  rw [loadBytes_getElem lt, ← shift, h (i + j) v cell]

end Memory

/-! ## Objects. -/

/-- The objects under the pointers in use. -/
abbrev Objects (P V : Type*) := P → Option (Cells V)

namespace Objects

variable [DecidableEq P] {o : Objects P V} {p q : P} {cells d : Cells V}

/-- An object made, or changed. -/
def put (o : Objects P V) (p : P) (cells : Cells V) : Objects P V := Function.update o p (some cells)

/-- An object given up. -/
def drop (o : Objects P V) (p : P) : Objects P V := Function.update o p none

@[simp] lemma put_self : o.put p cells p = some cells := Function.update_self ..

@[simp] lemma put_put : (o.put p cells).put p d = o.put p d := Function.update_idem ..

/-- An object that is given up leaves the store from before. -/
lemma drop_put (new : o p = none) : (o.put p cells).drop p = o := by
  rw [drop, put, Function.update_idem, ← new]
  exact Function.update_eq_self p o

lemma put_eq_some : o.put p cells q = some d ↔ q = p ∧ cells = d ∨ q ≠ p ∧ o q = some d := by
  by_cases eq : q = p
  · subst eq
    simp [put]
  · simp [put, eq]

lemma drop_eq_some : o.drop p q = some d ↔ q ≠ p ∧ o q = some d := by
  by_cases eq : q = p
  · subst eq
    simp [drop]
  · simp [drop, eq]

end Objects

end Lib
