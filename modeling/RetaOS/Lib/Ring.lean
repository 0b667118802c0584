import Mathlib.Data.List.Basic
import Mathlib.Logic.Function.Basic

/-!
# Ring buffers

A ring of `n` slots holds the items from the index `tail` up to the index `head`, wrapping at the end of the slots;
one slot stays free, so that an empty ring and a full one differ. `items` is the queue it stands for: pushing at
`head` appends to it and advancing `tail` drops its first item.

`Queue` is that queue on its own, with its bound. A push on a full queue is refused.
-/

namespace Lib

/-- A queue of at most `bound` items, the oldest first. -/
structure Queue (α : Type*) (bound : Nat) where
  items : List α
  fits : items.length ≤ bound

namespace Queue

variable {α : Type*} {bound : Nat} {q : Queue α bound} {v : α}

/-- The empty queue. -/
def empty : Queue α bound := ⟨[], Nat.zero_le _⟩

/-- Add an item, if there is room. -/
def push (q : Queue α bound) (v : α) : Queue α bound :=
  if h : q.items.length < bound then ⟨q.items ++ [v], by rw [List.length_append]; exact h⟩ else q

/-- Drop the oldest item. -/
def pop (q : Queue α bound) : Queue α bound :=
  ⟨q.items.tail, by rw [List.length_tail]; exact Nat.le_trans (Nat.sub_le _ _) q.fits⟩

lemma push_items (room : q.items.length < bound) : (q.push v).items = q.items ++ [v] := by
  rw [push, dif_pos room]

lemma push_full (full : ¬ q.items.length < bound) : q.push v = q := by
  rw [push, dif_neg full]

end Queue

namespace Ring

variable {α : Type*} {n head tail : Nat} {slots : Nat → α} {v : α}

/-- The number of items. -/
def count (n head tail : Nat) : Nat := (head + n - tail) % n

/-- The items, the oldest first. -/
def items (n : Nat) (slots : Nat → α) (head tail : Nat) : List α :=
  (List.range (count n head tail)).map fun i => slots ((tail + i) % n)

@[simp] lemma items_length : (items n slots head tail).length = count n head tail := by
  rw [items, List.length_map, List.length_range]

/-- An index that has passed the end at most once. -/
lemma mod_wrap {i : Nat} (h : i < 2 * n) : i % n = if i < n then i else i - n := by
  split
  · case isTrue lt => exact Nat.mod_eq_of_lt lt
  · case isFalse ge =>
    rw [Nat.mod_eq_sub_mod (by omega)]
    exact Nat.mod_eq_of_lt (by omega)

lemma count_lt (h : head < n) (tail : Nat) : count n head tail < n := Nat.mod_lt _ (by omega)

lemma count_eq (hh : head < n) (ht : tail < n) :
    count n head tail = if tail ≤ head then head - tail else head + n - tail := by
  rw [count, mod_wrap (by omega)]
  split <;> split <;> omega

lemma count_eq_zero_iff (hh : head < n) (ht : tail < n) : count n head tail = 0 ↔ head = tail := by
  rw [count_eq hh ht]
  split <;> omega

/-- The ring is empty when its indices meet. -/
lemma items_eq_nil_iff (hh : head < n) (ht : tail < n) : items n slots head tail = [] ↔ head = tail := by
  rw [← List.length_eq_zero_iff, items_length, count_eq_zero_iff hh ht]

/-- The ring is full when `head` would meet `tail`. -/
lemma full_iff (slots : Nat → α) (hh : head < n) (ht : tail < n) :
    (head + 1) % n = tail ↔ (items n slots head tail).length = n - 1 := by
  rw [items_length, count_eq hh ht, mod_wrap (by omega)]
  split <;> split <;> omega

/-- The slot after the items is the one at `head`. -/
lemma tail_add_count (hh : head < n) (ht : tail < n) : (tail + count n head tail) % n = head := by
  have lt := count_lt hh tail
  rw [mod_wrap (by omega), count_eq hh ht]
  split <;> split <;> omega

/-- The slots of the items are not the one at `head`. -/
lemma slot_ne_head (hh : head < n) (ht : tail < n) {i : Nat} (hi : i < count n head tail) :
    (tail + i) % n ≠ head := by
  have lt := count_lt hh tail
  rw [mod_wrap (by omega)]
  rw [count_eq hh ht] at hi lt
  split at hi <;> split <;> omega

/-- Storing at `head` and advancing it appends to the items. -/
lemma items_push (hh : head < n) (ht : tail < n) (room : (head + 1) % n ≠ tail) :
    items n (Function.update slots head v) ((head + 1) % n) tail = items n slots head tail ++ [v] := by
  have next : count n ((head + 1) % n) tail = count n head tail + 1 := by
    have lt : (head + 1) % n < n := Nat.mod_lt _ (by omega)
    have wrap : (head + 1) % n = if head + 1 < n then head + 1 else head + 1 - n := mod_wrap (by omega)
    rw [count_eq lt ht, count_eq hh ht]
    split at wrap <;> split <;> split <;> omega
  rw [items, next, List.range_succ, List.map_append, List.map_singleton, tail_add_count hh ht, Function.update_self]
  congr 1
  apply List.map_congr_left
  intro i mem
  exact Function.update_of_ne (slot_ne_head hh ht (List.mem_range.mp mem)) _ _

/-- The oldest item is the one at `tail`, and advancing `tail` drops it. -/
lemma items_pop (hh : head < n) (ht : tail < n) (some : head ≠ tail) :
    items n slots head tail = slots tail :: items n slots head ((tail + 1) % n) := by
  have next : count n head tail = count n head ((tail + 1) % n) + 1 := by
    have lt : (tail + 1) % n < n := Nat.mod_lt _ (by omega)
    have wrap : (tail + 1) % n = if tail + 1 < n then tail + 1 else tail + 1 - n := mod_wrap (by omega)
    rw [count_eq hh ht, count_eq hh lt]
    split at wrap <;> split <;> split <;> omega
  rw [items, next, List.range_succ_eq_map, List.map_cons, List.map_map, Nat.add_zero, Nat.mod_eq_of_lt ht]
  congr 1
  apply List.map_congr_left
  intro i _
  show slots ((tail + (i + 1)) % n) = slots (((tail + 1) % n + i) % n)
  rw [Nat.mod_add_mod, Nat.add_assoc, Nat.add_comm 1 i]

end Ring

end Lib
