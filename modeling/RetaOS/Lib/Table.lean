import RetaOS.Lib.Memory

/-!
# Tables of words

Arrays of 1024 words of 32 bits, as page tables are. `slot a i` is the address of the `i`th word of the array at `a`.
Two slots are the same or do not overlap (`load_store_slot`), arrays at different page boundaries do not either
(`load_slot_of_outside`), and `storeWords` is the loop that fills the slots of a list of indices.
-/

namespace Lib.Memory

/-- The address of the `i`th word of an array. -/
def slot (a i : UInt32) : UInt32 := a + 4 * i

/-- The loop that stores `f i` in slot `i`, for the indices of a list. -/
def storeWords (m : Memory) (a : UInt32) (f : Nat → UInt32) (is : List Nat) : Memory :=
  is.foldl (fun m i => m.store32 (slot a (UInt32.ofNat i)) (f i)) m

variable {m m' m'' : Memory} {a b i j v : UInt32} {f : Nat → UInt32} {is : List Nat}

lemma SameOutside.refl {n : Nat} : SameOutside a n m m := fun _ _ => rfl

lemma SameOutside.trans {n : Nat} (h : SameOutside a n m m') (h' : SameOutside a n m' m'') : SameOutside a n m m'' :=
  fun x out => (h' x out).trans (h x out)

lemma store32_outside (ha : a.toNat + 4 ≤ 2 ^ 32) : SameOutside a 4 m (m.store32 a v) := by
  intro x out
  have lt := x.toNat_lt
  exact storeBytes_apart ⟨by simp; omega, by omega, by simp; omega⟩

/-- A word outside of what has changed. -/
lemma SameOutside.load32 {n : Nat} (same : SameOutside a n m m') (hb : b.toNat + 4 ≤ 2 ^ 32)
    (out : b.toNat + 4 ≤ a.toNat ∨ a.toNat + n ≤ b.toNat) : m'.load32 b = m.load32 b := by
  apply load32_congr
  intro k hk
  have byte := toNat_add_ofNat (a := b) (n := k) (by omega)
  exact same _ (by omega)

/-- A page ends before the address space does. -/
lemma page_le (ha : 4096 ∣ a.toNat) : a.toNat + 4096 ≤ 2 ^ 32 := by
  have lt := a.toNat_lt
  omega

lemma slot_toNat (ha : a.toNat + 4096 ≤ 2 ^ 32) (hi : i.toNat < 1024) : (slot a i).toNat = a.toNat + 4 * i.toNat := by
  have scaled : (4 * i).toNat = 4 * i.toNat := by
    rw [UInt32.toNat_mul]
    change 4 * i.toNat % 2 ^ 32 = 4 * i.toNat
    omega
  rw [slot, toNat_add_of_lt (by omega), scaled]

/-- A store into a slot stays in its page. -/
lemma store_slot_outside (ha : a.toNat + 4096 ≤ 2 ^ 32) (hi : i.toNat < 1024) :
    SameOutside a 4096 m (m.store32 (slot a i) v) := by
  intro x out
  have at_i := slot_toNat ha hi
  exact store32_outside (by omega) x (by omega)

/-- Memories that agree on a page hold the same words there. -/
lemma load_slot_congr (hb : b.toNat + 4096 ≤ 2 ^ 32) (hj : j.toNat < 1024)
    (same : ∀ x : UInt32, b.toNat ≤ x.toNat → x.toNat < b.toNat + 4096 → m' x = m x) :
    m'.load32 (slot b j) = m.load32 (slot b j) := by
  have at_j := slot_toNat hb hj
  apply load32_congr
  intro k hk
  have byte := toNat_add_ofNat (a := slot b j) (n := k) (by omega)
  exact same _ (by omega) (by omega)

/-- A page that does not meet the changed one keeps its words. -/
lemma load_slot_of_outside (same : SameOutside a 4096 m m') (ha : 4096 ∣ a.toNat) (hb : 4096 ∣ b.toNat) (ne : a ≠ b)
    (hj : j.toNat < 1024) : m'.load32 (slot b j) = m.load32 (slot b j) := by
  have apart : a.toNat ≠ b.toNat := fun eq => ne (UInt32.toNat_inj.mp eq)
  apply load_slot_congr (page_le hb) hj
  intro x lo hi
  exact same x (by omega)

/-- A slot holds what was stored last. -/
lemma load_store_slot (ha : a.toNat + 4096 ≤ 2 ^ 32) (hi : i.toNat < 1024) (hj : j.toNat < 1024) :
    (m.store32 (slot a i) v).load32 (slot a j) = if i = j then v else m.load32 (slot a j) := by
  split_ifs with same
  · rw [same]
    exact load32_store32
  · have apart : i.toNat ≠ j.toNat := fun eq => same (UInt32.toNat_inj.mp eq)
    have at_i := slot_toNat ha hi
    have at_j := slot_toNat ha hj
    exact (store32_outside (by omega)).load32 (by omega) (by omega)

/-- The loop stays in the page of the array. -/
lemma storeWords_outside (ha : a.toNat + 4096 ≤ 2 ^ 32) (his : ∀ i ∈ is, i < 1024) :
    SameOutside a 4096 m (m.storeWords a f is) := by
  induction is generalizing m with
  | nil => exact .refl
  | cons i is ih =>
    have hi : (UInt32.ofNat i).toNat < 1024 := by
      have lt := his i List.mem_cons_self
      rw [toNat_ofNat_lt (by omega)]
      exact lt
    exact (store_slot_outside ha hi).trans (ih fun i h => his i (List.mem_cons_of_mem _ h))

/-- A slot that is filled first, and then again or not. -/
lemma filled_cons {i : Nat} {w : UInt32} (small : i < 1024) :
    (if j.toNat ∈ is then f j.toNat else if UInt32.ofNat i = j then f i else w) =
      if j.toNat ∈ i :: is then f j.toNat else w := by
  have eq : (UInt32.ofNat i).toNat = i := toNat_ofNat_lt (by omega)
  by_cases later : j.toNat ∈ is
  · simp [later]
  · by_cases here : j.toNat = i
    · have same : UInt32.ofNat i = j := UInt32.toNat_inj.mp (eq.trans here.symm)
      simp [here, same]
    · have differ : UInt32.ofNat i ≠ j := fun e => here (by rw [← e, eq])
      simp [later, here, differ]

/-- After the loop the slots of the list are filled. -/
lemma load_storeWords (ha : a.toNat + 4096 ≤ 2 ^ 32) (his : ∀ i ∈ is, i < 1024) (hj : j.toNat < 1024) :
    (m.storeWords a f is).load32 (slot a j) = if j.toNat ∈ is then f j.toNat else m.load32 (slot a j) := by
  induction is generalizing m with
  | nil => simp [storeWords]
  | cons i is ih =>
    have small := his i List.mem_cons_self
    have eq : (UInt32.ofNat i).toNat = i := toNat_ofNat_lt (by omega)
    have rest := ih (m := m.store32 (slot a (UInt32.ofNat i)) (f i)) fun i h => his i (List.mem_cons_of_mem _ h)
    rw [load_store_slot ha (by omega) hj] at rest
    rw [storeWords, List.foldl_cons, ← storeWords, rest]
    exact filled_cons small

end Lib.Memory
