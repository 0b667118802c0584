import RetaOS.Lib.Memory

/-!
# Memory behind a translation

What a program reads and writes when the processor translates its addresses. A translation `tr` gives the physical
address behind a virtual one, or `none` for a page fault; an access translates each of its bytes before it stores any.
Where the translation is the identity the accesses are those of the physical memory (`load32At_id`, `store32At_id`), and
a store changes nothing but what its addresses translate to (`store32At_inside`).
-/

namespace Lib.Memory

/-- Memory as a program sees it. What faults reads as zero here, so this is for code that meets no fault. -/
def view (tr : UInt32 → Option UInt32) (m : Memory) : Memory := fun v =>
  match tr v with
  | none => 0
  | some p => m p

/-- The memory behind a program that has made `seen` of what it saw of the given pages. It is determined by that as long
    as no two of the pages lie in one frame. -/
def writeBack (tr : UInt32 → Option UInt32) (pages : List UInt32) (seen m : Memory) : Memory := fun p =>
  match pages.find? fun v => tr v = some (p &&& ~~~0xFFF) with
  | none => m p
  | some v => seen (v + (p &&& 0xFFF))

/-- Store bytes one after the other at virtual addresses. -/
def storeBytesAt (tr : UInt32 → Option UInt32) : Memory → UInt32 → List UInt8 → Option Memory
  | m, _, [] => some m
  | m, v, b :: bs =>
    match tr v with
    | none => none
    | some p => storeBytesAt tr (m.store8 p b) (v + 1) bs

/-- Store a word at a virtual address. -/
def store32At (tr : UInt32 → Option UInt32) (m : Memory) (v w : UInt32) : Option Memory :=
  storeBytesAt tr m v (toBytes 4 w.toNat)

/-- The word at a virtual address. -/
def load32At (tr : UInt32 → Option UInt32) (m : Memory) (v : UInt32) : Option UInt32 :=
  if ∀ i ∈ List.range 4, (tr (v + UInt32.ofNat i)).isSome then some ((view tr m).load32 v) else none

variable {tr : UInt32 → Option UInt32} {m m' seen : Memory} {v w : UInt32} {bs : List UInt8} {pages : List UInt32}

lemma view_of_some {p : UInt32} (h : tr v = some p) : view tr m v = m p := by
  rw [view, h]

/-! ## The identity. -/

lemma load32At_id (same : ∀ i < 4, tr (v + UInt32.ofNat i) = some (v + UInt32.ofNat i)) :
    load32At tr m v = some (m.load32 v) := by
  have mapped : ∀ i ∈ List.range 4, (tr (v + UInt32.ofNat i)).isSome := by
    intro i hi
    rw [same i (List.mem_range.mp hi)]
    rfl
  rw [load32At, if_pos mapped]
  congr 1
  apply load32_congr
  intro i hi
  exact view_of_some (same i hi)

lemma storeBytesAt_id (same : ∀ i < bs.length, tr (v + UInt32.ofNat i) = some (v + UInt32.ofNat i))
    (short : bs.length ≤ 2 ^ 32) : storeBytesAt tr m v bs = some (m.storeBytes v bs) := by
  induction bs generalizing m v with
  | nil => rfl
  | cons b bs ih =>
    rw [List.length_cons] at same short
    have here : tr v = some v := by
      have first := same 0 (by omega)
      rwa [show v + UInt32.ofNat 0 = v from UInt32.add_zero v] at first
    have rest : ∀ i < bs.length, tr (v + 1 + UInt32.ofNat i) = some (v + 1 + UInt32.ofNat i) := by
      intro i hi
      have shift : v + 1 + UInt32.ofNat i = v + UInt32.ofNat (i + 1) := by
        rw [UInt32.add_assoc, UInt32.ofNat_add, UInt32.add_comm 1]
        rfl
      rw [shift]
      exact same (i + 1) (by omega)
    have both : (m.storeBytes v [b]).storeBytes (v + UInt32.ofNat 1) bs = m.storeBytes v ([b] ++ bs) :=
      storeBytes_append (by rw [List.length_singleton]; omega)
    rw [storeBytesAt, here]
    dsimp only
    rw [ih rest (by omega), store8]
    exact congrArg Option.some both

lemma store32At_id (same : ∀ i < 4, tr (v + UInt32.ofNat i) = some (v + UInt32.ofNat i)) :
    store32At tr m v w = some (m.store32 v w) := by
  have length : (toBytes 4 w.toNat).length = 4 := toBytes_length 4 _
  exact storeBytesAt_id (by rw [length]; exact same) (by rw [length]; decide)

/-! ## Frames. -/

/-- Addresses that translate into a range of physical memory are stored to, and nothing outside of the range changes. -/
lemma storeBytesAt_inside {a : UInt32} {n : Nat}
    (inside : ∀ i < bs.length, ∃ p, tr (v + UInt32.ofNat i) = some p ∧ a.toNat ≤ p.toNat ∧ p.toNat < a.toNat + n) :
    ∃ m', storeBytesAt tr m v bs = some m' ∧ SameOutside a n m m' := by
  induction bs generalizing m v with
  | nil => exact ⟨m, rfl, fun _ _ => rfl⟩
  | cons b bs ih =>
    rw [List.length_cons] at inside
    obtain ⟨p, here, lo, hi⟩ := inside 0 (by omega)
    rw [show v + UInt32.ofNat 0 = v from UInt32.add_zero v] at here
    obtain ⟨m', stored, same⟩ := ih (m := m.store8 p b) (v := v + 1) (by
      intro i hi
      have shift : v + 1 + UInt32.ofNat i = v + UInt32.ofNat (i + 1) := by
        rw [UInt32.add_assoc, UInt32.ofNat_add, UInt32.add_comm 1]
        rfl
      rw [shift]
      exact inside (i + 1) (by omega))
    refine ⟨m', ?_, fun x out => ?_⟩
    · rw [storeBytesAt, here]
      exact stored
    · have ne : x ≠ p := by
        rintro rfl
        omega
      rw [same x out, store8_ne ne]

lemma store32At_inside {a : UInt32} {n : Nat}
    (inside : ∀ i < 4, ∃ p, tr (v + UInt32.ofNat i) = some p ∧ a.toNat ≤ p.toNat ∧ p.toNat < a.toNat + n) :
    ∃ m', store32At tr m v w = some m' ∧ SameOutside a n m m' := by
  have length : (toBytes 4 w.toNat).length = 4 := toBytes_length 4 _
  exact storeBytesAt_inside (by rw [length]; exact inside)

/-- What is written back lies in the frames of the pages. -/
lemma writeBack_outside {a : UInt32} {n : Nat} (aligned : 4096 ∣ a.toNat) (whole : 4096 ∣ n)
    (inside : ∀ v ∈ pages, ∀ p, tr v = some p → a.toNat ≤ p.toNat ∧ p.toNat < a.toNat + n) :
    SameOutside a n m (writeBack tr pages seen m) := by
  intro x out
  have frame := toNat_and_not_mask x (k := 12) (by decide)
  change (x &&& ~~~0xFFF).toNat = x.toNat / 4096 * 4096 at frame
  rw [writeBack]
  cases found : pages.find? fun v => tr v = some (x &&& ~~~0xFFF) with
  | none => rfl
  | some v =>
    have mapped : tr v = some (x &&& ~~~0xFFF) := by simpa using List.find?_some found
    obtain ⟨lo, hi⟩ := inside v (List.mem_of_find?_eq_some found) _ mapped
    omega

end Lib.Memory
