import RetaOS.Pmm.Defs

/-!
# The frame bitmap

The bitmap as a set of frames: `set_frame` and `clear_frame` change the bit of their own frame, and the
loops over a range of frames change the bits of that range. `Freed R s s'` and `Taken R s s'` say that the
frames of the set `R` were made free or put in use, that nothing else about the bitmap changed, and that the
bitmap was left exactly if `R` reaches past it. They compose, and every loop of `pmm.c` is one of them.
-/

namespace RetaOS.Pmm
open Lib

variable {s s' s'' : Frames} {f g a b w : UInt32} {R R' : Nat → Prop}

/-- The index of the word that holds a frame's bit. -/
lemma word_index : (f >>> 5).toNat = f.toNat / 32 := by
  rw [UInt32.toNat_shiftRight]
  exact Nat.shiftRight_eq_div_pow _ 5

/-- The index of a frame's bit in its word. -/
lemma bit_index : (f &&& 31).toNat = f.toNat % 32 := by
  rw [UInt32.toNat_and]
  exact Nat.and_two_pow_sub_one_eq_mod f.toNat 5

/-- A frame is in use when its bit is set. -/
lemma testFrame_eq : testFrame s f = (word s f).toNat.testBit (f.toNat % 32) := by
  have lt : (f &&& 31).toNat < 32 := by
    rw [bit_index]
    exact Nat.mod_lt _ (by decide)
  have zero := and_bit_eq_zero (w := word s f) lt
  rw [bit_index] at zero
  rw [testFrame]
  cases h : (word s f).toNat.testBit (f.toNat % 32) with
  | false => simpa using zero.mpr h
  | true =>
    rw [h] at zero
    simpa using zero

/-- A word of the bitmap after a store. -/
lemma word_setWord (h : f.toNat < 32768) :
    word (setWord s f w) g = if f.toNat / 32 = g.toNat / 32 then w else word s g := by
  rw [word, setWord]
  dsimp only
  rw [Vector.getElem?_setIfInBounds, word_index, word_index, word]
  split
  · rw [if_pos (by omega)]
    rfl
  · rw [word_index]

/-- A store past the bitmap changes no word of it. -/
lemma word_setWord_outside (h : 32768 ≤ f.toNat) (hg : g.toNat < 32768) : word (setWord s f w) g = word s g := by
  rw [word, setWord]
  dsimp only
  rw [Vector.getElem?_setIfInBounds, word_index, word_index, word, if_neg (by omega), word_index]

lemma outside_setWord : (setWord s f w).outside = true ↔ s.outside = true ∨ 32768 ≤ f.toNat := by
  rw [setWord]
  dsimp only
  rw [Bool.or_eq_true, decide_eq_true_eq, word_index]
  exact or_congr_right (by omega)

/-- `set_frame` puts one frame in use. -/
lemma testFrame_setFrame (h : f.toNat < 32768) :
    testFrame (setFrame s f) g = true ↔ testFrame s g = true ∨ g = f := by
  have lt : (f &&& 31).toNat < 32 := by
    rw [bit_index]
    exact Nat.mod_lt _ (by decide)
  rw [testFrame_eq, testFrame_eq, setFrame, word_setWord h, ← UInt32.toNat_inj]
  split
  · rename_i same
    have eq : word s f = word s g := by rw [word, word, word_index, word_index, same]
    rw [testBit_or_bit lt, bit_index, eq, Bool.or_eq_true, decide_eq_true_eq]
    exact or_congr_right (by omega)
  · have ne : ¬ g.toNat = f.toNat := by omega
    rw [or_iff_left ne]

/-- `clear_frame` frees one frame. -/
lemma testFrame_clearFrame (h : f.toNat < 32768) :
    testFrame (clearFrame s f) g = true ↔ testFrame s g = true ∧ g ≠ f := by
  have lt : (f &&& 31).toNat < 32 := by
    rw [bit_index]
    exact Nat.mod_lt _ (by decide)
  rw [testFrame_eq, testFrame_eq, clearFrame, word_setWord h, ne_eq, ← UInt32.toNat_inj]
  split
  · rename_i same
    have eq : word s f = word s g := by rw [word, word, word_index, word_index, same]
    rw [testBit_and_not_bit lt, bit_index, eq, Bool.and_eq_true, Bool.not_eq_true', decide_eq_false_iff_not]
    exact and_congr_right fun _ => by omega
  · have ne : ¬ g.toNat = f.toNat := by omega
    rw [and_iff_left ne]

/-- The frames of `R` were made free. -/
structure Freed (R : Nat → Prop) (s s' : Frames) : Prop where
  test : ∀ g : UInt32, g.toNat < 32768 → (testFrame s' g = true ↔ testFrame s g = true ∧ ¬ R g.toNat)
  outside : s'.outside = true ↔ s.outside = true ∨ ∃ f, 32768 ≤ f ∧ R f
  total : s'.totalFrames = s.totalFrames

/-- The frames of `R` were put in use. -/
structure Taken (R : Nat → Prop) (s s' : Frames) : Prop where
  test : ∀ g : UInt32, g.toNat < 32768 → (testFrame s' g = true ↔ testFrame s g = true ∨ R g.toNat)
  outside : s'.outside = true ↔ s.outside = true ∨ ∃ f, 32768 ≤ f ∧ R f
  total : s'.totalFrames = s.totalFrames

/-- Sets with the same members are freed alike. -/
lemma Freed.congr (h : Freed R s s') (eq : ∀ f, R' f ↔ R f) : Freed R' s s' := by
  obtain rfl : R' = R := funext fun f => propext (eq f)
  exact h

/-- Sets with the same members are put in use alike. -/
lemma Taken.congr (h : Taken R s s') (eq : ∀ f, R' f ↔ R f) : Taken R' s s' := by
  obtain rfl : R' = R := funext fun f => propext (eq f)
  exact h

lemma Freed.refl : Freed (fun _ => False) s s :=
  ⟨fun g _ => by simp, by simp, rfl⟩

lemma Taken.refl : Taken (fun _ => False) s s :=
  ⟨fun g _ => by simp, by simp, rfl⟩

lemma Freed.trans (h : Freed R s s') (h' : Freed R' s' s'') : Freed (fun f => R f ∨ R' f) s s'' := by
  refine ⟨fun g lt => ?_, ?_, h'.total.trans h.total⟩
  · rw [h'.test g lt, h.test g lt]
    tauto
  · rw [h'.outside, h.outside]
    simp only [and_or_left, exists_or, or_assoc]

lemma Taken.trans (h : Taken R s s') (h' : Taken R' s' s'') : Taken (fun f => R f ∨ R' f) s s'' := by
  refine ⟨fun g lt => ?_, ?_, h'.total.trans h.total⟩
  · rw [h'.test g lt, h.test g lt]
    tauto
  · rw [h'.outside, h.outside]
    simp only [and_or_left, exists_or, or_assoc]

/-- `clear_frame` frees its frame. -/
lemma freed_clearFrame : Freed (fun x => x = f.toNat) s (clearFrame s f) := by
  refine ⟨fun g lt => ?_, ?_, rfl⟩
  · by_cases h : f.toNat < 32768
    · rw [testFrame_clearFrame h, ne_eq, ← UInt32.toNat_inj]
    · have ne : g.toNat ≠ f.toNat := by omega
      rw [testFrame_eq, clearFrame, word_setWord_outside (by omega) lt, ← testFrame_eq, and_iff_left ne]
  · rw [clearFrame, outside_setWord, exists_eq_right]

/-- The loop body of `reserve_range` puts its frame in use. -/
lemma taken_useFrame : Taken (fun x => x = f.toNat) s (useFrame s f) := by
  rw [useFrame]
  split
  · rename_i test
    have lt : f.toNat < 32768 := by
      by_contra ge
      have none : word s f = 0 := by
        rw [word, word_index, Vector.getElem?_eq_none (by omega), Option.getD_none]
      rw [testFrame_eq, none] at test
      simp at test
    refine ⟨fun g _ => ?_, ?_, rfl⟩
    · rw [UInt32.toNat_inj]
      constructor
      · exact .inl
      · rintro (h | rfl)
        · exact h
        · exact test
    · rw [exists_eq_right, or_iff_left (by omega)]
  · refine ⟨fun g lt => ?_, ?_, rfl⟩
    · change testFrame (setFrame s f) g = true ↔ _
      by_cases h : f.toNat < 32768
      · rw [testFrame_setFrame h, UInt32.toNat_inj]
      · have ne : g.toNat ≠ f.toNat := by omega
        rw [testFrame_eq, setFrame, word_setWord_outside (by omega) lt, ← testFrame_eq, or_iff_left ne]
    · change (setFrame s f).outside = true ↔ _
      rw [setFrame, outside_setWord, exists_eq_right]

/-! ## Loops over frames. -/

/-- The invariant rule of a loop over frames; `i` is the next frame. -/
lemma forFrames_invariant (body : Frames → UInt32 → Frames) (P : Nat → Frames → Prop)
    (step : ∀ i s, a.toNat ≤ i → i < b.toNat → P i s → P (i + 1) (body s (UInt32.ofNat i)))
    (init : P a.toNat s) : P (max a.toNat b.toNat) (forFrames body a b s) := by
  rw [forFrames]
  obtain ⟨n, hn⟩ : ∃ n, b.toNat - a.toNat = n := ⟨_, rfl⟩
  rw [hn, show max a.toNat b.toNat = a.toNat + n by omega]
  have bound : n ≤ b.toNat - a.toNat := hn.ge
  clear hn
  induction n with
  | zero => exact init
  | succ n ih =>
    rw [List.range'_concat, List.foldl_append]
    have := step (a.toNat + 1 * n) _ (by omega) (by omega) (by simpa using ih (by omega))
    simpa [Nat.add_assoc] using this

/-- A loop whose body frees its frame frees the range. -/
lemma freed_forFrames : Freed (fun f => a.toNat ≤ f ∧ f < b.toNat) s (forFrames clearFrame a b s) := by
  have run := forFrames_invariant (a := a) (b := b) (s := s) clearFrame
    (fun i t => Freed (fun f => a.toNat ≤ f ∧ f < i) s t) ?_ ?_
  · exact run.congr fun f => by omega
  · intro i t lo hi h
    have lt := b.toNat_lt
    refine (h.trans freed_clearFrame).congr fun f => ?_
    rw [toNat_ofNat_lt (by omega)]
    omega
  · exact Freed.refl.congr fun f => iff_of_false (by omega) id

/-- A loop whose body puts its frame in use puts the range in use. -/
lemma taken_forFrames : Taken (fun f => a.toNat ≤ f ∧ f < b.toNat) s (forFrames useFrame a b s) := by
  have run := forFrames_invariant (a := a) (b := b) (s := s) useFrame
    (fun i t => Taken (fun f => a.toNat ≤ f ∧ f < i) s t) ?_ ?_
  · exact run.congr fun f => by omega
  · intro i t lo hi h
    have lt := b.toNat_lt
    refine (h.trans taken_useFrame).congr fun f => ?_
    rw [toNat_ofNat_lt (by omega)]
    omega
  · exact Taken.refl.congr fun f => iff_of_false (by omega) id

end RetaOS.Pmm
