import RetaOS.Lib.Memory
import Mathlib.Data.List.DropRight

/-!
# Strings of C

A C string as the list of the bytes before its terminating `NUL`. `cstr` reads one from memory, `rsplit`
cuts a list at its last separator, as `strrchr` finds it, and `tokens` are the maximal runs of elements that
are no separators, which `strtok` hands out one at a time: `List.splitOnP` without its empty parts. All facts
about tokens follow from `tokens_append_cons` and `tokens_takeWhile`.
-/

namespace Lib

section Tokens

variable {α : Type*} {sep : α → Bool} {a b l : List α} {x : α}

/-- The maximal runs of elements that are no separators. -/
def tokens (sep : α → Bool) (l : List α) : List (List α) :=
  (l.splitOnP sep).filter fun t => !t.isEmpty

@[simp] lemma tokens_nil : tokens sep [] = [] := by
  simp [tokens, List.splitOnP_nil]

/-- A separator ends a token. -/
lemma tokens_append_cons (a b : List α) (h : sep x = true) :
    tokens sep (a ++ x :: b) = tokens sep a ++ tokens sep b := by
  rw [tokens, List.splitOnP_append_cons a b h, List.filter_append]
  rfl

/-- A separator in front of a list is in no token. -/
lemma tokens_cons (h : sep x = true) : tokens sep (x :: b) = tokens sep b := by
  have cut := tokens_append_cons [] b h
  simpa using cut

/-- A list without separators is one token. -/
lemma tokens_of_free (h : ∀ y ∈ a, sep y = false) (ne : a ≠ []) : tokens sep a = [a] := by
  rw [tokens, List.splitOnP_eq_singleton h]
  simp [ne]

/-- Separators in front of a list do not change its tokens. -/
lemma tokens_dropWhile : tokens sep (l.dropWhile sep) = tokens sep l := by
  induction l with
  | nil => rfl
  | cons x l ih =>
    cases h : sep x with
    | true => rw [List.dropWhile_cons_of_pos h, ih, tokens_cons h]
    | false => rw [List.dropWhile_cons_of_neg (by simp [h])]

/-- Separators at the end of a list do not change its tokens. -/
lemma tokens_rdropWhile : tokens sep (l.rdropWhile sep) = tokens sep l := by
  induction l using List.reverseRecOn with
  | nil => simp
  | append_singleton l x ih =>
    cases h : sep x with
    | true => rw [List.rdropWhile_concat_pos _ _ _ h, ih, tokens_append_cons _ _ h, tokens_nil, List.append_nil]
    | false => rw [List.rdropWhile_concat_neg _ _ _ (by simp [h])]

/-- The separator after a token can be dropped. -/
lemma tokens_drop_one : tokens sep ((l.dropWhile (!sep ·)).drop 1) = tokens sep (l.dropWhile (!sep ·)) := by
  have stop := List.head?_dropWhile_not (!sep ·) l
  cases e : l.dropWhile (!sep ·) with
  | nil => rfl
  | cons y r =>
    have hy : sep y = true := by simpa [e] using stop
    rw [tokens_cons hy, List.drop_one, List.tail_cons]

/-- The first token of a list that does not start with a separator, and the tokens after it. -/
lemma tokens_takeWhile (h : sep x = false) :
    tokens sep (x :: l) = (x :: l).takeWhile (!sep ·) :: tokens sep ((x :: l).dropWhile (!sep ·)) := by
  have free : ∀ y ∈ (x :: l).takeWhile (!sep ·), sep y = false := by
    intro y hy
    simpa using List.mem_takeWhile_imp hy
  have ne : (x :: l).takeWhile (!sep ·) ≠ [] := by
    rw [List.takeWhile_cons_of_pos (by simp [h])]
    exact List.cons_ne_nil _ _
  have cut := List.takeWhile_append_dropWhile (p := (!sep ·)) (l := x :: l)
  have stop := List.head?_dropWhile_not (!sep ·) (x :: l)
  generalize (x :: l).takeWhile (!sep ·) = t at free ne cut ⊢
  generalize (x :: l).dropWhile (!sep ·) = r at cut stop ⊢
  cases r with
  | nil =>
    rw [← cut, List.append_nil, tokens_of_free free ne]
    rfl
  | cons y r =>
    have hy : sep y = true := by simpa using stop
    rw [← cut, tokens_append_cons _ _ hy, tokens_of_free free ne, tokens_cons hy]
    rfl

/-- A token is a part of the list that is not empty and has no separator. -/
lemma mem_tokens {t : List α} (h : t ∈ tokens sep l) :
    t ≠ [] ∧ (∀ y ∈ t, y ∈ l ∧ sep y = false) ∧ t.length ≤ l.length := by
  induction hn : l.length using Nat.strong_induction_on generalizing l with
  | _ n ih =>
    subst hn
    cases l with
    | nil => simp at h
    | cons x l =>
      cases hx : sep x with
      | true =>
        rw [tokens_cons hx] at h
        obtain ⟨ne, part, len⟩ := ih l.length (by simp) h rfl
        refine ⟨ne, ?_, by simp; omega⟩
        intro y hy
        exact ⟨List.mem_cons_of_mem x (part y hy).1, (part y hy).2⟩
      | false =>
        rw [tokens_takeWhile hx] at h
        cases h with
        | head =>
          have sub := List.takeWhile_sublist (!sep ·) (l := x :: l)
          refine ⟨?_, ?_, sub.length_le⟩
          · rw [List.takeWhile_cons_of_pos (by simp [hx])]
            exact List.cons_ne_nil _ _
          · intro y hy
            exact ⟨sub.subset hy, by simpa using List.mem_takeWhile_imp hy⟩
        | tail _ h =>
          rw [List.dropWhile_cons_of_pos (by simp [hx])] at h
          have sub := List.dropWhile_sublist (!sep ·) (l := l)
          obtain ⟨ne, part, len⟩ := ih _ (by simpa using Nat.lt_succ_of_le sub.length_le) h rfl
          refine ⟨ne, ?_, len.trans (sub.length_le.trans (by simp))⟩
          intro y hy
          exact ⟨List.mem_cons_of_mem x (sub.subset (part y hy).1), (part y hy).2⟩

/-- The tokens together are no longer than the list. -/
lemma tokens_flatten_length : (tokens sep l).flatten.length ≤ l.length := by
  induction hn : l.length using Nat.strong_induction_on generalizing l with
  | _ n ih =>
    subst hn
    cases l with
    | nil => simp
    | cons x l =>
      cases hx : sep x with
      | true =>
        rw [tokens_cons hx]
        exact (ih l.length (Nat.lt_succ_self _) rfl).trans (Nat.le_succ _)
      | false =>
        have whole := congrArg List.length (List.takeWhile_append_dropWhile (p := (!sep ·)) (l := x :: l))
        have first : 0 < ((x :: l).takeWhile (!sep ·)).length := by
          rw [List.takeWhile_cons_of_pos (by rw [hx]; rfl)]
          exact Nat.succ_pos _
        rw [List.length_append] at whole
        rw [tokens_takeWhile hx, List.flatten_cons, List.length_append]
        have rest := ih ((x :: l).dropWhile (!sep ·)).length (by omega) rfl
        omega

/-- A token in front of a list goes on up to the first separator. -/
lemma tokens_free_append (free : ∀ y ∈ a, sep y = false) (ne : a ≠ []) :
    tokens sep (a ++ b) = (a ++ b.takeWhile (!sep ·)) :: tokens sep (b.dropWhile (!sep ·)) := by
  have all : ∀ y ∈ a, (!sep y) = true := fun y mem => by rw [free y mem, Bool.not_false]
  have cut : (a ++ b).takeWhile (!sep ·) = a ++ b.takeWhile (!sep ·) := List.takeWhile_append_of_pos all
  have drop : (a ++ b).dropWhile (!sep ·) = b.dropWhile (!sep ·) := List.dropWhile_append_of_pos all
  cases a with
  | nil => exact absurd rfl ne
  | cons x a =>
    rw [List.cons_append] at cut drop ⊢
    rw [tokens_takeWhile (free x List.mem_cons_self), cut, drop]

/-- The tokens of a list that is cut in two: those of the parts, unless the cut goes through a token. -/
lemma tokens_append (a b : List α) : tokens sep (a ++ b) = tokens sep a ++ tokens sep b ∨
    ∃ ts u v us, u ≠ [] ∧ v ≠ [] ∧ tokens sep a = ts ++ [u] ∧ tokens sep (a ++ b) = ts ++ (u ++ v) :: us := by
  induction hn : a.length using Nat.strong_induction_on generalizing a with
  | _ n ih =>
    by_cases free : ∀ y ∈ a, sep y = false
    · by_cases ne : a = []
      · subst ne
        exact .inl (by simp)
      · rw [tokens_free_append free ne, tokens_of_free free ne]
        have cut := List.takeWhile_append_dropWhile (p := (!sep ·)) (l := b)
        by_cases go : b.takeWhile (!sep ·) = []
        · rw [go, List.nil_append] at cut
          rw [go, cut, List.append_nil]
          exact .inl rfl
        · exact .inr ⟨[], a, _, _, ne, go, rfl, rfl⟩
    · push Not at free
      obtain ⟨y, mem, hy⟩ := free
      obtain ⟨a₁, a₂, rfl⟩ := List.append_of_mem mem
      have hy : sep y = true := by simpa using hy
      rw [List.append_assoc, List.cons_append, tokens_append_cons _ _ hy, tokens_append_cons _ _ hy]
      subst hn
      rcases ih a₂.length (by simp; omega) a₂ rfl with whole | ⟨ts, u, v, us, hu, hv, left, right⟩
      · exact .inl (by rw [whole, List.append_assoc])
      · refine .inr ⟨tokens sep a₁ ++ ts, u, v, us, hu, hv, ?_, ?_⟩
        · rw [left, List.append_assoc]
        · rw [right, List.append_assoc]

/-- Cut a list at its last separator. -/
def rsplit (sep : α → Bool) : List α → Option (List α × List α)
  | [] => none
  | x :: l =>
    match rsplit sep l with
    | some (a, b) => some (x :: a, b)
    | none => if sep x then some ([], l) else none

/-- A list that is not cut has no separator. -/
lemma rsplit_none (h : rsplit sep l = none) : ∀ y ∈ l, sep y = false := by
  induction l with
  | nil => simp
  | cons x l ih =>
    rw [rsplit] at h
    cases e : rsplit sep l with
    | some ab => simp [e] at h
    | none =>
      simp only [e, ite_eq_right_iff, reduceCtorEq, imp_false, Bool.not_eq_true] at h
      intro y hy
      cases hy with
      | head => exact h
      | tail _ hy => exact ih e y hy

/-- The parts of a cut: the second has no separator. -/
lemma rsplit_some (h : rsplit sep l = some (a, b)) :
    (∃ x, sep x = true ∧ l = a ++ x :: b) ∧ ∀ y ∈ b, sep y = false := by
  induction l generalizing a with
  | nil => cases h
  | cons z l ih =>
    rw [rsplit] at h
    cases e : rsplit sep l with
    | some ab =>
      obtain ⟨a', b'⟩ := ab
      simp only [e, Option.some.injEq, Prod.mk.injEq] at h
      obtain ⟨rfl, rfl⟩ := h
      obtain ⟨⟨x, hx, rfl⟩, free⟩ := ih e
      exact ⟨⟨x, hx, rfl⟩, free⟩
    | none =>
      simp only [e] at h
      split_ifs at h with hz
      cases h
      exact ⟨⟨z, hz, rfl⟩, rsplit_none e⟩

end Tokens

namespace Memory

/-- The bytes from `a` on before the first `NUL`, at most `n` of them. -/
def cstrUpTo (m : Memory) : Nat → UInt32 → List UInt8
  | 0, _ => []
  | n + 1, a => if m a = 0 then [] else m a :: cstrUpTo m n (a + 1)

/-- The C string at `a`; it has at most the bytes of the address space. -/
def cstr (m : Memory) (a : UInt32) : List UInt8 := m.cstrUpTo UInt32.size a

variable {m : Memory} {a : UInt32} {n : Nat} {s : List UInt8}

/-- The next address of a block, counted from its second byte. -/
lemma add_ofNat_succ : a + UInt32.ofNat (n + 1) = a + 1 + UInt32.ofNat n := by
  rw [UInt32.ofNat_add, UInt32.add_comm (UInt32.ofNat n), UInt32.add_assoc]
  rfl

/-- The first byte of a block and the block after it. -/
lemma loadBytes_succ : m.loadBytes a (n + 1) = m a :: m.loadBytes (a + 1) n := by
  rw [loadBytes, List.range_succ_eq_map, List.map_cons, List.map_map, loadBytes]
  congr 1
  · exact congrArg m (UInt32.add_zero a)
  · apply List.map_congr_left
    intro i _
    exact congrArg m add_ofNat_succ

/-- A block of bytes other than `NUL` with a `NUL` after it is read as a C string. -/
lemma cstr_eq (load : m.loadBytes a s.length = s) (nz : ∀ b ∈ s, b ≠ 0)
    (nul : m (a + UInt32.ofNat s.length) = 0) (lt : s.length < UInt32.size) : m.cstr a = s := by
  unfold cstr
  generalize UInt32.size = n at lt
  induction s generalizing a n with
  | nil =>
    have nul : m a = 0 := by simpa using nul
    cases n with
    | zero => rfl
    | succ n => rw [cstrUpTo, if_pos nul]
  | cons b s ih =>
    rw [List.length_cons, loadBytes_succ, List.cons.injEq] at load
    obtain ⟨hb, load⟩ := load
    cases n with
    | zero => simp at lt
    | succ n =>
      have ne : m a ≠ 0 := by
        rw [hb]
        exact nz b List.mem_cons_self
      rw [cstrUpTo, if_neg ne, hb, ih load]
      · intro c hc
        exact nz c (List.mem_cons_of_mem b hc)
      · rw [← add_ofNat_succ]
        exact nul
      · simpa using lt

/-! ## Strings in memory. -/

/-- A string of C, an object that begins at `a`: it does not begin at `NULL`, and lies in the address space with its
    `NUL`. -/
structure Text (m : Memory) (a : UInt32) (s : List UInt8) : Prop where
  ne : a ≠ 0
  fits : a.toNat + s.length < 2 ^ 32
  bytes : ∀ i (lt : i < s.length), m (a + UInt32.ofNat i) = s[i]
  nz : ∀ b ∈ s, b ≠ 0
  nul : m (a + UInt32.ofNat s.length) = 0

namespace Text

variable {m' : Memory} {t : List UInt8} {x : UInt8}

lemma load (h : Text m a s) : m.loadBytes a s.length = s := by
  apply List.ext_getElem
  · rw [loadBytes_length]
  · intro i lt lt'
    rw [← Option.some_inj, ← List.getElem?_eq_getElem lt, loadBytes_getElem lt', h.bytes i lt']

/-- A string is read as the C string that it is. -/
lemma cstr (h : Text m a s) : m.cstr a = s :=
  cstr_eq h.load h.nz h.nul (Nat.lt_of_le_of_lt (Nat.le_add_left _ _) h.fits)

/-- Only an empty string begins with its `NUL`. -/
lemma head_iff (h : Text m a s) : m a = 0 ↔ s = [] := by
  have base : a + UInt32.ofNat 0 = a := UInt32.add_zero a
  cases s with
  | nil =>
    have nul := h.nul
    rw [List.length_nil, base] at nul
    exact ⟨fun _ => rfl, fun _ => nul⟩
  | cons x s =>
    have byte := h.bytes 0 (Nat.succ_pos _)
    rw [base] at byte
    have nz : m a ≠ 0 := by
      rw [byte]
      exact h.nz _ (List.getElem_mem _)
    exact ⟨fun nul => absurd nul nz, fun none => absurd none (List.cons_ne_nil _ _)⟩

/-- The address of a character, or of the `NUL`. -/
lemma toNat_add (h : Text m a s) (le : n ≤ s.length) : (a + UInt32.ofNat n).toNat = a.toNat + n :=
  toNat_add_ofNat (by have := h.fits; omega)

/-- The rest of a string from a character on. -/
lemma drop (h : Text m a s) (le : n ≤ s.length) : Text m (a + UInt32.ofNat n) (s.drop n) := by
  have shift (i : Nat) : a + UInt32.ofNat n + UInt32.ofNat i = a + UInt32.ofNat (n + i) := by
    rw [UInt32.ofNat_add, UInt32.add_assoc]
  have base : a.toNat ≠ 0 := fun zero => h.ne (UInt32.toNat_inj.mp zero)
  refine ⟨fun zero => ?_, ?_, fun i lt => ?_, fun b mem => h.nz b (List.mem_of_mem_drop mem), ?_⟩
  · have eq := h.toNat_add le
    rw [zero] at eq
    change 0 = _ at eq
    omega
  · have fits := h.fits
    rw [h.toNat_add le, List.length_drop]
    omega
  · rw [List.length_drop] at lt
    rw [shift, List.getElem_drop, h.bytes (n + i) (by omega)]
  · rw [shift, List.length_drop, Nat.add_sub_cancel' le]
    exact h.nul

/-- The rest of a string behind the characters at the front that pass a test. -/
lemma dropWhile (h : Text m a s) (p : UInt8 → Bool) :
    Text m (a + UInt32.ofNat (s.takeWhile p).length) (s.dropWhile p) := by
  have whole := List.takeWhile_append_dropWhile (p := p) (l := s)
  have rest : s.drop (s.takeWhile p).length = s.dropWhile p :=
    (congrArg (List.drop (s.takeWhile p).length) whole).symm.trans List.drop_left
  have text := h.drop (List.takeWhile_sublist (l := s) p).length_le
  rwa [rest] at text

/-- A string is the same in a memory with the same bytes in its place. -/
lemma congr (h : Text m a s) (same : ∀ x : UInt32, a.toNat ≤ x.toNat → x.toNat ≤ a.toNat + s.length → m' x = m x) :
    Text m' a s := by
  have keep (i : Nat) (le : i ≤ s.length) : m' (a + UInt32.ofNat i) = m (a + UInt32.ofNat i) := by
    have eq := h.toNat_add le
    exact same _ (by omega) (by omega)
  refine ⟨h.ne, h.fits, fun i lt => ?_, h.nz, ?_⟩
  · rw [keep i (Nat.le_of_lt lt), h.bytes i lt]
  · rw [keep _ (Nat.le_refl _), h.nul]

/-- A walk over the characters at the front that pass a test: it goes on at each of them, and stops behind them, at the
    `NUL` or at a character that does not pass. -/
lemma walk (h : Text m a s) (p : UInt8 → Bool) :
    (∀ i < (s.takeWhile p).length, m (a + UInt32.ofNat i) ≠ 0 ∧ p (m (a + UInt32.ofNat i)) = true) ∧
      (s.dropWhile p = [] ∧ m (a + UInt32.ofNat (s.takeWhile p).length) = 0 ∨
        ∃ c r, s.dropWhile p = c :: r ∧ m (a + UInt32.ofNat (s.takeWhile p).length) = c ∧ c ≠ 0 ∧ p c = false) := by
  have whole := List.takeWhile_append_dropWhile (p := p) (l := s)
  have passes := fun b (mem : b ∈ s.takeWhile p) => List.mem_takeWhile_imp mem
  have stop := List.head?_dropWhile_not p s
  generalize s.takeWhile p = u at whole passes ⊢
  generalize s.dropWhile p = r at whole stop ⊢
  subst whole
  constructor
  · intro i lt
    have byte := h.bytes i (by rw [List.length_append]; omega)
    rw [List.getElem_append_left lt] at byte
    rw [byte]
    exact ⟨h.nz _ (List.mem_append_left _ (List.getElem_mem lt)), passes _ (List.getElem_mem lt)⟩
  · cases r with
    | nil =>
      have nul := h.nul
      rw [List.append_nil] at nul
      exact .inl ⟨rfl, nul⟩
    | cons c r =>
      have byte := h.bytes u.length (by rw [List.length_append, List.length_cons]; omega)
      rw [List.getElem_append_right (Nat.le_refl _)] at byte
      simp only [Nat.sub_self, List.getElem_cons_zero] at byte
      refine .inr ⟨c, r, rfl, byte, h.nz c (List.mem_append_right _ List.mem_cons_self), ?_⟩
      simpa using stop

/-- A `NUL` in place of a character cuts a string in two. -/
lemma cut (h : Text m a (s ++ x :: t)) :
    Text (m.store8 (a + UInt32.ofNat s.length) 0) a s ∧
      Text (m.store8 (a + UInt32.ofNat s.length) 0) (a + UInt32.ofNat (s.length + 1)) t := by
  have length : (s ++ x :: t).length = s.length + 1 + t.length := by
    rw [List.length_append, List.length_cons]
    omega
  have place := h.toNat_add (n := s.length) (by omega)
  have away {y : UInt32} (ne : y.toNat ≠ a.toNat + s.length) : m.store8 (a + UInt32.ofNat s.length) 0 y = m y :=
    store8_ne fun eq => ne (by rw [eq, place])
  constructor
  · refine ⟨h.ne, by have := h.fits; omega, fun i lt => ?_, fun b mem => h.nz b (List.mem_append_left _ mem), ?_⟩
    · rw [away, h.bytes i (by omega), List.getElem_append_left lt]
      rw [h.toNat_add (by omega)]
      omega
    · rw [store8_self]
  · have rest := h.drop (n := s.length + 1) (by omega)
    have behind := h.toNat_add (n := s.length + 1) (by omega)
    rw [List.append_cons, List.drop_left' (by rw [List.length_append, List.length_singleton])] at rest
    exact rest.congr fun y low _ => away (by omega)

end Text

end Memory

end Lib
