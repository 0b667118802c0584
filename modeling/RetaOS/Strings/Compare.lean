import RetaOS.Lib.Loop
import Mathlib.Data.List.Basic
import Mathlib.Data.UInt

/-!
# Comparing strings

The comparisons of the repository: `strcmp` and `strncmp` of `kernel/string.c` and of `libc/src/string.c`, `memcmp` of
the latter, `memcmp_` of `acpi.c` and `kstrcmp` of `kernel/shell.c`. A string is what is read behind its pointer, and a
comparison is a search for the first place that decides it. The result is the order of the strings as words over the
unsigned characters (`compare_order`), of which `kstrcmp`, whose characters have a sign, finds the equality only. The
two `strncmp` count in different ways and agree wherever they read (`strncmp_agree`).
-/

namespace RetaOS.Strings
open Lib

/-- What is read behind a pointer. -/
abbrev Chars := Nat → UInt8

variable (s1 s2 : Chars)

/-- `*(unsigned char*)s1 - *(unsigned char*)s2`. -/
def diffAt (i : Nat) : Int := (s1 i).toNat - (s2 i).toNat

/-- One pass of `strcmp`, in the kernel and in the library. -/
def strcmpPass (i : Nat) : Pass Nat Int :=
  if s1 i ≠ 0 ∧ s1 i = s2 i then .next (i + 1) else .done (diffAt s1 s2 i)

/-- `strcmp`. -/
def strcmp : Option Int := loop (strcmpPass s1 s2) 0

/-- One pass of the kernel's `strncmp`. -/
def kernelStrncmpPass : Nat × UInt32 → Pass (Nat × UInt32) Int
  | (i, n) =>
    if n ≠ 0 ∧ s1 i ≠ 0 ∧ s1 i = s2 i then .next (i + 1, n - 1)
    else .done (if n = 0 then 0 else diffAt s1 s2 i)

/-- `strncmp` of the kernel. -/
def kernelStrncmp (n : UInt32) : Option Int := loop (kernelStrncmpPass s1 s2) (0, n)

/-- One pass of the library's `strncmp`, which counts before it compares. -/
def strncmpPass : Nat × UInt32 → Pass (Nat × UInt32) Int
  | (i, n) =>
    if n ≠ 0 ∧ s1 i ≠ 0 ∧ s1 i = s2 i then .next (i + 1, n - 1)
    else
      let n := n - 1
      .done (if n + 1 = 0 then 0 else diffAt s1 s2 i)

/-- `strncmp` of the library. -/
def strncmp (n : UInt32) : Option Int := loop (strncmpPass s1 s2) (0, n)

/-- One pass of `memcmp`. -/
def memcmpPass : Nat × UInt32 → Pass (Nat × UInt32) Int
  | (i, n) =>
    if n > 0 then
      if s1 i ≠ s2 i then .done (diffAt s1 s2 i) else .next (i + 1, n - 1)
    else .done 0

/-- `memcmp`. -/
def memcmp (n : UInt32) : Option Int := loop (memcmpPass s1 s2) (0, n)

/-- One pass of `memcmp_` of `acpi.c`. -/
def memcmp_Pass (n i : UInt32) : Pass UInt32 Int :=
  if i < n then
    if s1 i.toNat ≠ s2 i.toNat then .done (diffAt s1 s2 i.toNat) else .next (i + 1)
  else .done 0

/-- `memcmp_`. -/
def memcmp_ (n : UInt32) : Option Int := loop (memcmp_Pass s1 s2 n) 0

/-- One pass of `kstrcmp`, whose characters are signed. -/
def kstrcmpPass (i : Nat) : Pass Nat Int :=
  if s1 i ≠ 0 ∧ s2 i ≠ 0 ∧ s1 i = s2 i then .next (i + 1)
  else .done ((s1 i).toInt8.toInt - (s2 i).toInt8.toInt)

/-- `kstrcmp`. -/
def kstrcmp : Option Int := loop (kstrcmpPass s1 s2) 0

/-! ## The order of words. -/

/-- The difference of the first characters that differ, where a word that has ended goes on with `NUL`. -/
def difference : List UInt8 → List UInt8 → Int
  | [], [] => 0
  | [], d :: _ => -d.toNat
  | c :: _, [] => c.toNat
  | c :: a, d :: b => if c = d then difference a b else c.toNat - d.toNat

/-- The sign of a number is the order of two words. -/
structure Compares (r : Int) (a b : List UInt8) : Prop where
  less : r < 0 ↔ a < b
  same : r = 0 ↔ a = b
  more : 0 < r ↔ b < a

/-- A string, read from a place on. -/
inductive Reads (s : Chars) : Nat → List UInt8 → Prop
  | nil {i} : s i = 0 → Reads s i []
  | cons {i c a} :
    s i = c →
    c ≠ 0 →
    Reads s (i + 1) a →
    Reads s i (c :: a)

/-- What is read of a string within `n` characters. -/
def word (s : Chars) (i : Nat) : Nat → List UInt8
  | 0 => []
  | n + 1 => if s i = 0 then [] else s i :: word s (i + 1) n

/-- The `n` bytes from a place on. -/
def bytes (s : Chars) (i n : Nat) : List UInt8 := (List.range' i n).map s

variable {s1 s2} {a b : List UInt8} {i : Nat} {c d : UInt8} {n : UInt32} {r : Int}

lemma toNat_pos (ne : c ≠ 0) : 0 < c.toNat :=
  Nat.pos_of_ne_zero fun eq => ne (UInt8.toNat_inj.mp eq)

lemma signed_eq_iff : c.toInt8.toInt - d.toInt8.toInt = 0 ↔ c = d := by
  rw [Int.sub_eq_zero, Int8.toInt_inj]
  exact ⟨fun eq => congrArg Int8.toUInt8 eq, fun eq => congrArg UInt8.toInt8 eq⟩

/-- The difference of words without a `NUL`, or of words of one length, is their order. -/
lemma difference_compares (h : 0 ∉ a ∧ 0 ∉ b ∨ a.length = b.length) : Compares (difference a b) a b := by
  induction a generalizing b with
  | nil =>
    cases b with
    | nil => exact ⟨by simp [difference], by simp [difference], by simp [difference]⟩
    | cons d b =>
      obtain ⟨-, hb⟩ := h.resolve_right (Nat.succ_ne_zero b.length).symm
      have pos := toNat_pos (c := d) fun eq => hb (eq ▸ List.mem_cons_self)
      constructor <;> simp only [difference, List.nil_lt_cons, List.not_lt_nil, reduceCtorEq, iff_true, iff_false] <;>
        omega
  | cons c a ih =>
    cases b with
    | nil =>
      obtain ⟨ha, -⟩ := h.resolve_right (Nat.succ_ne_zero a.length)
      have pos := toNat_pos (c := c) fun eq => ha (eq ▸ List.mem_cons_self)
      constructor <;> simp only [difference, List.nil_lt_cons, List.not_lt_nil, reduceCtorEq, iff_true, iff_false] <;>
        omega
    | cons d b =>
      rw [difference]
      by_cases eq : c = d
      · subst eq
        have rest : 0 ∉ a ∧ 0 ∉ b ∨ a.length = b.length := h.imp (fun free =>
          ⟨fun mem => free.1 (List.mem_cons_of_mem c mem), fun mem => free.2 (List.mem_cons_of_mem c mem)⟩) Nat.succ.inj
        obtain ⟨less, same, more⟩ := ih rest
        rw [if_pos rfl]
        exact ⟨by simp [less], by simp [same], by simp [more]⟩
      · have ne : c.toNat ≠ d.toNat := fun h => eq (UInt8.toNat_inj.mp h)
        rw [if_neg eq]
        constructor <;> simp only [List.cons_lt_cons_iff, List.cons.injEq, eq, Ne.symm eq, false_and, or_false,
          iff_false, UInt8.lt_iff_toNat_lt] <;> omega

lemma Reads.free (h : Reads s1 i a) : 0 ∉ a := by
  induction h with
  | nil => exact List.not_mem_nil
  | cons _ ne _ ih => exact List.not_mem_cons_of_ne_of_not_mem ne.symm ih

lemma word_free (s : Chars) (i n : Nat) : 0 ∉ word s i n := by
  induction n generalizing i with
  | zero => exact List.not_mem_nil
  | succ n ih =>
    rw [word]
    split_ifs with nul
    · exact List.not_mem_nil
    · exact List.not_mem_cons_of_ne_of_not_mem (Ne.symm nul) (ih (i + 1))

/-! ## Each function. -/

/-- `strcmp` finds the difference of two strings. -/
lemma strcmp_loop (ha : Reads s1 i a) (hb : Reads s2 i b) :
    loop (strcmpPass s1 s2) i = some (difference a b) := by
  induction ha generalizing b with
  | nil nul =>
    rw [loop_done (by rw [strcmpPass, if_neg fun both => both.1 nul])]
    cases hb with
    | nil nul' => simp [diffAt, nul, nul', difference]
    | cons eq _ _ => simp [diffAt, nul, eq, difference]
  | @cons i c a eq ne _ ih =>
    cases hb with
    | nil nul' =>
      have stop : ¬ (s1 i ≠ 0 ∧ s1 i = s2 i) := fun both => both.1 (both.2.trans nul')
      rw [loop_done (by rw [strcmpPass, if_neg stop])]
      simp [diffAt, eq, nul', difference]
    | @cons _ d b eq' _ hb =>
      rw [difference]
      split_ifs with same
      · have go : s1 i ≠ 0 ∧ s1 i = s2 i := ⟨by rwa [eq], by rw [eq, eq', same]⟩
        rw [loop_next (by rw [strcmpPass, if_pos go]), ih hb]
      · have stop : ¬ (s1 i ≠ 0 ∧ s1 i = s2 i) := fun both => same (by rw [← eq, ← eq', both.2])
        rw [loop_done (by rw [strcmpPass, if_neg stop]), diffAt, eq, eq']

/-- `kstrcmp` finds out whether they are the same. -/
lemma kstrcmp_loop (ha : Reads s1 i a) (hb : Reads s2 i b) :
    ∃ k, loop (kstrcmpPass s1 s2) i = some k ∧ (k = 0 ↔ a = b) := by
  induction ha generalizing b with
  | nil nul =>
    refine ⟨_, loop_done (by rw [kstrcmpPass, if_neg fun both => both.1 nul]), ?_⟩
    cases hb with
    | nil nul' => simp [nul, nul']
    | cons eq ne _ =>
      refine iff_of_false ?_ (List.cons_ne_nil _ _).symm
      rw [nul, eq, signed_eq_iff]
      exact ne.symm
  | @cons i c a eq ne _ ih =>
    cases hb with
    | nil nul' =>
      refine ⟨_, loop_done (by rw [kstrcmpPass, if_neg fun both => both.2.1 nul']), ?_⟩
      refine iff_of_false ?_ (List.cons_ne_nil _ _)
      rwa [nul', eq, signed_eq_iff]
    | @cons _ d b eq' ne' hb =>
      by_cases same : c = d
      · obtain ⟨k, run, iff⟩ := ih hb
        have go : s1 i ≠ 0 ∧ s2 i ≠ 0 ∧ s1 i = s2 i := ⟨by rwa [eq], by rwa [eq'], by rw [eq, eq', same]⟩
        exact ⟨k, by rw [loop_next (by rw [kstrcmpPass, if_pos go]), run], by rw [iff, same, List.cons_inj_right]⟩
      · have stop : ¬ (s1 i ≠ 0 ∧ s2 i ≠ 0 ∧ s1 i = s2 i) := fun all => same (by rw [← eq, ← eq', all.2.2])
        refine ⟨_, loop_done (by rw [kstrcmpPass, if_neg stop]), ?_⟩
        simp [eq, eq', signed_eq_iff, same]

/-- The two `strncmp` count alike: one less and one more is the same number again. -/
lemma strncmpPass_eq : strncmpPass s1 s2 = kernelStrncmpPass s1 s2 := by
  funext st
  obtain ⟨i, n⟩ := st
  simp only [strncmpPass, kernelStrncmpPass, UInt32.sub_add_cancel]

/-- `strncmp` finds the difference of what it reads. -/
lemma strncmp_loop (s1 s2 : Chars) (i : Nat) (n : UInt32) :
    loop (kernelStrncmpPass s1 s2) (i, n) = some (difference (word s1 i n.toNat) (word s2 i n.toNat)) := by
  obtain ⟨m, k⟩ : ∃ m, n.toNat = m := ⟨_, rfl⟩
  rw [k]
  induction m generalizing i n with
  | zero =>
    have none : n = 0 := UInt32.toNat_inj.mp k
    rw [loop_done (by rw [kernelStrncmpPass, if_neg fun all => all.1 none]), if_pos none]
    rfl
  | succ m ih =>
    have some : n ≠ 0 := by
      rintro rfl
      cases k
    have pred : (n - 1).toNat = m := by
      rw [UInt32.toNat_sub_of_le _ _ (by rw [UInt32.le_iff_toNat_le, k]; exact Nat.succ_pos m), k]
      rfl
    rw [word, word]
    by_cases go : s1 i ≠ 0 ∧ s1 i = s2 i
    · have nz : s2 i ≠ 0 := by rw [← go.2]; exact go.1
      rw [loop_next (by rw [kernelStrncmpPass, if_pos ⟨some, go⟩]), ih _ _ pred, if_neg go.1, if_neg nz, difference,
        if_pos go.2]
    · rw [loop_done (by rw [kernelStrncmpPass, if_neg fun all => go all.2]), if_neg some, diffAt]
      by_cases nul : s1 i = 0
      · rw [if_pos nul, nul]
        split_ifs with nul'
        · rw [nul']
          rfl
        · simp [difference]
      · have other : s1 i ≠ s2 i := fun eq => go ⟨nul, eq⟩
        rw [if_neg nul]
        split_ifs with nul'
        · simp [difference, nul']
        · rw [difference, if_neg other]

/-- `memcmp` finds the difference of the bytes. -/
lemma memcmp_loop (s1 s2 : Chars) (i : Nat) (n : UInt32) :
    loop (memcmpPass s1 s2) (i, n) = some (difference (bytes s1 i n.toNat) (bytes s2 i n.toNat)) := by
  obtain ⟨m, k⟩ : ∃ m, n.toNat = m := ⟨_, rfl⟩
  rw [k]
  induction m generalizing i n with
  | zero =>
    have none : ¬ n > 0 := by
      rw [gt_iff_lt, UInt32.lt_iff_toNat_lt, k]
      exact Nat.lt_irrefl 0
    rw [loop_done (by rw [memcmpPass, if_neg none])]
    rfl
  | succ m ih =>
    have some : n > 0 := by
      rw [gt_iff_lt, UInt32.lt_iff_toNat_lt, k]
      exact Nat.succ_pos m
    have pred : (n - 1).toNat = m := by
      rw [UInt32.toNat_sub_of_le _ _ (by rw [UInt32.le_iff_toNat_le, k]; exact Nat.succ_pos m), k]
      rfl
    rw [bytes, bytes, List.range'_succ, List.map_cons, List.map_cons, difference]
    by_cases same : s1 i = s2 i
    · rw [loop_next (by rw [memcmpPass, if_pos some, if_neg (not_not.mpr same)]), ih _ _ pred, if_pos same]
      rfl
    · rw [loop_done (by rw [memcmpPass, if_pos some, if_pos same]), if_neg same, diffAt]

/-- So does `memcmp_`, which counts up. -/
lemma memcmp_upward (s1 s2 : Chars) (n i : UInt32) (le : i.toNat ≤ n.toNat) : loop (memcmp_Pass s1 s2 n) i =
    some (difference (bytes s1 i.toNat (n.toNat - i.toNat)) (bytes s2 i.toNat (n.toNat - i.toNat))) := by
  obtain ⟨m, k⟩ : ∃ m, n.toNat - i.toNat = m := ⟨_, rfl⟩
  rw [k]
  induction m generalizing i with
  | zero =>
    have none : ¬ i < n := by
      rw [UInt32.lt_iff_toNat_lt]
      omega
    rw [loop_done (by rw [memcmp_Pass, if_neg none])]
    rfl
  | succ m ih =>
    have top := n.toNat_lt
    have some : i < n := by
      rw [UInt32.lt_iff_toNat_lt]
      omega
    have succ : (i + 1).toNat = i.toNat + 1 := by
      rw [UInt32.toNat_add]
      exact Nat.mod_eq_of_lt (by simp; omega)
    rw [bytes, bytes, List.range'_succ, List.map_cons, List.map_cons, difference]
    by_cases same : s1 i.toNat = s2 i.toNat
    · rw [loop_next (by rw [memcmp_Pass, if_pos some, if_neg (not_not.mpr same)]), ih (i + 1) (by omega) (by omega),
        if_pos same, succ]
      rfl
    · rw [loop_done (by rw [memcmp_Pass, if_pos some, if_pos same]), if_neg same, diffAt]

/-! ## All of them. -/

/-- `strcmp` never returns exactly when the two strings are the same for ever. -/
lemma strcmp_none_iff : strcmp s1 s2 = none ↔ ∀ i, s1 i ≠ 0 ∧ s1 i = s2 i := by
  have unrolls : Unrolls (strcmpPass s1 s2) id fun i => s1 i ≠ 0 ∧ s1 i = s2 i := by
    refine ⟨fun i _ go => ?_, fun i _ stop => ⟨diffAt s1 s2 i, ?_⟩⟩
    · rw [id, strcmpPass, if_pos go]
      rfl
    · rw [id, strcmpPass, if_neg stop]
  rw [← not_iff_not, not_forall]
  exact unrolls.ends_iff

/-- The comparisons order strings, or their first characters, or bytes, as words over the unsigned characters; `strncmp`
    and `memcmp` return on all memory and `strcmp` on all but two strings that are the same for ever. -/
theorem compare_order (s1 s2 : Chars) :
    (∀ a b, Reads s1 0 a → Reads s2 0 b → ∃ r k, strcmp s1 s2 = some r ∧ Compares r a b ∧
      kstrcmp s1 s2 = some k ∧ (k = 0 ↔ a = b)) ∧
    (∀ n, ∃ r, kernelStrncmp s1 s2 n = some r ∧ strncmp s1 s2 n = some r ∧
      Compares r (word s1 0 n.toNat) (word s2 0 n.toNat)) ∧
    (∀ n, ∃ r, memcmp s1 s2 n = some r ∧ memcmp_ s1 s2 n = some r ∧
      Compares r (bytes s1 0 n.toNat) (bytes s2 0 n.toNat)) ∧
    (strcmp s1 s2 = none ↔ ∀ i, s1 i ≠ 0 ∧ s1 i = s2 i) := by
  refine ⟨fun a b ha hb => ?_, fun n => ?_, fun n => ?_, strcmp_none_iff⟩
  · obtain ⟨k, run, iff⟩ := kstrcmp_loop ha hb
    exact ⟨_, k, strcmp_loop ha hb, difference_compares (.inl ⟨ha.free, hb.free⟩), run, iff⟩
  · refine ⟨_, strncmp_loop s1 s2 0 n, ?_, difference_compares (.inl ⟨word_free _ _ _, word_free _ _ _⟩)⟩
    rw [strncmp, strncmpPass_eq, strncmp_loop]
  · refine ⟨_, memcmp_loop s1 s2 0 n, memcmp_upward s1 s2 n 0 (Nat.zero_le _), difference_compares (.inr ?_)⟩
    rw [bytes, bytes, List.length_map, List.length_map]

/-- `ab` is in front of `b`, `strncmp` sees no difference within no characters, and `strcmp` is lost in equal ones. -/
theorem compare_order_words :
    (∃ r k, strcmp (fun i => [97, 98].getD i 0) (fun i => [98].getD i 0) = some r ∧ r < 0 ∧
      kstrcmp (fun i => [97, 98].getD i 0) (fun i => [98].getD i 0) = some k ∧ k ≠ 0) ∧
    strncmp (fun _ => 1) (fun _ => 2) 0 = some 0 ∧ strcmp (fun _ => 1) (fun _ => 1) = none := by
  obtain ⟨words, -⟩ := compare_order (fun i => [97, 98].getD i 0) fun i => [98].getD i 0
  obtain ⟨r, k, run, order, run', same⟩ := words [97, 98] [98]
    (.cons rfl (by decide) (.cons rfl (by decide) (.nil rfl))) (.cons rfl (by decide) (.nil rfl))
  obtain ⟨-, short, -⟩ := compare_order (fun _ => 1) fun _ => 2
  obtain ⟨z, -, run'', equal⟩ := short 0
  obtain ⟨-, -, -, lost⟩ := compare_order (fun _ => 1) fun _ => 1
  refine ⟨⟨r, k, run, order.less.mpr (by decide), run', ?_⟩, ?_, lost.mpr ?_⟩
  · exact fun eq => absurd (same.mp eq) (by decide)
  · rw [run'', equal.same.mpr rfl]
  · exact fun _ => ⟨by decide, rfl⟩

end RetaOS.Strings
