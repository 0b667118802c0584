import RetaOS.Shell.Defs

/-!
# Lines and arguments

What the functions of the C library make of the input of the shell: `fgets` takes the next line (`cutLine`), the
comparisons compare its string, and the loop over `strtok` gives the first 15 words of it, which stay in the buffer
while the shell uses them.
-/

namespace RetaOS.Shell
open Lib
open Stdio (ascii Str Arg vprintf vsnprintfLoop)
open Strings (Chars Cursor Reads strtok strcmp strncmp)

variable {m m' : Memory} {a p save : UInt32} {s t w : List UInt8} {i n : Nat}

/-! ## Reading. -/

lemma add_ofNat_succ (a : UInt32) (i : Nat) : a + UInt32.ofNat i + 1 = a + UInt32.ofNat (i + 1) := by
  rw [UInt32.ofNat_add, UInt32.add_assoc]
  rfl

/-- A string in memory is what is read behind its pointer. -/
lemma reads_behind (text : m.Text p s) : Reads (behind m p) 0 s := by
  have from_ (l : List UInt8) (i : Nat) (whole : s.drop i = l) (le : i ≤ s.length) : Reads (behind m p) i l := by
    induction l generalizing i with
    | nil =>
      have last : i = s.length := by
        have none := List.drop_eq_nil_iff.mp whole
        omega
      subst last
      exact .nil text.nul
    | cons c l ih =>
      have lt : i < s.length := by
        have length := congrArg List.length whole
        rw [List.length_drop, List.length_cons] at length
        omega
      rw [List.drop_eq_getElem_cons lt] at whole
      obtain ⟨byte, rest⟩ := List.cons.inj whole
      refine .cons ((text.bytes i lt).trans byte) ?_ (ih (i + 1) rest lt)
      rw [← byte]
      exact text.nz _ (List.getElem_mem lt)
  exact from_ s 0 rfl (Nat.zero_le _)

/-- So is a string constant. -/
lemma reads_literal (nz : 0 ∉ s) : Reads (literal s) 0 s := by
  have from_ (l : List UInt8) (i : Nat) (whole : s.drop i = l) (le : i ≤ s.length) : Reads (literal s) i l := by
    induction l generalizing i with
    | nil =>
      have none := List.drop_eq_nil_iff.mp whole
      exact .nil (List.getD_eq_default _ _ none)
    | cons c l ih =>
      have lt : i < s.length := by
        have length := congrArg List.length whole
        rw [List.length_drop, List.length_cons] at length
        omega
      rw [List.drop_eq_getElem_cons lt] at whole
      obtain ⟨byte, rest⟩ := List.cons.inj whole
      refine .cons ((List.getD_eq_getElem _ _ lt).trans byte) (fun zero => nz ?_) (ih (i + 1) rest lt)
      rw [← zero, ← byte]
      exact List.getElem_mem lt
  exact from_ s 0 rfl (Nat.zero_le _)

/-- The first characters of a string. -/
lemma word_eq_take {c : Chars} (reads : Reads c i s) (n : Nat) : Strings.word c i n = s.take n := by
  induction reads generalizing n with
  | nil nul =>
    rw [List.take_nil]
    cases n with
    | zero => rfl
    | succ n => rw [Strings.word, if_pos nul]
  | cons eq ne _ ih =>
    cases n with
    | zero => rfl
    | succ n => rw [Strings.word, eq, if_neg ne, ih, List.take_succ_cons]

/-- `strcmp` with a string constant is 0 exactly for the same string. -/
lemma strcmp_literal (text : m.Text p s) (nz : 0 ∉ t) :
    ∃ r, strcmp (behind m p) (literal t) = some r ∧ (r = 0 ↔ s = t) := by
  have free : 0 ∉ s := fun mem => text.nz 0 mem rfl
  exact ⟨_, Strings.strcmp_loop (reads_behind text) (reads_literal nz),
    (Strings.difference_compares (.inl ⟨free, nz⟩)).same⟩

/-- `strncmp` with a string constant of the given length is 0 exactly for the strings that it begins. -/
lemma strncmp_literal {n : UInt32} (text : m.Text p s) (nz : 0 ∉ t) (length : t.length = n.toNat) :
    ∃ r, strncmp (behind m p) (literal t) n = some r ∧ (r = 0 ↔ t <+: s) := by
  have free : 0 ∉ s.take n.toNat := fun mem => text.nz 0 (List.mem_of_mem_take mem) rfl
  have whole : t.take n.toNat = t := List.take_of_length_le length.le
  refine ⟨_, by rw [strncmp, Strings.strncmpPass_eq, Strings.strncmp_loop], ?_⟩
  rw [word_eq_take (reads_behind text), word_eq_take (reads_literal nz), whole,
    (Strings.difference_compares (.inl ⟨free, nz⟩)).same, List.prefix_iff_eq_take, length]
  exact eq_comm

/-! ## `fgets`. -/

/-- The next line with its end, of at most `n` characters, and the input behind it. -/
def cutLine : Nat → List UInt8 → List UInt8 × List UInt8
  | 0, stdin => ([], stdin)
  | _, [] => ([], [])
  | n + 1, c :: stdin => if c = 10 then ([c], stdin) else (c :: (cutLine n stdin).1, (cutLine n stdin).2)

lemma cutLine_append (n : Nat) (stdin : List UInt8) : (cutLine n stdin).1 ++ (cutLine n stdin).2 = stdin := by
  induction n generalizing stdin with
  | zero => rfl
  | succ n ih =>
    cases stdin with
    | nil => rfl
    | cons c stdin =>
      rw [cutLine]
      split_ifs
      · rfl
      · exact congrArg (c :: ·) (ih stdin)

lemma cutLine_length (n : Nat) (stdin : List UInt8) : (cutLine n stdin).1.length ≤ n := by
  induction n generalizing stdin with
  | zero => exact Nat.le_refl 0
  | succ n ih =>
    cases stdin with
    | nil => exact Nat.zero_le _
    | cons c stdin =>
      rw [cutLine]
      split_ifs
      · exact Nat.succ_le_succ (Nat.zero_le n)
      · exact Nat.succ_le_succ (ih stdin)

lemma cutLine_eq_nil {stdin : List UInt8} : (cutLine (n + 1) stdin).1 = [] ↔ stdin = [] := by
  cases stdin with
  | nil => exact ⟨fun _ => rfl, fun _ => rfl⟩
  | cons c stdin =>
    rw [cutLine]
    split_ifs <;> simp

/-- The loop of `fgets`, behind the characters `l`. -/
lemma fgets_loop {size : Nat} (l stdin : List UInt8) (room : l.length + n + 1 = size) (small : size ≤ 2 ^ 32) :
    loop (fgetsPass a size) (l.length, m.storeBytes a l, stdin) = some ((l ++ (cutLine n stdin).1).length,
      m.storeBytes a (l ++ (cutLine n stdin).1), (cutLine n stdin).2) := by
  induction n generalizing l stdin with
  | zero =>
    have full : ¬ l.length < size - 1 := by omega
    rw [loop_done (by rw [fgetsPass, if_neg full]), cutLine, List.append_nil]
  | succ n ih =>
    have free : l.length < size - 1 := by omega
    cases stdin with
    | nil =>
      have none : cutLine (n + 1) [] = ([], []) := rfl
      rw [loop_done (by rw [fgetsPass, if_pos free]; exact if_pos rfl), none, List.append_nil]
      rfl
    | cons c stdin =>
      have some : ¬ ((c.toNat : Int) = -1) := by omega
      have back : (c.toNat : Int).toNat.toUInt8 = c := by
        rw [Int.toNat_natCast]
        exact UInt8.ofNat_toNat
      have stored : (m.storeBytes a l).store8 (a + UInt32.ofNat l.length) c = m.storeBytes a (l ++ [c]) :=
        Memory.storeBytes_append (by rw [List.length_singleton]; omega)
      have newline : (c.toNat : Int) = 10 ↔ c = 10 := by
        rw [← UInt8.toNat_inj]
        exact Int.natCast_inj (n := 10)
      have length : (l ++ [c]).length = l.length + 1 := by rw [List.length_append, List.length_singleton]
      have pass : fgetsPass a size (l.length, m.storeBytes a l, c :: stdin) =
          if c = 10 then .done ((l ++ [c]).length, m.storeBytes a (l ++ [c]), stdin)
          else .next ((l ++ [c]).length, m.storeBytes a (l ++ [c]), stdin) := by
        rw [fgetsPass, if_pos free]
        simp only [getchar, if_neg some, back, stored, newline, length]
      by_cases last : c = 10
      · rw [loop_done (by rw [pass, if_pos last]), cutLine, if_pos last]
      · rw [loop_next (by rw [pass, if_neg last]), ih (l ++ [c]) stdin (by omega), cutLine, if_neg last,
          List.append_assoc]
        rfl

/-- `fgets` puts the next line in the buffer, with a `NUL` behind it; at the end of the input it returns `NULL`. -/
lemma fgets_eq {size : Nat} (ne : a ≠ 0) (large : 1 < size) (small : size ≤ 2 ^ 32) (m : Memory) (stdin : List UInt8) :
    fgets a size m stdin = some (if (cutLine (size - 1) stdin).1 = [] then 0 else a,
      m.storeBytes a ((cutLine (size - 1) stdin).1 ++ [0]), (cutLine (size - 1) stdin).2) := by
  have run := fgets_loop (m := m) (a := a) (n := size - 1) [] stdin
    (by rw [List.length_nil]; omega) small
  have empty : m.storeBytes a [] = m := by
    funext x
    exact Memory.storeBytes_outside (Nat.zero_le _)
  have length := cutLine_length (size - 1) stdin
  rw [empty, List.nil_append] at run
  rw [fgets, if_neg (by rw [not_or]; exact ⟨ne, by omega⟩)]
  rw [show ([] : List UInt8).length = 0 from rfl] at run
  rw [run, Option.map_some]
  simp only [List.length_eq_zero_iff]
  rw [Memory.store8, Memory.storeBytes_append (by rw [List.length_singleton]; omega)]

/-- The string of a line: what is in front of the first `NUL`. -/
def lineString (l : List UInt8) : List UInt8 := l.takeWhile (· ≠ 0)

/-- The buffer holds the string of the line. -/
lemma text_line {l : List UInt8} (ne : a ≠ 0) (fits : a.toNat + l.length < 2 ^ 32) (m : Memory) :
    (m.storeBytes a (l ++ [0])).Text a (lineString l) := by
  have le : (lineString l).length ≤ l.length := (List.takeWhile_sublist _).length_le
  have whole := List.takeWhile_append_dropWhile (p := (· ≠ (0 : UInt8))) (l := l)
  have length : (l ++ [0]).length = l.length + 1 := by rw [List.length_append, List.length_singleton]
  have stored (i : Nat) (lt : i < (l ++ [0]).length) : m.storeBytes a (l ++ [0]) (a + UInt32.ofNat i) = (l ++ [0])[i] :=
    Memory.storeBytes_inside lt (by omega)
  refine ⟨ne, by omega, fun i lt => ?_, fun b mem => ?_, ?_⟩
  · rw [stored i (by omega), List.getElem_append_left (by omega)]
    exact (List.IsPrefix.getElem (List.takeWhile_prefix _) lt).symm
  · simpa using List.mem_takeWhile_imp mem
  · have stop := List.head?_dropWhile_not (· ≠ (0 : UInt8)) l
    have mark : (l ++ [0])[(lineString l).length]? = some 0 := by
      rw [lineString]
      generalize l.takeWhile (· ≠ (0 : UInt8)) = u at whole
      generalize l.dropWhile (· ≠ (0 : UInt8)) = r at whole stop
      rw [← whole, List.append_assoc, List.getElem?_append_right (Nat.le_refl _), Nat.sub_self]
      cases r with
      | nil => rfl
      | cons c r => simpa using stop
    rw [stored _ (by omega)]
    exact Option.some.inj ((List.getElem?_eq_getElem (by omega)).symm.trans mark)

/-! ## Splitting. -/

/-- A call of `strtok` and the loop behind it. -/
lemma argsPass_some {c : Cursor} {token : UInt32} {args : List UInt32} (ne : token ≠ 0) (room : args.length < 15) :
    loop argsPass (token, args, c) = (strtok delims 0 c).bind fun r => loop argsPass (r.1, args ++ [token], r.2) := by
  have pass : argsPass (token, args, c) =
      .inner (token, args, c) (strtok delims 0 c) fun r => .next (r.1, args ++ [token], r.2) := by
    rw [argsPass, if_pos ⟨ne, room⟩]
  cases run : strtok delims 0 c with
  | none =>
    refine loop_diverges (I := fun st => st = (token, args, c)) (fun st eq => ⟨st, ?_, eq⟩) rfl
    rw [eq, pass, run]
    rfl
  | some r =>
    rw [loop_next (by rw [pass, run]; rfl)]
    rfl

/-- The loop takes as many words of the string that is left as it has room for; they stay in memory behind it. -/
lemma splitArgs_run (text : m.Text a s) (resumes : Strings.Resumes save a s) (args : List UInt32) :
    ∃ (ps : List (UInt32 × List UInt8)) (save' : UInt32) (m' : Memory),
      ((strtok delims 0 (save, m)).bind fun r => loop argsPass (r.1, args, r.2)) =
        some (args ++ ps.map Prod.fst, save', m') ∧
      ps.map Prod.snd = (tokens delims.contains s).take (15 - args.length) ∧ (∀ x ∈ ps, m'.Text x.1 x.2) ∧
      (∀ x : UInt32, x.toNat < a.toNat → m' x = m x) ∧ (s = [] → m' = m) := by
  induction n : s.length using Nat.strong_induction_on generalizing s a save m args with
  | _ n ih =>
    subst n
    by_cases none : s.dropWhile delims.contains = []
    · obtain ⟨e, -, library, -, -⟩ := Strings.strtok_none delims text resumes none
      have no : tokens delims.contains s = [] := by rw [← tokens_dropWhile, none, tokens_nil]
      refine ⟨[], 0, m, ?_, by rw [no, List.take_nil]; rfl, by simp, fun _ _ => rfl, fun _ => rfl⟩
      rw [library, Option.bind_some, loop_done (by rw [argsPass, if_neg fun both => both.1 rfl]), List.map_nil,
        List.append_nil]
    · obtain ⟨token, e, save', u, t, m₁, -, library, resumes', splits, first, short⟩ :=
        Strings.strtok_some text resumes none
      have words : tokens delims.contains s = u :: tokens delims.contains t := by rw [Vfs.tokens_strtokR _ s, first]
      have filled : s ≠ [] := by
        rintro rfl
        exact none rfl
      by_cases room : args.length < 15
      · obtain ⟨ps, save₂, m₂, run, rest, stay, before, idle⟩ :=
          ih t.length short splits.rest resumes' (args ++ [token]) rfl
        have length : 15 - args.length = 15 - (args ++ [token]).length + 1 := by
          rw [List.length_append, List.length_singleton]
          omega
        -- what comes behind changes nothing in front of the string that is left, so the token stays
        have stays : m₂.Text token u := by
          by_cases empty : t = []
          · rw [idle empty]
            exact splits.word
          · have behind := splits.behind empty
            exact splits.word.congr fun x _ le => before x (by omega)
        refine ⟨(token, u) :: ps, save₂, m₂, ?_, ?_, List.forall_mem_cons.mpr ⟨stays, stay⟩, fun x lt => ?_,
          fun empty => absurd empty filled⟩
        · rw [library, Option.bind_some, argsPass_some splits.word.ne room, run, List.append_assoc]
          rfl
        · rw [words, length, List.take_succ_cons, List.map_cons, rest]
        · rw [before x (Nat.lt_of_lt_of_le lt splits.le), splits.before x lt]
      · have full : 15 - args.length = 0 := by omega
        refine ⟨[], save', m₁, ?_, by rw [full, List.take_zero]; rfl, by simp, splits.before,
          fun empty => absurd empty filled⟩
        rw [library, Option.bind_some, loop_done (by rw [argsPass, if_neg fun both => room both.2]), List.map_nil,
          List.append_nil]

/-- The words of a line that become arguments. -/
def words (s : List UInt8) : List (List UInt8) := (tokens delims.contains s).take 15

/-- The arguments of a line are its first words. -/
lemma splitArgs_eq (text : m.Text a s) (save : UInt32) :
    ∃ (ps : List (UInt32 × List UInt8)) (save' : UInt32) (m' : Memory),
      splitArgs a (save, m) = some (ps.map Prod.fst, save', m') ∧ ps.map Prod.snd = words s ∧
        ∀ x ∈ ps, m'.Text x.1 x.2 := by
  obtain ⟨ps, save', m', run, rest, stay, -, -⟩ := splitArgs_run text (.inl rfl) []
  refine ⟨ps, save', m', ?_, rest, stay⟩
  rw [splitArgs, Strings.strtok_start text.ne]
  exact run

end RetaOS.Shell
