import RetaOS.Vfs.Lookup

/-!
# Splitting strings

The two tokenizers of the repository, on strings in memory: `strtok_r` of `kernel/vfs.c` with the functions of
`kernel/string.c` that it calls, and `strtok` of `libc/src/string.c`. Both put `NUL`s in the string and keep a cursor,
which `strtok_r` leaves at the end of the string and `strtok` sets to `NULL` there. A delimiter set is the list of the
characters of `delim`, and the loop over them is a search of that list.

`strtok_step` is one call of both side by side, compared with the step on lists that `vfs_lookup` is modelled with, and
`strtok_agree` the calls until `NULL`.
-/

namespace RetaOS.Strings
open Lib Vfs

/-! ## The kernel. -/

/-- One pass of `strspn`. -/
def spanPass (m : Memory) (accept : List UInt8) (str count : UInt32) : Pass UInt32 UInt32 :=
  if m (str + count) = 0 then .done count
  else if accept.contains (m (str + count)) then .next (count + 1)
  else .done count

/-- `strspn`. -/
def strspn (m : Memory) (str : UInt32) (accept : List UInt8) : Option UInt32 := loop (spanPass m accept str) 0

/-- One pass of `strpbrk`. -/
def pbrkPass (m : Memory) (accept : List UInt8) (str : UInt32) : Pass UInt32 UInt32 :=
  if m str = 0 then .done 0
  else if accept.contains (m str) then .done str
  else .next (str + 1)

/-- `strpbrk`. -/
def strpbrk (m : Memory) (str : UInt32) (accept : List UInt8) : Option UInt32 := loop (pbrkPass m accept) str

/-- One pass of `strlen`. -/
def lenPass (m : Memory) (str len : UInt32) : Pass UInt32 UInt32 :=
  if m (str + len) = 0 then .done len else .next (len + 1)

/-- `strlen`. -/
def strlen (m : Memory) (str : UInt32) : Option UInt32 := loop (lenPass m str) 0

/-- A cursor and the memory. -/
abbrev Cursor := UInt32 × Memory

/-- `strtok_r`: the token, and `*saveptr` with the memory. -/
def strtokR (delim : List UInt8) (str : UInt32) : Cursor → Option (UInt32 × Cursor)
  | (saveptr, m) =>
    let str := if str = 0 then saveptr else str
    (strspn m str delim).bind fun n =>
      let token := str + n
      if m token = 0 then some (0, token, m)
      else
        (strpbrk m token delim).bind fun str =>
          if str = 0 then (strlen m token).map fun len => (token, token + len, m)
          else some (token, str + 1, m.store8 str 0)

/-! ## The library. -/

/-- One pass of the first loop of `strtok`. -/
def skipPass (m : Memory) (delim : List UInt8) (s : UInt32) : Pass UInt32 UInt32 :=
  if m s = 0 then .done s
  else if delim.contains (m s) then .next (s + 1)
  else .done s

/-- One pass of the second loop of `strtok`. -/
def scanPass (m : Memory) (delim : List UInt8) (s : UInt32) : Pass UInt32 Cursor :=
  if m s = 0 then .done (s, m)
  else if delim.contains (m s) then .done (s + 1, m.store8 s 0)
  else .next (s + 1)

/-- `strtok`: the token, and `save` with the memory. -/
def strtok (delim : List UInt8) (str : UInt32) : Cursor → Option (UInt32 × Cursor)
  | (save, m) =>
    if str = 0 ∧ save = 0 then some (0, save, m)
    else
      let save := if str ≠ 0 then str else save
      (loop (skipPass m delim) save).bind fun s =>
        if m s = 0 then some (0, 0, m)
        else
          let tok := s
          (loop (scanPass m delim) s).map fun (s, m) => (tok, if m s ≠ 0 then s else 0, m)

/-! ## Callers. -/

/-- The loop of a caller: a call with the string, then calls with `NULL`, each token with the string that it is. -/
def callPass (call : UInt32 → Cursor → Option (UInt32 × Cursor)) :
    UInt32 × Cursor × List (UInt32 × List UInt8) →
      Pass (UInt32 × Cursor × List (UInt32 × List UInt8)) (List (UInt32 × List UInt8) × Cursor)
  | (str, c, ts) => .inner (str, c, ts) (call str c) fun (token, c) =>
    if token = 0 then .done (ts, c) else .next (0, c, ts ++ [(token, c.2.cstr token)])

/-- The tokens until `NULL`, and the cursor with the memory behind the calls. -/
def splitAll (call : UInt32 → Cursor → Option (UInt32 × Cursor)) (str : UInt32) (c : Cursor) :
    Option (List (UInt32 × List UInt8) × Cursor) := loop (callPass call) (str, c, [])

/-! ## The loops on a string. -/

section Loops

variable {m : Memory} {a : UInt32} {s delim : List UInt8} {c : UInt8} {r : List UInt8}

/-- The address of the character behind one. -/
private lemma next_place (i : Nat) : a + UInt32.ofNat i + 1 = a + UInt32.ofNat (i + 1) := by
  rw [UInt32.ofNat_add, UInt32.add_assoc]
  rfl

/-- A loop that goes on at the characters in front of a string that pass a test, and leaves behind them. -/
private lemma loop_walk {σ α : Type} {body : σ → Pass σ α} {res : α} (text : m.Text a s) (p : UInt8 → Bool)
    (pos : Nat → σ)
    (goes : ∀ i, m (a + UInt32.ofNat i) ≠ 0 → p (m (a + UInt32.ofNat i)) = true → body (pos i) = .next (pos (i + 1)))
    (leave : body (pos (s.takeWhile p).length) = .done res) : loop body (pos 0) = some res :=
  loop_seq (fun i lt => goes i ((text.walk p).1 i lt).1 ((text.walk p).1 i lt).2) leave

/-- The same loop over the addresses of the characters. -/
private lemma loop_walk_place {α : Type} {body : UInt32 → Pass UInt32 α} {res : α} (text : m.Text a s)
    (p : UInt8 → Bool) (goes : ∀ x, m x ≠ 0 → p (m x) = true → body x = .next (x + 1))
    (leave : body (a + UInt32.ofNat (s.takeWhile p).length) = .done res) : loop body a = some res := by
  have run := loop_walk text p (fun i => a + UInt32.ofNat i) (fun i nz pass => ?_) leave
  · rwa [show a + UInt32.ofNat 0 = a from UInt32.add_zero a] at run
  · rw [goes _ nz pass, next_place]

/-- `strspn` counts the delimiters in front. -/
lemma strspn_eq (text : m.Text a s) :
    strspn m a delim = some (UInt32.ofNat (s.takeWhile delim.contains).length) := by
  refine loop_walk text delim.contains UInt32.ofNat (fun i nz accepted => ?_) ?_
  · rw [spanPass, if_neg nz, if_pos accepted, UInt32.ofNat_add]
    rfl
  · rw [spanPass]
    obtain ⟨-, nul⟩ | ⟨c, r, -, byte, nz, other⟩ := (text.walk delim.contains).2
    · rw [if_pos nul]
    · rw [byte, if_neg nz, other, if_neg Bool.false_ne_true]

/-- The first loop of `strtok` stops behind them. -/
lemma skip_eq (text : m.Text a s) :
    loop (skipPass m delim) a = some (a + UInt32.ofNat (s.takeWhile delim.contains).length) := by
  refine loop_walk_place text delim.contains (fun x nz accepted => ?_) ?_
  · rw [skipPass, if_neg nz, if_pos accepted]
  · rw [skipPass]
    obtain ⟨-, nul⟩ | ⟨c, r, -, byte, nz, other⟩ := (text.walk delim.contains).2
    · rw [if_pos nul]
    · rw [byte, if_neg nz, other, if_neg Bool.false_ne_true]

/-- `strlen`. -/
lemma strlen_eq (text : m.Text a s) : strlen m a = some (UInt32.ofNat s.length) := by
  have all : s.takeWhile (fun _ => true) = s := List.takeWhile_eq_self_iff.mpr fun _ _ => rfl
  refine loop_walk text (fun _ => true) UInt32.ofNat (fun i nz _ => ?_) ?_
  · rw [lenPass, if_neg nz, UInt32.ofNat_add]
    rfl
  · rw [all, lenPass, if_pos text.nul]

/-- At a character that is no delimiter the scan for the end of the token goes on, in both tokenizers. -/
private lemma scan_goes (x : UInt32) (nz : m x ≠ 0) (regular : (!delim.contains (m x)) = true) :
    pbrkPass m delim x = .next (x + 1) ∧ scanPass m delim x = .next (x + 1) := by
  have other : ¬ delim.contains (m x) = true := by simpa using regular
  rw [pbrkPass, scanPass, if_neg nz, if_neg nz, if_neg other, if_neg other]
  exact ⟨rfl, rfl⟩

/-- Without a delimiter the scan stops at the end of the string. -/
lemma scan_end (text : m.Text a s) (whole : s.dropWhile (!delim.contains ·) = []) :
    strpbrk m a delim = some 0 ∧ loop (scanPass m delim) a = some (a + UInt32.ofNat s.length, m) := by
  have all : s.takeWhile (!delim.contains ·) = s := by
    have cut := List.takeWhile_append_dropWhile (p := (!delim.contains ·)) (l := s)
    rwa [whole, List.append_nil] at cut
  constructor
  · refine loop_walk_place text (!delim.contains ·) (fun x nz regular => (scan_goes x nz regular).1) ?_
    rw [all, pbrkPass, if_pos text.nul]
  · refine loop_walk_place text (!delim.contains ·) (fun x nz regular => (scan_goes x nz regular).2) ?_
    rw [all, scanPass, if_pos text.nul]

/-- With one it stops there, and `strtok` puts a `NUL` in its place. -/
lemma scan_delim (text : m.Text a s) (found : s.dropWhile (!delim.contains ·) = c :: r) :
    strpbrk m a delim = some (a + UInt32.ofNat (s.takeWhile (!delim.contains ·)).length) ∧
      loop (scanPass m delim) a = some (a + UInt32.ofNat ((s.takeWhile (!delim.contains ·)).length + 1),
        m.store8 (a + UInt32.ofNat (s.takeWhile (!delim.contains ·)).length) 0) := by
  obtain ⟨none, -⟩ | ⟨c', r', found', byte, nz, stop⟩ := (text.walk (!delim.contains ·)).2
  · cases none.symm.trans found
  · have accepted : delim.contains c' = true := by simpa using stop
    constructor
    · refine loop_walk_place text (!delim.contains ·) (fun x nz regular => (scan_goes x nz regular).1) ?_
      rw [pbrkPass, byte, if_neg nz, if_pos accepted]
    · refine loop_walk_place text (!delim.contains ·) (fun x nz regular => (scan_goes x nz regular).2) ?_
      rw [scanPass, byte, if_neg nz, if_pos accepted, next_place]

end Loops

/-! ## One call. -/

variable {m : Memory} {a str save saveptr : UInt32} {s delim : List UInt8}

/-- A call of `strtok_r` with a string goes on from its beginning. -/
lemma strtokR_start : strtokR delim str (saveptr, m) = strtokR delim 0 (if str = 0 then saveptr else str, m) := by
  simp only [strtokR, if_true]

/-- So does a call of `strtok`. -/
lemma strtok_start (ne : str ≠ 0) : strtok delim str (save, m) = strtok delim 0 (str, m) := by
  simp only [strtok, ne, ne_eq, false_and, and_false, not_true_eq_false, not_false_eq_true, if_true, if_false]

/-- The cursor of `strtok` where a string is left: at its beginning, or `NULL` when it is empty. -/
def Resumes (save a : UInt32) (s : List UInt8) : Prop := save = a ∨ save = 0 ∧ s = []

/-- A call at a string without tokens returns `NULL` in both tokenizers. -/
lemma strtok_none (delim : List UInt8) (text : m.Text a s) (resumes : Resumes save a s)
    (none : s.dropWhile delim.contains = []) :
    ∃ e, strtokR delim 0 (a, m) = some (0, e, m) ∧ strtok delim 0 (save, m) = some (0, 0, m) ∧ m.Text e [] ∧
      (s = [] → e = a) := by
  have rest := text.dropWhile delim.contains
  have nul := rest.nul
  rw [none] at rest nul
  rw [show UInt32.ofNat [].length = 0 from rfl, UInt32.add_zero] at nul
  refine ⟨_, ?_, ?_, rest, fun nil => ?_⟩
  · simp only [strtokR, if_true, strspn_eq text, Option.bind_some, nul]
  · obtain rfl | ⟨rfl, -⟩ := resumes
    · simp only [strtok, text.ne, and_false, ne_eq, not_true_eq_false, if_false, skip_eq text, Option.bind_some, nul,
        if_true]
    · simp only [strtok, and_self, if_true]
  · subst nil
    exact UInt32.add_zero a

/-- What a call makes of a string at `a`: the token `u` at `token`, and the string `t` at `e` that is left. Nothing
    changes in front of `a`, and the token with its `NUL` lies in front of `e`, unless nothing is left. -/
structure Splits (m : Memory) (a token e : UInt32) (u t : List UInt8) (m' : Memory) : Prop where
  word : m'.Text token u
  rest : m'.Text e t
  le : a.toNat ≤ e.toNat
  behind : t ≠ [] → token.toNat + u.length < e.toNat
  before : ∀ x : UInt32, x.toNat < a.toNat → m' x = m x

/-- A `NUL` behind the token splits a string in this way. -/
lemma Splits.cut {token : UInt32} {u t : List UInt8} {x : UInt8} (word : m.Text token (u ++ x :: t))
    (le : a.toNat ≤ token.toNat) :
    Splits m a token (token + UInt32.ofNat (u.length + 1)) u t (m.store8 (token + UInt32.ofNat u.length) 0) := by
  have length : (u ++ x :: t).length = u.length + 1 + t.length := by
    rw [List.length_append, List.length_cons]
    omega
  have mark := word.toNat_add (n := u.length) (by omega)
  have behind := word.toNat_add (n := u.length + 1) (by omega)
  refine ⟨word.cut.1, word.cut.2, by omega, fun _ => by omega, fun y lt => Memory.store8_ne fun eq => ?_⟩
  rw [eq] at lt
  omega

/-- At a string with a token both tokenizers look for its end. -/
lemma strtok_found (text : m.Text a s) (found : s.dropWhile delim.contains ≠ []) :
    ∃ token, m.Text token (s.dropWhile delim.contains) ∧ a.toNat ≤ token.toNat ∧
      strtokR delim 0 (a, m) = ((strpbrk m token delim).bind fun str =>
        if str = 0 then (strlen m token).map fun len => (token, token + len, m)
        else some (token, str + 1, m.store8 str 0)) ∧
      strtok delim 0 (a, m) =
        (loop (scanPass m delim) token).map fun (s, m) => (token, if m s ≠ 0 then s else 0, m) := by
  have rest := text.dropWhile delim.contains
  have place := text.toNat_add (List.takeWhile_sublist (l := s) delim.contains).length_le
  have nz : m (a + UInt32.ofNat (s.takeWhile delim.contains).length) ≠ 0 := by
    obtain ⟨none, -⟩ | ⟨c, r, -, byte, nz, -⟩ := (text.walk delim.contains).2
    · exact absurd none found
    · rwa [byte]
  refine ⟨_, rest, by omega, ?_, ?_⟩
  · simp only [strtokR, if_true, strspn_eq text, Option.bind_some, if_neg nz]
  · simp only [strtok, text.ne, and_false, ne_eq, not_true_eq_false, if_false, skip_eq text, Option.bind_some,
      if_neg nz]

/-- A call at a string with a token is the step on lists that `vfs_lookup` is modelled with, in both tokenizers. -/
lemma strtok_some (text : m.Text a s) (resumes : Resumes save a s) (found : s.dropWhile delim.contains ≠ []) :
    ∃ token e save' u t m', strtokR delim 0 (a, m) = some (token, e, m') ∧
      strtok delim 0 (save, m) = some (token, save', m') ∧ Resumes save' e t ∧ Splits m a token e u t m' ∧
      Vfs.strtokR delim.contains s = (some u, t) ∧ t.length < s.length := by
  obtain rfl : save = a := by
    obtain eq | ⟨-, rfl⟩ := resumes
    · exact eq
    · exact absurd rfl found
  obtain ⟨token, word, le, kernel, library⟩ := strtok_found text found
  have short := (List.dropWhile_sublist (l := s) delim.contains).length_le
  rw [kernel, library, Vfs.strtokR]
  generalize s.dropWhile delim.contains = w at word found short ⊢
  obtain ⟨c, r, rfl⟩ := List.exists_cons_of_ne_nil found
  dsimp only
  have whole := List.takeWhile_append_dropWhile (p := (!delim.contains ·)) (l := c :: r)
  cases cut : (c :: r).dropWhile (!delim.contains ·) with
  | nil =>
    rw [cut, List.append_nil] at whole
    obtain ⟨pbrk, scan⟩ := scan_end word cut
    have last := word.toNat_add (Nat.le_refl _)
    refine ⟨token, token + UInt32.ofNat (c :: r).length, 0, c :: r, [], m, ?_, ?_, .inr ⟨rfl, rfl⟩,
      ⟨word, ?_, by omega, fun ne => absurd rfl ne, fun _ _ => rfl⟩, ?_, ?_⟩
    · rw [pbrk, Option.bind_some, if_pos rfl, strlen_eq word, Option.map_some]
    · simp only [scan, Option.map_some, word.nul, ne_eq, not_true_eq_false, if_false]
    · have tail := word.drop (Nat.le_refl _)
      rwa [List.drop_length] at tail
    · rw [whole, List.drop_nil]
    · exact Nat.lt_of_lt_of_le (Nat.succ_pos _) short
  | cons x t =>
    obtain ⟨pbrk, scan⟩ := scan_delim word cut
    rw [cut] at whole
    generalize (c :: r).takeWhile (!delim.contains ·) = u at whole pbrk scan ⊢
    rw [← whole] at word short
    rw [List.length_append, List.length_cons] at short
    have away : token + UInt32.ofNat u.length ≠ 0 := (word.drop (by rw [List.length_append]; omega)).ne
    have splits := Splits.cut word le
    have resume := splits.rest.head_iff
    rw [pbrk, scan, Option.bind_some, if_neg away, next_place, Option.map_some]
    refine ⟨_, _, _, u, t, _, rfl, rfl, ?_, splits, rfl, by omega⟩
    cases t with
    | nil => exact .inr ⟨if_neg (not_not.mpr (resume.mpr rfl)), rfl⟩
    | cons y t => exact .inl (if_pos fun nul => List.cons_ne_nil y t (resume.mp nul))

/-! ## All calls. -/

/-- A caller goes round with a token. -/
lemma callPass_some {call : UInt32 → Cursor → Option (UInt32 × Cursor)} {c c' : Cursor} {token : UInt32}
    {ts : List (UInt32 × List UInt8)} (run : call str c = some (token, c')) (ne : token ≠ 0) :
    callPass call (str, c, ts) = .next (0, c', ts ++ [(token, c'.2.cstr token)]) := by
  simp only [callPass, run, Pass.inner, if_neg ne]

/-- It leaves at `NULL`. -/
lemma callPass_none {call : UInt32 → Cursor → Option (UInt32 × Cursor)} {c c' : Cursor}
    {ts : List (UInt32 × List UInt8)} (run : call str c = some (0, c')) :
    callPass call (str, c, ts) = .done (ts, c') := by
  simp only [callPass, run, Pass.inner, if_true]

/-- The first call is like one that goes on. -/
lemma first_call {call : UInt32 → Cursor → Option (UInt32 × Cursor)} {c c' : Cursor} (same : call str c = call 0 c') :
    loop (callPass call) (str, c, []) = loop (callPass call) (0, c', []) := by
  cases run : call 0 c' with
  | none =>
    have hangs {str c} (ends : call str c = none) : loop (callPass call) (str, c, []) = none := by
      refine loop_diverges (I := fun st => st = (str, c, [])) (fun st eq => ⟨st, ?_, eq⟩) rfl
      simp only [eq, callPass, ends, Pass.inner]
    rw [hangs (same.trans run), hangs run]
  | some res =>
    have pass : callPass call (str, c, []) = callPass call (0, c', []) := by
      simp only [callPass, same, run, Pass.inner]
    rw [loop, loop, pass]

/-- The tokens of a string at `a`, each where it stands in the memory behind the calls. -/
structure Handed (m : Memory) (a : UInt32) (s : List UInt8) (sep : UInt8 → Bool) (ts : List (UInt32 × List UInt8))
    (m' : Memory) : Prop where
  words : ts.map Prod.snd = tokens sep s
  stay : ∀ x ∈ ts, m'.Text x.1 x.2
  before : ∀ x : UInt32, x.toNat < a.toNat → m' x = m x
  idle : s = [] → m' = m

/-- The calls from a string on, in both tokenizers: they give its tokens. -/
lemma split_run (delim : List UInt8) (text : m.Text a s) (resumes : Resumes save a s) : ∃ ts e m',
    (∀ acc, loop (callPass (strtokR delim)) (0, (a, m), acc) = some (acc ++ ts, e, m')) ∧
      (∀ acc, loop (callPass (strtok delim)) (0, (save, m), acc) = some (acc ++ ts, 0, m')) ∧
      m'.Text e [] ∧ Handed m a s delim.contains ts m' := by
  induction n : s.length using Nat.strong_induction_on generalizing s a save m with
  | _ n ih =>
    subst n
    by_cases none : s.dropWhile delim.contains = []
    · obtain ⟨e, kernel, library, last, -⟩ := strtok_none delim text resumes none
      have no : tokens delim.contains s = [] := by rw [← tokens_dropWhile, none, tokens_nil]
      refine ⟨[], e, m, fun acc => ?_, fun acc => ?_, last, no.symm, nofun, fun _ _ => rfl, fun _ => rfl⟩
      · rw [loop_done (callPass_none kernel), List.append_nil]
      · rw [loop_done (callPass_none library), List.append_nil]
    · obtain ⟨token, e, save', u, t, m₁, kernel, library, resumes', splits, first, short⟩ :=
        strtok_some text resumes none
      obtain ⟨ts, e', m', kernel', library', last, handed⟩ := ih t.length short splits.rest resumes' rfl
      -- the calls that follow change nothing in front of the string that is left, so the token stays
      have stays : m'.Text token u := by
        by_cases none : t = []
        · rw [handed.idle none]
          exact splits.word
        · have behind := splits.behind none
          exact splits.word.congr fun x _ le => handed.before x (by omega)
      refine ⟨(token, u) :: ts, e', m', fun acc => ?_, fun acc => ?_, last, ?_, ?_, fun x lt => ?_, fun nil => ?_⟩
      · rw [loop_next (callPass_some kernel splits.word.ne), kernel', splits.word.cstr, List.append_assoc]
        rfl
      · rw [loop_next (callPass_some library splits.word.ne), library', splits.word.cstr, List.append_assoc]
        rfl
      · rw [List.map_cons, handed.words, tokens_strtokR _ s, first]
      · exact List.forall_mem_cons.mpr ⟨stays, handed.stay⟩
      · rw [handed.before x (Nat.lt_of_lt_of_le lt splits.le), splits.before x lt]
      · rw [nil] at none
        exact absurd rfl none

/-- `strtok_r` and `strtok` hand out the same tokens of every string for every set of delimiters, at the same places:
    the maximal runs of other characters, in order. The tokens stay in memory as they are handed out, and the calls
    behind the first `NULL` return `NULL` and change nothing. -/
theorem strtok_agree (m : Memory) (str saveptr save : UInt32) (delim s : List UInt8) (text : m.Text str s) :
    ∃ ts saveptr' save' m', splitAll (strtokR delim) str (saveptr, m) = some (ts, saveptr', m') ∧
      splitAll (strtok delim) str (save, m) = some (ts, save', m') ∧
      ts.map Prod.snd = tokens delim.contains s ∧ (∀ x ∈ ts, m'.cstr x.1 = x.2) ∧
      strtokR delim 0 (saveptr', m') = some (0, saveptr', m') ∧ strtok delim 0 (save', m') = some (0, save', m') := by
  obtain ⟨ts, e, m', kernel, library, last, handed⟩ := split_run delim text (.inl rfl)
  obtain ⟨e', again, again', -, same⟩ := strtok_none delim last (.inr ⟨rfl, rfl⟩) rfl
  rw [same rfl] at again
  refine ⟨ts, e, 0, m', ?_, ?_, handed.words, fun x mem => (handed.stay x mem).cstr, again, again'⟩
  · rw [splitAll, first_call strtokR_start, if_neg text.ne, kernel, List.nil_append]
  · rw [splitAll, first_call (strtok_start text.ne), library, List.nil_append]

/-- The string `/a//bc` at address 16. -/
private def slashes : Memory := Memory.storeBytes (fun _ => 0) 16 [0x2F, 0x61, 0x2F, 0x2F, 0x62, 0x63]

private lemma slashes_text : slashes.Text 16 [0x2F, 0x61, 0x2F, 0x2F, 0x62, 0x63] where
  ne := by decide
  fits := by decide
  bytes := by decide +kernel
  nz := by simp
  nul := by decide +kernel

/-- Split at its slashes, in either way, it has the tokens `a` and `bc`. -/
theorem strtok_agree_slashes :
    ∃ ts saveptr' save' m', splitAll (strtokR [0x2F]) 16 (0, slashes) = some (ts, saveptr', m') ∧
      splitAll (strtok [0x2F]) 16 (0, slashes) = some (ts, save', m') ∧ ts.map Prod.snd = [[0x61], [0x62, 0x63]] := by
  obtain ⟨ts, saveptr', save', m', kernel, library, words, -⟩ :=
    strtok_agree slashes 16 0 0 [0x2F] [0x2F, 0x61, 0x2F, 0x2F, 0x62, 0x63] slashes_text
  exact ⟨ts, saveptr', save', m', kernel, library, words.trans rfl⟩

end RetaOS.Strings
