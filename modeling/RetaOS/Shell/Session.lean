import RetaOS.Shell.Lines
import RetaOS.Stdio.Overrun
import RetaOS.Stdio.Truncation

/-!
# Sessions

What the shell writes and which programs it starts, for any input: line by line, the first 15 words of a line are a
command of the table or a program (`reply`), until the input ends or a line begins with `exit` (`session`). `cmd_help`
shows that `printf` knows no width and no flags: it writes `%-10s` as it is, and the name in the place of the
description.
-/

namespace RetaOS.Shell
open Lib
open Stdio (ascii Str Arg vprintf vprintfLoop vprintfConv vsnprintfLoop ch)

/-! ## What is expected. -/

/-- What a command of the table writes. -/
def Command.text (args : List (List UInt8)) : Command → List UInt8
  | help =>
    ascii "\nAvailable commands:\n" ++ commands.flatMap (fun c => ascii "  %-10s - " ++ ascii c.1 ++ ascii "\n") ++
      ascii "\nTo run external programs, specify the full path.\n" ++ ascii "Example: /bin/hello\n"
  | echo => args.flatMap (· ++ ascii " ") ++ ascii "\n"
  | clear => ascii "\x1b[2J\x1b[H"
  | ps => ascii "  PID  CMD\n" ++ ascii "------------\n"
  | meminfo =>
    ["Memory Information\n", "----------------\n", "Total:     16 MB\n", "Used:      4 MB\n",
      "Free:      12 MB\n"].flatMap ascii

/-- What comes of a line: the text that is written, the programs that are started, the calls of `fork` so far, and how
    much of the input is read. -/
structure Reply where
  text : List UInt8
  programs : List Program
  forks : Nat
  read : Nat

/-- The reply to the words of a line. -/
def reply (child : Nat → Option Nat) (forks : Nat) : List (List UInt8) → Reply
  | [] => ⟨[], [], forks, 0⟩
  | name :: args =>
    match commands.find? fun c => ascii c.1 = name with
    | some c => ⟨c.2.2.text args, [], forks, 0⟩
    | none =>
      match child forks with
      | some read => ⟨[], [⟨(ascii "/bin/" ++ name).take 255, name :: args⟩], forks + 1, read⟩
      | none => ⟨ascii "Error: fork failed\n", [], forks + 1, 0⟩

lemma rest_lt {stdin : List UInt8} (ne : stdin ≠ []) (k : Nat) :
    ((cutLine 255 stdin).2.drop k).length < stdin.length := by
  have whole := congrArg List.length (cutLine_append 255 stdin)
  have some : 0 < (cutLine 255 stdin).1.length := List.length_pos_of_ne_nil fun nil => ne (cutLine_eq_nil.mp nil)
  rw [List.length_append] at whole
  rw [List.length_drop]
  omega

/-- The text and the programs of a session. -/
def session (child : Nat → Option Nat) (forks : Nat) (stdin : List UInt8) : List UInt8 × List Program :=
  if _ : stdin = [] then (ascii "$ \n", [])
  else
    let line := lineString (cutLine 255 stdin).1
    if ascii "exit" <+: line then (ascii "$ ", [])
    else
      let r := reply child forks (words line)
      let rest := session child r.forks ((cutLine 255 stdin).2.drop r.read)
      (ascii "$ " ++ r.text ++ rest.1, r.programs ++ rest.2)
  termination_by stdin.length
  decreasing_by exact rest_lt (by assumption) _

variable {m m' : Memory} {a p : UInt32} {s : State} {env : Env} {f : List UInt8}

/-! ## Writing. -/

/-- The part of a format in front of a conversion is written as it is. -/
lemma vprintfLoop_plain {g : List UInt8} (plain : ch '%' ∉ f) (args : List Arg) (out : List UInt8)
    (fits : out.length + f.length ≤ 255) : vprintfLoop (f ++ g) args out = vprintfLoop g args (out ++ f) := by
  induction f generalizing out with
  | nil => rw [List.nil_append, List.append_nil]
  | cons c f ih =>
    rw [List.length_cons] at fits
    have ne : c ≠ ch '%' := fun eq => plain (eq ▸ List.mem_cons_self)
    rw [List.cons_append, RetaOS.Stdio.vprintfLoop.eq_def]
    dsimp only
    rw [if_pos (by omega), if_neg ne, ih (fun mem => plain (List.mem_cons_of_mem c mem)), List.append_assoc]
    · rfl
    · rw [List.length_append, List.length_singleton]
      omega

/-- A conversion of a string is written whole where there is room for it. -/
lemma vprintfLoop_string {g : List UInt8} (w : Str) (args : List Arg) (out : List UInt8)
    (fits : out.length + w.chars.length < 255) :
    vprintfLoop (ch '%' :: ch 's' :: g) (.str w :: args) out = vprintfLoop g args (out ++ w.chars) := by
  have conv : vprintfConv (ch 's') (.str w :: args) = (Stdio.copyUpTo 255 w.chars, args) := rfl
  rw [vprintfLoop, if_pos (by omega), if_pos rfl, conv]
  dsimp only
  rw [Stdio.copyUpTo_eq, List.take_of_length_le (by omega)]

lemma vprintfLoop_end (args : List Arg) (out : List UInt8) : vprintfLoop [] args out = some out := by
  rw [vprintfLoop]

/-- The state with a text written. -/
def State.write (s : State) (text : List UInt8) : State := { s with out := s.out ++ text }

lemma State.write_write (s : State) (t u : List UInt8) : (s.write t).write u = s.write (t ++ u) := by
  rw [write, write, write, List.append_assoc]

lemma printf_plain (s : State) {format : String} (plain : ch '%' ∉ ascii format ∧ (ascii format).length ≤ 255) :
    printf s format [] = some (s.write (ascii format)) := by
  have text : vprintf (ascii format) [] = some (ascii format) := by
    have run := vprintfLoop_plain (g := []) plain.1 [] [] (by rw [List.length_nil]; omega)
    rwa [List.append_nil, vprintfLoop_end] at run
  rw [printf, text]
  rfl

/-- Lines of a text. -/
lemma printf_lines (s : State) (lines : List String)
    (plain : ∀ l ∈ lines, ch '%' ∉ ascii l ∧ (ascii l).length ≤ 255) :
    lines.foldlM (fun s line => printf s line []) s = some (s.write (lines.flatMap ascii)) := by
  induction lines generalizing s with
  | nil => exact congrArg some (by rw [List.flatMap_nil, State.write, List.append_nil])
  | cons l lines ih =>
    rw [List.foldlM_cons, printf_plain s (plain l List.mem_cons_self), Option.bind_eq_bind, Option.bind_some,
      ih _ fun l' mem => plain l' (List.mem_cons_of_mem l mem), State.write_write, List.flatMap_cons]

/-- A word and a blank. -/
lemma vprintf_word (w : Str) (short : w.chars.length < 255) :
    vprintf (ascii "%s ") [.str w] = some (w.chars ++ ascii " ") := by
  have split : ascii "%s " = ch '%' :: ch 's' :: (ascii " " ++ []) := rfl
  have room : w.chars.length + (ascii " ").length ≤ 255 := by
    change w.chars.length + 1 ≤ 255
    omega
  rw [vprintf, split, vprintfLoop_string w [] [] (by rw [List.length_nil]; omega), List.nil_append,
    vprintfLoop_plain (by decide) _ _ room, vprintfLoop_end]

/-- A line of `cmd_help`: the conversion `%-` is none, and the one behind it takes the first argument. -/
lemma vprintf_row (name description : Str) (short : name.chars.length < 200) :
    vprintf (ascii "  %-10s - %s\n") [.str name, .str description] =
      some (ascii "  %-10s - " ++ name.chars ++ ascii "\n") := by
  have split : ascii "  %-10s - %s\n" =
      ascii "  " ++ ch '%' :: ch '-' :: (ascii "10s - " ++ ch '%' :: ch 's' :: (ascii "\n" ++ [])) := rfl
  have front : ascii "  " ++ [ch '%', ch '-'] ++ ascii "10s - " = ascii "  %-10s - " := rfl
  have length : (ascii "  %-10s - ").length = 10 := rfl
  have conv (args : List Arg) : vprintfConv (ch '-') args = (fun _ => [ch '%', ch '-'], args) := rfl
  have room : (ascii "  %-10s - " ++ name.chars).length + (ascii "\n").length ≤ 255 := by
    rw [List.length_append, length]
    change 10 + name.chars.length + 1 ≤ 255
    omega
  rw [vprintf, split, vprintfLoop_plain (by decide) _ _ (by decide), List.nil_append, vprintfLoop,
    if_pos (by decide), if_pos rfl, conv]
  dsimp only
  rw [vprintfLoop_plain (by decide) _ _ (by decide), front,
    vprintfLoop_string name _ _ (by rw [length]; omega), vprintfLoop_plain (by decide) _ _ room, vprintfLoop_end]

/-- The path of a program. -/
lemma vsnprintf_path (w : Str) :
    vsnprintfLoop 256 (ascii "/bin/%s") [.str w] [] = (ascii "/bin/" ++ w.chars).take 255 := by
  have plain {f g : List UInt8} (free : ch '%' ∉ f) (args : List Arg) :
      Stdio.pieces Stdio.vsnprintfPiece (f ++ g) args =
        (f.map fun c _ => [c]) ++ Stdio.pieces Stdio.vsnprintfPiece g args := by
    induction f with
    | nil => rfl
    | cons c f ih =>
      have ne : c ≠ ch '%' := fun eq => free (eq ▸ List.mem_cons_self)
      rw [List.cons_append, Stdio.pieces_character ne, ih fun mem => free (List.mem_cons_of_mem c mem)]
      rfl
  have split : ascii "/bin/%s" = ascii "/bin/" ++ [ch '%', ch 's'] := rfl
  have conv : Stdio.vsnprintfPiece (ch 's') [.str w] = (fun _ => w.chars, []) := rfl
  have all : Stdio.vsnprintfAll (ascii "/bin/%s") [.str w] = ascii "/bin/" ++ w.chars := by
    rw [Stdio.vsnprintfAll, split, plain (by decide), Stdio.pieces_conversion, conv]
    rfl
  rw [Stdio.vsnprintfLoop_take, all]

/-! ## The commands. -/

/-- `cmd_help` writes the names, and of the descriptions nothing. -/
lemma cmdHelp_eq (s : State) : cmdHelp s = some (s.write (Command.help.text [])) := by
  have row (c : String × String × Command) (mem : c ∈ commands) :
      vprintf (ascii "  %-10s - %s\n") [constant c.1, constant c.2.1] =
        some (ascii "  %-10s - " ++ ascii c.1 ++ ascii "\n") := by
    have nz := commands_nonzero c mem
    have short : ∀ c ∈ commands, (ascii c.1).length < 200 := by decide
    rw [constant, constant, dif_pos nz.1, dif_pos nz.2]
    exact vprintf_row _ _ (short c mem)
  have rows (cs : List (String × String × Command)) (sub : ∀ c ∈ cs, c ∈ commands) (s : State) :
      cs.foldlM (fun s c => printf s "  %-10s - %s\n" [constant c.1, constant c.2.1]) s =
        some (s.write (cs.flatMap fun c => ascii "  %-10s - " ++ ascii c.1 ++ ascii "\n")) := by
    induction cs generalizing s with
    | nil => exact congrArg some (by rw [List.flatMap_nil, State.write, List.append_nil])
    | cons c cs ih =>
      have first : printf s "  %-10s - %s\n" [constant c.1, constant c.2.1] =
          some (s.write (ascii "  %-10s - " ++ ascii c.1 ++ ascii "\n")) := by
        rw [printf, row c (sub c List.mem_cons_self)]
        rfl
      rw [List.foldlM_cons, first, Option.bind_eq_bind, Option.bind_some,
        ih (fun c' mem => sub c' (List.mem_cons_of_mem c mem)), State.write_write, List.flatMap_cons]
  rw [cmdHelp, printf_plain _ (by decide), Option.bind_some, rows commands (fun _ mem => mem), Option.bind_some,
    printf_plain _ (by decide), Option.bind_some, printf_plain _ (by decide), State.write_write, State.write_write,
    State.write_write, Command.text, List.append_assoc, List.append_assoc]

/-- `cmd_echo` writes the arguments, each with a blank behind it. -/
lemma cmdEcho_eq (s : State) (argv : List UInt32) (short : ∀ p ∈ argv, (s.m.cstr p).length < 255) :
    cmdEcho argv s = some (s.write (Command.echo.text (argv.map s.m.cstr))) := by
  have words (ps : List UInt32) (sub : ∀ p ∈ ps, (s.m.cstr p).length < 255) (s' : State) (same : s'.m = s.m) :
      ps.foldlM (fun s p => printf s "%s " [.str (strAt s.m p)]) s' =
        some (s'.write ((ps.map s.m.cstr).flatMap (· ++ ascii " "))) := by
    induction ps generalizing s' with
    | nil => exact congrArg some (by rw [List.map_nil, List.flatMap_nil, State.write, List.append_nil])
    | cons p ps ih =>
      have first : printf s' "%s " [.str (strAt s'.m p)] = some (s'.write (s.m.cstr p ++ ascii " ")) := by
        have here : strAt s'.m p = strAt s.m p := by rw [same]
        rw [printf, here, vprintf_word _ (sub p List.mem_cons_self)]
        rfl
      rw [List.foldlM_cons, first, Option.bind_eq_bind, Option.bind_some,
        ih (fun q mem => sub q (List.mem_cons_of_mem p mem)) (s'.write (s.m.cstr p ++ ascii " ")) same,
        State.write_write, List.map_cons, List.flatMap_cons]
  rw [cmdEcho, words argv short s rfl, Option.bind_some, printf_plain _ (by decide), State.write_write]
  rfl

/-- A command writes its text. -/
lemma Command.call_eq (c : Command) (s : State) (argv : List UInt32)
    (short : c = .echo → ∀ p ∈ argv.tail, (s.m.cstr p).length < 255) :
    c.call argv s = some (s.write (c.text (argv.tail.map s.m.cstr))) := by
  cases c with
  | help => exact cmdHelp_eq s
  | echo => exact cmdEcho_eq s argv.tail (short rfl)
  | clear => rw [Command.call, cmdClear, printf_plain _ (by decide), Command.text]
  | ps =>
    rw [Command.call, cmdPs, printf_plain _ (by decide), Option.bind_some, printf_plain _ (by decide),
      State.write_write, Command.text]
  | meminfo => rw [Command.call, cmdMeminfo, printf_lines _ _ (by decide), Command.text]

/-- The search of the table finds the command with the name. -/
lemma findCommand_eq {name : List UInt8} (text : m.Text p name) (cs : List (String × String × Command))
    (sub : ∀ c ∈ cs, c ∈ commands) :
    findCommand m p cs = some ((cs.find? fun c => ascii c.1 = name).map fun c => c.2.2) := by
  induction cs with
  | nil => rfl
  | cons c cs ih =>
    have nz : 0 ∉ ascii c.1 := (commands_nonzero c (sub c List.mem_cons_self)).1
    obtain ⟨r, run, same⟩ := strcmp_literal text nz
    rw [findCommand, run, Option.bind_some]
    by_cases found : ascii c.1 = name
    · rw [if_pos (same.mpr found.symm), List.find?_cons, decide_eq_true found]
      rfl
    · rw [if_neg fun zero => found (same.mp zero).symm, List.find?_cons, decide_eq_false found]
      exact ih fun c' mem => sub c' (List.mem_cons_of_mem c mem)

/-! ## A line. -/

/-- The state after a reply. -/
structure Answered (s s' : State) (r : Reply) : Prop where
  out : s'.out = s.out ++ r.text
  stdin : s'.stdin = s.stdin.drop r.read
  forks : s'.forks = r.forks
  started : s'.started = s.started ++ r.programs

/-- The words of a line behind `echo` leave room for a blank. -/
lemma echo_short {line w name : List UInt8} {args : List (List UInt8)} (short : line.length ≤ 255)
    (split : words line = name :: args) (mem : w ∈ args) : w.length < 255 := by
  have some : name ≠ [] := by
    have word : name ∈ tokens delims.contains line :=
      List.mem_of_mem_take (i := 15) (by rw [← words, split]; exact List.mem_cons_self)
    exact (mem_tokens word).1
  have pos := List.length_pos_of_ne_nil some
  have sum : (words line).flatten.length ≤ line.length :=
    ((List.take_sublist _ _).flatten.length_le).trans tokens_flatten_length
  have part := (List.sublist_flatten_of_mem mem).length_le
  rw [split, List.flatten_cons, List.length_append] at sum
  omega

/-- `execute_command` gives the reply to the words of its line. -/
lemma executeCommand_eq {line : UInt32} {str : List UInt8} (text : s.m.Text line str) (short : str.length ≤ 255) :
    ∃ s', executeCommand env line s = some s' ∧ Answered s s' (reply env.child s.forks (words str)) := by
  obtain ⟨ps, save, m', run, split, stay⟩ := splitArgs_eq text s.save
  rw [executeCommand, run, Option.bind_some]
  dsimp only
  cases ps with
  | nil =>
    rw [← split]
    exact ⟨_, rfl, (List.append_nil _).symm, rfl, rfl, (List.append_nil _).symm⟩
  | cons p ps =>
    rw [List.map_cons] at split ⊢
    have here := stay p List.mem_cons_self
    have strings : (ps.map Prod.fst).map m'.cstr = ps.map Prod.snd := by
      rw [List.map_map]
      exact List.map_congr_left fun q mem => (stay q (List.mem_cons_of_mem p mem)).cstr
    dsimp only
    rw [findCommand_eq here commands fun _ mem => mem, Option.bind_some, ← split, reply]
    cases found : commands.find? fun c => ascii c.1 = p.2 with
    | some c =>
      rw [Option.map_some]
      dsimp only
      have echo : c.2.2 = .echo → ∀ q ∈ (p.1 :: ps.map Prod.fst).tail, (m'.cstr q).length < 255 := by
        rintro - q mem
        obtain ⟨x, memx, rfl⟩ := List.mem_map.mp mem
        rw [(stay x (List.mem_cons_of_mem p memx)).cstr]
        exact echo_short short split.symm (List.mem_map_of_mem memx)
      rw [Command.call_eq c.2.2 { s with save, m := m' } _ echo]
      refine ⟨_, rfl, ?_, rfl, rfl, (List.append_nil _).symm⟩
      change s.out ++ c.2.2.text ((ps.map Prod.fst).map m'.cstr) = _
      rw [strings]
    | none =>
      rw [Option.map_none]
      dsimp only
      have path : vsnprintfLoop 256 (ascii "/bin/%s") [.str (strAt m' p.1)] [] = (ascii "/bin/" ++ p.2).take 255 := by
        rw [vsnprintf_path]
        exact congrArg (fun w => (ascii "/bin/" ++ w).take 255) here.cstr
      have always (path : List UInt8) : access path = 0 := rfl
      rw [if_pos (always _), path, executeProgram]
      cases child : env.child s.forks with
      | some read =>
        refine ⟨_, rfl, (List.append_nil _).symm, rfl, rfl, ?_⟩
        change s.started ++ [⟨_, (p.1 :: ps.map Prod.fst).map m'.cstr⟩] = _
        rw [List.map_cons, strings, here.cstr]
      | none =>
        dsimp only
        rw [printf_plain _ (by decide)]
        exact ⟨_, rfl, rfl, rfl, rfl, (List.append_nil _).symm⟩

/-! ## The loop. -/

/-- A line of a session. -/
lemma turn_eq (env : Env) (s : State) :
    (s.stdin = [] ∧ ∃ s', turn env s = some (s', false) ∧ s'.out = s.out ++ ascii "$ \n" ∧ s'.started = s.started) ∨
      s.stdin ≠ [] ∧ ascii "exit" <+: lineString (cutLine 255 s.stdin).1 ∧
        (∃ s', turn env s = some (s', false) ∧ s'.out = s.out ++ ascii "$ " ∧ s'.started = s.started) ∨
      s.stdin ≠ [] ∧ ¬ ascii "exit" <+: lineString (cutLine 255 s.stdin).1 ∧
        ∃ s', turn env s = some (s', true) ∧
          Answered { s with out := s.out ++ ascii "$ ", stdin := (cutLine 255 s.stdin).2 } s'
            (reply env.child s.forks (words (lineString (cutLine 255 s.stdin).1))) := by
  have filled := fgets_eq env.ne (by decide : 1 < 256) (by decide) s.m s.stdin
  have length := cutLine_length 255 s.stdin
  have unfolded : turn env s = (fgets env.input 256 s.m s.stdin).bind fun r =>
      let s := { s.write (ascii "$ ") with m := r.2.1, stdin := r.2.2 }
      if r.1 = 0 then (printf s "\n" []).map fun s => (s, false)
      else
        (Strings.strncmp (behind s.m env.input) (literal (ascii "exit")) 4).bind fun r =>
          if r = 0 then some (s, false) else (executeCommand env env.input s).map fun s => (s, true) := by
    rw [turn, printf_plain _ (by decide), Option.bind_some]
    rfl
  rw [unfolded, filled, Option.bind_some]
  dsimp only
  by_cases none : s.stdin = []
  · left
    rw [if_pos (if_pos (cutLine_eq_nil.mpr none)), printf_plain _ (by decide)]
    refine ⟨none, _, rfl, ?_, rfl⟩
    change s.out ++ ascii "$ " ++ ascii "\n" = _
    rw [List.append_assoc]
    rfl
  · right
    have nonempty : (cutLine 255 s.stdin).1 ≠ [] := fun nil => none (cutLine_eq_nil.mp nil)
    have fits := env.fits
    have text := text_line (l := (cutLine 255 s.stdin).1) env.ne (by omega) s.m
    obtain ⟨r, compared, same⟩ := strncmp_literal (n := 4) text (by decide : 0 ∉ ascii "exit") rfl
    have there : ¬ (if (cutLine 255 s.stdin).1 = [] then 0 else env.input) = 0 := by
      rw [if_neg nonempty]
      exact env.ne
    rw [if_neg there, compared, Option.bind_some]
    by_cases exits : ascii "exit" <+: lineString (cutLine 255 s.stdin).1
    · rw [if_pos (same.mpr exits)]
      exact .inl ⟨none, exits, _, rfl, rfl, rfl⟩
    · rw [if_neg (mt same.mp exits)]
      have short : (lineString (cutLine 255 s.stdin).1).length ≤ 255 :=
        (List.takeWhile_sublist _).length_le.trans length
      obtain ⟨s', run, answered⟩ : ∃ s', executeCommand env env.input { s.write (ascii "$ ") with
          m := s.m.storeBytes env.input ((cutLine 255 s.stdin).1 ++ [0]), stdin := (cutLine 255 s.stdin).2 } = some s' ∧
            Answered _ s' _ := executeCommand_eq text short
      refine .inr ⟨none, exits, s', ?_, answered.out, answered.stdin, answered.forks, answered.started⟩
      rw [run]
      rfl

/-- The loop of `main` is a session. -/
lemma loop_session (env : Env) (s : State) : ∃ s', loop (turnPass env) s = some s' ∧
    s'.out = s.out ++ (session env.child s.forks s.stdin).1 ∧
      s'.started = s.started ++ (session env.child s.forks s.stdin).2 := by
  induction n : s.stdin.length using Nat.strong_induction_on generalizing s with
  | _ n ih =>
    subst n
    rw [session]
    obtain ⟨none, s', run, out, started⟩ | ⟨some, exits, s', run, out, started⟩ | ⟨some, goes, s₁, run, answered⟩ :=
      turn_eq env s
    · rw [dif_pos none]
      exact ⟨s', loop_done (by rw [turnPass, run]; rfl), out, started.trans (List.append_nil _).symm⟩
    · rw [dif_neg some]
      dsimp only
      rw [if_pos exits]
      exact ⟨s', loop_done (by rw [turnPass, run]; rfl), out, started.trans (List.append_nil _).symm⟩
    · obtain ⟨out, stdin, forks, started⟩ := answered
      dsimp only at out stdin started
      obtain ⟨s', rest, out', started'⟩ := ih s₁.stdin.length (by rw [stdin]; exact rest_lt some _) s₁ rfl
      rw [dif_neg some]
      dsimp only
      rw [if_neg goes]
      rw [out, stdin, forks] at out'
      rw [started, stdin, forks] at started'
      refine ⟨s', (loop_next (by rw [turnPass, run]; rfl)).trans rest, ?_, ?_⟩
      · rw [out']
        simp only [List.append_assoc]
      · rw [started', List.append_assoc]

/-- For any input, the shell ends; it has written the text of the session that the input is, between a greeting and a
    farewell, and started its programs. -/
theorem shell_session (env : Env) (s : State) : ∃ s', shellMain env s = some s' ∧
    s'.out = s.out ++ ascii "RetaOS Shell\n" ++ ascii "Type 'help' for help\n\n" ++
      (session env.child s.forks s.stdin).1 ++ ascii "Exiting...\n" ∧
    s'.started = s.started ++ (session env.child s.forks s.stdin).2 := by
  obtain ⟨s', run, out, started⟩ :=
    loop_session env ((s.write (ascii "RetaOS Shell\n")).write (ascii "Type 'help' for help\n\n"))
  rw [shellMain, printf_plain _ (by decide), Option.bind_some, printf_plain _ (by decide), Option.bind_some, run,
    Option.bind_some, printf_plain _ (by decide)]
  exact ⟨_, rfl, congrArg (· ++ ascii "Exiting...\n") out, started⟩

end RetaOS.Shell
