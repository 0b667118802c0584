import RetaOS.Stdio.Defs
import RetaOS.Strings.Compare
import RetaOS.Strings.Tokens

/-!
# The shell

`user/sh/shell.c` with the functions of the C library that it calls: `getchar`, `fgets`, `strtok`, `strcmp`, `strncmp`,
`printf` and `snprintf`. Standard input is the list of the characters that are still to come, with the end behind them,
and standard output the list of those that were written. The shell is the process that `fork` returns to with a number
other than 0; what it returns and how much of the input a child reads is up to the `Env`. A child calls `execve` with
the path and the arguments that are recorded in `started`. `access` is the one of `unistd.c`, which always returns 0,
and no handler is registered for the system call of `cmd_ps`.
-/

namespace RetaOS.Shell
open Lib
open Stdio (ascii Str Arg vprintf vsnprintfLoop)
open Strings (Chars Cursor strtok strcmp strncmp)

/-! ## The library. -/

/-- What is read behind a pointer into memory. -/
def behind (m : Memory) (p : UInt32) : Chars := fun i => m (p + UInt32.ofNat i)

/-- What is read of a string constant. -/
def literal (s : List UInt8) : Chars := fun i => s.getD i 0

/-- `getchar`: `EOF` at the end of the input. -/
def getchar : List UInt8 → Int × List UInt8
  | [] => (-1, [])
  | ch :: stdin => (ch.toNat, stdin)

/-- One pass of `fgets`: the number of characters, the memory and the input. -/
def fgetsPass (s : UInt32) (size : Nat) : Nat × Memory × List UInt8 →
    Pass (Nat × Memory × List UInt8) (Nat × Memory × List UInt8)
  | (i, m, stdin) =>
    if i < size - 1 then
      let c := (getchar stdin).1
      let stdin := (getchar stdin).2
      if c = -1 then .done (i, m, stdin)
      else
        let m := m.store8 (s + UInt32.ofNat i) c.toNat.toUInt8
        if c = 10 then .done (i + 1, m, stdin) else .next (i + 1, m, stdin)
    else .done (i, m, stdin)

/-- `fgets`. -/
def fgets (s : UInt32) (size : Nat) (m : Memory) (stdin : List UInt8) : Option (UInt32 × Memory × List UInt8) :=
  if s = 0 ∨ size ≤ 1 then some (0, m, stdin)
  else
    (loop (fgetsPass s size) (0, m, stdin)).map fun r =>
      (if r.1 = 0 then 0 else s, r.2.1.store8 (s + UInt32.ofNat r.1) 0, r.2.2)

/-! ## The state. -/

/-- A program that a child was forked for: its path and its arguments. -/
structure Program where
  path : List UInt8
  argv : List (List UInt8)

/-- The memory of the shell with the cursor of `strtok`, its input and output, how often it has called `fork`, and the
    programs that were started. -/
structure State where
  m : Memory
  save : UInt32
  stdin : List UInt8
  out : List UInt8
  forks : Nat
  started : List Program

/-- The place of the buffer for the input, which lies in the address space, and what a call of `fork` leads to: none,
    or a child that reads so many characters of the input. -/
structure Env where
  input : UInt32
  ne : input ≠ 0
  fits : input.toNat + 256 ≤ 2 ^ 32
  child : Nat → Option Nat

/-- `printf`. -/
def printf (s : State) (format : String) (args : List Arg) : Option State :=
  (vprintf (ascii format) args).map fun text => { s with out := s.out ++ text }

lemma cstrUpTo_free (m : Memory) (n : Nat) (a : UInt32) : 0 ∉ m.cstrUpTo n a := by
  induction n generalizing a with
  | zero => exact List.not_mem_nil
  | succ n ih =>
    rw [Memory.cstrUpTo]
    split_ifs with nul
    · exact List.not_mem_nil
    · exact List.not_mem_cons_of_ne_of_not_mem (Ne.symm nul) (ih (a + 1))

/-- The string at a pointer, as an argument. -/
def strAt (m : Memory) (p : UInt32) : Str := ⟨m.cstr p, cstrUpTo_free m _ p⟩

/-! ## The commands. -/

/-- The functions of the table of commands. -/
inductive Command where
  | help
  | echo
  | clear
  | ps
  | meminfo
  deriving DecidableEq

/-- `commands`: the name, the description and the function. -/
def commands : List (String × String × Command) :=
  [("help", "Shows help message", .help),
    ("echo", "Prints input to the screen", .echo),
    ("clear", "Clears the screen", .clear),
    ("ps", "Lists running processes", .ps),
    ("meminfo", "Shows memory information", .meminfo)]

lemma commands_nonzero : ∀ c ∈ commands, 0 ∉ ascii c.1 ∧ 0 ∉ ascii c.2.1 := by decide

/-- A string constant without a `NUL`, as an argument. -/
def constant (s : String) : Arg :=
  if nonzero : 0 ∉ ascii s then .str ⟨ascii s, nonzero⟩ else .null .empty

/-- `cmd_help`. -/
def cmdHelp (s : State) : Option State :=
  (printf s "\nAvailable commands:\n" []).bind fun s =>
    (commands.foldlM (fun s c => printf s "  %-10s - %s\n" [constant c.1, constant c.2.1]) s).bind fun s =>
      (printf s "\nTo run external programs, specify the full path.\n" []).bind fun s =>
        printf s "Example: /bin/hello\n" []

/-- `cmd_echo`, of the arguments behind the first. -/
def cmdEcho (argv : List UInt32) (s : State) : Option State :=
  (argv.foldlM (fun s p => printf s "%s " [.str (strAt s.m p)]) s).bind fun s => printf s "\n" []

/-- `cmd_clear`. -/
def cmdClear (s : State) : Option State := printf s "\x1b[2J\x1b[H" []

/-- `cmd_ps`. -/
def cmdPs (s : State) : Option State :=
  (printf s "  PID  CMD\n" []).bind fun s => printf s "------------\n" []

/-- `cmd_meminfo`. -/
def cmdMeminfo (s : State) : Option State :=
  ["Memory Information\n", "----------------\n", "Total:     16 MB\n", "Used:      4 MB\n",
    "Free:      12 MB\n"].foldlM (fun s line => printf s line []) s

/-- The function of a command, called with the arguments. -/
def Command.call (argv : List UInt32) (s : State) : Command → Option State
  | help => cmdHelp s
  | echo => cmdEcho argv.tail s
  | clear => cmdClear s
  | ps => cmdPs s
  | meminfo => cmdMeminfo s

/-- `execute_program`. -/
def executeProgram (env : Env) (path : List UInt8) (argv : List UInt32) (s : State) : Option State :=
  let pid := env.child s.forks
  let s := { s with forks := s.forks + 1 }
  match pid with
  | some read =>
    some { s with stdin := s.stdin.drop read, started := s.started ++ [⟨path, argv.map s.m.cstr⟩] }
  | none => printf s "Error: fork failed\n" []

/-- `access`. -/
def access (_ : List UInt8) : Int := 0

/-- The delimiters of `execute_command`. -/
def delims : List UInt8 := ascii " \t\n"

/-- One pass of the loop of `execute_command` that splits the line, where `MAX_ARGS` is 16. -/
def argsPass : UInt32 × List UInt32 × Cursor → Pass (UInt32 × List UInt32 × Cursor) (List UInt32 × Cursor)
  | (token, args, c) =>
    if token ≠ 0 ∧ args.length < 15 then
      .inner (token, args, c) (strtok delims 0 c) fun r => .next (r.1, args ++ [token], r.2)
    else .done (args, c)

/-- The arguments of a line. -/
def splitArgs (line : UInt32) (c : Cursor) : Option (List UInt32 × Cursor) :=
  (strtok delims line c).bind fun r => loop argsPass (r.1, [], r.2)

/-- The loop of `execute_command` over the table of commands. -/
def findCommand (m : Memory) (name : UInt32) : List (String × String × Command) → Option (Option Command)
  | [] => some none
  | c :: cs =>
    (strcmp (behind m name) (literal (ascii c.1))).bind fun r =>
      if r = 0 then some (some c.2.2) else findCommand m name cs

/-- `execute_command`. -/
def executeCommand (env : Env) (line : UInt32) (s : State) : Option State :=
  (splitArgs line (s.save, s.m)).bind fun r =>
    let s := { s with save := r.2.1, m := r.2.2 }
    match r.1 with
    | [] => some s
    | name :: args =>
      (findCommand s.m name commands).bind fun found =>
        match found with
        | some command => command.call (name :: args) s
        | none =>
          let path := vsnprintfLoop 256 (ascii "/bin/%s") [.str (strAt s.m name)] []
          if access path = 0 then executeProgram env path (name :: args) s
          else if access (s.m.cstr name) = 0 then executeProgram env (s.m.cstr name) (name :: args) s
          else printf s "%s: command not found\n" [.str (strAt s.m name)]

/-- One pass of the loop of `main`; the loop goes on behind a command. -/
def turn (env : Env) (s : State) : Option (State × Bool) :=
  (printf s "$ " []).bind fun s =>
    (fgets env.input 256 s.m s.stdin).bind fun r =>
      let s := { s with m := r.2.1, stdin := r.2.2 }
      if r.1 = 0 then (printf s "\n" []).map fun s => (s, false)
      else
        (strncmp (behind s.m env.input) (literal (ascii "exit")) 4).bind fun r =>
          if r = 0 then some (s, false) else (executeCommand env env.input s).map fun s => (s, true)

/-- The same, as a pass. -/
def turnPass (env : Env) (s : State) : Pass State State :=
  .inner s (turn env s) fun r => if r.2 then .next r.1 else .done r.1

/-- `main`. -/
def shellMain (env : Env) (s : State) : Option State :=
  (printf s "RetaOS Shell\n" []).bind fun s =>
    (printf s "Type 'help' for help\n\n" []).bind fun s =>
      (loop (turnPass env) s).bind fun s => printf s "Exiting...\n" []

end RetaOS.Shell
