import RetaOS.Console.ReadLine
import RetaOS.Syscall.Files
import RetaOS.Vfs.AccessMode
import RetaOS.Vfs.Identity

/-!
# Descriptors and standard streams

`sys_open` hands out the slots of the descriptor table from 0 on, while `sys_read` takes 0 and `sys_write` takes 1
and 2 for the terminal. `Run` keeps, for each descriptor a run of requests has opened and not closed, the file it
was opened for and the slot as the requests on it have left it; by `Run.holds` no other request changes that slot.
`directed_iff` says which transfers on an open descriptor go to its file.
-/

namespace RetaOS.Syscall
open Lib Vfs

/-- A descriptor that was opened: its file, and its slot after the last request on it. -/
structure Opened (F : Type) where
  file : Node F
  slot : Node F

/-- The open descriptors after a request that returned `ret`. -/
def Request.opened {F σ : Type} (D : Driver F σ) (m m' : Machine F σ) (ret : Int) (H : Nat → Option (Opened F)) :
    Request → Nat → Option (Opened F)
  | .open_ filename flags =>
    match openTarget D m.fs filename flags with
    | some (.ok file, _) =>
      if 0 ≤ ret then Function.update H ret.toNat (some ⟨file, m'.fs.openFiles ret.toNat⟩) else H
    | _ => H
  | .close fd => fun i => if (i : Int) = fd then none else H i
  | .read fd _ _ | .write fd _ _ => fun i =>
    if (i : Int) = fd then (H i).map fun o => { o with slot := m'.fs.openFiles i } else H i
  | .fork _ | .execve _ _ => H

/-- The runs from `m0`, and the descriptors open at their end. -/
inductive Run {F σ : Type} (D : Driver F σ) (m0 : Machine F σ) :
    Machine F σ → (Nat → Option (Opened F)) → Prop where
  | start : Run D m0 m0 fun _ => none
  | step {m H ret bytes m'} {c : Request} :
    Run D m0 m H →
    c.run D m = some (ret, bytes, m') →
    Run D m0 m' (c.opened D m m' ret H)

/-- The requests that move data. -/
inductive Transfer where
  | read (buf count : UInt32)
  | write (buf : UInt32) (bytes : List UInt8)

variable {F σ : Type} {D : Driver F σ} {m m' m0 : Machine F σ} {s s' : State F σ} {H : Nat → Option (Opened F)}
  {o : Opened F} {t t' : Tty} {path bytes out : List UInt8} {buf count : UInt32} {fd ret : Int} {i : Nat}

/-- The request on a descriptor. -/
def Transfer.request (fd : Int) : Transfer → Request
  | .read buf count => .read fd buf count
  | .write buf bytes => .write fd buf bytes

/-- The transfer from or to the file of a slot, at the position of the slot. -/
def Transfer.onFile (D : Driver F σ) (s : State F σ) (fd : Int) : Transfer → Int × List UInt8 × State F σ
  | .read buf count => vfsRead D s fd buf count
  | .write buf bytes => ((vfsWrite D s fd buf bytes).1, [], (vfsWrite D s fd buf bytes).2)

/-- A transfer on a descriptor goes to the file it was opened for: the slot holds that file, as the requests on the
    descriptor have left it, and the request is the transfer on it, with the terminal left alone. -/
structure Directed (D : Driver F σ) (m : Machine F σ) (fd : Nat) (o : Opened F) (x : Transfer) : Prop where
  isOpen : openFile m.fs fd = some fd
  slot : m.fs.openFiles fd = o.slot
  file : o.slot.identity = o.file.identity
  result : (x.request fd).run D m = some ((x.onFile D m.fs fd).1, (x.onFile D m.fs fd).2.1,
    { m with fs := (x.onFile D m.fs fd).2.2 })

/-- A read is not on 0, or of no bytes when reading none from the file does nothing; a write is not on 1 or 2, or
    of no text when writing it to the file does nothing. -/
def Meets (D : Driver F σ) (s : State F σ) (fd : Nat) : Transfer → Prop
  | .read buf count => fd = 0 → count = 0 ∧ vfsRead D s fd buf 0 = (0, [], s)
  | .write buf bytes => fd = 1 ∨ fd = 2 → bytes.takeWhile (· != 0) = [] ∧
    vfsWrite D s fd buf bytes = ((UInt32.ofNat bytes.length).toInt32.toInt, s)

/-! ## The terminal. -/

lemma put_console {ch : UInt8} : (t.put ch).console = t.console ++ [ch] := by
  unfold Tty.put Tty.serialWrite
  split_ifs
  · rfl
  · rfl

/-- The console shows the text before the first `NUL`. -/
lemma write_console (t : Tty) (bytes : List UInt8) :
    (t.write bytes).console = t.console ++ bytes.takeWhile (· != 0) := by
  induction bytes generalizing t with
  | nil => exact (List.append_nil _).symm
  | cons ch str ih =>
    rw [Tty.write]
    by_cases nul : ch = 0
    · rw [if_pos nul, nul]
      exact (List.append_nil _).symm
    · rw [if_neg nul, ih, put_console, List.takeWhile_cons_of_pos (by simpa using nul), List.append_assoc]
      rfl

/-- Without text nothing is written. -/
lemma write_silent (silent : bytes.takeWhile (· != 0) = []) : t.write bytes = t := by
  cases bytes with
  | nil => rfl
  | cons ch str =>
    by_cases nul : ch = 0
    · rw [Tty.write, if_pos nul]
    · rw [List.takeWhile_cons_of_pos (by simpa using nul)] at silent
      cases silent

lemma write_eq_iff : t.write bytes = t ↔ bytes.takeWhile (· != 0) = [] := by
  refine ⟨fun same => ?_, write_silent⟩
  have console := write_console t bytes
  rw [same] at console
  exact List.self_eq_append_right.mp console

lemma put_polls {ch : UInt8} : (t.put ch).keyboardPolls = t.keyboardPolls := by
  unfold Tty.put Tty.serialWrite
  split_ifs
  · rfl
  · rfl

/-- A character is asked of the keyboard first. -/
lemma getchar_polls : t.getchar.2.keyboardPolls = t.keyboardPolls + 1 := by
  unfold Tty.getchar Tty.keyboardGetcharNonblock Tty.serialGetcharNonblock
  cases t.keyboard t.keyboardPolls with
  | none => rfl
  | some ch => rfl

/-- The terminal takes the character that `read_line` would, when its two polls find the same. -/
theorem getchar_nextChar {inp : Console.Inputs} {n : Nat}
    (keyboard : t.keyboard t.keyboardPolls = Console.keyboardGetcharNonblock (inp.key n))
    (serial : (if t.serialReady then t.serialIn t.serialPolls else none) = inp.serial n) :
    t.getchar.1 = Console.nextChar inp n := by
  rw [Console.nextChar, ← keyboard, Tty.getchar, Tty.keyboardGetcharNonblock]
  cases t.keyboard t.keyboardPolls with
  | some kc => rfl
  | none =>
    dsimp only [Tty.serialGetcharNonblock]
    rw [serial]
    cases inp.serial n with
    | none => rfl
    | some sc =>
      rw [Option.map_some]
      by_cases cr : sc = 0x0D
      · rw [if_pos (congrArg some cr), if_pos cr]
      · rw [if_neg fun same => cr (Option.some.inj same), if_neg cr]

/-- A read of some bytes from the terminal polls the keyboard. -/
lemma readLoop_polls (some_ : count ≠ 0) (run : loop (Tty.readBody count) ([], t) = some (out, t')) :
    t.keyboardPolls < t'.keyboardPolls := by
  have pos : 0 < count.toNat := by
    rw [Nat.pos_iff_ne_zero]
    exact fun zero => some_ (UInt32.toNat_inj.mp zero)
  -- nothing is read before the first poll
  refine loop_rule (I := fun x : List UInt8 × Tty =>
      t.keyboardPolls ≤ x.2.keyboardPolls ∧ (x.1 = [] ∨ t.keyboardPolls < x.2.keyboardPolls))
    (Q := fun r => t.keyboardPolls < r.2.keyboardPolls) ?_ ⟨le_rfl, .inl rfl⟩ run
  rintro ⟨o, u⟩ ⟨le, first⟩
  unfold Tty.readBody
  dsimp only
  by_cases more : o.length < count.toNat
  · have polls := getchar_polls (t := u)
    rw [if_pos more]
    generalize u.getchar = g at polls ⊢
    obtain ⟨ch, v⟩ := g
    have lt : t.keyboardPolls < v.keyboardPolls := by
      rw [polls]
      exact Nat.lt_succ_of_le le
    cases ch with
    | none => exact .next ⟨lt.le, .inr lt⟩
    | some ch =>
      have put : t.keyboardPolls < (v.put ch).keyboardPolls := lt.trans_eq put_polls.symm
      dsimp only
      split_ifs
      · exact .done put
      · exact .next ⟨put.le, .inr put⟩
  · rw [if_neg more]
    refine .done (first.resolve_left fun empty => ?_)
    obtain rfl : o = [] := empty
    exact more pos

/-! ## What a request leaves alone. -/

section Quiet
variable (keeps : KeepsFiles D)
include keeps

/-- `process_exec` reads and closes the descriptor it opened. -/
lemma execRead_others (fd : Int) (s : State F σ) (j : Nat) (ne : (j : Int) ≠ fd) :
    (execRead D s fd).2.openFiles j = s.openFiles j := by
  unfold execRead
  dsimp only
  split_ifs
  · exact vfsClose_others j ne
  · cases oom : s.oom s.calls with
    | true =>
      rw [kmalloc_none oom]
      exact vfsClose_others j ne
    | false =>
      rw [kmalloc_some oom]
      exact (vfsClose_others j ne).trans ((vfsRead_identity keeps).others j ne)

/-- `elf_load` reads and closes the descriptor it opened. -/
lemma elfLoadOpened_others (fd : Int) (s : State F σ) (stSize : UInt32) (j : Nat) (ne : (j : Int) ≠ fd) :
    (elfLoadOpened D s fd stSize).2.openFiles j = s.openFiles j := by
  have read : Within Node.identity s (vfsRead D s fd kernelBuffer (UInt32.ofNat Elf.sizeofEhdr)).2.2 fd :=
    vfsRead_identity keeps
  have first := read.others j ne
  unfold elfLoadOpened
  dsimp only
  generalize vfsRead D s fd kernelBuffer (UInt32.ofNat Elf.sizeofEhdr) = r at first ⊢
  obtain ⟨rd, eh, s1⟩ := r
  dsimp only at first ⊢
  rw [← first]
  split_ifs
  · exact vfsClose_others j ne
  · exact vfsClose_others j ne
  · cases oom : s1.oom s1.calls with
    | true =>
      rw [kmalloc_none oom]
      exact vfsClose_others j ne
    | false =>
      rw [kmalloc_some oom]
      dsimp only
      split_ifs
      · exact (vfsClose_others j ne).trans ((vfsRead_identity keeps).others j ne)
      · exact (vfsClose_others j ne).trans ((vfsRead_identity keeps).others j ne)

/-- A descriptor that is opened, and then only used itself. -/
lemma opened_keepsUsed {s s1 s' : State F σ} {flags : UInt32} (run : vfsOpen D s path flags = some (fd, s1))
    (ok : ¬ fd < 0) (others : ∀ j : Nat, (j : Int) ≠ fd → s'.openFiles j = s1.openFiles j) : KeepsUsed s s' := by
  obtain ⟨used, neg | ⟨i, n, s0, m, rfl, -, empty, -⟩⟩ := vfsOpen_fills keeps run
  · exact absurd neg ok
  · intro j open_
    have ne : j ≠ i := by
      rintro rfl
      exact open_ empty
    rw [others j (by omega)]
    exact used j open_

lemma elfLoad_keepsUsed {s : State F σ} {entry : Bool} (run : elfLoad D s = some (entry, s')) : KeepsUsed s s' := by
  unfold elfLoad at run
  cases stat : vfsStat D s initElf with
  | none =>
    rw [stat] at run
    cases run
  | some r =>
    obtain ⟨r, stSize, mode, s1⟩ := r
    have slots : s1.openFiles = s.openFiles := vfsStat_slots stat
    rw [stat] at run
    dsimp only at run
    split_ifs at run
    · cases run
      exact .of_eq slots
    · cases run
      exact .of_eq slots
    · cases opens : vfsOpen D s1 initElf 0 with
      | none =>
        rw [opens] at run
        cases run
      | some r =>
        obtain ⟨fd, s2⟩ := r
        rw [opens] at run
        dsimp only at run
        split_ifs at run with failed
        · cases run
          exact (KeepsUsed.of_eq slots).trans (vfsOpen_fills keeps opens).1
        · rw [Option.some.injEq] at run
          have others := elfLoadOpened_others keeps fd s2 stSize
          rw [run] at others
          exact (KeepsUsed.of_eq slots).trans (opened_keepsUsed keeps opens failed others)

lemma processExec_keepsUsed {s : State F σ} (run : processExec D s path = some (ret, s')) : KeepsUsed s s' := by
  unfold processExec at run
  cases opens : vfsOpen D s path 0 with
  | none =>
    rw [opens] at run
    cases run
  | some r =>
    obtain ⟨fd, s1⟩ := r
    rw [opens] at run
    dsimp only at run
    split_ifs at run with failed
    · cases run
      exact (vfsOpen_fills keeps opens).1
    · have others := execRead_others keeps fd s1
      cases read : execRead D s1 fd with
      | mk ok s2 =>
        rw [read] at run others
        have used : KeepsUsed s s2 := opened_keepsUsed keeps opens failed others
        cases ok with
        | false =>
          cases run
          exact used
        | true =>
          dsimp only at run
          cases load : elfLoad D s2 with
          | none =>
            rw [load] at run
            cases run
          | some r =>
            obtain ⟨entry, s3⟩ := r
            rw [load] at run
            cases run
            exact used.trans (elfLoad_keepsUsed keeps load)

end Quiet

/-! ## Runs. -/

/-- What the open descriptors stand for: a named file is in its slot, as the requests on it have left it. -/
def Holds (s : State F σ) (H : Nat → Option (Opened F)) : Prop :=
  ∀ i o, H i = some o → o.file.name ≠ [] → i < MAX_OPEN_FILES ∧ s.openFiles i = o.slot ∧
    o.slot.identity = o.file.identity

/-- A slot that holds a named file is in use. -/
lemma Holds.used (h : Holds s H) (opened : H i = some o) (named : o.file.name ≠ []) : (s.openFiles i).name ≠ [] := by
  obtain ⟨-, slot, same⟩ := h i o opened named
  rw [slot, identity_name same]
  exact named

/-- A request that keeps the slots in use. -/
lemma Holds.kept (h : Holds s H) (used : KeepsUsed s s') : Holds s' H := by
  intro i o opened named
  obtain ⟨lt, slot, same⟩ := h i o opened named
  exact ⟨lt, (used i (h.used opened named)).trans slot, same⟩

/-- A transfer on a descriptor. -/
lemma Holds.within (h : Holds s H) (w : Within Node.identity s s' fd) :
    Holds s' fun i => if (i : Int) = fd then (H i).map fun o => { o with slot := s'.openFiles i } else H i := by
  intro i o opened named
  dsimp only at opened
  by_cases own : (i : Int) = fd
  · rw [if_pos own] at opened
    cases before : H i with
    | none =>
      rw [before] at opened
      cases opened
    | some o' =>
      rw [before] at opened
      cases opened
      obtain ⟨lt, slot, same⟩ := h i o' before named
      exact ⟨lt, rfl, ((w.same i).trans (congrArg Node.identity slot)).trans same⟩
  · rw [if_neg own] at opened
    obtain ⟨lt, slot, same⟩ := h i o opened named
    exact ⟨lt, (w.others i own).trans slot, same⟩

lemma Holds.close (h : Holds s H) :
    Holds (vfsClose D s fd).2 fun i => if (i : Int) = fd then none else H i := by
  intro i o opened named
  dsimp only at opened
  by_cases own : (i : Int) = fd
  · rw [if_pos own] at opened
    cases opened
  · rw [if_neg own] at opened
    obtain ⟨lt, slot, same⟩ := h i o opened named
    exact ⟨lt, (vfsClose_others i own).trans slot, same⟩

lemma sysRead_within (keeps : KeepsFiles D) (run : sysRead D m fd buf count = some (ret, bytes, m')) :
    Within Node.identity m.fs m'.fs fd := by
  unfold sysRead at run
  split_ifs at run
  · cases run
    exact .refl
  · cases terminal : loop (Tty.readBody count) ([], m.tty) with
    | none =>
      rw [terminal] at run
      cases run
    | some r =>
      rw [terminal] at run
      cases run
      exact .refl
  · cases run
    exact vfsRead_identity keeps

lemma sysWrite_within (keeps : KeepsFiles D) : Within Node.identity m.fs (sysWrite D m fd buf bytes).2.fs fd := by
  unfold sysWrite
  split_ifs
  · exact .refl
  · exact vfsWrite_identity keeps

lemma sysExecve_keepsUsed (keeps : KeepsFiles D) {current : Bool}
    (run : sysExecve D m current path = some (ret, m')) : KeepsUsed m.fs m'.fs := by
  unfold sysExecve at run
  split_ifs at run
  · cases run
    exact .of_eq rfl
  · cases exec : processExec D m.fs path with
    | none =>
      rw [exec] at run
      cases run
    | some r =>
      obtain ⟨r, fs⟩ := r
      rw [exec] at run
      cases run
      exact processExec_keepsUsed keeps exec

/-- An opened descriptor stands for the file found or created. -/
lemma Holds.open_ (h : Holds m.fs H) (keeps : KeepsFiles D) {flags : UInt32}
    (run : vfsOpen D m.fs path flags = some (ret, m'.fs)) :
    Holds m'.fs ((Request.open_ path flags).opened D m m' ret H) := by
  obtain ⟨used, neg | ⟨i, n, s0, k, rfl, lt, -, target, same, slots⟩⟩ := vfsOpen_fills keeps run
  · have opened : (Request.open_ path flags).opened D m m' ret H = H := by
      unfold Request.opened
      dsimp only
      split
      · exact if_neg (not_le.mpr neg)
      · rfl
    rw [opened]
    exact h.kept used
  · have opened : (Request.open_ path flags).opened D m m' i H =
        Function.update H i (some ⟨n, m'.fs.openFiles i⟩) := by
      unfold Request.opened
      dsimp only
      rw [target]
      exact if_pos (Int.natCast_nonneg i)
    rw [opened]
    intro j o found named
    by_cases e : j = i
    · subst e
      rw [Function.update_self] at found
      cases found
      refine ⟨lt, rfl, ?_⟩
      dsimp only
      rw [slots, Function.update_self]
      exact same
    · rw [Function.update_of_ne e] at found
      exact h.kept used j o found named

/-- Every request keeps track of the open descriptors. -/
lemma Holds.step (h : Holds m.fs H) (keeps : KeepsFiles D) {c : Request} (run : c.run D m = some (ret, bytes, m')) :
    Holds m'.fs (c.opened D m m' ret H) := by
  cases c with
  | fork pid =>
    cases run
    refine h.kept (.of_eq ?_)
    unfold sysFork
    cases oom : m.fs.oom m.fs.calls with
    | true =>
      rw [kmalloc_none oom]
      rfl
    | false =>
      rw [kmalloc_some oom]
      rfl
  | read fd buf count => exact h.within (sysRead_within keeps run)
  | write fd buf bytes =>
    cases run
    exact h.within (sysWrite_within keeps)
  | open_ path flags =>
    cases opens : vfsOpen D m.fs path flags with
    | none =>
      rw [Request.run, sysOpen, opens] at run
      cases run
    | some r =>
      rw [Request.run, sysOpen, opens] at run
      cases run
      exact h.open_ keeps opens
  | close fd =>
    cases run
    exact h.close
  | execve current path =>
    cases exec : sysExecve D m current path with
    | none =>
      rw [Request.run, exec] at run
      cases run
    | some r =>
      rw [Request.run, exec] at run
      cases run
      exact h.kept (sysExecve_keepsUsed keeps exec)

/-- In every run, the open descriptors of named files hold them. -/
lemma Run.holds (keeps : KeepsFiles D) (run : Run D m0 m H) : Holds m.fs H := by
  induction run with
  | start => exact fun i o opened => nomatch opened
  | step _ request ih => exact ih.step keeps request

/-! ## Where transfers go. -/

/-- A transfer is the file's when it meets the condition. -/
lemma Meets.run {fd : Nat} {x : Transfer} (h : Meets D m.fs fd x) :
    (x.request fd).run D m = some ((x.onFile D m.fs fd).1, (x.onFile D m.fs fd).2.1,
      { m with fs := (x.onFile D m.fs fd).2.2 }) := by
  cases x with
  | read buf count =>
    change sysRead D m fd buf count = _
    by_cases stdin : fd = 0
    · obtain ⟨rfl, same⟩ := h stdin
      rw [sysRead, if_pos (by omega), if_pos (.inr rfl), Transfer.onFile, same]
    · rw [sysRead, if_neg (by omega)]
      rfl
  | write buf bytes =>
    change some ((sysWrite D m fd buf bytes).1, [], (sysWrite D m fd buf bytes).2) = _
    by_cases stdout : fd = 1 ∨ fd = 2
    · obtain ⟨silent, same⟩ := h stdout
      rw [sysWrite, if_pos (by omega), write_silent silent, Transfer.onFile, same]
    · rw [sysWrite, if_neg (by omega)]
      rfl

/-- A read from the terminal is the file's only when it asks for no bytes and the file has none to give. -/
lemma sysRead_terminal (isOpen : openFile m.fs 0 = some 0)
    (result : sysRead D m 0 buf count = some ((vfsRead D m.fs 0 buf count).1, (vfsRead D m.fs 0 buf count).2.1,
      { m with fs := (vfsRead D m.fs 0 buf count).2.2 })) :
    count = 0 ∧ vfsRead D m.fs 0 buf 0 = (0, [], m.fs) := by
  rw [sysRead, if_pos rfl] at result
  by_cases idle : buf = 0 ∨ count = 0
  · rw [if_pos idle, Option.some.injEq] at result
    obtain ⟨ret, result⟩ := Prod.mk.inj result
    obtain ⟨bytes, left⟩ := Prod.mk.inj result
    have fs : m.fs = (vfsRead D m.fs 0 buf count).2.2 := congrArg Machine.fs left
    have same : vfsRead D m.fs 0 buf count = (0, [], m.fs) := Prod.ext ret.symm (Prod.ext bytes.symm fs.symm)
    obtain rfl | rfl := idle
    · -- a null buffer is refused by the file
      rw [vfsRead, isOpen] at ret
      exact absurd ret (by decide : (0 : Int) ≠ -EINVAL)
    · exact ⟨rfl, same⟩
  · rw [if_neg idle] at result
    cases terminal : loop (Tty.readBody count) ([], m.tty) with
    | none =>
      rw [terminal] at result
      cases result
    | some r =>
      obtain ⟨out, tty⟩ := r
      have polls := readLoop_polls (not_or.mp idle).2 terminal
      rw [terminal, Option.some.injEq] at result
      obtain ⟨-, result⟩ := Prod.mk.inj result
      have left : tty = m.tty := congrArg Machine.tty (Prod.mk.inj result).2
      rw [left] at polls
      exact absurd polls (lt_irrefl _)

/-- A transfer on an open slot that is the file's meets the condition. -/
lemma Directed.meets {fd : Nat} {x : Transfer} (h : Directed D m fd o x) : Meets D m.fs fd x := by
  have result := h.result
  cases x with
  | read buf count =>
    rintro rfl
    exact sysRead_terminal h.isOpen result
  | write buf bytes =>
    intro stdout
    change some ((sysWrite D m fd buf bytes).1, [], (sysWrite D m fd buf bytes).2) =
      some ((vfsWrite D m.fs fd buf bytes).1, [], { m with fs := (vfsWrite D m.fs fd buf bytes).2 }) at result
    rw [sysWrite, if_pos (by omega), Option.some.injEq] at result
    obtain ⟨ret, result⟩ := Prod.mk.inj result
    have left := (Prod.mk.inj result).2
    have fs : m.fs = (vfsWrite D m.fs fd buf bytes).2 := congrArg Machine.fs left
    have tty : m.tty.write bytes = m.tty := congrArg Machine.tty left
    exact ⟨write_eq_iff.mp tty, Prod.ext ret.symm fs.symm⟩

/-- A transfer on a descriptor that `sys_open` returned goes to the file if and only if the file has a name and the
    transfer meets the condition. -/
theorem directed_iff (keeps : KeepsFiles D) (run : Run D m0 m H) {fd : Nat} (opened : H fd = some o) (x : Transfer) :
    Directed D m fd o x ↔ o.file.name ≠ [] ∧ Meets D m.fs fd x := by
  have holds := run.holds keeps
  constructor
  · intro h
    refine ⟨?_, h.meets⟩
    obtain ⟨-, -, open_⟩ := openFile_eq_some.mp h.isOpen
    rw [h.slot, identity_name h.file] at open_
    exact open_
  · rintro ⟨named, meets⟩
    obtain ⟨lt, slot, same⟩ := holds fd o opened named
    exact ⟨openFile_eq_some.mpr ⟨rfl, lt, holds.used opened named⟩, slot, same, meets.run⟩

/-! ## The first descriptor. -/

/-- A terminal at which someone holds down `k`. -/
def keyHeld : Tty where
  keyboard _ := some 0x6B
  serialIn _ := none
  keyboardPolls := 0
  serialPolls := 0
  serialReady := true
  console := []
  serial := []

/-- The terminal after one `k` was read. -/
def keyTaken : Tty := { keyHeld with keyboardPolls := 1, console := [0x6B], serial := [0x6B] }

/-- The machine on which `/a` was opened first. -/
def notesOpened : Machine Unit (Unit × Nat) := ⟨notesRoot.setOpenFile 0 notes, keyHeld⟩

lemma notes_keepsFiles : KeepsFiles (counted notesDriver) := by
  refine ⟨fun _ _ _ _ _ => rfl, fun _ _ _ _ _ => rfl, fun _ _ _ _ => rfl, fun _ _ _ _ => ?_⟩
  exact le_rfl

lemma notes_run : Run (counted notesDriver) ⟨notesRoot, keyHeld⟩ notesOpened
    (Function.update (fun _ => none) 0 (some ⟨notes, notes⟩)) := by
  have request : (Request.open_ [0x2F, 0x61] O_RDWR).run (counted notesDriver) ⟨notesRoot, keyHeld⟩ =
      some (0, [], notesOpened) := by
    rw [Request.run, sysOpen, notes_opened (by decide) (by decide) (by decide)]
    rfl
  have opened : (Request.open_ [0x2F, 0x61] O_RDWR).opened (counted notesDriver) ⟨notesRoot, keyHeld⟩ notesOpened 0
      (fun _ => none) = Function.update (fun _ => none) 0 (some ⟨notes, notes⟩) := by
    unfold Request.opened
    dsimp only
    rw [notes_found]
    rfl
  have run := Run.step (D := counted notesDriver) .start request
  rw [opened] at run
  exact run

/-- A write on the descriptor 0 of `/a`. -/
theorem directed_notes : ∃ H, Run (counted notesDriver) ⟨notesRoot, keyHeld⟩ notesOpened H ∧
    (Directed (counted notesDriver) notesOpened 0 ⟨notes, notes⟩ (.write 1 [0x42]) ↔
      notes.name ≠ [] ∧ Meets (counted notesDriver) notesOpened.fs 0 (.write 1 [0x42])) :=
  ⟨_, notes_run, directed_iff notes_keepsFiles notes_run (Function.update_self ..) _⟩

/-- A read on the descriptor 0 of `/a` delivers the key, and not the `A` in the file. -/
theorem key_read : ∃ H, Run (counted notesDriver) ⟨notesRoot, keyHeld⟩ notesOpened H ∧ H 0 = some ⟨notes, notes⟩ ∧
    (vfsRead (counted notesDriver) notesOpened.fs 0 1 1).2.1 = [0x41] ∧
      (∃ m, sysRead (counted notesDriver) notesOpened 0 1 1 = some (1, [0x6B], m)) ∧
        ¬ Directed (counted notesDriver) notesOpened 0 ⟨notes, notes⟩ (.read 1 1) := by
  refine ⟨_, notes_run, Function.update_self .., rfl, ?_, fun directed => ?_⟩
  · have key : Tty.readBody 1 ([], keyHeld) = .next ([0x6B], keyTaken) := rfl
    have full : Tty.readBody 1 ([0x6B], keyTaken) = .done ([0x6B], keyTaken) := rfl
    have terminal : loop (Tty.readBody 1) ([], notesOpened.tty) = some ([0x6B], keyTaken) :=
      (loop_next key).trans (loop_done full)
    refine ⟨{ notesOpened with tty := keyTaken }, ?_⟩
    rw [sysRead, if_pos rfl, if_neg (by decide), terminal]
    rfl
  · have meets := directed.meets rfl
    exact absurd meets.1 (by decide)

end RetaOS.Syscall
