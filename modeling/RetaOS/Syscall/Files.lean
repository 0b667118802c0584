import RetaOS.Elf.Defs

/-!
# System calls on files

`sys_read`, `sys_write`, `sys_open` and `sys_close` of `kernel/syscalls.c`, with the terminal that the first two
use for the standard streams, and the other calls that touch the file system: `sys_fork`, which allocates, and
`sys_execve`, whose `process_exec` and `elf_load` read files through descriptors of their own. The remaining calls
change neither. What the kernel logs on the serial line is left out. `none` is a call that never returns; one
that waits for a key lets other threads run, and counts as made when it returns.
-/

namespace RetaOS.Syscall
open Lib Vfs

/-! ## The terminal. -/

/-- The devices behind the standard streams: what each poll of the keyboard and of the serial port finds, how often
    they were polled, and what was written to the console and to the serial port. -/
structure Tty where
  keyboard : Nat → Option UInt8
  serialIn : Nat → Option UInt8
  keyboardPolls : Nat
  serialPolls : Nat
  serialReady : Bool
  console : List UInt8
  serial : List UInt8

namespace Tty

/-- `keyboard_getchar_nonblock`. -/
def keyboardGetcharNonblock (t : Tty) : Option UInt8 × Tty :=
  (t.keyboard t.keyboardPolls, { t with keyboardPolls := t.keyboardPolls + 1 })

/-- `serial_getchar_nonblock`. -/
def serialGetcharNonblock (t : Tty) : Option UInt8 × Tty :=
  (if t.serialReady then t.serialIn t.serialPolls else none, { t with serialPolls := t.serialPolls + 1 })

/-- `console_putc`. -/
def consolePutc (t : Tty) (ch : UInt8) : Tty := { t with console := t.console ++ [ch] }

/-- `serial_write` of the bytes before the first `NUL`. -/
def serialWrite (t : Tty) (s : List UInt8) : Tty :=
  if t.serialReady then { t with serial := t.serial ++ s.takeWhile (· != 0) } else t

/-- A character on the console and on the serial port. -/
def put (t : Tty) (ch : UInt8) : Tty := (t.consolePutc ch).serialWrite [ch, 0]

/-- A character from the keyboard, else from the serial port with `CR` as `LF`. -/
def getchar (t : Tty) : Option UInt8 × Tty :=
  match t.keyboardGetcharNonblock with
  | (some ch, t) => (some ch, t)
  | (none, t) =>
    let (ch, t) := t.serialGetcharNonblock
    (if ch = some 0x0D then some 0x0A else ch, t)

/-- One pass of the loop of `sys_read`, over the characters read; without one it yields. -/
def readBody (count : UInt32) : List UInt8 × Tty → Pass (List UInt8 × Tty) (List UInt8 × Tty)
  | (out, t) =>
    if out.length < count.toNat then
      match t.getchar with
      | (some ch, t) => if ch = 0x0A then .done (out ++ [ch], t.put ch) else .next (out ++ [ch], t.put ch)
      | (none, t) => .next (out, t)
    else .done (out, t)

/-- The loop of `sys_write`. -/
def write (t : Tty) : List UInt8 → Tty
  | [] => t
  | ch :: str => if ch = 0 then t else write (t.put ch) str

end Tty

/-! ## Reads and writes. -/

/-- What the system calls on files work on. -/
structure Machine (F σ : Type) where
  fs : State F σ
  tty : Tty

variable {F σ : Type}

/-- `sys_read`: the value returned and the bytes put at `buf`. -/
def sysRead (D : Driver F σ) (m : Machine F σ) (fd : Int) (buf count : UInt32) :
    Option (Int × List UInt8 × Machine F σ) :=
  if fd = 0 then
    if buf = 0 ∨ count = 0 then some (0, [], m)
    else
      match loop (Tty.readBody count) ([], m.tty) with
      | none => none
      | some (out, tty) => some ((UInt32.ofNat out.length).toInt32.toInt, out, { m with tty })
  else
    let (ret, bytes, fs) := vfsRead D m.fs fd buf count
    some (ret, bytes, { m with fs })

/-- `sys_write` of the bytes at `buf`. -/
def sysWrite (D : Driver F σ) (m : Machine F σ) (fd : Int) (buf : UInt32) (bytes : List UInt8) :
    Int × Machine F σ :=
  if fd = 1 ∨ fd = 2 then ((UInt32.ofNat bytes.length).toInt32.toInt, { m with tty := m.tty.write bytes })
  else
    let (ret, fs) := vfsWrite D m.fs fd buf bytes
    (ret, { m with fs })

/-- `sys_open`. -/
def sysOpen (D : Driver F σ) (m : Machine F σ) (filename : List UInt8) (flags : UInt32) :
    Option (Int × Machine F σ) :=
  (vfsOpen D m.fs filename flags).map fun r => (r.1, { m with fs := r.2 })

/-- `sys_close`. -/
def sysClose (D : Driver F σ) (m : Machine F σ) (fd : Int) : Int × Machine F σ :=
  ((vfsClose D m.fs fd).1, { m with fs := (vfsClose D m.fs fd).2 })

/-! ## Programs. -/

/-- `/bin/init.elf`. -/
def initElf : List UInt8 := [0x2F, 0x62, 0x69, 0x6E, 0x2F, 0x69, 0x6E, 0x69, 0x74, 0x2E, 0x65, 0x6C, 0x66]

/-- The address of a buffer of the kernel: any that is not null. -/
def kernelBuffer : UInt32 := 0x100000

/-- `elf_load` from the first read on: whether it returns the file. -/
def elfLoadOpened (D : Driver F σ) (s : State F σ) (fd : Int) (stSize : UInt32) : Bool × State F σ :=
  let (rd, eh, s) := vfsRead D s fd kernelBuffer (UInt32.ofNat Elf.sizeofEhdr)
  if rd < Elf.sizeofEhdr then (false, (vfsClose D s fd).2)
  else if eh.take 4 ≠ [0x7F, 0x45, 0x4C, 0x46] then (false, (vfsClose D s fd).2)
  else
    match s.kmalloc with
    | (none, s) => (false, (vfsClose D s fd).2)
    | (some _, s) =>
      let (rd, _, s) := vfsRead D s fd kernelBuffer stSize
      if rd < stSize.toInt32.toInt then (false, (vfsClose D s fd).2) else (true, (vfsClose D s fd).2)

/-- `elf_load`, which looks at `/bin/init.elf` and not at its arguments. -/
def elfLoad (D : Driver F σ) (s : State F σ) : Option (Bool × State F σ) :=
  match vfsStat D s initElf with
  | none => none
  | some (ret, stSize, _, s) =>
    if ret < 0 then some (false, s)
    else if stSize < UInt32.ofNat Elf.sizeofEhdr then some (false, s)
    else
      match vfsOpen D s initElf 0 with
      | none => none
      | some (fd, s) => if fd < 0 then some (false, s) else some (elfLoadOpened D s fd stSize)

/-- `vfs_size`. -/
def vfsSize (s : State F σ) (fd : Int) : Int :=
  match openFile s fd with
  | none => -EBADF
  | some i => (s.openFiles i).size.toInt32.toInt

/-- `process_exec` from the size of the file to its `vfs_close`: whether the file was read. -/
def execRead (D : Driver F σ) (s : State F σ) (fd : Int) : Bool × State F σ :=
  let size := UInt32.ofInt (vfsSize s fd)
  if size = 0 then (false, (vfsClose D s fd).2)
  else
    match s.kmalloc with
    | (none, s) => (false, (vfsClose D s fd).2)
    | (some _, s) =>
      let (r, _, s) := vfsRead D s fd kernelBuffer size
      (r = size.toInt32.toInt, (vfsClose D s fd).2)

/-- `process_exec` of a process. -/
def processExec (D : Driver F σ) (s : State F σ) (path : List UInt8) : Option (Int × State F σ) :=
  match vfsOpen D s path 0 with
  | none => none
  | some (fd, s) =>
    if fd < 0 then some (-1, s)
    else
      match execRead D s fd with
      | (false, s) => some (-1, s)
      | (true, s) =>
        match elfLoad D s with
        | none => none
        | some (entry, s) => some (if entry then 0 else -1, s)

/-- `sys_execve`; `current` says whether there is a current process. -/
def sysExecve (D : Driver F σ) (m : Machine F σ) (current : Bool) (path : List UInt8) :
    Option (Int × Machine F σ) :=
  if current = false then some (-1, m)
  else
    match processExec D m.fs path with
    | none => none
    | some (r, fs) => some (if r < 0 then -1 else 0, { m with fs })

/-- `sys_fork`; the child gets the number `pid`. -/
def sysFork (m : Machine F σ) (pid : Int) : Int × Machine F σ :=
  match m.fs.kmalloc with
  | (none, fs) => (-1, { m with fs })
  | (some _, fs) => (pid, { m with fs })

/-! ## Requests. -/

/-- The system calls that touch the file system or the terminal. -/
inductive Request where
  | fork (pid : Int)
  | read (fd : Int) (buf count : UInt32)
  | write (fd : Int) (buf : UInt32) (bytes : List UInt8)
  | open_ (filename : List UInt8) (flags : UInt32)
  | close (fd : Int)
  | execve (current : Bool) (path : List UInt8)

/-- The value a call returns, the bytes put in the caller's buffer, and the state it leaves. -/
def Request.run (D : Driver F σ) (m : Machine F σ) : Request → Option (Int × List UInt8 × Machine F σ)
  | .fork pid => some ((sysFork m pid).1, [], (sysFork m pid).2)
  | .read fd buf count => sysRead D m fd buf count
  | .write fd buf bytes => some ((sysWrite D m fd buf bytes).1, [], (sysWrite D m fd buf bytes).2)
  | .open_ filename flags => (sysOpen D m filename flags).map fun r => (r.1, [], r.2)
  | .close fd => some ((sysClose D m fd).1, [], (sysClose D m fd).2)
  | .execve current path => (sysExecve D m current path).map fun r => (r.1, [], r.2)

end RetaOS.Syscall
