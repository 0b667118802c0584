import RetaOS.Syscall.Files

/-!
# Loading a program into a process

`elf_load` of `kernel/elf.c` and `process_exec` of `kernel/process.c`, with the buffers they allocate and the
`process_t` they fill in memory. Both read through a descriptor of their own into a block of the kernel heap, and
`process_exec` holds a second block meanwhile. `none` is a call that never returns.
-/

namespace RetaOS.Elf
open Lib Vfs Initrd

/-! ## `elf_load`. -/

/-- `vfs_read` into memory of the kernel. -/
def readInto (s : State) (fd : Int) (buf count : UInt32) : Int × State :=
  let (rd, bytes, s) := vfsRead tarDriver s fd buf count
  (rd, setHeap s { s.drv.heap with mem := s.drv.heap.mem.storeBytes buf bytes })

/-- The magic number of an ELF file. -/
@[reducible] def elfMagic : List UInt8 := [0x7F, 0x45, 0x4C, 0x46]

/-- `elf_load` from the second read on, with the header in `eh` and the block for the file at `elfData`. -/
def elfLoadRead (s : State) (fd : Int) (eh : Ehdr) (elfData elfSize : UInt32) : Option (UInt32 × State) :=
  let (rd, s) := readInto s fd elfData elfSize
  if rd < elfSize.toInt32.toInt then
    match Kheap.kfree s.drv.heap elfData with
    | none => none
    | some heap => some (0, (vfsClose tarDriver (setHeap s heap) fd).2)
  else
    let s := (vfsClose tarDriver s fd).2
    if eh.eIdent.take 4 ≠ elfMagic then
      match Kheap.kfree s.drv.heap elfData with
      | none => none
      | some heap => some (0, setHeap s heap)
    else some (elfData, s)

/-- `elf_load` from the first read on, with the header at `ehAddr`. -/
def elfLoadOpened (ehAddr : UInt32) (s : State) (fd : Int) (elfSize : UInt32) : Option (UInt32 × State) :=
  let (rd, bytes, s) := vfsRead tarDriver s fd ehAddr (UInt32.ofNat sizeofEhdr)
  let eh := Ehdr.ofBytes bytes
  if rd < sizeofEhdr then some (0, (vfsClose tarDriver s fd).2)
  else if eh.eIdent.take 4 ≠ elfMagic then some (0, (vfsClose tarDriver s fd).2)
  else
    match Kheap.kmalloc s.drv.heap elfSize with
    | none => none
    | some (elfData, heap) =>
      if elfData = 0 then some (0, (vfsClose tarDriver (setHeap s heap) fd).2)
      else elfLoadRead (setHeap s heap) fd eh elfData elfSize

/-- `elf_load`, which looks at `/bin/init.elf` and not at its arguments. -/
def elfLoad (ehAddr : UInt32) (s : State) (_data _size : UInt32) : Option (UInt32 × State) :=
  match vfsStat tarDriver s Syscall.initElf with
  | none => none
  | some (ret, stSize, _, s) =>
    if ret < 0 then some (0, s)
    else if stSize < UInt32.ofNat sizeofEhdr then some (0, s)
    else
      match vfsOpen tarDriver s Syscall.initElf 0 with
      | none => none
      | some (fd, s) => if fd < 0 then some (0, s) else elfLoadOpened ehAddr s fd stSize

/-! ## `process_exec`. -/

/-- `sizeof(process_t)`. -/
def sizeofProcess : Nat := 68

/-- `PROC_READY`. -/
def PROC_READY : UInt32 := 2

/-- The end of `process_exec`, once the file is loaded: `proc->uc` and `proc->state` are filled. -/
def startContext (m : Memory) (proc entry : UInt32) : Memory :=
  let userStackTop : UInt32 := 0x003FF000
  let userStackSize : UInt32 := 0x20000
  let uc := proc + 24
  let m := m.storeBytes uc (List.replicate 36 0)
  let m := m.store32 uc entry
  let m := m.store32 (uc + 8) 0x200
  let m := m.store32 (uc + 12) 0x23
  let m := m.store32 (uc + 16) 0x2B
  let m := m.store32 (uc + 20) 0x2B
  let m := m.store32 (uc + 24) 0x2B
  let m := m.store32 (uc + 28) 0x2B
  let m := m.store32 (uc + 32) 0x2B
  let m := m.store32 (uc + 4) (userStackTop + userStackSize - 16)
  m.store32 (proc + 8) PROC_READY

/-- `process_exec` once the file is in memory and closed. -/
def execLoad (ehAddr : UInt32) (s : State) (proc fileData size : UInt32) : Option (Int × State) :=
  match elfLoad ehAddr s fileData size with
  | none => none
  | some (entry, s) =>
    match Kheap.kfree s.drv.heap fileData with
    | none => none
    | some heap =>
      if entry = 0 then some (-1, setHeap s heap)
      else some (0, setHeap s { heap with mem := startContext heap.mem proc entry })

/-- `process_exec` from the read on, with the block for the file at `fileData`. -/
def execFile (ehAddr : UInt32) (s : State) (proc : UInt32) (fd : Int) (fileData size : UInt32) :
    Option (Int × State) :=
  let (r, s) := readInto s fd fileData size
  if r ≠ size.toInt32.toInt then
    match Kheap.kfree s.drv.heap fileData with
    | none => none
    | some heap => some (-1, (vfsClose tarDriver (setHeap s heap) fd).2)
  else execLoad ehAddr (vfsClose tarDriver s fd).2 proc fileData size

/-- `process_exec`. -/
def processExec (ehAddr : UInt32) (s : State) (proc : UInt32) (path : Option (List UInt8)) : Option (Int × State) :=
  match path with
  | none => some (-1, s)
  | some path =>
    if proc = 0 then some (-1, s)
    else
      match vfsOpen tarDriver s path 0 with
      | none => none
      | some (fd, s) =>
        if fd < 0 then some (-1, s)
        else
          let size := UInt32.ofInt (Syscall.vfsSize s fd)
          if size = 0 then some (-1, (vfsClose tarDriver s fd).2)
          else
            match Kheap.kmalloc s.drv.heap size with
            | none => none
            | some (fileData, heap) =>
              let s := setHeap s heap
              if fileData = 0 then some (-1, (vfsClose tarDriver s fd).2)
              else execFile ehAddr s proc fd fileData size

end RetaOS.Elf
