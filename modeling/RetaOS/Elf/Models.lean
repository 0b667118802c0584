import RetaOS.Elf.Load
import RetaOS.Process.Defs

/-!
# The loader in its models

`elf_load` and `process_exec` stand in three places: with the memory and the kernel heap (`Elf.Load`), over any driver
and without the buffers (`Syscall.Files`), and as what becomes of a process control block (`Process.Defs`). Here they
are written once, over the calls that they make (`Calls`). The first two models are that text with their own calls, and
the end of the first does to the `process_t` in memory what the third does to the block.
-/

namespace RetaOS.Elf
open Lib Vfs Initrd

/-! ## The text. -/

/-- The calls of `elf_load` and `process_exec`, over the state of a model. `header` is a read into a local variable. -/
structure Calls (S : Type) where
  vfsStat : S → List UInt8 → Option (Int × UInt32 × UInt32 × S)
  vfsOpen : S → List UInt8 → UInt32 → Option (Int × S)
  vfsSize : S → Int → Int
  header : S → Int → UInt32 → UInt32 → Int × List UInt8 × S
  vfsRead : S → Int → UInt32 → UInt32 → Int × S
  vfsClose : S → Int → Int × S
  kmalloc : S → UInt32 → Option (UInt32 × S)
  kfree : S → UInt32 → Option S

namespace Calls
variable {S : Type} (C : Calls S)

/-- `elf_load` from the second read on. -/
def elfLoadRead (s : S) (fd : Int) (ident : List UInt8) (elfData elfSize : UInt32) : Option (UInt32 × S) :=
  let (rd, s) := C.vfsRead s fd elfData elfSize
  if rd < elfSize.toInt32.toInt then
    match C.kfree s elfData with
    | none => none
    | some s => some (0, (C.vfsClose s fd).2)
  else
    let s := (C.vfsClose s fd).2
    if ident ≠ elfMagic then
      match C.kfree s elfData with
      | none => none
      | some s => some (0, s)
    else some (elfData, s)

/-- `elf_load` from the first read on. -/
def elfLoadOpened (ehAddr : UInt32) (s : S) (fd : Int) (elfSize : UInt32) : Option (UInt32 × S) :=
  let (rd, bytes, s) := C.header s fd ehAddr (UInt32.ofNat sizeofEhdr)
  if rd < sizeofEhdr then some (0, (C.vfsClose s fd).2)
  else if bytes.take 4 ≠ elfMagic then some (0, (C.vfsClose s fd).2)
  else
    match C.kmalloc s elfSize with
    | none => none
    | some (elfData, s) =>
      if elfData = 0 then some (0, (C.vfsClose s fd).2) else C.elfLoadRead s fd (bytes.take 4) elfData elfSize

/-- `elf_load`. -/
def elfLoad (ehAddr : UInt32) (s : S) : Option (UInt32 × S) :=
  match C.vfsStat s Syscall.initElf with
  | none => none
  | some (ret, stSize, _, s) =>
    if ret < 0 then some (0, s)
    else if stSize < UInt32.ofNat sizeofEhdr then some (0, s)
    else
      match C.vfsOpen s Syscall.initElf 0 with
      | none => none
      | some (fd, s) => if fd < 0 then some (0, s) else C.elfLoadOpened ehAddr s fd stSize

/-- `process_exec` from the read on; `start` fills the process. -/
def execFile (start : S → UInt32 → S) (ehAddr : UInt32) (s : S) (fd : Int) (fileData size : UInt32) :
    Option (Int × S) :=
  let (r, s) := C.vfsRead s fd fileData size
  if r ≠ size.toInt32.toInt then
    match C.kfree s fileData with
    | none => none
    | some s => some (-1, (C.vfsClose s fd).2)
  else
    match C.elfLoad ehAddr (C.vfsClose s fd).2 with
    | none => none
    | some (entry, s) =>
      match C.kfree s fileData with
      | none => none
      | some s => if entry = 0 then some (-1, s) else some (0, start s entry)

/-- `process_exec` of a process. -/
def processExec (start : S → UInt32 → S) (ehAddr : UInt32) (s : S) (path : List UInt8) : Option (Int × S) :=
  match C.vfsOpen s path 0 with
  | none => none
  | some (fd, s) =>
    if fd < 0 then some (-1, s)
    else
      let size := UInt32.ofInt (C.vfsSize s fd)
      if size = 0 then some (-1, (C.vfsClose s fd).2)
      else
        match C.kmalloc s size with
        | none => none
        | some (fileData, s) =>
          if fileData = 0 then some (-1, (C.vfsClose s fd).2) else C.execFile start ehAddr s fd fileData size

variable {C} {start : S → UInt32 → S} {ehAddr : UInt32} {s s' : S}

lemma execFile_zero {fd : Int} {fileData size : UInt32}
    (run : C.execFile start ehAddr s fd fileData size = some (0, s')) : ∃ t entry, entry ≠ 0 ∧ s' = start t entry := by
  rw [execFile] at run
  dsimp only at run
  split_ifs at run with short
  · cases freed : C.kfree (C.vfsRead s fd fileData size).2 fileData with
    | none => simp [freed] at run
    | some t => simp [freed] at run
  · cases loaded : C.elfLoad ehAddr (C.vfsClose (C.vfsRead s fd fileData size).2 fd).2 with
    | none => simp [loaded] at run
    | some r =>
      obtain ⟨entry, t⟩ := r
      cases freed : C.kfree t fileData with
      | none => simp [loaded, freed] at run
      | some t =>
        simp only [loaded, freed] at run
        split_ifs at run with null
        · cases run
        · cases run
          exact ⟨t, entry, null, rfl⟩

/-- A call that returns 0 has started the process at an entry. -/
lemma processExec_zero {path : List UInt8} (run : C.processExec start ehAddr s path = some (0, s')) :
    ∃ t entry, entry ≠ 0 ∧ s' = start t entry := by
  rw [processExec] at run
  cases opened : C.vfsOpen s path 0 with
  | none => simp [opened] at run
  | some r =>
    obtain ⟨fd, t⟩ := r
    simp only [opened] at run
    split_ifs at run with failed empty
    · cases run
    · cases run
    · cases memory : C.kmalloc t (UInt32.ofInt (C.vfsSize t fd)) with
      | none => simp [memory] at run
      | some r =>
        obtain ⟨fileData, t⟩ := r
        simp only [memory] at run
        split_ifs at run with null
        · cases run
        · exact execFile_zero run

end Calls

/-! ## With the memory. -/

/-- The calls over the kernel heap and the mounted archive. -/
@[reducible] def kernelCalls : Calls State where
  vfsStat := vfsStat tarDriver
  vfsOpen := vfsOpen tarDriver
  vfsSize := Syscall.vfsSize
  header := vfsRead tarDriver
  vfsRead := readInto
  vfsClose := vfsClose tarDriver
  kmalloc s n := (Kheap.kmalloc s.drv.heap n).map fun r => (r.1, setHeap s r.2)
  kfree s p := (Kheap.kfree s.drv.heap p).map (setHeap s)

/-- What `process_exec` does to the process at `proc`. -/
def startProcess (proc : UInt32) (s : State) (entry : UInt32) : State :=
  setHeap s { s.drv.heap with mem := startContext s.drv.heap.mem proc entry }

lemma elfLoadRead_calls (s : State) (fd : Int) (eh : Ehdr) (elfData size : UInt32) :
    elfLoadRead s fd eh elfData size = kernelCalls.elfLoadRead s fd (eh.eIdent.take 4) elfData size := by
  rw [elfLoadRead, Calls.elfLoadRead]
  dsimp only [kernelCalls]
  split_ifs
  · cases Kheap.kfree (readInto s fd elfData size).2.drv.heap elfData with
    | none => rfl
    | some heap => rfl
  · cases Kheap.kfree (vfsClose tarDriver (readInto s fd elfData size).2 fd).2.drv.heap elfData with
    | none => rfl
    | some heap => rfl
  · rfl

/-- The magic number is looked at in the bytes that were read. -/
lemma ident_ofBytes (bs : List UInt8) : (Ehdr.ofBytes bs).eIdent.take 4 = bs.take 4 := by
  rw [Ehdr.ofBytes, List.take_take]
  rfl

lemma elfLoadOpened_calls (ehAddr : UInt32) (s : State) (fd : Int) (size : UInt32) :
    elfLoadOpened ehAddr s fd size = kernelCalls.elfLoadOpened ehAddr s fd size := by
  rw [elfLoadOpened, Calls.elfLoadOpened]
  dsimp only [kernelCalls]
  rw [ident_ofBytes]
  split_ifs
  · rfl
  · rfl
  · cases Kheap.kmalloc (vfsRead tarDriver s fd ehAddr (UInt32.ofNat sizeofEhdr)).2.2.drv.heap size with
    | none => rfl
    | some r =>
      dsimp only [Option.map_some]
      rw [elfLoadRead_calls, ident_ofBytes]

/-- The model with the memory is the text over its calls. -/
theorem elfLoad_calls (ehAddr : UInt32) (s : State) (data size : UInt32) :
    elfLoad ehAddr s data size = kernelCalls.elfLoad ehAddr s := by
  rw [elfLoad, Calls.elfLoad]
  dsimp only [kernelCalls]
  cases vfsStat tarDriver s Syscall.initElf with
  | none => rfl
  | some r =>
    obtain ⟨ret, stSize, mode, s1⟩ := r
    dsimp only
    split_ifs
    · rfl
    · rfl
    · cases vfsOpen tarDriver s1 Syscall.initElf 0 with
      | none => rfl
      | some r =>
        dsimp only
        rw [elfLoadOpened_calls]

lemma execFile_calls (ehAddr : UInt32) (s : State) (proc : UInt32) (fd : Int) (fileData size : UInt32) :
    execFile ehAddr s proc fd fileData size =
      kernelCalls.execFile (startProcess proc) ehAddr s fd fileData size := by
  rw [execFile, Calls.execFile]
  dsimp only
  rw [← elfLoad_calls ehAddr _ fileData size]
  by_cases short : (readInto s fd fileData size).1 ≠ size.toInt32.toInt
  · rw [if_pos short, if_pos short]
    cases Kheap.kfree (readInto s fd fileData size).2.drv.heap fileData with
    | none => rfl
    | some heap => rfl
  · rw [if_neg short, if_neg short, execLoad]
    cases elfLoad ehAddr (vfsClose tarDriver (readInto s fd fileData size).2 fd).2 fileData size with
    | none => rfl
    | some r =>
      obtain ⟨entry, s'⟩ := r
      dsimp only
      cases Kheap.kfree s'.drv.heap fileData with
      | none => rfl
      | some heap => rfl

/-- So is its `process_exec`. -/
theorem processExec_calls (ehAddr : UInt32) (s : State) {proc : UInt32} (path : List UInt8) (given : proc ≠ 0) :
    processExec ehAddr s proc (some path) = kernelCalls.processExec (startProcess proc) ehAddr s path := by
  rw [processExec, if_neg given, Calls.processExec]
  dsimp only [kernelCalls]
  cases vfsOpen tarDriver s path 0 with
  | none => rfl
  | some r =>
    obtain ⟨fd, s'⟩ := r
    dsimp only
    split_ifs
    · rfl
    · rfl
    · cases Kheap.kmalloc s'.drv.heap (UInt32.ofInt (Syscall.vfsSize s' fd)) with
      | none => rfl
      | some r =>
        dsimp only [Option.map_some]
        rw [execFile_calls]

/-! ## Over any driver. -/

section
variable {F σ : Type} {D : Driver F σ}

/-- The calls without the heap and the buffers: a block is at a place that is not null, if there is memory for it. -/
@[reducible] def fileCalls (D : Driver F σ) : Calls (Vfs.State F σ) where
  vfsStat := vfsStat D
  vfsOpen := vfsOpen D
  vfsSize := Syscall.vfsSize
  header := vfsRead D
  vfsRead s fd buf n := ((vfsRead D s fd buf n).1, (vfsRead D s fd buf n).2.2)
  vfsClose := vfsClose D
  kmalloc s _ :=
    match s.kmalloc with
    | (none, s) => some (0, s)
    | (some _, s) => some (Syscall.kernelBuffer, s)
  kfree s _ := some s

lemma kernelBuffer_ne : Syscall.kernelBuffer ≠ 0 := by decide

lemma elfLoadOpened_fileCalls (s : Vfs.State F σ) (fd : Int) (size : UInt32) :
    some (Syscall.elfLoadOpened D s fd size) =
      ((fileCalls D).elfLoadOpened Syscall.kernelBuffer s fd size).map fun r => (decide (r.1 ≠ 0), r.2) := by
  rw [Syscall.elfLoadOpened, Calls.elfLoadOpened]
  dsimp only [fileCalls, elfMagic]
  generalize vfsRead D s fd Syscall.kernelBuffer (UInt32.ofNat sizeofEhdr) = r
  obtain ⟨rd, eh, s1⟩ := r
  dsimp only
  by_cases short : rd < sizeofEhdr
  · rw [if_pos short, if_pos short]
    rfl
  · rw [if_neg short, if_neg short]
    by_cases magic : eh.take 4 ≠ [0x7F, 0x45, 0x4C, 0x46]
    · rw [if_pos magic, if_pos magic]
      rfl
    · rw [if_neg magic, if_neg magic]
      obtain ⟨memory, s2⟩ := s1.kmalloc
      cases memory with
      | none => rfl
      | some p =>
        -- the block is at a place of its own, so the second look at the magic number finds it again
        dsimp only
        rw [if_neg kernelBuffer_ne, Calls.elfLoadRead]
        dsimp only [elfMagic]
        by_cases cut : (vfsRead D s2 fd Syscall.kernelBuffer size).1 < size.toInt32.toInt
        · rw [if_pos cut, if_pos cut]
          rfl
        · rw [if_neg cut, if_neg cut, if_neg magic]
          rfl

/-- The model without the buffers is the text over its calls. -/
theorem elfLoad_fileCalls (s : Vfs.State F σ) : Syscall.elfLoad D s =
    ((fileCalls D).elfLoad Syscall.kernelBuffer s).map fun r => (decide (r.1 ≠ 0), r.2) := by
  rw [Syscall.elfLoad, Calls.elfLoad]
  dsimp only [fileCalls]
  cases vfsStat D s Syscall.initElf with
  | none => rfl
  | some r =>
    obtain ⟨ret, stSize, mode, s1⟩ := r
    dsimp only
    split_ifs
    · rfl
    · rfl
    · cases vfsOpen D s1 Syscall.initElf 0 with
      | none => rfl
      | some r =>
        dsimp only
        split_ifs
        · rfl
        · exact elfLoadOpened_fileCalls _ _ _

/-- So is its `process_exec`. -/
theorem processExec_fileCalls (s : Vfs.State F σ) (path : List UInt8) : Syscall.processExec D s path =
    (fileCalls D).processExec (fun s _ => s) Syscall.kernelBuffer s path := by
  rw [Syscall.processExec, Calls.processExec]
  dsimp only [fileCalls]
  cases vfsOpen D s path 0 with
  | none => rfl
  | some r =>
    obtain ⟨fd, s1⟩ := r
    dsimp only
    by_cases failed : fd < 0
    · rw [if_pos failed, if_pos failed]
    · rw [if_neg failed, if_neg failed, Syscall.execRead]
      dsimp only
      by_cases empty : UInt32.ofInt (Syscall.vfsSize s1 fd) = 0
      · rw [if_pos empty, if_pos empty]
      · rw [if_neg empty, if_neg empty]
        obtain ⟨memory, s2⟩ := s1.kmalloc
        cases memory with
        | none => rfl
        | some p =>
          dsimp only
          rw [if_neg kernelBuffer_ne, Calls.execFile]
          dsimp only
          by_cases cut : (vfsRead D s2 fd Syscall.kernelBuffer (UInt32.ofInt (Syscall.vfsSize s1 fd))).1 =
              (UInt32.ofInt (Syscall.vfsSize s1 fd)).toInt32.toInt
          · generalize loaded : (fileCalls D).elfLoad Syscall.kernelBuffer
              (vfsClose D (vfsRead D s2 fd Syscall.kernelBuffer (UInt32.ofInt (Syscall.vfsSize s1 fd))).2.2 fd).2 = r
            rw [decide_eq_true cut, if_neg (not_not.mpr cut)]
            dsimp only
            rw [elfLoad_fileCalls, loaded]
            cases r with
            | none => rfl
            | some r =>
              obtain ⟨entry, s3⟩ := r
              dsimp only [Option.map_some]
              by_cases null : entry = 0
              · rw [if_pos null, if_neg (by simp [null])]
              · rw [if_neg null, if_pos (by simp [null])]
          · rw [decide_eq_false cut, if_pos cut]

end

/-! ## What becomes of the process. -/

/-- The number of a `process_state_t`. -/
def stateCode : Process.ProcState → UInt32
  | .new => 0
  | .running => 1
  | .ready => 2
  | .blocked => 3
  | .terminated => 4

/-- The words of a `process_t` that are used, by their offsets. -/
def pcbWords (pcb : Process.Pcb) : List (UInt32 × UInt32) :=
  [(0, pcb.pid), (4, pcb.parentPid), (8, stateCode pcb.state), (20, pcb.pageDir), (24, pcb.uc.eip), (28, pcb.uc.esp),
    (32, pcb.uc.eflags), (36, pcb.uc.cs), (40, pcb.uc.ss), (44, pcb.uc.ds), (48, pcb.uc.es), (52, pcb.uc.fs),
    (56, pcb.uc.gs), (64, pcb.exitCode)]

/-- The `process_t` at `proc` is this process control block. -/
def HoldsPcb (m : Memory) (proc : UInt32) (pcb : Process.Pcb) : Prop :=
  ∀ w ∈ pcbWords pcb, m.load32 (proc + w.1) = w.2

/-- A store in a structure leaves its other words alone, wherever the structure lies. -/
lemma load32_storeBytes_field {m : Memory} {p a b : UInt32} {bs : List UInt8}
    (apart : ∀ i < 4, bs.length ≤ (b + UInt32.ofNat i - a).toNat) :
    (m.storeBytes (p + a) bs).load32 (p + b) = m.load32 (p + b) := by
  refine Memory.load32_congr fun i lt => Memory.storeBytes_outside ?_
  have offset : p + b + UInt32.ofNat i - (p + a) = b + UInt32.ofNat i - a := by
    grind
  rw [offset]
  exact apart i lt

lemma load32_store32_field {m : Memory} {p a b v : UInt32} (apart : ∀ i < 4, 4 ≤ (b + UInt32.ofNat i - a).toNat) :
    (m.store32 (p + a) v).load32 (p + b) = m.load32 (p + b) :=
  load32_storeBytes_field (by simpa using apart)

/-- `process_exec` fills the `process_t` in memory as the process control block. -/
theorem startContext_holdsPcb {m : Memory} {proc : UInt32} {pcb : Process.Pcb}
    (entry : UInt32) (holds : HoldsPcb m proc pcb) :
    HoldsPcb (startContext m proc entry) proc (Process.startContext entry pcb) := by
  simp only [HoldsPcb, pcbWords, List.forall_mem_cons] at holds ⊢
  obtain ⟨pid, parentPid, -, pageDir, -, -, -, -, -, -, -, -, -, exitCode, -⟩ := holds
  refine ⟨?pid, ?parentPid, ?state, ?pageDir, ?eip, ?esp, ?eflags, ?cs, ?ss, ?ds, ?es, ?fs, ?gs, ?exitCode,
    List.forall_mem_nil _⟩
  all_goals
    simp only [startContext, UInt32.add_assoc, UInt32.reduceAdd]
    simp (disch := decide) only [load32_store32_field, Memory.load32_store32, load32_storeBytes_field]
  case pid => exact pid
  case parentPid => exact parentPid
  case pageDir => exact pageDir
  case exitCode => exact exitCode
  all_goals rfl

/-- A `process_exec` that returns 0 does to the process in memory what the model of processes does to its block. -/
theorem processExec_started {ehAddr : UInt32} {s s' : State} {proc : UInt32} {path : List UInt8} (given : proc ≠ 0)
    (run : processExec ehAddr s proc (some path) = some (0, s')) : ∃ m entry, entry ≠ 0 ∧
      s'.drv.heap.mem = startContext m proc entry ∧ ∀ (t : Process.State) (p : Nat), HoldsPcb m proc (t.pcbs p) →
        HoldsPcb s'.drv.heap.mem proc ((Process.processExec t p entry).pcbs p) := by
  rw [processExec_calls ehAddr s path given] at run
  obtain ⟨t, entry, started, rfl⟩ := Calls.processExec_zero run
  refine ⟨t.drv.heap.mem, entry, started, rfl, fun t p holds => ?_⟩
  rw [Process.processExec, Process.State.pcbs_set]
  exact startContext_holdsPcb entry holds

end RetaOS.Elf
