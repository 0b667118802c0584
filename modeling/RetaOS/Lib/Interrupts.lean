import RetaOS.Lib.X86
import Mathlib.Data.List.ReduceOption

/-!
# Programs that are interrupted

A program runs on the processor of `Lib.X86` a step at a time, and interrupts are serviced between its steps. What a
program can notice are its registers and the memory that it relies on, which it names by its registers (`Program`,
`Program.Same`). When servicing an interrupt leaves that alone, a run with any interrupts ends where the run without
them ends, and what the services do besides happens in the order of the interrupts (`Program.run_same`). For a service
that ends in `iret`, `iret_frame` gives the registers back from the frame that the processor pushed.
-/

namespace Lib.X86

/-- What the processor holds but for memory. -/
structure Context where
  gpr : Reg → UInt32
  eip : UInt32
  eflags : UInt32
  cs : UInt32
  ss : UInt32

/-- The registers of a state. -/
def Cpu.context (c : Cpu) : Context := ⟨c.gpr, c.eip, c.eflags, c.cs, c.ss⟩

/-- A program: its steps, and the addresses that count for it. -/
structure Program where
  step : Cpu → Cpu
  live : Context → UInt32 → Prop

namespace Program

variable {ι ε : Type*} {P : Program} {c d e : Cpu} {service : ι → Cpu → Cpu × List ε} {out : ι → List ε}

/-- States that the program cannot tell apart. -/
structure Same (P : Program) (c d : Cpu) : Prop where
  context : d.context = c.context
  mem : ∀ x, P.live c.context x → d.mem x = c.mem x

lemma Same.refl : P.Same c c := ⟨rfl, fun _ _ => rfl⟩

lemma Same.trans (h : P.Same c d) (h' : P.Same d e) : P.Same c e := by
  refine ⟨h'.context.trans h.context, fun x live => ?_⟩
  rw [h'.mem x (h.context ▸ live), h.mem x live]

/-- A step reads nothing but what counts. -/
def Local (P : Program) : Prop := ∀ c d, P.Same c d → P.Same (P.step c) (P.step d)

/-- Steps of a program, `none`, and interrupts between them, with what their services do besides. -/
def run (P : Program) (service : ι → Cpu → Cpu × List ε) : List (Option ι) → Cpu × List ε → Cpu × List ε
  | [], s => s
  | none :: es, (c, log) => P.run service es (P.step c, log)
  | some i :: es, (c, log) => P.run service es ((service i c).1, log ++ (service i c).2)

/-- The number of steps of the program in a run. -/
def steps (es : List (Option ι)) : Nat := es.countP Option.isNone

lemma steps_none (es : List (Option ι)) : steps (none :: es) = steps es + 1 := List.countP_cons_of_pos rfl

lemma steps_some (i : ι) (es : List (Option ι)) : steps (some i :: es) = steps es := List.countP_cons_of_neg (by simp)

/-- Services that the program does not notice leave it where it gets without them. -/
theorem run_same (loc : P.Local) (c : Cpu)
    (serve : ∀ i k d, P.Same (P.step^[k] c) d → P.Same d (service i d).1 ∧ (service i d).2 = out i)
    (es : List (Option ι)) : P.Same (P.step^[steps es] c) (P.run service es (c, [])).1 ∧
      (P.run service es (c, [])).2 = es.reduceOption.flatMap out := by
  -- behind `k` steps the interrupted program is where the other one is
  have from_ : ∀ k d log, P.Same (P.step^[k] c) d → P.Same (P.step^[k + steps es] c) (P.run service es (d, log)).1 ∧
      (P.run service es (d, log)).2 = log ++ es.reduceOption.flatMap out := by
    induction es with
    | nil =>
      intro k d log same
      exact ⟨same, (List.append_nil log).symm⟩
    | cons e es ih =>
      intro k d log same
      cases e with
      | none =>
        have next : P.Same (P.step^[k + 1] c) (P.step d) := by
          rw [Function.iterate_succ_apply']
          exact loc _ _ same
        rw [steps_none, ← Nat.add_assoc, Nat.add_right_comm, run, List.reduceOption_cons_of_none]
        exact ih (k + 1) (P.step d) log next
      | some i =>
        obtain ⟨kept, does⟩ := serve i k d same
        rw [steps_some, run, List.reduceOption_cons_of_some, List.flatMap_cons, ← List.append_assoc, ← does]
        exact ih k (service i d).1 (log ++ (service i d).2) (same.trans kept)
  have whole := from_ 0 c [] .refl
  rwa [Nat.zero_add, List.nil_append] at whole

end Program

variable {c u : Cpu} {esp0 : UInt32}

/-! ## Taking an interrupt. -/

/-- The frame is three words long, or five. -/
lemma exceptionFrame_length (u : Cpu) : (exceptionFrame none u).length = 3 ∨ (exceptionFrame none u).length = 5 := by
  rw [exceptionFrame]
  split
  · exact .inl rfl
  · exact .inr rfl

/-- Pushes keep the stack segment. -/
lemma pushes_ss (vs : List UInt32) (c : Cpu) : (vs.foldl Cpu.push c).ss = c.ss := by
  induction vs generalizing c with
  | nil => rfl
  | cons v vs ih =>
    rw [List.foldl_cons, ih]
    rfl

/-- An interrupt is taken by pushes on one of two stacks. -/
lemma exception_pushes (esp0 : UInt32) (u : Cpu) : ∃ (v : Cpu) (vs : List UInt32),
    u.exception esp0 none = vs.foldl Cpu.push v ∧ vs.length ≤ 5 ∧ v.gpr .esp = exceptionStack esp0 u ∧ v.mem = u.mem ∧
      v.ss = u.ss := by
  by_cases kernel : u.cs &&& 3 = 0
  · refine ⟨u, [u.eflags, u.cs, u.eip], ?_, by simp, ?_, rfl, rfl⟩
    · rw [Cpu.exception, if_pos kernel, Option.toList_none, List.foldl_nil]
    · rw [exceptionStack, if_pos kernel]
  · refine ⟨u.set .esp esp0, [u.ss, u.gpr .esp, u.eflags, u.cs, u.eip], ?_, by simp, ?_, rfl, rfl⟩
    · rw [Cpu.exception, if_neg kernel, Option.toList_none, List.foldl_nil, Cpu.interrupt]
    · rw [exceptionStack, if_neg kernel, gpr_set]

/-- The processor writes nothing but the frame, and keeps the stack segment. -/
lemma exception_mem (esp0 : UInt32) (u : Cpu) (room : 20 ≤ (exceptionStack esp0 u).toNat) :
    (u.exception esp0 none).ss = u.ss ∧ ∀ x : UInt32,
      x.toNat + 20 < (exceptionStack esp0 u).toNat ∨ (exceptionStack esp0 u).toNat ≤ x.toNat →
        (u.exception esp0 none).mem x = u.mem x := by
  obtain ⟨v, vs, entry, len, esp, mem, ss⟩ := exception_pushes esp0 u
  rw [entry]
  refine ⟨(pushes_ss vs v).trans ss, fun x out => ?_⟩
  rw [pushes_frame vs (by rw [esp]; omega) (by rw [esp]; omega), mem]

/-- `pushal` writes 32 bytes below the stack pointer. -/
lemma pushal_mem (room : 32 ≤ (c.gpr .esp).toNat) {x : UInt32}
    (out : x.toNat + 32 < (c.gpr .esp).toNat ∨ (c.gpr .esp).toNat ≤ x.toNat) : c.pushal.mem x = c.mem x := by
  rw [Cpu.pushal]
  refine pushes_frame _ ?_ ?_
  · rw [List.length_map]
    exact room
  · rw [List.length_map]
    exact out

/-! ## Returning from an interrupt. -/

/-- A word of the stack. -/
lemma Holds.get {m : Memory} {p : UInt32} {ws : List UInt32} (h : Holds m p ws) {i : Nat} (lt : i < ws.length) :
    m.load32 (p + UInt32.ofNat (4 * i)) = ws[i] := by
  induction ws generalizing p i with
  | nil => cases lt
  | cons w ws ih =>
    cases i with
    | zero =>
      rw [Nat.mul_zero, show p + UInt32.ofNat 0 = p from UInt32.add_zero p]
      exact h.1
    | succ i =>
      rw [Nat.mul_succ, Nat.add_comm, UInt32.ofNat_add, ← UInt32.add_assoc]
      exact ih h.2 (Nat.lt_of_succ_lt_succ lt)

/-- `iret` takes the registers from the frame that was pushed. -/
lemma iret_frame (h : Holds c.mem (c.gpr .esp) (exceptionFrame none u)) (ss : c.ss = u.ss)
    (esp : c.gpr .esp + UInt32.ofNat (4 * (exceptionFrame none u).length) = exceptionStack esp0 u) :
    c.iret.gpr .esp = u.gpr .esp ∧ c.iret.eip = u.eip ∧ c.iret.cs = u.cs ∧ c.iret.eflags = u.eflags ∧
      c.iret.ss = u.ss ∧ ∀ r, r ≠ .esp → c.iret.gpr r = c.gpr r := by
  by_cases kernel : u.cs &&& 3 = 0
  · -- the stack pointer is moved past the frame
    rw [exceptionFrame, if_pos kernel] at h esp
    rw [exceptionStack, if_pos kernel] at esp
    obtain ⟨h1, h2, h3, -⟩ := h
    have at0 : c.stack 0 = u.eip := by rw [Cpu.stack, UInt32.add_zero, h1]
    have at4 : c.stack 4 = u.cs := h2
    have at8 : c.stack 8 = u.eflags := by
      rw [← h3, Cpu.stack, UInt32.add_assoc]
      rfl
    have top : c.gpr .esp + 12 = u.gpr .esp := esp
    have ret : c.iret = ({ c with eip := u.eip, cs := u.cs, eflags := u.eflags } : Cpu).set .esp (u.gpr .esp) := by
      rw [Cpu.iret, at0, at4, at8, if_pos kernel, top]
    rw [ret]
    exact ⟨gpr_set, rfl, rfl, rfl, ss, fun r ne => gpr_set_ne ne⟩
  · rw [exceptionFrame, if_neg kernel] at h
    exact iret_spec h kernel

/-- `iret` writes nothing. -/
lemma iret_mem (c : Cpu) : c.iret.mem = c.mem := by
  rw [Cpu.iret]
  dsimp only
  split <;> rfl

/-- `popal` writes nothing. -/
lemma popal_mem (c : Cpu) : c.popal.mem = c.mem := rfl

/-- `popal` moves the stack pointer past eight words. -/
lemma popal_esp (c : Cpu) : c.popal.gpr .esp = c.gpr .esp + 32 := by
  simp only [Cpu.popal, List.foldl_cons, List.foldl_nil, Cpu.pop, Cpu.stack, Cpu.set, ne_eq, reduceCtorEq,
    not_false_eq_true, Function.update_of_ne, Function.update_self, UInt32.add_assoc]
  rfl

end Lib.X86
