import Mathlib.Data.List.FinRange
import Mathlib.Data.Fintype.Basic
import Mathlib.Logic.Function.Basic
import Mathlib.Tactic.FinCases

/-!
# The 8259 interrupt controllers

The pair of controllers of a PC. A controller takes its initialisation one byte after the other, a first one on its
command port and the others on its data port (`Expects`), and is masked through the data port from then on. Among the
lines that are not masked one is let through when no line of the same or a higher priority is in service, and it is in
service until the controller is told that the interrupt is over. The second controller hangs on line 2 of the first.
Other commands than an initialisation and the end of an interrupt are left out.
-/

namespace Lib

/-- What the next byte on the data port is; an initialisation may leave out the last. -/
inductive Expects where
  | mask
  | offset (mode : Bool)
  | cascade (mode : Bool)
  | mode
  deriving DecidableEq

/-- A controller. -/
structure Pic where
  offset : UInt8
  cascade : UInt8
  mode : UInt8
  mask : UInt8
  inService : Fin 8 → Bool
  expects : Expects

namespace Pic

/-- No line is in service. -/
def idle : Fin 8 → Bool := fun _ => false

/-- The line in service with the highest priority is over. -/
def endOfInterrupt (p : Pic) : Pic :=
  match (List.finRange 8).find? p.inService with
  | some i => { p with inService := Function.update p.inService i false }
  | none => p

/-- A byte on the command port. -/
def command (p : Pic) (v : UInt8) : Pic :=
  if v &&& 0x10 ≠ 0 then { p with mask := 0, inService := idle, expects := .offset (v &&& 1 ≠ 0) }
  else if v = 0x20 then p.endOfInterrupt
  else p

/-- A byte on the data port. -/
def data (p : Pic) (v : UInt8) : Pic :=
  match p.expects with
  | .mask => { p with mask := v }
  | .offset mode => { p with offset := v, expects := .cascade mode }
  | .cascade mode => { p with cascade := v, expects := if mode then .mode else .mask }
  | .mode => { p with mode := v, expects := .mask }

/-- Nothing of the same or a higher priority is in service. -/
def Free (p : Pic) (i : Fin 8) : Prop := ∀ j ≤ i, p.inService j = false

/-- A controller that has been initialised lets a line through. -/
def Accepts (p : Pic) (i : Fin 8) : Prop := p.expects = .mask ∧ p.mask &&& (1 <<< UInt8.ofNat i) = 0 ∧ p.Free i

instance (p : Pic) (i : Fin 8) : Decidable (p.Free i) := inferInstanceAs (Decidable (∀ _, _))

instance (p : Pic) (i : Fin 8) : Decidable (p.Accepts i) := inferInstanceAs (Decidable (_ ∧ _))

/-- A line goes into service. -/
def serve (p : Pic) (i : Fin 8) : Pic := { p with inService := Function.update p.inService i true }

variable {p : Pic} {i : Fin 8}

/-- The end of an interrupt that was let through leaves what was in service before. -/
lemma endOfInterrupt_serve (free : p.Free i) : (p.serve i).endOfInterrupt = p := by
  have found : (List.finRange 8).find? (p.serve i).inService = some i := by
    have lower : ∀ j, j < i → Function.update p.inService i true j = false := fun j lt => by
      rw [Function.update_of_ne (ne_of_lt lt)]
      exact free j (le_of_lt lt)
    have here : Function.update p.inService i true i = true := Function.update_self ..
    rw [serve]
    generalize Function.update p.inService i true = f at lower here
    fin_cases i <;> simp [List.finRange_succ, lower] <;> exact here
  rw [endOfInterrupt, found, serve]
  dsimp only
  rw [Function.update_idem, ← free i le_rfl, Function.update_eq_self]

end Pic

/-- Both controllers. -/
structure Pics where
  first : Pic
  second : Pic

namespace Pics

/-- A byte written to a port. -/
def outb (s : Pics) (port : UInt16) (v : UInt8) : Pics :=
  if port = 0x20 then { s with first := s.first.command v }
  else if port = 0x21 then { s with first := s.first.data v }
  else if port = 0xA0 then { s with second := s.second.command v }
  else if port = 0xA1 then { s with second := s.second.data v }
  else s

/-- Bytes written one behind the other. -/
def outbs (s : Pics) (l : List (UInt16 × UInt8)) : Pics := l.foldl (fun s w => s.outb w.1 w.2) s

/-- The vector that a controller gives for a line. -/
def vectorOf (p : Pic) (i : Fin 8) : UInt8 := p.offset &&& 0xF8 ||| UInt8.ofNat i

/-- The controllers know of each other: the first that line 2 is a controller, the second that it is on line 2. -/
def Wired (s : Pics) : Prop := s.first.cascade = 0x04 ∧ s.second.cascade = 0x02

instance (s : Pics) : Decidable s.Wired := inferInstanceAs (Decidable (_ ∧ _))

/-- A request of one of the 16 lines: the vector that the processor gets, and what is in service then. A request that is
    not let through waits. -/
def request (s : Pics) (n : Fin 16) : Option (UInt8 × Pics) :=
  if lt : n.val < 8 then
    let i : Fin 8 := ⟨n, lt⟩
    if s.first.Accepts i then some (vectorOf s.first i, { s with first := s.first.serve i }) else none
  else
    let i : Fin 8 := ⟨n - 8, by omega⟩
    if s.Wired ∧ s.first.Accepts 2 ∧ s.second.Accepts i then
      some (vectorOf s.second i, { first := s.first.serve 2, second := s.second.serve i })
    else none

/-- The bytes that end an interrupt of a line. -/
def eoi (n : Fin 16) : List (UInt16 × UInt8) := (if 8 ≤ n.val then [(0xA0, 0x20)] else []) ++ [(0x20, 0x20)]

variable {s s' : Pics} {n : Fin 16} {v : UInt8}

/-- Ending the interrupt of a line that was let through leaves the controllers as they were. -/
lemma request_eoi (run : s.request n = some (v, s')) : s'.outbs (eoi n) = s := by
  simp only [request] at run
  split_ifs at run with low accepts accepts
  · cases run
    have none_ : ¬ 8 ≤ n.val := by omega
    rw [eoi, if_neg none_, List.nil_append]
    show { s with first := (s.first.serve ⟨n, low⟩).endOfInterrupt } = s
    rw [Pic.endOfInterrupt_serve accepts.2.2]
  · cases run
    obtain ⟨-, first, second⟩ := accepts
    have high : 8 ≤ n.val := by omega
    rw [eoi, if_pos high]
    show Pics.mk (s.first.serve 2).endOfInterrupt (s.second.serve _).endOfInterrupt = s
    rw [Pic.endOfInterrupt_serve first.2.2, Pic.endOfInterrupt_serve second.2.2]

end Pics

end Lib
