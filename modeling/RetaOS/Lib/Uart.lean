import Mathlib.Data.List.Basic

/-!
# The 16550 serial port

A serial port as its eight registers show it. The first two are those of the divisor while its latch is open. A byte
for the transmitter is lost when there is no room for it; the transmitter holds one byte, or 16 where it has a buffer
and that is on. As time passes, bytes that it holds go to the line, and others arrive. `sent` is everything that was
taken for the line.
-/

namespace Lib

/-- A serial port. -/
structure Uart where
  divisorLow : UInt8
  divisorHigh : UInt8
  interrupts : UInt8
  lineControl : UInt8
  modemControl : UInt8
  scratch : UInt8
  /-- An old port has no scratch register. -/
  hasScratch : Bool
  hasBuffer : Bool
  /-- The buffer is on. -/
  buffered : Bool
  /-- The bytes that the transmitter holds, the oldest first. -/
  holding : List UInt8
  /-- The bytes that have arrived and not been read. -/
  received : List UInt8
  /-- The bytes that were on the line. -/
  line : List UInt8

namespace Uart

/-- The divisor latch is open. -/
def latch (u : Uart) : Bool := u.lineControl &&& 0x80 ≠ 0

/-- The bytes that there is room for. -/
def room (u : Uart) : Nat := if u.buffered then 16 else 1

/-- A byte for the transmitter. -/
def transmit (u : Uart) (v : UInt8) : Uart :=
  if u.holding.length < u.room then { u with holding := u.holding ++ [v] } else u

/-- The control of the buffers; they are cleared on demand, and when they are switched on or off. -/
def control (u : Uart) (v : UInt8) : Uart :=
  let buffered : Bool := v &&& 1 ≠ 0
  if u.hasBuffer then
    { u with
      buffered
      received := if v &&& 2 ≠ 0 ∨ buffered ≠ u.buffered then [] else u.received
      holding := if v &&& 4 ≠ 0 ∨ buffered ≠ u.buffered then [] else u.holding }
  else u

/-- A byte is written to a register. -/
def out (u : Uart) (reg : Nat) (v : UInt8) : Uart :=
  match reg with
  | 0 => if u.latch then { u with divisorLow := v } else u.transmit v
  | 1 => if u.latch then { u with divisorHigh := v } else { u with interrupts := v }
  | 2 => u.control v
  | 3 => { u with lineControl := v }
  | 4 => { u with modemControl := v }
  | 7 => { u with scratch := v }
  | _ => u

/-- The line status: bit 0 for a byte that has arrived, bits 5 and 6 for a transmitter that holds nothing. -/
def status (u : Uart) : UInt8 := (if u.received = [] then 0 else 0x01) ||| if u.holding = [] then 0x60 else 0

/-- A byte is read from a register. -/
def in_ (u : Uart) (reg : Nat) : UInt8 × Uart :=
  match reg with
  | 0 => if u.latch then (u.divisorLow, u) else (u.received.headD 0, { u with received := u.received.tail })
  | 1 => (if u.latch then u.divisorHigh else u.interrupts, u)
  | 2 => (if u.buffered then 0xC1 else 0x01, u)
  | 3 => (u.lineControl, u)
  | 4 => (u.modemControl, u)
  | 5 => (u.status, u)
  | 6 => (0, u)
  | 7 => (if u.hasScratch then u.scratch else 0xFF, u)
  | _ => (0xFF, u)

/-- Bytes come in. A full buffer has no room for more; without one, each byte takes the place of the one before. -/
def arrive (u : Uart) (arriving : List UInt8) : List UInt8 :=
  let all := u.received ++ arriving
  if u.buffered then all.take 16 else all.drop (all.length - 1)

/-- Time passes: `n` bytes go to the line, and `arriving` come in. -/
def pass (u : Uart) (n : Nat) (arriving : List UInt8) : Uart :=
  { u with line := u.line ++ u.holding.take n, holding := u.holding.drop n, received := u.arrive arriving }

/-- What was taken for the line. -/
def sent (u : Uart) : List UInt8 := u.line ++ u.holding

variable {u : Uart} {n : Nat} {arriving : List UInt8} {v : UInt8}

@[simp] lemma sent_pass : (u.pass n arriving).sent = u.sent := by
  rw [sent, pass, sent, List.append_assoc, List.take_append_drop]

lemma room_pos : 0 < u.room := by
  rw [room]
  split_ifs <;> decide

lemma arrive_sublist : (u.arrive arriving).Sublist (u.received ++ arriving) := by
  rw [arrive]
  split_ifs
  · exact List.take_sublist _ _
  · exact List.drop_sublist _ _

/-- What has arrived stays until something newer is there. -/
lemma arrive_ne_nil (some : u.received ≠ []) : u.arrive arriving ≠ [] := by
  have all : 0 < (u.received ++ arriving).length :=
    List.length_pos_iff.mpr (List.append_ne_nil_of_left_ne_nil some arriving)
  apply List.ne_nil_of_length_pos
  rw [arrive]
  split_ifs
  · rw [List.length_take]
    exact Nat.lt_min.mpr ⟨by decide, all⟩
  · rw [List.length_drop]
    omega

/-- A byte is taken, or there is no room. -/
lemma transmit_cases :
    u.holding.length < u.room ∧ u.transmit v = { u with holding := u.holding ++ [v] } ∨
      u.room ≤ u.holding.length ∧ u.transmit v = u := by
  rw [transmit]
  split_ifs with free
  · exact .inl ⟨free, rfl⟩
  · exact .inr ⟨Nat.not_lt.mp free, rfl⟩

lemma holding_pass_le : (u.pass n arriving).holding.length ≤ u.holding.length := by
  rw [pass, List.length_drop]
  omega

/-- Clearing the buffers takes nothing back that is on the line. -/
lemma sent_control : (u.control v).sent <+: u.sent := by
  have cleared (p : Prop) [Decidable p] : u.line ++ (if p then [] else u.holding) <+: u.line ++ u.holding := by
    split_ifs
    · exact (List.prefix_append_right_inj u.line).mpr List.nil_prefix
    · exact List.prefix_refl _
  rw [control]
  by_cases buffer : u.hasBuffer = true
  · rw [if_pos buffer]
    exact cleared _
  · simp only [if_neg buffer, List.prefix_refl]

/-- A buffer that is switched on and cleared. -/
lemma control_fresh (has : u.hasBuffer = true) (on : v &&& 1 ≠ 0) (clear : v &&& 4 ≠ 0) :
    (u.control v).buffered = true ∧ (u.control v).holding = [] := by
  rw [control, if_pos has]
  exact ⟨decide_eq_true on, if_pos (.inl clear)⟩

lemma hasBuffer_control : (u.control v).hasBuffer = u.hasBuffer := by
  rw [control]
  split_ifs <;> rfl

lemma received_control : (u.control v).received.Sublist u.received := by
  have cleared (p : Prop) [Decidable p] : (if p then [] else u.received).Sublist u.received := by
    split_ifs
    · exact List.nil_sublist _
    · exact .refl _
  rw [control]
  by_cases buffer : u.hasBuffer = true
  · rw [if_pos buffer]
    exact cleared _
  · simp only [if_neg buffer, List.Sublist.refl]

/-- The transmitter is free. -/
lemma status_transmit : u.status &&& 0x20 ≠ 0 ↔ u.holding = [] := by
  rw [status]
  by_cases held : u.holding = []
  · rw [if_pos held]
    refine iff_of_true ?_ held
    split_ifs <;> decide
  · rw [if_neg held]
    refine iff_of_false ?_ held
    split_ifs <;> decide

/-- A byte has arrived. -/
lemma status_receive : u.status &&& 0x01 ≠ 0 ↔ u.received ≠ [] := by
  rw [status]
  by_cases empty : u.received = []
  · rw [if_pos empty]
    refine iff_of_false ?_ (not_not.mpr empty)
    split_ifs <;> decide
  · rw [if_neg empty]
    refine iff_of_true ?_ empty
    split_ifs <;> decide

end Uart

end Lib
