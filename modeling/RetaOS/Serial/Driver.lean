import RetaOS.Lib.Loop
import RetaOS.Lib.Runs
import RetaOS.Lib.Uart
import RetaOS.Stdio.Decimals

/-!
# The serial driver

`serial.c` on a serial port that sends and receives while the driver runs: between two accesses of the driver any number
of bytes goes to the line and any bytes arrive (`Line`). `serial_init` sends eight characters without waiting, which are
safe in the buffer that it has just switched on, where the port has one; from then on each character waits for the ones
before. So nothing that is written is lost or changes its place, and all calls return as long as the line goes on
(`serial_lossless`).
-/

namespace RetaOS.Serial
open Lib
open Stdio (ascii decimal digitChar)

/-- What happens on the line before each access of the driver: how many bytes are sent, and which arrive. -/
abbrev Line := Nat → Nat × List UInt8

/-- The port, the accesses so far, and `serial_ready`. -/
structure State where
  uart : Uart
  time : Nat
  serialReady : Bool

variable (line : Line)

/-- Time up to the next access. -/
def State.tick (s : State) : State :=
  { s with uart := s.uart.pass (line s.time).1 (line s.time).2, time := s.time + 1 }

/-- `outb(COM1 + reg, v)`. -/
def outb (reg : Nat) (v : UInt8) (s : State) : State :=
  let s := s.tick line
  { s with uart := s.uart.out reg v }

/-- `inb(COM1 + reg)`. -/
def inb (reg : Nat) (s : State) : UInt8 × State :=
  let s := s.tick line
  let (v, uart) := s.uart.in_ reg
  (v, { s with uart })

/-- The test characters of `serial_init`. -/
def banner : List UInt8 := ascii "SERIAL" ++ [13, 10]

/-- `serial_init`. -/
def serialInit (s : State) : State :=
  let s := outb line 1 0x00 s
  let s := outb line 3 0x80 s
  let s := outb line 0 0x01 s
  let s := outb line 1 0x00 s
  let s := outb line 3 0x03 s
  let s := outb line 2 0xC7 s
  let s := outb line 4 0x0B s
  let s := outb line 7 0xAE s
  let (v, s) := inb line 7 s
  if v ≠ 0xAE then s
  else { banner.foldl (fun s ch => outb line 0 ch s) s with serialReady := true }

/-- `is_transmit_empty`. -/
def isTransmitEmpty (s : State) : Bool × State :=
  let (v, s) := inb line 5 s
  (v &&& 0x20 ≠ 0, s)

/-- `serial_data_ready`. -/
def serialDataReady (s : State) : Bool × State :=
  let (v, s) := inb line 5 s
  (v &&& 0x01 ≠ 0, s)

/-- One pass of the wait of `serial_putc`. -/
def waitPass (s : State) : Pass State State :=
  let (empty, s) := isTransmitEmpty line s
  if empty then .done s else .next s

/-- `serial_putc`. -/
def serialPutc (s : State) (ch : UInt8) : Option State :=
  if s.serialReady = false then some s else (loop (waitPass line) s).map (outb line 0 ch)

/-- `serial_write`, of a string without its `NUL`. -/
def serialWrite (str : List UInt8) (s : State) : Option State :=
  if s.serialReady = false then some s else str.foldlM (serialPutc line) s

/-- The digits of `serial_write_hex`. -/
def hexDigits : List UInt8 := ascii "0123456789ABCDEF"

/-- `serial_write_hex`. -/
def serialWriteHex (v : UInt32) (s : State) : Option State :=
  (serialWrite line (ascii "0x") s).bind fun s =>
    [7, 6, 5, 4, 3, 2, 1, 0].foldlM (fun s (i : Nat) =>
      serialPutc line s (hexDigits.getD (v >>> (UInt32.ofNat i * 4) &&& 0xF).toNat 0)) s

/-- The loop of `serial_write_dec` that fills `buf`, which has room for `n` more. -/
def decimalDigits : Nat → UInt32 → List UInt8
  | 0, _ => []
  | n + 1, v => if v = 0 then [] else (48 + (v % 10).toUInt8) :: decimalDigits n (v / 10)

/-- `serial_write_dec`. -/
def serialWriteDec (v : UInt32) (s : State) : Option State :=
  if v = 0 then serialPutc line s 48 else (decimalDigits 15 v).reverse.foldlM (serialPutc line) s

/-- `serial_getchar_nonblock`. -/
def serialGetcharNonblock (s : State) : Int × State :=
  if s.serialReady = false then (-1, s)
  else
    let (ready, s) := serialDataReady line s
    if ready = false then (-1, s)
    else
      let (v, s) := inb line 0 s
      (v.toNat, s)

/-! ## Runs. -/

/-- The calls of the driver. -/
inductive Op where
  | write (str : List UInt8)
  | writeHex (v : UInt32)
  | writeDec (v : UInt32)
  | getchar

/-- The state after a call, with the characters that were read. -/
def step (s : State × List UInt8) : Op → Option (State × List UInt8)
  | .write str => (serialWrite line str s.1).map fun s' => (s', s.2)
  | .writeHex v => (serialWriteHex line v s.1).map fun s' => (s', s.2)
  | .writeDec v => (serialWriteDec line v s.1).map fun s' => (s', s.2)
  | .getchar =>
    let (r, s') := serialGetcharNonblock line s.1
    some (s', if r < 0 then s.2 else s.2 ++ [r.toNat.toUInt8])

/-- Eight hexadecimal digits. -/
def hexText (v : UInt32) : List UInt8 :=
  ascii "0x" ++ [7, 6, 5, 4, 3, 2, 1, 0].map fun i => hexDigits.getD (v.toNat / 16 ^ i % 16) 0

/-- `serial_init` and calls behind it. -/
def run (u : Uart) (ops : List Op) : Option (State × List UInt8) :=
  ops.foldlM (step line) (serialInit line ⟨u, 0, false⟩, [])

/-- What a call writes. -/
def Op.text : Op → List UInt8
  | write str => str
  | writeHex v => hexText v
  | writeDec v => decimal v.toNat
  | getchar => []

/-- What arrives before an access. -/
def arrivals (time : Nat) : List UInt8 := (List.range time).flatMap fun i => (line i).2

/-- What a port is, and what its registers are set to. -/
structure Settings where
  hasScratch : Bool
  hasBuffer : Bool
  divisorLow : UInt8
  divisorHigh : UInt8
  interrupts : UInt8
  lineControl : UInt8
  modemControl : UInt8

/-- The settings of a port. -/
def settings (u : Uart) : Settings :=
  ⟨u.hasScratch, u.hasBuffer, u.divisorLow, u.divisorHigh, u.interrupts, u.lineControl, u.modemControl⟩

/-- The divisor latch is open. -/
def Settings.latch (set : Settings) : Bool := set.lineControl &&& 0x80 ≠ 0

/-- What an access changes in them. -/
def Settings.out (set : Settings) (reg : Nat) (v : UInt8) : Settings :=
  match reg with
  | 0 => if set.latch then { set with divisorLow := v } else set
  | 1 => if set.latch then { set with divisorHigh := v } else { set with interrupts := v }
  | 3 => { set with lineControl := v }
  | 4 => { set with modemControl := v }
  | _ => set

/-- The settings after `serial_init`. When the latch was open, the byte that should have switched the interrupts off
    went to the divisor. -/
def Settings.initialised (set : Settings) : Settings :=
  { set with
    divisorLow := 1, divisorHigh := 0, lineControl := 0x03, modemControl := 0x0B
    interrupts := if set.latch then set.interrupts else 0 }

/-- What the driver knows of the port: `sent` has gone to the line, or waits for it, and `got` has been read. -/
structure Port (before : List UInt8) (ready : Bool) (set : Settings) (s : State) (sent got : List UInt8) : Prop where
  ready : s.serialReady = ready
  settings : settings s.uart = set
  sent : s.uart.sent = sent
  read : (got ++ s.uart.received).Sublist (before ++ arrivals line s.time)

variable {line} {s s' : State} {before sent got : List UInt8} {ready : Bool} {set : Settings} {reg : Nat}
  {c v : UInt8} {u : Uart}

/-! ## One access. -/

lemma arrivals_succ (n : Nat) : arrivals line (n + 1) = arrivals line n ++ (line n).2 := by
  rw [arrivals, List.range_succ, List.flatMap_append, List.flatMap_singleton]
  rfl

lemma Port.tick (h : Port line before ready set s sent got) : Port line before ready set (s.tick line) sent got := by
  refine ⟨h.ready, h.settings, Uart.sent_pass.trans h.sent, ?_⟩
  change (got ++ s.uart.arrive (line s.time).2).Sublist (before ++ arrivals line (s.time + 1))
  rw [arrivals_succ, ← List.append_assoc]
  refine (List.Sublist.append_left Uart.arrive_sublist got).trans ?_
  rw [← List.append_assoc]
  exact h.read.append_right _

lemma settings_out : settings (u.out reg v) = (settings u).out reg v := by
  have latch : (settings u).latch = u.latch := rfl
  rcases reg with _ | _ | _ | _ | _ | _ | _ | _ | reg
  · change settings (if u.latch then _ else u.transmit v) = if (settings u).latch then _ else _
    rw [latch]
    split_ifs
    · rfl
    · obtain ⟨-, eq⟩ | ⟨-, eq⟩ := u.transmit_cases (v := v)
      · rw [eq]; rfl
      · rw [eq]
  · change settings (if u.latch then _ else _) = if (settings u).latch then _ else _
    rw [latch]
    split_ifs <;> rfl
  · change settings (u.control v) = settings u
    rw [Uart.control]
    split_ifs <;> rfl
  all_goals rfl

/-- An access that is no character for the line takes nothing back that has gone to it. -/
lemma out_quiet (quiet : reg ≠ 0 ∨ u.latch = true) :
    (u.out reg v).sent <+: u.sent ∧ (u.out reg v).received.Sublist u.received := by
  rcases reg with _ | _ | _ | _ | _ | _ | _ | _ | reg
  · have latch : u.latch = true := quiet.resolve_left fun ne => ne rfl
    change (if u.latch then _ else u.transmit v).sent <+: _ ∧ (if u.latch then _ else u.transmit v).received.Sublist _
    rw [if_pos latch]
    exact ⟨List.prefix_refl _, .refl _⟩
  · change (if u.latch then _ else _ : Uart).sent <+: _ ∧ (if u.latch then _ else _ : Uart).received.Sublist _
    split_ifs <;> exact ⟨List.prefix_refl _, .refl _⟩
  · exact ⟨Uart.sent_control, Uart.received_control⟩
  all_goals exact ⟨List.prefix_refl _, .refl _⟩

/-- A register is set. -/
lemma Port.setup (h : Port line before ready set s sent got) (quiet : reg ≠ 0 ∨ set.latch = true) (v : UInt8) :
    ∃ sent', sent' <+: sent ∧ Port line before ready (set.out reg v) (outb line reg v s) sent' got := by
  have ticked := h.tick
  have latch : set.latch = (s.tick line).uart.latch := by rw [← ticked.settings]; rfl
  obtain ⟨sub, keep⟩ := out_quiet (v := v) (by rwa [latch] at quiet)
  refine ⟨_, by rwa [ticked.sent] at sub, ticked.ready, ?_, rfl, ?_⟩
  · exact settings_out.trans (congrArg (Settings.out · reg v) ticked.settings)
  · exact (List.Sublist.append_left keep got).trans ticked.read

/-! ## One character. -/

/-- A character for the transmitter, which has to have room for it. -/
lemma Port.transmit (h : Port line before ready set s sent got) (closed : set.latch = false) (c : UInt8) :
    ∃ taken, Port line before ready set (outb line 0 c s) (sent ++ taken) got ∧
      (outb line 0 c s).uart.buffered = s.uart.buffered ∧
      (taken = [c] ∧ (outb line 0 c s).uart.holding.length ≤ s.uart.holding.length + 1 ∨
        taken = [] ∧ s.uart.room ≤ s.uart.holding.length) := by
  have ticked := h.tick
  have le : (s.tick line).uart.holding.length ≤ s.uart.holding.length := Uart.holding_pass_le
  have latch : (s.tick line).uart.latch = false := by rw [← closed, ← ticked.settings]; rfl
  have out : (s.tick line).uart.out 0 c = (s.tick line).uart.transmit c := by
    change (if (s.tick line).uart.latch then _ else (s.tick line).uart.transmit c) = _
    rw [latch, if_neg Bool.false_ne_true]
  have eq : outb line 0 c s = { s.tick line with uart := (s.tick line).uart.transmit c } := by rw [← out]; rfl
  obtain ⟨free, put⟩ | ⟨full, put⟩ := (s.tick line).uart.transmit_cases (v := c)
  · rw [eq, put]
    refine ⟨[c], ⟨ticked.ready, ticked.settings, ?_, ticked.read⟩, rfl, .inl ⟨rfl, ?_⟩⟩
    · rw [← ticked.sent]
      exact (List.append_assoc _ _ _).symm
    · change ((s.tick line).uart.holding ++ [c]).length ≤ _
      rw [List.length_append, List.length_singleton]
      exact Nat.add_le_add_right le 1
  · rw [eq, put]
    exact ⟨[], by rwa [List.append_nil], rfl, .inr ⟨rfl, full.trans le⟩⟩

lemma waitPass_eq (s : State) :
    waitPass line s = if (s.tick line).uart.holding = [] then .done (s.tick line) else .next (s.tick line) := by
  have pass : waitPass line s =
      if decide ((s.tick line).uart.status &&& 0x20 ≠ 0) = true then .done (s.tick line) else .next (s.tick line) := rfl
  rw [pass]
  simp only [decide_eq_true_eq, Uart.status_transmit]

/-- The wait of `serial_putc` ends with a transmitter that holds nothing. -/
lemma Port.wait (h : Port line before ready set s sent got) (run : loop (waitPass line) s = some s') :
    Port line before ready set s' sent got ∧ s'.uart.holding = [] := by
  refine loop_rule (I := fun s => Port line before ready set s sent got)
    (Q := fun s' => Port line before ready set s' sent got ∧ s'.uart.holding = []) (fun s h => ?_) h run
  rw [waitPass_eq]
  split_ifs with free
  · exact .done ⟨h.tick, free⟩
  · exact .next h.tick

lemma Port.putc (h : Port line before true set s sent got) (closed : set.latch = false)
    (run : serialPutc line s c = some s') : Port line before true set s' (sent ++ [c]) got := by
  rw [serialPutc, if_neg (by rw [h.ready]; exact Bool.noConfusion)] at run
  obtain ⟨s₁, wait, rfl⟩ := Option.map_eq_some_iff.mp run
  obtain ⟨h', free⟩ := h.wait wait
  obtain ⟨taken, h'', -, ⟨rfl, -⟩ | ⟨-, full⟩⟩ := h'.transmit closed c
  · exact h''
  · rw [free] at full
    exact absurd full (Nat.not_le.mpr s₁.uart.room_pos)

/-- Characters one after the other. -/
lemma Port.puts {cs : List UInt8} (h : Port line before true set s sent got) (closed : set.latch = false)
    (run : cs.foldlM (serialPutc line) s = some s') : Port line before true set s' (sent ++ cs) got := by
  induction cs generalizing s sent with
  | nil =>
    cases run
    rwa [List.append_nil]
  | cons c cs ih =>
    rw [List.foldlM_cons] at run
    obtain ⟨s₁, first, run⟩ := Option.bind_eq_some_iff.mp run
    have rest := ih (h.putc closed first) run
    rwa [List.append_assoc, List.singleton_append] at rest

/-- Characters that nothing waits for: all are taken where the buffer has room for them. -/
lemma Port.greet (h : Port line before ready set s sent got) (closed : set.latch = false) (cs : List UInt8) :
    ∃ taken, taken.Sublist cs ∧
      Port line before ready set (cs.foldl (fun s ch => outb line 0 ch s) s) (sent ++ taken) got ∧
      (s.uart.buffered = true → s.uart.holding.length + cs.length ≤ 16 → taken = cs) := by
  induction cs generalizing s sent with
  | nil => exact ⟨[], .refl _, by rwa [List.append_nil], fun _ _ => rfl⟩
  | cons c cs ih =>
    obtain ⟨first, h', buffered, outcome⟩ := h.transmit closed c
    obtain ⟨rest, sub, h'', all⟩ := ih h'
    rw [buffered] at all
    rw [List.append_assoc] at h''
    refine ⟨first ++ rest, ?_, h'', fun on fits => ?_⟩
    · obtain ⟨rfl, -⟩ | ⟨rfl, -⟩ := outcome
      · exact sub.cons_cons c
      · exact sub.cons c
    · rw [List.length_cons] at fits
      obtain ⟨rfl, le⟩ | ⟨-, full⟩ := outcome
      · rw [all on (by omega)]
        rfl
      · rw [Uart.room, if_pos on] at full
        omega

/-! ## The calls. -/

/-- A digit of `serial_write_hex`. -/
lemma hexDigit_eq (v : UInt32) {i : Nat} (lt : i < 8) :
    (v >>> (UInt32.ofNat i * 4) &&& 0xF).toNat = v.toNat / 16 ^ i % 16 := by
  have shift : (UInt32.ofNat i * 4).toNat = 4 * i := by
    rw [UInt32.toNat_mul, UInt32.toNat_ofNat', Nat.mod_eq_of_lt (by omega : i < 2 ^ 32)]
    change i * 4 % 2 ^ 32 = 4 * i
    omega
  have field := toNat_field v (UInt32.ofNat i * 4) (k := 4) (by omega) (by decide)
  rwa [shift, Nat.pow_mul] at field

/-- The digits that `serial_write_dec` finds. -/
lemma decimalDigits_eq (n : Nat) (v : UInt32) :
    decimalDigits n v = (Stdio.itoaLoop 10 n v.toNat).map fun (d : Nat) => digitChar (d : Int) := by
  have table : ∀ d < 10, 48 + (UInt32.ofNat d).toUInt8 = digitChar (d : Int) := by decide
  induction n generalizing v with
  | zero => rfl
  | succ n ih =>
    rw [decimalDigits, Stdio.itoaLoop]
    by_cases zero : v = 0
    · rw [zero]
      rfl
    · have ne : v.toNat ≠ 0 := fun eq => zero (UInt32.toNat_inj.mp eq)
      have digit : v % 10 = UInt32.ofNat (v.toNat % 10) := by
        rw [← UInt32.ofNat_toNat (x := v % 10), UInt32.toNat_mod]
        rfl
      rw [if_neg zero, if_neg ne, List.map_cons, ih, digit, table _ (Nat.mod_lt _ (by decide)), UInt32.toNat_div]
      rfl

lemma decimalDigits_reverse {v : UInt32} (ne : v ≠ 0) : (decimalDigits 15 v).reverse = decimal v.toNat := by
  have pos : v.toNat ≠ 0 := fun eq => ne (UInt32.toNat_inj.mp eq)
  have top := v.toNat_lt
  rw [decimalDigits_eq, Stdio.itoaLoop_eq (by decide) pos (by omega), decimal, Stdio.signed, if_neg (by omega),
    List.nil_append, List.map_reverse]
  rfl

lemma Port.write {str : List UInt8} (h : Port line before true set s sent got) (closed : set.latch = false)
    (run : serialWrite line str s = some s') : Port line before true set s' (sent ++ str) got := by
  rw [serialWrite, if_neg (by rw [h.ready]; exact Bool.noConfusion)] at run
  exact h.puts closed run

lemma Port.writeHex {v : UInt32} (h : Port line before true set s sent got) (closed : set.latch = false)
    (run : serialWriteHex line v s = some s') : Port line before true set s' (sent ++ hexText v) got := by
  obtain ⟨s₁, first, run⟩ := Option.bind_eq_some_iff.mp run
  rw [← List.foldlM_map (f := fun i => hexDigits.getD (v >>> (UInt32.ofNat i * 4) &&& 0xF).toNat 0)] at run
  have digits : ([7, 6, 5, 4, 3, 2, 1, 0].map fun i => hexDigits.getD (v >>> (UInt32.ofNat i * 4) &&& 0xF).toNat 0) =
      [7, 6, 5, 4, 3, 2, 1, 0].map fun i => hexDigits.getD (v.toNat / 16 ^ i % 16) 0 := by
    refine List.map_congr_left fun i mem => ?_
    have lt : ∀ i ∈ [7, 6, 5, 4, 3, 2, 1, 0], i < 8 := by decide
    rw [hexDigit_eq v (lt i mem)]
  have all := (h.write closed first).puts closed run
  rwa [digits, List.append_assoc] at all

lemma Port.writeDec {v : UInt32} (h : Port line before true set s sent got) (closed : set.latch = false)
    (run : serialWriteDec line v s = some s') : Port line before true set s' (sent ++ decimal v.toNat) got := by
  rw [serialWriteDec] at run
  split_ifs at run with zero
  · rw [zero]
    exact h.putc closed run
  · rw [decimalDigits_reverse zero] at run
    exact h.puts closed run

/-- `serial_getchar_nonblock` takes the oldest character that has arrived. -/
lemma Port.getchar (h : Port line before true set s sent got) (closed : set.latch = false) :
    ∃ taken, Port line before true set (serialGetcharNonblock line s).2 sent (got ++ taken) ∧
      ((serialGetcharNonblock line s).1 = -1 ∧ taken = [] ∨
        ∃ v : UInt8, (serialGetcharNonblock line s).1 = v.toNat ∧ taken = [v]) := by
  have ready := h.ready
  have ticked := h.tick
  have later := ticked.tick
  generalize eq₁ : s.tick line = s₁ at ticked later
  generalize eq₂ : s₁.tick line = s₂ at later
  have status : serialDataReady line s = (decide (s₁.uart.status &&& 0x01 ≠ 0), s₁) := by rw [← eq₁]; rfl
  rw [serialGetcharNonblock, if_neg (by rw [ready]; exact Bool.noConfusion), status]
  by_cases arrived : s₁.uart.received = []
  · have none : decide (s₁.uart.status &&& 0x01 ≠ 0) = false := by
      refine decide_eq_false fun bit => ?_
      exact Uart.status_receive.mp bit arrived
    simp only [none, if_true]
    exact ⟨[], by rwa [List.append_nil], .inl ⟨trivial, rfl⟩⟩
  · have some : decide (s₁.uart.status &&& 0x01 ≠ 0) = true := decide_eq_true (Uart.status_receive.mpr arrived)
    have still : s₂.uart.received ≠ [] := by
      rw [← eq₂]
      exact Uart.arrive_ne_nil arrived
    have latch : s₂.uart.latch = false := by rw [← closed, ← later.settings]; rfl
    have read : inb line 0 s₁ =
        (s₂.uart.received.headD 0, { s₂ with uart := { s₂.uart with received := s₂.uart.received.tail } }) := by
      have access : inb line 0 s₁ = ((s₂.uart.in_ 0).1, { s₂ with uart := (s₂.uart.in_ 0).2 }) := by rw [← eq₂]; rfl
      have reg : s₂.uart.in_ 0 = (s₂.uart.received.headD 0, { s₂.uart with received := s₂.uart.received.tail }) := by
        change (if s₂.uart.latch then _ else _) = _
        rw [latch, if_neg Bool.false_ne_true]
      rw [access, reg]
    obtain ⟨v, rest, split⟩ := List.exists_cons_of_ne_nil still
    simp only [some, Bool.true_eq_false, if_false, read, split, List.headD_cons, List.tail_cons]
    refine ⟨[v], ⟨later.ready, later.settings, later.sent, ?_⟩, .inr ⟨v, rfl, rfl⟩⟩
    have sub := later.read
    rw [split] at sub
    rwa [List.append_assoc]

/-- A call writes its text behind what was written before, and reads what has arrived. -/
lemma Port.step {x x' : State × List UInt8} {op : Op} (h : Port line before true set x.1 sent x.2)
    (closed : set.latch = false) (run : step line x op = some x') :
    Port line before true set x'.1 (sent ++ op.text) x'.2 := by
  cases op with
  | write str =>
    obtain ⟨s', call, rfl⟩ := Option.map_eq_some_iff.mp run
    exact h.write closed call
  | writeHex v =>
    obtain ⟨s', call, rfl⟩ := Option.map_eq_some_iff.mp run
    exact h.writeHex closed call
  | writeDec v =>
    obtain ⟨s', call, rfl⟩ := Option.map_eq_some_iff.mp run
    exact h.writeDec closed call
  | getchar =>
    cases run
    obtain ⟨taken, h', outcome⟩ := h.getchar closed
    change Port line before true set (serialGetcharNonblock line x.1).2 (sent ++ [])
      (if (serialGetcharNonblock line x.1).1 < 0 then x.2
        else x.2 ++ [(serialGetcharNonblock line x.1).1.toNat.toUInt8])
    rw [List.append_nil]
    obtain ⟨none, rfl⟩ | ⟨v, some, rfl⟩ := outcome
    · rw [none, if_pos (by decide)]
      rwa [List.append_nil] at h'
    · have back : v.toNat.toUInt8 = v := UInt8.ofNat_toNat
      rwa [some, if_neg (by omega), Int.toNat_natCast, back]

/-- All calls of a run. -/
lemma Port.calls {x x' : State × List UInt8} {ops : List Op} (h : Port line before true set x.1 sent x.2)
    (closed : set.latch = false) (run : ops.foldlM (Serial.step line) x = some x') :
    Port line before true set x'.1 (sent ++ ops.flatMap Op.text) x'.2 := by
  induction ops generalizing x sent with
  | nil =>
    cases run
    rwa [List.flatMap_nil, List.append_nil]
  | cons op ops ih =>
    rw [List.foldlM_cons] at run
    obtain ⟨x₁, first, run⟩ := Option.bind_eq_some_iff.mp run
    have rest := ih (h.step closed first) run
    rwa [List.append_assoc] at rest

/-- Without a port that answers, the calls do nothing. -/
lemma step_dead {x : State × List UInt8} (dead : x.1.serialReady = false) (op : Op) : step line x op = some x := by
  have putc (c : UInt8) : serialPutc line x.1 c = some x.1 := by rw [serialPutc, if_pos dead]
  have puts (cs : List UInt8) : cs.foldlM (serialPutc line) x.1 = some x.1 := by
    induction cs with
    | nil => rfl
    | cons c cs ih => rw [List.foldlM_cons, putc]; exact ih
  cases op with
  | write str =>
    rw [Serial.step, serialWrite, if_pos dead]
    rfl
  | writeHex v =>
    rw [Serial.step, serialWriteHex, serialWrite, if_pos dead, Option.bind_some,
      ← List.foldlM_map (f := fun i => hexDigits.getD (v >>> (UInt32.ofNat i * 4) &&& 0xF).toNat 0), puts]
    rfl
  | writeDec v =>
    rw [Serial.step, serialWriteDec]
    split_ifs
    · rw [putc]
      rfl
    · rw [puts]
      rfl
  | getchar =>
    rw [Serial.step, serialGetcharNonblock, if_pos dead]
    rfl

lemma calls_dead {x : State × List UInt8} (dead : x.1.serialReady = false) (ops : List Op) :
    ops.foldlM (Serial.step line) x = some x := by
  induction ops with
  | nil => rfl
  | cons op ops ih =>
    rw [List.foldlM_cons, step_dead dead]
    exact ih

/-! ## `serial_init`. -/

lemma latch_open : (set.out 3 0x80).latch = true := by
  change decide ((0x80 : UInt8) &&& 0x80 ≠ 0) = true
  decide

lemma latch_initialised : set.initialised.latch = false := by
  change decide ((0x03 : UInt8) &&& 0x80 ≠ 0) = false
  decide

lemma out_initialised :
    (((((((set.out 1 0).out 3 0x80).out 0 1).out 1 0).out 3 3).out 2 0xC7).out 4 0x0B).out 7 0xAE =
      set.initialised := by
  have divisor (set : Settings) : (((set.out 3 0x80).out 0 1).out 1 0) =
      { set with lineControl := 0x80, divisorLow := 1, divisorHigh := 0 } := by
    have low : (set.out 3 0x80).out 0 1 = { set.out 3 0x80 with divisorLow := 1 } := if_pos latch_open
    have high : ({ set.out 3 0x80 with divisorLow := 1 } : Settings).out 1 0 = _ :=
      if_pos (show (set.out 3 0x80).latch = true from latch_open)
    rw [low, high]
    rfl
  rw [Settings.initialised, divisor]
  by_cases latch : set.latch = true
  · have first : set.out 1 0 = { set with divisorHigh := 0 } := if_pos latch
    rw [first, if_pos latch]
    rfl
  · have first : set.out 1 0 = { set with interrupts := 0 } := if_neg latch
    rw [first, if_neg latch]
    rfl

/-- The buffer is on and empty, where there is one. -/
def Fresh (u : Uart) : Prop := u.hasBuffer = true → u.buffered = true ∧ u.holding = []

lemma Fresh.tick (h : Fresh s.uart) : Fresh (s.tick line).uart := by
  intro buffer
  obtain ⟨on, empty⟩ := h buffer
  refine ⟨on, ?_⟩
  change s.uart.holding.drop _ = []
  rw [empty, List.drop_nil]

lemma fresh_control (s : State) : Fresh (outb line 2 0xC7 s).uart := by
  intro buffer
  have has : (s.tick line).uart.hasBuffer = true := Uart.hasBuffer_control.symm.trans buffer
  exact Uart.control_fresh has (by decide) (by decide)

lemma Fresh.modem (h : Fresh s.uart) (v : UInt8) : Fresh (outb line 4 v s).uart := h.tick

lemma Fresh.scratch (h : Fresh s.uart) (v : UInt8) : Fresh (outb line 7 v s).uart := h.tick

/-- The registers are set before the test. -/
lemma Port.setups (h : Port line before ready set s sent got) :
    ∃ s' sent', sent' <+: sent ∧ Port line before ready set.initialised s' sent' got ∧ Fresh s'.uart ∧
      s'.uart.scratch = 0xAE ∧
      outb line 7 0xAE (outb line 4 0x0B (outb line 2 0xC7 (outb line 3 3 (outb line 1 0 (outb line 0 1
        (outb line 3 0x80 (outb line 1 0 s))))))) = s' := by
  obtain ⟨_, le₁, h₁⟩ := h.setup (.inl (by decide : 1 ≠ 0)) 0
  obtain ⟨_, le₂, h₂⟩ := h₁.setup (.inl (by decide : 3 ≠ 0)) 0x80
  obtain ⟨_, le₃, h₃⟩ := h₂.setup (.inr latch_open) 1
  obtain ⟨_, le₄, h₄⟩ := h₃.setup (.inl (by decide : 1 ≠ 0)) 0
  obtain ⟨_, le₅, h₅⟩ := h₄.setup (.inl (by decide : 3 ≠ 0)) 3
  obtain ⟨_, le₆, h₆⟩ := h₅.setup (.inl (by decide : 2 ≠ 0)) 0xC7
  obtain ⟨_, le₇, h₇⟩ := h₆.setup (.inl (by decide : 4 ≠ 0)) 0x0B
  obtain ⟨_, le₈, h₈⟩ := h₇.setup (.inl (by decide : 7 ≠ 0)) 0xAE
  rw [out_initialised] at h₈
  refine ⟨_, _, ?_, h₈, ((fresh_control _).modem _).scratch _, rfl, rfl⟩
  exact le₈.trans (le₇.trans (le₆.trans (le₅.trans (le₄.trans (le₃.trans (le₂.trans le₁))))))

/-- `serial_init` finds out whether there is a port; to one with a buffer, it sends all test characters. -/
lemma Port.init (h : Port line before false set s sent got) :
    ∃ old greeting, old <+: sent ∧ greeting.Sublist banner ∧ (set.hasScratch = false → greeting = []) ∧
      (set.hasScratch = true → set.hasBuffer = true → greeting = banner) ∧
      Port line before set.hasScratch set.initialised (serialInit line s) (old ++ greeting) got := by
  obtain ⟨s₁, old, le, h₁, fresh, scratch, eq⟩ := h.setups
  have test : inb line 7 s₁ = (if s₁.uart.hasScratch then s₁.uart.scratch else 0xFF, s₁.tick line) := rfl
  have kind : s₁.uart.hasScratch = set.hasScratch := congrArg Settings.hasScratch h₁.settings
  have buffer : (s₁.tick line).uart.hasBuffer = set.hasBuffer := congrArg Settings.hasBuffer h₁.tick.settings
  refine ⟨old, ?_⟩
  rw [serialInit]
  dsimp only
  rw [eq, test, kind, scratch]
  cases has : set.hasScratch with
  | false => exact ⟨[], le, List.nil_sublist _, fun _ => rfl, Bool.noConfusion, by rw [List.append_nil]; exact h₁.tick⟩
  | true =>
    obtain ⟨greeting, sub, h₂, all⟩ := h₁.tick.greet latch_initialised banner
    refine ⟨greeting, le, sub, Bool.noConfusion, fun _ some => ?_, ⟨rfl, h₂.settings, h₂.sent, h₂.read⟩⟩
    obtain ⟨on, empty⟩ := fresh.tick (buffer.trans some)
    exact all on (by rw [empty]; decide)

/-! ## All calls return. -/

/-- Again and again, something goes to the line. -/
def Goes (line : Line) : Prop := ∀ n, ∃ m ≥ n, 0 < (line m).1

/-- The transmitter is empty at last: what it holds becomes less each time that something goes to the line. -/
lemma wait_returns (goes : Goes line) (s : State) : ∃ s', loop (waitPass line) s = some s' := by
  have leave {s : State} (free : (s.tick line).uart.holding = []) : ∃ s', loop (waitPass line) s = some s' :=
    ⟨s.tick line, loop_done (by rw [waitPass_eq, if_pos free])⟩
  have again {s : State} (rest : ∃ s', loop (waitPass line) (s.tick line) = some s') :
      ∃ s', loop (waitPass line) s = some s' := by
    by_cases free : (s.tick line).uart.holding = []
    · exact leave free
    · rwa [loop_next (by rw [waitPass_eq, if_neg free])]
  obtain ⟨k, le⟩ : ∃ k, s.uart.holding.length ≤ k := ⟨_, Nat.le_refl _⟩
  induction k generalizing s with
  | zero => exact leave (List.eq_nil_of_length_eq_zero (Nat.le_zero.mp (Uart.holding_pass_le.trans le)))
  | succ k less =>
    obtain ⟨m, later, sends⟩ := goes s.time
    obtain ⟨d, rfl⟩ := Nat.exists_eq_add_of_le later
    -- the next access before which something goes to the line is `d` away
    induction d generalizing s with
    | zero =>
      have rest : (s.uart.holding.drop (line s.time).1).length ≤ k := by
        rw [Nat.add_zero] at sends
        rw [List.length_drop]
        omega
      exact again (less (s.tick line) rest)
    | succ d nearer =>
      have time : (s.tick line).time + d = s.time + (d + 1) := Nat.add_right_comm s.time 1 d
      exact again (nearer (s.tick line) (Uart.holding_pass_le.trans le) (Nat.le_add_right _ d) (by rwa [time]))

lemma putc_returns (goes : Goes line) (s : State) (c : UInt8) : ∃ s', serialPutc line s c = some s' := by
  rw [serialPutc]
  split_ifs
  · exact ⟨s, rfl⟩
  · obtain ⟨s', wait⟩ := wait_returns goes s
    exact ⟨_, by rw [wait]; rfl⟩

lemma write_returns (goes : Goes line) (str : List UInt8) (s : State) : ∃ s', serialWrite line str s = some s' := by
  rw [serialWrite]
  split_ifs
  · exact ⟨s, rfl⟩
  · exact foldlM_returns (putc_returns goes) str s

lemma step_returns (goes : Goes line) (x : State × List UInt8) (op : Op) : ∃ x', step line x op = some x' := by
  cases op with
  | write str =>
    obtain ⟨s', call⟩ := write_returns goes str x.1
    exact ⟨(s', x.2), by rw [Serial.step, call]; rfl⟩
  | writeHex v =>
    obtain ⟨s₁, first⟩ := write_returns goes (ascii "0x") x.1
    have digits (s : State) (i : Nat) : ∃ s',
        serialPutc line s (hexDigits.getD (v >>> (UInt32.ofNat i * 4) &&& 0xF).toNat 0) = some s' :=
      putc_returns goes s _
    obtain ⟨s', rest⟩ := foldlM_returns digits [7, 6, 5, 4, 3, 2, 1, 0] s₁
    exact ⟨(s', x.2), by rw [Serial.step, serialWriteHex, first, Option.bind_some, rest]; rfl⟩
  | writeDec v =>
    have call : ∃ s', serialWriteDec line v x.1 = some s' := by
      rw [serialWriteDec]
      split_ifs
      · exact putc_returns goes x.1 48
      · exact foldlM_returns (putc_returns goes) _ x.1
    obtain ⟨s', call⟩ := call
    exact ⟨(s', x.2), by rw [Serial.step, call]; rfl⟩
  | getchar => exact ⟨_, rfl⟩

/-- After `serial_init`, what goes to the line is the text of the calls, in order and without a gap, behind the test
    characters, which only a port without a buffer may lose. What was read are characters that came in, in their
    order. Without a port, nothing happens. As long as the line goes on, all calls return. -/
theorem serial_lossless (line : Line) (u : Uart) (ops : List Op) :
    (∀ s got, run line u ops = some (s, got) →
      settings s.uart = (settings u).initialised ∧ ∃ old greeting, old <+: u.sent ∧ greeting.Sublist banner ∧
        (u.hasScratch = true → u.hasBuffer = true → greeting = banner) ∧
        if u.hasScratch then
          s.uart.sent = old ++ greeting ++ ops.flatMap Op.text ∧ got.Sublist (u.received ++ arrivals line s.time)
        else s.uart.sent = old ∧ got = []) ∧
      (Goes line → ∃ s got, run line u ops = some (s, got)) := by
  have start : Port line u.received false (settings u) ⟨u, 0, false⟩ u.sent [] :=
    ⟨rfl, rfl, rfl, List.sublist_append_left _ _⟩
  obtain ⟨old, greeting, le, sub, none, all, port⟩ := start.init
  unfold run
  generalize serialInit line ⟨u, 0, false⟩ = s₀ at port ⊢
  refine ⟨fun s got calls => ?_, fun goes => ?_⟩
  · cases has : u.hasScratch with
    | true =>
      change (settings u).hasScratch = true at has
      rw [has] at port
      have after := Port.calls (x := (_, [])) port latch_initialised calls
      refine ⟨after.settings, old, greeting, le, sub, fun _ => all has, ?_⟩
      rw [if_pos rfl]
      exact ⟨after.sent, (List.sublist_append_left _ _).trans after.read⟩
    | false =>
      change (settings u).hasScratch = false at has
      rw [has] at port
      have same := (calls_dead (x := (_, [])) port.ready ops).symm.trans calls
      obtain ⟨rfl, rfl⟩ := Prod.mk.inj (Option.some.inj same)
      refine ⟨port.settings, old, greeting, le, sub, Bool.noConfusion, ?_⟩
      rw [if_neg Bool.false_ne_true, port.sent, none has, List.append_nil]
      exact ⟨rfl, rfl⟩
  · obtain ⟨x, calls⟩ := foldlM_returns (step_returns goes) ops (s₀, [])
    exact ⟨x.1, x.2, calls⟩

/-- A line that sends a byte at each access. -/
theorem serial_lossless_line : ∃ s got,
    run (fun _ => (1, [])) ⟨0, 0, 0, 0, 0, 0, true, true, false, [], [], []⟩ [.write (ascii "up"), .writeDec 42] =
      some (s, got) ∧ s.uart.sent = banner ++ ascii "up" ++ ascii "42" := by
  obtain ⟨s, got, calls⟩ := (serial_lossless (fun _ => (1, [])) ⟨0, 0, 0, 0, 0, 0, true, true, false, [], [], []⟩
    [.write (ascii "up"), .writeDec 42]).2 fun n => ⟨n, Nat.le_refl n, Nat.one_pos⟩
  obtain ⟨-, old, greeting, le, -, all, sent⟩ := (serial_lossless _ _ _).1 s got calls
  refine ⟨s, got, calls, ?_⟩
  rw [if_pos rfl] at sent
  have none : old = [] := List.prefix_nil.mp le
  rw [sent.1, none, all rfl rfl]
  rfl

end RetaOS.Serial
