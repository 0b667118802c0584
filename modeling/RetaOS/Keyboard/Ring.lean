import RetaOS.Keyboard.Defs
import RetaOS.Lib.Ring

/-!
# The key ring

The ring of the driver is a queue of at most 127 keys: `pushKey_represents` for the interrupt handler and
`advance_represents` for the update of `tail`. The reader needs several accesses for one key, and `Reading` says what
it may rely on after each whatever the handler does in between: only the reader moves `tail`, and a push neither
empties the ring nor touches its oldest slot. `keyboard_fifo` is the induction over a run.
-/

namespace RetaOS.Keyboard
open Lib

variable {d : Driver} {q : Queue UInt16 127} {key : UInt16} {sc : UInt8} {s s' : System} {a : Action} {h : History}

/-- The slots of the ring by their index. -/
def slots (d : Driver) (i : Nat) : UInt16 := d.ring[i]?.getD 0

/-- The keys in the ring, the oldest first. -/
def pending (d : Driver) : List UInt16 := Ring.items 128 (slots d) d.head.toNat d.tail.toNat

/-- The driver holds a queue of keys. -/
structure Represents (d : Driver) (q : Queue UInt16 127) : Prop where
  head : d.head.toNat < 128
  tail : d.tail.toNat < 128
  items : pending d = q.items

/-- The index after another. -/
lemma toNat_next {i : UInt32} (h : i.toNat < 128) : ((i + 1) % BUF_SIZE).toNat = (i.toNat + 1) % 128 := by
  have next : (i + 1).toNat = i.toNat + 1 := toNat_add_ofNat (n := 1) (by omega)
  rw [UInt32.toNat_mod, next]
  rfl

/-- What `decode` changes is not the ring. -/
lemma decode_ring (sc : UInt8) (d : Driver) :
    (decode sc d).1.ring = d.ring ∧ (decode sc d).1.head = d.head ∧ (decode sc d).1.tail = d.tail := by
  fun_cases decode sc d <;> exact ⟨rfl, rfl, rfl⟩

/-- The slots after a store in one of them. -/
lemma slots_store {head : UInt32} (h : d.head.toNat < 128) :
    slots { d with ring := d.ring.setIfInBounds d.head.toNat key, head := head } =
      Function.update (slots d) d.head.toNat key := by
  funext i
  by_cases eq : i = d.head.toNat
  · subst eq
    rw [Function.update_self, slots, Vector.getElem?_setIfInBounds_self, if_pos h]
    rfl
  · rw [Function.update_of_ne eq, slots, Vector.getElem?_setIfInBounds_ne (Ne.symm eq), slots]

/-- A push on a full ring is dropped, when 127 keys are pending. -/
lemma pushKey_full (key : UInt16) (r : Represents d q) (full : (d.head + 1) % BUF_SIZE = d.tail) :
    pushKey key d = d ∧ q.items.length = 127 := by
  refine ⟨?_, ?_⟩
  · rw [pushKey, if_neg (by rw [full]; simp)]
  · have meet := congrArg UInt32.toNat full
    rw [toNat_next r.head] at meet
    rw [← r.items]
    exact (Ring.full_iff (slots d) r.head r.tail).mp meet

/-- Any other push is stored. -/
lemma pushKey_stored (key : UInt16) (r : Represents d q) (room : (d.head + 1) % BUF_SIZE ≠ d.tail) :
    pushKey key d =
        { d with ring := d.ring.setIfInBounds d.head.toNat key, head := (d.head + 1) % BUF_SIZE } ∧
      q.items.length < 127 := by
  refine ⟨?_, ?_⟩
  · rw [pushKey, if_pos room]
  · have apart : (d.head.toNat + 1) % 128 ≠ d.tail.toNat := by
      intro meet
      apply room
      apply UInt32.toNat_inj.mp
      rw [toNat_next r.head, meet]
    have length := mt (Ring.full_iff (slots d) r.head r.tail).mpr apart
    have bound := q.fits
    change (pending d).length ≠ 127 at length
    rw [r.items] at length
    omega

/-- `push_key` is the push of a queue of 127 keys. -/
theorem pushKey_represents (r : Represents d q) : Represents (pushKey key d) (q.push key) := by
  by_cases full : (d.head + 1) % BUF_SIZE = d.tail
  · obtain ⟨eq, length⟩ := pushKey_full key r full
    rw [eq, Queue.push_full (by omega)]
    exact r
  · obtain ⟨eq, length⟩ := pushKey_stored key r full
    have apart : (d.head.toNat + 1) % 128 ≠ d.tail.toNat := by
      intro meet
      apply full
      apply UInt32.toNat_inj.mp
      rw [toNat_next r.head, meet]
    rw [eq]
    refine ⟨?_, r.tail, ?_⟩
    · rw [toNat_next r.head]
      exact Nat.mod_lt _ (by decide)
    · rw [Queue.push_items length, ← r.items, pending, slots_store r.head]
      show Ring.items 128 _ ((d.head + 1) % BUF_SIZE).toNat d.tail.toNat = _
      rw [toNat_next r.head]
      exact Ring.items_push r.head r.tail apart

/-- The update of `tail` is the pop. -/
theorem advance_represents (r : Represents d q) (some : d.head ≠ d.tail) :
    Represents { d with tail := (d.tail + 1) % BUF_SIZE } q.pop ∧ q.items = slots d d.tail.toNat :: q.pop.items := by
  have apart : d.head.toNat ≠ d.tail.toNat := fun eq => some (UInt32.toNat_inj.mp eq)
  have items : q.items = slots d d.tail.toNat ::
      Ring.items 128 (slots d) d.head.toNat ((d.tail + 1) % BUF_SIZE).toNat := by
    rw [← r.items, toNat_next r.tail]
    exact Ring.items_pop r.head r.tail apart
  have popped : q.pop.items = Ring.items 128 (slots d) d.head.toNat ((d.tail + 1) % BUF_SIZE).toNat := by
    show q.items.tail = _
    rw [items, List.tail_cons]
  refine ⟨⟨r.head, ?_, popped.symm⟩, ?_⟩
  · show ((d.tail + 1) % BUF_SIZE).toNat < 128
    rw [toNat_next r.tail]
    exact Nat.mod_lt _ (by decide)
  · rw [popped]
    exact items

/-- An empty ring. -/
lemma head_eq_tail_iff (r : Represents d q) : d.head = d.tail ↔ q.items = [] := by
  rw [← r.items, pending, Ring.items_eq_nil_iff r.head r.tail, UInt32.toNat_inj]

/-! ## The reader and the handler. -/

/-- What the reader knows, whatever the handler does in between. -/
def Reading (d : Driver) (q : Queue UInt16 127) (sawEmpty : Bool) : Reader → Prop
  | .idle => True
  | .head h => (h = d.tail → sawEmpty) ∧ (h ≠ d.tail → q.items ≠ [])
  | .tail t => t = d.tail
  | .some => q.items ≠ []
  | .index t => t = d.tail ∧ q.items ≠ []
  | .key k => q.items.head? = some k
  | .release k t => t = d.tail ∧ q.items.head? = some k
  | .done result => result = -1 → sawEmpty

/-- The result of a call that is about to return. -/
def Reader.result : Reader → List Int
  | .done result => [result]
  | _ => []

/-- The keys among the results of calls. -/
def keys (results : List Int) : List Int := results.filter (0 ≤ ·)

/-- A key as a result. -/
def toResult (k : UInt16) : Int := k.toNat

/-- The reader has taken the oldest of the accepted keys, and the ring holds the others. -/
structure Inv (s : System) (taken : List UInt16) (q : Queue UInt16 127) : Prop where
  represents : Represents s.driver q
  accepted : s.history.accepted = taken ++ q.items
  released : s.history.released = taken.length
  returned : keys (s.history.returned ++ s.reader.result) = taken.map toResult
  reading : Reading s.driver q s.history.sawEmpty s.reader

lemma start_inv (d : Driver) : Inv (start d) [] Queue.empty := by
  have zero : (0 : UInt32).toNat < 128 := by decide
  exact ⟨⟨zero, zero, (Ring.items_eq_nil_iff zero zero).mpr rfl⟩, rfl, rfl, rfl, trivial⟩

/-- The oldest key stays where it is when another is pushed. -/
lemma head?_push (some : q.items ≠ []) : (q.push key).items ≠ [] ∧ (q.push key).items.head? = q.items.head? := by
  rw [Queue.push]
  split
  · refine ⟨by simp, ?_⟩
    rw [List.head?_append_of_ne_nil _ some]
  · exact ⟨some, rfl⟩

/-- What the reader knows stays true while `tail` and the oldest key do not change. -/
lemma Reading.mono {saw : Bool} {r : Reader} {d' : Driver} {q' : Queue UInt16 127} (reading : Reading d q saw r)
    (tail : d'.tail = d.tail) (first : q.items ≠ [] → q'.items ≠ [] ∧ q'.items.head? = q.items.head?) :
    Reading d' q' saw r := by
  have keep : ∀ k, q.items.head? = some k → q'.items.head? = some k := by
    intro k eq
    have some : q.items ≠ [] := by
      intro empty
      rw [empty] at eq
      cases eq
    exact (first some).2.trans eq
  cases r with
  | idle => trivial
  | head h =>
    obtain ⟨empty, some⟩ := reading
    rw [← tail] at empty some
    exact ⟨empty, fun ne => (first (some ne)).1⟩
  | tail t => exact Eq.trans reading tail.symm
  | some => exact (first reading).1
  | index t => exact ⟨reading.1.trans tail.symm, (first reading.2).1⟩
  | key k => exact keep k reading
  | release k t => exact ⟨reading.1.trans tail.symm, keep k reading.2⟩
  | done result => exact reading

lemma pushKey_tail : (pushKey key d).tail = d.tail := by
  fun_cases pushKey key d <;> rfl

/-- `push_key` moves `head` exactly when it stores the key. -/
lemma pushKey_head (key : UInt16) (r : Represents d q) : (pushKey key d).head = d.head ↔ ¬ q.items.length < 127 := by
  by_cases full : (d.head + 1) % BUF_SIZE = d.tail
  · obtain ⟨eq, length⟩ := pushKey_full key r full
    rw [eq]
    exact ⟨fun _ => by omega, fun _ => rfl⟩
  · obtain ⟨eq, length⟩ := pushKey_stored key r full
    rw [eq]
    refine ⟨fun same => ?_, fun more => absurd length more⟩
    have next := congrArg UInt32.toNat same
    have lt := r.head
    rw [show ({ d with ring := _, head := _ } : Driver).head = (d.head + 1) % BUF_SIZE from rfl, toNat_next lt] at next
    omega

/-- What the handler does to the queue, and what the history makes of it. -/
lemma keyboardIrqHandler_spec (sc : UInt8) (r : Represents d q) : ∃ q', Represents (keyboardIrqHandler sc d) q' ∧
    (keyboardIrqHandler sc d).tail = d.tail ∧
    (q.items ≠ [] → q'.items ≠ [] ∧ q'.items.head? = q.items.head?) ∧
    (∀ (h : History) (taken : List UInt16), h.accepted = taken ++ q.items →
      (h.pushed d (keyboardIrqHandler sc d) (decode sc d).2).accepted = taken ++ q'.items) ∧
    ∀ key, (decode sc d).2 = some key → (keyboardIrqHandler sc d).head = d.head → q.items.length = 127 := by
  obtain ⟨ring, head, tail⟩ := decode_ring sc d
  have same : Represents (decode sc d).1 q := by
    refine ⟨by rw [head]; exact r.head, by rw [tail]; exact r.tail, ?_⟩
    rw [← r.items, pending, pending, head, tail]
    congr 1
    funext i
    rw [slots, slots, ring]
  rw [keyboardIrqHandler]
  cases decoded : decode sc d with
  | mk d' key? =>
    rw [decoded] at head tail same
    cases key? with
    | none =>
      refine ⟨q, same, tail, fun some => ⟨some, rfl⟩, fun h taken eq => ?_, fun key none => by cases none⟩
      rw [← eq, History.pushed]
      exact congrArg History.accepted (if_pos head)
    | some key =>
      have moved := pushKey_head key same
      rw [show d'.head = d.head from head] at moved
      refine ⟨q.push key, pushKey_represents same, pushKey_tail.trans tail, head?_push, fun h taken eq => ?_,
        fun _ _ stays => Nat.le_antisymm q.fits (Nat.le_of_not_lt (moved.mp stays))⟩
      by_cases room : q.items.length < 127
      · rw [Queue.push_items room, ← List.append_assoc, ← eq]
        exact congrArg History.accepted (if_neg fun stays => moved.mp stays room)
      · rw [Queue.push_full room, ← eq]
        exact congrArg History.accepted (if_pos (moved.mpr room))

/-- The handler adds accepted keys to the history, and nothing else. -/
lemma History.pushed_frame (old new : Driver) (key : Option UInt16) (h : History) :
    (h.pushed old new key).released = h.released ∧ (h.pushed old new key).returned = h.returned ∧
      (h.pushed old new key).sawEmpty = h.sawEmpty := by
  fun_cases History.pushed old new key h <;> exact ⟨rfl, rfl, rfl⟩

/-- A step of the handler. -/
lemma irq_inv {taken : List UInt16} (inv : Inv s taken q) (next : step s (.irq sc) = some s') :
    ∃ q', Inv s' taken q' := by
  cases Option.some.inj next
  obtain ⟨q', represents, tail, first, accepted, -⟩ := keyboardIrqHandler_spec sc inv.represents
  obtain ⟨released, returned, saw⟩ :=
    s.history.pushed_frame s.driver (keyboardIrqHandler sc s.driver) (decode sc s.driver).2
  refine ⟨q', represents, accepted _ _ inv.accepted, released.trans inv.released, ?_, ?_⟩
  · show keys ((s.history.pushed _ _ _).returned ++ _) = _
    rw [returned]
    exact inv.returned
  · show Reading _ _ (s.history.pushed _ _ _).sawEmpty _
    rw [saw]
    exact inv.reading.mono tail first

/-- The comparison takes the reader on as an empty ring or another. -/
lemma test_reading {x t : UInt32} {saw : Bool} (empty : x = t → saw) (some : x ≠ t → q.items ≠ []) :
    Reading d q saw (.test x t) := by
  rw [Reader.test]
  split
  · case isTrue eq => exact fun _ => empty eq
  · case isFalse ne => exact some ne

/-- An empty ring yields no key. -/
lemma keys_test (x t : UInt32) (results : List Int) : keys (results ++ (Reader.test x t).result) = keys results := by
  rw [keys, List.filter_append, Reader.test]
  split
  · exact List.append_nil _
  · exact List.append_nil _

/-- A key is a result. -/
lemma keys_result (k : UInt16) (results : List Int) :
    keys (results ++ [toResult k]) = keys results ++ [toResult k] := by
  have nonneg : 0 ≤ toResult k := Int.natCast_nonneg _
  rw [keys, List.filter_append, List.filter_singleton, keys, decide_eq_true nonneg, cond_true]

/-- The update of `tail` releases the oldest key and returns it. -/
lemma release_inv {taken : List UInt16} {d : Driver} {h : History} {k : UInt16} {t : UInt32} {headFirst : Bool}
    (inv : Inv ⟨d, .release k t, h⟩ taken q) (next : step ⟨d, .release k t, h⟩ (.read headFirst) = some s') :
    Inv s' (taken ++ [k]) q.pop := by
  cases Option.some.inj next
  obtain ⟨represents, accepted, released, returned, reading⟩ := inv
  change Represents d q at represents
  change h.accepted = taken ++ q.items at accepted
  change h.released = taken.length at released
  change keys (h.returned ++ []) = _ at returned
  obtain ⟨at_, first⟩ := reading
  obtain rfl : t = d.tail := at_
  have some : q.items ≠ [] := by
    intro nil
    rw [nil] at first
    cases first
  obtain ⟨popped, items⟩ := advance_represents represents (mt (head_eq_tail_iff represents).mp some)
  have oldest : slots d d.tail.toNat = k := by
    rw [items] at first
    exact Option.some.inj first
  rw [oldest] at items
  refine ⟨popped, ?_, ?_, ?_, ?_⟩
  · show h.accepted = _
    rw [accepted, items, List.append_assoc]
    rfl
  · show h.released + 1 = _
    rw [released, List.length_append]
    rfl
  · show keys (h.returned ++ [toResult k]) = _
    have before : keys h.returned = taken.map toResult := (congrArg keys (List.append_nil _)).symm.trans returned
    rw [keys_result, before, List.map_append]
    rfl
  · intro minus
    exact absurd minus (by simp)

/-- An access of the reader. -/
lemma read_inv {taken : List UInt16} {headFirst : Bool} (inv : Inv s taken q)
    (next : step s (.read headFirst) = some s') : ∃ taken' q', Inv s' taken' q' := by
  cases Option.some.inj next
  obtain ⟨d, r, h⟩ := s
  obtain ⟨represents, accepted, released, returned, reading⟩ := inv
  change Represents d q at represents
  change h.accepted = taken ++ q.items at accepted
  change h.released = taken.length at released
  change keys (h.returned ++ r.result) = _ at returned
  change Reading d q h.sawEmpty r at reading
  -- the ring is empty when no accepted key is left to be released
  have empty : h.released = h.accepted.length ↔ d.head = d.tail := by
    rw [head_eq_tail_iff represents, released, accepted, List.length_append, ← List.length_eq_zero_iff]
    omega
  cases r with
  | idle =>
    cases headFirst with
    | false => exact ⟨taken, q, represents, accepted, released, returned, rfl⟩
    | true =>
      refine ⟨taken, q, represents, accepted, released, returned, fun eq => ?_, fun ne => ?_⟩
      · exact decide_eq_true (empty.mpr eq)
      · exact mt (head_eq_tail_iff represents).mpr ne
  | head x =>
    obtain ⟨saw, some⟩ := reading
    refine ⟨taken, q, represents, accepted, released, ?_, test_reading saw some⟩
    exact (keys_test _ _ _).trans ((congrArg keys (List.append_nil _)).symm.trans returned)
  | tail t =>
    obtain rfl : t = d.tail := reading
    refine ⟨taken, q, represents, accepted, released, ?_, test_reading (fun eq => ?_) fun ne => ?_⟩
    · exact (keys_test _ _ _).trans ((congrArg keys (List.append_nil _)).symm.trans returned)
    · exact decide_eq_true (empty.mpr eq)
    · exact mt (head_eq_tail_iff represents).mpr ne
  | some => exact ⟨taken, q, represents, accepted, released, returned, rfl, reading⟩
  | index t =>
    obtain ⟨rfl, some⟩ := reading
    refine ⟨taken, q, represents, accepted, released, returned, ?_⟩
    obtain ⟨-, items⟩ := advance_represents represents (mt (head_eq_tail_iff represents).mp some)
    show q.items.head? = _
    rw [items]
    rfl
  | key k => exact ⟨taken, q, represents, accepted, released, returned, rfl, reading⟩
  | release k t =>
    exact ⟨taken ++ [k], q.pop, release_inv ⟨represents, accepted, released, returned, reading⟩ rfl⟩
  | done result =>
    refine ⟨taken, q, represents, accepted, released, ?_, trivial⟩
    exact (congrArg keys (List.append_nil _)).trans returned

/-- Every interleaving of the handler and the reader. -/
lemma run_inv {d : Driver} (run : Runs step (fun _ _ => True) (start d) s) : ∃ taken q, Inv s taken q := by
  refine run.invariant (I := fun s => ∃ taken q, Inv s taken q) ⟨[], Queue.empty, start_inv d⟩ ?_
  intro x op x' ⟨taken, q, inv⟩ _ next
  cases op with
  | irq sc =>
    obtain ⟨q', inv'⟩ := irq_inv inv next
    exact ⟨taken, q', inv'⟩
  | read headFirst => exact read_inv inv next

/-- The indices stay in the ring; the keys accepted are those the calls have returned and then those in the ring, each
    once and in order; a key is refused only while 127 accepted ones are not released; and a call that returns -1
    has seen the ring empty. -/
theorem keyboard_fifo {d : Driver} (run : Runs step (fun _ _ => True) (start d) s) :
    s.driver.head.toNat < 128 ∧ s.driver.tail.toNat < 128 ∧
      s.history.accepted.map toResult =
        keys (s.history.returned ++ s.reader.result) ++ (pending s.driver).map toResult ∧
      (∀ sc key, (decode sc s.driver).2 = some key → (keyboardIrqHandler sc s.driver).head = s.driver.head →
        s.history.accepted.length = s.history.released + 127) ∧
      (s.reader = .done (-1) → s.history.sawEmpty = true) := by
  obtain ⟨taken, q, inv⟩ := run_inv run
  refine ⟨inv.represents.head, inv.represents.tail, ?_, fun sc key pushed stays => ?_, fun last => ?_⟩
  · rw [inv.accepted, inv.returned, inv.represents.items, List.map_append]
  · obtain ⟨-, -, -, -, -, full⟩ := keyboardIrqHandler_spec sc inv.represents
    rw [inv.accepted, inv.released, List.length_append, full key pushed stays]
  · have reading := inv.reading
    rw [last] at reading
    exact reading rfl

/-- A driver as the loader leaves it. -/
def loaded : Driver :=
  { ring := Vector.replicate 128 0
    head := 0
    tail := 0
    shiftL := false
    shiftR := false
    caps := false
    e0Pending := false }

/-- The key of a scancode is read while another is typed: the second interrupt comes between the read of the slot and
    the update of `tail`. -/
def typed : List Action := [.irq 0x1E, .read true, .read true, .read true, .read true,
  .irq 0x30, .read true, .read true]

set_option maxRecDepth 2000 in
theorem keyboard_fifo_typed : ∃ s, typed.foldlM step (start loaded) = some s ∧ s.reader = .done 97 ∧
    s.history.accepted.map toResult = keys (s.history.returned ++ s.reader.result) ++
      (pending s.driver).map toResult := by
  refine ⟨_, rfl, rfl, ?_⟩
  exact (keyboard_fifo (d := loaded) (Runs.refl.of_foldlM (fun _ _ => trivial) typed rfl)).2.2.1

end RetaOS.Keyboard
