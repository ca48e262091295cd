import LinuxServer.Lib.BoundedQueue
import LinuxServer.Lib.Fault

/-!
# `Log/BlockQueue.lean` — the queue of `block_queue.h`

`block_queue<T>` keeps its items in `m_array`, from the cell behind `m_front` up to `m_back`; both start at
`-1`, run around the array, and go back to `-1` in `clear()`. Every call is one section under `m_mutex`,
and a `pop` that finds the queue empty is as many as it waits times, since `m_cond.wait` gives the lock
back: so a thread that pops is either before its first section or in a wait, and whatever else happens to
the queue may happen in between. A wait may end at any time, and may fail.

`Represents` says which items a queue holds, and every section keeps it. So the queue is a bounded queue
(`Lib/BoundedQueue.lean`), under any threads.
-/

set_option autoImplicit false

namespace LinuxServer

universe u

/-- `block_queue<T>`. The cells of `m_array` hold default values at first. -/
structure BlockQueue (α : Type u) where
  array : List α
  size : Int
  maxSize : Int
  front : Int
  back : Int
  deriving DecidableEq, Repr

namespace BlockQueue

variable {α : Type u}

/-- The constructor, after its test of `max_size`. -/
def initial (array : List α) : BlockQueue α := ⟨array, 0, array.length, -1, -1⟩

/-! ## The calls, under the lock -/

def clear (q : BlockQueue α) : BlockQueue α := { q with size := 0, front := -1, back := -1 }

def full (q : BlockQueue α) : Bool := q.size ≥ q.maxSize

def empty (q : BlockQueue α) : Bool := q.size = 0

/-- `m_array[i]`. -/
def read (q : BlockQueue α) (i : Int) : Except Fault α :=
  if i < 0 then .error .outOfBounds
  else match q.array[i.toNat]? with
    | some x => .ok x
    | none => .error .outOfBounds

/-- `m_array[i] = item`. -/
def write (q : BlockQueue α) (i : Int) (item : α) : Except Fault (BlockQueue α) :=
  if i < 0 ∨ q.array.length ≤ i then .error .outOfBounds
  else .ok { q with array := q.array.set i.toNat item }

/-- `push`. That it wakes the threads that wait is nothing to the queue. -/
def push (q : BlockQueue α) (item : α) : Except Fault (Bool × BlockQueue α) :=
  if q.size ≥ q.maxSize then .ok (false, q)
  else do
    let back := (q.back + 1).tmod q.maxSize
    let q ← { q with back := back }.write back item
    return (true, { q with size := q.size + 1 })

/-- The end of either `pop`. -/
def take (q : BlockQueue α) : Except Fault (α × BlockQueue α) := do
  let front := (q.front + 1).tmod q.maxSize
  let item ← q.read front
  return (item, { q with front := front, size := q.size - 1 })

/-- A section of either `pop`, from its test on: the item, unless there is none. -/
def pop (q : BlockQueue α) : Except Fault (Option α × BlockQueue α) :=
  if q.size ≤ 0 then .ok (none, q)
  else do
    let taken ← q.take
    return (some taken.1, taken.2)

/-- No item is found where there is none, and then nothing is changed. -/
theorem pop_none {α : Type} {q q' : BlockQueue α} (h : q.pop = .ok (none, q')) : q.size ≤ 0 ∧ q' = q := by
  unfold pop at h
  split at h
  · rename_i hempty
    cases h
    exact ⟨hempty, rfl⟩
  · obtain ⟨taken, -, h⟩ := bind_eq_ok.mp h
    cases h

/-! ## The items -/

/-- What a queue holds. -/
structure Represents (q : BlockQueue α) (items : List α) : Prop where
  capacity : q.maxSize = q.array.length
  positive : 0 < q.array.length
  size : q.size = items.length
  room : q.size ≤ q.maxSize
  front : -1 ≤ q.front ∧ q.front < q.maxSize
  back : -1 ≤ q.back ∧ q.back < q.maxSize
  order : q.back ≡ q.front + q.size [ZMOD q.maxSize]
  cells : Ring.Holds q.array (q.front + 1).toNat items

section
variable {q : BlockQueue α} {items : List α} {x : α}

theorem represents_initial {array : List α} (hpos : 0 < array.length) :
    (initial array).Represents [] where
  capacity := rfl
  positive := hpos
  size := rfl
  room := Int.natCast_nonneg _
  front := ⟨Int.le_refl _, by show (-1 : Int) < array.length; omega⟩
  back := ⟨Int.le_refl _, by show (-1 : Int) < array.length; omega⟩
  order := Int.ModEq.refl _
  cells := Ring.holds_nil

theorem Represents.clear (h : q.Represents items) : q.clear.Represents [] where
  capacity := h.capacity
  positive := h.positive
  size := rfl
  room := by
    show (0 : Int) ≤ q.maxSize
    rw [h.capacity]
    exact Int.natCast_nonneg _
  front := ⟨Int.le_refl _, Int.lt_of_le_of_lt h.front.1 h.front.2⟩
  back := ⟨Int.le_refl _, Int.lt_of_le_of_lt h.back.1 h.back.2⟩
  order := Int.ModEq.refl _
  cells := Ring.holds_nil

theorem Represents.full_iff (h : q.Represents items) :
    q.full = true ↔ items.length = q.array.length := by
  have hcapacity := h.capacity
  have hsize := h.size
  have hroom := h.room
  unfold full
  rw [decide_eq_true_iff]
  omega

theorem Represents.empty_iff (h : q.Represents items) : q.empty = true ↔ items = [] := by
  have hsize := h.size
  unfold empty
  rw [decide_eq_true_iff, ← List.length_eq_zero_iff]
  omega

/-- The cell behind another, as the code counts it and as the ring does. -/
theorem next_cell {i n : Int} (hi : -1 ≤ i) (hn : 0 < n) :
    0 ≤ (i + 1).tmod n ∧ (i + 1).tmod n < n ∧ (i + 1).tmod n ≡ i + 1 [ZMOD n] := by
  have hmod : (i + 1).tmod n = (i + 1) % n := Int.tmod_eq_emod_of_nonneg (by omega)
  rw [hmod]
  refine ⟨Int.emod_nonneg _ (by omega), Int.emod_lt_of_pos _ hn, Int.mod_modEq _ _⟩

/-- The number of the cell an `int` stands for, as the ring counts. -/
theorem toNat_mod {i : Int} {n : Nat} (hi : 0 ≤ i) : (i.toNat % n : Nat) = i % n := by
  rw [Int.natCast_mod, Int.toNat_of_nonneg hi]

/-! ## One section -/

theorem Represents.push_full (h : q.Represents items) (hfull : items.length = q.array.length) (x : α) :
    q.push x = .ok (false, q) := by
  have hsize := h.size
  have hcapacity := h.capacity
  unfold push
  rw [if_pos (by omega)]

/-- The cell that a push writes is the one behind the items. -/
theorem Represents.push_cell (h : q.Represents items) :
    ((q.back + 1).tmod q.maxSize).toNat = ((q.front + 1).toNat + items.length) % q.array.length := by
  have hsize := h.size
  have hcapacity := h.capacity
  have hpositive := h.positive
  obtain ⟨hnonneg, hlt, hmod⟩ := next_cell (n := q.maxSize) h.back.1 (by omega)
  have hfront : 0 ≤ q.front + 1 := by have := h.front.1; omega
  have hnext : (q.back + 1).tmod q.maxSize ≡ q.front + 1 + items.length [ZMOD q.maxSize] := by
    have horder := hmod.trans (h.order.add_right 1)
    rw [hsize] at horder
    have hcomm : q.front + items.length + 1 = q.front + 1 + items.length := by omega
    rwa [hcomm] at horder
  have hback := Int.emod_eq_of_lt hnonneg hlt
  unfold Int.ModEq at hnext
  rw [hback, hcapacity] at hnext
  have hcast : (((q.front + 1).toNat + items.length : Nat) : Int) = q.front + 1 + items.length := by
    omega
  rw [hcapacity] at hnonneg
  rw [hcapacity]
  apply Int.ofNat_inj.mp
  rw [Int.toNat_of_nonneg hnonneg, Int.natCast_mod, hcast]
  exact hnext

/-- What a push does where there is room. -/
theorem Represents.push_eq (h : q.Represents items) (hroom : items.length < q.array.length) (x : α) :
    q.push x = .ok (true, { q with
      array := q.array.set ((q.back + 1).tmod q.maxSize).toNat x
      back := (q.back + 1).tmod q.maxSize
      size := q.size + 1 }) := by
  have hsize := h.size
  have hcapacity := h.capacity
  obtain ⟨hnonneg, hlt, -⟩ := next_cell (n := q.maxSize) h.back.1 (by omega)
  unfold push write
  rw [if_neg (by omega)]
  simp only
  rw [if_neg (by omega)]
  rfl

/-- **A push** where there is room puts the item behind the last. -/
theorem Represents.push_room (h : q.Represents items) (hroom : items.length < q.array.length) (x : α) :
    ∃ q', q.push x = .ok (true, q') ∧ q'.array.length = q.array.length ∧
      q'.Represents (items ++ [x]) := by
  have hsize := h.size
  have hcapacity := h.capacity
  have hpos : 0 < q.maxSize := by omega
  obtain ⟨hnonneg, hlt, hmod⟩ := next_cell h.back.1 hpos
  have hcell := h.push_cell
  refine ⟨{ q with
    array := q.array.set ((q.back + 1).tmod q.maxSize).toNat x
    back := (q.back + 1).tmod q.maxSize
    size := q.size + 1 }, h.push_eq hroom x, List.length_set, ?_⟩
  · refine ⟨?_, ?_, ?_, ?_, h.front, ⟨by show -1 ≤ (q.back + 1).tmod q.maxSize; omega, hlt⟩, ?_, ?_⟩
    · simp only [List.length_set]
      exact hcapacity
    · simp only [List.length_set]
      exact h.positive
    · simp only [List.length_append, List.length_singleton]
      omega
    · show q.size + 1 ≤ q.maxSize
      omega
    · show (q.back + 1).tmod q.maxSize ≡ q.front + (q.size + 1) [ZMOD q.maxSize]
      rw [← Int.add_assoc]
      exact hmod.trans (h.order.add_right 1)
    · show Ring.Holds (q.array.set _ x) (q.front + 1).toNat (items ++ [x])
      rw [hcell]
      exact h.cells.push hroom

theorem Represents.pop_nil (h : q.Represents []) : q.pop = .ok (none, q) := by
  have hsize : q.size = 0 := h.size
  unfold pop
  rw [if_pos (by omega)]

/-- The cell that a pop reads is the first of the ring. -/
theorem Represents.pop_cell (h : q.Represents items) :
    ((q.front + 1).tmod q.maxSize).toNat = (q.front + 1).toNat % q.array.length := by
  have hcapacity := h.capacity
  have hpositive := h.positive
  have hfront : 0 ≤ q.front + 1 := by have := h.front.1; omega
  rw [hcapacity, Int.tmod_eq_emod_of_nonneg hfront]
  apply Int.ofNat_inj.mp
  rw [toNat_mod hfront, Int.toNat_of_nonneg (Int.emod_nonneg _ (by omega))]

/-- What a pop does where there is an item. -/
theorem Represents.pop_eq (h : q.Represents (x :: items)) : q.pop = .ok (some x, { q with
    front := (q.front + 1).tmod q.maxSize
    size := q.size - 1 }) := by
  have hsize := h.size
  rw [List.length_cons] at hsize
  have hcapacity := h.capacity
  have hpositive := h.positive
  obtain ⟨hnonneg, -, -⟩ := next_cell (n := q.maxSize) h.front.1 (by omega)
  unfold pop take read
  rw [if_neg (by omega)]
  simp only
  rw [if_neg (by omega), h.pop_cell, h.cells.head]
  rfl

/-- **A pop** takes the first item off. -/
theorem Represents.pop_cons (h : q.Represents (x :: items)) :
    ∃ q', q.pop = .ok (some x, q') ∧ q'.array = q.array ∧ q'.Represents items := by
  have hsize := h.size
  rw [List.length_cons] at hsize
  have hcapacity := h.capacity
  have hpositive := h.positive
  obtain ⟨hnonneg, hlt, hmod⟩ := next_cell (n := q.maxSize) h.front.1 (by omega)
  have hfront : 0 ≤ q.front + 1 := by have := h.front.1; omega
  have hcell := h.pop_cell
  refine ⟨_, h.pop_eq, rfl, ?_⟩
  · refine ⟨hcapacity, hpositive, ?_, ?_, ⟨by show -1 ≤ (q.front + 1).tmod q.maxSize; omega, hlt⟩,
      h.back, ?_, ?_⟩
    · show q.size - 1 = items.length
      omega
    · show q.size - 1 ≤ q.maxSize
      have hroom := h.room
      omega
    · have hsub := (hmod.add_right (q.size - 1)).symm
      have hsum : q.front + 1 + (q.size - 1) = q.front + q.size := by omega
      rw [hsum] at hsub
      exact h.order.trans hsub
    · refine h.cells.tail.congr ?_
      show ((q.front + 1).toNat + 1) % _ = ((q.front + 1).tmod q.maxSize + 1).toNat % _
      rw [Int.toNat_add hnonneg (by omega), hcell]
      exact (Nat.mod_add_mod _ _ _).symm

end

/-! ## The threads -/

/-- A thread: in no call, or in the wait of a `pop`, the one with a timeout or the other. -/
inductive Popper
  | out
  | waiting (timed : Bool)
  deriving DecidableEq, Repr

/-- The queue and the threads that call it. -/
structure Shared (T : Type) (α : Type u) where
  queue : BlockQueue α
  threads : T → Popper

/-- A section under the lock, and whose. `wake` is the end of a wait, which may be one of failure. -/
inductive Section (T : Type) (α : Type u)
  | push (c : T) (item : α)
  | clear (c : T)
  | size (c : T)
  | empty (c : T)
  | full (c : T)
  | pop (c : T) (timed : Bool)
  | wake (c : T) (signalled : Bool)

/-- What a section ends with: the call returns, or it waits. -/
inductive Answer (α : Type u)
  | done
  | bool (b : Bool)
  | int (n : Int)
  | item (x : α)
  | fails
  | waits

namespace Shared

variable {T : Type} [DecidableEq T]

def exec (s : Shared T α) : Section T α → Except Fault (Answer α × Shared T α)
  | .push _ item => do
    let pushed ← s.queue.push item
    return (.bool pushed.1, { s with queue := pushed.2 })
  | .clear _ => .ok (.done, { s with queue := s.queue.clear })
  | .size _ => .ok (.int s.queue.size, s)
  | .empty _ => .ok (.bool s.queue.empty, s)
  | .full _ => .ok (.bool s.queue.full, s)
  | .pop c timed => do
    let popped ← s.queue.pop
    match popped.1 with
    | some x => return (.item x, { s with queue := popped.2 })
    | none => return (.waits, ⟨popped.2, Function.update s.threads c (.waiting timed)⟩)
  | .wake c signalled =>
    if signalled then do
      let popped ← s.queue.pop
      match popped.1 with
      | some x => return (.item x, ⟨popped.2, Function.update s.threads c .out⟩)
      | none =>
        -- the loop of the one `pop`, and the second test of the other
        if s.threads c = .waiting true then
          return (.fails, ⟨popped.2, Function.update s.threads c .out⟩)
        else return (.waits, { s with queue := popped.2 })
    else .ok (.fails, { s with threads := Function.update s.threads c .out })

/-- What a section may come to: what the queue does in it, and where the thread is after it. -/
inductive Does (s : Shared T α) : Section T α → Answer α → Shared T α → Prop
  | push {c item stored q} (h : s.queue.push item = .ok (stored, q)) :
    s.Does (.push c item) (.bool stored) { s with queue := q }
  | clear {c} : s.Does (.clear c) .done { s with queue := s.queue.clear }
  | size {c} : s.Does (.size c) (.int s.queue.size) s
  | empty {c} : s.Does (.empty c) (.bool s.queue.empty) s
  | full {c} : s.Does (.full c) (.bool s.queue.full) s
  | pop {c timed x q} (h : s.queue.pop = .ok (some x, q)) :
    s.Does (.pop c timed) (.item x) { s with queue := q }
  | begins {c timed q} (h : s.queue.pop = .ok (none, q)) :
    s.Does (.pop c timed) .waits ⟨q, Function.update s.threads c (.waiting timed)⟩
  | woken {c x q} (h : s.queue.pop = .ok (some x, q)) :
    s.Does (.wake c true) (.item x) ⟨q, Function.update s.threads c .out⟩
  | gives {c q} (h : s.queue.pop = .ok (none, q)) (htimed : s.threads c = .waiting true) :
    s.Does (.wake c true) .fails ⟨q, Function.update s.threads c .out⟩
  | again {c q} (h : s.queue.pop = .ok (none, q)) (htimed : s.threads c ≠ .waiting true) :
    s.Does (.wake c true) .waits { s with queue := q }
  | failed {c} : s.Does (.wake c false) .fails { s with threads := Function.update s.threads c .out }

/-- **A section** comes to one of these. -/
theorem exec_does {α : Type} {s s' : Shared T α} {i : Section T α} {answer : Answer α}
    (hexec : s.exec i = .ok (answer, s')) : s.Does i answer s' := by
  cases i with
  | push c item =>
    obtain ⟨⟨stored, q⟩, hpush, hexec⟩ := bind_eq_ok.mp hexec
    cases hexec
    exact .push hpush
  | clear c =>
    cases hexec
    exact .clear
  | size c =>
    cases hexec
    exact .size
  | empty c =>
    cases hexec
    exact .empty
  | full c =>
    cases hexec
    exact .full
  | pop c timed =>
    obtain ⟨⟨item, q⟩, hpop, hexec⟩ := bind_eq_ok.mp hexec
    cases item with
    | some x =>
      cases hexec
      exact .pop hpop
    | none =>
      cases hexec
      exact .begins hpop
  | wake c signalled =>
    cases signalled with
    | false =>
      cases hexec
      exact .failed
    | true =>
      obtain ⟨⟨item, q⟩, hpop, hexec⟩ := bind_eq_ok.mp hexec
      cases item with
      | some x =>
        cases hexec
        exact .woken hpop
      | none =>
        simp only at hexec
        split at hexec
        · rename_i htimed
          cases hexec
          exact .gives hpop htimed
        · rename_i htimed
          cases hexec
          exact .again hpop htimed

def Enabled (s : Shared T α) : Section T α → Prop
  | .push c _ | .clear c | .size c | .empty c | .full c | .pop c _ => s.threads c = .out
  | .wake c _ => s.threads c ≠ .out

end Shared

end BlockQueue

/-- A queue constructed for `maxSize` items, and any threads `T` that call it. -/
def blockQueue (T : Type) [DecidableEq T] (α : Type u) (maxSize : Nat) :
    System (BlockQueue.Shared T α) (BlockQueue.Section T α × BlockQueue.Answer α) where
  start s := ∃ array, array.length = maxSize ∧ s = ⟨BlockQueue.initial array, fun _ => .out⟩
  step s i s' := s.Enabled i.1 ∧ s.exec i.1 = .ok (i.2, s')

namespace BlockQueue

variable {α : Type u}

/-- A section as a call on a bounded queue: what is stored, taken or reported. One that waits, or gives
    up, after a test has found the queue empty. -/
def observed {T : Type} : Section T α × Answer α → Option (BoundedQueue.Call α)
  | (.push _ item, .bool stored) => some (.push item stored)
  | (.clear _, _) => some .clear
  | (.size _, .int n) => some (.size n)
  | (.empty _, .bool answer) => some (.empty answer)
  | (.full _, .bool answer) => some (.full answer)
  | (.pop _ _, .item x) => some (.pop x)
  | (.pop _ _, .waits) => some (.empty true)
  | (.wake _ _, .item x) => some (.pop x)
  | (.wake _ true, .fails) => some (.empty true)
  | (.wake _ true, .waits) => some (.empty true)
  | _ => none

section
variable {T : Type} [DecidableEq T] {maxSize : Nat} {s t : Shared T α} {items : List α}

/-- A queue of this capacity that holds these items. -/
def Keeps (maxSize : Nat) (s : Shared T α) (items : List α) : Prop :=
  s.queue.array.length = maxSize ∧ s.queue.Represents items

/-- **A section** never leaves the array, and does what its call does to a bounded queue. -/
theorem Keeps.exec (hs : Keeps maxSize s items) (i : Section T α) :
    ∃ answer s' items', s.exec i = .ok (answer, s') ∧
      (BoundedQueue.system α maxSize).stepIf items (observed (i, answer)) items' ∧
      Keeps maxSize s' items' := by
  obtain ⟨hmax, hq⟩ := hs
  cases i with
  | push c item =>
    by_cases hfull : items.length = s.queue.array.length
    · refine ⟨.bool false, s, items, ?_, ?_, hmax, hq⟩
      · simp only [Shared.exec, hq.push_full hfull item]
        rfl
      · exact ⟨iff_of_true rfl (hfull.trans hmax), rfl⟩
    · have hroom : items.length < s.queue.array.length := by
        have hsize := hq.size
        have hle := hq.room
        have hcapacity := hq.capacity
        omega
      obtain ⟨q', hpush, hlength, hq'⟩ := hq.push_room hroom item
      refine ⟨.bool true, { s with queue := q' }, items ++ [item], ?_, ?_, hlength.trans hmax, hq'⟩
      · simp only [Shared.exec, hpush]
        rfl
      · exact ⟨iff_of_false (fun h => by cases h) (fun h => hfull (h.trans hmax.symm)), rfl⟩
  | clear c => exact ⟨.done, _, [], rfl, rfl, hmax, hq.clear⟩
  | size c => exact ⟨.int s.queue.size, s, items, rfl, ⟨hq.size, rfl⟩, hmax, hq⟩
  | empty c => exact ⟨.bool s.queue.empty, s, items, rfl, ⟨hq.empty_iff, rfl⟩, hmax, hq⟩
  | full c =>
    have hfull := hq.full_iff
    rw [hmax] at hfull
    exact ⟨.bool s.queue.full, s, items, rfl, ⟨hfull, rfl⟩, hmax, hq⟩
  | pop c timed =>
    cases items with
    | nil =>
      refine ⟨.waits, ⟨s.queue, Function.update s.threads c (.waiting timed)⟩, [], ?_, ?_, hmax, hq⟩
      · simp only [Shared.exec, hq.pop_nil]
        rfl
      · exact ⟨iff_of_true rfl rfl, rfl⟩
    | cons x rest =>
      obtain ⟨q', hpop, harray, hq'⟩ := hq.pop_cons
      refine ⟨.item x, { s with queue := q' }, rest, ?_, rfl, ?_, hq'⟩
      · simp only [Shared.exec, hpop]
        rfl
      · rw [harray]
        exact hmax
  | wake c signalled =>
    cases signalled with
    | false => exact ⟨.fails, _, items, rfl, rfl, hmax, hq⟩
    | true =>
      cases items with
      | nil =>
        by_cases htimed : s.threads c = .waiting true
        · refine ⟨.fails, ⟨s.queue, Function.update s.threads c .out⟩, [], ?_, ?_, hmax, hq⟩
          · simp only [Shared.exec, hq.pop_nil, if_true]
            show (if s.threads c = .waiting true then _ else _) = _
            rw [if_pos htimed]
            rfl
          · exact ⟨iff_of_true rfl rfl, rfl⟩
        · refine ⟨.waits, s, [], ?_, ?_, hmax, hq⟩
          · simp only [Shared.exec, hq.pop_nil, if_true]
            show (if s.threads c = .waiting true then _ else _) = _
            rw [if_neg htimed]
            rfl
          · exact ⟨iff_of_true rfl rfl, rfl⟩
      | cons x rest =>
        obtain ⟨q', hpop, harray, hq'⟩ := hq.pop_cons
        refine ⟨.item x, ⟨q', Function.update s.threads c .out⟩, rest, ?_, rfl, ?_, hq'⟩
        · simp only [Shared.exec, hpop, if_true]
          rfl
        · rw [harray]
          exact hmax

/-! ## Every run -/

/-- **Simulation**: the calls of a run are calls on a bounded queue, with the same results. -/
theorem simulated (hmax : 1 ≤ maxSize) {h : List (Section T α × Answer α)}
    (hstart : (blockQueue T α maxSize).start s) (hrun : (blockQueue T α maxSize).Run s h t) :
    ∃ items, (BoundedQueue.system α maxSize).Run [] (h.filterMap observed) items ∧
      Keeps maxSize t items := by
  obtain ⟨array, rfl, rfl⟩ := hstart
  refine hrun.simulate (Keeps array.length) observed ?_ ⟨rfl, represents_initial hmax⟩
  intro t i u items ht hstep
  obtain ⟨answer, u', items', hexec, hcall, hu⟩ := ht.exec i.1
  obtain ⟨-, hexec'⟩ := hstep
  rw [hexec] at hexec'
  cases hexec'
  exact ⟨items', hcall, hu⟩

/-- **`block_queue` is a bounded queue**, first in and first out: in every run of any threads, the
    results are those of one; the size and the indices are in step; and no section leaves the array. -/
theorem bounded_fifo (hmax : 1 ≤ maxSize) {h : List (Section T α × Answer α)}
    (hstart : (blockQueue T α maxSize).start s) (hrun : (blockQueue T α maxSize).Run s h t) :
    (∃ items, (BoundedQueue.system α maxSize).Run [] (h.filterMap observed) items ∧
      t.queue.size = items.length) ∧
    (0 ≤ t.queue.size ∧ t.queue.size ≤ maxSize ∧
      t.queue.back ≡ t.queue.front + t.queue.size [ZMOD maxSize]) ∧
    ∀ i, t.Enabled i → ∃ answer t', (blockQueue T α maxSize).step t (i, answer) t' := by
  obtain ⟨items, hcalls, ht⟩ := simulated hmax hstart hrun
  have hq := ht.2
  have hcapacity : t.queue.maxSize = maxSize := by rw [hq.capacity, ht.1]
  refine ⟨⟨items, hcalls, hq.size⟩, ⟨?_, ?_, ?_⟩, ?_⟩
  · rw [hq.size]
    exact Int.natCast_nonneg _
  · rw [← hcapacity]
    exact hq.room
  · rw [← hcapacity]
    exact hq.order
  · intro i henabled
    obtain ⟨answer, t', _, hexec, -⟩ := ht.exec i
    exact ⟨answer, t', henabled, hexec⟩

/-- One thread waits for an item, another brings it, and the next finds the queue of one full. -/
theorem bounded_fifo_one :
    (∃ items, (BoundedQueue.system Nat 1).Run []
        [.push 8 true, .pop 7, .full true, .push 7 true, .empty true] items ∧
      (1 : Int) = items.length) ∧
    ((0 : Int) ≤ 1 ∧ (1 : Int) ≤ 1 ∧ (0 : Int) ≡ 0 + 1 [ZMOD 1]) ∧
    ∀ i, (⟨⟨[8], 1, 1, 0, 0⟩, fun _ => .out⟩ : Shared Bool Nat).Enabled i →
      ∃ answer t', (blockQueue Bool Nat 1).step ⟨⟨[8], 1, 1, 0, 0⟩, fun _ => .out⟩ (i, answer) t' := by
  have hthreads : Function.update (Function.update (fun _ => Popper.out) true (.waiting false)) true .out =
      fun _ : Bool => Popper.out := by
    funext c
    cases c <;> rfl
  have hpop : (blockQueue Bool Nat 1).Run ⟨initial [0], fun _ => .out⟩
      [(.wake true true, .item 7), (.full false, .bool true), (.push false 7, .bool true),
        (.pop true false, .waits)]
      ⟨⟨[7], 0, 1, 0, 0⟩, Function.update (Function.update (fun _ => .out) true (.waiting false)) true .out⟩ :=
    .step (.step (.step (.step (.nil _) ⟨rfl, rfl⟩) ⟨rfl, rfl⟩) ⟨rfl, rfl⟩)
      ⟨fun h => Popper.noConfusion h, rfl⟩
  rw [hthreads] at hpop
  have hpush : (blockQueue Bool Nat 1).step ⟨⟨[7], 0, 1, 0, 0⟩, fun _ => .out⟩
      (.push false 8, .bool true) ⟨⟨[8], 1, 1, 0, 0⟩, fun _ => .out⟩ := ⟨rfl, rfl⟩
  exact bounded_fifo (by decide) ⟨[0], rfl, rfl⟩ (hpop.step hpush)

end

end BlockQueue

end LinuxServer
