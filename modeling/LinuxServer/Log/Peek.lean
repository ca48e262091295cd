import LinuxServer.Log.BlockQueue

/-!
# `Log/Peek.lean` — `front` and `back` of the queue

`m_back` is the cell of the newest item, and `back` reads it. `m_front` is the cell in front of the
oldest, and `front` reads that one: the cell of the item that was popped last, which holds it until a push
comes round to it, and then the newest; and no cell at all while nothing has been popped (`Stale`). So
`front` shows what the next `pop` returns only where that happens to be the same (`peeks_iff`). All this is
of a queue that has been constructed, as `cond`'s constructor, which throws when `pthread_cond_init` succeeds,
is no part of it.
-/

set_option autoImplicit false

namespace LinuxServer

open BoundedQueue (lastPushed lastPopped)

namespace BlockQueue

variable {α : Type}

/-- `front(value)`, and the value if it returns `true`. -/
def peekFront (q : BlockQueue α) : Except Fault (Option α × BlockQueue α) :=
  if q.size = 0 then .ok (none, q)
  else do
    let value ← q.read q.front
    return (some value, q)

/-- `back(value)`. -/
def peekBack (q : BlockQueue α) : Except Fault (Option α × BlockQueue α) :=
  if q.size = 0 then .ok (none, q)
  else do
    let value ← q.read q.back
    return (some value, q)

/-- A call that changes nothing, and the value that it found. -/
inductive Peek (α : Type)
  | front (value : Option α)
  | back (value : Option α)

/-- Peeking agrees with popping, after these calls: where there is an item, `front` finds the one that
    `pop` would return and `back` the one that was pushed last, and the queue is what it was. -/
structure Peeks (h : List (BoundedQueue.Call α)) (q : BlockQueue α) : Prop where
  front : q.size ≠ 0 → ∃ x q', q.peekFront = .ok (some x, q) ∧ q.pop = .ok (some x, q')
  back : q.size ≠ 0 → ∃ x, q.peekBack = .ok (some x, q) ∧ lastPushed h = some x

/-- The cells at the indices: `m_front` is at what was popped last, unless a push has come round, and
    `m_back` at an item if there is one. -/
structure Stale (popped : Option α) (q : BlockQueue α) (items : List α) : Prop where
  begun : popped = none ↔ q.front = -1
  cell : ∀ x, popped = some x → items.length < q.array.length → q.array[q.front.toNat]? = some x
  newest : items ≠ [] → 0 ≤ q.back

/-- What a call does to a queue, if it is one that changes it. -/
def Effect (q q' : BlockQueue α) : Option (BoundedQueue.Call α) → Prop
  | some (.push x true) => q.push x = .ok (true, q')
  | some (.pop x) => q.pop = .ok (some x, q')
  | some .clear => q' = q.clear
  | _ => q' = q

end BlockQueue

/-- The calls of any threads on a queue for `maxSize` items, and the peeks between them. -/
def peekedQueue (T : Type) [DecidableEq T] (α : Type) (maxSize : Nat) : System (BlockQueue.Shared T α)
    ((BlockQueue.Section T α × BlockQueue.Answer α) ⊕ BlockQueue.Peek α) where
  start := (blockQueue T α maxSize).start
  step s i s' :=
    match i with
    | .inl i => (blockQueue T α maxSize).step s i s'
    | .inr (.front value) => ∃ q, s.queue.peekFront = .ok (value, q) ∧ s' = { s with queue := q }
    | .inr (.back value) => ∃ q, s.queue.peekBack = .ok (value, q) ∧ s' = { s with queue := q }

namespace BlockQueue

variable {α : Type} {q q' : BlockQueue α} {items : List α} {popped : Option α} {x : α}

/-! ## The cells that are read -/

theorem peekFront_ok {value : Option α} (h : q.peekFront = .ok (value, q')) : q' = q := by
  unfold peekFront at h
  split at h
  · cases h
    rfl
  · obtain ⟨x, -, h⟩ := bind_eq_ok.mp h
    cases h
    rfl

theorem peekBack_ok {value : Option α} (h : q.peekBack = .ok (value, q')) : q' = q := by
  unfold peekBack at h
  split at h
  · cases h
    rfl
  · obtain ⟨x, -, h⟩ := bind_eq_ok.mp h
    cases h
    rfl

theorem read_eq_ok {i : Int} : q.read i = .ok x ↔ 0 ≤ i ∧ q.array[i.toNat]? = some x := by
  unfold read
  split
  · rename_i hneg
    exact iff_of_false (fun h => by cases h) fun h => absurd h.1 (by omega)
  · rename_i hneg
    cases q.array[i.toNat]? with
    | none => exact iff_of_false (fun h => by cases h) fun h => by cases h.2
    | some y =>
      simp only [Except.ok.injEq, Option.some.injEq]
      exact (and_iff_right (by omega)).symm

theorem peekFront_iff (hne : q.size ≠ 0) :
    q.peekFront = .ok (some x, q) ↔ 0 ≤ q.front ∧ q.array[q.front.toNat]? = some x := by
  rw [peekFront, if_neg hne, ← read_eq_ok, bind_eq_ok]
  constructor
  · rintro ⟨y, hread, heq⟩
    cases heq
    exact hread
  · exact fun hread => ⟨x, hread, rfl⟩

theorem peekBack_iff (hne : q.size ≠ 0) :
    q.peekBack = .ok (some x, q) ↔ 0 ≤ q.back ∧ q.array[q.back.toNat]? = some x := by
  rw [peekBack, if_neg hne, ← read_eq_ok, bind_eq_ok]
  constructor
  · rintro ⟨y, hread, heq⟩
    cases heq
    exact hread
  · exact fun hread => ⟨x, hread, rfl⟩

/-- `m_back` is at the last item. -/
theorem Represents.back_cell (h : q.Represents items) (hne : items ≠ []) (hback : 0 ≤ q.back) :
    q.array[q.back.toNat]? = items.getLast? := by
  have hcapacity := h.capacity
  have hpositive := h.positive
  have hsize := h.size
  have hlen := List.length_pos_iff.mpr hne
  have hplace : q.back.toNat = ((q.front + 1).toNat + (items.length - 1)) % q.array.length := by
    have hfront : 0 ≤ q.front + 1 := by have := h.front.1; omega
    have hcast : (((q.front + 1).toNat + (items.length - 1) : Nat) : Int) = q.front + q.size := by omega
    have horder : q.back % q.maxSize = (q.front + q.size) % q.maxSize := h.order
    rw [Int.emod_eq_of_lt hback h.back.2, hcapacity] at horder
    apply Int.ofNat_inj.mp
    rw [Int.toNat_of_nonneg hback, Int.natCast_mod, hcast]
    exact horder
  have hlast : items[items.length - 1]? = some (items.getLast hne) := by
    rw [List.getLast_eq_getElem]
    exact List.getElem?_eq_getElem _
  rw [hplace, h.cells _ _ hlast, List.getLast?_eq_some_getLast hne]

/-- A queue that is full has gone round: `m_front` is at its last item as well. -/
theorem Represents.front_cell_full (h : q.Represents items) (hfull : items.length = q.array.length)
    (hfront : 0 ≤ q.front) : q.array[q.front.toNat]? = items.getLast? := by
  have hcapacity := h.capacity
  have hpositive := h.positive
  have hlt := h.front.2
  have hne : items ≠ [] := List.length_pos_iff.mp (by omega)
  have hlast : items[items.length - 1]? = some (items.getLast hne) := by
    rw [List.getLast_eq_getElem]
    exact List.getElem?_eq_getElem _
  have hplace : ((q.front + 1).toNat + (items.length - 1)) % q.array.length = q.front.toNat := by
    have hround : (q.front + 1).toNat + (items.length - 1) = q.front.toNat + q.array.length := by omega
    rw [hround, Nat.add_mod_right]
    exact Nat.mod_eq_of_lt (by omega)
  rw [← hplace, h.cells _ _ hlast, List.getLast?_eq_some_getLast hne]

/-! ## The calls -/

theorem stale_initial (array : List α) : Stale none (initial array) [] :=
  ⟨iff_of_true rfl rfl, (fun _ hx => by cases hx), fun hne => absurd rfl hne⟩

theorem stale_clear (q : BlockQueue α) : Stale none q.clear [] :=
  ⟨iff_of_true rfl rfl, (fun _ hx => by cases hx), fun hne => absurd rfl hne⟩

/-- A push writes the cell behind the last item, which is not the one in front of the first unless it is
    the last that was free. -/
theorem Stale.push (hs : Stale popped q items) (hq : q.Represents items)
    (hroom : items.length < q.array.length) (h : q.push x = .ok (true, q')) :
    Stale popped q' (items ++ [x]) := by
  rw [hq.push_eq hroom x] at h
  cases h
  have hcapacity := hq.capacity
  have hpositive := hq.positive
  obtain ⟨hnonneg, -, -⟩ := next_cell (n := q.maxSize) hq.back.1 (by omega)
  refine ⟨hs.begun, fun y hy hlen => ?_, fun _ => hnonneg⟩
  simp only [List.length_append, List.length_singleton, List.length_set] at hlen
  have hfront : 0 ≤ q.front := by
    have hbegun := hs.begun
    have hge := hq.front.1
    by_contra hneg
    rw [hbegun.mpr (by omega)] at hy
    cases hy
  have hlt := hq.front.2
  have hother : ((q.back + 1).tmod q.maxSize).toNat ≠ q.front.toNat := by
    have hne : (q.front.toNat + 0) % q.array.length ≠
        (q.front.toNat + (items.length + 1)) % q.array.length := Ring.index_ne (Nat.succ_pos _) hlen
    rw [Nat.add_zero, Nat.mod_eq_of_lt (by omega)] at hne
    rw [hq.push_cell, show (q.front + 1).toNat + items.length = q.front.toNat + (items.length + 1) by omega]
    exact hne.symm
  rw [List.getElem?_set_ne hother]
  exact hs.cell y hy (by omega)

/-- A pop leaves what it takes in the cell that `m_front` comes to. -/
theorem Stale.pop (hs : Stale popped q (x :: items)) (hq : q.Represents (x :: items))
    (h : q.pop = .ok (some x, q')) : Stale (some x) q' items := by
  rw [hq.pop_eq] at h
  cases h
  have hcapacity := hq.capacity
  have hpositive := hq.positive
  obtain ⟨hnonneg, -, -⟩ := next_cell (n := q.maxSize) hq.front.1 (by omega)
  refine ⟨iff_of_false (fun h => by cases h) (by simp only; omega), fun y hy _ => ?_,
    fun _ => hs.newest (List.cons_ne_nil _ _)⟩
  cases hy
  simp only [hq.pop_cell]
  exact hq.cells.head

/-! ## The sections, and the runs of them -/

section
variable {T : Type} [DecidableEq T] {maxSize : Nat} {s t : Shared T α} {answer : Answer α}

/-- **What a section does to the queue** is what its call does. -/
theorem exec_effect {i : Section T α} (h : s.exec i = .ok (answer, t)) :
    Effect s.queue t.queue (observed (i, answer)) := by
  cases Shared.exec_does h with
  | @push c item stored q hpush =>
    cases stored with
    | true => exact hpush
    | false =>
      unfold BlockQueue.push at hpush
      split at hpush
      · cases hpush
        rfl
      · obtain ⟨q₁, -, hpush⟩ := bind_eq_ok.mp hpush
        cases hpush
  | clear | size | empty | full | failed => rfl
  | pop hpop => exact hpop
  | woken hpop => exact hpop
  | begins hpop => exact (pop_none hpop).2
  | gives hpop => exact (pop_none hpop).2
  | again hpop => exact (pop_none hpop).2

/-- The calls of a run, the peeks left out. -/
def calls (h : List ((Section T α × Answer α) ⊕ Peek α)) : List (BoundedQueue.Call α) :=
  (h.filterMap Sum.getLeft?).filterMap observed

/-- A peek is no step of the queue. -/
theorem unpeeked {h : List ((Section T α × Answer α) ⊕ Peek α)} (hrun : (peekedQueue T α maxSize).Run s h t) :
    (blockQueue T α maxSize).Run s (h.filterMap Sum.getLeft?) t := by
  refine hrun.project id Sum.getLeft? ?_
  intro t i u hstep
  cases i with
  | inl i => exact hstep
  | inr peek =>
    cases peek with
    | front value =>
      obtain ⟨q, hpeek, rfl⟩ := hstep
      rw [peekFront_ok hpeek]
      rfl
    | back value =>
      obtain ⟨q, hpeek, rfl⟩ := hstep
      rw [peekBack_ok hpeek]
      rfl

/-- One section, on what the calls so far have left. -/
theorem Stale.exec {h : List (BoundedQueue.Call α)} {items items' : List α} {call : Option (BoundedQueue.Call α)}
    {q q' : BlockQueue α} (hs : Stale (lastPopped h) q items) (hq : q.Represents items)
    (hlength : q.array.length = maxSize) (heffect : Effect q q' call)
    (hcall : (BoundedQueue.system α maxSize).stepIf items call items') :
    Stale (lastPopped (call.toList ++ h)) q' items' := by
  cases call with
  | none =>
    obtain rfl : q' = q := heffect
    obtain rfl : items' = items := hcall
    exact hs
  | some call =>
    cases call with
    | push x stored =>
      obtain ⟨hfull, rfl⟩ := hcall
      cases stored with
      | false =>
        obtain rfl : q' = q := heffect
        exact hs
      | true =>
        have hroom : items.length < q.array.length := by
          have hsize := hq.size
          have hle := hq.room
          have hcapacity := hq.capacity
          have hne : items.length ≠ maxSize := fun heq => by cases hfull.mpr heq
          omega
        exact hs.push hq hroom heffect
    | pop x =>
      obtain rfl : items = x :: items' := hcall
      exact hs.pop hq heffect
    | clear =>
      obtain rfl : q' = q.clear := heffect
      obtain rfl : items' = [] := hcall
      exact stale_clear q
    | size n =>
      obtain rfl : q' = q := heffect
      obtain ⟨-, rfl⟩ := hcall
      exact hs
    | empty b =>
      obtain rfl : q' = q := heffect
      obtain ⟨-, rfl⟩ := hcall
      exact hs
    | full b =>
      obtain rfl : q' = q := heffect
      obtain ⟨-, rfl⟩ := hcall
      exact hs

/-- **Every run** leaves the indices at these cells. -/
theorem stale_of_run (hmax : 1 ≤ maxSize) {h : List (Section T α × Answer α)}
    (hstart : (blockQueue T α maxSize).start s) (hrun : (blockQueue T α maxSize).Run s h t) :
    ∃ items, (BoundedQueue.system α maxSize).Run [] (h.filterMap observed) items ∧
      Keeps maxSize t items ∧ Stale (lastPopped (h.filterMap observed)) t.queue items := by
  obtain ⟨array, rfl, rfl⟩ := hstart
  refine hrun.invariant (I := fun h t => ∃ items,
    (BoundedQueue.system α array.length).Run [] (h.filterMap observed) items ∧
      Keeps array.length t items ∧ Stale (lastPopped (h.filterMap observed)) t.queue items) ?_
    ⟨[], .nil _, ⟨rfl, represents_initial hmax⟩, stale_initial array⟩
  rintro h t ⟨i, answer⟩ u ⟨items, hcalls, ht, hs⟩ ⟨-, hexec⟩
  obtain ⟨answer', u', items', hexec', hcall, hu⟩ := ht.exec i
  rw [hexec] at hexec'
  cases hexec'
  have hstale := hs.exec ht.2 ht.1 (exec_effect hexec) hcall
  refine ⟨items', ?_, hu, ?_⟩
  · cases hobs : observed (i, answer) with
    | none =>
      rw [hobs] at hcall
      obtain rfl : items' = items := hcall
      rwa [List.filterMap_cons_none hobs]
    | some call =>
      rw [hobs] at hcall
      rw [List.filterMap_cons_some hobs]
      exact .step hcalls hcall
  · cases hobs : observed (i, answer) with
    | none =>
      rw [hobs] at hstale
      rwa [List.filterMap_cons_none hobs]
    | some call =>
      rw [hobs] at hstale
      rwa [List.filterMap_cons_some hobs]

/-- `back` is right in every state. -/
theorem Stale.peekBack (hs : Stale popped q items) (hq : q.Represents items) (hne : items ≠ []) :
    ∃ x, q.peekBack = .ok (some x, q) ∧ items.getLast? = some x := by
  have hsize := hq.size
  have hlen := List.length_pos_iff.mpr hne
  have hcell := hq.back_cell hne (hs.newest hne)
  rw [List.getLast?_eq_some_getLast hne] at hcell ⊢
  exact ⟨_, (peekBack_iff (by omega)).mpr ⟨hs.newest hne, hcell⟩, rfl⟩

/-- `front` is, where the item in front of the oldest is like it. -/
theorem Stale.peekFront (hs : Stale popped q (x :: items)) (hq : q.Represents (x :: items)) :
    q.peekFront = .ok (some x, q) ↔ ∃ y, popped = some y ∧
      (if (x :: items).length = q.array.length then (x :: items).getLast? else some y) = some x := by
  have hsize := hq.size
  have hge := hq.front.1
  have hbegun := hs.begun
  rw [List.length_cons] at hsize
  rw [peekFront_iff (by omega)]
  cases popped with
  | none =>
    have hfront := hbegun.mp rfl
    refine iff_of_false (fun h => by omega) ?_
    rintro ⟨y, hy, -⟩
    cases hy
  | some y =>
    have hfront : 0 ≤ q.front := by
      have hne : q.front ≠ -1 := fun heq => by cases hbegun.mpr heq
      omega
    simp only [hfront, true_and, Option.some.injEq, exists_eq_left']
    by_cases hfull : (x :: items).length = q.array.length
    · rw [if_pos hfull, hq.front_cell_full hfull hfront]
    · have hroom : (x :: items).length < q.array.length := by
        have hle := hq.room
        have hcapacity := hq.capacity
        rw [List.length_cons] at hfull ⊢
        omega
      rw [if_neg hfull, hs.cell y rfl hroom, Option.some.injEq]

/-- **When peeking agrees with popping**, after any calls of any threads. The queue is empty; or something
    has been popped since it was made or cleared, and the oldest item is like that, or like the newest
    item if the queue is full. -/
theorem peeks_iff (hmax : 1 ≤ maxSize) {h : List ((Section T α × Answer α) ⊕ Peek α)}
    (hstart : (peekedQueue T α maxSize).start s) (hrun : (peekedQueue T α maxSize).Run s h t) :
    ∃ items, (BoundedQueue.system α maxSize).Run [] (calls h) items ∧
      (Peeks (calls h) t.queue ↔ items = [] ∨ ∃ y, lastPopped (calls h) = some y ∧
        (if items.length = maxSize then lastPushed (calls h) else some y) = items.head?) := by
  obtain ⟨items, hcalls, ⟨hlength, hq⟩, hs⟩ := stale_of_run hmax hstart (unpeeked hrun)
  refine ⟨items, hcalls, ?_⟩
  have hsize := hq.size
  cases items with
  | nil =>
    refine iff_of_true ⟨fun hne => absurd hsize hne, fun hne => absurd hsize hne⟩ (Or.inl rfl)
  | cons x rest =>
    have hne : x :: rest ≠ [] := List.cons_ne_nil _ _
    have hlast := BoundedQueue.getLast?_eq_lastPushed hcalls hne
    have hfront := hs.peekFront hq
    rw [hlength, hlast] at hfront
    rw [or_iff_right hne, List.head?_cons]
    refine Iff.trans ?_ hfront
    constructor
    · intro hpeeks
      obtain ⟨y, q', hpeek, hpop⟩ := hpeeks.front (by rw [hsize, List.length_cons]; omega)
      rw [hq.pop_eq] at hpop
      cases hpop
      exact hpeek
    · intro hpeek
      obtain ⟨z, hback, hz⟩ := hs.peekBack hq hne
      exact ⟨fun _ => ⟨x, _, hpeek, hq.pop_eq⟩, fun _ => ⟨z, hback, hlast.symm.trans hz⟩⟩

/-- One item pushed and popped, and another pushed, in a queue of one: it is full again, and `front` is right. -/
theorem peeks_iff_one : Peeks [.push 8 true, .pop 7, .push (7 : Nat) true] ⟨[8], 1, 1, 0, 0⟩ := by
  have hrun : (peekedQueue Bool Nat 1).Run ⟨initial [0], fun _ => .out⟩
      [.inl (.push true 8, .bool true), .inl (.pop true false, .item 7), .inl (.push true 7, .bool true)]
      ⟨⟨[8], 1, 1, 0, 0⟩, fun _ => .out⟩ :=
    .step (.step (.step (.nil _) ⟨rfl, rfl⟩) ⟨rfl, rfl⟩) ⟨rfl, rfl⟩
  obtain ⟨items, hcalls, hpeeks⟩ := peeks_iff (by decide) ⟨[0], rfl, rfl⟩ hrun
  cases hcalls with
  | step hpopped hpush =>
    cases hpopped with
    | step hpushed hpop =>
      cases hpushed with
      | step hnil hfirst =>
        cases hnil
        obtain ⟨-, rfl⟩ := hfirst
        cases hpop
        obtain ⟨-, rfl⟩ := hpush
        exact hpeeks.mpr (.inr ⟨7, rfl, rfl⟩)

/-- Nothing has been popped, and `front` reads in front of the array. -/
theorem not_peeks_first : (peekedQueue Bool Nat 2).Run ⟨initial [0, 0], fun _ => .out⟩
      [.inl (.push true 7, .bool true)] ⟨⟨[7, 0], 1, 2, -1, 0⟩, fun _ => .out⟩ ∧
    (⟨[7, 0], 1, 2, -1, 0⟩ : BlockQueue Nat).peekFront = .error .outOfBounds ∧
    ¬ Peeks [.push 7 true] (⟨[7, 0], 1, 2, -1, 0⟩ : BlockQueue Nat) := by
  have hread : (⟨[7, 0], 1, 2, -1, 0⟩ : BlockQueue Nat).peekFront = .error .outOfBounds := rfl
  refine ⟨.step (.nil _) ⟨rfl, rfl⟩, hread, fun h => ?_⟩
  obtain ⟨x, q', hpeek, -⟩ := h.front (by decide)
  rw [hread] at hpeek
  cases hpeek

end

end BlockQueue

end LinuxServer
