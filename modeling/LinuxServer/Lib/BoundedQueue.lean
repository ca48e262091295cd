import LinuxServer.Lib.System
import Mathlib.Data.Int.ModEq

/-!
# `Lib/BoundedQueue.lean` — a bounded queue, and the ring it is kept in

What a bounded queue is: a list of at most so many items, that is appended to at the one end and taken
from at the other (`BoundedQueue.system`). A call that finds no room changes nothing. What has been done to
it says what is at its end (`getLast?_eq_lastPushed`).

How it is kept: a ring of cells, in which the items lie from some cell on, and wrap around
(`Ring.Holds`). The three laws of a ring are that an item which is put behind the last is behind the last,
that the first is the first, and that what is left of it lies from the next cell on.
-/

set_option autoImplicit false

namespace LinuxServer

universe u

/-! ## The queue -/

namespace BoundedQueue

variable {α : Type u}

/-- A call on a bounded queue, with what it returns. -/
inductive Call (α : Type u)
  | push (x : α) (stored : Bool)
  | pop (x : α)
  | clear
  | size (n : Int)
  | empty (answer : Bool)
  | full (answer : Bool)

/-- The runs of a queue that has room for `capacity` items. -/
def system (α : Type u) (capacity : Nat) : System (List α) (Call α) where
  start items := items = []
  step items call items' :=
    match call with
    | .push x stored =>
      (stored = false ↔ items.length = capacity) ∧ items' = if stored then items ++ [x] else items
    | .pop x => items = x :: items'
    | .clear => items' = []
    | .size n => n = items.length ∧ items' = items
    | .empty answer => (answer = true ↔ items = []) ∧ items' = items
    | .full answer => (answer = true ↔ items.length = capacity) ∧ items' = items

/-- The item that was stored last. -/
def lastPushed : List (Call α) → Option α
  | [] => none
  | .push x true :: _ => some x
  | _ :: h => lastPushed h

/-- The item that was taken last, if one was since the queue was made or cleared. -/
def lastPopped : List (Call α) → Option α
  | [] => none
  | .pop x :: _ => some x
  | .clear :: _ => none
  | _ :: h => lastPopped h

/-- What is at the end of a queue is what was stored last. -/
theorem getLast?_eq_lastPushed {capacity : Nat} {h : List (Call α)} {items : List α}
    (hrun : (system α capacity).Run [] h items) (hne : items ≠ []) : items.getLast? = lastPushed h := by
  refine hrun.invariant (I := fun h items => items ≠ [] → items.getLast? = lastPushed h) ?_
    (fun hnil => absurd rfl hnil) hne
  intro h items call items' ih hstep hne
  cases call with
  | push x stored =>
    obtain ⟨-, rfl⟩ := hstep
    cases stored with
    | false => exact ih hne
    | true => exact List.getLast?_concat ..
  | pop x =>
    obtain rfl : items = x :: items' := hstep
    obtain ⟨y, rest, rfl⟩ := List.exists_cons_of_ne_nil hne
    have hlast := ih (List.cons_ne_nil _ _)
    rwa [List.getLast?_cons_cons] at hlast
  | clear => exact absurd hstep hne
  | size n => exact hstep.2 ▸ ih (hstep.2 ▸ hne)
  | empty answer => exact hstep.2 ▸ ih (hstep.2 ▸ hne)
  | full answer => exact hstep.2 ▸ ih (hstep.2 ▸ hne)

end BoundedQueue

/-! ## The ring -/

namespace Ring

variable {α : Type u} {cells items : List α} {start start' : Nat} {x : α}

/-- The items lie in the cells from `start` on, and behind the last cell comes the first. -/
def Holds (cells : List α) (start : Nat) (items : List α) : Prop :=
  ∀ i x, items[i]? = some x → cells[(start + i) % cells.length]? = some x

theorem holds_nil : Holds cells start [] := by
  intro i x hx
  rw [List.getElem?_nil] at hx
  cases hx

/-- Where a ring starts is nothing but a cell. -/
theorem Holds.congr (h : Holds cells start items) (hstart : start % cells.length = start' % cells.length) :
    Holds cells start' items := by
  intro i x hx
  rw [Nat.add_mod, ← hstart, ← Nat.add_mod]
  exact h i x hx

theorem Holds.head (h : Holds cells start (x :: items)) : cells[start % cells.length]? = some x :=
  h 0 x rfl

theorem Holds.tail (h : Holds cells start (x :: items)) : Holds cells (start + 1) items := by
  intro i y hy
  have hcell := h (i + 1) y (by rwa [List.getElem?_cons_succ])
  rwa [Nat.add_assoc, Nat.add_comm 1 i]

/-- Two places of a ring that are not a whole round apart are two cells. -/
theorem index_ne {n i j : Nat} (hij : i < j) (hj : j < n) : (start + i) % n ≠ (start + j) % n := by
  intro heq
  have hmod : i % n = j % n := Nat.ModEq.add_left_cancel' start heq
  rw [Nat.mod_eq_of_lt (hij.trans hj), Nat.mod_eq_of_lt hj] at hmod
  exact hij.ne hmod

theorem Holds.push (h : Holds cells start items) (hroom : items.length < cells.length) :
    Holds (cells.set ((start + items.length) % cells.length) x) start (items ++ [x]) := by
  intro i y hy
  rw [List.length_set]
  rcases Nat.lt_trichotomy i items.length with hlt | rfl | hgt
  · rw [List.getElem?_append_left hlt] at hy
    rw [List.getElem?_set_ne (index_ne hlt hroom).symm]
    exact h i y hy
  · rw [List.getElem?_concat_length] at hy
    have hcell := Nat.mod_lt (start + items.length) (Nat.zero_lt_of_lt hroom)
    rw [List.getElem?_set_self hcell]
    exact hy
  · have hlength : (items ++ [x]).length ≤ i := by
      rw [List.length_append, List.length_singleton]
      exact hgt
    rw [List.getElem?_eq_none hlength] at hy
    cases hy

end Ring

end LinuxServer
