import LinuxServer.Lib.System

/-!
# `Lib/Semaphore.lean` — a list under a lock, counted by a semaphore

Threads share a list. One that puts an item in takes the lock, appends, releases the lock and then
posts the semaphore; one that takes an item out waits for the semaphore first, and then takes the
lock and the front of the list. So between the two halves of either the semaphore and the length of
the list differ, and what makes them agree again is the number of threads that are in between.

A `Guarded` list is all of this that matters: the items, the permits, and how many threads have
waited and not yet taken (`taking`) or put and not yet posted (`giving`). How a program tells which of
its threads these are is its own affair; it instantiates the library by projecting its runs to runs of
`guarded`.

Two laws hold of every run: the counts add up to the length (`Balanced`), whence no one who has
waited finds the list empty; and items come out in the order in which they went in, each once
(`fifo`).
-/

set_option autoImplicit false

namespace LinuxServer

universe u

/-- A list, the semaphore that counts it, and the threads between the two. -/
structure Guarded (α : Type u) where
  items : List α
  permits : Nat
  taking : Nat
  giving : Nat

namespace Guarded

variable {α : Type u}

/-- What a thread does to a guarded list. A thread that finds it empty goes away. -/
inductive Step (α : Type u)
  | wait
  | take (x : Option α)
  | put (x : α)
  | post

/-- The list before any thread has come. -/
def initial (items : List α) : Guarded α := ⟨items, items.length, 0, 0⟩

/-- The runs of a list that holds `items` at first. -/
def system (items : List α) : System (Guarded α) (Step α) where
  start g := g = initial items
  step g i g' :=
    match i with
    | .wait => 0 < g.permits ∧ g' = { g with permits := g.permits - 1, taking := g.taking + 1 }
    | .take x => 0 < g.taking ∧ x = g.items.head? ∧
        g' = { g with items := g.items.tail, taking := g.taking - 1 }
    | .put x => g' = { g with items := g.items ++ [x], giving := g.giving + 1 }
    | .post => 0 < g.giving ∧ g' = { g with permits := g.permits + 1, giving := g.giving - 1 }

/-- **The counting law.** -/
def Balanced (g : Guarded α) : Prop := g.items.length = g.permits + g.taking + g.giving

section
variable {items : List α} {g g' : Guarded α} {h : List (Step α)}

/-- Whoever has waited finds an item. -/
theorem Balanced.items_ne_nil (hg : Balanced g) (htaking : 0 < g.taking) : g.items ≠ [] := by
  intro hnil
  rw [Balanced, hnil, List.length_nil] at hg
  omega

theorem Balanced.step (hg : Balanced g) {i : Step α} (hstep : (system items).step g i g') :
    Balanced g' := by
  cases i with
  | wait =>
    obtain ⟨hpermits, rfl⟩ := hstep
    unfold Balanced at hg ⊢
    simp only
    omega
  | take x =>
    obtain ⟨htaking, -, rfl⟩ := hstep
    have hne := List.length_pos_iff.mpr (hg.items_ne_nil htaking)
    unfold Balanced at hg ⊢
    simp only [List.length_tail]
    omega
  | put x =>
    obtain rfl := hstep
    unfold Balanced at hg ⊢
    simp only [List.length_append, List.length_singleton]
    omega
  | post =>
    obtain ⟨hgiving, rfl⟩ := hstep
    unfold Balanced at hg ⊢
    simp only
    omega

theorem balanced (hrun : (system items).Run (initial items) h g) : Balanced g :=
  hrun.invariant (I := fun _ g => Balanced g) (fun hg hstep => hg.step hstep)
    (show items.length = _ by simp [initial])

/-! ## What went in, and what came out -/

/-- The items put in, the first first. -/
def puts : List (Step α) → List α
  | [] => []
  | .put x :: h => puts h ++ [x]
  | _ :: h => puts h

/-- The items taken out. -/
def takes : List (Step α) → List α
  | [] => []
  | .take (some x) :: h => takes h ++ [x]
  | _ :: h => takes h

/-- **First in, first out, and each once**: what has been taken, and then what is in the list, is what
    was in it and has been put in. -/
theorem fifo (hrun : (system items).Run (initial items) h g) : items ++ puts h = takes h ++ g.items := by
  refine hrun.invariant (I := fun h g => items ++ puts h = takes h ++ g.items) ?_ (List.append_nil items)
  intro h g i g' ih hstep
  cases i with
  | wait =>
    obtain ⟨-, rfl⟩ := hstep
    exact ih
  | take x =>
    obtain ⟨-, rfl, rfl⟩ := hstep
    cases hitems : g.items with
    | nil =>
      rw [hitems] at ih
      exact ih
    | cons y rest =>
      rw [hitems] at ih
      show items ++ puts h = takes h ++ [y] ++ rest
      rw [ih, List.append_assoc]
      rfl
  | put x =>
    obtain rfl := hstep
    show items ++ (puts h ++ [x]) = takes h ++ (g.items ++ [x])
    rw [← List.append_assoc, ih, List.append_assoc]
  | post =>
    obtain ⟨-, rfl⟩ := hstep
    exact ih

end

end Guarded

/-! ## Counting threads -/

section
variable {T : Type u} {threads : List T} {p : T → Bool} {i : Nat} {t v : T}

/-- Where the threads are when one has moved. -/
theorem getElem?_move (hi : threads[i]? = some t) (j : Nat) :
    (threads.set i v)[j]? = if j = i then some v else threads[j]? := by
  obtain ⟨hlt, -⟩ := List.getElem?_eq_some_iff.mp hi
  rw [List.getElem?_set]
  by_cases hj : i = j
  · rw [if_pos hj, if_pos hj.symm, if_pos hlt]
  · rw [if_neg hj, if_neg (Ne.symm hj)]

/-- A thread that moves to a place where it is counted. -/
theorem countP_enter (hi : threads[i]? = some t) (hp : p t = false) (hp' : p v = true) :
    (threads.set i v).countP p = threads.countP p + 1 := by
  obtain ⟨hlt, rfl⟩ := List.getElem?_eq_some_iff.mp hi
  rw [List.countP_set hlt, hp, hp']
  simp

/-- One that moves away from there. -/
theorem countP_leave (hi : threads[i]? = some t) (hp : p t = true) (hp' : p v = false) :
    0 < threads.countP p ∧ (threads.set i v).countP p = threads.countP p - 1 := by
  obtain ⟨hlt, rfl⟩ := List.getElem?_eq_some_iff.mp hi
  rw [List.countP_set hlt, hp, hp']
  exact ⟨List.countP_pos_iff.mpr ⟨_, List.getElem_mem hlt, hp⟩, by simp⟩

/-- One that is not counted before or after. -/
theorem countP_pass (hi : threads[i]? = some t) (hp : p t = p v) :
    (threads.set i v).countP p = threads.countP p := by
  obtain ⟨hlt, rfl⟩ := List.getElem?_eq_some_iff.mp hi
  have hle := List.boole_getElem_le_countP (p := p) hlt
  rw [List.countP_set hlt, ← hp]
  omega

end

end LinuxServer
