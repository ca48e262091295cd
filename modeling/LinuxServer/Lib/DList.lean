import Mathlib.Data.List.Basic

/-!
# `Lib/DList.lean` — doubly linked segments

A doubly linked list in memory is two partial maps on addresses, `next` and `prev`. `Seg` says that
a *list of addresses* is threaded by those two maps, entered from `b` and left towards `a`; it is
the only predicate pointer surgery is ever stated against here.

The edits a program makes are local, and each is one of two: what follows the last cell of a
segment changes (`Seg.retarget`), or what precedes its first cell does (`Seg.resource`). With
`seg_append` to cut a list open at the place of the edit, linking a cell in and unlinking one are
two applications of these.
-/

set_option autoImplicit false

namespace LinuxServer

universe u

variable {α : Type u}

/-- The addresses of the list are linked both ways, from `b` before the first to `a` after the
    last. -/
def Seg (next prev : α → Option α) : Option α → List α → Option α → Prop
  | _, [], _ => True
  | b, x :: l, a => prev x = b ∧ next x = l.head?.or a ∧ Seg next prev (some x) l a

section
variable {next prev next' prev' : α → Option α} {a a' b b' : Option α} {l l₁ l₂ : List α} {x : α}

@[simp] theorem seg_nil : Seg next prev b [] a := trivial

theorem seg_cons : Seg next prev b (x :: l) a ↔
    prev x = b ∧ next x = l.head?.or a ∧ Seg next prev (some x) l a := Iff.rfl

/-- A segment cut in two: each half is a segment, and they meet at the seam. -/
theorem seg_append : Seg next prev b (l₁ ++ l₂) a ↔
    Seg next prev b l₁ (l₂.head?.or a) ∧ Seg next prev (l₁.getLast?.or b) l₂ a := by
  induction l₁ generalizing b with
  | nil => simp
  | cons x l₁ ih =>
    rw [List.cons_append, seg_cons, seg_cons, ih]
    have hhead : (l₁ ++ l₂).head?.or a = l₁.head?.or (l₂.head?.or a) := by
      cases l₁ <;> simp
    have hlast : ((x :: l₁).getLast?).or b = l₁.getLast?.or (some x) := by
      cases hl : l₁.getLast? with
      | none => simp [List.getLast?_eq_none_iff.mp hl]
      | some z => simp [List.getLast?_cons, hl]
    rw [hhead, hlast]
    exact ⟨fun ⟨h1, h2, h3, h4⟩ => ⟨⟨h1, h2, h3⟩, h4⟩, fun ⟨⟨h1, h2, h3⟩, h4⟩ => ⟨h1, h2, h3, h4⟩⟩

/-- A segment reads only the links of its own cells. -/
theorem Seg.congr (h : Seg next prev b l a) (hn : ∀ y ∈ l, next' y = next y)
    (hp : ∀ y ∈ l, prev' y = prev y) : Seg next' prev' b l a := by
  induction l generalizing b with
  | nil => trivial
  | cons x l ih =>
    obtain ⟨h1, h2, h3⟩ := h
    refine ⟨by rw [hp x List.mem_cons_self, h1], by rw [hn x List.mem_cons_self, h2], ?_⟩
    exact ih h3 (fun y hy => hn y (List.mem_cons_of_mem _ hy))
      (fun y hy => hp y (List.mem_cons_of_mem _ hy))

/-- The last cell is pointed elsewhere; the others keep their links. -/
theorem Seg.retarget (h : Seg next prev b l a) (hlast : ∀ z ∈ l.getLast?, next' z = a')
    (hrest : ∀ y ∈ l.dropLast, next' y = next y) : Seg next' prev b l a' := by
  induction l generalizing b with
  | nil => trivial
  | cons x l ih =>
    obtain ⟨h1, h2, h3⟩ := h
    cases l with
    | nil => exact ⟨h1, by simpa using hlast, trivial⟩
    | cons y l =>
      refine ⟨h1, ?_, ih h3 (fun z hz => hlast z (by simpa [List.getLast?_cons] using hz)) ?_⟩
      · rw [hrest x (by simp [List.dropLast]), h2]; simp
      · exact fun z hz => hrest z (by simp [List.dropLast, hz])

/-- The first cell is entered from elsewhere; the others keep their links. -/
theorem Seg.resource (h : Seg next prev b l a) (hhead : ∀ z ∈ l.head?, prev' z = b')
    (hrest : ∀ y ∈ l.tail, prev' y = prev y) : Seg next prev' b' l a := by
  cases l with
  | nil => trivial
  | cons x l =>
    obtain ⟨_, h2, h3⟩ := h
    exact ⟨hhead x (by simp), h2, h3.congr (fun _ _ => rfl) hrest⟩

/-- The cell `x`, linked in between the two halves of a segment. -/
theorem Seg.link (h : Seg next prev b (l₁ ++ l₂) a)
    (hx : next' x = l₂.head?.or a ∧ prev' x = l₁.getLast?.or b)
    (hlast : ∀ z ∈ l₁.getLast?, next' z = some x) (hhead : ∀ z ∈ l₂.head?, prev' z = some x)
    (hn : ∀ y ∈ l₁.dropLast ++ l₂, next' y = next y)
    (hp : ∀ y ∈ l₁ ++ l₂.tail, prev' y = prev y) :
    Seg next' prev' b (l₁ ++ x :: l₂) a := by
  obtain ⟨h1, h2⟩ := seg_append.mp h
  refine seg_append.mpr ⟨?_, hx.2, hx.1, ?_⟩
  · exact (h1.retarget hlast fun y hy => hn y (List.mem_append_left _ hy)).congr
      (fun _ _ => rfl) (fun y hy => hp y (List.mem_append_left _ hy))
  · exact (h2.resource hhead fun y hy => hp y (List.mem_append_right _ hy)).congr
      (fun y hy => hn y (List.mem_append_right _ hy)) (fun _ _ => rfl)

/-- The cell `x`, unlinked: its neighbours are pointed at each other. -/
theorem Seg.unlink (h : Seg next prev b (l₁ ++ x :: l₂) a)
    (hlast : ∀ z ∈ l₁.getLast?, next' z = l₂.head?.or a)
    (hhead : ∀ z ∈ l₂.head?, prev' z = l₁.getLast?.or b)
    (hn : ∀ y ∈ l₁.dropLast ++ l₂, next' y = next y)
    (hp : ∀ y ∈ l₁ ++ l₂.tail, prev' y = prev y) :
    Seg next' prev' b (l₁ ++ l₂) a := by
  obtain ⟨h1, _, _, h3⟩ := seg_append.mp h
  refine seg_append.mpr ⟨?_, ?_⟩
  · exact (h1.retarget hlast fun y hy => hn y (List.mem_append_left _ hy)).congr
      (fun _ _ => rfl) (fun y hy => hp y (List.mem_append_left _ hy))
  · exact (h3.resource hhead fun y hy => hp y (List.mem_append_right _ hy)).congr
      (fun y hy => hn y (List.mem_append_right _ hy)) (fun _ _ => rfl)

/-- What a cell of a segment points at, both ways. -/
theorem Seg.links (h : Seg next prev b (l₁ ++ x :: l₂) a) :
    next x = l₂.head?.or a ∧ prev x = l₁.getLast?.or b :=
  let ⟨_, h1, h2, _⟩ := seg_append.mp h
  ⟨h2, h1⟩

end

/-- The addresses met by following `next` from `p`, at most `n` of them. -/
def walk (next : α → Option α) : Nat → Option α → List α
  | 0, _ => []
  | _ + 1, none => []
  | n + 1, some x => x :: walk next n (next x)

/-- Following `next` from the head visits exactly the cells of the list, each once. -/
theorem Seg.walk {next prev : α → Option α} {b : Option α} {l : List α}
    (h : Seg next prev b l none) {n : Nat} (hn : l.length ≤ n) : walk next n l.head? = l := by
  induction l generalizing b n with
  | nil => cases n <;> rfl
  | cons x l ih =>
    obtain ⟨_, h2, h3⟩ := h
    cases n with
    | zero => simp at hn
    | succ n =>
      simp only [List.head?_cons, LinuxServer.walk, h2, Option.or_none]
      rw [ih h3 (by simpa using hn)]

/-- In a list closed at both ends, `prev` is the inverse of `next`. -/
theorem Seg.inverse {next prev : α → Option α} {l : List α} (hnd : l.Nodup)
    (h : Seg next prev none l none) {x y : α} (hx : x ∈ l) (hy : y ∈ l) :
    next x = some y ↔ prev y = some x := by
  constructor
  · obtain ⟨l₁, l₂, rfl⟩ := List.append_of_mem hx
    intro hxy
    rw [h.links.1, Option.or_none] at hxy
    obtain ⟨l₂', rfl⟩ := List.head?_eq_some_iff.mp hxy
    rw [List.append_cons] at h
    simpa using h.links.2
  · obtain ⟨l₁, l₂, rfl⟩ := List.append_of_mem hy
    intro hyx
    rw [h.links.2, Option.or_none] at hyx
    obtain ⟨l₁', rfl⟩ := List.getLast?_eq_some_iff.mp hyx
    rw [List.append_assoc] at h
    simpa using h.links.1

end LinuxServer
