import Mathlib.Data.List.Sort

/-!
# `Lib/KeyOrder.lean` — lists in ascending order of a key

A priority queue kept as a list: elements carry a key, and the list is ascending in it. `orderedInsert`
with the *strict* comparison of keys is stable insertion — behind every element of an equal key —
and the three facts a queue needs are here: insertion keeps the order, so does moving an element
whose key was raised, and a test that only small keys pass holds on a prefix.
-/

set_option autoImplicit false

namespace LinuxServer

universe u v

variable {α : Type u} {β : Type v} [LinearOrder β]

/-- The keys along the list never decrease. -/
def SortedBy (key : α → β) (l : List α) : Prop := l.Pairwise fun a b => key a ≤ key b

variable {key key' : α → β} {l l₁ l₂ : List α} {x : α}

theorem SortedBy.congr (h : SortedBy key l) (hk : ∀ a ∈ l, key' a = key a) : SortedBy key' l :=
  h.imp_of_mem fun {a b} ha hb hab => by rw [hk a ha, hk b hb]; exact hab

/-- Stable insertion keeps the order. -/
theorem SortedBy.orderedInsert [DecidableRel fun a b => key a < key b] (h : SortedBy key l) :
    SortedBy key (l.orderedInsert (fun a b => key a < key b) x) := by
  induction l with
  | nil => exact List.pairwise_singleton _ _
  | cons y l ih =>
    obtain ⟨hy, hl⟩ := List.pairwise_cons.mp h
    rw [List.orderedInsert]
    split
    · rename_i hxy
      refine List.pairwise_cons.mpr ⟨fun z hz => ?_, h⟩
      rcases List.mem_cons.mp hz with rfl | hz
      · exact hxy.le
      · exact hxy.le.trans (hy z hz)
    · rename_i hxy
      refine List.pairwise_cons.mpr ⟨fun z hz => ?_, ih hl⟩
      rcases List.mem_orderedInsert _ |>.mp hz with rfl | hz
      · exact not_lt.mp hxy
      · exact hy z hz

/-- **An element whose key was raised is in order again after re-insertion into what follows it**:
    nothing in front of it can be above it now. -/
theorem SortedBy.reinsert [DecidableRel fun a b => key' a < key' b]
    (h : SortedBy key (l₁ ++ x :: l₂)) (hk : ∀ a ∈ l₁ ++ l₂, key' a = key a)
    (hx : key x ≤ key' x) :
    SortedBy key' (l₁ ++ l₂.orderedInsert (fun a b => key' a < key' b) x) := by
  obtain ⟨h1, h2, h12⟩ := List.pairwise_append.mp h
  obtain ⟨-, h2⟩ := List.pairwise_cons.mp h2
  have hk1 : ∀ a ∈ l₁, key' a = key a := fun a ha => hk a (List.mem_append_left _ ha)
  have hk2 : ∀ a ∈ l₂, key' a = key a := fun a ha => hk a (List.mem_append_right _ ha)
  refine List.pairwise_append.mpr
    ⟨SortedBy.congr h1 hk1, (SortedBy.congr h2 hk2).orderedInsert, fun a ha b hb => ?_⟩
  rw [hk1 a ha]
  rcases List.mem_orderedInsert _ |>.mp hb with rfl | hb
  · exact (h12 a ha b (by simp)).trans hx
  · rw [hk2 b hb]; exact h12 a ha b (by simp [hb])

/-- A test that, once failed along the list, is failed from there on, holds on a prefix. -/
theorem takeWhile_eq_filter {P : α → Bool} (h : l.Pairwise fun a b => P b = true → P a = true) :
    l.takeWhile P = l.filter P := by
  induction l with
  | nil => rfl
  | cons a l ih =>
    obtain ⟨ha, hl⟩ := List.pairwise_cons.mp h
    by_cases hPa : P a = true
    · rw [List.takeWhile_cons_of_pos hPa, List.filter_cons_of_pos hPa, ih hl]
    · rw [List.takeWhile_cons_of_neg hPa, List.filter_cons_of_neg hPa]
      exact (List.filter_eq_nil_iff.mpr fun b hb hPb => hPa (ha b hb hPb)).symm

/-- …and what follows the prefix is everything that fails it. -/
theorem dropWhile_eq_filter {P : α → Bool} (h : l.Pairwise fun a b => P b = true → P a = true) :
    l.dropWhile P = l.filter fun a => !P a := by
  induction l with
  | nil => rfl
  | cons a l ih =>
    obtain ⟨ha, hl⟩ := List.pairwise_cons.mp h
    by_cases hPa : P a = true
    · rw [List.dropWhile_cons_of_pos hPa, List.filter_cons_of_neg (by simp [hPa]), ih hl]
    · rw [List.dropWhile_cons_of_neg hPa]
      refine (List.filter_eq_self.mpr fun b hb => ?_).symm
      rcases List.mem_cons.mp hb with rfl | hb
      · simpa using hPa
      · simpa using fun hPb => hPa (ha b hb hPb)

end LinuxServer
