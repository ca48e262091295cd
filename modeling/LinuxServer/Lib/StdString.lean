import LinuxServer.Lib.CString

/-!
# `Lib/StdString.lean` — `std::string`, and `std::from_chars`

A `std::string` is the word of its bytes. `find` is the first place of a pattern, and `npos` is
`none`. What is needed of it is that it looks at nothing behind the place it finds: `find_append`
for more bytes behind, `find_take` for fewer; and that it passes over what the pattern's first byte
is not in (`find_append_notMem`), which is how a text is read that was put together from its parts.
-/

set_option autoImplicit false

namespace LinuxServer

/-- `w.find(pat)`. -/
def find (pat : List Byte) : List Byte → Option Nat
  | [] => if pat = [] then some 0 else none
  | b :: w => if pat <+: b :: w then some 0 else (find pat w).map (· + 1)

/-- `w.find(pat, pos)`, for a `pos` in the string. -/
def findFrom (pat w : List Byte) (pos : Nat) : Option Nat := (find pat (w.drop pos)).map (· + pos)

/-- `w.substr(pos, end - pos)`, or `w.substr(pos)` up to the end of the string. -/
def substr (w : List Byte) (pos : Nat) : Option Nat → List Byte
  | some stop => (w.drop pos).take (stop - pos)
  | none => w.drop pos

/-- `std::from_chars` for a `size_t`: the number at the beginning, if there is one and it fits. -/
def fromChars (w : List Byte) : Option Nat :=
  let number := w.takeWhile isdigit
  if number = [] then none else if digits number < 2 ^ 64 then some (digits number) else none

section
variable {pat w : List Byte} {p : Nat}

theorem findFrom_zero (pat w : List Byte) : findFrom pat w 0 = find pat w := by
  rw [findFrom, List.drop_zero]
  cases find pat w <;> rfl

/-- Where a pattern is found it is. -/
theorem find_prefix : ∀ {w : List Byte} {p : Nat}, find pat w = some p →
    p ≤ w.length ∧ pat <+: w.drop p
  | [], p, h => by
    rw [find] at h
    split at h
    · rename_i hpat
      cases h
      exact ⟨Nat.le_refl _, by rw [hpat]; exact List.nil_prefix⟩
    · cases h
  | b :: w, p, h => by
    rw [find] at h
    split at h
    · rename_i hpre
      cases h
      exact ⟨Nat.zero_le _, hpre⟩
    · obtain ⟨q, hq, rfl⟩ := Option.map_eq_some_iff.mp h
      obtain ⟨hle, hpre⟩ := find_prefix hq
      exact ⟨Nat.succ_le_succ hle, hpre⟩

theorem find_length (h : find pat w = some p) : p + pat.length ≤ w.length := by
  obtain ⟨hle, hpre⟩ := find_prefix h
  have hlen := hpre.length_le
  rw [List.length_drop] at hlen
  omega

theorem find_append : ∀ {w : List Byte} {p : Nat}, find pat w = some p → ∀ x,
    find pat (w ++ x) = some p
  | [], p, h, x => by
    rw [find] at h
    split at h
    · rename_i hpat
      cases h
      subst hpat
      cases x with
      | nil => rfl
      | cons b x => exact if_pos List.nil_prefix
    · cases h
  | b :: w, p, h, x => by
    rw [find] at h
    rw [List.cons_append, find]
    split at h
    · rename_i hpre
      cases h
      exact if_pos (hpre.trans (List.prefix_append _ _))
    · rename_i hpre
      obtain ⟨q, hq, rfl⟩ := Option.map_eq_some_iff.mp h
      -- the pattern ends inside `w`, so it is not at the beginning of the longer string either
      have hlen := find_length hq
      have hno : ¬ pat <+: b :: (w ++ x) := by
        intro hpre'
        refine hpre (List.prefix_of_prefix_length_le hpre' (List.prefix_append (b :: w) x) ?_)
        rw [List.length_cons]
        omega
      rw [if_neg hno, find_append hq]
      rfl

theorem find_take : ∀ {w : List Byte} {p : Nat}, find pat w = some p → ∀ {n : Nat},
    p + pat.length ≤ n → find pat (w.take n) = some p
  | [], p, h, n, _ => by rwa [List.take_nil]
  | b :: w, p, h, n, hn => by
    rw [find] at h
    split at h
    · rename_i hpre
      cases h
      rw [Nat.zero_add] at hn
      cases n with
      | zero =>
        have hpat : pat = [] := List.length_eq_zero_iff.mp (by omega)
        subst hpat
        rfl
      | succ n => exact if_pos (List.prefix_take_iff.mpr ⟨hpre, hn⟩)
    · rename_i hpre
      obtain ⟨q, hq, rfl⟩ := Option.map_eq_some_iff.mp h
      obtain ⟨n, rfl⟩ : ∃ n', n = n' + 1 := ⟨n - 1, by omega⟩
      have hno : ¬ pat <+: b :: w.take n := fun hpre' =>
        hpre (hpre'.trans (List.take_prefix (n + 1) (b :: w)))
      rw [List.take_succ_cons, find, if_neg hno, find_take hq (by omega)]
      rfl

/-- Two strings that agree up to the end of the pattern. -/
theorem find_congr {v : List Byte} (h : find pat w = some p)
    (hv : v.take (p + pat.length) = w.take (p + pat.length)) : find pat v = some p := by
  have htake := find_take h (Nat.le_refl _)
  rw [← hv] at htake
  have happ := find_append htake (v.drop (p + pat.length))
  rwa [List.take_append_drop] at happ

/-- What is not in a string is not in the beginning of one. -/
theorem find_none_of_prefix {v : List Byte} (h : find pat w = none) (hv : v <+: w) :
    find pat v = none := by
  obtain ⟨x, rfl⟩ := hv
  cases hfind : find pat v with
  | none => rfl
  | some q =>
    rw [find_append hfind x] at h
    cases h

/-! ## Texts that were put together -/

/-- A pattern is found at once where it is the beginning. -/
theorem find_of_prefix (h : pat <+: w) : find pat w = some 0 := by
  cases w with
  | nil => exact if_pos (List.prefix_nil.mp h)
  | cons b w => exact if_pos h

/-- Where the pattern does not begin, it is looked for one byte on. -/
theorem find_cons_of_not {b : Byte} (h : ¬ pat <+: b :: w) : find pat (b :: w) = (find pat w).map (· + 1) :=
  if_neg h

/-- Bytes that the pattern does not begin with are passed over. -/
theorem find_append_notMem {c : Byte} : ∀ {u : List Byte}, c ∉ u → ∀ w : List Byte,
    find (c :: pat) (u ++ w) = (find (c :: pat) w).map (· + u.length)
  | [], _, w => by
    rw [List.nil_append]
    cases find (c :: pat) w <;> rfl
  | b :: u, hu, w => by
    rw [List.mem_cons, not_or] at hu
    obtain ⟨hb, hu⟩ := hu
    have hno : ¬ c :: pat <+: b :: (u ++ w) := fun hpre => hb (List.cons_prefix_cons.mp hpre).1
    rw [List.cons_append, find_cons_of_not hno, find_append_notMem hu, Option.map_map]
    rfl

theorem find_notMem {c : Byte} {u : List Byte} (hu : c ∉ u) : find (c :: pat) u = none := by
  have hfind : find (c :: pat) (u ++ []) = none := find_append_notMem hu []
  rwa [List.append_nil] at hfind

/-- The first place of two bytes, the first of which is not in front of it. -/
theorem find_append_self {c : Byte} {u : List Byte} (hu : c ∉ u) (w : List Byte) :
    find (c :: pat) (u ++ (c :: pat ++ w)) = some u.length := by
  rw [find_append_notMem hu, find_of_prefix (List.prefix_append _ _), Option.map_some, Nat.zero_add]

/-- A pattern of two different bytes is not made by what is in front of it: it is first where it was
    put, unless it was there before. -/
theorem find_append_pair {c d : Byte} (hcd : d ≠ c) : ∀ {u : List Byte}, find [c, d] u = none →
    ∀ w : List Byte, find [c, d] (u ++ ([c, d] ++ w)) = some u.length
  | [], _, w => find_of_prefix (List.prefix_append _ _)
  | b :: u, hu, w => by
    rw [find] at hu
    split at hu
    · cases hu
    · rename_i hpre
      have hno : ¬ [c, d] <+: b :: (u ++ ([c, d] ++ w)) := by
        intro hpre'
        obtain ⟨rfl, htail⟩ := List.cons_prefix_cons.mp hpre'
        cases u with
        | nil => exact hcd (List.cons_prefix_cons.mp htail).1
        | cons e u =>
          obtain ⟨rfl, -⟩ := List.cons_prefix_cons.mp htail
          exact hpre (List.prefix_append [_, _] u)
      have hu' : find [c, d] u = none := Option.map_eq_none_iff.mp hu
      rw [List.cons_append, find_cons_of_not hno, find_append_pair hcd hu' w]
      rfl

end

end LinuxServer
