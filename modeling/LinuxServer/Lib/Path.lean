import LinuxServer.Lib.CString
import Mathlib.Data.List.Basic

/-!
# `Lib/Path.lean` — paths, resolved lexically

A path is a walk: a segment goes down to a name, `..` goes up, and the empty segment and `.` stay. At
the root `..` stays as well. `walk` is where a walk ends, the innermost name first, and `normal` is
the walk with nothing undone in it: so many times up, then down. `walk_eq` says that a walk ends where
its normal form does, and from that `suffix_walk_iff` when it ends at or below where it began: it has
to come back down through every name it went up past.

`resolve` is the walk of a path from the root, and `Below` is its order.
-/

set_option autoImplicit false

namespace LinuxServer
namespace Path

/-! ## Walks -/

inductive Move (α : Type)
  | stay
  | up
  | down (name : α)
  deriving DecidableEq

section
variable {α : Type}

/-- Where a walk ends, from `here`. -/
def walk : (here : List α) → List (Move α) → List α
  | here, [] => here
  | here, .stay :: moves => walk here moves
  | here, .up :: moves => walk here.tail moves
  | here, .down name :: moves => walk (name :: here) moves

/-- The normal form of a walk, behind `k` times up and then down through `names`. -/
def normalFrom : (k : Nat) → (names : List α) → List (Move α) → Nat × List α
  | k, names, [] => (k, names)
  | k, names, .stay :: moves => normalFrom k names moves
  | k, [], .up :: moves => normalFrom (k + 1) [] moves
  | k, _ :: names, .up :: moves => normalFrom k names moves
  | k, names, .down name :: moves => normalFrom k (name :: names) moves

def normal (moves : List (Move α)) : Nat × List α := normalFrom 0 [] moves

theorem walk_append (here : List α) (moves moves' : List (Move α)) :
    walk here (moves ++ moves') = walk (walk here moves) moves' := by
  induction moves generalizing here with
  | nil => rfl
  | cons move moves ih =>
    cases move with
    | stay => exact ih here
    | up => exact ih here.tail
    | down name => exact ih (name :: here)

theorem walk_normalFrom (here : List α) : ∀ (moves : List (Move α)) (k : Nat) (names : List α),
    walk (names ++ here.drop k) moves =
      (normalFrom k names moves).2 ++ here.drop (normalFrom k names moves).1
  | [], _, _ => rfl
  | .stay :: moves, k, names => walk_normalFrom here moves k names
  | .down name :: moves, k, names => walk_normalFrom here moves k (name :: names)
  | .up :: moves, k, _ :: names => walk_normalFrom here moves k names
  | .up :: moves, k, [] => by
    rw [walk, normalFrom, List.nil_append, List.tail_drop]
    exact walk_normalFrom here moves (k + 1) []

/-- A walk ends where its normal form does. -/
theorem walk_eq (here : List α) (moves : List (Move α)) :
    walk here moves = (normal moves).2 ++ here.drop (normal moves).1 :=
  walk_normalFrom here moves 0 []

/-- The walk comes back to `here` or below it: down through the names that it went up past. -/
def Returns (here : List α) (moves : List (Move α)) : Prop :=
  here.take (normal moves).1 <:+ (normal moves).2

instance [DecidableEq α] (here : List α) (moves : List (Move α)) : Decidable (Returns here moves) :=
  inferInstanceAs (Decidable (_ <:+ _))

/-- **When a walk ends at or below where it began.** -/
theorem suffix_walk_iff (here : List α) (moves : List (Move α)) :
    here <:+ walk here moves ↔ Returns here moves := by
  have hsplit : here = here.take (normal moves).1 ++ here.drop (normal moves).1 :=
    (List.take_append_drop _ _).symm
  rw [walk_eq]
  conv_lhs => lhs; rw [hsplit]
  exact List.suffix_append_self_iff

/-- A walk that never goes further up than down. -/
theorem returns_of_normal {here : List α} {moves : List (Move α)} (h : (normal moves).1 = 0) :
    Returns here moves := by
  rw [Returns, h, List.take_zero]
  exact List.nil_suffix

end

/-! ## Paths -/

/-- A segment between slashes. -/
def segmentMove (segment : List Byte) : Move (List Byte) :=
  if segment = [] ∨ segment = bytes "." then .stay
  else if segment = bytes ".." then .up
  else .down segment

def moves (path : List Byte) : List (Move (List Byte)) := (path.splitOn 47).map segmentMove

/-- The names that a path goes through from the root, the last first. -/
def resolve (path : List Byte) : List (List Byte) := walk [] (moves path)

/-- The path is `root`, or lies below it. -/
def Below (root path : List Byte) : Prop := resolve root <:+ resolve path

instance (root path : List Byte) : Decidable (Below root path) :=
  inferInstanceAs (Decidable (_ <:+ _))

theorem moves_append (path rest : List Byte) : moves (path ++ 47 :: rest) = moves path ++ moves rest := by
  unfold moves
  rw [List.splitOn_append_cons_self, List.map_append]

/-- **When what is appended to a path stays below it.** -/
theorem below_append_iff (root : List Byte) {rest : List Byte} (h : rest = [] ∨ rest.head? = some 47) :
    Below root (root ++ rest) ↔ Returns (resolve root) (moves rest) := by
  rcases h with rfl | h
  · rw [List.append_nil]
    refine iff_of_true (List.suffix_refl _) (returns_of_normal ?_)
    rfl
  · cases rest with
    | nil => cases h
    | cons b rest =>
      cases h
      have hmoves : moves (47 :: rest) = .stay :: moves rest := moves_append [] rest
      rw [← suffix_walk_iff, hmoves, walk, Below, resolve, resolve, moves_append, walk_append]

end Path
end LinuxServer
