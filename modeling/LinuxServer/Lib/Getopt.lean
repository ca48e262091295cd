import LinuxServer.Lib.CString

/-!
# `Lib/Getopt.lean` — `getopt`

`getopt` of the C library, for letters: called again and again it answers the options of a command line one after
another. An element that begins with `-` is a row of letters. A letter that takes an argument takes the rest of its
element, or the next element whole if there is no rest; one that takes none, or is none, leaves the rest for the
next call. Elements that are no options are passed over (they are moved behind the others), and `--` ends the options.

Between two calls there is only where it is: the rest of an element, and the elements behind it. What one call does
there is said for each form an option can have, with anything behind it, so that a command line is read form by
form.
-/

set_option autoImplicit false

namespace LinuxServer

/-- What a call answers: an option with `optarg`, or `?`. -/
inductive Opt
  | option (c : Byte) (optarg : Option (List Byte))
  | unknown (c : Byte)
  | missing (c : Byte)
  deriving DecidableEq, Repr

/-- The rest of the element it is in, and the elements behind that. -/
structure Getopt where
  nextchar : List Byte
  rest : List (List Byte)
  deriving DecidableEq, Repr

namespace Getopt

/-- Whether a letter is in `optstring`, and has a colon behind it there. -/
def takes : (optstring : List Byte) → Byte → Option Bool
  | [], _ => none
  | o :: optstring, c => if o = c ∧ c ≠ 58 then some (optstring.head? = some 58) else takes optstring c

/-- An element that is no option, such as `-`. -/
def operand : List Byte → Bool
  | 45 :: _ :: _ => false
  | _ => true

/-- The letter `c`, with `nextchar` behind it in its element. -/
def letter (optstring : List Byte) (c : Byte) (nextchar : List Byte) (rest : List (List Byte)) : Opt × Getopt :=
  match takes optstring c with
  | none => (.unknown c, ⟨nextchar, rest⟩)
  | some false => (.option c none, ⟨nextchar, rest⟩)
  | some true =>
    if nextchar ≠ [] then (.option c (some nextchar), ⟨[], rest⟩)
    else
      match rest with
      | [] => (.missing c, ⟨[], []⟩)
      | arg :: rest => (.option c (some arg), ⟨[], rest⟩)

/-- One call. There is no answer when it is -1. -/
def next (optstring : List Byte) (s : Getopt) : Option (Opt × Getopt) :=
  match s.nextchar with
  | c :: nextchar => some (letter optstring c nextchar s.rest)
  | [] =>
    match s.rest.dropWhile operand with
    | (_ :: c :: nextchar) :: rest =>
      if c = 45 ∧ nextchar = [] then none else some (letter optstring c nextchar rest)
    | _ => none

/-! ## The calls come to an end -/

/-- What there is of the elements. -/
def weight : List (List Byte) → Nat
  | [] => 0
  | w :: rest => w.length + 1 + weight rest

def size (s : Getopt) : Nat := s.nextchar.length + weight s.rest

section
variable {optstring : List Byte}

theorem weight_dropWhile (rest : List (List Byte)) : weight (rest.dropWhile operand) ≤ weight rest := by
  induction rest with
  | nil => exact Nat.le_refl _
  | cons w rest ih =>
    rw [List.dropWhile_cons]
    split
    · exact Nat.le_trans ih (Nat.le_add_left _ _)
    · exact Nat.le_refl _

theorem size_letter (c : Byte) (nextchar : List Byte) (rest : List (List Byte)) :
    (letter optstring c nextchar rest).2.size ≤ nextchar.length + weight rest := by
  unfold letter
  split
  · exact Nat.le_refl _
  · exact Nat.le_refl _
  · split
    · simp only [size, List.length_nil]
      omega
    · split
      · simp only [size, List.length_nil, weight]
        omega
      · simp only [size, List.length_nil, weight]
        omega

/-- Each call leaves less. -/
theorem size_next {s s' : Getopt} {opt : Opt} (h : next optstring s = some (opt, s')) : s'.size < s.size := by
  unfold next at h
  split at h
  · rename_i c nextchar hnext
    have hle := @size_letter optstring c nextchar s.rest
    rw [Option.some.inj h] at hle
    simp only [size, hnext, List.length_cons]
    simp only [size] at hle
    omega
  · split at h
    · rename_i hnext dash c nextchar rest hdrop
      split at h
      · cases h
      · have hle := @size_letter optstring c nextchar rest
        rw [Option.some.inj h] at hle
        have hrest := weight_dropWhile s.rest
        rw [hdrop] at hrest
        simp only [weight, List.length_cons] at hrest
        simp only [size] at hle ⊢
        omega
    · cases h

/-! ## The forms of an option -/

/-- An element that is no option is passed over. -/
theorem next_operand {w : List Byte} (hw : operand w = true) (rest : List (List Byte)) :
    next optstring ⟨[], w :: rest⟩ = next optstring ⟨[], rest⟩ := by
  unfold next
  simp only [List.dropWhile_cons_of_pos hw]

/-- Into an element. -/
theorem next_element {w : List Byte} (hw : w ≠ []) (hend : w ≠ [45]) (rest : List (List Byte)) :
    next optstring ⟨[], (45 :: w) :: rest⟩ = next optstring ⟨w, rest⟩ := by
  obtain ⟨c, nextchar, rfl⟩ := List.exists_cons_of_ne_nil hw
  have hne : ¬ (c = 45 ∧ nextchar = []) := fun h => hend (by rw [h.1, h.2])
  unfold next
  simp only [List.dropWhile_cons_of_neg (show ¬ operand (45 :: c :: nextchar) = true from Bool.false_ne_true)]
  rw [if_neg hne]

/-- A letter with its argument behind it in the element. -/
theorem next_joined {c : Byte} {value : List Byte} (hc : takes optstring c = some true) (hvalue : value ≠ [])
    (rest : List (List Byte)) :
    next optstring ⟨c :: value, rest⟩ = some (.option c (some value), ⟨[], rest⟩) := by
  simp only [next, letter, hc]
  rw [if_pos hvalue]

/-- A letter with its argument in the next element, whatever that is. -/
theorem next_separate {c : Byte} (hc : takes optstring c = some true) (value : List Byte) (rest : List (List Byte)) :
    next optstring ⟨[c], value :: rest⟩ = some (.option c (some value), ⟨[], rest⟩) := by
  simp only [next, letter, hc]
  rfl

/-- A letter that takes an argument, at the very end. -/
theorem next_missing {c : Byte} (hc : takes optstring c = some true) :
    next optstring ⟨[c], []⟩ = some (.missing c, ⟨[], []⟩) := by
  simp only [next, letter, hc]
  rfl

/-- A letter that is no option. -/
theorem next_unknown {c : Byte} (hc : takes optstring c = none) (nextchar : List Byte) (rest : List (List Byte)) :
    next optstring ⟨c :: nextchar, rest⟩ = some (.unknown c, ⟨nextchar, rest⟩) := by
  simp only [next, letter, hc]

/-- `--`, and what stands behind it. -/
theorem next_end (rest : List (List Byte)) : next optstring ⟨[], [45, 45] :: rest⟩ = none := rfl

theorem next_nil : next optstring ⟨[], []⟩ = none := rfl

end

end Getopt

end LinuxServer
