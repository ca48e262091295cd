import LinuxServer.Lib.CString

/-!
# `Lib/SqlText.lean` — string literals in SQL, and rows of them

A literal in single quotes, as MySQL reads it: a doubled quote stands for a quote, and a backslash with what is
behind it for a byte, but for `\%` and `\_`, which stand for themselves. Blanks and comments may stand around a
literal in a row.

Reading makes a value of a text that is at least as long, and of the same length only when the text is the value
(`literal_spec`, `row_spec`). So a row that was written by putting quotes around its values is read as these if
and only if each of them is `plain`, and no argument about where a literal ends instead is needed
(`row_quoted_iff`).
-/

set_option autoImplicit false

namespace LinuxServer
namespace SqlText

/-! ## Literals -/

/-- What a backslash stands for, with the byte behind it. -/
def unescape (b : Byte) : List Byte :=
  if b = 48 then [0]
  else if b = 98 then [8]
  else if b = 110 then [10]
  else if b = 114 then [13]
  else if b = 116 then [9]
  else if b = 90 then [26]
  else if b = 37 ∨ b = 95 then [92, b]
  else [b]

/-- A literal behind its first quote: its value, and what is behind it. -/
def literal : List Byte → Option (List Byte × List Byte)
  | [] => none
  | [b] => if b = 39 then some ([], []) else none
  | b :: b' :: rest =>
    if b = 39 then
      if b' = 39 then (literal rest).map fun r => (39 :: r.1, r.2) else some ([], b' :: rest)
    else if b = 92 then (literal rest).map fun r => (unescape b' ++ r.1, r.2)
    else (literal (b' :: rest)).map fun r => (b :: r.1, r.2)

/-- A value that needs no escapes: there is no quote in it, and no backslash but in `\%` and `\_`. -/
def plain : List Byte → Bool
  | [] => true
  | [b] => b ≠ 39 ∧ b ≠ 92
  | b :: b' :: rest =>
    if b = 39 then false
    else if b = 92 then (b' = 37 ∨ b' = 95) && plain rest
    else plain (b' :: rest)

theorem unescape_length (b : Byte) : (unescape b).length = 1 ∨ (b = 37 ∨ b = 95) ∧ unescape b = [92, b] := by
  unfold unescape
  repeat' split
  all_goals first
    | exact Or.inl rfl
    | exact Or.inr ⟨by assumption, rfl⟩

theorem literal_step (b b' : Byte) (rest : List Byte) : literal (b :: b' :: rest) =
    if b = 39 then
      if b' = 39 then (literal rest).map fun r => (39 :: r.1, r.2) else some ([], b' :: rest)
    else if b = 92 then (literal rest).map fun r => (unescape b' ++ r.1, r.2)
    else (literal (b' :: rest)).map fun r => (b :: r.1, r.2) := by rw [literal]

theorem plain_step (b b' : Byte) (rest : List Byte) : plain (b :: b' :: rest) =
    if b = 39 then false
    else if b = 92 then (b' = 37 ∨ b' = 95) && plain rest
    else plain (b' :: rest) := by rw [plain]

/-- A byte that is neither a quote nor a backslash stands for itself. -/
theorem plain_cons {b : Byte} (h : b ≠ 39 ∧ b ≠ 92) (w : List Byte) : plain (b :: w) = plain w := by
  cases w with
  | nil => exact decide_eq_true h
  | cons b' w => rw [plain_step, if_neg h.1, if_neg h.2]

/-- **A literal is no shorter than its value**, and as long as that only if it is the value. -/
theorem literal_spec : ∀ {w v rest : List Byte}, literal w = some (v, rest) →
    ∃ raw, w = raw ++ 39 :: rest ∧ (v.length < raw.length ∨ v = raw ∧ plain raw = true)
  | [], v, rest, h => by cases h
  | [b], v, rest, h => by
    rw [literal] at h
    split at h
    · rename_i hb
      cases h
      exact ⟨[], by rw [hb]; rfl, .inr ⟨rfl, rfl⟩⟩
    · cases h
  | b :: b' :: w, v, rest, h => by
    rw [literal_step] at h
    split at h
    · rename_i hb
      split at h
      · -- a doubled quote
        rename_i hb'
        obtain ⟨⟨v', rest'⟩, hr, he⟩ := Option.map_eq_some_iff.mp h
        cases he
        obtain ⟨raw, rfl, hraw⟩ := literal_spec hr
        refine ⟨39 :: 39 :: raw, by rw [hb, hb']; rfl, .inl ?_⟩
        simp only [List.length_cons]
        rcases hraw with hlt | ⟨rfl, -⟩ <;> omega
      · cases h
        exact ⟨[], by rw [hb]; rfl, .inr ⟨rfl, rfl⟩⟩
    · rename_i hb
      split at h
      · -- an escape
        rename_i hb'
        obtain ⟨⟨v', rest'⟩, hr, he⟩ := Option.map_eq_some_iff.mp h
        cases he
        obtain ⟨raw, rfl, hraw⟩ := literal_spec hr
        refine ⟨92 :: b' :: raw, by rw [hb']; rfl, ?_⟩
        simp only [List.length_append, List.length_cons]
        rcases unescape_length b' with hone | ⟨hb'', htwo⟩
        · left
          rcases hraw with hlt | ⟨rfl, -⟩ <;> omega
        · rw [htwo]
          rcases hraw with hlt | ⟨rfl, hplain⟩
          · left
            simp only [List.length_cons, List.length_nil]
            omega
          · right
            refine ⟨rfl, ?_⟩
            rw [plain_step, if_neg (by decide), if_pos rfl, hplain, Bool.and_true]
            exact decide_eq_true hb''
      · rename_i hb'
        obtain ⟨⟨v', rest'⟩, hr, he⟩ := Option.map_eq_some_iff.mp h
        cases he
        obtain ⟨raw, hw, hraw⟩ := literal_spec hr
        refine ⟨b :: raw, by rw [hw]; rfl, ?_⟩
        rcases hraw with hlt | ⟨rfl, hplain⟩
        · exact .inl (Nat.succ_lt_succ hlt)
        · exact .inr ⟨rfl, by rw [plain_cons ⟨hb, hb'⟩, hplain]⟩
  termination_by w => w.length

/-- What is read of a plain value in quotes. -/
theorem literal_plain {rest : List Byte} (hrest : rest.head? ≠ some 39) : ∀ {v : List Byte}, plain v = true →
    literal (v ++ 39 :: rest) = some (v, rest)
  | [], _ => by
    cases rest with
    | nil => rfl
    | cons b rest =>
      have hb : b ≠ 39 := fun he => hrest (by rw [he]; rfl)
      rw [List.nil_append, literal_step, if_pos rfl, if_neg hb]
  | [b], hv => by
    obtain ⟨hb, hb'⟩ := of_decide_eq_true hv
    have ih := literal_plain hrest (v := []) rfl
    rw [List.nil_append] at ih
    rw [List.singleton_append, literal_step, if_neg hb, if_neg hb', ih]
    rfl
  | b :: b' :: v, hv => by
    rw [plain_step] at hv
    split at hv
    · cases hv
    · rename_i hb
      rw [List.cons_append, List.cons_append, literal_step, if_neg hb]
      split at hv
      · -- the backslash stays
        rename_i hb'
        obtain ⟨hb'', hv⟩ := (Bool.and_eq_true _ _).mp hv
        rw [if_pos hb', literal_plain hrest hv, hb', Option.map_some]
        rcases of_decide_eq_true hb'' with rfl | rfl <;> rfl
      · rename_i hb'
        have ih := literal_plain hrest hv
        rw [List.cons_append] at ih
        rw [if_neg hb', ih]
        rfl
  termination_by v => v.length

/-! ## Blanks and comments -/

def isBlank (b : Byte) : Bool := b = 32 ∨ (9 ≤ b ∧ b ≤ 13)

def isControl (b : Byte) : Bool := b < 32 ∨ b = 127

/-- What is behind the end of a comment, if there is one. -/
def commentEnd : List Byte → Option (List Byte)
  | [] => none
  | [_] => none
  | b :: b' :: rest => if b = 42 ∧ b' = 47 then some rest else commentEnd (b' :: rest)

/-- What is behind a comment, if `w` begins with one. What is in `/*! .. */` is none. -/
def comment (w : List Byte) : Option (List Byte) :=
  if bytes "#" <+: w ∨ w = bytes "--" ∨
      bytes "--" <+: w ∧ (w.drop 2).head?.any (fun b => isBlank b || isControl b) = true then
    some (w.dropWhile (· ≠ 10))
  else if bytes "/*" <+: w ∧ ¬ bytes "/*!" <+: w then commentEnd (w.drop 2)
  else none

/-- What is behind the blanks and the comments, up to `n` of them. -/
def skip : (n : Nat) → List Byte → List Byte
  | 0, w => w
  | n + 1, w =>
    match comment w with
    | some rest => skip n rest
    | none => if w.head?.any isBlank then skip n w.tail else w

/-- What is behind them all. -/
def gap (w : List Byte) : List Byte := skip w.length w

theorem commentEnd_length : ∀ {w rest : List Byte}, commentEnd w = some rest → rest.length ≤ w.length
  | [], rest, h => by cases h
  | [_], rest, h => by cases h
  | b :: b' :: w, rest, h => by
    rw [commentEnd] at h
    split at h
    · cases h
      simp only [List.length_cons]
      omega
    · have ih := commentEnd_length h
      simp only [List.length_cons] at ih ⊢
      omega

theorem comment_length {w rest : List Byte} (h : comment w = some rest) : rest.length ≤ w.length := by
  unfold comment at h
  split at h
  · cases h
    exact (List.dropWhile_suffix _).length_le
  · split at h
    · have hend := commentEnd_length h
      rw [List.length_drop] at hend
      omega
    · cases h

theorem skip_length (n : Nat) : ∀ w : List Byte, (skip n w).length ≤ w.length := by
  induction n with
  | zero => exact fun w => Nat.le_refl _
  | succ n ih =>
    intro w
    rw [skip]
    split
    · rename_i rest hcomment
      exact Nat.le_trans (ih rest) (comment_length hcomment)
    · split
      · have hle := ih w.tail
        rw [List.length_tail] at hle
        omega
      · exact Nat.le_refl _

theorem gap_length (w : List Byte) : (gap w).length ≤ w.length := skip_length _ w

/-- The signs between values begin no comment, and are no blanks. -/
theorem gap_cons {b : Byte} (h : b = 39 ∨ b = 41 ∨ b = 44) (w : List Byte) : gap (b :: w) = b :: w := by
  have hcomment : comment (b :: w) = none := by
    rcases h with rfl | rfl | rfl <;> simp [comment, bytes]
  rw [gap, List.length_cons, skip, hcomment]
  rcases h with rfl | rfl | rfl <;> rfl

/-! ## Rows -/

/-- `w` behind `b`, which is next. -/
def expect (b : Byte) (w : List Byte) : Option (List Byte) :=
  if (gap w).head? = some b then some (gap w).tail else none

/-- Nothing more is said, but for a semicolon. -/
def ended (w : List Byte) : Bool := gap w = [] || (expect 59 w).any fun w => gap w = []

/-- The values of a row, `n` at most, behind its first parenthesis. -/
def row : (n : Nat) → List Byte → Option (List (List Byte))
  | 0, _ => none
  | n + 1, w => do
    let w ← expect 39 w
    let (v, w) ← literal w
    match expect 44 w with
    | some w => (row n w).map fun vs => v :: vs
    | none => do
      let w ← expect 41 w
      if ended w then some [v] else none

/-- A row that is written by putting the values in quotes. -/
def quoted : List (List Byte) → List Byte
  | [] => bytes ")"
  | [v] => bytes "'" ++ v ++ bytes "')"
  | v :: vs => bytes "'" ++ v ++ bytes "'," ++ quoted vs

/-- The length of that. -/
def size : List (List Byte) → Nat
  | [] => 0
  | v :: vs => v.length + 3 + size vs

theorem expect_length {b : Byte} {w rest : List Byte} (h : expect b w = some rest) :
    rest.length + 1 ≤ w.length := by
  unfold expect at h
  split at h
  · rename_i hhead
    cases h
    have hle := gap_length w
    have hne : gap w ≠ [] := by
      intro hnil
      rw [hnil] at hhead
      cases hhead
    have hpos := List.length_pos_iff.mpr hne
    rw [List.length_tail]
    omega
  · cases h

theorem expect_cons {b : Byte} (h : b = 39 ∨ b = 41 ∨ b = 44) (w : List Byte) : expect b (b :: w) = some w := by
  rw [expect, gap_cons h]
  exact if_pos rfl

theorem expect_ne {b b' : Byte} (h : b = 39 ∨ b = 41 ∨ b = 44) (hne : b ≠ b') (w : List Byte) :
    expect b' (b :: w) = none := by
  rw [expect, gap_cons h]
  exact if_neg fun he => hne (Option.some.inj he)

/-- **A row is no shorter than its values in quotes**, and as long as that only if they are plain. -/
theorem row_spec (n : Nat) : ∀ {w : List Byte} {vs : List (List Byte)}, row n w = some vs →
    size vs < w.length ∨ size vs = w.length ∧ ∀ v ∈ vs, plain v = true := by
  induction n with
  | zero =>
    intro w vs h
    cases h
  | succ n ih =>
    intro w vs h
    rw [row] at h
    obtain ⟨w₁, hw₁, h⟩ := Option.bind_eq_some_iff.mp h
    obtain ⟨⟨v, w₂⟩, hv, h⟩ := Option.bind_eq_some_iff.mp h
    obtain ⟨raw, hraw₁, hraw⟩ := literal_spec hv
    have hquote := expect_length hw₁
    rw [hraw₁, List.length_append, List.length_cons] at hquote
    simp only at h
    split at h
    · -- there is another value
      rename_i w₃ hw₃
      obtain ⟨vs', hvs', rfl⟩ := Option.map_eq_some_iff.mp h
      have hcomma := expect_length hw₃
      rw [size]
      rcases hraw with hlt | ⟨rfl, hplain⟩
      · rcases ih hvs' with hrest | ⟨hrest, -⟩
        · left; omega
        · left; omega
      · rcases ih hvs' with hrest | ⟨hrest, hall⟩
        · left; omega
        · by_cases hfull : v.length + 3 + size vs' = w.length
          · exact .inr ⟨hfull, List.forall_mem_cons.mpr ⟨hplain, hall⟩⟩
          · left; omega
    · obtain ⟨w₃, hw₃, h⟩ := Option.bind_eq_some_iff.mp h
      have hclose := expect_length hw₃
      split at h
      · cases h
        rw [size, size, Nat.add_zero]
        rcases hraw with hlt | ⟨rfl, hplain⟩
        · left; omega
        · by_cases hfull : v.length + 3 = w.length
          · exact .inr ⟨hfull, List.forall_mem_singleton.mpr hplain⟩
          · left; omega
      · cases h

theorem length_quoted (v : List Byte) (vs : List (List Byte)) : (quoted (v :: vs)).length = size (v :: vs) := by
  induction vs generalizing v with
  | nil => simp [quoted, size, bytes]
  | cons v' vs ih =>
    rw [quoted, List.length_append, ih v']
    · simp [size, bytes]
    · intro h
      cases h

/-- A row of plain values is read as it was written. -/
theorem row_plain (v : List Byte) (vs : List (List Byte)) : ∀ {n : Nat}, vs.length < n →
    (∀ x ∈ v :: vs, plain x = true) → row n (quoted (v :: vs)) = some (v :: vs) := by
  induction vs generalizing v with
  | nil =>
    intro n hn hplain
    obtain ⟨n, rfl⟩ : ∃ m, n = m + 1 := ⟨n - 1, by omega⟩
    have hv := hplain v (List.mem_singleton_self v)
    rw [show quoted [v] = 39 :: (v ++ 39 :: [41]) by simp [quoted, bytes], row, expect_cons (.inl rfl)]
    simp only [Option.bind_eq_bind, Option.bind_some, literal_plain (show [41].head? ≠ some (39 : Byte) by decide) hv,
      expect_ne (.inr (.inl rfl)) (show (41 : Byte) ≠ 44 by decide), expect_cons (.inr (.inl rfl))]
    rfl
  | cons v' vs ih =>
    intro n hn hplain
    obtain ⟨n, rfl⟩ : ∃ m, n = m + 1 := ⟨n - 1, by omega⟩
    obtain ⟨hv, hrest⟩ := List.forall_mem_cons.mp hplain
    have htext : quoted (v :: v' :: vs) = 39 :: (v ++ 39 :: 44 :: quoted (v' :: vs)) := by
      simp [quoted, bytes]
    rw [htext, row, expect_cons (.inl rfl)]
    simp only [Option.bind_eq_bind, Option.bind_some,
      literal_plain (show (44 :: quoted (v' :: vs)).head? ≠ some 39 by simp) hv, expect_cons (.inr (.inr rfl)),
      ih v' (Nat.lt_of_succ_lt_succ hn) hrest]
    rfl

/-- **Values in quotes** are read as what they are if and only if they are plain. -/
theorem row_quoted_iff (v : List Byte) (vs : List (List Byte)) {n : Nat} (hn : vs.length < n) :
    row n (quoted (v :: vs)) = some (v :: vs) ↔ ∀ x ∈ v :: vs, plain x = true := by
  constructor
  · intro h
    rcases row_spec n h with hlt | ⟨-, hall⟩
    · rw [length_quoted] at hlt
      exact absurd hlt (Nat.lt_irrefl _)
    · exact hall
  · exact row_plain v vs hn

end SqlText
end LinuxServer
