import Mathlib.Algebra.Group.Nat.Defs
import Mathlib.Algebra.Ring.Int.Defs
import Mathlib.Logic.Function.Basic
import Mathlib.Data.List.GetD
import Mathlib.Data.List.TakeWhile

/-!
# `Lib/CString.lean` — bytes in memory, and the functions of `<string.h>` on them

A buffer is a function from addresses to bytes. A C string at `p` is what is read from there up to
the first NUL, and `cstr m n p` reads at most `n` bytes, so that it is total.

The functions of `<string.h>` and `<strings.h>` are functions of words here. Where the C function
answers a pointer into its argument, the one here answers the offset; `cstr_drop` says that the
string at an offset is the rest of the word, and `cstr_put` that a NUL written at an offset cuts it.
With these two, a program that walks a line with pointers and cuts it in place can be read as one
that splits a word.

What a string depends on is the subject of `cstr_congr`: memory up to its NUL, and nothing behind.
-/

set_option autoImplicit false

namespace LinuxServer

abbrev Byte := UInt8

/-- The bytes of a text. -/
def bytes (s : String) : List Byte := s.toList.map fun ch => UInt8.ofNat ch.toNat

/-- A word that is read up to a byte is read whole if and only if the byte is not in it. -/
theorem takeWhile_ne_iff {a : Byte} {w : List Byte} : w.takeWhile (· ≠ a) = w ↔ a ∉ w := by
  rw [List.takeWhile_eq_self_iff]
  constructor
  · intro hall hmem
    exact of_decide_eq_true (hall a hmem) rfl
  · intro hmem b hb
    refine decide_eq_true ?_
    rintro rfl
    exact hmem hb

/-! ## Memory -/

abbrev Mem := Nat → Byte

namespace Mem

def put (m : Mem) (p : Nat) (b : Byte) : Mem := Function.update m p b

/-- The word `w` written at `p`. -/
def blit (m : Mem) (p : Nat) (w : List Byte) : Mem :=
  fun i => if i < p then m i else w.getD (i - p) (m i)

/-- The `n` bytes at `p`. -/
def slice (m : Mem) : Nat → Nat → List Byte
  | _, 0 => []
  | p, n + 1 => m p :: slice m (p + 1) n

@[simp] theorem put_self (m : Mem) (p : Nat) (b : Byte) : m.put p b p = b := by simp [put]

theorem put_eq_blit (m : Mem) (p : Nat) (b : Byte) : m.put p b = m.blit p [b] := by
  funext i
  by_cases h₁ : i < p
  · simp [put, blit, h₁, Nat.ne_of_lt h₁]
  · by_cases h₂ : i = p
    · subst h₂
      simp [put, blit]
    · obtain ⟨k, rfl⟩ : ∃ k, i = p + (k + 1) := ⟨i - p - 1, by omega⟩
      simp [put, blit]

theorem put_ne (m : Mem) {p i : Nat} (b : Byte) (h : i ≠ p) : m.put p b i = m i := by
  simp [put, Function.update_of_ne h]

theorem blit_lt (m : Mem) {p i : Nat} (w : List Byte) (h : i < p) : m.blit p w i = m i := by
  simp [blit, h]

theorem blit_ge (m : Mem) {p i : Nat} (w : List Byte) (h : p + w.length ≤ i) :
    m.blit p w i = m i := by
  have hlt : ¬ i < p := by omega
  simp only [blit, if_neg hlt]
  rw [List.getD_eq_default _ _ (by omega)]

theorem blit_at (m : Mem) (p : Nat) {w : List Byte} {i : Nat} (h : i < w.length) :
    m.blit p w (p + i) = w[i] := by
  have hge : ¬ p + i < p := by omega
  simp [blit, hge, h]

/-- A byte that is not in the word was there before. -/
theorem of_blit_eq {m : Mem} {p i : Nat} {w : List Byte} {b : Byte} (h : m.blit p w i = b)
    (hb : b ∉ w) : m i = b := by
  by_cases hin : p ≤ i ∧ i < p + w.length
  · obtain ⟨k, rfl⟩ : ∃ k, i = p + k := ⟨i - p, by omega⟩
    rw [blit_at _ _ (by omega)] at h
    exact absurd (h ▸ List.getElem_mem _) hb
  · by_cases hlt : i < p
    · rwa [blit_lt _ _ hlt] at h
    · rwa [blit_ge _ _ (by omega)] at h

/-- Two words written one behind the other. -/
theorem blit_append (m : Mem) (p : Nat) (w x : List Byte) :
    (m.blit p w).blit (p + w.length) x = m.blit p (w ++ x) := by
  funext i
  by_cases h₁ : i < p
  · rw [blit_lt _ _ (by omega), blit_lt _ _ h₁, blit_lt _ _ h₁]
  · by_cases h₂ : i < p + w.length
    · obtain ⟨k, rfl⟩ : ∃ k, i = p + k := ⟨i - p, by omega⟩
      rw [blit_lt _ _ h₂, blit_at _ _ (by omega), blit_at _ _ (by simp; omega),
        List.getElem_append_left]
    · simp only [blit, h₁, h₂, if_false]
      rw [List.getD_append_right _ _ _ _ (by omega), Nat.sub_sub,
        List.getD_eq_default w _ (by omega)]

/-- A word written over another, no longer one. -/
theorem blit_over (m : Mem) (p : Nat) {v w : List Byte} (h : v.length ≤ w.length) :
    (m.blit p v).blit p w = m.blit p w := by
  funext i
  by_cases h₁ : i < p
  · rw [blit_lt _ _ h₁, blit_lt _ _ h₁, blit_lt _ _ h₁]
  · by_cases h₂ : i < p + w.length
    · obtain ⟨k, rfl⟩ : ∃ k, i = p + k := ⟨i - p, by omega⟩
      rw [blit_at _ _ (by omega), blit_at _ _ (by omega)]
    · rw [blit_ge _ _ (by omega), blit_ge _ _ (by omega), blit_ge _ _ (by omega)]

/-- A write below a word commutes with it. -/
theorem put_blit (m : Mem) {p q : Nat} (b : Byte) (w : List Byte) (h : p < q) :
    (m.blit q w).put p b = (m.put p b).blit q w := by
  funext i
  by_cases hi : i = p
  · subst hi; rw [put_self, blit_lt _ _ h, put_self]
  · rw [put_ne _ _ hi]
    by_cases hlt : i < q
    · rw [blit_lt _ _ hlt, blit_lt _ _ hlt, put_ne _ _ hi]
    · simp only [blit, if_neg hlt, put_ne _ _ hi]

theorem blit_blit (m : Mem) {p q : Nat} (v w : List Byte) (h : p + v.length ≤ q) :
    (m.blit q w).blit p v = (m.blit p v).blit q w := by
  funext i
  by_cases hlt : i < p
  · rw [blit_lt _ _ hlt, blit_lt _ _ (by omega), blit_lt _ _ (by omega), blit_lt _ _ hlt]
  · by_cases hmid : i < p + v.length
    · obtain ⟨k, rfl⟩ : ∃ k, i = p + k := ⟨i - p, by omega⟩
      rw [blit_at _ _ (by omega), blit_lt _ _ (by omega), blit_at _ _ (by omega)]
    · rw [blit_ge _ _ (by omega)]
      by_cases hq : i < q
      · rw [blit_lt _ _ hq, blit_lt _ _ hq, blit_ge _ _ (by omega)]
      · simp only [blit, hlt, hq, if_false]
        rw [List.getD_eq_default v _ (by omega)]

@[simp] theorem length_slice (m : Mem) (p n : Nat) : (m.slice p n).length = n := by
  induction n generalizing p with
  | zero => rfl
  | succ n ih => simp [slice, ih]

theorem slice_append (m : Mem) (p a b : Nat) :
    m.slice p (a + b) = m.slice p a ++ m.slice (p + a) b := by
  induction a generalizing p with
  | zero => simp [slice]
  | succ a ih =>
    rw [Nat.succ_add_eq_add_succ, Nat.add_succ, slice, slice, ih, List.cons_append,
      Nat.succ_add_eq_add_succ, Nat.add_succ]

theorem take_slice (m : Mem) {p n k : Nat} (h : k ≤ n) : (m.slice p n).take k = m.slice p k := by
  have hsplit := slice_append m p k (n - k)
  rw [show k + (n - k) = n by omega] at hsplit
  rw [hsplit, List.take_left' (length_slice ..)]

theorem drop_slice (m : Mem) (p n k : Nat) : (m.slice p n).drop k = m.slice (p + k) (n - k) := by
  by_cases h : k ≤ n
  · have hsplit := slice_append m p k (n - k)
    rw [show k + (n - k) = n by omega] at hsplit
    rw [hsplit, List.drop_left' (length_slice ..)]
  · rw [List.drop_eq_nil_of_le (by rw [length_slice]; omega), show n - k = 0 by omega]
    rfl

theorem slice_congr {m m' : Mem} {p n : Nat} (h : ∀ i, p ≤ i → i < p + n → m i = m' i) :
    m.slice p n = m'.slice p n := by
  induction n generalizing p with
  | zero => rfl
  | succ n ih =>
    rw [slice, slice, h p (Nat.le_refl _) (by omega), ih fun i h₁ h₂ => h i (by omega) (by omega)]

theorem slice_getElem (m : Mem) {p n i : Nat} (h : i < (m.slice p n).length) :
    (m.slice p n)[i] = m (p + i) := by
  induction n generalizing p i with
  | zero => simp at h
  | succ n ih =>
    cases i with
    | zero => rfl
    | succ i =>
      simp only [slice, List.getElem_cons_succ]
      rw [ih (by simpa using h)]
      congr 1
      omega

theorem slice_blit (m : Mem) (p : Nat) (w : List Byte) : (m.blit p w).slice p w.length = w :=
  List.ext_getElem (by simp) fun i _ h => by rw [slice_getElem, blit_at _ _ h]

/-! ## C strings -/

/-- The C string at `p`, of at most `n` bytes. -/
def cstr (m : Mem) : (n : Nat) → (p : Nat) → List Byte
  | 0, _ => []
  | n + 1, p => if m p = 0 then [] else m p :: cstr m n (p + 1)

/-- The C string at `p` ends below `e`. -/
def Terminated (m : Mem) (p e : Nat) : Prop := ∃ q, p ≤ q ∧ q < e ∧ m q = 0

section
variable {m m' : Mem} {p e n k : Nat}

theorem Terminated.congr (h : m.Terminated p e) (hm : ∀ i, p ≤ i → i < e → m i = m' i) :
    m'.Terminated p e :=
  let ⟨q, hq, hqe, h0⟩ := h
  ⟨q, hq, hqe, by rw [← hm q hq hqe, h0]⟩

theorem Terminated.mono (h : m.Terminated p e) {e' : Nat} (he : e ≤ e') : m.Terminated p e' :=
  let ⟨q, hq, hqe, h0⟩ := h
  ⟨q, hq, Nat.lt_of_lt_of_le hqe he, h0⟩

/-- A string depends on the memory up to its end only. -/
theorem cstr_congr (h : m.Terminated p e) (hm : ∀ i, p ≤ i → i < e → m i = m' i) (n : Nat) :
    m.cstr n p = m'.cstr n p := by
  induction n generalizing p with
  | zero => rfl
  | succ n ih =>
    obtain ⟨q, hq, hqe, h0⟩ := h
    rw [cstr, cstr, hm p (Nat.le_refl _) (by omega)]
    by_cases hp : m' p = 0
    · rw [if_pos hp, if_pos hp]
    · have hne : p ≠ q := by
        rintro rfl
        exact hp (by rw [← hm p (Nat.le_refl _) hqe, h0])
      rw [if_neg hp, if_neg hp, ih ⟨q, by omega, hqe, h0⟩ fun i h₁ h₂ => hm i (by omega) h₂]

/-- A string ends below `e`. -/
theorem Terminated.length_lt (h : m.Terminated p e) (n : Nat) : p + (m.cstr n p).length < e := by
  induction n generalizing p with
  | zero => obtain ⟨q, hq, hqe, -⟩ := h; simp only [cstr, List.length_nil]; omega
  | succ n ih =>
    obtain ⟨q, hq, hqe, h0⟩ := h
    rw [cstr]
    by_cases hp : m p = 0
    · rw [if_pos hp]; simp only [List.length_nil]; omega
    · have hne : p ≠ q := fun e => hp (e ▸ h0)
      have := ih (p := p + 1) ⟨q, by omega, hqe, h0⟩
      rw [if_neg hp, List.length_cons]
      omega

theorem cstr_ne_zero : ∀ b ∈ m.cstr n p, b ≠ 0 := by
  induction n generalizing p with
  | zero => intro b hb; cases hb
  | succ n ih =>
    rw [cstr]
    split
    · intro b hb; cases hb
    · rename_i hp
      intro b hb
      rcases List.mem_cons.mp hb with rfl | hb
      · exact hp
      · exact ih b hb

theorem zero_notMem_cstr : 0 ∉ m.cstr n p := fun hmem => cstr_ne_zero 0 hmem rfl

theorem cstr_getElem {i : Nat} (h : i < (m.cstr n p).length) : (m.cstr n p)[i] = m (p + i) := by
  induction n generalizing p i with
  | zero => cases h
  | succ n ih =>
    by_cases hp : m p = 0
    · simp [cstr, hp] at h
    · simp only [cstr, if_neg hp] at h ⊢
      cases i with
      | zero => rfl
      | succ i =>
        rw [List.getElem_cons_succ, ih]
        congr 1
        omega

/-- A string that is shorter than what may be read ends in a NUL. -/
theorem cstr_nul (h : (m.cstr n p).length < n) : m (p + (m.cstr n p).length) = 0 := by
  induction n generalizing p with
  | zero => cases h
  | succ n ih =>
    rw [cstr] at h ⊢
    by_cases hp : m p = 0
    · rw [if_pos hp]
      exact hp
    · rw [if_neg hp] at h ⊢
      rw [List.length_cons, Nat.add_comm _ 1, ← Nat.add_assoc]
      exact ih (Nat.lt_of_succ_lt_succ h)

/-- The string, out of all that may be read. -/
theorem cstr_eq_takeWhile : m.cstr n p = (m.slice p n).takeWhile (· ≠ 0) := by
  induction n generalizing p with
  | zero => rfl
  | succ n ih =>
    rw [cstr, slice, List.takeWhile_cons]
    by_cases hp : m p = 0
    · simp [hp]
    · simp [hp, ih]

/-- The string at an offset is the rest of the word. -/
theorem cstr_drop (h : k ≤ (m.cstr n p).length) :
    m.cstr (n - k) (p + k) = (m.cstr n p).drop k := by
  induction k generalizing n p with
  | zero => rfl
  | succ k ih =>
    cases n with
    | zero => cases h
    | succ n =>
      by_cases hp : m p = 0
      · simp [cstr, hp] at h
      · simp only [cstr, if_neg hp, List.length_cons, List.drop_succ_cons] at h ⊢
        rw [← ih (by omega)]
        congr 1
        · omega
        · omega

theorem Terminated.offset (h : m.Terminated p e) (hk : k ≤ (m.cstr n p).length) :
    m.Terminated (p + k) e := by
  obtain ⟨q, hq, hqe, h0⟩ := h
  refine ⟨q, ?_, hqe, h0⟩
  by_contra hlt
  have hi : q - p < (m.cstr n p).length := by omega
  have hget := cstr_getElem hi
  rw [show p + (q - p) = q by omega, h0] at hget
  exact cstr_ne_zero _ (List.getElem_mem hi) hget

/-- A NUL cuts the word. -/
theorem cstr_put (h : k ≤ (m.cstr n p).length) :
    (m.put (p + k) 0).cstr n p = (m.cstr n p).take k := by
  induction k generalizing n p with
  | zero => cases n <;> simp [cstr]
  | succ k ih =>
    cases n with
    | zero => cases h
    | succ n =>
      by_cases hp : m p = 0
      · simp [cstr, hp] at h
      · have hput : m.put (p + (k + 1)) 0 p = m p := put_ne _ _ (by omega)
        simp only [cstr, if_neg hp, List.length_cons, hput, List.take_succ_cons] at h ⊢
        rw [← ih (by omega), show p + (k + 1) = p + 1 + k by omega]

/-- The string at `p`, where memory holds a word and then a NUL. -/
theorem cstr_of_slice {w : List Byte} (hw : m.slice p w.length = w) (h0 : m (p + w.length) = 0)
    (hn : w.length < n) : m.cstr n p = w.takeWhile (· ≠ 0) := by
  induction w generalizing p n with
  | nil =>
    obtain ⟨n, rfl⟩ : ∃ n', n = n' + 1 := ⟨n - 1, by simp at hn; omega⟩
    simp only [List.length_nil, Nat.add_zero] at h0
    simp [cstr, h0]
  | cons b w ih =>
    obtain ⟨n, rfl⟩ : ∃ n', n = n' + 1 := ⟨n - 1, by simp at hn; omega⟩
    simp only [List.length_cons, slice, List.cons.injEq] at hw
    rw [cstr, List.takeWhile_cons, hw.1]
    by_cases hb : b = 0
    · simp [hb]
    · rw [if_neg hb, if_pos (by simpa using hb), ih hw.2 (by rw [← h0, List.length_cons]; congr 1; omega)
        (by simpa using hn)]

/-- A word is read back, where it was written with a NUL behind it. -/
theorem cstr_blit {w : List Byte} (hw : 0 ∉ w) (hn : w.length < n) : (m.blit p (w ++ [0])).cstr n p = w := by
  have hslice : (m.blit p (w ++ [0])).slice p w.length = w := by
    rw [← blit_append, slice_congr fun i _ hi => blit_lt (m.blit p w) [0] hi, slice_blit]
  have hnul : m.blit p (w ++ [0]) (p + w.length) = 0 := by
    rw [blit_at m p (by rw [List.length_append]; exact Nat.lt_succ_self _), List.getElem_concat_length rfl]
  rw [cstr_of_slice hslice hnul hn, takeWhile_ne_iff.mpr hw]

end

end Mem

/-! ## `<string.h>` and `<strings.h>`, on words -/

/-- `strpbrk(w, accept)`, as an offset. -/
def strpbrk (w accept : List Byte) : Option Nat := w.findIdx? (· ∈ accept)

/-- `strspn(w, accept)`. -/
def strspn (w accept : List Byte) : Nat := (w.takeWhile (· ∈ accept)).length

/-- `strchr(w, b)`, as an offset. -/
def strchr (w : List Byte) (b : Byte) : Option Nat := w.findIdx? (· = b)

/-- `strrchr(w, b)`, as an offset. -/
def strrchr (w : List Byte) (b : Byte) : Option Nat :=
  (w.reverse.findIdx? (· = b)).map fun i => w.length - 1 - i

/-- `tolower`, in the C locale. -/
def tolower (b : Byte) : Byte := if 65 ≤ b ∧ b ≤ 90 then b + 32 else b

/-- `strcasecmp(v, w) == 0`. -/
def strcasecmp (v w : List Byte) : Bool := v.map tolower = w.map tolower

/-- `strncasecmp(v, w, strlen(w)) == 0`. -/
def strncasecmp (v w : List Byte) : Bool := strcasecmp (v.take w.length) w

theorem strpbrk_lt {w accept : List Byte} {i : Nat} (h : strpbrk w accept = some i) :
    i < w.length :=
  let ⟨hlt, _⟩ := List.findIdx?_eq_some_iff_getElem.mp h
  hlt

theorem strchr_lt {w : List Byte} {b : Byte} {i : Nat} (h : strchr w b = some i) : i < w.length :=
  let ⟨hlt, _⟩ := List.findIdx?_eq_some_iff_getElem.mp h
  hlt

theorem strspn_le (w accept : List Byte) : strspn w accept ≤ w.length :=
  (List.takeWhile_prefix _).length_le

/-- A word, up to its first byte of `accept`. -/
theorem strpbrk_append {v accept rest : List Byte} {b : Byte} (hv : ∀ a ∈ v, a ∉ accept)
    (hb : b ∈ accept) : strpbrk (v ++ b :: rest) accept = some v.length := by
  refine List.findIdx?_eq_some_iff_getElem.mpr ⟨by simp, ?_, ?_⟩
  · simpa using hb
  · intro j hj
    rw [List.getElem_append_left hj]
    exact fun hmem => hv _ (List.getElem_mem hj) (of_decide_eq_true hmem)

theorem strpbrk_split {w accept : List Byte} {i : Nat} (h : strpbrk w accept = some i) :
    ∃ b, w = w.take i ++ b :: w.drop (i + 1) ∧ b ∈ accept ∧ ∀ a ∈ w.take i, a ∉ accept := by
  obtain ⟨hlt, hmem, hbefore⟩ := List.findIdx?_eq_some_iff_getElem.mp h
  refine ⟨w[i], ?_, of_decide_eq_true hmem, ?_⟩
  · rw [List.getElem_cons_drop, List.take_append_drop]
  · intro a ha
    obtain ⟨j, hj, rfl⟩ := List.mem_take_iff_getElem.mp ha
    exact fun hin => hbefore j (by omega) (decide_eq_true hin)

/-- A word that begins with bytes of `accept`, and goes on with another or is over. -/
theorem strspn_append {v accept rest : List Byte} (hv : ∀ a ∈ v, a ∈ accept)
    (hrest : ∀ a ∈ rest.head?, a ∉ accept) : strspn (v ++ rest) accept = v.length := by
  have hpos : ∀ a ∈ v, decide (a ∈ accept) = true := fun a ha => decide_eq_true (hv a ha)
  rw [strspn, List.takeWhile_append_of_pos hpos, List.length_append]
  cases rest with
  | nil => rfl
  | cons a rest =>
    rw [List.takeWhile_cons_of_neg (by simpa using hrest a rfl)]
    rfl

/-- The word without its first bytes of `accept`. -/
theorem drop_strspn (w accept : List Byte) : w.drop (strspn w accept) = w.dropWhile (· ∈ accept) := by
  calc w.drop (strspn w accept)
      = (w.takeWhile (· ∈ accept) ++ w.dropWhile (· ∈ accept)).drop (strspn w accept) := by
        rw [List.takeWhile_append_dropWhile]
    _ = w.dropWhile (· ∈ accept) := List.drop_left

theorem strchr_eq_none {w : List Byte} {b : Byte} : strchr w b = none ↔ b ∉ w := by
  rw [strchr, List.findIdx?_eq_none_iff]
  constructor
  · intro hall hb
    exact of_decide_eq_false (hall b hb) rfl
  · intro hb a ha
    refine decide_eq_false ?_
    rintro rfl
    exact hb ha

theorem strrchr_eq_none {w : List Byte} {b : Byte} : strrchr w b = none ↔ b ∉ w := by
  rw [strrchr, Option.map_eq_none_iff, ← List.mem_reverse]
  exact strchr_eq_none

/-- The word from its first `b` on. -/
theorem drop_strchr {w : List Byte} {b : Byte} {i : Nat} (h : strchr w b = some i) :
    w.drop i = w.dropWhile (· ≠ b) := by
  obtain ⟨-, hfirst⟩ := List.findIdx?_eq_some_iff_findIdx_eq.mp h
  rw [List.dropWhile_eq_drop_findIdx_not, ← hfirst]
  congr 2
  funext a
  simp

/-- Two words that differ in case only have the same bytes but for letters. -/
theorem mem_of_strcasecmp {v w : List Byte} (h : strcasecmp v w = true) {b : Byte} (hb : b ∈ v) :
    tolower b ∈ w.map tolower := by
  rw [← of_decide_eq_true h]
  exact List.mem_map_of_mem hb

theorem length_of_strcasecmp {v w : List Byte} (h : strcasecmp v w = true) : v.length = w.length := by
  have hlength := congrArg List.length (of_decide_eq_true h)
  rwa [List.length_map, List.length_map] at hlength

theorem strncasecmp_length {v w : List Byte} (h : strncasecmp v w = true) :
    w.length ≤ v.length := by
  have hlen := congrArg List.length (of_decide_eq_true h)
  simp only [List.length_map, List.length_take] at hlen
  omega

/-! ## Numbers -/

def isspace (b : Byte) : Bool := b = 32 ∨ (9 ≤ b ∧ b ≤ 13)

def isdigit (b : Byte) : Bool := 48 ≤ b ∧ b ≤ 57

def longMax : Int := 2 ^ 63 - 1

def longMin : Int := -2 ^ 63

/-- The value of a word of decimal digits. -/
def digits (w : List Byte) : Nat := w.foldl (fun v b => 10 * v + (b.toNat - 48)) 0

/-- `atol(w)`. Out of range it answers the nearest `long`, as `strtol` does. -/
def atol (w : List Byte) : Int :=
  let w := w.dropWhile isspace
  let value (w : List Byte) : Int := digits (w.takeWhile isdigit)
  match w with
  | 45 :: w => max (-value w) longMin
  | 43 :: w => min (value w) longMax
  | w => min (value w) longMax

/-- What `%d` prints. -/
def decimal (n : Int) : List Byte :=
  (if n < 0 then bytes "-" else []) ++
    (Nat.toDigits 10 n.natAbs).map fun ch => UInt8.ofNat ch.toNat

theorem length_decimal {n : Int} (h : n.natAbs < 10 ^ 10) : (decimal n).length ≤ 11 := by
  have hdigits := (Nat.length_toDigits_le_iff (n := n.natAbs) (k := 10) (by decide) (by decide)).mpr h
  have hsign : (if n < 0 then bytes "-" else []).length ≤ 1 := by split <;> decide
  rw [decimal, List.length_append, List.length_map]
  omega

theorem zero_notMem_decimal (n : Int) : 0 ∉ decimal n := by
  have hdigit : ∀ ch : Char, ch.isDigit = true → UInt8.ofNat ch.toNat ≠ 0 := by
    intro ch hch hzero
    rw [Char.isDigit_iff_toNat] at hch
    have hnat := congrArg UInt8.toNat hzero
    rw [UInt8.toNat_ofNat'] at hnat
    change ch.toNat % 256 = 0 at hnat
    have h48 : '0'.toNat = 48 := rfl
    have h57 : '9'.toNat = 57 := rfl
    omega
  rw [decimal, List.mem_append, not_or]
  refine ⟨by split <;> decide, fun hmem => ?_⟩
  obtain ⟨ch, hch, hzero⟩ := List.mem_map.mp hmem
  exact hdigit ch (Nat.isDigit_of_mem_toDigits (by decide) (by decide) hch) hzero

/-- A number that is not negative has no sign. -/
theorem length_decimal_le_iff {n : Int} (h : 0 ≤ n) {k : Nat} (hk : 0 < k) :
    (decimal n).length ≤ k ↔ n < 10 ^ k := by
  rw [decimal, if_neg (by omega), List.nil_append, List.length_map,
    Nat.length_toDigits_le_iff (b := 10) (by decide) hk]
  have habs : ((n.natAbs : Nat) : Int) = n := Int.natAbs_of_nonneg h
  have hpow : ((10 ^ k : Nat) : Int) = 10 ^ k := by push_cast; rfl
  rw [← hpow]
  omega

end LinuxServer
