import LinuxServer.Lib.CString
import LinuxServer.Lib.StdString

/-!
# `Lib/Decimal.lean` — a number that is printed is read back

What `%d` and `std::to_string` print is a word of digits, with a sign before it if the number is negative. The two
functions that read one, `atol` and `std::from_chars`, are its inverses as far as their types go.
-/

set_option autoImplicit false

namespace LinuxServer

theorem decimal_natCast (n : Nat) : decimal n = (Nat.toDigits 10 n).map fun ch => UInt8.ofNat ch.toNat := by
  unfold decimal
  rw [if_neg (by omega), List.nil_append, Int.natAbs_natCast]

theorem decimal_neg {n : Nat} (h : 0 < n) : decimal (-n : Int) = 45 :: decimal n := by
  rw [decimal_natCast, decimal, if_pos (by omega), Int.natAbs_neg, Int.natAbs_natCast]
  rfl

theorem decimal_ne_nil (n : Nat) : decimal n ≠ [] := by
  rw [decimal_natCast]
  exact fun h => Nat.toDigits_ne_nil (List.map_eq_nil_iff.mp h)

/-! ## A word grows by its last digit -/

theorem decimal_digit {d : Nat} (h : d < 10) : decimal d = [UInt8.ofNat (48 + d)] := by
  have hchar : ∀ d < 10, UInt8.ofNat (Nat.digitChar d).toNat = UInt8.ofNat (48 + d) := by decide
  rw [decimal_natCast, Nat.toDigits_of_lt_base h, List.map_singleton, hchar d h]

theorem decimal_snoc {n d : Nat} (hn : 0 < n) (hd : d < 10) :
    decimal ((10 * n + d : Nat) : Int) = decimal n ++ [UInt8.ofNat (48 + d)] := by
  rw [← decimal_digit hd, decimal_natCast, decimal_natCast, decimal_natCast,
    ← Nat.toDigits_append_toDigits (by decide) hn hd, List.map_append]

theorem length_decimal_le {n k : Nat} (hk : 0 < k) (h : n < 10 ^ k) : (decimal n).length ≤ k := by
  rw [decimal_natCast, List.length_map]
  exact (Nat.length_toDigits_le_iff (by decide) hk).mpr h

/-! ## Its digits -/

/-- A digit is a byte that is one. -/
theorem toNat_ofNat_digit {ch : Char} (h : ch.isDigit = true) : (UInt8.ofNat ch.toNat).toNat = ch.toNat := by
  obtain ⟨-, hle⟩ := Char.isDigit_iff_toNat.mp h
  rw [UInt8.toNat_ofNat']
  have h57 : '9'.toNat = 57 := rfl
  exact Nat.mod_eq_of_lt (by omega)

theorem isdigit_ofNat_digit {ch : Char} (h : ch.isDigit = true) : isdigit (UInt8.ofNat ch.toNat) = true := by
  obtain ⟨hge, hle⟩ := Char.isDigit_iff_toNat.mp h
  have hnat := toNat_ofNat_digit h
  have h48 : '0'.toNat = 48 := rfl
  have h57 : '9'.toNat = 57 := rfl
  refine decide_eq_true ⟨?_, ?_⟩
  · exact UInt8.le_iff_toNat_le.mpr (by rw [hnat]; exact hge)
  · exact UInt8.le_iff_toNat_le.mpr (by rw [hnat]; exact hle)

theorem isdigit_of_mem_decimal {n : Nat} {b : Byte} (h : b ∈ decimal n) : isdigit b = true := by
  rw [decimal_natCast] at h
  obtain ⟨ch, hch, rfl⟩ := List.mem_map.mp h
  exact isdigit_ofNat_digit (Nat.isDigit_of_mem_toDigits (by decide) (by decide) hch)

theorem takeWhile_decimal (n : Nat) : (decimal n).takeWhile isdigit = decimal n :=
  List.takeWhile_eq_self_iff.mpr fun _ hb => isdigit_of_mem_decimal hb

/-- The value of digits, and that of the bytes they are. -/
theorem digits_map (l : List Char) (hl : ∀ ch ∈ l, ch.isDigit = true) :
    digits (l.map fun ch => UInt8.ofNat ch.toNat) = Nat.ofDigitChars 10 l 0 := by
  unfold digits
  rw [List.foldl_map, Nat.ofDigitChars_eq_foldl]
  generalize 0 = v
  induction l generalizing v with
  | nil => rfl
  | cons ch l ih =>
    obtain ⟨hch, hl⟩ := List.forall_mem_cons.mp hl
    rw [List.foldl_cons, List.foldl_cons, toNat_ofNat_digit hch]
    exact ih hl _

@[simp] theorem digits_decimal (n : Nat) : digits (decimal n) = n := by
  rw [decimal_natCast, digits_map _ fun ch hch => Nat.isDigit_of_mem_toDigits (by decide) (by decide) hch]
  exact Nat.ofDigitChars_ten_toDigits

/-- **`from_chars`** reads back a `size_t`. -/
theorem fromChars_decimal {n : Nat} (h : n < 2 ^ 64) : fromChars (decimal n) = some n := by
  unfold fromChars
  simp only [takeWhile_decimal, decimal_ne_nil, if_false, digits_decimal, h, if_true]

/-- A digit is no space, and no sign. -/
theorem ne_of_isdigit {b : Byte} (h : isdigit b = true) : isspace b = false ∧ b ≠ 45 ∧ b ≠ 43 := by
  obtain ⟨hge, hle⟩ := of_decide_eq_true h
  rw [UInt8.le_iff_toNat_le] at hge hle
  change 48 ≤ b.toNat at hge
  change b.toNat ≤ 57 at hle
  refine ⟨decide_eq_false ?_, ?_, ?_⟩
  · rintro (rfl | ⟨-, hle'⟩)
    · exact absurd hge (by decide)
    · rw [UInt8.le_iff_toNat_le] at hle'
      change b.toNat ≤ 13 at hle'
      omega
  · rintro rfl
    exact absurd hge (by decide)
  · rintro rfl
    exact absurd hge (by decide)

/-- **`atol`** reads back a `long`. -/
theorem atol_decimal {n : Int} (hmin : longMin ≤ n) (hmax : n ≤ longMax) : atol (decimal n) = n := by
  rcases Int.lt_or_le n 0 with hneg | hpos
  · obtain ⟨m, hm, rfl⟩ : ∃ m : Nat, 0 < m ∧ n = -m := ⟨n.natAbs, by omega, by omega⟩
    have hspace : (45 :: decimal m).dropWhile isspace = 45 :: decimal m := rfl
    rw [decimal_neg hm, atol, hspace]
    simp only [takeWhile_decimal, digits_decimal]
    omega
  · obtain ⟨m, rfl⟩ : ∃ m : Nat, n = m := ⟨n.toNat, by omega⟩
    obtain ⟨b, rest, hcons⟩ := List.exists_cons_of_ne_nil (decimal_ne_nil m)
    have hb : isdigit b = true := isdigit_of_mem_decimal (n := m) (by rw [hcons]; exact List.mem_cons_self)
    obtain ⟨hspace, hminus, hplus⟩ := ne_of_isdigit hb
    have hdrop : (decimal m).dropWhile isspace = decimal m := by
      rw [hcons, List.dropWhile_cons_of_neg (by rw [hspace]; exact Bool.false_ne_true)]
    have hvalue : (digits ((decimal m).takeWhile isdigit) : Int) = m := by
      rw [takeWhile_decimal, digits_decimal]
    unfold atol
    rw [hdrop]
    simp only
    split
    · rename_i heq
      rw [hcons] at heq
      exact absurd (List.cons.inj heq).1 hminus
    · rename_i heq
      rw [hcons] at heq
      exact absurd (List.cons.inj heq).1 hplus
    · rw [hvalue]
      omega

end LinuxServer
