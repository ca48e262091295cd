import LinuxServer.Lib.Decimal

/-!
# `Lib/Inet.lean` — IPv4 addresses as text

`inet_ntop` prints the four bytes of an address with points between them, and `inet_pton` reads such a text, one
character after another, refusing what no address prints as. So the two are inverse in both directions: a text is
accepted if and only if it is the one its address prints as (`inetPton_eq_some`). The reader's state is what it has
read so far, written as text again (`Quad.written`), and one step appends the character it reads.
-/

set_option autoImplicit false

namespace LinuxServer

/-- `in_addr`, its bytes in the order they have in memory. -/
structure InAddr where
  a : Byte
  b : Byte
  c : Byte
  d : Byte
  deriving DecidableEq, Repr

/-- `inet_ntop(AF_INET, addr, dst, _)`, if the size is enough. -/
def inetNtop (addr : InAddr) : List Byte :=
  decimal addr.a.toNat ++ 46 :: (decimal addr.b.toNat ++ 46 :: (decimal addr.c.toNat ++ 46 :: decimal addr.d.toNat))

/-- What `inet_pton` has read: the octets that are over, newest first, and the one it is in. -/
structure Quad where
  ended : List Byte
  octet : Option Byte
  deriving DecidableEq, Repr

namespace Quad

/-- `octets`. -/
def octets (q : Quad) : Nat := q.ended.length + (if q.octet.isSome then 1 else 0)

/-- One more digit of an octet. -/
def grow (v ch : Byte) : Option Byte :=
  if v = 0 then none
  else if v.toNat * 10 + (ch.toNat - 48) > 255 then none
  else some (UInt8.ofNat (v.toNat * 10 + (ch.toNat - 48)))

/-- One character. -/
def step (q : Quad) (ch : Byte) : Option Quad :=
  if isdigit ch then
    match q.octet with
    | none => if q.octets + 1 > 4 then none else some ⟨q.ended, some (ch - 48)⟩
    | some v => (grow v ch).map fun v => ⟨q.ended, some v⟩
  else if ch = 46 then
    match q.octet with
    | none => none
    | some v => if q.octets = 4 then none else some ⟨v :: q.ended, none⟩
  else none

/-- The address, if there are four octets. -/
def finish : Quad → Option InAddr
  | ⟨[c, b, a], some d⟩ => some ⟨a, b, c, d⟩
  | _ => none

/-- What it has read, as text. -/
def written (q : Quad) : List Byte :=
  q.ended.reverse.flatMap (fun v => decimal v.toNat ++ [46]) ++ (q.octet.map fun v => decimal v.toNat).getD []

end Quad

/-- `inet_pton(AF_INET, w, addr)`. -/
def inetPton (w : List Byte) : Option InAddr := (w.foldlM Quad.step ⟨[], none⟩).bind Quad.finish

/-- `htons`, on a machine that stores the low byte first. -/
def htons (x : UInt16) : UInt16 := UInt16.ofNat (x.toNat % 256 * 256 + x.toNat / 256)

def ntohs (x : UInt16) : UInt16 := htons x

theorem toNat_htons (x : UInt16) : (htons x).toNat = x.toNat % 256 * 256 + x.toNat / 256 := by
  have hx := UInt16.toNat_lt x
  rw [htons, UInt16.toNat_ofNat', Nat.mod_eq_of_lt (by omega)]

theorem htons_htons (x : UInt16) : htons (htons x) = x := by
  have hx := UInt16.toNat_lt x
  refine UInt16.toNat_inj.mp ?_
  rw [toNat_htons, toNat_htons]
  omega

/-! ## What is read is what would be printed -/

namespace Quad

section
variable {q q' : Quad} {ch : Byte}

theorem toNat_of_isdigit (h : isdigit ch = true) : ∃ d, d < 10 ∧ ch.toNat = 48 + d ∧ ch = UInt8.ofNat (48 + d) := by
  obtain ⟨hge, hle⟩ := of_decide_eq_true h
  rw [UInt8.le_iff_toNat_le] at hge hle
  change 48 ≤ ch.toNat at hge
  change ch.toNat ≤ 57 at hle
  refine ⟨ch.toNat - 48, by omega, by omega, ?_⟩
  rw [show 48 + (ch.toNat - 48) = ch.toNat by omega, UInt8.ofNat_toNat]

theorem written_octet (ended : List Byte) (v : Byte) :
    written ⟨ended, some v⟩ = written ⟨ended, none⟩ ++ decimal v.toNat := by
  unfold written
  rw [Option.map_none, Option.map_some, Option.getD_none, Option.getD_some, List.append_nil]

theorem written_point (ended : List Byte) (v : Byte) :
    written ⟨v :: ended, none⟩ = written ⟨ended, some v⟩ ++ [46] := by
  unfold written
  rw [Option.map_none, Option.map_some, Option.getD_none, Option.getD_some, List.reverse_cons, List.flatMap_append,
    List.flatMap_singleton, List.append_nil, List.append_assoc]

theorem decimal_first {d : Nat} (hd : d < 10) :
    decimal (UInt8.ofNat (48 + d) - 48 : Byte).toNat = [UInt8.ofNat (48 + d)] := by
  have hsub : ∀ d < 10, (UInt8.ofNat (48 + d) - 48 : Byte).toNat = d := by decide
  rw [hsub d hd, decimal_digit hd]

theorem decimal_grow {v v' : Byte} {d : Nat} (hd : d < 10) (h : grow v (UInt8.ofNat (48 + d)) = some v') :
    decimal v'.toNat = decimal v.toNat ++ [UInt8.ofNat (48 + d)] := by
  have hsub : ∀ d < 10, (UInt8.ofNat (48 + d)).toNat - 48 = d := by decide
  unfold grow at h
  rw [hsub d hd] at h
  split at h
  · cases h
  · rename_i hpos
    split at h
    · cases h
    · rename_i hle
      cases h
      have hv : 0 < v.toNat := Nat.pos_of_ne_zero fun hzero => hpos (UInt8.toNat_inj.mp hzero)
      have hnew : (UInt8.ofNat (v.toNat * 10 + d)).toNat = 10 * v.toNat + d := by
        rw [UInt8.toNat_ofNat', Nat.mod_eq_of_lt (by omega)]
        omega
      rw [hnew, decimal_snoc hv hd]

/-- **One step** appends its character. -/
theorem written_step (h : q.step ch = some q') : q'.written = q.written ++ [ch] := by
  obtain ⟨ended, octet⟩ := q
  unfold step at h
  split at h
  · rename_i hdigit
    obtain ⟨d, hd, -, rfl⟩ := toNat_of_isdigit hdigit
    cases octet with
    | none =>
      -- the first digit of an octet
      simp only at h
      split at h
      · cases h
      · cases h
        rw [written_octet, decimal_first hd]
    | some v =>
      simp only at h
      obtain ⟨v', hv', rfl⟩ := Option.map_eq_some_iff.mp h
      rw [written_octet, written_octet, decimal_grow hd hv', List.append_assoc]
  · split at h
    · rename_i hpoint
      cases octet with
      | none => cases h
      | some v =>
        simp only at h
        split at h
        · cases h
        · cases h
          rw [hpoint]
          exact written_point ended v
    · cases h

theorem written_foldlM : ∀ {w : List Byte} {q q' : Quad}, w.foldlM step q = some q' → q'.written = q.written ++ w
  | [], q, q', h => by
    cases h
    exact (List.append_nil _).symm
  | ch :: w, q, q', h => by
    rw [List.foldlM_cons] at h
    obtain ⟨q₁, hstep, hrest⟩ := Option.bind_eq_some_iff.mp h
    rw [written_foldlM hrest, written_step hstep, List.append_assoc, List.singleton_append]

/-! ## What is printed is read -/

theorem octets_none (ended : List Byte) : octets ⟨ended, none⟩ = ended.length := rfl

theorem octets_some (ended : List Byte) (v : Byte) : octets ⟨ended, some v⟩ = ended.length + 1 := rfl

theorem step_first {ended : List Byte} (hlen : ended.length < 4) {d : Nat} (hd : d < 10) :
    step ⟨ended, none⟩ (UInt8.ofNat (48 + d)) = some ⟨ended, some (UInt8.ofNat d)⟩ := by
  have hdigit : ∀ d < 10, isdigit (UInt8.ofNat (48 + d)) = true ∧ UInt8.ofNat (48 + d) - 48 = UInt8.ofNat d := by
    decide
  obtain ⟨hdigit, hsub⟩ := hdigit d hd
  have hroom : ¬ octets ⟨ended, none⟩ + 1 > 4 := by
    rw [octets_none]
    omega
  unfold step
  rw [if_pos hdigit]
  simp only
  rw [if_neg hroom, hsub]

theorem step_grow (ended : List Byte) {v d : Nat} (hv : 0 < v) (hd : d < 10) (hle : 10 * v + d ≤ 255) :
    step ⟨ended, some (UInt8.ofNat v)⟩ (UInt8.ofNat (48 + d)) = some ⟨ended, some (UInt8.ofNat (10 * v + d))⟩ := by
  have hdigit : ∀ d < 10, isdigit (UInt8.ofNat (48 + d)) = true ∧ (UInt8.ofNat (48 + d)).toNat - 48 = d := by decide
  obtain ⟨hdigit, hsub⟩ := hdigit d hd
  have hnat : (UInt8.ofNat v).toNat = v := by rw [UInt8.toNat_ofNat', Nat.mod_eq_of_lt (by omega)]
  have hne : UInt8.ofNat v ≠ 0 := fun hzero => by
    rw [hzero] at hnat
    exact absurd hnat.symm (Nat.pos_iff_ne_zero.mp hv)
  have hsum : v * 10 + d = 10 * v + d := by omega
  have hgrow : grow (UInt8.ofNat v) (UInt8.ofNat (48 + d)) = some (UInt8.ofNat (10 * v + d)) := by
    unfold grow
    rw [if_neg hne, hnat, hsub, hsum, if_neg (by omega)]
  unfold step
  rw [if_pos hdigit]
  simp only
  rw [hgrow, Option.map_some]

/-- The digits of an octet. By induction on the number, along its digits. -/
theorem foldlM_octet {ended : List Byte} (hlen : ended.length < 4) (n : Nat) (hn : n ≤ 255) :
    (decimal n).foldlM step ⟨ended, none⟩ = some ⟨ended, some (UInt8.ofNat n)⟩ := by
  induction n using Nat.strongRecOn with
  | ind n ih =>
    by_cases hdigit : n < 10
    · rw [decimal_digit hdigit, List.foldlM_cons, step_first hlen hdigit]
      rfl
    · have hsplit : n = 10 * (n / 10) + n % 10 := (Nat.div_add_mod n 10).symm
      have hpos : 0 < n / 10 := by omega
      have hmod : n % 10 < 10 := by omega
      rw [hsplit, decimal_snoc hpos hmod, List.foldlM_append, ih (n / 10) (by omega) (by omega)]
      change (step _ _).bind _ = _
      rw [step_grow ended hpos hmod (by omega)]
      rfl

theorem step_point {ended : List Byte} (hlen : ended.length < 3) (v : Byte) :
    step ⟨ended, some v⟩ 46 = some ⟨v :: ended, none⟩ := by
  have hroom : octets ⟨ended, some v⟩ ≠ 4 := by
    rw [octets_some]
    omega
  unfold step
  rw [if_neg (by decide), if_pos rfl]
  simp only
  rw [if_neg hroom]

/-- An octet and the point behind it, before anything. -/
theorem foldlM_octet_point {ended : List Byte} (hlen : ended.length < 3) (v : Byte) (w : List Byte) :
    (decimal v.toNat ++ 46 :: w).foldlM step ⟨ended, none⟩ = w.foldlM step ⟨v :: ended, none⟩ := by
  have hv : v.toNat ≤ 255 := Nat.le_of_lt_succ (UInt8.toNat_lt v)
  rw [List.foldlM_append, foldlM_octet (by omega) v.toNat hv, UInt8.ofNat_toNat]
  change (List.foldlM step _ (46 :: w)) = _
  rw [List.foldlM_cons, step_point hlen]
  rfl

end

end Quad

theorem inetPton_inetNtop (addr : InAddr) : inetPton (inetNtop addr) = some addr := by
  obtain ⟨a, b, c, d⟩ := addr
  have hd : d.toNat ≤ 255 := Nat.le_of_lt_succ (UInt8.toNat_lt d)
  have hread : (inetNtop ⟨a, b, c, d⟩).foldlM Quad.step ⟨[], none⟩ = some ⟨[c, b, a], some d⟩ := by
    unfold inetNtop
    rw [Quad.foldlM_octet_point (show ([] : List Byte).length < 3 by decide),
      Quad.foldlM_octet_point (show [a].length < 3 from Nat.one_lt_succ_succ 1),
      Quad.foldlM_octet_point (show [b, a].length < 3 from Nat.lt_succ_self 2),
      Quad.foldlM_octet (show [c, b, a].length < 4 from Nat.lt_succ_self 3) d.toNat hd, UInt8.ofNat_toNat]
  unfold inetPton
  rw [hread]
  rfl

/-- **`inet_pton` accepts what `inet_ntop` prints**, and nothing else. -/
theorem inetPton_eq_some {w : List Byte} {addr : InAddr} : inetPton w = some addr ↔ w = inetNtop addr := by
  constructor
  · intro h
    obtain ⟨q, hread, hfinish⟩ := Option.bind_eq_some_iff.mp h
    have hwritten := Quad.written_foldlM hread
    rw [show Quad.written ⟨[], none⟩ = [] from rfl, List.nil_append] at hwritten
    unfold Quad.finish at hfinish
    split at hfinish
    · cases hfinish
      rw [← hwritten]
      simp only [Quad.written, inetNtop, List.reverse_cons, List.reverse_nil, List.nil_append, List.cons_append,
        List.flatMap_cons, List.flatMap_nil, List.append_assoc, List.append_nil, Option.map_some, Option.getD_some]
    · cases hfinish
  · rintro rfl
    exact inetPton_inetNtop addr

theorem zero_notMem_inetNtop (addr : InAddr) : 0 ∉ inetNtop addr := by
  have hpoint : (0 : Byte) ≠ 46 := by decide
  unfold inetNtop
  simp only [List.mem_append, List.mem_cons, zero_notMem_decimal, hpoint, or_false, not_false_eq_true]

/-- An address prints into sixteen bytes, with the one that ends it. -/
theorem length_inetNtop (addr : InAddr) : (inetNtop addr).length ≤ 15 := by
  have hoctet : ∀ v : Byte, (decimal v.toNat).length ≤ 3 := fun v =>
    length_decimal_le (by decide) (Nat.lt_of_lt_of_le (UInt8.toNat_lt v) (by decide))
  have ha := hoctet addr.a
  have hb := hoctet addr.b
  have hc := hoctet addr.c
  have hd := hoctet addr.d
  unfold inetNtop
  simp only [List.length_append, List.length_cons]
  omega

end LinuxServer
