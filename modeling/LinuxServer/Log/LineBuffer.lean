import LinuxServer.Lib.Printf
import LinuxServer.Log.WriteLog

/-!
# `Log/LineBuffer.lean` — the line in `m_buf`

The text of a line is made in the `m_log_buf_size` bytes of `m_buf`: the time stamp with `snprintf`, the
message behind it with `vsnprintf`, and then a newline and a NUL where the message ends. `vsnprintf` gets
the room that is left and keeps to it. But what it returns is the length that the message would have had,
and nothing compares that with the room: a message that was cut has its newline and its NUL stored behind
the buffer. `keepsLine_iff` is when they are inside: if and only if the whole line has room.

That a line that has room is the one of `LogCall.buffer` is `formatLine_buffer`.
-/

set_option autoImplicit false

namespace LinuxServer

/-! ## What is printed -/

/-- What `localtime` promises, and that the year is an `int`. -/
structure Clock.Valid (c : Clock) : Prop where
  year : intMin ≤ c.year ∧ c.year ≤ intMax
  month : 1 ≤ c.month ∧ c.month ≤ 12
  mday : 1 ≤ c.mday ∧ c.mday ≤ 31
  hour : 0 ≤ c.hour ∧ c.hour ≤ 23
  min : 0 ≤ c.min ∧ c.min ≤ 59
  sec : 0 ≤ c.sec ∧ c.sec ≤ 60
  usec : 0 ≤ c.usec ∧ c.usec ≤ 999999

/-- A number that is not wider than its field fills it. -/
theorem length_padded (width : Nat) {n : Int} (hwidth : 0 < width) (hn : 0 ≤ n ∧ n < 10 ^ width) :
    (padded width n).length = width := by
  have hfigures : (decimal n.natAbs).length ≤ width := by
    rw [Int.natAbs_of_nonneg hn.1]
    exact (length_decimal_le_iff hn.1 hwidth).mpr hn.2
  rw [padded, if_neg (by omega)]
  simp only [List.nil_append, List.length_append, List.length_replicate, List.length_nil]
  omega

namespace LogCall

variable {c : LogCall}

theorem length_levelName (c : LogCall) : c.levelName.length ≤ 7 := by
  rcases c.levelName_cases with h | h | h | h <;> rw [h] <;> decide

/-- The 48 bytes that the time stamp is given are enough for it. -/
theorem length_header (h : c.clock.Valid) : c.header.length ≤ 42 := by
  obtain ⟨hyear, hmonth, hmday, hhour, hmin, hsec, husec⟩ := h
  unfold intMin intMax at hyear
  have htwo : ∀ n : Int, 0 ≤ n → n ≤ 60 → (padded 2 n).length = 2 :=
    fun n hn hle => length_padded 2 (by decide) ⟨hn, by omega⟩
  have hwidth : (decimal c.clock.year).length ≤ 11 := length_decimal (by omega)
  have hfraction : (padded 6 c.clock.usec).length = 6 := length_padded 6 (by decide) ⟨husec.1, by omega⟩
  have hlevel := c.length_levelName
  have hmark : ∀ text ∈ ["-", " ", ":", "."], (bytes text).length = 1 := by decide
  simp only [header, List.length_append, htwo c.clock.month (by omega) (by omega),
    htwo c.clock.mday (by omega) (by omega), htwo c.clock.hour hhour.1 (by omega),
    htwo c.clock.min hmin.1 (by omega), htwo c.clock.sec hsec.1 hsec.2, hfraction, hmark "-" (by decide),
    hmark " " (by decide), hmark ":" (by decide), hmark "." (by decide)]
  omega

end LogCall

/-! ## The buffer -/

/-- `m_buf[i] = b`. -/
def store (bufSize : Int) (buf : Mem) (i : Int) (b : Byte) : Except Fault Mem :=
  if i < 0 ∨ bufSize ≤ i then .error .outOfBounds else .ok (buf.put i.toNat b)

/-- The newline at `i` and the NUL behind it, and the string that is in `m_buf` then. -/
def terminate (bufSize : Int) (buf : Mem) (i : Int) : Except Fault (List Byte × Mem) := do
  let buf ← store bufSize buf i 10
  let buf ← store bufSize buf (i + 1) 0
  return (buf.cstr bufSize.toNat 0, buf)

/-- The second section of `write_log`: `log_str`, and `m_buf` as it leaves it. -/
def formatLine (bufSize : Int) (c : LogCall) (buf : Mem) : Except Fault (List Byte × Mem) := do
  let (buf, n) ← snprintf bufSize buf 0 48 c.header
  let (buf, m) ← snprintf bufSize buf n (toSize (bufSize - n - 1)) c.message
  terminate bufSize buf (n + m)

/-- **The line stays inside**: the newline and the NUL are stored in `m_buf`, and the text is the time stamp,
    a first part of the message, and a newline. -/
def KeepsLine (bufSize : Int) (c : LogCall) (buf : Mem) : Prop :=
  ∃ text buf' part, formatLine bufSize c buf = .ok (text, buf') ∧ part <+: c.message ∧
    text = c.header ++ part ++ [10]

section
variable {bufSize : Int} {buf buf' : Mem} {c : LogCall}

theorem store_eq_ok {i : Int} {b : Byte} :
    store bufSize buf i b = .ok buf' ↔ (0 ≤ i ∧ i < bufSize) ∧ buf' = buf.put i.toNat b := by
  unfold store
  split
  · rename_i hout
    exact iff_of_false (fun h => by cases h) fun h => by omega
  · rename_i hin
    rw [Except.ok.injEq]
    exact ⟨fun h => ⟨by omega, h.symm⟩, fun h => h.2.symm⟩

/-- The two stores are inside, or there is no text. -/
theorem terminate_eq_ok {i : Int} {r : List Byte × Mem} : terminate bufSize buf i = .ok r ↔
    (0 ≤ i ∧ i + 1 < bufSize) ∧ r.2 = (buf.put i.toNat 10).put (i + 1).toNat 0 ∧
      r.1 = r.2.cstr bufSize.toNat 0 := by
  unfold terminate
  constructor
  · intro h
    obtain ⟨buf₁, hnewline, h⟩ := bind_eq_ok.mp h
    obtain ⟨buf₂, hnul, h⟩ := bind_eq_ok.mp h
    obtain ⟨hin, rfl⟩ := store_eq_ok.mp hnewline
    obtain ⟨hin', rfl⟩ := store_eq_ok.mp hnul
    cases h
    exact ⟨⟨hin.1, hin'.2⟩, rfl, rfl⟩
  · rintro ⟨⟨hnonneg, hlt⟩, hbuf, htext⟩
    refine bind_eq_ok.mpr ⟨_, store_eq_ok.mpr ⟨⟨hnonneg, by omega⟩, rfl⟩, ?_⟩
    refine bind_eq_ok.mpr ⟨_, store_eq_ok.mpr ⟨⟨by omega, hlt⟩, rfl⟩, ?_⟩
    rw [← hbuf, ← htext]
    rfl

/-- A text at the beginning, and one behind it. -/
theorem blit_text (buf : Mem) (v w : List Byte) : buf.blit 0 (v ++ w) = (buf.blit 0 v).blit v.length w := by
  rw [← Mem.blit_append, Nat.zero_add]

/-- The time stamp and the message before the newline is stored, of the message what there is room for. -/
theorem formatLine_eq (hheader : c.header.length < 48) (hbuf : 64 ≤ bufSize) (hint : bufSize ≤ intMax)
    (buf : Mem) : formatLine bufSize c buf =
      terminate bufSize (buf.blit 0 (c.header ++ (c.message.take (bufSize - c.header.length - 2).toNat ++ [0])))
        (c.header.length + printed c.message) := by
  have hsize : toSize (bufSize - c.header.length - 1) = (bufSize - c.header.length - 2).toNat + 1 := by
    unfold intMax at hint
    unfold toSize
    omega
  have hprinted : printed c.header = c.header.length := if_pos (by unfold intMax; omega)
  have hstamp : snprintf bufSize buf 0 48 c.header = .ok (buf.blit 0 (c.header ++ [0]), c.header.length) := by
    rw [snprintf_eq (Int.le_refl 0) (by decide) (by omega), List.take_of_length_le (by omega), hprinted]
    rfl
  have hover : ∀ w : List Byte, (buf.blit 0 (c.header ++ [0])).blit c.header.length (w ++ [0]) =
      buf.blit 0 (c.header ++ (w ++ [0])) := by
    intro w
    have hnul : ([0] : List Byte).length ≤ (w ++ [0]).length := by
      rw [List.length_append]
      exact Nat.le_add_left _ _
    rw [blit_text, Mem.blit_over _ _ hnul, ← blit_text]
  have hmessage : ∀ buf' : Mem, snprintf bufSize buf' c.header.length (toSize (bufSize - c.header.length - 1))
      c.message = .ok (buf'.blit c.header.length
        (c.message.take (bufSize - c.header.length - 2).toNat ++ [0]), printed c.message) := by
    intro buf'
    rw [snprintf_eq (Int.natCast_nonneg _) (by omega) (by omega), hsize, Nat.add_sub_cancel,
      Int.toNat_natCast]
  calc formatLine bufSize c buf
      = (do
        let (buf, m) ← snprintf bufSize (buf.blit 0 (c.header ++ [0])) c.header.length
          (toSize (bufSize - c.header.length - 1)) c.message
        terminate bufSize buf (c.header.length + m)) := by
          unfold formatLine
          rw [hstamp]
          rfl
    _ = _ := by
          rw [hmessage, hover]
          rfl

/-- The newline and the NUL behind a text that is in the buffer with a NUL of its own. -/
theorem put_newline (text : List Byte) : ((buf.blit 0 (text ++ [0])).put text.length 10).put (text.length + 1) 0 =
    buf.blit 0 (text ++ [10] ++ [0]) := by
  have hlength : text.length + 1 = (text ++ [10]).length := by
    rw [List.length_append, List.length_singleton]
  have hone : ([0] : List Byte).length ≤ ([10] : List Byte).length := Nat.le_refl 1
  rw [Mem.put_eq_blit _ text.length, blit_text buf text [0], Mem.blit_over _ _ hone, ← blit_text,
    Mem.put_eq_blit, hlength, ← blit_text]

/-- A line that has room. -/
theorem formatLine_fits (hclock : c.clock.Valid) (hbuf : 64 ≤ bufSize) (hint : bufSize ≤ intMax)
    (hmessage : 0 ∉ c.message) (hfits : c.header.length + c.message.length + 2 ≤ bufSize) :
    formatLine bufSize c buf = .ok (c.line, buf.blit 0 (c.line ++ [0])) := by
  have hheader := LogCall.length_header hclock
  have hprinted : printed c.message = c.message.length := if_pos (by omega)
  have hline := LogCall.zero_notMem_line hmessage
  have hlength : c.line.length = c.header.length + c.message.length + 1 := by
    rw [LogCall.line, List.length_append, List.length_append, List.length_singleton]
  have hplace : (c.header.length + printed c.message).toNat = (c.header ++ c.message).length := by
    rw [hprinted, List.length_append]
    omega
  have hbehind : (c.header.length + printed c.message + 1).toNat = (c.header ++ c.message).length + 1 := by
    rw [hprinted, List.length_append]
    omega
  rw [formatLine_eq (by omega) hbuf hint, List.take_of_length_le (by omega), ← List.append_assoc,
    terminate_eq_ok]
  refine ⟨⟨by omega, by omega⟩, ?_, ?_⟩
  · rw [hplace, hbehind, put_newline, LogCall.line]
  · rw [Mem.cstr_blit hline (by omega)]

/-- The NUL ends the text, and it is in the buffer. -/
theorem terminate_length {i : Int} {r : List Byte × Mem} (h : terminate bufSize buf i = .ok r) :
    i + 1 < bufSize ∧ r.1.length ≤ i + 1 := by
  obtain ⟨⟨hnonneg, hlt⟩, hbuf, htext⟩ := terminate_eq_ok.mp h
  have hnul : r.2.Terminated 0 ((i + 1).toNat + 1) := by
    refine ⟨(i + 1).toNat, Nat.zero_le _, Nat.lt_succ_self _, ?_⟩
    rw [hbuf]
    exact Mem.put_self ..
  have hlength := hnul.length_lt bufSize.toNat
  rw [← htext] at hlength
  omega

theorem terminate_outside {i : Int} (h : bufSize ≤ i + 1) :
    terminate bufSize buf i = .error .outOfBounds := by
  unfold terminate store
  by_cases hnewline : i < 0 ∨ bufSize ≤ i
  · rw [if_pos hnewline]
    rfl
  · rw [if_neg hnewline]
    exact bind_eq_error.mpr (.inr ⟨_, rfl, bind_eq_error.mpr (.inl (if_pos (.inr h)))⟩)

/-- A line that has no room: the NUL is stored behind `m_buf`, if not the newline as well. -/
theorem formatLine_overflows (hclock : c.clock.Valid) (hbuf : 64 ≤ bufSize) (hint : bufSize ≤ intMax)
    (hlen : c.message.length ≤ intMax) (hlong : bufSize < c.header.length + c.message.length + 2) :
    formatLine bufSize c buf = .error .outOfBounds := by
  have hheader := LogCall.length_header hclock
  have hprinted : printed c.message = c.message.length := if_pos hlen
  rw [formatLine_eq (by omega) hbuf hint, terminate_outside (by omega)]

/-- **The text in `m_buf` is the text of the line**, as far as `vsnprintf` can tell the length of it. -/
theorem formatLine_buffer (hclock : c.clock.Valid) (hbuf : 64 ≤ bufSize) (hint : bufSize ≤ intMax)
    (hmessage : 0 ∉ c.message) (hlen : c.message.length ≤ intMax) :
    (formatLine bufSize c buf).map Prod.fst = c.buffer bufSize := by
  have hheader := LogCall.length_header hclock
  have hline : c.line.length = c.header.length + c.message.length + 1 := by
    rw [LogCall.line, List.length_append, List.length_append, List.length_singleton]
  by_cases hfits : c.header.length + c.message.length + 2 ≤ bufSize
  · have hroom : c.Fits bufSize := ⟨by omega, by omega, hmessage⟩
    rw [formatLine_fits hclock hbuf hint hmessage hfits, hroom.buffer]
    rfl
  · rw [formatLine_overflows hclock hbuf hint hlen (by omega), LogCall.buffer, if_pos (by omega)]
    rfl

/-- **When a line stays inside the buffer**: when it has room with its newline and its NUL. -/
theorem keepsLine_iff (hclock : c.clock.Valid) (hbuf : 64 ≤ bufSize) (hint : bufSize ≤ intMax)
    (hmessage : 0 ∉ c.message) (buf : Mem) :
    KeepsLine bufSize c buf ↔ c.header.length + c.message.length + 2 ≤ bufSize := by
  constructor
  · rintro ⟨text, buf', part, hrun, -, htext⟩
    have hheader := LogCall.length_header hclock
    rw [formatLine_eq (by omega) hbuf hint] at hrun
    obtain ⟨hlt, hlength⟩ := terminate_length hrun
    have hwhole := congrArg List.length htext
    rw [List.length_append, List.length_append, List.length_singleton] at hwhole
    rw [hwhole] at hlength
    -- a length that is no `int` would have cut the time stamp
    have hprinted : printed c.message = c.message.length := by
      unfold printed at hlength ⊢
      split at hlength
      · rename_i hlen
        rw [if_pos hlen]
      · omega
    omega
  · intro hfits
    exact ⟨c.line, _, c.message, formatLine_fits hclock hbuf hint hmessage hfits, List.prefix_refl _, rfl⟩

/-- The first of January, at midnight. -/
def newYear : Clock := ⟨2024, 1, 1, 0, 0, 0, 0⟩

theorem newYear_valid : newYear.Valid := by constructor <;> decide

/-- A request line of two bytes, in the 200 bytes that the server has for a line. -/
theorem keepsLine_iff_short : KeepsLine 200 ⟨newYear, 1, bytes "GE"⟩ (fun _ => 0) :=
  (keepsLine_iff newYear_valid (by decide) (by decide) (by decide) _).mpr (by decide +kernel)

/-- One of 200 bytes. -/
theorem not_keepsLine_long :
    formatLine 200 ⟨newYear, 1, List.replicate 200 97⟩ (fun _ => 0) = .error .outOfBounds ∧
      ¬ KeepsLine 200 ⟨newYear, 1, List.replicate 200 97⟩ fun _ => 0 := by
  have hlength : (LogCall.mk newYear 1 (List.replicate 200 97)).message.length = 200 := List.length_replicate
  have hrun : formatLine 200 ⟨newYear, 1, List.replicate 200 97⟩ (fun _ => 0) = .error .outOfBounds :=
    formatLine_overflows newYear_valid (by decide) (by decide) (by rw [hlength]; decide)
      (by rw [hlength]; omega)
  refine ⟨hrun, ?_⟩
  rintro ⟨text, buf', part, hok, -⟩
  rw [hrun] at hok
  cases hok

end

end LinuxServer
