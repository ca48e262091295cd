import LinuxServer.Http.Parse

/-!
# `Http/Lines.lean` — what `parse_line` does to the bytes it has not checked

`scanLine` is `parse_line` on the word of unchecked bytes: the status, and how many bytes it gets
past. `parseLine_eq` says that `parse_line` computes it, and that all it does to the connection is to
move the cursor over these bytes and, at the end of a line, to overwrite the two that end it.

A word scans the same however much follows it, unless the line is still open; and an open line is
taken up where it was left (`scanLine_append`). That is what makes `parse_line` resumable, and
`parseLine_receive` says it of connections.
-/

set_option autoImplicit false

namespace LinuxServer
namespace Http

theorem lf_ne_cr : lf ≠ cr := by decide

/-- What stands behind a CR. -/
def lineEnd : List Byte → LineStatus × Nat
  | [] => (.lineOpen, 0)
  | b :: _ => if b = lf then (.lineOk, 2) else (.lineBad, 0)

/-- The status of the line at the front of a word, and the bytes `parse_line` gets past. -/
def scanLine : List Byte → LineStatus × Nat
  | [] => (.lineOpen, 0)
  | b :: w =>
    if b = cr then lineEnd w
    else if b = lf then (.lineBad, 0)
    else ((scanLine w).1, (scanLine w).2 + 1)

theorem scanLine_cons {b : Byte} (hcr : b ≠ cr) (hlf : b ≠ lf) (w : List Byte) :
    scanLine (b :: w) = ((scanLine w).1, (scanLine w).2 + 1) := by
  rw [scanLine, if_neg hcr, if_neg hlf]

theorem scanLine_le (w : List Byte) : (scanLine w).2 ≤ w.length := by
  induction w with
  | nil => exact Nat.le_refl _
  | cons b w ih =>
    rw [scanLine]
    split
    · cases w with
      | nil => exact Nat.zero_le _
      | cons b' w => rw [lineEnd]; split <;> simp
    · split
      · exact Nat.zero_le _
      · exact Nat.succ_le_succ ih

/-- A whole line: its bytes, then CR and LF. -/
theorem scanLine_ok {w : List Byte} (h : (scanLine w).1 = .lineOk) :
    ∃ line rest, w = line ++ cr :: lf :: rest ∧ (scanLine w).2 = line.length + 2 ∧
      ∀ b ∈ line, b ≠ cr ∧ b ≠ lf := by
  induction w with
  | nil => cases h
  | cons b w ih =>
    rw [scanLine] at h ⊢
    by_cases hcr : b = cr
    · rw [if_pos hcr] at h ⊢
      cases w with
      | nil => cases h
      | cons b' w =>
        rw [lineEnd] at h ⊢
        by_cases hlf : b' = lf
        · rw [if_pos hlf]; exact ⟨[], w, by rw [hcr, hlf]; rfl, rfl, by simp⟩
        · rw [if_neg hlf] at h; cases h
    · rw [if_neg hcr] at h ⊢
      by_cases hlf : b = lf
      · rw [if_pos hlf] at h; cases h
      · rw [if_neg hlf] at h ⊢
        obtain ⟨line, rest, hw, hlen, hline⟩ := ih h
        refine ⟨b :: line, rest, by rw [hw]; rfl, by simp only [hlen, List.length_cons], ?_⟩
        intro b' hb'
        rcases List.mem_cons.mp hb' with rfl | hb'
        · exact ⟨hcr, hlf⟩
        · exact hline b' hb'

/-- And so it is found, whatever follows. -/
theorem scanLine_line {line : List Byte} (h : ∀ b ∈ line, b ≠ cr ∧ b ≠ lf) (rest : List Byte) :
    scanLine (line ++ cr :: lf :: rest) = (.lineOk, line.length + 2) := by
  induction line with
  | nil => rfl
  | cons b line ih =>
    obtain ⟨hcr, hlf⟩ := h b List.mem_cons_self
    rw [List.cons_append, scanLine_cons hcr hlf, ih fun b' hb' => h b' (List.mem_cons_of_mem _ hb')]
    rfl

/-- The bytes it gets past without ending a line are none that end one. -/
theorem scanLine_passed {w : List Byte} (h : (scanLine w).1 ≠ .lineOk) :
    ∀ b ∈ w.take (scanLine w).2, b ≠ cr ∧ b ≠ lf := by
  induction w with
  | nil => simp
  | cons b w ih =>
    rw [scanLine] at h ⊢
    by_cases hcr : b = cr
    · rw [if_pos hcr] at h ⊢
      cases w with
      | nil => simp [lineEnd]
      | cons b' w =>
        rw [lineEnd] at h ⊢
        by_cases hlf : b' = lf
        · rw [if_pos hlf] at h; exact absurd rfl h
        · rw [if_neg hlf]; simp
    · rw [if_neg hcr] at h ⊢
      by_cases hlf : b = lf
      · rw [if_pos hlf]; simp
      · rw [if_neg hlf] at h ⊢
        intro b' hb'
        rw [List.take_succ_cons] at hb'
        rcases List.mem_cons.mp hb' with rfl | hb'
        · exact ⟨hcr, hlf⟩
        · exact ih h b' hb'

/-- More bytes change nothing about a line that has ended; one that has not is taken up where it
    was left. -/
theorem scanLine_append (w x : List Byte) :
    scanLine (w ++ x) =
      if (scanLine w).1 = .lineOk then scanLine w
      else ((scanLine (w.drop (scanLine w).2 ++ x)).1,
        (scanLine w).2 + (scanLine (w.drop (scanLine w).2 ++ x)).2) := by
  induction w with
  | nil => simp [scanLine]
  | cons b w ih =>
    by_cases hcr : b = cr
    · cases w with
      | nil => simp [scanLine, hcr, lineEnd]
      | cons b' w => by_cases hlf : b' = lf <;> simp [scanLine, hcr, lineEnd, hlf]
    · by_cases hlf : b = lf
      · simp [scanLine, hlf, lf_ne_cr]
      · rw [List.cons_append, scanLine_cons hcr hlf, scanLine_cons hcr hlf, ih]
        split
        · rfl
        · simp only [List.drop_succ_cons]
          rw [Nat.add_right_comm]

namespace HttpConn

/-- The bytes behind the cursor of `parse_line`. -/
def unchecked (c : HttpConn) : List Byte := c.readBuf.slice c.checkedIdx (c.readIdx - c.checkedIdx)

/-- The cursor moved over `k` bytes. -/
def advance (c : HttpConn) (k : Nat) : HttpConn := { c with checkedIdx := c.checkedIdx + k }

/-- The cursor moved over a line and its end, `k` bytes, and the end overwritten. -/
def cut (c : HttpConn) (k : Nat) : HttpConn :=
  ((c.put (c.checkedIdx + k - 2) 0).put (c.checkedIdx + k - 1) 0).advance k

theorem advance_advance (c : HttpConn) (j k : Nat) :
    (c.advance j).advance k = c.advance (j + k) := by
  simp only [advance, Nat.add_assoc]

theorem advance_cut (c : HttpConn) (j k : Nat) : (c.advance j).cut k = c.cut (j + k) := by
  simp only [cut, put, advance, Nat.add_assoc]

/-- Where `parse_line` may be called: the cursors are in order, and the cursor is not right behind
    a CR. -/
structure Ready (c : HttpConn) : Prop where
  ordered : c.startLine ≤ c.checkedIdx
  within : c.checkedIdx ≤ c.readIdx
  uncr : 0 < c.checkedIdx → c.readBuf (c.checkedIdx - 1) ≠ cr

theorem unchecked_of_lt {c : HttpConn} (h : c.checkedIdx < c.readIdx) :
    c.unchecked = c.readBuf c.checkedIdx :: (c.advance 1).unchecked := by
  unfold unchecked advance
  rw [show c.readIdx - c.checkedIdx = (c.readIdx - (c.checkedIdx + 1)) + 1 by omega, Mem.slice]

@[simp] theorem length_unchecked (c : HttpConn) :
    c.unchecked.length = c.readIdx - c.checkedIdx := Mem.length_slice ..

/-- The loop of `parse_line`, on the bytes it has in front of it. -/
theorem parseLineLoop_eq (n : Nat) : ∀ {c : HttpConn}, n = c.readIdx - c.checkedIdx →
    c.checkedIdx ≤ c.readIdx → (0 < c.checkedIdx → c.readBuf (c.checkedIdx - 1) ≠ cr) →
    parseLineLoop n c = ((scanLine c.unchecked).1,
      if (scanLine c.unchecked).1 = .lineOk then c.cut (scanLine c.unchecked).2
      else c.advance (scanLine c.unchecked).2) := by
  induction n with
  | zero =>
    intro c hn hle _
    have hnil : c.unchecked = [] := by rw [unchecked, ← hn]; rfl
    rw [hnil]
    rfl
  | succ n ih =>
    intro c hn hle huncr
    have hlt : c.checkedIdx < c.readIdx := by omega
    rw [unchecked_of_lt hlt, scanLine, parseLineLoop]
    by_cases hcr : c.readBuf c.checkedIdx = cr
    · rw [if_pos hcr, if_pos hcr]
      by_cases hlast : c.checkedIdx + 1 = c.readIdx
      · have hnil : (c.advance 1).unchecked = [] := by
          simp only [unchecked, advance, hlast, Nat.sub_self]; rfl
        rw [if_pos hlast, hnil]
        rfl
      · have hlt' : (c.advance 1).checkedIdx < (c.advance 1).readIdx := by
          simp only [advance]; omega
        rw [if_neg hlast, unchecked_of_lt hlt', lineEnd]
        by_cases hlf : c.readBuf (c.checkedIdx + 1) = lf
        · rw [if_pos hlf, show (c.advance 1).readBuf (c.advance 1).checkedIdx = lf from hlf, if_pos rfl]
          rfl
        · rw [if_neg hlf, if_neg (show ¬ (c.advance 1).readBuf (c.advance 1).checkedIdx = lf from hlf)]
          rfl
    · rw [if_neg hcr, if_neg hcr]
      by_cases hlf : c.readBuf c.checkedIdx = lf
      · have hno : ¬ (1 < c.checkedIdx ∧ c.readBuf (c.checkedIdx - 1) = cr) :=
          fun hc => huncr (by omega) hc.2
        rw [if_pos hlf, if_pos hlf, if_neg hno]
        rfl
      · rw [if_neg hlf, if_neg hlf]
        have hrec := ih (c := c.advance 1) (by simp only [advance]; omega)
          (by simp only [advance]; omega) (fun _ => by simpa only [advance, Nat.add_sub_cancel] using hcr)
        rw [show ({ c with checkedIdx := c.checkedIdx + 1 } : HttpConn) = c.advance 1 from rfl, hrec]
        simp only [advance_cut, advance_advance, Nat.add_comm 1]

/-- **`parse_line`**, on the word it has not checked. -/
theorem parseLine_eq {c : HttpConn} (h : c.Ready) :
    c.parseLine = ((scanLine c.unchecked).1,
      if (scanLine c.unchecked).1 = .lineOk then c.cut (scanLine c.unchecked).2
      else c.advance (scanLine c.unchecked).2) :=
  parseLineLoop_eq _ rfl h.within h.uncr

/-! ## Reading on -/

theorem receive_nil (c : HttpConn) : c.receive [] = c := by
  have hblit : c.readBuf.blit c.readIdx [] = c.readBuf := by
    funext i; simp [Mem.blit]
  simp [receive, hblit]

theorem receive_receive (c : HttpConn) (x y : List Byte) :
    (c.receive x).receive y = c.receive (x ++ y) := by
  simp only [receive, List.length_append, Nat.add_assoc, Mem.blit_append]

theorem unchecked_receive {c : HttpConn} (h : c.checkedIdx ≤ c.readIdx) (x : List Byte) :
    (c.receive x).unchecked = c.unchecked ++ x := by
  simp only [unchecked, receive]
  rw [show c.readIdx + x.length - c.checkedIdx = (c.readIdx - c.checkedIdx) + x.length by omega,
    Mem.slice_append, show c.checkedIdx + (c.readIdx - c.checkedIdx) = c.readIdx by omega,
    Mem.slice_blit]
  congr 1
  exact Mem.slice_congr fun i _ hi => Mem.blit_lt _ _ (by omega)

theorem put_receive {c : HttpConn} {p : Nat} (hp : p < c.readIdx) (b : Byte) (x : List Byte) :
    (c.receive x).put p b = (c.put p b).receive x := by
  simp only [put, receive, Mem.put_blit _ _ _ hp]

theorem Ready.receive {c : HttpConn} (h : c.Ready) (x : List Byte) : (c.receive x).Ready := by
  refine ⟨h.ordered, Nat.le_add_right_of_le h.within, fun hpos => ?_⟩
  have hin := h.within
  simp only [HttpConn.receive] at hpos ⊢
  rw [Mem.blit_lt _ _ (by omega)]
  exact h.uncr hpos

theorem cut_receive {c : HttpConn} {k : Nat} (hk : c.checkedIdx + k ≤ c.readIdx) (h2 : 2 ≤ k)
    (x : List Byte) : (c.receive x).cut k = (c.cut k).receive x := by
  have h₁ : c.checkedIdx + k - 2 < c.readIdx := by omega
  have h₂ : c.checkedIdx + k - 1 < (c.put (c.checkedIdx + k - 2) 0).readIdx := by
    simp only [put]; omega
  simp only [cut]
  rw [show (c.receive x).checkedIdx = c.checkedIdx from rfl, put_receive h₁, put_receive h₂]
  rfl

/-- What `parse_line` leaves unchecked. -/
theorem unchecked_advance {c : HttpConn} {k : Nat} (hk : c.checkedIdx + k ≤ c.readIdx) :
    (c.advance k).unchecked = c.unchecked.drop k := by
  have hsplit := Mem.slice_append c.readBuf c.checkedIdx k (c.readIdx - (c.checkedIdx + k))
  rw [show k + (c.readIdx - (c.checkedIdx + k)) = c.readIdx - c.checkedIdx by omega] at hsplit
  rw [unchecked, unchecked, hsplit]
  simp [advance]

theorem unchecked_cut {c : HttpConn} {k : Nat} (hk : c.checkedIdx + k ≤ c.readIdx) (h2 : 2 ≤ k) :
    (c.cut k).unchecked = c.unchecked.drop k := by
  rw [← unchecked_advance hk]
  refine Mem.slice_congr fun i hi _ => ?_
  simp only [cut, put, advance] at hi ⊢
  rw [Mem.put_ne _ _ (by omega), Mem.put_ne _ _ (by omega)]

theorem scanLine_unchecked_le {c : HttpConn} (h : c.checkedIdx ≤ c.readIdx) :
    c.checkedIdx + (scanLine c.unchecked).2 ≤ c.readIdx := by
  have := scanLine_le c.unchecked
  rw [length_unchecked] at this
  omega

/-- Where the cursor comes to without ending a line there is no CR in front of it. -/
theorem uncr_advance {c : HttpConn} (huncr : 0 < c.checkedIdx → c.readBuf (c.checkedIdx - 1) ≠ cr)
    (hno : (scanLine c.unchecked).1 ≠ .lineOk) :
    0 < (c.advance (scanLine c.unchecked).2).checkedIdx →
      (c.advance (scanLine c.unchecked).2).readBuf ((c.advance (scanLine c.unchecked).2).checkedIdx - 1) ≠
        cr := by
  intro hpos
  by_cases hz : (scanLine c.unchecked).2 = 0
  · rw [hz] at hpos ⊢
    exact huncr hpos
  · have hle := scanLine_le c.unchecked
    have hlt : (scanLine c.unchecked).2 - 1 < (c.unchecked.take (scanLine c.unchecked).2).length := by
      rw [List.length_take]
      omega
    have hlast := scanLine_passed hno _ (List.getElem_mem hlt)
    rw [List.getElem_take] at hlast
    simp only [unchecked, Mem.slice_getElem] at hlast
    have hidx : c.checkedIdx + (scanLine c.unchecked).2 - 1 =
        c.checkedIdx + ((scanLine c.unchecked).2 - 1) := by omega
    show c.readBuf (c.checkedIdx + (scanLine c.unchecked).2 - 1) ≠ cr
    rw [hidx]
    exact hlast.1

/-- Bytes that arrive later do not change a line that has ended; for one that has not, it is all the
    same whether `parse_line` was called before they came. -/
theorem parseLine_receive {c : HttpConn} (h : c.Ready) (x : List Byte) :
    (c.parseLine.1 = .lineOk →
      (c.receive x).parseLine = (.lineOk, c.parseLine.2.receive x)) ∧
    (c.parseLine.1 ≠ .lineOk →
      c.parseLine.2.Ready ∧ (c.receive x).parseLine = (c.parseLine.2.receive x).parseLine) := by
  have hle := scanLine_unchecked_le h.within
  rw [parseLine_eq h, parseLine_eq (h.receive x), unchecked_receive h.within, scanLine_append]
  constructor
  · intro hok
    simp only at hok
    obtain ⟨line, rest, -, hlen, -⟩ := scanLine_ok hok
    simp only [hok, if_true]
    rw [cut_receive hle (by omega)]
  · intro hno
    simp only at hno
    have hready : (c.advance (scanLine c.unchecked).2).Ready :=
      ⟨Nat.le_add_right_of_le h.ordered, hle, uncr_advance h.uncr hno⟩
    refine ⟨by simpa only [if_neg hno] using hready, ?_⟩
    simp only [if_neg hno]
    rw [parseLine_eq (hready.receive x), unchecked_receive hready.within, unchecked_advance hle]
    simp only [← advance_cut, ← advance_advance]
    rfl

end HttpConn

end Http
end LinuxServer
