import LinuxServer.Http.Lines
import Mathlib.Data.Nat.Find

/-!
# `Http/Resume.lean` — `parse_line`, called again as the buffer fills

A line may come in any number of parts, with a cut between its CR and its LF as well. `parse_line` is called
after each part until it returns something else than `LINE_OPEN`, and it goes on from where it was left: at the
first byte that ends a line, or at the end of what there is. A CR that is the last byte is not passed, so the
branch that looks back for one is never taken (`Ready`), and the calls come to what one call comes to that has
all the bytes in front of it (`parseLine_resumable`).

Which byte that is, in the buffer, is `Ending`.
-/

set_option autoImplicit false

namespace LinuxServer
namespace Http

/-! ## Words -/

/-- A status that is not `LINE_OPEN` stands, whatever follows. -/
theorem scanLine_closed_append {w : List Byte} (h : (scanLine w).1 ≠ .lineOpen) (x : List Byte) :
    scanLine (w ++ x) = scanLine w := by
  induction w with
  | nil => exact absurd rfl h
  | cons b w ih =>
    by_cases hcr : b = cr
    · cases w with
      | nil => exact absurd (by rw [scanLine, if_pos hcr]; rfl) h
      | cons b' w =>
        rw [List.cons_append, scanLine, scanLine, if_pos hcr, if_pos hcr]
        rfl
    · by_cases hlf : b = lf
      · rw [List.cons_append, scanLine, scanLine, if_neg hcr, if_neg hcr, if_pos hlf, if_pos hlf]
      · rw [scanLine_cons hcr hlf] at h
        rw [List.cons_append, scanLine_cons hcr hlf, scanLine_cons hcr hlf, ih h]

/-- Bytes that end no line are passed. -/
theorem scanLine_pass {v : List Byte} (hv : ∀ b ∈ v, b ≠ cr ∧ b ≠ lf) (w : List Byte) :
    scanLine (v ++ w) = ((scanLine w).1, v.length + (scanLine w).2) := by
  induction v with
  | nil => rw [List.nil_append, List.length_nil, Nat.zero_add]
  | cons b v ih =>
    obtain ⟨hcr, hlf⟩ := hv b List.mem_cons_self
    rw [List.cons_append, scanLine_cons hcr hlf, ih fun b' hb' => hv b' (List.mem_cons_of_mem b hb'),
      List.length_cons, Nat.add_right_comm]

namespace HttpConn

/-- The connection when `m_read_idx` is `n`. -/
def upTo (c : HttpConn) (n : Nat) : HttpConn := { c with readIdx := n }

/-- `parse_line`, called after each growth of `m_read_idx` until it stops returning `LINE_OPEN`. -/
def resume (c : HttpConn) : List Nat → LineStatus × HttpConn
  | [] => (.lineOpen, c)
  | n :: ns =>
    let (status, c) := (c.upTo n).parseLine
    if status = .lineOpen then c.resume ns else (status, c)

/-- The beginning of a line: that of the buffer, or right behind the two NULs of a line that was cut. -/
def LineStart (c : HttpConn) : Prop :=
  c.checkedIdx = 0 ∨
    2 ≤ c.checkedIdx ∧ c.readBuf (c.checkedIdx - 2) = 0 ∧ c.readBuf (c.checkedIdx - 1) = 0

/-- The first CR or LF at or behind the cursor, among the first `n` bytes, is at `i`. -/
structure Ending (c : HttpConn) (n i : Nat) : Prop where
  from_ : c.checkedIdx ≤ i
  below : i < n
  ends : c.readBuf i = cr ∨ c.readBuf i = lf
  first : ∀ j, c.checkedIdx ≤ j → j < i → c.readBuf j ≠ cr ∧ c.readBuf j ≠ lf

/-- A CR at `i`, and the LF right behind it. -/
def CrLf (c : HttpConn) (n i : Nat) : Prop :=
  c.readBuf i = cr ∧ i + 1 < n ∧ c.readBuf (i + 1) = lf

/-- A bare LF at `i`, or a CR followed by another byte. -/
def Bare (c : HttpConn) (n i : Nat) : Prop :=
  c.readBuf i = lf ∨ c.readBuf i = cr ∧ i + 1 < n ∧ c.readBuf (i + 1) ≠ lf

section
variable {c : HttpConn} {n N i : Nat} {ns : List Nat}

/-! ## Where the line ends -/

/-- The bytes in front of `i` are passed, and it is looked at what is there. -/
theorem scanLine_upTo (hending : c.Ending n i) :
    scanLine (c.upTo n).unchecked =
      ((scanLine (c.readBuf.slice i (n - i))).1,
        i - c.checkedIdx + (scanLine (c.readBuf.slice i (n - i))).2) := by
  obtain ⟨hfrom, hbelow, -, hfirst⟩ := hending
  have hsplit := Mem.slice_append c.readBuf c.checkedIdx (i - c.checkedIdx) (n - i)
  rw [show i - c.checkedIdx + (n - i) = n - c.checkedIdx by omega,
    show c.checkedIdx + (i - c.checkedIdx) = i by omega] at hsplit
  have hplain : ∀ b ∈ c.readBuf.slice c.checkedIdx (i - c.checkedIdx), b ≠ cr ∧ b ≠ lf := by
    intro b hb
    obtain ⟨j, hj, rfl⟩ := List.getElem_of_mem hb
    rw [Mem.slice_getElem]
    rw [Mem.length_slice] at hj
    exact hfirst _ (Nat.le_add_right _ _) (by omega)
  show scanLine (c.readBuf.slice c.checkedIdx (n - c.checkedIdx)) = _
  rw [hsplit, scanLine_pass hplain, Mem.length_slice]

/-- A CR and an LF. -/
theorem scanLine_crLf (hending : c.Ending n i) (hcrlf : c.CrLf n i) :
    scanLine (c.upTo n).unchecked = (.lineOk, i - c.checkedIdx + 2) := by
  obtain ⟨hcr, hnext, hlf⟩ := hcrlf
  rw [scanLine_upTo hending, show n - i = n - (i + 2) + 1 + 1 by omega, Mem.slice, Mem.slice, hcr, hlf]
  rfl

theorem scanLine_bare (hending : c.Ending n i) (hbare : c.Bare n i) :
    scanLine (c.upTo n).unchecked = (.lineBad, i - c.checkedIdx) := by
  have hbelow := hending.below
  rw [scanLine_upTo hending]
  rcases hbare with hlf | ⟨hcr, hnext, hother⟩
  · rw [show n - i = n - (i + 1) + 1 by omega, Mem.slice, hlf]
    rfl
  · rw [show n - i = n - (i + 2) + 1 + 1 by omega, Mem.slice, Mem.slice, hcr, scanLine, if_pos rfl, lineEnd,
      if_neg hother]
    rfl

/-- A CR that is the last byte there is. -/
theorem scanLine_last (hending : c.Ending n i) (hcr : c.readBuf i = cr) (hlast : i + 1 = n) :
    scanLine (c.upTo n).unchecked = (.lineOpen, i - c.checkedIdx) := by
  rw [scanLine_upTo hending, show n - i = 0 + 1 by omega, Mem.slice, hcr]
  rfl

/-- No byte ends a line. -/
theorem scanLine_none (hnone : ∀ i, ¬ c.Ending n i) :
    scanLine (c.upTo n).unchecked = (.lineOpen, n - c.checkedIdx) := by
  have hplain : ∀ b ∈ (c.upTo n).unchecked, b ≠ cr ∧ b ≠ lf := by
    by_contra hsome
    -- then there is a first one
    have hex : ∃ j, c.checkedIdx ≤ j ∧ j < n ∧ (c.readBuf j = cr ∨ c.readBuf j = lf) := by
      push Not at hsome
      obtain ⟨b, hb, hends⟩ := hsome
      obtain ⟨j, hj, rfl⟩ := List.getElem_of_mem hb
      rw [length_unchecked] at hj
      have hget : (c.upTo n).unchecked[j] = c.readBuf (c.checkedIdx + j) := Mem.slice_getElem ..
      rw [hget] at hends
      have hbelow : j < n - c.checkedIdx := hj
      exact ⟨c.checkedIdx + j, Nat.le_add_right _ _, by omega, or_iff_not_imp_left.mpr hends⟩
    obtain ⟨hfrom, hbelow, hends⟩ := Nat.find_spec hex
    refine hnone (Nat.find hex) ⟨hfrom, hbelow, hends, fun j hj hlt => ?_⟩
    exact not_or.mp fun hor => Nat.find_min hex hlt ⟨hj, by omega, hor⟩
  have hpass := scanLine_pass hplain []
  rw [List.append_nil, length_unchecked] at hpass
  exact hpass

/-- **The four cases** of a scan. -/
theorem scanLine_cases (c : HttpConn) (n : Nat) :
    (∃ i, c.Ending n i ∧ c.CrLf n i) ∨ (∃ i, c.Ending n i ∧ c.Bare n i) ∨
      (scanLine (c.upTo n).unchecked).1 = .lineOpen := by
  by_cases hsome : ∃ i, c.Ending n i
  · obtain ⟨i, hending⟩ := hsome
    rcases hending.ends with hcr | hlf
    · by_cases hlast : i + 1 = n
      · exact .inr (.inr (by rw [scanLine_last hending hcr hlast]))
      · have hnext : i + 1 < n := by
          have hbelow := hending.below
          omega
        by_cases hlf : c.readBuf (i + 1) = lf
        · exact .inl ⟨i, hending, hcr, hnext, hlf⟩
        · exact .inr (.inl ⟨i, hending, .inr ⟨hcr, hnext, hlf⟩⟩)
    · exact .inr (.inl ⟨i, hending, .inl hlf⟩)
  · exact .inr (.inr (by rw [scanLine_none (not_exists.mp hsome)]))

theorem scanLine_lineOk_iff :
    (scanLine (c.upTo n).unchecked).1 = .lineOk ↔ ∃ i, c.Ending n i ∧ c.CrLf n i := by
  constructor
  · intro hok
    rcases scanLine_cases c n with hcrlf | ⟨i, hending, hbare⟩ | hopen
    · exact hcrlf
    · rw [scanLine_bare hending hbare] at hok
      cases hok
    · rw [hopen] at hok
      cases hok
  · rintro ⟨i, hending, hcrlf⟩
    rw [scanLine_crLf hending hcrlf]

theorem scanLine_lineBad_iff :
    (scanLine (c.upTo n).unchecked).1 = .lineBad ↔ ∃ i, c.Ending n i ∧ c.Bare n i := by
  constructor
  · intro hbad
    rcases scanLine_cases c n with ⟨i, hending, hcrlf⟩ | hbare | hopen
    · rw [scanLine_crLf hending hcrlf] at hbad
      cases hbad
    · exact hbare
    · rw [hopen] at hbad
      cases hbad
  · rintro ⟨i, hending, hbare⟩
    rw [scanLine_bare hending hbare]

/-! ## The calls -/

/-- A call, whatever `m_start_line` is. -/
theorem parseLine_upTo (hn : c.checkedIdx ≤ n)
    (huncr : 0 < c.checkedIdx → c.readBuf (c.checkedIdx - 1) ≠ cr) :
    (c.upTo n).parseLine = ((scanLine (c.upTo n).unchecked).1,
      if (scanLine (c.upTo n).unchecked).1 = .lineOk then (c.upTo n).cut (scanLine (c.upTo n).unchecked).2
      else (c.upTo n).advance (scanLine (c.upTo n).unchecked).2) :=
  parseLineLoop_eq _ rfl hn huncr

theorem unchecked_upTo (hn : c.checkedIdx ≤ n) (hN : n ≤ N) :
    (c.upTo N).unchecked = (c.upTo n).unchecked ++ c.readBuf.slice n (N - n) := by
  have hsplit := Mem.slice_append c.readBuf c.checkedIdx (n - c.checkedIdx) (N - n)
  rw [show n - c.checkedIdx + (N - n) = N - c.checkedIdx by omega,
    show c.checkedIdx + (n - c.checkedIdx) = n by omega] at hsplit
  exact hsplit

/-- A call that comes to a status that stands. -/
theorem parseLine_closed (hn : c.checkedIdx ≤ n) (hN : n ≤ N)
    (huncr : 0 < c.checkedIdx → c.readBuf (c.checkedIdx - 1) ≠ cr)
    (hclosed : (c.upTo n).parseLine.1 ≠ .lineOpen) :
    (c.upTo N).parseLine = ((c.upTo n).parseLine.1, (c.upTo n).parseLine.2.upTo N) := by
  rw [parseLine_upTo hn huncr] at hclosed ⊢
  rw [parseLine_upTo (Nat.le_trans hn hN) huncr, unchecked_upTo hn hN, scanLine_closed_append hclosed]
  split
  · rfl
  · rfl

/-- A call that comes to the end of what there is: the next one goes on from there. -/
theorem parseLine_open (hn : c.checkedIdx ≤ n) (hN : n ≤ N)
    (huncr : 0 < c.checkedIdx → c.readBuf (c.checkedIdx - 1) ≠ cr)
    (hopen : (c.upTo n).parseLine.1 = .lineOpen) :
    ∃ k, (c.upTo n).parseLine.2 = (c.upTo n).advance k ∧ c.checkedIdx + k ≤ n ∧
      (0 < (c.advance k).checkedIdx → (c.advance k).readBuf ((c.advance k).checkedIdx - 1) ≠ cr) ∧
      (c.upTo N).parseLine = ((c.advance k).upTo N).parseLine := by
  rw [parseLine_upTo hn huncr] at hopen
  have hno : (scanLine (c.upTo n).unchecked).1 ≠ .lineOk := by
    rw [show (scanLine (c.upTo n).unchecked).1 = .lineOpen from hopen]
    exact fun heq => by cases heq
  have hk := scanLine_unchecked_le (c := c.upTo n) hn
  have huncr' := uncr_advance (c := c.upTo n) huncr hno
  refine ⟨(scanLine (c.upTo n).unchecked).2, ?_, hk, huncr', ?_⟩
  · rw [parseLine_upTo hn huncr, if_neg hno]
  · have hdrop : ((c.advance (scanLine (c.upTo n).unchecked).2).upTo N).unchecked =
        (c.upTo n).unchecked.drop (scanLine (c.upTo n).unchecked).2 ++ c.readBuf.slice n (N - n) := by
      rw [unchecked_upTo hk hN]
      exact congrArg (· ++ c.readBuf.slice n (N - n)) (unchecked_advance (c := c.upTo n) hk)
    rw [parseLine_upTo (Nat.le_trans hn hN) huncr,
      parseLine_upTo (c := c.advance (scanLine (c.upTo n).unchecked).2) (Nat.le_trans hk hN) huncr',
      unchecked_upTo hn hN, scanLine_append, if_neg hno, hdrop]
    show _ = (_, if _ then ((c.upTo N).advance _).cut _ else ((c.upTo N).advance _).advance _)
    rw [advance_cut, advance_advance]

/-- **The calls** come to what one call comes to at the end. -/
theorem resume_eq (huncr : 0 < c.checkedIdx → c.readBuf (c.checkedIdx - 1) ≠ cr)
    (hgrows : (c.checkedIdx :: (ns ++ [N])).Pairwise (· ≤ ·)) :
    (c.resume (ns ++ [N])).1 = (c.upTo N).parseLine.1 ∧
      (c.resume (ns ++ [N])).2.upTo N = (c.upTo N).parseLine.2 := by
  induction ns generalizing c with
  | nil =>
    have hN : c.checkedIdx ≤ N := List.rel_of_pairwise_cons hgrows List.mem_cons_self
    have hsame : (c.upTo N).parseLine.2.upTo N = (c.upTo N).parseLine.2 := by
      rw [parseLine_upTo hN huncr]
      split <;> rfl
    simp only [List.nil_append, resume]
    split
    · rename_i hopen
      exact ⟨hopen.symm, hsame⟩
    · exact ⟨rfl, hsame⟩
  | cons n ns ih =>
    obtain ⟨hfrom, hgrows⟩ := List.pairwise_cons.mp hgrows
    have hn : c.checkedIdx ≤ n := hfrom n List.mem_cons_self
    have hN : n ≤ N := List.rel_of_pairwise_cons hgrows (List.mem_append_right ns List.mem_cons_self)
    simp only [List.cons_append, resume]
    split
    · rename_i hopen
      obtain ⟨k, hnext, hk, huncr', heq⟩ := parseLine_open hn hN huncr hopen
      rw [hnext, heq]
      refine ih (c := (c.upTo n).advance k) huncr' (List.pairwise_cons.mpr ⟨fun m hm => ?_, ?_⟩)
      · exact Nat.le_trans hk (List.rel_of_pairwise_cons hgrows hm)
      · exact (List.pairwise_cons.mp hgrows).2
    · rename_i hclosed
      rw [parseLine_closed hn hN huncr hclosed]
      exact ⟨rfl, rfl⟩

theorem LineStart.uncr (hstart : c.LineStart) : 0 < c.checkedIdx → c.readBuf (c.checkedIdx - 1) ≠ cr := by
  intro hpos
  rcases hstart with hzero | ⟨-, -, hnul⟩
  · omega
  · rw [hnul]
    decide

/-- **`parse_line` is resumable**, and it splits on CR LF: the calls at the sizes `ns` and `N` come to what
    one call comes to at `N`, which is a line if and only if the first byte that can end one is a CR with an
    LF behind it, and these two are overwritten. -/
theorem parseLine_resumable (hstart : c.LineStart) (hgrows : (c.checkedIdx :: (ns ++ [N])).Pairwise (· ≤ ·)) :
    ((c.resume (ns ++ [N])).1 = (c.upTo N).parseLine.1 ∧
      (c.resume (ns ++ [N])).2.checkedIdx = (c.upTo N).parseLine.2.checkedIdx ∧
      (c.resume (ns ++ [N])).2.readBuf = (c.upTo N).parseLine.2.readBuf) ∧
    ((c.upTo N).parseLine.1 = .lineOk ↔ ∃ i, c.Ending N i ∧ c.CrLf N i) ∧
    (∀ i, c.Ending N i → c.CrLf N i → (c.upTo N).parseLine.2.checkedIdx = i + 2 ∧
      ∀ j, (c.upTo N).parseLine.2.readBuf j = if j = i ∨ j = i + 1 then 0 else c.readBuf j) ∧
    ((c.upTo N).parseLine.1 = .lineBad ↔ ∃ i, c.Ending N i ∧ c.Bare N i) ∧
    ((c.upTo N).parseLine.1 ≠ .lineOk → (c.upTo N).parseLine.2.readBuf = c.readBuf) := by
  have hN : c.checkedIdx ≤ N := List.rel_of_pairwise_cons hgrows (List.mem_append_right ns List.mem_cons_self)
  obtain ⟨hstatus, hconn⟩ := resume_eq hstart.uncr hgrows
  refine ⟨⟨hstatus, (congrArg checkedIdx hconn :), (congrArg readBuf hconn :)⟩, ?_⟩
  rw [parseLine_upTo hN hstart.uncr]
  refine ⟨scanLine_lineOk_iff, fun i hending hcrlf => ?_, scanLine_lineBad_iff, fun hno => ?_⟩
  · have hfrom := hending.from_
    rw [scanLine_crLf hending hcrlf, if_pos rfl]
    have hcr : (c.upTo N).checkedIdx + (i - c.checkedIdx + 2) - 2 = i := by
      show c.checkedIdx + (i - c.checkedIdx + 2) - 2 = i
      omega
    have hlf : (c.upTo N).checkedIdx + (i - c.checkedIdx + 2) - 1 = i + 1 := by
      show c.checkedIdx + (i - c.checkedIdx + 2) - 1 = i + 1
      omega
    refine ⟨?_, fun j => ?_⟩
    · show c.checkedIdx + (i - c.checkedIdx + 2) = i + 2
      omega
    · show ((c.readBuf.put _ 0).put _ 0) j = _
      rw [hcr, hlf]
      by_cases hj : j = i + 1
      · rw [if_pos (.inr hj), hj, Mem.put_self]
      · rw [Mem.put_ne _ _ hj]
        by_cases hi : j = i
        · rw [if_pos (.inl hi), hi, Mem.put_self]
        · rw [if_neg (not_or.mpr ⟨hi, hj⟩), Mem.put_ne _ _ hi]
  · rw [if_neg hno]
    rfl

/-- The line `a`, cut between its CR and its LF. -/
theorem parseLine_resumable_cut : ∃ c : HttpConn, c.LineStart ∧
    (c.resume ([2, 3] ++ [4])).1 = .lineOk ∧ (c.resume ([2, 3] ++ [4])).2.checkedIdx = 3 := by
  let c : HttpConn := (default : HttpConn).init.receive (bytes "a\r\nb")
  obtain ⟨⟨hstatus, hchecked, -⟩, -⟩ := parseLine_resumable (c := c) (.inl rfl)
    (show (c.checkedIdx :: ([2, 3] ++ [4])).Pairwise (· ≤ ·) by decide)
  exact ⟨c, .inl rfl, hstatus.trans (by decide), hchecked.trans (by decide)⟩

end

end HttpConn
end Http
end LinuxServer
