import LinuxServer.Http.Receive

/-!
# `Http/ReadLoop.lean` — the loop of `process_read`, turn by turn

First that it ends: a turn either takes bytes off the unchecked ones or is the one that enters the
body, so the fuel of `readLoop` is always enough, and `readLoop_eq` unfolds a turn without it.

Then what a turn does to a connection that stands at the beginning of a line, `AtLine`: where the
line has not ended it returns `NO_REQUEST`, and otherwise it parses the line, and whatever it
answers is the same, but for the bytes behind, when more has been received.
-/

set_option autoImplicit false

namespace LinuxServer
namespace Http
namespace HttpConn

/-! ## The loop ends -/

/-- The cursors into the input are where they were. -/
def SameCursors (c c' : HttpConn) : Prop := c'.readIdx = c.readIdx ∧ c'.checkedIdx = c.checkedIdx

section
variable {c c' : HttpConn} {p : Nat} {r : HttpCode}

/-- What a call leaves of the cursors and of the state: all of it, or all but that the headers are next. -/
structure Handled (c c' : HttpConn) : Prop where
  readIdx : c'.readIdx = c.readIdx
  checkedIdx : c'.checkedIdx = c.checkedIdx
  startLine : c'.startLine = c.startLine
  state : c'.checkState = c.checkState ∨ c'.checkState = .header

theorem Handled.cursors (h : Handled c c') : SameCursors c c' := ⟨h.readIdx, h.checkedIdx⟩

theorem judge_handled (h : c.judge p = .ok c') : Handled c c' := by
  simp only [judge, strcat] at h
  split at h
  · split at h <;> cases h
    exact ⟨rfl, rfl, rfl, .inl rfl⟩
  · cases h; exact ⟨rfl, rfl, rfl, .inl rfl⟩

theorem parseUrl_handled (h : c.parseUrl p = .ok (r, c')) : Handled c c' := by
  obtain ⟨u, -, h⟩ := bind_eq_ok.mp h
  obtain ⟨v, -, h⟩ := bind_eq_ok.mp h
  cases v with
  | none => cases h; exact ⟨rfl, rfl, rfl, .inl rfl⟩
  | some v =>
    simp only at h
    split at h
    · cases h; exact ⟨rfl, rfl, rfl, .inl rfl⟩
    · obtain ⟨c₂, hc₂, h⟩ := bind_eq_ok.mp h
      cases h
      have hjudge := judge_handled hc₂
      exact ⟨hjudge.readIdx, hjudge.checkedIdx, hjudge.startLine, .inr rfl⟩

theorem parseVersion_handled (h : c.parseVersion p = .ok (r, c')) : Handled c c' := by
  simp only [parseVersion] at h
  split at h
  · cases h; exact ⟨rfl, rfl, rfl, .inl rfl⟩
  · split at h
    · have hurl := parseUrl_handled h
      exact ⟨hurl.readIdx, hurl.checkedIdx, hurl.startLine, hurl.state⟩
    · cases h; exact ⟨rfl, rfl, rfl, .inl rfl⟩

theorem parseRequestLine_handled (h : c.parseRequestLine p = .ok (r, c')) : Handled c c' := by
  simp only [parseRequestLine] at h
  split at h
  · cases h; exact ⟨rfl, rfl, rfl, .inl rfl⟩
  · split at h
    · have hversion := parseVersion_handled h
      exact ⟨hversion.readIdx, hversion.checkedIdx, hversion.startLine, hversion.state⟩
    · split at h
      · have hversion := parseVersion_handled h
        exact ⟨hversion.readIdx, hversion.checkedIdx, hversion.startLine, hversion.state⟩
      · cases h; exact ⟨rfl, rfl, rfl, .inl rfl⟩

/-- A header line may have the body begin. -/
theorem parseHeaders_handled : SameCursors c (c.parseHeaders p).2 ∧
    (c.parseHeaders p).2.startLine = c.startLine := by
  simp only [parseHeaders]
  repeat' split
  all_goals exact ⟨⟨rfl, rfl⟩, rfl⟩

/-- **`parse_content`** ends the body with a NUL when it has been received, and does nothing before. -/
theorem parseContent_cases (h : c.parseContent p = .ok (r, c')) :
    (r = .getRequest ∧ c' = { c.put (p + c.contentLength).toNat 0 with string := some p }) ∨
      (r = .noRequest ∧ c' = c ∧ (c.readIdx : Int) < c.contentLength + c.checkedIdx) := by
  simp only [parseContent] at h
  split at h
  · cases h
  · split at h
    · split at h
      · cases h
        exact .inl ⟨rfl, rfl⟩
      · cases h
    · rename_i hshort
      cases h
      exact .inr ⟨rfl, rfl, by omega⟩

theorem parseContent_handled (h : c.parseContent p = .ok (r, c')) : Handled c c' := by
  rcases parseContent_cases h with ⟨-, rfl⟩ | ⟨-, rfl, -⟩
  · exact ⟨rfl, rfl, rfl, .inl rfl⟩
  · exact ⟨rfl, rfl, rfl, .inl rfl⟩

/-- A line that has ended has taken bytes off the unchecked ones. -/
theorem parseLineLoop_lineOk : ∀ (n : Nat) {c : HttpConn}, n = c.readIdx - c.checkedIdx →
    (parseLineLoop n c).1 = .lineOk →
    c.checkedIdx < (parseLineLoop n c).2.checkedIdx ∧
      (parseLineLoop n c).2.checkedIdx ≤ c.readIdx ∧ (parseLineLoop n c).2.readIdx = c.readIdx
  | 0, c, _, h => by cases h
  | n + 1, c, hn, h => by
    rw [parseLineLoop] at h ⊢
    by_cases hcr : c.readBuf c.checkedIdx = cr
    · simp only [if_pos hcr] at h ⊢
      by_cases hlast : c.checkedIdx + 1 = c.readIdx
      · rw [if_pos hlast] at h; cases h
      · by_cases hlf : c.readBuf (c.checkedIdx + 1) = lf
        · simp only [if_neg hlast, if_pos hlf, put]
          exact ⟨by omega, by omega, trivial⟩
        · rw [if_neg hlast, if_neg hlf] at h; cases h
    · simp only [if_neg hcr] at h ⊢
      by_cases hlf : c.readBuf c.checkedIdx = lf
      · simp only [if_pos hlf] at h ⊢
        split at h
        · rename_i hprev
          rw [if_pos hprev]
          simp only [put]
          exact ⟨by omega, by omega, trivial⟩
        · cases h
      · simp only [if_neg hlf] at h ⊢
        have ih := parseLineLoop_lineOk n (c := { c with checkedIdx := c.checkedIdx + 1 })
          (by simp only; omega) h
        simp only at ih
        exact ⟨by omega, ih.2⟩

/-- `parse_line` cuts the buffer and moves its cursor. -/
theorem parseLineLoop_writes (n : Nat) : ∀ c : HttpConn, ∃ buf checked,
    (parseLineLoop n c).2 = { c with readBuf := buf, checkedIdx := checked } := by
  induction n with
  | zero =>
    intro c
    exact ⟨c.readBuf, c.checkedIdx, rfl⟩
  | succ n ih =>
    intro c
    rw [parseLineLoop]
    simp only
    split
    · split
      · exact ⟨c.readBuf, c.checkedIdx, rfl⟩
      · split
        · exact ⟨_, _, rfl⟩
        · exact ⟨c.readBuf, c.checkedIdx, rfl⟩
    · split
      · split
        · exact ⟨_, _, rfl⟩
        · exact ⟨c.readBuf, c.checkedIdx, rfl⟩
      · obtain ⟨buf, checked, heq⟩ := ih { c with checkedIdx := c.checkedIdx + 1 }
        exact ⟨buf, checked, heq⟩

theorem parseLine_writes (c : HttpConn) : ∃ buf checked,
    c.parseLine.2 = { c with readBuf := buf, checkedIdx := checked } := parseLineLoop_writes _ c

end

/-! A turn by its cases. -/

theorem readStep_body {c : HttpConn} {lineStatus : LineStatus}
    (h : c.checkState = .content ∧ lineStatus = .lineOk) :
    readStep (c, lineStatus) = { c with startLine := c.checkedIdx }.checkText c.startLine := by
  simp only [readStep]
  rw [if_pos h, if_neg (not_not.mpr h.2)]

theorem readStep_open {c : HttpConn} {lineStatus : LineStatus}
    (h : ¬ (c.checkState = .content ∧ lineStatus = .lineOk)) (hline : c.parseLine.1 ≠ .lineOk) :
    readStep (c, lineStatus) = .ok (.inl (.ret .noRequest, c.parseLine.2)) := by
  simp only [readStep]
  rw [if_neg h, if_pos hline]

theorem readStep_line {c c' : HttpConn} {lineStatus : LineStatus}
    (h : ¬ (c.checkState = .content ∧ lineStatus = .lineOk)) (hline : c.parseLine = (.lineOk, c')) :
    readStep (c, lineStatus) = { c' with startLine := c'.checkedIdx }.checkText c'.startLine := by
  simp only [readStep]
  rw [if_neg h, hline]
  rfl

/-- The three of them: a text of the body; no line; a line. -/
theorem readStep_split (c : HttpConn) (lineStatus : LineStatus) :
    (c.checkState = .content ∧ lineStatus = .lineOk) ∧
      readStep (c, lineStatus) = { c with startLine := c.checkedIdx }.checkText c.startLine ∨
    ¬ (c.checkState = .content ∧ lineStatus = .lineOk) ∧ c.parseLine.1 ≠ .lineOk ∧
      readStep (c, lineStatus) = .ok (.inl (.ret .noRequest, c.parseLine.2)) ∨
    ¬ (c.checkState = .content ∧ lineStatus = .lineOk) ∧ c.parseLine.1 = .lineOk ∧
      readStep (c, lineStatus) =
        { c.parseLine.2 with startLine := c.parseLine.2.checkedIdx }.checkText c.parseLine.2.startLine := by
  by_cases hbody : c.checkState = .content ∧ lineStatus = .lineOk
  · exact .inl ⟨hbody, readStep_body hbody⟩
  · by_cases hline : c.parseLine.1 = .lineOk
    · have hparse : c.parseLine = (.lineOk, c.parseLine.2) := by rw [← hline]
      exact .inr (.inr ⟨hbody, hline, readStep_line hbody hparse⟩)
    · exact .inr (.inl ⟨hbody, hline, readStep_open hbody hline⟩)

/-- A turn that calls `parse_line` depends on what it answers only. -/
theorem readStep_congr {c c' : HttpConn} {lineStatus : LineStatus}
    (h : ¬ (c.checkState = .content ∧ lineStatus = .lineOk))
    (h' : ¬ (c'.checkState = .content ∧ lineStatus = .lineOk)) (hline : c.parseLine = c'.parseLine) :
    readStep (c, lineStatus) = readStep (c', lineStatus) := by
  simp only [readStep]
  rw [if_neg h, if_neg h', hline]

/-- Twice the unchecked bytes, and one for a body that has not been looked at. -/
def readMeasure : HttpConn × LineStatus → Nat
  | (c, lineStatus) => 2 * (c.readIdx - c.checkedIdx) +
    if c.checkState = .content ∧ lineStatus = .lineOk then 1 else 0

/-- The `switch` leaves the cursors alone, whether or not it is the last. -/
theorem checkText_handled {c c' : HttpConn} {p : Nat} {r : (ReadExit × HttpConn) ⊕ (HttpConn × LineStatus)}
    (h : c.checkText p = .ok r) (hr : c' = r.elim Prod.snd Prod.fst) :
    SameCursors c c' ∧ c'.startLine = c.startLine := by
  simp only [checkText] at h
  split at h
  · obtain ⟨⟨code, c₂⟩, hc, h⟩ := bind_eq_ok.mp h
    have hparsed := parseRequestLine_handled hc
    simp only at h
    split at h <;> cases h <;> subst hr
    all_goals exact ⟨hparsed.cursors, hparsed.startLine⟩
  · have hparsed := parseHeaders_handled (c := c) (p := p)
    split at h <;> cases h <;> subst hr
    all_goals exact hparsed
  · obtain ⟨⟨code, c₂⟩, hc, h⟩ := bind_eq_ok.mp h
    have hparsed := parseContent_handled hc
    simp only at h
    split at h <;> cases h <;> subst hr
    all_goals exact ⟨hparsed.cursors, hparsed.startLine⟩

theorem checkText_cursors {c c' : HttpConn} {p : Nat} {lineStatus : LineStatus}
    (h : c.checkText p = .ok (.inr (c', lineStatus))) : SameCursors c c' := (checkText_handled h rfl).1

/-- A text of the body. -/
theorem checkText_body {c : HttpConn} (hs : c.checkState = .content) (text : Nat) :
    c.checkText text = (do
      let (ret, c) ← c.parseContent text
      if ret = .getRequest then return .inl (.doRequest, c) else return .inr (c, .lineOpen)) := by
  rw [checkText, hs]

/-- After a text of the body the next turn looks for a line. -/
theorem checkText_content {c c' : HttpConn} {p : Nat} {lineStatus : LineStatus}
    (hs : c.checkState = .content) (h : c.checkText p = .ok (.inr (c', lineStatus))) :
    lineStatus = .lineOpen := by
  simp only [checkText, hs] at h
  obtain ⟨⟨r, c₂⟩, -, h⟩ := bind_eq_ok.mp h
  simp only at h
  split at h <;> cases h
  rfl

theorem readStep_decreasing : Decreasing readStep readMeasure := by
  rintro ⟨c, lineStatus⟩ ⟨c', lineStatus'⟩ h
  rcases readStep_split c lineStatus with ⟨⟨hs, rfl⟩, hstep⟩ | ⟨-, -, hstep⟩ | ⟨hbody, hline, hstep⟩
  · -- the body, before any line of it
    rw [hstep] at h
    obtain ⟨hread, hchecked⟩ := checkText_cursors h
    have hopen := checkText_content (by exact hs) h
    simp only [readMeasure, hs, hopen, and_self, if_true, reduceCtorEq, and_false, if_false]
    simp only at hread hchecked
    omega
  · cases hstep.symm.trans h
  · obtain ⟨hlt, hle, hread⟩ := parseLineLoop_lineOk _ (c := c) rfl hline
    rw [hstep] at h
    obtain ⟨hread', hchecked'⟩ := checkText_cursors h
    simp only [readMeasure, if_neg hbody]
    rw [show parseLineLoop _ c = c.parseLine from rfl] at hlt hle hread
    simp only at hread' hchecked'
    split <;> omega

/-- The loop from any turn on, with fuel enough. -/
def readFrom (s : HttpConn × LineStatus) : Except Fault (ReadExit × HttpConn) :=
  whileLoop readStep (readMeasure s + 1) s

theorem readFrom_eq (s : HttpConn × LineStatus) :
    readFrom s =
      match readStep s with
      | .error f => .error f
      | .ok (.inl a) => .ok a
      | .ok (.inr s') => readFrom s' := by
  rw [readFrom, whileLoop_eq readStep_decreasing (Nat.lt_succ_self _)]
  cases hs : readStep s with
  | error f => rfl
  | ok r =>
    cases r with
    | inl a => rfl
    | inr s' =>
      have := readStep_decreasing hs
      exact whileLoop_fuel readStep_decreasing (by omega) (Nat.lt_succ_self _)

/-- A turn that goes on. -/
theorem readFrom_next {s s' : HttpConn × LineStatus} (h : readStep s = .ok (.inr s')) :
    readFrom s = readFrom s' := by
  rw [readFrom_eq, h]

/-- The fuel of `readLoop` is enough. -/
theorem readLoop_eq (c : HttpConn) : c.readLoop = readFrom (c, .lineOk) := by
  refine whileLoop_fuel readStep_decreasing ?_ (Nat.lt_succ_self _)
  simp only [readMeasure]
  split <;> omega

end HttpConn
end Http
end LinuxServer
