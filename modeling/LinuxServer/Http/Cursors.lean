import LinuxServer.Http.ReadLoop

/-!
# `Http/Cursors.lean` — the cursors of `process_read`

`m_start_line`, `m_checked_idx` and `m_read_idx` are in this order, whatever is in the buffer and whichever
state the parser is in, and `m_checked_idx` only goes up (`cursors_ordered`). A turn of the loop takes bytes
off the unchecked ones, but for the one that makes the first test of a body: that changes no cursor, and is
followed by turns that call `parse_line`. So there are at most two turns a byte, and one more.

`parse_line` reads the byte under the cursor, and the one behind it or before it. With every read tested
against `m_read_idx` it does what it does without (`parseLineChecked_eq`).
-/

set_option autoImplicit false

namespace LinuxServer
namespace Http
namespace HttpConn

/-! ## `parse_line`, with its reads tested -/

/-- `m_read_buf[i]`, where that has been received. -/
def readAt (c : HttpConn) (i : Nat) : Except Fault Byte :=
  if i < c.readIdx then .ok (c.readBuf i) else .error .outOfBounds

/-- `parseLineLoop`, reading by `readAt`. -/
def parseLineLoopChecked : (n : Nat) → HttpConn → Except Fault (LineStatus × HttpConn)
  | 0, c => .ok (.lineOpen, c)
  | n + 1, c => do
    let temp ← c.readAt c.checkedIdx
    if temp = cr then
      if c.checkedIdx + 1 = c.readIdx then return (.lineOpen, c)
      else
        let next ← c.readAt (c.checkedIdx + 1)
        if next = lf then
          return (.lineOk, { (c.put c.checkedIdx 0).put (c.checkedIdx + 1) 0 with
            checkedIdx := c.checkedIdx + 2 })
        else return (.lineBad, c)
    else if temp = lf then
      if 1 < c.checkedIdx then
        let last ← c.readAt (c.checkedIdx - 1)
        if last = cr then
          return (.lineOk, { (c.put (c.checkedIdx - 1) 0).put c.checkedIdx 0 with
            checkedIdx := c.checkedIdx + 1 })
        else return (.lineBad, c)
      else return (.lineBad, c)
    else parseLineLoopChecked n { c with checkedIdx := c.checkedIdx + 1 }

def parseLineChecked (c : HttpConn) : Except Fault (LineStatus × HttpConn) :=
  parseLineLoopChecked (c.readIdx - c.checkedIdx) c

section
variable {c c' : HttpConn}

theorem readAt_of_lt {i : Nat} (h : i < c.readIdx) : c.readAt i = .ok (c.readBuf i) := if_pos h

theorem parseLineLoopChecked_eq (n : Nat) : ∀ {c : HttpConn}, c.checkedIdx + n ≤ c.readIdx →
    parseLineLoopChecked n c = .ok (parseLineLoop n c) := by
  induction n with
  | zero =>
    intro c _
    rfl
  | succ n ih =>
    intro c hn
    have hat := readAt_of_lt (c := c) (i := c.checkedIdx) (by omega)
    have hbefore := readAt_of_lt (c := c) (i := c.checkedIdx - 1) (by omega)
    rw [parseLineLoopChecked, parseLineLoop, hat]
    simp only [bind, Except.bind]
    by_cases hcr : c.readBuf c.checkedIdx = cr
    · rw [if_pos hcr, if_pos hcr]
      by_cases hlast : c.checkedIdx + 1 = c.readIdx
      · rw [if_pos hlast, if_pos hlast]
        rfl
      · rw [if_neg hlast, if_neg hlast, readAt_of_lt (by omega)]
        simp only
        split <;> rfl
    · rw [if_neg hcr, if_neg hcr]
      by_cases hlf : c.readBuf c.checkedIdx = lf
      · rw [if_pos hlf, if_pos hlf, hbefore]
        by_cases hfirst : 1 < c.checkedIdx
        · rw [if_pos hfirst]
          simp only [hfirst, true_and]
          split <;> rfl
        · rw [if_neg hfirst, if_neg (fun hboth => hfirst hboth.1)]
          rfl
      · rw [if_neg hlf, if_neg hlf]
        exact ih (c := { c with checkedIdx := c.checkedIdx + 1 }) (by show c.checkedIdx + 1 + n ≤ c.readIdx; omega)

/-- **`parse_line` reads what has been received**, and nothing behind. -/
theorem parseLineChecked_eq (h : c.checkedIdx ≤ c.readIdx) : c.parseLineChecked = .ok c.parseLine :=
  parseLineLoopChecked_eq _ (by omega)

/-! ## The order of the cursors -/

structure Ordered (c : HttpConn) : Prop where
  start : c.startLine ≤ c.checkedIdx
  checked : c.checkedIdx ≤ c.readIdx
  read : c.readIdx ≤ readBufferSize

/-- From `c` on, the cursor into the lines has gone up, and nothing has been read. -/
structure Advanced (c c' : HttpConn) : Prop where
  ordered : c'.Ordered
  checked : c.checkedIdx ≤ c'.checkedIdx
  read : c'.readIdx = c.readIdx

theorem Advanced.refl (h : c.Ordered) : Advanced c c := ⟨h, Nat.le_refl _, rfl⟩

theorem Advanced.trans {c'' : HttpConn} (h : Advanced c c') (h' : Advanced c' c'') : Advanced c c'' :=
  ⟨h'.ordered, Nat.le_trans h.checked h'.checked, h'.read.trans h.read⟩

theorem parseLineLoop_checked (n : Nat) : ∀ {c : HttpConn}, c.checkedIdx + n ≤ c.readIdx →
    c.checkedIdx ≤ (parseLineLoop n c).2.checkedIdx ∧ (parseLineLoop n c).2.checkedIdx ≤ c.readIdx := by
  induction n with
  | zero =>
    intro c hn
    exact ⟨Nat.le_refl _, hn⟩
  | succ n ih =>
    intro c hn
    rw [parseLineLoop]
    simp only
    split
    · split
      · constructor <;> simp only <;> omega
      · split
        · constructor <;> simp only <;> omega
        · constructor <;> simp only <;> omega
    · split
      · split
        · constructor <;> simp only <;> omega
        · constructor <;> simp only <;> omega
      · obtain ⟨hle, hread⟩ := ih (c := { c with checkedIdx := c.checkedIdx + 1 })
          (by show c.checkedIdx + 1 + n ≤ c.readIdx; omega)
        exact ⟨Nat.le_of_succ_le hle, hread⟩

/-- **`parse_line`** moves its cursor up, as far as what has been received. -/
theorem parseLine_advanced (h : c.Ordered) : Advanced c c.parseLine.2 := by
  have hstart := h.start
  have hchecked := h.checked
  obtain ⟨hle, hread⟩ := parseLineLoop_checked (c.readIdx - c.checkedIdx) (c := c) (by omega)
  change c.checkedIdx ≤ c.parseLine.2.checkedIdx at hle
  change c.parseLine.2.checkedIdx ≤ c.readIdx at hread
  obtain ⟨buf, checked, heq⟩ := parseLine_writes c
  rw [heq] at hle hread ⊢
  exact ⟨⟨Nat.le_trans hstart hle, hread, h.read⟩, hle, rfl⟩

/-- The next line begins at the cursor. -/
theorem Advanced.newLine (h : Advanced c c') {c'' : HttpConn}
    (hparsed : SameCursors { c' with startLine := c'.checkedIdx } c'' ∧ c''.startLine = c'.checkedIdx) :
    Advanced c c'' := by
  obtain ⟨⟨hread, hchecked⟩, hstart⟩ := hparsed
  simp only at hread hchecked
  refine ⟨⟨?_, ?_, ?_⟩, ?_, ?_⟩
  · rw [hstart, hchecked]
  · rw [hchecked, hread]
    exact h.ordered.checked
  · rw [hread]
    exact h.ordered.read
  · rw [hchecked]
    exact h.checked
  · rw [hread, h.read]

/-- **One turn** of the loop, the last one or not. -/
theorem readStep_advanced {lineStatus : LineStatus} {r : (ReadExit × HttpConn) ⊕ (HttpConn × LineStatus)}
    (hc : c.Ordered) (h : readStep (c, lineStatus) = .ok r) : Advanced c (r.elim Prod.snd Prod.fst) := by
  rcases readStep_split c lineStatus with ⟨-, hstep⟩ | ⟨-, -, hstep⟩ | ⟨-, -, hstep⟩
  · rw [hstep] at h
    exact (Advanced.refl hc).newLine (checkText_handled h rfl)
  · rw [hstep] at h
    cases h
    exact parseLine_advanced hc
  · rw [hstep] at h
    exact (parseLine_advanced hc).newLine (checkText_handled h rfl)

/-! ## No turn runs for ever

A call that fails has accessed what it must not, or added what does not fit. -/

variable {f : Fault} {p : Nat}

theorem skipScheme_error {scheme : List Byte} {url : Option Nat} (h : c.skipScheme scheme url = .error f) :
    f = .nullPointer := by
  cases url with
  | none =>
    cases h
    rfl
  | some url =>
    simp only [skipScheme] at h
    split at h <;> cases h

theorem judge_error (h : c.judge p = .error f) : f = .outOfBounds := by
  simp only [judge, strcat] at h
  split at h
  · split at h
    · cases h
    · cases h
      rfl
  · cases h

theorem parseUrl_error (h : c.parseUrl p = .error f) : f ≠ .diverge := by
  rcases bind_eq_error.mp h with hhttp | ⟨u, -, h⟩
  · rw [skipScheme_error hhttp]
    decide
  · rcases bind_eq_error.mp h with hhttps | ⟨v, -, h⟩
    · rw [skipScheme_error hhttps]
      decide
    · cases v with
      | none => cases h
      | some v =>
        simp only at h
        split at h
        · cases h
        · rcases bind_eq_error.mp h with hjudge | ⟨c₂, -, h⟩
          · rw [judge_error hjudge]
            decide
          · cases h

theorem parseVersion_error (h : c.parseVersion p = .error f) : f ≠ .diverge := by
  simp only [parseVersion] at h
  split at h
  · cases h
  · split at h
    · exact parseUrl_error h
    · cases h

theorem parseRequestLine_error (h : c.parseRequestLine p = .error f) : f ≠ .diverge := by
  simp only [parseRequestLine] at h
  split at h
  · cases h
  · split at h
    · exact parseVersion_error h
    · split at h
      · exact parseVersion_error h
      · cases h

theorem parseContent_error (h : c.parseContent p = .error f) : f ≠ .diverge := by
  simp only [parseContent] at h
  split at h
  · cases h
    decide
  · split at h
    · split at h
      · cases h
      · cases h
        decide
    · cases h

theorem checkText_error (h : c.checkText p = .error f) : f ≠ .diverge := by
  simp only [checkText] at h
  split at h
  · rcases bind_eq_error.mp h with hline | ⟨r, -, h⟩
    · exact parseRequestLine_error hline
    · split at h <;> cases h
  · split at h <;> cases h
  · rcases bind_eq_error.mp h with hcontent | ⟨r, -, h⟩
    · exact parseContent_error hcontent
    · split at h <;> cases h

theorem readStep_error {lineStatus : LineStatus} (h : readStep (c, lineStatus) = .error f) : f ≠ .diverge := by
  rcases readStep_split c lineStatus with ⟨-, hstep⟩ | ⟨-, -, hstep⟩ | ⟨-, -, hstep⟩
  · exact checkText_error (hstep.symm.trans h)
  · cases hstep.symm.trans h
  · exact checkText_error (hstep.symm.trans h)

/-! ## Every turn of every call -/

/-- So many turns at most. -/
theorem readMeasure_le (c : HttpConn) (lineStatus : LineStatus) :
    readMeasure (c, lineStatus) ≤ 2 * (c.readIdx - c.checkedIdx) + 1 := by
  simp only [readMeasure]
  split <;> omega

/-- The turns of one call of `process_read`. -/
theorem turns_advanced {t : HttpConn × LineStatus} {h : List Unit} (hc : c.Ordered)
    (hrun : (turns readStep).Run (c, .lineOk) h t) : Advanced c t.1 := by
  refine hrun.invariant (I := fun _ t => Advanced c t.1) ?_ (.refl hc)
  intro _ t _ u hadvanced hstep
  exact hadvanced.trans (readStep_advanced hadvanced.ordered hstep)

/-- **`process_read` terminates with ordered cursors**, from any parser state and any buffer with ordered ones:
    its loop takes finitely many turns, each of which leaves the cursors in order and `m_checked_idx` where it
    was or further up, with any `parse_line` in it reading what has been received; and so does the whole. -/
theorem cursors_ordered (hc : c.Ordered) :
    (∀ h t, (turns readStep).Run (c, .lineOk) h t →
      h.length ≤ 2 * (c.readIdx - c.checkedIdx) + 1 ∧ Advanced c t.1 ∧
        t.1.parseLineChecked = .ok t.1.parseLine ∧
        ∀ r, readStep t = .ok r → Advanced t.1 (r.elim Prod.snd Prod.fst)) ∧
    c.readLoop ≠ .error .diverge ∧
    ∀ exit c', c.readLoop = .ok (exit, c') → Advanced c c' := by
  refine ⟨?_, ?_, ?_⟩
  · intro h t hrun
    have hadvanced := turns_advanced hc hrun
    have hlength := turns_length readStep_decreasing hrun
    have hle := readMeasure_le c .lineOk
    refine ⟨by omega, hadvanced, parseLineChecked_eq hadvanced.ordered.checked, ?_⟩
    intro r hstep
    exact readStep_advanced hadvanced.ordered hstep
  · intro hloop
    have hle := readMeasure_le c .lineOk
    obtain ⟨t, ht⟩ := whileLoop_error readStep_decreasing (by omega) hloop
    exact readStep_error (c := t.1) ht rfl
  · intro exit c' hloop
    obtain ⟨h, t, hrun, hstep⟩ := exists_turns hloop
    have hadvanced := turns_advanced hc hrun
    exact hadvanced.trans (readStep_advanced hadvanced.ordered hstep)

/-- A body, none of it received, after a line that has not ended. -/
theorem cursors_ordered_body : ∃ c : HttpConn, c.checkState = .content ∧ c.startLine < c.checkedIdx ∧
    c.checkedIdx < c.readIdx ∧ c.readLoop ≠ .error .diverge := by
  let c : HttpConn := { (default : HttpConn).init.receive (bytes "ab\rc") with
    checkState := .content, checkedIdx := 2, startLine := 1, contentLength := 9 }
  have hc : c.Ordered := ⟨by decide, by decide, by decide⟩
  exact ⟨c, rfl, by decide, by decide, (cursors_ordered hc).2.1⟩

end

end HttpConn
end Http
end LinuxServer
