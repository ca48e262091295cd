import LinuxServer.Http.Head

/-!
# `Http/Body.lean` — what `process_read` does to a body

In the body each call of `process_read` makes one test: whether the bytes read reach as far as the
declared length, counted from `m_checked_idx`. And when they do not, the loop goes on to call
`parse_line` on the bytes of the body, as if they were header lines, which moves `m_checked_idx` into
the body and the line start behind the last CRLF it finds. So the next test counts from there.

How far `parse_line` gets is a function of the bytes, `passed`, and so is the end of the last line
it takes, `lastLine`; and as it can be resumed, neither depends on how the bytes arrived
(`passed_append`, `lastLine_append`). `InBody.call` is what one call does with these.
-/

set_option autoImplicit false

namespace LinuxServer
namespace Http

/-! ## Words -/

/-- The end of the last whole line of a word, and the bytes that `parse_line`, called for as long as
    it finds one, gets past. -/
def bodyLines : (n : Nat) → List Byte → Nat × Nat
  | 0, _ => (0, 0)
  | n + 1, w =>
    let (status, k) := scanLine w
    if status = .lineOk then
      let (last, past) := bodyLines n (w.drop k)
      (k + last, k + past)
    else (0, k)

def lastLine (w : List Byte) : Nat := (bodyLines w.length w).1

def passed (w : List Byte) : Nat := (bodyLines w.length w).2

theorem bodyLines_le (n : Nat) (w : List Byte) :
    (bodyLines n w).1 ≤ (bodyLines n w).2 ∧ (bodyLines n w).2 ≤ w.length := by
  induction n generalizing w with
  | zero => exact ⟨Nat.le_refl _, Nat.zero_le _⟩
  | succ n ih =>
    have hle := scanLine_le w
    obtain ⟨h₁, h₂⟩ := ih (w.drop (scanLine w).2)
    rw [List.length_drop] at h₂
    rw [bodyLines]
    simp only
    split
    · exact ⟨Nat.add_le_add_left h₁ _, by simp only; omega⟩
    · exact ⟨Nat.zero_le _, hle⟩

theorem bodyLines_fuel {n m : Nat} {w : List Byte} (hn : w.length ≤ n) (hm : w.length ≤ m) :
    bodyLines n w = bodyLines m w := by
  induction n generalizing m w with
  | zero =>
    have hnil : w = [] := List.length_eq_zero_iff.mp (by omega)
    subst hnil
    cases m <;> rfl
  | succ n ih =>
    cases m with
    | zero =>
      have hnil : w = [] := List.length_eq_zero_iff.mp (by omega)
      subst hnil
      rfl
    | succ m =>
      rw [bodyLines, bodyLines]
      by_cases hok : (scanLine w).1 = .lineOk
      · obtain ⟨line, -, -, hk, -⟩ := scanLine_ok hok
        have hle := scanLine_le w
        have hrec := ih (m := m) (w := w.drop (scanLine w).2) (by rw [List.length_drop]; omega)
          (by rw [List.length_drop]; omega)
        simp only [hrec]
      · simp only [if_neg hok]

/-- Lines are taken up where they were left. -/
theorem bodyLines_append (n : Nat) {w x : List Byte} (hn : (w ++ x).length ≤ n) :
    bodyLines n (w ++ x) =
      ((if (bodyLines n (w.drop (bodyLines n w).2 ++ x)).1 = 0 then (bodyLines n w).1
        else (bodyLines n w).2 + (bodyLines n (w.drop (bodyLines n w).2 ++ x)).1),
      (bodyLines n w).2 + (bodyLines n (w.drop (bodyLines n w).2 ++ x)).2) := by
  induction n generalizing w with
  | zero => simp [bodyLines]
  | succ n ih =>
    rw [List.length_append] at hn
    have hle := scanLine_le w
    by_cases hok : (scanLine w).1 = .lineOk
    · obtain ⟨line, -, -, hk, -⟩ := scanLine_ok hok
      have hw : bodyLines (n + 1) w = ((scanLine w).2 + (bodyLines n (w.drop (scanLine w).2)).1,
          (scanLine w).2 + (bodyLines n (w.drop (scanLine w).2)).2) := by
        rw [bodyLines]; simp only [if_pos hok]
      obtain ⟨hscan, -, hdrop⟩ := scanLine_ok_append hok x
      have hwx : bodyLines (n + 1) (w ++ x) =
          ((scanLine w).2 + (bodyLines n (w.drop (scanLine w).2 ++ x)).1,
            (scanLine w).2 + (bodyLines n (w.drop (scanLine w).2 ++ x)).2) := by
        rw [bodyLines]; simp only [hscan, hok, if_true, hdrop]
      have hfuel : bodyLines (n + 1) (w.drop ((scanLine w).2 + (bodyLines n (w.drop (scanLine w).2)).2) ++ x)
          = bodyLines n ((w.drop (scanLine w).2).drop (bodyLines n (w.drop (scanLine w).2)).2 ++ x) := by
        rw [List.drop_drop]
        refine bodyLines_fuel ?_ ?_ <;> rw [List.length_append, List.length_drop] <;> omega
      rw [hwx, hw, hfuel, ih (by rw [List.length_append, List.length_drop]; omega)]
      simp only [Nat.add_assoc]
      split <;> rfl
    · have hw : bodyLines (n + 1) w = (0, (scanLine w).2) := by
        rw [bodyLines]; simp only [if_neg hok]
      have happ := scanLine_append w x
      rw [if_neg hok] at happ
      rw [hw]
      simp only
      have hdrop : (w ++ x).drop ((scanLine w).2 + (scanLine (w.drop (scanLine w).2 ++ x)).2) =
          (w.drop (scanLine w).2 ++ x).drop (scanLine (w.drop (scanLine w).2 ++ x)).2 := by
        rw [← List.drop_drop, List.drop_append_of_le_length hle]
      rw [bodyLines, bodyLines]
      simp only [happ, hdrop]
      by_cases hok' : (scanLine (w.drop (scanLine w).2 ++ x)).1 = .lineOk
      · obtain ⟨line, -, -, hk, -⟩ := scanLine_ok hok'
        simp only [if_pos hok', Nat.add_assoc]
        rw [if_neg (by omega)]
      · simp only [if_neg hok', if_true]

theorem lastLine_le_passed (w : List Byte) : lastLine w ≤ passed w := (bodyLines_le _ w).1

theorem passed_le (w : List Byte) : passed w ≤ w.length := (bodyLines_le _ w).2

theorem bodyLines_of_length_le {n : Nat} {w : List Byte} (h : w.length ≤ n) :
    bodyLines n w = (lastLine w, passed w) := bodyLines_fuel h (Nat.le_refl _)

theorem passed_append (w x : List Byte) :
    passed (w ++ x) = passed w + passed (w.drop (passed w) ++ x) := by
  have h := bodyLines_append (w ++ x).length (w := w) (x := x) (Nat.le_refl _)
  rw [bodyLines_of_length_le (Nat.le_refl _), bodyLines_of_length_le (w := w) (by simp),
    bodyLines_of_length_le (w := w.drop (passed w) ++ x) (by simp)] at h
  exact congrArg Prod.snd h

theorem lastLine_append (w x : List Byte) :
    lastLine (w ++ x) = if lastLine (w.drop (passed w) ++ x) = 0 then lastLine w
      else passed w + lastLine (w.drop (passed w) ++ x) := by
  have h := bodyLines_append (w ++ x).length (w := w) (x := x) (Nat.le_refl _)
  rw [bodyLines_of_length_le (Nat.le_refl _), bodyLines_of_length_le (w := w) (by simp),
    bodyLines_of_length_le (w := w.drop (passed w) ++ x) (by simp)] at h
  exact congrArg Prod.fst h

namespace HttpConn

/-! ## The lines of a body -/

theorem not_body_open (c : HttpConn) :
    ¬ (c.checkState = .content ∧ LineStatus.lineOpen = .lineOk) := fun h => nomatch h.2

/-- What `parse_line` leaves of a connection in the body, called for as long as it finds a line: the
    last ended after `last` bytes, and it got past `past`. -/
structure Swept (c c' : HttpConn) (last past : Nat) : Prop where
  ready : c'.Ready
  state : c'.checkState = .content
  contentLength : c'.contentLength = c.contentLength
  linger : c'.linger = c.linger
  cgi : c'.cgi = c.cgi
  url : c'.url = c.url
  read : c'.readIdx = c.readIdx
  checked : c'.checkedIdx = c.checkedIdx + past
  start : c'.startLine = if last = 0 then c.startLine else c.checkedIdx + last
  below : ∀ i, i < c.checkedIdx → c'.readBuf i = c.readBuf i
  above : ∀ i, c.checkedIdx + last ≤ i → c'.readBuf i = c.readBuf i

section
variable {c : HttpConn}

/-- A body that is not all there stays so however many of its lines are taken off; only the sum may
    overflow, when lines end where it does. -/
theorem sweep (n : Nat) : ∀ {c : HttpConn}, c.Ready → c.checkState = .content →
    c.unchecked.length ≤ n → (c.readIdx : Int) < c.contentLength + c.checkedIdx →
    c.contentLength + c.checkedIdx ≤ longMax →
    (longMax < c.contentLength + c.checkedIdx + (bodyLines n c.unchecked).1 ∧
      readFrom (c, .lineOpen) = .error .overflow) ∨
    (c.contentLength + c.checkedIdx + (bodyLines n c.unchecked).1 ≤ longMax ∧
      ∃ c', readFrom (c, .lineOpen) = .ok (.ret .noRequest, c') ∧
        Swept c c' (bodyLines n c.unchecked).1 (bodyLines n c.unchecked).2) := by
  have hopen : ∀ {c : HttpConn}, c.Ready → (scanLine c.unchecked).1 ≠ .lineOk →
      readFrom (c, .lineOpen) = .ok (.ret .noRequest, c.advance (scanLine c.unchecked).2) ∧
        (c.advance (scanLine c.unchecked).2).Ready := by
    intro c h hno
    have hline := parseLine_eq h
    rw [if_neg hno] at hline
    have hready := ((parseLine_receive h []).2 (by rw [hline]; exact hno)).1
    rw [readFrom_eq, readStep_open (not_body_open c) (by rw [hline]; exact hno), hline]
    rw [hline] at hready
    exact ⟨rfl, hready⟩
  induction n with
  | zero =>
    intro c h hs hn hshort hmax
    have hnil : c.unchecked = [] := List.length_eq_zero_iff.mp (by omega)
    obtain ⟨hrun, hready⟩ := hopen h (by rw [hnil]; decide)
    rw [hnil] at hrun hready
    exact Or.inr ⟨by simpa [bodyLines] using hmax, _, hrun, hready, hs, rfl, rfl, rfl, rfl, rfl, rfl, rfl,
      fun _ _ => rfl, fun _ _ => rfl⟩
  | succ n ih =>
    intro c h hs hn hshort hmax
    rw [bodyLines]
    by_cases hok : (scanLine c.unchecked).1 = .lineOk
    · obtain ⟨line, -, -, hk, -⟩ := scanLine_ok hok
      have hle := scanLine_unchecked_le h.within
      generalize hkk : (scanLine c.unchecked).2 = k at hk hle
      simp only [hok, hkk, if_true]
      have hline : c.parseLine = (.lineOk, c.cut k) := by
        rw [parseLine_eq h, hok, if_pos rfl, hkk]
      -- the test, made again at the end of the line
      let c₁ : HttpConn := { c.cut k with startLine := c.checkedIdx + k }
      have hstep : readStep (c, .lineOpen) = c₁.checkText c.startLine :=
        readStep_line (not_body_open c) hline
      have htext : c₁.checkText c.startLine = c₁.parseContent c.startLine >>= fun r =>
          if r.1 = .getRequest then .ok (.inl (.doRequest, r.2)) else .ok (.inr (r.2, .lineOpen)) :=
        checkText_body (c := c₁) hs _
      have hneed : c₁.contentLength + (c₁.checkedIdx : Int) = c.contentLength + c.checkedIdx + k := by
        show c.contentLength + ((c.checkedIdx + k : Nat) : Int) = _
        omega
      have hread : c₁.readIdx = c.readIdx := rfl
      by_cases hover : longMax < c.contentLength + c.checkedIdx + k
      · refine Or.inl ⟨by omega, ?_⟩
        rw [readFrom_eq, hstep, htext, parseContent]
        simp only [hneed, if_pos hover]
        rfl
      · have hparse : c₁.parseContent c.startLine = .ok (.noRequest, c₁) := by
          rw [parseContent]
          simp only [hneed, if_neg hover, hread]
          rw [if_neg (by omega)]
        have hnext : readFrom (c, .lineOpen) = readFrom (c₁, .lineOpen) := by
          refine readFrom_next (hstep.trans (htext.trans ?_))
          rw [hparse]
          rfl
        have hready : c₁.Ready := by
          refine ⟨Nat.le_refl _, hle, fun _ => ?_⟩
          show (c.cut k).readBuf (c.checkedIdx + k - 1) ≠ cr
          simp only [cut, put, advance, Mem.put_self]
          decide
        have hunchecked : c₁.unchecked = c.unchecked.drop k := unchecked_cut hle (by omega)
        have hrec := ih hready hs (by rw [hunchecked, List.length_drop]; omega)
          (by rw [hneed, hread]; omega) (by rw [hneed]; omega)
        rw [hunchecked, hneed, ← hnext] at hrec
        rcases hrec with ⟨hmax', hrun⟩ | ⟨hmax', c', hrun, hswept⟩
        · exact Or.inl ⟨by omega, hrun⟩
        · refine Or.inr ⟨by omega, c', hrun, hswept.ready, hswept.state, hswept.contentLength,
            hswept.linger, hswept.cgi, hswept.url, hswept.read, ?_, ?_, fun i hi => ?_, fun i hi => ?_⟩
          · rw [hswept.checked]; exact Nat.add_assoc ..
          · rw [hswept.start]
            by_cases hz : (bodyLines n (c.unchecked.drop k)).1 = 0
            · rw [if_pos hz, if_neg (by omega), hz]; rfl
            · rw [if_neg hz, if_neg (by omega)]; exact Nat.add_assoc ..
          · rw [hswept.below i (Nat.lt_add_right k hi)]
            simp only [c₁, cut, put, advance]
            rw [Mem.put_ne _ _ (by omega), Mem.put_ne _ _ (by omega)]
          · rw [hswept.above i (by show c.checkedIdx + k + _ ≤ i; omega)]
            simp only [c₁, cut, put, advance]
            rw [Mem.put_ne _ _ (by omega), Mem.put_ne _ _ (by omega)]
    · obtain ⟨hrun, hready⟩ := hopen h hok
      simp only [if_neg hok]
      exact Or.inr ⟨by simpa using hmax, _, hrun, hready, hs, rfl, rfl, rfl, rfl, rfl, rfl, rfl,
        fun _ _ => rfl, fun _ _ => rfl⟩

end

end HttpConn
end Http
end LinuxServer
