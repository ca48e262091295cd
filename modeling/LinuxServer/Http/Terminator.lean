import LinuxServer.Http.Cursors

/-!
# `Http/Terminator.lean` — the NUL behind the body

`parse_content` writes a NUL at `text[m_content_length]` once as many bytes have been received. The length is
what `atol` made of a header, and nothing tests it. A `Reception` is a connection that receives a request,
call by call and turn by turn, and remembers where its body begins.

The NUL is behind the bytes that `text` stands before, and these are all in the buffer: so it is in the
buffer too, unless they end with it. That is so when `text` is where the length is counted from, the buffer
is full, and the length is what is left of it. What else goes wrong is in the header: a negative length,
or one that does not fit a `long` together with the cursor (`terminator_iff`).
-/

set_option autoImplicit false

namespace LinuxServer
namespace Http

/-- Where a connection is in receiving a request. -/
inductive Receiving
  /-- Between two calls of `process_read`. -/
  | waiting
  /-- In its loop. -/
  | inLoop (lineStatus : LineStatus)
  /-- The loop came to `do_request`, to an error page or to a fault. -/
  | over
  deriving DecidableEq, Repr

structure Reception where
  conn : HttpConn
  phase : Receiving
  /-- `m_checked_idx` as it was when the state became `CHECK_STATE_CONTENT`. -/
  bodyStart : Nat

namespace Reception

inductive Step
  | receive (x : List Byte)
  | call
  | turn
  deriving DecidableEq, Repr

/-- A turn of the loop, at its beginning. -/
def turn (s : Reception) (lineStatus : LineStatus) : Reception :=
  match HttpConn.readStep (s.conn, lineStatus) with
  | .ok (.inr (c, lineStatus)) =>
    ⟨c, .inLoop lineStatus,
      if s.conn.checkState ≠ .content ∧ c.checkState = .content then c.checkedIdx else s.bodyStart⟩
  | .ok (.inl (.ret .noRequest, c)) => { s with conn := c, phase := .waiting }
  | _ => { s with phase := .over }

def exec (s : Reception) : Step → Option Reception
  | .receive x =>
    if s.phase = .waiting ∧ s.conn.readIdx + x.length ≤ readBufferSize then
      some { s with conn := s.conn.receive x }
    else none
  | .call => if s.phase = .waiting then some { s with phase := .inLoop .lineOk } else none
  | .turn =>
    match s.phase with
    | .inLoop lineStatus => some (s.turn lineStatus)
    | _ => none

end Reception

/-- A connection from its `init()` on, up to the end of its request. -/
def reception : System Reception Reception.Step where
  start s := ∃ c : HttpConn, s = ⟨c.init, .waiting, 0⟩
  step s i s' := s.exec i = some s'

namespace HttpConn

/-- The connection and the text that a turn calls `parse_content` with, if it does. -/
def contentCall (c : HttpConn) (lineStatus : LineStatus) : Option (HttpConn × Nat) :=
  if c.checkState = .content then
    if lineStatus = .lineOk then some ({ c with startLine := c.checkedIdx }, c.startLine)
    else if c.parseLine.1 = .lineOk then
      some ({ c.parseLine.2 with startLine := c.parseLine.2.checkedIdx }, c.parseLine.2.startLine)
    else none
  else none

end HttpConn

namespace Reception

/-- The next call of `parse_content`. -/
def nextContent (s : Reception) : Option (HttpConn × Nat) :=
  match s.phase with
  | .inLoop lineStatus => s.conn.contentCall lineStatus
  | _ => none

/-- **The terminator is inside**: the sum fits a `long`, and if the body has been received, the byte that is
    written is in the buffer, and not before the body. -/
def Inside (s : Reception) : Prop :=
  ∀ call ∈ s.nextContent,
    call.1.contentLength + call.1.checkedIdx ≤ longMax ∧
    (call.1.contentLength + call.1.checkedIdx ≤ call.1.readIdx →
      s.bodyStart ≤ call.2 + call.1.contentLength ∧ call.2 + call.1.contentLength < readBufferSize)

/-- The declared length is not negative, is no more than what fits a `long` behind the cursor, and does not
    fill the buffer from the cursor on when that is where the text begins and the buffer is full. -/
def Fits (s : Reception) : Prop :=
  ∀ call ∈ s.nextContent,
    0 ≤ call.1.contentLength ∧ call.1.contentLength ≤ longMax - call.1.checkedIdx ∧
    (call.2 = call.1.checkedIdx → call.1.readIdx = readBufferSize →
      call.1.contentLength ≠ readBufferSize - call.1.checkedIdx)

instance (s : Reception) : Decidable s.Inside := inferInstanceAs (Decidable (∀ call ∈ _, _))

instance (s : Reception) : Decidable s.Fits := inferInstanceAs (Decidable (∀ call ∈ _, _))

end Reception

namespace HttpConn

section
variable {c c' c₁ : HttpConn} {text : Nat} {lineStatus : LineStatus}

/-! ## One turn in the body -/

/-- A turn in the body looks for a line, or calls `parse_content`. -/
theorem contentCall_cases (hs : c.checkState = .content) (lineStatus : LineStatus) :
    c.contentCall lineStatus = none ∧ readStep (c, lineStatus) = .ok (.inl (.ret .noRequest, c.parseLine.2)) ∨
    ∃ c₁ text, c.contentCall lineStatus = some (c₁, text) ∧ readStep (c, lineStatus) = c₁.checkText text ∧
      c₁.checkState = .content := by
  unfold contentCall
  rw [if_pos hs]
  obtain ⟨buf, checked, hline⟩ := parseLine_writes c
  rcases readStep_split c lineStatus with ⟨⟨-, hok⟩, hstep⟩ | ⟨hno, hno', hstep⟩ | ⟨hno, hok, hstep⟩
  · rw [if_pos hok]
    exact .inr ⟨_, _, rfl, hstep, hs⟩
  · rw [if_neg (fun hok => hno ⟨hs, hok⟩), if_neg hno']
    exact .inl ⟨rfl, hstep⟩
  · rw [if_neg (fun hok => hno ⟨hs, hok⟩), if_pos hok]
    refine .inr ⟨_, _, rfl, hstep, ?_⟩
    rw [hline]
    exact hs

/-- What it is called with: the text at the start of the line, and the cursor further up. -/
theorem contentCall_spec (hc : c.Ordered) (h : c.contentCall lineStatus = some (c₁, text)) :
    c.checkState = .content ∧ text = c.startLine ∧ c₁.contentLength = c.contentLength ∧
      c.startLine ≤ c₁.checkedIdx ∧ c₁.checkedIdx ≤ c₁.readIdx ∧ c₁.readIdx ≤ readBufferSize ∧
      c₁.startLine = c₁.checkedIdx := by
  have hstart := hc.start
  unfold contentCall at h
  split at h
  · rename_i hs
    split at h
    · obtain ⟨rfl, rfl⟩ := Prod.mk.inj (Option.some.inj h)
      exact ⟨hs, rfl, rfl, hstart, hc.checked, hc.read, rfl⟩
    · split at h
      · obtain ⟨rfl, rfl⟩ := Prod.mk.inj (Option.some.inj h)
        have hadvanced := parseLine_advanced hc
        obtain ⟨buf, checked, hline⟩ := parseLine_writes c
        have hchecked := hadvanced.checked
        have hle := hadvanced.ordered.checked
        have hread := hadvanced.ordered.read
        rw [hline] at hchecked hle hread ⊢
        exact ⟨hs, rfl, rfl, Nat.le_trans hstart hchecked, hle, hread, rfl⟩
      · cases h
  · cases h

/-- When the body is there, `parse_content` writes the NUL, if that is in the buffer. -/
theorem parseContent_getRequest (hmax : c.contentLength + c.checkedIdx ≤ longMax)
    (hreceived : c.contentLength + c.checkedIdx ≤ c.readIdx)
    (hlo : 0 ≤ text + c.contentLength) (hhi : text + c.contentLength < readBufferSize) :
    c.parseContent text =
      .ok (.getRequest, { c.put (text + c.contentLength).toNat 0 with string := some text }) := by
  simp only [parseContent]
  rw [if_neg (by omega), if_pos hreceived, if_pos ⟨hlo, hhi⟩]

/-- A text of the body, and the turn it leaves to. -/
theorem checkText_waits (hs : c₁.checkState = .content)
    (h : c₁.checkText text = .ok (.inr (c', lineStatus))) :
    c' = c₁ ∧ (c₁.readIdx : Int) < c₁.contentLength + c₁.checkedIdx := by
  rw [checkText_body hs] at h
  obtain ⟨⟨code, c₂⟩, hcontent, h⟩ := bind_eq_ok.mp h
  simp only at h
  split at h
  · cases h
  · rename_i hcode
    cases h
    rcases parseContent_cases hcontent with ⟨hget, -⟩ | ⟨-, rfl, hshort⟩
    · exact absurd hget hcode
    · exact ⟨rfl, hshort⟩

/-- `NO_REQUEST` is returned for want of a line only. -/
theorem checkText_ne_noRequest : c.checkText text ≠ .ok (.inl (.ret .noRequest, c')) := by
  intro h
  simp only [checkText] at h
  split at h
  · obtain ⟨r, -, h⟩ := bind_eq_ok.mp h
    split at h <;> cases h
  · split at h <;> cases h
  · obtain ⟨r, -, h⟩ := bind_eq_ok.mp h
    split at h <;> cases h

/-- A turn that goes on has the next line begin at the cursor. -/
theorem readStep_startLine {lineStatus' : LineStatus}
    (h : readStep (c, lineStatus) = .ok (.inr (c', lineStatus'))) : c'.startLine = c'.checkedIdx := by
  rcases readStep_split c lineStatus with ⟨-, hstep⟩ | ⟨-, -, hstep⟩ | ⟨-, -, hstep⟩
  · obtain ⟨⟨-, hchecked⟩, hstart⟩ := checkText_handled (hstep.symm.trans h) rfl
    exact hstart.trans hchecked.symm
  · cases hstep.symm.trans h
  · obtain ⟨⟨-, hchecked⟩, hstart⟩ := checkText_handled (hstep.symm.trans h) rfl
    exact hstart.trans hchecked.symm

/-- One that returns `NO_REQUEST` is left where `parse_line` has left it. -/
theorem readStep_noRequest (h : readStep (c, lineStatus) = .ok (.inl (.ret .noRequest, c'))) :
    c' = c.parseLine.2 := by
  rcases readStep_split c lineStatus with ⟨-, hstep⟩ | ⟨-, -, hstep⟩ | ⟨-, -, hstep⟩
  · exact absurd (hstep.symm.trans h) checkText_ne_noRequest
  · cases hstep.symm.trans h
    rfl
  · exact absurd (hstep.symm.trans h) checkText_ne_noRequest

end

end HttpConn

namespace Reception

section
variable {s s' t : Reception} {h : List Step} {i : Step}

/-- Where a turn leads: to the end; to the next call, with what `parse_line` has left; or to the next turn. -/
theorem turn_cases (s : Reception) (lineStatus : LineStatus) :
    s.turn lineStatus = { s with phase := .over } ∨
    (HttpConn.readStep (s.conn, lineStatus) = .ok (.inl (.ret .noRequest, s.conn.parseLine.2)) ∧
      s.turn lineStatus = { s with conn := s.conn.parseLine.2, phase := .waiting }) ∨
    ∃ c lineStatus', HttpConn.readStep (s.conn, lineStatus) = .ok (.inr (c, lineStatus')) ∧
      s.turn lineStatus = ⟨c, .inLoop lineStatus',
        if s.conn.checkState ≠ .content ∧ c.checkState = .content then c.checkedIdx else s.bodyStart⟩ := by
  unfold Reception.turn
  cases hstep : HttpConn.readStep (s.conn, lineStatus) with
  | error f => exact .inl rfl
  | ok r =>
    cases r with
    | inl result =>
      obtain ⟨exit, c⟩ := result
      cases exit with
      | doRequest => exact .inl rfl
      | ret code =>
        cases code with
        | noRequest =>
          obtain rfl := HttpConn.readStep_noRequest hstep
          exact .inr (.inl ⟨rfl, rfl⟩)
        | _ => exact .inl rfl
    | inr next => exact .inr (.inr ⟨next.1, next.2, rfl, rfl⟩)

/-! ## Where the body begins -/

/-- The line of a body begins where that does, or behind, and behind only when the length is positive: the
    first test of a negative one is the last. -/
structure Begun (s : Reception) : Prop where
  ordered : s.conn.Ordered
  body : s.conn.checkState = .content → s.bodyStart ≤ s.conn.startLine ∧
    (s.conn.startLine = s.bodyStart ∨ 0 < s.conn.contentLength)

theorem Begun.turn (hs : s.Begun) (lineStatus : LineStatus) : (s.turn lineStatus).Begun := by
  rcases s.turn_cases lineStatus with hturn | ⟨hstep, hturn⟩ | ⟨c, lineStatus', hstep, hturn⟩
  · rw [hturn]
    exact ⟨hs.ordered, hs.body⟩
  · have hadvanced := HttpConn.readStep_advanced hs.ordered hstep
    rw [hturn]
    refine ⟨hadvanced.ordered, ?_⟩
    obtain ⟨buf, checked, hline⟩ := HttpConn.parseLine_writes s.conn
    intro hcontent
    rw [hline] at hcontent ⊢
    exact hs.body hcontent
  · have hadvanced := HttpConn.readStep_advanced hs.ordered hstep
    rw [hturn]
    refine ⟨hadvanced.ordered, ?_⟩
    intro hcontent
    have hstart := HttpConn.readStep_startLine hstep
    simp only at hcontent ⊢
    by_cases hbody : s.conn.checkState = .content
    · -- the test has been made, and there is more to come
      rw [if_neg (fun hboth => hboth.1 hbody)]
      rcases HttpConn.contentCall_cases hbody lineStatus with
        ⟨-, hopen⟩ | ⟨c₁, text, hcall, hcheck, hstate⟩
      · cases hopen.symm.trans hstep
      · obtain ⟨-, -, hlength, hle, hread, -, -⟩ := HttpConn.contentCall_spec hs.ordered hcall
        obtain ⟨rfl, hshort⟩ := HttpConn.checkText_waits hstate (hcheck.symm.trans hstep)
        obtain ⟨hbegin, -⟩ := hs.body hbody
        exact ⟨by omega, .inr (by omega)⟩
    · rw [if_pos ⟨hbody, hcontent⟩]
      exact ⟨Nat.le_of_eq hstart.symm, .inl hstart⟩

/-- What holds of a fresh connection and is kept by all that happens to it. -/
theorem reachable_invariant {I : Reception → Prop} (hs : reception.Reachable s)
    (hstart : ∀ c : HttpConn, I ⟨c.init, .waiting, 0⟩)
    (hreceive : ∀ (s : Reception) (x : List Byte), I s → s.conn.readIdx + x.length ≤ readBufferSize →
      I { s with conn := s.conn.receive x })
    (hcall : ∀ (s : Reception) (phase : Receiving), I s → I { s with phase := phase })
    (hturn : ∀ (s : Reception) (lineStatus : LineStatus), I s → I (s.turn lineStatus)) : I s := by
  refine hs.invariant (I := I) ?_ ?_
  · rintro s ⟨c, rfl⟩
    exact hstart c
  · intro s i s' hI hexec
    change s.exec i = some s' at hexec
    cases i with
    | receive x =>
      simp only [exec] at hexec
      split at hexec
      · rename_i hroom
        cases hexec
        exact hreceive s x hI hroom.2
      · cases hexec
    | call =>
      simp only [exec] at hexec
      split at hexec
      · cases hexec
        exact hcall s _ hI
      · cases hexec
    | turn =>
      simp only [exec] at hexec
      split at hexec
      · cases hexec
        exact hturn s _ hI
      · cases hexec

theorem Begun.start (c : HttpConn) : Begun ⟨c.init, .waiting, 0⟩ := by
  refine ⟨⟨Nat.le_refl _, Nat.le_refl _, Nat.zero_le _⟩, ?_⟩
  intro hcontent
  cases hcontent

theorem Begun.receive (hs : s.Begun) {x : List Byte} (hroom : s.conn.readIdx + x.length ≤ readBufferSize) :
    ({ s with conn := s.conn.receive x } : Reception).Begun :=
  ⟨⟨hs.ordered.start, Nat.le_trans hs.ordered.checked (Nat.le_add_right _ _), hroom⟩, hs.body⟩

theorem begun (hs : reception.Reachable s) : s.Begun := by
  refine reachable_invariant hs Begun.start ?_ ?_ ?_
  · intro s x hs hroom
    exact hs.receive hroom
  · intro s phase hs
    exact ⟨hs.ordered, hs.body⟩
  · intro s lineStatus hs
    exact hs.turn lineStatus

/-! ## Every run -/

/-- **The next terminator** is inside if and only if the length fits. -/
theorem inside_iff (hs : s.Begun) : s.Fits ↔ s.Inside := by
  unfold Fits Inside
  refine forall₂_congr ?_
  intro call hcall
  obtain ⟨c₁, text⟩ := call
  unfold nextContent at hcall
  split at hcall
  · obtain ⟨hstate, rfl, hlength, hle, hread, hroom, -⟩ := HttpConn.contentCall_spec hs.ordered hcall
    obtain ⟨hbegin, hpos⟩ := hs.body hstate
    rw [← hlength] at hpos
    simp only
    constructor
    · rintro ⟨hnonneg, hmax, hfull⟩
      refine ⟨by omega, ?_⟩
      intro hreceived
      refine ⟨by omega, ?_⟩
      by_contra hbehind
      exact hfull (by omega) (by omega) (by omega)
    · rintro ⟨hmax, hinside⟩
      refine ⟨?_, by omega, ?_⟩
      · by_contra hneg
        have hbefore := (hinside (by omega)).1
        omega
      · intro hline hfull heq
        have hbehind := (hinside (by omega)).2
        omega
  · cases hcall

/-- **The body terminator is written inside the buffer**, in all of a run, if and only if every declared length
    that is tested in it fits. -/
theorem terminator_iff (hstart : reception.start s) :
    (reception.restrict fun s _ => s.Fits).Run s h t ↔ (reception.restrict fun s _ => s.Inside).Run s h t :=
  System.Run.restrict_congr (fun hs _ => inside_iff (begun hs)) hstart

/-- A test that is inside is made without a fault. -/
theorem Inside.parseContent (hs : s.Inside) {call : HttpConn × Nat} (hcall : call ∈ s.nextContent) :
    ∃ result, call.1.parseContent call.2 = .ok result := by
  obtain ⟨hmax, hinside⟩ := hs call hcall
  by_cases hreceived : call.1.contentLength + call.1.checkedIdx ≤ call.1.readIdx
  · obtain ⟨hlo, hhi⟩ := hinside hreceived
    exact ⟨_, HttpConn.parseContent_getRequest hmax hreceived (by omega) hhi⟩
  · refine ⟨(.noRequest, call.1), ?_⟩
    simp only [HttpConn.parseContent]
    rw [if_neg (by omega), if_neg hreceived]

/-- `exec`, as a function to be followed. -/
def execute (s : Reception) (i : Step) : Except Unit Reception := (s.exec i).elim (.error ()) .ok

theorem step_of_execute {s s' : Reception} {i : Step} (h : s.execute i = .ok s') : s.exec i = some s' := by
  unfold execute at h
  cases hexec : s.exec i with
  | none => rw [hexec] at h; cases h
  | some u =>
    rw [hexec] at h
    cases h
    rfl

def fresh : Reception := ⟨(default : HttpConn).init, .waiting, 0⟩

/-- A request with a body of two bytes. -/
theorem terminator_iff_two : ∃ t,
    (reception.restrict fun s _ => s.Inside).Run fresh
      [.turn, .turn, .turn, .turn, .call, .receive (bytes "POST / HTTP/1.1\r\ncontent-length:2\r\n\r\nab")]
      t := by
  obtain ⟨t, ht⟩ : ∃ t, System.follow execute (fun s _ => s.Fits) fresh
      [.turn, .turn, .turn, .turn, .call,
        .receive (bytes "POST / HTTP/1.1\r\ncontent-length:2\r\n\r\nab")] = some t :=
    Option.isSome_iff_exists.mp (by decide +kernel)
  refine ⟨t, (terminator_iff ⟨default, rfl⟩).mp (System.Run.of_follow ?_ ht)⟩
  intro s i s' hok hexec
  exact ⟨step_of_execute hexec, of_decide_eq_true hok⟩

/-- At the first test of the body of a request that is received at once. -/
theorem reachable_body {x : List Byte} {P : Reception → Bool}
    (h : (System.follow execute (fun _ _ => true) fresh [.turn, .turn, .turn, .call, .receive x]).any P =
      true) : ∃ s, reception.Reachable s ∧ P s = true := by
  obtain ⟨s, hs, hP⟩ := (Option.any_eq_true _ _).mp h
  exact ⟨s, ⟨fresh, _, ⟨default, rfl⟩, System.Run.of_follow (fun _ _ _ _ hexec => step_of_execute hexec) hs⟩, hP⟩

/-- **It fails** for the length `-1`, for the largest one, and for one that fills the buffer. -/
theorem terminator_outside :
    (∃ s, reception.Reachable s ∧ s.conn.contentLength = -1 ∧ ¬ s.Inside) ∧
    (∃ s, reception.Reachable s ∧ s.conn.contentLength = longMax ∧ ¬ s.Inside) ∧
    ∃ s, reception.Reachable s ∧ s.conn.contentLength = 2008 ∧ s.conn.checkedIdx = 40 ∧
      s.conn.readIdx = readBufferSize ∧ ¬ s.Inside := by
  refine ⟨?_, ?_, ?_⟩
  · obtain ⟨s, hs, hP⟩ := reachable_body (x := bytes "POST / HTTP/1.1\r\ncontent-length:-1\r\n\r\n")
      (P := fun s => s.conn.contentLength = -1 ∧ ¬ s.Inside) (by decide +kernel)
    exact ⟨s, hs, of_decide_eq_true hP⟩
  · obtain ⟨s, hs, hP⟩ := reachable_body
      (x := bytes "POST / HTTP/1.1\r\ncontent-length:9223372036854775807\r\n\r\n")
      (P := fun s => s.conn.contentLength = longMax ∧ ¬ s.Inside) (by decide +kernel)
    exact ⟨s, hs, of_decide_eq_true hP⟩
  · obtain ⟨s, hs, hP⟩ := reachable_body
      (x := bytes "POST / HTTP/1.1\r\ncontent-length:2008\r\n\r\n" ++ List.replicate 2008 97)
      (P := fun s => s.conn.contentLength = 2008 ∧ s.conn.checkedIdx = 40 ∧
        s.conn.readIdx = readBufferSize ∧ ¬ s.Inside) (by decide +kernel)
    exact ⟨s, hs, of_decide_eq_true hP⟩

end

end Reception
end Http
end LinuxServer
