import LinuxServer.Http.Chunks
import LinuxServer.Http.LocalPath
import LinuxServer.Lib.System

/-!
# `Http/Reading.lean` — a connection that is being read from

`reading` is a connection from `init()` on, read by read, as long as `process_read` returns
`NO_REQUEST`. `Reading` is what holds of it in between, and `Reading.call` what one more read makes of
that, whatever it is and whatever is returned: parsing assigns its own fields only (`readLoop_unread`),
and the string that `m_url` points at ends in what has been read.
-/

set_option autoImplicit false

namespace LinuxServer
namespace Http
namespace HttpConn

/-! ## What is not assigned -/

/-- The connection but for what parsing assigns. -/
def unread (c : HttpConn) : HttpConn :=
  { c with
    readBuf := fun _ => 0
    checkedIdx := 0
    startLine := 0
    checkState := .requestLine
    method := .get
    url := none
    version := none
    host := none
    contentLength := 0
    linger := false
    cgi := 0
    string := none }

/-- The connection but for the request and the path. -/
def unbuffered (c : HttpConn) : HttpConn := { c with readBuf := fun _ => 0, realFile := fun _ => 0 }

/-- The connection but for what `do_request` assigns. -/
def unserved (c : HttpConn) : HttpConn :=
  { c with
    readBuf := fun _ => 0
    realFile := fun _ => 0
    fileStat := default
    fileAddress := none }

section
variable {c c' : HttpConn} {p : Nat} {r : HttpCode}

theorem judge_unread (h : c.judge p = .ok c') : c'.unread = c.unread := by
  simp only [judge, strcat] at h
  split at h
  · split at h
    · cases h; rfl
    · cases h
  · cases h; rfl

theorem parseUrl_unread (h : c.parseUrl p = .ok (r, c')) : c'.unread = c.unread := by
  obtain ⟨u, -, h⟩ := bind_eq_ok.mp h
  obtain ⟨v, -, h⟩ := bind_eq_ok.mp h
  cases v with
  | none => cases h; rfl
  | some v =>
    simp only at h
    split at h
    · cases h; rfl
    · obtain ⟨c₂, hc₂, h⟩ := bind_eq_ok.mp h
      cases h
      have hjudge := judge_unread hc₂
      exact hjudge

theorem parseVersion_unread (h : c.parseVersion p = .ok (r, c')) : c'.unread = c.unread := by
  simp only [parseVersion] at h
  split at h
  · cases h; rfl
  · split at h
    · rename_i j _ _
      exact (parseUrl_unread h).trans rfl
    · cases h; rfl

theorem parseRequestLine_unread (h : c.parseRequestLine p = .ok (r, c')) : c'.unread = c.unread := by
  simp only [parseRequestLine] at h
  split at h
  · cases h; rfl
  · split at h
    · exact (parseVersion_unread h).trans rfl
    · split at h
      · exact (parseVersion_unread h).trans rfl
      · cases h; rfl

/-! ### `do_request` -/

variable {src : List Byte} {n : Nat} {fs : FileSystem}
  {decode : List Byte → Option (List Byte × List Byte)} {accepts : Bool} {w w' : World}

theorem copyRoot_unbuffered (h : c.copyRoot = .ok c') : c'.unbuffered = c.unbuffered := by
  unfold copyRoot at h
  split at h <;> cases h
  rfl

theorem copyPath_unbuffered (h : c.copyPath src n = .ok c') : c'.unbuffered = c.unbuffered := by
  simp only [copyPath] at h
  split at h <;> cases h
  rfl

theorem setUrl_unbuffered (h : c.setUrl p src = .ok c') : c'.unbuffered = c.unbuffered := by
  unfold setUrl at h
  split at h <;> cases h
  rfl

theorem selectPage_unbuffered {q : Nat} (h : c.selectPage p q = .ok c') : c'.unbuffered = c.unbuffered := by
  simp only [selectPage] at h
  repeat' split at h
  all_goals exact copyPath_unbuffered h

theorem answerForm_unbuffered {q : Nat} (h : c.answerForm decode accepts p q w = .ok (c', w')) :
    c'.unbuffered = c.unbuffered := by
  simp only [answerForm] at h
  split at h
  · split at h
    · obtain ⟨c₁, hc₁, h⟩ := bind_eq_ok.mp h
      obtain ⟨⟨name, passwd⟩, -, h⟩ := bind_eq_ok.mp h
      refine Eq.trans ?_ (copyPath_unbuffered hc₁)
      simp only at h
      split at h
      · split at h
        · obtain ⟨c₂, hc₂, h⟩ := bind_eq_ok.mp h
          cases h
          exact setUrl_unbuffered hc₂
        · cases h
      · obtain ⟨c₂, hc₂, h⟩ := bind_eq_ok.mp h
        cases h
        exact setUrl_unbuffered hc₂
    · cases h
  · cases h
    rfl

theorem openFile_unserved (fs : FileSystem) : (c.openFile fs).2.unserved = c.unserved := by
  simp only [openFile]
  repeat' split
  all_goals rfl

/-- `do_request` ends with the `stat` and the `mmap`, and there was no other before. -/
theorem doRequest_openFile (h : c.doRequest fs decode accepts w = .ok ((r, c'), w')) :
    ∃ c₃ : HttpConn, c₃.unbuffered = c.unbuffered ∧ c₃.openFile fs = (r, c') := by
  unfold doRequest at h
  split at h
  · cases h
  · obtain ⟨c₁, hc₁, h⟩ := bind_eq_ok.mp h
    obtain ⟨q, -, h⟩ := bind_eq_ok.mp h
    obtain ⟨⟨c₂, w₂⟩, hc₂, h⟩ := bind_eq_ok.mp h
    obtain ⟨c₃, hc₃, h⟩ := bind_eq_ok.mp h
    simp only [pure, Except.pure, Except.ok.injEq, Prod.mk.injEq] at h
    refine ⟨c₃, ?_, h.1⟩
    rw [selectPage_unbuffered hc₃, answerForm_unbuffered hc₂, copyRoot_unbuffered hc₁]

/-- **`do_request` assigns its own fields only.** -/
theorem doRequest_unserved (h : c.doRequest fs decode accepts w = .ok ((r, c'), w')) :
    c'.unserved = c.unserved := by
  obtain ⟨c₃, hc₃, hopen⟩ := doRequest_openFile h
  have hserved := openFile_unserved (c := c₃) fs
  rw [hopen] at hserved
  exact hserved.trans (congrArg unserved hc₃ :)

end

/-! ## A turn of the loop -/

section
variable {c c' : HttpConn} {exit : ReadExit} {p : Nat}
  {a : (ReadExit × HttpConn) ⊕ (HttpConn × LineStatus)}

/-- `m_url` and what it points at are left alone, but for NULs that are put into `m_read_buf`, and the
    only state that may be entered is the body. -/
structure Passing (c c' : HttpConn) : Prop where
  unread : c'.unread = c.unread
  state : c'.checkState = c.checkState ∨ c'.checkState = .content
  url : c'.url = c.url
  bytes : ∀ i, c'.readBuf i = c.readBuf i ∨ c'.readBuf i = 0

theorem Passing.refl (c : HttpConn) : Passing c c := ⟨rfl, Or.inl rfl, rfl, fun _ => Or.inl rfl⟩

theorem Passing.readIdx (h : Passing c c') : c'.readIdx = c.readIdx :=
  (congrArg HttpConn.readIdx h.unread :)

theorem Passing.trans {c'' : HttpConn} (h : Passing c c') (h' : Passing c' c'') : Passing c c'' := by
  refine ⟨h'.unread.trans h.unread, ?_, h'.url.trans h.url, fun i => ?_⟩
  · rcases h'.state with he | he
    · rw [he]
      exact h.state
    · exact Or.inr he
  · rcases h'.bytes i with hi | hi
    · rw [hi]
      exact h.bytes i
    · exact Or.inr hi

theorem Passing.put (c : HttpConn) (p : Nat) : Passing c (c.put p 0) := by
  refine ⟨rfl, Or.inl rfl, rfl, fun i => ?_⟩
  by_cases hip : i = p
  · rw [hip]
    exact Or.inr (Mem.put_self ..)
  · exact Or.inl (Mem.put_ne _ _ hip)

theorem parseLineLoop_passing : ∀ (n : Nat) (c : HttpConn), Passing c (parseLineLoop n c).2
  | 0, c => .refl c
  | n + 1, c => by
    have hcut : ∀ (p q k : Nat), Passing c { (c.put p 0).put q 0 with checkedIdx := k } := by
      intro p q k
      obtain ⟨hunread, hstate, hurl, hbytes⟩ := (Passing.put c p).trans (Passing.put (c.put p 0) q)
      exact ⟨hunread, hstate, hurl, hbytes⟩
    rw [parseLineLoop]
    simp only
    split
    · split
      · exact .refl c
      · split
        · exact hcut _ _ _
        · exact .refl c
    · split
      · split
        · exact hcut _ _ _
        · exact .refl c
      · obtain ⟨hunread, hstate, hurl, hbytes⟩ :=
          parseLineLoop_passing n { c with checkedIdx := c.checkedIdx + 1 }
        exact ⟨hunread, hstate, hurl, hbytes⟩

theorem parseHeaders_passing : Passing c (c.parseHeaders p).2 := by
  simp only [parseHeaders]
  repeat' split
  all_goals first
    | exact ⟨rfl, Or.inl rfl, rfl, fun _ => Or.inl rfl⟩
    | exact ⟨rfl, Or.inr rfl, rfl, fun _ => Or.inl rfl⟩

theorem parseContent_passing {r : HttpCode} (h : c.parseContent p = .ok (r, c')) : Passing c c' := by
  rcases parseContent_cases h with ⟨-, rfl⟩ | ⟨-, rfl, -⟩
  · obtain ⟨hunread, hstate, hurl, hbytes⟩ := Passing.put c (p + c.contentLength).toNat
    exact ⟨hunread, hstate, hurl, hbytes⟩
  · exact .refl _

/-- A turn, behind `parse_line`: it ends the loop for want of a line, or parses one. -/
theorem readStep_cases {s : HttpConn × LineStatus} (h : readStep s = .ok a) :
    (∃ c', Passing s.1 c' ∧ a = .inl (.ret .noRequest, c')) ∨
      ∃ c' p, Passing s.1 c' ∧ c'.checkText p = .ok a := by
  obtain ⟨c, lineStatus⟩ := s
  have hstart : ∀ {c' : HttpConn}, Passing c c' → Passing c { c' with startLine := c'.checkedIdx } :=
    fun hpass => ⟨hpass.unread, hpass.state, hpass.url, hpass.bytes⟩
  have hpass := parseLineLoop_passing (c.readIdx - c.checkedIdx) c
  rcases readStep_split c lineStatus with ⟨-, hstep⟩ | ⟨-, -, hstep⟩ | ⟨-, -, hstep⟩
  · exact Or.inr ⟨_, _, hstart (.refl c), hstep.symm.trans h⟩
  · cases hstep.symm.trans h
    exact Or.inl ⟨_, hpass, rfl⟩
  · exact Or.inr ⟨_, _, hstart hpass, hstep.symm.trans h⟩

/-- What the `switch` makes of a line, whichever way it goes on. -/
theorem checkText_unread (h : c.checkText p = .ok a) : (a.elim Prod.snd Prod.fst).unread = c.unread := by
  unfold checkText at h
  split at h
  · obtain ⟨⟨ret, c₁⟩, hc₁, h⟩ := bind_eq_ok.mp h
    simp only at h
    split at h <;> cases h
    all_goals exact parseRequestLine_unread hc₁
  · simp only at h
    split at h <;> cases h
    all_goals exact parseHeaders_passing.unread
  · obtain ⟨⟨ret, c₁⟩, hc₁, h⟩ := bind_eq_ok.mp h
    simp only at h
    split at h <;> cases h
    all_goals exact (parseContent_passing hc₁).unread

/-- **Parsing assigns its own fields only.** -/
theorem readLoop_unread (h : c.readLoop = .ok (exit, c')) : c'.unread = c.unread := by
  have hturn : ∀ {s : HttpConn × LineStatus} {a : (ReadExit × HttpConn) ⊕ (HttpConn × LineStatus)},
      s.1.unread = c.unread → readStep s = .ok a → (a.elim Prod.snd Prod.fst).unread = c.unread := by
    intro s a hs hstep
    rcases readStep_cases hstep with ⟨c₁, hpass, rfl⟩ | ⟨c₁, p, hpass, htext⟩
    · exact hpass.unread.trans hs
    · exact (checkText_unread htext).trans (hpass.unread.trans hs)
  exact whileLoop_invariant (P := fun s => s.1.unread = c.unread)
    (Q := fun a : ReadExit × HttpConn => a.2.unread = c.unread)
    (fun hs hstep => hturn hs hstep) (fun hs hstep => hturn hs hstep) (s := (c, LineStatus.lineOk)) rfl h

/-- What the `switch` makes of a line behind the request line. -/
theorem checkText_passing (hs : c.checkState ≠ .requestLine) (h : c.checkText p = .ok a) :
    Passing c (a.elim Prod.snd Prod.fst) ∧ ∀ exit c', a = .inl (exit, c') → exit = .doRequest := by
  unfold checkText at h
  split at h
  · contradiction
  · have hpass := parseHeaders_passing (c := c) (p := p)
    generalize c.parseHeaders p = r at h hpass
    simp only at h
    split at h <;> cases h
    · exact ⟨hpass, fun _ _ he => (Prod.mk.inj (Sum.inl.inj he)).1.symm⟩
    · exact ⟨hpass, fun _ _ he => absurd he Sum.inr_ne_inl⟩
  · obtain ⟨⟨ret, c₁⟩, hc₁, h⟩ := bind_eq_ok.mp h
    simp only at h
    split at h <;> cases h
    · exact ⟨parseContent_passing hc₁, fun _ _ he => (Prod.mk.inj (Sum.inl.inj he)).1.symm⟩
    · exact ⟨parseContent_passing hc₁, fun _ _ he => absurd he Sum.inr_ne_inl⟩

theorem Passing.headed (h : Passing c c') (hs : c.checkState ≠ .requestLine) :
    c'.checkState ≠ .requestLine := by
  rcases h.state with he | he
  · rw [he]
    exact hs
  · rw [he]
    decide

/-- A turn behind the request line. -/
theorem readStep_passing {s : HttpConn × LineStatus} (hs : s.1.checkState ≠ .requestLine)
    (h : readStep s = .ok a) : Passing s.1 (a.elim Prod.snd Prod.fst) ∧
      ∀ exit c', a = .inl (exit, c') → exit = .ret .noRequest ∨ exit = .doRequest := by
  rcases readStep_cases h with ⟨c₁, hpass, rfl⟩ | ⟨c₁, p, hpass, htext⟩
  · exact ⟨hpass, fun _ _ he => by cases he; exact Or.inl rfl⟩
  · obtain ⟨hpass', hexit⟩ := checkText_passing (hpass.headed hs) htext
    exact ⟨hpass.trans hpass', fun exit c' he => Or.inr (hexit exit c' he)⟩

/-- **Behind the request line** the URL is left alone, and only `do_request` gives a verdict. -/
theorem readLoop_passing (hs : c.checkState ≠ .requestLine) (h : c.readLoop = .ok (exit, c')) :
    Passing c c' ∧ (exit = .ret .noRequest ∨ exit = .doRequest) := by
  refine whileLoop_invariant (P := fun s => Passing c s.1)
    (Q := fun a : ReadExit × HttpConn => Passing c a.2 ∧ (a.1 = .ret .noRequest ∨ a.1 = .doRequest))
    ?_ ?_ (s := (c, LineStatus.lineOk)) (.refl c) h
  · intro s s' hpass hstep
    exact hpass.trans (readStep_passing (hpass.headed hs) hstep).1
  · intro s a hpass hstep
    obtain ⟨hpass', hexit⟩ := readStep_passing (hpass.headed hs) hstep
    exact ⟨hpass.trans hpass', hexit _ _ rfl⟩

/-! ## The URL -/

/-- What `m_url` points at is a slash, or has been cut away. -/
def Slashed (c : HttpConn) : Prop := ∀ u, c.url = some u → c.readBuf u = 47 ∨ c.readBuf u = 0

theorem Passing.slashed (h : Passing c c') (hc : Slashed c) : Slashed c' := by
  intro u hu
  rw [h.url] at hu
  rcases h.bytes u with he | he
  · rw [he]
    exact hc u hu
  · exact Or.inr he

/-- What `m_url` points at ends where it did, or before. -/
theorem Passing.urlEnds {e : Nat} (h : Passing c c') (hc : UrlEnds e c) : UrlEnds e c' := by
  intro u hu
  rw [h.url] at hu
  obtain ⟨q, hq, hqe, h0⟩ := hc u hu
  refine ⟨q, hq, hqe, ?_⟩
  rcases h.bytes q with he | he
  · rw [he, h0]
  · exact he

/-- The URL that a request line leaves, when it is accepted. -/
theorem parseRequestLine_slashed {r : HttpCode} (h : c.parseRequestLine p = .ok (r, c')) :
    c'.checkState = c.checkState ∨ Slashed c' := by
  have hurl : ∀ {c : HttpConn} {u : Nat}, c.parseUrl u = .ok (r, c') →
      c'.checkState = c.checkState ∨ Slashed c' := by
    intro c u h
    obtain ⟨v, -, h⟩ := bind_eq_ok.mp h
    obtain ⟨v, -, h⟩ := bind_eq_ok.mp h
    cases v with
    | none => cases h; exact Or.inl rfl
    | some v =>
      simp only at h
      split at h
      · cases h; exact Or.inl rfl
      · rename_i hslash
        obtain ⟨c₂, hc₂, h⟩ := bind_eq_ok.mp h
        cases h
        apply Or.inr
        intro u hu
        simp only [judge, strcat] at hc₂
        split at hc₂
        · split at hc₂ <;> cases hc₂
          cases hu
          -- the page is written behind the slash
          exact Or.inl ((Mem.blit_lt _ _ (by omega)).trans (not_not.mp hslash))
        · cases hc₂
          cases hu
          exact Or.inl (not_not.mp hslash)
  have hversion : ∀ {c : HttpConn} {u : Nat}, c.parseVersion u = .ok (r, c') →
      c'.checkState = c.checkState ∨ Slashed c' := by
    intro c u h
    simp only [parseVersion] at h
    split at h
    · cases h; exact Or.inl rfl
    · split at h
      · have hparse := hurl h
        exact hparse
      · cases h; exact Or.inl rfl
  simp only [parseRequestLine] at h
  split at h
  · cases h; exact Or.inl rfl
  · split at h
    · have hparse := hversion h
      exact hparse
    · split at h
      · have hparse := hversion h
        exact hparse
      · cases h; exact Or.inl rfl

end

end HttpConn

/-! ## Read by read -/

/-- The request line of some bytes is whole, and accepted. -/
def acceptsRequest (w : List Byte) : Bool :=
  (scanLine w).1 = .lineOk && acceptsLine (cword (w.take ((scanLine w).2 - 2)))

/-- A connection from `init()` on, for as long as `process_read` returns `NO_REQUEST`. A read is
    given no more than there is room for. -/
def reading : System HttpConn (List Byte) where
  start c := ∃ d : HttpConn, c = d.init
  step c x c' := c.readIdx + x.length ≤ readBufferSize ∧
    (c.receive x).readLoop = .ok (.ret .noRequest, c')

/-- All that was read. -/
def received (h : List (List Byte)) : List Byte := h.reverse.flatten

@[simp] theorem received_cons (x : List Byte) (h : List (List Byte)) :
    received (x :: h) = received h ++ x := by
  simp [received]

namespace HttpConn

/-- What holds of `c` when it waits for more behind the bytes `w`, that it was given when it was `f`.
    In the head it stands for `f` with `w` received; in the body the request line was accepted. -/
structure Waiting (f : HttpConn) (w : List Byte) (c : HttpConn) : Prop where
  unread : c.unread = { f.unread with readIdx := w.length }
  room : w.length ≤ readBufferSize
  phase : (headEnd w = .pending ∧ ∀ y, (c.receive y).readLoop = (f.receive (w ++ y)).readLoop) ∨
    acceptsRequest w = true ∧ c.checkState = .content ∧ UrlEnds c.readIdx c ∧ Slashed c

section
variable {f c c' : HttpConn} {w x : List Byte} {exit : ReadExit}

theorem Waiting.read (h : Waiting f w c) : c.readIdx = w.length :=
  congrArg HttpConn.readIdx h.unread

theorem AtRequest.waiting (hf : f.AtRequest) : Waiting f [] f := by
  refine ⟨?_, Nat.zero_le _, Or.inl ⟨rfl, fun y => by rw [List.nil_append]⟩⟩
  rw [List.length_nil, ← hf.read]
  rfl

/-- A request line that is whole stays as it is. -/
theorem acceptsRequest_append (h : (scanLine w).1 = .lineOk) (x : List Byte) :
    acceptsRequest (w ++ x) = acceptsRequest w := by
  obtain ⟨hscan, htake, -⟩ := scanLine_ok_append h x
  unfold acceptsRequest
  rw [hscan, htake]

theorem acceptsRequest_of_body {k : Nat} {length : Int} (h : headEnd w = .body k length) :
    acceptsRequest w = true := by
  unfold headEnd at h
  unfold acceptsRequest
  by_cases hok : (scanLine w).1 = .lineOk
  · simp only [hok, if_true] at h
    split at h
    · rename_i hacc
      simp only [hok, hacc, decide_true, Bool.and_true]
    · cases h
  · simp [hok] at h

/-- **The verdict**: a request line that is not accepted is a `BAD_REQUEST`, and behind one that is
    the verdict is left to `do_request`. -/
theorem AtRequest.verdict (hf : f.AtRequest) (hroom : w.length ≤ readBufferSize)
    (h : (f.receive w).readLoop = .ok (exit, c')) :
    (exit = .ret .noRequest ∨ exit = if acceptsRequest w then .doRequest else .ret .badRequest) ∧
      (acceptsRequest w = true → Slashed c') := by
  by_cases hok : (scanLine w).1 = .lineOk
  · have hat := hf.atLine hroom
    have hstate : (f.receive w).checkState = .requestLine := hf.state
    obtain ⟨c₁, hc₁⟩ := hat.cutLine (by rw [hstate]; decide) (by rw [hf.unchecked_receive]; exact hok)
    rw [hf.unchecked_receive] at hc₁
    have htwo := hc₁.two
    have hchecked := hc₁.checked
    have hwithin := hc₁.line.within
    have hroom₁ := hc₁.line.room
    have hacc := parseRequestLine_accepts hc₁.terminated (by omega)
    have hlocal := parseRequestLine_local hc₁.terminated (by omega)
    rw [hc₁.text, hf.unchecked_receive] at hacc
    have hstep := hc₁.step []
    rw [receive_nil, receive_nil, checkText, hc₁.state.trans hstate] at hstep
    have haccepts : acceptsRequest w = acceptsLine (cword (w.take ((scanLine w).2 - 2))) := by
      simp only [acceptsRequest, hok, decide_true, Bool.true_and]
    rw [readLoop_eq, readFrom_eq, hstep] at h
    cases hparse : c₁.parseRequestLine (f.receive w).checkedIdx with
    | error e => rw [hparse] at h; cases h
    | ok r =>
      obtain ⟨ret, c₂⟩ := r
      rw [hparse] at h
      rcases hlocal.code hparse with rfl | ⟨rfl, hs₂⟩
      · -- it is not accepted, and the loop is left
        cases h
        have hno : ¬ acceptsRequest w = true := by
          rw [haccepts]
          intro ha
          obtain ⟨c', hc'⟩ := hacc.mp ha
          rw [hparse] at hc'
          cases hc'
        exact ⟨Or.inr (if_neg hno).symm, fun ha => absurd ha hno⟩
      · -- it is, and the loop goes on behind it
        have hyes : acceptsRequest w = true := haccepts.trans (hacc.mpr ⟨c₂, hparse⟩)
        have hloop : c₂.readLoop = .ok (exit, c') := by
          rw [readLoop_eq]
          exact h
        obtain ⟨hpass, hexit⟩ := readLoop_passing (by rw [hs₂]; decide) hloop
        have hslashed : Slashed c₂ := by
          rcases parseRequestLine_slashed hparse with he | he
          · rw [hs₂, hc₁.state, hstate] at he
            cases he
          · exact he
        rw [if_pos hyes]
        exact ⟨hexit, fun _ => hpass.slashed hslashed⟩
  · -- no line has ended
    have hpending : headEnd w = .pending := by
      unfold headEnd
      simp only [if_neg hok]
    have hno : acceptsRequest w = false := by
      unfold acceptsRequest
      rw [decide_eq_false hok, Bool.false_and]
    have hrun := hf.headRun hroom
    rw [hpending] at hrun
    cases hrun with
    | pending c₁ run =>
      rw [run] at h
      cases h
      refine ⟨Or.inl rfl, fun ha => ?_⟩
      rw [hno] at ha
      cases ha

/-- **One more read**, as long as the loop does not fault. -/
theorem Waiting.call (hf : f.AtRequest) (h : Waiting f w c) (hroom : (w ++ x).length ≤ readBufferSize)
    (hrun : (c.receive x).readLoop = .ok (exit, c')) :
    c'.unread = { f.unread with readIdx := (w ++ x).length } ∧
      if exit = .ret .noRequest then Waiting f (w ++ x) c'
      else UrlEnds c'.readIdx c' ∧ (acceptsRequest (w ++ x) = true → Slashed c') ∧
        exit = if acceptsRequest (w ++ x) then .doRequest else .ret .badRequest := by
  have hunread : c'.unread = { f.unread with readIdx := (w ++ x).length } := by
    rw [readLoop_unread hrun, List.length_append, ← h.read]
    exact congrArg (fun d : HttpConn => { d with readIdx := c.readIdx + x.length }) h.unread
  refine ⟨hunread, ?_⟩
  have hread : c'.readIdx = (w ++ x).length := congrArg HttpConn.readIdx hunread
  rcases h.phase with ⟨hpending, hresume⟩ | ⟨haccepts, hstate, hurl, hslashed⟩
  · -- in the head: as if all had come at once
    have hhead := hf.headRun hroom
    rw [hresume] at hrun
    obtain ⟨hverdict, hslashed⟩ := hf.verdict hroom hrun
    have hbody : ∀ {b : HttpConn}, b.checkState = .content → b.AtLine → b.readIdx = (f.receive (w ++ x)).readIdx →
        (∀ y, ((f.receive (w ++ x)).receive y).readLoop = (b.receive y).readLoop) →
        c'.checkState = .content ∧ UrlEnds c'.readIdx c' := by
      intro b hb hline hidx hall
      have hall := hall []
      rw [receive_nil, receive_nil, hrun] at hall
      have hpass := (readLoop_passing (by rw [hb]; decide) hall.symm).1
      have hends : UrlEnds b.readIdx b := fun u hu => (hline.url u hu).mono hline.within
      refine ⟨hpass.state.elim (fun he => he.trans hb) id, ?_⟩
      rw [hpass.readIdx]
      exact hpass.urlEnds hends
    generalize hend : headEnd (w ++ x) = o at hhead
    cases hhead with
    | fault e run =>
      have hall := run []
      rw [receive_nil, hrun] at hall
      cases hall
    | pending c'' run resume =>
      rw [hrun] at run
      cases run
      rw [if_pos rfl]
      exact ⟨hunread, hroom, Or.inl ⟨hend, fun y => by rw [← receive_receive, resume]⟩⟩
    | done exit' c'' verdict head url run =>
      have hall := run []
      rw [receive_nil, receive_nil, hrun] at hall
      cases hall
      rw [if_neg verdict]
      exact ⟨url, hslashed, hverdict.resolve_left verdict⟩
    | body b k state line length checked unchecked read above run =>
      obtain ⟨hcontent, hends⟩ := hbody state line read run
      have haccepts := acceptsRequest_of_body hend
      by_cases hexit : exit = .ret .noRequest
      · rw [if_pos hexit]
        exact ⟨hunread, hroom, Or.inr ⟨haccepts, hcontent, hends, hslashed haccepts⟩⟩
      · rw [if_neg hexit]
        exact ⟨hends, hslashed, hverdict.resolve_left hexit⟩
  · -- in the body
    have hok : (scanLine w).1 = .lineOk := by
      unfold acceptsRequest at haccepts
      exact of_decide_eq_true (Bool.and_eq_true _ _ ▸ haccepts).1
    have hurl' : UrlEnds (c.receive x).readIdx (c.receive x) := by
      intro u hu
      refine ((hurl u hu).congr fun i _ hi => ?_).mono (Nat.le_add_right _ _)
      exact (Mem.blit_lt _ _ hi).symm
    have hslashed' : Slashed (c.receive x) := by
      intro u hu
      obtain ⟨q, hq, hqe, -⟩ := hurl u hu
      rw [show (c.receive x).readBuf u = c.readBuf u from Mem.blit_lt _ _ (Nat.lt_of_le_of_lt hq hqe)]
      exact hslashed u hu
    have hstate' : (c.receive x).checkState = .content := hstate
    obtain ⟨hpass, hexit⟩ := readLoop_passing (by rw [hstate']; decide) hrun
    have haccepts' := (acceptsRequest_append hok x).trans haccepts
    have hends : UrlEnds c'.readIdx c' := by
      rw [hpass.readIdx]
      exact hpass.urlEnds hurl'
    have hcontent : c'.checkState = .content := hpass.state.elim (fun he => he.trans hstate') id
    by_cases hne : exit = .ret .noRequest
    · rw [if_pos hne]
      exact ⟨hunread, hroom, Or.inr ⟨haccepts', hcontent, hends, hpass.slashed hslashed'⟩⟩
    · rw [if_neg hne, if_pos haccepts']
      exact ⟨hends, fun _ => hpass.slashed hslashed', hexit.resolve_left hne⟩

end

end HttpConn

/-- **Any number of reads.** -/
theorem reading_waiting {f c : HttpConn} {h : List (List Byte)} (hstart : reading.start f)
    (hr : reading.Run f h c) : f.AtRequest ∧ HttpConn.Waiting f (received h) c := by
  obtain ⟨d, rfl⟩ := hstart
  have hf := d.init_atRequest
  refine ⟨hf, hr.invariant (I := fun h c => HttpConn.Waiting d.init (received h) c) ?_ hf.waiting⟩
  intro h c x c' hw hst
  obtain ⟨hroom, hrun⟩ := hst
  rw [hw.read, ← List.length_append] at hroom
  have hcall := (hw.call hf hroom hrun).2
  rw [if_pos rfl] at hcall
  rw [received_cons]
  exact hcall

/-- What the read that has a verdict leaves, of a connection that was `f` and has read `w`. -/
structure Verdict (f : HttpConn) (w : List Byte) (exit : HttpConn.ReadExit) (c : HttpConn) : Prop where
  exit_eq : exit = if acceptsRequest w then .doRequest else .ret .badRequest
  url : ∀ u, c.url = some u → u + (c.str u).length < readBufferSize
  slashed : exit = .doRequest → c.Slashed
  docRoot : c.docRoot = f.docRoot
  realFile : ∀ i, c.realFile i = 0
  writeIdx : c.writeIdx = 0
  bytesHaveSend : c.bytesHaveSend = 0
  bytesToSend : c.bytesToSend = 0

/-- **The last read.** -/
theorem reading_verdict {f c c₁ : HttpConn} {h : List (List Byte)} {x : List Byte} {exit : HttpConn.ReadExit}
    (hstart : reading.start f) (hr : reading.Run f h c) (hroom : c.readIdx + x.length ≤ readBufferSize)
    (hread : (c.receive x).readLoop = .ok (exit, c₁)) (hexit : exit ≠ .ret .noRequest) :
    Verdict f (received h ++ x) exit c₁ := by
  obtain ⟨hf, hwaiting⟩ := reading_waiting hstart hr
  obtain ⟨d, rfl⟩ := hstart
  rw [hwaiting.read, ← List.length_append] at hroom
  obtain ⟨hunread, hcall⟩ := hwaiting.call hf hroom hread
  rw [if_neg hexit] at hcall
  obtain ⟨hurl, hslashed, hverdict⟩ := hcall
  have hlength : c₁.readIdx = (received h ++ x).length := (congrArg HttpConn.readIdx hunread :)
  refine ⟨hverdict, fun u hu => ?_, fun hdo => hslashed ?_, (congrArg HttpConn.docRoot hunread :), ?_,
    (congrArg HttpConn.writeIdx hunread :), (congrArg HttpConn.bytesHaveSend hunread :),
    (congrArg HttpConn.bytesToSend hunread :)⟩
  · have hend := (hurl u hu).length_lt (readBufferSize - u)
    exact Nat.lt_of_lt_of_le hend (hlength ▸ hroom)
  · by_contra hno
    rw [if_neg hno, hdo] at hverdict
    cases hverdict
  · have hclear : c₁.realFile = fun _ => 0 := (congrArg HttpConn.realFile hunread :)
    exact fun i => congrFun hclear i

end Http
end LinuxServer
