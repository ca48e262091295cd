import LinuxServer.Http.Process

/-!
# `Http/Slot.lean` — what `init()` leaves in a slot of `users`

A connection is a slot of `users` that `init()` was called on, and what `init()` does not assign is
there still: `m_string`, `m_file_address`, `m_file_stat`, `m_iv` and `m_iv_count`, a `Leftover`.
`inSlot` is a connection that stands in such a slot, its own `m_string` in front if it has set it.

Parsing does not look at what is left (`readLoop_inSlot`), and `do_request` only for a form
(`doRequest_inSlot`), so that what they do to a connection they do to it in any slot. `process_write`
is the first to make the two one: `Sends` is what it leaves equal in any two slots.
-/

set_option autoImplicit false

namespace LinuxServer
namespace Http

/-- The fields that `init()` does not assign. -/
structure Leftover where
  string : Option Nat
  fileAddress : Option Nat
  fileStat : FileStat
  iv0 : IoVec
  iv1 : IoVec
  ivCount : Nat

namespace HttpConn

def leftover (c : HttpConn) : Leftover where
  string := c.string
  fileAddress := c.fileAddress
  fileStat := c.fileStat
  iv0 := c.iv0
  iv1 := c.iv1
  ivCount := c.ivCount

/-- The connection `c`, in a slot with these. -/
def inSlot (c : HttpConn) (l : Leftover) : HttpConn :=
  { c with
    string := c.string.or l.string
    fileAddress := l.fileAddress
    fileStat := l.fileStat
    iv0 := l.iv0
    iv1 := l.iv1
    ivCount := l.ivCount }

/-- A connection in a slot that was never used. -/
def fresh (root : List Byte) : HttpConn := ({ (default : HttpConn) with docRoot := root } : HttpConn).init

/-- **`init()`** makes any two connections one, but for what is left. -/
theorem init_inSlot (c : HttpConn) : c.init = (fresh c.docRoot).inSlot c.leftover := rfl

/-- A result, in a slot. -/
def onSlot {α : Type} (l : Leftover) (r : α × HttpConn) : α × HttpConn := (r.1, r.2.inSlot l)

section
variable (c : HttpConn) (l : Leftover) (p : Nat)

/-! ## `process_read` -/

theorem skipScheme_inSlot (scheme : List Byte) (url : Option Nat) :
    (c.inSlot l).skipScheme scheme url = c.skipScheme scheme url := rfl

theorem judge_inSlot : (c.inSlot l).judge p = (c.judge p).map (·.inSlot l) := by
  simp only [judge, strcat]
  show (if (c.str p).length = 1 then _ else _) = _
  split
  · show (if p + (c.str p).length + _ < readBufferSize then _ else _) = _
    split <;> rfl
  · rfl

theorem parseUrl_inSlot : (c.inSlot l).parseUrl p = (c.parseUrl p).map (onSlot l) := by
  simp only [parseUrl, skipScheme_inSlot]
  cases c.skipScheme (bytes "http://") (some p) with
  | error f => rfl
  | ok u =>
    simp only [bind, Except.bind]
    cases c.skipScheme (bytes "https://") u with
    | error f => rfl
    | ok v =>
      cases v with
      | none => rfl
      | some v =>
        simp only
        show (if c.readBuf v ≠ 47 then _ else _) = _
        split
        · rfl
        · rw [show ({ c.inSlot l with url := some v } : HttpConn) =
            ({ c with url := some v } : HttpConn).inSlot l from rfl, judge_inSlot]
          cases ({ c with url := some v } : HttpConn).judge v <;> rfl

theorem parseVersion_inSlot : (c.inSlot l).parseVersion p = (c.parseVersion p).map (onSlot l) := by
  have hstr : ∀ q, (c.inSlot l).str q = c.str q := fun _ => rfl
  simp only [parseVersion, hstr]
  generalize p + strspn (c.str p) blanks = u
  cases strpbrk (c.str u) blanks with
  | none => rfl
  | some j =>
    have hcut : ((c.inSlot l).put (u + j) 0).str (u + j + 1) = (c.put (u + j) 0).str (u + j + 1) := rfl
    simp only [hcut]
    generalize u + j + 1 + strspn ((c.put (u + j) 0).str (u + j + 1)) blanks = v
    let c' : HttpConn := { c.put (u + j) 0 with url := some u, version := some v }
    show (if strcasecmp (c'.str v) (bytes "HTTP/1.1") = true then (c'.inSlot l).parseUrl u
      else .ok (.badRequest, c'.inSlot l)) = Except.map (onSlot l)
        (if strcasecmp (c'.str v) (bytes "HTTP/1.1") = true then c'.parseUrl u else .ok (.badRequest, c'))
    split
    · exact parseUrl_inSlot c' l u
    · rfl

theorem parseRequestLine_inSlot :
    (c.inSlot l).parseRequestLine p = (c.parseRequestLine p).map (onSlot l) := by
  have hstr : (c.inSlot l).str p = c.str p := rfl
  simp only [parseRequestLine, hstr]
  cases strpbrk (c.str p) blanks with
  | none => rfl
  | some i =>
    let c' : HttpConn := { c.put (p + i) 0 with url := some (p + i + 1) }
    show (if strcasecmp (c'.str p) (bytes "GET") = true then
        (({ c' with method := .get } : HttpConn).inSlot l).parseVersion (p + i + 1)
      else if strcasecmp (c'.str p) (bytes "POST") = true then
        (({ c' with method := .post, cgi := 1 } : HttpConn).inSlot l).parseVersion (p + i + 1)
      else .ok (.badRequest, c'.inSlot l)) = Except.map (onSlot l)
        (if strcasecmp (c'.str p) (bytes "GET") = true then
          ({ c' with method := .get } : HttpConn).parseVersion (p + i + 1)
        else if strcasecmp (c'.str p) (bytes "POST") = true then
          ({ c' with method := .post, cgi := 1 } : HttpConn).parseVersion (p + i + 1)
        else .ok (.badRequest, c'))
    repeat' split
    · exact parseVersion_inSlot _ l _
    · exact parseVersion_inSlot _ l _
    · rfl

theorem parseHeaders_inSlot : (c.inSlot l).parseHeaders p = onSlot l (c.parseHeaders p) := by
  have hstr : ∀ q, (c.inSlot l).str q = c.str q := fun _ => rfl
  have hlength : (c.inSlot l).contentLength = c.contentLength := rfl
  simp only [parseHeaders, hstr, hlength]
  repeat' split
  all_goals rfl

theorem parseContent_inSlot : (c.inSlot l).parseContent p = (c.parseContent p).map (onSlot l) := by
  have hlength : (c.inSlot l).contentLength = c.contentLength := rfl
  have hchecked : (c.inSlot l).checkedIdx = c.checkedIdx := rfl
  have hread : (c.inSlot l).readIdx = c.readIdx := rfl
  simp only [parseContent, hlength, hchecked, hread]
  repeat' split
  all_goals rfl

theorem parseLineLoop_inSlot : ∀ (n : Nat) (c : HttpConn),
    parseLineLoop n (c.inSlot l) = onSlot l (parseLineLoop n c)
  | 0, _ => rfl
  | n + 1, c => by
    have hchecked : (c.inSlot l).checkedIdx = c.checkedIdx := rfl
    have hread : (c.inSlot l).readIdx = c.readIdx := rfl
    have hbuf : (c.inSlot l).readBuf = c.readBuf := rfl
    have hnext := parseLineLoop_inSlot n { c with checkedIdx := c.checkedIdx + 1 }
    simp only [parseLineLoop, hchecked, hread, hbuf]
    repeat' split
    all_goals first
      | exact hnext
      | rfl

/-- A way out of the loop of `process_read`, or a state to go on from, in a slot. -/
def onTurn (l : Leftover) :
    (ReadExit × HttpConn) ⊕ (HttpConn × LineStatus) → (ReadExit × HttpConn) ⊕ (HttpConn × LineStatus) :=
  Sum.map (onSlot l) fun s => (s.1.inSlot l, s.2)

theorem checkText_inSlot : (c.inSlot l).checkText p = (c.checkText p).map (onTurn l) := by
  have hstate : (c.inSlot l).checkState = c.checkState := rfl
  unfold checkText
  rw [hstate]
  cases c.checkState with
  | requestLine =>
    simp only [parseRequestLine_inSlot]
    cases c.parseRequestLine p with
    | error f => rfl
    | ok r =>
      obtain ⟨ret, c'⟩ := r
      simp only [Except.map, onSlot, bind, Except.bind]
      split <;> rfl
  | header =>
    simp only [parseHeaders_inSlot, onSlot]
    split <;> rfl
  | content =>
    simp only [parseContent_inSlot]
    cases c.parseContent p with
    | error f => rfl
    | ok r =>
      obtain ⟨ret, c'⟩ := r
      simp only [Except.map, onSlot, bind, Except.bind]
      split <;> rfl

theorem readStep_inSlot (s : HttpConn × LineStatus) :
    readStep (s.1.inSlot l, s.2) = (readStep s).map (onTurn l) := by
  obtain ⟨c, lineStatus⟩ := s
  have hline : (c.inSlot l).parseLine = onSlot l c.parseLine := parseLineLoop_inSlot l _ c
  rcases readStep_split c lineStatus with ⟨hbody, hstep⟩ | ⟨hbody, hopen, hstep⟩ | ⟨hbody, hok, hstep⟩
  · have hbody' : (c.inSlot l).checkState = .content ∧ lineStatus = .lineOk := hbody
    rw [hstep, readStep_body hbody']
    exact checkText_inSlot { c with startLine := c.checkedIdx } l _
  · have hbody' : ¬ ((c.inSlot l).checkState = .content ∧ lineStatus = .lineOk) := hbody
    have hopen' : (c.inSlot l).parseLine.1 ≠ .lineOk := by
      rw [hline]
      exact hopen
    rw [hstep, readStep_open hbody' hopen', hline]
    rfl
  · have hbody' : ¬ ((c.inSlot l).checkState = .content ∧ lineStatus = .lineOk) := hbody
    have hparse : c.parseLine = (.lineOk, c.parseLine.2) := by rw [← hok]
    rw [hstep, readStep_line hbody' (hline.trans (congrArg (onSlot l) hparse))]
    exact checkText_inSlot { c.parseLine.2 with startLine := c.parseLine.2.checkedIdx } l _

/-- **Parsing does not look at what is left.** -/
theorem readLoop_inSlot : (c.inSlot l).readLoop = c.readLoop.map (onSlot l) :=
  whileLoop_map (g := fun s : HttpConn × LineStatus => (s.1.inSlot l, s.2)) (k := onSlot l)
    (readStep_inSlot l) _ (c, LineStatus.lineOk)

/-! ## `do_request` -/

theorem copyRoot_inSlot : (c.inSlot l).copyRoot = c.copyRoot.map (·.inSlot l) := by
  have hroot : (c.inSlot l).docRoot = c.docRoot := rfl
  simp only [copyRoot, hroot]
  split <;> rfl

theorem copyPath_inSlot (src : List Byte) (n : Nat) :
    (c.inSlot l).copyPath src n = (c.copyPath src n).map (·.inSlot l) := by
  have hroot : (c.inSlot l).docRoot = c.docRoot := rfl
  simp only [copyPath, hroot]
  split <;> rfl

theorem setUrl_inSlot (page : List Byte) :
    (c.inSlot l).setUrl p page = (c.setUrl p page).map (·.inSlot l) := by
  unfold setUrl
  split <;> rfl

theorem selectPage_inSlot (q : Nat) :
    (c.inSlot l).selectPage p q = (c.selectPage p q).map (·.inSlot l) := by
  have hroot : (c.inSlot l).docRoot = c.docRoot := rfl
  have hstr : (c.inSlot l).str p = c.str p := rfl
  have hbuf : (c.inSlot l).readBuf = c.readBuf := rfl
  simp only [selectPage, hroot, hstr, hbuf, copyPath_inSlot]
  repeat' split
  all_goals rfl

theorem copyField_inSlot (stop : Byte) : ∀ (n p : Nat), (c.inSlot l).copyField stop n p = c.copyField stop n p
  | 0, _ => rfl
  | n + 1, p => by
    have hbuf : (c.inSlot l).readBuf = c.readBuf := rfl
    simp only [copyField, hbuf, copyField_inSlot stop n]

/-- `name` and `passwd` are looked for at `m_string`. -/
theorem credentials_inSlot (h : (c.inSlot l).string = c.string) :
    (c.inSlot l).credentials = c.credentials := by
  simp only [credentials, h, copyField_inSlot]

/-- The last slash of `m_url` has a `'2'` or a `'3'` behind it, and the method was `POST`. -/
def FormAt (c : HttpConn) (p : Nat) : Prop := c.cgi = 1 ∧ (c.readBuf (p + 1) = 50 ∨ c.readBuf (p + 1) = 51)

instance : Decidable (c.FormAt p) := inferInstanceAs (Decidable (_ ∧ _))

variable (decode : List Byte → Option (List Byte × List Byte)) (accepts : Bool) (w : World)

theorem answerForm_inSlot (q : Nat) (h : c.FormAt q → (c.inSlot l).string = c.string) :
    (c.inSlot l).answerForm decode accepts p q w =
      (c.answerForm decode accepts p q w).map fun r => (r.1.inSlot l, r.2) := by
  have hroot : (c.inSlot l).docRoot = c.docRoot := rfl
  have hstr : (c.inSlot l).str (p + 2) = c.str (p + 2) := rfl
  have hcgi : (c.inSlot l).cgi = c.cgi := rfl
  have hbuf : (c.inSlot l).readBuf = c.readBuf := rfl
  by_cases hform : c.cgi = 1 ∧ (c.readBuf (q + 1) = 50 ∨ c.readBuf (q + 1) = 51)
  · simp only [answerForm, hroot, hstr, hcgi, hbuf]
    rw [if_pos hform, if_pos hform]
    split
    · rw [copyPath_inSlot]
      cases hcopy : c.copyPath (bytes "/" ++ c.str (p + 2)) (filenameLen - c.docRoot.length - 1) with
      | error f => rfl
      | ok c₁ =>
        -- the path that is copied is not where the fields are read
        have hsame : c₁.string = c.string := by
          simp only [copyPath] at hcopy
          split at hcopy <;> cases hcopy
          rfl
        have hstring : (c₁.inSlot l).string = c₁.string := by
          show c₁.string.or l.string = c₁.string
          rw [hsame]
          exact h hform
        simp only [Except.map, bind, Except.bind, credentials_inSlot c₁ l hstring]
        cases c₁.credentials with
        | error f => rfl
        | ok r =>
          obtain ⟨name, passwd⟩ := r
          have hbuf₁ : (c₁.inSlot l).readBuf = c₁.readBuf := rfl
          simp only [hbuf₁, setUrl_inSlot]
          split
          · split
            · cases c₁.setUrl p (w.register decode accepts name passwd).1 <;> rfl
            · rfl
          · cases c₁.setUrl p (w.login name passwd) <;> rfl
    · rfl
  · simp only [answerForm, hcgi, hbuf]
    rw [if_neg hform, if_neg hform]
    rfl

end

end HttpConn

/-- What is left when the file at `path` was looked up. -/
def Leftover.opened (l : Leftover) (fs : FileSystem) (path : List Byte) : Leftover :=
  match fs.stat path with
  | none => l
  | some st =>
    if st.irOth ∧ ¬ st.isDir then { l with fileStat := st, fileAddress := some (fs.mmap path) }
    else { l with fileStat := st }

namespace HttpConn

section
variable (fs : FileSystem) (decode : List Byte → Option (List Byte × List Byte)) (accepts : Bool) (w : World)
  (c : HttpConn) (l : Leftover)

theorem openFile_inSlot :
    (c.inSlot l).openFile fs = onSlot (l.opened fs (c.realFile.cstr filenameLen 0)) (c.openFile fs) := by
  have hfile : (c.inSlot l).realFile = c.realFile := rfl
  simp only [openFile, Leftover.opened, hfile]
  cases fs.stat (c.realFile.cstr filenameLen 0) with
  | none => rfl
  | some st =>
    simp only
    by_cases hoth : st.irOth = true
    · by_cases hdir : st.isDir = true
      · rw [if_neg (not_not.mpr hoth), if_pos hdir, if_neg (fun h => h.2 hdir), if_neg (not_not.mpr hoth),
          if_pos hdir]
        rfl
      · rw [if_neg (not_not.mpr hoth), if_neg hdir, if_pos ⟨hoth, hdir⟩, if_neg (not_not.mpr hoth), if_neg hdir]
        rfl
    · rw [if_pos hoth, if_neg (fun h => hoth h.1), if_pos hoth]
      rfl

/-- The request is a `POST` of a form: a login, or a registration. -/
def isForm (c : HttpConn) : Bool :=
  (c.url.bind fun u => (c.lastSlash u).toOption).any fun p => decide (c.FormAt p)

/-- **`do_request` looks at what is left for a form only**, and for none that has a body. -/
theorem doRequest_inSlot (h : c.isForm = true → (c.inSlot l).string = c.string) :
    (c.inSlot l).doRequest fs decode accepts w = (c.doRequest fs decode accepts w).map fun r =>
      (onSlot (l.opened fs (r.1.2.realFile.cstr filenameLen 0)) r.1, r.2) := by
  have hurl : (c.inSlot l).url = c.url := rfl
  unfold doRequest
  rw [hurl]
  cases hu : c.url with
  | none => rfl
  | some u =>
    simp only [copyRoot_inSlot]
    cases hroot : c.copyRoot with
    | error f => rfl
    | ok c₁ =>
      have hsame : c₁.string = c.string ∧ c₁.readBuf = c.readBuf ∧ c₁.cgi = c.cgi := by
        simp only [copyRoot] at hroot
        split at hroot <;> cases hroot
        exact ⟨rfl, rfl, rfl⟩
      have hslash : (c₁.inSlot l).lastSlash u = c₁.lastSlash u := rfl
      have hslash' : c₁.lastSlash u = c.lastSlash u := by
        simp only [lastSlash, str, hsame.2.1]
      simp only [Except.map, bind, Except.bind, hslash]
      cases hp : c₁.lastSlash u with
      | error f => rfl
      | ok p =>
        -- `isForm` asks this of `c`, in front of the copy of `doc_root`
        have hform : c₁.FormAt p → (c₁.inSlot l).string = c₁.string := by
          intro hat
          show c₁.string.or l.string = c₁.string
          rw [hsame.1]
          apply h
          unfold FormAt at hat
          rw [hsame.2.1, hsame.2.2] at hat
          unfold isForm
          rw [hu, Option.bind_some, hslash'.symm.trans hp]
          exact decide_eq_true hat
        simp only [answerForm_inSlot c₁ l u decode accepts w p hform]
        cases c₁.answerForm decode accepts u p w with
        | error f => rfl
        | ok r =>
          obtain ⟨c₂, w₂⟩ := r
          simp only [Except.map, selectPage_inSlot]
          cases c₂.selectPage u p with
          | error f => rfl
          | ok c₃ =>
            simp only [pure, Except.pure, openFile_inSlot, openFile_realFile]

end

end HttpConn

/-! ## `process_write` -/

/-- What `munmap` is called with, if `unmap()` calls it. -/
def HttpConn.mapping (c : HttpConn) : Option (Nat × Int) := c.fileAddress.map fun address => (address, c.fileStat.size)

/-- Two slots in which the same response stands to be sent: a page, or a file that both have mapped. -/
structure Sends (l l' : Leftover) : Prop where
  iv0 : l.iv0 = l'.iv0
  ivCount : l.ivCount = l'.ivCount
  file : l.ivCount = 1 ∨ l.iv1 = l'.iv1 ∧ l.fileAddress = l'.fileAddress ∧ l.fileStat = l'.fileStat

/-- **`process_write`** prepares one response in two slots, if a file that it is to send was found from
    both. -/
theorem processWrite_inSlot {c : HttpConn} {l l' : Leftover} {ret : HttpCode} (hidx : c.writeIdx = 0)
    (hfile : ret = .fileRequest → l.fileAddress = l'.fileAddress ∧ l.fileStat = l'.fileStat) :
    ∃ (c' : HttpConn) (m m' : Leftover), (c.inSlot l).processWrite ret = (true, c'.inSlot m) ∧
      (c.inSlot l').processWrite ret = (true, c'.inSlot m') ∧
      if HttpConn.answered ret then Sends m m' else c' = c := by
  have hidx₁ : (c.inSlot l).writeIdx = 0 := hidx
  have hidx₂ : (c.inSlot l').writeIdx = 0 := hidx
  rw [HttpConn.processWrite_eq hidx₁, HttpConn.processWrite_eq hidx₂]
  by_cases hans : HttpConn.answered ret = true
  · simp only [hans, if_true]
    have hlinger : ∀ k : Leftover, (c.inSlot k).linger = c.linger := fun _ => rfl
    have hstat : ∀ k : Leftover, (c.inSlot k).fileStat = k.fileStat := fun _ => rfl
    simp only [hlinger, hstat]
    by_cases hret : ret = .fileRequest
    · obtain ⟨haddress, hsize⟩ := hfile hret
      rw [hsize]
      generalize HttpConn.responseText ret l'.fileStat.size c.linger = text
      by_cases hbig : ret = .fileRequest ∧ l'.fileStat.size ≠ 0
      · rw [if_pos hbig, if_pos hbig]
        refine ⟨{ c.append text with bytesToSend := toInt ((c.append text).writeIdx + l'.fileStat.size) },
          { l with
            iv0 := ⟨.writeBuf 0, (c.append text).writeIdx⟩
            iv1 := ⟨.file l.fileAddress 0, toSize l'.fileStat.size⟩
            ivCount := 2 },
          { l' with
            iv0 := ⟨.writeBuf 0, (c.append text).writeIdx⟩
            iv1 := ⟨.file l'.fileAddress 0, toSize l'.fileStat.size⟩
            ivCount := 2 }, ?_, rfl, rfl, rfl, Or.inr ⟨?_, haddress, hsize⟩⟩
        · rw [← hsize]
          rfl
        · rw [haddress]
      · rw [if_neg hbig, if_neg hbig]
        exact ⟨{ c.append text with bytesToSend := (c.append text).writeIdx },
          { l with iv0 := ⟨.writeBuf 0, (c.append text).writeIdx⟩, ivCount := 1 },
          { l' with iv0 := ⟨.writeBuf 0, (c.append text).writeIdx⟩, ivCount := 1 }, rfl, rfl, rfl, rfl, Or.inl rfl⟩
    · -- the text of a page is the same whatever `m_file_stat` is
      have htext : HttpConn.responseText ret l.fileStat.size c.linger =
          HttpConn.responseText ret l'.fileStat.size c.linger := by
        cases ret with
        | fileRequest => exact absurd rfl hret
        | _ => rfl
      rw [htext, if_neg (fun h => hret h.1), if_neg (fun h => hret h.1)]
      generalize HttpConn.responseText ret l'.fileStat.size c.linger = text
      exact ⟨{ c.append text with bytesToSend := (c.append text).writeIdx },
        { l with iv0 := ⟨.writeBuf 0, (c.append text).writeIdx⟩, ivCount := 1 },
        { l' with iv0 := ⟨.writeBuf 0, (c.append text).writeIdx⟩, ivCount := 1 }, rfl, rfl, rfl, rfl, Or.inl rfl⟩
  · simp only [hans, Bool.false_eq_true, if_false]
    exact ⟨c, l, l', rfl, rfl, rfl⟩

end Http
end LinuxServer
