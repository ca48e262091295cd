import LinuxServer.Http.Session
import LinuxServer.Http.Slot

/-!
# `Http/Reuse.lean` — two connections, one after the other in a slot

A slot of `users` serves one connection after another, and each begins with `init()`. `Twins` are two
sessions that differ in what their slots had left only, and `Twins.step` says that they do the same as
long as every step is `Clean`: then what is `Seen` of the one, verdicts and paths, names and passwords,
the bytes that are sent and the calls of `munmap`, is seen of the other.

A step is not clean where the code looks at what is left. A form that is posted without a body has its
name and password read at the `m_string` of an earlier request, and the response that is not a file is
followed by a `munmap` of the file that an earlier connection had not done with (`leaked`).
-/

set_option autoImplicit false

namespace LinuxServer
namespace Http

/-! ## What is seen -/

/-- What can be seen of a step: the verdict with whether the connection is kept, the path that is looked
    up and the name and password that are read; or what `writev` is offered, how the round ends, and
    the call of `munmap`. -/
inductive Seen
  | process (verdict : Except Fault (HttpCode × Bool)) (path : Option (List Byte))
    (credentials : Option (Except Fault (List Byte × List Byte)))
  | call (nothing : Bool)
  | writev (offered : List (Option Byte)) (exit : Except Fault (Option WriteExit)) (munmap : Option (Nat × Int))
  deriving DecidableEq

namespace HttpConn

/-- What `do_request` reads of a form. -/
def formFields (c : HttpConn) : Option (Except Fault (List Byte × List Byte)) :=
  match c.readLoop with
  | .ok (.doRequest, c') => if c'.isForm then some c'.credentials else none
  | _ => none

/-- The call of `munmap` in a round of `write()`. -/
def munmap (c : HttpConn) : Writev → Option (Nat × Int)
  | .eagain => none
  | .failed => c.mapping
  | .sent temp =>
    match c.account temp with
    | .error _ => none
    | .ok c' => if c'.bytesToSend ≤ 0 then c'.mapping else none

end HttpConn

namespace Session

section
variable (fs : FileSystem) (files : Files) (decode : List Byte → Option (List Byte × List Byte))

def seen (s : Session) : Step → Seen
  | .read x accepts =>
    let c := s.transfer.conn.receive x
    let result := c.process fs decode accepts s.world
    .process (result.map fun r => (r.1.1, r.1.2.1))
      (result.toOption.map fun r => r.1.2.2.realFile.cstr filenameLen 0) c.formFields
  | .write .call => .call (s.transfer.conn.bytesToSend = 0)
  | .write (.writev answer) =>
    .writev (s.transfer.conn.offered files) ((s.transfer.conn.writeRound answer).map Prod.fst)
      (s.transfer.conn.munmap answer)

end

end Session

/-- `process()` comes to a form that has no body. -/
def HttpConn.bareForm (c : HttpConn) : Bool :=
  match c.readLoop with
  | .ok (.doRequest, c') => decide (c'.checkState ≠ .content) && c'.isForm
  | _ => false

/-- The step ends the response. -/
def Transfer.Ends (s : Transfer) : Transfer.Step → Prop
  | .writev .failed => True
  | .writev (.sent k) => s.conn.bytesToSend ≤ k
  | _ => False

/-- A step that two sessions take without a look at what their slots had left, or with the same there:
    `m_string`, where a form has no body; and the file that is mapped, where a response is at its end
    that is none itself. -/
def Clean (p : Session × Session) : Session.Step → Prop
  | .read x _ => p.1.transfer.conn.string = p.2.transfer.conn.string ∨
      (p.1.transfer.conn.receive x).bareForm = false
  | .write i => p.1.transfer.Ends i →
      p.1.transfer.conn.ivCount = 2 ∨ p.1.transfer.conn.mapping = p.2.transfer.conn.mapping

/-! ## `process()` -/

namespace HttpConn

/-- `m_string` is as it was, or set. -/
theorem readLoop_string {c c' : HttpConn} {exit : ReadExit} (h : c.readLoop = .ok (exit, c')) :
    c'.string = c.string ∨ c'.string.isSome = true := by
  have hslot : c = ({ c with string := none } : HttpConn).inSlot c.leftover := rfl
  rw [hslot, readLoop_inSlot] at h
  cases hrun : ({ c with string := none } : HttpConn).readLoop with
  | error e => rw [hrun] at h; cases h
  | ok r =>
    rw [hrun] at h
    cases h
    show r.2.string.or c.string = c.string ∨ (r.2.string.or c.string).isSome = true
    cases r.2.string with
    | none => exact Or.inl rfl
    | some text => exact Or.inr rfl

/-- The way out of the `switch`. -/
theorem checkText_exit {c c' : HttpConn} {p : Nat} {exit : ReadExit}
    (h : c.checkText p = .ok (.inl (exit, c'))) :
    exit = .ret .badRequest ∨ exit = .doRequest ∧ (c'.checkState = .content → c'.string.isSome = true) := by
  unfold checkText at h
  cases hs : c.checkState with
  | requestLine =>
    rw [hs] at h
    obtain ⟨⟨ret, c₁⟩, -, h⟩ := bind_eq_ok.mp h
    simp only at h
    split at h <;> cases h
    exact Or.inl rfl
  | header =>
    rw [hs] at h
    simp only at h
    split at h
    · rename_i hret
      cases h
      refine Or.inr ⟨rfl, fun hcontent => ?_⟩
      -- a blank line with a body behind it is no way out
      simp only [parseHeaders] at hret hcontent
      repeat' split at hret
      all_goals try cases hret
      rename_i hblank hlength
      rw [if_pos hblank, if_neg hlength] at hcontent
      rw [hs] at hcontent
      cases hcontent
    · cases h
  | content =>
    rw [hs] at h
    obtain ⟨⟨ret, c₁⟩, hparse, h⟩ := bind_eq_ok.mp h
    simp only at h
    split at h
    · rename_i hret
      cases h
      refine Or.inr ⟨rfl, fun _ => ?_⟩
      rcases parseContent_cases hparse with ⟨-, rfl⟩ | ⟨hno, -⟩
      · rfl
      · cases hret.symm.trans hno
    · cases h

/-- How the loop is left, and that a body has set `m_string`. -/
theorem readLoop_exit {c c' : HttpConn} {exit : ReadExit} (h : c.readLoop = .ok (exit, c')) :
    exit = .ret .noRequest ∨ exit = .ret .badRequest ∨
      exit = .doRequest ∧ (c'.checkState = .content → c'.string.isSome = true) := by
  refine whileLoop_invariant (P := fun _ => True) (Q := fun a : ReadExit × HttpConn => a.1 = .ret .noRequest ∨
    a.1 = .ret .badRequest ∨ a.1 = .doRequest ∧ (a.2.checkState = .content → a.2.string.isSome = true))
    (fun _ _ => trivial) (fun _ hstep => ?_) (s := (c, LineStatus.lineOk)) trivial h
  rcases readStep_cases hstep with ⟨c₁, -, hnone⟩ | ⟨c₁, p, -, htext⟩
  · cases hnone
    exact Or.inl rfl
  · exact Or.inr (checkText_exit htext)

/-- What `process()` makes of one connection in two slots: the same fault; or the same verdict, with the
    connection waiting for more, with one response in both slots, or with nothing to send. -/
inductive Processed (r r' : Except Fault ((HttpCode × Bool × HttpConn) × World)) : Prop
  | fault (e : Fault) (left : r = .error e) (right : r' = .error e)
  | ok (ret : HttpCode) (c : HttpConn) (m m' : Leftover) (w : World)
      (left : r = .ok ((ret, true, c.inSlot m), w)) (right : r' = .ok ((ret, true, c.inSlot m'), w))
      (waits : ret = .noRequest → c.writeIdx = 0 ∧ c.bytesToSend = 0)
      (answers : ret ≠ .noRequest → Sends m m' ∨ c.bytesToSend = 0)

section
variable {fs : FileSystem} {decode : List Byte → Option (List Byte × List Byte)} {accepts : Bool}
  {c c' : HttpConn} {l l' : Leftover} {w w' : World} {ret : HttpCode}

/-- `process()`, behind `process_read`. -/
def answer (r : (HttpCode × HttpConn) × World) : (HttpCode × Bool × HttpConn) × World :=
  if r.1.1 = .noRequest then ((r.1.1, true, r.1.2), r.2) else ((r.1.1, r.1.2.processWrite r.1.1), r.2)

theorem process_eq : c.process fs decode accepts w = (c.processRead fs decode accepts w).map answer := by
  unfold process answer
  cases c.processRead fs decode accepts w with
  | error e => rfl
  | ok r =>
    obtain ⟨⟨ret, c'⟩, w'⟩ := r
    simp only [bind, Except.bind, Except.map]
    split <;> rfl

/-- What follows a verdict, in two slots. -/
theorem processed_answer (hidx : c.writeIdx = 0) (hsend : c.bytesToSend = 0)
    (hfile : ret = .fileRequest → l.fileAddress = l'.fileAddress ∧ l.fileStat = l'.fileStat) :
    Processed (.ok (answer ((ret, c.inSlot l), w))) (.ok (answer ((ret, c.inSlot l'), w))) := by
  unfold answer
  by_cases hret : ret = .noRequest
  · rw [if_pos hret, if_pos hret]
    exact .ok ret c l l' w rfl rfl (fun _ => ⟨hidx, hsend⟩) fun hne => absurd hret hne
  · rw [if_neg hret, if_neg hret]
    obtain ⟨c', m, m', hleft, hright, hsends⟩ := processWrite_inSlot hidx hfile
    refine .ok ret c' m m' w (by rw [hleft]) (by rw [hright]) (fun he => absurd he hret) fun _ => ?_
    split at hsends
    · exact Or.inl hsends
    · rw [hsends]
      exact Or.inr hsend

/-- A file that was found is the one that is mapped, whatever was mapped before. -/
theorem doRequest_file (h : c.doRequest fs decode accepts w = .ok ((.fileRequest, c'), w')) (l l' : Leftover) :
    (l.opened fs (c'.realFile.cstr filenameLen 0)).fileAddress =
        (l'.opened fs (c'.realFile.cstr filenameLen 0)).fileAddress ∧
      (l.opened fs (c'.realFile.cstr filenameLen 0)).fileStat =
        (l'.opened fs (c'.realFile.cstr filenameLen 0)).fileStat := by
  unfold doRequest at h
  split at h
  · cases h
  · obtain ⟨c₁, -, h⟩ := bind_eq_ok.mp h
    obtain ⟨p, -, h⟩ := bind_eq_ok.mp h
    obtain ⟨⟨c₂, w₂⟩, -, h⟩ := bind_eq_ok.mp h
    obtain ⟨c₃, -, h⟩ := bind_eq_ok.mp h
    simp only [pure, Except.pure, Except.ok.injEq, Prod.mk.injEq] at h
    have hreal := openFile_realFile fs c₃
    rw [h.1] at hreal
    rw [hreal]
    have hopen := h.1
    unfold openFile at hopen
    unfold Leftover.opened
    simp only at hopen
    cases hst : fs.stat (c₃.realFile.cstr filenameLen 0) with
    | none =>
      rw [hst] at hopen
      cases hopen
    | some st =>
      rw [hst] at hopen
      simp only at hopen ⊢
      split at hopen
      · cases hopen
      · rename_i hoth
        split at hopen
        · cases hopen
        · rename_i hdir
          rw [if_pos ⟨not_not.mp hoth, hdir⟩, if_pos ⟨not_not.mp hoth, hdir⟩]
          exact ⟨rfl, rfl⟩

/-- `process()` in two slots, if no form is looked for in what is left. -/
theorem process_forms (hidx : c.writeIdx = 0) (hsend : c.bytesToSend = 0)
    (hforms : ∀ c₁, c.readLoop = .ok (.doRequest, c₁) → c₁.isForm = true →
      (c₁.inSlot l).string = c₁.string ∧ (c₁.inSlot l').string = c₁.string) :
    Processed ((c.inSlot l).process fs decode accepts w) ((c.inSlot l').process fs decode accepts w) ∧
      (c.inSlot l).formFields = (c.inSlot l').formFields := by
  rw [process_eq, process_eq]
  unfold processRead formFields
  rw [readLoop_inSlot, readLoop_inSlot]
  cases hrun : c.readLoop with
  | error e => exact ⟨.fault e rfl rfl, rfl⟩
  | ok r =>
    obtain ⟨exit, c₁⟩ := r
    have hidx₁ : c₁.writeIdx = 0 := (congrArg HttpConn.writeIdx (readLoop_unread hrun) :).trans hidx
    have hsend₁ : c₁.bytesToSend = 0 := (congrArg HttpConn.bytesToSend (readLoop_unread hrun) :).trans hsend
    cases exit with
    | ret code =>
      -- the loop itself returns no verdict that has a file
      refine ⟨processed_answer hidx₁ hsend₁ fun hcode => ?_, rfl⟩
      rcases readLoop_exit hrun with hexit | hexit | ⟨hexit, -⟩ <;> cases hexit <;> cases hcode
    | doRequest =>
      have hstrings := hforms c₁ hrun
      refine ⟨?_, ?_⟩
      · show Processed (((c₁.inSlot l).doRequest fs decode accepts w).map answer)
          (((c₁.inSlot l').doRequest fs decode accepts w).map answer)
        rw [doRequest_inSlot fs decode accepts w c₁ l fun hform => (hstrings hform).1,
          doRequest_inSlot fs decode accepts w c₁ l' fun hform => (hstrings hform).2]
        cases hserve : c₁.doRequest fs decode accepts w with
        | error e => exact .fault e rfl rfl
        | ok r =>
          obtain ⟨⟨ret, c₂⟩, w₂⟩ := r
          have hidx₂ : c₂.writeIdx = 0 := (congrArg HttpConn.writeIdx (doRequest_unserved hserve) :).trans hidx₁
          have hsend₂ : c₂.bytesToSend = 0 :=
            (congrArg HttpConn.bytesToSend (doRequest_unserved hserve) :).trans hsend₁
          refine processed_answer hidx₂ hsend₂ fun hret => ?_
          rw [show ret = .fileRequest from hret] at hserve
          exact doRequest_file hserve l l'
      · have hform : ∀ k : Leftover, (c₁.inSlot k).isForm = c₁.isForm := fun _ => rfl
        simp only [Except.map, onSlot, hform]
        by_cases hf : c₁.isForm = true
        · rw [if_pos hf, if_pos hf, credentials_inSlot c₁ l (hstrings hf).1,
            credentials_inSlot c₁ l' (hstrings hf).2]
        · rw [if_neg hf, if_neg hf]

theorem bareForm_inSlot (c : HttpConn) (l : Leftover) : (c.inSlot l).bareForm = c.bareForm := by
  unfold bareForm
  rw [readLoop_inSlot]
  cases c.readLoop with
  | error e => rfl
  | ok r =>
    obtain ⟨exit, c₁⟩ := r
    cases exit <;> rfl

variable (fs decode accepts w) in
/-- **`process()`** in two slots. -/
theorem process_twice (hidx : c.writeIdx = 0) (hsend : c.bytesToSend = 0)
    (hclean : (c.inSlot l).string = (c.inSlot l').string ∨ (c.inSlot l).bareForm = false) :
    Processed ((c.inSlot l).process fs decode accepts w) ((c.inSlot l').process fs decode accepts w) ∧
      (c.inSlot l).formFields = (c.inSlot l').formFields := by
  rcases hclean with hstring | hbare
  · -- the string that both have is the connection's own as well
    let d : HttpConn := { c with string := c.string.or l.string }
    have hd : d.inSlot l = c.inSlot l := by
      show ({ c.inSlot l with string := (c.string.or l.string).or l.string } : HttpConn) = c.inSlot l
      rw [Option.or_assoc, Option.or_self]
      rfl
    have hd' : d.inSlot l' = c.inSlot l' := by
      have heq : c.string.or l.string = c.string.or l'.string := hstring
      show ({ c.inSlot l' with string := (c.string.or l.string).or l'.string } : HttpConn) = c.inSlot l'
      rw [heq, Option.or_assoc, Option.or_self]
      rfl
    rw [← hd, ← hd']
    refine process_forms hidx hsend fun c₁ hrun _ => ?_
    have hkeep : ∀ k : Leftover, (d.inSlot k).string = d.string → (c₁.inSlot k).string = c₁.string := by
      intro k hk
      rcases readLoop_string hrun with hsame | hset
      · show c₁.string.or k.string = c₁.string
        rw [hsame]
        exact hk
      · obtain ⟨text, htext⟩ := Option.isSome_iff_exists.mp hset
        show c₁.string.or k.string = c₁.string
        rw [htext]
        rfl
    exact ⟨hkeep l (congrArg HttpConn.string hd :), hkeep l' ((congrArg HttpConn.string hd' :).trans hstring.symm)⟩
  · -- no form, or one whose body has set `m_string`
    rw [bareForm_inSlot] at hbare
    refine process_forms hidx hsend fun c₁ hrun hform => ?_
    have hbody : c₁.checkState = .content := by
      by_contra hno
      unfold bareForm at hbare
      rw [hrun] at hbare
      simp [hno, hform] at hbare
    rcases readLoop_exit hrun with hexit | hexit | ⟨-, hset⟩
    · cases hexit
    · cases hexit
    · obtain ⟨text, htext⟩ := Option.isSome_iff_exists.mp (hset hbody)
      have hown : ∀ k : Leftover, (c₁.inSlot k).string = c₁.string := by
        intro k
        show c₁.string.or k.string = c₁.string
        rw [htext]
        rfl
      exact ⟨hown l, hown l'⟩

/-! ## `write()` -/

/-- What a round of `write()` makes of one connection in two slots, up to its end: the same fault, or
    the same with one response in both. -/
inductive Accounted (c : HttpConn) (l l' : Leftover) (k : Nat) : Prop
  | fault (e : Fault) (left : (c.inSlot l).account k = .error e) (right : (c.inSlot l').account k = .error e)
  | ok (c' : HttpConn) (m m' : Leftover) (left : (c.inSlot l).account k = .ok (c'.inSlot m))
      (right : (c.inSlot l').account k = .ok (c'.inSlot m')) (sends : Sends m m')
      (toSend : c'.bytesToSend = c.bytesToSend - k)
      (mapping : (c'.inSlot m).mapping = (c.inSlot l).mapping)
      (mapping' : (c'.inSlot m').mapping = (c.inSlot l').mapping)

theorem account_twice (h : Sends l l') (k : Nat) : Accounted c l l' k := by
  have hleft : ∀ x : Leftover, (c.inSlot x).account k =
      let haveSend := c.bytesHaveSend + k
      let toSend := c.bytesToSend - k
      if intMax < haveSend ∨ toSend < intMin then .error .overflow
      else if x.iv0.iovLen ≤ toSize haveSend then
        .ok (({ c with bytesHaveSend := haveSend, bytesToSend := toSend } : HttpConn).inSlot { x with
          iv0 := { x.iv0 with iovLen := 0 }
          iv1 := ⟨.file x.fileAddress (haveSend - c.writeIdx), toSize toSend⟩ })
      else
        .ok (({ c with bytesHaveSend := haveSend, bytesToSend := toSend } : HttpConn).inSlot { x with
          iv0 := ⟨.writeBuf haveSend, toSize (x.iv0.iovLen - haveSend)⟩ }) := fun _ => rfl
  by_cases hover : intMax < c.bytesHaveSend + (k : Int) ∨ c.bytesToSend - (k : Int) < intMin
  · exact .fault .overflow ((hleft l).trans (if_pos hover)) ((hleft l').trans (if_pos hover))
  by_cases hbehind : l.iv0.iovLen ≤ toSize (c.bytesHaveSend + k)
  · have hbehind' : l'.iv0.iovLen ≤ toSize (c.bytesHaveSend + k) := h.iv0 ▸ hbehind
    refine .ok _ _ _ (((hleft l).trans (if_neg hover)).trans (if_pos hbehind))
      (((hleft l').trans (if_neg hover)).trans (if_pos hbehind')) ⟨?_, h.ivCount, ?_⟩ rfl rfl rfl
    · simp only [h.iv0]
    · rcases h.file with hpage | ⟨-, haddress, hstat⟩
      · exact Or.inl hpage
      · refine Or.inr ⟨?_, haddress, hstat⟩
        simp only [haddress]
  · have hbehind' : ¬ l'.iv0.iovLen ≤ toSize (c.bytesHaveSend + k) := h.iv0 ▸ hbehind
    refine .ok _ _ _ (((hleft l).trans (if_neg hover)).trans (if_neg hbehind))
      (((hleft l').trans (if_neg hover)).trans (if_neg hbehind')) ⟨?_, h.ivCount, h.file⟩ rfl rfl rfl
    simp only [h.iv0]

/-- `writev` is offered the same from both slots. -/
theorem offered_twice (files : Files) (h : Sends l l') :
    (c.inSlot l).offered files = (c.inSlot l').offered files := by
  have hoffered : ∀ x : Leftover, (c.inSlot x).offered files =
      if x.ivCount = 1 then c.gather files x.iv0 else c.gather files x.iv0 ++ c.gather files x.iv1 :=
    fun _ => rfl
  rw [hoffered, hoffered, h.iv0, h.ivCount]
  rcases h.file with hpage | ⟨hiv1, -⟩
  · rw [h.ivCount] at hpage
    rw [if_pos hpage, if_pos hpage]
  · rw [hiv1]

/-- A file that is being sent is mapped from both slots. -/
theorem mapping_twice (h : Sends l l')
    (hsame : (c.inSlot l).ivCount = 2 ∨ (c.inSlot l).mapping = (c.inSlot l').mapping) :
    (c.inSlot l).mapping = (c.inSlot l').mapping := by
  rcases hsame with hcount | hsame
  · have hmapping : ∀ x : Leftover,
        (c.inSlot x).mapping = x.fileAddress.map fun address => (address, x.fileStat.size) :=
      fun _ => rfl
    rcases h.file with hpage | ⟨-, haddress, hstat⟩
    · have hcount' : l.ivCount = 2 := hcount
      omega
    · rw [hmapping, hmapping, haddress, hstat]
  · exact hsame

/-- What a whole round makes of it: the same fault; or the same way out and the same call of `munmap`,
    with the response in both slots as long as it is not over, and `init()` behind it where the
    connection is kept. -/
inductive Rounded (c : HttpConn) (l l' : Leftover) (answer : Writev) : Prop
  | fault (e : Fault) (left : (c.inSlot l).writeRound answer = .error e)
      (right : (c.inSlot l').writeRound answer = .error e)
      (munmap : (c.inSlot l).munmap answer = (c.inSlot l').munmap answer)
  | ok (exit : Option WriteExit) (c' : HttpConn) (m m' : Leftover)
      (left : (c.inSlot l).writeRound answer = .ok (exit, c'.inSlot m))
      (right : (c.inSlot l').writeRound answer = .ok (exit, c'.inSlot m'))
      (munmap : (c.inSlot l).munmap answer = (c.inSlot l').munmap answer)
      (goesOn : exit = none ∨ exit = some .again → Sends m m')
      (kept : exit = some .nothing ∨ exit = some .complete ∧ c.linger = true → c'.writeIdx = 0 ∧ c'.bytesToSend = 0)

theorem writeRound_sent {k : Nat} {d : HttpConn} (h : c.account k = .ok d) :
    c.writeRound (.sent k) = .ok (if d.bytesToSend ≤ 0 then
      (some .complete, if d.linger then d.unmap.init else d.unmap) else (none, d)) := by
  simp only [writeRound, h, bind, Except.bind]
  split <;> rfl

theorem munmap_sent {k : Nat} {d : HttpConn} (h : c.account k = .ok d) :
    c.munmap (.sent k) = if d.bytesToSend ≤ 0 then d.mapping else none := by
  simp only [munmap, h]

/-- **A round of `write()`** in two slots. -/
theorem writeRound_twice {answer : Writev} (h : Sends l l')
    (hends : answer = .failed ∨ (∃ k : Nat, answer = .sent k ∧ c.bytesToSend ≤ k) →
      (c.inSlot l).mapping = (c.inSlot l').mapping) : Rounded c l l' answer := by
  cases answer with
  | eagain =>
    refine .ok (some .again) c l l' rfl rfl rfl (fun _ => h) ?_
    rintro (hexit | ⟨hexit, -⟩) <;> cases hexit
  | failed =>
    refine .ok (some .failed) c { l with fileAddress := none } { l' with fileAddress := none } rfl rfl
      (hends (Or.inl rfl)) ?_ ?_
    · rintro (hexit | hexit) <;> cases hexit
    · rintro (hexit | ⟨hexit, -⟩) <;> cases hexit
  | sent k =>
    cases account_twice (c := c) h k with
    | fault e left right =>
      refine .fault e ?_ ?_ ?_
      · simp only [writeRound, left]
        rfl
      · simp only [writeRound, right]
        rfl
      · simp only [munmap, left, right]
    | ok d m m' left right sends toSend mapping mapping' =>
      have hlinger : d.linger = c.linger := (account_counts left).linger
      by_cases hover : d.bytesToSend ≤ 0
      · -- the response is out
        have hends' : (c.inSlot l).mapping = (c.inSlot l').mapping := by
          apply hends
          refine Or.inr ⟨k, rfl, ?_⟩
          omega
        have hdone : ∀ x : Leftover, (if (d.inSlot x).bytesToSend ≤ 0 then
            (some WriteExit.complete, if (d.inSlot x).linger then (d.inSlot x).unmap.init else (d.inSlot x).unmap)
            else (none, d.inSlot x)) = (some .complete, (if d.linger then d.init else d).inSlot
              { x with fileAddress := none }) := by
          intro x
          rw [if_pos (show (d.inSlot x).bytesToSend ≤ 0 from hover)]
          show (some WriteExit.complete, if d.linger = true then _ else _) = _
          split <;> rfl
        refine .ok (some .complete) (if d.linger then d.init else d) { m with fileAddress := none }
          { m' with fileAddress := none } ?_ ?_ ?_ ?_ ?_
        · rw [writeRound_sent left, hdone]
        · rw [writeRound_sent right, hdone]
        · rw [munmap_sent left, munmap_sent right, if_pos (show (d.inSlot m).bytesToSend ≤ 0 from hover),
            if_pos (show (d.inSlot m').bytesToSend ≤ 0 from hover), mapping, mapping']
          exact hends'
        · rintro (hexit | hexit) <;> cases hexit
        · rintro (hexit | ⟨-, hkeep⟩)
          · cases hexit
          · rw [if_pos (hlinger.trans hkeep)]
            exact ⟨rfl, rfl⟩
      · refine .ok none d m m' ?_ ?_ ?_ (fun _ => sends) ?_
        · rw [writeRound_sent left, if_neg (show ¬ (d.inSlot m).bytesToSend ≤ 0 from hover)]
        · rw [writeRound_sent right, if_neg (show ¬ (d.inSlot m').bytesToSend ≤ 0 from hover)]
        · rw [munmap_sent left, munmap_sent right, if_neg (show ¬ (d.inSlot m).bytesToSend ≤ 0 from hover),
            if_neg (show ¬ (d.inSlot m').bytesToSend ≤ 0 from hover)]
        · rintro (hexit | ⟨hexit, -⟩) <;> cases hexit

end

end HttpConn

/-! ## Step by step -/

/-- Two sessions that differ in what was left in their slots only: with nothing to send while they are
    read from, and while they are written to with one response, or with none. -/
inductive Twins : Session → Session → Prop
  | mk (phase : Phase) (inLoop : Bool) (returned : Option WriteExit) (accepted : List (Option Byte))
      (world : World) (responses : List (List (Option Byte))) (c : HttpConn) (l l' : Leftover)
      (reading : phase = .reading → c.writeIdx = 0 ∧ c.bytesToSend = 0)
      (writing : phase = .writing → Sends l l' ∨ c.bytesToSend = 0 ∧ inLoop = false) :
      Twins ⟨phase, ⟨c.inSlot l, inLoop, returned, accepted⟩, world, responses⟩
        ⟨phase, ⟨c.inSlot l', inLoop, returned, accepted⟩, world, responses⟩

/-- The same fault, or twins again. -/
inductive Alike (r r' : Except Fault Session) : Prop
  | fault (e : Fault) (left : r = .error e) (right : r' = .error e)
  | ok (t t' : Session) (left : r = .ok t) (right : r' = .ok t') (twins : Twins t t')

section
variable {fs : FileSystem} {files : Files} {decode : List Byte → Option (List Byte × List Byte)}
  {s s' : Session} {i : Session.Step}

theorem Processed.step {x : List Byte} {accepts : Bool} {phase : Phase} {inLoop : Bool}
    {returned : Option WriteExit} {accepted : List (Option Byte)} {world : World}
    {responses : List (List (Option Byte))} {c : HttpConn} {l l' : Leftover}
    (h : HttpConn.Processed (((c.inSlot l).receive x).process fs decode accepts world)
      (((c.inSlot l').receive x).process fs decode accepts world))
    (hfields : ((c.inSlot l).receive x).formFields = ((c.inSlot l').receive x).formFields) :
    let s : Session := ⟨phase, ⟨c.inSlot l, inLoop, returned, accepted⟩, world, responses⟩
    let s' : Session := ⟨phase, ⟨c.inSlot l', inLoop, returned, accepted⟩, world, responses⟩
    s.seen fs files decode (.read x accepts) = s'.seen fs files decode (.read x accepts) ∧
      Alike (s.exec fs files decode (.read x accepts)) (s'.exec fs files decode (.read x accepts)) := by
  intro s s'
  cases h with
  | fault e left right =>
    refine ⟨?_, .fault e ?_ ?_⟩
    · simp only [Session.seen, s, s', left, right, hfields]
    · simp only [Session.exec, Session.read, s, left]
      rfl
    · simp only [Session.exec, Session.read, s', right]
      rfl
  | ok ret c' m m' w left right waits answers =>
    refine ⟨?_, .ok _ _ ?_ ?_ (.mk (if ret = .noRequest then .reading else .writing) false none [] w responses
      c' m m' (fun hphase => waits ?_) (fun hphase => ?_))⟩
    · simp only [Session.seen, s, s', left, right, hfields]
      rfl
    · simp only [Session.exec, Session.read, s, left]
      rfl
    · simp only [Session.exec, Session.read, s', right]
      rfl
    · by_contra hne
      rw [if_neg hne] at hphase
      cases hphase
    · by_cases hne : ret = .noRequest
      · rw [if_pos hne] at hphase
        cases hphase
      · exact (answers hne).imp id fun hsend => ⟨hsend, rfl⟩

/-- A round of `write()`, as a step of two sessions. -/
theorem Rounded.step {answer : Writev} {phase : Phase} {inLoop : Bool} {returned : Option WriteExit}
    {accepted : List (Option Byte)} {world : World} {responses : List (List (Option Byte))} {c : HttpConn}
    {l l' : Leftover} (h : HttpConn.Rounded c l l' answer) (hphase : phase = .writing)
    (hoffered : (c.inSlot l).offered files = (c.inSlot l').offered files) :
    let s : Session := ⟨phase, ⟨c.inSlot l, inLoop, returned, accepted⟩, world, responses⟩
    let s' : Session := ⟨phase, ⟨c.inSlot l', inLoop, returned, accepted⟩, world, responses⟩
    s.seen fs files decode (.write (.writev answer)) = s'.seen fs files decode (.write (.writev answer)) ∧
      Alike (s.exec fs files decode (.write (.writev answer)))
        (s'.exec fs files decode (.write (.writev answer))) := by
  intro s s'
  cases h with
  | fault e left right munmap =>
    refine ⟨?_, .fault e ?_ ?_⟩
    · simp only [Session.seen, s, s', left, right, munmap, hoffered]
    · simp only [Session.exec, Session.write, Transfer.exec, s, left]
      rfl
    · simp only [Session.exec, Session.write, Transfer.exec, s', right]
      rfl
  | ok exit c' m m' left right munmap goesOn kept =>
    refine ⟨?_, ?_⟩
    · simp only [Session.seen, s, s', left, right, munmap, hoffered]
      rfl
    · -- what the event loop does is told by the way out, which is the same
      simp only [Session.exec, Session.write, Transfer.exec, s, s', left, right, hoffered, bind, Except.bind, pure,
        Except.pure]
      cases exit with
      | none =>
        exact .ok _ _ rfl rfl (.mk _ _ _ _ _ _ c' m m' (fun hread => by rw [hphase] at hread; cases hread)
          fun _ => Or.inl (goesOn (Or.inl rfl)))
      | some exit =>
        cases exit with
        | again =>
          exact .ok _ _ rfl rfl (.mk _ _ _ _ _ _ c' m m' (fun hread => by rw [hphase] at hread; cases hread)
            fun _ => Or.inl (goesOn (Or.inr rfl)))
        | failed => exact .ok _ _ rfl rfl (.mk _ _ _ _ _ _ c' m m' (fun hread => by cases hread) fun hw => by cases hw)
        | nothing => exact .ok _ _ rfl rfl (.mk _ _ _ _ _ _ c' m m' (fun _ => kept (Or.inl rfl)) fun hw => by cases hw)
        | complete =>
          have hlinger : ∀ x : Leftover, (c.inSlot x).linger = c.linger := fun _ => rfl
          simp only [hlinger]
          refine .ok _ _ rfl rfl (.mk _ _ _ _ _ _ c' m m' (fun hread => ?_) fun hw => ?_)
          · by_cases hkeep : c.linger = true
            · exact kept (Or.inr ⟨rfl, hkeep⟩)
            · rw [if_neg hkeep] at hread
              cases hread
          · split at hw <;> cases hw

theorem Session.Enabled.round {answer : Writev} (h : s.Enabled files (.write (.writev answer))) :
    s.phase = .writing ∧ s.transfer.inLoop = true := by
  refine ⟨h.1, ?_⟩
  cases answer with
  | sent k => exact h.2.1
  | eagain => exact h.2
  | failed => exact h.2

variable (fs files decode) in
/-- **A clean step** is taken by both or by none, is seen the same, and leaves twins. -/
theorem Twins.step (h : Twins s s') (hclean : Clean (s, s') i) :
    (s.Enabled files i ↔ s'.Enabled files i) ∧ (s.Enabled files i →
      s.seen fs files decode i = s'.seen fs files decode i ∧
        Alike (s.exec fs files decode i) (s'.exec fs files decode i)) := by
  cases h with
  | mk phase inLoop returned accepted world responses c l l' reading writing =>
    cases i with
    | read x accepts =>
      refine ⟨Iff.rfl, fun henabled => ?_⟩
      obtain ⟨hidx, hsend⟩ := reading henabled.1
      have hstring : ((c.receive x).inSlot l).string = ((c.receive x).inSlot l').string ∨
        ((c.receive x).inSlot l).bareForm = false := hclean
      obtain ⟨hprocessed, hfields⟩ := HttpConn.process_twice fs decode accepts world
        (c := c.receive x) hidx hsend hstring
      exact Processed.step hprocessed hfields
    | write i =>
      cases i with
      | call =>
        refine ⟨Iff.rfl, fun henabled => ?_⟩
        have hphase : phase = .writing := henabled.1
        refine ⟨rfl, ?_⟩
        have hsend : ∀ x : Leftover, (c.inSlot x).bytesToSend = c.bytesToSend := fun _ => rfl
        simp only [Session.exec, Session.write, Transfer.exec, hsend]
        by_cases hnothing : c.bytesToSend = 0
        · -- the connection begins anew, as `init()` leaves it
          rw [if_pos hnothing, if_pos hnothing]
          exact .ok _ _ rfl rfl (.mk .reading inLoop (some .nothing) accepted world responses c.init l l'
            (fun _ => ⟨rfl, rfl⟩) fun hw => by cases hw)
        · -- the call goes into its loop, with a response that both have
          rw [if_neg hnothing, if_neg hnothing]
          have hsends : Sends l l' := (writing hphase).resolve_right fun hno => hnothing hno.1
          have htwins : Twins ⟨phase, ⟨c.inSlot l, true, returned, accepted⟩, world, responses⟩
              ⟨phase, ⟨c.inSlot l', true, returned, accepted⟩, world, responses⟩ :=
            .mk _ _ _ _ _ _ c l l' reading fun _ => Or.inl hsends
          rcases henabled.2.2 with hnone | hagain
          · have hret : returned = none := hnone
            rw [hret] at htwins ⊢
            exact .ok _ _ rfl rfl htwins
          · have hret : returned = some .again := hagain
            rw [hret] at htwins ⊢
            exact .ok _ _ rfl rfl htwins
      | writev answer =>
        have hround : ∀ {x : Leftover}, Session.Enabled files
            ⟨phase, ⟨c.inSlot x, inLoop, returned, accepted⟩, world, responses⟩ (.write (.writev answer)) →
            phase = .writing ∧ inLoop = true := fun hx => hx.round
        by_cases hin : phase = .writing ∧ inLoop = true
        · obtain ⟨hphase, hloop⟩ := hin
          have hsends : Sends l l' := (writing hphase).resolve_right fun hno => by
            rw [hloop] at hno
            cases hno.2
          have hoffered : (c.inSlot l).offered files = (c.inSlot l').offered files :=
            HttpConn.offered_twice files hsends
          refine ⟨?_, fun _ => Rounded.step (HttpConn.writeRound_twice hsends fun hends => ?_) hphase hoffered⟩
          · cases answer with
            | sent k =>
              show (_ ∧ _ ∧ _ ∧ k ≤ ((c.inSlot l).offered files).length) ↔ _
              rw [hoffered]
              rfl
            | eagain => exact Iff.rfl
            | failed => exact Iff.rfl
          · refine HttpConn.mapping_twice hsends (hclean ?_)
            rcases hends with rfl | ⟨k, rfl, hk⟩
            · trivial
            · exact hk
        · exact ⟨iff_of_false (fun hx => hin (hround hx)) fun hx => hin (hround hx), fun hx => absurd (hround hx) hin⟩

/-! ## Run by run -/

/-- The connection of a server that serves `root` begins in a slot that holds `d`:
    `init(sockfd, addr, root, ...)`. -/
def Session.begin (root : List Byte) (d : HttpConn) (w : World) : Session :=
  ⟨.reading, ⟨({ d with docRoot := root } : HttpConn).init, false, none, []⟩, w, []⟩

theorem begin_twins (root : List Byte) (d d' : HttpConn) (w : World) :
    Twins (.begin root d w) (.begin root d' w) := by
  unfold Session.begin
  rw [HttpConn.init_inSlot, HttpConn.init_inSlot { d' with docRoot := root }]
  exact .mk .reading false none [] w [] (HttpConn.fresh root) _ _ (fun _ => ⟨rfl, rfl⟩) fun hw => by cases hw

/-- **A slot that is used again.** Whatever two slots hold when `init()` is called on them, and whatever
    follows in both: if all of it was clean, then a clean step is taken by both or by none, the same is
    seen of it, and it is a fault in both or in none. -/
theorem reused_alike (root : List Byte) (d d' : HttpConn) (w : World) {h : List Session.Step}
    (hr : ((session fs files decode).pair.restrict Clean).Run (.begin root d w, .begin root d' w) h (s, s'))
    (hclean : Clean (s, s') i) :
    (s.Enabled files i ↔ s'.Enabled files i) ∧ (s.Enabled files i →
      s.seen fs files decode i = s'.seen fs files decode i ∧
        ((∃ t, s.exec fs files decode i = .ok t) ↔ ∃ t', s'.exec fs files decode i = .ok t')) := by
  have htwins : Twins s s' := by
    refine hr.invariant (I := fun _ p => Twins p.1 p.2) ?_ (begin_twins root d d' w)
    intro h p i q htwins hstep
    obtain ⟨⟨hleft, hright⟩, hclean⟩ := hstep
    obtain ⟨-, halike⟩ := htwins.step fs files decode hclean
    cases (halike hleft.1).2 with
    | fault e left right =>
      have hexec := hleft.2
      rw [left] at hexec
      cases hexec
    | ok t t' left right twins =>
      have hexec := hleft.2
      have hexec' := hright.2
      rw [left] at hexec
      rw [right] at hexec'
      cases hexec
      cases hexec'
      exact twins
  obtain ⟨henabled, halike⟩ := htwins.step fs files decode hclean
  refine ⟨henabled, fun he => ⟨(halike he).1, ?_⟩⟩
  cases (halike he).2 with
  | fault e left right =>
    rw [left, right]
  | ok t t' left right twins =>
    rw [left, right]
    exact iff_of_true ⟨t, rfl⟩ ⟨t', rfl⟩

end

/-- A request that has been read in a slot that was never used, and in one that has a file mapped: of the
    response to it all is sent, and the same file is unmapped. -/
theorem reused_alike_get : ∃ (d d' : HttpConn) (w : World) (s s' : Session), d.mapping ≠ d'.mapping ∧
    ((session HttpConn.oneFile (fun _ => bytes "hi") decodePlain).pair.restrict Clean).Run
      (.begin [] d w, .begin [] d' w) [.write .call, .read (bytes "GET / HTTP/1.1\r\n\r\n") true] (s, s') ∧
    s.seen HttpConn.oneFile (fun _ => bytes "hi") decodePlain (.write (.writev (.sent 57))) =
      s'.seen HttpConn.oneFile (fun _ => bytes "hi") decodePlain (.write (.writev (.sent 57))) := by
  let d : HttpConn := default
  let d' : HttpConn := { (default : HttpConn) with fileAddress := some 4096 }
  let w : World := ⟨fun _ => none, []⟩
  let S := session HttpConn.oneFile (fun _ => bytes "hi") decodePlain
  have hserves : ∀ slot, (((Session.begin [] slot w).exec HttpConn.oneFile (fun _ => bytes "hi") decodePlain
      (.read (bytes "GET / HTTP/1.1\r\n\r\n") true)).toOption.any fun t =>
        (t.exec HttpConn.oneFile (fun _ => bytes "hi") decodePlain (.write .call)).toOption.any fun u =>
          t.Enabled (fun _ => bytes "hi") (.write .call) ∧
            u.Enabled (fun _ => bytes "hi") (.write (.writev (.sent 57))) ∧ u.transfer.conn.ivCount = 2) = true →
      ∃ t u, S.step (.begin [] slot w) (.read (bytes "GET / HTTP/1.1\r\n\r\n") true) t ∧
        S.step t (.write .call) u ∧ u.Enabled (fun _ => bytes "hi") (.write (.writev (.sent 57))) ∧
          u.transfer.conn.ivCount = 2 := by
    intro slot hany
    obtain ⟨t, hread, hany⟩ := exists_ok_of_any hany
    obtain ⟨u, hcall, hany⟩ := exists_ok_of_any hany
    obtain ⟨henabled, hwritev, hfile⟩ := of_decide_eq_true hany
    have hroom : 0 + (bytes "GET / HTTP/1.1\r\n\r\n").length ≤ readBufferSize := by decide
    exact ⟨t, u, ⟨⟨rfl, hroom⟩, hread⟩, ⟨henabled, hcall⟩, hwritev, hfile⟩
  obtain ⟨t, s, hread, hcall, hwritev, hfile⟩ := hserves d (by decide +kernel)
  obtain ⟨t', s', hread', hcall', -⟩ := hserves d' (by decide +kernel)
  have hrun : (S.pair.restrict Clean).Run (.begin [] d w, .begin [] d' w)
      [.write .call, .read (bytes "GET / HTTP/1.1\r\n\r\n") true] (s, s') :=
    .step (.step (u := (t, t')) (.nil _) ⟨⟨hread, hread'⟩, Or.inl rfl⟩) ⟨⟨hcall, hcall'⟩, False.elim⟩
  have hclean : Clean (s, s') (.write (.writev (.sent 57))) := fun _ => Or.inl hfile
  exact ⟨d, d', w, s, s', by decide, hrun, ((reused_alike [] d d' w hrun hclean).2 hwritev).1⟩

/-! ## What is not clean -/

/-- What befalls a slot: a descriptor is accepted in it, with whatever has become of `users` and of the
    table, or its connection takes a step. -/
inductive SlotStep
  | accept (w : World)
  | serve (i : Session.Step)

section
variable (root : List Byte) (fs : FileSystem) (files : Files) (decode : List Byte → Option (List Byte × List Byte))

/-- A slot of `users`, from connection to connection: one may be closed at any time. -/
def slot : System Session SlotStep where
  start s := s.phase = .closed
  step s i s' := match i with
    | .accept w => s' = .begin root s.transfer.conn w
    | .serve i => (session fs files decode).step s i s'

/-- Two histories of a slot that end with `init()`, with the same users behind them and the same steps,
    and something else is seen of `i`. -/
def Leaks (h : List Session.Step) (i : Session.Step) : Prop :=
  ∃ (s a a' t t' : Session) (k k' : List SlotStep) (w : World), (slot root fs files decode).start s ∧
    (slot root fs files decode).Run s (.accept w :: k) a ∧
    (slot root fs files decode).Run s (.accept w :: k') a' ∧
    (session fs files decode).pair.Run (a, a') h (t, t') ∧
    t.Enabled files i ∧ t'.Enabled files i ∧ t.seen fs files decode i ≠ t'.seen fs files decode i

/-- The steps `h`, each if it is enabled. -/
def Session.follow (s : Session) (h : List Session.Step) : Option Session :=
  System.follow (Session.exec fs files decode) (fun s i => s.Enabled files i) s h

variable {root fs files decode}

theorem Session.run_of_follow {s t : Session} {h : List Session.Step} (hs : s.follow fs files decode h = some t) :
    (session fs files decode).Run s h t :=
  System.Run.of_follow (fun _ _ _ hok hexec => And.intro (of_decide_eq_true hok) hexec) hs

theorem slot_serves {s t : Session} {h : List Session.Step} {k : List SlotStep} {a : Session}
    (hk : (slot root fs files decode).Run s k a) (hr : (session fs files decode).Run a h t) :
    (slot root fs files decode).Run s (h.map .serve ++ k) t := by
  induction hr with
  | nil => exact hk
  | step _ hst ih => exact .step ih hst

/-- A slot that was never used, and one whose last connection has taken some steps. -/
theorem leaks_of_follow {d : HttpConn} {w : World} {b h : List Session.Step} {i : Session.Step}
    (hleaks : (((Session.begin root d w).follow fs files decode b).any fun u =>
      ((Session.begin root d w).follow fs files decode h).any fun t =>
      ((Session.begin root u.transfer.conn w).follow fs files decode h).any fun t' =>
        t.Enabled files i ∧ t'.Enabled files i ∧ t.seen fs files decode i ≠ t'.seen fs files decode i) = true) :
    Leaks root fs files decode h i := by
  obtain ⟨u, hu, hleaks⟩ := (Option.any_eq_true _ _).mp hleaks
  obtain ⟨t, ht, hleaks⟩ := (Option.any_eq_true _ _).mp hleaks
  obtain ⟨t', ht', hleaks⟩ := (Option.any_eq_true _ _).mp hleaks
  let s : Session := ⟨.closed, ⟨d, false, none, []⟩, w, []⟩
  have haccepted : (slot root fs files decode).Run s [.accept w] (.begin root d w) := .step (.nil s) rfl
  have hserved := slot_serves haccepted (Session.run_of_follow hu)
  exact ⟨s, _, _, t, t', [], _, w, rfl, haccepted, .step hserved rfl,
    (Session.run_of_follow ht).pair (Session.run_of_follow ht'), of_decide_eq_true hleaks⟩

end

/-- A file that was mapped for a connection that is gone is unmapped behind an error page of the next
    one; and a form that has no body is read where the body of an earlier one stood. -/
theorem leaked :
    Leaks [] { HttpConn.oneFile with mmap := fun _ => 4096 } (fun _ => bytes "hi") decodePlain
      [.write .call, .read (bytes "x\r\n") true] (.write (.writev (.sent 112))) ∧
    Leaks [] HttpConn.oneFile (fun _ => bytes "hi") decodePlain []
      (.read (bytes "POST /2 HTTP/1.1\r\nHost:aaaaaaaaaaaaaaaaaaaaaaaaaaaaaaa&password=b\r\n\r\n") true) :=
  ⟨leaks_of_follow (d := default) (w := ⟨fun _ => none, []⟩)
      (b := [.read (bytes "GET / HTTP/1.1\r\n\r\n") true]) (by decide +kernel),
    leaks_of_follow (d := default) (w := ⟨fun _ => none, []⟩)
      (b := [.read (bytes "POST /2 HTTP/1.1\r\nContent-length:17\r\n\r\nuser=a&password=b") true])
      (by decide +kernel)⟩

end Http
end LinuxServer
