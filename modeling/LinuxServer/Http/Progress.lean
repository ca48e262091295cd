import LinuxServer.Http.Stages
import LinuxServer.Http.Reading

/-!
# `Http/Progress.lean` — whether a connection that waits can still have its verdict

`process_read` returns `NO_REQUEST` for a line that is not whole, for a body that is not all there, and
for a line that is none. `Stands` says which of these a connection is in, as a `Stage`, and `Stands.read`
that one more read does to the connection what it does to the stage, as far as the buffer reaches.

`verdict_iff` is the account for any reads: a verdict can be had from there, were there no end to the
buffer, if and only if the stage is open. A malformed line is a stage that is not, so that the peer who
sent it is kept waiting where it should have been told (`stuck`).
-/

set_option autoImplicit false

namespace LinuxServer
namespace Http
namespace HttpConn

section
variable {b c f : HttpConn} {w x d : List Byte} {p t : Nat} {s : Stage}

/-! ## One call -/

/-- Header lines that end without a body lead to `do_request`. -/
theorem AtLine.headersOver (n : Nat) : ∀ {c : HttpConn}, c.AtLine → c.checkState = .header →
    headersEnd n c.contentLength c.unchecked = .bodyless → ∃ c', c.readLoop = .ok (.doRequest, c') := by
  induction n with
  | zero =>
    intro c h hs hend
    cases hend
  | succ n ih =>
    intro c h hs hend
    rw [headersEnd] at hend
    by_cases hok : (scanLine c.unchecked).1 = .lineOk
    · obtain ⟨c₁, hc₁⟩ := h.cutLine (by rw [hs]; decide) hok
      simp only [hok, if_true] at hend
      rw [← hc₁.text] at hend
      by_cases hline : c₁.str c.checkedIdx = []
      · rw [if_pos hline] at hend
        by_cases hlen : c.contentLength ≠ 0
        · rw [if_pos hlen] at hend
          cases hend
        · have hstep := hc₁.blankTurn hs hline []
          simp only [if_neg hlen, receive_nil] at hstep
          exact ⟨c₁, by rw [readLoop_eq, readFrom_eq, hstep]⟩
      · rw [if_neg hline] at hend
        obtain ⟨c₂, hc₂⟩ := hc₁.headerTurn hs hline
        have hstep := hc₂.step []
        rw [receive_nil, receive_nil] at hstep
        have hrest : headersEnd n c₂.contentLength c₂.unchecked = .bodyless := by
          rw [hc₂.contentLength, hc₂.unchecked]
          cases hrest : headersEnd n (declared (c₁.str c.checkedIdx) c.contentLength)
              (c.unchecked.drop (scanLine c.unchecked).2) with
          | bodyless => rfl
          | pending => rw [hrest] at hend; cases hend
          | body k length => rw [hrest] at hend; cases hend
        obtain ⟨c', hc'⟩ := ih hc₂.line hc₂.state hrest
        refine ⟨c', ?_⟩
        rw [readLoop_eq, readFrom_next hstep, ← readLoop_eq]
        exact hc'
    · simp only [if_neg hok] at hend
      cases hend

/-- A head that ends without a body: a URL without a path is a fault, and all else a verdict. -/
theorem AtRequest.bodyless (hf : f.AtRequest) (hroom : w.length ≤ readBufferSize) (hend : headEnd w = .bodyless) :
    if lacksPath (cword (w.take ((scanLine w).2 - 2))) then ∃ e, (f.receive w).readLoop = .error e
    else ∃ exit c', (f.receive w).readLoop = .ok (exit, c') ∧ exit ≠ .ret .noRequest := by
  have hstate : (f.receive w).checkState = .requestLine := hf.state
  have hlength : (f.receive w).contentLength = 0 := hf.contentLength
  unfold headEnd at hend
  by_cases hok : (scanLine w).1 = .lineOk
  · simp only [hok, if_true] at hend
    have hat := hf.atLine hroom
    obtain ⟨c₁, hc₁⟩ := hat.cutLine (by rw [hstate]; decide) (by rw [hf.unchecked_receive]; exact hok)
    rw [hf.unchecked_receive] at hc₁
    have htext := hc₁.text
    rw [hf.unchecked_receive] at htext
    have htwo := hc₁.two
    have hchecked := hc₁.checked
    have hwithin := hc₁.line.within
    have hroom₁ := hc₁.line.room
    have hacc := parseRequestLine_accepts hc₁.terminated (by omega)
    have hfaults := parseRequestLine_faults hc₁.terminated (by omega)
    have hlocal := parseRequestLine_local hc₁.terminated (by omega)
    rw [show (f.receive w).checkedIdx + (scanLine w).2 - 1 + 1 = c₁.checkedIdx by omega] at hlocal
    rw [htext] at hacc hfaults
    have hstep := hc₁.step []
    rw [receive_nil, receive_nil, checkText, hc₁.state.trans hstate] at hstep
    cases hparse : c₁.parseRequestLine (f.receive w).checkedIdx with
    | error e =>
      rw [if_pos (hfaults.mpr ⟨e, hparse⟩)]
      exact ⟨e, by rw [readLoop_eq, readFrom_eq, hstep, hparse]; rfl⟩
    | ok r =>
      obtain ⟨ret, c₂⟩ := r
      rw [if_neg (fun hlacks => by obtain ⟨e, he⟩ := hfaults.mp hlacks; rw [hparse] at he; cases he)]
      rcases hlocal.code hparse with rfl | ⟨rfl, hs₂⟩
      · refine ⟨.ret .badRequest, c₂, ?_, by decide⟩
        rw [readLoop_eq, readFrom_eq, hstep, hparse]
        rfl
      · -- the header lines are behind it
        rw [if_pos (hacc.mpr ⟨c₂, hparse⟩)] at hend
        have hframe := hlocal.frame hparse
        obtain ⟨hline₂, hunchecked₂⟩ := hc₁.line.next hframe (hlocal.url hparse)
        obtain ⟨c', hc'⟩ := hline₂.headersOver w.length hs₂ (by
          rw [hframe.contentLength, hc₁.contentLength, hlength, hunchecked₂, hc₁.unchecked, hf.unchecked_receive]
          cases hrest : headersEnd w.length 0 (w.drop (scanLine w).2) with
          | bodyless => rfl
          | pending => rw [hrest] at hend; cases hend
          | body k length => rw [hrest] at hend; cases hend)
        refine ⟨.doRequest, c', ?_, by decide⟩
        have hnext : readStep (f.receive w, .lineOk) = .ok (.inr (c₂, .lineOk)) := by
          rw [hstep, hparse]
          rfl
        rw [readLoop_eq, readFrom_next hnext, ← readLoop_eq]
        exact hc'
  · simp only [if_neg hok] at hend
    cases hend

/-- What a call makes of a connection, and the same call of a stage that it becomes: they agree, but for
    a `'\0'` that would stand behind the end of the buffer. -/
inductive Agrees (c : HttpConn) (s : Stage) (holds : HttpConn → Prop) : Prop
  | waits (c' : HttpConn) (run : c.readLoop = .ok (.ret .noRequest, c')) (stays : holds c')
  | verdict (exit : ReadExit) (c' : HttpConn) (run : c.readLoop = .ok (exit, c'))
      (exits : exit ≠ .ret .noRequest) (stage : s = .verdict)
  | fault (e : Fault) (run : c.readLoop = .error e) (stage : s = .fault)
  | full (e : Fault) (run : c.readLoop = .error e) (full : c.readIdx = readBufferSize)

/-- A call that is as another call, of which less is asked. -/
theorem Agrees.trans {c b : HttpConn} {s : Stage} {holds holds' : HttpConn → Prop} (h : Agrees b s holds)
    (hloop : c.readLoop = b.readLoop) (hidx : c.readIdx = b.readIdx) (himp : ∀ c', holds c' → holds' c') :
    Agrees c s holds' := by
  cases h with
  | waits c' run stays => exact .waits c' (hloop.trans run) (himp c' stays)
  | verdict exit c' run exits stage => exact .verdict exit c' (hloop.trans run) exits stage
  | fault e run stage => exact .fault e (hloop.trans run) stage
  | full e run full => exact .full e (hloop.trans run) (hidx.trans full)

/-- **A call in the body.** A declared length that is negative is come to the end of at once. -/
theorem InBody.agrees (h : InBody b c d p t) (hroom : c.readIdx ≤ readBufferSize)
    (hneg : b.contentLength < 0 → p = 0 ∧ t = 0) :
    Agrees c (content b.checkedIdx b.contentLength p d) fun c' =>
      0 < b.contentLength ∧ content b.checkedIdx b.contentLength p d = .body b.checkedIdx b.contentLength d ∧
        InBody b c' d (p + passed (d.drop p))
          (if lastLine (d.drop p) = 0 then p else p + lastLine (d.drop p)) := by
  have hp := h.within
  have hle := h.le
  have hread := h.read
  have hloop := (readLoop_eq c).trans (readFrom_eq _)
  rw [h.turn, h.parse] at hloop
  unfold content
  by_cases hover : longMax < b.contentLength + b.checkedIdx + p
  · rw [if_pos hover] at hloop
    exact .fault .overflow hloop (if_pos hover)
  rw [if_neg hover] at hloop ⊢
  by_cases hfit : b.contentLength + p ≤ d.length
  · rw [if_pos hfit] at hloop ⊢
    by_cases hstop : 0 ≤ b.checkedIdx + t + b.contentLength ∧
        b.checkedIdx + t + b.contentLength < readBufferSize
    · rw [if_pos hstop] at hloop
      refine .verdict .doRequest _ hloop (by decide) (if_neg ?_)
      by_cases hlen : b.contentLength < 0
      · have hnil := hneg hlen
        omega
      · omega
    · rw [if_neg hstop] at hloop
      by_cases hlen : b.contentLength < 0
      · -- in front of the buffer
        have hnil := hneg hlen
        exact .fault .outOfBounds hloop (if_pos (by omega))
      · -- or right behind it
        exact .full .outOfBounds hloop (by omega)
  · rw [if_neg hfit]
    rcases h.short (by omega) (by omega) with ⟨hmax, hrun⟩ | ⟨hmax, c', hrun, hbody⟩
    · exact .fault .overflow hrun (if_pos hmax)
    · refine .waits c' hrun ⟨?_, if_neg (by omega), hbody⟩
      by_contra hlen
      have hnil := hneg (by omega)
      omega

/-! ## Read by read -/

/-- The connection `c`, which was `f` when the request began, is at a stage: in the head it stands for
    `f` with all that was received, and in the body it is as `InBody` says. -/
inductive Stands (f : HttpConn) : Stage → HttpConn → Prop
  | head {w : List Byte} {c : HttpConn} (pending : headEnd w = .pending) (read : c.readIdx = w.length)
      (resume : ∀ y, (c.receive y).readLoop = (f.receive (w ++ y)).readLoop) :
      Stands f (readLine .request [] false w) c
  | body {b c : HttpConn} {d : List Byte} {t : Nat} (length : 0 < b.contentLength)
      (inBody : InBody b c d (passed d) t) : Stands f (.body b.checkedIdx b.contentLength d) c

theorem AtRequest.stands (hf : f.AtRequest) : Stands f (.line .request [] false) f :=
  .head (w := []) rfl hf.read fun _ => rfl

/-- **One more read.** -/
theorem Stands.read (hf : f.AtRequest) (h : Stands f s c) (hroom : c.readIdx + x.length ≤ readBufferSize) :
    Agrees (c.receive x) (s.read x) (Stands f (s.read x)) := by
  cases h with
  | body length inBody =>
    rename_i b d t
    have hstage : (Stage.body b.checkedIdx b.contentLength d).read x =
      content b.checkedIdx b.contentLength (passed d) (d ++ x) := rfl
    rw [hstage]
    refine ((inBody.receive x).agrees hroom fun hneg => by omega).trans rfl rfl fun c' hstays => ?_
    obtain ⟨hpos, hstays, hbody⟩ := hstays
    rw [passed_drop] at hbody
    rw [hstays]
    exact .body hpos hbody
  | head pending read resume =>
    rename_i w
    -- as if all had come at once
    have hroom' : (w ++ x).length ≤ readBufferSize := by
      rw [List.length_append, ← read]
      exact hroom
    have hstage : (readLine .request [] false w).read x = readLine .request [] false (w ++ x) := by
      refine (readLine_append ?_ x).symm
      have hhead := headEnd_stage w
      rw [pending] at hhead
      exact hhead
    rw [hstage]
    have hhead := headEnd_stage (w ++ x)
    have hover := hf.bodyless hroom'
    have hrun := hf.headRun hroom'
    generalize hend : headEnd (w ++ x) = o at hhead hover hrun
    cases o with
    | pending =>
      cases hrun with
      | pending c' run after =>
        rw [← resume] at run
        refine .waits c' run (.head hend ?_ fun y => ?_)
        · have hidx : c'.readIdx = (c.receive x).readIdx := (congrArg HttpConn.readIdx (readLoop_unread run) :)
          rw [hidx, List.length_append, ← read]
          rfl
        · rw [← after, receive_receive]
    | bodyless =>
      have hover := hover rfl
      rw [← resume] at hover
      by_cases hlacks : lacksPath (cword ((w ++ x).take ((scanLine (w ++ x)).2 - 2))) = true
      · rw [if_pos hlacks] at hover hhead
        obtain ⟨e, he⟩ := hover
        exact .fault e he hhead
      · rw [if_neg hlacks] at hover hhead
        obtain ⟨exit, c', hc', hexit⟩ := hover
        exact .verdict exit c' hc' hexit hhead
    | body k length =>
      cases hrun with
      | body b k state line length checked unchecked read' above run =>
        have hloop : (c.receive x).readLoop = b.readLoop := by
          have hall := run []
          rw [receive_nil, receive_nil] at hall
          exact (resume x).trans hall
        have hstart : b.checkedIdx = k := by
          rw [checked, show (f.receive (w ++ x)).checkedIdx = f.checkedIdx from rfl, hf.checked, Nat.zero_add]
        have hrest : b.unchecked = (w ++ x).drop k := by rw [unchecked, hf.unchecked_receive]
        have hidx : b.readIdx = (c.receive x).readIdx := by
          rw [read', show (f.receive (w ++ x)).readIdx = f.readIdx + (w ++ x).length from rfl, hf.read,
            Nat.zero_add, List.length_append, ← read]
          rfl
        have hcall := (InBody.entry line state).agrees line.room fun _ => ⟨rfl, rfl⟩
        rw [hrest] at hcall
        have hstage : readLine .request [] false (w ++ x) =
            content b.checkedIdx b.contentLength 0 ((w ++ x).drop k) := by rw [hstart, hhead]
        rw [hstage]
        refine hcall.trans hloop hidx.symm fun c' hstays => ?_
        obtain ⟨hpos, hstays, hbody⟩ := hstays
        rw [List.drop_zero, Nat.zero_add] at hbody
        rw [hstays]
        exact .body hpos hbody

end

end HttpConn

/-- **Any number of reads**: the connection is at the stage that they come to. -/
theorem reading_stands {f c : HttpConn} {h : List (List Byte)} (hstart : reading.start f)
    (hr : reading.Run f h c) : f.AtRequest ∧ HttpConn.Stands f (stage h) c := by
  obtain ⟨d, rfl⟩ := hstart
  have hf := d.init_atRequest
  refine ⟨hf, hr.invariant (I := fun h c => HttpConn.Stands d.init (stage h) c) ?_ hf.stands⟩
  intro h c x c' hstands hstep
  obtain ⟨hroom, hrun⟩ := hstep
  cases hstands.read hf hroom with
  | waits c'' run stays =>
    rw [hrun] at run
    cases run
    exact stays
  | verdict exit c'' run exits stage =>
    rw [hrun] at run
    cases run
    exact absurd rfl exits
  | fault e run stage => rw [hrun] at run; cases run
  | full e run full => rw [hrun] at run; cases run

/-- What `process_read` returns, as a stage says. -/
def Stage.Says : Stage → Except Fault (HttpConn.ReadExit × HttpConn) → Prop
  | .verdict, r => ∃ exit c', r = .ok (exit, c') ∧ exit ≠ .ret .noRequest
  | .fault, r => ∃ e, r = .error e
  | _, r => ∃ c', r = .ok (.ret .noRequest, c')

/-- One more read, as the stage says. -/
theorem HttpConn.Stands.says {f c : HttpConn} {s : Stage} {x : List Byte} (hf : f.AtRequest)
    (h : HttpConn.Stands f s c) (hroom : c.readIdx + x.length < readBufferSize) :
    (s.read x).Says (c.receive x).readLoop := by
  cases h.read hf (Nat.le_of_lt hroom) with
  | waits c' run stays =>
    generalize s.read x = s' at stays ⊢
    cases stays with
    | head pending read resume =>
      rename_i w
      have hhead := headEnd_stage w
      rw [pending] at hhead
      generalize readLine .request [] false w = s' at hhead ⊢
      cases s' with
      | line part text ended => exact ⟨c', run⟩
      | malformed => exact ⟨c', run⟩
      | body start length d => exact hhead.elim
      | verdict => exact hhead.elim
      | fault => exact hhead.elim
    | body length inBody => exact ⟨c', run⟩
  | verdict exit c' run exits stage =>
    rw [stage]
    exact ⟨exit, c', run, exits⟩
  | fault e run stage =>
    rw [stage]
    exact ⟨e, run⟩
  | full e run full =>
    rw [show (c.receive x).readIdx = c.readIdx + x.length from rfl] at full
    exact absurd full (Nat.ne_of_lt hroom)

/-- A stage in the head is what all its bytes lead to, and is malformed if they hold such a line. -/
theorem stage_inHead {h : List (List Byte)} (hin : (stage h).InHead) :
    stage h = readLine .request [] false (received h) := by
  induction h with
  | nil => rfl
  | cons x h ih =>
    have hread : stage (x :: h) = (stage h).read x := rfl
    rw [hread] at hin ⊢
    have hbefore : (stage h).InHead := by
      cases hs : stage h with
      | line part text ended => trivial
      | malformed => trivial
      | body start length d =>
        rw [hs] at hin
        simp only [Stage.read, content] at hin
        repeat' split at hin
        all_goals exact hin.elim
      | verdict => rw [hs] at hin; exact hin.elim
      | fault => rw [hs] at hin; exact hin.elim
    have hstage := ih hbefore
    rw [hstage] at hbefore
    rw [received_cons, readLine_append hbefore, ← hstage]

/-- **When a verdict can still be had** of a connection for which `process_read` has returned
    `NO_REQUEST`: the stage it is at says what the next read returns, and some reads lead from it to a
    verdict if and only if it is open. In the head it is not if a line is malformed. -/
theorem verdict_iff {f c : HttpConn} {h : List (List Byte)} (hstart : reading.start f)
    (hr : reading.Run f h c) :
    (∀ x, c.readIdx + x.length < readBufferSize → ((stage h).read x).Says (c.receive x).readLoop) ∧
      ((∃ more, stage (more ++ h) = .verdict) ↔ (stage h).Open) ∧
      ((stage h).InHead → (stage h = .malformed ↔ brokenLine false (received h) = true)) := by
  obtain ⟨hf, hstands⟩ := reading_stands hstart hr
  refine ⟨fun x hroom => hstands.says hf hroom, ?_, fun hin => ?_⟩
  · have hreads : ∀ more, stage (more ++ h) = (stage h).reads more := fun more => Stage.reads_append _ more h
    simp only [hreads]
    exact reads_verdict_iff (stage h)
  · have hstage := stage_inHead hin
    rw [hstage] at hin ⊢
    exact readLine_malformed hin

/-- A read that is waited behind, from the beginning. -/
theorem run_once {f : HttpConn} {x : List Byte} (hroom : f.readIdx + x.length ≤ readBufferSize)
    (h : (match (f.receive x).readLoop with | .ok (.ret .noRequest, _) => true | _ => false) = true) :
    ∃ c, reading.Run f [x] c := by
  split at h
  · rename_i c hread
    exact ⟨c, .step (.nil f) ⟨hroom, hread⟩⟩
  · cases h

/-- A part of a request line. -/
theorem verdict_iff_cut : ∃ c, reading.Run (default : HttpConn).init [bytes "GET / HT"] c ∧
    ∃ more, stage (more ++ [bytes "GET / HT"]) = .verdict := by
  obtain ⟨c, hr⟩ := run_once (f := (default : HttpConn).init) (x := bytes "GET / HT") (by decide)
    (by decide +kernel)
  obtain ⟨-, hopen, -⟩ := verdict_iff ⟨default, rfl⟩ hr
  exact ⟨c, hr, hopen.mpr (by decide)⟩

/-- A CR in a request line: the peer is kept waiting, whatever else it sends. -/
theorem stuck : ∃ (f c : HttpConn) (h : List (List Byte)), h = [bytes "GET / HTTP/1.1\rX"] ∧
    reading.start f ∧ reading.Run f h c ∧ brokenLine false (received h) = true ∧
    (∀ x, c.readIdx + x.length < readBufferSize → ∃ c', (c.receive x).readLoop = .ok (.ret .noRequest, c')) ∧
    ∀ more, stage (more ++ h) ≠ .verdict := by
  obtain ⟨c, hr⟩ := run_once (f := (default : HttpConn).init) (x := bytes "GET / HTTP/1.1\rX") (by decide)
    (by decide +kernel)
  have hstart : reading.start (default : HttpConn).init := ⟨default, rfl⟩
  have hstage : stage [bytes "GET / HTTP/1.1\rX"] = .malformed := by decide
  obtain ⟨hf, hstands⟩ := reading_stands hstart hr
  rw [hstage] at hstands
  refine ⟨_, c, _, rfl, hstart, hr, by decide, fun x hroom => hstands.says hf hroom, fun more hmore => ?_⟩
  rw [stage, Stage.reads_append] at hmore
  have hopen := (reads_verdict_iff (stage [bytes "GET / HTTP/1.1\rX"])).mp ⟨more, hmore⟩
  rw [hstage] at hopen
  exact hopen

end Http
end LinuxServer
