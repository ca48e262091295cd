import LinuxServer.Http.Reading
import LinuxServer.Http.Write

/-!
# `Http/Process.lean` — `process()`: every verdict, and its response

`process` is `process_read` and, unless that returns `NO_REQUEST`, `process_write` with its verdict.
From an empty `m_write_buf` the response is built whole whatever the verdict (`Http/Response.lean`),
and `Answers` is what it then is: `m_iv` offers a status line, headers whose length is that of what
follows them, and this, and `bytes_to_send` counts it.

Two verdicts are not answered for what they are. `NO_RESOURCE` has no `case`, so that nothing is there
to send, and `BAD_REQUEST` is answered with the 404 page, the texts of the 400 page being there.
And `do_request` tests neither `open` nor `mmap`: of a file that could not be mapped the header is all
that there is to send.

`answers_iff` says of every run of reads that what is left is answered, and which requests that are:
the request line is accepted, what `stat` finds at the path of the request is no directory that
others may read, and if it is a file that is to be sent it can be mapped.
-/

set_option autoImplicit false

namespace LinuxServer
namespace Http

/-- `process()`, with the verdict, and whether the connection has been kept open. -/
def HttpConn.process (fs : FileSystem) (decode : List Byte → Option (List Byte × List Byte))
    (accepts : Bool) (c : HttpConn) (w : World) :
    Except Fault ((HttpCode × Bool × HttpConn) × World) := do
  let ((ret, c), w) ← c.processRead fs decode accepts w
  if ret = .noRequest then return ((ret, true, c), w) else return ((ret, c.processWrite ret), w)

/-- The status that each verdict stands for. -/
def statusOf : HttpCode → Option Int
  | .fileRequest => some 200
  | .badRequest => some 400
  | .forbiddenRequest => some 403
  | .noResource => some 404
  | .internalError => some 500
  | _ => none

/-- A response of this status is all that there is to send, and it is whole. -/
def HttpConn.Answers (files : Files) (c : HttpConn) (status : Int) : Prop :=
  ∃ title body : List Byte,
    c.offered files = (statusLine status title ++ (contentLengthLine body.length ++
      (lingerLine c.linger ++ bytes "\r\n")) ++ body).map some ∧
    0 < c.bytesToSend ∧ c.bytesToSend = (c.offered files).length

/-- At the path there is something that is answered with its own contents, or not to be read. -/
def FileSystem.Serves (fs : FileSystem) (path : List Byte) : Prop :=
  ∃ st, fs.stat path = some st ∧ ¬ (st.irOth = true ∧ st.isDir = true)

/-- What is mapped is as long as `stat` has said. -/
def FileSystem.Maps (fs : FileSystem) (files : Files) : Prop :=
  ∀ path st, fs.stat path = some st → ((files (fs.mmap path)).length : Int) = st.size

/-- `mmap` maps as much as `stat` has said, or it fails. Nothing is at `MAP_FAILED`. -/
structure FileSystem.MapsOrFails (fs : FileSystem) (files : Files) : Prop where
  maps : ∀ path st, fs.stat path = some st → fs.mmap path ≠ mapFailed →
    ((files (fs.mmap path)).length : Int) = st.size
  failed : files mapFailed = []

/-- If there is a file at the path to be sent, `open` and `mmap` succeed for it. -/
def FileSystem.Opens (fs : FileSystem) (path : List Byte) : Prop :=
  ∀ st, fs.stat path = some st → st.irOth = true → st.size ≠ 0 → fs.mmap path ≠ mapFailed

namespace HttpConn

/-! ## The response -/

section
variable {files : Files} {c : HttpConn} {ret : HttpCode} {status : Int}

/-- The file that was found is mapped, and is not too long. -/
def Mapped (files : Files) (c : HttpConn) : Prop :=
  c.fileStat.size < 2 ^ 30 ∧ ∃ address, c.fileAddress = some address ∧
    ((files address).length : Int) = c.fileStat.size

/-- The file that was found is not empty, and not mapped. -/
def Unmapped (c : HttpConn) : Prop :=
  0 < c.fileStat.size ∧ c.fileStat.size < 2 ^ 30 ∧ c.fileAddress = some mapFailed

/-- The response to a verdict, with the file if there is one. -/
def response (files : Files) (c : HttpConn) (ret : HttpCode) : List Byte :=
  responseText ret c.fileStat.size c.linger ++
    if ret = .fileRequest ∧ c.fileStat.size ≠ 0 then (c.fileAddress.map files).getD [] else []

theorem append_slice (text : List Byte) (h : c.writeIdx = 0) :
    (c.append text).writeBuf.slice 0 (c.append text).writeIdx = text := by
  have hslice := Mem.slice_blit c.writeBuf 0 (text ++ [0])
  rw [List.length_append, Mem.slice_append] at hslice
  rw [append_writeIdx, h, Nat.zero_add]
  show (c.writeBuf.blit c.writeIdx (text ++ [0])).slice 0 text.length = text
  rw [h]
  exact (List.append_inj hslice (Mem.length_slice ..)).1

/-- The status that a response is sent with. -/
def sentStatus : HttpCode → Int
  | .badRequest => 404
  | ret => (statusOf ret).getD 0

/-- What a response is made of. -/
theorem response_eq (hret : answered ret = true) (hfile : ret = .fileRequest → c.Mapped files) :
    ∃ title body, body.length < 2 ^ 30 ∧ title.length ≤ 20 ∧
      c.response files ret = statusLine (sentStatus ret) title ++ (contentLengthLine body.length ++
        (lingerLine c.linger ++ bytes "\r\n")) ++ body := by
  have hpage : ∀ {status : Int} {title form : List Byte}, form.length < 2 ^ 30 →
      page status title form c.linger = statusLine status title ++
        (contentLengthLine form.length ++ (lingerLine c.linger ++ bytes "\r\n")) ++ form := by
    intro status title form hform
    rw [page, headerLines, toInt_of_le (by unfold intMin; omega) (by unfold intMax; omega)]
  unfold response
  cases ret with
  | internalError =>
    refine ⟨error500Title, error500Form, by decide, by decide, ?_⟩
    rw [if_neg (fun h => by cases h.1), List.append_nil]
    exact hpage (by decide)
  | badRequest =>
    refine ⟨error404Title, error404Form, by decide, by decide, ?_⟩
    rw [if_neg (fun h => by cases h.1), List.append_nil]
    exact hpage (by decide)
  | forbiddenRequest =>
    refine ⟨error403Title, error403Form, by decide, by decide, ?_⟩
    rw [if_neg (fun h => by cases h.1), List.append_nil]
    exact hpage (by decide)
  | fileRequest =>
    by_cases hzero : c.fileStat.size = 0
    · refine ⟨ok200Title, okString, by decide, by decide, ?_⟩
      rw [if_neg (fun h => h.2 hzero), List.append_nil, responseText]
      simp only [hzero, ne_eq, not_true_eq_false, if_false]
      exact hpage (by decide)
    · obtain ⟨hsize, address, haddress, hlen⟩ := hfile rfl
      refine ⟨ok200Title, files address, by omega, by decide, ?_⟩
      rw [if_pos ⟨rfl, hzero⟩, haddress, responseText]
      simp only [ne_eq, hzero, not_false_eq_true, if_true, Option.map_some, Option.getD_some]
      rw [hlen, headerLines, toInt_of_le (by unfold intMin; omega) (by unfold intMax; omega)]
      rfl
  | noRequest | getRequest | noResource | closedConnection => cases hret

theorem length_responseText (hret : answered ret = true) (size : Int) (linger : Bool) :
    0 < (responseText ret size linger).length ∧ (responseText ret size linger).length ≤ 260 := by
  have hpage : ∀ {status : Int} {title form : List Byte}, 0 < (statusLine status title).length →
      (statusLine status title).length ≤ 100 → form.length ≤ 100 →
      0 < (page status title form linger).length ∧ (page status title form linger).length ≤ 260 := by
    intro status title form hpos hline hform
    have hheaders := length_headerLines form.length linger
    simp only [page, List.length_append]
    omega
  cases ret with
  | internalError => exact hpage (by decide) (by decide) (by decide)
  | badRequest => exact hpage (by decide) (by decide) (by decide)
  | forbiddenRequest => exact hpage (by decide) (by decide) (by decide)
  | fileRequest =>
    unfold responseText
    simp only
    split
    · have hheaders := length_headerLines size linger
      have hline : 0 < (statusLine 200 ok200Title).length ∧ (statusLine 200 ok200Title).length ≤ 100 := by
        decide
      rw [List.length_append]
      omega
    · exact hpage (by decide) (by decide) (by decide)
  | noRequest | getRequest | noResource | closedConnection => cases hret

/-- **The response is prepared whole**, from an empty buffer. -/
theorem processWrite_prepared (h : c.writeIdx = 0) (hret : answered ret = true)
    (hfile : ret = .fileRequest → c.Mapped files) :
    ∃ c', c.processWrite ret = (true, c') ∧ Transfer.Prepared files c' (c.response files ret) ∧
      0 < c'.writeIdx ∧ c'.writeIdx ≤ writeBufferSize ∧ c'.bytesHaveSend = c.bytesHaveSend ∧
      c'.linger = c.linger ∧ c'.docRoot = c.docRoot ∧ (c.response files ret).length ≤ intMax := by
  let text := responseText ret c.fileStat.size c.linger
  obtain ⟨hpos, hlen⟩ := length_responseText hret c.fileStat.size c.linger
  have hidx : (c.append text).writeIdx = text.length := by rw [append_writeIdx, h, Nat.zero_add]
  have hslice := append_slice text h
  have hfirst : 0 < (c.append text).writeIdx := by
    rw [hidx]
    exact hpos
  have hroom : (c.append text).writeIdx ≤ writeBufferSize := by
    rw [hidx]
    exact Nat.le_trans hlen (by decide)
  rw [processWrite_eq h]
  simp only [hret, if_true]
  unfold response
  by_cases hf : ret = .fileRequest ∧ c.fileStat.size ≠ 0
  · -- the header, and the file behind it
    obtain ⟨hsize, address, haddress, hmapped⟩ := hfile hf.1
    rw [if_pos hf, if_pos hf, haddress, Option.map_some, Option.getD_some]
    have hprepared : Transfer.Prepared files (c.append text).sendFile _ :=
      .file (c.append text) address rfl haddress hmapped.symm
    rw [hslice] at hprepared
    refine ⟨_, rfl, hprepared, hfirst, hroom, rfl, rfl, rfl, ?_⟩
    rw [List.length_append]
    unfold intMax
    omega
  · -- a page, all of it in `m_write_buf`
    rw [if_neg hf, if_neg hf, List.append_nil]
    have hprepared : Transfer.Prepared files (c.append text).sendBuffer _ := .buffer (c.append text) rfl
    rw [hslice] at hprepared
    refine ⟨_, rfl, hprepared, hfirst, hroom, rfl, rfl, rfl, ?_⟩
    unfold intMax
    omega

/-- The first bytes of a response tell its status. -/
theorem statusLine_take {title rest : List Byte} (h : (decimal status).length = 3) :
    (statusLine status title ++ rest).take 12 = bytes "HTTP/1.1 " ++ decimal status := by
  have hname : (bytes "HTTP/1.1 ").length = 9 := by decide
  simp only [statusLine, List.append_assoc]
  rw [← List.append_assoc, List.take_append_of_le_length (by rw [List.length_append]; omega),
    List.take_of_length_le (by rw [List.length_append]; omega)]

/-- **Which verdicts are answered**: all but the one that has no `case`, and the one whose `case` sends
    another status. -/
theorem processWrite_answers (h : c.writeIdx = 0) (hhave : c.bytesHaveSend = 0) (hsend : c.bytesToSend = 0)
    (hfile : ret = .fileRequest → c.Mapped files) (hstatus : statusOf ret = some status) :
    (c.processWrite ret).2.Answers files status ↔ ret ≠ .noResource ∧ ret ≠ .badRequest := by
  by_cases hret : answered ret = true
  · obtain ⟨c', hwrite, hprepared, hpos, hroom, hhave', hlinger, -, hfits⟩ :=
      processWrite_prepared h hret hfile
    obtain ⟨title, body, -, -, hresponse⟩ := response_eq hret hfile
    obtain ⟨header, content, hmessage, hsending⟩ :=
      Transfer.Prepared.sending (s := ⟨c', false, none, []⟩) hprepared hpos hroom (hhave'.trans hhave) hfits
    have hoffered : c'.offered files = (c.response files ret).map some := by
      rw [hmessage, hsending.offered_eq, List.drop_zero]
    rw [hwrite]
    constructor
    · -- the status is told by the first bytes
      rintro ⟨title', body', hanswer, -⟩
      rw [hoffered] at hanswer
      have heq := (List.map_inj_right fun _ _ => Option.some.inj).mp hanswer
      have htake := congrArg (List.take 12) heq
      rw [hresponse, List.append_assoc _ _ body, List.append_assoc _ _ body'] at htake
      refine ⟨fun he => (by rw [he] at hret; cases hret), ?_⟩
      rintro rfl
      cases hstatus
      rw [statusLine_take (by decide), statusLine_take (by decide)] at htake
      exact absurd htake (by decide)
    · rintro ⟨-, hbad⟩
      have hsent : sentStatus ret = status := by
        cases ret with
        | badRequest => exact absurd rfl hbad
        | internalError | forbiddenRequest | fileRequest => cases hstatus; rfl
        | noRequest | getRequest | noResource | closedConnection => cases hret
      have hlength : c'.bytesToSend = (c.response files ret).length := by
        rw [hsending.toSend, ← hmessage]
        exact Int.sub_zero _
      refine ⟨title, body, ?_, ?_, ?_⟩
      · rw [hoffered, hresponse, hsent, hlinger]
      · have hlen : header.length = c'.writeIdx := hsending.length_header
        rw [hlength, hmessage, List.length_append, hlen]
        omega
      · rw [hlength, hoffered, List.length_map]
  · -- nothing has been prepared
    have hnone : (c.processWrite ret).2 = c := by
      rw [processWrite_eq h]
      simp only [hret, Bool.false_eq_true, if_false]
    rw [hnone]
    refine iff_of_false ?_ ?_
    · rintro ⟨-, -, -, hpos, -⟩
      rw [hsend] at hpos
      exact absurd hpos (by decide)
    · rintro ⟨hno, hbad⟩
      cases ret with
      | noResource => exact hno rfl
      | badRequest => exact hbad rfl
      | internalError | forbiddenRequest | fileRequest => exact hret rfl
      | noRequest | getRequest | closedConnection => cases hstatus

/-- **A file that is not mapped** is not answered with: what follows the header is nowhere. -/
theorem processWrite_unmapped (h : c.writeIdx = 0) (hfile : c.Unmapped) (hfailed : files mapFailed = []) :
    ¬ (c.processWrite .fileRequest).2.Answers files status := by
  obtain ⟨hpos, hsize, haddress⟩ := hfile
  let c' := c.append (responseText .fileRequest c.fileStat.size c.linger)
  have hwrite : (c.processWrite .fileRequest).2 = c'.sendFile := by
    rw [processWrite_eq h]
    simp only [answered, if_true]
    rw [if_pos ⟨trivial, by omega⟩]
  have hlen : 0 < toSize c.fileStat.size := by
    unfold toSize
    omega
  rw [hwrite]
  rintro ⟨title, body, hoffered, -⟩
  have hnone : none ∈ c'.sendFile.offered files := by
    refine List.mem_append_right _ (List.mem_map.mpr ⟨0, List.mem_range.mpr hlen, ?_⟩)
    show c'.sendFile.fetch files (.file c.fileAddress 0) = none
    rw [haddress]
    simp [fetch, hfailed]
  rw [hoffered] at hnone
  obtain ⟨b, -, hb⟩ := List.mem_map.mp hnone
  cases hb

end

/-! ## The verdict -/

section
variable {fs : FileSystem} {files : Files} {f c c' : HttpConn} {ret : HttpCode}
  {decode : List Byte → Option (List Byte × List Byte)} {accepts opened : Bool} {w w' : World}

/-- What is opened is what `stat` has found, and it is mapped, or the one or the other has failed. -/
theorem openFile_verdict (hmaps : fs.MapsOrFails files)
    (hsize : ∀ path st, fs.stat path = some st → 0 ≤ st.size ∧ st.size < 2 ^ 30)
    (h : c.openFile fs = (ret, c')) :
    (∃ status, statusOf ret = some status) ∧
    ((ret ≠ .noResource ∧ ret ≠ .badRequest) ↔ fs.Serves (c.realFile.cstr filenameLen 0)) ∧
    ((ret = .fileRequest → c'.Mapped files) ∧
        ((ret ≠ .noResource ∧ ret ≠ .badRequest) → fs.Opens (c.realFile.cstr filenameLen 0)) ∨
      ret = .fileRequest ∧ c'.Unmapped ∧ ¬ fs.Opens (c.realFile.cstr filenameLen 0)) := by
  unfold FileSystem.Serves FileSystem.Opens
  unfold openFile at h
  simp only at h
  generalize c.realFile.cstr filenameLen 0 = path at h ⊢
  cases hstat : fs.stat path with
  | none =>
    rw [hstat] at h
    cases h
    refine ⟨⟨404, rfl⟩, iff_of_false (fun hne => hne.1 rfl) ?_, .inl ⟨nofun, fun hne => absurd rfl hne.1⟩⟩
    rintro ⟨st, hst, -⟩
    cases hst
  | some st =>
    rw [hstat] at h
    simp only at h
    split at h
    · rename_i hoth
      cases h
      refine ⟨⟨403, rfl⟩, iff_of_true ⟨nofun, nofun⟩ ⟨st, rfl, fun hdir => hoth hdir.1⟩, .inl ⟨nofun, ?_⟩⟩
      rintro - st' hst' hoth'
      cases hst'
      exact absurd hoth' hoth
    · rename_i hoth
      split at h
      · rename_i hdir
        cases h
        refine ⟨⟨400, rfl⟩, iff_of_false (fun hne => hne.2 rfl) ?_, .inl ⟨nofun, fun hne => absurd rfl hne.2⟩⟩
        rintro ⟨st', hst', hserves⟩
        cases hst'
        exact hserves ⟨not_not.mp hoth, hdir⟩
      · rename_i hdir
        cases h
        obtain ⟨hnonneg, hsmall⟩ := hsize path st hstat
        refine ⟨⟨200, rfl⟩, iff_of_true ⟨nofun, nofun⟩ ⟨st, rfl, fun hserves => hdir hserves.2⟩, ?_⟩
        by_cases hmap : fs.mmap path = mapFailed
        · by_cases hzero : st.size = 0
          · -- an empty file is not sent, and nothing is all of it
            refine .inl ⟨fun _ => ⟨hsmall, _, rfl, ?_⟩, ?_⟩
            · rw [hmap, hmaps.failed]
              exact hzero.symm
            · rintro - st' hst' - hne
              cases hst'
              exact absurd hzero hne
          · refine .inr ⟨rfl, ⟨by show 0 < st.size; omega, hsmall, congrArg some hmap⟩, fun hopens => ?_⟩
            exact hopens st rfl (not_not.mp hoth) hzero hmap
        · exact .inl ⟨fun _ => ⟨hsmall, _, rfl, hmaps.maps path st hstat hmap⟩, fun _ _ _ _ _ => hmap⟩

/-- **Every request is answered, and when.** After any reads from `init()` on, of which the last has a
    verdict: a complete response of the status of that verdict is there to be sent if and only if the
    request line is accepted, what is found at the path of the request is no directory that others may
    read, and a file there that is to be sent is opened and mapped. -/
theorem answers_iff {h : List (List Byte)} {x : List Byte} (hstart : reading.start f)
    (hr : reading.Run f h c) (hroom : c.readIdx + x.length ≤ readBufferSize) (hmaps : fs.MapsOrFails files)
    (hsize : ∀ path st, fs.stat path = some st → 0 ≤ st.size ∧ st.size < 2 ^ 30)
    (hproc : (c.receive x).process fs decode accepts w = .ok ((ret, opened, c'), w'))
    (hret : ret ≠ .noRequest) :
    (∃ status, statusOf ret = some status ∧ c'.Answers files status) ↔
      acceptsRequest (received h ++ x) = true ∧ ∃ c₁, (c.receive x).readLoop = .ok (.doRequest, c₁) ∧
        fs.Serves (c₁.lookedUp decode accepts w) ∧ fs.Opens (c₁.lookedUp decode accepts w) := by
  obtain ⟨⟨⟨ret₁, c₂⟩, w₁⟩, hread, hproc⟩ := bind_eq_ok.mp hproc
  obtain ⟨⟨exit, c₁⟩, hloop, hread⟩ := bind_eq_ok.mp hread
  have hwritten : ret₁ = ret ∧ (c₂.processWrite ret).2 = c' := by
    simp only at hproc
    split at hproc
    · rename_i hno
      cases hproc
      exact absurd hno hret
    · simp only [pure, Except.pure, Except.ok.injEq, Prod.mk.injEq] at hproc
      obtain ⟨⟨rfl, hpair⟩, -⟩ := hproc
      exact ⟨rfl, congrArg Prod.snd hpair⟩
  obtain ⟨rfl, rfl⟩ := hwritten
  cases exit with
  | ret code =>
    -- a `BAD_REQUEST` of the loop: the page that is sent has no status of its own
    cases hread
    have hverdict := reading_verdict hstart hr hroom hloop (fun he => hret (by cases he; rfl))
    have hcode := hverdict.exit_eq
    cases haccepts : acceptsRequest (received h ++ x) with
    | true => rw [haccepts, if_pos rfl] at hcode; cases hcode
    | false =>
      rw [haccepts, if_neg Bool.false_ne_true] at hcode
      cases hcode
      refine iff_of_false ?_ fun hrhs => Bool.noConfusion hrhs.1
      rintro ⟨status, hstatus, hanswers⟩
      have hmapped : HttpCode.badRequest = .fileRequest → c₂.Mapped files := nofun
      exact ((processWrite_answers hverdict.writeIdx hverdict.bytesHaveSend hverdict.bytesToSend hmapped
        hstatus).mp hanswers).2 rfl
  | doRequest =>
    -- an accepted request: the status is told by what `stat` answers for its path
    have hverdict := reading_verdict hstart hr hroom hloop nofun
    have hcode := hverdict.exit_eq
    have haccepts : acceptsRequest (received h ++ x) = true := by
      by_contra hno
      rw [if_neg hno] at hcode
      cases hcode
    have hserved := doRequest_unserved hread
    have hidx : c₂.writeIdx = 0 := (congrArg HttpConn.writeIdx hserved :).trans hverdict.writeIdx
    have hhave : c₂.bytesHaveSend = 0 :=
      (congrArg HttpConn.bytesHaveSend hserved :).trans hverdict.bytesHaveSend
    have hsend : c₂.bytesToSend = 0 := (congrArg HttpConn.bytesToSend hserved :).trans hverdict.bytesToSend
    obtain ⟨u, hu⟩ := doRequest_url hread
    obtain ⟨c₃, hpath, hopen⟩ := doRequest_eq hu (hverdict.url u hu) hverdict.realFile hread
    obtain ⟨⟨status, hstatus⟩, hserves, hopens⟩ := openFile_verdict hmaps hsize hopen
    rw [hpath] at hserves hopens
    rcases hopens with ⟨hmapped, hopens⟩ | ⟨rfl, hunmapped, hnot⟩
    · have hanswers := fun {status} (hstatus : statusOf ret₁ = some status) =>
        processWrite_answers hidx hhave hsend hmapped hstatus
      constructor
      · rintro ⟨status', hstatus', hanswered⟩
        have hne := (hanswers hstatus').mp hanswered
        exact ⟨haccepts, c₁, hloop, hserves.mp hne, hopens hne⟩
      · rintro ⟨-, c₁', hloop', hfound, -⟩
        rw [hloop] at hloop'
        cases hloop'
        exact ⟨status, hstatus, (hanswers hstatus).mpr (hserves.mpr hfound)⟩
    · refine iff_of_false ?_ ?_
      · rintro ⟨status', -, hanswered⟩
        exact processWrite_unmapped hidx hunmapped hmaps.failed hanswered
      · rintro ⟨-, c₁', hloop', -, hopened⟩
        rw [hloop] at hloop'
        cases hloop'
        exact hnot hopened

/-- A disk with one file on it, of two bytes, and the page for a request without a path. -/
def oneFile : FileSystem where
  stat path := if path = bytes "/judge.html" then some ⟨2, true, false⟩ else none
  mmap _ := 0

theorem oneFile_maps : oneFile.Maps fun _ => bytes "hi" := by
  intro path st hst
  unfold oneFile at hst
  simp only at hst
  split at hst
  · cases hst
    rfl
  · cases hst

theorem oneFile_size (path : List Byte) (st : FileStat) (hst : oneFile.stat path = some st) :
    0 ≤ st.size ∧ st.size < 2 ^ 30 := by
  unfold oneFile at hst
  simp only at hst
  split at hst
  · cases hst
    decide
  · cases hst

/-- That file, where it is mapped. -/
def twoBytes : Files := fun address => if address = 0 then bytes "hi" else []

theorem twoBytes_maps : oneFile.MapsOrFails twoBytes where
  maps path st hst _ := oneFile_maps path st hst
  failed := rfl

/-- A request for that page. -/
theorem answers_iff_found : ∃ c' w', ((default : HttpConn).init.receive (bytes "GET / HTTP/1.1\r\n\r\n")).process
      oneFile decodePlain true ⟨fun _ => none, []⟩ = .ok ((.fileRequest, true, c'), w') ∧
    ∃ status, statusOf .fileRequest = some status ∧ c'.Answers twoBytes status := by
  have hproc : (((default : HttpConn).init.receive (bytes "GET / HTTP/1.1\r\n\r\n")).process oneFile
      decodePlain true ⟨fun _ => none, []⟩).toOption.any
        (fun r => r.1.1 = .fileRequest ∧ r.1.2.1 = true) = true := by
    decide +kernel
  have hloop : ((default : HttpConn).init.receive (bytes "GET / HTTP/1.1\r\n\r\n")).readLoop.toOption.any
      (fun r => r.1 = .doRequest ∧
        r.2.lookedUp decodePlain true ⟨fun _ => none, []⟩ = bytes "/judge.html") = true := by
    decide +kernel
  obtain ⟨⟨⟨ret, opened, c'⟩, w'⟩, hrun, htest⟩ := exists_ok_of_any hproc
  obtain ⟨rfl, rfl⟩ := of_decide_eq_true htest
  obtain ⟨⟨exit, c₁⟩, hread, htest⟩ := exists_ok_of_any hloop
  obtain ⟨rfl, hpath⟩ := of_decide_eq_true htest
  refine ⟨c', w', hrun, (answers_iff ⟨default, rfl⟩ (.nil _) (by decide) twoBytes_maps oneFile_size hrun nofun).mpr
    ⟨by decide +kernel, c₁, hread, ?_, fun _ _ _ _ => show 0 ≠ mapFailed by decide⟩⟩
  rw [hpath]
  exact ⟨⟨2, true, false⟩, rfl, by decide⟩

/-- A request for a file that is not there: there is nothing to send. -/
theorem unanswered : ∃ (fs : FileSystem) (files : Files) (c c' : HttpConn) (x : List Byte) (w w' : World),
    x = bytes "GET /a HTTP/1.1\r\n\r\n" ∧ reading.start c ∧ reading.Run c [] c ∧
    c.readIdx + x.length ≤ readBufferSize ∧ fs.Maps files ∧
    (∀ path st, fs.stat path = some st → 0 ≤ st.size ∧ st.size < 2 ^ 30) ∧
    (c.receive x).process fs decodePlain true w = .ok ((.noResource, true, c'), w') ∧
    c'.bytesToSend = 0 ∧ ¬ ∃ status, statusOf .noResource = some status ∧ c'.Answers files status := by
  have hproc : (((default : HttpConn).init.receive (bytes "GET /a HTTP/1.1\r\n\r\n")).process oneFile
      decodePlain true ⟨fun _ => none, []⟩).toOption.any
        (fun r => r.1.1 = .noResource ∧ r.1.2.1 = true ∧ r.1.2.2.bytesToSend = 0) = true := by
    decide +kernel
  obtain ⟨⟨⟨ret, opened, c'⟩, w'⟩, hrun, htest⟩ := exists_ok_of_any hproc
  obtain ⟨rfl, rfl, hnothing⟩ := of_decide_eq_true htest
  refine ⟨oneFile, _, _, c', _, _, w', rfl, ⟨default, rfl⟩, .nil _, by decide, oneFile_maps, oneFile_size,
    hrun, hnothing, ?_⟩
  rintro ⟨status, -, -, -, -, hpos, -⟩
  rw [hnothing] at hpos
  exact absurd hpos (by decide)

end

end HttpConn

end Http
end LinuxServer
