import LinuxServer.Http.Confined
import LinuxServer.Http.Session

/-!
# `Http/FileName.lean` — the file that is looked up, and the one that is named

`m_real_file` is meant to be `doc_root` and the page behind it: the page of a digit, the page that a
form is answered with, or the whole of `m_url`. `init()` has cleared it, on every way that leads to
the next request, so nothing of an earlier one is left in it (`Session.Kept`), and the copy of `/2..` or
`/3..` is overwritten. But `strncpy` copies as much as there is room for and nothing looks whether that was
all: a path that does not fit is cut, and the file of what is left is served. `do_request` refuses no path
(`not_refuses`), and what it looks up is what was named if and only if that fits (`namesFile_iff`).
-/

set_option autoImplicit false

namespace LinuxServer
namespace Http
namespace HttpConn

section
variable (decode : List Byte → Option (List Byte × List Byte)) (accepts : Bool)

/-- The page that a request is for. -/
def namedPage (c : HttpConn) (w : World) : List Byte :=
  let url := (c.url.map c.str).getD []
  match c.formPage decode accepts w (lastDigit url) with
  | some page => page
  | none => (digitPage (lastDigit url)).getD url

/-- The request is refused: whatever is on the disk, `do_request` returns, and no file is sent. -/
def Refuses (c : HttpConn) (w : World) : Prop :=
  ∀ fs, ∃ r, c.doRequest fs decode accepts w = .ok r ∧ r.1.1 ≠ .fileRequest

/-- **The file looked up is the file named.** With room for its path, `stat` is called with that path; without,
    the request is refused. -/
structure NamesFile (root : List Byte) (c : HttpConn) (w : World) : Prop where
  exact : root.length + (c.namedPage decode accepts w).length < filenameLen →
    ∀ fs r, c.doRequest fs decode accepts w = .ok r →
      r.1.2.realFile.cstr filenameLen 0 = root ++ c.namedPage decode accepts w
  refused : filenameLen ≤ root.length + (c.namedPage decode accepts w).length →
    c.Refuses decode accepts w

/-- All of `do_request` that is in front of the `stat`. -/
def makePath (c : HttpConn) (w : World) : Except Fault (HttpConn × World) :=
  match c.url with
  | none => .error .nullPointer
  | some url => do
    let c ← c.copyRoot
    let p ← c.lastSlash url
    let (c, w) ← c.answerForm decode accepts url p w
    let c ← c.selectPage url p
    return (c, w)

end

section
variable {fs : FileSystem} {files : Files} {decode : List Byte → Option (List Byte × List Byte)}
  {accepts opened : Bool} {root : List Byte} {c c' c₁ : HttpConn} {w w' : World} {ret : HttpCode}

/-! ## One request -/

/-- What has room is looked up as it is named. -/
theorem lookedUp_eq (hroot : 0 ∉ c.docRoot)
    (hfits : c.docRoot.length + (c.namedPage decode accepts w).length < filenameLen) :
    c.lookedUp decode accepts w = c.docRoot ++ c.namedPage decode accepts w := by
  have hunder : ∀ page : List Byte, 0 ∉ page → c.docRoot.length + page.length < filenameLen →
      under c.docRoot page = c.docRoot ++ page := by
    intro page hpage hlen
    rw [under, List.take_of_length_le (by omega), cword_append hroot hpage]
  unfold namedPage at hfits ⊢
  unfold lookedUp
  simp only at hfits ⊢
  cases hform : c.formPage decode accepts w (lastDigit ((c.url.map c.str).getD [])) with
  | some page =>
    rw [hform] at hfits
    exact hunder page (formPages_plain page (formPage_mem hform)).1 hfits
  | none =>
    rw [hform] at hfits
    simp only at hfits ⊢
    unfold localPath
    cases hdigit : digitPage (lastDigit ((c.url.map c.str).getD [])) with
    | some page => exact cword_append hroot (staying_digitPage hdigit).1
    | none =>
      rw [hdigit, Option.getD_none] at hfits
      refine hunder _ ?_ hfits
      cases c.url with
      | none => exact List.not_mem_nil
      | some u => exact Mem.zero_notMem_cstr

theorem doRequest_eq_makePath (fs : FileSystem) (c : HttpConn) (w : World) :
    c.doRequest fs decode accepts w = (c.makePath decode accepts w).map fun r => (r.1.openFile fs, r.2) := by
  unfold doRequest makePath
  cases c.url with
  | none => rfl
  | some url =>
    simp only [bind, Except.bind, pure, Except.pure]
    cases c.copyRoot with
    | error f => rfl
    | ok c =>
      simp only
      cases c.lastSlash url with
      | error f => rfl
      | ok p =>
        simp only
        cases c.answerForm decode accepts url p w with
        | error f => rfl
        | ok r =>
          simp only
          cases r.1.selectPage url p <;> rfl

/-- **No request is refused**: where `do_request` returns at all, there may be a file at the path that it
    has made. -/
theorem not_refuses (c : HttpConn) (w : World) : ¬ c.Refuses decode accepts w := by
  intro h
  obtain ⟨r, hr, -⟩ := h (only [])
  rw [doRequest_eq_makePath] at hr
  cases hpath : c.makePath decode accepts w with
  | error f =>
    rw [hpath] at hr
    cases hr
  | ok s =>
    obtain ⟨r', hr', hret⟩ := h (only (s.1.realFile.cstr filenameLen 0))
    rw [doRequest_eq_makePath, hpath] at hr'
    cases hr'
    apply hret
    simp [openFile, only]

/-- Of cleared memory. -/
theorem namesFile_of_clear (hroot : 0 ∉ c.docRoot) (hclear : ∀ i, c.realFile i = 0)
    (hurl : ∀ u, c.url = some u → u + (c.str u).length < readBufferSize) :
    c.NamesFile decode accepts c.docRoot w ↔
      c.docRoot.length + (c.namedPage decode accepts w).length < filenameLen := by
  constructor
  · intro h
    by_contra hlong
    exact not_refuses c w (h.refused (Nat.le_of_not_lt hlong))
  · intro hfits
    refine ⟨fun _ fs r hr => ?_, fun hlong => absurd hfits (Nat.not_lt_of_le hlong)⟩
    obtain ⟨⟨code, c'⟩, w'⟩ := r
    obtain ⟨u, hu⟩ := doRequest_url hr
    obtain ⟨c₃, hpath, hopen⟩ := doRequest_eq hu (hurl u hu) hclear hr
    have hfile := openFile_realFile fs c₃
    rw [hopen] at hfile
    rw [hfile, hpath, lookedUp_eq hroot hfits]

/-! ## Request after request -/

theorem openFile_answers (fs : FileSystem) (c : HttpConn) : (c.openFile fs).1 ≠ .noRequest := by
  rw [openFile]
  simp only
  repeat' split
  all_goals simp

/-- `process()` returns `NO_REQUEST` when its loop does, and keeps `doc_root`. -/
theorem process_kept (h : c.process fs decode accepts w = .ok ((ret, opened, c'), w')) :
    c'.docRoot = c.docRoot ∧ (ret = .noRequest → c.readLoop = .ok (.ret .noRequest, c')) := by
  obtain ⟨⟨⟨ret₁, c₁⟩, w₁⟩, hread, h⟩ := bind_eq_ok.mp h
  have hkept : c₁.docRoot = c.docRoot ∧ (ret₁ = .noRequest → c.readLoop = .ok (.ret .noRequest, c₁)) := by
    obtain ⟨⟨exit, c₀⟩, hrun, hread⟩ := bind_eq_ok.mp hread
    have hparsed : c₀.docRoot = c.docRoot := (congrArg HttpConn.docRoot (readLoop_unread hrun) :)
    cases exit with
    | ret code =>
      cases hread
      exact ⟨hparsed, fun hcode => hcode ▸ hrun⟩
    | doRequest =>
      have hserved : c₁.docRoot = c₀.docRoot := (congrArg HttpConn.docRoot (doRequest_unserved hread) :)
      obtain ⟨c₃, -, hopen⟩ := doRequest_openFile hread
      have hanswers := openFile_answers fs c₃
      rw [hopen] at hanswers
      exact ⟨hserved.trans hparsed, fun hcode => absurd hcode hanswers⟩
  simp only at h
  split at h
  · cases h
    exact hkept
  · rename_i hcode
    simp only [pure, Except.pure, Except.ok.injEq, Prod.mk.injEq] at h
    obtain ⟨⟨rfl, hwrite⟩, -⟩ := h
    have hsent := processWrite_unsent c₁ ret₁
    rw [hwrite] at hsent
    have hroot : c'.docRoot = c₁.docRoot := (congrArg HttpConn.docRoot hsent :)
    exact ⟨hroot.trans hkept.1, fun hcode' => absurd hcode' hcode⟩

end

end HttpConn

namespace Session

section
variable {fs : FileSystem} {files : Files} {decode : List Byte → Option (List Byte × List Byte)}
  {accepts : Bool} {root x : List Byte} {s s₀ s' : Session} {i : Step} {h : List Step} {c₁ : HttpConn}

/-- What there is between two requests: a connection that `init()` was called on, and that has been read
    into since. -/
structure Kept (root : List Byte) (s : Session) : Prop where
  docRoot : s.transfer.conn.docRoot = root
  begun : s.phase = .reading → ∃ f h, Http.reading.start f ∧ Http.reading.Run f h s.transfer.conn

theorem Kept.read (hk : s.Kept root) (hen : s.Enabled files (.read x accepts))
    (hread : s.read fs decode x accepts = .ok s') : s'.Kept root := by
  obtain ⟨hphase, hroom⟩ := hen
  obtain ⟨⟨⟨ret, opened, c⟩, w⟩, hprocess, hread⟩ := bind_eq_ok.mp hread
  obtain ⟨hroot, hmore⟩ := HttpConn.process_kept hprocess
  cases hread
  refine ⟨hroot.trans hk.docRoot, fun hreading => ?_⟩
  obtain ⟨f, h, hstart, hrun⟩ := hk.begun hphase
  have hret : ret = .noRequest := by
    by_contra hret
    simp only [if_neg hret] at hreading
    split at hreading <;> cases hreading
  exact ⟨f, x :: h, hstart, .step hrun ⟨hroom, hmore hret⟩⟩

theorem Kept.write {i : Transfer.Step} (hk : s.Kept root) (hen : s.Enabled files (.write i))
    (hwrite : s.write files i = .ok s') : s'.Kept root := by
  obtain ⟨hphase, hen⟩ := hen
  obtain ⟨t, hexec, hwrite⟩ := bind_eq_ok.mp hwrite
  obtain ⟨hroot, hcases⟩ := Transfer.exec_kept hen hexec
  have hinit : ∀ d : HttpConn, ∃ f h, Http.reading.start f ∧ Http.reading.Run f h d.init := fun d =>
    ⟨d.init, [], ⟨d, rfl⟩, .nil _⟩
  rcases hcases with ⟨hreturned, hreset⟩ | ⟨hreturned, hconn⟩ | hreturned | ⟨hreturned, -⟩
  · rw [hreturned] at hwrite
    cases hwrite
    refine ⟨hroot.trans hk.docRoot, fun hreading => ?_⟩
    have hlinger : s.transfer.conn.linger = true := by
      by_contra hlinger
      simp only [if_neg hlinger] at hreading
      cases hreading
    obtain ⟨d, hd⟩ := hreset hlinger
    exact hd ▸ hinit d
  · rw [hreturned] at hwrite
    cases hwrite
    exact ⟨hroot.trans hk.docRoot, fun _ => hconn ▸ hinit _⟩
  · rw [hreturned] at hwrite
    cases hwrite
    exact ⟨hroot.trans hk.docRoot, fun hreading => by cases hreading⟩
  · have hs' : s' = { s with transfer := t } := by
      rcases hreturned with hreturned | hreturned <;> rw [hreturned] at hwrite <;> cases hwrite <;> rfl
    rw [hs']
    exact ⟨hroot.trans hk.docRoot, fun hreading => by rw [hphase] at hreading; cases hreading⟩

/-- **Whatever was read and written before**, the next request begins on what `init()` has cleared. -/
theorem kept_of_run (hstart : (session fs files decode).start s₀) (hrun : (session fs files decode).Run s₀ h s) :
    s.Kept s₀.transfer.conn.docRoot := by
  refine hrun.invariant (I := fun _ s => s.Kept s₀.transfer.conn.docRoot) ?_ ?_
  · intro h s i s' hk hstep
    obtain ⟨hen, hexec⟩ := hstep
    cases i with
    | read x accepts => exact hk.read hen hexec
    | write i => exact hk.write hen hexec
  · obtain ⟨-, ⟨d, hd⟩, -⟩ := hstart
    exact ⟨rfl, fun _ => ⟨d.init, [], ⟨d, rfl⟩, hd ▸ .nil _⟩⟩

/-- **Which file a request is answered with**, after any requests and responses on the connection: the
    one it names if and only if there is room for the path of that. -/
theorem namesFile_iff (hstart : (session fs files decode).start s₀)
    (hrun : (session fs files decode).Run s₀ h s) (hen : s.Enabled files (.read x accepts))
    (hroot : 0 ∉ s₀.transfer.conn.docRoot)
    (hread : (s.transfer.conn.receive x).readLoop = .ok (.doRequest, c₁)) :
    c₁.NamesFile decode accepts s₀.transfer.conn.docRoot s.world ↔
      s₀.transfer.conn.docRoot.length + (c₁.namedPage decode accepts s.world).length < filenameLen := by
  have hk := kept_of_run hstart hrun
  obtain ⟨f, h', hstart', hrun'⟩ := hk.begun hen.1
  have hverdict := reading_verdict hstart' hrun' hen.2 hread (fun hexit => by cases hexit)
  have hparsed : c₁.docRoot = s.transfer.conn.docRoot :=
    (congrArg HttpConn.docRoot (HttpConn.readLoop_unread hread) :)
  rw [← hk.docRoot, ← hparsed] at hroot ⊢
  exact HttpConn.namesFile_of_clear hroot hverdict.realFile hverdict.url

/-- A session of a server whose files are in `/var/www`. -/
def sited : Session := ⟨.reading, ⟨HttpConn.sited.init, false, none, []⟩, ⟨fun _ => none, []⟩, []⟩

theorem sited_start (fs : FileSystem) (files : Files) : (session fs files decodePlain).start sited :=
  ⟨rfl, ⟨HttpConn.sited, rfl⟩, rfl⟩

/-- A file that is there. -/
theorem namesFile_iff_short : ∃ c₁,
    (sited.transfer.conn.receive (bytes "GET /a HTTP/1.1\r\n\r\n")).readLoop = .ok (.doRequest, c₁) ∧
    c₁.NamesFile decodePlain true sited.transfer.conn.docRoot sited.world := by
  have hparsed : (sited.transfer.conn.receive (bytes "GET /a HTTP/1.1\r\n\r\n")).readLoop.toOption.any
      (fun r => r.1 = .doRequest ∧ sited.transfer.conn.docRoot.length +
        (r.2.namedPage decodePlain true sited.world).length < filenameLen) = true := by decide +kernel
  obtain ⟨⟨exit, c₁⟩, hread, hexit⟩ := exists_ok_of_any hparsed
  obtain ⟨rfl, hshort⟩ := of_decide_eq_true hexit
  exact ⟨c₁, hread, (namesFile_iff (sited_start (HttpConn.only (bytes "/var/www/a")) fun _ => []) (.nil _)
    (by decide) (by decide) hread).mpr hshort⟩

/-- A path of 208 bytes: another file is sent, whose path is what there is room for. -/
theorem not_namesFile_long : ∃ (x : List Byte) (c₁ c' : HttpConn) (w' : World),
    x = bytes "GET /" ++ List.replicate 199 97 ++ bytes " HTTP/1.1\r\n\r\n" ∧
    (sited.transfer.conn.receive x).readLoop = .ok (.doRequest, c₁) ∧
    c₁.namedPage decodePlain true sited.world = bytes "/" ++ List.replicate 199 97 ∧
    c₁.doRequest (HttpConn.only (bytes "/var/www/" ++ List.replicate 190 97)) decodePlain true sited.world =
      .ok ((.fileRequest, c'), w') ∧
    c'.realFile.cstr filenameLen 0 = bytes "/var/www/" ++ List.replicate 190 97 ∧
    ¬ c₁.NamesFile decodePlain true sited.transfer.conn.docRoot sited.world := by
  obtain ⟨x, hx⟩ : ∃ x, x = bytes "GET /" ++ List.replicate 199 97 ++ bytes " HTTP/1.1\r\n\r\n" := ⟨_, rfl⟩
  obtain ⟨fs, hfs⟩ : ∃ fs, fs = HttpConn.only (bytes "/var/www/" ++ List.replicate 190 97) := ⟨_, rfl⟩
  have hserved : (sited.transfer.conn.receive x).readLoop.toOption.any (fun r => r.1 = .doRequest ∧
      r.2.namedPage decodePlain true sited.world = bytes "/" ++ List.replicate 199 97 ∧
      (r.2.doRequest fs decodePlain true sited.world).toOption.any (fun t => t.1.1 = .fileRequest ∧
        t.1.2.realFile.cstr filenameLen 0 = bytes "/var/www/" ++ List.replicate 190 97) = true) = true := by
    rw [hx, hfs]
    decide +kernel
  obtain ⟨⟨exit, c₁⟩, hread, hserved⟩ := exists_ok_of_any hserved
  obtain ⟨hexit, hnamed, hserved⟩ := of_decide_eq_true hserved
  obtain ⟨⟨⟨ret, c'⟩, w'⟩, hserve, hfile⟩ := exists_ok_of_any hserved
  obtain ⟨hret, hpath⟩ := of_decide_eq_true hfile
  rw [show exit = .doRequest from hexit] at hread
  rw [show ret = .fileRequest from hret] at hserve
  refine ⟨x, c₁, c', w', hx, hread, hnamed, hfs ▸ hserve, hpath, fun h => ?_⟩
  obtain ⟨r, hr, hrefused⟩ := h.refused (by rw [hnamed, List.length_append, List.length_replicate]; decide) fs
  rw [hserve] at hr
  cases hr
  exact hrefused rfl

end

end Session

end Http
end LinuxServer
