import LinuxServer.Http.Process
import LinuxServer.Lib.Path

/-!
# `Http/Confined.lean` — which paths stay below `doc_root`

The path that `do_request` looks up is `doc_root` and something behind it that begins with a slash:
a page of the server's own, or `m_url` as far as there is room. Nothing on the way there looks for
`..`, in the parser or in `do_request`, so where the path leads is a matter of the walk that `m_url` is
(`Lib/Path.lean`). `confined_iff` says which walks lead below `doc_root`, for every request that
reaches `do_request` after any reads, and `escaped` is one that does not.
-/

set_option autoImplicit false

namespace LinuxServer
namespace Http

open LinuxServer.Path (Below Returns resolve moves normal)

/-- A page of the server's own answers the request, and not what `m_url` names. -/
def HttpConn.OwnPage (decode : List Byte → Option (List Byte × List Byte)) (accepts : Bool)
    (c : HttpConn) (w : World) : Prop :=
  let digit := lastDigit ((c.url.map c.str).getD [])
  c.formPage decode accepts w digit ≠ none ∨ digitPage digit ≠ none

/-- As much of `m_url` as there is room for behind `doc_root`. -/
def HttpConn.copiedUrl (c : HttpConn) : List Byte :=
  ((c.url.map c.str).getD []).take (filenameLen - c.docRoot.length - 1)

/-! ## The pages -/

/-- A page that stays where it is, however it is cut. -/
def Staying (page : List Byte) : Prop :=
  0 ∉ page ∧ (page = [] ∨ page.head? = some 47) ∧ (normal (moves page)).1 = 0

instance (page : List Byte) : Decidable (Staying page) := inferInstanceAs (Decidable (_ ∧ _ ∧ _))

theorem staying_formPage {page : List Byte} (h : page ∈ formPages) (n : Nat) : Staying (page.take n) := by
  have hall : ∀ page ∈ formPages, ∀ n ∈ List.range (page.length + 1), Staying (page.take n) := by
    decide +kernel
  by_cases hn : n ≤ page.length
  · exact hall page h n (List.mem_range.mpr (Nat.lt_succ_of_le hn))
  · rw [List.take_of_length_le (by omega)]
    have hwhole := hall page h page.length (List.mem_range.mpr (Nat.lt_succ_self _))
    rwa [List.take_length] at hwhole

theorem staying_digitPage {digit : Byte} {page : List Byte} (h : digitPage digit = some page) :
    Staying page := by
  unfold digitPage at h
  repeat' split at h
  all_goals cases h
  all_goals decide +kernel

/-- What has no NUL is read as it is. -/
theorem cword_append {root page : List Byte} (hroot : 0 ∉ root) (hpage : 0 ∉ page) :
    cword (root ++ page) = root ++ page := by
  refine takeWhile_ne_iff.mpr fun hzero => ?_
  rcases List.mem_append.mp hzero with hmem | hmem
  · exact hroot hmem
  · exact hpage hmem

theorem below_staying {root page : List Byte} (hroot : 0 ∉ root) (h : Staying page) :
    Below root (cword (root ++ page)) := by
  obtain ⟨hnul, hslash, hnormal⟩ := h
  rw [cword_append hroot hnul, Path.below_append_iff root hslash]
  exact Path.returns_of_normal hnormal

namespace HttpConn

section
variable {fs : FileSystem} {f c c₁ c' : HttpConn} {ret : HttpCode}
  {decode : List Byte → Option (List Byte × List Byte)} {accepts : Bool} {w w' : World}

/-- What `m_url` holds is empty or begins with a slash. -/
theorem Slashed.str {u : Nat} (h : c.Slashed) (hu : c.url = some u) :
    c.str u = [] ∨ (c.str u).head? = some 47 := by
  unfold HttpConn.str
  cases hn : readBufferSize - u with
  | zero => exact Or.inl rfl
  | succ n =>
    rw [Mem.cstr]
    rcases h u hu with he | he
    · rw [if_neg (by rw [he]; decide), he]
      exact Or.inr rfl
    · rw [if_pos he]
      exact Or.inl rfl

/-- The path of a request, below the root or not. -/
theorem below_lookedUp {u : Nat} (hroot : 0 ∉ c.docRoot) (hu : c.url = some u) (hslashed : c.Slashed) :
    Below c.docRoot (c.lookedUp decode accepts w) ↔
      c.OwnPage decode accepts w ∨ Returns (resolve c.docRoot) (moves c.copiedUrl) := by
  unfold lookedUp OwnPage copiedUrl
  simp only [hu, Option.map_some, Option.getD_some]
  cases hform : c.formPage decode accepts w (lastDigit (c.str u)) with
  | some page =>
    refine iff_of_true ?_ (Or.inl (Or.inl nofun))
    exact below_staying hroot (staying_formPage (formPage_mem hform) _)
  | none =>
    simp only [ne_eq, not_true_eq_false, false_or]
    unfold localPath
    cases hdigit : digitPage (lastDigit (c.str u)) with
    | some page =>
      refine iff_of_true ?_ (Or.inl nofun)
      exact below_staying hroot (staying_digitPage hdigit)
    | none =>
      simp only [not_true_eq_false, false_or]
      unfold under
      generalize filenameLen - c.docRoot.length - 1 = n
      have hnul : 0 ∉ (c.str u).take n := fun hmem => Mem.zero_notMem_cstr (List.mem_of_mem_take hmem)
      rw [cword_append hroot hnul]
      refine Path.below_append_iff _ ?_
      cases n with
      | zero => exact Or.inl (List.take_zero)
      | succ n =>
        rcases hslashed.str hu with he | he
        · rw [he]
          exact Or.inl rfl
        · rw [List.head?_take]
          exact Or.inr (by simpa using he)

/-- **Confinement, and when it holds.** After any reads from `init()` on, of which the last reaches
    `do_request`: the path that is looked up is `doc_root` or lies below it if and only if a page of the
    server's own was selected, or the walk that `m_url` is comes back down through every name of
    `doc_root` that it has gone up past. -/
theorem confined_iff {h : List (List Byte)} {x : List Byte} (hstart : reading.start f)
    (hr : reading.Run f h c) (hroom : c.readIdx + x.length ≤ readBufferSize) (hroot : 0 ∉ f.docRoot)
    (hread : (c.receive x).readLoop = .ok (.doRequest, c₁))
    (hserve : c₁.doRequest fs decode accepts w = .ok ((ret, c'), w')) :
    Below f.docRoot (c'.realFile.cstr filenameLen 0) ↔
      c₁.OwnPage decode accepts w ∨ Returns (resolve f.docRoot) (moves c₁.copiedUrl) := by
  have hverdict := reading_verdict hstart hr hroom hread nofun
  obtain ⟨u, hu⟩ := doRequest_url hserve
  obtain ⟨c₃, hpath, hopen⟩ := doRequest_eq hu (hverdict.url u hu) hverdict.realFile hserve
  have hfile := openFile_realFile fs c₃
  rw [hopen] at hfile
  rw [← hverdict.docRoot] at hroot
  rw [hfile, hpath, ← hverdict.docRoot]
  exact below_lookedUp hroot hu (hverdict.slashed rfl)

/-- A connection of a server whose files are in `/var/www`. -/
def sited : HttpConn := { (default : HttpConn) with docRoot := bytes "/var/www" }

/-- A disk with one file, at `path`. -/
def only (path : List Byte) : FileSystem where
  stat p := if p = path then some ⟨2, true, false⟩ else none
  mmap _ := 0

/-- A file is found for what has been read, by a name for which the test `ok` holds. -/
def sends (c : HttpConn) (fs : FileSystem) (w : World) (ok : List Byte → Bool) : Bool :=
  c.readLoop.toOption.any fun r => r.1 = .doRequest ∧
    (r.2.doRequest fs decodePlain true w).toOption.any (fun t => t.1.1 = .fileRequest ∧
      ok (t.1.2.realFile.cstr filenameLen 0) = true) = true

theorem of_sends {c : HttpConn} {fs : FileSystem} {w : World} {ok : List Byte → Bool}
    (h : c.sends fs w ok = true) : ∃ c₁ c' w', c.readLoop = .ok (.doRequest, c₁) ∧
      c₁.doRequest fs decodePlain true w = .ok ((.fileRequest, c'), w') ∧
      ok (c'.realFile.cstr filenameLen 0) = true := by
  unfold sends at h
  obtain ⟨⟨exit, c₁⟩, hread, h⟩ := exists_ok_of_any h
  obtain ⟨hexit, h⟩ := of_decide_eq_true h
  obtain ⟨⟨⟨ret, c'⟩, w'⟩, hserve, h⟩ := exists_ok_of_any h
  obtain ⟨hret, hok⟩ := of_decide_eq_true h
  rw [show exit = .doRequest from hexit] at hread
  rw [show ret = .fileRequest from hret] at hserve
  exact ⟨c₁, c', w', hread, hserve, hok⟩

/-- A request that goes up and comes back down by the name it has left. -/
theorem confined_iff_back : ∃ c₁ c' w',
    (sited.init.receive (bytes "GET /../www/a HTTP/1.1\r\n\r\n")).readLoop = .ok (.doRequest, c₁) ∧
    c₁.doRequest (only (bytes "/var/www/../www/a")) decodePlain true ⟨fun _ => none, []⟩ =
      .ok ((.fileRequest, c'), w') ∧
    (Below sited.init.docRoot (c'.realFile.cstr filenameLen 0) ↔
      c₁.OwnPage decodePlain true ⟨fun _ => none, []⟩ ∨
        Returns (resolve sited.init.docRoot) (moves c₁.copiedUrl)) := by
  have hfound : (sited.init.receive (bytes "GET /../www/a HTTP/1.1\r\n\r\n")).sends
      (only (bytes "/var/www/../www/a")) ⟨fun _ => none, []⟩ (fun _ => true) = true := by decide +kernel
  obtain ⟨c₁, c', w', hread, hserve, -⟩ := of_sends hfound
  exact ⟨c₁, c', w', hread, hserve,
    confined_iff ⟨sited, rfl⟩ (.nil _) (by decide) (by decide) hread hserve⟩

/-- A request that goes up and does not come back: the file is found, and sent. -/
theorem escaped : ∃ (fs : FileSystem) (c c₁ c' : HttpConn) (x : List Byte) (w w' : World),
    x = bytes "GET /../../etc/passwd HTTP/1.1\r\n\r\n" ∧ c.docRoot = bytes "/var/www" ∧
    reading.start c ∧ reading.Run c [] c ∧ c.readIdx + x.length ≤ readBufferSize ∧
    (c.receive x).readLoop = .ok (.doRequest, c₁) ∧
    c₁.doRequest fs decodePlain true w = .ok ((.fileRequest, c'), w') ∧
    resolve (c'.realFile.cstr filenameLen 0) = [bytes "passwd", bytes "etc"] ∧
    ¬ Below c.docRoot (c'.realFile.cstr filenameLen 0) := by
  have hfound : (sited.init.receive (bytes "GET /../../etc/passwd HTTP/1.1\r\n\r\n")).sends
      (only (bytes "/var/www/../../etc/passwd")) ⟨fun _ => none, []⟩ (fun path =>
        resolve path = [bytes "passwd", bytes "etc"] ∧ ¬ Below (bytes "/var/www") path) = true := by
    decide +kernel
  obtain ⟨c₁, c', w', hread, hserve, hpath⟩ := of_sends hfound
  obtain ⟨hresolved, houtside⟩ := of_decide_eq_true hpath
  exact ⟨_, sited.init, c₁, c', _, _, w', rfl, rfl, ⟨sited, rfl⟩, .nil _, by decide, hread, hserve,
    hresolved, houtside⟩

end

end HttpConn

end Http
end LinuxServer
