import LinuxServer.Http.DoRequest
import LinuxServer.Http.Head
import Mathlib.Data.List.TakeWhile

/-!
# `Http/LocalPath.lean` — which path `do_request` looks up

`m_real_file` is `doc_root` and behind it as much of a page as there is room for: the page of a digit
that is behind the last slash of `m_url`, the page that a login or a registration is answered with, or
`m_url` itself. `localPath` says it of words and `lookedUp` of a parsed request, and `doRequest_eq`
that it is what `do_request` makes of memory that `init()` has cleared. `doRequest_get` is the whole
of `do_request` for a request that is no form.
-/

set_option autoImplicit false

namespace LinuxServer
namespace Http

/-- The page that a digit stands for. -/
def digitPage (digit : Byte) : Option (List Byte) :=
  if digit = 48 then some (bytes "/register.html")
  else if digit = 49 then some (bytes "/log.html")
  else if digit = 53 then some (bytes "/picture.html")
  else if digit = 54 then some (bytes "/video.html")
  else if digit = 55 then some (bytes "/fans.html")
  else none

/-- The byte behind the last slash, and the NUL if that is the last byte. -/
def lastDigit (url : List Byte) : Byte :=
  match strrchr url 47 with
  | some i => (url.drop (i + 1)).headD 0
  | none => 0

/-- As much of a page as there is room for behind the root. -/
def under (root page : List Byte) : List Byte := cword (root ++ page.take (filenameLen - root.length - 1))

/-- The path that a URL stands for. The page of a digit is copied whole. -/
def localPath (root url : List Byte) : List Byte :=
  match digitPage (lastDigit url) with
  | some page => cword (root ++ page)
  | none => under root url

/-- The page that a form is answered with, of `digit` behind the last slash. -/
def HttpConn.formPage (decode : List Byte → Option (List Byte × List Byte)) (accepts : Bool)
    (c : HttpConn) (w : World) (digit : Byte) : Option (List Byte) :=
  if c.cgi = 1 ∧ (digit = 50 ∨ digit = 51) then
    match c.credentials with
    | .ok (name, passwd) =>
      some (if digit = 51 then (w.register decode accepts name passwd).1 else w.login name passwd)
    | .error _ => none
  else none

/-- **The path of a parsed request.** -/
def HttpConn.lookedUp (decode : List Byte → Option (List Byte × List Byte)) (accepts : Bool)
    (c : HttpConn) (w : World) : List Byte :=
  let url := (c.url.map c.str).getD []
  match c.formPage decode accepts w (lastDigit url) with
  | some page => under c.docRoot page
  | none => localPath c.docRoot url

/-- The pages that forms are answered with. -/
def formPages : List (List Byte) :=
  [bytes "/welcome.html", bytes "/logError.html", bytes "/log.html", bytes "/registerError.html"]

theorem strrchr_lt {w : List Byte} {b : Byte} {i : Nat} (h : strrchr w b = some i) : i < w.length := by
  unfold strrchr at h
  obtain ⟨j, hj, rfl⟩ := Option.map_eq_some_iff.mp h
  obtain ⟨hlt, -⟩ := List.findIdx?_eq_some_iff_getElem.mp hj
  rw [List.length_reverse] at hlt
  omega

@[simp] theorem length_strncpy (src : List Byte) (n : Nat) : (strncpy src n).length = n := by
  simp only [strncpy, List.length_append, List.length_take, List.length_replicate]
  omega

namespace HttpConn

/-! ## `m_real_file` -/

section
variable {c c' : HttpConn} {m : Mem} {root src : List Byte} {n : Nat}

/-- A copy behind the root, as a C string: no more than the copied text counts if that was padded, or
    if what is behind it is the end. -/
theorem cstr_copy (hroot : m.slice 0 root.length = root) (hfit : root.length + n ≤ filenameLen)
    (hend : src.length < n ∨ root.length + n = filenameLen ∨ m (root.length + n) = 0) :
    (m.blit root.length (strncpy src n)).cstr filenameLen 0 = cword (root ++ src.take n) := by
  have hbelow : (m.blit root.length (strncpy src n)).slice 0 root.length = root := by
    rw [Mem.slice_congr fun i _ hi => Mem.blit_lt m (strncpy src n) (by omega), hroot]
  have hcopy := Mem.slice_blit m root.length (strncpy src n)
  rw [length_strncpy] at hcopy
  have hall : (m.blit root.length (strncpy src n)).slice 0 (root.length + n) = root ++ strncpy src n := by
    rw [Mem.slice_append, hbelow, Nat.zero_add, hcopy]
  -- what may be read behind the copy
  have hsplit : (m.blit root.length (strncpy src n)).slice 0 filenameLen =
      root ++ src.take n ++ (List.replicate (n - src.length) 0 ++
        (m.blit root.length (strncpy src n)).slice (root.length + n) (filenameLen - (root.length + n))) := by
    rw [show filenameLen = root.length + n + (filenameLen - (root.length + n)) by omega, Mem.slice_append,
      hall, Nat.zero_add, strncpy]
    simp only [List.append_assoc]
    congr 4
    omega
  rw [Mem.cstr_eq_takeWhile, hsplit, cword]
  have hrest : ∀ r : List Byte, r.head? = none ∨ r.head? = some 0 →
      (root ++ src.take n ++ r).takeWhile (· ≠ 0) = (root ++ src.take n).takeWhile (· ≠ 0) := by
    intro r hr
    have hnil : r.takeWhile (· ≠ 0) = [] := by
      cases r with
      | nil => rfl
      | cons b r =>
        rcases hr with hr | hr
        · cases hr
        · cases hr; rfl
    rw [List.takeWhile_append, hnil, List.append_nil]
    split
    · rename_i hlen
      exact (List.takeWhile_prefix _).eq_of_length hlen |>.symm
    · rfl
  apply hrest
  by_cases hpad : src.length < n
  · obtain ⟨k, hk⟩ : ∃ k, n - src.length = k + 1 := ⟨n - src.length - 1, by omega⟩
    rw [hk]
    exact Or.inr rfl
  · rw [show n - src.length = 0 by omega, List.replicate_zero, List.nil_append]
    by_cases hfull : root.length + n = filenameLen
    · rw [hfull, Nat.sub_self]
      exact Or.inl rfl
    · obtain ⟨k, hk⟩ : ∃ k, filenameLen - (root.length + n) = k + 1 :=
        ⟨filenameLen - (root.length + n) - 1, by omega⟩
      have hnul : m (root.length + n) = 0 := by
        rcases hend with h | h | h
        · exact absurd h hpad
        · exact absurd h hfull
        · exact h
      rw [hk, Mem.slice, Mem.blit_ge _ _ (by rw [length_strncpy]), hnul]
      exact Or.inr rfl

/-- `m_real_file` holds the root, and no more than NULs behind the room there is. -/
structure Rooted (c : HttpConn) : Prop where
  root : c.realFile.slice 0 c.docRoot.length = c.docRoot
  last : ∀ i, filenameLen - 1 ≤ i → c.docRoot.length ≤ i → c.realFile i = 0
  short : c.docRoot.length < filenameLen

/-- What `do_request` begins with. -/
theorem copyRoot_rooted (hclear : ∀ i, c.realFile i = 0) (h : c.copyRoot = .ok c') :
    ∃ m, c' = { c with realFile := m } ∧ Rooted c' ∧ ∀ i, c.docRoot.length ≤ i → c'.realFile i = 0 := by
  unfold copyRoot at h
  split at h
  · rename_i hshort
    cases h
    have hbehind : ∀ i, c.docRoot.length ≤ i → (c.realFile.blit 0 (c.docRoot ++ [0])) i = 0 := by
      intro i hi
      by_cases heq : i = c.docRoot.length
      · rw [heq]
        have hat := Mem.blit_at c.realFile 0 (w := c.docRoot ++ [0]) (i := c.docRoot.length) (by simp)
        rw [Nat.zero_add] at hat
        rw [hat]
        simp
      · rw [Mem.blit_ge _ _ (by rw [List.length_append, List.length_singleton]; omega), hclear]
    refine ⟨_, rfl, ⟨?_, fun i _ hi => hbehind i hi, hshort⟩, hbehind⟩
    have hslice := Mem.slice_blit c.realFile 0 (c.docRoot ++ [0])
    rw [List.length_append, Mem.slice_append] at hslice
    exact (List.append_inj hslice (Mem.length_slice ..)).1
  · cases h

/-- A copy of all that there is room for. -/
theorem copyPath_all (hr : Rooted c) (h : c.copyPath src (filenameLen - c.docRoot.length - 1) = .ok c') :
    ∃ m, c' = { c with realFile := m } ∧ Rooted c' ∧
      c'.realFile.cstr filenameLen 0 = under c.docRoot src := by
  unfold copyPath at h
  simp only at h
  split at h
  · cases h
    have hshort := hr.short
    refine ⟨_, rfl, ⟨?_, fun i hi hi' => ?_, hshort⟩, ?_⟩
    · rw [← hr.root]
      simp only [Mem.length_slice]
      exact Mem.slice_congr fun i _ hi => Mem.blit_lt _ _ (by omega)
    · show (c.realFile.blit c.docRoot.length _) i = 0
      rw [Mem.blit_ge _ _ (by rw [length_strncpy]; omega)]
      exact hr.last i hi hi'
    · exact cstr_copy hr.root (by omega) (Or.inr (Or.inr (hr.last _ (by omega) (by omega))))
  · cases h

/-- A copy of a page whose digit was asked for, on a path that is the root. -/
theorem copyPath_page {page : List Byte} (hr : Rooted c)
    (hclear : ∀ i, c.docRoot.length ≤ i → c.realFile i = 0) (hn : page.length ≤ n)
    (h : c.copyPath page n = .ok c') :
    ∃ m, c' = { c with realFile := m } ∧ c'.realFile.cstr filenameLen 0 = cword (c.docRoot ++ page) := by
  unfold copyPath at h
  simp only at h
  split at h
  · rename_i hfit
    cases h
    refine ⟨_, rfl, ?_⟩
    rw [cstr_copy hr.root hfit (Or.inr (Or.inr (hclear _ (by omega)))), List.take_of_length_le hn]
  · cases h

/-! ## `do_request` -/

/-- The byte that selects the page. -/
theorem readBuf_lastDigit {url i : Nat} (hroom : url + (c.str url).length < readBufferSize)
    (hi : strrchr (c.str url) 47 = some i) : c.readBuf (url + i + 1) = lastDigit (c.str url) := by
  have hlt := strrchr_lt hi
  unfold lastDigit
  rw [hi]
  by_cases hlast : i + 1 < (c.str url).length
  · have hget := Mem.cstr_getElem (m := c.readBuf) (n := readBufferSize - url) (p := url) hlast
    rw [Nat.add_assoc, ← hget]
    simp only [List.headD_eq_head?_getD, List.head?_drop]
    rw [List.getElem?_eq_getElem hlast]
    rfl
  · have hnul := Mem.cstr_nul (m := c.readBuf) (n := readBufferSize - url) (p := url)
      (show (c.str url).length < _ by omega)
    rw [show url + i + 1 = url + (c.str url).length by omega]
    simp only [List.drop_eq_nil_of_le (show (c.str url).length ≤ i + 1 by omega)]
    exact hnul

/-- The second page selection, on a path that is the root. -/
theorem selectPage_path {url p : Nat} (hr : Rooted c)
    (hclear : ∀ i, c.docRoot.length ≤ i → c.realFile i = 0) (h : c.selectPage url p = .ok c') :
    ∃ m, c' = { c with realFile := m } ∧ c'.realFile.cstr filenameLen 0 =
      match digitPage (c.readBuf (p + 1)) with
      | some page => cword (c.docRoot ++ page)
      | none => under c.docRoot (c.str url) := by
  unfold selectPage at h
  unfold digitPage
  simp only at h
  repeat' split at h
  case isFalse =>
    rename_i h₀ h₁ h₅ h₆ h₇
    simp only [if_neg h₀, if_neg h₁, if_neg h₅, if_neg h₆, if_neg h₇]
    obtain ⟨m, hm, -, hpath⟩ := copyPath_all hr h
    exact ⟨m, hm, hpath⟩
  all_goals
    rename_i hdigit
    simp only [*, if_true]
    exact copyPath_page hr hclear (by decide) h

theorem selectPage_of_none {url p : Nat} (h : digitPage (c.readBuf (p + 1)) = none) :
    c.selectPage url p = c.copyPath (c.str url) (filenameLen - c.docRoot.length - 1) := by
  unfold digitPage at h
  unfold selectPage
  repeat' split at h
  all_goals try cases h
  simp only [*, if_false]

theorem selectPage_ok (url p : Nat) (hroot : c.docRoot.length + 15 ≤ filenameLen) :
    ∃ c', c.selectPage url p = .ok c' := by
  have hcopy : ∀ (src : List Byte) {n : Nat}, c.docRoot.length + n ≤ filenameLen →
      ∃ c', c.copyPath src n = .ok c' := fun src n hn => ⟨_, by rw [copyPath, if_pos hn]⟩
  have hpages : (bytes "/register.html").length = 14 ∧ (bytes "/log.html").length = 9 ∧
      (bytes "/picture.html").length = 13 ∧ (bytes "/video.html").length = 11 ∧
      (bytes "/fans.html").length = 10 := by decide
  obtain ⟨h₀, h₁, h₅, h₆, h₇⟩ := hpages
  simp only [selectPage, h₀, h₁, h₅, h₆, h₇]
  repeat' split
  all_goals exact hcopy _ (by omega)

/-- A path has a last slash. -/
theorem strrchr_of_head {w : List Byte} (h : w.head? = some 47) : ∃ i, strrchr w 47 = some i := by
  have hmem : (47 : Byte) ∈ w.reverse := List.mem_reverse.mpr (List.mem_of_mem_head? h)
  cases hf : w.reverse.findIdx? (· = 47) with
  | none =>
    have := List.findIdx?_eq_none_iff.mp hf 47 hmem
    simp at this
  | some j => exact ⟨_, by rw [strrchr, hf]; rfl⟩

variable {fs : FileSystem} {decode : List Byte → Option (List Byte × List Byte)} {accepts : Bool}
  {w w' : World} {code : HttpCode}

/-- **`do_request` on a request that is no form** looks up the file of its path, and has room for that
    if the root is short enough. -/
theorem doRequest_get (fs : FileSystem) (decode : List Byte → Option (List Byte × List Byte))
    (accepts : Bool) (w : World) {u : Nat} {url : List Byte} (hcgi : c.cgi = 0) (hurl : c.url = some u)
    (hstr : c.str u = url) (hroom : u + url.length < readBufferSize) (hslash : url.head? = some 47)
    (hclear : ∀ i, c.realFile i = 0) (hroot : c.docRoot.length + 15 ≤ filenameLen) :
    ∃ m : Mem, c.doRequest fs decode accepts w = .ok (({ c with realFile := m } : HttpConn).openFile fs, w) ∧
      m.cstr filenameLen 0 = localPath c.docRoot url := by
  subst hstr
  obtain ⟨i, hi⟩ := strrchr_of_head hslash
  have hcopy : c.copyRoot = .ok { c with realFile := c.realFile.blit 0 (c.docRoot ++ [0]) } := by
    rw [copyRoot, if_pos (by omega)]
  obtain ⟨m, hm, hrooted, hbehind⟩ := copyRoot_rooted hclear hcopy
  rw [hm] at hcopy hrooted hbehind
  have hlast : ({ c with realFile := m } : HttpConn).lastSlash u = .ok (u + i) := by
    have hi' : strrchr (({ c with realFile := m } : HttpConn).str u) 47 = some i := hi
    rw [lastSlash, hi']
  have haccount : ({ c with realFile := m } : HttpConn).answerForm decode accepts u (u + i) w =
      .ok ({ c with realFile := m }, w) := by
    rw [answerForm, if_neg]
    rintro ⟨hone, -⟩
    rw [show ({ c with realFile := m } : HttpConn).cgi = c.cgi from rfl, hcgi] at hone
    cases hone
  obtain ⟨c', hselect⟩ := selectPage_ok (c := { c with realFile := m }) u (u + i) hroot
  obtain ⟨m', hm', hpath⟩ := selectPage_path hrooted hbehind hselect
  rw [hm'] at hselect hpath
  refine ⟨m', ?_, ?_⟩
  · unfold doRequest
    split
    · rename_i hnone
      rw [hurl] at hnone
      cases hnone
    · rename_i url hsome
      rw [hurl] at hsome
      cases hsome
      simp only [hcopy, hlast, haccount, hselect, bind, Except.bind]
      rfl
  · rw [localPath, ← readBuf_lastDigit hroom hi]
    exact hpath

/-- A page read where it was copied to. -/
theorem setUrl_str {url : Nat} {page : List Byte} (hpage : 0 ∉ page) (h : c.setUrl url page = .ok c') :
    c' = { c with readBuf := c.readBuf.blit url (page ++ [0]) } ∧ c'.str url = page := by
  rw [setUrl] at h
  split at h
  · rename_i hroom
    cases h
    refine ⟨rfl, ?_⟩
    have hnul : page.takeWhile (· ≠ 0) = page := takeWhile_ne_iff.mpr hpage
    have hslice := Mem.slice_blit c.readBuf url (page ++ [0])
    rw [List.length_append, Mem.slice_append] at hslice
    have hsplit := List.append_inj hslice (Mem.length_slice ..)
    have hlast := List.cons.inj hsplit.2
    exact (Mem.cstr_of_slice hsplit.1 hlast.1 (by omega)).trans hnul
  · cases h

theorem login_page (name passwd : List Byte) : w.login name passwd ∈ formPages := by
  unfold World.login
  split <;> decide

theorem register_page (name passwd : List Byte) : (w.register decode accepts name passwd).1 ∈ formPages := by
  simp only [World.register, World.enter]
  split
  · simp only
    split <;> decide
  · simp only
    decide

/-- No byte of the pages for forms is a digit that selects a page, and none is a NUL. -/
theorem formPages_plain : ∀ page ∈ formPages, 0 ∉ page ∧ ∀ b ∈ page ++ [0], digitPage b = none := by
  decide +kernel

/-- No page is selected by the digit of a form. -/
theorem digitPage_form {b : Byte} (h : b = 50 ∨ b = 51) : digitPage b = none := by
  rcases h with rfl | rfl <;> decide

/-- Nor by any byte that is there when the answer to a form has been copied. -/
theorem setUrl_digitPage {url i : Nat} {page : List Byte} (hpage : page ∈ formPages)
    (h : c.setUrl url page = .ok c') (hi : digitPage (c.readBuf i) = none) :
    digitPage (c'.readBuf i) = none := by
  obtain ⟨hnul, hdigits⟩ := formPages_plain page hpage
  obtain ⟨rfl, -⟩ := setUrl_str hnul h
  show digitPage ((c.readBuf.blit url (page ++ [0])) i) = none
  by_cases hin : url ≤ i ∧ i < url + (page ++ [0]).length
  · obtain ⟨k, rfl⟩ : ∃ k, i = url + k := ⟨i - url, by omega⟩
    rw [Mem.blit_at _ _ (by omega)]
    exact hdigits _ (List.getElem_mem _)
  · by_cases hlt : i < url
    · rw [Mem.blit_lt _ _ hlt]
      exact hi
    · rw [Mem.blit_ge _ _ (by omega)]
      exact hi

/-- The fields are copied out of `m_read_buf` alone. -/
theorem copyField_realFile (m : Mem) (stop : Byte) : ∀ (n p : Nat),
    ({ c with realFile := m } : HttpConn).copyField stop n p = c.copyField stop n p
  | 0, _ => rfl
  | n + 1, p => by
    rw [copyField, copyField, copyField_realFile m stop n]

theorem credentials_realFile (m : Mem) :
    ({ c with realFile := m } : HttpConn).credentials = c.credentials := by
  unfold credentials
  simp only [copyField_realFile]

theorem formPage_realFile (m : Mem) (digit : Byte) :
    ({ c with realFile := m } : HttpConn).formPage decode accepts w digit =
      c.formPage decode accepts w digit := by
  unfold formPage
  simp only [credentials_realFile]

theorem formPage_mem {digit : Byte} {page : List Byte}
    (h : c.formPage decode accepts w digit = some page) : page ∈ formPages := by
  unfold formPage at h
  split at h
  · split at h
    · cases h
      split
      · exact register_page _ _
      · exact login_page _ _
    · cases h
  · cases h

/-- What `do_request` makes of a form: the path of its URL is copied, and then the page into `m_url`. -/
theorem answerForm_page {url p : Nat} (hform : c.cgi = 1 ∧ (c.readBuf (p + 1) = 50 ∨ c.readBuf (p + 1) = 51))
    (h : c.answerForm decode accepts url p w = .ok (c', w')) :
    ∃ (m : Mem) (page : List Byte),
      c.copyPath (bytes "/" ++ c.str (url + 2)) (filenameLen - c.docRoot.length - 1) =
        .ok { c with realFile := m } ∧
      c.formPage decode accepts w (c.readBuf (p + 1)) = some page ∧
      ({ c with realFile := m } : HttpConn).setUrl url page = .ok c' := by
  rw [answerForm, if_pos hform] at h
  simp only at h
  split at h
  · obtain ⟨c₁, hc₁, h⟩ := bind_eq_ok.mp h
    obtain ⟨m, rfl⟩ : ∃ m : Mem, c₁ = { c with realFile := m } := by
      unfold copyPath at hc₁
      simp only at hc₁
      split at hc₁
      · cases hc₁
        exact ⟨_, rfl⟩
      · cases hc₁
    obtain ⟨⟨name, passwd⟩, hcred, h⟩ := bind_eq_ok.mp h
    rw [credentials_realFile] at hcred
    rw [formPage, if_pos hform, hcred]
    simp only at h ⊢
    -- both branches leave the page in `m_url`
    split at h
    · rename_i hdigit
      split at h
      · obtain ⟨c₂, hc₂, h⟩ := bind_eq_ok.mp h
        cases h
        exact ⟨m, _, hc₁, by rw [if_pos hdigit], hc₂⟩
      · cases h
    · rename_i hdigit
      obtain ⟨c₂, hc₂, h⟩ := bind_eq_ok.mp h
      cases h
      exact ⟨m, _, hc₁, by rw [if_neg hdigit], hc₂⟩
  · cases h

/-- What a form does to `m_url`, and to the path that is being made. -/
theorem answerForm_cases {url p : Nat} (hr : Rooted c) (h : c.answerForm decode accepts url p w = .ok (c', w')) :
    (c' = c ∧ w' = w ∧ c.formPage decode accepts w (c.readBuf (p + 1)) = none) ∨
    ∃ page, c.formPage decode accepts w (c.readBuf (p + 1)) = some page ∧ c'.docRoot = c.docRoot ∧
      Rooted c' ∧ c'.str url = page ∧ digitPage (c'.readBuf (p + 1)) = none := by
  by_cases hform : c.cgi = 1 ∧ (c.readBuf (p + 1) = 50 ∨ c.readBuf (p + 1) = 51)
  · apply Or.inr
    obtain ⟨m, page, hcopy, hpage, hset⟩ := answerForm_page hform h
    obtain ⟨m', -, hr₁, -⟩ := copyPath_all hr hcopy
    have hmem := formPage_mem hpage
    have hdigit := setUrl_digitPage (i := p + 1) hmem hset (digitPage_form hform.2)
    obtain ⟨rfl, hstr⟩ := setUrl_str (formPages_plain page hmem).1 hset
    exact ⟨page, hpage, rfl, ⟨hr₁.root, hr₁.last, hr₁.short⟩, hstr, hdigit⟩
  · rw [answerForm, if_neg hform] at h
    cases h
    exact Or.inl ⟨rfl, rfl, by rw [formPage, if_neg hform]⟩

/-- `do_request` dereferences `m_url`. -/
theorem doRequest_url {r : (HttpCode × HttpConn) × World} (h : c.doRequest fs decode accepts w = .ok r) :
    ∃ u, c.url = some u := by
  unfold doRequest at h
  split at h
  · cases h
  · rename_i u hu
    exact ⟨u, hu⟩

/-- **`do_request`** looks up the path of the request, and opens what is there. -/
theorem doRequest_eq {u : Nat} (hurl : c.url = some u) (hroom : u + (c.str u).length < readBufferSize)
    (hclear : ∀ i, c.realFile i = 0) (h : c.doRequest fs decode accepts w = .ok ((code, c'), w')) :
    ∃ c₃ : HttpConn, c₃.realFile.cstr filenameLen 0 = c.lookedUp decode accepts w ∧
      c₃.openFile fs = (code, c') := by
  unfold doRequest at h
  split at h
  · cases h
  · rename_i u' hu'
    obtain rfl : u = u' := Option.some.inj (hurl.symm.trans hu')
    obtain ⟨c₁, hc₁, h⟩ := bind_eq_ok.mp h
    obtain ⟨m, rfl, hr, hbehind⟩ := copyRoot_rooted hclear hc₁
    obtain ⟨p, hp, h⟩ := bind_eq_ok.mp h
    obtain ⟨⟨c₂, w₂⟩, hc₂, h⟩ := bind_eq_ok.mp h
    obtain ⟨c₃, hc₃, h⟩ := bind_eq_ok.mp h
    simp only [pure, Except.pure, Except.ok.injEq, Prod.mk.injEq] at h
    refine ⟨c₃, ?_, h.1⟩
    have hlast : c.readBuf (p + 1) = lastDigit (c.str u) := by
      unfold lastSlash at hp
      split at hp
      · rename_i i hi
        cases hp
        have hi' : strrchr (c.str u) 47 = some i := hi
        exact readBuf_lastDigit hroom hi'
      · cases hp
    have hcases := answerForm_cases hr hc₂
    rw [formPage_realFile, show ({ c with realFile := m } : HttpConn).readBuf (p + 1) = _ from hlast] at hcases
    rw [lookedUp, hurl, Option.map_some, Option.getD_some]
    rcases hcases with ⟨rfl, -, hnone⟩ | ⟨page, hform, hroot, hr₂, hpage, hdigit⟩
    · obtain ⟨m', rfl, hpath⟩ := selectPage_path hr hbehind hc₃
      simp only [hnone]
      rw [localPath, ← hlast]
      exact hpath
    · rw [selectPage_of_none hdigit, hpage] at hc₃
      obtain ⟨m', rfl, -, hpath⟩ := copyPath_all hr₂ hc₃
      simp only [hform]
      exact hpath.trans (by rw [hroot])

theorem openFile_realFile (fs : FileSystem) (c : HttpConn) : (c.openFile fs).2.realFile = c.realFile := by
  rw [openFile]
  simp only
  repeat' split
  all_goals rfl

end

end HttpConn

end Http
end LinuxServer
