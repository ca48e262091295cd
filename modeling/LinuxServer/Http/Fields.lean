import LinuxServer.Http.Reading
import LinuxServer.Http.Terminator
import LinuxServer.Http.Users

/-!
# `Http/Fields.lean` — the arrays of a form

`do_request` reads `user` and `password` out of `m_string` by two loops. The first stops at `&` and the second
at NUL, ten bytes further on, and neither looks at what the other has stopped at, or at the end of the array
that it fills. What is read is then put together in allocations of 200 bytes.

`credentialsWithin` is `credentials` with every read tested against the NUL of `m_string`, and `Contained` says
that neither it nor `do_request` comes to a fault, and that a well-formed body is read as what it is. The last
follows from the rest (`credentials_eq`). `FormFits` is the condition, on the lengths of what was received.
-/

set_option autoImplicit false

namespace LinuxServer
namespace Http

/-- The name in a body: what is between its fifth byte and the next `&`. -/
def nameOf (body : List Byte) : List Byte := (body.drop 5).takeWhile (· ≠ 38)

/-- The password: what is ten bytes behind the name. -/
def passwdOf (body : List Byte) : List Byte := body.drop (15 + (nameOf body).length)

namespace HttpConn

/-! ## The fields, with every read of `m_string` tested -/

/-- `copyField`, out of a string that ends at `e`. -/
def copyFieldWithin (c : HttpConn) (e : Nat) (stop : Byte) : (n p : Nat) → Except Fault (List Byte)
  | 0, _ => .error .outOfBounds
  | n + 1, p =>
    if readBufferSize ≤ p ∨ e < p then .error .outOfBounds
    else if c.readBuf p = stop then .ok []
    else do
      let w ← copyFieldWithin c e stop n (p + 1)
      return c.readBuf p :: w

/-- `credentials`, with `m_string` read up to its NUL. -/
def credentialsWithin (c : HttpConn) : Except Fault (List Byte × List Byte) :=
  match c.string with
  | none => .error .nullPointer
  | some s => do
    let e := s + (c.str s).length
    let name ← c.copyFieldWithin e 38 100 (s + 5)
    let passwd ← c.copyFieldWithin e 0 100 (s + 5 + name.length + 10)
    return (name.takeWhile (· ≠ 0), passwd)

/-- The string at `m_string`. -/
def body (c : HttpConn) : List Byte := (c.string.map c.str).getD []

/-- **`do_request` stays inside its buffers**, and what it reads out of a body is what is in it. -/
structure Contained (fs : FileSystem) (decode : List Byte → Option (List Byte × List Byte)) (accepts : Bool)
    (w : World) (c : HttpConn) : Prop where
  writes : ∃ r, c.doRequest fs decode accepts w = .ok r
  reads : ∃ r, c.credentialsWithin = .ok r
  fields : ∀ name passwd, c.body = formBody name passwd → 38 ∉ name → c.credentials = .ok (name, passwd)

/-- What fits: the path of the server, the URL and the two fields, each in its array, both of them in the
    `INSERT` of a registration, and the ten bytes that are skipped, in the body. `p` is the last slash. -/
structure FormFits (c : HttpConn) (u p : Nat) : Prop where
  root : c.docRoot.length < filenameLen
  url : (c.str u).length ≤ 200
  ends : ∀ s ∈ c.string, s + (c.str s).length < readBufferSize
  name : (nameOf c.body).length < 100
  skip : 15 + (nameOf c.body).length ≤ c.body.length
  passwd : (passwdOf c.body).length < 100
  insert : c.readBuf (p + 1) = 51 → (nameOf c.body).length + (passwdOf c.body).length ≤ 152

section
variable {c c' : HttpConn} {e n p s : Nat} {stop : Byte} {v : List Byte}

/-- What the tests allow is what is read without them. -/
theorem copyField_of_within : ∀ {n p : Nat} {v : List Byte}, c.copyFieldWithin e stop n p = .ok v →
    c.copyField stop n p = .ok v
  | 0, p, v, h => by cases h
  | n + 1, p, v, h => by
    rw [copyFieldWithin] at h
    rw [copyField]
    split at h
    · cases h
    · rename_i hin
      rw [if_neg (by omega)]
      split at h
      · rename_i hstop
        rw [if_pos hstop]
        exact h
      · rename_i hstop
        rw [if_neg hstop]
        obtain ⟨w, hw, h⟩ := bind_eq_ok.mp h
        exact bind_eq_ok.mpr ⟨w, copyField_of_within hw, h⟩

theorem credentials_of_within {r : List Byte × List Byte} (h : c.credentialsWithin = .ok r) :
    c.credentials = .ok r := by
  unfold credentialsWithin at h
  unfold credentials
  cases hs : c.string with
  | none =>
    rw [hs] at h
    cases h
  | some s =>
    rw [hs] at h
    obtain ⟨name, hname, h⟩ := bind_eq_ok.mp h
    obtain ⟨passwd, hpasswd, h⟩ := bind_eq_ok.mp h
    refine bind_eq_ok.mpr ⟨name, copyField_of_within hname, ?_⟩
    exact bind_eq_ok.mpr ⟨passwd, copyField_of_within hpasswd, h⟩

/-- A copy stops in the buffer. -/
theorem copyFieldWithin_stop : ∀ {n p : Nat} {v : List Byte}, c.copyFieldWithin e stop n p = .ok v →
    p + v.length ≤ e ∧ p + v.length < readBufferSize ∧ c.readBuf (p + v.length) = stop
  | 0, p, v, h => by cases h
  | n + 1, p, v, h => by
    rw [copyFieldWithin] at h
    split at h
    · cases h
    · split at h
      · rename_i hin hstop
        cases h
        exact ⟨by simp only [List.length_nil]; omega, by simp only [List.length_nil]; omega, hstop⟩
      · obtain ⟨w, hw, h⟩ := bind_eq_ok.mp h
        cases h
        have ih := copyFieldWithin_stop hw
        rw [show p + 1 + w.length = p + (w.length + 1) by omega] at ih
        exact ih

theorem copyFieldWithin_behind (hp : e < p) (n : Nat) : c.copyFieldWithin e stop n p = .error .outOfBounds := by
  cases n with
  | zero => rfl
  | succ n => rw [copyFieldWithin, if_pos (Or.inr hp)]

/-- **A copy**, out of a string that ends in the buffer: the bytes up to the first `stop`, its NUL counted as
    one, if there are fewer than `n`. -/
theorem copyFieldWithin_eq_ok (he : e < readBufferSize) (n : Nat) : ∀ {p : Nat} {v : List Byte},
    p + (c.str p).length = e → (c.copyFieldWithin e stop n p = .ok v ↔
      stop ∈ c.str p ++ [0] ∧ v = (c.str p ++ [0]).takeWhile (· ≠ stop) ∧ v.length < n) := by
  induction n with
  | zero =>
    intro p v _
    exact iff_of_false (fun h => by cases h) (fun h => absurd h.2.2 (Nat.not_lt_zero _))
  | succ n ih =>
    intro p v hend
    rw [copyFieldWithin, if_neg (by omega)]
    have hstep := str_step (c := c) (p := p) (by omega)
    by_cases hnul : c.readBuf p = 0
    · -- at the NUL
      rw [if_pos hnul] at hstep
      rw [hstep, List.length_nil] at hend
      rw [hstep, hnul, List.nil_append]
      by_cases hstop : (0 : Byte) = stop
      · subst hstop
        rw [if_pos rfl]
        simp [eq_comm]
        intro hv
        simp [hv]
      · rw [if_neg hstop, copyFieldWithin_behind (by omega)]
        refine iff_of_false (fun h => by cases h) ?_
        rintro ⟨hmem, -⟩
        exact hstop (List.mem_singleton.mp hmem).symm
    · rw [if_neg hnul] at hstep
      rw [hstep, List.length_cons] at hend
      rw [hstep, List.cons_append]
      by_cases hstop : c.readBuf p = stop
      · rw [if_pos hstop]
        simp [hstop, eq_comm]
        intro hv
        simp [hv]
      · rw [if_neg hstop, bind_eq_ok, List.mem_cons, or_iff_right (fun h => hstop h.symm),
          List.takeWhile_cons_of_pos (by simpa using hstop)]
        constructor
        · rintro ⟨w, hw, hv⟩
          obtain ⟨hmem, hw, hlt⟩ := (ih (by omega)).mp hw
          cases hv
          exact ⟨hmem, by rw [hw], Nat.succ_lt_succ hlt⟩
        · rintro ⟨hmem, rfl, hlt⟩
          exact ⟨_, (ih (by omega)).mpr ⟨hmem, rfl, Nat.lt_of_succ_lt_succ hlt⟩, rfl⟩

/-- The name: there is a `&`, and it is what is before that. -/
theorem copyName_eq_ok (he : e < readBufferSize) (hend : p + (c.str p).length = e) :
    c.copyFieldWithin e 38 n p = .ok v ↔
      38 ∈ c.str p ∧ v = (c.str p).takeWhile (· ≠ 38) ∧ v.length < n := by
  rw [copyFieldWithin_eq_ok he n hend]
  have hmem : (38 : Byte) ∈ c.str p ++ [0] ↔ 38 ∈ c.str p := by simp
  rw [hmem]
  refine and_congr_right fun hamp => ?_
  have hshort : ((c.str p).takeWhile (· ≠ 38)).length ≠ (c.str p).length := by
    intro hall
    have heq := (List.takeWhile_prefix _).eq_of_length hall
    exact takeWhile_ne_iff.mp heq hamp
  rw [List.takeWhile_append, if_neg hshort]

/-- The password: all that there is. -/
theorem copyPasswd_eq_ok (he : e < readBufferSize) (hend : p + (c.str p).length = e) :
    c.copyFieldWithin e 0 n p = .ok v ↔ v = c.str p ∧ v.length < n := by
  have hword : (c.str p ++ [0]).takeWhile (· ≠ 0) = c.str p := by
    have hall : ∀ b ∈ c.str p, decide (b ≠ 0) = true := fun b hb => decide_eq_true (Mem.cstr_ne_zero b hb)
    rw [List.takeWhile_append_of_pos hall]
    simp
  rw [copyFieldWithin_eq_ok he n hend, hword, and_iff_right (List.mem_append_right _ (List.mem_singleton_self 0))]

theorem zero_notMem_nameOf : 0 ∉ nameOf (c.str s) := by
  intro hmem
  have hstr := List.mem_of_mem_drop ((List.takeWhile_prefix _).subset hmem)
  exact Mem.zero_notMem_cstr hstr

/-- **The fields of a body** that ends in the buffer. -/
theorem credentialsWithin_eq_ok {r : List Byte × List Byte} (hs : c.string = some s)
    (hends : s + (c.str s).length < readBufferSize) :
    c.credentialsWithin = .ok r ↔
      (nameOf (c.str s)).length < 100 ∧ 15 + (nameOf (c.str s)).length ≤ (c.str s).length ∧
        (passwdOf (c.str s)).length < 100 ∧ r = (nameOf (c.str s), passwdOf (c.str s)) := by
  have hplain := takeWhile_ne_iff.mpr (zero_notMem_nameOf (c := c) (s := s))
  have hten : s + 5 + (nameOf (c.str s)).length + 10 = s + (15 + (nameOf (c.str s)).length) := by omega
  rw [credentialsWithin, hs]
  simp only
  constructor
  · intro h
    obtain ⟨name, hname, h⟩ := bind_eq_ok.mp h
    obtain ⟨passwd, hpasswd, h⟩ := bind_eq_ok.mp h
    have hfive : 5 ≤ (c.str s).length := by
      have hle := (copyFieldWithin_stop hname).1
      omega
    obtain ⟨-, hname, hlt⟩ := (copyName_eq_ok hends (str_end hfive)).mp hname
    rw [str_drop hfive] at hname
    change name = nameOf (c.str s) at hname
    subst hname
    rw [hten] at hpasswd
    have hskip : 15 + (nameOf (c.str s)).length ≤ (c.str s).length := by
      have hle := (copyFieldWithin_stop hpasswd).1
      omega
    obtain ⟨rfl, hlt'⟩ := (copyPasswd_eq_ok hends (str_end hskip)).mp hpasswd
    rw [str_drop hskip] at hlt' h
    cases h
    exact ⟨hlt, hskip, hlt', by rw [hplain]; rfl⟩
  · rintro ⟨hlt, hskip, hlt', rfl⟩
    have hfive : 5 ≤ (c.str s).length := by omega
    have hamp : 38 ∈ (c.str s).drop 5 := by
      by_contra hno
      have hall : nameOf (c.str s) = (c.str s).drop 5 := takeWhile_ne_iff.mpr hno
      rw [hall, List.length_drop] at hskip
      omega
    refine bind_eq_ok.mpr ⟨nameOf (c.str s), (copyName_eq_ok hends (str_end hfive)).mpr ?_, ?_⟩
    · rw [str_drop hfive]
      exact ⟨hamp, rfl, hlt⟩
    · rw [hten]
      refine bind_eq_ok.mpr ⟨passwdOf (c.str s), (copyPasswd_eq_ok hends (str_end hskip)).mpr ?_, ?_⟩
      · rw [str_drop hskip]
        exact ⟨rfl, hlt'⟩
      · rw [hplain]
        rfl

/-- A body whose fields are read ends in the buffer. -/
theorem ends_of_within {r : List Byte × List Byte} (hs : c.string = some s)
    (h : c.credentialsWithin = .ok r) : s + (c.str s).length < readBufferSize := by
  rw [credentialsWithin, hs] at h
  obtain ⟨name, -, h⟩ := bind_eq_ok.mp h
  obtain ⟨passwd, hpasswd, -⟩ := bind_eq_ok.mp h
  obtain ⟨-, hlt, hnul⟩ := copyFieldWithin_stop hpasswd
  exact Mem.Terminated.length_lt ⟨_, by omega, hlt, hnul⟩ _

/-! ## The writes -/

/-- A parsed request for a form. -/
structure AtForm (c : HttpConn) (u p : Nat) : Prop where
  cgi : c.cgi = 1
  url : c.url = some u
  slash : c.lastSlash u = .ok p
  digit : c.readBuf (p + 1) = 50 ∨ c.readBuf (p + 1) = 51

variable {fs : FileSystem} {decode : List Byte → Option (List Byte × List Byte)} {accepts : Bool}
  {w w' : World} {u : Nat} {name passwd : List Byte}

theorem length_sqlInsert (name passwd : List Byte) :
    (sqlInsert name passwd).length = name.length + passwd.length + 47 := by
  simp only [sqlInsert, List.length_append]
  rw [show (bytes "INSERT INTO user(username,passwd) VALUES(").length = 41 by decide,
    show (bytes "'").length = 1 by decide, show (bytes "','").length = 3 by decide,
    show (bytes "')").length = 2 by decide]
  omega

theorem formPages_length : ∀ page ∈ formPages, page.length ≤ 19 := by decide

/-- The URL of a form has two bytes at least. -/
theorem AtForm.two_le (h : c.AtForm u p) (hroom : u + (c.str u).length < readBufferSize) :
    2 ≤ (c.str u).length := by
  have hslash := h.slash
  unfold lastSlash at hslash
  split at hslash
  · rename_i i hi
    cases hslash
    have hlt := strrchr_lt hi
    by_contra hshort
    have hnul := Mem.cstr_nul (m := c.readBuf) (n := readBufferSize - u) (p := u)
      (show (c.str u).length < _ by omega)
    change c.readBuf (u + (c.str u).length) = 0 at hnul
    have hdigit := h.digit
    rw [show u + i + 1 = u + (c.str u).length by omega, hnul] at hdigit
    rcases hdigit with hdigit | hdigit <;> cases hdigit
  · cases hslash

/-- What `answerForm` writes, once the fields have been read. -/
theorem answerForm_ok_iff (h : c.AtForm u p) (hroot : c.docRoot.length < filenameLen)
    (hroom : u + 19 < readBufferSize) (hcred : c.credentials = .ok (name, passwd)) :
    (∃ r, c.answerForm decode accepts u p w = .ok r) ↔
      (bytes "/" ++ c.str (u + 2)).length < 200 ∧
        (c.readBuf (p + 1) = 51 → (sqlInsert name passwd).length < 200) := by
  have hset : ∀ (m : Mem) {page : List Byte}, page ∈ formPages → ∃ c₂,
      ({ c with realFile := m } : HttpConn).setUrl u page = .ok c₂ := by
    intro m page hpage
    have hlength := formPages_length page hpage
    exact ⟨_, if_pos (by omega)⟩
  have hcopy : ∃ m : Mem, c.copyPath (bytes "/" ++ c.str (u + 2)) (filenameLen - c.docRoot.length - 1) =
      .ok { c with realFile := m } := ⟨_, if_pos (by omega)⟩
  obtain ⟨m, hcopy⟩ := hcopy
  rw [answerForm, if_pos ⟨h.cgi, h.digit⟩]
  simp only
  by_cases hurl : (bytes "/" ++ c.str (u + 2)).length < 200
  · rw [if_pos hurl, hcopy, and_iff_right hurl]
    simp only [bind, Except.bind, credentials_realFile, hcred]
    by_cases hdigit : c.readBuf (p + 1) = 51
    · rw [if_pos hdigit, imp_iff_right hdigit]
      by_cases hinsert : (sqlInsert name passwd).length < 200
      · have hpage : (w.register decode accepts name passwd).1 ∈ formPages := register_page name passwd
        obtain ⟨c₂, hc₂⟩ := hset m hpage
        rw [if_pos hinsert, hc₂]
        exact iff_of_true ⟨_, rfl⟩ hinsert
      · rw [if_neg hinsert]
        refine iff_of_false ?_ hinsert
        rintro ⟨r, hr⟩
        cases hr
    · have hpage : w.login name passwd ∈ formPages := login_page name passwd
      obtain ⟨c₂, hc₂⟩ := hset m hpage
      rw [if_neg hdigit, hc₂]
      exact iff_of_true ⟨_, rfl⟩ fun he => absurd he hdigit
  · rw [if_neg hurl]
    refine iff_of_false ?_ fun hboth => hurl hboth.1
    rintro ⟨r, hr⟩
    cases hr

/-- The path of the page is copied as far as there is room. -/
theorem answerForm_selectPage (h : c.AtForm u p) (hroot : c.docRoot.length < filenameLen)
    (hanswer : c.answerForm decode accepts u p w = .ok (c', w')) : ∃ c₃, c'.selectPage u p = .ok c₃ := by
  obtain ⟨m, page, -, hpage, hset⟩ := answerForm_page ⟨h.cgi, h.digit⟩ hanswer
  have hmem := formPage_mem hpage
  have hdigit := setUrl_digitPage (i := p + 1) hmem hset (digitPage_form h.digit)
  obtain ⟨rfl, -⟩ := setUrl_str (formPages_plain page hmem).1 hset
  rw [selectPage_of_none hdigit]
  refine ⟨_, if_pos ?_⟩
  show c.docRoot.length + (filenameLen - c.docRoot.length - 1) ≤ filenameLen
  omega

/-- **`do_request` on a form** whose fields can be read writes where it may if and only if the path of the
    server, that of the form and the `INSERT` fit. -/
theorem doRequest_ok_iff (h : c.AtForm u p) (hroom : u + 19 < readBufferSize)
    (hcred : c.credentials = .ok (name, passwd)) :
    (∃ r, c.doRequest fs decode accepts w = .ok r) ↔
      c.docRoot.length < filenameLen ∧ (bytes "/" ++ c.str (u + 2)).length < 200 ∧
        (c.readBuf (p + 1) = 51 → (sqlInsert name passwd).length < 200) := by
  rw [doRequest, h.url]
  by_cases hroot : c.docRoot.length < filenameLen
  · obtain ⟨m, hcopy⟩ : ∃ m : Mem, c.copyRoot = .ok { c with realFile := m } := ⟨_, if_pos hroot⟩
    have h₁ : ({ c with realFile := m } : HttpConn).AtForm u p := ⟨h.cgi, h.url, h.slash, h.digit⟩
    have hiff : (∃ r, ({ c with realFile := m } : HttpConn).answerForm decode accepts u p w = .ok r) ↔ _ :=
      answerForm_ok_iff h₁ hroot hroom ((credentials_realFile m).trans hcred)
    rw [and_iff_right hroot]
    refine Iff.trans ?_ hiff
    constructor
    · rintro ⟨r, hr⟩
      obtain ⟨c₁, hc₁, hr⟩ := bind_eq_ok.mp hr
      cases hcopy.symm.trans hc₁
      obtain ⟨p', hp', hr⟩ := bind_eq_ok.mp hr
      cases h₁.slash.symm.trans hp'
      obtain ⟨a, ha, -⟩ := bind_eq_ok.mp hr
      exact ⟨a, ha⟩
    · rintro ⟨⟨c₂, w₂⟩, hc₂⟩
      obtain ⟨c₃, hc₃⟩ := answerForm_selectPage h₁ hroot hc₂
      refine ⟨(c₃.openFile fs, w₂), bind_eq_ok.mpr ⟨_, hcopy, bind_eq_ok.mpr ⟨p, h₁.slash, bind_eq_ok.mpr ⟨_, hc₂, ?_⟩⟩⟩⟩
      exact bind_eq_ok.mpr ⟨c₃, hc₃, rfl⟩
  · refine iff_of_false ?_ fun hfits => hroot hfits.1
    rintro ⟨r, hr⟩
    obtain ⟨c₁, hc₁, -⟩ := bind_eq_ok.mp hr
    rw [copyRoot, if_neg hroot] at hc₁
    cases hc₁

/-- **A form stays inside its buffers** if and only if it fits. The body is behind the URL, and that is room
    enough for the page that it is answered with. -/
theorem AtForm.within_iff (h : c.AtForm u p)
    (hbehind : ∀ s ∈ c.string, u + (c.str u).length + 2 ≤ s ∧ s ≤ readBufferSize) :
    c.Contained fs decode accepts w ↔ c.FormFits u p := by
  cases hs : c.string with
  | none =>
    have hbody : c.body = [] := by rw [body, hs]; rfl
    refine iff_of_false ?_ ?_
    · intro hin
      obtain ⟨r, hr⟩ := hin.reads
      rw [credentialsWithin, hs] at hr
      cases hr
    · intro hfits
      have hskip := hfits.skip
      rw [hbody] at hskip
      simp only [List.length_nil] at hskip
      omega
  | some s =>
    have hbody : c.body = c.str s := by rw [body, hs]; rfl
    obtain ⟨hafter, hwithin⟩ := hbehind s hs
    have htwo := h.two_le (by omega)
    have hpath : (bytes "/" ++ c.str (u + 2)).length = (c.str u).length - 1 := by
      rw [str_drop htwo, List.length_append, List.length_drop, show (bytes "/").length = 1 by decide]
      omega
    constructor
    · intro hin
      obtain ⟨r, hr⟩ := hin.reads
      have hends := ends_of_within hs hr
      obtain ⟨hname, hskip, hpasswd, rfl⟩ := (credentialsWithin_eq_ok hs hends).mp hr
      obtain ⟨hroot, hlength, hinsert⟩ :=
        (doRequest_ok_iff h (by omega) (credentials_of_within hr)).mp hin.writes
      rw [length_sqlInsert] at hinsert
      refine ⟨hroot, by omega, ?_, by rwa [hbody], by rwa [hbody], by rwa [hbody], ?_⟩
      · intro s' hs'
        cases hs.symm.trans hs'
        exact hends
      · rw [hbody]
        intro hdigit
        have hlt := hinsert hdigit
        omega
    · intro hfits
      obtain ⟨hroot, hlength, hends, hname, hskip, hpasswd, hinsert⟩ := hfits
      rw [hbody] at hname hskip hpasswd hinsert
      have hin := hends s hs
      have hr := (credentialsWithin_eq_ok hs hin).mpr ⟨hname, hskip, hpasswd, rfl⟩
      have hcred := credentials_of_within hr
      refine ⟨(doRequest_ok_iff h (by omega) hcred).mpr ⟨hroot, by omega, ?_⟩, ⟨_, hr⟩, ?_⟩
      · rw [length_sqlInsert]
        intro hdigit
        have hle := hinsert hdigit
        omega
      · intro name passwd hform hamp
        rw [hbody] at hform
        rw [hcred, credentials_eq hs hform hamp hcred]

/-! ## What is behind the URL -/

/-- A line that has ended has two NULs at its end. -/
theorem parseLineLoop_nul (n : Nat) : ∀ {c : HttpConn}, (parseLineLoop n c).1 = .lineOk →
    2 ≤ (parseLineLoop n c).2.checkedIdx ∧
      (parseLineLoop n c).2.readBuf ((parseLineLoop n c).2.checkedIdx - 2) = 0 ∧
      (parseLineLoop n c).2.readBuf ((parseLineLoop n c).2.checkedIdx - 1) = 0 := by
  induction n with
  | zero =>
    intro c h
    cases h
  | succ n ih =>
    intro c h
    rw [parseLineLoop] at h ⊢
    simp only at h ⊢
    split at h
    · rename_i hcr
      rw [if_pos hcr]
      split at h
      · cases h
      · rename_i hlast
        rw [if_neg hlast]
        split at h
        · rename_i hlf
          rw [if_pos hlf]
          refine ⟨Nat.le_add_left _ _, ?_, ?_⟩
          · simp only [put, Nat.add_sub_cancel]
            rw [Mem.put_ne _ _ (by omega), Mem.put_self]
          · simp only [put, show c.checkedIdx + 2 - 1 = c.checkedIdx + 1 by omega, Mem.put_self]
        · cases h
    · rename_i hcr
      rw [if_neg hcr]
      split at h
      · rename_i hlf
        rw [if_pos hlf]
        split at h
        · rename_i hbefore
          rw [if_pos hbefore]
          obtain ⟨hfirst, -⟩ := hbefore
          refine ⟨by simp only; omega, ?_, ?_⟩
          · simp only [put]
            rw [Mem.put_ne _ _ (by omega), show c.checkedIdx + 1 - 2 = c.checkedIdx - 1 by omega, Mem.put_self]
          · simp only [put, Nat.add_sub_cancel, Mem.put_self]
        · cases h
      · rename_i hlf
        rw [if_neg hlf]
        exact ih h

theorem UrlEnds.mono {e' : Nat} (h : UrlEnds e c) (he : e ≤ e') : UrlEnds e' c := by
  intro u hu
  exact (h u hu).mono he

theorem UrlEnds.receive (h : UrlEnds e c) (he : e ≤ c.readIdx) (x : List Byte) : UrlEnds e (c.receive x) := by
  intro u hu
  refine (h u hu).congr fun i _ hi => ?_
  exact (Mem.blit_lt _ _ (by omega)).symm

/-- `m_string` is the text that is the body. -/
theorem parseContent_string {text : Nat} (h : c.parseContent text = .ok (.getRequest, c')) :
    c'.string = some text := by
  rcases parseContent_cases h with ⟨-, rfl⟩ | ⟨hcode, -⟩
  · rfl
  · cases hcode

theorem checkText_requestLine (hs : c.checkState = .requestLine) (text : Nat) :
    c.checkText text = (do
      let (ret, c) ← c.parseRequestLine text
      if ret = .badRequest then return .inl (.ret .badRequest, c) else return .inr (c, .lineOk)) := by
  rw [checkText, hs]

/-- A request line that is accepted ends behind its URL. -/
theorem readStep_requestLine {lineStatus lineStatus' : LineStatus} (hc : c.Ordered)
    (hs : c.checkState = .requestLine) (hstart : c.startLine = 0)
    (h : readStep (c, lineStatus) = .ok (.inr (c', lineStatus'))) :
    c'.checkState = .header ∧ UrlEnds c'.startLine c' := by
  have hnext := readStep_startLine h
  rcases readStep_split c lineStatus with ⟨⟨hbody, -⟩, -⟩ | ⟨-, -, hstep⟩ | ⟨-, hok, hstep⟩
  · cases hs.symm.trans hbody
  · cases hstep.symm.trans h
  · obtain ⟨htwo, hnul, -⟩ := parseLineLoop_nul (c.readIdx - c.checkedIdx) hok
    change 2 ≤ c.parseLine.2.checkedIdx at htwo
    change c.parseLine.2.readBuf (c.parseLine.2.checkedIdx - 2) = 0 at hnul
    have hread := (parseLine_advanced hc).ordered.checked
    obtain ⟨buf, checked, hline⟩ := parseLine_writes c
    rw [hstep, hline] at h
    rw [hline] at htwo hnul hread
    simp only at htwo hnul hread h
    generalize hcut : ({ c with readBuf := buf, checkedIdx := checked, startLine := checked } : HttpConn) = c₀ at h
    have hs₀ : c₀.checkState = .requestLine := hcut ▸ hs
    have hchecked : c₀.checkedIdx = checked := hcut ▸ rfl
    have hterm : c₀.readBuf.Terminated c.startLine (checked - 1) := hcut ▸ ⟨checked - 2, by omega, by omega, hnul⟩
    have hread₀ : checked - 1 + 1 ≤ c₀.readIdx := hcut ▸ (show checked - 1 + 1 ≤ c.readIdx by omega)
    rw [checkText_requestLine hs₀] at h
    obtain ⟨⟨code, c₁⟩, hparse, h⟩ := bind_eq_ok.mp h
    have hlocal := parseRequestLine_local hterm hread₀
    have hends := hlocal.url hparse
    have hframe := (hlocal.frame hparse).checkedIdx
    simp only at h
    split at h
    · cases h
    · rename_i hcode
      cases h
      refine ⟨?_, ?_⟩
      · rcases hlocal.code hparse with he | ⟨-, he⟩
        · exact absurd he hcode
        · exact he
      · rw [hnext, hframe, hchecked]
        exact hends.mono (by omega)

end

end HttpConn

namespace Reception

section
variable {s : Reception} {c : HttpConn} {u p : Nat}

/-- The URL ends before the line that is being received, and a byte at least before the body. -/
structure Laid (s : Reception) : Prop where
  begun : s.Begun
  first : s.conn.checkState = .requestLine → s.conn.startLine = 0
  header : s.conn.checkState = .header → HttpConn.UrlEnds s.conn.startLine s.conn
  body : s.conn.checkState = .content → HttpConn.UrlEnds (s.bodyStart - 1) s.conn

theorem Laid.receive (hs : s.Laid) {x : List Byte} (hroom : s.conn.readIdx + x.length ≤ readBufferSize) :
    ({ s with conn := s.conn.receive x } : Reception).Laid := by
  have hstart := hs.begun.ordered.start
  have hchecked := hs.begun.ordered.checked
  refine ⟨hs.begun.receive hroom, hs.first, ?_, ?_⟩
  · intro hheader
    exact (hs.header hheader).receive (Nat.le_trans hstart hchecked) x
  · intro hbody
    have hbegin := (hs.begun.body hbody).1
    exact (hs.body hbody).receive (by omega) x

/-- A turn that goes on behind the request line. -/
theorem Laid.next (hs : s.Laid) (hstate : s.conn.checkState ≠ .requestLine) {lineStatus lineStatus' : LineStatus}
    (hstep : HttpConn.readStep (s.conn, lineStatus) = .ok (.inr (c, lineStatus'))) :
    (c.checkState = .header → HttpConn.UrlEnds c.startLine c) ∧
      (c.checkState = .content → HttpConn.UrlEnds
        ((if s.conn.checkState ≠ .content ∧ c.checkState = .content then c.checkedIdx else s.bodyStart) - 1) c) := by
  have hpass := (HttpConn.readStep_passing hstate hstep).1
  change HttpConn.Passing s.conn c at hpass
  have hnext := HttpConn.readStep_startLine hstep
  have hstart := hs.begun.ordered.start
  cases hphase : s.conn.checkState with
  | requestLine => exact absurd hphase hstate
  | header =>
    -- a line has been taken off what is unchecked
    have hends := hpass.urlEnds (hs.header hphase)
    have hlt := HttpConn.readStep_decreasing hstep
    have hread := hpass.readIdx
    simp only [HttpConn.readMeasure, hphase, reduceCtorEq, false_and, if_false] at hlt
    refine ⟨fun _ => hends.mono (by omega), fun hbody => ?_⟩
    rw [if_pos ⟨by decide, hbody⟩]
    exact hends.mono (by omega)
  | content =>
    have hbody : c.checkState = .content := by
      rcases hpass.state with he | he
      · exact he.trans hphase
      · exact he
    refine ⟨(fun hheader => by cases hbody.symm.trans hheader), fun _ => ?_⟩
    rw [if_neg (fun hboth => hboth.1 rfl)]
    exact hpass.urlEnds (hs.body hphase)

theorem Laid.turn (hs : s.Laid) (lineStatus : LineStatus) : (s.turn lineStatus).Laid := by
  have hbegun := hs.begun.turn lineStatus
  rcases s.turn_cases lineStatus with hturn | ⟨hstep, hturn⟩ | ⟨c, lineStatus', hstep, hturn⟩
  · rw [hturn]
    exact ⟨⟨hs.begun.ordered, hs.begun.body⟩, hs.first, hs.header, hs.body⟩
  · rw [hturn] at hbegun ⊢
    have hpass := HttpConn.parseLineLoop_passing (s.conn.readIdx - s.conn.checkedIdx) s.conn
    change HttpConn.Passing s.conn s.conn.parseLine.2 at hpass
    obtain ⟨buf, checked, hline⟩ := HttpConn.parseLine_writes s.conn
    rw [hline] at hpass hbegun ⊢
    exact ⟨hbegun, hs.first, fun hheader => hpass.urlEnds (hs.header hheader),
      fun hbody => hpass.urlEnds (hs.body hbody)⟩
  · rw [hturn] at hbegun ⊢
    by_cases hstate : s.conn.checkState = .requestLine
    · obtain ⟨hheader, hends⟩ :=
        HttpConn.readStep_requestLine hs.begun.ordered hstate (hs.first hstate) hstep
      exact ⟨hbegun, (fun he => by cases hheader.symm.trans he), fun _ => hends,
        (fun he => by cases hheader.symm.trans he)⟩
    · obtain ⟨hheader, hbody⟩ := hs.next hstate hstep
      refine ⟨hbegun, fun he => ?_, hheader, hbody⟩
      exact absurd he ((HttpConn.readStep_passing hstate hstep).1.headed hstate)

theorem laid (hs : reception.Reachable s) : s.Laid := by
  refine reachable_invariant hs ?_ ?_ ?_ ?_
  · intro c
    exact ⟨Begun.start c, fun _ => rfl, (fun he => by cases he), (fun he => by cases he)⟩
  · intro s x hs hroom
    exact hs.receive hroom
  · intro s phase hs
    exact ⟨⟨hs.begun.ordered, hs.begun.body⟩, hs.first, hs.header, hs.body⟩
  · intro s lineStatus hs
    exact hs.turn lineStatus

/-! ## Every form -/

/-- A turn that comes to `do_request` with a form: behind a body that has been received, or with none ever
    received. Not one without a body on a connection that is kept: there `m_string` points to where the body of
    an earlier request stood. -/
structure FormTurn (s : Reception) (c : HttpConn) (u p : Nat) : Prop where
  turn : ∃ lineStatus, s.phase = .inLoop lineStatus ∧
    HttpConn.readStep (s.conn, lineStatus) = .ok (.inl (.doRequest, c))
  body : s.conn.checkState = .content ∨ c.string = none
  form : c.AtForm u p

/-- The body stands behind the URL. -/
theorem FormTurn.behind (hs : s.Laid) (h : s.FormTurn c u p) :
    ∀ text ∈ c.string, u + (c.str u).length + 2 ≤ text ∧ text ≤ readBufferSize := by
  intro text htext
  obtain ⟨lineStatus, -, hstep⟩ := h.turn
  rcases h.body with hstate | hnone
  · have hne : s.conn.checkState ≠ .requestLine := by
      rw [hstate]
      decide
    have hpass := (HttpConn.readStep_passing hne hstep).1
    have hends := (hpass.urlEnds (hs.body hstate)) u h.form.url
    have hlength : u + (c.str u).length < s.bodyStart - 1 := hends.length_lt _
    obtain ⟨hbegin, -⟩ := hs.begun.body hstate
    have hstart := hs.begun.ordered.start
    have hchecked := hs.begun.ordered.checked
    have hread := hs.begun.ordered.read
    rcases HttpConn.contentCall_cases hstate lineStatus with
      ⟨-, hopen⟩ | ⟨c₁, text₁, hcall, hcheck, hstate₁⟩
    · cases hopen.symm.trans hstep
    · obtain ⟨-, rfl, -⟩ := HttpConn.contentCall_spec hs.begun.ordered hcall
      have hcontent := hcheck.symm.trans hstep
      rw [HttpConn.checkText_body hstate₁] at hcontent
      obtain ⟨⟨code, c₂⟩, hparse, hcontent⟩ := bind_eq_ok.mp hcontent
      simp only at hcontent
      split at hcontent
      · rename_i hcode
        subst hcode
        cases hcontent
        cases (HttpConn.parseContent_string hparse).symm.trans htext
        omega
      · cases hcontent
  · cases hnone.symm.trans htext

variable {fs : FileSystem} {decode : List Byte → Option (List Byte × List Byte)} {accepts : Bool} {w : World}

/-- **`do_request` stays inside its buffers**, for every form that is received, if and only if the form fits
    them. -/
theorem contained_iff (hs : reception.Reachable s) (h : s.FormTurn c u p) :
    c.Contained fs decode accepts w ↔ c.FormFits u p :=
  h.form.within_iff (h.behind (laid hs))

/-- The next turn comes to `do_request` with a form, as a test. -/
def comesTo (s : Reception) (u p : Nat) (test : HttpConn → Bool) : Bool :=
  s.phase = .inLoop .lineOk && s.conn.checkState = .content &&
    (HttpConn.readStep (s.conn, .lineOk)).toOption.any fun a =>
      a.elim (fun r => r.1 = .doRequest && r.2.cgi = 1 && r.2.url = some u &&
        (r.2.lastSlash u).toOption = some p && (r.2.readBuf (p + 1) = 50 || r.2.readBuf (p + 1) = 51) &&
        test r.2) fun _ => false

theorem formTurn_of_comesTo {test : HttpConn → Bool} (h : s.comesTo u p test = true) :
    ∃ c, s.FormTurn c u p ∧ test c = true := by
  unfold comesTo at h
  simp only [Bool.and_eq_true, decide_eq_true_eq] at h
  obtain ⟨⟨hphase, hstate⟩, h⟩ := h
  obtain ⟨a, hstep, h⟩ := exists_ok_of_any h
  cases a with
  | inr next => cases h
  | inl r =>
    obtain ⟨exit, c⟩ := r
    change ((exit = .doRequest && c.cgi = 1 && c.url = some u && (c.lastSlash u).toOption = some p &&
      (c.readBuf (p + 1) = 50 || c.readBuf (p + 1) = 51) && test c : Bool)) = true at h
    simp only [Bool.and_eq_true, Bool.or_eq_true, decide_eq_true_eq] at h
    obtain ⟨⟨⟨⟨⟨rfl, hcgi⟩, hurl⟩, hslash⟩, hdigit⟩, htest⟩ := h
    exact ⟨c, ⟨⟨.lineOk, hphase, hstep⟩, .inl hstate, ⟨hcgi, hurl, eq_ok_of_toOption hslash, hdigit⟩⟩, htest⟩

/-- A registration. -/
theorem contained_iff_registration : ∃ c : HttpConn, c.body = bytes "user=alice&password=x" ∧
    c.credentials = .ok (bytes "alice", bytes "x") ∧
    c.Contained everyFile decodePlain true (World.load []) := by
  obtain ⟨s, hs, h⟩ := reachable_body
    (x := bytes "POST /3 HTTP/1.1\r\ncontent-length:21\r\n\r\nuser=alice&password=x")
    (P := fun s => s.comesTo 5 5 fun c => c.docRoot = [] ∧ (c.str 5).length ≤ 200 ∧
      (∀ t ∈ c.string, t + (c.str t).length < readBufferSize) ∧ c.body = bytes "user=alice&password=x")
    (by decide +kernel)
  obtain ⟨c, hturn, htest⟩ := formTurn_of_comesTo h
  obtain ⟨hroot, hurl, hends, hbody⟩ := of_decide_eq_true htest
  have hin : c.Contained everyFile decodePlain true (World.load []) := by
    refine (contained_iff hs hturn).mpr ⟨by rw [hroot]; decide, hurl, hends, ?_, ?_, ?_, ?_⟩
    · rw [hbody]
      decide
    · rw [hbody]
      decide
    · rw [hbody]
      decide
    · intro _
      rw [hbody]
      decide
  exact ⟨c, hbody, hin.fields _ _ hbody (by decide), hin⟩

/-- **It does not** for a body without `&`: the name is read on behind the NUL. -/
theorem overread : ∃ s c, reception.Reachable s ∧ s.FormTurn c 5 5 ∧ c.body = bytes "user=bob" ∧
    ∀ (fs : FileSystem) (decode : List Byte → Option (List Byte × List Byte)) (accepts : Bool) (w : World),
      ¬ c.Contained fs decode accepts w := by
  obtain ⟨s, hs, h⟩ := reachable_body
    (x := bytes "POST /2 HTTP/1.1\r\ncontent-length:8\r\n\r\nuser=bob")
    (P := fun s => s.comesTo 5 5 fun c => c.credentialsWithin.toOption = none ∧ c.body = bytes "user=bob")
    (by decide +kernel)
  obtain ⟨c, hturn, htest⟩ := formTurn_of_comesTo h
  obtain ⟨hreads, hbody⟩ := of_decide_eq_true htest
  refine ⟨s, c, hs, hturn, hbody, ?_⟩
  intro fs decode accepts w hin
  obtain ⟨r, hr⟩ := hin.reads
  rw [hr] at hreads
  cases hreads

end

end Reception
end Http
end LinuxServer
