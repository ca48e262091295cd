import LinuxServer.Http.LocalPath
import LinuxServer.Http.Receive
import LinuxServer.Lib.System
import Mathlib.Data.List.Induction
import Mathlib.Data.List.TakeWhile

/-!
# `Http/Users.lean` — the map `users` and the table `user`

`initmysql_result` loads the table into the map at the start, and from then on `do_request` writes
both and reads only the map. `doRequest_answer` is what it does with the body of a form, whatever
else it does: it answers with a page, and what it makes of the two stores is `World.answer`.

A registration executes an `INSERT` and then inserts into the map, whether the `INSERT` was executed
or not. So the stores agree as long as every `INSERT` is, with the values that were meant
(`Executed`), and `answer_consistent_iff` says that the first that is not ends it. What a login is
answered in a run of these is `run_consistent`.
-/

set_option autoImplicit false

namespace LinuxServer
namespace Http

/-! ## The form in a request -/

/-- The forms, by the digit behind the last slash of the URL. -/
inductive Form
  | login
  | register
  deriving DecidableEq, Repr

def Form.digit : Form → Byte
  | .login => 50
  | .register => 51

/-- The body of a form. -/
def formBody (name passwd : List Byte) : List Byte :=
  bytes "user=" ++ (name ++ (bytes "&password=" ++ passwd))

/-- What `do_request` makes of a form, and the page it answers with. -/
def World.answer (decode : List Byte → Option (List Byte × List Byte)) (accepts : Bool) (w : World)
    (form : Form) (name passwd : List Byte) : List Byte × World :=
  match form with
  | .login => (w.login name passwd, w)
  | .register => w.register decode accepts name passwd

theorem answer_page (decode : List Byte → Option (List Byte × List Byte)) (accepts : Bool) (w : World)
    (form : Form) (name passwd : List Byte) :
    (w.answer decode accepts form name passwd).1 ∈ formPages := by
  cases form with
  | login => exact HttpConn.login_page name passwd
  | register => exact HttpConn.register_page name passwd

namespace HttpConn

/-- `c` is a parsed request for a form, with a well-formed body. -/
structure Asks (c : HttpConn) (form : Form) (name passwd : List Byte) : Prop where
  cgi : c.cgi = 1
  page : ∃ url p, c.url = some url ∧ c.lastSlash url = .ok p ∧ c.readBuf (p + 1) = form.digit
  body : ∃ s, c.string = some s ∧ c.str s = formBody name passwd
  plain : 38 ∉ name

section
variable {c c' : HttpConn}

theorem str_step {p : Nat} (hp : p < readBufferSize) :
    c.str p = if c.readBuf p = 0 then [] else c.readBuf p :: c.str (p + 1) := by
  rw [str, show readBufferSize - p = (readBufferSize - (p + 1)) + 1 by omega]
  rfl

/-- The copying stops at the first `stop`, which is in the string. -/
theorem copyField_stop {stop : Byte} : ∀ {v rest : List Byte} {n p : Nat} {u : List Byte},
    c.copyField stop n p = .ok u → c.str p = v ++ stop :: rest → stop ∉ v → u = v
  | v, rest, 0, p, u, h, _, _ => by cases h
  | v, rest, n + 1, p, u, h, hstr, hv => by
    rw [copyField] at h
    split at h
    · cases h
    · rename_i hp
      rw [str_step (by omega)] at hstr
      split at hstr
      · cases v <;> cases hstr
      · cases v with
        | nil =>
          injection hstr with hb
          rw [if_pos hb] at h
          cases h
          rfl
        | cons b v =>
          injection hstr with hb hstr
          rw [if_neg (by rw [hb]; exact fun he => hv (by simp [he]))] at h
          obtain ⟨u', hu', h⟩ := bind_eq_ok.mp h
          cases h
          rw [hb, copyField_stop hu' hstr fun hmem => hv (List.mem_cons_of_mem _ hmem)]

/-- Or at the end of the string. -/
theorem copyField_end : ∀ {n p : Nat} {u : List Byte}, c.copyField 0 n p = .ok u → u = c.str p
  | 0, p, u, h => by cases h
  | n + 1, p, u, h => by
    rw [copyField] at h
    split at h
    · cases h
    · rename_i hp
      rw [str_step (by omega)]
      split at h
      · rename_i hb
        rw [if_pos hb]
        cases h
        rfl
      · rename_i hb
        rw [if_neg hb]
        obtain ⟨u', hu', h⟩ := bind_eq_ok.mp h
        cases h
        rw [copyField_end hu']

/-- What is read out of the body of a form. -/
theorem credentials_eq {s : Nat} {name passwd : List Byte} {r : List Byte × List Byte}
    (hs : c.string = some s) (hbody : c.str s = formBody name passwd) (hname : 38 ∉ name)
    (h : c.credentials = .ok r) : r = (name, passwd) := by
  rw [credentials, hs] at h
  obtain ⟨u, hu, h⟩ := bind_eq_ok.mp h
  obtain ⟨v, hv, h⟩ := bind_eq_ok.mp h
  have hten : (bytes "&password=").length = 10 := by decide
  have hfive : c.str (s + 5) = name ++ (bytes "&password=" ++ passwd) := by
    rw [str_drop (by rw [hbody]; simp [formBody, bytes]), hbody]
    rfl
  cases copyField_stop hu hfive hname
  have hname' : c.str (s + 5 + name.length) = bytes "&password=" ++ passwd := by
    rw [str_drop (by rw [hfive]; simp), hfive, List.drop_left]
  have hpasswd : c.str (s + 5 + name.length + 10) = passwd := by
    rw [str_drop (by rw [hname', List.length_append]; omega), hname', ← hten, List.drop_left]
  have hnul : name.takeWhile (· ≠ 0) = name := by
    refine takeWhile_ne_iff.mpr fun hzero => ?_
    have hstr : 0 ∈ c.str (s + 5) := by
      rw [hfive]
      exact List.mem_append_left _ hzero
    exact Mem.zero_notMem_cstr hstr
  rw [copyField_end hv, hpasswd, hnul] at h
  cases h
  rfl

/-- What the copies into `m_real_file` leave alone. -/
structure SamePath (c c' : HttpConn) : Prop where
  readBuf : c'.readBuf = c.readBuf
  url : c'.url = c.url
  string : c'.string = c.string
  cgi : c'.cgi = c.cgi

theorem copyPath_same {src : List Byte} {n : Nat} (h : c.copyPath src n = .ok c') : SamePath c c' := by
  rw [copyPath] at h
  split at h
  · cases h
    exact ⟨rfl, rfl, rfl, rfl⟩
  · cases h

theorem selectPage_same {url p : Nat} (h : c.selectPage url p = .ok c') : SamePath c c' := by
  rw [selectPage] at h
  repeat' split at h
  all_goals exact copyPath_same h

theorem copyRoot_same (h : c.copyRoot = .ok c') : SamePath c c' := by
  rw [copyRoot] at h
  split at h
  · cases h
    exact ⟨rfl, rfl, rfl, rfl⟩
  · cases h

theorem openFile_same (fs : FileSystem) (c : HttpConn) : SamePath c (c.openFile fs).2 := by
  rw [openFile]
  simp only
  repeat' split
  all_goals exact ⟨rfl, rfl, rfl, rfl⟩

theorem SamePath.asks {form : Form} {name passwd : List Byte} (h : SamePath c c')
    (ha : Asks c form name passwd) : Asks c' form name passwd := by
  have hstr : ∀ p, c'.str p = c.str p := fun p => by rw [str, str, h.readBuf]
  obtain ⟨url, p, hurl, hslash, hdigit⟩ := ha.page
  obtain ⟨s, hs, hbody⟩ := ha.body
  refine ⟨h.cgi.trans ha.cgi, ⟨url, p, h.url.trans hurl, ?_, ?_⟩, ⟨s, h.string.trans hs, ?_⟩, ha.plain⟩
  · rw [lastSlash, hstr]
    exact hslash
  · rw [h.readBuf]
    exact hdigit
  · rw [hstr]
    exact hbody

variable {decode : List Byte → Option (List Byte × List Byte)} {accepts : Bool} {w w' : World}

/-- **The form** of a request, and what is made of it. -/
theorem answerForm_answer {form : Form} {name passwd : List Byte} {url p : Nat}
    (ha : Asks c form name passwd) (hurl : c.url = some url) (hslash : c.lastSlash url = .ok p)
    (h : c.answerForm decode accepts url p w = .ok (c', w')) :
    (w.answer decode accepts form name passwd).2 = w' ∧ c'.url = some url ∧
      c'.str url = (w.answer decode accepts form name passwd).1 := by
  obtain ⟨url', p', hurl', hslash', hdigit⟩ := ha.page
  rw [hurl] at hurl'
  cases hurl'
  rw [hslash] at hslash'
  cases hslash'
  have hpage := answer_page decode accepts w form name passwd
  have hnul : 0 ∉ (w.answer decode accepts form name passwd).1 := (formPages_plain _ hpage).1
  rw [answerForm] at h
  rw [if_pos ⟨ha.cgi, by rw [hdigit]; cases form <;> decide⟩] at h
  simp only at h
  split at h
  · -- the path of the form is copied, and its fields are read as before that
    obtain ⟨c₁, hc₁, h⟩ := bind_eq_ok.mp h
    have hsame := copyPath_same hc₁
    have ha₁ := hsame.asks ha
    obtain ⟨s, hs, hbody⟩ := ha₁.body
    obtain ⟨r, hr, h⟩ := bind_eq_ok.mp h
    cases credentials_eq hs hbody ha.plain hr
    rw [hsame.readBuf, hdigit] at h
    cases form with
    | register =>
      rw [if_pos (by decide)] at h
      split at h
      · obtain ⟨c₂, hc₂, h⟩ := bind_eq_ok.mp h
        cases h
        obtain ⟨rfl, hstr⟩ := setUrl_str hnul hc₂
        exact ⟨rfl, hsame.url.trans hurl, hstr⟩
      · cases h
    | login =>
      rw [if_neg (by decide)] at h
      obtain ⟨c₂, hc₂, h⟩ := bind_eq_ok.mp h
      cases h
      obtain ⟨rfl, hstr⟩ := setUrl_str hnul hc₂
      exact ⟨rfl, hsame.url.trans hurl, hstr⟩
  · cases h

/-- **`do_request` on a form**: the two stores are what `World.answer` makes of them, and the page
    is in `m_url`. -/
theorem doRequest_answer {fs : FileSystem} {form : Form} {name passwd : List Byte} {code : HttpCode}
    (ha : Asks c form name passwd) (h : c.doRequest fs decode accepts w = .ok ((code, c'), w')) :
    (w.answer decode accepts form name passwd).2 = w' ∧
      c'.url.map c'.str = some (w.answer decode accepts form name passwd).1 := by
  obtain ⟨url, p, hurl, hslash, hdigit⟩ := ha.page
  rw [doRequest, hurl] at h
  obtain ⟨c₁, hc₁, h⟩ := bind_eq_ok.mp h
  have hroot := copyRoot_same hc₁
  obtain ⟨p', hp', h⟩ := bind_eq_ok.mp h
  obtain ⟨⟨c₂, w₂⟩, hc₂, h⟩ := bind_eq_ok.mp h
  obtain ⟨hw, hurl₂, hpage⟩ :=
    answerForm_answer (hroot.asks ha) (hroot.url.trans hurl) hp' hc₂
  obtain ⟨c₃, hc₃, h⟩ := bind_eq_ok.mp h
  have hselect := selectPage_same hc₃
  have hopen := openFile_same fs c₃
  simp only [pure, Except.pure, Except.ok.injEq, Prod.mk.injEq] at h
  obtain ⟨hfile, rfl⟩ := h
  rw [hfile] at hopen
  have hurl₃ := hopen.url.trans (hselect.url.trans hurl₂)
  refine ⟨hw, ?_⟩
  rw [hurl₃, Option.map_some, str, hopen.readBuf, hselect.readBuf]
  exact congrArg some hpage

end

end HttpConn

/-! ## The run -/

/-- A request for a form: what it asks, whether the server would execute a statement now, and the page
    it is answered with. -/
structure Request where
  conn : HttpConn
  form : Form
  name : List Byte
  passwd : List Byte
  accepts : Bool
  page : List Byte

/-- `initmysql_result`: `users[row[0]] = row[1]`, row by row. -/
def World.load (rows : List (List Byte × List Byte)) : World where
  users := rows.foldl (fun users row => Function.update users row.1 (some row.2)) fun _ => none
  table := rows

/-- The server, as far as it answers forms. -/
def credentialStore (fs : FileSystem) (decode : List Byte → Option (List Byte × List Byte)) :
    System World Request where
  start w := ∃ rows, w = World.load rows
  step w r w' := HttpConn.Asks r.conn r.form r.name r.passwd ∧ ∃ code c',
    r.conn.doRequest fs decode r.accepts w = .ok ((code, c'), w') ∧ c'.url.map c'.str = some r.page

/-- An `INSERT` that the request comes to is executed, and is one of the values that were meant. -/
def Executed (decode : List Byte → Option (List Byte × List Byte)) (w : World) (r : Request) : Prop :=
  r.form = .register → w.unknown r.name = true →
    r.accepts = true ∧ decode (sqlInsert r.name r.passwd) = some (r.name, r.passwd)

/-- The map is the table. -/
def World.Consistent (w : World) : Prop := ∀ n p, w.users n = some p ↔ (n, p) ∈ w.table

/-- No name has two passwords. -/
def Functional (rows : List (List Byte × List Byte)) : Prop :=
  ∀ n p p', (n, p) ∈ rows → (n, p') ∈ rows → p = p'

section
variable {fs : FileSystem} {decode : List Byte → Option (List Byte × List Byte)} {w w' : World}
  {r : Request} {rows : List (List Byte × List Byte)}

theorem load_concat (rows : List (List Byte × List Byte)) (a b : List Byte) :
    (World.load (rows ++ [(a, b)])).users = Function.update (World.load rows).users a (some b) := by
  simp only [World.load, List.foldl_append, List.foldl_cons, List.foldl_nil]

/-- The table is loaded well if and only if it can be. -/
theorem load_consistent_iff : (World.load rows).Consistent ↔ Functional rows := by
  constructor
  · intro h n p p' hp hp'
    have hsome := (h n p).mpr hp
    rw [(h n p').mpr hp'] at hsome
    exact (Option.some.inj hsome).symm
  · intro h
    induction rows using List.reverseRecOn with
    | nil => exact fun n p => iff_of_false nofun nofun
    | append_singleton rows row ih =>
      obtain ⟨a, b⟩ := row
      have hrows : Functional rows := fun n p p' hp hp' =>
        h n p p' (List.mem_append_left _ hp) (List.mem_append_left _ hp')
      intro n p
      have hlast : (a, b) ∈ rows ++ [(a, b)] := List.mem_append_right _ (List.mem_singleton.mpr rfl)
      rw [load_concat]
      show _ ↔ (n, p) ∈ rows ++ [(a, b)]
      by_cases hn : n = a
      · subst hn
        rw [Function.update_self]
        refine ⟨fun he => ?_, fun hp => ?_⟩
        · cases he
          exact hlast
        · rw [h n p b hp hlast]
      · rw [Function.update_of_ne hn, ih hrows n p]
        simp [World.load, hn]

/-- Neither store knows the name of a registration that comes to its `INSERT`. -/
theorem not_mem_of_unknown (h : w.Consistent) {n : List Byte} (hn : w.unknown n = true) (p : List Byte) :
    (n, p) ∉ w.table := by
  intro hmem
  rw [← h n p] at hmem
  rw [World.unknown, hmem] at hn
  cases hn

/-- **One request** keeps the stores together if and only if its `INSERT` is executed. -/
theorem answer_consistent_iff (h : w.Consistent) :
    (w.answer decode r.accepts r.form r.name r.passwd).2.Consistent ↔ Executed decode w r := by
  unfold Executed
  cases hform : r.form with
  | login => exact iff_of_true h fun hne => by cases hne
  | register =>
    cases hname : w.unknown r.name with
    | false =>
      refine iff_of_true ?_ fun _ hne => by cases hne
      simp only [World.answer, World.register, hname, Bool.false_eq_true, if_false]
      exact h
    | true =>
      have hnone := not_mem_of_unknown h hname
      have husers : w.users r.name = none := Option.isNone_iff_eq_none.mp hname
      have hfail : ¬ World.Consistent (w.insert r.name r.passwd) := fun hc => by
        have hmem := (hc r.name r.passwd).mp (by simp [World.insert, husers])
        exact hnone r.passwd hmem
      simp only [World.answer, World.register, hname, if_true, World.enter, World.query, forall_const]
      cases hdecode : decode (sqlInsert r.name r.passwd) with
      | none => exact iff_of_false hfail fun hrow => by cases hrow.2
      | some row =>
        cases haccepts : r.accepts with
        | false => exact iff_of_false hfail fun hrow => by cases hrow.1
        | true =>
          simp only [if_true, true_and, Option.some.injEq]
          constructor
          · intro hc
            have hmem := (hc r.name r.passwd).mp (by simp [World.insert, husers])
            rcases List.mem_append.mp hmem with hold | hnew
            · exact absurd hold (hnone r.passwd)
            · exact (List.mem_singleton.mp hnew).symm
          · rintro rfl n p
            show (if n = r.name then (w.users r.name).or (some r.passwd) else w.users n) = some p ↔
              (n, p) ∈ w.table ++ [(r.name, r.passwd)]
            by_cases hn : n = r.name
            · subst hn
              rw [if_pos rfl, husers, Option.none_or]
              simp [hnone, eq_comm]
            · rw [if_neg hn, h n p]
              simp [hn]

/-- A row that the run has put into the table: a registration that was answered with `/log.html`. -/
def Registered (h : List Request) (name passwd : List Byte) : Prop :=
  ∃ q ∈ h, q.form = .register ∧ q.name = name ∧ q.passwd = passwd ∧ q.page = bytes "/log.html"

theorem registered_cons {h : List Request} {name passwd : List Byte} :
    Registered (r :: h) name passwd ↔ Registered h name passwd ∨
      r.form = .register ∧ r.name = name ∧ r.passwd = passwd ∧ r.page = bytes "/log.html" := by
  simp only [Registered, List.mem_cons, exists_eq_or_imp]
  exact or_comm

/-- The table grows by the registrations that succeed. -/
theorem answer_table (hexec : Executed decode w r)
    (hpage : r.page = (w.answer decode r.accepts r.form r.name r.passwd).1) (name passwd : List Byte) :
    (name, passwd) ∈ (w.answer decode r.accepts r.form r.name r.passwd).2.table ↔
      (name, passwd) ∈ w.table ∨
        r.form = .register ∧ r.name = name ∧ r.passwd = passwd ∧ r.page = bytes "/log.html" := by
  cases hform : r.form with
  | login => simp [World.answer]
  | register =>
    rw [hform] at hpage
    cases hname : w.unknown r.name with
    | false =>
      simp only [World.answer, World.register, hname, Bool.false_eq_true, if_false] at hpage ⊢
      have hne : r.page ≠ bytes "/log.html" := by
        rw [hpage]
        decide
      simp [hne]
    | true =>
      obtain ⟨haccepts, hdecode⟩ := hexec hform hname
      simp only [World.answer, World.register, hname, if_true, World.enter, World.query, hdecode,
        haccepts] at hpage ⊢
      simp [World.insert, hpage, eq_comm]

/-- **Credential store consistency.** From a table in which no name has two passwords, in every run
    of form requests whose `INSERT`s are executed: the map is the table after each request, and a
    login is welcome if and only if its name and password were in the table at the start or were
    registered since. -/
theorem run_consistent (hrows : Functional rows) {h : List Request}
    (hrun : ((credentialStore fs decode).restrict (Executed decode)).Run (World.load rows) h w) :
    w.Consistent ∧ ∀ r w', (credentialStore fs decode).step w r w' → r.form = .login →
      (r.page = bytes "/welcome.html" ↔
        (r.name, r.passwd) ∈ rows ∨ Registered h r.name r.passwd) := by
  have hinv : w.Consistent ∧ ∀ n p, (n, p) ∈ w.table ↔ (n, p) ∈ rows ∨ Registered h n p := by
    refine hrun.invariant (I := fun h w => w.Consistent ∧
      ∀ n p, (n, p) ∈ w.table ↔ (n, p) ∈ rows ∨ Registered h n p) ?_ ?_
    · rintro h t r u ⟨hconsistent, htable⟩ ⟨⟨hasks, code, c', hdo, hpage⟩, hexec⟩
      obtain ⟨rfl, hanswer⟩ := HttpConn.doRequest_answer hasks hdo
      rw [hanswer] at hpage
      refine ⟨(answer_consistent_iff hconsistent).mpr hexec, fun n p => ?_⟩
      rw [answer_table hexec (Option.some.inj hpage).symm, htable, registered_cons, or_assoc]
    · refine ⟨load_consistent_iff.mpr hrows, fun n p => ?_⟩
      simp [World.load, Registered]
  refine ⟨hinv.1, ?_⟩
  rintro r w' ⟨hasks, code, c', hdo, hpage⟩ hform
  obtain ⟨-, hanswer⟩ := HttpConn.doRequest_answer hasks hdo
  rw [hanswer, hform] at hpage
  rw [← hinv.2, ← hinv.1 r.name r.passwd, ← Option.some.inj hpage]
  simp only [World.answer, World.login]
  split
  · exact iff_of_true rfl ‹_›
  · exact iff_of_false (by decide) ‹_›

end

/-! A registration, as `process_read` leaves it to `do_request`, on a server where every path is a
    file. -/

def everyFile : FileSystem := ⟨fun _ => some ⟨2, true, false⟩, fun _ => 0⟩

def parse (text : List Byte) : HttpConn :=
  match ((default : HttpConn).init.receive text).readLoop with
  | .ok (_, c) => c
  | .error _ => default

def registration : HttpConn :=
  parse (bytes "POST /3CGISQL.cgi HTTP/1.1\r\nContent-Length: 21\r\n\r\nuser=alice&password=x")

theorem registration_asks : registration.Asks .register (bytes "alice") (bytes "x") := by
  -- the request is parsed once for all of it
  have hparsed : registration.cgi = 1 ∧ (registration.url = some 5 ∧ registration.lastSlash 5 = .ok 5 ∧
      registration.readBuf 6 = Form.register.digit) ∧
      registration.string = some 50 ∧ registration.str 50 = formBody (bytes "alice") (bytes "x") := by
    decide +kernel
  obtain ⟨hcgi, hpage, hbody⟩ := hparsed
  exact ⟨hcgi, ⟨5, 5, hpage⟩, ⟨50, hbody⟩, by decide⟩

/-- What `do_request` answers, as a step of the run. -/
theorem step_of_doRequest {r : Request} {w : World}
    (hasks : r.conn.Asks r.form r.name r.passwd)
    (h : (r.conn.doRequest everyFile decodePlain r.accepts w).map (fun a => a.1.2.url.map a.1.2.str) =
      .ok (some r.page)) :
    (credentialStore everyFile decodePlain).step w r
      (w.answer decodePlain r.accepts r.form r.name r.passwd).2 := by
  cases hdo : r.conn.doRequest everyFile decodePlain r.accepts w with
  | error f => rw [hdo] at h; cases h
  | ok a =>
    obtain ⟨⟨code, c'⟩, w'⟩ := a
    rw [hdo] at h
    obtain ⟨hw, -⟩ := HttpConn.doRequest_answer hasks hdo
    rw [hw]
    exact ⟨hasks, code, c', hdo, Except.ok.inj h⟩

def registering (accepts : Bool) (page : List Byte) : Request :=
  ⟨registration, .register, bytes "alice", bytes "x", accepts, page⟩

theorem functional_nil : Functional [] := fun _ _ _ h => by cases h

/-- The registration, executed. -/
theorem run_consistent_registered :
    ∃ w : World, w.users (bytes "alice") = some (bytes "x") ∧ w.Consistent := by
  have hstep := step_of_doRequest (r := registering true (bytes "/log.html")) (w := World.load [])
    registration_asks (by decide +kernel)
  have hexec : Executed decodePlain (World.load []) (registering true (bytes "/log.html")) :=
    fun _ _ => ⟨rfl, by decide +kernel⟩
  have hrun : ((credentialStore everyFile decodePlain).restrict (Executed decodePlain)).Run
      (World.load []) [registering true (bytes "/log.html")] _ :=
    System.Run.step (System.Run.nil _) ⟨hstep, hexec⟩
  exact ⟨_, by decide +kernel, (run_consistent functional_nil hrun).1⟩

/-- The registration, refused by the server: it is answered with the page for a failure, and `users`
    holds a name that the table does not. -/
theorem refused_in_map : ∃ (r : Request) (w : World), r.accepts = false ∧
    r.page = bytes "/registerError.html" ∧ Functional [] ∧
    (credentialStore everyFile decodePlain).Run (World.load []) [r] w ∧
    w.users r.name = some r.passwd ∧ w.table = [] := by
  have hstep := step_of_doRequest (r := registering false (bytes "/registerError.html"))
    (w := World.load []) registration_asks (by decide +kernel)
  have hrun : (credentialStore everyFile decodePlain).Run (World.load [])
      [registering false (bytes "/registerError.html")] _ :=
    System.Run.step (System.Run.nil _) hstep
  exact ⟨_, _, rfl, rfl, functional_nil, hrun, by decide +kernel, by decide +kernel⟩

end Http
end LinuxServer
