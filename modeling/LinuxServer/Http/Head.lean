import LinuxServer.Http.ReadLoop

/-!
# `Http/Head.lean` — what is before the body, as a function of the bytes

`headEnd s` is a statement about words: whether the bytes `s` hold a request line that is accepted,
header lines and a blank line, with a declared length that is not zero, and if so where the body
begins and how long it is declared to be. It is made of the tests the parser makes, on words, and
what it says of some bytes it says of any that begin with them (`headEnd_append`).

`AtLine.headRun` is what the loop of `process_read` does from the beginning of a request with that
in hand: it enters the body where `headEnd` says, or ends before it, in a fault, with a verdict, or
waiting for more. And each of these is the same when more has been received: the head of a request
is parsed the same however it arrives.
-/

set_option autoImplicit false

namespace LinuxServer
namespace Http

/-! ## Words -/

/-- The C string that a word is read as. -/
def cword (w : List Byte) : List Byte := w.takeWhile (· ≠ 0)

/-- What is behind the scheme, from its first slash on. -/
def afterScheme (scheme w : List Byte) : Option (List Byte) :=
  if strncasecmp w scheme then (strchr (w.drop scheme.length) 47).map fun i => w.drop (scheme.length + i)
  else some w

/-- A third field that is a path, an `http` URL or an `https` URL. -/
def acceptsUrl (w : List Byte) : Bool :=
  match afterScheme (bytes "http://") w >>= afterScheme (bytes "https://") with
  | none => false
  | some w => w.head? = some 47

/-- What is behind the first field: blanks, the URL, blanks, and `HTTP/1.1`. -/
def acceptsVersion (w : List Byte) : Bool :=
  let w := w.drop (strspn w blanks)
  match strpbrk w blanks with
  | none => false
  | some j =>
    let v := w.drop (j + 1)
    strcasecmp (v.drop (strspn v blanks)) (bytes "HTTP/1.1") && acceptsUrl (w.take j)

/-- The request lines that are accepted. -/
def acceptsLine (w : List Byte) : Bool :=
  match strpbrk w blanks with
  | none => false
  | some i =>
    (strcasecmp (w.take i) (bytes "GET") || strcasecmp (w.take i) (bytes "POST")) &&
      acceptsVersion (w.drop (i + 1))

/-- The URL behind the first field, when what is behind it is `HTTP/1.1`. -/
def versionUrl (w : List Byte) : Option (List Byte) :=
  let w := w.drop (strspn w blanks)
  (strpbrk w blanks).bind fun j =>
    let v := w.drop (j + 1)
    if strcasecmp (v.drop (strspn v blanks)) (bytes "HTTP/1.1") then some (w.take j) else none

/-- The URL of a request line whose other two fields are good. -/
def requestUrl (w : List Byte) : Option (List Byte) :=
  (strpbrk w blanks).bind fun i =>
    if strcasecmp (w.take i) (bytes "GET") || strcasecmp (w.take i) (bytes "POST") then
      versionUrl (w.drop (i + 1))
    else none

/-- The URL behind the first field, and the number of blanks between it and the `HTTP/1.1` behind it. -/
def versionFields (w : List Byte) : Option (List Byte × Nat) :=
  let w := w.drop (strspn w blanks)
  (strpbrk w blanks).bind fun j =>
    let v := w.drop (j + 1)
    if strcasecmp (v.drop (strspn v blanks)) (bytes "HTTP/1.1") then
      some (w.take j, strspn v blanks + 1)
    else none

/-- The same of a whole request line, with whether its first field is `POST`. -/
def requestFields (w : List Byte) : Option (Bool × List Byte × Nat) :=
  (strpbrk w blanks).bind fun i =>
    if strcasecmp (w.take i) (bytes "GET") then (versionFields (w.drop (i + 1))).map (false, ·)
    else if strcasecmp (w.take i) (bytes "POST") then (versionFields (w.drop (i + 1))).map (true, ·)
    else none

theorem versionUrl_eq (w : List Byte) : versionUrl w = (versionFields w).map Prod.fst := by
  simp only [versionUrl, versionFields]
  cases strpbrk (w.drop (strspn w blanks)) blanks with
  | none => rfl
  | some j =>
    simp only [Option.bind_some]
    split <;> rfl

theorem requestUrl_eq (w : List Byte) : requestUrl w = (requestFields w).map fun fields => fields.2.1 := by
  simp only [requestUrl, requestFields]
  cases strpbrk w blanks with
  | none => rfl
  | some i =>
    simp only [Option.bind_some, versionUrl_eq]
    by_cases hget : strcasecmp (w.take i) (bytes "GET")
    · rw [if_pos hget, hget, Bool.true_or, if_pos rfl, Option.map_map]
      rfl
    · rw [if_neg hget, Bool.eq_false_iff.mpr hget, Bool.false_or]
      split
      · rw [Option.map_map]
        rfl
      · rfl

theorem acceptsVersion_eq (w : List Byte) : acceptsVersion w = (versionUrl w).any acceptsUrl := by
  simp only [acceptsVersion, versionUrl]
  cases strpbrk (w.drop (strspn w blanks)) blanks with
  | none => rfl
  | some j =>
    simp only [Option.bind_some]
    split
    · rename_i hversion
      rw [hversion, Bool.true_and]
      rfl
    · rename_i hversion
      rw [Bool.eq_false_iff.mpr hversion, Bool.false_and]
      rfl

/-- The request lines that are accepted are those with a URL that is. -/
theorem acceptsLine_eq (w : List Byte) : acceptsLine w = (requestUrl w).any acceptsUrl := by
  simp only [acceptsLine, requestUrl]
  cases strpbrk w blanks with
  | none => rfl
  | some i =>
    simp only [Option.bind_some]
    split
    · rename_i hmethod
      rw [hmethod, Bool.true_and, acceptsVersion_eq]
    · rename_i hmethod
      rw [Bool.eq_false_iff.mpr hmethod, Bool.false_and]
      rfl

/-- A request line with an `http` URL that has no path: `m_url` is null where it is compared with
    the other scheme. -/
def lacksPath (w : List Byte) : Bool :=
  (requestUrl w).any fun url => (afterScheme (bytes "http://") url).isNone

/-- It is none of those that are accepted. -/
theorem acceptsLine_of_lacksPath {w : List Byte} (h : lacksPath w = true) : acceptsLine w = false := by
  rw [acceptsLine_eq]
  unfold lacksPath at h
  cases hu : requestUrl w with
  | none => rfl
  | some url =>
    rw [hu, Option.any_some, Option.isNone_iff_eq_none] at h
    rw [Option.any_some, acceptsUrl, h]
    rfl

/-- The declared length after a header line, `length` before it. -/
def declared (line : List Byte) (length : Int) : Int :=
  if strncasecmp line (bytes "Connection:") then length
  else if strncasecmp line (bytes "content-length:") then
    let value := line.drop 15
    atol (value.drop (strspn value blanks))
  else length

/-- A header line that has `parse_headers` set `m_linger`. -/
def isKeepAlive (line : List Byte) : Bool :=
  let value := line.drop 11
  strncasecmp line (bytes "Connection:") &&
    strcasecmp (value.drop (strspn value blanks)) (bytes "keep-alive")

/-- Where the head of a request ends: not in these bytes; without a body behind it, be it that the
    request is complete or that it is no request; or where the body begins, of a declared length. -/
inductive HeadEnd
  | pending
  | bodyless
  | body (start : Nat) (length : Int)
  deriving DecidableEq, Repr

/-- The same, `k` bytes further on. -/
def HeadEnd.shift (k : Nat) : HeadEnd → HeadEnd
  | .body start length => .body (k + start) length
  | e => e

/-- From the header lines on, with `length` declared so far. -/
def headersEnd : (n : Nat) → (length : Int) → List Byte → HeadEnd
  | 0, _, _ => .pending
  | n + 1, length, w =>
    let (status, k) := scanLine w
    if status = .lineOk then
      let line := cword (w.take (k - 2))
      if line = [] then if length ≠ 0 then .body k length else .bodyless
      else (headersEnd n (declared line length) (w.drop k)).shift k
    else .pending

/-- **Where the head of the request in `s` ends.** -/
def headEnd (s : List Byte) : HeadEnd :=
  let (status, k) := scanLine s
  if status = .lineOk then
    if acceptsLine (cword (s.take (k - 2))) then (headersEnd s.length 0 (s.drop k)).shift k
    else .bodyless
  else .pending

/-! Bytes behind the end of the head do not move it. -/

/-- A line and what is behind it, of more bytes. -/
theorem scanLine_ok_append {w : List Byte} (h : (scanLine w).1 = .lineOk) (x : List Byte) :
    scanLine (w ++ x) = scanLine w ∧ (w ++ x).take ((scanLine w).2 - 2) = w.take ((scanLine w).2 - 2) ∧
      (w ++ x).drop (scanLine w).2 = w.drop (scanLine w).2 ++ x := by
  have hle := scanLine_le w
  refine ⟨by rw [scanLine_append, if_pos h], List.take_append_of_le_length (by omega),
    List.drop_append_of_le_length hle⟩

theorem headersEnd_append : ∀ {n m : Nat} {length : Int} {w x : List Byte}, w.length ≤ n →
    (w ++ x).length ≤ m → headersEnd n length w ≠ .pending →
    headersEnd m length (w ++ x) = headersEnd n length w
  | 0, _, _, _, _, _, _, h => absurd rfl h
  | n + 1, m, length, w, x, hn, hm, h => by
    rw [headersEnd] at h ⊢
    by_cases hok : (scanLine w).1 = .lineOk
    · obtain ⟨hscan, htake, hdrop⟩ := scanLine_ok_append hok x
      obtain ⟨line, rest, hw, hk, -⟩ := scanLine_ok hok
      have hlen : (scanLine w).2 ≤ w.length := scanLine_le w
      rw [List.length_append] at hm
      obtain ⟨m, rfl⟩ : ∃ m', m = m' + 1 := ⟨m - 1, by omega⟩
      simp only [headersEnd, hscan, htake, hdrop, hok, if_true] at h ⊢
      split
      · rfl
      · rename_i hline
        rw [if_neg hline] at h
        rw [headersEnd_append (n := n) (by rw [List.length_drop]; omega)
          (by rw [List.length_append, List.length_drop]; omega)]
        intro he
        rw [he] at h
        exact h rfl
    · simp [hok] at h

theorem headEnd_append {w x : List Byte} (h : headEnd w ≠ .pending) :
    headEnd (w ++ x) = headEnd w := by
  unfold headEnd at h ⊢
  by_cases hok : (scanLine w).1 = .lineOk
  · obtain ⟨hscan, htake, hdrop⟩ := scanLine_ok_append hok x
    have hle := scanLine_le w
    simp only [hscan, htake, hdrop, hok, if_true] at h ⊢
    split
    · rename_i hacc
      rw [if_pos hacc] at h
      rw [headersEnd_append (n := w.length) (by rw [List.length_drop]; omega)
        (by rw [List.length_append, List.length_append, List.length_drop]; omega)]
      intro he
      rw [he] at h
      exact h rfl
    · rfl
  · simp [hok] at h

/-- A line is found in the bytes up to its end, and any more. -/
theorem scanLine_take {w : List Byte} (h : (scanLine w).1 = .lineOk) (j : Nat) :
    scanLine (w.take ((scanLine w).2 + j)) = scanLine w ∧
      (w.take ((scanLine w).2 + j)).take ((scanLine w).2 - 2) = w.take ((scanLine w).2 - 2) ∧
      (w.take ((scanLine w).2 + j)).drop (scanLine w).2 = (w.drop (scanLine w).2).take j := by
  obtain ⟨line, rest, hw, hk, hline⟩ := scanLine_ok h
  refine ⟨?_, by rw [List.take_take]; congr 1; omega, by rw [List.drop_take]; congr 1; omega⟩
  have htake : w.take ((scanLine w).2 + j) = line ++ cr :: lf :: rest.take j := by
    rw [hk, hw, Nat.add_assoc, List.take_length_add_append, Nat.add_comm 2, List.take_succ_cons,
      List.take_succ_cons]
  rw [htake, scanLine_line hline, ← hk, ← h]

theorem headersEnd_take : ∀ {n m : Nat} {length length' : Int} {w : List Byte} {k : Nat},
    headersEnd n length w = .body k length' → k ≤ m →
    k ≤ w.length ∧ headersEnd m length (w.take k) = .body k length'
  | 0, _, _, _, _, _, h, _ => nomatch h
  | n + 1, m, length, length', w, k, h, hm => by
    rw [headersEnd] at h
    by_cases hok : (scanLine w).1 = .lineOk
    · have hle := scanLine_le w
      obtain ⟨line, -, -, hk2, -⟩ := scanLine_ok hok
      simp only [hok, if_true] at h
      by_cases hline : cword (w.take ((scanLine w).2 - 2)) = []
      · rw [if_pos hline] at h
        split at h
        · rename_i hlen
          obtain ⟨rfl, rfl⟩ := HeadEnd.body.inj h
          obtain ⟨m, rfl⟩ : ∃ m', m = m' + 1 := ⟨m - 1, by omega⟩
          obtain ⟨hscan, htake, -⟩ := scanLine_take hok 0
          rw [Nat.add_zero] at hscan htake
          refine ⟨hle, ?_⟩
          simp only [headersEnd, hscan, htake, hok, if_true, if_pos hline, if_pos hlen]
        · cases h
      · rw [if_neg hline] at h
        cases hrest : headersEnd n (declared (cword (w.take ((scanLine w).2 - 2))) length)
            (w.drop (scanLine w).2) with
        | pending => rw [hrest] at h; cases h
        | bodyless => rw [hrest] at h; cases h
        | body j length'' =>
          rw [hrest] at h
          obtain ⟨rfl, rfl⟩ := HeadEnd.body.inj h
          obtain ⟨m, rfl⟩ : ∃ m', m = m' + 1 := ⟨m - 1, by omega⟩
          obtain ⟨hj, ih⟩ := headersEnd_take (m := m) hrest (by omega)
          obtain ⟨hscan, htake, hdrop⟩ := scanLine_take hok j
          rw [List.length_drop] at hj
          refine ⟨by omega, ?_⟩
          simp only [headersEnd, hscan, htake, hdrop, hok, if_true, if_neg hline, ih]
          rfl
    · simp [hok] at h

/-- The bytes up to the body are enough to tell where it begins. -/
theorem headEnd_take {s : List Byte} {k : Nat} {length : Int} (h : headEnd s = .body k length) :
    k ≤ s.length ∧ headEnd (s.take k) = .body k length := by
  unfold headEnd at h
  by_cases hok : (scanLine s).1 = .lineOk
  · have hle := scanLine_le s
    simp only [hok, if_true] at h
    split at h
    · rename_i hacc
      cases hrest : headersEnd s.length 0 (s.drop (scanLine s).2) with
      | pending => rw [hrest] at h; cases h
      | bodyless => rw [hrest] at h; cases h
      | body j length' =>
        rw [hrest] at h
        obtain ⟨rfl, rfl⟩ := HeadEnd.body.inj h
        obtain ⟨hj, ih⟩ := headersEnd_take (m := (s.take ((scanLine s).2 + j)).length) hrest (by
          have hj := (headersEnd_take (m := j) hrest (Nat.le_refl _)).1
          rw [List.length_drop] at hj
          rw [List.length_take]
          omega)
        obtain ⟨hscan, htake, hdrop⟩ := scanLine_take hok j
        rw [List.length_drop] at hj
        refine ⟨by omega, ?_⟩
        simp only [headEnd, hscan, htake, hdrop, hok, if_true, if_pos hacc, ih]
        rfl
    · cases h
  · simp [hok] at h

namespace HttpConn

/-! ## The request line, on words -/

section
variable {c : HttpConn} {e : Nat}

theorem skipScheme_eq (c : HttpConn) (url : Nat) (scheme : List Byte) :
    (afterScheme scheme (c.str url) = none ∧ c.skipScheme scheme (some url) = .ok none) ∨
    ∃ k, k ≤ (c.str url).length ∧ afterScheme scheme (c.str url) = some (c.str (url + k)) ∧
      c.skipScheme scheme (some url) = .ok (some (url + k)) := by
  unfold afterScheme skipScheme
  by_cases hs : strncasecmp (c.str url) scheme
  · have hle := strncasecmp_length hs
    simp only [if_pos hs, str_drop hle]
    cases hi : strchr ((c.str url).drop scheme.length) 47 with
    | none => exact Or.inl ⟨rfl, rfl⟩
    | some i =>
      have hlt := strchr_lt hi
      rw [List.length_drop] at hlt
      refine Or.inr ⟨scheme.length + i, by omega, ?_, ?_⟩
      · rw [str_drop (by omega)]; rfl
      · rw [← Nat.add_assoc]; rfl
  · simp only [if_neg hs]
    exact Or.inr ⟨0, Nat.zero_le _, rfl, rfl⟩

/-- There is room for the page that stands for `/`. -/
theorem judge_ok {u : Nat} (hroom : u + (c.str u).length + 11 ≤ readBufferSize) :
    ∃ c', ({ c with url := some u } : HttpConn).judge u = .ok c' := by
  simp only [judge, strcat]
  split
  · rw [if_pos]
    · exact ⟨_, rfl⟩
    · show u + (c.str u).length + 10 < readBufferSize
      omega
  · exact ⟨_, rfl⟩

/-- The end of a string is that of what is in it. -/
theorem str_end {p k : Nat} (hk : k ≤ (c.str p).length) :
    p + k + (c.str (p + k)).length = p + (c.str p).length := by
  rw [str_drop hk, List.length_drop]
  omega

theorem head?_str {p : Nat} (hp : p < readBufferSize) :
    (c.str p).head? = some 47 ↔ c.readBuf p = 47 := by
  rw [str, show readBufferSize - p = readBufferSize - p - 1 + 1 by omega, Mem.cstr]
  by_cases h0 : c.readBuf p = 0
  · simp [h0]
  · simp [h0]

/-- What `parse_url` does once the scheme is gone. -/
theorem parseUrl_cases (c : HttpConn) (url : Nat) :
    (afterScheme (bytes "http://") (c.str url) = none ∧ c.parseUrl url = .error .nullPointer) ∨
    (afterScheme (bytes "http://") (c.str url) ≠ none ∧
      (afterScheme (bytes "http://") (c.str url) >>= afterScheme (bytes "https://")) = none ∧
      c.parseUrl url = .ok (.badRequest, { c with url := none })) ∨
    ∃ k, k ≤ (c.str url).length ∧ afterScheme (bytes "http://") (c.str url) ≠ none ∧
      (afterScheme (bytes "http://") (c.str url) >>= afterScheme (bytes "https://")) =
        some (c.str (url + k)) ∧
      c.parseUrl url = if c.readBuf (url + k) ≠ 47 then .ok (.badRequest, { c with url := some (url + k) })
        else (({ c with url := some (url + k) } : HttpConn).judge (url + k)).map
          fun c => (.noRequest, { c with checkState := .header }) := by
  unfold parseUrl
  rcases skipScheme_eq c url (bytes "http://") with ⟨hw, hp⟩ | ⟨k, hk, hw, hp⟩
  · rw [hw, hp]
    exact .inl ⟨rfl, rfl⟩
  · rw [hw, hp]
    rcases skipScheme_eq c (url + k) (bytes "https://") with ⟨hw', hp'⟩ | ⟨j, hj, hw', hp'⟩
    · refine .inr (.inl ⟨Option.some_ne_none _, hw', ?_⟩)
      simp only [hp', bind, Except.bind]
      rfl
    · refine .inr (.inr ⟨k + j, ?_, Option.some_ne_none _, ?_, ?_⟩)
      · rw [str_drop hk, List.length_drop] at hj
        omega
      · rw [← Nat.add_assoc]
        exact hw'
      · simp only [hp', bind, Except.bind, ← Nat.add_assoc]
        split
        · rfl
        · cases ({ c with url := some (url + k + j) } : HttpConn).judge (url + k + j) <;> rfl

theorem parseUrl_accepts {url : Nat} (hroom : url + (c.str url).length + 11 ≤ readBufferSize) :
    acceptsUrl (c.str url) = true ↔ ∃ c', c.parseUrl url = .ok (.noRequest, c') := by
  unfold acceptsUrl
  rcases parseUrl_cases c url with ⟨hw, hp⟩ | ⟨-, hw, hp⟩ | ⟨k, hk, -, hw, hp⟩
  · rw [hw, hp]
    exact ⟨fun h => (by cases h), fun ⟨_, h⟩ => (by cases h)⟩
  · rw [hw, hp]
    exact ⟨fun h => (by cases h), fun ⟨_, h⟩ => (by cases h)⟩
  · rw [hw, hp, decide_eq_true_iff, head?_str (by omega)]
    constructor
    · intro hslash
      rw [if_neg (not_not.mpr hslash)]
      obtain ⟨c', hc'⟩ := judge_ok (c := c) (u := url + k) (by rw [str_end hk]; exact hroom)
      rw [hc']
      exact ⟨_, rfl⟩
    · rintro ⟨c', hc'⟩
      by_contra hslash
      rw [if_pos hslash] at hc'
      cases hc'

/-- A URL without a path faults. -/
theorem parseUrl_faults {url : Nat} (hroom : url + (c.str url).length + 11 ≤ readBufferSize) :
    afterScheme (bytes "http://") (c.str url) = none ↔ ∃ f, c.parseUrl url = .error f := by
  rcases parseUrl_cases c url with ⟨hw, hp⟩ | ⟨hw, -, hp⟩ | ⟨k, hk, hw, -, hp⟩
  · exact iff_of_true hw ⟨_, hp⟩
  · refine iff_of_false hw ?_
    rintro ⟨f, hf⟩
    cases hp.symm.trans hf
  · refine iff_of_false hw ?_
    rintro ⟨f, hf⟩
    rw [hp] at hf
    split at hf
    · cases hf
    · obtain ⟨c', hc'⟩ := judge_ok (c := c) (u := url + k) (by rw [str_end hk]; exact hroom)
      rw [hc'] at hf
      cases hf

/-- `parse_url` is reached with the URL `w`, or it is a `BAD_REQUEST` before. -/
def Reaches (r : Except Fault (HttpCode × HttpConn)) : Option (List Byte) → Prop
  | none => ∃ c', r = .ok (.badRequest, c')
  | some w => ∃ (c' : HttpConn) (url : Nat), r = c'.parseUrl url ∧ c'.str url = w ∧
      url + (c'.str url).length + 11 ≤ readBufferSize

/-- `parse_url` is called with the URL `w`, of which the end is `n` blanks and `HTTP/1.1` before `stop`, or it is
    a `BAD_REQUEST` before. -/
def Comes (stop cgi : Nat) (r : Except Fault (HttpCode × HttpConn)) : Option (List Byte × Nat) → Prop
  | none => ∃ c', r = .ok (.badRequest, c')
  | some (w, n) => ∃ (c' : HttpConn) (url : Nat), r = c'.parseUrl url ∧ c'.str url = w ∧ c'.cgi = cgi ∧
      0 < n ∧ url + w.length + n + 8 = stop

theorem Comes.method {stop cgi cgi' : Nat} {r : Except Fault (HttpCode × HttpConn)}
    {fields : Option (List Byte × Nat)} (post : Bool) (h : Comes stop cgi' r fields)
    (hcgi : cgi' = if post then 1 else cgi) :
    Comes stop (if (fields.map (post, ·)).any Prod.fst then 1 else cgi) r
      ((fields.map (post, ·)).map Prod.snd) := by
  cases fields with
  | none => exact h
  | some fields =>
    rw [Option.map_some, Option.any_some, ← hcgi]
    exact h

theorem parseVersion_comes {url : Nat} (h : c.readBuf.Terminated url e) :
    Comes (url + (c.str url).length) c.cgi (c.parseVersion url) (versionFields (c.str url)) := by
  have hle := strspn_le (c.str url) blanks
  have hu := h.offset hle
  have hstop := str_end hle
  simp only [versionFields, parseVersion, ← str_drop hle]
  generalize url + strspn (c.str url) blanks = u at hu hstop
  cases hj : strpbrk (c.str u) blanks with
  | none => exact ⟨_, rfl⟩
  | some j =>
    have hlt := strpbrk_lt hj
    have hv : c.readBuf.Terminated (u + j + 1) e := hu.offset (k := j + 1) hlt
    have hcut : (c.put (u + j) 0).str (u + j + 1) = c.str (u + j + 1) := str_put_lt hv (by omega) 0
    have hdrop : (c.str u).drop (j + 1) = c.str (u + j + 1) := (str_drop hlt).symm
    have hle' := strspn_le (c.str (u + j + 1)) blanks
    have hv' := hv.offset hle'
    have hend : u + j + 1 + (c.str (u + j + 1)).length = u + (c.str u).length := str_end (k := j + 1) hlt
    have hend' := str_end hle'
    simp only [Option.bind_some, hcut, hdrop, ← str_drop hle']
    have hvlt : u + j < u + j + 1 + strspn (c.str (u + j + 1)) blanks := by omega
    generalize hver : u + j + 1 + strspn (c.str (u + j + 1)) blanks = v at hv' hvlt hend'
    have hstr : (c.put (u + j) 0).str v = c.str v := str_put_lt hv' hvlt 0
    rw [show ({ c.put (u + j) 0 with url := some u, version := some v } : HttpConn).str v = c.str v
      from hstr]
    by_cases heq : strcasecmp (c.str v) (bytes "HTTP/1.1")
    · have hlen : (c.str v).length = 8 := by
        have := congrArg List.length (of_decide_eq_true heq)
        rwa [List.length_map, List.length_map] at this
      have hstrG : ({ c.put (u + j) 0 with url := some u, version := some v } : HttpConn).str u =
          (c.str u).take j := str_put (Nat.le_of_lt hlt)
      rw [if_pos heq, if_pos heq]
      refine ⟨_, u, rfl, hstrG, rfl, Nat.succ_pos _, ?_⟩
      rw [List.length_take]
      omega
    · rw [if_neg heq, if_neg heq]
      exact ⟨_, rfl⟩

/-- **The first three fields** of a line, wherever in the buffer it ends. -/
theorem parseRequestLine_comes {text : Nat} (h : c.readBuf.Terminated text e) :
    Comes (text + (c.str text).length) (if (requestFields (c.str text)).any Prod.fst then 1 else c.cgi)
      (c.parseRequestLine text) ((requestFields (c.str text)).map Prod.snd) := by
  unfold requestFields parseRequestLine
  cases hi : strpbrk (c.str text) blanks with
  | none => exact ⟨_, rfl⟩
  | some i =>
    have hlt := strpbrk_lt hi
    have hu : c.readBuf.Terminated (text + i + 1) e := h.offset (k := i + 1) hlt
    have htake : (c.str text).take i = (c.put (text + i) 0).str text := (str_put (Nat.le_of_lt hlt)).symm
    have hstop : text + i + 1 + (c.str (text + i + 1)).length = text + (c.str text).length :=
      str_end (k := i + 1) hlt
    have hrest : (c.put (text + i) 0).str (text + i + 1) = c.str (text + i + 1) := str_put_lt hu (by omega) 0
    have hdrop : (c.str text).drop (i + 1) = (c.put (text + i) 0).str (text + i + 1) := by
      rw [hrest]
      exact (str_drop hlt).symm
    have hversion := terminated_put_lt hu (show text + i < text + i + 1 by omega) 0
    rw [← hstop, ← hrest]
    simp only [Option.bind_some, htake, hdrop]
    rw [show ({ c.put (text + i) 0 with url := some (text + i + 1) } : HttpConn).str text =
      (c.put (text + i) 0).str text from rfl]
    by_cases hget : strcasecmp ((c.put (text + i) 0).str text) (bytes "GET")
    · rw [if_pos hget, if_pos hget]
      exact Comes.method false (parseVersion_comes
        (c := { c.put (text + i) 0 with url := some (text + i + 1), method := .get }) hversion) rfl
    · rw [if_neg hget, if_neg hget]
      by_cases hpost : strcasecmp ((c.put (text + i) 0).str text) (bytes "POST")
      · rw [if_pos hpost, if_pos hpost]
        exact Comes.method true (parseVersion_comes
          (c := { c.put (text + i) 0 with url := some (text + i + 1), method := .post, cgi := 1 }) hversion) rfl
      · rw [if_neg hpost, if_neg hpost]
        exact ⟨_, rfl⟩

theorem parseRequestLine_reaches {text : Nat} (h : c.readBuf.Terminated text e)
    (he : e + 1 ≤ readBufferSize) : Reaches (c.parseRequestLine text) (requestUrl (c.str text)) := by
  have hcomes := parseRequestLine_comes h
  have hend := h.length_lt (readBufferSize - text)
  rw [requestUrl_eq]
  cases hf : requestFields (c.str text) with
  | none =>
    rw [hf] at hcomes
    exact hcomes
  | some fields =>
    obtain ⟨post, w, n⟩ := fields
    rw [hf] at hcomes
    obtain ⟨c', url, hc', rfl, -, hpos, hplace⟩ := hcomes
    refine ⟨c', url, hc', rfl, ?_⟩
    change text + (c.str text).length < e at hend
    omega

/-- **`parse_request_line`** accepts what `acceptsLine` says. -/
theorem parseRequestLine_accepts {text : Nat} (h : c.readBuf.Terminated text e)
    (he : e + 1 ≤ readBufferSize) :
    acceptsLine (c.str text) = true ↔ ∃ c', c.parseRequestLine text = .ok (.noRequest, c') := by
  have hreach := parseRequestLine_reaches h he
  rw [acceptsLine_eq]
  cases hu : requestUrl (c.str text) with
  | none =>
    rw [hu] at hreach
    obtain ⟨c', hc'⟩ := hreach
    simp [hc']
  | some w =>
    rw [hu] at hreach
    obtain ⟨c', url, hc', rfl, hroom⟩ := hreach
    rw [hc', Option.any_some]
    exact parseUrl_accepts hroom

/-- **`parse_request_line`** faults where `lacksPath` says. -/
theorem parseRequestLine_faults {text : Nat} (h : c.readBuf.Terminated text e)
    (he : e + 1 ≤ readBufferSize) :
    lacksPath (c.str text) = true ↔ ∃ f, c.parseRequestLine text = .error f := by
  have hreach := parseRequestLine_reaches h he
  unfold lacksPath
  cases hu : requestUrl (c.str text) with
  | none =>
    rw [hu] at hreach
    obtain ⟨c', hc'⟩ := hreach
    simp [hc']
  | some w =>
    rw [hu] at hreach
    obtain ⟨c', url, hc', rfl, hroom⟩ := hreach
    rw [hc', Option.any_some, Option.isNone_iff_eq_none]
    exact parseUrl_faults hroom

end

/-! ## The lines of the head -/

/-- The connection stands at the beginning of a line, its buffer not overrun. -/
structure AtLine (c : HttpConn) : Prop where
  start : c.startLine = c.checkedIdx
  within : c.checkedIdx ≤ c.readIdx
  uncr : 0 < c.checkedIdx → c.readBuf (c.checkedIdx - 1) ≠ cr
  room : c.readIdx ≤ readBufferSize
  url : UrlEnds c.checkedIdx c

/-- What the loop makes of a connection, with the bytes up to the body and its declared length if it
    enters one; and that bytes received behind make no difference to it. -/
inductive HeadRun (c : HttpConn) : HeadEnd → Prop
  | fault (f : Fault) (run : ∀ x, (c.receive x).readLoop = .error f) : HeadRun c .bodyless
  | pending (c' : HttpConn) (run : c.readLoop = .ok (.ret .noRequest, c'))
      (resume : ∀ x, (c.receive x).readLoop = (c'.receive x).readLoop) : HeadRun c .pending
  | done (exit : ReadExit) (c' : HttpConn) (verdict : exit ≠ .ret .noRequest)
      (head : c'.checkState ≠ .content) (url : UrlEnds c'.readIdx c')
      (run : ∀ x, (c.receive x).readLoop = .ok (exit, c'.receive x)) : HeadRun c .bodyless
  | body (b : HttpConn) (h : Nat) (state : b.checkState = .content) (line : b.AtLine)
      (length : b.contentLength ≠ 0)
      (checked : b.checkedIdx = c.checkedIdx + h) (unchecked : b.unchecked = c.unchecked.drop h)
      (read : b.readIdx = c.readIdx) (above : ∀ i, b.checkedIdx ≤ i → b.readBuf i = c.readBuf i)
      (run : ∀ x, (c.receive x).readLoop = (b.receive x).readLoop) :
      HeadRun c (.body h b.contentLength)

section
variable {c c' : HttpConn} {o : HeadEnd}

theorem AtLine.ready (h : c.AtLine) : c.Ready := ⟨Nat.le_of_eq h.start, h.within, h.uncr⟩

/-- One turn, and the run from where it leaves. -/
theorem HeadRun.turn {k : Nat} (h : HeadRun c' o)
    (hstep : ∀ x, readStep (c.receive x, .lineOk) = .ok (.inr (c'.receive x, .lineOk)))
    (hchecked : c'.checkedIdx = c.checkedIdx + k) (hunchecked : c'.unchecked = c.unchecked.drop k)
    (hread : c'.readIdx = c.readIdx) (habove : ∀ i, c'.checkedIdx ≤ i → c'.readBuf i = c.readBuf i) :
    HeadRun c (o.shift k) := by
  have hloop : ∀ x, (c.receive x).readLoop = (c'.receive x).readLoop := fun x => by
    rw [readLoop_eq, readLoop_eq, readFrom_next (hstep x)]
  cases h with
  | fault f run => exact .fault f fun x => (hloop x).trans (run x)
  | pending c'' run resume =>
    refine .pending c'' ?_ fun x => (hloop x).trans (resume x)
    have := hloop []
    rw [receive_nil, receive_nil] at this
    exact this.trans run
  | done exit c'' verdict head url run =>
    exact .done exit c'' verdict head url fun x => (hloop x).trans (run x)
  | body b h state line length checked unchecked read above run =>
    refine .body b (k + h) state line length (by omega) ?_ (read.trans hread) (fun i hi => ?_)
      fun x => (hloop x).trans (run x)
    · rw [unchecked, hunchecked, List.drop_drop]
    · rw [above i hi, habove i (by omega)]

/-- The line that `parse_line` has cut, as the turn finds it. -/
structure CutLine (c c₁ : HttpConn) (k : Nat) : Prop where
  step : ∀ x, readStep (c.receive x, .lineOk) = (c₁.receive x).checkText c.checkedIdx
  state : c₁.checkState = c.checkState
  contentLength : c₁.contentLength = c.contentLength
  linger : c₁.linger = c.linger
  cgi : c₁.cgi = c.cgi
  url : c₁.url = c.url
  line : c₁.AtLine
  checked : c₁.checkedIdx = c.checkedIdx + k
  unchecked : c₁.unchecked = c.unchecked.drop k
  read : c₁.readIdx = c.readIdx
  above : ∀ i, c₁.checkedIdx ≤ i → c₁.readBuf i = c.readBuf i
  below : ∀ i, i < c.checkedIdx → c₁.readBuf i = c.readBuf i
  two : 2 ≤ k
  terminated : c₁.readBuf.Terminated c.checkedIdx (c.checkedIdx + k - 1)
  text : c₁.str c.checkedIdx = cword (c.unchecked.take (k - 2))

theorem AtLine.cutLine (h : c.AtLine) (hs : c.checkState ≠ .content)
    (hok : (scanLine c.unchecked).1 = .lineOk) :
    ∃ c₁, CutLine c c₁ (scanLine c.unchecked).2 := by
  obtain ⟨line, rest, hw, hk, hline⟩ := scanLine_ok hok
  generalize hkk : (scanLine c.unchecked).2 = k at *
  have hle : c.checkedIdx + k ≤ c.readIdx := hkk ▸ scanLine_unchecked_le h.within
  have hroom := h.room
  have h2 : 2 ≤ k := by omega
  have hparse : c.parseLine = (.lineOk, c.cut k) := by
    rw [parseLine_eq h.ready, hok, if_pos rfl, hkk]
  have hbuf : ∀ i, i < c.checkedIdx + k - 2 → (c.cut k).readBuf i = c.readBuf i := fun i hi => by
    simp only [cut, put, advance]
    rw [Mem.put_ne _ _ (by omega), Mem.put_ne _ _ (by omega)]
  have hbuf' : ∀ i, c.checkedIdx + k ≤ i → (c.cut k).readBuf i = c.readBuf i := fun i hi => by
    simp only [cut, put, advance]
    rw [Mem.put_ne _ _ (by omega), Mem.put_ne _ _ (by omega)]
  have hcr : (c.cut k).readBuf (c.checkedIdx + k - 2) = 0 := by
    simp only [cut, put, advance]
    rw [Mem.put_ne _ _ (by omega), Mem.put_self]
  have hlf : (c.cut k).readBuf (c.checkedIdx + k - 1) = 0 := by
    simp only [cut, put, advance, Mem.put_self]
  refine ⟨{ c.cut k with startLine := c.checkedIdx + k }, ?_, rfl, rfl, rfl, rfl, rfl, ?_, rfl, ?_, rfl,
    hbuf', fun i hi => hbuf i (by omega), h2, ⟨c.checkedIdx + k - 2, by omega, by omega, hcr⟩, ?_⟩
  · intro x
    have hx := (parseLine_receive h.ready x).1 (by rw [hparse])
    rw [hparse] at hx
    rw [readStep_line (c := c.receive x) (fun hc => hs hc.1) hx]
    exact congrArg (checkText _) h.start
  · refine ⟨rfl, hle, fun _ => ?_, hroom, fun u hu => ?_⟩
    · show (c.cut k).readBuf (c.checkedIdx + k - 1) ≠ cr
      rw [hlf]; decide
    · obtain ⟨q, hq, hqe, h0⟩ := h.url u hu
      refine ⟨q, hq, Nat.lt_of_lt_of_le hqe (Nat.le_add_right _ _), ?_⟩
      rw [← h0]
      exact hbuf q (by omega)
  · exact unchecked_cut hle h2
  · have hlen : (c.unchecked.take (k - 2)).length = k - 2 := by
      rw [List.length_take, length_unchecked]; omega
    refine Mem.cstr_of_slice (w := c.unchecked.take (k - 2)) ?_ ?_ ?_
    · rw [hlen, unchecked, Mem.take_slice _ (by omega)]
      exact Mem.slice_congr fun i _ hi => hbuf i (by omega)
    · rw [hlen, show c.checkedIdx + (k - 2) = c.checkedIdx + k - 2 by omega]
      exact hcr
    · rw [hlen]; omega

/-- Where the line has not ended the loop returns, and it is all the same whether it was run. -/
theorem AtLine.openLine (h : c.AtLine) (hs : c.checkState ≠ .content)
    (hno : (scanLine c.unchecked).1 ≠ .lineOk) : HeadRun c .pending := by
  have hline : c.parseLine.1 ≠ .lineOk := by rw [parseLine_eq h.ready]; exact hno
  have hstate : c.parseLine.2.checkState = c.checkState := by
    rw [parseLine_eq h.ready, if_neg hno]; rfl
  have hrun : c.readLoop = .ok (.ret .noRequest, c.parseLine.2) := by
    rw [readLoop_eq, readFrom_eq, readStep_open (fun hc => hs hc.1) hline]
  refine .pending c.parseLine.2 hrun fun x => ?_
  have hx := ((parseLine_receive h.ready x).2 hline).2
  have hstep : readStep (c.receive x, .lineOk) = readStep (c.parseLine.2.receive x, .lineOk) :=
    readStep_congr (fun hc => hs hc.1) (fun hc => hs (hstate ▸ hc.1)) hx
  rw [readLoop_eq, readLoop_eq, readFrom_eq, readFrom_eq, hstep]

/-- What a parsed line leaves: the beginning of the next. -/
theorem AtLine.next (h : c.AtLine) (hf : Frame c.checkedIdx c c') (hurl : UrlEnds c.checkedIdx c') :
    c'.AtLine ∧ c'.unchecked = c.unchecked := by
  refine ⟨⟨?_, ?_, fun hpos => ?_, by rw [hf.readIdx]; exact h.room, by rwa [hf.checkedIdx]⟩, ?_⟩
  · rw [hf.startLine, hf.checkedIdx, h.start]
  · rw [hf.readIdx, hf.checkedIdx]; exact h.within
  · rw [hf.checkedIdx] at hpos ⊢
    exact fun hcr => h.uncr hpos (hf.uncr _ hcr)
  · rw [unchecked, hf.checkedIdx, hf.readIdx]
    exact Mem.slice_congr fun i hi _ => hf.above i hi

/-! ## The whole head -/

/-- A header line. -/
theorem parseHeaders_line {p : Nat} (hline : c.str p ≠ []) :
    ∃ host, c.parseHeaders p = (.noRequest, { c with
      linger := c.linger || isKeepAlive (c.str p)
      host := host
      contentLength := declared (c.str p) c.contentLength }) := by
  have hvalue : ∀ {k : Nat}, k ≤ (c.str p).length →
      c.str (p + k + strspn (c.str (p + k)) blanks) =
        ((c.str p).drop k).drop (strspn ((c.str p).drop k) blanks) := by
    intro k hk
    have hspan := strspn_le ((c.str p).drop k) blanks
    rw [List.length_drop] at hspan
    rw [str_drop hk, Nat.add_assoc, str_drop (by omega), ← List.drop_drop]
  simp only [parseHeaders, if_neg hline, declared, isKeepAlive]
  cases hconn : strncasecmp (c.str p) (bytes "Connection:") with
  | true =>
    have hle : 11 ≤ (c.str p).length := strncasecmp_length hconn
    simp only [hvalue hle, if_true, Bool.true_and]
    cases strcasecmp (((c.str p).drop 11).drop (strspn ((c.str p).drop 11) blanks)) (bytes "keep-alive") with
    | true => exact ⟨c.host, by simp only [if_true, Bool.or_true]⟩
    | false => exact ⟨c.host, by simp only [Bool.false_eq_true, if_false, Bool.or_false]⟩
  | false =>
    simp only [Bool.false_eq_true, if_false, Bool.false_and, Bool.or_false]
    by_cases hcl : strncasecmp (c.str p) (bytes "content-length:")
    · have hle : 15 ≤ (c.str p).length := strncasecmp_length hcl
      simp only [if_pos hcl, hvalue hle]
      exact ⟨c.host, rfl⟩
    simp only [if_neg hcl]
    split
    · exact ⟨some _, rfl⟩
    · exact ⟨c.host, rfl⟩

/-- The turn that a header line takes: what it declares is noted, and the next line begins behind it. -/
structure HeaderTurn (c c' : HttpConn) (k : Nat) (text : List Byte) : Prop where
  step : ∀ x, readStep (c.receive x, .lineOk) = .ok (.inr (c'.receive x, .lineOk))
  state : c'.checkState = .header
  contentLength : c'.contentLength = declared text c.contentLength
  linger : c'.linger = (c.linger || isKeepAlive text)
  cgi : c'.cgi = c.cgi
  url : c'.url = c.url
  line : c'.AtLine
  checked : c'.checkedIdx = c.checkedIdx + k
  unchecked : c'.unchecked = c.unchecked.drop k
  read : c'.readIdx = c.readIdx
  above : ∀ i, c'.checkedIdx ≤ i → c'.readBuf i = c.readBuf i
  below : ∀ i, i < c.checkedIdx → c'.readBuf i = c.readBuf i

section
variable {c₁ : HttpConn} {k : Nat}

/-- A line of the header, up to what is made of `parse_headers`. -/
theorem CutLine.headerStep (h : CutLine c c₁ k) (hs : c.checkState = .header) (x : List Byte) :
    readStep (c.receive x, .lineOk) = if (c₁.parseHeaders c.checkedIdx).1 = .getRequest then
      .ok (.inl (.doRequest, (c₁.parseHeaders c.checkedIdx).2.receive x))
    else .ok (.inr ((c₁.parseHeaders c.checkedIdx).2.receive x, .lineOk)) := by
  have hterm : c₁.readBuf.Terminated c.checkedIdx c₁.readIdx := by
    have hwithin := h.line.within
    have hchecked := h.checked
    exact h.terminated.mono (by omega)
  have hst : (c₁.receive x).checkState = .header := h.state.trans hs
  rw [h.step, checkText, hst]
  simp only [parseHeaders_receive hterm x]

theorem CutLine.headerTurn (h : CutLine c c₁ k) (hs : c.checkState = .header)
    (hline : c₁.str c.checkedIdx ≠ []) : ∃ c', HeaderTurn c c' k (c₁.str c.checkedIdx) := by
  obtain ⟨host, hparse⟩ := parseHeaders_line hline
  let c' : HttpConn := { c₁ with
    linger := c₁.linger || isKeepAlive (c₁.str c.checkedIdx)
    host := host
    contentLength := declared (c₁.str c.checkedIdx) c₁.contentLength }
  have hline' : c'.AtLine := ⟨h.line.start, h.line.within, h.line.uncr, h.line.room, h.line.url⟩
  refine ⟨c', fun x => ?_, h.state.trans hs, ?_, ?_, h.cgi, h.url, hline', h.checked, h.unchecked, h.read,
    h.above, h.below⟩
  · rw [h.headerStep hs, hparse]
    rfl
  · show declared (c₁.str c.checkedIdx) c₁.contentLength = _
    rw [h.contentLength]
  · show (c₁.linger || isKeepAlive (c₁.str c.checkedIdx)) = _
    rw [h.linger]

/-- The turn that the blank line takes: the request is complete, or a body is declared. -/
theorem CutLine.blankTurn (h : CutLine c c₁ k) (hs : c.checkState = .header)
    (hline : c₁.str c.checkedIdx = []) (x : List Byte) :
    readStep (c.receive x, .lineOk) = if c.contentLength ≠ 0 then
      .ok (.inr (({ c₁ with checkState := .content } : HttpConn).receive x, .lineOk))
    else .ok (.inl (.doRequest, c₁.receive x)) := by
  rw [h.headerStep hs]
  by_cases hlen : c.contentLength ≠ 0
  · have hlen₁ : c₁.contentLength ≠ 0 := by
      rw [h.contentLength]
      exact hlen
    have hparse : c₁.parseHeaders c.checkedIdx = (.noRequest, { c₁ with checkState := .content }) := by
      simp only [parseHeaders, if_pos hline, if_pos hlen₁]
    rw [if_pos hlen, hparse]
    rfl
  · have hlen₁ : ¬ c₁.contentLength ≠ 0 := by
      rw [h.contentLength]
      exact hlen
    have hparse : c₁.parseHeaders c.checkedIdx = (.getRequest, c₁) := by
      simp only [parseHeaders, if_pos hline, if_neg hlen₁]
    rw [if_neg hlen, hparse]
    rfl

end

/-- **The header lines.** The induction is on the bytes left. -/
theorem AtLine.headersRun (n : Nat) : ∀ {c : HttpConn}, c.AtLine → c.checkState = .header →
    c.unchecked.length ≤ n → HeadRun c (headersEnd n c.contentLength c.unchecked) := by
  induction n with
  | zero =>
    intro c h hs hn
    have hnil : c.unchecked = [] := List.length_eq_zero_iff.mp (by omega)
    exact h.openLine (by rw [hs]; decide) (by rw [hnil]; decide)
  | succ n ih =>
    intro c h hs hn
    have hs' : c.checkState ≠ .content := by rw [hs]; decide
    rw [headersEnd]
    by_cases hok : (scanLine c.unchecked).1 = .lineOk
    · obtain ⟨c₁, hc₁⟩ := h.cutLine hs' hok
      generalize hk : (scanLine c.unchecked).2 = k at hc₁
      simp only [hok, hk, if_true, ← hc₁.text]
      by_cases hline : c₁.str c.checkedIdx = []
      · rw [if_pos hline]
        have hblank := hc₁.blankTurn hs hline
        by_cases hlen : c.contentLength ≠ 0
        · -- the blank line, with a body behind it
          simp only [if_pos hlen] at hblank
          have hlen₁ : c₁.contentLength ≠ 0 := by rw [hc₁.contentLength]; exact hlen
          rw [if_pos hlen, ← hc₁.contentLength]
          refine HeadRun.body { c₁ with checkState := .content } k rfl
            ⟨hc₁.line.start, hc₁.line.within, hc₁.line.uncr, hc₁.line.room, hc₁.line.url⟩ hlen₁
            hc₁.checked hc₁.unchecked hc₁.read hc₁.above fun x => ?_
          rw [readLoop_eq, readLoop_eq, readFrom_next (hblank x)]
        · -- the blank line, and the request is complete
          simp only [if_neg hlen] at hblank
          rw [if_neg hlen]
          refine .done .doRequest c₁ (by decide) (by rw [hc₁.state]; exact hs')
            (fun u hu => (hc₁.line.url u hu).mono hc₁.line.within) fun x => ?_
          rw [readLoop_eq, readFrom_eq, hblank]
      · -- a line of the header, and what the induction says of those behind it
        rw [if_neg hline]
        obtain ⟨c', hc'⟩ := hc₁.headerTurn hs hline
        have hrun := ih hc'.line hc'.state (by
          have := hc₁.two
          rw [hc'.unchecked, List.length_drop]
          omega)
        rw [hc'.contentLength, hc'.unchecked] at hrun
        exact hrun.turn hc'.step hc'.checked hc'.unchecked hc'.read hc'.above
    · simp only [if_neg hok]
      exact h.openLine hs' hok

/-- **The head of a request.** -/
theorem AtLine.headRun (h : c.AtLine) (hs : c.checkState = .requestLine)
    (hlen : c.contentLength = 0) : HeadRun c (headEnd c.unchecked) := by
  have hs' : c.checkState ≠ .content := by rw [hs]; decide
  unfold headEnd
  by_cases hok : (scanLine c.unchecked).1 = .lineOk
  · obtain ⟨c₁, hc₁⟩ := h.cutLine hs' hok
    generalize hk : (scanLine c.unchecked).2 = k at hc₁
    simp only [hok, hk, if_true, ← hc₁.text]
    have h2 := hc₁.two
    have hchecked := hc₁.checked
    have hwithin := hc₁.line.within
    have hroom := hc₁.line.room
    have hlocal := parseRequestLine_local hc₁.terminated (by omega)
    rw [show c.checkedIdx + k - 1 + 1 = c₁.checkedIdx by omega] at hlocal
    have hacc := parseRequestLine_accepts hc₁.terminated (by omega)
    have hstep : ∀ x, readStep (c.receive x, .lineOk) =
        (onReceive x (c₁.parseRequestLine c.checkedIdx)) >>= fun r =>
          if r.1 = .badRequest then .ok (.inl (.ret .badRequest, r.2)) else .ok (.inr (r.2, .lineOk)) := by
      intro x
      have hst : (c₁.receive x).checkState = .requestLine := hc₁.state.trans hs
      rw [hc₁.step, checkText, hst]
      simp only [hlocal.receive x]
      rfl
    cases hparse : c₁.parseRequestLine c.checkedIdx with
    | error f =>
      have hno : ¬ acceptsLine (c₁.str c.checkedIdx) = true := fun ha => by
        obtain ⟨c', hc'⟩ := hacc.mp ha
        rw [hparse] at hc'
        cases hc'
      rw [if_neg hno]
      refine .fault f fun x => ?_
      rw [readLoop_eq, readFrom_eq, hstep, hparse]
      rfl
    | ok r =>
      obtain ⟨ret, c₂⟩ := r
      have hf := hlocal.frame hparse
      have hurl := hlocal.url hparse
      obtain ⟨hline₂, hunchecked₂⟩ := hc₁.line.next hf hurl
      rcases hlocal.code hparse with rfl | ⟨rfl, hs₂⟩
      · have hno : ¬ acceptsLine (c₁.str c.checkedIdx) = true := fun ha => by
          obtain ⟨c', hc'⟩ := hacc.mp ha
          rw [hparse] at hc'
          cases hc'
        rw [if_neg hno]
        refine .done (.ret .badRequest) c₂ (by decide) ?_
          (fun u hu => (hurl u hu).mono (by rw [hf.readIdx]; exact hwithin)) fun x => ?_
        · rcases hf.state with he | he
          · rw [he, hc₁.state]; exact hs'
          · rw [he]; decide
        · rw [readLoop_eq, readFrom_eq, hstep, hparse]
          rfl
      · rw [if_pos (hacc.mpr ⟨c₂, hparse⟩)]
        have hrun := hline₂.headersRun c.unchecked.length hs₂ (by
          rw [hunchecked₂, hc₁.unchecked, List.length_drop]; omega)
        rw [hf.contentLength, hc₁.contentLength, hlen, hunchecked₂, hc₁.unchecked] at hrun
        refine hrun.turn (fun x => ?_) (hf.checkedIdx.trans hchecked) ?_ (hf.readIdx.trans hc₁.read)
          fun i hi => ?_
        · rw [hstep, hparse]
          rfl
        · rw [hunchecked₂, hc₁.unchecked]
        · rw [hf.checkedIdx] at hi
          rw [hf.above i hi, hc₁.above i hi]
  · simp only [if_neg hok]
    exact h.openLine hs' hok

end

end HttpConn
end Http
end LinuxServer
