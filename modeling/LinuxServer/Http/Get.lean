import LinuxServer.Http.Chunks
import Mathlib.Data.List.TakeWhile

/-!
# `Http/Get.lean` — a `GET` request that is well formed

`GetRequest` is such a request with the proofs that it is one: an accepted request line, header lines
of which one asks for `keep-alive`, a blank line, and a body of the declared length, which mostly is
none. `GetRequest.done` is what `process_read` makes of it, whatever bytes are behind: it comes to
`do_request`, with `m_linger` set and `m_url` at the path (`lineTarget`). `GetRequest.waits` is what it
makes of any part of it that a read may end with, unless that is in the body: it waits, and all is the
same as if these bytes had come together with the rest.
-/

set_option autoImplicit false

namespace LinuxServer
namespace Http

/-! ## The path, on words -/

/-- The path of a third field: what is behind the scheme, or the page that stands for `/`. -/
def urlTarget (w : List Byte) : Option (List Byte) :=
  (afterScheme (bytes "http://") w >>= afterScheme (bytes "https://")).map fun w =>
    if w.length = 1 then w ++ bytes "judge.html" else w

def versionTarget (w : List Byte) : Option (List Byte) :=
  let w := w.drop (strspn w blanks)
  (strpbrk w blanks).bind fun j => urlTarget (w.take j)

/-- The path of a request line. -/
def lineTarget (line : List Byte) : Option (List Byte) :=
  (strpbrk line blanks).bind fun i => versionTarget (line.drop (i + 1))

/-- The first field is `GET`. -/
def isGet (line : List Byte) : Bool :=
  match strpbrk line blanks with
  | none => false
  | some i => strcasecmp (line.take i) (bytes "GET")

namespace HttpConn

section
variable {c c' : HttpConn} {e p : Nat}

/-- The string at `p`, byte by byte. -/
theorem slice_str : c.readBuf.slice p (c.str p).length = c.str p :=
  List.ext_getElem (by simp) fun i hi hi' => by
    rw [Mem.slice_getElem]
    exact (Mem.cstr_getElem hi').symm

theorem strcat_str {w : List Byte} (hw : 0 ∉ w) (h : c.strcat p w = .ok c') :
    c'.url = c.url ∧ c'.cgi = c.cgi ∧ c'.str p = c.str p ++ w := by
  simp only [strcat] at h
  split at h
  · rename_i hroom
    cases h
    refine ⟨rfl, rfl, ?_⟩
    have hnul : (c.str p ++ w).takeWhile (· ≠ 0) = c.str p ++ w := by
      refine takeWhile_ne_iff.mpr fun hzero => ?_
      rcases List.mem_append.mp hzero with hzero | hzero
      · exact Mem.zero_notMem_cstr hzero
      · exact hw hzero
    have hslice : (c.readBuf.blit (p + (c.str p).length) (w ++ [0])).slice p
        ((c.str p ++ w).length + 1) = c.str p ++ (w ++ [0]) := by
      rw [List.length_append, Nat.add_assoc, Mem.slice_append,
        show w.length + 1 = (w ++ [0]).length by simp, Mem.slice_blit]
      congr 1
      rw [← slice_str (c := c) (p := p), Mem.length_slice]
      exact Mem.slice_congr fun i _ hi => Mem.blit_lt _ _ hi
    rw [Mem.slice_append, ← List.append_assoc] at hslice
    have hsplit := List.append_inj hslice (Mem.length_slice ..)
    have hlast := List.cons.inj hsplit.2
    exact (Mem.cstr_of_slice hsplit.1 hlast.1 (by rw [List.length_append]; omega)).trans hnul
  · cases h

/-! ## The request line -/

/-- What parsing makes of `m_url`, and that it is no form. -/
structure Targets (c c' : HttpConn) (target : Option (List Byte)) : Prop where
  cgi : c'.cgi = c.cgi
  url : c'.url.map c'.str = target

theorem parseUrl_target {url : Nat} (h : c.parseUrl url = .ok (.noRequest, c')) :
    Targets c c' (urlTarget (c.str url)) := by
  unfold urlTarget
  rcases parseUrl_cases c url with ⟨-, hp⟩ | ⟨-, -, hp⟩ | ⟨k, -, -, hw, hp⟩
  · cases hp.symm.trans h
  · cases hp.symm.trans h
  · rw [hp] at h
    rw [hw, Option.map_some]
    split at h
    · cases h
    · cases hjudge : ({ c with url := some (url + k) } : HttpConn).judge (url + k) with
      | error f => rw [hjudge] at h; cases h
      | ok c₂ =>
        rw [hjudge] at h
        cases h
        simp only [judge] at hjudge
        split at hjudge
        · rename_i hone
          have hone' : (c.str (url + k)).length = 1 := hone
          obtain ⟨hurl, hcgi, hstr⟩ := strcat_str (by decide) hjudge
          refine ⟨hcgi, ?_⟩
          rw [if_pos hone']
          show c₂.url.map c₂.str = _
          rw [hurl, Option.map_some, hstr]
          rfl
        · rename_i hone
          have hone' : ¬ (c.str (url + k)).length = 1 := hone
          cases hjudge
          rw [if_neg hone']
          exact ⟨rfl, rfl⟩

theorem parseVersion_target {url : Nat} (ht : c.readBuf.Terminated url e)
    (h : c.parseVersion url = .ok (.noRequest, c')) : Targets c c' (versionTarget (c.str url)) := by
  have hle := strspn_le (c.str url) blanks
  have hu := ht.offset hle
  simp only [parseVersion] at h
  simp only [versionTarget, ← str_drop hle]
  generalize url + strspn (c.str url) blanks = u at h hu
  cases hj : strpbrk (c.str u) blanks with
  | none => rw [hj] at h; cases h
  | some j =>
    have hlt := strpbrk_lt hj
    rw [hj] at h
    simp only at h
    split at h
    · obtain ⟨hcgi, hurl⟩ := parseUrl_target h
      refine ⟨hcgi, hurl.trans ?_⟩
      rw [Option.bind_some]
      exact congrArg urlTarget (str_put (Nat.le_of_lt hlt))
    · cases h

/-- **The request line of a `GET`.** -/
theorem parseRequestLine_target {text : Nat} (ht : c.readBuf.Terminated text e)
    (hget : isGet (c.str text) = true) (h : c.parseRequestLine text = .ok (.noRequest, c')) :
    Targets c c' (lineTarget (c.str text)) := by
  unfold isGet at hget
  unfold lineTarget
  unfold parseRequestLine at h
  cases hi : strpbrk (c.str text) blanks with
  | none => rw [hi] at hget; cases hget
  | some i =>
    rw [hi] at h hget
    have hlt := strpbrk_lt hi
    have hu : c.readBuf.Terminated (text + i + 1) e := ht.offset (k := i + 1) hlt
    have hmethod : (c.put (text + i) 0).str text = (c.str text).take i := str_put (Nat.le_of_lt hlt)
    have hrest : (c.put (text + i) 0).str (text + i + 1) = (c.str text).drop (i + 1) := by
      rw [str_put_lt hu (by omega)]
      exact str_drop hlt
    simp only at h hget
    rw [if_pos (by rw [← hget, ← hmethod]; rfl)] at h
    have hcut := terminated_put_lt hu (show text + i < text + i + 1 by omega) 0
    obtain ⟨hcgi, hurl⟩ := parseVersion_target
      (c := { c.put (text + i) 0 with url := some (text + i + 1), method := .get }) hcut h
    refine ⟨hcgi, hurl.trans ?_⟩
    rw [Option.bind_some, ← hrest]
    rfl

end

end HttpConn

/-! ## The request -/

/-- A line as it is sent. -/
def crlf (line : List Byte) : List Byte := line ++ [cr, lf]

/-- Header lines, and the blank line. -/
def headBytes (headers : List (List Byte)) : List Byte := (headers.map crlf).flatten ++ crlf []

@[simp] theorem headBytes_nil : headBytes [] = [cr, lf] := rfl

@[simp] theorem headBytes_cons (line : List Byte) (headers : List (List Byte)) :
    headBytes (line :: headers) = crlf line ++ headBytes headers := by
  simp [headBytes]

/-- Text of a line: neither its end nor the end of a string. -/
def Plain (line : List Byte) : Prop := ∀ b ∈ line, b ≠ 0 ∧ b ≠ cr ∧ b ≠ lf

instance (line : List Byte) : Decidable (Plain line) := inferInstanceAs (Decidable (∀ _ ∈ _, _))

/-- The length that header lines declare, `length` before them. -/
def declaredBy (headers : List (List Byte)) (length : Int) : Int :=
  headers.foldl (fun length line => declared line length) length

/-- A `GET` request, well formed and asking for `keep-alive`. -/
structure GetRequest where
  line : List Byte
  headers : List (List Byte)
  body : List Byte
  plain : ∀ text ∈ line :: headers, Plain text
  nonempty : [] ∉ headers
  accepted : acceptsLine line = true
  get : isGet line = true
  keepAlive : headers.any isKeepAlive = true
  length : declaredBy headers 0 = body.length

namespace GetRequest

/-- Up to the body. -/
def head (q : GetRequest) : List Byte := crlf q.line ++ headBytes q.headers

/-- The bytes of the request. -/
def text (q : GetRequest) : List Byte := q.head ++ q.body

/-- The path it asks for. -/
def target (q : GetRequest) : List Byte := (lineTarget q.line).getD []

end GetRequest

theorem Plain.line {line : List Byte} (h : Plain line) : ∀ b ∈ line, b ≠ cr ∧ b ≠ lf :=
  fun b hb => (h b hb).2

theorem Plain.cword {line : List Byte} (h : Plain line) : cword line = line :=
  takeWhile_ne_iff.mpr fun hzero => (h 0 hzero).1 rfl

/-- A line in front of anything. -/
theorem scanLine_crlf {line : List Byte} (h : Plain line) (rest : List Byte) :
    scanLine (crlf line ++ rest) = (.lineOk, line.length + 2) ∧
      (crlf line ++ rest).take line.length = line ∧ (crlf line ++ rest).drop (line.length + 2) = rest := by
  have hcons : crlf line ++ rest = line ++ cr :: lf :: rest := by simp [crlf]
  rw [hcons]
  refine ⟨scanLine_line h.line rest, List.take_left' rfl, ?_⟩
  rw [List.drop_append, List.drop_eq_nil_of_le (by omega), List.nil_append,
    show line.length + 2 - line.length = 2 by omega]
  rfl

/-- A part of a line that is not all of it. -/
theorem scanLine_short {line rest w : List Byte} (h : Plain line) (hw : w <+: crlf line ++ rest)
    (hlt : w.length < line.length + 2) : (scanLine w).1 ≠ .lineOk := by
  intro hok
  obtain ⟨y, hy⟩ := hw
  have happ := scanLine_append w y
  rw [if_pos hok, hy, (scanLine_crlf h rest).1] at happ
  have hle := scanLine_le w
  rw [← happ] at hle
  exact absurd hle (by simp only; omega)

theorem headersEnd_headBytes : ∀ {headers : List (List Byte)} {n : Nat} (length : Int) {y : List Byte},
    (∀ line ∈ headers, Plain line) → [] ∉ headers → (headBytes headers ++ y).length ≤ n →
    headersEnd n length (headBytes headers ++ y) =
      if declaredBy headers length ≠ 0 then .body (headBytes headers).length (declaredBy headers length)
      else .bodyless
  | [], 0, length, y, _, _, hn => by simp at hn
  | [], n + 1, length, y, _, _, _ => by
    obtain ⟨hscan, htake, -⟩ := scanLine_crlf (show Plain [] by simp [Plain]) y
    simp only [headBytes_nil, headersEnd, show [cr, lf] ++ y = crlf [] ++ y from rfl, hscan, if_true]
    rw [show cword ((crlf [] ++ y).take (([] : List Byte).length + 2 - 2)) = [] from rfl, if_pos rfl]
    rfl
  | line :: headers, 0, length, y, _, _, hn => by simp [crlf] at hn
  | line :: headers, n + 1, length, y, hplain, hne, hn => by
    have hline := hplain line List.mem_cons_self
    obtain ⟨hscan, htake, hdrop⟩ := scanLine_crlf hline (headBytes headers ++ y)
    have hlen : (crlf line).length = line.length + 2 := by simp [crlf]
    rw [headBytes_cons, List.append_assoc, List.length_append] at hn
    have ih := headersEnd_headBytes (n := n) (declared line length) (y := y)
      (fun l hl => hplain l (List.mem_cons_of_mem _ hl)) (fun h => hne (List.mem_cons_of_mem _ h)) (by omega)
    rw [headBytes_cons, List.append_assoc, headersEnd]
    simp only [hscan, if_true, Nat.add_sub_cancel, htake, hdrop, hline.cword]
    rw [if_neg (fun h : line = [] => hne (h ▸ List.mem_cons_self)), ih, List.length_append, hlen]
    show HeadEnd.shift _ (if declaredBy headers (declared line length) ≠ 0 then _ else _) =
      if declaredBy headers (declared line length) ≠ 0 then _ else _
    split <;> rfl

/-- A part of the header lines that is not all of them. -/
theorem headersEnd_short : ∀ {headers : List (List Byte)} {n : Nat} (length : Int) {w y : List Byte},
    (∀ line ∈ headers, Plain line) → [] ∉ headers → w <+: headBytes headers ++ y →
    w.length < (headBytes headers).length → headersEnd n length w = .pending
  | _, 0, _, _, _, _, _, _, _ => rfl
  | [], n + 1, length, w, y, _, _, hw, hlt => by
    have hno := scanLine_short (show Plain [] by simp [Plain]) hw hlt
    simp only [headersEnd, if_neg hno]
  | line :: headers, n + 1, length, w, y, hplain, hne, hw, hlt => by
    have hline := hplain line List.mem_cons_self
    have hlen : (crlf line).length = line.length + 2 := by simp [crlf]
    rw [headBytes_cons, List.append_assoc] at hw
    rw [headBytes_cons, List.length_append] at hlt
    by_cases hshort : w.length < line.length + 2
    · simp only [headersEnd, if_neg (scanLine_short hline hw hshort)]
    · -- the line is whole, and the rest is not
      obtain ⟨w', rfl⟩ := List.prefix_of_prefix_length_le (List.prefix_append _ _) hw (by omega)
      have hw' : w' <+: headBytes headers ++ y := (List.prefix_append_right_inj _).mp hw
      obtain ⟨hscan, htake, hdrop⟩ := scanLine_crlf hline w'
      rw [List.length_append] at hlt
      have ih := headersEnd_short (n := n) (declared line length) (y := y)
        (fun l hl => hplain l (List.mem_cons_of_mem _ hl)) (fun h => hne (List.mem_cons_of_mem _ h)) hw'
        (by omega)
      simp only [headersEnd, hscan, if_true, Nat.add_sub_cancel, htake, hdrop, hline.cword]
      rw [if_neg (fun h : line = [] => hne (h ▸ List.mem_cons_self)), ih]
      rfl

namespace GetRequest

theorem headEnd_short (q : GetRequest) {w y : List Byte} (hw : w <+: q.head ++ y)
    (hlt : w.length < q.head.length) : headEnd w = .pending := by
  have hline := q.plain q.line List.mem_cons_self
  have hlen : (crlf q.line).length = q.line.length + 2 := by simp [crlf]
  rw [head, List.append_assoc] at hw
  rw [head, List.length_append] at hlt
  unfold headEnd
  by_cases hshort : w.length < q.line.length + 2
  · simp only [if_neg (scanLine_short hline hw hshort)]
  · obtain ⟨w', rfl⟩ := List.prefix_of_prefix_length_le (List.prefix_append _ _) hw (by omega)
    have hw' : w' <+: headBytes q.headers ++ y := (List.prefix_append_right_inj _).mp hw
    obtain ⟨hscan, htake, hdrop⟩ := scanLine_crlf hline w'
    rw [List.length_append] at hlt
    simp only [hscan, if_true, Nat.add_sub_cancel, htake, hdrop, hline.cword, q.accepted]
    rw [headersEnd_short _ (fun l hl => q.plain l (List.mem_cons_of_mem _ hl)) q.nonempty hw' (by omega)]
    rfl

theorem headEnd_head (q : GetRequest) (hbody : q.body ≠ []) :
    headEnd q.head = .body q.head.length q.body.length := by
  have hline := q.plain q.line List.mem_cons_self
  obtain ⟨hscan, htake, hdrop⟩ := scanLine_crlf hline (headBytes q.headers)
  have hpos : ((q.body.length : Nat) : Int) ≠ 0 := by
    have := List.length_pos_iff.mpr hbody
    omega
  have hend := headersEnd_headBytes (n := q.head.length) 0 (y := [])
    (fun l hl => q.plain l (List.mem_cons_of_mem _ hl)) q.nonempty (by simp [head])
  rw [List.append_nil, q.length, if_pos hpos] at hend
  unfold headEnd
  rw [show q.head = crlf q.line ++ headBytes q.headers from rfl] at hend ⊢
  simp only [hscan, if_true, Nat.add_sub_cancel, htake, hdrop, hline.cword, q.accepted]
  rw [hend, List.length_append, show (crlf q.line).length = q.line.length + 2 by simp [crlf]]
  rfl

end GetRequest

namespace HttpConn

section
variable {c f : HttpConn}

theorem with_startLine {p : Nat} (h : c.startLine = p) : ({ c with startLine := p } : HttpConn) = c := by
  cases h
  rfl

/-- A body of which nothing has arrived is waited for. -/
theorem AtLine.readLoop_body (h : c.AtLine) (hs : c.checkState = .content) (hnil : c.unchecked = [])
    (hpos : 0 < c.contentLength) (hlong : c.contentLength + c.checkedIdx ≤ longMax) :
    c.readLoop = .ok (.ret .noRequest, c) := by
  have hempty : c.readIdx - c.checkedIdx = 0 := by rw [← length_unchecked, hnil]; rfl
  have hwithin := h.within
  have hself := with_startLine h.start
  have hstep : readStep (c, .lineOk) = .ok (.inr (c, .lineOpen)) := by
    rw [readStep_body ⟨hs, rfl⟩, hself, checkText_body hs, parseContent]
    simp only
    rw [if_neg (by omega), if_neg (by omega)]
    rfl
  have hline : c.parseLine = (.lineOpen, c) := by rw [parseLine, hempty]; rfl
  rw [readLoop_eq, readFrom_next hstep, readFrom_eq, readStep_open (by simp)
    (by rw [hline]; exact fun hok => by cases hok), hline]

end

end HttpConn

/-- **A part of a request**, up to any place in its head, or to the body. -/
theorem GetRequest.waits (q : GetRequest) {f : HttpConn} (hf : f.AtRequest) {w : List Byte}
    (hw : w <+: q.text) (hhead : w.length ≤ q.head.length) (hlt : w.length < q.text.length)
    (hroom : q.text.length < readBufferSize) :
    ∃ c', (f.receive w).readLoop = .ok (.ret .noRequest, c') ∧
      ∀ y, (c'.receive y).readLoop = (f.receive (w ++ y)).readLoop := by
  have hrun := hf.headRun (w := w) (by omega)
  by_cases hshort : w.length < q.head.length
  · rw [q.headEnd_short hw hshort] at hrun
    cases hrun with
    | pending c' run resume =>
      refine ⟨c', run, fun y => ?_⟩
      rw [← HttpConn.receive_receive, resume]
  · -- the head is whole, and there is a body
    have hlen : w.length = q.head.length := by omega
    obtain ⟨z, hz⟩ := hw
    obtain rfl : w = q.head := (List.append_inj hz hlen).1
    have hbody : q.body ≠ [] := by
      rintro hnil
      rw [text, hnil, List.append_nil] at hlt
      omega
    rw [q.headEnd_head hbody] at hrun
    generalize hlength : (q.body.length : Int) = length at hrun
    cases hrun with
    | body b h state line length checked unchecked read above run =>
      have hmax : (readBufferSize : Int) + readBufferSize < longMax := by decide
      have hsum : q.text.length = q.head.length + q.body.length := by
        rw [text, List.length_append]
      have hchecked : b.checkedIdx = q.head.length := by
        rw [checked]
        show f.checkedIdx + q.head.length = _
        rw [hf.checked, Nat.zero_add]
      have hnil : b.unchecked = [] := by
        rw [unchecked, hf.unchecked_receive, List.drop_length]
      have hself := run []
      rw [HttpConn.receive_nil, HttpConn.receive_nil] at hself
      refine ⟨b, ?_, fun y => ?_⟩
      · rw [hself]
        exact line.readLoop_body state hnil (by omega) (by omega)
      · rw [← HttpConn.receive_receive, run]

namespace HttpConn

/-! ## The whole of it -/

/-- The request in front of `c` has been parsed, and what `m_url` says has not been touched. -/
structure Parsed (c c' : HttpConn) (linger : Bool) : Prop where
  linger : c'.linger = linger
  cgi : c'.cgi = c.cgi
  url : c'.url = c.url
  below : ∀ i, i < c.checkedIdx → c'.readBuf i = c.readBuf i

/-- A body that is there as a whole. -/
theorem AtLine.bodyDone {c : HttpConn} {n : Nat} (h : c.AtLine) (hs : c.checkState = .content)
    (hlen : c.contentLength = n) (hpos : 0 < n) (hfit : c.checkedIdx + n ≤ c.readIdx)
    (hroom : c.readIdx < readBufferSize) :
    c.readLoop = .ok (.doRequest, { c.put (c.checkedIdx + n) 0 with string := some c.checkedIdx }) := by
  have hmax : (readBufferSize : Int) < longMax := by decide
  have hneed : c.contentLength + (c.checkedIdx : Int) = ((c.checkedIdx + n : Nat) : Int) := by omega
  have hstop : (c.checkedIdx : Int) + c.contentLength = ((c.checkedIdx + n : Nat) : Int) := by omega
  rw [readLoop_eq, readFrom_eq, readStep_body ⟨hs, rfl⟩, with_startLine h.start, checkText_body hs, parseContent,
    h.start]
  simp only [hneed, hstop]
  rw [if_neg (by omega), if_pos (by omega), if_pos (by omega)]
  rfl

/-- The header lines, the blank line and the body, with `y` behind. The induction is on the lines. -/
theorem AtLine.headersDone {body y : List Byte} : ∀ {headers : List (List Byte)} {c : HttpConn},
    c.AtLine → c.checkState = .header → (∀ line ∈ headers, Plain line) → [] ∉ headers →
    c.unchecked = headBytes headers ++ (body ++ y) → declaredBy headers c.contentLength = body.length →
    c.readIdx < readBufferSize →
    ∃ c', c.readLoop = .ok (.doRequest, c') ∧ Parsed c c' (c.linger || headers.any isKeepAlive)
  | [], c, h, hs, _, _, hu, hlen, hroom => by
    obtain ⟨hscan, -, hdrop⟩ := scanLine_crlf (show Plain [] by simp [Plain]) (body ++ y)
    rw [show headBytes [] = crlf [] from rfl] at hu
    rw [← hu] at hscan hdrop
    obtain ⟨c₁, hc₁⟩ := h.cutLine (by rw [hs]; decide) (by rw [hscan])
    rw [hscan] at hc₁
    have hline : c₁.str c.checkedIdx = [] := hc₁.text
    have hstep := hc₁.blankTurn hs hline []
    rw [show c.contentLength = body.length from hlen] at hstep
    simp only [receive_nil] at hstep
    have hlen₁ : c₁.contentLength = body.length := hc₁.contentLength.trans hlen
    rw [List.any_nil, Bool.or_false]
    by_cases hempty : body.length = 0
    · rw [if_neg (by omega)] at hstep
      refine ⟨c₁, ?_, hc₁.linger, hc₁.cgi, hc₁.url, hc₁.below⟩
      rw [readLoop_eq, readFrom_eq, hstep]
    · -- the body is there as a whole, and is taken in the next turn
      rw [if_pos (by omega)] at hstep
      have hunchecked : c₁.readIdx - c₁.checkedIdx = body.length + y.length := by
        rw [← length_unchecked, hc₁.unchecked, hdrop, List.length_append]
      have hread := hc₁.read
      have hchecked := hc₁.checked
      let c₂ : HttpConn := { c₁ with checkState := .content }
      have hline₂ : c₂.AtLine :=
        ⟨hc₁.line.start, hc₁.line.within, hc₁.line.uncr, hc₁.line.room, hc₁.line.url⟩
      have hdone := hline₂.bodyDone rfl hlen₁ (Nat.pos_of_ne_zero hempty) (by show c₁.checkedIdx + _ ≤ c₁.readIdx; omega)
        (by show c₁.readIdx < _; omega)
      refine ⟨{ c₂.put (c₂.checkedIdx + body.length) 0 with string := some c₂.checkedIdx }, ?_, hc₁.linger,
        hc₁.cgi, hc₁.url, fun i hi => ?_⟩
      · rw [readLoop_eq, readFrom_next hstep, ← readLoop_eq]
        exact hdone
      · rw [← hc₁.below i hi]
        exact Mem.put_ne _ _ (by show i ≠ c₁.checkedIdx + _; omega)
  | line :: headers, c, h, hs, hplain, hne, hu, hlen, hroom => by
    have hline := hplain line List.mem_cons_self
    rw [headBytes_cons, List.append_assoc] at hu
    obtain ⟨hscan, htake, hdrop⟩ := scanLine_crlf hline (headBytes headers ++ (body ++ y))
    rw [← hu] at hscan htake hdrop
    obtain ⟨c₁, hc₁⟩ := h.cutLine (by rw [hs]; decide) (by rw [hscan])
    rw [hscan] at hc₁
    have htext : c₁.str c.checkedIdx = line := by
      rw [hc₁.text, show line.length + 2 - 2 = line.length by omega, htake, hline.cword]
    have hnonempty : c₁.str c.checkedIdx ≠ [] := by
      rw [htext]
      exact fun hnil => hne (hnil ▸ List.mem_cons_self)
    obtain ⟨c₂, hc₂⟩ := hc₁.headerTurn hs hnonempty
    rw [htext] at hc₂
    have hstep := hc₂.step []
    rw [receive_nil, receive_nil] at hstep
    obtain ⟨c', hrun, hlinger, hcgi, hurl, hbelow⟩ := AtLine.headersDone hc₂.line hc₂.state
      (fun l hl => hplain l (List.mem_cons_of_mem _ hl)) (fun hmem => hne (List.mem_cons_of_mem _ hmem))
      (hc₂.unchecked.trans hdrop) (by
        rw [hc₂.contentLength]
        exact hlen) (by
        rw [hc₂.read]
        exact hroom)
    have hchecked := hc₂.checked
    refine ⟨c', ?_, ?_, hcgi.trans hc₂.cgi, hurl.trans hc₂.url, fun i hi => ?_⟩
    · rw [readLoop_eq, readFrom_next hstep, ← readLoop_eq]
      exact hrun
    · rw [hlinger, hc₂.linger, List.any_cons, Bool.or_assoc]
    · rw [hbelow i (by omega), ← hc₂.below i hi]

end HttpConn

/-- An accepted line names a path. -/
theorem accepts_target {line : List Byte} (h : acceptsLine line = true) :
    ∃ target, lineTarget line = some target ∧ target.head? = some 47 := by
  unfold acceptsLine at h
  unfold lineTarget
  cases hi : strpbrk line blanks with
  | none => rw [hi] at h; cases h
  | some i =>
    rw [hi] at h
    obtain ⟨-, hversion⟩ := (Bool.and_eq_true _ _ ▸ h)
    simp only [acceptsVersion] at hversion
    simp only [Option.bind_some, versionTarget]
    cases hj : strpbrk ((line.drop (i + 1)).drop (strspn (line.drop (i + 1)) blanks)) blanks with
    | none => rw [hj] at hversion; cases hversion
    | some j =>
      rw [hj] at hversion
      obtain ⟨-, hurl⟩ := (Bool.and_eq_true _ _ ▸ hversion)
      unfold acceptsUrl at hurl
      unfold urlTarget
      rw [Option.bind_some]
      split at hurl
      · cases hurl
      · rename_i w hw
        rw [hw, Option.map_some]
        refine ⟨_, rfl, ?_⟩
        have hslash : w.head? = some 47 := of_decide_eq_true hurl
        split
        · rw [List.head?_append, hslash]
          rfl
        · exact hslash

/-- **A whole request**, whatever is behind it. -/
theorem GetRequest.done (q : GetRequest) {f : HttpConn} (hf : f.AtRequest) {y : List Byte}
    (hroom : (q.text ++ y).length < readBufferSize) :
    ∃ c', (f.receive (q.text ++ y)).readLoop = .ok (.doRequest, c') ∧ c'.linger = true ∧
      c'.cgi = f.cgi ∧ ∃ u, c'.url = some u ∧ c'.str u = q.target ∧
        u + q.target.length < readBufferSize := by
  let c : HttpConn := f.receive (q.text ++ y)
  have hread : c.readIdx = (q.text ++ y).length := by
    show f.readIdx + _ = _
    rw [hf.read, Nat.zero_add]
  have hzero : c.checkedIdx = 0 := hf.checked
  have hat : c.AtLine := hf.atLine (Nat.le_of_lt hroom)
  have hline := q.plain q.line List.mem_cons_self
  have hunchecked : c.unchecked = crlf q.line ++ (headBytes q.headers ++ (q.body ++ y)) := by
    rw [hf.unchecked_receive, text, head]
    simp only [List.append_assoc]
  obtain ⟨hscan, htake, hdrop⟩ := scanLine_crlf hline (headBytes q.headers ++ (q.body ++ y))
  rw [← hunchecked] at hscan htake hdrop
  -- the request line
  have hstate₀ : c.checkState = .requestLine := hf.state
  obtain ⟨c₁, hc₁⟩ := hat.cutLine (by rw [hstate₀]; decide) (by rw [hscan])
  rw [hscan] at hc₁
  have htext : c₁.str c.checkedIdx = q.line := by
    rw [hc₁.text, show q.line.length + 2 - 2 = q.line.length by omega, htake, hline.cword]
  have hstate : c₁.checkState = .requestLine := hc₁.state.trans hstate₀
  have hwithin := hc₁.line.within
  have hchecked := hc₁.checked
  have hread₁ := hc₁.read
  have hlocal := HttpConn.parseRequestLine_local hc₁.terminated (by simp only; omega)
  obtain ⟨c₂, hc₂⟩ := (HttpConn.parseRequestLine_accepts hc₁.terminated (by simp only; omega)).mp
    (by rw [htext]; exact q.accepted)
  have hframe := hlocal.frame hc₂
  have hbound : c.checkedIdx + (q.line.length + 2) - 1 + 1 = c₁.checkedIdx := by
    simp only at hchecked
    omega
  rw [hbound] at hframe
  have hurl : HttpConn.UrlEnds c₁.checkedIdx c₂ := hbound ▸ hlocal.url hc₂
  obtain ⟨hline₂, hunchecked₂⟩ := hc₁.line.next hframe hurl
  have hstep := hc₁.step []
  rw [HttpConn.receive_nil, HttpConn.receive_nil, HttpConn.checkText, hstate] at hstep
  have hnext : HttpConn.readStep (c, .lineOk) = .ok (.inr (c₂, .lineOk)) := by
    rw [hstep]
    simp only [hc₂]
    rfl
  have htarget := HttpConn.parseRequestLine_target hc₁.terminated (by rw [htext]; exact q.get) hc₂
  rw [htext] at htarget
  have hs₂ : c₂.checkState = .header := by
    rcases hlocal.code hc₂ with he | ⟨-, he⟩
    · cases he
    · exact he
  -- what is behind it
  have hrest : c₂.unchecked = headBytes q.headers ++ (q.body ++ y) := by
    rw [hunchecked₂, hc₁.unchecked, hdrop]
  obtain ⟨c', hrun, hlinger, hcgi, hurl', hbelow⟩ := hline₂.headersDone hs₂
    (fun l hl => q.plain l (List.mem_cons_of_mem _ hl)) q.nonempty hrest
    (by
      rw [hframe.contentLength, hc₁.contentLength, ← q.length]
      exact congrArg (declaredBy q.headers) hf.contentLength)
    (by rw [hframe.readIdx, hread₁, hread]; exact hroom)
  refine ⟨c', ?_, ?_, ?_, ?_⟩
  · show c.readLoop = _
    rw [HttpConn.readLoop_eq, HttpConn.readFrom_next hnext, ← HttpConn.readLoop_eq, hrun]
  · rw [hlinger, q.keepAlive, Bool.or_true]
  · rw [hcgi, htarget.cgi, hc₁.cgi]
    rfl
  · obtain ⟨t, ht, -⟩ := accepts_target q.accepted
    have hmap := htarget.url
    rw [ht] at hmap
    have hgetD : q.target = t := by rw [target, ht, Option.getD_some]
    cases hu : c₂.url with
    | none => rw [hu] at hmap; cases hmap
    | some u =>
      rw [hu, Option.map_some] at hmap
      have hstr : c'.str u = q.target := by
        rw [hgetD, ← Option.some.inj hmap]
        refine (Mem.cstr_congr (hurl u hu) (fun i _ hi => (hbelow i ?_).symm) _).symm
        rw [hframe.checkedIdx]
        exact hi
      have hlt : u + (c₂.str u).length < c₁.checkedIdx := (hurl u hu).length_lt _
      refine ⟨u, hurl'.trans hu, hstr, ?_⟩
      rw [hgetD, ← Option.some.inj hmap]
      omega

end Http
end LinuxServer
