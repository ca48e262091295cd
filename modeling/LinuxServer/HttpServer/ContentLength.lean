import LinuxServer.HttpServer.Chunks

/-!
# `HttpServer/ContentLength.lean` — the content length, and the memory it may come from

`_extract_content_length` declares `size_t val;` and lets `std::from_chars` fill it, which on a field
it cannot convert fills nothing: `val` is then what was in its place before. `pushChunkIn` is
`push_chunk` with these eight bytes for a parameter, so that a run on the same chunks may be made twice
with different memory.

`bytesAlone_iff` is when the two agree on all that a caller can ask of the parser: when the field, in
the header as the parser hears it, begins with a number that a `size_t` holds (`Convertible`), or there
is none.
-/

set_option autoImplicit false

namespace LinuxServer
namespace HttpServer

/-- What `std::from_chars` converts: a number at the beginning, and one that fits. -/
def Convertible (field : List Byte) : Prop :=
  field.takeWhile isdigit ≠ [] ∧ digits (field.takeWhile isdigit) < 2 ^ 64

/-- The `content-length` of a header. -/
def contentLengthField (header : List Byte) : Option (List Byte) :=
  (Http11HeaderParser.extractFields header fun _ => none).toOption.bind (· (bytes "content-length"))

/-- The `content-length` in the header as the parser hears it, when it hears its end. -/
def contentLengthHeard (chunks : List (List Byte)) : Option (List Byte) :=
  if ended [] chunks then
    (find blankLine (heard [] chunks)).bind fun pos => contentLengthField ((heard [] chunks).take pos)
  else none

theorem fromChars_eq_some_iff {field : List Byte} {n : Nat} :
    fromChars field = some n ↔ Convertible field ∧ n = digits (field.takeWhile isdigit) := by
  unfold fromChars Convertible
  by_cases hnil : field.takeWhile isdigit = []
  · simp only [hnil, if_true]
    exact iff_of_false (fun h => by cases h) fun h => h.1.1 rfl
  · by_cases hlt : digits (field.takeWhile isdigit) < 2 ^ 64
    · simp only [hnil, hlt, if_false, if_true, Option.some.injEq, ne_eq, not_false_eq_true, true_and]
      exact eq_comm
    · simp only [hnil, hlt, if_false]
      exact iff_of_false (fun h => by cases h) fun h => h.1.2

theorem fromChars_eq_none_iff {field : List Byte} : fromChars field = none ↔ ¬ Convertible field := by
  rw [Option.eq_none_iff_forall_ne_some]
  constructor
  · exact fun h hconv => h _ (fromChars_eq_some_iff.mpr ⟨hconv, rfl⟩)
  · exact fun h n hn => h (fromChars_eq_some_iff.mp hn).1

namespace HttpRequestParser

/-! ## The parser, and what is in its memory -/

/-- `_extract_content_length()`, `val` being what the memory of `val` holds before the call. -/
def extractContentLengthIn (headers : StringMap) (val : UInt64) : Nat :=
  match headers (bytes "content-length") with
  | none => 0
  | some value => (fromChars value).getD val.toNat

/-- The test for the end of the body. -/
def checkBodyIn (p : HttpRequestParser) (val : UInt64) : HttpRequestParser :=
  let contentLength := extractContentLengthIn p.headerParser.headerKeys val
  let p := { p with contentLength := contentLength }
  if contentLength ≤ p.headerParser.body.length then
    { p with
      bodyFinished := true
      headerParser.body := p.headerParser.body.take contentLength }
  else p

/-- `push_chunk(chunk)`. It calls `_extract_content_length` once, or not at all. -/
def pushChunkIn (p : HttpRequestParser) (chunk : List Byte) (val : UInt64) :
    Except Fault HttpRequestParser :=
  if ¬ p.headerParser.headerFinished then do
    let headerParser ← p.headerParser.pushChunk chunk
    let p := { p with headerParser := headerParser }
    if ¬ p.headerParser.headerFinished then return { p with contentLength := 0 }
    else return p.checkBodyIn val
  else return { p with headerParser.body := p.headerParser.body ++ chunk }.checkBodyIn val

/-- One chunk after another, each with what the memory holds at it. -/
def pushChunksIn (p : HttpRequestParser) (run : List (List Byte × UInt64)) :
    Except Fault HttpRequestParser :=
  run.foldlM (fun p (chunk, val) => p.pushChunkIn chunk val) p

/-- What a caller can ask of the parser. -/
def observed (p : HttpRequestParser) : Nat × Bool × List Byte :=
  (p.contentLength, p.needMoreChunk, p.headerParser.body)

/-- The parser depends on the chunks alone: it never reads `val` before it has a value, and two that
    get the same chunks agree, whatever the memory holds in either. -/
structure BytesAlone (chunks : List (List Byte)) : Prop where
  determinate : fresh.pushChunks chunks ≠ .error .indeterminate
  agree : ∀ run run' : List (List Byte × UInt64), run.map Prod.fst = chunks → run'.map Prod.fst = chunks →
    (fresh.pushChunksIn run).map observed = (fresh.pushChunksIn run').map observed

/-! ## With a value, the memory does not count -/

theorem extractContentLengthIn_of_ok {headers : StringMap} {length : Nat}
    (h : extractContentLength headers = .ok length) (val : UInt64) :
    extractContentLengthIn headers val = length := by
  unfold extractContentLength at h
  unfold extractContentLengthIn
  cases hvalue : headers (bytes "content-length") with
  | none =>
    rw [hvalue] at h
    cases h
    rfl
  | some value =>
    rw [hvalue] at h
    cases hval : fromChars value with
    | none => simp only [hval] at h; cases h
    | some val' =>
      simp only [hval] at h
      cases h
      simp only [hval, Option.getD_some]

theorem checkBodyIn_of_ok {p p' : HttpRequestParser} (h : p.checkBody = .ok p') (val : UInt64) :
    p.checkBodyIn val = p' := by
  obtain ⟨length, hlength, h⟩ := bind_eq_ok.mp h
  unfold checkBodyIn
  simp only [extractContentLengthIn_of_ok hlength val]
  by_cases hle : length ≤ p.headerParser.body.length
  · simp only [hle, if_true] at h ⊢
    cases h
    rfl
  · simp only [hle, if_false] at h ⊢
    cases h
    rfl

theorem pushChunkIn_of_ok {p p' : HttpRequestParser} {chunk : List Byte} (h : p.pushChunk chunk = .ok p')
    (val : UInt64) : p.pushChunkIn chunk val = .ok p' := by
  unfold pushChunk at h
  unfold pushChunkIn
  split at h
  · rename_i hopen
    obtain ⟨headerParser, hpush, h⟩ := bind_eq_ok.mp h
    rw [if_pos hopen, hpush]
    simp only [bind, Except.bind]
    by_cases hopen' : ¬ headerParser.headerFinished = true
    · rw [if_pos hopen']
      exact (if_pos hopen').symm.trans h
    · rw [if_neg hopen', checkBodyIn_of_ok ((if_neg hopen').symm.trans h)]
      rfl
  · rename_i hopen
    rw [if_neg hopen, checkBodyIn_of_ok h]
    rfl

/-- **A run that reads no indeterminate value** is what it is with any memory. -/
theorem pushChunksIn_of_ok : ∀ (run : List (List Byte × UInt64)) {p p' : HttpRequestParser},
    p.pushChunks (run.map Prod.fst) = .ok p' → p.pushChunksIn run = .ok p'
  | [], _, _, h => h
  | (chunk, val) :: run, p, p', h => by
    obtain ⟨q, hpush, h⟩ := bind_eq_ok.mp h
    exact bind_eq_ok.mpr ⟨q, pushChunkIn_of_ok hpush val, pushChunksIn_of_ok run h⟩

/-! ## The body of a request whose header has ended -/

/-- The header has ended with `keys`, and `body` is the beginning of the body. -/
structure Collecting (keys : StringMap) (body : List Byte) (p : HttpRequestParser) : Prop where
  finished : p.headerParser.headerFinished = true
  keys_eq : p.headerParser.headerKeys = keys
  body_eq : p.headerParser.body = body
  more : p.bodyFinished = false

/-- A chunk of the body. -/
theorem Collecting.pushChunkIn {keys : StringMap} {body : List Byte} {p : HttpRequestParser}
    (h : Collecting keys body p) (x : List Byte) :
    ∃ q, Collecting keys (body ++ x) q ∧ ∀ val, p.pushChunkIn x val = .ok (q.checkBodyIn val) := by
  refine ⟨{ p with headerParser.body := p.headerParser.body ++ x },
    ⟨h.finished, h.keys_eq, congrArg (· ++ x) h.body_eq, h.more⟩, fun val => ?_⟩
  rw [HttpRequestParser.pushChunkIn, if_neg (by simp [h.finished])]
  rfl

/-- The chunk with which the header ends: what is behind the blank line is the beginning of the body. -/
theorem pushChunkIn_ends {w x : List Byte} {pos : Nat} (h : find blankLine (w ++ x) = some pos) :
    ∃ keys q, contentLengthField ((w ++ x).take pos) = keys (bytes "content-length") ∧
      Collecting keys ((w ++ x).drop (pos + 4)) q ∧
      ∀ val, (unfinished w).pushChunkIn x val = .ok (q.checkBodyIn val) := by
  obtain ⟨keys, hkeys, hpush⟩ := header_pushChunk_ends h
  obtain ⟨r, hr, hfinished, hkey, hbody⟩ : ∃ r, (unfinished w).headerParser.pushChunk x = .ok r ∧
      r.headerFinished = true ∧ r.headerKeys = keys ∧ r.body = (w ++ x).drop (pos + 4) :=
    ⟨_, hpush, rfl, rfl, rfl⟩
  refine ⟨keys, { unfinished w with headerParser := r }, ?_, ⟨hfinished, hkey, hbody, rfl⟩, fun val => ?_⟩
  · rw [contentLengthField, hkeys]
    rfl
  · rw [HttpRequestParser.pushChunkIn, if_pos (by simp [unfinished]), hr]
    simp only [bind, Except.bind]
    rw [if_neg (by simp [hfinished])]
    rfl

/-! ## Without one, it does -/

/-- The header has ended, its length cannot be converted, and the parser has taken `val` for it. -/
structure Guessing (val : UInt64) (p : HttpRequestParser) : Prop where
  finished : p.headerParser.headerFinished = true
  unconverted : ∃ field, p.headerParser.headerKeys (bytes "content-length") = some field ∧ ¬ Convertible field
  guessed : p.contentLength = val.toNat

theorem extractContentLengthIn_guess {headers : StringMap} {field : List Byte}
    (hfield : headers (bytes "content-length") = some field) (hno : ¬ Convertible field) (val : UInt64) :
    extractContentLengthIn headers val = val.toNat := by
  rw [extractContentLengthIn, hfield]
  simp only [fromChars_eq_none_iff.mpr hno, Option.getD_none]

theorem checkBodyIn_guess {p : HttpRequestParser} {field : List Byte}
    (hfinished : p.headerParser.headerFinished = true)
    (hfield : p.headerParser.headerKeys (bytes "content-length") = some field)
    (hno : ¬ Convertible field) (val : UInt64) : Guessing val (p.checkBodyIn val) := by
  unfold checkBodyIn
  simp only [extractContentLengthIn_guess hfield hno val]
  split
  · exact ⟨hfinished, ⟨field, hfield, hno⟩, rfl⟩
  · exact ⟨hfinished, ⟨field, hfield, hno⟩, rfl⟩

theorem Guessing.pushChunkIn {val : UInt64} {p : HttpRequestParser} (h : Guessing val p)
    (chunk : List Byte) (val' : UInt64) : ∃ p', p.pushChunkIn chunk val' = .ok p' ∧ Guessing val' p' := by
  obtain ⟨field, hfield, hno⟩ := h.unconverted
  refine ⟨_, ?_, checkBodyIn_guess (p := { p with
    headerParser.body := p.headerParser.body ++ chunk }) h.finished hfield hno val'⟩
  rw [HttpRequestParser.pushChunkIn, if_neg (by simp [h.finished])]
  rfl

theorem Guessing.pushChunksIn {val : UInt64} : ∀ (chunks : List (List Byte)) {p : HttpRequestParser},
    Guessing val p → ∃ p', p.pushChunksIn (chunks.map (·, val)) = .ok p' ∧ Guessing val p'
  | [], p, h => ⟨p, rfl, h⟩
  | chunk :: chunks, p, h => by
    obtain ⟨q, hpush, hq⟩ := h.pushChunkIn chunk val
    obtain ⟨p', hrun, hp'⟩ := hq.pushChunksIn chunks
    exact ⟨p', bind_eq_ok.mpr ⟨q, hpush, hrun⟩, hp'⟩

/-- **A run that has to guess** takes what the memory holds. -/
theorem pushChunksIn_guess {field : List Byte} (hno : ¬ Convertible field) (val : UInt64) :
    ∀ (chunks : List (List Byte)) (w : List Byte) {pos : Nat}, ended w chunks = true →
      find blankLine (heard w chunks) = some pos →
      contentLengthField ((heard w chunks).take pos) = some field →
      ∃ p, (unfinished w).pushChunksIn (chunks.map (·, val)) = .ok p ∧ Guessing val p
  | [], w, pos, h, _, _ => by cases h
  | x :: rest, w, pos, h, hpos, hfield => by
    cases hfind : find blankLine (w ++ x) with
    | none =>
      simp only [ended, heard, hfind, if_true] at h hpos hfield
      obtain ⟨p, hrun, hp⟩ := pushChunksIn_guess hno val rest _ h hpos hfield
      exact ⟨p, bind_eq_ok.mpr ⟨_, pushChunkIn_of_ok (pushChunk_open hfind) val, hrun⟩, hp⟩
    | some pos' =>
      simp only [heard, hfind, reduceCtorEq, if_false] at hpos hfield
      rw [find_append hfind] at hpos
      cases hpos
      have hlen := find_length hfind
      rw [List.take_append_of_le_length (by omega)] at hfield
      obtain ⟨keys, q, hkeys, hq, hpush⟩ := pushChunkIn_ends hfind
      have hguess := checkBodyIn_guess hq.finished (hq.keys_eq ▸ hkeys.symm.trans hfield) hno val
      obtain ⟨p, hrun, hp⟩ := hguess.pushChunksIn rest
      exact ⟨p, bind_eq_ok.mpr ⟨_, hpush val, hrun⟩, hp⟩

/-! ## When the parser depends on the chunks alone -/

/-- A header with a field that can be converted, or none. -/
theorem declaredLength_of_convertible {header : List Byte}
    (h : ∀ field, contentLengthField header = some field → Convertible field) :
    ∃ length, declaredLength header = .ok length := by
  obtain ⟨keys, hkeys⟩ := Http11HeaderParser.extractFields_ok header fun _ => none
  rw [contentLengthField, hkeys] at h
  rw [declaredLength, hkeys]
  simp only [bind, Except.bind, extractContentLength]
  cases hfield : keys (bytes "content-length") with
  | none => exact ⟨0, rfl⟩
  | some field =>
    have hval := fromChars_eq_some_iff.mpr ⟨h field hfield, rfl⟩
    simp only [hval]
    exact ⟨_, rfl⟩

theorem pushChunks_convertible {chunks : List (List Byte)}
    (h : ∀ field, contentLengthHeard chunks = some field → Convertible field) :
    ∃ p, fresh.pushChunks chunks = .ok p := by
  cases hended : ended [] chunks with
  | false => exact ⟨_, pushChunks_open chunks [] hended⟩
  | true =>
    obtain ⟨pos, hfind, hpush⟩ := pushChunks_ends chunks [] hended
    obtain ⟨length, hlength⟩ := declaredLength_of_convertible fun field hfield => h field (by
      rw [contentLengthHeard, if_pos hended, hfind]
      exact hfield)
    rcases parsed_eq ((heard [] chunks).take pos) with ⟨f, hf, -⟩ | ⟨keys, length', -, -, hparsed⟩
    · rw [hlength] at hf
      cases hf
    · exact ⟨_, hpush.trans (hparsed _)⟩

theorem map_fst_memory (val : UInt64) (chunks : List (List Byte)) :
    (chunks.map (·, val)).map Prod.fst = chunks := by
  rw [List.map_map]
  exact List.map_id _

/-- **When the parser depends on the chunks alone**: when the length that it hears can be converted. -/
theorem bytesAlone_iff (chunks : List (List Byte)) :
    BytesAlone chunks ↔ ∀ field, contentLengthHeard chunks = some field → Convertible field := by
  constructor
  · intro h field hfield
    by_contra hno
    rw [contentLengthHeard] at hfield
    split at hfield
    · rename_i hended
      obtain ⟨pos, hpos, hfield⟩ := Option.bind_eq_some_iff.mp hfield
      -- the same chunks, with zeros in the memory and with a one
      obtain ⟨p, hrun, hp⟩ := pushChunksIn_guess hno 0 chunks [] hended hpos hfield
      obtain ⟨p', hrun', hp'⟩ := pushChunksIn_guess hno 1 chunks [] hended hpos hfield
      have hagree := h.agree _ _ (map_fst_memory 0 chunks) (map_fst_memory 1 chunks)
      rw [show fresh = unfinished [] from rfl, hrun, hrun'] at hagree
      have hlength : p.contentLength = p'.contentLength := congrArg Prod.fst (Except.ok.inj hagree)
      rw [hp.guessed, hp'.guessed] at hlength
      exact absurd hlength (by decide)
    · cases hfield
  · intro h
    obtain ⟨p, hp⟩ := pushChunks_convertible h
    refine ⟨fun hf => ?_, fun run run' hrun hrun' => ?_⟩
    · rw [hp] at hf
      cases hf
    · rw [pushChunksIn_of_ok run (by rw [hrun]; exact hp),
        pushChunksIn_of_ok run' (by rw [hrun']; exact hp)]

/-- A length that begins with a second space: with zeros in the memory the request is complete at its
    header, with a seven it is not. -/
theorem not_bytesAlone_blank : ∃ chunk, chunk = bytes "POST / HTTP/1.1\r\nContent-Length:  5\r\n\r\n" ∧
    (fresh.pushChunksIn [(chunk, 0)]).map observed = .ok (0, false, []) ∧
    (fresh.pushChunksIn [(chunk, 7)]).map observed = .ok (7, true, []) ∧ ¬ BytesAlone [chunk] := by
  obtain ⟨chunk, hchunk⟩ : ∃ chunk, chunk = bytes "POST / HTTP/1.1\r\nContent-Length:  5\r\n\r\n" :=
    ⟨_, rfl⟩
  have hzero : (fresh.pushChunksIn [(chunk, 0)]).map observed = .ok (0, false, []) := by
    rw [hchunk]
    decide +kernel
  have hseven : (fresh.pushChunksIn [(chunk, 7)]).map observed = .ok (7, true, []) := by
    rw [hchunk]
    decide +kernel
  refine ⟨chunk, hchunk, hzero, hseven, fun h => ?_⟩
  have hagree := h.agree [(chunk, 0)] [(chunk, 7)] rfl rfl
  rw [hzero, hseven] at hagree
  exact absurd hagree (by decide)

end HttpRequestParser

end HttpServer
end LinuxServer
