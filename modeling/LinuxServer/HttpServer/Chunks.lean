import LinuxServer.HttpServer.Parser

/-!
# `HttpServer/Chunks.lean` — what the request parser hears of a request that is cut into chunks

`http11_header_parser::push_chunk` appends a chunk to the header, looks for the blank line, and when
it finds none appends the chunk again. So a chunk with which the header has not ended is heard twice,
and `heard` is what the parser makes of a request: it parses these bytes, and it parses them right
(`parsed`), in however many chunks the body comes.

`pushChunks_eq_iff` is what this means for a request that is cut: the parser is left as it is by the
whole in one chunk if and only if it heard what was sent, up to the end of the declared body. A
request whose first chunk holds the whole of the header is heard as it was sent (`heard_of_first`).
-/

set_option autoImplicit false

namespace LinuxServer
namespace HttpServer

/-- The bytes as the parser hears them, the header holding `w` already. -/
def heard (w : List Byte) : List (List Byte) → List Byte
  | [] => w
  | x :: rest =>
    if find blankLine (w ++ x) = none then heard (w ++ x ++ x) rest else w ++ x ++ rest.flatten

/-- Whether the parser finds the end of the header. -/
def ended (w : List Byte) : List (List Byte) → Bool
  | [] => false
  | x :: rest => if find blankLine (w ++ x) = none then ended (w ++ x ++ x) rest else true

/-- What a header block declares the length of the body to be. -/
def declaredLength (header : List Byte) : Except Fault Nat := do
  let keys ← Http11HeaderParser.extractFields header fun _ => none
  HttpRequestParser.extractContentLength keys

/-- A way to cut a request into chunks that the parser does not notice: what it hears is the same, up
    to the end of the declared body; or, of a request whose header does not end, all that it hears
    of it, which is the request twice when it comes in one chunk. -/
def Unharmed (chunks : List (List Byte)) : Prop :=
  match find blankLine chunks.flatten with
  | some pos => ∀ length, declaredLength (chunks.flatten.take pos) = .ok length →
      (heard [] chunks).take (pos + 4 + length) = chunks.flatten.take (pos + 4 + length)
  | none => ended [] chunks = false ∧ heard [] chunks = chunks.flatten ++ chunks.flatten

/-- A request whose first chunk holds the whole of the header is heard as it was sent. -/
theorem heard_of_first {x : List Byte} {pos : Nat} (h : find blankLine x = some pos)
    (rest : List (List Byte)) : heard [] (x :: rest) = (x :: rest).flatten := by
  simp only [heard, List.nil_append, h, reduceCtorEq, if_false, List.flatten_cons]

theorem unharmed_of_first {x : List Byte} {pos : Nat} (h : find blankLine x = some pos)
    (rest : List (List Byte)) : Unharmed (x :: rest) := by
  unfold Unharmed
  rw [heard_of_first h, List.flatten_cons, find_append h]
  exact fun _ _ => rfl

namespace HttpRequestParser

/-- The parser when the header has not ended, `w` being in it. -/
def unfinished (w : List Byte) : HttpRequestParser := ⟨⟨w, [], [], fun _ => none, false⟩, 0, false⟩

/-- The parser when the header has ended: `header`, with the bytes `rest` behind the blank line. -/
def parsed (header rest : List Byte) : Except Fault HttpRequestParser := do
  let keys ← Http11HeaderParser.extractFields header fun _ => none
  let length ← extractContentLength keys
  return {
    headerParser := {
      header := header
      headingLine := substr header 0 (find crlf header)
      body := rest.take length
      headerKeys := keys
      headerFinished := true }
    contentLength := length
    bodyFinished := length ≤ rest.length }

/-! ## One chunk -/

theorem pushChunk_open {w x : List Byte} (h : find blankLine (w ++ x) = none) :
    (unfinished w).pushChunk x = .ok (unfinished (w ++ x ++ x)) := by
  simp [pushChunk, Http11HeaderParser.pushChunk, unfinished, h, bind, Except.bind, pure, Except.pure]

/-- With the header at its end, what is behind it is the body, up to the declared length. -/
theorem checkBody_eq {p : HttpRequestParser} {length : Nat}
    (h : extractContentLength p.headerParser.headerKeys = .ok length) :
    p.checkBody = .ok { p with
      contentLength := length
      bodyFinished := p.bodyFinished || decide (length ≤ p.headerParser.body.length)
      headerParser.body := p.headerParser.body.take length } := by
  rw [checkBody, h]
  simp only [bind, Except.bind]
  by_cases hle : length ≤ p.headerParser.body.length
  · simp [hle, pure, Except.pure]
  · rw [if_neg hle, List.take_of_length_le (by omega)]
    simp [hle, pure, Except.pure]

/-- The chunk with which the header ends. -/
theorem header_pushChunk_ends {w x : List Byte} {pos : Nat} (h : find blankLine (w ++ x) = some pos) :
    ∃ keys, Http11HeaderParser.extractFields ((w ++ x).take pos) (fun _ => none) = .ok keys ∧
      (unfinished w).headerParser.pushChunk x = .ok {
        header := (w ++ x).take pos
        headingLine := substr ((w ++ x).take pos) 0 (find crlf ((w ++ x).take pos))
        body := (w ++ x).drop (pos + 4)
        headerKeys := keys
        headerFinished := true } := by
  obtain ⟨keys, hkeys⟩ := Http11HeaderParser.extractFields_ok ((w ++ x).take pos) fun _ => none
  refine ⟨keys, hkeys, ?_⟩
  simp [Http11HeaderParser.pushChunk, unfinished, h, Http11HeaderParser.extractHeaders,
    Http11HeaderParser.extractHeadingLine, hkeys, bind, Except.bind, pure, Except.pure]

theorem pushChunk_ends {w x : List Byte} {pos : Nat} (h : find blankLine (w ++ x) = some pos) :
    (unfinished w).pushChunk x = parsed ((w ++ x).take pos) ((w ++ x).drop (pos + 4)) := by
  obtain ⟨keys, hkeys, hpush⟩ := header_pushChunk_ends h
  rw [parsed, hkeys, pushChunk, if_pos (by simp [unfinished]), hpush]
  simp only [bind, Except.bind]
  rw [if_neg (by simp)]
  cases hlength : extractContentLength keys with
  | error f => rw [checkBody]; simp only [hlength, bind, Except.bind]
  | ok length =>
    rw [checkBody_eq hlength]
    simp [unfinished, pure, Except.pure]

/-- Whether there is a result depends on the header alone. -/
theorem parsed_eq (header : List Byte) :
    (∃ f, declaredLength header = .error f ∧ ∀ rest, parsed header rest = .error f) ∨
    ∃ keys length, declaredLength header = .ok length ∧ extractContentLength keys = .ok length ∧
      ∀ rest, parsed header rest = .ok {
        headerParser := {
          header := header
          headingLine := substr header 0 (find crlf header)
          body := rest.take length
          headerKeys := keys
          headerFinished := true }
        contentLength := length
        bodyFinished := length ≤ rest.length } := by
  obtain ⟨keys, hkeys⟩ := Http11HeaderParser.extractFields_ok header fun _ => none
  have hdeclared : declaredLength header = extractContentLength keys := by
    rw [declaredLength, hkeys]
    rfl
  rw [hdeclared]
  cases hlength : extractContentLength keys with
  | error f =>
    refine Or.inl ⟨f, rfl, fun rest => ?_⟩
    simp only [parsed, hkeys, bind, Except.bind, hlength]
  | ok length =>
    refine Or.inr ⟨keys, length, rfl, hlength, fun rest => ?_⟩
    simp only [parsed, hkeys, bind, Except.bind, hlength]
    rfl

/-- Of a header and what is behind it, the parser is left with the header and the declared part. -/
theorem parsed_eq_iff {header rest header' rest' : List Byte} {length : Nat}
    (h : declaredLength header' = .ok length) :
    parsed header rest = parsed header' rest' ↔
      header = header' ∧ rest.take length = rest'.take length := by
  rcases parsed_eq header' with ⟨f, hf, -⟩ | ⟨keys, length', hok, -, hparsed'⟩
  · rw [h] at hf
    cases hf
  rw [h] at hok
  cases hok
  rw [hparsed']
  constructor
  · intro heq
    rcases parsed_eq header with ⟨f, -, hparsed⟩ | ⟨keys', length', hlength', -, hparsed⟩
    · rw [hparsed] at heq
      cases heq
    · rw [hparsed] at heq
      simp only [Except.ok.injEq, HttpRequestParser.mk.injEq, Http11HeaderParser.mk.injEq] at heq
      obtain ⟨⟨hheader, -, hbody, -⟩, hlen, -⟩ := heq
      exact ⟨hheader, by rwa [hlen] at hbody⟩
  · rintro ⟨rfl, hbody⟩
    have hlen := congrArg List.length hbody
    rw [List.length_take, List.length_take] at hlen
    have hfinished : decide (length ≤ rest.length) = decide (length ≤ rest'.length) :=
      decide_eq_decide.mpr (by omega)
    rw [hparsed', hbody, hfinished]

/-- **The body** may come in any chunks. -/
theorem parsed_pushChunk (header rest x : List Byte) :
    (parsed header rest >>= fun p => p.pushChunk x) = parsed header (rest ++ x) := by
  rcases parsed_eq header with ⟨f, -, hparsed⟩ | ⟨keys, length, -, hlength, hparsed⟩
  · rw [hparsed, hparsed]
    rfl
  · rw [hparsed, hparsed]
    simp only [bind, Except.bind]
    rw [pushChunk, if_neg (by simp), checkBody_eq hlength]
    by_cases hle : length ≤ rest.length
    · have htake : (rest.take length ++ x).take length = (rest ++ x).take length := by
        rw [List.take_append_of_le_length (by rw [List.length_take]; omega), List.take_take,
          Nat.min_self, List.take_append_of_le_length hle]
      have hle' : length ≤ rest.length + x.length := by omega
      simp [htake, hle, hle']
    · simp [List.take_of_length_le (show rest.length ≤ length by omega), hle]

theorem parsed_pushChunks (header : List Byte) : ∀ (chunks : List (List Byte)) (rest : List Byte),
    (parsed header rest >>= fun p => p.pushChunks chunks) = parsed header (rest ++ chunks.flatten)
  | [], rest => by
    rw [List.flatten_nil, List.append_nil]
    exact bind_pure _
  | x :: chunks, rest => by
    rw [List.flatten_cons, ← List.append_assoc, ← parsed_pushChunks header chunks,
      ← parsed_pushChunk, bind_assoc]
    rfl

/-! ## All of them -/

theorem pushChunks_cons (p : HttpRequestParser) (x : List Byte) (rest : List (List Byte)) :
    p.pushChunks (x :: rest) = p.pushChunk x >>= fun p => p.pushChunks rest := rfl

/-- What the parser is left with by a header that does not end. -/
theorem pushChunks_open : ∀ (chunks : List (List Byte)) (w : List Byte), ended w chunks = false →
    (unfinished w).pushChunks chunks = .ok (unfinished (heard w chunks))
  | [], w, _ => rfl
  | x :: rest, w, h => by
    cases hfind : find blankLine (w ++ x) with
    | none =>
      simp only [ended, hfind, if_true] at h
      simp only [heard, hfind, if_true]
      rw [pushChunks_cons, pushChunk_open hfind]
      exact pushChunks_open rest _ h
    | some pos => simp [ended, hfind] at h

/-- **What the parser is left with** by a header that ends is what it heard, parsed. -/
theorem pushChunks_ends : ∀ (chunks : List (List Byte)) (w : List Byte), ended w chunks = true →
    ∃ pos, find blankLine (heard w chunks) = some pos ∧ (unfinished w).pushChunks chunks =
      parsed ((heard w chunks).take pos) ((heard w chunks).drop (pos + 4))
  | [], w, h => nomatch h
  | x :: rest, w, h => by
    cases hfind : find blankLine (w ++ x) with
    | none =>
      simp only [ended, hfind, if_true] at h
      simp only [heard, hfind, if_true]
      rw [pushChunks_cons, pushChunk_open hfind]
      exact pushChunks_ends rest _ h
    | some pos =>
      have hlen := find_length hfind
      rw [show blankLine.length = 4 by decide] at hlen
      refine ⟨pos, ?_, ?_⟩
      · simp only [heard, hfind, reduceCtorEq, if_false]
        exact find_append hfind _
      · simp only [heard, hfind, reduceCtorEq, if_false]
        have htake : (w ++ x ++ rest.flatten).take pos = (w ++ x).take pos :=
          List.take_append_of_le_length (by omega)
        have hdrop : (w ++ x ++ rest.flatten).drop (pos + 4) = (w ++ x).drop (pos + 4) ++ rest.flatten :=
          List.drop_append_of_le_length hlen
        rw [pushChunks_cons, pushChunk_ends hfind, parsed_pushChunks, htake, hdrop]

/-- In bytes that were heard up to the end of the header, the end is found. -/
theorem ended_of_find : ∀ (chunks : List (List Byte)) (w : List Byte), chunks ≠ [] →
    ended w chunks = false → find blankLine ((heard w chunks).take (w ++ chunks.flatten).length) = none
  | [], _, hne, _ => absurd rfl hne
  | x :: rest, w, _, h => by
    cases hfind : find blankLine (w ++ x) with
    | some pos => simp [ended, hfind] at h
    | none =>
      simp only [ended, hfind, if_true] at h
      simp only [heard, hfind, if_true]
      cases rest with
      | nil =>
        rw [heard, List.flatten_cons, List.flatten_nil, List.append_nil,
          List.take_left]
        exact hfind
      | cons y rest =>
        have ih := ended_of_find (y :: rest) (w ++ x ++ x) (List.cons_ne_nil _ _) h
        refine find_none_of_prefix ih ?_
        rw [List.flatten_cons]
        refine List.take_prefix_take_left ?_
        simp only [List.length_append]
        omega

/-- The bytes up to the blank line, it, and as many behind it. -/
theorem take_of_find {s : List Byte} {pos : Nat} (h : find blankLine s = some pos) (n : Nat) :
    s.take (pos + 4 + n) = s.take pos ++ blankLine ++ (s.drop (pos + 4)).take n := by
  obtain ⟨-, rest, hrest⟩ := find_prefix h
  have hfour : (s.drop pos).take 4 = blankLine := by
    rw [← hrest]
    exact List.take_left' rfl
  rw [List.take_add, List.take_add, hfour]

theorem take_four {v w : List Byte} {pos n : Nat} (h : v.take (pos + 4 + n) = w.take (pos + 4 + n)) :
    v.take (pos + blankLine.length) = w.take (pos + blankLine.length) := by
  have htake := congrArg (List.take (pos + 4)) h
  rwa [List.take_take, List.take_take, Nat.min_eq_left (by omega)] at htake

/-- **Chunk independence, and when it holds.** However a request is cut into chunks, its header
    declaring no length or one that can be converted: the parser is left as it is by the whole in one
    chunk if and only if the cut is unharmed. -/
theorem pushChunks_eq_iff (chunks : List (List Byte))
    (hlength : ∀ pos, find blankLine chunks.flatten = some pos →
      ∃ length, declaredLength (chunks.flatten.take pos) = .ok length) :
    fresh.pushChunks chunks = fresh.pushChunks [chunks.flatten] ↔ Unharmed chunks := by
  have hfresh : fresh = unfinished [] := rfl
  rw [hfresh]
  unfold Unharmed
  cases hfind : find blankLine chunks.flatten with
  | none =>
    have hwhole : (unfinished []).pushChunks [chunks.flatten] =
        .ok (unfinished (chunks.flatten ++ chunks.flatten)) := by
      rw [pushChunks_cons, pushChunk_open (by rw [List.nil_append]; exact hfind), List.nil_append]
      rfl
    rw [hwhole]
    cases hended : ended [] chunks with
    | false =>
      rw [pushChunks_open chunks [] hended]
      simp [unfinished]
    | true =>
      -- one of them has found an end to the header
      obtain ⟨pos, -, hpush⟩ := pushChunks_ends chunks [] hended
      rw [hpush]
      rcases parsed_eq ((heard [] chunks).take pos) with ⟨f, -, hparsed⟩ | ⟨keys, length, -, -, hparsed⟩
      · simp [hparsed]
      · simp [hparsed, unfinished]
  | some pos =>
    obtain ⟨length, hdeclared⟩ := hlength pos hfind
    have hwhole : (unfinished []).pushChunks [chunks.flatten] =
        parsed (chunks.flatten.take pos) (chunks.flatten.drop (pos + 4)) := by
      rw [pushChunks_cons, pushChunk_ends (by rw [List.nil_append]; exact hfind), List.nil_append]
      exact bind_pure _
    rw [hwhole]
    have hcondition : (∀ length', declaredLength (chunks.flatten.take pos) = .ok length' →
        (heard [] chunks).take (pos + 4 + length') = chunks.flatten.take (pos + 4 + length')) ↔
        (heard [] chunks).take (pos + 4 + length) = chunks.flatten.take (pos + 4 + length) := by
      simp [hdeclared]
    refine Iff.trans ?_ hcondition.symm
    cases hended : ended [] chunks with
    | false =>
      rw [pushChunks_open chunks [] hended]
      refine iff_of_false (fun heq => ?_) fun hagree => ?_
      · rcases parsed_eq (chunks.flatten.take pos) with ⟨f, -, hparsed⟩ | ⟨keys, length', -, -, hparsed⟩
        · rw [hparsed] at heq
          cases heq
        · rw [hparsed] at heq
          simp [unfinished] at heq
      · -- the bytes were heard up to the end of the header, and the end is in them
        have hlen := find_length hfind
        have hne : chunks ≠ [] := by
          rintro rfl
          cases hfind
        have hnone := ended_of_find chunks [] hne hended
        rw [List.nil_append, find_take (find_congr hfind (take_four hagree)) hlen] at hnone
        cases hnone
    | true =>
      obtain ⟨pos', hfind', hpush⟩ := pushChunks_ends chunks [] hended
      rw [hpush, parsed_eq_iff hdeclared]
      constructor
      · rintro ⟨hheader, hbody⟩
        have hpos : pos' = pos := by
          have hle := find_length hfind
          have hle' := find_length hfind'
          have hlen := congrArg List.length hheader
          rw [List.length_take, List.length_take] at hlen
          omega
        subst hpos
        rw [take_of_find hfind', take_of_find hfind, hheader, hbody]
      · intro hagree
        have hpos := find_congr hfind (take_four hagree)
        rw [hfind'] at hpos
        cases hpos
        have hheader := congrArg (List.take pos) hagree
        rw [List.take_take, List.take_take, Nat.min_eq_left (by omega)] at hheader
        rw [take_of_find hfind', take_of_find hfind, hheader] at hagree
        exact ⟨hheader, List.append_cancel_left hagree⟩

/-- A request with a body of five bytes, cut behind the header and in the body. -/
theorem pushChunks_eq_iff_body :
    fresh.pushChunks [bytes "POST / HTTP/1.1\r\nContent-Length: 5\r\n\r\n", bytes "ab", bytes "cde"] =
      fresh.pushChunks
        [[bytes "POST / HTTP/1.1\r\nContent-Length: 5\r\n\r\n", bytes "ab", bytes "cde"].flatten] := by
  have hfirst : find blankLine (bytes "POST / HTTP/1.1\r\nContent-Length: 5\r\n\r\n") = some 34 := by
    decide +kernel
  refine (pushChunks_eq_iff _ fun pos hpos => ?_).mpr (unharmed_of_first hfirst _)
  have hfind : find blankLine
      [bytes "POST / HTTP/1.1\r\nContent-Length: 5\r\n\r\n", bytes "ab", bytes "cde"].flatten = some 34 := by
    decide +kernel
  rw [hfind] at hpos
  cases hpos
  exact ⟨5, by decide +kernel⟩

/-- A request line that comes in two chunks, the first of which is heard twice. -/
theorem pushChunks_heard_twice : ∃ chunks,
    chunks = [bytes "GET / ", bytes "HTTP/1.1\r\n\r\n"] ∧
    (fresh.pushChunks chunks).map (fun p => p.headerParser.header) = .ok (bytes "GET / GET / HTTP/1.1") ∧
    (fresh.pushChunks [chunks.flatten]).map (fun p => p.headerParser.header) =
      .ok (bytes "GET / HTTP/1.1") ∧
    (∀ pos, find blankLine chunks.flatten = some pos →
      declaredLength (chunks.flatten.take pos) = .ok 0) ∧
    fresh.pushChunks chunks ≠ fresh.pushChunks [chunks.flatten] := by
  have hcut : (fresh.pushChunks [bytes "GET / ", bytes "HTTP/1.1\r\n\r\n"]).map
      (fun p => p.headerParser.header) = .ok (bytes "GET / GET / HTTP/1.1") := by decide +kernel
  have hwhole : (fresh.pushChunks [[bytes "GET / ", bytes "HTTP/1.1\r\n\r\n"].flatten]).map
      (fun p => p.headerParser.header) = .ok (bytes "GET / HTTP/1.1") := by decide +kernel
  refine ⟨_, rfl, hcut, hwhole, fun pos hpos => ?_, fun heq => ?_⟩
  · have hfind : find blankLine [bytes "GET / ", bytes "HTTP/1.1\r\n\r\n"].flatten = some 14 := by
      decide +kernel
    rw [hfind] at hpos
    cases hpos
    decide +kernel
  · rw [heq, hwhole] at hcut
    exact absurd hcut (by decide +kernel)

end HttpRequestParser

end HttpServer
end LinuxServer
