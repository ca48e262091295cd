import LinuxServer.HttpServer.Serve
import LinuxServer.HttpServer.Headers
import LinuxServer.Lib.Decimal

/-!
# `HttpServer/Respond.lean` — the answer of the connection thread

When the loop of `Serve.lean` is over the thread puts the body of the request into a response, with its length in the
`Content-length` field, and writes it. A response is a header block with a body, as a request is, so the parser of the
program can take it apart, and that is how it is looked at here: what a peer with that parser gets of the response
is the body of the request, up to the length that the request declares (`answers`).

Both ways the bytes may come in any pieces, but for the header, of which no byte must come behind the first piece:
the parser hears a chunk twice with which the header does not end.
-/

set_option autoImplicit false

namespace LinuxServer
namespace HttpServer

/-- `resp`. -/
def response (reqParse : HttpRequestParser) : List Byte :=
  bytes "HTTP/1.1 200 ok\r\nServer: proanimer\r\nConnection: close\r\nContent-length: " ++
    decimal reqParse.headerParser.body.length ++ bytes "\r\n\r\n" ++ reqParse.headerParser.body

/-! ## A block that comes in pieces -/

namespace HttpRequestParser

/-- What the parser makes of a header block that declares a length. -/
def ofBlock (block : HeaderBlock) (length : Nat) : HttpRequestParser where
  headerParser := {
    header := block.header
    headingLine := block.headingLine
    body := block.body.take length
    headerKeys := block.fields
    headerFinished := true }
  contentLength := length
  bodyFinished := length ≤ block.body.length

/-- The bytes of a block: its header, the blank line, its body. -/
theorem render_cut (block : HeaderBlock) : block.render.take block.header.length = block.header ∧
    block.render.drop (block.header.length + 4) = block.body := by
  rw [block.render_eq]
  refine ⟨List.take_left, ?_⟩
  rw [← List.append_assoc]
  refine List.drop_left' ?_
  rw [List.length_append]
  rfl

/-- What the parser takes out of the header of a block. -/
theorem header_block (block : HeaderBlock) :
    Http11HeaderParser.extractFields block.header (fun _ => none) = .ok block.fields ∧
      substr block.header 0 (find crlf block.header) = block.headingLine := by
  obtain ⟨keys, hkeys, hpush⟩ := header_pushChunk_ends (w := []) (x := block.render) block.find_blankLine
  simp only [List.nil_append, (render_cut block).1] at hkeys hpush
  have hboth := hpush.symm.trans (Http11HeaderParser.pushChunk_render block)
  simp only [Except.ok.injEq, Http11HeaderParser.mk.injEq] at hboth
  obtain ⟨-, hheading, -, rfl, -⟩ := hboth
  exact ⟨hkeys, hheading⟩

/-- **A block in pieces**, the first of them with all of the header: the parser is left with the block. -/
theorem pushChunks_block (block : HeaderBlock) {length : Nat}
    (hlength : extractContentLength block.fields = .ok length) {first : List Byte} {rest : List (List Byte)}
    (hpieces : (first :: rest).flatten = block.render) (hfirst : find blankLine first ≠ none) :
    fresh.pushChunks (first :: rest) = .ok (ofBlock block length) := by
  obtain ⟨pos, hpos⟩ := Option.ne_none_iff_exists'.mp hfirst
  have hended : ended [] (first :: rest) = true := by
    simp only [ended, List.nil_append, hpos, reduceCtorEq, if_false]
  obtain ⟨pos', hpos', hpush⟩ := pushChunks_ends (first :: rest) [] hended
  rw [heard_of_first hpos, hpieces] at hpos' hpush
  rw [block.find_blankLine] at hpos'
  cases hpos'
  obtain ⟨htake, hdrop⟩ := render_cut block
  obtain ⟨hkeys, hheading⟩ := header_block block
  rw [htake, hdrop] at hpush
  rw [show fresh = unfinished [] from rfl, hpush]
  simp only [parsed, hkeys, hheading, hlength, bind, Except.bind]
  rfl

end HttpRequestParser

/-! ## The response is a block -/

/-- A field of the response. -/
theorem oneLine_decimal (n : Nat) : OneLine (decimal n) := by
  constructor
  · exact fun h => absurd (isdigit_of_mem_decimal h) (by decide)
  · exact fun h => absurd (isdigit_of_mem_decimal h) (by decide)

theorem ascii_of_all {w : List Byte} (h : w.all (· < 128) = true) : ∀ b ∈ w, b < 128 :=
  fun b hb => of_decide_eq_true (List.all_eq_true.mp h b hb)

/-- The response, for a body, as what it is made of. -/
def responseBlock (body : List Byte) : HeaderBlock where
  headingLine := bytes "HTTP/1.1 200 ok"
  oneLine := ⟨by decide, by decide⟩
  lines := [
    .field (bytes "Server") (bytes "proanimer") (ascii_of_all (by decide)) ⟨by decide, by decide⟩ (by decide)
      ⟨by decide, by decide⟩,
    .field (bytes "Connection") (bytes "close") (ascii_of_all (by decide)) ⟨by decide, by decide⟩ (by decide)
      ⟨by decide, by decide⟩,
    .field (bytes "Content-length") (decimal body.length) (ascii_of_all (by decide)) ⟨by decide, by decide⟩
      (by decide) (oneLine_decimal body.length)]
  body := body

theorem render_responseBlock (reqParse : HttpRequestParser) :
    (responseBlock reqParse.headerParser.body).render = response reqParse := by
  have hhead : bytes "HTTP/1.1 200 ok\r\nServer: proanimer\r\nConnection: close\r\nContent-length: " =
      bytes "HTTP/1.1 200 ok" ++ crlf ++ (bytes "Server" ++ colonSpace ++ bytes "proanimer" ++ crlf) ++
        (bytes "Connection" ++ colonSpace ++ bytes "close" ++ crlf) ++ (bytes "Content-length" ++ colonSpace) := by
    decide
  have hblank : bytes "\r\n\r\n" = crlf ++ crlf := by decide
  rw [response, hhead, hblank]
  simp only [HeaderBlock.render, responseBlock, List.flatMap_cons, List.flatMap_nil, HeaderLine.text,
    List.append_assoc, List.append_nil]

theorem fields_responseBlock (body : List Byte) :
    (responseBlock body).fields (bytes "content-length") = some (decimal body.length) := by
  have hserver : ¬ bytes "content-length" = (bytes "Server").map tolower := by decide
  have hconnection : ¬ bytes "content-length" = (bytes "Connection").map tolower := by decide
  have hlength : bytes "content-length" = (bytes "Content-length").map tolower := by decide
  simp only [HeaderBlock.fields, responseBlock, List.findSome?_cons, HeaderLine.value?, hserver, hconnection,
    if_false]
  rw [if_pos hlength]

/-- It declares the length that its body has. -/
theorem declared_responseBlock {body : List Byte} (hbody : body.length < 2 ^ 64) :
    HttpRequestParser.extractContentLength (responseBlock body).fields = .ok body.length := by
  unfold HttpRequestParser.extractContentLength
  rw [fields_responseBlock]
  simp only [fromChars_decimal hbody]

/-! ## The request is served -/

/-- A length that is declared is one of a `size_t`. -/
theorem extractContentLength_lt {headers : StringMap} {length : Nat}
    (h : HttpRequestParser.extractContentLength headers = .ok length) : length < 2 ^ 64 := by
  unfold HttpRequestParser.extractContentLength at h
  split at h
  · cases h
    decide
  · split at h
    · rename_i value val hval
      cases h
      obtain ⟨hconv, rfl⟩ := fromChars_eq_some_iff.mp hval
      exact hconv.2
    · cases h

section
variable (memory : Nat → UInt64) {keys : StringMap} {length : Nat}

open HttpRequestParser

/-- The body of a request that is complete. -/
theorem checkBodyIn_body {body : List Byte} {p : HttpRequestParser} (h : Collecting keys body p)
    {val : UInt64} (hdeclared : extractContentLengthIn keys val = length) (hle : length ≤ body.length) :
    (p.checkBodyIn val).headerParser.body = body.take length := by
  rw [← h.keys_eq] at hdeclared
  rw [← h.body_eq] at hle ⊢
  simp only [checkBodyIn, hdeclared, hle, if_true]

/-- A loop that has collected enough of the body, or goes on and gets it. -/
theorem collecting_result (hlength : extractContentLength keys = .ok length) :
    ∀ (pieces : List (List Byte)) {body : List Byte} {p : HttpRequestParser} (_ : Collecting keys body p)
      (_ : length ≤ (body ++ pieces.flatten).length) (n : Nat), ∃ turns reqParse,
      whileLoop (serveStep memory) turns ⟨p, pieces, n⟩ = .ok reqParse ∧
        reqParse.headerParser.body = (body ++ pieces.flatten).take length
  | [], body, p, h, hle, n => by
    obtain ⟨q, hq, hpush⟩ := h.pushChunkIn []
    have hdeclared := extractContentLengthIn_of_ok hlength (memory n)
    rw [List.flatten_nil] at hle
    have hdone := hq.checkBodyIn_done (memory n) (by rw [hdeclared]; exact hle)
    refine ⟨1, q.checkBodyIn (memory n), ?_, ?_⟩
    · rw [whileLoop, serveStep_done memory [] (hpush _) hdone]
    · rw [List.flatten_nil]
      exact checkBodyIn_body hq hdeclared hle
  | x :: pieces, body, p, h, hle, n => by
    obtain ⟨q, hq, hpush⟩ := h.pushChunkIn x
    have hdeclared := extractContentLengthIn_of_ok hlength (memory n)
    rw [List.flatten_cons, ← List.append_assoc] at hle
    rw [List.flatten_cons, ← List.append_assoc]
    rcases Nat.lt_or_ge (body ++ x).length length with hlt | hge
    · obtain ⟨hmore, hcollecting⟩ := hq.checkBodyIn_more (memory n) (by rw [hdeclared]; exact hlt)
      obtain ⟨turns, reqParse, hloop, hbody⟩ := collecting_result hlength pieces hcollecting hle (n + 1)
      refine ⟨turns + 1, reqParse, ?_, hbody⟩
      rw [whileLoop, serveStep_more memory (x :: pieces) (hpush _) hmore]
      exact hloop
    · have hdone := hq.checkBodyIn_done (memory n) (by rw [hdeclared]; exact hge)
      refine ⟨1, q.checkBodyIn (memory n), ?_, ?_⟩
      · rw [whileLoop, serveStep_done memory (x :: pieces) (hpush _) hdone]
      · rw [List.take_append_of_le_length hge]
        exact checkBodyIn_body hq hdeclared hge

/-- **A request is taken whole**: with all of its header in the first piece, and as much of its body in all of them as
    it declares, the loop ends with that much of the body. -/
theorem serve_result (block : HeaderBlock) (hlength : extractContentLength block.fields = .ok length)
    (hbody : length ≤ block.body.length) {first : List Byte} {rest : List (List Byte)}
    (hpieces : (first :: rest).flatten = block.render) (hfirst : find blankLine first ≠ none) :
    ∃ turns reqParse, whileLoop (serveStep memory) turns ⟨fresh, first :: rest, 0⟩ = .ok reqParse ∧
      reqParse.headerParser.body = block.body.take length := by
  obtain ⟨pos, hpos⟩ := Option.ne_none_iff_exists'.mp hfirst
  -- what is behind the first piece does not change where the header ends
  have hwhole := block.find_blankLine
  rw [← hpieces, List.flatten_cons, find_append hpos] at hwhole
  cases hwhole
  have hlen := find_length hpos
  rw [show blankLine.length = 4 by decide] at hlen
  obtain ⟨htake, hdrop⟩ := render_cut block
  rw [← hpieces, List.flatten_cons] at htake hdrop
  rw [List.take_append_of_le_length (by omega)] at htake
  rw [List.drop_append_of_le_length hlen] at hdrop
  obtain ⟨keys, q, hkeys, hq, hpush⟩ := pushChunkIn_ends (w := []) (x := first) hpos
  rw [List.nil_append] at hkeys hq
  change ∀ val, fresh.pushChunkIn first val = _ at hpush
  have hdeclared : extractContentLength keys = .ok length := by
    rw [← hlength]
    rw [htake, contentLengthField, (header_block block).1] at hkeys
    unfold extractContentLength
    rw [← hkeys]
    rfl
  have hval := extractContentLengthIn_of_ok hdeclared (memory 0)
  rcases Nat.lt_or_ge (first.drop (block.header.length + 4)).length length with hlt | hge
  · obtain ⟨hmore, hcollecting⟩ := hq.checkBodyIn_more (memory 0) (by rw [hval]; exact hlt)
    obtain ⟨turns, reqParse, hloop, hresult⟩ := collecting_result memory hdeclared rest hcollecting (by
      rw [hdrop]
      exact hbody) 1
    refine ⟨turns + 1, reqParse, ?_, by rw [hresult, hdrop]⟩
    rw [whileLoop, serveStep_more memory (first :: rest) (hpush _) hmore]
    exact hloop
  · have hdone := hq.checkBodyIn_done (memory 0) (by rw [hval]; exact hge)
    refine ⟨1, q.checkBodyIn (memory 0), ?_, ?_⟩
    · rw [whileLoop, serveStep_done memory (first :: rest) (hpush _) hdone]
    · rw [← hdrop, List.take_append_of_le_length hge]
      exact checkBodyIn_body hq hval hge

end

/-- **The answer**: whoever sends a request that declares the length of its body, the header with the first piece, and
    as much of a body as that, is served, whatever the memory holds; and the response, in any pieces with the header
    in the first, is read back by the parser as one that is complete, with that much of the request's body in it and
    no more. -/
theorem answers (memory : Nat → UInt64) (block : HeaderBlock) {length : Nat}
    (hlength : HttpRequestParser.extractContentLength block.fields = .ok length)
    (hbody : length ≤ block.body.length) {first : List Byte} {rest : List (List Byte)}
    (hpieces : (first :: rest).flatten = block.render) (hfirst : find blankLine first ≠ none) :
    ∃ turns reqParse, whileLoop (serveStep memory) turns ⟨HttpRequestParser.fresh, first :: rest, 0⟩ = .ok reqParse ∧
      ∀ (first' : List Byte) (rest' : List (List Byte)), (first' :: rest').flatten = response reqParse →
        find blankLine first' ≠ none →
        ∃ q, HttpRequestParser.fresh.pushChunks (first' :: rest') = .ok q ∧ q.needMoreChunk = false ∧
          q.headerParser.headingLine = bytes "HTTP/1.1 200 ok" ∧ q.contentLength = length ∧
          q.headerParser.body = block.body.take length := by
  obtain ⟨turns, reqParse, hloop, hresult⟩ := serve_result memory block hlength hbody hpieces hfirst
  have hsize : reqParse.headerParser.body.length = length := by
    rw [hresult, List.length_take]
    omega
  refine ⟨turns, reqParse, hloop, fun first' rest' hpieces' hfirst' => ?_⟩
  rw [← render_responseBlock] at hpieces'
  have hsmall : reqParse.headerParser.body.length < 2 ^ 64 := by
    rw [hsize]
    exact extractContentLength_lt hlength
  have hdeclared := declared_responseBlock hsmall
  refine ⟨_, HttpRequestParser.pushChunks_block _ hdeclared hpieces' hfirst', ?_, rfl, hsize, ?_⟩
  · simp only [HttpRequestParser.needMoreChunk, HttpRequestParser.ofBlock, responseBlock, Nat.le_refl, decide_true,
      Bool.not_true]
  · rw [← hresult]
    exact List.take_length

/-- A request with a body of five bytes in three pieces, and two bytes too many. -/
def posted : HeaderBlock where
  headingLine := bytes "POST / HTTP/1.1"
  oneLine := ⟨by decide, by decide⟩
  lines := [.field (bytes "Content-Length") (bytes "5") (ascii_of_all (by decide)) ⟨by decide, by decide⟩
    (by decide) ⟨by decide, by decide⟩]
  body := bytes "abcdefg"

theorem answers_posted : ∃ turns reqParse, whileLoop (serveStep fun _ => 0) turns ⟨HttpRequestParser.fresh,
      [bytes "POST / HTTP/1.1\r\nContent-Length: 5\r\n\r\na", bytes "bc", bytes "defg"], 0⟩ = .ok reqParse ∧
    ∀ (first' : List Byte) (rest' : List (List Byte)), (first' :: rest').flatten = response reqParse →
      find blankLine first' ≠ none →
      ∃ q, HttpRequestParser.fresh.pushChunks (first' :: rest') = .ok q ∧ q.needMoreChunk = false ∧
        q.headerParser.headingLine = bytes "HTTP/1.1 200 ok" ∧ q.contentLength = 5 ∧
        q.headerParser.body = bytes "abcde" :=
  answers (fun _ => 0) posted (by decide +kernel) (by decide) (by decide +kernel) (by decide +kernel)

end HttpServer
end LinuxServer
