import LinuxServer.Lib.StdString
import LinuxServer.Lib.Loop

/-!
# `HttpServer/Parser.lean` — `http11_header_parser` and `http_request_parser`

The two parsers of `http_server`, as their code has them: the header parser collects chunks until
the blank line is among them, and takes the block apart; the request parser on top of it collects
the body. They share the body: what the header parser has read too much of is where the request
parser goes on.
-/

set_option autoImplicit false

namespace LinuxServer
namespace HttpServer

def crlf : List Byte := bytes "\r\n"

/-- What a header block ends with. -/
def blankLine : List Byte := bytes "\r\n\r\n"

/-- `std::map<std::string, std::string>`. -/
abbrev StringMap := List Byte → Option (List Byte)

/-- `insert({key, val})`, which leaves a key alone that is there. -/
def StringMap.insert (m : StringMap) (key val : List Byte) : StringMap :=
  fun k => if k = key then (m key).or (some val) else m k

structure Http11HeaderParser where
  header : List Byte
  headingLine : List Byte
  body : List Byte
  headerKeys : StringMap
  headerFinished : Bool

structure HttpRequestParser where
  headerParser : Http11HeaderParser
  contentLength : Nat
  bodyFinished : Bool

namespace Http11HeaderParser

/-- The field in a line, if there is one. -/
def extractField (keys : StringMap) (line : List Byte) : StringMap :=
  match find (bytes ": ") line with
  | some colon => keys.insert ((line.take colon).map tolower) (line.drop (colon + 2))
  | none => keys

/-- One turn of the loop of `_extract_headers`, from the end of a line at `pos`. -/
def extractStep (header : List Byte) :
    Option Nat × StringMap → Except Fault (StringMap ⊕ (Option Nat × StringMap))
  | (none, keys) => .ok (.inl keys)
  | (some pos, keys) =>
    let pos := pos + 2
    let nextPos := findFrom crlf header pos
    let keys := extractField keys (substr header pos nextPos)
    .ok (.inr (findFrom crlf header pos, keys))

/-- The loop. Each turn is at a later line, so there are fewer than there are bytes. -/
def extractFields (header : List Byte) (keys : StringMap) : Except Fault StringMap :=
  whileLoop (extractStep header) (header.length + 2) (find crlf header, keys)

/-- `_extract_headers()`. -/
def extractHeaders (p : Http11HeaderParser) : Except Fault Http11HeaderParser := do
  let keys ← extractFields p.header p.headerKeys
  return { p with headerKeys := keys }

/-- `_extract_heading_line()`. -/
def extractHeadingLine (p : Http11HeaderParser) : Http11HeaderParser :=
  { p with headingLine := substr p.header 0 (find crlf p.header) }

def pushChunk (p : Http11HeaderParser) (chunk : List Byte) : Except Fault Http11HeaderParser :=
  if p.headerFinished then .ok p
  else
    let p := { p with header := p.header ++ chunk }
    match find blankLine p.header with
    | some pos =>
      { p with
        headerFinished := true
        body := p.body ++ p.header.drop (pos + 4)
        header := p.header.take pos }.extractHeadingLine.extractHeaders
    | none => .ok { p with header := p.header ++ chunk }

end Http11HeaderParser

namespace HttpRequestParser

/-- `_extract_content_length()`, of the header map. A field that `from_chars` cannot convert leaves
    `val` as it was, and it was nothing. -/
def extractContentLength (headers : StringMap) : Except Fault Nat :=
  match headers (bytes "content-length") with
  | none => .ok 0
  | some value =>
    match fromChars value with
    | some val => .ok val
    | none => .error .indeterminate

/-- The test for the end of the body, which `push_chunk` makes in two places. -/
def checkBody (p : HttpRequestParser) : Except Fault HttpRequestParser := do
  let contentLength ← extractContentLength p.headerParser.headerKeys
  let p := { p with contentLength := contentLength }
  if contentLength ≤ p.headerParser.body.length then
    return { p with
      bodyFinished := true
      headerParser.body := p.headerParser.body.take contentLength }
  else return p

def pushChunk (p : HttpRequestParser) (chunk : List Byte) : Except Fault HttpRequestParser :=
  if ¬ p.headerParser.headerFinished then do
    let headerParser ← p.headerParser.pushChunk chunk
    let p := { p with headerParser := headerParser }
    if ¬ p.headerParser.headerFinished then return { p with contentLength := 0 }
    else p.checkBody
  else { p with headerParser.body := p.headerParser.body ++ chunk }.checkBody

def needMoreChunk (p : HttpRequestParser) : Bool := !p.bodyFinished

/-- A parser that was just made. -/
def fresh : HttpRequestParser := ⟨⟨[], [], [], fun _ => none, false⟩, 0, false⟩

/-- One chunk after another. -/
def pushChunks (p : HttpRequestParser) (chunks : List (List Byte)) : Except Fault HttpRequestParser :=
  chunks.foldlM pushChunk p

end HttpRequestParser

/-! ## `_extract_headers` ends -/

namespace Http11HeaderParser

theorem extractStep_decreasing (header : List Byte) : Decreasing (extractStep header)
    fun s => match s.1 with
      | none => 0
      | some pos => header.length - pos + 1 := by
  intro s s' h
  obtain ⟨pos, keys⟩ := s
  cases pos with
  | none => cases h
  | some pos =>
    cases h
    cases hnext : findFrom crlf header (pos + 2) with
    | none => exact Nat.succ_pos _
    | some next =>
      obtain ⟨q, hq, rfl⟩ := Option.map_eq_some_iff.mp hnext
      have hlen := find_length hq
      rw [List.length_drop, show crlf.length = 2 by decide] at hlen
      simp only
      omega

theorem extractFields_ok (header : List Byte) (keys : StringMap) :
    ∃ keys', extractFields header keys = .ok keys' := by
  refine whileLoop_ok (extractStep_decreasing header) ?_ ?_
  · rintro ⟨pos, keys⟩
    cases pos <;> exact ⟨_, rfl⟩
  · cases find crlf header with
    | none => exact Nat.succ_pos _
    | some pos =>
      simp only
      omega

end Http11HeaderParser

end HttpServer
end LinuxServer
