import LinuxServer.Http.Conn
import LinuxServer.Lib.CInt

/-!
# `Http/Response.lean` — `process_write` and the `add_*` functions

Each piece of a response is formatted by `vsnprintf` at the end of what `m_write_buf` holds. The
formatted text of a piece is an argument of `addResponse` here, and the functions that call it are
the source's, with the text each of their formats gives.

`process_write` ignores what `add_status_line` and `add_headers` return. It may: a piece is dropped
only for lack of room, and from an empty buffer none is (`processWrite_eq`), so that what
`m_write_buf` holds in the end is the response whole, and `process_write` never fails.
-/

set_option autoImplicit false

namespace LinuxServer
namespace Http

def ok200Title : List Byte := bytes "OK"
def error403Title : List Byte := bytes "Forbidden"
def error403Form : List Byte := bytes "You do not have permission to get file form this server.\n"
def error404Title : List Byte := bytes "Not Found"
def error404Form : List Byte := bytes "The requested file was not found on this server.\n"
def error500Title : List Byte := bytes "Internal Error"
def error500Form : List Byte := bytes "There was an unusual problem serving the request file.\n"

/-- What is sent for a file that is empty. -/
def okString : List Byte := bytes "<html><body></body></html>"

/-! ## The texts of the formats -/

/-- `"%s %d %s\r\n"`, of `HTTP/1.1`, the status and its title. -/
def statusLine (status : Int) (title : List Byte) : List Byte :=
  bytes "HTTP/1.1 " ++ decimal status ++ bytes " " ++ title ++ bytes "\r\n"

/-- `"Content-Length:%d\r\n"`. -/
def contentLengthLine (contentLen : Int) : List Byte :=
  bytes "Content-Length:" ++ decimal contentLen ++ bytes "\r\n"

/-- `"Connection:%s\r\n"`. -/
def lingerLine (linger : Bool) : List Byte :=
  bytes "Connection:" ++ bytes (if linger then "keep-alive" else "close") ++ bytes "\r\n"

namespace HttpConn

/-! ## `add_response` -/

/-- One call of `add_response`. The text is cut to what has room, its NUL included, and is given up
    again by leaving `m_write_idx` if it was cut. -/
def addResponse (c : HttpConn) (text : List Byte) : Bool × HttpConn :=
  if writeBufferSize ≤ c.writeIdx then (false, c)
  else
    let room := writeBufferSize - 1 - c.writeIdx
    let written := if room = 0 then [] else text.take (room - 1) ++ [0]
    let c := { c with writeBuf := c.writeBuf.blit c.writeIdx written }
    if room ≤ text.length then (false, c)
    else (true, { c with writeIdx := c.writeIdx + text.length })

def addStatusLine (c : HttpConn) (status : Int) (title : List Byte) : Bool × HttpConn :=
  c.addResponse (statusLine status title)

def addContentLength (c : HttpConn) (contentLen : Int) : Bool × HttpConn :=
  c.addResponse (contentLengthLine contentLen)

def addLinger (c : HttpConn) : Bool × HttpConn := c.addResponse (lingerLine c.linger)

def addBlankLine (c : HttpConn) : Bool × HttpConn := c.addResponse (bytes "\r\n")

def addContent (c : HttpConn) (content : List Byte) : Bool × HttpConn := c.addResponse content

/-- `add_headers(content_len)`, a chain of `&&`. The parameter is an `int`. -/
def addHeaders (c : HttpConn) (contentLen : Int) : Bool × HttpConn :=
  let (ok, c) := c.addContentLength (toInt contentLen)
  if ok then
    let (ok, c) := c.addLinger
    if ok then c.addBlankLine else (false, c)
  else (false, c)

/-! ## `process_write` -/

/-- The end of `process_write`: `m_write_buf` is all there is to send. -/
def sendBuffer (c : HttpConn) : HttpConn :=
  { c with
    iv0 := ⟨.writeBuf 0, c.writeIdx⟩
    ivCount := 1
    bytesToSend := c.writeIdx }

/-- The end of its `FILE_REQUEST` case: `m_write_buf`, and the file behind it. -/
def sendFile (c : HttpConn) : HttpConn :=
  { c with
    iv0 := ⟨.writeBuf 0, c.writeIdx⟩
    iv1 := ⟨.file c.fileAddress 0, toSize c.fileStat.size⟩
    ivCount := 2
    bytesToSend := toInt (c.writeIdx + c.fileStat.size) }

/-- A `case` that answers with a text of its own. -/
def sendPage (c : HttpConn) (status : Int) (title form : List Byte) : Bool × HttpConn :=
  let (_, c) := c.addStatusLine status title
  let (_, c) := c.addHeaders form.length
  let (ok, c) := c.addContent form
  if ok then (true, c.sendBuffer) else (false, c)

/-- `process_write(ret)`. For the verdicts it has no `case` for it leaves everything as it is. -/
def processWrite (c : HttpConn) (ret : HttpCode) : Bool × HttpConn :=
  match ret with
  | .internalError => c.sendPage 500 error500Title error500Form
  | .badRequest => c.sendPage 404 error404Title error404Form
  | .forbiddenRequest => c.sendPage 403 error403Title error403Form
  | .fileRequest =>
    let (_, c) := c.addStatusLine 200 ok200Title
    if c.fileStat.size ≠ 0 then
      let (_, c) := c.addHeaders c.fileStat.size
      (true, c.sendFile)
    else
      let (_, c) := c.addHeaders okString.length
      let (ok, c) := c.addContent okString
      if ok then (true, c.sendBuffer) else (false, c)
  | _ => (true, c)

/-! ## From an empty buffer -/

/-- The text behind what `m_write_buf` holds, with its NUL. -/
def append (c : HttpConn) (text : List Byte) : HttpConn :=
  { c with
    writeBuf := c.writeBuf.blit c.writeIdx (text ++ [0])
    writeIdx := c.writeIdx + text.length }

@[simp] theorem append_writeIdx (c : HttpConn) (text : List Byte) :
    (c.append text).writeIdx = c.writeIdx + text.length := rfl

@[simp] theorem append_linger (c : HttpConn) (text : List Byte) :
    (c.append text).linger = c.linger := rfl

@[simp] theorem append_fileStat (c : HttpConn) (text : List Byte) :
    (c.append text).fileStat = c.fileStat := rfl

theorem append_append (c : HttpConn) (v w : List Byte) : (c.append v).append w = c.append (v ++ w) := by
  have hbuf : (c.writeBuf.blit c.writeIdx (v ++ [0])).blit (c.writeIdx + v.length) (w ++ [0]) =
      c.writeBuf.blit c.writeIdx (v ++ w ++ [0]) := by
    -- the NUL behind `v` is written over
    rw [← Mem.blit_append c.writeBuf c.writeIdx v [0], Mem.blit_over _ _ (by simp), Mem.blit_append,
      List.append_assoc]
  simp only [append, hbuf, List.length_append, Nat.add_assoc]

/-- A piece that has room. -/
theorem addResponse_eq {c : HttpConn} {text : List Byte}
    (h : c.writeIdx + text.length + 2 ≤ writeBufferSize) : c.addResponse text = (true, c.append text) := by
  unfold addResponse
  rw [if_neg (by omega)]
  simp only
  rw [if_neg (by omega), if_neg (by omega), List.take_of_length_le (by omega)]
  rfl

/-- The headers, as one text. -/
def headerLines (contentLen : Int) (linger : Bool) : List Byte :=
  contentLengthLine (toInt contentLen) ++ (lingerLine linger ++ bytes "\r\n")

theorem length_headerLines (contentLen : Int) (linger : Bool) :
    (headerLines contentLen linger).length ≤ 53 := by
  have hint := toInt_le contentLen
  unfold intMin intMax at hint
  have hdec := length_decimal (n := toInt contentLen) (by omega)
  have hlinger : (lingerLine linger).length ≤ 23 := by cases linger <;> decide
  have hname : (bytes "Content-Length:").length = 15 := by decide
  have hcrlf : (bytes "\r\n").length = 2 := by decide
  simp only [headerLines, contentLengthLine, List.length_append, hname, hcrlf]
  omega

theorem addHeaders_eq {c : HttpConn} {contentLen : Int} (h : c.writeIdx + 55 ≤ writeBufferSize) :
    c.addHeaders contentLen = (true, c.append (headerLines contentLen c.linger)) := by
  have hlen := length_headerLines contentLen c.linger
  unfold headerLines at hlen ⊢
  simp only [List.length_append] at hlen
  unfold addHeaders addContentLength addLinger addBlankLine
  rw [addResponse_eq (by omega)]
  simp only [if_true]
  rw [append_linger, addResponse_eq (by simp only [append_writeIdx]; omega)]
  simp only [if_true]
  rw [addResponse_eq (by simp only [append_writeIdx]; omega), append_append, append_append]

/-- A status line that is one of the four. -/
theorem addStatusLine_eq {c : HttpConn} {status : Int} {title : List Byte}
    (h : c.writeIdx = 0) (hline : (statusLine status title).length ≤ 100) :
    c.addStatusLine status title = (true, c.append (statusLine status title)) :=
  addResponse_eq (by rw [h, Nat.zero_add]; unfold writeBufferSize; omega)

/-- A page of the server's own, as one text. -/
def page (status : Int) (title form : List Byte) (linger : Bool) : List Byte :=
  statusLine status title ++ headerLines form.length linger ++ form

theorem sendPage_eq {c : HttpConn} {status : Int} {title form : List Byte} (h : c.writeIdx = 0)
    (hline : (statusLine status title).length ≤ 100) (hform : form.length ≤ 100) :
    c.sendPage status title form = (true, (c.append (page status title form c.linger)).sendBuffer) := by
  have hlen := length_headerLines form.length c.linger
  have hsize : writeBufferSize = 1024 := rfl
  unfold sendPage addContent
  rw [addStatusLine_eq h hline]
  simp only
  rw [addHeaders_eq (by simp only [append_writeIdx]; omega), append_linger, append_append]
  simp only
  rw [addResponse_eq (by simp only [append_writeIdx, List.length_append]; omega), append_append]
  rfl

/-- The text that `process_write` puts into `m_write_buf`. -/
def responseText (ret : HttpCode) (size : Int) (linger : Bool) : List Byte :=
  match ret with
  | .internalError => page 500 error500Title error500Form linger
  | .badRequest => page 404 error404Title error404Form linger
  | .forbiddenRequest => page 403 error403Title error403Form linger
  | .fileRequest =>
    if size ≠ 0 then statusLine 200 ok200Title ++ headerLines size linger
    else page 200 ok200Title okString linger
  | _ => []

/-- The verdicts that `process_write` has a response for. -/
def answered : HttpCode → Bool
  | .internalError | .badRequest | .forbiddenRequest | .fileRequest => true
  | _ => false

/-- **`process_write` from an empty buffer** never fails, and drops nothing. -/
theorem processWrite_eq {c : HttpConn} (h : c.writeIdx = 0) (ret : HttpCode) :
    c.processWrite ret = (true,
      if answered ret then
        let c' := c.append (responseText ret c.fileStat.size c.linger)
        if ret = .fileRequest ∧ c.fileStat.size ≠ 0 then c'.sendFile else c'.sendBuffer
      else c) := by
  cases ret with
  | internalError => exact sendPage_eq h (by decide) (by decide)
  | badRequest => exact sendPage_eq h (by decide) (by decide)
  | forbiddenRequest => exact sendPage_eq h (by decide) (by decide)
  | fileRequest =>
    by_cases hsize : c.fileStat.size ≠ 0
    · have hline : (statusLine 200 ok200Title).length ≤ 100 := by decide
      have hroom : writeBufferSize = 1024 := rfl
      simp only [processWrite, addStatusLine_eq h hline]
      rw [append_fileStat, if_pos hsize, addHeaders_eq (by simp only [append_writeIdx]; omega), append_linger,
        append_append]
      simp only [answered, if_true, responseText, if_pos hsize]
      rw [if_pos ⟨trivial, hsize⟩]
    · have hline : (statusLine 200 ok200Title).length ≤ 100 := by decide
      have hform : okString.length ≤ 100 := by decide
      have hpage := sendPage_eq h hline hform
      have heq : c.processWrite .fileRequest = c.sendPage 200 ok200Title okString := by
        simp only [processWrite, sendPage, addStatusLine_eq h hline]
        rw [append_fileStat, if_neg hsize]
      rw [heq, hpage]
      simp only [answered, if_true, responseText, hsize, and_false, if_false]
  | noRequest => rfl
  | getRequest => rfl
  | noResource => rfl
  | closedConnection => rfl

/-! ## What is not assigned -/

/-- The connection but for what `process_write` assigns. -/
def unsent (c : HttpConn) : HttpConn :=
  { c with
    writeBuf := fun _ => 0
    writeIdx := 0
    iv0 := default
    iv1 := default
    ivCount := 0
    bytesToSend := 0 }

theorem addResponse_unsent (c : HttpConn) (text : List Byte) : (c.addResponse text).2.unsent = c.unsent := by
  unfold addResponse
  simp only
  split
  · rfl
  · split
    · rfl
    · rfl

theorem addHeaders_unsent (c : HttpConn) (n : Int) : (c.addHeaders n).2.unsent = c.unsent := by
  simp only [addHeaders]
  split
  · split
    · exact (addResponse_unsent ..).trans ((addResponse_unsent ..).trans (addResponse_unsent ..))
    · exact (addResponse_unsent ..).trans (addResponse_unsent ..)
  · exact addResponse_unsent ..

theorem addStatusLine_unsent (c : HttpConn) (status : Int) (title : List Byte) :
    (c.addStatusLine status title).2.unsent = c.unsent := addResponse_unsent ..

theorem addContent_unsent (c : HttpConn) (content : List Byte) :
    (c.addContent content).2.unsent = c.unsent := addResponse_unsent ..

theorem sendBuffer_unsent (c : HttpConn) : c.sendBuffer.unsent = c.unsent := rfl

theorem sendFile_unsent (c : HttpConn) : c.sendFile.unsent = c.unsent := rfl

theorem sendPage_unsent (c : HttpConn) (status : Int) (title form : List Byte) :
    (c.sendPage status title form).2.unsent = c.unsent := by
  simp only [sendPage]
  split
  · simp only [sendBuffer_unsent, addContent_unsent, addHeaders_unsent, addStatusLine_unsent]
  · simp only [addContent_unsent, addHeaders_unsent, addStatusLine_unsent]

/-- **`process_write` assigns its own fields only.** -/
theorem processWrite_unsent (c : HttpConn) (ret : HttpCode) : (c.processWrite ret).2.unsent = c.unsent := by
  cases ret with
  | internalError => exact sendPage_unsent c 500 error500Title error500Form
  | badRequest => exact sendPage_unsent c 404 error404Title error404Form
  | forbiddenRequest => exact sendPage_unsent c 403 error403Title error403Form
  | fileRequest =>
    simp only [processWrite]
    split
    · simp only [sendFile_unsent, addHeaders_unsent, addStatusLine_unsent]
    · split
      · simp only [sendBuffer_unsent, addContent_unsent, addHeaders_unsent, addStatusLine_unsent]
      · simp only [addContent_unsent, addHeaders_unsent, addStatusLine_unsent]
  | _ => rfl

end HttpConn
end Http
end LinuxServer
