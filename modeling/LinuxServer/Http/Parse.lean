import LinuxServer.Http.Conn

/-!
# `Http/Parse.lean` — `process_read` and the functions it calls

`parse_line`, `parse_request_line`, `parse_headers`, `parse_content` and the loop over them, on the
buffer they cut in place. The tests of one `if` chain that the source writes behind one another
are cut into functions where the source has no name for the part: `parseVersion` and `parseUrl` are
the second and third part of `parse_request_line`.

`do_request` is left to the caller (`Http/DoRequest.lean`): `readLoop` says whether it was reached
(`.doRequest`) or which code was returned without it. The log lines are left out.
-/

set_option autoImplicit false

namespace LinuxServer
namespace Http

def cr : Byte := 13
def lf : Byte := 10

/-- `" \t"`. -/
def blanks : List Byte := [32, 9]

namespace HttpConn

/-! ## `parse_line` -/

/-- The loop of `parse_line()`, `n` bytes before `m_read_idx`. -/
def parseLineLoop : (n : Nat) → HttpConn → LineStatus × HttpConn
  | 0, c => (.lineOpen, c)
  | n + 1, c =>
    let temp := c.readBuf c.checkedIdx
    if temp = cr then
      if c.checkedIdx + 1 = c.readIdx then (.lineOpen, c)
      else if c.readBuf (c.checkedIdx + 1) = lf then
        (.lineOk, { (c.put c.checkedIdx 0).put (c.checkedIdx + 1) 0 with
          checkedIdx := c.checkedIdx + 2 })
      else (.lineBad, c)
    else if temp = lf then
      if 1 < c.checkedIdx ∧ c.readBuf (c.checkedIdx - 1) = cr then
        (.lineOk, { (c.put (c.checkedIdx - 1) 0).put c.checkedIdx 0 with
          checkedIdx := c.checkedIdx + 1 })
      else (.lineBad, c)
    else parseLineLoop n { c with checkedIdx := c.checkedIdx + 1 }

def parseLine (c : HttpConn) : LineStatus × HttpConn :=
  parseLineLoop (c.readIdx - c.checkedIdx) c

/-! ## `parse_request_line` -/

/-- `if (strncasecmp(m_url, scheme, n) == 0) { m_url += n; m_url = strchr(m_url, '/'); }`. -/
def skipScheme (c : HttpConn) (scheme : List Byte) : Option Nat → Except Fault (Option Nat)
  | none => .error .nullPointer
  | some url =>
    if strncasecmp (c.str url) scheme then
      let url := url + scheme.length
      .ok ((strchr (c.str url) 47).map (url + ·))
    else .ok (some url)

/-- `if (strlen(m_url) == 1) strcat(m_url, "judge.html")`. -/
def judge (c : HttpConn) (url : Nat) : Except Fault HttpConn :=
  if (c.str url).length = 1 then c.strcat url (bytes "judge.html") else .ok c

/-- The third field is good: what is left is the scheme, and the path. -/
def parseUrl (c : HttpConn) (url : Nat) : Except Fault (HttpCode × HttpConn) := do
  let url ← c.skipScheme (bytes "http://") (some url)
  let url ← c.skipScheme (bytes "https://") url
  match url with
  | none => return (.badRequest, { c with url := none })
  | some url =>
    let c := { c with url := some url }
    if c.readBuf url ≠ 47 then return (.badRequest, c)
    else
      let c ← c.judge url
      return (.noRequest, { c with checkState := .header })

/-- The first field was good: the second and the third. -/
def parseVersion (c : HttpConn) (url : Nat) : Except Fault (HttpCode × HttpConn) :=
  let url := url + strspn (c.str url) blanks
  match strpbrk (c.str url) blanks with
  | none => .ok (.badRequest, { c with url := some url, version := none })
  | some j =>
    let c := c.put (url + j) 0
    let version := url + j + 1 + strspn (c.str (url + j + 1)) blanks
    let c := { c with url := some url, version := some version }
    if strcasecmp (c.str version) (bytes "HTTP/1.1") then c.parseUrl url
    else .ok (.badRequest, c)

def parseRequestLine (c : HttpConn) (text : Nat) : Except Fault (HttpCode × HttpConn) :=
  match strpbrk (c.str text) blanks with
  | none => .ok (.badRequest, { c with url := none })
  | some i =>
    let c := { c.put (text + i) 0 with url := some (text + i + 1) }
    let method := c.str text
    if strcasecmp method (bytes "GET") then
      { c with method := .get }.parseVersion (text + i + 1)
    else if strcasecmp method (bytes "POST") then
      { c with method := .post, cgi := 1 }.parseVersion (text + i + 1)
    else .ok (.badRequest, c)

/-! ## `parse_headers` and `parse_content` -/

def parseHeaders (c : HttpConn) (text : Nat) : HttpCode × HttpConn :=
  let line := c.str text
  let value (k : Nat) : Nat := text + k + strspn (c.str (text + k)) blanks
  if line = [] then
    if c.contentLength ≠ 0 then (.noRequest, { c with checkState := .content })
    else (.getRequest, c)
  else if strncasecmp line (bytes "Connection:") then
    if strcasecmp (c.str (value 11)) (bytes "keep-alive") then (.noRequest, { c with linger := true })
    else (.noRequest, c)
  else if strncasecmp line (bytes "content-length:") then
    (.noRequest, { c with contentLength := atol (c.str (value 15)) })
  else if strncasecmp line (bytes "host:") then
    (.noRequest, { c with host := some (value 5) })
  else (.noRequest, c)

def parseContent (c : HttpConn) (text : Nat) : Except Fault (HttpCode × HttpConn) :=
  let need := c.contentLength + c.checkedIdx
  if longMax < need then .error .overflow
  else if need ≤ c.readIdx then
    let stop := text + c.contentLength
    if 0 ≤ stop ∧ stop < readBufferSize then
      .ok (.getRequest, { c.put stop.toNat 0 with string := some text })
    else .error .outOfBounds
  else .ok (.noRequest, c)

/-! ## `process_read` -/

/-- How the loop of `process_read()` ends: in a code, or in `return do_request()`. -/
inductive ReadExit
  | ret (code : HttpCode)
  | doRequest
  deriving DecidableEq, Repr

/-- The `switch` of the loop, on the line at `text`: the way out, or the state and the line status
    the next turn starts from. -/
def checkText (c : HttpConn) (text : Nat) :
    Except Fault ((ReadExit × HttpConn) ⊕ (HttpConn × LineStatus)) :=
  match c.checkState with
  | .requestLine => do
    let (ret, c) ← c.parseRequestLine text
    if ret = .badRequest then return .inl (.ret .badRequest, c) else return .inr (c, .lineOk)
  | .header =>
    let (ret, c) := c.parseHeaders text
    if ret = .getRequest then .ok (.inl (.doRequest, c)) else .ok (.inr (c, .lineOk))
  | .content => do
    let (ret, c) ← c.parseContent text
    if ret = .getRequest then return .inl (.doRequest, c) else return .inr (c, .lineOpen)

/-- One turn of the loop, its condition included. -/
def readStep : HttpConn × LineStatus → Except Fault ((ReadExit × HttpConn) ⊕ (HttpConn × LineStatus))
  | (c, lineStatus) =>
    let (lineStatus, c) :=
      if c.checkState = .content ∧ lineStatus = .lineOk then (lineStatus, c) else c.parseLine
    if lineStatus ≠ .lineOk then .ok (.inl (.ret .noRequest, c))
    else { c with startLine := c.checkedIdx }.checkText c.startLine

/-- The loop. Each turn takes a line off what is unchecked, but for one on entering the body. -/
def readLoop (c : HttpConn) : Except Fault (ReadExit × HttpConn) :=
  whileLoop readStep (2 * (c.readIdx - c.checkedIdx) + 2) (c, .lineOk)

end HttpConn

end Http
end LinuxServer
