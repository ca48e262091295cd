import LinuxServer.Http.Parse

/-!
# `Http/DoRequest.lean` — `do_request`

What a parsed request is answered with: the login and registration of users, and the file that is
looked up. It reads and writes through pointers into `m_read_buf` and arrays of fixed size, and an
access that leaves one is a fault, so that a result means that there was none.

Two things outside it are what they are at the moment of the call: the file system, as far as
`stat` and `mmap` go, and the database, a table of rows with a server in front of it. The server is
given a statement and either executes it or fails. `decode` says which row the text of an `INSERT`
stands for, if it is one.
-/

set_option autoImplicit false

namespace LinuxServer
namespace Http

/-- `stat`, `none` for its failure, and the address that `mmap` answers, `open` included. -/
structure FileSystem where
  stat : List Byte → Option FileStat
  mmap : List Byte → Nat

/-- `MAP_FAILED`, which is `(void *)-1`. -/
def mapFailed : Nat := 2 ^ 64 - 1

/-- The global `users`, and the rows of the table `user`. -/
structure World where
  users : List Byte → Option (List Byte)
  table : List (List Byte × List Byte)

/-- `users.insert({name, passwd})`, which leaves a name alone that is there. -/
def World.insert (w : World) (name passwd : List Byte) : World :=
  { w with users := fun n => if n = name then (w.users name).or (some passwd) else w.users n }

/-- `mysql_query`: whether it answered 0, and the table. The server executes the statement if it is
    one and `accepts` it. -/
def World.query (decode : List Byte → Option (List Byte × List Byte)) (accepts : Bool) (w : World)
    (statement : List Byte) : Bool × World :=
  match decode statement with
  | some row => if accepts then (true, { w with table := w.table ++ [row] }) else (false, w)
  | none => (false, w)

/-- The text of `sql_insert`. -/
def sqlInsert (name passwd : List Byte) : List Byte :=
  bytes "INSERT INTO user(username,passwd) VALUES(" ++ bytes "'" ++ name ++ bytes "','" ++ passwd ++
    bytes "')"

/-- A server that reads statements as they are meant if they hold no quote but the four around the
    values, and no others. -/
def decodePlain (statement : List Byte) : Option (List Byte × List Byte) :=
  let head := bytes "INSERT INTO user(username,passwd) VALUES('"
  let values := statement.drop head.length
  let name := values.takeWhile (· ≠ 39)
  let passwd := (values.drop (name.length + 3)).takeWhile (· ≠ 39)
  if statement = sqlInsert name passwd then some (name, passwd) else none

/-- What `strncpy(dst, src, n)` writes. -/
def strncpy (src : List Byte) (n : Nat) : List Byte := src.take n ++ List.replicate (n - src.length) 0

/-! ## Registration and login

The two halves of a registration are what other workers see of it: the test, which takes no lock,
and the locked section. -/

namespace World

/-- `users.find(name) == users.end()`. -/
def unknown (w : World) (name : List Byte) : Bool := (w.users name).isNone

/-- The section under `m_lock`, and which page answers. -/
def enter (decode : List Byte → Option (List Byte × List Byte)) (accepts : Bool) (w : World)
    (name passwd : List Byte) : List Byte × World :=
  let (ok, w) := w.query decode accepts (sqlInsert name passwd)
  let w := w.insert name passwd
  (if ok then bytes "/log.html" else bytes "/registerError.html", w)

/-- The `'3'` branch. -/
def register (decode : List Byte → Option (List Byte × List Byte)) (accepts : Bool) (w : World)
    (name passwd : List Byte) : List Byte × World :=
  if w.unknown name then w.enter decode accepts name passwd else (bytes "/registerError.html", w)

/-- The `'2'` branch. -/
def login (w : World) (name passwd : List Byte) : List Byte :=
  if w.users name = some passwd then bytes "/welcome.html" else bytes "/logError.html"

end World

namespace HttpConn

/-- `strcpy(m_url, page)`. -/
def setUrl (c : HttpConn) (url : Nat) (page : List Byte) : Except Fault HttpConn :=
  if url + page.length < readBufferSize then .ok { c with readBuf := c.readBuf.blit url (page ++ [0]) }
  else .error .outOfBounds

/-- `strncpy(m_real_file + len, src, n)`. -/
def copyPath (c : HttpConn) (src : List Byte) (n : Nat) : Except Fault HttpConn :=
  let len := c.docRoot.length
  if len + n ≤ filenameLen then .ok { c with realFile := c.realFile.blit len (strncpy src n) }
  else .error .outOfBounds

/-- The loops that copy from `m_string` into `name` and `passwd`: the bytes from `p` on up to the
    first `stop`, `n` of them with the NUL that is put behind. -/
def copyField (c : HttpConn) (stop : Byte) : (n p : Nat) → Except Fault (List Byte)
  | 0, _ => .error .outOfBounds
  | n + 1, p =>
    if readBufferSize ≤ p then .error .outOfBounds
    else if c.readBuf p = stop then .ok []
    else do
      let w ← copyField c stop n (p + 1)
      return c.readBuf p :: w

/-- `name` and `passwd`, from a body `user=...&password=...`. -/
def credentials (c : HttpConn) : Except Fault (List Byte × List Byte) :=
  match c.string with
  | none => .error .nullPointer
  | some s => do
    let name ← c.copyField 38 100 (s + 5)
    let passwd ← c.copyField 0 100 (s + 5 + name.length + 10)
    -- what is made of the array is a C string
    return (name.takeWhile (· ≠ 0), passwd)

/-- The first page selection, and what a login or a registration makes of `m_url`. `p` is the last
    slash. -/
def answerForm (decode : List Byte → Option (List Byte × List Byte)) (accepts : Bool) (c : HttpConn)
    (url p : Nat) (w : World) : Except Fault (HttpConn × World) :=
  if c.cgi = 1 ∧ (c.readBuf (p + 1) = 50 ∨ c.readBuf (p + 1) = 51) then
    let urlReal := bytes "/" ++ c.str (url + 2)
    if urlReal.length < 200 then do
      let c ← c.copyPath urlReal (filenameLen - c.docRoot.length - 1)
      let (name, passwd) ← c.credentials
      if c.readBuf (p + 1) = 51 then
        if (sqlInsert name passwd).length < 200 then
          let (page, w) := w.register decode accepts name passwd
          let c ← c.setUrl url page
          return (c, w)
        else .error .outOfBounds
      else
        let c ← c.setUrl url (w.login name passwd)
        return (c, w)
    else .error .outOfBounds
  else .ok (c, w)

/-- The second: the page of a digit behind the last slash, or `m_url` itself. -/
def selectPage (c : HttpConn) (url p : Nat) : Except Fault HttpConn :=
  let digit := c.readBuf (p + 1)
  if digit = 48 then c.copyPath (bytes "/register.html") (bytes "/register.html").length.succ
  else if digit = 49 then c.copyPath (bytes "/log.html") (bytes "/log.html").length
  else if digit = 53 then c.copyPath (bytes "/picture.html") (bytes "/picture.html").length
  else if digit = 54 then c.copyPath (bytes "/video.html") (bytes "/video.html").length
  else if digit = 55 then c.copyPath (bytes "/fans.html") (bytes "/fans.html").length
  else c.copyPath (c.str url) (filenameLen - c.docRoot.length - 1)

/-- `stat` and what follows it. -/
def openFile (fs : FileSystem) (c : HttpConn) : HttpCode × HttpConn :=
  let path := c.realFile.cstr filenameLen 0
  match fs.stat path with
  | none => (.noResource, c)
  | some st =>
    let c := { c with fileStat := st }
    if ¬ st.irOth then (.forbiddenRequest, c)
    else if st.isDir then (.badRequest, c)
    else (.fileRequest, { c with fileAddress := some (fs.mmap path) })

/-- `strcpy(m_real_file, doc_root)`. -/
def copyRoot (c : HttpConn) : Except Fault HttpConn :=
  if c.docRoot.length < filenameLen then
    .ok { c with realFile := c.realFile.blit 0 (c.docRoot ++ [0]) }
  else .error .outOfBounds

/-- `strrchr(m_url, '/')`; the code dereferences what it answers. -/
def lastSlash (c : HttpConn) (url : Nat) : Except Fault Nat :=
  match strrchr (c.str url) 47 with
  | some i => .ok (url + i)
  | none => .error .nullPointer

def doRequest (fs : FileSystem) (decode : List Byte → Option (List Byte × List Byte)) (accepts : Bool)
    (c : HttpConn) (w : World) : Except Fault ((HttpCode × HttpConn) × World) :=
  match c.url with
  | none => .error .nullPointer
  | some url => do
    let c ← c.copyRoot
    let p ← c.lastSlash url
    let (c, w) ← c.answerForm decode accepts url p w
    let c ← c.selectPage url p
    return (c.openFile fs, w)

/-- `process_read()`. -/
def processRead (fs : FileSystem) (decode : List Byte → Option (List Byte × List Byte))
    (accepts : Bool) (c : HttpConn) (w : World) : Except Fault ((HttpCode × HttpConn) × World) := do
  let (exit, c) ← c.readLoop
  match exit with
  | .ret code => return ((code, c), w)
  | .doRequest => c.doRequest fs decode accepts w

end HttpConn

end Http
end LinuxServer
