import LinuxServer.Lib.CString
import LinuxServer.Lib.Loop

/-!
# `Http/Conn.lean` — the state of an `http_conn`

The fields of the class, in one flat record. Pointers into `m_read_buf` are offsets, and null is
`none`; a pointer handed to the kernel is an `Addr`, which says what it points into, so that a
pointer that has left its object is a value like any other and can be told from a good one.

`init()` is `HttpConn.init`, and what it does not assign it leaves: `m_string`, `m_file_address`,
`m_file_stat`, `m_iv` and `m_iv_count` are what the last request made of them.
-/

set_option autoImplicit false

namespace LinuxServer
namespace Http

def readBufferSize : Nat := 2048
def writeBufferSize : Nat := 1024
def filenameLen : Nat := 200

inductive Method
  | get | post | head | put | delete | trace | options | connect | path
  deriving DecidableEq, Inhabited, Repr

inductive CheckState
  | requestLine | header | content
  deriving DecidableEq, Inhabited, Repr

inductive HttpCode
  | noRequest | getRequest | badRequest | noResource | forbiddenRequest | fileRequest
  | internalError | closedConnection
  deriving DecidableEq, Repr

inductive LineStatus
  | lineOk | lineBad | lineOpen
  deriving DecidableEq, Repr

/-- What `stat` answers, as far as it is read: `st_size`, `S_IROTH` and `S_ISDIR`. -/
structure FileStat where
  size : Int
  irOth : Bool
  isDir : Bool
  deriving DecidableEq, Inhabited, Repr

/-- A `char *` for the kernel: into `m_write_buf`, or at an offset from `m_file_address`. -/
inductive Addr
  | writeBuf (offset : Int)
  | file (address : Option Nat) (offset : Int)
  deriving DecidableEq, Inhabited, Repr

structure IoVec where
  iovBase : Addr
  iovLen : Nat
  deriving DecidableEq, Inhabited, Repr

structure HttpConn where
  readBuf : Mem
  readIdx : Nat
  checkedIdx : Nat
  startLine : Nat
  writeBuf : Mem
  writeIdx : Nat
  checkState : CheckState
  method : Method
  realFile : Mem
  url : Option Nat
  version : Option Nat
  host : Option Nat
  contentLength : Int
  linger : Bool
  fileAddress : Option Nat
  fileStat : FileStat
  iv0 : IoVec
  iv1 : IoVec
  ivCount : Nat
  cgi : Nat
  /-- `m_string`: the body. -/
  string : Option Nat
  bytesToSend : Int
  bytesHaveSend : Int
  docRoot : List Byte
  deriving Inhabited

namespace HttpConn

/-- `init()`. -/
def init (c : HttpConn) : HttpConn :=
  { c with
    bytesToSend := 0
    bytesHaveSend := 0
    checkState := .requestLine
    linger := false
    method := .get
    url := none
    version := none
    contentLength := 0
    host := none
    startLine := 0
    checkedIdx := 0
    readIdx := 0
    writeIdx := 0
    cgi := 0
    readBuf := fun _ => 0
    writeBuf := fun _ => 0
    realFile := fun _ => 0 }

/-- What a `recv` that answered `x` did: the bytes stand behind those already there. -/
def receive (c : HttpConn) (x : List Byte) : HttpConn :=
  { c with readBuf := c.readBuf.blit c.readIdx x, readIdx := c.readIdx + x.length }

/-- A byte of `m_read_buf` overwritten. -/
def put (c : HttpConn) (p : Nat) (b : Byte) : HttpConn := { c with readBuf := c.readBuf.put p b }

/-- The C string at `m_read_buf + p`. -/
def str (c : HttpConn) (p : Nat) : List Byte := c.readBuf.cstr (readBufferSize - p) p

/-- `strcat(m_read_buf + p, w)`. -/
def strcat (c : HttpConn) (p : Nat) (w : List Byte) : Except Fault HttpConn :=
  let e := p + (c.str p).length
  if e + w.length < readBufferSize then .ok { c with readBuf := c.readBuf.blit e (w ++ [0]) }
  else .error .outOfBounds

end HttpConn

end Http
end LinuxServer
