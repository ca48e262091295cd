import LinuxServer.Http.Process

/-!
# `Http/Session.lean` — one connection, request after request

The event loop reads from a connection until `process()` has a response for it, then has `write()`
send that, and reads again if the connection is to be kept: `session` is this alternation, its labels
what `recv` and `writev` answer. In between a connection carries over what `init()` leaves it, and
nothing else.

A step is `process()` on what was read, or a step of the response that is being sent
(`Http/Write.lean`). `Session.Reset` is what is left when a response is out and the connection is kept,
which is where the next request begins.
-/

set_option autoImplicit false

namespace LinuxServer
namespace Http

/-- What `EPOLLIN` and `EPOLLOUT` are armed for. -/
inductive Phase
  | reading
  | writing
  | closed
  deriving DecidableEq, Repr

structure Session where
  phase : Phase
  /-- The connection, and how far its response has got. -/
  transfer : Transfer
  world : World
  /-- The responses that are out. -/
  responses : List (List (Option Byte))

namespace Session

/-- `read_once()` and `process()`, with the database accepting a statement or not; or a step of
    `write()`. -/
inductive Step
  | read (x : List Byte) (accepts : Bool)
  | write (i : Transfer.Step)
  deriving DecidableEq, Repr

section
variable (fs : FileSystem) (files : Files) (decode : List Byte → Option (List Byte × List Byte))

/-- `process()` on what has been read. -/
def read (s : Session) (x : List Byte) (accepts : Bool) : Except Fault Session := do
  let ((ret, opened, c), w) ← (s.transfer.conn.receive x).process fs decode accepts s.world
  return { s with
    phase := if ret = .noRequest then .reading else if opened then .writing else .closed
    transfer := ⟨c, false, none, []⟩
    world := w }

/-- A step of `write()`, and what the event loop does when it has returned: a connection is kept after
    its response if it lingers, and when there was nothing to send. -/
def write (s : Session) (i : Transfer.Step) : Except Fault Session := do
  let t ← s.transfer.exec files i
  match t.returned with
  | some .complete => return { s with
      phase := if s.transfer.conn.linger then .reading else .closed
      transfer := t
      responses := s.responses ++ [t.accepted] }
  | some .nothing => return { s with phase := .reading, transfer := t }
  | some .failed => return { s with phase := .closed, transfer := t }
  | _ => return { s with transfer := t }

def exec (s : Session) : Step → Except Fault Session
  | .read x accepts => s.read fs decode x accepts
  | .write i => s.write files i

/-- `recv` answers no more than there is room for. -/
def Enabled (s : Session) : Step → Prop
  | .read x _ => s.phase = .reading ∧ s.transfer.conn.readIdx + x.length ≤ readBufferSize
  | .write i => s.phase = .writing ∧ s.transfer.Enabled files i

instance (s : Session) : (i : Step) → Decidable (s.Enabled files i)
  | .read _ _ => inferInstanceAs (Decidable (_ ∧ _))
  | .write _ => inferInstanceAs (Decidable (_ ∧ _))

end

/-- A session that `init()` has just begun, or begun anew. -/
def Reset (s : Session) : Prop := ∃ d : HttpConn, s.transfer.conn = d.init

end Session

/-- The sessions of one connection. -/
def session (fs : FileSystem) (files : Files) (decode : List Byte → Option (List Byte × List Byte)) :
    System Session Session.Step where
  start s := s.phase = .reading ∧ s.Reset ∧ s.responses = []
  step s i s' := s.Enabled files i ∧ s.exec fs files decode i = .ok s'

/-! ## `write()` -/

namespace Transfer

section
variable {files : Files} {s s' : Transfer} {i : Step}

/-- **One step**: the response goes on to be sent, with `m_linger` and `doc_root` as they were; or it is
    out, and a connection that lingers is reset; or it has failed. -/
theorem exec_kept (he : s.Enabled files i) (h : s.exec files i = .ok s') :
    s'.conn.docRoot = s.conn.docRoot ∧
      ((s'.returned = some .complete ∧ (s.conn.linger = true → ∃ d : HttpConn, s'.conn = d.init)) ∨
        (s'.returned = some .nothing ∧ s'.conn = s.conn.init) ∨ s'.returned = some .failed ∨
        ((s'.returned = none ∨ s'.returned = some .again) ∧ s'.conn.linger = s.conn.linger)) := by
  cases leads_of_exec h with
  | nothing _ => exact ⟨rfl, Or.inr (Or.inl ⟨rfl, rfl⟩)⟩
  | enters _ => exact ⟨rfl, Or.inr (Or.inr (Or.inr ⟨he.2, rfl⟩))⟩
  | eagain => exact ⟨rfl, Or.inr (Or.inr (Or.inr ⟨Or.inr rfl, rfl⟩))⟩
  | failed => exact ⟨rfl, Or.inr (Or.inr (Or.inl rfl))⟩
  | complete k c hcounts hdone =>
    refine ⟨?_, Or.inl ⟨rfl, fun hl => ?_⟩⟩
    · show (if _ then _ else _ : HttpConn).docRoot = _
      rw [← hcounts.docRoot]
      split <;> rfl
    · refine ⟨c.unmap, if_pos ?_⟩
      exact hcounts.linger.trans hl
  | goesOn k c hcounts hmore =>
    exact ⟨hcounts.docRoot, Or.inr (Or.inr (Or.inr ⟨Or.inl rfl, hcounts.linger⟩))⟩

end

end Transfer

end Http
end LinuxServer
