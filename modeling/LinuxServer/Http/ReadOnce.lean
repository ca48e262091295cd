import LinuxServer.Http.Lines

/-!
# `Http/ReadOnce.lean` — `read_once`

`read_once` reads what the socket holds into the rest of `m_read_buf`. In the level-triggered mode it makes one
`recv` and adds what that answers to `m_read_idx` before it looks at it, so that a socket with nothing to
read, which answers -1, moves the index back. In the edge-triggered mode it goes on until a `recv` answers
-1; when the buffer is full before the socket is empty, `recv` is called for no bytes, and its 0 is taken
for the end of the connection.

Where neither happens `read_once` does what it should in both modes (`readOnce_iff`).
-/

set_option autoImplicit false

namespace LinuxServer
namespace Http

/-- What the other side has done, as far as a socket knows. -/
inductive Peer
  | connected
  | closed
  | failed
  deriving DecidableEq, Repr

/-- A non-blocking socket: what is to be read from it, and its peer. -/
structure Socket where
  pending : List Byte
  peer : Peer
  deriving DecidableEq, Repr

/-- What `recv` answers: so many bytes, or -1 and `errno`. -/
inductive RecvAnswer
  | received (n : Nat)
  /-- `EAGAIN`, or `EWOULDBLOCK`. -/
  | again
  | error
  deriving DecidableEq, Repr

/-- `bytes_read`. -/
def RecvAnswer.value : RecvAnswer → Int
  | .received n => n
  | .again => -1
  | .error => -1

/-- What it answers when there is nothing to be read. -/
def Peer.answer : Peer → RecvAnswer
  | .connected => .again
  | .closed => .received 0
  | .failed => .error

/-- The part of a connection that `read_once` works on. The index may be moved below zero. -/
structure Inbox where
  readBuf : Mem
  readIdx : Int
  socket : Socket

namespace Inbox

/-- `recv(m_sockfd, m_read_buf + m_read_idx, READ_BUFFER_SIZE - m_read_idx, 0)`. -/
def recv (s : Inbox) : RecvAnswer × Inbox :=
  let n := (readBufferSize - s.readIdx).toNat
  if s.socket.pending ≠ [] then
    let w := s.socket.pending.take n
    (.received w.length, { s with
      readBuf := s.readBuf.blit s.readIdx.toNat w
      socket := { s.socket with pending := s.socket.pending.drop n } })
  else (s.socket.peer.answer, s)

/-- The level-triggered branch. -/
def readLevel (s : Inbox) : Bool × Inbox :=
  let (answer, s) := s.recv
  let s := { s with readIdx := s.readIdx + answer.value }
  if answer.value ≤ 0 then (false, s) else (true, s)

/-- One turn of the loop of the edge-triggered one. -/
def edgeStep (s : Inbox) : Except Fault ((Bool × Inbox) ⊕ Inbox) :=
  match s.recv with
  | (.again, s) => .ok (.inl (true, s))
  | (.error, s) => .ok (.inl (false, s))
  | (.received n, s) =>
    if n = 0 then .ok (.inl (false, s)) else .ok (.inr { s with readIdx := s.readIdx + n })

/-- It ends, since each turn that goes on takes bytes out of the socket. -/
def readEdge (s : Inbox) : Except Fault (Bool × Inbox) :=
  whileLoop edgeStep (s.socket.pending.length + 1) s

/-- `read_once()`. -/
def readOnce (trigMode : Int) (s : Inbox) : Except Fault (Bool × Inbox) :=
  if (readBufferSize : Int) ≤ s.readIdx then .ok (false, s)
  else if trigMode = 0 then .ok s.readLevel
  else s.readEdge

end Inbox

namespace HttpConn

/-- A connection and its socket, as `read_once` finds them. -/
def inbox (c : HttpConn) (socket : Socket) : Inbox := ⟨c.readBuf, c.readIdx, socket⟩

end HttpConn

namespace Inbox

/-- What is pending and has room. -/
def taken (c : HttpConn) (socket : Socket) : List Byte :=
  socket.pending.take (readBufferSize - c.readIdx)

/-- **`read_once` fails only for a reason**: it comes to an end; when it answers `false` the peer has closed or
    the socket is in error; when it answers `true` the buffer has been extended by what is pending and has
    room; and the index has not gone down. -/
def Reads (trigMode : Int) (c : HttpConn) (socket : Socket) : Prop :=
  ∃ ret s', (c.inbox socket).readOnce trigMode = .ok (ret, s') ∧
    (ret = false → socket.peer ≠ .connected) ∧
    (ret = true → s'.readBuf = (c.receive (taken c socket)).readBuf ∧
      s'.readIdx = (c.receive (taken c socket)).readIdx ∧
      s'.socket.pending = socket.pending.drop (taken c socket).length) ∧
    c.readIdx ≤ s'.readIdx

section
variable {c : HttpConn} {s : Inbox} {socket : Socket}

/-! ## One `recv` -/

theorem recv_pending (h : s.socket.pending ≠ []) :
    s.recv = (.received (s.socket.pending.take (readBufferSize - s.readIdx).toNat).length, { s with
      readBuf := s.readBuf.blit s.readIdx.toNat (s.socket.pending.take (readBufferSize - s.readIdx).toNat)
      socket := { s.socket with pending := s.socket.pending.drop (readBufferSize - s.readIdx).toNat } }) :=
  if_pos h

theorem recv_empty (h : s.socket.pending = []) : s.recv = (s.socket.peer.answer, s) :=
  if_neg (not_not_intro h)

theorem edgeStep_decreasing : Decreasing edgeStep fun s => s.socket.pending.length := by
  intro s s' h
  unfold edgeStep at h
  by_cases hpending : s.socket.pending = []
  · rw [recv_empty hpending] at h
    cases hpeer : s.socket.peer with
    | connected => rw [hpeer] at h; cases h
    | closed => rw [hpeer] at h; cases h
    | failed => rw [hpeer] at h; cases h
  · rw [recv_pending hpending] at h
    simp only at h
    split at h
    · cases h
    · rename_i hsome
      cases h
      rw [List.length_take] at hsome
      simp only [List.length_drop]
      omega

/-- The loop, turn by turn. -/
theorem readEdge_eq (s : Inbox) :
    s.readEdge = match s.edgeStep with
      | .error f => .error f
      | .ok (.inl a) => .ok a
      | .ok (.inr s') => s'.readEdge := by
  unfold readEdge
  rw [whileLoop_eq edgeStep_decreasing (Nat.lt_succ_self _)]
  cases hstep : s.edgeStep with
  | error f => rfl
  | ok r =>
    cases r with
    | inl a => rfl
    | inr s' =>
      have hlt : s'.socket.pending.length < s.socket.pending.length := edgeStep_decreasing hstep
      exact whileLoop_fuel edgeStep_decreasing (by omega) (Nat.lt_succ_self _)

/-- An empty socket fails the level-triggered call, and its answer is added to the index. -/
theorem readLevel_empty (h : s.socket.pending = []) :
    s.readLevel = (false, { s with readIdx := s.readIdx + s.socket.peer.answer.value }) := by
  have hvalue : s.socket.peer.answer.value ≤ 0 := by cases s.socket.peer <;> decide
  unfold readLevel
  rw [recv_empty h]
  exact if_pos hvalue

/-- An empty socket ends the loop. -/
theorem readEdge_empty (h : s.socket.pending = []) :
    s.readEdge = .ok (if s.socket.peer = .connected then true else false, s) := by
  rw [readEdge_eq, edgeStep, recv_empty h]
  cases s.socket.peer with
  | connected => rfl
  | closed => rfl
  | failed => rfl

/-- A `recv` that has no room answers 0, and so does the loop's. -/
theorem readEdge_full (hpending : s.socket.pending ≠ []) (hfull : (readBufferSize : Int) ≤ s.readIdx) :
    ∃ s', s.readEdge = .ok (false, s') ∧ s'.readIdx = s.readIdx := by
  have hroom : (readBufferSize - s.readIdx).toNat = 0 := by omega
  rw [readEdge_eq, edgeStep, recv_pending hpending, hroom]
  exact ⟨_, rfl, rfl⟩

/-! ## What one call reads -/

/-- The connection with what has room. -/
def filled (c : HttpConn) (socket : Socket) : Inbox :=
  (c.receive (taken c socket)).inbox { socket with pending := socket.pending.drop (taken c socket).length }

theorem length_taken (c : HttpConn) (socket : Socket) :
    (taken c socket).length = min (readBufferSize - c.readIdx) socket.pending.length := List.length_take

theorem drop_min (n : Nat) (w : List Byte) : w.drop n = w.drop (min n w.length) := by
  rcases Nat.le_total n w.length with hle | hle
  · rw [Nat.min_eq_left hle]
  · rw [Nat.min_eq_right hle, List.drop_eq_nil_of_le hle, List.drop_length]

theorem recv_inbox (h : socket.pending ≠ []) :
    (c.inbox socket).recv =
      (.received (taken c socket).length, { filled c socket with readIdx := c.readIdx }) := by
  have hroom : ((readBufferSize : Int) - (c.readIdx : Int)).toNat = readBufferSize - c.readIdx := by omega
  rw [recv_pending (s := c.inbox socket) h]
  simp only [HttpConn.inbox, hroom, filled, taken, HttpConn.receive, Int.toNat_natCast, List.length_take,
    Prod.mk.injEq, true_and, Inbox.mk.injEq, Socket.mk.injEq, and_true]
  exact drop_min _ _

/-- **The level-triggered mode.** -/
theorem readLevel_pending (h : socket.pending ≠ []) (hroom : c.readIdx < readBufferSize) :
    (c.inbox socket).readLevel = (true, filled c socket) := by
  have hlength := length_taken c socket
  have hpos := List.length_pos_iff.mpr h
  have hsome : ¬ (RecvAnswer.received (taken c socket).length).value ≤ 0 := by
    show ¬ ((taken c socket).length : Int) ≤ 0
    omega
  unfold readLevel
  rw [recv_inbox h]
  exact if_neg hsome

/-- **The edge-triggered mode**, up to the second `recv`. -/
theorem readEdge_pending (h : socket.pending ≠ []) (hroom : c.readIdx < readBufferSize) :
    (c.inbox socket).readEdge = (filled c socket).readEdge := by
  have hlength := length_taken c socket
  have hpos := List.length_pos_iff.mpr h
  rw [readEdge_eq, edgeStep, recv_inbox h]
  simp only
  rw [if_neg (by omega)]
  rfl

/-- It reads what is pending, if that has room, and tells by the peer how it went. -/
theorem readEdge_room (hpending : socket.pending ≠ []) (hroom : c.readIdx < readBufferSize)
    (hfits : c.readIdx + socket.pending.length ≤ readBufferSize) :
    (c.inbox socket).readEdge = .ok (if socket.peer = .connected then true else false, filled c socket) := by
  have hlength := length_taken c socket
  rw [readEdge_pending hpending hroom]
  refine readEdge_empty ?_
  show socket.pending.drop (taken c socket).length = []
  exact List.drop_eq_nil_of_le (by omega)

/-- If it has not, the call fails with the buffer full. -/
theorem readEdge_overfull (hroom : c.readIdx < readBufferSize)
    (hover : readBufferSize < c.readIdx + socket.pending.length) :
    ∃ s', (c.inbox socket).readEdge = .ok (false, s') ∧ c.readIdx ≤ s'.readIdx := by
  have hlength := length_taken c socket
  have hpending : socket.pending ≠ [] := by
    rintro hnil
    rw [hnil, List.length_nil] at hover
    omega
  have hrest : (filled c socket).socket.pending ≠ [] := by
    intro hnil
    have hle : socket.pending.length ≤ (taken c socket).length := List.drop_eq_nil_iff.mp hnil
    omega
  have hidx : (filled c socket).readIdx = ((c.readIdx + (taken c socket).length : Nat) : Int) := rfl
  obtain ⟨s', hs', hread⟩ := readEdge_full hrest (by rw [hidx]; omega)
  refine ⟨s', (readEdge_pending hpending hroom).trans hs', ?_⟩
  rw [hread, hidx]
  omega

/-- Of an empty socket nothing is read. -/
theorem filled_empty (h : socket.pending = []) : filled c socket = c.inbox socket := by
  obtain ⟨pending, peer⟩ := socket
  obtain rfl : pending = [] := h
  unfold filled taken
  rw [List.take_nil, HttpConn.receive_nil]
  rfl

/-! ## Both modes -/

theorem readOnce_inbox (hroom : c.readIdx < readBufferSize) (trigMode : Int) :
    (c.inbox socket).readOnce trigMode =
      if trigMode = 0 then .ok (c.inbox socket).readLevel else (c.inbox socket).readEdge := by
  refine if_neg ?_
  show ¬ (readBufferSize : Int) ≤ (c.readIdx : Int)
  omega

/-- A call that leaves what has room in the buffer is right, if it is right about the peer. -/
theorem reads_of_filled {trigMode : Int} {ret : Bool}
    (hcall : (c.inbox socket).readOnce trigMode = .ok (ret, filled c socket))
    (hpeer : ret = false → socket.peer ≠ .connected) : Reads trigMode c socket := by
  refine ⟨ret, filled c socket, hcall, hpeer, fun _ => ⟨rfl, rfl, rfl⟩, ?_⟩
  show (c.readIdx : Int) ≤ ((c.readIdx + (taken c socket).length : Nat) : Int)
  omega

theorem reads_level (hroom : c.readIdx < readBufferSize) :
    Reads 0 c socket ↔ socket.pending ≠ [] ∨ socket.peer = .closed := by
  have hcall : (c.inbox socket).readOnce 0 = _ := readOnce_inbox hroom 0
  rw [if_pos rfl] at hcall
  by_cases hpending : socket.pending = []
  · rw [readLevel_empty (s := c.inbox socket) hpending] at hcall
    constructor
    · rintro ⟨ret, s, hread, hpeer, -, hidx⟩
      cases hcall.symm.trans hread
      refine .inr ?_
      -- an index that has not gone down was added nothing to
      have hle : (c.readIdx : Int) ≤ c.readIdx + socket.peer.answer.value := hidx
      cases hp : socket.peer with
      | connected =>
        rw [hp] at hle
        change (c.readIdx : Int) ≤ c.readIdx + -1 at hle
        omega
      | closed => rfl
      | failed =>
        rw [hp] at hle
        change (c.readIdx : Int) ≤ c.readIdx + -1 at hle
        omega
    · intro hcond
      have hclosed := hcond.resolve_left (not_not_intro hpending)
      refine ⟨false, _, hcall, ?_, ?_, ?_⟩
      · intro _
        rw [hclosed]
        decide
      · intro heq
        cases heq
      · show (c.readIdx : Int) ≤ c.readIdx + socket.peer.answer.value
        rw [hclosed]
        exact Int.le_refl _
  · refine iff_of_true ?_ (.inl hpending)
    rw [readLevel_pending hpending hroom] at hcall
    exact reads_of_filled hcall (fun heq => by cases heq)

theorem reads_edge (hroom : c.readIdx < readBufferSize) {trigMode : Int} (hmode : trigMode ≠ 0) :
    Reads trigMode c socket ↔
      c.readIdx + socket.pending.length ≤ readBufferSize ∨ socket.peer ≠ .connected := by
  have hcall : (c.inbox socket).readOnce trigMode = _ := readOnce_inbox hroom trigMode
  rw [if_neg hmode] at hcall
  by_cases hfits : c.readIdx + socket.pending.length ≤ readBufferSize
  · refine iff_of_true ?_ (.inl hfits)
    have hedge : (c.inbox socket).readEdge =
        .ok (if socket.peer = .connected then true else false, filled c socket) := by
      by_cases hpending : socket.pending = []
      · rw [filled_empty hpending]
        exact readEdge_empty (s := c.inbox socket) hpending
      · exact readEdge_room hpending hroom hfits
    refine reads_of_filled (hcall.trans hedge) ?_
    intro hret hpeer
    rw [if_pos hpeer] at hret
    cases hret
  · obtain ⟨s', hs', hidx⟩ := readEdge_overfull hroom (Nat.lt_of_not_le hfits)
    constructor
    · rintro ⟨ret, s, hread, hpeer, -⟩
      cases (hcall.trans hs').symm.trans hread
      exact .inr (hpeer rfl)
    · intro hcond
      refine ⟨false, s', hcall.trans hs', fun _ => hcond.resolve_left hfits, ?_, hidx⟩
      intro heq
      cases heq

/-- **`read_once` fails only for a reason** if and only if it is not called for an empty socket in the
    level-triggered mode, unless the peer has closed, nor for more than there is room for in the
    edge-triggered mode, unless the peer is not connected. -/
theorem reads_iff (hroom : c.readIdx < readBufferSize) (trigMode : Int) :
    Reads trigMode c socket ↔
      if trigMode = 0 then socket.pending ≠ [] ∨ socket.peer = .closed
      else c.readIdx + socket.pending.length ≤ readBufferSize ∨ socket.peer ≠ .connected := by
  by_cases hmode : trigMode = 0
  · rw [if_pos hmode, hmode]
    exact reads_level hroom
  · rw [if_neg hmode]
    exact reads_edge hroom hmode

/-- Three bytes, read in the edge-triggered mode. -/
theorem reads_iff_three : Reads 1 (default : HttpConn).init ⟨[97, 98, 99], .connected⟩ :=
  (reads_iff (by decide) 1).mpr (.inl (by decide))

/-- **It fails** in the edge-triggered mode for two bytes where one has room, and in the level-triggered mode
    for none: there the index goes down, and of an empty buffer to -1. -/
theorem read_fails_connected :
    (∃ c : HttpConn, c.readIdx = 2047 ∧ ¬ Reads 1 c ⟨[97, 98], .connected⟩) ∧
    (∃ c : HttpConn, c.readIdx = 0 ∧ ¬ Reads 0 c ⟨[], .connected⟩ ∧
      ((c.inbox ⟨[], .connected⟩).readOnce 0).map (fun result => (result.1, result.2.readIdx)) =
        .ok (false, -1)) := by
  refine ⟨⟨{ (default : HttpConn).init with readIdx := 2047 }, rfl, ?_⟩,
    ⟨(default : HttpConn).init, rfl, ?_, by decide⟩⟩
  · intro hreads
    rcases (reads_edge (by decide) (by decide)).mp hreads with hfits | hpeer
    · revert hfits
      decide
    · exact hpeer rfl
  · intro hreads
    rcases (reads_level (by decide)).mp hreads with hpending | hclosed
    · exact hpending rfl
    · cases hclosed

end

end Inbox
end Http
end LinuxServer
