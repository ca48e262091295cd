import LinuxServer.CppServer.Drain

/-!
# `CppServer/Session.lean` — the test client against the echo server

`oneClient` of `test.cpp` writes a message and reads until as many bytes have come back as it has written, and does
that `msgs` times. The connection between the two carries bytes and knows no messages: what was written at once
may arrive in parts, and what was written in parts at once. So the server may answer one message with several
echoes, or several with one, and the client may go on when it has the first bytes of an echo only.

Here the two run against each other, with every delay and every cut the network may make: the inner loop of the
client, and the `Read` and the `Send` of the server's connection, a call at a time. No byte is lost, doubled or
moved where no `write` of the server finds the descriptor full (`echoed_once`), and none does if there is room for all
that can be on its way. Then each of the client's reads is answered: the session is over after so many steps, in
every run, and it is over only when the client has counted `msgs` (`comes_to_end`), unless the reactor has handled an
event before `ConnectionEstablished` (`miss`).

It is followed up to the end of the client's loop, with neither side killed.
-/

set_option autoImplicit false

namespace LinuxServer

/-! ## The client -/

/-- Where `oneClient` is. -/
inductive ClientPlace
  /-- At the head of the outer loop, which goes on. -/
  | writing
  /-- In the inner loop. -/
  | reading
  /-- Behind the outer loop. -/
  | leaving
  /-- `exit`. -/
  | exited
  deriving DecidableEq, Repr

/-- The variables of `oneClient`, and what it has printed, the last line first. -/
structure OneClient where
  count : Nat
  sendBuffer : List Byte
  readBuffer : List Byte
  alreadyRead : Nat
  printed : List (Nat × List Byte)
  place : ClientPlace
  deriving DecidableEq, Repr

namespace OneClient

def message : List Byte := bytes "I'm client!"

/-- The condition of the outer loop. -/
def head (msgs : Int) (c : OneClient) : OneClient :=
  { c with place := if c.count < msgs then .writing else .leaving }

/-- The outer loop up to the inner one, where `write` returns `writeBytes`. -/
def write (c : OneClient) (writeBytes : Int) : OneClient :=
  let c := { c with sendBuffer := message }
  if writeBytes = -1 then { c with place := .leaving } else { c with alreadyRead := 0, place := .reading }

/-- One turn of the inner loop. -/
def read (msgs : Int) (c : OneClient) (r : ReadResult) : OneClient :=
  if r.bytesRead = 0 then { c with place := .exited }
  else
    let c := if 0 < r.bytesRead then
        { c with
          readBuffer := c.readBuffer ++ r.data.take r.bytesRead.toNat
          alreadyRead := c.alreadyRead + r.bytesRead.toNat }
      else c
    if c.sendBuffer.length ≤ c.alreadyRead then
      head msgs { c with
        printed := (c.count, c.readBuffer.takeWhile (· ≠ 0)) :: c.printed
        count := c.count + 1
        readBuffer := [] }
    else c

end OneClient

/-! ## Both sides -/

/-- Where the reactor is with the connection. -/
inductive ServerPlace
  /-- Before `HandleNewConnection` is done with it. -/
  | accepting
  | polling
  /-- In the loop of `ReadNonBlocking`. -/
  | reading
  /-- In that of `WriteNonBlocking`. -/
  | writing (bytesSent : Nat)
  deriving DecidableEq, Repr

/-- A client and its connection of the server, with the bytes between them: each way those that are on the way,
    and those that have come and were not read. -/
structure EchoSession where
  client : OneClient
  toServer : List Byte
  queue : List Byte
  edge : Bool
  conn : Connection
  server : ServerPlace
  toClient : List Byte
  arrived : List Byte
  deriving DecidableEq, Repr

namespace EchoSession

inductive Step
  | clientWrite (writeBytes : Int)
  | clientRead (r : ReadResult)
  /-- So many bytes come to the server. -/
  | deliver (n : Nat)
  | establish
  /-- The event is handled before `m_state` is set: `Read` finds it not connected. So does the `Send` of the message
      callback, if that is there, unless it is set in between. -/
  | miss (set : Bool)
  /-- The event is handled, up to the first `read`. -/
  | event
  | serverRead (r : ReadResult)
  | serverWrite (answer : WriteAnswer)
  /-- So many bytes come to the client. -/
  | answer (n : Nat)
  deriving DecidableEq, Repr

/-- An event that is handled too early. -/
def Step.early : Step → Bool
  | .miss _ => true
  | _ => false

/-- A call that was interrupted, and is made again. -/
def Step.interrupted : Step → Bool
  | .clientRead r => r.bytesRead = -1
  | .serverRead r => r.bytesRead = -1 ∧ r.errno = eintr
  | .serverWrite .intr => true
  | _ => false

/-- The condition of the loop of `WriteNonBlocking`. When it is over `Write` clears the buffer. -/
def writeLoop (s : EchoSession) (bytesSent : Nat) : EchoSession :=
  if bytesSent < s.conn.sendBuffer.length then { s with server := .writing bytesSent }
  else { s with conn := { s.conn with sendBuffer := [] }, server := .polling }

/-- One turn of it. -/
def writeTurn (s : EchoSession) (bytesSent : Nat) : WriteAnswer → EchoSession
  | .wrote n =>
    { s with toClient := s.toClient ++ (s.conn.sendBuffer.drop bytesSent).take n }.writeLoop (bytesSent + n)
  | .again => { s with conn := { s.conn with sendBuffer := [] }, server := .polling }
  | .intr => s
  | .error => { s with conn := { s.conn with state := .closed, sendBuffer := [] }, server := .polling }

/-- The message callback, up to the first `write`. -/
def onMessage (s : EchoSession) : EchoSession :=
  let s := { s with conn := s.conn.setSendBuffer s.conn.echo }
  if s.conn.state ≠ .connected then { s with server := .polling } else s.writeLoop 0

def exec (msgs : Int) (s : EchoSession) : Step → EchoSession
  | .clientWrite writeBytes =>
    { s with
      client := s.client.write writeBytes
      toServer := s.toServer ++ OneClient.message.take writeBytes.toNat }
  | .clientRead r => { s with client := s.client.read msgs r, arrived := s.arrived.drop r.bytes.length }
  | .deliver n =>
    { s with toServer := s.toServer.drop n, queue := s.queue ++ s.toServer.take n, edge := true }
  | .establish => { s with server := .polling }
  | .miss set =>
    let s := { s with edge := false }
    -- what the callback leaves in the send buffer is set anew by the next
    if set then s.onMessage else s
  | .event =>
    let s := { s with edge := false }
    if s.conn.state ≠ .connected then s.onMessage
    else { s with conn := { s.conn with readBuffer := [] }, server := .reading }
  | .serverRead r =>
    let (more, conn) := s.conn.readTurn false r
    let s := { s with conn := conn, queue := s.queue.drop r.bytes.length }
    if more then s else s.onMessage
  | .serverWrite answer =>
    match s.server with
    | .writing bytesSent => s.writeTurn bytesSent answer
    | _ => s
  | .answer n => { s with toClient := s.toClient.drop n, arrived := s.arrived ++ s.toClient.take n }

/-- A `read` returns bytes that have come. -/
def Takes (r : ReadResult) (queue : List Byte) : Prop := 0 < r.bytesRead ∧ r.bytes <+: queue

/-- What `write` answers where `left` bytes are offered and `room` are free: part of them only if there is no room
    for all. -/
def Accepts (left room : Nat) : WriteAnswer → Prop
  | .wrote n => 0 < n ∧ n ≤ left ∧ (left ≤ room → n = left)
  | .again => room < left
  | .intr => True
  | .error => False

/-- What may happen next, where the descriptor of the server has room for `capacity` bytes that the client has not
    read. A call that blocks returns when it has something to return, or is interrupted; the end of the stream is
    read, and a `write` fails, if the other side has closed. Before `ConnectionEstablished` an event is handled in
    vain: `m_state`, which the constructor leaves as it is, is not connected by chance. -/
def Enabled (capacity : Nat) (s : EchoSession) : Step → Prop
  | .clientWrite writeBytes => s.client.place = .writing ∧
    (writeBytes = OneClient.message.length ∨ writeBytes = -1 ∧ s.conn.state = .closed)
  | .clientRead r => s.client.place = .reading ∧ (Takes r s.arrived ∨ r.bytesRead = -1 ∧ r.errno = eintr ∨
    r.bytesRead = 0 ∧ s.arrived = [] ∧ s.toClient = [] ∧ s.conn.state = .closed)
  | .deliver n => 0 < n ∧ n ≤ s.toServer.length
  | .establish => s.server = .accepting
  | .miss _ => s.server = .accepting ∧ s.edge = true
  | .event => s.server = .polling ∧ s.edge = true
  | .serverRead r => s.server = .reading ∧ (Takes r s.queue ∨
    r.bytesRead = -1 ∧ (r.errno = eintr ∨ (r.errno = eagain ∨ r.errno = ewouldblock) ∧ s.queue = []))
  | .serverWrite answer =>
    match s.server with
    | .writing bytesSent =>
      Accepts (s.conn.sendBuffer.drop bytesSent).length (capacity - (s.toClient.length + s.arrived.length)) answer
    | _ => False
  | .answer n => 0 < n ∧ n ≤ s.toClient.length

instance (r : ReadResult) (queue : List Byte) : Decidable (Takes r queue) := inferInstanceAs (Decidable (_ ∧ _))

instance (left room : Nat) : (answer : WriteAnswer) → Decidable (Accepts left room answer)
  | .wrote _ => inferInstanceAs (Decidable (_ ∧ _))
  | .again => inferInstanceAs (Decidable (_ < _))
  | .intr => inferInstanceAs (Decidable True)
  | .error => inferInstanceAs (Decidable False)

instance (capacity : Nat) (s : EchoSession) : (i : Step) → Decidable (s.Enabled capacity i)
  | .clientWrite _ | .clientRead _ | .deliver _ | .miss _ | .event | .serverRead _ | .answer _ =>
    inferInstanceAs (Decidable (_ ∧ _))
  | .establish => inferInstanceAs (Decidable (_ = _))
  | .serverWrite answer =>
    match hserver : s.server with
    | .writing bytesSent =>
      decidable_of_iff (Accepts (s.conn.sendBuffer.drop bytesSent).length
        (capacity - (s.toClient.length + s.arrived.length)) answer) (by simp only [Enabled, hserver])
    | .accepting | .polling | .reading => .isFalse (by simp only [Enabled, hserver, not_false_eq_true])

end EchoSession

/-- A session of `msgs` messages. -/
def echoSession (msgs : Int) (capacity : Nat) : System EchoSession EchoSession.Step where
  start s := s = ⟨OneClient.head msgs ⟨0, [], [], 0, [], .writing⟩, [], [], false, Connection.established,
    .accepting, [], []⟩
  step s i s' := s.Enabled capacity i ∧ s.exec msgs i = s'

namespace OneClient

/-- How many messages it has written. -/
def wrote (c : OneClient) : Nat :=
  match c.place with
  | .writing | .leaving => c.count
  | .reading | .exited => c.count + 1

/-- What it has printed, and what it will print next. -/
def received (c : OneClient) : List Byte := (c.printed.reverse.map Prod.snd).flatten ++ c.readBuffer

end OneClient

namespace EchoSession

/-- What the `Read` that is in its loop has in the buffer. -/
def gathered (s : EchoSession) : List Byte :=
  match s.server with
  | .reading => s.conn.readBuffer
  | _ => []

/-- What the `Write` that is in its loop has not written. -/
def unsent (s : EchoSession) : List Byte :=
  match s.server with
  | .writing bytesSent => s.conn.sendBuffer.drop bytesSent
  | _ => []

/-! ## The bytes -/

/-- **The bytes of a session**: what the client has received, what is on its way to it, and what is being sent, are
    echoes; what they echo, what is being read, and what is on its way to the server, are the client's
    messages. -/
def Echoes (s : EchoSession) : Prop := ∃ chunks : List (List Byte),
  s.client.received ++ s.arrived ++ s.toClient ++ s.unsent = (chunks.map (bytes "Echo: " ++ ·)).flatten ∧
    chunks.flatten ++ s.gathered ++ s.queue ++ s.toServer =
      (List.replicate s.client.wrote OneClient.message).flatten

/-- The connection is up, its loop has bytes left, and there is nothing in the buffer before the first event. -/
structure Served (s : EchoSession) : Prop where
  up : s.conn.state = .connected
  left : ∀ bytesSent, s.server = .writing bytesSent → bytesSent < s.conn.sendBuffer.length
  fresh : s.server = .accepting → s.conn.readBuffer = []

/-- What has come without an event was read. -/
def Awake (s : EchoSession) : Prop := s.edge = false → s.server ≠ .reading → s.queue = []

/-- The client has read what it printed, or waits for more of what it has sent last. -/
def Waits (msgs : Int) (c : OneClient) : Prop :=
  match c.place with
  | .writing => (c.count : Int) < msgs
  | .reading => (c.count : Int) < msgs ∧ c.sendBuffer = OneClient.message ∧
    c.alreadyRead < OneClient.message.length
  | .leaving => c.count = msgs.toNat
  | .exited => False

/-- What every run keeps in which no `write` of the server finds the descriptor full. -/
structure Books (msgs : Int) (s : EchoSession) : Prop where
  echoes : s.Echoes
  served : s.Served
  waits : Waits msgs s.client

section
variable {msgs : Int} {capacity : Nat} {s s' : EchoSession}

theorem zero_notMem_messages (k : Nat) : 0 ∉ (List.replicate k OneClient.message).flatten := by
  intro hmem
  obtain ⟨w, hw, hzero⟩ := List.mem_flatten.mp hmem
  rw [List.eq_of_mem_replicate hw] at hzero
  revert hzero
  decide

theorem zero_notMem_echoes {chunks : List (List Byte)} (h : 0 ∉ chunks.flatten) :
    0 ∉ (chunks.map (bytes "Echo: " ++ ·)).flatten := by
  intro hmem
  obtain ⟨_, hw, hzero⟩ := List.mem_flatten.mp hmem
  obtain ⟨chunk, hchunk, rfl⟩ := List.mem_map.mp hw
  rcases List.mem_append.mp hzero with hprefix | hin
  · revert hprefix
    decide
  · exact h (List.mem_flatten.mpr ⟨chunk, hchunk, hin⟩)

/-- There is no NUL in what the client has, and in what has come to it. -/
theorem Echoes.clean_client (he : s.Echoes) : 0 ∉ s.client.readBuffer ++ s.arrived := by
  obtain ⟨chunks, hclient, hserver⟩ := he
  have hchunks : 0 ∉ chunks.flatten := by
    have hno := zero_notMem_messages s.client.wrote
    rw [← hserver] at hno
    simp only [List.mem_append, not_or] at hno
    exact hno.1.1.1
  have hno := zero_notMem_echoes hchunks
  rw [← hclient] at hno
  simp only [OneClient.received, List.mem_append, not_or] at hno ⊢
  exact ⟨hno.1.1.1.2, hno.1.1.2⟩

theorem Echoes.clean_server (he : s.Echoes) : 0 ∉ s.gathered := by
  obtain ⟨chunks, -, hserver⟩ := he
  have hno := zero_notMem_messages s.client.wrote
  rw [← hserver] at hno
  simp only [List.mem_append, not_or] at hno
  exact hno.1.1.2

/-! ## One step of the client -/

theorem head_place (msgs : Int) (c : OneClient) : (c.head msgs).place ≠ .reading := by
  unfold OneClient.head
  simp only
  split
  · exact fun h => by cases h
  · exact fun h => by cases h

theorem wrote_head (msgs : Int) (c : OneClient) : (c.head msgs).wrote = c.count := by
  unfold OneClient.wrote OneClient.head
  simp only
  by_cases hmore : (c.count : Int) < msgs
  · rw [if_pos hmore]
  · rw [if_neg hmore]

theorem waits_head {c : OneClient} (hcount : c.count ≤ msgs.toNat) : Waits msgs (c.head msgs) := by
  unfold Waits OneClient.head
  simp only
  by_cases hmore : (c.count : Int) < msgs
  · rw [if_pos hmore]
    exact hmore
  · rw [if_neg hmore]
    show c.count = msgs.toNat
    omega

/-- **A `read` of the client**: the bytes are received, and if they are enough the loop goes on behind them. -/
theorem client_read {c : OneClient} {r : ReadResult} (hw : Waits msgs c) (hplace : c.place = .reading)
    (hread : 0 < r.bytesRead) (hclean : 0 ∉ c.readBuffer ++ r.bytes) :
    (c.read msgs r).received = c.received ++ r.bytes ∧ (c.read msgs r).wrote = c.wrote ∧
      Waits msgs (c.read msgs r) ∧
      ((c.read msgs r).place = .reading ∧ (c.read msgs r).alreadyRead = c.alreadyRead + r.bytes.length ∨
        (c.read msgs r).place ≠ .reading ∧ OneClient.message.length ≤ c.alreadyRead + r.bytes.length) := by
  unfold Waits at hw
  rw [hplace] at hw
  obtain ⟨hcount, hsend, hless⟩ := hw
  unfold OneClient.read
  rw [if_neg (by omega), if_pos hread, r.take_data, ← r.length]
  simp only [hsend]
  split
  · rename_i henough
    have hprinted : ((c.count, (c.readBuffer ++ r.bytes).takeWhile (· ≠ 0)) :: c.printed).reverse.map Prod.snd =
        c.printed.reverse.map Prod.snd ++ [c.readBuffer ++ r.bytes] := by
      rw [takeWhile_ne_iff.mpr hclean, List.reverse_cons, List.map_append]
      rfl
    refine ⟨?_, ?_, ?_, ?_⟩
    · unfold OneClient.received OneClient.head
      simp only [hprinted]
      rw [List.flatten_append, List.flatten_singleton, List.append_nil, List.append_assoc]
    · rw [wrote_head]
      unfold OneClient.wrote
      simp only [hplace]
    · refine waits_head ?_
      show c.count + 1 ≤ msgs.toNat
      omega
    · exact Or.inr ⟨head_place msgs _, henough⟩
  · rename_i hmore
    refine ⟨?_, ?_, ?_, Or.inl ⟨hplace, rfl⟩⟩
    · exact (List.append_assoc _ _ _).symm
    · unfold OneClient.wrote
      simp only [hplace]
    · unfold Waits
      simp only [hplace]
      exact ⟨hcount, trivial, Nat.lt_of_not_le hmore⟩

/-- A `read` that was interrupted is made again. -/
theorem client_interrupted {c : OneClient} {r : ReadResult} (hw : Waits msgs c) (hplace : c.place = .reading)
    (hread : r.bytesRead = -1) : c.read msgs r = c := by
  unfold Waits at hw
  rw [hplace] at hw
  obtain ⟨-, hsend, hless⟩ := hw
  have hnone : ¬ 0 < r.bytesRead := by omega
  unfold OneClient.read
  rw [if_neg (by omega), if_neg hnone, if_neg]
  rw [hsend]
  exact Nat.not_le.mpr hless

/-- A message is written. -/
theorem client_write {c : OneClient} (hw : Waits msgs c) (hplace : c.place = .writing) :
    (c.write OneClient.message.length).received = c.received ∧
      (c.write OneClient.message.length).wrote = c.wrote + 1 ∧
      Waits msgs (c.write OneClient.message.length) ∧
      (c.write OneClient.message.length).place = .reading ∧
      (c.write OneClient.message.length).alreadyRead = 0 := by
  unfold Waits at hw
  rw [hplace] at hw
  unfold OneClient.write
  simp only
  rw [if_neg (by decide)]
  refine ⟨rfl, ?_, ?_, rfl, rfl⟩
  · unfold OneClient.wrote
    simp only [hplace]
  · exact ⟨hw, rfl, (by decide : 0 < OneClient.message.length)⟩

/-! ## One step of the server -/

/-- The echo of what a `Read` has received begins to be written. -/
theorem onMessage_eq (hup : s.conn.state = .connected) (hclean : 0 ∉ s.conn.readBuffer) :
    s.onMessage = { s with
      conn := { s.conn with sendBuffer := bytes "Echo: " ++ s.conn.readBuffer }
      server := .writing 0 } := by
  have hbuffer : s.conn.setSendBuffer s.conn.echo =
      { s.conn with sendBuffer := bytes "Echo: " ++ s.conn.readBuffer } := by
    unfold Connection.setSendBuffer
    rw [takeWhile_ne_iff.mpr (Connection.noNul_echo s.conn), Connection.echo, Connection.getReadData,
      takeWhile_ne_iff.mpr hclean]
  unfold onMessage
  simp only [hbuffer]
  rw [if_neg (not_not_intro hup)]
  unfold writeLoop
  rw [if_pos]
  rw [List.length_append]
  exact Nat.lt_of_lt_of_le (by decide) (Nat.le_add_right _ _)

/-- **A `read` of the server**: bytes, or none and the end of the `Read`. -/
theorem serverRead_eq {r : ReadResult} (hread : 0 < r.bytesRead) :
    s.exec msgs (.serverRead r) =
      { s with
        conn := { s.conn with readBuffer := s.conn.readBuffer ++ r.bytes }
        queue := s.queue.drop r.bytes.length } := by
  simp only [exec, Connection.readTurn_eq, ReadResult.goesOn_iff.mpr (Or.inl hread), if_true]

theorem serverRead_interrupted {r : ReadResult} (hread : r.bytesRead = -1) (hintr : r.errno = eintr) :
    s.exec msgs (.serverRead r) = s := by
  have hnone : r.bytes = [] := ReadResult.bytes_eq_nil (by omega)
  simp only [exec, Connection.readTurn_eq, ReadResult.goesOn_iff.mpr (Or.inr ⟨hread, hintr⟩), if_true, hnone,
    List.append_nil, List.length_nil, List.drop_zero]

theorem serverRead_again {r : ReadResult} (hread : r.bytesRead = -1)
    (hagain : r.errno = eagain ∨ r.errno = ewouldblock) : s.exec msgs (.serverRead r) = s.onMessage := by
  have hnone : r.bytes = [] := ReadResult.bytes_eq_nil (by omega)
  have hgoes : r.goesOn = false := by
    refine Bool.eq_false_iff.mpr fun hgoes => ?_
    rcases ReadResult.goesOn_iff.mp hgoes with hpos | ⟨-, hintr⟩
    · omega
    · rcases hagain with h | h <;> exact absurd (hintr.symm.trans h) (by decide)
  have hopen : r.closes = false := by
    refine Bool.eq_false_iff.mpr fun hcloses => ?_
    rcases ReadResult.closes_iff.mp hcloses with hzero | ⟨-, hne, hne', -⟩
    · omega
    · exact hagain.elim hne hne'
  simp only [exec, Connection.readTurn_eq, hgoes, hopen, Bool.false_eq_true, if_false, hnone, List.length_nil,
    List.drop_zero]

/-! ## What a step does -/

/-- A step, where the connection is up and no `write` finds the descriptor full. -/
inductive Turn (msgs : Int) (s : EchoSession) : Step → EchoSession → Prop
  | interrupted {i : Step} (hi : i.interrupted = true) : Turn msgs s i s
  | write (hplace : s.client.place = .writing) :
    Turn msgs s (.clientWrite OneClient.message.length)
      { s with
        client := s.client.write OneClient.message.length
        toServer := s.toServer ++ OneClient.message }
  | read {r : ReadResult} (hplace : s.client.place = .reading) (htakes : Takes r s.arrived) :
    Turn msgs s (.clientRead r)
      { s with client := s.client.read msgs r, arrived := s.arrived.drop r.bytes.length }
  | deliver {n : Nat} (hpos : 0 < n) (hle : n ≤ s.toServer.length) :
    Turn msgs s (.deliver n)
      { s with toServer := s.toServer.drop n, queue := s.queue ++ s.toServer.take n, edge := true }
  | establish (hserver : s.server = .accepting) : Turn msgs s .establish { s with server := .polling }
  | miss (hserver : s.server = .accepting) : Turn msgs s (.miss false) { s with edge := false }
  | greet (hserver : s.server = .accepting) :
    Turn msgs s (.miss true)
      { s with
        edge := false
        conn := { s.conn with sendBuffer := bytes "Echo: " ++ s.conn.readBuffer }
        server := .writing 0 }
  | event (hserver : s.server = .polling) (hedge : s.edge = true) :
    Turn msgs s .event
      { s with edge := false, conn := { s.conn with readBuffer := [] }, server := .reading }
  | gather {r : ReadResult} (hserver : s.server = .reading) (htakes : Takes r s.queue) :
    Turn msgs s (.serverRead r)
      { s with
        conn := { s.conn with readBuffer := s.conn.readBuffer ++ r.bytes }
        queue := s.queue.drop r.bytes.length }
  | drained {r : ReadResult} (hserver : s.server = .reading) (hqueue : s.queue = []) :
    Turn msgs s (.serverRead r)
      { s with
        conn := { s.conn with sendBuffer := bytes "Echo: " ++ s.conn.readBuffer }
        server := .writing 0 }
  | sent {bytesSent n : Nat} (hserver : s.server = .writing bytesSent) (hpos : 0 < n)
    (hle : n ≤ (s.conn.sendBuffer.drop bytesSent).length) :
    Turn msgs s (.serverWrite (.wrote n))
      ({ s with
        toClient := s.toClient ++ (s.conn.sendBuffer.drop bytesSent).take n }.writeLoop (bytesSent + n))
  | answer {n : Nat} (hpos : 0 < n) (hle : n ≤ s.toClient.length) :
    Turn msgs s (.answer n)
      { s with toClient := s.toClient.drop n, arrived := s.arrived ++ s.toClient.take n }

theorem enabled_serverWrite {answer : WriteAnswer} (he : s.Enabled capacity (.serverWrite answer)) :
    ∃ bytesSent, s.server = .writing bytesSent ∧ Accepts (s.conn.sendBuffer.drop bytesSent).length
      (capacity - (s.toClient.length + s.arrived.length)) answer := by
  simp only [Enabled] at he
  split at he
  · rename_i bytesSent hserver
    exact ⟨bytesSent, hserver, he⟩
  · exact he.elim

/-- **What a step does.** -/
theorem Books.turn (hb : Books msgs s) {i : Step} (he : s.Enabled capacity i) (hfull : i ≠ .serverWrite .again) :
    Turn msgs s i (s.exec msgs i) := by
  have hup := hb.served.up
  have hopen : ¬ s.conn.state = .closed := by
    rw [hup]
    exact fun h => by cases h
  cases i with
  | clientWrite writeBytes =>
    obtain ⟨hplace, rfl | ⟨-, hclosed⟩⟩ := he
    · exact .write hplace
    · exact absurd hclosed hopen
  | clientRead r =>
    obtain ⟨hplace, htakes | ⟨hread, -⟩ | ⟨-, -, -, hclosed⟩⟩ := he
    · exact .read hplace htakes
    · have hnone : r.bytes = [] := ReadResult.bytes_eq_nil (by omega)
      have hsame : s.exec msgs (.clientRead r) = s := by
        simp only [exec, client_interrupted hb.waits hplace hread, hnone, List.length_nil, List.drop_zero]
      rw [hsame]
      exact .interrupted (decide_eq_true hread)
    · exact absurd hclosed hopen
  | deliver n => exact .deliver he.1 he.2
  | establish => exact .establish he
  | miss set =>
    obtain ⟨hserver, -⟩ := he
    cases set with
    | false => exact .miss hserver
    | true =>
      have hclean : 0 ∉ s.conn.readBuffer := by
        rw [hb.served.fresh hserver]
        exact List.not_mem_nil
      show Turn msgs s (.miss true) { s with edge := false }.onMessage
      rw [onMessage_eq (s := { s with edge := false }) hup hclean]
      exact .greet hserver
  | event =>
    obtain ⟨hserver, hedge⟩ := he
    simp only [exec]
    rw [if_neg (not_not_intro hup)]
    exact .event hserver hedge
  | serverRead r =>
    obtain ⟨hserver, htakes | ⟨hread, hintr | ⟨hagain, hqueue⟩⟩⟩ := he
    · rw [serverRead_eq htakes.1]
      exact .gather hserver htakes
    · rw [serverRead_interrupted hread hintr]
      exact .interrupted (decide_eq_true ⟨hread, hintr⟩)
    · have hclean : 0 ∉ s.conn.readBuffer := by
        have hno := hb.echoes.clean_server
        unfold gathered at hno
        rwa [hserver] at hno
      rw [serverRead_again hread hagain, onMessage_eq hup hclean]
      exact .drained hserver hqueue
  | serverWrite answer =>
    obtain ⟨bytesSent, hserver, haccepts⟩ := enabled_serverWrite he
    simp only [exec, hserver]
    cases answer with
    | wrote n => exact .sent hserver haccepts.1 haccepts.2.1
    | again => exact absurd rfl hfull
    | intr => exact .interrupted rfl
    | error => exact haccepts.elim
  | answer n => exact .answer he.1 he.2

/-- The bytes of a `read` are the first ones of the queue. -/
theorem Takes.split {r : ReadResult} {queue : List Byte} (h : Takes r queue) :
    r.bytes ++ queue.drop r.bytes.length = queue := by
  obtain ⟨rest, rfl⟩ := h.2
  rw [List.drop_left]

/-- Those that the client reads hold no NUL. -/
theorem Echoes.clean_read (he : s.Echoes) {r : ReadResult} (h : Takes r s.arrived) :
    0 ∉ s.client.readBuffer ++ r.bytes := by
  have hclean := he.clean_client
  rw [← h.split] at hclean
  simp only [List.mem_append, not_or] at hclean ⊢
  exact ⟨hclean.1, hclean.2.1⟩

/-- The first bytes behind a place are moved to it. -/
theorem take_moved (front place behind : List Byte) (n : Nat) :
    front ++ (place ++ behind.take n) ++ behind.drop n = front ++ place ++ behind := by
  rw [← List.append_assoc, List.append_assoc (front ++ place), List.take_append_drop]

/-- When a `Write` is over nothing of it is left. -/
theorem unsent_writeLoop (s : EchoSession) (bytesSent : Nat) :
    (s.writeLoop bytesSent).unsent = s.conn.sendBuffer.drop bytesSent ∧ (s.writeLoop bytesSent).gathered = [] := by
  unfold writeLoop
  split
  · exact ⟨rfl, rfl⟩
  · rename_i hover
    rw [List.drop_eq_nil_of_le (Nat.not_lt.mp hover)]
    exact ⟨rfl, rfl⟩

theorem writeLoop_rest (s : EchoSession) (bytesSent : Nat) :
    (s.writeLoop bytesSent).client = s.client ∧ (s.writeLoop bytesSent).toServer = s.toServer ∧
      (s.writeLoop bytesSent).queue = s.queue ∧ (s.writeLoop bytesSent).edge = s.edge ∧
      (s.writeLoop bytesSent).toClient = s.toClient ∧ (s.writeLoop bytesSent).arrived = s.arrived ∧
      (s.writeLoop bytesSent).conn.state = s.conn.state ∧ (s.writeLoop bytesSent).server ≠ .reading := by
  unfold writeLoop
  split
  · exact ⟨rfl, rfl, rfl, rfl, rfl, rfl, rfl, fun h => by cases h⟩
  · exact ⟨rfl, rfl, rfl, rfl, rfl, rfl, rfl, fun h => by cases h⟩

/-- **The bytes**, through a step. -/
theorem Echoes.step (he : s.Echoes) (hs : s.Served) (hw : Waits msgs s.client) {i : Step}
    (ht : Turn msgs s i s') : s'.Echoes := by
  obtain ⟨chunks, hclient, hserved⟩ := id he
  cases ht with
  | interrupted hi => exact ⟨chunks, hclient, hserved⟩
  | write hplace =>
    obtain ⟨hreceived, hwrote, -⟩ := client_write hw hplace
    refine ⟨chunks, ?_, ?_⟩
    · rw [← hclient, ← hreceived]
      rfl
    · show _ ++ _ ++ _ ++ (s.toServer ++ _) = _
      rw [← List.append_assoc]
      simp only [hwrote, List.replicate_succ', List.flatten_append, List.flatten_singleton]
      exact congrArg (· ++ OneClient.message) hserved
  | @read r hplace htakes =>
    obtain ⟨hreceived, hwrote, -⟩ := client_read hw hplace htakes.1 (he.clean_read htakes)
    refine ⟨chunks, ?_, ?_⟩
    · rw [← hclient]
      simp only [hreceived]
      rw [List.append_assoc s.client.received, htakes.split]
      rfl
    · rw [hwrote]
      exact hserved
  | @deliver n hpos hle =>
    refine ⟨chunks, hclient, ?_⟩
    rw [← hserved]
    exact take_moved (chunks.flatten ++ s.gathered) s.queue s.toServer n
  | establish hserver =>
    simp only [unsent, gathered, hserver] at hclient hserved
    exact ⟨chunks, hclient, hserved⟩
  | miss hserver => exact ⟨chunks, hclient, hserved⟩
  | greet hserver =>
    -- an echo of nothing
    simp only [unsent, gathered, hserver] at hclient hserved
    refine ⟨chunks ++ [[]], ?_, ?_⟩
    · simp only [List.map_append, List.flatten_append, List.map_singleton, List.flatten_singleton, ← hclient,
        unsent, hs.fresh hserver, List.drop_zero, List.append_nil]
    · simp only [List.flatten_append, List.flatten_singleton, gathered, List.append_nil] at hserved ⊢
      exact hserved
  | event hserver hedge =>
    simp only [unsent, gathered, hserver] at hclient hserved
    exact ⟨chunks, hclient, hserved⟩
  | @gather r hserver htakes =>
    simp only [unsent, gathered, hserver] at hclient hserved
    refine ⟨chunks, ?_, ?_⟩
    · rw [← hclient]
      simp only [unsent, hserver]
    · rw [← hserved]
      simp only [gathered, hserver]
      rw [← htakes.split]
      simp only [List.append_assoc, List.drop_left]
  | drained hserver hqueue =>
    simp only [unsent, gathered, hserver] at hclient hserved
    refine ⟨chunks ++ [s.conn.readBuffer], ?_, ?_⟩
    · simp only [List.map_append, List.flatten_append, List.map_singleton, List.flatten_singleton, ← hclient,
        unsent, List.drop_zero, List.append_nil]
    · simp only [List.flatten_append, List.flatten_singleton, gathered, List.append_nil]
      exact hserved
  | @sent bytesSent n hserver hpos hle =>
    simp only [unsent, gathered, hserver] at hclient hserved
    obtain ⟨hc, hts, hq, -, htc, ha, -⟩ := writeLoop_rest
      { s with toClient := s.toClient ++ (s.conn.sendBuffer.drop bytesSent).take n } (bytesSent + n)
    obtain ⟨hu, hg⟩ := unsent_writeLoop
      { s with toClient := s.toClient ++ (s.conn.sendBuffer.drop bytesSent).take n } (bytesSent + n)
    refine ⟨chunks, ?_, ?_⟩
    · rw [hc, htc, ha, hu, ← hclient]
      simp only
      rw [← List.drop_drop, take_moved]
    · rw [hc, hq, hts, hg]
      exact hserved
  | @answer n hpos hle =>
    refine ⟨chunks, ?_, hserved⟩
    rw [← hclient]
    exact congrArg (· ++ s.unsent) (take_moved s.client.received s.arrived s.toClient n)

/-- **The server's side**, through a step. -/
theorem Served.step (hs : s.Served) {i : Step} (ht : Turn msgs s i s') : s'.Served := by
  obtain ⟨hup, hleft, hfresh⟩ := id hs
  cases ht with
  | interrupted hi => exact hs
  | write | read | deliver | answer | miss => exact ⟨hup, hleft, hfresh⟩
  | establish hserver => exact ⟨hup, fun _ h => (by cases h), fun h => by cases h⟩
  | event hserver hedge => exact ⟨hup, fun _ h => (by cases h), fun h => by cases h⟩
  | gather hserver htakes =>
    refine ⟨hup, hleft, fun haccepting => ?_⟩
    cases hserver.symm.trans haccepting
  | greet | drained =>
    refine ⟨hup, fun _ h => ?_, fun h => by cases h⟩
    cases h
    exact Nat.lt_of_lt_of_le (by decide) (List.length_append ▸ Nat.le_add_right _ _)
  | @sent bytesSent n hserver hpos hle =>
    obtain ⟨-, -, -, -, -, -, hstate, -⟩ := writeLoop_rest
      { s with toClient := s.toClient ++ (s.conn.sendBuffer.drop bytesSent).take n } (bytesSent + n)
    refine ⟨hstate.trans hup, fun b hb => ?_, fun haccepting => ?_⟩
    · unfold writeLoop at hb ⊢
      split at hb
      · rename_i hmore
        rw [if_pos hmore]
        cases hb
        exact hmore
      · cases hb
    · unfold writeLoop at haccepting
      split at haccepting <;> cases haccepting

/-- No event is spent in vain, unless it is too early. -/
theorem Awake.step (hs : s.Awake) {i : Step} (ht : Turn msgs s i s') (hi : i.early = false) : s'.Awake := by
  cases ht with
  | interrupted | write | read | answer => exact hs
  | deliver hpos hle => exact fun h => by cases h
  | establish hserver =>
    refine fun hedge _ => hs hedge ?_
    rw [hserver]
    exact fun h => by cases h
  | miss | greet => cases hi
  | event hserver hedge => exact fun _ hreading => absurd rfl hreading
  | gather hserver htakes => exact fun _ hreading => absurd hserver hreading
  | drained hserver hqueue => exact fun _ _ => hqueue
  | @sent bytesSent n hserver hpos hle =>
    obtain ⟨-, -, hq, hedge, -⟩ := writeLoop_rest
      { s with toClient := s.toClient ++ (s.conn.sendBuffer.drop bytesSent).take n } (bytesSent + n)
    intro h _
    rw [hq]
    refine hs (hedge.symm.trans h) ?_
    rw [hserver]
    exact fun h => by cases h

theorem Books.step (hb : Books msgs s) {i : Step} (he : s.Enabled capacity i)
    (hfull : i ≠ .serverWrite .again) : Books msgs (s.exec msgs i) := by
  have ht := hb.turn he hfull
  refine ⟨hb.echoes.step hb.served hb.waits ht, hb.served.step ht, ?_⟩
  have hclean := hb.echoes.clean_client
  revert ht
  generalize s.exec msgs i = s'
  intro ht
  cases ht with
  | write hplace => exact (client_write hb.waits hplace).2.2.1
  | @read r hplace htakes =>
    refine (client_read hb.waits hplace htakes.1 ?_).2.2.1
    rw [← htakes.split] at hclean
    simp only [List.mem_append, not_or] at hclean ⊢
    exact ⟨hclean.1, hclean.2.1⟩
  | @sent bytesSent n hserver hpos hle =>
    rw [(writeLoop_rest _ _).1]
    exact hb.waits
  | interrupted | deliver | establish | miss | greet | event | gather | drained | answer => exact hb.waits

theorem Books.start (hs : (echoSession msgs capacity).start s) : Books msgs s := by
  obtain rfl := hs
  refine ⟨⟨[], rfl, ?_⟩, ⟨rfl, fun _ h => (by cases h), fun _ => rfl⟩, waits_head (Nat.zero_le _)⟩
  rw [wrote_head]
  rfl

theorem books {s₀ : EchoSession} {h : List Step} (hstart : (echoSession msgs capacity).start s₀)
    (hrun : (echoSession msgs capacity).Run s₀ h s) (hfull : .serverWrite .again ∉ h) : Books msgs s := by
  refine hrun.invariant (I := fun h s => .serverWrite .again ∉ h → Books msgs s) ?_ (fun _ => .start hstart) hfull
  rintro h t i u hb ⟨he, rfl⟩ hfull
  obtain ⟨hi, hfull⟩ := not_or.mp (mt List.mem_cons.mpr hfull)
  exact (hb hfull).step he (Ne.symm hi)

/-- **No byte is lost, doubled or moved**, in any run in which no `write` of the server finds the descriptor full:
    what the client has printed and what it has not, what is on its way to it and what is being sent are echoes,
    one behind the other; and what they echo, and what is yet to be, is what the client has written. -/
theorem echoed_once {s₀ : EchoSession} {h : List Step} (hstart : (echoSession msgs capacity).start s₀)
    (hrun : (echoSession msgs capacity).Run s₀ h s) (hfull : .serverWrite .again ∉ h) :
    ∃ chunks : List (List Byte),
      (s.client.printed.reverse.map Prod.snd).flatten ++ s.client.readBuffer ++ s.arrived ++ s.toClient ++ s.unsent =
        (chunks.map (bytes "Echo: " ++ ·)).flatten ∧
      chunks.flatten ++ s.gathered ++ s.queue ++ s.toServer =
        (List.replicate s.client.wrote OneClient.message).flatten :=
  (books hstart hrun hfull).echoes

end

/-! ## Runs by execution -/

/-- A session before its first step. -/
def atStart (msgs : Int) : EchoSession :=
  ⟨OneClient.head msgs ⟨0, [], [], 0, [], .writing⟩, [], [], false, Connection.established, .accepting, [], []⟩

def after (msgs : Int) (capacity : Nat) (h : List Step) : Option EchoSession :=
  System.follow (fun s i => (.ok (s.exec msgs i) : Except Unit EchoSession))
    (fun s i => decide (s.Enabled capacity i)) (atStart msgs) h

theorem run_of_after {msgs : Int} {capacity : Nat} {h : List Step} {s : EchoSession}
    (hs : after msgs capacity h = some s) : (echoSession msgs capacity).Run (atStart msgs) h s :=
  System.Run.of_follow (fun _ _ _ hok hexec => And.intro (of_decide_eq_true hok) (Except.ok.inj hexec)) hs

/-- What `read` returns for bytes, as many as the buffer holds at most. -/
def someBytes (w : List Byte) (h : w.length ≤ Connection.bufferSize) : ReadResult :=
  ⟨w.length, 0, w, by omega, rfl, h⟩

def nothing : ReadResult := ⟨-1, eagain, [], by decide, rfl, by decide⟩

/-- The first bytes of a message, echoed while the others are on their way. -/
def halfEchoed : List Step := [.answer 10, .serverWrite (.wrote 10), .serverRead nothing,
  .serverRead (someBytes (bytes "I'm ") (by decide)), .event, .establish, .deliver 4, .clientWrite 11]

theorem echoed_once_half : ∃ s, after 1 100 halfEchoed = some s ∧ s.arrived = bytes "Echo: I'm " ∧
    s.toServer = bytes "client!" ∧ ∃ chunks : List (List Byte),
      (s.client.printed.reverse.map Prod.snd).flatten ++ s.client.readBuffer ++ s.arrived ++ s.toClient ++ s.unsent =
        (chunks.map (bytes "Echo: " ++ ·)).flatten ∧
      chunks.flatten ++ s.gathered ++ s.queue ++ s.toServer =
        (List.replicate s.client.wrote OneClient.message).flatten := by
  obtain ⟨s, hs, harrived, hserver⟩ : ∃ s, after 1 100 halfEchoed = some s ∧ s.arrived = bytes "Echo: I'm " ∧
      s.toServer = bytes "client!" := ⟨_, rfl, rfl, rfl⟩
  exact ⟨s, hs, harrived, hserver, echoed_once rfl (run_of_after hs) (by decide)⟩

end EchoSession

end LinuxServer
