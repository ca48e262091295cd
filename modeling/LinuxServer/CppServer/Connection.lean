import LinuxServer.Lib.System
import LinuxServer.Lib.CString

/-!
# `CppServer/Connection.lean` — a `Connection` of the server, and how its end is reported

A `Connection` is closed in `HandleClose`, which sets `m_state` and calls `closeCallback`; for a connection
of the server that is `Server::HandleClose`, which has the main loop erase its entry in `connections` and
queue `ConnectionDestructor` on its own loop. `Read` and `Write` do nothing to a connection that is closed.

The two read routines call `HandleClose` at the end of the stream and at an error. The two write routines
set `m_state` themselves, and leave it at that. So an end that a write finds is never reported
(`never_reported`), and every end is in the runs without one, and in no other (`reported_iff`).
-/

set_option autoImplicit false

namespace LinuxServer

/-- `Connection::ConnectionState`. -/
inductive ConnectionState
  | invalid
  | connected
  | closed
  deriving DecidableEq, Repr

/-- What a `read` answers. -/
inductive ReadAnswer
  | data (w : List Byte)
  | eof
  /-- `EAGAIN`, or `EWOULDBLOCK`. -/
  | again
  | intr
  | error
  deriving DecidableEq, Repr

/-- What a `write` answers. -/
inductive WriteAnswer
  | wrote (n : Nat)
  | again
  | intr
  | error
  deriving DecidableEq, Repr

/-- A connection of the server, and what has become of its `closeCallback`: how often it was called, how
    many `HandleCloseInLoop` of it are queued on the main loop, whether `connections` has its entry, and
    how often `ConnectionDestructor` has been queued on its loop. -/
structure Connection where
  state : ConnectionState
  readBuffer : List Byte
  sendBuffer : List Byte
  closeCalls : Nat
  mainTodo : Nat
  entry : Bool
  destructors : Nat
  deriving DecidableEq, Repr

namespace Connection

/-- A connection when `HandleNewConnection` is done. -/
def established : Connection := ⟨.connected, [], [], 0, 0, true, 0⟩

/-! ## The end -/

/-- `Server::HandleCloseInLoop`. -/
def handleCloseInLoop (c : Connection) : Connection :=
  { c with entry := false, destructors := c.destructors + 1 }

/-- `closeCallback`, that is `Server::HandleClose`, in the thread of the main loop or in another. -/
def closeCallback (in_main : Bool) (c : Connection) : Connection :=
  let c := { c with closeCalls := c.closeCalls + 1 }
  if in_main then c.handleCloseInLoop else { c with mainTodo := c.mainTodo + 1 }

def handleClose (in_main : Bool) (c : Connection) : Connection :=
  if c.state ≠ .closed then closeCallback in_main { c with state := .closed } else c

/-! ## Reading

The answers of `read` are those that the calls in the loop get; a call that needs more of them has not
returned. -/

def readNonBlocking (in_main : Bool) : Connection → List ReadAnswer → Option Connection
  | _, [] => none
  | c, .data w :: answers => readNonBlocking in_main { c with readBuffer := c.readBuffer ++ w } answers
  | c, .again :: _ => some c
  | c, .intr :: answers => readNonBlocking in_main c answers
  | c, .eof :: _ => some (c.handleClose in_main)
  | c, .error :: _ => some (c.handleClose in_main)

/-- With `intrTimes` interruptions left. -/
def readBlocking (in_main : Bool) (c : Connection) : (intrTimes : Nat) → List ReadAnswer → Option Connection
  | 0, _ => some c
  | _ + 1, [] => none
  | _ + 1, .data w :: _ => some { c with readBuffer := c.readBuffer ++ w }
  | intrTimes + 1, .intr :: answers => readBlocking in_main c intrTimes answers
  | _ + 1, .eof :: _ => some (c.handleClose in_main)
  | _ + 1, .again :: _ => some (c.handleClose in_main)
  | _ + 1, .error :: _ => some (c.handleClose in_main)

/-- `Read`, where `isBlocking()` says `blocking`. -/
def read (blocking in_main : Bool) (c : Connection) (answers : List ReadAnswer) : Option Connection :=
  if c.state ≠ .connected then some c
  else
    let c := { c with readBuffer := [] }
    if blocking then c.readBlocking in_main 3 answers else c.readNonBlocking in_main answers

/-! ## Writing -/

/-- With so many bytes left. -/
def writeNonBlocking (c : Connection) : (left : Nat) → List WriteAnswer → Option Connection
  | 0, _ => some c
  | _ + 1, [] => none
  | left + 1, .wrote n :: answers => writeNonBlocking c (left + 1 - n) answers
  | _ + 1, .again :: _ => some c
  | left + 1, .intr :: answers => writeNonBlocking c (left + 1) answers
  | _ + 1, .error :: _ => some { c with state := .closed }

/-- With so many bytes and interruptions left. -/
def writeBlocking (c : Connection) : (left intrTimes : Nat) → List WriteAnswer → Option Connection
  | 0, _, _ => some c
  | _ + 1, 0, _ => some c
  | _ + 1, _ + 1, [] => none
  | left + 1, intrTimes + 1, .wrote n :: answers => writeBlocking c (left + 1 - n) (intrTimes + 1) answers
  | left + 1, intrTimes + 1, .intr :: answers => writeBlocking c (left + 1) intrTimes answers
  | _ + 1, _ + 1, .again :: _ => some { c with state := .closed }
  | _ + 1, _ + 1, .error :: _ => some { c with state := .closed }

/-- `Write`. -/
def write (blocking : Bool) (c : Connection) (answers : List WriteAnswer) : Option Connection :=
  if c.state ≠ .connected then some c
  else
    let written := if blocking then c.writeBlocking c.sendBuffer.length 3 answers
      else c.writeNonBlocking c.sendBuffer.length answers
    written.map fun c => { c with sendBuffer := [] }

/-- `SetSendBuffer`, of a C string. -/
def setSendBuffer (c : Connection) (data : List Byte) : Connection :=
  { c with sendBuffer := data.takeWhile (· ≠ 0) }

/-- `Send`. -/
def send (blocking : Bool) (c : Connection) (data : List Byte) (answers : List WriteAnswer) :
    Option Connection :=
  (c.setSendBuffer data).write blocking answers

/-- What is done to a connection; the callback of a readable channel is a `read` with whatever
    `onMessageCallback` does behind it. -/
inductive Step
  | read (blocking in_main : Bool) (answers : List ReadAnswer)
  | write (blocking : Bool) (answers : List WriteAnswer)
  | send (blocking : Bool) (data : List Byte) (answers : List WriteAnswer)
  | setSendBuffer (data : List Byte)
  | handleClose (in_main : Bool)
  | handleCloseInLoop
  deriving DecidableEq, Repr

def exec (c : Connection) : Step → Option Connection
  | .read blocking in_main answers => c.read blocking in_main answers
  | .write blocking answers => c.write blocking answers
  | .send blocking data answers => c.send blocking data answers
  | .setSendBuffer data => some (c.setSendBuffer data)
  | .handleClose in_main => some (c.handleClose in_main)
  | .handleCloseInLoop =>
    if c.mainTodo = 0 then none else some { c with mainTodo := c.mainTodo - 1 }.handleCloseInLoop

end Connection

/-- A connection of the server from its start on. -/
def connection : System Connection Connection.Step where
  start c := c = Connection.established
  step c i c' := c.exec i = some c'

namespace Connection

/-! ## When a write fails -/

/-- A call of `write` comes to an error before the bytes are out. -/
def breaksNonBlocking : (left : Nat) → List WriteAnswer → Bool
  | 0, _ => false
  | _ + 1, [] => false
  | left + 1, .wrote n :: answers => breaksNonBlocking (left + 1 - n) answers
  | _ + 1, .again :: _ => false
  | left + 1, .intr :: answers => breaksNonBlocking (left + 1) answers
  | _ + 1, .error :: _ => true

def breaksBlocking : (left intrTimes : Nat) → List WriteAnswer → Bool
  | 0, _, _ => false
  | _ + 1, 0, _ => false
  | _ + 1, _ + 1, [] => false
  | left + 1, intrTimes + 1, .wrote n :: answers => breaksBlocking (left + 1 - n) (intrTimes + 1) answers
  | left + 1, intrTimes + 1, .intr :: answers => breaksBlocking (left + 1) intrTimes answers
  | _ + 1, _ + 1, .again :: _ => true
  | _ + 1, _ + 1, .error :: _ => true

def breaks (blocking : Bool) (left : Nat) (answers : List WriteAnswer) : Bool :=
  if blocking then breaksBlocking left 3 answers else breaksNonBlocking left answers

/-- The steps with no error of a `write` in them. -/
def WritesOut (c : Connection) : Step → Prop
  | .write blocking answers =>
    c.state = .connected → breaks blocking c.sendBuffer.length answers = false
  | .send blocking data answers =>
    c.state = .connected → breaks blocking (data.takeWhile (· ≠ 0)).length answers = false
  | _ => True

/-- **The report** of an end: one call of `closeCallback`, for which the entry is erased and
    `ConnectionDestructor` queued, once, unless the main loop is still to do it. -/
def Reported (c : Connection) : Prop :=
  c.state = .closed → c.closeCalls = 1 ∧ c.mainTodo + c.destructors = 1 ∧
    (c.mainTodo = 0 → c.entry = false ∧ c.destructors = 1)

section
variable {c c' s t : Connection} {h : List Step} {blocking in_main : Bool}

/-! ## Once it is not connected -/

theorem handleClose_buffer (c : Connection) (in_main : Bool) :
    (c.handleClose in_main).readBuffer = c.readBuffer ∧ (c.handleClose in_main).state = .closed := by
  unfold handleClose
  by_cases hstate : c.state = .closed
  · rw [if_neg (not_not_intro hstate)]
    exact ⟨rfl, hstate⟩
  · rw [if_pos hstate]
    cases in_main with
    | true => exact ⟨rfl, rfl⟩
    | false => exact ⟨rfl, rfl⟩

theorem read_late (hlate : c.state ≠ .connected) (blocking in_main : Bool) (answers : List ReadAnswer) :
    c.read blocking in_main answers = some c := if_pos hlate

theorem write_late (hlate : c.state ≠ .connected) (blocking : Bool) (answers : List WriteAnswer) :
    c.write blocking answers = some c := if_pos hlate

theorem send_late (hlate : c.state ≠ .connected) (blocking : Bool) (data : List Byte)
    (answers : List WriteAnswer) : c.send blocking data answers = some (c.setSendBuffer data) := if_pos hlate

/-- A connection that is not connected is not connected again. -/
theorem exec_late (hlate : c.state ≠ .connected) {i : Step} (hexec : c.exec i = some c') :
    c'.state ≠ .connected := by
  cases i with
  | read blocking in_main answers =>
    cases (read_late hlate blocking in_main answers).symm.trans hexec
    exact hlate
  | write blocking answers =>
    cases (write_late hlate blocking answers).symm.trans hexec
    exact hlate
  | send blocking data answers =>
    cases (send_late hlate blocking data answers).symm.trans hexec
    exact hlate
  | setSendBuffer data =>
    cases hexec
    exact hlate
  | handleClose in_main =>
    cases hexec
    rw [(handleClose_buffer c in_main).2]
    exact fun heq => by cases heq
  | handleCloseInLoop =>
    simp only [Connection.exec] at hexec
    split at hexec
    · cases hexec
    · cases hexec
      exact hlate

/-! ## What the routines do -/

theorem readNonBlocking_cases {answers : List ReadAnswer}
    (hread : c.readNonBlocking in_main answers = some c') :
    ∃ w, c' = { c with readBuffer := w } ∨ c' = handleClose in_main { c with readBuffer := w } := by
  induction answers generalizing c with
  | nil => cases hread
  | cons answer answers ih =>
    cases answer with
    | data w => exact ih (c := { c with readBuffer := c.readBuffer ++ w }) hread
    | again =>
      cases hread
      exact ⟨c'.readBuffer, .inl rfl⟩
    | intr => exact ih hread
    | eof | error =>
      cases hread
      exact ⟨c.readBuffer, .inr rfl⟩

theorem readBlocking_cases {answers : List ReadAnswer} {intrTimes : Nat}
    (hread : c.readBlocking in_main intrTimes answers = some c') :
    ∃ w, c' = { c with readBuffer := w } ∨ c' = handleClose in_main { c with readBuffer := w } := by
  induction intrTimes generalizing answers with
  | zero =>
    cases hread
    exact ⟨c.readBuffer, .inl rfl⟩
  | succ intrTimes ih =>
    cases answers with
    | nil => cases hread
    | cons answer answers =>
      cases answer with
      | data w =>
        cases hread
        exact ⟨c.readBuffer ++ w, .inl rfl⟩
      | intr => exact ih hread
      | eof | again | error =>
        cases hread
        exact ⟨c.readBuffer, .inr rfl⟩

/-- **`Read`** fills the buffer, and may come to `HandleClose`. -/
theorem read_cases {answers : List ReadAnswer} (hread : c.read blocking in_main answers = some c') :
    ∃ w, c' = { c with readBuffer := w } ∨ c' = handleClose in_main { c with readBuffer := w } := by
  unfold read at hread
  split at hread
  · cases hread
    exact ⟨c.readBuffer, .inl rfl⟩
  · simp only at hread
    split at hread
    · exact readBlocking_cases (c := { c with readBuffer := [] }) hread
    · exact readNonBlocking_cases (c := { c with readBuffer := [] }) hread

theorem writeNonBlocking_eq {answers : List WriteAnswer} {left : Nat}
    (hwrite : c.writeNonBlocking left answers = some c') :
    c' = if breaksNonBlocking left answers then { c with state := .closed } else c := by
  induction answers generalizing left with
  | nil =>
    cases left with
    | zero => exact (Option.some.inj hwrite).symm
    | succ left => cases hwrite
  | cons answer answers ih =>
    cases left with
    | zero => exact (Option.some.inj hwrite).symm
    | succ left =>
      cases answer with
      | wrote n => exact ih hwrite
      | intr => exact ih hwrite
      | again => exact (Option.some.inj hwrite).symm
      | error => exact (Option.some.inj hwrite).symm

theorem writeBlocking_eq {answers : List WriteAnswer} {left intrTimes : Nat}
    (hwrite : c.writeBlocking left intrTimes answers = some c') :
    c' = if breaksBlocking left intrTimes answers then { c with state := .closed } else c := by
  induction answers generalizing left intrTimes with
  | nil =>
    cases left with
    | zero => exact (Option.some.inj hwrite).symm
    | succ left =>
      cases intrTimes with
      | zero => exact (Option.some.inj hwrite).symm
      | succ intrTimes => cases hwrite
  | cons answer answers ih =>
    cases left with
    | zero => exact (Option.some.inj hwrite).symm
    | succ left =>
      cases intrTimes with
      | zero => exact (Option.some.inj hwrite).symm
      | succ intrTimes =>
        cases answer with
        | wrote n => exact ih hwrite
        | intr => exact ih hwrite
        | again => exact (Option.some.inj hwrite).symm
        | error => exact (Option.some.inj hwrite).symm

/-- **`Write`** closes a connection only where a `write` fails, and tells nobody. -/
theorem write_eq {answers : List WriteAnswer} (hwrite : c.write blocking answers = some c') :
    c' = if c.state ≠ .connected then c
      else if breaks blocking c.sendBuffer.length answers then { c with state := .closed, sendBuffer := [] }
      else { c with sendBuffer := [] } := by
  unfold write at hwrite
  split at hwrite
  · rename_i hstate
    rw [if_pos hstate]
    exact (Option.some.inj hwrite).symm
  · rename_i hstate
    rw [if_neg hstate]
    obtain ⟨written, hwritten, rfl⟩ := Option.map_eq_some_iff.mp hwrite
    unfold breaks
    cases blocking with
    | true =>
      rw [writeBlocking_eq hwritten, if_pos rfl]
      split <;> rfl
    | false =>
      rw [writeNonBlocking_eq hwritten, if_neg Bool.false_ne_true]
      split <;> rfl

/-! ## One step -/

/-- What holds of every connection, reported or not. -/
structure Ledger (c : Connection) : Prop where
  calls : c.closeCalls ≤ 1
  open_ : c.state ≠ .closed → c.closeCalls = 0
  removed : c.mainTodo + c.destructors = c.closeCalls
  entry : c.entry = true ↔ c.destructors = 0

theorem ledger_established : Ledger established := by
  refine ⟨Nat.zero_le 1, fun _ => rfl, rfl, iff_of_true rfl rfl⟩

theorem Ledger.reported (hc : c.Ledger) (hcalls : c.state = .closed → c.closeCalls = 1) : c.Reported := by
  intro hclosed
  have hone := hcalls hclosed
  have hremoved := hc.removed
  refine ⟨hone, by omega, fun hmain => ?_⟩
  have hdestructors : c.destructors = 1 := by omega
  refine ⟨?_, hdestructors⟩
  cases hentry : c.entry with
  | false => rfl
  | true =>
    have hzero := hc.entry.mp hentry
    omega

theorem Ledger.buffers (hc : c.Ledger) (r w : List Byte) :
    Ledger { c with readBuffer := r, sendBuffer := w } :=
  ⟨hc.calls, hc.open_, hc.removed, hc.entry⟩

/-- `HandleClose` keeps the books. -/
theorem Ledger.handleClose (hc : c.Ledger) (in_main : Bool) : (c.handleClose in_main).Ledger := by
  unfold Connection.handleClose
  by_cases hstate : c.state = .closed
  · rw [if_neg (not_not_intro hstate)]
    exact hc
  · rw [if_pos hstate]
    have hzero := hc.open_ hstate
    have hremoved := hc.removed
    unfold closeCallback
    cases in_main with
    | true =>
      refine ⟨?_, fun hne => absurd rfl hne, ?_, iff_of_false Bool.false_ne_true (Nat.succ_ne_zero _)⟩
      · show c.closeCalls + 1 ≤ 1
        omega
      · show c.mainTodo + (c.destructors + 1) = c.closeCalls + 1
        omega
    | false =>
      refine ⟨?_, fun hne => absurd rfl hne, ?_, hc.entry⟩
      · show c.closeCalls + 1 ≤ 1
        omega
      · show c.mainTodo + 1 + c.destructors = c.closeCalls + 1
        omega

/-- So does a `Write`, whatever it comes to. -/
theorem Ledger.write (hc : c.Ledger) {answers : List WriteAnswer}
    (hwrite : c.write blocking answers = some c') : c'.Ledger := by
  rw [write_eq hwrite]
  split
  · exact hc
  · split
    · exact ⟨hc.calls, fun hne => absurd rfl hne, hc.removed, hc.entry⟩
    · exact hc.buffers c.readBuffer []

theorem Ledger.exec (hc : c.Ledger) {i : Step} (hexec : c.exec i = some c') : c'.Ledger := by
  cases i with
  | read blocking in_main answers =>
    obtain ⟨w, rfl | rfl⟩ := read_cases hexec
    · exact hc.buffers w c.sendBuffer
    · exact (hc.buffers w c.sendBuffer).handleClose in_main
  | write blocking answers => exact hc.write hexec
  | send blocking data answers => exact (hc.buffers c.readBuffer (data.takeWhile (· ≠ 0))).write hexec
  | setSendBuffer data =>
    cases hexec
    exact hc.buffers c.readBuffer _
  | handleClose in_main =>
    cases hexec
    exact hc.handleClose in_main
  | handleCloseInLoop =>
    simp only [Connection.exec] at hexec
    split at hexec
    · cases hexec
    · cases hexec
      have hremoved := hc.removed
      refine ⟨hc.calls, hc.open_, ?_, iff_of_false Bool.false_ne_true (Nat.succ_ne_zero _)⟩
      show c.mainTodo - 1 + (c.destructors + 1) = c.closeCalls
      omega

/-- Whoever was told of its end: `HandleClose` tells, unless it finds the connection closed. -/
theorem calls_handleClose (hcalls : c.state = .closed → c.closeCalls = 1) (hc : c.Ledger) (in_main : Bool) :
    (c.handleClose in_main).closeCalls = 1 := by
  unfold handleClose
  by_cases hstate : c.state = .closed
  · rw [if_neg (not_not_intro hstate)]
    exact hcalls hstate
  · rw [if_pos hstate]
    have hzero := hc.open_ hstate
    cases in_main with
    | true =>
      show c.closeCalls + 1 = 1
      omega
    | false =>
      show c.closeCalls + 1 = 1
      omega

/-- A `Write` leaves an end unreported if and only if it breaks. -/
theorem reported_write (hc : c.Ledger) (hreported : c.Reported) {answers : List WriteAnswer}
    (hwrite : c.write blocking answers = some c') :
    c'.Reported ↔ (c.state = .connected → breaks blocking c.sendBuffer.length answers = false) := by
  rw [write_eq hwrite]
  by_cases hstate : c.state = .connected
  · rw [if_neg (not_not_intro hstate)]
    have hzero : c.closeCalls = 0 := hc.open_ (by rw [hstate]; exact fun heq => by cases heq)
    by_cases hbreaks : breaks blocking c.sendBuffer.length answers = true
    · rw [if_pos hbreaks]
      refine iff_of_false ?_ ?_
      · intro hreported'
        have hone : c.closeCalls = 1 := (hreported' rfl).1
        omega
      · intro hnot
        rw [hnot hstate] at hbreaks
        cases hbreaks
    · rw [if_neg hbreaks]
      exact iff_of_true hreported fun _ => Bool.eq_false_iff.mpr hbreaks
  · rw [if_pos hstate]
    exact iff_of_true hreported fun heq => absurd heq hstate

/-- **One step** reports an end unless a `write` in it fails. -/
theorem reported_exec (hc : c.Ledger) (hreported : c.Reported) {i : Step} (hexec : c.exec i = some c') :
    c'.Reported ↔ WritesOut c i := by
  have hledger := hc.exec hexec
  cases i with
  | read blocking in_main answers =>
    refine iff_of_true ?_ trivial
    obtain ⟨w, rfl | rfl⟩ := read_cases hexec
    · exact hreported
    · exact hledger.reported fun _ => calls_handleClose (c := { c with readBuffer := w })
        (fun hclosed => (hreported hclosed).1) (hc.buffers w c.sendBuffer) in_main
  | write blocking answers => exact reported_write hc hreported hexec
  | send blocking data answers =>
    exact reported_write (hc.buffers c.readBuffer (data.takeWhile (· ≠ 0))) hreported hexec
  | setSendBuffer data =>
    cases hexec
    exact iff_of_true hreported trivial
  | handleClose in_main =>
    cases hexec
    exact iff_of_true
      (hledger.reported fun _ => calls_handleClose (fun hclosed => (hreported hclosed).1) hc in_main) trivial
  | handleCloseInLoop =>
    refine iff_of_true (hledger.reported fun hclosed => ?_) trivial
    simp only [Connection.exec] at hexec
    split at hexec
    · cases hexec
    · cases hexec
      exact (hreported hclosed).1

/-! ## Every run -/

theorem deterministic : connection.Deterministic := by
  intro c i u u' hu hu'
  exact Option.some.inj (hu.symm.trans hu')

theorem ledger {c : Connection} (hc : connection.Reachable c) : c.Ledger := by
  refine hc.invariant (I := Ledger) ?_ ?_
  · intro s hstart
    obtain rfl : s = established := hstart
    exact ledger_established
  · intro c i c' hc hexec
    exact hc.exec hexec

/-- **An end is reported** in every state of a run if and only if no `write` fails in it. -/
theorem reported_iff (hstart : connection.start s) (hrun : connection.Run s h t) :
    (connection.restrict WritesOut).Run s h t ↔
      ∀ h' t', h' <:+ h → connection.Run s h' t' → t'.Reported := by
  refine hrun.restrict_iff deterministic ?_ hstart ?_
  · intro c i c' hreachable hreported hexec
    exact reported_exec (ledger hreachable) hreported hexec
  · obtain rfl : s = established := hstart
    intro hclosed
    cases hclosed

/-- **An end that a write finds** is never reported, whatever comes after it. -/
theorem never_reported (hclosed : t.state = .closed) (hcalls : t.closeCalls = 0) (hmain : t.mainTodo = 0)
    (hrun : connection.Run t h c) : c.state = .closed ∧ c.closeCalls = 0 ∧ c.mainTodo = 0 := by
  refine hrun.invariant (I := fun _ c => c.state = .closed ∧ c.closeCalls = 0 ∧ c.mainTodo = 0) ?_
    ⟨hclosed, hcalls, hmain⟩
  intro _ c i c' hc hexec
  obtain ⟨hclosed, hcalls, hmain⟩ := hc
  have hlate : c.state ≠ .connected := by
    rw [hclosed]
    exact fun heq => by cases heq
  cases i with
  | read blocking in_main answers =>
    cases (read_late hlate blocking in_main answers).symm.trans hexec
    exact ⟨hclosed, hcalls, hmain⟩
  | write blocking answers =>
    cases (write_late hlate blocking answers).symm.trans hexec
    exact ⟨hclosed, hcalls, hmain⟩
  | send blocking data answers =>
    cases (send_late hlate blocking data answers).symm.trans hexec
    exact ⟨hclosed, hcalls, hmain⟩
  | setSendBuffer data =>
    cases hexec
    exact ⟨hclosed, hcalls, hmain⟩
  | handleClose in_main =>
    have hclose : c.handleClose in_main = c := if_neg (not_not_intro hclosed)
    have hexec' : some (c.handleClose in_main) = some c' := hexec
    rw [hclose] at hexec'
    cases hexec'
    exact ⟨hclosed, hcalls, hmain⟩
  | handleCloseInLoop =>
    have hnone : c.exec .handleCloseInLoop = none := if_pos hmain
    cases hnone.symm.trans hexec

/-- A connection that the client closes: one report, one erasure, one `ConnectionDestructor`. -/
theorem reported_iff_eof : (⟨.closed, [], [], 1, 0, false, 1⟩ : Connection).Reported := by
  have hread : connection.step established (.read false false [.eof]) ⟨.closed, [], [], 1, 1, true, 0⟩ := rfl
  have hloop : connection.step ⟨.closed, [], [], 1, 1, true, 0⟩ .handleCloseInLoop
      ⟨.closed, [], [], 1, 0, false, 1⟩ := rfl
  exact (reported_iff rfl (.step (.step (.nil _) hread) hloop)).mp
    (.step (.step (.nil _) ⟨hread, trivial⟩) ⟨hloop, trivial⟩) _ _ (List.suffix_refl _)
    (.step (.step (.nil _) hread) hloop)

/-- **It fails** for a `Send` to a client that is gone. -/
theorem send_unreported : ∃ t, connection.Run established [.send false [97] [.error]] t ∧ t.state = .closed ∧
    ∀ h t', connection.Run t h t' → t'.state = .closed ∧ t'.closeCalls = 0 := by
  refine ⟨⟨.closed, [], [], 0, 0, true, 0⟩, .step (.nil _) rfl, rfl, ?_⟩
  intro h t' hrun
  obtain ⟨hclosed, hcalls, -⟩ := never_reported rfl rfl rfl hrun
  exact ⟨hclosed, hcalls⟩

end

end Connection

end LinuxServer
