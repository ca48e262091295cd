import LinuxServer.CppServer.Echo

/-!
# `CppServer/Drain.lean` — the non-blocking `Read`, against a socket

`ReadNonBlocking` looks at `bytesRead`, and at `errno` where that is −1, in a cascade of five branches. Here it is
with both (`rawReadNonBlocking`), and what it answers is what `readNonBlocking` does of the answers that
the cascade tells apart (`rawRead_eq`). The results that it has not used are handed back, so that it is said where
it ends.

There is one branch that leaves the loop and the connection open, and `read` answers so only when the receive
queue is empty. So an edge that is spent on a connection that stays open has been spent on all there was, and
bytes that come later bring an edge of their own (`drained`).
-/

set_option autoImplicit false

namespace LinuxServer

/-! ## `<errno.h>` -/

def eintr : Int := 4

def eagain : Int := 11

def ewouldblock : Int := 11

/-- `Connection::BUFFER_SIZE`. -/
def Connection.bufferSize : Nat := 1024

/-- What a `read` into `data` returns, the `errno` it leaves, and the bytes it has put there. -/
structure ReadResult where
  bytesRead : Int
  errno : Int
  bytes : List Byte
  least : -1 ≤ bytesRead
  length : bytes.length = bytesRead.toNat
  most : bytes.length ≤ Connection.bufferSize
  deriving DecidableEq, Repr

namespace ReadResult

/-- `data`, which was zeroed before. -/
def data (r : ReadResult) : List Byte := r.bytes ++ List.replicate (Connection.bufferSize - r.bytes.length) 0

/-- A positive count, or `EINTR`. -/
def goesOn (r : ReadResult) : Bool := 0 < r.bytesRead ∨ r.bytesRead = -1 ∧ r.errno = eintr

/-- The end of the stream, or an error that is none of the three. -/
def closes (r : ReadResult) : Bool :=
  r.bytesRead = 0 ∨ r.bytesRead = -1 ∧ r.errno ≠ eagain ∧ r.errno ≠ ewouldblock ∧ r.errno ≠ eintr

/-- The branch of the cascade that it is. -/
def answer (r : ReadResult) : ReadAnswer :=
  if 0 < r.bytesRead then .data r.bytes
  else if r.bytesRead = -1 ∧ (r.errno = eagain ∨ r.errno = ewouldblock) then .again
  else if r.bytesRead = -1 ∧ r.errno = eintr then .intr
  else if r.bytesRead = 0 then .eof
  else .error

end ReadResult

namespace Connection

/-- One turn of the loop of `ReadNonBlocking`, and whether it goes on. -/
def readTurn (in_main : Bool) (c : Connection) (r : ReadResult) : Bool × Connection :=
  if 0 < r.bytesRead then
    (true, { c with readBuffer := c.readBuffer ++ r.data.take r.bytesRead.toNat })
  else if r.bytesRead = -1 ∧ (r.errno = eagain ∨ r.errno = ewouldblock) then (false, c)
  else if r.bytesRead = -1 ∧ r.errno = eintr then (true, c)
  else if r.bytesRead = 0 then (false, c.handleClose in_main)
  else (false, c.handleClose in_main)

/-- `ReadNonBlocking`, and the results that it has not come to. -/
def rawReadNonBlocking (in_main : Bool) :
    Connection → List ReadResult → Option (Connection × List ReadResult)
  | _, [] => none
  | c, r :: results =>
    let (more, c) := c.readTurn in_main r
    if more then rawReadNonBlocking in_main c results else some (c, results)

/-- `Read`, where `isBlocking()` says no. -/
def rawRead (in_main : Bool) (c : Connection) (results : List ReadResult) :
    Option (Connection × List ReadResult) :=
  if c.state ≠ .connected then some (c, results)
  else rawReadNonBlocking in_main { c with readBuffer := [] } results

end Connection

/-- The receiving end of a socket: what has come and was not read, and whether the client has closed its
    own. -/
structure Socket where
  queue : List Byte
  hungUp : Bool
  deriving DecidableEq, Repr

namespace Socket

/-- What may come between two calls. Nothing does once the client has closed. -/
def Grows (s s' : Socket) : Prop := ∃ w, s'.queue = s.queue ++ w ∧ (s.hungUp = true → s' = s)

/-- What a `read` of a non-blocking socket may answer, and what it leaves there: bytes from the front of the queue;
    or that there are none, with the end of the stream behind them or without; or `EINTR` or an error, at any
    time. -/
def Answers (s : Socket) (r : ReadResult) (s' : Socket) : Prop :=
  if 0 < r.bytesRead then s.queue = r.bytes ++ s'.queue ∧ s'.hungUp = s.hungUp
  else s' = s ∧ (r.bytesRead = 0 → s.queue = [] ∧ s.hungUp = true) ∧
    (r.bytesRead = -1 → r.errno = eagain ∨ r.errno = ewouldblock → s.queue = [] ∧ s.hungUp = false)

/-- The results of one call of `Read`. -/
inductive Serves : Socket → List ReadResult → Socket → Prop
  | nil (s : Socket) : Serves s [] s
  | read {s s₁ s' t : Socket} {r : ReadResult} {results : List ReadResult} : s.Grows s₁ →
      s₁.Answers r s' → Serves s' results t → Serves s (r :: results) t

end Socket

/-- A connection of the server, its socket, and whether epoll has an event for it. -/
structure EdgeTriggered where
  conn : Connection
  socket : Socket
  edge : Bool

namespace EdgeTriggered

inductive Step
  /-- Bytes from the client. -/
  | arrive (w : List Byte)
  | hangUp
  /-- The event is handled: a `Read` with these results. -/
  | event (in_main : Bool) (results : List ReadResult)
  /-- Anything else that is done to the connection. -/
  | call (i : Connection.Step)
  deriving DecidableEq, Repr

def isRead : Connection.Step → Bool
  | .read _ _ _ => true
  | _ => false

end EdgeTriggered

/-- A connection with an edge-triggered channel. What comes while an event is handled may leave another one
    or none. -/
def edgeTriggered : System EdgeTriggered EdgeTriggered.Step where
  start e := e.conn = Connection.established ∧ (e.socket.queue ≠ [] ∨ e.socket.hungUp = true → e.edge = true)
  step e i e' := match i with
    | .arrive w => e.socket.hungUp = false ∧ w ≠ [] ∧
        e' = ⟨e.conn, { e.socket with queue := e.socket.queue ++ w }, true⟩
    | .hangUp => e' = ⟨e.conn, { e.socket with hungUp := true }, true⟩
    | .event in_main results => e.edge = true ∧ e.socket.Serves results e'.socket ∧
        e.conn.rawRead in_main results = some (e'.conn, [])
    | .call i => EdgeTriggered.isRead i = false ∧ e.conn.exec i = some e'.conn ∧ e'.socket = e.socket ∧
        e'.edge = e.edge

namespace ReadResult

variable {r : ReadResult}

/-- What is appended is what was read. -/
theorem take_data (r : ReadResult) : r.data.take r.bytesRead.toNat = r.bytes := by
  rw [← r.length]
  exact List.take_left

/-- The bytes of a call that was interrupted or failed. -/
theorem bytes_eq_nil (hnone : r.bytesRead ≤ 0) : r.bytes = [] :=
  List.eq_nil_of_length_eq_zero (r.length.trans (Int.toNat_of_nonpos hnone))

theorem goesOn_iff : r.goesOn = true ↔ 0 < r.bytesRead ∨ r.bytesRead = -1 ∧ r.errno = eintr :=
  decide_eq_true_iff

theorem closes_iff : r.closes = true ↔
    r.bytesRead = 0 ∨ r.bytesRead = -1 ∧ r.errno ≠ eagain ∧ r.errno ≠ ewouldblock ∧ r.errno ≠ eintr :=
  decide_eq_true_iff

end ReadResult

namespace Connection

section
variable {c c' : Connection} {r last : ReadResult} {front rest results left : List ReadResult} {in_main : Bool}

/-! ## One turn -/

/-- **The cascade**: a turn goes on with what was read, or ends as it is, or in `HandleClose`. -/
theorem readTurn_eq (in_main : Bool) (c : Connection) (r : ReadResult) :
    c.readTurn in_main r =
      if r.goesOn then (true, { c with readBuffer := c.readBuffer ++ r.bytes })
      else (false, if r.closes then c.handleClose in_main else c) := by
  have hleast := r.least
  unfold readTurn
  by_cases hdata : 0 < r.bytesRead
  · rw [if_pos hdata, if_pos (ReadResult.goesOn_iff.mpr (.inl hdata)), r.take_data]
  · rw [if_neg hdata]
    by_cases hagain : r.bytesRead = -1 ∧ (r.errno = eagain ∨ r.errno = ewouldblock)
    · -- `EAGAIN` is none of the others
      have hno : ¬ r.goesOn = true := by
        rw [ReadResult.goesOn_iff]
        rintro (hpos | ⟨-, hintr⟩)
        · exact hdata hpos
        · rcases hagain.2 with h | h <;> exact absurd (hintr.symm.trans h) (by decide)
      have hopen : ¬ r.closes = true := by
        rw [ReadResult.closes_iff]
        rintro (hzero | ⟨-, hne, hne', -⟩)
        · omega
        · exact hagain.2.elim hne hne'
      rw [if_pos hagain, if_neg hno, if_neg hopen]
    · rw [if_neg hagain]
      by_cases hintr : r.bytesRead = -1 ∧ r.errno = eintr
      · rw [if_pos hintr, if_pos (ReadResult.goesOn_iff.mpr (.inr hintr)), ReadResult.bytes_eq_nil (by omega),
          List.append_nil]
      · have hno : ¬ r.goesOn = true := fun hgoes =>
          (ReadResult.goesOn_iff.mp hgoes).elim hdata hintr
        have hcloses : r.closes = true := by
          rw [ReadResult.closes_iff]
          by_cases hzero : r.bytesRead = 0
          · exact .inl hzero
          · have hfailed : r.bytesRead = -1 := by omega
            exact .inr ⟨hfailed, fun h => hagain ⟨hfailed, .inl h⟩, fun h => hagain ⟨hfailed, .inr h⟩,
              fun h => hintr ⟨hfailed, h⟩⟩
        rw [if_neg hintr, if_neg hno, if_pos hcloses]
        exact ite_self _

/-- As the answers have it. -/
theorem readTurn_answer (in_main : Bool) (c : Connection) (r : ReadResult) (answers : List ReadAnswer) :
    c.readNonBlocking in_main (r.answer :: answers) =
      if (c.readTurn in_main r).1 then (c.readTurn in_main r).2.readNonBlocking in_main answers
      else some (c.readTurn in_main r).2 := by
  unfold readTurn ReadResult.answer
  split
  · rw [r.take_data]
    rfl
  · split
    · rfl
    · split
      · rfl
      · split
        · rfl
        · rfl

/-! ## The loop -/

/-- **The loop** is that of `readNonBlocking`. -/
theorem rawReadNonBlocking_eq :
    (c.rawReadNonBlocking in_main results).map Prod.fst =
      c.readNonBlocking in_main (results.map ReadResult.answer) := by
  induction results generalizing c with
  | nil => rfl
  | cons r results ih =>
    rw [rawReadNonBlocking, List.map_cons, readTurn_answer]
    simp only
    split
    · exact ih
    · rfl

/-- **`Read`** with its counts and error numbers is `read` with its answers. -/
theorem rawRead_eq : (c.rawRead in_main results).map Prod.fst =
    c.read false in_main (results.map ReadResult.answer) := by
  unfold rawRead read
  split
  · rfl
  · exact rawReadNonBlocking_eq

/-- Results that the loop goes on with. -/
theorem rawReadNonBlocking_front (hfront : ∀ r ∈ front, r.goesOn = true) (results : List ReadResult) :
    c.rawReadNonBlocking in_main (front ++ results) =
      rawReadNonBlocking in_main
        { c with readBuffer := c.readBuffer ++ (front.map ReadResult.bytes).flatten } results := by
  induction front generalizing c with
  | nil =>
    rw [List.nil_append, List.map_nil, List.flatten_nil, List.append_nil]
  | cons r front ih =>
    obtain ⟨hr, hfront⟩ := List.forall_mem_cons.mp hfront
    rw [List.cons_append, rawReadNonBlocking, readTurn_eq, if_pos hr]
    simp only [if_true]
    rw [ih hfront, List.map_cons, List.flatten_cons, List.append_assoc]

/-- And one that it ends at. -/
theorem rawReadNonBlocking_last (hlast : last.goesOn = false) (rest : List ReadResult) :
    c.rawReadNonBlocking in_main (last :: rest) =
      some (if last.closes then c.handleClose in_main else c, rest) := by
  rw [rawReadNonBlocking, readTurn_eq, hlast]
  rfl

/-- A `Read` that has returned, and has used all its results. -/
theorem rawRead_split (hstate : c.state = .connected) (hread : c.rawRead in_main results = some (c', [])) :
    ∃ front last, results = front ++ [last] ∧ (∀ r ∈ front, r.goesOn = true) ∧ last.goesOn = false := by
  unfold rawRead at hread
  rw [if_neg (not_not_intro hstate)] at hread
  generalize ({ c with readBuffer := [] } : Connection) = d at hread
  induction results generalizing d with
  | nil => cases hread
  | cons r results ih =>
    rw [rawReadNonBlocking, readTurn_eq] at hread
    cases hgoes : r.goesOn with
    | true =>
      rw [hgoes] at hread
      simp only [if_true] at hread
      obtain ⟨front, last, rfl, hfront, hlast⟩ := ih _ hread
      exact ⟨r :: front, last, rfl, List.forall_mem_cons.mpr ⟨hgoes, hfront⟩, hlast⟩
    | false =>
      rw [hgoes] at hread
      cases hread
      exact ⟨[], r, rfl, List.forall_mem_nil _, hgoes⟩

end

end Connection

/-! ## The queue -/

namespace ReadResult

/-- What neither goes on nor closes is `EAGAIN`. -/
theorem again_of_open {r : ReadResult} (hgoes : r.goesOn = false) (hopen : r.closes = false) :
    r.bytesRead = -1 ∧ (r.errno = eagain ∨ r.errno = ewouldblock) := by
  have hleast := r.least
  have hgoes' := mt goesOn_iff.mpr (ne_of_eq_of_ne hgoes Bool.false_ne_true)
  have hopen' := mt closes_iff.mpr (ne_of_eq_of_ne hopen Bool.false_ne_true)
  rw [not_or] at hgoes' hopen'
  have hfailed : r.bytesRead = -1 := by omega
  refine ⟨hfailed, ?_⟩
  by_contra hother
  obtain ⟨hagain, hblock⟩ := not_or.mp hother
  exact hopen'.2 ⟨hfailed, hagain, hblock, fun hintr => hgoes'.2 ⟨hfailed, hintr⟩⟩

end ReadResult

namespace Socket

variable {s s' : Socket} {last : ReadResult} {front : List ReadResult}

/-- **`EAGAIN`** is answered for an empty queue. -/
theorem Serves.empty (hserves : s.Serves (front ++ [last]) s') (hfailed : last.bytesRead = -1)
    (hagain : last.errno = eagain ∨ last.errno = ewouldblock) : s'.queue = [] ∧ s'.hungUp = false := by
  induction front generalizing s with
  | nil =>
    cases hserves with
    | read _ hanswers hnil =>
      cases hnil
      unfold Answers at hanswers
      rw [if_neg (by omega)] at hanswers
      obtain ⟨rfl, -, hempty⟩ := hanswers
      exact hempty hfailed hagain
  | cons r front ih =>
    cases hserves with
    | read _ _ hserves => exact ih hserves

end Socket

namespace EdgeTriggered

/-- **The invariant**: a connection that is open has nothing to read, or an event. -/
def Awake (e : EdgeTriggered) : Prop :=
  e.conn.state = .connected → e.edge = false → e.socket.queue = [] ∧ e.socket.hungUp = false

section
variable {e e' : EdgeTriggered}

/-- A `Read` that leaves the connection open has found the queue empty. -/
theorem empty_of_read {c c' : Connection} {s s' : Socket} {in_main : Bool} {results : List ReadResult}
    (hstate : c.state = .connected) (hread : c.rawRead in_main results = some (c', []))
    (hserves : s.Serves results s') (hconnected : c'.state = .connected) :
    s'.queue = [] ∧ s'.hungUp = false := by
  obtain ⟨front, last, rfl, hfront, hlast⟩ := Connection.rawRead_split hstate hread
  unfold Connection.rawRead at hread
  rw [if_neg (not_not_intro hstate), Connection.rawReadNonBlocking_front hfront,
    Connection.rawReadNonBlocking_last hlast] at hread
  cases hcloses : last.closes with
  | true =>
    rw [hcloses] at hread
    cases hread
    rw [if_pos rfl, (Connection.handleClose_buffer _ in_main).2] at hconnected
    cases hconnected
  | false =>
    obtain ⟨hfailed, hagain⟩ := ReadResult.again_of_open hlast hcloses
    exact hserves.empty hfailed hagain

theorem Awake.step {i : Step} (he : e.Awake) (hstep : edgeTriggered.step e i e') : e'.Awake := by
  intro hconnected hedge
  cases i with
  | arrive w =>
    obtain ⟨-, -, rfl⟩ := hstep
    cases hedge
  | hangUp =>
    obtain rfl := hstep
    cases hedge
  | event in_main results =>
    obtain ⟨-, hserves, hread⟩ := hstep
    by_cases hstate : e.conn.state = .connected
    · exact empty_of_read hstate hread hserves hconnected
    · unfold Connection.rawRead at hread
      rw [if_pos hstate] at hread
      have hsame : e.conn = e'.conn := (Prod.ext_iff.mp (Option.some.inj hread)).1
      rw [← hsame] at hconnected
      exact absurd hconnected hstate
  | call i =>
    obtain ⟨-, hexec, hsocket, hedge'⟩ := hstep
    have hbefore : e.conn.state = .connected :=
      of_not_not fun hlate => Connection.exec_late hlate hexec hconnected
    rw [hsocket]
    exact he hbefore (hedge'.symm.trans hedge)

theorem awake (he : edgeTriggered.Reachable e) : e.Awake := by
  refine he.invariant (I := Awake) ?_ ?_
  · intro s ⟨_, hstart⟩ _ hedge
    have hnone : ¬ (s.socket.queue ≠ [] ∨ s.socket.hungUp = true) := fun hsome =>
      Bool.false_ne_true (hedge.symm.trans (hstart hsome))
    obtain ⟨hqueue, hhung⟩ := not_or.mp hnone
    exact ⟨of_not_not hqueue, Bool.eq_false_iff.mpr hhung⟩
  · exact fun he hstep => he.step hstep

end

end EdgeTriggered

namespace Connection

/-- **A non-blocking `Read`** ends at the first result that it does not go on with. The buffer is what the results
    before it have brought, and `HandleClose` has run, once, if and only if that result is the end of the
    stream or another error; if it is not, the queue was empty. So a connection that is open and has no event
    has an empty queue, in every run. -/
theorem drains {c : Connection} (hstate : c.state = .connected) {front : List ReadResult} {last : ReadResult}
    (hfront : ∀ r ∈ front, r.goesOn = true) (hlast : last.goesOn = false) (in_main : Bool)
    (rest : List ReadResult) :
    (∃ c', c.rawRead in_main (front ++ last :: rest) = some (c', rest) ∧
      c'.readBuffer = (front.map ReadResult.bytes).flatten ∧
      (c'.state = .closed ↔ last.closes = true) ∧
      (c' = if last.closes then handleClose in_main { c with readBuffer := c'.readBuffer }
        else { c with readBuffer := c'.readBuffer }) ∧
      c'.closeCalls = c.closeCalls + (if last.closes then 1 else 0) ∧
      (c'.state = .connected → ∀ s s' : Socket, s.Serves (front ++ [last]) s' → s'.queue = [])) ∧
    ∀ e, edgeTriggered.Reachable e → e.conn.state = .connected → e.edge = false → e.socket.queue = [] := by
  have hread : ∀ rest, c.rawRead in_main (front ++ last :: rest) = some
      (if last.closes then handleClose in_main { c with readBuffer := (front.map ReadResult.bytes).flatten }
        else { c with readBuffer := (front.map ReadResult.bytes).flatten }, rest) := by
    intro rest
    unfold rawRead
    rw [if_neg (not_not_intro hstate), rawReadNonBlocking_front hfront, List.nil_append,
      rawReadNonBlocking_last hlast]
  refine ⟨⟨_, hread rest, ?_⟩, fun e he hconnected hedge => (EdgeTriggered.awake he hconnected hedge).1⟩
  have hopen : c.state ≠ .closed := by
    rw [hstate]
    exact fun heq => by cases heq
  cases hcloses : last.closes with
  | true =>
    obtain ⟨hbuffer, hclosed⟩ := handleClose_buffer
      { c with readBuffer := (front.map ReadResult.bytes).flatten } in_main
    rw [if_pos rfl, if_pos rfl]
    refine ⟨hbuffer, iff_of_true hclosed rfl, ?_, ?_, ?_⟩
    · rw [hbuffer]
    · unfold handleClose
      rw [if_pos hopen]
      cases in_main with
      | true => rfl
      | false => rfl
    · intro hconnected
      rw [hclosed] at hconnected
      cases hconnected
  | false =>
    have hended := hread []
    rw [hcloses, if_neg Bool.false_ne_true] at hended
    rw [if_neg Bool.false_ne_true, if_neg Bool.false_ne_true]
    refine ⟨rfl, iff_of_false hopen Bool.false_ne_true, rfl, rfl, fun _ s s' hserves => ?_⟩
    exact (EdgeTriggered.empty_of_read hstate hended hserves hstate).1

/-- Two bytes in two parts with an interruption between them, and then none. -/
theorem drains_parts : ∃ front last c', established.rawRead false (front ++ [last]) = some (c', []) ∧
    c'.readBuffer = bytes "ok" ∧ c'.state ≠ .closed ∧ last.bytesRead = -1 ∧ last.errno = eagain := by
  let front : List ReadResult := [⟨1, 0, bytes "o", by decide, rfl, by decide⟩,
    ⟨-1, eintr, [], by decide, rfl, by decide⟩, ⟨1, 0, bytes "k", by decide, rfl, by decide⟩]
  let last : ReadResult := ⟨-1, eagain, [], by decide, rfl, by decide⟩
  obtain ⟨⟨c', hread, hbuffer, hclosed, -⟩, -⟩ := drains (c := established) rfl
    (show ∀ r ∈ front, r.goesOn = true by decide) (show last.goesOn = false by decide) false []
  refine ⟨front, last, c', hread, hbuffer.trans (by decide), fun heq => ?_, rfl, rfl⟩
  exact absurd (hclosed.mp heq) (by decide)

end Connection

end LinuxServer
