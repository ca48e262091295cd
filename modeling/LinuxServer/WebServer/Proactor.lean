import LinuxServer.Http.KeepAlive
import LinuxServer.WebServer.Armed

/-!
# `WebServer/Proactor.lean` — every connection of the server at work

`WebServer/Pool.lean` has the main thread, the work queue and the workers, and says of a transfer or a
call of `process()` only how it ends; `Http/Session.lean` has what these do to one `http_conn`, and is
alone with it. Here they are put together: the main thread calls `read_once()` and `write()` on the
elements of `users`, the workers call `process()` on them, and all of them share the map of names and
passwords and the database behind it.

A tick is what may come between a request and its worker (`Server.Prompt`). As long as none does,
`sessions_kept` says that whatever all the others do, the slot of an open connection goes through a
session of its own: the only thing that is ever not its own is the store. `answered_each` takes
`KeepAlive.lean` over to the whole server with that: each client that keeps to requests in deliveries
has had its own responses, all of them and in order, whoever else is served at the same time.

`process()` is one step here, so two registrations do not race (`Http/Register.lean`); each `writev` is
one of its own, with workers in between.
-/

set_option autoImplicit false

namespace LinuxServer

/-! ## A session among others -/

namespace Http

section
variable (fs : FileSystem) (files : Files) (decode : List Byte → Option (List Byte × List Byte))

/-- A session while other connections are served: a step of its own, or one that leaves it another store. -/
def sharedSession : System Session (Session.Step ⊕ World) where
  start := (session fs files decode).start
  step s i s' := match i with
    | .inl i => (session fs files decode).step s i s'
    | .inr w => s' = { s with world := w }

/-- The steps that are its own. -/
def ownSteps (h : List (Session.Step ⊕ World)) : List Session.Step := h.filterMap Sum.getLeft?

end

section
variable {fs : FileSystem} {files : Files} {decode : List Byte → Option (List Byte × List Byte)}
  {c c' : HttpConn} {w w' : World} {accepts opened : Bool} {ret : HttpCode} {s s₀ s' : Session}
  {root : List Byte} {script : List Delivery} {given : List (List Byte)} {h : List (Session.Step ⊕ World)}

theorem HttpConn.processRead_writeIdx (hread : c.processRead fs decode accepts w = .ok ((ret, c'), w')) :
    c'.writeIdx = c.writeIdx := by
  obtain ⟨⟨exit, c₁⟩, hloop, hread⟩ := bind_eq_ok.mp hread
  have hidx : c₁.writeIdx = c.writeIdx := (congrArg HttpConn.writeIdx (readLoop_unread hloop) :)
  cases exit with
  | ret code =>
    cases hread
    exact hidx
  | doRequest => exact (congrArg HttpConn.writeIdx (doRequest_unserved hread) :).trans hidx

/-- On an empty write buffer `process()` closes nothing; and it leaves the buffer empty when it waits for more. -/
theorem HttpConn.process_opened (hidx : c.writeIdx = 0)
    (hproc : c.process fs decode accepts w = .ok ((ret, opened, c'), w')) :
    opened = true ∧ (ret = .noRequest → c'.writeIdx = 0) := by
  obtain ⟨⟨⟨ret₁, c₁⟩, w₁⟩, hread, hproc⟩ := bind_eq_ok.mp hproc
  have hidx₁ : c₁.writeIdx = 0 := (processRead_writeIdx hread).trans hidx
  simp only at hproc
  split at hproc
  · cases hproc
    exact ⟨rfl, fun _ => hidx₁⟩
  · rename_i hne
    rw [processWrite_eq hidx₁] at hproc
    cases hproc
    exact ⟨rfl, fun he => absurd he hne⟩

/-- A step of `write()` that gets back to reading has called `init()`. -/
theorem Session.write_reading {i : Transfer.Step} (he : s.transfer.Enabled files i) (hphase : s.phase = .writing)
    (hwrite : s.write files i = .ok s') : s'.phase = .reading → s'.transfer.conn.writeIdx = 0 := by
  obtain ⟨t, ht, hwrite⟩ := bind_eq_ok.mp hwrite
  obtain ⟨-, hkept⟩ := Transfer.exec_kept he ht
  split at hwrite
  · rename_i hcomplete
    cases hwrite
    intro hreading
    have hlinger : s.transfer.conn.linger = true := by
      cases hl : s.transfer.conn.linger with
      | true => rfl
      | false =>
        rw [hl] at hreading
        cases hreading
    rcases hkept with ⟨-, hinit⟩ | ⟨he', -⟩ | he' | ⟨he' | he', -⟩
    · obtain ⟨d, hd⟩ := hinit hlinger
      show t.conn.writeIdx = 0
      rw [hd]
      rfl
    · rw [hcomplete] at he'; cases he'
    · rw [hcomplete] at he'; cases he'
    · rw [hcomplete] at he'; cases he'
    · rw [hcomplete] at he'; cases he'
  · rename_i hnothing
    cases hwrite
    intro _
    rcases hkept with ⟨he', -⟩ | ⟨-, hinit⟩ | he' | ⟨he' | he', -⟩
    · rw [hnothing] at he'; cases he'
    · show t.conn.writeIdx = 0
      rw [hinit]
      rfl
    · rw [hnothing] at he'; cases he'
    · rw [hnothing] at he'; cases he'
    · rw [hnothing] at he'; cases he'
  · cases hwrite
    exact fun hreading => by cases hreading
  · cases hwrite
    exact fun hreading => by rw [show s.phase = .reading from hreading] at hphase; cases hphase

/-- **What is read into finds nothing written**: `m_write_buf` is empty while a session is read from. -/
theorem Session.unwritten (hstart : (sharedSession fs files decode).start s₀)
    (hrun : (sharedSession fs files decode).Run s₀ h s) :
    s.phase = .reading → s.transfer.conn.writeIdx = 0 := by
  refine hrun.invariant (I := fun _ s => s.phase = .reading → s.transfer.conn.writeIdx = 0) ?_ ?_
  · intro h t i u hempty hstep
    cases i with
    | inr w =>
      rw [show u = { t with world := w } from hstep]
      exact hempty
    | inl i =>
      obtain ⟨henabled, hexec⟩ := hstep
      cases i with
      | read x accepts =>
        obtain ⟨⟨⟨ret, opened, c⟩, w⟩, hproc, hexec⟩ := bind_eq_ok.mp hexec
        have hidx : (t.transfer.conn.receive x).writeIdx = 0 := hempty henabled.1
        obtain ⟨rfl, hwaits⟩ := HttpConn.process_opened hidx hproc
        cases hexec
        intro hreading
        apply hwaits
        by_contra hne
        rw [show (if ret = .noRequest then Phase.reading else _) = _ from if_neg hne] at hreading
        cases hreading
      | write i => exact Session.write_reading henabled.2 henabled.1 hexec
  · obtain ⟨-, ⟨d, hd⟩, -⟩ := hstart
    intro _
    rw [hd]
    rfl

/-- The store is nothing to a session that is served in order. -/
theorem Session.Served.world (hserved : Session.Served fs files root script s given) (w : World) :
    Session.Served fs files root script { s with world := w } given := by
  cases hserved with
  | reading answered rest part phase split given_eq within between responses =>
    exact .reading answered rest part phase split given_eq within between responses
  | writing answered d rest header content phase split given_eq message progress linger docRoot responses =>
    exact .writing answered d rest header content phase split given_eq message progress linger docRoot responses
  | closed answered d rest phase split given_eq failed responses =>
    exact .closed answered d rest phase split given_eq failed responses

/-- A session whose reads are those of a script is where the script says, whatever the others do to the store. -/
theorem Session.served_among_others (hroot : root.length + 15 ≤ filenameLen) (hmaps : fs.Maps files)
    (hfound : ∀ d ∈ script, d.request.Found fs root) (hstart : (sharedSession fs files decode).start s₀)
    (hdoc : s₀.transfer.conn.docRoot = root)
    (hrun : ((sharedSession fs files decode).restrict fun s i => ∀ j, i = .inl j → s.Straight j).Run s₀ h s)
    (hheard : heard (ownSteps h) <+: reads script) :
    Session.Served fs files root script s (heard (ownSteps h)) := by
  refine hrun.invariant (I := fun h t => heard (ownSteps h) <+: reads script →
    Session.Served fs files root script t (heard (ownSteps h))) ?_ (fun _ => ?_) hheard
  · intro h t i u hserved hstep hheard
    obtain ⟨hstep, hstraight⟩ := hstep
    cases i with
    | inr w =>
      rw [show u = { t with world := w } from hstep]
      exact (hserved hheard).world w
    | inl i =>
      obtain ⟨henabled, hexec⟩ := hstep
      cases i with
      | read x accepts =>
        have hserved := hserved ((List.prefix_append _ _).trans hheard)
        obtain ⟨u', hu', hserved'⟩ := hserved.read decode accepts hroot hmaps hfound henabled.1 hheard
        rw [show t.read fs decode x accepts = .ok u from hexec] at hu'
        cases hu'
        exact hserved'
      | write i =>
        obtain ⟨u', hu', hserved'⟩ := (hserved hheard).write henabled.1 henabled.2 (hstraight _ rfl)
        rw [show t.write files i = .ok u from hexec] at hu'
        cases hu'
        exact hserved'
  · obtain ⟨hphase, ⟨d, hd⟩, hresponses⟩ := hstart
    refine .reading [] script [] hphase rfl rfl (Session.within_nil script) ?_ hresponses
    have hbetween := HttpConn.init_between d
    rw [show d.docRoot = root by rw [← hdoc, hd]; rfl] at hbetween
    rw [hd]
    exact hbetween

end
end Http

/-! ## The server and its connections -/

namespace WebServer

open Http

/-- One of `users`. What `process()` has not seen of the last read, the responses that are out and the steps
    are for the statements; no function reads them. -/
structure User where
  /-- What the descriptor was armed for last. -/
  phase : Phase
  transfer : Transfer
  unprocessed : List Byte
  responses : List (List (Option Byte))
  steps : List Session.Step

namespace User

/-- `init(sockfd, addr, root, ..)`. -/
def init (root : List Byte) (u : User) : User :=
  ⟨.reading, ⟨({ u.transfer.conn with docRoot := root } : HttpConn).init, false, none, []⟩, [], [], []⟩

/-- `read_once()` has got `x`. -/
def receive (u : User) (x : List Byte) : User :=
  { u with transfer := { u.transfer with conn := u.transfer.conn.receive x }, unprocessed := x }

end User

structure Proactor where
  server : Server
  users : Nat → User
  world : World
  /-- The descriptor in whose `write()` the main thread is. -/
  writing : Option Nat

namespace Proactor

/-- An event of the main thread, or a step of a worker. -/
inductive Step
  | connect (connfd : Nat) (p : Timer.Ptr) (cur : Int)
  | hangup (sockfd : Nat)
  | read (sockfd : Nat) (x : List Byte) (readOnce : Bool) (cur : Int)
  /-- `EPOLLOUT`: `write()` is called. -/
  | call (sockfd : Nat) (cur : Int)
  | writev (answer : Writev) (cur : Int)
  | alarm (cur : Int)
  | dequeue
  /-- `process()`, the database accepting a statement or not. -/
  | finish (k : Nat) (accepts : Bool)
  deriving DecidableEq, Repr

end Proactor

/-- `close_conn()`, called by the worker that has the task; the `modfd` behind it has no descriptor. -/
def Server.closeConn (v : Server) (k sockfd : Nat) : Except Fault Server := do
  let loop ← v.loop.close sockfd
  return { v with
    loop := { loop with userCount := loop.userCount - 1 }
    running := v.running.eraseIdx k }

namespace Proactor

/-- What a slot is to its connection. -/
def session (v : Proactor) (sockfd : Nat) : Session :=
  ⟨(v.users sockfd).phase, (v.users sockfd).transfer, v.world, (v.users sockfd).responses⟩

/-- A step of its session is put back into the slot and the store. -/
def store (v : Proactor) (sockfd : Nat) (s : Session) (i : Session.Step) : Proactor :=
  { v with
    users := Function.update v.users sockfd
      ⟨s.phase, s.transfer, (v.users sockfd).unprocessed, s.responses, i :: (v.users sockfd).steps⟩
    world := s.world }

section
variable (threadNumber maxRequests : Nat) (root : List Byte) (fs : FileSystem) (files : Files)
  (decode : List Byte → Option (List Byte × List Byte))

/-- What the main thread does in `dealwithwrite`: `write()` goes on, or it has returned, false when it leaves
    the connection to be closed. -/
def write (v : Proactor) (sockfd : Nat) (i : Transfer.Step) (cur : Int) : Except Fault Proactor := do
  let s ← (v.session sockfd).write files i
  let v := v.store sockfd s (.write i)
  if s.transfer.inLoop then
    return { v with writing := some sockfd }
  else
    let server ← v.server.exec maxRequests (.main (.write sockfd (s.phase ≠ .closed) cur))
    return { v with server := server, writing := none }

/-- `process()`, the task being the `k`th of those the workers have. -/
def process (v : Proactor) (k sockfd : Nat) (accepts : Bool) : Except Fault Proactor := do
  let u := v.users sockfd
  let ((ret, opened, c), w) ← u.transfer.conn.process fs decode accepts v.world
  let server ← if opened then v.server.exec maxRequests (.finish k) else v.server.closeConn k sockfd
  let phase := if ret = .noRequest then .reading else if opened then .writing else .closed
  return { v.store sockfd ⟨phase, ⟨c, false, none, []⟩, w, u.responses⟩ (.read u.unprocessed accepts) with
    server := server }

def exec (v : Proactor) : Step → Except Fault Proactor
  | .connect connfd p cur => do
    let server ← v.server.exec maxRequests (.main (.connect connfd p cur))
    -- a connection that is refused is closed at once
    return { v with
      server := server
      users := if connfd ∈ server.loop.openFds
        then Function.update v.users connfd ((v.users connfd).init root) else v.users }
  | .hangup sockfd => do
    return { v with server := ← v.server.exec maxRequests (.main (.hangup sockfd)) }
  | .read sockfd x readOnce cur => do
    return { v with
      server := ← v.server.exec maxRequests (.main (.read sockfd readOnce cur))
      users := Function.update v.users sockfd ((v.users sockfd).receive x) }
  | .call sockfd cur => v.write maxRequests files sockfd .call cur
  | .writev answer cur =>
    match v.writing with
    | none => .ok v
    | some sockfd => v.write maxRequests files sockfd (.writev answer) cur
  | .alarm cur => do
    return { v with server := ← v.server.exec maxRequests (.main (.alarm cur)) }
  | .dequeue => do
    return { v with server := ← v.server.exec maxRequests .dequeue }
  | .finish k accepts =>
    match v.server.running[k]? with
    | none => .ok v
    | some task => v.process maxRequests fs decode k task.sockfd accepts

/-- The main thread takes no event while it is in `write()`. `epoll_wait` reports what a descriptor was armed
    for, and `recv` answers no more than there is room for. -/
def Enabled (v : Proactor) : Step → Prop
  | .connect connfd p cur => v.writing = none ∧ v.server.Enabled threadNumber (.main (.connect connfd p cur))
  | .hangup sockfd => v.writing = none ∧ v.server.Enabled threadNumber (.main (.hangup sockfd))
  | .read sockfd x readOnce cur => v.writing = none ∧
      v.server.Enabled threadNumber (.main (.read sockfd readOnce cur)) ∧
      (v.users sockfd).phase = .reading ∧ (v.users sockfd).transfer.conn.readIdx + x.length ≤ readBufferSize
  | .call sockfd cur => v.writing = none ∧ v.server.Enabled threadNumber (.main (.write sockfd true cur)) ∧
      (v.users sockfd).phase = .writing ∧ (v.users sockfd).transfer.Enabled files .call
  | .writev answer _ => ∃ sockfd ∈ v.writing, (v.users sockfd).transfer.Enabled files (.writev answer)
  | .alarm cur => v.writing = none ∧ v.server.Enabled threadNumber (.main (.alarm cur))
  | .dequeue => v.server.Enabled threadNumber .dequeue
  | .finish k _ => v.server.Enabled threadNumber (.finish k)

instance (v : Proactor) : (i : Step) → Decidable (v.Enabled threadNumber files i)
  | .connect .. | .hangup .. | .read .. | .call .. | .alarm .. => inferInstanceAs (Decidable (_ ∧ _))
  | .writev answer _ =>
    inferInstanceAs (Decidable (∃ sockfd ∈ v.writing, (v.users sockfd).transfer.Enabled files (.writev answer)))
  | .dequeue => inferInstanceAs (Decidable (v.server.Enabled threadNumber .dequeue))
  | .finish k _ => inferInstanceAs (Decidable (v.server.Enabled threadNumber (.finish k)))

end

/-- No task that a tick at this clock could outrun is outstanding. -/
def Prompt (v : Proactor) : Step → Prop
  | .alarm cur => v.server.Prompt (.main (.alarm cur))
  | _ => True

instance (v : Proactor) : (i : Step) → Decidable (v.Prompt i)
  | .alarm cur => inferInstanceAs (Decidable (v.server.Prompt (.main (.alarm cur))))
  | .connect .. | .hangup .. | .read .. | .call .. | .writev .. | .dequeue | .finish .. => .isTrue trivial

/-- The step of `write()` that this is, with its descriptor. -/
def writeStep (v : Proactor) : Step → Option (Nat × Transfer.Step)
  | .call sockfd _ => some (sockfd, .call)
  | .writev answer _ => v.writing.map fun sockfd => (sockfd, .writev answer)
  | _ => none

/-- The connection in whose `http_conn` a step runs. -/
def serves (v : Proactor) : Step → Option Nat
  | .finish k _ => v.server.running[k]?.map Task.sockfd
  | i => (v.writeStep i).map Prod.fst

/-- A step that is no second `writev` to end inside the header of a response of this connection. -/
def Straight (sockfd : Nat) (v : Proactor) (i : Step) : Prop :=
  ∀ j, v.writeStep i = some (sockfd, j) → (v.users sockfd).transfer.Straight j

instance (sockfd : Nat) (v : Proactor) (i : Step) : Decidable (v.Straight sockfd i) :=
  decidable_of_iff (∀ w ∈ v.writeStep i, w.1 = sockfd → (v.users sockfd).transfer.Straight w.2)
    ⟨fun h j hj => h _ hj rfl, fun h w hw he => h w.2 (by rw [← he]; exact hw)⟩

end Proactor

/-- The server, its clients and its workers. -/
def proactor (threadNumber maxRequests : Nat) (root : List Byte) (fs : FileSystem) (files : Files)
    (decode : List Byte → Option (List Byte × List Byte)) : System Proactor Proactor.Step where
  start v := (server threadNumber maxRequests).start v.server ∧ v.writing = none
  step v i v' := v.Enabled threadNumber files i ∧ v.exec maxRequests root fs files decode i = .ok v'

/-! ## What the steps do to epoll -/

/-- The descriptor an event is of. -/
def Event.sockfd : Event → Option Nat
  | .connect sockfd _ _ | .hangup sockfd | .read sockfd _ _ | .write sockfd _ _ => some sockfd
  | .alarm _ => none

section
variable {n m k : Nat} {v v' : Server} {l : List Timer.Ptr} {e : Event} {fd : Nat} {task : Task}

theorem Server.armed_appendP (sockfd : Nat) (cur : Int) : (v.appendP m sockfd cur).armed = v.armed := by
  unfold Server.appendP
  split <;> rfl

theorem Server.armed_modfd_of_ne {sockfd : Nat} (hne : fd ≠ sockfd) : (v.modfd sockfd).armed fd = v.armed fd := by
  unfold Server.modfd
  split
  · exact Function.update_of_ne hne ..
  · rfl

theorem Server.armed_modfd (hopen : fd ∈ v.loop.openFds) : (v.modfd fd).armed fd = true := by
  unfold Server.modfd
  rw [if_pos hopen]
  exact Function.update_self ..

/-- An event arms and disarms no descriptor but its own. -/
theorem Server.armed_event (hne : e.sockfd ≠ some fd) : (v.settle m e).armed fd = v.armed fd := by
  have hother : ∀ {sockfd : Nat}, some sockfd ≠ some fd → fd ≠ sockfd := fun h he => h (by rw [he])
  cases e with
  | connect sockfd p cur =>
    simp only [Server.settle]
    split
    · exact Function.update_of_ne (hother hne) ..
    · rfl
  | hangup sockfd => exact Function.update_of_ne (hother hne) ..
  | read sockfd ok cur =>
    simp only [Server.settle]
    split
    · rw [Server.armed_appendP]
      exact Function.update_of_ne (hother hne) ..
    · exact Function.update_of_ne (hother hne) ..
  | write sockfd ok cur =>
    simp only [Server.settle]
    split
    · rw [Server.armed_modfd_of_ne (hother hne)]
      exact Function.update_of_ne (hother hne) ..
    · exact Function.update_of_ne (hother hne) ..
  | alarm cur => rfl

theorem Server.loop_settle (m : Nat) (v : Server) (e : Event) : (v.settle m e).loop = v.loop := by
  cases e with
  | connect =>
    simp only [Server.settle]
    split <;> rfl
  | hangup | alarm => rfl
  | read sockfd ok cur =>
    cases ok with
    | false => rfl
    | true =>
      simp only [Server.settle, if_true, Server.appendP]
      split <;> rfl
  | write sockfd ok cur =>
    cases ok with
    | false => rfl
    | true =>
      simp only [Server.settle, if_true, Server.modfd]
      split <;> rfl

/-- **What an event does to epoll**, as far as a descriptor is still open behind it. -/
theorem Server.exec_event (hacc : Accounts v.loop l) (he : v.Enabled n (.main e))
    (hexec : v.exec m (.main e) = .ok v') (hopen : fd ∈ v'.loop.openFds) :
    (e.sockfd ≠ some fd → fd ∈ v.loop.openFds ∧ v'.armed fd = v.armed fd) ∧
      (∀ p cur, e = .connect fd p cur → v'.armed fd = true) ∧ e ≠ .hangup fd ∧
      (∀ ok cur, e = .read fd ok cur → v'.armed fd = false) ∧
      ∀ ok cur, e = .write fd ok cur → ok = true ∧ v'.armed fd = true := by
  obtain ⟨w, hw, hexec⟩ := bind_eq_ok.mp hexec
  have henabled : v.loop.Enabled e := by
    cases e with
    | connect | alarm => exact he
    | hangup | read | write => exact he.1
  obtain ⟨hbefore, hcloses, -⟩ := hacc.openFds_exec henabled hw
  have hv' : v' = ({ v with loop := w } : Server).settle m e := by
    cases hexec
    rfl
  rw [hv'] at hopen ⊢
  rw [Server.loop_settle] at hopen
  have hcloses : ∀ sockfd ∈ e.closes, sockfd ≠ fd := by
    rintro sockfd hclosed rfl
    exact hcloses sockfd hclosed hopen
  refine ⟨fun hne => ⟨?_, Server.armed_event hne⟩, ?_, ?_, ?_, ?_⟩
  · rcases hbefore fd hopen with hold | ⟨p, cur, rfl⟩
    · exact hold
    · exact absurd rfl hne
  · rintro p cur rfl
    simp only [Server.settle, if_pos hopen, Function.update_self]
  · rintro rfl
    exact hcloses fd rfl rfl
  · rintro ok cur rfl
    simp only [Server.settle]
    split
    · rw [Server.armed_appendP]
      exact Function.update_self ..
    · exact Function.update_self ..
  · rintro ok cur rfl
    cases ok with
    | false => exact absurd rfl (hcloses fd rfl)
    | true => exact ⟨rfl, Server.armed_modfd hopen⟩

/-- What the end of a task does to it. -/
theorem Server.exec_finish (htask : v.running[k]? = some task) (hexec : v.exec m (.finish k) = .ok v') :
    v'.loop = v.loop ∧ (task.sockfd ∈ v.loop.openFds → v'.armed task.sockfd = true) ∧
      ∀ fd, fd ≠ task.sockfd → v'.armed fd = v.armed fd := by
  simp only [Server.exec, htask] at hexec
  cases hexec
  refine ⟨?_, fun hopen => Server.armed_modfd hopen, fun fd hne => Server.armed_modfd_of_ne hne⟩
  unfold Server.modfd
  split <;> rfl

theorem Server.exec_dequeue (hexec : v.exec m .dequeue = .ok v') : v'.loop = v.loop ∧ v'.armed = v.armed := by
  simp only [Server.exec] at hexec
  split at hexec <;> cases hexec <;> exact ⟨rfl, rfl⟩

/-- The books of the server are kept in every prompt run. -/
theorem Server.owned (h : ((server n m).restrict Server.Prompt).Reachable v) : ∃ l, Owned v l := by
  refine h.invariant (I := fun v => ∃ l, Owned v l) ?_ ?_
  · rintro v ⟨hloop, hqueue, hrunning⟩
    have hnone : v.outstanding = [] := by rw [Server.outstanding, hqueue, hrunning]; rfl
    refine ⟨[], Accounts.start hloop, fun task ht => ?_, ?_⟩
    · rw [hnone] at ht
      cases ht
    · rw [hnone]
      exact .nil
  · rintro t i u ⟨l, howned⟩ ⟨⟨henabled, hexec⟩, hprompt⟩
    obtain ⟨v', l', hv', howned'⟩ := howned.exec henabled hprompt m
    rw [hexec] at hv'
    cases hv'
    exact ⟨l', howned'⟩

end

/-! ## A slot and its session -/

namespace Proactor

/-- The session of an open descriptor is where its slot is; or, when the last read has not been processed, it is
    about to be read into. -/
def Follows (v : Proactor) (fd : Nat) (s : Session) : Prop :=
  s.phase ≠ .closed ∧
    ((v.server.armed fd = true ∧ v.session fd = s) ∨
      (v.server.armed fd = false ∧ s.phase = .reading ∧
        s.transfer.conn.readIdx + (v.users fd).unprocessed.length ≤ readBufferSize ∧
        v.session fd = { s with
          transfer := { s.transfer with conn := s.transfer.conn.receive (v.users fd).unprocessed } }))

section
variable (threadNumber maxRequests : Nat) (root : List Byte) (fs : FileSystem) (files : Files)
  (decode : List Byte → Option (List Byte × List Byte)) (P : Nat → Transfer → Transfer.Step → Prop)

/-- What a slot has gone through since its connection was accepted is a run of a session, the steps of `write()`
    meeting `P`. -/
def Tracked (v : Proactor) (fd : Nat) : Prop :=
  ∃ s₀ h s, (sharedSession fs files decode).start s₀ ∧ s₀.transfer.conn.docRoot = root ∧
    ((sharedSession fs files decode).restrict fun s i => ∀ j, i = .inl (.write j) → P fd s.transfer j).Run s₀ h s ∧
    ownSteps h = (v.users fd).steps ∧ v.Follows fd s

/-- **The invariant.** -/
structure Kept (v : Proactor) : Prop where
  reachable : ((WebServer.server threadNumber maxRequests).restrict Server.Prompt).Reachable v.server
  writing : ∀ fd, v.writing = some fd → fd ∈ v.server.loop.openFds ∧ v.server.armed fd = true ∧
    (v.users fd).phase = .writing
  tracked : ∀ fd ∈ v.server.loop.openFds, v.Tracked root fs files decode P fd

end

section
variable {n m k fd : Nat} {root : List Byte} {fs : FileSystem} {files : Files}
  {decode : List Byte → Option (List Byte × List Byte)} {P : Nat → Transfer → Transfer.Step → Prop}
  {v v' : Proactor} {s : Session} {accepts : Bool} {cur : Int} {e : Event} {task : Task}

theorem Follows.frame (h : v.Follows fd s) (harmed : v'.server.armed fd = v.server.armed fd)
    (huser : v'.users fd = v.users fd) : v'.Follows fd { s with world := v'.world } := by
  obtain ⟨hphase, hslot⟩ := h
  have hsession : v'.session fd = { v.session fd with world := v'.world } := by
    simp only [session, huser]
  refine ⟨hphase, ?_⟩
  rw [harmed, hsession, huser]
  rcases hslot with ⟨harm, hs⟩ | ⟨hdis, hreading, hroom, hs⟩
  · exact .inl ⟨harm, by rw [hs]⟩
  · exact .inr ⟨hdis, hreading, hroom, by rw [hs]⟩

/-- What another connection does to the store is a step of the session's. -/
theorem Tracked.frame (h : v.Tracked root fs files decode P fd)
    (harmed : v'.server.armed fd = v.server.armed fd) (huser : v'.users fd = v.users fd) :
    v'.Tracked root fs files decode P fd := by
  obtain ⟨s₀, h, s, hstart, hdoc, hrun, hsteps, hfollows⟩ := h
  refine ⟨s₀, .inr v'.world :: h, _, hstart, hdoc, .step hrun ⟨rfl, fun _ he => by cases he⟩, ?_,
    hfollows.frame harmed huser⟩
  rw [huser, ← hsteps]
  rfl

/-- A step of its own. -/
theorem Tracked.own {i : Session.Step} {s' : Session} {s₀ : Session} {h : List (Session.Step ⊕ World)}
    (hstart : (sharedSession fs files decode).start s₀) (hdoc : s₀.transfer.conn.docRoot = root)
    (hrun : ((sharedSession fs files decode).restrict
      fun s i => ∀ j, i = .inl (.write j) → P fd s.transfer j).Run s₀ h s)
    (hsteps : ownSteps h = (v.users fd).steps) (hP : ∀ j, i = .write j → P fd s.transfer j)
    (henabled : s.Enabled files i) (hexec : s.exec fs files decode i = .ok s')
    (hsteps' : (v'.users fd).steps = i :: (v.users fd).steps) (hphase : s'.phase ≠ .closed)
    (harmed : v'.server.armed fd = true) (hslot : v'.session fd = s') :
    v'.Tracked root fs files decode P fd := by
  refine ⟨s₀, .inl i :: h, s', hstart, hdoc, .step hrun ⟨⟨henabled, hexec⟩, ?_⟩, ?_, hphase, .inl ⟨harmed, hslot⟩⟩
  · intro j hj
    exact hP j (Sum.inl.inj hj)
  · rw [hsteps', ← hsteps]
    rfl

/-- A connection that has just been accepted. -/
theorem tracked_init {u : User} (harmed : v.server.armed fd = true) (huser : v.users fd = u.init root) :
    v.Tracked root fs files decode P fd := by
  have hsession : v.session fd = ⟨.reading, (u.init root).transfer, v.world, []⟩ := by
    simp only [session, huser]
    rfl
  refine ⟨v.session fd, [], v.session fd, ?_, ?_, .nil _, ?_, ?_, .inl ⟨harmed, rfl⟩⟩
  · rw [hsession]
    exact ⟨rfl, ⟨_, rfl⟩, rfl⟩
  · rw [hsession]
    rfl
  · rw [huser]
    rfl
  · rw [hsession]
    exact fun hclosed => by cases hclosed

/-! ## The steps -/

/-- **An event**: what it does to the others is nothing, so that its own connection is all there is to see to. -/
theorem Kept.event (h : v.Kept n m root fs files decode P) (he : v.server.Enabled n (.main e))
    (hprompt : v.server.Prompt (.main e)) (hexec : v.server.exec m (.main e) = .ok v'.server)
    (hwriting : v'.writing = none) (hothers : ∀ fd, e.sockfd ≠ some fd → v'.users fd = v.users fd)
    (hown : ∀ fd ∈ v'.server.loop.openFds, e.sockfd = some fd → v'.Tracked root fs files decode P fd) :
    v'.Kept n m root fs files decode P := by
  obtain ⟨l, howned⟩ := Server.owned h.reachable
  refine ⟨?_, fun fd hfd => ?_, fun fd hopen => ?_⟩
  · obtain ⟨s, steps, hstart, hrun⟩ := h.reachable
    exact ⟨s, _, hstart, .step hrun ⟨⟨he, hexec⟩, hprompt⟩⟩
  · rw [hwriting] at hfd
    cases hfd
  · by_cases hne : e.sockfd = some fd
    · exact hown fd hopen hne
    · obtain ⟨hother, -⟩ := Server.exec_event howned.toAccounts he hexec hopen
      obtain ⟨hbefore, harmed⟩ := hother hne
      exact (h.tracked fd hbefore).frame harmed (hothers fd hne)

/-- The slot of a descriptor that is armed is where its session is. -/
theorem Tracked.settled (h : v.Tracked root fs files decode P fd) (harmed : v.server.armed fd = true) :
    ∃ s₀ h, (sharedSession fs files decode).start s₀ ∧ s₀.transfer.conn.docRoot = root ∧
      ((sharedSession fs files decode).restrict
        fun s i => ∀ j, i = .inl (.write j) → P fd s.transfer j).Run s₀ h (v.session fd) ∧
      ownSteps h = (v.users fd).steps ∧ (v.session fd).phase ≠ .closed := by
  obtain ⟨s₀, h, s, hstart, hdoc, hrun, hsteps, hphase, hslot⟩ := h
  rcases hslot with ⟨-, rfl⟩ | ⟨hdis, -⟩
  · exact ⟨s₀, h, hstart, hdoc, hrun, hsteps, hphase⟩
  · rw [harmed] at hdis
    cases hdis

theorem Kept.read {x : List Byte} {readOnce : Bool} (h : v.Kept n m root fs files decode P)
    (he : v.Enabled n files (.read fd x readOnce cur))
    (hexec : v.exec m root fs files decode (.read fd x readOnce cur) = .ok v') :
    v'.Kept n m root fs files decode P := by
  obtain ⟨hnone, henabled, hreading, hroom⟩ := he
  obtain ⟨server, hserver, hexec⟩ := bind_eq_ok.mp hexec
  cases hexec
  refine h.event henabled trivial hserver hnone (fun fd' hne => ?_) (fun fd' hopen hfd => ?_)
  · exact Function.update_of_ne (fun he => hne (by rw [he]; rfl)) ..
  · obtain rfl : fd = fd' := Option.some.inj hfd
    obtain ⟨l, howned⟩ := Server.owned h.reachable
    obtain ⟨-, -, -, hdis, -⟩ := Server.exec_event howned.toAccounts henabled hserver hopen
    obtain ⟨s₀, steps, hstart, hdoc, hrun, hsteps, hphase⟩ := (h.tracked fd henabled.1).settled henabled.2
    refine ⟨s₀, steps, v.session fd, hstart, hdoc, hrun, ?_, hphase, .inr ⟨hdis readOnce cur rfl, hreading, ?_, ?_⟩⟩
    · show _ = (Function.update v.users fd _ fd).steps
      rw [Function.update_self]
      exact hsteps
    · show _ + (Function.update v.users fd _ fd).unprocessed.length ≤ _
      rw [Function.update_self]
      exact hroom
    · simp only [session, Function.update_self]
      rfl

/-- In its loop `write()` leaves the phase as it is. -/
theorem write_inLoop {s s' : Session} {i : Transfer.Step} (he : s.transfer.Enabled files i)
    (hexec : s.write files i = .ok s') (hloop : s'.transfer.inLoop = true) : s'.phase = s.phase := by
  obtain ⟨t, ht, hexec⟩ := bind_eq_ok.mp hexec
  have hreturned : t.inLoop = true → t.returned = none ∨ t.returned = some .again := by
    intro hin
    cases Transfer.leads_of_exec ht with
    | nothing =>
      have hout : s.transfer.inLoop = true := hin
      rw [he.1] at hout
      cases hout
    | enters => exact he.2
    | eagain | failed | complete => cases hin
    | goesOn => exact .inl rfl
  split at hexec
  · rename_i hcomplete
    cases hexec
    rcases hreturned hloop with hr | hr <;> rw [hcomplete] at hr <;> cases hr
  · rename_i hnothing
    cases hexec
    rcases hreturned hloop with hr | hr <;> rw [hnothing] at hr <;> cases hr
  · rename_i hfailed
    cases hexec
    rcases hreturned hloop with hr | hr <;> rw [hfailed] at hr <;> cases hr
  · cases hexec
    rfl

/-- **`write()`**, called or in its loop. -/
theorem Kept.write {i : Transfer.Step} (h : v.Kept n m root fs files decode P)
    (hopen : fd ∈ v.server.loop.openFds) (harmed : v.server.armed fd = true)
    (hphase : (v.users fd).phase = .writing) (he : (v.users fd).transfer.Enabled files i)
    (hP : P fd (v.users fd).transfer i) (hexec : v.write m files fd i cur = .ok v') :
    v'.Kept n m root fs files decode P := by
  obtain ⟨s₀, steps, hstart, hdoc, hrun, hsteps, -⟩ := (h.tracked fd hopen).settled harmed
  obtain ⟨s, hs, hexec⟩ := bind_eq_ok.mp hexec
  have hown : ∀ {v' : Proactor}, v'.users = (v.store fd s (.write i)).users → v'.world = s.world →
      v'.server.armed fd = true → s.phase ≠ .closed → v'.Tracked root fs files decode P fd := by
    intro v' husers hworld harmed hne
    have huser : v'.users fd =
        ⟨s.phase, s.transfer, (v.users fd).unprocessed, s.responses, .write i :: (v.users fd).steps⟩ := by
      rw [husers]
      exact Function.update_self ..
    refine Tracked.own (i := .write i) hstart hdoc hrun hsteps (fun j hj => ?_) ⟨hphase, he⟩ hs ?_ hne harmed ?_
    · cases hj
      exact hP
    · rw [huser]
    · simp only [session, huser, hworld]
  have hothers : ∀ fd', some fd ≠ some fd' → (v.store fd s (.write i)).users fd' = v.users fd' :=
    fun fd' hne => Function.update_of_ne (fun he => hne (by rw [he])) ..
  simp only at hexec
  split at hexec
  · -- it goes on
    rename_i hloop
    cases hexec
    have hsame : s.phase = .writing := (write_inLoop he hs hloop).trans hphase
    refine ⟨h.reachable, fun fd' hfd' => ?_, fun fd' hopen' => ?_⟩
    · obtain rfl : fd = fd' := Option.some.inj hfd'
      refine ⟨hopen, harmed, ?_⟩
      show (Function.update v.users fd _ fd).phase = _
      rw [Function.update_self]
      exact hsame
    · by_cases hne : some fd = some fd'
      · obtain rfl := Option.some.inj hne
        exact hown rfl rfl harmed (by rw [hsame]; exact fun hclosed => by cases hclosed)
      · exact (h.tracked fd' hopen').frame rfl (hothers fd' hne)
  · obtain ⟨server, hserver, hexec⟩ := bind_eq_ok.mp hexec
    cases hexec
    obtain ⟨l, howned⟩ := Server.owned h.reachable
    have henabled : v.server.Enabled n (.main (.write fd (decide (s.phase ≠ .closed)) cur)) := ⟨hopen, harmed⟩
    refine h.event henabled trivial hserver rfl hothers (fun fd' hopen' hfd' => ?_)
    obtain rfl : fd = fd' := Option.some.inj hfd'
    obtain ⟨-, -, -, -, hwritten⟩ := Server.exec_event howned.toAccounts henabled hserver hopen'
    obtain ⟨hok, harmed'⟩ := hwritten _ cur rfl
    exact hown rfl rfl harmed' (of_decide_eq_true hok)

/-- On the slot of a task `process()` closes nothing. -/
theorem Tracked.opened {ret : HttpCode} {opened : Bool} {c : HttpConn} {w : World}
    (h : v.Tracked root fs files decode P fd) (hdis : v.server.armed fd = false)
    (hproc : (v.users fd).transfer.conn.process fs decode accepts v.world = .ok ((ret, opened, c), w)) :
    opened = true := by
  obtain ⟨s₀, steps, s, hstart, -, hrun, -, -, hslot⟩ := h
  rcases hslot with ⟨harmed, -⟩ | ⟨-, hreading, -, hs⟩
  · rw [hdis] at harmed
    cases harmed
  · have hconn : (v.users fd).transfer.conn = s.transfer.conn.receive (v.users fd).unprocessed :=
      congrArg (fun s : Session => s.transfer.conn) hs
    have hidx : (v.users fd).transfer.conn.writeIdx = 0 := by
      rw [hconn]
      exact Session.unwritten hstart hrun.of_restrict hreading
    exact (HttpConn.process_opened hidx hproc).1

/-- **`process()`.** -/
theorem Kept.process (h : v.Kept n m root fs files decode P) (htask : v.server.running[k]? = some task)
    (hexec : v.process m fs decode k task.sockfd accepts = .ok v') : v'.Kept n m root fs files decode P := by
  obtain ⟨l, howned⟩ := Server.owned h.reachable
  obtain ⟨hlt, hget⟩ := List.getElem?_eq_some_iff.mp htask
  have hrunning : task ∈ v.server.running := hget ▸ List.getElem_mem hlt
  have hheld := howned.held task (List.mem_append_right _ hrunning)
  have htracked := h.tracked task.sockfd hheld.isOpen
  obtain ⟨⟨⟨ret, opened, c⟩, w⟩, hproc, hexec⟩ := bind_eq_ok.mp hexec
  obtain rfl := htracked.opened hheld.disarmed hproc
  obtain ⟨server, hserver, hexec⟩ := bind_eq_ok.mp hexec
  cases hexec
  obtain ⟨hloop, harmed, hothers⟩ := Server.exec_finish htask hserver
  refine ⟨?_, fun fd hfd => ?_, fun fd hopen => ?_⟩
  · obtain ⟨s, steps, hstart, hrun⟩ := h.reachable
    exact ⟨s, _, hstart, .step hrun ⟨⟨show v.server.Enabled n (.finish k) from hlt, hserver⟩, trivial⟩⟩
  · obtain ⟨hopen, harm, hphase⟩ := h.writing fd hfd
    have hne : fd ≠ task.sockfd := by
      rintro rfl
      rw [hheld.disarmed] at harm
      cases harm
    refine ⟨hloop ▸ hopen, (hothers fd hne).trans harm, ?_⟩
    show (Function.update v.users task.sockfd _ fd).phase = _
    rw [Function.update_of_ne hne]
    exact hphase
  · have hopen' : fd ∈ v.server.loop.openFds := hloop ▸ hopen
    by_cases hne : fd = task.sockfd
    · rw [hne] at hopen' ⊢
      obtain ⟨s₀, steps, s, hstart, hdoc, hrun, hsteps, -, hslot⟩ := htracked
      rcases hslot with ⟨harm, -⟩ | ⟨-, hreading, hroom, hs⟩
      · rw [hheld.disarmed] at harm
        cases harm
      · have hconn : (v.users task.sockfd).transfer.conn =
            s.transfer.conn.receive (v.users task.sockfd).unprocessed :=
          congrArg (fun s : Session => s.transfer.conn) hs
        have hworld : v.world = s.world := congrArg (fun s : Session => s.world) hs
        have hresponses : (v.users task.sockfd).responses = s.responses :=
          congrArg (fun s : Session => s.responses) hs
        rw [hconn, hworld] at hproc
        have hread : s.exec fs files decode (.read (v.users task.sockfd).unprocessed accepts) = .ok
            { s with
              phase := if ret = .noRequest then .reading else .writing
              transfer := ⟨c, false, none, []⟩
              world := w } := by
          simp only [Session.exec, Session.read, hproc, bind, Except.bind]
          rfl
        refine Tracked.own (i := .read _ accepts) hstart hdoc hrun hsteps (fun j hj => by cases hj)
          ⟨hreading, hroom⟩ hread ?_ ?_ (harmed hheld.isOpen) ?_
        · show (Function.update v.users task.sockfd _ task.sockfd).steps = _
          rw [Function.update_self]
        · show (if ret = .noRequest then Phase.reading else .writing) ≠ .closed
          split <;> exact fun hclosed => by cases hclosed
        · simp only [session, store, Function.update_self, hresponses, if_true]
    · exact (h.tracked fd hopen').frame (hothers fd hne) (Function.update_of_ne hne ..)

/-- **One step** of any thread. -/
theorem Kept.step {i : Step} (h : v.Kept n m root fs files decode P) (he : v.Enabled n files i)
    (hprompt : v.Prompt i) (hP : ∀ fd j, v.writeStep i = some (fd, j) → P fd (v.users fd).transfer j)
    (hexec : v.exec m root fs files decode i = .ok v') : v'.Kept n m root fs files decode P := by
  cases i with
  | connect connfd p cur =>
    obtain ⟨hnone, henabled⟩ := he
    obtain ⟨server, hserver, hexec⟩ := bind_eq_ok.mp hexec
    cases hexec
    refine h.event henabled trivial hserver hnone (fun fd hne => ?_) (fun fd hopen hfd => ?_)
    · show (if _ then _ else v.users) fd = _
      split
      · exact Function.update_of_ne (fun he => hne (by rw [he]; rfl)) ..
      · rfl
    · obtain rfl : connfd = fd := Option.some.inj hfd
      obtain ⟨l, howned⟩ := Server.owned h.reachable
      obtain ⟨-, harmed, -⟩ := Server.exec_event howned.toAccounts henabled hserver hopen
      refine tracked_init (u := v.users connfd) (harmed p cur rfl) ?_
      show (if _ then _ else v.users) connfd = _
      rw [if_pos hopen]
      exact Function.update_self ..
  | hangup sockfd =>
    obtain ⟨hnone, henabled⟩ := he
    obtain ⟨server, hserver, hexec⟩ := bind_eq_ok.mp hexec
    cases hexec
    refine h.event henabled trivial hserver hnone (fun _ _ => rfl) (fun fd hopen hfd => ?_)
    obtain rfl : sockfd = fd := Option.some.inj hfd
    obtain ⟨l, howned⟩ := Server.owned h.reachable
    exact absurd rfl (Server.exec_event howned.toAccounts henabled hserver hopen).2.2.1
  | read sockfd x readOnce cur => exact h.read he hexec
  | call sockfd cur =>
    obtain ⟨-, henabled, hphase, htransfer⟩ := he
    exact h.write henabled.1 henabled.2 hphase htransfer (hP _ _ rfl) hexec
  | writev answer cur =>
    obtain ⟨fd, hfd, htransfer⟩ := he
    simp only [exec, Option.mem_def.mp hfd] at hexec
    obtain ⟨hopen, harmed, hphase⟩ := h.writing fd hfd
    refine h.write hopen harmed hphase htransfer (hP fd _ ?_) hexec
    simp only [writeStep, Option.mem_def.mp hfd, Option.map_some]
  | alarm cur =>
    obtain ⟨hnone, henabled⟩ := he
    obtain ⟨server, hserver, hexec⟩ := bind_eq_ok.mp hexec
    cases hexec
    exact h.event henabled hprompt hserver hnone (fun _ _ => rfl) (fun _ _ hfd => by cases hfd)
  | dequeue =>
    obtain ⟨server, hserver, hexec⟩ := bind_eq_ok.mp hexec
    cases hexec
    obtain ⟨hloop, harmed⟩ := Server.exec_dequeue hserver
    refine ⟨?_, fun fd hfd => ?_, fun fd hopen => ?_⟩
    · obtain ⟨s, steps, hstart, hrun⟩ := h.reachable
      exact ⟨s, _, hstart, .step hrun ⟨⟨show v.server.Enabled n .dequeue from he, hserver⟩, trivial⟩⟩
    · show fd ∈ server.loop.openFds ∧ server.armed fd = true ∧ _
      rw [hloop, harmed]
      exact h.writing fd hfd
    · exact (h.tracked fd (hloop ▸ hopen)).frame (congrFun harmed fd) rfl
  | finish k accepts =>
    simp only [exec] at hexec
    split at hexec
    · cases hexec
      exact h
    · rename_i task htask
      exact h.process htask hexec

/-! ## Every run -/

theorem Kept.start (hstart : (proactor n m root fs files decode).start v) : v.Kept n m root fs files decode P := by
  obtain ⟨hserver, hnone⟩ := hstart
  obtain ⟨-, -, hopen, -⟩ := hserver.1
  refine ⟨⟨v.server, [], hserver, .nil _⟩, fun fd hfd => ?_, fun fd hfd => ?_⟩
  · rw [hnone] at hfd
    cases hfd
  · rw [hopen] at hfd
    cases hfd

theorem kept {v₀ : Proactor} {h : List Step} (hstart : (proactor n m root fs files decode).start v₀)
    (hrun : ((proactor n m root fs files decode).restrict fun v i => v.Prompt i ∧
      ∀ fd j, v.writeStep i = some (fd, j) → P fd (v.users fd).transfer j).Run v₀ h v) :
    v.Kept n m root fs files decode P := by
  refine hrun.invariant (I := fun _ v => v.Kept n m root fs files decode P) ?_ (Kept.start hstart)
  rintro h t i u hkept ⟨⟨henabled, hexec⟩, hprompt, hP⟩
  exact hkept.step henabled hprompt hP hexec

/-- **Each connection of the server is a session of its own.** In every prompt run, of any number of workers and
    clients: what happens to timers, queue and epoll is a prompt run of the server without them; what an open
    connection's slot has gone through is a run of a session in which others change nothing but the store; and no
    worker is concerned with a slot whose `write()` the main thread is in, nor comes to its `close_conn()`. -/
theorem sessions_kept (h : ((proactor n m root fs files decode).restrict Prompt).Reachable v) :
    ((WebServer.server n m).restrict Server.Prompt).Reachable v.server ∧
      (∀ fd ∈ v.server.loop.openFds, ∃ s₀ steps s, (sharedSession fs files decode).start s₀ ∧
        s₀.transfer.conn.docRoot = root ∧ (sharedSession fs files decode).Run s₀ steps s ∧
        ownSteps steps = (v.users fd).steps ∧ v.Follows fd s) ∧
      ∀ task ∈ v.server.outstanding, v.writing ≠ some task.sockfd ∧ ∀ accepts ret opened c w,
        (v.users task.sockfd).transfer.conn.process fs decode accepts v.world = .ok ((ret, opened, c), w) →
          opened = true := by
  obtain ⟨v₀, steps, hstart, hrun⟩ := h
  have hkept : v.Kept n m root fs files decode fun _ _ _ => True :=
    kept hstart (hrun.restrict_mono fun _ _ hprompt => ⟨hprompt, fun _ _ _ => trivial⟩)
  obtain ⟨l, howned⟩ := Server.owned hkept.reachable
  refine ⟨hkept.reachable, fun fd hopen => ?_, fun task htask => ⟨fun hwriting => ?_, ?_⟩⟩
  · obtain ⟨s₀, steps, s, hstart, hdoc, hrun, hsteps, hfollows⟩ := hkept.tracked fd hopen
    exact ⟨s₀, steps, s, hstart, hdoc, hrun.of_restrict, hsteps, hfollows⟩
  · obtain ⟨-, harmed, -⟩ := hkept.writing task.sockfd hwriting
    rw [(howned.held task htask).disarmed] at harmed
    cases harmed
  · intro accepts ret opened c w hproc
    have hheld := howned.held task htask
    exact (hkept.tracked task.sockfd hheld.isOpen).opened hheld.disarmed hproc

/-- A session that follows a slot has its phase and its responses. -/
theorem Follows.same (h : v.Follows fd s) :
    s.phase = (v.users fd).phase ∧ s.responses = (v.users fd).responses ∧ s.phase ≠ .closed := by
  obtain ⟨hphase, ⟨-, rfl⟩ | ⟨-, -, -, hs⟩⟩ := h
  · exact ⟨rfl, rfl, hphase⟩
  · have hsame : (v.session fd).phase = s.phase := by rw [hs]
    have hresponses : (v.session fd).responses = s.responses := by rw [hs]
    exact ⟨hsame.symm, hresponses.symm, hphase⟩

/-- Where the session's part of `write()` comes through, the server's does. -/
theorem Kept.write_ok {i : Transfer.Step} (h : v.Kept n m root fs files decode P)
    (hopen : fd ∈ v.server.loop.openFds) (harmed : v.server.armed fd = true)
    (hs : (v.session fd).write files i = .ok s) (cur : Int) : ∃ v', v.write m files fd i cur = .ok v' := by
  obtain ⟨l, howned⟩ := Server.owned h.reachable
  simp only [Proactor.write, hs, bind, Except.bind]
  split
  · exact ⟨_, rfl⟩
  · have henabled : v.server.Enabled n (.main (.write fd (decide (s.phase ≠ .closed)) cur)) := ⟨hopen, harmed⟩
    obtain ⟨server, l', hserver, -⟩ := howned.exec henabled trivial m
    rw [show (v.store fd s (.write i)).server.exec m _ = _ from hserver]
    exact ⟨_, rfl⟩

/-- Where a session has been served in order, and what of it is still to be processed is the script's, `process()`
    comes through. -/
theorem Kept.process_ok {script : List Delivery} (h : v.Kept n m root fs files decode P)
    (htask : v.server.running[k]? = some task) (hroot : root.length + 15 ≤ filenameLen) (hmaps : fs.Maps files)
    (hfound : ∀ d ∈ script, d.request.Found fs root)
    (hfollows : v.Follows task.sockfd s)
    (hs : Session.Served fs files root script s (heard (v.users task.sockfd).steps))
    (hnext : heard (v.users task.sockfd).steps ++ [(v.users task.sockfd).unprocessed] <+: reads script)
    (accepts : Bool) : ∃ v', v.process m fs decode k task.sockfd accepts = .ok v' := by
  obtain ⟨l, howned⟩ := Server.owned h.reachable
  obtain ⟨hlt, hget⟩ := List.getElem?_eq_some_iff.mp htask
  have hrunning : task ∈ v.server.running := hget ▸ List.getElem_mem hlt
  have hheld := howned.held task (List.mem_append_right _ hrunning)
  have htracked := h.tracked task.sockfd hheld.isOpen
  obtain ⟨-, ⟨harm, -⟩ | ⟨-, hreading, -, hslot⟩⟩ := hfollows
  · rw [hheld.disarmed] at harm
    cases harm
  · obtain ⟨s', hread, -⟩ := hs.read decode accepts hroot hmaps hfound hreading hnext
    obtain ⟨⟨⟨ret, opened, c⟩, w⟩, hproc, -⟩ := bind_eq_ok.mp hread
    have hconn : (v.users task.sockfd).transfer.conn =
        s.transfer.conn.receive (v.users task.sockfd).unprocessed :=
      congrArg (fun s : Session => s.transfer.conn) hslot
    have hworld : v.world = s.world := congrArg (fun s : Session => s.world) hslot
    rw [← hconn, ← hworld] at hproc
    obtain rfl := htracked.opened hheld.disarmed hproc
    obtain ⟨server, l', hserver, -⟩ :=
      howned.exec (show v.server.Enabled n (.finish k) from hlt) trivial m
    simp only [Proactor.process, hproc, hserver, bind, Except.bind, if_true]
    exact ⟨_, rfl⟩

/-- **Every client has its own responses, in order**, whoever else is served. In every prompt run of the server,
    for every connection that is open: when the reads that `process()` has seen of it are those of a script of
    deliveries, and no second `writev` has ended inside the header of a response of its own, the responses that are
    out are those of the first requests; while it is read from these are all that have arrived whole, otherwise all
    but the last. And no step that is next is a fault, except for the sake of another connection. -/
theorem answered_each {v₀ : Proactor} {h : List Step} {sockfd : Nat} {script : List Delivery}
    (hroot : root.length + 15 ≤ filenameLen) (hmaps : fs.Maps files)
    (hfound : ∀ d ∈ script, d.request.Found fs root) (hstart : (proactor n m root fs files decode).start v₀)
    (hrun : ((proactor n m root fs files decode).restrict
      fun v i => v.Prompt i ∧ v.Straight sockfd i).Run v₀ h v)
    (hopen : sockfd ∈ v.server.loop.openFds) (hheard : heard (v.users sockfd).steps <+: reads script) :
    (∃ answered rest, script = answered ++ rest ∧
      (v.users sockfd).responses = replies fs files root answered ∧
      (((v.users sockfd).phase = .reading ∧
          ∃ part, heard (v.users sockfd).steps = reads answered ++ part ∧ Session.Within rest part) ∨
        ((v.users sockfd).phase = .writing ∧
          ∃ d later, rest = d :: later ∧ heard (v.users sockfd).steps = reads (answered ++ [d])))) ∧
    ∀ i, v.Enabled n files i → v.Prompt i → v.Straight sockfd i → (∀ fd ∈ v.serves i, fd = sockfd) →
      (∀ k accepts, i = .finish k accepts →
        heard (v.users sockfd).steps ++ [(v.users sockfd).unprocessed] <+: reads script) →
      ∃ v', v.exec m root fs files decode i = .ok v' := by
  have hkept : v.Kept n m root fs files decode fun fd t j => fd = sockfd → t.Straight j := by
    refine kept hstart (hrun.restrict_mono fun v i hcondition => ⟨hcondition.1, fun fd j hj he => ?_⟩)
    subst he
    exact hcondition.2 j hj
  obtain ⟨l, howned⟩ := Server.owned hkept.reachable
  obtain ⟨s₀, steps, s, hstart', hdoc, hrun', hsteps, hfollows⟩ := hkept.tracked sockfd hopen
  have hs : Session.Served fs files root script s (heard (v.users sockfd).steps) := by
    rw [← hsteps] at hheard ⊢
    refine Session.served_among_others hroot hmaps hfound hstart' hdoc ?_ hheard
    refine hrun'.restrict_mono fun t i hP j hj => ?_
    cases j with
    | read x accepts => trivial
    | write j => exact hP j hj rfl
  refine ⟨?_, fun i henabled hprompt hstraight hserves hnext => ?_⟩
  · obtain ⟨hphase, hresponses, hopened⟩ := hfollows.same
    cases hs with
    | reading answered rest part phase split given_eq within between responses =>
      exact ⟨answered, rest, split, hresponses.symm.trans responses,
        .inl ⟨hphase.symm.trans phase, part, given_eq, within⟩⟩
    | writing answered d rest header content phase split given_eq message progress linger docRoot responses =>
      exact ⟨answered, d :: rest, split, hresponses.symm.trans responses,
        .inr ⟨hphase.symm.trans phase, d, rest, rfl, given_eq⟩⟩
    | closed answered d rest phase => exact absurd phase hopened
  · have hwrite : ∀ {j : Transfer.Step} (cur : Int), v.server.armed sockfd = true →
        (v.users sockfd).phase = .writing → (v.users sockfd).transfer.Enabled files j →
        (v.users sockfd).transfer.Straight j → ∃ v', v.write m files sockfd j cur = .ok v' := by
      intro j cur harmed hwriting henabled hstraight
      obtain ⟨-, ⟨-, rfl⟩ | ⟨hdis, -⟩⟩ := hfollows
      · obtain ⟨s', hs', -⟩ := hs.write hwriting henabled hstraight
        exact hkept.write_ok hopen harmed hs' cur
      · rw [harmed] at hdis
        cases hdis
    cases i with
    | connect connfd p cur | hangup connfd | alarm cur =>
      obtain ⟨server, l', hserver, -⟩ := howned.exec henabled.2 hprompt m
      simp only [Proactor.exec, hserver, bind, Except.bind]
      exact ⟨_, rfl⟩
    | read fd x readOnce cur =>
      obtain ⟨server, l', hserver, -⟩ := howned.exec henabled.2.1 trivial m
      simp only [Proactor.exec, hserver, bind, Except.bind]
      exact ⟨_, rfl⟩
    | dequeue =>
      obtain ⟨server, l', hserver, -⟩ := howned.exec (show v.server.Enabled n .dequeue from henabled) trivial m
      simp only [Proactor.exec, hserver, bind, Except.bind]
      exact ⟨_, rfl⟩
    | call fd cur =>
      obtain ⟨-, ⟨-, harmed⟩, hwriting, htransfer⟩ := henabled
      obtain rfl := hserves fd rfl
      exact hwrite cur harmed hwriting htransfer (hstraight _ rfl)
    | writev answer cur =>
      obtain ⟨fd, hfd, htransfer⟩ := henabled
      have hstep : v.writeStep (.writev answer cur) = some (fd, .writev answer) := by
        simp only [writeStep, Option.mem_def.mp hfd, Option.map_some]
      have hserved : v.serves (.writev answer cur) = some fd := by
        show (v.writeStep (.writev answer cur)).map Prod.fst = some fd
        rw [hstep, Option.map_some]
      obtain rfl := hserves fd hserved
      obtain ⟨-, harmed, hwriting⟩ := hkept.writing fd hfd
      simp only [Proactor.exec, Option.mem_def.mp hfd]
      exact hwrite cur harmed hwriting htransfer (hstraight _ hstep)
    | finish k accepts =>
      simp only [Proactor.exec]
      split
      · exact ⟨v, rfl⟩
      · rename_i task htask
        have hserved : v.serves (.finish k accepts) = some task.sockfd := by
          simp only [serves, htask, Option.map_some]
        obtain rfl := hserves task.sockfd hserved
        exact hkept.process_ok htask hroot hmaps hfound hfollows hs (hnext k accepts rfl) accepts

/-! ## One client -/

/-- The server as it starts. -/
def quiet : Proactor where
  server := WebServer.quiet
  users _ := ⟨.closed, ⟨default, false, none, []⟩, [], [], []⟩
  world := ⟨fun _ => none, []⟩
  writing := none

theorem quiet_start : (proactor 8 10000 [] HttpConn.oneFile (fun _ => bytes "hi") decodePlain).start quiet :=
  ⟨⟨⟨rfl, rfl, rfl, rfl⟩, rfl, rfl⟩, rfl⟩

/-- A request in two reads, its response in one `writev`, a tick and a worker in between; the last step first. -/
def oneClient : List Step :=
  [.writev (.sent 62) 7, .call 5 7, .finish 0 true, .dequeue,
    .read 5 (Session.keptGet.text.drop 20 ++ bytes "GET") true 6, .alarm 5, .finish 0 true, .dequeue,
    .read 5 (Session.keptGet.text.take 20) true 0, .connect 5 1 0]

def after (h : List Step) : Option Proactor :=
  System.follow (Proactor.exec 10000 [] HttpConn.oneFile (fun _ => bytes "hi") decodePlain)
    (fun v i => v.Enabled 8 (fun _ => bytes "hi") i ∧ v.Prompt i ∧ v.Straight 5 i) quiet h

theorem run_after {h : List Step} {v : Proactor} (hv : after h = some v) :
    ((proactor 8 10000 [] HttpConn.oneFile (fun _ => bytes "hi") decodePlain).restrict
      fun v i => v.Prompt i ∧ v.Straight 5 i).Run quiet h v := by
  refine System.Run.of_follow (fun t i u hok hexec => ?_) hv
  obtain ⟨henabled, hcondition⟩ := of_decide_eq_true hok
  exact ⟨⟨henabled, hexec⟩, hcondition⟩

theorem answered_each_one : ∃ (v : Proactor) (answered rest : List Delivery),
    [Session.keptDelivery] = answered ++ rest ∧ (v.users 5).responses =
      replies HttpConn.oneFile (fun _ => bytes "hi") [] answered ∧ (v.users 5).phase = .reading ∧
      heard (v.users 5).steps = Session.keptDelivery.chunks := by
  have hfollow : (after oneClient).any (fun v => 5 ∈ v.server.loop.openFds ∧ (v.users 5).phase = .reading ∧
      heard (v.users 5).steps = Session.keptDelivery.chunks) = true := by decide +kernel
  obtain ⟨v, hv, hend⟩ := (Option.any_eq_true _ _).mp hfollow
  obtain ⟨hopen, hphase, hheard⟩ := of_decide_eq_true hend
  have hfound : ∀ d ∈ [Session.keptDelivery], d.request.Found HttpConn.oneFile [] := by
    intro d hd
    obtain rfl := List.mem_singleton.mp hd
    exact ⟨⟨2, true, false⟩, by decide +kernel, by decide⟩
  have hscript : heard (v.users 5).steps <+: reads [Session.keptDelivery] := by
    rw [hheard]
    exact List.prefix_append _ _
  obtain ⟨⟨answered, rest, hsplit, hresponses, -⟩, -⟩ := answered_each (by decide) HttpConn.oneFile_maps hfound
    quiet_start (run_after hv) hopen hscript
  exact ⟨v, answered, rest, hsplit, hresponses, hphase, hheard⟩

/-- With its second read in the queue. -/
theorem sessions_kept_queued : ∃ (v : Proactor) (s₀ s : Session) (steps : List (Session.Step ⊕ World)),
    v.server.outstanding ≠ [] ∧
      (sharedSession HttpConn.oneFile (fun _ => bytes "hi") decodePlain).Run s₀ steps s ∧
      ownSteps steps = (v.users 5).steps ∧ v.Follows 5 s := by
  have hfollow : (after (oneClient.drop 4)).any (fun v => 5 ∈ v.server.loop.openFds ∧
      v.server.outstanding ≠ []) = true := by decide +kernel
  obtain ⟨v, hv, hend⟩ := (Option.any_eq_true _ _).mp hfollow
  obtain ⟨hopen, houtstanding⟩ := of_decide_eq_true hend
  have hreachable : ((proactor 8 10000 [] HttpConn.oneFile (fun _ => bytes "hi") decodePlain).restrict
      Prompt).Reachable v := by
    exact ⟨quiet, oneClient.drop 4, quiet_start, (run_after hv).restrict_mono fun _ _ => And.left⟩
  obtain ⟨s₀, steps, s, -, -, hrun, hsteps, hfollows⟩ := (sessions_kept hreachable).2.1 5 hopen
  exact ⟨v, s₀, s, steps, houtstanding, hrun, hsteps, hfollows⟩

end

end Proactor

end WebServer
end LinuxServer
