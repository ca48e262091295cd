import LinuxServer.CppServer.Connection
import LinuxServer.CppServer.Epoll
import LinuxServer.Lib.Escape

/-!
# `CppServer/Dispatch.lean` — what leaves `loop`

`EventLoop::loop` polls, has every channel that is ready handle its event, runs what has been queued, and starts
again. `Connection` sees to the results of `read` and `write` itself. `Epoll::poll_channel` throws where
`epoll_wait` returns −1, and `SerSocket::accept` where `accept` does, whatever `errno` is, and nobody catches: the
rest of the batch is not handled, and nothing is polled again (`stopped`). `handleRead` and `QueueOneFunc`
assert that the eventfd takes its eight bytes.

These are the only ways out. In a run in which every `epoll_wait` and every `accept` succeeds the loop goes on,
whatever the reads and writes of the connections come to, and what it has polled is what it has handled and what
is left of the batch (`goes_on_iff`).

`Channel::handleEvent` locks the tie of its channel before; that changes nothing here. That the connection of an
event is there until it is handled, and has an owner, is the subject of `CppServer/Teardown.lean`.
-/

set_option autoImplicit false

namespace LinuxServer

def epollRdhup : BitVec 32 := 0x2000

/-- How `loop` is left. -/
inductive Escape
  /-- A `std::runtime_error` that nobody catches. -/
  | exception (what : String)
  /-- An assertion fails. -/
  | assertion
  deriving DecidableEq, Repr

/-- The channels of a loop: `wakeUpChannel`, `acceptChannel`, and those of connections, by descriptor. -/
inductive LoopChannel
  | wakeUp
  | acceptor
  | connection (fd : Int)
  deriving DecidableEq, Repr

/-- A channel that was found ready, with its `readyEvents`. -/
structure ReadyChannel where
  channel : LoopChannel
  readyEvents : BitVec 32
  deriving DecidableEq, Repr

/-- A call of a routine of a connection, and what the `write`s to an eventfd in it return, one for each function
    that is queued. -/
structure ConnCall where
  fd : Int
  step : Connection.Step
  wakes : List Int
  deriving DecidableEq, Repr

/-- What the system calls of one handler come to, and what the callbacks of the user call in it. -/
structure Answers where
  /-- The `read` of the eventfd. -/
  eventfd : Int
  accept : Int
  blocking : Bool
  in_main : Bool
  reads : List ReadAnswer
  /-- The `write`s to an eventfd where `HandleClose` queues a function. -/
  wakes : List Int
  calls : List ConnCall
  /-- What a `writeCallback` calls, where the user has set one. -/
  written : List ConnCall
  deriving DecidableEq, Repr

/-- Where `loop` is: before `poll_channel`, or before the first of the channels that are left. -/
inductive DispatchPhase
  | polling
  | handling (batch : List ReadyChannel)
  deriving DecidableEq, Repr

def DispatchPhase.batch : DispatchPhase → List ReadyChannel
  | .polling => []
  | .handling batch => batch

/-- A loop, the connections of the process by descriptor, and how the loop was left. -/
structure Dispatcher where
  conns : Int → Option Connection
  phase : DispatchPhase
  ended : Option Escape

/-- How many functions have been queued between the two: `HandleCloseInLoop`s and `ConnectionDestructor`s. -/
def Connection.queued (c c' : Connection) : Nat :=
  (c'.mainTodo - c.mainTodo) + (c'.destructors - c.destructors)

/-- `SerSocket::accept`. -/
def SerSocket.accept (new_fd : Int) : Escaping Escape Int :=
  if new_fd < 0 then .fail (.exception "Failed to accept connection") else pure new_fd

/-- `assert`. -/
def assertThat (b : Prop) [Decidable b] : Escaping Escape Unit :=
  if b then pure () else .fail .assertion

namespace Epoll

/-- `MAX_EVENTS` of the default constructor. -/
def maxEvents : Nat := 10

/-- `Epoll::poll_channel`, where `epoll_wait` has returned `num_events` and filled in the `events`. -/
def pollChannel (num_events : Int) (events : List ReadyChannel) : Escaping Escape (List ReadyChannel) :=
  if num_events = -1 then .fail (.exception "Epoll wait failed") else pure (events.take num_events.toNat)

end Epoll

namespace Dispatcher

/-! ## What a handler does -/

/-- A routine of a connection, and the writes of `QueueOneFunc` in it. -/
def call (d : Dispatcher) (i : ConnCall) : Escaping Escape Dispatcher := do
  let c ← .ofOption (d.conns i.fd)
  let c' ← .ofOption (c.exec i.step)
  let wakes ← .ofOption (if i.wakes.length = c.queued c' then some i.wakes else none)
  assertThat (∀ n ∈ wakes, n = 8)
  return { d with conns := Function.update d.conns i.fd (some c') }

def calls (d : Dispatcher) : List ConnCall → Escaping Escape Dispatcher
  | [] => return d
  | i :: is => do
    let d ← d.call i
    d.calls is

/-- `EventLoop::handleRead`. -/
def handleRead (d : Dispatcher) (n : Int) : Escaping Escape Dispatcher := do
  assertThat (n = 8)
  return d

/-- `Server::HandleNewConnection`, with the assertion of the constructor of `Connection`. -/
def handleNewConnection (d : Dispatcher) (client_fd : Int) (onConnect : List ConnCall) :
    Escaping Escape Dispatcher := do
  assertThat (client_fd ≠ -1)
  assertThat (0 ≤ client_fd)
  calls { d with conns := Function.update d.conns client_fd (some Connection.established) } onConnect

/-- `Acceptor::acceptConnection`. -/
def acceptConnection (d : Dispatcher) (a : Answers) : Escaping Escape Dispatcher := do
  let fd ← SerSocket.accept a.accept
  if fd < 0 then .fail (.exception "Failed to accept connection") else d.handleNewConnection fd a.calls

/-- The `readCallback` of a channel; that of a connection is `Read`, and `onMessageCallback`. -/
def readCallback (d : Dispatcher) (a : Answers) : LoopChannel → Escaping Escape Dispatcher
  | .wakeUp => d.handleRead a.eventfd
  | .acceptor => d.acceptConnection a
  | .connection fd => do
    let d ← d.call ⟨fd, .read a.blocking a.in_main a.reads, a.wakes⟩
    d.calls a.calls

/-- The `writeCallback`, which is empty if it is not the user's. -/
def writeCallback (d : Dispatcher) (a : Answers) : LoopChannel → Escaping Escape Dispatcher
  | .wakeUp | .acceptor => return d
  | .connection _ => d.calls a.written

/-- `Channel::handleEventWithGuard`. -/
def handleEvent (d : Dispatcher) (e : ReadyChannel) (a : Answers) : Escaping Escape Dispatcher := do
  let d ← (if e.readyEvents &&& (epollIn ||| epollPri ||| epollRdhup) ≠ 0 then d.readCallback a e.channel
    else pure d)
  if e.readyEvents &&& epollOut ≠ 0 then d.writeCallback a e.channel else pure d

/-! ## The loop -/

inductive Step
  /-- `epoll_wait`. -/
  | poll (num_events : Int) (events : List ReadyChannel)
  | handleEvent (e : ReadyChannel) (a : Answers)
  /-- The functions that were queued, and what they call. -/
  | doToDoList (calls : List ConnCall)
  /-- Calls in another thread. -/
  | other (calls : List ConnCall)
  /-- `~Connection`, with the `close` of the descriptor. -/
  | destroy (fd : Int)
  deriving DecidableEq, Repr

def exec (d : Dispatcher) : Step → Escaping Escape Dispatcher
  | .poll num_events events => do
    let batch ← Epoll.pollChannel num_events events
    return { d with phase := .handling batch }
  | .handleEvent e a => do
    let d ← d.handleEvent e a
    return { d with phase := .handling d.phase.batch.tail }
  | .doToDoList calls => do
    let d ← d.calls calls
    return { d with phase := .polling }
  | .other calls => d.calls calls
  | .destroy fd => return { d with conns := Function.update d.conns fd none }

/-- `epoll_wait` returns −1, or as many events as it has filled in, of channels that are there. A connection is
    destroyed while this loop polls: its own are at no other time, and of those of other loops only such runs
    are followed. -/
def Enabled (d : Dispatcher) : Step → Prop
  | .poll num_events events => d.ended = none ∧ d.phase = .polling ∧
      (num_events = -1 ∨ num_events = events.length ∧ events.length ≤ Epoll.maxEvents) ∧
      ∀ e ∈ events, ∀ fd, e.channel = .connection fd → (d.conns fd).isSome = true
  | .handleEvent e _ => d.ended = none ∧ ∃ batch, d.phase = .handling (e :: batch)
  | .doToDoList _ => d.ended = none ∧ d.phase = .handling []
  | .other _ => True
  | .destroy fd => d.phase = .polling ∧ ∃ c, d.conns fd = some c ∧ 0 < c.destructors

/-- Where the loop is left it keeps how. An exception comes before anything else has been done in its step, and
    after an assertion there is no process. -/
def outcome (d : Dispatcher) (i : Step) : Option Dispatcher :=
  (d.exec i).run.map fun r => match r with
    | .ok d' => d'
    | .error e => { d with ended := some e }

end Dispatcher

/-- A loop that has been started, with any connections, and any other threads. -/
def dispatching : System Dispatcher Dispatcher.Step where
  start d := d.phase = .polling ∧ d.ended = none
  step d i d' := d.Enabled i ∧ d.outcome i = some d'

namespace Dispatcher

/-- The connection that an event of a channel is about. -/
def subject (a : Answers) : LoopChannel → List Int
  | .wakeUp => []
  | .acceptor => [a.accept]
  | .connection fd => [fd]

/-- The connections that a step is about. -/
def Step.concerns : Step → List Int
  | .poll _ _ => []
  | .handleEvent e a => subject a e.channel ++ (a.calls ++ a.written).map ConnCall.fd
  | .doToDoList calls | .other calls => calls.map ConnCall.fd
  | .destroy fd => [fd]

/-- Every `write` to an eventfd in the calls writes its eight bytes. -/
def Wakes (calls : List ConnCall) : Prop := ∀ i ∈ calls, ∀ n ∈ i.wakes, n = 8

/-- The system calls of a `readCallback` that throws or asserts succeed. -/
def ReadsWell (a : Answers) : LoopChannel → Prop
  | .wakeUp => a.eventfd = 8
  | .acceptor => 0 ≤ a.accept ∧ Wakes a.calls
  | .connection _ => (∀ n ∈ a.wakes, n = 8) ∧ Wakes a.calls

def WritesWell (a : Answers) : LoopChannel → Prop
  | .wakeUp | .acceptor => True
  | .connection _ => Wakes a.written

/-- **A step succeeds**: `epoll_wait` and `accept` do, and the eventfd gives and takes its eight bytes. -/
def Step.Succeeds : Step → Prop
  | .poll num_events _ => num_events ≠ -1
  | .handleEvent e a =>
    (e.readyEvents &&& (epollIn ||| epollPri ||| epollRdhup) ≠ 0 → ReadsWell a e.channel) ∧
      (e.readyEvents &&& epollOut ≠ 0 → WritesWell a e.channel)
  | .doToDoList calls | .other calls => Wakes calls
  | .destroy _ => True

/-- What `epoll_wait` has given, the last batch last. -/
def polled : List Step → List ReadyChannel
  | [] => []
  | .poll num_events events :: h => polled h ++ events.take num_events.toNat
  | _ :: h => polled h

/-- The events that have been handled. -/
def dispatched : List Step → List ReadyChannel
  | [] => []
  | .handleEvent e _ :: h => dispatched h ++ [e]
  | _ :: h => dispatched h

/-- Where a step that succeeds leaves the loop. -/
def nextPhase (d : Dispatcher) : Step → DispatchPhase
  | .poll num_events events => .handling (events.take num_events.toNat)
  | .handleEvent _ _ => .handling d.phase.batch.tail
  | .doToDoList _ => .polling
  | .other _ | .destroy _ => d.phase

/-- From `d` to `d'` at most the connections of `fds` have changed, and none is gone. -/
structure Within (fds : List Int) (d d' : Dispatcher) : Prop where
  ended : d'.ended = d.ended
  phase : d'.phase = d.phase
  frame : ∀ fd, fd ∉ fds → d'.conns fd = d.conns fd
  kept : ∀ fd, (d.conns fd).isSome = true → (d'.conns fd).isSome = true

section
variable {d d' d'' s t u : Dispatcher} {i : Step} {h : List Step} {fds fds' : List Int}

open Escaping (Spec)

theorem Within.refl (fds : List Int) (d : Dispatcher) : Within fds d d :=
  ⟨rfl, rfl, fun _ _ => rfl, fun _ => id⟩

theorem Within.trans (hd : Within fds d d') (hd' : Within fds' d' d'') : Within (fds ++ fds') d d'' where
  ended := hd'.ended.trans hd.ended
  phase := hd'.phase.trans hd.phase
  frame fd hfd := by
    rw [List.mem_append, not_or] at hfd
    exact (hd'.frame fd hfd.2).trans (hd.frame fd hfd.1)
  kept fd hsome := hd'.kept fd (hd.kept fd hsome)

theorem Within.mono (hd : Within fds d d') (hsub : fds ⊆ fds') : Within fds' d d' :=
  ⟨hd.ended, hd.phase, fun fd hfd => hd.frame fd fun hmem => hfd (hsub hmem), hd.kept⟩

/-- One connection set. -/
theorem Within.set (d : Dispatcher) (fd : Int) (c : Connection) :
    Within [fd] d { d with conns := Function.update d.conns fd (some c) } where
  ended := rfl
  phase := rfl
  frame fd' hfd := Function.update_of_ne (fun heq => hfd (List.mem_singleton.mpr heq)) _ _
  kept fd' hsome := by
    by_cases hfd : fd' = fd
    · rw [hfd]
      show (Function.update d.conns fd (some c) fd).isSome = true
      rw [Function.update_self]
      rfl
    · show (Function.update d.conns fd (some c) fd').isSome = true
      rw [Function.update_of_ne hfd]
      exact hsome

/-! ## The handlers -/

theorem assertThat_spec (b : Prop) [Decidable b] : Spec (assertThat b) b fun _ => True :=
  ((Spec.pure trivial).test Escape.assertion).mono (and_iff_left trivial) fun _ => id

/-- **A call** affects its connection, and returns normally if the eventfd takes what is written to it. -/
theorem call_spec (d : Dispatcher) (c : ConnCall) :
    Spec (d.call c) (∀ n ∈ c.wakes, n = 8) (Within [c.fd] d) := by
  refine Spec.ofOption_bind fun conn _ => Spec.ofOption_bind fun conn' _ => Spec.ofOption_bind fun wakes heq => ?_
  split at heq
  · obtain rfl := Option.some.inj heq
    exact ((assertThat_spec _).bind fun _ _ => Spec.pure (Within.set d c.fd conn')).mono (and_iff_left trivial)
      fun _ => id
  · cases heq

theorem calls_spec (d : Dispatcher) (cs : List ConnCall) :
    Spec (d.calls cs) (Wakes cs) (Within (cs.map ConnCall.fd) d) := by
  induction cs generalizing d with
  | nil => exact (Spec.pure (Within.refl [] d)).mono (iff_of_true trivial (List.forall_mem_nil _)) fun _ => id
  | cons c cs ih =>
    refine ((call_spec d c).bind (S := Within ((c :: cs).map ConnCall.fd) d) fun d' hd' =>
      (ih d').mono Iff.rfl fun d'' hd'' => hd'.trans hd'').mono ?_ fun _ => id
    exact (List.forall_mem_cons (p := fun c : ConnCall => ∀ n ∈ c.wakes, n = 8)).symm

theorem handleRead_spec (d : Dispatcher) (n : Int) : Spec (d.handleRead n) (n = 8) (Within [] d) :=
  ((assertThat_spec _).bind fun _ _ => Spec.pure (Within.refl [] d)).mono (and_iff_left trivial) fun _ => id

theorem handleNewConnection_spec (d : Dispatcher) {fd : Int} (hfd : 0 ≤ fd) (cs : List ConnCall) :
    Spec (d.handleNewConnection fd cs) (Wakes cs) (Within (fd :: cs.map ConnCall.fd) d) := by
  have hcalls := (calls_spec { d with conns := Function.update d.conns fd (some Connection.established) } cs).mono
    Iff.rfl fun d' hd' => (Within.set d fd Connection.established).trans hd'
  refine ((assertThat_spec _).bind fun _ _ => (assertThat_spec _).bind fun _ _ => hcalls).mono ?_ fun _ => id
  exact ⟨fun h => h.2.2, fun h => ⟨by omega, hfd, h⟩⟩

/-- **`acceptConnection`** returns normally if `accept` does. -/
theorem acceptConnection_spec (d : Dispatcher) (a : Answers) :
    Spec (d.acceptConnection a) (0 ≤ a.accept ∧ Wakes a.calls)
      (Within (a.accept :: a.calls.map ConnCall.fd) d) := by
  have haccept : Spec (SerSocket.accept a.accept) (0 ≤ a.accept) fun fd => fd = a.accept ∧ 0 ≤ fd := by
    by_cases hneg : a.accept < 0
    · unfold SerSocket.accept
      rw [if_pos hneg]
      exact (Spec.fail _ _).mono (iff_of_false id (by omega)) fun _ => id
    · unfold SerSocket.accept
      rw [if_neg hneg]
      exact (Spec.pure ⟨rfl, by omega⟩).mono (iff_of_true trivial (by omega)) fun _ => id
  refine haccept.bind fun fd hfd => ?_
  obtain ⟨rfl, hnonneg⟩ := hfd
  rw [if_neg (by omega)]
  exact handleNewConnection_spec d hnonneg a.calls

theorem readCallback_spec (d : Dispatcher) (a : Answers) (channel : LoopChannel) :
    Spec (d.readCallback a channel) (ReadsWell a channel)
      (Within (subject a channel ++ (a.calls ++ a.written).map ConnCall.fd) d) := by
  have hsub : a.calls.map ConnCall.fd ⊆ (a.calls ++ a.written).map ConnCall.fd := by
    rw [List.map_append]
    exact List.subset_append_left _ _
  cases channel with
  | wakeUp => exact (handleRead_spec d a.eventfd).mono Iff.rfl fun _ hd => hd.mono (List.nil_subset _)
  | acceptor =>
    exact (acceptConnection_spec d a).mono Iff.rfl fun _ hd => hd.mono (List.cons_subset_cons _ hsub)
  | connection fd =>
    refine (call_spec d _).bind fun d' hd' => ?_
    refine (calls_spec d' a.calls).mono Iff.rfl fun d'' hd'' => (hd'.trans hd'').mono ?_
    exact List.cons_subset_cons _ hsub

theorem writeCallback_spec (d : Dispatcher) (a : Answers) (channel : LoopChannel) :
    Spec (d.writeCallback a channel) (WritesWell a channel)
      (Within (subject a channel ++ (a.calls ++ a.written).map ConnCall.fd) d) := by
  cases channel with
  | wakeUp | acceptor => exact Spec.pure (Within.refl _ d)
  | connection fd =>
    refine (calls_spec d a.written).mono Iff.rfl fun _ hd => hd.mono ?_
    rw [List.map_append]
    exact List.Subset.trans (List.subset_append_right _ _) (List.subset_append_right _ _)

theorem handleEvent_spec (d : Dispatcher) (e : ReadyChannel) (a : Answers) :
    Spec (d.handleEvent e a) (Step.handleEvent e a).Succeeds (Within (Step.handleEvent e a).concerns d) := by
  have hread : Spec (if e.readyEvents &&& (epollIn ||| epollPri ||| epollRdhup) ≠ 0 then
      d.readCallback a e.channel else pure d) _ _ :=
    (readCallback_spec d a e.channel).when (Spec.pure (Within.refl _ d))
  refine hread.bind fun d' hd' => ?_
  have hwrite : Spec (if e.readyEvents &&& epollOut ≠ 0 then d'.writeCallback a e.channel else pure d') _ _ :=
    (writeCallback_spec d' a e.channel).when (Spec.pure (Within.refl _ d'))
  refine hwrite.mono Iff.rfl fun d'' hd'' => ?_
  refine (hd'.trans hd'').mono (List.append_subset.mpr ⟨?_, ?_⟩)
  · exact List.Subset.refl _
  · exact List.Subset.refl _

/-! ## One step -/

/-- What a step that comes to a next state does: the loop goes on, and at most the connections that the step is
    about have changed. -/
structure Stepped (d : Dispatcher) (i : Step) (d' : Dispatcher) : Prop where
  ended : d'.ended = d.ended
  phase : d'.phase = d.nextPhase i
  frame : ∀ fd, fd ∉ i.concerns → d'.conns fd = d.conns fd
  kept : ∀ fd, i ≠ .destroy fd → (d.conns fd).isSome = true → (d'.conns fd).isSome = true

/-- **A step** comes to a next state if and only if it succeeds. -/
theorem exec_spec (d : Dispatcher) (i : Step) : Spec (d.exec i) i.Succeeds (Stepped d i) := by
  cases i with
  | poll num_events events =>
    have hpoll : Spec (Epoll.pollChannel num_events events) (num_events ≠ -1) fun batch =>
        batch = events.take num_events.toNat :=
      (Spec.unless _ (Spec.pure (Q := fun batch => batch = events.take num_events.toNat) rfl)).mono
        (and_iff_left trivial) fun _ heq => heq
    refine (hpoll.bind fun batch heq => ?_).mono (and_iff_left trivial) fun _ => id
    obtain rfl := heq
    exact Spec.pure ⟨rfl, rfl, fun _ _ => rfl, fun _ _ => id⟩
  | handleEvent e a =>
    refine ((handleEvent_spec d e a).bind fun d' hd' => ?_).mono (and_iff_left trivial) fun _ => id
    refine Spec.pure ⟨hd'.ended, ?_, hd'.frame, fun fd _ => hd'.kept fd⟩
    show DispatchPhase.handling d'.phase.batch.tail = _
    rw [hd'.phase]
    rfl
  | doToDoList cs =>
    refine ((calls_spec d cs).bind fun d' hd' => ?_).mono (and_iff_left trivial) fun _ => id
    exact Spec.pure ⟨hd'.ended, rfl, hd'.frame, fun fd _ => hd'.kept fd⟩
  | other cs =>
    exact (calls_spec d cs).mono Iff.rfl fun d' hd' =>
      ⟨hd'.ended, hd'.phase, hd'.frame, fun fd _ => hd'.kept fd⟩
  | destroy fd =>
    refine Spec.pure ⟨rfl, rfl, fun fd' hfd => ?_, fun fd' hne hsome => ?_⟩
    · exact Function.update_of_ne (fun heq => hfd (List.mem_singleton.mpr heq)) _ _
    · have hfd : fd' ≠ fd := fun heq => hne (by rw [heq])
      show (Function.update d.conns fd none fd').isSome = true
      rw [Function.update_of_ne hfd]
      exact hsome

/-- Inversion: it succeeds, or the loop is left. -/
theorem outcome_cases (hout : d.outcome i = some d') :
    (i.Succeeds ∧ Stepped d i d') ∨ (¬ i.Succeeds ∧ ∃ e, d' = { d with ended := some e }) := by
  obtain ⟨hok, hfail⟩ := exec_spec d i
  rcases Escaping.cases (d.exec i) with hnone | ⟨e, he⟩ | ⟨d₁, hd₁⟩
  · unfold outcome at hout
    rw [hnone] at hout
    cases hout
  · refine .inr ⟨hfail e he, e, ?_⟩
    unfold outcome at hout
    rw [he] at hout
    exact (Option.some.inj hout).symm
  · refine .inl ?_
    unfold outcome at hout
    rw [hd₁] at hout
    obtain rfl : d₁ = d' := Option.some.inj hout
    exact hok d₁ hd₁

/-- **One step** goes on if and only if it succeeds. -/
theorem ended_step (hended : d.ended = none) (hstep : dispatching.step d i d') :
    d'.ended = none ↔ i.Succeeds := by
  rcases outcome_cases hstep.2 with ⟨hsucceeds, hd'⟩ | ⟨hfails, e, rfl⟩
  · exact iff_of_true (hd'.ended.trans hended) hsucceeds
  · exact iff_of_false (fun heq => by cases heq) hfails

/-- A loop that has been left is not entered again. -/
theorem ended_of_step (hstep : dispatching.step d i d') (hended : d'.ended = none) : d.ended = none := by
  rcases outcome_cases hstep.2 with ⟨-, hd'⟩ | ⟨-, e, rfl⟩
  · exact hd'.ended.symm.trans hended
  · cases hended

/-- **The frame**: whatever a step comes to, the connections that it is not about are as they were. -/
theorem step_frame (hstep : dispatching.step d i d') {fd : Int} (hfd : fd ∉ i.concerns) :
    d'.conns fd = d.conns fd := by
  rcases outcome_cases hstep.2 with ⟨-, hd'⟩ | ⟨-, e, rfl⟩
  · exact hd'.frame fd hfd
  · rfl

/-! ## Every run -/

theorem deterministic : dispatching.Deterministic := by
  intro d i u u' hu hu'
  exact Option.some.inj (hu.2.symm.trans hu'.2)

/-- **What has been polled** has been handled, or is left of the batch. -/
theorem polled_eq (hstart : dispatching.start s) (hrun : dispatching.Run s h t) (hended : t.ended = none) :
    polled h = dispatched h ++ t.phase.batch := by
  induction hrun with
  | nil =>
    obtain ⟨hphase, -⟩ := hstart
    rw [hphase]
    rfl
  | @step t u h i hrun hstep ih =>
    have hbefore := ih (ended_of_step hstep hended)
    rcases outcome_cases hstep.2 with ⟨-, hu⟩ | ⟨-, e, rfl⟩
    · rw [hu.phase]
      cases i with
      | poll num_events events =>
        have hphase : t.phase = .polling := hstep.1.2.1
        rw [hphase] at hbefore
        show polled h ++ _ = dispatched h ++ _
        rw [hbefore]
        exact congrArg (· ++ events.take num_events.toNat) (List.append_nil _)
      | handleEvent e a =>
        obtain ⟨batch, hphase⟩ := hstep.1.2
        rw [hphase] at hbefore
        show polled h = dispatched h ++ [e] ++ t.phase.batch.tail
        rw [hphase, hbefore, List.append_assoc]
        rfl
      | doToDoList cs =>
        have hphase : t.phase = .handling [] := hstep.1.2
        rw [hphase] at hbefore
        exact hbefore
      | other cs => exact hbefore
      | destroy fd => exact hbefore
    · cases hended

/-- **Left for good**: nothing is polled or handled any more. -/
theorem stopped (hended : t.ended ≠ none) (hrun : dispatching.Run t h u) :
    u.ended ≠ none ∧ polled h = [] ∧ dispatched h = [] := by
  induction hrun with
  | nil => exact ⟨hended, rfl, rfl⟩
  | @step _ u' _ i _ hstep ih =>
    obtain ⟨hleft, hpolled, hdispatched⟩ := ih
    refine ⟨fun heq => hleft (ended_of_step hstep heq), ?_⟩
    cases i with
    | poll num_events events => exact absurd hstep.1.1 hleft
    | handleEvent e a => exact absurd hstep.1.1 hleft
    | doToDoList cs => exact ⟨hpolled, hdispatched⟩
    | other cs => exact ⟨hpolled, hdispatched⟩
    | destroy fd => exact ⟨hpolled, hdispatched⟩

/-! ## The rest of the batch -/

/-- The connections of the batch are there. -/
def Alive (d : Dispatcher) : Prop :=
  ∀ e ∈ d.phase.batch, ∀ fd, e.channel = .connection fd → (d.conns fd).isSome = true

theorem Alive.step (hd : d.Alive) (hstep : dispatching.step d i d') : d'.Alive := by
  obtain ⟨henabled, hout⟩ := hstep
  rcases outcome_cases hout with ⟨-, hd'⟩ | ⟨-, e, rfl⟩
  · intro e he fd hchannel
    rw [hd'.phase] at he
    cases i with
    | poll num_events events =>
      rw [hd'.frame fd List.not_mem_nil]
      exact henabled.2.2.2 e (List.mem_of_mem_take he) fd hchannel
    | handleEvent e' a =>
      exact hd'.kept fd (fun heq => by cases heq) (hd e (List.mem_of_mem_tail he) fd hchannel)
    | doToDoList cs => cases he
    | other cs => exact hd'.kept fd (fun heq => by cases heq) (hd e he fd hchannel)
    | destroy fd' =>
      have hphase : d.phase = .polling := henabled.1
      have he' : e ∈ d.phase.batch := he
      rw [hphase] at he'
      cases he'
  · exact hd

theorem alive (hd : dispatching.Reachable d) : d.Alive := by
  refine hd.invariant (I := Alive) ?_ fun hd hstep => hd.step hstep
  intro s hstart e he
  obtain ⟨hphase, -⟩ := hstart
  rw [hphase] at he
  cases he

/-- Nothing to read, and nothing that fails. -/
def quiet : Answers := ⟨8, 0, false, false, [.again], [], [], []⟩

theorem read_again (c : Connection) :
    ∃ c', c.exec (.read false false [.again]) = some c' ∧ c.queued c' = 0 := by
  by_cases hstate : c.state = .connected
  · refine ⟨{ c with readBuffer := [] }, ?_, ?_⟩
    · show c.read false false [.again] = _
      unfold Connection.read
      rw [if_neg (not_not_intro hstate)]
      rfl
    · simp only [Connection.queued, Nat.sub_self]
  · refine ⟨c, Connection.read_late hstate false false [.again], ?_⟩
    simp only [Connection.queued, Nat.sub_self]

theorem readCallback_quiet {channel : LoopChannel}
    (halive : ∀ fd, channel = .connection fd → (d.conns fd).isSome = true) :
    ∃ d', d.readCallback quiet channel = .ok d' := by
  cases channel with
  | wakeUp => exact ⟨d, rfl⟩
  | acceptor => exact ⟨_, rfl⟩
  | connection fd =>
    obtain ⟨c, hc⟩ := Option.isSome_iff_exists.mp (halive fd rfl)
    obtain ⟨c', hread, hqueued⟩ := read_again c
    refine ⟨{ d with conns := Function.update d.conns fd (some c') }, ?_⟩
    have hcall : d.call ⟨fd, .read false false [.again], []⟩ =
        .ok { d with conns := Function.update d.conns fd (some c') } := by
      unfold call
      simp only [hc, hread, hqueued, Escaping.ofOption, Escaping.ok_bind, List.length_nil, if_true]
      rfl
    show (d.call ⟨fd, .read false false [.again], []⟩ >>= fun d' => d'.calls []) = _
    rw [hcall]
    rfl

theorem handleEvent_quiet {e : ReadyChannel}
    (halive : ∀ fd, e.channel = .connection fd → (d.conns fd).isSome = true) :
    ∃ d', d.handleEvent e quiet = .ok d' := by
  have hread : ∃ d₁, (if e.readyEvents &&& (epollIn ||| epollPri ||| epollRdhup) ≠ 0 then
      d.readCallback quiet e.channel else pure d) = Escaping.ok d₁ := by
    split
    · exact readCallback_quiet halive
    · exact ⟨d, rfl⟩
  obtain ⟨d₁, hd₁⟩ := hread
  unfold handleEvent
  rw [hd₁, Escaping.ok_bind]
  split
  · cases e.channel with
    | wakeUp | acceptor => exact ⟨d₁, rfl⟩
    | connection fd => exact ⟨d₁, rfl⟩
  · exact ⟨d₁, rfl⟩

theorem succeeds_quiet (e : ReadyChannel) : (Step.handleEvent e quiet).Succeeds := by
  refine ⟨fun _ => ?_, fun _ => ?_⟩
  · cases e.channel with
    | wakeUp => exact rfl
    | acceptor => exact ⟨Int.le_refl 0, List.forall_mem_nil _⟩
    | connection fd => exact ⟨List.forall_mem_nil _, List.forall_mem_nil _⟩
  · cases e.channel with
    | wakeUp | acceptor => trivial
    | connection fd => exact List.forall_mem_nil _

/-- **The next event of the batch** can be handled, and the loop goes on. -/
theorem dispatches (hd : dispatching.Reachable d) (hended : d.ended = none) {e : ReadyChannel}
    {batch : List ReadyChannel} (hphase : d.phase = .handling (e :: batch)) :
    ∃ a d', dispatching.step d (.handleEvent e a) d' ∧ d'.ended = none := by
  have hmem : e ∈ d.phase.batch := by
    rw [hphase]
    exact List.mem_cons_self
  obtain ⟨d', hd'⟩ := handleEvent_quiet (alive hd e hmem)
  have hexec : d.exec (.handleEvent e quiet) = .ok { d' with phase := .handling d'.phase.batch.tail } := by
    show (d.handleEvent e quiet >>= fun d' => pure _) = _
    rw [hd']
    rfl
  have hstep : dispatching.step d (.handleEvent e quiet) { d' with phase := .handling d'.phase.batch.tail } := by
    refine ⟨⟨hended, batch, hphase⟩, ?_⟩
    unfold outcome
    rw [hexec]
    rfl
  exact ⟨quiet, _, hstep, (ended_step hended hstep).mpr (succeeds_quiet e)⟩

/-- **The loop goes on** in every state of a run, and handles all that it has polled, if and only if every step
    succeeds: every `epoll_wait` and every `accept`, and the reads and writes of the eventfd. What the reads and
    writes of a connection come to does not matter, and changes that connection alone; and while the loop goes
    on it comes to the next of its batch. -/
theorem goes_on_iff (hstart : dispatching.start s) (hrun : dispatching.Run s h t) :
    ((∀ i ∈ h, i.Succeeds) ↔ ∀ h' t', h' <:+ h → dispatching.Run s h' t' →
      t'.ended = none ∧ polled h' = dispatched h' ++ t'.phase.batch) ∧
    (∀ d i d', dispatching.step d i d' → ∀ fd, fd ∉ i.concerns → d'.conns fd = d.conns fd) ∧
    (t.ended = none → ∀ e batch, t.phase = .handling (e :: batch) →
      ∃ a u, dispatching.step t (.handleEvent e a) u ∧ u.ended = none) := by
  refine ⟨?_, fun d i d' hstep fd => step_frame hstep,
    fun hended e batch => dispatches ⟨s, h, hstart, hrun⟩ hended⟩
  have hiff := hrun.restrict_iff (P := fun _ i => i.Succeeds) (I := fun d => d.ended = none) deterministic
    (fun _ hended hstep => ended_step hended hstep) hstart hstart.2
  rw [← hrun.restrict_labels, hiff]
  constructor
  · intro hall h' t' hsuf hrun'
    exact ⟨hall h' t' hsuf hrun', polled_eq hstart hrun' (hall h' t' hsuf hrun')⟩
  · intro hall h' t' hsuf hrun'
    exact (hall h' t' hsuf hrun').1

/-- Two connections, and nothing polled yet. -/
def twoConnections : Dispatcher :=
  ⟨fun fd => if fd = 5 ∨ fd = 6 then some Connection.established else none, .polling, none⟩

theorem start_twoConnections : dispatching.start twoConnections := ⟨rfl, rfl⟩

theorem isSome_twoConnections {fd : Int} (hfd : fd = 5 ∨ fd = 6) : (twoConnections.conns fd).isSome = true := by
  show (if fd = 5 ∨ fd = 6 then some Connection.established else none).isSome = true
  rw [if_pos hfd]
  rfl

/-- The `read` of one of them fails, and the event of the other is next. -/
theorem goes_on_iff_error : ∃ t, dispatching.Run twoConnections
    [.handleEvent ⟨.connection 5, epollIn⟩ { quiet with reads := [.error], wakes := [8] },
      .poll 2 [⟨.connection 5, epollIn⟩, ⟨.connection 6, epollIn⟩]] t ∧
    t.ended = none ∧ t.phase.batch = [⟨.connection 6, epollIn⟩] := by
  let events : List ReadyChannel := [⟨.connection 5, epollIn⟩, ⟨.connection 6, epollIn⟩]
  let failing : Step := .handleEvent ⟨.connection 5, epollIn⟩ { quiet with reads := [.error], wakes := [8] }
  have hpolls : ∀ e ∈ events, ∀ fd, e.channel = .connection fd → (twoConnections.conns fd).isSome = true := by
    intro e he fd hchannel
    rcases List.mem_cons.mp he with rfl | he
    · cases hchannel
      exact isSome_twoConnections (.inl rfl)
    · obtain rfl := List.mem_singleton.mp he
      cases hchannel
      exact isSome_twoConnections (.inr rfl)
  obtain ⟨t, hrun, hbatch⟩ : ∃ t, dispatching.Run twoConnections [failing, .poll 2 events] t ∧
      t.phase.batch = [⟨.connection 6, epollIn⟩] := by
    refine ⟨_, .step (.step (.nil _) ⟨?_, rfl⟩) ⟨⟨rfl, _, rfl⟩, rfl⟩, rfl⟩
    exact ⟨rfl, rfl, .inr ⟨rfl, by decide⟩, hpolls⟩
  have hsucceeds : ∀ i ∈ [failing, .poll 2 events], i.Succeeds := by
    refine List.forall_mem_cons.mpr ⟨?_, List.forall_mem_singleton.mpr (show (2 : Int) ≠ -1 by decide)⟩
    refine ⟨fun _ => ⟨List.forall_mem_singleton.mpr rfl, ?_⟩, fun _ => ?_⟩
    · exact List.forall_mem_nil _
    · exact List.forall_mem_nil _
  obtain ⟨hgoes, -⟩ := goes_on_iff start_twoConnections hrun
  exact ⟨t, hrun, (hgoes.mp hsucceeds _ t (List.suffix_refl _) hrun).1, hbatch⟩

/-- **It does not** where `epoll_wait` is interrupted, or a client has gone before it was accepted; and then the
    event of the connection behind it is never handled. -/
theorem left_by_exception :
    (∃ t, dispatching.Run twoConnections [.poll (-1) []] t ∧ t.ended = some (.exception "Epoll wait failed")) ∧
    ∃ t, dispatching.Run twoConnections [.handleEvent ⟨.acceptor, epollIn⟩ { quiet with accept := -1 },
        .poll 2 [⟨.acceptor, epollIn⟩, ⟨.connection 5, epollIn⟩]] t ∧
      t.ended = some (.exception "Failed to accept connection") ∧
      t.phase.batch = [⟨.acceptor, epollIn⟩, ⟨.connection 5, epollIn⟩] ∧
      ∀ h u, dispatching.Run t h u → u.ended ≠ none ∧ dispatched h = [] := by
  let events : List ReadyChannel := [⟨.acceptor, epollIn⟩, ⟨.connection 5, epollIn⟩]
  have hpolls : ∀ e ∈ events, ∀ fd, e.channel = .connection fd → (twoConnections.conns fd).isSome = true := by
    intro e he fd hchannel
    rcases List.mem_cons.mp he with rfl | he
    · cases hchannel
    · obtain rfl := List.mem_singleton.mp he
      cases hchannel
      exact isSome_twoConnections (.inl rfl)
  refine ⟨⟨_, .step (.nil _) ⟨⟨rfl, rfl, .inl rfl, fun _ he => by cases he⟩, rfl⟩, rfl⟩, ?_⟩
  refine ⟨_, .step (.step (.nil _) ⟨⟨rfl, rfl, .inr ⟨rfl, by decide⟩, hpolls⟩, rfl⟩)
    ⟨⟨rfl, _, rfl⟩, rfl⟩, rfl, rfl, fun h u hrun => ?_⟩
  obtain ⟨hended, -, hdispatched⟩ := stopped (fun heq => by cases heq) hrun
  exact ⟨hended, hdispatched⟩

end

end Dispatcher

end LinuxServer
