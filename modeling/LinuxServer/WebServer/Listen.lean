import LinuxServer.Lib.System
import Mathlib.Data.Nat.Basic

/-!
# `WebServer/Listen.lean` — `m_listenfd`, and the connections that wait to be accepted

What `epoll_wait` reports of the listening descriptor depends on what it was registered with, and what
the main thread has to do about a report depends on that. Registered without `EPOLLET` it is reported for
as long as a connection waits, and one `accept` for each report will do; registered with it, a report
follows an arrival, and whoever does not accept all that wait has to wait for the next.

`Utils::addfd` registers with `EPOLLET` in either mode, where the `addfd` of `http_conn.cpp` does so in
the one only; and `dealclientdata` accepts one connection where `m_LISTENTrigmode` is 0. A second that
has come with the first is then left in the queue. `served_not_forgotten` is when none is.
-/

set_option autoImplicit false

namespace LinuxServer
namespace WebServer

/-- The flags of an `epoll_event` that are used. -/
structure EpollEvents where
  epollin : Bool
  epollet : Bool
  epollrdhup : Bool
  epolloneshot : Bool
  deriving DecidableEq, Repr

/-- `Utils::addfd(epollfd, fd, one_shot, TRIGMode)`: what it registers `fd` with. -/
def Utils.addfd (oneShot : Bool) (trigMode : Int) : EpollEvents :=
  if trigMode = 1 then ⟨true, true, true, oneShot⟩ else ⟨true, true, false, oneShot⟩

/-- Where the main thread is. -/
inductive MainThread
  /-- In `epoll_wait`. -/
  | blocked
  /-- Among the events it was given; that of `m_listenfd` is still to be dealt with. -/
  | handling (listenfd : Bool)
  deriving DecidableEq, Repr

structure Listener where
  /-- The connections that wait to be accepted. -/
  acceptQueue : Nat
  /-- Whether one has come since `m_listenfd` was last reported. -/
  arrived : Bool
  main : MainThread
  deriving DecidableEq, Repr

/-- How a turn of `dealclientdata` goes: `accept` fails; or `m_user_count` is `MAX_FD`, and
    `show_error` closes what it answered; or `timer` is called on it. -/
inductive Accept
  | failed
  | refused
  | taken
  deriving DecidableEq, Repr

namespace Listener

/-- What happens next: a client connects; `epoll_wait` returns, with an event of `m_listenfd` or not; a
    turn of `dealclientdata`; or the events are dealt with, and the loop goes round. -/
inductive Step
  | arrive
  | report (listenfd : Bool)
  | accept (answer : Accept)
  | wait
  deriving DecidableEq, Repr

/-- Whether an event of `m_listenfd` is pending. -/
def pending (events : EpollEvents) (s : Listener) : Bool :=
  if events.epollet then s.arrived else 0 < s.acceptQueue

/-- One turn of `dealclientdata()`. In listen mode 1 it is a loop, and goes on after a connection that
    was taken. -/
def dealclientdata (listenTrigmode : Int) (s : Listener) (answer : Accept) : Listener :=
  { s with
    acceptQueue := if answer = .failed then s.acceptQueue else s.acceptQueue - 1
    main := .handling (listenTrigmode ≠ 0 ∧ answer = .taken) }

def exec (listenTrigmode : Int) (s : Listener) : Step → Listener
  | .arrive => { s with acceptQueue := s.acceptQueue + 1, arrived := true }
  | .report true => { s with arrived := false, main := .handling true }
  | .report false => { s with main := .handling false }
  | .accept answer => s.dealclientdata listenTrigmode answer
  | .wait => { s with main := .blocked }

def Enabled (events : EpollEvents) (s : Listener) : Step → Prop
  | .arrive => True
  | .report listenfd => s.main = .blocked ∧ (listenfd = true → s.pending events = true)
  | .accept answer => s.main = .handling true ∧ (answer ≠ .failed → 0 < s.acceptQueue)
  | .wait => s.main = .handling false

instance (events : EpollEvents) (s : Listener) : (i : Step) → Decidable (s.Enabled events i)
  | .arrive => .isTrue trivial
  | .report _ | .accept _ => inferInstanceAs (Decidable (_ ∧ _))
  | .wait => inferInstanceAs (Decidable (_ = _))

/-- Connections wait, the main thread does too, and nothing will wake it for them. -/
def Forgotten (events : EpollEvents) (s : Listener) : Prop :=
  s.main = .blocked ∧ s.acceptQueue ≠ 0 ∧ s.pending events = false

instance (events : EpollEvents) (s : Listener) : Decidable (s.Forgotten events) :=
  inferInstanceAs (Decidable (_ ∧ _))

/-- The turn of `dealclientdata` empties the queue, or another connection has come since the report. -/
def Served (s : Listener) : Step → Prop
  | .accept answer => s.acceptQueue ≤ (if answer = .failed then 0 else 1) ∨ s.arrived = true
  | _ => True

end Listener

/-- `m_listenfd` registered by `eventListen` and served by `eventLoop`. It may have been connected to
    before it is registered. -/
def listener (events : EpollEvents) (listenTrigmode : Int) : System Listener Listener.Step where
  start s := s.main = .handling false ∧ (s.acceptQueue ≠ 0 → s.arrived = true)
  step s i s' := s.Enabled events i ∧ s' = s.exec listenTrigmode i

namespace Listener

section
variable {s s' : Listener} {events : EpollEvents}

/-- Only what is registered with `EPOLLET` can be forgotten. -/
theorem Forgotten.epollet (h : s.Forgotten events) : events.epollet = true := by
  obtain ⟨-, hqueue, hpending⟩ := h
  by_contra hlevel
  rw [pending, if_neg hlevel] at hpending
  exact hqueue (Nat.eq_zero_of_not_pos (of_decide_eq_false hpending))

theorem addfd_epollet (oneShot : Bool) (trigMode : Int) : (Utils.addfd oneShot trigMode).epollet = true := by
  unfold Utils.addfd
  split <;> rfl

/-- **The invariant.** A connection that waits has come since the last report, or that report is being
    dealt with. -/
def Noticed (s : Listener) : Prop := s.acceptQueue ≠ 0 → s.arrived = true ∨ s.main = .handling true

/-- A turn of `dealclientdata` in listen mode 0 is the last. -/
theorem accept_main (answer : Accept) : (s.exec 0 (.accept answer)).main = .handling false := by
  simp [Listener.exec, dealclientdata]

/-- What it leaves in the queue. -/
theorem accept_queue {answer : Accept} : (s.exec 0 (.accept answer)).acceptQueue ≠ 0 ↔
    ¬ s.acceptQueue ≤ (if answer = .failed then 0 else 1) := by
  simp only [Listener.exec, dealclientdata]
  split <;> omega

theorem Noticed.exec (h : s.Noticed) {i : Step} (he : s.Enabled events i) :
    (s.exec 0 i).Noticed ↔ s.Served i := by
  cases i with
  | arrive => exact iff_of_true (fun _ => Or.inl rfl) trivial
  | report listenfd =>
    refine iff_of_true (fun hqueue => ?_) trivial
    cases listenfd with
    | true => exact Or.inr rfl
    | false =>
      refine Or.inl ((h hqueue).resolve_right ?_)
      rw [he.1]
      nofun
  | accept answer =>
    unfold Noticed
    rw [accept_queue, accept_main, Served, or_iff_left (by nofun), ← or_iff_not_imp_left]
    rfl
  | wait =>
    refine iff_of_true (fun hqueue => Or.inl ((h hqueue).resolve_right ?_)) trivial
    rw [show s.main = .handling false from he]
    nofun

end

/-- **No connection is forgotten**, in listen mode 0, in every run in which each turn of
    `dealclientdata` finds one connection at most, or another has come since the report. -/
theorem served_not_forgotten {s : Listener}
    (h : ((listener (Utils.addfd false 0) 0).restrict Served).Reachable s) :
    ¬ s.Forgotten (Utils.addfd false 0) := by
  have hnoticed : s.Noticed := by
    refine h.invariant (I := Noticed) ?_ ?_
    · intro s hs hqueue
      exact Or.inl (hs.2 hqueue)
    · rintro t i u ht ⟨⟨he, rfl⟩, hserved⟩
      exact (ht.exec he).mpr hserved
  rintro ⟨hblocked, hqueue, hpending⟩
  rw [pending, if_pos (addfd_epollet false 0)] at hpending
  rcases hnoticed hqueue with harrived | hmain
  · rw [hpending] at harrived
    cases harrived
  · rw [hblocked] at hmain
    cases hmain

/-- The state after a history, of a server that no one has connected to. -/
def after : List Step → Listener
  | [] => ⟨0, false, .handling false⟩
  | i :: h => (after h).exec 0 i

/-- A second client that connects after the first has been reported, and before it has been accepted. -/
theorem served_not_forgotten_two :
    ¬ (after [.wait, .accept .taken, .arrive, .report true, .arrive, .wait]).Forgotten (Utils.addfd false 0) :=
  served_not_forgotten ⟨after [], [.wait, .accept .taken, .arrive, .report true, .arrive, .wait],
    ⟨rfl, by decide⟩,
    .step (.step (.step (.step (.step (.step (.nil _) ⟨⟨by decide, rfl⟩, trivial⟩) ⟨⟨by decide, rfl⟩, trivial⟩)
      ⟨⟨by decide, rfl⟩, trivial⟩) ⟨⟨by decide, rfl⟩, trivial⟩) ⟨⟨by decide, rfl⟩, Or.inr rfl⟩)
      ⟨⟨by decide, rfl⟩, trivial⟩⟩

/-- **And the condition is needed**: a turn that does not meet it leaves a connection that is forgotten
    as soon as the main thread waits. -/
theorem forgotten_of_not_served {s : Listener} {answer : Accept} (hno : ¬ s.Served (.accept answer)) :
    (s.exec 0 (.accept answer)).Enabled (Utils.addfd false 0) .wait ∧
      ((s.exec 0 (.accept answer)).exec 0 .wait).Forgotten (Utils.addfd false 0) := by
  rw [Served, not_or, Bool.not_eq_true] at hno
  refine ⟨accept_main answer, rfl, accept_queue.mpr hno.1, ?_⟩
  rw [pending, if_pos (addfd_epollet false 0)]
  exact hno.2

/-- Two clients that connect before the first is reported. -/
theorem burst_of_two : ∃ h : List Step, h = [.wait, .accept .taken, .report true, .arrive, .arrive, .wait] ∧
    (listener (Utils.addfd false 0) 0).Reachable (after h) ∧ (after h).Forgotten (Utils.addfd false 0) :=
  ⟨_, rfl, ⟨after [], _, ⟨rfl, by decide⟩,
    .step (.step (.step (.step (.step (.step (.nil _) ⟨by decide, rfl⟩) ⟨by decide, rfl⟩) ⟨by decide, rfl⟩)
      ⟨by decide, rfl⟩) ⟨by decide, rfl⟩) ⟨by decide, rfl⟩⟩, by decide⟩

end Listener

end WebServer
end LinuxServer
