import LinuxServer.WebServer.Connections
import Mathlib.Data.List.Perm.Basic
import Mathlib.Data.List.TakeWhile

/-!
# `WebServer/Pool.lean` — the main thread, the work queue and the workers

The proactor: the main thread reads, puts `users + sockfd` on the queue of `threadpool`, and the
workers take these pointers off and run `process()` on the slot. A pointer says which slot, not
which connection, and slots are used again as soon as `accept` answers their descriptor; so what
ties a queued pointer to the connection that was read is only that nothing else may happen to that
connection meanwhile.

`EPOLLONESHOT` is what holds most things off: once an event of a descriptor has been reported, none
is until `modfd` arms it again, and that is the last thing `process()` does. The tick is not held
off by it. `dequeued_reused_slot` is a run in which a tick closes a connection whose task is still
queued and `accept` hands its slot to another client; `dequeue_finds_enqueuer` says that this is all
that can go wrong: as long as no tick reads a clock `3 * TIMESLOT` past the read of a task that is
still queued or being processed, every task finds the connection it was made for.

`process()` itself is two steps here, the dequeue and the `modfd`, and everything else it does stays
inside the slot. Its `close_conn()` is never reached: `process_write` fails only on a full write
buffer, and `process()` runs on an empty one.
-/

set_option autoImplicit false

namespace LinuxServer
namespace WebServer

open Timer

/-- A `T *` of `m_workqueue`, `users + sockfd`. The queue keeps the pointer only: which connection
    was read, and when, is for the statements. -/
structure Task where
  sockfd : Nat
  conn : Nat
  time : Int
  deriving DecidableEq, Repr

/-- The state the threads share. -/
structure Server where
  loop : State
  /-- `m_workqueue`, its front first. -/
  workqueue : List Task
  /-- What the workers have taken off and not finished with. -/
  running : List Task
  /-- Whether epoll reports events of a registered descriptor. -/
  armed : Nat → Bool
  /-- The connection `users[fd]` was last initialised for, connections being numbered as they are
      accepted. No function reads it, nor the next number. -/
  conn : Nat → Nat
  accepted : Nat

/-- One step of the main thread, or of a worker. -/
inductive Step
  | main (e : Event)
  | dequeue
  | finish (k : Nat)
  deriving DecidableEq, Repr

namespace Server

/-- The connection that occupies a slot, while its descriptor is open. -/
def occupant (v : Server) (fd : Nat) : Option Nat :=
  if fd ∈ v.loop.openFds then some (v.conn fd) else none

/-- The tasks that are queued or being processed. -/
def outstanding (v : Server) : List Task := v.workqueue ++ v.running

/-- `modfd(m_epollfd, fd, ev, m_TRIGMode)`; it does nothing to a descriptor that is closed. -/
def modfd (v : Server) (fd : Nat) : Server :=
  if fd ∈ v.loop.openFds then { v with armed := Function.update v.armed fd true } else v

/-- `append_p(users + sockfd)`: dropped when the queue is full. -/
def appendP (maxRequests : Nat) (v : Server) (sockfd : Nat) (cur : Int) : Server :=
  if v.workqueue.length ≥ maxRequests then v
  else { v with workqueue := v.workqueue ++ [⟨sockfd, v.conn sockfd, cur⟩] }

/-- What one event of the main thread does beside what it does to the connections. -/
def settle (maxRequests : Nat) (v : Server) : Event → Server
  | .connect connfd _ _ =>
    -- `init`, unless the connection was refused
    if connfd ∈ v.loop.openFds then
      { v with
        armed := Function.update v.armed connfd true
        conn := Function.update v.conn connfd v.accepted
        accepted := v.accepted + 1 }
    else v
  | .read sockfd readOnce cur =>
    let v := { v with armed := Function.update v.armed sockfd false }
    if readOnce then v.appendP maxRequests sockfd cur else v
  | .write sockfd write _ =>
    -- every way `write()` returns true has armed the descriptor again
    let v := { v with armed := Function.update v.armed sockfd false }
    if write then v.modfd sockfd else v
  | .hangup sockfd => { v with armed := Function.update v.armed sockfd false }
  | .alarm _ => v

def exec (maxRequests : Nat) (v : Server) : Step → Except Fault Server
  | .main e => do
    let loop ← v.loop.exec e
    return { v with loop := loop }.settle maxRequests e
  | .dequeue =>
    match v.workqueue with
    | [] => .ok v
    | task :: rest => .ok { v with workqueue := rest, running := task :: v.running }
  | .finish k =>
    match v.running[k]? with
    | none => .ok v
    | some task => .ok ({ v with running := v.running.eraseIdx k }.modfd task.sockfd)

/-- What the kernel promises about an event, `EPOLLONESHOT` included, and what the pool about a
    dequeue. -/
def Enabled (threadNumber : Nat) (v : Server) : Step → Prop
  | .main (.hangup sockfd) => v.loop.Enabled (.hangup sockfd) ∧ v.armed sockfd = true
  | .main (.read sockfd ok cur) => v.loop.Enabled (.read sockfd ok cur) ∧ v.armed sockfd = true
  | .main (.write sockfd ok cur) => v.loop.Enabled (.write sockfd ok cur) ∧ v.armed sockfd = true
  | .main e => v.loop.Enabled e
  | .dequeue => v.workqueue ≠ [] ∧ v.running.length < threadNumber
  | .finish k => k < v.running.length

instance (n : Nat) (v : Server) : (i : Step) → Decidable (v.Enabled n i)
  | .main (.hangup ..) | .main (.read ..) | .main (.write ..) => inferInstanceAs (Decidable (_ ∧ _))
  | .main (.connect fd p cur) => inferInstanceAs (Decidable (v.loop.Enabled (.connect fd p cur)))
  | .main (.alarm cur) => inferInstanceAs (Decidable (v.loop.Enabled (.alarm cur)))
  | .dequeue => inferInstanceAs (Decidable (_ ∧ _))
  | .finish .. => inferInstanceAs (Decidable (_ < _))

/-- No task that a tick at this clock could outrun is outstanding. -/
def Prompt (v : Server) : Step → Prop
  | .main (.alarm cur) => ∀ task ∈ v.outstanding, cur < task.time + 3 * timeslot
  | _ => True

instance (v : Server) : (i : Step) → Decidable (v.Prompt i)
  | .main (.alarm _) => inferInstanceAs (Decidable (∀ _ ∈ _, _))
  | .main (.connect ..) | .main (.hangup ..) | .main (.read ..) => .isTrue trivial
  | .main (.write ..) | .dequeue | .finish .. => .isTrue trivial

end Server

/-- The server: one main thread and `threadNumber` workers, in any interleaving. -/
def server (threadNumber maxRequests : Nat) : System Server Step where
  start v := eventLoop.start v.loop ∧ v.workqueue = [] ∧ v.running = []
  step v i v' := v.Enabled threadNumber i ∧ v.exec maxRequests i = .ok v'

/-! ## What a task is owed -/

/-- The slot of the task is its connection's, no event of it can be reported, and its timer runs
    out `3 * TIMESLOT` after the read. -/
structure Held (v : Server) (task : Task) : Prop where
  isOpen : task.sockfd ∈ v.loop.openFds
  disarmed : v.armed task.sockfd = false
  conn : v.conn task.sockfd = task.conn
  deadline : ∃ p, v.loop.timerLst.data p = some (task.time + 3 * timeslot, task.sockfd)

theorem Held.occupant {v : Server} {task : Task} (h : Held v task) :
    v.occupant task.sockfd = some task.conn := by
  rw [Server.occupant, if_pos h.isOpen, h.conn]

/-- A step that leaves a task's slot and its timer alone leaves it what it is owed. -/
theorem Held.frame {v v' : Server} {task : Task} (h : Held v task)
    (hopen : task.sockfd ∈ v'.loop.openFds) (harmed : v'.armed task.sockfd = v.armed task.sockfd)
    (hconn : v'.conn task.sockfd = v.conn task.sockfd)
    (hdata : ∀ p e, v.loop.timerLst.data p = some (e, task.sockfd) →
      v'.loop.timerLst.data p = some (e, task.sockfd)) : Held v' task :=
  let ⟨p, hp⟩ := h.deadline
  ⟨hopen, harmed.trans h.disarmed, hconn.trans h.conn, p, hdata p _ hp⟩

/-- **The invariant.** The books are kept, every outstanding task has what it is owed, and no slot
    has two of them. -/
structure Owned (v : Server) (l : List Ptr) : Prop extends Accounts v.loop l where
  held : ∀ task ∈ v.outstanding, Held v task
  once : (v.outstanding.map Task.sockfd).Nodup

section
variable {v v' : Server} {l : List Ptr} {fd n : Nat}

/-- An armed descriptor is no outstanding task's. -/
theorem Owned.ne_of_armed (h : Owned v l) (hfd : v.armed fd = true) {task : Task}
    (ht : task ∈ v.outstanding) : task.sockfd ≠ fd := by
  rintro rfl
  rw [(h.held task ht).disarmed] at hfd
  cases hfd

/-! ## The main thread -/

theorem Owned.connect (h : Owned v l) {p : Ptr} {cur : Int}
    (he : v.loop.Enabled (.connect fd p cur)) :
    ∃ v' l', v.exec n (.main (.connect fd p cur)) = .ok v' ∧ Owned v' l' := by
  obtain ⟨w', hw', hcase⟩ := h.toAccounts.connect he.1 he.2 cur
  have hexec : v.exec n (.main (.connect fd p cur)) =
      .ok ({ v with loop := w' }.settle n (.connect fd p cur)) := by
    simp only [Server.exec, State.exec, hw']; rfl
  rw [hexec]
  rcases hcase with ⟨-, l', hacc, hopen, hdata, -⟩ | ⟨-, hacc, hopen, hlst⟩
  · have hmem : fd ∈ w'.openFds := by rw [hopen]; exact List.mem_cons_self
    simp only [Server.settle, if_pos hmem]
    refine ⟨_, l', rfl, hacc, fun task ht => ?_, h.once⟩
    have hold := h.held task ht
    have hne : task.sockfd ≠ fd := fun e => he.1 (e ▸ hold.isOpen)
    refine hold.frame ?_ (Function.update_of_ne hne ..) (Function.update_of_ne hne ..) ?_
    · show task.sockfd ∈ w'.openFds
      rw [hopen]; exact List.mem_cons_of_mem _ hold.isOpen
    · intro q e hq
      have hqp : q ≠ p := by rintro rfl; rw [he.2] at hq; cases hq
      show w'.timerLst.data q = _
      rw [hdata, Function.update_of_ne hqp, hq]
  · have hmem : fd ∉ w'.openFds := by rw [hopen]; exact he.1
    simp only [Server.settle, if_neg hmem]
    refine ⟨_, l, rfl, hacc, fun task ht => (h.held task ht).frame ?_ rfl rfl ?_, h.once⟩
    · show task.sockfd ∈ w'.openFds
      rw [hopen]; exact (h.held task ht).isOpen
    · intro q e hq
      show w'.timerLst.data q = _
      rw [hlst, hq]

/-- What becomes of one slot's timer is nothing to another's. -/
theorem timer_of_other {data data' : Ptr → Option (Int × Nat)} {p q : Ptr} {e e' : Int} {u : Nat}
    {d : Option (Int × Nat)} (hp : data p = some (e, fd)) (hdata : data' = Function.update data p d)
    (hne : u ≠ fd) (hq : data q = some (e', u)) : data' q = some (e', u) := by
  have hqp : q ≠ p := by
    rintro rfl
    rw [hp] at hq
    cases hq
    exact hne rfl
  rw [hdata, Function.update_of_ne hqp, hq]

/-- A connection that is closed on an event of its own has no task outstanding. -/
theorem Owned.dealTimer (h : Owned v l) (hfd : fd ∈ v.loop.openFds) (harmed : v.armed fd = true) :
    ∃ w' l', v.loop.dealTimer (v.loop.usersTimer fd).timer fd = .ok w' ∧
      Owned { v with loop := w', armed := Function.update v.armed fd false } l' := by
  obtain ⟨p, e, hp, -⟩ := h.timer_of_open hfd
  obtain ⟨w', hw', hacc, hopen, hdata, -⟩ := h.toAccounts.dealTimer hfd hp
  refine ⟨w', _, hw', hacc, fun task ht => ?_, h.once⟩
  have hne := h.ne_of_armed harmed ht
  refine (h.held task ht).frame ?_ (Function.update_of_ne hne ..) rfl ?_
  · show task.sockfd ∈ w'.openFds
    rw [hopen]; exact (List.mem_erase_of_ne hne).mpr (h.held task ht).isOpen
  · exact fun _ _ hq => timer_of_other hp hdata hne hq

/-- A transfer disarms its descriptor and sets its timer; the tasks are on other slots. -/
theorem Owned.transfer (h : Owned v l) (hfd : fd ∈ v.loop.openFds) (harmed : v.armed fd = true)
    (cur : Int) :
    ∃ w' l', v.loop.dealwith fd true cur = .ok w' ∧
      Owned { v with loop := w', armed := Function.update v.armed fd false } l' ∧
      w'.openFds = v.loop.openFds ∧ ∃ p, w'.timerLst.data p = some (cur + 3 * timeslot, fd) := by
  obtain ⟨p, e, hp, htab⟩ := h.timer_of_open hfd
  obtain ⟨w', hw', l', hacc, hopen, hdata, -⟩ := h.toAccounts.adjust hp cur
  refine ⟨w', l', ?_, ⟨hacc, fun task ht => ?_, h.once⟩, hopen, p, ?_⟩
  · simp only [State.dealwith, htab, if_true, Option.isSome_some]; exact hw'
  · have hne := h.ne_of_armed harmed ht
    refine (h.held task ht).frame ?_ (Function.update_of_ne hne ..) rfl ?_
    · show task.sockfd ∈ w'.openFds
      rw [hopen]; exact (h.held task ht).isOpen
    · exact fun _ _ hq => timer_of_other hp hdata hne hq
  · rw [hdata, Function.update_self]

/-- `append_p` on a slot that was just disarmed. -/
theorem Owned.appendP (h : Owned v l) {cur : Int} (hfd : fd ∈ v.loop.openFds)
    (hfree : ∀ task ∈ v.outstanding, task.sockfd ≠ fd) (hdis : v.armed fd = false)
    (hdeadline : ∃ p, v.loop.timerLst.data p = some (cur + 3 * timeslot, fd)) :
    Owned (v.appendP n fd cur) l := by
  unfold Server.appendP
  split
  · exact h
  · let new : Task := ⟨fd, v.conn fd, cur⟩
    have hperm : ((v.workqueue ++ [new]) ++ v.running).Perm (new :: v.outstanding) := by
      rw [List.append_assoc]; exact List.perm_middle
    refine ⟨h.toAccounts, fun task ht => ?_, ?_⟩
    · rcases List.mem_cons.mp (hperm.mem_iff.mp ht) with rfl | ht
      · exact ⟨hfd, hdis, rfl, hdeadline⟩
      · exact (h.held task ht).frame (h.held task ht).isOpen rfl rfl fun _ _ hq => hq
    · have hnew : fd ∉ v.outstanding.map Task.sockfd := by
        intro hmem
        obtain ⟨task, ht, he⟩ := List.mem_map.mp hmem
        exact hfree task ht he
      exact ((hperm.map Task.sockfd).nodup_iff).mpr (List.nodup_cons.mpr ⟨hnew, h.once⟩)

/-- Arming a descriptor that has no task outstanding. -/
theorem Owned.modfd (h : Owned v l) (hfree : ∀ task ∈ v.outstanding, task.sockfd ≠ fd) :
    Owned (v.modfd fd) l := by
  unfold Server.modfd
  split
  · refine ⟨h.toAccounts, fun task ht => ?_, h.once⟩
    exact (h.held task ht).frame (h.held task ht).isOpen
      (Function.update_of_ne (hfree task ht) ..) rfl fun _ _ hq => hq
  · exact h

theorem Owned.read (h : Owned v l) {ok : Bool} {cur : Int}
    (he : v.Enabled n (.main (.read fd ok cur))) (m : Nat) :
    ∃ v' l', v.exec m (.main (.read fd ok cur)) = .ok v' ∧ Owned v' l' := by
  obtain ⟨hfd, harmed⟩ := he
  cases ok with
  | false =>
    obtain ⟨w', l', hw', howned⟩ := h.dealTimer hfd harmed
    refine ⟨_, l', ?_, howned⟩
    simp only [Server.exec, State.exec, State.dealwithread, State.dealwith, Bool.false_eq_true,
      if_false, hw']
    rfl
  | true =>
    obtain ⟨w', l', hw', howned, hopen, hdeadline⟩ := h.transfer hfd harmed cur
    have happend := howned.appendP (n := m) (by rw [hopen]; exact hfd)
      (fun task ht => h.ne_of_armed harmed ht) (Function.update_self ..) hdeadline
    refine ⟨_, l', ?_, happend⟩
    simp only [Server.exec, State.exec, State.dealwithread, hw']
    rfl

theorem Owned.write (h : Owned v l) {ok : Bool} {cur : Int}
    (he : v.Enabled n (.main (.write fd ok cur))) (m : Nat) :
    ∃ v' l', v.exec m (.main (.write fd ok cur)) = .ok v' ∧ Owned v' l' := by
  obtain ⟨hfd, harmed⟩ := he
  cases ok with
  | false =>
    obtain ⟨w', l', hw', howned⟩ := h.dealTimer hfd harmed
    refine ⟨_, l', ?_, howned⟩
    simp only [Server.exec, State.exec, State.dealwithwrite, State.dealwith, Bool.false_eq_true,
      if_false, hw']
    rfl
  | true =>
    obtain ⟨w', l', hw', howned, -, -⟩ := h.transfer hfd harmed cur
    have hmod := howned.modfd fun task ht => h.ne_of_armed harmed ht
    refine ⟨_, l', ?_, hmod⟩
    simp only [Server.exec, State.exec, State.dealwithwrite, hw']
    rfl

/-- A prompt tick evicts no connection that has a task outstanding: the task's timer is not due. -/
theorem Owned.alarm (h : Owned v l) {cur : Int} (hprompt : v.Prompt (.main (.alarm cur))) (m : Nat) :
    ∃ v' l', v.exec m (.main (.alarm cur)) = .ok v' ∧ Owned v' l' := by
  obtain ⟨w', hw', hacc, hopen, hdata, -⟩ := h.toAccounts.alarm cur
  refine ⟨{ v with loop := w' }, _, ?_, hacc, fun task ht => ?_, h.once⟩
  · simp only [Server.exec, State.exec, hw']; rfl
  · have hold := h.held task ht
    obtain ⟨p, hp⟩ := hold.deadline
    have hkept : p ∉ v.loop.evicted l cur := by
      intro hev
      have hdue := List.mem_takeWhile_imp hev
      have hpl : p ∈ l := (h.listed.mem p).mpr ⟨_, hp⟩
      rw [h.listed.due_iff hpl] at hdue
      have hexp : v.loop.timerLst.expireOf p = task.time + 3 * timeslot := by
        simp [SortTimerLst.expireOf, hp]
      have := hprompt task ht
      omega
    have hsame : ∀ q e, v.loop.timerLst.data q = some (e, task.sockfd) → q = p :=
      fun q e hq => h.slot_injective hq hp rfl
    refine hold.frame ?_ rfl rfl fun q e hq => ?_
    · show task.sockfd ∈ w'.openFds
      rw [hopen, h.nodup.mem_sdiff_iff]
      refine ⟨hold.isOpen, fun hmem => ?_⟩
      obtain ⟨q, hqev, e, hq⟩ := ((h.evicted_slots cur).2 task.sockfd).mp hmem
      exact hkept (hsame q e hq ▸ hqev)
    · show w'.timerLst.data q = _
      rw [hdata q, if_neg (hsame q e hq ▸ hkept), hq]

/-! ## The workers -/

theorem Owned.dequeue (h : Owned v l) (m : Nat) :
    ∃ v' l', v.exec m .dequeue = .ok v' ∧ Owned v' l' := by
  cases hq : v.workqueue with
  | nil => exact ⟨v, l, by simp only [Server.exec, hq], h⟩
  | cons task rest =>
    have hperm : (rest ++ task :: v.running).Perm v.outstanding := by
      rw [Server.outstanding, hq]; exact List.perm_middle
    refine ⟨{ v with workqueue := rest, running := task :: v.running }, l,
      by simp only [Server.exec, hq], h.toAccounts, fun t ht => ?_,
      ((hperm.map Task.sockfd).nodup_iff).mpr h.once⟩
    have hold := h.held t (hperm.mem_iff.mp ht)
    exact hold.frame hold.isOpen rfl rfl fun _ _ hp => hp

/-- The last thing `process()` does is to arm the descriptor, and by then the task is over. -/
theorem Owned.finish (h : Owned v l) (k m : Nat) :
    ∃ v' l', v.exec m (.finish k) = .ok v' ∧ Owned v' l' := by
  cases hk : v.running[k]? with
  | none => exact ⟨v, l, by simp only [Server.exec, hk], h⟩
  | some task =>
    obtain ⟨hlt, htask⟩ := List.getElem?_eq_some_iff.mp hk
    have hperm : (task :: (v.workqueue ++ v.running.eraseIdx k)).Perm v.outstanding := by
      rw [Server.outstanding, ← htask]
      exact List.perm_middle.symm.trans
        ((List.getElem_cons_eraseIdx_perm hlt).append_left v.workqueue)
    obtain ⟨hnew, hnd⟩ := List.nodup_cons.mp (((hperm.map Task.sockfd).nodup_iff).mpr h.once)
    have hrest : Owned { v with running := v.running.eraseIdx k } l := by
      refine ⟨h.toAccounts, fun t ht => ?_, hnd⟩
      have hold := h.held t (hperm.mem_iff.mp (List.mem_cons_of_mem _ ht))
      exact hold.frame hold.isOpen rfl rfl fun _ _ hp => hp
    have hfree : ∀ t ∈ v.workqueue ++ v.running.eraseIdx k, t.sockfd ≠ task.sockfd :=
      fun t ht he => hnew (he ▸ List.mem_map_of_mem ht)
    exact ⟨_, l, by simp only [Server.exec, hk], hrest.modfd hfree⟩

/-! ## Every run -/

/-- **One step**, of any thread. -/
theorem Owned.exec (h : Owned v l) {i : Step} (he : v.Enabled n i) (hprompt : v.Prompt i) (m : Nat) :
    ∃ v' l', v.exec m i = .ok v' ∧ Owned v' l' := by
  cases i with
  | main e =>
    cases e with
    | connect fd p cur => exact h.connect he
    | hangup fd =>
      obtain ⟨w', l', hw', howned⟩ := h.dealTimer he.1 he.2
      exact ⟨_, l', by simp only [Server.exec, State.exec, hw']; rfl, howned⟩
    | read fd ok cur => exact h.read he m
    | write fd ok cur => exact h.write he m
    | alarm cur => exact h.alarm hprompt m
  | dequeue => exact h.dequeue m
  | finish k => exact h.finish k m

end

/-- **A queued task belongs to the connection that enqueued it**, in every run whose ticks are all
    prompt: whatever is queued or being processed, the connection in its slot is the one that was
    read, and so it is when a worker takes the task off. -/
theorem dequeue_finds_enqueuer {threadNumber maxRequests : Nat} {v : Server}
    (h : ((server threadNumber maxRequests).restrict Server.Prompt).Reachable v) :
    ∀ task ∈ v.outstanding, v.occupant task.sockfd = some task.conn := by
  have hinv : ∃ l, Owned v l := by
    refine System.Reachable.invariant (I := fun v => ∃ l, Owned v l) ?_ ?_ h
    · rintro v ⟨hloop, hqueue, hrunning⟩
      have hnone : v.outstanding = [] := by simp [Server.outstanding, hqueue, hrunning]
      exact ⟨[], Accounts.start hloop, by simp [hnone], by simp [hnone]⟩
    · rintro t i u ⟨l, howned⟩ ⟨⟨henabled, hexec⟩, hprompt⟩
      obtain ⟨v', l', hv', howned'⟩ := howned.exec henabled hprompt maxRequests
      rw [hexec] at hv'
      cases hv'
      exact ⟨l', howned'⟩
  obtain ⟨l, howned⟩ := hinv
  exact fun task ht => (howned.held task ht).occupant

/-- The server as it starts, and its state after a history, `quiet` in the place of a fault. -/
def quiet : Server := ⟨idle, [], [], fun _ => false, fun _ => 0, 0⟩

def Server.after : List Step → Server
  | [] => quiet
  | i :: h => ((Server.after h).exec 10000 i).toOption.getD quiet

/-- A tick at 14, with the task of a read at 0 still queued. -/
theorem dequeue_finds_enqueuer_queued :
    (⟨5, 0, 0⟩ : Task) ∈
        (Server.after [.main (.alarm 14), .main (.read 5 true 0), .main (.connect 5 1 0)]).outstanding ∧
      (Server.after [.main (.alarm 14), .main (.read 5 true 0), .main (.connect 5 1 0)]).occupant 5 = some 0 := by
  have hqueued : (⟨5, 0, 0⟩ : Task) ∈
      (Server.after [.main (.alarm 14), .main (.read 5 true 0), .main (.connect 5 1 0)]).outstanding :=
    List.mem_singleton.mpr rfl
  have hreach : ((server 8 10000).restrict Server.Prompt).Reachable
      (Server.after [.main (.alarm 14), .main (.read 5 true 0), .main (.connect 5 1 0)]) :=
    ⟨quiet, [.main (.alarm 14), .main (.read 5 true 0), .main (.connect 5 1 0)],
      ⟨⟨rfl, rfl, rfl, rfl⟩, rfl, rfl⟩,
      .step (.step (.step (.nil quiet) ⟨⟨by decide, rfl⟩, by decide⟩) ⟨⟨by decide, rfl⟩, by decide⟩)
        ⟨⟨by decide, rfl⟩, by decide⟩⟩
  exact ⟨hqueued, dequeue_finds_enqueuer hreach ⟨5, 0, 0⟩ hqueued⟩

/-- Not so in every run. A connection is read from at 0; the tick at 15 closes it, its task still
    queued; `accept` answers the same descriptor; and the worker that comes next runs `process()` for
    the first connection on the slot of the second. -/
theorem dequeued_reused_slot : ∃ v task, (server 8 10000).Reachable v ∧ v.Enabled 8 .dequeue ∧
    v.workqueue = [task] ∧ task.conn = 0 ∧ v.occupant task.sockfd = some 1 :=
  ⟨Server.after [.main (.connect 5 1 15), .main (.alarm 15), .main (.read 5 true 0),
      .main (.connect 5 1 0)], ⟨5, 0, 0⟩,
    ⟨quiet, [.main (.connect 5 1 15), .main (.alarm 15), .main (.read 5 true 0),
        .main (.connect 5 1 0)], ⟨⟨rfl, rfl, rfl, rfl⟩, rfl, rfl⟩,
      .step (.step (.step (.step (.nil quiet) ⟨by decide, rfl⟩) ⟨by decide, rfl⟩) ⟨by decide, rfl⟩)
        ⟨by decide, rfl⟩⟩,
    by decide, rfl, rfl, rfl⟩

end WebServer
end LinuxServer
