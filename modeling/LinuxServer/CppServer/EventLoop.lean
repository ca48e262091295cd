import LinuxServer.Lib.System
import Mathlib.Logic.Function.Basic

/-!
# `CppServer/EventLoop.lean` — the functions queued on an `EventLoop`

`QueueOneFunc` appends to `toDoList` under the lock, and then, in a second step, writes to the eventfd if
it was not called by the loop's own thread, or was called by a function that the loop runs. `loop` waits in
`epoll_wait`, handles the events one after the other, takes the whole list in one swap, and runs what it
has taken. Handlers and functions may queue again, and so may any other thread at any time.

The runs start when `loop` has noted its thread in `_tid`, which no constructor sets. `epoll_wait` comes back
after 100 ms at the latest, with any channels, but with that of the eventfd only if its counter is
positive, and then once.

What `Sound` says of the eventfd is what rules a lost wake-up out, phase by phase of the loop; the rest is
one equation, between what has been queued and what has been taken and run.
-/

set_option autoImplicit false

namespace LinuxServer

/-- A channel that `epoll_wait` has found ready: that of the eventfd, or another. -/
inductive Ready
  | wake
  | other
  deriving DecidableEq, Repr

/-- Where `loop` is. -/
inductive LoopPhase (α : Type)
  | polling
  /-- Before the first of the channels that are left. -/
  | handling (batch : List Ready)
  /-- In a handler of a channel. -/
  | inHandler (batch : List Ready)
  /-- In `DoToDoList`, before the lock. -/
  | swapping
  /-- Before the first of the functions that are left. -/
  | running (tmp : List α)
  /-- In a function. -/
  | inFunc (tmp : List α)
  deriving DecidableEq, Repr

namespace LoopPhase

variable {α : Type}

/-- The functions that have been taken and not been run. -/
def taken : LoopPhase α → List α
  | .running tmp | .inFunc tmp => tmp
  | _ => []

/-- Whether the thread of the loop is in code that may call anything. -/
def isOut : LoopPhase α → Bool
  | .inHandler _ | .inFunc _ => true
  | _ => false

/-- The value of `calling_functors`. -/
def calls : LoopPhase α → Bool
  | .swapping | .running _ | .inFunc _ => true
  | _ => false

/-- Whether a function that is queued now, or has been, needs a wake-up: the next swap comes after the
    next `epoll_wait`. -/
def waits : LoopPhase α → Bool
  | .polling | .running _ | .inFunc _ => true
  | _ => false

/-- The channels that are left. -/
def batch : LoopPhase α → List Ready
  | .handling batch | .inHandler batch => batch
  | _ => []

end LoopPhase

/-- An `EventLoop`, whose functions are known by `α`, and the threads `T` that call it. -/
structure EventLoop (T α : Type) where
  toDoList : List α
  /-- The counter of the eventfd. -/
  wakeupFd : Nat
  callingFunctors : Bool
  phase : LoopPhase α
  /-- The threads that have appended a function and are to write to the eventfd. -/
  waking : T → Bool

namespace EventLoop

variable {T α : Type}

/-- What the threads do, and what the loop does. -/
inductive Step (T α : Type)
  | queueOneFunc (c : T) (func : α)
  | runOneFunc (c : T) (func : α)
  /-- The write to the eventfd. -/
  | write (c : T)
  | poll (batch : List Ready)
  | handleEvent
  | handlerEnd
  | doToDoList
  | swap (tmp : List α)
  | run (func : α)
  | funcEnd
  | roundEnd
  deriving DecidableEq, Repr

/-- The list as it is constructed, and `loop` before its first round. -/
def initial : EventLoop T α := ⟨[], 0, false, .polling, fun _ => false⟩

section
variable [DecidableEq T]

/-- `QueueOneFunc`, up to the write, in thread `c`; that of the loop is `tid`. -/
def queueOneFunc (tid : T) (e : EventLoop T α) (c : T) (func : α) : EventLoop T α :=
  { e with
    toDoList := e.toDoList ++ [func]
    waking := Function.update e.waking c (c ≠ tid ∨ e.callingFunctors) }

/-- `runOneFunc`, which runs the function itself in the thread of the loop. -/
def runOneFunc (tid : T) (e : EventLoop T α) (c : T) (func : α) : EventLoop T α :=
  if c = tid then e else e.queueOneFunc tid c func

/-- `handleRead`: the `read` has to give a value. -/
def handleRead (e : EventLoop T α) : Option (EventLoop T α) :=
  if e.wakeupFd = 0 then none else some { e with wakeupFd := 0 }

/-- Where an assertion fails there is no next state. -/
def exec (tid : T) (e : EventLoop T α) : Step T α → Option (EventLoop T α)
  | .queueOneFunc c func => some (e.queueOneFunc tid c func)
  | .runOneFunc c func => some (e.runOneFunc tid c func)
  | .write c => some { e with wakeupFd := e.wakeupFd + 1, waking := Function.update e.waking c false }
  | .poll batch => some { e with phase := .handling batch }
  | .handleEvent =>
    match e.phase.batch with
    | .wake :: batch => { e with phase := .handling batch }.handleRead
    | .other :: batch => some { e with phase := .inHandler batch }
    | [] => some e
  | .handlerEnd => some { e with phase := .handling e.phase.batch }
  | .doToDoList => some { e with phase := .swapping, callingFunctors := true }
  | .swap _ => some { e with phase := .running e.toDoList, toDoList := [] }
  | .run _ => some { e with phase := .inFunc e.phase.taken.tail }
  | .funcEnd => some { e with phase := .running e.phase.taken }
  | .roundEnd => some { e with phase := .polling, callingFunctors := false }

def Enabled (tid : T) (e : EventLoop T α) : Step T α → Prop
  | .queueOneFunc c _ | .runOneFunc c _ => e.waking c = false ∧ (c = tid → e.phase.isOut = true)
  | .write c => e.waking c = true
  | .poll batch => e.phase = .polling ∧ batch.count .wake ≤ 1 ∧ (.wake ∈ batch → 0 < e.wakeupFd)
  | .handleEvent => ∃ ready batch, e.phase = .handling (ready :: batch)
  | .handlerEnd => (∃ batch, e.phase = .inHandler batch) ∧ e.waking tid = false
  | .doToDoList => e.phase = .handling []
  | .swap tmp => e.phase = .swapping ∧ tmp = e.toDoList
  | .run func => ∃ tmp, e.phase = .running (func :: tmp)
  | .funcEnd => (∃ tmp, e.phase = .inFunc tmp) ∧ e.waking tid = false
  | .roundEnd => e.phase = .running []

/-- The functions that were queued, the first first. -/
def queued (tid : T) : List (Step T α) → List α
  | [] => []
  | .queueOneFunc _ func :: h => queued tid h ++ [func]
  | .runOneFunc c func :: h => if c = tid then queued tid h else queued tid h ++ [func]
  | _ :: h => queued tid h

end

/-- The functions that were run off the list. -/
def executed : List (Step T α) → List α
  | [] => []
  | .run func :: h => executed h ++ [func]
  | _ :: h => executed h

/-- What each swap has taken. -/
def swapped : List (Step T α) → List (List α)
  | [] => []
  | .swap tmp :: h => swapped h ++ [tmp]
  | _ :: h => swapped h

/-- The steps of the loop itself, in its thread `tid`. -/
def isLoop [DecidableEq T] (tid : T) : Step T α → Bool
  | .queueOneFunc _ _ | .runOneFunc _ _ => false
  | .write c => c = tid
  | _ => true

end EventLoop

/-- A loop in the thread `tid`, and any calls of any threads. -/
def eventLoopQueue (T α : Type) [DecidableEq T] (tid : T) : System (EventLoop T α) (EventLoop.Step T α) where
  start e := e = EventLoop.initial
  step e i e' := e.Enabled tid i ∧ e.exec tid i = some e'

namespace EventLoop

section
variable {T α : Type} [DecidableEq T] {tid : T} {e e' s t : EventLoop T α} {h : List (Step T α)}

/-! ## The wake-up -/

/-- **The invariant** of the eventfd. -/
structure Sound (tid : T) (e : EventLoop T α) : Prop where
  flag : e.callingFunctors = e.phase.calls
  /-- The loop goes on only when its own call is over. -/
  own : e.waking tid = true → e.phase.isOut = true
  woken : e.phase.waits = true → e.toDoList ≠ [] → 0 < e.wakeupFd ∨ ∃ c, e.waking c = true
  once : e.phase.batch.count .wake ≤ 1
  positive : .wake ∈ e.phase.batch → 0 < e.wakeupFd

omit [DecidableEq T] in
theorem sound_initial : Sound tid (initial : EventLoop T α) where
  flag := rfl
  own hwaking := by cases hwaking
  woken _ hne := absurd rfl hne
  once := Nat.zero_le 1
  positive hmem := by cases hmem

theorem Sound.queueOneFunc (he : Sound tid e) {c : T} (hc : c = tid → e.phase.isOut = true) (func : α) :
    Sound tid (e.queueOneFunc tid c func) := by
  refine ⟨he.flag, ?_, ?_, he.once, he.positive⟩
  · intro hwaking
    by_cases htid : c = tid
    · exact hc htid
    · have hne : tid ≠ c := fun heq => htid heq.symm
      have hbefore : e.waking tid = true := by
        rw [← hwaking]
        exact (Function.update_of_ne hne _ _).symm
      exact he.own hbefore
  · intro hwaits _
    -- the call writes, unless it is a handler's
    have hwrites : (c ≠ tid ∨ e.callingFunctors = true) := by
      by_cases htid : c = tid
      · right
        have hwaits' : e.phase.waits = true := hwaits
        have hout := hc htid
        rw [he.flag]
        cases hphase : e.phase with
        | inFunc tmp => rfl
        | inHandler batch =>
          rw [hphase] at hwaits'
          cases hwaits'
        | polling | handling | swapping | running =>
          rw [hphase] at hout
          cases hout
      · exact .inl htid
    refine .inr ⟨c, ?_⟩
    show Function.update e.waking c _ c = true
    rw [Function.update_self]
    exact decide_eq_true hwrites

theorem Sound.exec (he : Sound tid e) {i : Step T α} (henabled : e.Enabled tid i)
    (hexec : e.exec tid i = some e') : Sound tid e' := by
  cases i with
  | queueOneFunc c func =>
    cases hexec
    exact he.queueOneFunc henabled.2 func
  | runOneFunc c func =>
    cases hexec
    unfold runOneFunc
    split
    · exact he
    · exact he.queueOneFunc henabled.2 func
  | write c =>
    cases hexec
    refine ⟨he.flag, ?_, fun _ _ => .inl (Nat.succ_pos _), he.once, fun _ => Nat.succ_pos _⟩
    intro hwaking
    by_cases hc : tid = c
    · subst hc
      have hfalse : Function.update e.waking tid false tid = true := hwaking
      rw [Function.update_self] at hfalse
      cases hfalse
    · have hbefore : Function.update e.waking c false tid = true := hwaking
      rw [Function.update_of_ne hc] at hbefore
      exact he.own hbefore
  | poll batch =>
    cases hexec
    obtain ⟨hphase, honce, hpositive⟩ := henabled
    have hflag := he.flag
    have hown := he.own
    rw [hphase] at hflag hown
    exact ⟨hflag, hown, (fun hwaits => by cases hwaits), honce, hpositive⟩
  | handleEvent =>
    obtain ⟨ready, batch, hphase⟩ := henabled
    have hflag := he.flag
    have hown := he.own
    have honce := he.once
    have hpositive := he.positive
    rw [hphase] at hflag hown honce hpositive
    cases ready with
    | wake =>
      -- what is read is all there is, and the eventfd is not among the rest
      simp only [EventLoop.exec, hphase, LoopPhase.batch, handleRead] at hexec
      split at hexec
      · cases hexec
      · cases hexec
        have hrest : batch.count .wake = 0 := by
          have hcount : (Ready.wake :: batch).count .wake ≤ 1 := honce
          rw [List.count_cons_self] at hcount
          omega
        refine ⟨hflag, hown, (fun hwaits => by cases hwaits), ?_, ?_⟩
        · show batch.count .wake ≤ 1
          omega
        · intro hmem
          exact absurd hmem (List.count_eq_zero.mp hrest)
    | other =>
      simp only [EventLoop.exec, hphase, LoopPhase.batch] at hexec
      cases hexec
      refine ⟨hflag, fun _ => rfl, (fun hwaits => by cases hwaits), ?_, ?_⟩
      · have hcount : (Ready.other :: batch).count .wake ≤ 1 := honce
        rwa [List.count_cons_of_ne (by decide)] at hcount
      · intro hmem
        exact hpositive (List.mem_cons_of_mem _ hmem)
  | handlerEnd =>
    cases hexec
    obtain ⟨⟨batch, hphase⟩, htid⟩ := henabled
    have hflag := he.flag
    have honce := he.once
    have hpositive := he.positive
    rw [hphase] at hflag honce hpositive
    rw [hphase]
    refine ⟨hflag, ?_, (fun hwaits => by cases hwaits), honce, hpositive⟩
    intro hwaking
    rw [htid] at hwaking
    cases hwaking
  | doToDoList =>
    cases hexec
    have hown := he.own
    rw [show e.phase = .handling [] from henabled] at hown
    exact ⟨rfl, hown, (fun hwaits => by cases hwaits), Nat.zero_le 1, (fun hmem => by cases hmem)⟩
  | swap tmp =>
    cases hexec
    obtain ⟨hphase, -⟩ := henabled
    have hflag := he.flag
    have hown := he.own
    rw [hphase] at hflag hown
    exact ⟨hflag, hown, fun _ hne => absurd rfl hne, Nat.zero_le 1, (fun hmem => by cases hmem)⟩
  | run func =>
    cases hexec
    obtain ⟨tmp, hphase⟩ := henabled
    have hflag := he.flag
    have hwoken := he.woken
    rw [hphase] at hflag hwoken
    exact ⟨hflag, fun _ => rfl, hwoken, Nat.zero_le 1, (fun hmem => by cases hmem)⟩
  | funcEnd =>
    cases hexec
    obtain ⟨⟨tmp, hphase⟩, htid⟩ := henabled
    have hflag := he.flag
    have hwoken := he.woken
    rw [hphase] at hflag hwoken
    refine ⟨hflag, ?_, hwoken, Nat.zero_le 1, (fun hmem => by cases hmem)⟩
    intro hwaking
    rw [htid] at hwaking
    cases hwaking
  | roundEnd =>
    cases hexec
    have hown := he.own
    have hwoken := he.woken
    rw [show e.phase = .running [] from henabled] at hown hwoken
    exact ⟨rfl, hown, hwoken, Nat.zero_le 1, (fun hmem => by cases hmem)⟩

theorem sound (hrun : (eventLoopQueue T α tid).Run initial h t) : Sound tid t := by
  refine hrun.invariant (I := fun _ e => Sound tid e) ?_ sound_initial
  intro _ e i e' he hstep
  exact he.exec hstep.1 hstep.2

/-! ## What has been queued, taken and run -/

/-- **The equation**: what was queued has been run, has been taken, or is in the list; and each swap took
    the next of it. -/
structure Settled (tid : T) (h : List (Step T α)) (e : EventLoop T α) : Prop where
  run : queued tid h = executed h ++ e.phase.taken ++ e.toDoList
  swaps : queued tid h = (swapped h).flatten ++ e.toDoList

theorem Settled.queueOneFunc (he : Settled tid h e) (c : T) (func : α) :
    queued tid h ++ [func] = executed h ++ e.phase.taken ++ (e.queueOneFunc tid c func).toDoList ∧
      queued tid h ++ [func] = (swapped h).flatten ++ (e.queueOneFunc tid c func).toDoList := by
  show _ = executed h ++ e.phase.taken ++ (e.toDoList ++ [func]) ∧
    _ = (swapped h).flatten ++ (e.toDoList ++ [func])
  rw [← List.append_assoc, ← List.append_assoc, ← he.run, ← he.swaps]
  exact ⟨rfl, rfl⟩

theorem Settled.exec (he : Settled tid h e) {i : Step T α} (henabled : e.Enabled tid i)
    (hexec : e.exec tid i = some e') : Settled tid (i :: h) e' := by
  have hrun := he.run
  cases i with
  | queueOneFunc c func =>
    cases hexec
    exact ⟨(he.queueOneFunc c func).1, (he.queueOneFunc c func).2⟩
  | runOneFunc c func =>
    cases hexec
    unfold EventLoop.runOneFunc
    split
    · rename_i hc
      have hqueued : queued tid (.runOneFunc c func :: h) = queued tid h := if_pos hc
      exact ⟨hqueued.trans he.run, hqueued.trans he.swaps⟩
    · rename_i hc
      have hqueued : queued tid (.runOneFunc c func :: h) = queued tid h ++ [func] := if_neg hc
      obtain ⟨hexecuted, hswapped⟩ := he.queueOneFunc c func
      exact ⟨hqueued.trans hexecuted, hqueued.trans hswapped⟩
  | write c =>
    cases hexec
    exact ⟨he.run, he.swaps⟩
  | poll batch =>
    cases hexec
    rw [henabled.1] at hrun
    exact ⟨hrun, he.swaps⟩
  | handleEvent =>
    obtain ⟨ready, batch, hphase⟩ := henabled
    rw [hphase] at hrun
    cases ready with
    | wake =>
      simp only [EventLoop.exec, hphase, LoopPhase.batch, handleRead] at hexec
      split at hexec
      · cases hexec
      · cases hexec
        exact ⟨hrun, he.swaps⟩
    | other =>
      simp only [EventLoop.exec, hphase, LoopPhase.batch] at hexec
      cases hexec
      exact ⟨hrun, he.swaps⟩
  | handlerEnd =>
    cases hexec
    obtain ⟨⟨batch, hphase⟩, -⟩ := henabled
    rw [hphase] at hrun
    exact ⟨hrun, he.swaps⟩
  | doToDoList =>
    cases hexec
    rw [show e.phase = .handling [] from henabled] at hrun
    exact ⟨hrun, he.swaps⟩
  | swap tmp =>
    cases hexec
    obtain ⟨hphase, rfl⟩ := henabled
    rw [hphase] at hrun
    refine ⟨?_, ?_⟩
    · show queued tid h = executed h ++ e.toDoList ++ []
      rw [hrun, List.append_nil]
      exact congrArg (· ++ e.toDoList) (List.append_nil _)
    · show queued tid h = (swapped h ++ [e.toDoList]).flatten ++ []
      rw [List.flatten_append, List.flatten_singleton, List.append_nil]
      exact he.swaps
  | run func =>
    cases hexec
    obtain ⟨tmp, hphase⟩ := henabled
    rw [hphase] at hrun
    refine ⟨?_, he.swaps⟩
    rw [hphase]
    show queued tid h = executed h ++ [func] ++ tmp ++ e.toDoList
    rw [hrun, List.append_assoc (executed h) [func] tmp]
    rfl
  | funcEnd =>
    cases hexec
    obtain ⟨⟨tmp, hphase⟩, -⟩ := henabled
    rw [hphase] at hrun
    rw [hphase]
    exact ⟨hrun, he.swaps⟩
  | roundEnd =>
    cases hexec
    rw [show e.phase = .running [] from henabled] at hrun
    exact ⟨hrun, he.swaps⟩

theorem settled (hrun : (eventLoopQueue T α tid).Run initial h t) : Settled tid h t := by
  refine hrun.invariant (I := fun h e => Settled tid h e) ?_ ⟨rfl, rfl⟩
  intro _ e i e' he hstep
  exact he.exec hstep.1 hstep.2

/-- A step only takes functions from those that were taken to those that were run, or takes more. -/
theorem taken_step {i : Step T α} (henabled : e.Enabled tid i) (hexec : e.exec tid i = some e') :
    executed h ++ e.phase.taken <+: executed (i :: h) ++ e'.phase.taken := by
  cases i with
  | queueOneFunc c func =>
    cases hexec
    exact List.prefix_refl _
  | runOneFunc c func =>
    cases hexec
    unfold EventLoop.runOneFunc
    split <;> exact List.prefix_refl _
  | write c =>
    cases hexec
    exact List.prefix_refl _
  | poll batch =>
    cases hexec
    rw [henabled.1]
    exact List.prefix_refl _
  | handleEvent =>
    obtain ⟨ready, batch, hphase⟩ := henabled
    rw [hphase]
    show executed h ++ [] <+: _
    rw [List.append_nil]
    exact List.prefix_append _ _
  | handlerEnd =>
    obtain ⟨⟨batch, hphase⟩, -⟩ := henabled
    rw [hphase]
    show executed h ++ [] <+: _
    rw [List.append_nil]
    exact List.prefix_append _ _
  | doToDoList =>
    rw [show e.phase = .handling [] from henabled]
    show executed h ++ [] <+: _
    rw [List.append_nil]
    exact List.prefix_append _ _
  | swap tmp =>
    rw [henabled.1]
    show executed h ++ [] <+: _
    rw [List.append_nil]
    exact List.prefix_append _ _
  | run func =>
    cases hexec
    obtain ⟨tmp, hphase⟩ := henabled
    rw [hphase]
    show executed h ++ (func :: tmp) <+: executed h ++ [func] ++ tmp
    rw [List.append_assoc]
    exact List.prefix_refl _
  | funcEnd =>
    cases hexec
    obtain ⟨⟨tmp, hphase⟩, -⟩ := henabled
    rw [hphase]
    exact List.prefix_refl _
  | roundEnd =>
    cases hexec
    rw [show e.phase = .running [] from henabled]
    exact List.prefix_refl _

/-- What was queued before a swap has been run, or been taken, ever since. -/
theorem taken_since (hrun : (eventLoopQueue T α tid).Run initial h t) {h₁ h₂ : List (Step T α)} {tmp : List α}
    (hh : h = h₂ ++ .swap tmp :: h₁) : queued tid h₁ <+: executed h ++ t.phase.taken := by
  induction hrun generalizing h₂ with
  | nil => cases h₂ <;> cases hh
  | @step e e' h i hrun hstep ih =>
    cases h₂ with
    | nil =>
      -- the swap is the last step, and has taken the list
      cases hh
      have hswap := (settled (hrun.step hstep)).run
      obtain ⟨henabled, hexec⟩ := hstep
      cases hexec
      have hqueued : queued tid h₁ = executed h₁ ++ e.toDoList ++ [] := hswap
      rw [List.append_nil] at hqueued
      show queued tid h₁ <+: executed h₁ ++ e.toDoList
      exact hqueued ▸ List.prefix_refl _
    | cons j h₂ =>
      cases hh
      exact (ih rfl).trans (taken_step hstep.1 hstep.2)

/-! ## Every run -/

/-- The loop never comes to a stop, and no assertion fails. -/
theorem goes_on (he : Sound tid e) :
    ∃ i e', isLoop tid i = true ∧ (eventLoopQueue T α tid).step e i e' := by
  cases hphase : e.phase with
  | polling => exact ⟨.poll [], _, rfl, ⟨hphase, Nat.zero_le 1, fun hmem => by cases hmem⟩, rfl⟩
  | handling batch =>
    cases batch with
    | nil => exact ⟨.doToDoList, _, rfl, hphase, rfl⟩
    | cons ready batch =>
      cases ready with
      | wake =>
        have hpositive := he.positive
        rw [hphase] at hpositive
        have hne : e.wakeupFd ≠ 0 := Nat.pos_iff_ne_zero.mp (hpositive (List.mem_cons_self ..))
        refine ⟨.handleEvent, { e with phase := .handling batch, wakeupFd := 0 }, rfl,
          ⟨.wake, batch, hphase⟩, ?_⟩
        simp only [EventLoop.exec, hphase, LoopPhase.batch, handleRead, if_neg hne]
      | other =>
        refine ⟨.handleEvent, { e with phase := .inHandler batch }, rfl, ⟨.other, batch, hphase⟩, ?_⟩
        simp only [EventLoop.exec, hphase, LoopPhase.batch]
  | inHandler batch =>
    cases hwaking : e.waking tid with
    | true => exact ⟨.write tid, _, decide_eq_true rfl, hwaking, rfl⟩
    | false => exact ⟨.handlerEnd, _, rfl, ⟨⟨batch, hphase⟩, hwaking⟩, rfl⟩
  | swapping => exact ⟨.swap e.toDoList, _, rfl, ⟨hphase, rfl⟩, rfl⟩
  | running tmp =>
    cases tmp with
    | nil => exact ⟨.roundEnd, _, rfl, hphase, rfl⟩
    | cons func tmp => exact ⟨.run func, _, rfl, ⟨tmp, hphase⟩, rfl⟩
  | inFunc tmp =>
    cases hwaking : e.waking tid with
    | true => exact ⟨.write tid, _, decide_eq_true rfl, hwaking, rfl⟩
    | false => exact ⟨.funcEnd, _, rfl, ⟨⟨tmp, hphase⟩, hwaking⟩, rfl⟩

/-- **The queue of an event loop**: every function that is queued is taken by one swap and run in its turn,
    by the time the round of that swap is over; the loop never waits with a function in the list and no
    wake-up on the way; and what it reads off the eventfd is never zero. -/
theorem runs_in_order (hstart : (eventLoopQueue T α tid).start s)
    (hrun : (eventLoopQueue T α tid).Run s h t) :
    (queued tid h = executed h ++ t.phase.taken ++ t.toDoList ∧
      queued tid h = (swapped h).flatten ++ t.toDoList) ∧
    (t.phase.taken = [] → ∀ h₁ h₂ tmp, h = h₂ ++ .swap tmp :: h₁ → queued tid h₁ <+: executed h) ∧
    (t.phase = .polling → t.toDoList ≠ [] → 0 < t.wakeupFd ∨ ∃ c, t.waking c = true) ∧
    (∀ batch, t.phase = .handling (.wake :: batch) → 0 < t.wakeupFd) ∧
    ∃ i t', isLoop tid i = true ∧ (eventLoopQueue T α tid).step t i t' := by
  obtain rfl : s = initial := hstart
  have hsettled := settled hrun
  have hsound := sound hrun
  refine ⟨⟨hsettled.run, hsettled.swaps⟩, ?_, ?_, ?_, goes_on hsound⟩
  · intro htaken h₁ h₂ tmp hh
    have hprefix := taken_since hrun hh
    rwa [htaken, List.append_nil] at hprefix
  · intro hpolling
    have hwoken := hsound.woken
    rw [hpolling] at hwoken
    exact hwoken rfl
  · intro batch hphase
    have hpositive := hsound.positive
    rw [hphase] at hpositive
    exact hpositive (List.mem_cons_self ..)

/-- Another thread queues one function, and the loop wakes up for it. -/
theorem runs_in_order_one :
    ([7] : List Nat) <+: executed ([.roundEnd, .funcEnd, .run 7] ++
      .swap [7] :: [.doToDoList, .handleEvent, .poll [.wake], .write false, .queueOneFunc false 7] :
        List (Step Bool Nat)) := by
  have hwake : (eventLoopQueue Bool Nat true).Run initial
      [.handleEvent, .poll [.wake], .write false, .queueOneFunc false 7] _ :=
    .step (.step (.step (.step (.nil _) ⟨⟨rfl, fun hc => by cases hc⟩, rfl⟩) ⟨rfl, rfl⟩)
      ⟨⟨rfl, Nat.le_refl 1, fun _ => Nat.one_pos⟩, rfl⟩) ⟨⟨.wake, [], rfl⟩, rfl⟩
  have hrun : (eventLoopQueue Bool Nat true).Run initial
      ([.roundEnd, .funcEnd, .run 7] ++
        .swap [7] :: [.doToDoList, .handleEvent, .poll [.wake], .write false, .queueOneFunc false 7]) _ :=
    .step (.step (.step (.step (.step hwake ⟨rfl, rfl⟩) ⟨⟨rfl, rfl⟩, rfl⟩) ⟨⟨[], rfl⟩, rfl⟩)
      ⟨⟨⟨[], rfl⟩, rfl⟩, rfl⟩) ⟨rfl, rfl⟩
  exact (runs_in_order rfl hrun).2.1 rfl _ _ _ rfl

end

end EventLoop

end LinuxServer
