import LinuxServer.Lib.Semaphore
import Mathlib.Data.Nat.Basic

/-!
# `CppServer/ThreadPool.lean` — the pool of `ThreadPool.cpp`

A worker takes the lock, waits on `cv` for as long as the pool is not stopped and the queue empty, and then
takes the front task, or returns if there is none. `add` pushes under the lock and calls `notify_one` when
it has given the lock back; the destructor sets `stop` under the lock, calls `notify_all`, and joins every
worker.

A thread that is notified, as one that comes to the lock for the first time, is `ready`: what it does next
is to look. So no wake-up is lost as long as behind every task there is somebody who will look, or somebody
who will notify (`Watched`); and this is an invariant, since a worker blocks only after it has found the
queue empty. A wait may also end by itself.
-/

set_option autoImplicit false

namespace LinuxServer

/-- A thread in `ThreadPool::add`: in no call, or between the lock and `notify_one`. -/
inductive Adder
  | out
  | notifying
  deriving DecidableEq, Repr

/-- A thread of the pool. -/
inductive PoolWorker (ρ : Type)
  /-- Before the lock, and then the test. -/
  | ready
  /-- Blocked in `cv.wait`. -/
  | blocked
  | running (task : ρ)
  | exited
  deriving DecidableEq, Repr

namespace PoolWorker

variable {ρ : Type}

def isLive : PoolWorker ρ → Bool
  | .exited => false
  | _ => true

def isRunning : PoolWorker ρ → Bool
  | .running _ => true
  | _ => false

/-- Will look at the queue before it blocks. -/
def isAwake : PoolWorker ρ → Bool
  | .ready | .running _ => true
  | _ => false

end PoolWorker

/-- `~ThreadPool`. -/
inductive Destructor
  | notCalled
  /-- `stop` is set. -/
  | notifying
  | joining
  | returned
  deriving DecidableEq, Repr

/-- How many of its steps are left. -/
def Destructor.cost : Destructor → Nat
  | .notifying => 2
  | .joining => 1
  | .notCalled | .returned => 0

/-- `ThreadPool`, with the threads that add tasks `ρ` to it. -/
structure TaskPool (ρ : Type) where
  taskQueue : List ρ
  stop : Bool
  adders : List Adder
  workers : List (PoolWorker ρ)
  destructor : Destructor
  deriving DecidableEq, Repr

namespace TaskPool

variable {ρ : Type}

/-- What a worker that has looked does. -/
inductive Look (ρ : Type)
  | exits
  | blocks
  | takes (task : ρ)
  deriving DecidableEq, Repr

inductive Step (ρ : Type)
  | add (a : Nat) (task : ρ) (threw : Bool)
  /-- `notify_one`, and the worker that it wakes, if any is blocked. -/
  | notifyOne (a : Nat) (woken : Option Nat)
  | setStop
  | notifyAll
  | join
  | wake (w : Nat)
  | look (w : Nat) (result : Look ρ)
  | finish (w : Nat) (task : ρ)
  deriving DecidableEq, Repr

/-- The pool as it is constructed. -/
def initial (adders numThreads : Nat) : TaskPool ρ :=
  ⟨[], false, List.replicate adders .out, List.replicate numThreads .ready, .notCalled⟩

/-- `add` under the lock, and whether it throws. -/
def add (t : TaskPool ρ) (a : Nat) (task : ρ) : Bool × TaskPool ρ :=
  if t.stop then (true, t)
  else (false, { t with taskQueue := t.taskQueue ++ [task], adders := t.adders.set a .notifying })

def notifyOne (t : TaskPool ρ) (a : Nat) : Option Nat → TaskPool ρ
  | none => { t with adders := t.adders.set a .out }
  | some w => { t with adders := t.adders.set a .out, workers := t.workers.set w .ready }

/-- What `notify_all` makes of a worker. -/
def woken : PoolWorker ρ → PoolWorker ρ
  | .blocked => .ready
  | worker => worker

/-- The worker loop from the test of `cv.wait` on, under the lock. -/
def look (t : TaskPool ρ) (w : Nat) : Look ρ × TaskPool ρ :=
  if t.stop = false ∧ t.taskQueue = [] then (.blocks, { t with workers := t.workers.set w .blocked })
  else match t.taskQueue with
    | [] => (.exits, { t with workers := t.workers.set w .exited })
    | task :: rest =>
      (.takes task, { t with taskQueue := rest, workers := t.workers.set w (.running task) })

def exec (t : TaskPool ρ) : Step ρ → TaskPool ρ
  | .add a task _ => (t.add a task).2
  | .notifyOne a woken => t.notifyOne a woken
  | .setStop => { t with stop := true, destructor := .notifying }
  | .notifyAll => { t with workers := t.workers.map woken, destructor := .joining }
  | .join => { t with destructor := .returned }
  | .wake w => { t with workers := t.workers.set w .ready }
  | .look w _ => (t.look w).2
  | .finish w _ => { t with workers := t.workers.set w .ready }

def Enabled (t : TaskPool ρ) : Step ρ → Prop
  | .add a task threw => t.adders[a]? = some .out ∧ threw = (t.add a task).1
  | .notifyOne a none => t.adders[a]? = some .notifying ∧ .blocked ∉ t.workers
  | .notifyOne a (some w) => t.adders[a]? = some .notifying ∧ t.workers[w]? = some .blocked
  | .setStop => t.destructor = .notCalled
  | .notifyAll => t.destructor = .notifying
  | .join => t.destructor = .joining ∧ ∀ worker ∈ t.workers, worker = .exited
  | .wake w => t.workers[w]? = some .blocked
  | .look w result => t.workers[w]? = some .ready ∧ result = (t.look w).1
  | .finish w task => t.workers[w]? = some (.running task)

/-- The tasks of the calls that did not throw, the first first. -/
def accepted : List (Step ρ) → List ρ
  | [] => []
  | .add _ task false :: h => accepted h ++ [task]
  | _ :: h => accepted h

/-- The tasks that workers have taken. -/
def dequeued : List (Step ρ) → List ρ
  | [] => []
  | .look _ (.takes task) :: h => dequeued h ++ [task]
  | _ :: h => dequeued h

/-- The tasks that have been executed. -/
def finished : List (Step ρ) → List ρ
  | [] => []
  | .finish _ task :: h => finished h ++ [task]
  | _ :: h => finished h

/-- Every live worker is blocked. -/
def AllBlocked (t : TaskPool ρ) : Prop :=
  ∀ worker ∈ t.workers, worker.isLive = true → worker = .blocked

/-- No call is between its locked update and its notification. -/
def NoneNotifying (t : TaskPool ρ) : Prop :=
  .notifying ∉ t.adders ∧ t.destructor ≠ .notifying

end TaskPool

/-- A pool of `numThreads` workers, and any number of threads that call `add`. -/
def taskPool (ρ : Type) (adders numThreads : Nat) : System (TaskPool ρ) (TaskPool.Step ρ) where
  start t := t = TaskPool.initial adders numThreads
  step t i t' := t.Enabled i ∧ t' = t.exec i

namespace TaskPool

section
variable {ρ : Type} {t t' s : TaskPool ρ} {adders numThreads : Nat} {h : List (Step ρ)}

/-- **What a look can come to.** -/
theorem look_cases (t : TaskPool ρ) (w : Nat) :
    (t.stop = false ∧ t.taskQueue = [] ∧
      t.look w = (.blocks, { t with workers := t.workers.set w .blocked })) ∨
    (t.stop = true ∧ t.taskQueue = [] ∧
      t.look w = (.exits, { t with workers := t.workers.set w .exited })) ∨
    ∃ task rest, t.taskQueue = task :: rest ∧
      t.look w = (.takes task, { t with taskQueue := rest, workers := t.workers.set w (.running task) }) := by
  unfold look
  cases hqueue : t.taskQueue with
  | cons task rest =>
    refine .inr (.inr ⟨task, rest, rfl, ?_⟩)
    rw [if_neg (fun hnothing => List.cons_ne_nil _ _ hnothing.2)]
  | nil =>
    cases hstop : t.stop with
    | false => exact .inl ⟨rfl, rfl, if_pos ⟨rfl, rfl⟩⟩
    | true => exact .inr (.inl ⟨rfl, rfl, if_neg (fun hnothing => Bool.noConfusion hnothing.1)⟩)

/-! ## Somebody watches the queue -/

/-- **The invariant** of the waits: behind a task there is a worker that will look, or a call that will
    notify; no worker leaves a task behind, or waits for a notification that has been. -/
structure Watched (t : TaskPool ρ) : Prop where
  workers : t.workers ≠ []
  gone : .exited ∈ t.workers → t.stop = true ∧ t.taskQueue = []
  watched : t.taskQueue ≠ [] → (∃ worker ∈ t.workers, worker.isAwake = true) ∨
    .notifying ∈ t.adders ∨ t.destructor = .notifying
  stopped : t.stop = false ↔ t.destructor = .notCalled
  told : t.destructor = .joining ∨ t.destructor = .returned → .blocked ∉ t.workers
  joined : t.destructor = .returned → ∀ worker ∈ t.workers, worker = .exited

theorem mem_set {T : Type} {threads : List T} {i : Nat} {u : T} (hi : threads[i]? = some u) (v : T) :
    v ∈ threads.set i v := by
  obtain ⟨hlt, -⟩ := List.getElem?_eq_some_iff.mp hi
  exact List.mem_set hlt v

/-- A worker that is not the one that has moved. -/
theorem mem_of_mem_set {T : Type} {threads : List T} {i : Nat} {u v : T} (hu : u ∈ threads.set i v)
    (hne : u ≠ v) : u ∈ threads :=
  (List.mem_or_eq_of_mem_set hu).resolve_right hne

/-- Where no worker is blocked, somebody looks. -/
theorem Watched.awake (ht : t.Watched) (hqueue : t.taskQueue ≠ []) (hblocked : .blocked ∉ t.workers) :
    ∃ worker ∈ t.workers, worker.isAwake = true := by
  obtain ⟨worker, hworker⟩ := List.exists_mem_of_ne_nil _ ht.workers
  refine ⟨worker, hworker, ?_⟩
  cases worker with
  | ready | running => rfl
  | blocked => exact absurd hworker hblocked
  | exited => exact absurd (ht.gone hworker).2 hqueue

theorem watched_initial (hpos : 1 ≤ numThreads) : (initial adders numThreads : TaskPool ρ).Watched := by
  have hready : ∀ worker ∈ (initial adders numThreads : TaskPool ρ).workers, worker = .ready :=
    fun worker hworker => List.eq_of_mem_replicate hworker
  refine ⟨?_, ?_, fun hqueue => absurd rfl hqueue, iff_of_true rfl rfl, ?_, fun hreturned => by cases hreturned⟩
  · intro hnil
    have hlength := List.length_replicate (n := numThreads) (a := (PoolWorker.ready : PoolWorker ρ))
    rw [show List.replicate numThreads PoolWorker.ready = [] from hnil, List.length_nil] at hlength
    omega
  · intro hexited
    cases hready _ hexited
  · intro hdestructor
    cases hdestructor with
    | inl hjoining => cases hjoining
    | inr hreturned => cases hreturned

/-- A worker that moves, and neither blocks nor exits, nor takes a task. -/
theorem Watched.move (ht : t.Watched) {w : Nat} {worker : PoolWorker ρ} (hw : t.workers[w]? = some worker)
    (hlive : worker ≠ .exited) : Watched { t with workers := t.workers.set w .ready } := by
  have hmem := List.mem_of_getElem? hw
  refine ⟨?_, ?_, fun _ => .inl ⟨.ready, mem_set hw .ready, rfl⟩, ht.stopped, ?_, ?_⟩
  · exact List.ne_nil_of_mem (mem_set hw .ready)
  · intro hexited
    exact ht.gone (mem_of_mem_set hexited (fun heq => by cases heq))
  · intro hdestructor hblocked
    exact ht.told hdestructor (mem_of_mem_set hblocked (fun heq => by cases heq))
  · intro hreturned
    exact absurd (ht.joined hreturned worker hmem) hlive

theorem Watched.notifyOne_none (ht : t.Watched) {a : Nat} (hblocked : .blocked ∉ t.workers) :
    Watched { t with adders := t.adders.set a .out } :=
  ⟨ht.workers, ht.gone, fun hqueue => .inl (ht.awake hqueue hblocked), ht.stopped, ht.told, ht.joined⟩

theorem Watched.notifyAll (ht : t.Watched) (hdestructor : t.destructor = .notifying) :
    Watched { t with workers := t.workers.map woken, destructor := .joining } := by
  have hblocked : .blocked ∉ t.workers.map woken := by
    intro hmem
    obtain ⟨worker, -, hworker⟩ := List.mem_map.mp hmem
    cases worker <;> cases hworker
  have hexited : .exited ∈ t.workers.map woken → .exited ∈ t.workers := by
    intro hmem
    obtain ⟨worker, hworker, heq⟩ := List.mem_map.mp hmem
    cases worker with
    | exited => exact hworker
    | ready | blocked | running => cases heq
  have hne : t.workers.map woken ≠ [] := fun hnil => ht.workers (List.map_eq_nil_iff.mp hnil)
  have hstop : t.stop ≠ false := by
    intro hfalse
    have hnot := ht.stopped.mp hfalse
    rw [hdestructor] at hnot
    cases hnot
  refine ⟨hne, fun hmem => ht.gone (hexited hmem), ?_, ?_, fun _ => hblocked,
    fun hreturned => by cases hreturned⟩
  · intro hqueue
    -- nobody is blocked any more, and nobody has left
    obtain ⟨worker, hworker⟩ := List.exists_mem_of_ne_nil _ hne
    refine .inl ⟨worker, hworker, ?_⟩
    cases worker with
    | ready | running => rfl
    | blocked => exact absurd hworker hblocked
    | exited => exact absurd (ht.gone (hexited hworker)).2 hqueue
  · exact iff_of_false hstop (fun heq => by cases heq)

/-- **A worker that looks**: it blocks if there is nothing, and leaves if there will be nothing. -/
theorem Watched.look (ht : t.Watched) {w : Nat} (hw : t.workers[w]? = some .ready) :
    (t.look w).2.Watched := by
  have hmem := List.mem_of_getElem? hw
  have hreturned : t.destructor ≠ .returned := by
    intro hreturned
    cases ht.joined hreturned _ hmem
  rcases look_cases t w with ⟨hstop, hqueue, heq⟩ | ⟨hstop, hqueue, heq⟩ | ⟨task, rest, hqueue, heq⟩
  · have hnot := ht.stopped.mp hstop
    rw [heq]
    refine ⟨List.ne_nil_of_mem (mem_set hw _), ?_, fun hne => absurd hqueue hne, ht.stopped, ?_,
      fun heq => absurd heq hreturned⟩
    · intro hexited
      exact ht.gone (mem_of_mem_set hexited (fun heq => by cases heq))
    · intro hdestructor
      rw [show t.destructor = .notCalled from hnot] at hdestructor
      cases hdestructor with
      | inl hjoining => cases hjoining
      | inr heq => cases heq
  · rw [heq]
    refine ⟨List.ne_nil_of_mem (mem_set hw _), fun _ => ⟨hstop, hqueue⟩, fun hne => absurd hqueue hne,
      ht.stopped, ?_, fun heq => absurd heq hreturned⟩
    intro hdestructor hblocked
    exact ht.told hdestructor (mem_of_mem_set hblocked (fun heq => by cases heq))
  · rw [heq]
    refine ⟨List.ne_nil_of_mem (mem_set hw _), ?_, fun _ => .inl ⟨.running task, mem_set hw _, rfl⟩,
      ht.stopped, ?_, fun heq => absurd heq hreturned⟩
    · intro hexited
      have hnil := (ht.gone (mem_of_mem_set hexited (fun heq => by cases heq))).2
      rw [hqueue] at hnil
      cases hnil
    · intro hdestructor hblocked
      exact ht.told hdestructor (mem_of_mem_set hblocked (fun heq => by cases heq))

theorem Watched.exec (ht : t.Watched) {i : Step ρ} (henabled : t.Enabled i) : (t.exec i).Watched := by
  cases i with
  | add a task threw =>
    obtain ⟨ha, -⟩ := henabled
    show (t.add a task).2.Watched
    unfold TaskPool.add
    split
    · exact ht
    · rename_i hstop
      refine ⟨ht.workers, ?_, fun _ => .inr (.inl (mem_set ha .notifying)), ht.stopped, ht.told, ht.joined⟩
      intro hexited
      exact absurd (ht.gone hexited).1 hstop
  | notifyOne a woken =>
    cases woken with
    | none => exact ht.notifyOne_none henabled.2
    | some w =>
      have hmoved := ht.move henabled.2 (fun heq => by cases heq)
      exact ⟨hmoved.workers, hmoved.gone, fun _ => .inl ⟨.ready, mem_set henabled.2 .ready, rfl⟩,
        hmoved.stopped, hmoved.told, hmoved.joined⟩
  | setStop =>
    refine ⟨ht.workers, fun hexited => ⟨rfl, (ht.gone hexited).2⟩, fun _ => .inr (.inr rfl), ?_, ?_,
      fun heq => by cases heq⟩
    · exact iff_of_false (fun heq => by cases heq) (fun heq => by cases heq)
    · intro hdestructor
      cases hdestructor with
      | inl hjoining => cases hjoining
      | inr hreturned => cases hreturned
  | notifyAll => exact ht.notifyAll henabled
  | join =>
    obtain ⟨hjoining, hexited⟩ := henabled
    have hstopped := ht.stopped
    rw [hjoining] at hstopped
    refine ⟨ht.workers, ht.gone, ?_, ?_, fun _ => ht.told (.inl hjoining), fun _ => hexited⟩
    · intro hqueue
      obtain ⟨worker, hworker⟩ := List.exists_mem_of_ne_nil _ ht.workers
      have hgone := ht.gone (hexited worker hworker ▸ hworker)
      exact absurd hgone.2 hqueue
    · exact iff_of_false (fun hstop => by cases hstopped.mp hstop) (fun heq => by cases heq)
  | wake w => exact ht.move henabled (fun heq => by cases heq)
  | look w result => exact ht.look henabled.1
  | finish w task => exact ht.move henabled (fun heq => by cases heq)

theorem watched (hpos : 1 ≤ numThreads)
    (hrun : (taskPool ρ adders numThreads).Run (initial adders numThreads) h t) :
    t.Watched := by
  refine hrun.invariant (I := fun _ t => t.Watched) ?_ (watched_initial hpos)
  intro _ t i t' ht hstep
  obtain ⟨henabled, rfl⟩ := hstep
  exact ht.exec henabled

/-- **No wake-up is lost.** -/
theorem Watched.not_lost (ht : t.Watched) (hblocked : t.AllBlocked) (hnone : t.NoneNotifying) :
    t.taskQueue = [] ∧ (t.stop = true → ∀ worker ∈ t.workers, worker.isLive = false) := by
  have hqueue : t.taskQueue = [] := by
    by_contra hne
    rcases ht.watched hne with ⟨worker, hworker, hawake⟩ | hadder | hdestructor
    · cases worker with
      | ready => cases hblocked _ hworker rfl
      | running => cases hblocked _ hworker rfl
      | blocked | exited => cases hawake
    · exact hnone.1 hadder
    · exact hnone.2 hdestructor
  refine ⟨hqueue, fun hstop worker hworker => ?_⟩
  have htold : .blocked ∉ t.workers := by
    cases hd : t.destructor with
    | notCalled =>
      have hnot := ht.stopped.mpr hd
      rw [hstop] at hnot
      cases hnot
    | notifying => exact absurd hd hnone.2
    | joining => exact ht.told (.inl hd)
    | returned => exact ht.told (.inr hd)
  cases hlive : worker.isLive with
  | false => rfl
  | true => exact absurd (hblocked worker hworker hlive ▸ hworker) htold

/-! ## What is added, taken and executed -/

/-- A task that was accepted is taken in its turn, or is still in the queue. -/
theorem fifo (hrun : (taskPool ρ adders numThreads).Run (initial adders numThreads) h t) :
    accepted h = dequeued h ++ t.taskQueue := by
  refine hrun.invariant (I := fun h t => accepted h = dequeued h ++ t.taskQueue) ?_ rfl
  intro h t i t' ht hstep
  obtain ⟨henabled, rfl⟩ := hstep
  cases i with
  | add a task threw =>
    obtain ⟨-, rfl⟩ := henabled
    simp only [exec, add]
    split
    · exact ht
    · show accepted h ++ [task] = dequeued h ++ (t.taskQueue ++ [task])
      rw [ht, List.append_assoc]
  | notifyOne a woken => cases woken <;> exact ht
  | setStop | notifyAll | join | wake | finish => exact ht
  | look w result =>
    obtain ⟨-, rfl⟩ := henabled
    simp only [exec]
    rcases look_cases t w with ⟨-, hqueue, heq⟩ | ⟨-, hqueue, heq⟩ | ⟨task, rest, hqueue, heq⟩
    · rw [heq]
      exact ht
    · rw [heq]
      exact ht
    · rw [heq]
      show accepted h = dequeued h ++ [task] ++ rest
      rw [ht, hqueue, List.append_assoc]
      rfl

/-- A task that was taken has been executed, or is being. -/
theorem executed [DecidableEq ρ] (hrun : (taskPool ρ adders numThreads).Run (initial adders numThreads) h t)
    (x : ρ) : (dequeued h).count x = (finished h).count x + t.workers.countP (· = .running x) := by
  refine hrun.invariant (I := fun h t =>
    (dequeued h).count x = (finished h).count x + t.workers.countP (· = .running x)) ?_ ?_
  · intro h t i t' ht hstep
    obtain ⟨henabled, rfl⟩ := hstep
    cases i with
    | add a task threw =>
      obtain ⟨-, rfl⟩ := henabled
      simp only [exec, add]
      split <;> exact ht
    | notifyOne a woken =>
      cases woken with
      | none => exact ht
      | some w =>
        have hpass := countP_pass (p := (· = PoolWorker.running x)) (v := .ready) henabled.2 rfl
        exact ht.trans (congrArg _ hpass.symm)
    | setStop | join => exact ht
    | notifyAll =>
      have hmap : (t.workers.map woken).countP (· = .running x) = t.workers.countP (· = .running x) := by
        rw [List.countP_map]
        apply List.countP_congr
        intro worker _
        cases worker <;> exact Iff.rfl
      exact ht.trans (congrArg _ hmap.symm)
    | wake w =>
      have hpass := countP_pass (p := (· = PoolWorker.running x)) (v := .ready) henabled rfl
      exact ht.trans (congrArg _ hpass.symm)
    | finish w task =>
      show (dequeued h).count x = (finished h ++ [task]).count x +
        (t.workers.set w .ready).countP (· = .running x)
      rw [List.count_append]
      by_cases hx : task = x
      · subst hx
        obtain ⟨hpos, hleave⟩ := countP_leave (p := (· = PoolWorker.running task)) (v := .ready) henabled
          (decide_eq_true rfl) rfl
        rw [hleave, List.count_singleton_self]
        omega
      · have hpass := countP_pass (p := (· = PoolWorker.running x)) (v := .ready) henabled
          (decide_eq_false fun heq => hx (PoolWorker.running.inj heq))
        rw [hpass, List.count_singleton, if_neg (by simpa using hx)]
        exact ht
    | look w result =>
      obtain ⟨hw, rfl⟩ := henabled
      simp only [exec]
      rcases look_cases t w with ⟨-, -, heq⟩ | ⟨-, -, heq⟩ | ⟨task, rest, -, heq⟩
      · rw [heq]
        have hpass := countP_pass (p := (· = PoolWorker.running x)) (v := .blocked) hw rfl
        exact ht.trans (congrArg _ hpass.symm)
      · rw [heq]
        have hpass := countP_pass (p := (· = PoolWorker.running x)) (v := .exited) hw rfl
        exact ht.trans (congrArg _ hpass.symm)
      · rw [heq]
        show (dequeued h ++ [task]).count x = (finished h).count x +
          (t.workers.set w (.running task)).countP (· = .running x)
        rw [List.count_append]
        by_cases hx : task = x
        · subst hx
          have henter := countP_enter (p := (· = PoolWorker.running task)) (v := .running task) hw rfl
            (decide_eq_true rfl)
          rw [henter, List.count_singleton_self]
          omega
        · have hpass := countP_pass (p := (· = PoolWorker.running x)) (v := .running task) hw
            (decide_eq_false fun heq => hx (PoolWorker.running.inj heq)).symm
          rw [hpass, List.count_singleton, if_neg (by simpa using hx)]
          exact ht
  · have hzero : (initial adders numThreads : TaskPool ρ).workers.countP (· = .running x) = 0 := by
      rw [List.countP_eq_zero]
      intro worker hworker
      rw [List.eq_of_mem_replicate hworker]
      exact Bool.false_ne_true
    rw [hzero]
    rfl

/-! ## The pool drains -/

/-- A step of a worker, or of a call that is under way. -/
def goesOn : Step ρ → Bool
  | .add .. | .setStop => false
  | _ => true

/-- How many steps are left of the tasks, of the calls, and of the workers. -/
def cost (t : TaskPool ρ) : Nat :=
  2 * t.taskQueue.length + t.workers.countP PoolWorker.isRunning + t.adders.countP (· = .notifying) +
    t.destructor.cost + t.workers.countP PoolWorker.isLive

/-- Nothing is left to do: no task, and no worker of a pool that has been stopped. -/
structure Drained (t : TaskPool ρ) : Prop where
  queue : t.taskQueue = []
  running : ∀ task, .running task ∉ t.workers
  returned : t.stop = true → t.destructor = .returned

theorem cost_finish {w : Nat} {task : ρ} (hw : t.workers[w]? = some (.running task)) :
    (t.exec (.finish w task)).cost < t.cost := by
  obtain ⟨hpos, hleave⟩ := countP_leave (p := PoolWorker.isRunning) (v := .ready) hw rfl rfl
  simp only [exec, cost, hleave, countP_pass (p := PoolWorker.isLive) (v := .ready) hw rfl]
  omega

theorem cost_notifyOne {a : Nat} (ha : t.adders[a]? = some .notifying) {woken : Option Nat}
    (hwoken : ∀ w, woken = some w → t.workers[w]? = some .blocked) :
    (t.exec (.notifyOne a woken)).cost < t.cost := by
  obtain ⟨hpos, hleave⟩ := countP_leave (p := (· = Adder.notifying)) (v := .out) ha rfl rfl
  cases woken with
  | none =>
    simp only [exec, notifyOne, cost, hleave]
    omega
  | some w =>
    have hw := hwoken w rfl
    simp only [exec, notifyOne, cost, hleave, countP_pass (p := PoolWorker.isRunning) (v := .ready) hw rfl,
      countP_pass (p := PoolWorker.isLive) (v := .ready) hw rfl]
    omega

theorem cost_notifyAll (hdestructor : t.destructor = .notifying) : (t.exec .notifyAll).cost < t.cost := by
  have hsame : ∀ {p : PoolWorker ρ → Bool}, p .blocked = p .ready →
      (t.workers.map woken).countP p = t.workers.countP p := by
    intro p hp
    rw [List.countP_map]
    apply List.countP_congr
    intro worker _
    cases worker with
    | blocked => rw [hp]; rfl
    | ready | running | exited => exact Iff.rfl
  simp only [exec, cost, hdestructor, Destructor.cost, hsame (p := PoolWorker.isRunning) rfl,
    hsame (p := PoolWorker.isLive) rfl]
  omega

theorem cost_join (hjoining : t.destructor = .joining) : (t.exec .join).cost < t.cost := by
  show ({ t with destructor := .returned } : TaskPool ρ).cost < t.cost
  simp only [cost, hjoining, Destructor.cost]
  omega

theorem cost_look {w : Nat} (hw : t.workers[w]? = some .ready)
    (hsomething : t.taskQueue ≠ [] ∨ t.stop = true) : (t.look w).2.cost < t.cost := by
  rcases look_cases t w with ⟨hstop, hqueue, -⟩ | ⟨-, -, heq⟩ | ⟨task, rest, hqueue, heq⟩
  · cases hsomething with
    | inl hne => exact absurd hqueue hne
    | inr htrue =>
      rw [hstop] at htrue
      cases htrue
  · obtain ⟨hpos, hleave⟩ := countP_leave (p := PoolWorker.isLive) (v := .exited) hw rfl rfl
    rw [heq]
    simp only [cost, hleave, countP_pass (p := PoolWorker.isRunning) (v := .exited) hw rfl]
    omega
  · rw [heq]
    simp only [cost, hqueue, List.length_cons,
      countP_enter (p := PoolWorker.isRunning) (v := .running task) hw rfl rfl,
      countP_pass (p := PoolWorker.isLive) (v := .running task) hw rfl]
    omega

/-- **Something goes on** until the pool is drained. -/
theorem Watched.goes_on (ht : t.Watched) (hdrained : ¬ t.Drained) :
    ∃ i, goesOn i = true ∧ t.Enabled i ∧ (t.exec i).cost < t.cost := by
  by_cases hrunning : ∃ task, .running task ∈ t.workers
  · obtain ⟨task, hmem⟩ := hrunning
    obtain ⟨w, hw⟩ := List.getElem?_of_mem hmem
    exact ⟨.finish w task, rfl, hw, cost_finish hw⟩
  · by_cases hadder : .notifying ∈ t.adders
    · obtain ⟨a, ha⟩ := List.getElem?_of_mem hadder
      by_cases hblocked : .blocked ∈ t.workers
      · obtain ⟨w, hw⟩ := List.getElem?_of_mem hblocked
        refine ⟨.notifyOne a (some w), rfl, ⟨ha, hw⟩, cost_notifyOne ha ?_⟩
        intro w' hw'
        cases hw'
        exact hw
      · exact ⟨.notifyOne a none, rfl, ⟨ha, hblocked⟩, cost_notifyOne ha (fun _ hw => by cases hw)⟩
    · by_cases hdestructor : t.destructor = .notifying
      · exact ⟨.notifyAll, rfl, hdestructor, cost_notifyAll hdestructor⟩
      · -- a worker that is ready finds a task, or that there will be none
        have hlook : .ready ∈ t.workers → t.taskQueue ≠ [] ∨ t.stop = true →
            ∃ i, goesOn i = true ∧ t.Enabled i ∧ (t.exec i).cost < t.cost := by
          intro hready hsomething
          obtain ⟨w, hw⟩ := List.getElem?_of_mem hready
          exact ⟨.look w (t.look w).1, rfl, ⟨hw, rfl⟩, cost_look hw hsomething⟩
        by_cases hqueue : t.taskQueue = []
        · have hstop : t.stop = true ∧ t.destructor ≠ .returned := by
            refine ⟨?_, fun hreturned => ?_⟩
            · by_contra hstop
              exact hdrained ⟨hqueue, fun task hmem => hrunning ⟨task, hmem⟩, fun heq => absurd heq hstop⟩
            · exact hdrained ⟨hqueue, fun task hmem => hrunning ⟨task, hmem⟩, fun _ => hreturned⟩
          have hjoining : t.destructor = .joining := by
            cases hd : t.destructor with
            | joining => rfl
            | notifying => exact absurd hd hdestructor
            | returned => exact absurd hd hstop.2
            | notCalled =>
              have hnot := ht.stopped.mpr hd
              rw [hstop.1] at hnot
              cases hnot
          by_cases hexited : ∀ worker ∈ t.workers, worker = .exited
          · exact ⟨.join, rfl, ⟨hjoining, hexited⟩, cost_join hjoining⟩
          · obtain ⟨worker, hworker⟩ := not_forall.mp hexited
            obtain ⟨hmem, hne⟩ := Classical.not_imp.mp hworker
            cases worker with
            | ready => exact hlook hmem (.inr hstop.1)
            | running task => exact absurd ⟨task, hmem⟩ hrunning
            | blocked => exact absurd hmem (ht.told (.inl hjoining))
            | exited => exact absurd rfl hne
        · rcases ht.watched hqueue with ⟨worker, hmem, hawake⟩ | hmem | hd
          · cases worker with
            | ready => exact hlook hmem (.inl hqueue)
            | running task => exact absurd ⟨task, hmem⟩ hrunning
            | blocked | exited => cases hawake
          · exact absurd hmem hadder
          · exact absurd hd hdestructor

theorem drained (hpos : 1 ≤ numThreads)
    (hrun : (taskPool ρ adders numThreads).Run (initial adders numThreads) h t) :
    ∃ h' t', (taskPool ρ adders numThreads).Run (initial adders numThreads) (h' ++ h) t' ∧
      accepted (h' ++ h) = accepted h ∧ t'.Drained ∧ t'.stop = t.stop := by
  induction hn : t.cost using Nat.strongRecOn generalizing t h with
  | ind n ih =>
    by_cases hdrained : t.Drained
    · exact ⟨[], t, hrun, rfl, hdrained, rfl⟩
    · obtain ⟨i, hi, henabled, hcost⟩ := (watched hpos hrun).goes_on hdrained
      obtain ⟨h', t', hrun', haccepted, hdrained', hstop⟩ :=
        ih _ (by omega) (hrun.step ⟨henabled, rfl⟩) rfl
      refine ⟨h' ++ [i], t', by rwa [List.append_assoc], ?_, hdrained', ?_⟩
      · rw [List.append_assoc, List.singleton_append, haccepted]
        cases i with
        | add | setStop => cases hi
        | notifyOne | notifyAll | join | wake | look | finish => rfl
      · rw [hstop]
        cases i with
        | add | setStop => cases hi
        | notifyAll | join | wake | finish => rfl
        | notifyOne a woken => cases woken <;> rfl
        | look w result =>
          simp only [exec]
          rcases look_cases t w with ⟨-, -, heq⟩ | ⟨-, -, heq⟩ | ⟨task, rest, -, heq⟩ <;> rw [heq]

/-! ## Every run -/

/-- **The pool drains completely.** `add` throws only if the pool has been stopped, and then adds nothing;
    tasks are taken in the order in which they were added, each is executed once, and all of them before
    the destructor returns; no worker waits for ever; and the pool can always go on until everything is
    executed, and the destructor has returned if it was called. -/
theorem drains_completely [DecidableEq ρ] (hpos : 1 ≤ numThreads)
    (hstart : (taskPool ρ adders numThreads).start s) (hrun : (taskPool ρ adders numThreads).Run s h t) :
    (∀ a task threw t', (taskPool ρ adders numThreads).step t (.add a task threw) t' →
      (threw = true ↔ t.stop = true) ∧
      t'.taskQueue = if threw then t.taskQueue else t.taskQueue ++ [task]) ∧
    accepted h = dequeued h ++ t.taskQueue ∧
    (∀ x, (dequeued h).count x = (finished h).count x + t.workers.countP (· = .running x)) ∧
    (t.destructor = .returned → (finished h).Perm (accepted h)) ∧
    (t.AllBlocked → t.NoneNotifying →
      t.taskQueue = [] ∧ (t.stop = true → ∀ worker ∈ t.workers, worker.isLive = false)) ∧
    ∃ h' t', (taskPool ρ adders numThreads).Run s (h' ++ h) t' ∧ accepted (h' ++ h) = accepted h ∧
      (finished (h' ++ h)).Perm (accepted h) ∧ (t.stop = true → t'.destructor = .returned) := by
  obtain rfl : s = initial adders numThreads := hstart
  have hwatched := watched hpos hrun
  -- where nothing is queued and nothing runs, everything has been executed
  have hperm : ∀ {h : List (Step ρ)} {t : TaskPool ρ},
      (taskPool ρ adders numThreads).Run (initial adders numThreads) h t → t.taskQueue = [] →
      (∀ task, .running task ∉ t.workers) → (finished h).Perm (accepted h) := by
    intro h t hrun hqueue hrunning
    rw [List.perm_iff_count]
    intro x
    have hzero : t.workers.countP (· = .running x) = 0 := by
      rw [List.countP_eq_zero]
      intro worker hworker heq
      exact hrunning x (of_decide_eq_true heq ▸ hworker)
    rw [fifo hrun, hqueue, List.append_nil, executed hrun x, hzero, Nat.add_zero]
  refine ⟨?_, fifo hrun, executed hrun, ?_, hwatched.not_lost, ?_⟩
  · intro a task threw t' hstep
    obtain ⟨⟨-, rfl⟩, rfl⟩ := hstep
    show ((t.add a task).1 = true ↔ t.stop = true) ∧ (t.add a task).2.taskQueue = _
    unfold add
    by_cases hstop : t.stop = true
    · rw [if_pos hstop]
      exact ⟨iff_of_true rfl hstop, rfl⟩
    · rw [if_neg hstop]
      exact ⟨iff_of_false Bool.false_ne_true hstop, rfl⟩
  · intro hreturned
    have hexited := hwatched.joined hreturned
    apply hperm hrun
    · obtain ⟨worker, hworker⟩ := List.exists_mem_of_ne_nil _ hwatched.workers
      exact (hwatched.gone (hexited worker hworker ▸ hworker)).2
    · intro task hmem
      cases hexited _ hmem
  · obtain ⟨h', t', hrun', haccepted, hdrained, hstop⟩ := drained hpos hrun
    refine ⟨h', t', hrun', haccepted, ?_, fun heq => hdrained.returned (hstop.trans heq)⟩
    rw [← haccepted]
    exact hperm hrun' hdrained.queue hdrained.running

/-- One worker and one task, and the destructor called before it is taken. -/
theorem drains_completely_one :
    (finished [.join, .look 0 .exits, .finish 0 7, .look 0 (.takes 7), .notifyAll, .setStop,
        .notifyOne 0 none, .add 0 7 false]).Perm
      (accepted [.join, .look 0 .exits, .finish 0 7, .look 0 (.takes 7), .notifyAll, .setStop,
        .notifyOne 0 none, .add 0 (7 : Nat) false]) := by
  have hadd : (taskPool Nat 1 1).Run (initial 1 1) [.setStop, .notifyOne 0 none, .add 0 7 false] _ :=
    .step (.step (.step (.nil _) ⟨⟨rfl, rfl⟩, rfl⟩) ⟨⟨rfl, by decide⟩, rfl⟩) ⟨rfl, rfl⟩
  have htake : (taskPool Nat 1 1).Run (initial 1 1) [.finish 0 7, .look 0 (.takes 7), .notifyAll, .setStop,
      .notifyOne 0 none, .add 0 7 false] _ :=
    .step (.step (.step hadd ⟨rfl, rfl⟩) ⟨⟨rfl, rfl⟩, rfl⟩) ⟨rfl, rfl⟩
  have hrun : (taskPool Nat 1 1).Run (initial 1 1) [.join, .look 0 .exits, .finish 0 7, .look 0 (.takes 7),
      .notifyAll, .setStop, .notifyOne 0 none, .add 0 7 false] _ :=
    .step (.step htake ⟨⟨rfl, rfl⟩, rfl⟩) ⟨⟨rfl, by decide⟩, rfl⟩
  exact (drains_completely (Nat.le_refl 1) rfl hrun).2.2.2.1 rfl

end

end TaskPool

end LinuxServer
