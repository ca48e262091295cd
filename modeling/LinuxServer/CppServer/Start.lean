import LinuxServer.CppServer.ThreadPool

/-!
# `CppServer/Start.lean` — the loops that `Server::Start` gives to the pool

`Server` makes a loop for each worker of its pool, and `Start` adds `loop()` of each of them as a task. These
tasks never return, so a worker that has one is lost to the others, and what a pool that drains says of tasks
that end (`CppServer/ThreadPool.lean`) says nothing of them: a loop runs only if there is a worker for it that
will look. `add` calls `notify_one` once for each task, whether anyone is blocked by then or not.

`work_conserving` is why that is enough: while a worker is blocked, there are as many threads about to look,
or to notify, as there are tasks in the queue. `loops_start` draws the conclusion for tasks that never
return: as long as there are no more of them than workers, each gets a thread of its own. So do the loops of a
server, which are as many (`server_starts`).
-/

set_option autoImplicit false

namespace LinuxServer

/-- Before the test. -/
def PoolWorker.isReady {ρ : Type} : PoolWorker ρ → Bool
  | .ready => true
  | _ => false

namespace TaskPool

section
variable {ρ : Type} {t t' s : TaskPool ρ} {adders numThreads : Nat} {h : List (Step ρ)}

/-- The workers that will look, and the calls that will have one look. -/
def watchers (t : TaskPool ρ) : Nat := t.workers.countP PoolWorker.isReady + t.adders.countP (· = .notifying)

/-- **The invariant**: nobody is blocked whom a task in the queue would need. -/
def Eager (t : TaskPool ρ) : Prop := .blocked ∈ t.workers → t.taskQueue.length ≤ t.watchers

/-- A worker that has become ready. -/
theorem watchers_ready {w : Nat} {worker : PoolWorker ρ} (hw : t.workers[w]? = some worker)
    (hworker : worker.isReady = false) :
    watchers { t with workers := t.workers.set w .ready } = t.watchers + 1 := by
  simp only [watchers, countP_enter (p := PoolWorker.isReady) (v := .ready) hw hworker rfl]
  omega

theorem Eager.look (ht : t.Eager) {w : Nat} (hw : t.workers[w]? = some .ready) : (t.look w).2.Eager := by
  rcases look_cases t w with ⟨-, hqueue, heq⟩ | ⟨-, hqueue, heq⟩ | ⟨task, rest, hqueue, heq⟩
  · rw [heq]
    intro _
    simp only [hqueue, List.length_nil]
    exact Nat.zero_le _
  · rw [heq]
    intro _
    simp only [hqueue, List.length_nil]
    exact Nat.zero_le _
  · -- the worker and its task go together
    rw [heq]
    intro hblocked
    have hbefore := ht (mem_of_mem_set hblocked (fun heq => by cases heq))
    obtain ⟨hpos, hleave⟩ := countP_leave (p := PoolWorker.isReady) (v := .running task) hw rfl rfl
    simp only [watchers, hleave]
    simp only [watchers, hqueue, List.length_cons] at hbefore
    omega

theorem Eager.exec (ht : t.Eager) {i : Step ρ} (henabled : t.Enabled i) : (t.exec i).Eager := by
  cases i with
  | add a task threw =>
    obtain ⟨ha, -⟩ := henabled
    show (t.add a task).2.Eager
    unfold TaskPool.add
    split
    · exact ht
    · intro hblocked
      have hbefore := ht hblocked
      have henter := countP_enter (p := (· = Adder.notifying)) (v := .notifying) ha rfl rfl
      simp only [watchers, henter, List.length_append, List.length_singleton]
      simp only [watchers] at hbefore
      omega
  | notifyOne a woken =>
    cases woken with
    | none => exact fun hblocked => absurd hblocked henabled.2
    | some w =>
      obtain ⟨ha, hw⟩ := henabled
      intro _
      have hbefore := ht (List.mem_of_getElem? hw)
      obtain ⟨hpos, hleave⟩ := countP_leave (p := (· = Adder.notifying)) (v := .out) ha rfl rfl
      have henter := countP_enter (p := PoolWorker.isReady) (v := .ready) hw rfl rfl
      simp only [TaskPool.exec, notifyOne, watchers, henter, hleave]
      simp only [watchers] at hbefore
      omega
  | setStop | join => exact ht
  | notifyAll =>
    intro hblocked
    obtain ⟨worker, -, hworker⟩ := List.mem_map.mp hblocked
    cases worker <;> cases hworker
  | wake w =>
    intro _
    have hbefore := ht (List.mem_of_getElem? henabled)
    have hready := watchers_ready henabled rfl
    simp only [TaskPool.exec, hready]
    omega
  | look w result => exact ht.look henabled.1
  | finish w task =>
    intro hblocked
    have hbefore := ht (mem_of_mem_set hblocked (fun heq => by cases heq))
    have hready := watchers_ready henabled rfl
    simp only [TaskPool.exec, hready]
    omega

theorem eager (hrun : (taskPool ρ adders numThreads).Run (initial adders numThreads) h t) : t.Eager := by
  refine hrun.invariant (I := fun _ t => t.Eager) ?_ ?_
  · rintro _ t i t' ht ⟨henabled, rfl⟩
    exact ht.exec henabled
  · intro hblocked
    cases List.eq_of_mem_replicate hblocked

/-- Nothing is left in the queue, or somebody will look, or every worker has something else to do. -/
theorem Eager.settled (ht : t.Eager) (hready : .ready ∉ t.workers) (hnone : .notifying ∉ t.adders) :
    t.taskQueue = [] ∨ .blocked ∉ t.workers := by
  have hzero : t.watchers = 0 := by
    have hworkers : t.workers.countP PoolWorker.isReady = 0 := by
      rw [List.countP_eq_zero]
      intro worker hworker hisReady
      cases worker with
      | ready => exact hready hworker
      | blocked | running | exited => cases hisReady
    have hadders : t.adders.countP (· = .notifying) = 0 := by
      rw [List.countP_eq_zero]
      intro adder hadder heq
      exact hnone (of_decide_eq_true heq ▸ hadder)
    rw [watchers, hworkers, hadders]
  by_cases hblocked : .blocked ∈ t.workers
  · have hle := ht hblocked
    rw [hzero] at hle
    exact .inl (List.length_eq_zero_iff.mp (Nat.le_zero.mp hle))
  · exact .inr hblocked

/-- **No task waits for a worker that waits**, in every run, whatever the tasks do: while a worker is blocked, as
    many threads are about to look or to notify as tasks are in the queue; so if none is, the queue is empty or every
    worker is executing a task or has returned. -/
theorem work_conserving (hstart : (taskPool ρ adders numThreads).start s)
    (hrun : (taskPool ρ adders numThreads).Run s h t) :
    (.blocked ∈ t.workers → t.taskQueue.length ≤
      t.workers.countP PoolWorker.isReady + t.adders.countP (· = .notifying)) ∧
    (.ready ∉ t.workers → .notifying ∉ t.adders → t.taskQueue ≠ [] →
      ∀ worker ∈ t.workers, worker.isRunning = true ∨ worker = .exited) := by
  obtain rfl : s = initial adders numThreads := hstart
  have ht := eager hrun
  refine ⟨ht, fun hready hnone hqueue worker hworker => ?_⟩
  have hblocked := (ht.settled hready hnone).resolve_left hqueue
  cases worker with
  | ready => exact absurd hworker hready
  | blocked => exact absurd hworker hblocked
  | running task => exact .inl rfl
  | exited => exact .inr rfl

/-- A task is added while one worker is blocked and the other has not looked yet. -/
theorem work_conserving_one : ∃ t : TaskPool Nat,
    (taskPool Nat 1 2).Run (initial 1 2) [.add 0 7 false, .look 0 .blocks] t ∧ .blocked ∈ t.workers ∧
      t.taskQueue.length ≤ t.workers.countP PoolWorker.isReady + t.adders.countP (· = .notifying) := by
  have hrun : (taskPool Nat 1 2).Run (initial 1 2) [.add 0 7 false, .look 0 .blocks] _ :=
    .step (.step (.nil _) ⟨⟨rfl, rfl⟩, rfl⟩) ⟨⟨rfl, rfl⟩, rfl⟩
  exact ⟨_, hrun, List.mem_cons_self, (work_conserving rfl hrun).1 List.mem_cons_self⟩

/-! ## Tasks that never return -/

/-- No task returns, and nobody stops the pool. -/
def Step.lasts : Step ρ → Bool
  | .finish .. | .setStop => false
  | _ => true

/-- A task is added. -/
def Step.adds : Step ρ → Bool
  | .add .. => true
  | _ => false

theorem accepted_append {h' : List (Step ρ)} (hnone : ∀ i ∈ h', i.adds = false) (h : List (Step ρ)) :
    accepted (h' ++ h) = accepted h := by
  induction h' with
  | nil => rfl
  | cons i h' ih =>
    obtain ⟨hi, hrest⟩ := List.forall_mem_cons.mp hnone
    cases i with
    | add => cases hi
    | notifyOne | setStop | notifyAll | join | wake | look | finish => exact ih hrest

structure Lasting (numThreads : Nat) (h : List (Step ρ)) (t : TaskPool ρ) : Prop where
  stop : t.stop = false
  destructor : t.destructor = .notCalled
  finished : finished h = []
  workers : t.workers.length = numThreads
  live : .exited ∉ t.workers
  taken : (dequeued h).length = t.workers.countP PoolWorker.isRunning

theorem Lasting.step (ht : Lasting numThreads h t) {i : Step ρ} (henabled : t.Enabled i) (hlasts : i.lasts = true) :
    Lasting numThreads (i :: h) (t.exec i) := by
  -- a worker that comes to the test
  have hmove : ∀ {w : Nat} {adders : List Adder} {i : Step ρ}, t.workers[w]? = some .blocked →
      TaskPool.finished (i :: h) = TaskPool.finished h → dequeued (i :: h) = dequeued h →
      Lasting numThreads (i :: h) { t with adders := adders, workers := t.workers.set w .ready } := by
    intro w adders i hw hfinished hdequeued
    refine ⟨ht.stop, ht.destructor, hfinished.trans ht.finished, (List.length_set).trans ht.workers, ?_, ?_⟩
    · exact fun hexited => ht.live (mem_of_mem_set hexited (fun heq => by cases heq))
    · rw [hdequeued, ht.taken]
      exact (countP_pass (p := PoolWorker.isRunning) (v := .ready) hw rfl).symm
  cases i with
  | add a task threw =>
    obtain ⟨-, rfl⟩ := henabled
    simp only [exec, add, ht.stop, Bool.false_eq_true, if_false]
    exact ⟨rfl, ht.destructor, ht.finished, ht.workers, ht.live, ht.taken⟩
  | notifyOne a woken =>
    cases woken with
    | none => exact ⟨ht.stop, ht.destructor, ht.finished, ht.workers, ht.live, ht.taken⟩
    | some w => exact hmove henabled.2 rfl rfl
  | setStop | finish => cases hlasts
  | notifyAll => cases ht.destructor.symm.trans henabled
  | join => cases ht.destructor.symm.trans henabled.1
  | wake w => exact hmove henabled rfl rfl
  | look w result =>
    obtain ⟨hw, rfl⟩ := henabled
    simp only [exec]
    rcases look_cases t w with ⟨-, hqueue, heq⟩ | ⟨hstop, -, -⟩ | ⟨task, rest, hqueue, heq⟩
    · rw [heq]
      refine ⟨ht.stop, ht.destructor, ht.finished, (List.length_set).trans ht.workers, ?_, ?_⟩
      · exact fun hexited => ht.live (mem_of_mem_set hexited (fun heq => by cases heq))
      · exact ht.taken.trans (countP_pass (p := PoolWorker.isRunning) (v := .blocked) hw rfl).symm
    · rw [ht.stop] at hstop
      cases hstop
    · rw [heq]
      refine ⟨ht.stop, ht.destructor, ht.finished, (List.length_set).trans ht.workers, ?_, ?_⟩
      · exact fun hexited => ht.live (mem_of_mem_set hexited (fun heq => by cases heq))
      · show (dequeued h ++ [task]).length = _
        rw [List.length_append, ht.taken, List.length_singleton]
        exact (countP_enter (p := PoolWorker.isRunning) (v := .running task) hw rfl rfl).symm

theorem lasting (hrun : ((taskPool ρ adders numThreads).restrict fun _ i => i.lasts = true).Run
    (initial adders numThreads) h t) : Lasting numThreads h t := by
  refine hrun.invariant (I := fun h t => Lasting numThreads h t) ?_ ?_
  · rintro h t i t' ht ⟨⟨henabled, rfl⟩, hlasts⟩
    exact ht.step henabled hlasts
  · refine ⟨rfl, rfl, rfl, List.length_replicate, ?_, ?_⟩
    · intro hexited
      cases List.eq_of_mem_replicate hexited
    · refine Eq.symm (List.countP_eq_zero.mpr fun worker hworker => ?_)
      rw [List.eq_of_mem_replicate hworker]
      exact Bool.false_ne_true

/-- As many workers as tasks are enough: where nobody looks and nobody notifies, no task is left. -/
theorem Lasting.taskQueue_nil (ht : Lasting numThreads h t) (heager : t.Eager)
    (hfifo : accepted h = dequeued h ++ t.taskQueue) (hfew : (accepted h).length ≤ numThreads)
    (hready : .ready ∉ t.workers) (hnone : .notifying ∉ t.adders) : t.taskQueue = [] := by
  rcases heager.settled hready hnone with hnil | hblocked
  · exact hnil
  · have hall : t.workers.countP PoolWorker.isRunning = t.workers.length := by
      rw [List.countP_eq_length]
      intro worker hworker
      cases worker with
      | running => rfl
      | ready => exact absurd hworker hready
      | blocked => exact absurd hworker hblocked
      | exited => exact absurd hworker ht.live
    have htaken := ht.taken
    rw [hall, ht.workers] at htaken
    rw [hfifo, List.length_append, htaken] at hfew
    exact List.length_eq_zero_iff.mp (by omega)

/-- While a task is left, there is a step that brings it nearer to its worker. -/
theorem Lasting.goes_on (ht : Lasting numThreads h t) (heager : t.Eager)
    (hfifo : accepted h = dequeued h ++ t.taskQueue) (hfew : (accepted h).length ≤ numThreads)
    (hqueue : t.taskQueue ≠ []) : ∃ i : Step ρ, i.lasts = true ∧ i.adds = false ∧ t.Enabled i ∧
      (t.exec i).cost < t.cost := by
  by_cases hready : .ready ∈ t.workers
  · obtain ⟨w, hw⟩ := List.getElem?_of_mem hready
    exact ⟨.look w (t.look w).1, rfl, rfl, ⟨hw, rfl⟩, cost_look hw (.inl hqueue)⟩
  · by_cases hadder : .notifying ∈ t.adders
    · obtain ⟨a, ha⟩ := List.getElem?_of_mem hadder
      by_cases hblocked : .blocked ∈ t.workers
      · obtain ⟨w, hw⟩ := List.getElem?_of_mem hblocked
        refine ⟨.notifyOne a (some w), rfl, rfl, ⟨ha, hw⟩, cost_notifyOne ha ?_⟩
        intro w' hw'
        cases hw'
        exact hw
      · exact ⟨.notifyOne a none, rfl, rfl, ⟨ha, hblocked⟩, cost_notifyOne ha (fun _ hw => by cases hw)⟩
    · exact absurd (ht.taskQueue_nil heager hfifo hfew hready hadder) hqueue

/-- Without another task the workers can take all that are there. -/
theorem all_taken (hrun : ((taskPool ρ adders numThreads).restrict fun _ i => i.lasts = true).Run
    (initial adders numThreads) h t) (hfew : (accepted h).length ≤ numThreads) :
    ∃ h' t', ((taskPool ρ adders numThreads).restrict fun _ i => i.lasts = true).Run t h' t' ∧
      (∀ i ∈ h', i.adds = false) ∧ t'.taskQueue = [] := by
  induction hn : t.cost using Nat.strongRecOn generalizing t h with
  | ind n ih =>
    by_cases hqueue : t.taskQueue = []
    · exact ⟨[], t, .nil t, List.forall_mem_nil _, hqueue⟩
    · obtain ⟨i, hlasts, hi, henabled, hcost⟩ :=
        (lasting hrun).goes_on (eager hrun.of_restrict) (fifo hrun.of_restrict) hfew hqueue
      have hstep : ((taskPool ρ adders numThreads).restrict fun _ i => i.lasts = true).step t i (t.exec i) :=
        ⟨⟨henabled, rfl⟩, hlasts⟩
      have hsame : accepted ([i] ++ h) = accepted h := accepted_append (List.forall_mem_singleton.mpr hi) h
      obtain ⟨h', t', hrun', hnone, hnil⟩ := ih _ (by omega) (hrun.step hstep) (hsame ▸ hfew) rfl
      refine ⟨h' ++ [i], t', ((System.Run.nil t).step hstep).append hrun', ?_, hnil⟩
      exact List.forall_mem_append.mpr ⟨hnone, List.forall_mem_singleton.mpr hi⟩

/-- A worker executes each task that has been taken, none two. -/
theorem count_running [DecidableEq ρ] (hrun : ((taskPool ρ adders numThreads).restrict fun _ i => i.lasts = true).Run
    (initial adders numThreads) h t) (x : ρ) : (dequeued h).count x = t.workers.countP (· = .running x) := by
  rw [executed hrun.of_restrict x, (lasting hrun).finished, List.count_nil, Nat.zero_add]

theorem count_accepted [DecidableEq ρ] (hrun : ((taskPool ρ adders numThreads).restrict fun _ i => i.lasts = true).Run
    (initial adders numThreads) h t) (hnil : t.taskQueue = []) (x : ρ) :
    (accepted h).count x = t.workers.countP (· = .running x) := by
  rw [fifo hrun.of_restrict, hnil, List.append_nil]
  exact count_running hrun x

/-- Where nobody is about to look or to notify, all that were added are being executed. -/
theorem count_settled [DecidableEq ρ] (hrun : ((taskPool ρ adders numThreads).restrict fun _ i => i.lasts = true).Run
    (initial adders numThreads) h t) (hfew : (accepted h).length ≤ numThreads) (hready : .ready ∉ t.workers)
    (hnone : .notifying ∉ t.adders) (x : ρ) : (accepted h).count x = t.workers.countP (· = .running x) :=
  count_accepted hrun
    ((lasting hrun).taskQueue_nil (eager hrun.of_restrict) (fifo hrun.of_restrict) hfew hready hnone) x

/-- **Each loop has a thread of its own.** While the tasks never return, the pool is not stopped, and no more of
    them are added than there are workers: a worker executes each task that has been taken, none two; when nobody is
    about to look or to notify, every task that was added is being executed; and from every state the workers and
    calls that are under way can get there. -/
theorem loops_start [DecidableEq ρ] (hstart : (taskPool ρ adders numThreads).start s)
    (hrun : ((taskPool ρ adders numThreads).restrict fun _ i => i.lasts = true).Run s h t)
    (hfew : (accepted h).length ≤ numThreads) :
    (∀ x, (dequeued h).count x = t.workers.countP (· = .running x)) ∧
    (.ready ∉ t.workers → .notifying ∉ t.adders →
      ∀ x, (accepted h).count x = t.workers.countP (· = .running x)) ∧
    ∃ h' t', ((taskPool ρ adders numThreads).restrict fun _ i => i.lasts = true).Run s (h' ++ h) t' ∧
      accepted (h' ++ h) = accepted h ∧ ∀ x, (accepted h).count x = t'.workers.countP (· = .running x) := by
  obtain rfl : s = initial adders numThreads := hstart
  refine ⟨count_running hrun, count_settled hrun hfew, ?_⟩
  obtain ⟨h', t', hrun', hnone, hnil⟩ := all_taken hrun hfew
  have haccepted := accepted_append hnone h
  refine ⟨h', t', hrun.append hrun', haccepted, ?_⟩
  rw [← haccepted]
  exact count_accepted (hrun.append hrun') hnil

/-- Two loops on two workers, the first of which blocks before it is added. -/
theorem loops_start_two : ∃ t : TaskPool Nat,
    ((taskPool Nat 1 2).restrict fun _ i => i.lasts = true).Run (initial 1 2)
      [.look 0 (.takes 1), .look 1 (.takes 0), .notifyOne 0 none, .add 0 1 false, .notifyOne 0 (some 0),
        .add 0 0 false, .look 0 .blocks] t ∧ t.workers.countP (· = .running 1) = 1 := by
  have hrun : ((taskPool Nat 1 2).restrict fun _ i => i.lasts = true).Run (initial 1 2)
      [.look 0 (.takes 1), .look 1 (.takes 0), .notifyOne 0 none, .add 0 1 false, .notifyOne 0 (some 0),
        .add 0 0 false, .look 0 .blocks] _ :=
    .step (.step (.step (.step (.step (.step (.step (.nil _) ⟨⟨⟨rfl, rfl⟩, rfl⟩, rfl⟩) ⟨⟨⟨rfl, rfl⟩, rfl⟩, rfl⟩)
      ⟨⟨⟨rfl, rfl⟩, rfl⟩, rfl⟩) ⟨⟨⟨rfl, rfl⟩, rfl⟩, rfl⟩) ⟨⟨⟨rfl, by decide⟩, rfl⟩, rfl⟩)
      ⟨⟨⟨rfl, rfl⟩, rfl⟩, rfl⟩) ⟨⟨⟨rfl, rfl⟩, rfl⟩, rfl⟩
  exact ⟨_, hrun, ((loops_start rfl hrun (by decide)).2.1 (by decide) (by decide) 1).symm⟩

end

/-! ## The server -/

/-- `subReactor`, as `Server` makes it: a loop for each worker of its pool. -/
def subReactor (numThreads : Nat) : List Nat := List.range numThreads

end TaskPool

/-- `Server::Start`: the pool, and how many of the loops the main thread has added. -/
structure Starting where
  pool : TaskPool Nat
  added : Nat

open TaskPool in
/-- The main thread adds one loop after the other. A loop does not return. -/
def serverStart (numThreads : Nat) : System Starting (TaskPool.Step Nat) where
  start s := (taskPool Nat 1 numThreads).start s.pool ∧ s.added = 0
  step s i s' := ((taskPool Nat 1 numThreads).restrict fun _ i => i.lasts = true).step s.pool i s'.pool ∧
    match i with
    | .add _ loop _ => (subReactor numThreads)[s.added]? = some loop ∧ s'.added = s.added + 1
    | _ => s'.added = s.added

namespace Starting

open TaskPool

section
variable {numThreads : Nat} {s t : Starting} {h : List (TaskPool.Step Nat)}

/-- What `Start` has done: the first loops have been added, in their order. -/
structure Adds (numThreads : Nat) (h : List (TaskPool.Step Nat)) (t : Starting) : Prop where
  run : ((taskPool Nat 1 numThreads).restrict fun _ i => i.lasts = true).Run (initial 1 numThreads) h t.pool
  accepted : accepted h = List.range t.added
  few : t.added ≤ numThreads
  adder : ∃ a, t.pool.adders = [a]

theorem getElem?_subReactor {k loop : Nat} :
    (subReactor numThreads)[k]? = some loop ↔ k < numThreads ∧ loop = k := by
  unfold subReactor
  constructor
  · intro hloop
    obtain ⟨hk, rfl⟩ := List.getElem?_eq_some_iff.mp hloop
    rw [List.length_range] at hk
    exact ⟨hk, List.getElem_range _⟩
  · rintro ⟨hk, rfl⟩
    exact List.getElem?_range hk

theorem Adds.step (hs : Adds numThreads h s) {i : TaskPool.Step Nat} (hstep : (serverStart numThreads).step s i t) :
    Adds numThreads (i :: h) t := by
  obtain ⟨hpool, hadded⟩ := hstep
  have hrun := hs.run.step hpool
  obtain ⟨⟨henabled, hexec⟩, hlasts⟩ := hpool
  obtain ⟨a, hadder⟩ := hs.adder
  have hset : ∀ (k : Nat) (b : Adder), ∃ a, s.pool.adders.set k b = [a] := by
    intro k b
    rw [hadder]
    cases k with
    | zero => exact ⟨b, rfl⟩
    | succ k => exact ⟨a, rfl⟩
  cases i with
  | add c loop threw =>
    obtain ⟨-, hthrew⟩ := henabled
    obtain ⟨hloop, hnext⟩ := hadded
    obtain ⟨hk, rfl⟩ := getElem?_subReactor.mp hloop
    rw [TaskPool.exec] at hexec
    simp only [TaskPool.add, (lasting hs.run).stop, Bool.false_eq_true, if_false] at hexec hthrew
    subst hthrew
    refine ⟨hrun, ?_, by omega, ?_⟩
    · rw [hnext, List.range_succ, ← hs.accepted]
      rfl
    · rw [hexec]
      exact hset c .notifying
  | notifyOne c woken =>
    refine ⟨hrun, (hs.accepted.trans (congrArg _ hadded.symm)), hadded ▸ hs.few, ?_⟩
    rw [hexec]
    cases woken <;> exact hset c .out
  | setStop | finish => cases hlasts
  | notifyAll | join | wake =>
    refine ⟨hrun, (hs.accepted.trans (congrArg _ hadded.symm)), hadded ▸ hs.few, ?_⟩
    rw [hexec]
    exact ⟨a, hadder⟩
  | look w result =>
    refine ⟨hrun, (hs.accepted.trans (congrArg _ hadded.symm)), hadded ▸ hs.few, a, ?_⟩
    rw [hexec]
    show (s.pool.look w).2.adders = [a]
    rcases look_cases s.pool w with ⟨-, -, heq⟩ | ⟨-, -, heq⟩ | ⟨_, _, -, heq⟩
    · rw [heq]
      exact hadder
    · rw [heq]
      exact hadder
    · rw [heq]
      exact hadder

theorem Adds.runs (hs : Adds numThreads h s) {h' : List (TaskPool.Step Nat)}
    (hrun : (serverStart numThreads).Run s h' t) : Adds numThreads (h' ++ h) t := by
  induction hrun with
  | nil => exact hs
  | step _ hst ih => exact ih.step hst

theorem adds (hstart : (serverStart numThreads).start s) (hrun : (serverStart numThreads).Run s h t) :
    Adds numThreads h t := by
  obtain ⟨hpool, hadded⟩ := hstart
  have hpool : s.pool = initial 1 numThreads := hpool
  have hs : Adds numThreads [] s := by
    refine ⟨?_, ?_, ?_, .out, ?_⟩
    · rw [hpool]
      exact .nil _
    · rw [hadded]
      rfl
    · rw [hadded]
      exact Nat.zero_le _
    · rw [hpool]
      rfl
  exact List.append_nil h ▸ hs.runs hrun

/-- What the pool does without another task, it does under the server. -/
theorem run_of_pool {p p' : TaskPool Nat} {k : Nat} {h' : List (TaskPool.Step Nat)}
    (hrun : ((taskPool Nat 1 numThreads).restrict fun _ i => i.lasts = true).Run p h' p')
    (hnone : ∀ i ∈ h', i.adds = false) : (serverStart numThreads).Run ⟨p, k⟩ h' ⟨p', k⟩ := by
  induction hrun with
  | nil => exact .nil _
  | @step p p' h' i _ hst ih =>
    obtain ⟨hi, hrest⟩ := List.forall_mem_cons.mp hnone
    refine .step (ih hrest) ⟨hst, ?_⟩
    cases i with
    | add => cases hi
    | notifyOne | setStop | notifyAll | join | wake | look | finish => rfl

/-- The next loop can be added, when the main thread has notified for the last. -/
theorem Adds.next (hs : Adds numThreads h s) (hless : s.added < numThreads) :
    ∃ h' t, (serverStart numThreads).Run s h' t ∧ t.added = s.added + 1 := by
  have hstop := (lasting hs.run).stop
  have hadd : ∀ {p : TaskPool Nat}, p.stop = false → p.adders = [.out] →
      (serverStart numThreads).step ⟨p, s.added⟩ (.add 0 s.added false) ⟨(p.add 0 s.added).2, s.added + 1⟩ := by
    intro p hp hout
    have hthrew : false = (p.add 0 s.added).1 := by
      unfold TaskPool.add
      rw [hp]
      rfl
    exact ⟨⟨⟨⟨by rw [hout]; rfl, hthrew⟩, rfl⟩, rfl⟩, getElem?_subReactor.mpr ⟨hless, rfl⟩, rfl⟩
  obtain ⟨a, hadder⟩ := hs.adder
  cases a with
  | out => exact ⟨_, _, (System.Run.nil s).step (hadd hstop hadder), rfl⟩
  | notifying =>
    have hnotifying : s.pool.adders[0]? = some .notifying := by
      rw [hadder]
      rfl
    have hout : s.pool.adders.set 0 .out = [.out] := by
      rw [hadder]
      rfl
    by_cases hblocked : .blocked ∈ s.pool.workers
    · obtain ⟨w, hw⟩ := List.getElem?_of_mem hblocked
      have hnotify : (serverStart numThreads).step s (.notifyOne 0 (some w)) ⟨s.pool.notifyOne 0 (some w), s.added⟩ :=
        ⟨⟨⟨⟨hnotifying, hw⟩, rfl⟩, rfl⟩, rfl⟩
      exact ⟨_, _, ((System.Run.nil s).step hnotify).step (hadd hstop hout), rfl⟩
    · have hnotify : (serverStart numThreads).step s (.notifyOne 0 none) ⟨s.pool.notifyOne 0 none, s.added⟩ :=
        ⟨⟨⟨⟨hnotifying, hblocked⟩, rfl⟩, rfl⟩, rfl⟩
      exact ⟨_, _, ((System.Run.nil s).step hnotify).step (hadd hstop hout), rfl⟩

theorem Adds.all (hs : Adds numThreads h s) :
    ∃ h' t, (serverStart numThreads).Run s h' t ∧ t.added = numThreads := by
  induction hn : numThreads - s.added generalizing s h with
  | zero =>
    have hfew := hs.few
    exact ⟨[], s, .nil s, by omega⟩
  | succ n ih =>
    obtain ⟨h₁, t₁, hrun₁, hadded⟩ := hs.next (by omega)
    obtain ⟨h', t, hrun', hall⟩ := ih (hs.runs hrun₁) (by omega)
    exact ⟨h' ++ h₁, t, hrun₁.append hrun', hall⟩

/-- **Each loop of a server has a thread of its own**, since `Server` makes no more of them than its pool has
    workers: none is executed twice; when `Start` has added all, and nobody is about to look or to notify, each is
    being executed; and from every state it can come to that. -/
theorem server_starts (hstart : (serverStart numThreads).start s) (hrun : (serverStart numThreads).Run s h t) :
    (∀ loop, t.pool.workers.countP (· = .running loop) ≤ 1) ∧
    (t.added = numThreads → .ready ∉ t.pool.workers → .notifying ∉ t.pool.adders →
      ∀ loop ∈ subReactor numThreads, t.pool.workers.countP (· = .running loop) = 1) ∧
    ∃ h' t', (serverStart numThreads).Run t h' t' ∧
      ∀ loop ∈ subReactor numThreads, t'.pool.workers.countP (· = .running loop) = 1 := by
  have ht := adds hstart hrun
  have hfew : ∀ {h : List (TaskPool.Step Nat)} {t : Starting}, Adds numThreads h t →
      (accepted h).length ≤ numThreads := by
    intro h t ht
    rw [ht.accepted, List.length_range]
    exact ht.few
  have hone : ∀ loop ∈ subReactor numThreads, (List.range numThreads).count loop = 1 :=
    fun loop hloop => List.nodup_range.count.trans (if_pos hloop)
  refine ⟨fun loop => ?_, fun hall hready hnone loop hloop => ?_, ?_⟩
  · -- what is executed was added, and nothing is added twice
    have hle : (dequeued h).count loop ≤ (accepted h).count loop := by
      rw [fifo ht.run.of_restrict, List.count_append]
      exact Nat.le_add_right _ _
    rw [← count_running ht.run]
    refine Nat.le_trans hle ?_
    rw [ht.accepted]
    exact List.nodup_iff_count.mp List.nodup_range loop
  · rw [← count_settled ht.run (hfew ht) hready hnone, ht.accepted, hall]
    exact hone loop hloop
  · obtain ⟨h₁, t₁, hrun₁, hall⟩ := ht.all
    have ht₁ := ht.runs hrun₁
    obtain ⟨h', p, hrun', hnone, hnil⟩ := all_taken ht₁.run (hfew ht₁)
    refine ⟨h' ++ h₁, ⟨p, t₁.added⟩, hrun₁.append (run_of_pool hrun' hnone), fun loop hloop => ?_⟩
    rw [← count_accepted (ht₁.run.append hrun') hnil, accepted_append hnone, ht₁.accepted, hall]
    exact hone loop hloop

end

end Starting
end LinuxServer
