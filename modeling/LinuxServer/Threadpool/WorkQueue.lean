import LinuxServer.Lib.Semaphore
import Mathlib.Data.Nat.Basic

/-!
# `Threadpool/WorkQueue.lean` — the queue of `threadpool`

`append` and `append_p` take the lock, test, push, and post the semaphore when they have given the lock
back; `run()` waits for the semaphore, takes the lock and takes the front off. Any number of threads
may call the one, and any number of workers be in the other. What a worker does with a request is
nothing to the queue, and it is over in one step here.

The queue is a guarded list (`Lib/Semaphore.lean`), with the requests that were refused left out.
`exactly_once` is what it is for, and `drained` that nothing which was accepted is stuck: the workers can
always go on until the queue is empty.
-/

set_option autoImplicit false

namespace LinuxServer

/-- A thread that appends: whether it is in a call, between the lock and `m_queuestat.post()`. -/
inductive Appender
  | out
  | posting
  deriving DecidableEq, Repr

/-- A worker in `run()`. -/
inductive Worker (ρ : Type)
  | waiting
  /-- Behind `m_queuestat.wait()`. -/
  | woken
  | running (request : ρ)
  deriving DecidableEq, Repr

namespace Worker

variable {ρ : Type}

def isWoken : Worker ρ → Bool
  | .woken => true
  | _ => false

def isRunning : Worker ρ → Bool
  | .running _ => true
  | _ => false

end Worker

/-- `threadpool<T>`, of requests that a `T *` stands for; no caller passes null. -/
structure Threadpool (ρ : Type) where
  workqueue : List ρ
  queuestat : Nat
  /-- The field `m_state` of the requests. -/
  state : ρ → Int
  appenders : List Appender
  workers : List (Worker ρ)

namespace Threadpool

variable {ρ : Type}

/-- What a thread does next, with what a call returns and what a worker finds in front. -/
inductive Step (ρ : Type)
  | append (c : Nat) (request : ρ) (state : Int) (accepted : Bool)
  | appendP (c : Nat) (request : ρ) (accepted : Bool)
  | post (c : Nat)
  | wait (w : Nat)
  | dequeue (w : Nat) (request : Option ρ)
  | finish (w : Nat)
  deriving DecidableEq, Repr

/-- `append_p`, under the lock. -/
def appendP (maxRequests : Nat) (t : Threadpool ρ) (c : Nat) (request : ρ) : Bool × Threadpool ρ :=
  if t.workqueue.length ≥ maxRequests then (false, t)
  else (true, { t with
    workqueue := t.workqueue ++ [request]
    appenders := t.appenders.set c .posting })

/-- `append`, under the lock. -/
def append [DecidableEq ρ] (maxRequests : Nat) (t : Threadpool ρ) (c : Nat) (request : ρ) (state : Int) :
    Bool × Threadpool ρ :=
  if t.workqueue.length ≥ maxRequests then (false, t)
  else (true, { t with
    state := fun r => if r = request then state else t.state r
    workqueue := t.workqueue ++ [request]
    appenders := t.appenders.set c .posting })

/-- `m_queuestat.post()`, and the call returns. -/
def post (t : Threadpool ρ) (c : Nat) : Threadpool ρ :=
  { t with queuestat := t.queuestat + 1, appenders := t.appenders.set c .out }

/-- `m_queuestat.wait()`, once it returns. -/
def wait (t : Threadpool ρ) (w : Nat) : Threadpool ρ :=
  { t with queuestat := t.queuestat - 1, workers := t.workers.set w .woken }

/-- `run()` under the lock. -/
def dequeue (t : Threadpool ρ) (w : Nat) : Threadpool ρ :=
  match t.workqueue with
  | [] => { t with workers := t.workers.set w .waiting }
  | request :: rest => { t with workqueue := rest, workers := t.workers.set w (.running request) }

/-- The request has been dealt with. -/
def finish (t : Threadpool ρ) (w : Nat) : Threadpool ρ := { t with workers := t.workers.set w .waiting }

def exec [DecidableEq ρ] (maxRequests : Nat) (t : Threadpool ρ) : Step ρ → Threadpool ρ
  | .append c request state _ => (t.append maxRequests c request state).2
  | .appendP c request _ => (t.appendP maxRequests c request).2
  | .post c => t.post c
  | .wait w => t.wait w
  | .dequeue w _ => t.dequeue w
  | .finish w => t.finish w

def Enabled [DecidableEq ρ] (maxRequests : Nat) (t : Threadpool ρ) : Step ρ → Prop
  | .append c request state accepted =>
    t.appenders[c]? = some .out ∧ accepted = (t.append maxRequests c request state).1
  | .appendP c request accepted =>
    t.appenders[c]? = some .out ∧ accepted = (t.appendP maxRequests c request).1
  | .post c => t.appenders[c]? = some .posting
  | .wait w => t.workers[w]? = some .waiting ∧ 0 < t.queuestat
  | .dequeue w request => t.workers[w]? = some .woken ∧ request = t.workqueue.head?
  | .finish w => ∃ request, t.workers[w]? = some (.running request)

/-- The pool as it is constructed. -/
def initial (appenders workers : Nat) (state : ρ → Int) : Threadpool ρ :=
  ⟨[], 0, state, List.replicate appenders .out, List.replicate workers .waiting⟩

/-- The requests that `append` and `append_p` returned true for, the first first. -/
def accepted : List (Step ρ) → List ρ
  | [] => []
  | .append _ request _ true :: h => accepted h ++ [request]
  | .appendP _ request true :: h => accepted h ++ [request]
  | _ :: h => accepted h

/-- The requests that workers have taken off. -/
def dequeued : List (Step ρ) → List ρ
  | [] => []
  | .dequeue _ (some request) :: h => dequeued h ++ [request]
  | _ :: h => dequeued h

end Threadpool

/-- A queue for `maxRequests` requests, with any number of threads that append to it, and of workers. -/
def threadpool {ρ : Type} [DecidableEq ρ] (maxRequests appenders workers : Nat) :
    System (Threadpool ρ) (Threadpool.Step ρ) where
  start t := ∃ state, t = Threadpool.initial appenders workers state
  step t i t' := t.Enabled maxRequests i ∧ t' = t.exec maxRequests i

namespace Threadpool

section
variable {ρ : Type} {t t' : Threadpool ρ} {maxRequests appenders workers : Nat}

/-! ## A guarded list -/

/-- The queue as a list that a semaphore counts. -/
def guarded (t : Threadpool ρ) : Guarded ρ where
  items := t.workqueue
  permits := t.queuestat
  taking := t.workers.countP Worker.isWoken
  giving := t.appenders.countP (· = .posting)

def observed : Step ρ → Option (Guarded.Step ρ)
  | .append _ request _ accepted | .appendP _ request accepted =>
    if accepted then some (.put request) else none
  | .post _ => some .post
  | .wait _ => some .wait
  | .dequeue _ request => some (.take request)
  | .finish _ => none

theorem guarded_initial (state : ρ → Int) :
    (initial appenders workers state).guarded = Guarded.initial [] := by
  have hgiving : (List.replicate appenders Appender.out).countP (· = .posting) = 0 := by
    rw [List.countP_eq_zero]
    intro a ha
    rw [List.eq_of_mem_replicate ha]
    decide
  have htaking : (List.replicate workers (Worker.waiting : Worker ρ)).countP Worker.isWoken = 0 := by
    rw [List.countP_eq_zero]
    intro w hw
    rw [List.eq_of_mem_replicate hw]
    nofun
  simp only [guarded, initial, Guarded.initial, hgiving, htaking, List.length_nil]

theorem observed_puts (h : List (Step ρ)) : Guarded.puts (h.filterMap observed) = accepted h := by
  induction h with
  | nil => rfl
  | cons i h ih =>
    cases i with
    | append c request state ok => cases ok <;> simp only [List.filterMap_cons, observed, Guarded.puts,
        accepted, ih, if_true, Bool.false_eq_true, if_false]
    | appendP c request ok => cases ok <;> simp only [List.filterMap_cons, observed, Guarded.puts,
        accepted, ih, if_true, Bool.false_eq_true, if_false]
    | post | wait | dequeue | finish => exact ih

theorem observed_takes (h : List (Step ρ)) : Guarded.takes (h.filterMap observed) = dequeued h := by
  induction h with
  | nil => rfl
  | cons i h ih =>
    cases i with
    | append c request state ok => cases ok <;> exact ih
    | appendP c request ok => cases ok <;> exact ih
    | post | wait | finish => exact ih
    | dequeue w request =>
      cases request with
      | none => exact ih
      | some request => exact congrArg (· ++ [request]) ih

/-- What either call makes of the queue, if it has room. -/
theorem guarded_push {c : Nat} {request : ρ} {state : ρ → Int} (hc : t.appenders[c]? = some .out) :
    ({ t with
      state := state
      workqueue := t.workqueue ++ [request]
      appenders := t.appenders.set c .posting } : Threadpool ρ).guarded =
      { t.guarded with items := t.workqueue ++ [request], giving := t.guarded.giving + 1 } := by
  simp only [guarded, countP_enter (p := (· = Appender.posting)) (v := .posting) hc rfl rfl]

variable [DecidableEq ρ]

/-- **The steps of the pool** are those of a guarded list. -/
theorem guarded_step {i : Step ρ} (hstep : (threadpool maxRequests appenders workers).step t i t') :
    (Guarded.system []).stepIf t.guarded (observed i) t'.guarded := by
  obtain ⟨henabled, rfl⟩ := hstep
  cases i with
  | append c request state ok =>
    obtain ⟨hc, rfl⟩ := henabled
    show (Guarded.system []).stepIf _ (observed _) (t.append maxRequests c request state).2.guarded
    unfold append
    split
    · rfl
    · exact guarded_push hc
  | appendP c request ok =>
    obtain ⟨hc, rfl⟩ := henabled
    show (Guarded.system []).stepIf _ (observed _) (t.appendP maxRequests c request).2.guarded
    unfold appendP
    split
    · rfl
    · exact guarded_push hc
  | post c =>
    have hc : t.appenders[c]? = some .posting := henabled
    obtain ⟨hgiving, hleave⟩ := countP_leave (p := (· = Appender.posting)) (v := .out) hc rfl rfl
    refine ⟨hgiving, ?_⟩
    simp only [exec, post, guarded, hleave]
  | wait w =>
    obtain ⟨hw, hpos⟩ := henabled
    refine ⟨hpos, ?_⟩
    simp only [exec, wait, guarded, countP_enter (p := Worker.isWoken) (v := .woken) hw rfl rfl]
  | dequeue w request =>
    obtain ⟨hw, rfl⟩ := henabled
    obtain ⟨htaking, -⟩ := countP_leave (p := Worker.isWoken) (v := .waiting) hw rfl rfl
    refine ⟨htaking, rfl, ?_⟩
    have hleave : ∀ v : Worker ρ, v.isWoken = false →
        (t.workers.set w v).countP Worker.isWoken = t.workers.countP Worker.isWoken - 1 :=
      fun v hv => (countP_leave (p := Worker.isWoken) hw rfl hv).2
    simp only [exec, dequeue]
    cases hqueue : t.workqueue with
    | nil => simp only [guarded, hqueue, hleave .waiting rfl, List.tail_nil]
    | cons request rest => simp only [guarded, hqueue, hleave (.running request) rfl, List.tail_cons]
  | finish w =>
    obtain ⟨request, hw⟩ := henabled
    show (t.finish w).guarded = t.guarded
    simp only [finish, guarded, countP_pass (p := Worker.isWoken) (v := .waiting) hw rfl]

theorem guarded_run {t₀ : Threadpool ρ} {h : List (Step ρ)}
    (hstart : (threadpool maxRequests appenders workers).start t₀)
    (hrun : (threadpool maxRequests appenders workers).Run t₀ h t) :
    (Guarded.system []).Run (Guarded.initial []) (h.filterMap observed) t.guarded := by
  obtain ⟨state, rfl⟩ := hstart
  have hproject := hrun.project guarded observed guarded_step
  rwa [guarded_initial] at hproject

/-! ## Every run -/

/-- What was accepted comes off in that order. -/
theorem fifo {t₀ : Threadpool ρ} {h : List (Step ρ)}
    (hstart : (threadpool maxRequests appenders workers).start t₀)
    (hrun : (threadpool maxRequests appenders workers).Run t₀ h t) :
    accepted h = dequeued h ++ t.workqueue := by
  have hfifo := Guarded.fifo (guarded_run hstart hrun)
  rwa [List.nil_append, observed_puts, observed_takes] at hfifo

theorem length_le {t₀ : Threadpool ρ} {h : List (Step ρ)}
    (hstart : (threadpool maxRequests appenders workers).start t₀)
    (hrun : (threadpool maxRequests appenders workers).Run t₀ h t) :
    t.workqueue.length ≤ maxRequests := by
  refine hrun.invariant (I := fun _ t => t.workqueue.length ≤ maxRequests) ?_ ?_
  · rintro h t i _ hle ⟨-, rfl⟩
    cases i with
    | append c request state ok =>
      show (t.append maxRequests c request state).2.workqueue.length ≤ _
      unfold append
      split
      · exact hle
      · rw [List.length_append, List.length_singleton]
        omega
    | appendP c request ok =>
      show (t.appendP maxRequests c request).2.workqueue.length ≤ _
      unfold appendP
      split
      · exact hle
      · rw [List.length_append, List.length_singleton]
        omega
    | post | wait | finish => exact hle
    | dequeue w request =>
      show (t.dequeue w).workqueue.length ≤ _
      unfold dequeue
      split
      · exact hle
      · rename_i front rest hqueue
        rw [hqueue, List.length_cons] at hle
        exact Nat.le_of_succ_le hle
  · obtain ⟨state, rfl⟩ := hstart
    exact Nat.zero_le _

/-! ## The queue is emptied -/

/-- A step that is not a call of `append` or `append_p`. -/
def goesOn : Step ρ → Bool
  | .append .. | .appendP .. => false
  | _ => true

/-- How many steps are left of what has been accepted: a `post`, a `wait`, the dequeue and the end. -/
def pending (t : Threadpool ρ) : Nat :=
  4 * t.appenders.countP (· = .posting) + 3 * t.queuestat + 2 * t.workers.countP Worker.isWoken +
    t.workers.countP Worker.isRunning

theorem pending_step {i : Step ρ} (hstep : (threadpool maxRequests appenders workers).step t i t')
    (hbalanced : t.guarded.Balanced) (hi : goesOn i = true) : t'.pending < t.pending := by
  obtain ⟨henabled, rfl⟩ := hstep
  cases i with
  | append | appendP => cases hi
  | post c =>
    have hc : t.appenders[c]? = some .posting := henabled
    obtain ⟨hgiving, hleave⟩ := countP_leave (p := (· = Appender.posting)) (v := .out) hc rfl rfl
    simp only [exec, post, pending, hleave]
    omega
  | wait w =>
    obtain ⟨hw, hpos⟩ := henabled
    simp only [exec, wait, pending, countP_enter (p := Worker.isWoken) (v := .woken) hw rfl rfl,
      countP_pass (p := Worker.isRunning) (v := .woken) hw rfl]
    omega
  | dequeue w request =>
    obtain ⟨hw, -⟩ := henabled
    obtain ⟨htaking, -⟩ := countP_leave (p := Worker.isWoken) (v := .waiting) hw rfl rfl
    simp only [exec, dequeue]
    cases hqueue : t.workqueue with
    | nil => exact absurd hqueue (hbalanced.items_ne_nil htaking)
    | cons front rest =>
      obtain ⟨-, hleave⟩ := countP_leave (p := Worker.isWoken) (v := .running front) hw rfl rfl
      simp only [pending, hleave, countP_enter (p := Worker.isRunning) (v := .running front) hw rfl rfl]
      omega
  | finish w =>
    obtain ⟨request, hw⟩ := henabled
    obtain ⟨hrunning, hleave⟩ := countP_leave (p := Worker.isRunning) (v := .waiting) hw rfl rfl
    simp only [exec, finish, pending, hleave, countP_pass (p := Worker.isWoken) (v := .waiting) hw rfl]
    omega

/-- **No wake-up is lost**: while something is queued, a worker or a `post` can go on. -/
theorem goes_on (maxRequests : Nat) (hbalanced : t.guarded.Balanced) (hqueue : t.workqueue ≠ [])
    (hworkers : t.workers ≠ []) :
    ∃ i, goesOn i = true ∧ t.Enabled maxRequests i := by
  by_cases hgiving : 0 < t.appenders.countP (· = .posting)
  · obtain ⟨a, ha, hposting⟩ := List.countP_pos_iff.mp hgiving
    obtain ⟨c, hc⟩ := List.getElem?_of_mem ha
    obtain rfl : a = .posting := of_decide_eq_true hposting
    exact ⟨.post c, rfl, hc⟩
  · obtain ⟨worker, others, hcons⟩ := List.exists_cons_of_ne_nil hworkers
    have hw : t.workers[0]? = some worker := by rw [hcons]; rfl
    cases worker with
    | woken => exact ⟨.dequeue 0 t.workqueue.head?, rfl, hw, rfl⟩
    | running request => exact ⟨.finish 0, rfl, request, hw⟩
    | waiting =>
      by_cases htaking : 0 < t.workers.countP Worker.isWoken
      · obtain ⟨worker, hmem, hwoken⟩ := List.countP_pos_iff.mp htaking
        obtain ⟨w, hw⟩ := List.getElem?_of_mem hmem
        cases worker with
        | woken => exact ⟨.dequeue w t.workqueue.head?, rfl, hw, rfl⟩
        | waiting | running => cases hwoken
      · have hlength := List.length_pos_iff.mpr hqueue
        have hsum : t.workqueue.length = t.queuestat + t.workers.countP Worker.isWoken +
          t.appenders.countP (· = .posting) := hbalanced
        exact ⟨.wait 0, rfl, hw, by omega⟩

theorem workers_length (i : Step ρ) : (t.exec maxRequests i).workers.length = t.workers.length := by
  cases i with
  | append c request state ok =>
    show (t.append maxRequests c request state).2.workers.length = _
    unfold append
    split <;> rfl
  | appendP c request ok =>
    show (t.appendP maxRequests c request).2.workers.length = _
    unfold appendP
    split <;> rfl
  | post => rfl
  | wait | finish => exact List.length_set
  | dequeue w request =>
    show (t.dequeue w).workers.length = _
    unfold dequeue
    split <;> exact List.length_set

/-- **Whatever is queued can be taken off**, and by steps that are enabled whenever it is not yet. -/
theorem drained {t₀ : Threadpool ρ} {h : List (Step ρ)}
    (hstart : (threadpool maxRequests appenders workers).start t₀)
    (hrun : (threadpool maxRequests appenders workers).Run t₀ h t) (hworkers : t.workers ≠ []) :
    ∃ h' t', (threadpool maxRequests appenders workers).Run t₀ (h' ++ h) t' ∧
      accepted (h' ++ h) = accepted h ∧ t'.workqueue = [] := by
  induction hn : t.pending using Nat.strongRecOn generalizing t h with
  | ind n ih =>
    by_cases hqueue : t.workqueue = []
    · exact ⟨[], t, hrun, rfl, hqueue⟩
    · have hbalanced := Guarded.balanced (guarded_run hstart hrun)
      obtain ⟨i, hi, henabled⟩ := goes_on maxRequests hbalanced hqueue hworkers
      have hstep : (threadpool maxRequests appenders workers).step t i (t.exec maxRequests i) :=
        ⟨henabled, rfl⟩
      have hlt := pending_step hstep hbalanced hi
      obtain ⟨h', t', hrun', haccepted, hempty⟩ := ih _ (by omega) (hrun.step hstep)
        (by rw [← List.length_pos_iff, workers_length, List.length_pos_iff]; exact hworkers) rfl
      refine ⟨h' ++ [i], t', by rwa [List.append_assoc], ?_, hempty⟩
      rw [List.append_assoc, List.singleton_append, haccepted]
      cases i with
      | append | appendP => cases hi
      | post | wait | dequeue | finish => rfl

theorem run_workers_length {t₀ : Threadpool ρ} {h : List (Step ρ)}
    (hstart : (threadpool maxRequests appenders workers).start t₀)
    (hrun : (threadpool maxRequests appenders workers).Run t₀ h t) : t.workers.length = workers := by
  refine hrun.invariant (I := fun _ t => t.workers.length = workers) ?_ ?_
  · rintro h t i _ hlength ⟨-, rfl⟩
    rw [workers_length, hlength]
  · obtain ⟨state, rfl⟩ := hstart
    exact List.length_replicate

/-- **Exactly once, and in order**, for any capacity, any number of threads and workers and any
    interleaving: what was accepted has been dequeued in that order, or is queued in it; a call returns
    false if and only if the queue is full, and changes nothing then; the queue is never longer; no one
    who has waited finds it empty; and the workers, if there are any, can always go on until all that was
    accepted has been dequeued. -/
theorem exactly_once {t₀ : Threadpool ρ} {h : List (Step ρ)}
    (hstart : (threadpool maxRequests appenders workers).start t₀)
    (hrun : (threadpool maxRequests appenders workers).Run t₀ h t) :
    accepted h = dequeued h ++ t.workqueue ∧
      (∀ c request state, ((t.append maxRequests c request state).1 = false ↔
          t.workqueue.length = maxRequests) ∧
        ((t.append maxRequests c request state).1 = false → (t.append maxRequests c request state).2 = t)) ∧
      (∀ c request, ((t.appendP maxRequests c request).1 = false ↔ t.workqueue.length = maxRequests) ∧
        ((t.appendP maxRequests c request).1 = false → (t.appendP maxRequests c request).2 = t)) ∧
      t.workqueue.length ≤ maxRequests ∧
      (∀ w : Nat, t.workers[w]? = some .woken → t.workqueue ≠ []) ∧
      (0 < workers → ∃ h' t', (threadpool maxRequests appenders workers).Run t₀ (h' ++ h) t' ∧
        accepted (h' ++ h) = accepted h ∧ dequeued (h' ++ h) = accepted h) := by
  have hle := length_le hstart hrun
  have hguarded := guarded_run hstart hrun
  have hbalanced := Guarded.balanced hguarded
  refine ⟨fifo hstart hrun, fun c request state => ?_, fun c request => ?_, hle, fun w hw => ?_, fun hpos => ?_⟩
  · unfold append
    split
    · exact ⟨iff_of_true rfl (by omega), fun _ => rfl⟩
    · exact ⟨iff_of_false nofun (by omega), nofun⟩
  · unfold appendP
    split
    · exact ⟨iff_of_true rfl (by omega), fun _ => rfl⟩
    · exact ⟨iff_of_false nofun (by omega), nofun⟩
  · exact hbalanced.items_ne_nil (List.countP_pos_iff.mpr ⟨_, List.mem_of_getElem? hw, rfl⟩)
  · have hworkers : t.workers ≠ [] := by
      rw [← List.length_pos_iff, run_workers_length hstart hrun]
      exact hpos
    obtain ⟨h', t', hrun', haccepted, hempty⟩ := drained hstart hrun hworkers
    have hall := fifo hstart hrun'
    rw [hempty, List.append_nil, haccepted] at hall
    exact ⟨h', t', hrun', haccepted, hall.symm⟩

end

/-- A queue for one request: the first is accepted, the second refused before the first has been posted,
    and a worker is between the semaphore and the lock. -/
theorem exactly_once_full : ∃ (h : List (Step Nat)) (t : Threadpool Nat),
    h = [.wait 0, .post 0, .appendP 1 8 false, .append 0 7 1 true] ∧
      (threadpool 1 2 1).Run (initial 2 1 fun _ => 0) h t ∧ accepted h = dequeued h ++ t.workqueue ∧
      ∀ w : Nat, t.workers[w]? = some .woken → t.workqueue ≠ [] := by
  have hstart : (threadpool 1 2 1).start (initial 2 1 fun _ : Nat => 0) := ⟨_, rfl⟩
  have hrun := (((System.Run.nil (initial 2 1 fun _ : Nat => 0)).step
    (show (threadpool 1 2 1).step _ (.append 0 7 1 true) _ from ⟨⟨rfl, rfl⟩, rfl⟩)).step
    (show (threadpool 1 2 1).step _ (.appendP 1 8 false) _ from ⟨⟨rfl, rfl⟩, rfl⟩)).step
    (show (threadpool 1 2 1).step _ (.post 0) _ from ⟨rfl, rfl⟩)
  have hrun' := hrun.step (show (threadpool 1 2 1).step _ (.wait 0) _ from ⟨⟨rfl, by decide⟩, rfl⟩)
  obtain ⟨haccepted, -, -, -, hwoken, -⟩ := exactly_once hstart hrun'
  exact ⟨_, _, rfl, hrun', haccepted, hwoken⟩

end Threadpool

end LinuxServer
