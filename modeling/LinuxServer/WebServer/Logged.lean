import LinuxServer.WebServer.Connections
import LinuxServer.Log.WriteLog

/-!
# `WebServer/Logged.lean` — the event loop, with what it logs

The functions of the event loop log what they do, and each `LOG_*` is `write_log` and `flush`, which take `m_mutex`
again and again. `write_log` gives it back only where the file is changed: from any other call it comes back with
`m_mutex`, and the `flush` behind it waits for that for good.

A handler is here the list of what it has left to do: its `LOG_*`, section by section, the `append_p` of a request
that was read, and the event itself, which is `eventLoop`'s. The log is that of `WebServer::log_write`, which writes
it synchronously: with 1 for `LOGWrite` the queue's `cond` throws before the loop is reached. Other threads log too.

With `close_log` 0 — the default — a request is behind a `LOG_*` that has to come back, so there are at most as many
as days that end (`requests_le_days`). Otherwise nothing of this happens. In both cases the loop is `eventLoop`, as
far as it comes (`run_unlogged`).
-/

set_option autoImplicit false

namespace LinuxServer
namespace WebServer

/-- A part of a handler. -/
inductive Act
  /-- A `LOG_*`, with the first section of its `write_log`. -/
  | log
  /-- The section that makes the text. -/
  | format
  /-- The section that writes it. -/
  | fputs
  | flush
  /-- `m_pool->append_p(users + sockfd)`. -/
  | append (sockfd : Nat)
  | run (e : Event)
  deriving DecidableEq, Repr

namespace Act

/-- Whether it takes `m_mutex`. -/
def locks : Act → Bool
  | log | format | fputs | flush => true
  | append _ | run _ => false

def appends : Act → Bool
  | append _ => true
  | _ => false

/-- What the thread does not get beyond by itself: a `LOG_*`, and whatever needs a mutex that is not given back. -/
def stops (locked : Bool) (a : Act) : Bool := a = log ∨ (locked = true ∧ a.locks = true)

end Act

/-- `LOG_INFO`, `LOG_ERROR` and the like. -/
def logInfo (closeLog : Int) : List Act := if closeLog = 0 then [.log] else []

structure Logged where
  loop : State
  log : Log
  /-- What the handler has left to do. -/
  todo : List Act
  /-- The requests that were given to the workers, newest first. -/
  appended : List Nat
  /-- How often `write_log` was begun, and found another day than before. No function reads them. -/
  calls : Nat
  days : Nat

namespace Logged

/-- What `dealwithread` and `dealwithwrite` do before the event: the transfer that answered is logged, and a request
    given to the workers. -/
def before (closeLog : Int) : Event → List Act
  | .read sockfd true _ => logInfo closeLog ++ [.append sockfd]
  | .write _ true _ => logInfo closeLog
  | _ => []

/-- What is logged behind it: by `dealclientdata` if it is busy, by `adjust_timer` if there is a timer, by
    `deal_timer`, and behind `timer_handler`. -/
def behind (closeLog : Int) (s : Logged) : Event → List Act
  | .connect .. => if s.loop.userCount ≥ maxFd then logInfo closeLog else []
  | .read sockfd true _ | .write sockfd true _ =>
    if (s.loop.usersTimer sockfd).timer.isSome then logInfo closeLog else []
  | .read _ false _ | .write _ false _ | .hangup _ | .alarm _ => logInfo closeLog

def handler (closeLog : Int) (s : Logged) (e : Event) : List Act := before closeLog e ++ .run e :: s.behind closeLog e

/-- The first section of `write_log`. -/
def enter (s : Logged) (clock : Clock) (opened : Bool) : Except Fault Logged := do
  let log ← s.log.enter clock opened
  return { s with
    log := log, calls := s.calls + 1, days := s.days + if s.log.today ≠ clock.mday then 1 else 0 }

/-- What happens next: an event is taken up, or an `accept`, a `recv` from the pipe or an `epoll_wait` that failed;
    the handler goes on; or another thread is in the first section of a `write_log`. -/
inductive Step
  | begin (e : Event)
  | complain
  | log (clock : Clock) (opened : Bool)
  | format
  | fputs
  | flush
  | append (sockfd : Nat)
  | run (e : Event)
  | worker (clock : Clock) (opened : Bool)
  deriving DecidableEq, Repr

def exec (closeLog : Int) (s : Logged) : Step → Except Fault Logged
  | .begin e => .ok { s with todo := s.handler closeLog e }
  | .complain => .ok { s with todo := logInfo closeLog }
  | .log clock opened => do
    -- the rest of `write_log` is in the same `if`
    let written := if s.log.rotates clock then [.format, .fputs] else []
    let s ← s.enter clock opened
    return { s with todo := written ++ .flush :: s.todo.tail }
  | .format => .ok { s with todo := s.todo.tail }
  | .fputs => if s.log.fp = none then .error .nullPointer else .ok { s with todo := s.todo.tail }
  | .flush => .ok { s with todo := s.todo.tail }
  | .append sockfd => .ok { s with appended := sockfd :: s.appended, todo := s.todo.tail }
  | .run e => do
    let loop ← s.loop.exec e
    return { s with loop := loop, todo := s.todo.tail }
  | .worker clock opened => s.enter clock opened

/-- `m_mutex` is free, and `m_split_lines` no zero to divide by. -/
def MayEnter (s : Logged) (clock : Clock) : Prop :=
  s.log.locked = false ∧ (s.log.today = clock.mday → s.log.splitLines ≠ 0)

def Enabled (closeLog : Int) (s : Logged) : Step → Prop
  | .begin e => s.todo = [] ∧ s.loop.Enabled e
  | .complain => s.todo = []
  | .log clock _ => s.todo.head? = some .log ∧ s.MayEnter clock
  | .format => s.todo.head? = some .format ∧ s.log.locked = false
  | .fputs => s.todo.head? = some .fputs ∧ s.log.locked = false
  | .flush => s.todo.head? = some .flush ∧ s.log.locked = false
  | .append sockfd => s.todo.head? = some (.append sockfd)
  | .run e => s.todo.head? = some (.run e)
  | .worker clock _ => closeLog = 0 ∧ s.MayEnter clock

instance (closeLog : Int) (s : Logged) : (i : Step) → Decidable (s.Enabled closeLog i)
  | .begin _ | .format | .fputs | .flush => inferInstanceAs (Decidable (_ ∧ _))
  | .complain | .append _ | .run _ => inferInstanceAs (Decidable (_ = _))
  | .log _ _ => inferInstanceAs (Decidable (_ ∧ _ ∧ (_ → _)))
  | .worker _ _ => inferInstanceAs (Decidable (_ ∧ _ ∧ (_ → _)))

end Logged

/-- The main thread, from `log_write` and an empty table on. Whether `fopen` succeeds is not asked. -/
def logged (closeLog : Int) : System Logged Logged.Step where
  start s := eventLoop.start s.loop ∧ s.todo = [] ∧ s.appended = [] ∧ s.calls = 0 ∧ s.days = 0 ∧
    ∃ clock opened, Log.init (bytes "./ServerLog") 200 800000 0 clock opened = .ok (opened, s.log)
  step s i s' := s.Enabled closeLog i ∧ s.exec closeLog i = .ok s'

namespace Logged

section
variable {closeLog : Int} {s s' : Logged}

/-! ## One call of `write_log` -/

/-- What the first section does where no line has been counted. -/
theorem enter_cases {clock : Clock} {opened : Bool} (hcount : s.log.count = 0) (hsplit : s.log.splitLines = 800000)
    (h : s.enter clock opened = .ok s') :
    s'.todo = s.todo ∧ s'.loop = s.loop ∧ s'.appended = s.appended ∧ s'.calls = s.calls + 1 ∧
      s'.log.splitLines = 800000 ∧
      ((s.log.rotates clock = true ∧ s'.days = s.days + 1 ∧ s'.log.locked = s.log.locked ∧ s'.log.count = 0) ∨
        (s.log.rotates clock = false ∧ s'.days = s.days ∧ s'.log.locked = true)) := by
  have hmod : (s.log.count + 1).tmod s.log.splitLines ≠ 0 := by
    rw [hcount, hsplit]
    decide
  obtain ⟨log, hlog, hs'⟩ := bind_eq_ok.mp h
  cases hs'
  by_cases hday : s.log.today = clock.mday
  · have hrotates : s.log.rotates clock = false := decide_eq_false fun hor => hor.elim (fun hne => hne hday) hmod
    rw [Log.enter, hrotates, if_neg Bool.false_ne_true] at hlog
    cases hlog
    refine ⟨rfl, rfl, rfl, rfl, hsplit, .inr ⟨hrotates, ?_, rfl⟩⟩
    simp only [if_neg (not_not.mpr hday), Nat.add_zero]
  · have hrotates : s.log.rotates clock = true := decide_eq_true (.inl hday)
    rw [Log.enter, hrotates, if_pos rfl] at hlog
    split at hlog
    · cases hlog
    · cases hlog
      refine ⟨rfl, rfl, rfl, rfl, hsplit, .inl ⟨hrotates, ?_, rfl, rfl⟩⟩
      simp only [if_pos (show s.log.today ≠ clock.mday from hday)]

/-! ## Requests and days -/

/-- What the main thread still comes to without a `LOG_*` that has to come back. -/
def ahead (s : Logged) : List Act := s.todo.takeWhile fun a => !a.stops s.log.locked

/-- **The invariant**, with the log on. Each `write_log` but the one that kept `m_mutex` has found another day, and
    so has one for each request that was given to the workers or is about to be. -/
structure Daily (s : Logged) : Prop where
  split : s.log.splitLines = 800000
  free : s.log.locked = false → s.log.count = 0 ∧ s.calls = s.days
  kept : s.log.locked = true → s.calls = s.days + 1
  one : s.todo.countP Act.appends ≤ 1
  allowed : s.appended.length + s.ahead.countP Act.appends ≤ s.days

theorem mem_logInfo {a : Act} : a ∈ logInfo closeLog ↔ closeLog = 0 ∧ a = .log := by
  unfold logInfo
  split <;> simp [*]

theorem mem_behind {e : Event} {a : Act} (h : a ∈ s.behind closeLog e) : closeLog = 0 ∧ a = .log := by
  unfold behind at h
  split at h
  · split at h
    · exact mem_logInfo.mp h
    · cases h
  · split at h
    · exact mem_logInfo.mp h
    · cases h
  · split at h
    · exact mem_logInfo.mp h
    · cases h
  all_goals exact mem_logInfo.mp h

theorem mem_before {e : Event} {a : Act} (h : a ∈ before closeLog e) :
    closeLog = 0 ∧ a = .log ∨ a.appends = true := by
  unfold before at h
  split at h
  · rcases List.mem_append.mp h with h | h
    · exact .inl (mem_logInfo.mp h)
    · exact .inr (List.mem_singleton.mp h ▸ rfl)
  · exact .inl (mem_logInfo.mp h)
  · cases h

/-- Whether a request was read. -/
def reads : Event → Bool
  | .read _ true _ => true
  | _ => false

/-- A handler gives the workers a request if one was read. -/
theorem appends_handler (s : Logged) (e : Event) :
    (s.handler closeLog e).countP Act.appends = if reads e then 1 else 0 := by
  have hlog : (logInfo closeLog).countP Act.appends = 0 :=
    List.countP_eq_zero.mpr fun a ha => (mem_logInfo.mp ha).2 ▸ Bool.false_ne_true
  have hbehind : (s.behind closeLog e).countP Act.appends = 0 :=
    List.countP_eq_zero.mpr fun a ha => (mem_behind ha).2 ▸ Bool.false_ne_true
  have hbefore : (before closeLog e).countP Act.appends = if reads e then 1 else 0 := by
    unfold before
    split
    · rw [List.countP_append, hlog]
      rfl
    · rw [hlog]
      rfl
    · rename_i hread _
      cases e with
      | read sockfd readOnce cur =>
        cases readOnce with
        | true => exact absurd rfl (hread sockfd cur)
        | false => rfl
      | connect connfd p cur | hangup sockfd | write sockfd write cur | alarm cur => rfl
  rw [handler, List.countP_append, List.countP_cons, hbehind, hbefore]
  rfl

theorem appends_takeWhile (p : Act → Bool) (l : List Act) :
    (l.takeWhile p).countP Act.appends ≤ l.countP Act.appends :=
  (List.takeWhile_sublist p).countP_le

/-- With the log on, it is behind a `LOG_*`. -/
theorem appends_before_log (s : Logged) (e : Event) (locked : Bool) :
    ((s.handler 0 e).takeWhile fun a => !a.stops locked).countP Act.appends = 0 := by
  by_cases hread : ∃ sockfd cur, e = .read sockfd true cur
  · obtain ⟨sockfd, cur, rfl⟩ := hread
    rfl
  · have hnone : (s.handler 0 e).countP Act.appends = 0 := by
      rw [appends_handler]
      cases e with
      | read sockfd readOnce cur =>
        cases readOnce with
        | true => exact absurd ⟨sockfd, cur, rfl⟩ hread
        | false => rfl
      | connect connfd p cur | hangup sockfd | write sockfd write cur | alarm cur => rfl
    exact Nat.eq_zero_of_le_zero (hnone ▸ appends_takeWhile _ _)

theorem ahead_cons {a : Act} (hhead : s.todo.head? = some a) (ha : a.stops s.log.locked = false) :
    s.ahead = a :: s.todo.tail.takeWhile fun a => !a.stops s.log.locked := by
  obtain ⟨rest, htodo⟩ := List.head?_eq_some_iff.mp hhead
  rw [ahead, htodo, List.takeWhile_cons_of_pos (by rw [ha]; rfl), List.tail_cons]

/-- A mutex that is kept brings the main thread no further. -/
theorem appends_kept (l : List Act) (locked : Bool) :
    (l.takeWhile fun a => !a.stops true).countP Act.appends ≤
      (l.takeWhile fun a => !a.stops locked).countP Act.appends := by
  induction l with
  | nil => exact Nat.le_refl _
  | cons a l ih =>
    rw [List.takeWhile_cons, List.takeWhile_cons]
    cases ha : a.stops true with
    | true => exact Nat.zero_le _
    | false =>
      have ha' : a.stops locked = false := by
        unfold Act.stops at ha ⊢
        have hno := of_decide_eq_false ha
        exact decide_eq_false fun hor => hno (hor.imp id fun hand => ⟨rfl, hand.2⟩)
      rw [ha', Bool.not_false, if_pos rfl, if_pos rfl, List.countP_cons, List.countP_cons]
      exact Nat.add_le_add_right ih _

theorem Daily.start (hs : (logged 0).start s) : Daily s := by
  obtain ⟨-, htodo, happended, hcalls, hdays, clock, opened, hinit⟩ := hs
  have hlog : s.log.splitLines = 800000 ∧ s.log.count = 0 ∧ s.log.locked = false := by
    unfold Log.init at hinit
    split at hinit
    · rw [← (Prod.mk.inj (Except.ok.inj hinit)).2]
      exact ⟨rfl, rfl, rfl⟩
    · simp only at hinit
      split at hinit
      · cases hinit
      · rw [← (Prod.mk.inj (Except.ok.inj hinit)).2]
        exact ⟨rfl, rfl, rfl⟩
  obtain ⟨hsplit, hcount, hlocked⟩ := hlog
  refine ⟨hsplit, fun _ => ⟨hcount, hcalls.trans hdays.symm⟩, fun hkept => ?_, ?_, ?_⟩
  · rw [hlocked] at hkept
    cases hkept
  · rw [htodo]
    exact Nat.zero_le 1
  · rw [ahead, htodo, happended]
    exact Nat.zero_le _

/-- The handler goes on with what takes no `LOG_*`. -/
theorem Daily.tail (h : Daily s) {a : Act} (hhead : s.todo.head? = some a) (ha : a.stops s.log.locked = false)
    (htodo : s'.todo = s.todo.tail) (hlog : s'.log = s.log) (hcalls : s'.calls = s.calls) (hdays : s'.days = s.days)
    (happended : s'.appended.length = s.appended.length + if a.appends then 1 else 0) : Daily s' := by
  have hone := h.one
  have hallowed := h.allowed
  have hahead' : s'.ahead = s.todo.tail.takeWhile fun a => !a.stops s.log.locked := by rw [ahead, htodo, hlog]
  rw [ahead_cons hhead ha, List.countP_cons] at hallowed
  refine ⟨hlog ▸ h.split, ?_, ?_, ?_, ?_⟩
  · rw [hlog, hcalls, hdays]
    exact h.free
  · rw [hlog, hcalls, hdays]
    exact h.kept
  · rw [htodo]
    exact Nat.le_trans (List.tail_sublist _).countP_le hone
  · rw [hahead', happended, hdays]
    omega

/-- **One step.** -/
theorem Daily.step (h : Daily s) {i : Step} (hstep : (logged 0).step s i s') : Daily s' := by
  obtain ⟨he, hexec⟩ := hstep
  cases i with
  | begin e =>
    cases hexec
    have hone : (s.handler 0 e).countP Act.appends ≤ 1 := by
      rw [appends_handler]
      split
      · exact Nat.le_refl 1
      · exact Nat.zero_le 1
    refine ⟨h.split, h.free, h.kept, hone, ?_⟩
    have hnone := s.appends_before_log e s.log.locked
    have hallowed := h.allowed
    change s.appended.length + ((s.handler 0 e).takeWhile fun a => !a.stops s.log.locked).countP Act.appends ≤ s.days
    omega
  | complain =>
    cases hexec
    refine ⟨h.split, h.free, h.kept, Nat.zero_le 1, ?_⟩
    exact Nat.le_trans (Nat.le_add_right _ _) h.allowed
  | log clock opened =>
    obtain ⟨hhead, hfree, -⟩ := he
    obtain ⟨hcount, hcalls⟩ := h.free hfree
    obtain ⟨u, henter, hs'⟩ := bind_eq_ok.mp hexec
    cases hs'
    obtain ⟨htodo, -, happended, hcalls', hsplit, hcase⟩ := enter_cases hcount h.split henter
    have hallowed := h.allowed
    have htail := Nat.le_trans (List.tail_sublist s.todo).countP_le h.one
    rcases hcase with ⟨hrotates, hdays, hlocked, hcount'⟩ | ⟨hrotates, hdays, hlocked⟩
    · have hrest : (([.format, .fputs] : List Act) ++ .flush :: s.todo.tail).countP Act.appends ≤ 1 := htail
      refine ⟨hsplit, fun _ => ⟨hcount', by rw [hcalls', hdays, hcalls]⟩, fun hkept => ?_, ?_, ?_⟩
      · rw [show u.log.locked = false from hlocked.trans hfree] at hkept
        cases hkept
      · simp only [hrotates, if_true, htodo]
        exact hrest
      · simp only [ahead, hrotates, if_true, htodo]
        have hle := appends_takeWhile (fun a => !a.stops u.log.locked) ([.format, .fputs] ++ .flush :: s.todo.tail)
        rw [happended, hdays]
        omega
    · refine ⟨hsplit, fun hopen => ?_, fun _ => by rw [hcalls', hdays, hcalls], ?_, ?_⟩
      · rw [show u.log.locked = true from hlocked] at hopen
        cases hopen
      · simp only [hrotates, Bool.false_eq_true, if_false, htodo]
        exact htail
      · simp only [ahead, hrotates, Bool.false_eq_true, if_false, htodo, hlocked]
        rw [happended, hdays]
        exact Nat.le_trans (Nat.le_add_right _ _) hallowed
  | format =>
    cases hexec
    exact h.tail he.1 (by rw [he.2]; rfl) rfl rfl rfl rfl rfl
  | fputs =>
    simp only [exec] at hexec
    split at hexec
    · cases hexec
    · cases hexec
      exact h.tail he.1 (by rw [he.2]; rfl) rfl rfl rfl rfl rfl
  | flush =>
    cases hexec
    exact h.tail he.1 (by rw [he.2]; rfl) rfl rfl rfl rfl rfl
  | append sockfd =>
    cases hexec
    exact h.tail he (decide_eq_false fun hor => hor.elim (fun heq => by cases heq) fun hand => by cases hand.2)
      rfl rfl rfl rfl rfl
  | run e =>
    obtain ⟨loop, -, hs'⟩ := bind_eq_ok.mp hexec
    cases hs'
    exact h.tail he (decide_eq_false fun hor => hor.elim (fun heq => by cases heq) fun hand => by cases hand.2)
      rfl rfl rfl rfl rfl
  | worker clock opened =>
    obtain ⟨-, hfree, -⟩ := he
    obtain ⟨hcount, hcalls⟩ := h.free hfree
    obtain ⟨htodo, -, happended, hcalls', hsplit, hcase⟩ := enter_cases hcount h.split hexec
    have hallowed := h.allowed
    rcases hcase with ⟨-, hdays, hlocked, hcount'⟩ | ⟨-, hdays, hlocked⟩
    · refine ⟨hsplit, fun _ => ⟨hcount', by rw [hcalls', hdays, hcalls]⟩, fun hkept => ?_, htodo ▸ h.one, ?_⟩
      · rw [hlocked, hfree] at hkept
        cases hkept
      · rw [ahead, htodo, hlocked, happended, hdays]
        exact Nat.le_succ_of_le hallowed
    · refine ⟨hsplit, fun hopen => ?_, fun _ => by rw [hcalls', hdays, hcalls], htodo ▸ h.one, ?_⟩
      · rw [hlocked] at hopen
        cases hopen
      · rw [ahead, htodo, hlocked, happended, hdays]
        exact Nat.le_trans (Nat.add_le_add_left (appends_kept s.todo s.log.locked) _) hallowed

theorem daily (h : (logged 0).Reachable s) : Daily s := h.invariant Daily.start fun ht hstep => ht.step hstep

/-! ## A mutex that is kept -/

/-- Nobody begins a `write_log`, and a handler before a section that takes the mutex stays there. -/
theorem waits {h : List Step} (hlocked : s.log.locked = true) (hrun : (logged closeLog).Run s h s') :
    s'.log.locked = true ∧ s'.calls = s.calls ∧
      ((∃ a ∈ s.todo.head?, a.locks = true) →
        s'.loop = s.loop ∧ s'.todo = s.todo ∧ s'.appended = s.appended) := by
  refine hrun.invariant (I := fun _ t => t.log.locked = true ∧ t.calls = s.calls ∧
    ((∃ a ∈ s.todo.head?, a.locks = true) → t.loop = s.loop ∧ t.todo = s.todo ∧ t.appended = s.appended))
    ?_ ⟨hlocked, rfl, fun _ => ⟨rfl, rfl, rfl⟩⟩
  rintro - t i u ⟨ht, hcalls, hstays⟩ ⟨he, hexec⟩
  have hopen : t.log.locked ≠ false := by
    rw [ht]
    exact Bool.noConfusion
  -- a step of the handler is no step before such a section
  have hgone : ∀ {a : Act}, t.todo.head? = some a → a.locks = false →
      ¬ ∃ a ∈ s.todo.head?, a.locks = true := by
    rintro a hhead ha ⟨b, hb, hlocks⟩
    rw [(hstays ⟨b, hb, hlocks⟩).2.1, Option.mem_def.mp hb] at hhead
    cases hhead
    rw [ha] at hlocks
    cases hlocks
  have hempty : t.todo = [] → ¬ ∃ a ∈ s.todo.head?, a.locks = true := by
    rintro hnil ⟨b, hb, hlocks⟩
    rw [← (hstays ⟨b, hb, hlocks⟩).2.1, hnil] at hb
    cases hb
  cases i with
  | begin e =>
    cases hexec
    exact ⟨ht, hcalls, fun hb => absurd hb (hempty he.1)⟩
  | complain =>
    cases hexec
    exact ⟨ht, hcalls, fun hb => absurd hb (hempty he)⟩
  | log clock opened => exact absurd he.2.1 hopen
  | format => exact absurd he.2 hopen
  | fputs => exact absurd he.2 hopen
  | flush => exact absurd he.2 hopen
  | append sockfd =>
    cases hexec
    exact ⟨ht, hcalls, fun hb => absurd hb (hgone he rfl)⟩
  | run e =>
    obtain ⟨loop, -, hu⟩ := bind_eq_ok.mp hexec
    cases hu
    exact ⟨ht, hcalls, fun hb => absurd hb (hgone he rfl)⟩
  | worker clock opened => exact absurd he.2.1 hopen

/-- **Requests and days.** With the log on, the workers are given at most one request for each `write_log` that found
    another day than the one before it. There is at most one `write_log` besides, and that is the last of all
    threads: when the main thread comes to its next section of one, it stays there. -/
theorem requests_le_days {s : Logged} (h : (logged 0).Reachable s) :
    s.appended.length ≤ s.days ∧ s.calls ≤ s.days + 1 ∧
      (s.calls = s.days + 1 → ∀ h' t, (logged 0).Run s h' t →
        t.calls = s.calls ∧ ((∃ a ∈ s.todo.head?, a.locks = true) →
          t.loop = s.loop ∧ t.todo = s.todo ∧ t.appended = s.appended)) := by
  have hdaily := daily h
  have hallowed := hdaily.allowed
  have hcalls : s.log.locked = false ∧ s.calls = s.days ∨ s.log.locked = true ∧ s.calls = s.days + 1 := by
    cases hlocked : s.log.locked with
    | false => exact .inl ⟨rfl, (hdaily.free hlocked).2⟩
    | true => exact .inr ⟨rfl, hdaily.kept hlocked⟩
  refine ⟨by omega, by omega, fun hlast h' t hrun => ?_⟩
  have hlocked : s.log.locked = true := by
    rcases hcalls with ⟨-, hsame⟩ | ⟨hlocked, -⟩
    · omega
    · exact hlocked
  exact (waits hlocked hrun).2

/-- The last day of a month, and the server that is started on it. -/
def firstDay : Clock := ⟨2024, 1, 31, 23, 59, 50, 0⟩

def boot : Logged where
  loop := idle
  log := .fresh (bytes "./") (bytes "ServerLog") (bytes "./" ++ firstDay.day ++ bytes "ServerLog") 200 800000 0
    firstDay true
  todo := []
  appended := []
  calls := 0
  days := 0

theorem boot_start (closeLog : Int) : (logged closeLog).start boot :=
  ⟨⟨rfl, rfl, rfl, rfl⟩, rfl, rfl, rfl, rfl, firstDay, true, rfl⟩

/-- The state some steps lead to, the last first. -/
def after (closeLog : Int) (h : List Step) : Option Logged :=
  System.follow (exec closeLog) (fun s i => decide (s.Enabled closeLog i)) boot h

theorem run_of_after {h : List Step} (hs : after closeLog h = some s) : (logged closeLog).Run boot h s :=
  System.Run.of_follow (fun _ _ _ hok hexec => And.intro (of_decide_eq_true hok) hexec) hs

end

/-- A client connects and sends a request a moment later: the main thread does not come to giving it to a worker. -/
theorem requests_le_days_first : ∃ s, after 0 [.log firstDay true, .begin (.read 7 true 1), .run (.connect 7 1 0),
      .begin (.connect 7 1 0)] = some s ∧
    s.appended.length ≤ s.days ∧ s.calls ≤ s.days + 1 ∧
      (s.calls = s.days + 1 → ∀ h' t, (logged 0).Run s h' t →
        t.calls = s.calls ∧ ((∃ a ∈ s.todo.head?, a.locks = true) →
          t.loop = s.loop ∧ t.todo = s.todo ∧ t.appended = s.appended)) := by
  obtain ⟨s, hs⟩ : ∃ s, after 0 [.log firstDay true, .begin (.read 7 true 1), .run (.connect 7 1 0),
      .begin (.connect 7 1 0)] = some s := Option.isSome_iff_exists.mp (by decide)
  exact ⟨s, hs, requests_le_days ⟨boot, _, boot_start 0, run_of_after hs⟩⟩

/-! ## The loop without its log -/

/-- What is seen of a step by who sees the events only. -/
def observed : Step → Option Event
  | .run e => some e
  | _ => none

def Step.reads : Step → Bool
  | .begin e => Logged.reads e
  | _ => false

end Logged

def Act.runs : Act → Bool
  | .run _ => true
  | _ => false

namespace Logged

/-- What a handler has left to do is as the event was when it was taken up. -/
structure Pending (closeLog : Int) (s : Logged) : Prop where
  enabled : ∀ e, .run e ∈ s.todo → s.loop.Enabled e
  once : s.todo.countP Act.runs ≤ 1
  silent : closeLog ≠ 0 → ∀ a ∈ s.todo, a.locks = false

section
variable {closeLog : Int} {s s' : Logged}

/-- A handler runs its event once, and no other. -/
theorem mem_handler {e : Event} {a : Act} (h : a ∈ s.handler closeLog e) :
    a = .run e ∨ a.runs = false ∧ (closeLog ≠ 0 → a.locks = false) := by
  rcases List.mem_append.mp h with h | h
  · rcases mem_before h with ⟨hopen, rfl⟩ | happends
    · exact .inr ⟨rfl, fun hclosed => absurd hopen hclosed⟩
    · cases a with
      | append sockfd => exact .inr ⟨rfl, fun _ => rfl⟩
      | log | format | fputs | flush | run e => cases happends
  · rcases List.mem_cons.mp h with rfl | h
    · exact .inl rfl
    · obtain ⟨hopen, rfl⟩ := mem_behind h
      exact .inr ⟨rfl, fun hclosed => absurd hopen hclosed⟩

theorem runs_handler (s : Logged) (e : Event) : (s.handler closeLog e).countP Act.runs = 1 := by
  have hbefore : (before closeLog e).countP Act.runs = 0 := by
    refine List.countP_eq_zero.mpr fun a ha => ?_
    rcases mem_before ha with ⟨-, rfl⟩ | happends
    · exact Bool.false_ne_true
    · cases a with
      | append sockfd => exact Bool.false_ne_true
      | log | format | fputs | flush | run e => cases happends
  have hbehind : (s.behind closeLog e).countP Act.runs = 0 :=
    List.countP_eq_zero.mpr fun a ha => (mem_behind ha).2 ▸ Bool.false_ne_true
  rw [handler, List.countP_append, List.countP_cons, hbefore, hbehind]
  rfl

/-- The handler goes on. -/
theorem Pending.tail (h : Pending closeLog s) {a : Act} (hhead : s.todo.head? = some a)
    (htodo : s'.todo = s.todo.tail) (hloop : s'.loop = s.loop ∨ a.runs = true) : Pending closeLog s' := by
  obtain ⟨rest, hrest⟩ := List.head?_eq_some_iff.mp hhead
  have hone := h.once
  rw [hrest, List.tail_cons] at htodo
  rw [hrest, List.countP_cons] at hone
  refine ⟨fun e he => ?_, ?_, fun hclosed b hb => ?_⟩
  · rw [htodo] at he
    rcases hloop with hloop | hruns
    · rw [hloop]
      exact h.enabled e (hrest ▸ List.mem_cons_of_mem _ he)
    · rw [if_pos hruns] at hone
      have hpos : 0 < rest.countP Act.runs := List.countP_pos_iff.mpr ⟨_, he, rfl⟩
      omega
  · rw [htodo]
    omega
  · rw [htodo] at hb
    exact h.silent hclosed b (hrest ▸ List.mem_cons_of_mem _ hb)

/-- The first section of a `write_log`, whatever it finds. -/
theorem enter_frame {clock : Clock} {opened : Bool} (h : s.enter clock opened = .ok s') :
    s'.todo = s.todo ∧ s'.loop = s.loop ∧ s'.appended = s.appended := by
  obtain ⟨log, -, hs'⟩ := bind_eq_ok.mp h
  cases hs'
  exact ⟨rfl, rfl, rfl⟩

/-- **One step**, with what is seen of it, and the requests that were read. -/
theorem Pending.step (h : Pending closeLog s) {i : Step} (hstep : (logged closeLog).step s i s') :
    Pending closeLog s' ∧ eventLoop.stepIf s.loop (observed i) s'.loop ∧
      s'.appended.length + s'.todo.countP Act.appends =
        s.appended.length + s.todo.countP Act.appends + if i.reads then 1 else 0 := by
  obtain ⟨he, hexec⟩ := hstep
  -- what all steps of a handler but the first share
  have hcount : ∀ {a : Act}, s.todo.head? = some a →
      s.todo.countP Act.appends = s.todo.tail.countP Act.appends + if a.appends then 1 else 0 := by
    intro a hhead
    obtain ⟨rest, hrest⟩ := List.head?_eq_some_iff.mp hhead
    rw [hrest, List.countP_cons, List.tail_cons]
  cases i with
  | begin e =>
    cases hexec
    refine ⟨⟨fun e' he' => ?_, (s.runs_handler e).le, fun hclosed a ha => ?_⟩, rfl, ?_⟩
    · rcases mem_handler he' with heq | ⟨hruns, -⟩
      · cases heq
        exact he.2
      · cases hruns
    · rcases mem_handler ha with rfl | ⟨-, hlocks⟩
      · rfl
      · exact hlocks hclosed
    · change s.appended.length + (s.handler closeLog e).countP Act.appends = _
      rw [appends_handler, he.1]
      rfl
  | complain =>
    cases hexec
    refine ⟨⟨fun e' he' => ?_, ?_, fun hclosed a ha => absurd (mem_logInfo.mp ha).1 hclosed⟩, rfl, ?_⟩
    · cases (mem_logInfo.mp he').2
    · refine Nat.le_trans (List.countP_eq_zero.mpr fun a ha => ?_).le (Nat.zero_le 1)
      exact (mem_logInfo.mp ha).2 ▸ Bool.false_ne_true
    · have hnone : (logInfo closeLog).countP Act.appends = 0 :=
        List.countP_eq_zero.mpr fun a ha => (mem_logInfo.mp ha).2 ▸ Bool.false_ne_true
      change s.appended.length + (logInfo closeLog).countP Act.appends = _
      rw [hnone, show s.todo = [] from he]
      rfl
  | log clock opened =>
    obtain ⟨rest, hrest⟩ := List.head?_eq_some_iff.mp he.1
    obtain ⟨u, henter, hs'⟩ := bind_eq_ok.mp hexec
    cases hs'
    obtain ⟨htodo, hloop, happended⟩ := enter_frame henter
    have htail : u.todo.tail = rest := by rw [htodo, hrest, List.tail_cons]
    have hopen : ¬ closeLog ≠ 0 := fun hclosed =>
      absurd (h.silent hclosed .log (hrest ▸ List.mem_cons_self)) Bool.noConfusion
    have hone := h.once
    rw [hrest, List.countP_cons] at hone
    simp only [htail]
    refine ⟨⟨fun e he' => ?_, ?_, fun hclosed => absurd hclosed hopen⟩, hloop, ?_⟩
    · have hmem : .run e ∈ rest := by
        rcases List.mem_append.mp he' with he' | he'
        · split at he' <;> simp at he'
        · rcases List.mem_cons.mp he' with he' | he'
          · cases he'
          · exact he'
      rw [hloop]
      exact h.enabled e (hrest ▸ List.mem_cons_of_mem _ hmem)
    · split <;> exact hone
    · rw [happended, hcount he.1, hrest, List.tail_cons]
      split <;> rfl
  | format | flush =>
    cases hexec
    refine ⟨h.tail he.1 rfl (.inl rfl), rfl, ?_⟩
    rw [hcount he.1]
    rfl
  | fputs =>
    simp only [exec] at hexec
    split at hexec
    · cases hexec
    · cases hexec
      refine ⟨h.tail he.1 rfl (.inl rfl), rfl, ?_⟩
      rw [hcount he.1]
      rfl
  | append sockfd =>
    cases hexec
    refine ⟨h.tail he rfl (.inl rfl), rfl, ?_⟩
    rw [hcount he, List.length_cons]
    simp only [Act.appends, if_true, Step.reads, Bool.false_eq_true, if_false]
    omega
  | run e =>
    obtain ⟨loop, hloop, hs'⟩ := bind_eq_ok.mp hexec
    cases hs'
    obtain ⟨rest, hrest⟩ := List.head?_eq_some_iff.mp he
    refine ⟨h.tail he rfl (.inr rfl), ⟨h.enabled e (hrest ▸ List.mem_cons_self), hloop⟩, ?_⟩
    rw [hcount he]
    rfl
  | worker clock opened =>
    obtain ⟨htodo, hloop, happended⟩ := enter_frame hexec
    refine ⟨⟨?_, htodo ▸ h.once, htodo ▸ h.silent⟩, hloop, ?_⟩
    · rw [htodo, hloop]
      exact h.enabled
    · rw [htodo, happended]
      rfl

/-- Every run of the loop is one of the loop without its log. -/
theorem pending {s₀ : Logged} {h : List Step} (hstart : (logged closeLog).start s₀)
    (hrun : (logged closeLog).Run s₀ h s) :
    Pending closeLog s ∧ eventLoop.Run s₀.loop (h.filterMap observed) s.loop ∧
      s.appended.length + s.todo.countP Act.appends = h.countP Step.reads := by
  refine hrun.invariant (I := fun h t =>
    Pending closeLog t ∧ eventLoop.Run s₀.loop (h.filterMap observed) t.loop ∧
      t.appended.length + t.todo.countP Act.appends = h.countP Step.reads) ?_ ?_
  · rintro h t i u ⟨ht, hloop, hcount⟩ hstep
    obtain ⟨hu, hseen, hcount'⟩ := ht.step hstep
    refine ⟨hu, ?_, ?_⟩
    · cases hi : observed i with
      | none =>
        rw [hi] at hseen
        rw [List.filterMap_cons_none hi, show u.loop = t.loop from hseen]
        exact hloop
      | some e =>
        rw [hi] at hseen
        rw [List.filterMap_cons_some hi]
        exact .step hloop hseen
    · rw [hcount', hcount, List.countP_cons]
  · obtain ⟨-, htodo, happended, -⟩ := hstart
    refine ⟨⟨fun e he => ?_, ?_, fun _ a ha => ?_⟩, .nil _, ?_⟩
    · rw [htodo] at he
      cases he
    · rw [htodo]
      exact Nat.zero_le 1
    · rw [htodo] at ha
      cases ha
    · rw [htodo, happended]
      rfl

/-- What the main thread may do, it does without a fault, as long as there is a stream. -/
theorem Pending.exec (h : Pending closeLog s) (hreach : eventLoop.Reachable s.loop) {i : Step}
    (he : s.Enabled closeLog i) : (∃ s', s.exec closeLog i = .ok s') ∨ s.log.fp = none := by
  have henter : ∀ clock opened, (∃ u, s.enter clock opened = .ok u) ∨ s.log.fp = none := by
    intro clock opened
    by_cases hstream : s.log.fp = none
    · exact .inr hstream
    · refine .inl ?_
      unfold enter Log.enter
      rw [if_neg hstream]
      split <;> exact ⟨_, rfl⟩
  cases i with
  | begin e | complain | format | flush | append sockfd => exact .inl ⟨_, rfl⟩
  | fputs =>
    by_cases hstream : s.log.fp = none
    · exact .inr hstream
    · exact .inl ⟨_, if_neg hstream⟩
  | log clock opened =>
    rcases henter clock opened with ⟨u, hu⟩ | hstream
    · exact .inl ⟨_, bind_eq_ok.mpr ⟨u, hu, rfl⟩⟩
    · exact .inr hstream
  | worker clock opened => exact henter clock opened
  | run e =>
    obtain ⟨rest, hrest⟩ := List.head?_eq_some_iff.mp he
    obtain ⟨l, hacc⟩ := reachable_accounts hreach
    obtain ⟨w, hw, -⟩ := hacc.exec (h.enabled e (hrest ▸ List.mem_cons_self))
    exact .inl ⟨_, bind_eq_ok.mpr ⟨w, hw, rfl⟩⟩

/-- With the log off, a handler goes on. -/
theorem Pending.goes (h : Pending closeLog s) (hreach : eventLoop.Reachable s.loop) (hclosed : closeLog ≠ 0)
    (hleft : s.todo ≠ []) : ∃ i s', (logged closeLog).step s i s' ∧ s'.todo = s.todo.tail := by
  obtain ⟨a, rest, hrest⟩ := List.exists_cons_of_ne_nil hleft
  have hhead : s.todo.head? = some a := by rw [hrest, List.head?_cons]
  have hfree := h.silent hclosed a (hrest ▸ List.mem_cons_self)
  cases a with
  | log | format | fputs | flush => cases hfree
  | append sockfd => exact ⟨.append sockfd, _, ⟨hhead, rfl⟩, rfl⟩
  | run e =>
    obtain ⟨l, hacc⟩ := reachable_accounts hreach
    obtain ⟨w, hw, -⟩ := hacc.exec (h.enabled e (hrest ▸ List.mem_cons_self))
    exact ⟨.run e, _, ⟨hhead, bind_eq_ok.mpr ⟨w, hw, rfl⟩⟩, rfl⟩

/-- **The loop with its log refines the loop without.** In every run what the handlers have done to connections and
    timers is a run of `eventLoop`; each request that was read has been given to the workers, once, or is about to
    be; no step has a fault, unless `fopen` had failed. With the log off the main thread never waits in a handler. -/
theorem run_unlogged {closeLog : Int} {s₀ s : Logged} {h : List Step} (hstart : (logged closeLog).start s₀)
    (hrun : (logged closeLog).Run s₀ h s) :
    eventLoop.Run s₀.loop (h.filterMap observed) s.loop ∧
      s.appended.length + s.todo.countP Act.appends = h.countP Step.reads ∧
      (∀ i, s.Enabled closeLog i → (∃ s', s.exec closeLog i = .ok s') ∨ s.log.fp = none) ∧
      (closeLog ≠ 0 → s.todo ≠ [] → ∃ i s', (logged closeLog).step s i s' ∧ s'.todo = s.todo.tail) := by
  obtain ⟨hpending, hloop, hcount⟩ := pending hstart hrun
  have hreach : eventLoop.Reachable s.loop := ⟨s₀.loop, _, hstart.1, hloop⟩
  exact ⟨hloop, hcount, fun i he => hpending.exec hreach he, hpending.goes hreach⟩

end

/-- A client connects and sends a request, with the log off. -/
theorem run_unlogged_read : ∃ s, after 1 [.run (.read 7 true 1), .append 7, .begin (.read 7 true 1),
      .run (.connect 7 1 0), .begin (.connect 7 1 0)] = some s ∧
    eventLoop.Run idle [.read 7 true 1, .connect 7 1 0] s.loop ∧
      s.appended.length + s.todo.countP Act.appends = 1 := by
  obtain ⟨s, hs⟩ : ∃ s, after 1 [.run (.read 7 true 1), .append 7, .begin (.read 7 true 1), .run (.connect 7 1 0),
      .begin (.connect 7 1 0)] = some s := Option.isSome_iff_exists.mp (by decide)
  have hrun := run_unlogged (boot_start 1) (run_of_after hs)
  exact ⟨s, hs, hrun.1, hrun.2.1⟩

end Logged

end WebServer
end LinuxServer
