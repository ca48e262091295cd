import LinuxServer.WebServer.Connections
import LinuxServer.WebServer.Listen

/-!
# `WebServer/Signals.lean` — `alarm`, the two signals, and the pipe that carries them into the loop

`tick()` is called because a byte has gone a long way: `alarm(TIMESLOT)` makes the kernel send SIGALRM,
`sig_handler` sends one byte down `m_pipefd`, the pipe's end is reported by `epoll_wait`, `dealwithsignal`
sets `timeout`, and `timer_handler` behind the batch calls `tick()` and then `alarm` again. Nothing sets a
second alarm, so one byte that is lost on the way is the last. SIGTERM takes the same way as far as
`stop_server`.

A signal is delivered between any two steps of the main thread, and the handler's `send` does not block:
into a pipe that is full it sends nothing. The kernel sends SIGALRM for `alarm` only, once and not before its
time; SIGTERM is sent by whoever likes. `signalled` is the main thread from the first `addsig` of
`eventListen` on, among these; what it does to connections and timers is `eventLoop`'s.
-/

set_option autoImplicit false

namespace LinuxServer
namespace WebServer

/-- The signals that are handled by `sig_handler`. -/
inductive Signal
  | sigalrm
  | sigterm
  deriving DecidableEq, Repr

/-- What `eventListen` does at its end: `addsig(sig, utils.sig_handler, false)`, `alarm(TIMESLOT)` and
    `Utils::u_pipefd = m_pipefd`. -/
inductive Setup
  | addsig (sig : Signal)
  | alarm
  | pipefd
  deriving DecidableEq, Repr

def eventListen : List Setup := [.addsig .sigalrm, .addsig .sigterm, .alarm, .pipefd]

/-- An event of a client's descriptor, or of `m_listenfd`. -/
def Event.ofClient : Event → Bool
  | .alarm _ => false
  | _ => true

/-- Where the main thread is. -/
inductive Place
  /-- In `eventListen`, with this left to do. -/
  | listening (rest : List Setup)
  /-- In `epoll_wait`. -/
  | waiting
  /-- Among the events it was given; that of `m_pipefd[0]` is still to be dealt with. -/
  | handling (pipe : Bool)
  /-- In `timer_handler`, behind `tick()`. -/
  | ticked
  /-- Behind `timer_handler`. -/
  | rearmed
  /-- Out of the loop. -/
  | stopped
  deriving DecidableEq, Repr

def Place.sets : Place → Bool
  | .listening (_ :: _) => true
  | _ => false

def Place.handles : Place → Bool
  | .handling _ => true
  | _ => false

/-- The first alarm, where it is still to be set. -/
def Place.first : Place → Nat
  | .listening rest => rest.count .alarm
  | _ => 0

/-- `Utils::u_pipefd` is still to be stored. -/
def Place.Unstored : Place → Prop
  | .listening rest => .pipefd ∈ rest
  | _ => False

structure Signalled where
  loop : State
  /-- The bytes in the pipe, and whether one has come since its end was last reported. -/
  pipe : List Signal
  arrived : Bool
  /-- When the alarm that is set is due, in seconds, and what `time(NULL)` answers. -/
  alarm : Option Int
  now : Int
  /-- The signals `sig_handler` is installed for, and whether `Utils::u_pipefd` has been stored. -/
  handled : List Signal
  uPipefd : Bool
  timeout : Bool
  stopServer : Bool
  main : Place

namespace Signalled

/-- `sig_handler(sig)`: `send(u_pipefd[1], &msg, 1, 0)`, on a descriptor that does not block. -/
def sigHandler (capacity : Nat) (s : Signalled) (sig : Signal) : Except Fault Signalled :=
  if s.uPipefd then
    .ok (if s.pipe.length < capacity then { s with pipe := s.pipe ++ [sig], arrived := true } else s)
  else .error .nullPointer

/-- The `switch (signals[i])`. -/
def receive (s : Signalled) : Signal → Signalled
  | .sigalrm => { s with timeout := true }
  | .sigterm => { s with stopServer := true }

/-- `dealwithsignal(timeout, stop_server)`; `signals` has room for 1024 bytes. -/
def dealwithsignal (s : Signalled) : Bool × Signalled :=
  let signals := s.pipe.take 1024
  if signals = [] then (false, s)  -- `recv` answers -1
  else (true, signals.foldl receive { s with pipe := s.pipe.drop 1024 })

def setup (s : Signalled) : Setup → Signalled
  | .addsig sig => { s with handled := sig :: s.handled }
  | .alarm => { s with alarm := some (s.now + timeslot) }
  | .pipefd => { s with uPipefd := true }

/-- Whether an event of `m_pipefd[0]` is pending. -/
def pending (s : Signalled) : Bool := if (Utils.addfd false 0).epollet then s.arrived else s.pipe ≠ []

/-- What happens next: a line of `eventListen`; time passes; a signal is delivered; `epoll_wait` returns,
    with an event of `m_pipefd[0]` or not, or it fails for good; an event of a client is handled, or that of
    `m_pipefd[0]`; behind the events `tick()`, then `alarm`; and the loop goes round. -/
inductive Step
  | setup
  | pass (seconds : Nat)
  | deliver (sig : Signal)
  | report (pipe : Bool)
  | fail
  | event (e : Event)
  | signals
  | tick (cur : Int)
  | rearm
  | next
  deriving DecidableEq, Repr

def exec (capacity : Nat) (s : Signalled) : Step → Except Fault Signalled
  | .setup =>
    match s.main with
    | .listening (line :: rest) => .ok { s.setup line with main := .listening rest }
    | _ => .ok s
  | .pass seconds => .ok { s with now := s.now + seconds }
  | .deliver sig => sigHandler capacity { s with alarm := if sig = .sigalrm then none else s.alarm } sig
  | .report pipe => .ok { s with arrived := !pipe && s.arrived, main := .handling pipe }
  | .fail => .ok { s with main := .stopped }
  | .event e => do
    let loop ← s.loop.exec e
    return { s with loop := loop }
  | .signals => .ok { s.dealwithsignal.2 with main := .handling false }
  | .tick cur => do
    let loop ← s.loop.timerHandler cur
    return { s with loop := loop, main := .ticked }
  | .rearm => .ok { s with alarm := some (s.now + timeslot), main := .rearmed }
  | .next => .ok { s with timeout := false, main := if s.stopServer then .stopped else .waiting }

/-- Before its handler is installed a signal ends the process, and no step follows. -/
def Enabled (s : Signalled) : Step → Prop
  | .setup => s.main.sets = true
  | .pass _ => True
  | .deliver sig => sig ∈ s.handled ∧ (sig = .sigalrm → s.alarm.any (· ≤ s.now) = true)
  | .report pipe => s.main = .waiting ∧ (pipe = true → s.pending = true)
  | .fail => s.main = .waiting
  | .event e => s.main.handles = true ∧ s.loop.Enabled e ∧ e.ofClient = true ∧ ∀ cur ∈ e.time, cur = s.now
  | .signals => s.main = .handling true
  | .tick cur => s.main = .handling false ∧ s.timeout = true ∧ cur = s.now
  | .rearm => s.main = .ticked
  | .next => s.main = .rearmed ∨ s.main = .listening [] ∨ (s.main = .handling false ∧ s.timeout = false)

instance (s : Signalled) : (i : Step) → Decidable (s.Enabled i)
  | .setup | .fail | .signals | .rearm => inferInstanceAs (Decidable (_ = _))
  | .pass _ => .isTrue trivial
  | .deliver _ | .report _ | .event _ | .tick _ => inferInstanceAs (Decidable (_ ∧ _))
  | .next => inferInstanceAs (Decidable (_ ∨ _))

/-- The alarms that are under way: set, in the pipe, noted in `timeout`, or about to be set for the first
    time. -/
def underWay (s : Signalled) : Nat :=
  s.alarm.isSome.toNat + s.pipe.count .sigalrm + (s.timeout && s.main ≠ .rearmed).toNat + s.main.first

end Signalled

/-- The main thread and its signals. -/
def signalled (capacity : Nat) : System Signalled Signalled.Step where
  start s := eventLoop.start s.loop ∧ s.pipe = [] ∧ s.arrived = false ∧ s.alarm = none ∧ s.handled = [] ∧
    s.uPipefd = false ∧ s.timeout = false ∧ s.stopServer = false ∧ s.main = .listening eventListen
  step s i s' := s.Enabled i ∧ s.exec capacity i = .ok s'

namespace Signalled

variable {capacity : Nat} {s s' : Signalled}

/-! ## What a step does -/

@[simp] theorem setup_pipe (s : Signalled) (line : Setup) : (s.setup line).pipe = s.pipe := by cases line <;> rfl

@[simp] theorem setup_arrived (s : Signalled) (line : Setup) : (s.setup line).arrived = s.arrived := by
  cases line <;> rfl

@[simp] theorem setup_timeout (s : Signalled) (line : Setup) : (s.setup line).timeout = s.timeout := by
  cases line <;> rfl

@[simp] theorem setup_stopServer (s : Signalled) (line : Setup) : (s.setup line).stopServer = s.stopServer := by
  cases line <;> rfl

theorem receive_foldl (signals : List Signal) (s : Signalled) : signals.foldl receive s =
    { s with
      timeout := s.timeout || decide (.sigalrm ∈ signals)
      stopServer := s.stopServer || decide (.sigterm ∈ signals) } := by
  induction signals generalizing s with
  | nil => simp
  | cons sig signals ih =>
    rw [List.foldl_cons, ih]
    cases sig <;> simp [receive]

/-- What `dealwithsignal` leaves, whatever it returns. -/
theorem dealwithsignal_snd (s : Signalled) : s.dealwithsignal.2 =
    { s with
      pipe := s.pipe.drop 1024
      timeout := s.timeout || decide (.sigalrm ∈ s.pipe.take 1024)
      stopServer := s.stopServer || decide (.sigterm ∈ s.pipe.take 1024) } := by
  obtain ⟨loop, pipe, arrived, alarm, now, handled, uPipefd, timeout, stopServer, main⟩ := s
  by_cases hnil : pipe.take 1024 = []
  · obtain rfl : pipe = [] := by simpa using hnil
    simp [dealwithsignal]
  · simp only [dealwithsignal, if_neg hnil, receive_foldl]

theorem count_add_count (signals : List Signal) :
    signals.count .sigalrm + signals.count .sigterm = signals.length := by
  induction signals with
  | nil => rfl
  | cons sig signals ih => cases sig <;> simp <;> omega

/-- Among two bytes and more, of which one at most is SIGALRM, there is SIGTERM. -/
theorem sigterm_mem {signals : List Signal} (hone : signals.count .sigalrm ≤ 1) (htwo : 2 ≤ signals.length) :
    .sigterm ∈ signals := by
  by_contra hno
  have hall : ∀ sig ∈ signals, Signal.sigalrm = sig := by
    intro sig hsig
    cases sig with
    | sigalrm => rfl
    | sigterm => exact absurd hsig hno
  have hcount := List.count_eq_length.mpr hall
  omega

/-- The main thread in every run: the flags are as the place says, no byte is left without an event to
    come or being dealt with, and `u_pipefd` is stored before the loop begins. -/
structure Regular (capacity : Nat) (s : Signalled) : Prop where
  one : s.underWay ≤ 1
  flagged : s.timeout = true → s.main.handles = true ∨ s.main = .ticked ∨ s.main = .rearmed
  ticking : s.main = .ticked ∨ s.main = .rearmed → s.timeout = true
  halting : s.stopServer = true →
    s.main = .handling false ∨ s.main = .ticked ∨ s.main = .rearmed ∨ s.main = .stopped
  noticed : s.pipe ≠ [] → s.arrived = true ∨ s.main = .handling true ∨ s.stopServer = true
  room : s.pipe.length ≤ capacity
  stored : s.uPipefd = true ∨ s.main.Unstored

/-- SIGALRM is delivered into a full pipe. -/
def Loses (capacity : Nat) (s : Signalled) (i : Step) : Prop := i = .deliver .sigalrm ∧ capacity ≤ s.pipe.length

instance (s : Signalled) (i : Step) : Decidable (s.Loses capacity i) := inferInstanceAs (Decidable (_ ∧ _))

theorem Regular.start (hs : (signalled capacity).start s) : Regular capacity s := by
  obtain ⟨-, hpipe, -, halarm, -, -, htimeout, hstop, hmain⟩ := hs
  refine ⟨?_, ?_, ?_, ?_, ?_, ?_, ?_⟩
  · simp [underWay, hpipe, halarm, htimeout, hmain, eventListen, Place.first]
  · rw [htimeout]; exact (fun h => by cases h)
  · rw [hmain]; rintro (h | h) <;> cases h
  · rw [hstop]; exact (fun h => by cases h)
  · exact fun h => absurd hpipe h
  · rw [hpipe]; exact Nat.zero_le _
  · rw [hmain]
    exact Or.inr (by simp [Place.Unstored, eventListen])

theorem Regular.timeout_listening (h : Regular capacity s) {rest : List Setup} (hmain : s.main = .listening rest) :
    s.timeout = false := by
  by_contra hset
  have hflag := h.flagged (by simpa using hset)
  simp [hmain, Place.handles] at hflag

/-- What the handler sends. -/
theorem exec_deliver {sig : Signal} (hexec : s.exec capacity (.deliver sig) = .ok s') :
    s.uPipefd = true ∧
      s' = if s.pipe.length < capacity then
          { s with
            alarm := if sig = .sigalrm then none else s.alarm, pipe := s.pipe ++ [sig], arrived := true }
        else { s with alarm := if sig = .sigalrm then none else s.alarm } := by
  simp only [exec, sigHandler] at hexec
  split at hexec
  · rename_i hstored
    cases hexec
    refine ⟨hstored, ?_⟩
    split <;> rfl
  · cases hexec

theorem exec_event {e : Event} (hexec : s.exec capacity (.event e) = .ok s') :
    ∃ w, s.loop.exec e = .ok w ∧ s' = { s with loop := w } := by
  obtain ⟨w, hw, hs'⟩ := bind_eq_ok.mp hexec
  cases hs'
  exact ⟨w, hw, rfl⟩

theorem exec_tick {cur : Int} (hexec : s.exec capacity (.tick cur) = .ok s') :
    ∃ w, s.loop.exec (.alarm cur) = .ok w ∧ s' = { s with loop := w, main := .ticked } := by
  obtain ⟨w, hw, hs'⟩ := bind_eq_ok.mp hexec
  cases hs'
  exact ⟨w, hw, rfl⟩

theorem exec_setup (he : s.Enabled .setup) (hexec : s.exec capacity .setup = .ok s') :
    ∃ line rest, s.main = .listening (line :: rest) ∧ s' = { s.setup line with main := .listening rest } := by
  have hsets : s.main.sets = true := he
  unfold Place.sets at hsets
  split at hsets
  · rename_i line rest hmain
    simp only [exec, hmain] at hexec
    cases hexec
    exact ⟨line, rest, hmain, rfl⟩
  · cases hsets

/-- **The alarms under way**: none is lost but one that is delivered into a full pipe. -/
theorem Regular.underWay_step (h : Regular capacity s) {i : Step} (he : s.Enabled i)
    (hexec : s.exec capacity i = .ok s') :
    s'.underWay + (if s.Loses capacity i then 1 else 0) = s.underWay := by
  have hone := h.one
  unfold underWay at hone ⊢
  cases i with
  | setup =>
    obtain ⟨line, rest, hmain, rfl⟩ := exec_setup he hexec
    rw [hmain] at hone ⊢
    cases line with
    | addsig sig => simp [setup, Loses, Place.first]
    | pipefd => simp [setup, Loses, Place.first]
    | alarm =>
      -- the first alarm: none was set
      cases halarm : s.alarm with
      | none =>
        simp [setup, Loses, Place.first]
        omega
      | some t =>
        simp [halarm, Place.first] at hone
        omega
  | pass seconds => cases hexec; simp [Loses]
  | deliver sig =>
    obtain ⟨-, rfl⟩ := exec_deliver hexec
    cases sig with
    | sigterm => by_cases hroom : s.pipe.length < capacity <;> simp [Loses, hroom]
    | sigalrm =>
      obtain ⟨t, halarm⟩ : ∃ t, s.alarm = some t :=
        Option.isSome_iff_exists.mp (Option.isSome_of_any (he.2 rfl))
      by_cases hroom : s.pipe.length < capacity
      · simp [Loses, halarm, hroom, Nat.not_le.mpr hroom]
        omega
      · simp [Loses, halarm, hroom, Nat.le_of_not_lt hroom]
        omega
  | report pipe =>
    cases hexec
    simp [show s.main = .waiting from he.1, Loses, Place.first]
  | fail =>
    cases hexec
    simp [show s.main = .waiting from he, Loses, Place.first]
  | event e =>
    obtain ⟨w, -, rfl⟩ := exec_event hexec
    simp [Loses]
  | signals =>
    cases hexec
    have hmain : s.main = .handling true := he
    have hsplit : (s.pipe.take 1024).count .sigalrm + (s.pipe.drop 1024).count .sigalrm =
        s.pipe.count .sigalrm := by
      rw [← List.count_append, List.take_append_drop]
    simp only [hmain, dealwithsignal_snd, ← hsplit] at hone ⊢
    by_cases hmem : Signal.sigalrm ∈ s.pipe.take 1024
    · -- it was in the pipe, so it was not noted before
      have hpos := List.count_pos_iff.mpr hmem
      cases htimeout : s.timeout <;> simp [htimeout, hmem, Loses, Place.first] at hone ⊢ <;> omega
    · simp [hmem, Loses, Place.first, List.count_eq_zero.mpr hmem]
  | tick cur =>
    obtain ⟨w, -, rfl⟩ := exec_tick hexec
    simp [show s.main = .handling false from he.1, Loses, Place.first]
  | rearm =>
    cases hexec
    have hmain : s.main = .ticked := he
    rw [hmain, h.ticking (Or.inl hmain)] at hone ⊢
    cases halarm : s.alarm with
    | none => simp [Loses, Place.first]; omega
    | some t =>
      simp [halarm] at hone
      omega
  | next =>
    cases hexec
    have hafter : (if s.stopServer = true then Place.stopped else Place.waiting).first = 0 := by
      split <;> rfl
    have hbefore : s.main.first = 0 := by
      rcases he with hmain | hmain | ⟨hmain, -⟩ <;> rw [hmain] <;> rfl
    have hnoted : (s.timeout && s.main ≠ .rearmed) = false := by
      rcases he with hmain | hmain | ⟨-, htimeout⟩
      · simp [hmain]
      · rw [h.timeout_listening hmain]; rfl
      · rw [htimeout]; rfl
    rw [hbefore, hnoted]
    simp [hafter, Loses]

theorem Regular.exec (h : Regular capacity s) {i : Step} (he : s.Enabled i)
    (hexec : s.exec capacity i = .ok s') : Regular capacity s' := by
  have hone : s'.underWay ≤ 1 := by
    have hstep := h.underWay_step he hexec
    have hle := h.one
    omega
  cases i with
  | setup =>
    obtain ⟨line, rest, hmain, rfl⟩ := exec_setup he hexec
    have htimeout : ¬ s.timeout = true := by rw [h.timeout_listening hmain]; exact Bool.false_ne_true
    have hstop : ¬ s.stopServer = true := fun hset => by simpa [hmain] using h.halting hset
    refine ⟨hone, fun hset => absurd (s.setup_timeout line ▸ hset) htimeout, ?_,
      fun hset => absurd (s.setup_stopServer line ▸ hset) hstop, fun hne => ?_, ?_, ?_⟩
    · rintro (hplace | hplace) <;> cases hplace
    · have hnoticed := h.noticed (s.setup_pipe line ▸ hne)
      exact Or.inl ((s.setup_arrived line).trans (hnoticed.resolve_right (by simp [hmain, hstop])))
    · exact (s.setup_pipe line).symm ▸ h.room
    · rcases h.stored with hstored | hstored
      · exact Or.inl (by cases line <;> first | exact hstored | rfl)
      · rw [hmain] at hstored
        cases line with
        | pipefd => exact Or.inl rfl
        | addsig sig | alarm => exact Or.inr ((List.mem_cons.mp hstored).resolve_left (by simp))
  | pass seconds =>
    cases hexec
    exact ⟨hone, h.flagged, h.ticking, h.halting, h.noticed, h.room, h.stored⟩
  | deliver sig =>
    obtain ⟨-, rfl⟩ := exec_deliver hexec
    split
    · rename_i hroom
      rw [if_pos hroom] at hone
      refine ⟨hone, h.flagged, h.ticking, h.halting, fun _ => Or.inl rfl, ?_, h.stored⟩
      show (s.pipe ++ [sig]).length ≤ capacity
      rw [List.length_append, List.length_singleton]
      exact hroom
    · rename_i hfull
      rw [if_neg hfull] at hone
      exact ⟨hone, h.flagged, h.ticking, h.halting, h.noticed, h.room, h.stored⟩
  | report pipe =>
    cases hexec
    have hmain : s.main = .waiting := he.1
    have htimeout : ¬ s.timeout = true := fun hset => by simpa [hmain, Place.handles] using h.flagged hset
    have hstop : ¬ s.stopServer = true := fun hset => by simpa [hmain] using h.halting hset
    have hstored := h.stored.resolve_right (by rw [hmain]; exact id)
    refine ⟨hone, fun hset => absurd hset htimeout, ?_, fun hset => absurd hset hstop, fun hne => ?_, h.room,
      Or.inl hstored⟩
    · rintro (hplace | hplace) <;> cases hplace
    · cases pipe with
      | true => exact Or.inr (Or.inl rfl)
      | false => exact Or.inl (by simpa [hmain, hstop] using h.noticed hne)
  | fail =>
    cases hexec
    have hmain : s.main = .waiting := he
    have htimeout : ¬ s.timeout = true := fun hset => by simpa [hmain, Place.handles] using h.flagged hset
    have hstop : ¬ s.stopServer = true := fun hset => by simpa [hmain] using h.halting hset
    have hstored := h.stored.resolve_right (by rw [hmain]; exact id)
    refine ⟨hone, fun hset => absurd hset htimeout, ?_, fun hset => absurd hset hstop, fun hne => ?_, h.room,
      Or.inl hstored⟩
    · rintro (hplace | hplace) <;> cases hplace
    · exact Or.inl (by simpa [hmain, hstop] using h.noticed hne)
  | event e =>
    obtain ⟨w, -, rfl⟩ := exec_event hexec
    exact ⟨hone, h.flagged, h.ticking, h.halting, h.noticed, h.room, h.stored⟩
  | signals =>
    cases hexec
    have hmain : s.main = .handling true := he
    have hstored := h.stored.resolve_right (by rw [hmain]; exact id)
    rw [dealwithsignal_snd] at hone ⊢
    refine ⟨hone, fun _ => Or.inl rfl, ?_, fun _ => Or.inl rfl, fun hne => ?_, ?_, Or.inl hstored⟩
    · rintro (hplace | hplace) <;> cases hplace
    · -- what is left has 1024 bytes before it, and one of them at most was SIGALRM
      have hlong : 1024 < s.pipe.length := by
        by_contra hshort
        exact hne (List.drop_eq_nil_of_le (Nat.le_of_not_lt hshort))
      have hcount : (s.pipe.take 1024).count .sigalrm ≤ 1 := by
        have hsub := (List.take_sublist 1024 s.pipe).count_le Signal.sigalrm
        have hle := h.one
        unfold underWay at hle
        omega
      have hmem : Signal.sigterm ∈ s.pipe.take 1024 := sigterm_mem hcount (by rw [List.length_take]; omega)
      exact Or.inr (Or.inr (by simp [hmem]))
    · show (s.pipe.drop 1024).length ≤ capacity
      rw [List.length_drop]
      have hle := h.room
      omega
  | tick cur =>
    obtain ⟨w, -, rfl⟩ := exec_tick hexec
    have hmain : s.main = .handling false := he.1
    have hstored := h.stored.resolve_right (by rw [hmain]; exact id)
    refine ⟨hone, fun _ => Or.inr (Or.inl rfl), fun _ => he.2.1, fun _ => Or.inr (Or.inl rfl), fun hne => ?_,
      h.room, Or.inl hstored⟩
    have hnoticed := h.noticed hne
    rw [hmain] at hnoticed
    exact hnoticed.imp_right fun hor => Or.inr (hor.resolve_left (by simp))
  | rearm =>
    cases hexec
    have hmain : s.main = .ticked := he
    have hstored := h.stored.resolve_right (by rw [hmain]; exact id)
    refine ⟨hone, fun _ => Or.inr (Or.inr rfl), fun _ => h.ticking (Or.inl hmain), fun _ => Or.inr (Or.inr (Or.inl rfl)),
      fun hne => ?_, h.room, Or.inl hstored⟩
    have hnoticed := h.noticed hne
    rw [hmain] at hnoticed
    exact hnoticed.imp_right fun hor => Or.inr (hor.resolve_left (by simp))
  | next =>
    cases hexec
    have hplace : ¬ s.main = .handling true ∧ ¬ s.main.Unstored := by
      rcases he with hmain | hmain | ⟨hmain, -⟩ <;> rw [hmain] <;> simp [Place.Unstored]
    have hstored := h.stored.resolve_right hplace.2
    refine ⟨hone, (fun hset => by cases hset), ?_, fun hset => ?_, fun hne => ?_, h.room, Or.inl hstored⟩
    · rintro (hmain | hmain) <;> cases hstop : s.stopServer <;> simp [hstop] at hmain
    · exact Or.inr (Or.inr (Or.inr (if_pos hset)))
    · exact (h.noticed hne).imp_right fun hor => Or.inr (hor.resolve_left hplace.1)

theorem regular_step {i : Step} (h : Regular capacity s) (hstep : (signalled capacity).step s i s') :
    Regular capacity s' := h.exec hstep.1 hstep.2

theorem regular (h : (signalled capacity).Reachable s) : Regular capacity s :=
  h.invariant Regular.start regular_step

/-! ## The alarm -/

theorem underWay_start (hs : (signalled capacity).start s) : s.underWay = 1 := by
  obtain ⟨-, hpipe, -, halarm, -, -, htimeout, -, hmain⟩ := hs
  simp [underWay, hpipe, halarm, htimeout, hmain, eventListen, Place.first]

/-- The bytes of SIGTERM in the pipe have been delivered. -/
theorem count_sigterm_step {i : Step} (he : s.Enabled i) (hexec : s.exec capacity i = .ok s') :
    s'.pipe.count .sigterm ≤ s.pipe.count .sigterm + [i].count (.deliver .sigterm) := by
  cases i with
  | setup =>
    obtain ⟨line, rest, -, rfl⟩ := exec_setup he hexec
    simp
  | deliver sig =>
    obtain ⟨-, rfl⟩ := exec_deliver hexec
    cases sig <;> split <;> simp
  | event e =>
    obtain ⟨w, -, rfl⟩ := exec_event hexec
    simp
  | signals =>
    cases hexec
    rw [dealwithsignal_snd]
    exact Nat.le_add_right_of_le ((List.drop_sublist 1024 s.pipe).count_le _)
  | tick cur =>
    obtain ⟨w, -, rfl⟩ := exec_tick hexec
    simp
  | pass seconds | report pipe | fail | rearm | next =>
    cases hexec
    simp

/-- A pipe in which an alarm is lost is full of SIGTERM. -/
theorem Regular.full_of_loses (h : Regular capacity s) {i : Step} (he : s.Enabled i) (hloses : s.Loses capacity i) :
    capacity ≤ s.pipe.count .sigterm := by
  obtain ⟨rfl, hfull⟩ := hloses
  have hset : s.alarm.isSome = true := Option.isSome_of_any (he.2 rfl)
  have hone := h.one
  simp only [underWay, hset, Bool.toNat_true] at hone
  have hlength := count_add_count s.pipe
  omega

/-- The SIGTERM that are in the pipe are among those that have been delivered. -/
theorem count_sigterm_le {s₀ : Signalled} {h : List Step} (hstart : (signalled capacity).start s₀)
    (hrun : (signalled capacity).Run s₀ h s) : s.pipe.count .sigterm ≤ h.count (.deliver .sigterm) := by
  refine hrun.invariant (I := fun h s => s.pipe.count .sigterm ≤ h.count (.deliver .sigterm)) ?_ ?_
  · intro h t i u hle hstep
    have hcount := count_sigterm_step hstep.1 hstep.2
    rw [← List.singleton_append, List.count_append]
    omega
  · rw [hstart.2.1]
    exact Nat.le_refl _

/-- **One alarm is under way**, in every run in which none was delivered into a full pipe, and none in any
    other: none is ever set again. While fewer SIGTERM have come than the pipe has room for, that is so. -/
theorem one_alarm {capacity : Nat} {s₀ s : Signalled} {h : List Step} (hstart : (signalled capacity).start s₀)
    (hrun : (signalled capacity).Run s₀ h s) :
    s.underWay ≤ 1 ∧
      (s.underWay = 1 ↔ ((signalled capacity).restrict fun s i => ¬ s.Loses capacity i).Run s₀ h s) ∧
        (h.count (.deliver .sigterm) < capacity → s.underWay = 1) := by
  refine ⟨(regular ⟨s₀, h, hstart, hrun⟩).one, ?_, ?_⟩
  · constructor
    · intro hone
      induction hrun with
      | nil => exact .nil _
      | @step t u h i hr hst ih =>
        have hreg := regular ⟨s₀, h, hstart, hr⟩
        have hstep := hreg.underWay_step hst.1 hst.2
        have hle := hreg.one
        have hkept : ¬ t.Loses capacity i := by
          intro hloses
          rw [if_pos hloses] at hstep
          omega
        rw [if_neg hkept] at hstep
        exact .step (ih (by omega)) ⟨hst, hkept⟩
    · intro hres
      refine (hres.invariant (I := fun _ s => Regular capacity s ∧ s.underWay = 1) ?_
        ⟨Regular.start hstart, underWay_start hstart⟩).2
      rintro h t i u ⟨hreg, hone⟩ ⟨hst, hkept⟩
      have hstep := hreg.underWay_step hst.1 hst.2
      rw [if_neg hkept] at hstep
      exact ⟨regular_step hreg hst, hstep.trans hone⟩
  · intro hfew
    induction hrun with
    | nil => exact underWay_start hstart
    | @step t u h i hr hst ih =>
      have hreg := regular ⟨s₀, h, hstart, hr⟩
      have hstep := hreg.underWay_step hst.1 hst.2
      have hbefore : h.count (.deliver .sigterm) ≤ (i :: h).count (.deliver .sigterm) := List.count_le_count_cons
      have hkept : ¬ t.Loses capacity i := by
        intro hloses
        have hfull := hreg.full_of_loses hst.1 hloses
        have hle := count_sigterm_le hstart hr
        omega
      rw [if_neg hkept] at hstep
      exact hstep.trans (ih (by omega))

/-- The state before `eventListen` sets anything. -/
def boot : Signalled := ⟨idle, [], false, none, 0, [], false, false, false, .listening eventListen⟩

theorem boot_start (capacity : Nat) : (signalled capacity).start boot :=
  ⟨⟨rfl, rfl, rfl, rfl⟩, rfl, rfl, rfl, rfl, rfl, rfl, rfl, rfl⟩

/-- The state after a history, where each step of it can be taken. -/
def after (capacity : Nat) (h : List Step) : Option Signalled :=
  System.follow (exec capacity) (fun s i => decide (s.Enabled i)) boot h

theorem run_of_after {h : List Step} (hs : after capacity h = some s) : (signalled capacity).Run boot h s :=
  System.Run.of_follow (fun _ _ _ hok hexec => And.intro (of_decide_eq_true hok) hexec) hs

/-- The first alarm, as far as `timeout`. -/
theorem one_alarm_first : ∃ s, after 1 [.signals, .report true, .deliver .sigalrm, .pass 5, .next, .setup, .setup,
    .setup, .setup] = some s ∧ s.timeout = true ∧ s.underWay = 1 := by
  obtain ⟨s, hs⟩ : ∃ s, after 1 [.signals, .report true, .deliver .sigalrm, .pass 5, .next, .setup, .setup,
      .setup, .setup] = some s := Option.isSome_iff_exists.mp (by decide)
  refine ⟨s, hs, ?_, (one_alarm (boot_start 1) (run_of_after hs)).2.2 (by decide)⟩
  cases hs
  rfl

end Signalled

end WebServer
end LinuxServer
