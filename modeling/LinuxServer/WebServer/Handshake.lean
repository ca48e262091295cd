import LinuxServer.Lib.System
import Mathlib.Logic.Function.Basic

/-!
# `WebServer/Handshake.lean` — `improv` and `timer_flag`

In the reactor a worker does the transfer, and the main thread spins on `improv` to learn that it is
over and reads `timer_flag` to learn how it went. Both are plain fields of the connection. A worker
whose transfer has failed sets `improv` first and `timer_flag` behind it; the main thread tests `improv`
first too, and so may test `timer_flag` in between, find 0, and leave. The assignment that comes late
is then what the next event finds.

Each assignment and each test is one step here, of one connection, over any number of events.
`orderly_agreed` is that nothing else goes wrong: as long as no test of `timer_flag` falls between the
two assignments, the main thread has closed the connection if and only if the transfer failed, and
both flags are 0 whenever it is out of the loop. `test_between` is what happens where one does, and
`stale_flag` a run where the next event pays for it.
-/

set_option autoImplicit false

namespace LinuxServer
namespace WebServer

/-- `m_state`: which transfer the worker is to do. -/
inductive Kind
  | read
  | write
  deriving DecidableEq, Repr

/-- How `read_once()` or `write()` went. A `write()` that has sent all there was calls `init()` and
    returns true, or, without keep-alive, returns false; it has armed the descriptor before. -/
inductive Transferred
  | ok
  | reset
  | closing
  | failed
  deriving DecidableEq, Repr

/-- What `read_once()` or `write()` returns. -/
def Transferred.returns : Transferred → Bool
  | .ok | .reset => true
  | .closing | .failed => false

/-- Where the worker that has been given an event is in `run()`. -/
inductive Job
  /-- There is none. -/
  | absent
  | queued (kind : Kind)
  /-- In `init()`, called by `write()`: before `timer_flag = 0`, and before `improv = 0`. -/
  | initTimer
  | initImprov
  /-- Before `improv = 1`, the transfer having returned `ok`. -/
  | setImprov (kind : Kind) (ok : Bool)
  /-- Before `timer_flag = 1`. -/
  | setTimer
  /-- In `process()`. -/
  | processing
  | done
  deriving DecidableEq, Repr

/-- A worker that is about to assign a flag. -/
def Job.assigns : Job → Bool
  | .initTimer | .initImprov | .setImprov .. | .setTimer => true
  | _ => false

/-- A worker that is through with the flags, or was never given the event. -/
def Job.quiet : Job → Bool
  | .absent | .processing | .done => true
  | _ => false

/-- Where the main thread is in `dealwithread` or `dealwithwrite`. -/
inductive Spin
  | out
  | testImprov
  | testTimer
  | dealTimer
  | clearTimer
  | clearImprov
  deriving DecidableEq, Repr

/-- One connection. Its events are numbered as they come. -/
structure Handshake where
  improv : Bool
  timerFlag : Bool
  main : Spin
  job : Nat → Job
  events : Nat
  isOpen : Bool
  armed : Bool
  /-- Of which events the transfer failed, and for which `deal_timer` was called. No function reads
      either. -/
  failed : Nat → Bool
  dealt : Nat → Bool

namespace Handshake

/-- What happens next: an event, and whether `append` accepts it; the transfer by the worker that was
    given it; that worker's next assignment; the `modfd` in `process()`; what the main thread is about to
    do; or a tick that closes the connection. -/
inductive Step
  | event (kind : Kind) (accepted : Bool)
  | perform (e : Nat) (kind : Kind) (transferred : Transferred)
  | assign (e : Nat)
  | finish (e : Nat)
  | main
  | tick
  deriving DecidableEq, Repr

/-- The event that the main thread deals with, or dealt with last. -/
def last (s : Handshake) : Nat := s.events - 1

def setJob (s : Handshake) (e : Nat) (job : Job) : Handshake :=
  { s with job := Function.update s.job e job }

/-- `append(users + sockfd, state)`, and the loop. -/
def event (s : Handshake) (kind : Kind) (accepted : Bool) : Handshake :=
  { s.setJob s.events (if accepted then .queued kind else .absent) with
    armed := false
    main := .testImprov
    events := s.events + 1 }

/-- `request->read_once()` or `request->write()`, up to the first assignment of a flag. -/
def perform (s : Handshake) (e : Nat) (kind : Kind) (transferred : Transferred) : Handshake :=
  { s.setJob e (if transferred = .reset then .initTimer else .setImprov kind transferred.returns) with
    armed := s.armed || (kind = .write ∧ transferred ≠ .failed)
    failed := Function.update s.failed e (!transferred.returns) }

/-- The next assignment of a worker. -/
def assign (s : Handshake) (e : Nat) : Handshake :=
  match s.job e with
  | .initTimer => { s.setJob e .initImprov with timerFlag := false }
  | .initImprov => { s.setJob e (.setImprov .write true) with improv := false }
  | .setImprov .read true => { s.setJob e .processing with improv := true }
  | .setImprov .write true => { s.setJob e .done with improv := true }
  | .setImprov _ false => { s.setJob e .setTimer with improv := true }
  | .setTimer => { s.setJob e .done with timerFlag := true }
  | _ => s

/-- The next thing the main thread does in the loop. -/
def spin (s : Handshake) : Handshake :=
  match s.main with
  | .out => s
  | .testImprov => if s.improv then { s with main := .testTimer } else s
  | .testTimer => { s with main := if s.timerFlag then .dealTimer else .clearImprov }
  | .dealTimer =>
    { s with
      main := .clearTimer
      isOpen := false
      dealt := Function.update s.dealt s.last true }
  | .clearTimer => { s with main := .clearImprov, timerFlag := false }
  | .clearImprov => { s with main := .out, improv := false }

def exec (s : Handshake) : Step → Handshake
  | .event kind accepted => s.event kind accepted
  | .perform e kind transferred => s.perform e kind transferred
  | .assign e => s.assign e
  | .finish e => { s.setJob e .done with armed := true }
  | .main => s.spin
  | .tick => { s with isOpen := false }

/-- An event is reported of a descriptor that is open and armed, to a main thread that waits for one;
    it waits too when the tick comes. Only `write()` calls `init()`. -/
def Enabled (s : Handshake) : Step → Prop
  | .event .. => s.main = .out ∧ s.isOpen = true ∧ s.armed = true
  | .perform e kind transferred =>
    s.job e = .queued kind ∧ (kind = .read → transferred = .ok ∨ transferred = .failed)
  | .assign e => (s.job e).assigns = true
  | .finish e => s.job e = .processing
  | .main => s.main ≠ .out
  | .tick => s.main = .out

instance (s : Handshake) : (i : Step) → Decidable (s.Enabled i)
  | .event .. | .perform .. => inferInstanceAs (Decidable (_ ∧ _))
  | .assign _ | .finish _ | .tick => inferInstanceAs (Decidable (_ = _))
  | .main => inferInstanceAs (Decidable (_ ≠ _))

/-- **What the flags are for.** Out of the loop, the main thread has called `deal_timer` for an event if
    and only if its transfer failed; both flags are 0; and no worker is going to assign one. -/
def Agreed (s : Handshake) : Prop := s.main = .out →
  (∀ e, e < s.events → (s.dealt e = true ↔ s.failed e = true)) ∧ s.improv = false ∧
    s.timerFlag = false ∧ ∀ e, (s.job e).quiet = true

/-- The main thread does not test `timer_flag` while a worker is between `improv = 1` and
    `timer_flag = 1`. -/
def Orderly (s : Handshake) : Step → Prop
  | .main => s.main = .testTimer → s.job s.last ≠ .setTimer
  | _ => True

instance (s : Handshake) : (i : Step) → Decidable (s.Orderly i)
  | .main => inferInstanceAs (Decidable (_ → _))
  | .event .. | .perform .. | .assign _ | .finish _ | .tick => .isTrue trivial

/-- A connection as `init` leaves it. -/
def initial : Handshake :=
  ⟨false, false, .out, fun _ => .absent, 0, true, true, fun _ => false, fun _ => false⟩

end Handshake

/-- The workers and the main thread, about one connection. -/
def handshake : System Handshake Handshake.Step where
  start s := s = .initial
  step s i s' := s.Enabled i ∧ s' = s.exec i

namespace Handshake

section
variable {s : Handshake} {e : Nat}

/-! ## The invariant -/

/-- What the flags are while the main thread spins, by where the worker is. -/
def Reports (s : Handshake) : Job → Prop
  | .absent | .queued _ | .initTimer | .initImprov =>
    s.improv = false ∧ s.timerFlag = false ∧ s.failed s.last = false
  | .setImprov _ ok => s.improv = false ∧ s.timerFlag = false ∧ s.failed s.last = !ok
  | .setTimer => s.improv = true ∧ s.timerFlag = false ∧ s.failed s.last = true
  | .processing => s.improv = true ∧ s.timerFlag = false ∧ s.failed s.last = false
  | .done => s.improv = true ∧ s.timerFlag = s.failed s.last

/-- And by where the main thread is. -/
def Stage (s : Handshake) : Spin → Prop
  | .out => (s.job s.last).quiet = true ∧ s.dealt s.last = s.failed s.last ∧ s.improv = false ∧ s.timerFlag = false
  | .testImprov => s.dealt s.last = false ∧ s.Reports (s.job s.last)
  | .testTimer => s.dealt s.last = false ∧ s.improv = true ∧ s.Reports (s.job s.last)
  | .dealTimer => (s.job s.last).quiet = true ∧ s.dealt s.last = false ∧ s.failed s.last = true
  | .clearTimer => (s.job s.last).quiet = true ∧ s.dealt s.last = s.failed s.last
  | .clearImprov =>
    (s.job s.last).quiet = true ∧ s.dealt s.last = s.failed s.last ∧ s.timerFlag = false

/-- **The invariant.** The events before are over; of the last one the flags say what they should. -/
structure Synced (s : Handshake) : Prop where
  started : s.main ≠ .out → 0 < s.events
  quiet : ∀ e, e ≠ s.last → (s.job e).quiet = true
  settled : ∀ e, e ≠ s.last → s.dealt e = s.failed e
  fresh : ∀ e, s.events ≤ e → s.dealt e = false ∧ s.failed e = false
  stage : s.Stage s.main

theorem quiet_of_assigns {job : Job} (h : job.assigns = true) : job.quiet = false := by
  cases job with
  | initTimer | initImprov | setImprov | setTimer => rfl
  | absent | queued | processing | done => cases h

/-- A worker that is not through with the flags is the last event's, and the main thread waits for it. -/
theorem Synced.awaited (h : s.Synced) (hjob : (s.job e).quiet = false) :
    e = s.last ∧ s.dealt s.last = false ∧ s.Reports (s.job s.last) ∧
      (s.main = .testImprov ∨ s.main = .testTimer ∧ s.improv = true) := by
  have hlast : e = s.last := by
    by_contra hne
    rw [h.quiet e hne] at hjob
    cases hjob
  rw [hlast] at hjob
  have hstage := h.stage
  cases hmain : s.main with
  | out | dealTimer | clearTimer | clearImprov =>
    rw [hmain] at hstage
    rw [hstage.1] at hjob
    cases hjob
  | testImprov =>
    rw [hmain] at hstage
    exact ⟨hlast, hstage.1, hstage.2, Or.inl rfl⟩
  | testTimer =>
    rw [hmain] at hstage
    exact ⟨hlast, hstage.1, hstage.2.2, Or.inr ⟨rfl, hstage.2.1⟩⟩

/-- A worker goes on, to `job`, and the flags become what that says. -/
theorem Synced.move (h : s.Synced) {s' : Handshake} {job : Job} (hevents : s'.events = s.events)
    (hmain : s'.main = s.main) (hdealt : s'.dealt = s.dealt) (hlast : s.dealt s.last = false)
    (hspin : s.main = .testImprov ∨ s.main = .testTimer ∧ s'.improv = true)
    (hjob : s'.job = Function.update s.job s.last job) (hfailed : ∀ e, e ≠ s.last → s'.failed e = s.failed e)
    (hreports : s'.Reports job) : s'.Synced := by
  have hsame : s'.last = s.last := congrArg (· - 1) hevents
  have hpos : 0 < s.events := h.started (by rcases hspin with hm | ⟨hm, -⟩ <;> rw [hm] <;> nofun)
  have hself : s'.job s'.last = job := by rw [hjob, hsame, Function.update_self]
  refine ⟨fun _ => hevents ▸ hpos, fun e he => ?_, fun e he => ?_, fun e he => ?_, ?_⟩
  · rw [hsame] at he
    rw [hjob, Function.update_of_ne he]
    exact h.quiet e he
  · rw [hsame] at he
    rw [hdealt, hfailed e he]
    exact h.settled e he
  · rw [hevents] at he
    have hne : e ≠ s.last := by
      unfold last
      omega
    rw [hdealt, hfailed e hne]
    exact h.fresh e he
  · rw [hmain]
    rcases hspin with hm | ⟨hm, himprov⟩
    · rw [hm]
      refine ⟨?_, by rwa [hself]⟩
      rw [hdealt, hsame]
      exact hlast
    · rw [hm]
      refine ⟨?_, himprov, by rwa [hself]⟩
      rw [hdealt, hsame]
      exact hlast

theorem Synced.perform (h : s.Synced) {kind : Kind} {transferred : Transferred}
    (he : s.Enabled (.perform e kind transferred)) : (s.perform e kind transferred).Synced := by
  obtain ⟨hjob, -⟩ := he
  obtain ⟨rfl, hdealt, hreports, hspin⟩ := h.awaited (e := e) (by rw [hjob]; rfl)
  rw [hjob] at hreports
  obtain ⟨himprov, htimer, -⟩ := hreports
  refine h.move rfl rfl rfl hdealt ?_ rfl (fun e hne => Function.update_of_ne hne ..) ?_
  · exact Or.inl (hspin.resolve_right (by rw [himprov]; nofun))
  · have hfailed : (s.perform s.last kind transferred).failed s.last = !transferred.returns :=
      Function.update_self ..
    cases transferred with
    | reset => exact ⟨himprov, htimer, hfailed⟩
    | ok | closing | failed => exact ⟨himprov, htimer, hfailed⟩

theorem Synced.assign (h : s.Synced) (he : s.Enabled (.assign e)) : (s.assign e).Synced := by
  have hassigns : (s.job e).assigns = true := he
  obtain ⟨rfl, hdealt, hreports, hspin⟩ := h.awaited (e := e) (quiet_of_assigns hassigns)
  have hearly : s.improv = false → s.main = .testImprov := fun himprov =>
    hspin.resolve_right (by rw [himprov]; nofun)
  unfold Handshake.assign
  cases hjob : s.job s.last with
  | absent | queued | processing | done => rw [hjob] at hassigns; cases hassigns
  | initTimer =>
    rw [hjob] at hreports
    obtain ⟨himprov, -, hfailed⟩ := hreports
    exact h.move rfl rfl rfl hdealt (Or.inl (hearly himprov)) rfl (fun _ _ => rfl) ⟨himprov, rfl, hfailed⟩
  | initImprov =>
    rw [hjob] at hreports
    obtain ⟨himprov, htimer, hfailed⟩ := hreports
    exact h.move rfl rfl rfl hdealt (Or.inl (hearly himprov)) rfl (fun _ _ => rfl) ⟨rfl, htimer, hfailed⟩
  | setImprov kind ok =>
    rw [hjob] at hreports
    obtain ⟨himprov, htimer, hfailed⟩ := hreports
    have hmain := hearly himprov
    cases ok with
    | true =>
      cases kind with
      | read => exact h.move rfl rfl rfl hdealt (Or.inl hmain) rfl (fun _ _ => rfl) ⟨rfl, htimer, hfailed⟩
      | write =>
        exact h.move rfl rfl rfl hdealt (Or.inl hmain) rfl (fun _ _ => rfl) ⟨rfl, htimer.trans hfailed.symm⟩
    | false =>
      cases kind with
      | read | write =>
        exact h.move rfl rfl rfl hdealt (Or.inl hmain) rfl (fun _ _ => rfl) ⟨rfl, htimer, hfailed⟩
  | setTimer =>
    rw [hjob] at hreports
    obtain ⟨himprov, -, hfailed⟩ := hreports
    refine h.move rfl rfl rfl hdealt ?_ rfl (fun _ _ => rfl) ⟨himprov, hfailed.symm⟩
    exact hspin.imp_right fun hm => ⟨hm.1, himprov⟩

/-- A worker that is through with the flags is so when `process()` is over. -/
theorem Synced.finish (h : s.Synced) (he : s.Enabled (.finish e)) : (s.exec (.finish e)).Synced := by
  have hjob : s.job e = .processing := he
  let s' := s.exec (.finish e)
  have hold : ∀ k, k ≠ e → s'.job k = s.job k := fun k hk => Function.update_of_ne hk ..
  have hself : s'.job e = .done := Function.update_self ..
  refine ⟨h.started, fun k hk => ?_, h.settled, h.fresh, ?_⟩
  · by_cases hke : k = e
    · rw [hke]
      show (s'.job e).quiet = true
      rw [hself]
      rfl
    · show (s'.job k).quiet = true
      rw [hold k hke]
      exact h.quiet k hk
  · have hstage := h.stage
    by_cases hlast : s.last = e
    · -- for the main thread there is no difference
      have hdone : s'.job s.last = .done := hlast ▸ hself
      have hquiet : (s'.job s.last).quiet = true := by rw [hdone]; rfl
      have hreports : s.Reports (s.job s.last) → s'.Reports (s'.job s.last) := by
        rw [hlast, hjob, hself]
        rintro ⟨himprov, htimer, hfailed⟩
        refine ⟨himprov, ?_⟩
        show s.timerFlag = s.failed s.last
        rw [htimer, hfailed]
      show Stage s' s.main
      cases hmain : s.main <;> rw [hmain] at hstage
      · exact ⟨hquiet, hstage.2⟩
      · exact ⟨hstage.1, hreports hstage.2⟩
      · exact ⟨hstage.1, hstage.2.1, hreports hstage.2.2⟩
      · exact ⟨hquiet, hstage.2⟩
      · exact ⟨hquiet, hstage.2⟩
      · exact ⟨hquiet, hstage.2⟩
    · have hsame : s'.job s.last = s.job s.last := hold _ hlast
      have hreports : s.Reports (s.job s.last) → s'.Reports (s'.job s.last) := by
        rw [hsame]
        intro hr
        cases hj : s.job s.last <;> rw [hj] at hr <;> exact hr
      show Stage s' s.main
      cases hmain : s.main <;> rw [hmain] at hstage
      · exact ⟨hsame ▸ hstage.1, hstage.2⟩
      · exact ⟨hstage.1, hreports hstage.2⟩
      · exact ⟨hstage.1, hstage.2.1, hreports hstage.2.2⟩
      · exact ⟨hsame ▸ hstage.1, hstage.2⟩
      · exact ⟨hsame ▸ hstage.1, hstage.2⟩
      · exact ⟨hsame ▸ hstage.1, hstage.2⟩

/-- The main thread goes on. -/
theorem Synced.spin (h : s.Synced) (horderly : s.Orderly .main) : s.spin.Synced := by
  have hstage := h.stage
  unfold Handshake.spin
  cases hmain : s.main with
  | out => exact h
  | testImprov =>
    rw [hmain] at hstage
    show (if s.improv then { s with main := .testTimer } else s).Synced
    by_cases himprov : s.improv = true
    · rw [if_pos himprov]
      exact ⟨fun _ => h.started (by rw [hmain]; nofun), h.quiet, h.settled, h.fresh, hstage.1, himprov,
        hstage.2⟩
    · rw [if_neg himprov]
      exact h
  | testTimer =>
    rw [hmain] at hstage
    obtain ⟨hdealt, himprov, hreports⟩ := hstage
    -- by now the worker has said all it had to say
    have hover : (s.job s.last).quiet = true ∧ s.timerFlag = s.failed s.last := by
      cases hjob : s.job s.last with
      | absent | queued | initTimer | initImprov | setImprov =>
        rw [hjob] at hreports
        rw [hreports.1] at himprov
        cases himprov
      | setTimer => exact absurd hjob (horderly hmain)
      | processing =>
        rw [hjob] at hreports
        exact ⟨rfl, hreports.2.1.trans hreports.2.2.symm⟩
      | done =>
        rw [hjob] at hreports
        exact ⟨rfl, hreports.2⟩
    have hpos := h.started (by rw [hmain]; nofun)
    show ({ s with main := if s.timerFlag then .dealTimer else .clearImprov } : Handshake).Synced
    by_cases htimer : s.timerFlag = true
    · rw [if_pos htimer]
      exact ⟨fun _ => hpos, h.quiet, h.settled, h.fresh, hover.1, hdealt, hover.2 ▸ htimer⟩
    · rw [if_neg htimer]
      rw [Bool.not_eq_true] at htimer
      refine ⟨fun _ => hpos, h.quiet, h.settled, h.fresh, hover.1, ?_, htimer⟩
      show s.dealt s.last = s.failed s.last
      rw [hdealt, ← hover.2, htimer]
  | dealTimer =>
    rw [hmain] at hstage
    obtain ⟨hquiet, -, hfailed⟩ := hstage
    have hpos := h.started (by rw [hmain]; nofun)
    refine ⟨fun _ => hpos, h.quiet, fun e he => ?_, fun e he => ?_, hquiet, ?_⟩
    · have hne : e ≠ s.last := he
      show Function.update s.dealt s.last true e = s.failed e
      rw [Function.update_of_ne hne]
      exact h.settled e hne
    · have hge : s.events ≤ e := he
      show Function.update s.dealt s.last true e = false ∧ s.failed e = false
      rw [Function.update_of_ne (by unfold last; omega)]
      exact h.fresh e hge
    · exact (Function.update_self ..).trans hfailed.symm
  | clearTimer =>
    rw [hmain] at hstage
    exact ⟨fun _ => h.started (by rw [hmain]; nofun), h.quiet, h.settled, h.fresh, hstage.1, hstage.2, rfl⟩
  | clearImprov =>
    rw [hmain] at hstage
    exact ⟨fun hout => absurd rfl hout, h.quiet, h.settled, h.fresh, hstage.1, hstage.2.1, rfl, hstage.2.2⟩

/-- The next event. -/
theorem Synced.event (h : s.Synced) {kind : Kind} {accepted : Bool} (he : s.Enabled (.event kind accepted)) :
    (s.event kind accepted).Synced := by
  obtain ⟨hmain, -, -⟩ := he
  have hstage := h.stage
  rw [hmain] at hstage
  obtain ⟨hquiet, hsettled, himprov, htimer⟩ := hstage
  obtain ⟨hdealt, hfailed⟩ := h.fresh s.events (Nat.le_refl _)
  have hlast : (s.event kind accepted).last = s.events := rfl
  refine ⟨fun _ => Nat.succ_pos _, fun e hne => ?_, fun e hne => ?_, fun e hge => ?_, ?_⟩
  · rw [hlast] at hne
    show (Function.update s.job s.events _ e).quiet = true
    rw [Function.update_of_ne hne]
    by_cases hle : e = s.last
    · rw [hle]
      exact hquiet
    · exact h.quiet e hle
  · show s.dealt e = s.failed e
    by_cases hle : e = s.last
    · rw [hle]
      exact hsettled
    · exact h.settled e hle
  · exact h.fresh e (Nat.le_of_succ_le hge)
  · refine ⟨hdealt, ?_⟩
    show Reports _ (Function.update s.job s.events _ s.events)
    rw [Function.update_self]
    cases accepted with
    | true => exact ⟨himprov, htimer, hfailed⟩
    | false => exact ⟨himprov, htimer, hfailed⟩

/-- **One step.** -/
theorem Synced.exec (h : s.Synced) {i : Step} (he : s.Enabled i) (horderly : s.Orderly i) :
    (s.exec i).Synced := by
  cases i with
  | event kind accepted => exact h.event he
  | perform e kind transferred => exact h.perform he
  | assign e => exact h.assign he
  | finish e => exact h.finish he
  | main => exact h.spin horderly
  | tick =>
    have hstage := h.stage
    rw [show s.main = .out from he] at hstage
    refine ⟨h.started, h.quiet, h.settled, h.fresh, ?_⟩
    show Stage _ s.main
    rw [show s.main = .out from he]
    exact hstage

theorem Synced.agreed (h : s.Synced) : s.Agreed := by
  intro hmain
  have hstage := h.stage
  rw [hmain] at hstage
  obtain ⟨hquiet, hsettled, himprov, htimer⟩ := hstage
  refine ⟨fun e _ => ?_, himprov, htimer, fun e => ?_⟩
  · by_cases hle : e = s.last
    · rw [hle, hsettled]
    · rw [h.settled e hle]
  · by_cases hle : e = s.last
    · rw [hle]
      exact hquiet
    · exact h.quiet e hle

end

theorem synced {s : Handshake} (h : (handshake.restrict Orderly).Reachable s) : s.Synced := by
  refine h.invariant (I := Synced) ?_ ?_
  · rintro s rfl
    exact ⟨nofun, fun _ _ => rfl, fun _ _ => rfl, fun _ _ => ⟨rfl, rfl⟩, rfl, rfl, rfl, rfl⟩
  · rintro t i u ht ⟨⟨he, rfl⟩, horderly⟩
    exact ht.exec he horderly

/-- **The hand-shake**, over any number of events and every interleaving in which no test of
    `timer_flag` falls between the two assignments of a worker. -/
theorem orderly_agreed {s : Handshake} (h : (handshake.restrict Orderly).Reachable s) : s.Agreed :=
  (synced h).agreed

/-- Two events, and the second transfer fails: the worker has set both flags before the main thread
    looks at the second. -/
theorem orderly_agreed_failed : ∃ (h : List Step) (s : Handshake),
    h = [.main, .main, .main, .main, .assign 1, .main, .assign 1, .perform 1 .write .failed,
      .event .write true, .main, .main, .main, .finish 0, .assign 0, .perform 0 .read .ok,
      .event .read true] ∧ s.main = .out ∧ s.failed 1 = true ∧ s.dealt 1 = true ∧ s.Agreed := by
  have hfollow : (System.follow (fun s i => (.ok (s.exec i) : Except Empty Handshake))
      (fun s i => s.Enabled i ∧ s.Orderly i) initial
      [.main, .main, .main, .main, .assign 1, .main, .assign 1, .perform 1 .write .failed,
      .event .write true, .main, .main, .main, .finish 0, .assign 0, .perform 0 .read .ok,
      .event .read true]).any (fun s => s.main = .out ∧ s.failed 1 = true ∧ s.dealt 1 = true) = true := by
    decide
  obtain ⟨s, hs, hend⟩ := (Option.any_eq_true _ _).mp hfollow
  have hrun : (handshake.restrict Orderly).Run initial _ s :=
    System.Run.of_follow (fun t i u hok hexec =>
      And.intro (And.intro (of_decide_eq_true hok).1 (Except.ok.inj hexec).symm) (of_decide_eq_true hok).2) hs
  obtain ⟨hout, hfailed, hdealt⟩ := of_decide_eq_true hend
  exact ⟨_, s, rfl, hout, hfailed, hdealt, orderly_agreed ⟨initial, _, rfl, hrun⟩⟩

/-- **And the condition is needed**: where the test falls between the two assignments, the main thread
    leaves the loop without having closed the connection, and the worker is still to assign a flag. -/
theorem test_between {s : Handshake} (h : (handshake.restrict Orderly).Reachable s)
    (hmain : s.main = .testTimer) (hjob : s.job s.last = .setTimer) :
    s.spin.spin.main = .out ∧ s.spin.spin.failed s.last = true ∧ s.spin.spin.dealt s.last = false ∧
      s.spin.spin.job s.last = .setTimer := by
  have hstage := (synced h).stage
  rw [hmain] at hstage
  obtain ⟨hdealt, -, hreports⟩ := hstage
  rw [hjob] at hreports
  obtain ⟨-, htimer, hfailed⟩ := hreports
  have hspin : s.spin = { s with main := .clearImprov } := by
    unfold spin
    rw [hmain]
    show ({ s with main := if s.timerFlag then .dealTimer else .clearImprov } : Handshake) = _
    rw [if_neg (by rw [htimer]; nofun)]
  rw [hspin]
  exact ⟨rfl, hfailed, hdealt, hjob⟩

/-- A request is read, and its response is sent without keep-alive: `write()` arms the descriptor and returns
    false, and the main thread tests `timer_flag` between the two assignments. It leaves. The worker sets the
    flag; the next read succeeds, and the main thread closes the connection for it. -/
theorem stale_flag : ∃ (h : List Step) (s : Handshake),
    h = [.main, .main, .main, .main, .main, .finish 2, .assign 2, .perform 2 .read .ok,
      .event .read true, .assign 1, .main, .main, .main, .assign 1, .perform 1 .write .closing,
      .event .write true, .finish 0, .main, .main, .main, .assign 0, .perform 0 .read .ok, .event .read true] ∧
      handshake.Run initial h s ∧ ¬ s.Agreed ∧
      s.failed 1 = true ∧ s.dealt 1 = false ∧ s.failed 2 = false ∧ s.dealt 2 = true := by
  have hfollow : (System.follow (fun s i => (.ok (s.exec i) : Except Empty Handshake))
      (fun s i => s.Enabled i) initial
      [.main, .main, .main, .main, .main, .finish 2, .assign 2, .perform 2 .read .ok,
      .event .read true, .assign 1, .main, .main, .main, .assign 1, .perform 1 .write .closing,
      .event .write true, .finish 0, .main, .main, .main, .assign 0, .perform 0 .read .ok, .event .read true]).any
        (fun s => (s.main = .out ∧ 1 < s.events) ∧ s.failed 1 = true ∧ s.dealt 1 = false ∧ s.failed 2 = false ∧
          s.dealt 2 = true) = true := by
    decide
  obtain ⟨s, hs, hend⟩ := (Option.any_eq_true _ _).mp hfollow
  have hrun : handshake.Run initial _ s :=
    System.Run.of_follow (fun t i u hok hexec =>
      And.intro (of_decide_eq_true hok) (Except.ok.inj hexec).symm) hs
  obtain ⟨⟨hout, hevents⟩, hfailed, hdealt, hrest⟩ := of_decide_eq_true hend
  refine ⟨_, s, rfl, hrun, fun hagreed => ?_, hfailed, hdealt, hrest⟩
  have hmissed := ((hagreed hout).1 1 hevents).mpr hfailed
  rw [hdealt] at hmissed
  cases hmissed

end Handshake

end WebServer
end LinuxServer
