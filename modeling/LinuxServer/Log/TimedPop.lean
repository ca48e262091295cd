import LinuxServer.Log.BlockQueue
import Mathlib.Data.Int.Order.Basic

/-!
# `Log/TimedPop.lean` — `pop(item, ms_timeout)`, and how long it waits

The call reads the clock, before it has the lock, and waits once if it finds the queue empty. There are
three ways in which it returns `false` when it should not. The time that it waits for is computed as
`tv_sec + ms_timeout / 1000` seconds and `ms_timeout % 1000 * 1000` nanoseconds, so that the microseconds of
the clock are missing from it, and of the milliseconds one in a thousand is left: it is early by
`TimedCall.shortfall`. A broadcast, or a wake-up for no reason, ends the wait whenever it comes. And when
the wait has failed, nothing looks into the queue again.

A clock is added to the threads of a queue (`timedQueue`): time passes between any two steps, and
`timewait` fails at or after its deadline. The queue is a constructed one, as in `BlockQueue.lean`: that
`cond`'s constructor throws when `pthread_cond_init` succeeds is another matter. `Undisturbed` is what a
step must leave alone, `pops_right` that no `false` is wrong then, and `disturbed_wrong` that a run which
comes upon anything else can go on to one that is.
-/

set_option autoImplicit false

namespace LinuxServer

/-- `timeval`. -/
structure Timeval where
  sec : Int
  usec : Int
  deriving DecidableEq, Repr

/-- What `gettimeofday` tells, of a clock that counts microseconds. -/
def gettimeofday (clock : Int) : Timeval := ⟨clock / 1000000, clock % 1000000⟩

/-- `timespec`. -/
structure Timespec where
  sec : Int
  nsec : Int
  deriving DecidableEq, Repr

def Timespec.nanoseconds (t : Timespec) : Int := t.sec * 1000000000 + t.nsec

/-- The `t` that `pop` passes to `timewait`. -/
def popDeadline (now : Timeval) (msTimeout : Int) : Timespec where
  sec := now.sec + msTimeout.tdiv 1000
  nsec := msTimeout.tmod 1000 * 1000

/-- A call of `pop(item, ms_timeout)`: what the clock was at when it began, and the timeout. -/
structure TimedCall where
  began : Int
  msTimeout : Int
  deriving DecidableEq, Repr

namespace TimedCall

variable (k : TimedCall)

def now : Timeval := gettimeofday k.began

def deadline : Timespec := popDeadline k.now k.msTimeout

/-- The time, in microseconds, until which the call is to wait. -/
def due : Int := k.began + 1000 * k.msTimeout

/-- The microseconds by which the deadline is early. -/
def shortfall : Int := k.now.usec + 999 * k.msTimeout.tmod 1000

/-- **The deadline is early** by the microseconds of the clock, and by all but a thousandth of the
    milliseconds that make no whole second. -/
theorem deadline_shortfall : k.deadline.nanoseconds + 1000 * k.shortfall = 1000 * k.due := by
  have hclock : 1000000 * (k.began / 1000000) + k.began % 1000000 = k.began := Int.mul_ediv_add_emod _ _
  have htimeout : 1000 * k.msTimeout.tdiv 1000 + k.msTimeout.tmod 1000 = k.msTimeout :=
    Int.mul_tdiv_add_tmod _ _
  show (k.began / 1000000 + k.msTimeout.tdiv 1000) * 1000000000 + k.msTimeout.tmod 1000 * 1000 +
    1000 * (k.began % 1000000 + 999 * k.msTimeout.tmod 1000) = 1000 * (k.began + 1000 * k.msTimeout)
  omega

theorem shortfall_nonneg (hms : 0 ≤ k.msTimeout) : 0 ≤ k.shortfall := by
  have husec : 0 ≤ k.now.usec := Int.emod_nonneg _ (by decide)
  have hmod : 0 ≤ k.msTimeout.tmod 1000 := Int.tmod_nonneg _ hms
  unfold shortfall
  omega

/-- The deadline is right for whole seconds, from a whole second on, and for nothing else. -/
theorem shortfall_eq_zero_iff (hms : 0 ≤ k.msTimeout) :
    k.shortfall = 0 ↔ k.now.usec = 0 ∧ k.msTimeout.tmod 1000 = 0 := by
  have husec : 0 ≤ k.now.usec := Int.emod_nonneg _ (by decide)
  have hmod : 0 ≤ k.msTimeout.tmod 1000 := Int.tmod_nonneg _ hms
  unfold shortfall
  omega

end TimedCall

namespace BlockQueue

/-- The thread whose section it is. -/
def Section.thread {T : Type} {α : Type} : Section T α → T
  | .push c _ | .clear c | .size c | .empty c | .full c | .pop c _ | .wake c _ => c

/-- A queue and its threads, with the clock, and the calls of `pop(item, ms_timeout)` that have read it. -/
structure Timed (T : Type) (α : Type) where
  shared : Shared T α
  clock : Int
  calls : T → Option TimedCall

/-- Time passes; a thread reads the clock, at the beginning of a call; or there is a section. -/
inductive TimedStep (T : Type) (α : Type)
  | elapse (microseconds : Nat)
  | call (c : T) (msTimeout : Int)
  | exec (i : Section T α) (answer : Answer α)

/-- The call is over. -/
def Answer.returns {α : Type} : Answer α → Bool
  | .waits => false
  | _ => true

namespace Timed

variable {T : Type} {α : Type}

/-- When a thread may come to a section: to the one of the timed `pop` when it has read the clock, and to
    the end of a wait that fails when it is time. -/
def Enabled (s : Timed T α) : Section T α → Prop
  | .pop c true => ∃ k, s.calls c = some k
  | .wake c false => ∀ k, s.calls c = some k → k.deadline.nanoseconds ≤ 1000 * s.clock
  | .wake _ true => True
  | i => s.calls i.thread = none

end Timed

end BlockQueue

open BlockQueue in
/-- A queue constructed for `maxSize` items, and any threads `T` that call it, at any time. -/
def timedQueue (T : Type) [DecidableEq T] (α : Type) (maxSize : Nat) :
    System (BlockQueue.Timed T α) (BlockQueue.TimedStep T α) where
  start s := (blockQueue T α maxSize).start s.shared ∧ ∀ c, s.calls c = none
  step s i s' :=
    match i with
    | .elapse n => s' = { s with clock := s.clock + n }
    | .call c msTimeout => 0 ≤ msTimeout ∧ s.shared.threads c = .out ∧ s.calls c = none ∧
        s' = { s with calls := Function.update s.calls c (some ⟨s.clock, msTimeout⟩) }
    | .exec i answer => s.Enabled i ∧ ∃ shared, (blockQueue T α maxSize).step s.shared (i, answer) shared ∧
        s' = { s with
          shared := shared
          calls := if answer.returns then Function.update s.calls i.thread none else s.calls }

namespace BlockQueue

variable {T : Type} {α : Type}

/-- **A `false` that is right**: a call of `pop(item, ms_timeout)` returns it when the queue is empty and
    `ms_timeout` milliseconds have passed since the call began. -/
def Right (s : Timed T α) : TimedStep T α → Prop
  | .exec i .fails => ∀ k, s.calls i.thread = some k →
      s.shared.queue.size = 0 ∧ 1000 * k.msTimeout ≤ s.clock - k.began
  | _ => True

/-- Whether something has been stored since `c` began to wait. -/
def stored [DecidableEq T] (c : T) : List (TimedStep T α) → Bool
  | [] => false
  | .exec (.pop d _) .waits :: h => if d = c then false else stored c h
  | .exec (.push _ _) (.bool true) :: _ => true
  | _ :: h => stored c h

/-- A section that leaves nothing in the queue: it takes what there is, and there is one item, or it clears. -/
def Shared.Empties (s : Shared T α) : Section T α → Prop
  | .clear _ => True
  | .pop _ _ | .wake _ true => s.queue.size = 1
  | _ => False

/-- **What the timed waits need** of the threads and the clock. -/
structure Undisturbed [DecidableEq T] (h : List (TimedStep T α)) (s : Timed T α) (i : TimedStep T α) : Prop where
  /-- A call that comes to wait, before its time, began at a whole second and is for whole seconds. -/
  whole : ∀ c k, i = .exec (.pop c true) .waits → s.calls c = some k → s.clock < k.due →
    k.now.usec = 0 ∧ k.msTimeout.tmod 1000 = 0
  /-- It is woken, before its time, only if something has been stored for it to find. -/
  pushed : ∀ c k answer, i = .exec (.wake c true) answer → s.calls c = some k → s.clock < k.due →
    stored c h = true
  /-- Nobody else takes the last of that. -/
  left : ∀ c j answer, i = .exec j answer → s.shared.Empties j → c ≠ j.thread →
    s.shared.threads c = .waiting true → stored c h = false
  /-- A wait for which something has been stored does not fail, but is woken. -/
  failed : ∀ c k answer, i = .exec (.wake c false) answer → s.calls c = some k → stored c h = false

section
variable {q q' : BlockQueue α} {x : α}

theorem pop_some (h : q.pop = .ok (some x, q')) : 0 < q.size ∧ q'.size = q.size - 1 := by
  unfold pop at h
  split at h
  · cases h
  · rename_i hsize
    obtain ⟨⟨y, q₁⟩, htake, h⟩ := bind_eq_ok.mp h
    cases h
    obtain ⟨z, -, htake⟩ := bind_eq_ok.mp htake
    cases htake
    exact ⟨Int.not_le.mp hsize, rfl⟩

theorem push_size {stored : Bool} (h : q.push x = .ok (stored, q')) :
    q'.size = if stored then q.size + 1 else q.size := by
  unfold push at h
  split at h
  · cases h
    rfl
  · obtain ⟨q₁, hwrite, h⟩ := bind_eq_ok.mp h
    cases h
    unfold write at hwrite
    split at hwrite
    · cases hwrite
    · cases hwrite
      rfl

end

section
variable [DecidableEq T] {maxSize : Nat} {s s' : Shared T α} {i : Section T α} {answer : Answer α}

/-! ## What a section does to its thread -/

/-- A thread whose call is over is in none. -/
theorem exec_returns (hen : s.Enabled i) (hexec : s.exec i = .ok (answer, s')) (hreturns : answer.returns = true) :
    s'.threads = Function.update s.threads i.thread .out := by
  have hout : ∀ {c : T}, s.threads c = .out → s.threads = Function.update s.threads c .out := by
    intro c hc
    rw [← hc, Function.update_eq_self]
  cases Shared.exec_does hexec with
  | push | clear | size | empty | full | pop => exact hout hen
  | begins | again => cases hreturns
  | woken | gives | failed => rfl

/-- A thread that waits has begun to, or was not to be woken. -/
theorem exec_waits (hexec : s.exec i = .ok (answer, s')) (hwaits : answer.returns = false) :
    (∃ c timed, i = .pop c timed ∧ s'.threads = Function.update s.threads c (.waiting timed)) ∨
      s'.threads = s.threads := by
  cases Shared.exec_does hexec with
  | @begins c timed q => exact .inl ⟨c, timed, rfl, rfl⟩
  | again => exact .inr rfl
  | push | clear | size | empty | full | pop | woken | gives | failed => cases hwaits

/-- A call returns `false` for want of an item at the end of a wait alone. -/
theorem exec_fails (hexec : s.exec i = .ok (.fails, s')) :
    ∃ c signalled, i = .wake c signalled ∧ (signalled = true → s.queue.size ≤ 0) := by
  cases Shared.exec_does hexec with
  | @gives c q hpop => exact ⟨c, true, rfl, fun _ => (pop_none hpop).1⟩
  | @failed c => exact ⟨c, false, rfl, fun hfalse => by cases hfalse⟩

/-- A thread is in a timed wait after a section of its own only if that is where the wait begins. -/
theorem exec_begins (hen : s.Enabled i) (hexec : s.exec i = .ok (answer, s'))
    (hwaiting : s'.threads i.thread = .waiting true) :
    ∃ c, i = .pop c true ∧ answer = .waits ∧ s.queue.size ≤ 0 ∧ s'.queue = s.queue := by
  have hout : ∀ {c : T}, s.threads c = .out → s.threads c ≠ .waiting true := by
    intro c hc hwaits
    cases hc.symm.trans hwaits
  cases Shared.exec_does hexec with
  | push | clear | size | empty | full | pop => exact absurd hwaiting (hout hen)
  | @begins c timed q hpop =>
    obtain ⟨hempty, rfl⟩ := pop_none hpop
    obtain rfl : timed = true := by simpa [Section.thread] using hwaiting
    exact ⟨c, rfl, rfl, hempty, rfl⟩
  | again hpop hother => exact absurd hwaiting hother
  | woken | gives | failed => simp [Section.thread] at hwaiting

/-- The other threads stay where they are. -/
theorem exec_others {c : T} (hexec : s.exec i = .ok (answer, s')) (hne : c ≠ i.thread) :
    s'.threads c = s.threads c := by
  cases Shared.exec_does hexec with
  | push | clear | size | empty | full | pop | again => rfl
  | begins | woken | gives | failed => exact Function.update_of_ne hne _ _

/-- **The item of a thread that waits** is there as long as nobody else has taken the last. -/
theorem stored_exec {c : T} {h : List (TimedStep T α)} (hexec : s.exec i = .ok (answer, s')) (hne : c ≠ i.thread)
    (hsize : 0 ≤ s.queue.size) (hc : stored c h = true ↔ 0 < s.queue.size)
    (hleft : s.Empties i → stored c h = false) :
    stored c (.exec i answer :: h) = true ↔ 0 < s'.queue.size := by
  have htaken : ∀ {size : Int}, 0 < s.queue.size → size = s.queue.size - 1 →
      (s.queue.size = 1 → stored c h = false) → (stored c h = true ↔ 0 < size) := by
    intro size hpos hsize hone
    have hstored := hc.mpr hpos
    have hmore : s.queue.size ≠ 1 := fun h1 => by rw [hone h1] at hstored; cases hstored
    exact iff_of_true hstored (by omega)
  cases Shared.exec_does hexec with
  | @push d item pushed q hpush =>
    have hq := push_size hpush
    cases pushed with
    | false => rwa [← show q.size = s.queue.size from hq] at hc
    | true =>
      rw [if_pos rfl] at hq
      refine iff_of_true rfl ?_
      show 0 < q.size
      omega
  | clear =>
    refine iff_of_false ?_ (Int.lt_irrefl 0)
    show ¬ stored c h = true
    rw [hleft trivial]
    exact Bool.false_ne_true
  | size | empty | full => exact hc
  | pop hpop =>
    obtain ⟨hpos, hsize⟩ := pop_some hpop
    exact htaken hpos hsize hleft
  | woken hpop =>
    obtain ⟨hpos, hsize⟩ := pop_some hpop
    exact htaken hpos hsize hleft
  | begins hpop =>
    obtain ⟨-, rfl⟩ := pop_none hpop
    show (if _ then false else stored c h) = true ↔ _
    rwa [if_neg fun he => hne he.symm]
  | gives hpop | again hpop =>
    obtain ⟨-, rfl⟩ := pop_none hpop
    exact hc
  | failed => exact hc

/-- One in a timed wait that is woken to an empty queue gives up. -/
theorem exec_wake_empty {c : T} (htimed : s.threads c = .waiting true) (hempty : s.queue.size = 0)
    (hexec : s.exec (.wake c true) = .ok (answer, s')) : answer = .fails := by
  have hnone : s.queue.pop = .ok (none, s.queue) := if_pos (by omega)
  cases Shared.exec_does hexec with
  | woken hpop =>
    rw [hnone] at hpop
    cases hpop
  | gives => rfl
  | again hpop hother => exact absurd htimed hother

end

/-! ## Who is in a timed wait -/

section
variable [DecidableEq T] {maxSize : Nat} {s t u : Timed T α} {h : List (TimedStep T α)} {i : TimedStep T α}

/-- A wait is a timed one if and only if its thread has read the clock. -/
def Timed.Phased (s : Timed T α) : Prop :=
  ∀ c timed, s.shared.threads c = .waiting timed → (timed = true ↔ ∃ k, s.calls c = some k)

theorem Timed.Phased.exec {i : Section T α} {answer : Answer α} {shared : Shared T α} (hs : s.Phased)
    (hen : s.Enabled i) (henabled : s.shared.Enabled i) (hexec : s.shared.exec i = .ok (answer, shared)) :
    Timed.Phased { s with
      shared := shared
      calls := if answer.returns then Function.update s.calls i.thread none else s.calls } := by
  intro c timed hwaiting
  cases hreturns : answer.returns with
  | true =>
    have hthreads := exec_returns henabled hexec hreturns
    have hne : c ≠ i.thread := by
      rintro rfl
      rw [show shared.threads = _ from hthreads, Function.update_self] at hwaiting
      cases hwaiting
    rw [show shared.threads = _ from hthreads, Function.update_of_ne hne] at hwaiting
    simp only [if_true]
    rw [Function.update_of_ne hne]
    exact hs c timed hwaiting
  | false =>
    simp only [Bool.false_eq_true, if_false]
    rcases exec_waits hexec hreturns with ⟨d, timed', rfl, hthreads⟩ | hthreads
    · rw [show shared.threads = _ from hthreads] at hwaiting
      by_cases hc : c = d
      · -- it has begun to wait
        subst hc
        rw [Function.update_self] at hwaiting
        cases hwaiting
        cases timed with
        | true => exact iff_of_true rfl hen
        | false =>
          have hnone : s.calls c = none := hen
          refine iff_of_false (fun hfalse => by cases hfalse) ?_
          rintro ⟨k, hk⟩
          rw [hnone] at hk
          cases hk
      · rw [Function.update_of_ne hc] at hwaiting
        exact hs c timed hwaiting
    · rw [show shared.threads = _ from hthreads] at hwaiting
      exact hs c timed hwaiting

theorem Timed.Phased.step (hs : s.Phased) (hstep : (timedQueue T α maxSize).step s i u) : u.Phased := by
  cases i with
  | elapse n =>
    obtain rfl : u = { s with clock := s.clock + n } := hstep
    exact hs
  | call d msTimeout =>
    obtain ⟨-, hout, -, rfl⟩ := hstep
    intro c timed hwaiting
    have hne : c ≠ d := by
      rintro rfl
      rw [show s.shared.threads c = .out from hout] at hwaiting
      cases hwaiting
    show timed = true ↔ ∃ k, Function.update s.calls d _ c = some k
    rw [Function.update_of_ne hne]
    exact hs c timed hwaiting
  | exec i answer =>
    obtain ⟨hen, shared, ⟨henabled, hexec⟩, rfl⟩ := hstep
    exact hs.exec hen henabled hexec

theorem phased (ht : (timedQueue T α maxSize).Reachable t) : t.Phased := by
  refine ht.invariant (fun hstart => ?_) fun hs hstep => hs.step hstep
  rename_i s
  obtain ⟨⟨array, -, hshared⟩, -⟩ := hstart
  intro c timed hwaiting
  rw [hshared] at hwaiting
  cases hwaiting

/-- A section, if it is one, as a step of the queue and its threads. -/
def TimedStep.section : TimedStep T α → Option (Section T α × Answer α)
  | .exec i answer => some (i, answer)
  | _ => none

theorem timed_size (hmax : 1 ≤ maxSize) (ht : (timedQueue T α maxSize).Reachable t) :
    0 ≤ t.shared.queue.size := by
  obtain ⟨s, h, hstart, hrun⟩ := ht
  have hproject : (blockQueue T α maxSize).Run s.shared (h.filterMap TimedStep.section) t.shared := by
    refine hrun.project Timed.shared TimedStep.section ?_
    intro t i u hstep
    cases i with
    | elapse n =>
      obtain rfl : u = _ := hstep
      rfl
    | call c msTimeout =>
      obtain ⟨-, -, -, rfl⟩ := hstep
      rfl
    | exec i answer =>
      obtain ⟨-, shared, hstep, rfl⟩ := hstep
      exact hstep
  exact (bounded_fifo hmax hstart.1 hproject).2.1.1

/-! ## The waits that are not disturbed -/

omit [DecidableEq T] in
/-- A thread that has read the clock, and waits, is in a timed wait. -/
theorem Timed.Phased.waiting {c : T} {k : TimedCall} (hs : s.Phased) (hin : s.shared.threads c ≠ .out)
    (hk : s.calls c = some k) : s.shared.threads c = .waiting true := by
  cases hthread : s.shared.threads c with
  | out => exact absurd hthread hin
  | waiting timed =>
    obtain rfl := (hs c timed hthread).mpr ⟨k, hk⟩
    rfl

/-- **The invariant**: no deadline is early that is still to come, and there is an item for those for whom
    one was stored. -/
structure Watched (h : List (TimedStep T α)) (s : Timed T α) : Prop where
  whole : ∀ c k, s.calls c = some k → s.shared.threads c = .waiting true → s.clock < k.due → k.shortfall = 0
  item : ∀ c, s.shared.threads c = .waiting true → (stored c h = true ↔ 0 < s.shared.queue.size)

section
variable {i : Section T α} {answer : Answer α} {shared : Shared T α}

theorem Watched.exec (hs : Watched h s) (hsize : 0 ≤ s.shared.queue.size) (henabled : s.shared.Enabled i)
    (hexec : s.shared.exec i = .ok (answer, shared)) (hund : Undisturbed h s (.exec i answer)) :
    Watched (.exec i answer :: h) { s with
      shared := shared
      calls := if answer.returns then Function.update s.calls i.thread none else s.calls } := by
  have hcalls : ∀ c, c ≠ i.thread →
      (if answer.returns then Function.update s.calls i.thread none else s.calls) c = s.calls c := by
    intro c hne
    split
    · exact Function.update_of_ne hne _ _
    · rfl
  constructor
  · intro c k hk hwaiting hearly
    by_cases hc : c = i.thread
    · -- it has begun to wait
      subst hc
      obtain ⟨c, rfl, rfl, -⟩ := exec_begins henabled hexec hwaiting
      obtain ⟨husec, hmod⟩ := hund.whole c k rfl hk hearly
      simp [TimedCall.shortfall, husec, hmod]
    · exact hs.whole c k ((hcalls c hc).symm.trans hk) ((exec_others hexec hc).symm.trans hwaiting) hearly
  · intro c hwaiting
    by_cases hc : c = i.thread
    · subst hc
      obtain ⟨c, rfl, rfl, hempty, hqueue⟩ := exec_begins henabled hexec hwaiting
      refine iff_of_false (by simp [stored, Section.thread]) ?_
      show ¬ 0 < shared.queue.size
      rw [hqueue]
      omega
    · have hwaited : s.shared.threads c = .waiting true := (exec_others hexec hc).symm.trans hwaiting
      exact stored_exec hexec hc hsize (hs.item c hwaited) fun hempties =>
        hund.left c i answer rfl hempties hc hwaited

end

theorem Watched.step (hmax : 1 ≤ maxSize) (ht : (timedQueue T α maxSize).Reachable t) (hs : Watched h t)
    (hstep : (timedQueue T α maxSize).step t i u) (hund : Undisturbed h t i) : Watched (i :: h) u := by
  cases i with
  | elapse n =>
    obtain rfl : u = { t with clock := t.clock + n } := hstep
    refine ⟨fun c k hk hwaiting hearly => hs.whole c k hk hwaiting ?_, hs.item⟩
    exact Int.lt_of_le_of_lt (Int.le_add_of_nonneg_right (Int.natCast_nonneg n)) hearly
  | call d msTimeout =>
    obtain ⟨-, hout, -, rfl⟩ := hstep
    refine ⟨fun c k hk hwaiting => hs.whole c k ?_ hwaiting, hs.item⟩
    have hne : c ≠ d := by
      rintro rfl
      cases hout.symm.trans hwaiting
    exact (Function.update_of_ne hne _ _).symm.trans hk
  | exec i answer =>
    obtain ⟨-, shared, ⟨henabled, hexec⟩, rfl⟩ := hstep
    exact hs.exec (timed_size hmax ht) henabled hexec hund

theorem watched (hmax : 1 ≤ maxSize) (hstart : (timedQueue T α maxSize).start s)
    (hrun : (timedQueue T α maxSize).RunUnder Undisturbed s h t) : Watched h t := by
  refine hrun.invariant (I := Watched) (fun ht hs hstep hund => hs.step hmax ht hstep hund) hstart ?_
  obtain ⟨⟨array, -, hshared⟩, -⟩ := hstart
  have hthreads : ∀ c, s.shared.threads c = .out := fun c => by rw [hshared]
  constructor
  · intro c k _ hwaiting
    cases (hthreads c).symm.trans hwaiting
  · intro c hwaiting
    cases (hthreads c).symm.trans hwaiting

/-- **No `false` is wrong** where nothing has been disturbed. -/
theorem Watched.right (hs : Watched h t) (hphased : t.Phased) (hsize : 0 ≤ t.shared.queue.size)
    (hstep : (timedQueue T α maxSize).step t i u) (hund : Undisturbed h t i) : Right t i := by
  cases i with
  | elapse | call => trivial
  | exec i answer =>
    obtain ⟨hen, shared, ⟨henabled, hexec⟩, -⟩ := hstep
    cases answer with
    | done | bool | int | item | waits => trivial
    | fails =>
      intro k hk
      obtain ⟨c, signalled, rfl, hempty⟩ := exec_fails hexec
      have hitem := hs.item c (hphased.waiting henabled hk)
      have hdue : k.due ≤ t.clock := by
        by_contra hearly
        have hearly : t.clock < k.due := Int.not_le.mp hearly
        cases signalled with
        | true =>
          have hpos := hitem.mp (hund.pushed c k _ rfl hk hearly)
          have hnone := hempty rfl
          omega
        | false =>
          have hdeadline : k.deadline.nanoseconds ≤ 1000 * t.clock := hen k hk
          have hwhole := hs.whole c k hk (hphased.waiting henabled hk) hearly
          have hearlier := k.deadline_shortfall
          omega
      refine ⟨?_, by unfold TimedCall.due at hdue; omega⟩
      cases signalled with
      | true => exact Int.le_antisymm (hempty rfl) hsize
      | false =>
        have hnone : ¬ 0 < t.shared.queue.size := fun hpos => by
          cases (hund.failed c k _ rfl hk).symm.trans (hitem.mpr hpos)
        omega

/-- **When a timed pop waits its time**, in a run of any threads: no `false` is wrong where each call that
    comes to wait is for whole seconds from a whole second on, it is woken only by what is stored, nobody
    else takes that, and a wait for which something was stored does not fail. -/
theorem pops_right (hmax : 1 ≤ maxSize) (hstart : (timedQueue T α maxSize).start s)
    (hrun : (timedQueue T α maxSize).RunUnder Undisturbed s h t) :
    ((timedQueue T α maxSize).restrict Right).Run s h t :=
  hrun.restrict fun hrun hstep hund =>
    (watched hmax hstart hrun).right (phased ⟨s, _, hstart, hrun.run⟩) (timed_size hmax ⟨s, _, hstart, hrun.run⟩)
      hstep hund

/-! ## That the conditions are needed -/

theorem timeout_nonneg {c : T} {k : TimedCall} (ht : (timedQueue T α maxSize).Reachable t)
    (hk : t.calls c = some k) : 0 ≤ k.msTimeout := by
  refine ht.invariant (I := fun t => ∀ c k, t.calls c = some k → 0 ≤ k.msTimeout) ?_ ?_ c k hk
  · intro s hstart c k hk
    cases (hstart.2 c).symm.trans hk
  · intro t i u ht hstep c k hk
    cases i with
    | elapse n =>
      obtain rfl : u = _ := hstep
      exact ht c k hk
    | call d msTimeout =>
      obtain ⟨hms, -, -, rfl⟩ := hstep
      by_cases hc : c = d
      · subst hc
        cases (Function.update_self ..).symm.trans hk
        exact hms
      · exact ht c k ((Function.update_of_ne hc _ _).symm.trans hk)
    | exec i answer =>
      obtain ⟨-, shared, -, rfl⟩ := hstep
      simp only at hk
      split at hk
      · by_cases hc : c = i.thread
        · subst hc
          cases (Function.update_self ..).symm.trans hk
        · exact ht c k ((Function.update_of_ne hc _ _).symm.trans hk)
      · exact ht c k hk

omit [DecidableEq T] in
/-- A `false` before the time is wrong. -/
theorem early_wrong {i : Section T α} {k : TimedCall} (hk : t.calls i.thread = some k) (hearly : t.clock < k.due) :
    ¬ Right t (.exec i .fails) := by
  intro hright
  have hpassed := (hright k hk).2
  unfold TimedCall.due at hearly
  omega

/-- A deadline that is early is one to fail at. -/
theorem fails_early {c : T} {k : TimedCall} (htimed : t.shared.threads c = .waiting true) (hk : t.calls c = some k)
    (hms : 0 ≤ k.msTimeout) (hshortfall : k.shortfall ≠ 0) (hearly : t.clock < k.due) :
    ∃ h' v j w, (timedQueue T α maxSize).Run t h' v ∧ (timedQueue T α maxSize).step v j w ∧ ¬ Right v j := by
  have hnonneg := k.shortfall_nonneg hms
  have hdeadline := k.deadline_shortfall
  let v : Timed T α := { t with clock := t.clock + (k.due - k.shortfall - t.clock).toNat }
  have hfails : (timedQueue T α maxSize).step v (.exec (.wake c false) .fails) { v with
      shared := { t.shared with threads := Function.update t.shared.threads c .out }
      calls := Function.update t.calls c none } := by
    refine ⟨?_, _, ⟨?_, rfl⟩, rfl⟩
    · intro k' hk'
      cases hk.symm.trans hk'
      show _ ≤ 1000 * (t.clock + ((k.due - k.shortfall - t.clock).toNat : Int))
      omega
    · intro hout
      cases htimed.symm.trans hout
  have hstill : v.clock < k.due := by
    show t.clock + ((k.due - k.shortfall - t.clock).toNat : Int) < k.due
    omega
  exact ⟨[.elapse _], v, _, _, (System.Run.nil t).step rfl, hfails, early_wrong hk hstill⟩

/-- One in a timed wait may be woken whenever it is, and gives up where there is nothing. -/
theorem wakes_empty {c : T} {k : TimedCall} (htimed : t.shared.threads c = .waiting true) (hk : t.calls c = some k)
    (hempty : t.shared.queue.size = 0) (hearly : t.clock < k.due) :
    ∃ h' v j w, (timedQueue T α maxSize).Run t h' v ∧ (timedQueue T α maxSize).step v j w ∧ ¬ Right v j := by
  have hnone : t.shared.queue.pop = .ok (none, t.shared.queue) := if_pos (by omega)
  have hexec : t.shared.exec (.wake c true) =
      .ok (.fails, ⟨t.shared.queue, Function.update t.shared.threads c .out⟩) := by
    simp only [Shared.exec, if_true, hnone]
    exact if_pos htimed
  have henabled : t.shared.Enabled (.wake c true) := by
    intro hout
    cases htimed.symm.trans hout
  exact ⟨[], t, .exec (.wake c true) .fails, _, .nil t, ⟨trivial, _, ⟨henabled, hexec⟩, rfl⟩, early_wrong hk hearly⟩

theorem Shared.Empties.size {s s' : Shared T α} {i : Section T α} {answer : Answer α} (hempties : s.Empties i)
    (hexec : s.exec i = .ok (answer, s')) : s'.queue.size = 0 := by
  cases Shared.exec_does hexec with
  | push | size | empty | full | failed => exact hempties.elim
  | clear => rfl
  | pop hpop | woken hpop =>
    have hone : s.queue.size = 1 := hempties
    have htaken := (pop_some hpop).2
    rw [hone] at htaken
    exact htaken
  | begins hpop | gives hpop | again hpop =>
    have hone : s.queue.size = 1 := hempties
    have hnone := (pop_none hpop).1
    omega

/-- **The first disturbance** in a run makes a `false` wrong, the one it is or one that may follow, as long
    as nobody has waited for his time. -/
theorem disturbed_wrong (hmax : 1 ≤ maxSize) (hstart : (timedQueue T α maxSize).start s)
    (hrun : (timedQueue T α maxSize).RunUnder Undisturbed s h t) (hstep : (timedQueue T α maxSize).step t i u)
    (hsoon : ∀ c k, t.shared.threads c = .waiting true → t.calls c = some k → t.clock < k.due)
    (hbroken : ¬ Undisturbed h t i) :
    ¬ Right t i ∨ ∃ h' v j w, (timedQueue T α maxSize).Run u h' v ∧ (timedQueue T α maxSize).step v j w ∧
      ¬ Right v j := by
  have hreach : (timedQueue T α maxSize).Reachable t := ⟨s, h, hstart, hrun.run⟩
  have hphased := phased hreach
  have hsize := timed_size hmax hreach
  have hwatched := watched hmax hstart hrun
  rw [or_iff_not_imp_left, not_not]
  intro hright
  by_contra hlater
  refine hbroken ⟨?_, ?_, ?_, ?_⟩
  · -- the deadline comes too soon
    rintro c k rfl hk hearly
    by_contra hwhole
    obtain ⟨-, shared, ⟨-, hexec⟩, rfl⟩ := hstep
    have htimed : shared.threads c = .waiting true := by
      cases Shared.exec_does hexec with
      | begins => exact Function.update_self ..
    have hms := timeout_nonneg hreach hk
    have hshortfall : k.shortfall ≠ 0 := fun hzero => hwhole ((k.shortfall_eq_zero_iff hms).mp hzero)
    exact hlater (fails_early htimed hk hms hshortfall hearly)
  · -- it is woken for nothing
    rintro c k answer rfl hk hearly
    by_contra hnothing
    obtain ⟨-, shared, ⟨henabled, hexec⟩, -⟩ := hstep
    have htimed := hphased.waiting henabled hk
    have hempty : t.shared.queue.size = 0 := by
      have hnone : ¬ 0 < t.shared.queue.size := fun hpos => hnothing ((hwatched.item c htimed).mpr hpos)
      omega
    obtain rfl := exec_wake_empty htimed hempty hexec
    exact early_wrong hk hearly hright
  · -- the item is gone when it is woken
    rintro c j answer rfl hempties hne htimed
    by_contra hstored
    obtain ⟨-, shared, ⟨-, hexec⟩, rfl⟩ := hstep
    obtain ⟨k, hk⟩ := (hphased c true htimed).mp rfl
    have hcalls : (if answer.returns then Function.update t.calls j.thread none else t.calls) c = some k := by
      split
      · exact (Function.update_of_ne hne _ _).trans hk
      · exact hk
    have hwaiting : shared.threads c = .waiting true := (exec_others hexec hne).trans htimed
    exact hlater (wakes_empty hwaiting hcalls (hempties.size hexec) (hsoon c k htimed hk))
  · -- there is an item when it fails
    rintro c k answer rfl hk
    by_contra hstored
    obtain ⟨-, shared, ⟨henabled, hexec⟩, -⟩ := hstep
    have hpos := (hwatched.item c (hphased.waiting henabled hk)).mp (Bool.eq_true_of_not_eq_false hstored)
    cases Shared.exec_does hexec with
    | failed =>
      have hempty := (hright k hk).1
      omega

/-- One thread, and an empty queue of one. -/
def oneWait (clock : Int) (call : Option TimedCall) (thread : Popper) : Timed Unit Nat :=
  ⟨⟨initial [0], fun _ => thread⟩, clock, fun _ => call⟩

theorem update_unit {β : Type} (a b : β) : Function.update (fun _ : Unit => a) () b = fun _ => b := by
  funext c
  rfl

/-- Its call begins. -/
theorem oneWait_call (msTimeout : Int) (hms : 0 ≤ msTimeout) : (timedQueue Unit Nat 1).step
    (oneWait 0 none .out) (.call () msTimeout) (oneWait 0 (some ⟨0, msTimeout⟩) .out) := by
  refine ⟨hms, rfl, rfl, ?_⟩
  simp only [oneWait, update_unit]

/-- It waits. -/
theorem oneWait_waits (msTimeout : Int) : (timedQueue Unit Nat 1).step (oneWait 0 (some ⟨0, msTimeout⟩) .out)
    (.exec (.pop () true) .waits) (oneWait 0 (some ⟨0, msTimeout⟩) (.waiting true)) := by
  refine ⟨⟨_, rfl⟩, ⟨initial [0], fun _ => .waiting true⟩, ⟨rfl, ?_⟩, rfl⟩
  rw [← update_unit .out]
  rfl

/-- Time passes. -/
theorem oneWait_elapse (msTimeout : Int) (n : Nat) : (timedQueue Unit Nat 1).step
    (oneWait 0 (some ⟨0, msTimeout⟩) (.waiting true)) (.elapse n)
    (oneWait (0 + n) (some ⟨0, msTimeout⟩) (.waiting true)) := rfl

/-- Its wait fails, at its deadline. -/
theorem oneWait_fails {msTimeout : Int} {n : Nat}
    (hdeadline : (TimedCall.mk 0 msTimeout).deadline.nanoseconds ≤ 1000 * (0 + n)) :
    (timedQueue Unit Nat 1).step (oneWait (0 + n) (some ⟨0, msTimeout⟩) (.waiting true))
      (.exec (.wake () false) .fails) (oneWait (0 + n) none .out) := by
  refine ⟨?_, ⟨initial [0], fun _ => .out⟩, ⟨(fun hout => by cases hout), ?_⟩, ?_⟩
  · intro k hk
    cases hk
    exact hdeadline
  · rw [← update_unit (.waiting true)]
    rfl
  · simp only [oneWait, Answer.returns, if_true, Section.thread, update_unit]

/-- A second, from a whole second on. -/
theorem pops_right_second : ((timedQueue Unit Nat 1).restrict Right).Run (oneWait 0 none .out)
    [.exec (.wake () false) .fails, .elapse 1000000, .exec (.pop () true) .waits, .call () 1000]
    (oneWait 1000000 none .out) := by
  refine pops_right (by decide) ⟨⟨[0], rfl, rfl⟩, fun _ => rfl⟩ ?_
  have hcall := (System.RunUnder.nil (P := Undisturbed) _).step (oneWait_call 1000 (by decide))
    ⟨nofun, nofun, nofun, nofun⟩
  have hwaits := hcall.step (oneWait_waits 1000) ⟨?_, nofun, ?_, nofun⟩
  have helapse := hwaits.step (oneWait_elapse 1000 1000000) ⟨nofun, nofun, nofun, nofun⟩
  refine helapse.step (oneWait_fails (by decide)) ⟨nofun, nofun, ?_, ?_⟩
  · rintro c j answer - - hne
    exact absurd rfl hne
  · rintro c k answer - -
    rfl
  · rintro c k - hk -
    cases hk
    exact ⟨rfl, rfl⟩
  · rintro c j answer - - hne
    exact absurd rfl hne

/-- Half a second, and `false` half a millisecond later. -/
theorem not_right_early : ∃ t t', (timedQueue Unit Nat 1).Run (oneWait 0 none .out)
      [.elapse 500, .exec (.pop () true) .waits, .call () 500] t ∧
    (timedQueue Unit Nat 1).step t (.exec (.wake () false) .fails) t' ∧
    ¬ Right t (.exec (.wake () false) .fails) := by
  have hrun := ((System.Run.nil _).step (oneWait_call 500 (by decide))).step (oneWait_waits 500)
  refine ⟨_, _, hrun.step (oneWait_elapse 500 500), oneWait_fails (by decide), fun hright => ?_⟩
  have hlong := (hright ⟨0, 500⟩ rfl).2
  exact absurd hlong (by decide)

end

end BlockQueue

end LinuxServer
