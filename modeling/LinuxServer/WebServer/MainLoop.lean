import LinuxServer.Timer.Queue
import LinuxServer.Lib.System

/-!
# `WebServer/MainLoop.lean` — what the main thread does to connections and timers

`WebServer::eventLoop` and the functions it calls, restricted to what they do to the timer list, to
the table `users_timer`, to `http_conn::m_user_count` and to the open client descriptors. A step is
one event the loop handles: an accepted connection, a hang-up, a readable or writable descriptor
with the outcome of its `read_once()` or `write()`, or the alarm that makes the loop call
`timer_handler`. `epoll_wait` answers in batches, and a batch is a sequence of such steps: it names
a descriptor at most once, and the main thread closes a descriptor only in handling an event on it
or in the tick behind the batch, so a descriptor is still open when its turn comes.

The kernel is asked for two things only, and `Enabled` states them: `accept` answers a descriptor
that is not open, and `epoll_wait` reports open client descriptors. `new` answers an address at
which no timer is allocated. `users_timer` is indexed by any descriptor here; whether the index
stays inside the array is a different question from what the entries say.
-/

set_option autoImplicit false

namespace LinuxServer
namespace WebServer

open Timer

/-- `MAX_FD`. -/
def maxFd : Int := 65536

/-- `TIMESLOT`. -/
def timeslot : Int := 5

/-- One slot of `users_timer`, its `address` left out: nothing here reads it. -/
structure ClientData where
  sockfd : Nat
  timer : Option Ptr
  deriving DecidableEq, Repr

/-- What was asked of the kernel about client descriptors. -/
inductive KernelCall
  | accept (fd : Nat)
  | close (fd : Nat)
  deriving DecidableEq, Repr

structure State where
  timerLst : SortTimerLst
  usersTimer : Nat → ClientData
  userCount : Int
  /-- The client descriptors that are open, and so registered with epoll. -/
  openFds : List Nat
  /-- The ledger, newest first. No function reads it. -/
  calls : List KernelCall

namespace State

/-- `close(fd)`; a descriptor that is not open is not closed again. -/
def close (w : State) (fd : Nat) : Except Fault State :=
  if fd ∈ w.openFds then
    .ok { w with openFds := w.openFds.erase fd, calls := .close fd :: w.calls }
  else .error .badDescriptor

/-- `accept` answered `connfd`. -/
def accept (w : State) (connfd : Nat) : State :=
  { w with openFds := connfd :: w.openFds, calls := .accept connfd :: w.calls }

/-- `cb_func(user_data)`. -/
def cbFunc (w : State) (userData : Nat) : Except Fault State := do
  let w ← w.close (w.usersTimer userData).sockfd
  return { w with userCount := w.userCount - 1 }

/-- `timer(connfd, client_address)`: `users[connfd].init`, the slot, and a new timer at `p`. -/
def timer (w : State) (connfd : Nat) (p : Ptr) (cur : Int) : Except Fault State := do
  let lst ← (w.timerLst.alloc p (cur + 3 * timeslot) connfd).addTimer (some p)
  return { w with
    timerLst := lst
    usersTimer := Function.update w.usersTimer connfd ⟨connfd, some p⟩
    userCount := w.userCount + 1 }

/-- `dealclientdata()`, from an `accept` that answered `connfd` on. In edge-triggered listen mode
    the source repeats this once per pending connection. -/
def dealclientdata (w : State) (connfd : Nat) (p : Ptr) (cur : Int) : Except Fault State :=
  if w.userCount ≥ maxFd then
    (w.accept connfd).close connfd  -- `show_error`
  else
    (w.accept connfd).timer connfd p cur

/-- `adjust_timer(timer)`. -/
def adjustTimer (w : State) (timer : Option Ptr) (cur : Int) : Except Fault State := do
  let lst ← w.timerLst.setExpire timer (cur + 3 * timeslot) >>= fun lst => lst.adjustTimer timer
  return { w with timerLst := lst }

/-- `deal_timer(timer, sockfd)`. `timer->cb_func` is read before `timer` is tested for null. -/
def dealTimer (w : State) (timer : Option Ptr) (sockfd : Nat) : Except Fault State := do
  let _ ← w.timerLst.load timer
  let w ← w.cbFunc sockfd
  let lst ← w.timerLst.delTimer timer
  return { w with timerLst := lst }

/-- What `dealwithread` and `dealwithwrite` share, once their transfer has answered. -/
def dealwith (w : State) (sockfd : Nat) (transferred : Bool) (cur : Int) : Except Fault State :=
  let timer := (w.usersTimer sockfd).timer
  if transferred then
    if timer.isSome then w.adjustTimer timer cur else .ok w
  else
    w.dealTimer timer sockfd

/-- `dealwithread(sockfd)`, the proactor's branch, `read_once()` having answered `readOnce`. -/
def dealwithread (w : State) (sockfd : Nat) (readOnce : Bool) (cur : Int) : Except Fault State :=
  w.dealwith sockfd readOnce cur

/-- `dealwithwrite(sockfd)`, the proactor's branch, `write()` having answered `write`. -/
def dealwithwrite (w : State) (sockfd : Nat) (write : Bool) (cur : Int) : Except Fault State :=
  w.dealwith sockfd write cur

/-- `timer_handler()`: `tick()`, its callbacks included. They are made while the list is walked,
    and neither the walk nor a callback reads what the other writes. -/
def timerHandler (w : State) (cur : Int) : Except Fault State := do
  let (fired, lst) ← w.timerLst.tick cur
  fired.foldlM cbFunc { w with timerLst := lst }

end State

/-- One event of the loop, with what the kernel, the allocator and the clock answer. -/
inductive Event
  | connect (connfd : Nat) (p : Ptr) (cur : Int)
  | hangup (sockfd : Nat)
  | read (sockfd : Nat) (readOnce : Bool) (cur : Int)
  | write (sockfd : Nat) (write : Bool) (cur : Int)
  | alarm (cur : Int)
  deriving DecidableEq, Repr

def State.exec (w : State) : Event → Except Fault State
  | .connect connfd p cur => w.dealclientdata connfd p cur
  | .hangup sockfd => w.dealTimer (w.usersTimer sockfd).timer sockfd
  | .read sockfd readOnce cur => w.dealwithread sockfd readOnce cur
  | .write sockfd write cur => w.dealwithwrite sockfd write cur
  | .alarm cur => w.timerHandler cur

/-- What the kernel and the allocator promise about an event. -/
def State.Enabled (w : State) : Event → Prop
  | .connect connfd p _ => connfd ∉ w.openFds ∧ w.timerLst.data p = none
  | .hangup sockfd => sockfd ∈ w.openFds
  | .read sockfd _ _ => sockfd ∈ w.openFds
  | .write sockfd _ _ => sockfd ∈ w.openFds
  | .alarm _ => True

instance (w : State) : (e : Event) → Decidable (w.Enabled e)
  | .connect .. => inferInstanceAs (Decidable (_ ∧ _))
  | .hangup .. | .read .. | .write .. => inferInstanceAs (Decidable (_ ∈ _))
  | .alarm .. => .isTrue trivial

/-- The event loop. It starts with no connection, whatever the table holds. -/
def eventLoop : System State Event where
  start w := w.timerLst = SortTimerLst.empty ∧ w.userCount = 0 ∧ w.openFds = [] ∧ w.calls = []
  step w e w' := w.Enabled e ∧ w.exec e = .ok w'

/-! ## The books -/

/-- Every accepted descriptor has been closed once, but for those that are open. -/
def Ledger (w : State) : Prop :=
  ∀ fd, w.calls.count (.accept fd) = w.calls.count (.close fd) + w.openFds.count fd

/-- **The invariant.** Timers and open descriptors name each other through the table: a timer's
    slot is open and points back at it, and every open descriptor has a timer. That the two are in
    bijection follows, since a slot points at one timer only. -/
structure Accounts (w : State) (l : List Ptr) : Prop where
  listed : w.timerLst.Listed l
  table : ∀ {p : Ptr} {d : Int × Nat}, w.timerLst.data p = some d →
    d.2 ∈ w.openFds ∧ w.usersTimer d.2 = ⟨d.2, some p⟩
  cover : ∀ fd ∈ w.openFds, ∃ p e, w.timerLst.data p = some (e, fd)
  nodup : w.openFds.Nodup
  count : w.userCount = w.openFds.length
  ledger : Ledger w

section
variable {w w' : State} {l : List Ptr} {fd : Nat}

theorem Accounts.start (h : eventLoop.start w) : Accounts w [] := by
  obtain ⟨hlst, hcount, hopen, hcalls⟩ := h
  refine ⟨by rw [hlst]; exact SortTimerLst.empty_listed, ?_, ?_, ?_, ?_, ?_⟩
  · intro p d hd; rw [hlst] at hd; simp [SortTimerLst.data, SortTimerLst.empty] at hd
  · rw [hopen]; simp
  · rw [hopen]; exact .nil
  · rw [hcount, hopen]; rfl
  · unfold Ledger; rw [hcalls, hopen]; simp

/-- The timer of an open descriptor, and what the table says of it. -/
theorem Accounts.timer_of_open (h : Accounts w l) (hfd : fd ∈ w.openFds) :
    ∃ p e, w.timerLst.data p = some (e, fd) ∧ w.usersTimer fd = ⟨fd, some p⟩ :=
  let ⟨p, e, hd⟩ := h.cover fd hfd
  ⟨p, e, hd, (h.table hd).2⟩

/-- Two timers of one slot are one timer. -/
theorem Accounts.slot_injective (h : Accounts w l) {p q : Ptr} {d d' : Int × Nat}
    (hp : w.timerLst.data p = some d) (hq : w.timerLst.data q = some d') (hs : d.2 = d'.2) :
    p = q := by
  have h1 := (h.table hp).2
  rw [hs, (h.table hq).2] at h1
  simpa using h1.symm

theorem State.close_of_open (hfd : fd ∈ w.openFds) :
    w.close fd = .ok { w with openFds := w.openFds.erase fd, calls := .close fd :: w.calls } := by
  simp [State.close, hfd]

/-- Accepting a descriptor keeps the ledger. -/
theorem ledger_accept (h : Ledger w) (fd : Nat) : Ledger (w.accept fd) := by
  intro fd'
  have hl := h fd'
  simp only [State.accept, List.count_cons, beq_iff_eq, KernelCall.accept.injEq, reduceCtorEq,
    if_false]
  omega

/-- Closing an open one does too. -/
theorem ledger_close (h : Ledger w) (hfd : fd ∈ w.openFds) : Ledger
    { w with openFds := w.openFds.erase fd, calls := .close fd :: w.calls } := by
  intro fd'
  have hl := h fd'
  have hpos := List.count_pos_iff.mpr hfd
  simp only [List.count_cons, beq_iff_eq, KernelCall.close.injEq, reduceCtorEq, if_false]
  by_cases he : fd = fd'
  · subst he
    simp only [List.count_erase_self, if_true]
    omega
  · simp only [List.count_erase_of_ne (Ne.symm he), if_neg he, hl, Nat.add_zero]

/-! ## What one event does -/

theorem Accounts.connect (h : Accounts w l) (hfd : fd ∉ w.openFds) {p : Ptr}
    (hp : w.timerLst.data p = none) (cur : Int) :
    ∃ w', w.dealclientdata fd p cur = .ok w' ∧
      ((w.userCount < maxFd ∧
          ∃ l', Accounts w' l' ∧ w'.openFds = fd :: w.openFds ∧
            w'.timerLst.data = Function.update w.timerLst.data p (some (cur + 3 * timeslot, fd)) ∧
            (w.timerLst.Ascending l → w'.timerLst.Ascending l')) ∨
        (maxFd ≤ w.userCount ∧ Accounts w' l ∧ w'.openFds = w.openFds ∧
          w'.timerLst = w.timerLst)) := by
  unfold State.dealclientdata
  by_cases hfull : w.userCount ≥ maxFd
  · -- refused: accepted and closed at once
    have hopen : fd ∈ (w.accept fd).openFds := List.mem_cons_self
    have herase : (w.accept fd).openFds.erase fd = w.openFds := List.erase_cons_head ..
    rw [if_pos hfull, State.close_of_open hopen, herase]
    refine ⟨_, rfl, Or.inr ⟨hfull, ⟨h.listed, h.table, h.cover, h.nodup, h.count, ?_⟩, rfl, rfl⟩⟩
    have hl := ledger_close (ledger_accept h.ledger fd) hopen
    rwa [herase] at hl
  · obtain ⟨lst, l', hlst, hl', -, hdata, hasc⟩ := h.listed.add hp (cur + 3 * timeslot) fd
    let w' : State := { w.accept fd with
      timerLst := lst
      usersTimer := Function.update w.usersTimer fd ⟨fd, some p⟩
      userCount := w.userCount + 1 }
    have hw' : (w.accept fd).timer fd p cur = .ok w' := by
      simp only [State.timer]; rw [show (w.accept fd).timerLst = w.timerLst from rfl, hlst]; rfl
    rw [if_neg hfull, hw']
    refine ⟨w', rfl, Or.inl ⟨not_le.mp hfull, l', ⟨hl', ?_, ?_, ?_, ?_, ?_⟩, rfl, hdata, hasc⟩⟩
    · intro q d hd
      rw [show w'.timerLst.data = _ from hdata] at hd
      by_cases hq : q = p
      · subst hq
        rw [Function.update_self] at hd
        cases hd
        exact ⟨List.mem_cons_self, Function.update_self ..⟩
      · rw [Function.update_of_ne hq] at hd
        obtain ⟨hopen, htab⟩ := h.table hd
        have hne : d.2 ≠ fd := fun e => hfd (e ▸ hopen)
        exact ⟨List.mem_cons_of_mem _ hopen, (Function.update_of_ne hne ..).trans htab⟩
    · intro fd' hfd'
      rw [show w'.timerLst.data = _ from hdata]
      rcases List.mem_cons.mp hfd' with rfl | hfd'
      · exact ⟨p, _, Function.update_self ..⟩
      · obtain ⟨q, e, hd⟩ := h.cover fd' hfd'
        have hq : q ≠ p := fun e => by rw [e, hp] at hd; cases hd
        exact ⟨q, e, by rw [Function.update_of_ne hq, hd]⟩
    · exact List.nodup_cons.mpr ⟨hfd, h.nodup⟩
    · show w.userCount + 1 = ((fd :: w.openFds).length : Int)
      rw [h.count, List.length_cons]; push_cast; rfl
    · exact ledger_accept h.ledger fd

theorem Accounts.dealTimer (h : Accounts w l) (hfd : fd ∈ w.openFds) {p : Ptr} {e : Int}
    (hp : w.timerLst.data p = some (e, fd)) :
    ∃ w', w.dealTimer (w.usersTimer fd).timer fd = .ok w' ∧ Accounts w' (l.erase p) ∧
      w'.openFds = w.openFds.erase fd ∧
      w'.timerLst.data = Function.update w.timerLst.data p none ∧
      (w.timerLst.Ascending l → w'.timerLst.Ascending (l.erase p)) := by
  have htab : w.usersTimer fd = ⟨fd, some p⟩ := (h.table hp).2
  obtain ⟨n, hn, -⟩ := SortTimerLst.lookup_of_data hp
  obtain ⟨lst, hlst, hl', hdata, hasc⟩ := h.listed.del hp
  let w' : State := { w with
    timerLst := lst
    openFds := w.openFds.erase fd
    calls := .close fd :: w.calls
    userCount := w.userCount - 1 }
  refine ⟨w', ?_, ⟨hl', ?_, ?_, ?_, ?_, ?_⟩, rfl, hdata, hasc⟩
  · simp only [State.dealTimer, htab, SortTimerLst.load_of_lookup hn, State.cbFunc,
      State.close_of_open hfd, hlst, bind, Except.bind, pure, Except.pure]
    rfl
  · intro q d hd
    rw [show w'.timerLst.data = _ from hdata] at hd
    have hq : q ≠ p := by rintro rfl; rw [Function.update_self] at hd; cases hd
    rw [Function.update_of_ne hq] at hd
    obtain ⟨hopen, htab'⟩ := h.table hd
    have hne : d.2 ≠ fd := fun hs => hq (h.slot_injective hd hp hs)
    exact ⟨(List.mem_erase_of_ne hne).mpr hopen, htab'⟩
  · intro fd' hfd'
    have hmem := (h.nodup.mem_erase_iff).mp hfd'
    obtain ⟨q, e', hd⟩ := h.cover fd' hmem.2
    have hq : q ≠ p := by
      rintro rfl
      rw [hp] at hd
      exact hmem.1 (by simpa using (congrArg Prod.snd (Option.some.inj hd)).symm)
    exact ⟨q, e', by rw [show w'.timerLst.data = _ from hdata, Function.update_of_ne hq, hd]⟩
  · exact h.nodup.erase fd
  · have hpos := List.length_pos_of_mem hfd
    show w.userCount - 1 = ((w.openFds.erase fd).length : Int)
    rw [h.count, List.length_erase_of_mem hfd]
    omega
  · exact ledger_close h.ledger hfd

theorem Accounts.adjust (h : Accounts w l) {p : Ptr} {e : Int}
    (hp : w.timerLst.data p = some (e, fd)) (cur : Int) :
    ∃ w', w.adjustTimer (some p) cur = .ok w' ∧ ∃ l', Accounts w' l' ∧ w'.openFds = w.openFds ∧
      w'.timerLst.data = Function.update w.timerLst.data p (some (cur + 3 * timeslot, fd)) ∧
      (w.timerLst.Ascending l → e ≤ cur + 3 * timeslot → w'.timerLst.Ascending l') := by
  obtain ⟨lst, l', hlst, hl', -, hdata, hasc⟩ := h.listed.adjust hp (cur + 3 * timeslot)
  refine ⟨{ w with timerLst := lst }, ?_, l', ⟨hl', ?_, ?_, h.nodup, h.count, h.ledger⟩, rfl, hdata,
    hasc⟩
  · simp only [State.adjustTimer]; rw [hlst]; rfl
  · intro q d hd
    simp only [hdata] at hd
    by_cases hq : q = p
    · subst hq
      rw [Function.update_self] at hd
      cases hd
      have htab := h.table hp
      exact htab
    · rw [Function.update_of_ne hq] at hd; exact h.table hd
  · intro fd' hfd'
    obtain ⟨q, e', hd⟩ := h.cover fd' hfd'
    by_cases hq : q = p
    · subst hq
      rw [hp] at hd
      cases hd
      exact ⟨q, cur + 3 * timeslot, by simp only [hdata, Function.update_self]⟩
    · exact ⟨q, e', by simp only [hdata, Function.update_of_ne hq, hd]⟩

/-- The callbacks of one tick, on slots that are all open and all different. -/
theorem foldlM_cbFunc {us : List Nat} (hnd : us.Nodup)
    (hopen : ∀ u ∈ us, u ∈ w.openFds ∧ (w.usersTimer u).sockfd = u)
    (hcount : w.userCount = w.openFds.length) (hledger : Ledger w) :
    ∃ w', us.foldlM State.cbFunc w = .ok w' ∧ w'.openFds = w.openFds.diff us ∧
      w'.timerLst = w.timerLst ∧ w'.usersTimer = w.usersTimer ∧
      w'.userCount = w'.openFds.length ∧ Ledger w' := by
  induction us generalizing w with
  | nil => exact ⟨w, rfl, by simp, rfl, rfl, hcount, hledger⟩
  | cons u us ih =>
    obtain ⟨hu, hnd⟩ := List.nodup_cons.mp hnd
    obtain ⟨hmem, hsock⟩ := hopen u List.mem_cons_self
    let w₁ : State := { w with
      openFds := w.openFds.erase u, calls := .close u :: w.calls, userCount := w.userCount - 1 }
    have hw₁ : w.cbFunc u = .ok w₁ := by
      simp only [State.cbFunc, hsock, State.close_of_open hmem, bind, Except.bind]; rfl
    have hpos := List.length_pos_of_mem hmem
    obtain ⟨w', hw', hopen', hrest⟩ := ih (w := w₁) hnd
      (fun v hv => by
        have hvu : v ≠ u := fun e => hu (e ▸ hv)
        obtain ⟨hvo, hvs⟩ := hopen v (List.mem_cons_of_mem _ hv)
        exact ⟨(List.mem_erase_of_ne hvu).mpr hvo, hvs⟩)
      (by simp only [w₁, hcount, List.length_erase_of_mem hmem]; omega)
      (ledger_close hledger hmem)
    refine ⟨w', ?_, by rw [hopen', List.diff_cons], hrest⟩
    rw [List.foldlM_cons, hw₁]
    exact hw'

/-- The timers a tick at `cur` takes off. -/
def State.evicted (w : State) (l : List Ptr) (cur : Int) : List Ptr :=
  l.takeWhile (SortTimerLst.due w.timerLst.data cur)

theorem Accounts.evicted_slots (h : Accounts w l) (cur : Int) :
    ((w.evicted l cur).map (SortTimerLst.slotIn w.timerLst.data)).Nodup ∧
      ∀ u, u ∈ (w.evicted l cur).map (SortTimerLst.slotIn w.timerLst.data) ↔
        ∃ p ∈ w.evicted l cur, ∃ e, w.timerLst.data p = some (e, u) := by
  have hsub := List.takeWhile_sublist (l := l) (SortTimerLst.due w.timerLst.data cur)
  have hslot : ∀ p ∈ w.evicted l cur, ∃ d, w.timerLst.data p = some d ∧
      SortTimerLst.slotIn w.timerLst.data p = d.2 := by
    intro p hp
    obtain ⟨d, hd⟩ := (h.listed.mem p).mp (hsub.subset hp)
    exact ⟨d, hd, by simp [SortTimerLst.slotIn, hd]⟩
  constructor
  · refine (h.listed.nodup.sublist hsub).map_on fun p hp q hq hpq => ?_
    obtain ⟨d, hd, hs⟩ := hslot p hp
    obtain ⟨d', hd', hs'⟩ := hslot q hq
    exact h.slot_injective hd hd' (by rw [← hs, hpq, hs'])
  · intro u
    rw [List.mem_map]
    constructor
    · rintro ⟨p, hp, rfl⟩
      obtain ⟨d, hd, hs⟩ := hslot p hp
      exact ⟨p, hp, d.1, by rw [hs]; exact hd⟩
    · rintro ⟨p, hp, e, hd⟩
      exact ⟨p, hp, by simp [SortTimerLst.slotIn, hd]⟩

theorem Accounts.alarm (h : Accounts w l) (cur : Int) :
    ∃ w', w.timerHandler cur = .ok w' ∧
      Accounts w' (l.dropWhile (SortTimerLst.due w.timerLst.data cur)) ∧
      w'.openFds = w.openFds.diff
        ((w.evicted l cur).map (SortTimerLst.slotIn w.timerLst.data)) ∧
      (∀ p, w'.timerLst.data p = if p ∈ w.evicted l cur then none else w.timerLst.data p) ∧
      w'.usersTimer = w.usersTimer ∧
      (w.timerLst.Ascending l →
        w'.timerLst.Ascending (l.dropWhile (SortTimerLst.due w.timerLst.data cur))) := by
  obtain ⟨lst, hlst, hl', hdata, hasc⟩ := h.listed.tick cur
  obtain ⟨hnd, hmem⟩ := h.evicted_slots cur
  have hslots : ∀ u ∈ (w.evicted l cur).map (SortTimerLst.slotIn w.timerLst.data),
      u ∈ w.openFds ∧ (w.usersTimer u).sockfd = u := by
    intro u hu
    obtain ⟨p, _, e, hd⟩ := (hmem u).mp hu
    exact ⟨(h.table hd).1, by rw [(h.table hd).2]⟩
  obtain ⟨w', hw', hopen, hlst', htab, hcount, hledger⟩ :=
    foldlM_cbFunc (w := { w with timerLst := lst }) hnd hslots h.count h.ledger
  have hdata' : ∀ p, w'.timerLst.data p =
      if p ∈ w.evicted l cur then none else w.timerLst.data p := by
    intro p; rw [hlst']; exact hdata p
  have hout : ∀ {p : Ptr} {d : Int × Nat}, w'.timerLst.data p = some d →
      p ∉ w.evicted l cur ∧ w.timerLst.data p = some d := by
    intro p d hd
    rw [hdata' p] at hd
    split at hd
    · cases hd
    · rename_i hp; exact ⟨hp, hd⟩
  refine ⟨w', ?_, ⟨by rw [hlst']; exact hl', ?_, ?_, ?_, hcount, hledger⟩, hopen, hdata', htab,
    by rw [hlst']; exact hasc⟩
  · simp only [State.timerHandler, hlst, bind, Except.bind]; exact hw'
  · intro p d hd
    obtain ⟨hp, hd⟩ := hout hd
    obtain ⟨ho, ht⟩ := h.table hd
    refine ⟨?_, by rw [htab]; exact ht⟩
    rw [hopen, h.nodup.mem_sdiff_iff]
    refine ⟨ho, fun hu => ?_⟩
    obtain ⟨q, hq, e, hdq⟩ := (hmem d.2).mp hu
    exact hp (h.slot_injective hd hdq rfl ▸ hq)
  · intro fd hfd
    rw [hopen, h.nodup.mem_sdiff_iff] at hfd
    obtain ⟨p, e, hd⟩ := h.cover fd hfd.1
    have hp : p ∉ w.evicted l cur := fun hp => hfd.2 ((hmem fd).mpr ⟨p, hp, e, hd⟩)
    exact ⟨p, e, by rw [hdata' p, if_neg hp, hd]⟩
  · rw [hopen]; exact h.nodup.diff

end

end WebServer
end LinuxServer
