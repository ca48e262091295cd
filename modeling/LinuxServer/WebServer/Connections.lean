import LinuxServer.WebServer.MainLoop

/-!
# `WebServer/Connections.lean` — every run keeps the books, and evicts exactly the idle

Two laws about all runs of the event loop.

`reachable_booked`: in every reachable state the timers and the open descriptors are in bijection,
the counter is their number, and no event the kernel may report makes the loop dereference a timer
it does not have or close a descriptor it has closed. The clock may do as it likes here.

`alarm_evicts_idle`: along a run whose clock never goes back, a tick at `cur` closes the connections
whose last accept or transfer was `3 * TIMESLOT` ago or longer, each once, and no others. What links
a deadline to an activity is `Active`, and it is an invariant about histories: every deadline in the
list is fifteen seconds behind the latest event of its connection.
-/

set_option autoImplicit false

namespace LinuxServer
namespace WebServer

open Timer

/-! ## The books are kept -/

/-- The timers of `m_timer_lst`, the table, the counter and the open descriptors agree. -/
structure Booked (w : State) : Prop where
  bijection : (w.timerLst.nodes.map fun p =>
    (w.usersTimer (SortTimerLst.slotIn w.timerLst.data p)).sockfd).Perm w.openFds
  distinct : w.openFds.Nodup
  live : ∀ fd ∈ w.openFds, ∃ p ∈ w.timerLst.nodes,
    w.usersTimer fd = ⟨fd, some p⟩ ∧ SortTimerLst.slotIn w.timerLst.data p = fd
  count : w.userCount = w.openFds.length
  ledger : Ledger w

section
variable {w : State} {l : List Ptr}

theorem Accounts.slot_of_mem (h : Accounts w l) {p : Ptr} (hp : p ∈ l) :
    ∃ e, w.timerLst.data p = some (e, SortTimerLst.slotIn w.timerLst.data p) := by
  obtain ⟨d, hd⟩ := (h.listed.mem p).mp hp
  exact ⟨d.1, by simp [SortTimerLst.slotIn, hd]⟩

theorem Accounts.booked (h : Accounts w l) : Booked w := by
  have hnodes := SortTimerLst.nodes_of_rep h.listed.toRep
  refine ⟨?_, h.nodup, fun fd hfd => ?_, h.count, h.ledger⟩
  · rw [hnodes]
    have hsock : ∀ p ∈ l, (w.usersTimer (SortTimerLst.slotIn w.timerLst.data p)).sockfd =
        SortTimerLst.slotIn w.timerLst.data p := by
      intro p hp
      obtain ⟨e, hd⟩ := h.slot_of_mem hp
      rw [(h.table hd).2]
    rw [List.map_congr_left hsock]
    refine (List.perm_ext_iff_of_nodup ?_ h.nodup).mpr fun fd => ?_
    · refine h.listed.nodup.map_on fun p hp q hq hpq => ?_
      obtain ⟨e, hd⟩ := h.slot_of_mem hp
      obtain ⟨e', hd'⟩ := h.slot_of_mem hq
      exact h.slot_injective hd hd' hpq
    · rw [List.mem_map]
      constructor
      · rintro ⟨p, hp, rfl⟩
        obtain ⟨e, hd⟩ := h.slot_of_mem hp
        exact (h.table hd).1
      · intro hfd
        obtain ⟨p, e, hd⟩ := h.cover fd hfd
        exact ⟨p, (h.listed.mem p).mpr ⟨_, hd⟩, by simp [SortTimerLst.slotIn, hd]⟩
  · obtain ⟨p, e, hd, htab⟩ := h.timer_of_open hfd
    refine ⟨p, ?_, htab, by simp [SortTimerLst.slotIn, hd]⟩
    rw [hnodes]
    exact (h.listed.mem p).mpr ⟨_, hd⟩

/-- **One event.** Whatever the kernel may report is handled without a fault, and the books are
    kept. -/
theorem Accounts.exec (h : Accounts w l) {e : Event} (he : w.Enabled e) :
    ∃ w', w.exec e = .ok w' ∧ ∃ l', Accounts w' l' := by
  have hdeal : ∀ fd ∈ w.openFds, ∃ w', w.dealTimer (w.usersTimer fd).timer fd = .ok w' ∧
      ∃ l', Accounts w' l' := by
    intro fd hfd
    obtain ⟨p, e, hd, -⟩ := h.timer_of_open hfd
    obtain ⟨w', hw', hacc, -⟩ := h.dealTimer hfd hd
    exact ⟨w', hw', _, hacc⟩
  have hwith : ∀ fd ∈ w.openFds, ∀ ok cur, ∃ w', w.dealwith fd ok cur = .ok w' ∧
      ∃ l', Accounts w' l' := by
    intro fd hfd ok cur
    cases ok with
    | false => exact hdeal fd hfd
    | true =>
      obtain ⟨p, e, hd, htab⟩ := h.timer_of_open hfd
      obtain ⟨w', hw', l', hacc, -⟩ := h.adjust hd cur
      exact ⟨w', by simp only [State.dealwith, htab, if_true, Option.isSome_some]; exact hw',
        l', hacc⟩
  cases e with
  | connect fd p cur =>
    obtain ⟨w', hw', hcase⟩ := h.connect he.1 he.2 cur
    rcases hcase with ⟨-, l', hacc, -⟩ | ⟨-, hacc, -⟩
    · exact ⟨w', hw', l', hacc⟩
    · exact ⟨w', hw', l, hacc⟩
  | hangup fd => exact hdeal fd he
  | read fd ok cur => exact hwith fd he ok cur
  | write fd ok cur => exact hwith fd he ok cur
  | alarm cur =>
    obtain ⟨w', hw', hacc, -⟩ := h.alarm cur
    exact ⟨w', hw', _, hacc⟩

end

theorem reachable_accounts {w : State} (h : eventLoop.Reachable w) : ∃ l, Accounts w l := by
  refine System.Reachable.invariant (I := fun w => ∃ l, Accounts w l)
    (fun hs => ⟨[], Accounts.start hs⟩) ?_ h
  rintro t e u ⟨l, hacc⟩ ⟨henabled, hexec⟩
  obtain ⟨w', hw', hacc'⟩ := hacc.exec henabled
  rw [hexec] at hw'
  cases hw'
  exact hacc'

/-- **Connection accounting.** In every reachable state the books agree, and every event the kernel
    may report next is handled: no timer is dereferenced or deleted that is not allocated, and no
    descriptor closed that is not open. -/
theorem reachable_booked {w : State} (h : eventLoop.Reachable w) :
    Booked w ∧ ∀ e, w.Enabled e → ∃ w', w.exec e = .ok w' := by
  obtain ⟨l, hacc⟩ := reachable_accounts h
  exact ⟨hacc.booked, fun e he => let ⟨w', hw', _⟩ := hacc.exec he; ⟨w', hw'⟩⟩

/-- The loop as it starts. -/
def idle : State := ⟨SortTimerLst.empty, fun _ => ⟨0, none⟩, 0, [], []⟩

/-- The state of the loop after `h`, newest event first, `idle` in the place of a fault. -/
def State.after : List Event → State
  | [] => idle
  | e :: h => ((State.after h).exec e).toOption.getD idle

/-- A descriptor that is accepted, hung up, and accepted again for another client. -/
theorem reachable_booked_reused :
    Booked (State.after [.connect 7 1 2, .hangup 7, .connect 7 1 0]) ∧
      ∀ e, (State.after [.connect 7 1 2, .hangup 7, .connect 7 1 0]).Enabled e →
        ∃ w', (State.after [.connect 7 1 2, .hangup 7, .connect 7 1 0]).exec e = .ok w' :=
  reachable_booked ⟨idle, [.connect 7 1 2, .hangup 7, .connect 7 1 0], ⟨rfl, rfl, rfl, rfl⟩,
    .step (.step (.step (.nil idle) ⟨by decide, rfl⟩) ⟨by decide, rfl⟩) ⟨by decide, rfl⟩⟩

/-! ## Idle connections -/

/-- What the clock read when an event was handled, for the events that read it. -/
def Event.time : Event → Option Int
  | .connect _ _ cur => some cur
  | .hangup _ => none
  | .read _ _ cur => some cur
  | .write _ _ cur => some cur
  | .alarm cur => some cur

/-- The clock never goes back along the history, newest event first. -/
def Chronological (h : List Event) : Prop := (h.filterMap Event.time).Pairwise fun a b => b ≤ a

instance (h : List Event) : Decidable (Chronological h) :=
  inferInstanceAs (Decidable (List.Pairwise ..))

/-- When a descriptor was last accepted, or last had a successful transfer. -/
def lastActive : List Event → Nat → Option Int
  | [], _ => none
  | .connect connfd _ cur :: h, fd => if connfd = fd then some cur else lastActive h fd
  | .read sockfd true cur :: h, fd => if sockfd = fd then some cur else lastActive h fd
  | .write sockfd true cur :: h, fd => if sockfd = fd then some cur else lastActive h fd
  | _ :: h, fd => lastActive h fd

theorem lastActive_le {h : List Event} {e : Event} {cur t : Int} {fd : Nat}
    (hclock : Chronological (e :: h)) (he : e.time = some cur) (ht : lastActive h fd = some t) :
    t ≤ cur := by
  have hmem : ∀ {h : List Event}, lastActive h fd = some t → t ∈ h.filterMap Event.time := by
    intro h
    induction h with
    | nil => intro ht; cases ht
    | cons e h ih =>
      intro ht
      rw [List.filterMap_cons]
      cases e with
      | hangup sockfd => exact ih ht
      | alarm cur => exact List.mem_cons_of_mem _ (ih ht)
      | connect connfd p cur =>
        rw [lastActive] at ht
        split at ht
        · cases ht; exact List.mem_cons_self
        · exact List.mem_cons_of_mem _ (ih ht)
      | read sockfd ok cur | write sockfd ok cur =>
        cases ok
        · exact List.mem_cons_of_mem _ (ih ht)
        · rw [lastActive] at ht
          split at ht
          · cases ht; exact List.mem_cons_self
          · exact List.mem_cons_of_mem _ (ih ht)
  rw [Chronological, List.filterMap_cons, he] at hclock
  exact (List.pairwise_cons.mp hclock).1 t (hmem ht)

theorem Chronological.tail {e : Event} {h : List Event} (hc : Chronological (e :: h)) :
    Chronological h := by
  rw [Chronological, List.filterMap_cons] at hc
  cases he : e.time with
  | none => rw [he] at hc; exact hc
  | some cur => rw [he] at hc; exact (List.pairwise_cons.mp hc).2

/-- The books, with the list in order and every deadline `3 * TIMESLOT` behind the last activity of
    the connection it is for. -/
structure Active (h : List Event) (w : State) (l : List Ptr) : Prop extends Accounts w l where
  ascending : w.timerLst.Ascending l
  deadline : ∀ {p : Ptr} {d : Int × Nat}, w.timerLst.data p = some d →
    ∃ t, lastActive h d.2 = some t ∧ d.1 = t + 3 * timeslot

section
variable {h : List Event} {w : State} {l : List Ptr}

theorem Active.connect (ha : Active h w l) {fd : Nat} {p : Ptr} {cur : Int}
    (he : w.Enabled (.connect fd p cur)) :
    ∃ w' l', w.exec (.connect fd p cur) = .ok w' ∧ Active (.connect fd p cur :: h) w' l' := by
  have hkeep : ∀ {q : Ptr} {d : Int × Nat}, w.timerLst.data q = some d →
      ∃ t, lastActive (.connect fd p cur :: h) d.2 = some t ∧ d.1 = t + 3 * timeslot := by
    intro q d hd
    have hne : fd ≠ d.2 := fun e => he.1 (e ▸ (ha.table hd).1)
    rw [lastActive, if_neg hne]
    exact ha.deadline hd
  obtain ⟨w', hw', hcase⟩ := ha.toAccounts.connect he.1 he.2 cur
  rcases hcase with ⟨-, l', hacc, -, hdata, hasc⟩ | ⟨-, hacc, -, hlst⟩
  · refine ⟨w', l', hw', hacc, hasc ha.ascending, fun {q d} hd => ?_⟩
    rw [hdata] at hd
    by_cases hq : q = p
    · subst hq
      rw [Function.update_self] at hd
      cases hd
      exact ⟨cur, by rw [lastActive, if_pos rfl], rfl⟩
    · rw [Function.update_of_ne hq] at hd; exact hkeep hd
  · exact ⟨w', l, hw', hacc, by rw [hlst]; exact ha.ascending, fun {q d} hd => hkeep (hlst ▸ hd)⟩

theorem Active.dealTimer (ha : Active h w l) {fd : Nat} (hfd : fd ∈ w.openFds) {e : Event}
    (hlast : ∀ u, lastActive (e :: h) u = lastActive h u) :
    ∃ w' l', w.dealTimer (w.usersTimer fd).timer fd = .ok w' ∧ Active (e :: h) w' l' := by
  obtain ⟨p, e', hp, -⟩ := ha.timer_of_open hfd
  obtain ⟨w', hw', hacc, -, hdata, hasc⟩ := ha.toAccounts.dealTimer hfd hp
  refine ⟨w', _, hw', hacc, hasc ha.ascending, fun {q d} hd => ?_⟩
  rw [hdata] at hd
  have hq : q ≠ p := by rintro rfl; rw [Function.update_self] at hd; cases hd
  rw [Function.update_of_ne hq] at hd
  rw [hlast]
  exact ha.deadline hd

/-- A transfer pushes its connection's deadline back, never forward: the clock has not gone back. -/
theorem Active.transfer (ha : Active h w l) {fd : Nat} (hfd : fd ∈ w.openFds) {e : Event}
    {cur : Int} (hclock : Chronological (e :: h)) (htime : e.time = some cur)
    (hlast : ∀ u, lastActive (e :: h) u = if fd = u then some cur else lastActive h u) :
    ∃ w' l', w.dealwith fd true cur = .ok w' ∧ Active (e :: h) w' l' := by
  obtain ⟨p, e', hp, htab⟩ := ha.timer_of_open hfd
  obtain ⟨t, ht, rfl⟩ := ha.deadline hp
  have hle : t ≤ cur := lastActive_le hclock htime ht
  obtain ⟨w', hw', l', hacc, -, hdata, hasc⟩ := ha.toAccounts.adjust hp cur
  refine ⟨w', l', ?_, hacc, hasc ha.ascending (by omega), fun {q d} hd => ?_⟩
  · simp only [State.dealwith, htab, if_true, Option.isSome_some]; exact hw'
  · rw [hdata] at hd
    by_cases hq : q = p
    · subst hq
      rw [Function.update_self] at hd
      cases hd
      exact ⟨cur, by rw [hlast, if_pos rfl], rfl⟩
    · rw [Function.update_of_ne hq] at hd
      have hne : fd ≠ d.2 := fun hs => hq (ha.slot_injective hd hp hs.symm)
      rw [hlast, if_neg hne]
      exact ha.deadline hd

theorem Active.alarm (ha : Active h w l) (cur : Int) :
    ∃ w' l', w.exec (.alarm cur) = .ok w' ∧ Active (.alarm cur :: h) w' l' := by
  obtain ⟨w', hw', hacc, -, hdata, -, hasc⟩ := ha.toAccounts.alarm cur
  refine ⟨w', _, hw', hacc, hasc ha.ascending, fun {q d} hd => ?_⟩
  rw [hdata q] at hd
  split at hd
  · cases hd
  · exact ha.deadline hd

theorem Active.exec (ha : Active h w l) {e : Event} (he : w.Enabled e)
    (hclock : Chronological (e :: h)) :
    ∃ w' l', w.exec e = .ok w' ∧ Active (e :: h) w' l' := by
  cases e with
  | connect fd p cur => exact ha.connect he
  | hangup fd => exact ha.dealTimer he fun _ => rfl
  | read fd ok cur =>
    cases ok with
    | true => exact ha.transfer he hclock rfl fun _ => rfl
    | false => exact ha.dealTimer he fun _ => rfl
  | write fd ok cur =>
    cases ok with
    | true => exact ha.transfer he hclock rfl fun _ => rfl
    | false => exact ha.dealTimer he fun _ => rfl
  | alarm cur => exact ha.alarm cur

theorem run_active {w₀ : State} (hstart : eventLoop.start w₀) (hrun : eventLoop.Run w₀ h w)
    (hclock : Chronological h) : ∃ l, Active h w l := by
  have hinv := hrun.invariant (I := fun h w => Chronological h → ∃ l, Active h w l)
    (fun {h t e u} ih hst hc => by
      obtain ⟨l, ha⟩ := ih hc.tail
      obtain ⟨w', l', hw', ha'⟩ := ha.exec hst.1 hc
      rw [hst.2] at hw'
      cases hw'
      exact ⟨l', ha'⟩)
    (fun _ => ⟨[], Accounts.start hstart, List.Pairwise.nil, fun {p d} hd => by
      rw [hstart.1] at hd; simp [SortTimerLst.data, SortTimerLst.empty] at hd⟩)
  exact hinv hclock

end

/-- **Idle eviction is exact.** After any run whose clock never went back, a tick reading `cur`
    makes one callback for each open connection whose last accept or transfer was at a `t` with
    `t + 3 * TIMESLOT ≤ cur`, and for no other connection; the timers of the others stay, as they
    were and in the order they had. -/
theorem alarm_evicts_idle {w₀ w : State} {h : List Event} {cur : Int}
    (hstart : eventLoop.start w₀) (hrun : eventLoop.Run w₀ h w)
    (hclock : Chronological (.alarm cur :: h)) :
    ∃ fired lst w', w.timerLst.tick cur = .ok (fired, lst) ∧ w.exec (.alarm cur) = .ok w' ∧
      fired.Nodup ∧
      (∀ fd, fd ∈ fired ↔
        fd ∈ w.openFds ∧ ∃ t, lastActive h fd = some t ∧ t + 3 * timeslot ≤ cur) ∧
      (∀ fd ∈ fired, (w.usersTimer fd).sockfd = fd) ∧
      (∀ fd, fd ∈ w'.openFds ↔ fd ∈ w.openFds ∧ fd ∉ fired) ∧
      w'.timerLst.nodes = w.timerLst.nodes.filter
        (fun p => SortTimerLst.slotIn w.timerLst.data p ∉ fired) ∧
      ∀ p ∈ w'.timerLst.nodes, w'.timerLst.data p = w.timerLst.data p := by
  obtain ⟨l, ha⟩ := run_active hstart hrun hclock.tail
  have hacc := ha.toAccounts
  have hnodes := SortTimerLst.nodes_of_rep hacc.listed.toRep
  have hanti := hacc.listed.due_antitone ha.ascending cur
  obtain ⟨lst, htick, -⟩ := hacc.listed.tick cur
  obtain ⟨w', hw', hacc', hopen, hdata, -⟩ := hacc.alarm cur
  obtain ⟨hnd, hslots⟩ := hacc.evicted_slots cur
  have hev : w.evicted l cur = l.filter (SortTimerLst.due w.timerLst.data cur) :=
    takeWhile_eq_filter hanti
  have hmem : ∀ fd, fd ∈ (w.evicted l cur).map (SortTimerLst.slotIn w.timerLst.data) ↔
      fd ∈ w.openFds ∧ ∃ t, lastActive h fd = some t ∧ t + 3 * timeslot ≤ cur := by
    intro fd
    rw [hslots]
    constructor
    · rintro ⟨p, hp, e, hd⟩
      rw [hev, List.mem_filter, hacc.listed.due_iff ((hacc.listed.mem p).mpr ⟨_, hd⟩)] at hp
      obtain ⟨t, ht, he⟩ := ha.deadline hd
      refine ⟨(hacc.table hd).1, t, ht, ?_⟩
      have hexp : w.timerLst.expireOf p = e := by simp [SortTimerLst.expireOf, hd]
      rw [← show e = t + 3 * timeslot from he, ← hexp]
      exact hp.2
    · rintro ⟨hfd, t, ht, hle⟩
      obtain ⟨p, e, hd, -⟩ := hacc.timer_of_open hfd
      obtain ⟨t', ht', he⟩ := ha.deadline hd
      rw [ht] at ht'
      cases ht'
      have hpl : p ∈ l := (hacc.listed.mem p).mpr ⟨_, hd⟩
      have hexp : w.timerLst.expireOf p = e := by simp [SortTimerLst.expireOf, hd]
      refine ⟨p, ?_, e, hd⟩
      rw [hev, List.mem_filter, hacc.listed.due_iff hpl, hexp]
      exact ⟨hpl, by rw [show e = t + 3 * timeslot from he]; exact hle⟩
  refine ⟨_, lst, w', htick, hw', hnd, hmem, ?_, ?_, ?_, ?_⟩
  · intro fd hfd
    obtain ⟨p, -, e, hd⟩ := (hslots fd).mp hfd
    rw [(hacc.table hd).2]
  · intro fd; rw [hopen, hacc.nodup.mem_sdiff_iff]; rfl
  · rw [SortTimerLst.nodes_of_rep hacc'.listed.toRep, hnodes, dropWhile_eq_filter hanti]
    refine List.filter_congr fun p hp => ?_
    obtain ⟨e, hd⟩ := hacc.slot_of_mem hp
    have hiff : SortTimerLst.slotIn w.timerLst.data p ∈
        (w.evicted l cur).map (SortTimerLst.slotIn w.timerLst.data) ↔
          SortTimerLst.due w.timerLst.data cur p = true := by
      rw [hslots]
      constructor
      · rintro ⟨q, hq, e', hd'⟩
        rw [hacc.slot_injective hd hd' rfl]
        rw [hev] at hq
        exact (List.mem_filter.mp hq).2
      · intro hdue
        exact ⟨p, by rw [hev]; exact List.mem_filter.mpr ⟨hp, hdue⟩, e, hd⟩
    cases hdue : SortTimerLst.due w.timerLst.data cur p
    · simpa [hdue, State.evicted] using hiff
    · simpa [hdue, State.evicted] using hiff
  · intro p hp
    rw [SortTimerLst.nodes_of_rep hacc'.listed.toRep] at hp
    rw [hdata p, if_neg]
    intro hp'
    rw [dropWhile_eq_filter hanti] at hp
    rw [hev] at hp'
    have := (List.mem_filter.mp hp).2
    rw [(List.mem_filter.mp hp').2] at this
    cases this

/-- Two connections, one of them read from at 10: the tick at 15 is for the other. -/
theorem alarm_evicts_idle_read :
    ∃ fired lst w', (State.after [.read 7 true 10, .connect 8 2 0, .connect 7 1 0]).timerLst.tick 15
        = .ok (fired, lst) ∧
      (State.after [.read 7 true 10, .connect 8 2 0, .connect 7 1 0]).exec (.alarm 15) = .ok w' ∧
      (∀ fd, fd ∈ fired ↔
        fd ∈ (State.after [.read 7 true 10, .connect 8 2 0, .connect 7 1 0]).openFds ∧
        ∃ t, lastActive [.read 7 true 10, .connect 8 2 0, .connect 7 1 0] fd = some t ∧
          t + 3 * timeslot ≤ 15) := by
  have hrun : eventLoop.Run idle [.read 7 true 10, .connect 8 2 0, .connect 7 1 0]
      (State.after [.read 7 true 10, .connect 8 2 0, .connect 7 1 0]) :=
    .step (.step (.step (.nil idle) ⟨by decide, rfl⟩) ⟨by decide, rfl⟩) ⟨by decide, rfl⟩
  have hclock : Chronological [.alarm 15, .read 7 true 10, .connect 8 2 0, .connect 7 1 0] := by
    decide
  obtain ⟨fired, lst, w', htick, hexec, -, hfired, -⟩ :=
    alarm_evicts_idle ⟨rfl, rfl, rfl, rfl⟩ hrun hclock
  exact ⟨fired, lst, w', htick, hexec, hfired⟩

end WebServer
end LinuxServer
