import LinuxServer.WebServer.Signals

/-!
# `WebServer/Ticks.lean` — when `tick()` is called, and what the signals add to the event loop

`eventLoop` has an event `alarm`, at any time and as often as one likes; in `signalled` it takes a SIGALRM
for each. A run of the one is a run of the other (`run_eventLoop`): an event of a client is an event, a
`tick()` is the event `alarm`, and every other step leaves the connections as they are. What has been said
about all runs of `eventLoop` is so said about the main thread with its signals, and the clock of these
does not go back.

What the signals add is when: two calls of `tick()` are `TIMESLOT` apart at least (`ticks_spaced`), and no
connection outlasts a call that finds it idle (`outlasts`).
-/

set_option autoImplicit false

namespace LinuxServer
namespace WebServer

open Timer

namespace Signalled

variable {capacity : Nat} {s₀ s s' : Signalled} {h : List Step}

/-- What `time(NULL)` answered to `tick()`. -/
def Step.tickTime : Step → Option Int
  | .tick cur => some cur
  | _ => none

/-- When the ticks were, newest first, and when the server was started. -/
def ticksSince (start : Int) (h : List Step) : List Int := h.filterMap Step.tickTime ++ [start]

theorem ticksSince_cons (start : Int) {i : Step} (hi : i.tickTime = none) (h : List Step) :
    ticksSince start (i :: h) = ticksSince start h := by
  rw [ticksSince, List.filterMap_cons_none hi, ticksSince]

/-- Behind every tick lies a `TIMESLOT` before the alarm that is set is due, or has been seen. -/
structure Due (ticks : List Int) (s : Signalled) : Prop where
  spaced : ticks.Pairwise fun a b => b + timeslot ≤ a
  set : ∀ t ∈ s.alarm, ∀ b ∈ ticks, b + timeslot ≤ t
  seen : .sigalrm ∈ s.pipe ∨ (s.timeout = true ∧ s.main.handles = true) → ∀ b ∈ ticks, b + timeslot ≤ s.now
  past : ∀ b ∈ ticks, b ≤ s.now

/-- Where the main thread is not among events, nothing has been seen but what is in the pipe. -/
theorem Regular.unseen (h : Regular capacity s) (hplace : s.main.handles = false) (hticked : s.main ≠ .ticked)
    (hrearmed : s.main ≠ .rearmed) : ¬ s.timeout = true := by
  intro hset
  rcases h.flagged hset with hmain | hmain | hmain
  · rw [hplace] at hmain; cases hmain
  · exact hticked hmain
  · exact hrearmed hmain

theorem Due.step {ticks : List Int} (hdue : Due ticks s) (hreg : Regular capacity s) {i : Step} (he : s.Enabled i)
    (hexec : s.exec capacity i = .ok s') (hi : i.tickTime = none) : Due ticks s' := by
  obtain ⟨hspaced, hset, hseen, hpast⟩ := hdue
  cases i with
  | setup =>
    obtain ⟨line, rest, hmain, rfl⟩ := exec_setup he hexec
    have hunseen := hreg.unseen (by rw [hmain]; rfl) (by simp [hmain]) (by simp [hmain])
    have hseen' : .sigalrm ∈ s.pipe ∨ (s.timeout = true ∧ (Place.listening rest).handles = true) →
        ∀ b ∈ ticks, b + timeslot ≤ s.now := by
      rintro (hmem | ⟨htimeout, -⟩)
      · exact hseen (Or.inl hmem)
      · exact absurd htimeout hunseen
    cases line with
    | addsig sig => exact ⟨hspaced, hset, hseen', hpast⟩
    | pipefd => exact ⟨hspaced, hset, hseen', hpast⟩
    | alarm =>
      refine ⟨hspaced, ?_, hseen', hpast⟩
      rintro t ⟨⟩ b hb
      exact Int.add_le_add_right (hpast b hb) timeslot
  | pass seconds =>
    cases hexec
    refine ⟨hspaced, hset, fun hsaw b hb => ?_, fun b hb => ?_⟩
    · exact (hseen hsaw b hb).trans (Int.le_add_of_nonneg_right (Int.natCast_nonneg seconds))
    · exact (hpast b hb).trans (Int.le_add_of_nonneg_right (Int.natCast_nonneg seconds))
  | deliver sig =>
    obtain ⟨-, rfl⟩ := exec_deliver hexec
    cases sig with
    | sigterm =>
      split
      · refine ⟨hspaced, hset, ?_, hpast⟩
        rintro (hmem | hflag)
        · exact hseen (Or.inl (by simpa using hmem))
        · exact hseen (Or.inr hflag)
      · exact ⟨hspaced, hset, hseen, hpast⟩
    | sigalrm =>
      -- the alarm that was set is due now
      have hnow : ∀ b ∈ ticks, b + timeslot ≤ s.now := by
        intro b hb
        have hdue := he.2 rfl
        cases halarm : s.alarm with
        | none => rw [halarm] at hdue; cases hdue
        | some t =>
          rw [halarm] at hdue
          exact (hset t halarm b hb).trans (of_decide_eq_true hdue)
      split
      · exact ⟨hspaced, (fun t ht => by cases ht), fun _ => hnow, hpast⟩
      · exact ⟨hspaced, (fun t ht => by cases ht), fun _ => hnow, hpast⟩
  | event e =>
    obtain ⟨w, -, rfl⟩ := exec_event hexec
    exact ⟨hspaced, hset, hseen, hpast⟩
  | report pipe =>
    cases hexec
    have hmain : s.main = .waiting := he.1
    have hunseen := hreg.unseen (by rw [hmain]; rfl) (by simp [hmain]) (by simp [hmain])
    refine ⟨hspaced, hset, ?_, hpast⟩
    rintro (hmem | ⟨htimeout, -⟩)
    · exact hseen (Or.inl hmem)
    · exact absurd htimeout hunseen
  | fail =>
    cases hexec
    refine ⟨hspaced, hset, ?_, hpast⟩
    rintro (hmem | ⟨-, hplace⟩)
    · exact hseen (Or.inl hmem)
    · cases hplace
  | signals =>
    cases hexec
    rw [dealwithsignal_snd]
    have hmain : s.main = .handling true := he
    refine ⟨hspaced, hset, ?_, hpast⟩
    rintro (hmem | ⟨htimeout, -⟩)
    · exact hseen (Or.inl (List.mem_of_mem_drop hmem))
    · simp only [Bool.or_eq_true, decide_eq_true_eq] at htimeout
      rcases htimeout with htimeout | hmem
      · exact hseen (Or.inr ⟨htimeout, by rw [hmain]; rfl⟩)
      · exact hseen (Or.inl (List.mem_of_mem_take hmem))
  | tick cur => cases hi
  | rearm =>
    cases hexec
    refine ⟨hspaced, ?_, ?_, hpast⟩
    · rintro t ⟨⟩ b hb
      exact Int.add_le_add_right (hpast b hb) timeslot
    · rintro (hmem | ⟨-, hplace⟩)
      · exact hseen (Or.inl hmem)
      · cases hplace
  | next =>
    cases hexec
    refine ⟨hspaced, hset, ?_, hpast⟩
    rintro (hmem | ⟨htimeout, -⟩)
    · exact hseen (Or.inl hmem)
    · cases htimeout

theorem Due.tick {ticks : List Int} (hdue : Due ticks s) (hreg : Regular capacity s) {cur : Int}
    (he : s.Enabled (.tick cur)) (hexec : s.exec capacity (.tick cur) = .ok s') : Due (cur :: ticks) s' := by
  obtain ⟨w, -, rfl⟩ := exec_tick hexec
  obtain ⟨hmain, htimeout, rfl⟩ := he
  have hnow := hdue.seen (Or.inr ⟨htimeout, by rw [hmain]; rfl⟩)
  -- the alarm that is seen is the one under way
  have hone := hreg.one
  simp only [underWay, hmain, htimeout] at hone
  have halarm : s.alarm = none := by
    cases halarm : s.alarm with
    | none => rfl
    | some t =>
      rw [halarm] at hone
      simp at hone
      omega
  have hpipe : Signal.sigalrm ∉ s.pipe := by
    intro hmem
    have hpos := List.count_pos_iff.mpr hmem
    simp at hone
    omega
  refine ⟨List.pairwise_cons.mpr ⟨hnow, hdue.spaced⟩, ?_, ?_, ?_⟩
  · intro t ht
    rw [show s.alarm = none from halarm] at ht
    cases ht
  · rintro (hmem | ⟨-, hplace⟩)
    · exact absurd hmem hpipe
    · cases hplace
  · exact List.forall_mem_cons.mpr ⟨Int.le_refl _, hdue.past⟩

theorem due (hstart : (signalled capacity).start s₀) (hrun : (signalled capacity).Run s₀ h s) :
    Due (ticksSince s₀.now h) s := by
  refine (hrun.invariant (I := fun h s => Regular capacity s ∧ Due (ticksSince s₀.now h) s) ?_
    ⟨Regular.start hstart, ?_⟩).2
  · rintro h t i u ⟨hreg, hdue⟩ ⟨he, hexec⟩
    refine ⟨hreg.exec he hexec, ?_⟩
    cases hi : i.tickTime with
    | none =>
      rw [ticksSince_cons _ hi]
      exact hdue.step hreg he hexec hi
    | some cur =>
      cases i with
      | tick cur => exact hdue.tick hreg he hexec
      | _ => cases hi
  · obtain ⟨-, hpipe, -, halarm, -, -, htimeout, -, -⟩ := hstart
    refine ⟨List.pairwise_singleton _ _, ?_, ?_, ?_⟩
    · rw [halarm]; exact (fun t ht => by cases ht)
    · rw [hpipe, htimeout]
      rintro (hmem | ⟨hset, -⟩)
      · cases hmem
      · cases hset
    · intro b hb
      rw [List.mem_singleton.mp hb]

/-- **`tick()` is not called too often**, in any run: two calls are `TIMESLOT` apart at least, and so are the
    start of the server and the first. -/
theorem ticks_spaced {capacity : Nat} {s₀ s : Signalled} {h : List Step}
    (hstart : (signalled capacity).start s₀) (hrun : (signalled capacity).Run s₀ h s) :
    (h.filterMap Step.tickTime ++ [s₀.now]).Pairwise fun a b => b + timeslot ≤ a :=
  (due hstart hrun).spaced

/-- Two alarms, and the second tick no sooner than it may be. -/
theorem ticks_spaced_two : ∃ s, after 1 [.tick 10, .signals, .report true, .deliver .sigalrm, .pass 5, .next, .rearm,
      .tick 5, .signals, .report true, .deliver .sigalrm, .pass 5, .next, .setup, .setup, .setup, .setup] = some s ∧
    [10, 5, 0].Pairwise fun a b => b + timeslot ≤ a := by
  obtain ⟨s, hs⟩ : ∃ s, after 1 [.tick 10, .signals, .report true, .deliver .sigalrm, .pass 5, .next, .rearm,
      .tick 5, .signals, .report true, .deliver .sigalrm, .pass 5, .next, .setup, .setup, .setup, .setup] = some s :=
    Option.isSome_iff_exists.mp (by decide)
  exact ⟨s, hs, ticks_spaced (boot_start 1) (run_of_after hs)⟩

/-! ## The event loop -/

/-- The event of `eventLoop` that a step is. -/
def observed : Step → Option Event
  | .event e => some e
  | .tick cur => some (.alarm cur)
  | _ => none

theorem loop_step {i : Step} (hstep : (signalled capacity).step s i s') :
    eventLoop.stepIf s.loop (observed i) s'.loop := by
  obtain ⟨he, hexec⟩ := hstep
  cases i with
  | setup =>
    obtain ⟨line, rest, -, rfl⟩ := exec_setup he hexec
    cases line <;> rfl
  | deliver sig =>
    obtain ⟨-, rfl⟩ := exec_deliver hexec
    show Signalled.loop (ite _ _ _) = s.loop
    split <;> rfl
  | event e =>
    obtain ⟨w, hw, rfl⟩ := exec_event hexec
    exact ⟨he.2.1, hw⟩
  | tick cur =>
    obtain ⟨w, hw, rfl⟩ := exec_tick hexec
    exact ⟨trivial, hw⟩
  | signals =>
    cases hexec
    show (s.dealwithsignal.2).loop = s.loop
    rw [dealwithsignal_snd]
  | pass seconds | report pipe | fail | rearm | next =>
    cases hexec
    rfl

/-- The clock is read, and does not go back. -/
theorem now_step {i : Step} (he : s.Enabled i) (hexec : s.exec capacity i = .ok s') :
    s.now ≤ s'.now ∧ ∀ e ∈ observed i, ∀ cur ∈ e.time, cur = s.now := by
  cases i with
  | setup =>
    obtain ⟨line, rest, -, rfl⟩ := exec_setup he hexec
    exact ⟨by cases line <;> exact Int.le_refl _, (fun e he => by cases he)⟩
  | deliver sig =>
    obtain ⟨-, rfl⟩ := exec_deliver hexec
    exact ⟨by split <;> exact Int.le_refl _, (fun e he => by cases he)⟩
  | event e =>
    obtain ⟨w, -, rfl⟩ := exec_event hexec
    refine ⟨Int.le_refl _, ?_⟩
    rintro e' ⟨⟩
    exact he.2.2.2
  | tick cur =>
    obtain ⟨w, -, rfl⟩ := exec_tick hexec
    refine ⟨Int.le_refl _, ?_⟩
    rintro e ⟨⟩ cur' ⟨⟩
    exact he.2.2
  | signals =>
    cases hexec
    rw [dealwithsignal_snd]
    exact ⟨Int.le_refl _, (fun e he => by cases he)⟩
  | pass seconds =>
    cases hexec
    exact ⟨Int.le_add_of_nonneg_right (Int.natCast_nonneg seconds), (fun e he => by cases he)⟩
  | report pipe | fail | rearm | next =>
    cases hexec
    exact ⟨Int.le_refl _, (fun e he => by cases he)⟩

theorem chronological (hrun : (signalled capacity).Run s₀ h s) : Chronological (h.filterMap observed) ∧
    ∀ cur ∈ (h.filterMap observed).filterMap Event.time, cur ≤ s.now := by
  refine hrun.invariant (I := fun h s => Chronological (h.filterMap observed) ∧
    ∀ cur ∈ (h.filterMap observed).filterMap Event.time, cur ≤ s.now) ?_
    ⟨List.Pairwise.nil, fun cur hcur => by cases hcur⟩
  rintro h t i u ⟨hclock, hpast⟩ ⟨he, hexec⟩
  obtain ⟨hle, htime⟩ := now_step he hexec
  have hpast' : ∀ cur ∈ (h.filterMap observed).filterMap Event.time, cur ≤ u.now :=
    fun cur hcur => (hpast cur hcur).trans hle
  cases hi : observed i with
  | none =>
    rw [List.filterMap_cons_none hi]
    exact ⟨hclock, hpast'⟩
  | some e =>
    rw [List.filterMap_cons_some hi]
    unfold Chronological
    cases hcur : e.time with
    | none =>
      rw [List.filterMap_cons_none hcur]
      exact ⟨hclock, hpast'⟩
    | some cur =>
      obtain rfl := htime e hi cur hcur
      rw [List.filterMap_cons_some hcur]
      exact ⟨List.pairwise_cons.mpr ⟨hpast, hclock⟩, List.forall_mem_cons.mpr ⟨hle, hpast'⟩⟩

/-- **The loop with its signals is the event loop**, with a clock that does not go back; and whatever may happen
    next is executed, but for a signal that comes before `u_pipefd` is stored. -/
theorem run_eventLoop {capacity : Nat} {s₀ s : Signalled} {h : List Step} (hstart : (signalled capacity).start s₀)
    (hrun : (signalled capacity).Run s₀ h s) :
    eventLoop.Run s₀.loop (h.filterMap observed) s.loop ∧ Chronological (h.filterMap observed) ∧
      ∀ i, s.Enabled i → (∃ s', s.exec capacity i = .ok s') ∨ (s.uPipefd = false ∧ ∃ sig, i = .deliver sig) := by
  have hloop := hrun.project Signalled.loop observed loop_step
  refine ⟨hloop, (chronological hrun).1, fun i he => ?_⟩
  obtain ⟨l, hacc⟩ := reachable_accounts ⟨s₀.loop, _, hstart.1, hloop⟩
  cases i with
  | setup =>
    simp only [exec]
    split <;> exact Or.inl ⟨_, rfl⟩
  | deliver sig =>
    cases hstored : s.uPipefd with
    | true => exact Or.inl (by simp only [exec, sigHandler, hstored, if_true]; exact ⟨_, rfl⟩)
    | false => exact Or.inr ⟨rfl, sig, rfl⟩
  | event e =>
    obtain ⟨w, hw, -⟩ := hacc.exec he.2.1
    exact Or.inl ⟨_, bind_eq_ok.mpr ⟨w, hw, rfl⟩⟩
  | tick cur =>
    obtain ⟨w, hw, -⟩ := hacc.exec (e := .alarm cur) trivial
    exact Or.inl ⟨_, bind_eq_ok.mpr ⟨w, hw, rfl⟩⟩
  | pass seconds | report pipe | fail | signals | rearm | next => exact Or.inl ⟨_, rfl⟩

/-- A client that connects, and the tick that comes five seconds later. -/
theorem run_eventLoop_connect : ∃ s, after 1 [.tick 5, .signals, .report true, .deliver .sigalrm, .pass 5, .next,
      .event (.connect 7 1 0), .report false, .next, .setup, .setup, .setup, .setup] = some s ∧
    eventLoop.Run idle [.alarm 5, .connect 7 1 0] s.loop := by
  obtain ⟨s, hs⟩ : ∃ s, after 1 [.tick 5, .signals, .report true, .deliver .sigalrm, .pass 5, .next,
      .event (.connect 7 1 0), .report false, .next, .setup, .setup, .setup, .setup] = some s :=
    Option.isSome_iff_exists.mp (by decide)
  exact ⟨s, hs, (run_eventLoop (boot_start 1) (run_of_after hs)).1⟩

/-! ## Idle connections -/

/-- Where a deadline comes from: it was there, and no tick at or behind it has been made; or it is fifteen
    seconds behind the event. -/
theorem data_exec {h : List Event} {w w' : State} {l : List Ptr} (ha : Active h w l) {e : Event}
    (he : w.Enabled e) (hexec : w.exec e = .ok w') {p : Ptr} {d : Int × Nat} (hd : w'.timerLst.data p = some d) :
    (w.timerLst.data p = some d ∧ ∀ cur, e = .alarm cur → cur < d.1) ∨
      ∃ cur ∈ e.time, d.1 = cur + 3 * timeslot := by
  have hdeal : ∀ fd ∈ w.openFds, w.dealTimer (w.usersTimer fd).timer fd = .ok w' → w.timerLst.data p = some d := by
    intro fd hfd hw
    obtain ⟨q, e', hq, -⟩ := ha.timer_of_open hfd
    obtain ⟨w'', hw'', -, -, hdata, -⟩ := ha.toAccounts.dealTimer hfd hq
    rw [hw] at hw''
    cases hw''
    rw [hdata] at hd
    by_cases hpq : p = q
    · subst hpq
      rw [Function.update_self] at hd
      cases hd
    · rwa [Function.update_of_ne hpq] at hd
  have hwith : ∀ fd ∈ w.openFds, ∀ ok cur, w.dealwith fd ok cur = .ok w' →
      w.timerLst.data p = some d ∨ d.1 = cur + 3 * timeslot := by
    intro fd hfd ok cur hw
    cases ok with
    | false => exact Or.inl (hdeal fd hfd hw)
    | true =>
      obtain ⟨q, e', hq, htab⟩ := ha.timer_of_open hfd
      obtain ⟨w'', hw'', l', -, -, hdata, -⟩ := ha.toAccounts.adjust hq cur
      simp only [State.dealwith, htab, if_true, Option.isSome_some] at hw
      rw [hw] at hw''
      cases hw''
      rw [hdata] at hd
      by_cases hpq : p = q
      · subst hpq
        rw [Function.update_self] at hd
        cases hd
        exact Or.inr rfl
      · exact Or.inl (by rwa [Function.update_of_ne hpq] at hd)
  cases e with
  | connect fd q cur =>
    obtain ⟨w'', hw'', hcase⟩ := ha.toAccounts.connect he.1 he.2 cur
    rw [show w.dealclientdata fd q cur = .ok w' from hexec] at hw''
    cases hw''
    rcases hcase with ⟨-, l', -, -, hdata, -⟩ | ⟨-, -, -, hlst⟩
    · rw [hdata] at hd
      by_cases hpq : p = q
      · subst hpq
        rw [Function.update_self] at hd
        cases hd
        exact Or.inr ⟨cur, rfl, rfl⟩
      · exact Or.inl ⟨by rwa [Function.update_of_ne hpq] at hd, (fun cur' he' => by cases he')⟩
    · exact Or.inl ⟨hlst ▸ hd, (fun cur' he' => by cases he')⟩
  | hangup fd => exact Or.inl ⟨hdeal fd he hexec, (fun cur he' => by cases he')⟩
  | read fd ok cur | write fd ok cur =>
    rcases hwith fd he ok cur hexec with hd | hd
    · exact Or.inl ⟨hd, (fun cur he' => by cases he')⟩
    · exact Or.inr ⟨cur, rfl, hd⟩
  | alarm cur =>
    obtain ⟨w'', hw'', -, -, hdata, -⟩ := ha.toAccounts.alarm cur
    rw [show w.timerHandler cur = .ok w' from hexec] at hw''
    cases hw''
    rw [hdata] at hd
    split at hd
    · cases hd
    · rename_i hkept
      refine Or.inl ⟨hd, ?_⟩
      rintro cur' ⟨⟩
      -- what is not taken off is not due
      have hmem : p ∈ l := (ha.listed.mem p).mpr ⟨d, hd⟩
      by_contra hdue
      rw [State.evicted, takeWhile_eq_filter (ha.listed.due_antitone ha.ascending cur), List.mem_filter,
        ha.listed.due_iff hmem] at hkept
      exact hkept ⟨hmem, by simpa [SortTimerLst.expireOf, hd] using hdue⟩

/-- Every deadline lies behind all ticks. -/
theorem deadline_lt (hstart : (signalled capacity).start s₀) (hrun : (signalled capacity).Run s₀ h s) {p : Ptr}
    {d : Int × Nat} (hd : s.loop.timerLst.data p = some d) : ∀ cur ∈ h.filterMap Step.tickTime, cur < d.1 := by
  induction hrun generalizing p d with
  | nil =>
    intro cur hcur
    cases hcur
  | @step t u h i hr hst ih =>
    intro cur hcur
    obtain ⟨i', hmem, hi'⟩ := List.mem_filterMap.mp hcur
    have hpast : ∀ b ∈ h.filterMap Step.tickTime, b ≤ t.now := fun b hb =>
      (due hstart hr).past b (List.mem_append_left _ hb)
    have hloop := loop_step hst
    cases hi : observed i with
    | none =>
      rw [hi] at hloop
      rcases List.mem_cons.mp hmem with rfl | hmem
      · cases i' with
        | tick c => cases hi
        | _ => cases hi'
      · rw [show u.loop = t.loop from hloop] at hd
        exact ih hd cur (List.mem_filterMap.mpr ⟨i', hmem, hi'⟩)
    | some e =>
      rw [hi] at hloop
      obtain ⟨l, ha⟩ := run_active hstart.1 (hr.project Signalled.loop observed loop_step) (chronological hr).1
      rcases data_exec ha hloop.1 hloop.2 hd with ⟨hd, halarm⟩ | ⟨cur', hcur', hd⟩
      · rcases List.mem_cons.mp hmem with rfl | hmem
        · -- the tick itself
          cases i' with
          | tick c =>
            cases hi'
            cases hi
            exact halarm cur rfl
          | _ => cases hi'
        · exact ih hd cur (List.mem_filterMap.mpr ⟨i', hmem, hi'⟩)
      · have hnow := (now_step hst.1 hst.2).2 e hi cur' hcur'
        have hle : cur ≤ t.now := by
          rcases List.mem_cons.mp hmem with rfl | hmem
          · cases i' with
            | tick c =>
              cases hi'
              exact Int.le_of_eq hst.1.2.2
            | _ => cases hi'
          · exact hpast cur (List.mem_filterMap.mpr ⟨i', hmem, hi'⟩)
        rw [hd, hnow]
        unfold timeslot
        omega

/-- **No connection outlasts a tick that finds it idle**, in any run: each that is open was accepted, or had a
    transfer, less than `3 * TIMESLOT` before every tick there has been. -/
theorem outlasts {capacity : Nat} {s₀ s : Signalled} {h : List Step} (hstart : (signalled capacity).start s₀)
    (hrun : (signalled capacity).Run s₀ h s) : ∀ fd ∈ s.loop.openFds,
      ∃ t, lastActive (h.filterMap observed) fd = some t ∧
        ∀ cur ∈ h.filterMap Step.tickTime, cur < t + 3 * timeslot := by
  intro fd hfd
  obtain ⟨l, ha⟩ := run_active hstart.1 (hrun.project Signalled.loop observed loop_step) (chronological hrun).1
  obtain ⟨p, e, hd, -⟩ := ha.timer_of_open hfd
  obtain ⟨t, ht, he⟩ := ha.deadline hd
  exact ⟨t, ht, fun cur hcur => he ▸ deadline_lt hstart hrun hd cur hcur⟩

/-- A connection made at 0 that is open behind the tick at 5. -/
theorem outlasts_connect : ∃ s, after 1 [.tick 5, .signals, .report true, .deliver .sigalrm, .pass 5, .next,
      .event (.connect 7 1 0), .report false, .next, .setup, .setup, .setup, .setup] = some s ∧
    7 ∈ s.loop.openFds ∧ ∃ t, lastActive [.alarm 5, .connect 7 1 0] 7 = some t ∧ 5 < t + 3 * timeslot := by
  obtain ⟨s, hs⟩ : ∃ s, after 1 [.tick 5, .signals, .report true, .deliver .sigalrm, .pass 5, .next,
      .event (.connect 7 1 0), .report false, .next, .setup, .setup, .setup, .setup] = some s :=
    Option.isSome_iff_exists.mp (by decide)
  have hopen : 7 ∈ s.loop.openFds := by
    cases hs
    decide
  obtain ⟨t, ht, hcur⟩ := outlasts (boot_start 1) (run_of_after hs) 7 hopen
  exact ⟨s, hs, hopen, t, ht, hcur 5 List.mem_cons_self⟩

end Signalled

end WebServer
end LinuxServer
