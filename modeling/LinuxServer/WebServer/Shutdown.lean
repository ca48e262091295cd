import LinuxServer.WebServer.Signals

/-!
# `WebServer/Shutdown.lean` — SIGTERM, from the handler to the end of the loop

The loop goes round until `stop_server` is set, and that is done by a byte in the pipe. `sigterm_kept` says
that the byte is not lost and not overlooked: the event that tells of it is reported once only, for the
registration is edge-triggered, and `dealwithsignal` reads 1024 bytes at most; what is left behind 1024 bytes
is left to a loop that is already over. `stops` says what the loop does then, and that it stops for nothing
else.
-/

set_option autoImplicit false

namespace LinuxServer
namespace WebServer

/-- The ticks that may still come before the loop's test. -/
def Place.ticksLeft : Place → Nat
  | .handling _ => 1
  | _ => 0

namespace Signalled

variable {capacity : Nat} {s s' : Signalled}

/-! ## No SIGTERM is lost -/

/-- **A byte in the pipe is noticed**: where the main thread waits, an event of `m_pipefd[0]` is to come. -/
theorem Regular.reported (h : Regular capacity s) (hmain : s.main = .waiting) (hpipe : s.pipe ≠ []) :
    s.Enabled (.report true) := by
  refine ⟨hmain, fun _ => ?_⟩
  rw [pending, if_pos (Listener.addfd_epollet false 0)]
  refine (h.noticed hpipe).resolve_right ?_
  rintro (hplace | hstop)
  · rw [hmain] at hplace
    cases hplace
  · simpa [hmain] using h.halting hstop

/-- SIGTERM has been noted, or is in the pipe. -/
def Terminating (s : Signalled) : Prop := s.stopServer = true ∨ .sigterm ∈ s.pipe

theorem Terminating.step (ht : s.Terminating) {i : Step} (he : s.Enabled i) (hexec : s.exec capacity i = .ok s') :
    s'.Terminating := by
  cases i with
  | setup =>
    obtain ⟨line, rest, -, rfl⟩ := exec_setup he hexec
    simpa [Terminating] using ht
  | deliver sig =>
    obtain ⟨-, rfl⟩ := exec_deliver hexec
    split
    · exact ht.imp_right (List.mem_append_left _)
    · exact ht
  | event e =>
    obtain ⟨w, -, rfl⟩ := exec_event hexec
    exact ht
  | signals =>
    cases hexec
    rw [dealwithsignal_snd]
    rcases ht with hstop | hmem
    · exact Or.inl (by simp [hstop])
    · rw [← List.take_append_drop 1024 s.pipe] at hmem
      rcases List.mem_append.mp hmem with hmem | hmem
      · exact Or.inl (by simp [hmem])
      · exact Or.inr hmem
  | tick cur =>
    obtain ⟨w, -, rfl⟩ := exec_tick hexec
    exact ht
  | pass seconds | report pipe | fail | rearm | next =>
    cases hexec
    exact ht

/-- **No SIGTERM is lost**, in any run, where the pipe has room for two bytes: one that finds it full finds
    another before it. And it does not wait in vain. -/
theorem sigterm_kept {capacity : Nat} (htwo : 2 ≤ capacity) {s₀ s : Signalled} {h : List Step}
    (hstart : (signalled capacity).start s₀) (hrun : (signalled capacity).Run s₀ h s)
    (hsent : .deliver .sigterm ∈ h) :
    (s.stopServer = true ∨ .sigterm ∈ s.pipe) ∧ (s.main = .waiting → s.Enabled (.report true)) := by
  have hterminating : s.Terminating := by
    induction hrun with
    | nil => cases hsent
    | @step t u h i hr hst ih =>
      rcases List.mem_cons.mp hsent with rfl | hsent
      · obtain ⟨-, rfl⟩ := exec_deliver hst.2
        have hreg := regular ⟨s₀, h, hstart, hr⟩
        split
        · exact Or.inr (List.mem_append_right _ List.mem_cons_self)
        · rename_i hfull
          have hone := hreg.one
          unfold underWay at hone
          have hmem : Signal.sigterm ∈ t.pipe := sigterm_mem (by omega) (by omega)
          exact Or.inr hmem
      · exact (ih hsent).step hst.1 hst.2
  refine ⟨hterminating, fun hmain => ?_⟩
  have hreg := regular ⟨s₀, h, hstart, hrun⟩
  refine hreg.reported hmain ?_
  rcases hterminating with hstop | hmem
  · exact absurd (hreg.halting hstop) (by simp [hmain])
  · exact List.ne_nil_of_mem hmem

/-- A SIGTERM that comes while SIGALRM is in the pipe. -/
theorem sigterm_kept_behind : ∃ s, after 2 [.deliver .sigterm, .deliver .sigalrm, .pass 5, .next, .setup, .setup,
    .setup, .setup] = some s ∧ s.main = .waiting ∧ s.Enabled (.report true) := by
  obtain ⟨s, hs⟩ : ∃ s, after 2 [.deliver .sigterm, .deliver .sigalrm, .pass 5, .next, .setup, .setup, .setup,
      .setup] = some s := Option.isSome_iff_exists.mp (by decide)
  have hmain : s.main = .waiting := by
    cases hs
    rfl
  exact ⟨s, hs, hmain, (sigterm_kept (by decide) (boot_start 2) (run_of_after hs) (by decide)).2 hmain⟩

/-! ## The end of the loop -/

def Step.ticks : Step → Bool
  | .tick _ => true
  | _ => false

theorem Terminating.of_step {i : Step} (he : s.Enabled i) (hexec : s.exec capacity i = .ok s')
    (ht : s'.Terminating) : s.Terminating ∨ i = .deliver .sigterm := by
  cases i with
  | setup =>
    obtain ⟨line, rest, -, rfl⟩ := exec_setup he hexec
    exact Or.inl (by simpa [Terminating] using ht)
  | deliver sig =>
    obtain ⟨-, rfl⟩ := exec_deliver hexec
    cases sig with
    | sigterm => exact Or.inr rfl
    | sigalrm =>
      refine Or.inl ?_
      split at ht
      · exact ht.imp_right fun hmem => by simpa using hmem
      · exact ht
  | event e =>
    obtain ⟨w, -, rfl⟩ := exec_event hexec
    exact Or.inl ht
  | signals =>
    cases hexec
    rw [dealwithsignal_snd] at ht
    refine Or.inl ?_
    rcases ht with hstop | hmem
    · simp only [Bool.or_eq_true, decide_eq_true_eq] at hstop
      exact hstop.imp_right List.mem_of_mem_take
    · exact Or.inr (List.mem_of_mem_drop hmem)
  | tick cur =>
    obtain ⟨w, -, rfl⟩ := exec_tick hexec
    exact Or.inl ht
  | pass seconds | report pipe | fail | rearm | next =>
    cases hexec
    exact Or.inl ht

/-- The loop is left at its test, with `stop_server` set, or where `epoll_wait` fails. -/
theorem main_stopped_step {i : Step} (he : s.Enabled i) (hexec : s.exec capacity i = .ok s')
    (hmain : s'.main = .stopped) : (s.main = .stopped ∧ s'.stopServer = s.stopServer) ∨ s'.stopServer = true ∨
      i = .fail := by
  cases i with
  | setup =>
    obtain ⟨line, rest, -, rfl⟩ := exec_setup he hexec
    cases hmain
  | deliver sig =>
    obtain ⟨-, rfl⟩ := exec_deliver hexec
    split at hmain
    · exact Or.inl ⟨hmain, by split <;> rfl⟩
    · exact Or.inl ⟨hmain, by split <;> rfl⟩
  | event e =>
    obtain ⟨w, -, rfl⟩ := exec_event hexec
    exact Or.inl ⟨hmain, rfl⟩
  | tick cur =>
    obtain ⟨w, -, rfl⟩ := exec_tick hexec
    cases hmain
  | pass seconds =>
    cases hexec
    exact Or.inl ⟨hmain, rfl⟩
  | next =>
    cases hexec
    by_cases hstop : s.stopServer = true
    · exact Or.inr (Or.inl hstop)
    · rw [show (if s.stopServer = true then Place.stopped else Place.waiting) = .waiting from if_neg hstop] at hmain
      cases hmain
  | fail => exact Or.inr (Or.inr rfl)
  | report pipe | signals | rearm =>
    cases hexec
    cases hmain

/-- With `stop_server` set, a step of the main thread is behind the events. -/
theorem Regular.stopping_step (h : Regular capacity s) {i : Step} (he : s.Enabled i)
    (hexec : s.exec capacity i = .ok s') (hstop : s.stopServer = true) :
    s'.stopServer = true ∧ (∀ pipe, i ≠ .report pipe) ∧
      s'.main.ticksLeft + (if i.ticks then 1 else 0) ≤ s.main.ticksLeft := by
  have hplace := h.halting hstop
  cases i with
  | setup =>
    obtain ⟨line, rest, hmain, -⟩ := exec_setup he hexec
    simp [hmain] at hplace
  | deliver sig =>
    obtain ⟨-, rfl⟩ := exec_deliver hexec
    split <;> exact ⟨hstop, by simp, Nat.le_refl _⟩
  | event e =>
    obtain ⟨w, -, rfl⟩ := exec_event hexec
    exact ⟨hstop, by simp, Nat.le_refl _⟩
  | tick cur =>
    obtain ⟨w, -, rfl⟩ := exec_tick hexec
    exact ⟨hstop, by simp, by simp [he.1, Place.ticksLeft, Step.ticks]⟩
  | pass seconds =>
    cases hexec
    exact ⟨hstop, by simp, Nat.le_refl _⟩
  | rearm =>
    cases hexec
    exact ⟨hstop, by simp, by simp [Place.ticksLeft, Step.ticks]⟩
  | next =>
    cases hexec
    exact ⟨hstop, by simp, by simp [hstop, Place.ticksLeft, Step.ticks]⟩
  | report pipe => simp [he.1] at hplace
  | fail => simp [show s.main = .waiting from he] at hplace
  | signals => simp [show s.main = .handling true from he] at hplace

/-- **How the loop ends**: for SIGTERM, or where `epoll_wait` fails, and not otherwise. From where SIGTERM has
    been read on, `epoll_wait` is not called again, and `tick()` once at most. -/
theorem stops {capacity : Nat} {s₀ s : Signalled} {h : List Step} (hstart : (signalled capacity).start s₀)
    (hrun : (signalled capacity).Run s₀ h s) :
    (s.main = .stopped → .deliver .sigterm ∈ h ∨ .fail ∈ h) ∧
      (s.stopServer = true → ∀ (h' : List Step) (s' : Signalled), (signalled capacity).Run s h' s' →
        (∀ pipe, .report pipe ∉ h') ∧ h'.countP Step.ticks ≤ 1) := by
  constructor
  · have hends : (s.Terminating → .deliver .sigterm ∈ h) ∧
        (s.main = .stopped → s.stopServer = true ∨ .fail ∈ h) := by
      refine hrun.invariant (I := fun h s => (s.Terminating → Step.deliver .sigterm ∈ h) ∧
        (s.main = .stopped → s.stopServer = true ∨ Step.fail ∈ h)) ?_ ?_
      · rintro h t i u ⟨htold, hleft⟩ ⟨he, hexec⟩
        refine ⟨fun ht => ?_, fun hmain => ?_⟩
        · rcases Terminating.of_step he hexec ht with ht | rfl
          · exact List.mem_cons_of_mem _ (htold ht)
          · exact List.mem_cons_self
        · rcases main_stopped_step he hexec hmain with ⟨hmain, hsame⟩ | hstop | rfl
          · rw [hsame]
            exact (hleft hmain).imp_right (List.mem_cons_of_mem _)
          · exact Or.inl hstop
          · exact Or.inr List.mem_cons_self
      · obtain ⟨-, hpipe, -, -, -, -, -, hstop, hmain⟩ := hstart
        refine ⟨?_, fun h => by rw [hmain] at h; cases h⟩
        rintro (ht | ht)
        · rw [hstop] at ht; cases ht
        · rw [hpipe] at ht; cases ht
    exact fun hmain => (hends.2 hmain).imp_left fun hstop => hends.1 (Or.inl hstop)
  · intro hstop h' s' hrun'
    have hreg := regular ⟨s₀, h, hstart, hrun⟩
    have hall := hrun'.invariant (I := fun h' s' => Regular capacity s' ∧ s'.stopServer = true ∧
      (∀ pipe, .report pipe ∉ h') ∧ s'.main.ticksLeft + h'.countP Step.ticks ≤ s.main.ticksLeft) ?_
      ⟨hreg, hstop, fun _ => List.not_mem_nil, Nat.le_refl _⟩
    · refine ⟨hall.2.2.1, ?_⟩
      have hleft : s.main.ticksLeft ≤ 1 := by unfold Place.ticksLeft; split <;> omega
      have hcount := hall.2.2.2
      omega
    · rintro h t i u ⟨hreg, hstop, hno, hcount⟩ ⟨he, hexec⟩
      obtain ⟨hstop', hne, hleft⟩ := hreg.stopping_step he hexec hstop
      refine ⟨hreg.exec he hexec, hstop', fun pipe hmem => ?_, ?_⟩
      · rcases List.mem_cons.mp hmem with heq | hmem
        · exact hne pipe heq.symm
        · exact hno pipe hmem
      · rw [List.countP_cons]
        omega

/-- SIGTERM, read while the loop goes round for the first time. -/
theorem stops_read : ∃ s, after 1 [.signals, .report true, .deliver .sigterm, .next, .setup, .setup, .setup,
    .setup] = some s ∧ s.stopServer = true ∧
      ∀ (h' : List Step) (s' : Signalled), (signalled 1).Run s h' s' → ∀ pipe, .report pipe ∉ h' := by
  obtain ⟨s, hs⟩ : ∃ s, after 1 [.signals, .report true, .deliver .sigterm, .next, .setup, .setup, .setup,
      .setup] = some s := Option.isSome_iff_exists.mp (by decide)
  have hstop : s.stopServer = true := by
    cases hs
    rfl
  exact ⟨s, hs, hstop, fun h' s' hrun => ((stops (boot_start 1) (run_of_after hs)).2 hstop h' s' hrun).1⟩

end Signalled

end WebServer
end LinuxServer
