import LinuxServer.WebServer.Pool

/-!
# `WebServer/Armed.lean` — which connections epoll still knows of

An event disarms its descriptor, and from then on the connection lives on what the main thread made of
the event: `write()` has armed it again whenever it returns true, a failed transfer closes it, and a
successful `read_once()` leaves it to the worker that will find it in the queue. `covered` says of a
descriptor that one of these is so.

`append_p` refuses a request when the queue is full, and `dealwithread` does not look at what it
returns. The connection that was read is then in no queue, and no event of it will be reported.
`covered_iff` is that this is the only way, and `refused` a run that takes it.
-/

set_option autoImplicit false

namespace LinuxServer
namespace WebServer

open Timer

/-- The descriptor that an event closes, if it does. -/
def Event.closes : Event → Option Nat
  | .hangup sockfd => some sockfd
  | .read sockfd false _ | .write sockfd false _ => some sockfd
  | _ => none

namespace Server

/-- A descriptor is armed, or there is a task for it in the queue or with a worker. -/
def covers (v : Server) (fd : Nat) : Prop := v.armed fd = true ∨ ∃ task ∈ v.outstanding, task.sockfd = fd

/-- **No connection is stranded.** An event is one step here, so that none is being handled. -/
def Covered (v : Server) : Prop := ∀ fd ∈ v.loop.openFds, v.covers fd

instance (v : Server) (fd : Nat) : Decidable (v.covers fd) := inferInstanceAs (Decidable (_ ∨ _))

/-- What has been read is accepted by the queue, or there is a task for the descriptor in it already. -/
def Accepts (maxRequests : Nat) (v : Server) : Step → Prop
  | .main (.read sockfd true _) =>
    v.workqueue.length < maxRequests ∨ ∃ task ∈ v.outstanding, task.sockfd = sockfd
  | _ => True

end Server

section
variable {v v' : Server} {w w' : State} {l : List Ptr} {fd n m : Nat}

/-! ## What is open after an event -/

theorem Accounts.openFds_exec (h : Accounts w l) {e : Event} (he : w.Enabled e) (hw' : w.exec e = .ok w') :
    (∀ fd ∈ w'.openFds, fd ∈ w.openFds ∨ ∃ p cur, e = .connect fd p cur) ∧
      (∀ fd ∈ e.closes, fd ∉ w'.openFds) ∧
        ∀ fd cur, e = .read fd true cur → w'.openFds = w.openFds := by
  have hdeal : ∀ {fd : Nat}, fd ∈ w.openFds → w.dealTimer (w.usersTimer fd).timer fd = .ok w' →
      w'.openFds = w.openFds.erase fd := by
    intro fd hfd hdealt
    obtain ⟨p, e, hp, -⟩ := h.timer_of_open hfd
    obtain ⟨w'', hw'', -, hopen, -⟩ := h.dealTimer hfd hp
    rw [hdealt] at hw''
    cases hw''
    exact hopen
  have hadjust : ∀ {fd : Nat} {cur : Int}, fd ∈ w.openFds → w.dealwith fd true cur = .ok w' →
      w'.openFds = w.openFds := by
    intro fd cur hfd hwith
    obtain ⟨p, e, hp, htab⟩ := h.timer_of_open hfd
    obtain ⟨w'', hw'', -, -, hopen, -⟩ := h.adjust hp cur
    simp only [State.dealwith, htab, if_true, Option.isSome_some, hw''] at hwith
    cases hwith
    exact hopen
  have hclosed : ∀ {fd : Nat}, w'.openFds = w.openFds.erase fd →
      (∀ fd' ∈ w'.openFds, fd' ∈ w.openFds) ∧ fd ∉ w'.openFds := by
    intro fd hopen
    rw [hopen]
    exact ⟨fun fd' => List.mem_of_mem_erase, h.nodup.not_mem_erase⟩
  cases e with
  | connect fd p cur =>
    refine ⟨fun fd' hfd' => ?_, (fun _ hfd' => by cases hfd'), fun _ _ he' => by cases he'⟩
    obtain ⟨w'', hw'', hcase⟩ := h.connect he.1 he.2 cur
    rw [State.exec, hw''] at hw'
    cases hw'
    rcases hcase with ⟨-, -, -, hopen, -⟩ | ⟨-, -, hopen, -⟩
    · rw [hopen] at hfd'
      rcases List.mem_cons.mp hfd' with rfl | hfd'
      · exact Or.inr ⟨p, cur, rfl⟩
      · exact Or.inl hfd'
    · exact Or.inl (hopen ▸ hfd')
  | hangup fd =>
    obtain ⟨hsub, hnot⟩ := hclosed (hdeal he hw')
    exact ⟨fun fd' hfd' => Or.inl (hsub fd' hfd'), by rintro _ ⟨⟩; exact hnot, fun _ _ he' => by cases he'⟩
  | read fd ok cur | write fd ok cur =>
    cases ok with
    | false =>
      obtain ⟨hsub, hnot⟩ := hclosed (hdeal he hw')
      exact ⟨fun fd' hfd' => Or.inl (hsub fd' hfd'), by rintro _ ⟨⟩; exact hnot, fun _ _ he' => by cases he'⟩
    | true =>
      have hopen := hadjust he hw'
      exact ⟨fun fd' hfd' => Or.inl (hopen ▸ hfd'), (fun _ hfd' => by cases hfd'), fun _ _ _ => hopen⟩
  | alarm cur =>
    obtain ⟨w'', hw'', -, hopen, -⟩ := h.alarm cur
    rw [State.exec, hw''] at hw'
    cases hw'
    refine ⟨fun fd' hfd' => Or.inl ?_, (fun _ hfd' => by cases hfd'), fun _ _ he' => by cases he'⟩
    rw [hopen] at hfd'
    exact List.diff_subset _ _ hfd'

/-! ## One step -/

/-- A descriptor that a step does not arm or disarm is covered as before, if its tasks are. -/
theorem Server.covers.frame (h : v.covers fd) (harmed : v'.armed fd = v.armed fd)
    (htasks : ∀ task ∈ v.outstanding, task ∈ v'.outstanding) : v'.covers fd := by
  rcases h with harm | ⟨task, hmem, htask⟩
  · exact Or.inl (harmed.trans harm)
  · exact Or.inr ⟨task, htasks task hmem, htask⟩

theorem outstanding_appendP {cur : Int} (task : Task) (h : task ∈ v.outstanding) :
    task ∈ (v.appendP m fd cur).outstanding := by
  unfold Server.appendP
  split
  · exact h
  · rcases List.mem_append.mp h with h | h
    · exact List.mem_append_left _ (List.mem_append_left _ h)
    · exact List.mem_append_right _ h

/-- A successful read is covered if and only if it is accepted. -/
theorem covers_appendP (cur : Int) (hdis : v.armed fd = false) :
    (v.appendP m fd cur).covers fd ↔
      v.workqueue.length < m ∨ ∃ task ∈ v.outstanding, task.sockfd = fd := by
  unfold Server.appendP
  by_cases hfull : v.workqueue.length ≥ m
  · rw [if_pos hfull, Server.covers, hdis]
    simp only [Bool.false_eq_true, false_or]
    exact ⟨Or.inr, fun h => h.resolve_left (by omega)⟩
  · rw [if_neg hfull]
    refine iff_of_true (Or.inr ⟨⟨fd, v.conn fd, cur⟩, ?_, rfl⟩) (Or.inl (by omega))
    exact List.mem_append_left _ (List.mem_append_right _ List.mem_cons_self)

/-- `modfd` covers its descriptor, if that is open, and uncovers none. -/
theorem covers_modfd (hfd : fd ∈ v.loop.openFds) : (v.modfd fd).covers fd := by
  unfold Server.modfd
  rw [if_pos hfd]
  exact Or.inl (Function.update_self ..)

theorem Server.covers.modfd {fd' : Nat} (h : v.covers fd) : (v.modfd fd').covers fd := by
  unfold Server.modfd
  split
  · rcases h with harm | htask
    · refine Or.inl ?_
      show Function.update v.armed fd' true fd = true
      rw [Function.update_apply]
      split
      · rfl
      · exact harm
    · exact Or.inr htask
  · exact h

/-- **One event.** -/
theorem Server.Covered.main (h : v.Covered) (hacc : Accounts v.loop l) {e : Event} (he : v.loop.Enabled e)
    (hexec : v.exec m (.main e) = .ok v') : v'.Covered ↔ v.Accepts m (.main e) := by
  obtain ⟨w', hw', hexec⟩ := bind_eq_ok.mp hexec
  obtain ⟨hopen, hcloses, hread⟩ := hacc.openFds_exec he hw'
  cases hexec
  have hold : ∀ {fd : Nat}, fd ∈ w'.openFds → (∀ p cur, e ≠ .connect fd p cur) → fd ∈ v.loop.openFds :=
    fun hfd hne => (hopen _ hfd).resolve_right fun hnew => by
      obtain ⟨p, cur, he'⟩ := hnew
      exact hne p cur he'
  cases e with
  | connect fd p cur =>
    refine iff_of_true (fun fd' hfd' => ?_) trivial
    simp only [settle] at hfd' ⊢
    split
    · rename_i hmem
      rw [if_pos hmem] at hfd'
      by_cases hne : fd' = fd
      · exact Or.inl (by rw [hne]; exact Function.update_self ..)
      · have hopen' := hold hfd' fun _ _ he' => by cases he'; exact hne rfl
        exact (h fd' hopen').frame (Function.update_of_ne hne ..) (fun _ ht => ht)
    · rename_i hmem
      rw [if_neg hmem] at hfd'
      have hopen' := hold hfd' fun _ _ he' => by cases he'; exact hmem hfd'
      exact (h fd' hopen').frame rfl (fun _ ht => ht)
  | hangup fd =>
    refine iff_of_true (fun fd' hfd' => ?_) trivial
    have hne : fd' ≠ fd := by rintro rfl; exact hcloses fd' rfl hfd'
    exact (h fd' (hold hfd' fun _ _ he' => by cases he')).frame (Function.update_of_ne hne ..) (fun _ ht => ht)
  | read fd ok cur =>
    cases ok with
    | false =>
      refine iff_of_true (fun fd' hfd' => ?_) trivial
      have hne : fd' ≠ fd := by rintro rfl; exact hcloses fd' rfl hfd'
      exact (h fd' (hold hfd' fun _ _ he' => by cases he')).frame (Function.update_of_ne hne ..)
        (fun _ ht => ht)
    | true =>
      let v₁ : Server := { v with loop := w', armed := Function.update v.armed fd false }
      have hdis : v₁.armed fd = false := Function.update_self ..
      have hiff := covers_appendP (m := m) cur hdis
      have hsame : (v₁.appendP m fd cur).loop = w' := by unfold Server.appendP; split <;> rfl
      have harmed : (v₁.appendP m fd cur).armed = v₁.armed := by unfold Server.appendP; split <;> rfl
      show (v₁.appendP m fd cur).Covered ↔ _
      refine Iff.trans ⟨fun hall => hall fd ?_, fun hfd fd' hfd' => ?_⟩ hiff
      · rw [hsame]
        rw [hread fd cur rfl]
        exact he
      · rw [hsame] at hfd'
        by_cases hne : fd' = fd
        · rw [hne]
          exact hfd
        · refine (h fd' (hold hfd' fun _ _ he' => by cases he')).frame ?_
            (fun task ht => outstanding_appendP (v := v₁) task ht)
          rw [harmed]
          exact Function.update_of_ne hne ..
  | write fd ok cur =>
    refine iff_of_true (fun fd' hfd' => ?_) trivial
    cases ok with
    | false =>
      have hne : fd' ≠ fd := by rintro rfl; exact hcloses fd' rfl hfd'
      exact (h fd' (hold hfd' fun _ _ he' => by cases he')).frame (Function.update_of_ne hne ..)
        (fun _ ht => ht)
    | true =>
      let v₁ : Server := { v with loop := w', armed := Function.update v.armed fd false }
      have hsame : (v₁.modfd fd).loop = w' := by unfold Server.modfd; split <;> rfl
      have hfd₁ : fd' ∈ w'.openFds := hsame ▸ hfd'
      show (v₁.modfd fd).covers fd'
      by_cases hne : fd' = fd
      · rw [hne] at hfd₁ ⊢
        exact covers_modfd hfd₁
      · refine Server.covers.modfd ?_
        exact (h fd' (hold hfd₁ fun _ _ he' => by cases he')).frame (Function.update_of_ne hne ..)
          (fun _ ht => ht)
  | alarm cur =>
    refine iff_of_true (fun fd' hfd' => ?_) trivial
    exact (h fd' (hold hfd' fun _ _ he' => by cases he')).frame rfl (fun _ ht => ht)

/-- **One step** of any thread. -/
theorem Server.Covered.exec (h : v.Covered) (hacc : Accounts v.loop l) {i : Step} (he : v.Enabled n i)
    (hexec : v.exec m i = .ok v') : v'.Covered ↔ v.Accepts m i := by
  cases i with
  | main e =>
    refine h.main hacc ?_ hexec
    cases e with
    | connect | alarm => exact he
    | hangup | read | write => exact he.1
  | dequeue =>
    refine iff_of_true (fun fd hfd => ?_) trivial
    simp only [Server.exec] at hexec
    split at hexec
    · cases hexec
      exact h fd hfd
    · rename_i task rest hqueue
      cases hexec
      refine (h fd hfd).frame rfl fun t ht => ?_
      rw [Server.outstanding, hqueue] at ht
      exact List.perm_middle.mem_iff.mpr ht
  | finish k =>
    refine iff_of_true (fun fd hfd => ?_) trivial
    simp only [Server.exec] at hexec
    split at hexec
    · cases hexec
      exact h fd hfd
    · rename_i task htask
      cases hexec
      obtain ⟨hlt, hget⟩ := List.getElem?_eq_some_iff.mp htask
      let v₁ : Server := { v with running := v.running.eraseIdx k }
      have hsame : (v₁.modfd task.sockfd).loop = v.loop := by unfold Server.modfd; split <;> rfl
      have hfd₁ : fd ∈ v.loop.openFds := hsame ▸ hfd
      show (v₁.modfd task.sockfd).covers fd
      by_cases heq : task.sockfd = fd
      · rw [heq]
        exact covers_modfd hfd₁
      · apply Server.covers.modfd
        rcases h fd hfd₁ with harm | ⟨t, ht, hfd'⟩
        · exact Or.inl harm
        · -- the task that is over is another's
          refine Or.inr ⟨t, ?_, hfd'⟩
          have hperm := List.getElem_cons_eraseIdx_perm hlt
          rw [hget] at hperm
          rcases List.mem_append.mp ht with ht | ht
          · exact List.mem_append_left _ ht
          · rcases List.mem_cons.mp (hperm.mem_iff.mpr ht) with rfl | ht
            · exact absurd hfd' heq
            · exact List.mem_append_right _ ht

end

/-! ## Every run -/

def Step.event : Step → Option Event
  | .main e => some e
  | _ => none

/-- The events of a run of the server are a run of the event loop. -/
theorem loop_reachable {threadNumber maxRequests : Nat} {v : Server}
    (h : (server threadNumber maxRequests).Reachable v) : eventLoop.Reachable v.loop := by
  obtain ⟨s, history, ⟨hstart, -, -⟩, hrun⟩ := h
  refine ⟨s.loop, _, hstart, hrun.project (T := eventLoop) Server.loop
    Step.event ?_⟩
  rintro t i u ⟨he, hexec⟩
  cases i with
  | main e =>
    obtain ⟨w', hw', hexec⟩ := bind_eq_ok.mp hexec
    have hloop : u.loop = w' := by
      cases hexec
      cases e with
      | connect =>
        simp only [Server.settle]
        split <;> rfl
      | hangup | alarm => rfl
      | read fd ok cur =>
        cases ok with
        | false => rfl
        | true =>
          simp only [Server.settle, if_true, Server.appendP]
          split <;> rfl
      | write fd ok cur =>
        cases ok with
        | false => rfl
        | true =>
          simp only [Server.settle, if_true, Server.modfd]
          split <;> rfl
    refine And.intro ?_ (hloop ▸ hw')
    cases e with
    | connect | alarm => exact he
    | hangup | read | write => exact he.1
  | dequeue =>
    simp only [Server.exec] at hexec
    split at hexec <;> cases hexec <;> rfl
  | finish k =>
    simp only [Server.exec, Server.modfd] at hexec
    split at hexec
    · cases hexec
      rfl
    · cases hexec
      show (if _ then _ else _ : Server).loop = _
      split <;> rfl

theorem server_deterministic (threadNumber maxRequests : Nat) :
    (server threadNumber maxRequests).Deterministic := by
  rintro v i u u' ⟨-, hu⟩ ⟨-, hu'⟩
  rw [hu] at hu'
  exact Except.ok.inj hu'

/-- **No connection is stranded, and when**: in a run of the server, with any number of workers and a
    queue of any capacity, every open connection is armed or has a task all along if and only if every
    request that was read is accepted by the queue, or one for the same descriptor is in it. -/
theorem covered_iff {threadNumber maxRequests : Nat} {v₀ v : Server} {h : List Step}
    (hstart : (server threadNumber maxRequests).start v₀)
    (hrun : (server threadNumber maxRequests).Run v₀ h v) :
    (∀ h' v', h' <:+ h → (server threadNumber maxRequests).Run v₀ h' v' → v'.Covered) ↔
      ((server threadNumber maxRequests).restrict (Server.Accepts maxRequests)).Run v₀ h v := by
  have hnone : v₀.Covered := by
    intro fd hfd
    rw [hstart.1.2.2.1] at hfd
    cases hfd
  refine (hrun.restrict_iff (server_deterministic threadNumber maxRequests) ?_ hstart hnone).symm
  intro t i u ht hcovered hstep
  obtain ⟨l, hacc⟩ := reachable_accounts (loop_reachable ht)
  exact hcovered.exec hacc hstep.1 hstep.2

/-- Two connections, and a queue for one request: the second is read after the worker has taken the
    first off. -/
theorem covered_iff_served : ∃ (h : List Step) (v : Server),
    h = [.main (.read 6 true 0), .dequeue, .main (.read 5 true 0), .main (.connect 6 2 0),
      .main (.connect 5 1 0)] ∧ (server 1 1).Run quiet h v ∧
      ∀ h' v', h' <:+ h → (server 1 1).Run quiet h' v' → v'.Covered := by
  have hrun : ((server 1 1).restrict (Server.Accepts 1)).Run quiet
      [.main (.read 6 true 0), .dequeue, .main (.read 5 true 0), .main (.connect 6 2 0), .main (.connect 5 1 0)]
      (Server.after [.main (.read 6 true 0), .dequeue, .main (.read 5 true 0), .main (.connect 6 2 0),
        .main (.connect 5 1 0)]) :=
    .step (.step (.step (.step (.step (.nil quiet) ⟨⟨by decide, rfl⟩, trivial⟩) ⟨⟨by decide, rfl⟩, trivial⟩)
      ⟨⟨by decide, rfl⟩, .inl (by decide)⟩) ⟨⟨by decide, rfl⟩, trivial⟩) ⟨⟨by decide, rfl⟩, .inl (by decide)⟩
  exact ⟨_, _, rfl, hrun.of_restrict, (covered_iff ⟨⟨rfl, rfl, rfl, rfl⟩, rfl, rfl⟩ hrun.of_restrict).mpr hrun⟩

/-- The same two connections, both read before the worker has taken anything off: the second is open,
    not armed, and in no queue. -/
theorem refused : ∃ (h : List Step) (v : Server),
    h = [.main (.read 6 true 0), .main (.read 5 true 0), .main (.connect 6 2 0), .main (.connect 5 1 0)] ∧
      (server 1 1).start quiet ∧ (server 1 1).Run quiet h v ∧ 6 ∈ v.loop.openFds ∧ ¬ v.covers 6 := by
  have hfollow : (System.follow (Server.exec 1) (fun v i => v.Enabled 1 i) quiet
      [.main (.read 6 true 0), .main (.read 5 true 0), .main (.connect 6 2 0), .main (.connect 5 1 0)]).any
        (fun v => 6 ∈ v.loop.openFds ∧ ¬ v.covers 6) = true := by decide
  obtain ⟨v, hv, hstranded⟩ := (Option.any_eq_true _ _).mp hfollow
  have hrun : (server 1 1).Run quiet _ v :=
    System.Run.of_follow (fun t i u hok hexec => And.intro (of_decide_eq_true hok) hexec) hv
  obtain ⟨hopen, huncovered⟩ := of_decide_eq_true hstranded
  exact ⟨_, v, rfl, ⟨⟨rfl, rfl, rfl, rfl⟩, rfl, rfl⟩, hrun, hopen, huncovered⟩

end WebServer
end LinuxServer
