import LinuxServer.CppServer.Teardown

/-!
# `CppServer/Connections.lean` — the map of connections, and what becomes of them

`connections` has the reference that keeps a connection while nothing happens to it. `HandleNewConnection`
assigns under the descriptor that `accept` has answered without a look at what is there, and
`HandleCloseInLoop` erases whatever is found under the descriptor of the connection it was queued for; the
kernel gives a descriptor to another client as soon as it has been closed, and only `~Connection` closes it.
A `Write` that fails is a step here besides those of `Teardown.lean`: it sets `m_state` as `HandleClose` does,
and calls nobody.

`connections_exact` says that the map is never wrong. No entry is overwritten; a connection whose
`ConnectionDestructor` has been queued is not in it and does not get there; and when no loop has anything to
do, the connections in the map are those whose channel is registered, and nobody refers to any other, so that
each other one has been destroyed or can be.

`lost_for_good` says what the failed `Write` comes to. Of a connection whose `m_state` is not `Connected` by
chance before it is set, there are three fates, one for each way its state can go: it is connected, or its end
has come to the main loop, or a `Write` of it has failed. In the last one it is in the map, with its channel
registered and its descriptor open, for as long as the server runs; and at rest there is nothing in the map but
these and those that are connected.
-/

set_option autoImplicit false

namespace LinuxServer

/-- How many steps of `HandleNewConnection` are behind. -/
def Stage.rank : Stage → Nat
  | .constructing => 0
  | .owned => 1
  | .callbackSet => 2
  | .inserted => 3
  | .connected => 4
  | .tied => 5

theorem Stage.isInserted_iff (stage : Stage) : stage.isInserted = true ↔ 3 ≤ stage.rank := by
  cases stage <;> decide

/-- Those whose end it will see to: `HandleCloseInLoop` has been taken, or `ConnectionDestructor` is to be
    queued. -/
def MainPhase.ending : MainPhase → List Nat
  | .running _ rest => rest
  | .queueing _ k rest => k :: rest
  | _ => []

/-- Those whose end it will report, or whose `ConnectionDestructor` has been taken. -/
def SubPhase.ending : SubPhase → List Nat
  | .reporting k _ _ => [k]
  | .running _ rest => rest
  | _ => []

theorem SubPhase.refs_of_ending {p : SubPhase} {k : Nat} (hk : k ∈ p.ending) : k ∈ p.refs := by
  cases p with
  | reporting => exact hk
  | running => exact List.mem_append_right _ hk
  | _ => cases hk

namespace Reactor

/-- Behind the erasure of its entry: its `ConnectionDestructor` is about to be queued, is queued, or has been
    taken, or its channel has been deleted. -/
def Gone (t : Reactor) (k : Nat) : Prop :=
  (∃ done rest, t.main = .queueing done k rest) ∨ (∃ l, k ∈ t.subTodo l) ∨ (∃ l, k ∈ (t.sub l).duty) ∨
    ∃ c, t.life k = some c ∧ c.deleted = true

/-- No loop has a function to run or a channel to handle. -/
def Idle (t : Reactor) : Prop :=
  t.main = .idle ∧ t.mainTodo = [] ∧ ∀ l, t.sub l = .polling ∧ t.subTodo l = []

/-- A step of the main thread. -/
def Step.isMain : Step → Bool
  | .construct .. | .own | .setOnCloseCallback | .insert | .setConnected | .tie | .accepted | .mainSwap | .erase
  | .queueDestructor | .mainEnd => true
  | _ => false

/-- `Write` is called: by the message callback, or by the one that `ConnectionEstablished` calls. -/
def Writes (t : Reactor) (k : Nat) : Prop :=
  (∃ l batch guarded, t.sub l = .inHandler k batch guarded) ∨ t.main = .accepting k .tied

/-- It has an error that is neither `EAGAIN` nor `EINTR`. -/
def writeFails (t : Reactor) (k : Nat) : Reactor :=
  { t with flags := Function.update t.flags k { t.flags k with state := .closed } }

/-- The connections a `Write` of which has failed. -/
def failed (h : List (Step ⊕ Nat)) : List Nat := h.filterMap Sum.getRight?

end Reactor

/-- A server with `n` loops besides the main one, whose writes may fail. -/
def failingReactor (n : Nat) : System Reactor (Reactor.Step ⊕ Nat) where
  start := (reactor n).start
  step t i t' := match i with
    | .inl i => (reactor n).step t i t'
    | .inr k => t.Writes k ∧ (t.flags k).state = .connected ∧ t' = t.writeFails k

namespace Reactor

section
variable {n l k fd : Nat} {i : Step} {s t t' : Reactor} {h : List (Step ⊕ Nat)}

/-! ## What a step does -/

theorem gone_of_main {flags : Nat → ConnFlags} {connections : Nat → Option Nat} {p : MainPhase}
    {mainTodo : List Nat} (hp : ∀ done rest, p ≠ .queueing done k rest)
    (hk : Gone { t with flags := flags, connections := connections, main := p, mainTodo := mainTodo } k) :
    t.Gone k := by
  rcases hk with ⟨done, rest, hmain⟩ | hk
  · exact absurd hmain (hp done rest)
  · exact .inr hk

theorem gone_of_sub {flags : Nat → ConnFlags} {mainTodo : List Nat} {p : SubPhase} {subTodo : Nat → List Nat}
    (hother : ∀ l', l' ≠ l → subTodo l' = t.subTodo l') (htaken : k ∈ p.duty ∨ k ∈ subTodo l → t.Gone k)
    (hk : Gone { t with
      flags := flags, mainTodo := mainTodo, sub := Function.update t.sub l p, subTodo := subTodo } k) :
    t.Gone k := by
  rcases hk with hmain | ⟨l', hmem⟩ | ⟨l', hmem⟩ | hdeleted
  · exact .inl hmain
  · by_cases hl : l' = l
    · simp only [hl] at hmem
      exact htaken (.inr hmem)
    · simp only [hother l' hl] at hmem
      exact .inr (.inl ⟨l', hmem⟩)
  · by_cases hl : l' = l
    · simp only [hl, Function.update_self] at hmem
      exact htaken (.inl hmem)
    · simp only [Function.update_of_ne hl] at hmem
      exact .inr (.inr (.inl ⟨l', hmem⟩))
  · exact .inr (.inr (.inr hdeleted))

/-- Nobody is gone but by the erasure. -/
theorem gone_step (h : t.exec n i = some t') (hk : t'.Gone k) :
    t.Gone k ∨ (i = .erase ∧ ∃ done rest, t.main = .running done (k :: rest)) := by
  cases i with
  | construct fd garbage =>
    simp only [exec] at h
    split at h
    case h_1 =>
      cases h
      rcases hk with ⟨done, rest, hmain⟩ | hmem | hmem | ⟨c, hc, hdeleted⟩
      · cases hmain
      · exact .inl (.inr (.inl hmem))
      · exact .inl (.inr (.inr (.inl hmem)))
      · by_cases hnext : k = t.nextConnId
        · simp only [hnext, Function.update_self, Option.some.injEq] at hc
          rw [← hc] at hdeleted
          cases hdeleted
        · simp only [Function.update_of_ne hnext] at hc
          exact .inl (.inr (.inr (.inr ⟨c, hc, hdeleted⟩)))
    case h_2 => cases h
  | own | setOnCloseCallback | setConnected | tie | accepted | mainSwap | mainEnd =>
    simp only [exec] at h
    split at h
    case h_1 =>
      cases h
      exact .inl (gone_of_main (fun _ _ hp => by cases hp) hk)
    case h_2 => cases h
  | insert =>
    simp only [exec] at h
    split at h
    case h_1 =>
      obtain ⟨c, -, rfl⟩ := Option.map_eq_some_iff.mp h
      exact .inl (gone_of_main (fun _ _ hp => by cases hp) hk)
    case h_2 => cases h
  | erase =>
    simp only [exec] at h
    split at h
    case h_1 done k' rest hmain =>
      obtain ⟨c, -, rfl⟩ := Option.map_eq_some_iff.mp h
      by_cases hk' : k = k'
      · exact .inr ⟨rfl, done, rest, hk' ▸ hmain⟩
      · refine .inl (gone_of_main (fun _ _ hp => ?_) hk)
        cases hp
        exact hk' rfl
    case h_2 => cases h
  | queueDestructor =>
    simp only [exec] at h
    split at h
    case h_1 done k' rest hmain =>
      obtain ⟨c, -, rfl⟩ := Option.map_eq_some_iff.mp h
      rcases hk with ⟨done', rest', hp⟩ | ⟨l, hmem⟩ | hgone
      · cases hp
      · by_cases hl : l = c.fd % n
        · simp only [hl, Function.update_self, List.mem_append, List.mem_singleton] at hmem
          rcases hmem with hmem | rfl
          · exact .inl (.inr (.inl ⟨_, hmem⟩))
          · exact .inl (.inl ⟨done, rest, hmain⟩)
        · simp only [Function.update_of_ne hl] at hmem
          exact .inl (.inr (.inl ⟨l, hmem⟩))
      · exact .inl (.inr (.inr hgone))
    case h_2 => cases h
  | poll | dispatch | closed | handlerEnd | subEnd | queueClose =>
    simp only [exec] at h
    split at h
    case h_1 =>
      cases h
      exact .inl (gone_of_sub (fun _ _ => rfl) (fun hmem => .inr (.inl ⟨_, hmem.resolve_left List.not_mem_nil⟩)) hk)
    case h_2 => cases h
  | close l =>
    simp only [exec] at h
    split at h
    case h_1 k' batch guarded hsub =>
      split at h
      case isTrue =>
        cases h
        refine .inl (gone_of_sub (fun _ _ => rfl) (fun hmem => .inr (.inl ⟨l, hmem.resolve_left ?_⟩)) hk)
        split <;> exact List.not_mem_nil
      case isFalse => cases h
    case h_2 => cases h
  | subSwap l =>
    simp only [exec] at h
    split at h
    case h_1 =>
      cases h
      refine .inl (gone_of_sub (fun _ hl => Function.update_of_ne hl ..) (fun hmem => ?_) hk)
      rw [Function.update_self] at hmem
      exact .inr (.inl ⟨l, hmem.resolve_right List.not_mem_nil⟩)
    case h_2 => cases h
  | connectionDestructor l =>
    simp only [exec] at h
    split at h
    case h_1 done k' rest hsub =>
      obtain ⟨c, -, rfl⟩ := Option.map_eq_some_iff.mp h
      have hduty : ∀ k ∈ k' :: rest, t.Gone k := fun k hk => .inr (.inr (.inl ⟨l, by rw [hsub]; exact hk⟩))
      rcases hk with hmain | htodo | ⟨l', hmem⟩ | ⟨c', hc', hdeleted⟩
      · exact .inl (.inl hmain)
      · exact .inl (.inr (.inl htodo))
      · by_cases hl : l' = l
        · simp only [hl, Function.update_self] at hmem
          exact .inl (hduty k (List.mem_cons_of_mem _ hmem))
        · simp only [Function.update_of_ne hl] at hmem
          exact .inl (.inr (.inr (.inl ⟨l', hmem⟩)))
      · by_cases hk' : k = k'
        · exact .inl (hduty k (hk' ▸ List.mem_cons_self))
        · simp only [Function.update_of_ne hk'] at hc'
          exact .inl (.inr (.inr (.inr ⟨c', hc', hdeleted⟩)))
    case h_2 => cases h
  | destroy k' =>
    obtain ⟨c, hc, rfl⟩ := Option.map_eq_some_iff.mp h
    rcases hk with hmain | htodo | hmem | ⟨c', hc', hdeleted⟩
    · exact .inl (.inl hmain)
    · exact .inl (.inr (.inl htodo))
    · exact .inl (.inr (.inr (.inl hmem)))
    · by_cases hk' : k = k'
      · simp only [hk', Function.update_self, Option.some.injEq] at hc'
        rw [← hc'] at hdeleted
        exact .inl (.inr (.inr (.inr ⟨c, hk' ▸ hc, hdeleted⟩)))
      · simp only [Function.update_of_ne hk'] at hc'
        exact .inl (.inr (.inr (.inr ⟨c', hc', hdeleted⟩)))

/-- What another thread leaves to the main one. -/
theorem sub_step (h : t.exec n i = some t') (hi : i.isMain = false) :
    t'.main = t.main ∧ t'.connections = t.connections := by
  cases i with
  | construct | own | setOnCloseCallback | insert | setConnected | tie | accepted | mainSwap | erase
  | queueDestructor | mainEnd => cases hi
  | poll | dispatch | closed | handlerEnd | subEnd | queueClose | subSwap =>
    simp only [exec] at h
    split at h <;> cases h
    exact ⟨rfl, rfl⟩
  | close l =>
    simp only [exec] at h
    split at h
    case h_1 =>
      split at h <;> cases h
      exact ⟨rfl, rfl⟩
    case h_2 => cases h
  | connectionDestructor l =>
    simp only [exec] at h
    split at h
    case h_1 =>
      obtain ⟨c, -, rfl⟩ := Option.map_eq_some_iff.mp h
      exact ⟨rfl, rfl⟩
    case h_2 => cases h
  | destroy k' =>
    obtain ⟨c, -, rfl⟩ := Option.map_eq_some_iff.mp h
    exact ⟨rfl, rfl⟩

/-- `HandleNewConnection` goes on with the connection it has begun with. -/
theorem accepting_step {stage : Stage} (h : t.exec n i = some t') (hmain : t'.main = .accepting k stage) :
    (∃ stage', t.main = .accepting k stage' ∧ stage'.rank ≤ stage.rank) ∨
      (t.main = .idle ∧ k = t.nextConnId ∧ ∃ fd garbage, i = .construct fd garbage) := by
  cases hi : i.isMain with
  | false =>
    rw [(sub_step h hi).1] at hmain
    exact .inl ⟨stage, hmain, Nat.le_refl _⟩
  | true =>
    cases i with
    | poll | dispatch | closed | handlerEnd | subEnd | queueClose | subSwap | close | connectionDestructor
    | destroy => cases hi
    | construct fd garbage =>
      simp only [exec] at h
      split at h
      case h_1 hidle =>
        cases h
        cases hmain
        exact .inr ⟨hidle, rfl, fd, garbage, rfl⟩
      case h_2 => cases h
    | own | setOnCloseCallback | setConnected | tie =>
      simp only [exec] at h
      split at h
      case h_1 hbefore =>
        cases h
        cases hmain
        exact .inl ⟨_, hbefore, by decide⟩
      case h_2 => cases h
    | insert =>
      simp only [exec] at h
      split at h
      case h_1 hbefore =>
        obtain ⟨c, -, rfl⟩ := Option.map_eq_some_iff.mp h
        cases hmain
        exact .inl ⟨_, hbefore, by decide⟩
      case h_2 => cases h
    | accepted | mainSwap | mainEnd =>
      simp only [exec] at h
      split at h <;> cases h
      cases hmain
    | erase | queueDestructor =>
      simp only [exec] at h
      split at h
      case h_1 =>
        obtain ⟨c, -, rfl⟩ := Option.map_eq_some_iff.mp h
        cases hmain
      case h_2 => cases h

/-- Where the entries come from. -/
theorem connections_step (h : t.exec n i = some t') (hentry : t'.connections fd = some k) :
    t.connections fd = some k ∨ (t.main = .accepting k .callbackSet ∧ t'.main = .accepting k .inserted) := by
  cases hi : i.isMain with
  | false =>
    rw [(sub_step h hi).2] at hentry
    exact .inl hentry
  | true =>
    cases i with
    | poll | dispatch | closed | handlerEnd | subEnd | queueClose | subSwap | close | connectionDestructor
    | destroy => cases hi
    | construct | own | setOnCloseCallback | setConnected | tie | accepted | mainSwap | mainEnd =>
      simp only [exec] at h
      split at h <;> cases h
      exact .inl hentry
    | insert =>
      simp only [exec] at h
      split at h
      case h_1 k' hbefore =>
        obtain ⟨c, -, rfl⟩ := Option.map_eq_some_iff.mp h
        by_cases hfd : fd = c.fd
        · simp only [hfd, Function.update_self, Option.some.injEq] at hentry
          exact .inr (hentry ▸ ⟨hbefore, rfl⟩)
        · simp only [Function.update_of_ne hfd] at hentry
          exact .inl hentry
      case h_2 => cases h
    | erase =>
      simp only [exec] at h
      split at h
      case h_1 =>
        obtain ⟨c, -, rfl⟩ := Option.map_eq_some_iff.mp h
        by_cases hfd : fd = c.fd
        · simp only [hfd, Function.update_self] at hentry
          cases hentry
        · simp only [Function.update_of_ne hfd] at hentry
          exact .inl hentry
      case h_2 => cases h
    | queueDestructor =>
      simp only [exec] at h
      split at h
      case h_1 =>
        obtain ⟨c, -, rfl⟩ := Option.map_eq_some_iff.mp h
        exact .inl hentry
      case h_2 => cases h

/-- The entry that is erased is the connection's only one. -/
theorem erased {done rest : List Nat} (hsafe : t.Safe n) (hmain : t.main = .running done (k :: rest))
    (h : t.exec n .erase = some t') (fd : Nat) : t'.connections fd ≠ some k := by
  simp only [exec, hmain] at h
  obtain ⟨c, hc, rfl⟩ := Option.map_eq_some_iff.mp h
  intro hentry
  by_cases hfd : fd = c.fd
  · simp only [hfd, Function.update_self] at hentry
    cases hentry
  · simp only [Function.update_of_ne hfd] at hentry
    obtain ⟨c', hc', hfd'⟩ := hsafe.mapped fd k hentry
    obtain rfl := Option.some.inj (hc.symm.trans hc')
    exact hfd hfd'.symm

/-! ## The map -/

/-- **The invariant.** -/
structure Exact (t : Reactor) : Prop where
  gone : ∀ k, t.Gone k → ∀ fd, t.connections fd ≠ some k
  accepting : ∀ k stage, t.main = .accepting k stage → ¬ t.Gone k
  absent : ∀ k stage, t.main = .accepting k stage → stage.rank < 3 → ∀ fd, t.connections fd ≠ some k

theorem Exact.initial (flags : Nat → ConnFlags) : (initial flags).Exact where
  gone k _ fd hfd := by cases hfd
  accepting k stage hmain := by cases hmain
  absent k stage hmain := by cases hmain

/-- The number of the next connection is nobody's. -/
theorem not_gone_next (hsafe : t.Safe n) (hidle : t.main = .idle) : ¬ t.Gone t.nextConnId := by
  have hnone : t.life t.nextConnId = none := hsafe.fresh _ (Nat.le_refl _)
  have hdead : ¬ t.Alive t.nextConnId := by
    rintro ⟨c, hc, -⟩
    rw [hnone] at hc
    cases hc
  rintro (⟨done, rest, hmain⟩ | ⟨l, hmem⟩ | ⟨l, hmem⟩ | ⟨c, hc, -⟩)
  · rw [hidle] at hmain
    cases hmain
  · exact hdead (hsafe.functions l _ hmem).1
  · exact hdead (hsafe.sub_refs l _ (SubPhase.refs_of_duty hmem))
  · rw [hnone] at hc
    cases hc

theorem not_mapped_next (hsafe : t.Safe n) : t.connections fd ≠ some t.nextConnId := by
  intro hentry
  obtain ⟨c, hc, -⟩ := hsafe.mapped fd _ hentry
  rw [hsafe.fresh _ (Nat.le_refl _)] at hc
  cases hc

/-- **One step** of any thread. -/
theorem Exact.step (ht : t.Exact) (hsafe : t.Safe n) (h : t.exec n i = some t') : t'.Exact := by
  refine ⟨fun k hk fd hentry => ?_, fun k stage hmain hk => ?_, fun k stage hmain hrank fd hentry => ?_⟩
  · rcases gone_step h hk with hgone | ⟨rfl, done, rest, hmain⟩
    · rcases connections_step h hentry with hold | ⟨haccepting, -⟩
      · exact ht.gone k hgone fd hold
      · exact ht.accepting k _ haccepting hgone
    · exact erased hsafe hmain h fd hentry
  · rcases gone_step h hk with hgone | ⟨rfl, done, rest, hrunning⟩
    · rcases accepting_step h hmain with ⟨stage', hbefore, -⟩ | ⟨hidle, rfl, -⟩
      · exact ht.accepting k stage' hbefore hgone
      · exact not_gone_next hsafe hidle hgone
    · rcases accepting_step h hmain with ⟨stage', hbefore, -⟩ | ⟨hidle, -⟩
      · rw [hrunning] at hbefore
        cases hbefore
      · rw [hrunning] at hidle
        cases hidle
  · rcases accepting_step h hmain with ⟨stage', hbefore, hle⟩ | ⟨hidle, rfl, -⟩
    · rcases connections_step h hentry with hold | ⟨-, hinserted⟩
      · exact ht.absent k stage' hbefore (Nat.lt_of_le_of_lt hle hrank) fd hold
      · cases hinserted.symm.trans hmain
        exact absurd hrank (by decide)
    · rcases connections_step h hentry with hold | ⟨haccepting, -⟩
      · exact not_mapped_next hsafe hold
      · rw [hidle] at haccepting
        cases haccepting

/-- Neither of the two looks at the flags. -/
theorem Safe.writeFails (ht : t.Safe n) (k : Nat) : (t.writeFails k).Safe n :=
  ⟨ht.fresh, ht.distinct, ht.deleted, ht.anchored, ht.held, ht.mapped, ht.inserted, ht.own, ht.batch⟩

theorem Exact.writeFails (ht : t.Exact) (k : Nat) : (t.writeFails k).Exact := ⟨ht.gone, ht.accepting, ht.absent⟩

theorem safe_exact (hstart : (failingReactor n).start s) (hrun : (failingReactor n).Run s h t) :
    t.Safe n ∧ t.Exact := by
  obtain ⟨flags, rfl⟩ := hstart
  refine hrun.invariant (I := fun _ t => t.Safe n ∧ t.Exact) ?_ ⟨Safe.initial flags, Exact.initial flags⟩
  rintro h t i u ⟨hsafe, ht⟩ hstep
  cases i with
  | inl i => exact ⟨hsafe.step hstep, ht.step hsafe hstep.2⟩
  | inr k =>
    obtain ⟨-, -, rfl⟩ := hstep
    exact ⟨hsafe.writeFails k, ht.writeFails k⟩

/-- No entry is overwritten: what is under the descriptor belongs to nobody who is alive, so nothing is. -/
theorem Exact.vacant (ht : t.Exact) (hsafe : t.Safe n) {c : Life} (hmain : t.main = .accepting k .callbackSet)
    (hc : t.life k = some c) : t.connections c.fd = none := by
  have hrefs := hsafe.main_refs
  rw [hmain] at hrefs
  obtain ⟨c', hc', hlive⟩ := hrefs k (List.mem_singleton_self k)
  obtain rfl := Option.some.inj (hc.symm.trans hc')
  cases hentry : t.connections c.fd with
  | none => rfl
  | some k' =>
    rw [hsafe.entry hc hlive hentry] at hentry
    exact absurd hentry (ht.absent k _ hmain (by decide) c.fd)

/-- Who refers to a connection, when no loop has anything to do. -/
theorem Idle.held_iff (hidle : t.Idle) : t.Held k ↔ ∃ fd, t.connections fd = some k := by
  obtain ⟨hmain, htodo, hsub⟩ := hidle
  refine ⟨fun hheld => ?_, fun hentry => .inr (.inl hentry)⟩
  rcases hheld with hmem | hentry | hmem | ⟨l, hmem⟩ | ⟨l, hmem⟩
  · rw [hmain] at hmem
    cases hmem
  · exact hentry
  · rw [htodo] at hmem
    cases hmem
  · rw [(hsub l).1] at hmem
    cases hmem
  · rw [(hsub l).2] at hmem
    cases hmem

/-- Who sees to the end of one whose channel is registered. -/
theorem Idle.entry_iff {c : Life} (hidle : t.Idle) (hsafe : t.Safe n) (ht : t.Exact) (hc : t.life k = some c) :
    t.connections c.fd = some k ↔ c.deleted = false := by
  constructor
  · intro hentry
    cases hdeleted : c.deleted with
    | false => rfl
    | true => exact absurd hentry (ht.gone k (.inr (.inr (.inr ⟨c, hc, hdeleted⟩))) c.fd)
  · intro hdeleted
    obtain ⟨hmain, htodo, hsub⟩ := hidle
    rcases hsafe.anchored k c hc hdeleted with hmem | hentry | hmem | hmem | hmem
    · rw [hmain] at hmem
      cases hmem
    · exact hentry
    · rw [htodo] at hmem
      cases hmem
    · rw [(hsub _).1] at hmem
      cases hmem
    · rw [(hsub _).2] at hmem
      cases hmem

/-- **The map is exact**, in every interleaving, writes failing or not. `HandleNewConnection` overwrites no entry; a
    connection whose `ConnectionDestructor` has been queued, or whose channel has been deleted, is not in the map;
    and when no loop has anything to do, a connection is in it, under its own descriptor, if and only if its channel
    is still registered, and `~Connection` may run, or has run, for every other. -/
theorem connections_exact (hstart : (failingReactor n).start s) (hrun : (failingReactor n).Run s h t) :
    (∀ k c, t.main = .accepting k .callbackSet → t.life k = some c → t.connections c.fd = none) ∧
      (∀ k, t.Gone k → ∀ fd, t.connections fd ≠ some k) ∧
      (t.Idle → ∀ k c, t.life k = some c →
        (t.connections c.fd = some k ↔ c.deleted = false) ∧
          (t.Enabled n (.destroy k) ↔ c.deleted = true)) := by
  obtain ⟨hsafe, ht⟩ := safe_exact hstart hrun
  refine ⟨fun k c hmain hc => ht.vacant hsafe hmain hc, ht.gone, fun hidle k c hc => ?_⟩
  refine ⟨hidle.entry_iff hsafe ht hc, ?_⟩
  show ¬ t.Held k ↔ c.deleted = true
  rw [hidle.held_iff, ← Bool.not_eq_false, ← hidle.entry_iff hsafe ht hc]
  refine not_congr ⟨fun ⟨fd, hfd⟩ => ?_, fun hfd => ⟨c.fd, hfd⟩⟩
  obtain ⟨c', hc', rfl⟩ := hsafe.mapped fd k hfd
  obtain rfl := Option.some.inj (hc.symm.trans hc')
  exact hfd

/-- A run in which no write fails. -/
theorem unfailing {h : List Step} (hrun : (reactor n).Run s h t) : (failingReactor n).Run s (h.map .inl) t := by
  rw [← List.filterMap_eq_map]
  exact hrun.project id (some ∘ Sum.inl) id

/-- One connection with descriptor 7, of two loops, from its accept until the loops are idle again. -/
theorem connections_exact_one :
    ∃ h t c, (failingReactor 2).Run (Reactor.initial fun _ => ⟨.invalid, false, false⟩) h t ∧
      t.life 1 = some c ∧ t.connections c.fd = none ∧ t.Enabled 2 (.destroy 1) := by
  have haccept : (reactor 2).Run (Reactor.initial fun _ => ⟨.invalid, false, false⟩)
      [.accepted, .tie, .setConnected, .insert, .setOnCloseCallback, .own, .construct 7 .invalid] _ :=
    .step (.step (.step (.step (.step (.step (.step (.nil _)
      ⟨⟨by decide, fun _ _ hk => by cases hk⟩, rfl⟩) ⟨trivial, rfl⟩) ⟨trivial, rfl⟩) ⟨trivial, rfl⟩)
      ⟨trivial, rfl⟩) ⟨trivial, rfl⟩) ⟨trivial, rfl⟩
  have hclose : (reactor 2).Run (Reactor.initial fun _ => ⟨.invalid, false, false⟩)
      [.mainSwap, .handlerEnd 1, .closed 1, .queueClose 1, .close 1, .dispatch 1, .poll 1 [1], .accepted,
        .tie, .setConnected, .insert, .setOnCloseCallback, .own, .construct 7 .invalid] _ :=
    .step (.step (.step (.step (.step (.step (.step haccept
      ⟨List.forall_mem_singleton.mpr ⟨⟨7, false, false⟩, rfl, rfl, rfl⟩, rfl⟩) ⟨trivial, rfl⟩)
      ⟨trivial, rfl⟩) ⟨trivial, rfl⟩) ⟨trivial, rfl⟩) ⟨trivial, rfl⟩) ⟨trivial, rfl⟩
  have hrun : (reactor 2).Run (Reactor.initial fun _ => ⟨.invalid, false, false⟩)
      [.subEnd 1, .connectionDestructor 1, .subSwap 1, .mainEnd, .queueDestructor, .erase, .mainSwap,
        .handlerEnd 1, .closed 1, .queueClose 1, .close 1, .dispatch 1, .poll 1 [1], .accepted, .tie,
        .setConnected, .insert, .setOnCloseCallback, .own, .construct 7 .invalid] _ :=
    .step (.step (.step (.step (.step (.step hclose ⟨trivial, rfl⟩) ⟨trivial, rfl⟩) ⟨trivial, rfl⟩)
      ⟨trivial, rfl⟩) ⟨trivial, rfl⟩) ⟨trivial, rfl⟩
  have hfailing := unfailing hrun
  refine ⟨_, _, ⟨7, true, false⟩, hfailing, rfl, rfl, ?_⟩
  refine (((connections_exact ⟨_, rfl⟩ hfailing).2.2 ⟨rfl, rfl, fun l => ?_⟩ 1 ⟨7, true, false⟩ rfl).2).mpr rfl
  by_cases hl : l = 1
  · subst hl
    exact ⟨rfl, rfl⟩
  · constructor
    · simp only [Function.update_of_ne hl]
      rfl
    · simp only [Function.update_of_ne hl, show 7 % 2 = 1 from rfl]
      rfl

/-! ## The end of a connection -/

/-- Its end is reported to the main loop, or has been. -/
def Told (t : Reactor) (k : Nat) : Prop :=
  k ∈ t.main.ending ∨ k ∈ t.mainTodo ∨ (∃ l, k ∈ (t.sub l).ending) ∨ (∃ l, k ∈ t.subTodo l) ∨
    ∃ c, t.life k = some c ∧ c.deleted = true

/-- The steps that a connection's flags are about. -/
def Concerns (t : Reactor) (k : Nat) : Step → Prop
  | .construct .. => k = t.nextConnId
  | .setOnCloseCallback => t.main = .accepting k .owned
  | .setConnected => t.main = .accepting k .inserted
  | .close l => ∃ batch guarded, t.sub l = .inHandler k batch guarded
  | _ => False

theorem exists_split {α : Type} {P : α → Prop} (f : Nat → α) (l : Nat) :
    (∃ l', P (f l')) ↔ P (f l) ∨ ∃ l', l' ≠ l ∧ P (f l') := by
  have hsplit := Function.exists_update_iff f (a := l) (b := f l) (p := fun _ a => P a)
  rwa [Function.update_eq_self] at hsplit

/-- What the main thread and loop `l` have to do with it, and what the other loops have. -/
theorem told_split (l : Nat) : t.Told k ↔
    (k ∈ t.main.ending ∨ k ∈ t.mainTodo ∨ k ∈ (t.sub l).ending ∨ k ∈ t.subTodo l) ∨
      (∃ l', l' ≠ l ∧ k ∈ (t.sub l').ending) ∨ (∃ l', l' ≠ l ∧ k ∈ t.subTodo l') ∨
      ∃ c, t.life k = some c ∧ c.deleted = true := by
  unfold Told
  rw [exists_split (P := fun phase => k ∈ SubPhase.ending phase) t.sub l,
    exists_split (P := fun fs => k ∈ fs) t.subTodo l]
  refine iff_of_eq ?_
  ac_rfl

/-- A step of loop `l` or of the main thread that leaves the others alone. -/
theorem told_of_loop (l : Nat)
    (hending : k ∈ t'.main.ending ∨ k ∈ t'.mainTodo ∨ k ∈ (t'.sub l).ending ∨ k ∈ t'.subTodo l ↔
      k ∈ t.main.ending ∨ k ∈ t.mainTodo ∨ k ∈ (t.sub l).ending ∨ k ∈ t.subTodo l)
    (hsub : ∀ l', l' ≠ l → t'.sub l' = t.sub l') (htodo : ∀ l', l' ≠ l → t'.subTodo l' = t.subTodo l')
    (hdeleted : (∃ c, t'.life k = some c ∧ c.deleted = true) ↔ ∃ c, t.life k = some c ∧ c.deleted = true) :
    t'.Told k ↔ t.Told k := by
  have hsub' : (∃ l', l' ≠ l ∧ k ∈ (t'.sub l').ending) ↔ ∃ l', l' ≠ l ∧ k ∈ (t.sub l').ending :=
    exists_congr fun l' => and_congr_right fun hl => by rw [hsub l' hl]
  have htodo' : (∃ l', l' ≠ l ∧ k ∈ t'.subTodo l') ↔ ∃ l', l' ≠ l ∧ k ∈ t.subTodo l' :=
    exists_congr fun l' => and_congr_right fun hl => by rw [htodo l' hl]
  rw [told_split l, told_split l, hending, hsub', htodo', hdeleted]

theorem told_of_main {flags : Nat → ConnFlags} {connections : Nat → Option Nat} {p : MainPhase}
    {mainTodo : List Nat} (hending : k ∈ p.ending ∨ k ∈ mainTodo ↔ k ∈ t.main.ending ∨ k ∈ t.mainTodo) :
    Told { t with flags := flags, connections := connections, main := p, mainTodo := mainTodo } k ↔ t.Told k := by
  unfold Told
  rw [← or_assoc, hending, or_assoc]

theorem told_of_sub {flags : Nat → ConnFlags} {p : SubPhase} (hending : k ∈ p.ending ↔ k ∈ (t.sub l).ending) :
    Told { t with flags := flags, sub := Function.update t.sub l p } k ↔ t.Told k := by
  refine told_of_loop l ?_ (fun _ hl => Function.update_of_ne hl ..) (fun _ _ => rfl) Iff.rfl
  simp only [Function.update_self, hending]

/-- Nobody comes to be told of, or is forgotten, but by a `HandleClose`. -/
theorem told_step (hsafe : t.Safe n) (h : t.exec n i = some t') (hi : ∀ l, i = .close l → ¬ t.Concerns k i) :
    t'.Told k ↔ t.Told k := by
  cases i with
  | construct fd garbage =>
    simp only [exec] at h
    split at h
    case h_1 hidle =>
      cases h
      refine told_of_loop 0 ?_ (fun _ _ => rfl) (fun _ _ => rfl) ?_
      · rw [hidle]
        rfl
      · by_cases hk : k = t.nextConnId
        · simp only [hk, Function.update_self, hsafe.fresh _ (Nat.le_refl _), Option.some.injEq, exists_eq_left',
            Bool.false_eq_true, reduceCtorEq, false_and, exists_false]
        · simp only [Function.update_of_ne hk]
    case h_2 => cases h
  | own | setOnCloseCallback | setConnected | tie | accepted | mainEnd =>
    simp only [exec] at h
    split at h
    case h_1 hmain =>
      cases h
      exact told_of_main (by rw [hmain]; rfl)
    case h_2 => cases h
  | mainSwap =>
    simp only [exec] at h
    split at h
    case h_1 hmain =>
      cases h
      exact told_of_main (by rw [hmain]; exact or_comm)
    case h_2 => cases h
  | insert | erase =>
    simp only [exec] at h
    split at h
    case h_1 hmain =>
      obtain ⟨c, -, rfl⟩ := Option.map_eq_some_iff.mp h
      exact told_of_main (by rw [hmain]; rfl)
    case h_2 => cases h
  | queueDestructor =>
    simp only [exec] at h
    split at h
    case h_1 done k' rest hmain =>
      obtain ⟨c, -, rfl⟩ := Option.map_eq_some_iff.mp h
      refine told_of_loop (c.fd % n) ?_ (fun _ _ => rfl) (fun _ hl => Function.update_of_ne hl ..) Iff.rfl
      simp only [hmain, Function.update_self, MainPhase.ending, List.mem_append, List.mem_cons, List.not_mem_nil,
        or_false]
      refine iff_of_eq ?_
      ac_rfl
    case h_2 => cases h
  | poll | dispatch | closed | handlerEnd | subEnd =>
    simp only [exec] at h
    split at h
    case h_1 hsub =>
      cases h
      exact told_of_sub (by rw [hsub]; rfl)
    case h_2 => cases h
  | queueClose l =>
    simp only [exec] at h
    split at h
    case h_1 hsub =>
      cases h
      refine told_of_loop l ?_ (fun _ hl => Function.update_of_ne hl ..) (fun _ _ => rfl) Iff.rfl
      simp only [hsub, Function.update_self, SubPhase.ending, List.mem_append, List.mem_singleton,
        List.not_mem_nil, false_or, or_assoc]
    case h_2 => cases h
  | close l =>
    simp only [exec] at h
    split at h
    case h_1 k' batch guarded hsub =>
      have hne : k ≠ k' := by
        rintro rfl
        exact hi l rfl ⟨batch, guarded, hsub⟩
      split at h
      case isTrue =>
        cases h
        refine told_of_sub ?_
        rw [hsub]
        split <;> simp only [SubPhase.ending, List.mem_singleton, hne, List.not_mem_nil]
      case isFalse => cases h
    case h_2 => cases h
  | subSwap l =>
    simp only [exec] at h
    split at h
    case h_1 hsub =>
      cases h
      refine told_of_loop l ?_ (fun _ hl => Function.update_of_ne hl ..)
        (fun _ hl => Function.update_of_ne hl ..) Iff.rfl
      simp only [hsub, Function.update_self, SubPhase.ending, List.not_mem_nil, or_false, false_or]
    case h_2 => cases h
  | connectionDestructor l =>
    simp only [exec] at h
    split at h
    case h_1 done k' rest hsub =>
      obtain ⟨c, hc, rfl⟩ := Option.map_eq_some_iff.mp h
      by_cases hk : k = k'
      · have hold : t.Told k := .inr (.inr (.inl ⟨l, by rw [hsub, hk]; exact List.mem_cons_self⟩))
        have hnew : ∃ c', Function.update t.life k' (some { c with deleted := true }) k = some c' ∧
            c'.deleted = true := ⟨_, by rw [hk, Function.update_self], rfl⟩
        exact iff_of_true (.inr (.inr (.inr (.inr hnew)))) hold
      · refine told_of_loop l ?_ (fun _ hl => Function.update_of_ne hl ..) (fun _ _ => rfl) ?_
        · simp only [hsub, Function.update_self, SubPhase.ending, List.mem_cons, hk, false_or]
        · simp only [Function.update_of_ne hk]
    case h_2 => cases h
  | destroy k' =>
    obtain ⟨c, hc, rfl⟩ := Option.map_eq_some_iff.mp h
    refine told_of_loop 0 Iff.rfl (fun _ _ => rfl) (fun _ _ => rfl) ?_
    by_cases hk : k = k'
    · simp only [hk, Function.update_self, hc, Option.some.injEq, exists_eq_left']
    · simp only [Function.update_of_ne hk]

theorem flags_step (h : t.exec n i = some t') (hi : ¬ t.Concerns k i) :
    (t'.flags k).state = (t.flags k).state ∧ (t'.flags k).closeCallback = (t.flags k).closeCallback := by
  cases i with
  | construct fd garbage =>
    simp only [exec] at h
    split at h <;> cases h
    simp only [Function.update_of_ne hi, and_self]
  | setOnCloseCallback | setConnected =>
    simp only [exec] at h
    split at h
    case h_1 k' hmain =>
      cases h
      have hne : k ≠ k' := fun he => hi (he ▸ hmain)
      simp only [Function.update_of_ne hne, and_self]
    case h_2 => cases h
  | tie =>
    simp only [exec] at h
    split at h
    case h_1 k' hmain =>
      cases h
      by_cases hk : k = k'
      · simp only [hk, Function.update_self, and_self]
      · simp only [Function.update_of_ne hk, and_self]
    case h_2 => cases h
  | own | accepted | mainSwap | mainEnd | poll | dispatch | closed | handlerEnd | subEnd | queueClose | subSwap =>
    simp only [exec] at h
    split at h <;> cases h
    exact ⟨rfl, rfl⟩
  | insert | erase | queueDestructor | connectionDestructor =>
    simp only [exec] at h
    split at h
    case h_1 =>
      obtain ⟨c, -, rfl⟩ := Option.map_eq_some_iff.mp h
      exact ⟨rfl, rfl⟩
    case h_2 => cases h
  | close l =>
    simp only [exec] at h
    split at h
    case h_1 k' batch guarded hsub =>
      have hne : k ≠ k' := by
        rintro rfl
        exact hi ⟨batch, guarded, hsub⟩
      split at h <;> cases h
      simp only [Function.update_of_ne hne, and_self]
    case h_2 => cases h
  | destroy k' =>
    obtain ⟨c, -, rfl⟩ := Option.map_eq_some_iff.mp h
    exact ⟨rfl, rfl⟩

/-- `HandleClose` of a connection that is connected and has its `closeCallback`. -/
theorem close_step {batch : List Nat} {guarded : Bool} (h : t.exec n (.close l) = some t')
    (hsub : t.sub l = .inHandler k batch guarded) :
    (t.flags k).state = .connected ∧ (t'.flags k).state = .closed ∧
      (t'.flags k).closeCallback = (t.flags k).closeCallback ∧
      ((t.flags k).closeCallback = true → t'.Told k) := by
  simp only [exec, hsub] at h
  split at h
  case isTrue hstate =>
    cases h
    refine ⟨hstate, ?_, ?_, fun hcallback => ?_⟩
    · simp only [Function.update_self]
    · simp only [Function.update_self]
    · refine .inr (.inr (.inl ⟨l, ?_⟩))
      simp only [Function.update_self, hcallback, if_true]
      exact List.mem_singleton_self k
  case isFalse => cases h

theorem life_step (h : t.exec n i = some t') :
    ((∃ c, t'.life k = some c) → (∃ c, t.life k = some c) ∨
      (t.main = .idle ∧ k = t.nextConnId ∧ ∃ fd garbage, i = .construct fd garbage)) ∧
      ((∃ c, t.life k = some c) → ∃ c, t'.life k = some c) := by
  have hupdate : ∀ {k' : Nat} {c c' : Life}, t.life k' = some c →
      ((∃ c, Function.update t.life k' (some c') k = some c) ↔ ∃ c, t.life k = some c) := by
    intro k' c c' hc
    by_cases hk : k = k'
    · rw [hk, Function.update_self, hc]
      exact iff_of_true ⟨_, rfl⟩ ⟨_, rfl⟩
    · rw [Function.update_of_ne hk]
  cases i with
  | construct fd garbage =>
    simp only [exec] at h
    split at h
    case h_1 hidle =>
      cases h
      by_cases hk : k = t.nextConnId
      · refine ⟨fun _ => .inr ⟨hidle, hk, fd, garbage, rfl⟩, fun _ => ?_⟩
        simp only [hk, Function.update_self]
        exact ⟨_, rfl⟩
      · simp only [Function.update_of_ne hk]
        exact ⟨.inl, id⟩
    case h_2 => cases h
  | own | setOnCloseCallback | setConnected | tie | accepted | mainSwap | mainEnd | poll | dispatch | closed
  | handlerEnd | subEnd | queueClose | subSwap =>
    simp only [exec] at h
    split at h <;> cases h
    exact ⟨.inl, id⟩
  | insert | erase | queueDestructor =>
    simp only [exec] at h
    split at h
    case h_1 =>
      obtain ⟨c, -, rfl⟩ := Option.map_eq_some_iff.mp h
      exact ⟨.inl, id⟩
    case h_2 => cases h
  | close l =>
    simp only [exec] at h
    split at h
    case h_1 =>
      split at h <;> cases h
      exact ⟨.inl, id⟩
    case h_2 => cases h
  | connectionDestructor l =>
    simp only [exec] at h
    split at h
    case h_1 =>
      obtain ⟨c, hc, rfl⟩ := Option.map_eq_some_iff.mp h
      exact ⟨fun hknown => .inl ((hupdate hc).mp hknown), (hupdate hc).mpr⟩
    case h_2 => cases h
  | destroy k' =>
    obtain ⟨c, hc, rfl⟩ := Option.map_eq_some_iff.mp h
    exact ⟨fun hknown => .inl ((hupdate hc).mp hknown), (hupdate hc).mpr⟩

/-- Behind `m_state = Connected`. -/
structure Settled (t : Reactor) (k : Nat) : Prop where
  rank : ∀ stage, t.main = .accepting k stage → 4 ≤ stage.rank
  callback : (t.flags k).closeCallback = true

/-- Where a connection is with its end, `lost` being those a `Write` of which has failed. -/
inductive Fate (t : Reactor) (lost : List Nat) (k : Nat) : Prop
  | early (stage : Stage) (main : t.main = .accepting k stage) (rank : stage.rank < 4)
    (callback : 2 ≤ stage.rank → (t.flags k).closeCallback = true) (state : (t.flags k).state ≠ .connected)
    (told : ¬ t.Told k) (kept : k ∉ lost)
  | connected (settled : t.Settled k) (state : (t.flags k).state = .connected) (told : ¬ t.Told k) (kept : k ∉ lost)
  | ended (settled : t.Settled k) (state : (t.flags k).state = .closed) (told : t.Told k) (kept : k ∉ lost)
  | lost (settled : t.Settled k) (state : (t.flags k).state = .closed) (told : ¬ t.Told k) (lost : k ∈ lost)

section
variable {lost : List Nat}

/-- Only a `HandleClose` is about the flags of a connection that is settled. -/
theorem Settled.concern (hsettled : t.Settled k) (hnew : k ≠ t.nextConnId) (hi : t.Concerns k i) :
    ∃ l batch guarded, i = .close l ∧ t.sub l = .inHandler k batch guarded := by
  cases i with
  | construct => exact absurd hi hnew
  | setOnCloseCallback | setConnected => exact absurd (hsettled.rank _ hi) (by decide)
  | close l =>
    obtain ⟨batch, guarded, hsub⟩ := hi
    exact ⟨l, batch, guarded, rfl, hsub⟩
  | _ => cases hi

theorem Settled.step (hsettled : t.Settled k) (hnew : k ≠ t.nextConnId) (h : t.exec n i = some t')
    (hcallback : (t'.flags k).closeCallback = (t.flags k).closeCallback) : t'.Settled k := by
  refine ⟨fun stage hmain => ?_, hcallback.trans hsettled.callback⟩
  rcases accepting_step h hmain with ⟨stage', hbefore, hle⟩ | ⟨-, hk, -⟩
  · exact (hsettled.rank stage' hbefore).trans hle
  · exact absurd hk hnew

/-- A step before `m_state = Connected`, or that one. -/
theorem Fate.of_early {stage : Stage} (hsafe : t.Safe n) (h : t.exec n i = some t')
    (hmain : t.main = .accepting k stage) (hrank : stage.rank < 4)
    (hcallback : 2 ≤ stage.rank → (t.flags k).closeCallback = true) (hstate : (t.flags k).state ≠ .connected)
    (htold : ¬ t.Told k) (hkept : k ∉ lost) : Fate t' lost k := by
  -- it is not connected, so no `HandleClose` of it goes on
  have hclose : ∀ l, i = .close l → ¬ t.Concerns k i := by
    rintro l rfl ⟨batch, guarded, hsub⟩
    exact hstate (close_step h hsub).1
  have htold' : ¬ t'.Told k := fun hk => htold ((told_step hsafe h hclose).mp hk)
  cases hi : i.isMain with
  | false =>
    have hflags := flags_step (k := k) h (by
      cases i with
      | close l => exact hclose l rfl
      | construct | setOnCloseCallback | setConnected => cases hi
      | _ => exact id)
    refine .early stage ((sub_step h hi).1.trans hmain) hrank ?_ ?_ htold' hkept
    · rw [hflags.2]
      exact hcallback
    · rw [hflags.1]
      exact hstate
  | true =>
    cases i with
    | poll | dispatch | closed | handlerEnd | subEnd | queueClose | subSwap | close | connectionDestructor
    | destroy => cases hi
    | construct | mainSwap | mainEnd | erase | queueDestructor =>
      simp only [exec, hmain] at h
      cases h
    | tie | accepted =>
      simp only [exec, hmain] at h
      split at h
      case h_1 heq =>
        cases heq
        exact absurd hrank (by decide)
      case h_2 => cases h
    | own =>
      simp only [exec, hmain] at h
      split at h
      case h_1 heq =>
        cases heq
        cases h
        exact .early .owned rfl (by decide) (fun hle => absurd hle (by decide)) hstate htold' hkept
      case h_2 => cases h
    | setOnCloseCallback =>
      simp only [exec, hmain] at h
      split at h
      case h_1 heq =>
        cases heq
        cases h
        refine .early .callbackSet rfl (by decide) (fun _ => ?_) ?_ htold' hkept
        · simp only [Function.update_self]
        · simp only [Function.update_self]
          exact hstate
      case h_2 => cases h
    | insert =>
      simp only [exec, hmain] at h
      split at h
      case h_1 heq =>
        cases heq
        obtain ⟨c, -, rfl⟩ := Option.map_eq_some_iff.mp h
        exact .early .inserted rfl (by decide) (fun _ => hcallback (by decide)) hstate htold' hkept
      case h_2 => cases h
    | setConnected =>
      simp only [exec, hmain] at h
      split at h
      case h_1 heq =>
        cases heq
        cases h
        refine .connected ⟨fun stage he => ?_, ?_⟩ ?_ htold' hkept
        · cases he
          decide
        · simp only [Function.update_self]
          exact hcallback (by decide)
        · simp only [Function.update_self]
      case h_2 => cases h

/-- **One step** of any thread, for a connection that has been constructed. -/
theorem Fate.step (hfate : t.Fate lost k) (hsafe : t.Safe n) (hnew : k ≠ t.nextConnId)
    (h : t.exec n i = some t') : t'.Fate lost k := by
  -- what does not concern a connection that is settled leaves it as it is
  have hframe : t.Settled k → ¬ t.Concerns k i → t'.Settled k ∧ (t'.flags k).state = (t.flags k).state ∧
      (t'.Told k ↔ t.Told k) := by
    intro hsettled hi
    have hflags := flags_step h hi
    exact ⟨hsettled.step hnew h hflags.2, hflags.1, told_step hsafe h fun _ _ => hi⟩
  -- nor does a `HandleClose` behind another
  have hclosed : t.Settled k → (t.flags k).state = .closed → ¬ t.Concerns k i := by
    intro hsettled hstate hi
    obtain ⟨l, batch, guarded, rfl, hsub⟩ := hsettled.concern hnew hi
    cases hstate.symm.trans (close_step h hsub).1
  cases hfate with
  | early stage main rank callback state told kept =>
    exact Fate.of_early hsafe h main rank callback state told kept
  | connected settled state told kept =>
    by_cases hi : t.Concerns k i
    · obtain ⟨l, batch, guarded, rfl, hsub⟩ := settled.concern hnew hi
      obtain ⟨-, hstate, hcallback, htold⟩ := close_step h hsub
      exact .ended (settled.step hnew h hcallback) hstate (htold settled.callback) kept
    · obtain ⟨hsettled, hstate, htold⟩ := hframe settled hi
      exact .connected hsettled (hstate.trans state) (fun hk => told (htold.mp hk)) kept
  | ended settled state told kept =>
    obtain ⟨hsettled, hstate, htold⟩ := hframe settled (hclosed settled state)
    exact .ended hsettled (hstate.trans state) (htold.mpr told) kept
  | lost settled state told lost =>
    obtain ⟨hsettled, hstate, htold⟩ := hframe settled (hclosed settled state)
    exact .lost hsettled (hstate.trans state) (fun hk => told (htold.mp hk)) lost

/-- **A `Write` that fails**, of this connection or of another. -/
theorem Fate.writeFails {k' : Nat} (hfate : t.Fate lost k) (hconnected : (t.flags k').state = .connected) :
    (t.writeFails k').Fate (k' :: lost) k := by
  have hcallback : ((t.writeFails k').flags k).closeCallback = (t.flags k).closeCallback := by
    by_cases hk : k = k'
    · simp only [Reactor.writeFails, hk, Function.update_self]
    · simp only [Reactor.writeFails, Function.update_of_ne hk]
  have hsettled : t.Settled k → (t.writeFails k').Settled k := fun h => ⟨h.rank, hcallback.trans h.callback⟩
  by_cases hk : k = k'
  · subst hk
    have hstate : ((t.writeFails k).flags k).state = .closed := by
      simp only [Reactor.writeFails, Function.update_self]
    cases hfate with
    | early stage main rank callback state told kept => exact absurd hconnected state
    | connected settled state told kept => exact .lost (hsettled settled) hstate told List.mem_cons_self
    | ended settled state told kept => cases state.symm.trans hconnected
    | lost settled state told lost => cases state.symm.trans hconnected
  · have hstate : ((t.writeFails k').flags k).state = (t.flags k).state := by
      simp only [Reactor.writeFails, Function.update_of_ne hk]
    have hlost : ∀ {lost : List Nat}, k ∉ lost → k ∉ k' :: lost := by
      intro lost hkept hmem
      exact hkept ((List.mem_cons.mp hmem).resolve_left hk)
    cases hfate with
    | early stage main rank callback state told kept =>
      exact .early stage main rank (fun hle => hcallback.trans (callback hle)) (hstate.symm ▸ state) told (hlost kept)
    | connected settled state told kept =>
      exact .connected (hsettled settled) (hstate.trans state) told (hlost kept)
    | ended settled state told kept => exact .ended (hsettled settled) (hstate.trans state) told (hlost kept)
    | lost settled state told lost =>
      exact .lost (hsettled settled) (hstate.trans state) told (List.mem_cons_of_mem _ lost)

/-- Nobody has been told of a connection that there is not. -/
theorem not_told_next (hsafe : t.Safe n) (hidle : t.main = .idle) : ¬ t.Told t.nextConnId := by
  have hnone : t.life t.nextConnId = none := hsafe.fresh _ (Nat.le_refl _)
  have hdead : ¬ t.Alive t.nextConnId := by
    rintro ⟨c, hc, -⟩
    rw [hnone] at hc
    cases hc
  rintro (hmem | hmem | ⟨l, hmem⟩ | ⟨l, hmem⟩ | ⟨c, hc, -⟩)
  · rw [hidle] at hmem
    cases hmem
  · exact hdead (hsafe.queued _ hmem)
  · exact hdead (hsafe.sub_refs l _ (SubPhase.refs_of_ending hmem))
  · exact hdead (hsafe.functions l _ hmem).1
  · rw [hnone] at hc
    cases hc

end

/-- `m_state` is not `Connected` by chance before it is set. -/
def Unset : Step ⊕ Nat → Prop
  | .inl (.construct _ garbage) => garbage ≠ .connected
  | _ => True

/-- Whoever is written to is alive. -/
theorem Writes.known (hwrites : t.Writes k) (hsafe : t.Safe n) : ∃ c, t.life k = some c := by
  rcases hwrites with ⟨l, batch, guarded, hsub⟩ | hmain
  · obtain ⟨c, hc, -⟩ := hsafe.batch l k (by rw [hsub]; exact List.mem_cons_self)
    exact ⟨c, hc⟩
  · obtain ⟨c, hc, -⟩ := hsafe.main_refs k (by rw [hmain]; exact List.mem_singleton_self k)
    exact ⟨c, hc⟩

/-- **Every run**: each connection has its fate. -/
theorem fates (hstart : (failingReactor n).start s)
    (hrun : ((failingReactor n).restrict fun _ i => Unset i).Run s h t) :
    (∀ k ∈ failed h, ∃ c, t.life k = some c) ∧ ∀ k c, t.life k = some c → t.Fate (failed h) k := by
  have hall : t.Safe n ∧ (∀ k ∈ failed h, ∃ c, t.life k = some c) ∧
      ∀ k c, t.life k = some c → t.Fate (failed h) k := by
    obtain ⟨flags, rfl⟩ := hstart
    refine hrun.invariant (I := fun h t => t.Safe n ∧ (∀ k ∈ failed h, ∃ c, t.life k = some c) ∧
      ∀ k c, t.life k = some c → t.Fate (failed h) k) ?_ ⟨Safe.initial flags, List.forall_mem_nil _, ?_⟩
    · rintro h t i u ⟨hsafe, hknown, hfates⟩ ⟨hstep, hunset⟩
      cases i with
      | inl i =>
        refine ⟨hsafe.step hstep, fun k hk => (life_step hstep.2).2 (hknown k hk), fun k c hc => ?_⟩
        rcases (life_step hstep.2).1 ⟨c, hc⟩ with ⟨c', hc'⟩ | ⟨hidle, rfl, fd, garbage, rfl⟩
        · refine (hfates k c' hc').step hsafe ?_ hstep.2
          rintro rfl
          rw [hsafe.fresh _ (Nat.le_refl _)] at hc'
          cases hc'
        · have htold : ¬ u.Told t.nextConnId := by
            rw [told_step hsafe hstep.2 fun l he => by cases he]
            exact not_told_next hsafe hidle
          have hexec := hstep.2
          simp only [exec, hidle, Option.some.injEq] at hexec
          subst hexec
          refine .early .constructing rfl (by decide) (fun hle => absurd hle (by decide)) ?_ htold fun hmem => ?_
          · simp only [Function.update_self]
            exact hunset
          · obtain ⟨c', hc'⟩ := hknown _ hmem
            rw [hsafe.fresh _ (Nat.le_refl _)] at hc'
            cases hc'
      | inr k' =>
        obtain ⟨hwrites, hconnected, rfl⟩ := hstep
        refine ⟨hsafe.writeFails k', ?_, fun k c hc => (hfates k c hc).writeFails hconnected⟩
        exact List.forall_mem_cons.mpr ⟨hwrites.known hsafe, hknown⟩
    · intro k c hc
      cases hc
  exact hall.2

/-- One that nobody has been told of, behind its insertion, is in the map. -/
theorem Settled.mapped {c : Life} (hsettled : t.Settled k) (hsafe : t.Safe n) (htold : ¬ t.Told k)
    (hc : t.life k = some c) : t.connections c.fd = some k ∧ c.deleted = false := by
  have hdeleted : c.deleted = false := by
    cases hdeleted : c.deleted with
    | false => rfl
    | true => exact absurd (.inr (.inr (.inr (.inr ⟨c, hc, hdeleted⟩)))) htold
  refine ⟨?_, hdeleted⟩
  rcases hsafe.anchored k c hc hdeleted with hmem | hentry | hmem | hmem | hmem
  · cases hmain : t.main with
    | idle =>
      rw [hmain] at hmem
      cases hmem
    | accepting k' stage =>
      rw [hmain] at hmem
      obtain rfl := List.mem_singleton.mp hmem
      have hinserted : stage.isInserted = true :=
        stage.isInserted_iff.mpr (Nat.le_of_succ_le (hsettled.rank stage hmain))
      obtain ⟨c', hc', hentry⟩ := hsafe.inserted k stage hmain hinserted
      obtain rfl := Option.some.inj (hc.symm.trans hc')
      exact hentry
    | running | queueing => exact absurd (.inl (by rw [hmain] at hmem ⊢; exact hmem)) htold
  · exact hentry
  · exact absurd (.inr (.inl hmem)) htold
  · refine absurd (.inr (.inr (.inl ⟨c.fd % n, ?_⟩))) htold
    cases hsub : t.sub (c.fd % n) with
    | running =>
      rw [hsub] at hmem
      exact hmem
    | _ =>
      rw [hsub] at hmem
      cases hmem
  · exact absurd (.inr (.inr (.inr (.inl ⟨_, hmem⟩)))) htold

/-- What has been told when no loop has anything to do has been seen to. -/
theorem Idle.told (hidle : t.Idle) (htold : t.Told k) : ∃ c, t.life k = some c ∧ c.deleted = true := by
  obtain ⟨hmain, htodo, hsub⟩ := hidle
  rcases htold with hmem | hmem | ⟨l, hmem⟩ | ⟨l, hmem⟩ | hdeleted
  · rw [hmain] at hmem
    cases hmem
  · rw [htodo] at hmem
    cases hmem
  · rw [(hsub l).1] at hmem
    cases hmem
  · rw [(hsub l).2] at hmem
    cases hmem
  · exact hdeleted

/-- **A connection whose `Write` has failed is there for good**, in every interleaving in which no `m_state` is
    `Connected` by chance: in every state behind it is in the map, its channel is registered, and `~Connection` may
    not run, so that its descriptor stays open. When no loop has anything to do, what is in the map are these and
    the connections that are connected, and nothing else. -/
theorem lost_for_good (hstart : (failingReactor n).start s)
    (hrun : ((failingReactor n).restrict fun _ i => Unset i).Run s h t) :
    (∀ k ∈ failed h, ∃ c, t.life k = some c ∧ t.connections c.fd = some k ∧ c.deleted = false ∧
      ¬ t.Enabled n (.destroy k)) ∧
    (t.Idle → ∀ k c, t.life k = some c →
      (t.connections c.fd = some k ↔ (t.flags k).state = .connected ∨ k ∈ failed h)) := by
  obtain ⟨hsafe, ht⟩ := safe_exact hstart hrun.of_restrict
  obtain ⟨hknown, hfates⟩ := fates hstart hrun
  refine ⟨fun k hk => ?_, fun hidle k c hc => ?_⟩
  · obtain ⟨c, hc⟩ := hknown k hk
    cases hfates k c hc with
    | early _ _ _ _ _ _ kept | connected _ _ _ kept | ended _ _ _ kept => exact absurd hk kept
    | lost settled state told =>
      obtain ⟨hentry, hdeleted⟩ := settled.mapped hsafe told hc
      exact ⟨c, hc, hentry, hdeleted, fun hfree => hfree (.inr (.inl ⟨c.fd, hentry⟩))⟩
  · cases hfates k c hc with
    | early stage main =>
      rw [hidle.1] at main
      cases main
    | connected settled state told => exact iff_of_true (settled.mapped hsafe told hc).1 (.inl state)
    | lost settled state told lost => exact iff_of_true (settled.mapped hsafe told hc).1 (.inr lost)
    | ended settled state told kept =>
      refine iff_of_false (fun hentry => ?_) ?_
      · rw [hidle.entry_iff hsafe ht hc] at hentry
        obtain ⟨c', hc', hdeleted⟩ := hidle.told told
        obtain rfl := Option.some.inj (hc.symm.trans hc')
        cases hentry.symm.trans hdeleted
      · rintro (hconnected | hlost)
        · cases state.symm.trans hconnected
        · exact kept hlost

/-- The same connection; the echo of what it has sent first is not taken. -/
theorem lost_for_good_one :
    ∃ h t c, ((failingReactor 2).restrict fun _ i => Unset i).Run
        (Reactor.initial fun _ => ⟨.invalid, false, false⟩) h t ∧
      1 ∈ failed h ∧ t.Idle ∧ t.life 1 = some c ∧ t.connections c.fd = some 1 := by
  have hwrite : ((failingReactor 2).restrict fun _ i => Unset i).Run
      (Reactor.initial fun _ => ⟨.invalid, false, false⟩)
      [.inr 1, .inl (.dispatch 1), .inl (.poll 1 [1]), .inl .accepted, .inl .tie, .inl .setConnected, .inl .insert,
        .inl .setOnCloseCallback, .inl .own, .inl (.construct 7 .invalid)] _ :=
    .step (.step (.step (.step (.step (.step (.step (.step (.step (.step (.nil _)
      ⟨⟨⟨by decide, fun _ _ hk => by cases hk⟩, rfl⟩, fun he => by cases he⟩) ⟨⟨trivial, rfl⟩, trivial⟩)
      ⟨⟨trivial, rfl⟩, trivial⟩) ⟨⟨trivial, rfl⟩, trivial⟩) ⟨⟨trivial, rfl⟩, trivial⟩) ⟨⟨trivial, rfl⟩, trivial⟩)
      ⟨⟨trivial, rfl⟩, trivial⟩)
      ⟨⟨List.forall_mem_singleton.mpr ⟨⟨7, false, false⟩, rfl, rfl, rfl⟩, rfl⟩, trivial⟩)
      ⟨⟨trivial, rfl⟩, trivial⟩) ⟨⟨.inl ⟨1, [], true, rfl⟩, rfl, rfl⟩, trivial⟩
  have hrun : ((failingReactor 2).restrict fun _ i => Unset i).Run
      (Reactor.initial fun _ => ⟨.invalid, false, false⟩)
      [.inl (.subEnd 1), .inl (.subSwap 1), .inl (.handlerEnd 1), .inr 1, .inl (.dispatch 1), .inl (.poll 1 [1]),
        .inl .accepted, .inl .tie, .inl .setConnected, .inl .insert, .inl .setOnCloseCallback, .inl .own,
        .inl (.construct 7 .invalid)] _ :=
    .step (.step (.step hwrite ⟨⟨trivial, rfl⟩, trivial⟩) ⟨⟨trivial, rfl⟩, trivial⟩) ⟨⟨trivial, rfl⟩, trivial⟩
  have hlost := lost_for_good ⟨_, rfl⟩ hrun
  obtain ⟨c, hc, hentry, -⟩ := hlost.1 1 List.mem_cons_self
  refine ⟨_, _, c, hrun, List.mem_cons_self, ⟨rfl, rfl, fun l => ?_⟩, hc, hentry⟩
  by_cases hl : l = 1
  · subst hl
    exact ⟨rfl, rfl⟩
  · constructor
    · simp only [Reactor.writeFails, Function.update_of_ne hl]
      rfl
    · simp only [Reactor.writeFails, Function.update_of_ne hl]
      rfl

end
end Reactor
end LinuxServer
