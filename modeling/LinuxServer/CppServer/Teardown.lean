import LinuxServer.CppServer.Connection
import Mathlib.Logic.Function.Basic

/-!
# `CppServer/Teardown.lean` — the end of connections, across the loops of a server

A `Connection` is shared: by `HandleNewConnection` while it sets it up, by the map `connections`, by the
functions queued on the main loop (`HandleCloseInLoop`) and on its own loop (`ConnectionDestructor`), for as
long as the vector they were swapped into is there, and by the handler that reads it. Whoever drops the last
of these references runs `~Connection`, which closes the descriptor; the kernel may then give it to the next
client.

So what has to be shown is that a connection whose channel is still registered is always `Anchored`: it is
referred to by something that will see to its end, and not only by something that will drop it.

What the constructor of a connection leaves in `m_state` is any value; a `Read` that finds it connected goes
on. `~Connection` is a step of its own, at any time once nobody refers to the connection, in any thread. The
callbacks of the server's user neither keep a connection nor close one.
-/

set_option autoImplicit false

namespace LinuxServer

/-- How far `HandleNewConnection` is: in the constructor, with the channel registered; behind
    `make_shared`; behind `setOnCloseCallback`, the insertion, `m_state = Connected` and `Tie`. -/
inductive Stage
  | constructing
  | owned
  | callbackSet
  | inserted
  | connected
  | tied
  deriving DecidableEq, Repr

def Stage.isInserted : Stage → Bool
  | .inserted | .connected | .tied => true
  | _ => false

/-- The thread of the main loop. The functions it has taken are kept until all of them have run. -/
inductive MainPhase
  | idle
  | accepting (k : Nat) (stage : Stage)
  /-- Before the `HandleCloseInLoop` of the next. -/
  | running (done rest : List Nat)
  /-- In it, behind the erasure. -/
  | queueing (done : List Nat) (k : Nat) (rest : List Nat)
  deriving DecidableEq, Repr

/-- The thread of another loop. -/
inductive SubPhase
  | polling
  | handling (batch : List Nat)
  /-- In `handleEvent`, with the reference of the tie or without. -/
  | inHandler (k : Nat) (batch : List Nat) (guarded : Bool)
  /-- In `HandleClose`, before `closeCallback` has queued its function, and behind. -/
  | reporting (k : Nat) (batch : List Nat) (guarded : Bool)
  | reported (k : Nat) (batch : List Nat) (guarded : Bool)
  /-- Before the `ConnectionDestructor` of the next. -/
  | running (done rest : List Nat)
  deriving DecidableEq, Repr

namespace MainPhase

/-- The connections it refers to. -/
def refs : MainPhase → List Nat
  | .idle => []
  | .accepting k _ => [k]
  | .running done rest => done ++ rest
  | .queueing done k rest => done ++ k :: rest

/-- Those it will see to. -/
def duty : MainPhase → List Nat
  | .idle => []
  | .accepting k _ => [k]
  | .running _ rest => rest
  | .queueing _ k rest => k :: rest

theorem refs_of_duty {p : MainPhase} {k : Nat} (hk : k ∈ p.duty) : k ∈ p.refs := by
  cases p with
  | idle => exact hk
  | accepting k' stage => exact hk
  | running done rest => exact List.mem_append_right _ hk
  | queueing done k' rest => exact List.mem_append_right _ hk

end MainPhase

namespace SubPhase

def refs : SubPhase → List Nat
  | .polling | .handling _ => []
  | .inHandler k _ guarded => if guarded then [k] else []
  | .reporting k _ _ | .reported k _ _ => [k]
  | .running done rest => done ++ rest

def duty : SubPhase → List Nat
  | .running _ rest => rest
  | _ => []

theorem refs_of_duty {p : SubPhase} {k : Nat} (hk : k ∈ p.duty) : k ∈ p.refs := by
  cases p with
  | running done rest => exact List.mem_append_right _ hk
  | _ => cases hk

/-- The connections whose functions it has taken. -/
def tmp : SubPhase → List Nat
  | .running done rest => done ++ rest
  | _ => []

theorem refs_of_tmp {p : SubPhase} {k : Nat} (hk : k ∈ p.tmp) : k ∈ p.refs := by
  cases p with
  | running done rest => exact hk
  | _ => cases hk

/-- The connections whose channels it is still to handle, or is handling. -/
def batch : SubPhase → List Nat
  | .handling batch => batch
  | .inHandler k batch _ | .reporting k batch _ | .reported k batch _ => k :: batch
  | _ => []

end SubPhase

/-- What becomes of a connection: whether `deleteChannel` has run for its channel, and whether it has been
    destroyed. -/
structure Life where
  fd : Nat
  deleted : Bool
  destroyed : Bool
  deriving DecidableEq, Repr

/-- What its handlers look at; `tied` says whether there is a reference for `handleEvent` to lock. -/
structure ConnFlags where
  state : ConnectionState
  closeCallback : Bool
  tied : Bool
  deriving DecidableEq, Repr

/-- A server, its connections known by their `conid`, its loops by their place in `subReactor`. -/
structure Reactor where
  nextConnId : Nat
  life : Nat → Option Life
  flags : Nat → ConnFlags
  connections : Nat → Option Nat
  main : MainPhase
  mainTodo : List Nat
  sub : Nat → SubPhase
  subTodo : Nat → List Nat

namespace Reactor

inductive Step
  | construct (fd : Nat) (garbage : ConnectionState)
  | own
  | setOnCloseCallback
  | insert
  | setConnected
  | tie
  | accepted
  | mainSwap
  | erase
  | queueDestructor
  | mainEnd
  | poll (l : Nat) (batch : List Nat)
  | dispatch (l : Nat)
  /-- `Read` comes to the end of the stream, or to an error, and `HandleClose` sets the state. -/
  | close (l : Nat)
  /-- `Server::HandleClose`: `runOneFunc`, called from a thread that is not the main loop's, queues. -/
  | queueClose (l : Nat)
  | closed (l : Nat)
  | handlerEnd (l : Nat)
  | subSwap (l : Nat)
  | connectionDestructor (l : Nat)
  | subEnd (l : Nat)
  | destroy (k : Nat)
  deriving DecidableEq, Repr

/-- A server before its first client. -/
def initial (flags : Nat → ConnFlags) : Reactor where
  nextConnId := 1
  life _ := none
  flags := flags
  connections _ := none
  main := .idle
  mainTodo := []
  sub _ := .polling
  subTodo _ := []

/-- Somebody refers to a connection. -/
def Held (t : Reactor) (k : Nat) : Prop :=
  k ∈ t.main.refs ∨ (∃ fd, t.connections fd = some k) ∨ k ∈ t.mainTodo ∨
    (∃ l, k ∈ (t.sub l).refs) ∨ ∃ l, k ∈ t.subTodo l

/-- A connection whose channel is registered with a loop, of `n` loops. -/
def Registered (n : Nat) (t : Reactor) (l k : Nat) : Prop :=
  ∃ c, t.life k = some c ∧ c.fd % n = l ∧ c.deleted = false

/-- A step of a server of `n` loops; a connection goes to the loop `client_fd % n`. -/
def exec (n : Nat) (t : Reactor) : Step → Option Reactor
  | .construct fd garbage =>
    match t.main with
    | .idle => some { t with
        nextConnId := t.nextConnId + 1
        life := Function.update t.life t.nextConnId (some ⟨fd, false, false⟩)
        flags := Function.update t.flags t.nextConnId ⟨garbage, false, false⟩
        main := .accepting t.nextConnId .constructing }
    | _ => none
  | .own =>
    match t.main with
    | .accepting k .constructing => some { t with main := .accepting k .owned }
    | _ => none
  | .setOnCloseCallback =>
    match t.main with
    | .accepting k .owned => some { t with
        flags := Function.update t.flags k { t.flags k with closeCallback := true }
        main := .accepting k .callbackSet }
    | _ => none
  | .insert =>
    match t.main with
    | .accepting k .callbackSet => (t.life k).map fun c => { t with
        connections := Function.update t.connections c.fd (some k)
        main := .accepting k .inserted }
    | _ => none
  | .setConnected =>
    match t.main with
    | .accepting k .inserted => some { t with
        flags := Function.update t.flags k { t.flags k with state := .connected }
        main := .accepting k .connected }
    | _ => none
  | .tie =>
    match t.main with
    | .accepting k .connected => some { t with
        flags := Function.update t.flags k { t.flags k with tied := true }
        main := .accepting k .tied }
    | _ => none
  | .accepted =>
    match t.main with
    | .accepting _ .tied => some { t with main := .idle }
    | _ => none
  | .mainSwap =>
    match t.main with
    | .idle => some { t with main := .running [] t.mainTodo, mainTodo := [] }
    | _ => none
  | .erase =>
    match t.main with
    | .running done (k :: rest) => (t.life k).map fun c => { t with
        connections := Function.update t.connections c.fd none
        main := .queueing done k rest }
    | _ => none
  | .queueDestructor =>
    match t.main with
    | .queueing done k rest => (t.life k).map fun c => { t with
        subTodo := Function.update t.subTodo (c.fd % n) (t.subTodo (c.fd % n) ++ [k])
        main := .running (done ++ [k]) rest }
    | _ => none
  | .mainEnd =>
    match t.main with
    | .running _ [] => some { t with main := .idle }
    | _ => none
  | .poll l batch =>
    match t.sub l with
    | .polling => some { t with sub := Function.update t.sub l (.handling batch) }
    | _ => none
  | .dispatch l =>
    match t.sub l with
    | .handling (k :: batch) =>
      some { t with sub := Function.update t.sub l (.inHandler k batch (t.flags k).tied) }
    | _ => none
  | .close l =>
    match t.sub l with
    | .inHandler k batch guarded =>
      if (t.flags k).state = .connected then some { t with
        flags := Function.update t.flags k { t.flags k with state := .closed }
        sub := Function.update t.sub l
          (if (t.flags k).closeCallback then .reporting k batch guarded else .inHandler k batch guarded) }
      else none
    | _ => none
  | .queueClose l =>
    match t.sub l with
    | .reporting k batch guarded => some { t with
        mainTodo := t.mainTodo ++ [k]
        sub := Function.update t.sub l (.reported k batch guarded) }
    | _ => none
  | .closed l =>
    match t.sub l with
    | .reported k batch guarded =>
      some { t with sub := Function.update t.sub l (.inHandler k batch guarded) }
    | _ => none
  | .handlerEnd l =>
    match t.sub l with
    | .inHandler _ batch _ => some { t with sub := Function.update t.sub l (.handling batch) }
    | _ => none
  | .subSwap l =>
    match t.sub l with
    | .handling [] => some { t with
        sub := Function.update t.sub l (.running [] (t.subTodo l))
        subTodo := Function.update t.subTodo l [] }
    | _ => none
  | .connectionDestructor l =>
    match t.sub l with
    | .running done (k :: rest) => (t.life k).map fun c => { t with
        life := Function.update t.life k (some { c with deleted := true })
        sub := Function.update t.sub l (.running (done ++ [k]) rest) }
    | _ => none
  | .subEnd l =>
    match t.sub l with
    | .running _ [] => some { t with sub := Function.update t.sub l .polling }
    | _ => none
  | .destroy k => (t.life k).map fun c =>
    { t with life := Function.update t.life k (some { c with destroyed := true }) }

/-- What the kernel, and the count of the references, allow. -/
def Enabled (n : Nat) (t : Reactor) : Step → Prop
  -- the descriptor is not open; and a `%` by zero ends the process
  | .construct fd _ => 0 < n ∧ ∀ k c, t.life k = some c → c.destroyed = false → c.fd ≠ fd
  | .poll l batch => ∀ k ∈ batch, t.Registered n l k
  | .destroy k => ¬ t.Held k
  | _ => True

end Reactor

/-- A server with `n` loops besides the main one. -/
def reactor (n : Nat) : System Reactor Reactor.Step where
  start t := ∃ flags, t = Reactor.initial flags
  step t i t' := t.Enabled n i ∧ t.exec n i = some t'

namespace Reactor

/-! ## What sees to the end of a connection -/

def Alive (t : Reactor) (k : Nat) : Prop := ∃ c, t.life k = some c ∧ c.destroyed = false

/-- Somebody sees to the end of a connection: `HandleNewConnection`, the map, or a function that is queued
    or has been taken and has not run. -/
def Anchored (n : Nat) (t : Reactor) (k fd : Nat) : Prop :=
  k ∈ t.main.duty ∨ t.connections fd = some k ∨ k ∈ t.mainTodo ∨ k ∈ (t.sub (fd % n)).duty ∨
    k ∈ t.subTodo (fd % n)

/-- **The invariant.** -/
structure Safe (n : Nat) (t : Reactor) : Prop where
  fresh : ∀ k, t.nextConnId ≤ k → t.life k = none
  distinct : ∀ k k' c c', t.life k = some c → t.life k' = some c' → c.destroyed = false →
    c'.destroyed = false → c.fd = c'.fd → k = k'
  deleted : ∀ k c, t.life k = some c → c.destroyed = true → c.deleted = true
  anchored : ∀ k c, t.life k = some c → c.deleted = false → t.Anchored n k c.fd
  held : ∀ k, t.Held k → t.Alive k
  mapped : ∀ fd k, t.connections fd = some k → ∃ c, t.life k = some c ∧ c.fd = fd
  inserted : ∀ k stage, t.main = .accepting k stage → stage.isInserted = true →
    ∃ c, t.life k = some c ∧ t.connections c.fd = some k
  own : ∀ l k, k ∈ (t.sub l).tmp ∨ k ∈ t.subTodo l → ∃ c, t.life k = some c ∧ c.fd % n = l
  batch : ∀ l k, k ∈ (t.sub l).batch → t.Registered n l k

section
variable {n l k : Nat} {s t t' : Reactor} {h : List Step}

theorem Safe.initial (flags : Nat → ConnFlags) : (initial flags).Safe n where
  fresh _ _ := rfl
  distinct _ _ _ _ hk := by cases hk
  deleted _ _ hk := by cases hk
  anchored _ _ hk := by cases hk
  held k hheld := by
    rcases hheld with hmem | ⟨fd, hfd⟩ | hmem | ⟨l, hmem⟩ | ⟨l, hmem⟩
    · cases hmem
    · cases hfd
    · cases hmem
    · cases hmem
    · cases hmem
  mapped _ _ hfd := by cases hfd
  inserted _ _ hmain := by cases hmain
  own l k hmem := by
    rcases hmem with hmem | hmem <;> cases hmem
  batch _ _ hmem := by cases hmem

/-- What is registered has not been destroyed. -/
theorem Safe.alive (ht : t.Safe n) (hk : t.Registered n l k) : t.Alive k := by
  obtain ⟨c, hc, -, hdeleted⟩ := hk
  refine ⟨c, hc, ?_⟩
  cases hdestroyed : c.destroyed with
  | false => rfl
  | true =>
    rw [ht.deleted k c hc hdestroyed] at hdeleted
    cases hdeleted

/-- A connection that somebody refers to, in the map under its own descriptor, is there alone. -/
theorem Safe.entry (ht : t.Safe n) {c : Life} (hc : t.life k = some c) (halive : c.destroyed = false)
    {k' : Nat} (hentry : t.connections c.fd = some k') : k' = k := by
  obtain ⟨c', hc', hdestroyed⟩ := ht.held k' (.inr (.inl ⟨c.fd, hentry⟩))
  obtain ⟨c'', hc'', hfd⟩ := ht.mapped c.fd k' hentry
  obtain rfl : c' = c'' := Option.some.inj (hc'.symm.trans hc'')
  exact ht.distinct k' k c' c hc' hc hdestroyed halive hfd

/-! ### What is referred to -/

theorem Safe.main_refs (ht : t.Safe n) : ∀ k ∈ t.main.refs, t.Alive k := by
  intro k hk
  exact ht.held k (.inl hk)

theorem Safe.entries (ht : t.Safe n) :
    ∀ fd k, t.connections fd = some k → t.Alive k ∧ ∃ c, t.life k = some c ∧ c.fd = fd := by
  intro fd k hfd
  exact ⟨ht.held k (.inr (.inl ⟨fd, hfd⟩)), ht.mapped fd k hfd⟩

theorem Safe.queued (ht : t.Safe n) : ∀ k ∈ t.mainTodo, t.Alive k := by
  intro k hk
  exact ht.held k (.inr (.inr (.inl hk)))

theorem Safe.sub_refs (ht : t.Safe n) : ∀ l, ∀ k ∈ (t.sub l).refs, t.Alive k := by
  intro l k hk
  exact ht.held k (.inr (.inr (.inr (.inl ⟨l, hk⟩))))

theorem Safe.functions (ht : t.Safe n) :
    ∀ l, ∀ k ∈ t.subTodo l, t.Alive k ∧ ∃ c, t.life k = some c ∧ c.fd % n = l := by
  intro l k hk
  exact ⟨ht.held k (.inr (.inr (.inr (.inr ⟨l, hk⟩)))), ht.own l k (.inr hk)⟩

/-! ## What the steps preserve

A step of another loop changes the loop, its functions and what is queued on the main one; a step of the
main thread changes the main thread, the map and what is queued. Neither touches the life of a connection,
so both are spared the first three laws. -/

/-- A step of loop `l`, to `p`: what it still has to do stays queued or taken. -/
theorem Safe.of_sub (ht : t.Safe n) {flags : Nat → ConnFlags} {mainTodo : List Nat} {p : SubPhase}
    {subTodo : Nat → List Nat} (hrefs : ∀ k ∈ p.refs, t.Alive k)
    (hbatch : ∀ k ∈ p.batch, t.Registered n l k) (hqueued : ∀ k ∈ mainTodo, t.Alive k)
    (hkept : ∀ k ∈ t.mainTodo, k ∈ mainTodo) (hother : ∀ l', l' ≠ l → subTodo l' = t.subTodo l')
    (htaken : ∀ k, k ∈ p.tmp ∨ k ∈ subTodo l → k ∈ (t.sub l).tmp ∨ k ∈ t.subTodo l)
    (hduty : ∀ k c, t.life k = some c → c.deleted = false → k ∈ (t.sub l).duty ∨ k ∈ t.subTodo l →
      k ∈ p.duty ∨ k ∈ subTodo l) :
    Safe n { t with
      flags := flags, mainTodo := mainTodo, sub := Function.update t.sub l p, subTodo := subTodo } where
  fresh := ht.fresh
  distinct := ht.distinct
  deleted := ht.deleted
  anchored k c hc hdeleted := by
    rcases ht.anchored k c hc hdeleted with hmem | hmem | hmem | hmem
    · exact .inl hmem
    · exact .inr (.inl hmem)
    · exact .inr (.inr (.inl (hkept k hmem)))
    · refine .inr (.inr (.inr ?_))
      by_cases hl : c.fd % n = l
      · rw [hl] at hmem ⊢
        simpa only [Function.update_self] using hduty k c hc hdeleted hmem
      · simpa only [Function.update_of_ne hl, hother _ hl] using hmem
  held k hheld := by
    rcases hheld with hmem | ⟨fd, hfd⟩ | hmem | ⟨l', hmem⟩ | ⟨l', hmem⟩
    · exact ht.main_refs k hmem
    · exact (ht.entries fd k hfd).1
    · exact hqueued k hmem
    · by_cases hl : l' = l
      · simp only [hl, Function.update_self] at hmem
        exact hrefs k hmem
      · simp only [Function.update_of_ne hl] at hmem
        exact ht.sub_refs l' k hmem
    · by_cases hl : l' = l
      · simp only [hl] at hmem
        rcases htaken k (.inr hmem) with hmem | hmem
        · exact ht.sub_refs l k (SubPhase.refs_of_tmp hmem)
        · exact (ht.functions l k hmem).1
      · simp only [hother l' hl] at hmem
        exact (ht.functions l' k hmem).1
  mapped := ht.mapped
  inserted := ht.inserted
  own l' k hmem := by
    by_cases hl : l' = l
    · simp only [hl, Function.update_self] at hmem
      rw [hl]
      exact ht.own l k (htaken k hmem)
    · simp only [Function.update_of_ne hl, hother l' hl] at hmem
      exact ht.own l' k hmem
  batch l' k hmem := by
    by_cases hl : l' = l
    · simp only [hl, Function.update_self] at hmem
      rw [hl]
      exact hbatch k hmem
    · simp only [Function.update_of_ne hl] at hmem
      exact ht.batch l' k hmem

/-- A step of the main thread, to `p`: it refers to what is alive, and lets go of nothing it has to see
    to. -/
theorem Safe.of_main (ht : t.Safe n) {flags : Nat → ConnFlags} {connections : Nat → Option Nat}
    {p : MainPhase} {mainTodo : List Nat} {subTodo : Nat → List Nat} (hrefs : ∀ k ∈ p.refs, t.Alive k)
    (hmapped : ∀ fd k, connections fd = some k → t.Alive k ∧ ∃ c, t.life k = some c ∧ c.fd = fd)
    (hinserted : ∀ k stage, p = .accepting k stage → stage.isInserted = true →
      ∃ c, t.life k = some c ∧ connections c.fd = some k)
    (hqueued : ∀ k ∈ mainTodo, t.Alive k)
    (hsub : ∀ l, ∀ k ∈ subTodo l, t.Alive k ∧ ∃ c, t.life k = some c ∧ c.fd % n = l)
    (hkept : ∀ k c, t.life k = some c →
      k ∈ t.main.duty ∨ t.connections c.fd = some k ∨ k ∈ t.mainTodo ∨ k ∈ t.subTodo (c.fd % n) →
      k ∈ p.duty ∨ connections c.fd = some k ∨ k ∈ mainTodo ∨ k ∈ subTodo (c.fd % n)) :
    Safe n { t with
      flags := flags, connections := connections, main := p, mainTodo := mainTodo, subTodo := subTodo } where
  fresh := ht.fresh
  distinct := ht.distinct
  deleted := ht.deleted
  anchored k c hc hdeleted := by
    have hnow : k ∈ t.main.duty ∨ t.connections c.fd = some k ∨ k ∈ t.mainTodo ∨ k ∈ t.subTodo (c.fd % n) →
        k ∈ p.duty ∨ connections c.fd = some k ∨ k ∈ mainTodo ∨
          k ∈ (t.sub (c.fd % n)).duty ∨ k ∈ subTodo (c.fd % n) := by
      intro hwas
      rcases hkept k c hc hwas with hmem | hmem | hmem | hmem
      · exact .inl hmem
      · exact .inr (.inl hmem)
      · exact .inr (.inr (.inl hmem))
      · exact .inr (.inr (.inr (.inr hmem)))
    rcases ht.anchored k c hc hdeleted with hmem | hmem | hmem | hmem | hmem
    · exact hnow (.inl hmem)
    · exact hnow (.inr (.inl hmem))
    · exact hnow (.inr (.inr (.inl hmem)))
    · exact .inr (.inr (.inr (.inl hmem)))
    · exact hnow (.inr (.inr (.inr hmem)))
  held k hheld := by
    rcases hheld with hmem | ⟨fd, hfd⟩ | hmem | ⟨l, hmem⟩ | ⟨l, hmem⟩
    · exact hrefs k hmem
    · exact (hmapped fd k hfd).1
    · exact hqueued k hmem
    · exact ht.sub_refs l k hmem
    · exact (hsub l k hmem).1
  mapped fd k hfd := (hmapped fd k hfd).2
  inserted := hinserted
  own l k hmem := by
    rcases hmem with hmem | hmem
    · exact ht.own l k (.inl hmem)
    · exact (hsub l k hmem).2
  batch := ht.batch

/-- A connection's channel is deleted, or the connection is destroyed. -/
theorem Safe.of_life (ht : t.Safe n) {c c' : Life} (hc : t.life k = some c) (hfd : c'.fd = c.fd)
    (hdestroyed : c'.destroyed = true → c'.deleted = true)
    (hwas : c'.destroyed = false → c.destroyed = false) (hdel : c'.deleted = false → c.deleted = false)
    (hheld : t.Held k → c'.destroyed = false) (hbatch : ∀ l, k ∈ (t.sub l).batch → c'.deleted = false) :
    Safe n { t with life := Function.update t.life k (some c') } := by
  have hforth : ∀ k₁ c₁, t.life k₁ = some c₁ →
      ∃ c₂, Function.update t.life k (some c') k₁ = some c₂ ∧ c₂.fd = c₁.fd := by
    intro k₁ c₁ hc₁
    by_cases hk : k₁ = k
    · rw [hk] at hc₁ ⊢
      obtain rfl := Option.some.inj (hc.symm.trans hc₁)
      exact ⟨c', Function.update_self .., hfd⟩
    · exact ⟨c₁, (Function.update_of_ne hk ..).trans hc₁, rfl⟩
  have hback : ∀ k₁ c₂, Function.update t.life k (some c') k₁ = some c₂ →
      ∃ c₁, t.life k₁ = some c₁ ∧ c₁.fd = c₂.fd ∧ (c₂.destroyed = false → c₁.destroyed = false) ∧
        (c₂.deleted = false → c₁.deleted = false) := by
    intro k₁ c₂ hc₂
    by_cases hk : k₁ = k
    · rw [hk] at hc₂ ⊢
      rw [Function.update_self] at hc₂
      obtain rfl := Option.some.inj hc₂
      exact ⟨c, hc, hfd.symm, hwas, hdel⟩
    · rw [Function.update_of_ne hk] at hc₂
      exact ⟨c₂, hc₂, rfl, id, id⟩
  constructor
  case fresh =>
    intro k₁ hk₁
    have hnone := ht.fresh k₁ hk₁
    have hne : k₁ ≠ k := by
      rintro rfl
      rw [hnone] at hc
      cases hc
    exact (Function.update_of_ne hne ..).trans hnone
  case distinct =>
    intro k₁ k₂ c₁ c₂ hc₁ hc₂ hlive₁ hlive₂ heq
    obtain ⟨c₁', hc₁', hfd₁, hwas₁, -⟩ := hback k₁ c₁ hc₁
    obtain ⟨c₂', hc₂', hfd₂, hwas₂, -⟩ := hback k₂ c₂ hc₂
    exact ht.distinct k₁ k₂ c₁' c₂' hc₁' hc₂' (hwas₁ hlive₁) (hwas₂ hlive₂) (hfd₁.trans (heq.trans hfd₂.symm))
  case deleted =>
    intro k₁ c₁ hc₁ hd
    by_cases hk : k₁ = k
    · simp only [hk, Function.update_self, Option.some.injEq] at hc₁
      rw [← hc₁] at hd ⊢
      exact hdestroyed hd
    · simp only [Function.update_of_ne hk] at hc₁
      exact ht.deleted k₁ c₁ hc₁ hd
  case anchored =>
    intro k₁ c₁ hc₁ hd
    obtain ⟨c₁', hc₁', hfd₁, -, hdel₁⟩ := hback k₁ c₁ hc₁
    have hanchored := ht.anchored k₁ c₁' hc₁' (hdel₁ hd)
    rw [hfd₁] at hanchored
    exact hanchored
  case held =>
    intro k₁ hk₁
    obtain ⟨c₁, hc₁, hlive⟩ := ht.held k₁ hk₁
    by_cases hk : k₁ = k
    · rw [hk] at hk₁ ⊢
      exact ⟨c', Function.update_self .., hheld hk₁⟩
    · exact ⟨c₁, (Function.update_of_ne hk ..).trans hc₁, hlive⟩
  case mapped =>
    intro fd k₁ hk₁
    obtain ⟨c₁, hc₁, hfd₁⟩ := ht.mapped fd k₁ hk₁
    obtain ⟨c₂, hc₂, hfd₂⟩ := hforth k₁ c₁ hc₁
    exact ⟨c₂, hc₂, hfd₂.trans hfd₁⟩
  case inserted =>
    intro k₁ stage hmain hstage
    obtain ⟨c₁, hc₁, hentry⟩ := ht.inserted k₁ stage hmain hstage
    obtain ⟨c₂, hc₂, hfd₂⟩ := hforth k₁ c₁ hc₁
    rw [← hfd₂] at hentry
    exact ⟨c₂, hc₂, hentry⟩
  case own =>
    intro l₁ k₁ hk₁
    obtain ⟨c₁, hc₁, hown⟩ := ht.own l₁ k₁ hk₁
    obtain ⟨c₂, hc₂, hfd₂⟩ := hforth k₁ c₁ hc₁
    rw [← hfd₂] at hown
    exact ⟨c₂, hc₂, hown⟩
  case batch =>
    intro l₁ k₁ hk₁
    obtain ⟨c₁, hc₁, hown, hd⟩ := ht.batch l₁ k₁ hk₁
    by_cases hk : k₁ = k
    · rw [hk] at hk₁ hc₁ ⊢
      obtain rfl := Option.some.inj (hc.symm.trans hc₁)
      rw [← hfd] at hown
      exact ⟨c', Function.update_self .., hown, hbatch l₁ hk₁⟩
    · exact ⟨c₁, (Function.update_of_ne hk ..).trans hc₁, hown, hd⟩

/-- A new connection: nobody knows its number yet, and nothing else open has its descriptor. -/
theorem Safe.of_construct (ht : t.Safe n) {fd : Nat} {flags : Nat → ConnFlags} (hmain : t.main = .idle)
    (hfree : ∀ k c, t.life k = some c → c.destroyed = false → c.fd ≠ fd) :
    Safe n { t with
      nextConnId := t.nextConnId + 1
      life := Function.update t.life t.nextConnId (some ⟨fd, false, false⟩)
      flags := flags
      main := .accepting t.nextConnId .constructing } := by
  have hnew : t.life t.nextConnId = none := ht.fresh _ (Nat.le_refl _)
  have hne : ∀ {k c}, t.life k = some c → k ≠ t.nextConnId := by
    intro k c hc heq
    rw [heq, hnew] at hc
    cases hc
  have hkeep : ∀ {k c}, t.life k = some c →
      Function.update t.life t.nextConnId (some ⟨fd, false, false⟩) k = some c := by
    intro k c hc
    exact (Function.update_of_ne (hne hc) ..).trans hc
  constructor
  case fresh =>
    intro k hk
    have hlt : t.nextConnId < k := hk
    exact (Function.update_of_ne (Nat.ne_of_gt hlt) ..).trans (ht.fresh k (Nat.le_of_lt hlt))
  case distinct =>
    intro k₁ k₂ c₁ c₂ hc₁ hc₂ hlive₁ hlive₂ heq
    by_cases hk₁ : k₁ = t.nextConnId
    · by_cases hk₂ : k₂ = t.nextConnId
      · exact hk₁.trans hk₂.symm
      · simp only [hk₁, Function.update_self, Option.some.injEq] at hc₁
        simp only [Function.update_of_ne hk₂] at hc₂
        rw [← hc₁] at heq
        exact absurd heq.symm (hfree k₂ c₂ hc₂ hlive₂)
    · simp only [Function.update_of_ne hk₁] at hc₁
      by_cases hk₂ : k₂ = t.nextConnId
      · simp only [hk₂, Function.update_self, Option.some.injEq] at hc₂
        rw [← hc₂] at heq
        exact absurd heq (hfree k₁ c₁ hc₁ hlive₁)
      · simp only [Function.update_of_ne hk₂] at hc₂
        exact ht.distinct k₁ k₂ c₁ c₂ hc₁ hc₂ hlive₁ hlive₂ heq
  case deleted =>
    intro k c hc hd
    by_cases hk : k = t.nextConnId
    · simp only [hk, Function.update_self, Option.some.injEq] at hc
      rw [← hc] at hd
      cases hd
    · simp only [Function.update_of_ne hk] at hc
      exact ht.deleted k c hc hd
  case anchored =>
    intro k c hc hd
    by_cases hk : k = t.nextConnId
    · exact .inl (List.mem_singleton.mpr hk)
    · simp only [Function.update_of_ne hk] at hc
      rcases ht.anchored k c hc hd with hmem | hrest
      · rw [hmain] at hmem
        cases hmem
      · exact .inr hrest
  case held =>
    intro k hk
    by_cases heq : k = t.nextConnId
    · rw [heq]
      exact ⟨_, Function.update_self .., rfl⟩
    · have hwas : t.Held k := by
        rcases hk with hmem | hrest
        · exact absurd (List.mem_singleton.mp hmem) heq
        · exact .inr hrest
      obtain ⟨c, hc, hlive⟩ := ht.held k hwas
      exact ⟨c, hkeep hc, hlive⟩
  case mapped =>
    intro fd' k hk
    obtain ⟨c, hc, hfd⟩ := ht.mapped fd' k hk
    exact ⟨c, hkeep hc, hfd⟩
  case inserted =>
    intro k stage hstage hinserted
    cases hstage
    cases hinserted
  case own =>
    intro l k hk
    obtain ⟨c, hc, hown⟩ := ht.own l k hk
    exact ⟨c, hkeep hc, hown⟩
  case batch =>
    intro l k hk
    obtain ⟨c, hc, hrest⟩ := ht.batch l k hk
    exact ⟨c, hkeep hc, hrest⟩

/-- `HandleNewConnection` goes on with the connection it sets up. -/
theorem Safe.of_stage (ht : t.Safe n) {flags : Nat → ConnFlags} {stage stage' : Stage}
    (hmain : t.main = .accepting k stage) (hstage : stage'.isInserted = true → stage.isInserted = true) :
    Safe n { t with flags := flags, main := .accepting k stage' } := by
  have hrefs := ht.main_refs
  rw [hmain] at hrefs
  apply ht.of_main
  · exact hrefs
  · exact ht.entries
  · intro k' s heq hs
    cases heq
    exact ht.inserted k stage hmain (hstage hs)
  · exact ht.queued
  · exact ht.functions
  · intro k' c _ hwas
    rw [hmain] at hwas
    exact hwas

/-- A loop goes on, nothing queued and nothing that is queued taken. -/
theorem Safe.of_phase (ht : t.Safe n) {flags : Nat → ConnFlags} {p : SubPhase}
    (hrefs : ∀ k ∈ p.refs, t.Alive k) (hbatch : ∀ k ∈ p.batch, t.Registered n l k)
    (htaken : ∀ k ∈ p.tmp, k ∈ (t.sub l).tmp)
    (hduty : ∀ k c, t.life k = some c → c.deleted = false → k ∈ (t.sub l).duty → k ∈ p.duty) :
    Safe n { t with flags := flags, sub := Function.update t.sub l p } := by
  apply ht.of_sub hrefs hbatch
  · exact ht.queued
  · exact fun _ hk => hk
  · exact fun _ _ => rfl
  · intro k hk
    exact hk.imp_left (htaken k)
  · intro k c hc hd hk
    exact hk.imp_left (hduty k c hc hd)

/-! ## The steps of the main thread -/

/-- The map with the entry of `c` made another: that of an open connection, or none. -/
theorem Safe.entries_update (ht : t.Safe n) {fd : Nat} {entry : Option Nat}
    (hentry : ∀ k, entry = some k → t.Alive k ∧ ∃ c, t.life k = some c ∧ c.fd = fd) :
    ∀ fd' k, Function.update t.connections fd entry fd' = some k →
      t.Alive k ∧ ∃ c, t.life k = some c ∧ c.fd = fd' := by
  intro fd' k hk
  by_cases heq : fd' = fd
  · rw [heq, Function.update_self] at hk
    rw [heq]
    exact hentry k hk
  · rw [Function.update_of_ne heq] at hk
    exact ht.entries fd' k hk

/-- Nobody's entry is lost by that but the connection's own. -/
theorem Safe.entry_kept (ht : t.Safe n) {c : Life} (hc : t.life k = some c) (hlive : c.destroyed = false)
    (entry : Option Nat) {fd k' : Nat} (hk' : t.connections fd = some k') :
    k' = k ∨ Function.update t.connections c.fd entry fd = some k' := by
  by_cases heq : fd = c.fd
  · rw [heq] at hk'
    exact .inl (ht.entry hc hlive hk')
  · exact .inr ((Function.update_of_ne heq ..).trans hk')

theorem Safe.own_step (ht : t.Safe n) (h : t.exec n .own = some t') : t'.Safe n := by
  simp only [exec] at h
  split at h
  case h_1 k hmain =>
    cases h
    exact ht.of_stage hmain (fun hs => by cases hs)
  case h_2 => cases h

theorem Safe.setOnCloseCallback (ht : t.Safe n) (h : t.exec n .setOnCloseCallback = some t') : t'.Safe n := by
  simp only [exec] at h
  split at h
  case h_1 k hmain =>
    cases h
    exact ht.of_stage hmain (fun hs => by cases hs)
  case h_2 => cases h

theorem Safe.setConnected (ht : t.Safe n) (h : t.exec n .setConnected = some t') : t'.Safe n := by
  simp only [exec] at h
  split at h
  case h_1 k hmain =>
    cases h
    exact ht.of_stage hmain (fun _ => rfl)
  case h_2 => cases h

theorem Safe.tie (ht : t.Safe n) (h : t.exec n .tie = some t') : t'.Safe n := by
  simp only [exec] at h
  split at h
  case h_1 k hmain =>
    cases h
    exact ht.of_stage hmain (fun _ => rfl)
  case h_2 => cases h

/-- The entry that is overwritten, if there is one, belongs to nobody but the new connection. -/
theorem Safe.insert (ht : t.Safe n) (h : t.exec n .insert = some t') : t'.Safe n := by
  simp only [exec] at h
  split at h
  case h_1 k hmain =>
    obtain ⟨c, hc, rfl⟩ := Option.map_eq_some_iff.mp h
    have hrefs := ht.main_refs
    rw [hmain] at hrefs
    obtain ⟨c', hc', hlive⟩ := hrefs k (List.mem_singleton_self k)
    obtain rfl := Option.some.inj (hc.symm.trans hc')
    apply ht.of_main
    · exact hrefs
    · apply ht.entries_update
      intro k' hk'
      obtain rfl := Option.some.inj hk'
      exact ⟨⟨c, hc, hlive⟩, c, hc, rfl⟩
    · intro k' stage heq _
      cases heq
      exact ⟨c, hc, Function.update_self ..⟩
    · exact ht.queued
    · exact ht.functions
    · intro k' c₁ hc₁ hwas
      rw [hmain] at hwas
      rcases hwas with hmem | hentry | hrest
      · exact .inl hmem
      · rcases ht.entry_kept hc hlive (some k) hentry with heq | hkept
        · exact .inl (List.mem_singleton.mpr heq)
        · exact .inr (.inl hkept)
      · exact .inr (.inr hrest)
  case h_2 => cases h

/-- `HandleNewConnection` is left: the connection is in the map. -/
theorem Safe.accepted (ht : t.Safe n) (h : t.exec n .accepted = some t') : t'.Safe n := by
  simp only [exec] at h
  split at h
  case h_1 k hmain =>
    cases h
    apply ht.of_main
    · exact List.forall_mem_nil _
    · exact ht.entries
    · intro k' stage heq
      cases heq
    · exact ht.queued
    · exact ht.functions
    · intro k' c hc hwas
      rw [hmain] at hwas
      rcases hwas with hmem | hrest
      · obtain rfl := List.mem_singleton.mp hmem
        obtain ⟨c', hc', hentry⟩ := ht.inserted k' .tied hmain rfl
        obtain rfl := Option.some.inj (hc.symm.trans hc')
        exact .inr (.inl hentry)
      · exact .inr hrest
  case h_2 => cases h

theorem Safe.mainSwap (ht : t.Safe n) (h : t.exec n .mainSwap = some t') : t'.Safe n := by
  simp only [exec] at h
  split at h
  case h_1 hmain =>
    cases h
    apply ht.of_main
    · exact ht.queued
    · exact ht.entries
    · intro k' stage heq
      cases heq
    · exact List.forall_mem_nil _
    · exact ht.functions
    · intro k' c hc hwas
      rw [hmain] at hwas
      rcases hwas with hmem | hentry | hqueued | htodo
      · cases hmem
      · exact .inr (.inl hentry)
      · exact .inl hqueued
      · exact .inr (.inr (.inr htodo))
  case h_2 => cases h

/-- The entry that is erased is the connection's own, if it is there. -/
theorem Safe.erase (ht : t.Safe n) (h : t.exec n .erase = some t') : t'.Safe n := by
  simp only [exec] at h
  split at h
  case h_1 done k rest hmain =>
    obtain ⟨c, hc, rfl⟩ := Option.map_eq_some_iff.mp h
    have hrefs := ht.main_refs
    rw [hmain] at hrefs
    obtain ⟨c', hc', hlive⟩ := hrefs k (List.mem_append_right _ List.mem_cons_self)
    obtain rfl := Option.some.inj (hc.symm.trans hc')
    apply ht.of_main
    · exact hrefs
    · apply ht.entries_update
      intro k' hk'
      cases hk'
    · intro k' stage heq
      cases heq
    · exact ht.queued
    · exact ht.functions
    · intro k' c₁ hc₁ hwas
      rw [hmain] at hwas
      rcases hwas with hmem | hentry | hrest
      · exact .inl hmem
      · rcases ht.entry_kept hc hlive none hentry with heq | hkept
        · rw [heq]
          exact .inl List.mem_cons_self
        · exact .inr (.inl hkept)
      · exact .inr (.inr hrest)
  case h_2 => cases h

theorem Safe.queueDestructor (ht : t.Safe n) (h : t.exec n .queueDestructor = some t') : t'.Safe n := by
  simp only [exec] at h
  split at h
  case h_1 done k rest hmain =>
    obtain ⟨c, hc, rfl⟩ := Option.map_eq_some_iff.mp h
    have hrefs := ht.main_refs
    rw [hmain] at hrefs
    apply ht.of_main
    · intro k' hk'
      apply hrefs k'
      simpa [MainPhase.refs] using hk'
    · exact ht.entries
    · intro k' stage heq
      cases heq
    · exact ht.queued
    · intro l k' hk'
      have hwas : k' ∈ t.subTodo l ∨ k' = k ∧ c.fd % n = l := by
        by_cases hl : l = c.fd % n
        · rw [hl, Function.update_self] at hk'
          rcases List.mem_append.mp hk' with hmem | hmem
          · rw [hl]
            exact .inl hmem
          · exact .inr ⟨List.mem_singleton.mp hmem, hl.symm⟩
        · rw [Function.update_of_ne hl] at hk'
          exact .inl hk'
      rcases hwas with hmem | ⟨rfl, hl⟩
      · exact ht.functions l k' hmem
      · exact ⟨hrefs k' (List.mem_append_right _ List.mem_cons_self), c, hc, hl⟩
    · intro k' c₁ hc₁ hwas
      have hkept : ∀ l, k' ∈ t.subTodo l →
          k' ∈ Function.update t.subTodo (c.fd % n) (t.subTodo (c.fd % n) ++ [k]) l := by
        intro l hmem
        by_cases hl : l = c.fd % n
        · rw [hl] at hmem ⊢
          rw [Function.update_self]
          exact List.mem_append_left _ hmem
        · rw [Function.update_of_ne hl]
          exact hmem
      rw [hmain] at hwas
      rcases hwas with hmem | hentry | hqueued | htodo
      · rcases List.mem_cons.mp hmem with rfl | hmem
        · obtain rfl := Option.some.inj (hc.symm.trans hc₁)
          rw [Function.update_self]
          exact .inr (.inr (.inr (List.mem_append_right _ (List.mem_singleton_self k'))))
        · exact .inl hmem
      · exact .inr (.inl hentry)
      · exact .inr (.inr (.inl hqueued))
      · exact .inr (.inr (.inr (hkept _ htodo)))
  case h_2 => cases h

theorem Safe.mainEnd (ht : t.Safe n) (h : t.exec n .mainEnd = some t') : t'.Safe n := by
  simp only [exec] at h
  split at h
  case h_1 done hmain =>
    cases h
    apply ht.of_main
    · exact List.forall_mem_nil _
    · exact ht.entries
    · intro k' stage heq
      cases heq
    · exact ht.queued
    · exact ht.functions
    · intro k' c _ hwas
      rw [hmain] at hwas
      exact hwas
  case h_2 => cases h

/-! ## The steps of the other loops -/

/-- Whose channel a loop is handling is alive: it has not been deleted, and only the loop itself
    deletes it. -/
theorem Safe.handled (ht : t.Safe n) (hk : k ∈ (t.sub l).batch) : t.Alive k :=
  ht.alive (ht.batch l k hk)

theorem Safe.poll {batch : List Nat} (ht : t.Safe n) (hen : t.Enabled n (.poll l batch))
    (h : t.exec n (.poll l batch) = some t') : t'.Safe n := by
  simp only [exec] at h
  split at h
  case h_1 hsub =>
    cases h
    apply ht.of_phase
    · exact List.forall_mem_nil _
    · exact hen
    · exact List.forall_mem_nil _
    · intro k c _ _ hk
      rw [hsub] at hk
      cases hk
  case h_2 => cases h

theorem Safe.dispatch (ht : t.Safe n) (h : t.exec n (.dispatch l) = some t') : t'.Safe n := by
  simp only [exec] at h
  split at h
  case h_1 k batch hsub =>
    cases h
    have hbatch := ht.batch l
    rw [hsub] at hbatch
    apply ht.of_phase
    · intro k' hk'
      cases htied : (t.flags k).tied with
      | false =>
        rw [htied] at hk'
        cases hk'
      | true =>
        rw [htied] at hk'
        obtain rfl := List.mem_singleton.mp hk'
        exact ht.alive (hbatch k' List.mem_cons_self)
    · exact hbatch
    · exact List.forall_mem_nil _
    · intro k' c _ _ hk'
      rw [hsub] at hk'
      cases hk'
  case h_2 => cases h

theorem Safe.close (ht : t.Safe n) (h : t.exec n (.close l) = some t') : t'.Safe n := by
  simp only [exec] at h
  split at h
  case h_1 k batch guarded hsub =>
    have hbatch := ht.batch l
    have hrefs := ht.sub_refs l
    have hduty : ∀ k, k ∉ (t.sub l).duty := by
      intro k hk
      rw [hsub] at hk
      cases hk
    rw [hsub] at hbatch hrefs
    split at h
    case isTrue hstate =>
      cases h
      cases hcallback : (t.flags k).closeCallback with
      | false =>
        apply ht.of_phase
        · exact hrefs
        · exact hbatch
        · exact List.forall_mem_nil _
        · intro k' _ _ _ hk'
          exact absurd hk' (hduty k')
      | true =>
        apply ht.of_phase
        · intro k' hk'
          obtain rfl := List.mem_singleton.mp hk'
          exact ht.alive (hbatch k' List.mem_cons_self)
        · exact hbatch
        · exact List.forall_mem_nil _
        · intro k' _ _ _ hk'
          exact absurd hk' (hduty k')
    case isFalse => cases h
  case h_2 => cases h

theorem Safe.queueClose (ht : t.Safe n) (h : t.exec n (.queueClose l) = some t') : t'.Safe n := by
  simp only [exec] at h
  split at h
  case h_1 k batch guarded hsub =>
    cases h
    have hbatch := ht.batch l
    have hrefs := ht.sub_refs l
    rw [hsub] at hbatch hrefs
    apply ht.of_sub
    · exact hrefs
    · exact hbatch
    · intro k' hk'
      rcases List.mem_append.mp hk' with hmem | hmem
      · exact ht.queued k' hmem
      · exact hrefs k' hmem
    · intro k' hk'
      exact List.mem_append_left _ hk'
    · exact fun _ _ => rfl
    · intro k' hk'
      exact hk'.imp_left (fun hk => by cases hk)
    · intro k' _ _ _ hk'
      rw [hsub] at hk'
      exact hk'
  case h_2 => cases h

theorem Safe.closed (ht : t.Safe n) (h : t.exec n (.closed l) = some t') : t'.Safe n := by
  simp only [exec] at h
  split at h
  case h_1 k batch guarded hsub =>
    cases h
    have hbatch := ht.batch l
    have hrefs := ht.sub_refs l
    rw [hsub] at hbatch hrefs
    apply ht.of_phase
    · intro k' hk'
      cases guarded with
      | false => cases hk'
      | true => exact hrefs k' hk'
    · exact hbatch
    · exact List.forall_mem_nil _
    · intro k' _ _ _ hk'
      rw [hsub] at hk'
      exact hk'
  case h_2 => cases h

theorem Safe.handlerEnd (ht : t.Safe n) (h : t.exec n (.handlerEnd l) = some t') : t'.Safe n := by
  simp only [exec] at h
  split at h
  case h_1 k batch guarded hsub =>
    cases h
    have hbatch := ht.batch l
    rw [hsub] at hbatch
    apply ht.of_phase
    · exact List.forall_mem_nil _
    · intro k' hk'
      exact hbatch k' (List.mem_cons_of_mem _ hk')
    · exact List.forall_mem_nil _
    · intro k' _ _ _ hk'
      rw [hsub] at hk'
      exact hk'
  case h_2 => cases h

theorem Safe.subSwap (ht : t.Safe n) (h : t.exec n (.subSwap l) = some t') : t'.Safe n := by
  simp only [exec] at h
  split at h
  case h_1 hsub =>
    cases h
    apply ht.of_sub
    · intro k hk
      exact (ht.functions l k hk).1
    · exact List.forall_mem_nil _
    · exact ht.queued
    · exact fun _ hk => hk
    · exact fun _ hl => Function.update_of_ne hl ..
    · intro k hk
      rw [Function.update_self] at hk
      exact .inr (hk.resolve_right List.not_mem_nil)
    · intro k _ _ _ hk
      rw [hsub] at hk
      exact .inl (hk.resolve_left List.not_mem_nil)
  case h_2 => cases h

/-- `deleteChannel` runs in the connection's own loop, which handles no channel meanwhile. -/
theorem Safe.connectionDestructor (ht : t.Safe n) (h : t.exec n (.connectionDestructor l) = some t') :
    t'.Safe n := by
  simp only [exec] at h
  split at h
  case h_1 done k rest hsub =>
    obtain ⟨c, hc, rfl⟩ := Option.map_eq_some_iff.mp h
    have hmem : k ∈ (t.sub l).tmp := by
      rw [hsub]
      exact List.mem_append_right _ List.mem_cons_self
    obtain ⟨c', hc', hown⟩ := ht.own l k (.inl hmem)
    obtain rfl := Option.some.inj (hc.symm.trans hc')
    obtain ⟨c', hc', hlive⟩ := ht.sub_refs l k (SubPhase.refs_of_tmp hmem)
    obtain rfl := Option.some.inj (hc.symm.trans hc')
    have ht' : Safe n { t with life := Function.update t.life k (some { c with deleted := true }) } := by
      apply ht.of_life hc
      · rfl
      · exact fun _ => rfl
      · exact id
      · exact fun hd => by cases hd
      · exact fun _ => hlive
      · intro l' hbatch
        obtain ⟨c', hc', hl', -⟩ := ht.batch l' k hbatch
        obtain rfl := Option.some.inj (hc.symm.trans hc')
        obtain rfl : l' = l := hl'.symm.trans hown
        rw [hsub] at hbatch
        cases hbatch
    have hmoved : ∀ k', k' ∈ done ++ [k] ++ rest ↔ k' ∈ (t.sub l).tmp := by
      intro k'
      simp [hsub, SubPhase.tmp]
    apply ht'.of_phase
    · intro k' hk'
      exact ht'.sub_refs l k' (SubPhase.refs_of_tmp ((hmoved k').mp hk'))
    · exact List.forall_mem_nil _
    · intro k' hk'
      exact (hmoved k').mp hk'
    · intro k' c' hc' hdeleted hk'
      have hduty : k' ∈ (t.sub l).duty := hk'
      rw [hsub] at hduty
      rcases List.mem_cons.mp hduty with rfl | hrest
      · simp only [Function.update_self, Option.some.injEq] at hc'
        rw [← hc'] at hdeleted
        cases hdeleted
      · exact hrest
  case h_2 => cases h

theorem Safe.subEnd (ht : t.Safe n) (h : t.exec n (.subEnd l) = some t') : t'.Safe n := by
  simp only [exec] at h
  split at h
  case h_1 done hsub =>
    cases h
    apply ht.of_phase
    · exact List.forall_mem_nil _
    · exact List.forall_mem_nil _
    · exact List.forall_mem_nil _
    · intro k _ _ _ hk
      rw [hsub] at hk
      exact hk
  case h_2 => cases h

/-- **Nothing is destroyed that is still registered**: somebody would refer to it. -/
theorem Safe.deleted_of_not_held (ht : t.Safe n) {c : Life} (hc : t.life k = some c) (hheld : ¬ t.Held k) :
    c.deleted = true := by
  cases hdeleted : c.deleted with
  | true => rfl
  | false =>
    refine absurd ?_ hheld
    rcases ht.anchored k c hc hdeleted with hmem | hentry | hmem | hmem | hmem
    · exact .inl (MainPhase.refs_of_duty hmem)
    · exact .inr (.inl ⟨c.fd, hentry⟩)
    · exact .inr (.inr (.inl hmem))
    · exact .inr (.inr (.inr (.inl ⟨_, SubPhase.refs_of_duty hmem⟩)))
    · exact .inr (.inr (.inr (.inr ⟨_, hmem⟩)))

theorem Safe.destroy (ht : t.Safe n) (hen : t.Enabled n (.destroy k)) (h : t.exec n (.destroy k) = some t') :
    t'.Safe n := by
  obtain ⟨c, hc, rfl⟩ := Option.map_eq_some_iff.mp h
  have hdeleted := ht.deleted_of_not_held hc hen
  apply ht.of_life hc
  · rfl
  · exact fun _ => hdeleted
  · exact fun hd => by cases hd
  · exact id
  · exact fun hheld => absurd hheld hen
  · intro l hbatch
    obtain ⟨c', hc', -, hnot⟩ := ht.batch l k hbatch
    obtain rfl := Option.some.inj (hc.symm.trans hc')
    exact hnot

/-! ## Every run -/

theorem Safe.construct {fd : Nat} {garbage : ConnectionState} (ht : t.Safe n)
    (hen : t.Enabled n (.construct fd garbage)) (h : t.exec n (.construct fd garbage) = some t') :
    t'.Safe n := by
  simp only [exec] at h
  split at h
  case h_1 hmain =>
    cases h
    exact ht.of_construct hmain hen.2
  case h_2 => cases h

theorem Safe.step (ht : t.Safe n) {i : Step} (h : (reactor n).step t i t') : t'.Safe n := by
  obtain ⟨hen, hexec⟩ := h
  cases i with
  | construct fd garbage => exact ht.construct hen hexec
  | own => exact ht.own_step hexec
  | setOnCloseCallback => exact ht.setOnCloseCallback hexec
  | insert => exact ht.insert hexec
  | setConnected => exact ht.setConnected hexec
  | tie => exact ht.tie hexec
  | accepted => exact ht.accepted hexec
  | mainSwap => exact ht.mainSwap hexec
  | erase => exact ht.erase hexec
  | queueDestructor => exact ht.queueDestructor hexec
  | mainEnd => exact ht.mainEnd hexec
  | poll l batch => exact ht.poll hen hexec
  | dispatch l => exact ht.dispatch hexec
  | close l => exact ht.close hexec
  | queueClose l => exact ht.queueClose hexec
  | closed l => exact ht.closed hexec
  | handlerEnd l => exact ht.handlerEnd hexec
  | subSwap l => exact ht.subSwap hexec
  | connectionDestructor l => exact ht.connectionDestructor hexec
  | subEnd l => exact ht.subEnd hexec
  | destroy k => exact ht.destroy hen hexec

theorem Safe.run (hstart : (reactor n).start s) (hrun : (reactor n).Run s h t) : t.Safe n := by
  obtain ⟨flags, rfl⟩ := hstart
  exact hrun.invariant (I := fun _ t => t.Safe n) (fun ht hstep => ht.step hstep) (Safe.initial flags)

/-- **Teardown is safe**, in every interleaving: `~Connection` runs only behind `deleteChannel`, and
    `deleteChannel` in the connection's own loop; a connection whose channel is dispatched to, or is still
    to be, has not been destroyed; and the entry `HandleCloseInLoop` finds under the descriptor of a
    connection is that connection's. -/
theorem safe_teardown (hstart : (reactor n).start s) (hrun : (reactor n).Run s h t) :
    (∀ k t', (reactor n).step t (.destroy k) t' → ∃ c, t.life k = some c ∧ c.deleted = true) ∧
    (∀ l done k rest, t.sub l = .running done (k :: rest) → ∃ c, t.life k = some c ∧ c.fd % n = l) ∧
    (∀ l, ∀ k ∈ (t.sub l).batch, t.Alive k) ∧
    ∀ done k rest, t.main = .running done (k :: rest) →
      ∃ c, t.life k = some c ∧ (t.connections c.fd = none ∨ t.connections c.fd = some k) := by
  have ht := Safe.run hstart hrun
  refine ⟨?_, ?_, ?_, ?_⟩
  · intro k t' hstep
    obtain ⟨hheld, hexec⟩ := hstep
    obtain ⟨c, hc, -⟩ := Option.map_eq_some_iff.mp hexec
    exact ⟨c, hc, ht.deleted_of_not_held hc hheld⟩
  · intro l done k rest hsub
    apply ht.own l k
    rw [hsub]
    exact .inl (List.mem_append_right _ List.mem_cons_self)
  · intro l k hk
    exact ht.handled hk
  · intro done k rest hmain
    have hrefs := ht.main_refs
    rw [hmain] at hrefs
    obtain ⟨c, hc, hlive⟩ := hrefs k (List.mem_append_right _ List.mem_cons_self)
    refine ⟨c, hc, ?_⟩
    cases hentry : t.connections c.fd with
    | none => exact .inl rfl
    | some k' =>
      rw [ht.entry hc hlive hentry]
      exact .inr rfl

/-- One connection with descriptor 7, of two loops, from the accept to its `HandleCloseInLoop`. -/
theorem safe_teardown_one :
    ∃ t, (reactor 2).Run (Reactor.initial fun _ => ⟨.invalid, false, false⟩)
        [.mainSwap, .handlerEnd 1, .closed 1, .queueClose 1, .close 1, .dispatch 1, .poll 1 [1], .accepted,
          .tie, .setConnected, .insert, .setOnCloseCallback, .own, .construct 7 .invalid] t ∧
      t.main = .running [] [1] ∧
      ∃ c, t.life 1 = some c ∧ (t.connections c.fd = none ∨ t.connections c.fd = some 1) := by
  have haccept : (reactor 2).Run (Reactor.initial fun _ => ⟨.invalid, false, false⟩)
      [.accepted, .tie, .setConnected, .insert, .setOnCloseCallback, .own, .construct 7 .invalid] _ :=
    .step (.step (.step (.step (.step (.step (.step (.nil _)
      ⟨⟨by decide, fun _ _ hk => by cases hk⟩, rfl⟩) ⟨trivial, rfl⟩) ⟨trivial, rfl⟩) ⟨trivial, rfl⟩)
      ⟨trivial, rfl⟩) ⟨trivial, rfl⟩) ⟨trivial, rfl⟩
  have hrun : (reactor 2).Run (Reactor.initial fun _ => ⟨.invalid, false, false⟩)
      [.mainSwap, .handlerEnd 1, .closed 1, .queueClose 1, .close 1, .dispatch 1, .poll 1 [1], .accepted,
        .tie, .setConnected, .insert, .setOnCloseCallback, .own, .construct 7 .invalid] _ :=
    .step (.step (.step (.step (.step (.step (.step haccept
      ⟨List.forall_mem_singleton.mpr ⟨⟨7, false, false⟩, rfl, rfl, rfl⟩, rfl⟩) ⟨trivial, rfl⟩)
      ⟨trivial, rfl⟩) ⟨trivial, rfl⟩) ⟨trivial, rfl⟩) ⟨trivial, rfl⟩) ⟨trivial, rfl⟩
  exact ⟨_, hrun, rfl, (safe_teardown ⟨_, rfl⟩ hrun).2.2.2 [] 1 [] rfl⟩

end

end Reactor

end LinuxServer
