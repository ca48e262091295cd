import LinuxServer.CppServer.Connection

/-!
# `CppServer/Establish.lean` — a connection that is being set up, and its readable edges

`HandleNewConnection` runs on the main loop's thread. The constructor of the `Connection` registers its
channel with another loop, edge-triggered, and asks for readable events with `enableRead`; from then on the
thread of that loop may handle one. `Read` returns early unless it finds `m_state` connected, and
`ConnectionEstablished` comes last: what `m_state` is before is whatever the memory held.

So an event that is handled too early is spent on nothing. No other follows it until the client sends
again, and the bytes that came stay in the socket (`Misses`). In the runs without such a step no edge is
lost, and each such step can be followed by the loss (`edge_kept`).

The channel has set `O_NONBLOCK`, so that it is `ReadNonBlocking` that reads. Events of other descriptors,
and those of this one that are not readable ones, change nothing here.
-/

set_option autoImplicit false

namespace LinuxServer

/-- What `HandleNewConnection` has done last. -/
inductive SetupPhase
  | accepted
  /-- `enableET`: `EPOLL_CTL_ADD`, with `EPOLLET` alone. -/
  | etEnabled
  | readCallbackSet
  /-- `enableRead`: `EPOLL_CTL_MOD`. -/
  | readEnabled
  /-- `read_buffer` and `send_buffer` are there, and the constructor is left. -/
  | constructed
  /-- `make_shared` is left. -/
  | owned
  | onMessageSet
  | onCloseSet
  | inserted
  /-- `m_state = Connected`. -/
  | connected
  | tied
  | established
  deriving DecidableEq, Repr

namespace SetupPhase

def next : SetupPhase → Option SetupPhase
  | .accepted => some .etEnabled
  | .etEnabled => some .readCallbackSet
  | .readCallbackSet => some .readEnabled
  | .readEnabled => some .constructed
  | .constructed => some .owned
  | .owned => some .onMessageSet
  | .onMessageSet => some .onCloseSet
  | .onCloseSet => some .inserted
  | .inserted => some .connected
  | .connected => some .tied
  | .tied => some .established
  | .established => none

def rank : SetupPhase → Nat
  | .accepted => 0
  | .etEnabled => 1
  | .readCallbackSet => 2
  | .readEnabled => 3
  | .constructed => 4
  | .owned => 5
  | .onMessageSet => 6
  | .onCloseSet => 7
  | .inserted => 8
  | .connected => 9
  | .tied => 10
  | .established => 11

/-- `p` is `q`, or behind it. -/
def reached (q p : SetupPhase) : Bool := decide (q.rank ≤ p.rank)

theorem rank_next {p p' : SetupPhase} (h : p.next = some p') : p'.rank = p.rank + 1 := by
  cases p <;> cases h <;> rfl

theorem rank_injective {p p' : SetupPhase} (h : p.rank = p'.rank) : p = p' := by
  cases p <;> cases p' <;> first | rfl | cases h

theorem reached_iff {q p : SetupPhase} : q.reached p = true ↔ q.rank ≤ p.rank :=
  decide_eq_true_iff

theorem not_reached_iff {q p : SetupPhase} : q.reached p = false ↔ p.rank < q.rank := by
  rw [reached, decide_eq_false_iff_not, Nat.not_le]

theorem reached_next {q p p' : SetupPhase} (h : p.next = some p') (hq : q.reached p = true) :
    q.reached p' = true := by
  rw [reached_iff] at hq ⊢
  rw [rank_next h]
  exact Nat.le_succ_of_le hq

theorem reached_of_next {q p p' : SetupPhase} (h : p.next = some p') (hq : q.reached p' = true) (hne : p' ≠ q) :
    q.reached p = true := by
  rw [reached_iff] at hq ⊢
  have hrank : p'.rank ≠ q.rank := fun heq => hne (rank_injective heq)
  rw [rank_next h] at hq hrank
  omega

/-- What is reached later has been behind what is reached earlier. -/
theorem reached_trans {q r p : SetupPhase} (hq : q.reached p = true) (hr : r.rank ≤ q.rank) :
    r.reached p = true := by
  rw [reached_iff] at hq ⊢
  exact Nat.le_trans hr hq

end SetupPhase

/-- The thread of the connection's loop. -/
inductive ReaderPhase
  | waiting
  /-- A readable event has come out of `epoll_wait`. -/
  | delivered
  | reading
  /-- `Read` is left; `onMessageCallback` comes next. -/
  | afterRead
  /-- In `Read`, with no `read_buffer` to clear. -/
  | faulted
  deriving DecidableEq, Repr

/-- A connection that is being set up: its bytes that nobody has read, whether its client has ended the
    stream, and whether an edge waits in the `epoll` instance. -/
structure Setup where
  phase : SetupPhase
  state : ConnectionState
  onConnect : Bool
  onMessage : Bool
  unread : List Byte
  ended : Bool
  edge : Bool
  reader : ReaderPhase
  deriving DecidableEq, Repr

namespace Setup

inductive Step
  /-- The main thread's next. -/
  | proceed
  | arrive (w : List Byte)
  | hangUp
  | poll
  /-- `Read` looks at `m_state`. -/
  | check
  | read (n : Nat)
  | again
  | intr
  | eof
  | error
  | message
  deriving DecidableEq, Repr

/-- `Connection::BUFFER_SIZE`. -/
def bufferSize : Nat := 1024

def readable (t : Setup) : Bool := !t.unread.isEmpty || t.ended

/-- What the main thread's next step does to the rest: `enableRead` puts the descriptor in the ready list,
    if it is ready. -/
def enter (t : Setup) (p : SetupPhase) : Setup :=
  match p with
  | .readEnabled => { t with phase := p, edge := t.readable }
  | .connected => { t with phase := p, state := .connected }
  | _ => { t with phase := p }

/-- The client makes the descriptor ready. -/
def wake (t : Setup) : Setup :=
  { t with edge := t.edge || SetupPhase.readEnabled.reached t.phase }

def exec (t : Setup) : Step → Option Setup
  | .proceed => t.phase.next.map t.enter
  | .arrive w =>
    if w = [] ∨ t.ended = true then none else some { t with unread := t.unread ++ w }.wake
  | .hangUp => if t.ended then none else some { t with ended := true }.wake
  | .poll =>
    if t.reader = .waiting ∧ t.edge = true then
      -- what has been read since is looked at again, and not delivered
      some { t with edge := false, reader := if t.readable then .delivered else .waiting }
    else none
  | .check =>
    if t.reader = .delivered then
      if t.state ≠ .connected then some { t with reader := .afterRead }
      else some { t with
        reader := if SetupPhase.constructed.reached t.phase then .reading else .faulted }
    else none
  | .read n =>
    if t.reader = .reading ∧ 0 < n ∧ n ≤ bufferSize ∧ n ≤ t.unread.length then
      some { t with unread := t.unread.drop n }
    else none
  | .again =>
    if t.reader = .reading ∧ t.unread = [] ∧ t.ended = false then some { t with reader := .afterRead }
    else none
  | .intr => if t.reader = .reading then some t else none
  | .eof =>
    if t.reader = .reading ∧ t.unread = [] ∧ t.ended = true then
      some { t with state := .closed, reader := .afterRead }
    else none
  | .error =>
    if t.reader = .reading then some { t with state := .closed, reader := .afterRead } else none
  | .message => if t.reader = .afterRead then some { t with reader := .waiting } else none

/-- The steps that call `shared_from_this`: `HandleClose` for `closeCallback`, the read callback for
    `onMessageCallback`, and `ConnectionEstablished` for `Tie` and for `onConnectCallback`. -/
def callsShared (t : Setup) : Step → Bool
  | .proceed => t.phase = .connected || (t.phase = .tied && t.onConnect)
  | .eof | .error => t.state ≠ .closed && SetupPhase.onCloseSet.reached t.phase
  | .message => t.onMessage && SetupPhase.onMessageSet.reached t.phase
  | _ => false

/-- A connected connection with bytes that nobody will read until more of them come. -/
def Lost (t : Setup) : Prop :=
  SetupPhase.connected.reached t.phase = true ∧ t.state = .connected ∧ t.unread ≠ [] ∧ t.edge = false ∧
    (t.reader = .waiting ∨ t.reader = .afterRead)

/-- The step leaves bytes unread before `ConnectionEstablished` has set `m_state`: `Read` returns early, or
    fails where `m_state` happened to be connected. -/
def Misses (t : Setup) (i : Step) : Prop :=
  SetupPhase.connected.reached t.phase = false ∧ t.unread ≠ [] ∧
    (i = .check ∧ t.state ≠ .connected ∨ i = .error)

instance (t : Setup) : Decidable t.Lost := inferInstanceAs (Decidable (_ ∧ _ ∧ _ ∧ _ ∧ _))

instance (t : Setup) (i : Step) : Decidable (t.Misses i) := inferInstanceAs (Decidable (_ ∧ _ ∧ _))

end Setup

/-- A connection, from the call of `HandleNewConnection` on; its client may have sent something. -/
def establishment : System Setup Setup.Step where
  start t := t.phase = .accepted ∧ t.edge = false ∧ t.reader = .waiting
  step t i t' := t.exec i = some t'

namespace Setup

section
variable {s t t' : Setup} {h : List Step} {i : Step} {p : SetupPhase}

@[simp] theorem enter_phase : (t.enter p).phase = p := by cases p <;> rfl

@[simp] theorem enter_unread : (t.enter p).unread = t.unread := by cases p <;> rfl

@[simp] theorem enter_reader : (t.enter p).reader = t.reader := by cases p <;> rfl

theorem enter_edge : (t.enter p).edge = if p = .readEnabled then t.readable else t.edge := by
  cases p <;> rfl

theorem enter_state : (t.enter p).state = if p = .connected then .connected else t.state := by
  cases p <;> rfl

theorem readable_of_unread (hunread : t.unread ≠ []) : t.readable = true := by
  simp [readable, hunread]

/-! ## What is kept -/

/-- Somebody will come to what is unread: an edge waits, or an event has been delivered, or `Read` is not
    through; or the connection has been closed. -/
structure Kept (t : Setup) : Prop where
  registered : t.edge = true ∨ t.reader ≠ .waiting → SetupPhase.readEnabled.reached t.phase = true
  known : SetupPhase.connected.reached t.phase = true → t.state = .connected ∨ t.state = .closed
  kept : SetupPhase.readEnabled.reached t.phase = true → t.unread ≠ [] →
    t.edge = true ∨ (t.reader ≠ .waiting ∧ t.reader ≠ .afterRead) ∨
      (SetupPhase.connected.reached t.phase = true ∧ t.state = .closed)

theorem Kept.start (hstart : establishment.start s) : s.Kept := by
  obtain ⟨hphase, hedge, hreader⟩ := hstart
  constructor
  case registered =>
    intro hor
    rcases hor with htrue | hne
    · rw [hedge] at htrue
      cases htrue
    · exact absurd hreader hne
  case known =>
    intro hreached
    rw [hphase] at hreached
    cases hreached
  case kept =>
    intro hreached
    rw [hphase] at hreached
    cases hreached

theorem Kept.not_lost (ht : t.Kept) : ¬ t.Lost := by
  intro hlost
  obtain ⟨hreached, hstate, hunread, hedge, hreader⟩ := hlost
  rcases ht.kept (SetupPhase.reached_trans hreached (by decide)) hunread with htrue | hbusy | hclosed
  · rw [hedge] at htrue
    cases htrue
  · rcases hreader with hreader | hreader
    · exact hbusy.1 hreader
    · exact hbusy.2 hreader
  · rw [hstate] at hclosed
    cases hclosed.2

/-- The main thread goes on. -/
theorem Kept.proceed (ht : t.Kept) (hnext : t.phase.next = some p) : (t.enter p).Kept := by
  constructor
  case registered =>
    intro hor
    rw [enter_phase]
    by_cases hp : p = .readEnabled
    · rw [hp]
      rfl
    · rw [enter_edge, if_neg hp, enter_reader] at hor
      exact SetupPhase.reached_next hnext (ht.registered hor)
  case known =>
    intro hreached
    rw [enter_phase] at hreached
    rw [enter_state]
    by_cases hp : p = .connected
    · exact .inl (if_pos hp)
    · rw [if_neg hp]
      exact ht.known (SetupPhase.reached_of_next hnext hreached hp)
  case kept =>
    intro hreached hunread
    rw [enter_phase] at hreached
    rw [enter_unread] at hunread
    rw [enter_edge, enter_reader, enter_state, enter_phase]
    by_cases hp : p = .readEnabled
    · rw [if_pos hp]
      exact .inl (readable_of_unread hunread)
    · rw [if_neg hp]
      rcases ht.kept (SetupPhase.reached_of_next hnext hreached hp) hunread with hedge | hbusy | hclosed
      · exact .inl hedge
      · exact .inr (.inl hbusy)
      · refine .inr (.inr ⟨SetupPhase.reached_next hnext hclosed.1, ?_⟩)
        -- `m_state` is set once, and it was set before
        have hne : p ≠ .connected := by
          rintro rfl
          have hrank := SetupPhase.rank_next hnext
          have hle := SetupPhase.reached_iff.mp hclosed.1
          omega
        rw [if_neg hne]
        exact hclosed.2

/-- The client does something, with the descriptor registered or not. -/
theorem Kept.wake (ht : t.Kept) {unread : List Byte} {ended : Bool} :
    Kept { t with
      unread := unread, ended := ended, edge := t.edge || SetupPhase.readEnabled.reached t.phase } := by
  constructor
  case registered =>
    intro hor
    rcases hor with hedge | hreader
    · rcases (Bool.or_eq_true _ _).mp hedge with hedge | hreached
      · exact ht.registered (.inl hedge)
      · exact hreached
    · exact ht.registered (.inr hreader)
  case known => exact ht.known
  case kept =>
    intro hreached _
    exact .inl ((Bool.or_eq_true _ _).mpr (.inr hreached))

/-- The loop's thread goes on: it may take the edge, read, and close the connection. -/
theorem Kept.of_reader (ht : t.Kept) {unread : List Byte} {state : ConnectionState} {edge : Bool}
    {reader : ReaderPhase} (hfrom : t.edge = true ∨ t.reader ≠ .waiting)
    (hstate : state = t.state ∨ state = .closed)
    (hkept : unread ≠ [] → edge = true ∨ (reader ≠ .waiting ∧ reader ≠ .afterRead) ∨
      (SetupPhase.connected.reached t.phase = true ∧ state = .closed)) :
    Kept { t with unread := unread, state := state, edge := edge, reader := reader } where
  registered _ := ht.registered hfrom
  known hreached := by
    rcases hstate with rfl | rfl
    · exact ht.known hreached
    · exact .inr rfl
  kept _ hunread := hkept hunread

/-- A reader that is at work has had an event. -/
theorem at_work {reader : ReaderPhase} (hreader : t.reader = reader) (hne : reader ≠ .waiting) :
    t.edge = true ∨ t.reader ≠ .waiting := by
  rw [hreader]
  exact .inr hne

theorem Kept.step (ht : t.Kept) (hstep : t.exec i = some t') (hnot : ¬ t.Misses i) : t'.Kept := by
  cases i with
  | proceed =>
    obtain ⟨p, hnext, rfl⟩ := Option.map_eq_some_iff.mp hstep
    exact ht.proceed hnext
  | arrive w =>
    rw [exec] at hstep
    split at hstep
    · cases hstep
    · cases hstep
      exact ht.wake
  | hangUp =>
    rw [exec] at hstep
    split at hstep
    · cases hstep
    · cases hstep
      exact ht.wake
  | poll =>
    rw [exec] at hstep
    split at hstep
    · rename_i hpoll
      cases hstep
      apply ht.of_reader
      · exact .inl hpoll.2
      · exact .inl rfl
      · intro hunread
        rw [readable_of_unread hunread]
        exact .inr (.inl (by decide))
    · cases hstep
  | check =>
    rw [exec] at hstep
    split at hstep
    · rename_i hreader
      have hfrom := at_work hreader (by decide)
      split at hstep
      · rename_i hstate
        cases hstep
        apply ht.of_reader
        · exact hfrom
        · exact .inl rfl
        · intro hunread
          -- the early return comes too early only before the state is known
          cases hreached : SetupPhase.connected.reached t.phase with
          | false => exact absurd ⟨hreached, hunread, .inl ⟨rfl, hstate⟩⟩ hnot
          | true => exact .inr (.inr ⟨rfl, (ht.known hreached).resolve_left hstate⟩)
      · cases hstep
        apply ht.of_reader
        · exact hfrom
        · exact .inl rfl
        · intro _
          refine .inr (.inl ?_)
          split
          · decide
          · decide
    · cases hstep
  | read n =>
    rw [exec] at hstep
    split at hstep
    · rename_i hread
      cases hstep
      have hbusy : t.reader ≠ .waiting ∧ t.reader ≠ .afterRead := by
        rw [hread.1]
        decide
      exact ht.of_reader (at_work hread.1 (by decide)) (.inl rfl) (fun _ => .inr (.inl hbusy))
    · cases hstep
  | again =>
    rw [exec] at hstep
    split at hstep
    · rename_i hread
      cases hstep
      have hfrom := at_work hread.1 (by decide)
      exact ht.of_reader hfrom (.inl rfl) (fun hunread => absurd hread.2.1 hunread)
    · cases hstep
  | intr =>
    rw [exec] at hstep
    split at hstep
    · cases hstep
      exact ht
    · cases hstep
  | eof =>
    rw [exec] at hstep
    split at hstep
    · rename_i hread
      cases hstep
      have hfrom := at_work hread.1 (by decide)
      exact ht.of_reader hfrom (.inr rfl) (fun hunread => absurd hread.2.1 hunread)
    · cases hstep
  | error =>
    rw [exec] at hstep
    split at hstep
    · rename_i hreader
      cases hstep
      have hfrom := at_work hreader (by decide)
      apply ht.of_reader
      · exact hfrom
      · exact .inr rfl
      · intro hunread
        cases hreached : SetupPhase.connected.reached t.phase with
        | false => exact absurd ⟨hreached, hunread, .inr rfl⟩ hnot
        | true => exact .inr (.inr ⟨rfl, rfl⟩)
    · cases hstep
  | message =>
    rw [exec] at hstep
    split at hstep
    · rename_i hreader
      cases hstep
      have hfrom := at_work hreader (by decide)
      apply ht.of_reader
      · exact hfrom
      · exact .inl rfl
      · intro hunread
        rcases ht.kept (ht.registered hfrom) hunread with hedge | hbusy | hclosed
        · exact .inl hedge
        · exact absurd hreader hbusy.2
        · exact .inr (.inr hclosed)
    · cases hstep

/-! ## What a step that misses leads to -/

/-- Whoever calls `shared_from_this` does so behind `make_shared`. -/
theorem owned_of_callsShared (hcalls : t.callsShared i = true) : SetupPhase.owned.reached t.phase = true := by
  cases i with
  | proceed =>
    rcases (Bool.or_eq_true _ _).mp hcalls with htie | hconnect
    · rw [of_decide_eq_true htie]
      rfl
    · rw [of_decide_eq_true ((Bool.and_eq_true _ _).mp hconnect).1]
      rfl
  | eof => exact SetupPhase.reached_trans ((Bool.and_eq_true _ _).mp hcalls).2 (by decide)
  | error => exact SetupPhase.reached_trans ((Bool.and_eq_true _ _).mp hcalls).2 (by decide)
  | message => exact SetupPhase.reached_trans ((Bool.and_eq_true _ _).mp hcalls).2 (by decide)
  | _ => cases hcalls

theorem exists_next (hlt : p.rank < SetupPhase.connected.rank) : ∃ p', p.next = some p' := by
  cases p <;> first | exact ⟨_, rfl⟩ | exact absurd hlt (by decide)

/-- The main thread goes on to `m_state = Connected`, and nothing else happens. -/
theorem lost_of_proceeding {k : Nat} (hphase : t.phase.rank + (k + 1) = SetupPhase.connected.rank)
    (hregistered : SetupPhase.readEnabled.reached t.phase = true) (hunread : t.unread ≠ [])
    (hedge : t.edge = false) (hreader : t.reader = .afterRead) : ∃ h u, establishment.Run t h u ∧ u.Lost := by
  induction k generalizing t with
  | zero =>
    obtain ⟨p, hnext⟩ := exists_next (p := t.phase) (by omega)
    obtain rfl : p = .connected := SetupPhase.rank_injective ((SetupPhase.rank_next hnext).trans hphase)
    refine ⟨[.proceed], t.enter .connected, .step (.nil t) (Option.map_eq_some_iff.mpr ⟨_, hnext, rfl⟩), ?_⟩
    exact ⟨rfl, rfl, hunread, hedge, .inr hreader⟩
  | succ k ih =>
    obtain ⟨p, hnext⟩ := exists_next (p := t.phase) (by omega)
    have hrank := SetupPhase.rank_next hnext
    have hne : p ≠ .readEnabled := by
      rintro rfl
      have hle := SetupPhase.reached_iff.mp hregistered
      omega
    have hnow : (t.enter p).edge = false := by
      rw [enter_edge, if_neg hne, hedge]
    obtain ⟨h, u, hrun, hlost⟩ := ih (t := t.enter p) (by rw [enter_phase]; omega)
      (by rw [enter_phase]; exact SetupPhase.reached_next hnext hregistered)
      (by rw [enter_unread]; exact hunread) hnow (by rw [enter_reader]; exact hreader)
    exact ⟨h ++ [.proceed], u,
      (System.Run.step (.nil t) (Option.map_eq_some_iff.mpr ⟨p, hnext, rfl⟩)).append hrun, hlost⟩

/-- If more has come meanwhile, the next event is spent like the last. -/
theorem lost_of_afterRead (hregistered : SetupPhase.readEnabled.reached t.phase = true)
    (hbefore : SetupPhase.connected.reached t.phase = false) (hunread : t.unread ≠ [])
    (hstate : t.state ≠ .connected) (hreader : t.reader = .afterRead) :
    ∃ h u, establishment.Run t h u ∧ u.Lost := by
  have hlt := SetupPhase.not_reached_iff.mp hbefore
  obtain ⟨k, hk⟩ := Nat.exists_eq_add_of_lt hlt
  have hphase : t.phase.rank + (k + 1) = SetupPhase.connected.rank := by omega
  cases hedge : t.edge with
  | false => exact lost_of_proceeding hphase hregistered hunread hedge hreader
  | true =>
    have hmessage : t.exec .message = some { t with reader := .waiting } := if_pos hreader
    have hpoll : Setup.exec { t with reader := .waiting } .poll =
        some { t with edge := false, reader := .delivered } := by
      rw [exec, if_pos ⟨rfl, hedge⟩, show Setup.readable { t with reader := .waiting } = true from
        readable_of_unread hunread]
      rfl
    have hcheck : Setup.exec { t with edge := false, reader := .delivered } .check =
        some { t with edge := false, reader := .afterRead } := by
      rw [exec, if_pos rfl]
      exact if_pos hstate
    obtain ⟨h, u, hrun, hlost⟩ := lost_of_proceeding (t := { t with edge := false, reader := .afterRead })
      hphase hregistered hunread rfl rfl
    have hspent : establishment.Run t [.check, .poll, .message]
        { t with edge := false, reader := .afterRead } :=
      .step (.step (.step (.nil t) hmessage) hpoll) hcheck
    exact ⟨_, u, hspent.append hrun, hlost⟩

theorem lost_of_misses (ht : t.Kept) (hstep : t.exec i = some t') (hmisses : t.Misses i) :
    ∃ h u, establishment.Run t' h u ∧ u.Lost := by
  obtain ⟨hbefore, hunread, ⟨rfl, hstate⟩ | rfl⟩ := hmisses
  · rw [exec] at hstep
    split at hstep
    · rename_i hreader
      cases hstep
      have hregistered := ht.registered (at_work hreader (by decide))
      exact lost_of_afterRead hregistered hbefore hunread hstate rfl
    · cases hstep
  · rw [exec] at hstep
    split at hstep
    · rename_i hreader
      cases hstep
      have hregistered := ht.registered (at_work hreader (by decide))
      exact lost_of_afterRead hregistered hbefore hunread (fun hf => by cases hf) rfl
    · cases hstep

/-! ## Every run -/

/-- **No edge is lost** in a run in which no event is handled in vain before `ConnectionEstablished` has set
    `m_state`; and each step that handles one in vain can be followed by a loss. Nobody calls
    `shared_from_this` too early, whatever happens. -/
theorem edge_kept (hstart : establishment.start s)
    (hrun : (establishment.restrict fun t i => ¬ t.Misses i).Run s h t) :
    ¬ t.Lost ∧ (∀ (u : Setup) i, u.callsShared i = true → SetupPhase.owned.reached u.phase = true) ∧
      ∀ i t', establishment.step t i t' → t.Misses i → ∃ h u, establishment.Run t' h u ∧ u.Lost := by
  have ht : t.Kept := hrun.invariant (I := fun _ t => t.Kept)
    (fun ht hstep => ht.step hstep.1 hstep.2) (Kept.start hstart)
  refine ⟨ht.not_lost, ?_, ?_⟩
  · intro u i hcalls
    exact owned_of_callsShared hcalls
  · intro i t' hstep hmisses
    exact lost_of_misses ht hstep hmisses

/-- The client sends while the constructor runs, and the loop's thread is slower than the main one. -/
theorem edge_kept_one :
    ¬ Setup.Lost ⟨.connected, .connected, true, true, [], false, false, .reading⟩ := by
  have hsetup : (establishment.restrict fun t i => ¬ t.Misses i).Run
      ⟨.accepted, .invalid, true, true, [], false, false, .waiting⟩
      [.proceed, .proceed, .proceed, .proceed, .proceed, .proceed, .arrive [65], .proceed, .proceed]
      ⟨.inserted, .invalid, true, true, [65], false, true, .waiting⟩ :=
    .step (.step (.step (.step (.step (.step (.step (.step (.step (.nil _) ⟨rfl, by decide⟩) ⟨rfl, by decide⟩)
      ⟨rfl, by decide⟩) ⟨rfl, by decide⟩) ⟨rfl, by decide⟩) ⟨rfl, by decide⟩) ⟨rfl, by decide⟩)
      ⟨rfl, by decide⟩) ⟨rfl, by decide⟩
  have hrun : (establishment.restrict fun t i => ¬ t.Misses i).Run
      ⟨.accepted, .invalid, true, true, [], false, false, .waiting⟩
      [.read 1, .check, .proceed, .poll, .proceed, .proceed, .proceed, .proceed, .proceed, .proceed,
        .arrive [65], .proceed, .proceed]
      ⟨.connected, .connected, true, true, [], false, false, .reading⟩ :=
    .step (.step (.step (.step hsetup ⟨rfl, by decide⟩) ⟨rfl, by decide⟩) ⟨rfl, by decide⟩) ⟨rfl, by decide⟩
  exact (edge_kept ⟨rfl, rfl, rfl⟩ hrun).1

/-- The loop's thread is faster: what the client has sent stays in the socket. -/
theorem edge_lost :
    ∃ s h t, establishment.start s ∧ establishment.Run s h t ∧ t.Lost := by
  have hrun : establishment.Run ⟨.accepted, .invalid, true, true, [65], false, false, .waiting⟩
      [.message, .proceed, .proceed, .proceed, .proceed, .proceed, .proceed, .check, .poll, .proceed, .proceed,
        .proceed]
      ⟨.connected, .connected, true, true, [65], false, false, .waiting⟩ :=
    .step (.step (.step (.step (.step (.step (.step (.step (.step (.step (.step (.step (.nil _) rfl) rfl) rfl)
      rfl) rfl) rfl) rfl) rfl) rfl) rfl) rfl) rfl
  exact ⟨_, _, _, ⟨rfl, rfl, rfl⟩, hrun, rfl, rfl, by decide, rfl, .inl rfl⟩

end

end Setup

end LinuxServer
