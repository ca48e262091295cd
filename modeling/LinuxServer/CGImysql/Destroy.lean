import LinuxServer.CGImysql.ConnectionPool

/-!
# `CGImysql/Destroy.lean` — `DestroyPoll`, while threads use the pool

The pool is a static object, so its destructor runs when `main` has returned, and the workers are detached. So
`DestroyPoll` comes between any two steps of `GetConnection` and `ReleaseConnection`. It takes the lock, closes
what is in the list, and sets both counters to zero. The semaphore it leaves as it is, and it does not hear of the
connections that are held.

Closing under the lock what is in the list is safe for the connections: none is closed twice, or while someone has
it, or handed out when it was closed (`closes_once`). For the threads it is not. As many permits as connections were
closed are left over, and a thread that has seen a list with something in it comes by one of them to
`front()` of an empty list (`tested_faults_iff`).
-/

set_option autoImplicit false

namespace LinuxServer
namespace CGImysql

/-- The pool, and the connections that `mysql_close` was called on. -/
structure Destroying (ω : Type) where
  pool : ConnectionPool ω
  closed : List ω
  deriving DecidableEq, Repr

namespace Destroying

variable {ω : Type}

inductive Step (ω : Type)
  | call (i : CGImysql.Step ω)
  | destroy
  deriving DecidableEq, Repr

/-- `DestroyPoll`. -/
def destroyPoll (s : Destroying ω) : Destroying ω :=
  if 0 < s.pool.connList.length then
    ⟨{ s.pool with curConn := 0, freeConn := 0, connList := [] }, s.closed ++ s.pool.connList⟩
  else s

section
variable [DecidableEq ω]

def exec (s : Destroying ω) : Step ω → Except Fault (Destroying ω)
  | .call i => do
    let pool ← s.pool.exec i
    return { s with pool := pool }
  | .destroy => .ok s.destroyPoll

def Enabled (s : Destroying ω) : Step ω → Prop
  | .call i => s.pool.Enabled i
  | .destroy => True

instance (s : Destroying ω) : (i : Step ω) → Decidable (s.Enabled i)
  | .call i => inferInstanceAs (Decidable (s.pool.Enabled i))
  | .destroy => .isTrue trivial

end

end Destroying

/-- The pool after `init`, until the process is gone. -/
def destroying {ω : Type} [DecidableEq ω] (conns : List ω) (threads : Nat) :
    System (Destroying ω) (Destroying.Step ω) where
  start s := s = ⟨ConnectionPool.init conns threads, []⟩
  step s i s' := s.Enabled i ∧ s.exec i = .ok s'

namespace Destroying

variable {ω : Type} [DecidableEq ω] {conns : List ω} {threads : Nat} {s s' : Destroying ω}

/-- What every run keeps: each connection is in the list, or held, or closed; `m_FreeConn` counts the list; and what
    the semaphore and the threads make up is the list with what was closed. -/
structure Parted (conns : List ω) (s : Destroying ω) : Prop where
  parted : (s.pool.connList ++ s.pool.held.map Prod.snd ++ s.closed).Perm conns
  free : s.pool.freeConn = s.pool.connList.length
  counts : s.pool.connList.length + s.closed.length =
    s.pool.reserve + s.pool.callers.countP (· = .waited) + s.pool.callers.countP (· = .pushed)

omit [DecidableEq ω] in
theorem Parted.start (conns : List ω) (threads : Nat) : Parted conns ⟨ConnectionPool.init conns threads, []⟩ := by
  have hbalanced := congrArg Guarded.taking (ConnectionPool.guarded_init conns threads)
  have hgiving := congrArg Guarded.giving (ConnectionPool.guarded_init conns threads)
  simp only [ConnectionPool.guarded, Guarded.initial] at hbalanced hgiving
  refine ⟨?_, ?_, ?_⟩
  · rw [ConnectionPool.init_eq]
    simp
  · rw [ConnectionPool.init_eq]
  · rw [hbalanced, hgiving, ConnectionPool.init_eq]
    rfl

omit [DecidableEq ω] in
/-- Two halves of a list, with one element moved over. -/
theorem perm_move (front behind rest : List ω) (con : ω) :
    (front ++ con :: behind ++ rest).Perm (con :: front ++ behind ++ rest) := by
  rw [List.cons_append]
  exact List.perm_middle.append_right rest

theorem Parted.call (hs : Parted conns s) {i : CGImysql.Step ω} {pool : ConnectionPool ω}
    (he : s.pool.Enabled i) (hexec : s.pool.exec i = .ok pool) : Parted conns ⟨pool, s.closed⟩ := by
  obtain ⟨hparted, hfree, hcounts⟩ := hs
  cases i with
  | test i =>
    cases hexec
    unfold ConnectionPool.test
    split
    · exact ⟨hparted, hfree, hcounts⟩
    · have hi : s.pool.callers[i]? = some .out := he
      refine ⟨hparted, hfree, ?_⟩
      rw [countP_pass (p := (· = Caller.waited)) (v := .tested) hi rfl,
        countP_pass (p := (· = Caller.pushed)) (v := .tested) hi rfl]
      exact hcounts
  | wait i =>
    cases hexec
    obtain ⟨hi, hreserve⟩ := he
    refine ⟨hparted, hfree, ?_⟩
    simp only [ConnectionPool.wait]
    rw [countP_enter (p := (· = Caller.waited)) (v := .waited) hi rfl rfl,
      countP_pass (p := (· = Caller.pushed)) (v := .waited) hi rfl]
    omega
  | pop i con =>
    obtain ⟨hi, -⟩ := he
    obtain ⟨htaking, hleave⟩ := countP_leave (p := (· = Caller.waited)) (v := .out) hi rfl rfl
    simp only [ConnectionPool.exec, ConnectionPool.pop] at hexec
    split at hexec
    · cases hexec
    · rename_i front rest hlist
      cases hexec
      rw [hlist] at hparted hfree hcounts
      rw [List.length_cons] at hfree hcounts
      refine ⟨(perm_move rest _ _ front).trans hparted, ?_, ?_⟩
      · show s.pool.freeConn - 1 = (rest.length : Int)
        omega
      · simp only
        rw [hleave, countP_pass (p := (· = Caller.pushed)) (v := .out) hi rfl]
        omega
  | push i con =>
    cases hexec
    obtain ⟨hi, hheld⟩ := he
    obtain ⟨-, hperm⟩ := ConnectionPool.held_erase hheld
    refine ⟨?_, ?_, ?_⟩
    · show (s.pool.connList ++ [con] ++ _ ++ s.closed).Perm conns
      rw [List.append_assoc s.pool.connList]
      exact ((hperm.symm.append_left s.pool.connList).append_right s.closed).trans hparted
    · show s.pool.freeConn + 1 = ((s.pool.connList ++ [con]).length : Nat)
      rw [hfree, List.length_append, List.length_singleton]
      omega
    · show (s.pool.connList ++ [con]).length + s.closed.length = _
      simp only [ConnectionPool.push]
      rw [countP_enter (p := (· = Caller.pushed)) (v := .pushed) hi rfl rfl,
        countP_pass (p := (· = Caller.waited)) (v := .pushed) hi rfl, List.length_append, List.length_singleton]
      omega
  | post i =>
    cases hexec
    have hi : s.pool.callers[i]? = some .pushed := he
    obtain ⟨hgiving, hleave⟩ := countP_leave (p := (· = Caller.pushed)) (v := .out) hi rfl rfl
    refine ⟨hparted, hfree, ?_⟩
    simp only [ConnectionPool.post]
    rw [hleave, countP_pass (p := (· = Caller.waited)) (v := .out) hi rfl]
    omega

omit [DecidableEq ω] in
theorem Parted.destroy (hs : Parted conns s) : Parted conns s.destroyPoll := by
  obtain ⟨hparted, hfree, hcounts⟩ := id hs
  unfold destroyPoll
  split
  · refine ⟨?_, rfl, ?_⟩
    · -- the list goes behind what is held
      refine List.Perm.trans ?_ hparted
      show (s.pool.held.map Prod.snd ++ (s.closed ++ s.pool.connList)).Perm _
      rw [← List.append_assoc]
      exact List.perm_append_comm.trans (by rw [← List.append_assoc])
    · rw [Nat.add_comm] at hcounts
      show 0 + (s.closed ++ s.pool.connList).length = _
      rw [Nat.zero_add, List.length_append]
      exact hcounts
  · exact hs

theorem Parted.step (hs : Parted conns s) {i : Step ω} (he : s.Enabled i) (hexec : s.exec i = .ok s') :
    Parted conns s' := by
  cases i with
  | call i =>
    obtain ⟨pool, hpool, hs'⟩ := bind_eq_ok.mp hexec
    cases hs'
    exact hs.call he hpool
  | destroy =>
    cases hexec
    exact hs.destroy

theorem parted (hs : (destroying conns threads).Reachable s) : Parted conns s := by
  refine hs.invariant (I := Parted conns) ?_ ?_
  · rintro _ rfl
    exact .start conns threads
  · rintro t i u ht ⟨he, hexec⟩
    exact ht.step he hexec

/-- What a step of the pool can fail at. -/
theorem exec_pool (p : ConnectionPool ω) {i : CGImysql.Step ω} (he : p.Enabled i) :
    (∃ p', p.exec i = .ok p') ∨ ∃ k, i = .pop k none ∧ p.callers[k]? = some .waited ∧ p.connList = [] := by
  cases i with
  | pop k con =>
    obtain ⟨hk, hcon⟩ := he
    simp only [ConnectionPool.exec, ConnectionPool.pop]
    cases hlist : p.connList with
    | nil =>
      rw [hlist] at hcon
      exact Or.inr ⟨k, by rw [hcon]; rfl, hk, rfl⟩
    | cons front rest => exact Or.inl ⟨_, rfl⟩
  | test | wait | push | post => exact Or.inl ⟨_, rfl⟩

/-- **No connection is closed twice, or under someone who has it**, and none is handed out when it was closed, in
    any run with `DestroyPoll` at any time and any number of times: each is in the list, or held, or closed, and
    once. `m_FreeConn` counts the list; and the only step that can fail is a `pop_front` behind the semaphore,
    where `DestroyPoll` has closed something. -/
theorem closes_once (hnodup : conns.Nodup) (hs : (destroying conns threads).Reachable s) :
    (∀ con ∈ conns, s.pool.connList.count con + (s.pool.held.map Prod.snd).count con + s.closed.count con = 1) ∧
      s.pool.freeConn = s.pool.connList.length ∧
      ∀ i, s.Enabled i → (∃ s', s.exec i = .ok s') ∨
        ∃ k, i = .call (.pop k none) ∧ s.pool.connList = [] ∧ s.closed ≠ [] := by
  obtain ⟨hparted, hfree, hcounts⟩ := parted hs
  refine ⟨fun con hcon => ?_, hfree, fun i he => ?_⟩
  · have hone := List.count_eq_one_of_mem hnodup hcon
    rwa [← hparted.count_eq, List.count_append, List.count_append] at hone
  · cases i with
    | destroy => exact Or.inl ⟨_, rfl⟩
    | call i =>
      rcases exec_pool s.pool he with ⟨p, hp⟩ | ⟨k, rfl, hk, hlist⟩
      · refine Or.inl ⟨{ s with pool := p }, ?_⟩
        simp only [exec, hp]
        rfl
      · refine Or.inr ⟨k, rfl, hlist, fun hclosed => ?_⟩
        -- whoever has waited has a connection counted for him
        have hwaited : 0 < s.pool.callers.countP (· = .waited) :=
          List.countP_pos_iff.mpr ⟨_, List.mem_of_getElem? hk, rfl⟩
        rw [hlist, hclosed] at hcounts
        simp only [List.length_nil] at hcounts
        omega

/-- **Who falls**: a thread that has found the list not to be empty and finds it empty now, with no other between
    the semaphore and the lock, gets past the semaphore and fails, if something was closed; and if nothing was
    it does not get past the semaphore. -/
theorem tested_faults_iff (hs : (destroying conns threads).Reachable s) {i : Nat}
    (htested : s.pool.callers[i]? = some .tested) (hlist : s.pool.connList = [])
    (halone : ∀ k : Nat, s.pool.callers[k]? ≠ some .waited ∧ s.pool.callers[k]? ≠ some .pushed) :
    (∃ s', s.Enabled (.call (.wait i)) ∧ s.exec (.call (.wait i)) = .ok s' ∧ s'.Enabled (.call (.pop i none)) ∧
      s'.exec (.call (.pop i none)) = .error .outOfBounds) ↔ s.closed ≠ [] := by
  obtain ⟨-, -, hcounts⟩ := parted hs
  have hnone : ∀ v : Caller, (∀ k : Nat, s.pool.callers[k]? ≠ some v) → s.pool.callers.countP (· = v) = 0 := by
    intro v hv
    rw [List.countP_eq_zero]
    intro x hx hxv
    obtain ⟨k, hk⟩ := List.getElem?_of_mem hx
    exact hv k (hk.trans (congrArg some (of_decide_eq_true hxv)))
  rw [hnone .waited fun k => (halone k).1, hnone .pushed fun k => (halone k).2, hlist] at hcounts
  simp only [List.length_nil, Nat.zero_add, Nat.add_zero] at hcounts
  constructor
  · rintro ⟨s', ⟨-, hreserve⟩, -⟩ hclosed
    rw [hclosed, List.length_nil] at hcounts
    omega
  · intro hclosed
    have hpos := List.length_pos_iff.mpr hclosed
    obtain ⟨hlt, -⟩ := List.getElem?_eq_some_iff.mp htested
    refine ⟨{ s with pool := s.pool.wait i }, ⟨htested, by omega⟩, rfl, ⟨?_, ?_⟩, ?_⟩
    · exact List.getElem?_set_self hlt
    · show none = s.pool.connList.head?
      rw [hlist]
      rfl
    · simp only [exec, ConnectionPool.exec, ConnectionPool.pop, ConnectionPool.wait, hlist]
      rfl

/-! ## Runs by execution -/

theorem reachable_of_follow {h : List (Step ω)}
    (hs : System.follow exec (fun s i => decide (s.Enabled i)) ⟨ConnectionPool.init conns threads, []⟩ h = some s) :
    (destroying conns threads).Reachable s :=
  ⟨_, _, rfl, System.Run.of_follow (fun _ _ _ hok hexec => And.intro (of_decide_eq_true hok) hexec) hs⟩

/-- One connection is held while the others are closed, and comes back behind that. -/
theorem closes_once_held : ∃ s : Destroying Nat, (destroying [10, 20, 30] 1).Reachable s ∧ s.closed = [20, 30] ∧
    s.pool.connList = [10] ∧ s.closed.count 10 = 0 := by
  obtain ⟨s, hs⟩ : ∃ s, System.follow exec (fun (s : Destroying Nat) i => decide (s.Enabled i))
      ⟨ConnectionPool.init [10, 20, 30] 1, []⟩
      [.call (.post 0), .call (.push 0 10), .destroy, .call (.pop 0 (some 10)), .call (.wait 0),
        .call (.test 0)] = some s := Option.isSome_iff_exists.mp (by decide)
  have hreach := reachable_of_follow hs
  obtain ⟨hone, -⟩ := closes_once (by decide) hreach
  have hcount := hone 10 (by decide)
  have hclosed : s.closed = [20, 30] ∧ s.pool.connList = [10] := by
    cases hs
    exact ⟨rfl, rfl⟩
  refine ⟨s, hreach, hclosed.1, hclosed.2, ?_⟩
  rw [hclosed.2, show List.count 10 [10] = 1 from rfl] at hcount
  omega

/-- Two connections are closed between the size test of a thread and its `reserve.wait()`. -/
theorem tested_faults_two : ∃ s s' : Destroying Nat, (destroying [10, 20] 1).Reachable s ∧
    s.exec (.call (.wait 0)) = .ok s' ∧ s'.exec (.call (.pop 0 none)) = .error .outOfBounds := by
  obtain ⟨s, hs⟩ : ∃ s, System.follow exec (fun (s : Destroying Nat) i => decide (s.Enabled i))
      ⟨ConnectionPool.init [10, 20] 1, []⟩ [.destroy, .call (.test 0)] = some s :=
    Option.isSome_iff_exists.mp (by decide)
  have hreach := reachable_of_follow hs
  have hstate : s.pool.callers = [.tested] ∧ s.pool.connList = [] ∧ s.closed = [10, 20] := by
    cases hs
    exact ⟨rfl, rfl, rfl⟩
  obtain ⟨hcallers, hlist, hclosed⟩ := hstate
  have halone : ∀ k : Nat, s.pool.callers[k]? ≠ some .waited ∧ s.pool.callers[k]? ≠ some .pushed := by
    intro k
    rw [hcallers]
    cases k with
    | zero => exact ⟨fun h => (by cases h), fun h => (by cases h)⟩
    | succ k => exact ⟨fun h => (by cases h), fun h => (by cases h)⟩
  obtain ⟨s', -, hwait, -, hpop⟩ := (tested_faults_iff hreach (i := 0) (by rw [hcallers]; rfl) hlist halone).mpr
    (by rw [hclosed]; exact List.cons_ne_nil _ _)
  exact ⟨s, s', hreach, hwait, hpop⟩

end Destroying

end CGImysql
end LinuxServer
