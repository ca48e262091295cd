import LinuxServer.CGImysql.ConnectionPool

/-!
# `CGImysql/Workers.lean` — the workers, and the connections they query through

A worker that has taken a request off the queue runs `connectionRAII mysqlcon(&request->mysql, pool)`,
which assigns what `GetConnection` answers to the request and to itself, then `process()`, which may
query through `request->mysql`, and then the destructor, which releases what the constructor was given.

`GetConnection` does not block on an empty pool. It returns null, which the constructor assigns like any
other answer, and `process()` does not look. So a worker has a connection in every schedule if and only
if there are as many as there are workers (`queries_iff`).

`request->mysql` is a field of the slot, and two workers on one slot, or an `init()` of it meanwhile,
assign it under each other. That is another matter (`WebServer/Pool.lean`), and `Exclusive` leaves it
out.
-/

set_option autoImplicit false

namespace LinuxServer
namespace CGImysql

/-- Where a worker is in `run()`, with the request, and what its `connectionRAII` was given. -/
inductive Work (ω : Type)
  | idle
  /-- In the constructor of `connectionRAII`. -/
  | acquiring (request : Nat)
  /-- In `process()`, and there at `mysql_query(mysql, ...)`. -/
  | processing (request : Nat) (conRAII : Option ω)
  | querying (request : Nat) (conRAII : Option ω)
  /-- Behind `modfd`, the last thing `process()` does. -/
  | leaving (conRAII : Option ω)
  /-- In the destructor, behind the lock. -/
  | releasing
  deriving DecidableEq, Repr

namespace Work

variable {ω : Type}

/-- The request that a worker is concerned with. -/
def serves : Work ω → Option Nat
  | .acquiring request | .processing request _ | .querying request _ => some request
  | _ => none

/-- Whether it has a connection. -/
def has : Work ω → Bool
  | .processing _ conRAII | .querying _ conRAII | .leaving conRAII => conRAII.isSome
  | _ => false

end Work

structure Workers (ω : Type) where
  pool : ConnectionPool ω
  /-- `users[fd].mysql`. -/
  mysql : Nat → Option ω
  works : List (Work ω)

namespace Workers

variable {ω : Type}

/-- What a worker does next, or `init()` of a slot. -/
inductive Step (ω : Type)
  | take (i request : Nat)
  | test (i request : Nat)
  | wait (i request : Nat)
  | pop (i request : Nat) (con : Option ω)
  | query (i request : Nat) (conRAII : Option ω)
  | answer (i request : Nat) (conRAII : Option ω)
  | modfd (i request : Nat) (conRAII : Option ω)
  | release (i : Nat) (conRAII : Option ω)
  | post (i : Nat)
  | init (request : Nat)
  deriving DecidableEq, Repr

/-- `*SQL = con; conRAII = *SQL`. -/
def assign (s : Workers ω) (i request : Nat) (con : Option ω) : Workers ω :=
  { s with
    mysql := fun r => if r = request then con else s.mysql r
    works := s.works.set i (.processing request con) }

section
variable [DecidableEq ω]

def exec (s : Workers ω) : Step ω → Except Fault (Workers ω)
  | .take i request => .ok { s with works := s.works.set i (.acquiring request) }
  | .test i request =>
    if s.pool.connList.length = 0 then .ok (s.assign i request none)
    else .ok { s with pool := s.pool.test i }
  | .wait i _ => .ok { s with pool := s.pool.wait i }
  | .pop i request con => do
    let pool ← s.pool.pop i
    return { s with pool := pool }.assign i request con
  | .query i request conRAII => .ok { s with works := s.works.set i (.querying request conRAII) }
  | .answer i request conRAII => .ok { s with works := s.works.set i (.processing request conRAII) }
  | .modfd i _ conRAII => .ok { s with works := s.works.set i (.leaving conRAII) }
  | .release i none => .ok { s with works := s.works.set i .idle }
  | .release i (some con) => .ok { s with pool := s.pool.push i con, works := s.works.set i .releasing }
  | .post i => .ok { s with pool := s.pool.post i, works := s.works.set i .idle }
  | .init request => .ok { s with mysql := fun r => if r = request then none else s.mysql r }

/-- The step of the pool that a step is, if it is one. -/
def calls : Step ω → Option (CGImysql.Step ω)
  | .test i _ => some (.test i)
  | .wait i _ => some (.wait i)
  | .pop i _ con => some (.pop i con)
  | .release i (some con) => some (.push i con)
  | .post i => some (.post i)
  | _ => none

/-- Where the worker must be. -/
def At (s : Workers ω) : Step ω → Prop
  | .take i _ => s.works[i]? = some .idle
  | .test i request | .wait i request | .pop i request _ => s.works[i]? = some (.acquiring request)
  | .query i request conRAII | .modfd i request conRAII =>
    s.works[i]? = some (.processing request conRAII)
  | .answer i request conRAII => s.works[i]? = some (.querying request conRAII)
  | .release i conRAII => s.works[i]? = some (.leaving conRAII)
  | .post i => s.works[i]? = some .releasing
  | .init _ => True

def Enabled (s : Workers ω) (i : Step ω) : Prop := s.At i ∧ ∀ k ∈ calls i, s.pool.Enabled k

/-- A request is taken on, and a slot initialised, while no worker is concerned with it. -/
def Exclusive (s : Workers ω) : Step ω → Prop
  | .take _ request | .init request => ∀ w ∈ s.works, w.serves ≠ some request
  | _ => True

/-- Whoever is at `mysql_query` has in `request->mysql` a connection that it was given for this request
    and has not released. -/
def Queries (s : Workers ω) : Prop := ∀ (i request : Nat) (conRAII : Option ω),
  s.works[i]? = some (.querying request conRAII) →
    ∃ con, s.mysql request = some con ∧ conRAII = some con ∧ (i, con) ∈ s.pool.held

end

end Workers

/-- `threads` workers, over the connections that `init` has made. -/
def workers {ω : Type} [DecidableEq ω] (conns : List ω) (threads : Nat) :
    System (Workers ω) (Workers.Step ω) where
  start s := s.pool = ConnectionPool.init conns threads ∧ s.works = List.replicate threads .idle
  step s i s' := s.Enabled i ∧ s.exec i = .ok s'

namespace Workers

section
variable {ω : Type} {conns : List ω} {threads : Nat} {s s' : Workers ω}

/-! ## What a worker has -/

/-- What a worker that is somewhere in `run()` may rely on, if it has been given a connection. -/
def Fits (s : Workers ω) (i : Nat) : Work ω → Prop
  | .processing request conRAII | .querying request conRAII =>
    ∃ con, conRAII = some con ∧ s.mysql request = some con ∧ (i, con) ∈ s.pool.held
  | .leaving conRAII => ∃ con, conRAII = some con ∧ (i, con) ∈ s.pool.held
  | _ => True

/-- **The invariant.** No two workers are concerned with one request, and what is held is what the
    workers have. -/
structure Served (s : Workers ω) : Prop where
  fits : ∀ (i : Nat) w, s.works[i]? = some w → s.Fits i w
  apart : ∀ (i j : Nat) v w request, s.works[i]? = some v → s.works[j]? = some w →
    v.serves = some request → w.serves = some request → i = j
  count : s.pool.held.length = s.works.countP Work.has

/-- What a worker has is not touched by another. -/
theorem Fits.frame {i : Nat} {w : Work ω} (h : s.Fits i w)
    (hmysql : ∀ request, w.serves = some request → s'.mysql request = s.mysql request)
    (hheld : ∀ con, (i, con) ∈ s.pool.held → (i, con) ∈ s'.pool.held) : s'.Fits i w := by
  cases w with
  | idle | acquiring | releasing => trivial
  | processing request conRAII | querying request conRAII =>
    obtain ⟨con, hcon, hsome, hmem⟩ := h
    exact ⟨con, hcon, (hmysql request rfl).trans hsome, hheld con hmem⟩
  | leaving conRAII =>
    obtain ⟨con, hcon, hmem⟩ := h
    exact ⟨con, hcon, hheld con hmem⟩

/-- One worker goes on from `w` to `n`. -/
theorem Served.move (h : Served s) {i : Nat} {w n : Work ω} (hi : s.works[i]? = some w)
    (hworks : s'.works = s.works.set i n) (hfit : s'.Fits i n)
    (hmysql : ∀ request, w.serves ≠ some request → s'.mysql request = s.mysql request)
    (hheld : ∀ j con, j ≠ i → (j, con) ∈ s.pool.held → (j, con) ∈ s'.pool.held)
    (hserves : ∀ request, n.serves = some request →
      w.serves = some request ∨ ∀ v ∈ s.works, v.serves ≠ some request)
    (hcount : s'.pool.held.length = s'.works.countP Work.has) : Served s' := by
  have hmove := getElem?_move (v := n) hi
  refine ⟨fun j v hj => ?_, ?_, hcount⟩
  · rw [hworks, hmove] at hj
    split at hj
    · rename_i heq
      cases hj
      rw [heq]
      exact hfit
    · rename_i hne
      refine (h.fits j v hj).frame (fun request hv => hmysql request fun hw => ?_) (fun con => hheld j con hne)
      exact hne (h.apart j i v w request hj hi hv hw)
  · -- a request that the worker has newly taken on is no other's
    have hnew : ∀ (j : Nat) v request, j ≠ i → s.works[j]? = some v → v.serves = some request →
        n.serves ≠ some request := by
      intro j v request hne hj hv hn
      rcases hserves request hn with hw | hfree
      · exact hne (h.apart j i v w request hj hi hv hw)
      · exact hfree v (List.mem_of_getElem? hj) hv
    intro j k v v' request hj hk hv hv'
    rw [hworks, hmove] at hj hk
    split at hj
    · rename_i hji
      split at hk
      · rename_i hki
        rw [hji, hki]
      · rename_i hki
        cases hj
        exact absurd hv (hnew k v' request hki hk hv')
    · rename_i hji
      split at hk
      · cases hk
        exact absurd hv' (hnew j v request hji hj hv)
      · exact h.apart j k v v' request hj hk hv hv'

/-- As long as there are no fewer connections than workers, one that has none finds the list not to be
    empty. -/
theorem Served.connList_ne_nil (h : Served s) (hkept : ConnectionPool.Kept conns s.pool)
    (hlength : s.works.length ≤ conns.length) {i : Nat} {w : Work ω} (hi : s.works[i]? = some w)
    (hw : w.has = false) : s.pool.connList.length ≠ 0 := by
  have hlt : s.works.countP Work.has < s.works.length := by
    apply Nat.lt_of_le_of_ne List.countP_le_length
    intro hall
    have := List.countP_eq_length.mp hall w (List.mem_of_getElem? hi)
    rw [hw] at this
    cases this
  have hparted := hkept.parted.length_eq
  rw [List.length_append, List.length_map, h.count] at hparted
  omega

/-- A step that is the worker's own affair. -/
theorem Served.pass (h : Served s) {i : Nat} {w n : Work ω} (hi : s.works[i]? = some w)
    (hfit : s.Fits i w → s.Fits i n) (hhas : w.has = n.has)
    (hserves : ∀ request, n.serves = some request →
      w.serves = some request ∨ ∀ v ∈ s.works, v.serves ≠ some request) :
    Served { s with works := s.works.set i n } := by
  have hfit' : s.Fits i n := hfit (h.fits i w hi)
  refine h.move hi rfl ?_ (fun _ _ => rfl) (fun _ _ _ hmem => hmem) hserves ?_
  · cases n <;> exact hfit'
  · show s.pool.held.length = (s.works.set i n).countP Work.has
    rw [countP_pass hi hhas, h.count]

variable [DecidableEq ω]

/-! ## The pool among the workers -/

/-- **The workers use the pool as its callers may.** -/
theorem pool_step {i : Step ω} (hstep : (workers conns threads).step s i s') :
    (CGImysql.pool conns threads).stepIf s.pool (calls i) s'.pool := by
  obtain ⟨⟨-, hcalls⟩, hexec⟩ := hstep
  cases i with
  | take i request => cases hexec; rfl
  | test i request =>
    refine ⟨hcalls _ rfl, ?_⟩
    simp only [exec] at hexec
    split at hexec
    · rename_i hempty
      cases hexec
      show Except.ok (s.pool.test i) = _
      rw [ConnectionPool.test, if_pos hempty]
      rfl
    · cases hexec
      rfl
  | wait i request => cases hexec; exact ⟨hcalls _ rfl, rfl⟩
  | pop i request con =>
    obtain ⟨p, hp, hexec⟩ := bind_eq_ok.mp hexec
    cases hexec
    exact ⟨hcalls _ rfl, hp⟩
  | query i request conRAII => cases hexec; rfl
  | answer i request conRAII => cases hexec; rfl
  | modfd i request conRAII => cases hexec; rfl
  | release i conRAII =>
    cases conRAII with
    | none => cases hexec; rfl
    | some con => cases hexec; exact ⟨hcalls _ rfl, rfl⟩
  | post i => cases hexec; exact ⟨hcalls _ rfl, rfl⟩
  | init request => cases hexec; rfl

theorem pool_reachable (h : (workers conns threads).Reachable s) :
    (CGImysql.pool conns threads).Reachable s.pool := by
  obtain ⟨t, history, ⟨hpool, -⟩, hrun⟩ := h
  exact ⟨t.pool, _, hpool, hrun.project Workers.pool calls pool_step⟩

/-! ## Every run -/

/-- **One step**, if there are no fewer connections than workers. -/
theorem Served.step (h : Served s) (hreach : (CGImysql.pool conns threads).Reachable s.pool)
    (hnodup : conns.Nodup) (hlength : s.works.length ≤ conns.length) {i : Step ω}
    (hstep : ((workers conns threads).restrict Exclusive).step s i s') : Served s' := by
  obtain ⟨⟨⟨hat, hcalls⟩, hexec⟩, hexclusive⟩ := hstep
  have hkept := ConnectionPool.kept hreach
  cases i with
  | take i request =>
    cases hexec
    refine h.pass hat (fun _ => trivial) rfl fun r hr => ?_
    cases hr
    exact Or.inr hexclusive
  | test i request =>
    simp only [exec] at hexec
    rw [if_neg (h.connList_ne_nil hkept hlength hat rfl)] at hexec
    cases hexec
    have hpool : (s.pool.test i).held = s.pool.held := by
      unfold ConnectionPool.test
      split <;> rfl
    refine ⟨fun j v hj => (h.fits j v hj).frame (fun _ _ => rfl) (fun con hmem => ?_), h.apart, ?_⟩
    · rwa [hpool]
    · rw [hpool]
      exact h.count
  | wait i request =>
    cases hexec
    exact ⟨fun j v hj => (h.fits j v hj).frame (fun _ _ => rfl) (fun _ hmem => hmem), h.apart, h.count⟩
  | pop i request con =>
    obtain ⟨p, hp, hexec⟩ := bind_eq_ok.mp hexec
    obtain ⟨-, hcon⟩ := hcalls _ rfl
    simp only [ConnectionPool.pop] at hp
    split at hp
    · cases hp
    · rename_i front rest hlist
      rw [hlist, List.head?_cons] at hcon
      cases hcon
      cases hp
      cases hexec
      refine h.move (n := .processing request (some front)) hat rfl ?_ ?_ ?_ ?_ ?_
      · exact ⟨front, rfl, if_pos rfl, List.mem_cons_self⟩
      · intro r hr
        apply if_neg
        rintro rfl
        exact hr rfl
      · intro j con _ hmem
        exact List.mem_cons_of_mem _ hmem
      · intro r hr
        exact Or.inl hr
      · show s.pool.held.length + 1 = (s.works.set i _).countP Work.has
        rw [countP_enter (p := Work.has) hat rfl rfl, h.count]
  | query i request conRAII =>
    cases hexec
    exact h.pass hat id rfl fun r hr => Or.inl hr
  | answer i request conRAII =>
    cases hexec
    exact h.pass hat id rfl fun r hr => Or.inl hr
  | modfd i request conRAII =>
    cases hexec
    refine h.pass hat ?_ rfl fun _ hr => by cases hr
    rintro ⟨con, hcon, -, hmem⟩
    exact ⟨con, hcon, hmem⟩
  | release i conRAII =>
    obtain ⟨con, rfl, hmem⟩ := h.fits i _ hat
    cases hexec
    obtain ⟨hheld, -⟩ := ConnectionPool.held_erase (hcalls _ rfl).2
    obtain ⟨-, hleave⟩ := countP_leave (p := Work.has) (v := .releasing) hat rfl rfl
    refine h.move hat rfl trivial (fun _ _ => rfl) ?_ (fun _ hr => by cases hr) ?_
    · -- no other connection is the one that is released
      intro j con' hne hmem'
      have hinj := List.inj_on_of_nodup_map
        (List.nodup_append.mp (hkept.parted.nodup_iff.mpr hnodup)).2.1 hmem' hmem
      apply (List.mem_eraseP_of_neg _).mpr hmem'
      intro heq
      exact hne (congrArg Prod.fst (hinj (by simpa using heq)))
    · show (s.pool.held.eraseP _).length = (s.works.set i _).countP Work.has
      rw [hleave, ← h.count]
      omega
  | post i =>
    cases hexec
    refine h.move hat rfl trivial (fun _ _ => rfl) (fun _ _ _ hmem => hmem) (fun _ hr => by cases hr) ?_
    show s.pool.held.length = (s.works.set i .idle).countP Work.has
    rw [countP_pass (p := Work.has) (v := .idle) hat rfl, h.count]
  | init request =>
    cases hexec
    refine ⟨fun j v hj => (h.fits j v hj).frame (fun r hr => ?_) (fun _ hmem => hmem), h.apart, h.count⟩
    apply if_neg
    rintro rfl
    exact hexclusive v (List.mem_of_getElem? hj) hr

theorem works_length {i : Step ω} (hexec : s.exec i = .ok s') : s'.works.length = s.works.length := by
  cases i with
  | test i request =>
    simp only [exec, assign] at hexec
    split at hexec <;> cases hexec
    · exact List.length_set
    · rfl
  | pop i request con =>
    obtain ⟨p, -, hexec⟩ := bind_eq_ok.mp hexec
    cases hexec
    exact List.length_set
  | release i conRAII => cases conRAII <;> cases hexec <;> exact List.length_set
  | wait | init => cases hexec; rfl
  | take | query | answer | modfd | post => cases hexec; exact List.length_set

theorem served (hnodup : conns.Nodup) (hle : threads ≤ conns.length)
    (h : ((workers conns threads).restrict Exclusive).Reachable s) : Served s := by
  have hall : (workers conns threads).Reachable s ∧ s.works.length = threads ∧ Served s := by
    refine h.invariant
      (I := fun s => (workers conns threads).Reachable s ∧ s.works.length = threads ∧ Served s) ?_ ?_
    · intro s hs
      have hstart : (workers conns threads).Reachable s := ⟨s, [], hs, .nil s⟩
      obtain ⟨hpool, hworks⟩ := hs
      have hidle : ∀ (i : Nat) w, s.works[i]? = some w → w = .idle := by
        intro i w hi
        rw [hworks] at hi
        exact List.eq_of_mem_replicate (List.mem_of_getElem? hi)
      refine ⟨hstart, by rw [hworks, List.length_replicate], fun i w hi => ?_, ?_, ?_⟩
      · rw [hidle i w hi]
        trivial
      · intro i j v w request hi _ hv
        rw [hidle i v hi] at hv
        cases hv
      · have hnone : s.works.countP Work.has = 0 := by
          rw [List.countP_eq_zero]
          intro w hw
          obtain ⟨i, hi⟩ := List.getElem?_of_mem hw
          rw [hidle i w hi]
          nofun
        rw [hnone, hpool, ConnectionPool.init_eq]
        rfl
    · intro s i s' hs hstep
      obtain ⟨⟨t, history, ht, hrun⟩, hlength, hserved⟩ := hs
      have hreach' : (workers conns threads).Reachable s' := ⟨t, _, ht, hrun.step hstep.1⟩
      refine ⟨hreach', (works_length hstep.1.2).trans hlength, ?_⟩
      exact hserved.step (pool_reachable ⟨t, _, ht, hrun⟩) hnodup (by rw [hlength]; exact hle) hstep
  exact hall.2.2

/-! ## Fewer connections than workers -/

/-- An idle worker takes on a request, and is given the front of the list. -/
theorem acquire {i request : Nat} {con : ω} {rest : List ω}
    (h : ((workers conns threads).restrict Exclusive).Reachable s) (hi : s.works[i]? = some .idle)
    (hcaller : s.pool.callers[i]? = some .out) (hlist : s.pool.connList = con :: rest)
    (hreserve : 0 < s.pool.reserve) (hfree : ∀ w ∈ s.works, w.serves ≠ some request) :
    ∃ s', ((workers conns threads).restrict Exclusive).Reachable s' ∧
      s'.pool.connList = rest ∧ s'.pool.reserve = s.pool.reserve - 1 ∧
      s'.pool.callers = s.pool.callers ∧ s'.works = s.works.set i (.processing request (some con)) := by
  obtain ⟨t, history, ht, hrun⟩ := h
  have hself : s.pool.callers.set i .out = s.pool.callers := by
    obtain ⟨hlt, hget⟩ := List.getElem?_eq_some_iff.mp hcaller
    rw [← hget, List.set_getElem_self]
  have hne : ¬ s.pool.connList.length = 0 := by rw [hlist]; exact Nat.succ_ne_zero _
  let R := (workers conns threads).restrict Exclusive
  let s₁ : Workers ω := { s with works := s.works.set i (.acquiring request) }
  have hi₁ : s₁.works[i]? = some (.acquiring request) := by rw [getElem?_move hi, if_pos rfl]
  have hstep₁ : R.step s (.take i request) s₁ := ⟨⟨⟨hi, nofun⟩, rfl⟩, hfree⟩
  let s₂ : Workers ω := { s₁ with pool := { s.pool with callers := s.pool.callers.set i .tested } }
  have hcaller₂ : s₂.pool.callers[i]? = some .tested := by rw [getElem?_move hcaller, if_pos rfl]
  have hstep₂ : R.step s₁ (.test i request) s₂ := by
    refine ⟨⟨⟨hi₁, ?_⟩, ?_⟩, trivial⟩
    · rintro _ ⟨⟩
      exact hcaller
    · show (if s.pool.connList.length = 0 then _ else Except.ok { s₁ with pool := s.pool.test i }) = _
      rw [if_neg hne, ConnectionPool.test, if_neg hne]
  let s₃ : Workers ω := { s₂ with pool := s₂.pool.wait i }
  have hcaller₃ : s₃.pool.callers[i]? = some .waited := by
    show (s₂.pool.callers.set i .waited)[i]? = _
    rw [getElem?_move hcaller₂, if_pos rfl]
  have hstep₃ : R.step s₂ (.wait i request) s₃ := by
    refine ⟨⟨⟨hi₁, ?_⟩, rfl⟩, trivial⟩
    rintro _ ⟨⟩
    exact ⟨hcaller₂, hreserve⟩
  let p : ConnectionPool ω :=
    { s₃.pool with
      connList := rest
      freeConn := s₃.pool.freeConn - 1
      curConn := s₃.pool.curConn + 1
      callers := s₃.pool.callers.set i .out
      held := (i, con) :: s₃.pool.held }
  have hstep₄ : R.step s₃ (.pop i request (some con)) ({ s₃ with pool := p }.assign i request (some con)) := by
    refine ⟨⟨⟨hi₁, ?_⟩, ?_⟩, trivial⟩
    · rintro _ ⟨⟩
      exact ⟨hcaller₃, by rw [show s₃.pool.connList = con :: rest from hlist]; rfl⟩
    · have hpop : s₃.pool.pop i = .ok p := by
        simp only [ConnectionPool.pop, show s₃.pool.connList = con :: rest from hlist]
        rfl
      simp only [exec, hpop]
      rfl
  refine ⟨_, ⟨t, _, ht, (((hrun.step hstep₁).step hstep₂).step hstep₃).step hstep₄⟩, rfl, rfl, ?_, ?_⟩
  · show ((s.pool.callers.set i .tested).set i .waited).set i .out = _
    rw [List.set_set, List.set_set, hself]
  · show (s.works.set i _).set i _ = _
    rw [List.set_set]

omit [DecidableEq ω] in
/-- The first `k` workers serve the first `k` requests, and the others none. -/
theorem not_served {s : Workers ω} {k : Nat}
    (hworks : ∀ (i : Nat) w, s.works[i]? = some w → if i < k then w.serves = some i else w = .idle) :
    ∀ w ∈ s.works, w.serves ≠ some k := by
  intro w hw
  obtain ⟨j, hj⟩ := List.getElem?_of_mem hw
  have hwork := hworks j w hj
  split at hwork
  · rw [hwork]
    simp only [ne_eq, Option.some.injEq]
    omega
  · rw [hwork]
    nofun

/-- `k` workers have a connection each, and the others have not begun. -/
theorem busy (conns : List ω) (threads k : Nat) (hk : k ≤ conns.length) (hk' : k ≤ threads) :
    ∃ s, ((workers conns threads).restrict Exclusive).Reachable s ∧
      s.pool.connList = conns.drop k ∧ s.pool.reserve = conns.length - k ∧
      s.pool.callers = List.replicate threads .out ∧ s.works.length = threads ∧
      ∀ (i : Nat) w, s.works[i]? = some w → if i < k then w.serves = some i else w = .idle := by
  induction k with
  | zero =>
    refine ⟨⟨ConnectionPool.init conns threads, fun _ => none, List.replicate threads .idle⟩,
      ⟨_, [], ⟨rfl, rfl⟩, .nil _⟩, ?_⟩
    rw [ConnectionPool.init_eq]
    refine ⟨rfl, rfl, rfl, List.length_replicate, fun i w hi => ?_⟩
    rw [if_neg (Nat.not_lt_zero i)]
    exact List.eq_of_mem_replicate (List.mem_of_getElem? hi)
  | succ k ih =>
    obtain ⟨s, hreach, hlist, hreserve, hcallers, hlength, hworks⟩ := ih (by omega) (by omega)
    have hget : s.works[k]? = some s.works[k] := List.getElem?_eq_getElem (by omega)
    have hidle := hworks k _ hget
    rw [if_neg (Nat.lt_irrefl k)] at hidle
    rw [hidle] at hget
    have hcaller : s.pool.callers[k]? = some .out := by
      rw [hcallers, List.getElem?_replicate, if_pos (by omega)]
    have hfree := not_served hworks
    rw [List.drop_eq_getElem_cons (by omega)] at hlist
    obtain ⟨s', hreach', hlist', hreserve', hcallers', hworks'⟩ :=
      acquire hreach hget hcaller hlist (by omega) hfree
    refine ⟨s', hreach', hlist', by omega, hcallers'.trans hcallers, ?_, fun i w hi => ?_⟩
    · rw [hworks', List.length_set, hlength]
    · rw [hworks', getElem?_move hget] at hi
      split at hi
      · rename_i hik
        cases hi
        rw [if_pos (by omega), hik]
        rfl
      · have hwork := hworks i w hi
        split at hwork
        · rwa [if_pos (by omega)]
        · rwa [if_neg (by omega)]

/-- **A worker without a connection.** -/
theorem starved (conns : List ω) (threads : Nat) (hlt : conns.length < threads) :
    ∃ s, ((workers conns threads).restrict Exclusive).Reachable s ∧ ¬ s.Queries := by
  obtain ⟨s, ⟨t, history, ht, hrun⟩, hlist, -, hcallers, hlength, hworks⟩ :=
    busy conns threads conns.length (Nat.le_refl _) (Nat.le_of_lt hlt)
  generalize hk : conns.length = k at *
  have hget : s.works[k]? = some s.works[k] := List.getElem?_eq_getElem (by omega)
  have hidle := hworks k _ hget
  rw [if_neg (Nat.lt_irrefl k)] at hidle
  rw [hidle] at hget
  have hempty : s.pool.connList.length = 0 := by
    rw [hlist, List.length_drop]
    omega
  let R := (workers conns threads).restrict Exclusive
  let s₁ : Workers ω := { s with works := s.works.set k (.acquiring k) }
  have hk₁ : s₁.works[k]? = some (.acquiring k) := by rw [getElem?_move hget, if_pos rfl]
  have hstep₁ : R.step s (.take k k) s₁ := ⟨⟨⟨hget, nofun⟩, rfl⟩, not_served hworks⟩
  let s₂ : Workers ω := s₁.assign k k none
  have hk₂ : s₂.works[k]? = some (.processing k none) := by
    show (s₁.works.set k _)[k]? = _
    rw [getElem?_move hk₁, if_pos rfl]
  have hstep₂ : R.step s₁ (.test k k) s₂ := by
    refine ⟨⟨⟨hk₁, ?_⟩, if_pos hempty⟩, trivial⟩
    rintro _ ⟨⟩
    show s.pool.callers[k]? = some .out
    rw [hcallers, List.getElem?_replicate, if_pos (by omega)]
  let s₃ : Workers ω := { s₂ with works := s₂.works.set k (.querying k none) }
  have hstep₃ : R.step s₂ (.query k k none) s₃ := ⟨⟨⟨hk₂, nofun⟩, rfl⟩, trivial⟩
  refine ⟨s₃, ⟨t, _, ht, ((hrun.step hstep₁).step hstep₂).step hstep₃⟩, fun hqueries => ?_⟩
  have hk₃ : s₃.works[k]? = some (.querying k none) := by
    show (s₂.works.set k _)[k]? = _
    rw [getElem?_move hk₂, if_pos rfl]
  obtain ⟨con, -, hcon, -⟩ := hqueries k k none hk₃
  cases hcon

end

/-- **No query through a missing connection**, in any schedule of workers that keep off each other's
    requests, if and only if there are as many connections as workers. -/
theorem queries_iff {ω : Type} [DecidableEq ω] {conns : List ω} (hnodup : conns.Nodup) (threads : Nat) :
    (∀ s, ((workers conns threads).restrict Exclusive).Reachable s → s.Queries) ↔
      threads ≤ conns.length := by
  constructor
  · intro hall
    by_contra hlt
    obtain ⟨s, hreach, hno⟩ := starved conns threads (Nat.lt_of_not_le hlt)
    exact hno (hall s hreach)
  · intro hle s hreach i request conRAII hi
    obtain ⟨con, hcon, hmysql, hmem⟩ := (served hnodup hle hreach).fits i _ hi
    exact ⟨con, hmysql, hcon, hmem⟩

/-- The default, eight of each, and all of them busy. -/
theorem queries_iff_default : ∃ s, ((workers (List.range 8) 8).restrict Exclusive).Reachable s ∧
    (∀ i w, s.works[i]? = some w → i < 8 → w.serves = some i) ∧ s.Queries := by
  obtain ⟨s, hreach, -, -, -, -, hworks⟩ := busy (List.range 8) 8 8 (by decide) (Nat.le_refl 8)
  refine ⟨s, hreach, fun i w hi hlt => ?_, (queries_iff List.nodup_range 8).mpr (by decide) s hreach⟩
  have hwork := hworks i w hi
  rwa [if_pos hlt] at hwork

/-- Two workers over one connection, on two slots: the second is at `mysql_query` with null, while the
    first has the connection. -/
theorem null_query : ∃ (conns : List Nat) (threads : Nat) (s : Workers Nat),
    conns = [10] ∧ threads = 2 ∧ (workers conns threads).Reachable s ∧ ¬ s.Queries := by
  obtain ⟨s, ⟨t, history, ht, hrun⟩, hno⟩ := starved [10] 2 (by decide)
  exact ⟨[10], 2, s, rfl, rfl, ⟨t, history, ht, System.Run.of_restrict hrun⟩, hno⟩

end Workers

end CGImysql
end LinuxServer
