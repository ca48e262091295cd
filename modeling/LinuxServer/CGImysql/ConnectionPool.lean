import LinuxServer.Lib.Fault
import LinuxServer.Lib.Semaphore
import Mathlib.Data.List.Nodup
import Mathlib.Data.List.Perm.Basic

/-!
# `CGImysql/ConnectionPool.lean` — `connection_pool`

`GetConnection` is three steps here and `ReleaseConnection` two, which is where another thread may
come in between: the size test, which takes no lock, `reserve.wait()` and the locked `pop_front`; the
locked `push_back` and `reserve.post()`. What is done under `lock` is one step. A connection is a
value of an arbitrary type, the pointer that `mysql_real_connect` answered.

`m_FreeConn` and the list are counted under the same lock, and the semaphore apart from it. The pool is
a guarded list (`Lib/Semaphore.lean`), and `exclusive` is what follows.
-/

set_option autoImplicit false

namespace LinuxServer
namespace CGImysql

/-- Where a thread is with respect to the pool. -/
inductive Caller
  | out
  /-- In `GetConnection`, the list having been found not to be empty. -/
  | tested
  /-- In `GetConnection`, behind `reserve.wait()`. -/
  | waited
  /-- In `ReleaseConnection`, before `reserve.post()`. -/
  | pushed
  deriving DecidableEq, Repr

structure ConnectionPool (ω : Type) where
  connList : List ω
  freeConn : Int
  curConn : Int
  reserve : Nat
  /-- The threads, and which of them has been given what and not released it. No function reads
      either. -/
  callers : List Caller
  held : List (Nat × ω)
  deriving DecidableEq, Repr

/-- What a thread does next. A `pop_front` says what was in front. -/
inductive Step (ω : Type)
  | test (i : Nat)
  | wait (i : Nat)
  | pop (i : Nat) (con : Option ω)
  | push (i : Nat) (con : ω)
  | post (i : Nat)
  deriving DecidableEq, Repr

namespace ConnectionPool

variable {ω : Type}

/-- `init`, on the connections that were made. -/
def init (conns : List ω) (threads : Nat) : ConnectionPool ω :=
  let p := conns.foldl
    (fun p con => { p with connList := p.connList ++ [con], freeConn := p.freeConn + 1 })
    (⟨[], 0, 0, 0, List.replicate threads .out, []⟩ : ConnectionPool ω)
  { p with reserve := p.freeConn.toNat }

/-! ## `GetConnection` -/

/-- `if (0 == connList.size()) return NULL`. -/
def test (p : ConnectionPool ω) (i : Nat) : ConnectionPool ω :=
  if p.connList.length = 0 then p else { p with callers := p.callers.set i .tested }

/-- `reserve.wait()`, once it returns. -/
def wait (p : ConnectionPool ω) (i : Nat) : ConnectionPool ω :=
  { p with reserve := p.reserve - 1, callers := p.callers.set i .waited }

/-- The section under `lock`. -/
def pop (p : ConnectionPool ω) (i : Nat) : Except Fault (ConnectionPool ω) :=
  match p.connList with
  | [] => .error .outOfBounds
  | con :: rest =>
    .ok { p with
      connList := rest
      freeConn := p.freeConn - 1
      curConn := p.curConn + 1
      callers := p.callers.set i .out
      held := (i, con) :: p.held }

/-! ## `ReleaseConnection` -/

section
variable [DecidableEq ω]

/-- The section under `lock`. -/
def push (p : ConnectionPool ω) (i : Nat) (con : ω) : ConnectionPool ω :=
  { p with
    connList := p.connList ++ [con]
    freeConn := p.freeConn + 1
    curConn := p.curConn - 1
    callers := p.callers.set i .pushed
    held := p.held.eraseP (·.2 = con) }

def post (p : ConnectionPool ω) (i : Nat) : ConnectionPool ω :=
  { p with reserve := p.reserve + 1, callers := p.callers.set i .out }

/-! ## The threads -/

def exec (p : ConnectionPool ω) : Step ω → Except Fault (ConnectionPool ω)
  | .test i => .ok (p.test i)
  | .wait i => .ok (p.wait i)
  | .pop i _ => p.pop i
  | .push i con => .ok (p.push i con)
  | .post i => .ok (p.post i)

/-- Where the thread must be, and what else a step takes: a semaphore that is not zero to get past it;
    a connection to release that was obtained, by whomever, and has not been released. -/
def Enabled (p : ConnectionPool ω) : Step ω → Prop
  | .test i => p.callers[i]? = some .out
  | .wait i => p.callers[i]? = some .tested ∧ 0 < p.reserve
  | .pop i con => p.callers[i]? = some .waited ∧ con = p.connList.head?
  | .push i con => p.callers[i]? = some .out ∧ con ∈ p.held.map Prod.snd
  | .post i => p.callers[i]? = some .pushed

instance (p : ConnectionPool ω) : (i : Step ω) → Decidable (p.Enabled i)
  | .test _ | .post _ => inferInstanceAs (Decidable (_ = _))
  | .wait _ | .pop .. | .push .. => inferInstanceAs (Decidable (_ ∧ _))

end

end ConnectionPool

/-- The pool after `init`, under any number of threads. -/
def pool {ω : Type} [DecidableEq ω] (conns : List ω) (threads : Nat) :
    System (ConnectionPool ω) (Step ω) where
  start p := p = ConnectionPool.init conns threads
  step p i p' := p.Enabled i ∧ p.exec i = .ok p'

namespace ConnectionPool

/-! ## A guarded list -/

section
variable {ω : Type}

theorem init_eq (conns : List ω) (threads : Nat) :
    init conns threads = ⟨conns, conns.length, 0, conns.length, List.replicate threads .out, []⟩ := by
  have hfold : ∀ (rest : List ω) (p : ConnectionPool ω), rest.foldl
      (fun p con => { p with connList := p.connList ++ [con], freeConn := p.freeConn + 1 }) p =
      { p with connList := p.connList ++ rest, freeConn := p.freeConn + rest.length } := by
    intro rest
    induction rest with
    | nil => intro p; simp
    | cons con rest ih =>
      intro p
      rw [List.foldl_cons, ih]
      simp only [List.append_assoc, List.singleton_append, List.length_cons, mk.injEq, true_and, and_true]
      omega
  simp only [init, hfold, List.nil_append, Int.zero_add, Int.toNat_natCast]

/-- The pool as a list that a semaphore counts. -/
def guarded (p : ConnectionPool ω) : Guarded ω where
  items := p.connList
  permits := p.reserve
  taking := p.callers.countP (· = .waited)
  giving := p.callers.countP (· = .pushed)

def observed : Step ω → Option (Guarded.Step ω)
  | .test _ => none
  | .wait _ => some .wait
  | .pop _ con => some (.take con)
  | .push _ con => some (.put con)
  | .post _ => some .post

theorem guarded_init (conns : List ω) (threads : Nat) :
    (init conns threads).guarded = Guarded.initial conns := by
  have hnone : ∀ t : Caller, t ≠ .out → (List.replicate threads Caller.out).countP (· = t) = 0 := by
    intro t ht
    rw [List.countP_eq_zero]
    intro x hx
    rw [List.eq_of_mem_replicate hx]
    simpa using ht.symm
  simp only [init_eq, guarded, Guarded.initial, hnone .waited (by decide), hnone .pushed (by decide)]

variable [DecidableEq ω] {conns : List ω} {threads : Nat} {p p' : ConnectionPool ω} {h : List (Step ω)}

/-- **The steps of the pool** are those of a guarded list. -/
theorem guarded_step {i : Step ω} (hstep : (pool conns threads).step p i p') :
    (Guarded.system conns).stepIf p.guarded (observed i) p'.guarded := by
  obtain ⟨henabled, hexec⟩ := hstep
  cases i with
  | test i =>
    -- no part of the pattern: it is made without the lock, and takes nothing
    cases hexec
    show (p.test i).guarded = p.guarded
    unfold test
    split
    · rfl
    · have hi : p.callers[i]? = some .out := henabled
      simp only [guarded, countP_pass (p := (· = Caller.waited)) (v := .tested) hi rfl,
        countP_pass (p := (· = Caller.pushed)) (v := .tested) hi rfl]
  | wait i =>
    cases hexec
    obtain ⟨hi, hreserve⟩ := henabled
    refine ⟨hreserve, ?_⟩
    simp only [wait, guarded, countP_enter (p := (· = Caller.waited)) (v := .waited) hi rfl rfl,
      countP_pass (p := (· = Caller.pushed)) (v := .waited) hi rfl]
  | pop i con =>
    obtain ⟨hi, hcon⟩ := henabled
    obtain ⟨htaking, hleave⟩ := countP_leave (p := (· = Caller.waited)) (v := .out) hi rfl rfl
    refine ⟨htaking, hcon, ?_⟩
    simp only [exec, pop] at hexec
    split at hexec
    · cases hexec
    · rename_i front rest hlist
      cases hexec
      simp only [guarded, hlist, hleave, List.tail_cons,
        countP_pass (p := (· = Caller.pushed)) (v := .out) hi rfl]
  | push i con =>
    cases hexec
    obtain ⟨hi, -⟩ := henabled
    show (p.push i con).guarded = _
    simp only [push, guarded, countP_enter (p := (· = Caller.pushed)) (v := .pushed) hi rfl rfl,
      countP_pass (p := (· = Caller.waited)) (v := .pushed) hi rfl]
  | post i =>
    cases hexec
    obtain ⟨hgiving, hleave⟩ :=
      countP_leave (p := (· = Caller.pushed)) (v := .out) (show p.callers[i]? = some .pushed from henabled) rfl rfl
    refine ⟨hgiving, ?_⟩
    simp only [post, guarded, hleave,
      countP_pass (p := (· = Caller.waited)) (v := .out) (show p.callers[i]? = some .pushed from henabled) rfl]

theorem balanced (h : (pool conns threads).Reachable p) : p.guarded.Balanced := by
  obtain ⟨s, history, rfl, hrun⟩ := h
  have hproject := hrun.project guarded observed guarded_step
  rw [guarded_init] at hproject
  exact Guarded.balanced hproject

/-- **Behind `reserve.wait()` the list is not empty.** -/
theorem connList_ne_nil (h : (pool conns threads).Reachable p) {i : Nat}
    (hi : p.callers[i]? = some .waited) : p.connList ≠ [] := by
  apply (balanced h).items_ne_nil
  exact List.countP_pos_iff.mpr ⟨_, List.mem_of_getElem? hi, rfl⟩

/-! ## Who has a connection -/

/-- Every connection is in the list or held, and the counters say how many are. -/
structure Kept (conns : List ω) (p : ConnectionPool ω) : Prop where
  parted : (p.connList ++ p.held.map Prod.snd).Perm conns
  free : p.freeConn = p.connList.length
  cur : p.curConn = p.held.length

theorem held_erase {con : ω} (hcon : con ∈ p.held.map Prod.snd) :
    p.held.length = (p.held.eraseP (·.2 = con)).length + 1 ∧
      (p.held.map Prod.snd).Perm (con :: (p.held.eraseP (·.2 = con)).map Prod.snd) := by
  obtain ⟨pair, hmem, hpair⟩ := List.mem_map.mp hcon
  obtain ⟨⟨k, x⟩, before, behind, -, hx, hheld, herase⟩ :=
    List.exists_of_eraseP (p := fun a => decide (a.2 = con)) hmem (by simpa using hpair)
  obtain rfl : x = con := by simpa using hx
  rw [herase, hheld]
  constructor
  · simp only [List.length_append, List.length_cons]
    omega
  · simp only [List.map_append, List.map_cons]
    exact List.perm_middle

omit [DecidableEq ω] in
theorem Kept.init (conns : List ω) (threads : Nat) : Kept conns (init conns threads) := by
  rw [init_eq]
  exact ⟨by simp, rfl, rfl⟩

theorem Kept.step (hp : Kept conns p) {i : Step ω} (hstep : (pool conns threads).step p i p') :
    Kept conns p' := by
  obtain ⟨henabled, hexec⟩ := hstep
  cases i with
  | test i =>
    cases hexec
    unfold test
    split
    · exact hp
    · exact ⟨hp.parted, hp.free, hp.cur⟩
  | wait i =>
    cases hexec
    exact ⟨hp.parted, hp.free, hp.cur⟩
  | pop i con =>
    simp only [exec, pop] at hexec
    split at hexec
    · cases hexec
    · rename_i front rest hlist
      cases hexec
      have hparted := hp.parted
      have hfree := hp.free
      have hcur := hp.cur
      rw [hlist] at hparted hfree
      rw [List.length_cons] at hfree
      -- the front connection changes hands, and the two counters with it
      refine ⟨List.perm_middle.trans hparted, ?_, ?_⟩
      · show p.freeConn - 1 = (rest.length : Int)
        omega
      · show p.curConn + 1 = (((i, front) :: p.held).length : Int)
        rw [List.length_cons]
        omega
  | push i con =>
    cases hexec
    obtain ⟨hlength, hperm⟩ := held_erase henabled.2
    have hfree := hp.free
    have hcur := hp.cur
    refine ⟨?_, ?_, ?_⟩
    · show (p.connList ++ [con] ++ _).Perm conns
      rw [List.append_assoc]
      exact (hperm.symm.append_left p.connList).trans hp.parted
    · show p.freeConn + 1 = ((p.connList ++ [con]).length : Nat)
      rw [hfree, List.length_append, List.length_singleton]
      omega
    · show p.curConn - 1 = ((p.held.eraseP _).length : Nat)
      omega
  | post i =>
    cases hexec
    exact ⟨hp.parted, hp.free, hp.cur⟩

theorem kept (h : (pool conns threads).Reachable p) : Kept conns p :=
  h.invariant (fun hs => hs ▸ Kept.init conns threads) (fun hp hstep => hp.step hstep)

/-- Of a list without repetitions that has been parted in two, each element is in one part, once. -/
theorem count_parted {l l' conns : List ω} (hnodup : conns.Nodup) (hparted : (l ++ l').Perm conns) {con : ω}
    (hcon : con ∈ conns) : (l.count con = 1 ∧ l'.count con = 0) ∨ (l.count con = 0 ∧ l'.count con = 1) := by
  have hone := List.count_eq_one_of_mem hnodup hcon
  rw [← hparted.count_eq, List.count_append] at hone
  omega

end

/-- **Exclusive possession**, for any connections, any number of threads and any interleaving: nothing
    is taken from an empty list; each connection is in the list once or held by one caller; and the
    counters count. -/
theorem exclusive {ω : Type} [DecidableEq ω] {conns : List ω} {threads : Nat} (hnodup : conns.Nodup)
    {p : ConnectionPool ω} (h : (pool conns threads).Reachable p) :
    (∀ i : Nat, p.callers[i]? = some .waited → p.connList ≠ []) ∧
      (∀ con ∈ conns, (p.connList.count con = 1 ∧ (p.held.map Prod.snd).count con = 0) ∨
        (p.connList.count con = 0 ∧ (p.held.map Prod.snd).count con = 1)) ∧
      p.freeConn = p.connList.length ∧ p.freeConn + p.curConn = conns.length := by
  have hkept := kept h
  refine ⟨fun i hi => connList_ne_nil h hi, fun con hcon => count_parted hnodup hkept.parted hcon,
    hkept.free, ?_⟩
  have hlength := hkept.parted.length_eq
  rw [List.length_append, List.length_map] at hlength
  rw [hkept.free, hkept.cur]
  omega

/-- Two threads and two connections: the first has one, and gives it back while the second is between
    `reserve.wait()` and the lock. -/
theorem exclusive_two : ∃ p : ConnectionPool Nat, (pool [10, 20] 2).Reachable p ∧
    p.callers = [.pushed, .waited] ∧ p.connList = [20, 10] ∧ p.freeConn + p.curConn = 2 := by
  obtain ⟨p, hp⟩ : ∃ p, System.follow exec (fun (p : ConnectionPool Nat) i => p.Enabled i) (init [10, 20] 2)
      [.push 0 10, .wait 1, .test 1, .pop 0 (some 10), .wait 0, .test 0] = some p :=
    Option.isSome_iff_exists.mp (by decide)
  have hreach : (pool [10, 20] 2).Reachable p :=
    ⟨_, _, rfl, System.Run.of_follow
      (fun t i u hok hexec => And.intro (of_decide_eq_true hok) hexec) hp⟩
  refine ⟨p, hreach, ?_, ?_, (exclusive (by decide) hreach).2.2.2⟩
  all_goals
    cases hp
    rfl

end ConnectionPool

end CGImysql
end LinuxServer
