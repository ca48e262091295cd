import LinuxServer.Lib.CString
import LinuxServer.Lib.Fault
import LinuxServer.Lib.System
import Mathlib.Data.List.Nodup

/-!
# `MiniSelect/SelectLoop.lean` — the server that `select` drives

`main` of `mini_select.cpp`, from `listen` on: a loop around `select`, with the descriptors to be watched in
`active_fds` and the clients in a vector that is walked with an iterator. The loop is never left, so what the
source has behind it, once more with `poll` and with `epoll`, is not reached.

`FD_ZERO` and `FD_SET(sockfd, ..)` are applied to `read_fds`, and the loop begins with `read_fds =
active_fds`: what `active_fds` holds at first is what was in memory. It is a start state's, and anything.

The vector is kept in two parts, what the iterator has passed and what it has not. A step is a call of the
kernel with what it answers, or the step past a client that is not ready.
-/

set_option autoImplicit false

namespace LinuxServer
namespace MiniSelect

/-- `FD_SETSIZE`. -/
def fdSetSize : Nat := 1024

/-- What `read(client_fd, ..)` answers; and, where the client is answered, whether `write` does not fail. -/
inductive Read
  | bytes (data : List Byte) (written : Bool)
  | closed
  | failed
  deriving DecidableEq, Repr

/-- `read_bytes` has room for 1024 bytes. -/
def Read.Fits : Read → Prop
  | .bytes data _ => data ≠ [] ∧ data.length ≤ 1024
  | .closed | .failed => True

instance : (answer : Read) → Decidable answer.Fits
  | .bytes .. => inferInstanceAs (Decidable (_ ∧ _))
  | .closed | .failed => .isTrue trivial

/-- Where the program is: before `select`, behind it, or in the loop over the clients; or it has left by
    `errif`, or by the exception that `std::string` throws. -/
inductive Place
  | selecting
  | accepting
  | scanning
  | exited
  | terminated
  deriving DecidableEq, Repr

/-- What was asked of the kernel about clients. -/
inductive KernelCall
  | accept (fd : Nat)
  | write (fd : Nat) (data : List Byte)
  | close (fd : Nat)
  deriving DecidableEq, Repr

structure Server where
  activeFds : Nat → Bool
  readFds : Nat → Bool
  maxFd : Nat
  /-- `clients_fd`, as far as the iterator, and from there on. -/
  passed : List Nat
  rest : List Nat
  main : Place
  /-- The calls made, newest first. No function reads it. -/
  calls : List KernelCall

/-- The text in front of what a client is sent back. -/
def greeting : List Byte := "你好,你发送了".toUTF8.toList

namespace Server

def clientsFd (s : Server) : List Nat := s.passed ++ s.rest

/-- `FD_SET(fd, &active_fds)`; an `fd_set` has `FD_SETSIZE` bits. -/
def fdSet (s : Server) (fd : Nat) : Except Fault Server :=
  if fd < fdSetSize then .ok { s with activeFds := Function.update s.activeFds fd true } else .error .outOfBounds

/-- `FD_CLR(fd, &active_fds)`. -/
def fdClr (s : Server) (fd : Nat) : Except Fault Server :=
  if fd < fdSetSize then .ok { s with activeFds := Function.update s.activeFds fd false } else .error .outOfBounds

/-- What happens next. A step of the loop over the clients names the client. -/
inductive Step
  | select (ready : List Nat)
  | selectFailed
  | accept (client : Option Nat)
  | noConnection
  | read (fd : Nat) (answer : Read)
  | skip (fd : Nat)
  | next
  deriving DecidableEq, Repr

def exec (s : Server) : Step → Except Fault Server
  | .select ready => .ok { s with readFds := fun fd => ready.contains fd, main := .accepting }
  | .selectFailed => .ok { s with main := .exited }
  | .accept none => .error .outOfBounds  -- `FD_SET(-1, ..)`
  | .accept (some client) => do
    let s ← s.fdSet client
    return { s with
      maxFd := max client s.maxFd
      rest := s.rest ++ [client]
      main := .scanning
      calls := .accept client :: s.calls }
  | .noConnection => .ok { s with main := .scanning }
  | .read fd (.bytes data written) => .ok { s with
      passed := s.passed ++ [fd]
      rest := s.rest.tail
      main := if written then s.main else .exited
      calls := .write fd (greeting ++ data) :: s.calls }
  | .read fd .closed => do
    let s ← s.fdClr fd
    return { s with rest := s.rest.tail, calls := .close fd :: s.calls }
  | .read _ .failed =>
    -- -1 is no `size_t` below 1, and a string of that length is refused
    .ok { s with main := .terminated }
  | .skip fd => .ok { s with passed := s.passed ++ [fd], rest := s.rest.tail }
  | .next => .ok { s with passed := [], rest := s.passed, main := .selecting }

/-- What the kernel promises: `select` answers descriptors that it was asked about, `accept` one that is not
    open, and `read` 1024 bytes at most. -/
def Enabled (sockfd : Nat) (s : Server) : Step → Prop
  | .select ready => s.main = .selecting ∧ ∀ fd ∈ ready, s.activeFds fd = true
  | .selectFailed => s.main = .selecting
  | .accept client => s.main = .accepting ∧ s.readFds sockfd = true ∧
      ∀ fd ∈ client, fd ∉ s.clientsFd ∧ fd ≠ sockfd
  | .noConnection => s.main = .accepting ∧ s.readFds sockfd = false
  | .read fd answer => s.main = .scanning ∧ s.rest.head? = some fd ∧ s.readFds fd = true ∧ answer.Fits
  | .skip fd => s.main = .scanning ∧ s.rest.head? = some fd ∧ s.readFds fd = false
  | .next => s.main = .scanning ∧ s.rest = []

instance (sockfd : Nat) (s : Server) : (i : Step) → Decidable (s.Enabled sockfd i)
  | .selectFailed => inferInstanceAs (Decidable (_ = _))
  | .select _ | .accept _ | .noConnection | .read .. | .skip _ | .next => inferInstanceAs (Decidable (_ ∧ _))

end Server

/-- The server, from its first `select` on. -/
def selectLoop (sockfd : Nat) : System Server Server.Step where
  start s := s.maxFd = sockfd ∧ s.passed = [] ∧ s.rest = [] ∧ s.main = .selecting ∧ s.calls = []
  step s i s' := s.Enabled sockfd i ∧ s.exec i = .ok s'

namespace Server

variable {sockfd : Nat} {s s' s₀ : Server} {h : List Step}

/-! ## The clients -/

/-- **The invariant**: the vector is what is open, once each, and `active_fds` watches it; the other bits are
    those that were there at first. -/
structure Books (sockfd : Nat) (first : Nat → Bool) (s : Server) : Prop where
  nodup : s.clientsFd.Nodup
  watched : ∀ fd ∈ s.clientsFd, s.activeFds fd = true ∧ fd ≤ s.maxFd ∧ fd < fdSetSize ∧ fd ≠ sockfd
  others : ∀ fd, fd ∉ s.clientsFd → s.activeFds fd = true → first fd = true
  listener : s.activeFds sockfd = first sockfd
  reported : s.main = .accepting → s.readFds sockfd = true → first sockfd = true
  ledger : ∀ fd, s.calls.count (.accept fd) = s.calls.count (.close fd) + s.clientsFd.count fd

theorem Books.start (hs : (selectLoop sockfd).start s) : Books sockfd s.activeFds s := by
  obtain ⟨-, hpassed, hrest, hmain, hcalls⟩ := hs
  have hnil : s.clientsFd = [] := by rw [clientsFd, hpassed, hrest]; rfl
  refine ⟨?_, ?_, fun fd _ hfd => hfd, rfl, ?_, ?_⟩
  · rw [hnil]; exact List.nodup_nil
  · rw [hnil]; exact List.forall_mem_nil _
  · rw [hmain]; exact (fun h => by cases h)
  · rw [hnil, hcalls]; exact fun _ => rfl

theorem exec_accept {client : Nat} (hexec : s.exec (.accept (some client)) = .ok s') :
    client < fdSetSize ∧ s' = { s with
      activeFds := Function.update s.activeFds client true, maxFd := max client s.maxFd,
      rest := s.rest ++ [client], main := .scanning, calls := .accept client :: s.calls } := by
  simp only [exec, fdSet] at hexec
  split at hexec
  · rename_i hlt
    cases hexec
    exact ⟨hlt, rfl⟩
  · cases hexec

theorem exec_closed {fd : Nat} (hexec : s.exec (.read fd .closed) = .ok s') :
    s' = { s with
      activeFds := Function.update s.activeFds fd false, rest := s.rest.tail, calls := .close fd :: s.calls } := by
  simp only [exec, fdClr] at hexec
  split at hexec
  · cases hexec
    rfl
  · cases hexec

/-- The iterator at a client. -/
theorem clientsFd_of_head {fd : Nat} (hhead : s.rest.head? = some fd) :
    s.clientsFd = s.passed ++ fd :: s.rest.tail := by
  rw [clientsFd, List.eq_cons_of_mem_head? hhead]
  rfl

/-- Past a client, the vector is what it was. -/
theorem clientsFd_pass {fd : Nat} (hhead : s.rest.head? = some fd) :
    (s.passed ++ [fd]) ++ s.rest.tail = s.clientsFd := by
  rw [clientsFd_of_head hhead, List.append_assoc]
  rfl

/-- A step that leaves the clients where they are. -/
theorem Books.of_same {first : Nat → Bool} (hb : Books sockfd first s) (hclients : s'.clientsFd = s.clientsFd)
    (hactive : s'.activeFds = s.activeFds) (hmax : s'.maxFd = s.maxFd) (hmain : s'.main ≠ .accepting)
    (hcalls : ∀ fd, s'.calls.count (.accept fd) = s.calls.count (.accept fd) ∧
      s'.calls.count (.close fd) = s.calls.count (.close fd)) : Books sockfd first s' := by
  refine ⟨?_, ?_, ?_, ?_, fun h => absurd h hmain, fun fd => ?_⟩
  · rw [hclients]; exact hb.nodup
  · rw [hclients, hactive, hmax]; exact hb.watched
  · rw [hclients, hactive]; exact hb.others
  · rw [hactive]; exact hb.listener
  · rw [(hcalls fd).1, (hcalls fd).2, hclients]; exact hb.ledger fd

theorem Books.step {first : Nat → Bool} (hb : Books sockfd first s) {i : Step} (he : s.Enabled sockfd i)
    (hexec : s.exec i = .ok s') : Books sockfd first s' := by
  obtain ⟨hnodup, hwatched, hothers, hlistener, hreported, hledger⟩ := id hb
  cases i with
  | select ready =>
    cases hexec
    refine ⟨hnodup, hwatched, hothers, hlistener, fun _ hready => ?_, hledger⟩
    rw [← hlistener]
    exact he.2 sockfd (by simpa using hready)
  | accept client =>
    cases client with
    | none => cases hexec
    | some client =>
      obtain ⟨hlt, rfl⟩ := exec_accept hexec
      obtain ⟨-, -, hfresh⟩ := he
      obtain ⟨hnew, hne⟩ := hfresh client rfl
      have hclients : s.passed ++ (s.rest ++ [client]) = s.clientsFd ++ [client] := (List.append_assoc ..).symm
      refine ⟨?_, ?_, ?_, ?_, (fun h => by cases h), ?_⟩
      · show (s.passed ++ (s.rest ++ [client])).Nodup
        rw [hclients]
        exact List.nodup_append.mpr ⟨hnodup, List.nodup_singleton _, fun a ha b hb hab =>
          hnew ((List.mem_singleton.mp hb) ▸ hab ▸ ha)⟩
      · intro fd hfd
        change fd ∈ s.passed ++ (s.rest ++ [client]) at hfd
        rw [hclients] at hfd
        by_cases heq : fd = client
        · subst heq
          exact ⟨Function.update_self .., Nat.le_max_left .., hlt, hne⟩
        · obtain ⟨hbit, hle, hsize, hsock⟩ :=
            hwatched fd ((List.mem_append.mp hfd).resolve_right (by simpa using heq))
          exact ⟨(Function.update_of_ne heq ..).trans hbit, hle.trans (Nat.le_max_right ..), hsize, hsock⟩
      · intro fd hfd hbit
        change fd ∉ s.passed ++ (s.rest ++ [client]) at hfd
        rw [hclients, List.mem_append, not_or, List.mem_singleton] at hfd
        exact hothers fd hfd.1 ((Function.update_of_ne hfd.2 ..).symm.trans hbit)
      · exact (Function.update_of_ne (Ne.symm hne) ..).trans hlistener
      · intro fd
        show (KernelCall.accept client :: s.calls).count _ = (KernelCall.accept client :: s.calls).count _ +
          (s.passed ++ (s.rest ++ [client])).count fd
        have hl := hledger fd
        rw [hclients, List.count_append]
        by_cases heq : client = fd
        · subst heq
          simp
          omega
        · simp [heq]
          omega
  | read fd answer =>
    obtain ⟨hmain, hhead, -, -⟩ := he
    cases answer with
    | bytes data written =>
      cases hexec
      refine hb.of_same (clientsFd_pass hhead) rfl rfl ?_ fun fd' => ?_
      · cases written <;> simp [hmain]
      · simp
    | closed =>
      obtain rfl := exec_closed hexec
      have hclients := clientsFd_of_head hhead
      have hmem : fd ∈ s.clientsFd := by rw [hclients]; exact List.mem_append_right _ List.mem_cons_self
      have hparts : ∀ fd', fd' ∈ s.clientsFd ↔ fd' = fd ∨ fd' ∈ s.passed ++ s.rest.tail := by
        intro fd'
        rw [hclients, List.mem_append, List.mem_cons, List.mem_append]
        tauto
      have hnodup' := hnodup
      rw [hclients, List.nodup_middle] at hnodup'
      obtain ⟨hgone, hnodup'⟩ := List.nodup_cons.mp hnodup'
      refine ⟨hnodup', fun fd' hfd' => ?_, fun fd' hfd' hbit => ?_, ?_, ?_, fun fd' => ?_⟩
      · have hne : fd' ≠ fd := fun heq => hgone (heq ▸ hfd')
        obtain ⟨hbit, hrest⟩ := hwatched fd' ((hparts fd').mpr (Or.inr hfd'))
        exact ⟨(Function.update_of_ne hne ..).trans hbit, hrest⟩
      · have hne : fd' ≠ fd := by
          rintro rfl
          simp at hbit
        refine hothers fd' (fun hold => ?_) ((Function.update_of_ne hne ..).symm.trans hbit)
        exact hfd' (((hparts fd').mp hold).resolve_left hne)
      · exact (Function.update_of_ne (Ne.symm (hwatched fd hmem).2.2.2) ..).trans hlistener
      · rw [hmain]; exact (fun h => by cases h)
      · have hl := hledger fd'
        rw [hclients, List.count_append, List.count_cons] at hl
        show (KernelCall.close fd :: s.calls).count _ = (KernelCall.close fd :: s.calls).count _ +
          (s.passed ++ s.rest.tail).count fd'
        rw [List.count_append]
        by_cases heq : fd = fd'
        · subst heq
          simp at hl ⊢
          omega
        · simp [heq] at hl ⊢
          omega
    | failed =>
      cases hexec
      exact hb.of_same rfl rfl rfl (fun h => by cases h) fun _ => ⟨rfl, rfl⟩
  | skip fd =>
    cases hexec
    refine hb.of_same (clientsFd_pass he.2.1) rfl rfl ?_ fun _ => ⟨rfl, rfl⟩
    rw [he.1]
    exact (fun h => by cases h)
  | next =>
    cases hexec
    refine hb.of_same ?_ rfl rfl (fun h => by cases h) fun _ => ⟨rfl, rfl⟩
    show [] ++ s.passed = s.passed ++ s.rest
    rw [he.2, List.append_nil, List.nil_append]
  | selectFailed | noConnection =>
    cases hexec
    exact hb.of_same rfl rfl rfl (fun h => by cases h) fun _ => ⟨rfl, rfl⟩

theorem books (hstart : (selectLoop sockfd).start s₀) (hrun : (selectLoop sockfd).Run s₀ h s) :
    Books sockfd s₀.activeFds s := by
  refine hrun.invariant (I := fun _ s => Books sockfd s₀.activeFds s) ?_ (.start hstart)
  rintro h t i u hb ⟨he, hexec⟩
  exact hb.step he hexec

/-- **The clients**, in every run: the vector holds each client that has been accepted and not closed, once;
    `active_fds` has its bit, which lies inside the set and below what `select` is told to look at, and no other
    bit that it did not have at first; and a step is executed, but for an `accept` that fails or answers a
    descriptor that the set has no bit for. -/
theorem clients_watched {sockfd : Nat} {s₀ s : Server} {h : List Step} (hstart : (selectLoop sockfd).start s₀)
    (hrun : (selectLoop sockfd).Run s₀ h s) :
    s.clientsFd.Nodup ∧
      (∀ fd, s.calls.count (.accept fd) = s.calls.count (.close fd) + s.clientsFd.count fd) ∧
      (∀ fd ∈ s.clientsFd, s.activeFds fd = true ∧ fd < fdSetSize ∧ fd < s.maxFd + 1) ∧
      (∀ fd, s.activeFds fd = true → fd ∈ s.clientsFd ∨ s₀.activeFds fd = true) ∧
      ∀ i, s.Enabled sockfd i → (∃ s', s.exec i = .ok s') ∨ i = .accept none ∨
        ∃ client, i = .accept (some client) ∧ fdSetSize ≤ client := by
  have hb := books hstart hrun
  refine ⟨hb.nodup, hb.ledger, fun fd hfd => ?_, fun fd hbit => ?_, fun i he => ?_⟩
  · obtain ⟨hbit, hle, hlt, -⟩ := hb.watched fd hfd
    exact ⟨hbit, hlt, Nat.lt_succ_of_le hle⟩
  · exact or_iff_not_imp_left.mpr fun hfd => hb.others fd hfd hbit
  · cases i with
    | accept client =>
      cases client with
      | none => exact Or.inr (Or.inl rfl)
      | some client =>
        by_cases hlt : client < fdSetSize
        · exact Or.inl (by simp only [exec, fdSet, if_pos hlt]; exact ⟨_, rfl⟩)
        · exact Or.inr (Or.inr ⟨client, rfl, Nat.le_of_not_lt hlt⟩)
    | read fd answer =>
      cases answer with
      | closed =>
        have hmem : fd ∈ s.clientsFd := by
          rw [clientsFd_of_head he.2.1]
          exact List.mem_append_right _ List.mem_cons_self
        exact Or.inl (by simp only [exec, fdClr, if_pos (hb.watched fd hmem).2.2.1]; exact ⟨_, rfl⟩)
      | bytes data written | failed => exact Or.inl ⟨_, rfl⟩
    | select ready | selectFailed | noConnection | skip fd | next => exact Or.inl ⟨_, rfl⟩

/-- The server before its first `select`, with what `active_fds` holds. -/
def atStart (sockfd : Nat) (active : Nat → Bool) : Server :=
  ⟨active, fun fd => fd == sockfd, sockfd, [], [], .selecting, []⟩

theorem atStart_start (sockfd : Nat) (active : Nat → Bool) : (selectLoop sockfd).start (atStart sockfd active) :=
  ⟨rfl, rfl, rfl, rfl, rfl⟩

theorem run_of_follow {s t : Server}
    (hs : System.follow Server.exec (fun s i => decide (s.Enabled sockfd i)) s h = some t) :
    (selectLoop sockfd).Run s h t :=
  System.Run.of_follow (fun _ _ _ hok hexec => And.intro (of_decide_eq_true hok) hexec) hs

/-- A client that is accepted, and skipped, for nothing has come from it. -/
theorem clients_watched_one : ∃ s h, h = [.next, .skip 5, .accept (some 5), .select [3]] ∧
    (selectLoop 3).Run (atStart 3 (· == 3)) h s ∧ s.clientsFd = [5] ∧ s.activeFds 5 = true ∧ 5 < s.maxFd + 1 := by
  obtain ⟨s, hs⟩ : ∃ s, System.follow Server.exec (fun s i => decide (s.Enabled 3 i)) (atStart 3 (· == 3))
      [.next, .skip 5, .accept (some 5), .select [3]] = some s := Option.isSome_iff_exists.mp (by decide)
  have hclients : s.clientsFd = [5] := by
    cases hs
    rfl
  obtain ⟨-, -, hwatched, -⟩ := clients_watched (atStart_start 3 (· == 3)) (run_of_follow hs)
  obtain ⟨hbit, -, hmax⟩ := hwatched 5 (hclients ▸ List.mem_cons_self)
  exact ⟨s, _, rfl, run_of_follow hs, hclients, hbit, hmax⟩

/-! ## The listener -/

/-- **Whether anyone is ever accepted** is what `active_fds` held before it was set: `select` is asked about
    `sockfd` if that bit was there, and if it was not, no connection is accepted in any run. -/
theorem accepts_iff {sockfd : Nat} {s₀ s : Server} {h : List Step} (hstart : (selectLoop sockfd).start s₀)
    (hrun : (selectLoop sockfd).Run s₀ h s) :
    (s.main = .selecting → (s.Enabled sockfd (.select [sockfd]) ↔ s₀.activeFds sockfd = true)) ∧
      (s₀.activeFds sockfd = false → (∀ client, .accept client ∉ h) ∧ s.clientsFd = [] ∧ s.calls = []) := by
  constructor
  · intro hmain
    have hlistener := (books hstart hrun).listener
    simp [Enabled, hmain, hlistener]
  · intro hoff
    refine (hrun.invariant (I := fun h s => Books sockfd s₀.activeFds s ∧
      (∀ client, .accept client ∉ h) ∧ s.clientsFd = [] ∧ s.calls = []) ?_ ⟨.start hstart, ?_⟩).2
    · rintro h t i u ⟨hb, hno, hclients, hcalls⟩ ⟨he, hexec⟩
      have hrest : t.rest = [] := (List.append_eq_nil_iff.mp hclients).2
      refine ⟨hb.step he hexec, ?_⟩
      cases i with
      | accept client =>
        have hon := hb.reported he.1 he.2.1
        rw [hoff] at hon
        cases hon
      | read fd answer =>
        have hhead := he.2.1
        rw [hrest] at hhead
        cases hhead
      | skip fd =>
        have hhead := he.2.1
        rw [hrest] at hhead
        cases hhead
      | select ready | selectFailed | noConnection =>
        cases hexec
        exact ⟨fun client hmem => hno client ((List.mem_cons.mp hmem).resolve_left (by simp)), hclients, hcalls⟩
      | next =>
        cases hexec
        refine ⟨fun client hmem => hno client ((List.mem_cons.mp hmem).resolve_left (by simp)), ?_, hcalls⟩
        exact (List.append_eq_nil_iff.mp hclients).1
    · obtain ⟨-, hpassed, hrest, -, hcalls⟩ := hstart
      exact ⟨fun _ => List.not_mem_nil, by rw [clientsFd, hpassed, hrest]; rfl, hcalls⟩

/-- `active_fds` all zero, as a fresh page is: nobody is waited for. -/
theorem accepts_iff_zero : ∃ s, (selectLoop 3).Run (atStart 3 fun _ => false) [.next, .noConnection, .select []] s ∧
    s.calls = [] := by
  obtain ⟨s, hs⟩ : ∃ s, System.follow Server.exec (fun s i => decide (s.Enabled 3 i)) (atStart 3 fun _ => false)
      [.next, .noConnection, .select []] = some s := Option.isSome_iff_exists.mp (by decide)
  exact ⟨s, run_of_follow hs, ((accepts_iff (atStart_start 3 _) (run_of_follow hs)).2 rfl).2.2⟩

/-! ## A round -/

/-- The client that a step reads from. -/
def Step.reads : Step → Option Nat
  | .read fd _ => some fd
  | _ => none

/-- What a step of the loop over the clients asks of the kernel. -/
def Step.call : Step → Option KernelCall
  | .read fd (.bytes data _) => some (.write fd (greeting ++ data))
  | .read fd .closed => some (.close fd)
  | _ => none

/-- In the loop over the clients, begun in `t`: those passed have been read from if they were ready, and are
    still in the vector if they were not closed. -/
structure Scan (t : Server) (h : List Step) (u : Server) : Prop where
  ready : u.readFds = t.readFds
  read : (h.filterMap Step.reads).reverse ++ u.rest.filter t.readFds = t.clientsFd.filter t.readFds
  kept : ∃ seen, t.clientsFd = seen ++ u.rest ∧ u.passed = seen.filter fun fd => .read fd .closed ∉ h
  fresh : ∀ fd ∈ u.rest, .read fd .closed ∉ h
  calls : u.calls = h.filterMap Step.call ++ t.calls

theorem Scan.step {t u : Server} (hsc : Scan t h u) (hnodup : t.clientsFd.Nodup) {i : Step}
    (he : u.Enabled sockfd i) (hexec : u.exec i = .ok s) (hu : u.main = .scanning) (hs : s.main = .scanning)
    (hi : i ≠ .next) : Scan t (i :: h) s := by
  obtain ⟨hready, hread, ⟨seen, hseen, hpassed⟩, hfresh, hcalls⟩ := hsc
  have hhead : ∀ {fd}, u.rest.head? = some fd → ∃ rest, u.rest = fd :: rest ∧ fd ∉ seen ∧ fd ∉ rest := by
    intro fd hfd
    have hcons := List.eq_cons_of_mem_head? hfd
    rw [hseen, hcons] at hnodup
    have hsplit := (List.nodup_append.mp hnodup)
    exact ⟨_, hcons, fun hmem => hsplit.2.2 fd hmem fd List.mem_cons_self rfl, (List.nodup_cons.mp hsplit.2.1).1⟩
  cases i with
  | read fd answer =>
    obtain ⟨rest, hrest, hnew, hlast⟩ := hhead he.2.1
    have hbit : t.readFds fd = true := hready ▸ he.2.2.1
    have hread' : ((Step.read fd answer :: h).filterMap Step.reads).reverse ++ rest.filter t.readFds =
        t.clientsFd.filter t.readFds := by
      rw [← hread, hrest, List.filter_cons_of_pos hbit]
      simp [Step.reads]
    have hseen' : t.clientsFd = (seen ++ [fd]) ++ rest := by rw [hseen, hrest, List.append_assoc]; rfl
    have hother : ∀ x, x ≠ fd → (Step.read x .closed ∉ Step.read fd answer :: h ↔ Step.read x .closed ∉ h) := by
      intro x hne
      simp [hne]
    have hfresh' : ∀ x ∈ rest, Step.read x .closed ∉ Step.read fd answer :: h := by
      intro x hx
      rw [hother x (fun heq => hlast (heq ▸ hx))]
      exact hfresh x (hrest ▸ List.mem_cons_of_mem _ hx)
    have hkept : seen.filter (fun x => Step.read x .closed ∉ Step.read fd answer :: h) = u.passed := by
      rw [hpassed]
      exact List.filter_congr fun x hx => by simp only [hother x (fun heq => hnew (heq ▸ hx))]
    have htail : u.rest.tail = rest := by rw [hrest]; rfl
    cases answer with
    | bytes data written =>
      cases hexec
      refine ⟨hready, htail.symm ▸ hread', ⟨seen ++ [fd], htail.symm ▸ hseen', ?_⟩, htail.symm ▸ hfresh', ?_⟩
      · have hopen : Step.read fd .closed ∉ h := hfresh fd (hrest ▸ List.mem_cons_self)
        rw [List.filter_append, hkept]
        simp [hopen]
      · show _ :: u.calls = _
        rw [hcalls]
        rfl
    | closed =>
      obtain rfl := exec_closed hexec
      refine ⟨hready, htail.symm ▸ hread', ⟨seen ++ [fd], htail.symm ▸ hseen', ?_⟩, htail.symm ▸ hfresh', ?_⟩
      · rw [List.filter_append, hkept]
        simp
      · show _ :: u.calls = _
        rw [hcalls]
        rfl
    | failed =>
      cases hexec
      cases hs
  | skip fd =>
    obtain ⟨rest, hrest, hnew, hlast⟩ := hhead he.2.1
    have hbit : ¬ t.readFds fd = true := by rw [← hready, he.2.2]; exact Bool.false_ne_true
    have htail : u.rest.tail = rest := by rw [hrest]; rfl
    have hother : ∀ x, Step.read x .closed ∉ Step.skip fd :: h ↔ Step.read x .closed ∉ h := by
      intro x
      simp
    cases hexec
    refine ⟨hready, ?_, ⟨seen ++ [fd], ?_, ?_⟩, ?_, ?_⟩
    · rw [← hread, hrest, List.filter_cons_of_neg hbit]
      rfl
    · show _ = _ ++ u.rest.tail
      rw [hseen, htail, hrest, List.append_assoc]
      rfl
    · have hopen : Step.read fd .closed ∉ h := hfresh fd (hrest ▸ List.mem_cons_self)
      show u.passed ++ [fd] = _
      simp only [hother, List.filter_append, hpassed]
      simp [hopen]
    · intro x hx
      rw [hother]
      exact hfresh x (List.mem_of_mem_tail hx)
    · exact hcalls
  | next => exact absurd rfl hi
  | select ready =>
    rw [he.1] at hu
    cases hu
  | selectFailed =>
    rw [show u.main = .selecting from he] at hu
    cases hu
  | accept client | noConnection =>
    rw [he.1] at hu
    cases hu

/-- The program has ended. -/
def Ended (s : Server) : Prop := s.main = .exited ∨ s.main = .terminated

theorem Ended.not_enabled (hs : s.Ended) {i : Step} : ¬ s.Enabled sockfd i := by
  intro he
  have hmain : s.main = .selecting ∨ s.main = .accepting ∨ s.main = .scanning := by
    cases i with
    | selectFailed => exact Or.inl he
    | select ready => exact Or.inl he.1
    | accept client | noConnection => exact Or.inr (Or.inl he.1)
    | read fd answer | skip fd | next => exact Or.inr (Or.inr he.1)
  rcases hs with hs | hs <;> simp [hs] at hmain

/-- The loop over the clients goes on, or the program ends. -/
theorem scanning_step {i : Step} (hs : s.main = .scanning) (he : s.Enabled sockfd i) (hexec : s.exec i = .ok s')
    (hi : i ≠ .next) : s'.main = .scanning ∨ s'.Ended := by
  cases i with
  | read fd answer =>
    cases answer with
    | bytes data written =>
      cases hexec
      cases written
      · exact Or.inr (Or.inl rfl)
      · exact Or.inl hs
    | closed =>
      obtain rfl := exec_closed hexec
      exact Or.inl hs
    | failed =>
      cases hexec
      exact Or.inr (Or.inr rfl)
  | skip fd =>
    cases hexec
    exact Or.inl hs
  | next => exact absurd rfl hi
  | selectFailed => rw [show s.main = .selecting from he] at hs; cases hs
  | select ready | accept client | noConnection => rw [he.1] at hs; cases hs

/-- **A round serves whom `select` named**, whatever is read: when the loop over the clients has come to the end
    of the vector, each client that was ready has been read from once, in the vector's order, and no other; each
    has been sent what it sent, with the greeting before it, or been closed; and the vector is as it was but for
    those. -/
theorem scan_serves {sockfd : Nat} {s₀ t u : Server} {h h' : List Step} (hstart : (selectLoop sockfd).start s₀)
    (hrun : (selectLoop sockfd).Run s₀ h t) (hscan : t.main = .scanning) (hpassed : t.passed = [])
    (hrun' : (selectLoop sockfd).Run t h' u) (hround : .next ∉ h') (hend : u.Enabled sockfd .next) :
    (h'.filterMap Step.reads).reverse = t.clientsFd.filter t.readFds ∧
      u.clientsFd = t.clientsFd.filter (fun fd => .read fd .closed ∉ h') ∧
      u.calls = h'.filterMap Step.call ++ t.calls := by
  have hnodup := (books hstart hrun).nodup
  have hall := hrun'.invariant (I := fun h' u => .next ∉ h' → (u.main = .scanning ∧ Scan t h' u) ∨ u.Ended) ?_
    (fun _ => Or.inl ⟨hscan, rfl, by rw [clientsFd, hpassed]; rfl,
      ⟨[], by rw [clientsFd, hpassed], by rw [hpassed]; rfl⟩, fun _ _ => List.not_mem_nil, rfl⟩)
  · rcases hall hround with ⟨-, hsc⟩ | hended
    · obtain ⟨seen, hseen, hkept⟩ := hsc.kept
      have hrest : u.rest = [] := hend.2
      have hread := hsc.read
      rw [hrest, List.filter_nil, List.append_nil] at hread
      rw [hrest, List.append_nil] at hseen
      exact ⟨hread, by rw [clientsFd, hrest, List.append_nil, hkept, hseen], hsc.calls⟩
    · exact absurd hend hended.not_enabled
  · rintro h v i w ih ⟨he, hexec⟩ hno
    obtain ⟨hi, hno⟩ := not_or.mp fun hmem => hno (List.mem_cons.mpr hmem)
    rcases ih hno with ⟨hmain, hsc⟩ | hended
    · rcases scanning_step hmain he hexec (Ne.symm hi) with hmain' | hended
      · exact Or.inl ⟨hmain', hsc.step hnodup he hexec hmain hmain' (Ne.symm hi)⟩
      · exact Or.inr hended
    · exact absurd he hended.not_enabled

/-- Two clients, of whom the second is ready when both are in the vector. -/
theorem scan_serves_two : ∃ t u h', h' = [.read 6 .closed, .skip 5] ∧ (selectLoop 3).Run t h' u ∧
    t.clientsFd = [5, 6] ∧ u.clientsFd = [5] := by
  obtain ⟨t, ht⟩ : ∃ t, System.follow Server.exec (fun s i => decide (s.Enabled 3 i)) (atStart 3 (· == 3))
      [.noConnection, .select [6], .next, .skip 6, .skip 5, .accept (some 6), .select [3], .next, .skip 5,
        .accept (some 5), .select [3]] = some t := Option.isSome_iff_exists.mp (by decide)
  obtain ⟨u, hu⟩ : ∃ u, System.follow Server.exec (fun s i => decide (s.Enabled 3 i)) t
      [.read 6 .closed, .skip 5] = some u := by
    cases ht
    exact Option.isSome_iff_exists.mp (by decide)
  have hscan : t.main = .scanning ∧ t.passed = [] ∧ t.clientsFd = [5, 6] := by
    cases ht
    exact ⟨rfl, rfl, rfl⟩
  have hend : u.Enabled 3 .next := by
    cases ht
    cases hu
    decide
  obtain ⟨-, hclients, -⟩ := scan_serves (atStart_start 3 (· == 3)) (run_of_follow ht) hscan.1 hscan.2.1 (run_of_follow hu)
    (by decide) hend
  refine ⟨t, u, _, rfl, run_of_follow hu, hscan.2.2, ?_⟩
  rw [hclients, hscan.2.2]
  decide

end Server

end MiniSelect
end LinuxServer
