import LinuxServer.WebServer.MainLoop
import Mathlib.Data.Fintype.EquivFin
import Mathlib.Data.List.Perm.Subperm

/-!
# `WebServer/Slots.lean` — the numbers of the client descriptors, and the length of the tables

`users` and `users_timer` have `MAX_FD` slots, and `timer` takes the slot whose index is the descriptor.
What `dealclientdata` compares with `MAX_FD` is `m_user_count`, and the two are not the same number: the
descriptors the server has besides its clients are counted by nobody, and `accept` answers the lowest number
that is not in use. So as soon as one of those is below `MAX_FD`, the table is left before the count is
reached.

What keeps the index in range is the process's limit on descriptors, and nothing else does
(`inRange_iff`).
-/

set_option autoImplicit false

namespace LinuxServer
namespace WebServer

open Timer

/-- The server's process: the main thread's state, and the descriptors that are open for a time besides,
    such as a file that a worker maps. -/
structure Process where
  server : State
  others : List Nat

namespace Process

inductive Step
  | event (e : Event)
  | openFile (fd : Nat)
  | closeFile (fd : Nat)
  deriving DecidableEq, Repr

/-- `own` is what the server holds for its lifetime. -/
def InUse (own : List Nat) (q : Process) (fd : Nat) : Prop :=
  fd ∈ own ∨ fd ∈ q.server.openFds ∨ fd ∈ q.others

/-- What the kernel answers when a descriptor is asked for, of a process that may have `limit`. -/
def Lowest (limit : Nat) (own : List Nat) (q : Process) (fd : Nat) : Prop :=
  fd < limit ∧ ¬ q.InUse own fd ∧ ∀ fd' < fd, q.InUse own fd'

def Takes (limit : Nat) (own : List Nat) (q : Process) : Step → Process → Prop
  | .event e, q' =>
    (∀ connfd p cur, e = .connect connfd p cur → q.Lowest limit own connfd) ∧
      eventLoop.step q.server e q'.server ∧ q'.others = q.others
  | .openFile fd, q' => q.Lowest limit own fd ∧ q' = { q with others := fd :: q.others }
  | .closeFile fd, q' => fd ∈ q.others ∧ q' = { q with others := q.others.erase fd }

end Process

/-- The process, from the start of the event loop on. -/
def process (limit : Nat) (own : List Nat) : System Process Process.Step where
  start q := eventLoop.start q.server ∧ q.others = []
  step q i q' := q.Takes limit own i q'

/-- Every descriptor that `dealclientdata` gives to `timer`, in any run, is an index of the tables. -/
def InRange (limit : Nat) (own : List Nat) : Prop :=
  ∀ q₀ h q connfd p cur q', (process limit own).start q₀ → (process limit own).Run q₀ h q →
    (process limit own).step q (.event (.connect connfd p cur)) q' → q.server.userCount < maxFd →
    (connfd : Int) < maxFd

namespace Process

section
variable {limit m x fd : Nat} {own : List Nat} {q q' : Process}

/-! ## The lowest number -/

/-- Below a number that is free there is a lowest one. -/
theorem exists_lowest (hfree : ¬ q.InUse own fd) (hlt : fd < limit) :
    ∃ fd' ≤ fd, q.Lowest limit own fd' := by
  classical
  have hex : ∃ k, ¬ q.InUse own k := ⟨fd, hfree⟩
  have hle : Nat.find hex ≤ fd := Nat.find_min' hex hfree
  refine ⟨Nat.find hex, hle, Nat.lt_of_le_of_lt hle hlt, Nat.find_spec hex, ?_⟩
  intro fd' hfd'
  exact not_not.mp (Nat.find_min hex hfd')

/-- Different numbers below `m`, with one left out. -/
theorem length_lt_of_avoids {l : List Nat} (hnodup : l.Nodup) (hlt : ∀ a ∈ l, a < m) (hx : x < m)
    (hnot : x ∉ l) : l.length < m := by
  have hsub : x :: l ⊆ List.range m := by
    intro a ha
    rcases List.mem_cons.mp ha with rfl | ha
    · exact List.mem_range.mpr hx
    · exact List.mem_range.mpr (hlt a ha)
  have hle := ((List.nodup_cons.mpr ⟨hnot, hnodup⟩).subperm hsub).length_le
  rw [List.length_cons, List.length_range] at hle
  exact hle

/-! ## Filling the table

One after another, clients take all the numbers below `m` that are free. One is not, and belongs to no
client: so the count stays below `m` until the last of them. -/

structure Filling (m : Nat) (own : List Nat) (x : Nat) (q : Process) : Prop where
  accounts : ∃ l, Accounts q.server l
  below : ∀ fd ∈ q.server.openFds, fd < m
  others : ∀ fd ∈ q.others, fd < m
  held : x < m ∧ (x ∈ own ∨ x ∈ q.others)
  apart : x ∉ q.server.openFds

theorem Filling.length_lt (hq : q.Filling m own x) : q.server.openFds.length < m := by
  obtain ⟨l, hl⟩ := hq.accounts
  exact length_lt_of_avoids hl.nodup hq.below hq.held.1 hq.apart

theorem Filling.userCount_lt (hq : q.Filling m own x) (hm : maxFd = m) : q.server.userCount < maxFd := by
  obtain ⟨l, hl⟩ := hq.accounts
  rw [hl.count, hm]
  exact Int.ofNat_lt.mpr hq.length_lt

/-- There is always an address for another timer, so that a client is never refused for want of one. -/
theorem Filling.connect (hq : q.Filling m own x) (hm : maxFd = m) (hfd : q.Lowest limit own fd) :
    ∃ p q', (process limit own).step q (.event (.connect fd p 0)) q' ∧
      (∃ l, Accounts q'.server l) ∧ q'.server.openFds = fd :: q.server.openFds ∧ q'.others = q.others := by
  obtain ⟨l, hl⟩ := hq.accounts
  obtain ⟨p, hp⟩ := Infinite.exists_notMem_finset l.toFinset
  have hnew : q.server.timerLst.data p = none := by
    cases hdata : q.server.timerLst.data p with
    | none => rfl
    | some d => exact absurd (List.mem_toFinset.mpr ((hl.listed.mem p).mpr ⟨d, hdata⟩)) hp
  have hclosed : fd ∉ q.server.openFds := fun hmem => hfd.2.1 (.inr (.inl hmem))
  obtain ⟨w', hw', ⟨-, l', hl', hopen, -⟩ | ⟨hfull, -⟩⟩ := hl.connect hclosed hnew 0
  · refine ⟨p, ⟨w', q.others⟩, ⟨?_, ⟨⟨hclosed, hnew⟩, hw'⟩, rfl⟩, ⟨l', hl'⟩, hopen, rfl⟩
    intro connfd p' cur heq
    cases heq
    exact hfd
  · exact absurd (hq.userCount_lt hm) (not_lt.mpr hfull)

theorem Filling.step (hq : q.Filling m own x) (hm : maxFd = m) (hfd : q.Lowest limit own fd) (hlt : fd < m) :
    ∃ i q', (process limit own).step q i q' ∧ q'.Filling m own x ∧
      q'.server.openFds.length = q.server.openFds.length + 1 := by
  obtain ⟨p, q', hstep, haccounts, hopen, hothers⟩ := hq.connect hm hfd
  refine ⟨_, q', hstep, ⟨haccounts, ?_, ?_, ?_, ?_⟩, ?_⟩
  · rw [hopen]
    exact List.forall_mem_cons.mpr ⟨hlt, hq.below⟩
  · rw [hothers]
    exact hq.others
  · rw [hothers]
    exact hq.held
  · rw [hopen]
    intro hmem
    rcases List.mem_cons.mp hmem with rfl | hmem
    · exact hfd.2.1 (hq.held.2.imp_right .inr)
    · exact hq.apart hmem
  · rw [hopen, List.length_cons]

/-- A run from `q` with all numbers below `m` in use at its end. -/
theorem Filling.run (hq : q.Filling m own x) (hm : maxFd = m) (hlimit : m ≤ limit) :
    ∃ h q', (process limit own).Run q h q' ∧ q'.Filling m own x ∧ ∀ fd < m, q'.InUse own fd := by
  induction hk : m - q.server.openFds.length generalizing q with
  | zero => exact absurd hq.length_lt (by omega)
  | succ k ih =>
    by_cases hall : ∀ fd < m, q.InUse own fd
    · exact ⟨[], q, .nil q, hq, hall⟩
    · push Not at hall
      obtain ⟨fd, hlt, hfree⟩ := hall
      obtain ⟨fd', hle, hfd'⟩ := exists_lowest hfree (Nat.lt_of_lt_of_le hlt hlimit)
      obtain ⟨i, q₁, hstep, hq₁, hlength⟩ := hq.step hm hfd' (Nat.lt_of_le_of_lt hle hlt)
      obtain ⟨h, q', hrun, hq', hfull⟩ := ih hq₁ (by omega)
      exact ⟨h ++ [i], q', (System.Run.step (.nil q) hstep).append hrun, hq', hfull⟩

/-- The client behind the last that has a slot. -/
theorem Filling.overflow {y : Nat} (hq : q.Filling m own x) (hm : maxFd = m) (hle : m ≤ y) (hlt : y < limit)
    (hfree : y ∉ own) :
    ∃ h q₁ connfd p q', (process limit own).Run q h q₁ ∧
      (process limit own).step q₁ (.event (.connect connfd p 0)) q' ∧ q₁.server.userCount < maxFd ∧
      maxFd ≤ connfd := by
  obtain ⟨h, q₁, hrun, hq₁, hfull⟩ := hq.run hm (Nat.le_of_lt (Nat.lt_of_le_of_lt hle hlt))
  have hnot : ¬ q₁.InUse own y := by
    intro hin
    rcases hin with hmem | hmem | hmem
    · exact hfree hmem
    · exact absurd (hq₁.below y hmem) (Nat.not_lt.mpr hle)
    · exact absurd (hq₁.others y hmem) (Nat.not_lt.mpr hle)
  obtain ⟨connfd, -, hlowest⟩ := exists_lowest hnot hlt
  obtain ⟨p, q', hstep, -⟩ := hq₁.connect hm hlowest
  refine ⟨h, q₁, connfd, p, q', hrun, hstep, hq₁.userCount_lt hm, ?_⟩
  rw [hm]
  refine Int.ofNat_le.mpr (Nat.le_of_not_lt ?_)
  intro hless
  exact hlowest.2.1 (hfull connfd hless)

/-! ## From the start -/

/-- The loop with no client yet. -/
def atStart : Process := ⟨⟨SortTimerLst.empty, fun _ => ⟨0, none⟩, 0, [], []⟩, []⟩

theorem atStart_start : (process limit own).start atStart := ⟨⟨rfl, rfl, rfl, rfl⟩, rfl⟩

theorem atStart_filling (hx : x < m) (hown : x ∈ own) : atStart.Filling m own x where
  accounts := ⟨[], Accounts.start ⟨rfl, rfl, rfl, rfl⟩⟩
  below := List.forall_mem_nil _
  others := List.forall_mem_nil _
  held := ⟨hx, .inl hown⟩
  apart := List.not_mem_nil

/-- Where none of its own descriptors is below `m`, the server opens a file. -/
theorem exists_filling (hlimit : m < limit) (hpos : 0 < m) :
    ∃ x h q, (process limit own).Run atStart h q ∧ q.Filling m own x := by
  by_cases hown : 0 ∈ own
  · exact ⟨0, [], atStart, .nil _, atStart_filling hpos hown⟩
  · have hfree : ¬ atStart.InUse own 0 := by
      intro hin
      rcases hin with hmem | hmem | hmem
      · exact hown hmem
      · cases hmem
      · cases hmem
    have hlowest : atStart.Lowest limit own 0 :=
      ⟨Nat.lt_trans hpos hlimit, hfree, fun _ hlt => absurd hlt (Nat.not_lt_zero _)⟩
    refine ⟨0, [.openFile 0], { atStart with others := [0] }, .step (.nil _) ⟨hlowest, rfl⟩, ?_⟩
    exact {
      accounts := ⟨[], Accounts.start ⟨rfl, rfl, rfl, rfl⟩⟩
      below := List.forall_mem_nil _
      others := List.forall_mem_singleton.mpr hpos
      held := ⟨hpos, .inr (List.mem_singleton_self 0)⟩
      apart := List.not_mem_nil }

end

end Process

/-- **The indices are in range** if and only if the process cannot have a descriptor from `MAX_FD` on, but
    for what the server holds for its lifetime. -/
theorem inRange_iff (limit : Nat) (own : List Nat) :
    InRange limit own ↔ ∀ fd : Nat, maxFd ≤ fd → fd < limit → fd ∈ own := by
  have hm : maxFd = (65536 : Nat) := rfl
  constructor
  · intro hrange fd hle hlt
    by_contra hfree
    have hle' : 65536 ≤ fd := Int.ofNat_le.mp (hm ▸ hle)
    obtain ⟨x, h, q, hrun, hq⟩ : ∃ x h q, (process limit own).Run Process.atStart h q ∧ q.Filling 65536 own x :=
      Process.exists_filling (Nat.lt_of_le_of_lt hle' hlt) (Nat.succ_pos _)
    obtain ⟨h', q₁, connfd, p, q', hrun', hstep, hcount, hout⟩ := hq.overflow hm hle' hlt hfree
    have hin := hrange Process.atStart (h' ++ h) q₁ connfd p 0 q' Process.atStart_start
      (hrun.append hrun') hstep hcount
    exact absurd hin (not_lt.mpr hout)
  · intro hown q₀ h q connfd p cur q' _ _ hstep _
    obtain ⟨hlt, hfree, -⟩ := hstep.1 connfd p cur rfl
    by_contra hout
    exact hfree (.inl (hown connfd (not_lt.mp hout) hlt))

/-- A limit of one descriptor more than there are slots, and one descriptor of the server's own. -/
theorem not_inRange_one : ¬ InRange 65537 [0] := by
  intro hrange
  have hm : maxFd = (65536 : Nat) := rfl
  have hq : Process.atStart.Filling 65536 [0] 0 :=
    Process.atStart_filling (Nat.succ_pos _) (List.mem_singleton_self 0)
  have hlast : 65536 < 65537 := Nat.lt_succ_self _
  obtain ⟨h, q₁, connfd, p, q', hrun, hstep, hcount, hout⟩ :=
    hq.overflow hm (Nat.le_refl _) hlast (by decide)
  exact absurd (hrange Process.atStart h q₁ connfd p 0 q' Process.atStart_start hrun hstep hcount)
    (not_lt.mpr hout)

end WebServer
end LinuxServer
