import LinuxServer.Lib.System
import Mathlib.Logic.Function.Basic

/-!
# `CppServer/Epoll.lean` — the channels of the event loops, and what epoll knows of them

A `Channel` remembers in `inEpoll` whether its descriptor is registered, and `updateChannel` and
`deleteChannel` go by it: they add what is not registered yet and modify what is. Nobody reads the
kernel's list back. `Agrees` says that the flag is right, that the events registered are those of the
channel, and that no `epoll_ctl` has failed.

Nine operations on a channel end in `updateChannel` and keep this, as `deleteChannel` does.
`EventLoop::addChannel` registers the descriptor and leaves the flag alone: the runs in which everything
agrees are the ones without it (`agrees_iff`).
-/

set_option autoImplicit false

namespace LinuxServer

/-! ## `<sys/epoll.h>` -/

def epollIn : BitVec 32 := 0x001

def epollPri : BitVec 32 := 0x002

def epollOut : BitVec 32 := 0x004

def epollEt : BitVec 32 := 1 <<< 31

/-- `epoll_event`, with the channel its `data.ptr` is. -/
structure EpollEvent (C : Type) where
  ptr : C
  events : BitVec 32
  deriving DecidableEq, Repr

inductive CtlOp
  | add
  | mod
  | del
  deriving DecidableEq, Repr

/-- `Channel`: the loop it belongs to, by `L`, and what it tells epoll. -/
structure Channel (L : Type) where
  loop : L
  fd : Int
  listenEvents : BitVec 32
  inEpoll : Bool
  deriving DecidableEq, Repr

/-- The channels `C` of some event loops `L`, what the kernel has registered for each loop and
    descriptor, and how many calls of `epoll_ctl` have failed. -/
structure Reactors (L C : Type) where
  channels : C → Channel L
  interest : L × Int → Option (EpollEvent C)
  failed : Nat

namespace Reactors

variable {L C : Type}

/-- Where the kernel keeps a channel. -/
def key (r : Reactors L C) (c : C) : L × Int := ((r.channels c).loop, (r.channels c).fd)

section
variable [DecidableEq L] [DecidableEq C]

/-! ## The calls -/

/-- `epoll_ctl`, and whether it succeeds. -/
def ctl (r : Reactors L C) (op : CtlOp) (loop : L) (fd : Int) (event : Option (EpollEvent C)) :
    Bool × Reactors L C :=
  if op = .add ↔ r.interest (loop, fd) = none then
    (true, { r with interest := Function.update r.interest (loop, fd) event })
  else (false, { r with failed := r.failed + 1 })

def setListenEvents (r : Reactors L C) (c : C) (events : BitVec 32) : Reactors L C :=
  { r with channels := Function.update r.channels c { r.channels c with listenEvents := events } }

def setInEpoll (r : Reactors L C) (c : C) (is_in : Bool) : Reactors L C :=
  { r with channels := Function.update r.channels c { r.channels c with inEpoll := is_in } }

/-- `Epoll::updateChannel`, which does not look at what `epoll_ctl` returns. -/
def updateChannel (r : Reactors L C) (c : C) : Reactors L C :=
  let channel := r.channels c
  let event := some ⟨c, channel.listenEvents⟩
  if channel.inEpoll then (r.ctl .mod channel.loop channel.fd event).2
  else (r.ctl .add channel.loop channel.fd event).2.setInEpoll c true

/-- `Epoll::deleteChannel`. -/
def deleteChannel (r : Reactors L C) (c : C) : Reactors L C :=
  let channel := r.channels c
  let r := if channel.inEpoll then (r.ctl .del channel.loop channel.fd none).2 else r
  r.setInEpoll c false

/-- `Epoll::addfd` of three arguments. -/
def addfd (r : Reactors L C) (loop : L) (fd : Int) (ptr : C) (op : BitVec 32) :
    Except String (Reactors L C) :=
  let called := r.ctl .add loop fd (some ⟨ptr, op⟩)
  if called.1 then .ok called.2 else .error "Failed to add file descriptor to epoll"

/-- `EventLoop::addChannel`. -/
def addChannel (r : Reactors L C) (c : C) : Except String (Reactors L C) :=
  r.addfd (r.channels c).loop (r.channels c).fd c (r.channels c).listenEvents

/-! ## The operations of a channel -/

/-- What all of them are: `listenEvents` is changed, and the loop is told. -/
def listen (r : Reactors L C) (c : C) (change : BitVec 32 → BitVec 32) : Reactors L C :=
  (r.setListenEvents c (change (r.channels c).listenEvents)).updateChannel c

def enableReadAndET (r : Reactors L C) (c : C) : Reactors L C :=
  r.listen c (· ||| (epollIn ||| epollPri ||| epollEt))

def enableRead (r : Reactors L C) (c : C) : Reactors L C := r.listen c (· ||| (epollIn ||| epollPri))

def enableWrite (r : Reactors L C) (c : C) : Reactors L C := r.listen c (· ||| epollOut)

def enableET (r : Reactors L C) (c : C) : Reactors L C := r.listen c (· ||| epollEt)

def disableRead (r : Reactors L C) (c : C) : Reactors L C := r.listen c (· &&& ~~~(epollIn ||| epollPri))

def disableWrite (r : Reactors L C) (c : C) : Reactors L C := r.listen c (· &&& ~~~epollOut)

def disableET (r : Reactors L C) (c : C) : Reactors L C := r.listen c (· &&& ~~~epollEt)

def disableOpts (r : Reactors L C) (c : C) (opts : BitVec 32) : Reactors L C := r.listen c (· &&& ~~~opts)

def enableOpts (r : Reactors L C) (c : C) (opts : BitVec 32) : Reactors L C := r.listen c (· ||| opts)

inductive Op (C : Type)
  | addChannel (c : C)
  | enableReadAndET (c : C)
  | enableRead (c : C)
  | enableWrite (c : C)
  | enableET (c : C)
  | disableRead (c : C)
  | disableWrite (c : C)
  | disableET (c : C)
  | disableOpts (c : C) (opts : BitVec 32)
  | enableOpts (c : C) (opts : BitVec 32)
  | deleteChannel (c : C)
  deriving DecidableEq, Repr

def exec (r : Reactors L C) : Op C → Except String (Reactors L C)
  | .addChannel c => r.addChannel c
  | .enableReadAndET c => .ok (r.enableReadAndET c)
  | .enableRead c => .ok (r.enableRead c)
  | .enableWrite c => .ok (r.enableWrite c)
  | .enableET c => .ok (r.enableET c)
  | .disableRead c => .ok (r.disableRead c)
  | .disableWrite c => .ok (r.disableWrite c)
  | .disableET c => .ok (r.disableET c)
  | .disableOpts c opts => .ok (r.disableOpts c opts)
  | .enableOpts c opts => .ok (r.enableOpts c opts)
  | .deleteChannel c => .ok (r.deleteChannel c)

/-- `addChannel` is called on what is not registered. -/
def Enabled (r : Reactors L C) : Op C → Prop
  | .addChannel c => r.interest (r.key c) = none
  | _ => True

end

/-- Whether an operation is `addChannel`. -/
def Op.isAdd : Op C → Bool
  | .addChannel _ => true
  | _ => false

/-- Every channel has a descriptor of its own. -/
def Distinct (r : Reactors L C) : Prop := ∀ c c', (r.channels c).fd = (r.channels c').fd → c = c'

/-- **Agreement** of the channels and the kernel. -/
structure Agrees (r : Reactors L C) : Prop where
  listed : ∀ c, (r.interest (r.key c)).isSome = (r.channels c).inEpoll
  events : ∀ c event, r.interest (r.key c) = some event → event = ⟨c, (r.channels c).listenEvents⟩
  succeeded : r.failed = 0

end Reactors

/-- Channels as they are constructed, none of them registered, and any operations on them. -/
def reactors (L C : Type) [DecidableEq L] [DecidableEq C] : System (Reactors L C) (Reactors.Op C) where
  start r := r.Distinct ∧ r.failed = 0 ∧ ∀ c, r.interest (r.key c) = none ∧
    (r.channels c).listenEvents = 0 ∧ (r.channels c).inEpoll = false
  step r op r' := r.Enabled op ∧ r.exec op = .ok r'

namespace Reactors

section
variable {L C : Type} [DecidableEq L] [DecidableEq C] {r r' s t : Reactors L C} {c : C} {h : List (Op C)}

/-! ## What the calls do where the flag is right -/

/-- A channel whose events are these, registered or not. -/
def put (r : Reactors L C) (c : C) (events : BitVec 32) (is_in : Bool) : Reactors L C :=
  { r with
    channels := Function.update r.channels c { r.channels c with listenEvents := events, inEpoll := is_in }
    interest := Function.update r.interest (r.key c) (if is_in then some ⟨c, events⟩ else none) }

theorem listen_eq (hlisted : (r.interest (r.key c)).isSome = (r.channels c).inEpoll)
    (change : BitVec 32 → BitVec 32) :
    r.listen c change = r.put c (change (r.channels c).listenEvents) true := by
  have hkey : r.interest ((r.channels c).loop, (r.channels c).fd) = r.interest (r.key c) := rfl
  unfold listen updateChannel setListenEvents
  simp only [Function.update_self]
  cases hflag : (r.channels c).inEpoll with
  | true =>
    rw [hflag] at hlisted
    have hne := Option.isSome_iff_ne_none.mp hlisted
    simp only [if_true, ctl, hkey, hne, reduceCtorEq]
    rfl
  | false =>
    rw [hflag] at hlisted
    have hnone : r.interest (r.key c) = none :=
      Option.isNone_iff_eq_none.mp (Option.isSome_eq_false_iff.mp hlisted)
    simp only [Bool.false_eq_true, if_false, ctl, hkey, hnone, if_true, setInEpoll, Function.update_self,
      Function.update_idem]
    rfl

theorem deleteChannel_eq (hlisted : (r.interest (r.key c)).isSome = (r.channels c).inEpoll) :
    r.deleteChannel c = r.put c (r.channels c).listenEvents false := by
  have hkey : r.interest ((r.channels c).loop, (r.channels c).fd) = r.interest (r.key c) := rfl
  unfold deleteChannel
  cases hflag : (r.channels c).inEpoll with
  | true =>
    rw [hflag] at hlisted
    have hne := Option.isSome_iff_ne_none.mp hlisted
    simp only [hflag, if_true, ctl, hkey, hne, reduceCtorEq]
    rfl
  | false =>
    rw [hflag] at hlisted
    have hnone : r.interest (r.key c) = none :=
      Option.isNone_iff_eq_none.mp (Option.isSome_eq_false_iff.mp hlisted)
    have hsame : Function.update r.interest (r.key c) none = r.interest := by
      rw [← hnone]
      exact Function.update_eq_self _ _
    simp only [hflag, Bool.false_eq_true, if_false, put, hsame]
    rfl

/-! ## One operation -/

theorem key_put (c c' : C) (events : BitVec 32) (is_in : Bool) : (r.put c events is_in).key c' = r.key c' := by
  unfold key put
  by_cases hc : c' = c
  · subst hc
    simp only [Function.update_self]
  · simp only [Function.update_of_ne hc]

theorem Agrees.put (hr : r.Agrees) (hdistinct : r.Distinct) (c : C) (events : BitVec 32) (is_in : Bool) :
    (r.put c events is_in).Agrees := by
  have hother : ∀ c', c' ≠ c → r.key c' ≠ r.key c := by
    intro c' hne hkey
    exact hne (hdistinct c' c (Prod.ext_iff.mp hkey).2)
  refine ⟨?_, ?_, hr.succeeded⟩
  · intro c'
    rw [key_put]
    unfold Reactors.put
    by_cases hc : c' = c
    · subst hc
      cases is_in <;> simp only [Function.update_self, Option.isSome, if_true, Bool.false_eq_true, if_false]
    · simp only [Function.update_of_ne hc, Function.update_of_ne (hother c' hc)]
      exact hr.listed c'
  · intro c' event
    rw [key_put]
    unfold Reactors.put
    by_cases hc : c' = c
    · subst hc
      simp only [Function.update_self]
      intro hevent
      split at hevent
      · exact (Option.some.inj hevent).symm
      · cases hevent
    · simp only [Function.update_of_ne hc, Function.update_of_ne (hother c' hc)]
      exact hr.events c' event

theorem Agrees.listen (hr : r.Agrees) (hdistinct : r.Distinct) (c : C) (change : BitVec 32 → BitVec 32) :
    (r.listen c change).Agrees := by
  rw [listen_eq (hr.listed c)]
  exact hr.put hdistinct c _ true

theorem Agrees.deleteChannel (hr : r.Agrees) (hdistinct : r.Distinct) (c : C) :
    (r.deleteChannel c).Agrees := by
  rw [deleteChannel_eq (hr.listed c)]
  exact hr.put hdistinct c _ false

omit [DecidableEq C] in
/-- **`addChannel`** registers a channel and does not say so. -/
theorem addChannel_eq (hnone : r.interest (r.key c) = none) :
    r.addChannel c = .ok { r with
      interest := Function.update r.interest (r.key c) (some ⟨c, (r.channels c).listenEvents⟩) } := by
  have hkey : r.interest ((r.channels c).loop, (r.channels c).fd) = none := hnone
  unfold addChannel addfd ctl
  simp only [hkey, if_true]
  rfl

omit [DecidableEq C] in
theorem not_agrees_addChannel (hr : r.Agrees) (hnone : r.interest (r.key c) = none)
    (hadd : r.addChannel c = .ok r') : ¬ r'.Agrees := by
  rw [addChannel_eq hnone] at hadd
  cases hadd
  intro hr'
  have hbefore := hr.listed c
  have hafter := hr'.listed c
  rw [hnone] at hbefore
  have hsome : (Function.update r.interest (r.key c)
      (some ⟨c, (r.channels c).listenEvents⟩ : Option (EpollEvent C)) (r.key c)).isSome =
      (r.channels c).inEpoll := hafter
  rw [Function.update_self, ← hbefore] at hsome
  cases hsome

/-- What comes of it: every update of the channel fails, and its deletion does nothing. -/
theorem after_addChannel (hr : r.Agrees) (hnone : r.interest (r.key c) = none)
    (hadd : r.addChannel c = .ok r') :
    (∀ change, (r'.listen c change).failed = r.failed + 1) ∧
      (r'.deleteChannel c).interest (r.key c) = some ⟨c, (r.channels c).listenEvents⟩ := by
  have hflag : (r.channels c).inEpoll = false := by
    rw [← hr.listed c, hnone]
    rfl
  rw [addChannel_eq hnone] at hadd
  cases hadd
  constructor
  · intro change
    unfold listen updateChannel setListenEvents
    simp only [Function.update_self, hflag, Bool.false_eq_true, if_false, setInEpoll, ctl]
    have hkey : ((r.channels c).loop, (r.channels c).fd) = r.key c := rfl
    rw [hkey, Function.update_self, if_neg (by simp)]
  · unfold deleteChannel
    simp only [hflag, Bool.false_eq_true, if_false, setInEpoll, Function.update_self]

/-! ## Every run -/

theorem Distinct.put (hdistinct : r.Distinct) (c : C) (events : BitVec 32) (is_in : Bool) :
    (r.put c events is_in).Distinct := by
  intro c₁ c₂ hfd
  have hkey := key_put (r := r) (c := c)
  have hfd' : ∀ c', ((r.put c events is_in).channels c').fd = (r.channels c').fd :=
    fun c' => (Prod.ext_iff.mp (hkey c' events is_in)).2
  rw [hfd', hfd'] at hfd
  exact hdistinct c₁ c₂ hfd

/-- An operation that is not `addChannel` keeps the descriptors apart, and agreement. -/
theorem Agrees.exec (hr : r.Agrees) (hdistinct : r.Distinct) {op : Op C} (hop : op.isAdd = false)
    (hexec : r.exec op = .ok r') : r'.Distinct ∧ r'.Agrees := by
  -- nine of them are one
  have hlisten : ∀ (c : C) (change : BitVec 32 → BitVec 32), r.listen c change = r' →
      r'.Distinct ∧ r'.Agrees := by
    intro c change heq
    subst heq
    refine ⟨?_, hr.listen hdistinct c change⟩
    rw [listen_eq (hr.listed c)]
    exact hdistinct.put c _ true
  cases op with
  | addChannel c => cases hop
  | enableReadAndET c => exact hlisten c _ (Except.ok.inj hexec)
  | enableRead c => exact hlisten c _ (Except.ok.inj hexec)
  | enableWrite c => exact hlisten c _ (Except.ok.inj hexec)
  | enableET c => exact hlisten c _ (Except.ok.inj hexec)
  | disableRead c => exact hlisten c _ (Except.ok.inj hexec)
  | disableWrite c => exact hlisten c _ (Except.ok.inj hexec)
  | disableET c => exact hlisten c _ (Except.ok.inj hexec)
  | disableOpts c opts => exact hlisten c _ (Except.ok.inj hexec)
  | enableOpts c opts => exact hlisten c _ (Except.ok.inj hexec)
  | deleteChannel c =>
    cases hexec
    refine ⟨?_, hr.deleteChannel hdistinct c⟩
    rw [deleteChannel_eq (hr.listed c)]
    exact hdistinct.put c _ false

theorem agrees_start (hstart : (reactors L C).start s) : s.Distinct ∧ s.Agrees := by
  obtain ⟨hdistinct, hfailed, hfresh⟩ := hstart
  refine ⟨hdistinct, ?_, ?_, hfailed⟩
  · intro c
    obtain ⟨hnone, -, hflag⟩ := hfresh c
    rw [hnone, hflag]
    rfl
  · intro c event hevent
    rw [(hfresh c).1] at hevent
    cases hevent

/-- **The channels and the kernel agree** in every state of a run if and only if nowhere in it is a call
    of `addChannel`. -/
theorem agrees_iff (hstart : (reactors L C).start s) (hrun : (reactors L C).Run s h t) :
    (∀ h' t', h' <:+ h → (reactors L C).Run s h' t' → t'.Agrees) ↔ ∀ op ∈ h, op.isAdd = false := by
  obtain ⟨hdistinct, hagrees⟩ := agrees_start hstart
  rw [← hrun.restrict_labels]
  constructor
  · intro hall
    induction hrun with
    | nil => exact .nil s
    | @step t u h op hrun hstep ih =>
      have ht := hall h t (List.suffix_cons op h) hrun
      have hu := hall _ u (List.suffix_refl _) (hrun.step hstep)
      refine .step (ih fun h' t' hsuf => hall h' t' (hsuf.trans (List.suffix_cons op h))) ⟨hstep, ?_⟩
      cases op with
      | addChannel c => exact absurd hu (not_agrees_addChannel ht hstep.1 hstep.2)
      | enableReadAndET | enableRead | enableWrite | enableET | disableRead | disableWrite | disableET
      | disableOpts | enableOpts | deleteChannel => rfl
  · intro hres h' t' hsuf hrun'
    -- the run up to there is without `addChannel` too
    have hlabels : ∀ op ∈ h', op.isAdd = false :=
      fun op hop => (System.Run.labels_of_restrict hres) op (hsuf.subset hop)
    have hres' := hrun'.restrict_labels.mpr hlabels
    refine (hres'.invariant (I := fun _ t => t.Distinct ∧ t.Agrees) ?_ ⟨hdistinct, hagrees⟩).2
    intro _ t op u ht hstep
    exact ht.2.exec ht.1 hstep.2 hstep.1.2

/-- A channel that is enabled, and then deleted. -/
theorem agrees_iff_one :
    ∃ t, (reactors Unit Unit).Run ⟨fun _ => ⟨(), 5, 0, false⟩, fun _ => none, 0⟩
      [.deleteChannel (), .enableRead ()] t ∧ t.Agrees := by
  have hstart : (reactors Unit Unit).start ⟨fun _ => ⟨(), 5, 0, false⟩, fun _ => none, 0⟩ :=
    ⟨fun _ _ _ => rfl, rfl, fun _ => ⟨rfl, rfl, rfl⟩⟩
  have hrun : (reactors Unit Unit).Run ⟨fun _ => ⟨(), 5, 0, false⟩, fun _ => none, 0⟩
      [.deleteChannel (), .enableRead ()] _ := .step (.step (.nil _) ⟨trivial, rfl⟩) ⟨trivial, rfl⟩
  exact ⟨_, hrun, (agrees_iff hstart hrun).mpr (by decide) _ _ (List.suffix_refl _) hrun⟩

/-- **It fails** for a channel that is added so. -/
theorem not_agrees_add :
    ¬ ∀ s t h, (reactors Unit Unit).start s → (reactors Unit Unit).Run s h t → t.Agrees := by
  intro hall
  have hstart : (reactors Unit Unit).start ⟨fun _ => ⟨(), 5, 0, false⟩, fun _ => none, 0⟩ :=
    ⟨fun _ _ _ => rfl, rfl, fun _ => ⟨rfl, rfl, rfl⟩⟩
  obtain ⟨-, hagrees⟩ := agrees_start hstart
  have hstep : (reactors Unit Unit).step ⟨fun _ => ⟨(), 5, 0, false⟩, fun _ => none, 0⟩
      (.addChannel ()) _ := ⟨rfl, rfl⟩
  exact not_agrees_addChannel hagrees rfl hstep.2 (hall _ _ _ hstart (.step (.nil _) hstep))

end

end Reactors

end LinuxServer
