import LinuxServer.Timer.Calls

/-!
# `Timer/Queue.lean` — the timer list is a queue of deadlines

What the component is for, said without pointers: a set of timers, each pending until a deadline.
`pending` reads that off the **history** of the operations — a timer is pending at the deadline it
was last given, from its `add_timer` until it is deleted or a tick reads a clock at or past it —
and `Represents` says what the heap must look like for that history.

`run_represents` is the invariant over whole histories. Two things in it are not local to one
routine. `adjust_timer` starts its search at the timer's old successor, which is right only because
the list is ascending and the deadline was raised (`SortedBy.reinsert`); and `tick` stops at the
first timer that is not due, which evicts every due timer only for the same reason
(`takeWhile_eq_filter`).
-/

set_option autoImplicit false

namespace LinuxServer
namespace Timer

open SortTimerLst

/-- One call on the list. `add` is of a timer just allocated, `adjust` of one whose `expire` was
    just assigned. -/
inductive TimerOp
  | add (timer : Ptr) (expire : Int) (userData : Nat)
  | adjust (timer : Ptr) (expire : Int)
  | del (timer : Ptr)
  | tick (cur : Int)
  deriving DecidableEq, Repr

def SortTimerLst.exec (s : SortTimerLst) : TimerOp → Except Fault SortTimerLst
  | .add timer e u => (s.alloc timer e u).addTimer (some timer)
  | .adjust timer e => do
    let s ← s.setExpire (some timer) e
    s.adjustTimer (some timer)
  | .del timer => s.delTimer (some timer)
  | .tick cur => do
    let (_, s) ← s.tick cur
    return s

/-- The list after a history, newest call first. -/
def run : List TimerOp → Except Fault SortTimerLst
  | [] => .ok empty
  | op :: h => do
    let s ← run h
    s.exec op

/-- The deadline a timer is pending at after a history, if it is. -/
def pending : List TimerOp → Ptr → Option Int
  | [], _ => none
  | .add timer e _ :: h, p => if p = timer then some e else pending h p
  | .adjust timer e :: h, p => if p = timer then some e else pending h p
  | .del timer :: h, p => if p = timer then none else pending h p
  | .tick cur :: h, p => (pending h p).filter fun e => cur < e

/-- What the callers keep to: a timer is added once, only pending ones are adjusted and deleted, and
    an adjustment never lowers a deadline. -/
def Legal : List TimerOp → Prop
  | [] => True
  | .add timer _ _ :: h => pending h timer = none ∧ Legal h
  | .adjust timer e :: h => (∃ e₀, pending h timer = some e₀ ∧ e₀ ≤ e) ∧ Legal h
  | .del timer :: h => (∃ e₀, pending h timer = some e₀) ∧ Legal h
  | .tick _ :: h => Legal h

/-- The timers met by following `next` from `head`. -/
def SortTimerLst.nodes (s : SortTimerLst) : List Ptr := walk s.next s.heap.keys.length s.head

/-- The heap looks as a list of the timers pending at `deadline` should. -/
structure Represents (s : SortTimerLst) (deadline : Ptr → Option Int) : Prop where
  visits : ∀ p, p ∈ s.nodes ↔ ∃ e, deadline p = some e
  once : s.nodes.Nodup
  headFirst : s.head = s.nodes.head?
  inverse : ∀ p ∈ s.nodes, ∀ q ∈ s.nodes, s.next p = some q ↔ s.prev q = some p
  headPrev : ∀ p ∈ s.head, s.prev p = none
  expire : ∀ p ∈ s.nodes, deadline p = some (s.expireOf p)
  ascending : s.nodes.Pairwise fun p q => s.expireOf p ≤ s.expireOf q
  tailLast : s.nodes ≠ [] → s.tail = s.nodes.getLast? ∧ ∀ p ∈ s.tail, s.next p = none

/-- The same, over a list the heap represents: the form the induction carries. -/
structure Queued (s : SortTimerLst) (l : List Ptr) (deadline : Ptr → Option Int) : Prop
    extends Listed s l where
  expire : ∀ p, (s.data p).map Prod.fst = deadline p
  ascending : Ascending s l

theorem SortTimerLst.nodes_of_rep {s : SortTimerLst} {l : List Ptr} (h : Rep s l) :
    s.nodes = l := by
  unfold SortTimerLst.nodes
  rw [h.head]
  exact h.seg.walk h.length_le

section
variable {s : SortTimerLst} {l : List Ptr} {deadline : Ptr → Option Int} {timer : Ptr}

theorem Queued.mem_iff (h : Queued s l deadline) {p : Ptr} :
    p ∈ l ↔ ∃ e, deadline p = some e := by
  rw [h.mem p, ← h.expire p]
  simp

theorem Queued.deadline_of_mem (h : Queued s l deadline) {p : Ptr} (hp : p ∈ l) :
    deadline p = some (s.expireOf p) := by
  obtain ⟨d, hd⟩ := (h.mem p).mp hp
  rw [← h.expire p]
  simp [expireOf, hd]

theorem Queued.data_of_pending (h : Queued s l deadline) {e : Int} (hp : deadline timer = some e) :
    ∃ u, s.data timer = some (e, u) := by
  have hexp := h.expire timer
  rw [hp] at hexp
  obtain ⟨⟨e', u⟩, hd, rfl⟩ := Option.map_eq_some_iff.mp hexp
  exact ⟨u, hd⟩

theorem Queued.represents (h : Queued s l deadline) : Represents s deadline := by
  have hnodes := nodes_of_rep h.toRep
  refine ⟨?_, ?_, ?_, ?_, ?_, ?_, ?_, ?_⟩
  · exact fun p => by rw [hnodes]; exact h.mem_iff
  · rw [hnodes]; exact h.nodup
  · rw [hnodes]; exact h.head
  · rw [hnodes]; exact fun p hp q hq => h.seg.inverse h.nodup hp hq
  · intro p hp
    rw [h.head] at hp
    obtain ⟨l', rfl⟩ := List.head?_eq_some_iff.mp hp
    exact h.seg.1
  · rw [hnodes]; exact fun p hp => h.deadline_of_mem hp
  · rw [hnodes]; exact h.ascending
  · rw [hnodes]
    intro hne
    have hlast := List.getLast?_eq_some_getLast hne
    have htail := h.tail _ hlast
    refine ⟨by rw [htail, hlast], fun p hp => ?_⟩
    rw [htail] at hp
    obtain ⟨l', hl'⟩ := List.getLast?_eq_some_iff.mp (hlast.trans hp)
    have hseg := h.seg
    rw [hl'] at hseg
    simpa using hseg.links.1

/-! ## What one call preserves -/

/-- The deadlines, after one timer's was written. -/
theorem map_fst_update {s' : SortTimerLst} {d : Option (Int × Nat)}
    (h : ∀ p, (s.data p).map Prod.fst = deadline p)
    (hd : s'.data = Function.update s.data timer d) (p : Ptr) :
    (s'.data p).map Prod.fst = if p = timer then d.map Prod.fst else deadline p := by
  rw [hd]
  by_cases hp : p = timer
  · subst hp; simp
  · simp [hp, h p]

theorem Queued.add (h : Queued s l deadline) (hfree : deadline timer = none) (e : Int) (u : Nat) :
    ∃ s', s.exec (.add timer e u) = .ok s' ∧
      ∃ l', Queued s' l' fun p => if p = timer then some e else deadline p := by
  have hnone : s.data timer = none := by
    have hexp := h.expire timer
    rw [hfree] at hexp
    exact Option.map_eq_none_iff.mp hexp
  obtain ⟨s', l', hs', hl', -, hd', hasc⟩ := h.toListed.add hnone e u
  exact ⟨s', hs', l', hl', map_fst_update h.expire hd', hasc h.ascending⟩

theorem Queued.adjust (h : Queued s l deadline) {e₀ e : Int} (hpend : deadline timer = some e₀)
    (hle : e₀ ≤ e) :
    ∃ s', s.exec (.adjust timer e) = .ok s' ∧
      ∃ l', Queued s' l' fun p => if p = timer then some e else deadline p := by
  obtain ⟨u, hd⟩ := h.data_of_pending hpend
  obtain ⟨s', l', hs', hl', -, hd', hasc⟩ := h.toListed.adjust hd e
  exact ⟨s', hs', l', hl', map_fst_update h.expire hd', hasc h.ascending hle⟩

theorem Queued.del (h : Queued s l deadline) {e₀ : Int} (hpend : deadline timer = some e₀) :
    ∃ s', s.exec (.del timer) = .ok s' ∧
      ∃ l', Queued s' l' fun p => if p = timer then none else deadline p := by
  obtain ⟨u, hd⟩ := h.data_of_pending hpend
  obtain ⟨s', hs', hl', hd', hasc⟩ := h.toListed.del hd
  exact ⟨s', hs', _, hl', map_fst_update h.expire hd', hasc h.ascending⟩

/-- The timers a tick takes off an ascending list are those past their deadline, wherever they
    stand in it. -/
theorem Queued.tick (h : Queued s l deadline) (cur : Int) :
    ∃ s', s.exec (.tick cur) = .ok s' ∧
      ∃ l', Queued s' l' fun p => (deadline p).filter fun e => cur < e := by
  obtain ⟨s', hs', hl', hd', hasc⟩ := h.toListed.tick cur
  simp only [takeWhile_eq_filter (h.due_antitone h.ascending cur), List.mem_filter] at hd'
  refine ⟨s', ?_, _, hl', fun p => ?_, hasc h.ascending⟩
  · simp only [SortTimerLst.exec, hs', bind, Except.bind]; rfl
  · rw [hd' p]
    by_cases hp : p ∈ l
    · rw [h.deadline_of_mem hp]
      by_cases hcur : s.expireOf p ≤ cur
      · rw [if_pos ⟨hp, (h.due_iff hp).mpr hcur⟩, Option.filter_some_neg (by simpa using hcur)]
        rfl
      · rw [if_neg fun hc => hcur ((h.due_iff hp).mp hc.2), h.expire p, h.deadline_of_mem hp,
          Option.filter_some_pos (by simpa using hcur)]
    · have hnone : deadline p = none := by
        by_contra hne
        exact hp (h.mem_iff.mpr (Option.ne_none_iff_exists'.mp hne))
      rw [if_neg fun hc => hp hc.1, h.expire p, hnone]
      rfl

end

/-! ## What every history preserves -/

theorem run_queued : ∀ {h : List TimerOp}, Legal h →
    ∃ s, run h = .ok s ∧ ∃ l, Queued s l (pending h)
  | [], _ => ⟨empty, rfl, [], empty_listed, by simp [data, empty, pending], List.Pairwise.nil⟩
  | op :: h, hlegal => by
    have hlegal' : Legal h := by cases op <;> first | exact hlegal.2 | exact hlegal
    obtain ⟨s, hs, l, hq⟩ := run_queued hlegal'
    have hstep : ∃ s', s.exec op = .ok s' ∧ ∃ l', Queued s' l' (pending (op :: h)) := by
      cases op with
      | add timer e u => exact hq.add hlegal.1 e u
      | adjust timer e => obtain ⟨⟨e₀, hp, hle⟩, _⟩ := hlegal; exact hq.adjust hp hle
      | del timer => obtain ⟨⟨e₀, hp⟩, _⟩ := hlegal; exact hq.del hp
      | tick cur => exact hq.tick cur
    obtain ⟨s', hs', hq'⟩ := hstep
    exact ⟨s', bind_eq_ok.mpr ⟨s, hs, hs'⟩, hq'⟩

/-- **The timer list represents its history.** After any legal sequence of calls — whatever the
    deadlines, and whatever the clock reads at the ticks — no call has dereferenced a null or freed
    timer, and the list holds exactly the timers still pending, in order of their deadlines. -/
theorem run_represents {h : List TimerOp} (hlegal : Legal h) :
    ∃ s, run h = .ok s ∧ Represents s (pending h) :=
  let ⟨s, hs, _, hq⟩ := run_queued hlegal
  ⟨s, hs, hq.represents⟩

/-- Three timers, one of them pushed back behind the others, and a tick that finds two due. -/
theorem run_represents_pushed_back :
    ∃ s, run [.tick 20, .adjust 1 30, .add 3 20 7, .add 2 15 6, .add 1 10 5] = .ok s ∧
      Represents s (pending [.tick 20, .adjust 1 30, .add 3 20 7, .add 2 15 6, .add 1 10 5]) :=
  run_represents ⟨⟨10, by decide, by decide⟩, by decide, by decide, by decide, trivial⟩

end Timer
end LinuxServer
