import LinuxServer.WebServer.Connections

/-!
# `WebServer/Lifetime.lean` — the end of the timers

When `eventLoop` has returned, `main` destroys its `WebServer`, and with `utils` the list of the timers:
`~sort_timer_lst` deletes what it finds from `head` on. It leaves `prev` as it was, and calls no `cb_func`.

Whatever the loop has done, that is each timer that is left, once; and these are the timers of the clients that are
still connected, one for each (`destroys`). So no timer is ever lost or deleted twice — but nobody closes the
descriptors of these clients, nor takes them off `m_user_count`.
-/

set_option autoImplicit false

namespace LinuxServer

open Timer

namespace Timer
namespace SortTimerLst

/-- The `while (tmp)` of `~sort_timer_lst`, and what it deletes. -/
def destroyLoop : Nat → SortTimerLst → Option Ptr → Except Fault (List Ptr × SortTimerLst)
  | _, s, none => .ok ([], s)
  | 0, _, some _ => .error .diverge
  | fuel + 1, s, some tmp => do
    let t ← s.load (some tmp)
    let s ← { s with head := t.next }.delete tmp
    let (freed, s) ← destroyLoop fuel s s.head
    return (tmp :: freed, s)

/-- `~sort_timer_lst()`. -/
def destroy (s : SortTimerLst) : Except Fault (List Ptr × SortTimerLst) :=
  destroyLoop s.heap.keys.length s s.head

/-- One turn. The timer behind is still linked back to the one that was deleted. -/
theorem destroyLoop_cons {s : SortTimerLst} {x : Ptr} {n : UtilTimer} (hx : s.heap.lookup x = some n) (fuel : Nat) :
    destroyLoop (fuel + 1) s (some x) = (do
      let (freed, s) ← destroyLoop fuel ({ s with head := n.next }.free x) n.next
      return (x :: freed, s)) := by
  have hdelete : ({ s with head := n.next } : SortTimerLst).delete x = .ok ({ s with head := n.next }.free x) :=
    delete_of_lookup hx
  simp only [destroyLoop, load_of_lookup hx, bind, Except.bind]
  rw [hdelete]
  rfl

/-- **The loop**, on what is linked from any timer on. By induction on the list. -/
theorem destroyLoop_seg : ∀ (l : List Ptr) {s : SortTimerLst} {b : Option Ptr} {fuel : Nat},
    (∀ p ∈ l, ∃ n, s.heap.lookup p = some n) → l.Nodup → Seg s.next s.prev b l none → l.length ≤ fuel →
      ∃ s', destroyLoop fuel s l.head? = .ok (l, s') ∧ ∀ p, s'.data p = if p ∈ l then none else s.data p
  | [], s, b, fuel, _, _, _, _ => by
    refine ⟨s, ?_, fun p => (if_neg List.not_mem_nil).symm⟩
    cases fuel <;> rfl
  | x :: l, s, b, 0, _, _, _, hfuel => absurd hfuel (Nat.not_succ_le_zero _)
  | x :: l, s, b, fuel + 1, hlive, hnodup, hseg, hfuel => by
    obtain ⟨n, hx⟩ := hlive x List.mem_cons_self
    obtain ⟨hmem, hnodup⟩ := List.nodup_cons.mp hnodup
    obtain ⟨-, hnext, hseg⟩ := hseg
    let u : SortTimerLst := { s with head := n.next }.free x
    have hhead : n.next = l.head? := by
      rw [next_of_lookup hx, Option.or_none] at hnext
      exact hnext
    have hother : ∀ y ∈ l, y ≠ x := fun y hy heq => hmem (heq ▸ hy)
    have hlive' : ∀ p ∈ l, ∃ n, u.heap.lookup p = some n := by
      intro p hp
      obtain ⟨m, hm⟩ := hlive p (List.mem_cons_of_mem _ hp)
      exact ⟨m, by rw [lookup_free, if_neg (hother p hp)]; exact hm⟩
    have hseg' : Seg u.next u.prev (some x) l none :=
      hseg.congr (fun y hy => next_free (hother y hy)) fun y hy => prev_free (hother y hy)
    obtain ⟨s', hs', hdata⟩ := destroyLoop_seg l hlive' hnodup hseg' (Nat.le_of_succ_le_succ hfuel)
    refine ⟨s', ?_, fun p => ?_⟩
    · have hrest : destroyLoop fuel u n.next = .ok (l, s') := hhead ▸ hs'
      exact (destroyLoop_cons hx fuel).trans (bind_eq_ok.mpr ⟨(l, s'), hrest, rfl⟩)
    · rw [hdata p]
      by_cases hpx : p = x
      · subst hpx
        rw [if_neg hmem, if_pos List.mem_cons_self]
        exact (congrFun data_free p).trans (Function.update_self ..)
      · have hkept : u.data p = s.data p := (congrFun data_free p).trans (Function.update_of_ne hpx ..)
        simp only [List.mem_cons, hpx, false_or, hkept]

/-- The destructor deletes the list. -/
theorem Rep.destroy {s : SortTimerLst} {l : List Ptr} (h : Rep s l) :
    ∃ s', s.destroy = .ok (l, s') ∧ ∀ p, s'.data p = if p ∈ l then none else s.data p := by
  unfold SortTimerLst.destroy
  rw [h.head]
  exact destroyLoop_seg l h.live h.nodup h.seg h.length_le

end SortTimerLst
end Timer

namespace WebServer

/-- **The end of the timers.** In whatever state the loop ends, the destructor deletes every timer there is, each
    once, and no other memory: one timer for each client that is still connected. -/
theorem destroys {w : State} (h : eventLoop.Reachable w) :
    ∃ freed lst, w.timerLst.destroy = .ok (freed, lst) ∧ (∀ p, lst.data p = none) ∧ freed.Nodup ∧
      (∀ p, p ∈ freed ↔ ∃ d, w.timerLst.data p = some d) ∧
      (freed.map fun p => (w.usersTimer (SortTimerLst.slotIn w.timerLst.data p)).sockfd).Perm w.openFds := by
  obtain ⟨l, hacc⟩ := reachable_accounts h
  obtain ⟨lst, hlst, hdata⟩ := hacc.listed.toRep.destroy
  refine ⟨l, lst, hlst, fun p => ?_, hacc.listed.nodup, hacc.listed.mem, ?_⟩
  · rw [hdata p]
    by_cases hp : p ∈ l
    · exact if_pos hp
    · rw [if_neg hp]
      cases hd : w.timerLst.data p with
      | none => rfl
      | some d => exact absurd ((hacc.listed.mem p).mpr ⟨d, hd⟩) hp
  · have hbijection := hacc.booked.bijection
    rwa [SortTimerLst.nodes_of_rep hacc.listed.toRep] at hbijection

/-- Two clients are connected when the loop ends. -/
theorem destroys_two : ∃ freed lst,
    (State.after [.connect 8 2 1, .connect 7 1 0]).timerLst.destroy = .ok (freed, lst) ∧ (∀ p, lst.data p = none) ∧
      freed.Nodup ∧
      (∀ p, p ∈ freed ↔ ∃ d, (State.after [.connect 8 2 1, .connect 7 1 0]).timerLst.data p = some d) ∧
      (freed.map fun p => ((State.after [.connect 8 2 1, .connect 7 1 0]).usersTimer (SortTimerLst.slotIn
        (State.after [.connect 8 2 1, .connect 7 1 0]).timerLst.data p)).sockfd).Perm
        (State.after [.connect 8 2 1, .connect 7 1 0]).openFds :=
  destroys ⟨idle, [.connect 8 2 1, .connect 7 1 0], ⟨rfl, rfl, rfl, rfl⟩,
    .step (.step (.nil idle) ⟨by decide, rfl⟩) ⟨by decide, rfl⟩⟩

end WebServer
end LinuxServer
