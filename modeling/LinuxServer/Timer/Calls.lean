import LinuxServer.Timer.Refine
import LinuxServer.Lib.KeyOrder

/-!
# `Timer/Calls.lean` — one call on the list, as its callers see it

The callers of `sort_timer_lst` allocate a timer and add it, assign an `expire` and adjust, delete,
and tick. `Listed` is what they keep: the heap represents `l`, and every allocated timer is on it.
Each call has one lemma, which says what it does to `data`, what it does to `l` up to order, and —
separately, because only some callers can promise it — that it keeps an ascending list ascending.
-/

set_option autoImplicit false

namespace LinuxServer
namespace Timer
namespace SortTimerLst

/-- The heap represents `l`, and no timer is allocated that is not on it. -/
structure Listed (s : SortTimerLst) (l : List Ptr) : Prop extends Rep s l where
  mem : ∀ p, p ∈ l ↔ ∃ d, s.data p = some d

/-- The list is in ascending order of its deadlines. -/
def Ascending (s : SortTimerLst) (l : List Ptr) : Prop := SortedBy s.expireOf l

section
variable {s : SortTimerLst} {l : List Ptr} {timer : Ptr} {e cur : Int} {u : Nat}

theorem empty_listed : Listed empty [] := ⟨empty_rep, by simp [data, empty]⟩

theorem expireOf_update {s s' : SortTimerLst} {d : Option (Int × Nat)}
    (h : s'.data = Function.update s.data timer d) {p : Ptr} (hp : p ≠ timer) :
    s'.expireOf p = s.expireOf p := by
  unfold expireOf; rw [h, Function.update_of_ne hp]

theorem expireOf_update_self {s s' : SortTimerLst}
    (h : s'.data = Function.update s.data timer (some (e, u))) : s'.expireOf timer = e := by
  unfold expireOf; rw [h, Function.update_self]; rfl

/-- `new util_timer` and `add_timer`. -/
theorem Listed.add (h : Listed s l) (hfree : s.data timer = none) (e : Int) (u : Nat) :
    ∃ s' l', (s.alloc timer e u).addTimer (some timer) = .ok s' ∧ Listed s' l' ∧
      l'.Perm (timer :: l) ∧ s'.data = Function.update s.data timer (some (e, u)) ∧
      (Ascending s l → Ascending s' l') := by
  have hmem : timer ∉ l := fun hm => by
    obtain ⟨d, hd⟩ := (h.mem timer).mp hm
    rw [hfree] at hd; cases hd
  let s₁ := s.alloc timer e u
  have ht : s₁.heap.lookup timer = some { expire := e, userData := u } := by simp [s₁, alloc]
  have hd₁ : s₁.data = Function.update s.data timer (some (e, u)) := by
    funext p; by_cases hp : p = timer <;> simp [s₁, alloc, hp]
  have hrep₁ : Rep s₁ l := h.toRep.put hmem _
  obtain ⟨s₂, hs₂, hrep, hd₂⟩ := addTimer_rep hrep₁ ht hmem ⟨rfl, rfl⟩
  refine ⟨s₂, _, hs₂, ⟨hrep, fun p => ?_⟩, List.perm_orderedInsert _ _ _, hd₂.trans hd₁, ?_⟩
  · rw [List.mem_orderedInsert, hd₂, hd₁]
    by_cases hp : p = timer
    · simp [hp]
    · simp [hp, h.mem p]
  · intro hasc
    have hkey : s₂.expireOf = s₁.expireOf := by unfold expireOf; rw [hd₂]
    unfold Ascending
    rw [hkey]
    exact SortedBy.orderedInsert (SortedBy.congr hasc fun p hp =>
      expireOf_update hd₁ fun e => hmem (e ▸ hp))

/-- `timer->expire = e` and `adjust_timer`. -/
theorem Listed.adjust (h : Listed s l) {d : Int × Nat} (hd : s.data timer = some d) (e : Int) :
    ∃ s' l', (s.setExpire (some timer) e >>= fun s => s.adjustTimer (some timer)) = .ok s' ∧
      Listed s' l' ∧ l'.Perm l ∧ s'.data = Function.update s.data timer (some (e, d.2)) ∧
      (Ascending s l → d.1 ≤ e → Ascending s' l') := by
  have hmem : timer ∈ l := (h.mem timer).mpr ⟨d, hd⟩
  obtain ⟨t, ht, hexp, huser⟩ := lookup_of_data hd
  obtain ⟨l₁, l₂, rfl⟩ := List.append_of_mem hmem
  have hmem' : timer ∉ l₁ ++ l₂ := (List.nodup_cons.mp (List.nodup_middle.mp h.nodup)).1
  let s₁ := s.put timer { t with expire := e }
  have hd₁ : s₁.data = Function.update s.data timer (some (e, d.2)) := by
    funext p; by_cases hp : p = timer <;> simp [s₁, hp, huser]
  obtain ⟨s₂, hs₂, hrep, hd₂⟩ := adjustTimer_rep (h.toRep.putExpire ht e)
  have hperm : (l₁ ++ l₂.orderedInsert s₁.Before timer).Perm (l₁ ++ timer :: l₂) :=
    (List.perm_orderedInsert _ _ _).append_left _
  refine ⟨s₂, _, ?_, ⟨hrep, fun p => ?_⟩, hperm, hd₂.trans hd₁, ?_⟩
  · rw [setExpire_of_lookup ht]; exact hs₂
  · rw [hperm.mem_iff, h.mem p, hd₂, hd₁]
    by_cases hp : p = timer
    · simp [hp, hd]
    · simp [hp]
  · intro hasc hle
    have hkey : s₂.expireOf = s₁.expireOf := by unfold expireOf; rw [hd₂]
    unfold Ascending
    rw [hkey]
    refine SortedBy.reinsert hasc (fun p hp => expireOf_update hd₁ fun e => hmem' (e ▸ hp)) ?_
    rw [expireOf_update_self hd₁]
    simpa [expireOf, hd] using hle

/-- `del_timer`. -/
theorem Listed.del (h : Listed s l) {d : Int × Nat} (hd : s.data timer = some d) :
    ∃ s', s.delTimer (some timer) = .ok s' ∧ Listed s' (l.erase timer) ∧
      s'.data = Function.update s.data timer none ∧
      (Ascending s l → Ascending s' (l.erase timer)) := by
  have hmem : timer ∈ l := (h.mem timer).mpr ⟨d, hd⟩
  obtain ⟨l₁, l₂, rfl⟩ := List.append_of_mem hmem
  have hmem' : timer ∉ l₁ ++ l₂ := (List.nodup_cons.mp (List.nodup_middle.mp h.nodup)).1
  have hl₁ : timer ∉ l₁ := fun hm => hmem' (List.mem_append_left _ hm)
  have herase : (l₁ ++ timer :: l₂).erase timer = l₁ ++ l₂ := by
    rw [List.erase_append_right _ hl₁, List.erase_cons_head]
  obtain ⟨s₁, hs₁, hrep, hd₁⟩ := delTimer_rep h.toRep
  rw [herase]
  refine ⟨s₁, hs₁, ⟨hrep, fun p => ?_⟩, hd₁, fun hasc => ?_⟩
  · have hp := h.mem p
    rw [hd₁]
    by_cases hpt : p = timer
    · subst hpt; simpa using hmem'
    · simpa [hpt] using hp
  · have hsub : (l₁ ++ l₂).Sublist (l₁ ++ timer :: l₂) := by simp
    exact SortedBy.congr (hasc.sublist hsub) fun p hp =>
      expireOf_update hd₁ fun e => hmem' (e ▸ hp)

/-! ## `tick` -/

theorem Listed.due_iff (h : Listed s l) {p : Ptr} (hp : p ∈ l) :
    due s.data cur p = true ↔ s.expireOf p ≤ cur := by
  obtain ⟨⟨e, u⟩, hd⟩ := (h.mem p).mp hp
  simp [due, expireOf, hd]

/-- Along an ascending list, what is due is a prefix. -/
theorem Listed.due_antitone (h : Listed s l) (hasc : Ascending s l) (cur : Int) :
    l.Pairwise fun p q => due s.data cur q = true → due s.data cur p = true := by
  refine hasc.imp_of_mem fun {p q} hp hq hpq => ?_
  rw [h.due_iff hp, h.due_iff hq]
  exact hpq.trans

/-- `tick`. -/
theorem Listed.tick (h : Listed s l) (cur : Int) :
    ∃ s', s.tick cur = .ok ((l.takeWhile (due s.data cur)).map (slotIn s.data), s') ∧
      Listed s' (l.dropWhile (due s.data cur)) ∧
      (∀ p, s'.data p = if p ∈ l.takeWhile (due s.data cur) then none else s.data p) ∧
      (Ascending s l → Ascending s' (l.dropWhile (due s.data cur))) := by
  obtain ⟨s₁, hs₁, hrep, hd₁⟩ := tick_rep h.toRep cur
  have hsplit := List.takeWhile_append_dropWhile (p := due s.data cur) (l := l)
  have hkeep : ∀ p ∈ l.dropWhile (due s.data cur), p ∉ l.takeWhile (due s.data cur) := by
    intro p hp hp'
    have hnd := h.nodup
    rw [← hsplit] at hnd
    exact (List.nodup_append.mp hnd).2.2 p hp' p hp rfl
  refine ⟨s₁, hs₁, ⟨hrep, fun p => ?_⟩, hd₁, fun hasc => ?_⟩
  · have hp := h.mem p
    rw [← hsplit, List.mem_append] at hp
    rw [hd₁ p]
    by_cases hev : p ∈ l.takeWhile (due s.data cur)
    · rw [if_pos hev]
      exact ⟨fun hm => absurd hev (hkeep p hm), fun ⟨_, hc⟩ => by cases hc⟩
    · rw [if_neg hev, ← hp]
      exact ⟨Or.inr, fun hm => hm.resolve_left hev⟩
  · refine SortedBy.congr (hasc.sublist (List.dropWhile_sublist _)) fun p hp => ?_
    unfold expireOf; rw [hd₁ p, if_neg (hkeep p hp)]

end

end SortTimerLst
end Timer
end LinuxServer
