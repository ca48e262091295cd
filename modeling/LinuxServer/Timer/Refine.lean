import LinuxServer.Timer.List
import Mathlib.Data.List.Sort

/-!
# `Timer/Refine.lean` — the heap list represents a list of addresses

`Rep s l` reads the five pointer-surgery routines of `Timer/List.lean` as operations on the list
`l` of the addresses `next` visits from `head`. Nothing in it speaks of order: a routine is
characterised on **any** represented list, and what it does there is a list function of Mathlib's —
`add_timer` is `orderedInsert`, `del_timer` is `erase`, `tick` is `dropWhile`, and `adjust_timer`
re-inserts into what follows the timer. Order is a property of `l`, and is argued on `l` alone
(`Timer/Queue.lean`).

A routine keeps `data`: it moves links, never an `expire` or a `user_data`.
-/

set_option autoImplicit false

namespace LinuxServer
namespace Timer
namespace SortTimerLst

/-! ## The heap read field by field -/

def next (s : SortTimerLst) (p : Ptr) : Option Ptr := (s.heap.lookup p).bind UtilTimer.next

def prev (s : SortTimerLst) (p : Ptr) : Option Ptr := (s.heap.lookup p).bind UtilTimer.prev

/-- What a timer carries, links apart; `none` where no timer is allocated. -/
def data (s : SortTimerLst) (p : Ptr) : Option (Int × Nat) :=
  (s.heap.lookup p).map fun n => (n.expire, n.userData)

def expireOf (s : SortTimerLst) (p : Ptr) : Int := ((s.data p).map Prod.fst).getD 0

/-- `timer->expire < tmp->expire`, the comparison every routine makes. -/
def Before (s : SortTimerLst) (p q : Ptr) : Prop := s.expireOf p < s.expireOf q

instance (s : SortTimerLst) : DecidableRel s.Before := fun _ _ => Int.decLt _ _

section
variable {s s' : SortTimerLst} {p q : Ptr} {n m : UtilTimer} {v : Option Ptr}

@[simp] theorem lookup_put :
    (s.put p n).heap.lookup q = if q = p then some n else s.heap.lookup q := by
  by_cases h : q = p
  · subst h; simp [put]
  · simp [put, h]

@[simp] theorem put_head : (s.put p n).head = s.head := rfl
@[simp] theorem put_tail : (s.put p n).tail = s.tail := rfl

@[simp] theorem next_put : (s.put p n).next q = if q = p then n.next else s.next q := by
  unfold next; rw [lookup_put]; split <;> rfl

@[simp] theorem prev_put : (s.put p n).prev q = if q = p then n.prev else s.prev q := by
  unfold prev; rw [lookup_put]; split <;> rfl

@[simp] theorem data_put :
    (s.put p n).data q = if q = p then some (n.expire, n.userData) else s.data q := by
  unfold data; rw [lookup_put]; split <;> rfl

@[simp] theorem lookup_free :
    (s.free p).heap.lookup q = if q = p then none else s.heap.lookup q := by
  by_cases h : q = p
  · subst h; simp [free]
  · simp [free, h]

@[simp] theorem free_head : (s.free p).head = s.head := rfl
@[simp] theorem free_tail : (s.free p).tail = s.tail := rfl

theorem next_free (h : q ≠ p) : (s.free p).next q = s.next q := by simp [next, h]

theorem prev_free (h : q ≠ p) : (s.free p).prev q = s.prev q := by simp [prev, h]

@[simp] theorem data_free : (s.free p).data = Function.update s.data p none := by
  funext q
  by_cases h : q = p
  · subst h; simp [data]
  · simp [data, h]

theorem next_of_lookup (h : s.heap.lookup p = some n) : s.next p = n.next := by simp [next, h]

theorem prev_of_lookup (h : s.heap.lookup p = some n) : s.prev p = n.prev := by simp [prev, h]

theorem data_of_lookup (h : s.heap.lookup p = some n) : s.data p = some (n.expire, n.userData) := by
  simp [data, h]

theorem expireOf_of_lookup (h : s.heap.lookup p = some n) : s.expireOf p = n.expire := by
  simp [expireOf, data_of_lookup h]

theorem load_of_lookup (h : s.heap.lookup p = some n) : s.load (some p) = .ok n := by
  simp [load, h]

theorem setNext_of_lookup (h : s.heap.lookup p = some n) :
    s.setNext (some p) v = .ok (s.put p { n with next := v }) := by simp [setNext, store, h]

theorem setPrev_of_lookup (h : s.heap.lookup p = some n) :
    s.setPrev (some p) v = .ok (s.put p { n with prev := v }) := by simp [setPrev, store, h]

theorem setExpire_of_lookup {e : Int} (h : s.heap.lookup p = some n) :
    s.setExpire (some p) e = .ok (s.put p { n with expire := e }) := by simp [setExpire, store, h]

theorem delete_of_lookup (h : s.heap.lookup p = some n) : s.delete p = .ok (s.free p) := by
  simp [delete, h]

theorem lookup_of_data {d : Int × Nat} (h : s.data p = some d) :
    ∃ n, s.heap.lookup p = some n ∧ n.expire = d.1 ∧ n.userData = d.2 := by
  obtain ⟨n, hn, rfl⟩ := Option.map_eq_some_iff.mp h
  exact ⟨n, hn, rfl, rfl⟩

/-- Rewriting the links of a timer leaves what every timer carries. -/
theorem data_put_links (h : s.heap.lookup p = some n) (he : m.expire = n.expire)
    (hu : m.userData = n.userData) : (s.put p m).data = s.data := by
  funext q
  rw [data_put]
  split
  · rename_i hq; rw [hq, data_of_lookup h, he, hu]
  · rfl

theorem before_congr (h : s'.data = s.data) : s'.Before = s.Before := by
  unfold Before expireOf; rw [h]

end

/-! ## Representation -/

/-- The timers `next` visits from `head` are those of `l`, linked both ways; `tail` is the last of
    them. Of an empty list nothing is said about `tail`: `tick` leaves it where it was. -/
structure Rep (s : SortTimerLst) (l : List Ptr) : Prop where
  live : ∀ p ∈ l, ∃ n, s.heap.lookup p = some n
  nodup : l.Nodup
  seg : Seg s.next s.prev none l none
  head : s.head = l.head?
  tail : ∀ p ∈ l.getLast?, s.tail = some p

theorem empty_rep : Rep empty [] :=
  ⟨by simp, .nil, trivial, rfl, by simp⟩

theorem nodup_dropLast {l : List Ptr} (h : l.Nodup) {y : Ptr} (hy : y ∈ l.dropLast) :
    y ∉ l.getLast? := by
  intro hl
  obtain ⟨l', rfl⟩ := List.getLast?_eq_some_iff.mp hl
  simp only [List.dropLast_concat] at hy
  exact (List.nodup_append.mp h).2.2 y hy y (by simp) rfl

theorem nodup_tail {l : List Ptr} (h : l.Nodup) {y : Ptr} (hy : y ∈ l.tail) : y ∉ l.head? := by
  intro hl
  obtain ⟨l', rfl⟩ := List.head?_eq_some_iff.mp hl
  exact (List.nodup_cons.mp h).1 hy

section
variable {s s' : SortTimerLst} {l l₁ l₂ : List Ptr} {x : Ptr}

/-- Linking a timer in: what the four link writes must have achieved. -/
theorem Rep.link (h : Rep s (l₁ ++ l₂)) (hx : x ∉ l₁ ++ l₂)
    (hdata : s'.data = s.data) (hlive : ∃ d, s.data x = some d)
    (hnx : s'.next x = l₂.head?) (hpx : s'.prev x = l₁.getLast?)
    (hlast : ∀ z ∈ l₁.getLast?, s'.next z = some x) (hhead : ∀ z ∈ l₂.head?, s'.prev z = some x)
    (hn : ∀ y, y ≠ x → y ∉ l₁.getLast? → s'.next y = s.next y)
    (hp : ∀ y, y ≠ x → y ∉ l₂.head? → s'.prev y = s.prev y)
    (hh : s'.head = (l₁ ++ x :: l₂).head?) (ht : ∀ z ∈ (l₁ ++ x :: l₂).getLast?, s'.tail = some z) :
    Rep s' (l₁ ++ x :: l₂) where
  live p hmem := by
    have hd : ∃ d, s.data p = some d := by
      rcases List.mem_append.mp hmem with hm | hm
      · obtain ⟨n, hn⟩ := h.live p (List.mem_append_left _ hm)
        exact ⟨_, data_of_lookup hn⟩
      · rcases List.mem_cons.mp hm with rfl | hm
        · exact hlive
        · obtain ⟨n, hn⟩ := h.live p (List.mem_append_right _ hm)
          exact ⟨_, data_of_lookup hn⟩
    obtain ⟨d, hd⟩ := hd
    obtain ⟨n, hn, -⟩ := lookup_of_data (hdata ▸ hd)
    exact ⟨n, hn⟩
  nodup := List.nodup_middle.mpr (List.nodup_cons.mpr ⟨hx, h.nodup⟩)
  seg := by
    have hnd := List.nodup_append.mp h.nodup
    refine h.seg.link ⟨by simpa using hnx, by simpa using hpx⟩ hlast hhead ?_ ?_
    · intro y hy
      have hyx : y ≠ x := by
        rintro rfl
        rcases List.mem_append.mp hy with hy | hy
        · exact hx (List.mem_append_left _ (List.dropLast_subset _ hy))
        · exact hx (List.mem_append_right _ hy)
      refine hn y hyx fun hyl => ?_
      rcases List.mem_append.mp hy with hy | hy
      · exact nodup_dropLast hnd.1 hy hyl
      · exact hnd.2.2 y (List.mem_of_getLast? hyl) y hy rfl
    · intro y hy
      have hyx : y ≠ x := by
        rintro rfl
        rcases List.mem_append.mp hy with hy | hy
        · exact hx (List.mem_append_left _ hy)
        · exact hx (List.mem_append_right _ (List.mem_of_mem_tail hy))
      refine hp y hyx fun hyl => ?_
      rcases List.mem_append.mp hy with hy | hy
      · exact hnd.2.2 y hy y (List.mem_of_head? hyl) rfl
      · exact nodup_tail hnd.2.1 hy hyl
  head := hh
  tail := ht

/-- Unlinking a timer: what the two link writes must have achieved. Deleting it afterwards is
    allowed, since nothing is asked of its own cell. -/
theorem Rep.unlink (h : Rep s (l₁ ++ x :: l₂)) (hdata : ∀ y, y ≠ x → s'.data y = s.data y)
    (hlast : ∀ z ∈ l₁.getLast?, s'.next z = l₂.head?)
    (hhead : ∀ z ∈ l₂.head?, s'.prev z = l₁.getLast?)
    (hn : ∀ y, y ≠ x → y ∉ l₁.getLast? → s'.next y = s.next y)
    (hp : ∀ y, y ≠ x → y ∉ l₂.head? → s'.prev y = s.prev y)
    (hh : s'.head = (l₁ ++ l₂).head?) (ht : ∀ z ∈ (l₁ ++ l₂).getLast?, s'.tail = some z) :
    Rep s' (l₁ ++ l₂) := by
  have hx := List.nodup_cons.mp (List.nodup_middle.mp h.nodup)
  have hnd := List.nodup_append.mp hx.2
  refine ⟨fun p hmem => ?_, hx.2, h.seg.unlink (by simpa using hlast) (by simpa using hhead) ?_ ?_,
    hh, ht⟩
  · have hpx : p ≠ x := fun e => hx.1 (e ▸ hmem)
    obtain ⟨n, hn⟩ := h.live p (by
      rcases List.mem_append.mp hmem with hm | hm
      · exact List.mem_append_left _ hm
      · exact List.mem_append_right _ (List.mem_cons_of_mem _ hm))
    have hd := hdata p hpx
    rw [data_of_lookup hn] at hd
    obtain ⟨n', hn', -⟩ := lookup_of_data hd
    exact ⟨n', hn'⟩
  · intro y hy
    refine hn y (fun e => hx.1 ?_) fun hyl => ?_
    · rcases List.mem_append.mp hy with hy | hy
      · exact List.mem_append_left _ (e ▸ List.dropLast_subset _ hy)
      · exact List.mem_append_right _ (e ▸ hy)
    · rcases List.mem_append.mp hy with hy | hy
      · exact nodup_dropLast hnd.1 hy hyl
      · exact hnd.2.2 y (List.mem_of_getLast? hyl) y hy rfl
  · intro y hy
    refine hp y (fun e => hx.1 ?_) fun hyl => ?_
    · rcases List.mem_append.mp hy with hy | hy
      · exact List.mem_append_left _ (e ▸ hy)
      · exact List.mem_append_right _ (e ▸ List.mem_of_mem_tail hy)
    · rcases List.mem_append.mp hy with hy | hy
      · exact hnd.2.2 y hy y (List.mem_of_head? hyl) rfl
      · exact nodup_tail hnd.2.1 hy hyl

/-- Rewriting a timer that is not linked leaves the chain alone. -/
theorem Rep.put (h : Rep s l) (hx : x ∉ l) (n : UtilTimer) : Rep (s.put x n) l := by
  have hne : ∀ y ∈ l, y ≠ x := fun y hy e => hx (e ▸ hy)
  refine ⟨fun p hp => ?_, h.nodup, h.seg.congr ?_ ?_, h.head, h.tail⟩
  · rw [lookup_put, if_neg (hne p hp)]; exact h.live p hp
  · exact fun y hy => by rw [next_put, if_neg (hne y hy)]
  · exact fun y hy => by rw [prev_put, if_neg (hne y hy)]

/-- So does rewriting the deadline of one that is. -/
theorem Rep.putExpire (h : Rep s l) {n : UtilTimer} (hn : s.heap.lookup x = some n) (e : Int) :
    Rep (s.put x { n with expire := e }) l := by
  refine ⟨fun p hp => ?_, h.nodup, h.seg.congr ?_ ?_, h.head, h.tail⟩
  · rw [lookup_put]
    split
    · exact ⟨_, rfl⟩
    · exact h.live p hp
  · intro y _
    rw [next_put]
    split
    · rename_i hy; rw [hy, next_of_lookup hn]
    · rfl
  · intro y _
    rw [prev_put]
    split
    · rename_i hy; rw [hy, prev_of_lookup hn]
    · rfl

theorem Rep.length_le (h : Rep s l) : l.length ≤ s.heap.keys.length := by
  refine (List.subperm_of_subset h.nodup fun p hp => ?_).length_le
  obtain ⟨n, hn⟩ := h.live p hp
  exact AList.mem_keys.mp (AList.lookup_isSome.mp (by rw [hn]; rfl))

end

/-! ## `add_timer` -/

section
variable {s : SortTimerLst} {l l₁ l₂ : List Ptr} {timer prev tmp : Ptr} {t : UtilTimer}

/-- The walk has fallen off the end: `timer` becomes the last. -/
theorem linkLast_rep (h : Rep s (l ++ [prev])) (ht : s.heap.lookup timer = some t)
    (hmem : timer ∉ l ++ [prev]) (fuel : Nat) :
    ∃ s', addTimerLoop fuel s timer (some prev) none = .ok s' ∧
      Rep s' ((l ++ [prev]) ++ [timer]) ∧ s'.data = s.data := by
  obtain ⟨P, hP⟩ := h.live prev (by simp)
  have hne : timer ≠ prev := fun e => hmem (by simp [e])
  have hpt : prev ≠ timer := Ne.symm hne
  let s₁ := s.put prev { P with next := some timer }
  let s₂ := s₁.put timer { t with prev := some prev }
  let s₃ := s₂.put timer { t with prev := some prev, next := none }
  have h₁ : s₁.heap.lookup timer = some t := by simp [s₁, hne, ht]
  have h₂ : s₂.heap.lookup timer = some { t with prev := some prev } := by simp [s₂]
  have hd₁ : s₁.data = s.data := data_put_links hP rfl rfl
  have hd₂ : s₂.data = s.data := by rw [← hd₁]; exact data_put_links h₁ rfl rfl
  have hd₃ : s₃.data = s.data := by rw [← hd₂]; exact data_put_links h₂ rfl rfl
  refine ⟨{ s₃ with tail := some timer }, ?_, ?_, hd₃⟩
  · have hrun : addTimerLoop fuel s timer (some prev) none = (do
        let s ← s.setNext (some prev) (some timer)
        let s ← s.setPrev (some timer) (some prev)
        let s ← s.setNext (some timer) none
        pure { s with tail := some timer }) := by cases fuel <;> rfl
    rw [hrun, setNext_of_lookup hP]
    show (s₁.setPrev (some timer) (some prev) >>= _) = _
    rw [setPrev_of_lookup h₁]
    show (s₂.setNext (some timer) none >>= _) = _
    rw [setNext_of_lookup h₂]; rfl
  · refine Rep.link (s := s) (by simpa using h) (by simpa using hmem) hd₃
      ⟨_, data_of_lookup ht⟩ ?_ ?_ ?_ (by simp) ?_ ?_ ?_ (by simp)
    · show s₃.next timer = _; simp [s₃]
    · show s₃.prev timer = _; simp [s₃]
    · intro z hz
      obtain rfl : prev = z := by simpa using hz
      show s₃.next prev = _; simp [s₃, s₂, s₁, hpt]
    · intro y hy hyl
      have hyp : y ≠ prev := fun e => hyl (by simp [e])
      show s₃.next y = _; simp [s₃, s₂, s₁, hy, hyp]
    · intro y hy _
      show s₃.prev y = _
      by_cases hyp : y = prev
      · subst hyp; simp [s₃, s₂, s₁, hpt, prev_of_lookup hP]
      · simp [s₃, s₂, s₁, hy, hyp]
    · show s.head = _; rw [h.head]; simp

/-- The `break`: the four assignments that put `timer` between `prev` and `tmp`. -/
theorem linkBetween_rep (h : Rep s (l₁ ++ prev :: tmp :: l₂)) (ht : s.heap.lookup timer = some t)
    (hmem : timer ∉ l₁ ++ prev :: tmp :: l₂) :
    ∃ s', (do
        let s ← s.setNext (some prev) (some timer)
        let s ← s.setNext (some timer) (some tmp)
        let s ← s.setPrev (some tmp) (some timer)
        s.setPrev (some timer) (some prev)) = .ok s' ∧
      Rep s' ((l₁ ++ [prev]) ++ timer :: tmp :: l₂) ∧ s'.data = s.data := by
  obtain ⟨P, hP⟩ := h.live prev (by simp)
  obtain ⟨M, hM⟩ := h.live tmp (by simp)
  have hne : timer ≠ prev := fun e => hmem (by simp [e])
  have hnt : timer ≠ tmp := fun e => hmem (by simp [e])
  have hpt : prev ≠ tmp := by
    have := (List.nodup_append.mp h.nodup).2.1
    exact fun e => (List.nodup_cons.mp this).1 (by simp [e])
  let s₁ := s.put prev { P with next := some timer }
  let s₂ := s₁.put timer { t with next := some tmp }
  let s₃ := s₂.put tmp { M with prev := some timer }
  let s₄ := s₃.put timer { t with next := some tmp, prev := some prev }
  have h₁ : s₁.heap.lookup timer = some t := by simp [s₁, hne, ht]
  have h₂ : s₂.heap.lookup tmp = some M := by simp [s₂, s₁, Ne.symm hnt, Ne.symm hpt, hM]
  have h₃ : s₃.heap.lookup timer = some { t with next := some tmp } := by simp [s₃, s₂, hnt]
  have hd₁ : s₁.data = s.data := data_put_links hP rfl rfl
  have hd₂ : s₂.data = s.data := by rw [← hd₁]; exact data_put_links h₁ rfl rfl
  have hd₃ : s₃.data = s.data := by rw [← hd₂]; exact data_put_links h₂ rfl rfl
  have hd₄ : s₄.data = s.data := by rw [← hd₃]; exact data_put_links h₃ rfl rfl
  refine ⟨s₄, ?_, ?_, hd₄⟩
  · rw [setNext_of_lookup hP]
    show (s₁.setNext (some timer) (some tmp) >>= _) = _
    rw [setNext_of_lookup h₁]
    show (s₂.setPrev (some tmp) (some timer) >>= _) = _
    rw [setPrev_of_lookup h₂]
    exact setPrev_of_lookup h₃
  · refine Rep.link (s := s) (by simpa using h) (by simpa using hmem) hd₄
      ⟨_, data_of_lookup ht⟩ ?_ ?_ ?_ ?_ ?_ ?_ ?_ ?_
    · simp [s₄]
    · simp [s₄]
    · intro z hz
      obtain rfl : prev = z := by simpa using hz
      simp [s₄, s₃, s₂, s₁, Ne.symm hne, hpt]
    · intro z hz
      obtain rfl : tmp = z := by simpa using hz
      simp [s₄, s₃, Ne.symm hnt]
    · intro y hy hyl
      have hyp : y ≠ prev := fun e => hyl (by simp [e])
      by_cases hyt : y = tmp
      · subst hyt; simp [s₄, s₃, hy, next_of_lookup hM]
      · simp [s₄, s₃, s₂, s₁, hy, hyp, hyt]
    · intro y hy hyl
      have hyt : y ≠ tmp := fun e => hyl (by simp [e])
      by_cases hyp : y = prev
      · subst hyp; simp [s₄, s₃, s₂, s₁, hy, hyt, prev_of_lookup hP]
      · simp [s₄, s₃, s₂, s₁, hy, hyp, hyt]
    · show s.head = _; rw [h.head]; simp
    · intro z hz; show s.tail = _; exact h.tail z (by simpa [List.getLast?_append] using hz)

/-- **The insertion loop.** Induction on what is left of the walk: `prev` moves over one timer a
    round, and the round that stops links `timer` in at the seam it stands at. -/
theorem addTimerLoop_rep : ∀ (l₂ : List Ptr) {l₁ : List Ptr} {prev : Ptr} {fuel : Nat},
    Rep s (l₁ ++ prev :: l₂) → s.heap.lookup timer = some t → timer ∉ l₁ ++ prev :: l₂ →
    l₂.length ≤ fuel →
    ∃ s', addTimerLoop fuel s timer (some prev) l₂.head? = .ok s' ∧
      Rep s' ((l₁ ++ [prev]) ++ l₂.orderedInsert s.Before timer) ∧ s'.data = s.data
  | [], _, _, fuel, h, ht, hmem, _ => linkLast_rep h ht hmem fuel
  | tmp :: l₂, _, _, 0, _, _, _, hfuel => by simp at hfuel
  | tmp :: l₂, l₁, prev, fuel + 1, h, ht, hmem, hfuel => by
    obtain ⟨M, hM⟩ := h.live tmp (by simp)
    have hlt : s.Before timer tmp ↔ t.expire < M.expire := by
      unfold Before; rw [expireOf_of_lookup ht, expireOf_of_lookup hM]
    rw [List.head?_cons, addTimerLoop, load_of_lookup ht, load_of_lookup hM]
    simp only [bind, Except.bind]
    by_cases hcmp : t.expire < M.expire
    · rw [if_pos hcmp, List.orderedInsert, if_pos (hlt.mpr hcmp)]
      exact linkBetween_rep h ht hmem
    · rw [if_neg hcmp, List.orderedInsert, if_neg (fun hb => hcmp (hlt.mp hb))]
      have hrep : Rep s ((l₁ ++ [prev]) ++ tmp :: l₂) := by simpa using h
      have hnext : M.next = l₂.head? := by
        rw [← next_of_lookup hM, hrep.seg.links.1, Option.or_none]
      have ih := addTimerLoop_rep l₂ hrep ht (by simpa using hmem) (by simpa using hfuel)
      rw [hnext]
      simpa using ih

/-- The private `add_timer`, from any timer of the list: it inserts into what follows. The number
    of allocated timers is fuel enough, since the list is no longer than that. -/
theorem addTimerFrom_rep (h : Rep s (l₁ ++ prev :: l₂)) (ht : s.heap.lookup timer = some t)
    (hmem : timer ∉ l₁ ++ prev :: l₂) :
    ∃ s', s.addTimerFrom timer (some prev) = .ok s' ∧
      Rep s' (l₁ ++ prev :: l₂.orderedInsert s.Before timer) ∧ s'.data = s.data := by
  obtain ⟨P, hP⟩ := h.live prev (by simp)
  have hlen : l₂.length ≤ s.heap.keys.length := by
    have := h.length_le; simp only [List.length_append, List.length_cons] at this; omega
  have hnext : P.next = l₂.head? := by
    rw [← next_of_lookup hP, h.seg.links.1, Option.or_none]
  unfold addTimerFrom
  rw [load_of_lookup hP]
  show ∃ s', addTimerLoop _ s timer (some prev) P.next = _ ∧ _
  rw [hnext]
  have hloop := addTimerLoop_rep l₂ h ht hmem hlen
  simpa using hloop

/-- **`add_timer` is ordered insertion**, on any represented list: the head comparison and the loop
    together put the timer before the first one with a later deadline. -/
theorem addTimer_rep (h : Rep s l) (ht : s.heap.lookup timer = some t) (hmem : timer ∉ l)
    (hfresh : t.next = none ∧ t.prev = none) :
    ∃ s', s.addTimer (some timer) = .ok s' ∧ Rep s' (l.orderedInsert s.Before timer) ∧
      s'.data = s.data := by
  have hnt := next_of_lookup ht
  have hpt := prev_of_lookup ht
  unfold addTimer
  rw [h.head]
  cases l with
  | nil =>
    refine ⟨_, rfl, ?_, rfl⟩
    refine ⟨fun p hp => ?_, by simp, ⟨?_, ?_, trivial⟩, rfl, by simp⟩
    · obtain rfl : p = timer := by simpa using hp
      exact ⟨t, ht⟩
    · show s.prev timer = none; rw [hpt, hfresh.2]
    · show s.next timer = _; rw [hnt, hfresh.1]; rfl
  | cons head l =>
    obtain ⟨H, hH⟩ := h.live head (by simp)
    have hne : timer ≠ head := fun e => hmem (by simp [e])
    have hlt : s.Before timer head ↔ t.expire < H.expire := by
      unfold Before; rw [expireOf_of_lookup ht, expireOf_of_lookup hH]
    simp only [List.head?_cons, load_of_lookup ht, load_of_lookup hH, bind, Except.bind]
    by_cases hcmp : t.expire < H.expire
    · rw [if_pos hcmp, List.orderedInsert, if_pos (hlt.mpr hcmp), setNext_of_lookup ht]
      let s₁ := s.put timer { t with next := some head }
      let s₂ := s₁.put head { H with prev := some timer }
      have h₁ : s₁.heap.lookup head = some H := by simp [s₁, Ne.symm hne, hH]
      have hd₁ : s₁.data = s.data := data_put_links ht rfl rfl
      have hd₂ : s₂.data = s.data := by rw [← hd₁]; exact data_put_links h₁ rfl rfl
      refine ⟨{ s₂ with head := some timer }, ?_, ?_, hd₂⟩
      · show (s₁.setPrev (some head) (some timer) >>= _) = _
        rw [setPrev_of_lookup h₁]; rfl
      · refine Rep.link (show Rep s ([] ++ head :: l) from h) hmem hd₂ ⟨_, data_of_lookup ht⟩ ?_ ?_ (by simp) ?_
          ?_ ?_ rfl ?_
        · show s₂.next timer = _; simp [s₂, s₁, hne]
        · show s₂.prev timer = _; simp [s₂, s₁, hne, hfresh.2]
        · intro z hz
          obtain rfl : head = z := by simpa using hz
          show s₂.prev head = _; simp [s₂]
        · intro y hy _
          show s₂.next y = _
          by_cases hyh : y = head
          · subst hyh; simp [s₂, next_of_lookup hH]
          · simp [s₂, s₁, hy, hyh]
        · intro y hy hyl
          have hyh : y ≠ head := fun e => hyl (by simp [e])
          show s₂.prev y = _; simp [s₂, s₁, hy, hyh]
        · intro z hz; show s.tail = _; exact h.tail z (by simpa [List.getLast?_cons] using hz)
    · rw [if_neg hcmp, List.orderedInsert, if_neg (fun hb => hcmp (hlt.mp hb))]
      exact addTimerFrom_rep (show Rep s ([] ++ head :: l) from h) ht hmem

end

/-! ## `adjust_timer` -/

section
variable {s : SortTimerLst} {l₁ l₂ : List Ptr} {timer tmp : Ptr}

theorem Rep.head_iff (h : Rep s (l₁ ++ timer :: l₂)) : s.head = some timer ↔ l₁ = [] := by
  rw [h.head]
  cases l₁ with
  | nil => simp
  | cons x l₁ =>
    have hx : x ∉ l₁ ++ timer :: l₂ := (List.nodup_cons.mp h.nodup).1
    simp only [List.cons_append, List.head?_cons, Option.some.injEq, reduceCtorEq, iff_false]
    exact fun e => hx (by simp [e])

theorem Rep.tail_iff (h : Rep s (l₁ ++ timer :: l₂)) : s.tail = some timer ↔ l₂ = [] := by
  have hne : l₁ ++ timer :: l₂ ≠ [] := by simp
  rw [h.tail _ (List.getLast?_eq_some_getLast hne)]
  cases l₂ with
  | nil => simp
  | cons x l₂ =>
    have hx : timer ∉ x :: l₂ := (List.nodup_cons.mp (List.nodup_append.mp h.nodup).2.1).1
    rw [List.getLast_append_of_ne_nil hne (List.cons_ne_nil _ _),
      List.getLast_cons (List.cons_ne_nil _ _)]
    simp only [Option.some.injEq, reduceCtorEq, iff_false]
    exact fun e => hx (e ▸ List.getLast_mem (by simp))

/-- The two writes that take a timer which is not the last out of the chain. They are the whole of
    `adjust_timer`'s unlinking and the middle case of `del_timer`'s. -/
theorem unlinkMiddle_rep {x : Ptr} (h : Rep s (l₁ ++ [x] ++ timer :: tmp :: l₂)) :
    ∃ s', (s.setNext (some x) (some tmp) >>= fun s => s.setPrev (some tmp) (some x)) = .ok s' ∧
      Rep s' (l₁ ++ [x] ++ tmp :: l₂) ∧ s'.data = s.data := by
  obtain ⟨X, hX⟩ := h.live x (by simp)
  obtain ⟨M, hM⟩ := h.live tmp (by simp)
  have hnd := h.nodup
  have hxt : x ≠ tmp := fun e =>
    (List.nodup_append.mp hnd).2.2 x (by simp) tmp (by simp) e
  let s₁ := s.put x { X with next := some tmp }
  let s₂ := s₁.put tmp { M with prev := some x }
  have h₁ : s₁.heap.lookup tmp = some M := by simp [s₁, Ne.symm hxt, hM]
  have hd₁ : s₁.data = s.data := data_put_links hX rfl rfl
  have hd₂ : s₂.data = s.data := by rw [← hd₁]; exact data_put_links h₁ rfl rfl
  refine ⟨s₂, ?_, ?_, hd₂⟩
  · rw [setNext_of_lookup hX]; exact setPrev_of_lookup h₁
  · refine Rep.unlink h (fun _ _ => by rw [hd₂]) ?_ ?_ ?_ ?_ ?_ ?_
    · intro z hz
      obtain rfl : x = z := by simpa using hz
      simp [s₂, s₁, hxt]
    · intro z hz
      obtain rfl : tmp = z := by simpa using hz
      simp [s₂]
    · intro y _ hyl
      have hyx : y ≠ x := fun e => hyl (by simp [e])
      by_cases hyt : y = tmp
      · subst hyt; simp [s₂, next_of_lookup hM]
      · simp [s₂, s₁, hyx, hyt]
    · intro y _ hyl
      have hyt : y ≠ tmp := fun e => hyl (by simp [e])
      by_cases hyx : y = x
      · subst hyx; simp [s₂, s₁, hyt, prev_of_lookup hX]
      · simp [s₂, s₁, hyx, hyt]
    · show s.head = _; rw [h.head]; cases l₁ <;> simp
    · intro z hz; show s.tail = _; exact h.tail z (by simpa [List.getLast?_append] using hz)

/-- The write that takes the first of several timers out of the chain. -/
theorem unlinkHead_rep (h : Rep s (timer :: tmp :: l₂)) :
    ∃ s', ({ s with head := some tmp } : SortTimerLst).setPrev (some tmp) none = .ok s' ∧
      Rep s' (tmp :: l₂) ∧ s'.data = s.data := by
  obtain ⟨M, hM⟩ := h.live tmp (by simp)
  let s₁ : SortTimerLst := { s with head := some tmp }
  have hM₁ : s₁.heap.lookup tmp = some M := hM
  have hd : (s₁.put tmp { M with prev := none }).data = s.data :=
    data_put_links (s := s₁) hM rfl rfl
  refine ⟨_, setPrev_of_lookup hM₁, ?_, hd⟩
  refine Rep.unlink (show Rep s ([] ++ timer :: tmp :: l₂) from h) (fun _ _ => by rw [hd]) (by simp) ?_ ?_ ?_ rfl ?_
  · intro z hz
    obtain rfl : tmp = z := by simpa using hz
    simp
  · intro y _ _
    rw [next_put]
    split
    · rename_i hy; rw [hy, next_of_lookup hM]
    · rfl
  · intro y _ hyl
    have hyt : y ≠ tmp := fun e => hyl (by simp [e])
    rw [prev_put, if_neg hyt]; rfl
  · intro z hz; show s.tail = _; exact h.tail z (by simpa [List.getLast?_cons] using hz)

/-- **`adjust_timer` re-inserts into what follows**, on any represented list. When it returns at
    once, insertion there would have put the timer back where it is. -/
theorem adjustTimer_rep (h : Rep s (l₁ ++ timer :: l₂)) :
    ∃ s', s.adjustTimer (some timer) = .ok s' ∧
      Rep s' (l₁ ++ l₂.orderedInsert s.Before timer) ∧ s'.data = s.data := by
  obtain ⟨t, ht⟩ := h.live timer (by simp)
  have hnext : t.next = l₂.head? := by rw [← next_of_lookup ht, h.seg.links.1, Option.or_none]
  have hprev : t.prev = l₁.getLast? := by rw [← prev_of_lookup ht, h.seg.links.2, Option.or_none]
  unfold adjustTimer
  simp only [load_of_lookup ht, bind, Except.bind, hnext]
  cases l₂ with
  | nil => exact ⟨s, rfl, h, rfl⟩
  | cons tmp l₂ =>
    obtain ⟨M, hM⟩ := h.live tmp (by simp)
    have hnd := List.nodup_middle.mp h.nodup
    have hmem : timer ∉ l₁ ++ tmp :: l₂ := (List.nodup_cons.mp hnd).1
    have hlt : s.Before timer tmp ↔ t.expire < M.expire := by
      unfold Before; rw [expireOf_of_lookup ht, expireOf_of_lookup hM]
    simp only [List.head?_cons, load_of_lookup hM]
    by_cases hcmp : t.expire < M.expire
    · rw [if_pos hcmp, List.orderedInsert, if_pos (hlt.mpr hcmp)]
      exact ⟨s, rfl, h, rfl⟩
    · rw [if_neg hcmp, List.orderedInsert, if_neg (fun hb => hcmp (hlt.mp hb))]
      rcases List.eq_nil_or_concat l₁ with rfl | ⟨l₁, x, rfl⟩
      · have hhead : s.head = some timer := h.head_iff.mpr rfl
        obtain ⟨s₁, hs₁, hrep, hd₁⟩ := unlinkHead_rep h
        obtain ⟨t₁, ht₁, -⟩ := lookup_of_data (hd₁ ▸ data_of_lookup ht)
        let s₂ := s₁.put timer { t₁ with next := none }
        have hd₂ : s₂.data = s.data := by rw [← hd₁]; exact data_put_links ht₁ rfl rfl
        have hrep₂ : Rep s₂ (tmp :: l₂) := hrep.put (by simpa using hmem) _
        have ht₂ : s₂.heap.lookup timer = some { t₁ with next := none } := by simp [s₂]
        obtain ⟨s₃, hs₃, hrep₃, hd₃⟩ :=
          addTimerFrom_rep (show Rep s₂ ([] ++ tmp :: l₂) from hrep₂) ht₂ (by simpa using hmem)
        refine ⟨s₃, ?_, ?_, hd₃.trans hd₂⟩
        · rw [if_pos hhead, hhead, load_of_lookup ht]
          simp only [hnext, List.head?_cons, hs₁, setNext_of_lookup ht₁]
          rw [show s₁.put timer { t₁ with next := none } = s₂ from rfl, hrep₂.head]
          exact hs₃
        · simpa only [before_congr hd₂] using hrep₃
      · have hhead : s.head ≠ some timer := fun e => by simpa using h.head_iff.mp e
        obtain ⟨s₁, hs₁, hrep, hd₁⟩ := unlinkMiddle_rep (by simpa using h)
        obtain ⟨t₁, ht₁, -⟩ := lookup_of_data (hd₁ ▸ data_of_lookup ht)
        obtain ⟨s₂, hs₂, hrep₂, hd₂⟩ := addTimerFrom_rep hrep ht₁ (by simpa using hmem)
        refine ⟨s₂, ?_, ?_, hd₂.trans hd₁⟩
        · have hx : t.prev = some x := by rw [hprev]; simp
          obtain ⟨s', hs', hs''⟩ := bind_eq_ok.mp hs₁
          rw [if_neg hhead]
          simp only [hx, hs', hs'']
          exact hs₂
        · simpa only [before_congr hd₁, List.concat_eq_append] using hrep₂

end

/-! ## `del_timer` -/

section
variable {s : SortTimerLst} {l l₁ l₂ : List Ptr} {timer : Ptr}

/-- Deleting a timer that is no longer linked leaves the chain alone. -/
theorem Rep.free (h : Rep s l) (hmem : timer ∉ l) : Rep (s.free timer) l := by
  have hne : ∀ y ∈ l, y ≠ timer := fun y hy e => hmem (e ▸ hy)
  refine ⟨fun p hp => ?_, h.nodup, h.seg.congr ?_ ?_, h.head, h.tail⟩
  · obtain ⟨n, hn⟩ := h.live p hp
    exact ⟨n, by rw [lookup_free, if_neg (hne p hp), hn]⟩
  · exact fun y hy => next_free (hne y hy)
  · exact fun y hy => prev_free (hne y hy)

theorem Rep.delete (h : Rep s l) (hmem : timer ∉ l) {d : Int × Nat} (hd : s.data timer = some d) :
    ∃ s', s.delete timer = .ok s' ∧ Rep s' l ∧ s'.data = Function.update s.data timer none := by
  obtain ⟨n, hn, -⟩ := lookup_of_data hd
  exact ⟨_, delete_of_lookup hn, h.free hmem, data_free⟩

/-- The write that takes the last of several timers out of the chain. -/
theorem unlinkLast_rep {x : Ptr} (h : Rep s (l₁ ++ [x] ++ timer :: [])) :
    ∃ s', ({ s with tail := some x } : SortTimerLst).setNext (some x) none = .ok s' ∧
      Rep s' (l₁ ++ [x]) ∧ s'.data = s.data := by
  obtain ⟨X, hX⟩ := h.live x (by simp)
  let s₁ : SortTimerLst := { s with tail := some x }
  have hX₁ : s₁.heap.lookup x = some X := hX
  have hd : (s₁.put x { X with next := none }).data = s.data := data_put_links (s := s₁) hX rfl rfl
  refine ⟨_, setNext_of_lookup hX₁, ?_, hd⟩
  have hrep : Rep (s₁.put x { X with next := none }) (l₁ ++ [x] ++ []) := by
    refine Rep.unlink h (fun _ _ => by rw [hd]) ?_ (by simp) ?_ ?_ ?_ ?_
    · intro z hz
      obtain rfl : x = z := by simpa using hz
      simp
    · intro y _ hyl
      have hyx : y ≠ x := fun e => hyl (by simp [e])
      rw [next_put, if_neg hyx]; rfl
    · intro y _ _
      rw [prev_put]
      split
      · rename_i hy; rw [hy, prev_of_lookup hX]
      · rfl
    · show s.head = _; rw [h.head]; cases l₁ <;> simp
    · intro z hz
      obtain rfl : x = z := by simpa using hz
      rfl
  simpa using hrep

/-- **`del_timer` is erasure**, in each of its four cases. -/
theorem delTimer_rep (h : Rep s (l₁ ++ timer :: l₂)) :
    ∃ s', s.delTimer (some timer) = .ok s' ∧ Rep s' (l₁ ++ l₂) ∧
      s'.data = Function.update s.data timer none := by
  obtain ⟨t, ht⟩ := h.live timer (by simp)
  have hnext : t.next = l₂.head? := by rw [← next_of_lookup ht, h.seg.links.1, Option.or_none]
  have hprev : t.prev = l₁.getLast? := by rw [← prev_of_lookup ht, h.seg.links.2, Option.or_none]
  have hmem : timer ∉ l₁ ++ l₂ := (List.nodup_cons.mp (List.nodup_middle.mp h.nodup)).1
  unfold delTimer
  rcases List.eq_nil_or_concat l₁ with rfl | ⟨l₁, x, rfl⟩
  · have hhead : s.head = some timer := h.head_iff.mpr rfl
    cases l₂ with
    | nil =>
      have htail : s.tail = some timer := h.tail_iff.mpr rfl
      simp only [hhead, htail, and_self, if_true, delete_of_lookup ht, bind, Except.bind]
      exact ⟨_, rfl, ⟨by simp, .nil, trivial, rfl, by simp⟩, data_free⟩
    | cons tmp l₂ =>
      have htail : s.tail ≠ some timer := fun e => by simpa using h.tail_iff.mp e
      obtain ⟨s₁, hs₁, hrep, hd₁⟩ := unlinkHead_rep h
      obtain ⟨s₂, hs₂, hrep₂, hd₂⟩ := hrep.delete (by simpa using hmem)
        (hd₁ ▸ data_of_lookup ht)
      refine ⟨s₂, ?_, hrep₂, by rw [hd₂, hd₁]⟩
      simp only [hhead, htail, and_false, if_false, if_true, load_of_lookup ht, hnext,
        List.head?_cons, bind, Except.bind, hs₁]
      exact hs₂
  · have hhead : s.head ≠ some timer := fun e => by simpa using h.head_iff.mp e
    have hx : t.prev = some x := by rw [hprev]; simp
    simp only [List.concat_eq_append] at h hmem ⊢
    cases l₂ with
    | nil =>
      have htail : s.tail = some timer := h.tail_iff.mpr rfl
      obtain ⟨s₁, hs₁, hrep, hd₁⟩ := unlinkLast_rep h
      obtain ⟨s₂, hs₂, hrep₂, hd₂⟩ := hrep.delete (by simpa using hmem)
        (hd₁ ▸ data_of_lookup ht)
      refine ⟨s₂, ?_, by simpa using hrep₂, by rw [hd₂, hd₁]⟩
      simp only [hhead, htail, false_and, if_false, if_true, load_of_lookup ht, hx,
        bind, Except.bind, hs₁]
      exact hs₂
    | cons tmp l₂ =>
      have htail : s.tail ≠ some timer := fun e => by simpa using h.tail_iff.mp e
      obtain ⟨s₁, hs₁, hrep, hd₁⟩ := unlinkMiddle_rep h
      obtain ⟨s₂, hs₂, hrep₂, hd₂⟩ := hrep.delete hmem (hd₁ ▸ data_of_lookup ht)
      refine ⟨s₂, ?_, hrep₂, by rw [hd₂, hd₁]⟩
      obtain ⟨s', hs', hs''⟩ := bind_eq_ok.mp hs₁
      simp only [hhead, htail, and_self, if_false, load_of_lookup ht, hx, hnext, List.head?_cons,
        bind, Except.bind, hs', hs'']
      exact hs₂

end

/-! ## `tick` -/

/-- The deadline a timer carries has passed at `cur`. -/
def due (d : Ptr → Option (Int × Nat)) (cur : Int) (p : Ptr) : Bool :=
  match d p with
  | some (e, _) => e ≤ cur
  | none => false

/-- The `user_data` a timer carries. -/
def slotIn (d : Ptr → Option (Int × Nat)) (p : Ptr) : Nat := ((d p).map Prod.snd).getD 0

section
variable {s : SortTimerLst} {l : List Ptr} {d : Ptr → Option (Int × Nat)} {cur : Int}

/-- One round of `tick` on an expired head: the head is gone, and the rest is as it was. -/
theorem tickRound_rep {x : Ptr} (h : Rep s (x :: l)) {t : UtilTimer}
    (ht : s.heap.lookup x = some t) :
    ∃ s', (({ s with head := t.next } : SortTimerLst).cutHead >>= fun s => s.delete x) = .ok s' ∧
      Rep s' l ∧ s'.data = Function.update s.data x none := by
  have hnext : t.next = l.head? := by
    rw [← next_of_lookup ht, (show Seg s.next s.prev none ([] ++ x :: l) none from h.seg).links.1, Option.or_none]
  have hmem : x ∉ l := (List.nodup_cons.mp h.nodup).1
  cases l with
  | nil =>
    refine ⟨({ s with head := t.next } : SortTimerLst).free x, ?_,
      ⟨by simp, .nil, trivial, hnext, by simp⟩, data_free⟩
    simp only [hnext, List.head?_nil, cutHead, bind, Except.bind]
    exact delete_of_lookup (s := { s with head := none }) ht
  | cons tmp l =>
    obtain ⟨s₁, hs₁, hrep, hd₁⟩ := unlinkHead_rep h
    obtain ⟨s₂, hs₂, hrep₂, hd₂⟩ := hrep.delete hmem (hd₁ ▸ data_of_lookup ht)
    refine ⟨s₂, ?_, hrep₂, by rw [hd₂, hd₁]⟩
    simp only [hnext, List.head?_cons, cutHead, hs₁, bind, Except.bind]
    exact hs₂

/-- **The eviction loop.** Induction on the list; `d` is what the timers carried when the tick
    began, which deleting the head leaves true of the rest. -/
theorem tickLoop_rep (h : Rep s l) (hd : ∀ p ∈ l, s.data p = d p) {fuel : Nat}
    (hfuel : l.length ≤ fuel) :
    ∃ s', tickLoop fuel cur s l.head? = .ok ((l.takeWhile (due d cur)).map (slotIn d), s') ∧
      Rep s' (l.dropWhile (due d cur)) ∧
      ∀ p, s'.data p = if p ∈ l.takeWhile (due d cur) then none else s.data p := by
  induction l generalizing s fuel with
  | nil => exact ⟨s, by cases fuel <;> rfl, h, by simp⟩
  | cons x l ih =>
    cases fuel with
    | zero => simp at hfuel
    | succ fuel =>
    obtain ⟨t, ht⟩ := h.live x (by simp)
    have hdx : d x = some (t.expire, t.userData) := by
      rw [← hd x (by simp), data_of_lookup ht]
    have hmem : x ∉ l := (List.nodup_cons.mp h.nodup).1
    rw [List.head?_cons, tickLoop]
    simp only [load_of_lookup ht, bind, Except.bind]
    by_cases hcur : cur < t.expire
    · have hdue : due d cur x = false := by simp [due, hdx, hcur]
      rw [if_pos hcur, List.takeWhile_cons, List.dropWhile_cons, hdue]
      exact ⟨s, rfl, h, by simp⟩
    · have hdue : due d cur x = true := by simpa [due, hdx] using hcur
      rw [if_neg hcur, List.takeWhile_cons, List.dropWhile_cons, if_pos hdue, if_pos hdue]
      obtain ⟨s₁, hs₁, hrep, hd₁⟩ := tickRound_rep h ht
      have hd' : ∀ p ∈ l, s₁.data p = d p := by
        intro p hp
        have hpx : p ≠ x := fun e => hmem (e ▸ hp)
        rw [hd₁, Function.update_of_ne hpx, hd p (List.mem_cons_of_mem _ hp)]
      have hfuel' : l.length ≤ fuel := by simpa using hfuel
      obtain ⟨s₂, hs₂, hrep₂, hd₂⟩ := ih hrep hd' hfuel'
      refine ⟨s₂, ?_, hrep₂, fun p => ?_⟩
      · obtain ⟨s', hs', hs''⟩ := bind_eq_ok.mp hs₁
        simp only [hs', hs'', hrep.head, hs₂]
        simp [slotIn, hdx, pure, Except.pure]
      · rw [hd₂ p, hd₁]
        by_cases hpx : p = x
        · subst hpx; simp
        · simp [hpx]

/-- **`tick` evicts a prefix**: it calls back, in list order, the timers in front of the first one
    whose deadline has not passed, deletes them, and keeps the rest in place. -/
theorem tick_rep (h : Rep s l) (cur : Int) :
    ∃ s', s.tick cur = .ok ((l.takeWhile (due s.data cur)).map (slotIn s.data), s') ∧
      Rep s' (l.dropWhile (due s.data cur)) ∧
      ∀ p, s'.data p = if p ∈ l.takeWhile (due s.data cur) then none else s.data p := by
  have hrun : s.tick cur = tickLoop s.heap.keys.length cur s l.head? := by
    unfold tick
    rw [h.head]
    cases l with
    | nil => cases s.heap.keys.length <;> rfl
    | cons x l => simp
  rw [hrun]
  exact tickLoop_rep h (fun _ _ => rfl) h.length_le

end

end SortTimerLst
end Timer
end LinuxServer
