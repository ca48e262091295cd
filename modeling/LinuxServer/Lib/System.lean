import Mathlib.Init

/-!
# `Lib/System.lean` — labelled transition systems, their runs, and the invariant rule

A server is a machine that takes one step after another, and almost every law about it is a law
about *all* its runs. This file is the vocabulary for such laws, over arbitrary states and labels:
a `System` is a set of start states and a labelled step relation, a `Run` is a finite sequence of
steps together with its **history** — the labels taken, newest first, so that a statement about
"the last time …" is a structural recursion on the history.

One rule pays for the whole file: `Run.invariant` turns a property every step preserves into a
property of every run, and its invariant may mention the history. A law that holds only of the runs
whose steps all meet some condition is a law about the `restrict`ed system, or about a `RunUnder` the
condition where that looks at the history.
-/

set_option autoImplicit false

namespace LinuxServer

universe u v

/-- A labelled transition system: where it may start, and which steps it may take. -/
structure System (σ : Type u) (ι : Type v) where
  start : σ → Prop
  step : σ → ι → σ → Prop

namespace System

variable {σ : Type u} {ι : Type v}

/-- `S.Run s h t`: the labels of `h`, oldest at the end of the list, lead from `s` to `t`. -/
inductive Run (S : System σ ι) : σ → List ι → σ → Prop
  | nil (s : σ) : Run S s [] s
  | step {s t u : σ} {h : List ι} {i : ι} : Run S s h t → S.step t i u → Run S s (i :: h) u

/-- One run after another; the later labels come first. -/
theorem Run.append {S : System σ ι} {s t u : σ} {h h' : List ι} (hr : S.Run s h t) (hr' : S.Run t h' u) :
    S.Run s (h' ++ h) u := by
  induction hr' with
  | nil => exact hr
  | step _ hst ih => exact .step ih hst

/-- The states some run from a start state ends in. -/
def Reachable (S : System σ ι) (t : σ) : Prop := ∃ s h, S.start s ∧ S.Run s h t

/-- **The invariant rule.** What a step preserves, every run preserves. -/
theorem Run.invariant {S : System σ ι} {I : List ι → σ → Prop}
    (hstep : ∀ {h t i u}, I h t → S.step t i u → I (i :: h) u)
    {s t : σ} {h : List ι} (hr : S.Run s h t) (hs : I [] s) : I h t := by
  induction hr with
  | nil => exact hs
  | step _ hst ih => exact hstep ih hst

theorem Reachable.invariant {S : System σ ι} {I : σ → Prop}
    (hstart : ∀ {s}, S.start s → I s) (hstep : ∀ {t i u}, I t → S.step t i u → I u)
    {t : σ} (ht : S.Reachable t) : I t :=
  let ⟨_, _, hs, hr⟩ := ht
  hr.invariant (I := fun _ => I) hstep (hstart hs)

/-- The runs of `S` whose every step meets the condition `P`. -/
def restrict (S : System σ ι) (P : σ → ι → Prop) : System σ ι where
  start := S.start
  step s i t := S.step s i t ∧ P s i

theorem Run.of_restrict {S : System σ ι} {P : σ → ι → Prop} {s t : σ} {h : List ι}
    (hr : (S.restrict P).Run s h t) : S.Run s h t := by
  induction hr with
  | nil => exact .nil _
  | step _ hst ih => exact .step ih hst.1

/-- A weaker condition leaves more runs. -/
theorem Run.restrict_mono {S : System σ ι} {P Q : σ → ι → Prop} (hPQ : ∀ t i, P t i → Q t i) {s t : σ}
    {h : List ι} (hr : (S.restrict P).Run s h t) : (S.restrict Q).Run s h t := by
  induction hr with
  | nil => exact .nil _
  | step _ hst ih => exact .step ih ⟨hst.1, hPQ _ _ hst.2⟩

theorem Run.labels_of_restrict {S : System σ ι} {P : ι → Prop} {s t : σ} {h : List ι}
    (hr : (S.restrict fun _ i => P i).Run s h t) : ∀ i ∈ h, P i := by
  induction hr with
  | nil => exact List.forall_mem_nil _
  | step _ hst ih => exact List.forall_mem_cons.mpr ⟨hst.2, ih⟩

/-- A condition on the labels alone is one on the history. -/
theorem Run.restrict_labels {S : System σ ι} {P : ι → Prop} {s t : σ} {h : List ι} (hr : S.Run s h t) :
    (S.restrict fun _ i => P i).Run s h t ↔ ∀ i ∈ h, P i := by
  refine ⟨Run.labels_of_restrict, fun hall => ?_⟩
  induction hr with
  | nil => exact .nil _
  | step _ hst ih =>
    obtain ⟨hi, hall⟩ := List.forall_mem_cons.mp hall
    exact .step (ih hall) ⟨hst, hi⟩

/-- Two conditions that say the same of the steps from reachable states restrict to the same runs. -/
theorem Run.restrict_congr {S : System σ ι} {P Q : σ → ι → Prop}
    (hPQ : ∀ {t i u}, S.Reachable t → S.step t i u → (P t i ↔ Q t i)) {s t : σ} {h : List ι}
    (hstart : S.start s) : (S.restrict P).Run s h t ↔ (S.restrict Q).Run s h t := by
  constructor
  · intro hr
    induction hr with
    | nil => exact .nil _
    | step hr hst ih => exact .step ih ⟨hst.1, (hPQ ⟨s, _, hstart, hr.of_restrict⟩ hst.1).mp hst.2⟩
  · intro hr
    induction hr with
    | nil => exact .nil _
    | step hr hst ih => exact .step ih ⟨hst.1, (hPQ ⟨s, _, hstart, hr.of_restrict⟩ hst.1).mpr hst.2⟩

/-- A run whose every step meets a condition that sees what has happened before it. -/
inductive RunUnder (S : System σ ι) (P : List ι → σ → ι → Prop) : σ → List ι → σ → Prop
  | nil (s : σ) : RunUnder S P s [] s
  | step {s t u : σ} {h : List ι} {i : ι} : RunUnder S P s h t → S.step t i u → P h t i → RunUnder S P s (i :: h) u

theorem RunUnder.run {S : System σ ι} {P : List ι → σ → ι → Prop} {s t : σ} {h : List ι}
    (hr : S.RunUnder P s h t) : S.Run s h t := by
  induction hr with
  | nil => exact .nil _
  | step _ hst _ ih => exact .step ih hst

/-- The invariant rule for these. -/
theorem RunUnder.invariant {S : System σ ι} {P : List ι → σ → ι → Prop} {I : List ι → σ → Prop}
    (hstep : ∀ {h t i u}, S.Reachable t → I h t → S.step t i u → P h t i → I (i :: h) u)
    {s t : σ} {h : List ι} (hstart : S.start s) (hr : S.RunUnder P s h t) (hs : I [] s) : I h t := by
  induction hr with
  | nil => exact hs
  | step hr hst hP ih => exact hstep ⟨_, _, hstart, hr.run⟩ ih hst hP

/-- What each of its steps meets, the run meets. -/
theorem RunUnder.restrict {S : System σ ι} {P : List ι → σ → ι → Prop} {Q : σ → ι → Prop} {s t : σ} {h : List ι}
    (hr : S.RunUnder P s h t)
    (hQ : ∀ {h t i u}, S.RunUnder P s h t → S.step t i u → P h t i → Q t i) : (S.restrict Q).Run s h t := by
  induction hr with
  | nil => exact .nil _
  | step hr hst hP ih => exact .step ih ⟨hst, hQ hr hst hP⟩

/-- Steps that are determined by their labels: no state of a run depends on anything else. -/
def Deterministic (S : System σ ι) : Prop := ∀ ⦃t i u u'⦄, S.step t i u → S.step t i u' → u = u'

theorem Run.unique {S : System σ ι} (hdet : S.Deterministic) {s t t' : σ} {h : List ι}
    (hr : S.Run s h t) (hr' : S.Run s h t') : t = t' := by
  induction hr generalizing t' with
  | nil => cases hr'; rfl
  | step _ hst ih =>
    cases hr' with
    | step hr' hst' =>
      obtain rfl := ih hr'
      exact hdet hst hst'

/-- **The exact condition.** Where a step leads from `I` to `I` if and only if it meets `P`, the runs
    that are in `I` all along are the ones whose steps all meet `P`. -/
theorem Run.restrict_iff {S : System σ ι} {P : σ → ι → Prop} {I : σ → Prop} (hdet : S.Deterministic)
    (hstep : ∀ {t i u}, S.Reachable t → I t → S.step t i u → (I u ↔ P t i))
    {s t : σ} {h : List ι} (hstart : S.start s) (hr : S.Run s h t) (hs : I s) :
    (S.restrict P).Run s h t ↔ ∀ h' t', h' <:+ h → S.Run s h' t' → I t' := by
  induction hr with
  | nil =>
    refine iff_of_true (.nil s) fun h' t' hsuf hr' => ?_
    obtain rfl := List.suffix_nil.mp hsuf
    cases hr'
    exact hs
  | @step t u h i hr hst ih =>
    constructor
    · intro hres h' t' hsuf hr'
      cases hres with
      | step hres hst' =>
        obtain rfl := hr.unique hdet (Run.of_restrict hres)
        rcases List.suffix_cons_iff.mp hsuf with rfl | hsuf
        · obtain rfl := hr'.unique hdet (hr.step hst)
          exact (hstep ⟨s, h, hstart, hr⟩ (ih.mp hres h t (List.suffix_refl h) hr) hst).mpr hst'.2
        · exact ih.mp hres h' t' hsuf hr'
    · intro hall
      have hres := ih.mpr fun h' t' hsuf => hall h' t' (hsuf.trans (List.suffix_cons i h))
      have ht := hall h t (List.suffix_cons i h) hr
      have hu := hall (i :: h) u (List.suffix_refl _) (hr.step hst)
      exact .step hres ⟨hst, (hstep ⟨s, h, hstart, hr⟩ ht hst).mp hu⟩

/-! ## Two systems -/

/-- A step that is one of the system's own, or none at all. -/
def stepIf (S : System σ ι) (s : σ) : Option ι → σ → Prop
  | none, t => t = s
  | some i, t => S.step s i t

/-- **Projection.** Where each step is seen as a step of another system or not at all, so is each
    run. -/
theorem Run.project {τ : Type u} {κ : Type v} {S : System σ ι} {T : System τ κ} (f : σ → τ)
    (observed : ι → Option κ) (hstep : ∀ {t i u}, S.step t i u → T.stepIf (f t) (observed i) (f u))
    {s t : σ} {h : List ι} (hr : S.Run s h t) : T.Run (f s) (h.filterMap observed) (f t) := by
  induction hr with
  | nil => exact .nil _
  | @step t u h i _ hst ih =>
    have hone := hstep hst
    cases hi : observed i with
    | none =>
      rw [hi] at hone
      rw [List.filterMap_cons_none hi, show f u = f t from hone]
      exact ih
    | some k =>
      rw [hi] at hone
      rw [List.filterMap_cons_some hi]
      exact .step ih hone

/-- **Forward simulation.** Where related states can follow each step with a step of another system or
    none at all, so that they are related again, a run is followed by a run. -/
theorem Run.simulate {τ : Type u} {κ : Type v} {S : System σ ι} {T : System τ κ} (R : σ → τ → Prop)
    (observed : ι → Option κ)
    (hstep : ∀ {t i u t'}, R t t' → S.step t i u → ∃ u', T.stepIf t' (observed i) u' ∧ R u u')
    {s t : σ} {s' : τ} {h : List ι} (hr : S.Run s h t) (hs : R s s') :
    ∃ t', T.Run s' (h.filterMap observed) t' ∧ R t t' := by
  induction hr with
  | nil => exact ⟨s', .nil _, hs⟩
  | @step t u h i _ hst ih =>
    obtain ⟨t', hr', ht⟩ := ih
    obtain ⟨u', hone, hu⟩ := hstep ht hst
    refine ⟨u', ?_, hu⟩
    cases hi : observed i with
    | none =>
      rw [hi] at hone
      rw [List.filterMap_cons_none hi, show u' = t' from hone]
      exact hr'
    | some k =>
      rw [hi] at hone
      rw [List.filterMap_cons_some hi]
      exact .step hr' hone

/-- Two of the same system, that take every step both. -/
def pair (S : System σ ι) : System (σ × σ) ι where
  start p := S.start p.1 ∧ S.start p.2
  step p i q := S.step p.1 i q.1 ∧ S.step p.2 i q.2

theorem Run.pair {S : System σ ι} {s s' t t' : σ} {h : List ι} (hr : S.Run s h t) (hr' : S.Run s' h t') :
    S.pair.Run (s, s') h (t, t') := by
  induction hr generalizing t' with
  | nil =>
    cases hr'
    exact .nil _
  | step _ hst ih =>
    cases hr' with
    | step hr' hst' => exact .step (ih hr') ⟨hst, hst'⟩

/-! ## Runs by execution -/

/-- The state some steps lead to, the last first, when each is executed by `exec` and passes the
    test `ok`. -/
def follow {ε : Type} (exec : σ → ι → Except ε σ) (ok : σ → ι → Bool) (s : σ) : List ι → Option σ
  | [] => some s
  | i :: h => do
    let t ← follow exec ok s h
    if ok t i then (exec t i).toOption else none

/-- What can be followed is a run. -/
theorem Run.of_follow {S : System σ ι} {ε : Type} {exec : σ → ι → Except ε σ} {ok : σ → ι → Bool}
    {s : σ} (hstep : ∀ t i u, ok t i = true → exec t i = .ok u → S.step t i u) :
    ∀ {h : List ι} {t : σ}, follow exec ok s h = some t → S.Run s h t
  | [], t, h => by
    cases h
    exact .nil s
  | i :: h, u, hu => by
    rw [follow] at hu
    cases ht : follow exec ok s h with
    | none => rw [ht] at hu; cases hu
    | some t =>
      rw [ht] at hu
      simp only [Option.bind_eq_bind, Option.bind_some] at hu
      split at hu
      · rename_i hok
        cases hexec : exec t i with
        | error e => rw [hexec] at hu; cases hu
        | ok u' =>
          rw [hexec] at hu
          cases hu
          exact .step (Run.of_follow hstep ht) (hstep t i _ hok hexec)
      · cases hu

end System

end LinuxServer
