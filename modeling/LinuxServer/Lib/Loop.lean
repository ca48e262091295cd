import LinuxServer.Lib.Fault
import LinuxServer.Lib.System

/-!
# `Lib/Loop.lean` — `while`, with fuel

`whileLoop body n s` runs `body` at most `n` times, each time on the state the last one left, until
it breaks with a result; a loop that is still running when the fuel is spent answers `.diverge`.

The fuel is a proof obligation and not part of the meaning: where every turn of the loop lowers a
measure, `whileLoop_eq` unfolds one turn without counting it, and `whileLoop_fuel` says that any two
sufficient amounts of fuel give one result.
-/

set_option autoImplicit false

namespace LinuxServer

variable {σ α : Type}

/-- Run `body` until it breaks (`.inl`), `n` times at most. -/
def whileLoop (body : σ → Except Fault (α ⊕ σ)) : Nat → σ → Except Fault α
  | 0, _ => .error .diverge
  | n + 1, s =>
    match body s with
    | .error f => .error f
    | .ok (.inl a) => .ok a
    | .ok (.inr s') => whileLoop body n s'

/-- Every turn that goes on lowers the measure. -/
def Decreasing (body : σ → Except Fault (α ⊕ σ)) (μ : σ → Nat) : Prop :=
  ∀ {s s'}, body s = .ok (.inr s') → μ s' < μ s

section
variable {body : σ → Except Fault (α ⊕ σ)} {μ : σ → Nat}

/-- Enough fuel is enough. -/
theorem whileLoop_fuel (hμ : Decreasing body μ) {n m : Nat} {s : σ} (hn : μ s < n) (hm : μ s < m) :
    whileLoop body n s = whileLoop body m s := by
  induction n generalizing m s with
  | zero => cases hn
  | succ n ih =>
    obtain ⟨m, rfl⟩ : ∃ m', m = m' + 1 := ⟨m - 1, by omega⟩
    rw [whileLoop, whileLoop]
    cases hb : body s with
    | error f => rfl
    | ok r =>
      cases r with
      | inl a => rfl
      | inr s' =>
        have := hμ hb
        exact ih (by omega) (by omega)

/-- One turn, with its fuel given back. -/
theorem whileLoop_eq (hμ : Decreasing body μ) {n : Nat} {s : σ} (hn : μ s < n) :
    whileLoop body n s =
      match body s with
      | .error f => .error f
      | .ok (.inl a) => .ok a
      | .ok (.inr s') => whileLoop body n s' := by
  obtain ⟨n, rfl⟩ : ∃ n', n = n' + 1 := ⟨n - 1, by omega⟩
  rw [whileLoop]
  cases hb : body s with
  | error f => rfl
  | ok r =>
    cases r with
    | inl a => rfl
    | inr s' =>
      have := hμ hb
      exact whileLoop_fuel hμ (by omega) (by omega)

/-- **The invariant of a loop**: what a turn that goes on preserves, and what it is when one breaks. -/
theorem whileLoop_invariant {P : σ → Prop} {Q : α → Prop}
    (hinr : ∀ {s s'}, P s → body s = .ok (.inr s') → P s')
    (hinl : ∀ {s a}, P s → body s = .ok (.inl a) → Q a) {n : Nat} {s : σ} {a : α} (hs : P s)
    (h : whileLoop body n s = .ok a) : Q a := by
  induction n generalizing s with
  | zero => cases h
  | succ n ih =>
    rw [whileLoop] at h
    cases hb : body s with
    | error f => rw [hb] at h; cases h
    | ok r =>
      rw [hb] at h
      cases r with
      | inl a' =>
        cases h
        exact hinl hs hb
      | inr s' => exact ih (hinr hs hb) h

/-- The turns that go on, one a step. -/
def turns (body : σ → Except Fault (α ⊕ σ)) : System σ Unit where
  start _ := True
  step s _ s' := body s = .ok (.inr s')

/-- **A loop whose turns lower a measure** takes no more of them than that. -/
theorem turns_length (hμ : Decreasing body μ) {s t : σ} {h : List Unit} (hr : (turns body).Run s h t) :
    h.length + μ t ≤ μ s := by
  refine hr.invariant (I := fun h t => h.length + μ t ≤ μ s) ?_ (Nat.le_of_eq (Nat.zero_add _))
  intro h t i u hle hstep
  have hlt := hμ hstep
  rw [List.length_cons]
  omega

/-- The result of a loop is that of a turn that its turns lead to. -/
theorem exists_turns {n : Nat} {s : σ} {a : α} (h : whileLoop body n s = .ok a) :
    ∃ l t, (turns body).Run s l t ∧ body t = .ok (.inl a) := by
  induction n generalizing s with
  | zero => cases h
  | succ n ih =>
    rw [whileLoop] at h
    cases hb : body s with
    | error f => rw [hb] at h; cases h
    | ok r =>
      rw [hb] at h
      cases r with
      | inl a' =>
        cases h
        exact ⟨[], s, .nil s, hb⟩
      | inr s' =>
        obtain ⟨l, t, hr, ht⟩ := ih h
        exact ⟨l ++ [()], t, (System.Run.step (.nil s) hb).append hr, ht⟩

/-- A loop with fuel enough fails only where its body does. -/
theorem whileLoop_error (hμ : Decreasing body μ) {n : Nat} {s : σ} {f : Fault} (hn : μ s < n)
    (h : whileLoop body n s = .error f) : ∃ t, body t = .error f := by
  induction n generalizing s with
  | zero => cases hn
  | succ n ih =>
    rw [whileLoop] at h
    cases hb : body s with
    | error f' =>
      rw [hb] at h
      cases h
      exact ⟨s, hb⟩
    | ok r =>
      rw [hb] at h
      cases r with
      | inl a => cases h
      | inr s' =>
        have hlt := hμ hb
        exact ih (by omega) h

/-- **A loop on other states**: what a turn does not look at, the loop does not. -/
theorem whileLoop_map {g : σ → σ} {k : α → α} (h : ∀ s, body (g s) = (body s).map (Sum.map k g))
    (n : Nat) (s : σ) : whileLoop body n (g s) = (whileLoop body n s).map k := by
  induction n generalizing s with
  | zero => rfl
  | succ n ih =>
    rw [whileLoop, whileLoop, h]
    cases body s with
    | error f => rfl
    | ok r =>
      cases r with
      | inl a => rfl
      | inr s' => exact ih s'

/-- A loop whose body never fails comes to an end. -/
theorem whileLoop_ok (hμ : Decreasing body μ) (hok : ∀ s, ∃ r, body s = .ok r) {n : Nat} {s : σ}
    (hn : μ s < n) : ∃ a, whileLoop body n s = .ok a := by
  induction n generalizing s with
  | zero => cases hn
  | succ n ih =>
    obtain ⟨r, hr⟩ := hok s
    rw [whileLoop, hr]
    cases r with
    | inl a => exact ⟨a, rfl⟩
    | inr s' =>
      have := hμ hr
      exact ih (by omega)

end

end LinuxServer
