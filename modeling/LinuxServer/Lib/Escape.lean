import Mathlib.Init

/-!
# `Lib/Escape.lean` — computations that an exception may leave

An `Escaping ε α` has not returned (`none`), has been left by an exception, or has come to a result. `Spec x p Q`
says which of the last two it is: if it is over, it has come to a result if and only if `p`, and the result is in
`Q`. What a computation of two parts needs is what each part needs, and `Spec.bind` puts the two together; one
that never returns satisfies everything.
-/

set_option autoImplicit false

namespace LinuxServer

/-- A computation that may not return, or be left by an exception. -/
abbrev Escaping (ε α : Type) := ExceptT ε Option α

namespace Escaping

variable {ε α β : Type}

/-- It returns normally. -/
def ok (a : α) : Escaping ε α := some (.ok a)

/-- It is left. -/
def fail (e : ε) : Escaping ε α := some (.error e)

/-- It returns if there is a value. -/
def ofOption : Option α → Escaping ε α
  | none => (none : Option (Except ε α))
  | some a => ok a

/-- It returns normally if and only if `p`, and then with a result in `Q`. -/
def Spec (x : Escaping ε α) (p : Prop) (Q : α → Prop) : Prop :=
  (∀ a, x = ok a → p ∧ Q a) ∧ ∀ e, x = fail e → ¬ p

variable {x : Escaping ε α} {f : α → Escaping ε β} {p q : Prop} {Q R : α → Prop} {S : β → Prop} {a : α}

theorem ok_bind (a : α) (f : α → Escaping ε β) : (ok a : Escaping ε α) >>= f = f a := rfl

theorem fail_bind (e : ε) (f : α → Escaping ε β) : (fail e : Escaping ε α) >>= f = fail e := rfl

/-- The three cases. -/
theorem cases (x : Escaping ε α) :
    x = (none : Option (Except ε α)) ∨ (∃ e, x = fail e) ∨ ∃ a, x = ok a := by
  cases hx : (x : Option (Except ε α)) with
  | none => exact .inl rfl
  | some r =>
    cases r with
    | error e => exact .inr (.inl ⟨e, rfl⟩)
    | ok a => exact .inr (.inr ⟨a, rfl⟩)

/-! ## The rules -/

theorem Spec.pure (ha : Q a) : Spec (Pure.pure a : Escaping ε α) True Q := by
  refine ⟨fun b hb => ?_, (fun e he => by cases he)⟩
  cases hb
  exact ⟨trivial, ha⟩

theorem Spec.fail (e : ε) (Q : α → Prop) : Spec (fail e : Escaping ε α) False Q :=
  ⟨(fun a ha => by cases ha), fun _ _ => id⟩

theorem Spec.mono (hx : Spec x p Q) (hpq : p ↔ q) (hQR : ∀ a, Q a → R a) : Spec x q R :=
  ⟨fun a ha => ⟨hpq.mp (hx.1 a ha).1, hQR a (hx.1 a ha).2⟩, fun e he => fun hq => hx.2 e he (hpq.mpr hq)⟩

/-- **Two parts**: both have to return normally. -/
theorem Spec.bind (hx : Spec x p Q) (hf : ∀ a, Q a → Spec (f a) q S) : Spec (x >>= f) (p ∧ q) S := by
  rcases x.cases with rfl | ⟨e, rfl⟩ | ⟨a, rfl⟩
  · exact ⟨(fun b hb => by cases hb), (fun e he => by cases he)⟩
  · rw [fail_bind]
    exact ⟨(fun b hb => by cases hb), fun e' _ hboth => hx.2 e rfl hboth.1⟩
  · rw [ok_bind]
    obtain ⟨hp, ha⟩ := hx.1 a rfl
    exact (hf a ha).mono (and_iff_right hp).symm fun _ hb => hb

/-- A value that has to be there. -/
theorem Spec.ofOption_bind {o : Option α} (hf : ∀ a, o = some a → Spec (f a) p S) :
    Spec ((ofOption o : Escaping ε α) >>= f) p S := by
  cases o with
  | none => exact ⟨(fun b hb => by cases hb), (fun e he => by cases he)⟩
  | some a => exact hf a rfl

/-- A test that throws where it fails. -/
theorem Spec.test {c : Prop} [Decidable c] {y : Escaping ε α} (e : ε) (hy : Spec y p Q) :
    Spec (if c then y else Escaping.fail e) (c ∧ p) Q := by
  by_cases hc : c
  · rw [if_pos hc]
    exact hy.mono (and_iff_right hc).symm fun _ ha => ha
  · rw [if_neg hc]
    exact (Spec.fail e Q).mono (iff_of_false id fun hboth => hc hboth.1) fun _ ha => ha

/-- One that throws where it holds. -/
theorem Spec.unless {c : Prop} [Decidable c] {y : Escaping ε α} (e : ε) (hy : Spec y p Q) :
    Spec (if c then Escaping.fail e else y) (¬ c ∧ p) Q := by
  rw [← ite_not]
  exact hy.test e

/-- A part that is run where `c` holds. -/
theorem Spec.when {c : Prop} [Decidable c] {y z : Escaping ε α} (hy : Spec y p Q) (hz : Spec z True Q) :
    Spec (if c then y else z) (c → p) Q := by
  by_cases hc : c
  · rw [if_pos hc]
    exact hy.mono ⟨fun hp _ => hp, fun h => h hc⟩ fun _ ha => ha
  · rw [if_neg hc]
    exact hz.mono (iff_of_true trivial fun hc' => absurd hc' hc) fun _ ha => ha

end Escaping

end LinuxServer
