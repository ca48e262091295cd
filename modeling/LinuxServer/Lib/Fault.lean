import Mathlib.Init

/-!
# `Lib/Fault.lean` — what a C++ program does when it has no behaviour

Fallible code here returns `Except Fault`: `.ok` is the program's own result, `.error` is a place
where the language gives it none. The causes are kept apart so that a theorem saying "the code
never faults" can be read cause by cause; a fuelled loop that is cut short answers `.diverge`,
never a made-up result.
-/

set_option autoImplicit false

namespace LinuxServer

/-- Why an execution has no defined result. -/
inductive Fault
  /-- A null pointer is dereferenced. -/
  | nullPointer
  /-- An object that was freed, or never existed, is dereferenced. -/
  | dangling
  /-- An index or a write leaves its object. -/
  | outOfBounds
  /-- A signed addition overflows. -/
  | overflow
  /-- A descriptor that is not open is closed. -/
  | badDescriptor
  /-- An object that was never given a value is read. -/
  | indeterminate
  /-- A loop is still running when its fuel is spent. -/
  | diverge
  deriving DecidableEq, Repr

instance {α : Type} [DecidableEq α] : DecidableEq (Except Fault α)
  | .ok a, .ok b => decidable_of_iff (a = b) (by simp)
  | .error e, .error f => decidable_of_iff (e = f) (by simp)
  | .ok _, .error _ => isFalse nofun
  | .error _, .ok _ => isFalse nofun

/-- A run of two steps is a run of each, the second from where the first stopped. -/
theorem bind_eq_ok {α β : Type} {x : Except Fault α} {f : α → Except Fault β} {b : β} :
    x >>= f = .ok b ↔ ∃ a, x = .ok a ∧ f a = .ok b := by
  cases x with
  | error e => simp [bind, Except.bind]
  | ok a => simp [bind, Except.bind]

/-- A run of two steps fails where the first fails, or the second. -/
theorem bind_eq_error {α β : Type} {x : Except Fault α} {f : α → Except Fault β} {e : Fault} :
    x >>= f = .error e ↔ x = .error e ∨ ∃ a, x = .ok a ∧ f a = .error e := by
  cases x with
  | error e' => simp [bind, Except.bind]
  | ok a => simp [bind, Except.bind]

/-- A result that passes a test is there. -/
theorem exists_ok_of_any {α : Type} {x : Except Fault α} {test : α → Bool} (h : x.toOption.any test = true) :
    ∃ a, x = .ok a ∧ test a = true := by
  cases x with
  | error e => cases h
  | ok a => exact ⟨a, rfl, h⟩

theorem eq_ok_of_toOption {α : Type} {x : Except Fault α} {a : α} (h : x.toOption = some a) : x = .ok a := by
  cases x with
  | error e => cases h
  | ok b =>
    cases h
    rfl

end LinuxServer
