import LinuxServer.Http.DoRequest
import LinuxServer.Lib.System
import Mathlib.Logic.Function.Basic

/-!
# `Http/Register.lean` — registrations side by side

A worker that registers a user tests `users` for the name and takes `m_lock` only then, for the
`INSERT` and the insertion into the map. So a registration is two steps, `World.unknown` and
`World.enter`, and those of any number of workers may come in any order; with nothing between them
they are `World.register` (`serial`).

The section under the lock does not test again, and the table takes any row. So two workers that have
both tested before either has entered are both answered with `/log.html` (`registered_twice`), and
`register_unique_iff` says that there is nothing else to it: names have one success each, and its
password, if and only if every name that an `INSERT` is executed for is unknown still (`Fresh`). That
is so in particular when no name is tested while another worker is between its test and its section
for that name (`run_fresh_of_alone`).
-/

set_option autoImplicit false

namespace LinuxServer
namespace Http

/-- Where a worker is. -/
inductive Worker
  | idle
  | asked (name passwd : List Byte)
  /-- `users.find(name) == users.end()`, and before `m_lock.lock()`. -/
  | absent (name passwd : List Byte)
  deriving DecidableEq, Repr

/-- A registration that has been answered. -/
structure Answer where
  name : List Byte
  passwd : List Byte
  page : List Byte
  deriving DecidableEq, Repr

/-- The workers, and what they share; `answers` is for the statements. -/
structure Workers where
  world : World
  worker : Nat → Worker
  answers : List Answer

namespace Workers

inductive Step
  | ask (k : Nat) (name passwd : List Byte)
  | find (k : Nat)
  | enter (k : Nat)
  deriving DecidableEq, Repr

def put (s : Workers) (k : Nat) (w : Worker) : Workers :=
  { s with worker := Function.update s.worker k w }

/-- The worker has its page. -/
def reply (s : Workers) (k : Nat) (name passwd page : List Byte) : Workers :=
  { s.put k .idle with answers := ⟨name, passwd, page⟩ :: s.answers }

/-- The section under the lock, and the page. Every statement that is one is executed. -/
def entered (decode : List Byte → Option (List Byte × List Byte)) (s : Workers) (k : Nat)
    (name passwd : List Byte) : Workers :=
  let (page, world) := s.world.enter decode true name passwd
  { s with world := world }.reply k name passwd page

/-- A step, where the worker is there for it. -/
def exec (decode : List Byte → Option (List Byte × List Byte)) (s : Workers) : Step → Except Fault Workers
  | .ask k name passwd => .ok (s.put k (.asked name passwd))
  | .find k =>
    match s.worker k with
    | .asked name passwd =>
      if s.world.unknown name then .ok (s.put k (.absent name passwd))
      else .ok (s.reply k name passwd (bytes "/registerError.html"))
    | _ => .ok s
  | .enter k =>
    match s.worker k with
    | .absent name passwd => .ok (s.entered decode k name passwd)
    | _ => .ok s

/-- Whether the worker is. -/
def enabled (s : Workers) : Step → Bool
  | .ask k _ _ => s.worker k = .idle
  | .find k => match s.worker k with
    | .asked _ _ => true
    | _ => false
  | .enter k => match s.worker k with
    | .absent _ _ => true
    | _ => false

end Workers

/-- Any number of workers, in any order. -/
def registrations (decode : List Byte → Option (List Byte × List Byte)) : System Workers Workers.Step where
  start s := (∀ k, s.worker k = .idle) ∧ s.answers = []
  step s i s' := s.enabled i = true ∧ s.exec decode i = .ok s'

namespace Workers

/-- The registrations of a name that have succeeded. -/
def successes (s : Workers) (name : List Byte) : List Answer :=
  s.answers.filter fun a => a.name = name ∧ a.page = bytes "/log.html"

/-- A name has one success at most, and the password of that one. -/
def OneEach (s : Workers) : Prop :=
  ∀ name, (s.successes name).length ≤ 1 ∧
    ∀ a ∈ s.successes name, s.world.users name = some a.passwd

/-- A section whose `INSERT` is executed finds the name unknown, as the test did. -/
def Fresh (decode : List Byte → Option (List Byte × List Byte)) (s : Workers) : Step → Prop
  | .enter k => ∀ name passwd, s.worker k = .absent name passwd →
      decode (sqlInsert name passwd) ≠ none → s.world.users name = none
  | _ => True

/-- No other worker is between its test and its section for the name that is tested. -/
def Alone (s : Workers) : Step → Prop
  | .find k => ∀ name passwd, s.worker k = .asked name passwd →
      ∀ j passwd', j ≠ k → s.worker j ≠ .absent name passwd'
  | _ => True

section
variable {decode : List Byte → Option (List Byte × List Byte)} {s s' s₀ : Workers} {i : Step} {k : Nat}
  {name passwd page : List Byte} {w : Worker} {h : List Step}

/-! ## What a step does -/

@[simp] theorem put_world : (s.put k w).world = s.world := rfl
@[simp] theorem put_answers : (s.put k w).answers = s.answers := rfl
@[simp] theorem put_worker : (s.put k w).worker = Function.update s.worker k w := rfl
@[simp] theorem reply_world : (s.reply k name passwd page).world = s.world := rfl
@[simp] theorem reply_worker : (s.reply k name passwd page).worker = Function.update s.worker k .idle := rfl
@[simp] theorem reply_answers :
    (s.reply k name passwd page).answers = ⟨name, passwd, page⟩ :: s.answers := rfl
@[simp] theorem entered_worker :
    (s.entered decode k name passwd).worker = Function.update s.worker k .idle := rfl

/-- `users.insert` after the `INSERT`, whatever came of that. -/
@[simp] theorem entered_users (n : List Byte) : (s.entered decode k name passwd).world.users n =
    if n = name then (s.world.users name).or (some passwd) else s.world.users n := by
  simp only [entered, World.enter, World.query, reply_world]
  split <;> rfl

/-- The page says what came of it. -/
@[simp] theorem entered_answers : (s.entered decode k name passwd).answers =
    ⟨name, passwd, if (decode (sqlInsert name passwd)).isSome then bytes "/log.html"
      else bytes "/registerError.html"⟩ :: s.answers := by
  simp only [entered, World.enter, World.query, reply_answers]
  split <;> rename_i heq
  · rw [heq]; rfl
  · rw [heq]; rfl

/-- **The steps.** A worker is asked, finds its name unknown or known, or enters. -/
theorem step_cases (hstep : (registrations decode).step s i s') :
    (∃ k name passwd, i = .ask k name passwd ∧ s' = s.put k (.asked name passwd)) ∨
    (∃ k name passwd, i = .find k ∧ s.worker k = .asked name passwd ∧ s.world.users name = none ∧
      s' = s.put k (.absent name passwd)) ∨
    (∃ k name passwd, i = .find k ∧ s.worker k = .asked name passwd ∧
      s' = s.reply k name passwd (bytes "/registerError.html")) ∨
    (∃ k name passwd, i = .enter k ∧ s.worker k = .absent name passwd ∧
      s' = s.entered decode k name passwd) := by
  obtain ⟨henabled, hexec⟩ := hstep
  cases i with
  | ask k name passwd =>
    apply Or.inl
    exact ⟨k, name, passwd, rfl, (Except.ok.inj hexec).symm⟩
  | find k =>
    apply Or.inr
    simp only [enabled] at henabled
    cases hk : s.worker k with
    | idle => rw [hk] at henabled; cases henabled
    | absent name passwd => rw [hk] at henabled; cases henabled
    | asked name passwd =>
      simp only [exec, hk] at hexec
      split at hexec
      · rename_i hname
        exact Or.inl ⟨k, name, passwd, rfl, hk, Option.isNone_iff_eq_none.mp hname,
          (Except.ok.inj hexec).symm⟩
      · exact Or.inr (Or.inl ⟨k, name, passwd, rfl, hk, (Except.ok.inj hexec).symm⟩)
  | enter k =>
    apply Or.inr
    simp only [enabled] at henabled
    cases hk : s.worker k with
    | idle => rw [hk] at henabled; cases henabled
    | asked name passwd => rw [hk] at henabled; cases henabled
    | absent name passwd =>
      simp only [exec, hk] at hexec
      exact Or.inr (Or.inr ⟨k, name, passwd, rfl, hk, (Except.ok.inj hexec).symm⟩)

/-- With nothing between its test and its section, a worker does what `do_request` does. -/
theorem serial (hk : s.worker k = .asked name passwd) :
    ∃ t u, s.exec decode (.find k) = .ok t ∧ t.exec decode (.enter k) = .ok u ∧
      u.world = (s.world.register decode true name passwd).2 ∧
      u.answers = ⟨name, passwd, (s.world.register decode true name passwd).1⟩ :: s.answers := by
  simp only [exec, hk, World.register]
  cases hname : s.world.unknown name with
  | true =>
    refine ⟨s.put k (.absent name passwd), (s.put k (.absent name passwd)).entered decode k name passwd,
      rfl, ?_, rfl, rfl⟩
    rw [put_worker, Function.update_self]
  | false =>
    refine ⟨s.reply k name passwd (bytes "/registerError.html"), s.reply k name passwd _, rfl, ?_, rfl, rfl⟩
    rw [reply_worker, Function.update_self]
    rfl

/-! ## Successes -/

theorem successes_reply_error (n : List Byte) :
    (s.reply k name passwd (bytes "/registerError.html")).successes n = s.successes n := by
  have hno : bytes "/registerError.html" ≠ bytes "/log.html" := by decide
  simp [successes, hno]

/-- An `INSERT` that fails is no success. -/
theorem successes_entered_error (hfail : decode (sqlInsert name passwd) = none) (n : List Byte) :
    (s.entered decode k name passwd).successes n = s.successes n := by
  have hno : bytes "/registerError.html" ≠ bytes "/log.html" := by decide
  simp [successes, hfail, hno]

/-- One that does not is one more for its name. -/
theorem successes_entered (hok : decode (sqlInsert name passwd) ≠ none) (n : List Byte) :
    (s.entered decode k name passwd).successes n =
      if n = name then ⟨name, passwd, bytes "/log.html"⟩ :: s.successes name else s.successes n := by
  have hsome := Option.isSome_iff_ne_none.mpr hok
  by_cases hn : n = name
  · subst hn
    simp [successes, hsome]
  · simp [successes, hsome, hn, Ne.symm hn]

/-- A name that is unknown has had none. -/
theorem OneEach.successes_nil (h : OneEach s) (hname : s.world.users name = none) :
    s.successes name = [] := by
  apply List.eq_nil_iff_forall_not_mem.mpr
  intro a ha
  rw [(h name).2 a ha] at hname
  cases hname

/-- **A fresh step** leaves one success for each name. -/
theorem OneEach.step (h : OneEach s) (hstep : (registrations decode).step s i s')
    (hfresh : s.Fresh decode i) : OneEach s' := by
  obtain ⟨k, name, passwd, rfl, rfl⟩ | ⟨k, name, passwd, rfl, hk, hname, rfl⟩ |
    ⟨k, name, passwd, rfl, hk, rfl⟩ | ⟨k, name, passwd, rfl, hk, rfl⟩ := step_cases hstep
  · exact h
  · exact h
  · intro n
    rw [successes_reply_error]
    exact h n
  · intro n
    by_cases hok : decode (sqlInsert name passwd) = none
    · rw [successes_entered_error hok]
      refine ⟨(h n).1, fun a ha => ?_⟩
      have hsome := (h n).2 a ha
      rw [entered_users]
      split
      · rename_i hn
        rw [← hn, hsome]
        rfl
      · exact hsome
    · have hnone := hfresh name passwd hk hok
      rw [successes_entered hok, entered_users]
      split
      · rw [h.successes_nil hnone, hnone]
        refine ⟨Nat.le_refl _, fun a ha => ?_⟩
        rw [List.mem_singleton.mp ha]
        rfl
      · exact h n

/-! ## What is never taken back -/

/-- What holds of all runs, of which `users` is that of the start. -/
structure Traced (decode : List Byte → Option (List Byte × List Byte))
    (users : List Byte → Option (List Byte)) (s : Workers) : Prop where
  /-- What is known stays so. -/
  kept : ∀ {name passwd}, users name = some passwd → s.world.users name = some passwd
  /-- The test came after the start. -/
  tested : ∀ {k name passwd}, s.worker k = .absent name passwd → users name = none
  /-- Every success has entered its name. -/
  known : ∀ {name a}, a ∈ s.successes name → s.world.users name ≠ none
  /-- A name that is new has its password from a success, or from an `INSERT` that has failed. -/
  source : ∀ {name passwd}, s.world.users name = some passwd → users name = none →
    (∃ a ∈ s.successes name, a.passwd = passwd) ∨ decode (sqlInsert name passwd) = none

theorem Traced.start (hs : (registrations decode).start s) : Traced decode s.world.users s := by
  obtain ⟨hidle, hanswers⟩ := hs
  refine ⟨id, fun hk => ?_, fun ha => ?_, fun hsome hnone => ?_⟩
  · rw [hidle] at hk; cases hk
  · simp [successes, hanswers] at ha
  · rw [hnone] at hsome; cases hsome

/-- A worker other than in front of the lock, or there behind its test. -/
theorem Traced.put {users : List Byte → Option (List Byte)} (h : Traced decode users s)
    (hw : ∀ {name passwd}, w = .absent name passwd → s.world.users name = none) :
    Traced decode users (s.put k w) := by
  refine ⟨h.kept, fun {j name passwd} hj => ?_, h.known, h.source⟩
  rw [put_worker] at hj
  by_cases hjk : j = k
  · rw [hjk, Function.update_self] at hj
    have hnone := hw hj
    cases husers : users name with
    | none => rfl
    | some p => rw [h.kept husers] at hnone; cases hnone
  · rw [Function.update_of_ne hjk] at hj
    exact h.tested hj

/-- **One step** keeps the trace. -/
theorem Traced.step {users : List Byte → Option (List Byte)} (h : Traced decode users s)
    (hstep : (registrations decode).step s i s') : Traced decode users s' := by
  obtain ⟨k, name, passwd, rfl, rfl⟩ | ⟨k, name, passwd, rfl, hk, hname, rfl⟩ |
    ⟨k, name, passwd, rfl, hk, rfl⟩ | ⟨k, name, passwd, rfl, hk, rfl⟩ := step_cases hstep
  · exact h.put nofun
  · refine h.put fun he => ?_
    cases he
    exact hname
  · -- the name was known, and nothing is inserted
    have hidle := (h.put (k := k) (w := .idle) nofun)
    refine ⟨h.kept, hidle.tested, fun {n a} ha => ?_, fun {n p} hsome hnone => ?_⟩
    · rw [successes_reply_error] at ha
      exact h.known ha
    · rw [successes_reply_error]
      exact h.source hsome hnone
  · -- the section: a name that is in `users` by now keeps its password, another gets this one
    have hidle := (h.put (k := k) (w := .idle) nofun)
    refine ⟨fun {n p} hsome => ?_, hidle.tested, fun {n a} ha => ?_, fun {n p} hsome hnone => ?_⟩
    · rw [entered_users]
      split
      · rename_i hn
        rw [← hn, h.kept hsome]
        rfl
      · exact h.kept hsome
    · rw [entered_users]
      split
      · simp
      · rename_i hn
        apply h.known (a := a)
        by_cases hok : decode (sqlInsert name passwd) = none
        · rwa [successes_entered_error hok] at ha
        · rwa [successes_entered hok, if_neg hn] at ha
    · rw [entered_users] at hsome
      by_cases hok : decode (sqlInsert name passwd) = none
      · rw [successes_entered_error hok]
        split at hsome
        · rename_i hn
          subst hn
          cases husers : s.world.users n with
          | none =>
            rw [husers] at hsome
            cases hsome
            exact Or.inr hok
          | some q =>
            rw [husers] at hsome
            cases hsome
            exact h.source husers hnone
        · exact h.source hsome hnone
      · rw [successes_entered hok]
        split at hsome
        · rename_i hn
          subst hn
          rw [if_pos rfl]
          cases husers : s.world.users n with
          | none =>
            rw [husers] at hsome
            cases hsome
            exact Or.inl ⟨_, List.mem_cons_self, rfl⟩
          | some q =>
            rw [husers] at hsome
            cases hsome
            apply (h.source husers hnone).imp_left
            intro ⟨a, ha, hp⟩
            exact ⟨a, List.mem_cons_of_mem _ ha, hp⟩
        · rename_i hn
          rw [if_neg hn]
          exact h.source hsome hnone

/-- **A step that is not fresh** ends it: the name has two successes then, or another password. -/
theorem Traced.fresh {users : List Byte → Option (List Byte)} (h : Traced decode users s)
    (hstep : (registrations decode).step s i s') (hone : OneEach s') : s.Fresh decode i := by
  obtain ⟨k, name, passwd, rfl, rfl⟩ | ⟨k, name, passwd, rfl, hk, hname, rfl⟩ |
    ⟨k, name, passwd, rfl, hk, rfl⟩ | ⟨k, name, passwd, rfl, hk, rfl⟩ := step_cases hstep
  · trivial
  · trivial
  · trivial
  · intro n p hk' hok
    rw [hk] at hk'
    cases hk'
    cases husers : s.world.users name with
    | none => rfl
    | some q =>
      exfalso
      obtain ⟨hlength, hstored⟩ := hone name
      rw [successes_entered hok, if_pos rfl] at hlength hstored
      obtain ⟨a, ha, -⟩ | hfail := h.source husers (h.tested hk)
      · have hpos := List.length_pos_of_mem ha
        rw [List.length_cons] at hlength
        omega
      · have hq := hstored _ List.mem_cons_self
        rw [entered_users, if_pos rfl, husers] at hq
        cases hq
        exact hok hfail

/-- And nothing mends it. -/
theorem Traced.oneEach {users : List Byte → Option (List Byte)} (h : Traced decode users s)
    (hstep : (registrations decode).step s i s') (hone : OneEach s') : OneEach s := by
  have hfresh := h.fresh hstep hone
  obtain ⟨k, name, passwd, rfl, rfl⟩ | ⟨k, name, passwd, rfl, hk, hname, rfl⟩ |
    ⟨k, name, passwd, rfl, hk, rfl⟩ | ⟨k, name, passwd, rfl, hk, rfl⟩ := step_cases hstep
  · exact hone
  · exact hone
  · intro n
    have hn := hone n
    rw [successes_reply_error] at hn
    exact hn
  · intro n
    have hn := hone n
    rw [entered_users] at hn
    by_cases hne : n = name
    · subst hne
      by_cases hok : decode (sqlInsert n passwd) = none
      · rw [successes_entered_error hok, if_pos rfl] at hn
        refine ⟨hn.1, fun a ha => ?_⟩
        cases husers : s.world.users n with
        | none => exact absurd husers (h.known ha)
        | some q =>
          have hq := hn.2 a ha
          rwa [husers, Option.some_or] at hq
      · have hnil : s.successes n = [] := by
          apply List.eq_nil_iff_forall_not_mem.mpr
          intro a ha
          exact h.known ha (hfresh n passwd hk hok)
        rw [hnil]
        exact ⟨Nat.zero_le _, nofun⟩
    · rw [if_neg hne] at hn
      by_cases hok : decode (sqlInsert name passwd) = none
      · rwa [successes_entered_error hok] at hn
      · rwa [successes_entered hok, if_neg hne] at hn

theorem run_traced (hs : (registrations decode).start s₀) (hrun : (registrations decode).Run s₀ h s) :
    Traced decode s₀.world.users s :=
  hrun.invariant (I := fun _ => Traced decode s₀.world.users) (fun ht hstep => ht.step hstep)
    (Traced.start hs)

/-- **Unique registration.** A run of registrations has one success for each name, and the password
    of that one in `users`, if and only if its sections are fresh. -/
theorem register_unique_iff (hs : (registrations decode).start s₀)
    (hrun : (registrations decode).Run s₀ h s) :
    OneEach s ↔ ((registrations decode).restrict (Fresh decode)).Run s₀ h s := by
  constructor
  · intro hone
    induction hrun with
    | nil => exact .nil _
    | step hrun hstep ih =>
      have htraced := run_traced hs hrun
      exact .step (ih (htraced.oneEach hstep hone)) ⟨hstep, htraced.fresh hstep hone⟩
  · intro hfresh
    apply hfresh.invariant (I := fun _ => OneEach)
    · intro h t i u hone hstep
      exact hone.step hstep.1 hstep.2
    · intro name
      simp [successes, hs.2]

/-! ## Workers that do not meet -/

/-- What holds between the steps of workers that are alone with a name. -/
structure Apart (s : Workers) : Prop where
  alone : ∀ {j k name passwd passwd'}, s.worker j = .absent name passwd →
    s.worker k = .absent name passwd' → j = k
  free : ∀ {k name passwd}, s.worker k = .absent name passwd → s.world.users name = none

/-- A worker that is not in front of the lock for a name, or is there alone. -/
theorem Apart.put (h : Apart s)
    (hw : ∀ {name passwd}, w = .absent name passwd → s.world.users name = none ∧
      ∀ j passwd', j ≠ k → s.worker j ≠ .absent name passwd') : Apart (s.put k w) := by
  refine ⟨fun {i j name passwd passwd'} hi hj => ?_, fun {j name passwd} hj => ?_⟩
  · rw [put_worker] at hi hj
    by_cases hik : i = k
    · by_cases hjk : j = k
      · rw [hik, hjk]
      · rw [hik, Function.update_self] at hi
        rw [Function.update_of_ne hjk] at hj
        exact absurd hj ((hw hi).2 j _ hjk)
    · rw [Function.update_of_ne hik] at hi
      by_cases hjk : j = k
      · rw [hjk, Function.update_self] at hj
        exact absurd hi ((hw hj).2 i _ hik)
      · rw [Function.update_of_ne hjk] at hj
        exact h.alone hi hj
  · rw [put_worker] at hj
    by_cases hjk : j = k
    · rw [hjk, Function.update_self] at hj
      exact (hw hj).1
    · rw [Function.update_of_ne hjk] at hj
      exact h.free hj

/-- **A step of a worker that is alone** keeps them apart. -/
theorem Apart.step (h : Apart s) (hstep : (registrations decode).step s i s') (halone : s.Alone i) :
    Apart s' := by
  obtain ⟨k, name, passwd, rfl, rfl⟩ | ⟨k, name, passwd, rfl, hk, hname, rfl⟩ |
    ⟨k, name, passwd, rfl, hk, rfl⟩ | ⟨k, name, passwd, rfl, hk, rfl⟩ := step_cases hstep
  · exact h.put nofun
  · apply h.put
    intro n p he
    cases he
    exact ⟨hname, halone name passwd hk⟩
  · have hidle := h.put (k := k) (w := .idle) nofun
    exact ⟨hidle.alone, hidle.free⟩
  · have hidle := h.put (k := k) (w := .idle) nofun
    refine ⟨hidle.alone, fun {j n p} hj => ?_⟩
    -- whoever is in front of the lock still is there for another name
    have hne : n ≠ name := by
      rintro rfl
      rw [entered_worker] at hj
      by_cases hjk : j = k
      · rw [hjk, Function.update_self] at hj
        cases hj
      · rw [Function.update_of_ne hjk] at hj
        exact hjk (h.alone hj hk)
    rw [entered_users, if_neg hne]
    exact hidle.free hj

/-- The runs of workers that are alone with a name are fresh. -/
theorem run_fresh_of_alone (hs : (registrations decode).start s₀)
    (hrun : ((registrations decode).restrict Alone).Run s₀ h s) :
    ((registrations decode).restrict (Fresh decode)).Run s₀ h s := by
  have hinv : ∀ {h s}, ((registrations decode).restrict Alone).Run s₀ h s → Apart s := by
    intro h s hrun
    apply hrun.invariant (I := fun _ => Apart)
    · intro h t i u hapart hstep
      exact hapart.step hstep.1 hstep.2
    · refine ⟨fun hj => ?_, fun hj => ?_⟩
      · rw [hs.1] at hj; cases hj
      · rw [hs.1] at hj; cases hj
  induction hrun with
  | nil => exact .nil _
  | @step t u h i hrun hstep ih =>
    refine .step ih ⟨hstep.1, ?_⟩
    cases i with
    | ask k name passwd => trivial
    | find k => trivial
    | enter k => exact fun name passwd hk _ => (hinv hrun).free hk

end

/-! ## Two workers -/

instance (decode : List Byte → Option (List Byte × List Byte)) (s : Workers) (i : Step) :
    Decidable (s.Fresh decode i) :=
  match i with
  | .ask _ _ _ | .find _ => isTrue trivial
  | .enter k =>
    match hk : s.worker k with
    | .absent name passwd =>
      decidable_of_iff (decode (sqlInsert name passwd) ≠ none → s.world.users name = none)
        ⟨fun h n p he => by rw [hk] at he; cases he; exact h, fun h => h name passwd hk⟩
    | .idle | .asked _ _ => isTrue fun n p he => by rw [hk] at he; cases he

/-- Nobody is registered, and nobody asks. -/
def nobody : Workers := ⟨⟨fun _ => none, []⟩, fun _ => .idle, []⟩

theorem nobody_start : (registrations decodePlain).start nobody := ⟨fun _ => rfl, rfl⟩

/-- Two names at a time, and one of them once more. -/
def twoNames : List Step :=
  [.find 0, .ask 0 (bytes "bob") (bytes "z"), .enter 0, .enter 1, .find 1, .find 0,
    .ask 1 (bytes "bob") (bytes "y"), .ask 0 (bytes "alice") (bytes "x")]

/-- One name for two workers, which have both tested before either enters. -/
def oneName : List Step :=
  [.enter 1, .enter 0, .find 1, .find 0, .ask 1 (bytes "alice") (bytes "y"),
    .ask 0 (bytes "alice") (bytes "x")]

theorem register_unique_iff_apart : ∃ s, (registrations decodePlain).Run nobody twoNames s ∧ OneEach s := by
  obtain ⟨s, hs⟩ : ∃ s, System.follow (exec decodePlain)
      (fun s i => s.enabled i ∧ s.Fresh decodePlain i) nobody twoNames = some s :=
    Option.isSome_iff_exists.mp (by decide +kernel)
  have hrun : (registrations decodePlain).Run nobody twoNames s :=
    System.Run.of_follow (fun t i u hok hexec => And.intro (of_decide_eq_true hok).1 hexec) hs
  have hfresh : ((registrations decodePlain).restrict (Fresh decodePlain)).Run nobody twoNames s := by
    refine System.Run.of_follow (fun t i u hok hexec => ?_) hs
    obtain ⟨henabled, hfresh⟩ := of_decide_eq_true hok
    exact ⟨⟨henabled, hexec⟩, hfresh⟩
  exact ⟨s, hrun, (register_unique_iff nobody_start hrun).mpr hfresh⟩

/-- Both are answered with `/log.html`, and the second with a password that `users` has not. -/
theorem registered_twice : ∃ s, (registrations decodePlain).start nobody ∧
    (registrations decodePlain).Run nobody oneName s ∧
    (s.successes (bytes "alice")).map Answer.passwd = [bytes "y", bytes "x"] ∧
    s.world.users (bytes "alice") = some (bytes "x") := by
  have hfollow : (System.follow (exec decodePlain) enabled nobody oneName).any
      (fun s => (s.successes (bytes "alice")).map Answer.passwd = [bytes "y", bytes "x"] ∧
        s.world.users (bytes "alice") = some (bytes "x")) = true := by decide +kernel
  obtain ⟨s, hs, hanswers⟩ := (Option.any_eq_true _ _).mp hfollow
  have hrun : (registrations decodePlain).Run nobody oneName s :=
    System.Run.of_follow (fun t i u hok hexec => And.intro hok hexec) hs
  exact ⟨s, nobody_start, hrun, of_decide_eq_true hanswers⟩

end Workers

end Http
end LinuxServer
