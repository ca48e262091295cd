import LinuxServer.Log.WriteLog

/-!
# `Log/Rotation.lean` — the files that the log goes on in

`init` puts the name of a file together from the directory, the day and the name, and `write_log` does it
again when the day has changed or `m_split_lines` lines have been counted. `Rotation` is the log with what a
reader of the calls knows: on which day the last one was, and how many there were on it.

The two names are the same if what they are made of is. It is not, where `file_name` has no `/`: `init`
then leaves `dir_name` and `log_name` empty, and all that is left of the name is the day
(`not_named_noSlash`). Nor is it where a day is taken for another: of the date, the day of the month is all
that is compared, so that a month may pass unnoticed, with its lines counted on. And a few names are cut,
or are one number short because the line that comes with a new day is not counted. `named_of_regular` says
that this is all.
-/

set_option autoImplicit false

namespace LinuxServer

/-- The two are on one day. -/
def Clock.SameDay (c d : Clock) : Prop := c.year = d.year ∧ c.month = d.month ∧ c.mday = d.mday

instance (c d : Clock) : Decidable (c.SameDay d) := inferInstanceAs (Decidable (_ ∧ _))

/-- The log, and what was called: when the last call was, or `init` if there was none, how many lines there
    have been on that day, and whether it is another day than that of `init`. -/
structure Rotation where
  log : Log
  last : Clock
  lines : Nat
  changed : Bool
  deriving DecidableEq, Repr

/-- The lines of the day of a call, with that of the call. -/
def Rotation.linesAt (r : Rotation) (clock : Clock) : Nat := if r.last.SameDay clock then r.lines + 1 else 1

/-- A call has been made. -/
def Rotation.called (r : Rotation) (clock : Clock) (log : Log) : Rotation where
  log := log
  last := clock
  lines := r.linesAt clock
  changed := r.changed || !decide (r.last.SameDay clock)

section
variable (fileName : List Byte) (bufSize splitLines maxQueueSize : Int)

/-- Any calls of `write_log` after `init`, each with the time and with what `fopen` answers, if it is asked.
    `m_mutex`, which a call keeps that has nothing to change, is as if it were given back. -/
def rotating : System Rotation (Clock × Bool) where
  start r := ∃ clock log, Log.init fileName bufSize splitLines maxQueueSize clock true = .ok (true, log) ∧
    r = ⟨log, clock, 0, false⟩
  step r i r' := (r.log.today = i.1.mday → r.log.splitLines ≠ 0) ∧
    ∃ log, r.log.enter i.1 i.2 = .ok log ∧ r' = r.called i.1 log

/-- The file that `init` would open. -/
def initPath (clock : Clock) : Option (List Byte) :=
  (Log.init fileName bufSize splitLines maxQueueSize clock true).toOption.bind fun r => r.2.fp

end

namespace Rotation

section
variable (fileName : List Byte) (bufSize splitLines maxQueueSize : Int)

/-- **A file is named as `init` names it**. After a call on a new day, unless `fopen` has failed, the log is in
    the file that `init` would open on that day. One that is opened for the number of lines has that path,
    a dot, and how many times `split_lines` lines have been completed on that day. -/
structure Named (r : Rotation) (i : Clock × Bool) : Prop where
  newDay : ¬ r.last.SameDay i.1 → (r.log.rotates i.1 = true → i.2 = true) →
    ∀ log, r.log.enter i.1 i.2 = .ok log → log.fp = initPath fileName bufSize splitLines maxQueueSize i.1
  split : r.last.SameDay i.1 → r.log.rotates i.1 = true → i.2 = true → ∀ log, r.log.enter i.1 i.2 = .ok log →
    log.fp = (initPath fileName bufSize splitLines maxQueueSize i.1).map fun path =>
      path ++ bytes "." ++ decimal (r.linesAt i.1 / splitLines)

end

/-- What a call needs, to name its file rightly. Another day is another day of the month. And if it opens a
    file, the day fits the `tail` of 16 bytes; and for a number, there is room for it behind the path, there
    are blocks to be numbered, and where every line is one of its own, none has been left out. -/
structure Regular (r : Rotation) (i : Clock × Bool) : Prop where
  noticed : ¬ r.last.SameDay i.1 → r.last.mday ≠ i.1.mday
  day : r.log.rotates i.1 = true → i.2 = true → i.1.day.length ≤ 15
  room : r.last.SameDay i.1 → r.log.rotates i.1 = true → i.2 = true →
    (r.log.dirName ++ i.1.day ++ r.log.logName ++ bytes "." ++
      decimal (r.linesAt i.1 / r.log.splitLines)).length ≤ 254
  blocks : r.last.SameDay i.1 → r.log.rotates i.1 = true → i.2 = true →
    0 < r.log.splitLines ∧ (r.changed = true → r.log.splitLines ≠ 1)

/-! ## What `init` sets -/

section
variable {fileName : List Byte} {bufSize splitLines maxQueueSize : Int} {clock c : Clock} {log log' : Log}

/-- Without a `/` there is neither a directory nor a name. -/
theorem init_noSlash (h : strrchr fileName 47 = none) (opened : Bool) :
    Log.init fileName bufSize splitLines maxQueueSize clock opened =
      .ok (opened, Log.fresh [] [] (clock.day ++ fileName) bufSize splitLines maxQueueSize clock opened) := by
  unfold Log.init
  rw [h]

/-- With one, both parts fit. -/
theorem init_slash {p : Nat} (h : strrchr fileName 47 = some p)
    (hinit : Log.init fileName bufSize splitLines maxQueueSize clock true = .ok (true, log)) (c : Clock) :
    Log.init fileName bufSize splitLines maxQueueSize c true = .ok (true,
      Log.fresh (fileName.take (p + 1)) (fileName.drop (p + 1))
        (fileName.take (p + 1) ++ c.day ++ fileName.drop (p + 1)) bufSize splitLines maxQueueSize c true) := by
  unfold Log.init at hinit ⊢
  rw [h] at hinit ⊢
  simp only at hinit ⊢
  split at hinit
  · cases hinit
  · rename_i hfits
    rw [if_neg hfits]

/-- What `init` has set. -/
theorem init_fields (hinit : Log.init fileName bufSize splitLines maxQueueSize clock true = .ok (true, log)) :
    log.splitLines = splitLines ∧ log.today = clock.mday ∧ log.count = 0 := by
  cases hslash : strrchr fileName 47 with
  | none =>
    rw [init_noSlash hslash] at hinit
    cases hinit
    exact ⟨rfl, rfl, rfl⟩
  | some p =>
    rw [init_slash hslash hinit] at hinit
    cases hinit
    exact ⟨rfl, rfl, rfl⟩

theorem initPath_noSlash (h : strrchr fileName 47 = none) (c : Clock) :
    initPath fileName bufSize splitLines maxQueueSize c = some ((c.day ++ fileName).take 254) := by
  rw [initPath, init_noSlash h]
  rfl

/-- The path of `init`, from what it has left in the log: with a `/`, or for no name at all. -/
theorem initPath_eq (hinit : Log.init fileName bufSize splitLines maxQueueSize clock true = .ok (true, log))
    (hname : 47 ∈ fileName ∨ fileName = []) (c : Clock) :
    initPath fileName bufSize splitLines maxQueueSize c =
      some ((log.dirName ++ c.day ++ log.logName).take 254) := by
  cases hslash : strrchr fileName 47 with
  | none =>
    rw [init_noSlash hslash] at hinit
    cases hinit
    obtain rfl := hname.resolve_left (strrchr_eq_none.mp hslash)
    rw [initPath_noSlash hslash]
    show some ((c.day ++ []).take 254) = some (([] ++ c.day ++ []).take 254)
    rw [List.nil_append]
  | some p =>
    rw [initPath, init_slash hslash hinit c]
    rw [init_slash hslash hinit clock] at hinit
    cases hinit
    rfl

/-! ## What a call does -/

/-- What the first section of a call leaves. -/
structure Entered (log : Log) (clock : Clock) (opened : Bool) (log' : Log) : Prop where
  dirName : log'.dirName = log.dirName
  logName : log'.logName = log.logName
  splitLines : log'.splitLines = log.splitLines
  today : log'.today = clock.mday
  count : log'.count = if log.today ≠ clock.mday then 0 else log.count + 1
  fp : log'.fp = if log.rotates clock = true then (if opened then some (log.newLog clock) else none) else log.fp

theorem entered {opened : Bool} (h : log.enter clock opened = .ok log') : Entered log clock opened log' := by
  unfold Log.enter at h
  split at h
  · rename_i hrotates
    split at h
    · cases h
    · cases h
      exact ⟨rfl, rfl, rfl, rfl, rfl, (if_pos hrotates).symm⟩
  · rename_i hrotates
    cases h
    have htoday : log.today = clock.mday := by
      by_contra hne
      exact hrotates (decide_eq_true (Or.inl hne))
    exact ⟨rfl, rfl, rfl, htoday, (if_neg (not_not_intro htoday)).symm, (if_neg hrotates).symm⟩

/-- On another day of the month the file is changed. -/
theorem rotates_of_ne (h : log.today ≠ clock.mday) : log.rotates clock = true := decide_eq_true (Or.inl h)

/-- On the same, when a block is completed. -/
theorem rotates_iff (h : log.today = clock.mday) :
    log.rotates clock = true ↔ (log.count + 1).tmod log.splitLines = 0 := by
  unfold Log.rotates
  rw [decide_eq_true_iff, or_iff_right (not_not_intro h)]

end

/-! ## The count, and the lines -/

section
variable {fileName : List Byte} {bufSize splitLines maxQueueSize : Int} {r s : Rotation}
  {h : List (Clock × Bool)} {i : Clock × Bool} {log : Log} {clock : Clock}

/-- **The invariant**: the log has the names that `init` gave it and the day of the last call, and has counted
    the lines of that day, but for the one it began with if it is not that of `init`. -/
structure Counts (first : Log) (r : Rotation) : Prop where
  dirName : r.log.dirName = first.dirName
  logName : r.log.logName = first.logName
  splitLines : r.log.splitLines = first.splitLines
  today : r.log.today = r.last.mday
  nonneg : 0 ≤ r.log.count
  count : r.log.count + (if r.changed then 1 else 0) = r.lines

theorem Counts.step {first : Log} (hr : Counts first r) (hnoticed : ¬ r.last.SameDay i.1 → r.last.mday ≠ i.1.mday)
    (henter : r.log.enter i.1 i.2 = .ok log) : Counts first (r.called i.1 log) := by
  have hlog := entered henter
  have hcount := hlog.count
  rw [hr.today] at hcount
  by_cases hday : r.last.SameDay i.1
  · have hchanged : (r.called i.1 log).changed = r.changed := by
      show (r.changed || !decide (r.last.SameDay i.1)) = r.changed
      rw [decide_eq_true hday, Bool.not_true, Bool.or_false]
    have hlines : (r.called i.1 log).lines = r.lines + 1 := if_pos hday
    refine ⟨hlog.dirName.trans hr.dirName, hlog.logName.trans hr.logName, hlog.splitLines.trans hr.splitLines,
      hlog.today, ?_, ?_⟩
    · show 0 ≤ log.count
      rw [hcount, if_neg (not_not_intro hday.2.2)]
      exact Int.le_trans hr.nonneg (Int.le_add_one (Int.le_refl _))
    · rw [hchanged, hlines, Nat.cast_succ, ← hr.count]
      show log.count + _ = _
      rw [hcount, if_neg (not_not_intro hday.2.2), Int.add_right_comm]
  · have hlines : (r.called i.1 log).lines = 1 := if_neg hday
    have hchanged : (r.called i.1 log).changed = true := by
      show (r.changed || !decide (r.last.SameDay i.1)) = true
      rw [decide_eq_false hday, Bool.not_false, Bool.or_true]
    refine ⟨hlog.dirName.trans hr.dirName, hlog.logName.trans hr.logName, hlog.splitLines.trans hr.splitLines,
      hlog.today, ?_, ?_⟩
    · show 0 ≤ log.count
      rw [hcount, if_pos (hnoticed hday)]
    · rw [hchanged, hlines]
      show log.count + 1 = 1
      rw [hcount, if_pos (hnoticed hday), Int.zero_add]

/-- The blocks that the code counts are those of the lines of the day: one line that is not counted makes no
    difference, unless it is a block. -/
theorem Counts.blocks {first : Log} (hr : Counts first r) (hday : r.last.SameDay clock)
    (hrotates : r.log.rotates clock = true)
    (hblocks : 0 < r.log.splitLines ∧ (r.changed = true → r.log.splitLines ≠ 1)) :
    (r.log.count + 1).tdiv r.log.splitLines = r.linesAt clock / r.log.splitLines := by
  obtain ⟨hpos, hblocks⟩ := hblocks
  have hlines : ((r.linesAt clock : Nat) : Int) = r.lines + 1 := by
    rw [Rotation.linesAt, if_pos hday]
    exact Nat.cast_succ _
  have hnonneg : 0 ≤ r.log.count + 1 := Int.le_add_one hr.nonneg
  have hcount := hr.count
  rw [Int.tdiv_eq_ediv_of_nonneg hnonneg, hlines, ← hcount]
  cases hchanged : r.changed with
  | false =>
    simp only [Bool.false_eq_true, if_false]
    rw [Int.add_zero]
  | true =>
    rw [rotates_iff (hr.today.trans hday.2.2)] at hrotates
    obtain ⟨k, hk⟩ := Int.dvd_of_tmod_eq_zero hrotates
    have hone := hblocks hchanged
    simp only [if_true]
    rw [hk, Int.mul_ediv_cancel_left _ (by omega), Int.add_comm, Int.add_mul_ediv_left _ _ (by omega),
      Int.ediv_eq_zero_of_lt (by decide) (by omega), Int.zero_add]

/-- **A regular call** names its file rightly. -/
theorem Counts.named {first : Log} {c : Clock} (hr : Counts first r)
    (hinit : Log.init fileName bufSize splitLines maxQueueSize c true = .ok (true, first))
    (hname : 47 ∈ fileName ∨ fileName = []) (hregular : Regular r i) :
    Named fileName bufSize splitLines maxQueueSize r i := by
  have hsplit : r.log.splitLines = splitLines := hr.splitLines.trans (init_fields hinit).1
  have hpath := initPath_eq hinit hname i.1
  rw [← hr.dirName, ← hr.logName] at hpath
  constructor
  · intro hday hopened log henter
    have hne : r.log.today ≠ i.1.mday := by
      rw [hr.today]
      exact hregular.noticed hday
    have hrotates := rotates_of_ne hne
    rw [(entered henter).fp, if_pos hrotates, if_pos (hopened hrotates), hpath, Log.newLog, if_pos hne,
      List.take_of_length_le (hregular.day hrotates (hopened hrotates))]
  · intro hday hrotates hopened log henter
    have hsame : r.log.today = i.1.mday := hr.today.trans hday.2.2
    have hnumber := hr.blocks hday hrotates (hregular.blocks hday hrotates hopened)
    have hroom := hregular.room hday hrotates hopened
    have hshort : (r.log.dirName ++ i.1.day ++ r.log.logName).length ≤ 254 := by
      rw [List.length_append, List.length_append] at hroom
      omega
    rw [(entered henter).fp, if_pos hrotates, if_pos hopened, hpath, Log.newLog, if_neg (not_not_intro hsame),
      List.take_of_length_le (hregular.day hrotates hopened), hnumber, List.take_of_length_le hroom,
      List.take_of_length_le hshort, hsplit]
    rfl

/-- Without a `/` in it, the name is gone with the first day that is noticed. -/
theorem Counts.not_named_noSlash {first : Log} {c : Clock} (hr : Counts first r)
    (hinit : Log.init fileName bufSize splitLines maxQueueSize c true = .ok (true, first))
    (hslash : 47 ∉ fileName) (hne : fileName ≠ []) (hnoticed : r.last.mday ≠ i.1.mday) (hopened : i.2 = true)
    (henter : r.log.enter i.1 i.2 = .ok log) : ¬ Named fileName bufSize splitLines maxQueueSize r i := by
  intro hnamed
  have hnone := strrchr_eq_none.mpr hslash
  have hfirst : first.dirName = [] ∧ first.logName = [] := by
    rw [init_noSlash hnone] at hinit
    cases hinit
    exact ⟨rfl, rfl⟩
  have hchanged : r.log.today ≠ i.1.mday := by rwa [hr.today]
  have hfp := hnamed.newDay (fun hday => hnoticed hday.2.2) (fun _ => hopened) log henter
  rw [(entered henter).fp, if_pos (rotates_of_ne hchanged), if_pos hopened, Log.newLog, if_pos hchanged,
    hr.dirName, hr.logName, hfirst.1, hfirst.2, List.nil_append, List.append_nil, initPath_noSlash hnone,
    Option.some.injEq] at hfp
  -- the day is all that is left
  have hlength := congrArg List.length hfp
  have hpos := List.length_pos_iff.mpr hne
  rw [List.length_take, List.length_take, List.length_take, List.length_append] at hlength
  omega

/-! ## Every run -/

theorem counts_start (hstart : (rotating fileName bufSize splitLines maxQueueSize).start r) :
    ∃ c, Log.init fileName bufSize splitLines maxQueueSize c true = .ok (true, r.log) ∧ Counts r.log r := by
  obtain ⟨c, log, hinit, rfl⟩ := hstart
  obtain ⟨-, htoday, hcount⟩ := init_fields hinit
  exact ⟨c, hinit, rfl, rfl, rfl, htoday, hcount.ge, by rw [hcount]; rfl⟩

/-- **When the log keeps its name**: in a run whose calls are all regular, every file is named as `init` would
    name it, if the name that `init` got has a `/`. -/
theorem named_of_regular (hname : 47 ∈ fileName ∨ fileName = [])
    (hstart : (rotating fileName bufSize splitLines maxQueueSize).start r)
    (hrun : ((rotating fileName bufSize splitLines maxQueueSize).restrict Regular).Run r h s) :
    ((rotating fileName bufSize splitLines maxQueueSize).restrict
      (Named fileName bufSize splitLines maxQueueSize)).Run r h s := by
  obtain ⟨c, hinit, hr⟩ := counts_start hstart
  suffices hboth : ((rotating fileName bufSize splitLines maxQueueSize).restrict
      (Named fileName bufSize splitLines maxQueueSize)).Run r h s ∧ Counts r.log s from hboth.1
  induction hrun with
  | nil => exact ⟨.nil _, hr⟩
  | step _ hstep ih =>
    obtain ⟨hnamed, hcounts⟩ := ih
    obtain ⟨⟨hzero, log, henter, rfl⟩, hregular⟩ := hstep
    exact ⟨hnamed.step ⟨⟨hzero, log, henter, rfl⟩, hcounts.named hinit hname hregular⟩,
      hcounts.step hregular.noticed henter⟩

/-- One call on the day of `init`, with a file for every line. -/
theorem named_of_regular_one :
    let clock : Clock := ⟨2024, 1, 31, 3, 4, 5, 6⟩
    let log := Log.fresh (bytes "logs/") (bytes "web") (bytes "logs/" ++ clock.day ++ bytes "web") 200 1 0 clock true
    ((rotating (bytes "logs/web") 200 1 0).restrict (Named (bytes "logs/web") 200 1 0)).Run
      ⟨log, clock, 0, false⟩ [(clock, true)]
      ⟨{ log with fp := some (log.newLog clock), count := 1 }, clock, 1, false⟩ := by
  intro clock log
  have hregular : Regular ⟨log, clock, 0, false⟩ (clock, true) :=
    ⟨fun hday => absurd ⟨rfl, rfl, rfl⟩ hday, fun _ _ => by decide, fun _ _ _ => by decide,
      fun _ _ _ => ⟨by decide, fun hchanged => by cases hchanged⟩⟩
  exact named_of_regular (.inl (by decide)) ⟨clock, log, rfl, rfl⟩
    (.step (.nil _) ⟨⟨fun _ => Int.one_ne_zero, _, rfl, rfl⟩, hregular⟩)

/-- **The name is lost**: a log called `web`, begun on the last of January, and a line on the day after. -/
theorem not_named_web :
    ∃ r r', (rotating (bytes "web") 200 800000 0).start r ∧
      (rotating (bytes "web") 200 800000 0).step r (⟨2024, 2, 1, 3, 4, 5, 6⟩, true) r' ∧
      r'.log.fp = some (bytes "2024_02_01_") ∧
      ¬ Named (bytes "web") 200 800000 0 r (⟨2024, 2, 1, 3, 4, 5, 6⟩, true) := by
  let clock : Clock := ⟨2024, 1, 31, 3, 4, 5, 6⟩
  let log := Log.fresh [] [] (clock.day ++ bytes "web") 200 800000 0 clock true
  have hinit : Log.init (bytes "web") 200 800000 0 clock true = .ok (true, log) := init_noSlash (by decide) true
  have hstart : (rotating (bytes "web") 200 800000 0).start ⟨log, clock, 0, false⟩ := ⟨clock, log, hinit, rfl⟩
  obtain ⟨c, hfirst, hcounts⟩ := counts_start hstart
  have henter : ∃ log', log.enter ⟨2024, 2, 1, 3, 4, 5, 6⟩ true = .ok log' ∧
      log'.fp = some (bytes "2024_02_01_") := ⟨_, rfl, by decide⟩
  obtain ⟨log', henter, hfp⟩ := henter
  exact ⟨_, _, hstart, ⟨fun hsame => absurd hsame (by decide), log', henter, rfl⟩, hfp,
    hcounts.not_named_noSlash hfirst (by decide) (by decide) (by decide) rfl henter⟩

end

end Rotation

/-! ## The calls of a run of the log -/

section
variable {fileName : List Byte} {bufSize splitLines maxQueueSize : Int} {log : Log} {clock : Clock}

/-- The log without its lock and its queue, which are nothing to the names. -/
def Log.bare (log : Log) : Log := { log with queue := none, locked := false }

/-- What a step calls for. -/
def Logging.Step.called : Logging.Step → Option (Clock × Bool)
  | .enter call opened => some (call.clock, opened)
  | _ => none

theorem Log.enter_bare (log : Log) (clock : Clock) (opened : Bool) :
    (log.bare.enter clock opened).map Log.bare = (log.enter clock opened).map Log.bare := by
  unfold Log.enter
  by_cases hrotates : log.rotates clock = true
  · have hbare : log.bare.rotates clock = true := hrotates
    rw [if_pos hrotates, if_pos hbare]
    by_cases hfp : log.fp = none
    · have hbare' : log.bare.fp = none := hfp
      rw [if_pos hfp, if_pos hbare']
    · have hbare' : log.bare.fp ≠ none := hfp
      rw [if_neg hfp, if_neg hbare']
      rfl
  · have hbare : ¬ log.bare.rotates clock = true := hrotates
    rw [if_neg hrotates, if_neg hbare]
    rfl

/-- Two logs that differ in nothing else are left so by a call. -/
theorem Log.enter_alike {log log' next : Log} {opened : Bool} (halike : log.bare = log'.bare)
    (henter : log.enter clock opened = .ok next) :
    ∃ next', log'.enter clock opened = .ok next' ∧ next.bare = next'.bare := by
  have hmap := Log.enter_bare log' clock opened
  rw [← halike, Log.enter_bare, henter] at hmap
  cases hnext : log'.enter clock opened with
  | error e =>
    rw [hnext] at hmap
    cases hmap
  | ok next' =>
    rw [hnext] at hmap
    exact ⟨next', rfl, Except.ok.inj hmap⟩

/-- A section that is not the first of a call changes nothing that a name is made of. -/
theorem Logging.exec_bare {t t' : Logging} {i : Logging.Step} (hcalled : i.called = none) (hexec : t.exec i = .ok t') :
    t'.log.bare = t.log.bare := by
  cases i with
  | enter call opened => cases hcalled
  | format =>
    simp only [Logging.exec] at hexec
    split at hexec
    · obtain ⟨text, -, hexec⟩ := bind_eq_ok.mp hexec
      cases hexec
      rfl
    · cases hexec
      rfl
  | choose =>
    simp only [Logging.exec] at hexec
    split at hexec <;> cases hexec <;> rfl
  | push =>
    simp only [Logging.exec] at hexec
    split at hexec
    · obtain ⟨pushed, -, hexec⟩ := bind_eq_ok.mp hexec
      cases hexec
      rfl
    · cases hexec
      rfl
  | direct =>
    simp only [Logging.exec, Logging.fputs] at hexec
    split at hexec
    · split at hexec <;> cases hexec
      rfl
    · cases hexec
      rfl
  | take =>
    simp only [Logging.exec] at hexec
    split at hexec
    · obtain ⟨popped, -, hexec⟩ := bind_eq_ok.mp hexec
      cases hexec
      rfl
    · cases hexec
      rfl
  | consume =>
    simp only [Logging.exec, Logging.fputs] at hexec
    split at hexec
    · split at hexec <;> cases hexec
      rfl
    · cases hexec
      rfl

/-- **The calls of a run of the log** are calls one after another, whatever the threads do between them. -/
theorem Logging.rotating_of_run {t : Logging} {steps : List Logging.Step}
    (hinit : Log.init fileName bufSize splitLines maxQueueSize clock true = .ok (true, log))
    (hrun : logging.Run ⟨log, [], .out, none⟩ steps t) :
    (rotating fileName bufSize splitLines maxQueueSize).start ⟨log, clock, 0, false⟩ ∧
      ∃ r, (rotating fileName bufSize splitLines maxQueueSize).Run ⟨log, clock, 0, false⟩
        (steps.filterMap Logging.Step.called) r ∧ t.log.bare = r.log.bare := by
  refine ⟨⟨clock, log, hinit, rfl⟩, ?_⟩
  refine hrun.simulate (fun (t : Logging) (r : Rotation) => t.log.bare = r.log.bare) Logging.Step.called ?_ rfl
  intro t i u r halike hstep
  obtain ⟨henabled, hexec⟩ := hstep
  cases hcalled : i.called with
  | none => exact ⟨r, rfl, (Logging.exec_bare hcalled hexec).trans halike⟩
  | some label =>
    cases i with
    | enter call opened =>
      cases hcalled
      obtain ⟨next, henter, hexec⟩ := bind_eq_ok.mp hexec
      cases hexec
      obtain ⟨next', henter', hnext⟩ := Log.enter_alike halike henter
      refine ⟨r.called call.clock next', ⟨?_, next', henter', rfl⟩, hnext⟩
      intro htoday
      have hsame : t.log.today = r.log.today := (congrArg Log.today halike :)
      have hsplit : t.log.splitLines = r.log.splitLines := (congrArg Log.splitLines halike :)
      rw [← hsplit]
      exact henabled.2.2 (hsame.trans htoday)
    | format | choose | push | direct | take | consume => cases hcalled

end

end LinuxServer
