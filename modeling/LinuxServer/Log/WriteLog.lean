import LinuxServer.Lib.CString
import LinuxServer.Log.BlockQueue

/-!
# `Log/WriteLog.lean` — `Log::write_log` and the thread that writes for it

A call of `write_log` is three sections: the one in which the line is counted and the file is changed, the
one in which the text is made in `m_buf`, and a last one that puts the text in the queue or in the file.
All of it stands inside the `if` that asks whether the file is to be changed. So a line is written only
when it comes with a new day or with a multiple of `m_split_lines`; any other is lost, and since the
`unlock` stands inside as well, it leaves `m_mutex` locked (`enter`).

One thread calls `write_log`, and another is in `async_write_log`, whose `pop` never fails here. The queue
between them is a constructed one; that `cond`'s constructor throws when `pthread_cond_init` succeeds is left
out of this. What the log is for holds of the runs in which no line is lost in this way, and no line that
finds the queue full overtakes those in it (`written_in_order`).
-/

set_option autoImplicit false

namespace LinuxServer

/-- What `gettimeofday` and `localtime` tell, the year and the month as they are printed. -/
structure Clock where
  year : Int
  month : Int
  mday : Int
  hour : Int
  min : Int
  sec : Int
  usec : Int
  deriving DecidableEq, Repr

/-- What `%0*d` prints, for a width of `width`. -/
def padded (width : Nat) (n : Int) : List Byte :=
  let sign := if n < 0 then bytes "-" else []
  let figures := decimal n.natAbs
  sign ++ List.replicate (width - (sign.length + figures.length)) 48 ++ figures

/-- `"%d_%02d_%02d_"`, of the day. -/
def Clock.day (c : Clock) : List Byte :=
  decimal c.year ++ bytes "_" ++ padded 2 c.month ++ bytes "_" ++ padded 2 c.mday ++ bytes "_"

/-! ## The text of a line -/

/-- A call of `write_log`: the clock it finds, its level, and the text that its format gives. -/
structure LogCall where
  clock : Clock
  level : Int
  message : List Byte
  deriving DecidableEq, Repr

theorem zero_notMem_padded (width : Nat) (n : Int) : 0 ∉ padded width n := by
  rw [padded, List.mem_append, List.mem_append, List.mem_replicate]
  rintro ((hsign | ⟨-, h48⟩) | hfigures)
  · split at hsign
    · exact absurd hsign (by decide)
    · cases hsign
  · cases h48
  · exact zero_notMem_decimal _ hfigures

namespace LogCall

def levelName (c : LogCall) : List Byte :=
  if c.level = 0 then bytes "[DEBUG]"
  else if c.level = 2 then bytes "[WARN]"
  else if c.level = 3 then bytes "[ERROR]"
  else bytes "[INFO]"

/-- `"%d-%02d-%02d %02d:%02d:%02d.%06ld %s "`. -/
def header (c : LogCall) : List Byte :=
  decimal c.clock.year ++ bytes "-" ++ padded 2 c.clock.month ++ bytes "-" ++ padded 2 c.clock.mday ++
    bytes " " ++ padded 2 c.clock.hour ++ bytes ":" ++ padded 2 c.clock.min ++ bytes ":" ++
    padded 2 c.clock.sec ++ bytes "." ++ padded 6 c.clock.usec ++ bytes " " ++ c.levelName ++ bytes " "

/-- The line that the call is to write. -/
def line (c : LogCall) : List Byte := c.header ++ c.message ++ [10]

/-- What is made of it in an `m_buf` of `bufSize` bytes. `snprintf` and `vsnprintf` keep to what they are
    given, but return the length of the whole, at which the newline and the zero are put; `log_str` is what
    there is in front of the first zero. -/
def buffer (bufSize : Int) (c : LogCall) : Except Fault (List Byte) :=
  if bufSize ≤ c.line.length then .error .outOfBounds
  else if 48 ≤ c.header.length then .ok (c.header.take 47)
  else .ok (c.line.takeWhile (· ≠ 0))

/-- A line that has room, and no zero in it. -/
def Fits (bufSize : Int) (c : LogCall) : Prop :=
  c.header.length < 48 ∧ c.line.length < bufSize ∧ 0 ∉ c.message

theorem levelName_cases (c : LogCall) : c.levelName = bytes "[DEBUG]" ∨ c.levelName = bytes "[WARN]" ∨
    c.levelName = bytes "[ERROR]" ∨ c.levelName = bytes "[INFO]" := by
  unfold levelName
  split
  · exact .inl rfl
  · split
    · exact .inr (.inl rfl)
    · split
      · exact .inr (.inr (.inl rfl))
      · exact .inr (.inr (.inr rfl))

theorem zero_notMem_header (c : LogCall) : 0 ∉ c.header := by
  have hlevel : 0 ∉ c.levelName := by
    rcases c.levelName_cases with h | h | h | h <;> rw [h] <;> decide
  have hmark : ∀ text ∈ ["-", " ", ":", "."], 0 ∉ bytes text := by decide
  simp only [header, List.mem_append, not_or, zero_notMem_decimal, zero_notMem_padded, hlevel,
    hmark "-" (by decide), hmark " " (by decide), hmark ":" (by decide), hmark "." (by decide),
    not_false_eq_true, and_self]

theorem zero_notMem_line {c : LogCall} (hmessage : 0 ∉ c.message) : 0 ∉ c.line := by
  rw [line, List.mem_append, List.mem_append, not_or, not_or]
  exact ⟨⟨c.zero_notMem_header, hmessage⟩, by decide⟩

theorem Fits.buffer {bufSize : Int} {c : LogCall} (h : c.Fits bufSize) : c.buffer bufSize = .ok c.line := by
  obtain ⟨hheader, hline, hmessage⟩ := h
  unfold LogCall.buffer
  rw [if_neg (by omega), if_neg (by omega), takeWhile_ne_iff.mpr (zero_notMem_line hmessage)]

end LogCall

/-! ## The log -/

/-- `class Log`, the one object of it, which is zero before its constructor. A stream is known by the name
    of its file, and `m_log_queue` is there if `m_is_async`. -/
structure Log where
  dirName : List Byte
  logName : List Byte
  splitLines : Int
  bufSize : Int
  count : Int
  today : Int
  fp : Option (List Byte)
  queue : Option (BlockQueue (List Byte))
  /-- `m_mutex`, between two sections. -/
  locked : Bool
  deriving DecidableEq, Repr

namespace Log

/-- What `init` sets, with a stream for `fullName` or none. -/
def fresh (dirName logName fullName : List Byte) (bufSize splitLines maxQueueSize : Int) (clock : Clock)
    (opened : Bool) : Log where
  dirName := dirName
  logName := logName
  splitLines := splitLines
  bufSize := bufSize
  count := 0
  today := clock.mday
  fp := if opened then some (fullName.take 254) else none
  queue := if 1 ≤ maxQueueSize then some (.initial (List.replicate maxQueueSize.toNat [])) else none
  locked := false

/-- `Log::init`, where `fopen` gives a stream or not. -/
def init (fileName : List Byte) (bufSize splitLines maxQueueSize : Int) (clock : Clock) (opened : Bool) :
    Except Fault (Bool × Log) :=
  match strrchr fileName 47 with
  | none =>
    .ok (opened, fresh [] [] (clock.day ++ fileName) bufSize splitLines maxQueueSize clock opened)
  | some p =>
    let logName := fileName.drop (p + 1)
    let dirName := fileName.take (p + 1)
    if 128 ≤ logName.length ∨ 128 ≤ dirName.length then .error .outOfBounds
    else .ok (opened, fresh dirName logName (dirName ++ clock.day ++ logName) bufSize splitLines maxQueueSize
      clock opened)

/-- The test in front of everything, with `m_count` as it has been counted. -/
def rotates (log : Log) (clock : Clock) : Bool :=
  log.today ≠ clock.mday ∨ (log.count + 1).tmod log.splitLines = 0

/-- The name of the next file. -/
def newLog (log : Log) (clock : Clock) : List Byte :=
  let tail := clock.day.take 15
  if log.today ≠ clock.mday then (log.dirName ++ tail ++ log.logName).take 254
  else (log.dirName ++ tail ++ log.logName ++ bytes "." ++
    decimal ((log.count + 1).tdiv log.splitLines)).take 254

/-- The first section of `write_log`. -/
def enter (log : Log) (clock : Clock) (opened : Bool) : Except Fault Log :=
  if log.rotates clock then
    -- `fclose(m_fp)`
    if log.fp = none then .error .nullPointer
    else .ok { log with
      fp := if opened then some (log.newLog clock) else none
      today := clock.mday
      count := if log.today ≠ clock.mday then 0 else log.count + 1 }
  else .ok { log with count := log.count + 1, locked := true }

end Log

/-- The thread that calls `write_log`: in no call, or between two of its sections. -/
inductive LogWriter
  | out
  | entered (call : LogCall)
  | formatted (text : List Byte)
  /-- `full()` has said no. -/
  | pushing (text : List Byte)
  /-- Before the `fputs` of its own. -/
  | direct (text : List Byte)
  deriving DecidableEq, Repr

/-- The log, what has been written to which file, and the two threads; that of `async_write_log` is in
    `pop`, or has a line. -/
structure Logging where
  log : Log
  files : List (List Byte × List Byte)
  writer : LogWriter
  consumer : Option (List Byte)
  deriving DecidableEq, Repr

namespace Logging

inductive Step
  | enter (call : LogCall) (opened : Bool)
  | format
  | choose
  | push
  | direct
  | take
  | consume
  deriving DecidableEq, Repr

/-- `fputs(text, m_fp)`. -/
def fputs (t : Logging) (text : List Byte) : Except Fault Logging :=
  match t.log.fp with
  | some file => .ok { t with files := t.files ++ [(file, text)] }
  | none => .error .nullPointer

def setQueue (t : Logging) (q : BlockQueue (List Byte)) : Logging :=
  { t with log := { t.log with queue := some q } }

def exec (t : Logging) : Step → Except Fault Logging
  | .enter call opened => do
    let log ← t.log.enter call.clock opened
    return { t with log := log, writer := if t.log.rotates call.clock then .entered call else .out }
  | .format =>
    match t.writer with
    | .entered call => do
      let text ← call.buffer t.log.bufSize
      return { t with writer := .formatted text }
    | _ => .ok t
  | .choose =>
    match t.writer, t.log.queue with
    | .formatted text, none => .ok { t with writer := .direct text }
    | .formatted text, some q => .ok { t with writer := if q.full then .direct text else .pushing text }
    | _, _ => .ok t
  | .push =>
    match t.writer, t.log.queue with
    | .pushing text, some q => do
      -- whether there was room is not asked
      let pushed ← q.push text
      return { t.setQueue pushed.2 with writer := .out }
    | _, _ => .ok t
  | .direct =>
    match t.writer with
    | .direct text => { t with writer := .out }.fputs text
    | _ => .ok t
  | .take =>
    match t.log.queue with
    | some q => do
      let popped ← q.pop
      return { t.setQueue popped.2 with consumer := popped.1 }
    | none => .ok t
  | .consume =>
    match t.consumer with
    | some text => { t with consumer := none }.fputs text
    | none => .ok t

def Enabled (t : Logging) : Step → Prop
  -- a `%` by zero ends the process
  | .enter call _ =>
    t.writer = .out ∧ t.log.locked = false ∧ (t.log.today = call.clock.mday → t.log.splitLines ≠ 0)
  | .format => (∃ call, t.writer = .entered call) ∧ t.log.locked = false
  | .choose => ∃ text, t.writer = .formatted text
  | .push => ∃ text, t.writer = .pushing text
  | .direct => (∃ text, t.writer = .direct text) ∧ t.log.locked = false
  | .take => t.consumer = none ∧ ∃ q, t.log.queue = some q ∧ 0 < q.size
  | .consume => (∃ text, t.consumer = some text) ∧ t.log.locked = false

/-- What has been written. -/
def written (t : Logging) : List (List Byte) := t.files.map Prod.snd

/-- Nothing is under way. -/
def Quiet (t : Logging) : Prop :=
  t.writer = .out ∧ t.consumer = none ∧ ∀ q, t.log.queue = some q → q.size = 0

/-- The lines of the calls, the first first. -/
def issued : List Step → List (List Byte)
  | [] => []
  | .enter call _ :: h => issued h ++ [call.line]
  | _ :: h => issued h

end Logging

/-- A log from a successful `init` on, with any calls of `write_log` by one thread. -/
def logging : System Logging Logging.Step where
  start t := ∃ fileName bufSize splitLines maxQueueSize clock log,
    Log.init fileName bufSize splitLines maxQueueSize clock true = .ok (true, log) ∧ t = ⟨log, [], .out, none⟩
  step t i t' := t.Enabled i ∧ t.exec i = .ok t'

namespace Logging

/-! ## What the log needs -/

/-- The steps after which no line is lost: a call comes with a change of the file that succeeds, and its
    line has room; and a line that is not queued waits until all before it are in the file. -/
def Careful (t : Logging) : Step → Prop
  | .enter call opened =>
    t.log.rotates call.clock = true ∧ call.Fits t.log.bufSize ∧ opened = true
  | .direct => t.consumer = none ∧ ∀ q, t.log.queue = some q → q.size = 0
  | _ => True

end Logging

/-- The line a thread has under way. -/
def LogWriter.line : LogWriter → List (List Byte)
  | .out => []
  | .entered call => [call.line]
  | .formatted text | .pushing text | .direct text => [text]

/-- How many steps it takes at most until the line is in the file. -/
def LogWriter.cost : LogWriter → Nat
  | .out => 0
  | .entered _ => 5
  | .formatted _ => 4
  | .pushing _ => 3
  | .direct _ => 1

namespace Logging

/-- **The invariant**, for the lines that are in the queue: every line is in a file, with the consumer, in
    the queue or under way, in the order of the calls. -/
structure Accounted (h : List Step) (t : Logging) (items : List (List Byte)) : Prop where
  lines : issued h = t.written ++ t.consumer.toList ++ items ++ t.writer.line
  queued : ∀ q, t.log.queue = some q → q.Represents items
  sync : t.log.queue = none → items = [] ∧ t.consumer = none
  room : ∀ text, t.writer = .pushing text → ∃ q, t.log.queue = some q ∧ items.length < q.array.length
  fits : ∀ call, t.writer = .entered call → call.Fits t.log.bufSize
  stream : ∃ file, t.log.fp = some file
  unlocked : t.log.locked = false

/-- How many steps are left of what has been called for. -/
def cost (t : Logging) (items : List (List Byte)) : Nat :=
  t.writer.cost + 2 * items.length + t.consumer.toList.length

/-- A step that is not a call. -/
def goesOn : Step → Bool
  | .enter .. => false
  | _ => true

section
variable {h : List Step} {t t' s : Logging} {items : List (List Byte)}

/-- What `fputs` does where there is a stream. -/
theorem fputs_eq (hstream : ∃ file, t.log.fp = some file) (text : List Byte) :
    ∃ file, t.fputs text = .ok { t with files := t.files ++ [(file, text)] } := by
  obtain ⟨file, hfile⟩ := hstream
  refine ⟨file, ?_⟩
  unfold fputs
  rw [hfile]

theorem written_fputs (file text : List Byte) :
    (t.files ++ [(file, text)]).map Prod.snd = t.written ++ [text] := by
  rw [List.map_append]
  rfl

/-! ## One step -/

theorem Accounted.enter (ht : Accounted h t items) {call : LogCall} (hout : t.writer = .out)
    (hrotates : t.log.rotates call.clock = true) (hfits : call.Fits t.log.bufSize) :
    ∃ t', t.exec (.enter call true) = .ok t' ∧ Accounted (.enter call true :: h) t' items := by
  obtain ⟨file, hfile⟩ := ht.stream
  refine ⟨{ t with
    log := { t.log with
      fp := some (t.log.newLog call.clock)
      today := call.clock.mday
      count := if t.log.today ≠ call.clock.mday then 0 else t.log.count + 1 }
    writer := .entered call }, ?_, ?_⟩
  · have hfp : t.log.fp ≠ none := by
      rw [hfile]
      exact Option.some_ne_none file
    simp only [exec, Log.enter, if_pos hrotates, if_neg hfp]
    rfl
  · refine ⟨?_, ht.queued, ht.sync, ?_, ?_, ⟨_, rfl⟩, ht.unlocked⟩
    · have hlines := ht.lines
      rw [hout] at hlines
      show issued h ++ [call.line] = t.written ++ t.consumer.toList ++ items ++ [call.line]
      rw [hlines]
      simp only [LogWriter.line, List.append_nil]
    · intro text hpushing
      cases hpushing
    · intro c hentered
      cases hentered
      exact hfits

theorem Accounted.format (ht : Accounted h t items) {call : LogCall} (hentered : t.writer = .entered call) :
    ∃ t', t.exec .format = .ok t' ∧ Accounted (.format :: h) t' items ∧
      t'.cost items < t.cost items := by
  refine ⟨{ t with writer := .formatted call.line }, ?_, ?_, ?_⟩
  · simp only [exec, hentered, (ht.fits call hentered).buffer]
    rfl
  · refine ⟨?_, ht.queued, ht.sync, ?_, ?_, ht.stream, ht.unlocked⟩
    · have hlines := ht.lines
      rw [hentered] at hlines
      exact hlines
    · intro text hpushing
      cases hpushing
    · intro c hc
      cases hc
  · simp only [cost, hentered, LogWriter.cost]
    omega

theorem Accounted.choose (ht : Accounted h t items) {text : List Byte}
    (hformatted : t.writer = .formatted text) :
    ∃ t', t.exec .choose = .ok t' ∧ Accounted (.choose :: h) t' items ∧
      t'.cost items < t.cost items := by
  have hlines := ht.lines
  rw [hformatted] at hlines
  -- the line that is under way is the same before the queue or the file
  have hdirect : Accounted (.choose :: h) { t with writer := .direct text } items :=
    ⟨hlines, ht.queued, ht.sync, (fun _ hpushing => by cases hpushing), (fun _ hc => by cases hc),
      ht.stream, ht.unlocked⟩
  cases hqueue : t.log.queue with
  | none =>
    refine ⟨{ t with writer := .direct text }, ?_, hdirect, ?_⟩
    · simp only [exec, hformatted, hqueue]
    · simp only [cost, hformatted, LogWriter.cost]
      omega
  | some q =>
    have hq := ht.queued q hqueue
    cases hfull : q.full with
    | true =>
      refine ⟨{ t with writer := .direct text }, ?_, hdirect, ?_⟩
      · simp only [exec, hformatted, hqueue, hfull, if_true]
      · simp only [cost, hformatted, LogWriter.cost]
        omega
    | false =>
      refine ⟨{ t with writer := .pushing text }, ?_, ?_, ?_⟩
      · simp only [exec, hformatted, hqueue, hfull, Bool.false_eq_true, if_false]
      · refine ⟨hlines, ht.queued, ht.sync, ?_, (fun _ hc => by cases hc), ht.stream, ht.unlocked⟩
        intro text' _
        refine ⟨q, hqueue, ?_⟩
        have hne : ¬ items.length = q.array.length := by
          rw [← hq.full_iff, hfull]
          exact Bool.false_ne_true
        have hsize := hq.size
        have hroom := hq.room
        have hcapacity := hq.capacity
        omega
      · simp only [cost, hformatted, LogWriter.cost]
        omega

theorem Accounted.push (ht : Accounted h t items) {text : List Byte} (hpushing : t.writer = .pushing text) :
    ∃ t', t.exec .push = .ok t' ∧ Accounted (.push :: h) t' (items ++ [text]) ∧
      t'.cost (items ++ [text]) < t.cost items := by
  obtain ⟨q, hqueue, hroom⟩ := ht.room text hpushing
  obtain ⟨q', hpush, -, hq'⟩ := (ht.queued q hqueue).push_room hroom text
  refine ⟨{ t.setQueue q' with writer := .out }, ?_, ?_, ?_⟩
  · simp only [exec, hpushing, hqueue, hpush]
    rfl
  · refine ⟨?_, ?_, ?_, (fun _ hc => by cases hc), (fun _ hc => by cases hc), ht.stream, ht.unlocked⟩
    · have hlines := ht.lines
      rw [hpushing] at hlines
      show issued h = t.written ++ t.consumer.toList ++ (items ++ [text]) ++ []
      rw [hlines, List.append_nil, ← List.append_assoc]
      rfl
    · intro q'' hq''
      obtain rfl : q' = q'' := Option.some.inj hq''
      exact hq'
    · intro hnone
      cases hnone
  · simp only [cost, hpushing, LogWriter.cost, setQueue, List.length_append, List.length_singleton]
    omega

theorem Accounted.items_of_empty (ht : Accounted h t items) (hempty : ∀ q, t.log.queue = some q → q.size = 0) :
    items = [] := by
  cases hqueue : t.log.queue with
  | none => exact (ht.sync hqueue).1
  | some q =>
    have hsize := (ht.queued q hqueue).size
    rw [hempty q hqueue] at hsize
    exact List.length_eq_zero_iff.mp (by omega)

theorem Accounted.direct (ht : Accounted h t items) {text : List Byte} (hdirect : t.writer = .direct text)
    (hcareful : t.Careful .direct) :
    ∃ t', t.exec .direct = .ok t' ∧ Accounted (.direct :: h) t' items ∧
      t'.cost items < t.cost items := by
  obtain ⟨hconsumer, hempty⟩ := hcareful
  -- nothing is in front of the line
  have hitems := ht.items_of_empty hempty
  obtain ⟨file, hfputs⟩ := fputs_eq (t := { t with writer := .out }) ht.stream text
  refine ⟨{ t with files := t.files ++ [(file, text)], writer := .out }, ?_, ⟨?_, ht.queued, ht.sync,
    (fun _ hc => by cases hc), (fun _ hc => by cases hc), ht.stream, ht.unlocked⟩, ?_⟩
  · simp only [exec, hdirect]
    exact hfputs
  · have hlines := ht.lines
    rw [hdirect, hconsumer, hitems] at hlines
    show issued h = (t.files ++ [(file, text)]).map Prod.snd ++ t.consumer.toList ++ items ++ []
    rw [written_fputs, hlines, hconsumer, hitems]
    simp only [Option.toList_none, List.append_nil, LogWriter.line]
  · simp only [cost, hdirect, LogWriter.cost]
    omega

theorem Accounted.take (ht : Accounted h t items) {q : BlockQueue (List Byte)}
    (hqueue : t.log.queue = some q) (hconsumer : t.consumer = none) (hpos : 0 < q.size) :
    ∃ t' items', t.exec .take = .ok t' ∧ Accounted (.take :: h) t' items' ∧
      t'.cost items' < t.cost items := by
  have hq := ht.queued q hqueue
  cases items with
  | nil =>
    have hsize : q.size = 0 := hq.size
    omega
  | cons text rest =>
    obtain ⟨q', hpop, harray, hq'⟩ := hq.pop_cons
    refine ⟨{ t.setQueue q' with consumer := some text }, rest, ?_, ?_, ?_⟩
    · simp only [exec, hqueue, hpop]
      rfl
    · refine ⟨?_, ?_, (fun hnone => by cases hnone), ?_, ht.fits, ht.stream, ht.unlocked⟩
      · have hlines := ht.lines
        rw [hconsumer] at hlines
        show issued h = t.written ++ [text] ++ rest ++ t.writer.line
        rw [hlines]
        simp only [Option.toList_none, List.append_nil, List.append_assoc, List.cons_append,
          List.nil_append]
      · intro q'' hq''
        obtain rfl : q' = q'' := Option.some.inj hq''
        exact hq'
      · intro text' hpushing
        obtain ⟨q'', hqueue'', hroom⟩ := ht.room text' hpushing
        obtain rfl : q = q'' := Option.some.inj (hqueue.symm.trans hqueue'')
        rw [List.length_cons] at hroom
        refine ⟨q', rfl, ?_⟩
        rw [harray]
        omega
    · simp only [cost, hconsumer, setQueue, List.length_cons, Option.toList_none, Option.toList_some,
        List.length_nil]
      omega

theorem Accounted.consume (ht : Accounted h t items) {text : List Byte} (hconsumer : t.consumer = some text) :
    ∃ t', t.exec .consume = .ok t' ∧ Accounted (.consume :: h) t' items ∧
      t'.cost items < t.cost items := by
  obtain ⟨file, hfputs⟩ := fputs_eq (t := { t with consumer := none }) ht.stream text
  refine ⟨{ t with files := t.files ++ [(file, text)], consumer := none }, ?_,
    ⟨?_, ht.queued, ?_, ht.room, ht.fits, ht.stream, ht.unlocked⟩, ?_⟩
  · simp only [exec, hconsumer]
    exact hfputs
  · have hlines := ht.lines
    rw [hconsumer] at hlines
    show issued h = (t.files ++ [(file, text)]).map Prod.snd ++ [] ++ items ++ t.writer.line
    rw [written_fputs, hlines, List.append_nil]
    rfl
  · intro hsync
    exact ⟨(ht.sync hsync).1, rfl⟩
  · simp only [cost, hconsumer, Option.toList_none, Option.toList_some, List.length_cons]
    omega

theorem Accounted.step (ht : Accounted h t items) {i : Step} (hstep : (logging.restrict Careful).step t i t') :
    ∃ items', Accounted (i :: h) t' items' := by
  obtain ⟨⟨henabled, hexec⟩, hcareful⟩ := hstep
  -- every section has the one result that its lemma gives
  have hresult : ∀ {u : Logging} {items' : List (List Byte)},
      t.exec i = .ok u → Accounted (i :: h) u items' → ∃ items', Accounted (i :: h) t' items' := by
    intro u items' hu haccounted
    rw [hexec] at hu
    cases hu
    exact ⟨items', haccounted⟩
  cases i with
  | enter call opened =>
    obtain ⟨hout, -, -⟩ := henabled
    obtain ⟨hrotates, hfits, rfl⟩ := hcareful
    obtain ⟨u, hu, haccounted⟩ := ht.enter hout hrotates hfits
    exact hresult hu haccounted
  | format =>
    obtain ⟨⟨call, hentered⟩, -⟩ := henabled
    obtain ⟨u, hu, haccounted, -⟩ := ht.format hentered
    exact hresult hu haccounted
  | choose =>
    obtain ⟨text, hformatted⟩ := henabled
    obtain ⟨u, hu, haccounted, -⟩ := ht.choose hformatted
    exact hresult hu haccounted
  | push =>
    obtain ⟨text, hpushing⟩ := henabled
    obtain ⟨u, hu, haccounted, -⟩ := ht.push hpushing
    exact hresult hu haccounted
  | direct =>
    obtain ⟨⟨text, hdirect⟩, -⟩ := henabled
    obtain ⟨u, hu, haccounted, -⟩ := ht.direct hdirect hcareful
    exact hresult hu haccounted
  | take =>
    obtain ⟨hconsumer, q, hqueue, hpos⟩ := henabled
    obtain ⟨u, items', hu, haccounted, -⟩ := ht.take hqueue hconsumer hpos
    exact hresult hu haccounted
  | consume =>
    obtain ⟨⟨text, hconsumer⟩, -⟩ := henabled
    obtain ⟨u, hu, haccounted, -⟩ := ht.consume hconsumer
    exact hresult hu haccounted

/-- **The log goes on**: what is under way comes nearer to the file, the consumer first. -/
theorem Accounted.goes_on (ht : Accounted h t items) (hquiet : ¬ t.Quiet) :
    ∃ i t' items', goesOn i = true ∧ (logging.restrict Careful).step t i t' ∧
      Accounted (i :: h) t' items' ∧ t'.cost items' < t.cost items := by
  cases hconsumer : t.consumer with
  | some text =>
    obtain ⟨u, hu, haccounted, hcost⟩ := ht.consume hconsumer
    exact ⟨.consume, u, items, rfl, ⟨⟨⟨⟨text, hconsumer⟩, ht.unlocked⟩, hu⟩, trivial⟩, haccounted, hcost⟩
  | none =>
    by_cases hempty : ∀ q, t.log.queue = some q → q.size = 0
    · cases hwriter : t.writer with
      | out => exact absurd ⟨hwriter, hconsumer, hempty⟩ hquiet
      | entered call =>
        obtain ⟨u, hu, haccounted, hcost⟩ := ht.format hwriter
        exact ⟨.format, u, items, rfl, ⟨⟨⟨⟨call, hwriter⟩, ht.unlocked⟩, hu⟩, trivial⟩, haccounted, hcost⟩
      | formatted text =>
        obtain ⟨u, hu, haccounted, hcost⟩ := ht.choose hwriter
        exact ⟨.choose, u, items, rfl, ⟨⟨⟨text, hwriter⟩, hu⟩, trivial⟩, haccounted, hcost⟩
      | pushing text =>
        obtain ⟨u, hu, haccounted, hcost⟩ := ht.push hwriter
        exact ⟨.push, u, _, rfl, ⟨⟨⟨text, hwriter⟩, hu⟩, trivial⟩, haccounted, hcost⟩
      | direct text =>
        obtain ⟨u, hu, haccounted, hcost⟩ := ht.direct hwriter ⟨hconsumer, hempty⟩
        exact ⟨.direct, u, items, rfl,
          ⟨⟨⟨⟨text, hwriter⟩, ht.unlocked⟩, hu⟩, hconsumer, hempty⟩, haccounted, hcost⟩
    · obtain ⟨q, hq⟩ := not_forall.mp hempty
      obtain ⟨hqueue, hne⟩ := Classical.not_imp.mp hq
      have hsize := (ht.queued q hqueue).size
      have hpos : 0 < q.size := by omega
      obtain ⟨u, items', hu, haccounted, hcost⟩ := ht.take hqueue hconsumer hpos
      exact ⟨.take, u, items', rfl, ⟨⟨⟨hconsumer, q, hqueue, hpos⟩, hu⟩, trivial⟩, haccounted, hcost⟩

/-! ## Every run -/

/-- What is under way can be brought into the file, without another call. -/
theorem Accounted.drained (ht : Accounted h t items) (hrun : (logging.restrict Careful).Run s h t) :
    ∃ h' t', (logging.restrict Careful).Run s (h' ++ h) t' ∧ issued (h' ++ h) = issued h ∧ t'.Quiet := by
  induction hn : t.cost items using Nat.strongRecOn generalizing t h items with
  | ind n ih =>
    by_cases hquiet : t.Quiet
    · exact ⟨[], t, hrun, rfl, hquiet⟩
    · obtain ⟨i, u, items', hi, hstep, haccounted, hcost⟩ := ht.goes_on hquiet
      obtain ⟨h', t', hrun', hissued, hquiet'⟩ := ih _ (by omega) haccounted (hrun.step hstep) rfl
      refine ⟨h' ++ [i], t', by rwa [List.append_assoc], ?_, hquiet'⟩
      rw [List.append_assoc, List.singleton_append, hissued]
      cases i with
      | enter => cases hi
      | format | choose | push | direct | take | consume => rfl

theorem accounted_fresh (dirName logName fullName : List Byte) (bufSize splitLines maxQueueSize : Int)
    (clock : Clock) :
    Accounted []
      ⟨Log.fresh dirName logName fullName bufSize splitLines maxQueueSize clock true, [], .out, none⟩ [] := by
  refine ⟨rfl, ?_, (fun _ => ⟨rfl, rfl⟩), (fun _ hc => by cases hc), (fun _ hc => by cases hc), ⟨_, rfl⟩, rfl⟩
  intro q hq
  simp only [Log.fresh] at hq
  split at hq
  · cases hq
    apply BlockQueue.represents_initial
    rw [List.length_replicate]
    omega
  · cases hq

theorem accounted_start (hstart : logging.start t) : Accounted [] t [] := by
  obtain ⟨fileName, bufSize, splitLines, maxQueueSize, clock, log, hinit, rfl⟩ := hstart
  unfold Log.init at hinit
  cases hp : strrchr fileName 47 with
  | none =>
    rw [hp] at hinit
    cases hinit
    exact accounted_fresh ..
  | some p =>
    rw [hp] at hinit
    simp only at hinit
    split at hinit
    · cases hinit
    · cases hinit
      exact accounted_fresh ..

theorem accounted (hstart : logging.start s) (hrun : (logging.restrict Careful).Run s h t) :
    ∃ items, Accounted h t items :=
  hrun.invariant (I := fun h t => ∃ items, Accounted h t items)
    (fun ht hstep => by
      obtain ⟨items, ht⟩ := ht
      exact ht.step hstep)
    ⟨[], accounted_start hstart⟩

/-- **Every line is written once, and in the order of the calls**, in the runs whose steps are careful:
    what is in the files is a first part of what was called for, all of it as soon as nothing is under
    way, and the log can always come to that. -/
theorem written_in_order (hstart : logging.start s) (hrun : (logging.restrict Careful).Run s h t) :
    t.written <+: issued h ∧ (t.Quiet → t.written = issued h) ∧
      ∃ h' t', (logging.restrict Careful).Run s (h' ++ h) t' ∧ issued (h' ++ h) = issued h ∧ t'.Quiet := by
  obtain ⟨items, ht⟩ := accounted hstart hrun
  refine ⟨?_, ?_, ht.drained hrun⟩
  · rw [ht.lines, List.append_assoc, List.append_assoc]
    exact List.prefix_append _ _
  · intro hquiet
    obtain ⟨hout, hconsumer, hempty⟩ := hquiet
    have hitems := ht.items_of_empty hempty
    rw [ht.lines, hout, hconsumer, hitems]
    simp only [Option.toList_none, List.append_nil, LogWriter.line]

/-- Two lines, through the queue, of a log that changes its file with every line. -/
theorem written_in_order_two :
    let clock : Clock := ⟨2024, 1, 2, 3, 4, 5, 6⟩
    let x : LogCall := ⟨clock, 1, bytes "x"⟩
    let y : LogCall := ⟨clock, 3, bytes "y"⟩
    ∃ s t, (logging.restrict Careful).Run s [.consume, .take, .consume, .take, .push, .choose, .format,
        .enter y true, .push, .choose, .format, .enter x true] t ∧ t.written = [x.line, y.line] := by
  intro clock x y
  let log := Log.fresh [] [] (clock.day ++ bytes "log") 200 1 2 clock true
  have hx : x.Fits 200 := by
    unfold LogCall.Fits
    decide +kernel
  have hy : y.Fits 200 := by
    unfold LogCall.Fits
    decide +kernel
  have hformat : ∀ {t : Logging} {call : LogCall}, t.log.bufSize = 200 → t.writer = .entered call →
      call.Fits 200 → t.exec .format = .ok { t with writer := .formatted call.line } := by
    intro t call hbuf hentered hfits
    simp only [exec, hentered, hbuf, hfits.buffer]
    rfl
  let one := { log with
    fp := some (log.newLog clock), count := 1, queue := some ⟨[x.line, []], 1, 2, -1, 0⟩ }
  let two := { one with
    fp := some (one.newLog clock), count := 2, queue := some ⟨[x.line, y.line], 2, 2, -1, 1⟩ }
  have hfirst : (logging.restrict Careful).Run ⟨log, [], .out, none⟩ [.push, .choose, .format, .enter x true]
      ⟨one, [], .out, none⟩ :=
    .step (.step (.step (.step (.nil _) ⟨⟨⟨rfl, rfl, fun _ => Int.one_ne_zero⟩, rfl⟩, rfl, hx, rfl⟩)
      ⟨⟨⟨⟨x, rfl⟩, rfl⟩, hformat rfl rfl hx⟩, trivial⟩)
      ⟨⟨⟨x.line, rfl⟩, rfl⟩, trivial⟩)
      ⟨⟨⟨x.line, rfl⟩, rfl⟩, trivial⟩
  have hsecond : (logging.restrict Careful).Run ⟨log, [], .out, none⟩
      [.push, .choose, .format, .enter y true, .push, .choose, .format, .enter x true] ⟨two, [], .out, none⟩ :=
    .step (.step (.step (.step hfirst ⟨⟨⟨rfl, rfl, fun _ => Int.one_ne_zero⟩, rfl⟩, rfl, hy, rfl⟩)
      ⟨⟨⟨⟨y, rfl⟩, rfl⟩, hformat rfl rfl hy⟩, trivial⟩)
      ⟨⟨⟨y.line, rfl⟩, rfl⟩, trivial⟩)
      ⟨⟨⟨y.line, rfl⟩, rfl⟩, trivial⟩
  have hall : (logging.restrict Careful).Run ⟨log, [], .out, none⟩
      [.consume, .take, .consume, .take, .push, .choose, .format, .enter y true,
        .push, .choose, .format, .enter x true]
      ⟨{ two with queue := some ⟨[x.line, y.line], 0, 2, 1, 1⟩ },
        [(one.newLog clock, x.line), (one.newLog clock, y.line)], .out, none⟩ :=
    .step (.step (.step (.step hsecond ⟨⟨⟨rfl, _, rfl, by decide⟩, rfl⟩, trivial⟩)
      ⟨⟨⟨⟨x.line, rfl⟩, rfl⟩, rfl⟩, trivial⟩)
      ⟨⟨⟨rfl, _, rfl, by decide⟩, rfl⟩, trivial⟩)
      ⟨⟨⟨⟨y.line, rfl⟩, rfl⟩, rfl⟩, trivial⟩
  refine ⟨_, _, hall, (written_in_order ⟨bytes "log", 200, 1, 2, clock, log, rfl, rfl⟩ hall).2.1 ?_⟩
  refine ⟨rfl, rfl, fun q hq => ?_⟩
  cases hq
  rfl

/-! ## A line that is lost -/

/-- **After a line that came with no change of the file** nothing is ever written again. -/
theorem locked_for_good (hlocked : t.log.locked = true) (hrun : logging.Run t h t') :
    t'.files = t.files ∧ t'.log.locked = true := by
  refine hrun.invariant (I := fun _ t' => t'.files = t.files ∧ t'.log.locked = true) ?_ ⟨rfl, hlocked⟩
  intro h u i u' hu hstep
  obtain ⟨hfiles, hu⟩ := hu
  obtain ⟨henabled, hexec⟩ := hstep
  -- three of the sections need the lock
  have hopen : u.log.locked ≠ false := by
    rw [hu]
    exact Bool.noConfusion
  cases i with
  | enter call opened => exact absurd henabled.2.1 hopen
  | format => exact absurd henabled.2 hopen
  | direct => exact absurd henabled.2 hopen
  | consume => exact absurd henabled.2 hopen
  | choose =>
    obtain ⟨text, hformatted⟩ := henabled
    cases hqueue : u.log.queue with
    | none =>
      simp only [exec, hformatted, hqueue] at hexec
      cases hexec
      exact ⟨hfiles, hu⟩
    | some q =>
      simp only [exec, hformatted, hqueue] at hexec
      cases hexec
      exact ⟨hfiles, hu⟩
  | push =>
    obtain ⟨text, hpushing⟩ := henabled
    cases hqueue : u.log.queue with
    | none =>
      simp only [exec, hpushing, hqueue] at hexec
      cases hexec
      exact ⟨hfiles, hu⟩
    | some q =>
      simp only [exec, hpushing, hqueue] at hexec
      obtain ⟨pushed, -, hexec⟩ := bind_eq_ok.mp hexec
      cases hexec
      exact ⟨hfiles, hu⟩
  | take =>
    obtain ⟨-, q, hqueue, -⟩ := henabled
    simp only [exec, hqueue] at hexec
    obtain ⟨popped, -, hexec⟩ := bind_eq_ok.mp hexec
    cases hexec
    exact ⟨hfiles, hu⟩

/-- **The first line is lost**: a log for 800000 lines a file, one call, and the call returns. -/
theorem first_lost :
    ∃ s t call, logging.start s ∧ logging.Run s [.enter call true] t ∧ t.Quiet ∧
      ∀ h t', logging.Run t h t' → t'.written ≠ issued (h ++ [.enter call true]) := by
  let clock : Clock := ⟨2024, 1, 2, 3, 4, 5, 6⟩
  let call : LogCall := ⟨clock, 1, bytes "x"⟩
  let log := Log.fresh [] [] (clock.day ++ bytes "log") 200 800000 0 clock true
  refine ⟨⟨log, [], .out, none⟩, ⟨{ log with count := 1, locked := true }, [], .out, none⟩, call,
    ⟨bytes "log", 200, 800000, 0, clock, log, rfl, rfl⟩, .step (.nil _) ⟨⟨rfl, rfl, ?_⟩, rfl⟩,
    ⟨rfl, rfl, fun _ hq => by cases hq⟩, ?_⟩
  · intro _
    decide
  · intro h t' hrun
    obtain ⟨hfiles, -⟩ := locked_for_good rfl hrun
    have hlength : (issued (h ++ [.enter call true])).length ≠ 0 := by
      have hissued : ∀ h : List Step, 0 < (issued (h ++ [.enter call true])).length := by
        intro h
        induction h with
        | nil => exact Nat.one_pos
        | cons i h ih =>
          cases i with
          | enter => exact List.length_pos_iff.mpr (List.concat_ne_nil _ _)
          | format | choose | push | direct | take | consume => exact ih
      have hpos := hissued h
      omega
    intro hwritten
    rw [← hwritten, written, hfiles] at hlength
    exact hlength rfl

end

end Logging

end LinuxServer
