import LinuxServer.WebServer.Config
import LinuxServer.Http.Users

/-!
# `WebServer/Startup.lean` — `main`, as far as the event loop

`main` reads the command line and calls one function of `WebServer` after another: the log, the connections to the
database and the table of users, the worker threads, the modes, and the listening socket. Each may end the process in
a way of its own: by `exit`, by an exception that nobody catches, by an assertion, or because something is used that
is not there; or leave it waiting for good, where an error is logged. What the libraries and the kernel answer on the
way are `Answers`.

`starts_iff` is which command lines get to the event loop, and what it then starts from. Four of the conditions are
checked nowhere: that the working directory has a path of less than 200 bytes; that there is a connection at all,
since the table is read through the first; that `TRIGMode` is one of its four values, since for others the modes are
never assigned; and that the log is not asynchronous, since `cond` throws where `pthread_cond_init` has succeeded, and
is waited for where it has not.
-/

set_option autoImplicit false

namespace LinuxServer
namespace WebServer

open Http

/-- How the process ends before its event loop. -/
inductive Exit
  | exit (code : Int)
  /-- By an exception that is not caught. -/
  | terminate
  /-- By an `assert`. -/
  | abort
  /-- Not at all: a lock is waited for that nobody releases. -/
  | hang
  | fault (f : Fault)
  deriving DecidableEq, Repr

/-- A `locker`: `m_lock` of `http_conn.cpp`, that of the log, of its queue, of the pool of connections, and of the
    queue of the workers. -/
inductive Mutex
  | users
  | log
  | blockQueue
  | connections
  | workqueue

/-- A `sem`: `reserve` as it is constructed, the one that is assigned to it, and `m_queuestat`. -/
inductive Sem
  | reserve
  | filled
  | queuestat

/-- What the libraries and the kernel answer. -/
structure Answers where
  /-- Whether `pthread_mutex_init`, `sem_init` and `pthread_cond_init` return 0. -/
  mutexInit : Mutex → Bool
  semInit : Sem → Bool
  condInit : Bool
  /-- The working directory. -/
  cwd : List Byte
  /-- Whether the connections are made, the first first. -/
  mysqlInit : Nat → Bool
  mysqlRealConnect : Nat → Bool
  /-- Whether an error is logged on the day of `Log::init`. -/
  sameDay : Bool
  /-- Whether `mysql_query` returns 0 for `SELECT username,passwd FROM user`, and what `mysql_store_result` then has. -/
  query : Bool
  stored : Option (List (List Byte × List Byte))
  /-- Whether `pthread_create` and `pthread_detach` return 0. -/
  pthreadCreate : Nat → Bool
  pthreadDetach : Nat → Bool
  socket : Int
  bind : Int
  listen : Int
  epollCreate : Int
  socketpair : Int
  /-- Whether there is a handler for a signal, by its number. -/
  sigaction : Nat → Bool

/-- What `eventLoop` starts from. -/
structure Started where
  root : List Byte
  /-- The connections of the pool, by number. -/
  connList : List Nat
  users : World
  threadNumber : Nat
  actorModel : Int
  closeLog : Int
  listenTrigmode : Int
  connTrigmode : Int
  /-- `SO_LINGER` of the listening socket, and its port. -/
  linger : Int × Int
  port : UInt16

namespace Startup

/-- `WebServer()`: `m_root`. Whether there was room for the directory is not asked. -/
def webServer (a : Answers) : Except Exit (List Byte) :=
  if 200 ≤ a.cwd.length then .error (.fault .indeterminate) else .ok (a.cwd ++ bytes "/root")

/-- `log_write()`. The queue that `Log::init` makes in asynchronous mode has a `cond`, and the thread that it creates
    waits for that. -/
def logWrite (a : Answers) (c : Config) : Except Exit Unit :=
  if c.closeLog ≠ 0 then .ok ()
  else if a.mutexInit .log = false then .error .terminate
  else if c.logWrite ≠ 1 then .ok ()
  else if a.mutexInit .blockQueue = false ∨ a.condInit = true then .error .terminate
  else .error (.fault .indeterminate)

/-- `LOG_ERROR` and `exit(1)`. It is the first call of `write_log`, which keeps `m_mutex` unless the day has changed,
    and `flush` locks it again. -/
def logError (a : Answers) (c : Config) : Exit :=
  if c.closeLog = 0 ∧ a.sameDay = true then .hang else .exit 1

/-- The first `n` turns of the loop in `connection_pool::init`. -/
def connect (a : Answers) (c : Config) : Nat → Except Exit (List Nat)
  | 0 => .ok []
  | n + 1 => do
    let connList ← connect a c n
    if a.mysqlInit n = false then .error (logError a c)
    else if a.mysqlRealConnect n = false then .error (logError a c)
    else .ok (connList ++ [n])

/-- `initmysql_result(connPool)`: the list, and the table. `GetConnection` answers null where the list is empty, and
    `mysql_query` uses what it is given; so does `mysql_num_fields`. The connection is released behind the others. -/
def initmysqlResult (a : Answers) : List Nat → Except Exit (List Nat × World)
  | [] => .error (.fault .nullPointer)
  | con :: rest =>
    -- `LOG_ERROR` reads the `m_close_log` of a slot that was never initialised
    if a.query = false then .error (.fault .indeterminate)
    else
      match a.stored with
      | none => .error (.fault .nullPointer)
      | some rows => .ok (rest ++ [con], World.load rows)

/-- `sql_pool()`. The pool is constructed by the first `GetInstance()`. -/
def sqlPool (a : Answers) (c : Config) : Except Exit (List Nat × World) :=
  if a.mutexInit .connections = false ∨ a.semInit .reserve = false then .error .terminate
  else do
    let connList ← connect a c c.sqlNum.toNat
    if a.semInit .filled = false then .error .terminate
    else initmysqlResult a connList

/-- The first `n` turns of the loop in the constructor of `threadpool`. -/
def create (a : Answers) : Nat → Except Exit Unit
  | 0 => .ok ()
  | n + 1 => do
    create a n
    if a.pthreadCreate n = false then .error .terminate
    else if a.pthreadDetach n = false then .error .terminate
    else .ok ()

/-- `thread_pool()`, with 10000 for `max_requests`. -/
def threadPool (a : Answers) (c : Config) : Except Exit Nat :=
  if a.mutexInit .workqueue = false ∨ a.semInit .queuestat = false then .error .terminate
  else if c.threadNum ≤ 0 then .error .terminate
  else do
    create a c.threadNum.toNat
    return c.threadNum.toNat

/-- `trig_mode()`: the two modes, where it assigns them. -/
def trigMode (m : Int) : Option (Int × Int) :=
  if m = 0 then some (0, 0)
  else if m = 1 then some (0, 1)
  else if m = 2 then some (1, 0)
  else if m = 3 then some (1, 1)
  else none

/-- The signals of the three calls of `addsig`: `SIGPIPE`, `SIGALRM` and `SIGTERM`. -/
def signals : List Nat := [13, 14, 15]

/-- `eventListen()`, its assertions and those of `addsig`, and the first use of `m_LISTENTrigmode`. -/
def eventListen (a : Answers) (c : Config) : Except Exit (Int × Int) :=
  if a.socket < 0 then .error .abort
  else if a.bind < 0 then .error .abort
  else if a.listen < 0 then .error .abort
  else if a.epollCreate = -1 then .error .abort
  else
    match trigMode c.trigMode with
    | none => .error (.fault .indeterminate)
    | some modes =>
      if a.socketpair = -1 then .error .abort
      else if signals.any (fun sig => a.sigaction sig = false) then .error .abort
      else .ok modes

/-- `main(argc, argv)`, as far as `server.eventLoop()`. The first lock is made before it is called. -/
def main (a : Answers) (argv : List (List Byte)) : Except Exit Started :=
  if a.mutexInit .users = false then .error .terminate
  else match Config.default.parseArg argv with
  | .error f => .error (.fault f)
  | .ok c => do
    let root ← webServer a
    logWrite a c
    let (connList, users) ← sqlPool a c
    let threadNumber ← threadPool a c
    let (listenTrigmode, connTrigmode) ← eventListen a c
    return {
      root, connList, users, threadNumber
      actorModel := c.actorModel
      closeLog := c.closeLog
      listenTrigmode, connTrigmode
      linger := if c.optLinger = 0 then (0, 1) else (1, 1)
      port := UInt16.ofNat (c.port % 2 ^ 16).toNat }

/-- Nothing fails that is asked of the libraries and the kernel, the path of the working directory has room, and the
    configuration has at least one connection and one thread, one of the four modes, and no asynchronous log. -/
structure Starts (a : Answers) (c : Config) : Prop where
  cwd : a.cwd.length < 200
  log : ¬ (c.closeLog = 0 ∧ c.logWrite = 1)
  sqlNum : 1 ≤ c.sqlNum
  threadNum : 1 ≤ c.threadNum
  trigMode : 0 ≤ c.trigMode ∧ c.trigMode ≤ 3
  mutexes : a.mutexInit .users = true ∧ (c.closeLog = 0 → a.mutexInit .log = true) ∧
    a.mutexInit .connections = true ∧ a.mutexInit .workqueue = true
  semaphores : a.semInit .reserve = true ∧ a.semInit .filled = true ∧ a.semInit .queuestat = true
  mysql : ∀ i < c.sqlNum.toNat, a.mysqlInit i = true ∧ a.mysqlRealConnect i = true
  query : a.query = true
  pthread : ∀ i < c.threadNum.toNat, a.pthreadCreate i = true ∧ a.pthreadDetach i = true
  sockets : 0 ≤ a.socket ∧ 0 ≤ a.bind ∧ 0 ≤ a.listen ∧ a.epollCreate ≠ -1 ∧ a.socketpair ≠ -1
  sigaction : ∀ sig ∈ signals, a.sigaction sig = true

/-- What the event loop then starts from. -/
def started (a : Answers) (c : Config) (rows : List (List Byte × List Byte)) : Started where
  root := a.cwd ++ bytes "/root"
  -- the table has been read through the first, which is the last now
  connList := List.range' 1 (c.sqlNum.toNat - 1) ++ [0]
  users := World.load rows
  threadNumber := c.threadNum.toNat
  actorModel := c.actorModel
  closeLog := c.closeLog
  listenTrigmode := c.trigMode / 2
  connTrigmode := c.trigMode % 2
  linger := if c.optLinger = 0 then (0, 1) else (1, 1)
  port := UInt16.ofNat (c.port % 2 ^ 16).toNat

/-! ## What each part needs -/

theorem bind_ok {α β : Type} {x : Except Exit α} {f : α → Except Exit β} {b : β} :
    x >>= f = .ok b ↔ ∃ a, x = .ok a ∧ f a = .ok b := by
  cases x with
  | error e => exact ⟨(fun h => by cases h), fun ⟨_, h, _⟩ => by cases h⟩
  | ok a => exact ⟨fun h => ⟨a, rfl, h⟩, fun ⟨_, h, hb⟩ => by cases h; exact hb⟩

section
variable {a : Answers} {c : Config}

/-- A test that ends the process if it is met. -/
theorem ite_ok {α : Type} {p : Prop} [Decidable p] {e : Exit} {x : Except Exit α} {b : α} :
    (if p then .error e else x) = .ok b ↔ ¬ p ∧ x = .ok b := by
  by_cases hp : p
  · rw [if_pos hp]
    exact ⟨(fun h => by cases h), fun h => absurd hp h.1⟩
  · rw [if_neg hp]
    exact ⟨fun h => ⟨hp, h⟩, fun h => h.2⟩

/-- **The connections** are made in their order, or there is one that is not. -/
theorem connect_eq_ok {n : Nat} {connList : List Nat} :
    connect a c n = .ok connList ↔
      connList = List.range n ∧ ∀ i < n, a.mysqlInit i = true ∧ a.mysqlRealConnect i = true := by
  induction n generalizing connList with
  | zero =>
    refine ⟨fun h => ?_, fun h => by rw [h.1]; rfl⟩
    cases h
    exact ⟨rfl, fun i hi => absurd hi (Nat.not_lt_zero i)⟩
  | succ n ih =>
    rw [connect, bind_ok]
    simp only [ih, ite_ok, Bool.not_eq_false]
    constructor
    · rintro ⟨before, ⟨rfl, hall⟩, hinit, hconnect, hlist⟩
      cases hlist
      refine ⟨List.range_succ.symm, fun i hi => ?_⟩
      rcases Nat.lt_succ_iff_lt_or_eq.mp hi with hi | rfl
      · exact hall i hi
      · exact ⟨hinit, hconnect⟩
    · rintro ⟨rfl, hall⟩
      refine ⟨List.range n, ⟨rfl, fun i hi => hall i (Nat.lt_succ_of_lt hi)⟩, (hall n (Nat.lt_succ_self n)).1,
        (hall n (Nat.lt_succ_self n)).2, ?_⟩
      rw [List.range_succ]

/-- **The threads**. -/
theorem create_eq_ok {n : Nat} :
    create a n = .ok () ↔ ∀ i < n, a.pthreadCreate i = true ∧ a.pthreadDetach i = true := by
  induction n with
  | zero => exact ⟨fun _ i hi => absurd hi (Nat.not_lt_zero i), fun _ => rfl⟩
  | succ n ih =>
    rw [create, bind_ok]
    simp only [ih, ite_ok, Bool.not_eq_false]
    constructor
    · rintro ⟨-, hall, hcreate, hdetach, -⟩ i hi
      rcases Nat.lt_succ_iff_lt_or_eq.mp hi with hi | rfl
      · exact hall i hi
      · exact ⟨hcreate, hdetach⟩
    · intro hall
      exact ⟨(), fun i hi => hall i (Nat.lt_succ_of_lt hi), (hall n (Nat.lt_succ_self n)).1,
        (hall n (Nat.lt_succ_self n)).2, trivial⟩

theorem trigMode_known {m : Int} (hm : 0 ≤ m ∧ m ≤ 3) : trigMode m = some (m / 2, m % 2) := by
  have hmode : m = 0 ∨ m = 1 ∨ m = 2 ∨ m = 3 := by omega
  rcases hmode with rfl | rfl | rfl | rfl <;> rfl

theorem trigMode_unknown {m : Int} (hm : ¬ (0 ≤ m ∧ m ≤ 3)) : trigMode m = none := by
  unfold trigMode
  rw [if_neg (by omega), if_neg (by omega), if_neg (by omega), if_neg (by omega)]

theorem trigMode_eq_some {m : Int} {modes : Int × Int} :
    trigMode m = some modes ↔ 0 ≤ m ∧ m ≤ 3 ∧ modes = (m / 2, m % 2) := by
  rw [← and_assoc]
  by_cases hm : 0 ≤ m ∧ m ≤ 3
  · rw [trigMode_known hm, Option.some_inj]
    exact ⟨fun hmodes => ⟨hm, hmodes.symm⟩, fun h => h.2.symm⟩
  · rw [trigMode_unknown hm]
    exact ⟨(fun h => by cases h), fun h => absurd h.1 hm⟩

theorem logWrite_eq_ok {done : Unit} : logWrite a c = .ok done ↔
    (c.closeLog = 0 → a.mutexInit .log = true) ∧ ¬ (c.closeLog = 0 ∧ c.logWrite = 1) := by
  unfold logWrite
  by_cases hclose : c.closeLog = 0
  · rw [if_neg (not_not.mpr hclose), ite_ok, Bool.not_eq_false]
    by_cases hasync : c.logWrite = 1
    · rw [if_neg (not_not.mpr hasync)]
      refine iff_of_false ?_ fun h => h.2 ⟨hclose, hasync⟩
      rintro ⟨-, h⟩
      split at h <;> cases h
    · rw [if_pos hasync]
      exact ⟨fun h => ⟨fun _ => h.1, fun hboth => hasync hboth.2⟩, fun h => ⟨h.1 hclose, rfl⟩⟩
  · rw [if_pos hclose]
    exact iff_of_true rfl ⟨fun h => absurd h hclose, fun h => hclose h.1⟩

theorem initmysqlResult_eq_ok {connList : List Nat} {pool : List Nat × World} :
    initmysqlResult a connList = .ok pool ↔ a.query = true ∧
      ∃ con rest rows, connList = con :: rest ∧ a.stored = some rows ∧ pool = (rest ++ [con], World.load rows) := by
  cases connList with
  | nil => exact ⟨(fun h => by cases h), fun ⟨_, _, _, _, h, _⟩ => by cases h⟩
  | cons con rest =>
    rw [initmysqlResult, ite_ok, Bool.not_eq_false]
    refine and_congr_right fun _ => ?_
    cases a.stored with
    | none => exact ⟨(fun h => by cases h), fun ⟨_, _, _, _, h, _⟩ => by cases h⟩
    | some rows =>
      constructor
      · intro h
        cases h
        exact ⟨con, rest, rows, rfl, rfl, rfl⟩
      · rintro ⟨con, rest, rows, hlist, hrows, rfl⟩
        cases hlist
        cases hrows
        rfl

/-- The first of some numbers, and the others. -/
theorem range_eq_cons {n : Nat} {first : Nat} {rest : List Nat} :
    List.range n = first :: rest ↔ 1 ≤ n ∧ first = 0 ∧ rest = List.range' 1 (n - 1) := by
  cases n with
  | zero => exact ⟨(fun h => by cases h), fun h => absurd h.1 (Nat.not_succ_le_zero 0)⟩
  | succ n =>
    rw [List.range_eq_range', List.range'_succ, List.cons.injEq]
    exact ⟨fun h => ⟨Nat.succ_pos n, h.1.symm, h.2.symm⟩, fun h => ⟨h.2.1.symm, h.2.2.symm⟩⟩

theorem sqlPool_eq_ok {pool : List Nat × World} :
    sqlPool a c = .ok pool ↔ (a.mutexInit .connections = true ∧ a.semInit .reserve = true) ∧
      (∀ i < c.sqlNum.toNat, a.mysqlInit i = true ∧ a.mysqlRealConnect i = true) ∧ a.semInit .filled = true ∧
      a.query = true ∧ 1 ≤ c.sqlNum ∧ ∃ rows, a.stored = some rows ∧
        pool = (List.range' 1 (c.sqlNum.toNat - 1) ++ [0], World.load rows) := by
  unfold sqlPool
  simp only [ite_ok, bind_ok, connect_eq_ok, initmysqlResult_eq_ok, not_or, Bool.not_eq_false]
  refine and_congr_right fun _ => ?_
  constructor
  · rintro ⟨connList, ⟨rfl, hall⟩, hfilled, hquery, con, rest, rows, hlist, hrows, rfl⟩
    obtain ⟨hpos, rfl, rfl⟩ := range_eq_cons.mp hlist
    exact ⟨hall, hfilled, hquery, by omega, rows, hrows, rfl⟩
  · rintro ⟨hall, hfilled, hquery, hpos, rows, hrows, rfl⟩
    exact ⟨_, ⟨rfl, hall⟩, hfilled, hquery, 0, _, rows, range_eq_cons.mpr ⟨by omega, rfl, rfl⟩, hrows, rfl⟩

theorem threadPool_eq_ok {n : Nat} :
    threadPool a c = .ok n ↔ (a.mutexInit .workqueue = true ∧ a.semInit .queuestat = true) ∧ 1 ≤ c.threadNum ∧
      (∀ i < c.threadNum.toNat, a.pthreadCreate i = true ∧ a.pthreadDetach i = true) ∧ n = c.threadNum.toNat := by
  unfold threadPool
  rw [ite_ok, ite_ok, bind_ok, not_or, Bool.not_eq_false, Bool.not_eq_false]
  refine and_congr_right fun _ => ?_
  constructor
  · rintro ⟨hpos, ⟨⟩, hcreate, hn⟩
    cases hn
    exact ⟨by omega, create_eq_ok.mp hcreate, rfl⟩
  · rintro ⟨hpos, hall, rfl⟩
    exact ⟨by omega, (), create_eq_ok.mpr hall, rfl⟩

theorem eventListen_eq_ok {modes : Int × Int} :
    eventListen a c = .ok modes ↔
      (0 ≤ a.socket ∧ 0 ≤ a.bind ∧ 0 ≤ a.listen ∧ a.epollCreate ≠ -1 ∧ a.socketpair ≠ -1) ∧
        (∀ sig ∈ signals, a.sigaction sig = true) ∧ trigMode c.trigMode = some modes := by
  unfold eventListen
  simp only [ite_ok, Int.not_lt]
  cases trigMode c.trigMode with
  | none => exact ⟨(fun h => by cases h.2.2.2.2), fun h => by cases h.2.2⟩
  | some modes' =>
    have hsignals : ¬ (signals.any fun sig => a.sigaction sig = false) = true ↔
        ∀ sig ∈ signals, a.sigaction sig = true := by
      simp only [List.any_eq_true, decide_eq_true_eq, not_exists, not_and, Bool.not_eq_false]
    simp only [ite_ok, hsignals, Option.some.injEq, Except.ok.injEq]
    constructor
    · rintro ⟨hsocket, hbind, hlisten, hepoll, hpair, hsigaction, hmodes⟩
      exact ⟨⟨hsocket, hbind, hlisten, hepoll, hpair⟩, hsigaction, hmodes⟩
    · rintro ⟨⟨hsocket, hbind, hlisten, hepoll, hpair⟩, hsigaction, hmodes⟩
      exact ⟨hsocket, hbind, hlisten, hepoll, hpair, hsigaction, hmodes⟩

/-- A configuration that gets to the event loop. -/
theorem main_eq_ok {argv : List (List Byte)} {st : Started} (hparse : Config.default.parseArg argv = .ok c) :
    main a argv = .ok st ↔ Starts a c ∧ ∃ rows, a.stored = some rows ∧ st = started a c rows := by
  unfold main webServer
  rw [hparse]
  simp only [bind_ok, ite_ok, logWrite_eq_ok, sqlPool_eq_ok, threadPool_eq_ok, eventListen_eq_ok, trigMode_eq_some,
    Bool.not_eq_false, Nat.not_le]
  constructor
  · rintro ⟨husers, root, ⟨hcwd, hroot⟩, ⟨⟩, ⟨hloglock, hlog⟩, pool,
      ⟨⟨hpoollock, hreserve⟩, hmysql, hfilled, hquery, hsql, rows, hrows, rfl⟩, n,
      ⟨⟨hworklock, hqueuestat⟩, hthread, hpthread, rfl⟩, modes, ⟨hsockets, hsigaction, hmin, hmax, rfl⟩, hst⟩
    cases hroot
    cases hst
    exact ⟨⟨hcwd, hlog, hsql, hthread, ⟨hmin, hmax⟩, ⟨husers, hloglock, hpoollock, hworklock⟩,
      ⟨hreserve, hfilled, hqueuestat⟩, hmysql, hquery, hpthread, hsockets, hsigaction⟩, rows, hrows, rfl⟩
  · rintro ⟨⟨hcwd, hlog, hsql, hthread, ⟨hmin, hmax⟩, ⟨husers, hloglock, hpoollock, hworklock⟩,
      ⟨hreserve, hfilled, hqueuestat⟩, hmysql, hquery, hpthread, hsockets, hsigaction⟩, rows, hrows, rfl⟩
    exact ⟨husers, _, ⟨hcwd, rfl⟩, (), ⟨hloglock, hlog⟩, _,
      ⟨⟨hpoollock, hreserve⟩, hmysql, hfilled, hquery, hsql, rows, hrows, rfl⟩, _,
      ⟨⟨hworklock, hqueuestat⟩, hthread, hpthread, rfl⟩, _, ⟨hsockets, hsigaction, hmin, hmax, rfl⟩, rfl⟩

/-- What a command line gives: for each letter the value of its last option, or the default. -/
def given (pieces : List Piece) : Config :=
  let value (l : Byte) : Int :=
    ((Config.valuesOf l (pieces.filterMap Piece.setting)).map atoi).getLastD (Config.default.field l)
  { port := value 112
    logWrite := value 108
    trigMode := value 109
    listenTrigmode := 0
    connTrigmode := 0
    optLinger := value 111
    sqlNum := value 115
    threadNum := value 116
    closeLog := value 99
    actorModel := value 97 }

/-- **From the command line to the event loop.** Whatever stands on the command line, and in whatever order, the server
    gets to its loop if and only if it `Starts` with what was given last for each letter, and there is a table of
    users; and the loop then has the connections, the threads, the modes and the port that were given. -/
theorem starts_iff (a : Answers) (program : List Byte) {args : List (List Byte)} {pieces : List Piece}
    (hline : MadeOf args pieces) (st : Started) :
    main a (program :: args) = .ok st ↔
      Starts a (given pieces) ∧ ∃ rows, a.stored = some rows ∧ st = started a (given pieces) rows := by
  obtain ⟨tail, htail, rfl⟩ := hline
  refine main_eq_ok ((Config.parseFrom_pieces htail pieces Config.default).trans (congrArg _ ?_))
  obtain ⟨hlisten, hconn⟩ := Config.modes_foldl (pieces.filterMap Piece.setting) Config.default
  refine Config.ext_field (fun l hl => (Config.field_foldl _ _ hl).trans ?_) hlisten hconn
  have hletters : letters = [112, 108, 109, 111, 115, 116, 99, 97] := by decide
  rw [hletters] at hl
  simp only [List.mem_cons, List.not_mem_nil, or_false] at hl
  rcases hl with rfl | rfl | rfl | rfl | rfl | rfl | rfl | rfl <;> rfl

end

/-- Nothing fails, and there is one user. -/
def fine : Answers where
  mutexInit _ := true
  semInit _ := true
  condInit := true
  cwd := bytes "/srv"
  mysqlInit _ := true
  mysqlRealConnect _ := true
  sameDay := true
  query := true
  stored := some [(bytes "ada", bytes "1")]
  pthreadCreate _ := true
  pthreadDetach _ := true
  socket := 3
  bind := 0
  listen := 0
  epollCreate := 4
  socketpair := 0
  sigaction _ := true

/-- `server -m 3 -p8080`. -/
theorem starts_iff_modes :
    let pieces : List Piece := [.separate [] 109 (bytes "3") (by decide) Config.none_unknown,
      .joined [] 112 (bytes "8080") (by decide) (by decide) Config.none_unknown]
    main fine (["server", "-m", "3", "-p8080"].map bytes) =
      .ok (started fine (given pieces) [(bytes "ada", bytes "1")]) := by
  intro pieces
  have hline : MadeOf (["-m", "3", "-p8080"].map bytes) pieces := ⟨[], .inl rfl, rfl⟩
  have hstarts : Starts fine (given pieces) :=
    ⟨by decide, by decide, by decide, by decide, by decide, ⟨rfl, fun _ => rfl, rfl, rfl⟩, ⟨rfl, rfl, rfl⟩,
      fun _ _ => ⟨rfl, rfl⟩, rfl, fun _ _ => ⟨rfl, rfl⟩, by decide, fun _ _ => rfl⟩
  exact (starts_iff _ (bytes "server") hline _).mpr ⟨hstarts, _, rfl, rfl⟩

end Startup
end WebServer
end LinuxServer
