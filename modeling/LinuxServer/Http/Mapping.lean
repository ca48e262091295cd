import LinuxServer.Http.Reuse

/-!
# `Http/Mapping.lean` — the file that a slot of `users` has mapped

`do_request` maps a file and stores its address, `write()` unmaps it when the response is out or has failed,
and nobody else does: neither `init()`, nor whatever ends a connection. And `unmap()` is not only for the
responses that are files. It goes by `m_file_address`, which no constructor sets, and by the size in
`m_file_stat`, which the next `stat` overwrites.

`userSlot` is a slot with all that befalls it: it is accepted in, read into, processed by a worker some time
after, written from, and closed by the main thread in between, as a hang-up, an error or a timer has it. Its
calls of `mmap`, `munmap` and `init()` are kept, and `Orderly` is what they should be: what is mapped is
unmapped once, with its length, before anything else is mapped and before the slot is begun anew.
`orderly_iff` says which steps make them so.

`init()`, `process()` and each round of `write()` are one step here.
-/

set_option autoImplicit false

namespace LinuxServer
namespace Http

/-! ## One mapping at a time -/

/-- What is done about the mapping of a slot: `do_request` stores what `mmap` answered, `unmap()` calls
    `munmap`, and the slot is begun anew. -/
inductive MapCall
  | mmap (address : Nat) (length : Int)
  | munmap (address : Nat) (length : Int)
  | init
  deriving DecidableEq, Repr

namespace MapCall

/-- What was stored last, of the calls with the newest first, if there was no `munmap` since. -/
def stored : List MapCall → Option (Nat × Int)
  | [] => none
  | .mmap address length :: _ => some (address, length)
  | .munmap _ _ :: _ => none
  | .init :: calls => stored calls

/-- What is mapped, if `mmap` has not failed. -/
def outstanding (calls : List MapCall) : Option (Nat × Int) :=
  (stored calls).filter fun m => m.1 ≠ mapFailed

/-- Each is mapped and the slot begun with nothing outstanding, and each `munmap` gets what was stored
    since the last one, with the length if it is a mapping. -/
def Orderly : List MapCall → Prop
  | [] => True
  | .mmap _ _ :: calls => outstanding calls = none ∧ Orderly calls
  | .munmap address length :: calls =>
    (∃ n, stored calls = some (address, n) ∧ (address ≠ mapFailed → n = length)) ∧ Orderly calls
  | .init :: calls => outstanding calls = none ∧ Orderly calls

section
variable {calls : List MapCall} {address : Nat} {n : Int}

theorem outstanding_of_stored (h : stored calls = some (address, n)) (hne : address ≠ mapFailed) :
    outstanding calls = some (address, n) := by
  rw [outstanding, h]
  exact if_pos (decide_eq_true hne)

theorem outstanding_of_failed (h : stored calls = some (mapFailed, n)) : outstanding calls = none := by
  simp [outstanding, h]

theorem mem_of_stored (h : stored calls = some (address, n)) : .mmap address n ∈ calls := by
  induction calls with
  | nil => cases h
  | cons call calls ih =>
    cases call with
    | mmap a k =>
      cases h
      exact List.mem_cons_self
    | munmap a k => cases h
    | init => exact List.mem_cons_of_mem _ (ih h)

end

end MapCall

/-! ## The slot -/

/-- What the slot's descriptor is armed for. -/
inductive Armed
  | epollin
  | epollout
  /-- `EPOLLONESHOT` has disarmed it. -/
  | nothing
  | closed
  deriving DecidableEq, Repr

structure UserSlot where
  armed : Armed
  /-- The calls of `process()` that are in the pool. -/
  tasks : Nat
  /-- A call of `write()` is in its loop. -/
  inLoop : Bool
  conn : HttpConn
  world : World
  /-- The length of the file that `process()` has mapped for a response, until `write()` has sent that
      response or failed. No function reads it. -/
  sending : Option Int
  /-- No function reads these. -/
  calls : List MapCall

/-- With this answer, `write()` comes to an end that unmaps. -/
def HttpConn.Ends (c : HttpConn) : Writev → Prop
  | .eagain => False
  | .failed => True
  | .sent k => c.bytesToSend ≤ k

/-- What `process()` has mapped, when it has come to this verdict. -/
def HttpConn.opened (ret : HttpCode) (c : HttpConn) : Option (Nat × Int) :=
  if ret = .fileRequest then c.mapping else none

namespace UserSlot

inductive Step
  | accept (w : World)
  /-- `EPOLLRDHUP`, `EPOLLHUP` or `EPOLLERR`, the timer, or a `read_once()` that fails behind `x`. -/
  | close (x : List Byte)
  | read (x : List Byte)
  | process (accepts : Bool)
  /-- `write()` is called. -/
  | call
  | writev (answer : Writev)

section
variable (root : List Byte) (fs : FileSystem) (decode : List Byte → Option (List Byte × List Byte))

def exec (t : UserSlot) : Step → Except Fault UserSlot
  | .accept w => .ok { t with
      armed := .epollin
      conn := ({ t.conn with docRoot := root } : HttpConn).init
      world := w
      calls := .init :: t.calls }
  | .close x => .ok { t with armed := .closed, conn := t.conn.receive x }
  | .read x => .ok { t with armed := .nothing, tasks := t.tasks + 1, conn := t.conn.receive x }
  | .process accepts => do
    let ((ret, opened, c), w) ← t.conn.process fs decode accepts t.world
    return { t with
      -- `modfd` of a descriptor that is closed fails
      armed := if t.armed = .closed ∨ opened = false then .closed
        else if ret = .noRequest then .epollin else .epollout
      tasks := t.tasks - 1
      conn := c
      world := w
      sending := (c.opened ret).elim t.sending fun m => if m.1 = mapFailed then none else some m.2
      calls := (c.opened ret).elim t.calls fun m => .mmap m.1 m.2 :: t.calls }
  | .call =>
    if t.conn.bytesToSend = 0 then .ok { t with armed := .epollin, conn := t.conn.init }
    else .ok { t with armed := .nothing, inLoop := true }
  | .writev answer => do
    let (exit, c) ← t.conn.writeRound answer
    return { t with
      armed := match exit with
        | none => t.armed
        | some .again => .epollout
        | some .complete => if t.conn.linger then .epollin else .closed
        | some _ => .closed
      inLoop := exit = none
      conn := c
      sending := if exit = some .complete ∨ exit = some .failed then none else t.sending
      calls := (t.conn.munmap answer).elim t.calls fun m => .munmap m.1 m.2 :: t.calls }

/-- What the kernel and the pool offer. The main thread closes nothing while it is in `write()`, or waits
    for a worker that is. -/
def Enabled (t : UserSlot) : Step → Prop
  | .accept _ => t.armed = .closed
  | .close x => t.armed ≠ .closed ∧ t.inLoop = false ∧ t.conn.readIdx + x.length ≤ readBufferSize
  | .read x => t.armed = .epollin ∧ t.inLoop = false ∧ t.conn.readIdx + x.length ≤ readBufferSize
  | .process _ => 0 < t.tasks
  | .call => t.armed = .epollout ∧ t.inLoop = false
  | .writev _ => t.inLoop = true

instance (t : UserSlot) : (i : Step) → Decidable (t.Enabled i)
  | .accept _ => inferInstanceAs (Decidable (_ = _))
  | .close _ => inferInstanceAs (Decidable (_ ∧ _ ∧ _))
  | .read _ => inferInstanceAs (Decidable (_ ∧ _ ∧ _))
  | .process _ => inferInstanceAs (Decidable (_ < _))
  | .call => inferInstanceAs (Decidable (_ ∧ _))
  | .writev _ => inferInstanceAs (Decidable (_ = _))

/-- `do_request` has stored an address in this slot. -/
def Assigned (t : UserSlot) : Prop := ∃ address n, .mmap address n ∈ t.calls

/-- A connection is accepted, and `process()` answers with a file, when no response with a file is on its
    way; and `write()` comes to its end with `m_file_address` null or assigned before, and with
    `m_file_stat` as it was for the file that is on its way. -/
def Clean (t : UserSlot) : Step → Prop
  | .accept _ => t.sending = none
  | .process accepts => t.sending ≠ none →
    ∀ r, t.conn.process fs decode accepts t.world = .ok r → r.1.1 ≠ .fileRequest
  | .writev answer => t.conn.Ends answer →
    (t.conn.fileAddress = none ∨ t.Assigned) ∧ ∀ n, t.sending = some n → t.conn.fileStat.size = n
  | _ => True

end

end UserSlot

/-- A slot of `users`. The constructor leaves in it what the memory held. -/
def userSlot (root : List Byte) (fs : FileSystem) (decode : List Byte → Option (List Byte × List Byte)) :
    System UserSlot UserSlot.Step where
  start t := t.armed = .closed ∧ t.tasks = 0 ∧ t.inLoop = false ∧ t.sending = none ∧ t.calls = []
  step t i t' := t.Enabled i ∧ t.exec root fs decode i = .ok t'

/-! ## What a step does to the mapping -/

namespace HttpConn

section
variable {fs : FileSystem} {decode : List Byte → Option (List Byte × List Byte)} {accepts opened : Bool}
  {c c' : HttpConn} {w w' : World} {ret : HttpCode} {answer : Writev} {exit : Option WriteExit}

/-- `do_request` stores an address if and only if it answers with a file. -/
theorem openFile_fileAddress (fs : FileSystem) (c : HttpConn) :
    ((c.openFile fs).1 = .fileRequest ∧ ∃ address, (c.openFile fs).2.fileAddress = some address) ∨
      ((c.openFile fs).1 ≠ .fileRequest ∧ (c.openFile fs).2.fileAddress = c.fileAddress) := by
  simp only [openFile]
  split
  · exact .inr ⟨by simp, rfl⟩
  · split
    · exact .inr ⟨by simp, rfl⟩
    · split
      · exact .inr ⟨by simp, rfl⟩
      · exact .inl ⟨rfl, _, rfl⟩

theorem processRead_fileAddress (h : c.processRead fs decode accepts w = .ok ((ret, c'), w')) :
    (ret = .fileRequest ∧ ∃ address, c'.fileAddress = some address) ∨
      (ret ≠ .fileRequest ∧ c'.fileAddress = c.fileAddress) := by
  obtain ⟨⟨out, c₁⟩, hrun, h⟩ := bind_eq_ok.mp h
  have hparsed : c₁.fileAddress = c.fileAddress := (congrArg HttpConn.fileAddress (readLoop_unread hrun) :)
  cases out with
  | ret code =>
    cases h
    refine .inr ⟨?_, hparsed⟩
    rcases readLoop_exit hrun with hexit | hexit | ⟨hexit, -⟩
    · cases hexit
      simp
    · cases hexit
      simp
    · cases hexit
  | doRequest =>
    obtain ⟨c₃, hc₃, hopen⟩ := doRequest_openFile h
    have hsame : c₃.fileAddress = c₁.fileAddress := (congrArg HttpConn.fileAddress hc₃ :)
    have hfile := openFile_fileAddress fs c₃
    rw [hopen, hsame, hparsed] at hfile
    exact hfile

/-- **`process()`** stores an address if and only if it answers with a file. -/
theorem process_fileAddress (h : c.process fs decode accepts w = .ok ((ret, opened, c'), w')) :
    (ret = .fileRequest ∧ ∃ address, c'.fileAddress = some address) ∨
      (ret ≠ .fileRequest ∧ c'.fileAddress = c.fileAddress) := by
  obtain ⟨⟨⟨ret₁, c₁⟩, w₁⟩, hread, h⟩ := bind_eq_ok.mp h
  have hfile := processRead_fileAddress hread
  simp only at h
  split at h
  · cases h
    exact hfile
  · simp only [pure, Except.pure, Except.ok.injEq, Prod.mk.injEq] at h
    obtain ⟨⟨rfl, hwrite⟩, -⟩ := h
    have hsame := processWrite_unsent c₁ ret₁
    rw [hwrite] at hsame
    rw [show c'.fileAddress = c₁.fileAddress from (congrArg HttpConn.fileAddress hsame :)]
    exact hfile

/-- **A round of `write()`** comes to an end that unmaps, or leaves the mapping alone. -/
theorem writeRound_cases (h : c.writeRound answer = .ok (exit, c')) :
    (c.Ends answer ∧ (exit = some .complete ∨ exit = some .failed) ∧ c.munmap answer = c.mapping ∧
        c'.fileAddress = none) ∨
      (¬ c.Ends answer ∧ ¬ (exit = some .complete ∨ exit = some .failed) ∧ c.munmap answer = none ∧
        c'.fileAddress = c.fileAddress ∧ c'.fileStat = c.fileStat) := by
  cases answer with
  | eagain =>
    cases h
    exact .inr ⟨id, by simp, rfl, rfl, rfl⟩
  | failed =>
    cases h
    exact .inl ⟨trivial, .inr rfl, rfl, rfl⟩
  | sent k =>
    obtain ⟨c₁, hc₁, h⟩ := bind_eq_ok.mp h
    have hcounts := account_counts hc₁
    have hleft := hcounts.toSend
    have hmapping : c₁.mapping = c.mapping := by
      rw [mapping, hcounts.fileAddress, hcounts.fileStat]
      rfl
    have hmunmap : c.munmap (.sent k) = if c₁.bytesToSend ≤ 0 then c₁.mapping else none := by
      rw [munmap, hc₁]
    rw [hmunmap]
    simp only at h
    split at h
    · rename_i hdone
      cases h
      rw [if_pos hdone, hmapping]
      refine .inl ⟨?_, .inl rfl, rfl, ?_⟩
      · show c.bytesToSend ≤ k
        omega
      · show (if _ then _ else _ : HttpConn).fileAddress = none
        split
        · rfl
        · rfl
    · rename_i hmore
      cases h
      rw [if_neg hmore]
      refine .inr ⟨?_, by simp, rfl, hcounts.fileAddress, hcounts.fileStat⟩
      show ¬ c.bytesToSend ≤ k
      omega

end

end HttpConn

/-! ## Every run -/

namespace UserSlot

open MapCall

section
variable {root : List Byte} {fs : FileSystem} {decode : List Byte → Option (List Byte × List Byte)}
  {s t u : UserSlot} {h : List Step} {i : Step}

/-- **The invariant**, of orderly runs and of others: a file that is on its way is what was stored last, and
    so is `m_file_address` once it has been assigned. -/
structure Tracked (t : UserSlot) : Prop where
  sending : ∀ n, t.sending = some n →
    ∃ address, t.conn.fileAddress = some address ∧ address ≠ mapFailed ∧ stored t.calls = some (address, n)
  idle : t.sending = none → outstanding t.calls = none
  address : ∀ address, t.conn.fileAddress = some address → t.Assigned →
    ∃ n, stored t.calls = some (address, n)

theorem Tracked.start (hstart : (userSlot root fs decode).start s) : s.Tracked := by
  obtain ⟨-, -, -, hsending, hcalls⟩ := hstart
  constructor
  case sending =>
    intro n hn
    rw [hsending] at hn
    cases hn
  case idle =>
    intro _
    rw [hcalls]
    rfl
  case address =>
    intro address _ hassigned
    obtain ⟨a, n, hmem⟩ := hassigned
    rw [hcalls] at hmem
    cases hmem

/-- Nothing is on its way if and only if nothing is mapped. -/
theorem Tracked.sending_iff (ht : t.Tracked) : t.sending = none ↔ outstanding t.calls = none := by
  refine ⟨ht.idle, ?_⟩
  intro hnone
  cases hsending : t.sending with
  | none => rfl
  | some n =>
    obtain ⟨address, -, hne, hstored⟩ := ht.sending n hsending
    rw [outstanding_of_stored hstored hne] at hnone
    cases hnone

/-- A step that makes no call and leaves the mapping alone. -/
theorem Tracked.of_same (ht : t.Tracked) (haddress : u.conn.fileAddress = t.conn.fileAddress)
    (hsending : u.sending = t.sending) (hcalls : u.calls = t.calls) : u.Tracked := by
  constructor
  case sending =>
    rw [haddress, hsending, hcalls]
    exact ht.sending
  case idle =>
    rw [hsending, hcalls]
    exact ht.idle
  case address =>
    intro address ha hassigned
    rw [haddress] at ha
    rw [hcalls]
    apply ht.address address ha
    obtain ⟨a, n, hmem⟩ := hassigned
    rw [hcalls] at hmem
    exact ⟨a, n, hmem⟩

/-- `process()` has mapped a file. -/
theorem Tracked.of_mmap {address : Nat} {n : Int} {calls : List MapCall}
    (haddress : u.conn.fileAddress = some address)
    (hsending : u.sending = if address = mapFailed then none else some n)
    (hcalls : u.calls = .mmap address n :: calls) : u.Tracked := by
  have hstored : stored u.calls = some (address, n) := by
    rw [hcalls]
    rfl
  constructor
  case sending =>
    intro m hm
    rw [hsending] at hm
    split at hm
    · cases hm
    · rename_i hne
      cases hm
      exact ⟨address, haddress, hne, hstored⟩
  case idle =>
    intro hnone
    rw [hsending] at hnone
    split at hnone
    · rename_i hfailed
      rw [hfailed] at hstored
      exact outstanding_of_failed hstored
    · cases hnone
  case address =>
    intro a ha _
    rw [haddress] at ha
    cases ha
    exact ⟨n, hstored⟩

/-- `write()` has unmapped. -/
theorem Tracked.of_unmapped (haddress : u.conn.fileAddress = none) (hsending : u.sending = none)
    (hnone : outstanding u.calls = none) : u.Tracked := by
  constructor
  case sending =>
    intro n hn
    rw [hsending] at hn
    cases hn
  case idle => exact fun _ => hnone
  case address =>
    intro a ha _
    rw [haddress] at ha
    cases ha

/-- **Unmapping** is orderly if and only if the address is one that was assigned, and the length the one
    of the file that is on its way. -/
theorem Tracked.munmap_iff (ht : t.Tracked) {address : Nat} (haddress : t.conn.fileAddress = some address) :
    (∃ n, stored t.calls = some (address, n) ∧ (address ≠ mapFailed → n = t.conn.fileStat.size)) ↔
      (t.conn.fileAddress = none ∨ t.Assigned) ∧ ∀ n, t.sending = some n → t.conn.fileStat.size = n := by
  constructor
  · intro hex
    obtain ⟨n, hstored, hlength⟩ := hex
    refine ⟨.inr ⟨address, n, mem_of_stored hstored⟩, ?_⟩
    intro m hm
    obtain ⟨a, ha, hne, hstored'⟩ := ht.sending m hm
    rw [hstored] at hstored'
    cases hstored'
    exact (hlength hne).symm
  · intro hclean
    obtain ⟨hassigned, hsize⟩ := hclean
    have hassigned : t.Assigned := by
      apply hassigned.resolve_left
      rw [haddress]
      simp
    obtain ⟨n, hstored⟩ := ht.address address haddress hassigned
    refine ⟨n, hstored, ?_⟩
    intro hne
    cases hsending : t.sending with
    | none =>
      have hnone := ht.idle hsending
      rw [outstanding_of_stored hstored hne] at hnone
      cases hnone
    | some m =>
      obtain ⟨a, ha, -, hstored'⟩ := ht.sending m hsending
      rw [hstored] at hstored'
      cases hstored'
      exact (hsize n hsending).symm

/-- `process()` maps a file in order if and only if none is being sent. -/
theorem Tracked.process {accepts : Bool} (ht : t.Tracked)
    (hstep : t.exec root fs decode (.process accepts) = .ok u) :
    u.Tracked ∧ (Orderly u.calls ↔ Orderly t.calls ∧ t.Clean fs decode (.process accepts)) := by
  obtain ⟨⟨⟨ret, opened, c⟩, w⟩, hprocess, hstep⟩ := bind_eq_ok.mp hstep
  cases hstep
  have hclean : t.Clean fs decode (.process accepts) ↔ (t.sending ≠ none → ret ≠ .fileRequest) := by
    show (t.sending ≠ none → ∀ r, t.conn.process fs decode accepts t.world = .ok r → r.1.1 ≠ .fileRequest) ↔ _
    rw [hprocess]
    constructor
    · intro hall hsending
      exact hall hsending _ rfl
    · intro hne hsending r hr
      cases hr
      exact hne hsending
  rw [hclean]
  rcases HttpConn.process_fileAddress hprocess with ⟨hret, address, haddress⟩ | ⟨hret, haddress⟩
  · -- a file is mapped
    have hopened : c.opened ret = some (address, c.fileStat.size) := by
      rw [HttpConn.opened, if_pos hret, HttpConn.mapping, haddress]
      rfl
    rw [hopened]
    constructor
    · exact .of_mmap haddress rfl rfl
    · show outstanding t.calls = none ∧ Orderly t.calls ↔ _
      rw [← ht.sending_iff, and_comm]
      apply and_congr_right
      intro _
      constructor
      · intro hnone hsending
        exact absurd hnone hsending
      · intro hne
        by_contra hsending
        exact hne hsending hret
  · have hopened : c.opened ret = none := if_neg hret
    rw [hopened]
    constructor
    · exact ht.of_same haddress rfl rfl
    · show Orderly t.calls ↔ _
      exact (and_iff_left (fun _ => hret)).symm

/-- A round of `write()` unmaps in order if and only if what it unmaps is what was mapped. -/
theorem Tracked.writev {answer : Writev} (ht : t.Tracked)
    (hstep : t.exec root fs decode (.writev answer) = .ok u) :
    u.Tracked ∧ (Orderly u.calls ↔ Orderly t.calls ∧ t.Clean fs decode (.writev answer)) := by
  obtain ⟨⟨exit, c⟩, hround, hstep⟩ := bind_eq_ok.mp hstep
  cases hstep
  rcases HttpConn.writeRound_cases hround with
    ⟨hends, hexit, hmunmap, haddress⟩ | ⟨hends, hexit, hmunmap, haddress, -⟩
  · have hclean : t.Clean fs decode (.writev answer) ↔
        (t.conn.fileAddress = none ∨ t.Assigned) ∧ ∀ n, t.sending = some n → t.conn.fileStat.size = n :=
      ⟨fun hclean => hclean hends, fun hclean _ => hclean⟩
    rw [hclean, hmunmap, HttpConn.mapping]
    cases hfile : t.conn.fileAddress with
    | none =>
      have hidle : t.sending = none := by
        cases hsending : t.sending with
        | none => rfl
        | some n =>
          obtain ⟨a, ha, -⟩ := ht.sending n hsending
          rw [hfile] at ha
          cases ha
      constructor
      · exact .of_unmapped haddress (if_pos hexit) (ht.idle hidle)
      · show Orderly t.calls ↔ _
        refine (and_iff_left ⟨.inl rfl, ?_⟩).symm
        intro n hn
        rw [hidle] at hn
        cases hn
    | some address =>
      constructor
      · exact .of_unmapped haddress (if_pos hexit) rfl
      · have hiff := ht.munmap_iff hfile
        rw [hfile] at hiff
        rw [← hiff]
        exact and_comm
  · rw [hmunmap]
    constructor
    · exact ht.of_same haddress (if_neg hexit) rfl
    · show Orderly t.calls ↔ _
      exact (and_iff_left (fun hyes => absurd hyes hends)).symm

/-- **One step**: what is tracked is tracked on, and the calls are as orderly as before if and only if the
    step is clean. -/
theorem Tracked.step (ht : t.Tracked) (hstep : t.exec root fs decode i = .ok u) :
    u.Tracked ∧ (Orderly u.calls ↔ Orderly t.calls ∧ t.Clean fs decode i) := by
  cases i with
  | accept w =>
    cases hstep
    constructor
    · exact {
        sending := ht.sending
        idle := ht.idle
        address := by
          intro address haddress hassigned
          obtain ⟨a, n, hmem⟩ := hassigned
          rcases List.mem_cons.mp hmem with heq | hmem
          · cases heq
          · exact ht.address address haddress ⟨a, n, hmem⟩ }
    · show outstanding t.calls = none ∧ Orderly t.calls ↔ Orderly t.calls ∧ t.sending = none
      rw [ht.sending_iff]
      exact and_comm
  | close x =>
    cases hstep
    exact ⟨ht.of_same rfl rfl rfl, iff_of_eq (and_true _).symm⟩
  | read x =>
    cases hstep
    exact ⟨ht.of_same rfl rfl rfl, iff_of_eq (and_true _).symm⟩
  | call =>
    rw [exec] at hstep
    split at hstep
    · cases hstep
      exact ⟨ht.of_same rfl rfl rfl, iff_of_eq (and_true _).symm⟩
    · cases hstep
      exact ⟨ht.of_same rfl rfl rfl, iff_of_eq (and_true _).symm⟩
  | process accepts => exact ht.process hstep
  | writev answer => exact ht.writev hstep

/-- **The life of a mapping** in a slot: it is in order, over any run, if and only if each step was
    clean. -/
theorem orderly_iff (hstart : (userSlot root fs decode).start s) (hrun : (userSlot root fs decode).Run s h t) :
    ((userSlot root fs decode).restrict fun t i => t.Clean fs decode i).Run s h t ↔ Orderly t.calls := by
  have hs : s.Tracked ∧ Orderly s.calls := by
    refine ⟨Tracked.start hstart, ?_⟩
    rw [hstart.2.2.2.2]
    trivial
  constructor
  · intro hclean
    have hboth : t.Tracked ∧ Orderly t.calls := by
      refine hclean.invariant (I := fun _ t => t.Tracked ∧ Orderly t.calls) ?_ hs
      intro h t i u ht hstep
      obtain ⟨htracked, hiff⟩ := ht.1.step hstep.1.2
      exact ⟨htracked, hiff.mpr ⟨ht.2, hstep.2⟩⟩
    exact hboth.2
  · intro horderly
    have hboth : t.Tracked ∧ (Orderly t.calls →
        ((userSlot root fs decode).restrict fun t i => t.Clean fs decode i).Run s h t) := by
      clear horderly
      induction hrun with
      | nil => exact ⟨hs.1, fun _ => .nil s⟩
      | step _ hstep ih =>
        obtain ⟨ht, hclean⟩ := ih
        obtain ⟨htracked, hiff⟩ := ht.step hstep.2
        refine ⟨htracked, ?_⟩
        intro horderly
        obtain ⟨hbefore, hi⟩ := hiff.mp horderly
        exact .step (hclean hbefore) ⟨hstep, hi⟩
    exact hboth.2 horderly

end

/-! ## A page that is mapped -/

/-- One page, and an address to map it at. -/
def onePage : FileSystem := { HttpConn.oneFile with mmap := fun _ => 4096 }

/-- A slot that nobody has used, around `c`. -/
def unused (c : HttpConn) : UserSlot := ⟨.closed, 0, false, c, ⟨fun _ => none, []⟩, none, []⟩

/-- The steps `h`, each if it is enabled, and the calls that they made. -/
def callsAfter (c : HttpConn) (h : List Step) : Option (List MapCall) :=
  (System.follow (exec [] onePage decodePlain) (fun t i => t.Enabled i) (unused c) h).map UserSlot.calls

theorem run_of_callsAfter {c : HttpConn} {h : List Step} {calls : List MapCall}
    (hcalls : callsAfter c h = some calls) :
    ∃ t, (userSlot [] onePage decodePlain).Run (unused c) h t ∧ t.calls = calls := by
  obtain ⟨t, ht, hcalls⟩ := Option.map_eq_some_iff.mp hcalls
  refine ⟨t, System.Run.of_follow ?_ ht, hcalls⟩
  intro t i u hok hexec
  exact ⟨of_decide_eq_true hok, hexec⟩

theorem unused_start (c : HttpConn) : (userSlot [] onePage decodePlain).start (unused c) :=
  ⟨rfl, rfl, rfl, rfl, rfl⟩

/-- A request, and its response in one piece. -/
theorem orderly_iff_one : ∃ t, ((userSlot [] onePage decodePlain).restrict fun t i =>
      t.Clean onePage decodePlain i).Run (unused default)
      [.writev (.sent 57), .call, .process true, .read (bytes "GET / HTTP/1.1\r\n\r\n"),
        .accept ⟨fun _ => none, []⟩] t := by
  have hafter : callsAfter default [.writev (.sent 57), .call, .process true,
      .read (bytes "GET / HTTP/1.1\r\n\r\n"), .accept ⟨fun _ => none, []⟩] =
        some [.munmap 4096 2, .mmap 4096 2, .init] := by
    decide +kernel
  obtain ⟨t, hrun, hcalls⟩ := run_of_callsAfter hafter
  refine ⟨t, (orderly_iff (unused_start default) hrun).mpr ?_⟩
  rw [hcalls]
  exact ⟨⟨2, rfl, fun _ => rfl⟩, rfl, rfl, trivial⟩

/-- The client hangs up behind its request, and the next one gets the slot; and a page of the server's own
    is sent in a slot that holds an address by chance. -/
theorem disorderly :
    (∃ s h t, (userSlot [] onePage decodePlain).start s ∧ (userSlot [] onePage decodePlain).Run s h t ∧
      t.calls = [.init, .mmap 4096 2, .init] ∧ ¬ Orderly t.calls) ∧
    ∃ s h t, (userSlot [] onePage decodePlain).start s ∧ (userSlot [] onePage decodePlain).Run s h t ∧
      t.calls = [.munmap 8192 0, .init] ∧ ¬ Orderly t.calls := by
  constructor
  · have hafter : callsAfter default [.accept ⟨fun _ => none, []⟩, .close [], .process true,
        .read (bytes "GET / HTTP/1.1\r\n\r\n"), .accept ⟨fun _ => none, []⟩] =
          some [.init, .mmap 4096 2, .init] := by
      decide +kernel
    obtain ⟨t, hrun, hcalls⟩ := run_of_callsAfter hafter
    refine ⟨_, _, t, unused_start default, hrun, hcalls, ?_⟩
    rw [hcalls]
    intro horderly
    exact absurd horderly.1 (by decide)
  · have hafter : callsAfter { (default : HttpConn) with fileAddress := some 8192 }
        [.writev (.sent 112), .call, .process true, .read (bytes "x\r\n"), .accept ⟨fun _ => none, []⟩] =
          some [.munmap 8192 0, .init] := by
      decide +kernel
    obtain ⟨t, hrun, hcalls⟩ := run_of_callsAfter hafter
    refine ⟨_, _, t, unused_start _, hrun, hcalls, ?_⟩
    rw [hcalls]
    intro horderly
    obtain ⟨n, hstored, -⟩ := horderly.1
    cases hstored

end UserSlot

end Http
end LinuxServer
