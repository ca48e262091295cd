import LinuxServer.CppServer.Session

/-!
# `CppServer/Completion.lean` — a session comes to its end

The inner loop of the client waits for as many bytes as it has written. What matters for that is how many bytes there
are at each place between a `write` of the client and its `read`, and not which: a `Flow` is a session that was
reduced to those numbers (`Turn.flow`). Bytes move from one place to the next and none is taken out on the way, so
what is there is at least what the client waits for (`Moves.covered`). With a weight for each place, the more the
nearer to the client's `write`, every move makes the whole lighter (`Moves.rank_lt`); and with other weights the
whole bounds what the descriptor of the server can hold (`Moves.load_le`).

A session is thus over after so many steps, and while it is not over a step is possible (`comes_to_end`). This is of
the sessions in which no event is handled before the connection is established: where one is, the client may wait for
good (`waits_for_good`).
-/

set_option autoImplicit false

namespace LinuxServer

/-! ## The numbers -/

/-- Where the server is, with the number of bytes it has gathered, or has to send. -/
inductive FlowPlace
  | accepting
  | polling
  | reading (gathered : Nat)
  | writing (unsent : Nat)
  deriving DecidableEq, Repr

/-- How much there is of everything: messages that were not written yet, bytes at each place, and bytes the client
    waits for. -/
structure Flow where
  unwritten : Nat
  toServer : Nat
  queue : Nat
  edge : Bool
  server : FlowPlace
  toClient : Nat
  arrived : Nat
  missing : Nat
  deriving DecidableEq, Repr

namespace Flow

/-- The length of the client's message. -/
def length : Nat := OneClient.message.length

/-- What an echo is longer. -/
def extra : Nat := (bytes "Echo: ").length

/-- What a step does to the numbers. -/
inductive Moves : Flow → Flow → Prop
  | write {unwritten toServer queue toClient arrived missing : Nat} {edge : Bool} {server : FlowPlace} :
    Moves ⟨unwritten + 1, toServer, queue, edge, server, toClient, arrived, missing⟩
      ⟨unwritten, toServer + length, queue, edge, server, toClient, arrived, length⟩
  | deliver {unwritten toServer queue toClient arrived missing n : Nat} {edge : Bool} {server : FlowPlace} :
    0 < n → Moves ⟨unwritten, toServer + n, queue, edge, server, toClient, arrived, missing⟩
      ⟨unwritten, toServer, queue + n, true, server, toClient, arrived, missing⟩
  | establish {unwritten toServer queue toClient arrived missing : Nat} {edge : Bool} :
    Moves ⟨unwritten, toServer, queue, edge, .accepting, toClient, arrived, missing⟩
      ⟨unwritten, toServer, queue, edge, .polling, toClient, arrived, missing⟩
  | event {unwritten toServer queue toClient arrived missing : Nat} :
    Moves ⟨unwritten, toServer, queue, true, .polling, toClient, arrived, missing⟩
      ⟨unwritten, toServer, queue, false, .reading 0, toClient, arrived, missing⟩
  | gather {unwritten toServer queue toClient arrived missing gathered n : Nat} {edge : Bool} :
    0 < n → Moves ⟨unwritten, toServer, queue + n, edge, .reading gathered, toClient, arrived, missing⟩
      ⟨unwritten, toServer, queue, edge, .reading (gathered + n), toClient, arrived, missing⟩
  | drained {unwritten toServer toClient arrived missing gathered : Nat} {edge : Bool} :
    Moves ⟨unwritten, toServer, 0, edge, .reading gathered, toClient, arrived, missing⟩
      ⟨unwritten, toServer, 0, edge, .writing (extra + gathered), toClient, arrived, missing⟩
  | sent {unwritten toServer queue toClient arrived missing unsent n : Nat} {edge : Bool} {server : FlowPlace} :
    0 < n → (server = .writing unsent ∨ unsent = 0 ∧ server = .polling) →
    Moves ⟨unwritten, toServer, queue, edge, .writing (unsent + n), toClient, arrived, missing⟩
      ⟨unwritten, toServer, queue, edge, server, toClient + n, arrived, missing⟩
  | answer {unwritten toServer queue toClient arrived missing n : Nat} {edge : Bool} {server : FlowPlace} :
    0 < n → Moves ⟨unwritten, toServer, queue, edge, server, toClient + n, arrived, missing⟩
      ⟨unwritten, toServer, queue, edge, server, toClient, arrived + n, missing⟩
  | read {unwritten toServer queue toClient arrived missing n : Nat} {edge : Bool} {server : FlowPlace} :
    0 < n → Moves ⟨unwritten, toServer, queue, edge, server, toClient, arrived + n, missing⟩
      ⟨unwritten, toServer, queue, edge, server, toClient, arrived, missing - n⟩

/-- The bytes between a `write` of the client and its `read`. -/
def pending (f : Flow) : Nat :=
  f.toServer + f.queue + f.toClient + f.arrived +
    match f.server with
    | .accepting | .polling => 0
    | .reading gathered => gathered
    | .writing unsent => unsent

/-- The weight of what is to be done. -/
def rank (f : Flow) : Nat :=
  287 * f.unwritten + 26 * f.toServer + 5 * f.queue + 20 * f.edge.toNat + 2 * f.toClient + f.arrived +
    match f.server with
    | .accepting => 1
    | .polling => 0
    | .reading gathered => 19 + 4 * gathered
    | .writing unsent => 3 * unsent

/-- The bytes that the client can still get, at most. -/
def load (f : Flow) : Nat :=
  77 * f.unwritten + 7 * f.toServer + f.queue + 6 * f.edge.toNat + f.toClient + f.arrived +
    match f.server with
    | .accepting | .polling => 0
    | .reading gathered => 6 + gathered
    | .writing unsent => unsent

variable {f g : Flow}

/-- **The client does not wait in vain**: what it waits for is on its way. -/
theorem Moves.covered (hm : Moves f g) (hf : f.missing ≤ f.pending) : g.missing ≤ g.pending := by
  cases hm with
  | sent hn hserver =>
    simp only [pending] at hf ⊢
    rcases hserver with rfl | ⟨rfl, rfl⟩
    · simp only
      omega
    · simp only
      omega
  | write | deliver | establish | event | gather | drained | answer | read =>
    simp only [pending] at hf ⊢
    omega

theorem Moves.rank_lt (hm : Moves f g) : g.rank < f.rank := by
  have hlength : length = 11 := by decide
  have hextra : extra = 6 := by decide
  cases hm with
  | sent hn hserver =>
    simp only [rank]
    rcases hserver with rfl | ⟨rfl, rfl⟩
    · simp only
      omega
    · simp only
      omega
  | @deliver _ _ _ _ _ _ _ edge =>
    simp only [rank, Bool.toNat_true]
    omega
  | write | establish | event | gather | drained | answer | read =>
    simp only [rank, Bool.toNat_true, Bool.toNat_false]
    omega

theorem Moves.load_le (hm : Moves f g) : g.load ≤ f.load := by
  have hlength : length = 11 := by decide
  have hextra : extra = 6 := by decide
  cases hm with
  | sent hn hserver =>
    simp only [load]
    rcases hserver with rfl | ⟨rfl, rfl⟩
    · simp only
      omega
    · simp only
      omega
  | write | deliver | establish | event | gather | drained | answer | read =>
    simp only [load, Bool.toNat_true, Bool.toNat_false]
    omega

end Flow

namespace EchoSession

/-- The numbers of a session. -/
def flow (msgs : Int) (s : EchoSession) : Flow where
  unwritten := msgs.toNat - s.client.wrote
  toServer := s.toServer.length
  queue := s.queue.length
  edge := s.edge
  server := match s.server with
    | .accepting => .accepting
    | .polling => .polling
    | .reading => .reading s.conn.readBuffer.length
    | .writing bytesSent => .writing (s.conn.sendBuffer.drop bytesSent).length
  toClient := s.toClient.length
  arrived := s.arrived.length
  missing := match s.client.place with
    | .reading => OneClient.message.length - s.client.alreadyRead
    | _ => 0

section
variable {msgs : Int} {capacity : Nat} {s s' : EchoSession}

/-- What was split off, and the rest. -/
theorem length_split {r : ReadResult} {queue : List Byte} (h : Takes r queue) :
    queue.length = (queue.drop r.bytes.length).length + r.bytes.length := by
  have hsplit := congrArg List.length h.split
  rw [List.length_append] at hsplit
  omega

/-- The first bytes behind a place are moved to it. -/
theorem length_moved (place : List Byte) {behind : List Byte} {n : Nat} (hle : n ≤ behind.length) :
    behind.length = (behind.drop n).length + n ∧ (place ++ behind.take n).length = place.length + n := by
  rw [List.length_drop, List.length_append, List.length_take_of_le hle]
  omega

theorem length_bytes_pos {r : ReadResult} {queue : List Byte} (h : Takes r queue) : 0 < r.bytes.length := by
  have hpos := h.1
  have hlength := r.length
  omega

/-- What has been written and counted is less than what is to be. -/
theorem Waits.wrote_lt {c : OneClient} (hw : Waits msgs c) (hplace : c.place = .writing) : c.wrote < msgs.toNat := by
  unfold Waits at hw
  unfold OneClient.wrote
  rw [hplace] at hw ⊢
  simp only at hw ⊢
  omega

theorem flow_writeLoop (s : EchoSession) (bytesSent : Nat) :
    (s.writeLoop bytesSent).flow msgs = { s.flow msgs with
      server := if bytesSent < s.conn.sendBuffer.length then
        .writing (s.conn.sendBuffer.drop bytesSent).length else .polling } := by
  unfold writeLoop
  by_cases hmore : bytesSent < s.conn.sendBuffer.length
  · rw [if_pos hmore, if_pos hmore]
    rfl
  · rw [if_neg hmore, if_neg hmore]
    rfl

/-- **A step moves the numbers**, unless it is a call that was interrupted, or an event too early. -/
theorem Books.moves (hb : Books msgs s) {i : Step} (ht : Turn msgs s i s') (hi : i.interrupted = false)
    (hearly : i.early = false) : Flow.Moves (s.flow msgs) (s'.flow msgs) := by
  cases ht with
  | interrupted hi' => exact absurd (hi'.symm.trans hi) (by decide)
  | miss | greet => cases hearly
  | write hplace =>
    obtain ⟨-, hwrote, -, hreading, hread⟩ := client_write hb.waits hplace
    have hlt := hb.waits.wrote_lt hplace
    have hunwritten : msgs.toNat - s.client.wrote = msgs.toNat - (s.client.wrote + 1) + 1 := by omega
    unfold flow
    rw [hunwritten]
    simp only [hwrote, hreading, hread, List.length_append, Nat.sub_zero]
    exact .write
  | @read r hplace htakes =>
    obtain ⟨-, hwrote, -, hmissing⟩ := client_read hb.waits hplace htakes.1 (hb.echoes.clean_read htakes)
    have hleft : (match (s.client.read msgs r).place with
        | .reading => OneClient.message.length - (s.client.read msgs r).alreadyRead
        | _ => 0) = OneClient.message.length - s.client.alreadyRead - r.bytes.length := by
      rcases hmissing with ⟨hreading, hread⟩ | ⟨hdone, henough⟩
      · simp only [hreading, hread]
        omega
      · split
        · rename_i hreading
          exact absurd hreading hdone
        · omega
    unfold flow
    rw [length_split htakes]
    simp only [hwrote, hleft, hplace]
    exact .read (length_bytes_pos htakes)
  | @deliver n hpos hle =>
    obtain ⟨hlength, hqueue⟩ := length_moved s.queue hle
    unfold flow
    rw [hlength]
    simp only [hqueue]
    exact .deliver hpos
  | establish hserver =>
    unfold flow
    simp only [hserver]
    exact .establish
  | event hserver hedge =>
    unfold flow
    simp only [hserver, hedge, List.length_nil]
    exact .event
  | @gather r hserver htakes =>
    unfold flow
    rw [length_split htakes]
    simp only [hserver, List.length_append]
    exact .gather (length_bytes_pos htakes)
  | drained hserver hqueue =>
    unfold flow
    simp only [hserver, hqueue, List.length_nil, List.drop_zero, List.length_append]
    exact .drained
  | @sent bytesSent n hserver hpos hle =>
    obtain ⟨hlength, htaken⟩ := length_moved s.toClient hle
    rw [List.drop_drop] at hlength
    rw [flow_writeLoop]
    unfold flow
    simp only [hserver, hlength, htaken]
    refine .sent hpos ?_
    by_cases hmore : bytesSent + n < s.conn.sendBuffer.length
    · exact Or.inl (if_pos hmore)
    · exact Or.inr ⟨List.length_eq_zero_iff.mpr (List.drop_eq_nil_of_le (Nat.not_lt.mp hmore)), if_neg hmore⟩
  | @answer n hpos hle =>
    obtain ⟨hlength, harrived⟩ := length_moved s.arrived hle
    unfold flow
    rw [hlength]
    simp only [harrived]
    exact .answer hpos

/-- A call that was interrupted changes nothing. -/
theorem exec_interrupted (hb : Books msgs s) {i : Step} (he : s.Enabled capacity i) (hi : i.interrupted = true) :
    s.exec msgs i = s := by
  cases i with
  | clientRead r =>
    have hread : r.bytesRead = -1 := of_decide_eq_true hi
    have hnone : r.bytes = [] := ReadResult.bytes_eq_nil (by omega)
    simp only [exec, client_interrupted hb.waits he.1 hread, hnone, List.length_nil, List.drop_zero]
  | serverRead r =>
    obtain ⟨hread, hintr⟩ := of_decide_eq_true hi
    exact serverRead_interrupted hread hintr
  | serverWrite answer =>
    obtain ⟨bytesSent, hserver, -⟩ := enabled_serverWrite he
    cases answer with
    | intr => simp only [exec, hserver, writeTurn]
    | wrote | again | error => cases hi
  | clientWrite | deliver | establish | miss | event | answer => cases hi

/-! ## Runs -/

/-- What a run keeps: with what has been done and what is to be done as one sum. -/
structure Paced (msgs : Int) (h : List Step) (s : EchoSession) : Prop where
  books : Books msgs s
  awake : s.Awake
  covered : (s.flow msgs).missing ≤ (s.flow msgs).pending
  load : (s.flow msgs).load ≤ 77 * msgs.toNat
  rank : h.countP (fun i => !i.interrupted) + (s.flow msgs).rank ≤ 287 * msgs.toNat + 1

/-- The descriptor of the server has room for what it is given. -/
theorem Paced.room {h : List Step} (hp : Paced msgs h s) {bytesSent : Nat} (hserver : s.server = .writing bytesSent) :
    (s.conn.sendBuffer.drop bytesSent).length + (s.toClient.length + s.arrived.length) ≤ 77 * msgs.toNat := by
  have hload := hp.load
  simp only [flow, Flow.load, hserver] at hload
  omega

theorem Paced.start (hs : (echoSession msgs capacity).start s) : Paced msgs [] s := by
  have hb := Books.start hs
  obtain rfl := hs
  refine ⟨hb, fun _ _ => rfl, ?_, ?_, ?_⟩
  · simp only [flow]
    split
    · rename_i hreading
      exact absurd hreading (head_place msgs _)
    · exact Nat.zero_le _
  · simp only [flow, Flow.load, wrote_head, List.length_nil, Bool.toNat_false]
    omega
  · simp only [flow, Flow.rank, wrote_head, List.length_nil, List.countP_nil, Bool.toNat_false]
    omega

theorem Paced.step {h : List Step} (hroom : 77 * msgs.toNat ≤ capacity) (hp : Paced msgs h s) {i : Step}
    (he : s.Enabled capacity i) (hearly : i.early = false) :
    Paced msgs (i :: h) (s.exec msgs i) ∧ i ≠ .serverWrite .again := by
  have hfull : i ≠ .serverWrite .again := by
    rintro rfl
    obtain ⟨bytesSent, hserver, haccepts⟩ := enabled_serverWrite he
    have hfits := hp.room hserver
    have hless : capacity - (s.toClient.length + s.arrived.length) < (s.conn.sendBuffer.drop bytesSent).length :=
      haccepts
    omega
  refine ⟨?_, hfull⟩
  cases hi : i.interrupted with
  | true =>
    rw [exec_interrupted hp.books he hi]
    refine ⟨hp.books, hp.awake, hp.covered, hp.load, ?_⟩
    rw [List.countP_cons_of_neg (by simp [hi])]
    exact hp.rank
  | false =>
    have hturn := hp.books.turn he hfull
    have hmoves := hp.books.moves hturn hi hearly
    refine ⟨hp.books.step he hfull, hp.awake.step hturn hearly, hmoves.covered hp.covered,
      Nat.le_trans hmoves.load_le hp.load, ?_⟩
    rw [List.countP_cons_of_pos (by simp [hi])]
    have hlt := hmoves.rank_lt
    have hrank := hp.rank
    omega

/-- **A session that is not over goes on.** -/
theorem Paced.progress {h : List Step} (hp : Paced msgs h s) (hplace : s.client.place ≠ .leaving) :
    ∃ i, s.Enabled capacity i ∧ i.interrupted = false ∧ i.early = false := by
  have hone : ∀ queue : List Byte, queue ≠ [] → ∃ r, Takes r queue ∧ r.bytesRead ≠ -1 := by
    intro queue hqueue
    obtain ⟨b, queue, rfl⟩ := List.exists_cons_of_ne_nil hqueue
    exact ⟨someBytes [b] (by simp [Connection.bufferSize]), ⟨Int.one_pos, queue, rfl⟩,
      (by decide : ((1 : Nat) : Int) ≠ -1)⟩
  have hwaits := hp.books.waits
  cases hclient : s.client.place with
  | writing => exact ⟨.clientWrite OneClient.message.length, ⟨hclient, Or.inl rfl⟩, rfl, rfl⟩
  | leaving => exact absurd hclient hplace
  | exited =>
    unfold Waits at hwaits
    rw [hclient] at hwaits
    exact hwaits.elim
  | reading =>
    by_cases htoServer : s.toServer = []
    case neg => exact ⟨.deliver s.toServer.length, ⟨List.length_pos_iff.mpr htoServer, Nat.le_refl _⟩, rfl, rfl⟩
    by_cases htoClient : s.toClient = []
    case neg => exact ⟨.answer s.toClient.length, ⟨List.length_pos_iff.mpr htoClient, Nat.le_refl _⟩, rfl, rfl⟩
    by_cases harrived : s.arrived = []
    case neg =>
      obtain ⟨r, htakes, hread⟩ := hone s.arrived harrived
      exact ⟨.clientRead r, ⟨hclient, Or.inl htakes⟩, decide_eq_false hread, rfl⟩
    cases hserver : s.server with
    | accepting => exact ⟨.establish, hserver, rfl, rfl⟩
    | reading =>
      by_cases hqueue : s.queue = []
      · exact ⟨.serverRead nothing, ⟨hserver, Or.inr ⟨rfl, Or.inr ⟨Or.inl rfl, hqueue⟩⟩⟩, rfl, rfl⟩
      · obtain ⟨r, htakes, hread⟩ := hone s.queue hqueue
        exact ⟨.serverRead r, ⟨hserver, Or.inl htakes⟩, decide_eq_false fun h => hread h.1, rfl⟩
    | writing bytesSent =>
      have hleft := hp.books.served.left bytesSent hserver
      have hpos : 0 < (s.conn.sendBuffer.drop bytesSent).length := by
        rw [List.length_drop]
        omega
      refine ⟨.serverWrite (.wrote (s.conn.sendBuffer.drop bytesSent).length), ?_, rfl, rfl⟩
      simp only [Enabled, hserver]
      exact ⟨hpos, Nat.le_refl _, fun _ => rfl⟩
    | polling =>
      cases hedge : s.edge with
      | true => exact ⟨.event, ⟨hserver, hedge⟩, rfl, rfl⟩
      | false =>
        -- all has been read, so the client does not wait
        have hqueue : s.queue = [] := hp.awake hedge (by
          rw [hserver]
          exact fun h => by cases h)
        have hcovered := hp.covered
        unfold Waits at hwaits
        rw [hclient] at hwaits
        simp only [flow, Flow.pending, hclient, hserver, htoServer, hqueue, htoClient, harrived,
          List.length_nil] at hcovered
        have hless := hwaits.2.2
        omega

theorem paced {s₀ : EchoSession} {h : List Step} (hroom : 77 * msgs.toNat ≤ capacity)
    (hstart : (echoSession msgs capacity).start s₀)
    (hrun : ((echoSession msgs capacity).restrict fun _ i => i.early = false).Run s₀ h s) :
    Paced msgs h s ∧ .serverWrite .again ∉ h := by
  refine hrun.invariant (I := fun h s => Paced msgs h s ∧ .serverWrite .again ∉ h) ?_
    ⟨.start hstart, List.not_mem_nil⟩
  rintro h t i u ⟨hp, hfull⟩ ⟨⟨he, rfl⟩, hearly⟩
  obtain ⟨hp', hi⟩ := hp.step hroom he hearly
  exact ⟨hp', fun hmem => (List.mem_cons.mp hmem).elim (fun heq => hi heq.symm) hfull⟩

/-- **A session comes to its end**, where the descriptor of the server has room for the echoes and no event is handled
    too early: in no run are there more steps than so many, but for calls that are interrupted; and as long as the
    client is in its loop there is one to take. No `write` finds the descriptor full, the client is not told that the
    server has gone, and when it leaves the loop it has counted all its messages. -/
theorem comes_to_end {msgs : Int} {capacity : Nat} (hroom : 77 * msgs.toNat ≤ capacity) {s₀ s : EchoSession}
    {h : List Step} (hstart : (echoSession msgs capacity).start s₀)
    (hrun : ((echoSession msgs capacity).restrict fun _ i => i.early = false).Run s₀ h s) :
    h.countP (fun i => !i.interrupted) ≤ 287 * msgs.toNat + 1 ∧
      (s.client.place ≠ .leaving → ∃ i, s.Enabled capacity i ∧ i.interrupted = false ∧ i.early = false) ∧
      .serverWrite .again ∉ h ∧ s.client.place ≠ .exited ∧
      (s.client.place = .leaving → s.client.count = msgs.toNat) := by
  obtain ⟨hp, hfull⟩ := paced hroom hstart hrun
  have hwaits := hp.books.waits
  refine ⟨Nat.le_trans (Nat.le_add_right _ _) hp.rank, hp.progress, hfull, fun hplace => ?_, fun hplace => ?_⟩
  · unfold Waits at hwaits
    rw [hplace] at hwaits
    exact hwaits
  · unfold Waits at hwaits
    rw [hplace] at hwaits
    exact hwaits

/-- A session of one message, to its end. -/
theorem comes_to_end_one : ∃ s, after 1 77 [.clientRead (someBytes (bytes "Echo: I'm client!") (by decide)), .answer 17,
      .serverWrite (.wrote 17), .serverRead nothing, .serverRead (someBytes (bytes "I'm client!") (by decide)), .event,
      .establish, .deliver 11, .clientWrite 11] = some s ∧ s.client.place = .leaving ∧ s.client.count = 1 := by
  obtain ⟨s, hs, hplace⟩ : ∃ s, after 1 77 [.clientRead (someBytes (bytes "Echo: I'm client!") (by decide)),
      .answer 17, .serverWrite (.wrote 17), .serverRead nothing,
      .serverRead (someBytes (bytes "I'm client!") (by decide)), .event, .establish, .deliver 11,
      .clientWrite 11] = some s ∧ s.client.place = .leaving := ⟨_, rfl, rfl⟩
  obtain ⟨-, -, -, -, hcount⟩ :=
    comes_to_end (by decide) rfl ((System.Run.restrict_labels (run_of_after hs)).mpr (by decide))
  exact ⟨s, hs, hplace, hcount hplace⟩

/-- The message comes before the connection is established, and its event is handled: nobody reads it, and the client
    waits for an answer. -/
theorem waits_for_good : ∃ s, after 1 77 [.establish, .miss false, .deliver 11, .clientWrite 11] = some s ∧
    s.client.place = .reading ∧ ∀ i, s.Enabled 77 i → i.interrupted = true := by
  refine ⟨_, rfl, rfl, fun i he => ?_⟩
  cases i with
  | clientRead r =>
    obtain ⟨-, ⟨hpos, hprefix⟩ | ⟨hread, -⟩ | ⟨-, -, -, hclosed⟩⟩ := he
    · have hnone := List.prefix_nil.mp hprefix
      have hlength := r.length
      rw [hnone] at hlength
      simp only [List.length_nil] at hlength
      omega
    · exact decide_eq_true hread
    · cases hclosed
  | establish => cases he
  | clientWrite | miss | serverRead => cases he.1
  | event => cases he.2
  | deliver n | answer n => exact absurd (Nat.le_zero.mp he.2) (Nat.ne_of_gt he.1)
  | serverWrite => exact he.elim

end

end EchoSession

end LinuxServer
