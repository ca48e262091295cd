import LinuxServer.CppServer.Connection

/-!
# `CppServer/Send.lean` — what a `Send` gets through

A `Send` puts its data into `send_buffer` and writes it out in a loop; when the loop is over `Write` clears
the buffer. The loop is over when the bytes are out, or at an error, which closes the connection. It is
over as well when a `write` of the non-blocking loop answers `EAGAIN`, and at the third interruption of
the blocking one, and then the connection stays `Connected` and what was left is cleared with the rest.

A `Wire` is a connection with all that its descriptor has accepted and all that was passed to `Send`. As long
as no loop is given up in that way the two are equal, and when one is they never are again
(`conserved_iff`).
-/

set_option autoImplicit false

namespace LinuxServer
namespace Connection

/-! ## What the descriptor accepts

The answers are those of `writeNonBlocking` and `writeBlocking`; a `write` that answers `n` has taken the first
`n` of the bytes it was offered. -/

def acceptedNonBlocking : (buffer : List Byte) → List WriteAnswer → List Byte
  | _, [] => []
  | buffer, .wrote n :: answers => buffer.take n ++ acceptedNonBlocking (buffer.drop n) answers
  | _, .again :: _ => []
  | buffer, .intr :: answers => acceptedNonBlocking buffer answers
  | _, .error :: _ => []

/-- With so many interruptions left. -/
def acceptedBlocking : (buffer : List Byte) → (intrTimes : Nat) → List WriteAnswer → List Byte
  | _, 0, _ => []
  | _, _ + 1, [] => []
  | buffer, intrTimes + 1, .wrote n :: answers =>
    buffer.take n ++ acceptedBlocking (buffer.drop n) (intrTimes + 1) answers
  | buffer, intrTimes + 1, .intr :: answers => acceptedBlocking buffer intrTimes answers
  | _, _ + 1, .again :: _ => []
  | _, _ + 1, .error :: _ => []

/-- What a `Write` of `buffer` has the descriptor accept. -/
def accepted (blocking : Bool) (buffer : List Byte) (answers : List WriteAnswer) : List Byte :=
  if blocking then acceptedBlocking buffer 3 answers else acceptedNonBlocking buffer answers

/-! ## When a loop is given up -/

/-- A `write` answers `EAGAIN` before the bytes are out. -/
def stallsNonBlocking : (left : Nat) → List WriteAnswer → Bool
  | 0, _ => false
  | _ + 1, [] => false
  | left + 1, .wrote n :: answers => stallsNonBlocking (left + 1 - n) answers
  | _ + 1, .again :: _ => true
  | left + 1, .intr :: answers => stallsNonBlocking (left + 1) answers
  | _ + 1, .error :: _ => false

/-- The interruptions are used up before the bytes are out. -/
def stallsBlocking : (left intrTimes : Nat) → List WriteAnswer → Bool
  | 0, _, _ => false
  | _ + 1, 0, _ => true
  | _ + 1, _ + 1, [] => false
  | left + 1, intrTimes + 1, .wrote n :: answers => stallsBlocking (left + 1 - n) (intrTimes + 1) answers
  | left + 1, intrTimes + 1, .intr :: answers => stallsBlocking (left + 1) intrTimes answers
  | _ + 1, _ + 1, .again :: _ => false
  | _ + 1, _ + 1, .error :: _ => false

def stalls (blocking : Bool) (left : Nat) (answers : List WriteAnswer) : Bool :=
  if blocking then stallsBlocking left 3 answers else stallsNonBlocking left answers

section
variable {c c' : Connection} {blocking : Bool}

/-- All of the buffer, when all of it behind what one `write` took. -/
theorem take_append_eq_iff (buffer rest : List Byte) (n : Nat) :
    buffer.take n ++ rest = buffer ↔ rest = buffer.drop n := by
  constructor
  · intro heq
    have hboth : buffer.take n ++ rest = buffer.take n ++ buffer.drop n := by
      rw [List.take_append_drop]
      exact heq
    exact List.append_cancel_left hboth
  · rintro rfl
    exact List.take_append_drop n buffer

theorem acceptedNonBlocking_nil (answers : List WriteAnswer) : acceptedNonBlocking [] answers = [] := by
  induction answers with
  | nil => rfl
  | cons answer answers ih =>
    cases answer with
    | wrote n => simpa only [acceptedNonBlocking, List.take_nil, List.drop_nil, List.nil_append] using ih
    | intr => exact ih
    | again => rfl
    | error => rfl

theorem acceptedBlocking_nil (intrTimes : Nat) (answers : List WriteAnswer) :
    acceptedBlocking [] intrTimes answers = [] := by
  induction answers generalizing intrTimes with
  | nil => cases intrTimes <;> rfl
  | cons answer answers ih =>
    cases intrTimes with
    | zero => rfl
    | succ intrTimes =>
      cases answer with
      | wrote n => simpa only [acceptedBlocking, List.take_nil, List.drop_nil, List.nil_append] using ih _
      | intr => exact ih intrTimes
      | again => rfl
      | error => rfl

/-- **The non-blocking loop**, when it comes to no error. -/
theorem acceptedNonBlocking_eq_iff {answers : List WriteAnswer} {buffer : List Byte}
    (hwrite : c.writeNonBlocking buffer.length answers = some c')
    (hbreaks : breaksNonBlocking buffer.length answers = false) :
    acceptedNonBlocking buffer answers = buffer ↔ stallsNonBlocking buffer.length answers = false := by
  induction answers generalizing buffer with
  | nil =>
    cases buffer with
    | nil => exact iff_of_true rfl rfl
    | cons b buffer => cases hwrite
  | cons answer answers ih =>
    cases buffer with
    | nil => exact iff_of_true (acceptedNonBlocking_nil _) rfl
    | cons b buffer =>
      cases answer with
      | wrote n =>
        have hlength : buffer.length + 1 - n = ((b :: buffer).drop n).length := by
          rw [List.length_drop, List.length_cons]
        simp only [List.length_cons, writeNonBlocking, breaksNonBlocking] at hwrite hbreaks
        simp only [List.length_cons, stallsNonBlocking]
        rw [hlength] at hwrite hbreaks ⊢
        rw [acceptedNonBlocking, take_append_eq_iff]
        exact ih hwrite hbreaks
      | again =>
        refine iff_of_false ?_ ?_
        · intro heq
          cases heq
        · intro heq
          cases heq
      | intr => exact @ih (b :: buffer) hwrite hbreaks
      | error => cases hbreaks

theorem stallsNonBlocking_of_breaks {answers : List WriteAnswer} {left : Nat}
    (hbreaks : breaksNonBlocking left answers = true) : stallsNonBlocking left answers = false := by
  induction answers generalizing left with
  | nil => cases left <;> rfl
  | cons answer answers ih =>
    cases left with
    | zero => rfl
    | succ left =>
      cases answer with
      | wrote n => exact ih hbreaks
      | again => cases hbreaks
      | intr => exact ih hbreaks
      | error => rfl

theorem stallsBlocking_of_breaks {answers : List WriteAnswer} {left intrTimes : Nat}
    (hbreaks : breaksBlocking left intrTimes answers = true) :
    stallsBlocking left intrTimes answers = false := by
  induction answers generalizing left intrTimes with
  | nil =>
    cases left with
    | zero => rfl
    | succ left => cases intrTimes <;> cases hbreaks
  | cons answer answers ih =>
    cases left with
    | zero => rfl
    | succ left =>
      cases intrTimes with
      | zero => cases hbreaks
      | succ intrTimes =>
        cases answer with
        | wrote n => exact ih hbreaks
        | again => rfl
        | intr => exact ih hbreaks
        | error => rfl

/-- **The blocking loop**, when it comes to no error. -/
theorem acceptedBlocking_eq_iff {answers : List WriteAnswer} {buffer : List Byte} {intrTimes : Nat}
    (hwrite : c.writeBlocking buffer.length intrTimes answers = some c')
    (hbreaks : breaksBlocking buffer.length intrTimes answers = false) :
    acceptedBlocking buffer intrTimes answers = buffer ↔
      stallsBlocking buffer.length intrTimes answers = false := by
  induction answers generalizing buffer intrTimes with
  | nil =>
    cases buffer with
    | nil => exact iff_of_true (acceptedBlocking_nil _ _) rfl
    | cons b buffer =>
      cases intrTimes with
      | zero =>
        refine iff_of_false ?_ ?_
        · intro heq
          cases heq
        · intro heq
          cases heq
      | succ intrTimes => cases hwrite
  | cons answer answers ih =>
    cases buffer with
    | nil => exact iff_of_true (acceptedBlocking_nil _ _) rfl
    | cons b buffer =>
      cases intrTimes with
      | zero =>
        -- the third interruption has come
        refine iff_of_false ?_ ?_
        · intro heq
          cases heq
        · intro heq
          cases heq
      | succ intrTimes =>
        cases answer with
        | wrote n =>
          have hlength : buffer.length + 1 - n = ((b :: buffer).drop n).length := by
            rw [List.length_drop, List.length_cons]
          simp only [List.length_cons, writeBlocking, breaksBlocking] at hwrite hbreaks
          simp only [List.length_cons, stallsBlocking]
          rw [hlength] at hwrite hbreaks ⊢
          rw [acceptedBlocking, take_append_eq_iff]
          exact ih hwrite hbreaks
        | intr => exact @ih (b :: buffer) _ hwrite hbreaks
        | again => cases hbreaks
        | error => cases hbreaks

/-- A loop that comes to an error is not given up. -/
theorem stalls_of_breaks {left : Nat} {answers : List WriteAnswer}
    (hbreaks : breaks blocking left answers = true) : stalls blocking left answers = false := by
  unfold breaks at hbreaks
  unfold stalls
  cases blocking with
  | true => exact stallsBlocking_of_breaks hbreaks
  | false => exact stallsNonBlocking_of_breaks hbreaks

/-- A `Write` leaves the connection `Connected` unless it comes to an error. -/
theorem connected_iff {answers : List WriteAnswer} (hstate : c.state = .connected)
    (hwrite : c.write blocking answers = some c') :
    c'.state = .connected ↔ breaks blocking c.sendBuffer.length answers = false := by
  rw [write_eq hwrite, if_neg (not_not_intro hstate)]
  cases hb : breaks blocking c.sendBuffer.length answers with
  | true =>
    refine iff_of_false ?_ ?_
    · intro heq
      cases heq
    · intro heq
      cases heq
  | false => exact iff_of_true hstate rfl

/-- **A `Write` that leaves the connection `Connected`** has the buffer accepted if and only if no loop of
    it is given up. -/
theorem accepted_eq_iff {answers : List WriteAnswer} (hstate : c.state = .connected)
    (hwrite : c.write blocking answers = some c') (hup : c'.state = .connected) :
    accepted blocking c.sendBuffer answers = c.sendBuffer ↔
      stalls blocking c.sendBuffer.length answers = false := by
  have hbreaks := (connected_iff hstate hwrite).mp hup
  unfold write at hwrite
  rw [if_neg (not_not_intro hstate)] at hwrite
  obtain ⟨written, hwritten, -⟩ := Option.map_eq_some_iff.mp hwrite
  cases blocking with
  | true => exact acceptedBlocking_eq_iff hwritten hbreaks
  | false => exact acceptedNonBlocking_eq_iff hwritten hbreaks

/-- A `Write` leaves nothing in the buffer of a connection that is still `Connected`. -/
theorem write_connected {answers : List WriteAnswer} (hwrite : c.write blocking answers = some c')
    (hup : c'.state = .connected) : c.state = .connected ∧ c'.sendBuffer = [] := by
  rw [write_eq hwrite] at hup ⊢
  split at hup
  · rename_i hstate
    exact absurd hup hstate
  · rename_i hstate
    rw [if_neg hstate]
    refine ⟨not_not.mp hstate, ?_⟩
    split <;> rfl

end

end Connection

/-! ## Every run of `Send`s -/

/-- A connection, what its descriptor has accepted and what was passed to `Send`. -/
structure Wire where
  conn : Connection
  accepted : List Byte
  passed : List Byte
  deriving DecidableEq, Repr

/-- A call of `Send`, with what `isBlocking()` says and what its `write`s answer. -/
structure SendCall where
  blocking : Bool
  data : List Byte
  answers : List WriteAnswer
  deriving DecidableEq, Repr

namespace Wire

def exec (s : Wire) (i : SendCall) : Option Wire :=
  (s.conn.send i.blocking i.data i.answers).map fun conn =>
    ⟨conn,
      s.accepted ++ (if s.conn.state = .connected then
        Connection.accepted i.blocking (s.conn.setSendBuffer i.data).sendBuffer i.answers else []),
      s.passed ++ i.data⟩

end Wire

/-- A connection that is `Connected`, and any `Send`s of data without a NUL. -/
def wire : System Wire SendCall where
  start s := s.conn.state = .connected ∧ s.conn.sendBuffer = [] ∧ s.accepted = [] ∧ s.passed = []
  step s i s' := 0 ∉ i.data ∧ s.exec i = some s'

namespace Wire

/-- **No byte is lost** while the connection is up. -/
def Conserved (s : Wire) : Prop :=
  s.conn.state = .connected → s.accepted ++ s.conn.sendBuffer = s.passed

/-- The `Send` is not given up with bytes left: by `EAGAIN`, or by a third interruption. -/
def Drains (s : Wire) (i : SendCall) : Prop :=
  s.conn.state = .connected → Connection.stalls i.blocking i.data.length i.answers = false

instance (s : Wire) (i : SendCall) : Decidable (s.Drains i) := inferInstanceAs (Decidable (_ → _))

section
variable {s s' t : Wire} {h : List SendCall} {i : SendCall}

theorem deterministic : wire.Deterministic := by
  intro s i u u' hu hu'
  exact Option.some.inj (hu.2.symm.trans hu'.2)

theorem sendBuffer_of_noNul (hdata : 0 ∉ i.data) : (s.conn.setSendBuffer i.data).sendBuffer = i.data := by
  show i.data.takeWhile (· ≠ 0) = i.data
  exact takeWhile_ne_iff.mpr hdata

/-- Between two `Send`s the buffer is empty. -/
theorem sendBuffer_eq_nil (hs : wire.Reachable s) (hup : s.conn.state = .connected) :
    s.conn.sendBuffer = [] := by
  refine hs.invariant (I := fun s => s.conn.state = .connected → s.conn.sendBuffer = []) ?_ ?_ hup
  · intro s hstart _
    exact hstart.2.1
  · intro s i s' _ hstep hup
    obtain ⟨conn, hsend, rfl⟩ := Option.map_eq_some_iff.mp hstep.2
    exact (Connection.write_connected hsend hup).2

/-- **One `Send`** loses no byte if and only if it is not given up. -/
theorem conserved_step (hs : wire.Reachable s) (hconserved : s.Conserved) (hstep : wire.step s i s') :
    s'.Conserved ↔ s.Drains i := by
  obtain ⟨hdata, hexec⟩ := hstep
  obtain ⟨conn, hsend, rfl⟩ := Option.map_eq_some_iff.mp hexec
  have hbuffer := sendBuffer_of_noNul (s := s) hdata
  by_cases hstate : s.conn.state = .connected
  · have hpassed := hconserved hstate
    rw [sendBuffer_eq_nil hs hstate, List.append_nil] at hpassed
    by_cases hup : conn.state = .connected
    · have hempty := (Connection.write_connected hsend hup).2
      have hall := Connection.accepted_eq_iff (c := s.conn.setSendBuffer i.data) hstate hsend hup
      rw [hbuffer] at hall
      unfold Conserved Drains
      simp only [if_pos hstate, hbuffer, hempty, List.append_nil, hpassed]
      constructor
      · intro heq _
        exact hall.mp (List.append_cancel_left (heq hup))
      · intro hdrains _
        rw [hall.mpr (hdrains hstate)]
    · refine iff_of_true ?_ ?_
      · intro heq
        exact absurd heq hup
      · -- an error is no giving up: the connection is closed
        intro _
        have hconnected := Connection.connected_iff (c := s.conn.setSendBuffer i.data) hstate hsend
        rw [hbuffer, ← Bool.not_eq_true] at hconnected
        exact Connection.stalls_of_breaks (not_not.mp (mt hconnected.mpr hup))
  · refine iff_of_true ?_ ?_
    · intro hup
      exact absurd (Connection.write_connected hsend hup).1 hstate
    · intro heq
      exact absurd heq hstate

/-- **`Send` loses no bytes** in any state of a run if and only if none of its calls is given up. -/
theorem conserved_iff (hstart : wire.start s) (hrun : wire.Run s h t) :
    (wire.restrict Drains).Run s h t ↔ ∀ h' t', h' <:+ h → wire.Run s h' t' → t'.Conserved := by
  refine hrun.restrict_iff deterministic ?_ hstart ?_
  · intro s i s' hs hconserved hstep
    exact conserved_step hs hconserved hstep
  · obtain ⟨-, hbuffer, haccepted, hpassed⟩ := hstart
    intro _
    rw [hbuffer, haccepted, hpassed]
    rfl

/-- Two `Send`s, the first written in two parts with an interruption between them. -/
theorem conserved_iff_two : ∃ t : Wire,
    t.conn.state = .connected ∧ t.accepted = [97, 98, 99] ∧ t.Conserved := by
  let first : SendCall := ⟨false, [97, 98], [.wrote 1, .intr, .wrote 1]⟩
  let second : SendCall := ⟨true, [99], [.intr, .intr, .wrote 1]⟩
  have hfirst : wire.step ⟨.established, [], []⟩ first ⟨.established, [97, 98], [97, 98]⟩ :=
    ⟨by decide, rfl⟩
  have hsecond : wire.step ⟨.established, [97, 98], [97, 98]⟩ second
      ⟨.established, [97, 98, 99], [97, 98, 99]⟩ := ⟨by decide, rfl⟩
  have hrun : wire.Run ⟨.established, [], []⟩ [second, first] ⟨.established, [97, 98, 99], [97, 98, 99]⟩ :=
    .step (.step (.nil _) hfirst) hsecond
  refine ⟨_, rfl, rfl, (conserved_iff ⟨rfl, rfl, rfl, rfl⟩ hrun).mp ?_ _ _ (List.suffix_refl _) hrun⟩
  exact .step (.step (.nil _) ⟨hfirst, by decide⟩) ⟨hsecond, by decide⟩

/-- **It fails** for a `Send` of two bytes to a socket that has room for one: the other is gone, with the
    connection as `Connected` as before. A third interruption of a blocking `Send` does the same. -/
theorem byte_lost : ∃ t t' : Wire,
    wire.start ⟨.established, [], []⟩ ∧
    wire.Run ⟨.established, [], []⟩ [⟨false, [97, 98], [.wrote 1, .again]⟩] t ∧
    wire.Run ⟨.established, [], []⟩ [⟨true, [97, 98], [.wrote 1, .intr, .intr, .intr]⟩] t' ∧
    (t.conn.state = .connected ∧ t.accepted ++ t.conn.sendBuffer = [97] ∧ t.passed = [97, 98]) ∧
    (t'.conn.state = .connected ∧ t'.accepted ++ t'.conn.sendBuffer = [97] ∧ t'.passed = [97, 98]) ∧
    ¬ t.Conserved ∧ ¬ t'.Conserved := by
  refine ⟨⟨.established, [97], [97, 98]⟩, ⟨.established, [97], [97, 98]⟩, ⟨rfl, rfl, rfl, rfl⟩,
    .step (.nil _) ⟨by decide, rfl⟩, .step (.nil _) ⟨by decide, rfl⟩, ⟨rfl, rfl, rfl⟩, ⟨rfl, rfl, rfl⟩, ?_, ?_⟩
  · intro hconserved
    cases hconserved rfl
  · intro hconserved
    cases hconserved rfl

end

end Wire
end LinuxServer
