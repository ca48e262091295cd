import LinuxServer.CppServer.Send

/-!
# `CppServer/Echo.lean` — the echo server

What a `Read` has received is in `read_buffer` with its length. The message callback takes it out as a C
string, puts `Echo: ` before it and passes it to `Send`, where it goes into `send_buffer` as a C string
again. So it is cut at its first NUL, and what is sent is the echo of what was received if and only if
there is none (`echo_iff`).

The callback is called after every `Read`, also after one that came to the end of the stream behind the data.
`HandleClose` has closed the connection then, and nothing is sent.
-/

set_option autoImplicit false

namespace LinuxServer
namespace Connection

/-! ## What a `Read` receives -/

def receivedNonBlocking : List ReadAnswer → List Byte
  | [] => []
  | .data w :: answers => w ++ receivedNonBlocking answers
  | .again :: _ => []
  | .intr :: answers => receivedNonBlocking answers
  | .eof :: _ => []
  | .error :: _ => []

/-- With so many interruptions left. -/
def receivedBlocking : (intrTimes : Nat) → List ReadAnswer → List Byte
  | 0, _ => []
  | _ + 1, [] => []
  | _ + 1, .data w :: _ => w
  | intrTimes + 1, .intr :: answers => receivedBlocking intrTimes answers
  | _ + 1, .again :: _ => []
  | _ + 1, .eof :: _ => []
  | _ + 1, .error :: _ => []

/-- The bytes that the `read`s of one `Read` answer with. -/
def received (blocking : Bool) (answers : List ReadAnswer) : List Byte :=
  if blocking then receivedBlocking 3 answers else receivedNonBlocking answers

/-- A `read` answers the end of the stream or an error. -/
def endsNonBlocking : List ReadAnswer → Bool
  | [] => false
  | .data _ :: answers => endsNonBlocking answers
  | .again :: _ => false
  | .intr :: answers => endsNonBlocking answers
  | .eof :: _ => true
  | .error :: _ => true

def endsBlocking : (intrTimes : Nat) → List ReadAnswer → Bool
  | 0, _ => false
  | _ + 1, [] => false
  | _ + 1, .data _ :: _ => false
  | intrTimes + 1, .intr :: answers => endsBlocking intrTimes answers
  | _ + 1, .again :: _ => true
  | _ + 1, .eof :: _ => true
  | _ + 1, .error :: _ => true

def ends (blocking : Bool) (answers : List ReadAnswer) : Bool :=
  if blocking then endsBlocking 3 answers else endsNonBlocking answers

/-! ## The callback -/

/-- `GetReadData()`, as the `std::string` that is made of it. -/
def getReadData (c : Connection) : List Byte := c.readBuffer.takeWhile (· ≠ 0)

/-- `"Echo: " + message`. -/
def echo (c : Connection) : List Byte := bytes "Echo: " ++ c.getReadData

section
variable {c c' : Connection} {blocking in_main : Bool}

theorem noNul_echo (c : Connection) : 0 ∉ c.echo := by
  intro hzero
  rcases List.mem_append.mp hzero with hprefix | hmessage
  · revert hprefix
    decide
  · have hne := List.mem_takeWhile_imp (p := fun b : Byte => b ≠ 0) hmessage
    exact of_decide_eq_true hne rfl

/-- **The non-blocking loop** has received what is in the buffer, and ends the connection if a `read`
    does. -/
theorem readNonBlocking_spec {answers : List ReadAnswer} (hstate : c.state = .connected)
    (hread : c.readNonBlocking in_main answers = some c') :
    c'.readBuffer = c.readBuffer ++ receivedNonBlocking answers ∧
      (c'.state = .connected ↔ endsNonBlocking answers = false) := by
  induction answers generalizing c with
  | nil => cases hread
  | cons answer answers ih =>
    cases answer with
    | data w =>
      obtain ⟨hbuffer, hconnected⟩ := ih (c := { c with readBuffer := c.readBuffer ++ w }) hstate hread
      refine ⟨?_, hconnected⟩
      rw [hbuffer, receivedNonBlocking, List.append_assoc]
    | intr => exact ih hstate hread
    | again =>
      cases hread
      exact ⟨(List.append_nil _).symm, iff_of_true hstate rfl⟩
    | eof | error =>
      cases hread
      obtain ⟨hbuffer, hclosed⟩ := handleClose_buffer c in_main
      refine ⟨hbuffer.trans (List.append_nil _).symm, ?_⟩
      rw [hclosed]
      exact iff_of_false (fun heq => by cases heq) (fun heq => by cases heq)

theorem readBlocking_spec {answers : List ReadAnswer} {intrTimes : Nat} (hstate : c.state = .connected)
    (hread : c.readBlocking in_main intrTimes answers = some c') :
    c'.readBuffer = c.readBuffer ++ receivedBlocking intrTimes answers ∧
      (c'.state = .connected ↔ endsBlocking intrTimes answers = false) := by
  induction intrTimes generalizing answers with
  | zero =>
    cases hread
    refine ⟨?_, iff_of_true hstate ?_⟩
    · cases answers <;> exact (List.append_nil _).symm
    · cases answers <;> rfl
  | succ intrTimes ih =>
    cases answers with
    | nil => cases hread
    | cons answer answers =>
      cases answer with
      | data w =>
        cases hread
        exact ⟨rfl, iff_of_true hstate rfl⟩
      | intr => exact ih hread
      | again | eof | error =>
        cases hread
        obtain ⟨hbuffer, hclosed⟩ := handleClose_buffer c in_main
        refine ⟨hbuffer.trans (List.append_nil _).symm, ?_⟩
        rw [hclosed]
        exact iff_of_false (fun heq => by cases heq) (fun heq => by cases heq)

/-- **`Read`** leaves in the buffer what this call has received. -/
theorem read_spec {answers : List ReadAnswer} (hstate : c.state = .connected)
    (hread : c.read blocking in_main answers = some c') :
    c'.readBuffer = received blocking answers ∧ (c'.state = .connected ↔ ends blocking answers = false) := by
  unfold read at hread
  rw [if_neg (not_not_intro hstate)] at hread
  cases blocking with
  | true => exact readBlocking_spec (c := { c with readBuffer := [] }) hstate hread
  | false => exact readNonBlocking_spec (c := { c with readBuffer := [] }) hstate hread

end

end Connection

namespace Wire

/-- Each `write` of the call accepts what it is offered, and so there is one. -/
def TakesAll (i : SendCall) : Prop := i.answers = [.wrote (i.data.takeWhile (· ≠ 0)).length]

section
variable {c c' : Connection} {t : Wire} {i : SendCall} {blocking in_main : Bool}

/-- What is accepted by a descriptor that accepts everything is what is submitted: the data, up to its
    first NUL. -/
theorem accepted_takesAll (hall : TakesAll i) :
    Connection.accepted i.blocking (i.data.takeWhile (· ≠ 0)) i.answers = i.data.takeWhile (· ≠ 0) := by
  rw [hall]
  unfold Connection.accepted
  split
  · rw [Connection.acceptedBlocking, List.take_length, List.drop_length]
    show _ ++ [] = _
    exact List.append_nil _
  · rw [Connection.acceptedNonBlocking, List.take_length, List.drop_length]
    show _ ++ [] = _
    exact List.append_nil _

/-- **Binary-safe echo** of what a `Read` has received: if and only if it holds no NUL, and the `Read` did
    not come to the end of the stream or an error behind it. -/
theorem echo_iff {reads : List ReadAnswer} (hstate : c.state = .connected)
    (hread : c.read blocking in_main reads = some c')
    (hecho : exec ⟨c', [], []⟩ i = some t) (hdata : i.data = c'.echo) (hall : TakesAll i) :
    t.accepted = bytes "Echo: " ++ Connection.received blocking reads ↔
      0 ∉ Connection.received blocking reads ∧ Connection.ends blocking reads = false := by
  obtain ⟨hbuffer, hconnected⟩ := Connection.read_spec hstate hread
  obtain ⟨conn, -, rfl⟩ := Option.map_eq_some_iff.mp hecho
  have hcut : i.data.takeWhile (· ≠ 0) =
      bytes "Echo: " ++ (Connection.received blocking reads).takeWhile (· ≠ 0) := by
    rw [hdata, ← hbuffer]
    exact takeWhile_ne_iff.mpr (Connection.noNul_echo c')
  have haccepted : Connection.accepted i.blocking (c'.setSendBuffer i.data).sendBuffer i.answers =
      bytes "Echo: " ++ (Connection.received blocking reads).takeWhile (· ≠ 0) :=
    (accepted_takesAll hall).trans hcut
  simp only [haccepted, List.nil_append]
  by_cases hup : c'.state = .connected
  · rw [if_pos hup, List.append_right_inj, takeWhile_ne_iff]
    exact (and_iff_left (hconnected.mp hup)).symm
  · rw [if_neg hup]
    refine iff_of_false ?_ ?_
    · intro heq
      cases heq
    · intro hboth
      exact hup (hconnected.mpr hboth.2)

/-- The echo of `ok`, received in two parts. -/
theorem echo_iff_ok : ∃ c' t, Connection.read false false .established [.data [111], .data [107], .again] = some c' ∧
    exec ⟨c', [], []⟩ ⟨false, c'.echo, [.wrote 8]⟩ = some t ∧ t.accepted = bytes "Echo: ok" := by
  have hread : Connection.read false false .established [.data [111], .data [107], .again] =
      some ⟨.connected, [111, 107], [], 0, 0, true, 0⟩ := rfl
  refine ⟨_, _, hread, rfl, ?_⟩
  exact (echo_iff (i := ⟨false, _, [.wrote 8]⟩) rfl hread rfl rfl rfl).mpr ⟨by decide, by decide⟩

/-- **It fails** for three bytes with a NUL between the others, of which the first is sent back. -/
theorem echo_cut : ∃ c' t, Connection.read false false .established [.data [111, 0, 107], .again] = some c' ∧
    c'.state = .connected ∧ TakesAll ⟨false, c'.echo, [.wrote 7]⟩ ∧
    exec ⟨c', [], []⟩ ⟨false, c'.echo, [.wrote 7]⟩ = some t ∧ t.accepted = bytes "Echo: o" ∧
    t.accepted ≠ bytes "Echo: " ++ Connection.received false [.data [111, 0, 107], .again] :=
  ⟨⟨.connected, [111, 0, 107], [], 0, 0, true, 0⟩, _, rfl, rfl, rfl, rfl, rfl, by decide⟩

end

end Wire
end LinuxServer
