import LinuxServer.Http.Deliver

/-!
# `Http/Chunks.lean` — when it does not matter how a request is cut into reads

`deliver` gives a connection a request read by read, `process_read` called after each, up to the
first call that does not return `NO_REQUEST`. Where the head of the request is cut makes no
difference (`Http/Head.lean`). Where the body is cut does: the test for its end counts from
`m_checked_idx`, and a call that finds the body incomplete moves that into the body
(`Http/Body.lean`), so that the next call asks for more bytes than were declared.

`deliver_eq_iff` is the exact account: the cut delivery agrees with the delivery in one read if and
only if the cut is `Harmless`, which is a condition on the bytes and the places where they are cut.
The simplest way to be harmless is to have no read end inside the body (`harmless_of_uncut`).
-/

set_option autoImplicit false

namespace LinuxServer
namespace Http

/-! ## The condition -/

/-- The pieces in which the bytes from `h` on arrive, the first with the read that reaches `h`. -/
def pieces : Nat → List (List Byte) → List (List Byte)
  | _, [] => []
  | h, x :: rest => if h ≤ x.length then x.drop h :: rest else pieces (h - x.length) rest

/-- A body in one piece is taken from its beginning. -/
theorem taken_cons (length : Int) (x : List Byte) (rest : List (List Byte)) :
    taken length [] [] (x :: rest) =
      if length ≤ x.length then some 0 else taken length [] x rest := by
  simp only [taken, List.nil_append]
  rw [show passed [] = 0 from rfl, show lastLine [] = 0 from rfl]
  simp only [Int.ofNat_zero, Int.add_zero, Nat.max_self]

/-- The body of a request, `length` bytes declared and `h` bytes before it, may arrive in these
    pieces. A negative length: as far as the string that is in the first piece. A length that has
    arrived: as far as the text taken reads as the body does. A length that has not: unless the sum
    overflows that is compared with what was read. -/
def BodyKept (h : Nat) (length : Int) (xs : List (List Byte)) : Prop :=
  if length < 0 then h + length < 0 ∨ cword (xs.headD []) = cword xs.flatten
  else if length ≤ xs.flatten.length then
    ∃ t, taken length [] [] xs = some t ∧
      cword ((xs.flatten.drop t).take length.toNat) = cword (xs.flatten.take length.toNat)
  else longMax < length + h + lastLine xs.flatten ∨
    length + h + passed xs.dropLast.flatten ≤ longMax

/-- A way to cut a request into reads that `process_read` does not notice. -/
def Harmless (chunks : List (List Byte)) : Prop :=
  ∀ h length, headEnd chunks.flatten = .body h length → BodyKept h length (pieces h chunks)

/-- Where the head is cut is of no account, and so the body may come in any reads of which the first
    holds it whole. -/
theorem harmless_of_uncut {chunks : List (List Byte)}
    (h : ∀ k length, headEnd chunks.flatten = .body k length →
      0 < length ∧ length ≤ ((pieces k chunks).headD []).length) : Harmless chunks := by
  intro k length hend
  obtain ⟨hpos, hfit⟩ := h k length hend
  unfold BodyKept
  rw [if_neg (by omega)]
  cases hp : pieces k chunks with
  | nil =>
    rw [hp] at hfit
    exact absurd hfit (by simp only [List.headD_nil, List.length_nil]; omega)
  | cons x rest =>
    rw [hp, List.headD_cons] at hfit
    have hle : x.length ≤ (x :: rest).flatten.length := by simp
    rw [if_pos (by omega)]
    exact ⟨0, by rw [taken_cons, if_pos hfit], rfl⟩

namespace HttpConn

/-! ## The body -/

section
variable {b c : HttpConn} {d : List Byte}

/-- `deliver` sees of a read what the loop makes of it. -/
theorem deliver_congr {c' : HttpConn} {x x' : List Byte} (rest : List (List Byte))
    (h : (c.receive x).readLoop = (c'.receive x').readLoop) :
    c.deliver (x :: rest) = c'.deliver (x' :: rest) := by
  rw [deliver, deliver, h]

theorem deliver_exit {c' : HttpConn} {x : List Byte} {rest : List (List Byte)} {exit : ReadExit}
    (hexit : exit ≠ .ret .noRequest) (h : (c.receive x).readLoop = .ok (exit, c')) :
    c.deliver (x :: rest) = .ok (some (exit, c'.view)) := by
  rw [deliver, h]
  cases exit with
  | doRequest => rfl
  | ret code =>
    cases code
    case noRequest => exact absurd rfl hexit
    all_goals rfl

/-- A declared length that is negative. -/
theorem InBody.deliver_neg (h : InBody b c d 0 0) (hurl : UrlEnds b.checkedIdx b)
    (hlen : b.contentLength < 0) (hroom : b.checkedIdx + d.length < readBufferSize)
    (hzero : c.readBuf (b.checkedIdx + d.length) = 0) (rest : List (List Byte)) :
    c.deliver ([] :: rest) =
      if b.checkedIdx + b.contentLength < 0 then .error .outOfBounds
      else .ok (some (.doRequest, (b.put (b.checkedIdx + b.contentLength).toNat 0).viewBody (cword d))) := by
  have hcall := h.call_negative hurl hlen hroom hzero
  rw [deliver, receive_nil]
  split at hcall
  · rename_i hneg
    rw [hcall, if_pos hneg]
  · rename_i hneg
    obtain ⟨c', hrun, hview⟩ := hcall
    rw [hrun, if_neg hneg, ← hview]

/-- **The body, in pieces and at once.** -/
theorem InBody.deliver_iff (h : InBody b c d 0 0) (hurl : UrlEnds b.checkedIdx b)
    (hlen : b.contentLength ≠ 0) (rest : List (List Byte))
    (hroom : b.checkedIdx + (d ++ rest.flatten).length < readBufferSize)
    (hzero : ∀ i, b.checkedIdx + d.length ≤ i → c.readBuf i = 0) :
    c.deliver ([] :: rest) = (c.receive rest.flatten).deliver [[]] ↔
      BodyKept b.checkedIdx b.contentLength (d :: rest) := by
  have hwhole := h.receive rest.flatten
  have hd : d.length ≤ (d ++ rest.flatten).length := by simp
  unfold BodyKept
  rw [List.flatten_cons, List.headD_cons]
  by_cases hneg : b.contentLength < 0
  · -- either way the body is taken at once, with the bytes that are there
    have hzero' : (c.receive rest.flatten).readBuf (b.checkedIdx + (d ++ rest.flatten).length) = 0 := by
      rw [List.length_append, ← hzero (b.checkedIdx + (d.length + rest.flatten.length)) (by omega)]
      exact Mem.blit_ge _ _ (by rw [h.read]; omega)
    rw [h.deliver_neg hurl hneg (by omega) (hzero _ (Nat.le_refl _)), hwhole.deliver_neg hurl hneg hroom hzero',
      if_pos hneg, Int.add_comm (b.checkedIdx : Int)]
    split
    · rename_i hout
      simp only [hout, true_or]
    · rename_i hout
      simp only [hout, false_or, Except.ok.injEq, Option.some.injEq, Prod.mk.injEq, true_and]
      rw [Int.add_comm] at hout
      exact viewBody_inj
  · -- in one read the body is taken from its beginning on, in several from where the lines have led
    have hpos : 0 < b.contentLength := by omega
    have hnil : passed [] = 0 := rfl
    have hle := passed_le (d :: rest).dropLast.flatten
    rw [h.deliver_pos hurl hpos rest hroom,
      hwhole.deliver_pos hurl hpos [] (by rw [List.flatten_nil, List.append_nil]; exact hroom),
      if_neg hneg]
    have hone : taken b.contentLength [] [] [d ++ rest.flatten] =
        if b.contentLength ≤ (d ++ rest.flatten).length then some 0 else none := taken_cons _ _ _
    simp only [List.flatten_nil, List.append_nil, List.dropLast_singleton, hone, hnil, Nat.zero_max]
    by_cases hfit : b.contentLength ≤ (d ++ rest.flatten).length
    · simp only [if_pos hfit]
      cases taken b.contentLength [] [] (d :: rest) with
      | none => simp
      | some t => simp [viewBody_inj]
    · simp only [if_neg hfit]
      by_cases hall : longMax < b.contentLength + b.checkedIdx + lastLine (d ++ rest.flatten)
      · rw [if_pos hall, if_pos (by omega)]
        simp [hall]
      · rw [if_neg hall]
        by_cases hcut : longMax < b.contentLength + b.checkedIdx + passed (d :: rest).dropLast.flatten
        · rw [if_pos (by omega)]
          simp [hall, hcut]
        · rw [if_neg (by omega)]
          simp [hall, Int.not_lt.mp hcut]

end

/-! ## The whole request -/

/-- The head ends behind the bytes that do not end it. -/
theorem lt_of_headEnd {w y : List Byte} {h : Nat} {length : Int} (hw : headEnd w = .pending)
    (hy : headEnd (w ++ y) = .body h length) : w.length < h := by
  by_contra hle
  obtain ⟨-, htake⟩ := headEnd_take hy
  rw [List.take_append_of_le_length (by omega)] at htake
  have happ := headEnd_append (w := w.take h) (x := w.drop h) (by rw [htake]; nofun)
  rw [List.take_append_drop, hw, htake] at happ
  cases happ

/-- Before the body, what is seen of a request does not change with what is received behind. -/
theorem view_receive {c : HttpConn} (hs : c.checkState ≠ .content) (hurl : UrlEnds c.readIdx c)
    (x : List Byte) : (c.receive x).view = c.view := by
  have hs' : (c.receive x).checkState ≠ .content := hs
  have hmap : c.url.map (c.receive x).str = c.url.map c.str := by
    cases hu : c.url with
    | none => rfl
    | some u => exact congrArg some (str_receive (hurl u hu) x)
  simp only [view, if_neg hs, if_neg hs', View.mk.injEq]
  exact ⟨rfl, hmap, rfl, rfl, trivial⟩

/-- A connection at which a request begins. -/
structure AtRequest (f : HttpConn) : Prop where
  read : f.readIdx = 0
  checked : f.checkedIdx = 0
  start : f.startLine = 0
  state : f.checkState = .requestLine
  contentLength : f.contentLength = 0
  url : f.url = none
  clear : ∀ i, f.readBuf i = 0

theorem init_atRequest (c : HttpConn) : c.init.AtRequest :=
  ⟨rfl, rfl, rfl, rfl, rfl, rfl, fun _ => rfl⟩

theorem AtRequest.unchecked_receive {f : HttpConn} (hf : f.AtRequest) (w : List Byte) :
    (f.receive w).unchecked = w := by
  rw [HttpConn.unchecked_receive (by rw [hf.checked]; exact Nat.zero_le _), HttpConn.unchecked,
    hf.checked, hf.read]
  rfl

/-- A connection that has received the first bytes of a request stands at the beginning of a line. -/
theorem AtRequest.atLine {f : HttpConn} (hf : f.AtRequest) {w : List Byte}
    (hroom : w.length ≤ readBufferSize) : (f.receive w).AtLine := by
  have hread : (f.receive w).readIdx = w.length := by
    show f.readIdx + w.length = _
    rw [hf.read, Nat.zero_add]
  have hchecked : (f.receive w).checkedIdx = 0 := hf.checked
  exact ⟨hf.start.trans hf.checked.symm, by rw [hchecked]; exact Nat.zero_le _,
    fun hpos => absurd hchecked (Nat.pos_iff_ne_zero.mp hpos), by rw [hread]; exact hroom, .none hf.url⟩

/-- What the loop makes of the first bytes of a request. -/
theorem AtRequest.headRun {f : HttpConn} (hf : f.AtRequest) {w : List Byte}
    (hroom : w.length ≤ readBufferSize) : HeadRun (f.receive w) (headEnd w) := by
  have hrun := (hf.atLine hroom).headRun hf.state hf.contentLength
  rwa [hf.unchecked_receive] at hrun

/-- The reads `chunks` that follow the bytes `w`, which hold no more than a part of the head: `c` is
    the connection as `process_read` has left it, and stands for `f` with `w` received. -/
theorem AtRequest.deliver_iff {f : HttpConn} (hf : f.AtRequest) : ∀ (chunks : List (List Byte))
    {c : HttpConn} {w : List Byte}, headEnd w = .pending →
    (∀ y, (c.receive y).readLoop = (f.receive (w ++ y)).readLoop) →
    (w ++ chunks.flatten).length < readBufferSize →
    (c.deliver chunks = f.deliver [w ++ chunks.flatten] ↔ ∀ h length,
      headEnd (w ++ chunks.flatten) = .body h length → BodyKept h length (pieces (h - w.length) chunks))
  | [], c, w, hw, hc, hroom => by
    rw [List.flatten_nil, List.append_nil] at hroom ⊢
    have hrun := hf.headRun (Nat.le_of_lt hroom)
    rw [hw] at hrun
    cases hrun with
    | pending c' run =>
      refine iff_of_true ?_ fun _ _ he => by rw [hw] at he; cases he
      rw [deliver, deliver, run]
      rfl
  | x :: rest, c, w, hw, hc, hroom => by
    rw [List.flatten_cons, ← List.append_assoc] at hroom ⊢
    have hwx : (w ++ x).length ≤ ((w ++ x) ++ rest.flatten).length := by simp
    have hrun := hf.headRun (w := w ++ x) (by omega)
    have hcx := hc x
    have hmore : ∀ y, f.receive (w ++ x ++ y) = (f.receive (w ++ x)).receive y := fun y =>
      (receive_receive f _ _).symm
    have happ : headEnd (w ++ x) ≠ .pending →
        headEnd (w ++ x ++ rest.flatten) = headEnd (w ++ x) := headEnd_append
    generalize hend : headEnd (w ++ x) = o at hrun happ
    cases hrun with
    | fault e run =>
      have h₁ := run []
      rw [receive_nil] at h₁
      refine iff_of_true ?_ fun _ _ he => by rw [happ (fun hp => by cases hp)] at he; cases he
      rw [deliver, deliver, hcx, h₁, hmore, run]
    | done exit c' verdict head url run =>
      have h₁ := run []
      rw [receive_nil, receive_nil] at h₁
      refine iff_of_true ?_ fun _ _ he => by rw [happ (fun hp => by cases hp)] at he; cases he
      rw [deliver_exit verdict (hcx.trans h₁), deliver_exit verdict (by rw [hmore]; exact run _),
        view_receive head url]
    | pending c' run resume =>
      -- still in the head, and the rest is delivered to what is as `f` with all of it so far
      have ih := hf.deliver_iff rest (c := c') hend (fun y => by rw [hmore, resume]) hroom
      rw [deliver, hcx, run]
      refine ih.trans (forall_congr' fun h => forall_congr' fun length => imp_congr_right fun he => ?_)
      have hlt := lt_of_headEnd hend he
      rw [List.length_append] at hlt ⊢
      rw [pieces, if_neg (by omega), Nat.sub_sub]
    | body b h state line length checked unchecked read above run =>
      -- the head ends in this read: from here on it is the body that is delivered
      have hh : b.checkedIdx = h := by
        rw [checked]
        show f.checkedIdx + h = h
        rw [hf.checked, Nat.zero_add]
      have hlt := lt_of_headEnd hw hend
      have hle := (headEnd_take hend).1
      have hread : b.readIdx = (w ++ x).length := by
        rw [read]
        show f.readIdx + (w ++ x).length = _
        rw [hf.read, Nat.zero_add]
      have hdrop : b.unchecked = x.drop (h - w.length) := by
        rw [unchecked, hf.unchecked_receive, List.drop_append, List.drop_eq_nil_of_le (by omega),
          List.nil_append]
      have hbody := (InBody.entry line state).deliver_iff line.url length rest (by
          rw [hdrop, List.length_append, List.length_drop]
          rw [List.length_append, List.length_append] at hroom
          rw [List.length_append] at hle
          omega) fun i hi => by
        rw [length_unchecked] at hi
        rw [above i (by omega)]
        exact (Mem.blit_ge _ _ (by rw [hf.read]; omega)).trans (hf.clear i)
      have hcut : c.deliver (x :: rest) = b.deliver ([] :: rest) :=
        deliver_congr rest (hcx.trans (by have := run []; rwa [receive_nil] at this))
      have hwhole : f.deliver [w ++ x ++ rest.flatten] = (b.receive rest.flatten).deliver [[]] :=
        deliver_congr [] (by rw [hmore, receive_nil]; exact run _)
      have hpieces : pieces (h - w.length) (x :: rest) = x.drop (h - w.length) :: rest := by
        rw [List.length_append] at hle
        rw [pieces, if_pos (by omega)]
      rw [hcut, hwhole, hbody, happ (fun hp => by cases hp), hh, hdrop]
      constructor
      · intro hk h' length' he
        obtain ⟨rfl, rfl⟩ := HeadEnd.body.inj he
        rwa [hpieces]
      · intro hk
        have := hk h b.contentLength rfl
        rwa [hpieces] at this

/-- **Chunk independence, and when it holds.** However the bytes of a request are cut into reads,
    the first call of `process_read` that does not return `NO_REQUEST` is there when it is there for
    the whole in one read, and has parsed the same, if and only if the cut is harmless. -/
theorem deliver_eq_iff (c : HttpConn) (chunks : List (List Byte))
    (hroom : chunks.flatten.length < readBufferSize) :
    c.init.deliver chunks = c.init.deliver [chunks.flatten] ↔ Harmless chunks := by
  have h := c.init_atRequest.deliver_iff chunks (w := []) (by decide) (fun _ => by rw [List.nil_append]) hroom
  simpa only [List.nil_append, List.length_nil, Nat.sub_zero, Harmless] using h

/-- A `POST` of five bytes that comes in one read, and the next request's first bytes in another. -/
theorem deliver_eq_iff_post :
    (default : HttpConn).init.deliver
        [bytes "POST /3 HTTP/1.1\r\nContent-length: 5\r\n\r\nabcde", bytes "GET"] =
      (default : HttpConn).init.deliver
        [[bytes "POST /3 HTTP/1.1\r\nContent-length: 5\r\n\r\nabcde", bytes "GET"].flatten] := by
  have hend : headEnd [bytes "POST /3 HTTP/1.1\r\nContent-length: 5\r\n\r\nabcde", bytes "GET"].flatten =
      .body 39 5 := by decide +kernel
  refine (deliver_eq_iff default _ (by decide +kernel)).mpr (harmless_of_uncut fun k length hbody => ?_)
  cases hend.symm.trans hbody
  exact ⟨by decide, by decide +kernel⟩

/-- The same `POST`, cut behind the second byte of its body: the second call asks for seven. -/
theorem deliver_cut_body : ∃ (c : HttpConn) (chunks : List (List Byte)),
    chunks = [bytes "POST /3 HTTP/1.1\r\nContent-length: 5\r\n\r\nab", bytes "cde"] ∧
    chunks.flatten.length < readBufferSize ∧
      c.init.deliver chunks = .ok none ∧
      c.init.deliver [chunks.flatten] = .ok (some (.doRequest,
        { cgi := 1, url := some (bytes "/3"), linger := false, contentLength := 5,
          body := some (bytes "abcde") })) :=
  ⟨default, _, rfl, by decide +kernel, by decide +kernel, by decide +kernel⟩

end HttpConn

end Http
end LinuxServer
