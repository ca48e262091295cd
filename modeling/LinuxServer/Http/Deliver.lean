import LinuxServer.Http.Body

/-!
# `Http/Deliver.lean` — a body that arrives in pieces

`deliver` gives a connection a request read by read, `process_read` called after each, up to the
first call that does not return `NO_REQUEST`. This file is about the reads from the one on that
reaches the body. `parse_content` tests whether the body has arrived by counting from
`m_checked_idx`, and a call that finds it incomplete moves that into the body (`Http/Body.lean`), so
that the next call asks for more bytes than were declared.

`InBody` says where the cursors are between two calls, `InBody.call` what one call does, and
`InBody.deliver_pos` adds the calls up: which text is taken for the body, and when.
-/

set_option autoImplicit false

namespace LinuxServer
namespace Http

/-- What `process_read` has made of a request, for those who look at it afterwards. The body is
    `m_string`, if this request has set it. -/
structure View where
  cgi : Nat
  url : Option (List Byte)
  linger : Bool
  contentLength : Int
  body : Option (List Byte)
  deriving DecidableEq, Repr

namespace HttpConn

def view (c : HttpConn) : View where
  cgi := c.cgi
  url := c.url.map c.str
  linger := c.linger
  contentLength := c.contentLength
  body := if c.checkState = .content then c.string.map c.str else none

/-- Read by read, up to the first call of `process_read` that does not return `NO_REQUEST`. -/
def deliver : HttpConn → List (List Byte) → Except Fault (Option (ReadExit × View))
  | _, [] => .ok none
  | c, x :: rest =>
    match (c.receive x).readLoop with
    | .error f => .error f
    | .ok (.ret .noRequest, c') => deliver c' rest
    | .ok (exit, c') => .ok (some (exit, c'.view))

end HttpConn

/-- Where the text begins that is taken for the body, of declared length `length`: at the first
    piece with which the bytes reach `length` beyond what `parse_line` had got past without it. The
    pieces before it are `d`, and `d₀` but for the last. -/
def taken (length : Int) : (d₀ d : List Byte) → List (List Byte) → Option Nat
  | _, _, [] => none
  | d₀, d, x :: rest =>
    if length + passed d ≤ (d ++ x).length then some (max (passed d₀) (lastLine d))
    else taken length d (d ++ x) rest

namespace HttpConn

/-! ## One call in the body -/

/-- The connection `c` has received `d` of the body that `b` entered; `parse_line` has got past `p`
    bytes of it, and the line starts at `t`. -/
structure InBody (b c : HttpConn) (d : List Byte) (p t : Nat) : Prop where
  ready : c.Ready
  state : c.checkState = .content
  contentLength : c.contentLength = b.contentLength
  linger : c.linger = b.linger
  cgi : c.cgi = b.cgi
  url : c.url = b.url
  read : c.readIdx = b.checkedIdx + d.length
  checked : c.checkedIdx = b.checkedIdx + p
  start : c.startLine = b.checkedIdx + t
  le : t ≤ p
  below : ∀ i, i < b.checkedIdx → c.readBuf i = b.readBuf i
  text : c.readBuf.slice (b.checkedIdx + t) (d.length - t) = d.drop t

/-- What is seen of a request that is complete, its body `w`. -/
def viewBody (b : HttpConn) (w : List Byte) : View where
  cgi := b.cgi
  url := b.url.map b.str
  linger := b.linger
  contentLength := b.contentLength
  body := some w

section
variable {b c : HttpConn} {d : List Byte} {p t : Nat}

theorem InBody.entry (hb : b.AtLine) (hs : b.checkState = .content) : InBody b b b.unchecked 0 0 := by
  have hin := hb.within
  refine ⟨hb.ready, hs, rfl, rfl, rfl, rfl, ?_, rfl, hb.start, Nat.le_refl _, fun _ _ => rfl, ?_⟩
  · rw [length_unchecked]; omega
  · rw [length_unchecked]; rfl

theorem InBody.within (h : InBody b c d p t) : p ≤ d.length := by
  have := h.ready.within
  rw [h.read, h.checked] at this
  omega

theorem InBody.receive (h : InBody b c d p t) (x : List Byte) : InBody b (c.receive x) (d ++ x) p t := by
  have hp := h.within
  have hle := h.le
  refine ⟨h.ready.receive x, h.state, h.contentLength, h.linger, h.cgi, h.url, ?_, h.checked, h.start,
    hle, fun i hi => ?_, ?_⟩
  · show c.readIdx + x.length = _
    rw [h.read, List.length_append, Nat.add_assoc]
  · rw [← h.below i hi]
    exact Mem.blit_lt _ _ (by rw [h.read]; omega)
  · rw [List.drop_append_of_le_length (by omega), ← h.text, List.length_append,
      show d.length + x.length - t = (d.length - t) + x.length by omega, Mem.slice_append]
    have hread : b.checkedIdx + t + (d.length - t) = c.readIdx := by rw [h.read]; omega
    congr 1
    · exact Mem.slice_congr fun i _ hi => Mem.blit_lt _ _ (by omega)
    · rw [hread]; exact Mem.slice_blit _ _ _

theorem InBody.unchecked (h : InBody b c d p t) : c.unchecked = d.drop p := by
  have hp := h.within
  have hle := h.le
  have htext := congrArg (List.drop (p - t)) h.text
  rw [List.drop_drop, Mem.drop_slice, show t + (p - t) = p by omega] at htext
  rw [← htext, HttpConn.unchecked, h.read, h.checked]
  congr 1 <;> omega

/-- The test that a call begins with. -/
theorem InBody.parse (h : InBody b c d p t) :
    ({ c with startLine := c.checkedIdx } : HttpConn).parseContent c.startLine =
      if longMax < b.contentLength + b.checkedIdx + p then .error .overflow
      else if b.contentLength + p ≤ d.length then
        if 0 ≤ b.checkedIdx + t + b.contentLength ∧ b.checkedIdx + t + b.contentLength < readBufferSize then
          .ok (.getRequest, {
            ({ c with startLine := c.checkedIdx } : HttpConn).put
              (b.checkedIdx + t + b.contentLength).toNat 0 with
            string := some c.startLine })
        else .error .outOfBounds
      else .ok (.noRequest, { c with startLine := c.checkedIdx }) := by
  have hread : (c.readIdx : Int) = b.checkedIdx + d.length := by
    rw [h.read]
    omega
  have hneed : c.contentLength + (c.checkedIdx : Int) = b.contentLength + b.checkedIdx + p := by
    rw [h.contentLength, h.checked]
    omega
  have hstop : (c.startLine : Int) + c.contentLength = b.checkedIdx + t + b.contentLength := by
    rw [h.start, h.contentLength]
    omega
  have hfit : b.contentLength + b.checkedIdx + p ≤ b.checkedIdx + d.length ↔
      b.contentLength + p ≤ d.length := by omega
  simp only [parseContent, hread, hneed, hstop, hfit]

/-- The turn it is made in. -/
theorem InBody.turn (h : InBody b c d p t) : readStep (c, .lineOk) = (do
    let (ret, c) ← ({ c with startLine := c.checkedIdx } : HttpConn).parseContent c.startLine
    if ret = .getRequest then return .inl (.doRequest, c) else return .inr (c, .lineOpen)) :=
  (readStep_body ⟨h.state, rfl⟩).trans
    (checkText_body (c := { c with startLine := c.checkedIdx }) h.state _)

/-- A call that finds the body incomplete takes its lines off. -/
theorem InBody.short (h : InBody b c d p t) (hshort : d.length < b.contentLength + p)
    (hmax : b.contentLength + b.checkedIdx + p ≤ longMax) :
    (longMax < b.contentLength + b.checkedIdx + p + lastLine (d.drop p) ∧
      c.readLoop = .error .overflow) ∨
    (b.contentLength + b.checkedIdx + p + lastLine (d.drop p) ≤ longMax ∧
      ∃ c', c.readLoop = .ok (.ret .noRequest, c') ∧ InBody b c' d (p + passed (d.drop p))
        (if lastLine (d.drop p) = 0 then p else p + lastLine (d.drop p))) := by
  have hp := h.within
  let c₁ : HttpConn := { c with startLine := c.checkedIdx }
  have hneed : c₁.contentLength + (c₁.checkedIdx : Int) = b.contentLength + b.checkedIdx + p := by
    show c.contentLength + (c.checkedIdx : Int) = _
    rw [h.contentLength, h.checked]
    omega
  have hread : (c₁.readIdx : Int) = b.checkedIdx + d.length := by
    show (c.readIdx : Int) = _
    rw [h.read]
    omega
  have hnext : c.readLoop = readFrom (c₁, .lineOpen) := by
    rw [readLoop_eq]
    refine readFrom_next (h.turn.trans ?_)
    rw [h.parse, if_neg (by omega), if_neg (by omega)]
    rfl
  have hready : c₁.Ready := ⟨Nat.le_refl _, h.ready.within, h.ready.uncr⟩
  have hunchecked : c₁.unchecked = d.drop p := h.unchecked
  -- the lines that are whole are passed, each with the test made again
  have hsweep := sweep (d.drop p).length hready h.state (Nat.le_of_eq (by rw [hunchecked]))
    (by omega) (by omega)
  rw [hunchecked, hneed, bodyLines_of_length_le (Nat.le_refl _), ← hnext] at hsweep
  rcases hsweep with hover | ⟨hmax', c', hsweep, hs⟩
  · exact Or.inl hover
  · refine Or.inr ⟨hmax', c', hsweep, ?_⟩
    have hll := lastLine_le_passed (d.drop p)
    have hle := h.le
    have hchecked : c₁.checkedIdx = b.checkedIdx + p := h.checked
    refine ⟨hs.ready, hs.state, hs.contentLength.trans h.contentLength, hs.linger.trans h.linger,
      hs.cgi.trans h.cgi, hs.url.trans h.url, hs.read.trans h.read, ?_, ?_, ?_, fun i hi => ?_, ?_⟩
    · rw [hs.checked, hchecked, Nat.add_assoc]
    · rw [hs.start]
      show (if lastLine (d.drop p) = 0 then c.checkedIdx else c₁.checkedIdx + lastLine (d.drop p)) = _
      rw [hchecked]
      split
      · rfl
      · rw [Nat.add_assoc]
    · split <;> omega
    · rw [hs.below i (by rw [hchecked]; omega)]
      exact h.below i hi
    · -- what is behind the last of them has not been touched
      generalize ht' : (if lastLine (d.drop p) = 0 then p else p + lastLine (d.drop p)) = t'
      have htt' : t ≤ t' := by rw [← ht']; split <;> omega
      have hp' : p + lastLine (d.drop p) ≤ t' := by rw [← ht']; split <;> omega
      have htext := congrArg (List.drop (t' - t)) h.text
      rw [List.drop_drop, Mem.drop_slice, show t + (t' - t) = t' by omega] at htext
      rw [← htext, show b.checkedIdx + t + (t' - t) = b.checkedIdx + t' by omega,
        show d.length - t - (t' - t) = d.length - t' by omega]
      exact Mem.slice_congr fun i hi _ => hs.above i (by rw [hchecked]; omega)

/-- **One call of `process_read` in the body.** -/
theorem InBody.call (h : InBody b c d p t) (hurl : UrlEnds b.checkedIdx b)
    (hlen : 0 < b.contentLength) (hroom : b.checkedIdx + d.length < readBufferSize) :
    (longMax < b.contentLength + b.checkedIdx + p + lastLine (d.drop p) ∧
      (d.length < b.contentLength + p ∨ longMax < b.contentLength + b.checkedIdx + p) ∧
      c.readLoop = .error .overflow) ∨
    (b.contentLength + p ≤ d.length ∧ ∃ c', c.readLoop = .ok (.doRequest, c') ∧
      c'.view = b.viewBody (cword ((d.drop t).take b.contentLength.toNat))) ∨
    (d.length < b.contentLength + p ∧
      b.contentLength + b.checkedIdx + p + lastLine (d.drop p) ≤ longMax ∧
      ∃ c', c.readLoop = .ok (.ret .noRequest, c') ∧ InBody b c' d (p + passed (d.drop p))
        (if lastLine (d.drop p) = 0 then p else p + lastLine (d.drop p))) := by
  have hp := h.within
  have hle := h.le
  by_cases hover : longMax < b.contentLength + b.checkedIdx + p
  · refine Or.inl ⟨by omega, Or.inr hover, ?_⟩
    rw [readLoop_eq, readFrom_eq, h.turn, h.parse, if_pos hover]
    rfl
  by_cases hfit : b.contentLength + p ≤ d.length
  · -- the text is taken
    refine Or.inr (Or.inl ⟨hfit, ?_⟩)
    let c' : HttpConn := { ({ c with startLine := c.checkedIdx } : HttpConn).put
      (b.checkedIdx + t + b.contentLength).toNat 0 with string := some c.startLine }
    have hstop : (b.checkedIdx + t + b.contentLength).toNat = b.checkedIdx + t + b.contentLength.toNat := by
      omega
    refine ⟨c', ?_, ?_⟩
    · rw [readLoop_eq, readFrom_eq, h.turn, h.parse, if_neg hover, if_pos hfit, if_pos ⟨by omega, by omega⟩]
      rfl
    · have hstr : ∀ u, c.url = some u → c'.str u = b.str u := by
        intro u hu
        refine (Mem.cstr_congr (hurl u (h.url ▸ hu)) (fun i _ hi => ?_) _).symm
        show b.readBuf i = c.readBuf.put (b.checkedIdx + t + b.contentLength).toNat 0 i
        rw [Mem.put_ne _ _ (by omega), h.below i hi]
      have hbody : c'.str c.startLine = cword ((d.drop t).take b.contentLength.toNat) := by
        have hwlen : ((d.drop t).take b.contentLength.toNat).length = b.contentLength.toNat := by
          rw [List.length_take, List.length_drop]; omega
        rw [h.start]
        refine Mem.cstr_of_slice (w := (d.drop t).take b.contentLength.toNat) ?_ ?_ ?_
        · rw [hwlen, ← h.text, Mem.take_slice _ (by omega)]
          exact Mem.slice_congr fun i _ hi => Mem.put_ne _ _ (by omega)
        · rw [hwlen, ← hstop]; exact Mem.put_self ..
        · rw [hwlen]; omega
      have hmap : c.url.map c'.str = b.url.map b.str := by
        rw [← h.url]
        exact Option.map_congr hstr
      have hs' : c'.checkState = .content := h.state
      simp only [view, viewBody, if_pos hs', View.mk.injEq]
      exact ⟨h.cgi, hmap, h.linger, h.contentLength, congrArg some hbody⟩
  · -- it is not there yet, and its lines are taken off
    rcases h.short (by omega) (by omega) with ⟨hmax, hrun⟩ | ⟨hmax, hrun⟩
    · exact Or.inl ⟨hmax, Or.inl (by omega), hrun⟩
    · exact Or.inr (Or.inr ⟨by omega, hmax, hrun⟩)

/-! ## The calls that follow -/

/-- Where the line starts after a call. -/
theorem max_passed_lastLine (d x : List Byte) :
    (if lastLine ((d ++ x).drop (passed d)) = 0 then passed d
      else passed d + lastLine ((d ++ x).drop (passed d))) = max (passed d) (lastLine (d ++ x)) := by
  have hle := lastLine_le_passed d
  rw [lastLine_append, List.drop_append_of_le_length (passed_le d)]
  split <;> omega

theorem passed_drop (d x : List Byte) :
    passed d + passed ((d ++ x).drop (passed d)) = passed (d ++ x) := by
  rw [passed_append, List.drop_append_of_le_length (passed_le d)]

/-- One more piece, behind those that were passed over. -/
theorem InBody.next (h : InBody b c d (passed d) t) (hurl : UrlEnds b.checkedIdx b)
    (hlen : 0 < b.contentLength) (x : List Byte)
    (hroom : b.checkedIdx + (d ++ x).length < readBufferSize) :
    (longMax < b.contentLength + b.checkedIdx + max (passed d) (lastLine (d ++ x)) ∧
      ((d ++ x).length < b.contentLength + passed d ∨
        longMax < b.contentLength + b.checkedIdx + passed d) ∧
      (c.receive x).readLoop = .error .overflow) ∨
    (b.contentLength + passed d ≤ (d ++ x).length ∧ ∃ c', (c.receive x).readLoop = .ok (.doRequest, c') ∧
      c'.view = b.viewBody (cword (((d ++ x).drop t).take b.contentLength.toNat))) ∨
    ((d ++ x).length < b.contentLength + passed d ∧
      b.contentLength + b.checkedIdx + max (passed d) (lastLine (d ++ x)) ≤ longMax ∧
      ∃ c', (c.receive x).readLoop = .ok (.ret .noRequest, c') ∧
        InBody b c' (d ++ x) (passed (d ++ x)) (max (passed d) (lastLine (d ++ x)))) := by
  have hmax := max_passed_lastLine d x
  rcases (h.receive x).call hurl hlen hroom with ⟨h₁, h₂, h₃⟩ | h₁ | ⟨h₁, h₂, c', h₃, h₄⟩
  · refine Or.inl ⟨?_, h₂, h₃⟩
    rw [← hmax]
    split <;> omega
  · exact Or.inr (Or.inl h₁)
  · rw [hmax, passed_drop] at h₄
    refine Or.inr (Or.inr ⟨h₁, ?_, c', h₃, h₄⟩)
    rw [← hmax]
    split <;> omega

/-- A window of a word is one of any word that begins with it. -/
theorem take_drop_append {w x : List Byte} {j n : Nat} (h : j + n ≤ w.length) :
    ((w ++ x).drop j).take n = (w.drop j).take n := by
  rw [List.drop_append_of_le_length (by omega),
    List.take_append_of_le_length (by rw [List.length_drop]; omega)]

/-- A body that arrives in full: the text is taken where `taken` says, or never. -/
theorem InBody.deliver_arrived (hurl : UrlEnds b.checkedIdx b) (hlen : 0 < b.contentLength) :
    ∀ (rest : List (List Byte)) {c : HttpConn} {d₀ d : List Byte},
    InBody b c d (passed d) (max (passed d₀) (lastLine d)) →
    b.contentLength ≤ (d ++ rest.flatten).length →
    b.checkedIdx + (d ++ rest.flatten).length < readBufferSize →
    c.deliver rest = .ok ((taken b.contentLength d₀ d rest).map fun t =>
      (.doRequest, b.viewBody (cword (((d ++ rest.flatten).drop t).take b.contentLength.toNat))))
  | [], _, _, _, _, _, _ => rfl
  | x :: rest, c, d₀, d, h, hin, hroom => by
    have hmax : (readBufferSize : Int) * 3 < longMax := by decide
    rw [List.flatten_cons, ← List.append_assoc] at hin hroom ⊢
    have hx : (d ++ x).length ≤ ((d ++ x) ++ rest.flatten).length := by simp
    have hle := h.le
    rcases h.next hurl hlen x (by omega) with ⟨h₁, -, -⟩ | ⟨hfit, c', hrun, hview⟩ | ⟨hshort, -, c', hrun, h'⟩
    · have hl := lastLine_le_passed (d ++ x)
      have hp := passed_le (d ++ x)
      have hp' := passed_le d
      rw [List.length_append] at hp hx
      omega
    · rw [deliver, hrun, taken, if_pos hfit]
      simp only [hview, Option.map_some]
      rw [take_drop_append (w := d ++ x) (by omega)]
    · rw [deliver, hrun, taken, if_neg (by omega)]
      exact InBody.deliver_arrived hurl hlen rest h' hin hroom

/-- A body that does not arrive in full: nothing is taken, but the sum may overflow. -/
theorem InBody.deliver_short (hurl : UrlEnds b.checkedIdx b) (hlen : 0 < b.contentLength) :
    ∀ (rest : List (List Byte)) {c : HttpConn} {d : List Byte} {t : Nat}, rest ≠ [] →
    InBody b c d (passed d) t →
    (d ++ rest.flatten).length < b.contentLength →
    b.checkedIdx + (d ++ rest.flatten).length < readBufferSize →
    c.deliver rest =
      if longMax < b.contentLength + b.checkedIdx +
        max (passed (d ++ rest.dropLast.flatten)) (lastLine (d ++ rest.flatten)) then .error .overflow
      else .ok none
  | [], _, _, _, hne, _, _, _ => absurd rfl hne
  | [x], c, d, t, _, h, hshort, hroom => by
    simp only [List.flatten_cons, List.flatten_nil, List.append_nil, List.dropLast_singleton] at hshort hroom ⊢
    rcases h.next hurl hlen x hroom with ⟨h₁, -, hrun⟩ | ⟨hfit, -⟩ | ⟨-, h₁, c', hrun, -⟩
    · rw [deliver, hrun, if_pos h₁]
    · omega
    · rw [deliver, hrun, if_neg (by omega)]
      rfl
  | x :: y :: rest, c, d, t, _, h, hshort, hroom => by
    have hcons : d ++ (x :: y :: rest).flatten = (d ++ x) ++ (y :: rest).flatten := by simp
    have hlast : d ++ (x :: y :: rest).dropLast.flatten = (d ++ x) ++ (y :: rest).dropLast.flatten := by
      simp [List.dropLast]
    rw [hcons] at hshort hroom
    rw [hcons, hlast]
    have hx : (d ++ x).length ≤ ((d ++ x) ++ (y :: rest).flatten).length := by simp
    rcases h.next hurl hlen x (by omega) with ⟨h₁, -, hrun⟩ | ⟨hfit, -⟩ | ⟨-, -, c', hrun, h'⟩
    · have hl := lastLine_le_passed (d ++ x)
      have hmono : passed d ≤ passed (d ++ x) := by rw [passed_append]; omega
      have hmono' : passed (d ++ x) ≤ passed ((d ++ x) ++ (y :: rest).dropLast.flatten) := by
        rw [passed_append (d ++ x)]; omega
      rw [deliver, hrun, if_pos (by omega)]
    · omega
    · rw [deliver, hrun]
      exact InBody.deliver_short hurl hlen (y :: rest) (List.cons_ne_nil _ _) h' hshort hroom

/-! ## The body as a whole -/

/-- The first call in a body whose declared length is negative takes what has arrived for it, and
    overwrites a byte before it. -/
theorem InBody.call_negative (h : InBody b c d 0 0) (hurl : UrlEnds b.checkedIdx b)
    (hlen : b.contentLength < 0) (hroom : b.checkedIdx + d.length < readBufferSize)
    (hzero : c.readBuf (b.checkedIdx + d.length) = 0) :
    if b.checkedIdx + b.contentLength < 0 then c.readLoop = .error .outOfBounds
    else ∃ c', c.readLoop = .ok (.doRequest, c') ∧ c'.view =
      (b.put (b.checkedIdx + b.contentLength).toNat 0).viewBody (cword d) := by
  have hmax : (readBufferSize : Int) < longMax := by decide
  have hstop : (b.checkedIdx : Int) + (0 : Nat) + b.contentLength = b.checkedIdx + b.contentLength := by omega
  have hparse := h.parse
  rw [if_neg (by omega), if_pos (by omega), hstop] at hparse
  split
  · rename_i hneg
    rw [readLoop_eq, readFrom_eq, h.turn, hparse, if_neg (by omega)]
    rfl
  · -- a NUL is put in front of the body, into the head or the URL
    rename_i hneg
    let c' : HttpConn := { ({ c with startLine := c.checkedIdx } : HttpConn).put
      (b.checkedIdx + b.contentLength).toNat 0 with string := some c.startLine }
    refine ⟨c', ?_, ?_⟩
    · rw [readLoop_eq, readFrom_eq, h.turn, hparse, if_pos ⟨by omega, by omega⟩]
      rfl
    · have hstr : ∀ u, c.url = some u →
          c'.str u = (b.put (b.checkedIdx + b.contentLength).toNat 0).str u := by
        intro u hu
        obtain ⟨q, hq, hqe, h0⟩ := hurl u (h.url ▸ hu)
        have hterm : (b.put (b.checkedIdx + b.contentLength).toNat 0).readBuf.Terminated u b.checkedIdx := by
          refine ⟨q, hq, hqe, ?_⟩
          by_cases hqp : q = (b.checkedIdx + b.contentLength).toNat
          · rw [hqp]; exact Mem.put_self ..
          · exact (Mem.put_ne _ _ hqp).trans h0
        refine (Mem.cstr_congr hterm (fun i _ hi => ?_) _).symm
        show b.readBuf.put _ 0 i = c.readBuf.put _ 0 i
        by_cases hip : i = (b.checkedIdx + b.contentLength).toNat
        · rw [hip, Mem.put_self, Mem.put_self]
        · rw [Mem.put_ne _ _ hip, Mem.put_ne _ _ hip, h.below i hi]
      have hbody : c'.str c.startLine = cword d := by
        rw [h.start, Nat.add_zero]
        refine Mem.cstr_of_slice (w := d) ?_ ?_ (by omega)
        · have htext := h.text
          rw [Nat.add_zero, Nat.sub_zero, List.drop_zero] at htext
          refine (Mem.slice_congr fun i hi _ => ?_).trans htext
          exact Mem.put_ne _ _ (by omega)
        · rw [← hzero]
          exact Mem.put_ne _ _ (by omega)
      have hmap : c.url.map c'.str =
          b.url.map (b.put (b.checkedIdx + b.contentLength).toNat 0).str := by
        rw [← h.url]
        exact Option.map_congr hstr
      have hs' : c'.checkState = .content := h.state
      simp only [view, viewBody, if_pos hs', View.mk.injEq]
      exact ⟨h.cgi, hmap, h.linger, h.contentLength, congrArg some hbody⟩

theorem viewBody_inj {w w' : List Byte} : b.viewBody w = b.viewBody w' ↔ w = w' := by
  simp [viewBody]

/-- The body as it is delivered, from the call that enters it on. -/
theorem InBody.deliver_pos (h : InBody b c d 0 0) (hurl : UrlEnds b.checkedIdx b)
    (hlen : 0 < b.contentLength) (rest : List (List Byte))
    (hroom : b.checkedIdx + (d ++ rest.flatten).length < readBufferSize) :
    c.deliver ([] :: rest) =
      if b.contentLength ≤ (d ++ rest.flatten).length then
        .ok ((taken b.contentLength [] [] (d :: rest)).map fun t =>
          (.doRequest, b.viewBody (cword (((d ++ rest.flatten).drop t).take b.contentLength.toNat))))
      else if longMax < b.contentLength + b.checkedIdx +
        max (passed (d :: rest).dropLast.flatten) (lastLine (d ++ rest.flatten)) then .error .overflow
      else .ok none := by
  have hd : d.length ≤ (d ++ rest.flatten).length := by simp
  have hmax : (readBufferSize : Int) * 3 < longMax := by decide
  have hnil : passed [] = 0 := rfl
  have hnil' : lastLine [] = 0 := rfl
  have hlast : rest ≠ [] → (d :: rest).dropLast.flatten = d ++ rest.dropLast.flatten := fun hne => by
    rw [List.dropLast_cons_of_ne_nil hne, List.flatten_cons]
  have hcall := h.call hurl hlen (by omega)
  rw [List.drop_zero, Nat.zero_add, show (if lastLine d = 0 then 0 else 0 + lastLine d) =
    max (passed []) (lastLine d) by rw [hnil]; split <;> omega] at hcall
  have hl := lastLine_le_passed d
  rw [deliver, receive_nil, taken, hnil, hnil', List.nil_append]
  rcases hcall with ⟨h₁, -, hrun⟩ | ⟨hfit, c', hrun, hview⟩ | ⟨hshort, h₁, c', hrun, h'⟩
  · -- the first call overflows, and so does the whole
    have hover : lastLine d ≤ max (passed (d :: rest).dropLast.flatten) (lastLine (d ++ rest.flatten)) := by
      by_cases hne : rest = []
      · rw [hne, List.flatten_nil, List.append_nil]; omega
      · have hmono : passed d ≤ passed (d ++ rest.dropLast.flatten) := by rw [passed_append]; omega
        rw [hlast hne]
        omega
    have hp := passed_le d
    rw [hrun, if_neg (by omega), if_pos (by omega)]
  · rw [hrun, if_pos (by omega), if_pos (by omega)]
    simp only [hview, Option.map_some]
    rw [take_drop_append (by omega)]
    rfl
  · rw [hrun, if_neg (show ¬ b.contentLength + (0 : Nat) ≤ d.length by omega)]
    simp only
    split
    · rename_i harrived
      exact h'.deliver_arrived hurl hlen rest harrived hroom
    · rename_i hshort'
      by_cases hne : rest = []
      · subst hne
        rw [List.flatten_nil, List.append_nil, List.dropLast_singleton, List.flatten_nil, hnil,
          if_neg (by omega)]
        rfl
      · rw [hlast hne]
        exact h'.deliver_short hurl hlen rest hne (by omega) hroom

end

end HttpConn
end Http
end LinuxServer
