import LinuxServer.HttpServer.ContentLength

/-!
# `HttpServer/Serve.lean` — the loop of the connection thread

`do { read; push_chunk } while (need_more_chunk())`. What a client sends comes in pieces, and when it
has come, every `read` returns 0: the loop then pushes empty chunks, and it is the parser alone that
ends it. An empty chunk adds nothing to a header or to a body, but the first of them may show that the
header has ended, its last chunk having been heard twice. So the loop ends when the request has arrived
with the pieces and one empty chunk (`Arrives`), and else it goes round for ever (`ends_iff`).
-/

set_option autoImplicit false

namespace LinuxServer
namespace HttpServer

instance (field : List Byte) : Decidable (Convertible field) := inferInstanceAs (Decidable (_ ∧ _))

/-- How long a body has to be, to be complete whatever the memory holds: with a field that is not
    converted, as long as a `size_t` may say. -/
def lengthNeeded : Option (List Byte) → Nat
  | none => 0
  | some field => if Convertible field then digits (field.takeWhile isdigit) else 2 ^ 64 - 1

/-- The request has arrived with these chunks, `w` being heard before: the end of its header, and as
    many bytes behind it as its body needs. -/
def Arrives (w : List Byte) (chunks : List (List Byte)) : Prop :=
  ended w chunks = true ∧ ∃ pos, find blankLine (heard w chunks) = some pos ∧
    pos + 4 + lengthNeeded (contentLengthField ((heard w chunks).take pos)) ≤ (heard w chunks).length

theorem arrives_open {w x : List Byte} (h : find blankLine (w ++ x) = none) (rest : List (List Byte)) :
    Arrives w (x :: rest) ↔ Arrives (w ++ x ++ x) rest := by
  simp only [Arrives, ended, heard, h, if_true]

theorem arrives_ends {w x : List Byte} {pos : Nat} (h : find blankLine (w ++ x) = some pos)
    (rest : List (List Byte)) : Arrives w (x :: rest) ↔
      lengthNeeded (contentLengthField ((w ++ x).take pos)) ≤
        ((w ++ x).drop (pos + 4)).length + rest.flatten.length := by
  have hlen := find_length h
  rw [show blankLine.length = 4 by decide] at hlen
  have htake : (w ++ x ++ rest.flatten).take pos = (w ++ x).take pos :=
    List.take_append_of_le_length (by omega)
  simp only [Arrives, ended, heard, h, reduceCtorEq, if_false, find_append h, Option.some.injEq,
    exists_eq_left', htake, true_and, List.length_drop, List.length_append]
  rw [List.length_append] at hlen
  omega

theorem not_arrives_nil (w : List Byte) : ¬ Arrives w [] := fun h => by cases h.1

/-! ## The loop -/

/-- `read(connid, buf, sizeof(buf))`: the next piece, and no bytes when all have come. -/
def read : List (List Byte) → List Byte × List (List Byte)
  | [] => ([], [])
  | piece :: pieces => (piece, pieces)

/-- The parser, the pieces that are to come, and how many turns were made. -/
structure Serving where
  reqParse : HttpRequestParser
  pieces : List (List Byte)
  turn : Nat

/-- One turn of the loop: `read`, `push_chunk`, `need_more_chunk`. The memory of `_extract_content_length`
    may hold something else in each. -/
def serveStep (memory : Nat → UInt64) (s : Serving) : Except Fault (HttpRequestParser ⊕ Serving) := do
  let (chunk, pieces) := read s.pieces
  let reqParse ← s.reqParse.pushChunkIn chunk (memory s.turn)
  if reqParse.needMoreChunk then return .inr ⟨reqParse, pieces, s.turn + 1⟩
  else return .inl reqParse

/-- The loop comes to an end, in so many turns as it takes. -/
def Returns (memory : Nat → UInt64) (s : Serving) : Prop :=
  ∃ n reqParse, whileLoop (serveStep memory) n s = .ok reqParse

/-- The loop of a thread ends whatever the memory holds, a client having sent these pieces. -/
def Ends (pieces : List (List Byte)) : Prop :=
  ∀ memory, Returns memory ⟨HttpRequestParser.fresh, pieces, 0⟩

theorem returns_of_inl {memory : Nat → UInt64} {s : Serving} {reqParse : HttpRequestParser}
    (h : serveStep memory s = .ok (.inl reqParse)) : Returns memory s :=
  ⟨1, reqParse, by rw [whileLoop, h]⟩

theorem returns_of_inr {memory : Nat → UInt64} {s s' : Serving} (h : serveStep memory s = .ok (.inr s'))
    (hreturns : Returns memory s') : Returns memory s := by
  obtain ⟨n, reqParse, hloop⟩ := hreturns
  exact ⟨n + 1, reqParse, by rw [whileLoop, h]; exact hloop⟩

namespace HttpRequestParser

/-! ## What a turn does -/

/-- What the parser takes for the length is never more than is needed, -/
theorem extractContentLengthIn_le (keys : StringMap) (val : UInt64) :
    extractContentLengthIn keys val ≤ lengthNeeded (keys (bytes "content-length")) := by
  unfold extractContentLengthIn lengthNeeded
  cases keys (bytes "content-length") with
  | none => exact Nat.le_refl _
  | some field =>
    have hval : val.toNat < 2 ^ 64 := val.toNat_lt
    by_cases hconv : Convertible field
    · simp only [fromChars_eq_some_iff.mpr ⟨hconv, rfl⟩, Option.getD_some, hconv, if_true, Nat.le_refl]
    · simp only [fromChars_eq_none_iff.mpr hconv, Option.getD_none, hconv, if_false]
      omega

/-- and with ones in the memory it is that. -/
theorem extractContentLengthIn_ones (keys : StringMap) :
    extractContentLengthIn keys (-1) = lengthNeeded (keys (bytes "content-length")) := by
  unfold extractContentLengthIn lengthNeeded
  cases keys (bytes "content-length") with
  | none => rfl
  | some field =>
    by_cases hconv : Convertible field
    · simp only [fromChars_eq_some_iff.mpr ⟨hconv, rfl⟩, Option.getD_some, hconv, if_true]
    · simp only [fromChars_eq_none_iff.mpr hconv, Option.getD_none, hconv, if_false]
      rfl

variable {keys : StringMap} {body : List Byte} {p : HttpRequestParser}

theorem Collecting.checkBodyIn_done (h : Collecting keys body p) (val : UInt64)
    (hle : extractContentLengthIn keys val ≤ body.length) : (p.checkBodyIn val).needMoreChunk = false := by
  rw [← h.keys_eq, ← h.body_eq] at hle
  simp only [checkBodyIn, hle, if_true, needMoreChunk, Bool.not_true]

theorem Collecting.checkBodyIn_more (h : Collecting keys body p) (val : UInt64)
    (hlt : body.length < extractContentLengthIn keys val) :
    (p.checkBodyIn val).needMoreChunk = true ∧ Collecting keys body (p.checkBodyIn val) := by
  rw [← h.keys_eq, ← h.body_eq] at hlt
  simp only [checkBodyIn, Nat.not_le_of_lt hlt, if_false]
  exact ⟨by rw [needMoreChunk, h.more]; rfl, h.finished, h.keys_eq, h.body_eq, h.more⟩

end HttpRequestParser

open HttpRequestParser

variable (memory : Nat → UInt64) {p q : HttpRequestParser} (pieces : List (List Byte)) {n : Nat}

theorem serveStep_done (h : p.pushChunkIn (read pieces).1 (memory n) = .ok q)
    (hdone : q.needMoreChunk = false) : serveStep memory ⟨p, pieces, n⟩ = .ok (.inl q) := by
  simp only [serveStep, h, hdone, bind, Except.bind, Bool.false_eq_true, if_false]
  rfl

theorem serveStep_more (h : p.pushChunkIn (read pieces).1 (memory n) = .ok q)
    (hmore : q.needMoreChunk = true) :
    serveStep memory ⟨p, pieces, n⟩ = .ok (.inr ⟨q, (read pieces).2, n + 1⟩) := by
  simp only [serveStep, h, hmore, bind, Except.bind, if_true]
  rfl

/-- A turn with which the header does not end. -/
theorem serveStep_open (n : Nat) {w : List Byte} (h : find blankLine (w ++ (read pieces).1) = none) :
    serveStep memory ⟨unfinished w, pieces, n⟩ =
      .ok (.inr ⟨unfinished (w ++ (read pieces).1 ++ (read pieces).1), (read pieces).2, n + 1⟩) :=
  serveStep_more memory pieces (pushChunkIn_of_ok (pushChunk_open h) (memory n)) rfl

/-- No byte is lost between two reads. -/
theorem read_flatten : ∀ pieces : List (List Byte), (read pieces).1 ++ (read pieces).2.flatten = pieces.flatten
  | [] => rfl
  | _ :: _ => rfl

/-! ## With the request arriving, the loop ends -/

theorem returns_collecting {keys : StringMap} :
    ∀ (pieces : List (List Byte)) {body : List Byte} {p : HttpRequestParser} (_ : Collecting keys body p)
      (_ : lengthNeeded (keys (bytes "content-length")) ≤ body.length + pieces.flatten.length) (n : Nat),
      Returns memory ⟨p, pieces, n⟩
  | [], body, p, h, hle, n => by
    obtain ⟨q, hq, hpush⟩ := h.pushChunkIn []
    have hdone := hq.checkBodyIn_done (memory n) (by
      have := extractContentLengthIn_le keys (memory n)
      rw [List.append_nil]
      exact this.trans hle)
    exact returns_of_inl (serveStep_done memory [] (hpush _) hdone)
  | x :: pieces, body, p, h, hle, n => by
    obtain ⟨q, hq, hpush⟩ := h.pushChunkIn x
    rw [List.flatten_cons, List.length_append] at hle
    rcases Nat.lt_or_ge (body ++ x).length (extractContentLengthIn keys (memory n)) with hlt | hge
    · obtain ⟨hmore, hcollecting⟩ := hq.checkBodyIn_more _ hlt
      refine returns_of_inr (serveStep_more memory (x :: pieces) (hpush _) hmore) ?_
      refine returns_collecting pieces hcollecting ?_ _
      rw [List.length_append]
      omega
    · exact returns_of_inl (serveStep_done memory (x :: pieces) (hpush _) (hq.checkBodyIn_done _ hge))

/-- The turn in which the header ends. -/
theorem returns_ends {w : List Byte} {pos : Nat}
    (h : find blankLine (w ++ (read pieces).1) = some pos)
    (hle : lengthNeeded (contentLengthField ((w ++ (read pieces).1).take pos)) ≤
      ((w ++ (read pieces).1).drop (pos + 4)).length + (read pieces).2.flatten.length) (n : Nat) :
    Returns memory ⟨unfinished w, pieces, n⟩ := by
  obtain ⟨keys, q, hkeys, hq, hpush⟩ := pushChunkIn_ends h
  rw [hkeys] at hle
  rcases Nat.lt_or_ge ((w ++ (read pieces).1).drop (pos + 4)).length
    (extractContentLengthIn keys (memory n)) with hlt | hge
  · obtain ⟨hmore, hcollecting⟩ := hq.checkBodyIn_more _ hlt
    refine returns_of_inr (serveStep_more memory pieces (hpush _) hmore) ?_
    exact returns_collecting memory _ hcollecting hle _
  · exact returns_of_inl (serveStep_done memory pieces (hpush _) (hq.checkBodyIn_done _ hge))

theorem returns_of_arrives : ∀ (pieces : List (List Byte)) (w : List Byte) (n : Nat),
    Arrives w (pieces ++ [[]]) → Returns memory ⟨unfinished w, pieces, n⟩
  | [], w, n, h => by
    cases hfind : find blankLine (w ++ []) with
    | none => exact absurd ((arrives_open hfind []).mp h) (not_arrives_nil _)
    | some pos => exact returns_ends memory [] hfind ((arrives_ends hfind []).mp h) n
  | x :: pieces, w, n, h => by
    rw [List.cons_append] at h
    cases hfind : find blankLine (w ++ x) with
    | none =>
      have hrest := returns_of_arrives pieces (w ++ x ++ x) (n + 1) ((arrives_open hfind _).mp h)
      exact returns_of_inr (serveStep_open memory (x :: pieces) n hfind) hrest
    | some pos =>
      have hle := (arrives_ends hfind _).mp h
      rw [List.flatten_append, List.flatten_singleton, List.append_nil] at hle
      exact returns_ends memory (x :: pieces) hfind hle n

/-! ## Without it, with ones in the memory, it does not -/

/-- A loop that has not ended and will not: the header will not end, or the body is not long enough
    with all that is still to come. -/
inductive Stuck : Serving → Prop
  | header (w : List Byte) (pieces : List (List Byte)) (n : Nat) (h : ¬ Arrives w (pieces ++ [[]])) :
    Stuck ⟨unfinished w, pieces, n⟩
  | body {keys : StringMap} {body : List Byte} {p : HttpRequestParser} (h : Collecting keys body p)
    (pieces : List (List Byte)) (n : Nat)
    (hlt : body.length + pieces.flatten.length < lengthNeeded (keys (bytes "content-length"))) :
    Stuck ⟨p, pieces, n⟩

/-- A turn in which the body is not complete. -/
theorem Collecting.waits {keys : StringMap} {body : List Byte} {p q : HttpRequestParser}
    (h : Collecting keys body q) (pieces : List (List Byte)) (n : Nat)
    (hpush : p.pushChunkIn (read pieces).1 (-1) = .ok (q.checkBodyIn (-1)))
    (hlt : body.length + (read pieces).2.flatten.length < lengthNeeded (keys (bytes "content-length"))) :
    ∃ s, serveStep (fun _ => -1) ⟨p, pieces, n⟩ = .ok (.inr s) ∧ Stuck s := by
  obtain ⟨hmore, hcollecting⟩ := h.checkBodyIn_more (-1) (by
    rw [extractContentLengthIn_ones]
    omega)
  exact ⟨_, serveStep_more (fun _ => -1) pieces hpush hmore, .body hcollecting _ _ hlt⟩

theorem stuck_ends (pieces : List (List Byte)) (n : Nat) {w : List Byte} {pos : Nat}
    (hfind : find blankLine (w ++ (read pieces).1) = some pos)
    (hlt : ¬ lengthNeeded (contentLengthField ((w ++ (read pieces).1).take pos)) ≤
      ((w ++ (read pieces).1).drop (pos + 4)).length + (read pieces).2.flatten.length) :
    ∃ s, serveStep (fun _ => -1) ⟨unfinished w, pieces, n⟩ = .ok (.inr s) ∧ Stuck s := by
  obtain ⟨keys, q, hkeys, hq, hpush⟩ := pushChunkIn_ends hfind
  rw [hkeys] at hlt
  exact Collecting.waits hq pieces n (hpush _) (by omega)

/-- **A turn of a stuck loop** goes on, and leaves it stuck. -/
theorem Stuck.step {s : Serving} (h : Stuck s) :
    ∃ s', serveStep (fun _ => -1) s = .ok (.inr s') ∧ Stuck s' := by
  cases h with
  | body h pieces n hlt =>
    obtain ⟨q, hq, hpush⟩ := h.pushChunkIn (read pieces).1
    refine Collecting.waits hq pieces n (hpush _) ?_
    rw [← read_flatten, List.length_append] at hlt
    rw [List.length_append]
    omega
  | header w pieces n h =>
    cases pieces with
    | nil =>
      cases hfind : find blankLine (w ++ []) with
      | none =>
        -- nothing was heard, and nothing will be
        have hstay : w ++ [] ++ [] = w := by rw [List.append_nil, List.append_nil]
        have hstuck : Stuck ⟨unfinished (w ++ [] ++ []), [], n + 1⟩ := by
          rw [hstay]
          exact .header w [] _ h
        exact ⟨_, serveStep_open (fun _ => -1) [] n hfind, hstuck⟩
      | some pos => exact stuck_ends [] n hfind fun hle => h ((arrives_ends hfind []).mpr hle)
    | cons x pieces =>
      rw [List.cons_append] at h
      cases hfind : find blankLine (w ++ x) with
      | none =>
        refine ⟨_, serveStep_open (fun _ => -1) (x :: pieces) n hfind, ?_⟩
        exact .header _ pieces _ fun harrives => h ((arrives_open hfind _).mpr harrives)
      | some pos =>
        refine stuck_ends (x :: pieces) n hfind fun hle => h ((arrives_ends hfind _).mpr ?_)
        rwa [List.flatten_append, List.flatten_singleton, List.append_nil]

theorem Stuck.not_returns {s : Serving} (h : Stuck s) : ¬ Returns (fun _ => -1) s := by
  rintro ⟨n, reqParse, hloop⟩
  refine whileLoop_invariant (P := Stuck) (Q := fun _ => False) ?_ ?_ h hloop
  · intro s s' hs hstep
    obtain ⟨s'', hstep', hs''⟩ := hs.step
    rw [hstep] at hstep'
    cases hstep'
    exact hs''
  · intro s a hs hstep
    obtain ⟨s'', hstep', -⟩ := hs.step
    rw [hstep] at hstep'
    cases hstep'

/-- **When the loop ends**: when the request has arrived with the pieces and one empty read. -/
theorem ends_iff (pieces : List (List Byte)) : Ends pieces ↔ Arrives [] (pieces ++ [[]]) := by
  constructor
  · intro h
    by_contra hno
    exact (Stuck.header [] pieces 0 hno).not_returns (h _)
  · exact fun h memory => returns_of_arrives memory pieces [] 0 h

/-- A client that sends its request line and closes: the thread reads nothing for ever. -/
theorem not_ends_request : ¬ Ends [bytes "GET / HTTP/1.1\r\n"] := by
  intro h
  refine (Stuck.header [] [bytes "GET / HTTP/1.1\r\n"] 0 fun harrives => ?_).not_returns (h _)
  have hended : ended [] ([bytes "GET / HTTP/1.1\r\n"] ++ [[]]) = false := by decide +kernel
  rw [harrives.1] at hended
  cases hended

end HttpServer
end LinuxServer
