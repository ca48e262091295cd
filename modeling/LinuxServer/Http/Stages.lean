import LinuxServer.Http.Body
import Mathlib.Data.List.Basic
import Mathlib.Data.List.TakeWhile

/-!
# `Http/Stages.lean` — how far a request has come, were there no end to the buffer

`Stage` is what `process_read` knows of a request between two reads, as a function of the bytes: the
line that is being received, byte by byte, or the body. `Stage.read` is one more read. A stage has no
buffer, so it can be asked what would come of it if any number of bytes followed; as far as the
buffer reaches, it is what the code does (`Http/Progress.lean`).

A CR that no LF follows, and a LF that no CR precedes, leave a stage for good (`.malformed`): the loop
of `process_read` ends as it does for want of more bytes, whatever is received.

`Stage.Open` says of a stage, without a look at what follows, whether a verdict can still be had, and
`reads_verdict_iff` that it is right: one read more leaves no stage that is not open open
(`open_of_read`), and from one that is open it takes a few reads to the verdict (`Stage.Open.completes`).
-/

set_option autoImplicit false

namespace LinuxServer
namespace Http

/-- What the line that is being received is: the request line, or a header line, behind `start` bytes
    and with `length` declared before it. -/
inductive Part
  | request
  | headers (start : Nat) (length : Int)
  deriving DecidableEq, Repr

/-- Between two reads: a line of which `text` was received, and its CR if it has `ended`; a line that
    is none; a body of declared length, behind `start` bytes, of which `d` was received; or the end. -/
inductive Stage
  | line (part : Part) (text : List Byte) (ended : Bool)
  | malformed
  | body (start : Nat) (length : Int) (d : List Byte)
  | verdict
  | fault
  deriving DecidableEq, Repr

/-- What is behind a line. -/
inductive Next
  | line (part : Part)
  | body (start : Nat) (length : Int)
  | verdict
  | fault
  deriving DecidableEq, Repr

/-- `parse_request_line` and `parse_headers`, on the text of a line. -/
def Part.next : Part → List Byte → Next
  | .request, text =>
    if acceptsLine (cword text) then .line (.headers (text.length + 2) 0)
    else if lacksPath (cword text) then .fault
    else .verdict
  | .headers start length, text =>
    if cword text = [] then
      if length ≠ 0 then .body (start + text.length + 2) length else .verdict
    else .line (.headers (start + text.length + 2) (declared (cword text) length))

/-- `parse_content`, `past` bytes of the body counted twice; and what `parse_line` makes of a body that
    is not all there. -/
def content (start : Nat) (length : Int) (past : Nat) (d : List Byte) : Stage :=
  if longMax < length + start + past then .fault
  else if length + past ≤ d.length then if start + length < 0 then .fault else .verdict
  else if longMax < length + start + past + lastLine (d.drop past) then .fault
  else .body start length d

/-- The bytes of a read, in a line. -/
def readLine : Part → List Byte → Bool → List Byte → Stage
  | part, text, ended, [] => .line part text ended
  | part, text, true, b :: x =>
    if b = lf then
      match part.next text with
      | .line part => readLine part [] false x
      | .body start length => content start length 0 x
      | .verdict => .verdict
      | .fault => .fault
    else .malformed
  | part, text, false, b :: x =>
    if b = cr then readLine part text true x
    else if b = lf then .malformed
    else readLine part (text ++ [b]) false x

namespace Stage

def read : Stage → List Byte → Stage
  | .line part text ended, x => readLine part text ended x
  | .body start length d, x => content start length (passed d) (d ++ x)
  | s, _ => s

/-- Read by read, the last first. -/
def reads (s : Stage) : List (List Byte) → Stage
  | [] => s
  | x :: h => (s.reads h).read x

@[simp] theorem reads_nil (s : Stage) : s.reads [] = s := rfl

@[simp] theorem reads_cons (s : Stage) (x : List Byte) (h : List (List Byte)) :
    s.reads (x :: h) = (s.reads h).read x := rfl

theorem reads_append (s : Stage) (more h : List (List Byte)) :
    s.reads (more ++ h) = (s.reads h).reads more := by
  induction more with
  | nil => rfl
  | cons x more ih => rw [List.cons_append, reads_cons, reads_cons, ih]

/-- The head is being received. -/
def InHead : Stage → Prop
  | .line .. | .malformed => True
  | _ => False

end Stage

/-- What a connection has come to that was given these reads, the last first. -/
def stage (h : List (List Byte)) : Stage := (Stage.line .request [] false).reads h

/-- The bytes behind a line, in the read that ends it. -/
def Next.behind : Next → List Byte → Stage
  | .line part, x => readLine part [] false x
  | .body start length, x => content start length 0 x
  | .verdict, _ => .verdict
  | .fault, _ => .fault

section
variable {part : Part} {text : List Byte} {ended : Bool} {w x : List Byte}

theorem readLine_lf : readLine part text true (lf :: x) = (part.next text).behind x := by
  rw [readLine, if_pos rfl]
  cases part.next text <;> rfl

/-! ## Where the head ends -/

/-- Bytes of a line that do not end it. -/
theorem readLine_text {line : List Byte} (h : ∀ b ∈ line, b ≠ cr ∧ b ≠ lf) (part : Part) (text x : List Byte) :
    readLine part text false (line ++ x) = readLine part (text ++ line) false x := by
  induction line generalizing text with
  | nil => rw [List.nil_append, List.append_nil]
  | cons b line ih =>
    obtain ⟨hcr, hlf⟩ := h b List.mem_cons_self
    rw [List.cons_append, readLine, if_neg hcr, if_neg hlf,
      ih (fun b' hb' => h b' (List.mem_cons_of_mem _ hb')), List.append_assoc, List.singleton_append]

/-- A line that ends is followed by what `Part.next` says. -/
theorem readLine_ok (h : (scanLine w).1 = .lineOk) :
    readLine part [] false w =
      (part.next (w.take ((scanLine w).2 - 2))).behind (w.drop (scanLine w).2) := by
  obtain ⟨line, rest, hw, hk, hline⟩ := scanLine_ok h
  rw [hk, Nat.add_sub_cancel, hw, List.take_left, readLine_text hline, List.nil_append, readLine, if_pos rfl,
    readLine_lf]
  congr 1
  rw [List.drop_append, List.drop_eq_nil_of_le (Nat.le_add_right _ _), List.nil_append,
    Nat.add_sub_cancel_left]
  rfl

/-- One that does not is still being received. -/
theorem readLine_inHead (h : (scanLine w).1 ≠ .lineOk) (part : Part) (text : List Byte) :
    (readLine part text false w).InHead := by
  induction w generalizing text with
  | nil => trivial
  | cons b w ih =>
    rw [readLine]
    split
    · rename_i hcr
      rw [scanLine, if_pos hcr] at h
      cases w with
      | nil => trivial
      | cons b' w =>
        rw [lineEnd] at h
        rw [readLine]
        split
        · rename_i hlf
          rw [if_pos hlf] at h
          exact absurd rfl h
        · trivial
    · split
      · trivial
      · rename_i hcr hlf
        apply ih
        rw [scanLine_cons hcr hlf] at h
        exact h

/-- The stage that the end of the head says. -/
def HeadEnd.Leads : HeadEnd → (start : Nat) → (w : List Byte) → Stage → Prop
  | .pending, _, _, s => s.InHead
  | .bodyless, _, _, s => s = .verdict
  | .body k length, start, w, s => s = content (start + k) length 0 (w.drop k)

theorem HeadEnd.Leads.shift {e : HeadEnd} {k start : Nat} {s : Stage}
    (h : e.Leads (start + k) (w.drop k) s) : (e.shift k).Leads start w s := by
  cases e with
  | pending => exact h
  | bodyless => exact h
  | body j length =>
    rw [HeadEnd.Leads, List.drop_drop, Nat.add_assoc] at h
    exact h

/-- **The header lines.** -/
theorem headersEnd_leads (n : Nat) : ∀ {start : Nat} {length : Int} {w : List Byte}, w.length ≤ n →
    (headersEnd n length w).Leads start w (readLine (.headers start length) [] false w) := by
  induction n with
  | zero =>
    intro start length w hn
    have hnil : w = [] := List.length_eq_zero_iff.mp (Nat.le_zero.mp hn)
    subst hnil
    trivial
  | succ n ih =>
    intro start length w hn
    rw [headersEnd]
    by_cases hok : (scanLine w).1 = .lineOk
    · obtain ⟨line, rest, hw, hk, -⟩ := scanLine_ok hok
      have hle := scanLine_le w
      have htake : (w.take ((scanLine w).2 - 2)).length = (scanLine w).2 - 2 := by
        rw [List.length_take]
        omega
      have hstart : start + (w.take ((scanLine w).2 - 2)).length + 2 = start + (scanLine w).2 := by
        rw [htake]
        omega
      rw [readLine_ok hok, Part.next, hstart]
      simp only [hok, if_true]
      split
      · split
        · rfl
        · rfl
      · apply HeadEnd.Leads.shift
        apply ih
        rw [List.length_drop]
        omega
    · simp only [if_neg hok]
      exact readLine_inHead hok _ _

/-- **The head**, as a stage. -/
theorem headEnd_stage (w : List Byte) :
    match headEnd w with
    | .pending => (readLine .request [] false w).InHead
    | .bodyless => readLine .request [] false w =
        if lacksPath (cword (w.take ((scanLine w).2 - 2))) then .fault else .verdict
    | .body k length => readLine .request [] false w = content k length 0 (w.drop k) := by
  unfold headEnd
  by_cases hok : (scanLine w).1 = .lineOk
  · obtain ⟨line, rest, hw, hk, -⟩ := scanLine_ok hok
    have hle := scanLine_le w
    have hstart : (w.take ((scanLine w).2 - 2)).length + 2 = (scanLine w).2 := by
      rw [List.length_take]
      omega
    simp only [hok, if_true]
    rw [readLine_ok hok, Part.next, hstart]
    by_cases hacc : acceptsLine (cword (w.take ((scanLine w).2 - 2))) = true
    · have hpath : lacksPath (cword (w.take ((scanLine w).2 - 2))) = false := by
        refine Bool.eq_false_iff.mpr fun hlacks => ?_
        rw [acceptsLine_of_lacksPath hlacks] at hacc
        cases hacc
      -- the header lines, from behind the request line on
      simp only [hacc, if_true, hpath, Bool.false_eq_true, if_false]
      have hshort : (w.drop (scanLine w).2).length ≤ w.length := by
        rw [List.length_drop]
        exact Nat.sub_le _ _
      have hleads : (headersEnd w.length 0 (w.drop (scanLine w).2)).Leads (scanLine w).2 (w.drop (scanLine w).2)
          (readLine (.headers (scanLine w).2 0) [] false (w.drop (scanLine w).2)) := headersEnd_leads w.length hshort
      cases hend : headersEnd w.length 0 (w.drop (scanLine w).2) with
      | pending =>
        rw [hend] at hleads
        exact hleads
      | bodyless =>
        rw [hend] at hleads
        exact hleads
      | body k length =>
        rw [hend, HeadEnd.Leads, List.drop_drop] at hleads
        exact hleads
    · -- no request line: answered, or a fault on its path
      simp only [if_neg hacc]
      split <;> rfl
  · simp only [if_neg hok]
    exact readLine_inHead hok _ _

/-! ## Read by read -/

/-- In the head it makes no difference where a read ends. -/
theorem readLine_append (h : (readLine part text ended w).InHead) (x : List Byte) :
    readLine part text ended (w ++ x) = (readLine part text ended w).read x := by
  induction w generalizing part text ended with
  | nil => rw [List.nil_append]; cases ended <;> rfl
  | cons b w ih =>
    rw [List.cons_append]
    cases ended with
    | true =>
      rw [readLine] at h ⊢
      by_cases hlf : b = lf
      · -- the line is over, and `w` is read in the part behind it
        rw [if_pos hlf] at h
        rw [if_pos hlf, hlf, readLine_lf]
        cases hnext : part.next text with
        | line part' =>
          simp only [hnext] at h
          exact ih h
        | body start length =>
          simp only [hnext, content] at h
          repeat' split at h
          all_goals exact h.elim
        | verdict => rfl
        | fault => rfl
      · rw [if_neg hlf, readLine, if_neg hlf]
        rfl
    | false =>
      rw [readLine] at h ⊢
      rw [readLine]
      split
      · rename_i hcr
        rw [if_pos hcr] at h
        exact ih h
      · rename_i hcr
        rw [if_neg hcr] at h
        split
        · rfl
        · rename_i hlf
          rw [if_neg hlf] at h
          exact ih h

/-- A CR that no LF follows, or a LF that no CR precedes, behind a CR if a line has `ended`. -/
def brokenLine : (ended : Bool) → List Byte → Bool
  | _, [] => false
  | true, b :: w => if b = lf then brokenLine false w else true
  | false, b :: w => if b = cr then brokenLine true w else if b = lf then true else brokenLine false w

/-- **Such a line leaves the stage for good**, and nothing else does. -/
theorem readLine_malformed (h : (readLine part text ended w).InHead) :
    readLine part text ended w = .malformed ↔ brokenLine ended w = true := by
  induction w generalizing part text ended with
  | nil => cases ended <;> simp [readLine, brokenLine]
  | cons b w ih =>
    cases ended with
    | true =>
      rw [brokenLine]
      by_cases hlf : b = lf
      · -- whatever part comes next, its first line begins with `w`
        rw [hlf, readLine_lf] at h ⊢
        rw [if_pos rfl]
        cases hnext : part.next text with
        | line part' =>
          rw [hnext] at h
          exact ih h
        | body start length =>
          simp only [hnext, Next.behind, content] at h
          repeat' split at h
          all_goals exact h.elim
        | verdict => rw [hnext] at h; exact h.elim
        | fault => rw [hnext] at h; exact h.elim
      · rw [if_neg hlf, readLine, if_neg hlf]
        simp
    | false =>
      rw [readLine] at h ⊢
      rw [brokenLine]
      split
      · rename_i hcr
        rw [if_pos hcr] at h
        exact ih h
      · rename_i hcr
        rw [if_neg hcr] at h
        split
        · simp
        · rename_i hlf
          rw [if_neg hlf] at h
          exact ih h

end

/-! ## What can still be completed -/

/-- A declared length that `parse_content` can come to the end of, `past` bytes counted twice. -/
def Fits (start : Nat) (length : Int) (past : Nat) : Prop :=
  0 ≤ start + length ∧ length + start + past ≤ longMax

instance (start : Nat) (length : Int) (past : Nat) : Decidable (Fits start length past) :=
  inferInstanceAs (Decidable (_ ∧ _))

/-- A line whose string is settled does no harm: a request line has no URL without a path, and a blank
    line has no length declared before it that cannot be come to the end of. The blank line that has
    not `ended`, a NUL at its front, may be made longer. -/
def Part.Passes : Part → (text : List Byte) → (ended : Bool) → Prop
  | .request, text, _ => lacksPath (cword text) = false
  | .headers start length, text, ended => cword text = [] → length ≠ 0 →
      length + (start + text.length + 2 : Nat) ≤ longMax ∧
        (ended = true → 0 ≤ (start + text.length + 2 : Nat) + length)

instance (part : Part) (text : List Byte) (ended : Bool) : Decidable (part.Passes text ended) :=
  match part with
  | .request => inferInstanceAs (Decidable (_ = _))
  | .headers _ _ => inferInstanceAs (Decidable (_ → _ → _ ∧ (_ → _)))

/-- A verdict can still be had: what is received is no malformed line, the string of the line is not
    settled by its CR or by a NUL, or does no harm; and in a body the count of what was got past leaves
    room for the declared length. -/
def Stage.Open : Stage → Prop
  | .line part text ended => ended = true ∨ 0 ∈ text → part.Passes text ended
  | .malformed => False
  | .body start length d => Fits start length (passed d)
  | .verdict => True
  | .fault => False

instance : DecidablePred Stage.Open
  | .line _ _ _ => inferInstanceAs (Decidable (_ ∨ _ → _))
  | .malformed => inferInstanceAs (Decidable False)
  | .body _ _ _ => inferInstanceAs (Decidable (Fits _ _ _))
  | .verdict => inferInstanceAs (Decidable True)
  | .fault => inferInstanceAs (Decidable False)

/-- The same of what is behind a line. -/
def Next.Open : Next → Prop
  | .body start length => Fits start length 0
  | .fault => False
  | _ => True

section
variable {part : Part} {text x : List Byte} {ended : Bool} {start past : Nat} {length : Int} {d : List Byte}

theorem next_open : (part.next text).Open ↔ part.Passes text true := by
  cases part with
  | request =>
    rw [Part.next, Part.Passes]
    split
    · rename_i hacc
      refine iff_of_true trivial (Bool.eq_false_iff.mpr fun hlacks => ?_)
      rw [acceptsLine_of_lacksPath hlacks] at hacc
      cases hacc
    · split
      · rename_i hlacks
        simp [Next.Open, hlacks]
      · rename_i hlacks
        exact iff_of_true trivial (Bool.eq_false_iff.mpr hlacks)
  | headers start length =>
    rw [Part.next, Part.Passes]
    split
    · rename_i hblank
      split
      · rename_i hlength
        show Fits _ _ _ ↔ _
        rw [Fits, Int.ofNat_zero, Int.add_zero]
        exact ⟨fun h _ _ => ⟨h.2, fun _ => h.1⟩, fun h => ⟨(h hblank hlength).2 rfl, (h hblank hlength).1⟩⟩
      · rename_i hlength
        exact iff_of_true trivial fun _ hne => absurd hne hlength
    · rename_i hblank
      exact iff_of_true trivial fun hno => absurd hno hblank

/-! ### One read more -/

theorem open_of_content (hpast : past ≤ d.length) (h : (content start length past d).Open) :
    Fits start length past := by
  unfold content at h
  unfold Fits
  split at h
  · exact h.elim
  · split at h
    · split at h
      · exact h.elim
      · omega
    · split at h
      · exact h.elim
      · omega

theorem open_of_behind {n : Next} (h : (n.behind x).Open) : n.Open := by
  cases n with
  | line part => trivial
  | body start length => exact open_of_content (Nat.zero_le _) h
  | verdict => trivial
  | fault => exact h

/-- A NUL ends a string, whatever is behind. -/
theorem cword_of_nul (h : 0 ∈ text) (x : List Byte) : cword (text ++ x) = cword text := by
  unfold cword
  induction text with
  | nil => cases h
  | cons b text ih =>
    rw [List.cons_append, List.takeWhile_cons, List.takeWhile_cons]
    split
    · rename_i hb
      have hne : b ≠ 0 := of_decide_eq_true hb
      rw [ih ((List.mem_cons.mp h).resolve_left hne.symm)]
    · rfl

theorem open_of_readLine (h : (readLine part text ended x).Open) :
    (Stage.line part text ended).Open := by
  induction x generalizing part text ended with
  | nil => cases ended <;> exact h
  | cons b x ih =>
    cases ended with
    | true =>
      by_cases hlf : b = lf
      · rw [hlf, readLine_lf] at h
        exact fun _ => next_open.mp (open_of_behind h)
      · rw [readLine, if_neg hlf] at h
        exact h.elim
    | false =>
      rw [readLine] at h
      split at h
      · -- the CR settles the line
        have hpasses := ih h (Or.inl rfl)
        intro _
        cases part with
        | request => exact hpasses
        | headers start length =>
          intro hblank hlength
          exact ⟨(hpasses hblank hlength).1, nofun⟩
      · split at h
        · exact h.elim
        · -- a line that a NUL has settled only gets longer
          intro hnul
          have hmem : 0 ∈ text := hnul.resolve_left nofun
          have hpasses := ih h (Or.inr (List.mem_append_left _ hmem))
          cases part with
          | request =>
            rw [Part.Passes, cword_of_nul hmem] at hpasses
            exact hpasses
          | headers start length =>
            rw [Part.Passes, cword_of_nul hmem] at hpasses
            intro hblank hlength
            have hfits := (hpasses hblank hlength).1
            rw [List.length_append] at hfits
            exact ⟨by omega, nofun⟩

/-- **No read opens a stage.** -/
theorem open_of_read {s : Stage} (h : (s.read x).Open) : s.Open := by
  cases s with
  | line part text ended => exact open_of_readLine h
  | malformed => exact h
  | body start length d =>
    have hpast := passed_le d
    have hfits := open_of_content (by rw [List.length_append]; omega) h
    exact hfits
  | verdict => trivial
  | fault => exact h

theorem open_of_reads {s : Stage} {more : List (List Byte)} (h : (s.reads more).Open) : s.Open := by
  induction more with
  | nil => exact h
  | cons x more ih => exact ih (open_of_read h)

/-! ### The reads that are left -/

/-- A body that can be come to the end of, when it is all there. -/
theorem content_verdict (h : Fits start length past) (hd : length + past ≤ d.length) :
    content start length past d = .verdict := by
  obtain ⟨hstart, hmax⟩ := h
  rw [content, if_neg (by omega), if_pos hd, if_neg (by omega)]

theorem completes_body (h : Fits start length (passed d)) :
    ∃ more, (Stage.body start length d).reads more = .verdict := by
  refine ⟨[List.replicate (length + passed d).toNat 0], ?_⟩
  apply content_verdict h
  rw [List.length_append, List.length_replicate]
  omega

theorem completes_content (h : Fits start length 0) :
    ∃ more, (content start length 0 []).reads more = .verdict := by
  by_cases hpos : 0 < length
  · have hbody : content start length 0 [] = .body start length [] := by
      have hlast : lastLine (List.drop 0 ([] : List Byte)) = 0 := rfl
      obtain ⟨hstart, hmax⟩ := h
      rw [content, if_neg (by omega), if_neg (by rw [List.length_nil]; omega), if_neg (by rw [hlast]; omega)]
    rw [hbody]
    exact completes_body h
  · refine ⟨[], content_verdict h ?_⟩
    rw [List.length_nil]
    omega

/-- From the beginning of a line it takes one that says that there is no body, and a blank one. -/
theorem completes_line (part : Part) : ∃ more, (Stage.line part [] false).reads more = .verdict := by
  cases part with
  | request => exact ⟨[bytes "x\r\n"], by decide⟩
  | headers start length => exact ⟨[bytes "content-length:0\r\n\r\n"], rfl⟩

theorem completes_next {n : Next} (h : n.Open) : ∃ more, (n.behind []).reads more = .verdict := by
  cases n with
  | line part => exact completes_line part
  | body start length => exact completes_content h
  | verdict => exact ⟨[], rfl⟩
  | fault => exact h.elim

/-! A line that is not settled is ended by what makes it no blank line, and no `HTTP/1.1`. -/

theorem versionUrl_suffix {w url : List Byte} (h : versionUrl w = some url) :
    ∃ v, v <:+ w ∧ strcasecmp v (bytes "HTTP/1.1") = true := by
  simp only [versionUrl] at h
  obtain ⟨j, -, h⟩ := Option.bind_eq_some_iff.mp h
  split at h
  · rename_i hversion
    exact ⟨_, (List.drop_suffix _ _).trans ((List.drop_suffix _ _).trans (List.drop_suffix _ _)), hversion⟩
  · cases h

theorem requestUrl_suffix {w url : List Byte} (h : requestUrl w = some url) :
    ∃ v, v <:+ w ∧ strcasecmp v (bytes "HTTP/1.1") = true := by
  obtain ⟨i, -, h⟩ := Option.bind_eq_some_iff.mp h
  split at h
  · obtain ⟨v, hv, hversion⟩ := versionUrl_suffix h
    exact ⟨v, hv.trans (List.drop_suffix _ _), hversion⟩
  · cases h

theorem lacksPath_longer (w : List Byte) : lacksPath (w ++ [120]) = false := by
  unfold lacksPath
  cases hu : requestUrl (w ++ [120]) with
  | none => rfl
  | some url =>
    -- the version would end in the byte that was added
    obtain ⟨v, ⟨u, hv⟩, hversion⟩ := requestUrl_suffix hu
    have hlower := of_decide_eq_true hversion
    have hne : v ≠ [] := by
      intro hnil
      rw [hnil] at hlower
      cases hlower
    have hlast := congrArg List.getLast? hv
    rw [List.getLast?_append_of_ne_nil _ hne, List.getLast?_concat] at hlast
    have hone := congrArg List.getLast? hlower
    rw [List.getLast?_map, hlast] at hone
    exact absurd hone (by decide)

/-- Any number of bytes that do not end a line, then its end. -/
theorem readLine_longer (part : Part) (text : List Byte) (n : Nat) :
    readLine part text false (List.replicate n 120 ++ [cr, lf]) =
      (part.next (text ++ List.replicate n 120)).behind [] := by
  have hplain : ∀ b ∈ List.replicate n (120 : Byte), b ≠ cr ∧ b ≠ lf := by
    intro b hb
    rw [List.eq_of_mem_replicate hb]
    decide
  rw [readLine_text hplain, readLine, if_pos rfl, readLine_lf]

/-- An open line can be ended. -/
theorem ends_line (h : (Stage.line part text ended).Open) :
    ∃ x next, readLine part text ended x = Next.behind next [] ∧ next.Open := by
  cases ended with
  | true => exact ⟨[lf], _, readLine_lf, next_open.mpr (h (Or.inl rfl))⟩
  | false =>
    suffices hlonger : ∃ n, part.Passes (text ++ List.replicate n 120) true by
      obtain ⟨n, hpasses⟩ := hlonger
      exact ⟨_, _, readLine_longer part text n, next_open.mpr hpasses⟩
    by_cases hnul : 0 ∈ text
    · -- the string is settled, and only its end can be put off
      have hpasses := h (Or.inr hnul)
      cases part with
      | request => exact ⟨0, by rw [Part.Passes, cword_of_nul hnul]; exact hpasses⟩
      | headers start length =>
        refine ⟨(-(length + (start + text.length + 2 : Nat))).toNat, ?_⟩
        rw [Part.Passes, cword_of_nul hnul, List.length_append, List.length_replicate]
        intro hblank hlength
        have hmax := (hpasses hblank hlength).1
        have hlong : 0 ≤ longMax := by decide
        exact ⟨by omega, fun _ => by omega⟩
    · -- one more byte settles it
      refine ⟨1, ?_⟩
      have hself : cword (text ++ [120]) = text ++ [120] := by
        refine takeWhile_ne_iff.mpr fun hzero => ?_
        rcases List.mem_append.mp hzero with hzero | hzero
        · exact hnul hzero
        · cases List.mem_singleton.mp hzero
      cases part with
      | request => exact (congrArg lacksPath hself).trans (lacksPath_longer text)
      | headers start length =>
        intro hblank
        rw [show text ++ List.replicate 1 120 = text ++ [120] from rfl, hself] at hblank
        exact absurd hblank (List.append_ne_nil_of_right_ne_nil _ (List.cons_ne_nil _ _))

/-- **From an open stage a verdict can be had.** -/
theorem Stage.Open.completes {s : Stage} (h : s.Open) : ∃ more, s.reads more = .verdict := by
  cases s with
  | line part text ended =>
    obtain ⟨x, next, hx, hnext⟩ := ends_line h
    obtain ⟨more, hmore⟩ := completes_next hnext
    refine ⟨more ++ [x], ?_⟩
    rw [Stage.reads_append]
    show ((readLine part text ended x).reads more) = _
    rw [hx, hmore]
  | malformed => exact h.elim
  | body start length d => exact completes_body h
  | verdict => exact ⟨[], rfl⟩
  | fault => exact h.elim

/-- **A verdict can be had from the stages that are open**, and from no other. -/
theorem reads_verdict_iff (s : Stage) : (∃ more, s.reads more = .verdict) ↔ s.Open := by
  constructor
  · rintro ⟨more, hmore⟩
    have hopen : (s.reads more).Open := by
      rw [hmore]
      trivial
    exact open_of_reads hopen
  · intro h
    exact h.completes

end

end Http
end LinuxServer
