import LinuxServer.HttpServer.Chunks

/-!
# `HttpServer/Headers.lean` — a header block that is written is read back

A `HeaderBlock` is what a header block and the beginning of a body are made of: the heading line, the
lines of the header, the bytes behind it. `render` writes it the way a peer does, and
`pushChunk_render` is the round trip: a fresh `http11_header_parser` that gets it all in one chunk
takes it apart again, the first of the fields with one lower-cased key being the one that counts.

Each turn of the loop of `_extract_headers` looks for the next `CRLF` from the end of the last one, so
the invariant is where it stands: in a line `u`, with a text of whole lines behind it
(`extractFields_lines`).
-/

set_option autoImplicit false

namespace LinuxServer
namespace HttpServer

/-! ## Header blocks -/

/-- What fits in one line. -/
def OneLine (w : List Byte) : Prop := 13 ∉ w ∧ 10 ∉ w

/-- What stands between the key of a field and its value. -/
def colonSpace : List Byte := bytes ": "

/-- A line of a header: a field, or a line without `": "`. -/
inductive HeaderLine
  | field (key value : List Byte) (ascii : ∀ b ∈ key, b < 128) (keyLine : OneLine key)
      (noColon : find colonSpace key = none) (valueLine : OneLine value)
  | other (line : List Byte) (nonempty : line ≠ []) (oneLine : OneLine line)
      (noColon : find colonSpace line = none)

namespace HeaderLine

/-- The bytes of the line. -/
def text : HeaderLine → List Byte
  | field key value .. => key ++ colonSpace ++ value
  | other line .. => line

/-- The value that the line gives to a lower-cased key. -/
def value? (name : List Byte) : HeaderLine → Option (List Byte)
  | field key value .. => if name = key.map tolower then some value else none
  | other .. => none

theorem text_ne_nil : ∀ line : HeaderLine, line.text ≠ []
  | field key value .. => by simp [text, colonSpace, bytes]
  | other _ nonempty .. => nonempty

theorem cr_notMem_text : ∀ line : HeaderLine, 13 ∉ line.text
  | field key value _ keyLine _ valueLine => by
    rw [text, List.mem_append, List.mem_append]
    rintro ((hkey | hcolon) | hvalue)
    · exact keyLine.1 hkey
    · exact absurd hcolon (by decide)
    · exact valueLine.1 hvalue
  | other _ _ oneLine _ => oneLine.1

/-- What the loop makes of a line. -/
theorem extractField_text (keys : StringMap) (name : List Byte) : ∀ line : HeaderLine,
    Http11HeaderParser.extractField keys line.text name = (keys name).or (line.value? name)
  | field key value _ _ noColon _ => by
    have hfind : find (bytes ": ") (key ++ colonSpace ++ value) = some key.length := by
      rw [List.append_assoc]
      exact find_append_pair (by decide) noColon value
    have htake : (key ++ colonSpace ++ value).take key.length = key := by
      rw [List.append_assoc]
      exact List.take_left
    have hdrop : (key ++ colonSpace ++ value).drop (key.length + 2) = value := by
      refine List.drop_left' ?_
      rw [List.length_append]
      rfl
    rw [text, Http11HeaderParser.extractField, hfind]
    simp only [htake, hdrop, StringMap.insert, value?]
    by_cases hname : name = key.map tolower
    · rw [if_pos hname, if_pos hname, hname]
    · rw [if_neg hname, if_neg hname, Option.or_none]
  | other line _ _ noColon => by
    have hfind : find (bytes ": ") line = none := noColon
    rw [text, Http11HeaderParser.extractField, hfind, value?, Option.or_none]

end HeaderLine

/-- The lines of a header, each behind the end of the one before. -/
def linesText : List HeaderLine → List Byte
  | [] => []
  | line :: lines => crlf ++ (line.text ++ linesText lines)

/-- A header block, and the bytes that come behind it. -/
structure HeaderBlock where
  headingLine : List Byte
  oneLine : OneLine headingLine
  lines : List HeaderLine
  body : List Byte

namespace HeaderBlock

/-- The block as it is sent: every line with its end, an empty one, the body. -/
def render (block : HeaderBlock) : List Byte :=
  block.headingLine ++ crlf ++ block.lines.flatMap (fun line => line.text ++ crlf) ++ crlf ++ block.body

/-- The header of the block, without the blank line. -/
def header (block : HeaderBlock) : List Byte := block.headingLine ++ linesText block.lines

/-- Its fields: for each lower-cased key, the value of the first line with it. -/
def fields (block : HeaderBlock) : StringMap := fun name => block.lines.findSome? (·.value? name)

end HeaderBlock

/-! ## The end of the block -/

theorem crlf_flatMap : ∀ lines : List HeaderLine,
    crlf ++ lines.flatMap (fun line => line.text ++ crlf) = linesText lines ++ crlf
  | [] => rfl
  | line :: lines => by
    rw [List.flatMap_cons, List.append_assoc line.text, crlf_flatMap lines, linesText]
    simp only [List.append_assoc]

theorem HeaderBlock.render_eq (block : HeaderBlock) :
    block.render = block.header ++ (blankLine ++ block.body) := by
  have hlines := crlf_flatMap block.lines
  have hblank : blankLine = crlf ++ crlf := by decide
  rw [render, header, hblank, List.append_assoc block.headingLine, hlines]
  simp only [List.append_assoc]

/-- No line is empty, so there is no blank line before the one at the end. -/
theorem find_blankLine_lines (body : List Byte) : ∀ lines : List HeaderLine,
    find blankLine (linesText lines ++ (blankLine ++ body)) = some (linesText lines).length
  | [] => find_of_prefix (List.prefix_append _ _)
  | line :: lines => by
    have ih := find_blankLine_lines body lines
    obtain ⟨b, w, htext⟩ := List.exists_cons_of_ne_nil line.text_ne_nil
    have hcr := line.cr_notMem_text
    have hb : b ≠ 13 := by
      rintro rfl
      rw [htext] at hcr
      exact hcr List.mem_cons_self
    -- neither the end of the last line nor this one is where a blank line begins
    have hno : ¬ blankLine <+: 13 :: 10 :: (line.text ++ (linesText lines ++ (blankLine ++ body))) := by
      rw [htext]
      intro hpre
      have hpre := (List.cons_prefix_cons.mp (List.cons_prefix_cons.mp hpre).2).2
      exact hb (List.cons_prefix_cons.mp hpre).1.symm
    have hno' : ¬ blankLine <+: 10 :: (line.text ++ (linesText lines ++ (blankLine ++ body))) := fun hpre =>
      absurd (List.cons_prefix_cons.mp hpre).1 (by decide)
    have htext : linesText (line :: lines) ++ (blankLine ++ body) =
        13 :: 10 :: (line.text ++ (linesText lines ++ (blankLine ++ body))) := by
      rw [linesText, List.append_assoc, List.append_assoc]
      rfl
    have hskip : find blankLine (line.text ++ (linesText lines ++ (blankLine ++ body))) =
        (find blankLine (linesText lines ++ (blankLine ++ body))).map (· + line.text.length) :=
      find_append_notMem hcr _
    rw [htext, find_cons_of_not hno, find_cons_of_not hno', hskip, ih, linesText]
    simp only [Option.map_some, Option.some.injEq, List.length_append, show crlf.length = 2 by decide]
    omega

theorem HeaderBlock.find_blankLine (block : HeaderBlock) :
    find blankLine block.render = some block.header.length := by
  have hskip : find blankLine (block.headingLine ++ (linesText block.lines ++ (blankLine ++ block.body))) =
      (find blankLine (linesText block.lines ++ (blankLine ++ block.body))).map
        (· + block.headingLine.length) :=
    find_append_notMem block.oneLine.1 _
  rw [render_eq, header, List.append_assoc, hskip, find_blankLine_lines, Option.map_some,
    List.length_append, Nat.add_comm]

/-! ## The lines of it -/

theorem length_le_linesText : ∀ lines : List HeaderLine, lines.length ≤ (linesText lines).length
  | [] => Nat.le_refl _
  | line :: lines => by
    have ih := length_le_linesText lines
    rw [linesText, List.length_cons, List.length_append, List.length_append, show crlf.length = 2 by decide]
    omega

namespace Http11HeaderParser

theorem find_crlf_lines {u : List Byte} (hu : 13 ∉ u) : ∀ lines : List HeaderLine,
    find crlf (u ++ linesText lines) = if lines = [] then none else some u.length
  | [] => by
    rw [linesText, List.append_nil, if_pos rfl]
    exact find_notMem hu
  | line :: lines => by
    rw [if_neg (List.cons_ne_nil _ _)]
    exact find_append_self hu _

/-- A line up to the next end of one, or up to the end of the block. -/
theorem substr_line {u : List Byte} (hu : 13 ∉ u) (pre : List Byte) (lines : List HeaderLine) :
    substr (pre ++ (u ++ linesText lines)) pre.length
      (findFrom crlf (pre ++ (u ++ linesText lines)) pre.length) = u := by
  rw [findFrom, List.drop_left, find_crlf_lines hu]
  cases lines with
  | nil =>
    rw [if_pos rfl, linesText, List.append_nil]
    exact List.drop_left
  | cons line lines =>
    rw [if_neg (List.cons_ne_nil _ _)]
    simp only [Option.map_some, substr, List.drop_left, Nat.add_sub_cancel]
    exact List.take_left

/-- **The loop**, standing in a line `u` with whole lines behind it, adds what these give. -/
theorem extractFields_lines : ∀ (lines : List HeaderLine) {u : List Byte} (_ : 13 ∉ u) (pre : List Byte)
    (keys : StringMap) {n : Nat}, lines.length < n →
    whileLoop (extractStep (pre ++ (u ++ linesText lines))) n
      (findFrom crlf (pre ++ (u ++ linesText lines)) pre.length, keys) =
      .ok fun name => (keys name).or (lines.findSome? (·.value? name))
  | [], u, hu, pre, keys, n, hn => by
    obtain ⟨n, rfl⟩ : ∃ m, n = m + 1 := ⟨n - 1, by have := hn; omega⟩
    rw [findFrom, List.drop_left, find_crlf_lines hu, if_pos rfl, whileLoop]
    simp only [extractStep, Option.map_none, List.findSome?_nil, Option.or_none]
  | line :: lines, u, hu, pre, keys, n, hn => by
    rw [List.length_cons] at hn
    obtain ⟨n, rfl⟩ : ∃ m, n = m + 1 := ⟨n - 1, by omega⟩
    -- the header again, from the beginning of the next line on
    have hheader : pre ++ (u ++ linesText (line :: lines)) =
        (pre ++ u ++ crlf) ++ (line.text ++ linesText lines) := by
      simp only [linesText, List.append_assoc]
    have hpos : (pre ++ u ++ crlf).length = u.length + pre.length + 2 := by
      rw [List.length_append, List.length_append, show crlf.length = 2 by decide]
      omega
    have hline := substr_line line.cr_notMem_text (pre ++ u ++ crlf) lines
    rw [findFrom, List.drop_left, find_crlf_lines hu, if_neg (List.cons_ne_nil _ _), hheader, whileLoop]
    simp only [extractStep, Option.map_some, ← hpos, hline]
    rw [extractFields_lines lines line.cr_notMem_text (pre ++ u ++ crlf) _ (by omega)]
    refine congrArg Except.ok (funext fun name => ?_)
    rw [HeaderLine.extractField_text, Option.or_assoc, List.findSome?_cons]
    cases line.value? name <;> rfl

/-- A header parser that was just made. -/
def fresh : Http11HeaderParser := HttpRequestParser.fresh.headerParser

/-- **The round trip**: a block that comes in one chunk is taken apart into what it was made of. -/
theorem pushChunk_render (block : HeaderBlock) : fresh.pushChunk block.render = .ok {
    header := block.header
    headingLine := block.headingLine
    body := block.body
    headerKeys := block.fields
    headerFinished := true } := by
  have htake : block.render.take block.header.length = block.header := by
    rw [block.render_eq]
    exact List.take_left
  have hdrop : block.render.drop (block.header.length + 4) = block.body := by
    rw [block.render_eq, ← List.append_assoc]
    refine List.drop_left' ?_
    rw [List.length_append]
    rfl
  have hheading : substr block.header 0 (find crlf block.header) = block.headingLine := by
    have hline := substr_line block.oneLine.1 [] block.lines
    rwa [List.length_nil, List.nil_append, findFrom_zero] at hline
  have hfields : extractFields block.header (fun _ => none) = .ok block.fields := by
    have hlen : block.lines.length < block.header.length + 2 := by
      rw [HeaderBlock.header, List.length_append]
      have := length_le_linesText block.lines
      omega
    have hloop := extractFields_lines block.lines block.oneLine.1 [] (fun _ => none) hlen
    rwa [List.length_nil, List.nil_append, findFrom_zero] at hloop
  simp only [pushChunk, fresh, HttpRequestParser.fresh, block.find_blankLine, Bool.false_eq_true, if_false,
    extractHeaders, extractHeadingLine, List.nil_append, htake, hdrop, hheading, hfields, bind, Except.bind,
    pure, Except.pure]

/-- Two fields whose keys differ in case, and a body with a blank line in it. -/
example : (fresh.pushChunk (bytes "GET / HTTP/1.1\r\nHost: a: b\r\nHOST: c\r\n\r\nx\r\n\r\ny")).map
    (fun p => (p.headingLine, p.headerKeys (bytes "host"), p.body)) =
    .ok (bytes "GET / HTTP/1.1", some (bytes "a: b"), bytes "x\r\n\r\ny") := by decide +kernel

end Http11HeaderParser

end HttpServer
end LinuxServer
