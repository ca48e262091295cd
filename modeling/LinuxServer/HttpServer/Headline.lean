import LinuxServer.HttpServer.Parser
import LinuxServer.Lib.CInt

/-!
# `HttpServer/Headline.lean` — the tokens of the heading line

`_headline_first`, `_headline_second` and `_headline_third`, which look for the spaces of the heading
line each for itself. The second space is looked for from the first one and not from behind it, so it
is the first one again: what the last two functions return is everything behind it (`headlineSecond_cut`,
`headlineThird_cut`), and they tell the tokens of no line that has three (`tokenises_iff`).
-/

set_option autoImplicit false

namespace LinuxServer
namespace HttpServer

/-- `std::string::npos`. -/
def npos : Nat := 2 ^ 64 - 1

def space : List Byte := bytes " "

namespace Http11HeaderParser

/-- `_headline_first()`. -/
def headlineFirst (p : Http11HeaderParser) : List Byte :=
  match find space p.headingLine with
  | none => bytes "GET"
  | some pos => p.headingLine.take pos

/-- `_headline_second()`. The length is a `size_t`, and wraps. -/
def headlineSecond (p : Http11HeaderParser) : List Byte :=
  match find space p.headingLine with
  | none => []
  | some firstPos =>
    match findFrom space p.headingLine firstPos with
    | none => []
    | some secondPos =>
      let urlLen := toSize (secondPos - firstPos - 1)
      (p.headingLine.drop (firstPos + 1)).take urlLen

/-- `_headline_third()`. -/
def headlineThird (p : Http11HeaderParser) : List Byte :=
  match find space p.headingLine with
  | none => []
  | some firstPos =>
    match findFrom space p.headingLine firstPos with
    | none => []
    | some secondPos =>
      let headlineEndPos := (find crlf p.headingLine).getD npos
      let versionLen := toSize (headlineEndPos - secondPos - 1)
      (p.headingLine.drop (secondPos + 1)).take versionLen

end Http11HeaderParser

/-! ## What they are for -/

/-- A heading line of three tokens. -/
structure HeadlineTokens (line a b c : List Byte) : Prop where
  line_eq : line = a ++ space ++ b ++ space ++ c
  first_ne : a ≠ []
  second_ne : b ≠ []
  first_space : 32 ∉ a
  second_space : 32 ∉ b
  first_crlf : find crlf a = none
  second_crlf : find crlf b = none
  third_crlf : find crlf c = none

/-- The three functions tell the tokens of the line; of a line with one space, the first alone. -/
structure Http11HeaderParser.Tokenises (p : Http11HeaderParser) : Prop where
  tokens : ∀ a b c, HeadlineTokens p.headingLine a b c →
    p.headlineFirst = a ∧ p.headlineSecond = b ∧ p.headlineThird = c ∧
    p.headlineFirst ++ space ++ p.headlineSecond ++ space ++ p.headlineThird = p.headingLine
  oneSpace : p.headingLine.count 32 = 1 → p.headlineSecond = [] ∧ p.headlineThird = []

/-! ## What they do -/

namespace Http11HeaderParser

variable {p : Http11HeaderParser} {u v : List Byte}

theorem find_space_cut (h : p.headingLine = u ++ 32 :: v) (hu : 32 ∉ u) :
    find space p.headingLine = some u.length := by
  rw [h]
  exact find_append_self hu v

/-- From the first space on, the first space is the first one. -/
theorem findFrom_space_cut (h : p.headingLine = u ++ 32 :: v) :
    findFrom space p.headingLine u.length = some u.length := by
  have hpre : space <+: 32 :: v := List.prefix_append [32] v
  rw [findFrom, h, List.drop_left, find_of_prefix hpre, Option.map_some, Nat.zero_add]

theorem drop_cut (h : p.headingLine = u ++ 32 :: v) : p.headingLine.drop (u.length + 1) = v := by
  rw [h, ← List.drop_drop, List.drop_left]
  rfl

/-- `second_pos - first_pos - 1` is `npos`. -/
theorem headlineSecond_cut (h : p.headingLine = u ++ 32 :: v) (hu : 32 ∉ u) :
    p.headlineSecond = v.take npos := by
  have hlen : toSize ((u.length : Int) - u.length - 1) = npos := by
    rw [Int.sub_self]
    decide
  rw [headlineSecond, find_space_cut h hu]
  simp only [findFrom_space_cut h, drop_cut h, hlen]

theorem headlineThird_cut (h : p.headingLine = u ++ 32 :: v) (hu : 32 ∉ u) :
    ∃ n, p.headlineThird = v.take n := by
  rw [headlineThird, find_space_cut h hu]
  simp only [findFrom_space_cut h, drop_cut h]
  exact ⟨_, rfl⟩

/-- What is behind the first space is returned, if there is anything. -/
theorem headlineSecond_eq_nil (h : p.headingLine = u ++ 32 :: v) (hu : 32 ∉ u) :
    p.headlineSecond = [] ↔ v = [] := by
  rw [headlineSecond_cut h hu, List.take_eq_nil_iff]
  exact or_iff_right (by decide)

/-- The second of three tokens is never what it should be: there is more behind the first space. -/
theorem headlineSecond_ne {a b c : List Byte} (h : HeadlineTokens p.headingLine a b c)
    (hlen : p.headingLine.length ≤ npos) : p.headlineSecond ≠ b := by
  have hline : p.headingLine = a ++ 32 :: (b ++ 32 :: c) := by
    rw [h.line_eq]
    simp only [space, List.append_assoc]
    rfl
  have hfits : (b ++ 32 :: c).length ≤ npos := by
    rw [hline, List.length_append, List.length_cons] at hlen
    omega
  intro heq
  rw [headlineSecond_cut hline h.first_space, List.take_of_length_le hfits] at heq
  have hlength := congrArg List.length heq
  rw [List.length_append, List.length_cons] at hlength
  omega

/-- **When the heading line is told apart**, it being as long as a string can be: where it does not
    have three tokens, and with one space has nothing behind it. -/
theorem tokenises_iff (p : Http11HeaderParser) (hlen : p.headingLine.length ≤ npos) :
    p.Tokenises ↔ (¬ ∃ a b c, HeadlineTokens p.headingLine a b c) ∧
      (p.headingLine.count 32 = 1 → ∃ a, p.headingLine = a ++ space) := by
  constructor
  · intro h
    refine ⟨?_, fun hone => ?_⟩
    · rintro ⟨a, b, c, htokens⟩
      exact headlineSecond_ne htokens hlen (h.tokens a b c htokens).2.1
    · have hmem : 32 ∈ p.headingLine := List.count_pos_iff.mp (by omega)
      obtain ⟨u, v, hline, hu⟩ := List.eq_append_cons_of_mem hmem
      have hv := (headlineSecond_eq_nil hline hu).mp (h.oneSpace hone).1
      exact ⟨u, by rw [hline, hv]; rfl⟩
  · rintro ⟨hno, hone⟩
    refine ⟨fun a b c htokens => absurd ⟨a, b, c, htokens⟩ hno, fun hcount => ?_⟩
    obtain ⟨a, hline⟩ := hone hcount
    have ha : 32 ∉ a := by
      rw [hline, List.count_append, show space.count 32 = 1 by decide] at hcount
      exact List.count_eq_zero.mp (by omega)
    obtain ⟨n, hthird⟩ := headlineThird_cut (v := []) hline ha
    exact ⟨(headlineSecond_eq_nil hline ha).mpr rfl, by rw [hthird, List.take_nil]⟩

/-- A parser that has read a heading line. -/
def ofHeadingLine (line : List Byte) : Http11HeaderParser := { HttpRequestParser.fresh.headerParser with
  headingLine := line }

/-- Of `GET` and a space, the token is told. -/
theorem tokenises_iff_method : (ofHeadingLine (bytes "GET ")).Tokenises := by
  have hcount : (bytes "GET ").count 32 = 1 := by decide
  have hno : ¬ ∃ a b c, HeadlineTokens (bytes "GET ") a b c := by
    rintro ⟨a, b, c, htokens⟩
    have hspaces := congrArg (List.count 32) htokens.line_eq
    have hspace : space.count 32 = 1 := by decide
    simp only [List.count_append, hspace, hcount] at hspaces
    omega
  exact (tokenises_iff (ofHeadingLine (bytes "GET ")) (by decide)).mpr ⟨hno, fun _ => ⟨bytes "GET", rfl⟩⟩

/-- The second token of a request line, and the third, are the URL with the version. -/
theorem not_tokenises_request : (ofHeadingLine (bytes "GET / HTTP/1.1")).headlineSecond =
      bytes "/ HTTP/1.1" ∧
    (ofHeadingLine (bytes "GET / HTTP/1.1")).headlineThird = bytes "/ HTTP/1.1" ∧
    ¬ (ofHeadingLine (bytes "GET / HTTP/1.1")).Tokenises := by
  have hsecond : (ofHeadingLine (bytes "GET / HTTP/1.1")).headlineSecond = bytes "/ HTTP/1.1" := by
    decide +kernel
  refine ⟨hsecond, by decide +kernel, fun h => ?_⟩
  have htokens : HeadlineTokens (bytes "GET / HTTP/1.1") (bytes "GET") (bytes "/") (bytes "HTTP/1.1") :=
    ⟨by decide, by decide, by decide, by decide, by decide, by decide, by decide, by decide⟩
  have htold := (h.tokens _ _ _ htokens).2.1
  rw [hsecond] at htold
  exact absurd htold (by decide)

end Http11HeaderParser

end HttpServer
end LinuxServer
