import LinuxServer.Http.Fields
import LinuxServer.Http.RequestLine

/-!
# `Http/RootPage.lean` — where the page that stands for `/` is written

`strcat(m_url, "judge.html")` writes over what is behind the target on the request line. There are a
blank at least, `HTTP/1.1`, and the CR and the LF that `parse_line` has made NULs of: eleven bytes, which
is what it writes. So it stays in front of `m_checked_idx`, where the headers begin
(`parseRequestLine_judge`).
-/

set_option autoImplicit false

namespace LinuxServer
namespace Http
namespace HttpConn

section
variable {c c' : HttpConn} {text : Nat}

/-- A path of one byte gets the page behind it, where there is room. -/
theorem judge_one {url : Nat} (hone : (c.str url).length = 1) (hroom : url + 12 ≤ readBufferSize) :
    c.judge url = .ok { c with readBuf := c.readBuf.blit (url + 1) (bytes "judge.html" ++ [0]) } := by
  have hlength : (bytes "judge.html").length = 10 := by decide
  rw [judge, if_pos hone, strcat, hone]
  refine if_pos ?_
  omega

/-- A line that was cut ends in front of its two NULs, unless there is nothing in it. -/
theorem parseLine_str (hordered : c.startLine ≤ c.checkedIdx) (hline : c.parseLine = (.lineOk, c'))
    (hne : c'.str c'.startLine ≠ []) :
    c'.startLine + (c'.str c'.startLine).length + 2 ≤ c'.checkedIdx ∧ c'.checkedIdx ≤ c'.readIdx ∧
      c'.readIdx = c.readIdx := by
  have hok : c.parseLine.1 = .lineOk := congrArg Prod.fst hline
  have hstate : c.parseLine.2 = c' := congrArg Prod.snd hline
  obtain ⟨hlt, hle, hread⟩ := parseLineLoop_lineOk (c.readIdx - c.checkedIdx) rfl hok
  obtain ⟨htwo, hnul, hlast⟩ := parseLineLoop_nul (c.readIdx - c.checkedIdx) hok
  obtain ⟨buf, checked, hwrites⟩ := parseLine_writes c
  have hstart : c'.startLine = c.startLine := by rw [← hstate, hwrites]
  change c.checkedIdx < c.parseLine.2.checkedIdx at hlt
  change c.parseLine.2.checkedIdx ≤ c.readIdx at hle
  change c.parseLine.2.readIdx = c.readIdx at hread
  change 2 ≤ c.parseLine.2.checkedIdx at htwo
  change c.parseLine.2.readBuf (c.parseLine.2.checkedIdx - 2) = 0 at hnul
  change c.parseLine.2.readBuf (c.parseLine.2.checkedIdx - 1) = 0 at hlast
  rw [hstate] at hlt hle hread htwo hnul hlast
  refine ⟨?_, by omega, hread⟩
  rcases Nat.lt_or_ge c'.startLine (c'.checkedIdx - 1) with hbefore | hbehind
  · have hterm : c'.readBuf.Terminated c'.startLine (c'.checkedIdx - 1) :=
      ⟨c'.checkedIdx - 2, by omega, by omega, hnul⟩
    have hend : c'.startLine + (c'.str c'.startLine).length < c'.checkedIdx - 1 := hterm.length_lt _
    omega
  · -- the text is at the second of them
    have hplace : c'.startLine = c'.checkedIdx - 1 := by omega
    have hterm : c'.readBuf.Terminated c'.startLine (c'.startLine + 1) :=
      ⟨c'.startLine, Nat.le_refl _, Nat.lt_succ_self _, by rw [hplace]; exact hlast⟩
    have hend : c'.startLine + (c'.str c'.startLine).length < c'.startLine + 1 := hterm.length_lt _
    exact absurd (List.length_eq_zero_iff.mp (by omega)) hne

/-- **A request line for `/`**, wherever it stands: the page is written behind the path, and it ends two
    bytes behind the line at the latest. -/
theorem parseRequestLine_page {post : Bool} (hterm : c.readBuf.Terminated text readBufferSize)
    (hroot : IsRequestLine (c.str text) post [47])
    (hroom : text + (c.str text).length + 2 ≤ readBufferSize) :
    ∃ c' url, c.parseRequestLine text = .ok (.noRequest, c') ∧ c'.url = some url ∧ text ≤ url ∧
      url + 10 ≤ text + (c.str text).length ∧
      c'.readBuf.slice (url + 1) 11 = bytes "judge.html" ++ [0] := by
  obtain ⟨M, W₁, T, W₂, V, hfields, -, hpath, hhead⟩ := hroot
  have hT : T ≠ [] := by
    rintro rfl
    cases hpath
  have hcomes := parseRequestLine_comes hterm
  rw [hfields.requestFields hT] at hcomes
  obtain ⟨c₀, url, hc₀, hstr, -, hpos, hplace⟩ := hcomes
  have hlen := congrArg List.length hfields.line
  have hV : V.length = 8 := length_of_strcasecmp hfields.version
  simp only [List.length_append, hV] at hlen
  have hhttp : afterScheme (bytes "http://") (c₀.str url) ≠ none := by
    rw [hstr]
    refine hasPath_iff.mpr fun hscheme => ?_
    rw [pathOf, if_pos hscheme] at hpath
    exact (List.dropWhile_suffix _).subset (by rw [hpath]; exact List.mem_singleton_self _)
  have hhead' : (pathOf (c₀.str url)).head? = some 47 := by
    rw [hstr, hpath]
    exact hhead
  obtain ⟨k, heq, hend, hparse⟩ := parseUrl_path hhttp hhead' (by rw [hstr]; omega)
  have hone : (c₀.str (url + k)).length = 1 := by
    rw [← heq, hstr, hpath]
    rfl
  rw [hstr] at hend
  rw [judge_one (c := { c₀ with url := some (url + k) }) hone (by omega)] at hparse
  refine ⟨_, url + k, hc₀.trans hparse, rfl, by omega, by omega, ?_⟩
  exact Mem.slice_blit c₀.readBuf (url + k + 1) (bytes "judge.html" ++ [0])

/-- **The page stays in its line.** A line that `parse_line` has cut is a request line for `/`: it is
    accepted, the eleven bytes that are written are between the beginning of the line and `m_checked_idx`,
    and none from there on has changed. -/
theorem parseRequestLine_judge {post : Bool} (hordered : c.startLine ≤ c.checkedIdx)
    (hread : c.readIdx ≤ readBufferSize) (hline : c.parseLine = (.lineOk, c'))
    (hroot : IsRequestLine (c'.str c'.startLine) post [47]) :
    ∃ c'' url, ({ c' with startLine := c'.checkedIdx } : HttpConn).parseRequestLine c'.startLine =
        .ok (.noRequest, c'') ∧
      c''.url = some url ∧ c'.startLine ≤ url + 1 ∧ url + 1 + 11 ≤ c'.checkedIdx ∧
      c''.readBuf.slice (url + 1) 11 = bytes "judge.html" ++ [0] ∧
      ∀ i, c'.checkedIdx ≤ i → c''.readBuf i = c'.readBuf i := by
  have hne : c'.str c'.startLine ≠ [] := by
    obtain ⟨M, W₁, T, W₂, V, hfields, -⟩ := hroot
    intro hnil
    have hlen := congrArg List.length hfields.line
    have hV : V.length = 8 := length_of_strcasecmp hfields.version
    rw [hnil] at hlen
    simp only [List.length_append, List.length_nil, hV] at hlen
    omega
  obtain ⟨hend, hchecked, hidx⟩ := parseLine_str hordered hline hne
  obtain ⟨c₁, hc₁⟩ : ∃ c₁ : HttpConn, c₁ = { c' with startLine := c'.checkedIdx } := ⟨_, rfl⟩
  have hbuf : c₁.readBuf = c'.readBuf := by rw [hc₁]
  have hstr : c₁.str c'.startLine = c'.str c'.startLine := by rw [str, hbuf, str]
  have hterm : c₁.readBuf.Terminated c'.startLine (c'.checkedIdx - 1) := by
    rw [hbuf]
    refine ⟨c'.startLine + (c'.str c'.startLine).length, by omega, by omega, ?_⟩
    exact Mem.cstr_nul (by change (c'.str c'.startLine).length < _; omega)
  have hlocal := parseRequestLine_local hterm (by rw [hc₁]; simp only; omega)
  rw [← hstr] at hroot hend
  obtain ⟨c'', url, hparse, hurl, hstart, hstop, hpage⟩ :=
    parseRequestLine_page (hterm.mono (by omega)) hroot (by omega)
  refine ⟨c'', url, hc₁ ▸ hparse, hurl, by omega, by omega, hpage, fun i hi => ?_⟩
  rw [(hlocal.frame hparse).above i (by omega), hbuf]

/-- The shortest line, and nothing between the page and the headers. -/
theorem parseRequestLine_judge_root : ∃ c c' c'' : HttpConn, ∃ url,
    c = (default : HttpConn).init.receive (bytes "GET / HTTP/1.1\r\n") ∧ c.parseLine = (.lineOk, c') ∧
    ({ c' with startLine := c'.checkedIdx } : HttpConn).parseRequestLine c'.startLine =
      .ok (.noRequest, c'') ∧
    c''.url = some url ∧ c'.startLine ≤ url + 1 ∧ url + 1 + 11 ≤ c'.checkedIdx ∧
    c''.readBuf.slice (url + 1) 11 = bytes "judge.html" ++ [0] ∧
    ∀ i, c'.checkedIdx ≤ i → c''.readBuf i = c'.readBuf i := by
  let c : HttpConn := (default : HttpConn).init.receive (bytes "GET / HTTP/1.1\r\n")
  have hline : c.parseLine = (.lineOk, c.parseLine.2) := Prod.ext (by decide +kernel) rfl
  have hstr : c.parseLine.2.str c.parseLine.2.startLine = bytes "GET / HTTP/1.1" := by decide +kernel
  have hroot : IsRequestLine (c.parseLine.2.str c.parseLine.2.startLine) false [47] := by
    rw [hstr]
    refine ⟨bytes "GET", [32], [47], [32], bytes "HTTP/1.1", ⟨by decide, .inl (by decide), ?_, ?_, ?_,
      by decide⟩, by decide, by decide, by decide⟩
    · exact ⟨by decide, List.forall_mem_singleton.mpr (by decide)⟩
    · exact List.forall_mem_singleton.mpr (by decide)
    · exact ⟨by decide, List.forall_mem_singleton.mpr (by decide)⟩
  obtain ⟨c'', url, h⟩ := parseRequestLine_judge (c := c) (Nat.le_refl _) (by decide) hline hroot
  exact ⟨c, c.parseLine.2, c'', url, rfl, hline, h⟩

end

end HttpConn
end Http
end LinuxServer
