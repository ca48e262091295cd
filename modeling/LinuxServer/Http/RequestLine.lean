import LinuxServer.Http.Get

/-!
# `Http/RequestLine.lean` — the grammar of a request line

`Fields` is the grammar: a method, blanks, a target, blanks and `HTTP/1.1`, and `pathOf` is what a target
is the address of. `parse_request_line` finds the fields of a line by cutting it at its blanks, and there is no
other way to cut it (`Fields.requestFields`, `fields_of_requestFields`).

The grammar is what the function accepts but for two kinds of lines (`parseRequestLine_iff`). The target
`http://host` has no path; `strchr` answers null, and null is compared with the other scheme before it is
tested. And the page that stands for `/` is written over what is behind the target, which is as long as
the page, but for its NUL: a line that has a single blank before `HTTP/1.1` and ends with the last byte of
the buffer has no room for that. `parse_line` makes no such line, since it cuts at a CR and an LF.
-/

set_option autoImplicit false

namespace LinuxServer
namespace Http

/-! ## The grammar -/

/-- A line and its five fields. -/
structure Fields (w M W₁ T W₂ V : List Byte) : Prop where
  line : w = M ++ (W₁ ++ (T ++ (W₂ ++ V)))
  method : strcasecmp M (bytes "GET") = true ∨ strcasecmp M (bytes "POST") = true
  blanks₁ : W₁ ≠ [] ∧ ∀ b ∈ W₁, b ∈ blanks
  target : ∀ b ∈ T, b ∉ blanks
  blanks₂ : W₂ ≠ [] ∧ ∀ b ∈ W₂, b ∈ blanks
  version : strcasecmp V (bytes "HTTP/1.1") = true

/-- The target without a scheme, if it has one, and without what is up to the next slash. -/
def pathOf (T : List Byte) : List Byte :=
  if strncasecmp T (bytes "http://") then (T.drop 7).dropWhile (· ≠ 47)
  else if strncasecmp T (bytes "https://") then (T.drop 8).dropWhile (· ≠ 47)
  else T

/-- A request line for `path`, of the method `POST` or of `GET`. -/
def IsRequestLine (w : List Byte) (post : Bool) (path : List Byte) : Prop :=
  ∃ M W₁ T W₂ V, Fields w M W₁ T W₂ V ∧ strcasecmp M (bytes "POST") = post ∧ pathOf T = path ∧
    path.head? = some 47

/-! ## One way to cut a line -/

/-- The blanks are a space and a tab. -/
theorem forall_blanks {P : Byte → Prop} (hspace : P 32) (htab : P 9) : ∀ b ∈ blanks, P b :=
  List.forall_mem_cons.mpr ⟨hspace, List.forall_mem_singleton.mpr htab⟩

/-- What differs from a word in case only holds no blanks, if that does not. -/
theorem noBlanks_of_strcasecmp {v w : List Byte} (h : strcasecmp v w = true)
    (hw : ∀ b ∈ blanks, b ∉ w.map tolower) : ∀ b ∈ v, b ∉ blanks := by
  intro b hb hblank
  have hmem := mem_of_strcasecmp h hb
  have hlower : ∀ b ∈ blanks, tolower b = b := forall_blanks (by decide) (by decide)
  rw [hlower b hblank] at hmem
  exact hw b hblank hmem

section
variable {w M W₁ T W₂ V : List Byte}

theorem Fields.noBlanks_method (h : Fields w M W₁ T W₂ V) : ∀ b ∈ M, b ∉ blanks := by
  rcases h.method with hget | hpost
  · exact noBlanks_of_strcasecmp hget (forall_blanks (by decide) (by decide))
  · exact noBlanks_of_strcasecmp hpost (forall_blanks (by decide) (by decide))

/-- A method is one of the two. -/
theorem strcasecmp_get {M : List Byte} (h : strcasecmp M (bytes "GET") = true) :
    strcasecmp M (bytes "POST") = false := by
  have hlength := length_of_strcasecmp h
  cases hpost : strcasecmp M (bytes "POST") with
  | false => rfl
  | true =>
    have hlength' := length_of_strcasecmp hpost
    rw [hlength] at hlength'
    cases hlength'

/-- What is behind the method. -/
theorem versionFields_append (hW₁ : ∀ b ∈ W₁, b ∈ blanks) (hT : T ≠ []) (htarget : ∀ b ∈ T, b ∉ blanks)
    {b : Byte} (hb : b ∈ blanks) (hW₂ : ∀ b ∈ W₂, b ∈ blanks) (hV : strcasecmp V (bytes "HTTP/1.1") = true) :
    versionFields (W₁ ++ (T ++ b :: (W₂ ++ V))) = some (T, W₂.length + 1) := by
  have hspan : strspn (W₁ ++ (T ++ b :: (W₂ ++ V))) blanks = W₁.length := by
    refine strspn_append hW₁ ?_
    intro a ha
    obtain ⟨t, T', rfl⟩ := List.exists_cons_of_ne_nil hT
    obtain rfl : t = a := Option.some.inj ha
    exact htarget t List.mem_cons_self
  have hspan' : strspn (W₂ ++ V) blanks = W₂.length := by
    refine strspn_append hW₂ ?_
    intro a ha
    exact noBlanks_of_strcasecmp hV (forall_blanks (by decide) (by decide)) a (List.mem_of_head? ha)
  unfold versionFields
  simp only [hspan, List.drop_left]
  rw [strpbrk_append htarget hb, Option.bind_some]
  have hrest : (T ++ b :: (W₂ ++ V)).drop (T.length + 1) = W₂ ++ V := List.drop_length_add_append 1
  simp only [hrest, hspan', List.drop_left, List.take_left]
  rw [if_pos hV]

/-- **The fields of a line are found**, if the target is not empty. -/
theorem Fields.requestFields (h : Fields w M W₁ T W₂ V) (hT : T ≠ []) :
    requestFields w = some (strcasecmp M (bytes "POST"), T, W₂.length) := by
  obtain ⟨b₁, U₁, rfl⟩ := List.exists_cons_of_ne_nil h.blanks₁.1
  obtain ⟨b₂, U₂, rfl⟩ := List.exists_cons_of_ne_nil h.blanks₂.1
  obtain ⟨hb₁, hU₁⟩ := List.forall_mem_cons.mp h.blanks₁.2
  obtain ⟨hb₂, hU₂⟩ := List.forall_mem_cons.mp h.blanks₂.2
  have hline : w = M ++ b₁ :: (U₁ ++ (T ++ b₂ :: (U₂ ++ V))) := h.line
  have hrest : w.drop (M.length + 1) = U₁ ++ (T ++ b₂ :: (U₂ ++ V)) := by
    rw [hline]
    exact List.drop_length_add_append 1
  have htake : w.take M.length = M := by rw [hline, List.take_left]
  have hcut : strpbrk w blanks = some M.length := by
    rw [hline]
    exact strpbrk_append h.noBlanks_method hb₁
  unfold Http.requestFields
  rw [hcut, Option.bind_some, htake, hrest, versionFields_append hU₁ hT h.target hb₂ hU₂ h.version]
  rcases h.method with hget | hpost
  · rw [if_pos hget, strcasecmp_get hget]
    rfl
  · have hget : strcasecmp M (bytes "GET") = false := by
      cases hget : strcasecmp M (bytes "GET") with
      | false => rfl
      | true => rw [strcasecmp_get hget] at hpost; cases hpost
    rw [hget, if_neg Bool.false_ne_true, if_pos hpost, hpost]
    rfl

theorem fields_of_versionFields {n : Nat} (h : versionFields w = some (T, n)) :
    T ≠ [] ∧ ∃ W₁ b W₂ V, w = W₁ ++ (T ++ b :: (W₂ ++ V)) ∧ (∀ b ∈ W₁, b ∈ blanks) ∧ (∀ b ∈ T, b ∉ blanks) ∧
      b ∈ blanks ∧ (∀ b ∈ W₂, b ∈ blanks) ∧ strcasecmp V (bytes "HTTP/1.1") = true ∧ W₂.length + 1 = n := by
  simp only [versionFields, drop_strspn] at h
  obtain ⟨j, hj, hif⟩ := Option.bind_eq_some_iff.mp h
  split at hif
  · rename_i hversion
    obtain ⟨rfl, rfl⟩ := Prod.mk.inj (Option.some.inj hif)
    obtain ⟨b, hsplit, hb, htarget⟩ := strpbrk_split hj
    have hspan : ∀ v : List Byte, v = v.takeWhile (· ∈ blanks) ++ v.dropWhile (· ∈ blanks) :=
      fun v => List.takeWhile_append_dropWhile.symm
    have hall : ∀ v : List Byte, ∀ b ∈ v.takeWhile (· ∈ blanks), b ∈ blanks := by
      intro v b hb
      exact of_decide_eq_true (List.mem_takeWhile_imp (p := fun b : Byte => b ∈ blanks) hb)
    refine ⟨?_, w.takeWhile (· ∈ blanks), b, _, _, ?_, hall w, htarget, hb, hall _, hversion, rfl⟩
    · -- the first byte behind the blanks is none
      intro hnil
      rw [hnil, List.nil_append] at hsplit
      have hhead := List.head?_dropWhile_not (fun b => decide (b ∈ blanks)) w
      rw [hsplit] at hhead
      exact absurd hb (of_decide_eq_false hhead)
    · rw [← hspan, ← hsplit]
      exact hspan w
  · cases hif

/-- What is found are fields of the line. -/
theorem fields_of_requestFields {post : Bool} {n : Nat} (h : requestFields w = some (post, T, n)) :
    T ≠ [] ∧ ∃ M W₁ W₂ V, Fields w M W₁ T W₂ V ∧ strcasecmp M (bytes "POST") = post ∧ W₂.length = n := by
  obtain ⟨i, hi, hif⟩ := Option.bind_eq_some_iff.mp h
  obtain ⟨b, hsplit, hb, -⟩ := strpbrk_split hi
  have hfields : ∃ m, versionFields (w.drop (i + 1)) = some (T, n) ∧ m = w.take i ∧
      (strcasecmp m (bytes "GET") = true ∨ strcasecmp m (bytes "POST") = true) ∧
      strcasecmp m (bytes "POST") = post := by
    refine ⟨w.take i, ?_⟩
    split at hif
    · rename_i hget
      obtain ⟨fields, hfields, heq⟩ := Option.map_eq_some_iff.mp hif
      obtain ⟨rfl, rfl⟩ := Prod.mk.inj heq
      exact ⟨hfields, rfl, .inl hget, strcasecmp_get hget⟩
    · split at hif
      · rename_i hpost
        obtain ⟨fields, hfields, heq⟩ := Option.map_eq_some_iff.mp hif
        obtain ⟨rfl, rfl⟩ := Prod.mk.inj heq
        exact ⟨hfields, rfl, .inr hpost, hpost⟩
      · cases hif
  obtain ⟨M, hfields, hM, hmethod, hpost⟩ := hfields
  obtain ⟨hT, W₁, b₂, W₂, V, hrest, hW₁, htarget, hb₂, hW₂, hV, hn⟩ := fields_of_versionFields hfields
  refine ⟨hT, M, b :: W₁, b₂ :: W₂, V, ⟨?_, hmethod, ⟨List.cons_ne_nil _ _, ?_⟩, htarget,
    ⟨List.cons_ne_nil _ _, ?_⟩, hV⟩, hpost, hn⟩
  · rw [hsplit, ← hM, hrest]
    rfl
  · exact List.forall_mem_cons.mpr ⟨hb, hW₁⟩
  · exact List.forall_mem_cons.mpr ⟨hb₂, hW₂⟩

/-! ## The path of a target -/

theorem afterScheme_eq_none {scheme : List Byte} :
    afterScheme scheme T = none ↔ strncasecmp T scheme = true ∧ 47 ∉ T.drop scheme.length := by
  unfold afterScheme
  split
  · rename_i hscheme
    rw [Option.map_eq_none_iff, strchr_eq_none]
    exact (and_iff_right hscheme).symm
  · rename_i hscheme
    refine iff_of_false (Option.some_ne_none T) ?_
    intro hboth
    exact hscheme hboth.1

/-- A target with a path, if it is an `http` address. -/
theorem hasPath_iff : afterScheme (bytes "http://") T ≠ none ↔
    (strncasecmp T (bytes "http://") = true → 47 ∈ T.drop 7) := by
  rw [ne_eq, afterScheme_eq_none, not_and, not_not]
  rfl

theorem afterScheme_eq {scheme : List Byte} (hscheme : strncasecmp T scheme = true)
    (hslash : 47 ∈ T.drop scheme.length) :
    afterScheme scheme T = some ((T.drop scheme.length).dropWhile (· ≠ 47)) := by
  unfold afterScheme
  rw [if_pos hscheme]
  cases hi : strchr (T.drop scheme.length) 47 with
  | none => exact absurd hslash (strchr_eq_none.mp hi)
  | some i =>
    rw [Option.map_some, ← drop_strchr hi, List.drop_drop]

theorem head?_dropWhile_slash (hslash : 47 ∈ T) : (T.dropWhile (· ≠ 47)).head? = some 47 := by
  induction T with
  | nil => cases hslash
  | cons b T ih =>
    by_cases hb : b = 47
    · rw [List.dropWhile_cons_of_neg (by simpa using hb), hb]
      rfl
    · rw [List.dropWhile_cons_of_pos (by simpa using hb)]
      rcases List.mem_cons.mp hslash with hfirst | hrest
      · exact absurd hfirst.symm hb
      · exact ih hrest

/-- What begins with a slash begins with no scheme. -/
theorem strncasecmp_slash {b : Byte} {scheme : List Byte} (hhead : T.head? = some 47)
    (hb : tolower b ≠ 47) : strncasecmp T (b :: scheme) = false := by
  obtain ⟨T', rfl⟩ := List.head?_eq_some_iff.mp hhead
  refine decide_eq_false ?_
  intro heq
  rw [List.length_cons, List.take_succ_cons, List.map_cons, List.map_cons] at heq
  exact hb (List.cons.inj heq).1.symm

/-- **The path of a target** is what the two steps of `parse_url` leave of it. -/
theorem pathOf_eq (hpath : afterScheme (bytes "http://") T ≠ none) :
    (afterScheme (bytes "http://") T >>= afterScheme (bytes "https://")).getD [] = pathOf T := by
  have hlength : (bytes "http://").length = 7 := by decide
  have hlength' : (bytes "https://").length = 8 := by decide
  unfold pathOf
  by_cases hhttp : strncasecmp T (bytes "http://") = true
  · have hslash : 47 ∈ T.drop 7 := by
      by_contra hslash
      exact hpath (afterScheme_eq_none.mpr ⟨hhttp, hslash⟩)
    have hno : strncasecmp ((T.drop 7).dropWhile (· ≠ 47)) (bytes "https://") = false :=
      strncasecmp_slash (head?_dropWhile_slash hslash) (by decide)
    rw [if_pos hhttp, afterScheme_eq hhttp hslash]
    simp only [hlength, bind, Option.bind_some]
    rw [afterScheme, if_neg (Bool.eq_false_iff.mp hno), Option.getD_some]
  · rw [if_neg hhttp, afterScheme, if_neg hhttp]
    simp only [bind, Option.bind_some]
    by_cases hhttps : strncasecmp T (bytes "https://") = true
    · rw [if_pos hhttps]
      by_cases hslash : 47 ∈ T.drop 8
      · rw [afterScheme_eq hhttps hslash, hlength', Option.getD_some]
      · rw [afterScheme_eq_none.mpr ⟨hhttps, hslash⟩, Option.getD_none]
        refine (List.dropWhile_eq_nil_iff.mpr ?_).symm
        intro b hb
        refine decide_eq_true ?_
        rintro rfl
        exact hslash hb
    · rw [if_neg hhttps, afterScheme, if_neg hhttps, Option.getD_some]

/-- What `m_url` is set to, and what becomes of `/`. -/
theorem urlTarget_eq (hpath : afterScheme (bytes "http://") T ≠ none) (hhead : (pathOf T).head? = some 47) :
    urlTarget T = some (if pathOf T = [47] then bytes "/judge.html" else pathOf T) := by
  have heq := pathOf_eq hpath
  unfold urlTarget
  cases hw : (afterScheme (bytes "http://") T >>= afterScheme (bytes "https://")) with
  | none =>
    rw [hw, Option.getD_none] at heq
    rw [← heq] at hhead
    cases hhead
  | some path =>
    rw [hw, Option.getD_some] at heq
    rw [heq, Option.map_some]
    obtain ⟨rest, hrest⟩ := List.head?_eq_some_iff.mp hhead
    rw [hrest]
    cases rest with
    | nil => rfl
    | cons b rest => rw [if_neg (by simp), if_neg (by simp)]

end

namespace HttpConn

section
variable {c : HttpConn} {url text : Nat}

/-! ## What is made of a target -/

theorem judge_room (hroom : (c.str url).length = 1 → url + 12 ≤ readBufferSize) :
    ∃ c', c.judge url = .ok c' := by
  unfold judge
  split
  · rename_i hone
    have hlength : (bytes "judge.html").length = 10 := by decide
    have hfits := hroom hone
    refine ⟨_, if_pos ?_⟩
    omega
  · exact ⟨c, rfl⟩

theorem judge_crowded (hone : (c.str url).length = 1) (hroom : readBufferSize < url + 12) :
    c.judge url = .error .outOfBounds := by
  have hlength : (bytes "judge.html").length = 10 := by decide
  unfold judge
  rw [if_pos hone]
  refine if_neg ?_
  omega

/-- The `http` address without a path. -/
theorem parseUrl_null (hpath : afterScheme (bytes "http://") (c.str url) = none) :
    c.parseUrl url = .error .nullPointer := by
  rcases parseUrl_cases c url with ⟨-, hp⟩ | ⟨hw, -⟩ | ⟨-, -, hw, -⟩
  · exact hp
  · exact absurd hpath hw
  · exact absurd hpath hw

/-- A target that is not at a path. -/
theorem parseUrl_rejects (hpath : afterScheme (bytes "http://") (c.str url) ≠ none)
    (hhead : (pathOf (c.str url)).head? ≠ some 47) (hlt : url + (c.str url).length < readBufferSize) :
    ∃ c', c.parseUrl url = .ok (.badRequest, c') := by
  have heq := pathOf_eq hpath
  rcases parseUrl_cases c url with ⟨hnone, -⟩ | ⟨-, -, hp⟩ | ⟨k, hk, -, hw, hp⟩
  · exact absurd hnone hpath
  · exact ⟨_, hp⟩
  · rw [hw, Option.getD_some] at heq
    rw [← heq, ne_eq, head?_str (by omega)] at hhead
    rw [hp, if_pos hhead]
    exact ⟨_, rfl⟩

/-- A target that is. -/
theorem parseUrl_path (hpath : afterScheme (bytes "http://") (c.str url) ≠ none)
    (hhead : (pathOf (c.str url)).head? = some 47) (hlt : url + (c.str url).length < readBufferSize) :
    ∃ k, pathOf (c.str url) = c.str (url + k) ∧ url + k + (c.str (url + k)).length = url + (c.str url).length ∧
      c.parseUrl url = (({ c with url := some (url + k) } : HttpConn).judge (url + k)).map
        fun c => (.noRequest, { c with checkState := .header }) := by
  have heq := pathOf_eq hpath
  rcases parseUrl_cases c url with ⟨hnone, -⟩ | ⟨-, hw, -⟩ | ⟨k, hk, -, hw, hp⟩
  · exact absurd hnone hpath
  · rw [hw, Option.getD_none] at heq
    rw [← heq] at hhead
    cases hhead
  · rw [hw, Option.getD_some] at heq
    rw [← heq, head?_str (by omega)] at hhead
    rw [if_neg (not_not_intro hhead)] at hp
    exact ⟨k, heq.symm, str_end hk, hp⟩

/-- It is accepted, with the page that stands for `/` if there is room for that. -/
theorem parseUrl_accepted (hpath : afterScheme (bytes "http://") (c.str url) ≠ none)
    (hhead : (pathOf (c.str url)).head? = some 47) (hlt : url + (c.str url).length < readBufferSize)
    (hroom : pathOf (c.str url) = [47] → url + (c.str url).length + 11 ≤ readBufferSize) :
    ∃ c', c.parseUrl url = .ok (.noRequest, c') ∧ c'.checkState = .header ∧ c'.cgi = c.cgi ∧
      c'.url.map c'.str =
        some (if pathOf (c.str url) = [47] then bytes "/judge.html" else pathOf (c.str url)) := by
  obtain ⟨k, heq, hend, hp⟩ := parseUrl_path hpath hhead hlt
  have hone : (c.str (url + k)).length = 1 ↔ pathOf (c.str url) = [47] := by
    rw [heq] at hhead ⊢
    obtain ⟨rest, hrest⟩ := List.head?_eq_some_iff.mp hhead
    rw [hrest]
    simp
  have hfits : (c.str (url + k)).length = 1 → url + k + 12 ≤ readBufferSize := by
    intro hlength
    have hfits := hroom (hone.mp hlength)
    omega
  obtain ⟨c₂, hc₂⟩ := judge_room (c := { c with url := some (url + k) }) hfits
  rw [hc₂] at hp
  have htarget : Targets c _ (urlTarget (c.str url)) := parseUrl_target hp
  refine ⟨_, hp, rfl, htarget.cgi, ?_⟩
  rw [htarget.url, urlTarget_eq hpath hhead]

/-- There is none. -/
theorem parseUrl_crowded (hpath : afterScheme (bytes "http://") (c.str url) ≠ none)
    (hhead : pathOf (c.str url) = [47]) (hlt : url + (c.str url).length < readBufferSize)
    (hroom : readBufferSize < url + (c.str url).length + 11) : ∃ f, c.parseUrl url = .error f := by
  obtain ⟨k, heq, hend, hp⟩ := parseUrl_path hpath (by rw [hhead]; rfl) hlt
  have hone : (c.str (url + k)).length = 1 := by rw [← heq, hhead]; rfl
  refine ⟨.outOfBounds, ?_⟩
  rw [hp, judge_crowded (c := { c with url := some (url + k) }) hone (by omega)]
  rfl

/-! ## The request line -/

/-- **The grammar is what is accepted**: a line of it brings `parse_request_line` to the headers, with
    `m_url` at the path and `cgi` set for a `POST`; any other is a `BAD_REQUEST`. -/
structure ParsesLine (c : HttpConn) (text : Nat) : Prop where
  accepted : ∀ post path, IsRequestLine (c.str text) post path →
    ∃ c', c.parseRequestLine text = .ok (.noRequest, c') ∧ c'.checkState = .header ∧
      c'.url.map c'.str = some (if path = [47] then bytes "/judge.html" else path) ∧
      c'.cgi = if post then 1 else c.cgi
  rejected : (∀ post path, ¬ IsRequestLine (c.str text) post path) →
    ∃ c', c.parseRequestLine text = .ok (.badRequest, c')

/-- A line that is parsed as it should be is no fault. -/
theorem ParsesLine.no_fault (h : c.ParsesLine text) (f : Fault) : c.parseRequestLine text ≠ .error f := by
  intro hf
  by_cases hline : ∃ post path, IsRequestLine (c.str text) post path
  · obtain ⟨post, path, hline⟩ := hline
    obtain ⟨c', hc', -⟩ := h.accepted post path hline
    cases hf.symm.trans hc'
  · obtain ⟨c', hc'⟩ := h.rejected fun post path hpath => hline ⟨post, path, hpath⟩
    cases hf.symm.trans hc'

/-- **`parse_request_line` accepts its grammar** if and only if the target is no `http` address without a
    path, and there is room for the page that stands for `/`. -/
theorem parseRequestLine_iff (h : c.readBuf.Terminated text readBufferSize) :
    c.ParsesLine text ↔ ∀ M W₁ T W₂ V, Fields (c.str text) M W₁ T W₂ V →
      (strncasecmp T (bytes "http://") = true → 47 ∈ T.drop 7) ∧
      (pathOf T = [47] → W₂.length = 1 → text + (c.str text).length + 1 < readBufferSize) := by
  have hend := h.length_lt (readBufferSize - text)
  change text + (c.str text).length < readBufferSize at hend
  have hcomes := parseRequestLine_comes h
  constructor
  · intro hparses M W₁ T W₂ V hfields
    by_cases hT : T = []
    · subst hT
      refine ⟨fun hhttp => ?_, fun hpath => ?_⟩
      · cases hhttp
      · cases hpath
    rw [hfields.requestFields hT] at hcomes
    obtain ⟨c', url, hc', rfl, -, hpos, hplace⟩ := hcomes
    have hpath : afterScheme (bytes "http://") (c'.str url) ≠ none := by
      intro hnone
      exact hparses.no_fault _ (hc'.trans (parseUrl_null hnone))
    refine ⟨hasPath_iff.mp hpath, fun hslash hone => ?_⟩
    by_contra hfull
    obtain ⟨f, hf⟩ := parseUrl_crowded hpath hslash (by omega) (by omega)
    exact hparses.no_fault f (hc'.trans hf)
  · intro hcond
    constructor
    · rintro post path ⟨M, W₁, T, W₂, V, hfields, hpost, rfl, hhead⟩
      have hT : T ≠ [] := by
        rintro rfl
        cases hhead
      obtain ⟨hhttp, hroom⟩ := hcond M W₁ T W₂ V hfields
      rw [hfields.requestFields hT] at hcomes
      obtain ⟨c', url, hc', rfl, hcgi, hpos, hplace⟩ := hcomes
      have hpath := hasPath_iff.mpr hhttp
      have hfits : pathOf (c'.str url) = [47] → url + (c'.str url).length + 11 ≤ readBufferSize := by
        intro hslash
        have hroom' := hroom hslash
        omega
      obtain ⟨c'', hc'', hstate, hcgi', hurl⟩ := parseUrl_accepted hpath hhead (by omega) hfits
      refine ⟨c'', hc'.trans hc'', hstate, hurl, ?_⟩
      rw [hcgi', hcgi, ← hpost]
      rfl
    · intro hno
      cases hf : requestFields (c.str text) with
      | none =>
        rw [hf] at hcomes
        exact hcomes
      | some fields =>
        obtain ⟨post, T, n⟩ := fields
        obtain ⟨hT, M, W₁, W₂, V, hfields, hpost, hn⟩ := fields_of_requestFields hf
        obtain ⟨hhttp, -⟩ := hcond M W₁ T W₂ V hfields
        rw [hf] at hcomes
        obtain ⟨c', url, hc', rfl, -, hpos, hplace⟩ := hcomes
        have hpath := hasPath_iff.mpr hhttp
        have hhead : (pathOf (c'.str url)).head? ≠ some 47 := by
          intro hhead
          exact hno post _ ⟨M, W₁, c'.str url, W₂, V, hfields, hpost, rfl, hhead⟩
        obtain ⟨c'', hc''⟩ := parseUrl_rejects hpath hhead (by omega)
        exact ⟨c'', hc'.trans hc''⟩

/-- A request for `/`. -/
theorem parseRequestLine_iff_root :
    ((default : HttpConn).init.receive (bytes "GET / HTTP/1.1")).ParsesLine 0 := by
  let c : HttpConn := (default : HttpConn).init.receive (bytes "GET / HTTP/1.1")
  have hstr : c.str 0 = bytes "GET / HTTP/1.1" := by decide +kernel
  have hterm : c.readBuf.Terminated 0 readBufferSize := ⟨14, by decide, by decide, by decide +kernel⟩
  refine (parseRequestLine_iff hterm).mpr ?_
  intro M W₁ T W₂ V hfields
  rw [hstr] at hfields ⊢
  by_cases hT : T = []
  · subst hT
    refine ⟨?_, ?_⟩
    · intro hhttp
      cases hhttp
    · intro hpath
      cases hpath
  · have hfound : requestFields (bytes "GET / HTTP/1.1") = some (false, [47], 1) := by decide +kernel
    rw [hfields.requestFields hT] at hfound
    obtain ⟨-, htarget⟩ := Prod.mk.inj (Option.some.inj hfound)
    obtain ⟨rfl, -⟩ := Prod.mk.inj htarget
    refine ⟨?_, ?_⟩
    · intro hhttp
      cases hhttp
    · intro _ _
      decide

/-- **It fails** for the address of a host: no line of the grammar, and null is dereferenced. -/
theorem hostAddress_fault : ∃ c : HttpConn, c.readBuf.Terminated 0 readBufferSize ∧
    c.str 0 = bytes "GET http://host HTTP/1.1" ∧ c.parseRequestLine 0 = .error .nullPointer ∧
    ¬ c.ParsesLine 0 := by
  have hnull : ((default : HttpConn).init.receive (bytes "GET http://host HTTP/1.1")).parseRequestLine 0 =
      .error .nullPointer := by rfl
  refine ⟨_, ⟨24, by decide, by decide, by decide +kernel⟩, by decide +kernel, hnull, ?_⟩
  intro hparses
  exact hparses.no_fault .nullPointer hnull

end

end HttpConn
end Http
end LinuxServer
