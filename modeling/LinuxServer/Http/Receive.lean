import LinuxServer.Http.Lines

/-!
# `Http/Receive.lean` — parsing a line does not look at what is behind it

`parse_request_line` and `parse_headers` walk a C string and cut it in place; `strcat` writes a few
bytes behind the URL it is given. All of that stays below the end of the line, and so it makes no
difference to it whether more bytes have been received behind: parsing commutes with `receive`.

`Local e c F` says this of one call, `F` at `c`, together with what the call leaves alone. It is
proved part by part, from the last part of `parse_request_line` to the whole, and the one piece of
arithmetic is the room `strcat` needs: the eleven bytes behind a URL of length one are the blank and
the eight bytes of `HTTP/1.1` behind it, and the CR and LF of the line.
-/

set_option autoImplicit false

namespace LinuxServer
namespace Http
namespace HttpConn

/-! ## Strings -/

section
variable {c : HttpConn} {p q e k : Nat}

theorem str_receive (h : c.readBuf.Terminated p c.readIdx) (x : List Byte) :
    (c.receive x).str p = c.str p :=
  (Mem.cstr_congr h (fun _ _ hi => (Mem.blit_lt _ _ hi).symm) _).symm

theorem str_drop (h : k ≤ (c.str p).length) : c.str (p + k) = (c.str p).drop k := by
  rw [str, ← Nat.sub_sub, Mem.cstr_drop h]
  rfl

theorem str_put (h : k ≤ (c.str p).length) : (c.put (p + k) 0).str p = (c.str p).take k :=
  Mem.cstr_put h

/-- A write below a string does not change it. -/
theorem str_put_lt (h : c.readBuf.Terminated p e) (hq : q < p) (b : Byte) :
    (c.put q b).str p = c.str p :=
  (Mem.cstr_congr h (fun _ hi _ => (Mem.put_ne _ _ (by omega)).symm) _).symm

theorem terminated_put_lt (h : c.readBuf.Terminated p e) (hq : q < p) (b : Byte) :
    (c.put q b).readBuf.Terminated p e :=
  h.congr fun _ hi _ => (Mem.put_ne _ _ (by omega)).symm

/-- A string that was cut ends at the cut. -/
theorem terminated_put (hk : p + k < e) : (c.put (p + k) 0).readBuf.Terminated p e :=
  ⟨p + k, Nat.le_add_right _ _, hk, Mem.put_self ..⟩

end

/-! ## What a call leaves alone -/

/-- A call that assigns to the fields of the request line, and to memory below `e`. -/
structure Frame (e : Nat) (c c' : HttpConn) : Prop where
  readIdx : c'.readIdx = c.readIdx
  checkedIdx : c'.checkedIdx = c.checkedIdx
  startLine : c'.startLine = c.startLine
  contentLength : c'.contentLength = c.contentLength
  linger : c'.linger = c.linger
  string : c'.string = c.string
  state : c'.checkState = c.checkState ∨ c'.checkState = .header
  above : ∀ i, e ≤ i → c'.readBuf i = c.readBuf i
  uncr : ∀ i, c'.readBuf i = cr → c.readBuf i = cr

theorem Frame.refl (e : Nat) (c : HttpConn) : Frame e c c :=
  ⟨rfl, rfl, rfl, rfl, rfl, rfl, .inl rfl, fun _ _ => rfl, fun _ h => h⟩

theorem Frame.trans {e : Nat} {c c' c'' : HttpConn} (h : Frame e c c') (h' : Frame e c' c'') :
    Frame e c c'' :=
  ⟨h'.readIdx.trans h.readIdx, h'.checkedIdx.trans h.checkedIdx, h'.startLine.trans h.startLine,
    h'.contentLength.trans h.contentLength, h'.linger.trans h.linger, h'.string.trans h.string,
    h'.state.elim (fun e => h.state.imp e.trans e.trans) .inr,
    fun i hi => (h'.above i hi).trans (h.above i hi), fun i hi => h.uncr i (h'.uncr i hi)⟩

theorem Frame.put {e p : Nat} (c : HttpConn) (hp : p < e) : Frame e c (c.put p 0) := by
  refine ⟨rfl, rfl, rfl, rfl, rfl, rfl, .inl rfl, fun _ hi => Mem.put_ne _ _ (by omega), fun i hi => ?_⟩
  by_cases hip : i = p
  · subst hip
    rw [show (c.put i 0).readBuf i = 0 from Mem.put_self ..] at hi
    exact absurd hi (by decide)
  · rwa [show (c.put p 0).readBuf i = c.readBuf i from Mem.put_ne _ _ hip] at hi

/-- What a result is when more has been received. -/
def onReceive (x : List Byte) (r : Except Fault (HttpCode × HttpConn)) :
    Except Fault (HttpCode × HttpConn) := r.map fun a => (a.1, a.2.receive x)

/-- `m_url` is null, or a string that ends below `e`. -/
def UrlEnds (e : Nat) (c : HttpConn) : Prop := ∀ u, c.url = some u → c.readBuf.Terminated u e

/-- The call `F` at `c` neither reads nor writes at `e` or behind; the URL it leaves ends below `e`;
    and if it is not `BAD_REQUEST` it has gone on to the headers. -/
structure Local (e : Nat) (F : HttpConn → Except Fault (HttpCode × HttpConn)) (c : HttpConn) :
    Prop where
  receive : ∀ x, F (c.receive x) = onReceive x (F c)
  frame : ∀ {r c'}, F c = .ok (r, c') → Frame e c c'
  url : ∀ {r c'}, F c = .ok (r, c') → UrlEnds e c'
  code : ∀ {r c'}, F c = .ok (r, c') → r = .badRequest ∨ r = .noRequest ∧ c'.checkState = .header

/-- An early `return BAD_REQUEST`. -/
theorem Local.bad {e : Nat} {c : HttpConn} {G : HttpConn → HttpConn}
    (hreceive : ∀ x, G (c.receive x) = (G c).receive x) (hframe : Frame e c (G c))
    (hurl : UrlEnds e (G c)) : Local e (fun c => .ok (.badRequest, G c)) c := by
  refine ⟨fun x => by rw [hreceive]; rfl, fun {r c'} h => ?_, fun {r c'} h => ?_, fun {r c'} h => ?_⟩
  · cases h; exact hframe
  · cases h; exact hurl
  · cases h; exact Or.inl rfl

/-- A fault. -/
theorem Local.fault {e : Nat} {c : HttpConn} {F : HttpConn → Except Fault (HttpCode × HttpConn)}
    {f : Fault} (hc : F c = .error f) (hx : ∀ x, F (c.receive x) = .error f) : Local e F c := by
  refine ⟨fun x => by rw [hx, hc]; rfl, fun {r c'} h => ?_, fun {r c'} h => ?_, fun {r c'} h => ?_⟩
  all_goals
    rw [hc] at h
    cases h

/-- A call on what an assignment made of the connection. -/
theorem Local.comp {e : Nat} {c : HttpConn} {F : HttpConn → Except Fault (HttpCode × HttpConn)}
    {G : HttpConn → HttpConn} (h : Local e F (G c))
    (hreceive : ∀ x, G (c.receive x) = (G c).receive x) (hframe : Frame e c (G c)) :
    Local e (fun c => F (G c)) c :=
  ⟨fun x => by rw [hreceive]; exact h.receive x, fun {_ _} h' => hframe.trans (h.frame h'),
    fun {_ _} h' => h.url h', fun {_ _} h' => h.code h'⟩

theorem Local.congr {e : Nat} {c : HttpConn} {F F' : HttpConn → Except Fault (HttpCode × HttpConn)}
    (h : Local e F c) (hc : F' c = F c) (hx : ∀ x, F' (c.receive x) = F (c.receive x)) :
    Local e F' c :=
  ⟨fun x => by rw [hx, hc]; exact h.receive x, fun {_ _} h' => h.frame (hc ▸ h'),
    fun {_ _} h' => h.url (hc ▸ h'), fun {_ _} h' => h.code (hc ▸ h')⟩

theorem UrlEnds.none {e : Nat} {c : HttpConn} (h : c.url = none) : UrlEnds e c := by
  intro u hu
  rw [h] at hu
  cases hu

theorem UrlEnds.some {e u : Nat} {c : HttpConn} (h : c.url = some u) (ht : c.readBuf.Terminated u e) :
    UrlEnds e c := by
  intro u' hu
  rw [h] at hu
  cases hu
  exact ht

/-! ## `parse_request_line` -/

section
variable {c : HttpConn} {e : Nat}

theorem skipScheme_receive {url : Nat} (h : c.readBuf.Terminated url c.readIdx) (scheme x : List Byte) :
    (c.receive x).skipScheme scheme (some url) = c.skipScheme scheme (some url) := by
  simp only [skipScheme, str_receive h]
  by_cases hs : strncasecmp (c.str url) scheme
  · have hterm : c.readBuf.Terminated (url + scheme.length) c.readIdx :=
      h.offset (strncasecmp_length hs)
    simp only [hs, if_true, str_receive hterm]
  · simp only [hs, if_false, Bool.false_eq_true]

/-- What is behind the scheme is the rest of the string. -/
theorem skipScheme_some {url url' : Nat} {scheme : List Byte}
    (h : c.skipScheme scheme (some url) = .ok (some url')) :
    ∃ k, url' = url + k ∧ k ≤ (c.str url).length := by
  unfold skipScheme at h
  by_cases hs : strncasecmp (c.str url) scheme
  · simp only [hs, if_true, Except.ok.injEq, Option.map_eq_some_iff] at h
    obtain ⟨i, hi, rfl⟩ := h
    have hlt := strchr_lt hi
    have hle := strncasecmp_length hs
    rw [str_drop hle, List.length_drop] at hlt
    exact ⟨scheme.length + i, by omega, by omega⟩
  · simp only [hs, if_false, Bool.false_eq_true, Except.ok.injEq, Option.some.injEq] at h
    exact ⟨0, h.symm, Nat.zero_le _⟩

theorem judge_receive {url : Nat} (h : c.readBuf.Terminated url e)
    (hroom : url + (c.str url).length + 11 ≤ e) (he : e ≤ c.readIdx) (x : List Byte) :
    (c.receive x).judge url = (c.judge url).map (receive · x) := by
  simp only [judge, strcat, str_receive (h.mono he)]
  split
  · split
    · have hblit := Mem.blit_blit c.readBuf (p := url + (c.str url).length) (q := c.readIdx)
        (bytes "judge.html" ++ [0]) x (by simp only [List.length_append]; exact Nat.le_trans hroom he)
      simp only [Except.map, receive, hblit]
    · rfl
  · rfl

theorem judge_frame {url : Nat} (h : c.readBuf.Terminated url e)
    (hroom : url + (c.str url).length + 11 ≤ e) {c' : HttpConn} (hc' : c.judge url = .ok c') :
    Frame e c c' ∧ c'.url = c.url ∧ c'.readBuf.Terminated url e := by
  have hlen : (bytes "judge.html" ++ [0]).length = 11 := by decide
  simp only [judge, strcat] at hc'
  split at hc'
  · split at hc'
    · cases hc'
      refine ⟨⟨rfl, rfl, rfl, rfl, rfl, rfl, .inl rfl,
        fun i hi => Mem.blit_ge _ _ (Nat.le_trans hroom hi), fun i hi => ?_⟩, rfl, ?_⟩
      · exact Mem.of_blit_eq hi (by decide)
      · refine ⟨url + (c.str url).length + 10, by omega, by omega, ?_⟩
        exact (Mem.blit_at _ _ (i := 10) (by omega)).trans rfl
    · cases hc'
  · cases hc'; exact ⟨Frame.refl e c, rfl, h⟩

/-- The path, once the scheme is gone. -/
theorem parsePath_local {url : Nat} (h : c.readBuf.Terminated url e)
    (hroom : url + (c.str url).length + 11 ≤ e) (he : e ≤ c.readIdx) :
    Local e (fun c => do
      let c := { c with url := some url }
      if c.readBuf url ≠ 47 then return (.badRequest, c)
      else
        let c ← c.judge url
        return (.noRequest, { c with checkState := .header })) c := by
  have hlt : url < c.readIdx := by obtain ⟨q, hq, hqe, -⟩ := h; omega
  have hsame : ∀ x, (c.receive x).readBuf url = c.readBuf url := fun x => Mem.blit_lt _ _ hlt
  by_cases hslash : c.readBuf url ≠ 47
  · refine Local.congr (Local.bad (G := fun c => { c with url := some url }) (fun _ => rfl)
      ⟨rfl, rfl, rfl, rfl, rfl, rfl, .inl rfl, fun _ _ => rfl, fun _ h => h⟩ (.some rfl h)) ?_ fun x => ?_
    · simp only [if_pos hslash]; rfl
    · simp only [hsame, if_pos hslash]; rfl
  · let c₁ : HttpConn := { c with url := some url }
    have hreceive : ∀ x, ({ c.receive x with url := some url } : HttpConn).judge url =
        (c₁.judge url).map (receive · x) := fun x => judge_receive (c := c₁) h hroom he x
    refine ⟨fun x => ?_, fun {r c'} hr => ?_, fun {r c'} hr => ?_, fun {r c'} hr => ?_⟩
    · simp only [hsame, if_neg hslash, hreceive]
      show _ = onReceive x (c₁.judge url >>= _)
      cases c₁.judge url <;> rfl
    all_goals
      simp only [if_neg hslash] at hr
      obtain ⟨c₂, hc₂, hr⟩ := bind_eq_ok.mp hr
      cases hr
    · obtain ⟨hf, -⟩ := judge_frame (c := c₁) h hroom hc₂
      exact ⟨hf.readIdx, hf.checkedIdx, hf.startLine, hf.contentLength, hf.linger, hf.string,
        .inr rfl, hf.above, hf.uncr⟩
    · obtain ⟨-, hurl, hterm⟩ := judge_frame (c := c₁) h hroom hc₂
      exact .some hurl hterm
    · exact Or.inr ⟨rfl, rfl⟩

theorem parseUrl_local {url : Nat} (h : c.readBuf.Terminated url e)
    (hroom : url + (c.str url).length + 11 ≤ e) (he : e ≤ c.readIdx) :
    Local e (parseUrl · url) c := by
  cases h₁ : c.skipScheme (bytes "http://") (some url) with
  | error f =>
    refine Local.fault (f := f) (by simp only [parseUrl, h₁]; rfl) fun x => ?_
    simp only [parseUrl, skipScheme_receive (h.mono he), h₁]; rfl
  | ok u =>
    cases u with
    | none =>
      refine Local.fault (f := .nullPointer) (by simp only [parseUrl, h₁]; rfl) fun x => ?_
      simp only [parseUrl, skipScheme_receive (h.mono he), h₁]; rfl
    | some u =>
      obtain ⟨k, rfl, hk⟩ := skipScheme_some h₁
      have hu := h.offset hk
      cases h₂ : c.skipScheme (bytes "https://") (some (url + k)) with
      | error f =>
        refine Local.fault (f := f) (by simp only [parseUrl, h₁, h₂, bind, Except.bind]) fun x => ?_
        simp only [parseUrl, skipScheme_receive (h.mono he), skipScheme_receive (hu.mono he), h₁, h₂,
          bind, Except.bind]
      | ok v =>
        cases v with
        | none =>
          refine Local.congr (Local.bad (G := fun c => { c with url := none }) (fun _ => rfl)
            ⟨rfl, rfl, rfl, rfl, rfl, rfl, .inl rfl, fun _ _ => rfl, fun _ h => h⟩ (.none rfl)) ?_ fun x => ?_
          · simp only [parseUrl, h₁, h₂, bind, Except.bind]; rfl
          · simp only [parseUrl, skipScheme_receive (h.mono he), skipScheme_receive (hu.mono he), h₁, h₂,
              bind, Except.bind]
            rfl
        | some v =>
          obtain ⟨j, rfl, hj⟩ := skipScheme_some h₂
          have hroom' : url + k + j + (c.str (url + k + j)).length + 11 ≤ e := by
            rw [str_drop hk, List.length_drop] at hj
            rw [Nat.add_assoc url, str_drop (by omega), List.length_drop]
            omega
          refine Local.congr (parsePath_local (hu.offset hj) hroom' he) ?_ fun x => ?_
          · simp only [parseUrl, h₁, h₂, bind, Except.bind]
          · simp only [parseUrl, skipScheme_receive (h.mono he), skipScheme_receive (hu.mono he), h₁, h₂,
              bind, Except.bind]

/-- `*p = '\0'` and an assignment, below what was received. -/
theorem put_assign_receive {p : Nat} (hp : p < c.readIdx) {A : HttpConn → HttpConn}
    (hA : ∀ (c : HttpConn) x, A (c.receive x) = (A c).receive x) (x : List Byte) :
    A ((c.receive x).put p 0) = (A (c.put p 0)).receive x := by
  rw [put_receive hp, hA]

theorem parseVersion_local {url : Nat} (h : c.readBuf.Terminated url e) (he : e + 1 ≤ c.readIdx) :
    Local (e + 1) (parseVersion · url) c := by
  have he' : e ≤ c.readIdx := by omega
  have hu := h.offset (strspn_le (c.str url) blanks)
  generalize hurl : url + strspn (c.str url) blanks = u at hu
  cases hj : strpbrk (c.str u) blanks with
  | none =>
    refine Local.congr (Local.bad (G := fun c => { c with url := some u, version := none })
      (fun _ => rfl) ⟨rfl, rfl, rfl, rfl, rfl, rfl, .inl rfl, fun _ _ => rfl, fun _ h => h⟩
      (.some rfl (hu.mono (Nat.le_succ e)))) ?_ fun x => ?_
    · simp only [parseVersion, hurl, hj]
    · simp only [parseVersion, str_receive (h.mono he'), hurl, str_receive (hu.mono he'), hj]
  | some j =>
    have hlt := strpbrk_lt hj
    have hend : u + (c.str u).length < e := hu.length_lt _
    have hv : c.readBuf.Terminated (u + j + 1) e := hu.offset (k := j + 1) hlt
    have hcut : (c.put (u + j) 0).str (u + j + 1) = c.str (u + j + 1) := str_put_lt hv (by omega) 0
    have hv' := hv.offset (strspn_le (c.str (u + j + 1)) blanks)
    generalize hver : u + j + 1 + strspn (c.str (u + j + 1)) blanks = v at hv'
    have hvlt : u + j < v := by omega
    have hstr : (c.put (u + j) 0).str v = c.str v := str_put_lt hv' (by omega) 0
    -- what has been assigned when the version is compared
    let G : HttpConn → HttpConn := fun c => { c.put (u + j) 0 with url := some u, version := some v }
    have hG : ∀ x, G (c.receive x) = (G c).receive x := fun x =>
      put_assign_receive (by omega) (A := fun c => { c with url := some u, version := some v })
        (fun _ _ => rfl) x
    have hframe : Frame (e + 1) c (G c) := by
      have hf := Frame.put (e := e + 1) c (show u + j < e + 1 by omega)
      exact ⟨rfl, rfl, rfl, rfl, rfl, rfl, .inl rfl, hf.above, hf.uncr⟩
    have hx : ∀ x, (c.receive x).parseVersion url =
        if strcasecmp (c.str v) (bytes "HTTP/1.1") then (G (c.receive x)).parseUrl u
        else .ok (.badRequest, G (c.receive x)) := by
      intro x
      have h₁ : ((c.receive x).put (u + j) 0).str (u + j + 1) = c.str (u + j + 1) := by
        rw [put_receive (by omega), str_receive ((terminated_put_lt hv (by omega) 0).mono he'), hcut]
      have h₂ : ((c.receive x).put (u + j) 0).str v = c.str v := by
        rw [put_receive (by omega), str_receive ((terminated_put_lt hv' (by omega) 0).mono he'), hstr]
      simp only [parseVersion, str_receive (h.mono he'), hurl, str_receive (hu.mono he'), hj, h₁, hver]
      rw [show (({ (c.receive x).put (u + j) 0 with url := some u, version := some v } : HttpConn).str v)
        = c.str v from h₂]
    have hc : c.parseVersion url =
        if strcasecmp (c.str v) (bytes "HTTP/1.1") then (G c).parseUrl u
        else .ok (.badRequest, G c) := by
      have := hx []
      rwa [receive_nil] at this
    by_cases heq : strcasecmp (c.str v) (bytes "HTTP/1.1")
    · have hlen : (c.str v).length = 8 := by
        have := congrArg List.length (of_decide_eq_true heq)
        rwa [List.length_map, List.length_map] at this
      have hvend : v + (c.str v).length < e := hv'.length_lt _
      have htermG : (G c).readBuf.Terminated u (e + 1) := terminated_put (by omega)
      have hlenG : ((G c).str u).length = j := by
        show ((c.put (u + j) 0).str u).length = j
        rw [str_put (Nat.le_of_lt hlt), List.length_take]
        omega
      -- the blank, `HTTP/1.1`, CR and LF
      have hroom : u + ((G c).str u).length + 11 ≤ e + 1 := by rw [hlenG]; omega
      refine ((parseUrl_local htermG hroom he).comp hG hframe).congr ?_ fun x => ?_
      · rw [hc, if_pos heq]
      · rw [hx, if_pos heq]
    · refine (Local.bad hG hframe (.some rfl (terminated_put (by omega)))).congr ?_ fun x => ?_
      · rw [hc, if_neg heq]
      · rw [hx, if_neg heq]

/-- **`parse_request_line`** stays below the end of the line, its CR and LF included. -/
theorem parseRequestLine_local {text : Nat} (h : c.readBuf.Terminated text e)
    (he : e + 1 ≤ c.readIdx) : Local (e + 1) (parseRequestLine · text) c := by
  have he' : e ≤ c.readIdx := by omega
  cases hi : strpbrk (c.str text) blanks with
  | none =>
    refine Local.congr (Local.bad (G := fun c => { c with url := none })
      (fun _ => rfl) ⟨rfl, rfl, rfl, rfl, rfl, rfl, .inl rfl, fun _ _ => rfl, fun _ h => h⟩ (.none rfl))
      ?_ fun x => ?_
    · simp only [parseRequestLine, hi]
    · simp only [parseRequestLine, str_receive (h.mono he'), hi]
  | some i =>
    have hlt := strpbrk_lt hi
    have hend : text + (c.str text).length < e := h.length_lt _
    have hu : c.readBuf.Terminated (text + i + 1) e := h.offset (k := i + 1) hlt
    -- the cut, then what depends on the method
    have hG : ∀ {A : HttpConn → HttpConn} (hA : ∀ (c : HttpConn) x, A (c.receive x) = (A c).receive x)
        (x : List Byte), A ((c.receive x).put (text + i) 0) = (A (c.put (text + i) 0)).receive x :=
      fun hA x => put_assign_receive (by omega) hA x
    have hframe := Frame.put (e := e + 1) c (show text + i < e + 1 by omega)
    have hmethod : ∀ x, ({ (c.receive x).put (text + i) 0 with url := some (text + i + 1) } : HttpConn).str
        text = (c.put (text + i) 0).str text := by
      intro x
      show ((c.receive x).put (text + i) 0).str text = _
      rw [put_receive (by omega), str_receive ((terminated_put (e := e) (by omega)).mono he')]
    have hmethod' : ({ c.put (text + i) 0 with url := some (text + i + 1) } : HttpConn).str text =
        (c.put (text + i) 0).str text := rfl
    have hversion : ∀ (A : HttpConn → HttpConn),
        (∀ (c : HttpConn) x, A (c.receive x) = (A c).receive x) →
        (∀ c, (A c).readBuf = c.readBuf) → (∀ c, (A c).readIdx = c.readIdx) →
        Frame (e + 1) c (A (c.put (text + i) 0)) →
        Local (e + 1) (fun c => (A (c.put (text + i) 0)).parseVersion (text + i + 1)) c := by
      intro A hA hbuf hidx hf
      refine Local.comp (F := (parseVersion · (text + i + 1))) (G := fun c => A (c.put (text + i) 0))
        (parseVersion_local ?_ ?_) (hG hA) hf
      · rw [hbuf]; exact terminated_put_lt hu (by omega) 0
      · rw [hidx]; exact he
    by_cases hget : strcasecmp ((c.put (text + i) 0).str text) (bytes "GET")
    · refine (hversion (fun c => { c with url := some (text + i + 1), method := .get })
        (fun _ _ => rfl) (fun _ => rfl) (fun _ => rfl)
        ⟨rfl, rfl, rfl, rfl, rfl, rfl, .inl rfl, hframe.above, hframe.uncr⟩).congr ?_ fun x => ?_
      · simp only [parseRequestLine, hi, hmethod', if_pos hget]
      · simp only [parseRequestLine, str_receive (h.mono he'), hi, hmethod, if_pos hget]
    · by_cases hpost : strcasecmp ((c.put (text + i) 0).str text) (bytes "POST")
      · refine (hversion (fun c => { c with url := some (text + i + 1), method := .post, cgi := 1 })
          (fun _ _ => rfl) (fun _ => rfl) (fun _ => rfl)
          ⟨rfl, rfl, rfl, rfl, rfl, rfl, .inl rfl, hframe.above, hframe.uncr⟩).congr ?_ fun x => ?_
        · simp only [parseRequestLine, hi, hmethod', if_neg hget, if_pos hpost]
        · simp only [parseRequestLine, str_receive (h.mono he'), hi, hmethod, if_neg hget, if_pos hpost]
      · refine (Local.bad (G := fun c => { c.put (text + i) 0 with url := some (text + i + 1) })
          (hG (A := fun c => { c with url := some (text + i + 1) }) fun _ _ => rfl)
          ⟨rfl, rfl, rfl, rfl, rfl, rfl, .inl rfl, hframe.above, hframe.uncr⟩
          (.some rfl ((terminated_put_lt hu (by omega) 0).mono (Nat.le_succ e)))).congr ?_ fun x => ?_
        · simp only [parseRequestLine, hi, hmethod', if_neg hget, if_neg hpost]
        · simp only [parseRequestLine, str_receive (h.mono he'), hi, hmethod, if_neg hget, if_neg hpost]

/-! ## `parse_headers` -/

theorem parseHeaders_receive {text : Nat} (h : c.readBuf.Terminated text c.readIdx) (x : List Byte) :
    (c.receive x).parseHeaders text =
      ((c.parseHeaders text).1, (c.parseHeaders text).2.receive x) := by
  have hvalue : ∀ {w : List Byte}, strncasecmp (c.str text) w = true →
      (c.receive x).str (text + w.length) = c.str (text + w.length) ∧
      c.readBuf.Terminated (text + w.length + strspn (c.str (text + w.length)) blanks) c.readIdx := by
    intro w hw
    have hterm := h.offset (strncasecmp_length hw)
    exact ⟨str_receive hterm x, hterm.offset (strspn_le _ _)⟩
  simp only [parseHeaders, str_receive h]
  by_cases hline : c.str text = []
  · simp only [if_pos hline]
    show (if c.contentLength ≠ 0 then _ else _) = _
    split <;> rfl
  simp only [if_neg hline]
  by_cases hconn : strncasecmp (c.str text) (bytes "Connection:")
  · obtain ⟨hstr, hterm⟩ := hvalue hconn
    simp only [if_pos hconn, show (c.receive x).str (text + 11) = c.str (text + 11) from hstr,
      str_receive (p := text + 11 + strspn (c.str (text + 11)) blanks) hterm]
    split <;> rfl
  simp only [if_neg hconn]
  by_cases hcl : strncasecmp (c.str text) (bytes "content-length:")
  · obtain ⟨hstr, hterm⟩ := hvalue hcl
    simp only [if_pos hcl, show (c.receive x).str (text + 15) = c.str (text + 15) from hstr,
      str_receive (p := text + 15 + strspn (c.str (text + 15)) blanks) hterm]
    rfl
  simp only [if_neg hcl]
  by_cases hhost : strncasecmp (c.str text) (bytes "host:")
  · obtain ⟨hstr, -⟩ := hvalue hhost
    simp only [if_pos hhost, show (c.receive x).str (text + 5) = c.str (text + 5) from hstr]
    rfl
  · simp only [if_neg hhost]

end

end HttpConn
end Http
end LinuxServer
