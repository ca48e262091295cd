import LinuxServer.Http.Get
import LinuxServer.Http.Session

/-!
# `Http/KeepAlive.lean` — requests on a connection that is kept

A `Delivery` is a request and the reads it arrives in, the last of which may hold more bytes behind
it. `answered_in_order` is for every script of deliveries, every run of the session whose reads are
those of the script, and every way its responses are sent: the responses that are out are those of the
first requests, in order, and while the connection is being read from, every request that has
arrived has had its own.

What is behind a request in the read that completes it is not parsed: `init()` clears `m_read_buf` and
its cursors when the response is out (`swallowed`). That is why a delivery begins with a read of its
own.
-/

set_option autoImplicit false

namespace LinuxServer
namespace Http

/-! ## Requests and their responses -/

/-- A request and the reads it arrives in: the last completes it, with anything behind, and none
    before ends inside its body. -/
structure Delivery where
  request : GetRequest
  chunks : List (List Byte)
  behind : List Byte
  whole : chunks.flatten = request.text ++ behind
  last : chunks.dropLast.flatten.length < request.text.length
  uncut : chunks.dropLast.flatten.length ≤ request.head.length
  room : chunks.flatten.length < readBufferSize

/-- The response to a request: to a file that is there, or for want of one that may be read. -/
def GetRequest.reply (fs : FileSystem) (files : Files) (root : List Byte) (q : GetRequest) : List Byte :=
  let path := localPath root q.target
  match fs.stat path with
  | none => []
  | some st =>
    if ¬ st.irOth then HttpConn.responseText .forbiddenRequest st.size true
    else if st.isDir then HttpConn.responseText .badRequest st.size true
    else HttpConn.responseText .fileRequest st.size true ++
      if st.size ≠ 0 then files (fs.mmap path) else []

/-- There is something at the path of the request. -/
def GetRequest.Found (fs : FileSystem) (root : List Byte) (q : GetRequest) : Prop :=
  ∃ st, fs.stat (localPath root q.target) = some st ∧ st.size < 2 ^ 30

/-- The reads up to some place before the last. -/
theorem Delivery.part (d : Delivery) {part later : List (List Byte)} (h : d.chunks = part ++ later)
    (hne : later ≠ []) : part.flatten <+: d.request.text ∧
      part.flatten.length ≤ d.request.head.length ∧ part.flatten.length < d.request.text.length := by
  have hlast : d.chunks.dropLast = part ++ later.dropLast := by
    rw [h, List.dropLast_append_of_ne_nil hne]
  have hle : part.flatten.length ≤ d.chunks.dropLast.flatten.length := by
    rw [hlast, List.flatten_append, List.length_append]
    exact Nat.le_add_right _ _
  have hshort := Nat.lt_of_le_of_lt hle d.last
  have hwhole : part.flatten <+: d.request.text ++ d.behind := by
    rw [← d.whole, h, List.flatten_append]
    exact List.prefix_append _ _
  exact ⟨List.prefix_of_prefix_length_le hwhole (List.prefix_append _ _) (Nat.le_of_lt hshort),
    Nat.le_trans hle d.uncut, hshort⟩

namespace HttpConn

section
variable {fs : FileSystem} {files : Files} {decode : List Byte → Option (List Byte × List Byte)}
  {accepts : Bool} {root w x y : List Byte} {c c' : HttpConn} {ret : HttpCode} {world : World}

/-- The connection has read `w` of a request, and it is all the same as if it had not been looked at. -/
def Between (root w : List Byte) (c : HttpConn) : Prop :=
  ∃ d : HttpConn, d.docRoot = root ∧ c.unread = { d.init.unread with readIdx := w.length } ∧
    ∀ y, (c.receive y).readLoop = (d.init.receive (w ++ y)).readLoop

theorem init_between (d : HttpConn) : Between d.docRoot [] d.init :=
  ⟨d, rfl, rfl, fun y => by rw [List.nil_append]⟩

/-- A read that does not complete the request. -/
theorem Between.waits (fs : FileSystem) (decode : List Byte → Option (List Byte × List Byte))
    (accepts : Bool) (world : World) (h : Between root w c) (q : GetRequest) (hw : w ++ x <+: q.text)
    (hhead : (w ++ x).length ≤ q.head.length) (hlt : (w ++ x).length < q.text.length)
    (hroom : q.text.length < readBufferSize) :
    ∃ c', (c.receive x).process fs decode accepts world = .ok ((.noRequest, true, c'), world) ∧
      Between root (w ++ x) c' := by
  obtain ⟨d, hroot, hunread, hresume⟩ := h
  obtain ⟨c', hrun, hall⟩ := q.waits d.init_atRequest hw hhead hlt hroom
  have hloop := (hresume x).trans hrun
  refine ⟨c', ?_, d, hroot, ?_, hall⟩
  · rw [process, processRead, hloop]
    rfl
  · have hread : c.readIdx = w.length := congrArg HttpConn.readIdx hunread
    rw [readLoop_unread hloop, List.length_append, ← hread]
    exact congrArg (fun d : HttpConn => { d with readIdx := c.readIdx + x.length }) hunread

/-- What is opened, as a response. -/
theorem openFile_reply (q : GetRequest) (hmaps : fs.Maps files) (hlinger : c.linger = true)
    (hpath : c.realFile.cstr filenameLen 0 = localPath root q.target) (hfound : q.Found fs root)
    (h : c.openFile fs = (ret, c')) :
    answered ret = true ∧ (ret = .fileRequest → c'.Mapped files) ∧
      c'.response files ret = q.reply fs files root ∧ c'.linger = true := by
  obtain ⟨st, hst, hsize⟩ := hfound
  unfold openFile at h
  unfold GetRequest.reply
  simp only [hpath, hst] at h ⊢
  split at h
  · rename_i hoth
    cases h
    rw [if_pos hoth]
    refine ⟨rfl, nofun, ?_, hlinger⟩
    rw [response, if_neg (fun he => nomatch he.1), List.append_nil]
    exact congrArg (responseText .forbiddenRequest st.size) hlinger
  · rename_i hoth
    split at h
    · rename_i hdir
      cases h
      rw [if_neg hoth, if_pos hdir]
      refine ⟨rfl, nofun, ?_, hlinger⟩
      rw [response, if_neg (fun he => nomatch he.1), List.append_nil]
      exact congrArg (responseText .badRequest st.size) hlinger
    · rename_i hdir
      cases h
      rw [if_neg hoth, if_neg hdir]
      refine ⟨rfl, fun _ => ⟨hsize, _, rfl, hmaps _ _ hst⟩, ?_, hlinger⟩
      rw [response, show responseText .fileRequest _ _ = responseText .fileRequest st.size true from
        congrArg (responseText .fileRequest st.size) hlinger]
      by_cases hzero : st.size ≠ 0
      · rw [if_pos hzero, if_pos ⟨rfl, hzero⟩]
        rfl
      · rw [if_neg hzero, if_neg fun he => hzero he.2]

/-- **The read that completes the request**, whatever is behind: the response is prepared. -/
theorem Between.done (decode : List Byte → Option (List Byte × List Byte)) (accepts : Bool)
    (world : World) (h : Between root w c) (q : GetRequest) (hw : w ++ x = q.text ++ y)
    (hroom : (w ++ x).length < readBufferSize) (hroot : root.length + 15 ≤ filenameLen)
    (hmaps : fs.Maps files) (hfound : q.Found fs root) :
    ∃ ret c', (c.receive x).process fs decode accepts world = .ok ((ret, true, c'), world) ∧
      ret ≠ .noRequest ∧ Transfer.Prepared files c' (q.reply fs files root) ∧ 0 < c'.writeIdx ∧
      c'.writeIdx ≤ writeBufferSize ∧ c'.bytesHaveSend = 0 ∧ c'.linger = true ∧ c'.docRoot = root ∧
      (q.reply fs files root).length ≤ intMax := by
  obtain ⟨d, rfl, hunread, hresume⟩ := h
  obtain ⟨c₁, hrun, hlinger, hcgi, u, hu, hstr, hend⟩ := q.done d.init_atRequest (hw ▸ hroom)
  rw [← hw] at hrun
  have hloop := (hresume x).trans hrun
  -- the loop leaves alone what the response is made in
  have hunread₁ := (readLoop_unread hrun :)
  have hclear : c₁.realFile = fun _ => 0 := (congrArg HttpConn.realFile hunread₁ :)
  have hdoc : c₁.docRoot = d.docRoot := (congrArg HttpConn.docRoot hunread₁ :)
  have hidx : c₁.writeIdx = 0 := (congrArg HttpConn.writeIdx hunread₁ :)
  have hhave : c₁.bytesHaveSend = 0 := (congrArg HttpConn.bytesHaveSend hunread₁ :)
  obtain ⟨t, ht, hslash⟩ := accepts_target q.accepted
  have htarget : q.target.head? = some 47 := by rw [GetRequest.target, ht, Option.getD_some, hslash]
  obtain ⟨m, hserve, hpath⟩ := doRequest_get fs decode accepts world hcgi hu hstr hend htarget
    (fun i => congrFun hclear i) (hdoc ▸ hroot)
  rw [hdoc] at hpath
  cases hopen : ({ c₁ with realFile := m } : HttpConn).openFile fs with
  | mk ret c₂ =>
    -- whatever `stat` has answered, there is a response to it
    rw [hopen] at hserve
    have hserved := doRequest_unserved hserve
    have hlinger₁ : ({ c₁ with realFile := m } : HttpConn).linger = true := hlinger
    obtain ⟨hanswered, hmapped, hreply, hlinger₂⟩ := openFile_reply q hmaps hlinger₁ hpath hfound hopen
    have hidx₂ : c₂.writeIdx = 0 := (congrArg HttpConn.writeIdx hserved :).trans hidx
    have hhave₂ : c₂.bytesHaveSend = 0 := (congrArg HttpConn.bytesHaveSend hserved :).trans hhave
    have hdoc₂ : c₂.docRoot = d.docRoot := (congrArg HttpConn.docRoot hserved :).trans hdoc
    obtain ⟨c', hwrite, hprepared, hpos, hbuf, hsend, hlinger', hdoc', hfits⟩ :=
      processWrite_prepared hidx₂ hanswered hmapped
    rw [hreply] at hprepared hfits
    have hne : ret ≠ .noRequest := fun he => by rw [he] at hanswered; cases hanswered
    refine ⟨ret, c', ?_, hne, hprepared, hpos, hbuf, hsend.trans hhave₂, hlinger'.trans hlinger₂,
      hdoc'.trans hdoc₂, hfits⟩
    rw [process, processRead, hloop]
    show (c₁.doRequest fs decode accepts world >>= _) = _
    rw [hserve]
    show (if ret = .noRequest then _ else _) = _
    rw [if_neg hne, hwrite]
    rfl

end

end HttpConn

/-! ## A script of deliveries -/

/-- The reads of a script. -/
def reads (script : List Delivery) : List (List Byte) := script.flatMap (·.chunks)

/-- The responses to a script. -/
def replies (fs : FileSystem) (files : Files) (root : List Byte) (script : List Delivery) :
    List (List (Option Byte)) :=
  script.map fun d => (d.request.reply fs files root).map some

/-- The reads of a run, the first first. -/
def heard : List Session.Step → List (List Byte)
  | [] => []
  | .read x _ :: h => heard h ++ [x]
  | .write _ :: h => heard h

namespace Session

/-- A step that is no second `writev` to end inside a header. -/
def Straight (s : Session) : Step → Prop
  | .read _ _ => True
  | .write i => s.transfer.Straight i

instance (s : Session) : (i : Step) → Decidable (s.Straight i)
  | .read _ _ => .isTrue trivial
  | .write i => inferInstanceAs (Decidable (s.transfer.Straight i))

/-- The reads of the next delivery that have been given are not all of it. -/
def Within : List Delivery → List (List Byte) → Prop
  | [], part => part = []
  | d :: _, part => ∃ later, later ≠ [] ∧ d.chunks = part ++ later

/-- Where in its script a session is: in between two reads of a delivery; at the response to one; or
    closed in the middle of that. -/
inductive Served (fs : FileSystem) (files : Files) (root : List Byte) (script : List Delivery)
    (s : Session) (given : List (List Byte)) : Prop
  | reading (answered rest : List Delivery) (part : List (List Byte)) (phase : s.phase = .reading)
      (split : script = answered ++ rest) (given_eq : given = reads answered ++ part)
      (within : Within rest part) (between : HttpConn.Between root part.flatten s.transfer.conn)
      (responses : s.responses = replies fs files root answered)
  | writing (answered : List Delivery) (d : Delivery) (rest : List Delivery) (header content : List Byte)
      (phase : s.phase = .writing) (split : script = answered ++ d :: rest)
      (given_eq : given = reads (answered ++ [d]))
      (message : d.request.reply fs files root = header ++ content)
      (progress : Transfer.Progress files header content s.transfer)
      (linger : s.transfer.conn.linger = true) (docRoot : s.transfer.conn.docRoot = root)
      (responses : s.responses = replies fs files root answered)
  | closed (answered : List Delivery) (d : Delivery) (rest : List Delivery) (phase : s.phase = .closed)
      (split : script = answered ++ d :: rest) (given_eq : given = reads (answered ++ [d]))
      (failed : s.transfer.returned = some .failed)
      (responses : s.responses = replies fs files root answered)

theorem within_nil : ∀ rest : List Delivery, Within rest []
  | [] => rfl
  | d :: _ => by
    refine ⟨d.chunks, fun hnil => ?_, rfl⟩
    have hlast := d.last
    have hwhole := d.whole
    rw [hnil] at hlast hwhole
    have htext := (List.append_eq_nil_iff.mp hwhole.symm).1
    rw [htext] at hlast
    exact absurd hlast (Nat.lt_irrefl 0)

section
variable {fs : FileSystem} {files : Files} {decode : List Byte → Option (List Byte × List Byte)}
  {root : List Byte} {script : List Delivery} {s s' : Session} {given : List (List Byte)}

/-- A read that `process()` has come through, with the connection kept open. -/
theorem read_eq {x : List Byte} {accepts : Bool} {ret : HttpCode} {c' : HttpConn}
    (h : (s.transfer.conn.receive x).process fs decode accepts s.world = .ok ((ret, true, c'), s.world)) :
    s.read fs decode x accepts = .ok { s with
      phase := if ret = .noRequest then .reading else .writing
      transfer := ⟨c', false, none, []⟩ } := by
  rw [Session.read, h]
  rfl

/-- **A read.** -/
theorem Served.read (decode : List Byte → Option (List Byte × List Byte)) (accepts : Bool)
    {x : List Byte} (hroot : root.length + 15 ≤ filenameLen)
    (hmaps : fs.Maps files) (hfound : ∀ d ∈ script, d.request.Found fs root)
    (h : Served fs files root script s given) (hphase : s.phase = .reading)
    (hgiven : given ++ [x] <+: reads script) :
    ∃ s', s.read fs decode x accepts = .ok s' ∧ Served fs files root script s' (given ++ [x]) := by
  cases h with
  | writing _ _ _ _ _ phase => rw [hphase] at phase; cases phase
  | closed _ _ _ phase => rw [hphase] at phase; cases phase
  | reading answered rest part phase split given_eq within between responses =>
    have hnext : part ++ [x] <+: reads rest := by
      rw [given_eq, split, List.append_assoc] at hgiven
      simp only [reads, List.flatMap_append] at hgiven ⊢
      exact (List.prefix_append_right_inj _).mp hgiven
    cases rest with
    | nil =>
      have hlen := hnext.length_le
      simp [reads] at hlen
    | cons d rest =>
      obtain ⟨later, hne, hchunks⟩ := within
      rw [reads, List.flatMap_cons, hchunks, List.append_assoc, List.prefix_append_right_inj] at hnext
      cases later with
      | nil => exact absurd rfl hne
      | cons x' later =>
        obtain rfl : x = x' := by
          obtain ⟨z, hz⟩ := hnext
          exact (List.cons.inj hz).1
        have hflat : part.flatten ++ x = (part ++ [x]).flatten := by simp
        have hchunks' : d.chunks = (part ++ [x]) ++ later := by rw [hchunks]; simp
        by_cases hlater : later = []
        · -- the request is complete
          subst hlater
          rw [List.append_nil] at hchunks'
          have hwhole : part.flatten ++ x = d.request.text ++ d.behind := by
            rw [hflat, ← hchunks', d.whole]
          have hroom := d.room
          rw [d.whole, ← hwhole] at hroom
          obtain ⟨ret, c', hproc, hret, hprepared, hpos, hbuf, hhave, hlinger, hdoc, hfits⟩ :=
            between.done decode accepts s.world d.request hwhole hroom hroot hmaps (hfound d (by rw [split]; simp))
          obtain ⟨header, content, hmessage, hsending⟩ := Transfer.Prepared.sending
            (s := ⟨c', false, none, []⟩) hprepared hpos hbuf hhave hfits
          refine ⟨_, read_eq hproc, .writing answered d rest header content (if_neg hret) split ?_ hmessage
            (.sending 0 (Or.inl rfl) hsending ?_ rfl) hlinger hdoc responses⟩
          · simp [given_eq, reads, hchunks']
          · have hlen : header.length = c'.writeIdx := hsending.length_header
            rw [List.length_append, hlen]
            omega
        · -- it goes on
          obtain ⟨hpart, hhead, hshort⟩ := d.part hchunks' hlater
          rw [← hflat] at hpart hhead hshort
          have hroom : d.request.text.length < readBufferSize := by
            have hroom := d.room
            rw [d.whole, List.length_append] at hroom
            omega
          obtain ⟨c', hproc, hbetween⟩ := between.waits fs decode accepts s.world
            d.request hpart hhead hshort hroom
          rw [hflat] at hbetween
          refine ⟨_, read_eq hproc, .reading answered (d :: rest) (part ++ [x]) rfl split ?_
            ⟨later, hlater, hchunks'⟩ hbetween responses⟩
          rw [given_eq, List.append_assoc]

/-- **A step of `write()`.** -/
theorem Served.write {i : Transfer.Step} (h : Served fs files root script s given)
    (hphase : s.phase = .writing) (henabled : s.transfer.Enabled files i)
    (hstraight : s.transfer.Straight i) :
    ∃ s', s.write files i = .ok s' ∧ Served fs files root script s' given := by
  cases h with
  | reading _ _ _ phase => rw [hphase] at phase; cases phase
  | closed _ _ _ phase => rw [hphase] at phase; cases phase
  | writing answered d rest header content phase split given_eq message progress linger docRoot responses =>
    obtain ⟨t, ht, hprogress⟩ := progress.exec henabled hstraight
    obtain ⟨hdoc, hcases⟩ := Transfer.exec_kept henabled ht
    simp only [Session.write, ht, bind, Except.bind]
    cases hprogress with
    | sending sent returned conn' rest' accepted =>
      have hkept : t.conn.linger = true := by
        rcases hcases with ⟨he, -⟩ | ⟨he, -⟩ | he | ⟨-, he⟩
        · rcases returned with hr | hr <;> rw [hr] at he <;> cases he
        · rcases returned with hr | hr <;> rw [hr] at he <;> cases he
        · rcases returned with hr | hr <;> rw [hr] at he <;> cases he
        · exact he.trans linger
      refine ⟨{ s with transfer := t }, ?_, .writing answered d rest header content phase split given_eq
        message (.sending sent returned conn' rest' accepted) hkept (hdoc.trans docRoot) responses⟩
      rcases returned with hr | hr <;> rw [hr] <;> rfl
    | failed sent returned out accepted =>
      refine ⟨{ s with phase := .closed, transfer := t }, by rw [returned]; rfl, ?_⟩
      exact .closed answered d rest rfl split given_eq returned responses
    | complete returned out accepted =>
      -- the response is out, and the next request begins
      obtain ⟨d', hinit⟩ : ∃ d' : HttpConn, t.conn = d'.init := by
        rcases hcases with ⟨-, he⟩ | ⟨he, -⟩ | he | ⟨he, -⟩
        · exact he linger
        · rw [returned] at he; cases he
        · rw [returned] at he; cases he
        · rw [returned] at he
          rcases he with he | he <;> cases he
      refine ⟨{ s with
        phase := .reading
        transfer := t
        responses := s.responses ++ [t.accepted] }, by rw [returned, linger]; rfl,
        .reading (answered ++ [d]) rest [] rfl ?_ ?_ (within_nil rest) ?_ ?_⟩
      · rw [split, List.append_assoc]
        rfl
      · rw [given_eq, List.append_nil]
      · have hbetween := HttpConn.init_between d'
        rw [show d'.docRoot = root from (congrArg HttpConn.docRoot hinit).symm.trans (hdoc.trans docRoot)] at hbetween
        show HttpConn.Between root [] t.conn
        rw [hinit]
        exact hbetween
      · show s.responses ++ [t.accepted] = _
        rw [responses, accepted, ← message, replies, replies, List.map_append]
        rfl

/-- What of the script has been answered, by where the session is. -/
def Answered (script rest : List Delivery) (answered : List Delivery) (s : Session)
    (given : List (List Byte)) : Prop :=
  script = answered ++ rest ∧
    match s.phase with
    | .reading => ∃ part, given = reads answered ++ part ∧ Within rest part
    | .writing => ∃ d later, rest = d :: later ∧ given = reads (answered ++ [d])
    | .closed => ∃ d later, rest = d :: later ∧ given = reads (answered ++ [d]) ∧
        s.transfer.returned = some .failed

/-- **One response for each request, in order.** In every run of a session whose reads are those of a
    script of deliveries, and whose responses are sent without a second `writev` that ends inside a
    header: the responses that are out are those of the first requests; while the connection is read
    from these are all the requests that have arrived whole, otherwise all but the last; it is closed
    only after a failed `writev`; and no step that the script allows is a fault. -/
theorem answered_in_order {s₀ : Session} {h : List Step} (hroot : root.length + 15 ≤ filenameLen)
    (hmaps : fs.Maps files) (hfound : ∀ d ∈ script, d.request.Found fs root)
    (hstart : (session fs files decode).start s₀) (hdoc : s₀.transfer.conn.docRoot = root)
    (hrun : ((session fs files decode).restrict Straight).Run s₀ h s) (hheard : heard h <+: reads script) :
    (∃ answered rest, Answered script rest answered s (heard h) ∧
      s.responses = replies fs files root answered) ∧
    ∀ i, s.Enabled files i → s.Straight i → heard (i :: h) <+: reads script →
      ∃ s', s.exec fs files decode i = .ok s' := by
  obtain ⟨hphase, ⟨d, hd⟩, hresponses⟩ := hstart
  have hserved : Served fs files root script s (heard h) := by
    -- what has been heard of the script so far is a part of what is heard at the end
    refine hrun.invariant (I := fun h t => heard h <+: reads script → Served fs files root script t (heard h))
      ?_ (fun _ => ?_) hheard
    · intro h t i u hserved hstep hheard
      obtain ⟨⟨henabled, hexec⟩, hstraight⟩ := hstep
      cases i with
      | read x accepts =>
        have hserved := hserved ((List.prefix_append _ _).trans hheard)
        obtain ⟨u', hu', hserved'⟩ := hserved.read decode accepts hroot hmaps hfound henabled.1 hheard
        rw [show t.read fs decode x accepts = .ok u from hexec] at hu'
        cases hu'
        exact hserved'
      | write i =>
        obtain ⟨u', hu', hserved'⟩ := (hserved hheard).write henabled.1 henabled.2 hstraight
        rw [show t.write files i = .ok u from hexec] at hu'
        cases hu'
        exact hserved'
    · refine .reading [] script [] hphase rfl rfl (within_nil script) ?_ hresponses
      have hbetween := HttpConn.init_between d
      rw [show d.docRoot = root by rw [← hdoc, hd]; rfl] at hbetween
      rw [hd]
      exact hbetween
  refine ⟨?_, fun i henabled hstraight hnext => ?_⟩
  · cases hserved with
    | reading answered rest part phase split given_eq within between responses =>
      refine ⟨answered, rest, ⟨split, ?_⟩, responses⟩
      rw [phase]
      exact ⟨part, given_eq, within⟩
    | writing answered d rest header content phase split given_eq message progress linger docRoot responses =>
      refine ⟨answered, d :: rest, ⟨split, ?_⟩, responses⟩
      rw [phase]
      exact ⟨d, rest, rfl, given_eq⟩
    | closed answered d rest phase split given_eq failed responses =>
      refine ⟨answered, d :: rest, ⟨split, ?_⟩, responses⟩
      rw [phase]
      exact ⟨d, rest, rfl, given_eq, failed⟩
  · cases i with
    | read x accepts =>
      obtain ⟨s', hs', -⟩ := hserved.read decode accepts hroot hmaps hfound
        henabled.1 hnext
      exact ⟨s', hs'⟩
    | write i =>
      obtain ⟨s', hs', -⟩ := hserved.write henabled.1 henabled.2 hstraight
      exact ⟨s', hs'⟩

end

/-- A request for a page that is there, as it comes in two reads with some bytes behind it. -/
def keptGet : GetRequest where
  line := bytes "GET / HTTP/1.1"
  headers := [bytes "Connection: keep-alive"]
  body := []
  plain := by decide +kernel
  nonempty := by decide +kernel
  accepted := by decide +kernel
  get := by decide +kernel
  keepAlive := by decide +kernel
  length := by decide +kernel

def keptDelivery : Delivery where
  request := keptGet
  chunks := [keptGet.text.take 20, keptGet.text.drop 20 ++ bytes "GET"]
  behind := bytes "GET"
  whole := by decide +kernel
  last := by decide +kernel
  uncut := by decide +kernel
  room := by decide +kernel

def fresh : Session := ⟨.reading, ⟨(default : HttpConn).init, false, none, []⟩, ⟨fun _ => none, []⟩, []⟩

theorem fresh_start : (session HttpConn.oneFile (fun _ => bytes "hi") decodePlain).start fresh :=
  ⟨rfl, ⟨default, rfl⟩, rfl⟩

/-- The request in its two reads, and its response in one `writev`; the last step first. -/
def keptSteps : List Step :=
  [.write (.writev (.sent 62)), .write .call, .read (keptGet.text.drop 20 ++ bytes "GET") true,
    .read (keptGet.text.take 20) true]

theorem answered_in_order_once : ∃ s,
    ((session HttpConn.oneFile (fun _ => bytes "hi") decodePlain).restrict Straight).Run fresh keptSteps s ∧
    ∃ answered rest, Answered [keptDelivery] rest answered s (heard keptSteps) ∧
      s.responses = replies HttpConn.oneFile (fun _ => bytes "hi") [] answered := by
  obtain ⟨s, hs⟩ : ∃ s, System.follow (exec HttpConn.oneFile (fun _ => bytes "hi") decodePlain)
      (fun s i => s.Enabled (fun _ => bytes "hi") i ∧ s.Straight i) fresh keptSteps = some s :=
    Option.isSome_iff_exists.mp (by decide +kernel)
  have hrun : ((session HttpConn.oneFile (fun _ => bytes "hi") decodePlain).restrict Straight).Run fresh
      keptSteps s := by
    refine System.Run.of_follow (fun t i u hok hexec => ?_) hs
    obtain ⟨henabled, hstraight⟩ := of_decide_eq_true hok
    exact And.intro (And.intro henabled hexec) hstraight
  have hfound : ∀ d ∈ [keptDelivery], d.request.Found HttpConn.oneFile [] := by
    intro d hd
    obtain rfl := List.mem_singleton.mp hd
    exact ⟨⟨2, true, false⟩, by decide +kernel, by decide⟩
  exact ⟨s, hrun, (answered_in_order (by decide) HttpConn.oneFile_maps hfound fresh_start rfl hrun
    (by decide +kernel)).1⟩

/-- The same request twice in one read: one response, and nothing left of the second in `m_read_buf`. -/
theorem swallowed : ∃ (q : GetRequest) (s₀ s : Session) (h : List Step),
    (session HttpConn.oneFile (fun _ => bytes "hi") decodePlain).start s₀ ∧
    (session HttpConn.oneFile (fun _ => bytes "hi") decodePlain).Run s₀ h s ∧
    q.Found HttpConn.oneFile s₀.transfer.conn.docRoot ∧ heard h = [q.text ++ q.text] ∧
    (q.text ++ q.text).length < readBufferSize ∧ s.phase = .reading ∧ s.responses.length = 1 ∧
    s.transfer.conn.readIdx = 0 ∧ s.transfer.conn.unchecked = [] := by
  have hfollow : (System.follow (exec HttpConn.oneFile (fun _ => bytes "hi") decodePlain)
      (fun s i => s.Enabled (fun _ => bytes "hi") i) fresh
      [.write (.writev (.sent 62)), .write .call, .read (keptGet.text ++ keptGet.text) true]).any
        (fun s => s.phase = .reading ∧ s.responses.length = 1 ∧ s.transfer.conn.readIdx = 0 ∧
          s.transfer.conn.unchecked = []) = true := by decide +kernel
  obtain ⟨s, hs, hend⟩ := (Option.any_eq_true _ _).mp hfollow
  obtain ⟨hphase, hone, hidx, hnone⟩ := of_decide_eq_true hend
  have hrun : (session HttpConn.oneFile (fun _ => bytes "hi") decodePlain).Run fresh _ s :=
    System.Run.of_follow (fun t i u hok hexec => And.intro (of_decide_eq_true hok) hexec) hs
  exact ⟨keptGet, fresh, s, _, fresh_start, hrun, ⟨⟨2, true, false⟩, by decide +kernel, by decide⟩,
    by decide +kernel, by decide +kernel, hphase, hone, hidx, hnone⟩

end Session

end Http
end LinuxServer
