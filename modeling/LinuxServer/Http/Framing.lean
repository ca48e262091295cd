import LinuxServer.Http.Rounds

/-!
# `Http/Framing.lean` — the length of a file

`st_size` is an `off_t`. It becomes an `int` as the argument of `add_headers`, and together with the header in
`bytes_to_send`, and both conversions wrap. As long as header and file fit an `int` together nothing is lost, and
what `write()` counts down is the length of the response; behind that it is another number (`framed_iff`).
-/

set_option autoImplicit false

namespace LinuxServer
namespace Http

/-! ## What has been counted -/

namespace Transfer

section
variable {files : Files} {s s' t : Transfer} {i : Step} {h : List Step} {total : Int}

/-- The counters are right, for a response of `total` bytes, and its end has come behind all of it. -/
structure Counted (total : Int) (s : Transfer) : Prop where
  loop : s.inLoop = true → s.Going
  toSend : s.Going → s.conn.bytesToSend = total - s.accepted.length
  complete : s.returned = some .complete → total ≤ s.accepted.length

theorem Counted.of_over (exit : WriteExit) (h : s.returned = some exit) (hne : exit ≠ .again)
    (hloop : s.inLoop = false) (hcomplete : exit = .complete → total ≤ s.accepted.length) :
    Counted total s := by
  refine ⟨?_, fun hgoing => absurd hgoing (not_going h hne), ?_⟩
  · intro htrue
    cases hloop.symm.trans htrue
  · intro he
    exact hcomplete (Option.some.inj (h.symm.trans he))

/-- As many more have been accepted as `writev` says. -/
theorem length_accepted {k : Nat} (hle : k ≤ (s.conn.offered files).length) :
    (s.accepted ++ (s.conn.offered files).take k).length = s.accepted.length + k := by
  rw [List.length_append, List.length_take, Nat.min_eq_left hle]

theorem Counted.step (hs : Counted total s) (he : s.Answers files i) (hexec : s.exec files i = .ok s') :
    Counted total s' := by
  cases leads_of_exec hexec with
  | nothing _ => exact .of_over .nothing rfl (by decide) he.1 (fun he => by cases he)
  | enters _ => exact ⟨fun _ => he.2, hs.toSend, hs.complete⟩
  | eagain => exact ⟨(fun he => by cases he), fun _ => hs.toSend (hs.loop he), (fun he => by cases he)⟩
  | failed => exact .of_over .failed rfl (by decide) rfl (fun he => by cases he)
  | complete k c hcounts hdone =>
    obtain ⟨hloop, hle, -⟩ := he
    have hto := hs.toSend (hs.loop hloop)
    have hleft := hcounts.toSend
    refine .of_over .complete rfl (by decide) rfl fun _ => ?_
    show total ≤ ((s.accepted ++ (s.conn.offered files).take k).length : Nat)
    rw [length_accepted hle]
    omega
  | goesOn k c hcounts hmore =>
    obtain ⟨hloop, hle, -⟩ := he
    have hto := hs.toSend (hs.loop hloop)
    have hleft := hcounts.toSend
    refine ⟨fun _ => .inl rfl, fun _ => ?_, (fun he => by cases he)⟩
    show c.bytesToSend = total - ((s.accepted ++ (s.conn.offered files).take k).length : Nat)
    rw [length_accepted hle]
    omega

/-- **The exit of a response** comes when as many bytes have been accepted as `bytes_to_send` was at first. -/
theorem complete_accepted {c : HttpConn} (hrun : (writing files).Run ⟨c, false, none, []⟩ h t)
    (ht : t.returned = some .complete) : c.bytesToSend ≤ t.accepted.length := by
  have hcounted : Counted c.bytesToSend t := by
    refine hrun.invariant (I := fun _ t => Counted c.bytesToSend t) ?_ ?_
    · intro h s i s' hs hstep
      exact hs.step hstep.1 hstep.2
    · exact ⟨(fun he => by cases he), fun _ => (Int.sub_zero _).symm, (fun he => by cases he)⟩
  exact hcounted.complete ht

end

end Transfer

/-! ## The header -/

namespace HttpConn

/-- **A file is framed**: its header gives its length, `bytes_to_send` is the length of both, and `write()` comes
    to its exit behind as many bytes, whatever `writev` answers. -/
structure Framed (c : HttpConn) : Prop where
  header : (c.processWrite .fileRequest).2.writeBuf.slice 0 (c.processWrite .fileRequest).2.writeIdx =
    statusLine 200 ok200Title ++ (contentLengthLine c.fileStat.size ++ (lingerLine c.linger ++ bytes "\r\n"))
  toSend : (c.processWrite .fileRequest).2.bytesToSend =
    (c.processWrite .fileRequest).2.writeIdx + c.fileStat.size
  complete : ∀ (files : Files) (h : List Transfer.Step) (t : Transfer),
    (writing files).Run ⟨(c.processWrite .fileRequest).2, false, none, []⟩ h t → t.returned = some .complete →
      (c.processWrite .fileRequest).2.writeIdx + c.fileStat.size ≤ t.accepted.length

section
variable {c : HttpConn}

/-- The header of a file. -/
theorem length_fileHeader {size : Int} (h : size ≠ 0) (linger : Bool) :
    (responseText .fileRequest size linger).length =
      (decimal (toInt size)).length + if linger then 59 else 54 := by
  have hline : (statusLine 200 ok200Title).length = 17 := by decide
  have hname : (bytes "Content-Length:").length = 15 := by decide
  have hcrlf : (bytes "\r\n").length = 2 := by decide
  have hlinger : (lingerLine linger).length = if linger then 23 else 18 := by cases linger <;> decide
  rw [responseText, if_pos h]
  simp only [headerLines, contentLengthLine, List.length_append, hline, hname, hcrlf, hlinger]
  split <;> omega

/-- What `process_write` makes of a file. -/
theorem processWrite_file (h : c.writeIdx = 0) (hsize : c.fileStat.size ≠ 0) :
    (c.processWrite .fileRequest).2 =
      (c.append (responseText .fileRequest c.fileStat.size c.linger)).sendFile := by
  rw [processWrite_eq h]
  simp only [answered, if_true]
  rw [if_pos ⟨trivial, hsize⟩]

/-- **File responses are framed** if and only if the header, of ten digits, and the file fit an `int` together. -/
theorem framed_iff (h : c.writeIdx = 0) (hsize : 1 ≤ c.fileStat.size) :
    c.Framed ↔ c.fileStat.size + (if c.linger then 69 else 64) ≤ intMax := by
  have hne : c.fileStat.size ≠ 0 := by omega
  have hwrite := processWrite_file h hne
  have hlength := length_fileHeader hne c.linger
  have hslice := append_slice (responseText .fileRequest c.fileStat.size c.linger) h
  have hidx : (c.processWrite .fileRequest).2.writeIdx =
      (responseText .fileRequest c.fileStat.size c.linger).length := by
    rw [hwrite]
    show c.writeIdx + _ = _
    rw [h, Nat.zero_add]
  have hto : (c.processWrite .fileRequest).2.bytesToSend =
      toInt ((c.processWrite .fileRequest).2.writeIdx + c.fileStat.size) := by rw [hwrite]; rfl
  have hmax : intMax = 2147483647 := rfl
  have hmin : intMin = -2147483648 := rfl
  -- the header without its digits
  have hrest : (if c.linger then 69 else 64 : Int) = 10 + ((if c.linger then 59 else 54 : Nat) : Int) := by
    cases c.linger <;> rfl
  have hbound : (if c.linger then 59 else 54 : Nat) ≤ 59 := by cases c.linger <;> decide
  rw [hrest]
  generalize (if c.linger then 59 else 54 : Nat) = rest at hlength hbound
  constructor
  · intro hframed
    have hfits : ((c.processWrite .fileRequest).2.writeIdx : Int) + c.fileStat.size ≤ intMax := by
      rw [← hframed.toSend, hto]
      exact (toInt_le _).2
    rw [hidx, hlength, toInt_of_le (by omega) (by omega)] at hfits
    by_cases hlong : c.fileStat.size < 10 ^ 9
    · omega
    · have hdigits := (length_decimal_le_iff (n := c.fileStat.size) (by omega) (k := 9) (by decide)).not.mpr hlong
      omega
  · intro hfits
    have hint : toInt c.fileStat.size = c.fileStat.size := toInt_of_le (by omega) (by omega)
    have hdigits := (length_decimal_le_iff (n := c.fileStat.size) (by omega) (k := 10) (by decide)).mpr (by omega)
    have hsend : (c.processWrite .fileRequest).2.bytesToSend =
        (c.processWrite .fileRequest).2.writeIdx + c.fileStat.size := by
      rw [hto, hidx, hlength, hint]
      exact toInt_of_le (by omega) (by omega)
    refine ⟨?_, hsend, ?_⟩
    · rw [hwrite]
      refine hslice.trans ?_
      rw [responseText, if_pos hne, headerLines, hint]
    · intro files h t hrun ht
      rw [← hsend]
      exact Transfer.complete_accepted hrun ht

/-- A connection that a file was found for, of so many bytes. -/
def foundSized (size : Int) : HttpConn :=
  { (default : HttpConn).init with
    fileAddress := some 0
    fileStat := ⟨size, true, false⟩ }

/-- The longest file that is framed, on a connection that is closed behind it. -/
theorem framed_iff_longest : (foundSized 2147483583).Framed :=
  (framed_iff rfl (by decide)).mpr (by decide)

/-- **A file of 4 GiB and a byte** is sent as one byte. -/
theorem unframed : ¬ (foundSized (2 ^ 32 + 1)).Framed ∧
    ((foundSized (2 ^ 32 + 1)).processWrite .fileRequest).2.writeBuf.slice 0 55 =
      statusLine 200 ok200Title ++ (contentLengthLine 1 ++ (lingerLine false ++ bytes "\r\n")) ∧
    ((foundSized (2 ^ 32 + 1)).processWrite .fileRequest).2.bytesToSend = 56 := by
  refine ⟨?_, by decide +kernel, by decide +kernel⟩
  intro hframed
  have hsend := hframed.toSend
  exact absurd hsend (by decide +kernel)

end

end HttpConn
end Http
end LinuxServer
