import LinuxServer.Http.Process

/-!
# `Http/Rounds.lean` — the rounds of `write()`

Each round takes off `bytes_to_send` what `writev` accepted, and `writev` accepts something if it is offered
something. So the loop ends if there is always something to offer while `bytes_to_send` is positive (`Offers`).

With two `iovec`s there is. The first is given up only when the second has been made to offer as much as is
left. With one, it is given up as well, and what is left is put into the other, which `writev` is not told of.
That is right when nothing is left, and else the loop spins (`Stuck.spins`). `Steady` are the rounds that do not
come to that, and `offers_iff` that this is the whole condition.
-/

set_option autoImplicit false

namespace LinuxServer
namespace Http
namespace Transfer

/-! ## Any answers -/

/-- The response is on its way. -/
def Going (s : Transfer) : Prop := s.returned = none ∨ s.returned = some .again

/-- `writev` fails, or accepts what it is offered in part, and one byte at least if there is one. -/
def Answers (files : Files) (s : Transfer) : Step → Prop
  | .call => s.inLoop = false ∧ s.Going
  | .writev (.sent k) => s.inLoop = true ∧ k ≤ (s.conn.offered files).length ∧
      (0 < (s.conn.offered files).length → 1 ≤ k)
  | .writev _ => s.inLoop = true

instance (files : Files) (s : Transfer) : (i : Step) → Decidable (s.Answers files i)
  | .call => inferInstanceAs (Decidable (_ ∧ (_ ∨ _)))
  | .writev (.sent _) => inferInstanceAs (Decidable (_ ∧ _ ∧ (_ → _)))
  | .writev .eagain | .writev .failed => inferInstanceAs (Decidable (_ = _))

end Transfer

/-- The transfers of all that `process_write` prepares. -/
def writing (files : Files) : System Transfer Transfer.Step where
  start s := ∃ (c : HttpConn) (ret : HttpCode), c.writeIdx = 0 ∧ c.bytesHaveSend = 0 ∧ c.bytesToSend = 0 ∧
    s = ⟨(c.processWrite ret).2, false, none, []⟩
  step s i s' := s.Answers files i ∧ s.exec files i = .ok s'

namespace Transfer

/-- While bytes are to be sent, some are offered. -/
def Offers (files : Files) (s : Transfer) : Prop :=
  s.Going → 0 < s.conn.bytesToSend → 0 < (s.conn.offered files).length

/-- A round on one `iovec` leaves something in it, or nothing to send. -/
def Steady (s : Transfer) : Step → Prop
  | .writev (.sent k) => s.conn.ivCount = 1 →
      s.conn.bytesHaveSend + k < s.conn.iv0.iovLen ∨ s.conn.bytesToSend ≤ k
  | _ => True

instance (s : Transfer) : (i : Step) → Decidable (s.Steady i)
  | .writev (.sent _) => inferInstanceAs (Decidable (_ → _ ∨ _))
  | .call | .writev .eagain | .writev .failed => .isTrue trivial

/-- The rounds of a run in which `writev` did not fail. -/
def rounds (h : List Step) : Nat := (h.filter fun i => match i with
  | .writev (.sent _) => true
  | _ => false).length

/-! ## One round -/

section
variable {files : Files} {c c' : HttpConn} {k : Nat}

theorem length_offered (files : Files) (c : HttpConn) : (c.offered files).length =
    c.iv0.iovLen + if c.ivCount = 1 then 0 else c.iv1.iovLen := by
  unfold HttpConn.offered HttpConn.gather
  split
  · rw [List.length_map, List.length_range, Nat.add_zero]
  · rw [List.length_append, List.length_map, List.length_map, List.length_range, List.length_range]

/-- The counters are within an `int`, and the first `iovec` within `m_write_buf`. -/
structure Within (c : HttpConn) : Prop where
  haveSend : 0 ≤ c.bytesHaveSend
  toSend : c.bytesToSend ≤ intMax
  first : c.iv0.iovLen ≤ writeBufferSize

/-- **One round**: the lengths stay within, and there is something to offer, if bytes are left, if and only if
    the round was steady. -/
theorem Within.counts (hc : Within c) (h : c.Counts k c') :
    Within c' ∧ ((0 < c'.bytesToSend → 0 < (c'.offered files).length) ↔
      (c.ivCount = 1 → c.bytesHaveSend + k < c.iv0.iovLen ∨ c.bytesToSend ≤ k)) := by
  obtain ⟨hmax, hhave, hleft, hcases, hcount, -⟩ := h
  obtain ⟨hpos, hto, hfirst⟩ := hc
  have hsize : (toSize (c.bytesHaveSend + k) : Int) = c.bytesHaveSend + k := by
    obtain ⟨n, hn⟩ := Int.eq_ofNat_of_zero_le (show 0 ≤ c.bytesHaveSend + (k : Int) by omega)
    rw [hn] at hmax ⊢
    rw [toSize_natCast hmax]
  have hbuffer : writeBufferSize = 1024 := rfl
  rw [length_offered, hcount]
  rcases hcases with ⟨hpast, hzero, hsecond⟩ | ⟨hin, hrest⟩
  · refine ⟨⟨by omega, by omega, by omega⟩, ?_⟩
    rw [hzero, Nat.zero_add]
    by_cases hone : c.ivCount = 1
    · rw [if_pos hone]
      constructor
      · intro hoffers _
        right
        by_contra hmore
        exact absurd (hoffers (by omega)) (Nat.lt_irrefl _)
      · intro hsteady hmore
        rcases hsteady hone with hlt | hle <;> omega
    · rw [if_neg hone, hsecond]
      refine iff_of_true ?_ fun he => absurd he hone
      intro hmore
      obtain ⟨n, hn⟩ := Int.eq_ofNat_of_zero_le (show 0 ≤ c.bytesToSend - (k : Int) by omega)
      rw [hn, toSize_natCast (by omega)]
      omega
  · -- the first `iovec` is cut
    generalize toSize (c.bytesHaveSend + k) = n at hin hsize
    have hcut : c'.iv0.iovLen = c.iv0.iovLen - n := by
      rw [hrest, ← hsize, ← Int.ofNat_sub (Nat.le_of_lt hin)]
      refine toSize_natCast ?_
      unfold intMax
      omega
    refine ⟨⟨by omega, by omega, by omega⟩, iff_of_true (fun _ => by omega) fun _ => .inl ?_⟩
    omega

end

/-! ## Every run -/

section
variable {files : Files} {s s' t : Transfer} {i : Step} {h : List Step}

/-- A response that is going on has its lengths within, if there is one. -/
structure Held (s : Transfer) : Prop where
  loop : s.inLoop = true → s.Going
  within : s.Going → Within s.conn ∨ s.conn.bytesToSend = 0 ∧ s.inLoop = false

theorem not_going {exit : WriteExit} (h : s.returned = some exit) (hne : exit ≠ .again) : ¬ s.Going := by
  intro hgoing
  unfold Going at hgoing
  rw [h] at hgoing
  rcases hgoing with he | he
  · cases he
  · exact hne (Option.some.inj he)

theorem Held.of_over (files : Files) (h : ¬ s.Going) (hloop : s.inLoop = false) : Held s ∧ s.Offers files := by
  refine ⟨⟨?_, fun hgoing => absurd hgoing h⟩, fun hgoing => absurd hgoing h⟩
  intro htrue
  cases hloop.symm.trans htrue

/-- In the loop there is a response. -/
theorem Held.within_of_loop (hs : Held s) (hloop : s.inLoop = true) : Within s.conn := by
  rcases hs.within (hs.loop hloop) with hin | ⟨-, hout⟩
  · exact hin
  · cases hout.symm.trans hloop

/-- What `process_write` prepares. -/
theorem start_held (hstart : (writing files).start s) : Held s ∧ s.Offers files := by
  obtain ⟨c, ret, hidx, hhave, hto, rfl⟩ := hstart
  have hgoing : ∀ conn, (⟨conn, false, none, []⟩ : Transfer).Going := fun _ => .inl rfl
  rw [HttpConn.processWrite_eq hidx]
  simp only
  split
  · rename_i hanswered
    obtain ⟨hpos, hle⟩ := HttpConn.length_responseText hanswered c.fileStat.size c.linger
    have hbuffer : writeBufferSize = 1024 := rfl
    generalize HttpConn.responseText ret c.fileStat.size c.linger = text at hpos hle
    have hlength : (c.append text).writeIdx = text.length := by
      rw [HttpConn.append_writeIdx, hidx, Nat.zero_add]
    have hboth : ∀ conn : HttpConn, conn.iv0.iovLen = (c.append text).writeIdx → conn.bytesHaveSend = 0 →
        conn.bytesToSend ≤ intMax →
        Held ⟨conn, false, none, []⟩ ∧ (⟨conn, false, none, []⟩ : Transfer).Offers files := by
      intro conn hfirst hzero hmax
      refine ⟨⟨(fun he => by cases he), fun _ => .inl ⟨?_, hmax, ?_⟩⟩, fun _ _ => ?_⟩
      · exact Int.le_of_eq hzero.symm
      · rw [hfirst, hlength]
        omega
      · rw [length_offered, hfirst, hlength]
        exact Nat.lt_of_lt_of_le hpos (Nat.le_add_right _ _)
    split
    · exact hboth _ rfl hhave (toInt_le _).2
    · refine hboth _ rfl hhave ?_
      show ((c.append text).writeIdx : Int) ≤ intMax
      unfold intMax
      omega
  · refine ⟨⟨(fun he => by cases he), fun _ => .inr ⟨hto, rfl⟩⟩, fun _ hmore => ?_⟩
    exact absurd hto (Int.ne_of_gt hmore)

/-- **One step**: from where something is offered to where something is offered, if and only if it is
    steady. -/
theorem Held.step (hs : Held s) (he : s.Answers files i) (h : s.exec files i = .ok s') :
    Held s' ∧ (s.Offers files → (s'.Offers files ↔ s.Steady i)) := by
  cases leads_of_exec h with
  | nothing _ =>
    obtain ⟨hheld, hoffers⟩ := Held.of_over files
      (s := { s with conn := s.conn.init, returned := some .nothing }) (not_going rfl (by decide)) he.1
    exact ⟨hheld, fun _ => iff_of_true hoffers trivial⟩
  | enters hne =>
    refine ⟨⟨fun _ => he.2, fun hgoing => ?_⟩, fun ho => iff_of_true ho trivial⟩
    rcases hs.within hgoing with hin | ⟨hzero, -⟩
    · exact .inl hin
    · exact absurd hzero hne
  | eagain =>
    have hgoing := hs.loop he
    exact ⟨⟨(fun he => by cases he), fun _ => .inl (hs.within_of_loop he)⟩,
      fun ho => iff_of_true (fun _ => ho hgoing) trivial⟩
  | failed =>
    obtain ⟨hheld, hoffers⟩ := Held.of_over files
      (s := { s with conn := s.conn.unmap, inLoop := false, returned := some .failed })
      (not_going rfl (by decide)) rfl
    exact ⟨hheld, fun _ => iff_of_true hoffers trivial⟩
  | complete k c hcounts hdone =>
    obtain ⟨hheld, hoffers⟩ := Held.of_over files
      (s := ⟨if c.unmap.linger then c.unmap.init else c.unmap, false, some .complete,
        s.accepted ++ (s.conn.offered files).take k⟩) (not_going rfl (by decide)) rfl
    refine ⟨hheld, fun _ => iff_of_true hoffers fun _ => .inr ?_⟩
    have hleft := hcounts.toSend
    omega
  | goesOn k c hcounts hmore =>
    obtain ⟨hin, hiff⟩ := (hs.within_of_loop he.1).counts hcounts
    refine ⟨⟨fun _ => .inl rfl, fun _ => .inl hin⟩, fun _ => Iff.trans ?_ hiff⟩
    exact ⟨fun hoffers => hoffers (.inl rfl), fun hoffers _ => hoffers⟩

theorem held (hs : (writing files).Reachable s) : Held s := by
  refine hs.invariant (I := Held) ?_ ?_
  · intro s hstart
    exact (start_held hstart).1
  · intro s i s' hs hstep
    exact (hs.step hstep.1 hstep.2).1

theorem writing_deterministic (files : Files) : (writing files).Deterministic := by
  intro s i u u' hu hu'
  exact Except.ok.inj (hu.2.symm.trans hu'.2)

/-! ## The number of rounds -/

/-- So many rounds at most, when each takes a byte. -/
structure Spent (first : Int) (h : List Step) (s : Transfer) : Prop where
  bound : rounds h ≤ first.toNat + 1
  going : s.Going → rounds h + s.conn.bytesToSend ≤ first ∧ (rounds h = 0 ∨ 0 < s.conn.bytesToSend)

theorem Spent.step {first : Int} (hspent : Spent first h s) (hs : Held s) (ho : s.Offers files)
    (he : s.Answers files i) (hexec : s.exec files i = .ok s') : Spent first (i :: h) s' := by
  obtain ⟨hrounds, hgoing⟩ := hspent
  cases leads_of_exec hexec with
  | nothing _ => exact ⟨hrounds, fun he => absurd he (not_going rfl (by decide))⟩
  | enters _ => exact ⟨hrounds, hgoing⟩
  | eagain => exact ⟨hrounds, fun _ => hgoing (hs.loop he)⟩
  | failed => exact ⟨hrounds, fun he => absurd he (not_going rfl (by decide))⟩
  | complete k c hcounts hdone =>
    obtain ⟨hsum, hpos⟩ := hgoing (hs.loop he.1)
    have hcount : rounds (.writev (.sent k) :: h) = rounds h + 1 := rfl
    exact ⟨by omega, fun he => absurd he (not_going rfl (by decide))⟩
  | goesOn k c hcounts hmore =>
    obtain ⟨hloop, -, hone⟩ := he
    obtain ⟨hsum, hpos⟩ := hgoing (hs.loop hloop)
    have hcount : rounds (.writev (.sent k) :: h) = rounds h + 1 := rfl
    have hleft := hcounts.toSend
    -- there were bytes to send, and so some to offer
    have hbyte := hone (ho (hs.loop hloop) (by omega))
    have hrest : rounds (.writev (.sent k) :: h) + c.bytesToSend ≤ first := by omega
    exact ⟨by omega, fun _ => ⟨hrest, .inr hmore⟩⟩

/-- **`write()` cannot spin**, in all of a run, if and only if its rounds are steady: there is always something
    to offer while bytes are to be sent, and so there are no more rounds than bytes. -/
theorem offers_iff (hstart : (writing files).start s) (hrun : (writing files).Run s h t) :
    ((writing files).restrict Steady).Run s h t ↔
      (∀ h' t', h' <:+ h → (writing files).Run s h' t' → t'.Offers files) ∧
        rounds h ≤ s.conn.bytesToSend.toNat + 1 := by
  obtain ⟨hheld, hoffers⟩ := start_held hstart
  have hiff := System.Run.restrict_iff (P := Steady) (I := Offers files) (writing_deterministic files)
    (fun hreach ho hstep => ((held hreach).step hstep.1 hstep.2).2 ho) hstart hrun hoffers
  rw [hiff]
  refine ⟨fun hall => ⟨hall, ?_⟩, fun hboth => hboth.1⟩
  have hspent : (Held t ∧ t.Offers files) ∧ Spent s.conn.bytesToSend h t := by
    refine (hiff.mpr hall).invariant
      (I := fun h t => (Held t ∧ t.Offers files) ∧ Spent s.conn.bytesToSend h t) ?_ ?_
    · rintro h t i u ⟨⟨ht, ho⟩, hspent⟩ ⟨⟨he, hexec⟩, hsteady⟩
      obtain ⟨hu, hoffers⟩ := ht.step he hexec
      exact ⟨⟨hu, (hoffers ho).mpr hsteady⟩, hspent.step ht ho he hexec⟩
    · refine ⟨⟨hheld, hoffers⟩, Nat.zero_le _, fun _ => ⟨?_, .inl rfl⟩⟩
      show ((0 : Nat) : Int) + _ ≤ _
      omega
  exact hspent.2.bound

/-! ## What else becomes of it -/

/-- In the loop, with bytes to send and none to offer. -/
structure Stuck (s : Transfer) : Prop where
  inLoop : s.inLoop = true
  one : s.conn.ivCount = 1
  empty : s.conn.iv0.iovLen = 0
  toSend : 0 < s.conn.bytesToSend
  haveSend : s.conn.bytesHaveSend ≤ intMax

/-- A round that is not steady leads there. -/
theorem Held.gets_stuck (hs : Held s) (he : s.Answers files i) (hexec : s.exec files i = .ok s')
    (ho : s.Offers files) (hi : ¬ s.Steady i) : Stuck s' := by
  have hno : ¬ s'.Offers files := fun hoffers => hi (((hs.step he hexec).2 ho).mp hoffers)
  unfold Offers at hno
  simp only [Classical.not_imp] at hno
  obtain ⟨hgoing, hmore, hnone⟩ := hno
  rw [length_offered] at hnone
  cases leads_of_exec hexec with
  | nothing _ => exact absurd trivial hi
  | enters _ => exact absurd trivial hi
  | eagain => exact absurd trivial hi
  | failed => exact absurd trivial hi
  | complete _ _ _ _ => exact absurd hgoing (not_going rfl (by decide))
  | goesOn k c hcounts _ =>
    have hone : s.conn.ivCount = 1 := by
      by_contra hne
      exact hi fun heq => absurd heq hne
    have hmax := hcounts.fits
    have hhave := hcounts.haveSend
    refine ⟨rfl, hcounts.ivCount.trans hone, ?_, hmore, ?_⟩
    · omega
    · show c.bytesHaveSend ≤ intMax
      omega

/-- **The loop spins**: a round that accepts nothing leads from there to there. -/
theorem Stuck.round (h : Stuck s) (files : Files) : ∃ s', (writing files).step s (.writev (.sent 0)) s' ∧
    Stuck s' ∧ s'.accepted = s.accepted := by
  obtain ⟨hloop, hone, hempty, hmore, hmax⟩ := h
  have hnone : (s.conn.offered files).length = 0 := by rw [length_offered, hempty, if_pos hone]
  have haccount : ∃ c, s.conn.account 0 = .ok c ∧ c.ivCount = 1 ∧ c.iv0.iovLen = 0 ∧
      c.bytesToSend = s.conn.bytesToSend ∧ c.bytesHaveSend = s.conn.bytesHaveSend := by
    unfold HttpConn.account
    simp only
    rw [if_neg (by unfold intMin; omega), if_pos (by rw [hempty]; exact Nat.zero_le _)]
    exact ⟨_, rfl, hone, rfl, Int.sub_zero _, Int.add_zero _⟩
  obtain ⟨c, hc, hone', hempty', hto, hhave⟩ := haccount
  refine ⟨⟨c, true, none, s.accepted⟩, ⟨⟨hloop, Nat.zero_le _, fun hpos => by omega⟩, ?_⟩,
    ⟨rfl, hone', hempty', by rw [hto]; exact hmore, by rw [hhave]; exact hmax⟩, rfl⟩
  simp only [exec, HttpConn.writeRound, hc, bind, Except.bind]
  rw [if_neg (by omega)]
  simp only [List.take_zero, List.append_nil]
  rfl

theorem Stuck.spins (h : Stuck s) (files : Files) (n : Nat) : ∃ t,
    (writing files).Run s (List.replicate n (.writev (.sent 0))) t ∧ Stuck t ∧ t.accepted = s.accepted := by
  induction n with
  | zero => exact ⟨s, .nil s, h, rfl⟩
  | succ n ih =>
    obtain ⟨t, hrun, ht, haccepted⟩ := ih
    obtain ⟨u, hstep, hu, haccepted'⟩ := ht.round files
    exact ⟨u, hrun.step hstep, hu, haccepted'.trans haccepted⟩

/-- A round that is not steady is the last that takes a byte, and the loop goes on for ever. -/
theorem unsteady_spins (hs : (writing files).Reachable s) (ho : s.Offers files) (he : s.Answers files i)
    (hexec : s.exec files i = .ok s') (hi : ¬ s.Steady i) (n : Nat) : ∃ t,
    (writing files).Run s' (List.replicate n (.writev (.sent 0))) t ∧ t.inLoop = true ∧
      t.accepted = s'.accepted := by
  obtain ⟨t, hrun, hstuck, haccepted⟩ := ((held hs).gets_stuck he hexec ho hi).spins files n
  exact ⟨t, hrun, hstuck.inLoop, haccepted⟩

end

/-! The page for a bad request, of 112 bytes. -/

def badRequest : Transfer := ⟨((default : HttpConn).init.processWrite .badRequest).2, false, none, []⟩

theorem badRequest_start (files : Files) : (writing files).start badRequest :=
  ⟨(default : HttpConn).init, .badRequest, rfl, rfl, rfl, rfl⟩

/-- In two pieces. -/
theorem offers_iff_two : ∃ t, (writing fun _ => []).Run badRequest [.writev (.sent 52), .writev (.sent 60), .call] t ∧
    ∀ h' t', h' <:+ [.writev (.sent 52), .writev (.sent 60), .call] →
      (writing fun _ => []).Run badRequest h' t' → t'.Offers fun _ => [] := by
  obtain ⟨t, ht⟩ : ∃ t, System.follow (exec fun _ => []) (fun s i => s.Answers (fun _ => []) i ∧ s.Steady i)
      badRequest [.writev (.sent 52), .writev (.sent 60), .call] = some t :=
    Option.isSome_iff_exists.mp (by decide +kernel)
  have hsteady : ((writing fun _ => []).restrict Steady).Run badRequest
      [.writev (.sent 52), .writev (.sent 60), .call] t := by
    refine System.Run.of_follow (fun s i u hok hexec => ?_) ht
    obtain ⟨hanswers, hsteady⟩ := of_decide_eq_true hok
    exact ⟨⟨hanswers, hexec⟩, hsteady⟩
  have hrun := hsteady.of_restrict
  exact ⟨t, hrun, ((offers_iff (badRequest_start _) hrun).mp hsteady).1⟩

/-- **It spins** when `writev` accepts 60 bytes, and then one. -/
theorem spinning : ∃ h t, h = [.writev (.sent 1), .writev (.sent 60), .call] ∧
    (writing fun _ => []).start badRequest ∧ (writing fun _ => []).Run badRequest h t ∧
    t.conn.bytesToSend = 51 ∧ (¬ t.Offers fun _ => []) ∧
    ∀ n, ∃ u, (writing fun _ => []).Run t (List.replicate n (.writev (.sent 0))) u ∧ u.inLoop = true := by
  have hfollow : (System.follow (exec fun _ => []) (fun s i => s.Answers (fun _ => []) i) badRequest
      [.writev (.sent 1), .writev (.sent 60), .call]).any (fun t => t.inLoop = true ∧ t.returned = none ∧
        t.conn.ivCount = 1 ∧ t.conn.iv0.iovLen = 0 ∧ t.conn.bytesToSend = 51 ∧
          t.conn.bytesHaveSend ≤ intMax) = true := by decide +kernel
  obtain ⟨t, ht, hstate⟩ := (Option.any_eq_true _ _).mp hfollow
  obtain ⟨hloop, hreturned, hone, hempty, hmore, hmax⟩ := of_decide_eq_true hstate
  have hrun : (writing fun _ => []).Run badRequest _ t :=
    System.Run.of_follow (fun s i u hok hexec => And.intro (of_decide_eq_true hok) hexec) ht
  have hstuck : Stuck t := ⟨hloop, hone, hempty, by rw [hmore]; decide, hmax⟩
  refine ⟨_, t, rfl, badRequest_start _, hrun, hmore, ?_, ?_⟩
  · intro hoffers
    have hpos := hoffers (.inl hreturned) hstuck.toSend
    rw [length_offered, hempty, if_pos hone] at hpos
    exact absurd hpos (Nat.lt_irrefl _)
  · intro n
    obtain ⟨u, hu, hstuck', -⟩ := hstuck.spins (fun _ => []) n
    exact ⟨u, hu, hstuck'.inLoop⟩

end Transfer
end Http
end LinuxServer
