import LinuxServer.Http.Response
import LinuxServer.Lib.System

/-!
# `Http/Write.lean` — `write()`, and what the socket is given

`write()` calls `writev` until the response is out, and returns to the event loop when the socket is
full. In between, all it knows of its place is in `bytes_have_send`, `bytes_to_send` and the two
`iovec`s. A `Transfer` is a connection that is being written to, with all that the socket has
accepted: the bytes that the `iovec`s pointed at when `writev` took them, which are those of the
response only as long as the `iovec`s point at what is left of it.

After a first partial write that ends inside the header the first `iovec` is right. After a second
one it is not: `bytes_have_send` counts from the beginning of the response, and is compared with and
subtracted from an `iov_len` that has been reduced already. `accepted_prefix` is for the runs without
such a second one (`Straight`): what is accepted is always a prefix of the response, and all of it
when `write()` says so. `derailed` is that the condition is needed.
-/

set_option autoImplicit false

namespace LinuxServer
namespace Http

/-! ## The code -/

/-- What `writev` answers. -/
inductive Writev
  | eagain
  | failed
  | sent (k : Nat)
  deriving DecidableEq, Repr

/-- How `write()` returns: with `EPOLLOUT` armed; after an error; with nothing to send; or by its
    `bytes_to_send <= 0` exit. -/
inductive WriteExit
  | again
  | failed
  | nothing
  | complete
  deriving DecidableEq, Repr

namespace HttpConn

def unmap (c : HttpConn) : HttpConn := { c with fileAddress := none }

/-- What follows a `writev` that sent `temp` bytes, up to the test for the end. -/
def account (c : HttpConn) (temp : Nat) : Except Fault HttpConn :=
  let haveSend := c.bytesHaveSend + temp
  let toSend := c.bytesToSend - temp
  if intMax < haveSend ∨ toSend < intMin then .error .overflow
  else if c.iv0.iovLen ≤ toSize haveSend then
    .ok { c with
      bytesHaveSend := haveSend
      bytesToSend := toSend
      iv0 := { c.iv0 with iovLen := 0 }
      iv1 := ⟨.file c.fileAddress (haveSend - c.writeIdx), toSize toSend⟩ }
  else
    .ok { c with
      bytesHaveSend := haveSend
      bytesToSend := toSend
      iv0 := ⟨.writeBuf haveSend, toSize (c.iv0.iovLen - haveSend)⟩ }

/-- One round of the loop of `write()`, with how the call ends if it does. -/
def writeRound (c : HttpConn) : Writev → Except Fault (Option WriteExit × HttpConn)
  | .eagain => .ok (some .again, c)
  | .failed => .ok (some .failed, c.unmap)
  | .sent temp => do
    let c ← c.account temp
    if c.bytesToSend ≤ 0 then
      let c := c.unmap
      return (some .complete, if c.linger then c.init else c)
    else return (none, c)

end HttpConn

/-! ## The socket -/

/-- What is mapped, by the address `mmap` answered. -/
abbrev Files := Nat → List Byte

def Addr.add : Addr → Nat → Addr
  | .writeBuf offset, i => .writeBuf (offset + i)
  | .file address offset, i => .file address (offset + i)

namespace HttpConn

/-- The byte at an address, if that is in `m_write_buf` or in a file that is mapped. -/
def fetch (files : Files) (c : HttpConn) : Addr → Option Byte
  | .writeBuf offset =>
    if 0 ≤ offset ∧ offset < writeBufferSize then some (c.writeBuf offset.toNat) else none
  | .file none _ => none
  | .file (some address) offset =>
    if 0 ≤ offset then (files address)[offset.toNat]? else none

def gather (files : Files) (c : HttpConn) (v : IoVec) : List (Option Byte) :=
  (List.range v.iovLen).map fun i => c.fetch files (v.iovBase.add i)

/-- What `writev(m_sockfd, m_iv, m_iv_count)` offers to the socket. -/
def offered (files : Files) (c : HttpConn) : List (Option Byte) :=
  if c.ivCount = 1 then c.gather files c.iv0 else c.gather files c.iv0 ++ c.gather files c.iv1

/-- What a `writev` of `temp` bytes makes of the counters and of the lengths, and what it leaves alone. -/
structure Counts (c : HttpConn) (temp : Nat) (c' : HttpConn) : Prop where
  fits : c.bytesHaveSend + temp ≤ intMax
  haveSend : c'.bytesHaveSend = c.bytesHaveSend + temp
  toSend : c'.bytesToSend = c.bytesToSend - temp
  lengths : c.iv0.iovLen ≤ toSize (c.bytesHaveSend + temp) ∧ c'.iv0.iovLen = 0 ∧
      c'.iv1.iovLen = toSize (c.bytesToSend - temp) ∨
    toSize (c.bytesHaveSend + temp) < c.iv0.iovLen ∧
      c'.iv0.iovLen = toSize (c.iv0.iovLen - (c.bytesHaveSend + temp))
  ivCount : c'.ivCount = c.ivCount
  linger : c'.linger = c.linger
  docRoot : c'.docRoot = c.docRoot
  fileAddress : c'.fileAddress = c.fileAddress
  fileStat : c'.fileStat = c.fileStat

theorem account_counts {c c' : HttpConn} {temp : Nat} (h : c.account temp = .ok c') : Counts c temp c' := by
  simp only [account] at h
  split at h
  · cases h
  · split at h
    · rename_i hpast
      cases h
      exact ⟨by omega, rfl, rfl, .inl ⟨hpast, rfl, rfl⟩, rfl, rfl, rfl, rfl, rfl⟩
    · rename_i hin
      cases h
      exact ⟨by omega, rfl, rfl, .inr ⟨Nat.lt_of_not_le hin, rfl⟩, rfl, rfl, rfl, rfl, rfl⟩

end HttpConn

/-- A connection that is being written to. -/
structure Transfer where
  conn : HttpConn
  /-- Whether a call of `write()` is in its loop, and how the last one returned. -/
  inLoop : Bool
  returned : Option WriteExit
  /-- What the socket has accepted. -/
  accepted : List (Option Byte)

namespace Transfer

/-- `EPOLLOUT`, and `write()` is called; or a `writev` answers. -/
inductive Step
  | call
  | writev (answer : Writev)
  deriving DecidableEq, Repr

def exec (files : Files) (s : Transfer) : Step → Except Fault Transfer
  | .call =>
    if s.conn.bytesToSend = 0 then .ok { s with conn := s.conn.init, returned := some .nothing }
    else .ok { s with inLoop := true }
  | .writev answer => do
    let sent := match answer with
      | .sent k => (s.conn.offered files).take k
      | _ => []
    let (exit, conn) ← s.conn.writeRound answer
    return {
      conn := conn
      inLoop := exit = none
      returned := exit
      accepted := s.accepted ++ sent }

/-- Where a step leads, in each of its cases. -/
inductive Leads (files : Files) (s : Transfer) : Step → Transfer → Prop
  | nothing (toSend : s.conn.bytesToSend = 0) :
      Leads files s .call { s with conn := s.conn.init, returned := some .nothing }
  | enters (toSend : s.conn.bytesToSend ≠ 0) : Leads files s .call { s with inLoop := true }
  | eagain : Leads files s (.writev .eagain) { s with inLoop := false, returned := some .again }
  | failed : Leads files s (.writev .failed)
      { s with conn := s.conn.unmap, inLoop := false, returned := some .failed }
  | complete (k : Nat) (c : HttpConn) (counts : s.conn.Counts k c) (done : c.bytesToSend ≤ 0) :
      Leads files s (.writev (.sent k)) ⟨if c.unmap.linger then c.unmap.init else c.unmap, false,
        some .complete, s.accepted ++ (s.conn.offered files).take k⟩
  | goesOn (k : Nat) (c : HttpConn) (counts : s.conn.Counts k c) (more : 0 < c.bytesToSend) :
      Leads files s (.writev (.sent k)) ⟨c, true, none, s.accepted ++ (s.conn.offered files).take k⟩

theorem leads_of_exec {files : Files} {s s' : Transfer} {i : Step} (h : s.exec files i = .ok s') :
    Leads files s i s' := by
  cases i with
  | call =>
    simp only [exec] at h
    split at h
    · rename_i hzero
      cases h
      exact .nothing hzero
    · rename_i hmore
      cases h
      exact .enters hmore
  | writev answer =>
    obtain ⟨⟨exit, c⟩, hround, h⟩ := bind_eq_ok.mp h
    cases h
    cases answer with
    | eagain =>
      cases hround
      simp only [List.append_nil]
      exact .eagain
    | failed =>
      cases hround
      simp only [List.append_nil]
      exact .failed
    | sent k =>
      obtain ⟨c₁, hc₁, hround⟩ := bind_eq_ok.mp hround
      have hcounts := HttpConn.account_counts hc₁
      simp only at hround
      split at hround
      · rename_i hdone
        cases hround
        exact .complete k c₁ hcounts hdone
      · rename_i hmore
        cases hround
        exact .goesOn k c hcounts (Int.lt_of_not_ge hmore)

/-- The event loop calls `write()` at the start, and again when it has returned with `EPOLLOUT`
    armed. `writev` sends one byte at least, and no more than it is offered. -/
def Enabled (files : Files) (s : Transfer) : Step → Prop
  | .call => s.inLoop = false ∧ (s.returned = none ∨ s.returned = some .again)
  | .writev (.sent k) => s.inLoop = true ∧ 1 ≤ k ∧ k ≤ (s.conn.offered files).length
  | .writev _ => s.inLoop = true

instance (files : Files) (s : Transfer) : (i : Step) → Decidable (s.Enabled files i)
  | .call => inferInstanceAs (Decidable (_ ∧ _))
  | .writev (.sent _) => inferInstanceAs (Decidable (_ ∧ _))
  | .writev .eagain | .writev .failed => inferInstanceAs (Decidable (_ = _))

/-- The response `message`, as `process_write` leaves it to `write()`: the first `m_write_idx` bytes
    of `m_write_buf`, and the file if there is one that is not empty. -/
inductive Prepared (files : Files) (c : HttpConn) : List Byte → Prop
  | file (c₀ : HttpConn) (address : Nat) (prepared : c = c₀.sendFile)
      (mapped : c₀.fileAddress = some address) (size : c₀.fileStat.size = (files address).length) :
      Prepared files c (c₀.writeBuf.slice 0 c₀.writeIdx ++ files address)
  | buffer (c₀ : HttpConn) (prepared : c = c₀.sendBuffer) :
      Prepared files c (c₀.writeBuf.slice 0 c₀.writeIdx)

end Transfer

/-- The transfers of one response. -/
def transfer (files : Files) (message : List Byte) : System Transfer Transfer.Step where
  start s := Transfer.Prepared files s.conn message ∧ 0 < s.conn.writeIdx ∧
    s.conn.writeIdx ≤ writeBufferSize ∧ s.conn.bytesHaveSend = 0 ∧ s.inLoop = false ∧
    s.returned = none ∧ s.accepted = []
  step s i s' := s.Enabled files i ∧ s.exec files i = .ok s'

/-! ## What the `iovec`s point at -/

namespace HttpConn

section
variable {files : Files} {c : HttpConn}

theorem gather_writeBuf {p n : Nat} (h : p + n ≤ writeBufferSize) :
    c.gather files ⟨.writeBuf p, n⟩ = (c.writeBuf.slice p n).map some := by
  refine List.ext_getElem (by simp [gather]) fun i hi hi' => ?_
  have hlt : i < n := by simpa [gather] using hi
  rw [List.getElem_map, Mem.slice_getElem]
  simp only [gather, List.getElem_map, List.getElem_range, Addr.add, fetch]
  rw [if_pos (by omega)]
  congr 2

theorem gather_file {address p n : Nat} (h : p + n = (files address).length) :
    c.gather files ⟨.file (some address) p, n⟩ = ((files address).drop p).map some := by
  refine List.ext_getElem (by simp [gather]; omega) fun i hi hi' => ?_
  have hlt : i < n := by simpa [gather] using hi
  rw [List.getElem_map, List.getElem_drop]
  simp only [gather, List.getElem_map, List.getElem_range, Addr.add, fetch]
  rw [if_pos (by omega), ← List.getElem?_eq_getElem]
  congr 1

theorem gather_zero {base : Addr} : c.gather files ⟨base, 0⟩ = [] := rfl

end

/-- `sent` bytes of the response are out, and the `iovec`s point at the rest. -/
structure Sending (files : Files) (header content : List Byte) (c : HttpConn) (sent : Nat) : Prop where
  text : c.writeBuf.slice 0 c.writeIdx = header
  pos : 0 < c.writeIdx
  room : c.writeIdx ≤ writeBufferSize
  haveSend : c.bytesHaveSend = sent
  toSend : c.bytesToSend = (header ++ content).length - sent
  le : sent ≤ (header ++ content).length
  fits : (header ++ content).length ≤ intMax
  first : sent < c.writeIdx → c.iv0 = ⟨.writeBuf sent, c.writeIdx - sent⟩
  firstDone : c.writeIdx ≤ sent → c.iv0.iovLen = 0
  second : (c.ivCount = 1 ∧ content = []) ∨ c.ivCount = 2 ∧ ∃ address,
    c.fileAddress = some address ∧ files address = content ∧
    c.iv1 = ⟨.file (some address) (sent - c.writeIdx : Nat), content.length - (sent - c.writeIdx)⟩

section
variable {files : Files} {header content : List Byte} {c : HttpConn} {sent : Nat}

theorem Sending.length_header (h : Sending files header content c sent) : header.length = c.writeIdx := by
  rw [← h.text, Mem.length_slice]

/-- **What is offered** is what is left of the response. -/
theorem Sending.offered_eq (h : Sending files header content c sent) :
    c.offered files = ((header ++ content).drop sent).map some := by
  have hlen := h.length_header
  have hroom := h.room
  have hle := h.le
  rw [List.length_append] at hle
  have hfirst : c.gather files c.iv0 = (header.drop sent).map some := by
    by_cases hlt : sent < c.writeIdx
    · rw [h.first hlt, gather_writeBuf (by omega), ← h.text, Mem.drop_slice, Nat.zero_add]
    · have hzero := h.firstDone (by omega)
      rw [List.drop_eq_nil_of_le (by omega)]
      unfold gather
      rw [hzero]
      rfl
  unfold offered
  rcases h.second with ⟨hcount, hcontent⟩ | ⟨hcount, address, -, hfile, hiv⟩
  · rw [if_pos hcount, hfirst, hcontent, List.append_nil]
  · have hsecond : c.gather files c.iv1 = (content.drop (sent - c.writeIdx)).map some := by
      rw [hiv, gather_file (by rw [hfile]; omega), hfile]
    rw [if_neg (by omega), hfirst, hsecond, List.drop_append, List.map_append, hlen]

/-- The counters go on by what `writev` took, and one of the two branches is taken. -/
theorem Sending.account_eq (h : Sending files header content c sent) {k : Nat}
    (hle : sent + k ≤ (header ++ content).length) :
    c.account k = .ok (if c.iv0.iovLen ≤ sent + k then
      { c with
        bytesHaveSend := (sent + k : Nat)
        bytesToSend := c.bytesToSend - k
        iv0 := { c.iv0 with iovLen := 0 }
        iv1 := ⟨.file c.fileAddress ((sent + k : Nat) - c.writeIdx), toSize (c.bytesToSend - k)⟩ }
    else
      { c with
        bytesHaveSend := (sent + k : Nat)
        bytesToSend := c.bytesToSend - k
        iv0 := ⟨.writeBuf (sent + k : Nat), toSize (c.iv0.iovLen - (sent + k : Nat))⟩ }) := by
  have hfits := h.fits
  have hhave : c.bytesHaveSend + (k : Int) = ((sent + k : Nat) : Int) := by rw [h.haveSend]; omega
  have hmin : ¬ (intMax < ((sent + k : Nat) : Int) ∨ c.bytesToSend - (k : Int) < intMin) := by
    rw [h.toSend]
    unfold intMin
    omega
  have hsize : toSize ((sent + k : Nat) : Int) = sent + k := toSize_natCast (by omega)
  unfold HttpConn.account
  simp only [hhave]
  rw [if_neg hmin, hsize]
  split
  · rfl
  · rfl

/-- **A `writev` that sends on**, if it is not the second to end inside the header. -/
theorem Sending.account (h : Sending files header content c sent) {k : Nat} (hk : 1 ≤ k)
    (hle : sent + k ≤ (header ++ content).length) (hstraight : 0 < sent → c.writeIdx ≤ sent + k) :
    ∃ c', c.account k = .ok c' ∧ c'.linger = c.linger ∧
      Sending files header content c' (sent + k) := by
  have hfits := h.fits
  have hrest : toSize (c.bytesToSend - (k : Int)) = (header ++ content).length - (sent + k) := by
    rw [h.toSend, show ((header ++ content).length : Int) - sent - k =
      (((header ++ content).length - (sent + k) : Nat) : Int) by omega]
    exact toSize_natCast (by omega)
  have hlen := h.length_header
  rw [List.length_append] at hrest
  rw [h.account_eq hle]
  by_cases hpast : c.writeIdx ≤ sent + k
  · -- the header is out
    have hiov : c.iv0.iovLen ≤ sent + k := by
      by_cases hlt : sent < c.writeIdx
      · rw [h.first hlt]
        show c.writeIdx - sent ≤ sent + k
        omega
      · rw [h.firstDone (by omega)]
        omega
    rw [if_pos hiov]
    refine ⟨_, rfl, rfl, h.text, h.pos, h.room, rfl, ?_, hle, hfits, ?_, fun _ => rfl, ?_⟩
    · show c.bytesToSend - (k : Int) = _
      rw [h.toSend]
      omega
    · intro hlt
      exact absurd hpast (Nat.not_le.mpr hlt)
    · rcases h.second with hone | ⟨hcount, address, haddress, hfile, -⟩
      · exact Or.inl hone
      · refine Or.inr ⟨hcount, address, haddress, hfile, ?_⟩
        show IoVec.mk (.file c.fileAddress ((sent + k : Nat) - c.writeIdx)) (toSize _) =
          IoVec.mk (.file _ ((sent + k - c.writeIdx : Nat) : Int)) (content.length - (sent + k - c.writeIdx))
        rw [haddress, hrest, hlen,
          show ((sent + k : Nat) : Int) - c.writeIdx = ((sent + k - c.writeIdx : Nat) : Int) by omega,
          show c.writeIdx + content.length - (sent + k) = content.length - (sent + k - c.writeIdx) by omega]
  · -- the first `writev` of the response has ended inside it
    have hzero : sent = 0 := by
      by_contra hne
      exact hpast (hstraight (by omega))
    have hiov : c.iv0.iovLen = c.writeIdx := by
      rw [h.first (by omega), hzero]
      rfl
    rw [hiov, if_neg (by omega)]
    have hcut : toSize ((c.writeIdx : Int) - ((sent + k : Nat) : Int)) = c.writeIdx - (sent + k) := by
      rw [show (c.writeIdx : Int) - ((sent + k : Nat) : Int) = ((c.writeIdx - (sent + k) : Nat) : Int) by
        omega]
      refine toSize_natCast ?_
      rw [List.length_append] at hfits
      omega
    refine ⟨_, rfl, rfl, h.text, h.pos, h.room, rfl, ?_, hle, hfits, ?_, ?_, ?_⟩
    · show c.bytesToSend - (k : Int) = _
      rw [h.toSend]
      omega
    · intro _
      show IoVec.mk (.writeBuf _) (toSize _) = _
      rw [hcut]
    · intro hle'
      exact absurd hle' hpast
    · rcases h.second with hone | ⟨hcount, address, haddress, hfile, hiv⟩
      · exact Or.inl hone
      · refine Or.inr ⟨hcount, address, haddress, hfile, ?_⟩
        show c.iv1 = IoVec.mk (.file _ ((sent + k - c.writeIdx : Nat) : Int)) (content.length - (sent + k - c.writeIdx))
        rw [hiv, show sent - c.writeIdx = 0 by omega, show sent + k - c.writeIdx = 0 by omega]

/-- **A second `writev` that ends inside the header** leaves the `iovec`s pointing at something else
    than what is left. -/
theorem Sending.derailed (h : Sending files header content c sent) (hsent : 0 < sent) {k : Nat}
    (hin : sent + k < c.writeIdx) :
    ∃ c', c.account k = .ok c' ∧ c'.offered files ≠ ((header ++ content).drop (sent + k)).map some := by
  have hfits := h.fits
  have hlen := h.length_header
  rw [List.length_append] at hfits
  have hiov : c.iv0 = ⟨.writeBuf sent, c.writeIdx - sent⟩ := h.first (by omega)
  have hrest : (((header ++ content).drop (sent + k)).map some).length =
      c.writeIdx + content.length - (sent + k) := by
    rw [List.length_map, List.length_drop, List.length_append, hlen]
  rw [h.account_eq (by rw [List.length_append]; omega), hiov]
  by_cases hpast : c.writeIdx - sent ≤ sent + k
  · -- the header is given up, and the file offered from before its beginning
    rw [if_pos hpast]
    refine ⟨_, rfl, fun heq => ?_⟩
    rcases h.second with ⟨hcount, -⟩ | ⟨hcount, address, haddress, -, -⟩
    · have hnil := congrArg List.length heq
      rw [hrest] at hnil
      simp only [offered, hcount, if_true, gather_zero, List.length_nil] at hnil
      omega
    · have hsize' : toSize (c.bytesToSend - (k : Int)) = c.writeIdx + content.length - (sent + k) := by
        rw [h.toSend, List.length_append, hlen, show ((c.writeIdx + content.length : Nat) : Int) - sent - k =
          ((c.writeIdx + content.length - (sent + k) : Nat) : Int) by omega]
        exact toSize_natCast (by omega)
      have hnone : fetch files c (.file c.fileAddress (((sent + k : Nat) : Int) - c.writeIdx)) = none := by
        rw [haddress, fetch, if_neg (by omega)]
      have hmem : none ∈ ((header ++ content).drop (sent + k)).map some := by
        rw [← heq]
        unfold offered
        rw [if_neg (by show ¬ c.ivCount = 1; omega)]
        refine List.mem_append_right _ (List.mem_map.mpr ⟨0, List.mem_range.mpr ?_, ?_⟩)
        · show 0 < toSize (c.bytesToSend - (k : Int))
          omega
        · rw [← hnone]
          show fetch files c (.file c.fileAddress (((sent + k : Nat) : Int) - c.writeIdx + 0)) = _
          rw [Int.add_zero]
      obtain ⟨b, -, hb⟩ := List.mem_map.mp hmem
      cases hb
  · -- as much is left out of the header as had been sent before
    rw [if_neg hpast]
    have hcut : toSize (((c.writeIdx - sent : Nat) : Int) - ((sent + k : Nat) : Int)) =
        c.writeIdx - sent - (sent + k) := by
      rw [show ((c.writeIdx - sent : Nat) : Int) - ((sent + k : Nat) : Int) =
        ((c.writeIdx - sent - (sent + k) : Nat) : Int) by omega]
      exact toSize_natCast (by omega)
    refine ⟨_, rfl, fun heq => ?_⟩
    have hlength := congrArg List.length heq
    rw [hrest] at hlength
    unfold offered gather at hlength
    simp only [hcut] at hlength
    rcases h.second with ⟨hcount, -⟩ | ⟨hcount, address, -, -, hiv⟩
    · rw [if_pos (by exact hcount)] at hlength
      simp only [List.length_map, List.length_range] at hlength
      omega
    · rw [if_neg (by rw [hcount]; decide)] at hlength
      simp only [List.length_append, List.length_map, List.length_range, hiv] at hlength
      omega

end

end HttpConn

/-! ## Every run -/

namespace Transfer

/-- The `writev` is not the second that ends inside the header. -/
def Straight (s : Transfer) : Step → Prop
  | .writev (.sent k) => 0 < s.conn.bytesHaveSend → (s.conn.writeIdx : Int) ≤ s.conn.bytesHaveSend + k
  | _ => True

instance (s : Transfer) : (i : Step) → Decidable (s.Straight i)
  | .writev (.sent _) => inferInstanceAs (Decidable (_ → _))
  | .call | .writev .eagain | .writev .failed => .isTrue trivial

/-- How far the transfer of a response has got. -/
inductive Progress (files : Files) (header content : List Byte) (s : Transfer) : Prop
  | sending (sent : Nat) (returned : s.returned = none ∨ s.returned = some .again)
      (conn : s.conn.Sending files header content sent) (rest : sent < (header ++ content).length)
      (accepted : s.accepted = ((header ++ content).take sent).map some)
  | failed (sent : Nat) (returned : s.returned = some .failed) (out : s.inLoop = false)
      (accepted : s.accepted = ((header ++ content).take sent).map some)
  | complete (returned : s.returned = some .complete) (out : s.inLoop = false)
      (accepted : s.accepted = (header ++ content).map some)

section
variable {files : Files} {header content message : List Byte} {s : Transfer}

/-- `process_write` leaves the whole of the response to be sent. -/
theorem Prepared.sending (h : Prepared files s.conn message) (hpos : 0 < s.conn.writeIdx)
    (hroom : s.conn.writeIdx ≤ writeBufferSize) (hhave : s.conn.bytesHaveSend = 0)
    (hfits : message.length ≤ intMax) :
    ∃ header content, message = header ++ content ∧ s.conn.Sending files header content 0 := by
  cases h with
  | file c₀ address prepared mapped size =>
    rw [prepared] at hpos hroom hhave ⊢
    have hlen : (c₀.writeBuf.slice 0 c₀.writeIdx ++ files address).length =
        c₀.writeIdx + (files address).length := by
      rw [List.length_append, Mem.length_slice]
    have hint : toInt (c₀.writeIdx + c₀.fileStat.size) = c₀.writeIdx + (files address).length := by
      rw [size]
      exact toInt_of_le (by unfold intMin; omega) (by omega)
    have hsize : toSize c₀.fileStat.size = (files address).length := by
      rw [size]
      exact toSize_natCast (by omega)
    refine ⟨_, _, rfl, rfl, hpos, hroom, hhave, ?_, Nat.zero_le _, hfits, fun _ => rfl,
      fun hle => absurd hpos (Nat.not_lt.mpr hle), Or.inr ⟨rfl, address, mapped, rfl, ?_⟩⟩
    · show toInt _ = _
      rw [hint, hlen]
      omega
    · show IoVec.mk (.file c₀.fileAddress 0) (toSize c₀.fileStat.size) = _
      rw [mapped, hsize, Nat.zero_sub, Nat.sub_zero]
      rfl
  | buffer c₀ prepared =>
    rw [prepared] at hpos hroom hhave ⊢
    refine ⟨_, [], (List.append_nil _).symm, rfl, hpos, hroom, hhave, ?_, Nat.zero_le _,
      by rwa [List.append_nil], fun _ => rfl, fun hle => absurd hpos (Nat.not_lt.mpr hle),
      Or.inl ⟨rfl, rfl⟩⟩
    rw [List.append_nil, Mem.length_slice]
    show (c₀.writeIdx : Int) = c₀.writeIdx - 0
    omega

/-- **One step.** -/
theorem Progress.exec (h : Progress files header content s) {i : Step} (he : s.Enabled files i)
    (hstraight : s.Straight i) : ∃ s', s.exec files i = .ok s' ∧ Progress files header content s' := by
  cases h with
  | failed sent returned out accepted =>
    cases i with
    | call => rw [Enabled, returned] at he; simp at he
    | writev answer => cases answer <;> simp [Enabled, out] at he
  | complete returned out accepted =>
    cases i with
    | call => rw [Enabled, returned] at he; simp at he
    | writev answer => cases answer <;> simp [Enabled, out] at he
  | sending sent returned conn rest accepted =>
    have hsend := conn.toSend
    cases i with
    | call =>
      refine ⟨{ s with inLoop := true }, ?_, .sending sent returned conn rest accepted⟩
      show (if s.conn.bytesToSend = 0 then _ else _) = _
      rw [if_neg (by omega)]
    | writev answer =>
      cases answer with
      | eagain =>
        exact ⟨_, rfl, .sending sent (Or.inr rfl) conn rest (by rw [← accepted]; exact List.append_nil _)⟩
      | failed =>
        exact ⟨_, rfl, .failed sent rfl rfl (by rw [← accepted]; exact List.append_nil _)⟩
      | sent k =>
        obtain ⟨-, hk, hle⟩ := he
        rw [conn.offered_eq, List.length_map, List.length_drop] at hle
        obtain ⟨c', hc', hlinger, conn'⟩ := conn.account (k := k) hk (by omega) (fun hpos => by
          have := hstraight (by rw [conn.haveSend]; omega)
          rw [conn.haveSend] at this
          omega)
        have htake : s.accepted ++ (s.conn.offered files).take k =
            ((header ++ content).take (sent + k)).map some := by
          rw [accepted, conn.offered_eq, ← List.map_take, ← List.map_append, ← List.take_add]
        have hsend' := conn'.toSend
        by_cases hdone : c'.bytesToSend ≤ 0
        · -- `bytes_to_send` is what is left, and so nothing is
          have hall : sent + k = (header ++ content).length := by omega
          rw [hall, List.take_length] at htake
          let last : HttpConn := if c'.unmap.linger then c'.unmap.init else c'.unmap
          refine ⟨⟨last, false, some .complete, s.accepted ++ (s.conn.offered files).take k⟩, ?_,
            .complete rfl rfl htake⟩
          simp only [Transfer.exec, HttpConn.writeRound, hc', bind, Except.bind, if_pos hdone]
          rfl
        · have hrest : sent + k < (header ++ content).length := by omega
          refine ⟨⟨c', true, none, s.accepted ++ (s.conn.offered files).take k⟩, ?_,
            .sending (sent + k) (Or.inl rfl) conn' hrest htake⟩
          simp only [Transfer.exec, HttpConn.writeRound, hc', bind, Except.bind, if_neg hdone]
          rfl

end

/-- **Exact transmission.** In every run of `writev` outcomes over one response that fits an `int`,
    no `writev` but the first ending inside the header: what the socket has accepted is a prefix of
    the response at any moment, it is the response when `write()` takes its `bytes_to_send <= 0`
    exit, and no step is a fault. -/
theorem accepted_prefix {files : Files} {message : List Byte} {s₀ s : Transfer} {h : List Step}
    (hfits : message.length ≤ intMax) (hstart : (transfer files message).start s₀)
    (hrun : ((transfer files message).restrict Straight).Run s₀ h s) :
    s.accepted <+: message.map some ∧
      (s.returned = some .complete → s.accepted = message.map some) ∧
      ∀ i, s.Enabled files i → s.Straight i → ∃ s', s.exec files i = .ok s' := by
  obtain ⟨hprep, hpos, hroom, hhave, -, hreturned, haccepted⟩ := hstart
  obtain ⟨header, content, rfl, hsending⟩ := hprep.sending hpos hroom hhave hfits
  have hprogress : Progress files header content s := by
    refine hrun.invariant (I := fun _ t => Progress files header content t) ?_ ?_
    · intro h t i u hp hstep
      obtain ⟨⟨henabled, hexec⟩, hstraight⟩ := hstep
      obtain ⟨u', hu', hp'⟩ := hp.exec henabled hstraight
      rw [hexec] at hu'
      cases hu'
      exact hp'
    · refine .sending 0 (Or.inl hreturned) hsending ?_ (by rw [haccepted]; rfl)
      have hlen := hsending.length_header
      rw [List.length_append]
      omega
  refine ⟨?_, fun hcomplete => ?_, fun i hi hstraight => ?_⟩
  · cases hprogress with
    | sending sent _ _ _ accepted => rw [accepted]; exact (List.take_prefix _ _).map some
    | failed sent _ _ accepted => rw [accepted]; exact (List.take_prefix _ _).map some
    | complete _ _ accepted => exact ⟨[], by rw [List.append_nil, accepted]⟩
  · cases hprogress with
    | sending sent returned => rcases returned with h | h <;> simp [hcomplete] at h
    | failed sent returned => simp [hcomplete] at returned
    | complete _ _ accepted => exact accepted
  · obtain ⟨s', hs', -⟩ := hprogress.exec hi hstraight
    exact ⟨s', hs'⟩

/-- A connection that a file of two bytes was found for, and its transfer as `process_write` leaves it
    to `write()`: a header of 55 bytes, and the file. -/
def found : HttpConn :=
  { (default : HttpConn).init with
    fileAddress := some 0
    fileStat := ⟨2, true, false⟩ }

def ready : Transfer := ⟨(found.processWrite .fileRequest).2, false, none, []⟩

def reply : List Byte := HttpConn.responseText .fileRequest 2 false ++ bytes "hi"

theorem ready_start : (transfer (fun _ => bytes "hi") reply).start ready := by
  have hconn : ready.conn = (found.append (HttpConn.responseText .fileRequest 2 false)).sendFile := by
    rw [ready, HttpConn.processWrite_eq rfl]
    rfl
  have hprepared : Prepared (fun _ => bytes "hi") ready.conn _ := Prepared.file _ 0 hconn rfl rfl
  have hreply : (found.append (HttpConn.responseText .fileRequest 2 false)).writeBuf.slice 0
      (found.append (HttpConn.responseText .fileRequest 2 false)).writeIdx ++ bytes "hi" = reply := by
    decide +kernel
  rw [hreply] at hprepared
  exact ⟨hprepared, by decide +kernel, by decide +kernel, rfl, rfl, rfl, rfl⟩

/-- Two calls of `write()`, the first ending in `EAGAIN` after ten bytes. -/
theorem accepted_prefix_twice : ∃ s₀ h s,
    h = [.writev (.sent 46), .call, .writev .eagain, .writev (.sent 10), .call] ∧
    ((transfer (fun _ => bytes "hi") reply).restrict Straight).Run s₀ h s ∧
    s.accepted <+: reply.map some := by
  obtain ⟨s, hs⟩ : ∃ s, System.follow (exec fun _ => bytes "hi")
      (fun s i => s.Enabled (fun _ => bytes "hi") i ∧ s.Straight i) ready
      [.writev (.sent 46), .call, .writev .eagain, .writev (.sent 10), .call] = some s :=
    Option.isSome_iff_exists.mp (by decide +kernel)
  have hrun : ((transfer (fun _ => bytes "hi") reply).restrict Straight).Run ready
      [.writev (.sent 46), .call, .writev .eagain, .writev (.sent 10), .call] s := by
    refine System.Run.of_follow (fun t i u hok hexec => ?_) hs
    obtain ⟨henabled, hstraight⟩ := of_decide_eq_true hok
    exact ⟨⟨henabled, hexec⟩, hstraight⟩
  have haccepted := accepted_prefix (by decide +kernel) ready_start hrun
  exact ⟨ready, _, s, rfl, hrun, haccepted.1⟩

/-- Twice ten bytes of the header, and the third `writev` is offered the next 25 and then the file. -/
theorem skipped_header : ∃ files message s₀ h s,
    h = [.writev (.sent 27), .writev (.sent 10), .writev (.sent 10), .call] ∧
    message.length ≤ intMax ∧ (transfer files message).start s₀ ∧ (transfer files message).Run s₀ h s ∧
      ¬ s.accepted <+: message.map some := by
  have hfollow : (System.follow (exec fun _ => bytes "hi")
      (fun s i => s.Enabled (fun _ => bytes "hi") i) ready
      [.writev (.sent 27), .writev (.sent 10), .writev (.sent 10), .call]).any
        (fun s => ¬ s.accepted <+: reply.map some) = true := by decide +kernel
  obtain ⟨s, hs, haccepted⟩ := (Option.any_eq_true _ _).mp hfollow
  have hrun : (transfer (fun _ => bytes "hi") reply).Run ready _ s :=
    System.Run.of_follow (fun t i u hok hexec => And.intro (of_decide_eq_true hok) hexec) hs
  exact ⟨fun _ => bytes "hi", reply, ready, _, s, rfl, by decide +kernel, ready_start, hrun,
    of_decide_eq_true haccepted⟩

end Transfer

end Http
end LinuxServer
