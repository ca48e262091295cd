import LinuxServer.Http.Response
import LinuxServer.Lib.Printf

/-!
# `Http/Builder.lean` — the calls of `add_response`

`add_response` passes what is left of `m_write_buf`, less a byte, to `vsnprintf`, and takes the piece if its length
is less than that: then the piece and its NUL are in the buffer, with a byte to spare, and `m_write_idx` comes to
1022 at most. A piece that was cut is left behind `m_write_idx`, where the next one is put over it.

The length is what `vsnprintf` returns, an `int`: a piece that is longer is not one that it can report, and none of
the functions that call `add_response` makes one. For all others the builder is sound (`builds`), whatever their
number and their lengths.

`addResponse` of `Http/Response.lean` is what a call does there (`addResponse_conn`). What `LOG_INFO` makes of the
buffer is left out.
-/

set_option autoImplicit false

namespace LinuxServer
namespace Http

/-- `m_write_buf` and `m_write_idx`. -/
structure WriteBuffer where
  writeBuf : Mem
  writeIdx : Int

namespace WriteBuffer

/-- `add_response`, with the text that the format and its arguments make. -/
def addResponse (b : WriteBuffer) (text : List Byte) : Except Fault (Bool × WriteBuffer) :=
  if writeBufferSize ≤ b.writeIdx then .ok (false, b)
  else do
    let (buf, len) ← snprintf writeBufferSize b.writeBuf b.writeIdx (toSize (writeBufferSize - 1 - b.writeIdx)) text
    if writeBufferSize - 1 - b.writeIdx ≤ len then return (false, { b with writeBuf := buf })
    else return (true, { writeBuf := buf, writeIdx := b.writeIdx + len })

/-- One call after the other, and the pieces whose call returned true. -/
def addResponses (b : WriteBuffer) : List (List Byte) → Except Fault (List Byte × WriteBuffer)
  | [] => .ok ([], b)
  | text :: pieces => do
    let (ok, b) ← b.addResponse text
    let (taken, b) ← b.addResponses pieces
    return ((if ok then text else []) ++ taken, b)

/-- An empty buffer, whatever its bytes are. -/
def empty (buf : Mem) : WriteBuffer := ⟨buf, 0⟩

/-- **The builder is sound** for these pieces: before each of the calls, and after the last, nothing was stored
    outside `m_write_buf`, `m_write_idx` is in its bounds, and the bytes in front of it are the pieces that were
    taken; and a call that returns false leaves both alone. -/
def Builds (buf : Mem) (pieces : List (List Byte)) : Prop :=
  ∀ done, done <+: pieces → ∃ taken b, (empty buf).addResponses done = .ok (taken, b) ∧
    0 ≤ b.writeIdx ∧ b.writeIdx ≤ writeBufferSize - 2 ∧ b.writeBuf.slice 0 b.writeIdx.toNat = taken ∧
    ∀ text b', done ++ [text] <+: pieces → b.addResponse text = .ok (false, b') →
      b'.writeIdx = b.writeIdx ∧ b'.writeBuf.slice 0 b.writeIdx.toNat = b.writeBuf.slice 0 b.writeIdx.toNat

/-- **The invariant**: these are the bytes in front of `m_write_idx`, and there is room for two more. -/
structure Holds (b : WriteBuffer) (taken : List Byte) : Prop where
  idx : b.writeIdx = taken.length
  room : taken.length + 2 ≤ writeBufferSize
  text : b.writeBuf.slice 0 taken.length = taken

section
variable {b b' : WriteBuffer} {taken text : List Byte} {pieces done : List (List Byte)}

/-! ## One call -/

theorem holds_empty (buf : Mem) : (empty buf).Holds [] := ⟨rfl, by decide, rfl⟩

/-- What is stored behind the bytes leaves them. -/
theorem slice_blit_behind (buf : Mem) (w : List Byte) :
    (buf.blit taken.length w).slice 0 taken.length = buf.slice 0 taken.length :=
  Mem.slice_congr fun i _ hi => Mem.blit_lt _ _ (by omega)

/-- **A call** stores what there is room for behind the bytes, and goes by what is printed. -/
theorem Holds.addResponse_eq (hb : b.Holds taken) (text : List Byte) :
    b.addResponse text = .ok
      (let buf := b.writeBuf.blit taken.length (text.take (writeBufferSize - 2 - taken.length) ++ [0])
      if writeBufferSize - 1 - b.writeIdx ≤ printed text then (false, { b with writeBuf := buf })
      else (true, { writeBuf := buf, writeIdx := b.writeIdx + printed text })) := by
  have hidx := hb.idx
  have hroom := hb.room
  have hsize : toSize (writeBufferSize - 1 - b.writeIdx) = writeBufferSize - 2 - taken.length + 1 := by
    unfold writeBufferSize at hroom ⊢
    unfold toSize
    omega
  have hprint : snprintf writeBufferSize b.writeBuf b.writeIdx (toSize (writeBufferSize - 1 - b.writeIdx)) text =
      .ok (b.writeBuf.blit taken.length (text.take (writeBufferSize - 2 - taken.length) ++ [0]),
        printed text) := by
    rw [snprintf_eq (by omega) (by omega) (by omega), hsize, Nat.add_sub_cancel, hidx, Int.toNat_natCast]
  unfold addResponse
  rw [if_neg (by omega), hprint]
  show (if _ then _ else _) = _
  split
  · rfl
  · rfl

/-- A piece that has room, and its NUL. -/
theorem Holds.addResponse_fits (hb : b.Holds taken) (hfits : taken.length + text.length + 2 ≤ writeBufferSize) :
    ∃ b', b.addResponse text = .ok (true, b') ∧ b'.Holds (taken ++ text) := by
  have hidx := hb.idx
  have hprinted : printed text = text.length := if_pos (by
    unfold writeBufferSize at hfits
    unfold intMax
    omega)
  refine ⟨⟨b.writeBuf.blit taken.length (text.take (writeBufferSize - 2 - taken.length) ++ [0]),
    b.writeIdx + text.length⟩, ?_, ?_, ?_, ?_⟩
  · rw [hb.addResponse_eq, hprinted]
    simp only
    rw [if_neg (by omega)]
  · rw [List.length_append, hidx, Int.natCast_add]
  · rw [List.length_append]
    exact hfits
  · -- the NUL stands behind the piece
    have hpiece : ((b.writeBuf.blit taken.length text).blit (taken.length + text.length) [0]).slice taken.length
        text.length = (b.writeBuf.blit taken.length text).slice taken.length text.length :=
      Mem.slice_congr fun i _ hi => Mem.blit_lt _ _ hi
    simp only
    rw [List.take_of_length_le (by omega), List.length_append, Mem.slice_append, slice_blit_behind, hb.text,
      Nat.zero_add, ← Mem.blit_append, hpiece, Mem.slice_blit]

/-- A piece that has none is cut, and not taken. -/
theorem Holds.addResponse_cut (hb : b.Holds taken) (hlong : writeBufferSize < taken.length + text.length + 2)
    (hint : text.length ≤ intMax) :
    ∃ b', b.addResponse text = .ok (false, b') ∧ b'.writeIdx = b.writeIdx ∧ b'.Holds taken := by
  have hidx := hb.idx
  have hprinted : printed text = text.length := if_pos hint
  refine ⟨⟨b.writeBuf.blit taken.length (text.take (writeBufferSize - 2 - taken.length) ++ [0]), b.writeIdx⟩,
    ?_, rfl, hidx, hb.room, ?_⟩
  · rw [hb.addResponse_eq, hprinted]
    simp only
    rw [if_pos (by omega)]
  · simp only
    rw [slice_blit_behind, hb.text]

/-- **One call** with a piece whose length is an `int`. -/
theorem Holds.addResponse (hb : b.Holds taken) (hint : text.length ≤ intMax) :
    ∃ ok b', b.addResponse text = .ok (ok, b') ∧ b'.Holds (taken ++ if ok then text else []) ∧
      (ok = false → b'.writeIdx = b.writeIdx) := by
  by_cases hfits : taken.length + text.length + 2 ≤ writeBufferSize
  · obtain ⟨b', hcall, hb'⟩ := hb.addResponse_fits hfits
    exact ⟨true, b', hcall, hb', fun heq => by cases heq⟩
  · obtain ⟨b', hcall, hidx, hb'⟩ := hb.addResponse_cut (Nat.lt_of_not_le hfits) hint
    refine ⟨false, b', hcall, ?_, fun _ => hidx⟩
    rw [if_neg Bool.false_ne_true, List.append_nil]
    exact hb'

/-- What `addResponse` of a connection does. -/
theorem addResponse_conn {c : HttpConn} (hroom : c.writeIdx + 2 ≤ writeBufferSize) (hint : text.length ≤ intMax) :
    addResponse ⟨c.writeBuf, c.writeIdx⟩ text =
      .ok ((c.addResponse text).1, ⟨(c.addResponse text).2.writeBuf, (c.addResponse text).2.writeIdx⟩) := by
  have hb : Holds ⟨c.writeBuf, c.writeIdx⟩ (c.writeBuf.slice 0 c.writeIdx) :=
    ⟨by rw [Mem.length_slice], by rw [Mem.length_slice]; exact hroom, by rw [Mem.length_slice]⟩
  have hprinted : printed text = text.length := if_pos hint
  have hsize : writeBufferSize - 1 - c.writeIdx - 1 = writeBufferSize - 2 - c.writeIdx := by omega
  rw [hb.addResponse_eq, hprinted, Mem.length_slice]
  unfold HttpConn.addResponse
  simp only
  rw [if_neg (show ¬ writeBufferSize ≤ c.writeIdx by omega),
    if_neg (show ¬ writeBufferSize - 1 - c.writeIdx = 0 by omega), hsize]
  by_cases hlong : writeBufferSize - 1 - c.writeIdx ≤ text.length
  · rw [if_pos hlong, if_pos (by omega)]
  · rw [if_neg hlong, if_neg (by omega)]
    rfl

/-! ## All calls -/

/-- **The calls** from a sound buffer, where every length is an `int`. -/
theorem Holds.addResponses (hb : b.Holds taken) (hint : ∀ text ∈ pieces, (text.length : Int) ≤ intMax) :
    ∃ more b', b.addResponses pieces = .ok (more, b') ∧ b'.Holds (taken ++ more) := by
  induction pieces generalizing b taken with
  | nil =>
    refine ⟨[], b, rfl, ?_⟩
    rw [List.append_nil]
    exact hb
  | cons text pieces ih =>
    obtain ⟨htext, hint⟩ := List.forall_mem_cons.mp hint
    obtain ⟨ok, b₁, hcall, hb₁, -⟩ := hb.addResponse htext
    obtain ⟨more, b', hcalls, hb'⟩ := ih hb₁ hint
    refine ⟨(if ok then text else []) ++ more, b', ?_, ?_⟩
    · exact bind_eq_ok.mpr ⟨_, hcall, bind_eq_ok.mpr ⟨_, hcalls, rfl⟩⟩
    · rw [← List.append_assoc]
      exact hb'

/-- **The builder is sound**, where `vsnprintf` can tell the length of every piece. -/
theorem builds (buf : Mem) (hint : ∀ text ∈ pieces, (text.length : Int) ≤ intMax) : Builds buf pieces := by
  intro done hdone
  have hints : ∀ text ∈ done, (text.length : Int) ≤ intMax := fun text hmem => hint text (hdone.subset hmem)
  obtain ⟨taken, b, hcalls, hb⟩ := (holds_empty buf).addResponses hints
  rw [List.nil_append] at hb
  have hidx := hb.idx
  have hroom := hb.room
  have hlength : b.writeIdx.toNat = taken.length := by omega
  refine ⟨taken, b, hcalls, by omega, by omega, ?_, ?_⟩
  · rw [hlength]
    exact hb.text
  · intro text b' hnext hcall
    have hmem : text ∈ pieces := hnext.subset (List.mem_append_right _ List.mem_cons_self)
    obtain ⟨ok, b₁, hcall₁, hb₁, hsame⟩ := hb.addResponse (hint text hmem)
    cases hcall₁.symm.trans hcall
    refine ⟨hsame rfl, ?_⟩
    rw [if_neg Bool.false_ne_true, List.append_nil] at hb₁
    rw [hlength, hb₁.text, hb.text]

/-- A status line, a content that has no room, and a line behind it. -/
theorem builds_cut : Builds (fun _ => 0)
    [bytes "HTTP/1.1 200 OK\r\n", List.replicate 2000 97, bytes "Connection:close\r\n"] := by
  refine builds _ fun text hmem => ?_
  simp only [List.mem_cons, List.not_mem_nil, or_false] at hmem
  rcases hmem with rfl | rfl | rfl
  · decide
  · rw [List.length_replicate]
    decide
  · decide

end

end WriteBuffer
end Http
end LinuxServer
