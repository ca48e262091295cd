import LinuxServer.Lib.CInt
import LinuxServer.Lib.CString
import LinuxServer.Lib.Fault

/-!
# `Lib/Printf.lean` — `snprintf` and `vsnprintf`

They keep to the size they are given, and return the length the text would have had, which is an `int`: a text
that is longer than one gives −1. The text that the format and its arguments make is an argument here.
-/

set_option autoImplicit false

namespace LinuxServer

/-- What `snprintf` and `vsnprintf` return: the length of the whole text, if it is an `int`. -/
def printed (text : List Byte) : Int := if text.length ≤ intMax then text.length else -1

/-- `snprintf(buf + p, size, ..)` and `vsnprintf(buf + p, size, ..)`, for a text, in a `buf` of `bufSize`
    bytes. -/
def snprintf (bufSize : Int) (buf : Mem) (p : Int) (size : Nat) (text : List Byte) : Except Fault (Mem × Int) :=
  let written := if size = 0 then [] else text.take (size - 1) ++ [0]
  if p < 0 ∨ bufSize < p + written.length then .error .outOfBounds
  else .ok (buf.blit p.toNat written, printed text)

section
variable {bufSize p : Int} {buf : Mem} {size : Nat}

/-- Where there is room for as much as it is allowed to write. -/
theorem snprintf_eq (hp : 0 ≤ p) (hsize : 0 < size) (hroom : p + size ≤ bufSize)
    (text : List Byte) : snprintf bufSize buf p size text =
      .ok (buf.blit p.toNat (text.take (size - 1) ++ [0]), printed text) := by
  have hlength : (text.take (size - 1) ++ [0]).length ≤ size := by
    rw [List.length_append, List.length_take, List.length_singleton]
    omega
  unfold snprintf
  simp only [if_neg (Nat.ne_of_gt hsize)]
  rw [if_neg (by omega)]

end

end LinuxServer
