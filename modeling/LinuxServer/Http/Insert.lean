import LinuxServer.Http.Fields
import LinuxServer.Lib.SqlText

/-!
# `Http/Insert.lean` — the text of `sql_insert`

`do_request` puts name and password between quotes and nothing else. `readInsert` is what the statement says to
a server that knows the rules for literals, and it says the two values if and only if neither needs an escape.
-/

set_option autoImplicit false

namespace LinuxServer
namespace Http

/-- The values of a statement that inserts one row of two literals into `user`. -/
def readInsert (statement : List Byte) : Option (List Byte × List Byte) :=
  let head := bytes "INSERT INTO user(username,passwd) VALUES("
  if head <+: statement then
    match SqlText.row statement.length (statement.drop head.length) with
    | some [name, passwd] => some (name, passwd)
    | _ => none
  else none

/-- The values are quoted as a row is. -/
theorem sqlInsert_eq (name passwd : List Byte) : sqlInsert name passwd =
    bytes "INSERT INTO user(username,passwd) VALUES(" ++ SqlText.quoted [name, passwd] := by
  simp only [sqlInsert, SqlText.quoted, List.append_assoc, List.append_cancel_left_eq]
  rfl

theorem readInsert_eq_some {row : List Byte} {name passwd : List Byte} :
    readInsert (bytes "INSERT INTO user(username,passwd) VALUES(" ++ row) = some (name, passwd) ↔
      SqlText.row (bytes "INSERT INTO user(username,passwd) VALUES(" ++ row).length row =
        some [name, passwd] := by
  simp only [readInsert]
  rw [if_pos (List.prefix_append _ _), List.drop_left]
  constructor
  · intro h
    split at h
    · rename_i name' passwd' hrow
      cases h
      exact hrow
    · cases h
  · intro h
    rw [h]

/-- **The `INSERT` encodes its two values** if and only if there is no quote in either, and no backslash but in
    `\%` and `\_`. -/
theorem insert_decodes_iff (name passwd : List Byte) :
    readInsert (sqlInsert name passwd) = some (name, passwd) ↔
      SqlText.plain name = true ∧ SqlText.plain passwd = true := by
  have hfuel : ∀ head : List Byte, [passwd].length < (head ++ SqlText.quoted [name, passwd]).length := by
    intro head
    rw [List.length_append, SqlText.length_quoted]
    simp only [SqlText.size, List.length_singleton]
    omega
  rw [sqlInsert_eq, readInsert_eq_some, SqlText.row_quoted_iff name [passwd] (hfuel _), List.forall_mem_cons,
    List.forall_mem_singleton]

/-- A name that closes its literal and the row, and comments the rest out. -/
example : readInsert (sqlInsert (bytes "x','y') -- ") (bytes "z")) = some (bytes "x", bytes "y") := by
  decide +kernel

/-- **A quote in a name** is the end of it: the statement that the server is given for the body of a form is none
    of its two values. -/
theorem insert_undecoded : ∃ s c, reception.Reachable s ∧ s.FormTurn c 5 5 ∧
    c.body = bytes "user=a'b&password=x" ∧ c.credentials = .ok (bytes "a'b", bytes "x") ∧
    (sqlInsert (bytes "a'b") (bytes "x")).length < 200 ∧
    readInsert (sqlInsert (bytes "a'b") (bytes "x")) ≠ some (bytes "a'b", bytes "x") := by
  obtain ⟨s, hs, h⟩ := Reception.reachable_body
    (x := bytes "POST /3 HTTP/1.1\r\ncontent-length:19\r\n\r\nuser=a'b&password=x")
    (P := fun s => s.comesTo 5 5 fun c => c.body = bytes "user=a'b&password=x" ∧
      c.credentials.toOption = some (bytes "a'b", bytes "x"))
    (by decide +kernel)
  obtain ⟨c, hturn, htest⟩ := Reception.formTurn_of_comesTo h
  obtain ⟨hbody, hcred⟩ := of_decide_eq_true htest
  exact ⟨s, c, hs, hturn, hbody, eq_ok_of_toOption hcred, by decide, by decide +kernel⟩

end Http
end LinuxServer
