import LinuxServer.Lib.Fault
import LinuxServer.Lib.DList
import Mathlib.Data.List.AList

/-!
# `Timer/List.lean` — `sort_timer_lst`, as `timer/lst_timer.cpp` computes it

The ascending list of timers, over an explicit heap. A `util_timer *` is an address or null, the
heap is the finite map of the timers that are allocated and not yet deleted, and every `->` is a
`load` that faults on null and on an address the heap no longer has; so a function that returns
`.ok` has dereferenced nothing it may not.

`cb_func` is the one function every timer of the program carries, and it never touches the list:
`tick` answers the `user_data` it is called with, in order, and the caller of `tick` says what the
calls do (`WebServer/MainLoop.lean`). A `client_data *` is the index of its slot in `users_timer`.
-/

set_option autoImplicit false

namespace LinuxServer
namespace Timer

/-- The address of a `util_timer`. -/
abbrev Ptr := Nat

structure UtilTimer where
  expire : Int
  userData : Nat
  prev : Option Ptr := none
  next : Option Ptr := none
  deriving DecidableEq, Repr

structure SortTimerLst where
  heap : AList fun _ : Ptr => UtilTimer
  head : Option Ptr
  tail : Option Ptr

namespace SortTimerLst

/-- The constructor: no timer, and both ends null. -/
def empty : SortTimerLst := ⟨∅, none, none⟩

/-! ## Memory -/

def load (s : SortTimerLst) : Option Ptr → Except Fault UtilTimer
  | none => .error .nullPointer
  | some p =>
    match s.heap.lookup p with
    | none => .error .dangling
    | some n => .ok n

/-- The heap with the timer at `p` rewritten. -/
def put (s : SortTimerLst) (p : Ptr) (n : UtilTimer) : SortTimerLst :=
  { s with heap := s.heap.insert p n }

def store (s : SortTimerLst) (p : Option Ptr) (f : UtilTimer → UtilTimer) :
    Except Fault SortTimerLst :=
  match p with
  | none => .error .nullPointer
  | some p =>
    match s.heap.lookup p with
    | none => .error .dangling
    | some n => .ok (s.put p (f n))

def setNext (s : SortTimerLst) (p v : Option Ptr) : Except Fault SortTimerLst :=
  s.store p ({ · with next := v })

def setPrev (s : SortTimerLst) (p v : Option Ptr) : Except Fault SortTimerLst :=
  s.store p ({ · with prev := v })

/-- `timer->expire = cur + 3 * TIMESLOT` and the like. -/
def setExpire (s : SortTimerLst) (p : Option Ptr) (e : Int) : Except Fault SortTimerLst :=
  s.store p ({ · with expire := e })

/-- `new util_timer`, at an address the heap does not have: both links null. -/
def alloc (s : SortTimerLst) (p : Ptr) (e : Int) (u : Nat) : SortTimerLst :=
  s.put p { expire := e, userData := u }

/-- The heap without the timer at `p`. -/
def free (s : SortTimerLst) (p : Ptr) : SortTimerLst := { s with heap := s.heap.erase p }

/-- `delete timer`; deleting what is not allocated is a fault. -/
def delete (s : SortTimerLst) (p : Ptr) : Except Fault SortTimerLst :=
  match s.heap.lookup p with
  | none => .error .dangling
  | some _ => .ok (s.free p)

/-! ## The list operations -/

/-- `add_timer(timer, lst_head)`, its `while (tmp)` loop and the `if (!tmp)` behind it. -/
def addTimerLoop : Nat → SortTimerLst → Ptr → Option Ptr → Option Ptr → Except Fault SortTimerLst
  | _, s, timer, prev, none => do
    let s ← s.setNext prev (some timer)
    let s ← s.setPrev (some timer) prev
    let s ← s.setNext (some timer) none
    return { s with tail := some timer }
  | 0, _, _, _, some _ => .error .diverge
  | fuel + 1, s, timer, prev, some tmp => do
    let t ← s.load (some timer)
    let m ← s.load (some tmp)
    if t.expire < m.expire then
      let s ← s.setNext prev (some timer)
      let s ← s.setNext (some timer) (some tmp)
      let s ← s.setPrev (some tmp) (some timer)
      s.setPrev (some timer) prev
    else
      addTimerLoop fuel s timer (some tmp) m.next

/-- The private `add_timer(timer, lst_head)`. The walk visits no timer twice, so the number of
    allocated timers bounds it (`addTimerFrom_rep` is what makes that an honest bound). -/
def addTimerFrom (s : SortTimerLst) (timer : Ptr) (lstHead : Option Ptr) :
    Except Fault SortTimerLst := do
  let prev ← s.load lstHead
  addTimerLoop s.heap.keys.length s timer lstHead prev.next

/-- The public `add_timer(timer)`. -/
def addTimer (s : SortTimerLst) (timer : Option Ptr) : Except Fault SortTimerLst :=
  match timer with
  | none => .ok s
  | some timer =>
    match s.head with
    | none => .ok { s with head := some timer, tail := some timer }
    | some head => do
      let t ← s.load (some timer)
      let h ← s.load (some head)
      if t.expire < h.expire then
        let s ← s.setNext (some timer) (some head)
        let s ← s.setPrev (some head) (some timer)
        return { s with head := some timer }
      else
        s.addTimerFrom timer (some head)

def adjustTimer (s : SortTimerLst) (timer : Option Ptr) : Except Fault SortTimerLst :=
  match timer with
  | none => .ok s
  | some timer => do
    let t ← s.load (some timer)
    match t.next with
    | none => return s
    | some tmp =>
      let m ← s.load (some tmp)
      if t.expire < m.expire then
        return s
      else if s.head = some timer then
        let h ← s.load s.head
        let s := { s with head := h.next }
        let s ← s.setPrev s.head none
        let s ← s.setNext (some timer) none
        s.addTimerFrom timer s.head
      else
        let s ← s.setNext t.prev t.next
        let s ← s.setPrev t.next t.prev
        s.addTimerFrom timer t.next

def delTimer (s : SortTimerLst) (timer : Option Ptr) : Except Fault SortTimerLst :=
  match timer with
  | none => .ok s
  | some timer =>
    if s.head = some timer ∧ s.tail = some timer then do
      let s ← s.delete timer
      return { s with head := none, tail := none }
    else if s.head = some timer then do
      let h ← s.load s.head
      let s := { s with head := h.next }
      let s ← s.setPrev s.head none
      s.delete timer
    else if s.tail = some timer then do
      let z ← s.load s.tail
      let s := { s with tail := z.prev }
      let s ← s.setNext s.tail none
      s.delete timer
    else do
      let t ← s.load (some timer)
      let s ← s.setNext t.prev t.next
      let s ← s.setPrev t.next t.prev
      s.delete timer

/-- `if (head) { head->prev = NULL; }`. -/
def cutHead (s : SortTimerLst) : Except Fault SortTimerLst :=
  match s.head with
  | none => .ok s
  | some head => s.setPrev (some head) none

/-- The `while (tmp)` loop of `tick`: the `user_data` of the callbacks made, and the list. -/
def tickLoop : Nat → Int → SortTimerLst → Option Ptr → Except Fault (List Nat × SortTimerLst)
  | _, _, s, none => .ok ([], s)
  | 0, _, _, some _ => .error .diverge
  | fuel + 1, cur, s, some tmp => do
    let t ← s.load (some tmp)
    if cur < t.expire then
      return ([], s)
    let s := { s with head := t.next }
    let s ← s.cutHead
    let s ← s.delete tmp
    let (fired, s) ← tickLoop fuel cur s s.head
    return (t.userData :: fired, s)

/-- `tick()`, the clock reading `cur`. -/
def tick (s : SortTimerLst) (cur : Int) : Except Fault (List Nat × SortTimerLst) :=
  match s.head with
  | none => .ok ([], s)
  | some _ => tickLoop s.heap.keys.length cur s s.head

end SortTimerLst

end Timer
end LinuxServer
