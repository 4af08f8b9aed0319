import GProxy.Lib.WordBytes

/-!
# What both proxies share

The protocol constants of `globalUtils.c` and the outcomes of the system calls. A call that may
be repeated gets a list of outcomes, one for each time it is made: `doWhile` is the
`do … while` around it. It answers `none` when the loop has not ended on the outcomes given,
and else the outcome the loop ended with and the outcomes nobody asked for.
-/

namespace GProxy

/-- `HEADER_SIZE` -/
def headerSize : Nat := 5

/-- The bytes of `endingBody`, its terminator included. -/
def endingBody : List UInt8 := [105, 110, 97, 110, 105, 115, 111, 110, 111, 98, 108, 117, 0]

/-- The bytes `'B'` and `'I'` of the type field. -/
def typeB : UInt8 := 66
def typeI : UInt8 := 73

/-- `htonl` on the little-endian machine the program is built for. -/
def htonl (x : UInt32) : UInt32 := WordBytes.swap x
def ntohl (x : UInt32) : UInt32 := WordBytes.swap x

/-- Converting a number and back gives the number: what one proxy wrote the other reads. -/
@[simp] theorem ntohl_htonl (x : UInt32) : ntohl (htonl x) = x := WordBytes.swap_swap x

/-- The conversion keeps 0 apart, the number of the end marker and of a refused packet. -/
theorem htonl_eq_zero_iff {x : UInt32} : htonl x = 0 ↔ x = 0 := WordBytes.swap_eq_zero_iff

/-- The values of `errno` the code tells apart. -/
inductive Errno
  | EINTR
  | EAGAIN
  | other (code : Nat)
  deriving DecidableEq, Repr

/-- One number with `EAGAIN` on Linux. -/
def Errno.EWOULDBLOCK : Errno := .EAGAIN

/-- One outcome of `recv`: the bytes it wrote (none at the end of a stream), or `-1`. -/
inductive Recv
  | data (bytes : List UInt8)
  | failed (errno : Errno)
  deriving DecidableEq, Repr

/-- The bytes of an outcome, if there are any, meet a condition. -/
def Recv.OnData (P : List UInt8 → Prop) : Recv → Prop
  | .data bytes => P bytes
  | .failed _ => True

instance (P : List UInt8 → Prop) [DecidablePred P] : DecidablePred (Recv.OnData P)
  | .data bytes => inferInstanceAs (Decidable (P bytes))
  | .failed _ => .isTrue trivial

/-- One outcome of `sendto`: all bytes taken, or `-1`. -/
inductive SendTo
  | sent
  | failed (errno : Errno)
  deriving DecidableEq, Repr

/-- `do r = call(); while (again r);` -/
def doWhile {α : Type*} (again : α → Bool) : List α → Option (α × List α)
  | [] => none
  | r :: rest => if again r then doWhile again rest else some (r, rest)

/-- The same loop under a bound on the number of calls, `fuel` more after this one. -/
def doWhileUpTo {α : Type*} (again : α → Bool) : Nat → List α → Option (α × List α)
  | _, [] => none
  | 0, r :: rest => some (r, rest)
  | fuel + 1, r :: rest => if again r then doWhileUpTo again fuel rest else some (r, rest)

/-- The outcome a loop ends with is one of the outcomes given. -/
theorem mem_of_doWhile {α : Type*} {again : α → Bool} {outcomes rest : List α} {r : α}
    (h : doWhile again outcomes = some (r, rest)) : r ∈ outcomes := by
  induction outcomes with
  | nil => cases h
  | cons o os ih =>
    unfold doWhile at h
    split at h
    next => exact List.mem_cons_of_mem _ (ih h)
    next => cases h; exact List.mem_cons_self

/-- The outcome a retry loop ends with is one that the call gave: the loop makes nothing up. -/
theorem mem_of_doWhileUpTo {α : Type*} {again : α → Bool} {fuel : Nat} {outcomes rest : List α}
    {r : α} (h : doWhileUpTo again fuel outcomes = some (r, rest)) : r ∈ outcomes := by
  induction outcomes generalizing fuel with
  | nil => cases fuel <;> cases h
  | cons o os ih =>
    cases fuel with
    | zero => cases h; exact List.mem_cons_self
    | succ fuel =>
      unfold doWhileUpTo at h
      split at h
      next => exact List.mem_cons_of_mem _ (ih h)
      next => cases h; exact List.mem_cons_self

/-- The loop has not ended on outcomes all of which ask for another call. -/
theorem doWhile_eq_none_iff {α : Type*} {again : α → Bool} {outcomes : List α} :
    doWhile again outcomes = none ↔ ∀ o ∈ outcomes, again o = true := by
  induction outcomes with
  | nil => exact ⟨(fun _ _ ho => nomatch ho), fun _ => rfl⟩
  | cons o os ih =>
    rw [doWhile, List.forall_mem_cons]
    split
    next hagain => exact ih.trans (and_iff_right hagain).symm
    next hagain => exact ⟨nofun, fun h => absurd h.1 hagain⟩

/-- A datagram handed to `sendto`, with the port it goes to. -/
structure Datagram where
  port : UInt16
  bytes : List UInt8
  deriving DecidableEq, Repr

end GProxy
