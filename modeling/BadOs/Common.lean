import BadOs.Data.Memory
import BadOs.Data.Run

/-!
# What the kernel's C code can do besides returning

A kernel function of the model either returns or ends in a `Trap`: the call of
`panic`, a processor fault, or an access that the C language leaves undefined.
A trap ends the run, so no state follows it.
-/

namespace BadOs

inductive Trap where
  /-- `panic(why)`, which never returns. -/
  | panic (why : String)
  /-- An integer division by zero. -/
  | divideError
  /-- An access outside the object it is meant for. -/
  | outOfBounds
  /-- An access through a pointer to a freed object. -/
  | useAfterFree
  /-- An access or a call through a null pointer. -/
  | nullPointer
  /-- A loop that the model gave up on. -/
  | diverged
  deriving DecidableEq, Repr

/-- The program stops by itself. -/
def Trap.IsPanic : Trap → Prop
  | .panic _ => True
  | _ => False

/-- `errno.h`. -/
inductive Errno where
  | ok
  | addrInUse
  | invalid
  | notFound
  deriving DecidableEq, Repr

/-- The `int` that a function returns. -/
def Errno.code : Errno → BitVec 32
  | .ok => 0
  | .addrInUse => -1
  | .invalid => -2
  | .notFound => -3

/-- `uint64_t`, `size_t` and pointer arithmetic. -/
def wrap64 (n : Nat) : Nat := n % 2 ^ 64

/-- `uint32_t` arithmetic. -/
def wrap32 (n : Nat) : Nat := n % 2 ^ 32

theorem wrap64_of_lt {n : Nat} (h : n < 2 ^ 64) : wrap64 n = n := Nat.mod_eq_of_lt h

theorem wrap32_of_lt {n : Nat} (h : n < 2 ^ 32) : wrap32 n = n := Nat.mod_eq_of_lt h

end BadOs
