import TreeMachine.CallStack
import TreeMachine.Mode
import TreeMachine.Profile
import TreeMachine.Store

/-!
States of the machine that evaluates trees. Two kinds of pending work only mark a place: a tail call
is taken up again at `loop`, and an activation ends at `leave`.
-/
set_option autoImplicit false

namespace TreeMachine.Machine

structure Call where
  site : SiteId
  closure : Closure
  args : List Value
  deriving DecidableEq

inductive Control where
  | eval (e : Expr) (frame : FrameId)
  | yield (v : Value)
  /-- A call to be made once the current activation has ended. -/
  | tailCall (c : Call)
  | dispatch (c : Call)
  | raise (e : Failure)

inductive Pending where
  | store (slot : SlotId) (depth : Nat) (frame : FrameId)
  | branch (whenTrue whenFalse : Expr) (frame : FrameId)
  | sequence (rest : List Expr) (frame : FrameId)
  | callee (site : SiteId) (tail : Bool) (args : List Expr) (frame : FrameId)
  | operand (site : SiteId) (tail : Bool) (closure : Closure) (done : List Value)
      (rest : List Expr) (frame : FrameId)
  /-- A call was made here, and the tail calls that it ends in are made here too. -/
  | loop
  | leave

structure Setup where
  library : Library
  overflow : Overflow
  cacheSize : Nat
  sink : SinkId

structure State where
  control : Control
  pending : List Pending
  store : Store
  stack : CallStack
  profile : Option Profile

namespace State

/-- The outcome of the run, once nothing is pending. -/
def result? (s : State) : Option (Except Failure Value) :=
  match s.pending, s.control with
  | [], .yield v => some (.ok v)
  | [], .raise e => some (.error e)
  | _, _ => none

end State

end TreeMachine.Machine
