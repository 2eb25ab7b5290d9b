set_option autoImplicit false

namespace TreeMachine

inductive SlotFault where
  | unwritten
  | outOfRange
  | noEnclosingFrame
  deriving DecidableEq, Repr

def SlotFault.message : SlotFault → String
  | .unwritten => "read before write"
  | .outOfRange => "slot out of range"
  | .noEnclosingFrame => "no enclosing frame"

inductive Cause where
  | typeMismatch (expected got : String)
  | arityMismatch (callee : String) (expected got : Nat)
  | invalidSlot (slot : String) (depth : Nat) (fault : SlotFault)
  | arithmeticOverflow (operation : String)
  | unboundFunction (name : String)
  | stackOverflow (limit : Nat)
  deriving DecidableEq, Repr

def calleeText (name : String) : String := if name = "" then "<anonymous>" else name

namespace Cause

def message : Cause → String
  | typeMismatch expected got => s!"type mismatch: expected {expected}, got {got}"
  | arityMismatch callee expected got =>
    let noun := if expected = 1 then "argument" else "arguments"
    s!"{calleeText callee} expects {expected} {noun}, got {got}"
  | invalidSlot slot depth fault =>
    s!"invalid slot access: `{slot}` at depth {depth}: {fault.message}"
  | arithmeticOverflow operation => s!"integer overflow in {operation}"
  | unboundFunction name => s!"call to unbound function {calleeText name}"
  | stackOverflow limit => s!"maximum recursion depth exceeded (limit: {limit})"

/-- A slot fault shows that a tree was assembled against the wrong layout; the other causes are
faults of the program that the tree stands for. -/
def isDefect : Cause → Bool
  | invalidSlot .. => true
  | _ => false

end Cause

structure Backtrace where
  names : List String
  deriving DecidableEq, Repr

def Backtrace.text (b : Backtrace) : String :=
  if b.names.isEmpty then ""
  else "stack backtrace:\n" ++
    String.join (b.names.mapIdx fun i name => s!"  {i}: {calleeText name}\n")

/-- A cause, with the calls that were active if any were. -/
structure Failure where
  cause : Cause
  trace : Option Backtrace := none
  deriving DecidableEq, Repr

end TreeMachine
