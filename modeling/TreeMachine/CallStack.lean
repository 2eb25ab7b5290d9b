import TreeMachine.Failure

set_option autoImplicit false

namespace TreeMachine

/-- Active calls, oldest first, and how many there may be. -/
structure CallStack where
  active : Array String := #[]
  limit : Option Nat := none
  deriving DecidableEq, Repr, Inhabited

namespace CallStack

def depth (s : CallStack) : Nat := s.active.size

def isEmpty (s : CallStack) : Bool := s.active.isEmpty

/-- The limit, once no further call fits under it. -/
def full? (s : CallStack) : Option Nat := s.limit.filter fun limit => limit ≤ s.depth

def add (s : CallStack) (name : String) : CallStack := { s with active := s.active.push name }

def push (s : CallStack) (name : String) : Except Cause CallStack :=
  match s.full? with
  | some limit => .error (.stackOverflow limit)
  | none => .ok (s.add name)

def pop (s : CallStack) : CallStack := { s with active := s.active.pop }

def capture (s : CallStack) : Backtrace := ⟨s.active.toList.reverse⟩

/-- Adds the active calls to a failure that has no trace yet, if there are any. The innermost call
sees a failure first, so the first trace is the fullest. -/
def attach (s : CallStack) (e : Failure) : Failure :=
  if e.trace.isSome || s.isEmpty then e else { e with trace := some s.capture }

theorem push_of_full {s : CallStack} {limit : Nat} (h : s.full? = some limit) (name : String) :
    s.push name = .error (.stackOverflow limit) := by simp only [push, h]

theorem push_of_room {s : CallStack} (h : s.full? = none) (name : String) :
    s.push name = .ok (s.add name) := by simp only [push, h]

@[simp] theorem depth_add (s : CallStack) (name : String) : (s.add name).depth = s.depth + 1 := by
  simp [add, depth]

@[simp] theorem pop_add (s : CallStack) (name : String) : (s.add name).pop = s := by
  simp [add, pop]

@[simp] theorem capture_add (s : CallStack) (name : String) :
    (s.add name).capture = ⟨name :: s.capture.names⟩ := by simp [add, capture]

@[simp] theorem cause_attach (s : CallStack) (e : Failure) : (s.attach e).cause = e.cause := by
  unfold attach
  split <;> rfl

end CallStack

end TreeMachine
