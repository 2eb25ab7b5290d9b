import TreeMachine.Failure

/-!
Values. Closures, boxes and host objects are named by where they stand in the store, so equality of
values is equality of scalars and identity of the rest.
-/
set_option autoImplicit false

namespace TreeMachine

structure FrameId where
  index : Nat
  deriving DecidableEq, Repr

structure BoxId where
  index : Nat
  deriving DecidableEq, Repr

structure CellId where
  index : Nat
  deriving DecidableEq, Repr

structure HostId where
  index : Nat
  deriving DecidableEq, Repr

/-- A callable: a function cell and the frame it captured, if any. -/
structure Closure where
  cell : CellId
  env : Option FrameId
  deriving DecidableEq, Repr

inductive Value where
  | int (n : Int64)
  | bool (b : Bool)
  | unit
  | symbol (name : String)
  | closure (c : Closure)
  | box (b : BoxId)
  | host (h : HostId)
  deriving DecidableEq

instance : Inhabited Value := ⟨.unit⟩

namespace Value

def typeName : Value → String
  | int _ => "int"
  | bool _ => "bool"
  | unit => "unit"
  | symbol _ => "symbol"
  | closure _ => "closure"
  | box _ => "box"
  | host _ => "host"

def isUnit : Value → Bool
  | unit => true
  | _ => false

def asInt : Value → Except Cause Int64
  | int n => .ok n
  | v => .error (.typeMismatch "int" v.typeName)

def asBool : Value → Except Cause Bool
  | bool b => .ok b
  | v => .error (.typeMismatch "bool" v.typeName)

def asClosure : Value → Except Cause Closure
  | closure c => .ok c
  | v => .error (.typeMismatch "closure" v.typeName)

def asBox : Value → Except Cause BoxId
  | box b => .ok b
  | v => .error (.typeMismatch "box" v.typeName)

end Value

inductive HostData where
  | nothing
  | flag (b : Bool)
  | number (n : Int)
  | text (s : String)
  | words (ns : List Nat)
  deriving DecidableEq, Repr, Inhabited

/-- An object of the host, opaque to programs, under the name that the host gives its type. -/
structure HostObject where
  typeName : String
  data : HostData
  deriving DecidableEq, Repr, Inhabited

def HostObject.get? (h : HostObject) (typeName : String) : Option HostData :=
  if h.typeName = typeName then some h.data else none

end TreeMachine
