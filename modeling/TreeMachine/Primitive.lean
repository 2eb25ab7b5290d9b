set_option autoImplicit false

namespace TreeMachine

inductive Primitive where
  | add
  | sub
  | mul
  | lt
  | eq
  | makeBox
  | unbox
  | setBox
  | println
  deriving DecidableEq, Repr

namespace Primitive

def all : List Primitive := [add, sub, mul, lt, eq, makeBox, unbox, setBox, println]

def name : Primitive → String
  | add => "add"
  | sub => "sub"
  | mul => "mul"
  | lt => "lt"
  | eq => "eq"
  | makeBox => "box"
  | unbox => "unbox"
  | setBox => "set-box!"
  | println => "println"

def ofName? (name : String) : Option Primitive := all.find? fun op => op.name = name

def arity : Primitive → Nat
  | makeBox | unbox | println => 1
  | add | sub | mul | lt | eq | setBox => 2

end Primitive

end TreeMachine
