set_option autoImplicit false

namespace TreeMachine

structure SinkId where
  index : Nat
  deriving DecidableEq, Repr

inductive Sink where
  /-- Lines for the console of the host; they cannot be read back from here. -/
  | console (lines : String)
  | buffer (text : String)
  | silent
  deriving DecidableEq, Repr

namespace Sink

instance : Inhabited Sink := ⟨silent⟩

def println : Sink → String → Sink
  | console lines, line => console (lines ++ line ++ "\n")
  | buffer text, line => buffer (text ++ line ++ "\n")
  | silent, _ => silent

def captured : Sink → String
  | buffer text => text
  | console _ | silent => ""

def clear : Sink → Sink
  | buffer _ => buffer ""
  | s => s

end Sink

end TreeMachine
