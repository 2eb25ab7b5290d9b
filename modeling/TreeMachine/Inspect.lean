import TreeMachine.Text.Quoted
import TreeMachine.Outline

set_option autoImplicit false

namespace TreeMachine

def inspectName (name : String) : String := "Name(" ++ Text.quoted name ++ ")"

def SlotId.inspect (s : SlotId) : String :=
  "SlotId \x7b index: " ++ toString s.index ++ ", name: " ++ inspectName s.name ++ " \x7d"

/-- The body of a code is left out. -/
def Code.inspect (c : Code) : String :=
  "LambdaCode \x7b name: " ++ inspectName c.name ++
    ", params: [" ++ ", ".intercalate (c.params.map SlotId.inspect) ++ "], .. \x7d"

def Primitive.inspect : Primitive → String
  | .add => "Add"
  | .sub => "Sub"
  | .mul => "Mul"
  | .lt => "Lt"
  | .eq => "Eq"
  | .makeBox => "MakeBox"
  | .unbox => "Unbox"
  | .setBox => "SetBox"
  | .println => "Println"

def Target.inspect (library : Library) : Target → String
  | .lambda code => "Lambda(" ++ (library.code code).inspect ++ ")"
  | .primitive op => "Primitive(" ++ op.inspect ++ ")"
  | .unbound => "Unbound"

def FunctionCell.inspect (library : Library) (c : FunctionCell) : String :=
  "Function \x7b name: " ++ inspectName c.name ++ ", target: " ++ c.target.inspect library ++
    ", generation: " ++ toString c.generation.toNat ++ " \x7d"

/-- The captured frame is not shown, only whether there is one. -/
def Closure.inspect (library : Library) (s : Store) (c : Closure) : String :=
  "Closure \x7b function: " ++ (s.cell c.cell).inspect library ++
    ", captures: " ++ (if c.env.isSome then "true" else "false") ++ " \x7d"

def CacheState.name : CacheState → String
  | uninitialized => "Uninitialized"
  | monomorphic => "Monomorphic"
  | polymorphic => "Polymorphic"
  | megamorphic => "Megamorphic"

def CallSite.inspect (s : CallSite) : String :=
  "CallSite \x7b state: " ++ s.state.name ++ ", entries: " ++ toString s.size ++ " \x7d"

def Frame.inspect (s : Store) (f : Frame) : String :=
  let item (slot : SlotId) : String :=
    slot.name ++ ": " ++
      match f.read slot with
      | .ok v => s.text v
      | .error _ => "<unwritten>"
  "\x7b" ++ ", ".intercalate (f.layout.slotIds.map item) ++ "\x7d"

end TreeMachine
