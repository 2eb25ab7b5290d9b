import TreeMachine.Store

set_option autoImplicit false

namespace TreeMachine

structure World where
  library : Library := {}
  store : Store := {}
  deriving Inhabited

abbrev Build := StateM World

namespace Build

def alloc {α : Type} (f : Store → α × Store) : Build α := fun w =>
  let (a, store) := f w.store
  (a, { w with store })

def box (v : Value) : Build Value := return .box (← alloc (·.addBox v))

def host (h : HostObject) : Build Value := return .host (← alloc (·.addHost h))

def function (name : String) (target : Target) (env : Option FrameId) : Build Closure :=
  return ⟨← alloc (·.addCell { name, target }), env⟩

def primitive (op : Primitive) : Build Closure := function op.name (.primitive op) none

def placeholder (name : String) : Build Closure := function name .unbound none

def code (c : Code) : Build CodeId := fun w =>
  let (id, library) := w.library.add c
  (id, { w with library })

/-- A new closure of a code over a frame, with a cell named like the code. -/
def close (id : CodeId) (env : FrameId) : Build Closure := fun w =>
  function (w.library.code id).name (.lambda id) (some env) w

def lambda (name : String) (params : List SlotId) (body : Expr) (layout : Layout) : Build Expr :=
  return .lambda (← code { name, params, body, layout })

def call (callee : Expr) (args : List Expr) : Build Expr :=
  return .apply callee args false (← alloc Store.addSite)

def tailCall (callee : Expr) (args : List Expr) : Build Expr :=
  return .apply callee args true (← alloc Store.addSite)

end Build

end TreeMachine
