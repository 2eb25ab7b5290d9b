import TreeMachine.Expr
import TreeMachine.Primitive

set_option autoImplicit false

namespace TreeMachine

/-- An entry point. Lambdas are the same entry point when their code is the same node. -/
inductive Target where
  | lambda (code : CodeId)
  | primitive (op : Primitive)
  | unbound
  deriving DecidableEq, Repr, Inhabited

namespace Target

def isBound : Target → Bool
  | unbound => false
  | _ => true

/-- Whether two targets are one entry point; `unbound` is none. -/
def sameEntry (a b : Target) : Bool := a.isBound && a == b

def arity? (library : Library) : Target → Option Nat
  | lambda code => some (library.code code).arity
  | primitive op => some op.arity
  | unbound => none

@[simp] theorem isBound_unbound : unbound.isBound = false := rfl

theorem sameEntry_iff {a b : Target} : a.sameEntry b = true ↔ a.isBound = true ∧ a = b := by
  simp [sameEntry]

theorem sameEntry_self {a : Target} : a.sameEntry a = a.isBound := by simp [sameEntry]

end Target

/-- A named entry point that can be replaced; the generation is the number of replacements, modulo
2^64. -/
structure FunctionCell where
  name : String
  target : Target
  generation : UInt64 := 0
  deriving DecidableEq, Repr, Inhabited

namespace FunctionCell

def bind (c : FunctionCell) (target : Target) : FunctionCell :=
  { c with target, generation := c.generation + 1 }

end FunctionCell

end TreeMachine
