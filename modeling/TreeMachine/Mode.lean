set_option autoImplicit false

namespace TreeMachine

/-- What `add`, `sub` and `mul` do when the result needs more than 64 bits. -/
inductive Overflow where
  | wrapping
  | trapping
  deriving DecidableEq, Repr, Inhabited

inductive Mode where
  | interpret
  | bounded (limit : Nat)
  | checked
  deriving DecidableEq, Repr, Inhabited

namespace Mode

/-- The limit on nested calls, if there is one. The stack of the host is taken to grow on demand;
on a host where it does not, `interpret` has the limit of `bounded 200`. -/
def limit? : Mode → Option Nat
  | interpret => none
  | bounded limit => some limit
  | checked => some 10000

def overflow : Mode → Overflow
  | interpret | bounded _ => .wrapping
  | checked => .trapping

end Mode

end TreeMachine
