import TreeMachine.Frame

/-!
Expression trees. A lambda names its code in the library and a call its site in the store, so trees
that share such a node share the code or the site.
-/
set_option autoImplicit false

namespace TreeMachine

structure CodeId where
  index : Nat
  deriving DecidableEq, Repr

structure SiteId where
  index : Nat
  deriving DecidableEq, Repr

inductive Expr where
  | literal (v : Value)
  | read (slot : SlotId) (depth : Nat)
  | write (slot : SlotId) (depth : Nat) (value : Expr)
  | ite (condition whenTrue whenFalse : Expr)
  | begin (items : List Expr)
  | lambda (code : CodeId)
  | apply (callee : Expr) (args : List Expr) (tail : Bool) (site : SiteId)

namespace Expr

instance : Inhabited Expr := ⟨begin []⟩

def site? : Expr → Option SiteId
  | apply _ _ _ site => some site
  | _ => none

end Expr

/-- What a lambda runs: its parameters are slots of its layout, filled from the arguments. -/
structure Code where
  name : String
  params : List SlotId
  body : Expr
  layout : Layout
  deriving Inhabited

def Code.arity (c : Code) : Nat := c.params.length

structure Library where
  codes : Array Code := #[]
  deriving Inhabited

namespace Library

/-- The code of an identifier; one that was never assembled has no parameters and gives unit. -/
def code (l : Library) (id : CodeId) : Code := l.codes.getD id.index default

def add (l : Library) (c : Code) : CodeId × Library := (⟨l.codes.size⟩, ⟨l.codes.push c⟩)

end Library

end TreeMachine
