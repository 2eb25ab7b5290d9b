import TreeMachine.Store.Text

/-!
The printed form of trees. An outline is what of a tree is printed: its shape, names and constants,
and no identities.
-/
set_option autoImplicit false

namespace TreeMachine

inductive Outline where
  | constant (text : String)
  | read (slot : String) (depth : Nat)
  | write (slot : String) (depth : Nat) (value : Outline)
  | ite (condition whenTrue whenFalse : Outline)
  | begin (items : List Outline)
  | lambda (name : String) (params : List String) (body : Outline)
  | apply (callee : Outline) (args : List Outline) (tail : Bool)

namespace Outline

def slotText (slot : String) (depth : Nat) : String :=
  if depth = 0 then slot else slot ++ "^" ++ toString depth

mutual

def text : Outline → String
  | constant text => text
  | read slot depth => slotText slot depth
  | write slot depth value => "(set! " ++ slotText slot depth ++ " " ++ value.text ++ ")"
  | ite c t e => "(if " ++ c.text ++ " " ++ t.text ++ " " ++ e.text ++ ")"
  | begin items => "(begin" ++ spacedTexts items ++ ")"
  | lambda name params body =>
    "(lambda " ++ (if name = "" then "" else name ++ " ") ++ "(" ++ " ".intercalate params ++ ") " ++
      body.text ++ ")"
  | apply callee args tail =>
    (if tail then "(tail " else "(") ++ callee.text ++ spacedTexts args ++ ")"

def spacedTexts : List Outline → String
  | [] => ""
  | o :: os => " " ++ o.text ++ spacedTexts os

end

end Outline

/-- The text of a constant; a callable with a name prints as its name. -/
def Store.constantText (s : Store) : Value → String
  | .closure c =>
    let name := (s.cell c.cell).name
    if name = "" then s.text (.closure c) else name
  | v => s.text v

namespace Expr

mutual

def outlineWith (s : Store) (lambda : CodeId → Outline) : Expr → Outline
  | .literal v => .constant (s.constantText v)
  | .read slot depth => .read slot.name depth
  | .write slot depth value => .write slot.name depth (value.outlineWith s lambda)
  | .ite c t e =>
    .ite (c.outlineWith s lambda) (t.outlineWith s lambda) (e.outlineWith s lambda)
  | .begin items => .begin (outlinesWith s lambda items)
  | .lambda code => lambda code
  | .apply callee args tail _ =>
    .apply (callee.outlineWith s lambda) (outlinesWith s lambda args) tail

def outlinesWith (s : Store) (lambda : CodeId → Outline) : List Expr → List Outline
  | [] => []
  | e :: es => e.outlineWith s lambda :: outlinesWith s lambda es

end

end Expr

namespace Library

/-- The outline of a lambda whose code is one of the first `bound` codes. A body is assembled
before the code it belongs to, so the lambdas within it stand earlier in the library. -/
def lambdaOutline (l : Library) (s : Store) : Nat → CodeId → Outline
  | 0, _ => .constant "..."
  | bound + 1, id =>
    let code := l.code id
    .lambda code.name (code.params.map SlotId.name)
      (code.body.outlineWith s (l.lambdaOutline s bound))

def outline (l : Library) (s : Store) (e : Expr) : Outline :=
  e.outlineWith s (l.lambdaOutline s l.codes.size)

def text (l : Library) (s : Store) (e : Expr) : String := (l.outline s e).text

end Library

end TreeMachine
