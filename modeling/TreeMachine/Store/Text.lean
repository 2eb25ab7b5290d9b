import TreeMachine.Store

/-!
The text of values. A box shows what it holds, but a box within a box shows only that it is one,
since boxes may hold themselves.
-/
set_option autoImplicit false

namespace TreeMachine.Store

def closedText (s : Store) : Value → String
  | .int n => toString n.toInt
  | .bool true => "#t"
  | .bool false => "#f"
  | .unit => "#<unit>"
  | .symbol name => "'" ++ name
  | .closure c =>
    let name := (s.cell c.cell).name
    if name = "" then "#<closure>" else "#<closure " ++ name ++ ">"
  | .box _ => "#<box>"
  | .host h => "#<host " ++ (s.host h).typeName ++ ">"

def text (s : Store) : Value → String
  | .box b => "#<box " ++ s.closedText (s.box b) ++ ">"
  | v => s.closedText v

end TreeMachine.Store
