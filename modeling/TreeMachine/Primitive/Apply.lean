import TreeMachine.Mode
import TreeMachine.Store.Text

set_option autoImplicit false

namespace TreeMachine

/-- Both operands as integers; the left one is checked first. -/
def intPair (a b : Value) : Except Cause (Int64 × Int64) :=
  match a.asInt with
  | .error e => .error e
  | .ok m =>
    match b.asInt with
    | .error e => .error e
    | .ok n => .ok (m, n)

/-- Integer arithmetic on words. The result has overflowed when it is not the exact one. -/
def Overflow.arith (policy : Overflow) (operation : String) (word : Int64 → Int64 → Int64)
    (exact : Int → Int → Int) (a b : Value) : Except Cause Value :=
  match intPair a b with
  | .error e => .error e
  | .ok (m, n) =>
    match policy with
    | .wrapping => .ok (.int (word m n))
    | .trapping =>
      if (word m n).toInt = exact m.toInt n.toInt then .ok (.int (word m n))
      else .error (.arithmeticOverflow operation)

namespace Primitive

def apply (op : Primitive) (args : List Value) (policy : Overflow) (sink : SinkId) (s : Store) :
    Except Cause Value × Store :=
  match op, args with
  | add, [a, b] => (policy.arith "add" (· + ·) (· + ·) a b, s)
  | sub, [a, b] => (policy.arith "sub" (· - ·) (· - ·) a b, s)
  | mul, [a, b] => (policy.arith "mul" (· * ·) (· * ·) a b, s)
  | lt, [a, b] => ((intPair a b).map fun (m, n) => .bool (m < n), s)
  | eq, [a, b] => (.ok (.bool (a = b)), s)
  | makeBox, [v] =>
    let (b, s) := s.addBox v
    (.ok (.box b), s)
  | unbox, [v] =>
    match v.asBox with
    | .ok b => (.ok (s.box b), s)
    | .error e => (.error e, s)
  | setBox, [v, w] =>
    match v.asBox with
    | .ok b => (.ok .unit, s.setBox b w)
    | .error e => (.error e, s)
  | println, [v] => (.ok .unit, s.println sink (s.text v))
  | op, args => (.error (.arityMismatch op.name op.arity args.length), s)

end Primitive

end TreeMachine
