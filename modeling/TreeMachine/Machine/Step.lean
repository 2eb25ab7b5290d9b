import TreeMachine.Machine.State
import TreeMachine.Primitive.Apply

/-!
One step of the machine. The branches of a conditional, the last item of a sequence and the body of
a lambda leave nothing pending, so a tail call there ends the activation first.
-/
set_option autoImplicit false

namespace TreeMachine.Machine

namespace State

def yield (s : State) (v : Value) : State := { s with control := .yield v }

/-- Fails; the active calls are added on the way out. -/
def fail (s : State) (cause : Cause) : State := { s with control := .raise { cause } }

/-- Fails with the calls that are active now. -/
def failHere (s : State) (cause : Cause) : State :=
  { s with control := .raise (s.stack.attach { cause }) }

def eval (s : State) (e : Expr) (frame : FrameId) : State := { s with control := .eval e frame }

def evalThen (s : State) (e : Expr) (frame : FrameId) (p : Pending) : State :=
  { s with control := .eval e frame, pending := p :: s.pending }

def enterLoop (s : State) (c : Call) : State :=
  { s with control := .dispatch c, pending := .loop :: s.pending }

def call (s : State) (tail : Bool) (c : Call) : State :=
  if tail then { s with control := .tailCall c } else s.enterLoop c

def operands (s : State) (site : SiteId) (tail : Bool) (closure : Closure) (done : List Value)
    (rest : List Expr) (frame : FrameId) : State :=
  match rest with
  | [] => s.call tail ⟨site, closure, done.reverse⟩
  | e :: rest => s.evalThen e frame (.operand site tail closure done rest frame)

def count (s : State) (f : Profile → Profile) : State := { s with profile := s.profile.map f }

end State

/-- The name under which an activation is listed: that of the cell, or of the code when the cell
has none. -/
def activationName (cell : FunctionCell) (code : Code) : String :=
  if cell.name = "" then code.name else cell.name

def evalStep (m : Setup) (s : State) (e : Expr) (frame : FrameId) : State :=
  match e with
  | .literal v => s.yield v
  | .read slot depth =>
    match s.store.read frame slot depth with
    | .ok v => s.yield v
    | .error fault => s.fail (.invalidSlot slot.name depth fault)
  | .write slot depth value => s.evalThen value frame (.store slot depth frame)
  | .ite c t e => s.evalThen c frame (.branch t e frame)
  | .begin [] => s.yield .unit
  | .begin [last] => s.eval last frame
  | .begin (first :: rest) => s.evalThen first frame (.sequence rest frame)
  | .lambda code =>
    let cell := { name := (m.library.code code).name, target := .lambda code }
    let (id, store) := s.store.addCell cell
    { s with control := .yield (.closure ⟨id, some frame⟩), store }
  | .apply callee args tail site => s.evalThen callee frame (.callee site tail args frame)

def yieldStep (s : State) (v : Value) : State :=
  match s.pending with
  | [] => s
  | .store slot depth frame :: rest =>
    match s.store.write frame slot depth v with
    | .ok store => { s with control := .yield .unit, pending := rest, store }
    | .error fault =>
      { s with control := .raise { cause := .invalidSlot slot.name depth fault }, pending := rest }
  | .branch t e frame :: rest =>
    match v.asBool with
    | .ok b => { s with control := .eval (if b then t else e) frame, pending := rest }
    | .error cause => { s with control := .raise { cause }, pending := rest }
  | .sequence items frame :: rest =>
    { s with control := .eval (.begin items) frame, pending := rest }
  | .callee site tail args frame :: rest =>
    match v.asClosure with
    | .ok closure => { s with pending := rest }.operands site tail closure [] args frame
    | .error cause => { s with control := .raise { cause }, pending := rest }
  | .operand site tail closure done args frame :: rest =>
    { s with pending := rest }.operands site tail closure (v :: done) args frame
  | .loop :: rest => { s with pending := rest }
  | .leave :: rest => { s with pending := rest, stack := s.stack.pop }

/-- Brings a tail call to the loop that makes it. Where a value is needed before any loop is
reached, the call is made there. -/
def tailCallStep (s : State) (c : Call) : State :=
  match s.pending with
  | .leave :: rest => { s with pending := rest, stack := s.stack.pop }
  | .loop :: _ => { s with control := .dispatch c }.count Profile.tailCall
  | _ => s.enterLoop c

def raiseStep (s : State) (e : Failure) : State :=
  match s.pending with
  | [] => s
  | .leave :: rest =>
    { s with control := .raise (s.stack.attach e), pending := rest, stack := s.stack.pop }
  | _ :: rest => { s with pending := rest }

def enter (s : State) (code : Code) (c : Call) : State :=
  match s.stack.push (activationName (s.store.cell c.closure.cell) code) with
  | .error cause => s.failHere cause
  | .ok stack =>
    let s := { s with pending := .leave :: s.pending, stack }
    match (Frame.activate code.layout c.closure.env).bind code.params c.args with
    | .error (slot, fault) => s.fail (.invalidSlot slot.name 0 fault)
    | .ok frame =>
      let (id, store) := s.store.addFrame frame
      { s with control := .eval code.body id, store }

def operate (m : Setup) (s : State) (op : Primitive) (args : List Value) : State :=
  let (result, store) := op.apply args m.overflow m.sink s.store
  let s := { s with store }
  match result with
  | .ok v => s.yield v
  | .error cause => s.failHere cause

def transfer (m : Setup) (s : State) (target : Target) (c : Call) : State :=
  let name := (s.store.cell c.closure.cell).name
  match target.arity? m.library with
  | none => s.fail (.unboundFunction name)
  | some arity =>
    if c.args.length ≠ arity then s.failHere (.arityMismatch name arity c.args.length)
    else
      match target with
      | .primitive op => operate m s op c.args
      | .lambda code => enter s (m.library.code code) c
      | .unbound => s.fail (.unboundFunction name)

/-- Makes a call: finds the entry point through the site's cache and goes there. -/
def dispatchStep (m : Setup) (s : State) (c : Call) : State :=
  let s := s.count Profile.call
  match (s.store.site c.site).lookup s.store.cell c.closure.cell m.cacheSize with
  | .error cause => s.fail cause
  | .ok (found, site) =>
    let s := { s with store := s.store.setSite c.site site }.count (·.found found)
    transfer m s found.target c

def step (m : Setup) (s : State) : State :=
  match s.control with
  | .eval e frame => evalStep m s e frame
  | .yield v => yieldStep s v
  | .tailCall c => tailCallStep s c
  | .dispatch c => dispatchStep m s c
  | .raise e => raiseStep s e

theorem step_of_result? {m : Setup} {s : State} {r : Except Failure Value}
    (h : s.result? = some r) : step m s = s := by
  obtain ⟨control, pending, store, stack, profile⟩ := s
  cases pending <;> cases control <;> simp [State.result?] at h <;> rfl

end TreeMachine.Machine
