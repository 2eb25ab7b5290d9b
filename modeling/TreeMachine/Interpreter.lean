import TreeMachine.Machine.Run
import TreeMachine.World

set_option autoImplicit false

namespace TreeMachine

structure Interpreter where
  mode : Mode
  overflow : Overflow
  cacheSize : Nat
  stack : CallStack
  profile : Option Profile
  sink : SinkId

/-- What a host chooses about an interpreter; what it leaves open comes from the mode. -/
structure Settings where
  mode : Mode := .interpret
  overflow : Option Overflow := none
  cacheSize : Nat := 2
  profiling : Bool := false
  sink : Option SinkId := none
  deriving DecidableEq, Repr, Inhabited

namespace Settings

def withCacheSize (s : Settings) (n : Nat) : Settings := { s with cacheSize := max n 1 }

/-- The interpreter of the settings. Without a sink of its own it prints to a new console. -/
def build (s : Settings) : Build Interpreter := do
  let sink ← match s.sink with
    | some sink => pure sink
    | none => Build.alloc (·.addSink (.console ""))
  return {
    mode := s.mode
    overflow := s.overflow.getD s.mode.overflow
    cacheSize := s.cacheSize
    stack := { limit := s.mode.limit? }
    profile := if s.profiling then some {} else none
    sink }

end Settings

namespace Interpreter

open Machine

def setup (i : Interpreter) (library : Library) : Setup :=
  { library, overflow := i.overflow, cacheSize := i.cacheSize, sink := i.sink }

def start (i : Interpreter) (store : Store) (control : Control) (pending : List Pending) : State :=
  { control, pending, store, stack := i.stack, profile := i.profile }

structure Outcome where
  result : Except Failure Value
  interpreter : Interpreter
  world : World

def runFrom (fuel : Nat) (i : Interpreter) (library : Library) (s : State) : Option Outcome :=
  match run (i.setup library) fuel s with
  | none => none
  | some (result, s) =>
    some {
      result
      interpreter := { i with stack := s.stack, profile := s.profile }
      world := { library, store := s.store } }

def invokeWith (fuel : Nat) (i : Interpreter) (w : World) (e : Expr) (layout : Layout) :
    Option Outcome :=
  let (root, store) := w.store.addFrame (.activate layout none)
  i.runFrom fuel w.library (i.start store (.eval e root) [])

def invoke (fuel : Nat) (i : Interpreter) (w : World) (e : Expr) : Option Outcome :=
  i.invokeWith fuel w e {}

/-- Calls a value from the host, through a call site of its own. -/
def call (fuel : Nat) (i : Interpreter) (w : World) (callee : Value) (args : List Value) :
    Option Outcome :=
  match callee.asClosure with
  | .error cause => some { result := .error { cause }, interpreter := i, world := w }
  | .ok closure =>
    let (site, store) := w.store.addSite
    i.runFrom fuel w.library (i.start store (.dispatch ⟨site, closure, args⟩) [.loop])

end Interpreter

end TreeMachine
