import TreeMachine.Proofs.Session

set_option autoImplicit false

namespace TreeMachine

namespace Expr

mutual

/-- The tree with every tail call made a plain call. -/
def clear : Expr → Expr
  | literal v => literal v
  | read slot depth => read slot depth
  | write slot depth value => write slot depth value.clear
  | ite c t e => ite c.clear t.clear e.clear
  | begin items => begin (clearAll items)
  | lambda code => lambda code
  | apply callee args _ site => apply callee.clear (clearAll args) false site

def clearAll : List Expr → List Expr
  | [] => []
  | e :: es => e.clear :: clearAll es

end

end Expr

def Code.clear (c : Code) : Code := { c with body := c.body.clear }

def Library.clear (l : Library) : Library := ⟨l.codes.map Code.clear⟩

theorem Library.code_clear (l : Library) (id : CodeId) : l.clear.code id = (l.code id).clear := by
  simp only [Library.code, Library.clear, Array.getD_eq_getD_getElem?, Array.getElem?_map]
  cases l.codes[id.index]? with
  | none => rfl
  | some c => rfl

theorem Target.arity?_clear (library : Library) (target : Target) :
    target.arity? library.clear = target.arity? library := by
  cases target with
  | lambda code =>
    simp only [Target.arity?, Library.code_clear]
    rfl
  | primitive op => rfl
  | unbound => rfl

def World.clear (w : World) : World := { w with library := w.library.clear }

def Task.clear : Task → Task
  | .invoke e => .invoke e.clear
  | .invokeWith e layout => .invokeWith e.clear layout
  | .call callee args => .call callee args

namespace Machine

def Setup.clear (m : Setup) : Setup := { m with library := m.library.clear }

def Pending.clear : Pending → Pending
  | .store slot depth frame => .store slot depth frame
  | .branch t e frame => .branch t.clear e.clear frame
  | .sequence rest frame => .sequence (Expr.clearAll rest) frame
  | .callee site _ args frame => .callee site false (Expr.clearAll args) frame
  | .operand site _ closure done rest frame =>
    .operand site false closure done (Expr.clearAll rest) frame
  | .loop => .loop
  | .leave => .leave

def Pending.isPlain : Pending → Bool
  | .loop | .leave => false
  | _ => true

end Machine

/-- The counts apart from that of the tail calls. -/
def Profile.untailed (p : Profile) : Profile := { p with tailCalls := 0 }

namespace CallStack

def names (s : CallStack) : List String := s.capture.names

@[simp] theorem names_add (s : CallStack) (name : String) :
    (s.add name).names = name :: s.names := by simp [names]

theorem names_pop (s : CallStack) : s.pop.names = s.names.tail := by
  simp [names, capture, pop]

theorem names_pop_of_cons {s : CallStack} {name : String} {rest : List String}
    (h : s.names = name :: rest) : s.pop.names = rest := by rw [names_pop, h, List.tail_cons]

theorem depth_eq_length_names (s : CallStack) : s.depth = s.names.length := by
  simp [depth, names, capture]

theorem isEmpty_eq_names (s : CallStack) : s.isEmpty = s.names.isEmpty := by
  simp [isEmpty, names, capture]

theorem trace_attach (s : CallStack) (e : Failure) :
    (s.attach e).trace =
      if e.trace.isSome = true ∨ s.names = [] then e.trace else some ⟨s.names⟩ := by
  unfold attach
  rw [isEmpty_eq_names]
  by_cases h : e.trace.isSome = true ∨ s.names = []
  · rw [if_pos h, if_pos (by simpa using h)]
  · rw [if_neg h, if_neg (by simpa using h)]
    rfl

theorem ext_names {s t : CallStack} (hnames : s.names = t.names) (hlimit : s.limit = t.limit) :
    s = t := by
  obtain ⟨active, limit⟩ := s
  obtain ⟨active', limit'⟩ := t
  have hactive : active = active' := by
    rw [← Array.toList_inj]
    simpa [names, capture] using hnames
  rw [hactive, show limit = limit' from hlimit]

end CallStack

end TreeMachine
