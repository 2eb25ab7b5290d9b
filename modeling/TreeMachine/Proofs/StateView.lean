import TreeMachine.Proofs.FailureOrigin

/-!
Views of a state. A view changes parts of a state that most steps only pass on, and says what each
part must respect for the steps of the machine to commute with it.
-/
set_option autoImplicit false

namespace TreeMachine.Machine

/-- What is changed of a state, and what the change must respect. -/
structure View where
  store : Store → Store
  stack : CallStack → CallStack
  profile : Option Profile → Option Profile
  base : List Pending
  read : ∀ s frame slot depth, (store s).read frame slot depth = s.read frame slot depth
  write : ∀ s frame slot depth v,
    (store s).write frame slot depth v = (s.write frame slot depth v).map store
  cell : ∀ s id, (store s).cell id = s.cell id
  addCell : ∀ s c, (store s).addCell c = ((s.addCell c).1, store (s.addCell c).2)
  addFrame : ∀ s f, (store s).addFrame f = ((s.addFrame f).1, store (s.addFrame f).2)
  apply : ∀ (op : Primitive) args policy sink s,
    op.apply args policy sink (store s) =
      ((op.apply args policy sink s).1, store (op.apply args policy sink s).2)
  add : ∀ s name, (stack s).add name = stack (s.add name)
  pop : ∀ s, (stack s).pop = stack s.pop
  attach : ∀ s e, (stack s).attach e = s.attach e
  count : ∀ p f, (profile p).map f = profile (p.map f)

def View.keep : View where
  store := id
  stack := id
  profile := id
  base := []
  read _ _ _ _ := rfl
  write s frame slot depth v := by
    simp only [id]
    cases s.write frame slot depth v with
    | ok store => rfl
    | error fault => rfl
  cell _ _ := rfl
  addCell _ _ := rfl
  addFrame _ _ := rfl
  apply _ _ _ _ _ := rfl
  add _ _ := rfl
  pop _ := rfl
  attach _ _ := rfl
  count _ _ := rfl

namespace View

variable (V : View)

def state (s : State) : State :=
  { control := s.control
    pending := s.pending ++ V.base
    store := V.store s.store
    stack := V.stack s.stack
    profile := V.profile s.profile }

/-- The steps that look at the pending work see the same topmost item. -/
def Sees (s : State) : Prop := s.pending ≠ [] ∨ V.base = []

theorem state_count (s : State) (f : Profile → Profile) :
    V.state (s.count f) = (V.state s).count f := by
  simp [state, State.count, V.count]

theorem state_evalStep (m : Setup) (s : State) (e : Expr) (frame : FrameId) :
    V.state (evalStep m s e frame) = evalStep m (V.state s) e frame := by
  cases e with
  | literal v => rfl
  | read slot depth =>
    simp only [evalStep, state, V.read]
    cases s.store.read frame slot depth with
    | ok v => rfl
    | error fault => rfl
  | write slot depth value => rfl
  | ite c t e => rfl
  | begin items =>
    cases items with
    | nil => rfl
    | cons first rest =>
      cases rest with
      | nil => rfl
      | cons second rest => rfl
  | lambda code =>
    simp only [evalStep, state, V.addCell]
  | apply callee args tail site => rfl

theorem state_operands (s : State) (site : SiteId) (tail : Bool) (closure : Closure)
    (done : List Value) (rest : List Expr) (frame : FrameId) :
    V.state (s.operands site tail closure done rest frame) =
      (V.state s).operands site tail closure done rest frame := by
  cases rest with
  | nil =>
    cases tail with
    | true => rfl
    | false => rfl
  | cons e es => rfl

theorem state_yieldStep {s : State} (v : Value) (h : V.Sees s) :
    V.state (yieldStep s v) = yieldStep (V.state s) v := by
  obtain ⟨control, pending, store, stack, profile⟩ := s
  cases pending with
  | nil =>
    rcases h with hne | hbase
    · exact absurd rfl hne
    · simp [yieldStep, state, hbase]
  | cons p rest =>
    cases p with
    | store slot depth frame =>
      simp only [yieldStep, state, List.cons_append, V.write]
      cases store.write frame slot depth v with
      | ok store => rfl
      | error fault => rfl
    | branch t e frame =>
      simp only [yieldStep, state, List.cons_append]
      cases v.asBool with
      | ok b => rfl
      | error cause => rfl
    | sequence items frame => rfl
    | callee site tail args frame =>
      simp only [yieldStep]
      cases v.asClosure with
      | ok closure => exact V.state_operands _ site tail closure [] args frame
      | error cause => rfl
    | operand site tail closure done args frame =>
      exact V.state_operands _ site tail closure (v :: done) args frame
    | loop => rfl
    | leave => simp only [yieldStep, state, List.cons_append, V.pop]

theorem state_tailCallStep {s : State} (c : Call) (h : V.Sees s) :
    V.state (tailCallStep s c) = tailCallStep (V.state s) c := by
  obtain ⟨control, pending, store, stack, profile⟩ := s
  cases pending with
  | nil =>
    rcases h with hne | hbase
    · exact absurd rfl hne
    · simp [tailCallStep, state, State.enterLoop, hbase]
  | cons p rest =>
    cases p with
    | leave => simp only [tailCallStep, state, List.cons_append, V.pop]
    | loop => exact V.state_count _ _
    | _ => rfl

theorem state_raiseStep {s : State} (e : Failure) (h : V.Sees s) :
    V.state (raiseStep s e) = raiseStep (V.state s) e := by
  obtain ⟨control, pending, store, stack, profile⟩ := s
  cases pending with
  | nil =>
    rcases h with hne | hbase
    · exact absurd rfl hne
    · simp [raiseStep, state, hbase]
  | cons p rest =>
    cases p with
    | leave => simp only [raiseStep, state, List.cons_append, V.pop, V.attach]
    | _ => rfl

theorem state_enter {s : State} (code : Code) (c : Call)
    (h : (V.stack s.stack).full? = s.stack.full?) :
    V.state (enter s code c) = enter (V.state s) code c := by
  simp only [enter, CallStack.push, state, h, V.cell, V.add]
  cases s.stack.full? with
  | some limit => simp only [State.failHere, V.attach]
  | none =>
    dsimp only
    cases (Frame.activate code.layout c.closure.env).bind code.params c.args with
    | error failed => rfl
    | ok frame => simp only [V.addFrame, List.cons_append]

theorem state_operate (m : Setup) (s : State) (op : Primitive) (args : List Value) :
    V.state (operate m s op args) = operate m (V.state s) op args := by
  simp only [operate, state, V.apply]
  cases (op.apply args m.overflow m.sink s.store).1 with
  | ok v => rfl
  | error cause => simp only [State.failHere, V.attach]

theorem transfer_cases (m : Setup) (target : Target) (c : Call) :
    (∃ code, ∀ s, transfer m s target c = enter s code c) ∨
      ∀ (V : View) s, V.state (transfer m s target c) = transfer m (V.state s) target c := by
  simp only [transfer]
  cases target.arity? m.library with
  | none =>
    refine .inr fun V s => ?_
    simp only [State.fail, state, V.cell]
  | some arity =>
    dsimp only
    by_cases hlen : c.args.length ≠ arity
    · refine .inr fun V s => ?_
      rw [if_pos hlen, if_pos hlen]
      simp only [State.failHere, state, V.cell, V.attach]
    · cases target with
      | primitive op =>
        refine .inr fun V s => ?_
        rw [if_neg hlen, if_neg hlen]
        exact V.state_operate m s op c.args
      | lambda code =>
        refine .inl ⟨m.library.code code, fun s => ?_⟩
        rw [if_neg hlen]
      | unbound =>
        refine .inr fun V s => ?_
        rw [if_neg hlen, if_neg hlen]
        simp only [State.fail, state, V.cell]

theorem state_transfer (m : Setup) {s : State} (target : Target) (c : Call)
    (h : (V.stack s.stack).full? = s.stack.full?) :
    V.state (transfer m s target c) = transfer m (V.state s) target c := by
  rcases transfer_cases m target c with ⟨code, henter⟩ | hview
  · rw [henter, henter]
    exact V.state_enter code c h
  · exact hview V s

theorem state_located {s : State} (c : Call) (found : Lookup) (site : CallSite)
    (hstore : ∀ s, V.store s = s) :
    V.state (s.located c found site) = (V.state s).located c found site := by
  simp only [State.located, state_count]
  simp only [state, hstore]

theorem state_dispatchStep (m : Setup) {s : State} (c : Call) (hstore : ∀ s, V.store s = s)
    (h : (V.stack s.stack).full? = s.stack.full?) :
    V.state (dispatchStep m s c) = dispatchStep m (V.state s) c := by
  have hs : (V.state s).store = s.store := hstore s.store
  rcases dispatchStep_cases m c s.store with ⟨-, hfail⟩ | ⟨-, found, site, hfound⟩
  · rw [hfail s rfl, hfail (V.state s) hs, ← V.state_count]
    rfl
  · rw [hfound s rfl, hfound (V.state s) hs, ← V.state_located c found site hstore]
    exact V.state_transfer m _ c h

theorem state_step_of_ne_dispatch (m : Setup) {s : State} (hsees : V.Sees s)
    (h : ∀ c, s.control ≠ .dispatch c) : V.state (step m s) = step m (V.state s) := by
  have hcontrol : (V.state s).control = s.control := rfl
  unfold step
  rw [hcontrol]
  cases hc : s.control with
  | eval e frame => exact V.state_evalStep m s e frame
  | yield v => exact V.state_yieldStep v hsees
  | tailCall c => exact V.state_tailCallStep c hsees
  | dispatch c => exact absurd hc (h c)
  | raise e => exact V.state_raiseStep e hsees

/-- Through a view that keeps the store, the machine makes the same step. -/
theorem state_step (m : Setup) {s : State} (hstore : ∀ s, V.store s = s) (hsees : V.Sees s)
    (h : (V.stack s.stack).full? = s.stack.full?) :
    V.state (step m s) = step m (V.state s) := by
  by_cases hd : ∃ c, s.control = .dispatch c
  · obtain ⟨c, hc⟩ := hd
    have hc' : (V.state s).control = .dispatch c := hc
    simp only [step, hc, hc']
    exact V.state_dispatchStep m c hstore h
  · exact V.state_step_of_ne_dispatch m hsees fun c hc => hd ⟨c, hc⟩

end View

end TreeMachine.Machine
