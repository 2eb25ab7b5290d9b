import TreeMachine.Machine.Run

set_option autoImplicit false

namespace TreeMachine

theorem Target.eq_unbound_of_isBound {t : Target} (h : t.isBound = false) : t = .unbound := by
  cases t with
  | unbound => rfl
  | _ => simp [Target.isBound] at h

theorem CallSite.target_of_lookup {site site' : CallSite} {cells : CellId → FunctionCell}
    {callee : CellId} {limit : Nat} {found : Lookup}
    (h : site.lookup cells callee limit = .ok (found, site')) :
    found.target = (cells callee).target := by
  unfold lookup at h
  split at h
  · rw [← site.target_resolve cells callee limit, Except.ok.inj h]
  · cases h

namespace Machine

def State.located (s : State) (c : Call) (found : Lookup) (site : CallSite) : State :=
  ({ s with store := s.store.setSite c.site site }.count Profile.call).count (·.found found)

/-- A dispatch goes to the current entry point of the callee, or fails when there is none. What
the call site holds decides only about the counts and about what it holds afterwards. -/
theorem dispatchStep_cases (m : Setup) (c : Call) (store : Store) :
    ((store.cell c.closure.cell).target = .unbound ∧ ∀ s : State, s.store = store →
      dispatchStep m s c =
        (s.count Profile.call).fail (.unboundFunction (store.cell c.closure.cell).name)) ∨
    ((store.cell c.closure.cell).target.isBound = true ∧
      ∃ found site, ∀ s : State, s.store = store → dispatchStep m s c =
        transfer m (s.located c found site) (store.cell c.closure.cell).target c) := by
  by_cases hbound : (store.cell c.closure.cell).target.isBound = true
  · have htarget := (store.site c.site).target_resolve store.cell c.closure.cell m.cacheSize
    cases hout : (store.site c.site).resolve store.cell c.closure.cell m.cacheSize with
    | mk found site =>
      rw [hout] at htarget
      refine .inr ⟨hbound, found, site, fun s hs => ?_⟩
      rw [← htarget]
      simp only [dispatchStep, State.located, State.count, CallSite.lookup, hs, hbound, if_true,
        hout]
  · refine .inl ⟨Target.eq_unbound_of_isBound (Bool.eq_false_iff.2 hbound), fun s hs => ?_⟩
    simp only [dispatchStep, State.count, CallSite.lookup, hs, hbound]
    rfl

/-- The next step fails of this cause. -/
inductive Raises (m : Setup) (s : State) : Cause → Prop where
  | read {slot : SlotId} {depth : Nat} {frame : FrameId} {fault : SlotFault}
      (control : s.control = .eval (.read slot depth) frame)
      (fails : s.store.read frame slot depth = .error fault) :
      Raises m s (.invalidSlot slot.name depth fault)
  | store {v : Value} {slot : SlotId} {depth : Nat} {frame : FrameId} {rest : List Pending}
      {fault : SlotFault} (control : s.control = .yield v)
      (pending : s.pending = .store slot depth frame :: rest)
      (fails : s.store.write frame slot depth v = .error fault) :
      Raises m s (.invalidSlot slot.name depth fault)
  | branch {v : Value} {t e : Expr} {frame : FrameId} {rest : List Pending} {cause : Cause}
      (control : s.control = .yield v) (pending : s.pending = .branch t e frame :: rest)
      (fails : v.asBool = .error cause) : Raises m s cause
  | callee {v : Value} {site : SiteId} {tail : Bool} {args : List Expr} {frame : FrameId}
      {rest : List Pending} {cause : Cause} (control : s.control = .yield v)
      (pending : s.pending = .callee site tail args frame :: rest)
      (fails : v.asClosure = .error cause) : Raises m s cause
  | unbound {c : Call} (control : s.control = .dispatch c)
      (target : (s.store.cell c.closure.cell).target = .unbound) :
      Raises m s (.unboundFunction (s.store.cell c.closure.cell).name)
  | arity {c : Call} {arity : Nat} (control : s.control = .dispatch c)
      (target : (s.store.cell c.closure.cell).target.arity? m.library = some arity)
      (differs : c.args.length ≠ arity) :
      Raises m s (.arityMismatch (s.store.cell c.closure.cell).name arity c.args.length)
  | primitive {c : Call} {op : Primitive} {store : Store} {cause : Cause}
      (control : s.control = .dispatch c)
      (target : (s.store.cell c.closure.cell).target = .primitive op)
      (length : c.args.length = op.arity)
      (fails : (op.apply c.args m.overflow m.sink store).1 = .error cause) : Raises m s cause
  | param {c : Call} {code : CodeId} {slot : SlotId} {fault : SlotFault}
      (control : s.control = .dispatch c)
      (target : (s.store.cell c.closure.cell).target = .lambda code)
      (fails : (Frame.activate (m.library.code code).layout c.closure.env).bind
        (m.library.code code).params c.args = .error (slot, fault)) :
      Raises m s (.invalidSlot slot.name 0 fault)
  | overflow {c : Call} {limit : Nat} (control : s.control = .dispatch c)
      (full : s.stack.full? = some limit) : Raises m s (.stackOverflow limit)

theorem raises_of_evalStep {m : Setup} {s : State} {e : Expr} {frame : FrameId} {f : Failure}
    (hc : s.control = .eval e frame) (h : (evalStep m s e frame).control = .raise f) :
    Raises m s f.cause := by
  cases e with
  | read slot depth =>
    simp only [evalStep] at h
    cases hr : s.store.read frame slot depth with
    | ok v => simp [hr, State.yield] at h
    | error fault =>
      simp only [hr, State.fail, Control.raise.injEq] at h
      subst h
      exact .read hc hr
  | begin items =>
    cases items with
    | nil => simp [evalStep, State.yield] at h
    | cons first rest =>
      cases rest with
      | nil => simp [evalStep, State.eval] at h
      | cons second rest => simp [evalStep, State.evalThen] at h
  | _ => simp [evalStep, State.yield, State.evalThen] at h

theorem operands_control_ne_raise (s : State) (site : SiteId) (tail : Bool) (closure : Closure)
    (done : List Value) (args : List Expr) (frame : FrameId) (f : Failure) :
    (s.operands site tail closure done args frame).control ≠ .raise f := by
  cases args with
  | nil => cases tail <;> simp [State.operands, State.call, State.enterLoop]
  | cons e es => simp [State.operands, State.evalThen]

theorem raises_of_yieldStep {m : Setup} {s : State} {v : Value} {f : Failure}
    (hc : s.control = .yield v) (h : (yieldStep s v).control = .raise f) :
    Raises m s f.cause := by
  cases hp : s.pending with
  | nil => simp [yieldStep, hp, hc] at h
  | cons p rest =>
    cases p with
    | store slot depth frame =>
      cases hw : s.store.write frame slot depth v with
      | ok store => simp [yieldStep, hp, hw] at h
      | error fault =>
        simp only [yieldStep, hp, hw, Control.raise.injEq] at h
        subst h
        exact .store hc hp hw
    | branch t e frame =>
      cases hb : v.asBool with
      | ok b => simp [yieldStep, hp, hb] at h
      | error cause =>
        simp only [yieldStep, hp, hb, Control.raise.injEq] at h
        subst h
        exact .branch hc hp hb
    | sequence items frame => simp [yieldStep, hp] at h
    | callee site tail args frame =>
      cases hb : v.asClosure with
      | ok closure =>
        simp only [yieldStep, hp, hb] at h
        exact absurd h (operands_control_ne_raise _ _ _ _ _ _ _ _)
      | error cause =>
        simp only [yieldStep, hp, hb, Control.raise.injEq] at h
        subst h
        exact .callee hc hp hb
    | operand site tail closure done args frame =>
      simp only [yieldStep, hp] at h
      exact absurd h (operands_control_ne_raise _ _ _ _ _ _ _ _)
    | loop => simp [yieldStep, hp, hc] at h
    | leave => simp [yieldStep, hp, hc] at h

theorem tailCallStep_control_ne_raise {s : State} {c : Call} (hc : s.control = .tailCall c)
    (f : Failure) : (tailCallStep s c).control ≠ .raise f := by
  cases hp : s.pending with
  | nil => simp [tailCallStep, hp, State.enterLoop]
  | cons p rest => cases p <;> simp [tailCallStep, hp, hc, State.enterLoop, State.count]

theorem cause_of_raiseStep {s : State} {e f : Failure} (hc : s.control = .raise e)
    (h : (raiseStep s e).control = .raise f) : f.cause = e.cause := by
  cases hp : s.pending with
  | nil =>
    simp only [raiseStep, hp, hc, Control.raise.injEq] at h
    rw [h]
  | cons p rest =>
    cases p with
    | leave =>
      simp only [raiseStep, hp, Control.raise.injEq] at h
      rw [← h, CallStack.cause_attach]
    | _ =>
      simp only [raiseStep, hp, hc, Control.raise.injEq] at h
      rw [h]

theorem raises_of_dispatchStep {m : Setup} {s : State} {c : Call} {f : Failure}
    (hc : s.control = .dispatch c) (h : (dispatchStep m s c).control = .raise f) :
    Raises m s f.cause := by
  rcases dispatchStep_cases m c s.store with ⟨hunbound, hfail⟩ | ⟨hbound, found, site, hfound⟩
  · rw [hfail s rfl] at h
    simp only [State.fail, Control.raise.injEq] at h
    subst h
    exact .unbound hc hunbound
  · rw [hfound s rfl] at h
    have hstack : (s.located c found site).stack = s.stack := rfl
    have hcell : (s.located c found site).store.cell = s.store.cell := rfl
    revert h
    generalize s.located c found site = u at *
    intro h
    simp only [transfer] at h
    cases ha : (s.store.cell c.closure.cell).target.arity? m.library with
    | none =>
      cases ht : (s.store.cell c.closure.cell).target with
      | unbound => rw [ht] at hbound; simp at hbound
      | _ => rw [ht] at ha; simp [Target.arity?] at ha
    | some arity =>
      simp only [ha] at h
      by_cases hlen : c.args.length ≠ arity
      · rw [if_pos hlen] at h
        simp only [State.failHere, Control.raise.injEq] at h
        rw [← h, CallStack.cause_attach, hcell]
        exact .arity hc ha hlen
      · rw [if_neg hlen] at h
        cases ht : (s.store.cell c.closure.cell).target with
        | unbound => rw [ht] at hbound; simp at hbound
        | primitive op =>
          simp only [ht, operate] at h
          cases hop : (op.apply c.args m.overflow m.sink u.store).1 with
          | ok v => simp [hop, State.yield] at h
          | error cause =>
            simp only [hop, State.failHere, Control.raise.injEq] at h
            rw [← h, CallStack.cause_attach]
            rw [ht, Target.arity?, Option.some.injEq] at ha
            exact .primitive hc ht (by omega) hop
        | lambda code =>
          simp only [ht, enter, hstack] at h
          cases hfull : s.stack.full? with
          | some limit =>
            simp only [CallStack.push_of_full hfull, State.failHere, Control.raise.injEq] at h
            rw [← h, CallStack.cause_attach]
            exact .overflow hc hfull
          | none =>
            simp only [CallStack.push_of_room hfull] at h
            cases hb : (Frame.activate (m.library.code code).layout c.closure.env).bind
                (m.library.code code).params c.args with
            | ok frame => simp [hb] at h
            | error failed =>
              obtain ⟨slot, fault⟩ := failed
              simp only [hb, State.fail, Control.raise.injEq] at h
              subst h
              exact .param hc ht hb

theorem raises_of_step {m : Setup} {s : State} {f : Failure}
    (h : (step m s).control = .raise f) :
    (∃ e, s.control = .raise e ∧ f.cause = e.cause) ∨ Raises m s f.cause := by
  unfold step at h
  cases hc : s.control with
  | eval e frame => exact .inr (raises_of_evalStep hc (by simpa only [hc] using h))
  | yield v => exact .inr (raises_of_yieldStep hc (by simpa only [hc] using h))
  | tailCall c =>
    simp only [hc] at h
    exact absurd h (tailCallStep_control_ne_raise hc f)
  | dispatch c => exact .inr (raises_of_dispatchStep hc (by simpa only [hc] using h))
  | raise e =>
    simp only [hc] at h
    exact .inl ⟨e, rfl, cause_of_raiseStep hc h⟩

end Machine

end TreeMachine
