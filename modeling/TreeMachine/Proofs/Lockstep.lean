import Mathlib.Data.List.Forall2
import TreeMachine.Proofs.Correspondence

/-!
Two runs of one tree from twin states go in step, whatever the call sites, the counts and the rest
of the two stores hold.
-/
set_option autoImplicit false

namespace TreeMachine.Machine

variable (w w' : World)

structure Call.Twin (c c' : Call) : Prop where
  closure : c.closure.Twin w w' c'.closure
  args : List.Forall₂ (Value.Twin w w') c.args c'.args

inductive Control.Twin : Control → Control → Prop where
  | eval {e : Expr} {f f' : FrameId} (tree : e.Common w w') (frame : f.Twin w w' f') :
      Twin (.eval e f) (.eval e f')
  | yield {v v' : Value} (value : v.Twin w w' v') : Twin (.yield v) (.yield v')
  | tailCall {c c' : Call} (call : c.Twin w w' c') : Twin (.tailCall c) (.tailCall c')
  | dispatch {c c' : Call} (call : c.Twin w w' c') : Twin (.dispatch c) (.dispatch c')
  | raise (e : Failure) : Twin (.raise e) (.raise e)

inductive Pending.Twin : Pending → Pending → Prop where
  | store {slot : SlotId} {depth : Nat} {f f' : FrameId} (frame : f.Twin w w' f') :
      Twin (.store slot depth f) (.store slot depth f')
  | branch {t e : Expr} {f f' : FrameId} (whenTrue : t.Common w w') (whenFalse : e.Common w w')
      (frame : f.Twin w w' f') : Twin (.branch t e f) (.branch t e f')
  | sequence {rest : List Expr} {f f' : FrameId} (items : ∀ e ∈ rest, e.Common w w')
      (frame : f.Twin w w' f') : Twin (.sequence rest f) (.sequence rest f')
  | callee {site : SiteId} {tail : Bool} {args : List Expr} {f f' : FrameId}
      (operands : ∀ e ∈ args, e.Common w w') (frame : f.Twin w w' f') :
      Twin (.callee site tail args f) (.callee site tail args f')
  | operand {site : SiteId} {tail : Bool} {c c' : Closure} {done done' : List Value}
      {rest : List Expr} {f f' : FrameId} (closure : c.Twin w w' c')
      (values : List.Forall₂ (Value.Twin w w') done done') (operands : ∀ e ∈ rest, e.Common w w')
      (frame : f.Twin w w' f') :
      Twin (.operand site tail c done rest f) (.operand site tail c' done' rest f')
  | loop : Twin .loop .loop
  | leave : Twin .leave .leave

/-- The two runs are at the same point, with the same calls active. -/
structure State.Twin (s s' : State) : Prop where
  control : s.control.Twin w w' s'.control
  pending : List.Forall₂ (Pending.Twin w w') s.pending s'.pending
  store : s.store.Twin w w' s'.store
  stack : s'.stack = s.stack

structure Setup.Twin (m m' : Setup) : Prop where
  library : m.library = w.library
  library' : m'.library = w'.library
  overflow : m'.overflow = m.overflow

namespace State.Twin

variable {w w'} {m m' : Setup} {s s' : State}

theorem evalStep (hm : Setup.Twin w w' m m') (h : s.Twin w w' s') {e : Expr} {f f' : FrameId}
    (he : e.Common w w') (hf : f.Twin w w' f') :
    (evalStep m s e f).Twin w w' (evalStep m' s' e f') := by
  cases e with
  | literal v => exact ⟨.yield he.literal_twin, h.pending, h.store, h.stack⟩
  | read slot depth =>
    have hread := h.store.read hf slot depth
    simp only [Machine.evalStep]
    generalize s.store.read f slot depth = r at hread
    generalize s'.store.read f' slot depth = r' at hread
    cases hread with
    | ok hv => exact ⟨.yield hv, h.pending, h.store, h.stack⟩
    | error fault => exact ⟨.raise _, h.pending, h.store, h.stack⟩
  | write slot depth value =>
    exact ⟨.eval (he.child .value) hf, .cons (.store hf) h.pending, h.store, h.stack⟩
  | ite c t e =>
    exact ⟨.eval (he.child .condition) hf,
      .cons (.branch (he.child .whenTrue) (he.child .whenFalse) hf) h.pending, h.store, h.stack⟩
  | begin items =>
    have hitem : ∀ e ∈ items, e.Common w w' := fun e hmem => he.child (.item hmem)
    cases items with
    | nil => exact ⟨.yield (.atom rfl), h.pending, h.store, h.stack⟩
    | cons first rest =>
      have hfirst := hitem first List.mem_cons_self
      cases rest with
      | nil => exact ⟨.eval hfirst hf, h.pending, h.store, h.stack⟩
      | cons second rest =>
        have hrest : ∀ e ∈ second :: rest, e.Common w w' :=
          fun e hmem => hitem e (List.mem_cons_of_mem first hmem)
        exact ⟨.eval hfirst hf, .cons (.sequence hrest hf) h.pending, h.store, h.stack⟩
  | lambda code =>
    have hcode := he.code code .refl
    have hcell : FunctionCell.Twin w w' ⟨(m.library.code code).name, .lambda code, 0⟩
        ⟨(m'.library.code code).name, .lambda code, 0⟩ := by
      refine ⟨?_, rfl, fun id hid => ?_⟩
      · simp only [hm.library, hm.library', hcode]
      · cases hid
        exact he
    exact ⟨.yield (.closure (.made h.store.cells hf)), h.pending, h.store.addCell hcell, h.stack⟩
  | apply callee args tail site =>
    have hargs : ∀ e ∈ args, e.Common w w' := fun e hmem => he.child (.argument hmem)
    exact ⟨.eval (he.child .callee) hf, .cons (.callee hargs hf) h.pending, h.store, h.stack⟩

theorem operands {pending pending' : List Pending} (h : s.Twin w w' s')
    (hpending : List.Forall₂ (Pending.Twin w w') pending pending') (site : SiteId) (tail : Bool)
    {c c' : Closure} {done done' : List Value} {rest : List Expr} {f f' : FrameId}
    (hc : c.Twin w w' c') (hdone : List.Forall₂ (Value.Twin w w') done done')
    (hrest : ∀ e ∈ rest, e.Common w w') (hf : f.Twin w w' f') :
    ({ s with pending }.operands site tail c done rest f).Twin w w'
      ({ s' with pending := pending' }.operands site tail c' done' rest f') := by
  cases rest with
  | nil =>
    have hcall : Call.Twin w w' ⟨site, c, done.reverse⟩ ⟨site, c', done'.reverse⟩ :=
      ⟨hc, List.forall₂_reverse_iff.2 hdone⟩
    cases tail with
    | true => exact ⟨.tailCall hcall, hpending, h.store, h.stack⟩
    | false => exact ⟨.dispatch hcall, .cons .loop hpending, h.store, h.stack⟩
  | cons e es =>
    have hfirst := hrest e List.mem_cons_self
    have hes : ∀ x ∈ es, x.Common w w' := fun x hx => hrest x (List.mem_cons_of_mem e hx)
    exact ⟨.eval hfirst hf, .cons (.operand hc hdone hes hf) hpending, h.store, h.stack⟩

theorem yieldStep (h : s.Twin w w' s') {v v' : Value} (hv : v.Twin w w' v') :
    (yieldStep s v).Twin w w' (yieldStep s' v') := by
  have hself := h
  obtain ⟨control, pending, store, stack, profile⟩ := s
  obtain ⟨control', pending', store', stack', profile'⟩ := s'
  obtain ⟨hcontrol, hpending, hstore, hstack⟩ := h
  obtain rfl : stack' = stack := hstack
  cases hpending with
  | nil => exact hself
  | cons hp hrest =>
    cases hp with
    | store hf =>
      rename_i slot depth f f'
      have hwrite := hstore.write hf slot depth hv
      simp only [Machine.yieldStep]
      generalize store.write f slot depth v = r at hwrite
      generalize store'.write f' slot depth v' = r' at hwrite
      cases hwrite with
      | ok ht => exact ⟨.yield (.atom rfl), hrest, ht, rfl⟩
      | error fault => exact ⟨.raise _, hrest, hstore, rfl⟩
    | branch ht he hf =>
      simp only [Machine.yieldStep, hv.asBool]
      cases v.asBool with
      | ok b =>
        cases b with
        | true => exact ⟨.eval ht hf, hrest, hstore, rfl⟩
        | false => exact ⟨.eval he hf, hrest, hstore, rfl⟩
      | error cause => exact ⟨.raise _, hrest, hstore, rfl⟩
    | sequence hitems hf => exact ⟨.eval (.begin hitems) hf, hrest, hstore, rfl⟩
    | callee hargs hf =>
      have hclosure := hv.asClosure
      simp only [Machine.yieldStep]
      generalize v.asClosure = r at hclosure
      generalize v'.asClosure = r' at hclosure
      cases hclosure with
      | ok hc => exact hself.operands hrest _ _ hc .nil hargs hf
      | error cause => exact ⟨.raise _, hrest, hstore, rfl⟩
    | operand hc hdone hargs hf => exact hself.operands hrest _ _ hc (.cons hv hdone) hargs hf
    | loop => exact ⟨hcontrol, hrest, hstore, rfl⟩
    | leave => exact ⟨hcontrol, hrest, hstore, rfl⟩

theorem tailCallStep (h : s.Twin w w' s') {c c' : Call} (hc : c.Twin w w' c') :
    (tailCallStep s c).Twin w w' (tailCallStep s' c') := by
  obtain ⟨control, pending, store, stack, profile⟩ := s
  obtain ⟨control', pending', store', stack', profile'⟩ := s'
  obtain ⟨hcontrol, hpending, hstore, hstack⟩ := h
  obtain rfl : stack' = stack := hstack
  have hagain := hpending
  cases hpending with
  | nil => exact ⟨.dispatch hc, .cons .loop .nil, hstore, rfl⟩
  | cons hp hrest =>
    cases hp with
    | leave => exact ⟨hcontrol, hrest, hstore, rfl⟩
    | loop => exact ⟨.dispatch hc, hagain, hstore, rfl⟩
    | _ => exact ⟨.dispatch hc, .cons .loop hagain, hstore, rfl⟩

theorem raiseStep (h : s.Twin w w' s') {e : Failure} :
    (raiseStep s e).Twin w w' (raiseStep s' e) := by
  have hself := h
  obtain ⟨control, pending, store, stack, profile⟩ := s
  obtain ⟨control', pending', store', stack', profile'⟩ := s'
  obtain ⟨hcontrol, hpending, hstore, hstack⟩ := h
  obtain rfl : stack' = stack := hstack
  cases hpending with
  | nil => exact hself
  | cons hp hrest =>
    cases hp with
    | leave => exact ⟨.raise _, hrest, hstore, rfl⟩
    | _ => exact ⟨hcontrol, hrest, hstore, rfl⟩

theorem fail (h : s.Twin w w' s') (cause : Cause) : (s.fail cause).Twin w w' (s'.fail cause) :=
  ⟨.raise _, h.pending, h.store, h.stack⟩

theorem failHere (h : s.Twin w w' s') (cause : Cause) :
    (s.failHere cause).Twin w w' (s'.failHere cause) := by
  unfold State.failHere
  rw [h.stack]
  exact ⟨.raise _, h.pending, h.store, rfl⟩

theorem enter (h : s.Twin w w' s') {code : Code} {c c' : Call} (hbody : code.body.Common w w')
    (hc : c.Twin w w' c') (hname : (s'.store.cell c'.closure.cell).name =
      (s.store.cell c.closure.cell).name)
    (henv : Option.Rel (FrameId.Twin w w') c.closure.env c'.closure.env) :
    (enter s code c).Twin w w' (enter s' code c') := by
  have hbind := (Frame.Twin.activate code.layout henv).bind code.params hc.args
  have hactivation : activationName (s'.store.cell c'.closure.cell) code =
      activationName (s.store.cell c.closure.cell) code := by simp only [activationName, hname]
  unfold Machine.enter
  rw [h.stack, hactivation]
  cases s.stack.push (activationName (s.store.cell c.closure.cell) code) with
  | error cause => exact h.failHere _
  | ok stack =>
    dsimp only
    generalize Frame.bind _ code.params c.args = r at hbind
    generalize Frame.bind _ code.params c'.args = r' at hbind
    cases hbind with
    | error failed => exact ⟨.raise _, .cons .leave h.pending, h.store, rfl⟩
    | ok hframe =>
      exact ⟨.eval hbody h.store.frames, .cons .leave h.pending, h.store.addFrame hframe, rfl⟩

theorem operate (hm : Setup.Twin w w' m m') (h : s.Twin w w' s') {op : Primitive}
    {args args' : List Value} (hargs : List.Forall₂ (Value.Twin w w') args args')
    (hlength : args.length = op.arity) :
    (operate m s op args).Twin w w' (operate m' s' op args') := by
  have happly := op.twin_apply m.overflow m.sink m'.sink h.store hargs hlength
  unfold Machine.operate
  rw [hm.overflow]
  generalize op.apply args m.overflow m.sink s.store = r at happly
  generalize op.apply args' m.overflow m'.sink s'.store = r' at happly
  obtain ⟨result, store⟩ := r
  obtain ⟨result', store'⟩ := r'
  obtain ⟨hresult, hstore⟩ := happly
  have hs : State.Twin w w' { s with store } { s' with store := store' } :=
    ⟨h.control, h.pending, hstore, h.stack⟩
  cases hresult with
  | ok hv => exact ⟨.yield hv, h.pending, hstore, h.stack⟩
  | error cause => exact hs.failHere cause

/-- Twin closures go to one entry point, and there the runs stay in step. -/
theorem transfer (hm : Setup.Twin w w' m m') (h : s.Twin w w' s') {c c' : Call}
    (hc : c.Twin w w' c') :
    (transfer m s (s.store.cell c.closure.cell).target c).Twin w w'
      (transfer m' s' (s'.store.cell c'.closure.cell).target c') := by
  obtain ⟨hname, htarget, hcode⟩ := h.store.closure hc.closure
  have hlength := hc.args.length_eq
  unfold Machine.transfer
  rw [htarget]
  cases ht : (s.store.cell c.closure.cell).target with
  | unbound =>
    simp only [Target.arity?, hname]
    exact h.fail _
  | primitive op =>
    simp only [Target.arity?, hname, ← hlength]
    split
    · exact h.failHere _
    · rename_i hsame
      exact h.operate hm hc.args (not_not.1 hsame)
  | lambda id =>
    obtain ⟨hcommon, henv⟩ := hcode id ht
    have hbody := hcommon.inner (.body id)
    have hlib : m'.library.code id = m.library.code id := by
      rw [hm.library, hm.library', hcommon.code id .refl]
    rw [← hm.library] at hbody
    simp only [Target.arity?, hname, hlib, ← hlength]
    split
    · exact h.failHere _
    · exact h.enter hbody hc hname henv

theorem dispatchStep (hm : Setup.Twin w w' m m') (h : s.Twin w w' s') {c c' : Call}
    (hc : c.Twin w w' c') : (dispatchStep m s c).Twin w w' (dispatchStep m' s' c') := by
  obtain ⟨hname, htarget, -⟩ := h.store.closure hc.closure
  -- Each lookup finds the current entry point, so what the two sites hold makes no difference.
  rcases dispatchStep_cases m c s.store with ⟨hunbound, hfail⟩ | ⟨hbound, found, site, hfound⟩
  · rcases dispatchStep_cases m' c' s'.store with ⟨-, hfail'⟩ | ⟨hbound', -⟩
    · rw [hfail s rfl, hfail' s' rfl, hname]
      exact ⟨.raise _, h.pending, h.store, h.stack⟩
    · simp [htarget, hunbound] at hbound'
  · rcases dispatchStep_cases m' c' s'.store with ⟨hunbound', -⟩ | ⟨-, found', site', hfound'⟩
    · simp [← htarget, hunbound'] at hbound
    · have hlocated : (s.located c found site).Twin w w' (s'.located c' found' site') :=
        ⟨h.control, h.pending, h.store.of_eq rfl rfl rfl rfl rfl rfl, h.stack⟩
      rw [hfound s rfl, hfound' s' rfl]
      exact hlocated.transfer hm hc

theorem step (hm : Setup.Twin w w' m m') (h : s.Twin w w' s') :
    (step m s).Twin w w' (step m' s') := by
  have hcontrol := h.control
  unfold Machine.step
  generalize s.control = control at hcontrol
  generalize s'.control = control' at hcontrol
  cases hcontrol with
  | eval tree frame => exact h.evalStep hm tree frame
  | yield value => exact h.yieldStep value
  | tailCall call => exact h.tailCallStep call
  | dispatch call => exact h.dispatchStep hm call
  | raise e => exact h.raiseStep

theorem steps (hm : Setup.Twin w w' m m') (h : s.Twin w w' s') (n : Nat) :
    (steps m n s).Twin w w' (steps m' n s') := by
  induction n with
  | zero => exact h
  | succ n ih =>
    rw [steps_succ, steps_succ]
    exact ih.step hm

theorem line? (h : s.Twin w w' s') : s'.line? = s.line? := by
  have hcontrol := h.control
  unfold State.line?
  generalize s.control = control at hcontrol
  generalize s'.control = control' at hcontrol
  cases hcontrol with
  | dispatch call =>
    obtain ⟨-, htarget, -⟩ := h.store.closure call.closure
    dsimp only
    rw [htarget]
    exact Target.twin_line? _ h.store call.args
  | _ => rfl

theorem printed (hm : Setup.Twin w w' m m') (h : s.Twin w w' s') (n : Nat) :
    printed m' n s' = printed m n s := by
  induction n generalizing s s' with
  | zero => rfl
  | succ n ih =>
    simp only [Machine.printed, h.line?]
    rw [ih (h.step hm)]

theorem result? (h : s.Twin w w' s') :
    Option.Rel (Agree (Value.Twin w w')) s.result? s'.result? := by
  obtain ⟨control, pending, store, stack, profile⟩ := s
  obtain ⟨control', pending', store', stack', profile'⟩ := s'
  obtain ⟨hcontrol, hpending, -, -⟩ := h
  cases hpending with
  | nil =>
    cases hcontrol with
    | yield value => exact .some (.ok value)
    | raise e => exact .some (.error e)
    | _ => exact .none
  | cons _ _ => exact .none

theorem run (hm : Setup.Twin w w' m m') (h : s.Twin w w' s') (n : Nat) :
    Option.Rel (fun x x' => Agree (Value.Twin w w') x.1 x'.1 ∧ x.2.store.Twin w w' x'.2.store)
      (run m n s) (run m' n s') := by
  have hn := h.steps hm n
  have hresult := hn.result?
  rw [run_eq, run_eq]
  generalize (Machine.steps m n s).result? = r at hresult
  generalize (Machine.steps m' n s').result? = r' at hresult
  cases hresult with
  | none => exact .none
  | some hagree => exact .some ⟨hagree, hn.store⟩

end State.Twin

end TreeMachine.Machine
