import TreeMachine.Proofs.RecursionLimit
import TreeMachine.Proofs.TailFlags

/-!
A run beside the run of the cleared program. Where the one has ended an activation before a tail
call, the other has it still pending, with a loop of its own above it.
-/
set_option autoImplicit false

namespace TreeMachine.Machine

/-- Where the machine stands: at a tree, or at a loop in which a call is made. -/
inductive Place where
  | tree
  | loop

/-- Pending work and active calls, and those of the cleared run beside them. -/
inductive Aligned : Place → List Pending → List String → List Pending → List String → Prop where
  | nil (names : List String) : Aligned .tree [] names [] names
  | plain {p : Pending} {ps ps' : List Pending} {names names' : List String}
      (plain : p.isPlain = true) (below : Aligned .tree ps names ps' names') :
      Aligned .tree (p :: ps) names (p.clear :: ps') names'
  | leave {name : String} {ps ps' : List Pending} {names names' : List String}
      (below : Aligned .loop ps names ps' names') :
      Aligned .tree (.leave :: ps) (name :: names) (.leave :: ps') (name :: names')
  | loop {ps ps' : List Pending} {names names' : List String}
      (below : Aligned .tree ps names ps' names') :
      Aligned .loop (.loop :: ps) names (.loop :: ps') names'
  | taken {name : String} {ps ps' : List Pending} {names names' : List String}
      (below : Aligned .loop ps names ps' names') :
      Aligned .loop ps names (.loop :: .leave :: ps') (name :: names')

namespace Aligned

variable {place : Place} {ps ps' : List Pending} {names names' : List String}

theorem sublist (h : Aligned place ps names ps' names') : names.Sublist names' := by
  induction h with
  | nil names => exact List.Sublist.refl names
  | plain _ _ ih => exact ih
  | leave _ ih => exact ih.cons_cons _
  | loop _ ih => exact ih
  | taken _ ih => exact ih.cons _

theorem of_loop (h : Aligned place ps names ps' names') (hplace : place = .loop) :
    ∃ rest qs' ms', ps = .loop :: rest ∧ Aligned .tree rest names qs' ms' := by
  induction h with
  | nil => cases hplace
  | plain => cases hplace
  | leave => cases hplace
  | loop below _ => exact ⟨_, _, _, rfl, below⟩
  | taken _ ih => exact ih rfl

theorem end_activation {rest : List Pending} (h : Aligned place ps names ps' names')
    (hplace : place = .loop) (hps : ps = .loop :: .leave :: rest) :
    ∃ name ms, names = name :: ms ∧ Aligned .loop rest ms ps' names' := by
  induction h with
  | nil => cases hplace
  | plain => cases hplace
  | leave => cases hplace
  | loop below _ =>
    obtain ⟨-, rfl⟩ := List.cons.inj hps
    cases below with
    | plain hplain _ => cases hplain
    | leave below => exact ⟨_, _, rfl, .taken below⟩
  | taken _ ih =>
    obtain ⟨name, ms, rfl, hrest⟩ := ih rfl hps
    exact ⟨name, ms, rfl, .taken hrest⟩

end Aligned

/-- The two states agree, apart from the control and from tail calls that were made. -/
structure Beside (place : Place) (s s' : State) : Prop where
  store : s'.store = s.store
  limit : s'.stack.limit = s.stack.limit
  profile : s'.profile.map Profile.untailed = s.profile.map Profile.untailed
  aligned : Aligned place s.pending s.stack.names s'.pending s'.stack.names

namespace Beside

variable {place : Place} {s s' : State}

theorem withControl (h : Beside place s s') (c c' : Control) :
    Beside place { s with control := c } { s' with control := c' } :=
  ⟨h.store, h.limit, h.profile, h.aligned⟩

theorem withStore (h : Beside place s s') (c c' : Control) (store : Store) :
    Beside place { s with control := c, store } { s' with control := c', store } :=
  ⟨rfl, h.limit, h.profile, h.aligned⟩

theorem push (h : Beside .tree s s') {p : Pending} (hp : p.isPlain = true) (c c' : Control) :
    Beside .tree { s with control := c, pending := p :: s.pending }
      { s' with control := c', pending := p.clear :: s'.pending } :=
  ⟨h.store, h.limit, h.profile, .plain hp h.aligned⟩

theorem enterLoop (h : Beside .tree s s') (c : Call) :
    Beside .loop (s.enterLoop c) (s'.enterLoop c) :=
  ⟨h.store, h.limit, h.profile, .loop h.aligned⟩

theorem count (h : Beside place s s') (f : Profile → Profile)
    (hf : ∀ p, (f p).untailed = f p.untailed) : Beside place (s.count f) (s'.count f) := by
  refine ⟨h.store, h.limit, ?_, h.aligned⟩
  have hmap : ∀ p : Option Profile,
      (p.map f).map Profile.untailed = (p.map Profile.untailed).map f := by
    intro p
    cases p with
    | none => rfl
    | some p => exact congrArg some (hf p)
  exact (hmap s'.profile).trans ((congrArg (Option.map f) h.profile).trans (hmap s.profile).symm)

theorem count_tailCall (h : Beside place s s') : Beside place (s.count Profile.tailCall) s' := by
  refine ⟨h.store, h.limit, ?_, h.aligned⟩
  rw [h.profile]
  simp only [State.count]
  cases s.profile with
  | none => rfl
  | some p => rfl

theorem tree_cases (h : Beside .tree s s') :
    (s.pending = [] ∧ s'.pending = [] ∧ s'.stack = s.stack) ∨
    (∃ p rest rest', p.isPlain = true ∧ s.pending = p :: rest ∧ s'.pending = p.clear :: rest' ∧
      Beside .tree { s with pending := rest } { s' with pending := rest' }) ∨
    ∃ rest rest', s.pending = .leave :: rest ∧ s'.pending = .leave :: rest' ∧
      Beside .loop { s with pending := rest, stack := s.stack.pop }
        { s' with pending := rest', stack := s'.stack.pop } := by
  have haligned := h.aligned
  generalize hps : s.pending = ps at haligned ⊢
  generalize hps' : s'.pending = ps' at haligned ⊢
  generalize hnames : s.stack.names = names at haligned
  generalize hnames' : s'.stack.names = names' at haligned
  cases haligned with
  | nil => exact .inl ⟨rfl, rfl, CallStack.ext_names (hnames'.trans hnames.symm) h.limit⟩
  | plain hplain below =>
    subst hnames hnames'
    exact .inr (.inl ⟨_, _, _, hplain, rfl, rfl, h.store, h.limit, h.profile, below⟩)
  | leave below =>
    rw [← CallStack.names_pop_of_cons hnames, ← CallStack.names_pop_of_cons hnames'] at below
    exact .inr (.inr ⟨_, _, rfl, rfl, h.store, h.limit, h.profile, below⟩)

theorem loop_cases (h : Beside .loop s s') :
    (∃ rest rest', s.pending = .loop :: rest ∧ s'.pending = .loop :: rest' ∧
      Beside .tree { s with pending := rest } { s' with pending := rest' }) ∨
    ∃ rest', s'.pending = .loop :: .leave :: rest' ∧
      Beside .loop s { s' with pending := rest', stack := s'.stack.pop } := by
  have haligned := h.aligned
  generalize hps : s.pending = ps at haligned ⊢
  generalize hps' : s'.pending = ps' at haligned ⊢
  generalize hnames : s.stack.names = names at haligned
  generalize hnames' : s'.stack.names = names' at haligned
  cases haligned with
  | loop below =>
    subst hnames hnames'
    exact .inl ⟨_, _, rfl, rfl, h.store, h.limit, h.profile, below⟩
  | taken below =>
    rw [← CallStack.names_pop_of_cons hnames', ← hnames, ← hps] at below
    exact .inr ⟨_, rfl, h.store, h.limit, h.profile, below⟩

end Beside

/-- The traces of a failure in the two runs; one still without a trace in the first run gets the
active calls of that run, or fewer. -/
inductive Traced (names : List String) : Option Backtrace → Option Backtrace → Prop where
  | bare : Traced names none none
  | late {t' : Backtrace} (h : names.Sublist t'.names) : Traced names none (some t')
  | both {t t' : Backtrace} (h : t.names.Sublist t'.names) : Traced names (some t) (some t')

namespace Traced

variable {names : List String} {t t' : Option Backtrace}

theorem mono {fewer : List String} (h : Traced names t t') (hsub : fewer.Sublist names) :
    Traced fewer t t' := by
  cases h with
  | bare => exact .bare
  | late h => exact .late (hsub.trans h)
  | both h => exact .both h

theorem attach_right {stack' : CallStack} {e e' : Failure}
    (h : Traced names e.trace e'.trace) (hsub : names.Sublist stack'.names) :
    Traced names e.trace (stack'.attach e').trace := by
  rw [CallStack.trace_attach]
  split
  · exact h
  · rename_i hnone
    have hbare : e'.trace = none := by
      cases ht : e'.trace with
      | none => rfl
      | some t => exact absurd (.inl (by rw [ht]; rfl)) hnone
    rw [hbare] at h
    cases ht : e.trace with
    | none => exact .late hsub
    | some t =>
      rw [ht] at h
      cases h

theorem attach {stack stack' : CallStack} {e e' : Failure}
    (h : Traced stack.names e.trace e'.trace) (hsub : stack.names.Sublist stack'.names) :
    Traced stack.names (stack.attach e).trace (stack'.attach e').trace := by
  have hright := attach_right h hsub
  rw [CallStack.trace_attach stack e]
  split
  · exact hright
  · rename_i hnone
    have hnames : stack.names ≠ [] := fun hnil => hnone (.inr hnil)
    have hbare : e.trace = none := by
      cases ht : e.trace with
      | none => rfl
      | some t => exact absurd (.inl (by rw [ht]; rfl)) hnone
    rw [hbare] at hright
    -- The other stack has the same calls at least, so the other failure has a trace by now.
    cases ht : (stack'.attach e').trace with
    | some t' =>
      rw [ht] at hright
      cases hright with
      | late h => exact .both h
    | none =>
      rw [CallStack.trace_attach] at ht
      split at ht
      · rename_i hsome
        rcases hsome with hsome | hnil
        · rw [ht] at hsome
          cases hsome
        · rw [hnil] at hsub
          exact absurd (List.sublist_nil.1 hsub) hnames
      · cases ht

end Traced

/-- A state of a run and the state of the cleared run beside it. -/
inductive Related (s s' : State) : Prop where
  | eval {e : Expr} {frame : FrameId} (control : s.control = .eval e frame)
      (control' : s'.control = .eval e.clear frame) (beside : Beside .tree s s')
  | yield {v : Value} {place : Place} (control : s.control = .yield v)
      (control' : s'.control = .yield v) (beside : Beside place s s')
  | tailCall {c : Call} (control : s.control = .tailCall c) (control' : s'.control = .dispatch c)
      (beside : Beside .loop (s.enterLoop c) s')
  | dispatch {c : Call} (control : s.control = .dispatch c) (control' : s'.control = .dispatch c)
      (beside : Beside .loop s s')
  | raise {e e' : Failure} {place : Place} (control : s.control = .raise e)
      (control' : s'.control = .raise e') (cause : e'.cause = e.cause)
      (trace : Traced s.stack.names e.trace e'.trace) (beside : Beside place s s')

namespace Related

variable {m : Setup} {s s' : State}

theorem fail {place : Place} (h : Beside place s s') (cause : Cause) :
    Related (s.fail cause) (s'.fail cause) :=
  .raise rfl rfl rfl .bare (h.withControl _ _)

theorem failHere {place : Place} (h : Beside place s s') (cause : Cause) :
    Related (s.failHere cause) (s'.failHere cause) := by
  refine .raise rfl rfl ?_ (Traced.attach .bare h.aligned.sublist) (h.withControl _ _)
  rw [CallStack.cause_attach, CallStack.cause_attach]

theorem evalStep (h : Beside .tree s s') (e : Expr) (frame : FrameId) :
    Related (Machine.evalStep m s e frame) (Machine.evalStep m.clear s' e.clear frame) := by
  cases e with
  | literal v => exact .yield rfl rfl (h.withControl _ _)
  | read slot depth =>
    simp only [Machine.evalStep, Expr.clear, h.store]
    cases s.store.read frame slot depth with
    | ok v => exact .yield rfl rfl (h.withControl _ _)
    | error fault => exact fail h _
  | write slot depth value => exact .eval rfl rfl (h.push rfl _ _)
  | ite c t e => exact .eval rfl rfl (h.push rfl _ _)
  | begin items =>
    cases items with
    | nil => exact .yield rfl rfl (h.withControl _ _)
    | cons first rest =>
      cases rest with
      | nil => exact .eval rfl rfl (h.withControl _ _)
      | cons second rest => exact .eval rfl rfl (h.push rfl _ _)
  | lambda code =>
    have hname : (m.clear.library.code code).name = (m.library.code code).name := by
      simp only [Setup.clear, Library.code_clear]
      rfl
    simp only [Machine.evalStep, Expr.clear, h.store, hname]
    exact .yield rfl rfl (h.withStore _ _ _)
  | apply callee args tail site => exact .eval rfl rfl (h.push rfl _ _)

theorem operands (h : Beside .tree s s') (site : SiteId) (tail : Bool) (closure : Closure)
    (done : List Value) (args : List Expr) (frame : FrameId) :
    Related (s.operands site tail closure done args frame)
      (s'.operands site false closure done (Expr.clearAll args) frame) := by
  cases args with
  | nil =>
    cases tail with
    | true => exact .tailCall rfl rfl (h.enterLoop _)
    | false => exact .dispatch rfl rfl (h.enterLoop _)
  | cons e es => exact .eval rfl rfl (h.push rfl _ _)

theorem yieldStep {p : Pending} {rest rest' : List Pending} (hp : p.isPlain = true)
    (hs : s.pending = p :: rest) (hs' : s'.pending = p.clear :: rest')
    (h : Beside .tree { s with pending := rest } { s' with pending := rest' }) (v : Value) :
    Related (Machine.yieldStep s v) (Machine.yieldStep s' v) := by
  cases p with
  | store slot depth frame =>
    have hwrite : s'.store.write frame slot depth v = s.store.write frame slot depth v := by
      rw [show s'.store = s.store from h.store]
    simp only [Machine.yieldStep, hs, hs', Pending.clear, hwrite]
    cases s.store.write frame slot depth v with
    | ok store => exact .yield rfl rfl (h.withStore _ _ _)
    | error fault => exact fail h _
  | branch t e frame =>
    simp only [Machine.yieldStep, hs, hs', Pending.clear]
    cases v.asBool with
    | ok b =>
      cases b with
      | true => exact .eval rfl rfl (h.withControl _ _)
      | false => exact .eval rfl rfl (h.withControl _ _)
    | error cause => exact fail h _
  | sequence items frame =>
    simp only [Machine.yieldStep, hs, hs', Pending.clear]
    exact .eval rfl rfl (h.withControl _ _)
  | callee site tail args frame =>
    simp only [Machine.yieldStep, hs, hs', Pending.clear]
    cases v.asClosure with
    | ok closure => exact operands h site tail closure [] args frame
    | error cause => exact fail h _
  | operand site tail closure done args frame =>
    simp only [Machine.yieldStep, hs, hs', Pending.clear]
    exact operands h site tail closure (v :: done) args frame
  | loop => cases hp
  | leave => cases hp

theorem room {place : Place} (h : Beside place s s') (hroom : s'.stack.full? = none) :
    s.stack.full? = none := by
  cases hfull : s.stack.full? with
  | none => rfl
  | some limit =>
    obtain ⟨hlimit, hdepth⟩ := CallStack.full?_eq_some_iff.1 hfull
    have hlt := CallStack.depth_lt_of_full? (h.limit.trans hlimit) hroom
    have hle := h.aligned.sublist.length_le
    rw [← CallStack.depth_eq_length_names, ← CallStack.depth_eq_length_names] at hle
    omega

theorem enter (h : Beside .loop s s') (hroom : s'.stack.full? = none) (code : Code) (c : Call) :
    Related (Machine.enter s code c) (Machine.enter s' code.clear c) := by
  have hname : activationName (s'.store.cell c.closure.cell) code.clear =
      activationName (s.store.cell c.closure.cell) code := by
    rw [h.store]
    rfl
  have hbeside : Beside .tree
      { s with pending := .leave :: s.pending
               stack := s.stack.add (activationName (s.store.cell c.closure.cell) code) }
      { s' with pending := .leave :: s'.pending
                stack := s'.stack.add (activationName (s.store.cell c.closure.cell) code) } := by
    refine ⟨h.store, h.limit, h.profile, ?_⟩
    simp only [CallStack.names_add]
    exact .leave h.aligned
  simp only [Machine.enter, CallStack.push_of_room (room h hroom), CallStack.push_of_room hroom,
    hname]
  cases hbind : (Frame.activate code.layout c.closure.env).bind code.params c.args with
  | error failed =>
    simp only [Code.clear, hbind]
    exact fail hbeside _
  | ok frame =>
    simp only [Code.clear, hbind, h.store]
    exact .eval rfl rfl (hbeside.withStore _ _ _)

theorem operate (h : Beside .loop s s') (op : Primitive) (args : List Value) :
    Related (Machine.operate m s op args) (Machine.operate m.clear s' op args) := by
  simp only [Machine.operate, Setup.clear, h.store]
  cases (op.apply args m.overflow m.sink s.store).1 with
  | ok v => exact .yield rfl rfl (h.withStore _ _ _)
  | error cause => exact failHere (h.withStore s.control s'.control _) cause

theorem transfer (h : Beside .loop s s') (target : Target) (c : Call) :
    Related (Machine.transfer m s target c) (Machine.transfer m.clear s' target c) ∨
      ∃ limit, s'.stack.full? = some limit ∧
        Machine.transfer m.clear s' target c = s'.failHere (.stackOverflow limit) := by
  have harity : target.arity? m.clear.library = target.arity? m.library :=
    Target.arity?_clear m.library target
  simp only [Machine.transfer, harity, h.store]
  cases target.arity? m.library with
  | none => exact .inl (fail h _)
  | some arity =>
    dsimp only
    by_cases hlen : c.args.length ≠ arity
    · rw [if_pos hlen, if_pos hlen]
      exact .inl (failHere h _)
    · rw [if_neg hlen, if_neg hlen]
      cases target with
      | primitive op => exact .inl (operate h op c.args)
      | lambda code =>
        have hcode : m.clear.library.code code = (m.library.code code).clear :=
          Library.code_clear m.library code
        simp only [hcode]
        cases hfull : s'.stack.full? with
        | none => exact .inl (enter h hfull _ c)
        | some limit => exact .inr ⟨limit, rfl, enter_of_full hfull _ c⟩
      | unbound => exact .inl (fail h _)

theorem dispatchStep (h : Beside .loop s s') (c : Call) :
    Related (Machine.dispatchStep m s c) (Machine.dispatchStep m.clear s' c) ∨
      ∃ limit e, s'.stack.full? = some limit ∧
        (Machine.dispatchStep m.clear s' c).control = .raise e ∧
        e.cause = .stackOverflow limit := by
  have hcounted := h.count Profile.call fun _ => rfl
  have hlookup : (s'.store.site c.site).lookup s'.store.cell c.closure.cell m.clear.cacheSize =
      (s.store.site c.site).lookup s.store.cell c.closure.cell m.cacheSize := by
    rw [h.store]
    rfl
  simp only [Machine.dispatchStep, State.count] at *
  simp only [hlookup]
  cases (s.store.site c.site).lookup s.store.cell c.closure.cell m.cacheSize with
  | error cause => exact .inl (fail hcounted cause)
  | ok out =>
    obtain ⟨found, site⟩ := out
    have hlocated := (hcounted.withStore s.control s'.control
      (s.store.setSite c.site site)).count (·.found found) fun _ => rfl
    simp only [h.store]
    rcases transfer (m := m) hlocated found.target c with hrelated | ⟨limit, hfull, hover⟩
    · exact .inl hrelated
    · refine .inr ⟨limit, _, hfull, congrArg State.control hover, ?_⟩
      rw [CallStack.cause_attach]

end Related

inductive SameUpToTrace : Except Failure Value → Except Failure Value → Prop where
  | ok (v : Value) : SameUpToTrace (.ok v) (.ok v)
  | error {e e' : Failure} (cause : e'.cause = e.cause)
      (trace : ∀ t, e.trace = some t → ∃ t', e'.trace = some t' ∧ t.names.Sublist t'.names) :
      SameUpToTrace (.error e) (.error e')

theorem SameUpToTrace.eq_ok_iff {r r' : Except Failure Value} {v : Value}
    (h : SameUpToTrace r r') : r = .ok v ↔ r' = .ok v := by
  cases h with
  | ok u => exact Iff.rfl
  | error cause trace => exact ⟨nofun, nofun⟩

structure SameEnd (r : Except Failure Value) (s : State) (r' : Except Failure Value) (s' : State) :
    Prop where
  result : SameUpToTrace r r'
  store : s'.store = s.store
  stack : s'.stack = s.stack
  profile : s'.profile.map Profile.untailed = s.profile.map Profile.untailed

/-- How two states beside each other go on. The cleared run always makes a step; where the other
makes none, the cleared run has less work pending afterwards. -/
inductive Advance (m : Setup) (s s' : State) : Prop where
  | done (r r' : Except Failure Value) (result : s.result? = some r)
      (result' : s'.result? = some r') (same : SameEnd r s r' s')
  | overflow {limit : Nat} {e : Failure} (busy : s'.result? = none)
      (full : s'.stack.full? = some limit) (control : (step m.clear s').control = .raise e)
      (cause : e.cause = .stackOverflow limit)
  | go (a b : Nat) (busy : s.result? = none) (busy' : s'.result? = none) (steps' : 0 < b)
      (progress : 0 < a ∨ (steps m.clear b s').pending.length < s'.pending.length)
      (related : Related (steps m a s) (steps m.clear b s'))

theorem result?_of_cons {s : State} {p : Pending} {rest : List Pending}
    (h : s.pending = p :: rest) : s.result? = none := result?_of_pending (by simp [h])

namespace Advance

variable {m : Setup} {s s' : State}

theorem both (busy : s.result? = none) (busy' : s'.result? = none)
    (h : Related (step m s) (step m.clear s')) : Advance m s s' :=
  .go 1 1 busy busy' Nat.one_pos (.inl Nat.one_pos) h

theorem catch_up {rest' : List Pending} {t' : State} (h : Beside .loop s t')
    (hs' : s'.pending = .loop :: .leave :: rest') (ht' : t'.pending = rest')
    (hsteps : steps m.clear 2 s' = t') (hrelated : Related s t') : Advance m s s' := by
  obtain ⟨rest, qs', ms', hs, -⟩ := h.aligned.of_loop rfl
  refine .go 0 2 (result?_of_cons hs) (result?_of_cons hs') Nat.two_pos (.inr ?_) ?_
  · rw [hsteps, ht', hs']
    simp only [List.length_cons]
    omega
  · rw [hsteps]
    exact hrelated

theorem of_yield {v : Value} {place : Place} (hs : s.control = .yield v)
    (hs' : s'.control = .yield v) (h : Beside place s s') : Advance m s s' := by
  have hstep : step m s = yieldStep s v := by simp only [step, hs]
  have hstep' : step m.clear s' = yieldStep s' v := by simp only [step, hs']
  cases place with
  | tree =>
    rcases h.tree_cases with ⟨hp, hp', hstack⟩ | ⟨p, rest, rest', hplain, hp, hp', hrest⟩ |
      ⟨rest, rest', hp, hp', hrest⟩
    · refine .done (.ok v) (.ok v) ?_ ?_ ⟨.ok v, h.store, hstack, h.profile⟩
      · simp [State.result?, hp, hs]
      · simp [State.result?, hp', hs']
    · refine both (result?_of_cons hp) (result?_of_cons hp') ?_
      rw [hstep, hstep']
      exact Related.yieldStep hplain hp hp' hrest v
    · refine both (result?_of_cons hp) (result?_of_cons hp') ?_
      rw [hstep, hstep']
      simp only [yieldStep, hp, hp']
      exact .yield hs hs' hrest
  | loop =>
    rcases h.loop_cases with ⟨rest, rest', hp, hp', hrest⟩ | ⟨rest', hp', hrest⟩
    · refine both (result?_of_cons hp) (result?_of_cons hp') ?_
      rw [hstep, hstep']
      simp only [yieldStep, hp, hp']
      exact .yield hs hs' hrest
    · refine catch_up hrest hp' rfl ?_ (.yield hs hs' hrest)
      simp only [steps, step, hs', yieldStep, hp']

theorem of_raise {e e' : Failure} {place : Place} (hs : s.control = .raise e)
    (hs' : s'.control = .raise e') (cause : e'.cause = e.cause)
    (trace : Traced s.stack.names e.trace e'.trace) (h : Beside place s s') : Advance m s s' := by
  have hstep : step m s = raiseStep s e := by simp only [step, hs]
  have hstep' : step m.clear s' = raiseStep s' e' := by simp only [step, hs']
  have hsublist := h.aligned.sublist
  cases place with
  | tree =>
    rcases h.tree_cases with ⟨hp, hp', hstack⟩ | ⟨p, rest, rest', hplain, hp, hp', hrest⟩ |
      ⟨rest, rest', hp, hp', hrest⟩
    · refine .done (.error e) (.error e') ?_ ?_
        ⟨.error cause ?_, h.store, hstack, h.profile⟩
      · simp [State.result?, hp, hs]
      · simp [State.result?, hp', hs']
      · intro t ht
        rw [ht] at trace
        cases ht' : e'.trace with
        | none =>
          rw [ht'] at trace
          cases trace
        | some t' =>
          rw [ht'] at trace
          cases trace with
          | both hnames => exact ⟨t', rfl, hnames⟩
    · refine both (result?_of_cons hp) (result?_of_cons hp') ?_
      rw [hstep, hstep']
      have hraise : raiseStep s e = { s with pending := rest } := by
        cases p with
        | leave => cases hplain
        | _ => simp only [raiseStep, hp]
      have hraise' : raiseStep s' e' = { s' with pending := rest' } := by
        cases p with
        | leave => cases hplain
        | _ => simp only [raiseStep, hp', Pending.clear]
      rw [hraise, hraise']
      exact .raise hs hs' cause trace hrest
    · refine both (result?_of_cons hp) (result?_of_cons hp') ?_
      rw [hstep, hstep']
      simp only [raiseStep, hp, hp']
      refine .raise rfl rfl ?_ ((Traced.attach trace hsublist).mono ?_) (hrest.withControl _ _)
      · rw [CallStack.cause_attach, CallStack.cause_attach, cause]
      · rw [CallStack.names_pop]
        exact List.tail_sublist _
  | loop =>
    rcases h.loop_cases with ⟨rest, rest', hp, hp', hrest⟩ | ⟨rest', hp', hrest⟩
    · refine both (result?_of_cons hp) (result?_of_cons hp') ?_
      rw [hstep, hstep']
      simp only [raiseStep, hp, hp']
      exact .raise hs hs' cause trace hrest
    · have hattached : Beside .loop s
          { s' with control := .raise (s'.stack.attach e')
                    pending := rest', stack := s'.stack.pop } :=
        hrest.withControl s.control _
      have htrace := trace.attach_right hsublist
      refine catch_up hattached hp' rfl ?_ (.raise hs rfl ?_ htrace hattached)
      · simp only [steps, step, hs', raiseStep, hp']
      · rw [CallStack.cause_attach, cause]

theorem of_dispatch {c : Call} (hs : s.control = .dispatch c) (hs' : s'.control = .dispatch c)
    (h : Beside .loop s s') : Advance m s s' := by
  have hstep : step m s = dispatchStep m s c := by simp only [step, hs]
  have hstep' : step m.clear s' = dispatchStep m.clear s' c := by simp only [step, hs']
  have hbusy : s.result? = none := result?_of_not_answer (by rw [hs]; rfl)
  have hbusy' : s'.result? = none := result?_of_not_answer (by rw [hs']; rfl)
  rcases Related.dispatchStep (m := m) h c with hrelated | ⟨limit, e, hfull, hcontrol, hcause⟩
  · rw [← hstep, ← hstep'] at hrelated
    exact both hbusy hbusy' hrelated
  · rw [← hstep'] at hcontrol
    exact .overflow hbusy' hfull hcontrol hcause

theorem tailCall_steps {c : Call} (hs : s.control = .tailCall c)
    (h : Beside .loop (s.enterLoop c) s') :
    ∃ a, 0 < a ∧ (steps m a s).control = .dispatch c ∧ Beside .loop (steps m a s) s' := by
  have hstep : step m s = tailCallStep s c := by simp only [step, hs]
  obtain ⟨ps, qs', ms', hps, hbelow⟩ := h.aligned.of_loop rfl
  obtain ⟨-, rfl⟩ := List.cons.inj hps
  cases hp : s.pending with
  | nil =>
    refine ⟨1, Nat.one_pos, ?_⟩
    simp only [steps, hstep, tailCallStep, hp]
    exact ⟨rfl, h⟩
  | cons p rest =>
    cases p with
    | loop =>
      rw [hp] at hbelow
      cases hbelow with
      | plain hplain _ => cases hplain
    | leave =>
      have hloop : (s.enterLoop c).pending = .loop :: .leave :: rest := by
        rw [← hp]
        rfl
      obtain ⟨name, names, hnames, haligned⟩ := h.aligned.end_activation rfl hloop
      obtain ⟨rest', _, _, rfl, -⟩ := haligned.of_loop rfl
      have hbeside : Beside .loop { s with control := .dispatch c, pending := .loop :: rest'
                                           stack := s.stack.pop } s' := by
        refine ⟨h.store, h.limit, h.profile, ?_⟩
        rw [← CallStack.names_pop_of_cons hnames] at haligned
        exact haligned
      refine ⟨2, Nat.two_pos, ?_⟩
      simp only [steps, tailCallStep, hp, step, hs]
      exact ⟨rfl, hbeside.count_tailCall⟩
    | _ =>
      refine ⟨1, Nat.one_pos, ?_⟩
      simp only [steps, hstep, tailCallStep, hp]
      exact ⟨rfl, h⟩

theorem of_tailCall {c : Call} (hs : s.control = .tailCall c) (hs' : s'.control = .dispatch c)
    (h : Beside .loop (s.enterLoop c) s') : Advance m s s' := by
  obtain ⟨a, ha, hcontrol, hbeside⟩ := tailCall_steps (m := m) hs h
  have hbusy : s.result? = none := by simp [State.result?, hs]
  cases of_dispatch (m := m) hcontrol hs' hbeside with
  | done r r' result =>
    rw [result?_of_not_answer (by rw [hcontrol]; rfl)] at result
    cases result
  | overflow busy full control cause => exact .overflow busy full control cause
  | go a' b _ busy' steps' progress related =>
    rw [← steps_add] at related
    exact .go (a + a') b hbusy busy' steps' (.inl (by omega)) related

end Advance

theorem Related.advance {m : Setup} {s s' : State} (h : Related s s') : Advance m s s' := by
  cases h with
  | eval control control' beside =>
    refine .both (result?_of_not_answer (by rw [control]; rfl))
      (result?_of_not_answer (by rw [control']; rfl)) ?_
    simp only [step, control, control']
    exact evalStep beside _ _
  | yield control control' beside => exact .of_yield control control' beside
  | tailCall control control' beside => exact .of_tailCall control control' beside
  | dispatch control control' beside => exact .of_dispatch control control' beside
  | raise control control' cause trace beside =>
    exact .of_raise control control' cause trace beside

end TreeMachine.Machine
