import TreeMachine.Proofs.CallStackDiscipline
import TreeMachine.Proofs.StateView

set_option autoImplicit false

namespace TreeMachine

namespace CallStack

def withLimit (s : CallStack) (limit : Option Nat) : CallStack := { s with limit }

theorem full?_eq_some_iff {s : CallStack} {limit : Nat} :
    s.full? = some limit ↔ s.limit = some limit ∧ limit ≤ s.depth := by
  simp [full?, Option.filter_eq_some_iff]

theorem full?_withLimit_of_le {s : CallStack} {low : Nat} {high : Option Nat}
    (hl : s.limit = some low) (hle : ∀ limit, high = some limit → low ≤ limit)
    (h : s.full? = none) : (s.withLimit high).full? = none := by
  have hlt := depth_lt_of_full? hl h
  cases hf : (s.withLimit high).full? with
  | none => rfl
  | some limit =>
    obtain ⟨hlimit, hdepth⟩ := full?_eq_some_iff.1 hf
    have hlow := hle limit hlimit
    simp only [withLimit, depth] at hdepth hlt
    omega

theorem attach_eq_self {s : CallStack} {e : Failure} (h : e.trace.isSome = true) :
    s.attach e = e := by simp [attach, h]

theorem attach_of_isEmpty {s : CallStack} (e : Failure) (h : s.isEmpty = true) :
    s.attach e = e := by simp [attach, h]

theorem names_attach (s : CallStack) (cause : Cause) :
    (s.attach { cause }).trace.map (·.names.length) =
      if s.depth = 0 then none else some s.depth := by
  by_cases h : s.depth = 0
  · have hempty : s.isEmpty = true := by simpa [isEmpty, depth] using h
    simp [attach_of_isEmpty _ hempty, h]
  · have hne := isEmpty_eq_false_of_depth_pos (Nat.pos_of_ne_zero h)
    simp only [depth] at h
    simp [attach, hne, capture, depth, h]

end CallStack

namespace Machine

def State.withLimit (s : State) (limit : Option Nat) : State :=
  { s with stack := s.stack.withLimit limit }

/-- The next step would begin an activation for which there is no room. -/
structure Overflows (m : Setup) (s : State) (limit : Nat) : Prop where
  full : s.stack.full? = some limit
  control : (step m s).control = .raise (s.stack.attach { cause := .stackOverflow limit })
  pending : (step m s).pending = s.pending
  stack : (step m s).stack = s.stack
  deeper : ∀ other, (s.withLimit other).stack.full? = none →
    (step m (s.withLimit other)).stack.depth = s.stack.depth + 1

def View.limit (limit : Option Nat) : View :=
  { View.keep with
    stack := fun s => s.withLimit limit
    add := fun _ _ => rfl
    pop := fun _ => rfl
    attach := fun _ _ => rfl }

theorem View.state_limit (limit : Option Nat) (s : State) :
    (View.limit limit).state s = s.withLimit limit := by
  simp [View.state, View.limit, View.keep, State.withLimit]

theorem overflows_of_enter {m : Setup} {s : State} {limit : Nat} (c : Call) (found : Lookup)
    (site : CallSite) (code : Code) (hfull : s.stack.full? = some limit)
    (h : ∀ t : State, t.control = s.control → t.store = s.store →
      step m t = enter (t.located c found site) code c) : Overflows m s limit := by
  have hstep : step m s = (s.located c found site).failHere (.stackOverflow limit) := by
    rw [h s rfl rfl]
    exact enter_of_full (s := s.located c found site) hfull code c
  refine ⟨hfull, by rw [hstep]; rfl, by rw [hstep]; rfl, by rw [hstep]; rfl, ?_⟩
  intro other hroom
  rw [h (s.withLimit other) rfl rfl]
  have hstack := (enter_of_room (s := (s.withLimit other).located c found site) hroom code c).2
  rw [hstack, CallStack.depth_add]
  rfl

theorem step_withLimit {m : Setup} {s : State} {low : Nat} {high : Option Nat}
    (hl : s.stack.limit = some low) (hle : ∀ limit, high = some limit → low ≤ limit) :
    step m (s.withLimit high) = (step m s).withLimit high ∨ Overflows m s low := by
  have hsees : (View.limit high).Sees s := .inr rfl
  cases hfull : s.stack.full? with
  | none =>
    have hroom : ((View.limit high).stack s.stack).full? = s.stack.full? := by
      rw [hfull]
      exact CallStack.full?_withLimit_of_le hl hle hfull
    have h := (View.limit high).state_step m (fun _ => rfl) hsees hroom
    rw [View.state_limit, View.state_limit] at h
    exact .inl h.symm
  | some limit =>
    obtain rfl : limit = low := by
      have hlimit := (CallStack.full?_eq_some_iff.1 hfull).1
      rw [hl] at hlimit
      exact (Option.some.inj hlimit).symm
    by_cases hd : ∃ c, s.control = .dispatch c
    · obtain ⟨c, hc⟩ := hd
      have hstep : ∀ t : State, t.control = s.control → step m t = dispatchStep m t c := by
        intro t ht
        rw [hc] at ht
        simp only [step, ht]
      rw [hstep (s.withLimit high) rfl, hstep s rfl]
      rcases dispatchStep_cases m c s.store with ⟨-, hfail⟩ | ⟨-, found, site, hfound⟩
      · rw [hfail s rfl, hfail (s.withLimit high) rfl]
        exact .inl rfl
      · rcases View.transfer_cases m (s.store.cell c.closure.cell).target c with
          ⟨code, henter⟩ | hview
        · refine .inr (overflows_of_enter c found site code hfull ?_)
          intro t ht hs
          rw [hstep t ht, hfound t hs, henter]
        · have h := hview (View.limit high) (s.located c found site)
          rw [View.state_limit, View.state_limit] at h
          rw [hfound s rfl, hfound (s.withLimit high) rfl, h]
          exact .inl rfl
    · have h := (View.limit high).state_step_of_ne_dispatch m hsees fun c hc => hd ⟨c, hc⟩
      rw [View.state_limit, View.state_limit] at h
      exact .inl h.symm

theorem steps_withLimit {m : Setup} {s : State} {low : Nat} {high : Option Nat}
    (hl : s.stack.limit = some low) (hle : ∀ limit, high = some limit → low ≤ limit) (n : Nat) :
    steps m n (s.withLimit high) = (steps m n s).withLimit high ∨
      ∃ j, j < n ∧ steps m j (s.withLimit high) = (steps m j s).withLimit high ∧
        Overflows m (steps m j s) low := by
  induction n with
  | zero => exact .inl rfl
  | succ n ih =>
    rcases ih with hagree | ⟨j, hj, hagree, hover⟩
    · rcases step_withLimit ((steps_limit m n s).trans hl) hle with hstep | hover
      · exact .inl (by rw [steps_succ, steps_succ, hagree, hstep])
      · exact .inr ⟨n, by omega, hagree, hover⟩
    · exact .inr ⟨j, by omega, hagree, hover⟩

/-- A failure ends the run. It keeps its cause, and its trace if it has one or if no activation is
left to add one. -/
theorem run_raise {m : Setup} {s : State} {e : Failure} (hc : s.control = .raise e) :
    ∃ e' t, run m s.pending.length s = some (.error e', t) ∧ e'.cause = e.cause ∧
      (e.trace.isSome = true ∨ activations s.pending = 0 → e' = e) := by
  obtain ⟨control, pending, store, stack, profile⟩ := s
  obtain rfl : control = .raise e := hc
  induction pending generalizing e stack with
  | nil => exact ⟨e, _, rfl, rfl, fun _ => rfl⟩
  | cons p rest ih =>
    by_cases hp : p = .leave
    · subst hp
      obtain ⟨e', t, hrun, hcause, hkeep⟩ := ih (e := stack.attach e) stack.pop
      refine ⟨e', t, hrun, by rw [hcause, CallStack.cause_attach], ?_⟩
      rintro (htrace | hleaves)
      · rw [CallStack.attach_eq_self htrace] at hkeep
        exact hkeep (.inl htrace)
      · simp at hleaves
    · have hstep : step m ⟨.raise e, p :: rest, store, stack, profile⟩ =
          ⟨.raise e, rest, store, stack, profile⟩ := by
        cases p with
        | leave => exact absurd rfl hp
        | _ => rfl
      have hleave : p.isLeave = false := by
        cases p with
        | leave => exact absurd rfl hp
        | _ => rfl
      obtain ⟨e', t, hrun, hcause, hkeep⟩ := ih (e := e) stack
      refine ⟨e', t, ?_, hcause, ?_⟩
      · have hnext : run m (rest.length + 1) ⟨.raise e, p :: rest, store, stack, profile⟩ =
            run m rest.length (step m ⟨.raise e, p :: rest, store, stack, profile⟩) := rfl
        rw [hstep] at hnext
        exact hnext.trans hrun
      · rwa [activations_cons hleave]

theorem run_of_overflows {m : Setup} {s : State} {limit : Nat} (h : Overflows m s limit) :
    ∃ n t trace, run m n s = some (.error { cause := .stackOverflow limit, trace }, t) ∧
      ∀ floor, Balanced [] floor s → s.stack.depth ≤ limit →
        trace.map (·.names.length) = if limit = 0 then none else some limit := by
  obtain ⟨⟨cause, trace⟩, t, hrun, hcause, hkeep⟩ := run_raise h.control
  obtain rfl : cause = .stackOverflow limit := hcause.trans (CallStack.cause_attach ..)
  refine ⟨1 + (step m s).pending.length, t, trace, (run_steps ..).trans hrun, ?_⟩
  intro floor hb hd
  have hdepth : s.stack.depth = limit :=
    Nat.le_antisymm hd (CallStack.full?_eq_some_iff.1 h.full).2
  have hnames := s.stack.names_attach (.stackOverflow limit)
  rw [hdepth] at hnames
  rw [← hkeep ?_] at hnames
  · exact hnames
  by_cases hzero : limit = 0
  · obtain ⟨names, hstack, hcount⟩ := hb.names
    have hlen := floor.depth_addAll names
    rw [← hstack] at hlen
    simp only [activations_nil] at hcount
    rw [h.pending]
    exact .inr (by omega)
  · rw [if_neg hzero] at hnames
    obtain ⟨b, hb, -⟩ := Option.map_eq_some_iff.1 hnames
    exact .inl (by rw [hb]; rfl)

theorem run_withLimit {m : Setup} {s t : State} {low n : Nat} {high : Option Nat}
    {r : Except Failure Value} (hl : s.stack.limit = some low)
    (hle : ∀ limit, high = some limit → low ≤ limit) (h : run m n s = some (r, t))
    (hover : ∀ limit trace, r ≠ .error { cause := .stackOverflow limit, trace }) :
    run m n (s.withLimit high) = some (r, t.withLimit high) := by
  rcases steps_withLimit (m := m) hl hle n with hagree | ⟨j, hj, -, hoverflow⟩
  · rw [run_eq] at h ⊢
    obtain ⟨r', hr, heq⟩ := Option.map_eq_some_iff.1 h
    obtain ⟨rfl, rfl⟩ := Prod.mk.inj heq
    have hr' : ((steps m n s).withLimit high).result? = some r' := hr
    rw [hagree, hr']
    rfl
  · obtain ⟨k, u, trace, hrun, -⟩ := run_of_overflows hoverflow
    rw [← run_steps] at hrun
    exact absurd (run_unique h hrun).1 (hover low trace)

theorem run_of_deeper {m : Setup} {s : State} {floor : CallStack} {low k : Nat}
    {high : Option Nat} (hl : s.stack.limit = some low)
    (hle : ∀ limit, high = some limit → low ≤ limit) (hb : Balanced [] floor s)
    (hd : s.stack.depth ≤ low) (hk : low < (steps m k (s.withLimit high)).stack.depth) :
    ∃ n t trace, run m n s = some (.error { cause := .stackOverflow low, trace }, t) ∧
      trace.map (·.names.length) = if low = 0 then none else some low := by
  rcases steps_withLimit (m := m) hl hle k with hagree | ⟨j, hj, -, hoverflow⟩
  · have hdepth := steps_depth_le (m := m) hl hd k
    have hsame : ((steps m k s).withLimit high).stack.depth = (steps m k s).stack.depth := rfl
    rw [hagree, hsame] at hk
    omega
  · obtain ⟨n, t, trace, hrun, hnames⟩ := run_of_overflows hoverflow
    refine ⟨j + n, t, trace, (run_steps ..).trans hrun, ?_⟩
    exact hnames floor (hb.steps (within_nil m s j)) (steps_depth_le hl hd j)

theorem intPair_ne_stackOverflow {a b : Value} {cause : Cause} (h : intPair a b = .error cause)
    (limit : Nat) : cause ≠ .stackOverflow limit := by
  cases a <;> cases b <;> simp [intPair, Value.asInt] at h <;> simp [← h]

theorem arith_ne_stackOverflow {policy : Overflow} {operation : String}
    {word : Int64 → Int64 → Int64} {exact : Int → Int → Int} {a b : Value} {cause : Cause}
    (h : policy.arith operation word exact a b = .error cause) (limit : Nat) :
    cause ≠ .stackOverflow limit := by
  unfold Overflow.arith at h
  split at h
  · rename_i e he
    obtain rfl := Except.error.inj h
    exact intPair_ne_stackOverflow he limit
  · split at h
    · simp at h
    · split at h
      · simp at h
      · simp [← Except.error.inj h]

theorem apply_ne_stackOverflow {op : Primitive} {args : List Value} {policy : Overflow}
    {sink : SinkId} {s : Store} {cause : Cause}
    (h : (op.apply args policy sink s).1 = .error cause) (limit : Nat) :
    cause ≠ .stackOverflow limit := by
  unfold Primitive.apply at h
  split at h
  · exact arith_ne_stackOverflow h limit
  · exact arith_ne_stackOverflow h limit
  · exact arith_ne_stackOverflow h limit
  · rename_i a b
    cases hp : intPair a b with
    | ok p => simp [hp, Except.map] at h
    | error e =>
      simp only [hp, Except.map, Except.error.injEq] at h
      subst h
      exact intPair_ne_stackOverflow hp limit
  · simp at h
  · simp at h
  · rename_i v
    cases v <;> simp [Value.asBox] at h <;> simp [← h]
  · rename_i v w
    cases v <;> simp [Value.asBox] at h <;> simp [← h]
  · simp at h
  · simp [← Except.error.inj h]

theorem full?_of_raises {m : Setup} {s : State} {limit : Nat}
    (h : Raises m s (.stackOverflow limit)) : s.stack.full? = some limit := by
  generalize hcause : Cause.stackOverflow limit = cause at h
  cases h with
  | overflow control full =>
    obtain rfl := Cause.stackOverflow.inj hcause
    exact full
  | primitive control target length fails =>
    exact absurd hcause.symm (apply_ne_stackOverflow fails limit)
  | branch control pending fails =>
    subst hcause
    rename_i v _ _ _ _
    cases v <;> simp [Value.asBool] at fails
  | callee control pending fails =>
    subst hcause
    rename_i v _ _ _ _ _
    cases v <;> simp [Value.asClosure] at fails
  | _ => cases hcause

theorem steps_ne_stackOverflow {m : Setup} {s : State} (hl : s.stack.limit = none)
    (hs : ∀ e, s.control ≠ .raise e) (n : Nat) {e : Failure}
    (h : (steps m n s).control = .raise e) (limit : Nat) : e.cause ≠ .stackOverflow limit := by
  induction n generalizing e with
  | zero => exact absurd h (hs e)
  | succ n ih =>
    rw [steps_succ] at h
    intro hcause
    rcases raises_of_step h with ⟨e', he', hsame⟩ | hraises
    · exact ih he' (hsame ▸ hcause)
    · rw [hcause] at hraises
      have hfull := CallStack.full?_eq_some_iff.1 (full?_of_raises hraises)
      rw [steps_limit, hl] at hfull
      cases hfull.1

theorem deeper_of_overflow {m : Setup} {s t : State} {low n limit : Nat}
    {trace : Option Backtrace} (hl : s.stack.limit = some low) (hs : ∀ e, s.control ≠ .raise e)
    (h : run m n s = some (.error { cause := .stackOverflow limit, trace }, t)) :
    ∃ k, low < (steps m k (s.withLimit none)).stack.depth := by
  have hle : ∀ limit, (none : Option Nat) = some limit → low ≤ limit := by
    intro limit hlimit
    cases hlimit
  rcases steps_withLimit (m := m) hl hle n with hagree | ⟨j, hj, hagree, hoverflow⟩
  · rw [run_eq] at h
    obtain ⟨r, hr, heq⟩ := Option.map_eq_some_iff.1 h
    obtain ⟨rfl, -⟩ := Prod.mk.inj heq
    have hcontrol : ((steps m n s).withLimit none).control =
        .raise { cause := .stackOverflow limit, trace } := control_of_result? hr
    rw [← hagree] at hcontrol
    exact absurd rfl (steps_ne_stackOverflow (s := s.withLimit none) rfl hs n hcontrol limit)
  · refine ⟨j + 1, ?_⟩
    have hfull := (CallStack.full?_eq_some_iff.1 hoverflow.full).2
    have hdeeper := hoverflow.deeper none rfl
    rw [← hagree, ← steps_succ] at hdeeper
    omega

end Machine

open Machine

namespace Interpreter

/-- The interpreter in another mode; what integer overflow does stays as it was. -/
def inMode (i : Interpreter) (mode : Mode) : Interpreter :=
  { i with mode, stack := i.stack.withLimit mode.limit? }

def depthAt (i : Interpreter) (w : World) (t : Task) (k : Nat) : Nat :=
  match i.launch w t with
  | .error _ => i.stack.depth
  | .ok s => (steps (i.setup w.library) k s).stack.depth

def Outcome.Overflowed (o : Outcome) : Prop :=
  ∃ limit trace, o.result = .error { cause := .stackOverflow limit, trace }

theorem launch_inMode (i : Interpreter) (mode : Mode) (w : World) (t : Task) :
    (i.inMode mode).launch w t = (i.launch w t).map (·.withLimit mode.limit?) := by
  cases t with
  | invoke e => rfl
  | invokeWith e layout => rfl
  | call callee args =>
    simp only [launch]
    cases callee.asClosure with
    | ok closure => rfl
    | error cause => rfl

theorem launch_inMode_ok {i : Interpreter} {w : World} {t : Task} {s : State}
    (h : i.launch w t = .ok s) (mode : Mode) :
    (i.inMode mode).launch w t = .ok (s.withLimit mode.limit?) := by
  rw [launch_inMode, h]
  rfl

theorem launch_inMode_error {i : Interpreter} {w : World} {t : Task} {cause : Cause}
    (h : i.launch w t = .error cause) (mode : Mode) :
    (i.inMode mode).launch w t = .error cause := by
  rw [launch_inMode, h]
  rfl

theorem launch_ne_stackOverflow {i : Interpreter} {w : World} {t : Task} {cause : Cause}
    (h : i.launch w t = .error cause) (limit : Nat) : cause ≠ .stackOverflow limit := by
  cases t with
  | call callee args =>
    cases callee <;> simp [launch, Value.asClosure, Except.map] at h <;> simp [← h]
  | _ => simp [launch] at h

theorem perform_inMode {i : Interpreter} {w : World} {t : Task} {low high : Mode} {m : Nat}
    (hlow : low.limit? = some m) (hhigh : ∀ limit, high.limit? = some limit → m ≤ limit)
    {fuel : Nat} {o : Outcome} (h : (i.inMode low).perform fuel w t = some o)
    (hover : ¬ o.Overflowed) :
    (i.inMode high).perform fuel w t =
      some { o with interpreter := o.interpreter.inMode high } := by
  cases hs : i.launch w t with
  | error cause =>
    rw [perform_of_launch_error (launch_inMode_error hs low), Option.some.injEq] at h
    rw [perform_of_launch_error (launch_inMode_error hs high), ← h]
    rfl
  | ok s =>
    rw [perform_of_launch_ok (launch_inMode_ok hs low)] at h
    rw [perform_of_launch_ok (launch_inMode_ok hs high)]
    obtain ⟨r, u, hrun, rfl⟩ := runFrom_eq_some_iff.1 h
    have hrun' := run_withLimit hlow hhigh hrun fun limit trace hr => hover ⟨limit, trace, hr⟩
    exact runFrom_eq_some_iff.2 ⟨r, u.withLimit high.limit?, hrun', rfl⟩

theorem overflow_of_depthAt {i : Interpreter} {w : World} {t : Task} {low high : Mode} {m k : Nat}
    (hlow : low.limit? = some m) (hhigh : ∀ limit, high.limit? = some limit → m ≤ limit)
    (hroom : i.stack.depth ≤ m) (hk : m < (i.inMode high).depthAt w t k) :
    ∃ fuel o trace, (i.inMode low).perform fuel w t = some o ∧
      o.result = .error { cause := .stackOverflow m, trace } ∧
      trace.map (·.names.length) = (if m = 0 then none else some m) ∧
      o.interpreter.stack.depth = i.stack.depth := by
  cases hs : i.launch w t with
  | error cause =>
    simp only [depthAt, launch_inMode_error hs high] at hk
    exact absurd hk (Nat.not_lt.2 hroom)
  | ok s =>
    have hlaunch := launch_inMode_ok hs low
    have hdepth : (s.withLimit low.limit?).stack.depth ≤ m := by
      rw [stack_of_launch hlaunch]
      exact hroom
    simp only [depthAt, launch_inMode_ok hs high] at hk
    obtain ⟨n, u, trace, hrun, hnames⟩ :=
      run_of_deeper (s := s.withLimit low.limit?) hlow hhigh (balanced_launch hlaunch) hdepth hk
    have hperform : (i.inMode low).perform n w t = some _ :=
      (perform_of_launch_ok hlaunch n).trans (runFrom_eq_some_iff.2 ⟨_, u, hrun, rfl⟩)
    refine ⟨n, _, trace, hperform, rfl, hnames, ?_⟩
    obtain ⟨profile, hi⟩ := perform_interpreter hperform
    rw [hi]
    rfl

theorem depthAt_of_overflowed {i : Interpreter} {w : World} {t : Task} {low : Mode} {m fuel : Nat}
    {o : Outcome} (hlow : low.limit? = some m) (h : (i.inMode low).perform fuel w t = some o)
    (hover : o.Overflowed) : ∃ k, m < (i.inMode .interpret).depthAt w t k := by
  obtain ⟨limit, trace, hresult⟩ := hover
  cases hs : i.launch w t with
  | error cause =>
    rw [perform_of_launch_error (launch_inMode_error hs low), Option.some.injEq] at h
    rw [← h] at hresult
    simp only [refuse, Except.error.injEq, Failure.mk.injEq] at hresult
    exact absurd hresult.1 (launch_ne_stackOverflow hs limit)
  | ok s =>
    rw [perform_of_launch_ok (launch_inMode_ok hs low)] at h
    obtain ⟨r, u, hrun, rfl⟩ := runFrom_eq_some_iff.1 h
    obtain rfl : r = _ := hresult
    simp only [depthAt, launch_inMode_ok hs .interpret]
    have hraise := launch_ne_raise (launch_inMode_ok hs low)
    exact deeper_of_overflow (s := s.withLimit low.limit?) hlow hraise hrun

end Interpreter

open Interpreter

/-- A task overflows under a limit exactly if it has more active calls at some moment than the limit
allows; otherwise the limit makes no difference. -/
theorem recursion_limit_exact (i : Interpreter) (w : World) (t : Task) (low high : Mode) (m : Nat)
    (hlow : low.limit? = some m) (hhigh : ∀ limit, high.limit? = some limit → m ≤ limit) :
    (∀ fuel o, (i.inMode low).perform fuel w t = some o → ¬ o.Overflowed →
      (i.inMode high).perform fuel w t =
        some { o with interpreter := o.interpreter.inMode high }) ∧
    (∀ k, i.stack.depth ≤ m → m < (i.inMode high).depthAt w t k →
      ∃ fuel o trace, (i.inMode low).perform fuel w t = some o ∧
        o.result = .error { cause := .stackOverflow m, trace } ∧
        trace.map (·.names.length) = (if m = 0 then none else some m) ∧
        o.interpreter.stack.depth = i.stack.depth) ∧
    (∀ fuel o deepest, i.stack.depth ≤ m → (i.inMode .interpret).perform fuel w t = some o →
      (∀ k, (i.inMode .interpret).depthAt w t k ≤ deepest) →
      (∃ k, (i.inMode .interpret).depthAt w t k = deepest) →
      ((∃ fuel' o', (i.inMode low).perform fuel' w t = some o' ∧ o'.Overflowed) ↔
        m < deepest)) := by
  refine ⟨fun fuel o => perform_inMode hlow hhigh, fun k => overflow_of_depthAt hlow hhigh, ?_⟩
  intro fuel o deepest hroom hrun hle ⟨k, hk⟩
  constructor
  · rintro ⟨fuel', o', hrun', hover⟩
    obtain ⟨k', hk'⟩ := depthAt_of_overflowed hlow hrun' hover
    exact Nat.lt_of_lt_of_le hk' (hle k')
  · intro hlt
    have hfree : ∀ limit, Mode.interpret.limit? = some limit → m ≤ limit := by
      intro limit hlimit
      cases hlimit
    rw [← hk] at hlt
    obtain ⟨fuel', o', trace, hrun', hresult, -⟩ := overflow_of_depthAt hlow hfree hroom hlt
    exact ⟨fuel', o', hrun', m, trace, hresult⟩

def nestedWorld : World :=
  { library := ⟨#[{ name := "inner", params := [], body := .literal (.bool true), layout := {} },
      { name := "outer", params := [], body := .apply (.lambda ⟨0⟩) [] false ⟨0⟩, layout := {} }]⟩
    store := { sites := #[.fresh, .fresh] } }

/-- Two nested calls fit under a limit of two, and so under none; they do not fit under one. -/
theorem recursion_limit_exact_nested :
    (∃ o, (plainInterpreter.inMode .interpret).perform 20 nestedWorld nestedCall = some o ∧
      o.result = .ok (.bool true)) ∧
    ∃ fuel o trace, (plainInterpreter.inMode (.bounded 1)).perform fuel nestedWorld nestedCall =
        some o ∧ o.result = .error { cause := .stackOverflow 1, trace } := by
  have hfree : ∀ m limit, Mode.interpret.limit? = some limit → m ≤ limit := by
    intro m limit hlimit
    cases hlimit
  constructor
  · have hfits := (recursion_limit_exact plainInterpreter nestedWorld nestedCall (.bounded 2)
      .interpret 2 rfl (hfree 2)).1
    refine ⟨_, hfits 20 _ rfl ?_, rfl⟩
    rintro ⟨limit, trace, hresult⟩
    cases hresult
  · have hcut := (recursion_limit_exact plainInterpreter nestedWorld nestedCall (.bounded 1)
      .interpret 1 rfl (hfree 1)).2.1
    obtain ⟨fuel, o, trace, hrun, hresult, -⟩ := hcut 8 (by decide) (by decide)
    exact ⟨fuel, o, trace, hrun, hresult⟩

end TreeMachine
