import TreeMachine.Proofs.CallReturn
import TreeMachine.Proofs.Stamping
import TreeMachine.Proofs.TailFlags

set_option autoImplicit false

namespace TreeMachine

namespace Machine

/-- The name of the activation that the next step begins: the call has as many arguments as the code
takes, and the limit leaves room. -/
def begins? (m : Setup) (s : State) : Option String :=
  match s.control with
  | .dispatch c =>
    match (s.store.cell c.closure.cell).target with
    | .lambda id =>
      if c.args.length = (m.library.code id).arity ∧ s.stack.full? = none then
        some (if (s.store.cell c.closure.cell).name = "" then (m.library.code id).name
          else (s.store.cell c.closure.cell).name)
      else none
    | _ => none
  | _ => none

def ends (s : State) : Bool := s.control.isAnswer && s.pending.head?.any Pending.isLeave

/-- The activations that have begun and not ended after so many steps, the last begun first. -/
def active (m : Setup) (s : State) : Nat → List String
  | 0 => []
  | n + 1 =>
    match begins? m (steps m n s) with
    | some name => name :: active m s n
    | none => if ends (steps m n s) then (active m s n).tail else active m s n

inductive Calls (m : Setup) (s t : State) : Prop where
  | begin (name : String) (begins : begins? m s = some name) (stack : t.stack = s.stack.add name)
  | finish (begins : begins? m s = none) (ends : ends s = true) (stack : t.stack = s.stack.pop)
  | keep (begins : begins? m s = none) (ends : ends s = false) (stack : t.stack = s.stack)

theorem begins?_of_ne_dispatch {m : Setup} {s : State} (h : ∀ c, s.control ≠ .dispatch c) :
    begins? m s = none := by
  unfold begins?
  split
  · rename_i c hc
    exact absurd hc (h c)
  · rfl

theorem stack_evalStep (m : Setup) (s : State) (e : Expr) (frame : FrameId) :
    (evalStep m s e frame).stack = s.stack := by
  cases e with
  | read slot depth =>
    simp only [evalStep]
    cases s.store.read frame slot depth with
    | ok v => rfl
    | error fault => rfl
  | begin items =>
    cases items with
    | nil => rfl
    | cons first rest => cases rest <;> rfl
  | _ => rfl

theorem stack_operands (s : State) (site : SiteId) (tail : Bool) (closure : Closure)
    (done : List Value) (args : List Expr) (frame : FrameId) :
    (s.operands site tail closure done args frame).stack = s.stack := by
  cases args with
  | nil => cases tail <;> rfl
  | cons e es => rfl

theorem calls_of_answer {m : Setup} {s t : State} (ha : s.control.isAnswer = true)
    (hleave : ∀ rest, s.pending = .leave :: rest → t.stack = s.stack.pop)
    (hkeep : (∀ rest, s.pending ≠ .leave :: rest) → t.stack = s.stack) : Calls m s t := by
  have hbegins : begins? m s = none := by
    refine begins?_of_ne_dispatch fun c hc => ?_
    rw [hc] at ha
    cases ha
  cases hp : s.pending with
  | nil =>
    refine .keep hbegins (by simp [ends, hp]) (hkeep fun rest hrest => ?_)
    rw [hp] at hrest
    cases hrest
  | cons p rest =>
    cases p with
    | leave => exact .finish hbegins (by simp [ends, hp, ha, Pending.isLeave]) (hleave rest hp)
    | _ =>
      refine .keep hbegins (by simp [ends, hp, Pending.isLeave]) (hkeep fun rest hrest => ?_)
      rw [hp] at hrest
      cases hrest

theorem stack_yieldStep {s : State} (v : Value) (h : ∀ rest, s.pending ≠ .leave :: rest) :
    (yieldStep s v).stack = s.stack := by
  cases hp : s.pending with
  | nil => simp only [yieldStep, hp]
  | cons p rest =>
    cases p with
    | store slot depth frame =>
      simp only [yieldStep, hp]
      cases s.store.write frame slot depth v <;> rfl
    | branch t e frame =>
      simp only [yieldStep, hp]
      cases v.asBool <;> rfl
    | callee site tail args frame =>
      simp only [yieldStep, hp]
      cases v.asClosure with
      | ok closure => exact stack_operands ..
      | error cause => rfl
    | operand site tail closure done args frame =>
      simp only [yieldStep, hp]
      exact stack_operands ..
    | leave => exact absurd hp (h rest)
    | _ => simp only [yieldStep, hp]

theorem calls_dispatchStep {m : Setup} {s : State} {c : Call} (hc : s.control = .dispatch c) :
    Calls m s (dispatchStep m s c) := by
  have hends : ends s = false := by simp [ends, hc, Control.isAnswer]
  rcases dispatchStep_cases m c s.store with ⟨htarget, hfail⟩ | ⟨-, found, site, hfound⟩
  · rw [hfail s rfl]
    exact .keep (by simp only [begins?, hc, htarget]) hends rfl
  · rw [hfound s rfl]
    have hstack : (s.located c found site).stack = s.stack := rfl
    have hcell : (s.located c found site).store.cell = s.store.cell := rfl
    generalize s.located c found site = u at *
    cases htarget : (s.store.cell c.closure.cell).target with
    | unbound => exact .keep (by simp only [begins?, hc, htarget]) hends hstack
    | primitive op =>
      refine .keep (by simp only [begins?, hc, htarget]) hends ?_
      simp only [transfer, Target.arity?]
      split
      · exact hstack
      · simp only [operate]
        cases (op.apply c.args m.overflow m.sink u.store).1 with
        | ok v => exact hstack
        | error cause => exact hstack
    | lambda id =>
      simp only [transfer, Target.arity?]
      by_cases hlen : c.args.length = (m.library.code id).arity
      · rw [if_neg fun hne => hne hlen]
        cases hfull : s.stack.full? with
        | some limit =>
          rw [← hstack] at hfull
          rw [enter_of_full hfull]
          rw [hstack] at hfull
          exact .keep (by simp [begins?, hc, htarget, hfull]) hends hstack
        | none =>
          rw [← hstack] at hfull
          have hadd := (enter_of_room hfull (m.library.code id) c).2
          rw [hstack] at hfull
          rw [hstack, hcell] at hadd
          exact .begin _ (by simp only [begins?, hc, htarget, hlen, hfull, and_self, if_true]; rfl)
            hadd
      · rw [if_pos hlen]
        exact .keep (by simp [begins?, hc, htarget, hlen]) hends hstack

theorem step_calls (m : Setup) (s : State) : Calls m s (step m s) := by
  cases hc : s.control with
  | eval e frame =>
    simp only [step, hc]
    refine .keep (begins?_of_ne_dispatch fun c h => ?_) ?_ (stack_evalStep m s e frame)
    · rw [hc] at h
      cases h
    · simp [ends, hc, Control.isAnswer]
  | yield v =>
    simp only [step, hc]
    refine calls_of_answer (by rw [hc]; rfl) (fun rest hp => ?_) (stack_yieldStep v)
    simp only [yieldStep, hp]
  | tailCall c =>
    simp only [step, hc]
    refine calls_of_answer (by rw [hc]; rfl) (fun rest hp => ?_) (fun hp => ?_)
    · simp only [tailCallStep, hp]
    · unfold tailCallStep
      split
      · rename_i rest hrest
        exact absurd hrest (hp rest)
      · rfl
      · rfl
  | dispatch c =>
    simp only [step, hc]
    exact calls_dispatchStep hc
  | raise e =>
    simp only [step, hc]
    refine calls_of_answer (by rw [hc]; rfl) (fun rest hp => ?_) (fun hp => ?_)
    · simp only [raiseStep, hp]
    · unfold raiseStep
      split
      · rfl
      · rename_i rest hrest
        exact absurd hrest (hp rest)
      · rfl

theorem names_steps {m : Setup} {s : State} (h : s.stack.isEmpty = true) (n : Nat) :
    (steps m n s).stack.names = active m s n := by
  induction n with
  | zero =>
    rw [CallStack.isEmpty_eq_names, List.isEmpty_iff] at h
    exact h
  | succ n ih =>
    rw [steps_succ, active]
    cases step_calls m (steps m n s) with
    | begin name begins stack => rw [begins, stack, CallStack.names_add, ih]
    | finish begins ends stack =>
      rw [begins, stack, CallStack.names_pop, ih]
      simp only [ends, if_true]
    | keep begins ends stack =>
      rw [begins, stack, ih]
      simp [ends]

/-- The failure of this cause arises in the step after so many. -/
structure FailsAt (m : Setup) (s : State) (k : Nat) (cause : Cause) : Prop where
  raises : Raises m (steps m k s) cause
  before : ∀ e, (steps m k s).control ≠ .raise e
  after : ∃ e, (steps m (k + 1) s).control = .raise e ∧ e.cause = cause

theorem FailsAt.of_control {m : Setup} {s : State} {k : Nat} {e : Failure}
    (hbefore : ∀ e, (steps m k s).control ≠ .raise e)
    (hafter : (steps m (k + 1) s).control = .raise e) : FailsAt m s k e.cause := by
  have hstep := hafter
  rw [steps_succ] at hstep
  rcases raises_of_step hstep with ⟨e', he', -⟩ | hraises
  · exact absurd he' (hbefore e')
  · exact ⟨hraises, hbefore, e, hafter, rfl⟩

theorem failsAt_of_raise {m : Setup} {floor : CallStack} {s : State} {e : Failure} {n : Nat}
    (hb : Balanced [] floor s) (hs : ∀ e, s.control ≠ .raise e)
    (h : (steps m n s).control = .raise e) :
    ∃ k, FailsAt m s k e.cause ∧
      (steps m n s).stack.attach e = (steps m (k + 1) s).stack.stamp e.cause := by
  induction n generalizing e with
  | zero => exact absurd h (hs e)
  | succ n ih =>
    by_cases hr : ∃ e', (steps m n s).control = .raise e'
    · obtain ⟨e', he'⟩ := hr
      obtain ⟨k, hfails, hattach⟩ := ih he'
      rw [steps_succ] at h ⊢
      have hcause : e.cause = e'.cause := by
        rw [step, he'] at h
        exact cause_of_raiseStep he' h
      rw [attach_step (hb.steps (within_nil m s n)) he' h, hcause]
      exact ⟨k, hfails, hattach⟩
    · have hbefore : ∀ e, (steps m n s).control ≠ .raise e := fun e' he' => hr ⟨e', he'⟩
      refine ⟨n, .of_control hbefore h, ?_⟩
      rw [steps_succ] at h ⊢
      exact arises_step hbefore e h

def traceOf (names : List String) : Option Backtrace :=
  if names = [] then none else some ⟨names⟩

theorem trace_stamp (s : CallStack) (cause : Cause) : (s.stamp cause).trace = traceOf s.names := by
  simp only [CallStack.stamp, traceOf, CallStack.isEmpty_eq_names, List.isEmpty_iff]
  rfl

def Looped : List Pending → Prop
  | [] => True
  | .leave :: rest => (∃ base, rest = .loop :: base) ∧ Looped rest
  | _ :: rest => Looped rest

theorem looped_cons {p : Pending} (h : p.isLeave = false) (ps : List Pending) :
    Looped (p :: ps) ↔ Looped ps := by
  cases p with
  | leave => cases h
  | _ => exact Iff.rfl

theorem looped_append {new ps : List Pending} (hnew : activations new = 0) :
    Looped (new ++ ps) ↔ Looped ps := by
  induction new with
  | nil => exact Iff.rfl
  | cons p new ih =>
    have hp : p.isLeave = false := by
      cases hp : p.isLeave with
      | false => rfl
      | true => simp [activations, hp] at hnew
    rw [activations_cons hp] at hnew
    rw [List.cons_append, looped_cons hp, ih hnew]

theorem depth_add_ne (s : CallStack) (name : String) : s.add name ≠ s := by
  intro h
  have hdepth := congrArg CallStack.depth h
  rw [CallStack.depth_add] at hdepth
  omega

theorem depth_add_ne_pop (s : CallStack) (name : String) : s.add name ≠ s.pop := by
  intro h
  have hdepth := congrArg CallStack.depth h
  have hpop := s.depth_pop_le
  rw [CallStack.depth_add] at hdepth
  omega

theorem dispatch_of_begins {m : Setup} {s : State} {name : String}
    (h : begins? m s = some name) : ∃ c, s.control = .dispatch c := by
  refine Classical.byContradiction fun hne => ?_
  rw [begins?_of_ne_dispatch fun c hc => hne ⟨c, hc⟩] at h
  cases h

theorem looped_step {m : Setup} {s : State} (h : Looped s.pending)
    (hloop : ∀ c, s.control = .dispatch c → ∃ base, s.pending = .loop :: base) :
    Looped (step m s).pending := by
  cases step_shape m s with
  | grow new pending plain _ =>
    rw [pending]
    exact (looped_append plain).2 h
  | take p new rest _ top keeps pending plain _ =>
    rw [top] at h
    rw [pending]
    exact (looped_append plain).2 ((looped_cons keeps rest).1 h)
  | enter name _ pending stack =>
    -- Only a dispatch adds a name to the call stack.
    have hbegins : ∃ name, begins? m s = some name := by
      cases step_calls m s with
      | begin name begins _ => exact ⟨name, begins⟩
      | finish _ _ stack' => exact absurd (stack.symm.trans stack') (depth_add_ne_pop _ _)
      | keep _ _ stack' => exact absurd (stack.symm.trans stack') (depth_add_ne _ _)
    obtain ⟨name, hbegins⟩ := hbegins
    obtain ⟨c, hc⟩ := dispatch_of_begins hbegins
    rw [pending]
    exact ⟨hloop c hc, h⟩
  | leave _ top _ =>
    rw [top] at h
    exact h.2

theorem active_of_begins {m : Setup} {s : State} {k : Nat} {name : String}
    (h : begins? m (steps m k s) = some name) : active m s (k + 1) = name :: active m s k := by
  simp only [active, h]

theorem active_of_ends {m : Setup} {s : State} {k : Nat}
    (h : ends (steps m k s) = true) : active m s (k + 1) = (active m s k).tail := by
  have hnone : begins? m (steps m k s) = none := by
    refine begins?_of_ne_dispatch fun c hc => ?_
    simp [ends, hc, Control.isAnswer] at h
  simp [active, hnone, h]

theorem active_of_keep {m : Setup} {s : State} {k : Nat}
    (hbegins : begins? m (steps m k s) = none) (hends : ends (steps m k s) = false) :
    active m s (k + 1) = active m s k := by
  simp [active, hbegins, hends]

theorem dispatch_of_tailCall {m : Setup} {s : State} {k : Nat} {c : Call} {rest : List Pending}
    (hc : (steps m k s).control = .tailCall c) (hp : (steps m k s).pending = .leave :: rest)
    (hloop : Looped (steps m k s).pending) :
    (steps m (k + 2) s).control = .dispatch c ∧
      active m s (k + 2) = (active m s k).tail := by
  rw [hp] at hloop
  obtain ⟨⟨base, rfl⟩, -⟩ := hloop
  have hnext : steps m (k + 1) s =
      { steps m k s with pending := .loop :: base, stack := (steps m k s).stack.pop } := by
    rw [steps_succ]
    simp only [step, hc, tailCallStep, hp]
  have hc' : (steps m (k + 1) s).control = .tailCall c := by rw [hnext]; exact hc
  have hp' : (steps m (k + 1) s).pending = .loop :: base := by rw [hnext]
  constructor
  · rw [steps_succ]
    simp only [step, hc', tailCallStep, hp', State.count]
  · rw [active_of_keep, active_of_ends]
    · simp [ends, hc, hp, Control.isAnswer, Pending.isLeave]
    · refine begins?_of_ne_dispatch fun d hd => ?_
      rw [hc'] at hd
      cases hd
    · simp [ends, hp', Pending.isLeave]

theorem step_of_dispatch {m : Setup} {s : State} {c : Call} {id : CodeId}
    (hcontrol : s.control = .dispatch c)
    (htarget : (s.store.cell c.closure.cell).target = .lambda id) :
    ∃ found site, step m s = transfer m (s.located c found site) (.lambda id) c := by
  have hstep : step m s = dispatchStep m s c := by simp only [step, hcontrol]
  rcases dispatchStep_cases m c s.store with ⟨hunbound, -⟩ | ⟨-, found, site, hfound⟩
  · rw [htarget] at hunbound
    cases hunbound
  · exact ⟨found, site, by rw [hstep, hfound s rfl, htarget]⟩

theorem transfer_of_arity {m : Setup} {c : Call} {id : CodeId}
    (h : c.args.length = (m.library.code id).arity) (s : State) :
    transfer m s (.lambda id) c = enter s (m.library.code id) c := by
  have harity : ¬ c.args.length ≠ (m.library.code id).arity := fun hne => hne h
  simp only [transfer, Target.arity?, if_neg harity]

/-- The call goes to a code that takes so many arguments. -/
structure CallsCode (m : Setup) (s : State) (c : Call) (id : CodeId) : Prop where
  control : s.control = .dispatch c
  target : (s.store.cell c.closure.cell).target = .lambda id
  length : c.args.length = (m.library.code id).arity

namespace CallsCode

variable {m : Setup} {s : State} {c : Call} {id : CodeId} {k : Nat}

theorem step_eq (h : CallsCode m s c id) :
    ∃ found site, step m s = enter (s.located c found site) (m.library.code id) c := by
  obtain ⟨found, site, hstep⟩ := step_of_dispatch h.control h.target
  exact ⟨found, site, hstep.trans (transfer_of_arity h.length _)⟩

theorem begins (h : CallsCode m s c id) (hroom : s.stack.full? = none) :
    begins? m s = some (activationName (s.store.cell c.closure.cell) (m.library.code id)) := by
  simp only [begins?, h.control, h.target, h.length, hroom, and_self, if_true]
  rfl

theorem failsAt_param {slot : SlotId} {fault : SlotFault} (h : CallsCode m (steps m k s) c id)
    (hroom : (steps m k s).stack.full? = none)
    (hbind : (Frame.activate (m.library.code id).layout c.closure.env).bind
      (m.library.code id).params c.args = .error (slot, fault)) :
    FailsAt m s k (.invalidSlot slot.name 0 fault) ∧
      active m s (k + 1) = activationName ((steps m k s).store.cell c.closure.cell)
        (m.library.code id) :: active m s k := by
  refine ⟨?_, active_of_begins (h.begins hroom)⟩
  obtain ⟨found, site, hstep⟩ := h.step_eq
  have hafter : (steps m (k + 1) s).control =
      .raise { cause := .invalidSlot slot.name 0 fault } := by
    have hroom' : ((steps m k s).located c found site).stack.full? = none := hroom
    rw [steps_succ, hstep]
    simp only [enter, CallStack.push_of_room hroom', hbind, State.fail]
  refine FailsAt.of_control (fun e he => ?_) hafter
  rw [h.control] at he
  cases he

theorem failsAt_full {limit : Nat} (h : CallsCode m (steps m k s) c id)
    (hfull : (steps m k s).stack.full? = some limit) :
    FailsAt m s k (.stackOverflow limit) ∧ active m s (k + 1) = active m s k := by
  obtain ⟨found, site, hstep⟩ := h.step_eq
  constructor
  · have hafter : (steps m (k + 1) s).control =
        .raise ((steps m k s).stack.attach { cause := .stackOverflow limit }) := by
      rw [steps_succ, hstep]
      exact congrArg State.control
        (enter_of_full (s := (steps m k s).located c found site) hfull _ c)
    have hfails := FailsAt.of_control (fun e he => by rw [h.control] at he; cases he) hafter
    rwa [CallStack.cause_attach] at hfails
  · refine active_of_keep ?_ ?_
    · simp [begins?, h.control, h.target, hfull]
    · simp [ends, h.control, Control.isAnswer]

end CallsCode

end Machine

open Machine

namespace Interpreter

theorem looped_of_launch {i : Interpreter} {w : World} {t : Task} {s : State}
    (h : i.launch w t = .ok s) (m : Setup) (n : Nat) : Looped (steps m n s).pending := by
  induction n with
  | zero => rcases launch_cases h with ⟨store, e, frame, rfl⟩ | ⟨store, c, rfl⟩ <;> trivial
  | succ n ih =>
    rw [steps_succ]
    exact looped_step ih fun c hc => dispatch_of_launch h hc

theorem failsAt_of_run {i : Interpreter} {w : World} {t : Task} {s u : State} {m : Setup}
    {n : Nat} {e : Failure} (hs : i.launch w t = .ok s)
    (hrun : run m n s = some (.error e, u)) : ∃ k, FailsAt m s k e.cause := by
  rw [run_eq] at hrun
  obtain ⟨r, hr, heq⟩ := Option.map_eq_some_iff.1 hrun
  obtain ⟨rfl, -⟩ := Prod.mk.inj heq
  obtain ⟨k, hfails, -⟩ :=
    failsAt_of_raise (balanced_launch hs) (launch_ne_raise hs) (control_of_result? hr)
  exact ⟨k, hfails⟩

theorem trace_of_perform {i : Interpreter} (hidle : i.stack.depth = 0) {fuel : Nat} {w : World}
    {t : Task} {s : State} {o : Outcome} {e : Failure} (hs : i.launch w t = .ok s)
    (h : i.perform fuel w t = some o) (he : o.result = .error e) :
    ∃ k, FailsAt (i.setup w.library) s k e.cause ∧
      e.trace = traceOf (active (i.setup w.library) s (k + 1)) := by
  have hempty := isEmpty_of_depth hidle
  have hb := balanced_launch hs
  rw [perform_of_launch_ok hs] at h
  obtain ⟨r, u, hrun, rfl⟩ := runFrom_eq_some_iff.1 h
  obtain rfl : r = .error e := he
  rw [run_eq] at hrun
  obtain ⟨r, hr, heq⟩ := Option.map_eq_some_iff.1 hrun
  obtain ⟨rfl, rfl⟩ := Prod.mk.inj heq
  obtain ⟨k, hfails, hattach⟩ :=
    failsAt_of_raise hb (launch_ne_raise hs) (control_of_result? hr)
  have hstack := (hb.steps (within_nil (i.setup w.library) s fuel)).stack_eq
    (by rw [(answer_of_result? hr).1])
  rw [hstack, CallStack.attach_of_isEmpty e hempty] at hattach
  refine ⟨k, hfails, ?_⟩
  rw [hattach, trace_stamp, names_steps]
  rw [stack_of_launch hs]
  exact hempty

end Interpreter

/-- A failure lists the activations that had begun and not ended where it arose, the last begun
first, and has no trace if there were none. -/
theorem backtraces_exact (i : Interpreter) (w : World) (t : Task) (hidle : i.stack.depth = 0) :
    (∀ fuel, i.perform fuel w t = Stamping.perform fuel i w t) ∧
    (∀ cause, i.launch w t = .error cause → ∀ fuel o, i.perform fuel w t = some o →
      o.result = .error { cause, trace := none }) ∧
    (∀ s, i.launch w t = .ok s →
      (∀ fuel o e, i.perform fuel w t = some o → o.result = .error e →
        ∃ k, FailsAt (i.setup w.library) s k e.cause ∧
          e.trace = traceOf (active (i.setup w.library) s (k + 1))) ∧
      (∀ n, (steps (i.setup w.library) n s).stack.capture.names =
        active (i.setup w.library) s n) ∧
      (∀ k c rest, (steps (i.setup w.library) k s).control = .tailCall c →
        (steps (i.setup w.library) k s).pending = .leave :: rest →
        (steps (i.setup w.library) (k + 2) s).control = .dispatch c ∧
          active (i.setup w.library) s (k + 2) = (active (i.setup w.library) s k).tail) ∧
      (∀ k c id slot fault,
        CallsCode (i.setup w.library) (steps (i.setup w.library) k s) c id →
        (steps (i.setup w.library) k s).stack.full? = none →
        (Frame.activate (w.library.code id).layout c.closure.env).bind
          (w.library.code id).params c.args = .error (slot, fault) →
        FailsAt (i.setup w.library) s k (.invalidSlot slot.name 0 fault) ∧
          active (i.setup w.library) s (k + 1) =
            activationName ((steps (i.setup w.library) k s).store.cell c.closure.cell)
              (w.library.code id) :: active (i.setup w.library) s k) ∧
      (∀ k c id limit, CallsCode (i.setup w.library) (steps (i.setup w.library) k s) c id →
        (steps (i.setup w.library) k s).stack.full? = some limit →
        FailsAt (i.setup w.library) s k (.stackOverflow limit) ∧
          active (i.setup w.library) s (k + 1) = active (i.setup w.library) s k)) := by
  refine ⟨fun fuel => Interpreter.perform_stamping hidle fuel w t, ?_, ?_⟩
  · intro cause hs fuel o ho
    rw [Interpreter.perform_of_launch_error hs, Option.some.injEq] at ho
    rw [← ho]
    rfl
  · intro s hs
    refine ⟨?_, ?_, ?_, ?_, ?_⟩
    · intro fuel o e ho he
      exact Interpreter.trace_of_perform hidle hs ho he
    · intro n
      refine names_steps ?_ n
      rw [Interpreter.stack_of_launch hs]
      exact Interpreter.isEmpty_of_depth hidle
    · intro k c rest hc hp
      exact dispatch_of_tailCall hc hp (Interpreter.looped_of_launch hs _ k)
    · intro k c id slot fault hcalls hroom hbind
      exact hcalls.failsAt_param hroom hbind
    · intro k c id limit hcalls hfull
      exact hcalls.failsAt_full hfull

/-- The failure lists both calls, and only the inner one when that took the place of the outer. -/
theorem backtraces_exact_nested :
    plainInterpreter.stack.depth = 0 ∧
    (∃ o, Stamping.perform 20 plainInterpreter (failingWorld false) nestedCall = some o ∧
      o.result = .error
        { cause := .typeMismatch "bool" "unit", trace := some ⟨["inner", "outer"]⟩ }) ∧
    ∃ s k, plainInterpreter.launch (failingWorld true) nestedCall = .ok s ∧
      traceOf (active (plainInterpreter.setup (failingWorld true).library) s (k + 1)) =
        some ⟨["inner"]⟩ := by
  refine ⟨rfl, ?_, ?_⟩
  · have hstamps := (backtraces_exact plainInterpreter (failingWorld false) nestedCall rfl).1 20
    exact ⟨_, hstamps.symm.trans rfl, rfl⟩
  · obtain ⟨k, -, htrace⟩ := ((backtraces_exact plainInterpreter (failingWorld true) nestedCall
      rfl).2.2 _ rfl).1 20 _ { cause := .typeMismatch "bool" "unit", trace := some ⟨["inner"]⟩ }
        rfl rfl
    exact ⟨_, k, rfl, htrace.symm⟩

end TreeMachine
