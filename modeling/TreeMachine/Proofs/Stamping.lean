import TreeMachine.Proofs.RecursionLimit

/-!
The machine that stamps failures: it gives every failure its trace in the step in which it arises,
and passes it on unchanged.
-/
set_option autoImplicit false

namespace TreeMachine

namespace CallStack

/-- A failure with the calls that are active, or without a trace if there are none. -/
def stamp (s : CallStack) (cause : Cause) : Failure :=
  { cause, trace := if s.isEmpty then none else some s.capture }

theorem attach_bare (s : CallStack) (cause : Cause) : s.attach { cause } = s.stamp cause := by
  unfold attach stamp
  cases s.isEmpty with
  | true => rfl
  | false => rfl

theorem attach_stamp (s : CallStack) (cause : Cause) :
    s.attach (s.stamp cause) = s.stamp cause := by
  cases h : s.isEmpty with
  | true => exact attach_of_isEmpty _ h
  | false => exact attach_eq_self (by simp [stamp, h])

theorem trace_isSome_attach {s : CallStack} (h : s.isEmpty = false) (e : Failure) :
    (s.attach e).trace.isSome = true := by
  unfold attach
  cases he : e.trace.isSome with
  | true => simpa using he
  | false => simp [h]

end CallStack

namespace Machine

def State.stamped (s : State) : State :=
  match s.control with
  | .raise e => { s with control := .raise (s.stack.attach e) }
  | _ => s

theorem stamped_of_raise {s : State} {e : Failure} (h : s.control = .raise e) :
    s.stamped = { s with control := .raise (s.stack.attach e) } := by
  simp only [State.stamped, h]

theorem stamped_of_ne_raise {s : State} (h : ∀ e, s.control ≠ .raise e) : s.stamped = s := by
  unfold State.stamped
  split
  · rename_i e he
    exact absurd he (h e)
  · rfl

namespace Stamping

def raiseStep (s : State) : State :=
  match s.pending with
  | [] => s
  | .leave :: rest => { s with pending := rest, stack := s.stack.pop }
  | _ :: rest => { s with pending := rest }

/-- Gives a failure that arose in this step the calls that are active now, and no others. -/
def mark (s : State) : State :=
  match s.control with
  | .raise e => { s with control := .raise (s.stack.stamp e.cause) }
  | _ => s

def step (m : Setup) (s : State) : State :=
  match s.control with
  | .raise _ => raiseStep s
  | _ => mark (Machine.step m s)

def run (m : Setup) : Nat → State → Option (Except Failure Value × State) := runBy (step m)

end Stamping

/-- If the state has a failure, it arose in the last step: what trace it has is that of the calls
that are active. -/
def Arises (t : State) : Prop :=
  ∀ f, t.control = .raise f → t.stack.attach f = t.stack.stamp f.cause

theorem arises_of_ne {t : State} (h : ∀ f, t.control ≠ .raise f) : Arises t :=
  fun f hf => absurd hf (h f)

theorem arises_bare {t : State} {cause : Cause} (h : t.control = .raise { cause }) : Arises t := by
  intro f hf
  obtain rfl := Control.raise.inj (h.symm.trans hf)
  exact t.stack.attach_bare cause

theorem arises_failHere (s : State) (cause : Cause) : Arises (s.failHere cause) := by
  intro f hf
  obtain rfl := Control.raise.inj hf
  simp only [State.failHere, CallStack.attach_bare]
  exact s.stack.attach_stamp cause

theorem arises_evalStep (m : Setup) (s : State) (e : Expr) (frame : FrameId) :
    Arises (evalStep m s e frame) := by
  cases e with
  | read slot depth =>
    simp only [evalStep]
    cases s.store.read frame slot depth with
    | ok v => exact arises_of_ne fun _ => Control.noConfusion
    | error fault => exact arises_bare rfl
  | begin items =>
    cases items with
    | nil => exact arises_of_ne fun _ => Control.noConfusion
    | cons first rest =>
      cases rest with
      | nil => exact arises_of_ne fun _ => Control.noConfusion
      | cons second rest => exact arises_of_ne fun _ => Control.noConfusion
  | _ => exact arises_of_ne fun _ => Control.noConfusion

theorem arises_yieldStep {s : State} {v : Value} (hc : s.control = .yield v) :
    Arises (yieldStep s v) := by
  have hkeep : ∀ t : State, t.control = s.control → Arises t := by
    intro t ht
    refine arises_of_ne fun f hf => ?_
    rw [ht, hc] at hf
    cases hf
  cases hp : s.pending with
  | nil =>
    simp only [yieldStep, hp]
    exact hkeep s rfl
  | cons p rest =>
    cases p with
    | store slot depth frame =>
      simp only [yieldStep, hp]
      cases s.store.write frame slot depth v with
      | ok store => exact arises_of_ne fun _ => Control.noConfusion
      | error fault => exact arises_bare rfl
    | branch t e frame =>
      simp only [yieldStep, hp]
      cases v.asBool with
      | ok b => exact arises_of_ne fun _ => Control.noConfusion
      | error cause => exact arises_bare rfl
    | sequence items frame =>
      simp only [yieldStep, hp]
      exact arises_of_ne fun _ => Control.noConfusion
    | callee site tail args frame =>
      simp only [yieldStep, hp]
      cases v.asClosure with
      | ok closure => exact arises_of_ne (operands_control_ne_raise _ _ _ _ _ _ _)
      | error cause => exact arises_bare rfl
    | operand site tail closure done args frame =>
      simp only [yieldStep, hp]
      exact arises_of_ne (operands_control_ne_raise _ _ _ _ _ _ _)
    | loop =>
      simp only [yieldStep, hp]
      exact hkeep _ rfl
    | leave =>
      simp only [yieldStep, hp]
      exact hkeep _ rfl

theorem arises_transfer (m : Setup) (s : State) (target : Target) (c : Call) :
    Arises (transfer m s target c) := by
  unfold transfer
  dsimp only
  split
  · exact arises_bare rfl
  · split
    · exact arises_failHere _ _
    · cases target with
      | primitive op =>
        simp only [operate]
        cases (op.apply c.args m.overflow m.sink s.store).1 with
        | ok v => exact arises_of_ne fun _ => Control.noConfusion
        | error cause => exact arises_failHere _ _
      | lambda code =>
        simp only [enter]
        split
        · exact arises_failHere _ _
        · split
          · exact arises_bare rfl
          · exact arises_of_ne fun _ => Control.noConfusion
      | unbound => exact arises_bare rfl

theorem arises_step {m : Setup} {s : State} (h : ∀ e, s.control ≠ .raise e) :
    Arises (step m s) := by
  unfold step
  cases hc : s.control with
  | eval e frame => exact arises_evalStep m s e frame
  | yield v => exact arises_yieldStep hc
  | tailCall c => exact arises_of_ne (tailCallStep_control_ne_raise hc)
  | dispatch c =>
    dsimp only
    rcases dispatchStep_cases m c s.store with ⟨-, hfail⟩ | ⟨-, found, site, hfound⟩
    · rw [hfail s rfl]
      exact arises_bare rfl
    · rw [hfound s rfl]
      exact arises_transfer _ _ _ _
  | raise e => exact absurd hc (h e)

theorem mark_of_arises {t : State} (h : Arises t) : Stamping.mark t = t.stamped := by
  unfold Stamping.mark State.stamped
  split
  · rename_i e he
    rw [h e he]
  · rfl

theorem stamped_raiseStep {floor : CallStack} {s : State} {e : Failure}
    (hb : Balanced [] floor s) (hc : s.control = .raise e) :
    (raiseStep s e).stamped = Stamping.raiseStep s.stamped := by
  rw [stamped_of_raise hc]
  cases hp : s.pending with
  | nil =>
    simp only [raiseStep, Stamping.raiseStep, hp]
    rw [stamped_of_raise hc, hp]
  | cons p rest =>
    cases p with
    | leave =>
      have hne := hb.isEmpty_eq_false hp List.nil_suffix
      simp only [raiseStep, Stamping.raiseStep, hp]
      rw [stamped_of_raise rfl, CallStack.attach_eq_self (CallStack.trace_isSome_attach hne e)]
    | _ =>
      simp only [raiseStep, Stamping.raiseStep, hp]
      exact stamped_of_raise hc

theorem attach_step {m : Setup} {floor : CallStack} {s : State} {e f : Failure}
    (hb : Balanced [] floor s) (hc : s.control = .raise e)
    (h : (step m s).control = .raise f) : (step m s).stack.attach f = s.stack.attach e := by
  have hstep : step m s = raiseStep s e := by simp only [step, hc]
  have hcontrol : ∀ u : State, (Stamping.raiseStep u).control = u.control := by
    intro u
    unfold Stamping.raiseStep
    split <;> rfl
  have hstamped := congrArg State.control (stamped_raiseStep hb hc)
  rw [← hstep, hcontrol, stamped_of_raise hc, stamped_of_raise h] at hstamped
  exact Control.raise.inj hstamped

theorem step_stamped {m : Setup} {floor : CallStack} {s : State} (hb : Balanced [] floor s) :
    Stamping.step m s.stamped = (step m s).stamped := by
  by_cases hr : ∃ e, s.control = .raise e
  · obtain ⟨e, hc⟩ := hr
    have hstep : step m s = raiseStep s e := by simp only [step, hc]
    rw [hstep, stamped_raiseStep hb hc, stamped_of_raise hc]
    rfl
  · have hne : ∀ e, s.control ≠ .raise e := fun e hc => hr ⟨e, hc⟩
    rw [stamped_of_ne_raise hne, ← mark_of_arises (arises_step hne)]
    unfold Stamping.step
    split
    · rename_i e he
      exact absurd he (hne e)
    · rfl

theorem stamped_of_pending {floor : CallStack} {s : State} (hb : Balanced [] floor s)
    (hfloor : floor.isEmpty = true) (hp : s.pending = []) : s.stamped = s := by
  have hstack := hb.stack_eq (by rw [hp])
  unfold State.stamped
  split
  · rename_i e he
    rw [hstack, CallStack.attach_of_isEmpty e hfloor, ← hstack, ← he]
  · rfl

theorem pending_stamped (s : State) : s.stamped.pending = s.pending := by
  unfold State.stamped
  split <;> rfl

theorem run_stamped {m : Setup} {floor : CallStack} {s : State} (hb : Balanced [] floor s)
    (hfloor : floor.isEmpty = true) (n : Nat) : Stamping.run m n s.stamped = run m n s := by
  have hresult : ∀ s, Balanced [] floor s →
      s.stamped.result?.map (·, s.stamped) = s.result?.map (·, s) := by
    intro s hb
    by_cases hp : s.pending = []
    · rw [stamped_of_pending hb hfloor hp]
    · have hp' : s.stamped.pending ≠ [] := by rwa [pending_stamped]
      rw [result?_of_pending hp, result?_of_pending hp']
      rfl
  have hrun : Stamping.run m n s.stamped = (run m n s).map (Prod.map id id) :=
    runBy_view State.stamped id (fun s hb => hb.of_shape (step_shape m s) List.nil_suffix)
      (fun s hb => step_stamped hb) hresult n hb
  simpa using hrun

end Machine

open Machine

def Stamping.perform : Engine := fun fuel i w t =>
  match i.launch w t with
  | .error cause =>
    some { result := .error (i.stack.stamp cause), interpreter := i, world := w }
  | .ok s =>
    (Machine.Stamping.run (i.setup w.library) fuel s).map fun (result, u) =>
      { result
        interpreter := { i with stack := u.stack, profile := u.profile }
        world := { library := w.library, store := u.store } }

namespace Interpreter

theorem isEmpty_of_depth {i : Interpreter} (h : i.stack.depth = 0) : i.stack.isEmpty = true := by
  simpa [CallStack.isEmpty, CallStack.depth] using h

theorem perform_stamping {i : Interpreter} (hidle : i.stack.depth = 0) (fuel : Nat) (w : World)
    (t : Task) : i.perform fuel w t = Stamping.perform fuel i w t := by
  have hempty := isEmpty_of_depth hidle
  unfold Stamping.perform
  cases hs : i.launch w t with
  | error cause =>
    rw [perform_of_launch_error hs]
    simp [refuse, CallStack.stamp, hempty]
  | ok s =>
    have hrun := run_stamped (m := i.setup w.library) (balanced_launch hs) hempty fuel
    rw [stamped_of_ne_raise (launch_ne_raise hs)] at hrun
    rw [perform_of_launch_ok hs, runFrom]
    dsimp only
    rw [hrun]
    cases run (i.setup w.library) fuel s with
    | none => rfl
    | some rt => rfl

end Interpreter

end TreeMachine
