import TreeMachine.Interpreter

/-!
What a host does: it gives tasks to interpreters, and between them rebinds function cells. How a
task is performed is a parameter, so that two ways can be compared.
-/
set_option autoImplicit false

namespace TreeMachine
open Machine

inductive Task where
  | invoke (e : Expr)
  | invokeWith (e : Expr) (layout : Layout)
  | call (callee : Value) (args : List Value)

namespace Interpreter

def perform (fuel : Nat) (i : Interpreter) (w : World) : Task → Option Outcome
  | .invoke e => i.invoke fuel w e
  | .invokeWith e layout => i.invokeWith fuel w e layout
  | .call callee args => i.call fuel w callee args

/-- The state in which a task starts, or why it does not. -/
def launch (i : Interpreter) (w : World) : Task → Except Cause State
  | .invoke e =>
    .ok (i.start (w.store.addFrame (.activate {} none)).2 (.eval e ⟨w.store.frames.size⟩) [])
  | .invokeWith e layout =>
    .ok (i.start (w.store.addFrame (.activate layout none)).2 (.eval e ⟨w.store.frames.size⟩) [])
  | .call callee args =>
    callee.asClosure.map fun closure =>
      i.start w.store.addSite.2 (.dispatch ⟨⟨w.store.sites.size⟩, closure, args⟩) [.loop]

theorem launch_cases {i : Interpreter} {w : World} {t : Task} {s : State}
    (h : i.launch w t = .ok s) :
    (∃ store e frame, s = i.start store (.eval e frame) []) ∨
      ∃ store c, s = i.start store (.dispatch c) [.loop] := by
  cases t with
  | invoke e => exact .inl ⟨_, _, _, (Except.ok.inj h).symm⟩
  | invokeWith e layout => exact .inl ⟨_, _, _, (Except.ok.inj h).symm⟩
  | call callee args =>
    cases hc : callee.asClosure with
    | error e => simp [launch, hc, Except.map] at h
    | ok closure =>
      simp only [launch, hc, Except.map, Except.ok.injEq] at h
      exact .inr ⟨_, _, h.symm⟩

theorem launch_ne_raise {i : Interpreter} {w : World} {t : Task} {s : State}
    (h : i.launch w t = .ok s) (e : Failure) : s.control ≠ .raise e := by
  rcases launch_cases h with ⟨store, tree, frame, rfl⟩ | ⟨store, c, rfl⟩
  · exact Control.noConfusion
  · exact Control.noConfusion

theorem stack_of_launch {i : Interpreter} {w : World} {t : Task} {s : State}
    (h : i.launch w t = .ok s) : s.stack = i.stack := by
  rcases launch_cases h with ⟨store, e, frame, rfl⟩ | ⟨store, c, rfl⟩
  · rfl
  · rfl

def refuse (i : Interpreter) (w : World) (cause : Cause) : Outcome :=
  { result := .error { cause }, interpreter := i, world := w }

theorem perform_of_launch_error {i : Interpreter} {w : World} {t : Task} {cause : Cause}
    (h : i.launch w t = .error cause) (fuel : Nat) :
    i.perform fuel w t = some (i.refuse w cause) := by
  cases t with
  | invoke e => simp [launch] at h
  | invokeWith e layout => simp [launch] at h
  | call callee args =>
    cases hc : callee.asClosure with
    | error e =>
      simp only [launch, hc, Except.map, Except.error.injEq] at h
      simp [perform, call, hc, refuse, h]
    | ok closure => simp [launch, hc, Except.map] at h

theorem perform_of_launch_ok {i : Interpreter} {w : World} {t : Task} {s : State}
    (h : i.launch w t = .ok s) (fuel : Nat) :
    i.perform fuel w t = i.runFrom fuel w.library s := by
  cases t with
  | invoke e =>
    obtain rfl := Except.ok.inj h
    rfl
  | invokeWith e layout =>
    obtain rfl := Except.ok.inj h
    rfl
  | call callee args =>
    cases hc : callee.asClosure with
    | error e => simp [launch, hc, Except.map] at h
    | ok closure =>
      simp only [launch, hc, Except.map, Except.ok.injEq] at h
      subst h
      simp only [perform, call, hc]
      rfl

theorem runFrom_eq_some_iff {fuel : Nat} {i : Interpreter} {library : Library} {s : State}
    {o : Outcome} :
    i.runFrom fuel library s = some o ↔
      ∃ r t, run (i.setup library) fuel s = some (r, t) ∧
        o = { result := r
              interpreter := { i with stack := t.stack, profile := t.profile }
              world := { library, store := t.store } } := by
  unfold runFrom
  cases h : run (i.setup library) fuel s with
  | none => simp
  | some rt =>
    obtain ⟨r, t⟩ := rt
    simp only [Option.some.injEq, Prod.mk.injEq]
    constructor
    · intro ho
      exact ⟨r, t, ⟨rfl, rfl⟩, ho.symm⟩
    · rintro ⟨r', t', ⟨rfl, rfl⟩, rfl⟩
      rfl

theorem perform_cases {fuel : Nat} {i : Interpreter} {w : World} {t : Task} {o : Outcome}
    (h : i.perform fuel w t = some o) :
    (∃ cause, i.launch w t = .error cause ∧ o = i.refuse w cause) ∨
      ∃ s r u, i.launch w t = .ok s ∧ steps (i.setup w.library) fuel s = u ∧ u.result? = some r ∧
        o = { result := r
              interpreter := { i with stack := u.stack, profile := u.profile }
              world := { w with store := u.store } } := by
  cases hs : i.launch w t with
  | error cause =>
    rw [perform_of_launch_error hs, Option.some.injEq] at h
    exact .inl ⟨cause, rfl, h.symm⟩
  | ok s =>
    rw [perform_of_launch_ok hs] at h
    obtain ⟨r, u, hrun, rfl⟩ := runFrom_eq_some_iff.1 h
    rw [run_eq] at hrun
    obtain ⟨r', hr, heq⟩ := Option.map_eq_some_iff.1 hrun
    obtain ⟨rfl, rfl⟩ := Prod.mk.inj heq
    exact .inr ⟨s, r', _, rfl, rfl, hr, rfl⟩

end Interpreter

/-- How a task is performed, given the fuel for it. -/
abbrev Engine := Nat → Interpreter → World → Task → Option Interpreter.Outcome

/-- The interpreters of a host and the world that they share. -/
structure Session where
  world : World
  interpreters : Nat → Interpreter

inductive HostStep where
  | bind (closure : Closure) (target : Target)
  | task (on : Nat) (t : Task)

namespace Session

def bind (s : Session) (closure : Closure) (target : Target) : Session :=
  { s with world := { s.world with store := s.world.store.bind closure.cell target } }

def resume (s : Session) (on : Nat) (o : Interpreter.Outcome) : Session :=
  { world := o.world
    interpreters := fun k => if k = on then o.interpreter else s.interpreters k }

def step (engine : Engine) (fuel : Nat) (s : Session) :
    HostStep → Option (Option (Except Failure Value) × Session)
  | .bind closure target => some (none, s.bind closure target)
  | .task on t =>
    (engine fuel (s.interpreters on) s.world t).map fun o => (some o.result, s.resume on o)

def run (engine : Engine) (fuel : Nat) (s : Session) :
    List HostStep → Option (List (Option (Except Failure Value)) × Session)
  | [] => some ([], s)
  | a :: as =>
    (s.step engine fuel a).bind fun (r, s') =>
      (s'.run engine fuel as).map fun (rs, s'') => (r :: rs, s'')

theorem run_cons_eq_some {engine : Engine} {fuel : Nat} {s s'' : Session} {a : HostStep}
    {as : List HostStep} {rs : List (Option (Except Failure Value))}
    (h : s.run engine fuel (a :: as) = some (rs, s'')) :
    ∃ r s' rest, s.step engine fuel a = some (r, s') ∧
      s'.run engine fuel as = some (rest, s'') ∧ rs = r :: rest := by
  simp only [run, Option.bind_eq_some_iff, Option.map_eq_some_iff] at h
  obtain ⟨⟨r, s'⟩, hstep, ⟨rest, t⟩, hrun, heq⟩ := h
  obtain ⟨rfl, rfl⟩ := Prod.mk.inj heq
  exact ⟨r, s', rest, hstep, hrun, rfl⟩

/-- What every step keeps holds after a run. -/
theorem run_invariant {engine : Engine} {fuel : Nat} {P : Session → Prop} {as : List HostStep}
    (hstep : ∀ a ∈ as, ∀ s r s', P s → s.step engine fuel a = some (r, s') → P s')
    {s s' : Session} {rs : List (Option (Except Failure Value))} (hs : P s)
    (h : s.run engine fuel as = some (rs, s')) : P s' := by
  induction as generalizing s rs with
  | nil =>
    obtain ⟨rfl, rfl⟩ := Prod.mk.inj (Option.some.inj h)
    exact hs
  | cons a as ih =>
    obtain ⟨r, t, rest, hfirst, hrest, rfl⟩ := run_cons_eq_some h
    have ht : P t := hstep a (by simp) s r t hs hfirst
    exact ih (fun b hb => hstep b (by simp [hb])) ht hrest

end Session

def plainInterpreter : Interpreter :=
  { mode := .interpret, overflow := .wrapping, cacheSize := 2, stack := {}, profile := none
    sink := ⟨0⟩ }

def plainSession (world : World) : Session :=
  { world, interpreters := fun _ => plainInterpreter }

end TreeMachine
