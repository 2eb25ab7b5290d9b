import TreeMachine.Proofs.TailSimulation

set_option autoImplicit false

namespace TreeMachine

namespace Machine

theorem run_clear_of_run {m : Setup} {n : Nat} {s s' t : State} {r : Except Failure Value}
    (hrelated : Related s s') (hlimit : s'.stack.limit = none) (hrun : run m n s = some (r, t)) :
    ∃ n' r' t', run m.clear n' s' = some (r', t') ∧ SameEnd r t r' t' := by
  -- The outer induction is on the steps that are left of the run, the inner one on the work that
  -- the cleared run has pending while the run makes no step.
  induction n using Nat.strongRecOn generalizing s s' with
  | ind n ih =>
    induction hlength : s'.pending.length using Nat.strongRecOn generalizing s' with
    | ind length ihLength =>
      cases hrelated.advance (m := m) with
      | done q q' result result' same =>
        rw [run_eq, steps_of_result? result, result] at hrun
        obtain ⟨rfl, rfl⟩ := Prod.mk.inj (Option.some.inj hrun)
        exact ⟨0, q', s', by simp [run, runBy, result'], same⟩
      | overflow _ full _ _ =>
        have hfull := (CallStack.full?_eq_some_iff.1 full).1
        rw [hlimit] at hfull
        cases hfull
      | go a b busy _ _ progress related =>
        have hn : n ≠ 0 := by
          rintro rfl
          simp [run, runBy, busy] at hrun
        have hlimit' : (steps m.clear b s').stack.limit = none :=
          (steps_limit m.clear b s').trans hlimit
        have hrest : ∃ n' r' t', run m.clear n' (steps m.clear b s') = some (r', t') ∧
            SameEnd r t r' t' := by
          by_cases ha : a = 0
          · subst ha
            rcases progress with hzero | hshorter
            · omega
            · exact ihLength _ (hlength ▸ hshorter) related hlimit' rfl
          · exact ih (n - a) (by omega) related hlimit' (run_rest hrun a)
        obtain ⟨n', r', t', hrun', hsame⟩ := hrest
        refine ⟨b + n', r', t', ?_, hsame⟩
        rw [run_steps]
        exact hrun'

/-- What the cleared run does, the run does, unless the cleared run is cut off. -/
theorem run_of_run_clear {m : Setup} {n : Nat} {s s' t' : State} {r' : Except Failure Value}
    (hrelated : Related s s') (hrun : run m.clear n s' = some (r', t'))
    (hover : ∀ limit trace, r' ≠ .error { cause := .stackOverflow limit, trace }) :
    ∃ n' r t, run m n' s = some (r, t) ∧ SameEnd r t r' t' := by
  induction n using Nat.strongRecOn generalizing s s' with
  | ind n ih =>
    cases hrelated.advance (m := m) with
    | done q q' result result' same =>
      rw [run_eq, steps_of_result? result', result'] at hrun
      obtain ⟨rfl, rfl⟩ := Prod.mk.inj (Option.some.inj hrun)
      exact ⟨0, q, s, by simp [run, runBy, result], same⟩
    | overflow busy _ control cause =>
      obtain ⟨e', t, hraise, hcause, -⟩ := run_raise (m := m.clear) control
      obtain ⟨rfl, -⟩ := run_unique (run_rest hrun 1) hraise
      obtain ⟨cause', trace⟩ := e'
      obtain rfl : cause' = _ := hcause.trans cause
      exact absurd rfl (hover _ trace)
    | go a b _ busy' hb _ related =>
      have hn : n ≠ 0 := by
        rintro rfl
        simp [run, runBy, busy'] at hrun
      obtain ⟨n', r, t, hrun', hsame⟩ := ih (n - b) (by omega) related (run_rest hrun b)
      refine ⟨a + n', r, t, ?_, hsame⟩
      rw [run_steps]
      exact hrun'

end Machine

open Machine

namespace Interpreter

/-- The outcomes of a task and of the cleared task. -/
structure Outcome.SameMeaning (o o' : Outcome) : Prop where
  result : SameUpToTrace o.result o'.result
  world : o'.world = o.world.clear
  interpreter : o'.interpreter = { o.interpreter with profile := o'.interpreter.profile }
  profile : o'.interpreter.profile.map Profile.untailed =
    o.interpreter.profile.map Profile.untailed

theorem launch_clear (i : Interpreter) (w : World) (t : Task) :
    (∃ cause, i.launch w t = .error cause ∧ i.launch w.clear t.clear = .error cause) ∨
      ∃ s s', i.launch w t = .ok s ∧ i.launch w.clear t.clear = .ok s' ∧ Related s s' := by
  cases t with
  | invoke e => exact .inr ⟨_, _, rfl, rfl, .eval rfl rfl ⟨rfl, rfl, rfl, .nil _⟩⟩
  | invokeWith e layout => exact .inr ⟨_, _, rfl, rfl, .eval rfl rfl ⟨rfl, rfl, rfl, .nil _⟩⟩
  | call callee args =>
    simp only [launch, Task.clear]
    cases callee.asClosure with
    | error cause => exact .inl ⟨cause, rfl, rfl⟩
    | ok closure =>
      exact .inr ⟨_, _, rfl, rfl, .dispatch rfl rfl ⟨rfl, rfl, rfl, .loop (.nil _)⟩⟩

theorem sameMeaning_refuse (i : Interpreter) (w : World) (cause : Cause) :
    (i.refuse w cause).SameMeaning (i.refuse w.clear cause) := by
  refine ⟨.error rfl ?_, rfl, rfl, rfl⟩
  intro trace htrace
  cases htrace

theorem sameMeaning_of_sameEnd {i : Interpreter} {library : Library} {s s' : State}
    {r r' : Except Failure Value} (h : SameEnd r s r' s') :
    Outcome.SameMeaning
      { result := r
        interpreter := { i with stack := s.stack, profile := s.profile }
        world := { library, store := s.store } }
      { result := r'
        interpreter := { i with stack := s'.stack, profile := s'.profile }
        world := { library := library.clear, store := s'.store } } := by
  refine ⟨h.result, ?_, ?_, h.profile⟩
  · simp only [World.clear, h.store]
  · simp only [h.stack]

theorem perform_clear_of_perform {i : Interpreter} {w : World} {t : Task} {fuel : Nat}
    {o : Outcome} (hlimit : i.stack.limit = none) (h : i.perform fuel w t = some o) :
    ∃ fuel' o', i.perform fuel' w.clear t.clear = some o' ∧ o.SameMeaning o' := by
  rcases i.launch_clear w t with ⟨cause, hs, hs'⟩ | ⟨s, s', hs, hs', hrelated⟩
  · rw [perform_of_launch_error hs, Option.some.injEq] at h
    subst h
    exact ⟨0, _, perform_of_launch_error hs' 0, i.sameMeaning_refuse w cause⟩
  · rw [perform_of_launch_ok hs] at h
    obtain ⟨r, u, hrun, rfl⟩ := runFrom_eq_some_iff.1 h
    have hfree : s'.stack.limit = none := by rw [stack_of_launch hs', hlimit]
    obtain ⟨n', r', u', hrun', hsame⟩ := run_clear_of_run hrelated hfree hrun
    exact ⟨n', _, (perform_of_launch_ok hs' n').trans (runFrom_eq_some_iff.2 ⟨r', u', hrun', rfl⟩),
      sameMeaning_of_sameEnd hsame⟩

theorem perform_of_perform_clear {i : Interpreter} {w : World} {t : Task} {fuel : Nat}
    {o' : Outcome} (h : i.perform fuel w.clear t.clear = some o') (hover : ¬ o'.Overflowed) :
    ∃ fuel' o, i.perform fuel' w t = some o ∧ o.SameMeaning o' := by
  rcases i.launch_clear w t with ⟨cause, hs, hs'⟩ | ⟨s, s', hs, hs', hrelated⟩
  · rw [perform_of_launch_error hs', Option.some.injEq] at h
    subst h
    exact ⟨0, _, perform_of_launch_error hs 0, i.sameMeaning_refuse w cause⟩
  · rw [perform_of_launch_ok hs'] at h
    obtain ⟨r', u', hrun, rfl⟩ := runFrom_eq_some_iff.1 h
    obtain ⟨n', r, u, hrun', hsame⟩ := run_of_run_clear (m := i.setup w.library) hrelated hrun
      fun limit trace hr => hover ⟨limit, trace, hr⟩
    exact ⟨n', _, (perform_of_launch_ok hs n').trans (runFrom_eq_some_iff.2 ⟨r, u, hrun', rfl⟩),
      sameMeaning_of_sameEnd hsame⟩

theorem not_overflowed {i : Interpreter} {w : World} {t : Task} {fuel : Nat} {o : Outcome}
    (hlimit : i.stack.limit = none) (h : i.perform fuel w t = some o) : ¬ o.Overflowed := by
  rintro ⟨limit, trace, hresult⟩
  cases hs : i.launch w t with
  | error cause =>
    rw [perform_of_launch_error hs, Option.some.injEq] at h
    subst h
    simp only [refuse, Except.error.injEq, Failure.mk.injEq] at hresult
    exact launch_ne_stackOverflow hs limit hresult.1
  | ok s =>
    rw [perform_of_launch_ok hs] at h
    obtain ⟨r, u, hrun, rfl⟩ := runFrom_eq_some_iff.1 h
    obtain rfl : r = _ := hresult
    rw [run_eq] at hrun
    obtain ⟨r', hr, heq⟩ := Option.map_eq_some_iff.1 hrun
    obtain ⟨rfl, -⟩ := Prod.mk.inj heq
    have hfree : s.stack.limit = none := by rw [stack_of_launch hs, hlimit]
    exact steps_ne_stackOverflow hfree (launch_ne_raise hs) fuel (control_of_result? hr) limit rfl

end Interpreter

open Interpreter

/-- Without a limit a task and its cleared version end alike, and under a limit the task ends like
the cleared one unless that overflows. -/
theorem tail_calls_preserve_meaning (i : Interpreter) (w : World) (t : Task) :
    (i.stack.limit = none →
      (∀ fuel o, i.perform fuel w t = some o →
        ∃ fuel' o', i.perform fuel' w.clear t.clear = some o' ∧ o.SameMeaning o') ∧
      (∀ fuel o', i.perform fuel w.clear t.clear = some o' →
        ∃ fuel' o, i.perform fuel' w t = some o ∧ o.SameMeaning o')) ∧
    (∀ fuel o', i.perform fuel w.clear t.clear = some o' → ¬ o'.Overflowed →
      ∃ fuel' o, i.perform fuel' w t = some o ∧ o.SameMeaning o') := by
  refine ⟨fun hlimit => ⟨fun fuel o => perform_clear_of_perform hlimit, fun fuel o' h => ?_⟩,
    fun fuel o' => perform_of_perform_clear⟩
  exact perform_of_perform_clear h (not_overflowed hlimit h)

/-- Counts down by a call of the code itself, and gives unit when less than one is left. -/
def countdownBody (tail : Bool) : Expr :=
  .ite (.apply (.literal (.closure ⟨⟨1⟩, none⟩)) [.read ⟨0, "n"⟩ 0, .literal (.int 1)] false ⟨0⟩)
    (.literal .unit)
    (.apply (.literal (.closure ⟨⟨0⟩, none⟩))
      [.apply (.literal (.closure ⟨⟨2⟩, none⟩)) [.read ⟨0, "n"⟩ 0, .literal (.int 1)] false ⟨1⟩]
      tail ⟨2⟩)

def countdownWorld (tail : Bool) : World :=
  { library := ⟨#[⟨"loop", [⟨0, "n"⟩], countdownBody tail, ⟨#["n"]⟩⟩]⟩
    store := { cells := #[⟨"loop", .lambda ⟨0⟩, 0⟩, ⟨"lt", .primitive .lt, 0⟩,
                 ⟨"sub", .primitive .sub, 0⟩]
               sites := #[.fresh, .fresh, .fresh] } }

def countdown (n : Int64) : Task := .call (.closure ⟨⟨0⟩, none⟩) [.int n]

theorem countdownWorld_clear : (countdownWorld true).clear = countdownWorld false := by
  simp [World.clear, Library.clear, Code.clear, countdownWorld, countdownBody, Expr.clear,
    Expr.clearAll]

/-- Under a limit of two the loop ends where the cleared loop overflows. The cleared loop ends
without a limit, or when it counts down from one. -/
theorem tail_calls_preserve_meaning_countdown :
    (∃ o, (plainInterpreter.inMode (.bounded 2)).perform 80 (countdownWorld true) (countdown 2) =
      some o ∧ o.result = .ok .unit) ∧
    (∃ o, (plainInterpreter.inMode (.bounded 2)).perform 80 (countdownWorld true).clear
        (countdown 2).clear = some o ∧
      o.result = .error { cause := .stackOverflow 2, trace := some ⟨["loop", "loop"]⟩ }) ∧
    (∃ fuel o, plainInterpreter.perform fuel (countdownWorld true).clear (countdown 2).clear =
      some o ∧ o.result = .ok .unit) ∧
    ∃ fuel o, (plainInterpreter.inMode (.bounded 2)).perform fuel (countdownWorld true)
      (countdown 1) = some o ∧ o.result = .ok .unit := by
  obtain ⟨hfree, -⟩ := tail_calls_preserve_meaning plainInterpreter (countdownWorld true)
    (countdown 2)
  obtain ⟨-, hlimited⟩ := tail_calls_preserve_meaning (plainInterpreter.inMode (.bounded 2))
    (countdownWorld true) (countdown 1)
  rw [countdownWorld_clear] at hfree hlimited ⊢
  refine ⟨⟨_, rfl, rfl⟩, ⟨_, rfl, rfl⟩, ?_, ?_⟩
  · obtain ⟨fuel, o, ho, hsame⟩ := (hfree rfl).1 80 _ rfl
    exact ⟨fuel, o, ho, hsame.result.eq_ok_iff.1 rfl⟩
  · obtain ⟨fuel, o, ho, hsame⟩ := hlimited 80 _ rfl (by rintro ⟨limit, trace, h⟩; cases h)
    exact ⟨fuel, o, ho, hsame.result.eq_ok_iff.2 rfl⟩

end TreeMachine
