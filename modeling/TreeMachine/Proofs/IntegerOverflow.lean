import Mathlib.Algebra.Ring.Int.Defs
import Mathlib.Algebra.Ring.Nat
import Mathlib.Data.Nat.Find
import TreeMachine.Proofs.RecursionLimit

set_option autoImplicit false

namespace TreeMachine

def FitsWord (z : Int) : Prop := -2 ^ 63 ≤ z ∧ z ≤ 2 ^ 63 - 1

instance (z : Int) : Decidable (FitsWord z) := inferInstanceAs (Decidable (_ ∧ _))

theorem bmod_eq_self_iff_fitsWord (z : Int) : z.bmod (2 ^ 64) = z ↔ FitsWord z := by
  simp only [FitsWord, Int.bmod_def]
  constructor
  · intro h
    split at h <;> omega
  · intro h
    split <;> omega

namespace Primitive

def exactResult? : Primitive → Int → Int → Option Int
  | add, a, b => some (a + b)
  | sub, a, b => some (a - b)
  | mul, a, b => some (a * b)
  | _, _, _ => none

theorem arity_of_exactResult? {op : Primitive} {a b z : Int} (h : op.exactResult? a b = some z) :
    op.arity = 2 := by
  cases op <;> simp [exactResult?] at h <;> rfl

theorem arith_trapping {operation : String} {word : Int64 → Int64 → Int64}
    {exact : Int → Int → Int} (a b : Int64)
    (hword : (word a b).toInt = (exact a.toInt b.toInt).bmod (2 ^ 64)) :
    Overflow.trapping.arith operation word exact (.int a) (.int b) =
      if FitsWord (exact a.toInt b.toInt) then
        Overflow.wrapping.arith operation word exact (.int a) (.int b)
      else .error (.arithmeticOverflow operation) := by
  simp only [Overflow.arith, intPair, Value.asInt, hword, bmod_eq_self_iff_fitsWord]

theorem apply_trapping {op : Primitive} {a b : Int64} {z : Int}
    (h : op.exactResult? a.toInt b.toInt = some z) (sink : SinkId) (s : Store) :
    op.apply [.int a, .int b] .trapping sink s =
      if FitsWord z then op.apply [.int a, .int b] .wrapping sink s
      else (.error (.arithmeticOverflow op.name), s) := by
  cases op with
  | add =>
    obtain rfl := Option.some.inj h
    simp only [apply, arith_trapping a b (Int64.toInt_add a b)]
    split <;> rfl
  | sub =>
    obtain rfl := Option.some.inj h
    simp only [apply, arith_trapping a b (Int64.toInt_sub a b)]
    split <;> rfl
  | mul =>
    obtain rfl := Option.some.inj h
    simp only [apply, arith_trapping a b (Int64.toInt_mul a b)]
    split <;> rfl
  | _ => cases h

theorem arith_policy {operation : String} {word : Int64 → Int64 → Int64}
    {exact : Int → Int → Int} {a b : Value} (h : ∀ m n, a = .int m → b ≠ .int n) :
    Overflow.trapping.arith operation word exact a b =
      Overflow.wrapping.arith operation word exact a b := by
  cases a with
  | int m =>
    cases b with
    | int n => exact absurd rfl (h m n rfl)
    | _ => rfl
  | _ => rfl

theorem apply_policy {op : Primitive} {args : List Value}
    (h : ∀ a b, args = [.int a, .int b] → op.exactResult? a.toInt b.toInt = none) (sink : SinkId)
    (s : Store) : op.apply args .trapping sink s = op.apply args .wrapping sink s := by
  have harith : ∀ a b, args = [a, b] → op.exactResult? 0 0 ≠ none →
      ∀ m n, a = .int m → b ≠ .int n := by
    rintro a b rfl hop m n rfl rfl
    have hnone := h m n rfl
    cases op <;> simp [exactResult?] at hnone hop
  unfold apply
  split
  · rw [arith_policy (harith _ _ rfl (by simp [exactResult?]))]
  · rw [arith_policy (harith _ _ rfl (by simp [exactResult?]))]
  · rw [arith_policy (harith _ _ rfl (by simp [exactResult?]))]
  all_goals rfl

end Primitive

namespace Machine

def Setup.withOverflow (m : Setup) (policy : Overflow) : Setup := { m with overflow := policy }

/-- The next step applies an arithmetic operation to two integers, with this exact result. -/
structure Computes (s : State) (op : Primitive) (z : Int) : Prop where
  call : ∃ c a b, s.control = .dispatch c ∧
    (s.store.cell c.closure.cell).target = .primitive op ∧ c.args = [.int a, .int b] ∧
    op.exactResult? a.toInt b.toInt = some z

def Exceeds (s : State) (op : Primitive) : Prop := ∃ z, Computes s op z ∧ ¬ FitsWord z

theorem operate_withOverflow (m : Setup) (s : State) (op : Primitive) (args : List Value) :
    operate (m.withOverflow .trapping) s op args = operate (m.withOverflow .wrapping) s op args ∨
      ∃ a b z, args = [.int a, .int b] ∧ op.exactResult? a.toInt b.toInt = some z ∧
        ¬ FitsWord z := by
  have hsame : op.apply args .trapping m.sink s.store = op.apply args .wrapping m.sink s.store →
      operate (m.withOverflow .trapping) s op args =
        operate (m.withOverflow .wrapping) s op args := by
    intro h
    simp only [operate, Setup.withOverflow, h]
  by_cases harith : ∃ a b z, args = [.int a, .int b] ∧ op.exactResult? a.toInt b.toInt = some z
  · obtain ⟨a, b, z, rfl, hz⟩ := harith
    by_cases hfits : FitsWord z
    · refine .inl (hsame ?_)
      rw [Primitive.apply_trapping hz, if_pos hfits]
    · exact .inr ⟨a, b, z, rfl, hz, hfits⟩
  · refine .inl (hsame (Primitive.apply_policy ?_ m.sink s.store))
    intro a b hargs
    rw [Option.eq_none_iff_forall_ne_some]
    intro z hz
    exact harith ⟨a, b, z, hargs, hz⟩

theorem transfer_withOverflow (m : Setup) (s : State) (target : Target) (c : Call) :
    transfer (m.withOverflow .trapping) s target c =
        transfer (m.withOverflow .wrapping) s target c ∨
      ∃ op a b z, target = .primitive op ∧ c.args = [.int a, .int b] ∧
        op.exactResult? a.toInt b.toInt = some z ∧ ¬ FitsWord z := by
  have harity : ∀ policy, target.arity? (m.withOverflow policy).library =
      target.arity? m.library := fun _ => rfl
  simp only [transfer, harity]
  cases target.arity? m.library with
  | none => exact .inl rfl
  | some arity =>
    dsimp only
    split
    · exact .inl rfl
    · cases target with
      | primitive op =>
        rcases operate_withOverflow m s op c.args with hsame | ⟨a, b, z, hargs, hz, hfits⟩
        · exact .inl hsame
        · exact .inr ⟨op, a, b, z, rfl, hargs, hz, hfits⟩
      | lambda code => exact .inl rfl
      | unbound => exact .inl rfl

/-- The policy decides about a step only where it computes a result that does not fit. -/
theorem step_withOverflow (m : Setup) (s : State) :
    step (m.withOverflow .trapping) s = step (m.withOverflow .wrapping) s ∨
      ∃ op, Exceeds s op := by
  unfold step
  cases hc : s.control with
  | dispatch c =>
    cases hout : (s.store.site c.site).lookup s.store.cell c.closure.cell m.cacheSize with
    | error cause =>
      have hfail : ∀ policy, dispatchStep (m.withOverflow policy) s c =
          (s.count Profile.call).fail cause := by
        intro policy
        simp only [dispatchStep, State.count, Setup.withOverflow, hout]
      exact .inl ((hfail .trapping).trans (hfail .wrapping).symm)
    | ok out =>
      obtain ⟨found, site⟩ := out
      have htransfer : ∀ policy, dispatchStep (m.withOverflow policy) s c =
          transfer (m.withOverflow policy) (s.located c found site) found.target c := by
        intro policy
        simp only [dispatchStep, State.count, State.located, Setup.withOverflow, hout]
      simp only [htransfer]
      rcases transfer_withOverflow m (s.located c found site) found.target c with
        hsame | ⟨op, a, b, z, htarget, hargs, hz, hfits⟩
      · exact .inl hsame
      · rw [CallSite.target_of_lookup hout] at htarget
        exact .inr ⟨op, z, ⟨c, a, b, hc, htarget, hargs, hz⟩, hfits⟩
  | eval e frame => exact .inl rfl
  | yield v => exact .inl rfl
  | tailCall c => exact .inl rfl
  | raise e => exact .inl rfl

theorem raise_of_exceeds {s : State} {op : Primitive} (h : Exceeds s op) (m : Setup) :
    ∃ e, (step (m.withOverflow .trapping) s).control = .raise e ∧
      e.cause = .arithmeticOverflow op.name := by
  obtain ⟨z, ⟨c, a, b, hc, htarget, hargs, hz⟩, hfits⟩ := h
  have hstep : step (m.withOverflow .trapping) s =
      dispatchStep (m.withOverflow .trapping) s c := by simp only [step, hc]
  rw [hstep]
  rcases dispatchStep_cases (m.withOverflow .trapping) c s.store with
    ⟨hunbound, -⟩ | ⟨-, found, site, hfound⟩
  · rw [htarget] at hunbound
    cases hunbound
  · rw [hfound s rfl, htarget]
    have hlength : ¬ c.args.length ≠ op.arity := by
      rw [hargs, Primitive.arity_of_exactResult? hz]
      simp
    have hfail : ∀ store, op.apply c.args .trapping m.sink store =
        (.error (.arithmeticOverflow op.name), store) := by
      intro store
      rw [hargs, Primitive.apply_trapping hz, if_neg hfits]
    simp only [transfer, Target.arity?, if_neg hlength, operate, Setup.withOverflow, hfail]
    exact ⟨_, rfl, CallStack.cause_attach ..⟩

theorem steps_withOverflow (m : Setup) (s : State) (n : Nat) :
    steps (m.withOverflow .trapping) n s = steps (m.withOverflow .wrapping) n s ∨
      ∃ j, j < n ∧
        steps (m.withOverflow .trapping) j s = steps (m.withOverflow .wrapping) j s ∧
        ∃ op, Exceeds (steps (m.withOverflow .wrapping) j s) op := by
  induction n with
  | zero => exact .inl rfl
  | succ n ih =>
    rcases ih with hagree | ⟨j, hj, hagree, hexceeds⟩
    · rcases step_withOverflow m (steps (m.withOverflow .wrapping) n s) with hstep | hexceeds
      · exact .inl (by rw [steps_succ, steps_succ, hagree, hstep])
      · exact .inr ⟨n, by omega, hagree, hexceeds⟩
    · exact .inr ⟨j, by omega, hagree, hexceeds⟩

theorem steps_eq_of_fits {m : Setup} {s : State} {n : Nat}
    (h : ∀ j < n, ∀ op, ¬ Exceeds (steps (m.withOverflow .wrapping) j s) op) :
    steps (m.withOverflow .trapping) n s = steps (m.withOverflow .wrapping) n s := by
  rcases steps_withOverflow m s n with hagree | ⟨j, hj, -, op, hexceeds⟩
  · exact hagree
  · exact absurd hexceeds (h j hj op)

theorem run_of_exceeds {m : Setup} {s : State} {j : Nat} {op : Primitive}
    (hagree : steps (m.withOverflow .trapping) j s = steps (m.withOverflow .wrapping) j s)
    (h : Exceeds (steps (m.withOverflow .wrapping) j s) op) :
    ∃ n t trace, run (m.withOverflow .trapping) n s =
      some (.error { cause := .arithmeticOverflow op.name, trace }, t) := by
  obtain ⟨e, hraise, hcause⟩ := raise_of_exceeds h m
  rw [← hagree, ← steps_succ] at hraise
  obtain ⟨⟨cause, trace⟩, t, hrun, hsame, -⟩ := run_raise (m := m.withOverflow .trapping) hraise
  obtain rfl : cause = .arithmeticOverflow op.name := hsame.trans hcause
  exact ⟨_, t, trace, (run_steps ..).trans hrun⟩

theorem run_wrapping_of_trapping {m : Setup} {s t : State} {n : Nat} {r : Except Failure Value}
    (h : run (m.withOverflow .trapping) n s = some (r, t))
    (htrap : ∀ operation trace, r ≠ .error { cause := .arithmeticOverflow operation, trace }) :
    run (m.withOverflow .wrapping) n s = some (r, t) := by
  rcases steps_withOverflow m s n with hagree | ⟨j, -, hagree, op, hexceeds⟩
  · rw [run_eq] at h ⊢
    rw [← hagree]
    exact h
  · obtain ⟨k, u, trace, hrun⟩ := run_of_exceeds hagree hexceeds
    exact absurd (run_unique h hrun).1 (htrap op.name trace)

end Machine

open Machine

namespace Interpreter

def withOverflow (i : Interpreter) (policy : Overflow) : Interpreter :=
  { i with overflow := policy }

/-- After so many steps the task computes this exact result. -/
def ComputesAt (i : Interpreter) (w : World) (t : Task) (k : Nat) (op : Primitive) (z : Int) :
    Prop :=
  ∃ s, i.launch w t = .ok s ∧ Computes (steps (i.setup w.library) k s) op z

def FitsBefore (i : Interpreter) (w : World) (t : Task) (k : Nat) : Prop :=
  ∀ j < k, ∀ op z, i.ComputesAt w t j op z → FitsWord z

def Outcome.Trapped (o : Outcome) (operation : String) : Prop :=
  ∃ trace, o.result = .error { cause := .arithmeticOverflow operation, trace }

theorem launch_withOverflow (i : Interpreter) (policy : Overflow) (w : World) (t : Task) :
    (i.withOverflow policy).launch w t = i.launch w t := by
  cases t with
  | invoke e => rfl
  | invokeWith e layout => rfl
  | call callee args => rfl

theorem perform_wrapping_of_trapping {i : Interpreter} {w : World} {t : Task} {fuel : Nat}
    {o : Outcome} (h : (i.withOverflow .trapping).perform fuel w t = some o)
    (htrap : ∀ operation, ¬ o.Trapped operation) :
    (i.withOverflow .wrapping).perform fuel w t =
      some { o with interpreter := o.interpreter.withOverflow .wrapping } := by
  cases hs : i.launch w t with
  | error cause =>
    rw [perform_of_launch_error ((i.launch_withOverflow _ w t).trans hs), Option.some.injEq] at h
    rw [perform_of_launch_error ((i.launch_withOverflow _ w t).trans hs), ← h]
    rfl
  | ok s =>
    rw [perform_of_launch_ok ((i.launch_withOverflow _ w t).trans hs)] at h ⊢
    obtain ⟨r, u, hrun, rfl⟩ := runFrom_eq_some_iff.1 h
    have hrun' := run_wrapping_of_trapping (m := i.setup w.library) hrun
      fun operation trace hr => htrap operation ⟨trace, hr⟩
    exact runFrom_eq_some_iff.2 ⟨r, u, hrun', rfl⟩

theorem not_exceeds_of_fits {i : Interpreter} {w : World} {t : Task} {s : State} {j k : Nat}
    (hs : i.launch w t = .ok s) (hfits : (i.withOverflow .wrapping).FitsBefore w t k)
    (hj : j < k) (op : Primitive) :
    ¬ Exceeds (steps ((i.setup w.library).withOverflow .wrapping) j s) op := by
  rintro ⟨z, hcomputes, hz⟩
  exact hz (hfits j hj op z ⟨s, (i.launch_withOverflow _ w t).trans hs, hcomputes⟩)

theorem perform_trapping_of_wrapping {i : Interpreter} {w : World} {t : Task} {fuel : Nat}
    {o : Outcome} (h : (i.withOverflow .wrapping).perform fuel w t = some o)
    (hfits : (i.withOverflow .wrapping).FitsBefore w t fuel) :
    (i.withOverflow .trapping).perform fuel w t =
      some { o with interpreter := o.interpreter.withOverflow .trapping } := by
  cases hs : i.launch w t with
  | error cause =>
    rw [perform_of_launch_error ((i.launch_withOverflow _ w t).trans hs), Option.some.injEq] at h
    rw [perform_of_launch_error ((i.launch_withOverflow _ w t).trans hs), ← h]
    rfl
  | ok s =>
    rw [perform_of_launch_ok ((i.launch_withOverflow _ w t).trans hs)] at h ⊢
    obtain ⟨r, u, hrun, rfl⟩ := runFrom_eq_some_iff.1 h
    have hagree := steps_eq_of_fits (m := i.setup w.library)
      fun j hj op => not_exceeds_of_fits hs hfits hj op
    have hrun' : run ((i.setup w.library).withOverflow .trapping) fuel s = some (r, u) := by
      rw [run_eq, hagree, ← run_eq]
      exact hrun
    exact runFrom_eq_some_iff.2 ⟨r, u, hrun', rfl⟩

theorem trapped_of_computesAt {i : Interpreter} {w : World} {t : Task} {k : Nat} {op : Primitive}
    {z : Int} (h : (i.withOverflow .wrapping).ComputesAt w t k op z) (hz : ¬ FitsWord z)
    (hfits : (i.withOverflow .wrapping).FitsBefore w t k) :
    ∃ fuel o, (i.withOverflow .trapping).perform fuel w t = some o ∧ o.Trapped op.name := by
  obtain ⟨s, hlaunch, hcomputes⟩ := h
  have hs : i.launch w t = .ok s := (i.launch_withOverflow _ w t).symm.trans hlaunch
  have hagree := steps_eq_of_fits (m := i.setup w.library)
    fun j hj op => not_exceeds_of_fits hs hfits hj op
  obtain ⟨n, u, trace, hrun⟩ := run_of_exceeds hagree ⟨z, hcomputes, hz⟩
  have hperform : (i.withOverflow .trapping).perform n w t = some _ :=
    (perform_of_launch_ok ((i.launch_withOverflow _ w t).trans hs) n).trans
      (runFrom_eq_some_iff.2 ⟨_, u, hrun, rfl⟩)
  exact ⟨n, _, hperform, trace, rfl⟩

end Interpreter

open Interpreter

/-- A task that traps and a task that wraps agree up to the first result that does not fit a word,
where the one that traps fails. -/
theorem overflow_policies_agree (i : Interpreter) (w : World) (t : Task) :
    (∀ fuel o, (i.withOverflow .trapping).perform fuel w t = some o →
      (∀ operation, ¬ o.Trapped operation) →
      (i.withOverflow .wrapping).perform fuel w t =
        some { o with interpreter := o.interpreter.withOverflow .wrapping }) ∧
    (∀ fuel o, (i.withOverflow .wrapping).perform fuel w t = some o →
      (∀ k op z, (i.withOverflow .wrapping).ComputesAt w t k op z → FitsWord z) →
      (i.withOverflow .trapping).perform fuel w t =
        some { o with interpreter := o.interpreter.withOverflow .trapping }) ∧
    ((∃ k op z, (i.withOverflow .wrapping).ComputesAt w t k op z ∧ ¬ FitsWord z) →
      ∃ k op z, (i.withOverflow .wrapping).ComputesAt w t k op z ∧ ¬ FitsWord z ∧
        (i.withOverflow .wrapping).FitsBefore w t k ∧
        ∃ fuel o, (i.withOverflow .trapping).perform fuel w t = some o ∧ o.Trapped op.name) := by
  refine ⟨fun fuel o => perform_wrapping_of_trapping, fun fuel o h hfits => ?_, fun hexceeds => ?_⟩
  · exact perform_trapping_of_wrapping h fun j _ op z => hfits j op z
  · -- The first of the results that do not fit is the one that the task fails of.
    classical
    have hspec := Nat.find_spec hexceeds
    have hfirst : (i.withOverflow .wrapping).FitsBefore w t (Nat.find hexceeds) := by
      intro j hj op z hcomputes
      refine Classical.byContradiction fun hz => ?_
      exact Nat.find_min hexceeds hj ⟨op, z, hcomputes, hz⟩
    obtain ⟨op, z, hcomputes, hz⟩ := hspec
    exact ⟨_, op, z, hcomputes, hz, hfirst, trapped_of_computesAt hcomputes hz hfirst⟩

def addWorld : World := { store := { cells := #[⟨"add", .primitive .add, 0⟩] } }

def addition (a b : Int64) : Task := .call (.closure ⟨⟨0⟩, none⟩) [.int a, .int b]

/-- Two and three give five under both policies; the greatest integer and one are too much for the
one that traps. -/
theorem overflow_policies_agree_addition :
    (∃ o, (plainInterpreter.withOverflow .wrapping).perform 4 addWorld (addition 2 3) = some o ∧
      o.result = .ok (.int 5)) ∧
    (plainInterpreter.withOverflow .wrapping).ComputesAt addWorld (addition Int64.maxValue 1) 0
      .add (2 ^ 63) ∧
    ∃ op fuel o, (plainInterpreter.withOverflow .trapping).perform fuel addWorld
      (addition Int64.maxValue 1) = some o ∧ o.Trapped op := by
  have hmax : (plainInterpreter.withOverflow .wrapping).ComputesAt addWorld
      (addition Int64.maxValue 1) 0 .add (2 ^ 63) :=
    ⟨_, rfl, _, _, _, rfl, rfl, rfl, rfl⟩
  refine ⟨?_, hmax, ?_⟩
  · have hfits := (overflow_policies_agree plainInterpreter addWorld (addition 2 3)).1 4 _ rfl
    refine ⟨_, hfits ?_, rfl⟩
    rintro operation ⟨trace, hresult⟩
    cases hresult
  · obtain ⟨k, op, z, -, -, -, fuel, o, hrun, htrapped⟩ :=
      (overflow_policies_agree plainInterpreter addWorld (addition Int64.maxValue 1)).2.2
        ⟨0, .add, 2 ^ 63, hmax, by decide⟩
    exact ⟨op.name, fuel, o, hrun, htrapped⟩

end TreeMachine
