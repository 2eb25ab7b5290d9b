import TreeMachine.Machine.Step

set_option autoImplicit false

namespace TreeMachine.Machine

def steps (m : Setup) : Nat → State → State
  | 0, s => s
  | n + 1, s => steps m n (step m s)

theorem steps_add (m : Setup) (a b : Nat) (s : State) :
    steps m (a + b) s = steps m b (steps m a s) := by
  induction a generalizing s with
  | zero => simp [steps]
  | succ a ih => rw [Nat.succ_add, steps, ih, steps]

theorem steps_of_result? {m : Setup} {s : State} {r : Except Failure Value}
    (h : s.result? = some r) (n : Nat) : steps m n s = s := by
  induction n with
  | zero => rfl
  | succ n ih => rw [steps, step_of_result? h, ih]

/-- The outcome that steps of one kind lead to and the state it was reached in, or nothing if so
many steps do not reach one. -/
def runBy (step : State → State) : Nat → State → Option (Except Failure Value × State)
  | 0, s => s.result?.map (·, s)
  | n + 1, s =>
    match s.result? with
    | some r => some (r, s)
    | none => runBy step n (step s)

def run (m : Setup) : Nat → State → Option (Except Failure Value × State) := runBy (step m)

theorem run_eq (m : Setup) (n : Nat) (s : State) :
    run m n s = (steps m n s).result?.map (·, steps m n s) := by
  induction n generalizing s with
  | zero => rfl
  | succ n ih =>
    rw [run, runBy]
    split
    · rename_i r h
      rw [steps_of_result? h, h]
      rfl
    · rw [← run, ih, steps]

theorem run_of_le {m : Setup} {a b : Nat} {s t : State} {r : Except Failure Value}
    (h : run m a s = some (r, t)) (hab : a ≤ b) : run m b s = some (r, t) := by
  obtain ⟨k, rfl⟩ := Nat.exists_eq_add_of_le hab
  rw [run_eq] at h ⊢
  obtain ⟨r', hr, heq⟩ := Option.map_eq_some_iff.1 h
  rw [steps_add, steps_of_result? hr, hr, ← heq]
  rfl

/-- If a view of the states turns steps of one kind into steps of another, and outcomes into the
same outcomes, it turns the runs into each other. -/
theorem runBy_view {step step' : State → State} (view done : State → State) {I : State → Prop}
    (hinv : ∀ s, I s → I (step s)) (hstep : ∀ s, I s → step' (view s) = view (step s))
    (hresult : ∀ s, I s → (view s).result?.map (·, view s) = s.result?.map (·, done s))
    (n : Nat) {s : State} (hs : I s) :
    runBy step' n (view s) = (runBy step n s).map (Prod.map id done) := by
  induction n generalizing s with
  | zero =>
    simp only [runBy, hresult s hs, Option.map_map]
    rfl
  | succ n ih =>
    have hboth := hresult s hs
    simp only [runBy]
    cases hr : s.result? with
    | none =>
      rw [hr, Option.map_none, Option.map_eq_none_iff] at hboth
      simp only [hboth, hstep s hs]
      exact ih (hinv s hs)
    | some r =>
      rw [hr, Option.map_some, Option.map_eq_some_iff] at hboth
      obtain ⟨r', hview, heq⟩ := hboth
      simp only [hview, Option.map_some, heq, Prod.map_apply, id_eq]

end TreeMachine.Machine
