import TreeMachine.Machine.Run

/-!
What a step does to the pending work and to the call stack. Some work is finished when its answer is
given to what was pending below it.
-/
set_option autoImplicit false

namespace TreeMachine.Machine

def Pending.isLeave : Pending → Bool
  | .leave => true
  | _ => false

def activations (ps : List Pending) : Nat := ps.countP Pending.isLeave

@[simp] theorem activations_nil : activations [] = 0 := rfl

@[simp] theorem activations_leave (ps : List Pending) :
    activations (.leave :: ps) = activations ps + 1 := List.countP_cons_of_pos rfl

theorem activations_cons {p : Pending} (h : p.isLeave = false) (ps : List Pending) :
    activations (p :: ps) = activations ps := List.countP_cons_of_neg (by simp [h])

theorem activations_append (ps qs : List Pending) :
    activations (ps ++ qs) = activations ps + activations qs := by
  simp [activations, List.countP_append]

theorem activations_le_of_suffix {ps qs : List Pending} (h : ps <:+ qs) :
    activations ps ≤ activations qs := by
  obtain ⟨above, rfl⟩ := h
  rw [activations_append]
  omega

def Control.isAnswer : Control → Bool
  | .yield _ | .tailCall _ | .raise _ => true
  | .eval .. | .dispatch _ => false

/-- What one step from `s` to `t` does to the pending work and to the call stack. -/
inductive Shape (s t : State) : Prop where
  | grow (new : List Pending) (pending : t.pending = new ++ s.pending)
      (plain : activations new = 0) (stack : t.stack = s.stack)
  | take (p : Pending) (new rest : List Pending) (answer : s.control.isAnswer = true)
      (top : s.pending = p :: rest) (keeps : p.isLeave = false) (pending : t.pending = new ++ rest)
      (plain : activations new = 0) (stack : t.stack = s.stack)
  | enter (name : String) (room : s.stack.full? = none) (pending : t.pending = .leave :: s.pending)
      (stack : t.stack = s.stack.add name)
  | leave (answer : s.control.isAnswer = true) (top : s.pending = .leave :: t.pending)
      (stack : t.stack = s.stack.pop)

namespace Shape

variable {s t : State}

theorem keep (pending : t.pending = s.pending) (stack : t.stack = s.stack) : Shape s t :=
  .grow [] pending rfl stack

theorem push {p : Pending} (h : p.isLeave = false) (pending : t.pending = p :: s.pending)
    (stack : t.stack = s.stack) : Shape s t :=
  .grow [p] pending (activations_cons h []) stack

theorem drop {p : Pending} {rest : List Pending} (answer : s.control.isAnswer = true)
    (top : s.pending = p :: rest) (h : p.isLeave = false) (pending : t.pending = rest)
    (stack : t.stack = s.stack) : Shape s t :=
  .take p [] rest answer top h pending rfl stack

theorem swap {p q : Pending} {rest : List Pending} (answer : s.control.isAnswer = true)
    (top : s.pending = p :: rest) (hp : p.isLeave = false) (hq : q.isLeave = false)
    (pending : t.pending = q :: rest) (stack : t.stack = s.stack) : Shape s t :=
  .take p [q] rest answer top hp pending (activations_cons hq []) stack

end Shape

theorem evalStep_shape (m : Setup) (s : State) (e : Expr) (frame : FrameId) :
    Shape s (evalStep m s e frame) := by
  cases e with
  | literal v => exact .keep rfl rfl
  | read slot depth =>
    simp only [evalStep]
    cases s.store.read frame slot depth with
    | ok v => exact .keep rfl rfl
    | error fault => exact .keep rfl rfl
  | write slot depth value => exact .push rfl rfl rfl
  | ite c t e => exact .push rfl rfl rfl
  | begin items =>
    cases items with
    | nil => exact .keep rfl rfl
    | cons first rest =>
      cases rest with
      | nil => exact .keep rfl rfl
      | cons second rest => exact .push rfl rfl rfl
  | lambda code => exact .keep rfl rfl
  | apply callee args tail site => exact .push rfl rfl rfl

theorem operands_shape {s : State} {p : Pending} {rest : List Pending}
    (answer : s.control.isAnswer = true) (top : s.pending = p :: rest) (h : p.isLeave = false)
    (site : SiteId) (tail : Bool) (closure : Closure) (done : List Value) (args : List Expr)
    (frame : FrameId) :
    Shape s ({ s with pending := rest }.operands site tail closure done args frame) := by
  cases args with
  | nil =>
    cases tail with
    | true => exact .drop answer top h rfl rfl
    | false => exact .swap answer top h rfl rfl rfl
  | cons e es => exact .swap answer top h rfl rfl rfl

theorem yieldStep_shape {s : State} {v : Value} (hc : s.control = .yield v) :
    Shape s (yieldStep s v) := by
  have answer : s.control.isAnswer = true := by rw [hc]; rfl
  cases hp : s.pending with
  | nil => simp only [yieldStep, hp]; exact .keep rfl rfl
  | cons p rest =>
    cases p with
    | store slot depth frame =>
      simp only [yieldStep, hp]
      cases s.store.write frame slot depth v with
      | ok store => exact .drop answer hp rfl rfl rfl
      | error fault => exact .drop answer hp rfl rfl rfl
    | branch t e frame =>
      simp only [yieldStep, hp]
      cases v.asBool with
      | ok b => exact .drop answer hp rfl rfl rfl
      | error cause => exact .drop answer hp rfl rfl rfl
    | sequence items frame => simp only [yieldStep, hp]; exact .drop answer hp rfl rfl rfl
    | callee site tail args frame =>
      simp only [yieldStep, hp]
      cases v.asClosure with
      | ok closure => exact operands_shape answer hp rfl site tail closure [] args frame
      | error cause => exact .drop answer hp rfl rfl rfl
    | operand site tail closure done args frame =>
      simp only [yieldStep, hp]
      exact operands_shape answer hp rfl site tail closure (v :: done) args frame
    | loop => simp only [yieldStep, hp]; exact .drop answer hp rfl rfl rfl
    | leave => simp only [yieldStep, hp]; exact .leave answer hp rfl

theorem tailCallStep_shape {s : State} {c : Call} (hc : s.control = .tailCall c) :
    Shape s (tailCallStep s c) := by
  have answer : s.control.isAnswer = true := by rw [hc]; rfl
  cases hp : s.pending with
  | nil => simp only [tailCallStep, hp]; exact .push rfl rfl rfl
  | cons p rest =>
    cases p with
    | leave => simp only [tailCallStep, hp]; exact .leave answer hp rfl
    | loop => simp only [tailCallStep, hp]; exact .keep hp.symm rfl
    | _ => simp only [tailCallStep, hp]; exact .push rfl rfl rfl

theorem raiseStep_shape {s : State} {e : Failure} (hc : s.control = .raise e) :
    Shape s (raiseStep s e) := by
  have answer : s.control.isAnswer = true := by rw [hc]; rfl
  cases hp : s.pending with
  | nil => simp only [raiseStep, hp]; exact .keep rfl rfl
  | cons p rest =>
    cases p with
    | leave => simp only [raiseStep, hp]; exact .leave answer hp rfl
    | _ => simp only [raiseStep, hp]; exact .drop answer hp rfl rfl rfl

theorem enter_of_full {s : State} {limit : Nat} (h : s.stack.full? = some limit) (code : Code)
    (c : Call) : enter s code c = s.failHere (.stackOverflow limit) := by
  simp only [enter, CallStack.push_of_full h]

theorem enter_of_room {s : State} (h : s.stack.full? = none) (code : Code) (c : Call) :
    (enter s code c).pending = .leave :: s.pending ∧
      (enter s code c).stack =
        s.stack.add (activationName (s.store.cell c.closure.cell) code) := by
  simp only [enter, CallStack.push_of_room h]
  cases (Frame.activate code.layout c.closure.env).bind code.params c.args with
  | error failed => exact ⟨rfl, rfl⟩
  | ok frame => exact ⟨rfl, rfl⟩

theorem enter_shape (s : State) (code : Code) (c : Call) : Shape s (enter s code c) := by
  cases hfull : s.stack.full? with
  | some limit =>
    rw [enter_of_full hfull]
    exact .keep rfl rfl
  | none =>
    have h := enter_of_room hfull code c
    exact .enter _ hfull h.1 h.2

theorem operate_shape (m : Setup) (s : State) (op : Primitive) (args : List Value) :
    Shape s (operate m s op args) := by
  unfold operate
  dsimp only
  cases (op.apply args m.overflow m.sink s.store).1 with
  | ok v => exact .keep rfl rfl
  | error cause => exact .keep rfl rfl

theorem transfer_shape (m : Setup) (s : State) (target : Target) (c : Call) :
    Shape s (transfer m s target c) := by
  unfold transfer
  dsimp only
  cases target.arity? m.library with
  | none => exact .keep rfl rfl
  | some arity =>
    dsimp only
    split
    · exact .keep rfl rfl
    · cases target with
      | primitive op => exact operate_shape m s op c.args
      | lambda code => exact enter_shape s (m.library.code code) c
      | unbound => exact .keep rfl rfl

theorem Shape.of_eq {s s' t : State} (h : Shape s' t) (control : s'.control = s.control)
    (pending : s'.pending = s.pending) (stack : s'.stack = s.stack) : Shape s t := by
  cases h with
  | grow new hp plain hs => exact .grow new (pending ▸ hp) plain (stack ▸ hs)
  | take p new rest answer top keeps hp plain hs =>
    exact .take p new rest (control ▸ answer) (pending ▸ top) keeps hp plain (stack ▸ hs)
  | enter name room hp hs => exact .enter name (stack ▸ room) (pending ▸ hp) (stack ▸ hs)
  | leave answer top hs => exact .leave (control ▸ answer) (pending ▸ top) (stack ▸ hs)

theorem dispatchStep_shape (m : Setup) (s : State) (c : Call) : Shape s (dispatchStep m s c) := by
  unfold dispatchStep
  dsimp only
  split
  · exact .keep rfl rfl
  · exact (transfer_shape ..).of_eq rfl rfl rfl

theorem step_shape (m : Setup) (s : State) : Shape s (step m s) := by
  unfold step
  split
  · exact evalStep_shape ..
  · rename_i h
    exact yieldStep_shape h
  · rename_i h
    exact tailCallStep_shape h
  · exact dispatchStep_shape ..
  · rename_i h
    exact raiseStep_shape h

theorem run_steps (m : Setup) (a b : Nat) (s : State) :
    run m (a + b) s = run m b (steps m a s) := by rw [run_eq, run_eq, steps_add]

theorem run_rest {m : Setup} {n : Nat} {s : State} {out : Except Failure Value × State}
    (h : run m n s = some out) (a : Nat) : run m (n - a) (steps m a s) = some out := by
  rw [← run_steps]
  exact run_of_le h (by omega)

theorem run_unique {m : Setup} {a b : Nat} {s t t' : State} {r r' : Except Failure Value}
    (h : run m a s = some (r, t)) (h' : run m b s = some (r', t')) : r = r' ∧ t = t' := by
  have hmax := run_of_le h (Nat.le_max_left a b)
  rw [run_of_le h' (Nat.le_max_right a b), Option.some.injEq, Prod.mk.injEq] at hmax
  exact ⟨hmax.1.symm, hmax.2.symm⟩

theorem steps_succ (m : Setup) (n : Nat) (s : State) :
    steps m (n + 1) s = step m (steps m n s) := steps_add m n 1 s

theorem step_limit (m : Setup) (s : State) : (step m s).stack.limit = s.stack.limit := by
  cases step_shape m s with
  | grow new _ _ stack => rw [stack]
  | take p new rest _ _ _ _ _ stack => rw [stack]
  | enter name _ _ stack => rw [stack]; rfl
  | leave _ _ stack => rw [stack]; rfl

theorem steps_limit (m : Setup) (n : Nat) (s : State) :
    (steps m n s).stack.limit = s.stack.limit := by
  induction n with
  | zero => rfl
  | succ n ih => rw [steps_succ, step_limit, ih]

theorem suffix_step {m : Setup} {s : State} {base : List Pending} (h : base <:+ s.pending)
    (hbusy : s.pending ≠ base ∨ s.control.isAnswer = false) : base <:+ (step m s).pending := by
  have below : ∀ {p rest}, s.control.isAnswer = true → s.pending = p :: rest → base <:+ rest := by
    intro p rest answer top
    rw [top] at h hbusy
    rcases List.suffix_cons_iff.1 h with heq | hrest
    · rcases hbusy with hne | hbusy
      · exact absurd heq.symm hne
      · rw [answer] at hbusy
        cases hbusy
    · exact hrest
  cases step_shape m s with
  | grow new pending => rw [pending]; exact h.trans (List.suffix_append ..)
  | take p new rest answer top _ pending =>
    rw [pending]
    exact (below answer top).trans (List.suffix_append ..)
  | enter name _ pending => rw [pending]; exact h.trans (List.suffix_cons ..)
  | leave answer top => exact below answer top

/-- For so many steps some work stays pending, and the run is busy with what lies above it. -/
def Within (m : Setup) (base : List Pending) (s : State) (n : Nat) : Prop :=
  ∀ k ≤ n, base <:+ (steps m k s).pending

/-- After so many steps the work that lay above some other is done: nothing of the other was taken
up on the way, and the answer is given to it. -/
structure Finishes (m : Setup) (base : List Pending) (s : State) (n : Nat) : Prop where
  within : Within m base s n
  pending : (steps m n s).pending = base
  answered : (steps m n s).control.isAnswer = true

theorem Within.of_le {m : Setup} {base : List Pending} {s : State} {a b : Nat}
    (h : Within m base s b) (hab : a ≤ b) : Within m base s a := fun k hk => h k (by omega)

theorem finishes_or_within {m : Setup} {base : List Pending} {s : State}
    (h : base <:+ s.pending) (n : Nat) :
    (∃ k, k < n ∧ Finishes m base s k) ∨ Within m base s n := by
  induction n with
  | zero =>
    refine .inr fun k hk => ?_
    obtain rfl : k = 0 := by omega
    exact h
  | succ n ih =>
    rcases ih with ⟨k, hk, hfin⟩ | hwithin
    · exact .inl ⟨k, by omega, hfin⟩
    · by_cases hdone : (steps m n s).pending = base ∧ (steps m n s).control.isAnswer = true
      · exact .inl ⟨n, by omega, hwithin, hdone.1, hdone.2⟩
      · refine .inr fun k hk => ?_
        rcases Nat.lt_or_eq_of_le hk with hlt | rfl
        · exact hwithin k (by omega)
        · rw [steps_succ]
          refine suffix_step (hwithin n (Nat.le_refl n)) ?_
          by_cases hp : (steps m n s).pending = base
          · exact .inr (Bool.eq_false_iff.2 fun ha => hdone ⟨hp, ha⟩)
          · exact .inl hp

theorem answer_of_result? {s : State} {r : Except Failure Value} (h : s.result? = some r) :
    s.pending = [] ∧ s.control.isAnswer = true := by
  obtain ⟨control, pending, store, stack, profile⟩ := s
  cases pending <;> cases control <;> simp [State.result?] at h <;> exact ⟨rfl, rfl⟩

theorem result?_of_pending {s : State} (h : s.pending ≠ []) : s.result? = none := by
  cases hr : s.result? with
  | none => rfl
  | some r => exact absurd (answer_of_result? hr).1 h

theorem result?_of_not_answer {s : State} (h : s.control.isAnswer = false) : s.result? = none := by
  cases hr : s.result? with
  | none => rfl
  | some r =>
    rw [(answer_of_result? hr).2] at h
    cases h

theorem control_of_result? {s : State} {e : Failure} (h : s.result? = some (.error e)) :
    s.control = .raise e := by
  obtain ⟨control, pending, store, stack, profile⟩ := s
  cases pending <;> cases control <;> simp [State.result?] at h
  rw [h]

theorem finishes_of_run {m : Setup} {base : List Pending} {s t : State} {n : Nat}
    {r : Except Failure Value} (h : base <:+ s.pending) (hrun : run m n s = some (r, t)) :
    ∃ k, k ≤ n ∧ Finishes m base s k := by
  rcases finishes_or_within h n with ⟨k, hk, hfin⟩ | hwithin
  · exact ⟨k, by omega, hfin⟩
  · rw [run_eq] at hrun
    obtain ⟨r', hr, -⟩ := Option.map_eq_some_iff.1 hrun
    obtain ⟨hpending, hanswer⟩ := answer_of_result? hr
    have hbase : base = [] := by
      have hlast := hwithin n (Nat.le_refl n)
      rw [hpending] at hlast
      exact List.suffix_nil.1 hlast
    exact ⟨n, Nat.le_refl n, hwithin, by rw [hpending, hbase], hanswer⟩

end TreeMachine.Machine
