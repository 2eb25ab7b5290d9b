import TreeMachine.Proofs.PendingWork
import TreeMachine.Proofs.Session

set_option autoImplicit false

namespace TreeMachine

namespace CallStack

def addAll (s : CallStack) (names : List String) : CallStack := names.foldl add s

@[simp] theorem addAll_concat (s : CallStack) (names : List String) (name : String) :
    s.addAll (names ++ [name]) = (s.addAll names).add name := by simp [addAll]

theorem depth_addAll (s : CallStack) (names : List String) :
    (s.addAll names).depth = s.depth + names.length := by
  induction names generalizing s with
  | nil => rfl
  | cons name names ih =>
    have h := ih (s.add name)
    rw [depth_add] at h
    simp only [addAll, List.foldl_cons, List.length_cons] at h ⊢
    omega

theorem isEmpty_eq_false_of_depth_pos {s : CallStack} (h : 0 < s.depth) : s.isEmpty = false := by
  simp only [depth] at h
  simp only [isEmpty, Array.isEmpty, decide_eq_false_iff_not]
  omega

theorem depth_lt_of_full? {s : CallStack} {limit : Nat} (hl : s.limit = some limit)
    (h : s.full? = none) : s.depth < limit := by
  simp only [full?, hl, Option.filter_some, decide_eq_true_eq] at h
  split at h
  · cases h
  · omega

theorem depth_pop_le (s : CallStack) : s.pop.depth ≤ s.depth := by simp [pop, depth]

end CallStack

namespace Machine

/-- The names above a floor of the stack are those of the activations above some pending work. -/
structure Balanced (base : List Pending) (floor : CallStack) (s : State) : Prop where
  suffix : base <:+ s.pending
  names : ∃ names, s.stack = floor.addAll names ∧
    names.length + activations base = activations s.pending

namespace Balanced

variable {m : Setup} {base : List Pending} {floor : CallStack} {s t : State}

theorem of_eq (pending : s.pending = base) (stack : s.stack = floor) : Balanced base floor s := by
  subst pending stack
  exact ⟨List.suffix_refl _, [], rfl, by simp⟩

theorem of_shape (h : Balanced base floor s) (shape : Shape s t) (hb : base <:+ t.pending) :
    Balanced base floor t := by
  obtain ⟨names, hstack, hcount⟩ := h.names
  refine ⟨hb, ?_⟩
  cases shape with
  | grow new pending plain stack =>
    refine ⟨names, by rw [stack, hstack], ?_⟩
    rw [pending, activations_append, plain]
    omega
  | take p new rest _ top keeps pending plain stack =>
    refine ⟨names, by rw [stack, hstack], ?_⟩
    rw [top, activations_cons keeps] at hcount
    rw [pending, activations_append, plain]
    omega
  | enter name _ pending stack =>
    refine ⟨names ++ [name], by rw [stack, hstack, CallStack.addAll_concat], ?_⟩
    rw [pending, activations_leave, List.length_append, List.length_singleton]
    omega
  | leave _ top stack =>
    have hle := activations_le_of_suffix hb
    rw [top, activations_leave] at hcount
    -- The base is still there, so the activation that ends was begun above it.
    rcases List.eq_nil_or_concat names with rfl | ⟨names, name, rfl⟩
    · simp only [List.length_nil] at hcount
      omega
    · rw [List.concat_eq_append] at hstack hcount
      refine ⟨names, by rw [stack, hstack, CallStack.addAll_concat, CallStack.pop_add], ?_⟩
      simp only [List.length_append, List.length_singleton] at hcount
      omega

theorem steps {n : Nat} (h : Balanced base floor s) (hw : Within m base s n) :
    Balanced base floor (steps m n s) := by
  induction n with
  | zero => exact h
  | succ n ih =>
    have hn := ih (hw.of_le (Nat.le_succ n))
    have hb := hw (n + 1) (Nat.le_refl _)
    rw [steps_succ] at hb ⊢
    exact hn.of_shape (step_shape m _) hb

theorem stack_eq (h : Balanced base floor s) (hp : activations s.pending = activations base) :
    s.stack = floor := by
  obtain ⟨names, hstack, hcount⟩ := h.names
  have hlen : names.length = 0 := by omega
  rw [hstack, List.length_eq_zero_iff.1 hlen]
  rfl

theorem isEmpty_eq_false {rest : List Pending} (h : Balanced base floor s)
    (hp : s.pending = .leave :: rest) (hb : base <:+ rest) : s.stack.isEmpty = false := by
  obtain ⟨names, hstack, hcount⟩ := h.names
  have hle := activations_le_of_suffix hb
  rw [hp, activations_leave] at hcount
  apply CallStack.isEmpty_eq_false_of_depth_pos
  rw [hstack, CallStack.depth_addAll]
  omega

end Balanced

theorem Finishes.stack_eq {m : Setup} {base : List Pending} {floor : CallStack} {s : State}
    {n : Nat} (h : Finishes m base s n) (hs : Balanced base floor s) :
    (steps m n s).stack = floor :=
  (hs.steps h.within).stack_eq (by rw [h.pending])

theorem balanced_enterLoop (s : State) (c : Call) :
    Balanced (.loop :: s.pending) s.stack (s.enterLoop c) := .of_eq rfl rfl

theorem Balanced.of_loop {base : List Pending} {floor : CallStack} {s : State}
    (h : Balanced (.loop :: base) floor s) : Balanced base floor s :=
  ⟨(List.suffix_cons ..).trans h.suffix, h.names⟩

theorem suffix_enter (s : State) (code : Code) (c : Call) :
    s.pending <:+ (enter s code c).pending := by
  cases hfull : s.stack.full? with
  | some limit =>
    rw [enter_of_full hfull]
    exact List.suffix_refl _
  | none =>
    rw [(enter_of_room hfull code c).1]
    exact List.suffix_cons ..

theorem balanced_enter (s : State) (code : Code) (c : Call) :
    Balanced s.pending s.stack (enter s code c) :=
  (Balanced.of_eq rfl rfl).of_shape (enter_shape s code c) (suffix_enter s code c)

theorem within_nil (m : Setup) (s : State) (n : Nat) : Within m [] s n :=
  fun _ _ => List.nil_suffix

theorem steps_depth_le {m : Setup} {s : State} {limit : Nat} (hl : s.stack.limit = some limit)
    (hd : s.stack.depth ≤ limit) (n : Nat) : (steps m n s).stack.depth ≤ limit := by
  induction n with
  | zero => exact hd
  | succ n ih =>
    rw [steps_succ]
    cases step_shape m (steps m n s) with
    | grow new _ _ stack => rw [stack]; exact ih
    | take p new rest _ _ _ _ _ stack => rw [stack]; exact ih
    | enter name room _ stack =>
      have hlt := CallStack.depth_lt_of_full? ((steps_limit m n s).trans hl) room
      rw [stack, CallStack.depth_add]
      omega
    | leave _ _ stack =>
      have hpop := (steps m n s).stack.depth_pop_le
      rw [stack]
      omega

end Machine

open Machine

namespace Interpreter

/-- No call is active, and the limit is that of the mode. -/
def Idle (i : Interpreter) : Prop := i.stack = { limit := i.mode.limit? }

theorem idle_build (s : Settings) (w : World) : (s.build w).1.Idle := by
  unfold Settings.build
  cases s.sink with
  | none => rfl
  | some sink => rfl

theorem balanced_launch {i : Interpreter} {w : World} {t : Task} {s : State}
    (h : i.launch w t = .ok s) : Balanced [] i.stack s := by
  rcases launch_cases h with ⟨store, e, frame, rfl⟩ | ⟨store, c, rfl⟩
  · exact .of_eq rfl rfl
  · refine Balanced.of_loop ?_
    exact .of_eq rfl rfl

theorem perform_interpreter {fuel : Nat} {i : Interpreter} {w : World} {t : Task} {o : Outcome}
    (h : i.perform fuel w t = some o) : ∃ profile, o.interpreter = { i with profile } := by
  cases hl : i.launch w t with
  | error cause =>
    rw [perform_of_launch_error hl, Option.some.injEq] at h
    exact ⟨i.profile, by rw [← h]; rfl⟩
  | ok s =>
    rw [perform_of_launch_ok hl] at h
    obtain ⟨r, u, hrun, rfl⟩ := runFrom_eq_some_iff.1 h
    rw [run_eq] at hrun
    obtain ⟨r', hr, heq⟩ := Option.map_eq_some_iff.1 hrun
    obtain ⟨rfl, rfl⟩ := Prod.mk.inj heq
    have hb := (balanced_launch hl).steps (within_nil (i.setup w.library) s fuel)
    have hstack := hb.stack_eq (by rw [(answer_of_result? hr).1])
    exact ⟨_, by rw [hstack]⟩

end Interpreter

namespace Session

def Idle (s : Session) : Prop := ∀ k, (s.interpreters k).Idle

theorem idle_step {fuel : Nat} {s s' : Session} {a : HostStep}
    {r : Option (Except Failure Value)} (hs : s.Idle)
    (h : s.step Interpreter.perform fuel a = some (r, s')) : s'.Idle := by
  cases a with
  | bind closure target =>
    obtain ⟨-, rfl⟩ := Prod.mk.inj (Option.some.inj h)
    exact hs
  | task on t =>
    obtain ⟨o, ho, heq⟩ := Option.map_eq_some_iff.1 h
    obtain ⟨-, rfl⟩ := Prod.mk.inj heq
    intro k
    by_cases hk : k = on
    · subst hk
      obtain ⟨profile, hi⟩ := Interpreter.perform_interpreter ho
      have hidle := hs k
      simp only [resume, Interpreter.Idle, if_true, hi] at hidle ⊢
      exact hidle
    · simp only [resume, hk, if_false]
      exact hs k

theorem idle_run {fuel : Nat} {s s' : Session} {as : List HostStep}
    {rs : List (Option (Except Failure Value))} (hs : s.Idle)
    (h : s.run Interpreter.perform fuel as = some (rs, s')) : s'.Idle :=
  run_invariant (fun _ _ _ _ _ ht hstep => idle_step ht hstep) hs h

end Session

/-- Whatever is evaluated, dispatched or entered ends on the stack on which it began, so that
between two tasks no call is active. -/
theorem call_stack_discipline (m : Setup) (s : State) :
    (∀ n, Finishes m s.pending s n → (steps m n s).stack = s.stack) ∧
    (∀ c n, Finishes m s.pending (s.enterLoop c) n →
      (steps m n (s.enterLoop c)).stack = s.stack) ∧
    (∀ code c n, Finishes m s.pending (enter s code c) n →
      (steps m n (enter s code c)).stack = s.stack) ∧
    (∀ base n r t, base <:+ s.pending → run m n s = some (r, t) →
      ∃ k, k ≤ n ∧ Finishes m base s k) ∧
    (∀ c n next, Within m (.loop :: s.pending) (s.enterLoop c) n →
      (steps m n (s.enterLoop c)).control = .dispatch next →
      (steps m n (s.enterLoop c)).pending = .loop :: s.pending →
      (steps m n (s.enterLoop c)).stack = s.stack) ∧
    (∀ n rest, Within m s.pending s n → (steps m n s).pending = .leave :: rest →
      s.pending <:+ rest → (steps m n s).stack.isEmpty = false) ∧
    (∀ n limit, s.stack.limit = some limit → s.stack.depth ≤ limit →
      (steps m n s).stack.depth ≤ limit) ∧
    (∀ (i : Interpreter) w t start n, i.Idle → i.launch w t = .ok start →
      (∀ limit, i.mode.limit? = some limit →
        (steps (i.setup w.library) n start).stack.depth ≤ limit) ∧
      ∀ rest, (steps (i.setup w.library) n start).pending = .leave :: rest →
        (steps (i.setup w.library) n start).stack.isEmpty = false) ∧
    (∀ (settings : Settings) w, (settings.build w).1.Idle) ∧
    ∀ fuel as (before after : Session) rs, before.Idle →
      before.run Interpreter.perform fuel as = some (rs, after) →
      after.Idle ∧ ∀ k, (after.interpreters k).stack.depth = 0 := by
  refine ⟨?_, ?_, ?_, ?_, ?_, ?_, ?_, ?_, Interpreter.idle_build, ?_⟩
  · intro n h
    exact h.stack_eq (.of_eq rfl rfl)
  · intro c n h
    exact h.stack_eq (balanced_enterLoop s c).of_loop
  · intro code c n h
    exact h.stack_eq (balanced_enter s code c)
  · intro base n r t hb hrun
    exact finishes_of_run hb hrun
  · intro c n next hw _ hp
    exact ((balanced_enterLoop s c).steps hw).stack_eq (by rw [hp])
  · intro n rest hw hp hb
    exact ((Balanced.of_eq rfl rfl).steps hw).isEmpty_eq_false hp hb
  · intro n limit hl hd
    exact steps_depth_le hl hd n
  · intro i w t start n hidle hs
    have hstack : start.stack = { limit := i.mode.limit? } :=
      (Interpreter.stack_of_launch hs).trans hidle
    have hb := (Interpreter.balanced_launch hs).steps (within_nil (i.setup w.library) start n)
    refine ⟨fun limit hl => ?_, fun rest hp => hb.isEmpty_eq_false hp List.nil_suffix⟩
    refine steps_depth_le (by rw [hstack, hl]) ?_ n
    rw [hstack]
    exact Nat.zero_le limit
  · intro fuel as before after rs hidle hrun
    have hidle' := Session.idle_run hidle hrun
    refine ⟨hidle', fun k => ?_⟩
    rw [hidle' k]
    rfl

/-- The second code calls the first, which branches on what is no boolean. -/
def failingWorld (tail : Bool) : World :=
  { library := ⟨#[{ name := "inner", params := [], layout := {}
                    body := .ite (.literal .unit) (.literal .unit) (.literal .unit) },
      { name := "outer", params := [], body := .apply (.lambda ⟨0⟩) [] tail ⟨0⟩, layout := {} }]⟩
    store := { sites := #[.fresh, .fresh] } }

def nestedCall : Task := .invoke (.apply (.lambda ⟨1⟩) [] false ⟨1⟩)

/-- The state in which the call of the second code is launched. -/
def failingStart : State :=
  plainInterpreter.start { frames := #[.activate {} none], sites := #[.fresh, .fresh] }
    (.eval (.apply (.lambda ⟨1⟩) [] false ⟨1⟩) ⟨0⟩) []

/-- The task fails within two calls, and afterwards neither of them is active. -/
theorem call_stack_discipline_failing :
    plainInterpreter.launch (failingWorld false) nestedCall = .ok failingStart ∧
    (steps (plainInterpreter.setup (failingWorld false).library) 9 failingStart).stack.depth = 2 ∧
    (∃ k, Finishes (plainInterpreter.setup (failingWorld false).library) [] failingStart k ∧
      (steps (plainInterpreter.setup (failingWorld false).library) k failingStart).stack.depth =
        0) ∧
    ∃ after, (plainSession (failingWorld false)).run Interpreter.perform 20 [.task 0 nestedCall] =
        some ([some (.error { cause := .typeMismatch "bool" "unit"
                              trace := some ⟨["inner", "outer"]⟩ })], after) ∧
      (after.interpreters 0).stack.depth = 0 := by
  obtain ⟨hwork, -, -, hends, -, -, -, -, -, hsession⟩ :=
    call_stack_discipline (plainInterpreter.setup (failingWorld false).library) failingStart
  refine ⟨rfl, rfl, ?_, ?_⟩
  · obtain ⟨k, -, hk⟩ := hends [] 20 _ _ List.nil_suffix rfl
    exact ⟨k, hk, by rw [hwork k hk]; rfl⟩
  · have hidle : (plainSession (failingWorld false)).Idle := fun _ => rfl
    exact ⟨_, rfl, (hsession 20 [.task 0 nestedCall] _ _ _ hidle rfl).2 0⟩

end TreeMachine
