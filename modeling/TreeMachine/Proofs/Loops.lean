import TreeMachine.Proofs.CallReturn
import TreeMachine.Proofs.Growth

/-!
The loops in which calls are made. Where a loop stands among the pending work tells which calls are
in tail position.
-/
set_option autoImplicit false

namespace TreeMachine

namespace Machine

def Control.calls : Control → Nat
  | .dispatch _ => 1
  | _ => 0

def Pending.isLoop : Pending → Bool
  | .loop => true
  | _ => false

def openLoops (ps : List Pending) : Nat := ps.countP Pending.isLoop

theorem openLoops_cons (p : Pending) (ps : List Pending) :
    openLoops (p :: ps) = openLoops ps + if p.isLoop then 1 else 0 := List.countP_cons

theorem openLoops_loop (ps : List Pending) : openLoops (.loop :: ps) = openLoops ps + 1 :=
  List.countP_cons_of_pos rfl

theorem openLoops_le_cons (p : Pending) (ps : List Pending) : openLoops ps ≤ openLoops (p :: ps) :=
  (List.sublist_cons_self p ps).countP_le

/-- What a step does about the loops in which calls are made. -/
inductive Turn (m : Setup) (s t : State) : Prop where
  | start (tally : s.tally m = id) (before : s.control.calls = 0) (after : t.control.calls = 1)
      (loops : openLoops t.pending = openLoops s.pending + 1)
  | next (tally : s.tally m = Profile.tailCall) (before : s.control.calls = 0)
      (after : t.control.calls = 1) (inside : 0 < openLoops s.pending)
      (loops : openLoops t.pending = openLoops s.pending)
  | call (c : Call) (control : s.control = .dispatch c) (after : t.control.calls = 0)
      (loops : openLoops t.pending = openLoops s.pending)
  | other (tally : s.tally m = id) (before : s.control.calls = 0) (after : t.control.calls = 0)
      (loops : openLoops t.pending ≤ openLoops s.pending)

theorem tally_eq_id {m : Setup} {s : State} (hdispatch : ∀ c, s.control ≠ .dispatch c)
    (htail : ∀ c rest, s.control = .tailCall c → s.pending ≠ .loop :: rest) : s.tally m = id := by
  funext p
  unfold State.tally
  split
  · rename_i c rest hc hp
    exact absurd hp (htail c rest hc)
  · rename_i c hc
    exact absurd hc (hdispatch c)
  · rfl

theorem turn_evalStep {m : Setup} {s : State} {e : Expr} {frame : FrameId}
    (hc : s.control = .eval e frame) : Turn m s (evalStep m s e frame) := by
  have htally : s.tally m = id := tally_eq_id (by simp [hc]) (by simp [hc])
  have hbefore : s.control.calls = 0 := by rw [hc]; rfl
  cases e with
  | read slot depth =>
    simp only [evalStep]
    cases s.store.read frame slot depth with
    | ok v => exact .other htally hbefore rfl (Nat.le_refl _)
    | error fault => exact .other htally hbefore rfl (Nat.le_refl _)
  | begin items =>
    cases items with
    | nil => exact .other htally hbefore rfl (Nat.le_refl _)
    | cons first rest => cases rest <;> exact .other htally hbefore rfl (Nat.le_refl _)
  | _ => exact .other htally hbefore rfl (Nat.le_refl _)

theorem turn_operands {m : Setup} {s : State} {p : Pending} {rest : List Pending}
    (htally : s.tally m = id) (hbefore : s.control.calls = 0) (top : s.pending = p :: rest)
    (hp : p.isLoop = false) (site : SiteId) (tail : Bool) (closure : Closure) (done : List Value)
    (args : List Expr) (frame : FrameId) :
    Turn m s ({ s with pending := rest }.operands site tail closure done args frame) := by
  have hloops : openLoops s.pending = openLoops rest := by
    rw [top, openLoops_cons, hp]
    rfl
  cases args with
  | nil =>
    cases tail with
    -- A tail call goes looking for its loop and is not dispatched yet.
    | true => exact .other htally hbefore rfl (Nat.le_of_eq hloops.symm)
    | false =>
      refine .start htally hbefore rfl ?_
      rw [hloops]
      exact openLoops_loop rest
  | cons e es => exact .other htally hbefore rfl (Nat.le_of_eq hloops.symm)

theorem turn_yieldStep {m : Setup} {s : State} {v : Value} (hc : s.control = .yield v) :
    Turn m s (yieldStep s v) := by
  have htally : s.tally m = id := tally_eq_id (by simp [hc]) (by simp [hc])
  have hbefore : s.control.calls = 0 := by rw [hc]; rfl
  cases hp : s.pending with
  | nil => simp only [yieldStep, hp]; exact .other htally hbefore hbefore (Nat.le_refl _)
  | cons p rest =>
    have hrest : openLoops rest ≤ openLoops s.pending := by
      rw [hp]
      exact openLoops_le_cons p rest
    cases p with
    | store slot depth frame =>
      simp only [yieldStep, hp]
      cases s.store.write frame slot depth v with
      | ok store => exact .other htally hbefore rfl hrest
      | error fault => exact .other htally hbefore rfl hrest
    | branch t e frame =>
      simp only [yieldStep, hp]
      cases v.asBool with
      | ok b => exact .other htally hbefore rfl hrest
      | error cause => exact .other htally hbefore rfl hrest
    | sequence items frame => simp only [yieldStep, hp]; exact .other htally hbefore rfl hrest
    | callee site tail args frame =>
      simp only [yieldStep, hp]
      cases v.asClosure with
      | ok closure => exact turn_operands htally hbefore hp rfl site tail closure [] args frame
      | error cause => exact .other htally hbefore rfl hrest
    | operand site tail closure done args frame =>
      simp only [yieldStep, hp]
      exact turn_operands htally hbefore hp rfl site tail closure (v :: done) args frame
    | loop => simp only [yieldStep, hp]; exact .other htally hbefore hbefore hrest
    | leave => simp only [yieldStep, hp]; exact .other htally hbefore hbefore hrest

theorem tailCallStep_of_value {s : State} (c : Call) (hloop : ∀ rest, s.pending ≠ .loop :: rest)
    (hleave : ∀ rest, s.pending ≠ .leave :: rest) : tailCallStep s c = s.enterLoop c := by
  unfold tailCallStep
  split
  · rename_i rest hp
    exact absurd hp (hleave rest)
  · rename_i rest hp
    exact absurd hp (hloop rest)
  · rfl

theorem turn_tailCallStep {m : Setup} {s : State} {c : Call} (hc : s.control = .tailCall c) :
    Turn m s (tailCallStep s c) := by
  have hbefore : s.control.calls = 0 := by rw [hc]; rfl
  by_cases hloop : ∃ rest, s.pending = .loop :: rest
  · obtain ⟨rest, hp⟩ := hloop
    have htally : s.tally m = Profile.tailCall := by
      funext p
      simp only [State.tally, hc, hp]
    simp only [tailCallStep, hp]
    refine .next htally hbefore rfl ?_ (by rw [hp]; rfl)
    rw [hp, openLoops_cons]
    exact Nat.succ_pos _
  · have hloop' : ∀ rest, s.pending ≠ .loop :: rest := fun rest hp => hloop ⟨rest, hp⟩
    have htally : s.tally m = id := tally_eq_id (by simp [hc]) fun _ rest _ => hloop' rest
    by_cases hleave : ∃ rest, s.pending = .leave :: rest
    · obtain ⟨rest, hp⟩ := hleave
      simp only [tailCallStep, hp]
      refine .other htally hbefore hbefore ?_
      rw [hp]
      exact openLoops_le_cons ..
    · rw [tailCallStep_of_value c hloop' fun rest hp => hleave ⟨rest, hp⟩]
      exact .start htally hbefore rfl (openLoops_loop _)

theorem pending_transfer (m : Setup) (s : State) (target : Target) (c : Call) :
    (transfer m s target c).pending = .leave :: s.pending ∨
      (transfer m s target c).pending = s.pending ∧
        ∀ e frame, (transfer m s target c).control ≠ .eval e frame := by
  unfold transfer
  dsimp only
  split
  · exact .inr ⟨rfl, fun _ _ => Control.noConfusion⟩
  · split
    · exact .inr ⟨rfl, fun _ _ => Control.noConfusion⟩
    · cases target with
      | primitive op =>
        simp only [operate]
        cases (op.apply c.args m.overflow m.sink s.store).1 <;>
          exact .inr ⟨rfl, fun _ _ => Control.noConfusion⟩
      | lambda code =>
        cases hfull : s.stack.full? with
        | some limit =>
          simp only [enter_of_full hfull]
          exact .inr ⟨rfl, fun _ _ => Control.noConfusion⟩
        | none => exact .inl (enter_of_room hfull (m.library.code code) c).1
      | unbound => exact .inr ⟨rfl, fun _ _ => Control.noConfusion⟩

theorem openLoops_transfer (m : Setup) (s : State) (target : Target) (c : Call) :
    openLoops (transfer m s target c).pending = openLoops s.pending := by
  rcases pending_transfer m s target c with hp | ⟨hp, -⟩
  · rw [hp, openLoops_cons]
    rfl
  · rw [hp]

theorem turn_dispatchStep {m : Setup} {s : State} {c : Call} (hc : s.control = .dispatch c) :
    Turn m s (dispatchStep m s c) := by
  rcases dispatchStep_cases m c s.store with ⟨-, hfail⟩ | ⟨-, found, site, hfound⟩
  · rw [hfail s rfl]
    exact .call c hc rfl rfl
  · rw [hfound s rfl]
    refine .call c hc ?_ (openLoops_transfer ..)
    have hne := transfer_ne_dispatch m (s.located c found site)
      (s.store.cell c.closure.cell).target c
    generalize (transfer m (s.located c found site) _ c).control = control at hne
    cases control with
    | dispatch d => exact absurd rfl (hne d)
    | _ => rfl

theorem turn_raiseStep {m : Setup} {s : State} {e : Failure} (hc : s.control = .raise e) :
    Turn m s (raiseStep s e) := by
  have htally : s.tally m = id := tally_eq_id (by simp [hc]) (by simp [hc])
  have hbefore : s.control.calls = 0 := by rw [hc]; rfl
  unfold raiseStep
  split
  · exact .other htally hbefore hbefore (Nat.le_refl _)
  · rename_i rest hp
    exact .other htally hbefore rfl (by rw [hp]; exact openLoops_le_cons ..)
  · rename_i p rest _ hp
    exact .other htally hbefore hbefore (by rw [hp]; exact openLoops_le_cons ..)

theorem step_turn (m : Setup) (s : State) : Turn m s (step m s) := by
  unfold step
  split
  · rename_i h
    exact turn_evalStep h
  · rename_i h
    exact turn_yieldStep h
  · rename_i h
    exact turn_tailCallStep h
  · rename_i h
    exact turn_dispatchStep h
  · rename_i h
    exact turn_raiseStep h

def loopsStarted (m : Setup) (s : State) : Nat → Nat
  | 0 => openLoops s.pending
  | n + 1 => loopsStarted m s n +
      if openLoops (steps m n s).pending < openLoops (steps m (n + 1) s).pending then 1 else 0

def Inside (ps : List Pending) : Prop := ∀ rest, ps ≠ .loop :: rest

/-- A loop that is not innermost has the end of an activation directly above it. -/
def Rooted : List Pending → Prop
  | [] => True
  | p :: ps => (p = .leave ∨ Inside ps) ∧ Rooted ps

/-- Loops are where activations end, and a tree is evaluated inside an activation or where its value
is needed. -/
structure Seated (s : State) : Prop where
  rooted : Rooted s.pending
  tree : ∀ e frame, s.control = .eval e frame → Inside s.pending

theorem seated_of_ne_eval {s : State} (hrooted : Rooted s.pending)
    (h : ∀ e frame, s.control ≠ .eval e frame) : Seated s :=
  ⟨hrooted, fun e frame hc => absurd hc (h e frame)⟩

theorem seated_evalThen {s : State} (hrooted : Rooted s.pending) (hinside : Inside s.pending)
    (e : Expr) (frame : FrameId) {p : Pending} (hp : p.isLoop = false) :
    Seated (s.evalThen e frame p) := by
  refine ⟨⟨.inr hinside, hrooted⟩, fun _ _ _ rest hrest => ?_⟩
  obtain ⟨rfl, -⟩ := List.cons.inj hrest
  cases hp

theorem seated_evalStep {m : Setup} {s : State} {e : Expr} {frame : FrameId} (h : Seated s)
    (hc : s.control = .eval e frame) : Seated (evalStep m s e frame) := by
  have hinside := h.tree e frame hc
  cases e with
  | literal v => exact seated_of_ne_eval h.rooted fun _ _ => Control.noConfusion
  | read slot depth =>
    simp only [evalStep]
    cases s.store.read frame slot depth with
    | ok v => exact seated_of_ne_eval h.rooted fun _ _ => Control.noConfusion
    | error fault => exact seated_of_ne_eval h.rooted fun _ _ => Control.noConfusion
  | write slot depth value => exact seated_evalThen h.rooted hinside _ _ rfl
  | ite c t e => exact seated_evalThen h.rooted hinside _ _ rfl
  | begin items =>
    cases items with
    | nil => exact seated_of_ne_eval h.rooted fun _ _ => Control.noConfusion
    | cons first rest =>
      cases rest with
      | nil => exact ⟨h.rooted, fun _ _ _ => hinside⟩
      | cons second rest => exact seated_evalThen h.rooted hinside _ _ rfl
  | lambda code => exact seated_of_ne_eval h.rooted fun _ _ => Control.noConfusion
  | apply callee args tail site => exact seated_evalThen h.rooted hinside _ _ rfl

theorem seated_operands {s : State} (hrooted : Rooted s.pending) (hinside : Inside s.pending)
    (site : SiteId) (tail : Bool) (closure : Closure) (done : List Value) (args : List Expr)
    (frame : FrameId) : Seated (s.operands site tail closure done args frame) := by
  cases args with
  | nil =>
    cases tail with
    | true => exact seated_of_ne_eval hrooted fun _ _ => Control.noConfusion
    | false => exact seated_of_ne_eval ⟨.inr hinside, hrooted⟩ fun _ _ => Control.noConfusion
  | cons e es => exact seated_evalThen hrooted hinside _ _ rfl

theorem seated_yieldStep {s : State} {v : Value} (h : Seated s) (hc : s.control = .yield v) :
    Seated (yieldStep s v) := by
  have hne : ∀ e frame, s.control ≠ .eval e frame := by simp [hc]
  have hrooted := h.rooted
  unfold yieldStep
  cases hp : s.pending with
  | nil => exact h
  | cons p rest =>
    rw [hp] at hrooted
    have hinside : p ≠ .leave → Inside rest := hrooted.1.resolve_left
    cases p with
    | store slot depth frame =>
      dsimp only
      cases s.store.write frame slot depth v with
      | ok store => exact seated_of_ne_eval hrooted.2 fun _ _ => Control.noConfusion
      | error fault => exact seated_of_ne_eval hrooted.2 fun _ _ => Control.noConfusion
    | branch t e frame =>
      dsimp only
      cases v.asBool with
      | ok b => exact ⟨hrooted.2, fun _ _ _ => hinside Pending.noConfusion⟩
      | error cause => exact seated_of_ne_eval hrooted.2 fun _ _ => Control.noConfusion
    | sequence items frame => exact ⟨hrooted.2, fun _ _ _ => hinside Pending.noConfusion⟩
    | callee site tail args frame =>
      dsimp only
      cases v.asClosure with
      | ok closure =>
        exact seated_operands (s := { s with pending := rest }) hrooted.2
          (hinside Pending.noConfusion) ..
      | error cause => exact seated_of_ne_eval hrooted.2 fun _ _ => Control.noConfusion
    | operand site tail closure done args frame =>
      exact seated_operands (s := { s with pending := rest }) hrooted.2
        (hinside Pending.noConfusion) ..
    | loop => exact seated_of_ne_eval hrooted.2 hne
    | leave => exact seated_of_ne_eval hrooted.2 hne

theorem seated_tailCallStep {s : State} {c : Call} (h : Seated s) (hc : s.control = .tailCall c) :
    Seated (tailCallStep s c) := by
  have hne : ∀ e frame, s.control ≠ .eval e frame := by simp [hc]
  unfold tailCallStep
  split
  · rename_i rest hp
    exact seated_of_ne_eval (hp ▸ h.rooted : Rooted (.leave :: rest)).2 hne
  · exact seated_of_ne_eval h.rooted fun _ _ => Control.noConfusion
  · rename_i hloop
    exact seated_of_ne_eval ⟨.inr hloop, h.rooted⟩ fun _ _ => Control.noConfusion

theorem seated_dispatchStep {m : Setup} {s : State} {c : Call} (h : Seated s) :
    Seated (dispatchStep m s c) := by
  rcases dispatchStep_cases m c s.store with ⟨-, hfail⟩ | ⟨-, found, site, hfound⟩
  · rw [hfail s rfl]
    exact seated_of_ne_eval h.rooted fun _ _ => Control.noConfusion
  · rw [hfound s rfl]
    rcases pending_transfer m (s.located c found site) (s.store.cell c.closure.cell).target c with
      hp | ⟨hp, hne⟩
    · refine ⟨?_, fun _ _ _ => ?_⟩
      · rw [hp]
        exact ⟨.inl rfl, h.rooted⟩
      · rw [hp]
        exact fun _ => by simp
    · refine seated_of_ne_eval ?_ hne
      rw [hp]
      exact h.rooted

theorem seated_raiseStep {s : State} {e : Failure} (h : Seated s) (hc : s.control = .raise e) :
    Seated (raiseStep s e) := by
  unfold raiseStep
  split
  · exact h
  · rename_i rest hp
    exact seated_of_ne_eval (hp ▸ h.rooted : Rooted (.leave :: rest)).2
      fun _ _ => Control.noConfusion
  · rename_i p rest _ hp
    exact seated_of_ne_eval (hp ▸ h.rooted : Rooted (p :: rest)).2 (by simp [hc])

theorem seated_step {m : Setup} {s : State} (h : Seated s) : Seated (step m s) := by
  unfold step
  split
  · rename_i hc
    exact seated_evalStep h hc
  · rename_i hc
    exact seated_yieldStep h hc
  · rename_i hc
    exact seated_tailCallStep h hc
  · exact seated_dispatchStep h
  · rename_i hc
    exact seated_raiseStep h hc

theorem seated_steps {s : State} (h : Seated s) (m : Setup) (n : Nat) : Seated (steps m n s) := by
  induction n with
  | zero => exact h
  | succ n ih =>
    rw [steps_succ]
    exact seated_step ih

/-- The last part of the tree of a call has its value, so that the call is made next. -/
inductive Reaches (s : State) (tail : Bool) (c : Call) (around : List Pending) : Prop where
  | callee (v : Value) (frame : FrameId) (control : s.control = .yield v)
      (pending : s.pending = .callee c.site tail [] frame :: around)
      (closure : v.asClosure = .ok c.closure) (args : c.args = [])
  | operand (v : Value) (done : List Value) (frame : FrameId) (control : s.control = .yield v)
      (pending : s.pending = .operand c.site tail c.closure done [] frame :: around)
      (args : c.args = (v :: done).reverse)

namespace Reaches
variable {s : State} {tail : Bool} {c : Call} {around : List Pending}

theorem step_eq (h : Reaches s tail c around) (m : Setup) :
    step m s = { s with pending := around }.call tail c := by
  obtain ⟨site, closure, args⟩ := c
  cases h with
  | callee v frame control pending hclosure hargs =>
    obtain rfl : args = [] := hargs
    simp only [step, control, yieldStep, pending, hclosure]
    rfl
  | operand v done frame control pending hargs =>
    obtain rfl : args = (v :: done).reverse := hargs
    simp only [step, control, yieldStep, pending]
    rfl

theorem inside (h : Reaches s tail c around) (hrooted : Rooted s.pending) : Inside around := by
  cases h with
  | callee v frame _ pending =>
    rw [pending] at hrooted
    exact hrooted.1.resolve_left Pending.noConfusion
  | operand v done frame _ pending =>
    rw [pending] at hrooted
    exact hrooted.1.resolve_left Pending.noConfusion

theorem openLoops_eq (h : Reaches s tail c around) : openLoops s.pending = openLoops around := by
  cases h with
  | callee v frame _ pending =>
    rw [pending, openLoops_cons]
    rfl
  | operand v done frame _ pending =>
    rw [pending, openLoops_cons]
    rfl

theorem starts_loop {m : Setup} {k : Nat} (h : Reaches (steps m k s) true c around)
    (hrooted : Rooted (steps m k s).pending) (houtside : ∀ rest, around ≠ .leave :: rest) :
    steps m (k + 2) s =
        { steps m k s with control := .dispatch c, pending := .loop :: around } ∧
      loopsStarted m s (k + 2) = loopsStarted m s k + 1 := by
  have hfirst : steps m (k + 1) s =
      { steps m k s with control := .tailCall c, pending := around } := by
    rw [steps_succ]
    exact h.step_eq m
  have hsecond : steps m (k + 2) s = (steps m (k + 1) s).enterLoop c := by
    rw [steps_succ, hfirst]
    exact tailCallStep_of_value c (h.inside hrooted) houtside
  rw [hfirst] at hsecond
  refine ⟨hsecond, ?_⟩
  have hbefore : ¬ openLoops (steps m k s).pending < openLoops (steps m (k + 1) s).pending := by
    rw [hfirst, h.openLoops_eq]
    exact Nat.lt_irrefl _
  have hafter : openLoops (steps m (k + 1) s).pending < openLoops (steps m (k + 2) s).pending := by
    rw [hfirst, hsecond]
    exact Nat.lt_of_lt_of_eq (Nat.lt_succ_self _) (openLoops_loop around).symm
  simp only [loopsStarted, if_neg hbefore, if_pos hafter, Nat.add_zero]

end Reaches

end Machine

open Machine

namespace Interpreter

def loopsStarted (fuel : Nat) (i : Interpreter) (w : World) (t : Task) : Nat :=
  match i.launch w t with
  | .ok s => Machine.loopsStarted (i.setup w.library) s fuel
  | .error _ => 0

theorem seated_of_launch {i : Interpreter} {w : World} {t : Task} {s : State}
    (h : i.launch w t = .ok s) : Seated s := by
  rcases launch_cases h with ⟨store, e, frame, rfl⟩ | ⟨store, c, rfl⟩
  · exact ⟨trivial, fun _ _ _ => nofun⟩
  · exact ⟨⟨.inr nofun, trivial⟩, nofun⟩

end Interpreter

end TreeMachine
