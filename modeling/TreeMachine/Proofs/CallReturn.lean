import TreeMachine.Proofs.PendingWork
import TreeMachine.Proofs.Session
import TreeMachine.Proofs.StateView

/-!
Where a call is made and where it returns. Until its loop is left, a call does not depend on what is
pending below.
-/
set_option autoImplicit false

namespace TreeMachine

namespace Machine

def Control.ofResult : Except Failure Value → Control
  | .ok v => .yield v
  | .error e => .raise e

theorem result?_of_control {s : State} {r : Except Failure Value}
    (hpending : s.pending = []) (hcontrol : s.control = .ofResult r) : s.result? = some r := by
  cases r with
  | ok v => simp [State.result?, hpending, hcontrol, Control.ofResult]
  | error e => simp [State.result?, hpending, hcontrol, Control.ofResult]

def View.under (base : List Pending) : View := { View.keep with base }

/-- The call that a loop was entered for is over: the loop has been pending up to now. -/
structure Returns (m : Setup) (base : List Pending) (s : State) (n : Nat) : Prop where
  busy : ∀ k < n, .loop :: base <:+ (steps m k s).pending
  pending : (steps m n s).pending = base

theorem loop_step {m : Setup} {base : List Pending} {s : State}
    (h : .loop :: base <:+ s.pending) (hleft : ¬ .loop :: base <:+ (step m s).pending) :
    ∃ r, s.control = .ofResult r ∧ step m s = { s with pending := base } := by
  have htop : s.pending = .loop :: base := by
    refine Classical.byContradiction fun hne => ?_
    exact hleft (suffix_step h (.inl hne))
  cases hc : s.control with
  | eval e frame => exact absurd (suffix_step h (.inr (by rw [hc]; rfl))) hleft
  | dispatch c => exact absurd (suffix_step h (.inr (by rw [hc]; rfl))) hleft
  | tailCall c =>
    have hkept : (step m s).pending = .loop :: base := by
      simp only [step, hc, tailCallStep, htop, State.count]
    rw [hkept] at hleft
    exact absurd (List.suffix_refl _) hleft
  | yield v =>
    refine ⟨.ok v, rfl, ?_⟩
    simp only [step, hc, yieldStep, htop]
  | raise e =>
    refine ⟨.error e, rfl, ?_⟩
    simp only [step, hc, raiseStep, htop]

theorem not_loop_suffix (base : List Pending) : ¬ .loop :: base <:+ base := by
  intro h
  have hlength := h.length_le
  rw [List.length_cons] at hlength
  omega

theorem ne_nil_of_loop_suffix {ps base : List Pending} (h : .loop :: base <:+ ps) : ps ≠ [] := by
  rintro rfl
  have hlength := h.length_le
  simp at hlength

theorem Returns.control {m : Setup} {base : List Pending} {s : State} {n : Nat}
    (h : Returns m base s n) (hs : .loop :: base <:+ s.pending) :
    ∃ r, (steps m n s).control = .ofResult r := by
  cases n with
  | zero =>
    have hpending : s.pending = base := h.pending
    rw [hpending] at hs
    exact absurd hs (not_loop_suffix base)
  | succ n =>
    have hpending := h.pending
    rw [steps_succ] at hpending ⊢
    obtain ⟨r, hcontrol, hstep⟩ := loop_step (h.busy n (by omega)) (by
      rw [hpending]
      exact not_loop_suffix base)
    rw [hstep]
    exact ⟨r, hcontrol⟩

theorem run_of_returns {m : Setup} {s : State} {n : Nat} {r : Except Failure Value}
    (h : Returns m [] s n) (hcontrol : (steps m n s).control = .ofResult r) :
    run m n s = some (r, steps m n s) := by
  rw [run_eq, result?_of_control h.pending hcontrol]
  rfl

theorem returns_of_run {m : Setup} {s t : State} {n : Nat} {r : Except Failure Value}
    (hs : [.loop] <:+ s.pending) (h : run m n s = some (r, t)) :
    ∃ k, Returns m [] s k ∧ steps m k s = t ∧ t.control = .ofResult r := by
  induction n generalizing s with
  | zero =>
    have hresult := result?_of_pending (ne_nil_of_loop_suffix hs)
    simp [run, runBy, hresult] at h
  | succ n ih =>
    have h : run m n (step m s) = some (r, t) := run_rest h 1
    by_cases hstep : [.loop] <:+ (step m s).pending
    · obtain ⟨k, hreturns, hlast, hcontrol⟩ := ih hstep h
      refine ⟨k + 1, ⟨fun j hj => ?_, hreturns.pending⟩, hlast, hcontrol⟩
      cases j with
      | zero => exact hs
      | succ j => exact hreturns.busy j (by omega)
    · obtain ⟨r', hcontrol, hleft⟩ := loop_step hs hstep
      have hdone : (step m s).result? = some r' := by
        rw [hleft]
        exact result?_of_control rfl hcontrol
      rw [run_eq, steps_of_result? hdone, hdone] at h
      obtain ⟨rfl, rfl⟩ := Prod.mk.inj (Option.some.inj h)
      refine ⟨1, ⟨fun j hj => ?_, ?_⟩, rfl, ?_⟩
      · obtain rfl : j = 0 := by omega
        exact hs
      · exact congrArg State.pending hleft
      · rw [hleft]
        exact hcontrol

theorem loop_suffix_append {ps base : List Pending} :
    .loop :: base <:+ ps ++ base ↔ [.loop] <:+ ps := by
  constructor
  · rintro ⟨above, habove⟩
    have hsame : (above ++ [.loop]) ++ base = ps ++ base := by simpa using habove
    exact ⟨above, List.append_cancel_right hsame⟩
  · rintro ⟨above, rfl⟩
    exact ⟨above, by simp⟩

/-- While something of its own is pending, a run goes the same way over any other work. -/
theorem steps_under {m : Setup} {base : List Pending} {s : State} {n : Nat}
    (h : ∀ k < n, (steps m k s).pending ≠ []) :
    steps m n ((View.under base).state s) = (View.under base).state (steps m n s) := by
  induction n with
  | zero => rfl
  | succ n ih =>
    rw [steps_succ, steps_succ, ih fun k hk => h k (by omega)]
    exact ((View.under base).state_step m (fun _ => rfl) (.inl (h n (by omega))) rfl).symm

theorem returns_under {m : Setup} {base : List Pending} {s : State} {n : Nat} :
    Returns m base ((View.under base).state s) n ↔ Returns m [] s n := by
  constructor
  · intro h
    have hbusy : ∀ j ≤ n, ∀ k < j, [.loop] <:+ (steps m k s).pending := by
      intro j hj
      induction j with
      | zero =>
        intro k hk
        omega
      | succ j ih =>
        have hprev := ih (by omega)
        intro k hk
        rcases Nat.lt_or_eq_of_le (Nat.lt_succ_iff.1 hk) with hlt | rfl
        · exact hprev k hlt
        · have hloop := h.busy k (by omega)
          rw [steps_under fun k hk => ne_nil_of_loop_suffix (hprev k hk)] at hloop
          exact loop_suffix_append.1 hloop
    refine ⟨hbusy n (Nat.le_refl n), ?_⟩
    have hpending := h.pending
    rw [steps_under fun k hk => ne_nil_of_loop_suffix (hbusy n (Nat.le_refl n) k hk)] at hpending
    exact List.append_left_eq_self.1 hpending
  · intro h
    have hstep : ∀ k ≤ n, steps m k ((View.under base).state s) =
        (View.under base).state (steps m k s) :=
      fun k hk => steps_under fun j hj => ne_nil_of_loop_suffix (h.busy j (by omega))
    refine ⟨fun k hk => ?_, ?_⟩
    · rw [hstep k (by omega)]
      exact loop_suffix_append.2 (h.busy k hk)
    · rw [hstep n (Nat.le_refl n)]
      exact List.append_left_eq_self.2 h.pending

theorem operands_dispatch {s : State} {site : SiteId} {tail : Bool} {closure : Closure}
    {done : List Value} {args : List Expr} {frame : FrameId} {c : Call}
    (h : (s.operands site tail closure done args frame).control = .dispatch c) :
    ∃ base, (s.operands site tail closure done args frame).pending = .loop :: base := by
  cases args with
  | nil =>
    cases tail with
    | true => simp [State.operands, State.call] at h
    | false => exact ⟨s.pending, rfl⟩
  | cons e es => simp [State.operands, State.evalThen] at h

theorem yieldStep_dispatch {s : State} {v : Value} {c : Call} (hs : s.control = .yield v)
    (h : (yieldStep s v).control = .dispatch c) :
    ∃ base, (yieldStep s v).pending = .loop :: base := by
  cases hp : s.pending with
  | nil => simp [yieldStep, hp, hs] at h
  | cons p rest =>
    cases p with
    | store slot depth frame =>
      simp only [yieldStep, hp] at h
      cases hw : s.store.write frame slot depth v <;> simp [hw] at h
    | branch t e frame =>
      simp only [yieldStep, hp] at h
      cases hb : v.asBool <;> simp [hb] at h
    | callee site tail args frame =>
      simp only [yieldStep, hp] at h ⊢
      cases hb : v.asClosure with
      | ok closure =>
        simp only [hb] at h
        exact operands_dispatch h
      | error cause => simp [hb] at h
    | operand site tail closure done args frame =>
      simp only [yieldStep, hp] at h ⊢
      exact operands_dispatch h
    | _ => simp [yieldStep, hp, hs] at h

theorem transfer_ne_dispatch (m : Setup) (s : State) (target : Target) (c c' : Call) :
    (transfer m s target c).control ≠ .dispatch c' := by
  unfold transfer
  dsimp only
  split
  · exact Control.noConfusion
  · split
    · exact Control.noConfusion
    · cases target with
      | primitive op =>
        simp only [operate]
        split <;> exact Control.noConfusion
      | lambda code =>
        simp only [enter]
        split
        · exact Control.noConfusion
        · split <;> exact Control.noConfusion
      | unbound => exact Control.noConfusion

theorem step_dispatch {m : Setup} {s : State} {c : Call} (h : (step m s).control = .dispatch c) :
    ∃ base, (step m s).pending = .loop :: base := by
  unfold step at h ⊢
  cases hc : s.control with
  | eval e frame =>
    simp only [hc] at h
    cases e with
    | read slot depth =>
      simp only [evalStep] at h
      cases hr : s.store.read frame slot depth <;> simp [hr, State.yield, State.fail] at h
    | begin items =>
      cases items with
      | nil => simp [evalStep, State.yield] at h
      | cons first rest =>
        cases rest with
        | nil => simp [evalStep, State.eval] at h
        | cons second rest => simp [evalStep, State.evalThen] at h
    | _ => simp [evalStep, State.yield, State.evalThen] at h
  | yield v =>
    simp only [hc] at h
    exact yieldStep_dispatch hc h
  | tailCall c =>
    simp only [hc] at h
    cases hp : s.pending with
    | nil => exact ⟨s.pending, by simp only [tailCallStep, hp, State.enterLoop]⟩
    | cons p rest =>
      cases p with
      | leave => simp [tailCallStep, hp, hc] at h
      | loop => exact ⟨rest, by simp only [tailCallStep, hp, State.count]⟩
      | _ => exact ⟨s.pending, by simp only [tailCallStep, hp, State.enterLoop]⟩
  | dispatch d =>
    simp only [hc] at h
    rcases dispatchStep_cases m d s.store with ⟨-, hfail⟩ | ⟨-, found, site, hfound⟩
    · rw [hfail s rfl] at h
      cases h
    · rw [hfound s rfl] at h
      exact absurd h (transfer_ne_dispatch m _ _ d c)
  | raise e =>
    simp only [hc] at h
    cases hp : s.pending with
    | nil => simp [raiseStep, hp, hc] at h
    | cons p rest => cases p <;> simp [raiseStep, hp, hc] at h

end Machine

open Machine

theorem Interpreter.dispatch_of_launch {i : Interpreter} {w : World} {t : Task} {s : State}
    {m : Setup} {n : Nat} {c : Call} (h : i.launch w t = .ok s)
    (hc : (steps m n s).control = .dispatch c) :
    ∃ base, (steps m n s).pending = .loop :: base := by
  cases n with
  | zero =>
    rcases launch_cases h with ⟨store, e, frame, rfl⟩ | ⟨store, d, rfl⟩
    · cases hc
    · exact ⟨[], rfl⟩
  | succ n =>
    rw [steps_succ] at hc ⊢
    exact step_dispatch hc

end TreeMachine
