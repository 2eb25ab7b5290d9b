import TreeMachine.Proofs.FailureCauses
import TreeMachine.Proofs.Loops
import TreeMachine.Proofs.SiteHistory

set_option autoImplicit false

namespace TreeMachine

namespace Cause

/-- How many calls a failure of this cause leaves without a transfer. -/
def unbound : Cause → Nat
  | unboundFunction _ => 1
  | _ => 0

theorem unbound_eq_zero {cause : Cause} (h : ∀ name, cause ≠ .unboundFunction name) :
    cause.unbound = 0 := by
  cases cause with
  | unboundFunction name => exact absurd rfl (h name)
  | _ => rfl

end Cause

def CacheEvent.transfer : CacheEvent → Transfer
  | .hit | .recorded => .direct
  | .wentMegamorphic | .generic => .indirect

def unboundCalls : Except Failure Value → Nat
  | .error e => e.cause.unbound
  | .ok _ => 0

namespace Profile

def add (p d : Profile) : Profile where
  calls := p.calls + d.calls
  direct := p.direct + d.direct
  indirect := p.indirect + d.indirect
  hits := p.hits + d.hits
  misses := p.misses + d.misses
  evictions := p.evictions + d.evictions
  megamorphic := p.megamorphic + d.megamorphic
  tailCalls := p.tailCalls + d.tailCalls

theorem call_add (p d : Profile) : (p.add d).call = p.add d.call := rfl

theorem tailCall_add (p d : Profile) : (p.add d).tailCall = p.add d.tailCall := rfl

theorem found_add (p d : Profile) (l : Lookup) : (p.add d).found l = p.add (d.found l) := by
  simp only [found, add, Nat.add_assoc]

/-- The counts agree with each other, where so many calls had no entry point. -/
structure Accounted (d : Profile) (unbound : Nat) : Prop where
  calls : d.calls = d.direct + d.indirect + unbound
  direct : d.direct + d.megamorphic = d.hits + d.misses
  misses : d.megamorphic ≤ d.misses
  indirect : d.megamorphic ≤ d.indirect

theorem Accounted.call {d : Profile} (h : d.Accounted 0) : d.call.Accounted 1 :=
  ⟨congrArg (· + 1) h.calls, h.direct, h.misses, h.indirect⟩

theorem Accounted.tailCall {d : Profile} {n : Nat} (h : d.Accounted n) : d.tailCall.Accounted n :=
  ⟨h.calls, h.direct, h.misses, h.indirect⟩

theorem Accounted.found {d : Profile} {l : Lookup} (h : d.Accounted 0)
    (hl : l.transfer = l.event.transfer) : (d.call.found l).Accounted 0 := by
  obtain ⟨hcalls, hdirect, hmisses, hindirect⟩ := h
  obtain ⟨target, transfer, event, evicted⟩ := l
  obtain rfl : transfer = event.transfer := hl
  cases event <;> constructor <;> simp [Profile.found, Profile.call, CacheEvent.transfer] <;> omega

end Profile

namespace CallSite

theorem transfer_of_lookup {site after : CallSite} {cells : CellId → FunctionCell}
    {callee : CellId} {limit : Nat} {found : Lookup}
    (h : site.lookup cells callee limit = .ok (found, after)) :
    found.transfer = found.event.transfer := by
  cases looked_of_lookup h with
  | generic => rfl
  | hit mem same => rfl
  | recorded new room => rfl
  | wentMegamorphic new full => rfl

end CallSite

namespace Machine

namespace Control

def unbound : Control → Nat
  | .raise e => e.cause.unbound
  | _ => 0

theorem unbound_eq_zero {c : Control} (h : ∀ e, c ≠ .raise e) : c.unbound = 0 := by
  cases c with
  | raise e => exact absurd rfl (h e)
  | _ => rfl

end Control

theorem unbound_step {m : Setup} {s : State} (hraise : ∀ e, s.control ≠ .raise e)
    (hbound : ∀ c, s.control = .dispatch c → (s.store.cell c.closure.cell).target ≠ .unbound) :
    (step m s).control.unbound = 0 := by
  cases hc : (step m s).control with
  | raise f =>
    refine Cause.unbound_eq_zero fun name hname => ?_
    rcases raises_of_step hc with ⟨e, he, -⟩ | hraises
    · exact hraise e he
    · have hgrounds := grounds_of_raises hraises
      rw [hname] at hgrounds
      obtain ⟨c, hdispatch, -, htarget⟩ := hgrounds
      exact hbound c hdispatch htarget
  | _ => rfl

theorem unbound_raiseStep {s : State} {e : Failure} (hc : s.control = .raise e) :
    (raiseStep s e).control.unbound = e.cause.unbound := by
  unfold raiseStep
  split
  · rw [hc]
    rfl
  · exact congrArg Cause.unbound (CallStack.cause_attach ..)
  · exact congrArg Control.unbound hc

theorem accounted_dispatch {m : Setup} {s : State} {c : Call} {d : Profile}
    (hc : s.control = .dispatch c) (h : d.Accounted 0) :
    (s.tally m d).Accounted (step m s).control.unbound := by
  have htally : s.tally m d = c.tally m s.store d := by simp only [State.tally, hc]
  rw [htally]
  unfold Call.tally
  cases hlookup : (s.store.site c.site).lookup s.store.cell c.closure.cell m.cacheSize with
  | error cause =>
    obtain ⟨-, rfl⟩ := CallSite.lookup_eq_error hlookup
    simp only [step, hc, dispatchStep, State.count, hlookup]
    exact h.call
  | ok out =>
    obtain ⟨found, site⟩ := out
    rw [unbound_step (by simp [hc])]
    · exact h.found (CallSite.transfer_of_lookup hlookup)
    · intro c' hc' hunbound
      obtain rfl := Control.dispatch.inj (hc.symm.trans hc')
      have hbound := (CallSite.lookup_eq_ok hlookup).1
      rw [hunbound] at hbound
      cases hbound

theorem accounted_step {m : Setup} {s : State} {d : Profile} (h : d.Accounted s.control.unbound) :
    (s.tally m d).Accounted (step m s).control.unbound := by
  by_cases hdispatch : ∃ c, s.control = .dispatch c
  · obtain ⟨c, hc⟩ := hdispatch
    rw [hc] at h
    exact accounted_dispatch hc h
  have hne : ∀ c, s.control ≠ .dispatch c := fun c hc => hdispatch ⟨c, hc⟩
  have hunbound : (step m s).control.unbound = s.control.unbound := by
    by_cases hraise : ∃ e, s.control = .raise e
    · obtain ⟨e, hc⟩ := hraise
      simp only [step, hc]
      exact unbound_raiseStep hc
    · have hraise' : ∀ e, s.control ≠ .raise e := fun e hc => hraise ⟨e, hc⟩
      rw [unbound_step hraise' fun c hc => absurd hc (hne c), Control.unbound_eq_zero hraise']
  rw [hunbound]
  unfold State.tally
  split
  · exact h.tailCall
  · rename_i c hc
    exact absurd hc (hne c)
  · exact h

theorem tally_add (m : Setup) (s : State) (p d : Profile) :
    s.tally m (p.add d) = p.add (s.tally m d) := by
  unfold State.tally
  split
  · rw [Profile.tailCall_add]
  · unfold Call.tally
    split
    · rw [Profile.call_add, Profile.found_add]
    · rw [Profile.call_add]
  · rfl

def counted (m : Setup) (s : State) : Nat → Profile
  | 0 => {}
  | n + 1 => (steps m n s).tally m (counted m s n)

theorem profile_steps_eq (m : Setup) (s : State) (n : Nat) :
    (steps m n s).profile = s.profile.map (·.add (counted m s n)) := by
  induction n with
  | zero => exact (congrFun Option.map_id s.profile).symm
  | succ n ih =>
    rw [steps_succ, (effects_step m (steps m n s)).profile, ih, Option.map_map]
    congr 1
    funext p
    exact tally_add ..

/-- How the counts of a run stand to its loops. -/
structure CallsBalance (m : Setup) (s : State) (n : Nat) : Prop where
  accounted : (counted m s n).Accounted (steps m n s).control.unbound
  calls : (counted m s n).calls + (steps m n s).control.calls =
    (counted m s n).tailCalls + loopsStarted m s n
  loops : openLoops (steps m n s).pending ≤ loopsStarted m s n
  tailCalls : (counted m s n).tailCalls = 0 ∨ 0 < loopsStarted m s n

theorem calls_tally {m : Setup} {s : State} {c : Call} (hc : s.control = .dispatch c)
    (d : Profile) : (s.tally m d).calls = d.calls + 1 ∧ (s.tally m d).tailCalls = d.tailCalls := by
  simp only [State.tally, hc, Call.tally]
  split
  · exact ⟨rfl, rfl⟩
  · exact ⟨rfl, rfl⟩

theorem CallsBalance.succ {m : Setup} {s : State} {n : Nat} (h : CallsBalance m s n) :
    CallsBalance m s (n + 1) := by
  have haccounted : (counted m s (n + 1)).Accounted (steps m (n + 1) s).control.unbound := by
    rw [steps_succ]
    exact accounted_step h.accounted
  obtain ⟨-, hcalls, hloops, htail⟩ := h
  have hturn : Turn m (steps m n s) (steps m (n + 1) s) := by
    rw [steps_succ]
    exact step_turn ..
  have hcounted : counted m s (n + 1) = (steps m n s).tally m (counted m s n) := rfl
  have hstarted : loopsStarted m s (n + 1) = loopsStarted m s n +
      if openLoops (steps m n s).pending < openLoops (steps m (n + 1) s).pending then 1 else 0 :=
    rfl
  -- Only a start adds to the loops, so the two sides of the balance change together.
  cases hturn with
  | start tally before after loops =>
    rw [if_pos (by omega)] at hstarted
    rw [tally] at hcounted
    simp only [id] at hcounted
    exact ⟨haccounted, by rw [hcounted]; omega, by omega, .inr (by omega)⟩
  | next tally before after inside loops =>
    rw [if_neg (by omega)] at hstarted
    rw [tally] at hcounted
    refine ⟨haccounted, ?_, by omega, .inr (by omega)⟩
    rw [hcounted]
    simp only [Profile.tailCall]
    omega
  | call c control after loops =>
    rw [if_neg (by omega)] at hstarted
    have hbefore : (steps m n s).control.calls = 1 := by rw [control]; rfl
    obtain ⟨hc, ht⟩ := calls_tally (m := m) control (counted m s n)
    rw [← hcounted] at hc ht
    exact ⟨haccounted, by omega, by omega, by omega⟩
  | other tally before after loops =>
    rw [if_neg (by omega)] at hstarted
    rw [tally] at hcounted
    simp only [id] at hcounted
    exact ⟨haccounted, by rw [hcounted]; omega, by omega, by rw [hcounted]; omega⟩

theorem calls_of_result? {s : State} {r : Except Failure Value} (h : s.result? = some r) :
    s.control.unbound = unboundCalls r ∧ s.control.calls = 0 := by
  obtain ⟨control, pending, store, stack, profile⟩ := s
  cases pending with
  | nil =>
    cases control with
    | yield v =>
      obtain rfl := Option.some.inj h
      exact ⟨rfl, rfl⟩
    | raise e =>
      obtain rfl := Option.some.inj h
      exact ⟨rfl, rfl⟩
    | _ => cases h
  | cons p rest => cases h

end Machine

open Machine

theorem Interpreter.callsBalance_of_launch {i : Interpreter} {w : World} {t : Task} {s : State}
    (h : i.launch w t = .ok s) (m : Setup) (n : Nat) :
    CallsBalance m s n := by
  induction n with
  | zero =>
    have haccounted : Profile.Accounted {} 0 := ⟨rfl, rfl, Nat.le_refl _, Nat.le_refl _⟩
    rcases launch_cases h with ⟨store, e, frame, rfl⟩ | ⟨store, c, rfl⟩
    · exact ⟨haccounted, rfl, Nat.le_refl _, .inl rfl⟩
    · exact ⟨haccounted, rfl, Nat.le_refl _, .inl rfl⟩
  | succ n ih => exact ih.succ

/-- Every call is accounted for by its transfer, unless the task fails for want of its entry point,
and by the loop that made it. -/
theorem dispatch_counts_balance (fuel : Nat) (i : Interpreter) (w : World) (t : Task)
    (o : Interpreter.Outcome) (p : Profile) (h : i.perform fuel w t = some o)
    (hp : i.profile = some p) :
    (∃ d : Profile, o.interpreter.profile = some (p.add d) ∧
      d.calls = d.direct + d.indirect + unboundCalls o.result ∧
      d.direct = d.hits + d.misses - d.megamorphic ∧ d.megamorphic ≤ d.misses ∧
      d.megamorphic ≤ d.indirect ∧
      d.calls = d.tailCalls + i.loopsStarted fuel w t ∧
      (d.tailCalls < d.calls ∨ d.tailCalls = 0 ∧ d.calls = 0)) ∧
    ∀ s k c around, i.launch w t = .ok s →
      Reaches (steps (i.setup w.library) k s) true c around →
      (∀ rest, around ≠ .leave :: rest) →
      steps (i.setup w.library) (k + 2) s =
          { steps (i.setup w.library) k s with
            control := .dispatch c, pending := .loop :: around } ∧
        Machine.loopsStarted (i.setup w.library) s (k + 2) =
          Machine.loopsStarted (i.setup w.library) s k + 1 := by
  constructor
  · rcases Interpreter.perform_cases h with ⟨cause, hs, rfl⟩ | ⟨s, r, u, hs, hu, hr, rfl⟩
    · obtain ⟨expected, got, rfl, -⟩ := Interpreter.isMismatch_of_launch hs
      have hloops : i.loopsStarted fuel w t = 0 := by simp only [Interpreter.loopsStarted, hs]
      refine ⟨{}, hp, rfl, rfl, Nat.le_refl _, Nat.le_refl _, ?_, .inr ⟨rfl, rfl⟩⟩
      rw [hloops]
    · have hloops : i.loopsStarted fuel w t =
          Machine.loopsStarted (i.setup w.library) s fuel := by
        simp only [Interpreter.loopsStarted, hs]
      have hprofile := profile_steps_eq (i.setup w.library) s fuel
      rw [hu, (Interpreter.launch_effects hs).2.2, hp] at hprofile
      obtain ⟨⟨hcalls, hdirect, hmisses, hindirect⟩, hbalance, -, htail⟩ :=
        Interpreter.callsBalance_of_launch hs (i.setup w.library) fuel
      obtain ⟨hunbound, hdone⟩ := calls_of_result? hr
      rw [hu, hunbound] at hcalls
      rw [hu, hdone] at hbalance
      rw [hloops]
      exact ⟨_, hprofile, hcalls, by omega, hmisses, hindirect, hbalance, by omega⟩
  · intro s k c around hs hreaches houtside
    have hseated := seated_steps (Interpreter.seated_of_launch hs) (i.setup w.library) k
    exact hreaches.starts_loop hseated.rooted houtside

def chainedWorld : World :=
  { library := ⟨#[
      { name := "first", params := [], layout := {}
        body := .apply (.literal (.closure ⟨⟨1⟩, none⟩)) [] true ⟨1⟩ },
      { name := "second", params := [], layout := {}, body := .literal .unit }]⟩
    store :=
      { cells := #[⟨"first", .lambda ⟨0⟩, 0⟩, ⟨"second", .lambda ⟨1⟩, 0⟩, ⟨"later", .unbound, 0⟩]
        sites := #[.fresh, .megamorphic, .fresh] } }

def callTwice : Task :=
  .invoke (.begin [.apply (.literal (.closure ⟨⟨0⟩, none⟩)) [] true ⟨0⟩,
    .apply (.literal (.closure ⟨⟨2⟩, none⟩)) [] false ⟨2⟩])

/-- Of the three calls two start loops, of which the call that is only marked is one; two have an
entry point. -/
theorem dispatch_counts_balance_chained :
    ∃ (o : Interpreter.Outcome) (d : Profile) (s : State) (around : List Pending),
      countingInterpreter.perform 30 chainedWorld callTwice = some o ∧
      o.result = .error { cause := .unboundFunction "later", trace := none } ∧
      o.interpreter.profile = some (Profile.add {} d) ∧
      d.calls = d.direct + d.indirect + 1 ∧ d.calls = d.tailCalls + 2 ∧
      countingInterpreter.launch chainedWorld callTwice = .ok s ∧
      Reaches (steps (countingInterpreter.setup chainedWorld.library) 3 s) true
        ⟨⟨0⟩, ⟨⟨0⟩, none⟩, []⟩ around ∧
      (steps (countingInterpreter.setup chainedWorld.library) 5 s).pending = .loop :: around ∧
      (steps (countingInterpreter.setup chainedWorld.library) 5 s).profile = some {} := by
  have hrun : countingInterpreter.perform 30 chainedWorld callTwice =
      some ((countingInterpreter.perform 30 chainedWorld callTwice).get rfl) :=
    (Option.some_get _).symm
  obtain ⟨⟨d, hprofile, hcalls, -, -, -, hloops, -⟩, hstarts⟩ :=
    dispatch_counts_balance 30 countingInterpreter chainedWorld callTwice _ {} hrun rfl
  obtain ⟨s, around, hs, hreaches, houtside⟩ : ∃ s around,
      countingInterpreter.launch chainedWorld callTwice = .ok s ∧
      Reaches (steps (countingInterpreter.setup chainedWorld.library) 3 s) true
        ⟨⟨0⟩, ⟨⟨0⟩, none⟩, []⟩ around ∧ ∀ rest, around ≠ .leave :: rest :=
    ⟨_, _, rfl, .callee (.closure ⟨⟨0⟩, none⟩) ⟨0⟩ rfl rfl rfl rfl, nofun⟩
  have hloop := (hstarts s 3 _ around hs hreaches houtside).1
  have huncounted : (steps (countingInterpreter.setup chainedWorld.library) 3 s).profile =
      some {} := by
    obtain rfl := Except.ok.inj hs
    rfl
  exact ⟨_, d, s, around, hrun, rfl, hprofile, hcalls, hloops, hs, hreaches,
    congrArg State.pending hloop, (congrArg State.profile hloop).trans huncounted⟩

end TreeMachine
