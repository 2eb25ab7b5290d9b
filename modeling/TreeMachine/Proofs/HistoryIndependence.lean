import TreeMachine.Proofs.Lockstep

set_option autoImplicit false

namespace TreeMachine
open Machine

/-- The same failure, or values of the same type and with the same text, which are equal if either
is an atom. -/
inductive SameResult (a a' : Store) : Except Failure Value → Except Failure Value → Prop where
  | error (e : Failure) : SameResult a a' (.error e) (.error e)
  | ok {v v' : Value} (typeName : v'.typeName = v.typeName) (text : a'.text v' = a.text v)
      (atom : v.isAtom = true ∨ v'.isAtom = true → v' = v) : SameResult a a' (.ok v) (.ok v')

/-- An invocation ends in both worlds or in neither. If it ends, the results are the same and both
interpreters have added the same text to their buffers. -/
structure SameInvocation (e : Expr) (layout : Layout) (i : Interpreter) (w : World)
    (i' : Interpreter) (w' : World) : Prop where
  ends : (∃ n o, i.invokeWith n w e layout = some o) ↔
    ∃ n o, i'.invokeWith n w' e layout = some o
  result : ∀ n n' o o', i.invokeWith n w e layout = some o →
    i'.invokeWith n' w' e layout = some o' →
    SameResult o.world.store o'.world.store o.result o'.result
  text : ∀ n n' o o' text text', i.invokeWith n w e layout = some o →
    i'.invokeWith n' w' e layout = some o' → w.store.sink i.sink = .buffer text →
    w'.store.sink i'.sink = .buffer text' →
    ∃ added, o.world.store.sink i.sink = .buffer (text ++ added) ∧
      o'.world.store.sink i'.sink = .buffer (text' ++ added)

theorem SameResult.of_twin {w w' : World} {a a' : Store} (ha : a.Twin w w' a')
    {r r' : Except Failure Value} (h : Agree (Value.Twin w w') r r') : SameResult a a' r r' := by
  cases h with
  | error e => exact .error e
  | ok hv =>
    refine .ok hv.typeName (ha.text hv) fun hatom => ?_
    cases hv with
    | atom => rfl
    | closure => simp [Value.isAtom] at hatom
    | box => simp [Value.isAtom] at hatom

theorem exists_iff_of_rel {α : Type} {R : α → α → Prop} {x y : Option α} (h : Option.Rel R x y) :
    (∃ a, x = some a) ↔ ∃ b, y = some b := by
  cases h with
  | none => exact Iff.rfl
  | some _ => simp

namespace Interpreter

theorem invokeWith_of_le {a b : Nat} {i : Interpreter} {w : World} {e : Expr} {layout : Layout}
    {o : Outcome} (h : i.invokeWith a w e layout = some o) (hab : a ≤ b) :
    i.invokeWith b w e layout = some o := by
  obtain ⟨r, t, hrun, ho⟩ := runFrom_eq_some_iff.1 h
  exact runFrom_eq_some_iff.2 ⟨r, t, run_of_le hrun hab, ho⟩

/-- The interpreters treat calls and overflow alike, and no call is active in either. -/
structure Alike (i i' : Interpreter) : Prop where
  idle : i.Idle
  idle' : i'.Idle
  mode : i'.mode = i.mode
  overflow : i'.overflow = i.overflow

variable {i i' : Interpreter} {w w' : World} {e : Expr} {layout : Layout}

theorem Alike.setup (h : i.Alike i') : Setup.Twin w w' (i.setup w.library) (i'.setup w'.library) :=
  ⟨rfl, rfl, h.overflow⟩

theorem Alike.start (h : i.Alike i') (layout : Layout) (he : e.Common w w') :
    State.Twin w w'
      (i.start (w.store.addFrame (.activate layout none)).2 (.eval e ⟨w.store.frames.size⟩) [])
      (i'.start (w'.store.addFrame (.activate layout none)).2 (.eval e ⟨w'.store.frames.size⟩)
        []) := by
  refine ⟨.eval he (.refl _ _), .nil, (Store.Twin.start w w').addFrame (.activate layout .none), ?_⟩
  have hidle := h.idle
  have hidle' := h.idle'
  rw [Idle, h.mode] at hidle'
  exact hidle'.trans hidle.symm

theorem Alike.printed (h : i.Alike i') (he : e.Common w w') (n : Nat) :
    i'.printed n w' (.invokeWith e layout) = i.printed n w (.invokeWith e layout) :=
  (h.start layout he).printed h.setup n

theorem Alike.runFrom (h : i.Alike i') {s s' : State} (hs : s.Twin w w' s') (n : Nat) :
    Option.Rel (fun o o' => SameResult o.world.store o'.world.store o.result o'.result)
      (i.runFrom n w.library s) (i'.runFrom n w'.library s') := by
  have hrun := hs.run h.setup n
  unfold Interpreter.runFrom
  generalize Machine.run (i.setup w.library) n s = x at hrun
  generalize Machine.run (i'.setup w'.library) n s' = x' at hrun
  cases hrun with
  | none => exact .none
  | some hsame => exact .some (.of_twin hsame.2 hsame.1)

theorem Alike.invokeWith (h : i.Alike i') (layout : Layout) (he : e.Common w w') (n : Nat) :
    Option.Rel (fun o o' => SameResult o.world.store o'.world.store o.result o'.result)
      (i.invokeWith n w e layout) (i'.invokeWith n w' e layout) :=
  h.runFrom (h.start layout he) n

theorem Alike.sameInvocation (h : i.Alike i') (layout : Layout) (he : e.Common w w') :
    SameInvocation e layout i w i' w' := by
  -- Both outcomes are there with the larger fuel.
  have hboth : ∀ n n' o o', i.invokeWith n w e layout = some o →
      i'.invokeWith n' w' e layout = some o' →
      i.invokeWith (max n n') w e layout = some o ∧
        i'.invokeWith (max n n') w' e layout = some o' := by
    intro n n' o o' ho ho'
    exact ⟨invokeWith_of_le ho (Nat.le_max_left n n'), invokeWith_of_le ho' (Nat.le_max_right n n')⟩
  refine ⟨exists_congr fun n => exists_iff_of_rel (h.invokeWith layout he n), ?_, ?_⟩
  · intro n n' o o' ho ho'
    obtain ⟨hn, hn'⟩ := hboth n n' o o' ho ho'
    have hrel := h.invokeWith layout he (max n n')
    rw [hn, hn'] at hrel
    cases hrel with
    | some hsame => exact hsame
  · intro n n' o o' text text' ho ho' htext htext'
    obtain ⟨hn, hn'⟩ := hboth n n' o o' ho ho'
    have hsink := sink_perform (t := .invokeWith e layout) hn i.sink
    have hsink' := sink_perform (t := .invokeWith e layout) hn' i'.sink
    rw [if_pos rfl, htext, Sink.printAll_buffer] at hsink
    rw [if_pos rfl, htext', Sink.printAll_buffer, h.printed he] at hsink'
    exact ⟨_, hsink, hsink'⟩

theorem library_perform {fuel : Nat} {t : Task} {o : Outcome} (h : i.perform fuel w t = some o) :
    o.world.library = w.library := by
  rcases perform_cases h with ⟨cause, -, rfl⟩ | ⟨s, r, u, -, -, -, rfl⟩
  · rfl
  · rfl

end Interpreter

namespace Session

theorem library_step {fuel : Nat} {s s' : Session} {a : HostStep}
    {r : Option (Except Failure Value)} (h : s.step Interpreter.perform fuel a = some (r, s')) :
    s'.world.library = s.world.library := by
  cases a with
  | bind closure target =>
    obtain ⟨-, rfl⟩ := Prod.mk.inj (Option.some.inj h)
    rfl
  | task on t =>
    obtain ⟨o, ho, heq⟩ := Option.map_eq_some_iff.1 h
    obtain ⟨-, rfl⟩ := Prod.mk.inj heq
    exact Interpreter.library_perform ho

theorem library_run {fuel : Nat} {s s' : Session} {acts : List HostStep}
    {rs : List (Option (Except Failure Value))}
    (h : s.run Interpreter.perform fuel acts = some (rs, s')) :
    s'.world.library = s.world.library :=
  run_invariant (P := fun t => t.world.library = s.world.library)
    (fun _ _ _ _ _ ht hstep => (library_step hstep).trans ht) rfl h

theorem common_run {fuel : Nat} {s s' : Session} {acts : List HostStep}
    {rs : List (Option (Except Failure Value))} {e : Expr} (he : e.Portable s.world)
    (hbind : ∀ closure target c, .bind closure target ∈ acts →
      Expr.Below s.world.library (.literal (.closure c)) e → closure.cell ≠ c.cell)
    (h : s.run Interpreter.perform fuel acts = some (rs, s')) : e.Common s.world s'.world := by
  refine ⟨he, fun c hc => ?_, fun id _ => by rw [library_run h]⟩
  obtain ⟨op, hop⟩ := he _ hc
  have hlt : c.cell.index < s.world.store.cells.size :=
    Store.lt_size_of_isBound (by rw [hop]; rfl)
  have hkept : s'.Holds c.cell (s.world.store.cell c.cell) :=
    holds_run ⟨hlt, rfl⟩ (fun closure target hmem => hbind closure target c hmem hc) h
  rw [hkept.2]
  exact ⟨rfl, rfl⟩

end Session

/-- An invocation of a tree has the same outcome in any two worlds that have its codes and its
built-in operations in common. -/
theorem invocations_history_independent (e : Expr) (layout : Layout) :
    (∀ (w w' : World) (i i' : Interpreter), e.Common w w' → i.Idle → i'.Idle →
      i'.mode = i.mode → i'.overflow = i.overflow → SameInvocation e layout i w i' w') ∧
    ∀ (fuel : Nat) (acts : List HostStep) (before after : Session)
      (rs : List (Option (Except Failure Value))) (on on' : Nat), before.Idle →
      before.run Interpreter.perform fuel acts = some (rs, after) → e.Portable before.world →
      (∀ closure target c, .bind closure target ∈ acts →
        Expr.Below before.world.library (.literal (.closure c)) e → closure.cell ≠ c.cell) →
      (after.interpreters on').mode = (before.interpreters on).mode →
      (after.interpreters on').overflow = (before.interpreters on).overflow →
      SameInvocation e layout (before.interpreters on) before.world (after.interpreters on')
        after.world := by
  refine ⟨?_, ?_⟩
  · intro w w' i i' he hi hi' hmode hoverflow
    exact Interpreter.Alike.sameInvocation ⟨hi, hi', hmode, hoverflow⟩ layout he
  · intro fuel acts before after rs on on' hidle hrun he hbind hmode hoverflow
    have hidle' := Session.idle_run hidle hrun
    exact Interpreter.Alike.sameInvocation ⟨hidle on, hidle' on', hmode, hoverflow⟩ layout
      (Session.common_run he hbind hrun)

def closureTree : Expr :=
  .begin [.apply (.literal (.closure ⟨⟨0⟩, none⟩)) [.lambda ⟨0⟩] false ⟨0⟩, .lambda ⟨0⟩]

def closureLibrary : Library := ⟨#[{ name := "k", params := [], body := .begin [], layout := {} }]⟩

def quietWorld : World :=
  { library := closureLibrary
    store :=
    { cells := #[{ name := "println", target := .primitive .println }]
      sites := #[.fresh]
      sinks := #[.buffer ""] } }

def busyWorld : World :=
  { library := closureLibrary
    store :=
    { frames := #[.activate {} none, .activate {} none]
      boxes := #[.unit]
      cells := #[{ name := "println", target := .primitive .println, generation := 4 },
        { name := "k", target := .lambda ⟨0⟩ }]
      sites := #[.megamorphic]
      sinks := #[.buffer "before\n"] } }

theorem common_closureTree : closureTree.Common quietWorld busyWorld := by
  have hlambda : (Expr.lambda ⟨0⟩).Common quietWorld busyWorld := by
    refine .of_inner (fun _ => Expr.noConfusion) (fun _ => Expr.noConfusion) (fun _ _ => rfl) ?_
    intro x hx
    cases hx with
    | child hchild => cases hchild
    | body => exact .begin (by simp)
  have hprint : (Expr.literal (.closure ⟨⟨0⟩, none⟩)).Common quietWorld busyWorld := by
    refine .of_inner ?_ ?_ (fun _ => Expr.noConfusion) ?_
    · rintro v ⟨⟩
      exact ⟨.println, rfl⟩
    · rintro c ⟨⟩
      exact ⟨rfl, rfl⟩
    · intro x hx
      cases hx with
      | child hchild => cases hchild
  refine .begin fun e he => ?_
  rcases List.mem_pair.1 he with rfl | rfl
  · refine .of_inner (fun _ => Expr.noConfusion) (fun _ => Expr.noConfusion)
      (fun _ => Expr.noConfusion) fun x hx => ?_
    cases hx with
    | child hchild =>
      cases hchild with
      | callee => exact hprint
      | argument hmem =>
        obtain rfl := List.mem_singleton.1 hmem
        exact hlambda
  · exact hlambda

/-- The closures are made in different places and shown alike; and so it is when the tree has been
invoked before. -/
theorem invocations_history_independent_closure :
    (∃ o o', countingInterpreter.invokeWith 20 quietWorld closureTree {} = some o ∧
      { countingInterpreter with cacheSize := 3, profile := none }.invokeWith 20 busyWorld
        closureTree {} = some o' ∧
      o.result = .ok (.closure ⟨⟨2⟩, some ⟨0⟩⟩) ∧ o'.result = .ok (.closure ⟨⟨3⟩, some ⟨2⟩⟩) ∧
      SameResult o.world.store o'.world.store o.result o'.result ∧
      o.world.store.sink ⟨0⟩ = .buffer "#<closure k>\n" ∧
      o'.world.store.sink ⟨0⟩ = .buffer ("before\n" ++ "#<closure k>\n")) ∧
    ∃ rs after, Session.run Interpreter.perform 20 ⟨quietWorld, fun _ => countingInterpreter⟩
        [.task 0 (.invoke closureTree)] = some (rs, after) ∧
      SameInvocation closureTree {} countingInterpreter quietWorld (after.interpreters 1)
        after.world := by
  have hcommon := common_closureTree
  obtain ⟨htwo, hsession⟩ := invocations_history_independent closureTree {}
  constructor
  · have hsame := htwo quietWorld busyWorld countingInterpreter
      { countingInterpreter with cacheSize := 3, profile := none } hcommon rfl rfl rfl rfl
    obtain ⟨o, ho, hresult, hprinted⟩ : ∃ o, countingInterpreter.invokeWith 20 quietWorld
        closureTree {} = some o ∧ o.result = .ok (.closure ⟨⟨2⟩, some ⟨0⟩⟩) ∧
          o.world.store.sink ⟨0⟩ = .buffer "#<closure k>\n" := ⟨_, rfl, rfl, by decide +kernel⟩
    obtain ⟨o', ho', hresult'⟩ : ∃ o', { countingInterpreter with
        cacheSize := 3, profile := none }.invokeWith 20 busyWorld closureTree {} = some o' ∧
          o'.result = .ok (.closure ⟨⟨3⟩, some ⟨2⟩⟩) := ⟨_, rfl, rfl⟩
    obtain ⟨added, htext, htext'⟩ := hsame.text 20 20 o o' "" "before\n" ho ho' rfl rfl
    obtain rfl : "#<closure k>\n" = added := by
      simpa using Sink.buffer.inj (hprinted.symm.trans htext)
    exact ⟨o, o', ho, ho', hresult, hresult', hsame.result 20 20 o o' ho ho', hprinted, htext'⟩
  · refine ⟨_, _, rfl, ?_⟩
    refine hsession 20 [.task 0 (.invoke closureTree)] ⟨quietWorld, fun _ => countingInterpreter⟩
      _ _ 0 1 (fun _ => rfl) rfl hcommon.portable ?_ rfl rfl
    intro closure target c hmem
    cases List.mem_singleton.1 hmem

end TreeMachine
