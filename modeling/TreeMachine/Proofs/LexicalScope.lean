import TreeMachine.Proofs.Backtraces
import TreeMachine.Proofs.Typing

set_option autoImplicit false

namespace TreeMachine

/-- One lexical scope: how many slots it has, and which of them are parameters. -/
structure Scope where
  size : Nat
  params : List Nat
  deriving DecidableEq, Repr

namespace Code

def scope (c : Code) : Scope := ⟨c.layout.size, c.params.map SlotId.index⟩

def ParamsFit (c : Code) : Prop := ∀ p ∈ c.params, p.index < c.layout.size

end Code

namespace Expr

/-- Every address in the tree names a slot of a scope of the chain, innermost first, and so it is in
the bodies of its lambdas, each within the scope of its code. -/
inductive Scoped (library : Library) : List Scope → Expr → Prop where
  | literal {chain : List Scope} (v : Value) : Scoped library chain (.literal v)
  | read {chain : List Scope} {slot : SlotId} {depth : Nat} {scope : Scope}
      (level : chain[depth]? = some scope) (index : slot.index < scope.size) :
      Scoped library chain (.read slot depth)
  | write {chain : List Scope} {slot : SlotId} {depth : Nat} {scope : Scope} {value : Expr}
      (level : chain[depth]? = some scope) (index : slot.index < scope.size)
      (below : Scoped library chain value) : Scoped library chain (.write slot depth value)
  | ite {chain : List Scope} {c t e : Expr} (condition : Scoped library chain c)
      (whenTrue : Scoped library chain t) (whenFalse : Scoped library chain e) :
      Scoped library chain (.ite c t e)
  | begin {chain : List Scope} {items : List Expr}
      (below : ∀ e ∈ items, Scoped library chain e) : Scoped library chain (.begin items)
  | lambda {chain : List Scope} {id : CodeId} (params : (library.code id).ParamsFit)
      (body : Scoped library ((library.code id).scope :: chain) (library.code id).body) :
      Scoped library chain (.lambda id)
  | apply {chain : List Scope} {callee : Expr} {args : List Expr} {tail : Bool} {site : SiteId}
      (below : Scoped library chain callee) (operands : ∀ e ∈ args, Scoped library chain e) :
      Scoped library chain (.apply callee args tail site)

theorem Scoped.child {library : Library} {chain : List Scope} {e whole : Expr}
    (h : Scoped library chain whole) (hchild : Child e whole) : Scoped library chain e := by
  cases hchild with
  | value =>
    cases h with
    | write level index below => exact below
  | condition =>
    cases h with
    | ite condition whenTrue whenFalse => exact condition
  | whenTrue =>
    cases h with
    | ite condition whenTrue whenFalse => exact whenTrue
  | whenFalse =>
    cases h with
    | ite condition whenTrue whenFalse => exact whenFalse
  | item hmem =>
    cases h with
    | begin below => exact below e hmem
  | callee =>
    cases h with
    | apply below operands => exact below
  | argument hmem =>
    cases h with
    | apply below operands => exact operands e hmem

end Expr

/-- The frames from this one outwards are activations of the scopes of the chain, and nothing lies
outside them. All parameters have been written. -/
inductive Store.Matches (a : Store) : Option FrameId → List Scope → Prop where
  | nil : Matches a none []
  | cons {f : FrameId} {scope : Scope} {chain : List Scope} (there : f.index < a.frames.size)
      (size : (a.frame f).size = scope.size)
      (params : ∀ i ∈ scope.params, (a.frame f).Written i)
      (outer : Matches a (a.frame f).parent chain) : Matches a (some f) (scope :: chain)

namespace Store.Matches

variable {a b : Store}

theorem grows {env : Option FrameId} {chain : List Scope} (h : a.Matches env chain)
    (hg : a.Grows b) : b.Matches env chain := by
  induction h with
  | nil => exact .nil
  | @cons f scope chain there size params _ ih =>
    have hframe := hg.frame f there
    refine .cons (Nat.lt_of_lt_of_le there hg.frames) (hframe.size.trans size) ?_ ?_
    · intro i hi
      exact hframe.written (params i hi)
    · rw [hframe.parent]
      exact ih

theorem ancestor {f : FrameId} {chain : List Scope} {depth : Nat} {scope : Scope}
    (h : a.Matches (some f) chain) (hlevel : chain[depth]? = some scope) :
    ∃ target, a.ancestor f depth = .ok target ∧ (a.frame target).size = scope.size ∧
      ∀ i ∈ scope.params, (a.frame target).Written i := by
  induction depth generalizing f chain with
  | zero =>
    cases h with
    | cons there size params outer =>
      obtain rfl := Option.some.inj hlevel
      exact ⟨f, rfl, size, params⟩
  | succ depth ih =>
    cases h with
    | cons there size params outer =>
      have hlevel' : _ = some scope := hlevel
      rw [List.getElem?_cons_succ] at hlevel'
      cases hparent : (a.frame f).parent with
      | none =>
        -- The chain ends with the frames, so there is no scope so far out.
        rw [hparent] at outer
        cases outer
        simp at hlevel'
      | some up =>
        rw [hparent] at outer
        obtain ⟨target, htarget, hrest⟩ := ih outer hlevel'
        exact ⟨target, by simp only [Store.ancestor, hparent, htarget], hrest⟩

end Store.Matches

/-- The cell is there, and a code in it has its parameters among its slots and a body scoped within
a chain that the captured frames match. -/
structure Closure.Scoped (library : Library) (a : Store) (c : Closure) : Prop where
  there : c.cell.index < a.cells.size
  lambda : ∀ id, (a.cell c.cell).target = .lambda id →
    (library.code id).ParamsFit ∧ ∃ chain, a.Matches c.env chain ∧
      (library.code id).body.Scoped library ((library.code id).scope :: chain)

def Value.Scoped (library : Library) (a : Store) (v : Value) : Prop :=
  ∀ c, v = .closure c → c.Scoped library a

theorem Value.scoped_of_isScalar {v : Value} (h : v.isScalar = true) (library : Library)
    (a : Store) : v.Scoped library a := by
  rintro c rfl
  cases h

theorem Value.scoped_box (b : BoxId) (library : Library) (a : Store) :
    (Value.box b).Scoped library a := by
  intro c hc
  cases hc

theorem Value.Scoped.grows {library : Library} {a b : Store} {v : Value}
    (h : v.Scoped library a) (hg : a.Grows b) : v.Scoped library b := by
  intro c hc
  obtain ⟨there, lambda⟩ := h c hc
  refine ⟨Nat.lt_of_lt_of_le there hg.cells.size_le, fun id hid => ?_⟩
  rw [hg.cells.cell there] at hid
  obtain ⟨hparams, chain, hmatches, hbody⟩ := lambda id hid
  exact ⟨hparams, chain, hmatches.grows hg, hbody⟩

structure Store.Scoped (library : Library) (a : Store) : Prop where
  slots : ∀ f v, (a.frame f).Contains v → v.Scoped library a
  boxes : ∀ b, (a.box b).Scoped library a
  literals : ∀ id v, Expr.Part (.literal v) (library.code id).body → v.Scoped library a

theorem Store.Scoped.grows {library : Library} {a b : Store} (h : a.Scoped library)
    (hg : a.Grows b) (hslots : ∀ f v, (b.frame f).Contains v → v.Scoped library a)
    (hboxes : ∀ id, (b.box id).Scoped library a) : b.Scoped library :=
  ⟨fun f v hv => (hslots f v hv).grows hg, fun id => (hboxes id).grows hg,
    fun id v hv => (h.literals id v hv).grows hg⟩

def Task.Scoped (library : Library) (a : Store) : Task → Prop
  | .invoke e =>
    e.Scoped library [⟨0, []⟩] ∧ ∀ v, Expr.Part (.literal v) e → v.Scoped library a
  | .invokeWith e layout =>
    e.Scoped library [⟨layout.size, []⟩] ∧ ∀ v, Expr.Part (.literal v) e → v.Scoped library a
  | .call callee args => callee.Scoped library a ∧ ∀ v ∈ args, v.Scoped library a

namespace Machine

def scopeTyping (library : Library) : Typing where
  value a v := v.Scoped library a
  tree a e f := (∃ chain, a.Matches (some f) chain ∧ e.Scoped library chain) ∧
    ∀ v, Expr.Part (.literal v) e → v.Scoped library a
  place a slot depth f := ∃ chain scope, a.Matches (some f) chain ∧
    chain[depth]? = some scope ∧ slot.index < scope.size
  site _ := True
  store a := a.Scoped library

theorem scoped_addCell {library : Library} {a : Store} {id : CodeId} {f : FrameId}
    {cell : FunctionCell} (ha : a.Scoped library)
    (htree : (scopeTyping library).tree a (.lambda id) f) (hcell : cell.target = .lambda id) :
    (a.addCell cell).2.Scoped library ∧
      (Value.closure ⟨⟨a.cells.size⟩, some f⟩).Scoped library (a.addCell cell).2 := by
  have hg := Store.grows_change (.addCell (a := a) cell)
  refine ⟨ha.grows hg ha.slots ha.boxes, ?_⟩
  rintro c hc
  obtain rfl := Value.closure.inj hc
  refine ⟨by simp [Store.addCell], fun id' hid' => ?_⟩
  rw [Store.cell_addCell, if_pos rfl, hcell] at hid'
  obtain rfl := Target.lambda.inj hid'
  obtain ⟨⟨chain, hmatches, hscoped⟩, -⟩ := htree
  cases hscoped with
  | lambda params body => exact ⟨params, chain, hmatches.grows hg, body⟩

theorem scoped_write {library : Library} {a b : Store} {slot : SlotId} {depth : Nat}
    {f : FrameId} {v : Value} (ha : a.Scoped library) (hv : v.Scoped library a)
    (h : a.write f slot depth v = .ok b) : b.Scoped library := by
  have hg := Store.grows_change (.write h)
  obtain ⟨target, g, -, hw, rfl⟩ := Store.write_eq_ok h
  refine ha.grows hg (fun f' w hcontains => ?_) ha.boxes
  rw [Store.frame_setFrame] at hcontains
  split at hcontains
  · rcases Frame.contains_of_write hw hcontains with rfl | hold
    · exact hv
    · exact ha.slots target w hold
  · exact ha.slots f' w hcontains

theorem scoped_addFrame {library : Library} {a : Store} {frame : Frame} (ha : a.Scoped library)
    (hframe : ∀ v, frame.Contains v → v.Scoped library a) :
    (a.addFrame frame).2.Scoped library := by
  refine ha.grows (Store.grows_change (.addFrame frame)) (fun f v hv => ?_) ha.boxes
  rw [Store.frame_addFrame] at hv
  split at hv
  · exact hframe v hv
  · exact ha.slots f v hv

theorem matches_addFrame {a : Store} {code : Code} {env : Option FrameId} {chain : List Scope}
    {args : List Value} {frame : Frame} (hmatches : a.Matches env chain)
    (hlength : args.length = code.arity)
    (hbind : (Frame.activate code.layout env).bind code.params args = .ok frame) :
    (a.addFrame frame).2.Matches (some ⟨a.frames.size⟩) (code.scope :: chain) := by
  have hgrows := Frame.grows_bind hbind
  have hnew : (a.addFrame frame).2.frame ⟨a.frames.size⟩ = frame := by
    rw [Store.frame_addFrame, if_pos rfl]
  refine .cons (by simp [Store.addFrame]) ?_ ?_ ?_
  · rw [hnew, hgrows.size, Frame.size_activate]
    rfl
  · intro i hi
    obtain ⟨p, hp, rfl⟩ := List.mem_map.1 hi
    rw [hnew]
    exact Frame.written_of_bind hbind hlength p hp
  · rw [hnew, hgrows.parent]
    exact hmatches.grows (Store.grows_change (.addFrame frame))

theorem scopeTyping_lawful (m : Setup) : (scopeTyping m.library).Lawful m where
  grows_value hg hv := hv.grows hg
  grows_tree hg htree := by
    obtain ⟨⟨chain, hmatches, hscoped⟩, hliterals⟩ := htree
    exact ⟨⟨chain, hmatches.grows hg, hscoped⟩, fun v hv => (hliterals v hv).grows hg⟩
  grows_place hg hplace := by
    obtain ⟨chain, scope, hmatches, hrest⟩ := hplace
    exact ⟨chain, scope, hmatches.grows hg, hrest⟩
  scalar a v hv := Value.scoped_of_isScalar hv m.library a
  literal htree := htree.2 _ (Expr.Part.refl _)
  child hchild htree := by
    obtain ⟨⟨chain, hmatches, hscoped⟩, hliterals⟩ := htree
    exact ⟨⟨chain, hmatches, hscoped.child hchild⟩, fun v hv => hliterals v (hv.of_child hchild)⟩
  rest htree := by
    obtain ⟨⟨chain, hmatches, hscoped⟩, hliterals⟩ := htree
    refine ⟨⟨chain, hmatches, ?_⟩, fun v hv => hliterals v (hv.of_rest fun _ => Expr.noConfusion)⟩
    cases hscoped with
    | begin below => exact .begin fun e he => below e (List.mem_cons_of_mem _ he)
  place_of_tree htree := by
    obtain ⟨⟨chain, hmatches, hscoped⟩, -⟩ := htree
    cases hscoped with
    | write level index below => exact ⟨chain, _, hmatches, level, index⟩
  site_of_tree _ := trivial
  read ha _ hread := by
    obtain ⟨target, -, hslot⟩ := Store.read_eq_ok hread
    exact ha.slots target _ (Frame.contains_of_read hslot)
  unbox ha _ := ha.boxes _
  lambda ha htree hcell := scoped_addCell ha htree (by rw [hcell])
  write ha _ hv hwrite := scoped_write ha hv hwrite
  addBox {a v} ha hv := by
    refine ⟨ha.grows (Store.grows_change (.addBox v)) ha.slots fun id => ?_,
      Value.scoped_box _ _ _⟩
    rw [Store.box_addBox]
    split
    · exact hv
    · exact ha.boxes id
  setBox {a b v} ha _ hv := by
    refine ha.grows (Store.grows_change (.setBox b v)) ha.slots fun id => ?_
    rw [Store.box_setBox]
    split
    · exact hv
    · exact ha.boxes id
  setSite {a id} site ha _ := ha.grows (Store.grows_change (.setSite id site)) ha.slots ha.boxes
  println sink line ha := ha.grows (Store.grows_change (.println sink line)) ha.slots ha.boxes
  enter {a c args id frame} ha hclosure hargs htarget hlength hbind := by
    obtain ⟨-, lambda⟩ := hclosure c rfl
    obtain ⟨-, chain, hmatches, hbody⟩ := lambda id htarget
    have hg := Store.grows_change (.addFrame (a := a) frame)
    refine ⟨scoped_addFrame ha fun v hv => ?_,
      ⟨_, matches_addFrame hmatches hlength hbind, hbody⟩,
      fun v hv => (ha.literals id v hv).grows hg⟩
    rcases Frame.contains_of_bind hbind hv with hmem | hnone
    · exact hargs v hmem
    · exact absurd hnone (Frame.not_contains_activate _ _ v)

end Machine

namespace Frame

theorem unwritten_of_read {f : Frame} {slot : SlotId} {fault : SlotFault}
    (h : f.read slot = .error fault) (hlt : slot.index < f.size) :
    fault = .unwritten ∧ ¬ f.Written slot.index := by
  unfold read at h
  have hs := Array.getElem?_eq_getElem (show slot.index < f.slots.size from hlt)
  rw [hs] at h
  generalize f.slots[slot.index] = s at h hs
  cases s with
  | empty =>
    refine ⟨(Except.error.inj h).symm, ?_⟩
    rintro ⟨t, ht, hne⟩
    exact hne (Option.some.inj (ht.symm.trans hs))
  | _ => cases h

end Frame

namespace Machine

/-- The next step reads a slot to which nothing has been written. -/
structure ReadsUnset (s : State) (slot : SlotId) (depth : Nat) (target : FrameId) : Prop where
  control : ∃ frame, s.control = .eval (.read slot depth) frame ∧
    s.store.ancestor frame depth = .ok target
  range : slot.index < (s.store.frame target).size
  unset : ¬ (s.store.frame target).Written slot.index

theorem write_of_place {library : Library} {a : Store} {slot : SlotId} {depth : Nat}
    {f : FrameId} (h : (scopeTyping library).place a slot depth f) (v : Value) :
    ∃ b, a.write f slot depth v = .ok b := by
  obtain ⟨chain, scope, hmatches, hlevel, hindex⟩ := h
  obtain ⟨target, htarget, hsize, -⟩ := hmatches.ancestor hlevel
  obtain ⟨g, hg⟩ := Frame.write_of_lt (f := a.frame target) (hsize ▸ hindex) v
  exact ⟨a.setFrame target g, by simp [Store.write_eq, htarget, hg, Except.bind, Except.map]⟩

theorem readsUnset_of_read {library : Library} {s : State} {slot : SlotId} {depth : Nat}
    {f : FrameId} {fault : SlotFault} (hc : s.control = .eval (.read slot depth) f)
    (htree : (scopeTyping library).tree s.store (.read slot depth) f)
    (h : s.store.read f slot depth = .error fault) :
    fault = .unwritten ∧ ∃ target, ReadsUnset s slot depth target := by
  obtain ⟨⟨chain, hmatches, hscoped⟩, -⟩ := htree
  cases hscoped with
  | read level index =>
    obtain ⟨target, htarget, hsize, -⟩ := hmatches.ancestor level
    rw [← hsize] at index
    simp only [Store.read_eq, htarget, Except.bind] at h
    obtain ⟨hfault, hunset⟩ := Frame.unwritten_of_read h index
    exact ⟨hfault, target, ⟨f, hc, htarget⟩, index, hunset⟩

theorem bind_of_closure {library : Library} {a : Store} {c : Closure} {id : CodeId}
    (h : (Value.closure c).Scoped library a) (htarget : (a.cell c.cell).target = .lambda id)
    (args : List Value) :
    ∃ frame, (Frame.activate (library.code id).layout c.env).bind (library.code id).params args =
      .ok frame := by
  obtain ⟨hparams, -⟩ := (h c rfl).lambda id htarget
  refine Frame.bind_of_lt (fun p hp => ?_) args
  rw [Frame.size_activate]
  exact hparams p hp

theorem unset_of_raises {m : Setup} {s : State} {name : String} {depth : Nat} {fault : SlotFault}
    (hs : (scopeTyping m.library).Holds s) (h : Raises m s (.invalidSlot name depth fault)) :
    fault = .unwritten ∧ ∃ slot target, slot.name = name ∧ ReadsUnset s slot depth target := by
  -- A write finds its place and the arguments find their slots, so only a read is left.
  have hcontrol := hs.control
  generalize hcause : Cause.invalidSlot name depth fault = cause at h
  cases h with
  | read control fails =>
    obtain ⟨rfl, rfl, rfl⟩ := Cause.invalidSlot.inj hcause
    rw [control] at hcontrol
    obtain ⟨hfault, target, hunset⟩ := readsUnset_of_read control hcontrol fails
    exact ⟨hfault, _, target, rfl, hunset⟩
  | store control pending fails =>
    obtain ⟨b, hb⟩ := write_of_place (hs.drop pending).1 _
    rw [hb] at fails
    cases fails
  | branch control pending fails =>
    subst hcause
    rename_i v _ _ _ _
    cases v <;> simp [Value.asBool] at fails
  | callee control pending fails =>
    subst hcause
    rename_i v _ _ _ _ _
    cases v <;> simp [Value.asClosure] at fails
  | primitive control target length fails =>
    have hdefect := Primitive.isDefect_of_apply fails
    rw [← hcause] at hdefect
    cases hdefect
  | param control target fails =>
    rw [control] at hcontrol
    obtain ⟨frame, hframe⟩ := bind_of_closure hcontrol.closure target _
    rw [hframe] at fails
    cases fails
  | _ => cases hcause

theorem written_of_callsCode {m : Setup} {s : State} {c : Call} {id : CodeId} {j k : Nat}
    (hs : (scopeTyping m.library).Holds (steps m j s)) (hcalls : CallsCode m (steps m j s) c id)
    (hroom : (steps m j s).stack.full? = none) (hjk : j < k) {p : SlotId}
    (hp : p ∈ (m.library.code id).params) :
    ((steps m k s).store.frame ⟨(steps m j s).store.frames.size⟩).Written p.index := by
  have hcontrol := hs.control
  rw [hcalls.control] at hcontrol
  obtain ⟨frame, hbind⟩ := bind_of_closure hcontrol.closure hcalls.target c.args
  obtain ⟨found, site, hstep⟩ := hcalls.step_eq
  have hstore : (steps m (j + 1) s).store =
      (((steps m j s).located c found site).store.addFrame frame).2 := by
    have hroom' : ((steps m j s).located c found site).stack.full? = none := hroom
    rw [steps_succ, hstep]
    simp only [enter, CallStack.push_of_room hroom', hbind]
  -- The activation takes the next frame, and from there on the frame only grows.
  have hframes : ((steps m j s).located c found site).store.frames.size =
      (steps m j s).store.frames.size := rfl
  obtain ⟨n, rfl⟩ := Nat.exists_eq_add_of_lt hjk
  have hgrows := grows_steps m n (steps m (j + 1) s)
  rw [← steps_add, show j + 1 + n = j + n + 1 by omega, hstore] at hgrows
  have hframe := hgrows.frame ⟨(steps m j s).store.frames.size⟩ (by simp [Store.addFrame, hframes])
  refine hframe.written ?_
  rw [Store.frame_addFrame, if_pos hframes.symm]
  exact Frame.written_of_bind hbind hcalls.length p hp

end Machine

open Machine

namespace Interpreter

theorem matches_root (a : Store) (layout : Layout) :
    (a.addFrame (.activate layout none)).2.Matches (some ⟨a.frames.size⟩) [⟨layout.size, []⟩] := by
  have hroot : (a.addFrame (.activate layout none)).2.frame ⟨a.frames.size⟩ =
      .activate layout none := by
    rw [Store.frame_addFrame, if_pos rfl]
  refine .cons (by simp [Store.addFrame]) ?_ (by simp) ?_
  · rw [hroot, Frame.size_activate]
  · rw [hroot]
    exact .nil

theorem scoped_root {library : Library} {a : Store} (ha : a.Scoped library) (layout : Layout) :
    (a.addFrame (.activate layout none)).2.Scoped library :=
  scoped_addFrame ha fun v hv => absurd hv (Frame.not_contains_activate _ _ v)

theorem holds_launch {i : Interpreter} {w : World} {t : Task} {s : State}
    (hworld : w.store.Scoped w.library) (htask : t.Scoped w.library w.store)
    (h : i.launch w t = .ok s) : (scopeTyping w.library).Holds s := by
  have hg := fun layout => Store.grows_change (.addFrame (a := w.store) (.activate layout none))
  cases t with
  | invoke e =>
    obtain rfl := Except.ok.inj h
    obtain ⟨hscoped, hliterals⟩ := htask
    exact ⟨scoped_root hworld {}, ⟨⟨_, matches_root w.store {}, hscoped⟩,
      fun v hv => (hliterals v hv).grows (hg {})⟩, by simp [start]⟩
  | invokeWith e layout =>
    obtain rfl := Except.ok.inj h
    obtain ⟨hscoped, hliterals⟩ := htask
    exact ⟨scoped_root hworld layout, ⟨⟨_, matches_root w.store layout, hscoped⟩,
      fun v hv => (hliterals v hv).grows (hg layout)⟩, by simp [start]⟩
  | call callee args =>
    obtain ⟨hcallee, hargs⟩ := htask
    cases callee with
    | closure c =>
      obtain rfl := Except.ok.inj h
      have hg := w.store.grows_addSite
      refine ⟨hworld.grows hg hworld.slots hworld.boxes,
        ⟨trivial, hcallee.grows hg, fun v hv => (hargs v hv).grows hg⟩, ?_⟩
      simp [start, Typing.PendingOk]
    | _ => cases h

end Interpreter

open Interpreter

/-- A scoped task in a scoped store fails of no slot fault but the read of a slot that was not
written, and that is no parameter. -/
theorem lexical_addressing_safe (i : Interpreter) (w : World) (t : Task) (fuel : Nat)
    (o : Outcome) (hworld : w.store.Scoped w.library) (htask : t.Scoped w.library w.store)
    (h : i.perform fuel w t = some o) :
    (∀ name depth fault trace,
      o.result = .error { cause := .invalidSlot name depth fault, trace } →
      fault = .unwritten ∧
      ∃ s k slot target, i.launch w t = .ok s ∧ slot.name = name ∧
        ReadsUnset (steps (i.setup w.library) k s) slot depth target ∧
        (target.index < w.store.frames.size →
          ¬ (w.store.frame target).Written slot.index) ∧
        (∀ j < k, ∀ c id,
          CallsCode (i.setup w.library) (steps (i.setup w.library) j s) c id →
          (steps (i.setup w.library) j s).stack.full? = none →
          target = ⟨(steps (i.setup w.library) j s).store.frames.size⟩ →
          ∀ p ∈ (w.library.code id).params, p.index ≠ slot.index)) ∧
    o.world.store.Scoped o.world.library ∧
    ∀ v, o.result = .ok v → v.Scoped o.world.library o.world.store := by
  cases hs : i.launch w t with
  | error cause =>
    rw [perform_of_launch_error hs, Option.some.injEq] at h
    subst h
    refine ⟨fun name depth fault trace hresult => ?_, hworld, fun v hv => by cases hv⟩
    simp only [refuse, Except.error.injEq, Failure.mk.injEq] at hresult
    obtain ⟨rfl, -⟩ := hresult
    cases t with
    | call callee args => cases callee <;> cases hs
    | _ => cases hs
  | ok s =>
    have hlawful := scopeTyping_lawful (i.setup w.library)
    have hholds := holds_launch hworld htask hs
    rw [perform_of_launch_ok hs] at h
    obtain ⟨r, u, hrun, rfl⟩ := runFrom_eq_some_iff.1 h
    obtain ⟨hstore, hvalue⟩ := hholds.run hlawful hrun
    refine ⟨fun name depth fault trace hresult => ?_, hstore, hvalue⟩
    obtain rfl : r = _ := hresult
    obtain ⟨k, hfails⟩ := failsAt_of_run hs hrun
    obtain ⟨hfault, slot, target, hname, hunset⟩ :=
      unset_of_raises (hholds.steps hlawful k) hfails.raises
    refine ⟨hfault, s, k, slot, target, rfl, hname, hunset, ?_, ?_⟩
    · intro hold hwritten
      have hgrows := (grows_launch hs).trans (grows_steps (i.setup w.library) k s)
      exact hunset.unset ((hgrows.frame target hold).written hwritten)
    · rintro j hjk c id hcalls hroom rfl p hp heq
      refine hunset.unset (heq ▸ ?_)
      exact written_of_callsCode (hholds.steps hlawful j) hcalls hroom hjk hp

def lateClosure : Value := .closure ⟨⟨0⟩, some ⟨0⟩⟩

def lateWorld : World :=
  { library := ⟨#[{ name := "late", params := [], body := .read ⟨1, "y"⟩ 1, layout := {} }]⟩
    store := { frames := #[{ layout := ⟨#["x", "y"]⟩, parent := none
                             slots := #[.generic lateClosure, .empty] }]
               cells := #[⟨"late", .lambda ⟨0⟩, 0⟩] } }

theorem scoped_lateClosure : lateClosure.Scoped lateWorld.library lateWorld.store := by
  intro c hc
  obtain rfl := Value.closure.inj hc
  refine ⟨by decide, fun id hid => ?_⟩
  obtain rfl := Target.lambda.inj hid
  refine ⟨fun p hp => (List.not_mem_nil hp).elim, [⟨2, [0]⟩], ?_, .read rfl (by decide)⟩
  refine .cons (by decide) rfl (fun i hi => ?_) .nil
  obtain rfl := List.mem_singleton.1 hi
  exact ⟨_, rfl, Slot.noConfusion⟩

theorem scoped_lateWorld : lateWorld.store.Scoped lateWorld.library := by
  refine ⟨?_, fun b => Value.scoped_of_isScalar rfl _ _, ?_⟩
  · rintro ⟨_ | f⟩ v ⟨i, s, hs, hv⟩
    · rcases i with _ | _ | i
      · obtain rfl := Option.some.inj hs
        obtain rfl := Option.some.inj hv
        exact scoped_lateClosure
      · obtain rfl := Option.some.inj hs
        cases hv
      · cases hs
    · cases hs
  · intro id v hpart
    have hbody : ∀ whole, Expr.Child whole (lateWorld.library.code id).body → False := by
      intro whole hchild
      obtain ⟨_ | id⟩ := id
      · cases hchild
      · cases hchild with
        | item hmem => cases hmem
    rcases Relation.ReflTransGen.cases_tail hpart with heq | ⟨whole, -, hchild⟩
    · obtain ⟨_ | id⟩ := id <;> cases heq
    · exact (hbody whole hchild).elim

/-- The call fails of the slot that was not written, and leaves the world in order. -/
theorem lexical_addressing_safe_late :
    lateWorld.store.Scoped lateWorld.library ∧
    (Task.call lateClosure []).Scoped lateWorld.library lateWorld.store ∧
    ∃ o, plainInterpreter.perform 5 lateWorld (.call lateClosure []) = some o ∧
      o.result = .error
        { cause := .invalidSlot "y" 1 .unwritten, trace := some ⟨["late"]⟩ } ∧
      (∃ s k slot target, plainInterpreter.launch lateWorld (.call lateClosure []) = .ok s ∧
        slot.name = "y" ∧
        ReadsUnset (steps (plainInterpreter.setup lateWorld.library) k s) slot 1 target) ∧
      o.world.store.Scoped o.world.library := by
  have htask : (Task.call lateClosure []).Scoped lateWorld.library lateWorld.store :=
    ⟨scoped_lateClosure, by simp⟩
  obtain ⟨hfaults, hstore, -⟩ := lexical_addressing_safe plainInterpreter lateWorld
    (.call lateClosure []) 5 _ scoped_lateWorld htask rfl
  obtain ⟨-, s, k, slot, target, hs, hname, hunset, -⟩ := hfaults "y" 1 .unwritten _ rfl
  exact ⟨scoped_lateWorld, htask, _, rfl, rfl, ⟨s, k, slot, target, hs, hname, hunset⟩, hstore⟩

end TreeMachine
