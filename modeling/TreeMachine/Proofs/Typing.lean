import TreeMachine.Proofs.CallReturn
import TreeMachine.Proofs.StoreChange

/-!
Typings of the store. A typing says which values, trees and places of slots are in order in a store;
it is lawful when the steps of the machine keep them so.
-/
set_option autoImplicit false

namespace TreeMachine

namespace Expr

/-- A subtree directly below a tree. The body of a lambda is none: it belongs to the code. -/
inductive Child : Expr → Expr → Prop where
  | value {slot : SlotId} {depth : Nat} {e : Expr} : Child e (.write slot depth e)
  | condition {c t e : Expr} : Child c (.ite c t e)
  | whenTrue {c t e : Expr} : Child t (.ite c t e)
  | whenFalse {c t e : Expr} : Child e (.ite c t e)
  | item {e : Expr} {items : List Expr} (h : e ∈ items) : Child e (.begin items)
  | callee {callee : Expr} {args : List Expr} {tail : Bool} {site : SiteId} :
      Child callee (.apply callee args tail site)
  | argument {e callee : Expr} {args : List Expr} {tail : Bool} {site : SiteId} (h : e ∈ args) :
      Child e (.apply callee args tail site)

def Part : Expr → Expr → Prop := Relation.ReflTransGen Child

theorem Part.refl (e : Expr) : Part e e := Relation.ReflTransGen.refl

theorem Part.of_child {p e whole : Expr} (h : Part p e) (hchild : Child e whole) : Part p whole :=
  Relation.ReflTransGen.tail h hchild

theorem Part.of_rest {p e : Expr} {es : List Expr} (h : Part p (.begin es))
    (hp : ∀ items, p ≠ .begin items) : Part p (.begin (e :: es)) := by
  rcases Relation.ReflTransGen.cases_tail h with heq | ⟨item, hitem, hchild⟩
  · exact absurd heq.symm (hp es)
  · cases hchild with
    | item hmem => exact Part.of_child hitem (.item (List.mem_cons_of_mem e hmem))

end Expr

namespace Machine

/-- What the state begins has this result after so many steps, whatever else is pending. -/
structure Evaluates (m : Setup) (s : State) (n : Nat) (r : Except Failure Value) : Prop where
  within : Within m s.pending s n
  busy : ∀ k < n, (steps m k s).pending = s.pending → ∀ r, (steps m k s).control ≠ .ofResult r
  pending : (steps m n s).pending = s.pending
  control : (steps m n s).control = .ofResult r

/-- What is in order in a store. -/
structure Typing where
  value : Store → Value → Prop
  tree : Store → Expr → FrameId → Prop
  place : Store → SlotId → Nat → FrameId → Prop
  site : SiteId → Prop
  store : Store → Prop

namespace Typing

/-- What the steps of the machine need of a typing. -/
structure Lawful (T : Typing) (m : Setup) : Prop where
  grows_value : ∀ {a b : Store} {v : Value}, a.Grows b → T.value a v → T.value b v
  grows_tree : ∀ {a b : Store} {e : Expr} {f : FrameId}, a.Grows b → T.tree a e f → T.tree b e f
  grows_place : ∀ {a b : Store} {slot : SlotId} {depth : Nat} {f : FrameId}, a.Grows b →
    T.place a slot depth f → T.place b slot depth f
  scalar : ∀ (a : Store) (v : Value), v.isScalar = true → T.value a v
  literal : ∀ {a : Store} {v : Value} {f : FrameId}, T.tree a (.literal v) f → T.value a v
  child : ∀ {a : Store} {e whole : Expr} {f : FrameId}, e.Child whole → T.tree a whole f →
    T.tree a e f
  rest : ∀ {a : Store} {e : Expr} {es : List Expr} {f : FrameId}, T.tree a (.begin (e :: es)) f →
    T.tree a (.begin es) f
  place_of_tree : ∀ {a : Store} {slot : SlotId} {depth : Nat} {e : Expr} {f : FrameId},
    T.tree a (.write slot depth e) f → T.place a slot depth f
  site_of_tree : ∀ {a : Store} {callee : Expr} {args : List Expr} {tail : Bool} {site : SiteId}
    {f : FrameId}, T.tree a (.apply callee args tail site) f → T.site site
  read : ∀ {a : Store} {slot : SlotId} {depth : Nat} {f : FrameId} {v : Value}, T.store a →
    T.tree a (.read slot depth) f → a.read f slot depth = .ok v → T.value a v
  unbox : ∀ {a : Store} {b : BoxId}, T.store a → T.value a (.box b) → T.value a (a.box b)
  lambda : ∀ {a : Store} {id : CodeId} {f : FrameId} {cell : FunctionCell},
    T.store a → T.tree a (.lambda id) f → cell = ⟨(m.library.code id).name, .lambda id, 0⟩ →
    T.store (a.addCell cell).2 ∧ T.value (a.addCell cell).2 (.closure ⟨⟨a.cells.size⟩, some f⟩)
  write : ∀ {a b : Store} {slot : SlotId} {depth : Nat} {f : FrameId} {v : Value}, T.store a →
    T.place a slot depth f → T.value a v → a.write f slot depth v = .ok b → T.store b
  addBox : ∀ {a : Store} {v : Value}, T.store a → T.value a v →
    T.store (a.addBox v).2 ∧ T.value (a.addBox v).2 (.box ⟨a.boxes.size⟩)
  setBox : ∀ {a : Store} {b : BoxId} {v : Value}, T.store a → T.value a (.box b) → T.value a v →
    T.store (a.setBox b v)
  setSite : ∀ {a : Store} {id : SiteId} (site : CallSite), T.store a → T.site id →
    T.store (a.setSite id site)
  println : ∀ {a : Store} (sink : SinkId) (line : String), T.store a → T.store (a.println sink line)
  enter : ∀ {a : Store} {c : Closure} {args : List Value} {id : CodeId} {frame : Frame},
    T.store a → T.value a (.closure c) → (∀ v ∈ args, T.value a v) →
    (a.cell c.cell).target = .lambda id → args.length = (m.library.code id).arity →
    (Frame.activate (m.library.code id).layout c.env).bind (m.library.code id).params args =
      .ok frame →
    T.store (a.addFrame frame).2 ∧
      T.tree (a.addFrame frame).2 (m.library.code id).body ⟨a.frames.size⟩

variable {T : Typing} {m : Setup}

structure CallOk (T : Typing) (a : Store) (c : Call) : Prop where
  site : T.site c.site
  closure : T.value a (.closure c.closure)
  args : ∀ v ∈ c.args, T.value a v

def ControlOk (T : Typing) (a : Store) : Control → Prop
  | .eval e frame => T.tree a e frame
  | .yield v => T.value a v
  | .tailCall c | .dispatch c => T.CallOk a c
  | .raise _ => True

def PendingOk (T : Typing) (a : Store) : Pending → Prop
  | .store slot depth frame => T.place a slot depth frame
  | .branch t e frame => T.tree a t frame ∧ T.tree a e frame
  | .sequence rest frame => T.tree a (.begin rest) frame
  | .callee site _ args frame => T.site site ∧ ∀ e ∈ args, T.tree a e frame
  | .operand site _ closure done rest frame =>
    T.site site ∧ T.value a (.closure closure) ∧ (∀ v ∈ done, T.value a v) ∧
      ∀ e ∈ rest, T.tree a e frame
  | .loop | .leave => True

/-- All that the machine holds is in order. -/
structure Holds (T : Typing) (s : State) : Prop where
  store : T.store s.store
  control : T.ControlOk s.store s.control
  pending : ∀ p ∈ s.pending, T.PendingOk s.store p

theorem Lawful.grows_pending (L : T.Lawful m) {a b : Store} (h : a.Grows b) {p : Pending}
    (hp : T.PendingOk a p) : T.PendingOk b p := by
  cases p with
  | store slot depth frame => exact L.grows_place h hp
  | branch t e frame => exact ⟨L.grows_tree h hp.1, L.grows_tree h hp.2⟩
  | sequence rest frame => exact L.grows_tree h hp
  | callee site tail args frame => exact ⟨hp.1, fun e he => L.grows_tree h (hp.2 e he)⟩
  | operand site tail closure done rest frame =>
    obtain ⟨hsite, hclosure, hdone, hrest⟩ := hp
    exact ⟨hsite, L.grows_value h hclosure, fun v hv => L.grows_value h (hdone v hv),
      fun e he => L.grows_tree h (hrest e he)⟩
  | loop => trivial
  | leave => trivial

theorem Lawful.grows_call (L : T.Lawful m) {a b : Store} (h : a.Grows b) {c : Call}
    (hc : T.CallOk a c) : T.CallOk b c :=
  ⟨hc.site, L.grows_value h hc.closure, fun v hv => L.grows_value h (hc.args v hv)⟩

namespace Holds

variable {s t : State}

theorem push (h : T.Holds s) {p : Pending} (hp : T.PendingOk s.store p) :
    ∀ q ∈ p :: s.pending, T.PendingOk s.store q := by
  intro q hq
  rcases List.mem_cons.1 hq with rfl | hq
  · exact hp
  · exact h.pending q hq

theorem advance (h : T.Holds s) (L : T.Lawful m) (hg : s.store.Grows t.store)
    (hstore : T.store t.store) (hcontrol : T.ControlOk t.store t.control)
    (hpending : t.pending = s.pending) : T.Holds t := by
  refine ⟨hstore, hcontrol, fun p hp => ?_⟩
  rw [hpending] at hp
  exact L.grows_pending hg (h.pending p hp)

theorem drop (h : T.Holds s) {p : Pending} {rest : List Pending} (top : s.pending = p :: rest) :
    T.PendingOk s.store p ∧ T.Holds { s with pending := rest } := by
  have hall := h.pending
  rw [top] at hall
  exact ⟨hall p (by simp), h.store, h.control, fun q hq => hall q (by simp [hq])⟩

theorem withControl (h : T.Holds s) {c : Control} (hc : T.ControlOk s.store c) :
    T.Holds { s with control := c } := ⟨h.store, hc, h.pending⟩

theorem evalThen (h : T.Holds s) {e : Expr} {frame : FrameId} {p : Pending}
    (he : T.tree s.store e frame) (hp : T.PendingOk s.store p) : T.Holds (s.evalThen e frame p) :=
  ⟨h.store, he, h.push hp⟩

theorem evalStep (h : T.Holds s) (L : T.Lawful m) {e : Expr} {frame : FrameId}
    (he : T.tree s.store e frame) : T.Holds (evalStep m s e frame) := by
  cases e with
  | literal v => exact h.withControl (L.literal he)
  | read slot depth =>
    simp only [Machine.evalStep]
    cases hr : s.store.read frame slot depth with
    | ok v => exact h.withControl (L.read h.store he hr)
    | error fault => exact h.withControl trivial
  | write slot depth value => exact h.evalThen (L.child .value he) (L.place_of_tree he)
  | ite c t e =>
    exact h.evalThen (L.child .condition he) ⟨L.child .whenTrue he, L.child .whenFalse he⟩
  | begin items =>
    cases items with
    | nil => exact h.withControl (L.scalar _ _ rfl)
    | cons first rest =>
      have hfirst := L.child (.item (List.mem_cons_self (a := first) (l := rest))) he
      cases rest with
      | nil => exact h.withControl hfirst
      | cons second rest => exact h.evalThen hfirst (L.rest he)
  | lambda id =>
    obtain ⟨hstore, hvalue⟩ := L.lambda h.store he rfl
    exact h.advance L (Store.grows_change (.addCell _)) hstore hvalue rfl
  | apply callee args tail site =>
    exact h.evalThen (L.child .callee he)
      ⟨L.site_of_tree he, fun e hmem => L.child (.argument hmem) he⟩

theorem operands (h : T.Holds s) {site : SiteId} (tail : Bool) {closure : Closure}
    {done : List Value} {rest : List Expr} {frame : FrameId} (hsite : T.site site)
    (hclosure : T.value s.store (.closure closure)) (hdone : ∀ v ∈ done, T.value s.store v)
    (hrest : ∀ e ∈ rest, T.tree s.store e frame) :
    T.Holds (s.operands site tail closure done rest frame) := by
  cases rest with
  | nil =>
    have hcall : T.CallOk s.store ⟨site, closure, done.reverse⟩ :=
      ⟨hsite, hclosure, fun v hv => hdone v (List.mem_reverse.1 hv)⟩
    cases tail with
    | true => exact h.withControl hcall
    | false => exact ⟨h.store, hcall, h.push trivial⟩
  | cons e es =>
    exact h.evalThen (hrest e (by simp))
      ⟨hsite, hclosure, hdone, fun e' he' => hrest e' (by simp [he'])⟩

theorem yieldStep (h : T.Holds s) (L : T.Lawful m) {v : Value} (hc : s.control = .yield v) :
    T.Holds (yieldStep s v) := by
  have hv : T.value s.store v := by
    have hcontrol := h.control
    rwa [hc] at hcontrol
  cases hp : s.pending with
  | nil =>
    simp only [Machine.yieldStep, hp]
    exact h
  | cons p rest =>
    obtain ⟨hpending, hrest⟩ := h.drop hp
    cases p with
    | store slot depth frame =>
      simp only [Machine.yieldStep, hp]
      cases hw : s.store.write frame slot depth v with
      | ok store =>
        exact hrest.advance L (Store.grows_change (.write hw)) (L.write h.store hpending hv hw)
          (L.scalar _ _ rfl) rfl
      | error fault => exact hrest.withControl trivial
    | branch t e frame =>
      simp only [Machine.yieldStep, hp]
      cases v.asBool with
      | ok b =>
        refine hrest.withControl ?_
        cases b with
        | true => exact hpending.1
        | false => exact hpending.2
      | error cause => exact hrest.withControl trivial
    | sequence items frame =>
      simp only [Machine.yieldStep, hp]
      exact hrest.withControl hpending
    | callee site tail args frame =>
      simp only [Machine.yieldStep, hp]
      cases v with
      | closure closure => exact hrest.operands tail hpending.1 hv (by simp) hpending.2
      | _ => exact hrest.withControl trivial
    | operand site tail closure done args frame =>
      simp only [Machine.yieldStep, hp]
      obtain ⟨hsite, hclosure, hdone, hargs⟩ := hpending
      refine hrest.operands tail hsite hclosure (fun w hw => ?_) hargs
      rcases List.mem_cons.1 hw with rfl | hw
      · exact hv
      · exact hdone w hw
    | loop =>
      simp only [Machine.yieldStep, hp]
      exact hrest
    | leave =>
      simp only [Machine.yieldStep, hp]
      exact ⟨hrest.store, hrest.control, hrest.pending⟩

theorem tailCallStep (h : T.Holds s) {c : Call} (hc : s.control = .tailCall c) :
    T.Holds (tailCallStep s c) := by
  have hcall : T.CallOk s.store c := by
    have hcontrol := h.control
    rwa [hc] at hcontrol
  unfold Machine.tailCallStep
  split
  · rename_i rest hp
    obtain ⟨-, hrest⟩ := h.drop hp
    exact ⟨hrest.store, hrest.control, hrest.pending⟩
  · exact ⟨h.store, hcall, h.pending⟩
  · exact ⟨h.store, hcall, h.push trivial⟩

theorem raiseStep (h : T.Holds s) (e : Failure) : T.Holds (raiseStep s e) := by
  unfold Machine.raiseStep
  split
  · exact h
  · rename_i rest hp
    obtain ⟨-, hrest⟩ := h.drop hp
    exact ⟨hrest.store, trivial, hrest.pending⟩
  · rename_i p rest _ hp
    exact (h.drop hp).2

theorem operate (h : T.Holds s) (L : T.Lawful m) (op : Primitive) {args : List Value}
    (hargs : ∀ v ∈ args, T.value s.store v) : T.Holds (operate m s op args) := by
  have heffect := op.effect_apply args m.overflow m.sink s.store
  unfold Machine.operate
  generalize op.apply args m.overflow m.sink s.store = out at heffect
  obtain ⟨r, store⟩ := out
  dsimp only at heffect ⊢
  have hg := Store.Grows.of_changes heffect.changes
  cases heffect with
  | fail cause hcause => exact h.withControl trivial
  | scalar v hv => exact h.withControl (L.scalar _ v hv)
  | makeBox v arg =>
    obtain ⟨hstore, hvalue⟩ := L.addBox h.store (hargs v arg)
    exact h.advance L hg hstore hvalue rfl
  | unbox b arg => exact h.withControl (L.unbox h.store (hargs _ arg))
  | setBox b v arg new =>
    exact h.advance L hg (L.setBox h.store (hargs _ arg) (hargs v new)) (L.scalar _ _ rfl) rfl
  | println line => exact h.advance L hg (L.println m.sink line h.store) (L.scalar _ _ rfl) rfl

theorem enter (h : T.Holds s) (L : T.Lawful m) {c : Call} {id : CodeId} (hc : T.CallOk s.store c)
    (htarget : (s.store.cell c.closure.cell).target = .lambda id)
    (hlength : c.args.length = (m.library.code id).arity) :
    T.Holds (enter s (m.library.code id) c) := by
  unfold Machine.enter
  split
  · exact h.withControl trivial
  · dsimp only
    split
    · exact ⟨h.store, trivial, h.push trivial⟩
    · rename_i frame hbind
      obtain ⟨hstore, htree⟩ := L.enter h.store hc.closure hc.args htarget hlength hbind
      refine ⟨hstore, htree, fun p hp => ?_⟩
      exact L.grows_pending (Store.grows_change (.addFrame _)) (h.push (p := .leave) trivial p hp)

theorem dispatchStep (h : T.Holds s) (L : T.Lawful m) {c : Call} (hc : s.control = .dispatch c) :
    T.Holds (dispatchStep m s c) := by
  have hcall : T.CallOk s.store c := by
    have hcontrol := h.control
    rwa [hc] at hcontrol
  rcases dispatchStep_cases m c s.store with ⟨-, hfail⟩ | ⟨-, found, site, hfound⟩
  · rw [hfail s rfl]
    exact ⟨h.store, trivial, h.pending⟩
  · rw [hfound s rfl]
    have hg : s.store.Grows (s.located c found site).store := Store.grows_change (.setSite _ _)
    have hcall' := L.grows_call hg hcall
    have hs : T.Holds (s.located c found site) := by
      refine h.advance L hg (L.setSite site h.store hcall.site) ?_ rfl
      have hcontrol : (s.located c found site).control = .dispatch c := hc
      rw [hcontrol]
      exact hcall'
    have hcell : (s.located c found site).store.cell = s.store.cell := rfl
    rw [← hcell]
    generalize s.located c found site = u at hs hcall'
    unfold transfer
    dsimp only
    cases htarget : (u.store.cell c.closure.cell).target with
    | unbound => exact hs.withControl trivial
    | primitive op =>
      simp only [Target.arity?]
      split
      · exact hs.withControl trivial
      · exact hs.operate L op hcall'.args
    | lambda id =>
      simp only [Target.arity?]
      split
      · exact hs.withControl trivial
      · rename_i hlength
        exact hs.enter L hcall' htarget (Decidable.not_not.1 hlength)

theorem step (h : T.Holds s) (L : T.Lawful m) : T.Holds (step m s) := by
  unfold Machine.step
  cases hc : s.control with
  | eval e frame =>
    have he := h.control
    rw [hc] at he
    exact h.evalStep L he
  | yield v => exact h.yieldStep L hc
  | tailCall c => exact h.tailCallStep hc
  | dispatch c => exact h.dispatchStep L hc
  | raise e => exact h.raiseStep e

theorem steps (h : T.Holds s) (L : T.Lawful m) (n : Nat) : T.Holds (steps m n s) := by
  induction n with
  | zero => exact h
  | succ n ih =>
    rw [steps_succ]
    exact ih.step L

theorem run (h : T.Holds s) (L : T.Lawful m) {n : Nat} {r : Except Failure Value}
    (hrun : run m n s = some (r, t)) :
    T.store t.store ∧ ∀ v, r = .ok v → T.value t.store v := by
  rw [run_eq] at hrun
  obtain ⟨r', hr, heq⟩ := Option.map_eq_some_iff.1 hrun
  obtain ⟨rfl, rfl⟩ := Prod.mk.inj heq
  have hn := h.steps L n
  refine ⟨hn.store, ?_⟩
  rintro v rfl
  have hcontrol : (Machine.steps m n s).control = .yield v := by
    generalize Machine.steps m n s = u at hr
    obtain ⟨control, pending, store, stack, profile⟩ := u
    cases pending <;> cases control <;> simp [State.result?] at hr
    rw [hr]
  have hv := hn.control
  rwa [hcontrol] at hv

theorem tailCall_above (h : T.Holds s) {c : Call} (hc : s.control = .tailCall c)
    (hp : s.pending = []) {base : List Pending}
    (hnext : base <:+ (Machine.tailCallStep ((View.under base).state s) c).pending) :
    ∃ u, Machine.tailCallStep ((View.under base).state s) c = (View.under base).state u ∧
      T.Holds u := by
  have hcall : T.CallOk s.store c := by
    have hcontrol := h.control
    rwa [hc] at hcontrol
  have hloop : T.Holds (s.enterLoop c) := ⟨h.store, hcall, h.push trivial⟩
  obtain ⟨control, pending, store, stack, profile⟩ := s
  obtain rfl : pending = [] := hp
  cases base with
  | nil => exact ⟨_, rfl, hloop⟩
  | cons p rest =>
    cases p with
    | leave =>
      have hlength : rest.length + 1 ≤ rest.length := hnext.length_le
      omega
    | loop =>
      exact ⟨State.count ⟨.dispatch c, [], store, stack, profile⟩ Profile.tailCall, rfl, h.store,
        hcall, h.pending⟩
    | _ => exact ⟨_, rfl, hloop⟩

theorem step_above (h : T.Holds s) (L : T.Lawful m) {base : List Pending}
    (hbusy : s.pending = [] → ∀ r, s.control ≠ .ofResult r)
    (hnext : base <:+ (Machine.step m ((View.under base).state s)).pending) :
    ∃ u, Machine.step m ((View.under base).state s) = (View.under base).state u ∧ T.Holds u := by
  by_cases hp : s.pending = []
  · -- The step sees the other work only if it brings a result or a tail call to it.
    cases hc : s.control with
    | eval e frame =>
      have hc' : ((View.under base).state s).control = .eval e frame := hc
      refine ⟨Machine.step m s, ?_, h.step L⟩
      simp only [Machine.step, hc, hc']
      exact ((View.under base).state_evalStep m s e frame).symm
    | dispatch c =>
      have hc' : ((View.under base).state s).control = .dispatch c := hc
      refine ⟨Machine.step m s, ?_, h.step L⟩
      simp only [Machine.step, hc, hc']
      exact ((View.under base).state_dispatchStep m c (fun _ => rfl) rfl).symm
    | yield v => exact absurd hc (hbusy hp (.ok v))
    | raise e => exact absurd hc (hbusy hp (.error e))
    | tailCall c =>
      have hc' : ((View.under base).state s).control = .tailCall c := hc
      simp only [Machine.step, hc'] at hnext ⊢
      exact h.tailCall_above hc hp hnext
  · exact ⟨Machine.step m s,
      ((View.under base).state_step m (fun _ => rfl) (.inl hp) rfl).symm, h.step L⟩

theorem steps_above (h : T.Holds { s with pending := [] }) (L : T.Lawful m) {n : Nat}
    (hwithin : Within m s.pending s n)
    (hbusy : ∀ k < n, (Machine.steps m k s).pending = s.pending →
      ∀ r, (Machine.steps m k s).control ≠ .ofResult r) :
    ∃ u, Machine.steps m n s = (View.under s.pending).state u ∧ T.Holds u := by
  induction n with
  | zero => exact ⟨{ s with pending := [] }, rfl, h⟩
  | succ n ih =>
    obtain ⟨u, hu, hholds⟩ := ih (hwithin.of_le (Nat.le_succ n)) fun k hk => hbusy k (by omega)
    rw [steps_succ, hu]
    refine hholds.step_above L (fun hp r hr => ?_) ?_
    · refine hbusy n (Nat.lt_succ_self n) ?_ r ?_
      · rw [hu]
        simp only [View.state, hp, List.nil_append]
        rfl
      · rw [hu]
        exact hr
    · rw [← hu, ← steps_succ]
      exact hwithin (n + 1) (Nat.le_refl _)

theorem evaluates (h : T.Holds { s with pending := [] }) (L : T.Lawful m) {n : Nat}
    {r : Except Failure Value} (he : Evaluates m s n r) :
    T.store (Machine.steps m n s).store ∧
      ∀ v, r = .ok v → T.value (Machine.steps m n s).store v := by
  obtain ⟨u, hu, hholds⟩ := h.steps_above L he.within he.busy
  have hcontrol := he.control
  rw [hu] at hcontrol ⊢
  refine ⟨hholds.store, ?_⟩
  rintro v rfl
  have hv := hholds.control
  rwa [show u.control = .yield v from hcontrol] at hv

end Holds

end Typing

end Machine

end TreeMachine
