import TreeMachine.Proofs.CacheValidity
import TreeMachine.Proofs.CallStackDiscipline
import TreeMachine.Proofs.StoreChange

set_option autoImplicit false

namespace TreeMachine

theorem CallSite.eq_megamorphic {site : CallSite} (h : site.isMegamorphic = true) :
    site = .megamorphic := by
  cases site with
  | caching entries => cases h
  | megamorphic => rfl

theorem Frame.Grows.kind? {f g : Frame} (h : f.Grows g) {slot : SlotId} {kind : SlotKind}
    (hkind : f.kind? slot = some kind) :
    ∃ wider, g.kind? slot = some wider ∧ kind.Widens wider :=
  h.kind slot.index kind hkind

namespace Sink

def printAll (k : Sink) (lines : List String) : Sink := lines.foldl println k

theorem printAll_append (k : Sink) (first rest : List String) :
    k.printAll (first ++ rest) = (k.printAll first).printAll rest := List.foldl_append ..

theorem printAll_buffer (text : String) (lines : List String) :
    (buffer text).printAll lines = buffer (text ++ String.join (lines.map (· ++ "\n"))) := by
  induction lines generalizing text with
  | nil => simp [printAll]
  | cons line lines ih =>
    have hfirst : (buffer text).printAll (line :: lines) =
        (buffer (text ++ line ++ "\n")).printAll lines := rfl
    rw [hfirst, ih, List.map_cons, String.join_cons]
    simp only [String.append_assoc]

end Sink

namespace Profile

structure Le (p q : Profile) : Prop where
  calls : p.calls ≤ q.calls
  direct : p.direct ≤ q.direct
  indirect : p.indirect ≤ q.indirect
  hits : p.hits ≤ q.hits
  misses : p.misses ≤ q.misses
  evictions : p.evictions ≤ q.evictions
  megamorphic : p.megamorphic ≤ q.megamorphic
  tailCalls : p.tailCalls ≤ q.tailCalls

instance : LE Profile := ⟨Le⟩

theorem le_refl (p : Profile) : p ≤ p := by constructor <;> exact Nat.le_refl _

theorem le_trans {p q r : Profile} (hpq : p ≤ q) (hqr : q ≤ r) : p ≤ r := by
  obtain ⟨h1, h2, h3, h4, h5, h6, h7, h8⟩ := hpq
  obtain ⟨k1, k2, k3, k4, k5, k6, k7, k8⟩ := hqr
  constructor <;> omega

theorem rel_refl (p : Option Profile) : Option.Rel (· ≤ ·) p p := by
  cases p with
  | none => exact .none
  | some p => exact .some p.le_refl

theorem le_call (p : Profile) : p ≤ p.call := by constructor <;> simp [call]

theorem le_tailCall (p : Profile) : p ≤ p.tailCall := by constructor <;> simp [tailCall]

theorem le_found (p : Profile) (l : Lookup) : p ≤ p.found l := by constructor <;> simp [found]

end Profile

namespace Store

structure Quiet (a b : Store) : Prop where
  sites : b.sites = a.sites
  sinks : b.sinks = a.sinks

theorem Quiet.refl (a : Store) : a.Quiet a := ⟨rfl, rfl⟩

theorem quiet_write {a b : Store} {frame : FrameId} {slot : SlotId} {depth : Nat} {v : Value}
    (h : a.write frame slot depth v = .ok b) : a.Quiet b := by
  obtain ⟨target, f, -, -, rfl⟩ := write_eq_ok h
  exact ⟨rfl, rfl⟩

end Store

/-- The line that a call to the entry point prints: `println` with one argument prints its text. -/
def Target.line? (target : Target) (args : List Value) (s : Store) : Option String :=
  match target, args with
  | .primitive .println, [v] => some (s.text v)
  | _, _ => none

theorem Target.line?_eq_some {target : Target} {args : List Value} {s : Store} {line : String}
    (h : target.line? args s = some line) :
    ∃ v, target = .primitive .println ∧ args = [v] ∧ line = s.text v := by
  unfold line? at h
  split at h
  · rename_i v
    exact ⟨v, rfl, rfl, (Option.some.inj h).symm⟩
  · cases h

namespace Primitive

theorem sites_apply (op : Primitive) (args : List Value) (policy : Overflow) (sink : SinkId)
    (s : Store) : (op.apply args policy sink s).2.sites = s.sites := by
  have heffect := op.effect_apply args policy sink s
  generalize (op.apply args policy sink s).1 = r at heffect
  generalize (op.apply args policy sink s).2 = b at heffect
  cases heffect <;> rfl

theorem sinks_apply (op : Primitive) (args : List Value) (policy : Overflow) (sink : SinkId)
    (s : Store) : (op.apply args policy sink s).2.sinks =
      (((Target.primitive op).line? args s).elim s (s.println sink)).sinks := by
  unfold apply
  split
  case h_7 v => cases v.asBox <;> rfl
  case h_8 v w => cases v.asBox <;> rfl
  case h_10 _ _ _ _ _ _ _ _ _ _ hprint =>
    cases hline : (Target.primitive op).line? args s with
    | none => rfl
    | some line =>
      obtain ⟨v, hop, hargs, -⟩ := Target.line?_eq_some hline
      exact absurd hargs (hprint v (Target.primitive.inj hop))
  all_goals rfl

end Primitive

namespace Machine

def State.line? (s : State) : Option String :=
  match s.control with
  | .dispatch c => (s.store.cell c.closure.cell).target.line? c.args s.store
  | _ => none

/-- The lines that are printed in so many steps, in the order of the calls. -/
def printed (m : Setup) : Nat → State → List String
  | 0, _ => []
  | n + 1, s => s.line?.toList ++ printed m n (step m s)

def Call.tally (m : Setup) (store : Store) (c : Call) (p : Profile) : Profile :=
  match (store.site c.site).lookup store.cell c.closure.cell m.cacheSize with
  | .ok (found, _) => p.call.found found
  | .error _ => p.call

/-- What the next step adds to the counts. -/
def State.tally (m : Setup) (s : State) (p : Profile) : Profile :=
  match s.control, s.pending with
  | .tailCall _, .loop :: _ => p.tailCall
  | .dispatch c, _ => c.tally m s.store p
  | _, _ => p

theorem le_tally (m : Setup) (s : State) (p : Profile) : p ≤ s.tally m p := by
  unfold State.tally
  split
  · exact p.le_tailCall
  · unfold Call.tally
    split
    · exact Profile.le_trans p.le_call (p.call.le_found _)
    · exact p.le_call
  · exact p.le_refl

structure Quiet (s t : State) : Prop where
  store : s.store.Quiet t.store
  profile : t.profile = s.profile

theorem quiet_evalStep (m : Setup) (s : State) (e : Expr) (frame : FrameId) :
    Quiet s (evalStep m s e frame) := by
  cases e with
  | read slot depth =>
    simp only [evalStep]
    cases s.store.read frame slot depth with
    | ok v => exact ⟨.refl _, rfl⟩
    | error fault => exact ⟨.refl _, rfl⟩
  | begin items =>
    cases items with
    | nil => exact ⟨.refl _, rfl⟩
    | cons first rest => cases rest <;> exact ⟨.refl _, rfl⟩
  | lambda code => exact ⟨⟨rfl, rfl⟩, rfl⟩
  | _ => exact ⟨.refl _, rfl⟩

theorem quiet_operands (s : State) (rest : List Pending) (site : SiteId) (tail : Bool)
    (closure : Closure) (done : List Value) (args : List Expr) (frame : FrameId) :
    Quiet s ({ s with pending := rest }.operands site tail closure done args frame) := by
  cases args with
  | nil => cases tail <;> exact ⟨.refl _, rfl⟩
  | cons e es => exact ⟨.refl _, rfl⟩

theorem quiet_yieldStep (s : State) (v : Value) : Quiet s (yieldStep s v) := by
  unfold yieldStep
  split
  · exact ⟨.refl _, rfl⟩
  · split
    · rename_i hw
      exact ⟨Store.quiet_write hw, rfl⟩
    · exact ⟨.refl _, rfl⟩
  · split <;> exact ⟨.refl _, rfl⟩
  · exact ⟨.refl _, rfl⟩
  · split
    · exact quiet_operands ..
    · exact ⟨.refl _, rfl⟩
  · exact quiet_operands ..
  · exact ⟨.refl _, rfl⟩
  · exact ⟨.refl _, rfl⟩

theorem quiet_raiseStep (s : State) (e : Failure) : Quiet s (raiseStep s e) := by
  unfold raiseStep
  split <;> exact ⟨.refl _, rfl⟩

theorem transfer_effects (m : Setup) (s : State) (target : Target) (c : Call) :
    (transfer m s target c).store.sites = s.store.sites ∧
      (transfer m s target c).profile = s.profile ∧
      (transfer m s target c).store.sinks =
        ((target.line? c.args s.store).elim s.store (s.store.println m.sink)).sinks := by
  have hsilent : target.arity? m.library ≠ some c.args.length →
      target.line? c.args s.store = none := by
    intro harity
    cases hline : target.line? c.args s.store with
    | none => rfl
    | some line =>
      obtain ⟨v, rfl, hargs, -⟩ := Target.line?_eq_some hline
      exact absurd (by rw [hargs]; rfl) harity
  unfold transfer
  dsimp only
  split
  · rename_i hnone
    rw [hsilent (by simp [hnone])]
    exact ⟨rfl, rfl, rfl⟩
  · rename_i arity harity
    split
    · rename_i hlength
      rw [hsilent (by simpa [harity] using fun h => hlength h.symm)]
      exact ⟨rfl, rfl, rfl⟩
    · cases target with
      | primitive op =>
        have hsites := op.sites_apply c.args m.overflow m.sink s.store
        have hsinks := op.sinks_apply c.args m.overflow m.sink s.store
        simp only [operate]
        cases (op.apply c.args m.overflow m.sink s.store).1 with
        | ok v => exact ⟨hsites, rfl, hsinks⟩
        | error cause => exact ⟨hsites, rfl, hsinks⟩
      | lambda code =>
        simp only [enter]
        split
        · exact ⟨rfl, rfl, rfl⟩
        · split <;> exact ⟨rfl, rfl, rfl⟩
      | unbound => exact ⟨rfl, rfl, rfl⟩

theorem dispatchStep_effects (m : Setup) (s : State) (c : Call) :
    (∀ id, (dispatchStep m s c).store.site id = s.store.site id ∨ c.site = id ∧
      (dispatchStep m s c).store.site id =
        ((s.store.site id).resolve s.store.cell c.closure.cell m.cacheSize).2) ∧
      (dispatchStep m s c).profile = s.profile.map (c.tally m s.store) ∧
      (dispatchStep m s c).store.sinks =
        (((s.store.cell c.closure.cell).target.line? c.args s.store).elim s.store
          (s.store.println m.sink)).sinks := by
  unfold dispatchStep Call.tally State.count
  dsimp only
  cases hlookup : (s.store.site c.site).lookup s.store.cell c.closure.cell m.cacheSize with
  | error cause =>
    rw [(CallSite.lookup_eq_error hlookup).1]
    exact ⟨fun id => .inl rfl, rfl, rfl⟩
  | ok out =>
    obtain ⟨found, site⟩ := out
    dsimp only
    obtain ⟨hsites, hprofile, hsinks⟩ := transfer_effects m
      { s with store := s.store.setSite c.site site
               profile := (s.profile.map Profile.call).map (·.found found) } found.target c
    refine ⟨fun id => ?_, ?_, ?_⟩
    · have hsite := s.store.site_setSite c.site id site
      rw [Store.site, hsites]
      split at hsite
      · rename_i hid
        obtain rfl : c.site = id := congrArg SiteId.mk hid.1
        rw [(CallSite.lookup_eq_ok hlookup).2]
        exact .inr ⟨rfl, hsite⟩
      · exact .inl hsite
    · rw [hprofile, Option.map_map]
      rfl
    · have hline : found.target.line? c.args (s.store.setSite c.site site) =
          found.target.line? c.args s.store := rfl
      rw [hsinks, hline, ← CallSite.target_of_lookup hlookup]
      cases found.target.line? c.args s.store <;> rfl

/-- What one step does to the call sites, the counts and the sinks. -/
structure Effects (m : Setup) (s : State) (t : State) : Prop where
  site : ∀ id, t.store.site id = s.store.site id ∨
    ∃ c, s.control = .dispatch c ∧ c.site = id ∧
      t.store.site id = ((s.store.site id).resolve s.store.cell c.closure.cell m.cacheSize).2
  profile : t.profile = s.profile.map (s.tally m)
  sinks : t.store.sinks = (s.line?.elim s.store (s.store.println m.sink)).sinks

theorem Quiet.effects {m : Setup} {s t : State} (h : Quiet s t) (hline : s.line? = none)
    (htally : s.tally m = id) : Effects m s t := by
  refine ⟨fun id => .inl ?_, ?_, ?_⟩
  · rw [Store.site, h.store.sites]
    rfl
  · rw [h.profile, htally, Option.map_id_fun]
    rfl
  · rw [h.store.sinks, hline]
    rfl

theorem effects_tailCallStep (m : Setup) {s : State} {c : Call} (hc : s.control = .tailCall c) :
    Effects m s (tailCallStep s c) := by
  obtain ⟨control, pending, store, stack, profile⟩ := s
  obtain rfl : control = .tailCall c := hc
  cases pending with
  | nil => exact Quiet.effects ⟨.refl _, rfl⟩ rfl rfl
  | cons p rest =>
    cases p with
    | loop => exact ⟨fun _ => .inl rfl, rfl, rfl⟩
    | _ => exact Quiet.effects ⟨.refl _, rfl⟩ rfl rfl

theorem effects_step (m : Setup) (s : State) : Effects m s (step m s) := by
  unfold step
  cases hc : s.control with
  | eval e frame =>
    refine (quiet_evalStep m s e frame).effects (by simp only [State.line?, hc]) ?_
    funext p
    simp only [State.tally, hc, id]
  | yield v =>
    refine (quiet_yieldStep s v).effects (by simp only [State.line?, hc]) ?_
    funext p
    simp only [State.tally, hc, id]
  | raise e =>
    refine (quiet_raiseStep s e).effects (by simp only [State.line?, hc]) ?_
    funext p
    simp only [State.tally, hc, id]
  | tailCall c => exact effects_tailCallStep m hc
  | dispatch c =>
    obtain ⟨hsite, hprofile, hsinks⟩ := dispatchStep_effects m s c
    refine ⟨fun id => ?_, ?_, ?_⟩
    · exact (hsite id).imp_right fun h => ⟨c, hc, h⟩
    · rw [hprofile]
      have htally : s.tally m = c.tally m s.store := by
        funext p
        simp only [State.tally, hc]
      rw [htally]
    · rw [hsinks]
      simp only [State.line?, hc]

theorem site_steps_of_megamorphic (m : Setup) {s : State} {id : SiteId}
    (h : s.store.site id = .megamorphic) (n : Nat) :
    (steps m n s).store.site id = .megamorphic := by
  induction n with
  | zero => exact h
  | succ n ih =>
    rw [steps_succ]
    rcases (effects_step m (steps m n s)).site id with hsame | ⟨c, -, -, hresolve⟩
    · rw [hsame, ih]
    · rw [hresolve, ih, CallSite.resolve_megamorphic]

theorem profile_steps (m : Setup) (s : State) (n : Nat) :
    Option.Rel (· ≤ ·) s.profile (steps m n s).profile := by
  induction n with
  | zero =>
    exact Profile.rel_refl s.profile
  | succ n ih =>
    rw [steps_succ, (effects_step m (steps m n s)).profile]
    generalize s.profile = before at ih
    generalize hnow : (steps m n s).profile = now at ih
    cases ih with
    | none => exact .none
    | some hle => exact .some (Profile.le_trans hle (le_tally m _ _))

theorem sink_step (m : Setup) (s : State) (id : SinkId) :
    (step m s).store.sink id =
      if id = m.sink then (s.store.sink id).printAll s.line?.toList else s.store.sink id := by
  have hsinks := (effects_step m s).sinks
  have hsink : (step m s).store.sink id =
      (s.line?.elim s.store (s.store.println m.sink)).sink id := by
    rw [Store.sink, hsinks]
    rfl
  rw [hsink]
  cases s.line? with
  | none => simp [Sink.printAll]
  | some line =>
    rw [Option.elim_some, Store.sink_println_eq]
    rfl

theorem sink_steps (m : Setup) (n : Nat) (s : State) (id : SinkId) :
    (steps m n s).store.sink id =
      if id = m.sink then (s.store.sink id).printAll (printed m n s) else s.store.sink id := by
  induction n generalizing s with
  | zero => simp [steps, printed, Sink.printAll]
  | succ n ih =>
    rw [steps, ih, sink_step]
    by_cases hid : id = m.sink
    · simp only [hid, if_true, printed, Sink.printAll_append]
    · simp only [hid, if_false]

end Machine

open Machine

namespace Interpreter

def printed (fuel : Nat) (i : Interpreter) (w : World) (t : Task) : List String :=
  match i.launch w t with
  | .ok s => Machine.printed (i.setup w.library) fuel s
  | .error _ => []

theorem launch_effects {i : Interpreter} {w : World} {t : Task} {s : State}
    (h : i.launch w t = .ok s) :
    (∀ id, s.store.site id = w.store.site id) ∧ (∀ id, s.store.sink id = w.store.sink id) ∧
      s.profile = i.profile := by
  cases t with
  | call callee args =>
    cases hc : callee.asClosure with
    | error e => simp [launch, hc, Except.map] at h
    | ok closure =>
      simp only [launch, hc, Except.map, Except.ok.injEq] at h
      subst h
      exact ⟨w.store.site_addSite, fun _ => rfl, rfl⟩
  | _ =>
    obtain rfl := Except.ok.inj h
    exact ⟨fun _ => rfl, fun _ => rfl, rfl⟩

variable {fuel : Nat} {i : Interpreter} {w : World} {t : Task} {o : Outcome}

theorem grows_perform (h : i.perform fuel w t = some o) : w.store.Grows o.world.store := by
  rcases perform_cases h with ⟨cause, -, rfl⟩ | ⟨s, r, u, hs, rfl, -, rfl⟩
  · exact .refl _
  · exact (grows_launch hs).trans (grows_steps ..)

theorem megamorphic_perform (h : i.perform fuel w t = some o) {id : SiteId}
    (hid : w.store.site id = .megamorphic) : o.world.store.site id = .megamorphic := by
  rcases perform_cases h with ⟨cause, -, rfl⟩ | ⟨s, r, u, hs, rfl, -, rfl⟩
  · exact hid
  · exact site_steps_of_megamorphic _ (((launch_effects hs).1 id).trans hid) fuel

theorem profile_perform (h : i.perform fuel w t = some o) :
    Option.Rel (· ≤ ·) i.profile o.interpreter.profile := by
  rcases perform_cases h with ⟨cause, -, rfl⟩ | ⟨s, r, u, hs, rfl, -, rfl⟩
  · exact Profile.rel_refl i.profile
  · rw [← (launch_effects hs).2.2]
    exact profile_steps ..

theorem sink_perform (h : i.perform fuel w t = some o) (id : SinkId) :
    o.world.store.sink id =
      if id = i.sink then (w.store.sink id).printAll (i.printed fuel w t) else w.store.sink id := by
  unfold printed
  rcases perform_cases h with ⟨cause, hs, rfl⟩ | ⟨s, r, u, hs, rfl, -, rfl⟩
  · rw [hs]
    exact (ite_self _).symm
  · rw [hs, ← (launch_effects hs).2.1 id]
    exact sink_steps ..

end Interpreter

/-- However a task ends, it keeps what was there: cells, frames, settings and what was printed are
at most added to. -/
theorem evaluation_only_adds (fuel : Nat) (i : Interpreter) (w : World) (t : Task)
    (o : Interpreter.Outcome) (h : i.perform fuel w t = some o) :
    (∀ id : CellId, id.index < w.store.cells.size →
      id.index < o.world.store.cells.size ∧ o.world.store.cell id = w.store.cell id) ∧
    (∀ id : FrameId, id.index < w.store.frames.size →
      id.index < o.world.store.frames.size ∧
      (o.world.store.frame id).layout = (w.store.frame id).layout ∧
      (o.world.store.frame id).parent = (w.store.frame id).parent ∧
      (o.world.store.frame id).size = (w.store.frame id).size ∧
      (∀ k, (w.store.frame id).Written k → (o.world.store.frame id).Written k) ∧
      ∀ slot kind, (w.store.frame id).kind? slot = some kind →
        ∃ wider, (o.world.store.frame id).kind? slot = some wider ∧ kind.Widens wider) ∧
    (∀ id : SiteId, (w.store.site id).isMegamorphic = true →
      (o.world.store.site id).isMegamorphic = true ∧ (o.world.store.site id).entries = []) ∧
    (o.interpreter.mode = i.mode ∧ o.interpreter.overflow = i.overflow ∧
      o.interpreter.cacheSize = i.cacheSize ∧
      Option.Rel (· ≤ ·) i.profile o.interpreter.profile) ∧
    (∀ text, w.store.sink i.sink = .buffer text → o.world.store.sink i.sink =
      .buffer (text ++ String.join ((i.printed fuel w t).map (· ++ "\n")))) ∧
    ∀ id, id ≠ i.sink → o.world.store.sink id = w.store.sink id := by
  have hgrows := Interpreter.grows_perform h
  have hsink := Interpreter.sink_perform h
  refine ⟨fun id hid => ?_, fun id hid => ?_, fun id hid => ?_, ?_, fun text htext => ?_,
    fun id hid => ?_⟩
  · exact ⟨Nat.lt_of_lt_of_le hid hgrows.cells.size_le, hgrows.cells.cell hid⟩
  · have hframe := hgrows.frame id hid
    exact ⟨Nat.lt_of_lt_of_le hid hgrows.frames, hframe.layout, hframe.parent, hframe.size,
      fun k => hframe.written, fun slot kind => hframe.kind?⟩
  · have hsame := Interpreter.megamorphic_perform h (CallSite.eq_megamorphic hid)
    rw [hsame]
    exact ⟨rfl, rfl⟩
  · obtain ⟨profile, hi⟩ := Interpreter.perform_interpreter h
    have hprofile := Interpreter.profile_perform h
    rw [hi] at hprofile ⊢
    exact ⟨rfl, rfl, rfl, hprofile⟩
  · rw [hsink, if_pos rfl, htext, Sink.printAll_buffer]
  · rw [hsink, if_neg hid]

def printingWorld : World :=
  { store :=
    { frames := #[{ layout := ⟨#["x"]⟩, parent := none, slots := #[.bool true] }]
      cells := #[{ name := "println", target := .primitive .println }]
      sites := #[.megamorphic]
      sinks := #[.buffer "before\n"] } }

def printTwice : Task :=
  let print (v : Value) : Expr := .apply (.literal (.closure ⟨⟨0⟩, none⟩)) [.literal v] false ⟨0⟩
  .invoke (.begin [print (.bool true), print (.symbol "done"), .read ⟨0, "x"⟩ 0])

def countingInterpreter : Interpreter :=
  { mode := .checked, overflow := .trapping, cacheSize := 1, stack := { limit := some 10000 }
    profile := some {}, sink := ⟨0⟩ }

/-- The task fails, after it has printed two lines; all that was there is kept. -/
theorem evaluation_only_adds_printing :
    ∃ o, countingInterpreter.perform 20 printingWorld printTwice = some o ∧
      o.result = .error { cause := .invalidSlot "x" 0 .outOfRange, trace := none } ∧
      o.world.store.cell ⟨0⟩ = { name := "println", target := .primitive .println } ∧
      (o.world.store.frame ⟨0⟩).Written 0 ∧
      (o.world.store.site ⟨0⟩).isMegamorphic = true ∧
      o.interpreter.mode = .checked ∧
      o.world.store.sink ⟨0⟩ = .buffer "before\n#t\n'done\n" := by
  have hrun : countingInterpreter.perform 20 printingWorld printTwice =
      some ((countingInterpreter.perform 20 printingWorld printTwice).get rfl) :=
    (Option.some_get _).symm
  obtain ⟨hcell, hframe, hsite, hkept, hsink, -⟩ :=
    evaluation_only_adds 20 countingInterpreter printingWorld printTwice _ hrun
  have hwritten := (hframe ⟨0⟩ (by decide)).2.2.2.2.1 0 ⟨.bool true, rfl, by decide⟩
  have htext := hsink "before\n" rfl
  exact ⟨_, hrun, rfl, (hcell ⟨0⟩ (by decide)).2, hwritten, (hsite ⟨0⟩ rfl).1, hkept.1, htext⟩

end TreeMachine
