import Mathlib.Data.List.Basic
import TreeMachine.Proofs.Backtraces
import TreeMachine.Proofs.CacheValidity
import TreeMachine.Proofs.Isolation

set_option autoImplicit false

namespace TreeMachine

def Cause.IsMismatch (cause : Cause) : Prop :=
  ∃ expected got, cause = .typeMismatch expected got ∧ expected ≠ got

namespace Value

theorem isMismatch_of_asInt {v : Value} {cause : Cause} (h : v.asInt = .error cause) :
    cause.IsMismatch := by
  cases v <;> simp [asInt] at h <;> exact ⟨_, _, h.symm, by simp [typeName]⟩

theorem isMismatch_of_asBool {v : Value} {cause : Cause} (h : v.asBool = .error cause) :
    cause.IsMismatch := by
  cases v <;> simp [asBool] at h <;> exact ⟨_, _, h.symm, by simp [typeName]⟩

theorem isMismatch_of_asClosure {v : Value} {cause : Cause} (h : v.asClosure = .error cause) :
    cause.IsMismatch := by
  cases v <;> simp [asClosure] at h <;> exact ⟨_, _, h.symm, by simp [typeName]⟩

theorem isMismatch_of_asBox {v : Value} {cause : Cause} (h : v.asBox = .error cause) :
    cause.IsMismatch := by
  cases v <;> simp [asBox] at h <;> exact ⟨_, _, h.symm, by simp [typeName]⟩

end Value

theorem isMismatch_of_intPair {a b : Value} {cause : Cause} (h : intPair a b = .error cause) :
    cause.IsMismatch := by
  unfold intPair at h
  split at h
  · rename_i e he
    obtain rfl := Except.error.inj h
    exact Value.isMismatch_of_asInt he
  · split at h
    · rename_i e he
      obtain rfl := Except.error.inj h
      exact Value.isMismatch_of_asInt he
    · cases h

namespace Primitive

def Refuses (policy : Overflow) (cause : Cause) : Prop :=
  cause.IsMismatch ∨ ∃ operation, cause = .arithmeticOverflow operation ∧ policy = .trapping

theorem refuses_of_arith {policy : Overflow} {operation : String}
    {word : Int64 → Int64 → Int64} {exact : Int → Int → Int} {a b : Value} {cause : Cause}
    (h : policy.arith operation word exact a b = .error cause) : Refuses policy cause := by
  unfold Overflow.arith at h
  split at h
  · rename_i e he
    obtain rfl := Except.error.inj h
    exact .inl (isMismatch_of_intPair he)
  · split at h
    · cases h
    · split at h
      · cases h
      · exact .inr ⟨operation, (Except.error.inj h).symm, rfl⟩

theorem refuses_of_apply {op : Primitive} {args : List Value} {policy : Overflow} {sink : SinkId}
    {s : Store} {cause : Cause} (hlength : args.length = op.arity)
    (h : (op.apply args policy sink s).1 = .error cause) : Refuses policy cause := by
  cases op with
  | makeBox =>
    obtain ⟨v, rfl⟩ := List.length_eq_one_iff.1 hlength
    cases h
  | println =>
    obtain ⟨v, rfl⟩ := List.length_eq_one_iff.1 hlength
    cases h
  | unbox =>
    obtain ⟨v, rfl⟩ := List.length_eq_one_iff.1 hlength
    cases hbox : v.asBox with
    | ok b => simp [apply, hbox] at h
    | error e =>
      simp only [apply, hbox, Except.error.injEq] at h
      exact .inl (h ▸ Value.isMismatch_of_asBox hbox)
  | setBox =>
    obtain ⟨v, w, rfl⟩ := List.length_eq_two.1 hlength
    cases hbox : v.asBox with
    | ok b => simp [apply, hbox] at h
    | error e =>
      simp only [apply, hbox, Except.error.injEq] at h
      exact .inl (h ▸ Value.isMismatch_of_asBox hbox)
  | lt =>
    obtain ⟨a, b, rfl⟩ := List.length_eq_two.1 hlength
    cases hpair : intPair a b with
    | ok p => simp [apply, hpair, Except.map] at h
    | error e =>
      simp only [apply, hpair, Except.map, Except.error.injEq] at h
      exact .inl (h ▸ isMismatch_of_intPair hpair)
  | eq =>
    obtain ⟨a, b, rfl⟩ := List.length_eq_two.1 hlength
    cases h
  | _ =>
    obtain ⟨a, b, rfl⟩ := List.length_eq_two.1 hlength
    exact refuses_of_arith h

end Primitive

namespace Machine

/-- What is so in a state whose next step fails of the cause. Nothing is said of slot faults, which
are the business of lexical scope. -/
def Grounds (m : Setup) (s : State) : Cause → Prop
  | .unboundFunction name => ∃ c, s.control = .dispatch c ∧
      (s.store.cell c.closure.cell).name = name ∧ (s.store.cell c.closure.cell).target = .unbound
  | .arityMismatch name expected got => expected ≠ got ∧ ∃ c, s.control = .dispatch c ∧
      (s.store.cell c.closure.cell).name = name ∧
      (s.store.cell c.closure.cell).target.arity? m.library = some expected ∧
      c.args.length = got
  | .stackOverflow limit => s.stack.limit = some limit
  | .arithmeticOverflow _ => m.overflow = .trapping
  | .typeMismatch expected got => expected ≠ got
  | .invalidSlot .. => True

theorem grounds_of_isMismatch {m : Setup} {s : State} {cause : Cause} (h : cause.IsMismatch) :
    Grounds m s cause := by
  obtain ⟨expected, got, rfl, hne⟩ := h
  exact hne

theorem grounds_of_raises {m : Setup} {s : State} {cause : Cause} (h : Raises m s cause) :
    Grounds m s cause := by
  cases h with
  | read control fails => trivial
  | store control pending fails => trivial
  | param control target fails => trivial
  | branch control pending fails => exact grounds_of_isMismatch (Value.isMismatch_of_asBool fails)
  | callee control pending fails =>
    exact grounds_of_isMismatch (Value.isMismatch_of_asClosure fails)
  | unbound control target => exact ⟨_, control, rfl, target⟩
  | arity control target differs => exact ⟨Ne.symm differs, _, control, rfl, target, rfl⟩
  | primitive control target length fails =>
    rcases Primitive.refuses_of_apply length fails with hmismatch | ⟨operation, rfl, htrapping⟩
    · exact grounds_of_isMismatch hmismatch
    · exact htrapping
  | overflow control full => exact (CallStack.full?_eq_some_iff.1 full).1

theorem arity_of_grounds {m : Setup} {s : State} {b : Store} {name : String} {expected got : Nat}
    (h : Grounds m s (.arityMismatch name expected got)) (hgrows : s.store.Grows b) :
    ∃ id : CellId, id.index < b.cells.size ∧ (b.cell id).name = name ∧
      (b.cell id).target.arity? m.library = some expected := by
  obtain ⟨-, c, -, hname, harity, -⟩ := h
  have hbound : (s.store.cell c.closure.cell).target.isBound = true := by
    cases htarget : (s.store.cell c.closure.cell).target with
    | unbound =>
      rw [htarget] at harity
      cases harity
    | _ => rfl
  have hid := Store.lt_size_of_isBound hbound
  have hsame := hgrows.cells.cell hid
  exact ⟨c.closure.cell, Nat.lt_of_lt_of_le hid hgrows.cells.size_le, hsame ▸ hname,
    hsame ▸ harity⟩

/-- The cells that the machine holds have been given out, and those that were made since `a` have an
entry point. -/
def cellTyping (library : Library) (a : Store) : Typing where
  value b v := ∀ id, v.Names (.cell id) → b.Has (.cell id)
  tree b e _ := ∀ id, e.Names (.cell id) → b.Has (.cell id)
  place _ _ _ _ := True
  site _ := True
  store b := (∀ x id, b.Points library x (.cell id) → b.Has (.cell id)) ∧
    ∀ id : CellId, a.cells.size ≤ id.index → b.Has (.cell id) →
      (b.cell id).target.isBound = true

theorem cellTyping_change {library : Library} {a b c : Store}
    (hb : (cellTyping library a).store b) (hcells : c.cells = b.cells)
    (hpoints : ∀ x id, c.Points library x (.cell id) →
      b.Points library x (.cell id) ∨ b.Has (.cell id)) : (cellTyping library a).store c := by
  have hhas : ∀ id : CellId, c.Has (.cell id) ↔ b.Has (.cell id) := by
    intro id
    simp only [Store.Has, hcells]
  refine ⟨fun x id hx => (hhas id).2 ((hpoints x id hx).elim (hb.1 x id) fun h => h), ?_⟩
  intro id hid hc
  rw [Store.cell, hcells]
  exact hb.2 id hid ((hhas id).1 hc)

theorem cellTyping_putBox {library : Library} {a b c : Store} {v : Value}
    (hb : (cellTyping library a).store b) (hv : (cellTyping library a).value b v)
    (hcells : c.cells = b.cells) (hframe : ∀ id, c.frame id = b.frame id)
    (hbox : ∀ id, c.box id = b.box id ∨ c.box id = v) : (cellTyping library a).store c := by
  have hcell : ∀ id, c.cell id = b.cell id := fun id => by simp only [Store.cell, hcells]
  exact cellTyping_change hb hcells fun x id hx =>
    (Store.points_of_box hframe hcell hbox hx).imp_right (hv id)

theorem cellTyping_lawful (m : Setup) (a : Store) : (cellTyping m.library a).Lawful m where
  grows_value hg hv id hid := Nat.lt_of_lt_of_le (hv id hid) hg.cells.size_le
  grows_tree hg htree id hid := Nat.lt_of_lt_of_le (htree id hid) hg.cells.size_le
  grows_place _ _ := trivial
  scalar _ v hv id hid := absurd hid (Value.not_names_of_isScalar hv _)
  literal htree id hid := htree id (.literal (Expr.Part.refl _) hid)
  child hchild htree id hid := htree id (hid.of_child hchild)
  rest htree id hid := htree id hid.of_rest
  place_of_tree _ := trivial
  site_of_tree _ := trivial
  read hb _ hread id hid := by
    obtain ⟨target, -, hslot⟩ := Store.read_eq_ok hread
    exact hb.1 _ id (.slot (Frame.contains_of_read hslot) hid)
  unbox hb _ id hid := hb.1 _ id (.content hid)
  lambda {b code f cell} hb _ hcell := by
    have hgiven : ∀ id : CellId, b.Has (.cell id) → (b.addCell cell).2.Has (.cell id) :=
      fun id hid => Nat.lt_of_lt_of_le hid (Store.extends_addCell b cell).size_le
    refine ⟨⟨fun x id hx => ?_, fun id hid hhas => ?_⟩, fun id hid => ?_⟩
    · rcases Store.points_addCell hx with hold | ⟨_, -, hcode⟩
      · exact hgiven id (hb.1 x id hold)
      · cases hcode
    · rw [Store.cell_addCell]
      split
      · rw [hcell]
        rfl
      · rename_i hne
        refine hb.2 id hid (Nat.lt_of_le_of_ne (Nat.lt_succ_iff.1 ?_) hne)
        simpa [Store.Has, Store.addCell] using hhas
    · cases hid
      simp [Store.Has, Store.addCell]
  write {b c slot depth f v} hb _ hv hw := by
    obtain ⟨target, frame, -, hframe, rfl⟩ := Store.write_eq_ok hw
    refine cellTyping_change hb rfl fun x id hx => ?_
    exact (Store.points_setFrame hframe hx).imp_right (hv id)
  addBox {b v} hb hv := by
    refine ⟨cellTyping_putBox hb hv rfl (fun _ => rfl) fun id => ?_, fun id hid => by cases hid⟩
    rw [Store.box_addBox]
    split
    · exact .inr rfl
    · exact .inl rfl
  setBox {b box v} hb _ hv := by
    refine cellTyping_putBox hb hv rfl (fun _ => rfl) fun id => ?_
    rw [Store.box_setBox]
    split
    · exact .inr rfl
    · exact .inl rfl
  setSite _ hb _ := cellTyping_change hb rfl fun _ _ hx =>
    .inl (hx.of_same (fun _ _ => rfl) (fun _ _ => rfl) fun _ _ => rfl)
  println _ _ hb := cellTyping_change hb rfl fun _ _ hx =>
    .inl (hx.of_same (fun _ _ => rfl) (fun _ _ => rfl) fun _ _ => rfl)
  enter {b c args code frame} hb _ hargs _ _ hbind := by
    refine ⟨cellTyping_change hb rfl fun x id hx => ?_, fun id hid => hb.1 _ id (.body hid)⟩
    rcases Store.points_addFrame hx with hold | ⟨_, -, hparent⟩ | ⟨v, hv, hid⟩
    · exact .inl hold
    · cases hparent
    · rcases Frame.contains_of_bind hbind hv with hmem | hnone
      · exact .inr (hargs v hmem id hid)
      · exact absurd hnone (Frame.not_contains_activate _ _ v)

theorem dispatchStep_of_lookup {m : Setup} {s : State} {c : Call} {found : Lookup}
    {site : CallSite}
    (h : (s.store.site c.site).lookup s.store.cell c.closure.cell m.cacheSize = .ok (found, site)) :
    ∃ arity, found.target.arity? m.library = some arity ∧ (c.args.length ≠ arity →
      (dispatchStep m s c).control = (s.failHere
        (.arityMismatch (s.store.cell c.closure.cell).name arity c.args.length)).control ∧
      (dispatchStep m s c).store = s.store.setSite c.site site) := by
  have hbound : found.target.isBound = true := by
    rw [CallSite.target_of_lookup h]
    exact (CallSite.lookup_eq_ok h).1
  obtain ⟨arity, harity⟩ : ∃ arity, found.target.arity? m.library = some arity := by
    cases htarget : found.target with
    | unbound =>
      rw [htarget] at hbound
      cases hbound
    | _ => exact ⟨_, rfl⟩
  refine ⟨arity, harity, fun hne => ?_⟩
  simp only [dispatchStep, h, transfer, State.count, harity, if_pos hne]
  exact ⟨rfl, rfl⟩

end Machine

open Machine

namespace Interpreter

theorem cells_of_launch {i : Interpreter} {w : World} {t : Task} {s : State}
    (hworld : ∀ x id, w.store.Points w.library x (.cell id) → w.store.Has (.cell id))
    (htask : ∀ id, t.Names (.cell id) → w.store.Has (.cell id)) (h : i.launch w t = .ok s) :
    (cellTyping w.library w.store).Holds s := by
  have hself : (cellTyping w.library w.store).store w.store :=
    ⟨hworld, fun id hid hhas => absurd hhas (Nat.not_lt.2 hid)⟩
  have hframe : ∀ layout, (cellTyping w.library w.store).store
      (w.store.addFrame (.activate layout none)).2 := by
    refine fun layout => cellTyping_change hself rfl fun x id hx => ?_
    rcases Store.points_addFrame hx with hold | ⟨_, hnone, -⟩ | ⟨v, hv, -⟩
    · exact .inl hold
    · cases hnone
    · exact absurd hv (Frame.not_contains_activate _ _ v)
  cases t with
  | invoke e =>
    obtain rfl := Except.ok.inj h
    exact ⟨hframe {}, htask, by simp [start]⟩
  | invokeWith e layout =>
    obtain rfl := Except.ok.inj h
    exact ⟨hframe layout, htask, by simp [start]⟩
  | call callee args =>
    cases callee with
    | closure c =>
      obtain rfl := Except.ok.inj h
      refine ⟨?_, ⟨trivial, fun id hid => ?_, fun v hv id hid => ?_⟩, ?_⟩
      · exact cellTyping_change hself rfl fun x id hx =>
          .inl (hx.of_same (fun _ _ => rfl) (fun _ _ => rfl) fun _ _ => rfl)
      · exact htask id ⟨_, List.mem_cons_self, hid⟩
      · exact htask id ⟨v, List.mem_cons_of_mem _ hv, hid⟩
      · simp [start, Typing.PendingOk]
    | _ => cases h

theorem isMismatch_of_launch {i : Interpreter} {w : World} {t : Task} {cause : Cause}
    (h : i.launch w t = .error cause) : cause.IsMismatch := by
  cases t with
  | call callee args =>
    cases hc : callee.asClosure with
    | ok closure => simp [launch, hc, Except.map] at h
    | error e =>
      simp only [launch, hc, Except.map, Except.error.injEq] at h
      exact h ▸ Value.isMismatch_of_asClosure hc
  | _ => cases h

theorem unbound_of_grounds {i : Interpreter} {w : World} {t : Task} {s : State} {k : Nat}
    {name : String}
    (hworld : ∀ x id, w.store.Points w.library x (.cell id) → w.store.Has (.cell id))
    (htask : ∀ id, t.Names (.cell id) → w.store.Has (.cell id)) (hs : i.launch w t = .ok s)
    (h : Grounds (i.setup w.library) (steps (i.setup w.library) k s) (.unboundFunction name)) :
    ∃ id : CellId, id.index < w.store.cells.size ∧ (w.store.cell id).name = name ∧
      (w.store.cell id).target = .unbound := by
  obtain ⟨c, hc, hname, hunbound⟩ := h
  have hcells := (cells_of_launch hworld htask hs).steps
    (cellTyping_lawful (i.setup w.library) w.store) k
  have hcall := hcells.control
  rw [hc] at hcall
  have hgiven := hcall.closure _ (.cell c.closure)
  have hold : c.closure.cell.index < w.store.cells.size := by
    refine Nat.lt_of_not_le fun hnew => ?_
    have hbound := hcells.store.2 _ hnew hgiven
    rw [hunbound] at hbound
    cases hbound
  have hsame := ((extends_launch hs).trans (extends_steps (i.setup w.library) k s)).cell hold
  exact ⟨c.closure.cell, hold, hsame ▸ hname, hsame ▸ hunbound⟩

theorem grounds_of_perform {fuel : Nat} {i : Interpreter} {w : World} {t : Task} {o : Outcome}
    {e : Failure} (h : i.perform fuel w t = some o) (he : o.result = .error e) :
    e.cause.IsMismatch ∨ ∃ s k, i.launch w t = .ok s ∧
      Grounds (i.setup w.library) (steps (i.setup w.library) k s) e.cause ∧
      (steps (i.setup w.library) k s).store.Grows o.world.store := by
  cases hs : i.launch w t with
  | error cause =>
    rw [perform_of_launch_error hs, Option.some.injEq] at h
    subst h
    obtain rfl := Except.error.inj he
    exact .inl (isMismatch_of_launch hs)
  | ok s =>
    rw [perform_of_launch_ok hs] at h
    obtain ⟨r, u, hrun, rfl⟩ := runFrom_eq_some_iff.1 h
    obtain rfl : r = .error e := he
    obtain ⟨k, hfails⟩ := failsAt_of_run hs hrun
    refine .inr ⟨s, k, rfl, grounds_of_raises hfails.raises, ?_⟩
    -- What is left of the run after the moment only adds to the store.
    have hrest := run_rest hrun k
    rw [run_eq] at hrest
    obtain ⟨r, -, heq⟩ := Option.map_eq_some_iff.1 hrest
    obtain ⟨-, rfl⟩ := Prod.mk.inj heq
    exact grows_steps ..

end Interpreter

/-- The cause of a failure tells what was so when the task began: the unbound cell, the limit, the
policy, the arity or the type. -/
theorem failures_have_causes (fuel : Nat) (i : Interpreter) (w : World) (t : Task)
    (o : Interpreter.Outcome) (e : Failure) (hlimit : i.stack.limit = i.mode.limit?)
    (hworld : ∀ x id, w.store.Points w.library x (.cell id) → w.store.Has (.cell id))
    (htask : ∀ id, t.Names (.cell id) → w.store.Has (.cell id))
    (h : i.perform fuel w t = some o) (he : o.result = .error e) :
    (∀ s k u, i.launch w t = .ok s → steps (i.setup w.library) k s = u →
      (∀ id : CellId, w.store.cells.size ≤ id.index → id.index < u.store.cells.size →
        (u.store.cell id).target.isBound = true) ∧
      ∀ c found site, u.control = .dispatch c →
        u.store.lookupAt c.site c.closure i.cacheSize = .ok (found, site) →
        ∃ arity, found.target.arity? w.library = some arity ∧ (c.args.length ≠ arity →
          (step (i.setup w.library) u).control = (u.failHere (.arityMismatch
            (u.store.cell c.closure.cell).name arity c.args.length)).control ∧
          (step (i.setup w.library) u).store = u.store.setSite c.site site)) ∧
    (∀ name, e.cause = .unboundFunction name → ∃ id : CellId, id.index < w.store.cells.size ∧
      (w.store.cell id).name = name ∧ (w.store.cell id).target = .unbound) ∧
    (∀ depth, e.cause = .stackOverflow depth → i.mode.limit? = some depth) ∧
    (∀ operation, e.cause = .arithmeticOverflow operation → i.overflow = .trapping) ∧
    (∀ name expected got, e.cause = .arityMismatch name expected got → expected ≠ got ∧
      ∃ id : CellId, id.index < o.world.store.cells.size ∧ (o.world.store.cell id).name = name ∧
        (o.world.store.cell id).target.arity? w.library = some expected) ∧
    (∀ expected got, e.cause = .typeMismatch expected got → expected ≠ got) := by
  constructor
  · rintro s k u hs rfl
    have hcells := (Interpreter.cells_of_launch hworld htask hs).steps
      (cellTyping_lawful (i.setup w.library) w.store) k
    refine ⟨hcells.store.2, fun c found site hc hlookup => ?_⟩
    simp only [step, hc]
    exact dispatchStep_of_lookup (m := i.setup w.library) hlookup
  · rcases Interpreter.grounds_of_perform h he with
      ⟨expected, got, hmismatch, hne⟩ | ⟨s, k, hs, hgrounds, hgrows⟩
    · rw [hmismatch]
      refine ⟨fun _ hcause => Cause.noConfusion hcause, fun _ hcause => Cause.noConfusion hcause,
        fun _ hcause => Cause.noConfusion hcause, fun _ _ _ hcause => Cause.noConfusion hcause,
        fun expected' got' hcause => ?_⟩
      obtain ⟨rfl, rfl⟩ := Cause.typeMismatch.inj hcause
      exact hne
    · refine ⟨fun name hcause => ?_, fun depth hcause => ?_, fun operation hcause => ?_,
        fun name expected got hcause => ?_, fun expected got hcause => ?_⟩
      all_goals rw [hcause] at hgrounds
      · exact Interpreter.unbound_of_grounds hworld htask hs hgrounds
      · rw [← hlimit, ← Interpreter.stack_of_launch hs, ← steps_limit (i.setup w.library) k s]
        exact hgrounds
      · exact hgrounds
      · exact ⟨hgrounds.1, arity_of_grounds hgrounds hgrows⟩
      · exact hgrounds

def declaringWorld : World :=
  { library := ⟨#[{ name := "k", params := [], body := .begin [], layout := {} }]⟩
    store := { cells := #[⟨"later", .unbound, 0⟩], sites := #[.fresh] } }

def callLater : Task :=
  .invoke (.apply (.literal (.closure ⟨⟨0⟩, none⟩)) [.lambda ⟨0⟩] false ⟨0⟩)

theorem has_of_declaringWorld (x : Object) (id : CellId)
    (h : declaringWorld.store.Points declaringWorld.library x (.cell id)) :
    declaringWorld.store.Has (.cell id) := by
  have hhas := h.has
  cases h with
  | slot _ _ => exact absurd hhas (Nat.not_lt_zero _)
  | content _ => exact absurd hhas (Nat.not_lt_zero _)
  | @body code _ names =>
    have hbody : (declaringWorld.library.code code).body = .begin [] := by
      obtain ⟨index⟩ := code
      cases index <;> rfl
    rw [hbody] at names
    rcases names.here_or_below with ⟨_, h, _⟩ | ⟨_, h, _⟩ | ⟨_, _, _, _, h, _⟩ | ⟨_, h, _⟩
    · cases h
    · cases h
    · cases h
    · cases h with
      | item hmem => cases hmem

theorem has_of_callLater (id : CellId) (h : callLater.Names (.cell id)) :
    declaringWorld.store.Has (.cell id) := by
  rcases Expr.Names.here_or_below h with ⟨_, h, _⟩ | ⟨_, h, _⟩ | ⟨_, _, _, _, _, h⟩ | ⟨_, h, names⟩
  · cases h
  · cases h
  · cases h
  · cases h with
    | callee =>
      rcases names.here_or_below with ⟨_, h, hv⟩ | ⟨_, h, _⟩ | ⟨_, _, _, _, h, _⟩ | ⟨_, h, _⟩
      · obtain rfl := Expr.literal.inj h
        cases hv
        exact Nat.lt_succ_self 0
      · cases h
      · cases h
      · cases h
    | argument hmem =>
      obtain rfl := List.mem_singleton.1 hmem
      cases Expr.names_lambda.1 names

/-- The call fails of the unbound cell, which is not the one that was made. -/
theorem failures_have_causes_unbound :
    ∃ o, plainInterpreter.perform 10 declaringWorld callLater = some o ∧
      o.result = .error { cause := .unboundFunction "later", trace := none } ∧
      o.world.store.cells.size = 2 ∧
      ∃ id : CellId, id.index < 1 ∧ (declaringWorld.store.cell id).name = "later" ∧
        (declaringWorld.store.cell id).target = .unbound := by
  have hcauses := failures_have_causes 10 plainInterpreter declaringWorld callLater _ _ rfl
    has_of_declaringWorld has_of_callLater rfl rfl
  exact ⟨_, rfl, rfl, rfl, hcauses.2.1 "later" rfl⟩

end TreeMachine
