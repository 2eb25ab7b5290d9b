import Mathlib.Logic.Relation
import TreeMachine.Proofs.CellPersistence

set_option autoImplicit false

namespace TreeMachine

/-- A slot of the first kind may come to have the second: kinds only widen. -/
def SlotKind.Widens : SlotKind → SlotKind → Prop
  | .uninitialized, _ | _, .generic => True
  | a, b => a = b

namespace SlotKind

theorem Widens.refl (a : SlotKind) : a.Widens a := by cases a <;> trivial

theorem Widens.trans {a b c : SlotKind} (hab : a.Widens b) (hbc : b.Widens c) : a.Widens c := by
  cases a <;> cases b <;> cases c <;> simp_all [Widens]

theorem widens_widen (a : SlotKind) (v : Value) : a.Widens (a.widen v) := by
  cases a <;> cases v <;> trivial

end SlotKind

namespace Frame

def Written (f : Frame) (i : Nat) : Prop := ∃ s, f.slots[i]? = some s ∧ s ≠ .empty

structure Grows (f g : Frame) : Prop where
  layout : g.layout = f.layout
  parent : g.parent = f.parent
  size : g.size = f.size
  written : ∀ {i : Nat}, f.Written i → g.Written i
  kind : ∀ (i : Nat) (k : SlotKind), f.kinds[i]? = some k →
    ∃ l : SlotKind, g.kinds[i]? = some l ∧ k.Widens l

namespace Grows

theorem refl (f : Frame) : f.Grows f :=
  ⟨rfl, rfl, rfl, fun hi => hi, fun _ k hk => ⟨k, hk, .refl _⟩⟩

theorem trans {f g h : Frame} (hfg : f.Grows g) (hgh : g.Grows h) : f.Grows h := by
  refine ⟨hgh.layout.trans hfg.layout, hgh.parent.trans hfg.parent, hgh.size.trans hfg.size,
    fun hi => hgh.written (hfg.written hi), ?_⟩
  intro i k hk
  obtain ⟨l, hl, hkl⟩ := hfg.kind i k hk
  obtain ⟨m, hm, hlm⟩ := hgh.kind i l hl
  exact ⟨m, hm, hkl.trans hlm⟩

end Grows

theorem slots_of_write {f g : Frame} {slot : SlotId} {v : Value} (h : f.write slot v = .ok g) :
    ∃ kind, f.kinds[slot.index]? = some kind ∧
      (∀ i, g.kinds[i]? = if i = slot.index then some (kind.widen v) else f.kinds[i]?) ∧
      ∀ i, g.slots[i]? =
        if i = slot.index then some (.ofValue (kind.widen v) v) else f.slots[i]? := by
  unfold write at h
  split at h
  · cases h
  · rename_i kind hkind
    obtain rfl := Except.ok.inj h
    have hlt := (Array.getElem?_eq_some_iff.1 hkind).1
    have hlt' : slot.index < f.slots.size := f.size_kinds ▸ hlt
    refine ⟨kind, hkind, fun i => ?_, fun i => ?_⟩
    · rw [Array.getElem?_setIfInBounds]
      by_cases hi : slot.index = i
      · simp [← hi, hlt]
      · simp [hi, Ne.symm hi]
    · rw [Array.getElem?_setIfInBounds]
      by_cases hi : slot.index = i
      · simp [← hi, hlt']
      · simp [hi, Ne.symm hi]

theorem written_of_write {f g : Frame} {slot : SlotId} {v : Value} (h : f.write slot v = .ok g) :
    g.Written slot.index := by
  obtain ⟨kind, -, -, hslots⟩ := slots_of_write h
  refine ⟨.ofValue (kind.widen v) v, by simp [hslots], fun hempty => ?_⟩
  have hvalue := Slot.value?_ofValue (kind.widen v) v
  rw [hempty] at hvalue
  cases hvalue

theorem grows_write {f g : Frame} {slot : SlotId} {v : Value} (h : f.write slot v = .ok g) :
    f.Grows g := by
  obtain ⟨hlayout, hparent, hsize⟩ := shape_of_write h
  obtain ⟨kind, hkind, hkinds, hslots⟩ := slots_of_write h
  refine ⟨hlayout, hparent, hsize, fun {i} hi => ?_, fun i k hk => ?_⟩
  · by_cases hslot : i = slot.index
    · exact hslot ▸ written_of_write h
    · obtain ⟨s, hs, hne⟩ := hi
      exact ⟨s, by simpa [hslots i, hslot] using hs, hne⟩
  · rw [hkinds i]
    by_cases hslot : i = slot.index
    · subst hslot
      obtain rfl := Option.some.inj (hk.symm.trans hkind)
      exact ⟨k.widen v, by simp, SlotKind.widens_widen k v⟩
    · exact ⟨k, by simpa [hslot] using hk, .refl _⟩

theorem grows_bind {f g : Frame} {params : List SlotId} {args : List Value}
    (h : f.bind params args = .ok g) : f.Grows g := by
  induction params generalizing f args with
  | nil =>
    obtain rfl := Except.ok.inj h
    exact .refl f
  | cons slot params ih =>
    cases args with
    | nil =>
      obtain rfl := Except.ok.inj h
      exact .refl f
    | cons v args =>
      simp only [bind] at h
      cases hw : f.write slot v with
      | error fault => simp [hw] at h
      | ok f' =>
        rw [hw] at h
        exact (grows_write hw).trans (ih h)

theorem bind_of_lt {f : Frame} {params : List SlotId} (h : ∀ p ∈ params, p.index < f.size)
    (args : List Value) : ∃ g, f.bind params args = .ok g := by
  induction params generalizing f args with
  | nil => exact ⟨f, rfl⟩
  | cons slot params ih =>
    cases args with
    | nil => exact ⟨f, rfl⟩
    | cons v args =>
      obtain ⟨g, hg⟩ := write_of_lt (h slot (by simp)) v
      have hsize := (shape_of_write hg).2.2
      simp only [bind, hg]
      refine ih (fun p hp => ?_) args
      rw [hsize]
      exact h p (by simp [hp])

theorem written_of_bind {f g : Frame} {params : List SlotId} {args : List Value}
    (h : f.bind params args = .ok g) (hlength : args.length = params.length) :
    ∀ p ∈ params, g.Written p.index := by
  induction params generalizing f args with
  | nil => simp
  | cons slot params ih =>
    cases args with
    | nil => simp at hlength
    | cons v args =>
      simp only [bind] at h
      cases hw : f.write slot v with
      | error fault => simp [hw] at h
      | ok f' =>
        rw [hw] at h
        have hrest := ih h (by simpa using hlength)
        intro p hp
        rcases List.mem_cons.1 hp with rfl | hp
        · exact (grows_bind h).written (written_of_write hw)
        · exact hrest p hp

def Contains (f : Frame) (v : Value) : Prop :=
  ∃ (i : Nat) (s : Slot), f.slots[i]? = some s ∧ s.value? = some v

theorem contains_of_read {f : Frame} {slot : SlotId} {v : Value} (h : f.read slot = .ok v) :
    f.Contains v := by
  unfold read at h
  split at h
  · cases h
  · rename_i s hs
    split at h
    · cases h
    · rename_i w hw
      obtain rfl := Except.ok.inj h
      exact ⟨slot.index, s, hs, hw⟩

theorem contains_of_write {f g : Frame} {slot : SlotId} {v w : Value} (h : f.write slot v = .ok g)
    (hw : g.Contains w) : w = v ∨ f.Contains w := by
  obtain ⟨kind, -, -, hslots⟩ := slots_of_write h
  obtain ⟨i, t, ht, htw⟩ := hw
  rw [hslots i] at ht
  split at ht
  · obtain rfl := Option.some.inj ht
    rw [Slot.value?_ofValue] at htw
    exact .inl (Option.some.inj htw).symm
  · exact .inr ⟨i, t, ht, htw⟩

theorem contains_of_bind {f g : Frame} {params : List SlotId} {args : List Value} {w : Value}
    (h : f.bind params args = .ok g) (hw : g.Contains w) : w ∈ args ∨ f.Contains w := by
  induction params generalizing f args with
  | nil =>
    obtain rfl := Except.ok.inj h
    exact .inr hw
  | cons slot params ih =>
    cases args with
    | nil =>
      obtain rfl := Except.ok.inj h
      exact .inr hw
    | cons v args =>
      simp only [bind] at h
      cases hf : f.write slot v with
      | error fault => simp [hf] at h
      | ok f' =>
        rw [hf] at h
        rcases ih h with hargs | hf'
        · exact .inl (List.mem_cons_of_mem v hargs)
        · rcases contains_of_write hf hf' with rfl | hold
          · exact .inl List.mem_cons_self
          · exact .inr hold

theorem not_contains_activate (layout : Layout) (parent : Option FrameId) (v : Value) :
    ¬ (activate layout parent).Contains v := by
  rintro ⟨i, s, hs, hv⟩
  simp only [activate, Array.getElem?_replicate] at hs
  split at hs
  · obtain rfl := Option.some.inj hs
    cases hv
  · cases hs

end Frame

namespace Store

/-- One change that a program makes to the store. -/
inductive Change (a : Store) : Store → Prop where
  | addCell (c : FunctionCell) : Change a (a.addCell c).2
  | addFrame (f : Frame) : Change a (a.addFrame f).2
  | addBox (v : Value) : Change a (a.addBox v).2
  | write {id : FrameId} {slot : SlotId} {depth : Nat} {v : Value} {b : Store}
      (h : a.write id slot depth v = .ok b) : Change a b
  | setBox (id : BoxId) (v : Value) : Change a (a.setBox id v)
  | setSite (id : SiteId) (site : CallSite) : Change a (a.setSite id site)
  | println (id : SinkId) (line : String) : Change a (a.println id line)

abbrev Changes : Store → Store → Prop := Relation.ReflTransGen Change

/-- The store after more has been done: what is there keeps its place, cells keep what they hold,
and frames are written to at most. -/
structure Grows (a b : Store) : Prop where
  cells : a.Extends b
  frames : a.frames.size ≤ b.frames.size
  boxes : a.boxes.size ≤ b.boxes.size
  frame : ∀ id : FrameId, id.index < a.frames.size → (a.frame id).Grows (b.frame id)

theorem Grows.refl (a : Store) : a.Grows a :=
  ⟨extends_of_eq rfl, Nat.le_refl _, Nat.le_refl _, fun _ _ => .refl _⟩

theorem Grows.trans {a b c : Store} (hab : a.Grows b) (hbc : b.Grows c) : a.Grows c := by
  refine ⟨hab.cells.trans hbc.cells, Nat.le_trans hab.frames hbc.frames,
    Nat.le_trans hab.boxes hbc.boxes, ?_⟩
  intro id hid
  exact (hab.frame id hid).trans (hbc.frame id (Nat.lt_of_lt_of_le hid hab.frames))

theorem read_eq_ok {a : Store} {id : FrameId} {slot : SlotId} {depth : Nat} {v : Value}
    (h : a.read id slot depth = .ok v) :
    ∃ target, a.ancestor id depth = .ok target ∧ (a.frame target).read slot = .ok v := by
  rw [read_eq] at h
  cases ha : a.ancestor id depth with
  | error fault => simp [ha, Except.bind] at h
  | ok target =>
    simp only [ha, Except.bind] at h
    exact ⟨target, rfl, h⟩

theorem write_eq_ok {a b : Store} {id : FrameId} {slot : SlotId} {depth : Nat} {v : Value}
    (h : a.write id slot depth v = .ok b) :
    ∃ target f, a.ancestor id depth = .ok target ∧ (a.frame target).write slot v = .ok f ∧
      b = a.setFrame target f := by
  rw [write_eq] at h
  cases ha : a.ancestor id depth with
  | error fault => simp [ha, Except.bind] at h
  | ok target =>
    cases hw : (a.frame target).write slot v with
    | error fault => simp [ha, hw, Except.bind, Except.map] at h
    | ok f =>
      simp only [ha, hw, Except.bind, Except.map, Except.ok.injEq] at h
      exact ⟨target, f, rfl, hw, h.symm⟩

theorem grows_change {a b : Store} (h : Change a b) : a.Grows b := by
  cases h with
  | addCell c =>
    exact ⟨extends_addCell a c, Nat.le_refl _, Nat.le_refl _, fun _ _ => .refl _⟩
  | addFrame f =>
    refine ⟨extends_of_eq rfl, by simp [addFrame], Nat.le_refl _, fun id hid => ?_⟩
    rw [frame_addFrame, if_neg (by omega)]
    exact .refl _
  | addBox v => exact ⟨extends_of_eq rfl, Nat.le_refl _, by simp [addBox], fun _ _ => .refl _⟩
  | write h =>
    obtain ⟨target, f, -, hw, rfl⟩ := write_eq_ok h
    refine ⟨extends_of_eq rfl, by simp [setFrame], Nat.le_refl _, fun id _ => ?_⟩
    rw [frame_setFrame]
    split
    · rename_i hid
      have hsame : target = id := by
        cases target
        cases id
        exact congrArg FrameId.mk hid.1
      rw [← hsame]
      exact Frame.grows_write hw
    · exact .refl _
  | setBox id v =>
    exact ⟨extends_of_eq rfl, Nat.le_refl _, by simp [setBox], fun _ _ => .refl _⟩
  | setSite id site =>
    exact ⟨extends_of_eq rfl, Nat.le_refl _, Nat.le_refl _, fun _ _ => .refl _⟩
  | println id line =>
    exact ⟨extends_of_eq rfl, Nat.le_refl _, Nat.le_refl _, fun _ _ => .refl _⟩

theorem grows_addSite (a : Store) : a.Grows a.addSite.2 :=
  ⟨extends_of_eq rfl, Nat.le_refl _, Nat.le_refl _, fun _ _ => .refl _⟩

theorem Grows.of_changes {a b : Store} (h : Changes a b) : a.Grows b := by
  induction h with
  | refl => exact .refl a
  | tail _ hchange ih => exact ih.trans (grows_change hchange)

end Store

def Value.isScalar : Value → Bool
  | .int _ | .bool _ | .unit => true
  | _ => false

/-- What a built-in operation can give, and what it can do to the store. -/
inductive Primitive.Effect (sink : SinkId) (a : Store) (args : List Value) :
    Except Cause Value → Store → Prop where
  | fail (cause : Cause) (h : cause.isDefect = false) : Effect sink a args (.error cause) a
  | scalar (v : Value) (h : v.isScalar = true) : Effect sink a args (.ok v) a
  | makeBox (v : Value) (arg : v ∈ args) :
      Effect sink a args (.ok (.box ⟨a.boxes.size⟩)) (a.addBox v).2
  | unbox (b : BoxId) (arg : .box b ∈ args) : Effect sink a args (.ok (a.box b)) a
  | setBox (b : BoxId) (v : Value) (arg : .box b ∈ args) (new : v ∈ args) :
      Effect sink a args (.ok .unit) (a.setBox b v)
  | println (line : String) : Effect sink a args (.ok .unit) (a.println sink line)

namespace Primitive

theorem isDefect_of_intPair {a b : Value} {cause : Cause} (h : intPair a b = .error cause) :
    cause.isDefect = false := by
  cases a <;> cases b <;> simp [intPair, Value.asInt] at h <;> simp [← h, Cause.isDefect]

theorem effect_arith (policy : Overflow) (operation : String) (word : Int64 → Int64 → Int64)
    (exact : Int → Int → Int) (a b : Value) (sink : SinkId) (s : Store) (args : List Value) :
    Effect sink s args (policy.arith operation word exact a b) s := by
  unfold Overflow.arith
  split
  · rename_i e he
    exact .fail e (isDefect_of_intPair he)
  · split
    · exact .scalar _ rfl
    · split
      · exact .scalar _ rfl
      · exact .fail _ rfl

theorem effect_apply (op : Primitive) (args : List Value) (policy : Overflow) (sink : SinkId)
    (s : Store) :
    Effect sink s args (op.apply args policy sink s).1 (op.apply args policy sink s).2 := by
  unfold apply
  split
  · exact effect_arith ..
  · exact effect_arith ..
  · exact effect_arith ..
  · rename_i a b
    dsimp only
    cases hpair : intPair a b with
    | ok p => exact .scalar _ rfl
    | error e => exact .fail e (isDefect_of_intPair hpair)
  · exact .scalar _ rfl
  · rename_i v
    exact .makeBox v (by simp)
  · rename_i v
    cases v with
    | box b => exact .unbox b (by simp)
    | _ => exact .fail _ rfl
  · rename_i v w
    cases v with
    | box b => exact .setBox b w (by simp) (by simp)
    | _ => exact .fail _ rfl
  · exact .println _
  · exact .fail _ rfl

theorem isDefect_of_apply {op : Primitive} {args : List Value} {policy : Overflow} {sink : SinkId}
    {s : Store} {cause : Cause} (h : (op.apply args policy sink s).1 = .error cause) :
    cause.isDefect = false := by
  have heffect := op.effect_apply args policy sink s
  rw [h] at heffect
  generalize (op.apply args policy sink s).2 = b at heffect
  cases heffect with
  | fail _ hcause => exact hcause

theorem Effect.changes {sink : SinkId} {a b : Store} {args : List Value}
    {r : Except Cause Value} (h : Effect sink a args r b) : a.Changes b := by
  cases h with
  | fail cause h => exact .refl
  | scalar v hv => exact .refl
  | makeBox v arg => exact .single (.addBox v)
  | unbox b arg => exact .refl
  | setBox b v arg new => exact .single (.setBox b v)
  | println line => exact .single (.println sink line)

end Primitive

namespace Machine

open Store

theorem changes_evalStep (m : Setup) (s : State) (e : Expr) (frame : FrameId) :
    s.store.Changes (evalStep m s e frame).store := by
  cases e with
  | read slot depth =>
    simp only [evalStep]
    cases s.store.read frame slot depth with
    | ok v => exact .refl
    | error fault => exact .refl
  | begin items =>
    cases items with
    | nil => exact .refl
    | cons first rest => cases rest <;> exact .refl
  | lambda code => exact .single (.addCell _)
  | _ => exact .refl

theorem changes_yieldStep (s : State) (v : Value) : s.store.Changes (yieldStep s v).store := by
  unfold yieldStep
  split
  · exact .refl
  · split
    · rename_i hw
      exact .single (.write hw)
    · exact .refl
  · split <;> exact .refl
  · exact .refl
  · split
    · rw [operands_store]
    · exact .refl
  · rw [operands_store]
  · exact .refl
  · exact .refl

theorem changes_transfer (m : Setup) (s : State) (target : Target) (c : Call) :
    s.store.Changes (transfer m s target c).store := by
  unfold transfer
  dsimp only
  split
  · exact .refl
  · split
    · exact .refl
    · cases target with
      | primitive op =>
        have heffect := Primitive.effect_apply op c.args m.overflow m.sink s.store
        simp only [operate]
        cases (op.apply c.args m.overflow m.sink s.store).1 with
        | ok v => exact heffect.changes
        | error cause => exact heffect.changes
      | lambda code =>
        simp only [enter]
        split
        · exact .refl
        · split
          · exact .refl
          · exact .single (.addFrame _)
      | unbound => exact .refl

/-- All that a step does to the store is one of the changes. -/
theorem changes_step (m : Setup) (s : State) : s.store.Changes (step m s).store := by
  unfold step
  split
  · exact changes_evalStep ..
  · exact changes_yieldStep ..
  · unfold tailCallStep
    split <;> exact .refl
  · rename_i c _
    rcases dispatchStep_cases m c s.store with ⟨-, hfail⟩ | ⟨-, found, site, hfound⟩
    · rw [hfail s rfl]
      exact .refl
    · rw [hfound s rfl]
      exact Relation.ReflTransGen.head (.setSite c.site site)
        (changes_transfer m (s.located c found site) _ c)
  · unfold raiseStep
    split <;> exact .refl

theorem grows_step (m : Setup) (s : State) : s.store.Grows (step m s).store :=
  .of_changes (changes_step m s)

theorem grows_steps (m : Setup) (n : Nat) (s : State) : s.store.Grows (steps m n s).store := by
  induction n with
  | zero => exact .refl _
  | succ n ih =>
    rw [steps_succ]
    exact ih.trans (grows_step ..)

end Machine

open Machine

namespace Interpreter

theorem grows_launch {i : Interpreter} {w : World} {t : Task} {s : State}
    (h : i.launch w t = .ok s) : w.store.Grows s.store := by
  cases t with
  | call callee args =>
    cases hc : callee.asClosure with
    | error e => simp [launch, hc, Except.map] at h
    | ok closure =>
      simp only [launch, hc, Except.map, Except.ok.injEq] at h
      subst h
      exact w.store.grows_addSite
  | _ =>
    obtain rfl := Except.ok.inj h
    exact Store.grows_change (.addFrame _)

end Interpreter

end TreeMachine
