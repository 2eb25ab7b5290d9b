import TreeMachine.Proofs.Isolation
import TreeMachine.Proofs.LexicalScope

set_option autoImplicit false

namespace TreeMachine

namespace Store

def HasFrames (a : Store) (names : Object → Prop) : Prop :=
  ∀ f, names (.frame f) → a.Has (.frame f)

theorem HasFrames.grows {a b : Store} {names : Object → Prop} (h : a.HasFrames names)
    (hle : a.frames.size ≤ b.frames.size) : b.HasFrames names :=
  fun f hf => Nat.lt_of_lt_of_le (h f hf) hle

/-- What leads to a frame leads to one that was given out, and the frame around a frame is older. -/
structure Nested (library : Library) (a : Store) : Prop where
  given : ∀ x, a.HasFrames (a.Points library x)
  older : ∀ f g, (a.frame f).parent = some g → g.index < f.index

theorem nested_empty : Nested {} {} := by
  refine ⟨fun x f hx => ?_, fun f g hg => ?_⟩
  · cases hx with
    | parent hg => cases hg
    | slot hv names => exact absurd hv (Frame.not_contains_activate _ _ _)
    | content names => cases names
    | body names =>
      obtain ⟨e, hmem, -⟩ := Expr.names_begin.1 names
      cases hmem
  · cases hg

namespace Nested

variable {library : Library} {a b : Store}

theorem putBox (h : a.Nested library) (hframes : b.frames = a.frames)
    (hbox : ∀ id, b.box id = a.box id ∨ a.HasFrames (b.box id).Names) : b.Nested library := by
  have hframe : ∀ id, b.frame id = a.frame id := fun id => by simp only [frame, hframes]
  refine ⟨fun x f hx => ?_, fun f g hg => h.older f g (hframe f ▸ hg)⟩
  have hgiven : a.Has (.frame f) := by
    cases hx with
    | parent hg => exact h.given _ f (.parent (hframe _ ▸ hg))
    | slot hv names => exact h.given _ f (.slot (hframe _ ▸ hv) names)
    | @content id _ names =>
      rcases hbox id with hsame | hnew
      · exact h.given (.box id) f (.content (hsame ▸ names))
      · exact hnew f names
    | body names => exact h.given _ f (.body names)
  simpa only [Has, hframes] using hgiven

theorem same (h : a.Nested library) (hframes : b.frames = a.frames) (hboxes : b.boxes = a.boxes) :
    b.Nested library :=
  h.putBox hframes fun id => .inl (by simp only [box, hboxes])

theorem addBox (h : a.Nested library) {v : Value} (hv : a.HasFrames v.Names) :
    (a.addBox v).2.Nested library := by
  refine h.putBox rfl fun id => ?_
  rw [box_addBox]
  split
  · exact .inr hv
  · exact .inl rfl

theorem setBox (h : a.Nested library) (id : BoxId) {v : Value} (hv : a.HasFrames v.Names) :
    (a.setBox id v).Nested library := by
  refine h.putBox rfl fun j => ?_
  rw [box_setBox]
  split
  · exact .inr hv
  · exact .inl rfl

theorem addFrame (h : a.Nested library) {frame : Frame}
    (hparent : ∀ g, frame.parent = some g → a.Has (.frame g))
    (hslots : ∀ v, frame.Contains v → a.HasFrames v.Names) :
    (a.addFrame frame).2.Nested library := by
  refine ⟨fun x f hx => ?_, fun f g hg => ?_⟩
  · have hgiven : a.Has (.frame f) := by
      rcases points_addFrame hx with hold | ⟨g, hg, heq⟩ | ⟨v, hv, names⟩
      · exact h.given x f hold
      · obtain rfl := Object.frame.inj heq
        exact hparent f hg
      · exact hslots v hv f names
    exact Nat.lt_of_lt_of_le hgiven (by simp [Store.addFrame])
  · rw [frame_addFrame] at hg
    split at hg
    · rename_i hf
      have hlt : g.index < a.frames.size := hparent g hg
      omega
    · exact h.older f g hg

theorem write (h : a.Nested library) {f : FrameId} {slot : SlotId} {depth : Nat} {v : Value}
    (hv : a.HasFrames v.Names) (hw : a.write f slot depth v = .ok b) : b.Nested library := by
  obtain ⟨target, frame, -, hframe, rfl⟩ := write_eq_ok hw
  refine ⟨fun x g hx => ?_, fun g up hup => ?_⟩
  · have hgiven : a.Has (.frame g) := (points_setFrame hframe hx).elim (h.given x g) (hv g)
    simpa [Has, setFrame] using hgiven
  · rw [frame_setFrame] at hup
    split at hup
    · rename_i hg
      obtain rfl : target = g := congrArg FrameId.mk hg.1
      rw [(Frame.shape_of_write hframe).2.1] at hup
      exact h.older target up hup
    · exact h.older g up hup

end Nested

end Store

namespace Machine

def frameTyping (library : Library) : Typing where
  value a v := a.HasFrames v.Names
  tree a e f := a.Has (.frame f) ∧ a.HasFrames e.Names
  place _ _ _ _ := True
  site _ := True
  store a := a.Nested library

theorem frameTyping_lawful (m : Setup) : (frameTyping m.library).Lawful m where
  grows_value hg hv := hv.grows hg.frames
  grows_tree hg htree := ⟨Nat.lt_of_lt_of_le htree.1 hg.frames, htree.2.grows hg.frames⟩
  grows_place _ _ := trivial
  scalar _ v hv f hf := absurd hf (Value.not_names_of_isScalar hv _)
  literal htree f hf := htree.2 f (.literal (Expr.Part.refl _) hf)
  child hchild htree := ⟨htree.1, fun f hf => htree.2 f (hf.of_child hchild)⟩
  rest htree := ⟨htree.1, fun f hf => htree.2 f hf.of_rest⟩
  place_of_tree _ := trivial
  site_of_tree _ := trivial
  read ha _ hread f hf := by
    obtain ⟨target, -, hslot⟩ := Store.read_eq_ok hread
    exact ha.given _ f (.slot (Frame.contains_of_read hslot) hf)
  unbox ha _ f hf := ha.given _ f (.content hf)
  lambda {a id f cell} ha htree _ := by
    refine ⟨ha.same rfl rfl, fun g hg => ?_⟩
    cases hg with
    | captured henv =>
      obtain rfl := Option.some.inj henv
      exact htree.1
  write ha _ hv hw := ha.write hv hw
  addBox ha hv := ⟨ha.addBox hv, fun f hf => by cases hf⟩
  setBox ha _ hv := ha.setBox _ hv
  setSite _ ha _ := ha.same rfl rfl
  println _ _ ha := ha.same rfl rfl
  enter {a c args id frame} ha hclosure hargs _ _ hbind := by
    have hstore : (a.addFrame frame).2.Nested m.library := by
      refine ha.addFrame (fun g hg => ?_) fun v hv => ?_
      · rw [(Frame.grows_bind hbind).parent] at hg
        exact hclosure g (.captured hg)
      · rcases Frame.contains_of_bind hbind hv with hmem | hnone
        · exact hargs v hmem
        · exact absurd hnone (Frame.not_contains_activate _ _ v)
    refine ⟨hstore, ?_, fun f hf => hstore.given _ f (.body hf)⟩
    simp [Store.Has, Store.addFrame]

end Machine

open Machine

theorem Interpreter.frames_of_launch {i : Interpreter} {w : World} {t : Task} {s : State}
    (hworld : w.store.Nested w.library) (htask : w.store.HasFrames t.Names)
    (h : i.launch w t = .ok s) : (frameTyping w.library).Holds s := by
  have hroot : ∀ layout, (w.store.addFrame (.activate layout none)).2.Nested w.library :=
    fun layout => hworld.addFrame (fun _ hnone => by cases hnone) fun v hv =>
      absurd hv (Frame.not_contains_activate _ _ v)
  have hsize : ∀ frame, (w.store.addFrame frame).2.frames.size = w.store.frames.size + 1 :=
    fun frame => Array.size_push _
  have htree : ∀ {e : Expr} (frame : Frame), w.store.HasFrames e.Names →
      (frameTyping w.library).tree (w.store.addFrame frame).2 e ⟨w.store.frames.size⟩ :=
    fun frame he => ⟨by simp [Store.Has, hsize], he.grows (by simp [hsize])⟩
  cases t with
  | invoke e =>
    obtain rfl := Except.ok.inj h
    exact ⟨hroot {}, htree _ htask, by simp [start]⟩
  | invokeWith e layout =>
    obtain rfl := Except.ok.inj h
    exact ⟨hroot layout, htree _ htask, by simp [start]⟩
  | call callee args =>
    cases callee with
    | closure c =>
      obtain rfl := Except.ok.inj h
      refine ⟨hworld.same rfl rfl, ⟨trivial, fun f hf => ?_, fun v hv f hf => ?_⟩, ?_⟩
      · exact htask f ⟨_, List.mem_cons_self, hf⟩
      · exact htask f ⟨v, List.mem_cons_of_mem _ hv, hf⟩
      · simp [start, Typing.PendingOk]
    | _ => cases h

namespace World

/-- What a host does to the world in one act. The frames that it hands over were given to it
before. -/
inductive Act (w : World) : World → Prop where
  | activate (layout : Layout) (parent : Option FrameId)
      (given : ∀ f, parent = some f → w.store.Has (.frame f)) :
      Act w { w with store := (w.store.addFrame (.activate layout parent)).2 }
  | write (f : FrameId) (slot : SlotId) (depth : Nat) {v : Value} {b : Store}
      (given : w.store.HasFrames v.Names) (h : w.store.write f slot depth v = .ok b) :
      Act w { w with store := b }
  | addBox {v : Value} (given : w.store.HasFrames v.Names) :
      Act w { w with store := (w.store.addBox v).2 }
  | setBox (b : BoxId) {v : Value} (given : w.store.HasFrames v.Names) :
      Act w { w with store := w.store.setBox b v }
  | addCell (c : FunctionCell) : Act w { w with store := (w.store.addCell c).2 }
  | bind (c : Closure) (target : Target) : Act w { w with store := w.store.bind c.cell target }
  | addHost (h : HostObject) : Act w { w with store := (w.store.addHost h).2 }
  | addSite : Act w { w with store := w.store.addSite.2 }
  | setSite (id : SiteId) (site : CallSite) : Act w { w with store := w.store.setSite id site }
  | addSink (k : Sink) : Act w { w with store := (w.store.addSink k).2 }
  | println (id : SinkId) (line : String) : Act w { w with store := w.store.println id line }
  | clearSink (id : SinkId) : Act w { w with store := w.store.clearSink id }
  | addCode {c : Code} (given : w.store.HasFrames c.body.Names) :
      Act w { w with library := (w.library.add c).2 }
  | perform (i : Interpreter) (fuel : Nat) {t : Task} {o : Interpreter.Outcome}
      (given : w.store.HasFrames t.Names) (h : i.perform fuel w t = some o) : Act w o.world

def Reachable : World → Prop := Relation.ReflTransGen Act {}

end World

theorem Store.Nested.addCode {library : Library} {a : Store} {c : Code} (h : a.Nested library)
    (hc : a.HasFrames c.body.Names) : a.Nested (library.add c).2 := by
  refine ⟨fun x f hx => ?_, h.older⟩
  cases hx with
  | parent hg => exact h.given _ f (.parent hg)
  | slot hv names => exact h.given _ f (.slot hv names)
  | content names => exact h.given _ f (.content names)
  | @body id _ names =>
    have hcode : (library.add c).2.code id =
        if id.index = library.codes.size then c else library.code id :=
      getD_push ..
    rw [hcode] at names
    split at names
    · exact hc f names
    · exact h.given _ f (.body names)

theorem World.Act.nested {w w' : World} (h : w.Act w') (hw : w.store.Nested w.library) :
    w'.store.Nested w'.library := by
  cases h with
  | activate layout parent given =>
    exact hw.addFrame given fun v hv => absurd hv (Frame.not_contains_activate _ _ v)
  | write f slot depth given h => exact hw.write given h
  | addBox given => exact hw.addBox given
  | setBox b given => exact hw.setBox b given
  | addCode given => exact hw.addCode given
  | perform i fuel given h =>
    rcases Interpreter.perform_cases h with ⟨cause, -, rfl⟩ | ⟨s, r, u, hs, rfl, -, rfl⟩
    · exact hw
    · exact ((Interpreter.frames_of_launch hw given hs).steps
        (frameTyping_lawful (Interpreter.setup _ w.library)) _).store
  | _ => exact hw.same rfl rfl

theorem World.Reachable.nested {w : World} (h : w.Reachable) : w.store.Nested w.library := by
  induction h with
  | refl => exact Store.nested_empty
  | tail _ hact ih => exact hact.nested ih

namespace Frame

theorem read_ne_noEnclosingFrame (f : Frame) (slot : SlotId) :
    f.read slot ≠ .error .noEnclosingFrame := by
  intro h
  unfold read at h
  split at h
  · cases h
  · split at h
    · cases h
    · cases h

theorem written_of_read {f : Frame} {slot : SlotId} {v : Value} (h : f.read slot = .ok v) :
    f.Written slot.index := by
  unfold read at h
  split at h
  · cases h
  · rename_i s hs
    refine ⟨s, hs, ?_⟩
    rintro rfl
    cases h

theorem read_eq_outOfRange_iff {f : Frame} {slot : SlotId} :
    f.read slot = .error .outOfRange ↔ f.size ≤ slot.index := by
  refine ⟨fun h => Nat.le_of_not_lt fun hlt => ?_, read_of_size_le⟩
  cases (unwritten_of_read h hlt).1

theorem read_eq_unwritten_iff {f : Frame} {slot : SlotId} :
    f.read slot = .error .unwritten ↔ slot.index < f.size ∧ ¬ f.Written slot.index := by
  constructor
  · intro h
    have hlt : slot.index < f.size := by
      refine Nat.lt_of_not_le fun hle => ?_
      rw [read_of_size_le hle] at h
      cases h
    exact ⟨hlt, (unwritten_of_read h hlt).2⟩
  · rintro ⟨hlt, hunset⟩
    cases hread : f.read slot with
    | error fault => rw [(unwritten_of_read hread hlt).1]
    | ok v => exact absurd (written_of_read hread) hunset

end Frame

namespace Store

/-- The frames from this one outwards, to the one that lies within no other. -/
inductive Chain (a : Store) : FrameId → List FrameId → Prop where
  | root {f : FrameId} (h : (a.frame f).parent = none) : Chain a f [f]
  | link {f g : FrameId} {chain : List FrameId} (h : (a.frame f).parent = some g)
      (outer : Chain a g chain) : Chain a f (f :: chain)

namespace Chain

variable {a : Store} {f : FrameId} {chain : List FrameId}

theorem length_pos (h : a.Chain f chain) : 1 ≤ chain.length := by
  cases h with
  | root h => exact Nat.le_refl 1
  | link h outer => exact Nat.le_add_left 1 _

theorem ancestor_eq (h : a.Chain f chain) (depth : Nat) :
    a.ancestor f depth = chain[depth]?.elim (.error .noEnclosingFrame) .ok := by
  induction h generalizing depth with
  | root hnone =>
    cases depth with
    | zero => rfl
    | succ depth => simp only [ancestor, hnone]; rfl
  | link hsome _ ih =>
    cases depth with
    | zero => rfl
    | succ depth =>
      simp only [ancestor, hsome, List.getElem?_cons_succ]
      exact ih depth

theorem read_eq (h : a.Chain f chain) (slot : SlotId) (depth : Nat) :
    a.read f slot depth =
      chain[depth]?.elim (.error .noEnclosingFrame) fun g => (a.frame g).read slot := by
  rw [Store.read_eq, h.ancestor_eq]
  cases chain[depth]? <;> rfl

theorem write_cases (h : a.Chain f chain) (slot : SlotId) (depth : Nat) (v : Value) :
    (chain[depth]? = none ∧ a.write f slot depth v = .error .noEnclosingFrame) ∨
      ∃ g, chain[depth]? = some g ∧
        ((a.frame g).size ≤ slot.index ∧ a.write f slot depth v = .error .outOfRange ∨
          slot.index < (a.frame g).size ∧ ∃ b, a.write f slot depth v = .ok b) := by
  rw [Store.write_eq, h.ancestor_eq]
  cases chain[depth]? with
  | none => exact .inl ⟨rfl, rfl⟩
  | some g =>
    refine .inr ⟨g, rfl, ?_⟩
    rcases Nat.lt_or_ge slot.index (a.frame g).size with hlt | hle
    · obtain ⟨frame, hw⟩ := Frame.write_of_lt hlt v
      exact .inr ⟨hlt, a.setFrame g frame, by simp [Except.bind, hw, Except.map]⟩
    · exact .inl ⟨hle, by simp [Except.bind, Frame.write_of_size_le v hle, Except.map]⟩

end Chain

theorem exists_chain {a : Store} (h : ∀ f g, (a.frame f).parent = some g → g.index < f.index)
    (f : FrameId) : ∃ chain, a.Chain f chain ∧ chain.length ≤ f.index + 1 := by
  induction hn : f.index using Nat.strongRecOn generalizing f with
  | ind n ih =>
    cases hparent : (a.frame f).parent with
    | none => exact ⟨[f], .root hparent, Nat.le_add_left 1 n⟩
    | some g =>
      have hlt := h f g hparent
      obtain ⟨chain, hchain, hle⟩ := ih g.index (hn ▸ hlt) g rfl
      refine ⟨f :: chain, .link hparent hchain, ?_⟩
      simp only [List.length_cons]
      omega

structure Addressed (a : Store) (f : FrameId) (chain : List FrameId) : Prop where
  ancestor : ∀ depth g, a.ancestor f depth = .ok g ↔ chain[depth]? = some g
  past : ∀ depth, a.ancestor f depth = .error .noEnclosingFrame ↔ chain.length ≤ depth
  twice : ∀ m n, a.ancestor f (m + n) = (a.ancestor f m).bind fun g => a.ancestor g n
  read_past : ∀ slot depth, a.read f slot depth = .error .noEnclosingFrame ↔ chain.length ≤ depth
  read_range : ∀ slot depth, a.read f slot depth = .error .outOfRange ↔
    ∃ g, chain[depth]? = some g ∧ (a.frame g).size ≤ slot.index
  read_unwritten : ∀ slot depth, a.read f slot depth = .error .unwritten ↔
    ∃ g, chain[depth]? = some g ∧ slot.index < (a.frame g).size ∧ ¬ (a.frame g).Written slot.index
  write_past : ∀ slot depth v,
    a.write f slot depth v = .error .noEnclosingFrame ↔ chain.length ≤ depth
  write_range : ∀ slot depth v, a.write f slot depth v = .error .outOfRange ↔
    ∃ g, chain[depth]? = some g ∧ (a.frame g).size ≤ slot.index
  write_ok : ∀ slot depth v, (∃ b, a.write f slot depth v = .ok b) ↔
    ∃ g, chain[depth]? = some g ∧ slot.index < (a.frame g).size

theorem Chain.addressed {a : Store} {f : FrameId} {chain : List FrameId} (h : a.Chain f chain) :
    a.Addressed f chain where
  ancestor depth g := by
    rw [h.ancestor_eq]
    cases chain[depth]? <;> simp
  past depth := by
    rw [h.ancestor_eq, ← List.getElem?_eq_none_iff]
    cases chain[depth]? <;> simp
  twice m n := a.ancestor_add f m n
  read_past slot depth := by
    rw [h.read_eq, ← List.getElem?_eq_none_iff]
    cases chain[depth]? <;> simp [Frame.read_ne_noEnclosingFrame]
  read_range slot depth := by
    rw [h.read_eq]
    cases chain[depth]? <;> simp [Frame.read_eq_outOfRange_iff]
  read_unwritten slot depth := by
    rw [h.read_eq]
    cases chain[depth]? <;> simp [Frame.read_eq_unwritten_iff]
  write_past slot depth v := by
    rw [← List.getElem?_eq_none_iff]
    rcases h.write_cases slot depth v with ⟨hg, hw⟩ | ⟨g, hg, ⟨hle, hw⟩ | ⟨hlt, b, hw⟩⟩ <;>
      simp [hg, hw]
  write_range slot depth v := by
    rcases h.write_cases slot depth v with ⟨hg, hw⟩ | ⟨g, hg, ⟨hle, hw⟩ | ⟨hlt, b, hw⟩⟩
    · simp [hg, hw]
    · simp [hg, hw, hle]
    · simp [hg, hw, hlt]
  write_ok slot depth v := by
    rcases h.write_cases slot depth v with ⟨hg, hw⟩ | ⟨g, hg, ⟨hle, hw⟩ | ⟨hlt, b, hw⟩⟩
    · simp [hg, hw]
    · simp [hg, hw, hle]
    · simp [hg, hw, hlt]

/-- Frames lie within older ones, so each has finitely many around it, and addresses from it are
found among these. -/
structure ChainsExact (a : Store) : Prop where
  older : ∀ f g, (a.frame f).parent = some g → g.index < f.index
  chain : ∀ f, ∃ chain, a.Chain f chain ∧ 1 ≤ chain.length ∧ chain.length ≤ f.index + 1 ∧
    a.Addressed f chain

theorem Nested.chainsExact {library : Library} {a : Store} (h : a.Nested library) :
    a.ChainsExact := by
  refine ⟨h.older, fun f => ?_⟩
  obtain ⟨chain, hchain, hle⟩ := exists_chain h.older f
  exact ⟨chain, hchain, hchain.length_pos, hle, hchain.addressed⟩

end Store

namespace Machine

theorem frames_of_transfer (m : Setup) (s : State) (target : Target) (c : Call) (e : Failure) :
    (transfer m s target c).control = .raise e →
      (transfer m s target c).store.frames = s.store.frames := by
  unfold transfer
  dsimp only
  split
  · exact fun _ => rfl
  · split
    · exact fun _ => rfl
    · cases target with
      | primitive op =>
        have heffect := op.effect_apply c.args m.overflow m.sink s.store
        simp only [operate]
        generalize op.apply c.args m.overflow m.sink s.store = out at heffect ⊢
        obtain ⟨r, b⟩ := out
        cases heffect with
        | fail cause hcause => exact fun _ => rfl
        | _ => intro h; cases h
      | lambda code =>
        simp only [enter]
        split
        · exact fun _ => rfl
        · split
          · exact fun _ => rfl
          · intro h; cases h
      | unbound => exact fun _ => rfl

theorem frames_of_yieldStep (s : State) (v : Value) (e : Failure) :
    (yieldStep s v).control = .raise e → (yieldStep s v).store.frames = s.store.frames := by
  unfold yieldStep
  split
  · exact fun _ => rfl
  · split
    · intro h; cases h
    · exact fun _ => rfl
  · split <;> exact fun _ => rfl
  · exact fun _ => rfl
  · split
    · exact fun _ => by rw [operands_store]
    · exact fun _ => rfl
  · exact fun _ => by rw [operands_store]
  · exact fun _ => rfl
  · exact fun _ => rfl

theorem frames_of_raise (m : Setup) (s : State) (e : Failure) :
    (step m s).control = .raise e → (step m s).store.frames = s.store.frames := by
  unfold step
  split
  · rename_i tree f hc
    cases tree with
    | read slot depth =>
      simp only [evalStep]
      split <;> exact fun _ => rfl
    | begin items =>
      cases items with
      | nil => exact fun _ => rfl
      | cons first rest => cases rest <;> exact fun _ => rfl
    | _ => exact fun _ => rfl
  · exact frames_of_yieldStep s _ e
  · unfold tailCallStep
    split <;> exact fun _ => rfl
  · rename_i c hc
    rcases dispatchStep_cases m c s.store with ⟨-, hfail⟩ | ⟨-, found, site, hfound⟩
    · rw [hfail s rfl]
      exact fun _ => rfl
    · rw [hfound s rfl]
      exact frames_of_transfer m (s.located c found site) _ c e
  · unfold raiseStep
    split <;> exact fun _ => rfl

structure ReportsAddresses (m : Setup) (s : State) : Prop where
  read : ∀ slot depth f, s.control = .eval (.read slot depth) f →
    (step m s).control = match s.store.read f slot depth with
      | .ok v => .yield v
      | .error fault => .raise { cause := .invalidSlot slot.name depth fault }
  write : ∀ v slot depth f rest,
    s.control = .yield v → s.pending = .store slot depth f :: rest →
      (step m s).control = match s.store.write f slot depth v with
        | .ok _ => .yield .unit
        | .error fault => .raise { cause := .invalidSlot slot.name depth fault }
  failed : ∀ e, (step m s).control = .raise e → (step m s).store.frames = s.store.frames

theorem reportsAddresses (m : Setup) (s : State) : ReportsAddresses m s where
  read slot depth f hc := by
    simp only [step, hc, evalStep]
    cases s.store.read f slot depth <;> rfl
  write v slot depth f rest hc hp := by
    simp only [step, hc, yieldStep, hp]
    cases s.store.write f slot depth v <;> rfl
  failed := frames_of_raise m s

end Machine

/-- Every frame lies within finitely many older ones, and an address is found among these or
reported to be past their end. -/
theorem frame_chains_exact (w : World) (hw : w.Reachable) :
    w.store.ChainsExact ∧ ∀ (i : Interpreter) (t : Task) (s : State),
      w.store.HasFrames t.Names → i.launch w t = .ok s → ∀ k,
        (steps (i.setup w.library) k s).store.ChainsExact ∧
          ReportsAddresses (i.setup w.library) (steps (i.setup w.library) k s) := by
  refine ⟨hw.nested.chainsExact, fun i t s htask hs k => ⟨?_, reportsAddresses _ _⟩⟩
  have hholds := Interpreter.frames_of_launch hw.nested htask hs
  exact (hholds.steps (frameTyping_lawful (i.setup w.library)) k).store.chainsExact

def knottedWorld : World :=
  { library := ⟨#[{ name := "inner", params := [], body := .begin [], layout := {} },
      { name := "put", params := [⟨0, "x"⟩], body := .write ⟨0, "self"⟩ 1 (.lambda ⟨0⟩)
        layout := ⟨#["x"]⟩ }]⟩
    store := { frames := #[{ layout := ⟨#["self"]⟩, parent := none
                             slots := #[.generic (.closure ⟨⟨0⟩, some ⟨0⟩⟩)]
                             kinds := #[.generic] }]
               boxes := #[.box ⟨0⟩]
               cells := #[⟨"put", .lambda ⟨1⟩, 0⟩] } }

theorem reachable_knottedWorld : knottedWorld.Reachable := by
  refine Relation.ReflTransGen.refl
    |>.tail (.activate ⟨#["self"]⟩ none ?root)
    |>.tail (.addCode (c := knottedWorld.library.code ⟨0⟩) ?inner)
    |>.tail (.addCode (c := knottedWorld.library.code ⟨1⟩) ?put)
    |>.tail (.addCell ⟨"put", .lambda ⟨1⟩, 0⟩)
    |>.tail (.addBox (v := .unit) ?unit)
    |>.tail (.setBox ⟨0⟩ (v := .box ⟨0⟩) ?box)
    |>.tail (.write ⟨0⟩ ⟨0, "self"⟩ 0 (v := .closure ⟨⟨0⟩, some ⟨0⟩⟩) ?self rfl)
  case root => exact fun f hf => by cases hf
  case inner =>
    intro f hf
    obtain ⟨e, hmem, -⟩ := Expr.names_begin.1 hf
    cases hmem
  case put => exact fun f hf => by cases Expr.names_lambda.1 (Expr.names_write.1 hf)
  case unit => exact fun f hf => by cases hf
  case box => exact fun f hf => by cases hf
  case self =>
    intro f hf
    cases hf with
    | captured henv =>
      obtain rfl := Option.some.inj henv
      exact Nat.zero_lt_one

def knotAgain : Task := .call (.closure ⟨⟨0⟩, some ⟨0⟩⟩) [.box ⟨0⟩]

theorem hasFrames_knotAgain : knottedWorld.store.HasFrames knotAgain.Names := by
  rintro f ⟨v, hv, hf⟩
  simp only [List.mem_cons, List.not_mem_nil, or_false] at hv
  rcases hv with rfl | rfl
  · cases hf with
    | captured henv =>
      obtain rfl := Option.some.inj henv
      exact Nat.zero_lt_one
  · cases hf

/-- The call keeps a closure over its own frame in the frame around it, so each of the two frames
leads to the other. Its chain has two frames all the same. -/
theorem frame_chains_exact_knotted :
    (∃ s, plainInterpreter.launch knottedWorld knotAgain = .ok s ∧ ∀ k,
      (steps (plainInterpreter.setup knottedWorld.library) k s).store.ChainsExact) ∧
    ∃ o, plainInterpreter.perform 10 knottedWorld knotAgain = some o ∧ o.world.Reachable ∧
      o.world.store.read ⟨1⟩ ⟨0, "self"⟩ 1 = .ok (.closure ⟨⟨1⟩, some ⟨1⟩⟩) ∧
      (o.world.store.frame ⟨1⟩).parent = some ⟨0⟩ ∧
      o.world.store.ancestor ⟨1⟩ (UInt64.size - 1) = .error .noEnclosingFrame ∧
      o.world.store.read ⟨1⟩ ⟨1, "y"⟩ 1 = .error .outOfRange := by
  have hreach := reachable_knottedWorld.tail (.perform plainInterpreter 10 hasFrames_knotAgain rfl)
  obtain ⟨chain, hchain, -, -, haddressed⟩ := (frame_chains_exact _ hreach).1.chain ⟨1⟩
  obtain rfl : chain = [⟨1⟩, ⟨0⟩] := by
    cases hchain with
    | root h => cases h
    | link h outer =>
      obtain rfl := Option.some.inj h
      cases outer with
      | root h => rfl
      | link h outer => cases h
  refine ⟨⟨_, rfl, fun k => ?_⟩, _, rfl, hreach, rfl, rfl, (haddressed.past _).2 (by decide), ?_⟩
  · exact ((frame_chains_exact _ reachable_knottedWorld).2 _ _ _ hasFrames_knotAgain rfl k).1
  · exact (haddressed.read_range _ _).2 ⟨⟨0⟩, rfl, Nat.le_refl 1⟩

end TreeMachine
