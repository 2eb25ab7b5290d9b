import TreeMachine.Proofs.Growth
import TreeMachine.Proofs.Typing

/-!
One tree in two worlds. Objects that two runs of it make are twins when they were made at the same
moment, that is, when they stand equally far above what was there before.
-/
set_option autoImplicit false

namespace TreeMachine

namespace Expr

/-- One level below a tree. The body of a lambda lies below the lambda. -/
inductive Inner (library : Library) : Expr → Expr → Prop where
  | child {e whole : Expr} (h : Child e whole) : Inner library e whole
  | body (id : CodeId) : Inner library (library.code id).body (.lambda id)

/-- A subtree of a tree, itself included, or of the body of a lambda in it, to any depth. -/
def Below (library : Library) : Expr → Expr → Prop := Relation.ReflTransGen (Inner library)

end Expr

namespace Value

def isAtom : Value → Bool
  | .int _ | .bool _ | .unit | .symbol _ => true
  | .closure _ | .box _ | .host _ => false

def Portable (a : Store) : Value → Prop
  | .closure c => ∃ op, (a.cell c.cell).target = .primitive op
  | v => v.isAtom = true

end Value

def Expr.Portable (w : World) (e : Expr) : Prop :=
  ∀ v, Below w.library (.literal v) e → v.Portable w.store

/-- The tree means the same in two worlds: it is portable, its codes are the same, and so are the
cells of the closures in it. -/
structure Expr.Common (w w' : World) (e : Expr) : Prop where
  portable : e.Portable w
  cell : ∀ c, Below w.library (.literal (.closure c)) e →
    (w'.store.cell c.cell).name = (w.store.cell c.cell).name ∧
      (w'.store.cell c.cell).target = (w.store.cell c.cell).target
  code : ∀ id, Below w.library (.lambda id) e → w'.library.code id = w.library.code id

namespace Expr.Common

variable {w w' : World}

theorem inner {e whole : Expr} (h : whole.Common w w') (hinner : Inner w.library e whole) :
    e.Common w w' :=
  ⟨fun v hv => h.portable v (hv.tail hinner), fun c hc => h.cell c (hc.tail hinner),
    fun id hid => h.code id (hid.tail hinner)⟩

theorem child {e whole : Expr} (h : whole.Common w w') (hchild : Child e whole) :
    e.Common w w' := h.inner (.child hchild)

theorem of_inner {e : Expr} (hliteral : ∀ v, e = .literal v → v.Portable w.store)
    (hcell : ∀ c, e = .literal (.closure c) →
      (w'.store.cell c.cell).name = (w.store.cell c.cell).name ∧
        (w'.store.cell c.cell).target = (w.store.cell c.cell).target)
    (hcode : ∀ id, e = .lambda id → w'.library.code id = w.library.code id)
    (hinner : ∀ x, Inner w.library x e → x.Common w w') : e.Common w w' := by
  refine ⟨fun v hv => ?_, fun c hc => ?_, fun id hid => ?_⟩
  · rcases Relation.ReflTransGen.cases_tail hv with heq | ⟨x, hbelow, hx⟩
    · exact hliteral v heq
    · exact (hinner x hx).portable v hbelow
  · rcases Relation.ReflTransGen.cases_tail hc with heq | ⟨x, hbelow, hx⟩
    · exact hcell c heq
    · exact (hinner x hx).cell c hbelow
  · rcases Relation.ReflTransGen.cases_tail hid with heq | ⟨x, hbelow, hx⟩
    · exact hcode id heq
    · exact (hinner x hx).code id hbelow

theorem begin {items : List Expr} (h : ∀ e ∈ items, e.Common w w') :
    (Expr.begin items).Common w w' := by
  refine of_inner (fun _ => Expr.noConfusion) (fun _ => Expr.noConfusion)
    (fun _ => Expr.noConfusion) fun x hx => ?_
  cases hx with
  | child hchild =>
    cases hchild with
    | item hmem => exact h x hmem

end Expr.Common

/-- Two numbers stand equally far above two others. -/
def Matched (n n' k k' : Nat) : Prop := ∃ d, k = n + d ∧ k' = n' + d

namespace Matched

variable {n n' k k' j j' : Nat}

theorem refl (n n' : Nat) : Matched n n' n n' := ⟨0, rfl, rfl⟩

theorem succ (h : Matched n n' k k') : Matched n n' (k + 1) (k' + 1) := by
  obtain ⟨d, rfl, rfl⟩ := h
  exact ⟨d + 1, rfl, rfl⟩

theorem eq_iff (hk : Matched n n' k k') (hj : Matched n n' j j') : k = j ↔ k' = j' := by
  obtain ⟨d, rfl, rfl⟩ := hk
  obtain ⟨c, rfl, rfl⟩ := hj
  omega

theorem eq_iff_of_index {α : Type} {index : α → Nat} (hindex : Function.Injective index)
    {x x' y y' : α} (hx : Matched n n' (index x) (index x'))
    (hy : Matched n n' (index y) (index y')) : x = y ↔ x' = y' := by
  have hsame := hx.eq_iff hy
  exact ⟨fun h => hindex (hsame.1 (congrArg index h)), fun h => hindex (hsame.2 (congrArg index h))⟩

theorem lt_iff (hk : Matched n n' k k') (hj : Matched n n' j j') : k < j ↔ k' < j' := by
  obtain ⟨d, rfl, rfl⟩ := hk
  obtain ⟨c, rfl, rfl⟩ := hj
  omega

end Matched

inductive Agree {ε α : Type} (R : α → α → Prop) : Except ε α → Except ε α → Prop where
  | ok {x y : α} (h : R x y) : Agree R (.ok x) (.ok y)
  | error (e : ε) : Agree R (.error e) (.error e)

theorem rel_ite {α : Type} {R : α → α → Prop} {p p' : Prop} [Decidable p] [Decidable p']
    {x x' y y' : α} (hp : p ↔ p') (hx : R x x') (hy : R y y') :
    R (if p then x else y) (if p' then x' else y') := by
  by_cases h : p
  · rw [if_pos h, if_pos (hp.1 h)]
    exact hx
  · rw [if_neg h, if_neg (mt hp.2 h)]
    exact hy

section Twins

variable (w w' : World)

def FrameId.Twin (f f' : FrameId) : Prop :=
  Matched w.store.frames.size w'.store.frames.size f.index f'.index

def BoxId.Twin (b b' : BoxId) : Prop :=
  Matched w.store.boxes.size w'.store.boxes.size b.index b'.index

def CellId.Twin (c c' : CellId) : Prop :=
  Matched w.store.cells.size w'.store.cells.size c.index c'.index

/-- Closures that were made at the same moment, or one closure of a built-in operation that was
there before. -/
inductive Closure.Twin : Closure → Closure → Prop where
  | made {id id' : CellId} {f f' : FrameId} (cell : id.Twin w w' id') (env : f.Twin w w' f') :
      Twin ⟨id, some f⟩ ⟨id', some f'⟩
  | given {c : Closure} {op : Primitive} (target : (w.store.cell c.cell).target = .primitive op)
      (target' : (w'.store.cell c.cell).target = .primitive op)
      (name : (w'.store.cell c.cell).name = (w.store.cell c.cell).name) : Twin c c

inductive Value.Twin : Value → Value → Prop where
  | atom {v : Value} (h : v.isAtom = true) : Twin v v
  | closure {c c' : Closure} (h : c.Twin w w' c') : Twin (.closure c) (.closure c')
  | box {b b' : BoxId} (h : b.Twin w w' b') : Twin (.box b) (.box b')

inductive Slot.Twin : Slot → Slot → Prop where
  | empty : Twin .empty .empty
  | int (n : Int64) : Twin (.int n) (.int n)
  | bool (b : Bool) : Twin (.bool b) (.bool b)
  | generic {v v' : Value} (h : v.Twin w w' v') : Twin (.generic v) (.generic v')

structure Frame.Twin (f f' : Frame) : Prop where
  parent : Option.Rel (FrameId.Twin w w') f.parent f'.parent
  slot : ∀ i : Nat, Option.Rel (Slot.Twin w w') f.slots[i]? f'.slots[i]?
  kinds : f'.kinds = f.kinds

structure FunctionCell.Twin (c c' : FunctionCell) : Prop where
  name : c'.name = c.name
  target : c'.target = c.target
  code : ∀ id, c.target = .lambda id → (Expr.lambda id).Common w w'

/-- As many objects were added, in the same order, and all of them are twins. -/
structure Store.Twin (s s' : Store) : Prop where
  frames : Matched w.store.frames.size w'.store.frames.size s.frames.size s'.frames.size
  boxes : Matched w.store.boxes.size w'.store.boxes.size s.boxes.size s'.boxes.size
  cells : Matched w.store.cells.size w'.store.cells.size s.cells.size s'.cells.size
  frame : ∀ {f f' : FrameId}, f.Twin w w' f' → (s.frame f).Twin w w' (s'.frame f')
  box : ∀ {b b' : BoxId}, b.Twin w w' b' → (s.box b).Twin w w' (s'.box b')
  cell : ∀ {c c' : CellId}, c.Twin w w' c' → (s.cell c).Twin w w' (s'.cell c')
  kept : w.store.Extends s
  kept' : w'.store.Extends s'

end Twins

variable {w w' : World}

theorem Expr.Common.literal_twin {v : Value} (h : (Expr.literal v).Common w w') :
    v.Twin w w' v := by
  have hself : Below w.library (.literal v) (.literal v) := .refl
  cases v with
  | closure c =>
    obtain ⟨op, hop⟩ := h.portable _ hself
    obtain ⟨hname, htarget⟩ := h.cell c hself
    exact .closure (.given hop (htarget.trans hop) hname)
  | _ => exact .atom (h.portable _ hself)

theorem FrameId.Twin.eq_iff {f f' g g' : FrameId} (hf : f.Twin w w' f') (hg : g.Twin w w' g') :
    f = g ↔ f' = g' := Matched.eq_iff_of_index (fun ⟨_⟩ ⟨_⟩ h => congrArg FrameId.mk h) hf hg

theorem BoxId.Twin.eq_iff {b b' c c' : BoxId} (hb : b.Twin w w' b') (hc : c.Twin w w' c') :
    b = c ↔ b' = c' := Matched.eq_iff_of_index (fun ⟨_⟩ ⟨_⟩ h => congrArg BoxId.mk h) hb hc

namespace CellId.Twin

theorem eq_iff {c c' d d' : CellId} (hc : c.Twin w w' c') (hd : d.Twin w w' d') :
    c = d ↔ c' = d' := Matched.eq_iff_of_index (fun ⟨_⟩ ⟨_⟩ h => congrArg CellId.mk h) hc hd

theorem unbound {c c' : CellId} (h : c.Twin w w' c') :
    (w.store.cell c).target = .unbound ∧ (w'.store.cell c').target = .unbound := by
  obtain ⟨d, hd, hd'⟩ := h
  simp [Store.cell, Array.getD_eq_getD_getElem?, hd, hd']

end CellId.Twin

theorem Closure.Twin.eq_iff {c c' d d' : Closure} (hc : c.Twin w w' c') (hd : d.Twin w w' d') :
    c = d ↔ c' = d' := by
  -- A given closure had an entry point before the runs began, and one that was made had none.
  cases hc with
  | made cell env =>
    cases hd with
    | made cell₂ env₂ =>
      simp only [Closure.mk.injEq, Option.some.injEq]
      exact and_congr (cell.eq_iff cell₂) (env.eq_iff env₂)
    | given target target' name =>
      constructor
      · rintro rfl
        simp [cell.unbound.1] at target
      · rintro rfl
        simp [cell.unbound.2] at target'
  | given target target' name =>
    cases hd with
    | made cell env =>
      constructor
      · rintro rfl
        simp [cell.unbound.1] at target
      · rintro rfl
        simp [cell.unbound.2] at target'
    | given => exact Iff.rfl

namespace Value.Twin

variable {v v' u u' : Value}

/-- The operation that compares values cannot tell twins from one another. -/
theorem eq_iff (hv : v.Twin w w' v') (hu : u.Twin w w' u') : v = u ↔ v' = u' := by
  cases hv with
  | atom h =>
    cases hu with
    | atom => exact Iff.rfl
    | closure =>
      constructor <;> rintro rfl <;> cases h
    | box =>
      constructor <;> rintro rfl <;> cases h
  | closure hc =>
    cases hu with
    | atom h =>
      constructor <;> rintro rfl <;> cases h
    | closure hd => simpa using hc.eq_iff hd
    | box => simp
  | box hb =>
    cases hu with
    | atom h =>
      constructor <;> rintro rfl <;> cases h
    | closure => simp
    | box hc => simpa using hb.eq_iff hc

theorem typeName (h : v.Twin w w' v') : v'.typeName = v.typeName := by
  cases h <;> rfl

theorem asInt (h : v.Twin w w' v') : v'.asInt = v.asInt := by
  cases h <;> rfl

theorem asBool (h : v.Twin w w' v') : v'.asBool = v.asBool := by
  cases h <;> rfl

theorem asClosure (h : v.Twin w w' v') :
    Agree (Closure.Twin w w') v.asClosure v'.asClosure := by
  cases h with
  | atom h =>
    cases v with
    | closure | box | host => cases h
    | _ => exact .error _
  | closure h => exact .ok h
  | box h => exact .error _

theorem asBox (h : v.Twin w w' v') : Agree (BoxId.Twin w w') v.asBox v'.asBox := by
  cases h with
  | atom h =>
    cases v with
    | closure | box | host => cases h
    | _ => exact .error _
  | closure h => exact .error _
  | box h => exact .ok h

end Value.Twin

namespace Slot.Twin

theorem value? {s s' : Slot} (h : s.Twin w w' s') :
    Option.Rel (Value.Twin w w') s.value? s'.value? := by
  cases h with
  | empty => exact .none
  | int n => exact .some (.atom rfl)
  | bool b => exact .some (.atom rfl)
  | generic h => exact .some h

theorem ofValue (kind : SlotKind) {v v' : Value} (hv : v.Twin w w' v') :
    (Slot.ofValue kind v).Twin w w' (.ofValue kind v') := by
  cases hv with
  | atom h =>
    cases v with
    | int n =>
      cases kind with
      | int => exact .int n
      | _ => exact .generic (.atom h)
    | bool b =>
      cases kind with
      | bool => exact .bool b
      | _ => exact .generic (.atom h)
    | unit | symbol => cases kind <;> exact .generic (.atom h)
    | closure | box | host => cases h
  | closure h => cases kind <;> exact .generic (.closure h)
  | box h => cases kind <;> exact .generic (.box h)

end Slot.Twin

theorem Value.Twin.widen {v v' : Value} (h : v.Twin w w' v') (kind : SlotKind) :
    kind.widen v' = kind.widen v := by
  cases h with
  | atom h => rfl
  | closure h => cases kind <;> rfl
  | box h => cases kind <;> rfl

namespace Frame.Twin

variable {f f' : Frame}

theorem activate (layout : Layout) {env env' : Option FrameId}
    (h : Option.Rel (FrameId.Twin w w') env env') :
    (Frame.activate layout env).Twin w w' (.activate layout env') := by
  refine ⟨h, fun i => ?_, rfl⟩
  simp only [Frame.activate, Array.getElem?_replicate]
  split
  · exact .some .empty
  · exact .none

theorem read (h : f.Twin w w' f') (slot : SlotId) :
    Agree (Value.Twin w w') (f.read slot) (f'.read slot) := by
  have hslot := h.slot slot.index
  unfold Frame.read
  generalize f.slots[slot.index]? = s at hslot
  generalize f'.slots[slot.index]? = s' at hslot
  cases hslot with
  | none => exact .error _
  | some hs =>
    have hvalue := hs.value?
    dsimp only
    generalize Slot.value? _ = v at hvalue
    generalize Slot.value? _ = v' at hvalue
    cases hvalue with
    | none => exact .error _
    | some hv => exact .ok hv

theorem write (h : f.Twin w w' f') (slot : SlotId) {v v' : Value} (hv : v.Twin w w' v') :
    Agree (Frame.Twin w w') (f.write slot v) (f'.write slot v') := by
  cases hkind : f.kinds[slot.index]? with
  | none =>
    have hkind' : f'.kinds[slot.index]? = none := h.kinds ▸ hkind
    simp only [Frame.write, hkind, hkind']
    exact .error _
  | some kind =>
    have hkind' : f'.kinds[slot.index]? = some kind := h.kinds ▸ hkind
    have hlt : slot.index < f.slots.size := f.size_kinds ▸ (Array.getElem?_eq_some_iff.1 hkind).1
    have hlt' : slot.index < f'.slots.size :=
      f'.size_kinds ▸ (Array.getElem?_eq_some_iff.1 hkind').1
    simp only [Frame.write, hkind, hkind', hv.widen]
    refine .ok ⟨h.parent, fun i => ?_, by simp only [h.kinds]⟩
    simp only [Array.getElem?_setIfInBounds, hlt, hlt', if_true]
    split
    · exact .some (.ofValue _ hv)
    · exact h.slot i

theorem bind (params : List SlotId) {args args' : List Value} (h : f.Twin w w' f')
    (hargs : List.Forall₂ (Value.Twin w w') args args') :
    Agree (Frame.Twin w w') (f.bind params args) (f'.bind params args') := by
  induction params generalizing f f' args args' with
  | nil => exact .ok h
  | cons slot params ih =>
    cases hargs with
    | nil => exact .ok h
    | cons hv hvs =>
      have hwrite := h.write slot hv
      simp only [Frame.bind]
      generalize f.write slot _ = g at hwrite
      generalize f'.write slot _ = g' at hwrite
      cases hwrite with
      | error fault => exact .error _
      | ok hg => exact ih hg hvs

end Frame.Twin

namespace Store.Twin

theorem start (w w' : World) : w.store.Twin w w' w'.store := by
  refine ⟨.refl _ _, .refl _ _, .refl _ _, ?_, ?_, ?_, extends_of_eq rfl, extends_of_eq rfl⟩
  · rintro ⟨f⟩ ⟨f'⟩ ⟨d, rfl, rfl⟩
    simpa [Store.frame, Array.getD_eq_getD_getElem?] using Frame.Twin.activate {} .none
  · rintro ⟨b⟩ ⟨b'⟩ ⟨d, rfl, rfl⟩
    simpa [Store.box, Array.getD_eq_getD_getElem?] using Value.Twin.atom rfl
  · intro c c' hc
    have hunbound := hc.unbound
    obtain ⟨d, hd, hd'⟩ := hc
    refine ⟨?_, ?_, ?_⟩
    · simp [Store.cell, Array.getD_eq_getD_getElem?, hd, hd']
    · rw [hunbound.1, hunbound.2]
    · intro id hid
      rw [hunbound.1] at hid
      cases hid

variable {s s' : Store}

theorem addFrame (h : s.Twin w w' s') {f f' : Frame} (hf : f.Twin w w' f') :
    (s.addFrame f).2.Twin w w' (s'.addFrame f').2 := by
  refine ⟨?_, h.boxes, h.cells, fun hid => ?_, h.box, h.cell, h.kept, h.kept'⟩
  · simpa [Store.addFrame] using h.frames.succ
  · rw [frame_addFrame, frame_addFrame]
    exact rel_ite (Matched.eq_iff hid h.frames) hf (h.frame hid)

theorem addBox (h : s.Twin w w' s') {v v' : Value} (hv : v.Twin w w' v') :
    (s.addBox v).2.Twin w w' (s'.addBox v').2 := by
  refine ⟨h.frames, ?_, h.cells, h.frame, fun hid => ?_, h.cell, h.kept, h.kept'⟩
  · simpa [Store.addBox] using h.boxes.succ
  · rw [box_addBox, box_addBox]
    exact rel_ite (Matched.eq_iff hid h.boxes) hv (h.box hid)

theorem addCell (h : s.Twin w w' s') {c c' : FunctionCell} (hc : c.Twin w w' c') :
    (s.addCell c).2.Twin w w' (s'.addCell c').2 := by
  refine ⟨h.frames, h.boxes, ?_, h.frame, h.box, fun hid => ?_,
    h.kept.trans (extends_addCell s c), h.kept'.trans (extends_addCell s' c')⟩
  · simpa [Store.addCell] using h.cells.succ
  · rw [cell_addCell, cell_addCell]
    exact rel_ite (Matched.eq_iff hid h.cells) hc (h.cell hid)

theorem setFrame (h : s.Twin w w' s') {id id' : FrameId} (hid : id.Twin w w' id') {f f' : Frame}
    (hf : f.Twin w w' f') : (s.setFrame id f).Twin w w' (s'.setFrame id' f') := by
  refine ⟨?_, h.boxes, h.cells, fun hj => ?_, h.box, h.cell, h.kept, h.kept'⟩
  · simpa [Store.setFrame] using h.frames
  · rw [frame_setFrame, frame_setFrame]
    exact rel_ite (and_congr (Matched.eq_iff hid hj) (Matched.lt_iff hid h.frames)) hf (h.frame hj)

theorem setBox (h : s.Twin w w' s') {id id' : BoxId} (hid : id.Twin w w' id') {v v' : Value}
    (hv : v.Twin w w' v') : (s.setBox id v).Twin w w' (s'.setBox id' v') := by
  refine ⟨h.frames, ?_, h.cells, h.frame, fun hj => ?_, h.cell, h.kept, h.kept'⟩
  · simpa [Store.setBox] using h.boxes
  · rw [box_setBox, box_setBox]
    exact rel_ite (and_congr (Matched.eq_iff hid hj) (Matched.lt_iff hid h.boxes)) hv (h.box hj)

theorem of_eq {t t' : Store} (h : s.Twin w w' s') (hframes : t.frames = s.frames)
    (hboxes : t.boxes = s.boxes) (hcells : t.cells = s.cells) (hframes' : t'.frames = s'.frames)
    (hboxes' : t'.boxes = s'.boxes) (hcells' : t'.cells = s'.cells) : t.Twin w w' t' := by
  obtain ⟨frames, boxes, cells, hosts, sites, sinks⟩ := t
  obtain ⟨frames', boxes', cells', hosts', sites', sinks'⟩ := t'
  subst hframes hboxes hcells hframes' hboxes' hcells'
  exact ⟨h.frames, h.boxes, h.cells, h.frame, h.box, h.cell, h.kept, h.kept'⟩

theorem ancestor (h : s.Twin w w' s') {f f' : FrameId} (hf : f.Twin w w' f') (depth : Nat) :
    Agree (FrameId.Twin w w') (s.ancestor f depth) (s'.ancestor f' depth) := by
  induction depth generalizing f f' with
  | zero => exact .ok hf
  | succ depth ih =>
    have hparent := (h.frame hf).parent
    simp only [Store.ancestor]
    generalize (s.frame f).parent = up at hparent
    generalize (s'.frame f').parent = up' at hparent
    cases hparent with
    | none => exact .error _
    | some hup => exact ih hup

theorem read (h : s.Twin w w' s') {f f' : FrameId} (hf : f.Twin w w' f') (slot : SlotId)
    (depth : Nat) : Agree (Value.Twin w w') (s.read f slot depth) (s'.read f' slot depth) := by
  have hout := h.ancestor hf depth
  unfold Store.read
  generalize s.ancestor f depth = target at hout
  generalize s'.ancestor f' depth = target' at hout
  cases hout with
  | error fault => exact .error _
  | ok ht => exact (h.frame ht).read slot

theorem write (h : s.Twin w w' s') {f f' : FrameId} (hf : f.Twin w w' f') (slot : SlotId)
    (depth : Nat) {v v' : Value} (hv : v.Twin w w' v') :
    Agree (Store.Twin w w') (s.write f slot depth v) (s'.write f' slot depth v') := by
  have hout := h.ancestor hf depth
  unfold Store.write
  generalize s.ancestor f depth = target at hout
  generalize s'.ancestor f' depth = target' at hout
  cases hout with
  | error fault => exact .error _
  | ok ht =>
    have hwrite := (h.frame ht).write slot hv
    dsimp only
    generalize Frame.write _ slot v = g at hwrite
    generalize Frame.write _ slot v' = g' at hwrite
    cases hwrite with
    | error fault => exact .error _
    | ok hg => exact .ok (h.setFrame ht hg)

theorem cell_of_given (h : s.Twin w w' s') {c : CellId} {op : Primitive}
    (target : (w.store.cell c).target = .primitive op)
    (target' : (w'.store.cell c).target = .primitive op) :
    s.cell c = w.store.cell c ∧ s'.cell c = w'.store.cell c :=
  ⟨h.kept.cell (lt_size_of_isBound (by rw [target]; rfl)),
    h.kept'.cell (lt_size_of_isBound (by rw [target']; rfl))⟩

theorem closure (h : s.Twin w w' s') {c c' : Closure} (hc : c.Twin w w' c') :
    (s'.cell c'.cell).name = (s.cell c.cell).name ∧
      (s'.cell c'.cell).target = (s.cell c.cell).target ∧
      ∀ id, (s.cell c.cell).target = .lambda id →
        (Expr.lambda id).Common w w' ∧ Option.Rel (FrameId.Twin w w') c.env c'.env := by
  cases hc with
  | made cell env =>
    have hcell := h.cell cell
    exact ⟨hcell.name, hcell.target, fun id hid => ⟨hcell.code id hid, .some env⟩⟩
  | given target target' name =>
    obtain ⟨hcell, hcell'⟩ := h.cell_of_given target target'
    rw [hcell, hcell', target, target']
    exact ⟨name, rfl, fun id hid => by cases hid⟩

theorem closedText (h : s.Twin w w' s') {v v' : Value} (hv : v.Twin w w' v') :
    s'.closedText v' = s.closedText v := by
  cases hv with
  | atom hatom =>
    cases v with
    | bool b => cases b <;> rfl
    | closure | box | host => cases hatom
    | _ => rfl
  | closure hc => simp only [Store.closedText, (h.closure hc).1]
  | box hb => rfl

theorem text (h : s.Twin w w' s') {v v' : Value} (hv : v.Twin w w' v') :
    s'.text v' = s.text v := by
  have hclosed := h.closedText hv
  cases hv with
  | atom hatom =>
    cases v with
    | closure | box | host => cases hatom
    | _ => exact hclosed
  | closure hc => exact hclosed
  | box hb => simp only [Store.text, h.closedText (h.box hb)]

end Store.Twin

structure Primitive.Twin (w w' : World) (r r' : Except Cause Value × Store) : Prop where
  result : Agree (Value.Twin w w') r.1 r'.1
  store : r.2.Twin w w' r'.2

namespace Primitive

theorem twin_arith (policy : Overflow) (operation : String) (word : Int64 → Int64 → Int64)
    (exact : Int → Int → Int) {a a' b b' : Value} (ha : a.Twin w w' a') (hb : b.Twin w w' b') :
    Agree (Value.Twin w w') (policy.arith operation word exact a b)
      (policy.arith operation word exact a' b') := by
  have hpair : intPair a' b' = intPair a b := by simp only [intPair, ha.asInt, hb.asInt]
  unfold Overflow.arith
  rw [hpair]
  cases intPair a b with
  | error e => exact .error e
  | ok pair =>
    cases policy with
    | wrapping => exact .ok (.atom rfl)
    | trapping =>
      dsimp only
      split
      · exact .ok (.atom rfl)
      · exact .error _

theorem twin_unary {op : Primitive} (hop : op.arity = 1) (policy : Overflow) (sink sink' : SinkId)
    {s s' : Store} (hs : s.Twin w w' s') {v v' : Value} (hv : v.Twin w w' v') :
    Primitive.Twin w w' (op.apply [v] policy sink s) (op.apply [v'] policy sink' s') := by
  cases op with
  | makeBox => exact ⟨.ok (.box hs.boxes), hs.addBox hv⟩
  | unbox =>
    have hbox := hv.asBox
    simp only [apply]
    generalize v.asBox = b at hbox
    generalize v'.asBox = b' at hbox
    cases hbox with
    | error e => exact ⟨.error e, hs⟩
    | ok hb => exact ⟨.ok (hs.box hb), hs⟩
  | println => exact ⟨.ok (.atom rfl), hs.of_eq rfl rfl rfl rfl rfl rfl⟩
  | _ => cases hop

theorem twin_binary {op : Primitive} (hop : op.arity = 2) (policy : Overflow) (sink sink' : SinkId)
    {s s' : Store} (hs : s.Twin w w' s') {u u' v v' : Value} (hu : u.Twin w w' u')
    (hv : v.Twin w w' v') :
    Primitive.Twin w w' (op.apply [u, v] policy sink s) (op.apply [u', v'] policy sink' s') := by
  cases op with
  | add | sub | mul => exact ⟨twin_arith policy _ _ _ hu hv, hs⟩
  | lt =>
    have hpair : intPair u' v' = intPair u v := by simp only [intPair, hu.asInt, hv.asInt]
    simp only [apply, hpair]
    cases intPair u v with
    | error e => exact ⟨.error e, hs⟩
    | ok pair => exact ⟨.ok (.atom rfl), hs⟩
  | eq =>
    simp only [apply, hu.eq_iff hv]
    exact ⟨.ok (.atom rfl), hs⟩
  | setBox =>
    have hbox := hu.asBox
    simp only [apply]
    generalize u.asBox = b at hbox
    generalize u'.asBox = b' at hbox
    cases hbox with
    | error e => exact ⟨.error e, hs⟩
    | ok hb => exact ⟨.ok (.atom rfl), hs.setBox hb hv⟩
  | _ => cases hop

theorem twin_apply (op : Primitive) {args args' : List Value} (policy : Overflow)
    (sink sink' : SinkId) {s s' : Store} (hs : s.Twin w w' s')
    (hargs : List.Forall₂ (Value.Twin w w') args args') (hlength : args.length = op.arity) :
    Primitive.Twin w w' (op.apply args policy sink s) (op.apply args' policy sink' s') := by
  have harity : op.arity = 1 ∨ op.arity = 2 := by cases op <;> simp [arity]
  cases hargs with
  | nil => simp [← hlength] at harity
  | cons hu hrest =>
    cases hrest with
    | nil => exact twin_unary hlength.symm policy sink sink' hs hu
    | cons hv hrest =>
      cases hrest with
      | nil => exact twin_binary hlength.symm policy sink sink' hs hu hv
      | cons _ _ =>
        simp only [List.length_cons] at hlength
        omega

end Primitive

theorem Target.twin_line? (target : Target) {args args' : List Value} {s s' : Store}
    (hs : s.Twin w w' s') (hargs : List.Forall₂ (Value.Twin w w') args args') :
    target.line? args' s' = target.line? args s := by
  cases target with
  | primitive op =>
    cases op with
    | println =>
      cases hargs with
      | nil => rfl
      | cons hv hrest =>
        cases hrest with
        | nil => exact congrArg some (hs.text hv)
        | cons _ _ => rfl
    | _ => rfl
  | _ => rfl

end TreeMachine
