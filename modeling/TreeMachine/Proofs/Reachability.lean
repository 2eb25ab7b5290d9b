import TreeMachine.Proofs.Typing

/-!
Which objects lead to which. What some roots reach is the least set that contains them and is closed
under pointers.
-/
set_option autoImplicit false

namespace TreeMachine

inductive Object where
  | frame (id : FrameId)
  | box (id : BoxId)
  | cell (id : CellId)
  | host (id : HostId)
  | site (id : SiteId)
  | code (id : CodeId)
  deriving DecidableEq, Repr

inductive Value.Names : Value → Object → Prop where
  | cell (c : Closure) : Names (.closure c) (.cell c.cell)
  | captured {c : Closure} {f : FrameId} (h : c.env = some f) : Names (.closure c) (.frame f)
  | box (b : BoxId) : Names (.box b) (.box b)
  | host (h : HostId) : Names (.host h) (.host h)

theorem Value.not_names_of_isScalar {v : Value} (h : v.isScalar = true) (x : Object) :
    ¬ v.Names x := by
  intro hv
  cases hv <;> cases h

@[simp] theorem Value.not_names_code (v : Value) (id : CodeId) : ¬ v.Names (.code id) := by
  intro h
  cases h

inductive Expr.Names (e : Expr) : Object → Prop where
  | literal {v : Value} {x : Object} (part : Part (.literal v) e) (names : v.Names x) : Names e x
  | lambda {id : CodeId} (part : Part (.lambda id) e) : Names e (.code id)
  | apply {callee : Expr} {args : List Expr} {tail : Bool} {site : SiteId}
      (part : Part (.apply callee args tail site) e) : Names e (.site site)

namespace Expr.Names

theorem of_child {e whole : Expr} {x : Object} (h : e.Names x) (hchild : Child e whole) :
    whole.Names x := by
  cases h with
  | literal part names => exact .literal (part.of_child hchild) names
  | lambda part => exact .lambda (part.of_child hchild)
  | apply part => exact .apply (part.of_child hchild)

theorem of_rest {e : Expr} {es : List Expr} {x : Object} (h : (Expr.begin es).Names x) :
    (Expr.begin (e :: es)).Names x := by
  cases h with
  | literal part names => exact .literal (part.of_rest fun _ => Expr.noConfusion) names
  | lambda part => exact .lambda (part.of_rest fun _ => Expr.noConfusion)
  | apply part => exact .apply (part.of_rest fun _ => Expr.noConfusion)

theorem here_or_below {e : Expr} {x : Object} (h : e.Names x) :
    (∃ v, e = .literal v ∧ v.Names x) ∨ (∃ id, e = .lambda id ∧ x = .code id) ∨
      (∃ callee args tail site, e = .apply callee args tail site ∧ x = .site site) ∨
      ∃ below, Child below e ∧ below.Names x := by
  cases h with
  | literal part names =>
    rcases Relation.ReflTransGen.cases_tail part with rfl | ⟨below, hpart, hchild⟩
    · exact .inl ⟨_, rfl, names⟩
    · exact .inr (.inr (.inr ⟨below, hchild, .literal hpart names⟩))
  | lambda part =>
    rcases Relation.ReflTransGen.cases_tail part with rfl | ⟨below, hpart, hchild⟩
    · exact .inr (.inl ⟨_, rfl, rfl⟩)
    · exact .inr (.inr (.inr ⟨below, hchild, .lambda hpart⟩))
  | apply part =>
    rcases Relation.ReflTransGen.cases_tail part with rfl | ⟨below, hpart, hchild⟩
    · exact .inr (.inr (.inl ⟨_, _, _, _, rfl, rfl⟩))
    · exact .inr (.inr (.inr ⟨below, hchild, .apply hpart⟩))

end Expr.Names

namespace Expr

@[simp] theorem names_lambda {id : CodeId} {x : Object} :
    (Expr.lambda id).Names x ↔ x = .code id := by
  constructor
  · intro h
    rcases h.here_or_below with ⟨_, heq, _⟩ | ⟨_, heq, hx⟩ | ⟨_, _, _, _, heq, _⟩ | ⟨_, hbelow, _⟩
    · cases heq
    · obtain rfl := Expr.lambda.inj heq
      exact hx
    · cases heq
    · cases hbelow
  · rintro rfl
    exact .lambda (Part.refl _)

@[simp] theorem names_read {slot : SlotId} {depth : Nat} {x : Object} :
    ¬ (Expr.read slot depth).Names x := by
  intro h
  rcases h.here_or_below with ⟨_, h, _⟩ | ⟨_, h, _⟩ | ⟨_, _, _, _, h, _⟩ | ⟨_, h, _⟩ <;> cases h

@[simp] theorem names_write {slot : SlotId} {depth : Nat} {value : Expr} {x : Object} :
    (Expr.write slot depth value).Names x ↔ value.Names x := by
  constructor
  · intro h
    rcases h.here_or_below with ⟨_, heq, _⟩ | ⟨_, heq, _⟩ | ⟨_, _, _, _, heq, _⟩ | ⟨_, hbelow, hx⟩
    · cases heq
    · cases heq
    · cases heq
    · cases hbelow
      exact hx
  · exact fun h => h.of_child .value

@[simp] theorem names_literal {v : Value} {x : Object} :
    (Expr.literal v).Names x ↔ v.Names x := by
  constructor
  · intro h
    rcases h.here_or_below with ⟨_, heq, hx⟩ | ⟨_, heq, _⟩ | ⟨_, _, _, _, heq, _⟩ | ⟨_, hbelow, _⟩
    · obtain rfl := Expr.literal.inj heq
      exact hx
    · cases heq
    · cases heq
    · cases hbelow
  · exact fun h => .literal (Part.refl _) h

@[simp] theorem names_begin {items : List Expr} {x : Object} :
    (Expr.begin items).Names x ↔ ∃ e ∈ items, e.Names x := by
  constructor
  · intro h
    rcases h.here_or_below with ⟨_, heq, _⟩ | ⟨_, heq, _⟩ | ⟨_, _, _, _, heq, _⟩ | ⟨e, hbelow, hx⟩
    · cases heq
    · cases heq
    · cases heq
    · cases hbelow with
      | item hmem => exact ⟨e, hmem, hx⟩
  · rintro ⟨e, hmem, hx⟩
    exact hx.of_child (.item hmem)

@[simp] theorem names_apply {callee : Expr} {args : List Expr} {tail : Bool} {site : SiteId}
    {x : Object} : (Expr.apply callee args tail site).Names x ↔
      callee.Names x ∨ (∃ e ∈ args, e.Names x) ∨ x = .site site := by
  constructor
  · intro h
    rcases h.here_or_below with ⟨_, heq, _⟩ | ⟨_, heq, _⟩ | ⟨_, _, _, _, heq, hx⟩ | ⟨e, hbelow, hx⟩
    · cases heq
    · cases heq
    · obtain ⟨-, -, -, rfl⟩ := Expr.apply.inj heq
      exact .inr (.inr hx)
    · cases hbelow with
      | callee => exact .inl hx
      | argument hmem => exact .inr (.inl ⟨e, hmem, hx⟩)
  · rintro (hx | ⟨e, hmem, hx⟩ | rfl)
    · exact hx.of_child .callee
    · exact hx.of_child (.argument hmem)
    · exact .apply (Part.refl _)

end Expr

namespace Store

/-- The object has been given out. Codes are there from the start. -/
def Has (a : Store) : Object → Prop
  | .frame id => id.index < a.frames.size
  | .box id => id.index < a.boxes.size
  | .cell id => id.index < a.cells.size
  | .host id => id.index < a.hosts.size
  | .site id => id.index < a.sites.size
  | .code _ => True

/-- One object leads to another at once. -/
inductive Points (library : Library) (a : Store) : Object → Object → Prop where
  | parent {f g : FrameId} (h : (a.frame f).parent = some g) :
      Points library a (.frame f) (.frame g)
  | slot {f : FrameId} {v : Value} {x : Object} (h : (a.frame f).Contains v) (names : v.Names x) :
      Points library a (.frame f) x
  | content {b : BoxId} {x : Object} (names : (a.box b).Names x) : Points library a (.box b) x
  | target {c : CellId} {id : CodeId} (h : (a.cell c).target = .lambda id) :
      Points library a (.cell c) (.code id)
  | body {id : CodeId} {x : Object} (names : (library.code id).body.Names x) :
      Points library a (.code id) x

theorem Points.has {library : Library} {a : Store} {x y : Object} (h : a.Points library x y) :
    a.Has x := by
  refine Classical.byContradiction fun hno => ?_
  -- Out of range there are an empty frame around which there is none, unit and an unbound cell.
  cases h with
  | parent h =>
    simp [frame, Array.getD_eq_getD_getElem?, Array.getElem?_eq_none (Nat.not_lt.1 hno),
      Frame.activate] at h
  | slot h _ =>
    simp only [frame, Array.getD_eq_getD_getElem?, Array.getElem?_eq_none (Nat.not_lt.1 hno)] at h
    exact Frame.not_contains_activate _ _ _ h
  | content names =>
    simp only [box, Array.getD_eq_getD_getElem?, Array.getElem?_eq_none (Nat.not_lt.1 hno)] at names
    cases names
  | target h =>
    simp [cell, Array.getD_eq_getD_getElem?, Array.getElem?_eq_none (Nat.not_lt.1 hno)] at h
  | body _ => exact hno trivial

/-- What the roots lead to. -/
inductive Reaches (library : Library) (a : Store) (roots : Object → Prop) : Object → Prop where
  | root {x : Object} (h : roots x) : Reaches library a roots x
  | step {x y : Object} (h : Reaches library a roots x) (points : a.Points library x y) :
      Reaches library a roots y

variable {library : Library} {a b : Store} {x y : Object}

theorem Reaches.least {roots K : Object → Prop} (h : a.Reaches library roots x)
    (hroots : ∀ x, roots x → K x) (hclosed : ∀ x y, K x → a.Points library x y → K y) : K x := by
  induction h with
  | root h => exact hroots _ h
  | step _ points ih => exact hclosed _ _ ih points

theorem not_reaches_of_isScalar {v : Value} (h : v.isScalar = true) :
    ¬ a.Reaches library v.Names x := by
  intro hreach
  induction hreach with
  | root hx => exact Value.not_names_of_isScalar h _ hx
  | step _ _ ih => exact ih

theorem Reaches.of_values {vs : List Value}
    (h : a.Reaches library (fun x => ∃ v ∈ vs, v.Names x) x) :
    ∃ v ∈ vs, a.Reaches library v.Names x := by
  induction h with
  | root h =>
    obtain ⟨v, hv, names⟩ := h
    exact ⟨v, hv, .root names⟩
  | step _ points ih =>
    obtain ⟨v, hv, hreach⟩ := ih
    exact ⟨v, hv, hreach.step points⟩

theorem Points.of_same (h : b.Points library x y)
    (hframe : ∀ f, x = .frame f → b.frame f = a.frame f)
    (hbox : ∀ c, x = .box c → b.box c = a.box c)
    (hcell : ∀ c, x = .cell c → b.cell c = a.cell c) : a.Points library x y := by
  cases h with
  | parent h => exact .parent (hframe _ rfl ▸ h)
  | slot h names => exact .slot (hframe _ rfl ▸ h) names
  | content names => exact .content (hbox _ rfl ▸ names)
  | target h => exact .target (hcell _ rfl ▸ h)
  | body names => exact .body names

theorem Reaches.of_same {roots : Object → Prop} (h : b.Reaches library roots x)
    (hframe : ∀ f, a.Reaches library roots (.frame f) → b.frame f = a.frame f)
    (hbox : ∀ c, a.Reaches library roots (.box c) → b.box c = a.box c)
    (hcell : ∀ c, a.Reaches library roots (.cell c) → b.cell c = a.cell c) :
    a.Reaches library roots x := by
  refine h.least (fun x hx => .root hx) fun x y hx points => hx.step (points.of_same ?_ ?_ ?_)
  · rintro f rfl
    exact hframe f hx
  · rintro c rfl
    exact hbox c hx
  · rintro c rfl
    exact hcell c hx

theorem points_addCell {c : FunctionCell} (h : (a.addCell c).2.Points library x y) :
    a.Points library x y ∨ ∃ id, c.target = .lambda id ∧ y = .code id := by
  cases h with
  | target h =>
    rw [cell_addCell] at h
    split at h
    · exact .inr ⟨_, h, rfl⟩
    · exact .inl (.target h)
  | parent h => exact .inl (.parent h)
  | slot h names => exact .inl (.slot h names)
  | content names => exact .inl (.content names)
  | body names => exact .inl (.body names)

theorem points_addFrame {f : Frame} (h : (a.addFrame f).2.Points library x y) :
    a.Points library x y ∨ (∃ g, f.parent = some g ∧ y = .frame g) ∨
      ∃ v, f.Contains v ∧ v.Names y := by
  cases h with
  | parent h =>
    rw [frame_addFrame] at h
    split at h
    · exact .inr (.inl ⟨_, h, rfl⟩)
    · exact .inl (.parent h)
  | slot h names =>
    rw [frame_addFrame] at h
    split at h
    · exact .inr (.inr ⟨_, h, names⟩)
    · exact .inl (.slot h names)
  | content names => exact .inl (.content names)
  | target h => exact .inl (.target h)
  | body names => exact .inl (.body names)

theorem points_of_box {v : Value} (hframe : ∀ f, b.frame f = a.frame f)
    (hcell : ∀ c, b.cell c = a.cell c) (hbox : ∀ c, b.box c = a.box c ∨ b.box c = v)
    (h : b.Points library x y) : a.Points library x y ∨ v.Names y := by
  cases h with
  | @content c z names =>
    rcases hbox c with hsame | hnew
    · exact .inl (.content (hsame ▸ names))
    · exact .inr (hnew ▸ names)
  | parent h => exact .inl (.parent (hframe _ ▸ h))
  | slot h names => exact .inl (.slot (hframe _ ▸ h) names)
  | target h => exact .inl (.target (hcell _ ▸ h))
  | body names => exact .inl (.body names)

theorem points_setFrame {id : FrameId} {slot : SlotId} {v : Value} {f : Frame}
    (hw : (a.frame id).write slot v = .ok f) (h : (a.setFrame id f).Points library x y) :
    a.Points library x y ∨ v.Names y := by
  cases h with
  | @parent g up h =>
    rw [frame_setFrame] at h
    split at h
    · rename_i hid
      obtain rfl : id = g := congrArg FrameId.mk hid.1
      rw [(Frame.shape_of_write hw).2.1] at h
      exact .inl (.parent h)
    · exact .inl (.parent h)
  | @slot g w z h names =>
    rw [frame_setFrame] at h
    split at h
    · rename_i hid
      obtain rfl : id = g := congrArg FrameId.mk hid.1
      -- The frame has the new value at most besides those that it had.
      rcases Frame.contains_of_write hw h with rfl | hold
      · exact .inr names
      · exact .inl (.slot hold names)
    · exact .inl (.slot h names)
  | content names => exact .inl (.content names)
  | target h => exact .inl (.target h)
  | body names => exact .inl (.body names)

theorem ancestor_of_closed {K : Object → Prop}
    (hclosed : ∀ x y, K x → a.Points library x y → K y) {f target : FrameId} {depth : Nat}
    (hf : K (.frame f)) (h : a.ancestor f depth = .ok target) : K (.frame target) := by
  induction depth generalizing f with
  | zero =>
    obtain rfl := Except.ok.inj h
    exact hf
  | succ depth ih =>
    -- One level out is one parent link.
    cases hparent : (a.frame f).parent with
    | none => simp [ancestor, hparent] at h
    | some up =>
      simp only [ancestor, hparent] at h
      exact ih (hclosed _ _ hf (.parent hparent)) h

end Store

end TreeMachine
